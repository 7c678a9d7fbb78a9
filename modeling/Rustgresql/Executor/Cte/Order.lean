import Rustgresql.Executor.Cte
import Rustgresql.Lib.Levels

/-!
# The order of common table expressions

`buildExecutionOrder_iff`: in every iteration order of the hash sets all expressions are executed once, and
after the others that they reference, if and only if the names are distinct and every reference to another
expression goes to an earlier round, where the rounds follow from the dependencies that are recorded.
-/

namespace Rustgresql

open Sql (Text SelectStatement Statement TableRef JoinCondition ColumnSpec OrderBy WindowClause NamedWindow
  CaseBranch CommonTableExpression WithClause)

/-! ## References -/

namespace CteReferences

def windowExpressions (clause : WindowClause Sql.Expression) : List Sql.Expression :=
  clause.partitionBy ++ clause.orderBy.map OrderBy.expr

/-- The expressions in an expression -/
def parts : Sql.Expression → List Sql.Expression
  | .function _ args _ => args
  | .windowFunction _ args clause _ => args ++ windowExpressions clause
  | .binaryOp left _ right => [left, right]
  | .unaryOp _ expr => [expr]
  | .cast expr _ => [expr]
  | .list es => es
  | .case base branches elseResult =>
    base.toList ++ branches.flatMap (fun branch => [branch.condition, branch.result]) ++ elseResult.toList
  | .column .. | .value _ | .subquery _ | .exists .. | .star => []

/-- The subquery that an expression is -/
def subquery : Sql.Expression → Option Statement
  | .subquery query => some query
  | .exists query _ => some query
  | _ => none

/-- The table references in FROM and in JOINs -/
def tableRefs : SelectStatement → List (TableRef Statement)
  | .simple _ _ _ source joins _ _ _ _ _ _ _ => source ++ joins.map JoinCondition.table
  | .setOperation .. => []

/-- The expressions of a query -/
def expressions : SelectStatement → List Sql.Expression
  | .simple _ _ columns _ joins whereClause groupBy having orderBy _ _ namedWindows =>
    columns.map ColumnSpec.expr ++ joins.filterMap JoinCondition.condition ++ whereClause.toList ++ groupBy ++
      having.toList ++ orderBy.map OrderBy.expr ++
      namedWindows.flatMap fun window => windowExpressions window.windowClause
  | .setOperation .. => []

/-- The common table expressions that a query defines itself -/
def ownCtes : SelectStatement → List (CommonTableExpression SelectStatement)
  | .simple (some withClause) .. => withClause.ctes
  | _ => []

/-- The queries of which a query is made -/
def operands : SelectStatement → List SelectStatement
  | .setOperation _ left right _ => [left, right]
  | query => (ownCtes query).map CommonTableExpression.query

mutual

/-- A query names a table that it does not define itself. -/
inductive References : SelectStatement → Text → Prop
  | table {query : SelectStatement} {name : Text} {tableAlias : Option Text} : .table name tableAlias ∈ tableRefs query →
    (∀ cte ∈ ownCtes query, cte.name ≠ name) → References query name
  | derived {query inner : SelectStatement} {name : Text} {tableAlias : Option Text} :
    .subquery (.select inner) tableAlias ∈ tableRefs query → References inner name →
    (∀ cte ∈ ownCtes query, cte.name ≠ name) → References query name
  | operand {query inner : SelectStatement} {name : Text} : inner ∈ operands query → References inner name →
    (∀ cte ∈ ownCtes query, cte.name ≠ name) → References query name
  | expression {query : SelectStatement} {e : Sql.Expression} {name : Text} : e ∈ expressions query →
    ReferencesInside e name → (∀ cte ∈ ownCtes query, cte.name ≠ name) → References query name

/-- A subquery in an expression names a table. -/
inductive ReferencesInside : Sql.Expression → Text → Prop
  | part {e part : Sql.Expression} {name : Text} : part ∈ parts e → ReferencesInside part name → ReferencesInside e name
  | subquery {e : Sql.Expression} {inner : SelectStatement} {name : Text} : subquery e = some (.select inner) →
    References inner name → ReferencesInside e name

end

end CteReferences

open CteReferences (References)

namespace CteDependencyGraph

/-! ## Rounds -/

/-- The greatest of some rounds -/
def lastRound (rounds : Text → ℕ) (names : List Text) : ℕ := (names.map rounds).foldr max 0

theorem lastRound_le {rounds : Text → ℕ} {names : List Text} {n : ℕ} :
    lastRound rounds names ≤ n ↔ ∀ name ∈ names, rounds name ≤ n := by
  induction names with
  | nil => simp [lastRound]
  | cons name names ih =>
    rw [List.forall_mem_cons, ← ih, lastRound, List.map_cons, List.foldr_cons, max_le_iff]
    rfl

/-- The round of every expression, when the expressions are added one after the other: the non-recursive ones come
first, a recursive one after its recorded dependencies. -/
def rounds (ctes : List (CommonTableExpression SelectStatement)) : Text → ℕ :=
  (ctes.foldl (fun (state : CteNodes × (Text → ℕ)) cte =>
    (addCte state.1 cte, Function.update state.2 cte.name
      (if cte.recursive then lastRound state.2 (extractQueryDependencies state.1 cte.query) + 1 else 0)))
    (∅, fun _ => 0)).2

/-- The rounds of a graph are those in which its expressions are executed. -/
structure HasRounds (nodes : CteNodes) (rounds : Text → ℕ) : Prop where
  round_eq : ∀ name node, nodes.lookup name = some node →
    rounds name = if node.isRecursive then lastRound rounds node.dependencies + 1 else 0
  closed : ∀ name node, nodes.lookup name = some node → ∀ dep ∈ node.dependencies, dep ∈ nodes

section Run

variable {nodes : CteNodes} {rounds : Text → ℕ} {iteration : ℕ → List Text → List Text}

/-- A recursive expression is ready when its round has come. -/
theorem isReady_iff (h : HasRounds nodes rounds) {processed : List Text} {round : ℕ} {name : Text}
    (hprocessed : ∀ name ∈ nodes, name ∈ processed ↔ rounds name < round) (hname : name ∈ nodes)
    (hpositive : 0 < rounds name) (hround : 0 < round) :
    isReady nodes processed name = true ↔ rounds name ≤ round := by
  obtain ⟨node, hnode⟩ := Option.isSome_iff_exists.mp (AList.lookup_isSome.mpr hname)
  have heq := h.round_eq name node hnode
  have hrecursive : node.isRecursive = true := by
    by_contra hnot
    rw [if_neg hnot] at heq
    omega
  rw [if_pos hrecursive] at heq
  rw [isReady, hnode, Option.any_some, List.all_eq_true, heq, Nat.succ_le_iff, ← Nat.le_pred_iff_lt hround, lastRound_le]
  refine forall₂_congr fun dep hdep => ?_
  rw [List.contains_iff_mem, hprocessed dep (h.closed name node hnode dep hdep), Nat.le_pred_iff_lt hround]

theorem exists_eq_lastRound {names : List Text} (hpos : 0 < lastRound rounds names) :
    ∃ name ∈ names, rounds name = lastRound rounds names := by
  by_contra hnone
  have hle : lastRound rounds names ≤ lastRound rounds names - 1 := lastRound_le.mpr fun name hname => by
    have hbound : rounds name ≤ lastRound rounds names := lastRound_le.mp le_rfl name hname
    have hne : rounds name ≠ lastRound rounds names := fun heq => hnone ⟨name, hname, heq⟩
    omega
  omega

/-- No round is left out. -/
theorem exists_round_eq (h : HasRounds nodes rounds) {round : ℕ} (hpos : 0 < round)
    (hle : round ≤ lastRound rounds nodes.keys) : ∃ name ∈ nodes, rounds name = round := by
  induction hle using Nat.decreasingInduction with
  | self => exact exists_eq_lastRound hpos
  | of_succ round hlt ih =>
    obtain ⟨name, hname, heq⟩ := ih (Nat.succ_pos round)
    obtain ⟨node, hnode⟩ := Option.isSome_iff_exists.mp (AList.lookup_isSome.mpr hname)
    have hround := h.round_eq name node hnode
    split_ifs at hround with hrecursive
    · have hlast : lastRound rounds node.dependencies = round := by omega
      obtain ⟨dep, hdep, hdepRound⟩ := exists_eq_lastRound (hlast.symm ▸ hpos)
      exact ⟨dep, h.closed name node hnode dep hdep, hdepRound.trans hlast⟩
    · omega

/-- The recursive expressions come out round by round. -/
theorem recursiveGroups_eq (h : HasRounds nodes rounds) (horder : Levels.Permutes iteration) {k round : ℕ}
    {processed : List Text} (hpos : 0 < round) (hk : round + k = lastRound rounds nodes.keys + 1)
    (hprocessed : ∀ name ∈ nodes, name ∈ processed ↔ rounds name < round) :
    recursiveGroups iteration nodes round processed (nodes.keys.filter fun name => round ≤ rounds name) =
      .ok ((List.range' round k).flatMap fun n =>
        (iteration n (nodes.keys.filter fun name => rounds name = n)).map fun name => [name]) := by
  induction k generalizing round processed with
  | zero =>
    have hnone : (nodes.keys.filter fun name => round ≤ rounds name) = [] := by
      refine List.filter_eq_nil_iff.mpr fun name hname => ?_
      have hle : rounds name ≤ lastRound rounds nodes.keys := lastRound_le.mp le_rfl name hname
      rw [decide_eq_true_eq]
      omega
    rw [recursiveGroups, hnone]
    rfl
  | succ k ih =>
    obtain ⟨first, hfirst, hround⟩ := exists_round_eq h hpos (by omega)
    have hready : readyCtes nodes processed (nodes.keys.filter fun name => round ≤ rounds name) =
        nodes.keys.filter fun name => rounds name = round := by
      rw [readyCtes, List.filter_filter]
      refine List.filter_congr fun name hname => ?_
      by_cases hle : round ≤ rounds name
      · have hiff := isReady_iff h hprocessed hname (hpos.trans_le hle) hpos
        rw [Bool.eq_iff_iff, Bool.and_eq_true, hiff, decide_eq_true_eq, decide_eq_true_eq]
        omega
      · have hne : rounds name ≠ round := by omega
        simp [hle, hne]
    have hwaiting : waitingCtes nodes processed (nodes.keys.filter fun name => round ≤ rounds name) =
        nodes.keys.filter fun name => round + 1 ≤ rounds name := by
      rw [waitingCtes, List.filter_filter]
      refine List.filter_congr fun name hname => ?_
      by_cases hle : round ≤ rounds name
      · have hiff := isReady_iff h hprocessed hname (hpos.trans_le hle) hpos
        rw [Bool.eq_iff_iff, Bool.and_eq_true, Bool.not_eq_true', Bool.eq_false_iff, ne_eq, hiff, decide_eq_true_eq,
          decide_eq_true_eq]
        omega
      · have hlt : ¬ round + 1 ≤ rounds name := by omega
        simp [hle, hlt]
    have hmem : first ∈ nodes.keys.filter fun name => rounds name = round :=
      List.mem_filter.mpr ⟨hfirst, decide_eq_true hround⟩
    have hremaining : ¬ (nodes.keys.filter fun name => round ≤ rounds name).isEmpty = true := by
      rw [List.isEmpty_iff]
      exact List.ne_nil_of_mem (List.mem_filter.mpr ⟨hfirst, decide_eq_true hround.ge⟩ : first ∈ _)
    have hprocessed' : ∀ name ∈ nodes, name ∈ processed ++ iteration round (nodes.keys.filter fun name =>
        rounds name = round) ↔ rounds name < round + 1 := by
      intro name hname
      rw [List.mem_append, hprocessed name hname, (horder round _).mem_iff, List.mem_filter, decide_eq_true_eq,
        and_iff_right (AList.mem_keys.mp hname)]
      omega
    have hrest := ih (Nat.succ_pos round) (by omega) hprocessed'
    rw [recursiveGroups, if_neg hremaining, hready, dif_neg (List.ne_nil_of_mem hmem), hwaiting]
    dsimp only
    rw [hrest, List.range'_succ, List.flatMap_cons]
    rfl

theorem isRecursive_iff (h : HasRounds nodes rounds) {name : Text} (hname : name ∈ nodes) :
    isRecursive nodes name = true ↔ 0 < rounds name := by
  obtain ⟨node, hnode⟩ := Option.isSome_iff_exists.mp (AList.lookup_isSome.mpr hname)
  have heq := h.round_eq name node hnode
  rw [isRecursive, hnode, Option.any_some]
  split_ifs at heq with hrecursive
  · exact iff_of_true hrecursive (by omega)
  · exact iff_of_false hrecursive (by omega)

theorem flatten_singletons (names : List Text) : (names.map fun name => [name]).flatten = names := by
  rw [← List.flatMap_def, List.flatMap_singleton']

/-- The expressions are executed round by round. -/
theorem exists_buildExecutionOrder (h : HasRounds nodes rounds) (horder : Levels.Permutes iteration) :
    ∃ groups, buildExecutionOrder iteration nodes = .ok groups ∧
      groups.flatten = Levels.inLevels rounds iteration nodes.keys (lastRound rounds nodes.keys) := by
  have hnonRecursive : (nodes.keys.filter fun name => ! isRecursive nodes name) =
      nodes.keys.filter fun name => rounds name = 0 := by
    refine List.filter_congr fun name hname => ?_
    rw [Bool.eq_iff_iff, Bool.not_eq_true', Bool.eq_false_iff, ne_eq, isRecursive_iff h (AList.mem_keys.mpr hname),
      decide_eq_true_eq]
    omega
  have hrecursive : nodes.keys.filter (isRecursive nodes) = nodes.keys.filter fun name => 1 ≤ rounds name := by
    refine List.filter_congr fun name hname => ?_
    rw [Bool.eq_iff_iff, isRecursive_iff h (AList.mem_keys.mpr hname), decide_eq_true_eq]
    omega
  have hprocessed : ∀ name ∈ nodes, name ∈ iteration 0 (nodes.keys.filter fun name => rounds name = 0) ↔
      rounds name < 1 := by
    intro name hname
    rw [(horder 0 _).mem_iff, List.mem_filter, decide_eq_true_eq, and_iff_right (AList.mem_keys.mp hname)]
    omega
  have hgroups := recursiveGroups_eq h horder Nat.one_pos (Nat.add_comm 1 _) hprocessed
  have hflatten (l : List ℕ) : (l.flatMap fun n =>
      (iteration n (nodes.keys.filter fun name => rounds name = n)).map fun name => [name]).flatten =
      l.flatMap fun n => iteration n (nodes.keys.filter fun name => rounds name = n) := by
    induction l with
    | nil => rfl
    | cons n l ih => rw [List.flatMap_cons, List.flatten_append, flatten_singletons, ih, List.flatMap_cons]
  rw [buildExecutionOrder, hnonRecursive, hrecursive, hgroups]
  refine ⟨_, rfl, ?_⟩
  have hrounds : Levels.inLevels rounds iteration nodes.keys (lastRound rounds nodes.keys) =
      iteration 0 (nodes.keys.filter fun name => rounds name = 0) ++
        (List.range' 1 (lastRound rounds nodes.keys)).flatMap fun n =>
          iteration n (nodes.keys.filter fun name => rounds name = n) := by
    rw [Levels.inLevels, List.range_eq_range', List.range'_succ, List.flatMap_cons]
  rw [hrounds, ← hflatten]
  split_ifs with hempty
  · rw [List.isEmpty_iff.mp hempty, List.nil_append]
  · rfl

/-- Whatever the graph, every expression in it is executed once. -/
theorem flatten_recursiveGroups_perm (horder : Levels.Permutes iteration) {round : ℕ}
    {processed remaining : List Text} {groups : List (List Text)}
    (hgroups : recursiveGroups iteration nodes round processed remaining = .ok groups) :
    groups.flatten.Perm remaining := by
  fun_induction recursiveGroups iteration nodes round processed remaining generalizing groups with
  | case1 round processed remaining hempty =>
    rw [← Except.ok.inj hgroups, List.isEmpty_iff.mp hempty]
    rfl
  | case2 => cases hgroups
  | case3 round processed remaining _ _ currentGroup =>
    rename_i ih
    obtain ⟨rest, hrest, hgroups⟩ := Result.bind_eq_ok.mp hgroups
    rw [← Except.ok.inj hgroups, List.flatten_append, flatten_singletons]
    refine ((horder round _).append (ih hrest)).trans ?_
    exact List.filter_append_perm _ _

theorem flatten_perm_keys (horder : Levels.Permutes iteration) {groups : List (List Text)}
    (hgroups : buildExecutionOrder iteration nodes = .ok groups) : groups.flatten.Perm nodes.keys := by
  obtain ⟨rest, hrest, hgroups⟩ := Result.bind_eq_ok.mp hgroups
  have hflatten : groups.flatten =
      iteration 0 (nodes.keys.filter fun name => ! isRecursive nodes name) ++ rest.flatten := by
    rw [← Except.ok.inj hgroups]
    split_ifs with hempty
    · rw [List.isEmpty_iff.mp hempty, List.nil_append]
    · rfl
  rw [hflatten]
  refine ((horder 0 _).append (flatten_recursiveGroups_perm horder hrest)).trans ?_
  exact List.perm_append_comm.trans (List.filter_append_perm _ _)

end Run

/-! ## The rounds of a WITH clause -/

section Clause

mutual

/-- Dependencies are expressions of the graph. -/
theorem mem_of_mem_queryDependencies {nodes : CteNodes} {name : Text} :
    ∀ {query : SelectStatement}, name ∈ extractQueryDependencies nodes query → name ∈ nodes
  | .simple .., h => by
    rw [extractQueryDependencies] at h
    exact (List.mem_append.mp h).elim mem_of_mem_sourceDependencies mem_of_mem_joinDependencies
  | .setOperation .., h => by
    rw [extractQueryDependencies] at h
    exact (List.mem_append.mp h).elim mem_of_mem_queryDependencies mem_of_mem_queryDependencies

theorem mem_of_mem_tableDependencies {nodes : CteNodes} {name : Text} :
    ∀ {tableRef : TableRef Statement}, name ∈ extractTableDependencies nodes tableRef → name ∈ nodes
  | .table table _, h => by
    rw [extractTableDependencies] at h
    split_ifs at h with hmem
    · rwa [List.mem_singleton.mp h]
    · cases h
  | .subquery subquery _, h => by
    rw [extractTableDependencies] at h
    exact mem_of_mem_statementDependencies h

theorem mem_of_mem_statementDependencies {nodes : CteNodes} {name : Text} :
    ∀ {statement : Statement}, name ∈ extractStatementDependencies nodes statement → name ∈ nodes
  | .select query, h => by
    rw [extractStatementDependencies] at h
    exact mem_of_mem_queryDependencies h

theorem mem_of_mem_sourceDependencies {nodes : CteNodes} {name : Text} :
    ∀ {source : List (TableRef Statement)}, name ∈ extractSourceDependencies nodes source → name ∈ nodes
  | tableRef :: source, h => by
    rw [extractSourceDependencies] at h
    exact (List.mem_append.mp h).elim mem_of_mem_tableDependencies mem_of_mem_sourceDependencies

theorem mem_of_mem_joinDependencies {nodes : CteNodes} {name : Text} :
    ∀ {joins : List (JoinCondition Sql.Expression Statement)}, name ∈ extractJoinDependencies nodes joins → name ∈ nodes
  | ⟨table, _, _⟩ :: joins, h => by
    rw [extractJoinDependencies] at h
    exact (List.mem_append.mp h).elim mem_of_mem_tableDependencies mem_of_mem_joinDependencies

end

variable {ctes : List (CommonTableExpression SelectStatement)} {cte : CommonTableExpression SelectStatement}

theorem ofCtes_append : ofCtes (ctes ++ [cte]) = addCte (ofCtes ctes) cte := by
  rw [ofCtes, List.foldl_append]
  rfl

theorem rounds_append : rounds (ctes ++ [cte]) = Function.update (rounds ctes) cte.name
    (if cte.recursive then lastRound (rounds ctes) (extractQueryDependencies (ofCtes ctes) cte.query) + 1 else 0) := by
  have hnodes : (ctes.foldl (fun (state : CteNodes × (Text → ℕ)) cte =>
      (addCte state.1 cte, Function.update state.2 cte.name
        (if cte.recursive then lastRound state.2 (extractQueryDependencies state.1 cte.query) + 1 else 0)))
      (∅, fun _ => 0)).1 = ofCtes ctes := by
    induction ctes using List.reverseRecOn with
    | nil => rfl
    | append_singleton ctes cte ih =>
      rw [List.foldl_append, ofCtes_append, ← ih]
      rfl
  rw [rounds, List.foldl_append, List.foldl_cons, List.foldl_nil, hnodes]
  rfl

theorem mem_ofCtes {name : Text} : name ∈ ofCtes ctes ↔ name ∈ ctes.map CommonTableExpression.name := by
  induction ctes using List.reverseRecOn with
  | nil => simp [ofCtes]
  | append_singleton ctes cte ih =>
    rw [ofCtes_append, addCte, AList.mem_insert, ih, List.map_append, List.mem_append, List.map_singleton,
      List.mem_singleton]
    exact or_comm

theorem lastRound_congr {f g : Text → ℕ} {names : List Text} (h : ∀ name ∈ names, f name = g name) :
    lastRound f names = lastRound g names := by
  rw [lastRound, lastRound, List.map_congr_left h]

/-- If the names are distinct then the rounds are those of the graph. -/
theorem hasRounds_ofCtes (h : (ctes.map CommonTableExpression.name).Nodup) : HasRounds (ofCtes ctes) (rounds ctes) := by
  induction ctes using List.reverseRecOn with
  | nil => exact ⟨fun _ _ hnode => (nomatch hnode), fun _ _ hnode => (nomatch hnode)⟩
  | append_singleton ctes cte ih =>
    rw [List.map_append, List.map_singleton, List.nodup_append] at h
    obtain ⟨hnodup, -, hnew⟩ := h
    have hrounds := ih hnodup
    -- the rounds of the expressions that are in the graph already stay
    have hold : ∀ name ∈ ofCtes ctes, name ≠ cte.name ∧ rounds (ctes ++ [cte]) name = rounds ctes name := by
      intro name hname
      have hne := hnew name (mem_ofCtes.mp hname) cte.name List.mem_cons_self
      exact ⟨hne, by rw [rounds_append, Function.update_of_ne hne]⟩
    have hlast {names : List Text} (hnames : ∀ name ∈ names, name ∈ ofCtes ctes) :
        lastRound (rounds (ctes ++ [cte])) names = lastRound (rounds ctes) names :=
      lastRound_congr fun name hname => (hold name (hnames name hname)).2
    have hcases {name : Text} {node : CteNode} (hnode : (ofCtes (ctes ++ [cte])).lookup name = some node) :
        (name = cte.name ∧ node = ⟨cte.name, cte.recursive, extractQueryDependencies (ofCtes ctes) cte.query⟩) ∨
        (ofCtes ctes).lookup name = some node := by
      rw [ofCtes_append, addCte] at hnode
      by_cases heq : name = cte.name
      · rw [heq, AList.lookup_insert] at hnode
        exact .inl ⟨heq, (Option.some.inj hnode).symm⟩
      · rw [AList.lookup_insert_ne heq] at hnode
        exact .inr hnode
    constructor
    · intro name node hnode
      obtain ⟨rfl, rfl⟩ | hnode := hcases hnode
      · dsimp only
        rw [hlast fun name => mem_of_mem_queryDependencies, rounds_append, Function.update_self]
      · have hname : name ∈ ofCtes ctes := AList.lookup_isSome.mp (Option.isSome_of_eq_some hnode)
        rw [(hold name hname).2, hlast fun dep => hrounds.closed name node hnode dep]
        exact hrounds.round_eq name node hnode
    · intro name node hnode dep hdep
      rw [ofCtes_append, addCte, AList.mem_insert]
      obtain ⟨rfl, rfl⟩ | hnode := hcases hnode
      · exact .inr (mem_of_mem_queryDependencies hdep)
      · exact .inr (hrounds.closed name node hnode dep hdep)

end Clause

/-! ## Execution orders -/

/-- In every iteration order of the hash sets every expression is executed once, and after the others that it
references. -/
def IsOrdered (ctes : List (CommonTableExpression SelectStatement)) : Prop :=
  ∀ iteration, Levels.Permutes iteration → ∃ groups, buildExecutionOrder iteration (ofCtes ctes) = .ok groups ∧
    groups.flatten.Perm (ctes.map CommonTableExpression.name) ∧
    groups.flatten.Pairwise fun a b => ¬ ∃ cte ∈ ctes, cte.name = a ∧ References cte.query b

/-- All expressions are executed once and in order if and only if the names are distinct, and every reference to
another expression goes to an earlier round. -/
theorem buildExecutionOrder_iff (ctes : List (CommonTableExpression SelectStatement)) :
    IsOrdered ctes ↔ (ctes.map CommonTableExpression.name).Nodup ∧ ∀ a ∈ ctes, ∀ b ∈ ctes, a.name ≠ b.name →
      References a.query b.name → rounds ctes b.name < rounds ctes a.name := by
  have hnodes : (ofCtes ctes).keys.Nodup := (ofCtes ctes).keys_nodup
  have hbound : ∀ name ∈ (ofCtes ctes).keys, rounds ctes name ≤ lastRound (rounds ctes) (ofCtes ctes).keys :=
    lastRound_le.mp le_rfl
  have hkeys {name : Text} : name ∈ (ofCtes ctes).keys ↔ name ∈ ctes.map CommonTableExpression.name :=
    AList.mem_keys.symm.trans mem_ofCtes
  have hprecedes := Levels.precedes_iff (R := fun a b => ∃ cte ∈ ctes, cte.name = a ∧ References cte.query b) hbound hnodes
  constructor
  · intro h
    have hnodup : (ctes.map CommonTableExpression.name).Nodup := by
      obtain ⟨groups, hgroups, hperm, -⟩ := h (fun _ names => names) fun _ _ => .refl _
      exact (hperm.symm.trans (flatten_perm_keys (fun _ _ => .refl _) hgroups)).nodup_iff.mpr hnodes
    refine ⟨hnodup, fun a ha b hb hne hab => ?_⟩
    refine hprecedes.mp (fun iteration horder => ?_) a.name (hkeys.mpr (List.mem_map_of_mem ha)) b.name
      (hkeys.mpr (List.mem_map_of_mem hb)) hne ⟨a, ha, rfl, hab⟩
    obtain ⟨groups, hgroups, -, hpairwise⟩ := h iteration horder
    obtain ⟨groups', hgroups', hflatten⟩ := exists_buildExecutionOrder (hasRounds_ofCtes hnodup) horder
    obtain rfl := Except.ok.inj (hgroups.symm.trans hgroups')
    rwa [hflatten] at hpairwise
  · rintro ⟨hnodup, h⟩ iteration horder
    obtain ⟨groups, hgroups, hflatten⟩ := exists_buildExecutionOrder (hasRounds_ofCtes hnodup) horder
    have hperm : (ofCtes ctes).keys.Perm (ctes.map CommonTableExpression.name) :=
      (List.perm_ext_iff_of_nodup hnodes hnodup).mpr fun name => hkeys
    refine ⟨groups, hgroups, ?_, ?_⟩
    · rw [hflatten]
      exact (Levels.inLevels_perm horder hbound hnodes).trans hperm
    · rw [hflatten]
      refine hprecedes.mpr (fun a ha b hb hne hab => ?_) iteration horder
      obtain ⟨cte, hcte, rfl, href⟩ := hab
      obtain ⟨other, hother, rfl⟩ := List.mem_map.mp (hkeys.mp hb)
      exact h cte hcte other hother hne href

/-- `SELECT ... FROM name` -/
def selectFrom (name : Text) : SelectStatement :=
  .simple none false [] [.table name none] [] none [] none [] none none []

/-- `WITH RECURSIVE a AS (SELECT ... FROM t), b AS (SELECT ... FROM a)` -/
def chainOfTwo : List (CommonTableExpression SelectStatement) :=
  [⟨['a'], none, selectFrom ['t'], false⟩, ⟨['b'], none, selectFrom ['a'], false⟩]

theorem references_selectFrom {name table : Text} : References (selectFrom table) name ↔ name = table := by
  constructor
  · intro h
    cases h with
    | table htable _ =>
      obtain ⟨rfl, -⟩ := Sql.TableRef.table.inj (List.mem_singleton.mp htable)
      rfl
    | derived hinner _ _ => cases List.mem_singleton.mp hinner
    | operand hinner _ _ => cases hinner
    | expression he _ _ => cases he
  · rintro rfl
    exact .table List.mem_cons_self fun cte hcte => nomatch hcte

/-- Without recursive expressions the order is that in which the hash set is iterated. -/
theorem chain_out_of_order : ¬ ∀ ctes : List (CommonTableExpression SelectStatement),
    (ctes.map CommonTableExpression.name).Nodup →
    (∃ rank : Text → ℕ, ∀ a ∈ ctes, ∀ b ∈ ctes, a.name ≠ b.name → References a.query b.name → rank b.name < rank a.name) →
    IsOrdered ctes := by
  intro h
  have hacyclic : ∃ rank : Text → ℕ, ∀ a ∈ chainOfTwo, ∀ b ∈ chainOfTwo, a.name ≠ b.name →
      References a.query b.name → rank b.name < rank a.name := by
    refine ⟨fun name => if name = ['a'] then 0 else 1, fun a ha b hb hne hab => ?_⟩
    have hnames : b.name = ['a'] ∨ b.name = ['b'] := by
      rcases List.mem_cons.mp hb with rfl | hb
      · exact .inl rfl
      · obtain rfl := List.mem_singleton.mp hb
        exact .inr rfl
    rcases List.mem_cons.mp ha with rfl | ha
    · have htable : b.name = ['t'] := references_selectFrom.mp hab
      rw [htable] at hnames
      exact absurd hnames (by decide)
    · obtain rfl := List.mem_singleton.mp ha
      have htable : b.name = ['a'] := references_selectFrom.mp hab
      rw [htable]
      decide
  obtain ⟨groups, hgroups, -, hpairwise⟩ := h chainOfTwo (by decide) hacyclic (fun _ names => names) fun _ _ => .refl _
  have hrun : buildExecutionOrder (fun _ names => names) (ofCtes chainOfTwo) = .ok [[['b'], ['a']]] := by
    refine Result.bind_eq_ok.mpr ⟨[], ?_, rfl⟩
    rw [recursiveGroups]
    rfl
  obtain rfl := Except.ok.inj (hgroups.symm.trans hrun)
  refine (List.pairwise_cons.mp hpairwise).1 ['a'] List.mem_cons_self ⟨⟨['b'], none, selectFrom ['a'], false⟩, ?_, rfl, ?_⟩
  · exact List.mem_cons_of_mem _ List.mem_cons_self
  · exact references_selectFrom.mpr rfl

end CteDependencyGraph

end Rustgresql
