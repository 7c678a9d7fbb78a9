import Rustgresql.Optimizer.ConstantFolding
import Rustgresql.Optimizer.ProjectionPushdown

/-!
# Predicate pushdown (`optimizer/rules.rs`)

A filter over the scan of a table is dropped, since a scan has no place for a condition. A filter over the scan of an
index takes the place of the condition that is there. The results stay the same if and only if the dropped filters keep
all rows, and no alias matters that gets lost (`predicatePushdown_iff`).
-/

namespace Rustgresql.Optimizer

open ConstantFoldingRule (applyToExpression applyToExpression_eq getD_ite)
open ProjectionPushdownRule (size projected Returns singleRow forall_returns_iff filter_execute_eq_iff
  project_execute_eq_iff)

variable {S O : Type}

namespace PredicatePushdownRule

/-! ## The rule -/

/-- The comparisons that an index knows -/
def isConditionIndexable : Expression S → Bool
  | .binaryOp _ op _ =>
    match op with
    | .equals | .lessThan | .lessThanOrEquals | .greaterThan | .greaterThanOrEquals => true
    | _ => false
  | _ => false

def tryPushdownFilter (input : PlanNode S O) (condition : Expression S) : Option (PlanNode S O) :=
  match input with
  | .scan tableName columns _ => some (.scan tableName columns none)
  | .indexScan tableName indexName _ columns =>
    if isConditionIndexable condition then some (.indexScan tableName indexName (some condition) columns) else none
  | .indexOnlyScan tableName indexName _ columns =>
    if isConditionIndexable condition then some (.indexOnlyScan tableName indexName (some condition) columns) else none
  -- Cannot push down through other plan types
  | _ => none

theorem size_tryPushdownFilter {input newInput : PlanNode S O} {condition : Expression S}
    (h : tryPushdownFilter input condition = some newInput) : size newInput = size input := by
  cases input with
  | scan =>
    obtain rfl := Option.some.inj h
    rfl
  | indexScan | indexOnlyScan =>
    obtain ⟨-, hnew⟩ := Option.ite_none_right_eq_some.mp h
    obtain rfl := Option.some.inj hnew
    rfl
  | _ => cases h

/-- The condition of a join is not looked at: the arm that splits it comes after one that takes all joins. -/
def apply [FloatOperators] (overflowChecks : Bool) (plan : PlanNode S O) : Result (PlanNode S O) :=
  match plan with
  | .filter input condition =>
    match _h : tryPushdownFilter input condition with
    | some newInput => apply overflowChecks newInput
    | none => do
      let newInput ← apply overflowChecks input
      let optimizedCondition ← applyToExpression overflowChecks condition
      return .filter newInput (optimizedCondition.getD condition)
  | .project input columns _ _ _ => do
    let optimizedInput ← apply overflowChecks input
    return .project optimizedInput columns ∅ none none
  | .join left right condition joinType _ _ => do
    let optimizedLeft ← apply overflowChecks left
    let optimizedRight ← apply overflowChecks right
    return .join optimizedLeft optimizedRight condition joinType none none
  | plan => .ok plan
termination_by size plan
decreasing_by
  · rw [size_tryPushdownFilter _h, size]
    exact Nat.lt_succ_self _
  all_goals
    rw [size]
    omega

/-! ## The plan that the rule makes -/

def pushed : PlanNode S O → PlanNode S O
  | .filter input condition => (tryPushdownFilter input condition).getD (.filter (pushed input) condition)
  | .project input columns _ _ _ => .project (pushed input) columns ∅ none none
  | .join left right condition joinType _ _ => .join (pushed left) (pushed right) condition joinType none none
  | plan => plan

section Rule

variable [FloatOperators] {overflowChecks : Bool}

theorem apply_tryPushdownFilter {input newInput : PlanNode S O} {condition : Expression S}
    (h : tryPushdownFilter input condition = some newInput) : apply overflowChecks newInput = .ok newInput := by
  cases input with
  | scan =>
    obtain rfl := Option.some.inj h
    rw [apply]
    all_goals
      intros
      contradiction
  | indexScan | indexOnlyScan =>
    obtain ⟨-, hnew⟩ := Option.ite_none_right_eq_some.mp h
    obtain rfl := Option.some.inj hnew
    rw [apply]
    all_goals
      intros
      contradiction
  | _ => cases h

theorem apply_eq (plan : PlanNode S O) : apply overflowChecks plan = .ok (pushed plan) := by
  induction plan with
  | filter input condition ih =>
    rw [apply, pushed]
    split
    · next newInput hpushed =>
      rw [hpushed]
      exact apply_tryPushdownFilter hpushed
    · next hpushed =>
      rw [hpushed, ih, applyToExpression_eq]
      simp only [bind, Except.bind, getD_ite]
      rfl
  | project input columns tableAliases leftColumns rightColumns ih =>
    rw [apply, ih]
    rfl
  | join left right condition joinType leftAlias rightAlias ihl ihr =>
    rw [apply, ihl, ihr]
    rfl
  | scan | indexScan | indexOnlyScan | aggregate | other =>
    rw [apply]
    · rfl
    all_goals
      intros
      contradiction

end Rule

/-- The alias that the rule leaves -/
def remainingAlias (otherAlias : O → Option String) : PlanNode S O → Option String
  | .scan _ _ «alias» => «alias»
  | .filter input condition =>
    if (tryPushdownFilter input condition).isSome then none else remainingAlias otherAlias input
  | .project input _ _ _ _ => remainingAlias otherAlias input
  | .aggregate input _ => input.extractTableAlias otherAlias
  | .other node => otherAlias node
  | _ => none

theorem extractTableAlias_tryPushdownFilter {otherAlias : O → Option String} {input newInput : PlanNode S O}
    {condition : Expression S} (h : tryPushdownFilter input condition = some newInput) :
    newInput.extractTableAlias otherAlias = none := by
  cases input with
  | scan =>
    obtain rfl := Option.some.inj h
    rfl
  | indexScan | indexOnlyScan =>
    obtain ⟨-, hnew⟩ := Option.ite_none_right_eq_some.mp h
    obtain rfl := Option.some.inj hnew
    rfl
  | _ => cases h

theorem extractTableAlias_pushed (otherAlias : O → Option String) (plan : PlanNode S O) :
    (pushed plan).extractTableAlias otherAlias = remainingAlias otherAlias plan := by
  induction plan with
  | filter input condition ih =>
    rw [pushed, remainingAlias]
    rcases hpushed : tryPushdownFilter input condition with - | newInput
    · exact ih
    · exact extractTableAlias_tryPushdownFilter hpushed
  | project input columns tableAliases leftColumns rightColumns ih => exact ih
  | _ => rfl

/-! ## The results -/

/-- The rule comes from a node to one of its inputs. -/
inductive Step : PlanNode S O → PlanNode S O → Prop
  | filter (input : PlanNode S O) (condition : Expression S) (h : tryPushdownFilter input condition = none) :
    Step (.filter input condition) input
  | project (input : PlanNode S O) (columns : List (String × Expression S)) (tableAliases : HashMap String String)
    (leftColumns rightColumns : Option (List String)) :
    Step (.project input columns tableAliases leftColumns rightColumns) input
  | left (left right : PlanNode S O) (condition : Option (Expression S)) (joinType : Sql.JoinType)
    (leftAlias rightAlias : Option String) : Step (.join left right condition joinType leftAlias rightAlias) left
  | right (left right : PlanNode S O) (condition : Option (Expression S)) (joinType : Sql.JoinType)
    (leftAlias rightAlias : Option String) : Step (.join left right condition joinType leftAlias rightAlias) right

theorem size_lt_of_step {plan input : PlanNode S O} (h : Step plan input) : size input < size plan := by
  cases h <;> rw [size] <;> omega

/-- The rule comes to a node of the plan. -/
abbrev Visits : PlanNode S O → PlanNode S O → Prop := Relation.ReflTransGen Step

section Results

variable [DebugText] [FloatOperators] (x : Execution S O) (overflowChecks : Bool)

/-- The rule makes a plan that returns the same columns and rows. -/
def SameResults (plan : PlanNode S O) : Prop :=
  ∃ plan', apply overflowChecks plan = .ok plan' ∧
    ∀ contents : Contents x, x.execute contents plan' = x.execute contents plan

/-- A filter that the rule drops keeps every row that the table can have, and the aliases that the rule takes away do
not matter to a node. -/
def IsSafe : PlanNode S O → Prop
  | .filter (.scan tableName _ «alias») condition => ∀ columnNames, x.columns tableName = .ok columnNames →
    ∀ row : Row, row.length = columnNames.length →
      FilterOperator.keeps x.ops (x.aliased «alias») condition columnNames row
  | .filter input condition => ∀ columnNames row, Returns x input columnNames row →
    FilterOperator.keeps x.ops (x.aliased (remainingAlias x.otherAlias input)) condition columnNames row =
      FilterOperator.keeps x.ops (x.aliased (input.extractTableAlias x.otherAlias)) condition columnNames row
  | .project input columns _ _ _ => ∀ columnNames row, Returns x input columnNames row →
    projected x (remainingAlias x.otherAlias input) columnNames columns row =
      projected x (input.extractTableAlias x.otherAlias) columnNames columns row
  | .join left right condition joinType leftAlias rightAlias => ∀ contents : Contents x,
    JoinOperator.execute x.ops ⟨condition, joinType, none, none⟩ (x.execute contents left) (x.execute contents right) =
      JoinOperator.execute x.ops ⟨condition, joinType, leftAlias, rightAlias⟩ (x.execute contents left)
        (x.execute contents right)
  | _ => True

variable {x overflowChecks}

theorem sameResults_iff_pushed {plan : PlanNode S O} : SameResults x overflowChecks plan ↔
    ∀ contents : Contents x, x.execute contents (pushed plan) = x.execute contents plan := by
  rw [SameResults, apply_eq]
  constructor
  · rintro ⟨plan', hplan, hsame⟩
    obtain rfl := Except.ok.inj hplan
    exact hsame
  · exact fun hsame => ⟨_, rfl, hsame⟩

/-- A filter over a table changes nothing exactly if it keeps every row that the table can have. -/
theorem scan_eq_filter_iff {tableName : String} {columns : List String} {«alias» : Option String}
    {condition : Expression S} :
    (∀ contents : Contents x, x.execute contents (.scan tableName columns none) =
      x.execute contents (.filter (.scan tableName columns «alias») condition)) ↔
    IsSafe x (.filter (.scan tableName columns «alias») condition) := by
  rw [IsSafe]
  simp only [Execution.execute, PlanNode.extractTableAlias]
  rcases htable : x.columns tableName with e | columnNames
  · refine iff_of_true (fun _ => rfl) ?_
    intro columnNames hnames
    cases hnames
  · constructor
    · intro h columnNames' hnames row hrow
      obtain rfl := Except.ok.inj hnames
      have hrows := congrArg QueryResult.rows (Except.ok.inj (h (singleRow tableName htable row hrow)))
      dsimp only [singleRow] at hrows
      rw [if_pos rfl] at hrows
      exact List.filter_eq_self.mp hrows.symm row (List.mem_singleton_self row)
    · intro h contents
      refine congrArg (fun rows => Except.ok (QueryResult.mk rows columnNames)) (List.filter_eq_self.mpr ?_).symm
      exact fun row hrow => h columnNames rfl row (contents.width tableName _ htable row hrow)

/-- If the results of the inputs stay the same, those of a filter that is not over a table do exactly if it is safe. -/
theorem sameResults_filter_iff {input : PlanNode S O} {condition : Expression S}
    (h : tryPushdownFilter input condition = none → SameResults x overflowChecks input)
    (hscan : ∀ tableName columns «alias», input ≠ .scan tableName columns «alias») :
    SameResults x overflowChecks (.filter input condition) ↔ IsSafe x (.filter input condition) := by
  rw [sameResults_iff_pushed, IsSafe.eq_2 x _ _ hscan, pushed, ← forall_returns_iff x input]
  refine forall_congr' fun contents => ?_
  rcases hpushed : tryPushdownFilter input condition with - | newInput
  · rw [Option.getD_none, Execution.execute, Execution.execute, sameResults_iff_pushed.mp (h hpushed) contents,
      extractTableAlias_pushed]
    exact filter_execute_eq_iff
  · cases input with
    | scan tableName columns «alias» => exact (hscan tableName columns «alias» rfl).elim
    | indexScan | indexOnlyScan =>
      obtain ⟨-, hnew⟩ := Option.ite_none_right_eq_some.mp hpushed
      obtain rfl := Option.some.inj hnew
      refine iff_of_true rfl fun rows columnNames hrows row hrow => ?_
      cases hrows
      cases hrow
    | _ => cases hpushed

/-- If the results of the inputs stay the same, those of a node do exactly if it is safe. -/
theorem sameResults_node_iff {plan : PlanNode S O} (h : ∀ input, Step plan input → SameResults x overflowChecks input) :
    SameResults x overflowChecks plan ↔ IsSafe x plan := by
  cases plan with
  | filter input condition =>
    by_cases hscan : ∃ tableName columns «alias», input = .scan tableName columns «alias»
    · obtain ⟨tableName, columns, «alias», rfl⟩ := hscan
      rw [sameResults_iff_pushed, ← scan_eq_filter_iff]
      rfl
    · exact sameResults_filter_iff (fun hpushed => h input (.filter input condition hpushed))
        fun tableName columns «alias» hinput => hscan ⟨tableName, columns, «alias», hinput⟩
  | project input columns tableAliases leftColumns rightColumns =>
    have hinput := sameResults_iff_pushed.mp (h input (.project input columns tableAliases leftColumns rightColumns))
    rw [sameResults_iff_pushed, IsSafe, ← forall_returns_iff x input]
    refine forall_congr' fun contents => ?_
    rw [pushed, Execution.execute, Execution.execute, hinput contents, extractTableAlias_pushed]
    exact project_execute_eq_iff
  | join left right condition joinType leftAlias rightAlias =>
    have hleft := sameResults_iff_pushed.mp (h left (.left left right condition joinType leftAlias rightAlias))
    have hright := sameResults_iff_pushed.mp (h right (.right left right condition joinType leftAlias rightAlias))
    rw [sameResults_iff_pushed, IsSafe]
    refine forall_congr' fun contents => ?_
    rw [pushed, Execution.execute, Execution.execute, hleft contents, hright contents]
  | scan | indexScan | indexOnlyScan | aggregate | other =>
    exact iff_of_true (sameResults_iff_pushed.mpr fun _ => rfl) trivial

theorem sameResults_of_isSafe (plan : PlanNode S O) (h : ∀ node, Visits plan node → IsSafe x node) :
    SameResults x overflowChecks plan :=
  (sameResults_node_iff fun input hinput =>
    sameResults_of_isSafe input fun node hnode => h node (.head hinput hnode)).mpr (h plan .refl)
termination_by size plan
decreasing_by exact size_lt_of_step hinput

/-- The results of a plan and of all plans below that the rule comes to stay the same if and only if all these nodes
are safe. -/
theorem predicatePushdown_iff (x : Execution S O) (overflowChecks : Bool) (plan : PlanNode S O) :
    (∀ node, Visits plan node → SameResults x overflowChecks node) ↔ ∀ node, Visits plan node → IsSafe x node := by
  constructor
  · intro h node hnode
    exact (sameResults_node_iff fun input hinput => h input (hnode.tail hinput)).mp (h node hnode)
  · intro h node hnode
    exact sameResults_of_isSafe node fun node' hnode' => h node' (hnode.trans hnode')

end Results

end PredicatePushdownRule

end Rustgresql.Optimizer
