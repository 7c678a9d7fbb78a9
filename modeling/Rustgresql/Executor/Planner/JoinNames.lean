import Rustgresql.Executor.Planner.Aggregates
import Rustgresql.Optimizer.Plan

/-!
# Names in joins

Joins qualify the names of columns with the aliases of the tables, or with `left` and `right`. `resolvesNames_iff`
says when the references to the columns of joined tables have the values of these columns.
-/

namespace Rustgresql

open Sql (JoinType)

open ExpressionEvaluator

open Optimizer (Execution Contents)

variable {S O : Type}

namespace JoinNames

/-! ## Planning -/

/-- A table in FROM or JOIN -/
structure TableRef where
  name : String
  «alias» : Option String

/-- A JOIN clause. A further table in FROM is an inner join without a condition. -/
structure JoinClause (S : Type) where
  table : TableRef
  condition : Option (Expression S)
  joinType : JoinType

/-- Extract table alias from a plan node -/
def extractAliasFromPlan (otherAlias : O → Option String) : Optimizer.PlanNode S O → Option String
  | .scan _ _ «alias» => «alias»
  | .join _ _ _ _ leftAlias _ => leftAlias
  | .filter input _ => extractAliasFromPlan otherAlias input
  | .project input _ _ _ _ => extractAliasFromPlan otherAlias input
  | .aggregate input _ => extractAliasFromPlan otherAlias input
  | .other node => otherAlias node
  | _ => none

def planTableScan (table : TableRef) : Optimizer.PlanNode S O := .scan table.name [] table.alias

def planJoin (otherAlias : O → Option String) (plan : Optimizer.PlanNode S O) (join : JoinClause S) :
    Optimizer.PlanNode S O :=
  .join plan (planTableScan join.table) join.condition join.joinType (extractAliasFromPlan otherAlias plan)
    join.table.alias

/-- Start with the first table, apply joins. -/
def planJoins (otherAlias : O → Option String) (first : TableRef) (joins : List (JoinClause S)) :
    Optimizer.PlanNode S O :=
  joins.foldl (planJoin otherAlias) (planTableScan first)

/-- The column names that a plan returns. Those of an aggregation are for an input with rows. -/
def columnNames (columns : String → List String) (otherColumns : O → List String) :
    Optimizer.PlanNode S O → List String
  | .scan tableName _ _ => columns tableName
  | .indexScan _ _ _ columnNames => columnNames
  | .indexOnlyScan _ _ _ columnNames => columnNames
  | .filter input _ => columnNames columns otherColumns input
  | .project _ columns _ _ _ => columns.map Prod.fst
  | .aggregate _ op => op.resultColumnNames
  | .join left right condition joinType leftAlias rightAlias =>
    (JoinOperator.mk condition joinType leftAlias rightAlias).joinedColumns (columnNames columns otherColumns left)
      (columnNames columns otherColumns right)
  | .other node => otherColumns node

/-- No node of a plan aggregates rows. -/
def NoAggregates : Optimizer.PlanNode S O → Prop
  | .filter input _ => NoAggregates input
  | .project input _ _ _ _ => NoAggregates input
  | .aggregate _ _ => False
  | .join left right _ _ _ _ => NoAggregates left ∧ NoAggregates right
  | _ => True

theorem noAggregates_planJoins (otherAlias : O → Option String) (first : TableRef) (joins : List (JoinClause S)) :
    NoAggregates (planJoins otherAlias first joins) := by
  induction joins using List.reverseRecOn with
  | nil => exact trivial
  | append_singleton joins join ih =>
    rw [planJoins, List.foldl_append]
    exact ⟨ih, trivial⟩

theorem columnNames_of_execute [DebugText] [FloatArithmetic] {x : Execution S O} {contents : Contents x}
    {columns : String → List String} {otherColumns : O → List String}
    (hcolumns : ∀ tableName names, x.columns tableName = .ok names → names = columns tableName)
    (hother : ∀ node result, x.executeOther contents.rows node = .ok result → result.columnNames = otherColumns node)
    {plan : Optimizer.PlanNode S O} (hplan : NoAggregates plan) {result : QueryResult}
    (h : x.execute contents plan = .ok result) : result.columnNames = columnNames columns otherColumns plan := by
  induction plan generalizing result with
  | scan tableName scanColumns «alias» =>
    obtain ⟨names, hnames, h⟩ := Result.bind_eq_ok.mp h
    obtain rfl := Except.ok.inj h
    exact hcolumns tableName names hnames
  | indexScan | indexOnlyScan =>
    obtain rfl := Except.ok.inj h
    rfl
  | filter input condition ih =>
    obtain ⟨inputResult, hinput, h⟩ := Result.bind_eq_ok.mp h
    obtain rfl := Except.ok.inj h
    have hnames := ih hplan hinput
    exact hnames
  | project input columns tableAliases leftColumns rightColumns ih =>
    obtain ⟨inputResult, hinput, h⟩ := Result.bind_eq_ok.mp h
    obtain rfl := Except.ok.inj h
    rfl
  | aggregate => exact hplan.elim
  | join left right condition joinType leftAlias rightAlias ihl ihr =>
    have hexecute := h
    obtain ⟨leftResult, hleft, h⟩ := Result.bind_eq_ok.mp h
    obtain ⟨rightResult, hright, -⟩ := Result.bind_eq_ok.mp h
    rw [Execution.execute, hleft, hright] at hexecute
    rw [(JoinOperator.of_execute hexecute).2, ihl hplan.1 hleft, ihr hplan.2 hright]
    rfl
  | other node => exact hother node result h

/-! ## Labels -/

/-- A table in the rows that joins yield: its position in the query, and what its columns are qualified with -/
structure Occurrence where
  index : ℕ
  table : TableRef
  label : Option String

/-- How the query refers to the table -/
def Occurrence.reference (o : Occurrence) : String := o.table.alias.getD o.table.name

def Occurrence.columnName (o : Occurrence) (name : String) : String :=
  match o.label with
  | some label => qualifiedName label name
  | none => name

def relabel (label : String) (o : Occurrence) : Occurrence := { o with label := some (o.label.getD label) }

/-- The tables that a join condition can refer to -/
def joinTables (leftAlias : Option String) (tables : List Occurrence) (index : ℕ) (table : TableRef) : List Occurrence :=
  tables.map (relabel (leftAlias.getD "left")) ++ [⟨index, table, some (table.alias.getD "right")⟩]

/-- The tables in the rows that a join yields -/
def afterJoin (leftAlias : Option String) (tables : List Occurrence) (join : JoinClause S × ℕ) : List Occurrence :=
  match join.1.joinType with
  | .leftSemi | .leftAnti => tables
  | .rightSemi | .rightAnti => [⟨join.2, join.1.table, none⟩]
  | _ => joinTables leftAlias tables join.2 join.1.table

def occurrences (first : TableRef) (joins : List (JoinClause S)) : List Occurrence :=
  (joins.zipIdx 1).foldl (afterJoin first.alias) [⟨0, first, none⟩]

theorem occurrences_concat (first : TableRef) (joins : List (JoinClause S)) (join : JoinClause S) :
    occurrences first (joins ++ [join]) = afterJoin first.alias (occurrences first joins) (join, joins.length + 1) := by
  rw [occurrences, List.zipIdx_append, List.foldl_append, Nat.add_comm]
  rfl

theorem planJoins_concat (otherAlias : O → Option String) (first : TableRef) (joins : List (JoinClause S))
    (join : JoinClause S) :
    planJoins otherAlias first (joins ++ [join]) = planJoin otherAlias (planJoins otherAlias first joins) join := by
  rw [planJoins, List.foldl_append]
  rfl

/-- All joins are qualified with the alias of the first table. -/
theorem extractAliasFromPlan_planJoins (otherAlias : O → Option String) (first : TableRef) (joins : List (JoinClause S)) :
    extractAliasFromPlan otherAlias (planJoins otherAlias first joins) = first.alias := by
  induction joins using List.reverseRecOn with
  | nil => rfl
  | append_singleton joins join ih =>
    rw [planJoins_concat]
    exact ih

/-- The columns of tables with their names and origins -/
def entries (columns : String → List String) (tables : List Occurrence) : List (String × (ℕ × String)) :=
  tables.flatMap fun o => (columns o.table.name).map fun name => (o.columnName name, (o.index, name))

section Names

variable {columns : String → List String} {otherColumns : O → List String} {otherAlias : O → Option String}
  {first : TableRef} {tables : List Occurrence}

/-- There is no dot in the names of columns. -/
def NoDots (columns : String → List String) : Prop := ∀ table, ∀ name ∈ columns table, '.' ∉ name.toList

theorem dot_mem_qualifiedName (label name : String) : '.' ∈ (qualifiedName label name).toList := by
  simp [qualifiedName]

theorem qualify_columnName (label : String) (o : Occurrence) {name : String} (h : '.' ∉ name.toList) :
    JoinOperator.qualify label (o.columnName name) = (relabel label o).columnName name := by
  obtain ⟨index, table, - | own⟩ := o
  · exact if_neg h
  · exact if_pos (dot_mem_qualifiedName own name)

theorem entries_relabel (hdots : NoDots columns) (label : String) :
    entries columns (tables.map (relabel label)) =
      (entries columns tables).map fun e => (JoinOperator.qualify label e.1, e.2) := by
  rw [entries, entries, List.flatMap_map, List.map_flatMap]
  refine List.flatMap_congr fun o _ => ?_
  rw [List.map_map]
  refine List.map_congr_left fun name hname => ?_
  exact congrArg (·, (o.index, name)) (qualify_columnName label o (hdots _ name hname)).symm

theorem entries_joinTables (hdots : NoDots columns) (leftAlias : Option String) (index : ℕ) (table : TableRef) :
    entries columns (joinTables leftAlias tables index table) =
      ((entries columns tables).map fun e => (JoinOperator.qualify (leftAlias.getD "left") e.1, e.2)) ++
        (columns table.name).map fun name =>
          (JoinOperator.qualify (table.alias.getD "right") name, (index, name)) := by
  rw [joinTables, entries, List.flatMap_append, ← entries_relabel hdots]
  refine congrArg _ ?_
  rw [List.flatMap_singleton]
  refine List.map_congr_left fun name hname => ?_
  exact congrArg (·, (index, name)) (if_neg (hdots _ name hname)).symm

theorem map_fst_entries_singleton (index : ℕ) (table : TableRef) :
    (entries columns [⟨index, table, none⟩]).map Prod.fst = columns table.name := by
  rw [entries, List.flatMap_singleton, List.map_map]
  exact List.map_id _

/-- The names of the columns that joins return -/
theorem columnNames_planJoins (hdots : NoDots columns) (joins : List (JoinClause S)) :
    columnNames columns otherColumns (planJoins otherAlias first joins) =
      (entries columns (occurrences first joins)).map Prod.fst := by
  induction joins using List.reverseRecOn with
  | nil => exact (map_fst_entries_singleton 0 first).symm
  | append_singleton joins join ih =>
    have hjoined : (entries columns (joinTables first.alias (occurrences first joins) (joins.length + 1) join.table)).map
        Prod.fst = (JoinOperator.mk join.condition join.joinType first.alias join.table.alias).qualifiedNames
          ((entries columns (occurrences first joins)).map Prod.fst) (columns join.table.name) := by
      rw [entries_joinTables hdots, List.map_append, List.map_map, List.map_map, JoinOperator.qualifiedNames, List.map_map]
      rfl
    rw [planJoins_concat, occurrences_concat, planJoin, columnNames, ih, extractAliasFromPlan_planJoins]
    rw [planTableScan, columnNames, JoinOperator.joinedColumns, afterJoin]
    rcases join.joinType
    case leftSemi | leftAnti => rfl
    case rightSemi | rightAnti => exact (map_fst_entries_singleton _ _).symm
    all_goals exact hjoined.symm

end Names

/-! ## References -/

/-- The values of the columns of tables, when every column of the query has a value -/
def row (columns : String → List String) (tables : List Occurrence) (value : ℕ × String → Value) : Row :=
  tables.flatMap fun o => (columns o.table.name).map fun name => value (o.index, name)

/-- The context in which the condition of a join is evaluated -/
def onContext (columns : String → List String) (otherColumns : O → List String) (otherAlias : O → Option String)
    (first : TableRef) (joins : List (JoinClause S)) (join : JoinClause S) (value : ℕ × String → Value) : Context :=
  let left := planJoins otherAlias first joins
  let op : JoinOperator S := ⟨join.condition, join.joinType, extractAliasFromPlan otherAlias left, join.table.alias⟩
  op.joinContext (row columns (occurrences first joins) value)
    (row columns [⟨joins.length + 1, join.table, none⟩] value) (columnNames columns otherColumns left)
    (columnNames columns otherColumns (planTableScan join.table : Optimizer.PlanNode S O))

/-- The context in which WHERE and the select list are evaluated, without an outer query -/
def rowContext (columns : String → List String) (otherColumns : O → List String) (otherAlias : O → Option String)
    (first : TableRef) (joins : List (JoinClause S)) (value : ℕ × String → Value) : Context :=
  let plan := planJoins otherAlias first joins
  .withColumns (createBasicEvaluationContext (plan.extractTableAlias otherAlias) ∅
    (columnNames columns otherColumns plan) (row columns (occurrences first joins) value))

/-- The references to the columns of tables have their values. -/
def ReferencesDenote (ops : Operations S) (columns : String → List String) (tables : List Occurrence)
    (context : (ℕ × String → Value) → Context) : Prop :=
  ∀ o ∈ tables, ∀ name ∈ columns o.table.name, ∀ value,
    evaluate ops (context value) (.column (some o.reference) name) = .ok (value (o.index, name))

/-- The references in the conditions of joins, in WHERE and in the select list -/
structure ResolvesNames (ops : Operations S) (columns : String → List String) (otherColumns : O → List String)
    (otherAlias : O → Option String) (first : TableRef) (joins : List (JoinClause S)) : Prop where
  on : ∀ before join after, joins = before ++ join :: after →
    ReferencesDenote ops columns (joinTables first.alias (occurrences first before) (before.length + 1) join.table)
      (onContext columns otherColumns otherAlias first before join)
  rows : joins ≠ [] → ReferencesDenote ops columns (occurrences first joins)
    (rowContext columns otherColumns otherAlias first joins)

/-- The last table with a label that has a column -/
def lastLabelled (columns : String → List String) (tables : List Occurrence) (name label : String) : Option Occurrence :=
  LastMatch.find (fun o => o.label = some label ∧ name ∈ columns o.table.name) tables

/-- A reference is to the last table that has it for a label, before it is to one with the label `left`, and then
to one with the label `right`. -/
def labelled (columns : String → List String) (tables : List Occurrence) (reference name : String) : Option Occurrence :=
  (lastLabelled columns tables name reference).or <| (lastLabelled columns tables name "left").or <|
    lastLabelled columns tables name "right"

/-- The columns of a table are not covered by those of another. -/
def Unambiguous (columns : String → List String) (tables : List Occurrence) : Prop :=
  ∀ o ∈ tables, ∀ name ∈ columns o.table.name, o.label = none ∨
    (labelled columns tables o.reference name).map Occurrence.index = some o.index

structure UnambiguousNames (columns : String → List String) (first : TableRef) (joins : List (JoinClause S)) : Prop where
  on : ∀ before join after, joins = before ++ join :: after →
    Unambiguous columns (joinTables first.alias (occurrences first before) (before.length + 1) join.table)
  rows : joins ≠ [] → Unambiguous columns (occurrences first joins)

section References

variable {columns : String → List String} {tables : List Occurrence} {value : ℕ × String → Value}

theorem row_eq : row columns tables value = (entries columns tables).map fun e => value e.2 := by
  rw [row, entries, List.map_flatMap]
  refine List.flatMap_congr fun o _ => ?_
  rw [List.map_map]
  rfl

/-- What stands behind the last dot of a qualified name is the name. -/
theorem takeWhile_reverse_qualifiedName (label : String) {name : String} (h : '.' ∉ name.toList) :
    ((qualifiedName label name).toList.reverse.takeWhile fun c => c ≠ '.') = name.toList.reverse := by
  have hreverse : (qualifiedName label name).toList.reverse = name.toList.reverse ++ '.' :: label.toList.reverse := by
    simp [qualifiedName]
  rw [hreverse, List.takeWhile_append_of_pos, List.takeWhile_cons_of_neg, List.append_nil]
  · simp
  · intro c hc
    exact decide_eq_true fun hdot => h (hdot ▸ List.mem_reverse.mp hc)

theorem qualifiedName_eq_iff {label label' name name' : String} (h : '.' ∉ name.toList) (h' : '.' ∉ name'.toList) :
    qualifiedName label name = qualifiedName label' name' ↔ label = label' ∧ name = name' := by
  constructor
  · intro heq
    have hnames := takeWhile_reverse_qualifiedName label h
    rw [heq, takeWhile_reverse_qualifiedName label' h'] at hnames
    obtain rfl := String.toList_inj.mp (List.reverse_injective hnames)
    exact ⟨qualifiedName_inj heq, rfl⟩
  · rintro ⟨rfl, rfl⟩
    rfl

theorem columnName_eq_iff {o : Occurrence} {label name name' : String} (h : '.' ∉ name.toList) (h' : '.' ∉ name'.toList) :
    o.columnName name' = qualifiedName label name ↔ o.label = some label ∧ name' = name := by
  obtain ⟨index, table, - | own⟩ := o
  · refine iff_of_false (fun heq => ?_) nofun
    have hname : name' = qualifiedName label name := heq
    exact h' (hname ▸ dot_mem_qualifiedName label name)
  · exact (qualifiedName_eq_iff h' h).trans (and_congr_left fun _ => Option.some_inj.symm)

theorem find_columnNames {o : Occurrence} {label name : String} {names : List String} (h : '.' ∉ name.toList)
    (hnames : ∀ name' ∈ names, '.' ∉ name'.toList) :
    LastMatch.find (fun e => decide (e.1 = qualifiedName label name))
      (names.map fun name' => (o.columnName name', (o.index, name'))) =
      if o.label = some label ∧ name ∈ names then some (qualifiedName label name, (o.index, name)) else none := by
  rcases hfind : LastMatch.find (fun e => decide (e.1 = qualifiedName label name))
      (names.map fun name' => (o.columnName name', (o.index, name'))) with - | e
  · rw [hfind, if_neg]
    rintro ⟨hlabel, hmem⟩
    have hnone := LastMatch.find_eq_none.mp hfind _ (List.mem_map_of_mem hmem)
    exact of_decide_eq_false hnone ((columnName_eq_iff h h).mpr ⟨hlabel, rfl⟩)
  · obtain ⟨name', hmem, rfl⟩ := List.mem_map.mp (LastMatch.mem_of_find hfind)
    have hmatch := LastMatch.apply_of_find hfind
    have heq : o.columnName name' = qualifiedName label name := of_decide_eq_true hmatch
    obtain ⟨hlabel, rfl⟩ := (columnName_eq_iff h (hnames name' hmem)).mp heq
    rw [hfind, if_pos ⟨hlabel, hmem⟩, ← heq]

/-- The entry with a qualified name belongs to the last table with the label. -/
theorem find_entries (hdots : NoDots columns) {label name : String} (hname : '.' ∉ name.toList) :
    LastMatch.find (fun e => e.1 = qualifiedName label name) (entries columns tables) =
      (lastLabelled columns tables name label).map fun o => (qualifiedName label name, (o.index, name)) := by
  induction tables with
  | nil => rfl
  | cons o tables ih =>
    rw [entries, List.flatMap_cons, LastMatch.find_append, find_columnNames hname (hdots _), lastLabelled, LastMatch.find_cons]
    rw [entries, lastLabelled] at ih
    rw [ih]
    rcases LastMatch.find _ tables with - | o'
    · simp only [decide_eq_true_eq]
      split_ifs <;> rfl
    · rfl

/-- The values of a context under qualified names -/
def HasEntries (columns : String → List String) (tables : List Occurrence) (value : ℕ × String → Value) (context : Context) :
    Prop :=
  ∀ label name, '.' ∉ name.toList → context.columns.lookup (qualifiedName label name) =
    (LastMatch.find (fun e => e.1 = qualifiedName label name) (entries columns tables)).map fun e => value e.2

theorem evaluate_of_labelled {ops : Operations S} (hdots : NoDots columns) {context : Context}
    (hcontext : HasEntries columns tables value context) {reference name : String} (hname : '.' ∉ name.toList)
    {o : Occurrence} (h : labelled columns tables reference name = some o) :
    evaluate ops context (.column (some reference) name) = .ok (value (o.index, name)) := by
  have hlookup (label : String) : context.columns.lookup (label ++ "." ++ name) =
      (lastLabelled columns tables name label).map fun o => value (o.index, name) := by
    have hentries := hcontext label name hname
    rw [find_entries hdots hname, Option.map_map] at hentries
    exact hentries
  have hleft : context.columns.lookup ("left." ++ name) = _ := hlookup "left"
  have hright : context.columns.lookup ("right." ++ name) = _ := hlookup "right"
  rw [evaluate_column, qualifiedValue]
  dsimp only
  rw [hlookup reference, hleft, hright]
  rw [labelled] at h
  generalize lastLabelled columns tables name reference = own at h ⊢
  generalize lastLabelled columns tables name "left" = left at h ⊢
  generalize lastLabelled columns tables name "right" = right at h ⊢
  rcases own with - | o₁
  · rcases left with - | o₂
    · rcases right with - | o₃
      · cases h
      · obtain rfl := Option.some.inj h
        rfl
    · obtain rfl := Option.some.inj h
      rfl
  · obtain rfl := Option.some.inj h
    rfl

/-- The table is labelled with how the query refers to it, or with `left` or `right` if it has no alias. -/
def IsLabelled (o : Occurrence) : Prop :=
  o.label = some (o.table.alias.getD "left") ∨ o.label = some (o.table.alias.getD "right")

theorem lastLabelled_ne_none {label name : String} {o : Occurrence} (ho : o ∈ tables) (hlabel : o.label = some label)
    (hname : name ∈ columns o.table.name) : lastLabelled columns tables name label ≠ none := by
  intro hnone
  exact of_decide_eq_false (LastMatch.find_eq_none.mp hnone o ho) ⟨hlabel, hname⟩

theorem exists_labelled {o : Occurrence} {name : String} (ho : o ∈ tables) (hlabel : IsLabelled o)
    (hname : name ∈ columns o.table.name) : ∃ o', labelled columns tables o.reference name = some o' := by
  rw [← Option.isSome_iff_exists, labelled, Option.isSome_or, Option.isSome_or, Bool.or_eq_true, Bool.or_eq_true]
  have hsome {label : String} (h : o.label = some label) : (lastLabelled columns tables name label).isSome :=
    Option.isSome_iff_ne_none.mpr (lastLabelled_ne_none ho h hname)
  rw [IsLabelled] at hlabel
  rw [Occurrence.reference]
  rcases halias : o.table.alias with - | own <;> rw [halias] at hlabel
  · exact .inr (hlabel.imp hsome hsome)
  · exact .inl (hlabel.elim hsome hsome)

/-- References among qualified columns -/
theorem referencesDenote_iff {ops : Operations S} (hdots : NoDots columns) {context : (ℕ × String → Value) → Context}
    (hcontext : ∀ value, HasEntries columns tables value (context value)) (hlabels : ∀ o ∈ tables, IsLabelled o) :
    ReferencesDenote ops columns tables context ↔ Unambiguous columns tables := by
  refine forall₂_congr fun o ho => forall₂_congr fun name hname => ?_
  obtain ⟨o', ho'⟩ := exists_labelled ho (hlabels o ho) hname
  have hlabel : o.label ≠ none := by
    rcases hlabels o ho with h | h <;> rw [h] <;> exact nofun
  rw [or_iff_right hlabel, ho', Option.map_some, Option.some.injEq]
  constructor
  · intro h
    have hvalue := h fun p => .integer p.1
    rw [evaluate_of_labelled hdots (hcontext _) (hdots _ name hname) ho'] at hvalue
    exact Int.ofNat.inj (Value.integer.inj (Except.ok.inj hvalue))
  · intro h value
    rw [evaluate_of_labelled hdots (hcontext value) (hdots _ name hname) ho', h]

end References

/-! ## Contexts -/

section Contexts

variable {columns : String → List String} {otherColumns : O → List String} {otherAlias : O → Option String}
  {first : TableRef} {joins : List (JoinClause S)} {join : JoinClause S} {value : ℕ × String → Value}

theorem lookup_foldl_of_step {α : Type} {f : HashMap String Value → α → HashMap String Value} {name : α → String}
    {v : α → Value} {key : String} (h : ∀ m a, (f m a).lookup key = if name a = key then some (v a) else m.lookup key)
    (l : List α) (m : HashMap String Value) :
    (l.foldl f m).lookup key = ((LastMatch.find (fun a => name a = key) l).map v).or (m.lookup key) := by
  induction l generalizing m with
  | nil => rfl
  | cons a l ih =>
    rw [List.foldl_cons, ih, h, LastMatch.find_cons]
    rcases LastMatch.find (fun a => decide (name a = key)) l with - | b
    · simp only [decide_eq_true_eq]
      split_ifs <;> rfl
    · rfl

theorem lookup_addRight (tableName key : String) (m : HashMap String Value) (p : String × Value) :
    (JoinOperator.addRight tableName m p).lookup key =
      if JoinOperator.qualify tableName p.1 = key then some p.2 else m.lookup key := by
  rw [JoinOperator.addRight, HashMap.lookup_insert_eq]
  exact if_congr eq_comm rfl rfl

/-- The unqualified names that are added do not matter for qualified ones. -/
theorem lookup_addLeft (tableName : String) {key : String} (hkey : '.' ∈ key.toList) (m : HashMap String Value)
    (p : String × Value) : (JoinOperator.addLeft tableName m p).lookup key =
      if JoinOperator.qualify tableName p.1 = key then some p.2 else m.lookup key := by
  have hinsert : (m.insert (JoinOperator.qualify tableName p.1) p.2).lookup key =
      if JoinOperator.qualify tableName p.1 = key then some p.2 else m.lookup key :=
    lookup_addRight tableName key m p
  rw [JoinOperator.addLeft, ← hinsert]
  split_ifs with hmem
  · rfl
  · refine AList.lookup_insert_ne ?_
    rintro rfl
    -- a name with a dot is its own qualified name
    refine hmem (AList.mem_insert _ |>.mpr (.inl ?_))
    exact (if_pos hkey).symm

theorem hasEntries_onContext (hdots : NoDots columns) :
    HasEntries columns (joinTables first.alias (occurrences first joins) (joins.length + 1) join.table) value
      (onContext columns otherColumns otherAlias first joins join value) := by
  intro label name _
  have hkey := dot_mem_qualifiedName label name
  have hleft : (columnNames columns otherColumns (planJoins otherAlias first joins)).zip
      (row columns (occurrences first joins) value) =
      (entries columns (occurrences first joins)).map fun e => (e.1, value e.2) := by
    rw [columnNames_planJoins hdots, row_eq, List.zip_map']
  have hright : (columns join.table.name).zip (row columns [⟨joins.length + 1, join.table, none⟩] value) =
      (columns join.table.name).map fun name => (name, value (joins.length + 1, name)) := by
    have hzip : ((columns join.table.name).map id).zip
        ((columns join.table.name).map fun name => value (joins.length + 1, name)) =
        (columns join.table.name).map fun name => (name, value (joins.length + 1, name)) := List.zip_map'
    rw [row, List.flatMap_singleton]
    rwa [List.map_id] at hzip
  have hlookup : (onContext columns otherColumns otherAlias first joins join value).columns =
      ((columns join.table.name).map fun name => (name, value (joins.length + 1, name))).foldl
        (JoinOperator.addRight (join.table.alias.getD "right"))
        (((entries columns (occurrences first joins)).map fun e => (e.1, value e.2)).foldl
          (JoinOperator.addLeft (first.alias.getD "left")) ∅) := by
    rw [← hleft, ← hright, ← extractAliasFromPlan_planJoins otherAlias first joins]
    rfl
  rw [hlookup, lookup_foldl_of_step (lookup_addRight _ _), lookup_foldl_of_step (lookup_addLeft _ hkey),
    entries_joinTables hdots, LastMatch.find_append, LastMatch.find_map, LastMatch.find_map, LastMatch.find_map,
    LastMatch.find_map, AList.lookup_empty, Option.or_none, Option.map_or]
  simp only [Option.map_map]
  rfl

theorem lookup_rowContext (hdots : NoDots columns) (hjoins : joins ≠ []) (key : String) :
    (rowContext columns otherColumns otherAlias first joins value).columns.lookup key =
      (LastMatch.find (fun e => e.1 = key) (entries columns (occurrences first joins))).map fun e => value e.2 := by
  have halias : (planJoins otherAlias first joins).extractTableAlias otherAlias = none := by
    rw [← List.dropLast_append_getLast hjoins, planJoins_concat]
    rfl
  have hwithAlias : QueryPlanner.withAlias none (entries columns (occurrences first joins)) =
      entries columns (occurrences first joins) := List.flatMap_singleton' _
  rw [rowContext, halias, columnNames_planJoins hdots, row_eq]
  refine (QueryPlanner.lookup_createBasicEvaluationContext value _).trans ?_
  rw [AList.lookup_empty, Option.none_or, hwithAlias]

theorem afterDot_eq_none {name : String} (h : '.' ∉ name.toList) : afterDot name = none := by
  have hdrop : name.toList.dropWhile (fun c => decide (c ≠ '.')) = [] := by
    refine List.dropWhile_eq_nil_iff.mpr fun c hc => decide_eq_true ?_
    rintro rfl
    exact h hc
  rw [afterDot, hdrop]

/-- The columns of a single table are not qualified. -/
theorem referencesDenote_single {ops : Operations S} (hdots : NoDots columns) (hjoins : joins ≠ []) {o : Occurrence}
    (hsingle : occurrences first joins = [o]) (hlabel : o.label = none) :
    ReferencesDenote ops columns (occurrences first joins) (rowContext columns otherColumns otherAlias first joins) := by
  intro o' ho' name hname value
  obtain rfl := List.mem_singleton.mp (hsingle ▸ ho')
  obtain ⟨index, table, label⟩ := o'
  obtain rfl : label = none := hlabel
  have hlookup (key : String) : (rowContext columns otherColumns otherAlias first joins value).columns.lookup key =
      (LastMatch.find (fun e => e.1 = key) (entries columns (occurrences first joins))).map fun e => value e.2 :=
    lookup_rowContext hdots hjoins key
  rw [hsingle, entries, List.flatMap_singleton] at hlookup
  have hmem {key : String} {v : Value}
      (h : (rowContext columns otherColumns otherAlias first joins value).columns.lookup key = some v) :
      key ∈ columns table.name ∧ v = value (index, key) := by
    rw [hlookup] at h
    obtain ⟨e, he, rfl⟩ := Option.map_eq_some_iff.mp h
    obtain ⟨name', hname', rfl⟩ := List.mem_map.mp (LastMatch.mem_of_find he)
    have hmatch := LastMatch.apply_of_find he
    have hkey : name' = key := of_decide_eq_true hmatch
    rw [← hkey]
    exact ⟨hname', rfl⟩
  have hkeys {key : String} (h : key ∈ (rowContext columns otherColumns otherAlias first joins value).columns) :
      '.' ∉ key.toList := by
    obtain ⟨v, hv⟩ := Option.isSome_iff_exists.mp (AList.lookup_isSome.mpr h)
    exact hdots _ _ (hmem hv).1
  have hvalue : (rowContext columns otherColumns otherAlias first joins value).columns.lookup name =
      some (value (index, name)) := by
    rcases hfound : (rowContext columns otherColumns otherAlias first joins value).columns.lookup name with - | v
    · rw [hlookup, Option.map_eq_none_iff] at hfound
      have hnone := LastMatch.find_eq_none.mp hfound _ (List.mem_map_of_mem hname)
      exact absurd rfl (of_decide_eq_false hnone)
    · rw [(hmem hfound).2]
  rw [evaluate_column, qualifiedValue_of_no_dot (fun h => hkeys h (dot_mem_qualifiedName _ name)) fun key hkey => ?_,
    hvalue]
  · rfl
  · rw [afterDot_eq_none (hkeys hkey)]
    exact nofun

/-! ## Queries -/

/-- No join follows a join that only keeps columns of its right side. -/
def RightSemiLast (joins : List (JoinClause S)) : Prop :=
  ∀ before join after, joins = before ++ join :: after → after ≠ [] →
    join.joinType ≠ .rightSemi ∧ join.joinType ≠ .rightAnti

theorem isLabelled_joinTables {tables : List Occurrence} (h : tables = [⟨0, first, none⟩] ∨ ∀ o ∈ tables, IsLabelled o)
    (index : ℕ) (table : TableRef) : ∀ o ∈ joinTables first.alias tables index table, IsLabelled o := by
  intro o ho
  rw [joinTables, List.mem_append, List.mem_map, List.mem_singleton] at ho
  rcases ho with ⟨o, ho, rfl⟩ | rfl
  · rcases h with rfl | h
    · obtain rfl := List.mem_singleton.mp ho
      exact .inl rfl
    · rcases h o ho with hlabel | hlabel
      · left
        rw [relabel, hlabel]
        rfl
      · right
        rw [relabel, hlabel]
        rfl
  · exact .inr rfl

/-- Before a join that keeps only columns of its right side -/
theorem occurrences_cases (h : ∀ join ∈ joins, join.joinType ≠ .rightSemi ∧ join.joinType ≠ .rightAnti) :
    occurrences first joins = [⟨0, first, none⟩] ∨ ∀ o ∈ occurrences first joins, IsLabelled o := by
  induction joins using List.reverseRecOn with
  | nil => exact .inl rfl
  | append_singleton joins join ih =>
    replace ih := ih fun join' hjoin' => h join' (List.mem_append_left _ hjoin')
    obtain ⟨hsemi, hanti⟩ := h join (List.mem_append_right _ List.mem_cons_self)
    have hlabelled := isLabelled_joinTables ih (joins.length + 1) join.table
    rw [occurrences_concat, afterJoin]
    dsimp only
    rcases htype : join.joinType
    case leftSemi | leftAnti => exact ih
    case rightSemi => exact absurd htype hsemi
    case rightAnti => exact absurd htype hanti
    all_goals exact .inr hlabelled

end Contexts

/-- Where no name of a column has a dot, and no join follows a right semi or anti join, the references denote their
columns if and only if they are unambiguous with the labels of the tables. -/
theorem resolvesNames_iff (ops : Operations S) {columns : String → List String} (hdots : NoDots columns)
    (otherColumns : O → List String) (otherAlias : O → Option String) (first : TableRef) {joins : List (JoinClause S)}
    (hsemi : RightSemiLast joins) :
    ResolvesNames ops columns otherColumns otherAlias first joins ↔ UnambiguousNames columns first joins := by
  have hbefore {before : List (JoinClause S)} {join : JoinClause S} {after : List (JoinClause S)}
      (h : joins = before ++ join :: after) :
      occurrences first before = [⟨0, first, none⟩] ∨ ∀ o ∈ occurrences first before, IsLabelled o := by
    refine occurrences_cases fun join' hjoin' => ?_
    obtain ⟨front, back, rfl⟩ := List.append_of_mem hjoin'
    refine hsemi front join' (back ++ join :: after) ?_ (by simp)
    rw [h, List.append_assoc, List.cons_append]
  have hon (before : List (JoinClause S)) (join : JoinClause S) (after : List (JoinClause S))
      (h : joins = before ++ join :: after) :
      ReferencesDenote ops columns (joinTables first.alias (occurrences first before) (before.length + 1) join.table)
        (onContext columns otherColumns otherAlias first before join) ↔
      Unambiguous columns (joinTables first.alias (occurrences first before) (before.length + 1) join.table) :=
    referencesDenote_iff hdots (fun _ => hasEntries_onContext hdots) (isLabelled_joinTables (hbefore h) _ _)
  have hrows (hjoins : joins ≠ []) : ReferencesDenote ops columns (occurrences first joins)
      (rowContext columns otherColumns otherAlias first joins) ↔ Unambiguous columns (occurrences first joins) := by
    have hcases : (∃ o, occurrences first joins = [o] ∧ o.label = none) ∨ ∀ o ∈ occurrences first joins, IsLabelled o := by
      have hlast := List.dropLast_append_getLast hjoins
      have hinit := hbefore hlast.symm
      have hlabelled := isLabelled_joinTables hinit (joins.dropLast.length + 1) (joins.getLast hjoins).table
      rw [← hlast, occurrences_concat, afterJoin]
      dsimp only
      rcases (joins.getLast hjoins).joinType
      case leftSemi | leftAnti => exact hinit.imp_left fun h => ⟨_, h, rfl⟩
      case rightSemi | rightAnti => exact .inl ⟨_, rfl, rfl⟩
      all_goals exact .inr hlabelled
    rcases hcases with ⟨o, hsingle, hlabel⟩ | hlabelled
    · refine iff_of_true (referencesDenote_single hdots hjoins hsingle hlabel) fun o' ho' name _ => .inl ?_
      rw [hsingle] at ho'
      rw [List.mem_singleton.mp ho', hlabel]
    · refine referencesDenote_iff hdots (fun _ label name _ => ?_) hlabelled
      exact lookup_rowContext hdots hjoins _
  constructor
  · intro h
    exact ⟨fun before join after hjoins => (hon before join after hjoins).mp (h.on before join after hjoins),
      fun hjoins => (hrows hjoins).mp (h.rows hjoins)⟩
  · intro h
    exact ⟨fun before join after hjoins => (hon before join after hjoins).mpr (h.on before join after hjoins),
      fun hjoins => (hrows hjoins).mpr (h.rows hjoins)⟩

/-- `t a JOIN u b`, where both tables have a column `id` -/
theorem resolvesNames_aliased : ResolvesNames noOperations (fun _ => ["id"]) (fun _ : Unit => []) (fun _ => none)
    ⟨"t", some "a"⟩ [⟨⟨"u", some "b"⟩, none, .inner⟩] := by
  have hinner {before after : List (JoinClause Unit)} {join : JoinClause Unit}
      (h : [⟨⟨"u", some "b"⟩, none, .inner⟩] = before ++ join :: after) :
      before = [] ∧ join = ⟨⟨"u", some "b"⟩, none, .inner⟩ ∧ after = [] := by
    rcases before with - | ⟨join', before⟩
    · obtain ⟨rfl, rfl⟩ := List.cons_eq_cons.mp h
      exact ⟨rfl, rfl, rfl⟩
    · simp at h
  refine (resolvesNames_iff noOperations ?_ _ _ _ ?_).mpr ⟨?_, fun _ => ?_⟩
  · intro table name hname
    rw [List.mem_singleton.mp hname]
    decide
  · intro before join after h hafter
    exact absurd (hinner h).2.2 hafter
  · intro before join after h
    obtain ⟨rfl, rfl, -⟩ := hinner h
    unfold Unambiguous
    decide
  · unfold Unambiguous
    decide

/-- In `t JOIN u`, the reference `u.id` has the value of `t.id`. -/
theorem unaliased_reads_left : ¬ ∀ (columns : String → List String) (first : TableRef) (joins : List (JoinClause Unit)),
    ResolvesNames noOperations columns (fun _ : Unit => []) (fun _ => none) first joins := by
  intro h
  have hdots : NoDots fun _ => ["id"] := by
    intro table name hname
    rw [List.mem_singleton.mp hname]
    decide
  have hrows := (h (fun _ => ["id"]) ⟨"t", none⟩ [⟨⟨"u", none⟩, none, .inner⟩]).rows (List.cons_ne_nil _ _)
  have hentries : HasEntries (fun _ => ["id"]) (occurrences ⟨"t", none⟩ [⟨⟨"u", none⟩, none, .inner⟩])
      (fun p => .integer p.1) (rowContext (fun _ => ["id"]) (fun _ : Unit => []) (fun _ => none) ⟨"t", none⟩
        [(⟨⟨"u", none⟩, none, .inner⟩ : JoinClause Unit)] fun p => .integer p.1) :=
    fun label name _ => lookup_rowContext hdots (List.cons_ne_nil _ _) _
  have hleft : evaluate noOperations _ (.column (some "u") "id") = .ok (.integer 0) :=
    evaluate_of_labelled hdots hentries (by decide) (o := ⟨0, ⟨"t", none⟩, some "left"⟩) rfl
  have hright := hrows ⟨1, ⟨"u", none⟩, some "right"⟩ (List.mem_cons_of_mem _ List.mem_cons_self) "id"
    List.mem_cons_self fun p => .integer p.1
  exact absurd (Value.integer.inj (Except.ok.inj (hleft.symm.trans hright))) (by decide)

end JoinNames

end Rustgresql
