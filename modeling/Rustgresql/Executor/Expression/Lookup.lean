import Rustgresql.Executor.Planner.Aggregates
import Rustgresql.Lib.Insertions

/-!
# Lookups of columns

A reference to a column is looked up under several keys, one after the other. `columnValue_insertAll`: it has the
value of the last column that the first successful key finds. `pick_append`: what happens when the columns of an
outer row come behind those of a row.
-/

namespace Rustgresql

open HashMap

namespace ExpressionEvaluator

variable {α β : Type}

/-- The keys under which a column is looked up -/
def columnKeys : Option String → String → List (String → Bool)
  | some table, name =>
    [fun key => key = table ++ "." ++ name, fun key => key = "left." ++ name, fun key => key = "right." ++ name,
      fun key => afterDot key = some name.toList, fun key => key = name]
  | none, name => [fun key => key = name]

/-- What a key finds last -/
def findColumn (key : String → Bool) (columns : List (String × α)) : Option α :=
  (LastMatch.find (fun column => key column.1) columns).map Prod.snd

/-- What the first of several keys finds that finds anything -/
def pick (keys : List (String → Bool)) (columns : List (String × α)) : Option α :=
  match keys with
  | [] => none
  | key :: keys => (findColumn key columns).or (pick keys columns)

/-- What is found in an outer row before any key finds one of the given names -/
def captured (keys : List (String → Bool)) (names : List String) (outer : List (String × β)) : Option β :=
  match keys with
  | [] => none
  | key :: keys => (findColumn key outer).or (if names.any key then none else captured keys names outer)

theorem findColumn_map (f : α → β) (key : String → Bool) (columns : List (String × α)) :
    findColumn key (columns.map (Prod.map id f)) = (findColumn key columns).map f := by
  rw [findColumn, findColumn, LastMatch.find_map, Option.map_map, Option.map_map]
  rfl

theorem findColumn_append (key : String → Bool) (columns columns' : List (String × α)) :
    findColumn key (columns ++ columns') = (findColumn key columns').or (findColumn key columns) := by
  rw [findColumn, LastMatch.find_append, Option.map_or]
  rfl

theorem findColumn_eq_none_iff {key : String → Bool} {columns : List (String × α)} :
    findColumn key columns = none ↔ (columns.map Prod.fst).any key = false := by
  rw [findColumn, Option.map_eq_none_iff, LastMatch.find_eq_none, List.any_eq_false, List.forall_mem_map]
  exact forall₂_congr fun column _ => (Bool.not_eq_true _).symm.to_iff

theorem pick_map (f : α → β) (keys : List (String → Bool)) (columns : List (String × α)) :
    pick keys (columns.map (Prod.map id f)) = (pick keys columns).map f := by
  induction keys with
  | nil => rfl
  | cons key keys ih => rw [pick, pick, ih, findColumn_map, Option.map_or]

/-- The columns of the outer row have precedence under each key. -/
theorem pick_append (keys : List (String → Bool)) (own : List (String × α)) (outer : List (String × β)) :
    pick keys (own.map (Prod.map id (Sum.inl (β := β))) ++ outer.map (Prod.map id Sum.inr)) =
      ((captured keys (own.map Prod.fst) outer).map Sum.inr).or ((pick keys own).map Sum.inl) := by
  induction keys with
  | nil => rfl
  | cons key keys ih =>
    rw [pick, pick, captured, ih, findColumn_append, findColumn_map, findColumn_map]
    rcases findColumn key outer with - | v
    · rcases hown : findColumn key own with - | v
      · rw [if_neg (Bool.eq_false_iff.mp (findColumn_eq_none_iff.mp hown))]
        rfl
      · rw [if_pos (by rw [← Bool.not_eq_false, ← findColumn_eq_none_iff, hown]; exact nofun)]
        rfl
    · rfl

theorem pick_eq_none_iff {keys : List (String → Bool)} {columns : List (String × α)} :
    pick keys columns = none ↔ ∀ key ∈ keys, (columns.map Prod.fst).any key = false := by
  induction keys with
  | nil => exact iff_of_true rfl nofun
  | cons key keys ih => rw [pick, Option.or_eq_none_iff, ih, findColumn_eq_none_iff, List.forall_mem_cons]

theorem mem_of_pick {keys : List (String → Bool)} {columns : List (String × α)} {a : α} (h : pick keys columns = some a) :
    a ∈ columns.map Prod.snd := by
  induction keys with
  | nil => cases h
  | cons key keys ih =>
    rw [pick, Option.or_eq_some_iff] at h
    rcases h with h | ⟨-, h⟩
    · obtain ⟨column, hcolumn, rfl⟩ := Option.map_eq_some_iff.mp h
      exact List.mem_map_of_mem (LastMatch.mem_of_find hcolumn)
    · exact ih h

/-! ## Values -/

/-- A context without anything but columns -/
def Context.ofColumns (subqueryContext : Option SubqueryContext) (columns : EvaluationContext) : Context :=
  { Context.withColumns columns with subqueryContext }

theorem lookup_insertAll_empty (columns : List (String × α)) (name : String) :
    (insertAll columns ∅).lookup name = findColumn (fun key => key = name) columns := by
  rw [lookup_insertAll, AList.lookup_empty, Option.or_none]
  rfl

theorem columnValue_insertAll (subqueryContext : Option SubqueryContext) (columns : List (String × Value))
    (table : Option String) (name : String) :
    columnValue (.ofColumns subqueryContext (insertAll columns ∅)) table name =
      .ok ((pick (columnKeys table name) columns).getD .null) := by
  have hlookup (key : String) : (Context.ofColumns subqueryContext (insertAll columns ∅)).columns.lookup key =
      findColumn (fun k => k = key) columns := lookup_insertAll_empty columns key
  rcases table with - | table
  · rw [columnValue, unqualifiedValue, hlookup, columnKeys, pick, pick, Option.or_none]
    rcases findColumn _ columns with - | v <;> rfl
  · have hany : (((Context.ofColumns subqueryContext (insertAll columns ∅)).columns.pairs.find? fun p =>
        afterDot p.1 = some name.toList).map fun p => Except.ok (ε := Failure) p.2) =
        (findColumn (fun key => afterDot key = some name.toList) columns).map Except.ok := by
      rw [findColumn, Option.map_map]
      exact congrArg _ ((find?_pairs_insertAll (fun key => afterDot key = some name.toList) columns ∅).trans
        (Option.or_none ..))
    rw [columnValue, qualifiedValue]
    dsimp only
    rw [hany, hlookup, hlookup, hlookup, hlookup, columnKeys, pick, pick, pick, pick, pick, pick, Option.or_none]
    generalize findColumn (fun key => key = table ++ "." ++ name) columns = qualified
    generalize findColumn (fun key => key = "left." ++ name) columns = left
    generalize findColumn (fun key => key = "right." ++ name) columns = right
    generalize findColumn (fun key => afterDot key = some name.toList) columns = inAnyTable
    generalize findColumn (fun key => key = name) columns = unqualified
    -- the first key that finds a column decides
    rcases qualified with - | v
    case some => rfl
    rcases left with - | v
    case some => rfl
    rcases right with - | v
    case some => rfl
    rcases inAnyTable with - | v
    case some => rfl
    rcases unqualified with - | v <;> rfl

/-- The context of a row is built by insertions. -/
theorem createBasicEvaluationContext_eq (tableAlias : Option String) (outerValues : HashMap String Value)
    (columnNames : List String) (row : Row) : createBasicEvaluationContext tableAlias outerValues columnNames row =
      insertAll (QueryPlanner.withAlias tableAlias (columnNames.zip row) ++ outerValues.pairs) ∅ := by
  have hcolumns : (columnNames.zip row).foldl (storeColumn tableAlias) ∅ =
      insertAll (QueryPlanner.withAlias tableAlias (columnNames.zip row)) ∅ := by
    rw [QueryPlanner.withAlias, insertAll, List.foldl_flatMap]
    cases tableAlias <;> rfl
  rw [createBasicEvaluationContext, hcolumns, insertAll_append]
  rfl

end ExpressionEvaluator

end Rustgresql
