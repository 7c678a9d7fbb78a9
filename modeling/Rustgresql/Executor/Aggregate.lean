import Rustgresql.Executor.DebugText
import Rustgresql.Executor.Expression
import Rustgresql.Executor.Operators

/-!
# Aggregation

GROUP BY, the aggregate functions, HAVING and the window functions that run on top of them.
`execute_groups`: grouping partitions the rows. The arithmetic of floating-point numbers and what a window
function computes are parameters.
-/

namespace Rustgresql

open ExpressionEvaluator

open SetOperationOperator (IsPlain IsPlainRow)

variable {S W : Type}

/-- The arithmetic of floating-point numbers -/
class FloatArithmetic where
  add : UInt64 → UInt64 → UInt64
  div : UInt64 → UInt64 → UInt64
  /-- `as f64` -/
  ofInt : ℤ → UInt64
  /-- `fract() == 0.0` -/
  isWhole : UInt64 → Bool
  /-- `as i64` -/
  toInt : UInt64 → ℤ

/-- `<=` on floating-point numbers. What is not a number is not comparable. -/
def floatLe (x y : UInt64) : Bool :=
  match floatKey x, floatKey y with
  | some i, some j => i ≤ j
  | _, _ => false

/-! ## Aggregate states -/

/-- Aggregate function state for processing multiple rows -/
inductive AggregateState
  | count (count : ℕ) (distinct : Bool) (values : Finset String)
  | sum (sum : Option UInt64) (distinct : Bool) (values : Finset String)
  | avg (sum : Option UInt64) (count : ℕ) (distinct : Bool) (values : Finset String)
  | min (min : Option Value)
  | max (max : Option Value)

namespace AggregateState

def newCount (distinct : Bool) : AggregateState := .count 0 distinct ∅

def newSum (distinct : Bool) : AggregateState := .sum (some 0) distinct ∅

def newAvg (distinct : Bool) : AggregateState := .avg (some 0) 0 distinct ∅

def newMin : AggregateState := .min none

def newMax : AggregateState := .max none

/-- Compare two values for ordering. NULL is less than everything, itself too. -/
def compareValues : Value → Value → Ordering
  | .null, _ => .lt
  | a, b => Rustgresql.compareValues a b .default

variable [DebugText] [FloatArithmetic]

/-- Extract numeric value from a value for SUM and AVG -/
def extractNumeric : Value → Option UInt64
  | .integer i => some (FloatArithmetic.ofInt i)
  | .float x => some x
  | _ => none

/-- Add a value to a sum, if it is a number. -/
def addNumeric (total : Option UInt64) (v : Value) : Option UInt64 :=
  match extractNumeric v with
  | some x => total.map (FloatArithmetic.add · x)
  | none => total

/-- Update aggregate state with a new value -/
def update (state : AggregateState) (v : Value) : AggregateState :=
  match state with
  | .count n distinct values =>
    -- Skip NULL values
    if v.isNull then state
    else if distinct then
      if DebugText.value v ∈ values then state else .count (n + 1) distinct (insert (DebugText.value v) values)
    else .count (n + 1) distinct values
  | .sum total distinct values =>
    if distinct then
      if DebugText.value v ∈ values then state
      else .sum (addNumeric total v) distinct (insert (DebugText.value v) values)
    else .sum (addNumeric total v) distinct values
  | .avg total n distinct values =>
    let n' := if (extractNumeric v).isSome then n + 1 else n
    if distinct then
      if DebugText.value v ∈ values then state
      else .avg (addNumeric total v) n' distinct (insert (DebugText.value v) values)
    else .avg (addNumeric total v) n' distinct values
  | .min current =>
    if v.isNull then state
    else match current with
      | none => .min (some v)
      | some currentMin => if compareValues v currentMin = .lt then .min (some v) else state
  | .max current =>
    if v.isNull then state
    else match current with
      | none => .max (some v)
      | some currentMax => if compareValues v currentMax = .gt then .max (some v) else state

/-- Return as integer if it's a whole number, otherwise as float -/
def wholeOrFloat (x : UInt64) : Value :=
  if FloatArithmetic.isWhole x && floatLe x (FloatArithmetic.ofInt (2 ^ 63 - 1)) &&
      floatLe (FloatArithmetic.ofInt (-2 ^ 63)) x then
    .integer (FloatArithmetic.toInt x)
  else .float x

/-- Get the final result of the aggregate -/
def result : AggregateState → Value
  | .count n _ _ => .integer n
  | .sum none _ _ => .null
  | .sum (some x) _ _ => wholeOrFloat x
  | .avg none _ _ _ => .null
  | .avg (some x) n _ _ =>
    if n = 0 then .null else wholeOrFloat (FloatArithmetic.div x (FloatArithmetic.ofInt n))
  | .min current => current.getD .null
  | .max current => current.getD .null

end AggregateState

/-! ## Window functions -/

/-- What a window function computes on the rows of a partition: one value for each of them. -/
abbrev WindowEvaluator (W : Type) := W → List Row → List String → Result (ℕ → Value)

/-- The window operator without PARTITION BY and ORDER BY of its own: all rows are one partition. -/
def WindowOperator.executeUnpartitioned (window : WindowEvaluator W) (windowFunctions : List (String × W))
    (input : QueryResult) : Result QueryResult :=
  let columnNames := input.columnNames ++ windowFunctions.map Prod.fst
  if input.rows.isEmpty then .ok ⟨[], columnNames⟩
  else do
    let results ← windowFunctions.mapM fun f => window f.2 input.rows input.columnNames
    return ⟨input.rows.zipIdx.map fun p => p.1 ++ results.map fun values => values p.2, columnNames⟩

/-! ## The operator -/

/-- Aggregate operator with window function support -/
structure AggregateOperator (S W : Type) where
  groupByColumns : List (Expression S)
  /-- Aliases and aggregate expressions -/
  aggregateFunctions : List (String × Expression S)
  /-- HAVING clause filter -/
  havingClause : Option (Expression S)
  /-- Aliases and window functions -/
  windowFunctions : List (String × W)

/-- NULL stands for an expression that cannot be evaluated. -/
def orNull : Result Value → Value
  | .ok v => v
  | .error _ => .null

namespace AggregateOperator

/-- The context in which the expressions of a row are evaluated. -/
def rowContext (columnNames : List String) (row : Row) : Context :=
  .withColumns (createEvaluationContext columnNames row)

/-- Create initial aggregate state for an expression -/
def createAggregateState (ops : Operations S) : Expression S → AggregateState
  | .function name _ distinct =>
    match ops.toUppercase name with
    | "COUNT" => .newCount distinct
    | "SUM" => .newSum distinct
    | "AVG" => .newAvg distinct
    | "MIN" => .newMin
    | "MAX" => .newMax
    -- Unknown aggregate function - default to COUNT
    | _ => .newCount false
  | _ => .newCount false

/-- The value of a row that is passed to an aggregate. COUNT(*) counts every row. -/
def argumentValue (ops : Operations S) (columnNames : List String) (row : Row) : Expression S → Value
  | .function name args _ =>
    match ops.toUppercase name, args with
    | "COUNT", [.star] => .integer 1
    | _, arg :: _ => orNull (evaluate ops (rowContext columnNames row) arg)
    | _, [] => .null
  | e => orNull (evaluate ops (rowContext columnNames row) e)

/-- Compute group by values for output -/
def groupValues (ops : Operations S) (op : AggregateOperator S W) (columnNames : List String) (row : Row) : Row :=
  op.groupByColumns.map fun e => orNull (evaluate ops (rowContext columnNames row) e)

section Execution

variable [DebugText] [FloatArithmetic]

/-- A part of the key of a group. -/
def keyPart : Result Value → String
  | .ok v => DebugText.value v
  | .error _ => "NULL"

/-- Compute group key -/
def groupKey (ops : Operations S) (op : AggregateOperator S W) (columnNames : List String) (row : Row) : String :=
  if op.groupByColumns.isEmpty then "SINGLE_GROUP"
  else "|".intercalate (op.groupByColumns.map fun e => keyPart (evaluate ops (rowContext columnNames row) e))

/-- The values of a group, and the states of its aggregates -/
abbrev Group := Row × List AggregateState

def newGroup (ops : Operations S) (op : AggregateOperator S W) (columnNames : List String) (row : Row) : Group :=
  (op.groupValues ops columnNames row, op.aggregateFunctions.map fun f => createAggregateState ops f.2)

/-- Update aggregate states with a row -/
def updateGroup (ops : Operations S) (op : AggregateOperator S W) (columnNames : List String) (group : Group)
    (row : Row) : Group :=
  (group.1, List.zipWith (fun state f => state.update (argumentValue ops columnNames row f.2)) group.2
    op.aggregateFunctions)

/-- Hash-based aggregation: group rows by GROUP BY key -/
def groups (ops : Operations S) (op : AggregateOperator S W) (input : QueryResult) : HashMap String Group :=
  HashMap.group (op.groupKey ops input.columnNames) (op.newGroup ops input.columnNames)
    (op.updateGroup ops input.columnNames) input.rows

/-- Finalize all aggregates -/
def groupRow (group : Group) : Row := group.1 ++ group.2.map AggregateState.result

/-- Complex expressions get a generated name. -/
def groupColumnName : Expression S → String
  | .column _ name => name
  | _ => "group_expr"

def resultColumnNames (op : AggregateOperator S W) : List String :=
  op.groupByColumns.map groupColumnName ++ op.aggregateFunctions.map Prod.fst ++
    op.windowFunctions.map Prod.fst

/-- The columns that HAVING sees: GROUP BY columns, and aggregates by their aliases. -/
def havingColumns (op : AggregateOperator S W) (row : Row) : EvaluationContext :=
  let columns : EvaluationContext := (op.groupByColumns.zip row).foldl (fun columns p =>
    match p.1 with
    | .column _ name => columns.insert name p.2
    | _ => columns) ∅
  (op.aggregateFunctions.zip (row.drop op.groupByColumns.length)).foldl
    (fun columns p => columns.insert p.1.1 p.2) columns

/-- The aggregate values that HAVING sees, by the keys of their calls. -/
def havingAggregates (ops : Operations S) (op : AggregateOperator S W) (row : Row) : HashMap String Value :=
  (op.aggregateFunctions.zip (row.drop op.groupByColumns.length)).foldl (fun aggregates p =>
    match p.1.2 with
    | .function name args _ => aggregates.insert (functionKey ops name args) p.2
    | _ => aggregates) ∅

def havingContext (ops : Operations S) (op : AggregateOperator S W) (row : Row) : Context :=
  { Context.withColumns (op.havingColumns row) with havingAggregates := some (op.havingAggregates ops row) }

/-- Apply HAVING clause filter if present. If it cannot be evaluated, the group is included. -/
def keepsGroup (ops : Operations S) (op : AggregateOperator S W) (row : Row) : Bool :=
  match op.havingClause with
  | none => true
  | some having =>
    match evaluate ops (op.havingContext ops row) having with
    | .ok (.boolean b) => b
    -- NULL evaluates to FALSE in HAVING
    | .ok .null => false
    | .ok _ => true
    | .error _ => true

/-- Apply window functions if present -/
def applyWindows (window : WindowEvaluator W) (op : AggregateOperator S W) (result : QueryResult) :
    Result QueryResult :=
  if op.windowFunctions.isEmpty then .ok result
  else WindowOperator.executeUnpartitioned window op.windowFunctions result

/-- Compute initial aggregate results -/
def initialRow (ops : Operations S) (op : AggregateOperator S W) : Row :=
  op.aggregateFunctions.map fun f => (createAggregateState ops f.2).result

/-- Handle empty input case -/
def executeEmpty (ops : Operations S) (window : WindowEvaluator W) (op : AggregateOperator S W) :
    Result QueryResult :=
  let columnNames := op.aggregateFunctions.map Prod.fst ++ op.windowFunctions.map Prod.fst
  -- For empty input with no GROUP BY, return single row with initial aggregate values
  if op.groupByColumns.isEmpty then op.applyWindows window ⟨[op.initialRow ops], columnNames⟩
  else .ok ⟨[], columnNames⟩

def execute (ops : Operations S) (window : WindowEvaluator W) (op : AggregateOperator S W)
    (input : Result QueryResult) : Result QueryResult := do
  let inputResult ← input
  if inputResult.rows.isEmpty then op.executeEmpty ops window
  else
    let rows := (op.groups ops inputResult).pairs.map fun p => groupRow p.2
    op.applyWindows window ⟨rows.filter (op.keepsGroup ops), op.resultColumnNames⟩

end Execution

/-! ## Keys -/

section Keys

variable {ops : Operations S} {op : AggregateOperator S W} {input : QueryResult}

theorem keepsGroup_of_none (h : op.havingClause = none) (row : Row) : op.keepsGroup ops row = true := by
  rw [keepsGroup, h]

/-- The GROUP BY expressions evaluate to NULL, Booleans, integers or strings. -/
def GroupsPlainly (ops : Operations S) (op : AggregateOperator S W) (input : QueryResult) : Prop :=
  ∀ row ∈ input.rows, ∀ e ∈ op.groupByColumns,
    ∃ v, evaluate ops (rowContext input.columnNames row) e = .ok v ∧ IsPlain v

theorem GroupsPlainly.isPlainRow (h : op.GroupsPlainly ops input) {row : Row} (hrow : row ∈ input.rows) :
    IsPlainRow (op.groupValues ops input.columnNames row) := by
  intro v hv
  obtain ⟨e, he, rfl⟩ := List.mem_map.mp hv
  obtain ⟨v, heval, hplain⟩ := h row hrow e he
  rw [heval]
  exact hplain

variable [DebugText]

theorem GroupsPlainly.groupKey_eq (h : op.GroupsPlainly ops input) (hgroupBy : op.groupByColumns ≠ []) {row : Row}
    (hrow : row ∈ input.rows) : op.groupKey ops input.columnNames row =
      "|".intercalate ((op.groupValues ops input.columnNames row).map DebugText.value) := by
  rw [groupKey, if_neg (by simpa using hgroupBy), groupValues, List.map_map]
  refine congrArg _ (List.map_congr_left fun e he => ?_)
  obtain ⟨v, heval, -⟩ := h row hrow e he
  rw [Function.comp_apply, heval]
  rfl

/-- Rows are in the same group if and only if their group values are the same. -/
theorem GroupsPlainly.groupKey_eq_iff (h : op.GroupsPlainly ops input) (hgroupBy : op.groupByColumns ≠ [])
    {unprintable : Char → Bool} (hderived : DebugText.IsDerived unprintable) {row row' : Row}
    (hrow : row ∈ input.rows) (hrow' : row' ∈ input.rows) :
    op.groupKey ops input.columnNames row = op.groupKey ops input.columnNames row' ↔
      op.groupValues ops input.columnNames row = op.groupValues ops input.columnNames row' := by
  rw [h.groupKey_eq hgroupBy hrow, h.groupKey_eq hgroupBy hrow']
  refine ⟨fun heq => ?_, fun heq => by rw [heq]⟩
  refine DebugText.groupKey_inj hderived (h.isPlainRow hrow) (h.isPlainRow hrow') ?_ heq
  rw [groupValues, groupValues, List.length_map, List.length_map]

end Keys

/-! ## Groups -/

section Groups

variable [DebugText] [FloatArithmetic] {ops : Operations S} {window : WindowEvaluator W}
  {op : AggregateOperator S W} {input : QueryResult} {columnNames : List String}

/-- The aggregate of an expression over rows. -/
def aggregate (ops : Operations S) (columnNames : List String) (rows : List Row) (e : Expression S) : Value :=
  ((rows.map fun row => argumentValue ops columnNames row e).foldl AggregateState.update
    (createAggregateState ops e)).result

theorem foldl_updateGroup (values : Row) (initial : String × Expression S → AggregateState) (rows : List Row) :
    rows.foldl (op.updateGroup ops columnNames) (values, op.aggregateFunctions.map initial) =
      (values, op.aggregateFunctions.map fun f =>
        (rows.map fun row => argumentValue ops columnNames row f.2).foldl AggregateState.update (initial f)) := by
  induction rows generalizing initial with
  | nil => rfl
  | cons row rows ih =>
    have hstep : op.updateGroup ops columnNames (values, op.aggregateFunctions.map initial) row =
        (values, op.aggregateFunctions.map fun f => (initial f).update (argumentValue ops columnNames row f.2)) := by
      rw [updateGroup, List.zipWith_map_left, List.zipWith_self]
    rw [List.foldl_cons, hstep, ih]
    rfl

/-- The group values of a row that has the aggregates over some rows -/
def rowOf (ops : Operations S) (op : AggregateOperator S W) (columnNames : List String) (rows : List Row)
    (values : Row) : Row :=
  values ++ op.aggregateFunctions.map fun f => aggregate ops columnNames rows f.2

/-- A group is made of the rows with its key, and has the values of the first of them. -/
theorem of_mem_groups {p : String × Group} (h : p ∈ (op.groups ops input).pairs) :
    ∃ row ∈ input.rows, op.groupKey ops input.columnNames row = p.1 ∧
      p.2.1 = op.groupValues ops input.columnNames row ∧
      groupRow p.2 = op.rowOf ops input.columnNames
        (input.rows.filter fun row => op.groupKey ops input.columnNames row = p.1) p.2.1 := by
  have hlookup := HashMap.mem_pairs.mp h
  rw [groups, HashMap.lookup_group, Option.map_eq_some_iff] at hlookup
  obtain ⟨row, hhead, hgroup⟩ := hlookup
  obtain ⟨hrow, hkey⟩ := List.mem_filter.mp (List.mem_of_mem_head? hhead)
  rw [newGroup, foldl_updateGroup] at hgroup
  refine ⟨row, hrow, of_decide_eq_true hkey, ?_, ?_⟩
  · rw [← hgroup]
  · rw [← hgroup, groupRow, rowOf, List.map_map]
    rfl

/-- Every row is in a group. -/
theorem exists_mem_groups {row : Row} (hrow : row ∈ input.rows) :
    ∃ group, (op.groupKey ops input.columnNames row, group) ∈ (op.groups ops input).pairs := by
  have hmem : row ∈ input.rows.filter fun row' =>
      op.groupKey ops input.columnNames row' = op.groupKey ops input.columnNames row :=
    List.mem_filter.mpr ⟨hrow, decide_eq_true rfl⟩
  obtain ⟨first, rest, hrows⟩ := List.exists_cons_of_ne_nil (List.ne_nil_of_mem hmem)
  have hlookup : ∃ group, (op.groups ops input).lookup (op.groupKey ops input.columnNames row) = some group := by
    rw [groups, HashMap.lookup_group, hrows]
    exact ⟨_, rfl⟩
  obtain ⟨group, hgroup⟩ := hlookup
  exact ⟨group, HashMap.mem_pairs.mpr hgroup⟩

theorem nodup_keys_groups : ((op.groups ops input).pairs.map Prod.fst).Nodup := by
  rw [HashMap.pairs, List.map_map]
  exact (op.groups ops input).nodupKeys

/-- The values of the groups, in the order in which the groups are iterated. -/
def tuples (ops : Operations S) (op : AggregateOperator S W) (input : QueryResult) : List Row :=
  (op.groups ops input).pairs.map fun p => p.2.1

section Partition

variable (h : op.GroupsPlainly ops input) (hgroupBy : op.groupByColumns ≠ []) {unprintable : Char → Bool}
  (hderived : DebugText.IsDerived unprintable)

include h hgroupBy

theorem nodup_tuples : (op.tuples ops input).Nodup := by
  refine List.Nodup.of_map (fun tuple => "|".intercalate (tuple.map DebugText.value)) ?_
  have hkeys : (op.tuples ops input).map (fun tuple => "|".intercalate (tuple.map DebugText.value)) =
      (op.groups ops input).pairs.map Prod.fst := by
    rw [tuples, List.map_map]
    refine List.map_congr_left fun p hp => ?_
    obtain ⟨row, hrow, hkey, hvalues, -⟩ := of_mem_groups hp
    rw [Function.comp_apply, hvalues, ← h.groupKey_eq hgroupBy hrow, hkey]
  rw [hkeys]
  exact nodup_keys_groups

include hderived

theorem mem_tuples {tuple : Row} : tuple ∈ op.tuples ops input ↔
    ∃ row ∈ input.rows, op.groupValues ops input.columnNames row = tuple := by
  rw [tuples, List.mem_map]
  constructor
  · rintro ⟨p, hp, rfl⟩
    obtain ⟨row, hrow, -, hvalues, -⟩ := of_mem_groups hp
    exact ⟨row, hrow, hvalues.symm⟩
  · rintro ⟨row, hrow, rfl⟩
    obtain ⟨group, hgroup⟩ := exists_mem_groups hrow
    obtain ⟨row', hrow', hkey, hvalues, -⟩ := of_mem_groups hgroup
    refine ⟨_, hgroup, hvalues.trans ?_⟩
    exact (h.groupKey_eq_iff hgroupBy hderived hrow' hrow).mp hkey

open scoped Classical in
/-- A group has the rows with its values. -/
theorem groupRows_eq : ((op.groups ops input).pairs.map fun p => groupRow p.2) =
    (op.tuples ops input).map fun tuple => op.rowOf ops input.columnNames
      (input.rows.filter fun row => op.groupValues ops input.columnNames row = tuple) tuple := by
  rw [tuples, List.map_map]
  refine List.map_congr_left fun p hp => ?_
  obtain ⟨row, hrow, hkey, hvalues, hgroup⟩ := of_mem_groups hp
  rw [hgroup, Function.comp_apply]
  congr 1
  refine List.filter_congr fun row' hrow' => ?_
  rw [decide_eq_decide, ← hkey, hvalues]
  exact h.groupKey_eq_iff hgroupBy hderived hrow' hrow

end Partition

theorem aggregate_countStar {name : String} (hname : ops.toUppercase name = "COUNT") (rows : List Row) :
    aggregate ops columnNames rows (.function name [.star] false) = .integer rows.length := by
  have hargument (row : Row) : argumentValue ops columnNames row (.function name [.star] false) = .integer 1 := by
    simp only [argumentValue, hname]
  have hcount (n : ℕ) : ((rows.map fun _ => Value.integer 1).foldl AggregateState.update (.count n false ∅)) =
      .count (n + rows.length) false ∅ := by
    induction rows generalizing n with
    | nil => rfl
    | cons row rows ih =>
      rw [List.map_cons, List.foldl_cons, List.length_cons, Nat.add_comm rows.length, ← Nat.add_assoc]
      exact ih (n + 1)
  rw [aggregate]
  simp only [hargument, createAggregateState, hname]
  rw [AggregateState.newCount, hcount]
  simp [AggregateState.result]

/-- Without HAVING and window functions the rows of all groups are returned. -/
theorem exists_execute (hgroupBy : op.groupByColumns ≠ []) (hhaving : op.havingClause = none)
    (hwindow : op.windowFunctions = []) : ∃ columns, op.execute ops window (.ok input) =
      .ok ⟨(op.groups ops input).pairs.map fun p => groupRow p.2, columns⟩ := by
  have hnone (result : QueryResult) : op.applyWindows window result = .ok result := by
    rw [applyWindows, hwindow]
    rfl
  by_cases hempty : input.rows = []
  · have hgroups : (op.groups ops input).pairs = [] := by
      rw [groups, hempty]
      rfl
    have hexecute : op.execute ops window (.ok input) = op.executeEmpty ops window :=
      if_pos (List.isEmpty_iff.mpr hempty)
    rw [hexecute, executeEmpty, if_neg (by simpa using hgroupBy), hgroups]
    exact ⟨_, rfl⟩
  · have hexecute : op.execute ops window (.ok input) = op.applyWindows window
        ⟨((op.groups ops input).pairs.map fun p => groupRow p.2).filter (op.keepsGroup ops), op.resultColumnNames⟩ :=
      if_neg (mt List.isEmpty_iff.mp hempty)
    rw [hexecute, hnone, List.filter_eq_self.mpr fun row _ => keepsGroup_of_none hhaving row]
    exact ⟨_, rfl⟩

theorem getElem?_rowOf {values : Row} (hvalues : values.length = op.groupByColumns.length) (rows : List Row) (i : ℕ) :
    (op.rowOf ops columnNames rows values)[op.groupByColumns.length + i]? =
      op.aggregateFunctions[i]?.map fun f => aggregate ops columnNames rows f.2 := by
  rw [rowOf, ← hvalues, List.getElem?_append_right (Nat.le_add_right ..), Nat.add_sub_cancel_left,
    List.getElem?_map]

end Groups

/-- Rows are counted by the column `k`. -/
def countByKey : AggregateOperator Unit Unit where
  groupByColumns := [.column none "k"]
  aggregateFunctions := [("count", .function "COUNT" [.star] false)]
  havingClause := none
  windowFunctions := []

end AggregateOperator

end Rustgresql
