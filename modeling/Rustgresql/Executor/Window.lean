import Rustgresql.Executor.Aggregate
import Rustgresql.Executor.Sort
import Rustgresql.Usize

/-!
# Window functions

The rows of the input are split into partitions. In each partition every function goes over the rows in the
order of its own ORDER BY, and what it computes is written back to where the rows stood.
-/

namespace Rustgresql

open ExpressionEvaluator

open Sql (OrderBy WindowFrame WindowFrameBound)

/-- The stable sort of the standard library -/
abbrev SortBy := ∀ α : Type, (α → α → Ordering) → List α → Result (List α)

/-- Window function state for incremental computation -/
inductive WindowFunctionState
  | rowNumber (count : ℕ)
  | rank (currentRank : ℕ) (prevValues : Option (List Value))
  | denseRank (currentRank : ℕ) (prevValues : Option (List Value))
  | lag (buffer : List Value)
  | lead (buffer : List Value)
  | aggregate (state : AggregateState)

/-- Window function operator for SQL window operations -/
structure WindowOperator (S : Type) where
  windowFunctions : List (String × WindowFunction (Expression S))
  partitionBy : List (Expression S)
  orderBy : List (OrderBy (Expression S))

namespace WindowOperator

variable {S : Type}

/-- Create evaluation context for sorting -/
def sortingContext (columnNames : List String) (row : Row) : Context :=
  .withColumns (createEvaluationContext columnNames row)

/-- Evaluate an expression on the columns of a row. -/
def rowEvaluator (ops : Operations S) : Evaluator (Expression S) := fun e columns =>
  evaluate ops (.withColumns columns) e

/-- Compare two rows of the input. If the evaluation of an item fails, the rows count as equal. -/
def compareInputRows (ops : Operations S) (columnNames : List String) :
    List (OrderBy (Expression S)) → Row → Row → Ordering
  | [], _, _ => .eq
  | item :: orderBy, a, b =>
    match evaluate ops (sortingContext columnNames a) item.expr, evaluate ops (sortingContext columnNames b) item.expr with
    | .ok v, .ok w =>
      let comparison := compareValues v w item.nulls
      if comparison ≠ .eq then directed item.direction comparison
      else compareInputRows ops columnNames orderBy a b
    | _, _ => .eq

/-- Sort input rows based on ORDER BY clause -/
def sortInputRows (sort : SortBy) (ops : Operations S) (op : WindowOperator S) (input : QueryResult) :
    Result (List Row) :=
  if op.orderBy.isEmpty then .ok input.rows
  else sort Row (compareInputRows ops input.columnNames op.orderBy) input.rows

/-! ## Frames -/

/-- Evaluate a constant expression (used for frame bounds) -/
def evaluateConstantExpression : Expression S → Result Value
  | .value v => .ok v
  | _ => .error (.err (.invalidOperation "Only constant values supported for frame bounds"))

/-- `as usize` -/
def asUsize (n : ℤ) : ℕ := (n % Usize.size).toNat

/-- The number of rows in a frame bound -/
def boundRows (e : Expression S) : Result ℕ :=
  match evaluateConstantExpression e with
  | .ok (.integer n) => .ok (asUsize n)
  | _ => .error (.err (.invalidOperation "Only constant integer expressions supported for frame bounds"))

/-- Calculate rows to go back -/
def precedingRow (currentRowIndex precedingRows : ℕ) : ℕ :=
  if precedingRows ≤ currentRowIndex then currentRowIndex - precedingRows else 0

def frameStart (currentRowIndex : ℕ) : WindowFrameBound (Expression S) → Result ℕ
  | .currentRow => .ok currentRowIndex
  | .unboundedPreceding => .ok 0
  | .unboundedFollowing => .error (.err (.invalidOperation "Unbounded following not supported as frame start"))
  | .preceding e => do
    let precedingRows ← boundRows e
    return precedingRow currentRowIndex precedingRows
  | .following _ => .error (.err (.invalidOperation "Following not supported as frame start"))

def frameEnd (overflowChecks : Bool) (partitionSize currentRowIndex : ℕ) :
    Option (WindowFrameBound (Expression S)) → Result ℕ
  | some .currentRow => .ok currentRowIndex
  | some .unboundedPreceding =>
    .error (.err (.invalidOperation "Unbounded preceding not supported as frame end"))
  | some .unboundedFollowing => .ok (partitionSize - 1)
  | some (.preceding e) => do
    let precedingRows ← boundRows e
    return precedingRow currentRowIndex precedingRows
  | some (.following e) => do
    let followingRows ← boundRows e
    let last ← Usize.add overflowChecks currentRowIndex followingRows
    return min last (partitionSize - 1)
  | none => .ok currentRowIndex

/-- The bounds of a frame before they are brought into the partition -/
def unclampedFrame (overflowChecks : Bool) (partitionSize currentRowIndex : ℕ)
    (windowFunc : WindowFunction (Expression S)) : Result (ℕ × ℕ) :=
  match windowFunc.windowClause.windowFrame with
  | some frame =>
    match frame.mode with
    | .rows => do
      let first ← frameStart currentRowIndex frame.start
      let last ← frameEnd overflowChecks partitionSize currentRowIndex frame.end
      return (first, last)
    | .range => .error (.err (.invalidOperation "RANGE mode not yet implemented for window frames"))
  | none =>
    -- No ORDER BY: aggregate over entire partition. Otherwise up to the current row
    if windowFunc.windowClause.orderBy.isEmpty then .ok (0, partitionSize - 1) else .ok (0, currentRowIndex)

/-- Calculate frame boundaries for a given row and window frame specification -/
def calculateFrameBoundaries (overflowChecks : Bool) (partitionSize currentRowIndex : ℕ)
    (windowFunc : WindowFunction (Expression S)) : Result (ℕ × ℕ) := do
  let frame ← unclampedFrame overflowChecks partitionSize currentRowIndex windowFunc
  return (max frame.1 0, min frame.2 (partitionSize - 1))

/-- The rows of a partition that a frame covers -/
def frameRows (partitionSize : ℕ) (frame : ℕ × ℕ) : List ℕ :=
  (List.range' frame.1 (frame.2 + 1 - frame.1)).filter (· < partitionSize)

/-! ## Functions -/

/-- Get ORDER BY values using a specific ORDER BY clause -/
def getOrderByValues (ops : Operations S) (columnNames : List String) (orderBy : List (OrderBy (Expression S)))
    (row : Row) : Result (List Value) :=
  evaluateAll ops (sortingContext columnNames row) (orderBy.map OrderBy.expr)

/-- Check if two value vectors are equal (for rank/dense_rank) -/
def valuesEqual (a b : List Value) : Bool :=
  if a.length ≠ b.length then false else (a.zip b).all fun p => compareValues p.1 p.2 .default = .eq

/-- Get offset (default to 1 if not specified) -/
def rowOffset (ops : Operations S) (context : Context) (function : String) (args : List (Expression S)) : Result ℕ :=
  match args[1]? with
  | some e => do
    match ← evaluate ops context e with
    | .integer offset =>
      if offset ≤ 0 then throw (.err (.invalidOperation s!"{function} offset must be positive"))
      else return asUsize offset
    | _ => throw (.err (.invalidOperation s!"{function} offset must be an integer"))
  | none => .ok 1

section Functions

variable [DebugText] [FloatArithmetic]

/-- Initialize window function state -/
def initializeWindowFunction (ops : Operations S) (windowFunc : WindowFunction (Expression S)) : WindowFunctionState :=
  match ops.toUppercase windowFunc.name with
  | "ROW_NUMBER" => .rowNumber 0
  | "RANK" => .rank 0 none
  | "DENSE_RANK" => .denseRank 0 none
  | "LAG" => .lag []
  | "LEAD" => .lead []
  | "COUNT" => .aggregate (.newCount false)
  | "SUM" => .aggregate (.newSum false)
  | "AVG" => .aggregate (.newAvg false)
  | "MIN" => .aggregate .newMin
  | "MAX" => .aggregate .newMax
  -- Default to ROW_NUMBER for unknown functions
  | _ => .rowNumber 0

/-- Create a fresh aggregate state for the specified window function -/
def createFreshAggregateState (ops : Operations S) (name : String) : Result AggregateState :=
  match ops.toUppercase name with
  | "COUNT" => .ok (.newCount false)
  | "SUM" => .ok (.newSum false)
  | "AVG" => .ok (.newAvg false)
  | "MIN" => .ok .newMin
  | "MAX" => .ok .newMax
  | _ => .error (.err (.invalidOperation s!"Unknown aggregate function for window: {name}"))

/-- Evaluate the aggregate argument for a row. COUNT(*) has no argument or a star. -/
def aggregateArgument (ops : Operations S) (columnNames : List String) (args : List (Expression S)) (row : Row) :
    Result Value :=
  match args with
  | [] => .ok (.integer 1)
  | .star :: _ => .ok (.integer 1)
  | e :: _ => evaluate ops (sortingContext columnNames row) e

/-- What a function is evaluated on: the rows of the partition in the order of the function, and the names of
their columns. -/
structure SortedPartition where
  rows : List Row
  columnNames : List String

/-- LAG reads the value of an earlier row in the buffer, and adds its own. -/
def evaluateLag (ops : Operations S) (windowFunc : WindowFunction (Expression S)) (partition : SortedPartition)
    (currentRowIndex : ℕ) (row : Row) (state : WindowFunctionState) : Result (Value × WindowFunctionState) :=
  let context := sortingContext partition.columnNames row
  match windowFunc.args with
  | [] => .error (.err (.invalidOperation "LAG function requires 1 or 2 arguments"))
  | _ :: _ :: _ :: _ => .error (.err (.invalidOperation "LAG function requires 1 or 2 arguments"))
  | e :: _ => do
    let offset ← rowOffset ops context "LAG" windowFunc.args
    match state with
    | .lag buffer =>
      let result := if currentRowIndex < offset then Value.null
        else (buffer[currentRowIndex - offset]?).getD .null
      let currentValue ← evaluate ops context e
      return (result, .lag (buffer ++ [currentValue]))
    | _ => throw (.err (.invalidOperation "Invalid window function state for LAG"))

/-- LEAD evaluates its argument on a later row. -/
def evaluateLead (ops : Operations S) (windowFunc : WindowFunction (Expression S)) (partition : SortedPartition)
    (currentRowIndex : ℕ) (row : Row) (state : WindowFunctionState) : Result (Value × WindowFunctionState) :=
  match windowFunc.args with
  | [] => .error (.err (.invalidOperation "LEAD function requires 1 or 2 arguments"))
  | _ :: _ :: _ :: _ => .error (.err (.invalidOperation "LEAD function requires 1 or 2 arguments"))
  | e :: _ => do
    let offset ← rowOffset ops (sortingContext partition.columnNames row) "LEAD" windowFunc.args
    match partition.rows[currentRowIndex + offset]? with
    | none => return (.null, state)
    | some targetRow =>
      let targetValue ← evaluate ops (sortingContext partition.columnNames targetRow) e
      return (targetValue, state)

/-- An aggregate is computed anew over the frame of each row. -/
def evaluateAggregate (overflowChecks : Bool) (ops : Operations S) (windowFunc : WindowFunction (Expression S))
    (partition : SortedPartition) (currentRowIndex : ℕ) (state : WindowFunctionState) :
    Result (Value × WindowFunctionState) :=
  match state with
  | .aggregate _ => do
    let initial ← createFreshAggregateState ops windowFunc.name
    let frame ← calculateFrameBoundaries overflowChecks partition.rows.length currentRowIndex windowFunc
    let rows := (frameRows partition.rows.length frame).filterMap (partition.rows[·]?)
    let final ← rows.foldlM (fun frameState row => do
      let v ← aggregateArgument ops partition.columnNames windowFunc.args row
      return frameState.update v) initial
    return (final.result, state)
  | _ => .error (.err (.invalidOperation "Invalid window function state for aggregate"))

/-- Evaluate a window function for a specific row -/
def evaluateWindowFunction (overflowChecks : Bool) (ops : Operations S) (windowFunc : WindowFunction (Expression S))
    (partition : SortedPartition) (currentRowIndex : ℕ) (row : Row) (state : WindowFunctionState) :
    Result (Value × WindowFunctionState) :=
  match ops.toUppercase windowFunc.name with
  | "LAG" => evaluateLag ops windowFunc partition currentRowIndex row state
  | "LEAD" => evaluateLead ops windowFunc partition currentRowIndex row state
  | "COUNT" | "SUM" | "AVG" | "MIN" | "MAX" =>
    evaluateAggregate overflowChecks ops windowFunc partition currentRowIndex state
  -- Unknown window function, return NULL
  | _ => .ok (.null, state)

/-- The rank of a row among the rows before it, given those of the first row, of a row with the values of the
row before and of a row with other values. -/
def rankStep (currentRank : ℕ) (prevValues : Option (List Value)) (currentValues : List Value) (next : ℕ) :
    ℕ × Option (List Value) :=
  match prevValues with
  | some prev => if valuesEqual currentValues prev then (currentRank, some prev) else (next, some currentValues)
  | none => (1, some currentValues)

/-- Evaluate a window function using the function's own ORDER BY clause -/
def evaluateWindowFunctionWithOrder (overflowChecks : Bool) (ops : Operations S)
    (windowFunc : WindowFunction (Expression S)) (partition : SortedPartition) (currentRowIndex : ℕ) (row : Row)
    (state : WindowFunctionState) : Result (Value × WindowFunctionState) :=
  match ops.toUppercase windowFunc.name, state with
  | "ROW_NUMBER", .rowNumber count => .ok (.integer (count + 1), .rowNumber (count + 1))
  | "ROW_NUMBER", _ => .error (.err (.invalidOperation "Invalid window function state for ROW_NUMBER"))
  | "RANK", .rank currentRank prevValues => do
    let currentValues ← getOrderByValues ops partition.columnNames windowFunc.windowClause.orderBy row
    let rank := rankStep currentRank prevValues currentValues (currentRowIndex + 1)
    return (.integer rank.1, .rank rank.1 rank.2)
  | "RANK", _ => .error (.err (.invalidOperation "Invalid window function state for RANK"))
  | "DENSE_RANK", .denseRank currentRank prevValues => do
    let currentValues ← getOrderByValues ops partition.columnNames windowFunc.windowClause.orderBy row
    let rank := rankStep currentRank prevValues currentValues (currentRank + 1)
    return (.integer rank.1, .denseRank rank.1 rank.2)
  | "DENSE_RANK", _ => .error (.err (.invalidOperation "Invalid window function state for DENSE_RANK"))
  -- For other window functions, delegate to the original method
  | _, state => evaluateWindowFunction overflowChecks ops windowFunc partition currentRowIndex row state

/-- Go over the rows of a sorted partition, each with its original index. -/
def evaluateRows (overflowChecks : Bool) (ops : Operations S) (windowFunc : WindowFunction (Expression S))
    (partition : SortedPartition) : ℕ → WindowFunctionState → List (Row × ℕ) → Result (List (ℕ × Value))
  | _, _, [] => .ok []
  | sortedRowIndex, state, (row, originalIndex) :: rows => do
    let (v, state) ← evaluateWindowFunctionWithOrder overflowChecks ops windowFunc partition sortedRowIndex row state
    let values ← evaluateRows overflowChecks ops windowFunc partition (sortedRowIndex + 1) state rows
    return (originalIndex, v) :: values

/-! ## The operator -/

/-- Sort a partition according to a window function's ORDER BY, with the original indices -/
def sortPartition (sort : SortBy) (ops : Operations S) (columnNames : List String)
    (orderBy : List (OrderBy (Expression S))) (partition : List Row) : Result (List (Row × ℕ)) :=
  if orderBy.isEmpty then .ok partition.zipIdx
  else sort (Row × ℕ) (fun a b => SortOperator.compareRows (rowEvaluator ops) columnNames orderBy a.1 b.1)
    partition.zipIdx

/-- Store the results at the original row indices. -/
def storeResults (numRows : ℕ) (values : List (ℕ × Value)) : List Value :=
  values.foldl (fun results p => results.set p.1 p.2) (List.replicate numRows .null)

/-- The results of a window function on a partition -/
def windowResults (sort : SortBy) (overflowChecks : Bool) (ops : Operations S) (columnNames : List String)
    (windowFunc : WindowFunction (Expression S)) (partition : List Row) : Result (List Value) := do
  let sorted ← sortPartition sort ops columnNames windowFunc.windowClause.orderBy partition
  let values ← evaluateRows overflowChecks ops windowFunc ⟨sorted.map Prod.fst, columnNames⟩ 0
    (initializeWindowFunction ops windowFunc) sorted
  return storeResults partition.length values

/-- Combine original rows with all window function results -/
def combineRows (partition : List Row) (results : List (List Value)) : List Row :=
  partition.zipIdx.map fun p => p.1 ++ results.map fun values => values.getD p.2 .null

/-- Apply window functions to each partition -/
def applyWindowFunctions (sort : SortBy) (overflowChecks : Bool) (ops : Operations S) (op : WindowOperator S)
    (partitions : List (List Row)) (columnNames : List String) : Result (List Row) := do
  let rows ← partitions.mapM fun partition => do
    let results ← op.windowFunctions.mapM fun f => windowResults sort overflowChecks ops columnNames f.2 partition
    return combineRows partition results
  return rows.flatten

/-- Calculate partition key by evaluating all PARTITION BY expressions -/
def partitionKey (ops : Operations S) (partitionBy : List (Expression S)) (columnNames : List String) (row : Row) :
    String :=
  "|".intercalate (partitionBy.map fun e => AggregateOperator.keyPart (evaluate ops (sortingContext columnNames row) e))

/-- Partition rows based on PARTITION BY clause -/
def partitionRows (ops : Operations S) (op : WindowOperator S) (rows : List Row) (columnNames : List String) :
    List (List Row) :=
  -- No partitioning, all rows in one partition
  if op.partitionBy.isEmpty then [rows]
  else (HashMap.group (partitionKey ops op.partitionBy columnNames) (fun _ => []) (fun rows row => rows ++ [row])
    rows).pairs.map Prod.snd

def execute (sort : SortBy) (overflowChecks : Bool) (ops : Operations S) (op : WindowOperator S)
    (input : Result QueryResult) : Result QueryResult := do
  let inputResult ← input
  let columnNames := inputResult.columnNames ++ op.windowFunctions.map Prod.fst
  if inputResult.rows.isEmpty then return ⟨[], columnNames⟩
  let sortedRows ← sortInputRows sort ops op inputResult
  let rows ← applyWindowFunctions sort overflowChecks ops op
    (partitionRows ops op sortedRows inputResult.columnNames) inputResult.columnNames
  return ⟨rows, columnNames⟩

end Functions

end WindowOperator

end Rustgresql
