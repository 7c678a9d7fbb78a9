import Rustgresql.Executor.Operators
import Rustgresql.Sql.Ast

/-!
# Common table expressions

The operator for WITH RECURSIVE. It puts the expressions into groups by the dependencies that its graph
records, and materializes them in the order of the groups. A recursive expression is computed by iteration
over the rows that are new.
-/

namespace Rustgresql

open Sql (Text SelectStatement Statement TableRef JoinCondition CommonTableExpression WithClause)

/-! ## Dependencies -/

structure CteNode where
  name : Text
  isRecursive : Bool
  dependencies : List Text

/-- The nodes of a dependency graph -/
abbrev CteNodes := HashMap Text CteNode

namespace CteDependencyGraph

mutual

def extractQueryDependencies (nodes : CteNodes) : SelectStatement → List Text
  | .simple _ _ _ source joins _ _ _ _ _ _ _ =>
    -- Extract table references from FROM clause and from JOINs
    extractSourceDependencies nodes source ++ extractJoinDependencies nodes joins
  | .setOperation _ left right _ => extractQueryDependencies nodes left ++ extractQueryDependencies nodes right

def extractTableDependencies (nodes : CteNodes) : TableRef Statement → List Text
  | .table name _ => if name ∈ nodes then [name] else []
  | .subquery subquery _ => extractStatementDependencies nodes subquery

def extractStatementDependencies (nodes : CteNodes) : Statement → List Text
  | .select select => extractQueryDependencies nodes select
  | _ => []

def extractSourceDependencies (nodes : CteNodes) : List (TableRef Statement) → List Text
  | [] => []
  | tableRef :: source => extractTableDependencies nodes tableRef ++ extractSourceDependencies nodes source

def extractJoinDependencies (nodes : CteNodes) : List (JoinCondition Sql.Expression Statement) → List Text
  | [] => []
  | ⟨table, _, _⟩ :: joins => extractTableDependencies nodes table ++ extractJoinDependencies nodes joins

end

/-- Dependencies are recorded on the expressions that are in the graph already. -/
def addCte (nodes : CteNodes) (cte : CommonTableExpression SelectStatement) : CteNodes :=
  nodes.insert cte.name ⟨cte.name, cte.recursive, extractQueryDependencies nodes cte.query⟩

/-- The graph of a WITH clause -/
def ofCtes (ctes : List (CommonTableExpression SelectStatement)) : CteNodes := ctes.foldl addCte ∅

/-! ## Execution order -/

def isRecursive (nodes : CteNodes) (name : Text) : Bool := (nodes.lookup name).any CteNode.isRecursive

/-- All dependencies of an expression are processed. -/
def isReady (nodes : CteNodes) (processed : List Text) (name : Text) : Bool :=
  (nodes.lookup name).any fun node => node.dependencies.all fun dep => processed.contains dep

/-- The expressions that remain and are ready -/
def readyCtes (nodes : CteNodes) (processed remaining : List Text) : List Text :=
  remaining.filter (isReady nodes processed)

/-- The expressions that remain when those that are ready are removed -/
def waitingCtes (nodes : CteNodes) (processed remaining : List Text) : List Text :=
  remaining.filter fun name => ! isReady nodes processed name

theorem length_waitingCtes_lt {nodes : CteNodes} {processed remaining : List Text}
    (h : readyCtes nodes processed remaining ≠ []) :
    (waitingCtes nodes processed remaining).length < remaining.length := by
  obtain ⟨name, hname⟩ := List.exists_mem_of_ne_nil _ h
  obtain ⟨hmem, hready⟩ := List.mem_filter.mp hname
  exact List.length_filter_lt_length_iff_exists.mpr ⟨name, hmem, by simp [hready]⟩

/-- Handle recursive CTEs - they must be executed one at a time in dependency order. The hash set of the names
that remain is iterated in an order of its own in every round. -/
def recursiveGroups (iteration : ℕ → List Text → List Text) (nodes : CteNodes) (round : ℕ)
    (processed remaining : List Text) : Result (List (List Text)) :=
  if remaining.isEmpty then .ok []
  else
    if _hready : readyCtes nodes processed remaining = [] then
      .error (.err (.invalidOperation "Circular dependency detected in recursive CTEs"))
    else do
      let currentGroup := iteration round (readyCtes nodes processed remaining)
      let groups ← recursiveGroups iteration nodes (round + 1) (processed ++ currentGroup)
        (waitingCtes nodes processed remaining)
      -- For recursive CTEs, execute them individually to avoid mutual recursion
      return currentGroup.map (fun name => [name]) ++ groups
termination_by remaining.length
decreasing_by exact length_waitingCtes_lt _hready

/-- Non-recursive CTEs come first, as one group. -/
def buildExecutionOrder (iteration : ℕ → List Text → List Text) (nodes : CteNodes) : Result (List (List Text)) := do
  let nonRecursiveGroup := iteration 0 (nodes.keys.filter fun name => ! isRecursive nodes name)
  let groups ← recursiveGroups iteration nodes 1 nonRecursiveGroup (nodes.keys.filter (isRecursive nodes))
  return if nonRecursiveGroup.isEmpty then groups else nonRecursiveGroup :: groups

end CteDependencyGraph

/-! ## The operator -/

/-- The materialized results of common table expressions -/
abbrev MaterializedCtes := HashMap Text QueryResult

/-- Plan and execute a query with the materialized results in reach. -/
abbrev CteQueries := MaterializedCtes → SelectStatement → Result QueryResult

structure CteOperator where
  withClause : WithClause SelectStatement
  mainQuery : Statement

namespace CteOperator

/-- Check if two values are equal -/
def valuesEqual : Value → Value → Bool
  | .null, .null => true
  | .integer a, .integer b => a = b
  | .float a, .float b => floatEq a b
  | .string a, .string b => a = b
  | .boolean a, .boolean b => a = b
  | _, _ => false

/-- Check if two rows are equal (simple value comparison) -/
def rowsEqual (a b : Row) : Bool :=
  if a.length ≠ b.length then false else (a.zip b).all fun p => valuesEqual p.1 p.2

/-- Check if a row already exists in the results (for cycle detection) -/
def rowExistsInResults (existingRows : List Row) (newRow : Row) : Bool :=
  existingRows.any fun row => rowsEqual row newRow

/-- Add the rows of an iteration to the results. For UNION, duplicates are prevented. The first rows returned are
the new ones. -/
def addRows (isUnionAll : Bool) : List Row → List Row → List Row × List Row
  | [], allResults => ([], allResults)
  | row :: rows, allResults =>
    if isUnionAll || ! rowExistsInResults allResults row then
      let added := addRows isUnionAll rows (allResults ++ [row])
      (row :: added.1, added.2)
    else addRows isUnionAll rows allResults

/-- Prevent infinite loops -/
def maxIterations : ℕ := 1000

/-- Iteratively execute the recursive part until no new rows are produced, on the new rows only. -/
def iterate (recursivePart : List Row → Result (List Row)) (isUnionAll : Bool) :
    ℕ → List Row → List Row → Result (List Row)
  | 0, _, allResults => .ok allResults
  | iterationsLeft + 1, workingResult, allResults =>
    if workingResult.isEmpty then .ok allResults
    else do
      let recursiveResult ← recursivePart workingResult
      -- Break if no new rows were produced (convergence)
      if recursiveResult.isEmpty then return allResults
      let added := addRows isUnionAll recursiveResult allResults
      iterate recursivePart isUnionAll iterationsLeft added.1 added.2

def findCte (op : CteOperator) (cteName : Text) : Result (CommonTableExpression SelectStatement) :=
  match op.withClause.ctes.find? (·.name = cteName) with
  | some cte => .ok cte
  | none =>
    let name := String.ofList cteName
    .error (.err (.internal s!"CTE '{name}' not found in WITH clause"))

/-- The recursive part of an expression, on rows that are available under the name of the expression -/
def recursivePart (queries : CteQueries) (materialized : MaterializedCtes) (cteName : Text)
    (columnNames : List String) (recursiveQuery : SelectStatement) (rows : List Row) : Result (List Row) := do
  let result ← queries (materialized.insert cteName ⟨rows, columnNames⟩) recursiveQuery
  return result.rows

/-- Execute a single recursive CTE -/
def executeSingleRecursiveCte (queries : CteQueries) (op : CteOperator) (materialized : MaterializedCtes)
    (cteName : Text) : Result MaterializedCtes := do
  let cte ← op.findCte cteName
  match cte.query with
  | .setOperation .union anchorQuery recursiveQuery isUnionAll => do
    let anchor ← queries materialized anchorQuery
    let rows ← iterate (recursivePart queries materialized cteName anchor.columnNames recursiveQuery) isUnionAll
      maxIterations anchor.rows anchor.rows
    return materialized.insert cteName ⟨rows, anchor.columnNames⟩
  | _ =>
    let name := String.ofList cteName
    .error (.err (.invalidOperation
      s!"Recursive CTE '{name}' must be a UNION or UNION ALL of anchor and recursive parts"))

/-- Execute a single non-recursive CTE -/
def executeSingleNonRecursiveCte (queries : CteQueries) (op : CteOperator) (materialized : MaterializedCtes)
    (cteName : Text) : Result MaterializedCtes := do
  let cte ← op.findCte cteName
  let result ← queries materialized cte.query
  return materialized.insert cteName result

/-- Execute a group of non-recursive CTEs (they can be executed in any order) -/
def executeNonRecursiveCteGroup (queries : CteQueries) (op : CteOperator) (materialized : MaterializedCtes)
    (cteNames : List Text) : Result MaterializedCtes :=
  cteNames.foldlM (executeSingleNonRecursiveCte queries op) materialized

/-- Execute a group of the execution order. -/
def executeGroup (queries : CteQueries) (op : CteOperator) (nodes : CteNodes) (materialized : MaterializedCtes)
    (group : List Text) : Result MaterializedCtes :=
  match group with
  | [cteName] =>
    match nodes.lookup cteName with
    | some node =>
      if node.isRecursive then executeSingleRecursiveCte queries op materialized cteName
      else executeSingleNonRecursiveCte queries op materialized cteName
    | none => .ok materialized
  | cteNames => executeNonRecursiveCteGroup queries op materialized cteNames

/-- Execute multiple recursive CTEs with proper dependency management -/
def executeRecursiveCtes (queries : CteQueries) (iteration : ℕ → List Text → List Text) (op : CteOperator) :
    Result QueryResult := do
  let nodes := CteDependencyGraph.ofCtes op.withClause.ctes
  let executionOrder ← CteDependencyGraph.buildExecutionOrder iteration nodes
  let materialized ← executionOrder.foldlM (executeGroup queries op nodes) ∅
  match op.mainQuery with
  | .select selectStmt => queries materialized selectStmt
  | _ => throw (.err (.invalidOperation "CTE operator only supports SELECT statements as main query"))

end CteOperator

end Rustgresql
