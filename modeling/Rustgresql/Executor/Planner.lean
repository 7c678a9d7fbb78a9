import Rustgresql.Executor.Columns
import Rustgresql.Executor.Window.Partition

/-!
# Query planning

The plans that the query planner (`executor/planner.rs`) and the optimizer (`optimizer/query_optimizer.rs`) make
of a SELECT statement, and how they are executed. The engine asks the optimizer first. What FROM and JOIN yield
is the input of the plan.
-/

namespace Rustgresql

open ExpressionEvaluator

open Sql (OrderBy)

variable {S : Type}

/-- Column specification for SELECT (expression with optional alias) -/
structure ColumnSpec (S : Type) where
  expr : Expression S
  «alias» : Option String

/-- The clauses of a SELECT statement after FROM and JOIN -/
structure SelectStatement (S : Type) where
  distinct : Bool
  columns : List (ColumnSpec S)
  whereClause : Option (Expression S)
  groupBy : List (Expression S)
  having : Option (Expression S)
  orderBy : List (OrderBy (Expression S))
  limit : Option ℤ
  offset : Option ℤ

/-- Plan nodes. The leaf stands for the plan of FROM and JOIN. -/
inductive PlanNode (S : Type)
  | source
  | filter (input : PlanNode S) (condition : Expression S)
  | project (input : PlanNode S) (columns : List (String × Expression S))
  | aggregate (input : PlanNode S) (op : AggregateOperator S Empty)
  | window (input : PlanNode S) (windowFunctions : List (String × Expression S))
  | sort (input : PlanNode S) (orderBy : List (OrderBy (Expression S)))
  | limit (input : PlanNode S) (limit : ℤ) (offset : Option ℤ)
  | distinct (input : PlanNode S)

/-- The planners of SELECT statements -/
inductive Planner
  | query | optimizer
  deriving DecidableEq

/-- What the planners take from elsewhere -/
structure PlanningOperations (S : Type) where
  /-- `str::to_lowercase` -/
  toLowercase : String → String
  /-- Check if a statement contains window functions -/
  statementContainsWindowFunctions : S → Bool

namespace QueryPlanner

/-! ## Aggregates -/

/-- Check if an expression is an aggregate function -/
def isAggregateFunction (ops : Operations S) : Expression S → Bool
  | .function name _ _ => IsAggregateName (ops.toUppercase name)
  | _ => false

mutual

/-- Recursively check if an expression contains aggregate functions -/
def containsAggregateFunctions (ops : Operations S) : Expression S → Bool
  | .function name args _ =>
    decide (IsAggregateName (ops.toUppercase name)) || containsAggregateFunctionsExpressions ops args
  | .binaryOp left _ right => containsAggregateFunctions ops left || containsAggregateFunctions ops right
  | _ => false

def containsAggregateFunctionsExpressions (ops : Operations S) : List (Expression S) → Bool
  | [] => false
  | e :: es => containsAggregateFunctions ops e || containsAggregateFunctionsExpressions ops es

end

def isStar : Expression S → Bool
  | .star => true
  | _ => false

/-- Check if two expressions are equal (simplified comparison) -/
def expressionsEqual [DebugText] : Expression S → Expression S → Bool
  | .column _ nameA, .column _ nameB => nameA = nameB
  | .value valA, .value valB => DebugText.value valA = DebugText.value valB
  | .function nameA argsA _, .function nameB argsB _ => nameA = nameB && argsA.length = argsB.length
  | _, _ => false

def hasAggregation (ops : Operations S) (select : SelectStatement S) : Bool :=
  !select.groupBy.isEmpty || containsAggregateFunctionsExpressions ops (select.columns.map ColumnSpec.expr)

/-- The column of an aggregate of the select list -/
def aggregateAlias (plans : PlanningOperations S) (i : ℕ) (spec : ColumnSpec S) : String :=
  spec.alias.getD <| match spec.expr with
    | .function name _ _ => plans.toLowercase name ++ s!"_{i}"
    | _ => s!"aggregate{i}"

def starAlias (i : ℕ) (spec : ColumnSpec S) : String := spec.alias.getD s!"count_star_{i}"

def countStar : Expression S := .function "COUNT" [.star] false

/-- An aggregate function of the select list with its alias. A star with GROUP BY counts. -/
def aggregateFunction (ops : Operations S) (plans : PlanningOperations S) (select : SelectStatement S)
    (i : ℕ) (spec : ColumnSpec S) : Option (String × Expression S) :=
  if isAggregateFunction ops spec.expr then some (aggregateAlias plans i spec, spec.expr)
  else if isStar spec.expr && !select.groupBy.isEmpty then some (starAlias i spec, countStar)
  else none

/-- SELECT * -/
def isStarOnly (select : SelectStatement S) : Bool :=
  match select.columns with
  | [spec] => isStar spec.expr
  | _ => false

/-- Plan aggregation (GROUP BY and aggregate functions) -/
def planAggregation [DebugText] (planner : Planner) (ops : Operations S) (plans : PlanningOperations S)
    (select : SelectStatement S) : AggregateOperator S Empty where
  -- Non-aggregated columns must be in GROUP BY
  groupByColumns := select.groupBy ++ (select.columns.map ColumnSpec.expr).filter fun e =>
    !isAggregateFunction ops e && !isStar e && !select.groupBy.any (expressionsEqual · e)
  aggregateFunctions :=
    (select.columns.zipIdx.filterMap fun p => aggregateFunction ops plans select p.2 p.1) ++
      if isStarOnly select && (planner = .optimizer || select.groupBy.isEmpty) then [("count", countStar)] else []
  havingClause := select.having
  windowFunctions := []

/-! ## Projection -/

/-- The name of a column of the result -/
def columnName (planner : Planner) (i : ℕ) (spec : ColumnSpec S) : String :=
  spec.alias.getD <| match spec.expr with
    | .column _ name => name
    | .star => "*"
    | .subquery _ => if planner = .query then s!"subquery{i}" else s!"col{i}"
    | _ => s!"col{i}"

/-- What a column of the result is computed by. After an aggregation the aggregates are columns. -/
def finalExpr (ops : Operations S) (plans : PlanningOperations S) (select : SelectStatement S) (i : ℕ)
    (spec : ColumnSpec S) : Expression S :=
  if hasAggregation ops select then
    if isAggregateFunction ops spec.expr then .column none (aggregateAlias plans i spec)
    else if isStar spec.expr && !select.groupBy.isEmpty then .column none (starAlias i spec)
    else spec.expr
  else spec.expr

def projections (planner : Planner) (ops : Operations S) (plans : PlanningOperations S)
    (select : SelectStatement S) : List (String × Expression S) :=
  select.columns.zipIdx.map fun p => (columnName planner p.2 p.1, finalExpr ops plans select p.2 p.1)

/-! ## Window functions -/

mutual

/-- Recursively check if an expression contains window functions (at any level) -/
def containsWindowFunctions (plans : PlanningOperations S) : Expression S → Bool
  | .windowFunction _ => true
  | .binaryOp left _ right => containsWindowFunctions plans left || containsWindowFunctions plans right
  | .unaryOp _ expr => containsWindowFunctions plans expr
  | .function _ args _ => containsWindowFunctionsAny plans args
  | .cast expr _ => containsWindowFunctions plans expr
  | .case base branches elseResult => containsWindowFunctionsOption plans base ||
    containsWindowFunctionsBranches plans branches || containsWindowFunctionsOption plans elseResult
  | .list es => containsWindowFunctionsAny plans es
  | .exists query _ => plans.statementContainsWindowFunctions query
  | .subquery query => plans.statementContainsWindowFunctions query
  | _ => false

def containsWindowFunctionsAny (plans : PlanningOperations S) : List (Expression S) → Bool
  | [] => false
  | e :: es => containsWindowFunctions plans e || containsWindowFunctionsAny plans es

def containsWindowFunctionsOption (plans : PlanningOperations S) : Option (Expression S) → Bool
  | none => false
  | some e => containsWindowFunctions plans e

def containsWindowFunctionsBranches (plans : PlanningOperations S) : List (Expression S × Expression S) → Bool
  | [] => false
  | (condition, result) :: branches => containsWindowFunctions plans condition ||
    containsWindowFunctions plans result || containsWindowFunctionsBranches plans branches

end

/-- Window functions that are taken out of an expression, with generated names. The state of the extraction counts
the names. -/
abbrev ExtractedFuncs (S : Type) := List (String × Expression S)

mutual

/-- Extract window functions from a single expression, replacing them with column references -/
def extractWindowFunctionsFromExpression : Expression S → StateM ℕ (ExtractedFuncs S × Expression S)
  | .windowFunction f => do
    let counter ← get
    set (counter + 1)
    return ([(s!"win_func_{counter}", .windowFunction f)], .column none s!"win_func_{counter}")
  | .binaryOp left op right => do
    let (leftFuncs, leftReplacement) ← extractWindowFunctionsFromExpression left
    let (rightFuncs, rightReplacement) ← extractWindowFunctionsFromExpression right
    return (leftFuncs ++ rightFuncs, .binaryOp leftReplacement op rightReplacement)
  | .unaryOp op expr => do
    let (funcs, replacement) ← extractWindowFunctionsFromExpression expr
    return (funcs, .unaryOp op replacement)
  | .function name args distinct => do
    let (funcs, modifiedArgs) ← extractWindowFunctionsFromAll args
    return (funcs, .function name modifiedArgs distinct)
  | .cast expr dataType => do
    let (funcs, replacement) ← extractWindowFunctionsFromExpression expr
    return (funcs, .cast replacement dataType)
  | .case base branches elseResult => do
    let (baseFuncs, processedBase) ← extractWindowFunctionsFromOption base
    let (branchFuncs, processedBranches) ← extractWindowFunctionsFromBranches branches
    let (elseFuncs, processedElse) ← extractWindowFunctionsFromOption elseResult
    return (baseFuncs ++ branchFuncs ++ elseFuncs, .case processedBase processedBranches processedElse)
  | .list es => do
    let (funcs, modifiedExprs) ← extractWindowFunctionsFromAll es
    return (funcs, .list modifiedExprs)
  | e => return ([], e)

def extractWindowFunctionsFromAll : List (Expression S) → StateM ℕ (ExtractedFuncs S × List (Expression S))
  | [] => return ([], [])
  | e :: es => do
    let (funcs, replacement) ← extractWindowFunctionsFromExpression e
    let (allFuncs, replacements) ← extractWindowFunctionsFromAll es
    return (funcs ++ allFuncs, replacement :: replacements)

def extractWindowFunctionsFromOption : Option (Expression S) → StateM ℕ (ExtractedFuncs S × Option (Expression S))
  | none => return ([], none)
  | some e => do
    let (funcs, replacement) ← extractWindowFunctionsFromExpression e
    return (funcs, some replacement)

def extractWindowFunctionsFromBranches :
    List (Expression S × Expression S) → StateM ℕ (ExtractedFuncs S × List (Expression S × Expression S))
  | [] => return ([], [])
  | (condition, result) :: branches => do
    let (conditionFuncs, conditionReplacement) ← extractWindowFunctionsFromExpression condition
    let (resultFuncs, resultReplacement) ← extractWindowFunctionsFromExpression result
    let (funcs, processedBranches) ← extractWindowFunctionsFromBranches branches
    return (conditionFuncs ++ resultFuncs ++ funcs,
      (conditionReplacement, resultReplacement) :: processedBranches)

end

mutual

/-- Replace column references in an expression -/
def replaceColumnReference (oldName newName : String) : Expression S → Expression S
  | .column table name => if name = oldName then .column table newName else .column table name
  | .binaryOp left op right =>
    .binaryOp (replaceColumnReference oldName newName left) op (replaceColumnReference oldName newName right)
  | .unaryOp op expr => .unaryOp op (replaceColumnReference oldName newName expr)
  | .function name args distinct => .function name (replaceColumnReferenceAll oldName newName args) distinct
  | .cast expr dataType => .cast (replaceColumnReference oldName newName expr) dataType
  | .case base branches elseResult => .case (replaceColumnReferenceOption oldName newName base)
    (replaceColumnReferenceBranches oldName newName branches) (replaceColumnReferenceOption oldName newName elseResult)
  | .list es => .list (replaceColumnReferenceAll oldName newName es)
  | e => e

def replaceColumnReferenceAll (oldName newName : String) : List (Expression S) → List (Expression S)
  | [] => []
  | e :: es => replaceColumnReference oldName newName e :: replaceColumnReferenceAll oldName newName es

def replaceColumnReferenceOption (oldName newName : String) : Option (Expression S) → Option (Expression S)
  | none => none
  | some e => some (replaceColumnReference oldName newName e)

def replaceColumnReferenceBranches (oldName newName : String) :
    List (Expression S × Expression S) → List (Expression S × Expression S)
  | [] => []
  | (condition, result) :: branches => (replaceColumnReference oldName newName condition,
      replaceColumnReference oldName newName result) :: replaceColumnReferenceBranches oldName newName branches

end

def isWindowFunction : Expression S → Bool
  | .windowFunction _ => true
  | _ => false

/-- The columns without window functions, the window functions, and the columns that are computed from them -/
structure WindowColumns (S : Type) where
  baseColumns : List (String × Expression S)
  windowFunctions : List (String × Expression S)
  computedColumns : List (String × Expression S)

/-- The aliases of direct window functions under the names that are generated for them -/
def windowFuncAliases (plans : PlanningOperations S) : List (String × Expression S) → StateM ℕ (List (String × String))
  | [] => return []
  | (name, e) :: projections => do
    if containsWindowFunctions plans e then
      let (extractedFuncs, _) ← extractWindowFunctionsFromExpression e
      let aliases ← windowFuncAliases plans projections
      return if isWindowFunction e then extractedFuncs.map (fun f => (f.1, name)) ++ aliases else aliases
    else windowFuncAliases plans projections

/-- Extract and separate into categories. A star becomes the columns of FROM. -/
def separate (plans : PlanningOperations S) (fromColumns : List String) (aliases : List (String × String)) :
    List (String × Expression S) → StateM ℕ (WindowColumns S)
  | [] => return ⟨[], [], []⟩
  | (name, e) :: projections => do
    if containsWindowFunctions plans e then
      let (extractedFuncs, modifiedExpr) ← extractWindowFunctionsFromExpression e
      let rest ← separate plans fromColumns aliases projections
      if isWindowFunction e then
        return { rest with windowFunctions := extractedFuncs.map (fun f => (name, f.2)) ++ rest.windowFunctions }
      else
        let correctedExpr := extractedFuncs.foldl (fun e f =>
          match aliases.lookup f.1 with
          | some newName => replaceColumnReference f.1 newName e
          | none => e) modifiedExpr
        return { rest with
          windowFunctions := extractedFuncs ++ rest.windowFunctions
          computedColumns := (name, correctedExpr) :: rest.computedColumns }
    else
      let rest ← separate plans fromColumns aliases projections
      let columns := if isStar e then fromColumns.map fun column => (column, .column none column) else [(name, e)]
      return { rest with baseColumns := columns ++ rest.baseColumns }

/-- Extract window functions from complex expressions and generate replacements -/
def extractAndReplaceWindowFunctions (plans : PlanningOperations S) (fromColumns : List String)
    (projections : List (String × Expression S)) : WindowColumns S :=
  let aliases := (windowFuncAliases plans projections 0).1
  (separate plans fromColumns aliases projections 0).1

/-! ## The plan of the query planner -/

def passThrough (column : String × Expression S) : String × Expression S := (column.1, .column none column.1)

/-- Project the base columns, apply the window functions, and compute the rest. -/
def planWindows (columns : WindowColumns S) (plan : PlanNode S) : PlanNode S :=
  let plan := if columns.baseColumns.isEmpty then plan else .project plan columns.baseColumns
  let plan := if columns.windowFunctions.isEmpty then plan else .window plan columns.windowFunctions
  .project plan (columns.baseColumns.map passThrough ++ columns.windowFunctions.map passThrough ++
    columns.computedColumns)

/-- Apply column projection -/
def planProjection (ops : Operations S) (plans : PlanningOperations S) (fromColumns : List String)
    (select : SelectStatement S) (plan : PlanNode S) : PlanNode S :=
  -- SELECT * - no explicit projection needed
  if isStarOnly select then plan
  else
    let allProjections := projections .query ops plans select
    if allProjections.any fun p => containsWindowFunctions plans p.2 then
      planWindows (extractAndReplaceWindowFunctions plans fromColumns allProjections) plan
    else .project plan allProjections

/-- Apply the clause if present. -/
def planFilter (condition : Option (Expression S)) (plan : PlanNode S) : PlanNode S :=
  match condition with
  | some condition => .filter plan condition
  | none => plan

/-- Create execution plan from SELECT statement -/
def planSelect [DebugText] (ops : Operations S) (plans : PlanningOperations S) (fromColumns : List String)
    (select : SelectStatement S) : PlanNode S :=
  let plan := planFilter select.whereClause .source
  let plan := if hasAggregation ops select then .aggregate plan (planAggregation .query ops plans select) else plan
  let plan := planProjection ops plans fromColumns select plan
  let plan := planFilter select.having plan
  let plan := if select.orderBy.isEmpty then plan else .sort plan select.orderBy
  let plan := match select.limit with
    | some limit => .limit plan limit select.offset
    | none => plan
  if select.distinct then .distinct plan else plan

end QueryPlanner

/-! ## Execution -/

/-- What plans are executed with: the sort of the standard library, whether additions are checked for overflow,
the alias of the table and the values of an outer query -/
structure ExecutionContext where
  sort : SortBy
  overflowChecks : Bool
  tableAlias : Option String
  outerValues : HashMap String Value

/-- Store a column name, and the qualified column name if there is a table alias. -/
def storeColumn (tableAlias : Option String) (columns : EvaluationContext) (p : String × Value) : EvaluationContext :=
  match tableAlias with
  | some table => (columns.insert p.1 p.2).insert (qualifiedName table p.1) p.2
  | none => columns.insert p.1 p.2

/-- Create basic evaluation context: the columns of a row and the values of an outer query. -/
def createBasicEvaluationContext (tableAlias : Option String) (outerValues : HashMap String Value)
    (columnNames : List String) (row : Row) : EvaluationContext :=
  let columns := (columnNames.zip row).foldl (storeColumn tableAlias) ∅
  outerValues.pairs.foldl (fun columns p => columns.insert p.1 p.2) columns

def ExecutionContext.row (context : ExecutionContext) (columnNames : List String) (row : Row) : Context :=
  .withColumns (createBasicEvaluationContext context.tableAlias context.outerValues columnNames row)

/-- A row whose condition is false, unknown or cannot be evaluated is excluded. -/
def FilterOperator.keeps (ops : Operations S) (context : ExecutionContext) (condition : Expression S)
    (columnNames : List String) (row : Row) : Bool :=
  match evaluate ops (context.row columnNames row) condition with
  | .ok v => ThreeValuedLogic.fromValue v = .true
  | .error _ => false

def FilterOperator.execute (ops : Operations S) (context : ExecutionContext) (condition : Expression S)
    (input : Result QueryResult) : Result QueryResult := do
  let inputResult ← input
  return { inputResult with rows := inputResult.rows.filter (keeps ops context condition inputResult.columnNames) }

def ProjectOperator.execute (ops : Operations S) (context : ExecutionContext) (columns : List (String × Expression S))
    (input : Result QueryResult) : Result QueryResult := do
  let inputResult ← input
  let project := fun row : Row => columns.map fun column =>
    orNull (evaluate ops (context.row inputResult.columnNames row) column.2)
  return ⟨inputResult.rows.map project, columns.map Prod.fst⟩

namespace LimitOperator

/-- Calculate the offset. A negative offset is treated as 0. -/
def startIdx (offset : Option ℤ) : ℕ := (offset.getD 0).toNat

/-- Negative limit means no limit (return all remaining rows) -/
def endIdx (limit : ℤ) (offset : Option ℤ) (length : ℕ) : ℕ :=
  if limit < 0 then length else startIdx offset + limit.toNat

/-- Apply limit and offset -/
def execute (limit : ℤ) (offset : Option ℤ) (input : Result QueryResult) : Result QueryResult := do
  let inputResult ← input
  let length := inputResult.rows.length
  if length ≤ startIdx offset then return { inputResult with rows := [] }
  else
    let rows := (inputResult.rows.take (min (endIdx limit offset length) length)).drop (startIdx offset)
    return { inputResult with rows }

end LimitOperator

namespace DistinctOperator

mutual

/-- What is fed to the hasher is the same for both values. Floating-point numbers are hashed by their bits. -/
def sameHash : Value → Value → Bool
  | .integer i, .integer j => i = j
  | .string s, .string t => s = t
  | .boolean b, .boolean c => b = c
  | .float x, .float y => x = y
  | .timestamp m, .timestamp n => m = n
  | .list vs, .list ws => sameHashes vs ws
  | .null, .null => true
  | _, _ => false

def sameHashes : List Value → List Value → Bool
  | [], [] => true
  | v :: vs, w :: ws => sameHash v w && sameHashes vs ws
  | _, _ => false

end

/-- A hash set takes two rows for the same. -/
def sameRow (a b : Row) : Bool := sameHashes a b && Value.eqList a b

def insertRow (seen : List Row × List Row) (row : Row) : List Row × List Row :=
  if seen.1.any (sameRow · row) then seen else (seen.1 ++ [row], seen.2 ++ [row])

/-- Deduplicate rows -/
def distinctRows (rows : List Row) : List Row := (rows.foldl insertRow ([], [])).2

def execute (input : Result QueryResult) : Result QueryResult := do
  let inputResult ← input
  return { inputResult with rows := distinctRows inputResult.rows }

end DistinctOperator

/-- Execute the plan node and return results -/
def PlanNode.execute [DebugText] [FloatArithmetic] (ops : Operations S) (context : ExecutionContext)
    (source : Result QueryResult) : PlanNode S → Result QueryResult
  | .source => source
  | .filter input condition => FilterOperator.execute ops context condition (execute ops context source input)
  | .project input columns => ProjectOperator.execute ops context columns (execute ops context source input)
  | .aggregate input op => op.execute ops Empty.elim (execute ops context source input)
  | .window input windowFunctions =>
    (WindowOperator.ofPlan windowFunctions).execute context.sort context.overflowChecks ops (execute ops context source input)
  | .sort input orderBy =>
    SortOperator.execute (context.sort Row) (WindowOperator.rowEvaluator ops) orderBy (execute ops context source input)
  | .limit input n offset => LimitOperator.execute n offset (execute ops context source input)
  | .distinct input => DistinctOperator.execute (execute ops context source input)

end Rustgresql
