import Rustgresql.Executor.Expression.Operators
import Rustgresql.Executor.Planner.JoinNames

/-!
# Subqueries

A subquery is planned and executed for every row of the outer query. The values of the columns that it names but
its FROM does not are taken from that row and injected into the contexts of its own rows.
-/

namespace Rustgresql

open ExpressionEvaluator StableSort

open JoinNames (TableRef JoinClause planJoins)

open Optimizer (Execution Contents)

variable {S : Type}

/-- A SELECT statement over tables of the catalog -/
structure SubqueryStatement (S : Type) where
  /-- FROM is not empty. -/
  first : TableRef
  rest : List TableRef
  joins : List (JoinClause S)
  select : SelectStatement S

namespace SubqueryStatement

def tableRefs (st : SubqueryStatement S) : List TableRef := st.first :: st.rest

/-- Multiple tables without explicit joins are cross joins. -/
def allJoins (st : SubqueryStatement S) : List (JoinClause S) := st.rest.map (⟨·, none, .inner⟩) ++ st.joins

/-- The plan of FROM and JOIN -/
def sourcePlan (st : SubqueryStatement S) : Optimizer.PlanNode S Empty := planJoins Empty.elim st.first st.allJoins

end SubqueryStatement

namespace ExpressionEvaluator

/-! ## Correlation -/

mutual

/-- Collect all column references from an expression recursively -/
def collectColumnReferences : Expression S → List (Option String × String)
  | .column table name => [(table, name)]
  | .binaryOp left _ right => collectColumnReferences left ++ collectColumnReferences right
  | .unaryOp _ expr => collectColumnReferences expr
  | .function _ args _ => collectColumnReferencesAll args
  -- Don't recurse into subqueries for correlation detection
  | _ => []

def collectColumnReferencesAll : List (Expression S) → List (Option String × String)
  | [] => []
  | e :: es => collectColumnReferences e ++ collectColumnReferencesAll es

end

/-- All tables available in the subquery's FROM clause -/
def subqueryTables (st : SubqueryStatement S) : List String := st.tableRefs.flatMap fun table => table.name :: table.alias.toList

/-- If a column reference has a table qualifier that's not in the subquery's FROM clause, it's correlated. -/
def findCorrelatedColumnsInSubquery (st : SubqueryStatement S) : List (String × String) :=
  let allColumns := st.select.columns.flatMap (fun spec => collectColumnReferences spec.expr) ++
    st.select.whereClause.elim [] collectColumnReferences ++ st.select.having.elim [] collectColumnReferences
  allColumns.filterMap fun column => match column with
    | (some table, name) => if table ∈ subqueryTables st then none else some (table, name)
    | (none, _) => none

end ExpressionEvaluator

namespace SubqueryOperator

section OuterValues

variable {α : Type}

/-- The value of a correlated column in the outer row: under its full name, or under what follows the dot. -/
def outerValue (outer : HashMap String α) (column : String × String) : Option α :=
  let correlatedColumn := qualifiedName column.1 column.2
  (outer.lookup correlatedColumn).or
    ((afterDot correlatedColumn).bind fun unqualifiedName => outer.lookup (String.ofList unqualifiedName))

/-- Store both qualified and unqualified keys for robust lookup. -/
def injectColumn (value : String × String → Option α) (values : HashMap String α) (column : String × String) :
    HashMap String α :=
  let correlatedColumn := qualifiedName column.1 column.2
  match value column with
  | some v =>
    let values := values.insert correlatedColumn v
    match afterDot correlatedColumn with
    | some unqualifiedName => values.insert (String.ofList unqualifiedName) v
    | none => values
  | none => values

/-- Inject outer context values. -/
def injectColumns (value : String × String → Option α) (correlatedColumns : List (String × String)) : HashMap String α :=
  correlatedColumns.foldl (injectColumn value) ∅

end OuterValues

end SubqueryOperator

namespace ExpressionEvaluator

/-! ## Evaluation -/

/-- Handle subquery results based on context. -/
def subqueryValue (subqueryContext : Option SubqueryContext) (result : QueryResult) : Result Value :=
  match subqueryContext with
  -- For IN clauses, convert all rows to a list of values from the first column
  | some .inClause => Value.list <$> result.rows.mapM (valueAt · 0)
  | some .exists => .ok (.boolean !result.rows.isEmpty)
  -- For scalar subqueries or default context, return the first column of the first row
  | some .scalar | none =>
    match result.rows with
    | [] => .ok .null
    | row :: _ => valueAt row 0

/-- Evaluate a subquery, given what subqueries return for the values of the outer row. -/
def evaluateSubquery (statement : S → SubqueryStatement S) (run : S → HashMap String Value → Result QueryResult)
    (subquery : S) (context : Context) : Result Value := do
  let correlatedColumns := findCorrelatedColumnsInSubquery (statement subquery)
  let result ← run subquery (SubqueryOperator.injectColumns (SubqueryOperator.outerValue context.columns) correlatedColumns)
  subqueryValue context.subqueryContext result

end ExpressionEvaluator

/-- What subqueries are executed with -/
structure QueryDatabase (S : Type) where
  parameters : EvaluatorParameters S
  /-- How deep calls of functions may be nested -/
  depth : ℕ
  plans : PlanningOperations S
  context : ExecutionContext
  stableSort : ∀ α, IsStableSort (context.sort α)
  /-- The column names of a table, or the error for a table that does not exist -/
  columns : String → Result (List String)
  statement : S → SubqueryStatement S

namespace QueryDatabase

/-- Contents of all tables. A row has a value for each column. -/
structure Rows (db : QueryDatabase S) where
  rows : String → List Row
  width : ∀ tableName columnNames, db.columns tableName = .ok columnNames → ∀ row ∈ rows tableName,
    row.length = columnNames.length

variable [FloatOperators] [DebugText] (db : QueryDatabase S)

/-- The evaluator, given what subqueries return -/
def operations (run : S → HashMap String Value → Result QueryResult) : Operations S :=
  evaluatorOperations { db.parameters with subquery := evaluateSubquery db.statement run } db.depth

def execution (ops : Operations S) : Execution S Empty where
  ops := ops
  context := db.context
  columns := db.columns
  otherAlias := Empty.elim
  executeOther _ := Empty.elim

variable {db}

/-- What FROM and JOIN yield -/
def Rows.source (tables : db.Rows) (ops : Operations S) (st : SubqueryStatement S) : Result QueryResult :=
  (db.execution ops).execute ⟨tables.rows, tables.width⟩ st.sourcePlan

variable (db)

/-- The context in which the operators above FROM and JOIN are executed -/
def executionContext (st : SubqueryStatement S) (outerValues : HashMap String Value) : ExecutionContext :=
  { db.context with tableAlias := st.sourcePlan.extractTableAlias Empty.elim, outerValues }

/-- Plan the statement. A table that does not exist has no columns. Planning evaluates no expressions. -/
def plan (st : SubqueryStatement S) : PlanNode S :=
  QueryPlanner.planSelect (evaluatorOperations db.parameters db.depth) db.plans
    (st.tableRefs.flatMap fun table => (db.columns table.name).toOption.getD []) st.select

variable {db}

/-- Plan and execute the subquery, with values of the outer query. -/
def Rows.execute (tables : db.Rows) (ops : Operations S) (st : SubqueryStatement S) (outerValues : HashMap String Value) :
    Result QueryResult :=
  (db.plan st).execute ops (db.executionContext st outerValues) (tables.source ops st)

/-- Execute a subquery. Subqueries are nested up to a depth, each needs room on the stack. -/
def Rows.run (tables : db.Rows) : ℕ → S → HashMap String Value → Result QueryResult
  | 0, _, _ => .error (.panic "stack overflow")
  | depth + 1, subquery, outerValues =>
    tables.execute (db.operations (tables.run depth)) (db.statement subquery) outerValues

end QueryDatabase

end Rustgresql
