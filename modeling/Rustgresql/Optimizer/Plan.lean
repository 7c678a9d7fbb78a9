import Rustgresql.Executor.Join
import Rustgresql.Executor.Planner

/-!
# Plans for the optimizer

The plan nodes that the rules of the optimizer (`optimizer/rules.rs`) look into, and how they are executed. The
other nodes are opaque.
-/

namespace Rustgresql.Optimizer

open Sql (JoinType)

open ExpressionEvaluator (Operations)

/-- Plan nodes. `other` is a node that the rules leave as it is, with all that is below. -/
inductive PlanNode (S O : Type)
  | scan (tableName : String) (columns : List String) («alias» : Option String)
  | indexScan (tableName indexName : String) (indexCondition : Option (Expression S)) (columns : List String)
  | indexOnlyScan (tableName indexName : String) (indexCondition : Option (Expression S)) (columns : List String)
  | filter (input : PlanNode S O) (condition : Expression S)
  | project (input : PlanNode S O) (columns : List (String × Expression S)) (tableAliases : HashMap String String)
    (leftColumns rightColumns : Option (List String))
  | aggregate (input : PlanNode S O) (op : AggregateOperator S Empty)
  | join (left right : PlanNode S O) (condition : Option (Expression S)) (joinType : JoinType)
    (leftAlias rightAlias : Option String)
  | other (node : O)

namespace PlanNode

variable {S O : Type}

/-- Recursively search through the plan tree to find the table alias -/
def extractTableAlias (otherAlias : O → Option String) : PlanNode S O → Option String
  | scan _ _ «alias» => «alias»
  | project input _ tableAliases _ _ =>
    match tableAliases.pairs with
    | [entry] => some entry.2
    | _ => extractTableAlias otherAlias input
  | filter input _ => extractTableAlias otherAlias input
  | aggregate input _ => extractTableAlias otherAlias input
  | other node => otherAlias node
  | _ => none

end PlanNode

/-- What plans are executed with -/
structure Execution (S O : Type) where
  ops : Operations S
  context : ExecutionContext
  /-- The column names of a table, or the error for a table that does not exist -/
  columns : String → Result (List String)
  otherAlias : O → Option String
  executeOther : (String → List Row) → O → Result QueryResult

/-- Contents of all tables. A row has a value for each column. -/
structure Contents {S O : Type} (x : Execution S O) where
  rows : String → List Row
  width : ∀ tableName columnNames, x.columns tableName = .ok columnNames → ∀ row ∈ rows tableName,
    row.length = columnNames.length

namespace Execution

variable {S O : Type} (x : Execution S O)

/-- The context of the rows of an input -/
def aliased («alias» : Option String) : ExecutionContext := { x.context with tableAlias := «alias» }

/-- Execute the plan node and return results. A scan returns all columns of the table, and the scans of indexes,
which are given no scanner, return no rows. -/
def execute [DebugText] [FloatArithmetic] (contents : Contents x) : PlanNode S O → Result QueryResult
  | .scan tableName _ _ => do
    let columnNames ← x.columns tableName
    return ⟨contents.rows tableName, columnNames⟩
  | .indexScan _ _ _ columns => .ok ⟨[], columns⟩
  | .indexOnlyScan _ _ _ columns => .ok ⟨[], columns⟩
  | .filter input condition =>
    FilterOperator.execute x.ops (x.aliased (input.extractTableAlias x.otherAlias)) condition (execute contents input)
  | .project input columns _ _ _ =>
    ProjectOperator.execute x.ops (x.aliased (input.extractTableAlias x.otherAlias)) columns (execute contents input)
  | .aggregate input op => op.execute x.ops Empty.elim (execute contents input)
  | .join left right condition joinType leftAlias rightAlias =>
    JoinOperator.execute x.ops ⟨condition, joinType, leftAlias, rightAlias⟩ (execute contents left)
      (execute contents right)
  | .other node => x.executeOther contents.rows node

end Execution

/-- The same columns and the same rows, in whatever order; or no result on both sides -/
def SameBag : Result QueryResult → Result QueryResult → Prop
  | .ok result, .ok result' => result.columnNames = result'.columnNames ∧ result.rows.Perm result'.rows
  | .error _, .error _ => True
  | _, _ => False

theorem SameBag.refl (result : Result QueryResult) : SameBag result result := by
  rcases result with e | result
  · trivial
  · exact ⟨rfl, .refl _⟩

theorem SameBag.symm {result result' : Result QueryResult} (h : SameBag result result') : SameBag result' result := by
  rcases result with e | result <;> rcases result' with e' | result'
  · trivial
  · exact h.elim
  · exact h.elim
  · exact ⟨h.1.symm, h.2.symm⟩

theorem SameBag.trans {result result' result'' : Result QueryResult} (h : SameBag result result')
    (h' : SameBag result' result'') : SameBag result result'' := by
  rcases result with e | result <;> rcases result' with e' | result' <;> rcases result'' with e'' | result''
  case error.error.error => trivial
  case ok.ok.ok => exact ⟨h.1.trans h'.1, h.2.trans h'.2⟩
  all_goals first | exact h.elim | exact h'.elim

end Rustgresql.Optimizer
