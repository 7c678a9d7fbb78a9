import Rustgresql.Catalog.View

/-!
# Views (`executor/engine.rs`)

CREATE VIEW writes its query down as SQL text and stores the text; DROP VIEW removes it.
-/

namespace Rustgresql

open StateSpec
open Sql

variable [ViewStd]

/-! ## Queries as text -/

/-- Convert BinaryOperator to SQL string -/
def binaryOpToSql : Sql.BinaryOperator → String
  | .equals => "="
  | .notEquals => "!="
  | .lessThan => "<"
  | .lessThanOrEquals => "<="
  | .greaterThan => ">"
  | .greaterThanOrEquals => ">="
  | .like => "LIKE"
  | .iLike => "ILIKE"
  | .in => "IN"
  | .and => "AND"
  | .or => "OR"
  | .is => "IS"
  | .isNot => "IS NOT"
  | .add => "+"
  | .subtract => "-"
  | .multiply => "*"
  | .divide => "/"
  | .concatenate => "||"

/-- Convert UnaryOperator to SQL string -/
def unaryOpToSql : Sql.UnaryOperator → String
  | .not => "NOT"
  | .minus => "-"
  | .plus => "+"

def valueToSql : Sql.Value → Text
  | .integer i => (toString i).toList
  | .float f => Std.floatToString f
  | .string s => '\'' :: (s.flatMap fun c => if c = '\'' then ['\'', '\''] else [c]) ++ ['\'']
  | .boolean b => (if b then "TRUE" else "FALSE").toList
  | .null => "NULL".toList

/-- `join(", ")` -/
def commaJoined (texts : List Text) : Text := [',', ' '].intercalate texts

mutual

/-- Convert Expression to SQL string -/
def expressionToSql : Sql.Expression → Text
  | .column (some tableName) name => tableName ++ '.' :: name
  | .column none name => name
  | .value v => valueToSql v
  | .binaryOp left op right =>
    expressionToSql left ++ ' ' :: (binaryOpToSql op).toList ++ ' ' :: expressionToSql right
  | .unaryOp op expr => (unaryOpToSql op).toList ++ ' ' :: expressionToSql expr
  | .function name args _ => name ++ '(' :: commaJoined (expressionsToSql args) ++ [')']
  | .star => ['*']
  -- Fallback for complex expressions
  | expr => ViewStd.debugExpression expr

def expressionsToSql : List Sql.Expression → List Text
  | [] => []
  | expr :: exprs => expressionToSql expr :: expressionsToSql exprs

end

def aliasToSql : Option Text → Text
  | some «alias» => " AS ".toList ++ «alias»
  | none => []

mutual

/-- Convert SelectStatement to SQL string; WITH, joins and named windows are not written. -/
def selectToSql : SelectStatement → Text
  | .simple _ distinct columns source _ whereClause groupBy having orderBy limit offset _ =>
    "SELECT ".toList ++ (if distinct then "DISTINCT ".toList else []) ++
      (if columns.isEmpty then ['*'] else commaJoined (columns.map fun col =>
        expressionToSql col.expr ++ aliasToSql col.alias)) ++
      (if source.isEmpty then [] else " FROM ".toList ++ commaJoined (tableRefsToSql source)) ++
      (whereClause.elim [] fun whereExpr => " WHERE ".toList ++ expressionToSql whereExpr) ++
      (if groupBy.isEmpty then [] else " GROUP BY ".toList ++ commaJoined (groupBy.map expressionToSql)) ++
      (having.elim [] fun havingExpr => " HAVING ".toList ++ expressionToSql havingExpr) ++
      (if orderBy.isEmpty then [] else " ORDER BY ".toList ++ commaJoined (orderBy.map fun order =>
        expressionToSql order.expr ++ (if order.direction = .desc then " DESC".toList else []))) ++
      (limit.elim [] fun limitVal => s!" LIMIT {limitVal}".toList) ++
      (offset.elim [] fun offsetVal => s!" OFFSET {offsetVal}".toList)
  -- For set operations, fall back to debug format
  | .setOperation operator left right all => ViewStd.debugSelect (.setOperation operator left right all)

def tableRefToSql : TableRef Statement → Text
  | .table name «alias» => name ++ aliasToSql «alias»
  | .subquery subquery «alias» => '(' :: statementToSql subquery ++ [')'] ++ aliasToSql «alias»

def statementToSql : Statement → Text
  | .select select => selectToSql select
  | _ => "SUBQUERY".toList

def tableRefsToSql : List (TableRef Statement) → List Text
  | [] => []
  | tableRef :: source => tableRefToSql tableRef :: tableRefsToSql source

end

/-! ## Statements -/

/-- Statements, with only what they do to views -/
inductive ViewOp
  | createView (viewName : Text) (query : SelectStatement) (materialized : Bool)
  | dropView (viewName : Text) (cascade : Bool)
  /-- Any other statement, and the schemas after it -/
  | other (schemaManager : SchemaManager)

namespace ViewCatalog

/-- Execute CREATE VIEW statement, without the query rewriter -/
def executeCreateView (viewName : Text) (query : SelectStatement) (materialized : Bool) : Call Unit :=
  -- Default to public schema for now
  discard (createView viewName "public" (selectToSql query) materialized)

/-- Execute DROP VIEW statement, without the query rewriter -/
def executeDropView (viewName : Text) (cascade : Bool) : Call Unit := dropView viewName cascade

def execute : ViewOp → Call Unit
  | .createView viewName query materialized => executeCreateView viewName query materialized
  | .dropView viewName cascade => executeDropView viewName cascade
  | .other schemaManager => modify fun c => { c with schemaManager := schemaManager }

def step (c : ViewCatalog) (op : ViewOp) : ViewCatalog := final (execute op) c

/-- The catalog after a list of statements. -/
def run (c : ViewCatalog) (ops : List ViewOp) : ViewCatalog := ops.foldl step c

/-- CREATE VIEW is accepted. -/
def Accepts (c : ViewCatalog) (viewName : Text) : Prop :=
  "public" ∈ c.schemaManager.schemas ∧ viewName ∉ c.viewManager.views

variable {c : ViewCatalog} {viewName : Text}

/-- CREATE VIEW that is accepted stores the text of the query. -/
theorem step_of_accepts (h : c.Accepts viewName) (query : SelectStatement) (materialized : Bool) :
    ∃ viewDef next, viewDef.query = selectToSql query ∧
      (c.step (.createView viewName query materialized)).viewManager =
        ⟨c.viewManager.views.insert viewName viewDef, next⟩ := by
  obtain ⟨schemaDef, hschema⟩ := Option.isSome_iff_exists.mp (AList.lookup_isSome.mpr h.1)
  have hrun : c.step (.createView viewName query materialized) =
      final (onViews (ViewManager.createView viewName schemaDef.schemaId (selectToSql query) materialized)) c := by
    rw [step, execute, executeCreateView, final_discard, createView, final, get_bind, hschema]
    rfl
  rw [hrun, final_onViews, ViewManager.createView_of_notMem h.2]
  exact ⟨_, _, rfl, rfl⟩

theorem step_of_not_accepts (h : ¬ c.Accepts viewName) (query : SelectStatement) (materialized : Bool) :
    (c.step (.createView viewName query materialized)).viewManager = c.viewManager := by
  rw [step, execute, executeCreateView, final_discard, createView, final, get_bind]
  rcases hschema : c.schemaManager.schemas.lookup "public" with - | schemaDef
  · rfl
  · have hmem : viewName ∈ c.viewManager.views := by
      by_contra hmem
      exact h ⟨AList.lookup_isSome.mp (by rw [hschema]; rfl), hmem⟩
    have hrun := final_onViews (ViewManager.createView viewName schemaDef.schemaId (selectToSql query) materialized) c
    rw [ViewManager.createView_of_mem hmem] at hrun
    exact congrArg ViewCatalog.viewManager hrun

theorem step_dropView (c : ViewCatalog) (viewName : Text) (cascade : Bool) :
    (c.step (.dropView viewName cascade)).viewManager = c.viewManager ∨
      (c.step (.dropView viewName cascade)).viewManager =
        { c.viewManager with views := c.viewManager.views.erase viewName } := by
  rw [step, execute, executeDropView, dropView, final_onViews]
  exact ViewManager.dropView_cases viewName cascade c.viewManager

end ViewCatalog

end Rustgresql
