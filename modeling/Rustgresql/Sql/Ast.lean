import Rustgresql.Sql.Token

/-!
# SQL Abstract Syntax Tree

Only what the parser builds. The parts of a statement are fields of its constructor.
-/

namespace Rustgresql.Sql

inductive Value
  | integer (i : ℤ)
  | string (s : Text)
  | boolean (b : Bool)
  | float (f : Float)
  | null

inductive DataTypeKind
  | smallInt | integer | bigInt | real | doublePrecision
  | decimal (precision scale : ℕ)
  | char (length : ℕ)
  | varchar (length : ℕ)
  | text | bytea | date | time | timestamp | interval | boolean | uuid | serial | bigSerial
  | array (element : DataTypeKind)
  deriving DecidableEq

/-- Binary operators -/
inductive BinaryOperator
  | equals | notEquals | lessThan | lessThanOrEquals | greaterThan | greaterThanOrEquals | like
  | iLike | «in» | and | or | is | isNot | add | subtract | multiply | divide | concatenate
  deriving DecidableEq

/-- Unary operators -/
inductive UnaryOperator
  | not | minus | plus
  deriving DecidableEq

/-- Sort direction -/
inductive SortDirection
  | asc | desc
  deriving DecidableEq

/-- Nulls handling specification -/
inductive NullsPosition
  | first | last | default
  deriving DecidableEq

/-- Join type -/
inductive JoinType
  | inner | left | right | full | cross | leftAnti | leftSemi | rightAnti | rightSemi
  deriving DecidableEq

/-- Set operation operator -/
inductive SetOperator
  | union | intersect | except
  deriving DecidableEq

/-- Window frame mode (ROWS vs RANGE) -/
inductive WindowFrameMode
  | rows | range
  deriving DecidableEq

/-- Parameter mode (IN, OUT, INOUT) -/
inductive ParameterMode
  | «in» | out | inOut
  deriving DecidableEq

/-- Procedure language -/
inductive ProcedureLanguage
  | sql | plpgsql
  deriving DecidableEq

/-- Exception condition -/
inductive ExceptionCondition
  | when (names : List Text)
  | others
  deriving DecidableEq

/-! The parts of expressions and statements, over the expressions `E`, queries `Q` and statements `S`
in them. -/

/-- Branch in a CASE expression -/
structure CaseBranch (E : Type) where
  condition : E
  result : E

/-- Window frame bound -/
inductive WindowFrameBound (E : Type)
  | currentRow
  | unboundedPreceding
  | unboundedFollowing
  | preceding (e : E)
  | following (e : E)

/-- Window frame clause -/
structure WindowFrame (E : Type) where
  mode : WindowFrameMode
  start : WindowFrameBound E
  «end» : Option (WindowFrameBound E)

/-- Order by clause -/
structure OrderBy (E : Type) where
  expr : E
  direction : SortDirection
  nulls : NullsPosition

/-- Window clause for OVER () -/
structure WindowClause (E : Type) where
  partitionBy : List E
  orderBy : List (OrderBy E)
  windowFrame : Option (WindowFrame E)

/-- Column specification for SELECT (expression with optional alias) -/
structure ColumnSpec (E : Type) where
  expr : E
  «alias» : Option Text

/-- Table reference -/
inductive TableRef (S : Type)
  | table (name : Text) («alias» : Option Text)
  | subquery (subquery : S) («alias» : Option Text)

/-- Join condition -/
structure JoinCondition (E S : Type) where
  table : TableRef S
  joinType : JoinType
  condition : Option E

/-- Named window definition for WINDOW clause -/
structure NamedWindow (E : Type) where
  name : Text
  windowClause : WindowClause E

/-- Common Table Expression (CTE) definition -/
structure CommonTableExpression (Q : Type) where
  name : Text
  columnNames : Option (List Text)
  query : Q
  recursive : Bool

/-- WITH clause containing one or more CTEs -/
structure WithClause (Q : Type) where
  ctes : List (CommonTableExpression Q)
  recursive : Bool

/-- Column constraint types -/
inductive ColumnConstraint (E : Type)
  | notNull
  | null
  | default (value : Text)
  | primaryKey
  | unique
  | check (condition : E)
  | references (table : Text) (column : Option Text)

/-- Column definition -/
structure ColumnDef (E : Type) where
  name : Text
  dataType : DataTypeKind
  constraints : List (ColumnConstraint E)

/-- Table constraint types -/
inductive TableConstraint (E : Type)
  | primaryKey (columns : List Text) (name : Option Text)
  | foreignKey (columns : List Text) (refTable : Text) (refColumns : List Text) (name : Option Text)
  | unique (columns : List Text) (name : Option Text)
  | check (condition : E) (name : Option Text)

/-- ALTER TABLE operation types -/
inductive AlterOperation (E : Type)
  | addColumn (column : ColumnDef E)
  | dropColumn (columnName : Text)
  | renameColumn (oldName newName : Text)
  | addConstraint (constraint : TableConstraint E)
  | dropConstraint (constraintName : Text)
  | renameTable (newName : Text)

/-- Procedure parameter -/
structure ProcedureParameter (E : Type) where
  name : Text
  dataType : DataTypeKind
  mode : ParameterMode
  defaultValue : Option E

/-- Variable declaration -/
structure Declaration (E : Type) where
  name : Text
  dataType : DataTypeKind
  defaultValue : Option E
  constant : Bool

/-- Exception handler -/
structure ExceptionHandler (S : Type) where
  conditions : List ExceptionCondition
  statements : List S

/-- Block statement (BEGIN...END) -/
structure BlockStatement (E S : Type) where
  declarations : List (Declaration E)
  statements : List S
  exceptionHandler : Option (ExceptionHandler S)

mutual

/-- Expression in SQL -/
inductive Expression
  | column (table : Option Text) (name : Text)
  | value (v : Value)
  | function (name : Text) (args : List Expression) (distinct : Bool)
  | windowFunction (name : Text) (args : List Expression) (windowClause : WindowClause Expression)
    (windowName : Option Text)
  | binaryOp (left : Expression) (op : BinaryOperator) (right : Expression)
  | unaryOp (op : UnaryOperator) (expr : Expression)
  | cast (expr : Expression) (dataType : DataTypeKind)
  | subquery (query : Statement)
  | exists (subquery : Statement) (negated : Bool)
  | list (es : List Expression)
  | star
  | case (base : Option Expression) (branches : List (CaseBranch Expression))
    (elseResult : Option Expression)

/-- SELECT statement -/
inductive SelectStatement
  | simple (withClause : Option (WithClause SelectStatement)) (distinct : Bool)
    (columns : List (ColumnSpec Expression)) (source : List (TableRef Statement))
    (joins : List (JoinCondition Expression Statement)) (whereClause : Option Expression)
    (groupBy : List Expression) (having : Option Expression) (orderBy : List (OrderBy Expression))
    (limit : Option ℤ) (offset : Option ℤ) (namedWindows : List (NamedWindow Expression))
  | setOperation (operator : SetOperator) (left right : SelectStatement) (all : Bool)

/-- SQL statement -/
inductive Statement
  | select (query : SelectStatement)
  | insert (table : TableRef Statement) (columns : List Text) (values : List (List Expression))
  | update (table : TableRef Statement) (assignments : List (Text × Expression))
    (whereClause : Option Expression)
  | delete (table : TableRef Statement) (whereClause : Option Expression)
  | createTable (tableName : Text) (columns : List (ColumnDef Expression))
    (constraints : List (TableConstraint Expression)) (ifNotExists : Bool)
  | createIndex (indexName tableName : Text) (columns : List Text) (unique ifNotExists : Bool)
  | dropTable (tableName : Text) (ifExists : Bool)
  | dropIndex (indexName : Text) (ifExists : Bool)
  | alterTable (tableName : Text) (operation : AlterOperation Expression)
  | createView (viewName : Text) (columns : List Text) (query : SelectStatement)
    (materialized withData : Bool)
  | dropView (viewName : Text) (materialized cascade : Bool)
  | refreshMaterializedView (viewName : Text) (concurrently withData : Bool)
  | createProcedure (procedureName : Text) (parameters : List (ProcedureParameter Expression))
    (language : ProcedureLanguage) (body : BlockStatement Expression Statement)
    (orReplace securityDefiner : Bool)
  | createFunction (functionName : Text) (parameters : List (ProcedureParameter Expression))
    (returnType : DataTypeKind) (language : ProcedureLanguage)
    (body : BlockStatement Expression Statement) (orReplace securityDefiner returnsSetof : Bool)
  | dropProcedure (procedureName : Text) (ifExists : Bool)
  | dropFunction (functionName : Text) (ifExists cascade : Bool)
  | callProcedure (procedureName : Text) (arguments : List Expression)
  | perform (expression : Expression)
  | beginTransaction
  | commitTransaction
  | rollbackTransaction

end

end Rustgresql.Sql
