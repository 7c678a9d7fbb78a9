import Rustgresql.Sql.Parser.Expression

/-!
# SQL parser: SELECT

The first SELECT of a chain of set operations is read by `parse_select_after_select_impl`, the ones
behind a set operator by `parse_simple_select`; they share their clauses up to HAVING.
-/

namespace Rustgresql.Sql

variable [Std]

/-! ## Clauses -/

/-- One column of a SELECT. -/
def parseColumn : Parse (ColumnSpec Expression) := do
  let expr ← parseExpression
  return ⟨expr, ← parseAlias⟩

/-- The columns of a SELECT; a star comes first or is an expression. -/
def parseColumns : Parse (List (ColumnSpec Expression)) := do
  let first ← if ← matchMark .asterisk then pure ⟨.star, none⟩ else parseColumn
  let others ← call (.more .column)
  return first :: others

/-- Parse table reference -/
def parseTableRef : Parse (TableRef Statement) := do
  if ← matchMark .leftParen then
    let subquery ← call .statement
    consumeMark .rightParen "Expected ')' after subquery"
    return .subquery subquery (← parseAlias)
  else
    let name ← consumeIdentifier
    return .table name (← parseAlias)

/-- The kind of join behind LEFT or RIGHT. -/
def parseJoinSide (outer anti semi : JoinType) : Parse JoinType := do
  if ← matchKeyword .outer then return outer
  if ← matchKeyword .anti then return anti
  if ← matchKeyword .semi then return semi
  return outer

def parseJoinType : Parse JoinType := do
  if ← matchKeyword .cross then return .cross
  if ← matchKeyword .left then parseJoinSide .left .leftAnti .leftSemi
  else if ← matchKeyword .right then parseJoinSide .right .rightAnti .rightSemi
  else if ← matchKeyword .inner then return .inner
  else if ← matchKeyword .full then
    let _ ← matchKeyword .outer
    return .full
  else return .inner

/-- Parse join clause -/
def parseJoin : Parse (JoinCondition Expression Statement) := do
  let joinType ← parseJoinType
  consumeKeyword .join "Expected JOIN"
  let table ← parseTableRef
  let condition ← if ← matchKeyword .on then some <$> call (.expression .or) else pure none
  return ⟨table, joinType, condition⟩

/-- The tokens that a join begins with. -/
def beginsJoin (t : Option TokenType) : Bool :=
  t ∈ ([.join, .left, .right, .inner, .full, .cross] : List Keyword).map fun k => some (.keyword k)

/-- The loop over joins. -/
def joins : Parse (List (JoinCondition Expression Statement)) := do
  if beginsJoin (← peekType) then
    let join ← parseJoin
    let others ← call .joins
    return join :: others
  else return []

/-- An expression behind a keyword. -/
def parseClause (k : Keyword) : Parse (Option Expression) := do
  if ← matchKeyword k then some <$> call (.expression .or) else pure none

/-- Parse GROUP BY clause -/
def parseGroupBy : Parse (List Expression) := do
  if ← matchKeyword .group then
    consumeKeyword .«by» "Expected BY after GROUP"
    commaSeparated (i := .expression) (call (.expression .or))
  else return []

/-- What is behind ORDER. -/
def parseOrderBys : Parse (List (OrderBy Expression)) := do
  consumeKeyword .«by» "Expected BY after ORDER"
  commaSeparated (i := .orderBy) parseOrderBy

/-- A number behind an identifier. -/
def parseCount (name : Text) : Parse (Option ℤ) := do
  if ← matchIdentifierToken name then some <$> parseNumber else pure none

def limitName : Text := ['L', 'I', 'M', 'I', 'T']

def offsetName : Text := ['O', 'F', 'F', 'S', 'E', 'T']

/-- The clauses of a SELECT up to HAVING. -/
structure SelectBody where
  distinct : Bool
  columns : List (ColumnSpec Expression)
  source : List (TableRef Statement)
  joins : List (JoinCondition Expression Statement)
  whereClause : Option Expression
  groupBy : List Expression
  having : Option Expression

def SelectBody.simple (b : SelectBody) (orderBy : List (OrderBy Expression)) (limit offset : Option ℤ)
    (namedWindows : List (NamedWindow Expression)) : SelectStatement :=
  .simple none b.distinct b.columns b.source b.joins b.whereClause b.groupBy b.having orderBy limit
    offset namedWindows

def parseSelectBody : Parse SelectBody := do
  let distinct ← matchKeyword .distinct
  let columns ← parseColumns
  let source ← if ← matchKeyword .«from» then commaSeparated (i := .tableRef) parseTableRef else pure []
  let joins ← call .joins
  let whereClause ← parseClause .«where»
  let groupBy ← parseGroupBy
  let having ← parseClause .having
  return ⟨distinct, columns, source, joins, whereClause, groupBy, having⟩

/-! ## Statements -/

/-- Whether the clauses behind HAVING are left to the outer query. -/
def stopsHere (stopAtParen : Bool) : Parse Bool := do
  return stopAtParen && (← peekType) == some (.mark .rightParen)

/-- ORDER BY, unless the clauses are left to the outer query. -/
def parseOrderClause (stopAtParen : Bool) : Parse (List (OrderBy Expression)) := do
  if ← stopsHere stopAtParen then return []
  else if ← matchKeyword .order then parseOrderBys
  else return []

/-- Parse SELECT statement after SELECT token has been consumed -/
def parseSelectAfterSelectImpl (stopAtParen : Bool) : Parse SelectStatement := do
  let body ← parseSelectBody
  let orderBy ← parseOrderClause stopAtParen
  let limit ← if ← stopsHere stopAtParen then pure none else parseCount limitName
  let offset ← if ← stopsHere stopAtParen then pure none else parseCount offsetName
  let select := body.simple orderBy limit offset []
  if ← stopsHere stopAtParen then return select else call (.setOperations select)

/-- Parse named window definition for WINDOW clause -/
def parseNamedWindow : Parse (NamedWindow Expression) := do
  match ← matchName with
  | some name =>
    consumeKeyword .«as» "Expected AS after window name"
    consumeMark .leftParen "Expected '(' after AS in WINDOW clause"
    let clause ← parseWindowClauseWithoutParens
    consumeMark .rightParen "Expected ')' after window definition"
    return ⟨name, clause⟩
  | none => failPlain "Expected window name"

/-- Parse a simple SELECT statement without set operations -/
def parseSimpleSelect : Parse SelectStatement := do
  let body ← parseSelectBody
  let orderBy ← if ← matchKeyword .order then parseOrderBys else pure []
  let limit ← parseCount limitName
  let offset ← parseCount offsetName
  let namedWindows ← if ← matchKeyword .window then
      commaSeparated (i := .namedWindow) parseNamedWindow
    else pure []
  return body.simple orderBy limit offset namedWindows

/-- The set operator at the next token. -/
def matchSetOperator : Parse (Option SetOperator) := do
  if ← matchKeyword .union then return some .union
  if ← matchKeyword .intersect then return some .intersect
  if ← matchKeyword .except then return some .except
  return none

/-- Parse set operations (UNION, INTERSECT, EXCEPT) -/
def parseSetOperations (left : SelectStatement) : Parse SelectStatement := do
  match ← matchSetOperator with
  | some operator =>
    let all ← matchKeyword .all
    consumeKeyword .select "Expected SELECT after set operator"
    let right ← parseSimpleSelect
    call (.setOperations (.setOperation operator left right all))
  | none => return left

/-- Parse SELECT statement (consumes SELECT token) -/
def parseSelect : Parse SelectStatement := do
  consumeKeyword .select "Expected SELECT"
  call (.selectAfterSelect false)

/-! ## Common table expressions -/

/-- Names in parentheses, behind the opening one. -/
def parseNames (message : String) : Parse (List Text) := do
  let names ← commaSeparated (i := .identifier) consumeIdentifier
  consumeMark .rightParen message
  return names

/-- Parse a single Common Table Expression -/
def parseCte : Parse (CommonTableExpression SelectStatement) := do
  let name ← consumeIdentifier
  let columnNames ← if ← matchMark .leftParen then
      some <$> parseNames "Expected ')' after CTE column list"
    else pure none
  consumeKeyword .«as» "Expected AS after CTE name"
  consumeMark .leftParen "Expected '(' before CTE query"
  if ← matchKeyword .select then
    let query ← call (.selectAfterSelect true)
    consumeMark .rightParen "Expected ')' after CTE query"
    return ⟨name, columnNames, query, false⟩
  else if (← peekType) = some (.keyword .«with») then
    failPlain "Nested WITH clauses not supported in CTE queries at this time"
  else fail "Expected SELECT in CTE"

/-- Determine if a CTE is recursive by analyzing its query structure -/
def isRecursiveCte : SelectStatement → Bool
  | .setOperation .union .. => true
  | _ => false

/-- Parse WITH clause followed by SELECT -/
def parseWithSelect : Parse Statement := do
  consumeKeyword .«with» "Expected WITH"
  let recursive ← matchKeyword .recursive
  let ctes ← commaSeparated (i := .cte) parseCte
  let ctes := if recursive then ctes.map fun c => { c with recursive := isRecursiveCte c.query } else ctes
  if (← peekType) = some (.keyword .select) then
    match ← parseSelect with
    | .simple _ distinct columns source joins whereClause groupBy having orderBy limit offset windows =>
      return .select (.simple (some ⟨ctes, recursive⟩) distinct columns source joins whereClause groupBy
        having orderBy limit offset windows)
    | .setOperation .. => failPlain "WITH clause not supported with set operations yet"
  else fail "Expected SELECT after WITH clause"

end Rustgresql.Sql
