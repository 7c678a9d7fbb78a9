import Rustgresql.Sql.Parser.Basic

/-!
# SQL parser: expressions

One function per precedence level. A parenthesis enters the levels again at `additive`.
-/

namespace Rustgresql.Sql

open BinaryOperator (add subtract multiply divide concatenate)

/-- One item, and the items behind commas after it. -/
def commaSeparated {i : Item} (item : Parse i.Result) : Parse (List i.Result) := do
  let first ← item
  let others ← call (.more i)
  return first :: others

/-- Arguments in parentheses, behind the opening one. -/
def parseArguments : Parse (List Expression) := do
  if ← matchMark .rightParen then return []
  let args ← commaSeparated (i := .expression) (call (.expression .or))
  consumeMark .rightParen "Expected ')' after function arguments"
  return args

section Windows

variable [Std]

/-- Parse window frame bound -/
def parseWindowFrameBound : Parse (WindowFrameBound Expression) := do
  if ← matchKeyword .current then
    if ← matchIdentifierToken ['R', 'O', 'W'] then return .currentRow
    failPlain "Expected ROW after CURRENT"
  else if ← matchKeyword .unbounded then
    if ← matchKeyword .preceding then return .unboundedPreceding
    if ← matchKeyword .following then return .unboundedFollowing
    failPlain "Expected PRECEDING or FOLLOWING after UNBOUNDED"
  else
    let expr ← call (.expression .or)
    if ← matchKeyword .preceding then return .preceding expr
    if ← matchKeyword .following then return .following expr
    failPlain "Expected PRECEDING or FOLLOWING after expression"

def parseWindowFrame (mode : WindowFrameMode) : Parse (WindowFrame Expression) := do
  if ← matchKeyword .between then
    let start ← parseWindowFrameBound
    consumeKeyword .and "Expected AND in window frame"
    let stop ← parseWindowFrameBound
    return ⟨mode, start, some stop⟩
  else
    let start ← parseWindowFrameBound
    return ⟨mode, start, none⟩

/-- A sort direction, which may be missing. -/
def parseSortDirection : Parse SortDirection := do
  if ← matchKeyword .asc then return .asc
  else if ← matchIdentifierToken ['A', 'S', 'C'] then return .asc
  else if ← matchKeyword .desc then return .desc
  else if ← matchIdentifierToken ['D', 'E', 'S', 'C'] then return .desc
  else return .asc

/-- Parse ORDER BY expression -/
def parseOrderBy : Parse (OrderBy Expression) := do
  let expr ← call (.expression .or)
  let direction ← parseSortDirection
  if ← matchKeyword .nulls then
    if ← matchKeyword .first then return ⟨expr, direction, .first⟩
    if ← matchKeyword .last then return ⟨expr, direction, .last⟩
    fail "Expected FIRST or LAST after NULLS"
  else return ⟨expr, direction, .default⟩

/-- The frame of a window, which may be missing. -/
def parseFrameClause : Parse (Option (WindowFrame Expression)) := do
  if ← matchKeyword .rows then some <$> parseWindowFrame .rows
  else if ← matchKeyword .range then some <$> parseWindowFrame .range
  else return none

/-- Parse window clause contents without requiring outer parentheses -/
def parseWindowClauseWithoutParens : Parse (WindowClause Expression) := do
  let partitionBy ← if ← matchKeyword .partition then do
      consumeKeyword .«by» "Expected BY after PARTITION"
      commaSeparated (i := .expression) (call (.expression .or))
    else pure []
  let orderBy ← if ← matchKeyword .order then do
      consumeKeyword .«by» "Expected BY after ORDER"
      commaSeparated (i := .orderBy) parseOrderBy
    else pure []
  let windowFrame ← parseFrameClause
  return ⟨partitionBy, orderBy, windowFrame⟩

/-- Parse window clause for OVER () -/
def parseWindowClause : Parse (WindowClause Expression) := do
  consumeMark .leftParen "Expected '(' after OVER"
  let clause ← parseWindowClauseWithoutParens
  consumeMark .rightParen "Expected ')' after window clause"
  return clause

end Windows

/-! ## Data types -/

section Types

variable [Std]

/-- The types that a name alone denotes. -/
def plainTypes : List (Text × DataTypeKind) :=
  [(['I', 'N', 'T', 'E', 'G', 'E', 'R'], .integer), (['I', 'N', 'T'], .integer),
   (['I', 'N', 'T', '4'], .integer), (['B', 'I', 'G', 'I', 'N', 'T'], .bigInt),
   (['I', 'N', 'T', '8'], .bigInt), (['S', 'M', 'A', 'L', 'L', 'I', 'N', 'T'], .smallInt),
   (['I', 'N', 'T', '2'], .smallInt), (['R', 'E', 'A', 'L'], .real),
   (['F', 'L', 'O', 'A', 'T', '4'], .real), (['T', 'E', 'X', 'T'], .text),
   (['B', 'O', 'O', 'L', 'E', 'A', 'N'], .boolean), (['B', 'O', 'O', 'L'], .boolean),
   (['D', 'A', 'T', 'E'], .date), (['T', 'I', 'M', 'E'], .time),
   (['T', 'I', 'M', 'E', 'S', 'T', 'A', 'M', 'P'], .timestamp),
   (['I', 'N', 'T', 'E', 'R', 'V', 'A', 'L'], .interval), (['U', 'U', 'I', 'D'], .uuid),
   (['B', 'L', 'O', 'B'], .bytea), (['B', 'Y', 'T', 'E', 'A'], .bytea)]

/-- `parse_number()? as usize`. -/
def parseSize : Parse ℕ := do
  let i ← parseNumber
  return (i % 2 ^ 64).toNat

/-- The length in parentheses of VARCHAR and CHAR. -/
def parseLength (default : ℕ) (message : String) : Parse ℕ := do
  if ← matchMark .leftParen then
    let length ← parseSize
    consumeMark .rightParen message
    return length
  else return default

/-- The type for a name, with its parameters. -/
def parseTypeNamed (typeName : Text) : Parse DataTypeKind := do
  let name := typeName.toUppercase
  if name = ['D', 'E', 'C', 'I', 'M', 'A', 'L'] ∨ name = ['N', 'U', 'M', 'E', 'R', 'I', 'C'] then
    if ← matchMark .leftParen then
      let precision ← parseSize
      let scale ← if ← matchMark .comma then parseSize else pure 0
      consumeMark .rightParen "Expected ')' after decimal precision"
      return .decimal precision scale
    else return .decimal 10 0
  else if name = ['D', 'O', 'U', 'B', 'L', 'E'] then
    let _ ← matchIdentifierToken ['P', 'R', 'E', 'C', 'I', 'S', 'I', 'O', 'N']
    return .doublePrecision
  else if name = ['V', 'A', 'R', 'C', 'H', 'A', 'R'] then
    return .varchar (← parseLength 255 "Expected ')' after varchar length")
  else if name = ['C', 'H', 'A', 'R'] then
    return .char (← parseLength 1 "Expected ')' after char length")
  else
    match plainTypes.find? fun e => e.1 = name with
    | some (_, kind) => return kind
    | none => failPlain s!"Unknown data type: {String.ofList typeName}"

/-- Parse data type -/
def parseDataType : Parse DataTypeKind := do
  if ← matchKeyword .serial then return .serial
  if ← matchKeyword .bigSerial then return .bigSerial
  let kind ← parseTypeNamed (← consumeIdentifier)
  call (.arraySuffix kind)

/-- The loop over array suffixes, e.g. `INTEGER[]`. -/
def arraySuffix (element : DataTypeKind) : Parse DataTypeKind := do
  if ← matchMark .leftBracket then
    consumeMark .rightBracket "Expected ']' after '[' in array type"
    call (.arraySuffix (.array element))
  else return element

end Types

/-! ## Primary expressions -/

section Expressions

variable [Std]

/-- A subquery in parentheses, behind the opening one and SELECT. -/
def parseSubquery (message : String) : Parse Statement := do
  let query ← call (.selectAfterSelect true)
  consumeMark .rightParen message
  return .select query

/-- The subquery of EXISTS and NOT EXISTS. -/
def parseExists (negated : Bool) (open_ select close : String) : Parse Expression := do
  consumeMark .leftParen open_
  if ← matchKeyword .select then
    return .exists (← parseSubquery close) negated
  else fail select

/-- A call behind its arguments: with OVER it is a window function. -/
def parseOver (name : Text) (args : List Expression) (distinct : Bool) : Parse Expression := do
  if ← matchKeyword .over then
    let clause ← parseWindowClause
    return .windowFunction name args clause none
  else return .function name args distinct

/-- The loop over WHEN ... THEN branches. -/
def whenBranches : Parse (List (CaseBranch Expression)) := do
  if ← matchKeyword .when then
    let condition ← call (.expression .or)
    consumeKeyword .«then» "Expected 'THEN' after WHEN condition"
    let result ← call (.expression .or)
    let branches ← call .whenBranches
    return ⟨condition, result⟩ :: branches
  else return []

/-- Parse CASE expression, behind CASE -/
def parseCaseExpression : Parse Expression := do
  let base ← if (← peekType) = some (.keyword .when) then pure none
    else some <$> call (.expression .or)
  let branches ← call .whenBranches
  let elseResult ← if ← matchKeyword .«else» then some <$> call (.expression .or) else pure none
  consumeKeyword .«end» "Expected 'END' after CASE expression"
  return .case base branches elseResult

/-- What follows an identifier in an expression. -/
def parseNamed (name : Text) : Parse Expression := do
  if ← matchMark .dot then
    return .column (some name) (← consumeIdentifier)
  else if ← matchMark .leftParen then
    parseOver name (← parseArguments) false
  else return .column none name

/-- What follows the keyword of a window function. -/
def parseWindowFunction (name : Text) : Parse Expression := do
  if ← matchMark .leftParen then
    parseOver name (← parseArguments) false
  else return .column none name

/-- What follows the keyword of an aggregate function. -/
def parseAggregate (name : Text) : Parse Expression := do
  if ← matchMark .leftParen then
    if ← matchMark .rightParen then
      parseOver name [] false
    else
      let distinct ← matchKeyword .distinct
      let args ← commaSeparated (i := .expression) (call (.expression .or))
      consumeMark .rightParen "Expected ')' after function arguments"
      parseOver name args distinct
  else return .function name [.star] false

/-- What follows an opening parenthesis. -/
def parseParenthesized : Parse Expression := do
  if ← matchKeyword .select then
    return .subquery (← parseSubquery "Expected ')' after subquery")
  else
    let expr ← call (.expression .additive)
    if ← matchMark .comma then
      let values ← commaSeparated (i := .additive) (call (.expression .additive))
      consumeMark .rightParen "Expected ')' after value list"
      return .list (expr :: values)
    else
      consumeMark .rightParen "Expected ')' after expression"
      return expr

/-- What follows CAST. -/
def parseCast : Parse Expression := do
  consumeMark .leftParen "Expected '(' after CAST"
  let expr ← call (.expression .or)
  consumeKeyword .«as» "Expected 'AS' after CAST expression"
  let dataType ← parseDataType
  consumeMark .rightParen "Expected ')' after CAST data type"
  return .cast expr dataType

def Keyword.isAggregate (k : Keyword) : Bool := k ∈ [.count, .sum, .avg, .min, .max]

/-- What an expression that begins with a token is, behind it; `none` if none begins so. Numbers are
read before. -/
def primaryAfter (x : Symbol) : Option (Parse Expression) :=
  match x.tokenType with
  | .string _ => some (pure (.value (.string x.value)))
  | .identifier name => some (parseNamed name)
  | .quotedIdentifier name => some (parseNamed name)
  | .mark .asterisk => some (pure .star)
  | .mark .leftParen => some parseParenthesized
  | .keyword .cast => some parseCast
  | .keyword .null => some (pure (.value .null))
  | .keyword .true => some (pure (.value (.boolean true)))
  | .keyword .false => some (pure (.value (.boolean false)))
  | .keyword .«exists» => some (parseExists false "Expected '(' after EXISTS"
      "Expected SELECT after EXISTS(" "Expected ')' after EXISTS subquery")
  | .keyword .case => some parseCaseExpression
  | .keyword k =>
    if k.isWindowFunction then some (parseWindowFunction k.text)
    else if k.isAggregate then some (parseAggregate k.text)
    else none
  | _ => none

/-- Parse primary expression -/
def parsePrimaryExpression : Parse Expression :=
  .literal (fun v => .done (.value v))
    (.take (fun x => (primaryAfter x).isSome)
      (fun x => (primaryAfter x).getD (failAtValue "Unexpected token"))
      (failAtValue "Unexpected token"))

/-! ## Levels -/

/-- Parse unary expression -/
def parseUnaryExpression : Parse Expression := do
  if ← matchMark .minus then
    return .unaryOp .minus (← call (.expression .unary))
  else if ← matchMark .plus then
    return .unaryOp .plus (← call (.expression .unary))
  else if ← matchKeyword .not then
    if ← matchKeyword .«exists» then
      parseExists true "Expected '(' after NOT EXISTS" "Expected SELECT after NOT EXISTS("
        "Expected ')' after NOT EXISTS subquery"
    else return .unaryOp .not (← call (.expression .unary))
  else parsePrimaryExpression

/-- Parse multiplicative expression (*, /) -/
def parseMultiplicativeExpression : Parse Expression := do
  let expr ← parseUnaryExpression
  call (.operators .multiplicative expr)

/-- Parse additive expression (+, -, ||) -/
def parseAdditiveExpression : Parse Expression := do
  let expr ← parseMultiplicativeExpression
  call (.operators .additive expr)

/-- Parse comparison expression -/
def parseComparisonExpression : Parse Expression := do
  let expr ← parseAdditiveExpression
  call (.operators .comparison expr)

/-- Parse NOT expression -/
def parseNotExpression : Parse Expression := do
  if ← matchKeyword .not then
    return .unaryOp .not (← call (.expression .not))
  else parseComparisonExpression

/-- Parse AND expression -/
def parseAndExpression : Parse Expression := do
  let expr ← parseNotExpression
  call (.operators .and expr)

/-- Parse OR expression -/
def parseOrExpression : Parse Expression := do
  let expr ← parseAndExpression
  call (.operators .or expr)

/-- Parse expression -/
def parseExpression : Parse Expression := parseOrExpression

/-- The function for a level. -/
def parseLevel : Level → Parse Expression
  | .or => parseOrExpression
  | .and => parseAndExpression
  | .not => parseNotExpression
  | .comparison => parseComparisonExpression
  | .additive => parseAdditiveExpression
  | .multiplicative => parseMultiplicativeExpression
  | .unary => parseUnaryExpression

/-- The operator that a token denotes at a level. -/
def Level.operator : Level → TokenType → Option BinaryOperator
  | .or, .keyword .or => some .or
  | .and, .keyword .and => some .and
  | .comparison, .mark .equals => some .equals
  | .comparison, .mark .notEquals => some .notEquals
  | .comparison, .mark .lessThan => some .lessThan
  | .comparison, .mark .lessThanOrEquals => some .lessThanOrEquals
  | .comparison, .mark .greaterThan => some .greaterThan
  | .comparison, .mark .greaterThanOrEquals => some .greaterThanOrEquals
  | .comparison, .keyword .like => some .like
  | .comparison, .keyword .iLike => some .iLike
  | .comparison, .keyword .«in» => some .«in»
  | .comparison, .keyword .is => some .is
  | .additive, .mark .plus => some add
  | .additive, .mark .minus => some subtract
  | .additive, .mark .concatenate => some concatenate
  | .multiplicative, .mark .asterisk => some multiply
  | .multiplicative, .mark .divide => some divide
  | _, _ => none

/-- The level of the right operand of an operator. -/
def Level.operand : Level → Level
  | .or => .and
  | .and => .not
  | .not => .not
  | .comparison => .additive
  | .additive => .multiplicative
  | .multiplicative => .unary
  | .unary => .unary

/-- The loop of a level: more operators of the level, to the right. -/
def parseOperators (l : Level) (left : Expression) : Parse Expression :=
  .take (fun x => (l.operator x.tokenType).isSome)
    (fun x => do
      let op := (l.operator x.tokenType).getD .equals
      -- IS NOT is one operator
      let op ← if op = .is then do
          if ← matchKeyword .not then pure .isNot else pure .is
        else pure op
      let right ← call (.expression l.operand)
      call (.operators l (.binaryOp left op right)))
    (.done left)

end Expressions

end Rustgresql.Sql
