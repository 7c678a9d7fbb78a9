import Rustgresql.Sql.Parser.Select

/-!
# SQL parser: statements

The statements other than SELECT, the family of all parser programs, and `parse`, which reads
statements with semicolons between them.
-/

namespace Rustgresql.Sql

open TokenProgram (Stop State Outcome Reader exec)

variable [Std]

/-! ## Data manipulation -/

/-- Values in parentheses. -/
def parseRow : Parse (List Expression) := do
  consumeMark .leftParen "Expected '(' before values"
  let row ← commaSeparated (i := .expression) (call (.expression .or))
  consumeMark .rightParen "Expected ')' after values"
  return row

/-- Parse INSERT statement -/
def parseInsert : Parse Statement := do
  consumeKeyword .insert "Expected INSERT"
  consumeKeyword .into "Expected INTO after INSERT"
  let table ← parseTableRef
  let columns ← if ← matchMark .leftParen then parseNames "Expected ')' after column list" else pure []
  consumeKeyword .values "Expected VALUES"
  let values ← commaSeparated (i := .row) parseRow
  return .insert table columns values

/-- An assignment of UPDATE. -/
def parseAssignment : Parse (Text × Expression) := do
  let column ← consumeIdentifier
  consumeMark .equals "Expected '=' in assignment"
  let expr ← call (.expression .or)
  return (column, expr)

/-- Parse UPDATE statement -/
def parseUpdate : Parse Statement := do
  consumeKeyword .update "Expected UPDATE"
  let table ← parseTableRef
  consumeKeyword .set "Expected SET"
  let assignments ← commaSeparated (i := .assignment) parseAssignment
  return .update table assignments (← parseClause .«where»)

/-- Parse DELETE statement -/
def parseDelete : Parse Statement := do
  consumeKeyword .delete "Expected DELETE"
  consumeKeyword .«from» "Expected FROM after DELETE"
  let table ← parseTableRef
  return .delete table (← parseClause .«where»)

/-! ## Tables and indexes -/

/-- IF NOT EXISTS. -/
def parseIfNotExists : Parse Bool := do
  if ← matchKeyword .«if» then
    consumeKeyword .not "Expected NOT after IF"
    consumeKeyword .«exists» "Expected EXISTS after NOT"
    return true
  else return false

/-- IF EXISTS. -/
def parseIfExists : Parse Bool := do
  if ← matchKeyword .«if» then
    consumeKeyword .«exists» "Expected EXISTS after IF"
    return true
  else return false

/-- The text of a boolean, as `to_string` has it. -/
def boolText (b : Bool) : Text :=
  if b then ['t', 'r', 'u', 'e'] else ['f', 'a', 'l', 's', 'e']

/-- The text of a DEFAULT value. -/
def defaultText : Value → Text
  | .string s => s
  | .integer i => (toString i).toList
  | .float f => Std.floatToString f
  | .boolean b => boolText b
  | .null => ['N', 'U', 'L', 'L']

/-- The literal that a token stands for behind DEFAULT. A number that cannot be converted is zero. -/
def literalValue (x : Symbol) : Option Value :=
  match x.tokenType with
  | .string s => some (.string s)
  | .number n =>
    some (if '.' ∈ n then .float ((parseF64 n).getD 0.0)
      else .integer ((parseI64 n).toOption.getD 0))
  | .identifier i => some (.string i)
  | .quotedIdentifier i => some (.string i)
  | .keyword .true => some (.boolean true)
  | .keyword .false => some (.boolean false)
  | _ => none

/-- Parse literal value for DEFAULT. The error is about the token that was read, or at the end about
the one before. -/
def parseLiteralValue : Parse Value :=
  .take (fun x => (literalValue x).isSome) (fun x => .done ((literalValue x).getD .null))
    (.failTaken fun t => s!"Expected literal value at line {t.line}, column {t.column}")

/-- The column constraint that a token begins, behind it. -/
def constraintAfter : Option TokenType → Option (Parse (ColumnConstraint Expression))
  | some (.keyword .not) => some do
    consumeKeyword .null "Expected NULL after NOT"
    return .notNull
  | some (.keyword .null) => some (pure .null)
  | some (.keyword .default) => some do
    return .default (defaultText (← parseLiteralValue))
  | some (.keyword .primary) => some do
    consumeKeyword .key "Expected KEY after PRIMARY"
    return .primaryKey
  | some (.keyword .unique) => some (pure .unique)
  | some (.keyword .check) => some do
    consumeMark .leftParen "Expected '(' after CHECK"
    let condition ← call (.expression .or)
    consumeMark .rightParen "Expected ')' after CHECK condition"
    return .check condition
  | some (.keyword .references) => some do
    let table ← consumeIdentifier
    if ← matchMark .leftParen then
      let column ← consumeIdentifier
      consumeMark .rightParen "Expected ')' after reference column"
      return .references table (some column)
    else return .references table none
  | _ => none

/-- The loop over column constraints. -/
def columnConstraints : Parse (List (ColumnConstraint Expression)) :=
  .take (fun x => (constraintAfter (some x.tokenType)).isSome)
    (fun x => do
      let constraint ← (constraintAfter (some x.tokenType)).getD (pure .null)
      let others ← call .columnConstraints
      return constraint :: others)
    (.done [])

/-- Parse column definition -/
def parseColumnDef : Parse (ColumnDef Expression) := do
  let name ← consumeIdentifier
  let dataType ← parseDataType
  let constraints ← call .columnConstraints
  return ⟨name, dataType, constraints⟩

/-- Parse table constraint -/
def parseTableConstraint : Parse (TableConstraint Expression) := do
  let name ← if ← matchKeyword .constraint then some <$> consumeIdentifier else pure none
  if ← matchKeyword .primary then
    consumeKeyword .key "Expected KEY after PRIMARY"
    consumeMark .leftParen "Expected '(' after PRIMARY KEY"
    let columns ← parseNames "Expected ')' after PRIMARY KEY columns"
    return .primaryKey columns name
  else if ← matchKeyword .foreign then
    consumeKeyword .key "Expected KEY after FOREIGN"
    consumeMark .leftParen "Expected '(' after FOREIGN KEY"
    let columns ← parseNames "Expected ')' after FOREIGN KEY columns"
    consumeKeyword .references "Expected REFERENCES after FOREIGN KEY columns"
    let refTable ← consumeIdentifier
    consumeMark .leftParen "Expected '(' after REFERENCES table"
    let refColumns ← parseNames "Expected ')' after REFERENCES columns"
    return .foreignKey columns refTable refColumns name
  else if ← matchKeyword .unique then
    consumeMark .leftParen "Expected '(' after UNIQUE"
    let columns ← parseNames "Expected ')' after UNIQUE columns"
    return .unique columns name
  else if ← matchKeyword .check then
    consumeMark .leftParen "Expected '(' after CHECK"
    let condition ← call (.expression .or)
    consumeMark .rightParen "Expected ')' after CHECK condition"
    return .check condition name
  else failValue "Expected constraint type (PRIMARY KEY, FOREIGN KEY, UNIQUE, CHECK), got"

local instance : LawfulBEq (Option TokenType) := inferInstance

/-- The tokens that a table constraint begins with. -/
def beginsConstraint (t : Option TokenType) : Bool :=
  t ∈ ([.primary, .foreign, .unique, .check, .constraint] : List Keyword).map fun k =>
    some (.keyword k)

/-- A column definition or a table constraint. -/
def parseTableElement : Parse (ColumnDef Expression ⊕ TableConstraint Expression) := do
  if beginsConstraint (← peekType) then return .inr (← parseTableConstraint)
  else return .inl (← parseColumnDef)

/-- Parse CREATE TABLE statement -/
def parseCreateTable : Parse Statement := do
  consumeKeyword .table "Expected TABLE"
  let ifNotExists ← parseIfNotExists
  let tableName ← consumeIdentifier
  consumeMark .leftParen "Expected '(' after table name"
  let elements ← commaSeparated (i := .tableElement) parseTableElement
  consumeMark .rightParen "Expected ')' after table definition"
  return .createTable tableName (elements.filterMap Sum.getLeft?) (elements.filterMap Sum.getRight?)
    ifNotExists

/-- Parse CREATE INDEX statement -/
def parseCreateIndex (isUnique : Bool) : Parse Statement := do
  consumeKeyword .index "Expected INDEX"
  let ifNotExists ← parseIfNotExists
  let indexName ← consumeIdentifier
  consumeKeyword .on "Expected ON"
  let tableName ← consumeIdentifier
  consumeMark .leftParen "Expected '(' after table name"
  let columns ← parseNames "Expected ')' after index columns"
  return .createIndex indexName tableName columns isUnique ifNotExists

/-- Parse DROP TABLE statement (consumes TABLE token) -/
def parseDropTable : Parse Statement := do
  consumeKeyword .table "Expected TABLE"
  let ifExists ← parseIfExists
  return .dropTable (← consumeIdentifier) ifExists

/-- Parse DROP INDEX statement (consumes INDEX token) -/
def parseDropIndex : Parse Statement := do
  consumeKeyword .index "Expected INDEX"
  let ifExists ← parseIfExists
  return .dropIndex (← consumeIdentifier) ifExists

/-! ## ALTER TABLE -/

/-- The name that ADD CONSTRAINT gives a constraint. -/
def TableConstraint.setName {E : Type} (n : Text) : TableConstraint E → TableConstraint E
  | .primaryKey columns _ => .primaryKey columns (some n)
  | .foreignKey columns refTable refColumns _ => .foreignKey columns refTable refColumns (some n)
  | .unique columns _ => .unique columns (some n)
  | .check condition _ => .check condition (some n)

/-- Parse ALTER TABLE operation -/
def parseAlterOperation : Parse (AlterOperation Expression) := do
  if ← matchKeyword .add then
    if ← matchKeyword .column then return .addColumn (← parseColumnDef)
    else if ← matchKeyword .constraint then
      let name ← consumeIdentifier
      return .addConstraint ((← parseTableConstraint).setName name)
    else failValue "Expected COLUMN or CONSTRAINT after ADD, got"
  else if ← matchKeyword .drop then
    if ← matchKeyword .column then return .dropColumn (← consumeIdentifier)
    else if ← matchKeyword .constraint then return .dropConstraint (← consumeIdentifier)
    else failValue "Expected COLUMN or CONSTRAINT after DROP, got"
  else if ← matchKeyword .rename then
    if ← matchKeyword .column then
      let oldName ← consumeIdentifier
      consumeKeyword .to "Expected TO"
      return .renameColumn oldName (← consumeIdentifier)
    else if ← matchKeyword .to then return .renameTable (← consumeIdentifier)
    else failValue "Expected COLUMN or TO after RENAME, got"
  else failValue "Expected ADD, DROP, or RENAME after ALTER TABLE, got"

/-- Parse ALTER statement -/
def parseAlter : Parse Statement := do
  consumeKeyword .alter "Expected ALTER"
  consumeKeyword .table "Expected TABLE after ALTER"
  let tableName ← consumeIdentifier
  return .alterTable tableName (← parseAlterOperation)

/-! ## Views -/

/-- The column names of a view. -/
def parseViewColumns : Parse (List Text) := do
  if ← matchMark .leftParen then parseNames "Expected ')' after view column list" else return []

/-- WITH [NOT] DATA. -/
def parseWithData : Parse Bool := do
  if ← matchKeyword .«with» then
    if ← matchKeyword .not then
      consumeKeyword .data "Expected DATA after NOT"
      return false
    else
      consumeKeyword .data "Expected DATA after WITH"
      return true
  else return true

/-- Parse CREATE VIEW statement -/
def parseCreateView : Parse Statement := do
  consumeKeyword .view "Expected VIEW"
  let viewName ← consumeIdentifier
  let columns ← parseViewColumns
  consumeKeyword .«as» "Expected AS after view name"
  let query ← parseSelect
  return .createView viewName columns query false true

/-- Parse CREATE MATERIALIZED VIEW statement -/
def parseCreateMaterializedView : Parse Statement := do
  consumeKeyword .materialized "Expected MATERIALIZED"
  consumeKeyword .view "Expected VIEW"
  let viewName ← consumeIdentifier
  let columns ← parseViewColumns
  consumeKeyword .«as» "Expected AS after view name"
  let query ← parseSelect
  return .createView viewName columns query true (← parseWithData)

/-- What DROP VIEW and DROP MATERIALIZED VIEW share. -/
def parseDropViewNamed (materialized : Bool) : Parse Statement := do
  consumeKeyword .view "Expected VIEW"
  let _ ← parseIfExists
  let viewName ← consumeIdentifier
  return .dropView viewName materialized (← matchKeyword .cascade)

/-- Parse DROP VIEW statement -/
def parseDropView : Parse Statement := parseDropViewNamed false

/-- Parse DROP MATERIALIZED VIEW statement -/
def parseDropMaterializedView : Parse Statement := do
  consumeKeyword .materialized "Expected MATERIALIZED"
  parseDropViewNamed true

/-- Parse REFRESH MATERIALIZED VIEW statement -/
def parseRefreshMaterializedView : Parse Statement := do
  consumeKeyword .refresh "Expected REFRESH"
  consumeKeyword .materialized "Expected MATERIALIZED"
  consumeKeyword .view "Expected VIEW"
  let concurrently ← matchKeyword .concurrently
  let viewName ← consumeIdentifier
  return .refreshMaterializedView viewName concurrently (← parseWithData)

/-! ## Stored procedures -/

/-- The value behind DEFAULT. -/
def parseDefault : Parse (Option Expression) := parseClause .default

/-- Parse parameter mode (IN, OUT, INOUT) -/
def parseParameterMode : Parse ParameterMode := do
  if ← matchIdentifierToken ['I', 'N'] then return .«in»
  else if ← matchIdentifierToken ['O', 'U', 'T'] then return .out
  else if ← matchIdentifierToken ['I', 'N', 'O', 'U', 'T'] then return .inOut
  else return .«in»

/-- Parse procedure parameter -/
def parseProcedureParameter : Parse (ProcedureParameter Expression) := do
  let mode ← parseParameterMode
  let name ← consumeIdentifier
  let dataType ← parseDataType
  let defaultValue ← if mode ≠ .out then parseDefault else pure none
  return ⟨name, dataType, mode, defaultValue⟩

/-- A parameter list, which may be missing. -/
def parseParameters : Parse (List (ProcedureParameter Expression)) := do
  if ← matchMark .leftParen then
    if ← matchMark .rightParen then return []
    let parameters ← commaSeparated (i := .procedureParameter) parseProcedureParameter
    consumeMark .rightParen "Expected ')' after parameter list"
    return parameters
  else return []

/-- OR REPLACE. -/
def parseOrReplace : Parse Bool := do
  if ← matchKeyword .or then
    consumeKeyword .replace "Expected REPLACE after OR"
    return true
  else return false

/-- Parse LANGUAGE clause -/
def parseLanguage : Parse ProcedureLanguage := do
  consumeKeyword .language "Expected LANGUAGE"
  let language := (← consumeIdentifier).toUppercase
  if language = ['S', 'Q', 'L'] then return .sql
  else if language = ['P', 'L', 'P', 'G', 'S', 'Q', 'L'] then return .plpgsql
  else failPlain "Expected SQL or PLpgSQL as language"

/-- Parse SECURITY clause -/
def parseSecurity : Parse Bool := do
  if ← matchKeyword .security then
    consumeKeyword .definer "Expected DEFINER after SECURITY"
    return true
  else return false

/-- Parse variable declaration -/
def parseDeclaration : Parse (Declaration Expression) := do
  let constant ← matchIdentifierToken ['C', 'O', 'N', 'S', 'T', 'A', 'N', 'T']
  let name ← consumeIdentifier
  let dataType ← parseDataType
  return ⟨name, dataType, ← parseDefault, constant⟩

/-- Parse block statement (BEGIN...END) -/
def parseBlockStatement : Parse (BlockStatement Expression Statement) := do
  let declarations ← if ← matchKeyword .declare then
      commaSeparated (i := .declaration) parseDeclaration
    else pure []
  let (statements, handler) ← call .blockStatements
  return ⟨declarations, statements, handler⟩

/-- Parse AS block -/
def parseBody : Parse (BlockStatement Expression Statement) := do
  consumeKeyword .«as» "Expected AS"
  consumeKeyword .begin "Expected BEGIN"
  let body ← parseBlockStatement
  consumeKeyword .«end» "Expected END"
  return body

/-- Parse CREATE PROCEDURE statement -/
def parseCreateProcedure : Parse Statement := do
  consumeKeyword .procedure "Expected PROCEDURE"
  let orReplace ← parseOrReplace
  let procedureName ← consumeIdentifier
  let parameters ← parseParameters
  let language ← parseLanguage
  let securityDefiner ← parseSecurity
  let body ← parseBody
  return .createProcedure procedureName parameters language body orReplace securityDefiner

/-- Parse CREATE FUNCTION statement -/
def parseCreateFunction : Parse Statement := do
  consumeKeyword .function "Expected FUNCTION"
  let orReplace ← parseOrReplace
  let functionName ← consumeIdentifier
  let parameters ← parseParameters
  consumeKeyword .«return» "Expected RETURN"
  consumeKeyword .«if» "Expected IF"
  consumeKeyword .not "Expected NOT"
  let returnsSetof ← if ← matchKeyword .set then do
      consumeKeyword .of "Expected OF after SET"
      pure true
    else pure false
  let returnType ← parseDataType
  let language ← parseLanguage
  let securityDefiner ← parseSecurity
  let body ← parseBody
  return .createFunction functionName parameters returnType language body orReplace securityDefiner
    returnsSetof

/-- Parse DROP PROCEDURE statement -/
def parseDropProcedure : Parse Statement := do
  consumeKeyword .procedure "Expected PROCEDURE"
  let ifExists ← parseIfExists
  return .dropProcedure (← consumeIdentifier) ifExists

/-- Parse DROP FUNCTION statement -/
def parseDropFunction : Parse Statement := do
  consumeKeyword .function "Expected FUNCTION"
  let ifExists ← parseIfExists
  let functionName ← consumeIdentifier
  return .dropFunction functionName ifExists (← matchKeyword .cascade)

/-- Parse CALL procedure statement -/
def parseCallProcedure : Parse Statement := do
  consumeKeyword .call "Expected CALL"
  let procedureName ← consumeIdentifier
  if ← matchMark .leftParen then
    if ← matchMark .rightParen then return .callProcedure procedureName []
    let arguments ← commaSeparated (i := .expression) (call (.expression .or))
    consumeMark .rightParen "Expected ')' after CALL arguments"
    return .callProcedure procedureName arguments
  else return .callProcedure procedureName []

/-- Parse PERFORM statement -/
def parsePerformStatement : Parse Statement := do
  consumeKeyword .perform "Expected PERFORM"
  return .perform (← call (.expression .or))

/-- A transaction statement; TRANSACTION and WORK may follow. -/
def parseTransaction (k : Keyword) (message : String) (statement : Statement) : Parse Statement := do
  consumeKeyword k message
  let _ ← matchIdentifierToken ['T', 'R', 'A', 'N', 'S', 'A', 'C', 'T', 'I', 'O', 'N']
  let _ ← matchIdentifierToken ['W', 'O', 'R', 'K']
  return statement

/-! ## Statements -/

/-- Parse CREATE statement -/
def parseCreate : Parse Statement := do
  consumeKeyword .create "Expected CREATE"
  let isUniqueIndex ← matchKeyword .unique
  match ← peekType with
  | some (.keyword .table) => parseCreateTable
  | some (.keyword .index) => parseCreateIndex isUniqueIndex
  | some (.keyword .view) => parseCreateView
  | some (.keyword .materialized) => parseCreateMaterializedView
  | some (.keyword .procedure) => parseCreateProcedure
  | some (.keyword .function) => parseCreateFunction
  | _ => failAtValue "Expected TABLE, INDEX, VIEW, PROCEDURE, or FUNCTION after CREATE, got"

/-- Parse DROP statement (consumes DROP token) -/
def parseDrop : Parse Statement := do
  consumeKeyword .drop "Expected DROP"
  match ← peekType with
  | some (.keyword .table) => parseDropTable
  | some (.keyword .index) => parseDropIndex
  | some (.keyword .view) => parseDropView
  | some (.keyword .materialized) => parseDropMaterializedView
  | some (.keyword .procedure) => parseDropProcedure
  | some (.keyword .function) => parseDropFunction
  | _ => failValue "Expected TABLE, INDEX, VIEW, PROCEDURE, or FUNCTION after DROP, got"

/-- Parse a single statement -/
def parseStatement : Parse Statement := do
  match ← peekType with
  | some (.keyword .«with») => parseWithSelect
  | some (.keyword .select) => .select <$> parseSelect
  | some (.keyword .insert) => parseInsert
  | some (.keyword .update) => parseUpdate
  | some (.keyword .delete) => parseDelete
  | some (.keyword .create) => parseCreate
  | some (.keyword .drop) => parseDrop
  | some (.keyword .alter) => parseAlter
  | some (.keyword .refresh) => parseRefreshMaterializedView
  | some (.keyword .call) => parseCallProcedure
  | some (.keyword .perform) => parsePerformStatement
  | some (.keyword .begin) => parseTransaction .begin "Expected BEGIN" .beginTransaction
  | some (.keyword .commit) => parseTransaction .commit "Expected COMMIT" .commitTransaction
  | some (.keyword .rollback) => parseTransaction .rollback "Expected ROLLBACK" .rollbackTransaction
  | _ => failAtValue "Unexpected token"

/-! ## Blocks -/

/-- Parse exception handler -/
def parseExceptionHandler : Parse (ExceptionHandler Statement) := do
  consumeKeyword .exception "Expected EXCEPTION"
  let handlers ← call .handlers
  return ⟨handlers.map Prod.fst, handlers.flatMap Prod.snd⟩

/-- The loop over the statements of a block. -/
def blockStatements : Parse (List Statement × Option (ExceptionHandler Statement)) := do
  if ← isAtEnd then return ([], none)
  else if ← matchKeyword .«end» then return ([], none)
  else if (← peekType) = some (.keyword .exception) then
    return ([], some (← parseExceptionHandler))
  else if ← matchMark .semicolon then call .blockStatements
  else
    let statement ← parseStatement
    let (statements, handler) ← call .blockStatements
    return (statement :: statements, handler)

/-- The condition for the names behind WHEN. -/
def exceptionCondition (names : List Text) : ExceptionCondition :=
  if names.length = 1 ∧ (names.headD []).toUppercase = ['O', 'T', 'H', 'E', 'R', 'S'] then .others
  else .when names

/-- The loop over WHEN clauses. -/
def handlers : Parse (List (ExceptionCondition × List Statement)) := do
  if ← matchKeyword .when then
    let first ← consumeIdentifier
    let others ← call .exceptionNames
    consumeKeyword .«then» "Expected THEN after WHEN clause"
    let statements ← call .handlerStatements
    let more ← call .handlers
    return (exceptionCondition (first :: others), statements) :: more
  else return []

/-- The loop over exception names. -/
def exceptionNames : Parse (List Text) := do
  if ← matchKeyword .or then
    let name ← consumeIdentifier
    let others ← call .exceptionNames
    return name :: others
  else return []

/-- The loop over the statements of a handler. A WHEN that ends it is read with it. -/
def handlerStatements : Parse (List Statement) := do
  if ← isAtEnd then return []
  else if ← matchKeyword .when then return []
  else if (← peekType) = some (.keyword .«end») then return []
  else if ← matchMark .semicolon then call .handlerStatements
  else
    let statement ← parseStatement
    let others ← call .handlerStatements
    return statement :: others

/-! ## The family -/

/-- An item of a list. -/
def parseItem : (i : Item) → Parse i.Result
  | .expression => parseExpression
  | .additive => parseAdditiveExpression
  | .identifier => consumeIdentifier
  | .column => parseColumn
  | .tableRef => parseTableRef
  | .orderBy => parseOrderBy
  | .namedWindow => parseNamedWindow
  | .cte => parseCte
  | .assignment => parseAssignment
  | .row => parseRow
  | .tableElement => parseTableElement
  | .procedureParameter => parseProcedureParameter
  | .declaration => parseDeclaration

/-- The loop over items behind commas. -/
def parseMore (i : Item) : Parse (List i.Result) := do
  if ← matchMark .comma then
    let first ← parseItem i
    let others ← call (.more i)
    return first :: others
  else return []

/-- What a call runs. -/
def parser : (c : Call) → Parse c.Result
  | .expression l => parseLevel l
  | .operators l left => parseOperators l left
  | .whenBranches => whenBranches
  | .statement => parseStatement
  | .selectAfterSelect stopAtParen => parseSelectAfterSelectImpl stopAtParen
  | .setOperations left => parseSetOperations left
  | .joins => joins
  | .more i => parseMore i
  | .arraySuffix element => arraySuffix element
  | .columnConstraints => columnConstraints
  | .blockStatements => blockStatements
  | .handlers => handlers
  | .exceptionNames => exceptionNames
  | .handlerStatements => handlerStatements

/-- How the parser reads tokens: only an expression converts a number and insists that it can. -/
def reader (eof : Token) : Reader Token Symbol Value where
  eof := eof
  symbol := Token.symbol
  value x :=
    match x.tokenType with
    | .number _ => some (numberValue x.value)
    | _ => none

/-- The loop of `parse`, up to a number of rounds. -/
def parseLoop (rd : Reader Token Symbol Value) :
    ℕ → State Token → Except (Stop String) (List Statement)
  | 0, _ => .error .endless
  | n + 1, s =>
    match s.rest with
    | [] => .ok []
    | t :: rest =>
      -- comments are skipped between statements, and only there
      if t.symbol = none then parseLoop rd n ⟨some t, rest⟩
      else
        match exec rd parser .statement s with
        | .error e => .error e
        | .ok (statement, s) =>
          match s.rest with
          | [] => .ok [statement]
          | u :: rest =>
            if u.symbol.map Symbol.tokenType = some (.mark .semicolon) then
              (parseLoop rd n ⟨some u, rest⟩).map (statement :: ·)
            else .error (.error s!"Expected semicolon at line {u.line}, column {u.column}")

/-- Parse tokens into statements. The last token is the end token. -/
def parse (tokens : List Token) : Except (Stop String) (List Statement) :=
  match tokens.getLast? with
  | none => .ok []
  | some eof => parseLoop (reader eof) (tokens.length + 1) ⟨none, tokens.dropLast⟩

/-- Parse SQL string into AST -/
def parseSql (sql : Text) : Except (Stop String) (List Statement) :=
  (Lexer.new sql).tokenize.bind parse

end Rustgresql.Sql
