import Rustgresql.Sql.Ast
import Rustgresql.Sql.Scan

/-!
# SQL parser: tokens

The parser is a family of programs over the symbols of tokens. A `Call` is a point where the source
calls a function again, or goes once more through a loop; everything else is one program after another.
-/

namespace Rustgresql.Sql

open TokenProgram (Prog)

/-- The standard library, as far as the parser depends on it. -/
class Std extends Unicode where
  /-- `f64::to_string`. -/
  floatToString : Float → Text

/-- A library for ASCII. -/
abbrev Std.ascii : Std where
  toUnicode := Unicode.ascii
  floatToString f := f.toString.toList

/-! ## Numbers -/

/-- `str::parse::<i64>` on a text without a sign, behind digits that make up `acc`. -/
def parseDigits (acc : ℕ) : Text → Except String ℕ
  | [] => .ok acc
  | c :: t =>
    if c.isDigit then
      let n := 10 * acc + (c.toNat - '0'.toNat)
      if n < 2 ^ 63 then parseDigits n t else .error "number too large to fit in target type"
    else .error "invalid digit found in string"

/-- `str::parse::<i64>` on the text of a number token. -/
def parseI64 (t : Text) : Except String ℤ :=
  if t = [] then .error "cannot parse integer from empty string"
  else (parseDigits 0 t).map Int.ofNat

/-- The decimal digits of a text, as a number. -/
def digitsValue (t : Text) : ℕ := t.foldl (fun n c => 10 * n + (c.toNat - '0'.toNat)) 0

/-- `str::parse::<f64>` on the text of a number token: digits with at most one point among them, and
an exponent with at least one digit. -/
def parseF64 (t : Text) : Option Float :=
  let isExponent := fun c : Char => c = 'e' ∨ c = 'E'
  let mantissa := t.takeWhile fun c => ¬ isExponent c
  let int := mantissa.takeWhile (· ≠ '.')
  let decimal := (mantissa.dropWhile (· ≠ '.')).drop 1
  let exponent := t.dropWhile fun c => ¬ isExponent c
  let negative := exponent.drop 1 |>.head? |>.any (· = '-')
  let digits := if negative ∨ (exponent.drop 1).head? = some '+' then exponent.drop 2 else exponent.drop 1
  if (int ++ decimal).all Char.isDigit ∧ int ++ decimal ≠ [] ∧ digits.all Char.isDigit ∧
      (exponent = [] ∨ digits ≠ []) then
    let e : ℤ := (if negative then -1 else 1) * digitsValue digits - decimal.length
    some (Float.ofScientific (digitsValue (int ++ decimal)) (e < 0) e.natAbs)
  else none

/-- The value of a numeric literal in an expression; `none` where `parse().unwrap()` panics. -/
def numberValue (t : Text) : Option Value :=
  if '.' ∈ t then (parseF64 t).map .float else (parseI64 t).toOption.map .integer

/-! ## Calls -/

/-- The precedence levels of expressions. -/
inductive Level
  | or | and | not | comparison | additive | multiplicative | unary
  deriving DecidableEq

/-- What stands in lists with commas. -/
inductive Item
  | expression | additive | identifier | column | tableRef | orderBy | namedWindow | cte
  | assignment | row | tableElement | procedureParameter | declaration
  deriving DecidableEq

abbrev Item.Result : Item → Type
  | expression => Expression
  | additive => Expression
  | identifier => Text
  | column => ColumnSpec Expression
  | tableRef => TableRef Statement
  | orderBy => OrderBy Expression
  | namedWindow => NamedWindow Expression
  | cte => CommonTableExpression SelectStatement
  | assignment => Text × Expression
  | row => List Expression
  | tableElement => ColumnDef Expression ⊕ TableConstraint Expression
  | procedureParameter => ProcedureParameter Expression
  | declaration => Declaration Expression

inductive Call
  | expression (l : Level)
  /-- The loop of a level, behind what it has read. -/
  | operators (l : Level) (left : Expression)
  | whenBranches
  | statement
  | selectAfterSelect (stopAtParen : Bool)
  | setOperations (left : SelectStatement)
  | joins
  | more (i : Item)
  | arraySuffix (element : DataTypeKind)
  | columnConstraints
  | blockStatements
  | handlers
  | exceptionNames
  | handlerStatements

abbrev Call.Result : Call → Type
  | expression _ => Expression
  | operators _ _ => Expression
  | whenBranches => List (CaseBranch Expression)
  | statement => Statement
  | selectAfterSelect _ => SelectStatement
  | setOperations _ => SelectStatement
  | joins => List (JoinCondition Expression Statement)
  | more i => List i.Result
  | arraySuffix _ => DataTypeKind
  | columnConstraints => List (ColumnConstraint Expression)
  | blockStatements => List Statement × Option (ExceptionHandler Statement)
  | handlers => List (ExceptionCondition × List Statement)
  | exceptionNames => List Text
  | handlerStatements => List Statement

abbrev Parse := Prog Symbol Value String Token Call Call.Result

def call (c : Call) : Parse c.Result := .call c .done

/-! ## Tokens -/

/-- The type of the next token; `none` at the end and at a comment. -/
def peekType : Parse (Option TokenType) := .look fun x => .done (x.map Symbol.tokenType)

def isAtEnd : Parse Bool := .atEnd .done

/-- A message with the position of the next token. -/
def fail {α : Type} (message : String) : Parse α :=
  .fail fun t => s!"{message} at line {t.line}, column {t.column}"

/-- A message with the value and the position of the next token. -/
def failAtValue {α : Type} (message : String) : Parse α :=
  .fail fun t => s!"{message} '{String.ofList t.value}' at line {t.line}, column {t.column}"

/-- A message with the value of the next token. -/
def failValue {α : Type} (message : String) : Parse α :=
  .fail fun t => s!"{message} '{String.ofList t.value}'"

/-- A message without a position. -/
def failPlain {α : Type} (message : String) : Parse α := .fail fun _ => message

/-- Consume specific token -/
def consumeToken (tokenType : TokenType) (message : String) : Parse Unit :=
  .take (fun x => x.tokenType = tokenType) (fun _ => .done ()) (fail message)

def consumeKeyword (k : Keyword) (message : String) : Parse Unit := consumeToken (.keyword k) message

def consumeMark (m : Mark) (message : String) : Parse Unit := consumeToken (.mark m) message

/-- Check if current token matches type -/
def matchToken (tokenType : TokenType) : Parse Bool :=
  .take (fun x => x.tokenType = tokenType) (fun _ => .done true) (.done false)

def matchKeyword (k : Keyword) : Parse Bool := matchToken (.keyword k)

def matchMark (m : Mark) : Parse Bool := matchToken (.mark m)

/-- The name in an identifier token. -/
def TokenType.identifierName : TokenType → Option Text
  | .identifier name => some name
  | .quotedIdentifier name => some name
  | _ => none

/-- What `consume_identifier` makes of a token: every keyword is an identifier too. -/
def Symbol.identifier (x : Symbol) : Option Text :=
  match x.tokenType with
  | .identifier name => some name
  | .quotedIdentifier name => some name
  | .string name => some name
  | .keyword _ => some x.value
  | _ => none

/-- Consume identifier -/
def consumeIdentifier : Parse Text :=
  .take (fun x => x.identifier.isSome) (fun x => .done (x.identifier.getD [])) (fail "Expected identifier")

/-- Check if current token matches identifier -/
def matchIdentifierToken [Unicode] (identifier : Text) : Parse Bool :=
  .take (fun x => x.tokenType.identifierName.any fun name => name.toUppercase = identifier)
    (fun _ => .done true) (.done false)

/-- The next token if it is an identifier. -/
def matchName : Parse (Option Text) :=
  .take (fun x => x.tokenType.identifierName.isSome) (fun x => .done x.tokenType.identifierName)
    (.done none)

def isNumberToken : TokenType → Bool
  | .number _ => true
  | _ => false

/-- Parse number as i64 -/
def parseNumber : Parse ℤ :=
  .take (fun x => isNumberToken x.tokenType)
    (fun x =>
      match parseI64 x.value with
      | .ok i => .done i
      | .error e => failPlain s!"Invalid number '{String.ofList x.value}': {e}")
    (fail "Expected number")

/-- A name behind a table or a column, with or without AS. -/
def parseAlias : Parse (Option Text) := do
  if ← matchKeyword .«as» then return some (← consumeIdentifier)
  match ← peekType with
  | some t =>
    if t.identifierName.isSome ∧ ¬ t.isKeyword then return some (← consumeIdentifier)
    else return none
  | none => return none

end Rustgresql.Sql
