import Rustgresql.Lib.TokenProgram
import Rustgresql.Sql.Token

/-!
# SQL lexer

Tokenizes SQL input into meaningful tokens for parsing. `scan` is what one round of `tokenize` reads,
as a function of the characters ahead; positions do not matter to it.
-/

namespace Rustgresql.Sql

open TokenProgram (Stop)

/-- SQL lexer: the characters before the position, last first, and the characters behind it. -/
structure Lexer where
  consumed : Text
  rest : Text
  line : ℕ
  column : ℕ
  tokens : List Token

/-- The value of a text in quotes, from behind the opening quote on, and the number of characters up
to its end. A doubled quote is a quote. -/
def quoted (quote : Char) : Text → Text × ℕ
  | [] => ([], 0)
  | [c] => if c = quote then ([], 1) else ([c], 1)
  | c :: d :: l =>
    if c = quote then
      if d = quote then
        let r := quoted quote l
        (quote :: r.1, r.2 + 2)
      else ([], 1)
    else
      let r := quoted quote (d :: l)
      (c :: r.1, r.2 + 1)

/-- The value of a dollar-quoted text, from behind the opening `$$` on, and the number of characters
up to its end. -/
def dollarQuoted : Text → Text × ℕ
  | [] => ([], 0)
  | [c] => ([c], 1)
  | c :: d :: l =>
    if c = '$' ∧ d = '$' then ([], 2)
    else
      let r := dollarQuoted (d :: l)
      (c :: r.1, r.2 + 1)

/-- Operators of two characters. -/
def doubleMark (c next : Char) : Option Mark :=
  if c = '!' ∧ next = '=' then some .notEquals
  else if c = '<' ∧ next = '=' then some .lessThanOrEquals
  else if c = '<' ∧ next = '>' then some .notEquals
  else if c = '>' ∧ next = '=' then some .greaterThanOrEquals
  else if c = '|' ∧ next = '|' then some .concatenate
  else none

/-- Operators and punctuation of one character. -/
def singleMarks : List (Char × Mark) :=
  [('=', .equals), ('+', .plus), ('-', .minus), ('/', .divide), ('<', .lessThan),
   ('>', .greaterThan), ('(', .leftParen), (')', .rightParen), ('[', .leftBracket),
   (']', .rightBracket), (',', .comma), (';', .semicolon), ('.', .dot), ('*', .asterisk)]

/-- The operator or punctuation at a character, given the next one, and its length. -/
def markAt (c : Char) (next : Option Char) : Option (Mark × ℕ) :=
  match next.bind (doubleMark c) with
  | some m => some (m, 2)
  | none => (singleMarks.find? fun e => e.1 = c).map fun e => (e.2, 1)

section Scanners

variable [Unicode]

def isWordChar (c : Char) : Bool := isAlphanumeric c || c == '_'

/-- The decimal part of a number. -/
def decimalPart : Text → Text
  | '.' :: l => '.' :: l.takeWhile isNumeric
  | _ => []

/-- The sign of an exponent. -/
def exponentSign (l : Text) : Text := (l.take 1).filter fun d => d = '+' ∨ d = '-'

/-- The exponent part of a number. -/
def exponentPart : Text → Text
  | [] => []
  | c :: l =>
    if c = 'e' ∨ c = 'E' then
      let sign := exponentSign l
      c :: sign ++ (l.drop sign.length).takeWhile isNumeric
    else []

/-- The number at the beginning of a text. -/
def numberText (l : Text) : Text :=
  let int := l.takeWhile isNumeric
  let l := l.dropWhile isNumeric
  let decimal := decimalPart l
  int ++ decimal ++ exponentPart (l.drop decimal.length)

/-- The token type of a word. -/
def wordType (word : Text) (followedByParen : Bool) : TokenType :=
  match Keyword.ofText word.toUppercase with
  | some k => if k.isWindowFunction && !followedByParen then .identifier word else .keyword k
  | none => .identifier word

end Scanners

namespace Lexer

/-- Create a new lexer for the given input -/
def new (input : Text) : Lexer := ⟨[], input, 1, 1, []⟩

/-- Advance position by n characters -/
def advance : ℕ → Lexer → Lexer
  | 0, s => s
  | n + 1, s =>
    match s.rest with
    | [] => s
    | c :: rest =>
      advance n { s with
        consumed := c :: s.consumed
        rest := rest
        line := if c = '\n' then s.line + 1 else s.line
        column := if c = '\n' then 1 else s.column + 1 }

/-- Peek at the next character without consuming -/
def peekChar (s : Lexer) : Option Char := s.rest.tail.head?

def push (s : Lexer) (t : Token) : Lexer := { s with tokens := s.tokens ++ [t] }

/-- Consume whitespace -/
def consumeWhitespace (s : Lexer) : Lexer := s.advance (s.rest.takeWhile isWhitespace).length

/-- Consume line comment (--) -/
def consumeLineComment (s : Lexer) : Except (Stop String) Lexer :=
  let s := s.advance 2
  let startLine := s.line
  let s := s.advance (s.rest.takeWhile (· ≠ '\n')).length
  -- the slice starts at `position - (column - 1)`
  if s.column - 1 ≤ s.consumed.length then
    let comment := (s.consumed.take (s.column - 1)).reverse
    .ok (s.push ⟨.comment comment, startLine, 1, comment⟩)
  else .error .panic

/-- Consume string literal -/
def consumeString (s : Lexer) : Except (Stop String) Lexer :=
  let s := s.advance 1
  let startLine := s.line
  let startColumn := s.column
  let r := quoted '\'' s.rest
  let s := s.advance r.2
  if s.rest = [] then
    .error (.error s!"Unterminated string starting at line {startLine}, column {startColumn}")
  else .ok (s.push ⟨.string r.1, startLine, startColumn, r.1⟩)

/-- Consume double-quoted identifier -/
def consumeQuotedIdentifier (s : Lexer) : Except (Stop String) Lexer :=
  let s := s.advance 1
  let startLine := s.line
  let startColumn := s.column
  let r := quoted '"' s.rest
  let s := s.advance r.2
  if s.rest = [] then
    .error (.error
      s!"Unterminated quoted identifier starting at line {startLine}, column {startColumn}")
  else .ok (s.push ⟨.quotedIdentifier r.1, startLine, startColumn, r.1⟩)

/-- Consume dollar-quoted string -/
def consumeDollarQuotedString (s : Lexer) : Except (Stop String) Lexer :=
  let startLine := s.line
  let startColumn := s.column
  let s := s.advance 2
  let r := dollarQuoted s.rest
  let s := s.advance r.2
  if s.rest = [] ∧ s.consumed.take 2 ≠ ['$', '$'] then
    .error (.error
      s!"Unterminated dollar-quoted string starting at line {startLine}, column {startColumn}")
  else .ok (s.push ⟨.string r.1, startLine, startColumn, r.1⟩)

/-- Add a simple token -/
def addToken (tokenType : TokenType) (length : ℕ) (s : Lexer) : Except (Stop String) Lexer :=
  if length ≤ s.rest.length then
    .ok ((s.advance length).push ⟨tokenType, s.line, s.column, s.rest.take length⟩)
  else .error .panic

section Tokenize

variable [Unicode]

/-- Consume identifier or keyword -/
def consumeIdentifierOrKeyword (s : Lexer) : Lexer :=
  let identifier := s.rest.takeWhile isWordChar
  let s' := s.advance identifier.length
  let isFollowedByParen := (s'.rest.dropWhile isWhitespace).head? == some '('
  s'.push ⟨wordType identifier isFollowedByParen, s.line, s.column, identifier⟩

/-- Consume number -/
def consumeNumber (s : Lexer) : Lexer :=
  let number := numberText s.rest
  (s.advance number.length).push ⟨.number number, s.line, s.column, number⟩

/-- One round of `tokenize`, at the current character `c`. -/
def tokenizeRound (c : Char) (s : Lexer) : Except (Stop String) Lexer :=
  if isWhitespace c then .ok s.consumeWhitespace
  else if c = '-' ∧ s.peekChar = some '-' then s.consumeLineComment
  else if c = '$' ∧ s.peekChar = some '$' then s.consumeDollarQuotedString
  else if c = '\'' then s.consumeString
  else if c = '"' then s.consumeQuotedIdentifier
  else if isAlphabetic c ∨ c = '_' then .ok s.consumeIdentifierOrKeyword
  else if isNumeric c then .ok s.consumeNumber
  else
    match markAt c s.peekChar with
    | some (m, length) => s.addToken (.mark m) length
    | none => .error (.error s!"Unexpected character '{c}' at line {s.line}, column {s.column}")

/-- The loop of `tokenize`, up to a number of rounds. -/
def tokenizeLoop : ℕ → Lexer → Except (Stop String) Lexer
  | 0, _ => .error .endless
  | n + 1, s =>
    match s.rest with
    | [] => .ok s
    | c :: _ => (s.tokenizeRound c).bind (tokenizeLoop n)

/-- Tokenize the input into tokens -/
def tokenize (s : Lexer) : Except (Stop String) (List Token) :=
  (tokenizeLoop (s.rest.length + 1) s).map fun s => s.tokens ++ [⟨.eof, s.line, s.column, []⟩]

end Tokenize

end Lexer

end Rustgresql.Sql
