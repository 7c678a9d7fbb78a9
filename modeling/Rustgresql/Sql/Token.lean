import Mathlib

/-!
# Tokens

Texts are lists of characters. The character tables of the standard library are a parameter: only
what they say about ASCII and about white space matters here.
-/

namespace Rustgresql.Sql

abbrev Text := List Char

/-- `char::is_whitespace`. -/
def isWhitespace (c : Char) : Bool :=
  (9 ≤ c.val && c.val ≤ 13) || c.val == 0x20 || c.val == 0x85 || c.val == 0xa0 || c.val == 0x1680 ||
    (0x2000 ≤ c.val && c.val ≤ 0x200a) || c.val == 0x2028 || c.val == 0x2029 || c.val == 0x202f ||
    c.val == 0x205f || c.val == 0x3000

/-- The tables behind `char::is_alphabetic`, `char::is_numeric` and `str::to_uppercase`. -/
class Unicode where
  isAlphabetic : Char → Bool
  isNumeric : Char → Bool
  toUppercase : Char → Text
  isAlphabetic_ascii : ∀ c : Char, c.val < 128 → isAlphabetic c = c.isAlpha
  isNumeric_ascii : ∀ c : Char, c.val < 128 → isNumeric c = c.isDigit
  toUppercase_ascii : ∀ c : Char, c.val < 128 → toUppercase c = [c.toUpper]
  isAlphabetic_whitespace : ∀ c : Char, isWhitespace c → isAlphabetic c = false
  isNumeric_whitespace : ∀ c : Char, isWhitespace c → isNumeric c = false

theorem isWhitespace_not_alphanum {c : Char} (h : isWhitespace c) : c.isAlphanum = false := by
  simp only [isWhitespace, Bool.or_eq_true, Bool.and_eq_true, decide_eq_true_eq, beq_iff_eq,
    ← UInt32.toNat_inj, UInt32.le_iff_toNat_le] at h
  simp only [Char.isAlphanum, Char.isAlpha, Char.isUpper, Char.isLower, Char.isDigit,
    UInt32.le_iff_toNat_le, Bool.or_eq_false_iff, Bool.and_eq_false_iff, decide_eq_false_iff_not,
    UInt32.reduceToNat, ge_iff_le] at h ⊢
  have hA : 'A'.val.toNat = 65 := rfl
  have hZ : 'Z'.val.toNat = 90 := rfl
  have ha : 'a'.val.toNat = 97 := rfl
  have hz : 'z'.val.toNat = 122 := rfl
  have h0 : '0'.val.toNat = 48 := rfl
  have h9 : '9'.val.toNat = 57 := rfl
  omega

/-- Tables that know no letters and digits but those of ASCII. -/
abbrev Unicode.ascii : Unicode where
  isAlphabetic := Char.isAlpha
  isNumeric := Char.isDigit
  toUppercase c := [c.toUpper]
  isAlphabetic_ascii _ _ := rfl
  isNumeric_ascii _ _ := rfl
  toUppercase_ascii _ _ := rfl
  isAlphabetic_whitespace c hc := by
    have := isWhitespace_not_alphanum hc
    simp_all [Char.isAlphanum]
  isNumeric_whitespace c hc := by
    have := isWhitespace_not_alphanum hc
    simp_all [Char.isAlphanum]

export Unicode (isAlphabetic isNumeric)

/-- `char::is_alphanumeric`. -/
def isAlphanumeric [Unicode] (c : Char) : Bool := isAlphabetic c || isNumeric c

/-- `str::to_uppercase`. -/
def Text.toUppercase [Unicode] (t : Text) : Text := t.flatMap Unicode.toUppercase

inductive Keyword
  | select | insert | update | delete | create | table | index | «from» | «where» | into | values
  | primary | key | not | null | and | or | order | «by» | group | having | join | inner | left
  | right | full | outer | cross | anti | semi | on | «as» | distinct | count | sum | avg | min
  | max | set | drop | alter | references | «if» | «exists» | default | check | constraint
  | foreign | add | column | rename | to | union | intersect | except | all | unique | over
  | partition | window | rows | range | between | unbounded | preceding | following | current
  | «with» | recursive | view | materialized | refresh | concurrently | cascade | data | serial
  | bigSerial | cast | rowNumber | rank | denseRank | lag | lead | firstValue | lastValue | ntile
  | asc | desc | nulls | first | last | true | false | procedure | function | language | begin
  | «end» | commit | rollback | declare | loop | while | «for» | «then» | «else» | case | when
  | «return» | exit | «continue» | perform | raise | exception | replace | definer | of | call
  | security | like | iLike | «in» | is
  deriving DecidableEq

/-- Operators and punctuation. -/
inductive Mark
  | equals | notEquals | lessThan | lessThanOrEquals | greaterThan | greaterThanOrEquals | plus
  | minus | divide | concatenate | leftParen | rightParen | leftBracket | rightBracket | comma
  | semicolon | dot | asterisk
  deriving DecidableEq

inductive TokenType
  | keyword (k : Keyword)
  | mark (m : Mark)
  | identifier (name : Text)
  | string (value : Text)
  | quotedIdentifier (name : Text)
  | number (value : Text)
  | whitespace
  | comment (text : Text)
  | eof
  deriving DecidableEq

/-- Token with position information -/
structure Token where
  tokenType : TokenType
  line : ℕ
  column : ℕ
  value : Text
  deriving DecidableEq

/-- The words that the lexer knows. -/
def Keyword.words : List (Text × Keyword) :=
  [(['S', 'E', 'L', 'E', 'C', 'T'], .select), (['I', 'N', 'S', 'E', 'R', 'T'], .insert),
   (['U', 'P', 'D', 'A', 'T', 'E'], .update), (['D', 'E', 'L', 'E', 'T', 'E'], .delete),
   (['C', 'R', 'E', 'A', 'T', 'E'], .create), (['T', 'A', 'B', 'L', 'E'], .table),
   (['I', 'N', 'D', 'E', 'X'], .index), (['F', 'R', 'O', 'M'], .«from»),
   (['W', 'H', 'E', 'R', 'E'], .«where»), (['I', 'N', 'T', 'O'], .into),
   (['V', 'A', 'L', 'U', 'E', 'S'], .values), (['P', 'R', 'I', 'M', 'A', 'R', 'Y'], .primary),
   (['K', 'E', 'Y'], .key), (['N', 'O', 'T'], .not), (['N', 'U', 'L', 'L'], .null),
   (['A', 'N', 'D'], .and), (['O', 'R'], .or), (['O', 'R', 'D', 'E', 'R'], .order),
   (['B', 'Y'], .«by»), (['G', 'R', 'O', 'U', 'P'], .group),
   (['H', 'A', 'V', 'I', 'N', 'G'], .having), (['J', 'O', 'I', 'N'], .join),
   (['I', 'N', 'N', 'E', 'R'], .inner), (['L', 'E', 'F', 'T'], .left),
   (['R', 'I', 'G', 'H', 'T'], .right), (['F', 'U', 'L', 'L'], .full),
   (['O', 'U', 'T', 'E', 'R'], .outer), (['C', 'R', 'O', 'S', 'S'], .cross),
   (['A', 'N', 'T', 'I'], .anti), (['S', 'E', 'M', 'I'], .semi), (['O', 'N'], .on),
   (['A', 'S'], .«as»), (['D', 'I', 'S', 'T', 'I', 'N', 'C', 'T'], .distinct),
   (['C', 'O', 'U', 'N', 'T'], .count), (['S', 'U', 'M'], .sum), (['A', 'V', 'G'], .avg),
   (['M', 'I', 'N'], .min), (['M', 'A', 'X'], .max), (['L', 'I', 'K', 'E'], .like),
   (['I', 'L', 'I', 'K', 'E'], .iLike), (['I', 'N'], .«in»), (['I', 'S'], .is),
   (['S', 'E', 'T'], .set), (['D', 'R', 'O', 'P'], .drop), (['A', 'L', 'T', 'E', 'R'], .alter),
   (['R', 'E', 'F', 'E', 'R', 'E', 'N', 'C', 'E', 'S'], .references), (['I', 'F'], .«if»),
   (['E', 'X', 'I', 'S', 'T', 'S'], .«exists»), (['D', 'E', 'F', 'A', 'U', 'L', 'T'], .default),
   (['C', 'H', 'E', 'C', 'K'], .check),
   (['C', 'O', 'N', 'S', 'T', 'R', 'A', 'I', 'N', 'T'], .constraint),
   (['F', 'O', 'R', 'E', 'I', 'G', 'N'], .foreign), (['A', 'D', 'D'], .add),
   (['C', 'O', 'L', 'U', 'M', 'N'], .column), (['R', 'E', 'N', 'A', 'M', 'E'], .rename),
   (['T', 'O'], .to), (['U', 'N', 'I', 'O', 'N'], .union),
   (['I', 'N', 'T', 'E', 'R', 'S', 'E', 'C', 'T'], .intersect),
   (['E', 'X', 'C', 'E', 'P', 'T'], .except), (['A', 'L', 'L'], .all),
   (['U', 'N', 'I', 'Q', 'U', 'E'], .unique), (['O', 'V', 'E', 'R'], .over),
   (['P', 'A', 'R', 'T', 'I', 'T', 'I', 'O', 'N'], .partition),
   (['W', 'I', 'N', 'D', 'O', 'W'], .window), (['R', 'O', 'W', 'S'], .rows),
   (['R', 'A', 'N', 'G', 'E'], .range), (['B', 'E', 'T', 'W', 'E', 'E', 'N'], .between),
   (['U', 'N', 'B', 'O', 'U', 'N', 'D', 'E', 'D'], .unbounded),
   (['P', 'R', 'E', 'C', 'E', 'D', 'I', 'N', 'G'], .preceding),
   (['F', 'O', 'L', 'L', 'O', 'W', 'I', 'N', 'G'], .following),
   (['C', 'U', 'R', 'R', 'E', 'N', 'T'], .current), (['W', 'I', 'T', 'H'], .«with»),
   (['R', 'E', 'C', 'U', 'R', 'S', 'I', 'V', 'E'], .recursive), (['V', 'I', 'E', 'W'], .view),
   (['M', 'A', 'T', 'E', 'R', 'I', 'A', 'L', 'I', 'Z', 'E', 'D'], .materialized),
   (['R', 'E', 'F', 'R', 'E', 'S', 'H'], .refresh),
   (['C', 'O', 'N', 'C', 'U', 'R', 'R', 'E', 'N', 'T', 'L', 'Y'], .concurrently),
   (['C', 'A', 'S', 'C', 'A', 'D', 'E'], .cascade), (['D', 'A', 'T', 'A'], .data),
   (['S', 'E', 'R', 'I', 'A', 'L'], .serial),
   (['B', 'I', 'G', 'S', 'E', 'R', 'I', 'A', 'L'], .bigSerial), (['C', 'A', 'S', 'T'], .cast),
   (['R', 'O', 'W', '_', 'N', 'U', 'M', 'B', 'E', 'R'], .rowNumber), (['R', 'A', 'N', 'K'], .rank),
   (['D', 'E', 'N', 'S', 'E', '_', 'R', 'A', 'N', 'K'], .denseRank), (['L', 'A', 'G'], .lag),
   (['L', 'E', 'A', 'D'], .lead),
   (['F', 'I', 'R', 'S', 'T', '_', 'V', 'A', 'L', 'U', 'E'], .firstValue),
   (['L', 'A', 'S', 'T', '_', 'V', 'A', 'L', 'U', 'E'], .lastValue),
   (['N', 'T', 'I', 'L', 'E'], .ntile), (['A', 'S', 'C'], .asc), (['D', 'E', 'S', 'C'], .desc),
   (['N', 'U', 'L', 'L', 'S'], .nulls), (['F', 'I', 'R', 'S', 'T'], .first),
   (['L', 'A', 'S', 'T'], .last), (['T', 'R', 'U', 'E'], .true),
   (['F', 'A', 'L', 'S', 'E'], .false),
   (['P', 'R', 'O', 'C', 'E', 'D', 'U', 'R', 'E'], .procedure),
   (['F', 'U', 'N', 'C', 'T', 'I', 'O', 'N'], .function),
   (['L', 'A', 'N', 'G', 'U', 'A', 'G', 'E'], .language), (['B', 'E', 'G', 'I', 'N'], .begin),
   (['E', 'N', 'D'], .«end»), (['C', 'O', 'M', 'M', 'I', 'T'], .commit),
   (['R', 'O', 'L', 'L', 'B', 'A', 'C', 'K'], .rollback),
   (['D', 'E', 'C', 'L', 'A', 'R', 'E'], .declare), (['L', 'O', 'O', 'P'], .loop),
   (['W', 'H', 'I', 'L', 'E'], .while), (['F', 'O', 'R'], .«for»), (['T', 'H', 'E', 'N'], .«then»),
   (['E', 'L', 'S', 'E'], .«else»), (['C', 'A', 'S', 'E'], .case), (['W', 'H', 'E', 'N'], .when),
   (['R', 'E', 'T', 'U', 'R', 'N'], .«return»), (['E', 'X', 'I', 'T'], .exit),
   (['C', 'O', 'N', 'T', 'I', 'N', 'U', 'E'], .«continue»),
   (['P', 'E', 'R', 'F', 'O', 'R', 'M'], .perform), (['R', 'A', 'I', 'S', 'E'], .raise),
   (['E', 'X', 'C', 'E', 'P', 'T', 'I', 'O', 'N'], .exception),
   (['R', 'E', 'P', 'L', 'A', 'C', 'E'], .replace),
   (['D', 'E', 'F', 'I', 'N', 'E', 'R'], .definer), (['O', 'F'], .of),
   (['C', 'A', 'L', 'L'], .call), (['S', 'E', 'C', 'U', 'R', 'I', 'T', 'Y'], .security)]

/-- The keyword for an upper-case word. -/
def Keyword.ofText (t : Text) : Option Keyword :=
  (Keyword.words.find? fun e => e.1 = t).map Prod.snd

def Keyword.text (k : Keyword) : Text :=
  ((Keyword.words.find? fun e => e.2 = k).map Prod.fst).getD []

/-- Window functions are keywords only before an opening parenthesis. -/
def Keyword.isWindowFunction (k : Keyword) : Bool :=
  k ∈ [.rowNumber, .rank, .denseRank, .lag, .lead, .firstValue, .lastValue, .ntile]

/-- Check if token is a keyword -/
def TokenType.isKeyword : TokenType → Bool
  | .keyword k => k ∉
    [.full, .cross, .anti, .semi, .constraint, .foreign, .add, .column, .rename, .to, .union,
     .intersect, .except, .all, .over, .partition, .window, .rows, .range, .between, .unbounded,
     .preceding, .following, .current, .true, .false, .like, .iLike, .«in», .is]
  | _ => false

def Mark.text : Mark → Text
  | .equals => ['=']
  | .notEquals => ['!', '=']
  | .lessThan => ['<']
  | .lessThanOrEquals => ['<', '=']
  | .greaterThan => ['>']
  | .greaterThanOrEquals => ['>', '=']
  | .plus => ['+']
  | .minus => ['-']
  | .divide => ['/']
  | .concatenate => ['|', '|']
  | .leftParen => ['(']
  | .rightParen => [')']
  | .leftBracket => ['[']
  | .rightBracket => [']']
  | .comma => [',']
  | .semicolon => [';']
  | .dot => ['.']
  | .asterisk => ['*']

@[simp] theorem Keyword.ofText_text (k : Keyword) : Keyword.ofText k.text = some k := by
  cases k <;> decide +kernel

end Rustgresql.Sql
