import Rustgresql.Catalog.Table
import Rustgresql.Lib.PrefixCode
import Rustgresql.Sql.Token

/-!
# Data type definitions (`types/data_type.rs`)

Types have names, and a type is parsed from its name. `parseDataType_typeName_iff`: the name of a type denotes the
type, unless it is `DECIMAL(p, s)` or an array of those, which the parser does not know, or an array of arrays.
-/

namespace Rustgresql

open Sql (Text isWhitespace)

/-- `str::to_lowercase` -/
class LowerCase where
  toLowercase : Text → Text
  toLowercase_ascii : ∀ t : Text, (∀ c ∈ t, c.val < 128) → toLowercase t = t.map Char.toLower

/-- A library for ASCII. -/
abbrev LowerCase.ascii : LowerCase where
  toLowercase t := t.map Char.toLower
  toLowercase_ascii _ _ := rfl

/-- `str::trim` -/
def trim (t : Text) : Text := ((t.dropWhile isWhitespace).reverse.dropWhile isWhitespace).reverse

/-- `str::parse::<usize>` -/
def parseUsize (t : Text) : Option ℕ :=
  let digits := if t.head? = some '+' then t.drop 1 else t
  if digits = [] ∨ ¬ digits.all Char.isDigit then none
  else if Nat.ofDigitChars 10 digits 0 < 2 ^ 64 then some (Nat.ofDigitChars 10 digits 0)
  else none

/-- Data type with nullability and other constraints -/
structure DataType where
  kind : DataTypeKind
  nullable : Bool
  hasDefault : Bool
  defaultValue : Option String
  collation : Option String
  deriving DecidableEq

namespace DataType

/-- Create a new data type -/
def new (kind : DataTypeKind) : DataType where
  kind
  nullable := true
  hasDefault := false
  defaultValue := none
  collation := none

/-- Get type name for SQL -/
@[grind =]
def kindName : DataTypeKind → String
  | .smallInt => "smallint"
  | .integer => "integer"
  | .bigInt => "bigint"
  | .real => "real"
  | .doublePrecision => "double precision"
  | .numeric p s => s!"numeric({p}, {s})"
  | .decimal p s => s!"decimal({p}, {s})"
  | .char n => s!"char({n})"
  | .varchar n => s!"varchar({n})"
  | .text => "text"
  | .bytea => "bytea"
  | .date => "date"
  | .time => "time"
  | .timeWithTimeZone => "time with time zone"
  | .timestamp => "timestamp"
  | .timestampWithTimeZone => "timestamp with time zone"
  | .interval => "interval"
  | .boolean => "boolean"
  | .inet => "inet"
  | .cidr => "cidr"
  | .macAddr => "macaddr"
  | .macAddr8 => "macaddr8"
  | .uuid => "uuid"
  | .json => "json"
  | .jsonB => "jsonb"
  | .array elementType => s!"{kindName elementType}[]"
  | .serial => "serial"
  | .bigSerial => "bigserial"

def typeName (d : DataType) : String := kindName d.kind

/-! ## Parsing -/

/-- The types that a name alone denotes -/
def plainTypes : List (List String × DataTypeKind) :=
  [(["smallint", "int2"], .smallInt), (["integer", "int", "int4"], .integer), (["bigint", "int8"], .bigInt),
   (["real", "float4"], .real), (["double precision", "float8"], .doublePrecision), (["boolean", "bool"], .boolean),
   (["text"], .text), (["bytea"], .bytea), (["date"], .date), (["time"], .time),
   (["time with time zone", "timetz"], .timeWithTimeZone), (["timestamp"], .timestamp),
   (["timestamp with time zone", "timestamptz"], .timestampWithTimeZone), (["interval"], .interval), (["uuid"], .uuid),
   (["json"], .json), (["jsonb"], .jsonB), (["serial"], .serial), (["bigserial"], .bigSerial), (["inet"], .inet),
   (["cidr"], .cidr), (["macaddr"], .macAddr), (["macaddr8"], .macAddr8)]

def parseError {α : Type} (message : String) : Result α := .error (.err (.parse message))

/-- What stands between the first parentheses. -/
def parameters (unclosed invalid : String) (base : Text) : Result Text :=
  match base.findIdx? (· = '('), base.findIdx? (· = ')') with
  | some start, some stop =>
    if start + 1 ≤ stop then .ok ((base.take stop).drop (start + 1))
    else .error (.panic "slice index starts after its end")
  | some _, none => parseError unclosed
  | none, _ => parseError invalid

/-- A type with a length in parentheses -/
def parseLength (name : String) (kind : ℕ → DataTypeKind) (base : Text) : Result DataType := do
  let lenStr ← parameters s!"Unclosed {name} parenthesis" s!"Invalid {name} syntax" base
  match parseUsize lenStr with
  | some len => return new (kind len)
  | none => parseError s!"Invalid {name} length: {String.ofList lenStr}"

/-- Parse numeric(precision, scale) -/
def parseNumeric (base : Text) : Result DataType := do
  let params ← parameters "Unclosed numeric parenthesis" "Invalid numeric syntax" base
  match params.splitOn ',' with
  | [p, s] =>
    match parseUsize (trim p), parseUsize (trim s) with
    | some precision, some scale => return new (.numeric precision scale)
    | _, _ => parseError s!"Invalid numeric parameters: {String.ofList params}"
  | _ => parseError "Numeric requires precision and scale"

/-- Parse the base type -/
def parseBaseType (base : Text) : Result DataType :=
  match plainTypes.find? fun e => String.ofList base ∈ e.1 with
  | some (_, kind) => .ok (new kind)
  | none =>
    if ['v', 'a', 'r', 'c', 'h', 'a', 'r', '('].isPrefixOf base then parseLength "varchar" .varchar base
    else if ['c', 'h', 'a', 'r', '('].isPrefixOf base then parseLength "char" .char base
    else if ['n', 'u', 'm', 'e', 'r', 'i', 'c', '('].isPrefixOf base then parseNumeric base
    else parseError s!"Unknown data type: {String.ofList base}"

/-- Parse data type from SQL string -/
def parseDataType [LowerCase] (sqlType : Text) : Result DataType := do
  let lowerType := trim (LowerCase.toLowercase sqlType)
  -- Check for array suffix (e.g., "integer[]", "text[]")
  let isArray := ['[', ']'].isSuffixOf lowerType
  let baseType ← parseBaseType (if isArray then lowerType.take (lowerType.length - 2) else lowerType)
  if isArray then return new (.array baseType.kind) else return baseType

/-! ## Names -/

theorem digit_of_mem {n : ℕ} {c : Char} (hc : c ∈ Nat.toDigits 10 n) :
    c.val < 128 ∧ c.toLower = c ∧ isWhitespace c = false ∧ c.isDigit = true ∧ c ∉ ['+', '(', ')', ',', ']'] := by
  obtain ⟨k, hk, rfl⟩ := PrefixCode.mem_toDigits (by decide) hc
  clear hc
  interval_cases k <;> simp [isWhitespace, Nat.digitChar]

/-- A text that neither lowering nor trimming changes -/
structure IsTidy (t : Text) : Prop where
  lower : ∀ c ∈ t, c.val < 128 ∧ c.toLower = c
  first : ∀ c ∈ t.head?, isWhitespace c = false
  last : ∀ c ∈ t.getLast?, isWhitespace c = false

theorem IsTidy.trim {t : Text} (h : IsTidy t) : trim t = t := by
  have hdrop {l : Text} (hhead : ∀ c ∈ l.head?, isWhitespace c = false) : l.dropWhile isWhitespace = l := by
    cases l with
    | nil => rfl
    | cons c l => exact List.dropWhile_cons_of_neg (by simp [hhead c rfl])
  rw [Rustgresql.trim, hdrop h.first, hdrop (by simpa [List.head?_reverse] using h.last), List.reverse_reverse]

theorem isTidy_digits (n : ℕ) : IsTidy (Nat.toDigits 10 n) :=
  ⟨fun _ hc => ⟨(digit_of_mem hc).1, (digit_of_mem hc).2.1⟩, fun _ hc => (digit_of_mem (List.mem_of_mem_head? hc)).2.2.1,
    fun _ hc => (digit_of_mem (List.mem_of_mem_getLast? hc)).2.2.1⟩

theorem IsTidy.append {t u : Text} (ht : IsTidy t) (hu : IsTidy u) : IsTidy (t ++ u) := by
  refine ⟨fun c hc => (List.mem_append.mp hc).elim (ht.lower c) (hu.lower c), fun c hc => ?_, fun c hc => ?_⟩
  · rw [List.head?_append, Option.mem_def, Option.or_eq_some_iff] at hc
    exact hc.elim (ht.first c) fun h => hu.first c h.2
  · rw [List.getLast?_append, Option.mem_def, Option.or_eq_some_iff] at hc
    exact hc.elim (hu.last c) fun h => ht.last c h.2

theorem toList_array (e : DataTypeKind) : (kindName (.array e)).toList = (kindName e).toList ++ ['[', ']'] := by
  simp [kindName, toString]

/-- A name with parameters in parentheses -/
theorem isTidy_parens (name : Text) {params : Text} (hname : IsTidy name) (hparams : ∀ c ∈ params, c.val < 128 ∧ c.toLower = c) :
    IsTidy (name ++ '(' :: (params ++ [')'])) := by
  refine hname.append ⟨fun c hc => ?_, by simp [isWhitespace], fun c hc => ?_⟩
  · simp only [List.mem_cons, List.mem_append, List.not_mem_nil, or_false] at hc
    rcases hc with rfl | hc | rfl
    · simp
    · exact hparams c hc
    · simp
  · rw [← List.cons_append, List.getLast?_concat] at hc
    obtain rfl : ')' = c := Option.some.inj hc
    simp [isWhitespace]

theorem lower_pair (p s : ℕ) :
    ∀ c ∈ Nat.toDigits 10 p ++ ',' :: ' ' :: Nat.toDigits 10 s, c.val < 128 ∧ c.toLower = c := by
  intro c hc
  simp only [List.mem_cons, List.mem_append] at hc
  rcases hc with hc | rfl | rfl | hc
  · exact (isTidy_digits p).lower c hc
  · simp
  · simp
  · exact (isTidy_digits s).lower c hc

theorem isTidy_kindName (k : DataTypeKind) : IsTidy (kindName k).toList := by
  induction k with
  | numeric p s =>
    have h := isTidy_parens "numeric".toList ⟨by simp, by simp [isWhitespace], by simp [isWhitespace]⟩
      (lower_pair p s)
    simpa [kindName, toString] using h
  | decimal p s =>
    have h := isTidy_parens "decimal".toList ⟨by simp, by simp [isWhitespace], by simp [isWhitespace]⟩
      (lower_pair p s)
    simpa [kindName, toString] using h
  | char n =>
    have h := isTidy_parens "char".toList ⟨by simp, by simp [isWhitespace], by simp [isWhitespace]⟩
      (isTidy_digits n).lower
    simpa [kindName, toString] using h
  | varchar n =>
    have h := isTidy_parens "varchar".toList ⟨by simp, by simp [isWhitespace], by simp [isWhitespace]⟩
      (isTidy_digits n).lower
    simpa [kindName, toString] using h
  | array e ih =>
    rw [toList_array]
    exact ih.append ⟨by simp, by simp [isWhitespace], by simp [isWhitespace]⟩
  | _ =>
    constructor
    · simp [kindName]
    · simp [kindName, isWhitespace]
    · simp [kindName, isWhitespace]

/-- Only the name of an array ends with brackets. -/
theorem not_suffix_kindName {k : DataTypeKind} (hk : ∀ e, k ≠ .array e) :
    ['[', ']'].isSuffixOf (kindName k).toList = false := by
  cases k
  case array e => exact absurd rfl (hk e)
  all_goals simp [kindName, List.isSuffixOf, List.isPrefixOf, toString]

/-! ## The name of a type -/

theorem parseUsize_digits {n : ℕ} (h : n < 2 ^ 64) : parseUsize (Nat.toDigits 10 n) = some n := by
  have hhead : (Nat.toDigits 10 n).head? ≠ some '+' := fun hplus =>
    absurd (digit_of_mem (List.mem_of_mem_head? hplus)).2.2.2.2 (by simp)
  have hall : (Nat.toDigits 10 n).all Char.isDigit = true :=
    List.all_eq_true.mpr fun c hc => (digit_of_mem hc).2.2.2.1
  simpa [parseUsize, hhead, hall, Nat.ofDigitChars_ten_toDigits] using h

theorem parameters_parens {name params : Text} (hname : ∀ c ∈ name, c ≠ '(' ∧ c ≠ ')') (hparams : ')' ∉ params)
    (unclosed invalid : String) : parameters unclosed invalid (name ++ '(' :: (params ++ [')'])) = .ok params := by
  have hstart : (name ++ '(' :: (params ++ [')'])).findIdx? (· = '(') = some name.length := by
    rw [List.findIdx?_append, List.findIdx?_eq_none_iff.mpr fun c hc => by simp [(hname c hc).1]]
    simp [List.findIdx?_cons]
  have hstop : (name ++ '(' :: (params ++ [')'])).findIdx? (· = ')') = some (name.length + 1 + params.length) := by
    have hnone : ∀ c ∈ name ++ '(' :: params, decide (c = ')') = false := by
      intro c hc
      simp only [List.mem_append, List.mem_cons] at hc
      rcases hc with hc | rfl | hc
      · simp [(hname c hc).2]
      · rfl
      · simpa using fun h : c = ')' => hparams (h ▸ hc)
    rw [show name ++ '(' :: (params ++ [')']) = (name ++ '(' :: params) ++ [')'] by simp, List.findIdx?_append,
      List.findIdx?_eq_none_iff.mpr hnone]
    simp only [List.findIdx?_cons, decide_true, if_true, Option.map_some, Option.none_or, List.length_append,
      List.length_cons, Nat.zero_add]
    congr 1
    omega
  rw [parameters, hstart, hstop]
  have hle : name.length + 1 ≤ name.length + 1 + params.length := Nat.le_add_right _ _
  have htake : (name ++ '(' :: (params ++ [')'])).take (name.length + 1 + params.length) = name ++ '(' :: params := by
    rw [show name ++ '(' :: (params ++ [')']) = (name ++ '(' :: params) ++ [')'] by simp]
    exact List.take_left' (by rw [List.length_append, List.length_cons]; omega)
  simp only [if_pos hle, htake]
  rw [show name ++ '(' :: params = (name ++ ['(']) ++ params by simp, List.drop_left' (by simp)]

/-- No name with a parenthesis denotes a type alone. -/
theorem find_plainTypes {base : Text} (h : '(' ∈ base) : (plainTypes.find? fun e => String.ofList base ∈ e.1) = none := by
  have hplain : ∀ e ∈ plainTypes, ∀ name ∈ e.1, '(' ∉ name.toList := by simp [plainTypes]
  rw [List.find?_eq_none]
  intro e he hmem
  exact hplain e he _ (of_decide_eq_true hmem) (by simpa using h)

/-- The parameters of the type fit into the machine's numbers. -/
def Fits : DataTypeKind → Prop
  | .numeric p s | .decimal p s => p < 2 ^ 64 ∧ s < 2 ^ 64
  | .char n | .varchar n => n < 2 ^ 64
  | .array e => Fits e
  | _ => True

/-- `DECIMAL(p, s)` -/
def IsDecimal (k : DataTypeKind) : Prop := ∃ p s, k = .decimal p s

def IsArray (k : DataTypeKind) : Prop := ∃ e, k = .array e

theorem not_mem_digits {c : Char} (hc : c ∈ ['+', '(', ')', ',', ']']) (n : ℕ) : c ∉ Nat.toDigits 10 n :=
  fun hmem => (digit_of_mem hmem).2.2.2.2 hc

theorem parseNumeric_two {p s : ℕ} (hp : p < 2 ^ 64) (hs : s < 2 ^ 64) {name : Text} (hname : ∀ c ∈ name, c ≠ '(' ∧ c ≠ ')') :
    parseNumeric (name ++ '(' :: (Nat.toDigits 10 p ++ ',' :: ' ' :: (Nat.toDigits 10 s ++ [')']))) =
      .ok (new (.numeric p s)) := by
  have hparams : ')' ∉ Nat.toDigits 10 p ++ ',' :: ' ' :: Nat.toDigits 10 s := by
    simp [not_mem_digits]
  have hsplit : (Nat.toDigits 10 p ++ ',' :: ' ' :: Nat.toDigits 10 s).splitOn ',' =
      [Nat.toDigits 10 p, ' ' :: Nat.toDigits 10 s] := by
    have hcomma (n : ℕ) : ∀ c ∈ Nat.toDigits 10 n, (c == ',') = false := by
      intro c hc
      rw [beq_eq_false_iff_ne]
      rintro rfl
      exact not_mem_digits (by simp) n hc
    have hsecond : ∀ c ∈ ' ' :: Nat.toDigits 10 s, (c == ',') = false :=
      List.forall_mem_cons.mpr ⟨rfl, hcomma s⟩
    rw [List.splitOn_eq_splitOnP, List.splitOnP_append_cons_of_forall_mem (hcomma p) _ (by simp),
      List.splitOnP_eq_singleton hsecond]
  have htrim : trim (' ' :: Nat.toDigits 10 s) = Nat.toDigits 10 s := by
    have hspace : (' ' :: Nat.toDigits 10 s).dropWhile isWhitespace = (Nat.toDigits 10 s).dropWhile isWhitespace :=
      List.dropWhile_cons_of_pos (by simp [isWhitespace])
    rw [trim, hspace]
    exact (isTidy_digits s).trim
  have hparens := parameters_parens hname hparams "Unclosed numeric parenthesis" "Invalid numeric syntax"
  rw [List.append_assoc, List.cons_append, List.cons_append] at hparens
  rw [parseNumeric, hparens]
  show (match (Nat.toDigits 10 p ++ ',' :: ' ' :: Nat.toDigits 10 s).splitOn ',' with | [p, s] => _ | _ => _) = _
  rw [hsplit]
  simp only [(isTidy_digits p).trim, htrim, parseUsize_digits hp, parseUsize_digits hs]
  rfl

/-- A type with a length is parsed from its name. -/
theorem parseLength_one {n : ℕ} (h : n < 2 ^ 64) (name : String) (kind : ℕ → DataTypeKind) {text : Text}
    (htext : ∀ c ∈ text, c ≠ '(' ∧ c ≠ ')') :
    parseLength name kind (text ++ '(' :: (Nat.toDigits 10 n ++ [')'])) = .ok (new (kind n)) := by
  rw [parseLength, parameters_parens htext (not_mem_digits (by simp) n)]
  show (match parseUsize (Nat.toDigits 10 n) with | some len => _ | none => _) = _
  rw [parseUsize_digits h]
  rfl

theorem parseBaseType_varchar {n : ℕ} (h : n < 2 ^ 64) :
    parseBaseType (kindName (.varchar n)).toList = .ok (new (.varchar n)) := by
  have hname : (kindName (.varchar n)).toList =
      ['v', 'a', 'r', 'c', 'h', 'a', 'r'] ++ '(' :: (Nat.toDigits 10 n ++ [')']) := by simp [kindName, toString]
  rw [hname, parseBaseType, find_plainTypes (by simp)]
  exact (if_pos (by simp [List.isPrefixOf])).trans (parseLength_one h "varchar" .varchar (by simp))

theorem parseBaseType_char {n : ℕ} (h : n < 2 ^ 64) :
    parseBaseType (kindName (.char n)).toList = .ok (new (.char n)) := by
  have hname : (kindName (.char n)).toList = ['c', 'h', 'a', 'r'] ++ '(' :: (Nat.toDigits 10 n ++ [')']) := by
    simp [kindName, toString]
  rw [hname, parseBaseType, find_plainTypes (by simp)]
  refine (if_neg (by simp [List.isPrefixOf])).trans ?_
  exact (if_pos (by simp [List.isPrefixOf])).trans (parseLength_one h "char" .char (by simp))

theorem parseBaseType_numeric {p s : ℕ} (hp : p < 2 ^ 64) (hs : s < 2 ^ 64) :
    parseBaseType (kindName (.numeric p s)).toList = .ok (new (.numeric p s)) := by
  have hname : (kindName (.numeric p s)).toList = ['n', 'u', 'm', 'e', 'r', 'i', 'c'] ++
      '(' :: (Nat.toDigits 10 p ++ ',' :: ' ' :: (Nat.toDigits 10 s ++ [')'])) := by
    simp [kindName, toString]
  rw [hname, parseBaseType, find_plainTypes (by simp)]
  refine (if_neg (by simp [List.isPrefixOf])).trans ?_
  refine (if_neg (by simp [List.isPrefixOf])).trans ?_
  exact (if_pos (by simp [List.isPrefixOf])).trans (parseNumeric_two hp hs (by simp))

theorem parseBaseType_decimal (p s : ℕ) : ∀ d, parseBaseType (kindName (.decimal p s)).toList ≠ .ok d := by
  have hname : (kindName (.decimal p s)).toList = ['d', 'e', 'c', 'i', 'm', 'a', 'l'] ++
      '(' :: (Nat.toDigits 10 p ++ ',' :: ' ' :: (Nat.toDigits 10 s ++ [')'])) := by
    simp [kindName, toString]
  rw [hname, parseBaseType, find_plainTypes (by simp)]
  simp [List.isPrefixOf, parseError]

/-- The base types are parsed from their names, except for DECIMAL. -/
theorem parseBaseType_kindName {k : DataTypeKind} (harray : ¬ IsArray k) (hdecimal : ¬ IsDecimal k) (hfits : Fits k) :
    parseBaseType (kindName k).toList = .ok (new k) := by
  cases k
  case array e => exact absurd ⟨e, rfl⟩ harray
  case decimal p s => exact absurd ⟨p, s, rfl⟩ hdecimal
  case numeric p s => exact parseBaseType_numeric hfits.1 hfits.2
  case char n => exact parseBaseType_char hfits
  case varchar n => exact parseBaseType_varchar hfits
  all_goals simp [kindName, parseBaseType, plainTypes]

theorem exists_of_parseLength {name : String} {kind : ℕ → DataTypeKind} {base : Text} {d : DataType}
    (h : parseLength name kind base = .ok d) : ∃ n, d = new (kind n) := by
  obtain ⟨lenStr, -, h⟩ := Result.bind_eq_ok.mp h
  split at h
  · exact ⟨_, (Except.ok.inj h).symm⟩
  · cases h

theorem exists_of_parseNumeric {base : Text} {d : DataType} (h : parseNumeric base = .ok d) :
    ∃ p s, d = new (.numeric p s) := by
  obtain ⟨params, -, h⟩ := Result.bind_eq_ok.mp h
  split at h
  · split at h
    · exact ⟨_, _, (Except.ok.inj h).symm⟩
    · cases h
  · cases h

/-- An array is no base type. -/
theorem not_isArray_of_parseBaseType {base : Text} {d : DataType} (h : parseBaseType base = .ok d) : ¬ IsArray d.kind := by
  rw [parseBaseType] at h
  split at h
  · next kind hfind =>
    obtain rfl := Except.ok.inj h
    have hplain : ∀ e ∈ plainTypes, ∀ element, e.2 ≠ .array element := by simp [plainTypes]
    rintro ⟨element, helement⟩
    exact hplain _ (List.mem_of_find?_eq_some hfind) element helement
  · split_ifs at h
    · obtain ⟨n, rfl⟩ := exists_of_parseLength h
      rintro ⟨_, ⟨⟩⟩
    · obtain ⟨n, rfl⟩ := exists_of_parseLength h
      rintro ⟨_, ⟨⟩⟩
    · obtain ⟨p, s, rfl⟩ := exists_of_parseNumeric h
      rintro ⟨_, ⟨⟩⟩
    · cases h

variable [LowerCase]

theorem toLowercase_kindName (k : DataTypeKind) : LowerCase.toLowercase (kindName k).toList = (kindName k).toList := by
  have hlower := (isTidy_kindName k).lower
  rw [LowerCase.toLowercase_ascii _ fun c hc => (hlower c hc).1]
  exact (List.map_congr_left fun c hc => (hlower c hc).2).trans (List.map_id _)

/-- The name of a type that is no array is parsed as a base type. -/
theorem parseDataType_kindName {k : DataTypeKind} (hk : ¬ IsArray k) :
    parseDataType (kindName k).toList = parseBaseType (kindName k).toList := by
  rw [parseDataType, toLowercase_kindName, (isTidy_kindName k).trim, not_suffix_kindName fun e he => hk ⟨e, he⟩]
  rcases h : parseBaseType (kindName k).toList with e | d
  · simp [h]
  · simp [h]

/-- Of the name of an array the name of the element is parsed as a base type. -/
theorem parseDataType_array (e : DataTypeKind) : parseDataType (kindName (.array e)).toList =
    (parseBaseType (kindName e).toList).map fun d => new (.array d.kind) := by
  have hsuffix : ['[', ']'].isSuffixOf ((kindName e).toList ++ ['[', ']']) = true :=
    List.isSuffixOf_iff_suffix.mpr ⟨_, rfl⟩
  rw [parseDataType, toLowercase_kindName, (isTidy_kindName (.array e)).trim, toList_array, hsuffix]
  have htake : ((kindName e).toList ++ ['[', ']']).take (((kindName e).toList ++ ['[', ']']).length - 2) =
      (kindName e).toList := List.take_left' (by simp)
  rw [htake]
  rcases h : parseBaseType (kindName e).toList with e | d
  · simp [h]
    rfl
  · simp [h]
    rfl

/-- A type is parsed from its name exactly if it is not DECIMAL nor an array of DECIMAL or of arrays. -/
theorem parseDataType_typeName_iff (d : DataType) (hfits : Fits d.kind) :
    parseDataType d.typeName.toList = .ok (new d.kind) ↔
      ¬ IsDecimal d.kind ∧ ∀ e, d.kind = .array e → ¬ IsDecimal e ∧ ¬ IsArray e := by
  rw [typeName]
  by_cases harray : IsArray d.kind
  · obtain ⟨e, he⟩ := harray
    rw [he] at hfits ⊢
    rw [parseDataType_array]
    constructor
    · intro h
      obtain ⟨d', hd', hkind⟩ := Result.map_eq_ok.mp h
      obtain rfl : d'.kind = e := DataTypeKind.array.inj (congrArg DataType.kind hkind)
      refine ⟨by rintro ⟨_, _, ⟨⟩⟩, fun e he => ?_⟩
      obtain rfl := DataTypeKind.array.inj he
      refine ⟨?_, not_isArray_of_parseBaseType hd'⟩
      rintro ⟨p, s, hdecimal⟩
      rw [hdecimal] at hd'
      exact parseBaseType_decimal p s _ hd'
    · rintro ⟨-, h⟩
      obtain ⟨hdecimal, harray⟩ := h e rfl
      rw [parseBaseType_kindName harray hdecimal hfits]
      rfl
  · rw [parseDataType_kindName harray]
    constructor
    · intro h
      refine ⟨?_, fun e he => absurd ⟨e, he⟩ harray⟩
      rintro ⟨p, s, hdecimal⟩
      rw [hdecimal] at h
      exact parseBaseType_decimal p s _ h
    · rintro ⟨hdecimal, -⟩
      exact parseBaseType_kindName harray hdecimal hfits

omit [LowerCase] in
theorem parseDataType_varchar : let _ := LowerCase.ascii
    parseDataType (new (.array (.varchar 10))).typeName.toList = .ok (new (.array (.varchar 10))) := by
  intro _
  refine (parseDataType_typeName_iff (new (.array (.varchar 10))) (show 10 < 2 ^ 64 by decide)).mpr ⟨?_, fun e he => ?_⟩
  · rintro ⟨_, _, ⟨⟩⟩
  · obtain rfl := DataTypeKind.array.inj he
    exact ⟨by rintro ⟨_, _, ⟨⟩⟩, by rintro ⟨_, ⟨⟩⟩⟩

omit [LowerCase] in
/-- The parser does not know DECIMAL. -/
theorem parseDataType_decimal : let _ := LowerCase.ascii
    parseDataType (new (.decimal 15 4)).typeName.toList ≠ .ok (new (.decimal 15 4)) := by
  intro _
  have hnone : ¬ IsArray (.decimal 15 4) := by rintro ⟨_, ⟨⟩⟩
  exact (parseDataType_kindName hnone).trans_ne (parseBaseType_decimal 15 4 _)

end DataType

end Rustgresql
