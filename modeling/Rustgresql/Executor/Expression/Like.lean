import Rustgresql.Executor.Expression.Comparison
import Rustgresql.Lib.Wildcards

/-!
# LIKE

A pattern becomes a regular expression by replacing its wildcards. `matchesPattern_iff`: for a pattern without
metacharacters of regular expressions, LIKE and ILIKE are right if and only if no wildcard is needed for a newline.
-/

namespace Rustgresql

open Sql (BinaryOperator)

open Wildcards

namespace ExpressionEvaluator

variable {S : Type}

/-- LIKE or ILIKE -/
inductive PatternOperator
  | like | iLike
  deriving DecidableEq

namespace PatternOperator

def operator : PatternOperator → BinaryOperator
  | like => .like
  | iLike => .iLike

/-- The flag that ignores the case of letters -/
def flag : PatternOperator → String
  | like => ""
  | iLike => "(?i)"

/-- A letter stands for itself, or up to its case. -/
def same (sameLetter : Char → Char → Bool) : PatternOperator → Char → Char → Bool
  | like => fun c d => c = d
  | iLike => sameLetter

end PatternOperator

/-! ## Patterns -/

/-- % stands for any sequence of characters, _ for exactly one, every other character for itself. -/
def patternItem (c : Char) : Item Char :=
  if c = '%' then .anyMany else if c = '_' then .any else .char c

/-- The strings that match a pattern -/
def likeLanguage (same : Char → Char → Bool) (pattern : String) : Language Char :=
  patternLanguage same (fun _ => true) (pattern.toList.map patternItem)

/-- The value of LIKE or ILIKE -/
def MatchesPattern (ops : Operations S) (k : PatternOperator) (sameLetter : Char → Char → Bool) (s pattern : String) :
    Prop :=
  ∃ b, compared ops k.operator (.string s) (.string pattern) = .ok (.boolean b) ∧
    (b = true ↔ s.toList ∈ likeLanguage (k.same sameLetter) pattern)

/-! ## Regular expressions -/

/-- The characters with a meaning of their own in regular expressions -/
def IsMetacharacter (c : Char) : Prop := c ∈ ['\\', '.', '+', '*', '?', '(', ')', '|', '[', '{', '^', '$']

instance : DecidablePred IsMetacharacter := fun c => inferInstanceAs (Decidable (c ∈ _))

def itemText : Item Char → List Char
  | .char c => [c]
  | .any => ['.']
  | .anyMany => ['.', '*']

/-- A regular expression for whole strings -/
def regexText (k : PatternOperator) (items : List (Item Char)) : String :=
  k.flag ++ "^" ++ String.ofList (items.flatMap itemText) ++ "$"

/-- The dot does not match a newline. -/
def notNewline (c : Char) : Bool := c ≠ '\n'

/-- What the `regex` crate documents: letters, the dot and its repetition between `^` and `$`, with and without the
flag for the case of letters, and the limit for the size of a compiled expression -/
structure MatchesAsDocumented (regex : String → Except String (String → Bool)) (sameLetter : Char → Char → Bool)
    (withinSizeLimit : String → Prop) : Prop where
  isMatch : ∀ (k : PatternOperator) (items : List (Item Char)), (∀ c, .char c ∈ items → ¬ IsMetacharacter c) →
    withinSizeLimit (regexText k items) → ∃ isMatch, regex (regexText k items) = .ok isMatch ∧
      ∀ s : String, isMatch s = true ↔ s.toList ∈ patternLanguage (k.same sameLetter) notNewline items
  tooLarge : ∀ text, ¬ withinSizeLimit text → ∃ e, regex text = .error e

theorem regexPattern_eq (pattern : String) :
    regexPattern pattern = String.ofList ((pattern.toList.map patternItem).flatMap itemText) := by
  unfold regexPattern replaceChar
  simp only [String.toList_ofList]
  refine congrArg String.ofList ?_
  rw [List.flatMap_assoc, List.flatMap_map]
  refine List.flatMap_congr fun c _ => ?_
  unfold patternItem
  split_ifs with hpercent hunderscore
  · rfl
  · rw [hunderscore]
    rfl
  · rw [List.flatMap_singleton, if_neg hunderscore]
    rfl

theorem char_mem_patternItems {pattern : String} {c : Char} (h : .char c ∈ pattern.toList.map patternItem) :
    c ∈ pattern.toList := by
  obtain ⟨d, hd, hitem⟩ := List.mem_map.mp h
  unfold patternItem at hitem
  split_ifs at hitem
  cases hitem
  exact hd

section Operators

variable [FloatOperators] [DebugText] {p : EvaluatorParameters S} {depth : ℕ} {k : PatternOperator} {s pattern : String}

/-- LIKE asks the regular expression. -/
theorem compared_pattern {name : String} (hname : k = .like ∧ name = "LIKE" ∨ k = .iLike ∧ name = "ILIKE") :
    compared (evaluatorOperations p depth) k.operator (.string s) (.string pattern) =
      match p.regex (regexText k (pattern.toList.map patternItem)) with
      | .ok isMatch => .ok (.boolean (isMatch s))
      | .error e => .error (.err (.invalidOperation s!"Invalid {name} pattern: {e}")) := by
  rw [compared_eq, evaluateBinaryOperation_of_not_null rfl rfl (by cases k <;> decide), regexText, ← regexPattern_eq]
  rcases hname with ⟨rfl, rfl⟩ | ⟨rfl, rfl⟩
  · rfl
  · rfl

end Operators

/-- For a pattern without metacharacters, LIKE and ILIKE are right if and only if the regular expression is not too
large and a string that matches does so without wildcards for newlines. -/
theorem matchesPattern_iff [FloatOperators] [DebugText] {p : EvaluatorParameters S} {sameLetter : Char → Char → Bool}
    {withinSizeLimit : String → Prop} (hregex : MatchesAsDocumented p.regex sameLetter withinSizeLimit) (depth : ℕ)
    (k : PatternOperator) (s : String) {pattern : String} (hpattern : ∀ c ∈ pattern.toList, ¬ IsMetacharacter c) :
    MatchesPattern (evaluatorOperations p depth) k sameLetter s pattern ↔
      withinSizeLimit (k.flag ++ "^" ++ regexPattern pattern ++ "$") ∧
      (s.toList ∈ likeLanguage (k.same sameLetter) pattern →
        s.toList ∈ patternLanguage (k.same sameLetter) notNewline (pattern.toList.map patternItem)) := by
  obtain ⟨name, hname⟩ : ∃ name, k = .like ∧ name = "LIKE" ∨ k = .iLike ∧ name = "ILIKE" := by
    cases k
    · exact ⟨_, .inl ⟨rfl, rfl⟩⟩
    · exact ⟨_, .inr ⟨rfl, rfl⟩⟩
  have hchar (c : Char) (hc : .char c ∈ pattern.toList.map patternItem) : ¬ IsMetacharacter c :=
    hpattern c (char_mem_patternItems hc)
  rw [regexPattern_eq]
  change _ ↔ withinSizeLimit (regexText k (pattern.toList.map patternItem)) ∧ _
  rw [MatchesPattern, compared_pattern hname]
  by_cases hlimit : withinSizeLimit (regexText k (pattern.toList.map patternItem))
  · obtain ⟨isMatch, hok, hmatch⟩ := hregex.isMatch k _ hchar hlimit
    have hmono : s.toList ∈ patternLanguage (k.same sameLetter) notNewline (pattern.toList.map patternItem) →
        s.toList ∈ likeLanguage (k.same sameLetter) pattern := patternLanguage_mono fun _ _ => rfl
    rw [hok, and_iff_right hlimit]
    constructor
    · rintro ⟨b, hb, hlike⟩ hs
      rw [← hmatch, Value.boolean.inj (Except.ok.inj hb)]
      exact hlike.mpr hs
    · exact fun h => ⟨isMatch s, rfl, (hmatch s).trans ⟨hmono, h⟩⟩
  · obtain ⟨e, he⟩ := hregex.tooLarge _ hlimit
    rw [he]
    refine iff_of_false ?_ fun h => hlimit h.1
    rintro ⟨b, hb, -⟩
    cases hb

/-! ## Regular expressions of letters and dots -/

def parseItems : List Char → List (Item Char)
  | [] => []
  | '.' :: '*' :: rest => .anyMany :: parseItems rest
  | '.' :: rest => .any :: parseItems rest
  | c :: rest => .char c :: parseItems rest

/-- The text of items does not begin with a star. -/
theorem head_itemTexts {items : List (Item Char)} (h : ∀ c, .char c ∈ items → ¬ IsMetacharacter c) (rest : List Char) :
    items.flatMap itemText ≠ '*' :: rest := by
  intro hstar
  cases items with
  | nil => cases hstar
  | cons item items =>
    cases item with
    | char c =>
      obtain ⟨rfl, -⟩ := List.cons.inj hstar
      exact h '*' List.mem_cons_self (by decide)
    | any => cases hstar
    | anyMany => cases hstar

theorem parseItems_itemTexts {items : List (Item Char)} (h : ∀ c, .char c ∈ items → ¬ IsMetacharacter c) :
    parseItems (items.flatMap itemText) = items := by
  induction items with
  | nil => rfl
  | cons item items ih =>
    have hrest (c : Char) (hc : .char c ∈ items) : ¬ IsMetacharacter c := h c (List.mem_cons_of_mem _ hc)
    replace ih := ih hrest
    have hstar := head_itemTexts hrest
    rw [List.flatMap_cons]
    cases item with
    | char c =>
      have hdot : c ≠ '.' := by
        rintro rfl
        exact h '.' List.mem_cons_self (by decide)
      rw [itemText, List.singleton_append, parseItems, ih]
      · exact fun _ hc => absurd hc hdot
      · exact hdot
    | any =>
      rw [itemText, List.singleton_append, parseItems, ih]
      exact hstar
    | anyMany =>
      rw [itemText, List.cons_append, List.singleton_append, parseItems, ih]

/-- Letters of ASCII up to their case -/
def sameAsciiLetter (c d : Char) : Bool := c.toLower = d.toLower

def itemRegex (text : String) : Except String (String → Bool) :=
  match text.toList with
  | '^' :: body =>
    .ok fun s => matchItems (PatternOperator.like.same sameAsciiLetter) notNewline (parseItems body.dropLast) s.toList
  | '(' :: '?' :: 'i' :: ')' :: '^' :: body =>
    .ok fun s => matchItems (PatternOperator.iLike.same sameAsciiLetter) notNewline (parseItems body.dropLast) s.toList
  | _ => .error "unsupported"

theorem toList_regexText (k : PatternOperator) (items : List (Item Char)) :
    (regexText k items).toList = k.flag.toList ++ '^' :: (items.flatMap itemText ++ ['$']) := by
  simp [regexText]

theorem matchesAsDocumented_itemRegex : MatchesAsDocumented itemRegex sameAsciiLetter fun _ => True := by
  refine ⟨fun k items hitems _ => ?_, fun _ h => absurd trivial h⟩
  have hregex : itemRegex (regexText k items) = .ok fun s =>
      matchItems (k.same sameAsciiLetter) notNewline (parseItems (items.flatMap itemText ++ ['$']).dropLast) s.toList := by
    rw [itemRegex, toList_regexText]
    cases k <;> rfl
  refine ⟨_, hregex, fun s => ?_⟩
  rw [List.dropLast_concat, parseItems_itemTexts hitems]
  exact matchItems_iff

/-- `'abc' LIKE 'a_%'` -/
theorem matchesPattern_abc : letI : DebugText := ⟨fun _ => "", fun _ => "", fun _ => ""⟩
    letI : FloatOperators := noFloats
    MatchesPattern (evaluatorOperations { noParameters with regex := itemRegex } 0) .like sameAsciiLetter "abc" "a_%" := by
  let texts : DebugText := ⟨fun _ => "", fun _ => "", fun _ => ""⟩
  let operators : FloatOperators := noFloats
  let p : EvaluatorParameters Unit := { noParameters with regex := itemRegex }
  have hregex : MatchesAsDocumented p.regex sameAsciiLetter fun _ => True := matchesAsDocumented_itemRegex
  have hpattern : ∀ c ∈ "a_%".toList, ¬ IsMetacharacter c := by simp [IsMetacharacter]
  refine (matchesPattern_iff hregex 0 .like "abc" hpattern).mpr ⟨trivial, fun _ => matchItems_iff.mp ?_⟩
  show matchItems _ notNewline [.char 'a', .any, .anyMany] ['a', 'b', 'c'] = true
  decide

/-- `'a' LIKE '.'` is true. -/
theorem dot_matches : ¬ ∀ (_ : FloatOperators) (_ : DebugText) (S : Type) (p : EvaluatorParameters S)
    (sameLetter : Char → Char → Bool) (withinSizeLimit : String → Prop) (depth : ℕ) (k : PatternOperator)
    (s pattern : String), MatchesAsDocumented p.regex sameLetter withinSizeLimit →
      MatchesPattern (evaluatorOperations p depth) k sameLetter s pattern := by
  intro h
  let texts : DebugText := ⟨fun _ => "", fun _ => "", fun _ => ""⟩
  let operators : FloatOperators := noFloats
  let p : EvaluatorParameters Unit := { noParameters with regex := itemRegex }
  obtain ⟨b, hb, hlike⟩ := h operators texts Unit p sameAsciiLetter (fun _ => True) 0 .like "a" "."
    matchesAsDocumented_itemRegex
  have hvalue : compared (evaluatorOperations p 0) .like (.string "a") (.string ".") = .ok (.boolean true) := rfl
  rw [PatternOperator.operator, hvalue] at hb
  have hmatch := matchItems_iff.mpr (hlike.mp (Value.boolean.inj (Except.ok.inj hb)).symm)
  exact Bool.false_ne_true hmatch

end ExpressionEvaluator

end Rustgresql
