import Rustgresql.Sql.Scan

/-!
# Writing tokens

Tokens in their canonical spelling, written with single spaces between them, are read back, except
that a text may not end in a closing quote: `consume_string` and `consume_quoted_identifier` look for
the end of the input behind it and report an unterminated text.
-/

namespace Rustgresql.Sql

/-- A text with its quotes doubled. -/
def doubled (quote : Char) (t : Text) : Text := t.flatMap fun c => if c = quote then [c, c] else [c]

def quotedText (quote : Char) (t : Text) : Text := quote :: (doubled quote t ++ [quote])

section Words

variable [Unicode]

/-- A name that the lexer reads as an identifier. -/
structure IsIdentifier (name : Text) : Prop where
  head : ∃ c l, name = c :: l ∧ (isAlphabetic c ∨ c = '_')
  word : ∀ c ∈ name, isWordChar c
  notKeyword : Keyword.ofText name.toUppercase = none

def IsDecimalPart (t : Text) : Prop := t = [] ∨ ∃ ds, t = '.' :: ds ∧ ∀ c ∈ ds, isNumeric c

def IsExponentPart (t : Text) : Prop :=
  t = [] ∨ ∃ c sign ds, t = c :: (sign ++ ds) ∧ (c = 'e' ∨ c = 'E') ∧
    (sign = [] ∨ sign = ['+'] ∨ sign = ['-']) ∧ ∀ c ∈ ds, isNumeric c

/-- A number with fraction and exponent, either of which may be missing. -/
def IsNumber (t : Text) : Prop :=
  ∃ int decimal exponent, t = int ++ (decimal ++ exponent) ∧
    (∃ c l, int = c :: l ∧ isAlphabetic c = false) ∧ (∀ c ∈ int, isNumeric c) ∧
    IsDecimalPart decimal ∧ IsExponentPart exponent

/-- A token to be written. -/
inductive Lexeme
  | keyword (k : Keyword) (hk : k.isWindowFunction = false)
  | identifier (name : Text) (h : IsIdentifier name)
  | quotedIdentifier (name : Text)
  | string (value : Text)
  | dollarString (value : Text) (h : '$' ∉ value)
  | number (value : Text) (h : IsNumber value)
  | mark (m : Mark)

namespace Lexeme

/-- The canonical text of a token. -/
def text : Lexeme → Text
  | keyword k _ => k.text
  | identifier name _ => name
  | quotedIdentifier name => quotedText '"' name
  | string value => quotedText '\'' value
  | dollarString value _ => '$' :: '$' :: (value ++ ['$', '$'])
  | number value _ => value
  | mark m => m.text

def tokenType : Lexeme → TokenType
  | keyword k _ => .keyword k
  | identifier name _ => .identifier name
  | quotedIdentifier name => .quotedIdentifier name
  | string value => .string value
  | dollarString value _ => .string value
  | number value _ => .number value
  | mark m => .mark m

/-- The value that the lexer gives the token. -/
def value : Lexeme → Text
  | keyword k _ => k.text
  | identifier name _ => name
  | quotedIdentifier name => name
  | string value => value
  | dollarString value _ => value
  | number value _ => value
  | mark m => m.text

def symbol (x : Lexeme) : Symbol := ⟨x.tokenType, x.value⟩

/-- Whether the text ends in a closing quote. -/
def isQuoted : Lexeme → Bool
  | quotedIdentifier _ => true
  | string _ => true
  | _ => false

end Lexeme

/-- Tokens in their canonical texts, with single spaces between them. -/
def write (xs : List Lexeme) : Text := [' '].intercalate (xs.map Lexeme.text)

end Words

/-! ## Scanners stop at white space -/

/-- Nothing, or a text that begins with white space. -/
def Separated (r : Text) : Prop := ∀ c ∈ r.head?, isWhitespace c

theorem separated_nil : Separated [] := by simp [Separated]

theorem separated_space (r : Text) : Separated (' ' :: r) := by
  simp [Separated, isWhitespace]

theorem takeWhile_append_stop {p : Char → Bool} {w r : Text} (hw : ∀ c ∈ w, p c)
    (hr : ∀ c ∈ r.head?, p c = false) : (w ++ r).takeWhile p = w := by
  rw [List.takeWhile_append_of_pos hw]
  rcases r with - | ⟨c, r⟩
  · simp
  · rw [List.takeWhile_cons_of_neg (by simp [hr c rfl]), List.append_nil]

theorem dropWhile_append_stop {p : Char → Bool} {w r : Text} (hw : ∀ c ∈ w, p c)
    (hr : ∀ c ∈ r.head?, p c = false) : (w ++ r).dropWhile p = r := by
  rw [List.dropWhile_append_of_pos hw]
  rcases r with - | ⟨c, r⟩
  · rfl
  · rw [List.dropWhile_cons_of_neg (by simp [hr c rfl])]

theorem Separated.stops {p : Char → Bool} {r : Text} (hr : Separated r)
    (hp : ∀ c, isWhitespace c → p c = false) : ∀ c ∈ r.head?, p c = false :=
  fun c hc => hp c (hr c hc)

theorem ne_of_whitespace {c d : Char} (hd : isWhitespace d = false) (hc : isWhitespace c) : c ≠ d := by
  rintro rfl
  rw [hd] at hc
  cases hc

/-- The value of a quoted text is what was doubled, if no quote follows. -/
theorem quoted_doubled {quote : Char} {r : Text} (hr : r.head? ≠ some quote) (t : Text) :
    quoted quote (doubled quote t ++ quote :: r) = (t, (doubled quote t).length + 1) := by
  induction t with
  | nil =>
    rcases r with - | ⟨d, r⟩
    · simp [doubled, quoted]
    · simp_all [doubled, quoted]
  | cons c t ih =>
    by_cases hc : c = quote
    · subst hc
      have hd : doubled c (c :: t) = c :: c :: doubled c t := by simp [doubled]
      simp [hd, quoted, ih]
    · have hd : doubled quote (c :: t) = c :: doubled quote t := by simp [doubled, hc]
      obtain ⟨d, l, hl⟩ : ∃ d l, doubled quote t ++ quote :: r = d :: l :=
        List.exists_cons_of_ne_nil (by simp)
      rw [hd, List.cons_append, hl, quoted, if_neg hc, ← hl, ih]
      rfl

theorem dollarQuoted_append {t : Text} (ht : '$' ∉ t) (r : Text) :
    dollarQuoted (t ++ '$' :: '$' :: r) = (t, t.length + 2) := by
  induction t with
  | nil => simp [dollarQuoted]
  | cons c t ih =>
    rw [List.mem_cons, not_or] at ht
    obtain ⟨d, l, hl⟩ : ∃ d l, t ++ '$' :: '$' :: r = d :: l := List.exists_cons_of_ne_nil (by simp)
    rw [List.cons_append, hl, dollarQuoted, if_neg (fun h => ht.1 h.1.symm), ← hl, ih ht.2]
    rfl

/-- The words of the lexer are upper-case ASCII. -/
theorem Keyword.mem_words (k : Keyword) : (k.text, k) ∈ Keyword.words := by
  have h := Keyword.ofText_text k
  obtain ⟨e, he, rfl⟩ := Option.map_eq_some_iff.mp h
  have hk := List.find?_some he
  simp only [decide_eq_true_eq] at hk
  rw [← hk]
  exact List.mem_of_find?_eq_some he

theorem Keyword.text_upper (k : Keyword) :
    (∃ c l, k.text = c :: l ∧ c.isAlpha) ∧
      ∀ c ∈ k.text, c.val < 128 ∧ (c.isAlpha ∨ c = '_') ∧ c.toUpper = c := by
  have h : Keyword.words.all fun e => e.1.head?.any Char.isAlpha &&
      e.1.all fun c => c.val < 128 && (c.isAlpha || c == '_') && c.toUpper == c := by
    decide +kernel
  have hk := List.all_eq_true.mp h _ k.mem_words
  rcases hl : k.text with - | ⟨c, l⟩
  · simp [hl] at hk
  · simp only [hl, List.head?_cons, Option.any_some, Bool.and_eq_true, List.all_eq_true,
      decide_eq_true_eq, Bool.or_eq_true, beq_iff_eq] at hk
    exact ⟨⟨c, l, rfl, hk.1⟩, fun d hd => ⟨(hk.2 d hd).1.1, (hk.2 d hd).1.2, (hk.2 d hd).2⟩⟩

/-! ## Each token is read back -/

section ReadBack

variable [Unicode] {c : Char} {l r : Text}

theorem isAlphabetic_ascii_false (hc : c.val < 128) (h : c.isAlpha = false) :
    isAlphabetic c = false := by
  rw [Unicode.isAlphabetic_ascii c hc, h]

theorem isNumeric_ascii_false (hc : c.val < 128) (h : c.isDigit = false) : isNumeric c = false := by
  rw [Unicode.isNumeric_ascii c hc, h]

theorem isWordChar_whitespace (hc : isWhitespace c) : isWordChar c = false := by
  simp [isWordChar, isAlphanumeric, Unicode.isAlphabetic_whitespace c hc,
    Unicode.isNumeric_whitespace c hc, ne_of_whitespace (d := '_') (by decide) hc]

/-- Neither a quote, nor the beginning of a comment, nor of a dollar-quoted text. -/
theorem scan_plain (h1 : c ≠ '-' ∨ l.head? ≠ some '-') (h2 : c ≠ '$') (h3 : c ≠ '\'') (h4 : c ≠ '"') :
    scan c l =
      if isAlphabetic c ∨ c = '_' then
        let word := (c :: l).takeWhile isWordChar
        some (some ⟨wordType word (parenAhead ((c :: l).drop word.length)), word⟩, word.length)
      else if isNumeric c then
        let number := numberText (c :: l)
        some (some ⟨.number number, number⟩, number.length)
      else
        (markAt c l.head?).bind fun r =>
          if r.2 ≤ (c :: l).length then some (some ⟨.mark r.1, (c :: l).take r.2⟩, r.2) else none := by
  unfold scan
  rw [if_neg (by tauto), if_neg (by tauto), if_neg h3, if_neg h4]

theorem ne_of_alphabetic (hc : isAlphabetic c ∨ c = '_') {d : Char} (hd : d.val < 128)
    (hd' : d.isAlpha = false) (hne : d ≠ '_') : c ≠ d := by
  rintro rfl
  rcases hc with hc | hc
  · rw [isAlphabetic_ascii_false hd hd'] at hc
    cases hc
  · exact hne hc

/-- A word is read up to its end. -/
theorem scan_word {w : Text} (hc : isAlphabetic c ∨ c = '_') (hw : ∀ d ∈ c :: w, isWordChar d)
    (hr : ∀ d ∈ r.head?, isWordChar d = false) : scan c (w ++ r) =
      some (some ⟨wordType (c :: w) (parenAhead r), c :: w⟩, (c :: w).length) := by
  have ht : (c :: (w ++ r)).takeWhile isWordChar = c :: w := takeWhile_append_stop hw hr
  have hd : (c :: (w ++ r)).drop (c :: w).length = r := by
    rw [← List.cons_append, List.drop_left]
  have hne {d : Char} := ne_of_alphabetic hc (d := d)
  rw [scan_plain (.inl (hne (by decide) (by decide) (by decide)))
    (hne (by decide) (by decide) (by decide)) (hne (by decide) (by decide) (by decide))
    (hne (by decide) (by decide) (by decide)), if_pos hc]
  simp only [ht, hd]

/-- A character that does not continue the number `t`: a sign is not read behind an exponent's `e`
only. -/
structure StopsNumber (t : Text) (d : Char) : Prop where
  notNumeric : isNumeric d = false
  notPoint : d ≠ '.'
  notExponent : d ≠ 'e' ∧ d ≠ 'E'
  notSign : d = '+' ∨ d = '-' → ∀ c ∈ t.getLast?, c ≠ 'e' ∧ c ≠ 'E'

theorem Separated.stopsNumber (hr : Separated r) (t : Text) : ∀ d ∈ r.head?, StopsNumber t d := by
  intro d hd
  have hd := hr d hd
  have hne {e : Char} (he : isWhitespace e = false) : d ≠ e := ne_of_whitespace he hd
  refine ⟨Unicode.isNumeric_whitespace d hd, hne (by decide), ⟨hne (by decide), hne (by decide)⟩, ?_⟩
  rintro (rfl | rfl) <;> simp [isWhitespace] at hd

theorem exponentPart_append {t : Text} (hr : ∀ d ∈ r.head?, StopsNumber t d)
    (ht : IsExponentPart t) : exponentPart (t ++ r) = t := by
  obtain rfl | ⟨c, sign, ds, rfl, hc, hsign, hds⟩ := ht
  · rcases r with - | ⟨d, r⟩
    · rfl
    · rw [List.nil_append, exponentPart, if_neg (not_or.mpr (hr d rfl).notExponent)]
  · have hstop : ∀ d ∈ r.head?, isNumeric d = false := fun d hd => (hr d hd).notNumeric
    have hsigned : exponentSign (sign ++ (ds ++ r)) = sign := by
      rcases hsign with rfl | rfl | rfl
      · -- what follows is a digit, or does not continue the number
        rcases hl : ds ++ r with - | ⟨d, l⟩
        · rfl
        · have hd : ¬ (d = '+' ∨ d = '-') := by
            rcases ds with - | ⟨d', ds⟩
            · intro hd
              have h := (hr d (by rw [← List.nil_append r, hl]; rfl)).notSign hd c rfl
              rcases hc with rfl | rfl
              · exact h.1 rfl
              · exact h.2 rfl
            · cases hl
              have hnum := hds d (by simp)
              rintro (rfl | rfl)
              · simp [isNumeric_ascii_false (c := '+') (by decide) (by decide)] at hnum
              · simp [isNumeric_ascii_false (c := '-') (by decide) (by decide)] at hnum
          simp [exponentSign, hd]
      · rfl
      · rfl
    rw [List.cons_append, exponentPart, if_pos hc]
    simp only [List.append_assoc, hsigned, List.drop_left, List.cons_append]
    rw [takeWhile_append_stop hds hstop]

theorem decimalPart_append {t : Text} (hr : ∀ c ∈ r.head?, isNumeric c = false ∧ c ≠ '.')
    (ht : IsDecimalPart t) : decimalPart (t ++ r) = t := by
  obtain rfl | ⟨ds, rfl, hds⟩ := ht
  · rcases r with - | ⟨d, r⟩
    · rfl
    · have hd := (hr d rfl).2
      rw [List.nil_append]
      unfold decimalPart
      split
      · next h => cases h; exact absurd rfl hd
      · rfl
  · rw [List.cons_append, decimalPart, takeWhile_append_stop hds fun c hc => (hr c hc).1]

theorem head_exponentPart (hr : ∀ d ∈ r.head?, isNumeric d = false ∧ d ≠ '.') {t : Text}
    (ht : IsExponentPart t) : ∀ c ∈ (t ++ r).head?, isNumeric c = false ∧ c ≠ '.' := by
  intro c hc
  obtain rfl | ⟨d, sign, ds, rfl, hd, -⟩ := ht
  · exact hr c hc
  · cases hc
    rcases hd with rfl | rfl
    · exact ⟨isNumeric_ascii_false (by decide) (by decide), by decide⟩
    · exact ⟨isNumeric_ascii_false (by decide) (by decide), by decide⟩

theorem numberText_append {t : Text} (hr : ∀ d ∈ r.head?, StopsNumber t d) (ht : IsNumber t) :
    numberText (t ++ r) = t := by
  obtain ⟨int, decimal, exponent, rfl, -, hint, hdecimal, hexponent⟩ := ht
  have hhead := head_exponentPart (fun d hd => ⟨(hr d hd).notNumeric, (hr d hd).notPoint⟩) hexponent
  have hstop : ∀ c ∈ (decimal ++ (exponent ++ r)).head?, isNumeric c = false := by
    obtain rfl | ⟨ds, rfl, -⟩ := hdecimal
    · exact fun c hc => (hhead c hc).1
    · rintro c hc
      cases hc
      exact isNumeric_ascii_false (by decide) (by decide)
  have hexp : ∀ d ∈ r.head?, StopsNumber exponent d := by
    intro d hd
    refine ⟨(hr d hd).notNumeric, (hr d hd).notPoint, (hr d hd).notExponent, fun hsign c hc => ?_⟩
    apply (hr d hd).notSign hsign
    rw [← List.append_assoc, List.getLast?_append_of_ne_nil _ (by rintro rfl; simp at hc)]
    exact hc
  simp only [numberText, List.append_assoc]
  rw [takeWhile_append_stop hint hstop, dropWhile_append_stop hint hstop,
    decimalPart_append hhead hdecimal, List.drop_left, exponentPart_append hexp hexponent]

/-- A number is read up to its end. -/
theorem scan_number {t : Text} (ht : IsNumber (c :: t))
    (hr : ∀ d ∈ r.head?, StopsNumber (c :: t) d) :
    scan c (t ++ r) = some (some ⟨.number (c :: t), c :: t⟩, (c :: t).length) := by
  have hn := numberText_append hr ht
  obtain ⟨int, decimal, exponent, he, ⟨d, l, rfl, halpha⟩, hint, -⟩ := ht
  cases he
  have hnum : isNumeric c := hint c (by simp)
  have hne {d : Char} (hd : d.val < 128) (hd' : d.isDigit = false) : c ≠ d := by
    rintro rfl
    simp [isNumeric_ascii_false hd hd'] at hnum
  rw [scan_plain (.inl (hne (by decide) (by decide))) (hne (by decide) (by decide))
    (hne (by decide) (by decide)) (hne (by decide) (by decide)), if_neg, if_pos hnum]
  · rw [List.cons_append] at hn
    simp only [hn]
  · rintro (h | rfl)
    · rw [halpha] at h
      cases h
    · exact hne (d := '_') (by decide) (by decide) rfl

/-- An operator is read if white space follows. -/
theorem scan_mark (m : Mark) (hr : Separated r) : ∃ c t, m.text = c :: t ∧ isWhitespace c = false ∧
    scan c (t ++ r) = some (some ⟨.mark m, m.text⟩, m.text.length) := by
  -- no operator of two characters has white space for the second
  have hsep : ∀ c d : Char, isWhitespace d → doubleMark c d = none := by
    intro c d hd
    have h {e : Char} (he : isWhitespace e = false) : d ≠ e := ne_of_whitespace he hd
    simp [doubleMark, h (e := '=') (by decide), h (e := '>') (by decide), h (e := '|') (by decide)]
  have hnext : ∀ c, r.head?.bind (doubleMark c) = none := by
    intro c
    rcases hd : r.head? with - | d
    · rfl
    · exact hsep c d (hr d hd)
  have hhead : r.head? ≠ some '-' := by
    intro h
    have := hr '-' h
    simp [isWhitespace] at this
  have halpha {c : Char} (hc : c.val < 128) (hc' : c.isAlpha = false) (h : c ≠ '_') :
      ¬ (isAlphabetic c ∨ c = '_') := by
    simp [isAlphabetic_ascii_false hc hc', h]
  have hnum {c : Char} (hc : c.val < 128) (hc' : c.isDigit = false) : ¬ isNumeric c := by
    simp [isNumeric_ascii_false hc hc']
  cases m
  all_goals
    refine ⟨_, _, rfl, by decide, ?_⟩
    rw [scan_plain (by first | exact .inl (by decide) | exact .inr hhead) (by decide) (by decide)
      (by decide), if_neg (halpha (by decide) (by decide) (by decide)),
      if_neg (hnum (by decide) (by decide))]
    simp [markAt, hnext, doubleMark, singleMarks, Mark.text]

/-- A string is read up to its closing quote, unless that is the last character. -/
theorem scan_string (hr : Separated r) (t : Text) :
    scan '\'' (doubled '\'' t ++ '\'' :: r) =
      if r = [] then none else some (some ⟨.string t, t⟩, (quotedText '\'' t).length) := by
  have hq : quoted '\'' (doubled '\'' t ++ '\'' :: r) = (t, (doubled '\'' t).length + 1) :=
    quoted_doubled (fun h => absurd (hr _ h) (by decide)) t
  have hx : Exhausted ((doubled '\'' t).length + 1) (doubled '\'' t ++ '\'' :: r) ↔ r = [] := by
    rw [Exhausted, List.length_append, List.length_cons, ← List.length_eq_zero_iff]
    omega
  unfold scan
  rw [if_neg (by simp), if_neg (by simp), if_pos rfl]
  simp only [hq, hx, quotedText, List.length_cons, List.length_append, List.length_nil]

theorem scan_quotedIdentifier (hr : Separated r) (t : Text) :
    scan '"' (doubled '"' t ++ '"' :: r) =
      if r = [] then none else some (some ⟨.quotedIdentifier t, t⟩, (quotedText '"' t).length) := by
  have hq : quoted '"' (doubled '"' t ++ '"' :: r) = (t, (doubled '"' t).length + 1) :=
    quoted_doubled (fun h => absurd (hr _ h) (by decide)) t
  have hx : Exhausted ((doubled '"' t).length + 1) (doubled '"' t ++ '"' :: r) ↔ r = [] := by
    rw [Exhausted, List.length_append, List.length_cons, ← List.length_eq_zero_iff]
    omega
  unfold scan
  rw [if_neg (by simp), if_neg (by simp), if_neg (by decide), if_pos rfl]
  simp only [hq, hx, quotedText, List.length_cons, List.length_append, List.length_nil]

/-- A dollar-quoted text is read up to its end. -/
theorem scan_dollarString {t : Text} (ht : '$' ∉ t) (r : Text) :
    scan '$' ('$' :: (t ++ '$' :: '$' :: r)) = some (some ⟨.string t, t⟩, t.length + 4) := by
  have hlast : (('$' :: '$' :: (t ++ '$' :: '$' :: r)).take (t.length + 2 + 2)).reverse.take 2 =
      ['$', '$'] := by
    have h : '$' :: '$' :: (t ++ '$' :: '$' :: r) = ('$' :: '$' :: (t ++ ['$', '$'])) ++ r := by simp
    rw [h, List.take_left' (by simp)]
    simp
  unfold scan
  rw [if_neg (by simp), if_pos ⟨rfl, rfl⟩]
  simp only [List.tail_cons, dollarQuoted_append ht, hlast]
  rw [if_neg (by simp)]

theorem wordType_keyword (k : Keyword) (hk : k.isWindowFunction = false) (b : Bool) :
    wordType k.text b = .keyword k := by
  have hu : k.text.toUppercase = k.text := by
    have h : ∀ c ∈ k.text, Unicode.toUppercase c = [c] := fun c hc => by
      obtain ⟨h1, -, h3⟩ := k.text_upper.2 c hc
      rw [Unicode.toUppercase_ascii c h1, h3]
    rw [Text.toUppercase, List.flatMap_congr h, List.flatMap_singleton']
  simp [wordType, hu, hk]

theorem isWordChar_upper {k : Keyword} : ∀ c ∈ k.text, isWordChar c := by
  intro c hc
  obtain ⟨h1, h2, -⟩ := k.text_upper.2 c hc
  rcases h2 with h2 | rfl
  · simp [isWordChar, isAlphanumeric, Unicode.isAlphabetic_ascii c h1, h2]
  · simp [isWordChar]

/-- Every token is read back from its text, except a quoted one at the end of the input. -/
theorem Lexeme.scan_text (x : Lexeme) (hr : Separated r) :
    ∃ c t, x.text = c :: t ∧ isWhitespace c = false ∧ scan c (t ++ r) =
      if x.isQuoted ∧ r = [] then none else some (some x.symbol, x.text.length) := by
  cases x with
  | keyword k hk =>
    obtain ⟨c, l, hl, hc⟩ := k.text_upper.1
    have hw := isWordChar_upper (k := k)
    have hval := (k.text_upper.2 c (by simp [hl])).1
    have halpha : isAlphabetic c := by rw [Unicode.isAlphabetic_ascii c hval, hc]
    refine ⟨c, l, hl, ?_, ?_⟩
    · by_contra h
      rw [Unicode.isAlphabetic_whitespace c (by simpa using h)] at halpha
      cases halpha
    · rw [scan_word (.inl halpha) (hl ▸ hw) (hr.stops fun _ => isWordChar_whitespace), ← hl,
        wordType_keyword k hk]
      rfl
  | identifier name h =>
    obtain ⟨c, l, rfl, hc⟩ := h.head
    refine ⟨c, l, rfl, ?_, ?_⟩
    · by_contra hws
      have hws : isWhitespace c := by simpa using hws
      rcases hc with hc | rfl
      · rw [Unicode.isAlphabetic_whitespace c hws] at hc
        cases hc
      · exact absurd hws (by decide)
    · rw [scan_word hc h.word (hr.stops fun _ => isWordChar_whitespace), wordType, h.notKeyword]
      rfl
  | quotedIdentifier name =>
    refine ⟨_, _, rfl, by decide, ?_⟩
    rw [List.append_assoc, List.singleton_append, scan_quotedIdentifier hr]
    simp only [isQuoted, true_and]
    rfl
  | string value =>
    refine ⟨_, _, rfl, by decide, ?_⟩
    rw [List.append_assoc, List.singleton_append, scan_string hr]
    simp only [isQuoted, true_and]
    rfl
  | dollarString value h =>
    refine ⟨_, _, rfl, by decide, ?_⟩
    rw [List.cons_append, List.append_assoc, List.cons_append, List.singleton_append,
      scan_dollarString h]
    simp [isQuoted, symbol, tokenType, Lexeme.value, text]
  | number value h =>
    obtain ⟨int, decimal, exponent, rfl, ⟨c, l, rfl, halpha⟩, hint, -⟩ := id h
    have hnum : isNumeric c := hint c (by simp)
    refine ⟨c, l ++ (decimal ++ exponent), rfl, ?_, scan_number h (hr.stopsNumber _)⟩
    by_contra hws
    rw [Unicode.isNumeric_whitespace c (by simpa using hws)] at hnum
    cases hnum
  | mark m =>
    obtain ⟨c, t, ht, hws, hs⟩ := scan_mark m hr
    exact ⟨c, t, ht, hws, hs⟩

variable {ys : List (Option Symbol)}

@[simp] theorem scans_nil_iff : Scans [] ys [] ↔ ys = [] := by
  constructor
  · intro h
    cases h
    rfl
  · rintro rfl
    exact .refl []

theorem scans_blank_iff (hc : isWhitespace c) : Scans (c :: l) ys [] ↔ Scans l ys [] := by
  constructor
  · intro h
    cases h with
    | blank _ h => exact h
    | token hc' _ _ => simp [hc] at hc'
  · exact .blank hc

/-- The first token of a text, before white space or the end, and the rest of it. -/
theorem Lexeme.scans_append (x : Lexeme) (hr : Separated r) :
    Scans (x.text ++ r) ys [] ↔
      ¬ (x.isQuoted ∧ r = []) ∧ ∃ zs, ys = some x.symbol :: zs ∧ Scans r zs [] := by
  obtain ⟨c, t, ht, hc, hs⟩ := x.scan_text hr
  have hdrop : (c :: (t ++ r)).drop x.text.length = r := by
    rw [ht, ← List.cons_append, List.drop_left]
  rw [ht, List.cons_append]
  constructor
  · intro h
    cases h with
    | blank hc' _ => simp [hc] at hc'
    | token _ hx h =>
      rw [hs] at hx
      split at hx
      · cases hx
      · next hq =>
        cases hx
        rw [hdrop] at h
        exact ⟨hq, _, rfl, h⟩
  · rintro ⟨hq, zs, rfl, h⟩
    rw [if_neg hq] at hs
    refine .token hc hs ?_
    rw [hdrop]
    exact h

theorem write_cons_cons (x y : Lexeme) (xs : List Lexeme) :
    write (x :: y :: xs) = x.text ++ ' ' :: write (y :: xs) := by
  simp [write, List.intercalate]

/-- What is read off written tokens: the tokens, unless the last one is quoted. -/
theorem scans_write (xs : List Lexeme) : Scans (write xs) ys [] ↔
    (∀ x ∈ xs.getLast?, x.isQuoted = false) ∧ ys = xs.map fun x => some x.symbol := by
  induction xs generalizing ys with
  | nil => simp [write]
  | cons x xs ih =>
    rcases xs with - | ⟨y, xs⟩
    · have h : Scans (x.text ++ []) ys [] ↔ _ := x.scans_append separated_nil
      simpa [write] using h
    · rw [write_cons_cons, x.scans_append (separated_space _), List.getLast?_cons_cons]
      simp only [scans_blank_iff (c := ' ') (by decide), ih]
      constructor
      · rintro ⟨-, zs, rfl, hlast, rfl⟩
        exact ⟨hlast, rfl⟩
      · rintro ⟨hlast, rfl⟩
        exact ⟨by simp, _, rfl, hlast, rfl⟩

theorem tokenTypes_of_symbols {ts : List Token} {xs : List Lexeme}
    (h : ts.map Token.symbol = xs.map fun x => some x.symbol) :
    ts.map Token.tokenType = xs.map Lexeme.tokenType := by
  induction ts generalizing xs with
  | nil =>
    rcases xs with - | ⟨x, xs⟩
    · rfl
    · cases h
  | cons t ts ih =>
    rcases xs with - | ⟨x, xs⟩
    · cases h
    · rw [List.map_cons, List.map_cons, List.cons.injEq] at h
      rw [List.map_cons, List.map_cons, ih h.2, Token.tokenType_of_symbol h.1]
      rfl

/-- Written tokens are read back exactly when the last one is not quoted. -/
theorem tokenize_write_iff (xs : List Lexeme) :
    (Lexer.new (write xs)).tokenize.map (List.map Token.tokenType) =
        .ok (xs.map Lexeme.tokenType ++ [.eof]) ↔
      ∀ x ∈ xs.getLast?, x.isQuoted = false := by
  rcases Lexer.tokenize_reads (write xs) with ⟨ts, eof, h, heof, hs⟩ | ⟨m, h, hs⟩
  · obtain ⟨hlast, hts⟩ := (scans_write xs).mp hs
    refine iff_of_true ?_ hlast
    rw [h, Except.map, List.map_append, tokenTypes_of_symbols hts, List.map_singleton, heof]
  · refine iff_of_false ?_ fun hlast => hs _ ((scans_write xs).mpr ⟨hlast, rfl⟩)
    rw [h]
    exact nofun

end ReadBack

/-- A string at the end of the input is not read back. -/
theorem tokenize_string_end :
    letI := Unicode.ascii
    (Lexer.new (write [.string ['a']])).tokenize.map (List.map Token.tokenType) ≠
      .ok [.string ['a'], .eof] := by
  intro h
  cases h

end Rustgresql.Sql
