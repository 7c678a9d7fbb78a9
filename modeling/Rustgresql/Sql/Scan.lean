import Rustgresql.Sql.Lexer

/-!
# What the lexer reads

The symbol of a token is its type and value, without its position. Comments have no symbol. What the
lexer makes of a text is the list of symbols that `Scans` reads off it, character by character for
white space and token by token for the rest: the position and what was read before do not matter.
-/

namespace Rustgresql.Sql

open TokenProgram (Stop)

/-- What the parser sees of a token. -/
structure Symbol where
  tokenType : TokenType
  value : Text
  deriving DecidableEq

def Token.symbol (t : Token) : Option Symbol :=
  match t.tokenType with
  | .whitespace => none
  | .comment _ => none
  | .eof => none
  | type => some ⟨type, t.value⟩

theorem Token.tokenType_of_symbol {t : Token} {x : Symbol} (h : t.symbol = some x) :
    t.tokenType = x.tokenType := by
  unfold Token.symbol at h
  split at h <;> cases h
  rfl

theorem Token.value_of_symbol {t : Token} {x : Symbol} (h : t.symbol = some x) :
    t.value = x.value := by
  unfold Token.symbol at h
  split at h <;> cases h
  rfl

/-- Whether an opening parenthesis is ahead, behind white space. -/
def parenAhead (l : Text) : Bool := (l.dropWhile isWhitespace).head? == some '('

/-- Whether nothing is left behind the first `n` characters. -/
def Exhausted (n : ℕ) (l : Text) : Prop := l.length ≤ n

instance (n : ℕ) (l : Text) : Decidable (Exhausted n l) := inferInstanceAs (Decidable (_ ≤ _))

theorem drop_takeWhile (p : Char → Bool) (l : Text) :
    l.drop (l.takeWhile p).length = l.dropWhile p := by
  have h : (l.takeWhile p ++ l.dropWhile p).drop (l.takeWhile p).length = l.dropWhile p :=
    List.drop_left
  rwa [List.takeWhile_append_dropWhile] at h

namespace Lexer

/-- The current line began within the input. -/
def LineStarted (s : Lexer) : Prop := s.column - 1 ≤ s.consumed.length

theorem lineStarted_new (input : Text) : (new input).LineStarted := by
  simp [LineStarted, new]

theorem advance_rest (n : ℕ) (s : Lexer) : (s.advance n).rest = s.rest.drop n := by
  induction n generalizing s with
  | zero => rfl
  | succ n ih =>
    unfold advance
    rcases hr : s.rest with - | ⟨c, rest⟩
    · simp [hr]
    · simp [ih]

theorem advance_advance (n m : ℕ) (s : Lexer) : (s.advance n).advance m = s.advance (n + m) := by
  induction n generalizing s with
  | zero => rw [Nat.zero_add]; rfl
  | succ n ih =>
    rw [Nat.succ_add]
    rcases hr : s.rest with - | ⟨c, rest⟩
    · cases m <;> simp [advance, hr]
    · simp only [advance, hr]
      exact ih _

theorem advance_consumed (n : ℕ) (s : Lexer) :
    (s.advance n).consumed = (s.rest.take n).reverse ++ s.consumed := by
  induction n generalizing s with
  | zero => rfl
  | succ n ih =>
    unfold advance
    rcases hr : s.rest with - | ⟨c, rest⟩
    · simp
    · simp [ih]

@[simp] theorem advance_tokens (n : ℕ) (s : Lexer) : (s.advance n).tokens = s.tokens := by
  induction n generalizing s with
  | zero => rfl
  | succ n ih =>
    unfold advance
    rcases s.rest with - | ⟨c, rest⟩
    · rfl
    · simp [ih]

theorem LineStarted.advance {s : Lexer} (h : s.LineStarted) (n : ℕ) :
    (s.advance n).LineStarted := by
  induction n generalizing s with
  | zero => exact h
  | succ n ih =>
    unfold Lexer.advance
    rcases s.rest with - | ⟨c, rest⟩
    · exact h
    · apply ih
      simp only [LineStarted, List.length_cons] at h ⊢
      split <;> omega

theorem LineStarted.push {s : Lexer} (h : s.LineStarted) (t : Token) : (s.push t).LineStarted := h

/-- A round of `tokenize` read `n` characters and the symbols `xs`. -/
def Read (s : Lexer) (xs : List (Option Symbol)) (n : ℕ) (o : Except (Stop String) Lexer) : Prop :=
  ∃ s', o = .ok s' ∧ s'.rest = s.rest.drop n ∧ s'.tokens.map Token.symbol = s.tokens.map Token.symbol ++ xs ∧
    s'.LineStarted

theorem Read.push {s : Lexer} (hs : s.LineStarted) (n : ℕ) (t : Token) :
    Read s [t.symbol] n (.ok ((s.advance n).push t)) :=
  ⟨_, rfl, advance_rest n s, by simp [Lexer.push], (hs.advance n).push t⟩

variable {s : Lexer} {c : Char} {l : Text}

theorem rest_advance_eq_nil (k n : ℕ) (s : Lexer) :
    (s.advance (k + n)).rest = [] ↔ Exhausted n (s.rest.drop k) := by
  rw [advance_rest, List.drop_eq_nil_iff, Exhausted, List.length_drop, Nat.sub_le_iff_le_add']

theorem consumeLineComment_read (hs : s.LineStarted) :
    Read s [none] (((s.rest.drop 2).takeWhile (· ≠ '\n')).length + 2) s.consumeLineComment := by
  simp only [consumeLineComment, advance_rest, advance_advance]
  rw [Nat.add_comm 2, if_pos (show _ ≤ _ from hs.advance _)]
  exact Read.push hs _ _

theorem consumeString_read (hs : s.LineStarted) (h : s.rest = c :: l) :
    if Exhausted (quoted '\'' l).2 l then ∃ m, s.consumeString = .error (.error m)
    else Read s [some ⟨.string (quoted '\'' l).1, (quoted '\'' l).1⟩] ((quoted '\'' l).2 + 1)
      s.consumeString := by
  have hl : (s.advance 1).rest = l := by rw [advance_rest, h, List.drop_succ_cons, List.drop_zero]
  simp only [consumeString, hl, advance_advance, rest_advance_eq_nil, ← advance_rest]
  split
  · exact ⟨_, rfl⟩
  · rw [Nat.add_comm 1]
    exact Read.push hs _ _

theorem consumeQuotedIdentifier_read (hs : s.LineStarted) (h : s.rest = c :: l) :
    if Exhausted (quoted '"' l).2 l then ∃ m, s.consumeQuotedIdentifier = .error (.error m)
    else Read s [some ⟨.quotedIdentifier (quoted '"' l).1, (quoted '"' l).1⟩] ((quoted '"' l).2 + 1)
      s.consumeQuotedIdentifier := by
  have hl : (s.advance 1).rest = l := by rw [advance_rest, h, List.drop_succ_cons, List.drop_zero]
  simp only [consumeQuotedIdentifier, hl, advance_advance, rest_advance_eq_nil, ← advance_rest]
  split
  · exact ⟨_, rfl⟩
  · rw [Nat.add_comm 1]
    exact Read.push hs _ _

theorem consumeDollarQuotedString_read (hs : s.LineStarted) (h : s.rest = c :: l) (hd : l ≠ []) :
    if Exhausted (dollarQuoted l.tail).2 l.tail ∧
        ((c :: l).take ((dollarQuoted l.tail).2 + 2)).reverse.take 2 ≠ ['$', '$'] then
      ∃ m, s.consumeDollarQuotedString = .error (.error m)
    else Read s [some ⟨.string (dollarQuoted l.tail).1, (dollarQuoted l.tail).1⟩]
      ((dollarQuoted l.tail).2 + 2) s.consumeDollarQuotedString := by
  have hl : (s.advance 2).rest = l.tail := by
    rw [advance_rest, h, List.drop_succ_cons, List.drop_one]
  -- the last two characters read are of the token, not from before it
  have hlast : ((s.advance (2 + (dollarQuoted l.tail).2)).consumed).take 2 =
      ((c :: l).take ((dollarQuoted l.tail).2 + 2)).reverse.take 2 := by
    obtain ⟨d, l, rfl⟩ := List.exists_cons_of_ne_nil hd
    rw [advance_consumed, h, Nat.add_comm 2, List.take_append_of_le_length]
    simp
  simp only [consumeDollarQuotedString, hl, advance_advance, rest_advance_eq_nil, ← advance_rest,
    hlast]
  split
  · exact ⟨_, rfl⟩
  · rw [Nat.add_comm 2]
    exact Read.push hs _ _

theorem addToken_read (hs : s.LineStarted) {m : Mark} {n : ℕ} (hn : n ≤ s.rest.length) :
    Read s [some ⟨.mark m, s.rest.take n⟩] n (s.addToken (.mark m) n) := by
  rw [addToken, if_pos hn]
  exact Read.push hs _ _

theorem consumeWhitespace_reads (hs : s.LineStarted) :
    Read s [] (s.rest.takeWhile isWhitespace).length (.ok s.consumeWhitespace) :=
  ⟨_, rfl, advance_rest _ s, by simp [consumeWhitespace], hs.advance _⟩

theorem length_markAt {next : Option Char} {m : Mark} {n : ℕ} (h : markAt c next = some (m, n)) :
    n = 1 ∨ n = 2 ∧ next.isSome := by
  unfold markAt at h
  split at h
  · next m hm =>
    obtain ⟨d, rfl, -⟩ := Option.bind_eq_some_iff.mp hm
    cases h
    exact .inr ⟨rfl, rfl⟩
  · obtain ⟨e, -, he⟩ := Option.map_eq_some_iff.mp h
    cases he
    exact .inl rfl

/-- What a round of `tokenize` does, given what `scan` finds. -/
def RoundReads (s : Lexer) : Option (Option Symbol × ℕ) → Except (Stop String) Lexer → Prop
  | some (x, n), o => Read s [x] n o
  | none, o => ∃ m, o = .error (.error m)

theorem roundReads_ite {P : Prop} [Decidable P] {x : Option Symbol} {n : ℕ}
    {o : Except (Stop String) Lexer}
    (h : if P then ∃ m, o = .error (.error m) else Read s [x] n o) :
    RoundReads s (if P then none else some (x, n)) o := by
  split at h
  · rwa [if_pos ‹P›]
  · rwa [if_neg ‹¬P›]

end Lexer

variable [Unicode]

/-- The symbol of the token at a character that is not white space, and its length; the symbol of a
comment is `none`. -/
def scan (c : Char) (l : Text) : Option (Option Symbol × ℕ) :=
  if c = '-' ∧ l.head? = some '-' then some (none, (l.tail.takeWhile (· ≠ '\n')).length + 2)
  else if c = '$' ∧ l.head? = some '$' then
    let r := dollarQuoted l.tail
    if Exhausted r.2 l.tail ∧ ((c :: l).take (r.2 + 2)).reverse.take 2 ≠ ['$', '$'] then none
    else some (some ⟨.string r.1, r.1⟩, r.2 + 2)
  else if c = '\'' then
    let r := quoted '\'' l
    if Exhausted r.2 l then none else some (some ⟨.string r.1, r.1⟩, r.2 + 1)
  else if c = '"' then
    let r := quoted '"' l
    if Exhausted r.2 l then none else some (some ⟨.quotedIdentifier r.1, r.1⟩, r.2 + 1)
  else if isAlphabetic c ∨ c = '_' then
    let word := (c :: l).takeWhile isWordChar
    some (some ⟨wordType word (parenAhead ((c :: l).drop word.length)), word⟩, word.length)
  else if isNumeric c then
    let number := numberText (c :: l)
    some (some ⟨.number number, number⟩, number.length)
  else
    (markAt c l.head?).bind fun r =>
      if r.2 ≤ (c :: l).length then some (some ⟨.mark r.1, (c :: l).take r.2⟩, r.2) else none

/-- Reading a text gives symbols, and leaves a text. -/
inductive Scans : Text → List (Option Symbol) → Text → Prop
  | refl (l : Text) : Scans l [] l
  | blank {c : Char} {l l' : Text} {xs : List (Option Symbol)} (hc : isWhitespace c)
      (h : Scans l xs l') : Scans (c :: l) xs l'
  | token {c : Char} {l l' : Text} {x : Option Symbol} {n : ℕ} {xs : List (Option Symbol)}
      (hc : isWhitespace c = false) (hx : scan c l = some (x, n))
      (h : Scans ((c :: l).drop n) xs l') : Scans (c :: l) (x :: xs) l'

theorem Scans.trans {l l' l'' : Text} {xs ys : List (Option Symbol)} (h : Scans l xs l')
    (h' : Scans l' ys l'') : Scans l (xs ++ ys) l'' := by
  induction h with
  | refl l => exact h'
  | blank hc _ ih => exact .blank hc (ih h')
  | token hc hx _ ih => exact .token hc hx (ih h')

/-! ## The lexer reads what `Scans` says -/

namespace Lexer

variable {s : Lexer} {c : Char} {l : Text}

theorem symbol_wordType (word : Text) (b : Bool) (line column : ℕ) :
    Token.symbol ⟨wordType word b, line, column, word⟩ = some ⟨wordType word b, word⟩ := by
  unfold wordType
  split
  · split <;> rfl
  · rfl

/-- A round reads the token that `scan` finds, and fails where `scan` finds none. -/
theorem tokenizeRound_reads (hs : s.LineStarted) (h : s.rest = c :: l)
    (hc : isWhitespace c = false) : RoundReads s (scan c l) (s.tokenizeRound c) := by
  have hp : s.peekChar = l.head? := by rw [peekChar, h, List.tail_cons]
  simp only [tokenizeRound, scan, hp]
  rw [if_neg (Bool.eq_false_iff.mp hc)]
  by_cases hcomment : c = '-' ∧ l.head? = some '-'
  · rw [if_pos hcomment, if_pos hcomment]
    simpa [h, RoundReads] using consumeLineComment_read hs
  rw [if_neg hcomment, if_neg hcomment]
  by_cases hdollar : c = '$' ∧ l.head? = some '$'
  · rw [if_pos hdollar, if_pos hdollar]
    exact roundReads_ite (consumeDollarQuotedString_read hs h (by rintro rfl; simp at hdollar))
  rw [if_neg hdollar, if_neg hdollar]
  by_cases hstring : c = '\''
  · rw [if_pos hstring, if_pos hstring]
    exact roundReads_ite (consumeString_read hs h)
  rw [if_neg hstring, if_neg hstring]
  by_cases hquoted : c = '"'
  · rw [if_pos hquoted, if_pos hquoted]
    exact roundReads_ite (consumeQuotedIdentifier_read hs h)
  rw [if_neg hquoted, if_neg hquoted]
  by_cases hword : isAlphabetic c ∨ c = '_'
  · rw [if_pos hword, if_pos hword]
    have := Read.push hs ((c :: l).takeWhile isWordChar).length
      ⟨wordType ((c :: l).takeWhile isWordChar)
        (parenAhead ((c :: l).drop ((c :: l).takeWhile isWordChar).length)), s.line, s.column,
        (c :: l).takeWhile isWordChar⟩
    rw [symbol_wordType] at this
    simp only [consumeIdentifierOrKeyword, h, advance_rest]
    exact this
  rw [if_neg hword, if_neg hword]
  by_cases hnumber : isNumeric c
  · rw [if_pos hnumber, if_pos hnumber]
    simp only [consumeNumber, h]
    exact Read.push hs _ _
  rw [if_neg hnumber, if_neg hnumber]
  rcases hm : markAt c l.head? with - | ⟨m, n⟩
  · exact ⟨_, rfl⟩
  · have hn : n ≤ (c :: l).length := by
      rcases length_markAt hm with rfl | ⟨rfl, hl⟩
      · simp
      · rcases l with - | ⟨d, l⟩
        · simp at hl
        · simp
    simp only [Option.bind_some]
    rw [if_pos hn, ← h]
    exact addToken_read hs (h ▸ hn)

end Lexer

/-! ### Reading to the end -/

variable {c : Char} {l l' : Text} {x : Option Symbol} {n : ℕ} {xs ys : List (Option Symbol)}

theorem length_scan (h : scan c l = some (x, n)) : 0 < n := by
  unfold scan at h
  simp only at h
  split at h
  · cases h; omega
  split at h
  · split at h <;> cases h
    omega
  split at h
  · split at h <;> cases h
    omega
  split at h
  · split at h <;> cases h
    omega
  split at h
  · next hc =>
    cases h
    have : isWordChar c := by rcases hc with hc | rfl <;> simp [isWordChar, isAlphanumeric, *]
    simp [this]
  split at h
  · next hc =>
    cases h
    simp [numberText, hc]
  · obtain ⟨⟨m, k⟩, hm, hx⟩ := Option.bind_eq_some_iff.mp h
    split at hx <;> cases hx
    rcases Lexer.length_markAt hm with rfl | ⟨rfl, -⟩ <;> simp

/-- Reading to the end gives one list of symbols. -/
theorem Scans.unique (h : Scans l xs []) (h' : Scans l ys []) : xs = ys := by
  generalize he : ([] : Text) = e at h h'
  induction h generalizing ys with
  | refl l =>
    subst he
    cases h' with
    | refl _ => rfl
  | blank hc _ ih =>
    cases h' with
    | refl _ => cases he
    | blank _ h' => exact ih he h'
    | token hc' _ _ => simp [hc] at hc'
  | token hc hx _ ih =>
    cases h' with
    | refl _ => cases he
    | blank hc' _ => simp [hc] at hc'
    | token _ hx' h' =>
      cases hx.symm.trans hx'
      rw [ih he h']

theorem scans_dropWhile (h : Scans (l.dropWhile isWhitespace) xs l') : Scans l xs l' := by
  induction l with
  | nil => exact h
  | cons c l ih =>
    rw [List.dropWhile_cons] at h
    split at h
    · next hc => exact .blank hc (ih h)
    · exact h

theorem Scans.dropWhile (h : Scans l xs []) : Scans (l.dropWhile isWhitespace) xs [] := by
  induction l with
  | nil => exact h
  | cons c l ih =>
    rw [List.dropWhile_cons]
    split
    · next hc =>
      cases h with
      | blank _ h => exact ih h
      | token hc' _ _ => simp [hc] at hc'
    · exact h

namespace Lexer

/-- The loop reads what `Scans` says, or stops with an error where `Scans` says nothing. -/
theorem tokenizeLoop_reads (n : ℕ) (s : Lexer) (hs : s.LineStarted) (hn : s.rest.length < n) :
    (∃ s' xs, tokenizeLoop n s = .ok s' ∧ Scans s.rest xs [] ∧
      s'.tokens.map Token.symbol = s.tokens.map Token.symbol ++ xs) ∨
    (∃ m, tokenizeLoop n s = .error (.error m) ∧ ∀ xs, ¬ Scans s.rest xs []) := by
  induction n generalizing s with
  | zero => omega
  | succ n ih =>
    rcases hr : s.rest with - | ⟨c, l⟩
    · exact .inl ⟨s, [], by simp [tokenizeLoop, hr], .refl _, by simp⟩
    simp only [tokenizeLoop, hr]
    rw [hr, List.length_cons] at hn
    by_cases hc : isWhitespace c
    · -- white space is read in one round
      obtain ⟨s', ho, hrest, htokens, hs'⟩ := consumeWhitespace_reads hs
      rw [tokenizeRound, if_pos hc, ho, Except.bind]
      have hdrop : s'.rest = (c :: l).dropWhile isWhitespace := by
        rw [hrest, hr]
        exact drop_takeWhile _ _
      have hlt : s'.rest.length < n := by
        rw [hdrop, List.dropWhile_cons, if_pos hc]
        exact lt_of_le_of_lt (List.dropWhile_suffix _).length_le (by omega)
      rcases ih s' hs' hlt with ⟨s'', xs, h, hx, ht⟩ | ⟨m, h, hx⟩
      · refine .inl ⟨s'', xs, h, scans_dropWhile (hdrop ▸ hx), ?_⟩
        rw [ht, htokens, List.append_nil]
      · exact .inr ⟨m, h, fun xs hxs => hx xs (hdrop ▸ hxs.dropWhile)⟩
    · have hc : isWhitespace c = false := Bool.eq_false_iff.mpr hc
      have hround := tokenizeRound_reads hs hr hc
      rcases hscan : scan c l with - | ⟨x, k⟩
      · rw [hscan] at hround
        obtain ⟨m, hm⟩ := hround
        rw [hm]
        refine .inr ⟨m, rfl, fun xs hxs => ?_⟩
        cases hxs with
        | blank hc' _ => simp [hc] at hc'
        | token _ hx _ => simp [hscan] at hx
      · rw [hscan] at hround
        obtain ⟨s', ho, hrest, htokens, hs'⟩ := hround
        rw [ho, Except.bind]
        have hk := length_scan hscan
        have hlt : s'.rest.length < n := by
          rw [hrest, hr, List.length_drop, List.length_cons]
          omega
        rw [hr] at hrest
        rcases ih s' hs' hlt with ⟨s'', xs, h, hx, ht⟩ | ⟨m, h, hx⟩
        · refine .inl ⟨s'', x :: xs, h, .token hc hscan (hrest ▸ hx), ?_⟩
          rw [ht, htokens, List.append_assoc, List.singleton_append]
        · refine .inr ⟨m, h, fun xs hxs => ?_⟩
          cases hxs with
          | blank hc' _ => simp [hc] at hc'
          | token _ hx' h' =>
            cases hscan.symm.trans hx'
            exact hx _ (hrest ▸ h')

/-- The lexer gives the tokens with the symbols that `Scans` reads, and the end token; it fails with
an error where `Scans` cannot read to the end. -/
theorem tokenize_reads (input : Text) :
    (∃ ts eof, (new input).tokenize = .ok (ts ++ [eof]) ∧ eof.tokenType = .eof ∧
      Scans input (ts.map Token.symbol) []) ∨
    (∃ m, (new input).tokenize = .error (.error m) ∧ ∀ xs, ¬ Scans input xs []) := by
  rcases tokenizeLoop_reads _ (new input) (lineStarted_new input) (Nat.lt_succ_self _) with
    ⟨s, xs, h, hx, ht⟩ | ⟨m, h, hx⟩
  · refine .inl ⟨s.tokens, _, by rw [tokenize, h]; rfl, rfl, ?_⟩
    rw [ht]
    exact hx
  · exact .inr ⟨m, by rw [tokenize, h]; rfl, hx⟩

end Lexer

end Rustgresql.Sql
