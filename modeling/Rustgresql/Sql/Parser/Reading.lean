import Rustgresql.Sql.Parser.Script

/-!
# Reading token by token

What the small programs of the parser read off a list of symbols.
-/

namespace Rustgresql.Sql

open TokenProgram (Alike reads reads_bind reads_alike parses_suffix parses_alike)

theorem identifier_of_identifierName {x : Symbol} {name : Text}
    (h : x.tokenType.identifierName = some name) :
    x.identifier = some name := by
  unfold TokenType.identifierName at h
  unfold Symbol.identifier
  split at h <;> simp_all

/-- The tokens with which blocks go on or end. -/
def blockMarks : List TokenType :=
  [.keyword .declare, .keyword .«end», .keyword .exception, .keyword .when, .mark .semicolon]

section Reading

variable [Std] {α β : Type}

/-- What a program reads off a list of symbols. -/
abbrev reading (p : Parse α) (l : List (Option Symbol)) : Option (α × List (Option Symbol)) :=
  reads Symbol.literal parses p l

theorem reading_bind (p : Parse α) (k : α → Parse β) (l : List (Option Symbol)) :
    reading (p >>= k) l = (reading p l).bind fun r => reading (k r.1) r.2 :=
  reads_bind p k l

theorem reading_bind_of {p : Parse α} {l l' : List (Option Symbol)} {a : α}
    (h : reading p l = some (a, l')) (k : α → Parse β) :
    reading (p >>= k) l = reading (k a) l' := by
  rw [reading_bind, h, Option.bind_some]

theorem reading_pure (a : α) (l : List (Option Symbol)) : reading (pure a) l = some (a, l) := rfl

theorem reading_call (c : Call) (l : List (Option Symbol)) :
    reading (call c) l = reading (parser c) l := by
  change (parses c l).bind (fun r => some (r.1, r.2)) = _
  rw [parses_def, Option.bind_fun_some]

/-- What is read before the end of a list is read on a longer list, too. -/
theorem reading_append {p : Parse α} {pre r : List (Option Symbol)} {a : α}
    (h : reading p pre = some (a, r)) (hr : r ≠ []) (q : List (Option Symbol)) :
    reading p (pre ++ q) = some (a, r ++ q) := by
  have hsuffix (c : Call) (l : List (Option Symbol)) (r : c.Result) (l' : List (Option Symbol))
      (h : parses c l = some (r, l')) : l' <:+ l := parses_suffix h
  have hcall (c : Call) (pre post post' : List (Option Symbol)) :
      Alike post post' (parses c (pre ++ post)) (parses c (pre ++ post')) :=
    parses_alike parser_guarded c pre post post'
  have halike : Alike q [] (reading p (pre ++ q)) (reading p (pre ++ [])) :=
    reads_alike hsuffix hcall p pre q []
  obtain ⟨a', r', -, hpost, hpre⟩ | ⟨-, hpre⟩ := halike
  · rw [List.append_nil, List.append_nil] at hpre
    cases h.symm.trans hpre
    exact hpost
  · rw [List.append_nil] at hpre
    exact absurd (List.suffix_nil.mp (hpre a r h)) hr

variable {x : Symbol} {l : List (Option Symbol)} {t : TokenType}

theorem reading_matchToken_of (h : x.tokenType = t) :
    reading (matchToken t) (some x :: l) = some (true, l) := by
  simp [matchToken, reads, h]

theorem reading_matchToken_ne (h : x.tokenType ≠ t) :
    reading (matchToken t) (some x :: l) = some (false, some x :: l) := by
  simp [matchToken, reads, h]

theorem reading_consumeToken_of {m : String} (h : x.tokenType = t) :
    reading (consumeToken t m) (some x :: l) = some ((), l) := by
  simp [consumeToken, reads, h]

theorem reading_consumeToken_ne {m : String} (h : x.tokenType ≠ t) :
    reading (consumeToken t m) (some x :: l) = none := by
  simp [consumeToken, reads, h, fail]

section Marks

variable {k : Keyword} {m : Mark} {message : String}

theorem reading_matchKeyword_of (h : x.tokenType = .keyword k) :
    reading (matchKeyword k) (some x :: l) = some (true, l) := reading_matchToken_of h

theorem reading_matchKeyword_ne (h : x.tokenType ≠ .keyword k) :
    reading (matchKeyword k) (some x :: l) = some (false, some x :: l) := reading_matchToken_ne h

theorem reading_matchMark_of (h : x.tokenType = .mark m) :
    reading (matchMark m) (some x :: l) = some (true, l) := reading_matchToken_of h

theorem reading_matchMark_ne (h : x.tokenType ≠ .mark m) :
    reading (matchMark m) (some x :: l) = some (false, some x :: l) := reading_matchToken_ne h

theorem reading_consumeKeyword_of (h : x.tokenType = .keyword k) :
    reading (consumeKeyword k message) (some x :: l) = some ((), l) := reading_consumeToken_of h

theorem reading_consumeKeyword_ne (h : x.tokenType ≠ .keyword k) :
    reading (consumeKeyword k message) (some x :: l) = none := reading_consumeToken_ne h

theorem reading_consumeMark_of (h : x.tokenType = .mark m) :
    reading (consumeMark m message) (some x :: l) = some ((), l) := reading_consumeToken_of h

end Marks

theorem reading_peekType : reading peekType (some x :: l) = some (some x.tokenType, some x :: l) := rfl

theorem reading_isAtEnd : reading isAtEnd (some x :: l) = some (false, some x :: l) := rfl

theorem reading_consumeIdentifier {name : Text} (h : x.identifier = some name) :
    reading consumeIdentifier (some x :: l) = some (name, l) := by
  simp [consumeIdentifier, reads, h]

/-- Statements begin with keywords that do not end a block. -/
theorem reading_parseStatement_none (h : x.tokenType ∈ blockMarks) :
    reading parseStatement (some x :: l) = none := by
  unfold parseStatement
  rw [reading_bind_of reading_peekType]
  simp only [blockMarks, List.mem_cons, List.not_mem_nil, or_false] at h
  rcases h with h | h | h | h | h <;> rw [h] <;> rfl

end Reading

end Rustgresql.Sql
