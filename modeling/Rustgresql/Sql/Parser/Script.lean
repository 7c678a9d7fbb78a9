import Rustgresql.Sql.Parser.Total

/-!
# What the parser reads

`parseSql` as a relation between the symbols of a text and statements: `Script`. The symbols up to a
place where no statement is open are `Closed`; what is read behind it does not depend on them.
-/

namespace Rustgresql.Sql

open TokenProgram (State Reader Alike exec reads forget_exec exec_length_lt parses_alike
  parses_blocked parses_eq Reaches)

variable [Std]

/-- What a number token denotes in an expression. -/
def Symbol.literal (x : Symbol) : Option (Option Value) :=
  match x.tokenType with
  | .number _ => some (numberValue x.value)
  | _ => none

/-- What a call reads off a list of symbols. -/
abbrev parses (c : Call) (l : List (Option Symbol)) : Option (c.Result × List (Option Symbol)) :=
  TokenProgram.parses Symbol.literal parser c l

/-- A call reads what its program reads. -/
theorem parses_def (c : Call) (l : List (Option Symbol)) :
    parses c l = reads Symbol.literal parses (parser c) l :=
  parses_eq parser_guarded c l

/-- A list of symbols is read as statements with semicolons between them. -/
inductive Script : List (Option Symbol) → List Statement → Prop
  | nil : Script [] []
  | comment {l : List (Option Symbol)} {sts : List Statement} (h : Script l sts) :
      Script (none :: l) sts
  | last {l : List (Option Symbol)} {st : Statement} (hst : parses .statement l = some (st, [])) :
      Script l [st]
  | statement {l l' : List (Option Symbol)} {x : Symbol} {st : Statement} {sts : List Statement}
      (hst : parses .statement l = some (st, some x :: l')) (hx : x.tokenType = .mark .semicolon)
      (h : Script l' sts) : Script l (st :: sts)

/-- A list of symbols is read as statements, each with its semicolon: no statement is open behind
it. -/
inductive Closed : List (Option Symbol) → Prop
  | nil : Closed []
  | comment {l : List (Option Symbol)} (h : Closed l) : Closed (none :: l)
  | statement {l l' : List (Option Symbol)} {x : Symbol} {st : Statement}
      (hst : parses .statement l = some (st, some x :: l')) (hx : x.tokenType = .mark .semicolon)
      (h : Closed l') : Closed l

variable {l pre post : List (Option Symbol)} {sts : List Statement}

/-- No statement begins with a comment or at the end. -/
theorem parses_statement_none : parses .statement (none :: l) = none := by
  rw [parses_def]
  rfl

theorem parses_statement_nil : parses .statement [] = none := by
  rw [parses_def]
  rfl

theorem script_nil : Script [] sts ↔ sts = [] := by
  constructor
  · rintro (- | - | h | ⟨h, -, -⟩)
    · rfl
    all_goals
      rw [parses_statement_nil] at h
      cases h
  · rintro rfl
    exact .nil

theorem script_comment : Script (none :: l) sts ↔ Script l sts := by
  constructor
  · rintro (- | h | h | ⟨h, -, -⟩)
    · exact h
    all_goals
      rw [parses_statement_none] at h
      cases h
  · exact .comment

/-- Behind a symbol, what the statement there leaves decides. -/
theorem script_symbol {y : Symbol} : Script (some y :: l) sts ↔
    (∃ st, parses .statement (some y :: l) = some (st, []) ∧ sts = [st]) ∨
    ∃ st x l' sts', parses .statement (some y :: l) = some (st, some x :: l') ∧
      x.tokenType = .mark .semicolon ∧ Script l' sts' ∧ sts = st :: sts' := by
  constructor
  · rintro (- | - | h | ⟨h, hx, hs⟩)
    · exact .inl ⟨_, h, rfl⟩
    · exact .inr ⟨_, _, _, _, h, hx, hs, rfl⟩
  · rintro (⟨st, h, rfl⟩ | ⟨st, x, l', sts', h, hx, hs, rfl⟩)
    · exact .last h
    · exact .statement h hx hs

/-! ## The loop of the parser -/

theorem parseLoop_eq_ok {eof : Token} {n : ℕ} {s : State Token} (hn : s.rest.length < n) :
    parseLoop (reader eof) n s = .ok sts ↔ Script (s.rest.map Token.symbol) sts := by
  induction n generalizing s sts with
  | zero => omega
  | succ n ih =>
    rcases hr : s.rest with - | ⟨t, rest⟩
    · simp [parseLoop, hr, script_nil, eq_comm]
    rw [hr, List.length_cons] at hn
    simp only [parseLoop, hr, List.map_cons]
    rcases ht : t.symbol with - | y
    · -- a comment
      rw [if_pos rfl, ih (by simpa using hn), script_comment]
    rw [if_neg (Option.some_ne_none _), script_symbol]
    have hexec : TokenProgram.forget (reader eof) (exec (reader eof) parser Call.statement s) =
        parses .statement (s.rest.map Token.symbol) := forget_exec Call.statement s
    rw [hr, List.map_cons, ht] at hexec
    rcases he : exec (reader eof) parser .statement s with e | ⟨st, s'⟩
    · -- no statement
      rw [he] at hexec
      refine iff_of_false (fun hok => by cases hok) ?_
      rintro (⟨st, h, -⟩ | ⟨st, x, l', sts', h, -⟩) <;> cases hexec.trans h
    have hlt := exec_length_lt (c := .statement) parser_guarded strict_parseStatement he
    rw [hr, List.length_cons] at hlt
    rw [he] at hexec
    rcases hr' : s'.rest with - | ⟨u, rest'⟩
    · -- the last statement
      have hlast : parses .statement (some y :: rest.map Token.symbol) = some (st, []) := by
        rw [← hexec, TokenProgram.forget, hr', List.map_nil]
      simp only [hr', Except.ok.injEq]
      constructor
      · exact fun h => .inl ⟨st, hlast, h.symm⟩
      · rintro (⟨st', h, rfl⟩ | ⟨st', x, l', sts', h, -⟩) <;> cases hlast.symm.trans h
        rfl
    · have hmore : parses .statement (some y :: rest.map Token.symbol) =
          some (st, u.symbol :: rest'.map Token.symbol) := by
        rw [← hexec, TokenProgram.forget, hr', List.map_cons]
        rfl
      rw [hr', List.length_cons] at hlt
      have hloop (sts' : List Statement) : parseLoop (reader eof) n ⟨some u, rest'⟩ = .ok sts' ↔
          Script (rest'.map Token.symbol) sts' :=
        ih (by simp only; omega)
      simp only [hr']
      split
      · next hu =>
        obtain ⟨x, hx, hsemicolon⟩ := Option.map_eq_some_iff.mp hu
        rw [hx] at hmore
        constructor
        · intro h
          rcases hp : parseLoop (reader eof) n ⟨some u, rest'⟩ with e | sts'
          · rw [hp] at h
            cases h
          · rw [hp] at h
            cases h
            exact .inr ⟨st, x, _, sts', hmore, hsemicolon, (hloop sts').mp hp, rfl⟩
        · rintro (⟨st', h, -⟩ | ⟨st', x', l', sts', h, -, hs, rfl⟩) <;> cases hmore.symm.trans h
          rw [(hloop sts').mpr hs]
          rfl
      · next hu =>
        -- something else than a semicolon
        refine iff_of_false (fun hok => by cases hok) ?_
        rintro (⟨st', h, -⟩ | ⟨st', x, l', sts', h, hx, -⟩) <;> have h := hmore.symm.trans h
        · simp at h
        · simp only [Option.some.injEq, Prod.mk.injEq, List.cons.injEq] at h
          exact hu (by rw [h.2.1, Option.map_some, hx])

/-- The parser reads statements off a text exactly if the lexer reads symbols that are a script. -/
theorem parseSql_eq_ok {sql : Text} :
    parseSql sql = .ok sts ↔ ∃ xs, Scans sql xs [] ∧ Script xs sts := by
  unfold parseSql
  rcases Lexer.tokenize_reads sql with ⟨ts, eof, ht, -, hs⟩ | ⟨m, ht, hs⟩
  · rw [ht]
    simp only [Except.bind, parse, List.getLast?_concat, List.dropLast_concat]
    rw [parseLoop_eq_ok (by simp)]
    constructor
    · exact fun h => ⟨_, hs, h⟩
    · rintro ⟨xs, hxs, h⟩
      rwa [hs.unique hxs]
  · rw [ht]
    refine iff_of_false (fun hok => by cases hok) ?_
    rintro ⟨xs, hxs, -⟩
    exact hs xs hxs

/-! ## Where no statement is open -/

/-- A reading that ends before the end of a list goes the same way on a longer list. -/
theorem parses_append {c : Call} {r q : List (Option Symbol)} {a : c.Result} (hr : r ≠ []) :
    parses c (pre ++ q) = some (a, r ++ q) ↔ parses c pre = some (a, r) := by
  have h : Alike q [] (parses c (pre ++ q)) (parses c (pre ++ [])) :=
    parses_alike parser_guarded c pre q []
  rw [List.append_nil] at h
  obtain ⟨a', r', -, hpost, hpre⟩ | ⟨hpost, hpre⟩ := h
  · rw [List.append_nil] at hpre
    simp only [parses, hpost, hpre, Option.some.injEq, Prod.mk.injEq, List.append_cancel_right_eq]
  · -- neither reading ends before the end of the list
    refine iff_of_false (fun h => ?_) fun h => hr (List.suffix_nil.mp (hpre a r h))
    have hlen := (hpost a _ h).length_le
    rw [List.length_append] at hlen
    exact hr (List.eq_nil_of_length_eq_zero (by omega))

theorem script_statement {x : Symbol} {st : Statement} {l' : List (Option Symbol)}
    (h : parses .statement l = some (st, some x :: l')) (hx : x.tokenType = .mark .semicolon) :
    Script l sts ↔ ∃ sts', Script l' sts' ∧ sts = st :: sts' := by
  constructor
  · intro hs
    rcases l with - | ⟨- | y, l⟩
    · rw [parses_statement_nil] at h
      cases h
    · rw [parses_statement_none] at h
      cases h
    · obtain ⟨st', h', -⟩ | ⟨st', x', l'', sts', h', -, hs, rfl⟩ := script_symbol.mp hs
      · cases h.symm.trans h'
      · cases h.symm.trans h'
        exact ⟨sts', hs, rfl⟩
  · rintro ⟨sts', hs, rfl⟩
    exact .statement h hx hs

/-- Where no statement is open, a comment is skipped. -/
theorem Closed.script_comment (h : Closed pre) :
    Script (pre ++ none :: l) sts ↔ Script (pre ++ l) sts := by
  induction h generalizing sts with
  | nil => exact Rustgresql.Sql.script_comment
  | comment _ ih => simp only [List.cons_append, Rustgresql.Sql.script_comment, ih]
  | statement hst hx _ ih =>
    have hst' (q : List (Option Symbol)) := (parses_append (q := q) (List.cons_ne_nil _ _)).mpr hst
    have hc := hst' (none :: l)
    have hl := hst' l
    rw [List.cons_append] at hc hl
    simp only [script_statement hc hx, script_statement hl hx, ih]

/-- A comment in a script stands where no statement is open. -/
theorem closed_of_script (h : Script (pre ++ none :: post) sts) : Closed pre := by
  generalize hl : pre ++ none :: post = l at h
  induction h generalizing pre with
  | nil => simp at hl
  | comment h ih =>
    rcases pre with - | ⟨x, pre⟩
    · exact .nil
    · cases hl
      exact .comment (ih rfl)
  | last hst =>
    have hsuffix : none :: post <:+ _ := hl ▸ List.suffix_append _ _
    have hb := parses_blocked hst hsuffix
    simp at hb
  | @statement l l' x st sts hst hx _ ih =>
    have hsuffix : none :: post <:+ _ := hl ▸ List.suffix_append _ _
    obtain ⟨r, hr⟩ := parses_blocked hst hsuffix
    rcases r with - | ⟨y, r⟩
    · simp at hr
    · rw [List.cons_append, List.cons.injEq] at hr
      obtain ⟨rfl, rfl⟩ := hr
      rw [← hl, ← List.cons_append] at hst
      exact .statement ((parses_append (List.cons_ne_nil _ _)).mp hst) hx (ih rfl)

/-- What is closed ends in a comment or a semicolon. -/
theorem Closed.last (h : Closed pre) :
    ∀ x, pre.getLast? = some (some x) → x.tokenType = .mark .semicolon := by
  induction h with
  | nil => simp
  | @comment l h ih =>
    intro x hx
    rcases l with - | ⟨y, l⟩
    · simp at hx
    · rw [List.getLast?_cons_cons] at hx
      exact ih x hx
  | @statement l l' x st hst hx h ih =>
    obtain ⟨r, rfl⟩ := TokenProgram.parses_suffix hst
    intro y hy
    rw [List.getLast?_append_of_ne_nil _ (List.cons_ne_nil _ _)] at hy
    rcases l' with - | ⟨z, l'⟩
    · cases hy
      exact hx
    · rw [List.getLast?_cons_cons] at hy
      exact ih y hy

end Rustgresql.Sql
