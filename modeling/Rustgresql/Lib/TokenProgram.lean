import Mathlib

/-!
# Programs that read a stream of tokens

A recursive-descent parser is a family of programs that call each other. Here a program is a tree: it
looks at the symbol of the next token, takes it, takes a literal and converts it, fails, or calls a
program of the family. The conversion of a literal panics on a literal without a value. A token without
a symbol is never taken.

`run` interprets the family with a bound on the depth of calls. If every program takes a token before
its first call (`Guarded`), the number of tokens is enough depth, and `exec` needs no bound
(`exec_eq`).
-/

namespace TokenProgram

/-- Programs with results in `α` that see symbols `σ` and literal values `ν`, fail with errors `ε`
about tokens `τ`, and call programs `c : C` with results in `R c`. -/
inductive Prog (σ ν ε τ C : Type) (R : C → Type) (α : Type) : Type
  | done (a : α)
  /-- Fail; the error is about the next token. -/
  | fail (e : τ → ε)
  /-- Fail; the error is about the token that moving on returns: at the end, the one before. -/
  | failTaken (e : τ → ε)
  /-- Take the next token if its symbol passes the test. -/
  | take (p : σ → Bool) (k : σ → Prog σ ν ε τ C R α) (otherwise : Prog σ ν ε τ C R α)
  | look (k : Option σ → Prog σ ν ε τ C R α)
  | atEnd (k : Bool → Prog σ ν ε τ C R α)
  /-- Take the next token if it is a literal. -/
  | literal (k : ν → Prog σ ν ε τ C R α) (otherwise : Prog σ ν ε τ C R α)
  | call (c : C) (k : R c → Prog σ ν ε τ C R α)

/-- How a program stops without a result. -/
inductive Stop (ε : Type)
  | error (e : ε)
  | panic
  | endless

/-- The token before, and the tokens still to be read, up to the end token. -/
structure State (τ : Type) where
  prev : Option τ
  rest : List τ

/-- What a run comes to. -/
abbrev Outcome (ε τ α : Type) := Except (Stop ε) (α × State τ)

/-- How tokens are read: the end token, the symbol of a token, and the value of a literal. -/
structure Reader (τ σ ν : Type) where
  eof : τ
  symbol : τ → Option σ
  value : σ → Option (Option ν)

variable {σ ν ε τ C α β : Type} {R : C → Type}

namespace Prog

/-- Go on with the result of a program. -/
def bind : Prog σ ν ε τ C R α → (α → Prog σ ν ε τ C R β) → Prog σ ν ε τ C R β
  | done a, f => f a
  | fail e, _ => fail e
  | failTaken e, _ => failTaken e
  | take p k o, f => take p (fun x => (k x).bind f) (o.bind f)
  | look k, f => look fun x => (k x).bind f
  | atEnd k, f => atEnd fun b => (k b).bind f
  | literal k o, f => literal (fun v => (k v).bind f) (o.bind f)
  | call c k, f => call c fun r => (k r).bind f

instance : Monad (Prog σ ν ε τ C R) where
  pure := done
  bind := bind

/-- Before the first token is taken, the program calls nothing and fails only about the next token. -/
def Guarded : Prog σ ν ε τ C R α → Prop
  | done _ => True
  | fail _ => True
  | failTaken _ => False
  | take _ _ o => o.Guarded
  | look k => ∀ x, (k x).Guarded
  | atEnd k => ∀ b, (k b).Guarded
  | literal _ o => o.Guarded
  | call _ _ => False

/-- Moreover, the program takes a token before it returns. -/
def Strict : Prog σ ν ε τ C R α → Prop
  | done _ => False
  | fail _ => True
  | failTaken _ => False
  | take _ _ o => o.Strict
  | look k => ∀ x, (k x).Strict
  | atEnd k => ∀ b, (k b).Strict
  | literal _ o => o.Strict
  | call _ _ => False

theorem Strict.guarded {p : Prog σ ν ε τ C R α} (h : p.Strict) : p.Guarded := by
  induction p with
  | done a => trivial
  | fail e => trivial
  | failTaken e => exact h
  | take p k o _ ih => exact ih h
  | look k ih => exact fun x => ih x (h x)
  | atEnd k ih => exact fun b => ih b (h b)
  | literal k o _ ih => exact ih h
  | call c k _ => exact h

theorem Strict.bind {p : Prog σ ν ε τ C R α} (h : p.Strict) (f : α → Prog σ ν ε τ C R β) :
    (p >>= f).Strict := by
  induction p with
  | done a => exact h.elim
  | fail e => trivial
  | failTaken e => exact h
  | take p k o _ ih => exact ih h
  | look k ih => exact fun x => ih x (h x)
  | atEnd k ih => exact fun b => ih b (h b)
  | literal k o _ ih => exact ih h
  | call c k _ => exact h

theorem Strict.map {p : Prog σ ν ε τ C R α} (h : p.Strict) (f : α → β) : (f <$> p).Strict :=
  h.bind _

theorem Guarded.bind {p : Prog σ ν ε τ C R α} (h : p.Guarded) {f : α → Prog σ ν ε τ C R β}
    (hf : ∀ a, (f a).Guarded) : (p >>= f).Guarded := by
  induction p with
  | done a => exact hf a
  | fail e => trivial
  | failTaken e => exact h
  | take p k o _ ih => exact ih h
  | look k ih => exact fun x => ih x (h x)
  | atEnd k ih => exact fun b => ih b (h b)
  | literal k o _ ih => exact ih h
  | call c k _ => exact h

/-- A program that takes a token or returns, and goes on strictly in the latter case. -/
theorem Guarded.bind_strict {p : Prog σ ν ε τ C R α} (h : p.Guarded) {f : α → Prog σ ν ε τ C R β}
    (hf : ∀ a, (f a).Strict) : (p >>= f).Strict := by
  induction p with
  | done a => exact hf a
  | fail e => trivial
  | failTaken e => exact h
  | take p k o _ ih => exact ih h
  | look k ih => exact fun x => ih x (h x)
  | atEnd k ih => exact fun b => ih b (h b)
  | literal k o _ ih => exact ih h
  | call c k _ => exact h

end Prog

namespace Reader

variable (rd : Reader τ σ ν)

/-- The next token; at the end, the end token. -/
def current (s : State τ) : τ := s.rest.headD rd.eof

/-- The symbol of the next token and the state behind it. -/
def next (s : State τ) : Option (σ × State τ) :=
  match s.rest with
  | [] => none
  | t :: rest => (rd.symbol t).map fun x => (x, ⟨some t, rest⟩)

end Reader

/-- One program, given what calls do. -/
@[grind =]
def interp (rd : Reader τ σ ν) (callee : (c : C) → State τ → Outcome ε τ (R c)) :
    Prog σ ν ε τ C R α → State τ → Outcome ε τ α
  | .done a, s => .ok (a, s)
  | .fail e, s => .error (.error (e (rd.current s)))
  | .failTaken e, s =>
    match s.rest.head?.or s.prev with
    | some t => .error (.error (e t))
    | none => .error .panic
  | .take p k o, s =>
    match rd.next s with
    | some (x, s') => if p x then interp rd callee (k x) s' else interp rd callee o s
    | none => interp rd callee o s
  | .look k, s => interp rd callee (k ((rd.next s).map Prod.fst)) s
  | .atEnd k, s => interp rd callee (k s.rest.isEmpty) s
  | .literal k o, s =>
    match rd.next s with
    | some (x, s') =>
      match rd.value x with
      | some (some v) => interp rd callee (k v) s'
      | some none => .error .panic
      | none => interp rd callee o s
    | none => interp rd callee o s
  | .call c k, s =>
    match callee c s with
    | .ok (r, s') => interp rd callee (k r) s'
    | .error e => .error e

/-- The family `body`, with calls up to a depth. -/
def run (rd : Reader τ σ ν) (body : (c : C) → Prog σ ν ε τ C R (R c)) :
    ℕ → (c : C) → State τ → Outcome ε τ (R c)
  | 0, _, _ => .error .endless
  | n + 1, c, s => interp rd (run rd body n) (body c) s

/-- The family `body`, with as much depth as there are tokens. -/
def exec (rd : Reader τ σ ν) (body : (c : C) → Prog σ ν ε τ C R (R c)) (c : C) (s : State τ) :
    Outcome ε τ (R c) :=
  run rd body (s.rest.length + 1) c s

section Bind

variable {rd : Reader τ σ ν} {f : (c : C) → State τ → Outcome ε τ (R c)} {s : State τ}

theorem interp_bind (p : Prog σ ν ε τ C R α) (k : α → Prog σ ν ε τ C R β) (s : State τ) :
    interp rd f (p >>= k) s = (interp rd f p s).bind fun r => interp rd f (k r.1) r.2 := by
  change interp rd f (p.bind k) s = _
  induction p generalizing s with
  | done a => rfl
  | fail e => rfl
  | failTaken e =>
    simp only [Prog.bind, interp]
    split <;> rfl
  | take q k' o ihk iho =>
    simp only [Prog.bind, interp]
    split
    · split
      · exact ihk _ _
      · exact iho _
    · exact iho _
  | look k' ih => exact ih _ _
  | atEnd k' ih => exact ih _ _
  | literal k' o ihk iho =>
    simp only [Prog.bind, interp]
    split
    · split
      · exact ihk _ _
      · rfl
      · exact iho _
    · exact iho _
  | call c k' ih =>
    simp only [Prog.bind, interp]
    split
    · exact ih _ _
    · rfl

theorem interp_bind_error {p : Prog σ ν ε τ C R α} {e : Stop ε} (h : interp rd f p s = .error e)
    (k : α → Prog σ ν ε τ C R β) : interp rd f (p >>= k) s = .error e := by
  rw [interp_bind, h]
  rfl

end Bind

/-! ## What a run leaves

A run reads tokens off the front. It never fails to end, and it panics only at a literal without a
value.
-/

/-- What a run from `s` may come to. -/
def Proper (rd : Reader τ σ ν) (s : State τ) : Outcome ε τ α → Prop
  | .ok (_, s') => s'.rest <:+ s.rest ∧ (s.prev.isSome → s'.prev.isSome)
  | .error (.error _) => True
  | .error .panic => ∃ t ∈ s.rest, ∃ x, rd.symbol t = some x ∧ rd.value x = some none
  | .error .endless => False

section Run

variable {rd : Reader τ σ ν} {f : (c : C) → State τ → Outcome ε τ (R c)} {s s' : State τ}

theorem Reader.next_eq_some {x : σ} (h : rd.next s = some (x, s')) :
    ∃ t, s.rest = t :: s'.rest ∧ rd.symbol t = some x ∧ s'.prev = some t := by
  obtain ⟨prev, _ | ⟨t, rest⟩⟩ := s
  · simp [Reader.next] at h
  · simp only [Reader.next, Option.map_eq_some_iff, Prod.mk.injEq] at h
    obtain ⟨y, hy, rfl, rfl⟩ := h
    exact ⟨t, rfl, hy, rfl⟩

theorem Reader.length_next {x : σ} (h : rd.next s = some (x, s')) :
    s'.rest.length < s.rest.length := by
  obtain ⟨t, ht, -⟩ := next_eq_some h
  rw [ht, List.length_cons]
  omega

theorem Reader.isSome_prev_next {x : σ} (h : rd.next s = some (x, s')) : s'.prev.isSome := by
  obtain ⟨t, -, -, hp⟩ := next_eq_some h
  simp [hp]

theorem Proper.trans {o : Outcome ε τ α} (h : Proper rd s' o) (hr : s'.rest <:+ s.rest)
    (hp : s.prev.isSome → s'.prev.isSome) : Proper rd s o := by
  match o with
  | .ok (_, _) => exact ⟨h.1.trans hr, fun hs => h.2 (hp hs)⟩
  | .error (.error _) => trivial
  | .error .panic =>
    obtain ⟨t, ht, x, hx⟩ := h
    exact ⟨t, hr.mem ht, x, hx⟩
  | .error .endless => exact h

theorem Proper.of_next {o : Outcome ε τ α} {x : σ} (h : Proper rd s' o)
    (hn : rd.next s = some (x, s')) : Proper rd s o := by
  obtain ⟨t, ht, -⟩ := Reader.next_eq_some hn
  refine h.trans ?_ fun _ => Reader.isSome_prev_next hn
  rw [ht]
  exact List.suffix_cons t _

theorem proper_literal {x : σ} (hn : rd.next s = some (x, s')) (hv : rd.value x = some none) :
    Proper rd s (.error .panic : Outcome ε τ α) := by
  obtain ⟨t, ht, hx, -⟩ := Reader.next_eq_some hn
  exact ⟨t, by simp [ht], x, hx, hv⟩

/-- If calls are proper, so is a program that runs behind a token. -/
theorem interp_proper (p : Prog σ ν ε τ C R α) (s : State τ) (hs : s.prev.isSome)
    (hf : ∀ c t, t.rest.length ≤ s.rest.length → Proper rd t (f c t)) :
    Proper rd s (interp rd f p s) := by
  induction p generalizing s with
  | done a => exact ⟨List.suffix_refl _, id⟩
  | fail e => trivial
  | failTaken e =>
    obtain ⟨t, ht⟩ := Option.isSome_iff_exists.mp hs
    cases h : s.rest.head? <;> simp [interp, h, ht, Proper]
  | take p k o ihk iho =>
    cases h : rd.next s with
    | none => simpa only [interp, h] using iho s hs hf
    | some r =>
      have hl := Reader.length_next h
      simp only [interp, h]
      split
      · apply Proper.of_next _ h
        exact ihk r.1 r.2 (Reader.isSome_prev_next h) fun c t ht => hf c t (by omega)
      · exact iho s hs hf
  | look k ih => exact ih _ s hs hf
  | atEnd k ih => exact ih _ s hs hf
  | literal k o ihk iho =>
    cases h : rd.next s with
    | none => simpa only [interp, h] using iho s hs hf
    | some r =>
      have hl := Reader.length_next h
      rcases hv : rd.value r.1 with - | - | v
      · simpa only [interp, h, hv] using iho s hs hf
      · simpa only [interp, h, hv] using proper_literal h hv
      · simp only [interp, h, hv]
        apply Proper.of_next _ h
        exact ihk v r.2 (Reader.isSome_prev_next h) fun c t ht => hf c t (by omega)
  | call c k ih =>
    have hc := hf c s le_rfl
    match hr : f c s, hc with
    | .ok (r, s'), hc =>
      simp only [interp, hr]
      exact (ih r s' (hc.2 hs) fun c t ht => hf c t (ht.trans hc.1.length_le)).trans hc.1 hc.2
    | .error e, hc =>
      simp only [interp, hr]
      match e with
      | .error _ => trivial
      | .panic => exact hc

/-- A guarded program calls only behind a token, with fewer tokens left. -/
theorem Prog.Guarded.interp_proper {p : Prog σ ν ε τ C R α} (hg : p.Guarded) (s : State τ)
    (hf : ∀ c t, t.rest.length < s.rest.length → Proper rd t (f c t)) :
    Proper rd s (interp rd f p s) := by
  induction p with
  | done a => exact ⟨List.suffix_refl _, id⟩
  | fail e => trivial
  | failTaken e => exact hg.elim
  | take p k o _ iho =>
    cases h : rd.next s with
    | none => simpa only [interp, h] using iho hg
    | some r =>
      have hl := Reader.length_next h
      simp only [interp, h]
      split
      · apply Proper.of_next _ h
        exact TokenProgram.interp_proper _ r.2 (Reader.isSome_prev_next h) fun c t ht =>
          hf c t (by omega)
      · exact iho hg
  | look k ih => exact ih _ (hg _)
  | atEnd k ih => exact ih _ (hg _)
  | literal k o _ iho =>
    cases h : rd.next s with
    | none => simpa only [interp, h] using iho hg
    | some r =>
      have hl := Reader.length_next h
      rcases hv : rd.value r.1 with - | - | v
      · simpa only [interp, h, hv] using iho hg
      · simpa only [interp, h, hv] using proper_literal h hv
      · simp only [interp, h, hv]
        apply Proper.of_next _ h
        exact TokenProgram.interp_proper _ r.2 (Reader.isSome_prev_next h) fun c t ht =>
          hf c t (by omega)
  | call c k _ => exact hg.elim

/-- A strict program leaves fewer tokens than there were. -/
theorem Prog.Strict.length_lt {p : Prog σ ν ε τ C R α} (hp : p.Strict)
    (hf : ∀ c t, t.rest.length < s.rest.length → Proper rd t (f c t)) {a : α}
    (h : interp rd f p s = .ok (a, s')) : s'.rest.length < s.rest.length := by
  -- behind a token, what is left is no longer than that
  have behind : ∀ (q : Prog σ ν ε τ C R α) (x : σ) (t : State τ), rd.next s = some (x, t) →
      interp rd f q t = .ok (a, s') → s'.rest.length < s.rest.length := by
    intro q x t hn hq
    have hl := Reader.length_next hn
    have hp := TokenProgram.interp_proper q t (Reader.isSome_prev_next hn) fun c u hu =>
      hf c u (by omega)
    rw [hq] at hp
    exact lt_of_le_of_lt hp.1.length_le hl
  induction p with
  | done b => exact hp.elim
  | fail e => cases h
  | failTaken e => exact hp.elim
  | take q k o _ iho =>
    rcases hn : rd.next s with - | ⟨x, t⟩
    · rw [interp, hn] at h
      exact iho hp h
    · simp only [interp, hn] at h
      split at h
      · exact behind _ x t hn h
      · exact iho hp h
  | look k ih => exact ih _ (hp _) h
  | atEnd k ih => exact ih _ (hp _) h
  | literal k o _ iho =>
    rcases hn : rd.next s with - | ⟨x, t⟩
    · rw [interp, hn] at h
      exact iho hp h
    · rcases hv : rd.value x with - | - | v <;> simp only [interp, hn, hv] at h
      · exact iho hp h
      · cases h
      · exact behind _ x t hn h
  | call c k _ => exact hp.elim

variable {body : (c : C) → Prog σ ν ε τ C R (R c)}

theorem run_proper (hb : ∀ c, (body c).Guarded) (n : ℕ) (c : C) (s : State τ)
    (hn : s.rest.length < n) : Proper rd s (run rd body n c s) := by
  induction n generalizing c s with
  | zero => omega
  | succ n ih => exact (hb c).interp_proper s fun c t ht => ih c t (by omega)

/-- A guarded family always ends, and panics only at a literal without a value. -/
theorem exec_proper (hb : ∀ c, (body c).Guarded) (c : C) (s : State τ) :
    Proper rd s (exec rd body c s) :=
  run_proper hb _ c s (Nat.lt_succ_self _)

theorem exec_length_lt (hb : ∀ c, (body c).Guarded) {c : C} (hc : (body c).Strict) {r : R c}
    (h : exec rd body c s = .ok (r, s')) : s'.rest.length < s.rest.length :=
  hc.length_lt (fun d t ht => run_proper hb _ d t ht) h

end Run

/-! ## What a run reads

A result depends only on the symbols of the tokens, with `none` for a token that has no symbol. `reads`
says what is read off a list of symbols.
-/

/-- What a program returns on a list of symbols, and what it leaves of them. -/
@[grind =]
def reads (value : σ → Option (Option ν))
    (callee : (c : C) → List (Option σ) → Option (R c × List (Option σ))) :
    Prog σ ν ε τ C R α → List (Option σ) → Option (α × List (Option σ))
  | .done a, l => some (a, l)
  | .fail _, _ => none
  | .failTaken _, _ => none
  | .take p k o, some x :: l =>
    if p x then reads value callee (k x) l else reads value callee o (some x :: l)
  | .take _ _ o, l => reads value callee o l
  | .look k, l => reads value callee (k l.head?.join) l
  | .atEnd k, l => reads value callee (k l.isEmpty) l
  | .literal k o, some x :: l =>
    match value x with
    | some (some v) => reads value callee (k v) l
    | some none => none
    | none => reads value callee o (some x :: l)
  | .literal _ o, l => reads value callee o l
  | .call c k, l => (callee c l).bind fun r => reads value callee (k r.1) r.2

/-- What a call returns on a list of symbols, with calls up to a depth. -/
def readsCall (value : σ → Option (Option ν)) (body : (c : C) → Prog σ ν ε τ C R (R c)) :
    ℕ → (c : C) → List (Option σ) → Option (R c × List (Option σ))
  | 0, _, _ => none
  | n + 1, c, l => reads value (readsCall value body n) (body c) l

/-- What a call returns on a list of symbols. -/
def parses (value : σ → Option (Option ν)) (body : (c : C) → Prog σ ν ε τ C R (R c)) (c : C)
    (l : List (Option σ)) : Option (R c × List (Option σ)) :=
  readsCall value body (l.length + 1) c l

/-- A result with positions and the token before left out. -/
def forget (rd : Reader τ σ ν) : Outcome ε τ α → Option (α × List (Option σ))
  | .ok (a, s) => some (a, s.rest.map rd.symbol)
  | .error _ => none

section Reads

variable {value : σ → Option (Option ν)}
  {f g : (c : C) → List (Option σ) → Option (R c × List (Option σ))}
  {body : (c : C) → Prog σ ν ε τ C R (R c)}

theorem reads_bind (p : Prog σ ν ε τ C R α) (k : α → Prog σ ν ε τ C R β) (l : List (Option σ)) :
    reads value f (p >>= k) l = (reads value f p l).bind fun r => reads value f (k r.1) r.2 := by
  change reads value f (p.bind k) l = _
  induction p generalizing l with
  | done a => rfl
  | fail e => rfl
  | failTaken e => rfl
  | take q k' o ihk iho =>
    rcases l with - | ⟨- | x, l⟩
    · exact iho _
    · exact iho _
    · simp only [Prog.bind, reads]
      split
      · exact ihk x l
      · exact iho _
  | look k' ih => exact ih _ _
  | atEnd k' ih => exact ih _ _
  | literal k' o ihk iho =>
    rcases l with - | ⟨- | x, l⟩
    · exact iho _
    · exact iho _
    · simp only [Prog.bind, reads]
      rcases value x with - | - | v
      · exact iho _
      · rfl
      · exact ihk v l
  | call c k' ih =>
    simp only [Prog.bind, reads, Option.bind_assoc]
    congr 1
    funext r
    exact ih r.1 r.2

/-- What is left is at the end of what was there. -/
theorem reads_suffix (hf : ∀ c l r l', f c l = some (r, l') → l' <:+ l) (p : Prog σ ν ε τ C R α)
    {l l' : List (Option σ)} {a : α} (h : reads value f p l = some (a, l')) : l' <:+ l := by
  induction p generalizing l with
  | done b =>
    simp only [reads, Option.some.injEq, Prod.mk.injEq] at h
    exact h.2 ▸ List.suffix_refl _
  | fail e => simp [reads] at h
  | failTaken e => simp [reads] at h
  | take q k o ihk iho =>
    rcases l with - | ⟨- | x, l⟩
    · exact iho h
    · exact iho h
    · simp only [reads] at h
      split at h
      · exact (ihk x h).trans (List.suffix_cons _ _)
      · exact iho h
  | look k ih => exact ih _ h
  | atEnd k ih => exact ih _ h
  | literal k o ihk iho =>
    rcases l with - | ⟨- | x, l⟩
    · exact iho h
    · exact iho h
    · simp only [reads] at h
      rcases hv : value x with - | - | v <;> simp only [hv] at h
      · exact iho h
      · simp at h
      · exact (ihk v h).trans (List.suffix_cons _ _)
  | call c k ih =>
    simp only [reads, Option.bind_eq_some_iff] at h
    obtain ⟨r, hr, h⟩ := h
    exact (ih r.1 h).trans (hf c l r.1 r.2 hr)

theorem readsCall_suffix (n : ℕ) (c : C) (l : List (Option σ)) (r : R c) (l' : List (Option σ))
    (h : readsCall value body n c l = some (r, l')) : l' <:+ l := by
  induction n generalizing c l r l' with
  | zero => simp [readsCall] at h
  | succ n ih => exact reads_suffix ih (body c) h

theorem parses_suffix {c : C} {l l' : List (Option σ)} {r : R c}
    (h : parses value body c l = some (r, l')) : l' <:+ l :=
  readsCall_suffix _ c l r l' h

/-- A program sees of its calls only what they do on what is left. -/
theorem reads_congr (p : Prog σ ν ε τ C R α) (l : List (Option σ))
    (hf : ∀ c l r l', f c l = some (r, l') → l' <:+ l)
    (hfg : ∀ c l', l'.length ≤ l.length → f c l' = g c l') :
    reads value f p l = reads value g p l := by
  induction p generalizing l with
  | done a => rfl
  | fail e => rfl
  | failTaken e => rfl
  | take q k o ihk iho =>
    rcases l with - | ⟨- | x, l⟩
    · exact iho _ hfg
    · exact iho _ hfg
    · simp only [reads]
      split
      · exact ihk x l fun c l' hl => hfg c l' (hl.trans (Nat.le_succ _))
      · exact iho _ hfg
  | look k ih => exact ih _ _ hfg
  | atEnd k ih => exact ih _ _ hfg
  | literal k o ihk iho =>
    rcases l with - | ⟨- | x, l⟩
    · exact iho _ hfg
    · exact iho _ hfg
    · simp only [reads]
      rcases value x with - | - | v
      · exact iho _ hfg
      · rfl
      · exact ihk v l fun c l' hl => hfg c l' (hl.trans (Nat.le_succ _))
  | call c k ih =>
    simp only [reads, ← hfg c l le_rfl]
    rcases hr : f c l with - | ⟨r, l'⟩
    · rfl
    · exact ih r l' fun d l'' hl => hfg d l'' (hl.trans (hf c l r l' hr).length_le)

/-- A guarded program sees of its calls only what they do on less than is there. -/
theorem Prog.Guarded.reads_congr {p : Prog σ ν ε τ C R α} (hg : p.Guarded) (l : List (Option σ))
    (hf : ∀ c l r l', f c l = some (r, l') → l' <:+ l)
    (hfg : ∀ c l', l'.length < l.length → f c l' = g c l') :
    reads value f p l = reads value g p l := by
  induction p with
  | done a => rfl
  | fail e => rfl
  | failTaken e => rfl
  | take q k o _ iho =>
    rcases l with - | ⟨- | x, l⟩
    · exact iho hg
    · exact iho hg
    · simp only [reads]
      split
      · exact TokenProgram.reads_congr (k x) l hf fun c l' hl => hfg c l' (Nat.lt_succ_of_le hl)
      · exact iho hg
  | look k ih => exact ih _ (hg _)
  | atEnd k ih => exact ih _ (hg _)
  | literal k o _ iho =>
    rcases l with - | ⟨- | x, l⟩
    · exact iho hg
    · exact iho hg
    · simp only [reads]
      rcases value x with - | - | v
      · exact iho hg
      · rfl
      · exact TokenProgram.reads_congr (k v) l hf fun c l' hl => hfg c l' (Nat.lt_succ_of_le hl)
  | call c k _ => exact hg.elim

theorem readsCall_eq (hb : ∀ c, (body c).Guarded) (n m : ℕ) (c : C) (l : List (Option σ))
    (hn : l.length < n) (hm : l.length < m) : readsCall value body n c l = readsCall value body m c l := by
  induction n generalizing m c l with
  | zero => omega
  | succ n ih =>
    obtain _ | m := m
    · omega
    · exact (hb c).reads_congr l (readsCall_suffix n) fun c l' hl =>
        ih m c l' (by omega) (by omega)

/-- A guarded family calls itself. -/
theorem parses_eq (hb : ∀ c, (body c).Guarded) (c : C) (l : List (Option σ)) :
    parses value body c l = reads value (parses value body) (body c) l :=
  (hb c).reads_congr l (readsCall_suffix _) fun c l' hl =>
    readsCall_eq hb _ _ c l' (by omega) (by omega)

/-! ### Reading a changed list

What is read off `pre ++ post` is also read off `pre ++ post'`, as long as the reading stops inside
`pre`. No reading passes a token without a symbol.
-/

/-- Nothing of the list before `post` is left. -/
def Reaches (post : List (Option σ)) (o : Option (α × List (Option σ))) : Prop :=
  ∀ a l, o = some (a, l) → l <:+ post

/-- Two readings that begin alike, before `post` and before `post'`: either both stop there, or both
reach the part in which they may differ. -/
def Alike (post post' : List (Option σ)) (o o' : Option (α × List (Option σ))) : Prop :=
  (∃ a r, r ≠ [] ∧ o = some (a, r ++ post) ∧ o' = some (a, r ++ post')) ∨
    (Reaches post o ∧ Reaches post' o')

theorem Alike.of_suffix {post post' : List (Option σ)}
    {F : List (Option σ) → Option (α × List (Option σ))}
    (hF : ∀ l a l', F l = some (a, l') → l' <:+ l) : Alike post post' (F post) (F post') :=
  .inr ⟨fun a l h => hF _ a l h, fun a l h => hF _ a l h⟩

theorem reads_alike (hf : ∀ c l r l', f c l = some (r, l') → l' <:+ l)
    (hl : ∀ c pre post post', Alike post post' (f c (pre ++ post)) (f c (pre ++ post')))
    (p : Prog σ ν ε τ C R α) (pre post post' : List (Option σ)) :
    Alike post post' (reads value f p (pre ++ post)) (reads value f p (pre ++ post')) := by
  induction p generalizing pre with
  | done a =>
    rcases pre with - | ⟨x, pre⟩
    · exact Alike.of_suffix fun _ _ _ => reads_suffix hf (.done a)
    · exact .inl ⟨a, x :: pre, by simp, rfl, rfl⟩
  | fail e => exact .inr ⟨by simp [Reaches, reads], by simp [Reaches, reads]⟩
  | failTaken e => exact .inr ⟨by simp [Reaches, reads], by simp [Reaches, reads]⟩
  | take q k o ihk iho =>
    rcases pre with - | ⟨- | x, pre⟩
    · exact Alike.of_suffix fun _ _ _ => reads_suffix hf (.take q k o)
    · exact iho (none :: pre)
    · simp only [List.cons_append, reads]
      split
      · exact ihk x pre
      · exact iho (some x :: pre)
  | look k ih =>
    rcases pre with - | ⟨x, pre⟩
    · exact Alike.of_suffix fun _ _ _ => reads_suffix hf (.look k)
    · exact ih _ (x :: pre)
  | atEnd k ih =>
    rcases pre with - | ⟨x, pre⟩
    · exact Alike.of_suffix fun _ _ _ => reads_suffix hf (.atEnd k)
    · exact ih _ (x :: pre)
  | literal k o ihk iho =>
    rcases pre with - | ⟨- | x, pre⟩
    · exact Alike.of_suffix fun _ _ _ => reads_suffix hf (.literal k o)
    · exact iho (none :: pre)
    · simp only [List.cons_append, reads]
      rcases value x with - | - | v
      · exact iho (some x :: pre)
      · exact .inr ⟨by simp [Reaches], by simp [Reaches]⟩
      · exact ihk v pre
  | call c k ih =>
    simp only [reads]
    obtain ⟨r, rest, -, h, h'⟩ | ⟨h, h'⟩ := hl c pre post post'
    · simp only [h, h', Option.bind_some]
      exact ih r rest
    · refine .inr ⟨fun a l ha => ?_, fun a l ha => ?_⟩
      all_goals
        obtain ⟨r, hr, hk⟩ := Option.bind_eq_some_iff.mp ha
      · exact (reads_suffix hf (k r.1) hk).trans (h r.1 r.2 hr)
      · exact (reads_suffix hf (k r.1) hk).trans (h' r.1 r.2 hr)

theorem readsCall_alike (n m : ℕ) (hb : ∀ c, (body c).Guarded) (c : C)
    (pre post post' : List (Option σ)) (hn : (pre ++ post).length < n)
    (hm : (pre ++ post').length < m) :
    Alike post post' (readsCall value body n c (pre ++ post)) (readsCall value body m c (pre ++ post')) := by
  have key : ∀ (n : ℕ) (c : C) (pre post post' : List (Option σ)),
      Alike post post' (readsCall value body n c (pre ++ post))
        (readsCall value body n c (pre ++ post')) := by
    intro n
    induction n with
    | zero =>
      intro c pre post post'
      exact .inr ⟨by simp [Reaches, readsCall], by simp [Reaches, readsCall]⟩
    | succ n ih =>
      intro c pre post post'
      exact reads_alike (readsCall_suffix n) ih (body c) pre post post'
  rw [readsCall_eq hb n (n + m) c _ hn (by omega), readsCall_eq hb m (n + m) c _ hm (by omega)]
  exact key _ c pre post post'

theorem parses_alike (hb : ∀ c, (body c).Guarded) (c : C) (pre post post' : List (Option σ)) :
    Alike post post' (parses value body c (pre ++ post)) (parses value body c (pre ++ post')) :=
  readsCall_alike _ _ hb c pre post post' (Nat.lt_succ_self _) (Nat.lt_succ_self _)

/-- No program passes a token that has no symbol. -/
theorem reads_blocked {post : List (Option σ)}
    (hf : ∀ c l r l', f c l = some (r, l') → none :: post <:+ l → none :: post <:+ l')
    (p : Prog σ ν ε τ C R α) {l l' : List (Option σ)} {a : α} (h : reads value f p l = some (a, l'))
    (hl : none :: post <:+ l) : none :: post <:+ l' := by
  -- behind a symbol, the token is still ahead
  have behind : ∀ {x : σ} {l : List (Option σ)}, none :: post <:+ some x :: l → none :: post <:+ l := by
    intro x l h
    rcases List.suffix_cons_iff.mp h with h | h
    · simp at h
    · exact h
  induction p generalizing l with
  | done b =>
    simp only [reads, Option.some.injEq, Prod.mk.injEq] at h
    exact h.2 ▸ hl
  | fail e => simp [reads] at h
  | failTaken e => simp [reads] at h
  | take q k o ihk iho =>
    rcases l with - | ⟨- | x, l⟩
    · exact iho h hl
    · exact iho h hl
    · simp only [reads] at h
      split at h
      · exact ihk x h (behind hl)
      · exact iho h hl
  | look k ih => exact ih _ h hl
  | atEnd k ih => exact ih _ h hl
  | literal k o ihk iho =>
    rcases l with - | ⟨- | x, l⟩
    · exact iho h hl
    · exact iho h hl
    · simp only [reads] at h
      rcases hv : value x with - | - | v <;> simp only [hv] at h
      · exact iho h hl
      · simp at h
      · exact ihk v h (behind hl)
  | call c k ih =>
    simp only [reads, Option.bind_eq_some_iff] at h
    obtain ⟨r, hr, h⟩ := h
    exact ih r.1 h (hf c l r.1 r.2 hr hl)

theorem parses_blocked {post : List (Option σ)} {c : C} {l l' : List (Option σ)} {r : R c}
    (h : parses value body c l = some (r, l')) (hl : none :: post <:+ l) : none :: post <:+ l' := by
  have key : ∀ (n : ℕ) (c : C) (l : List (Option σ)) (r : R c) (l' : List (Option σ)),
      readsCall value body n c l = some (r, l') → none :: post <:+ l → none :: post <:+ l' := by
    intro n
    induction n with
    | zero =>
      intro c l r l' h
      simp [readsCall] at h
    | succ n ih =>
      intro c l r l' h hl
      exact reads_blocked ih (body c) h hl
  exact key _ c l r l' h hl

end Reads

section Forget

variable {rd : Reader τ σ ν} {f : (c : C) → State τ → Outcome ε τ (R c)}
  {g : (c : C) → List (Option σ) → Option (R c × List (Option σ))}
  {body : (c : C) → Prog σ ν ε τ C R (R c)}

theorem forget_interp (hfg : ∀ c s, forget rd (f c s) = g c (s.rest.map rd.symbol))
    (p : Prog σ ν ε τ C R α) (s : State τ) :
    forget rd (interp rd f p s) = reads rd.value g p (s.rest.map rd.symbol) := by
  induction p generalizing s with
  | done a => rfl
  | fail e => rfl
  | failTaken e =>
    simp only [interp, reads]
    split <;> rfl
  | take q k o ihk iho =>
    obtain ⟨prev, _ | ⟨t, rest⟩⟩ := s
    · exact iho _
    · rcases ht : rd.symbol t with - | x
      · simpa [interp, Reader.next, reads, ht] using iho ⟨prev, t :: rest⟩
      · simp only [interp, Reader.next, ht, Option.map_some, List.map_cons, reads]
        split
        · exact ihk x _
        · simpa [ht] using iho ⟨prev, t :: rest⟩
  | look k ih =>
    obtain ⟨prev, _ | ⟨t, rest⟩⟩ := s
    · exact ih _ _
    · have h := ih (rd.symbol t) ⟨prev, t :: rest⟩
      simpa [interp, Reader.next, reads, Function.comp_def] using h
  | atEnd k ih =>
    have h := ih s.rest.isEmpty s
    simpa [interp, reads] using h
  | literal k o ihk iho =>
    obtain ⟨prev, _ | ⟨t, rest⟩⟩ := s
    · exact iho _
    · rcases ht : rd.symbol t with - | x
      · simpa [interp, Reader.next, reads, ht] using iho ⟨prev, t :: rest⟩
      · simp only [interp, Reader.next, ht, Option.map_some, List.map_cons, reads]
        rcases rd.value x with - | - | v
        · simpa [ht] using iho ⟨prev, t :: rest⟩
        · rfl
        · exact ihk v _
  | call c k ih =>
    simp only [interp, reads, ← hfg c s]
    rcases f c s with e | ⟨r, s'⟩
    · rfl
    · exact ih r s'

theorem forget_run (n : ℕ) (c : C) (s : State τ) :
    forget rd (run rd body n c s) = readsCall rd.value body n c (s.rest.map rd.symbol) := by
  induction n generalizing c s with
  | zero => rfl
  | succ n ih => exact forget_interp ih (body c) s

/-- A run returns what its symbols say. -/
theorem forget_exec (c : C) (s : State τ) :
    forget rd (exec rd body c s) = parses rd.value body c (s.rest.map rd.symbol) := by
  simp only [exec, forget_run, parses, List.length_map]

end Forget

end TokenProgram
