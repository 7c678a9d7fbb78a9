import Mathlib

/-!
# Pre- and postconditions for stateful computations with errors

`EStateM ε σ` computations keep the state they reached when they fail. `Spec m s Q E` says what one
run of `m` from state `s` ends in: a value and a state that satisfy `Q`, or an error and a state that
satisfy `E`. The rules follow the shape of a program: `pure`, `bind`, `throw`, `get`, and weakening.
`Keeps I m` is the special case of an invariant that holds at the end however `m` ends.
-/

namespace StateSpec

variable {ε σ α β : Type}

/-- A run of `m` from `s` ends well in `Q`, or fails in `E`. -/
def Spec (m : EStateM ε σ α) (s : σ) (Q : α → σ → Prop) (E : ε → σ → Prop) : Prop :=
  match m s with
  | .ok a s' => Q a s'
  | .error e s' => E e s'

/-- The invariant `I` survives a run of `m`, whether it returns or fails. -/
def Keeps (I : σ → Prop) (m : EStateM ε σ α) : Prop :=
  ∀ s, I s → Spec m s (fun _ => I) (fun _ => I)

/-- The state that a run leaves, whether it returns or fails. -/
def final (m : EStateM ε σ α) (s : σ) : σ :=
  match m s with
  | .ok _ s' => s'
  | .error _ s' => s'

/-- Fail with `e` unless `p` holds. -/
def require (p : Prop) [Decidable p] (e : ε) : EStateM ε σ Unit :=
  if p then pure () else throw e

/-! ## Runs of compound computations -/

theorem require_of {p : Prop} [Decidable p] (h : p) (e : ε) (s : σ) :
    require p e s = .ok () s := by
  rw [require, if_pos h]
  rfl

theorem require_of_not {p : Prop} [Decidable p] (h : ¬ p) (e : ε) (s : σ) :
    require p e s = .error e s := by
  rw [require, if_neg h]
  rfl

theorem bind_of_ok {m : EStateM ε σ α} {f : α → EStateM ε σ β} {s s' : σ} {a : α}
    (h : m s = .ok a s') : (m >>= f) s = f a s' := by
  simp only [bind, EStateM.bind, h]

theorem bind_of_error {m : EStateM ε σ α} {f : α → EStateM ε σ β} {s s' : σ} {e : ε}
    (h : m s = .error e s') : (m >>= f) s = .error e s' := by
  simp only [bind, EStateM.bind, h]

theorem final_bind_of_ok {m : EStateM ε σ α} {f : α → EStateM ε σ β} {s s' : σ} {a : α}
    (h : m s = .ok a s') : final (m >>= f) s = final (f a) s' := by
  rw [final, bind_of_ok h, final]

theorem final_bind_of_error {m : EStateM ε σ α} {f : α → EStateM ε σ β} {s s' : σ} {e : ε}
    (h : m s = .error e s') : final (m >>= f) s = s' := by
  rw [final, bind_of_error h]

theorem final_discard (m : EStateM ε σ α) (s : σ) : final (discard m) s = final m s := by
  unfold final
  have hrun : (discard m) s = match m s with
    | .ok _ s' => .ok PUnit.unit s'
    | .error e s' => .error e s' := rfl
  rw [hrun]
  cases m s <;> rfl

theorem final_bind_pure (m : EStateM ε σ α) (f : α → β) (s : σ) :
    final (m >>= fun a => pure (f a)) s = final m s := by
  unfold final
  cases h : m s with
  | ok a s' => rw [bind_of_ok h]; rfl
  | error e s' => rw [bind_of_error h]

theorem get_bind {f : σ → EStateM ε σ β} {s : σ} : (get >>= f) s = f s s := rfl

/-- A compound computation that returns did so through both of its parts. -/
theorem bind_eq_ok {m : EStateM ε σ α} {f : α → EStateM ε σ β} {s s'' : σ} {b : β} :
    (m >>= f) s = .ok b s'' ↔ ∃ a s', m s = .ok a s' ∧ f a s' = .ok b s'' := by
  cases h : m s with
  | ok a s' => simp [bind_of_ok h]
  | error e s' => simp [bind_of_error h]

/-! ## Rules -/

section Rules

variable {m : EStateM ε σ α} {f : α → EStateM ε σ β} {s : σ} {Q Q' : α → σ → Prop}
  {E E' : ε → σ → Prop}

theorem Spec.pure {a : α} (h : Q a s) : Spec (pure a : EStateM ε σ α) s Q E := h

theorem Spec.throw {e : ε} (h : E e s) : Spec (throw e : EStateM ε σ α) s Q E := h

theorem Spec.of_ok {a : α} {s' : σ} (h : m s = .ok a s') (hQ : Q a s') : Spec m s Q E := by
  simp only [Spec, h, hQ]

theorem Spec.bind {R : β → σ → Prop} (hm : Spec m s Q E)
    (hf : ∀ a s', Q a s' → Spec (f a) s' R E) : Spec (m >>= f) s R E := by
  unfold Spec at hm ⊢
  cases h : m s with
  | ok a s' =>
    rw [h] at hm
    rw [bind_of_ok h]
    exact hf a s' hm
  | error e s' =>
    rw [h] at hm
    rw [bind_of_error h]
    exact hm

theorem Spec.mono (hm : Spec m s Q E) (hQ : ∀ a s', Q a s' → Q' a s')
    (hE : ∀ e s', E e s' → E' e s') : Spec m s Q' E' := by
  unfold Spec at hm ⊢
  cases h : m s with
  | ok a s' => rw [h] at hm; exact hQ a s' hm
  | error e s' => rw [h] at hm; exact hE e s' hm

theorem Spec.conseq (hm : Spec m s Q E) (hQ : ∀ a s', Q a s' → Q' a s') : Spec m s Q' E :=
  hm.mono hQ fun _ _ h => h

theorem Spec.and (hm : Spec m s Q E) (hm' : Spec m s Q' E') :
    Spec m s (fun a s' => Q a s' ∧ Q' a s') fun e s' => E e s' ∧ E' e s' := by
  unfold Spec at hm hm' ⊢
  cases h : m s <;> rw [h] at hm hm' <;> exact ⟨hm, hm'⟩

/-- What a specified run that returned satisfies. -/
theorem Spec.post (hm : Spec m s Q E) {a : α} {s' : σ} (h : m s = .ok a s') : Q a s' := by
  unfold Spec at hm
  rwa [h] at hm

/-- What a specified run that failed satisfies. -/
theorem Spec.fail (hm : Spec m s Q E) {e : ε} {s' : σ} (h : m s = .error e s') : E e s' := by
  unfold Spec at hm
  rwa [h] at hm

/-- What both outcomes of a specified run satisfy holds of the state that it leaves. -/
theorem Spec.final {I : σ → Prop} (hm : Spec m s (fun _ => I) (fun _ => I)) :
    I (StateSpec.final m s) := by
  unfold Spec at hm
  unfold StateSpec.final
  cases h : m s <;> rwa [h] at hm

/-- A run that can fail with no error returns. -/
theorem Spec.returns (hm : Spec m s Q fun _ _ => False) : ∃ a s', m s = .ok a s' ∧ Q a s' := by
  cases h : m s with
  | ok a s' => exact ⟨a, s', rfl, hm.post h⟩
  | error e s' => exact (hm.fail h).elim

end Rules

/-! ## Invariants -/

section Invariants

variable {I : σ → Prop}

theorem Keeps.pure (a : α) : Keeps I (pure a : EStateM ε σ α) := fun _ h => h

theorem Keeps.throw (e : ε) : Keeps I (throw e : EStateM ε σ α) := fun _ h => h

theorem Keeps.true (m : EStateM ε σ α) : Keeps (fun _ => True) m := by
  intro s _
  unfold Spec
  cases m s <;> exact trivial

theorem Keeps.bind {m : EStateM ε σ α} {f : α → EStateM ε σ β} (hm : Keeps I m)
    (hf : ∀ a, Keeps I (f a)) : Keeps I (m >>= f) :=
  fun s h => (hm s h).bind fun a s' hs' => hf a s' hs'

theorem Keeps.get_bind {f : σ → EStateM ε σ β} (hf : ∀ s, Keeps I (f s)) :
    Keeps I (get >>= f) := fun s h => hf s s h

theorem Keeps.modify {f : σ → σ} (hf : ∀ s, I s → I (f s)) :
    Keeps I (modify f : EStateM ε σ PUnit) := hf

theorem Keeps.require (p : Prop) [Decidable p] (e : ε) :
    Keeps I (require p e : EStateM ε σ Unit) := by
  intro s h
  by_cases hp : p
  · exact Spec.of_ok (require_of hp e s) h
  · simpa only [Spec, require_of_not hp] using h

theorem Keeps.discard {m : EStateM ε σ α} (hm : Keeps I m) : Keeps I (discard m) := by
  intro s hs
  have hrun : (Functor.discard m) s = match m s with
    | .ok _ s' => .ok PUnit.unit s'
    | .error e s' => .error e s' := rfl
  have hm := hm s hs
  unfold Spec at hm ⊢
  rw [hrun]
  cases h : m s <;> rw [h] at hm <;> exact hm

theorem Keeps.final {m : EStateM ε σ α} (hm : Keeps I m) {s : σ} (hs : I s) :
    I (StateSpec.final m s) :=
  (hm s hs).final

end Invariants

/-! ## Projections -/

section Projections

variable {τ : Type} {f : σ → τ}

/-- On the image of a state, `m'` does what `m` does on the state. -/
def Commutes (f : σ → τ) (m : EStateM ε σ α) (m' : EStateM ε τ α) : Prop :=
  ∀ s, m' (f s) = match m s with
    | .ok a s' => .ok a (f s')
    | .error e s' => .error e (f s')

theorem Commutes.pure (a : α) : Commutes f (pure a : EStateM ε σ α) (pure a) := fun _ => rfl

theorem Commutes.throw (e : ε) : Commutes f (throw e : EStateM ε σ α) (throw e) := fun _ => rfl

theorem Commutes.bind {m : EStateM ε σ α} {m' : EStateM ε τ α} {k : α → EStateM ε σ β}
    {k' : α → EStateM ε τ β} (hm : Commutes f m m') (hk : ∀ a, Commutes f (k a) (k' a)) :
    Commutes f (m >>= k) (m' >>= k') := by
  intro s
  have hrun := hm s
  cases h : m s with
  | ok a s' =>
    rw [h] at hrun
    rw [bind_of_ok h, bind_of_ok hrun]
    exact hk a s'
  | error e s' =>
    rw [h] at hrun
    rw [bind_of_error h, bind_of_error hrun]

theorem Commutes.get_bind {k : σ → EStateM ε σ β} {k' : τ → EStateM ε τ β}
    (hk : ∀ s, Commutes f (k s) (k' (f s))) : Commutes f (get >>= k) (get >>= k') :=
  fun s => hk s s

theorem Commutes.modify {g : σ → σ} {g' : τ → τ} (hg : ∀ s, g' (f s) = f (g s)) :
    Commutes f (modify g : EStateM ε σ PUnit) (modify g') := by
  intro s
  show EStateM.Result.ok PUnit.unit (g' (f s)) = .ok PUnit.unit (f (g s))
  rw [hg]

theorem Commutes.require (p : Prop) [Decidable p] (e : ε) :
    Commutes f (require p e : EStateM ε σ Unit) (require p e) := by
  intro s
  by_cases hp : p
  · rw [require_of hp, require_of hp]
  · rw [require_of_not hp, require_of_not hp]

/-- The state that a run leaves projects to the state that the other run leaves. -/
theorem Commutes.final {m : EStateM ε σ α} {m' : EStateM ε τ α} (h : Commutes f m m') (s : σ) :
    StateSpec.final m' (f s) = f (StateSpec.final m s) := by
  have hrun := h s
  unfold StateSpec.final
  cases hm : m s <;> rw [hm] at hrun <;> rw [hrun]

end Projections

/-! ## Lists of calls -/

theorem forall_split_nil {P : List α → α → Prop} :
    ∀ pre op post, ([] : List α) = pre ++ op :: post → P pre op := by
  intro pre op post hops
  simp at hops

/-- What holds of every call of a list, after the calls before it, splits off the first call. -/
theorem forall_split_cons {P : List α → α → Prop} {first : α} {ops : List α} :
    (∀ pre op post, first :: ops = pre ++ op :: post → P pre op) ↔
      P [] first ∧ ∀ pre op post, ops = pre ++ op :: post → P (first :: pre) op := by
  constructor
  · refine fun h => ⟨h [] first ops rfl, fun pre op post hops => ?_⟩
    exact h (first :: pre) op post (by rw [hops, List.cons_append])
  · rintro ⟨hfirst, hrest⟩ pre op post hops
    cases pre with
    | nil =>
      obtain ⟨rfl, -⟩ := List.cons.inj hops
      exact hfirst
    | cons x pre =>
      obtain ⟨rfl, htail⟩ := List.cons.inj hops
      exact hrest pre op post htail

/-- What holds of every call of a list, after the calls before it, splits off the last call. -/
theorem forall_split_append_singleton {P : List α → α → Prop} {ops : List α} {last : α} :
    (∀ pre op post, ops ++ [last] = pre ++ op :: post → P pre op) ↔
      (∀ pre op post, ops = pre ++ op :: post → P pre op) ∧ P ops last := by
  constructor
  · refine fun h => ⟨fun pre op post hops => ?_, h ops last [] rfl⟩
    exact h pre op (post ++ [last]) (by rw [hops, List.append_assoc, List.cons_append])
  · rintro ⟨hbefore, hlast⟩ pre op post hops
    rcases List.eq_nil_or_concat post with rfl | ⟨post, x, rfl⟩
    · obtain ⟨rfl, hop⟩ := List.append_inj' hops rfl
      cases hop
      exact hlast
    · rw [List.concat_eq_append, ← List.cons_append, ← List.append_assoc] at hops
      exact hbefore pre op post (List.append_inj' hops rfl).1

/-- What every step of a kind keeps holds after a list of steps that are all of that kind when they are
taken. -/
theorem foldl_induction {step : σ → α → σ} {I : σ → Prop} {C : σ → α → Prop}
    (hstep : ∀ s a, I s → C s a → I (step s a)) {s : σ} (hs : I s) {ops : List α}
    (hops : ∀ pre op post, ops = pre ++ op :: post → C (pre.foldl step s) op) :
    I (ops.foldl step s) := by
  induction ops using List.reverseRecOn with
  | nil => exact hs
  | append_singleton ops op ih =>
    obtain ⟨hbefore, hlast⟩ := forall_split_append_singleton.mp hops
    rw [List.foldl_append, List.foldl_cons, List.foldl_nil]
    exact hstep _ op (ih hbefore) hlast

/-- What a fold keeps from every beginning of a list to the next longer one holds at the end. -/
theorem foldl_prefix_induction {f : σ → α → σ} {I : List α → σ → Prop} {s : σ} (hs : I [] s)
    (hstep : ∀ pre a s, I pre s → I (pre ++ [a]) (f s a)) (l : List α) : I l (l.foldl f s) := by
  induction l using List.reverseRecOn with
  | nil => exact hs
  | append_singleton l a ih =>
    rw [List.foldl_append, List.foldl_cons, List.foldl_nil]
    exact hstep l a _ ih

/-- A state passes a test after every beginning of a list of steps if it passes at the start and after
every step. -/
theorem forall_prefix_iff {step : σ → α → σ} {P : σ → Prop} {s : σ} (hs : P s) (ops : List α) :
    (∀ pre, pre <+: ops → P (pre.foldl step s)) ↔
      ∀ pre op post, ops = pre ++ op :: post → P (step (pre.foldl step s) op) := by
  constructor
  · rintro h pre op post rfl
    have hpre : pre ++ [op] <+: pre ++ op :: post := ⟨post, by simp⟩
    simpa only [List.foldl_append, List.foldl_cons, List.foldl_nil] using h _ hpre
  · rintro h pre ⟨post, rfl⟩
    rcases List.eq_nil_or_concat pre with rfl | ⟨pre, op, rfl⟩
    · exact hs
    · rw [List.concat_eq_append, List.foldl_append, List.foldl_cons, List.foldl_nil]
      exact h pre op post (by rw [List.concat_eq_append, List.append_assoc, List.singleton_append])

/-- What is to hold of every step of a run holds exactly if every step meets its condition, provided
that it is so for one step from a state of the invariant, and that good steps keep the invariant. -/
theorem forall_step_iff {step : σ → α → σ} {I : σ → Prop} {G C : σ → α → Prop} {s : σ} (hs : I s)
    (hnext : ∀ s a, I s → G s a → I (step s a)) (hstep : ∀ s a, I s → (G s a ↔ C s a))
    (ops : List α) :
    (∀ pre op post, ops = pre ++ op :: post → G (pre.foldl step s) op) ↔
      ∀ pre op post, ops = pre ++ op :: post → C (pre.foldl step s) op := by
  induction ops using List.reverseRecOn with
  | nil => simp
  | append_singleton ops op ih =>
    rw [forall_split_append_singleton, forall_split_append_singleton, ih, and_congr_right_iff]
    intro h
    exact hstep _ op (foldl_induction hnext hs (ih.mpr h))

end StateSpec
