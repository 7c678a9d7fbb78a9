import Rustgresql.Lib.StateSpec

/-!
# Computations in lockstep

Two `EStateM` computations over different states are in lockstep if from related states they return the
same value or fail with the same error, and leave related states. The rules follow the shape of a program,
as those for `Spec` do. An invariant is the case of one computation and equal states.
-/

namespace StateSpec

variable {ε σ τ α β : Type} {R : σ → τ → Prop}

/-- From states related by `R` the two computations end alike, in states related by `R`. -/
def Lockstep (R : σ → τ → Prop) (m : EStateM ε σ α) (m' : EStateM ε τ α) : Prop :=
  ∀ s t, R s t →
    (∃ a s' t', m s = .ok a s' ∧ m' t = .ok a t' ∧ R s' t') ∨
      ∃ e s' t', m s = .error e s' ∧ m' t = .error e t' ∧ R s' t'

namespace Lockstep

theorem pure (a : α) : Lockstep R (pure a : EStateM ε σ α) (pure a) :=
  fun s t h => .inl ⟨a, s, t, rfl, rfl, h⟩

theorem throw (e : ε) : Lockstep R (throw e : EStateM ε σ α) (throw e) :=
  fun s t h => .inr ⟨e, s, t, rfl, rfl, h⟩

theorem modify {f : σ → σ} {g : τ → τ} (h : ∀ s t, R s t → R (f s) (g t)) :
    Lockstep R (modify f : EStateM ε σ PUnit) (modify g) :=
  fun s t hst => .inl ⟨⟨⟩, f s, g t, rfl, rfl, h s t hst⟩

theorem bind {m : EStateM ε σ α} {m' : EStateM ε τ α} {f : α → EStateM ε σ β} {f' : α → EStateM ε τ β}
    (hm : Lockstep R m m') (hf : ∀ a, Lockstep R (f a) (f' a)) : Lockstep R (m >>= f) (m' >>= f') := by
  intro s t h
  obtain ⟨a, s', t', hs, ht, h'⟩ | ⟨e, s', t', hs, ht, h'⟩ := hm s t h
  · rw [bind_of_ok hs, bind_of_ok ht]
    exact hf a s' t' h'
  · exact .inr ⟨e, s', t', bind_of_error hs, bind_of_error ht, h'⟩

/-- What a computation does after it has read related states. -/
theorem get_bind {f : σ → EStateM ε σ β} {f' : τ → EStateM ε τ β}
    (hf : ∀ s t, R s t → Lockstep R (f s) (f' t)) : Lockstep R (get >>= f) (get >>= f') :=
  fun s t h => hf s t h s t h

/-- A computation in lockstep with itself on equal states of an invariant keeps it. -/
theorem keeps {I : σ → Prop} {m : EStateM ε σ α} (h : Lockstep (fun s t => t = s ∧ I s) m m) :
    Keeps I m := by
  intro s hs
  unfold Spec
  obtain ⟨a, s', t', hrun, -, -, hs'⟩ | ⟨e, s', t', hrun, -, -, hs'⟩ := h s s ⟨rfl, hs⟩ <;>
    rwa [hrun]

theorem of_keeps {I : σ → Prop} {m : EStateM ε σ α} (h : Keeps I m) :
    Lockstep (fun s t => t = s ∧ I s) m m := by
  rintro s t ⟨rfl, ht⟩
  have hs' := h t ht
  unfold Spec at hs'
  cases hrun : m t with
  | ok a s' => exact .inl ⟨a, s', s', rfl, rfl, rfl, by rwa [hrun] at hs'⟩
  | error e s' => exact .inr ⟨e, s', s', rfl, rfl, rfl, by rwa [hrun] at hs'⟩

end Lockstep

end StateSpec
