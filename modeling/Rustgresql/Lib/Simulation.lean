import Rustgresql.Lib.StateSpec

/-!
# Simulations that learn

A simulation relates the states of two `EStateM` computations through what is known at the time: `R k s t`
says that `s` and `t` belong together as far as `k` goes, where knowledge only grows. `Refines` says of the
returns of the first computation that the second one returns as well, with more knowledge afterwards.
Nothing is said when the first one fails.
-/

namespace StateSpec

variable {ε ε' σ τ α α' β β' κ : Type} [Preorder κ] {R : κ → σ → τ → Prop} {k : κ}

theorem final_of_ok {act : EStateM ε σ α} {s s' : σ} {a : α} (h : act s = .ok a s') :
    final act s = s' := by rw [final, h]

theorem require_eq_ok {p : Prop} [Decidable p] {e : ε} {s s' : σ} {u : Unit} :
    require p e s = .ok u s' ↔ p ∧ s = s' := by
  by_cases hp : p
  · rw [require_of hp]
    simp [hp]
  · rw [require_of_not hp]
    simp [hp]

/-- Whenever `m` returns from a state related to one of `m'`, then `m'` returns as well, in a related
state and with a value related by `V`, perhaps with more knowledge. -/
def Refines (R : κ → σ → τ → Prop) (V : κ → α → α' → Prop) (k : κ) (m : EStateM ε σ α)
    (m' : EStateM ε' τ α') : Prop :=
  ∀ s t, R k s t → ∀ a s', m s = .ok a s' →
    ∃ k', k ≤ k' ∧ ∃ a' t', m' t = .ok a' t' ∧ V k' a a' ∧ R k' s' t'

namespace Refines

variable {V : κ → α → α' → Prop} {U : κ → β → β' → Prop}

theorem pure {a : α} {a' : α'} (h : V k a a') :
    Refines R V k (pure a : EStateM ε σ α) (pure a' : EStateM ε' τ α') := by
  rintro s t hst b s' ⟨⟩
  exact ⟨k, le_refl k, a', t, rfl, h, hst⟩

theorem throw (e : ε) (m' : EStateM ε' τ α') : Refines R V k (throw e : EStateM ε σ α) m' :=
  fun _ _ _ _ _ h => nomatch h

theorem bind {m : EStateM ε σ α} {m' : EStateM ε' τ α'} {f : α → EStateM ε σ β}
    {f' : α' → EStateM ε' τ β'} (hm : Refines R V k m m')
    (hf : ∀ k' a a', k ≤ k' → V k' a a' → Refines R U k' (f a) (f' a')) :
    Refines R U k (m >>= f) (m' >>= f') := by
  intro s t hst b s'' hrun
  obtain ⟨a, s', hfirst, hsecond⟩ := bind_eq_ok.mp hrun
  obtain ⟨k', hk', a', t', hrun', hV, hst'⟩ := hm s t hst a s' hfirst
  obtain ⟨k'', hk'', b', t'', hrun'', hU, hst''⟩ := hf k' a a' hk' hV s' t' hst' b s'' hsecond
  exact ⟨k'', hk'.trans hk'', b', t'', (bind_of_ok hrun').trans hrun'', hU, hst''⟩

/-- A computation that the second side does not make. -/
theorem bind_left {m : EStateM ε σ α} {a' : α'} {f : α → EStateM ε σ β} {m' : EStateM ε' τ β'}
    (hm : Refines R V k m (Pure.pure a' : EStateM ε' τ α'))
    (hf : ∀ k' a, k ≤ k' → V k' a a' → Refines R U k' (f a) m') : Refines R U k (m >>= f) m' := by
  intro s t hst b s'' hrun
  obtain ⟨a, s', hfirst, hsecond⟩ := bind_eq_ok.mp hrun
  obtain ⟨k', hk', _, _, hrun', hV, hst'⟩ := hm s t hst a s' hfirst
  cases hrun'
  obtain ⟨k'', hk'', hrest⟩ := hf k' a hk' hV s' t hst' b s'' hsecond
  exact ⟨k'', hk'.trans hk'', hrest⟩

/-- A computation that reads its state. -/
theorem get_bind {f : σ → EStateM ε σ β} {f' : τ → EStateM ε' τ β'}
    (hf : ∀ s t, R k s t → Refines R U k (f s) (f' t)) :
    Refines R U k (get >>= f) (get >>= f') :=
  fun s t hst => hf s t hst s t hst

theorem modify {f : σ → σ} {g : τ → τ} {V : κ → PUnit → PUnit → Prop} (hV : V k ⟨⟩ ⟨⟩)
    (h : ∀ s t, R k s t → R k (f s) (g t)) :
    Refines R V k (modify f : EStateM ε σ PUnit) (modify g : EStateM ε' τ PUnit) := by
  rintro s t hst a s' ⟨⟩
  exact ⟨k, le_refl k, ⟨⟩, g t, rfl, hV, h s t hst⟩

/-- A check that only the first computation makes. -/
theorem require_bind {p : Prop} [Decidable p] {e : ε} {f : Unit → EStateM ε σ β} {m' : EStateM ε' τ β'}
    (hf : p → Refines R U k (f ()) m') : Refines R U k (require p e >>= f) m' := by
  intro s t hst b s' hrun
  obtain ⟨_, s₁, hrequire, hrun⟩ := bind_eq_ok.mp hrun
  obtain ⟨hp, rfl⟩ := require_eq_ok.mp hrequire
  exact hf hp s t hst b s' hrun

theorem mono {m : EStateM ε σ α} {m' : EStateM ε' τ α'} {V' : κ → α → α' → Prop}
    (h : Refines R V k m m') (hV : ∀ k' a a', V k' a a' → V' k' a a') : Refines R V' k m m' := by
  intro s t hst a s' hrun
  obtain ⟨k', hk', a', t', hrun', hVa, hst'⟩ := h s t hst a s' hrun
  exact ⟨k', hk', a', t', hrun', hV k' a a' hVa, hst'⟩

end Refines

/-! ## Runs -/

variable {ι : Type}

/-- The values that calls return one after the other, if they all return. -/
def calls (step : ι → EStateM ε σ α) : List ι → EStateM ε σ (List α)
  | [] => pure []
  | i :: is => do
    let a ← step i
    let as ← calls step is
    return a :: as

/-- The calls of two runs one after the other -/
theorem calls_append (step : ι → EStateM ε σ α) (is js : List ι) : calls step (is ++ js) = (do
    let as ← calls step is
    let bs ← calls step js
    return as ++ bs) := by
  induction is with
  | nil => exact (bind_pure (calls step js)).symm
  | cons i is ih =>
    rw [List.cons_append, calls, calls, ih]
    simp only [bind_assoc, pure_bind, List.cons_append]

/-- Calls that refine others step by step refine them in every run, and return the same. -/
theorem Refines.calls {step : ι → EStateM ε σ α} {step' : ι → EStateM ε' τ α}
    (h : ∀ k i, Refines R (fun _ a a' => a = a') k (step i) (step' i)) (k : κ) (is : List ι) :
    Refines R (fun _ as as' => as = as') k (calls step is) (calls step' is) := by
  induction is generalizing k with
  | nil => exact Refines.pure rfl
  | cons i is ih =>
    refine (h k i).bind ?_
    rintro k₁ a _ - rfl
    refine (ih k₁).bind ?_
    rintro k₂ as _ - rfl
    exact Refines.pure rfl

end StateSpec
