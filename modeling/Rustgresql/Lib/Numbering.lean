import Mathlib

/-!
# Numbers from a counter

Objects with keys get their numbers from a counter. One object `b` has the number `a` from the start,
and the counter starts at `a` too: the numbers stay distinct exactly as long as `a` is not handed out
while `b` has it.
-/

namespace Numbering

variable {κ : Type}

/-- No two keys have the same number. -/
def Distinct (f : κ → Option ℕ) : Prop := ∀ k k' i, f k = some i → f k' = some i → k = k'

/-- All numbers are from below the counter, except that of `b` as long as the counter has not moved. -/
structure Below (a : ℕ) (b : κ) (f : κ → Option ℕ) (next : ℕ) : Prop where
  lt : ∀ k i, f k = some i → i < next ∨ next = a ∧ k = b
  builtin : next = a → ∀ i, f b = some i → i = a

variable {a : ℕ} {b : κ} {f : κ → Option ℕ} {next : ℕ}

/-- A number may be used up without an object. -/
theorem Below.skip (h : Below a b f next) (ha : a ≤ next) : Below a b f (next + 1) where
  lt k i hk := by
    rcases h.lt k i hk with hlt | ⟨rfl, rfl⟩
    · exact .inl (by omega)
    · obtain rfl := h.builtin rfl i hk
      exact .inl (by omega)
  builtin hn := by omega

variable [DecidableEq κ]

theorem Below.update (h : Below a b f next) (ha : a ≤ next) (k : κ) :
    Below a b (Function.update f k (some next)) (next + 1) where
  lt k' i hk := by
    rw [Function.update_apply] at hk
    split at hk
    · cases hk
      exact .inl (by omega)
    · exact (h.skip ha).lt k' i hk
  builtin hn := by omega

theorem Below.erase (h : Below a b f next) (k : κ) : Below a b (Function.update f k none) next where
  lt k' i hk := by
    rw [Function.update_apply] at hk
    split at hk
    · cases hk
    · exact h.lt k' i hk
  builtin hn i hi := by
    rw [Function.update_apply] at hi
    split at hi
    · cases hi
    · exact h.builtin hn i hi

theorem Distinct.erase (h : Distinct f) (k : κ) : Distinct (Function.update f k none) := by
  intro x y i hx hy
  rw [Function.update_apply] at hx hy
  split at hx
  · cases hx
  split at hy
  · cases hy
  exact h x y i hx hy

/-- The next number keeps the numbers distinct unless it is that of `b`, and another key gets it while
`b` is there. -/
theorem distinct_update_iff (h : Below a b f next) (hd : Distinct f) (k : κ) :
    Distinct (Function.update f k (some next)) ↔ (next = a → k = b ∨ f b = none) := by
  constructor
  · intro hu hn
    by_contra! hk
    obtain ⟨hkb, hb⟩ := hk
    obtain ⟨i, hi⟩ := Option.ne_none_iff_exists'.mp hb
    have hia := h.builtin hn i hi
    apply hkb
    refine hu k b next (Function.update_self ..) ?_
    rw [Function.update_of_ne (Ne.symm hkb), hi, hia, hn]
  · intro hn
    -- no other key has the number
    have hfree : ∀ x, f x = some next → x = k := by
      intro x hx
      rcases h.lt x next hx with hlt | ⟨hna, rfl⟩
      · omega
      · rcases hn hna with hk | hnone
        · exact hk.symm
        · rw [hnone] at hx
          cases hx
    intro x y i hx hy
    rw [Function.update_apply] at hx hy
    split at hx <;> split at hy
    · next hx' hy' => rw [hx', hy']
    · next hx' _ =>
      cases hx
      rw [hx', hfree y hy]
    · next hy' =>
      cases hy
      rw [hy', hfree x hx]
    · exact hd x y i hx hy

end Numbering
