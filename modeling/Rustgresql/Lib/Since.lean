import Mathlib
import Rustgresql.Lib.StateSpec

/-!
# What was done and not undone since

A run makes one call after the other. `Since` says of the calls that one of them set something and that none of the
later calls has unset it. A property of states that every step treats in this way tells just that (`iff_since`).
-/

open StateSpec

variable {σ α : Type} (step : σ → α → σ) (sets unsets : σ → α → Prop) (s : σ)

/-- A call of the run sets, and no later call unsets. -/
def Since (calls : List α) : Prop :=
  ∃ pre call post, calls = pre ++ call :: post ∧ sets (pre.foldl step s) call ∧
    ∀ mid later rest, post = mid ++ later :: rest → ¬ unsets ((pre ++ call :: mid).foldl step s) later

namespace Since

variable {step sets unsets s} {calls : List α} {call : α}

theorem not_nil : ¬ Since step sets unsets s [] := by
  rintro ⟨pre, call, post, hcalls, -⟩
  simp at hcalls

/-- The last call sets, or it does not unset what was set. -/
theorem append_singleton : Since step sets unsets s (calls ++ [call]) ↔
    Since step sets unsets s calls ∧ ¬ unsets (calls.foldl step s) call ∨ sets (calls.foldl step s) call := by
  constructor
  · rintro ⟨pre, first, post, hcalls, hsets, hpost⟩
    rcases List.eq_nil_or_concat post with rfl | ⟨post, last, rfl⟩
    · obtain ⟨rfl, hlast⟩ := List.append_inj' hcalls rfl
      cases hlast
      exact .inr hsets
    · rw [List.concat_eq_append] at hcalls hpost
      rw [← List.cons_append, ← List.append_assoc] at hcalls
      obtain ⟨rfl, hlast⟩ := List.append_inj' hcalls rfl
      cases hlast
      obtain ⟨hbefore, hlast⟩ := forall_split_append_singleton
        (P := fun mid later => ¬ unsets ((pre ++ first :: mid).foldl step s) later).mp hpost
      exact .inl ⟨⟨pre, first, post, rfl, hsets, hbefore⟩, hlast⟩
  · rintro (⟨⟨pre, first, post, rfl, hsets, hpost⟩, hcall⟩ | hsets)
    · refine ⟨pre, first, post ++ [call], by simp, hsets, ?_⟩
      exact forall_split_append_singleton
        (P := fun mid later => ¬ unsets ((pre ++ first :: mid).foldl step s) later).mpr ⟨hpost, hcall⟩
    · exact ⟨calls, call, [], rfl, hsets, forall_split_nil⟩

/-- What every step sets, unsets or leaves holds if it was set and has not been unset since. -/
theorem iff_since {P : σ → Prop} (hs : ¬ P s)
    (hstep : ∀ s call, P (step s call) ↔ P s ∧ ¬ unsets s call ∨ sets s call) (calls : List α) :
    P (calls.foldl step s) ↔ Since step sets unsets s calls := by
  induction calls using List.reverseRecOn with
  | nil => exact iff_of_false hs not_nil
  | append_singleton calls call ih =>
    rw [append_singleton, ← ih, List.foldl_append, List.foldl_cons, List.foldl_nil]
    exact hstep _ call

end Since
