import Mathlib

/-!
# Lists in levels

The elements of a list by their levels, those of a level in any order. `precedes_iff`: what an element
depends on comes before it in all these orders if and only if it is on a smaller level.
-/

namespace Levels

variable {α : Type}

/-- The elements of a list level by level, up to a bound. The elements of a level are put in some order. -/
def inLevels (level : α → ℕ) (order : ℕ → List α → List α) (l : List α) (bound : ℕ) : List α :=
  (List.range (bound + 1)).flatMap fun n => order n (l.filter fun a => level a = n)

/-- Only the order is changed. -/
def Permutes (order : ℕ → List α → List α) : Prop := ∀ n l, (order n l).Perm l

variable {level : α → ℕ} {order : ℕ → List α → List α} {l : List α} {bound : ℕ} {a b : α}

theorem mem_level (horder : Permutes order) {n : ℕ} :
    a ∈ order n (l.filter fun a => level a = n) ↔ a ∈ l ∧ level a = n := by
  rw [(horder n _).mem_iff, List.mem_filter, decide_eq_true_eq]

theorem mem_inLevels (horder : Permutes order) (hbound : ∀ a ∈ l, level a ≤ bound) :
    a ∈ inLevels level order l bound ↔ a ∈ l := by
  rw [inLevels, List.mem_flatMap]
  constructor
  · rintro ⟨n, -, ha⟩
    exact ((mem_level horder).mp ha).1
  · intro ha
    exact ⟨level a, List.mem_range.mpr (Nat.lt_succ_of_le (hbound a ha)), (mem_level horder).mpr ⟨ha, rfl⟩⟩

theorem inLevels_perm (horder : Permutes order) (hbound : ∀ a ∈ l, level a ≤ bound) (hnodup : l.Nodup) :
    (inLevels level order l bound).Perm l := by
  refine (List.perm_ext_iff_of_nodup (List.nodup_flatMap.mpr ⟨fun n _ => ?_, ?_⟩) hnodup).mpr fun a =>
    mem_inLevels horder hbound
  · exact (horder n _).nodup_iff.mpr (hnodup.filter _)
  · refine List.nodup_range.imp fun hne a hm hn => hne ?_
    rw [← ((mem_level horder).mp hm).2, ← ((mem_level horder).mp hn).2]

/-- An order that puts an element first in its level -/
def putFirst [DecidableEq α] (a : α) (_ : ℕ) (l : List α) : List α := if a ∈ l then a :: l.erase a else l

theorem permutes_putFirst [DecidableEq α] (a : α) : Permutes (putFirst a) := by
  intro n l
  unfold putFirst
  split_ifs with ha
  · exact (List.perm_cons_erase ha).symm
  · exact .refl _

/-- In every order what an element depends on comes before it, if and only if it is on a smaller level. -/
theorem precedes_iff {R : α → α → Prop} (hbound : ∀ a ∈ l, level a ≤ bound) (hnodup : l.Nodup) :
    (∀ order, Permutes order → (inLevels level order l bound).Pairwise fun a b => ¬ R a b) ↔
      ∀ a ∈ l, ∀ b ∈ l, a ≠ b → R a b → level b < level a := by
  classical
  constructor
  · intro h a ha b hb hne hab
    by_contra hle
    obtain ⟨hinside, hacross⟩ := List.pairwise_flatMap.mp (h (putFirst a) (permutes_putFirst a))
    have hmem {c : α} (hc : c ∈ l) : c ∈ putFirst a (level c) (l.filter fun a => level a = level c) :=
      (mem_level (permutes_putFirst a)).mpr ⟨hc, rfl⟩
    rcases Nat.eq_or_lt_of_le (not_lt.mp hle) with heq | hlt
    · -- on the same level the element may come first
      have hfirst : a ∈ l.filter fun c => level c = level a := List.mem_filter.mpr ⟨ha, decide_eq_true rfl⟩
      have hsame := hinside (level a) (List.mem_range.mpr (Nat.lt_succ_of_le (hbound a ha)))
      rw [putFirst, if_pos hfirst] at hsame
      refine (List.pairwise_cons.mp hsame).1 b ?_ hab
      exact (List.mem_erase_of_ne hne.symm).mpr (List.mem_filter.mpr ⟨hb, decide_eq_true heq.symm⟩)
    · have hlevels := List.pairwise_iff_getElem.mp hacross (level a) (level b)
        (by rw [List.length_range]; exact Nat.lt_succ_of_le (hbound a ha))
        (by rw [List.length_range]; exact Nat.lt_succ_of_le (hbound b hb)) hlt
      rw [List.getElem_range, List.getElem_range] at hlevels
      exact hlevels a (hmem ha) b (hmem hb) hab
  · intro h order horder
    refine List.pairwise_flatMap.mpr ⟨fun n _ => ?_, List.pairwise_lt_range.imp fun hlt a ha b hb hab => ?_⟩
    · refine List.Pairwise.imp_of_mem (fun ha hb hne hab => ?_) ((horder n _).nodup_iff.mpr (hnodup.filter _))
      obtain ⟨ha', rfl⟩ := (mem_level horder).mp ha
      obtain ⟨hb', heq⟩ := (mem_level horder).mp hb
      exact absurd (h _ ha' _ hb' hne hab) (by omega)
    · obtain ⟨ha', rfl⟩ := (mem_level horder).mp ha
      obtain ⟨hb', rfl⟩ := (mem_level horder).mp hb
      have hne : a ≠ b := fun heq => absurd hlt (by rw [heq]; exact lt_irrefl _)
      exact absurd (h _ ha' _ hb' hne hab) (by omega)

end Levels
