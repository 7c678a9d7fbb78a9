import Rustgresql.Lib.Recursion
import Rustgresql.Lib.StableSort

/-!
# Distinct elements and sorting

A stable sort gives one result, and it does not matter whether repeated elements are left out before or after
it: `StablySorted.fresh`.
-/

namespace StableSort

open Recursion (fresh)

variable {α β : Type} {cmp : α → α → Ordering} {l l₁ l₂ : List α}

/-! ## One result -/

theorem eq_of_sorted (horder : IsOrderOn cmp l₁) (hperm : l₂.Perm l₁) (h₁ : l₁.Pairwise fun a b => cmp a b ≠ .gt)
    (h₂ : l₂.Pairwise fun a b => cmp a b ≠ .gt)
    (hstable : ∀ a ∈ l₁, (l₁.filter fun b => cmp a b = .eq) = l₂.filter fun b => cmp a b = .eq) : l₁ = l₂ := by
  induction l₁ generalizing l₂ with
  | nil => exact hperm.eq_nil.symm
  | cons a l₁ ih =>
    have ha : a ∈ a :: l₁ := List.mem_cons_self
    obtain ⟨b, l₂, rfl⟩ := List.exists_cons_of_ne_nil (List.ne_nil_of_mem (hperm.mem_iff.mpr ha))
    have hb : b ∈ a :: l₁ := hperm.subset List.mem_cons_self
    have horder₂ : IsOrderOn cmp (b :: l₂) := horder.mono fun c hc => hperm.subset hc
    -- neither head is greater than the other
    have hab : cmp a b = .eq := by
      have hle := not_gt_of_mem_cons horder h₁ hb
      have hge := not_gt_of_mem_cons horder₂ h₂ (hperm.mem_iff.mpr ha)
      rw [horder.swap a ha b hb] at hge
      revert hle hge
      cases cmp a b <;> simp
    have hclass := hstable a ha
    rw [List.filter_cons, List.filter_cons, if_pos (decide_eq_true (horder.self ha)), if_pos (decide_eq_true hab),
      List.cons.injEq] at hclass
    obtain ⟨rfl, -⟩ := hclass
    have htail : ∀ c ∈ l₁, (l₁.filter fun d => cmp c d = .eq) = l₂.filter fun d => cmp c d = .eq := by
      intro c hc
      have hfilter := hstable c (List.mem_cons_of_mem _ hc)
      rw [List.filter_cons, List.filter_cons] at hfilter
      split_ifs at hfilter
      · exact (List.cons.inj hfilter).2
      · exact hfilter
    rw [ih (horder.mono fun c hc => List.mem_cons_of_mem _ hc) hperm.cons_inv h₁.of_cons h₂.of_cons htail]

theorem StablySorted.unique (horder : IsOrderOn cmp l) (h₁ : StablySorted cmp l l₁) (h₂ : StablySorted cmp l l₂) :
    l₁ = l₂ :=
  eq_of_sorted (horder.mono fun _ ha => h₁.perm.subset ha) (h₂.perm.trans h₁.perm.symm) h₁.sorted h₂.sorted
    fun a ha => (h₁.stable a (h₁.perm.subset ha)).trans (h₂.stable a (h₁.perm.subset ha)).symm

/-- What is sorted by a part of the elements has these parts sorted. -/
theorem StablySorted.map {f : β → α} {l l' : List β} (h : StablySorted (fun x y => cmp (f x) (f y)) l l') :
    StablySorted cmp (l.map f) (l'.map f) := by
  refine ⟨h.perm.map f, List.pairwise_map.mpr h.sorted, fun a ha => ?_⟩
  obtain ⟨x, hx, rfl⟩ := List.mem_map.mp ha
  rw [List.filter_map, List.filter_map]
  exact congrArg (List.map f) (h.stable x hx)

/-! ## Distinct elements -/

section Fresh

variable {same : α → α → Bool}

theorem fresh_sublist (seen l : List α) : (fresh same seen l).Sublist l := by
  induction l generalizing seen with
  | nil => exact List.Sublist.refl _
  | cons a l ih =>
    rw [fresh]
    split_ifs
    · exact (ih seen).cons a
    · exact (ih (seen ++ [a])).cons_cons a

/-- Elements that are all different stay. -/
theorem fresh_eq_self {seen : List α} (h : (seen ++ l).Pairwise fun a b => same a b = false) :
    fresh same seen l = l := by
  induction l generalizing seen with
  | nil => rfl
  | cons a l ih =>
    have hseen : ¬ seen.any (same · a) = true := by
      rw [List.any_eq_true]
      rintro ⟨b, hb, hba⟩
      have hne := (List.pairwise_append.mp h).2.2 b hb a List.mem_cons_self
      rw [hba] at hne
      cases hne
    rw [fresh, if_neg hseen, ih (by rwa [List.append_assoc])]

theorem fresh_eq_self_iff : fresh same [] l = l ↔ l.Pairwise fun a b => same a b = false := by
  refine ⟨fun h => ?_, fun h => fresh_eq_self h⟩
  have hpairwise : ([] ++ fresh same [] l).Pairwise fun a b => same a b = false :=
    Recursion.pairwise_append_fresh l .nil
  rwa [List.nil_append, h] at hpairwise

variable (hsame : ∀ a b, same a b = true → a = b)

include hsame

theorem fresh_filter (p : α → Bool) (seen l : List α) :
    fresh same (seen.filter p) (l.filter p) = (fresh same seen l).filter p := by
  induction l generalizing seen with
  | nil => rfl
  | cons a l ih =>
    rw [fresh]
    by_cases hp : p a = true
    · have hany : (seen.filter p).any (same · a) = seen.any (same · a) := by
        rw [Bool.eq_iff_iff, List.any_eq_true, List.any_eq_true]
        constructor
        · rintro ⟨b, hb, hba⟩
          exact ⟨b, (List.mem_filter.mp hb).1, hba⟩
        · rintro ⟨b, hb, hba⟩
          obtain rfl := hsame b a hba
          exact ⟨b, List.mem_filter.mpr ⟨hb, hp⟩, hba⟩
      have hsingle : [a].filter p = [a] := List.filter_cons_of_pos hp
      rw [List.filter_cons_of_pos hp, fresh, hany]
      split_ifs
      · exact ih seen
      · rw [List.filter_cons_of_pos hp, ← ih (seen ++ [a]), List.filter_append, hsingle]
    · have hsingle : [a].filter p = [] := List.filter_cons_of_neg hp
      rw [List.filter_cons_of_neg hp]
      split_ifs
      · exact ih seen
      · rw [List.filter_cons_of_neg hp, ← ih (seen ++ [a]), List.filter_append, hsingle, List.append_nil]

/-- A stable sort of the distinct elements has the distinct elements of the sorted list. -/
theorem StablySorted.fresh (h : StablySorted cmp l l₁) :
    StablySorted cmp (Recursion.fresh same [] l) (Recursion.fresh same [] l₁) := by
  classical
  refine ⟨List.perm_iff_count.mpr fun a => ?_, h.sorted.sublist (fresh_sublist [] l₁), fun a ha => ?_⟩
  · have hfilter (l' : List α) : (Recursion.fresh same [] l').count a =
        (Recursion.fresh same [] (List.replicate (l'.count a) a)).length := by
      rw [List.count_eq_length_filter, ← fresh_filter hsame, List.filter_nil, List.filter_beq]
    rw [hfilter, hfilter, h.perm.count_eq]
  · rw [← fresh_filter hsame, ← fresh_filter hsame, List.filter_nil, h.stable a ((fresh_sublist [] l).subset ha)]

end Fresh

end StableSort
