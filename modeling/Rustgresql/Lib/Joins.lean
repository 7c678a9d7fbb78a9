import Mathlib

/-!
# Joins of bags

The pairs of elements of two bags that match, and the elements of one bag that have a partner in the other,
or none.
-/

namespace Joins

variable {α β : Type}

/-- The pairs that match -/
def pairs (M : α → β → Bool) (A : Multiset α) (B : Multiset β) : Multiset (α × β) :=
  (A ×ˢ B).filter fun p => M p.1 p.2

open scoped Classical in
/-- The elements of the first bag that match one of the second -/
noncomputable def semi (M : α → β → Bool) (A : Multiset α) (B : Multiset β) : Multiset α :=
  A.filter fun a => ∃ b ∈ B, M a b

open scoped Classical in
/-- The elements of the first bag that match none of the second -/
noncomputable def anti (M : α → β → Bool) (A : Multiset α) (B : Multiset β) : Multiset α :=
  A.filter fun a => ¬ ∃ b ∈ B, M a b

section Members

variable {M : α → β → Bool} {A : Multiset α} {B : Multiset β}

theorem mem_pairs {p : α × β} : p ∈ pairs M A B ↔ p.1 ∈ A ∧ p.2 ∈ B ∧ M p.1 p.2 = true := by
  rw [pairs, Multiset.mem_filter, Multiset.mem_product, and_assoc]

open scoped Classical in
theorem mem_semi {a : α} : a ∈ semi M A B ↔ a ∈ A ∧ ∃ b ∈ B, M a b = true := by
  rw [semi, Multiset.mem_filter]

open scoped Classical in
theorem mem_anti {a : α} : a ∈ anti M A B ↔ a ∈ A ∧ ¬ ∃ b ∈ B, M a b = true := by
  rw [anti, Multiset.mem_filter]

theorem pairs_add_left (A A' : Multiset α) : pairs M (A + A') B = pairs M A B + pairs M A' B := by
  rw [pairs, Multiset.add_product, Multiset.filter_add, pairs, pairs]

theorem pairs_add_right (B B' : Multiset β) : pairs M A (B + B') = pairs M A B + pairs M A B' := by
  rw [pairs, Multiset.product_add, Multiset.filter_add, pairs, pairs]

theorem pairs_eq_zero (h : ∀ a ∈ A, ∀ b ∈ B, M a b = false) : pairs M A B = 0 := by
  refine Multiset.eq_zero_of_forall_notMem fun p hp => ?_
  obtain ⟨ha, hb, hmatch⟩ := mem_pairs.mp hp
  rw [h _ ha _ hb] at hmatch
  cases hmatch

theorem pairs_congr {M' : α → β → Bool} (h : ∀ a ∈ A, ∀ b ∈ B, M a b = M' a b) :
    pairs M A B = pairs M' A B := by
  refine Multiset.filter_congr fun p hp => ?_
  obtain ⟨ha, hb⟩ := Multiset.mem_product.mp hp
  rw [h _ ha _ hb]

/-- Pairs that have been added to those that match one way make them those that match another way only if
none have been added. -/
theorem pairs_add_eq_iff {M' : α → β → Bool} {extra : Multiset (α × β)} (hextra : ∀ p ∈ extra, p ∈ pairs M A B) :
    pairs M A B + extra = pairs M' A B ↔ extra = 0 ∧ ∀ a ∈ A, ∀ b ∈ B, M a b = M' a b := by
  classical
  constructor
  · intro h
    have hnone : extra = 0 := by
      refine Multiset.eq_zero_of_forall_notMem fun p hp => ?_
      have hmatch := (mem_pairs.mp (hextra p hp)).2.2
      have hcount := congrArg (Multiset.count p) h
      have hall : (pairs M A B).count p = (A ×ˢ B).count p := Multiset.count_filter_of_pos hmatch
      have hle : (pairs M' A B).count p ≤ (A ×ˢ B).count p :=
        Multiset.count_le_of_le p (Multiset.filter_le ..)
      have hpos : 0 < extra.count p := Multiset.count_pos.mpr hp
      rw [Multiset.count_add, hall] at hcount
      omega
    refine ⟨hnone, fun a ha b hb => Bool.eq_iff_iff.mpr ?_⟩
    rw [hnone, add_zero] at h
    have hmem : (a, b) ∈ pairs M A B ↔ (a, b) ∈ pairs M' A B := by rw [h]
    rw [mem_pairs, mem_pairs] at hmem
    simpa [ha, hb] using hmem
  · rintro ⟨rfl, h⟩
    rw [add_zero, pairs_congr h]

end Members

variable (M : α → β → Bool)

/-- Two nested loops find the pairs. -/
theorem pairs_coe (l : List α) (l' : List β) :
    pairs M l l' = l.flatMap fun a => (l'.filter (M a)).map (Prod.mk a) := by
  have hproduct : Multiset.ofList l ×ˢ Multiset.ofList l' =
      Multiset.ofList (l.flatMap fun a => l'.map (Prod.mk a)) := Multiset.coe_product l l'
  rw [pairs, hproduct, Multiset.filter_coe, List.filter_flatMap]
  congr 2
  funext a
  rw [List.filter_map]
  congr 1
  exact List.filter_congr fun b _ => by simp

theorem semi_coe (l : List α) (l' : List β) : semi M l l' = l.filter fun a => l'.any (M a) := by
  rw [semi, Multiset.filter_coe]
  congr 1
  exact List.filter_congr fun a _ => Bool.eq_iff_iff.mpr (by simp)

theorem anti_coe (l : List α) (l' : List β) : anti M l l' = l.filter fun a => !l'.any (M a) := by
  rw [anti, Multiset.filter_coe]
  congr 1
  exact List.filter_congr fun a _ => Bool.eq_iff_iff.mpr (by simp)

section Bind

open scoped Classical

variable {γ : Type} {M : α → β → Bool} (A : Multiset α) (B : Multiset β)

theorem pairs_eq_bind : pairs M A B = A.bind fun a => (B.filter fun b => M a b = true).map (Prod.mk a) := by
  have hproduct : A ×ˢ B = A.bind fun a => B.map (Prod.mk a) := rfl
  rw [pairs, hproduct, Multiset.filter_bind]
  refine Multiset.bind_congr fun a _ => ?_
  rw [Multiset.filter_map]
  rfl

theorem pairs_flip : pairs M A B = (pairs (flip M) B A).map Prod.swap := by
  rw [pairs, ← Multiset.map_swap_product, Multiset.filter_map]
  rfl

/-- The partners that an outer join gives to an element: those that match it, or the one that stands in for
them. -/
noncomputable def partners (M : α → β → Bool) (B : Multiset β) (missing : β) (a : α) : Multiset β :=
  if ∃ b ∈ B, M a b = true then B.filter fun b => M a b = true else {missing}

theorem bind_partners (missing : β) (f : α → β → γ) :
    A.bind (fun a => (partners M B missing a).map (f a)) =
      (pairs M A B).map (fun p => f p.1 p.2) + (anti M A B).map fun a => f a missing := by
  have hsplit : ∀ a ∈ A, (partners M B missing a).map (f a) =
      (B.filter fun b => M a b = true).map (f a) + if ¬ ∃ b ∈ B, M a b = true then {f a missing} else 0 := by
    intro a _
    unfold partners
    by_cases hpartner : ∃ b ∈ B, M a b = true
    · simp [hpartner]
    · have hnone : (B.filter fun b => M a b = true) = 0 :=
        Multiset.filter_eq_nil.mpr fun b hb hmatch => hpartner ⟨b, hb, hmatch⟩
      rw [if_neg hpartner, if_pos hpartner, hnone]
      simp
  rw [Multiset.bind_congr hsplit, Multiset.bind_add, pairs_eq_bind, Multiset.map_bind, anti,
    Multiset.filter_eq_bind, Multiset.map_bind]
  congr 1
  · simp
  · refine Multiset.bind_congr fun a _ => ?_
    split <;> simp

theorem semi_eq_bind : semi M A B = A.bind fun a => if ∃ b ∈ B, M a b = true then {a} else 0 := by
  rw [semi, Multiset.filter_eq_bind]

theorem anti_eq_bind : anti M A B = A.bind fun a => if ∃ b ∈ B, M a b = true then 0 else {a} := by
  rw [anti, Multiset.filter_eq_bind]
  refine Multiset.bind_congr fun a _ => ?_
  split <;> simp_all

end Bind

/-! ## Joins that are tagged by their left side

A join is put together from one bag for each element of its left side. If the elements of these bags tell
where they come from, two joins are equal only if they are made of the same bags.
-/

section Tagged

open scoped Classical

variable [DecidableEq α] {γ : Type} {tag : γ → α} {A : Multiset α} {f g : α → Multiset γ} {E : Multiset γ}

theorem filter_bind_tag (hf : ∀ a ∈ A, ∀ c ∈ f a, tag c = a) (a : α) :
    ((A.bind f).filter fun c => tag c = a) = A.count a • f a := by
  refine Multiset.ext.mpr fun c => ?_
  rw [Multiset.count_filter, Multiset.count_nsmul, Multiset.count_bind]
  split
  · next htag =>
    -- other bags do not have the element
    rw [Multiset.sum_map_eq_nsmul_single a, smul_eq_mul]
    intro a' hne ha'
    exact Multiset.count_eq_zero.mpr fun hc => hne ((hf a' ha' c hc).symm.trans htag)
  · next htag =>
    symm
    rw [mul_eq_zero, Multiset.count_eq_zero, or_iff_not_imp_left, not_not]
    exact fun ha => Multiset.count_eq_zero.mpr fun hc => htag (hf a ha c hc)

theorem eq_iff_filter_tag (tag : γ → α) {s t : Multiset γ} :
    s = t ↔ ∀ a, (s.filter fun c => tag c = a) = t.filter fun c => tag c = a := by
  refine ⟨fun h _ => by rw [h], fun h => Multiset.ext.mpr fun c => ?_⟩
  have hcount := congrArg (Multiset.count c) (h (tag c))
  rwa [Multiset.count_filter, Multiset.count_filter, if_pos rfl, if_pos rfl] at hcount

theorem nsmul_left_cancel {n : ℕ} (hn : n ≠ 0) {s t : Multiset γ} : n • s = n • t ↔ s = t := by
  refine ⟨fun h => Multiset.ext.mpr fun c => ?_, fun h => by rw [h]⟩
  have hcount := congrArg (Multiset.count c) h
  rw [Multiset.count_nsmul, Multiset.count_nsmul] at hcount
  exact Nat.eq_of_mul_eq_mul_left (Nat.pos_of_ne_zero hn) hcount

theorem bind_eq_bind_iff (hf : ∀ a ∈ A, ∀ c ∈ f a, tag c = a) (hg : ∀ a ∈ A, ∀ c ∈ g a, tag c = a) :
    A.bind f = A.bind g ↔ ∀ a ∈ A, f a = g a := by
  rw [eq_iff_filter_tag tag]
  refine forall_congr' fun a => ?_
  rw [filter_bind_tag hf, filter_bind_tag hg]
  by_cases ha : a ∈ A
  · rw [nsmul_left_cancel (Multiset.count_ne_zero.mpr ha)]
    exact ⟨fun h _ => h, fun h => h ha⟩
  · rw [Multiset.count_eq_zero.mpr ha, zero_nsmul, zero_nsmul]
    exact iff_of_true rfl fun h => absurd h ha

/-- What is added to a join and tagged by one element makes up for what is missing with this element. -/
theorem bind_eq_bind_add_iff (hf : ∀ a ∈ A, ∀ c ∈ f a, tag c = a) (hg : ∀ a ∈ A, ∀ c ∈ g a, tag c = a)
    {a₀ : α} (hE : ∀ c ∈ E, tag c = a₀) : A.bind f = A.bind g + E ↔
      (∀ a ∈ A, a ≠ a₀ → f a = g a) ∧ A.count a₀ • f a₀ = A.count a₀ • g a₀ + E := by
  have hself : (E.filter fun c => tag c = a₀) = E := Multiset.filter_eq_self.mpr hE
  rw [eq_iff_filter_tag tag]
  constructor
  · intro h
    refine ⟨fun a ha hne => ?_, ?_⟩
    · have hnone : (E.filter fun c => tag c = a) = 0 :=
        Multiset.filter_eq_nil.mpr fun c hc htag => hne (htag.symm.trans (hE c hc))
      have htag := h a
      rw [Multiset.filter_add, filter_bind_tag hf, filter_bind_tag hg, hnone, add_zero,
        nsmul_left_cancel (Multiset.count_ne_zero.mpr ha)] at htag
      exact htag
    · have htag := h a₀
      rwa [Multiset.filter_add, filter_bind_tag hf, filter_bind_tag hg, hself] at htag
  · rintro ⟨hothers, htag⟩ a
    rw [Multiset.filter_add, filter_bind_tag hf, filter_bind_tag hg]
    by_cases hne : a = a₀
    · rw [hne, hself, htag]
    · have hnone : (E.filter fun c => tag c = a) = 0 :=
        Multiset.filter_eq_nil.mpr fun c hc htag => hne (htag.symm.trans (hE c hc))
      rw [hnone, add_zero]
      by_cases ha : a ∈ A
      · rw [hothers a ha hne]
      · rw [Multiset.count_eq_zero.mpr ha, zero_nsmul, zero_nsmul]

end Tagged

end Joins
