import Mathlib

/-!
# Stable sorting

A comparison sorts a list well if it is an order on the elements of the list: `IsOrderOn`. What a stable
sort returns then is `StablySorted`. Of a comparison that is no order on the list nothing is expected.
-/

namespace StableSort

variable {α : Type} {cmp cmp' : α → α → Ordering} {l l' : List α}

/-- A comparison is a total preorder on the elements of a list. -/
structure IsOrderOn (cmp : α → α → Ordering) (l : List α) : Prop where
  swap : ∀ a ∈ l, ∀ b ∈ l, cmp b a = (cmp a b).swap
  trans : ∀ a ∈ l, ∀ b ∈ l, ∀ c ∈ l, cmp a b ≠ .gt → cmp b c ≠ .gt → cmp a c ≠ .gt

/-- A list in the order of a comparison. Elements that compare equal are in the order in which they were. -/
structure StablySorted (cmp : α → α → Ordering) (l l' : List α) : Prop where
  perm : l'.Perm l
  sorted : l'.Pairwise fun a b => cmp a b ≠ .gt
  stable : ∀ a ∈ l, (l'.filter fun b => cmp a b = .eq) = l.filter fun b => cmp a b = .eq

theorem IsOrderOn.congr (h : IsOrderOn cmp l) (heq : ∀ a ∈ l, ∀ b ∈ l, cmp' a b = cmp a b) :
    IsOrderOn cmp' l := by
  refine ⟨fun a ha b hb => ?_, fun a ha b hb c hc => ?_⟩
  · rw [heq a ha b hb, heq b hb a ha]
    exact h.swap a ha b hb
  · rw [heq a ha b hb, heq b hb c hc, heq a ha c hc]
    exact h.trans a ha b hb c hc

theorem StablySorted.congr (h : StablySorted cmp l l') (heq : ∀ a ∈ l, ∀ b ∈ l, cmp' a b = cmp a b) :
    StablySorted cmp' l l' := by
  refine ⟨h.perm, ?_, fun a ha => ?_⟩
  · refine h.sorted.imp_of_mem fun ha hb hab => ?_
    rwa [heq _ (h.perm.subset ha) _ (h.perm.subset hb)]
  · have hfilter : ∀ rows : List α, (∀ b ∈ rows, b ∈ l) →
        (rows.filter fun b => cmp' a b = .eq) = rows.filter fun b => cmp a b = .eq :=
      fun rows hrows => List.filter_congr fun b hb => by rw [heq a ha b (hrows b hb)]
    rw [hfilter l' fun b => h.perm.subset (a := b), hfilter l fun b hb => hb]
    exact h.stable a ha

/-- A list is sorted if no two elements are told apart. -/
theorem stablySorted_self (h : ∀ a ∈ l, ∀ b ∈ l, cmp a b = .eq) : StablySorted cmp l l :=
  ⟨.refl _, List.pairwise_of_forall_mem_list fun a ha b hb => by simp [h a ha b hb], fun _ _ => rfl⟩

/-- Two elements of a list that is sorted by two comparisons are in the same order in both. -/
theorem eq_or_ordered (h : l.Pairwise fun a b => cmp a b ≠ .gt) (h' : l.Pairwise fun a b => cmp' a b ≠ .gt)
    {a b : α} (ha : a ∈ l) (hb : b ∈ l) :
    a = b ∨ (cmp a b ≠ .gt ∧ cmp' a b ≠ .gt) ∨ (cmp b a ≠ .gt ∧ cmp' b a ≠ .gt) := by
  have hboth := h.and h'
  refine List.Pairwise.forall_of_forall_of_flip
    (R := fun a b => a = b ∨ (cmp a b ≠ .gt ∧ cmp' a b ≠ .gt) ∨ (cmp b a ≠ .gt ∧ cmp' b a ≠ .gt))
    (fun _ _ => .inl rfl) ?_ ?_ ha hb
  · exact hboth.imp fun hab => .inr (.inl hab)
  · exact hboth.imp fun hab => .inr (.inr hab)

section Order

variable (h : IsOrderOn cmp l)

include h

theorem IsOrderOn.self {a : α} (ha : a ∈ l) : cmp a a = .eq := by
  have hswap := h.swap a ha a ha
  rcases hcmp : cmp a a
  · rw [hcmp] at hswap
    cases hswap
  · rfl
  · rw [hcmp] at hswap
    cases hswap

/-- Elements that compare equal compare alike with all others. -/
theorem IsOrderOn.eq_trans {a b c : α} (ha : a ∈ l) (hb : b ∈ l) (hc : c ∈ l) (hab : cmp a b = .eq)
    (hbc : cmp b c = .eq) : cmp a c = .eq := by
  have hba := h.swap a ha b hb
  have hcb := h.swap b hb c hc
  rw [hab] at hba
  rw [hbc] at hcb
  have hac : cmp a c ≠ .gt := h.trans a ha b hb c hc (by simp [hab]) (by simp [hbc])
  have hca : cmp c a ≠ .gt := h.trans c hc b hb a ha (by simp [hcb]) (by simp [hba])
  rw [h.swap a ha c hc] at hca
  rcases hcmp : cmp a c
  · rw [hcmp] at hca
    exact absurd rfl hca
  · rfl
  · exact absurd hcmp hac

/-- Elements that are equal compare alike with all others. -/
theorem IsOrderOn.congr_left {a b c : α} (ha : a ∈ l) (hb : b ∈ l) (hc : c ∈ l) (hab : cmp a b = .eq) :
    cmp a c = cmp b c := by
  have hba : cmp b a = .eq := by rw [h.swap a ha b hb, hab]; rfl
  have hle : cmp a c ≠ .gt ↔ cmp b c ≠ .gt :=
    ⟨h.trans b hb a ha c hc (by simp [hba]), h.trans a ha b hb c hc (by simp [hab])⟩
  have hge : cmp c a ≠ .gt ↔ cmp c b ≠ .gt :=
    ⟨fun hca => h.trans c hc a ha b hb hca (by simp [hab]), fun hcb => h.trans c hc b hb a ha hcb (by simp [hba])⟩
  rw [h.swap a ha c hc, h.swap b hb c hc] at hge
  revert hle hge
  cases cmp a c <;> cases cmp b c <;> simp

theorem IsOrderOn.congr_right {a b c : α} (ha : a ∈ l) (hb : b ∈ l) (hc : c ∈ l) (hbc : cmp b c = .eq) :
    cmp a b = cmp a c := by
  rw [h.swap b hb a ha, h.swap c hc a ha, h.congr_left hb hc ha hbc]

theorem IsOrderOn.lt_of_lt_of_le {a b c : α} (ha : a ∈ l) (hb : b ∈ l) (hc : c ∈ l) (hab : cmp a b = .lt)
    (hbc : cmp b c ≠ .gt) : cmp a c = .lt := by
  have hac : cmp a c ≠ .gt := h.trans a ha b hb c hc (by simp [hab]) hbc
  rcases hcmp : cmp a c
  · rfl
  · -- the last would be no greater than the one in the middle
    have hca : cmp c b = .lt := by rw [← h.congr_left ha hc hb hcmp, hab]
    rw [h.swap c hc b hb, hca] at hbc
    exact absurd rfl hbc
  · exact absurd hcmp hac

end Order

theorem IsOrderOn.mono (h : IsOrderOn cmp l) (hsubset : ∀ a ∈ l', a ∈ l) : IsOrderOn cmp l' :=
  ⟨fun a ha b hb => h.swap a (hsubset a ha) b (hsubset b hb),
    fun a ha b hb c hc => h.trans a (hsubset a ha) b (hsubset b hb) c (hsubset c hc)⟩

/-! ## Runs of equal elements -/

/-- The first element of a sorted list is no greater than the others. -/
theorem not_gt_of_mem_cons {a x : α} (h : IsOrderOn cmp (a :: l))
    (hsorted : (a :: l).Pairwise fun a b => cmp a b ≠ .gt) (hx : x ∈ a :: l) : cmp a x ≠ .gt := by
  rcases List.mem_cons.mp hx with rfl | hmem
  · rw [h.self List.mem_cons_self]
    exact nofun
  · exact List.rel_of_pairwise_cons hsorted hmem

/-- What comes after the first run of a sorted list is greater than its first element. -/
theorem lt_of_mem_dropWhile {a x : α} (h : IsOrderOn cmp (a :: l))
    (hsorted : (a :: l).Pairwise fun a b => cmp a b ≠ .gt)
    (hx : x ∈ (a :: l).dropWhile fun b => cmp b a = .eq) : cmp a x = .lt := by
  have hsuffix := List.dropWhile_suffix (l := a :: l) fun b => decide (cmp b a = .eq)
  have hhead := List.head?_dropWhile_not (fun b => decide (cmp b a = .eq)) (a :: l)
  rcases hrest : (a :: l).dropWhile fun b => cmp b a = .eq with - | ⟨y, ys⟩
  · rw [hrest] at hx
    cases hx
  rw [hrest] at hx hsuffix hhead
  have hne : cmp y a ≠ .eq := of_decide_eq_false hhead
  have ha : a ∈ a :: l := List.mem_cons_self
  have hy : y ∈ a :: l := hsuffix.subset List.mem_cons_self
  have hay : cmp a y = .lt := by
    have hle := not_gt_of_mem_cons h hsorted hy
    rw [h.swap a ha y hy] at hne
    revert hle hne
    cases cmp a y <;> simp
  rcases List.mem_cons.mp hx with rfl | hmem
  · exact hay
  · have hyx := List.rel_of_pairwise_cons (hsorted.sublist hsuffix.sublist) hmem
    exact h.lt_of_lt_of_le ha hy (hsuffix.subset hx) hay hyx

/-- An element is the first of those that are equal to it. -/
def IsFirst (cmp : α → α → Ordering) (l : List α) (a : α) : Prop :=
  (l.filter fun b => cmp a b = .eq).head? = some a

theorem IsFirst.mem {a : α} (h : IsFirst cmp l a) : a ∈ l :=
  (List.mem_filter.mp (List.mem_of_mem_head? h)).1

theorem isFirst_cons_of_ne {a b : α} (h : cmp b a ≠ .eq) : IsFirst cmp (a :: l) b ↔ IsFirst cmp l b := by
  unfold IsFirst
  rw [List.filter_cons_of_neg (by simpa using h)]

/-- A stable sort keeps the first elements. -/
theorem StablySorted.isFirst_iff (h : StablySorted cmp l l') {a : α} : IsFirst cmp l' a ↔ IsFirst cmp l a := by
  by_cases ha : a ∈ l
  · unfold IsFirst
    rw [h.stable a ha]
  · exact iff_of_false (fun hfirst => ha (h.perm.subset hfirst.mem)) fun hfirst => ha hfirst.mem

/-- The first elements of a list are the first of the run at its beginning, and those of what comes after. -/
theorem isFirst_cons_iff {a b : α} (h : IsOrderOn cmp (a :: l)) (hb : b ∈ a :: l) : IsFirst cmp (a :: l) b ↔
    if cmp b a = .eq then b = a else IsFirst cmp ((a :: l).dropWhile fun c => cmp c a = .eq) b := by
  have ha : a ∈ a :: l := List.mem_cons_self
  have hself : decide (cmp a a = .eq) = true := decide_eq_true (h.self ha)
  have hrun : ∀ c ∈ (a :: l).takeWhile fun c => cmp c a = .eq, cmp b c = cmp b a := by
    intro c hc
    have hca := List.mem_takeWhile_imp (p := fun c => decide (cmp c a = .eq)) hc
    exact h.congr_right hb ((List.takeWhile_sublist _).subset hc) ha (of_decide_eq_true hca)
  have hhead : ((a :: l).takeWhile fun c => cmp c a = .eq).head? = some a := by
    rw [List.takeWhile_cons_of_pos (p := fun c => decide (cmp c a = .eq)) hself]
    rfl
  conv_lhs => rw [← List.takeWhile_append_dropWhile (p := fun c => decide (cmp c a = .eq)) (l := a :: l)]
  unfold IsFirst
  rw [List.filter_append]
  split
  · next heq =>
    rw [List.filter_eq_self.mpr fun c hc => decide_eq_true ((hrun c hc).trans heq), List.head?_append, hhead,
      Option.some_or, Option.some.injEq, eq_comm]
  · next hne =>
    rw [List.filter_eq_nil_iff.mpr fun c hc => by simp [hrun c hc, hne], List.nil_append]

/-! ## Orders -/

theorem isOrderOn_eq (l : List α) : IsOrderOn (fun _ _ => .eq) l :=
  ⟨fun _ _ _ _ => rfl, fun _ _ _ _ _ _ _ _ => nofun⟩

/-- A comparison by keys is an order. -/
theorem isOrderOn_of_key {β : Type} [LinearOrder β] (key : α → β)
    (h : ∀ a ∈ l, ∀ b ∈ l, cmp a b = compare (key a) (key b)) : IsOrderOn cmp l := by
  have hne_gt : ∀ a ∈ l, ∀ b ∈ l, cmp a b ≠ .gt ↔ key a ≤ key b := by
    intro a ha b hb
    rw [h a ha b hb, ne_eq, compare_gt_iff_gt, not_lt]
  refine ⟨fun a ha b hb => ?_, fun a ha b hb c hc => ?_⟩
  · rw [h a ha b hb, h b hb a ha]
    exact (Std.OrientedOrd.eq_swap ..)
  · rw [hne_gt a ha b hb, hne_gt b hb c hc, hne_gt a ha c hc]
    exact le_trans

theorem IsOrderOn.swapped (h : IsOrderOn cmp l) : IsOrderOn (fun a b => (cmp a b).swap) l := by
  refine ⟨fun a ha b hb => ?_, fun a ha b hb c hc => ?_⟩
  · rw [h.swap a ha b hb]
  · rw [← h.swap a ha b hb, ← h.swap b hb c hc, ← h.swap a ha c hc]
    exact fun hab hbc => h.trans c hc b hb a ha hbc hab

theorem IsOrderOn.comap {β : Type} {f : β → α} {l : List β} (h : IsOrderOn cmp (l.map f)) :
    IsOrderOn (fun a b => cmp (f a) (f b)) l := by
  have hmem : ∀ a ∈ l, f a ∈ l.map f := fun a ha => List.mem_map_of_mem ha
  exact ⟨fun a ha b hb => h.swap _ (hmem a ha) _ (hmem b hb),
    fun a ha b hb c hc => h.trans _ (hmem a ha) _ (hmem b hb) _ (hmem c hc)⟩

/-- Elements that are equal in one order are told apart by another. -/
theorem IsOrderOn.lexicographic (h : IsOrderOn cmp l) (h' : IsOrderOn cmp' l) :
    IsOrderOn (fun a b => (cmp a b).then (cmp' a b)) l := by
  refine ⟨fun a ha b hb => ?_, fun a ha b hb c hc hab hbc => ?_⟩
  · rw [h.swap a ha b hb, h'.swap a ha b hb]
    cases cmp a b <;> rfl
  · have hab' : cmp a b ≠ .gt := fun hgt => hab (by rw [hgt]; rfl)
    have hbc' : cmp b c ≠ .gt := fun hgt => hbc (by rw [hgt]; rfl)
    have hac := h.trans a ha b hb c hc hab' hbc'
    rcases hcmp : cmp a c
    · exact nofun
    · -- all three are equal in the first order
      have hca : cmp c a = .eq := by rw [h.swap a ha c hc, hcmp]; rfl
      have hba : cmp b a ≠ .gt := h.trans b hb c hc a ha hbc' (by simp [hca])
      have hcb : cmp c b ≠ .gt := h.trans c hc a ha b hb (by simp [hca]) hab'
      rw [h.swap a ha b hb] at hba
      rw [h.swap b hb c hc] at hcb
      have hab'' : cmp a b = .eq := by rcases heq : cmp a b <;> simp_all
      have hbc'' : cmp b c = .eq := by rcases heq : cmp b c <;> simp_all
      rw [hab''] at hab
      rw [hbc''] at hbc
      exact h'.trans a ha b hb c hc hab hbc
    · exact absurd hcmp hac

/-! ## Merge sort -/

/-- Merge sort is stable and sorts with every comparison that is an order on the list. -/
theorem stablySorted_mergeSort (h : IsOrderOn cmp l) :
    StablySorted cmp l (l.mergeSort fun a b => cmp a b != .gt) := by
  let le : {a // a ∈ l} → {a // a ∈ l} → Bool := fun a b => cmp a.1 b.1 != .gt
  have htrans : ∀ a b c, le a b = true → le b c = true → le a c = true := by
    intro a b c hab hbc
    exact bne_iff_ne.mpr (h.trans a.1 a.2 b.1 b.2 c.1 c.2 (bne_iff_ne.mp hab) (bne_iff_ne.mp hbc))
  have htotal : ∀ a b, (le a b || le b a) = true := by
    intro a b
    have hswap := h.swap a.1 a.2 b.1 b.2
    simp only [le, hswap]
    cases cmp a.1 b.1 <;> rfl
  have hsort : (l.attach.mergeSort le).map Subtype.val = l.mergeSort fun a b => cmp a b != .gt := by
    have hmap := List.map_mergeSort (r := le) (s := fun a b => cmp a b != .gt) (f := Subtype.val)
      (l := l.attach) fun _ _ _ _ => rfl
    rw [hmap, List.attach_map_subtype_val]
  have hperm : (l.mergeSort fun a b => cmp a b != .gt).Perm l := List.mergeSort_perm ..
  refine ⟨hperm, ?_, fun a ha => ?_⟩
  · rw [← hsort, List.pairwise_map]
    exact (List.pairwise_mergeSort htrans htotal l.attach).imp bne_iff_ne.mp
  · -- the elements that compare equal are sorted already, so they stay a sublist
    have hequal : (l.attach.filter fun b => cmp a b.1 = .eq).Pairwise fun b c => le b c = true := by
      refine List.pairwise_of_forall_mem_list fun b hb c hc => bne_iff_ne.mpr ?_
      have hab := of_decide_eq_true (List.mem_filter.mp hb).2
      have hac := of_decide_eq_true (List.mem_filter.mp hc).2
      have hba := h.swap a ha b.1 b.2
      rw [hab] at hba
      rw [h.eq_trans b.2 ha c.2 hba hac]
      exact nofun
    have hsublist := (List.sublist_mergeSort htrans htotal hequal List.filter_sublist).map Subtype.val
    rw [hsort] at hsublist
    have hfilter : (l.attach.filter fun b => cmp a b.1 = .eq).map Subtype.val =
        l.filter fun b => cmp a b = .eq := by
      conv_rhs => rw [← List.attach_map_subtype_val l]
      rw [List.filter_map]
      rfl
    rw [hfilter] at hsublist
    have hinner := hsublist.filter fun b => decide (cmp a b = .eq)
    simp only [List.filter_filter, Bool.and_self] at hinner
    exact (hinner.eq_of_length (hperm.filter _).length_eq.symm).symm

/-! ## Sorts that may fail -/

variable {ε : Type}

/-- A stable sort. If the comparison is no order on the list, it may refuse, or return the elements in any
order. -/
structure IsStableSort (sort : (α → α → Ordering) → List α → Except ε (List α)) : Prop where
  sorts : ∀ cmp l, IsOrderOn cmp l → ∃ l', sort cmp l = .ok l' ∧ StablySorted cmp l l'
  perm : ∀ cmp l l', sort cmp l = .ok l' → l'.Perm l

open scoped Classical in
/-- The sort that refuses every comparison that is no order on the list. -/
noncomputable def strictSort (e : ε) (cmp : α → α → Ordering) (l : List α) : Except ε (List α) :=
  if IsOrderOn cmp l then .ok (l.mergeSort fun a b => cmp a b != .gt) else .error e

theorem isStableSort_strictSort (e : ε) : IsStableSort (α := α) (strictSort e) := by
  refine ⟨fun cmp l h => ⟨_, if_pos h, stablySorted_mergeSort h⟩, fun cmp l l' hsort => ?_⟩
  unfold strictSort at hsort
  split at hsort
  · obtain rfl := Except.ok.inj hsort
    exact List.mergeSort_perm ..
  · cases hsort

/-- What the strict sort accepts it sorts. -/
theorem stablySorted_of_strictSort {e : ε} {l l' : List α} (h : strictSort e cmp l = .ok l') :
    IsOrderOn cmp l ∧ StablySorted cmp l l' := by
  unfold strictSort at h
  split at h
  · next horder =>
    obtain rfl := Except.ok.inj h
    exact ⟨horder, stablySorted_mergeSort horder⟩
  · cases h

end StableSort
