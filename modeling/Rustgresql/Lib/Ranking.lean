import Rustgresql.Lib.StableSort

/-!
# Ranks in a sorted list

How many elements of a sorted list come strictly before one of them, and how many different ones: both are
known from its predecessor.
-/

namespace StableSort

variable {α κ : Type} [DecidableEq κ] {cmp : α → α → Ordering} {l pre post : List α} {a b : α}

/-- The number of elements strictly before an element -/
def before (cmp : α → α → Ordering) (l : List α) (a : α) : ℕ := l.countP fun x => cmp x a = .lt

/-- The number of different keys of elements strictly before an element -/
def distinctBefore (cmp : α → α → Ordering) (key : α → κ) (l : List α) (a : α) : ℕ :=
  ((l.filter fun x => cmp x a = .lt).map key).toFinset.card

theorem before_perm {l' : List α} (h : l'.Perm l) (a : α) : before cmp l' a = before cmp l a := h.countP_eq _

theorem distinctBefore_perm {l' : List α} (h : l'.Perm l) (key : α → κ) (a : α) :
    distinctBefore cmp key l' a = distinctBefore cmp key l a := by
  unfold distinctBefore
  rw [List.toFinset_eq_of_perm _ _ ((h.filter _).map key)]

/-- Nothing is before the first element. -/
theorem filter_of_first (h : IsOrderOn cmp (a :: post)) (hsorted : (a :: post).Pairwise fun x y => cmp x y ≠ .gt) :
    ((a :: post).filter fun x => cmp x a = .lt) = [] := by
  refine List.filter_eq_nil_iff.mpr fun x hx => ?_
  have ha := List.mem_cons_self (a := a) (l := post)
  rw [decide_eq_true_eq]
  rcases List.mem_cons.mp hx with rfl | hpost
  · rw [h.self ha]
    nofun
  · have hle := (List.pairwise_cons.mp hsorted).1 x hpost
    rw [h.swap a ha x hx]
    revert hle
    cases cmp a x <;> simp

variable (h : IsOrderOn cmp l) (hl : l = pre ++ b :: a :: post)

include h hl

/-- What is before an element is before its predecessor, if they are the same. -/
theorem filter_of_eq (heq : cmp a b = .eq) :
    (l.filter fun x => cmp x a = .lt) = l.filter fun x => cmp x b = .lt := by
  have ha : a ∈ l := by simp [hl]
  have hb : b ∈ l := by simp [hl]
  refine List.filter_congr fun x hx => ?_
  rw [h.congr_right hx ha hb heq]

variable (hsorted : l.Pairwise fun x y => cmp x y ≠ .gt)

include hsorted

/-- Every element is at most the predecessor or at least the element. -/
theorem le_or_ge {x : α} (hx : x ∈ l) : cmp x b ≠ .gt ∨ cmp a x ≠ .gt := by
  subst hl
  obtain ⟨-, hrest, hpre⟩ := List.pairwise_append.mp hsorted
  have ha : a ∈ pre ++ b :: a :: post := by simp
  have hb : b ∈ pre ++ b :: a :: post := by simp
  rcases List.mem_append.mp hx with hmem | hmem
  · exact .inl (hpre x hmem b List.mem_cons_self)
  · rcases List.mem_cons.mp hmem with rfl | hmem
    · exact .inl (by rw [h.self hb]; nofun)
    rcases List.mem_cons.mp hmem with rfl | hmem
    · exact .inr (by rw [h.self ha]; nofun)
    · exact .inr ((List.pairwise_cons.mp (List.pairwise_cons.mp hrest).2).1 x hmem)

/-- What is before an element that is not the same as its predecessor is at most the predecessor. -/
theorem lt_iff_of_ne (hne : cmp a b ≠ .eq) {x : α} (hx : x ∈ l) : cmp x a = .lt ↔ cmp x b ≠ .gt := by
  have ha : a ∈ l := by simp [hl]
  have hb : b ∈ l := by simp [hl]
  have hba : cmp b a = .lt := by
    have hle : cmp b a ≠ .gt := by
      subst hl
      exact (List.pairwise_cons.mp (List.pairwise_append.mp hsorted).2.1).1 a List.mem_cons_self
    have hswap := h.swap b hb a ha
    revert hle hne
    rw [hswap]
    cases cmp b a <;> simp
  constructor
  · intro hlt
    refine (le_or_ge h hl hsorted hx).resolve_right fun hge => ?_
    rw [h.swap x hx a ha, hlt] at hge
    exact hge rfl
  · intro hle
    by_contra hnot
    have hge : cmp a x ≠ .gt := by
      rw [h.swap x hx a ha]
      revert hnot
      cases cmp x a <;> simp
    have hab := h.trans a ha x hx b hb hge hle
    rw [h.swap b hb a ha, hba] at hab
    exact hab rfl

/-- The elements before an element that is not the same as its predecessor are those that stand before it. -/
theorem before_of_ne (hne : cmp a b ≠ .eq) : before cmp l a = pre.length + 1 := by
  have hlt {x : α} (hx : x ∈ l) := lt_iff_of_ne h hl hsorted hne hx
  have ha : a ∈ l := by simp [hl]
  have hb : b ∈ l := by simp [hl]
  have hrest : ∀ x ∈ a :: post, ¬ cmp x a = .lt := by
    intro x hx
    have hxl : x ∈ l := by
      rw [hl, List.mem_append]
      exact .inr (List.mem_cons_of_mem _ hx)
    rcases List.mem_cons.mp hx with rfl | hmem
    · rw [h.self ha]
      nofun
    · have hle : cmp a x ≠ .gt := by
        subst hl
        have hab := (List.pairwise_cons.mp (List.pairwise_append.mp hsorted).2.1).2
        exact (List.pairwise_cons.mp hab).1 x hmem
      rw [h.swap a ha x hxl]
      revert hle
      cases cmp a x <;> simp
  have hpre : ∀ x ∈ pre, cmp x a = .lt := by
    intro x hx
    have hxl : x ∈ l := by
      rw [hl, List.mem_append]
      exact .inl hx
    rw [hlt hxl]
    subst hl
    exact (List.pairwise_append.mp hsorted).2.2 x hx b List.mem_cons_self
  have hblt : cmp b a = .lt := (hlt hb).mpr (by rw [h.self hb]; nofun)
  have hnone : (a :: post).countP (fun x => cmp x a = .lt) = 0 :=
    List.countP_eq_zero.mpr fun x hx => by simpa using hrest x hx
  have hall : pre.countP (fun x => cmp x a = .lt) = pre.length :=
    List.countP_eq_length.mpr fun x hx => decide_eq_true (hpre x hx)
  have hcons : (b :: a :: post).countP (fun x => cmp x a = .lt) = 1 := by
    rw [List.countP_cons, hnone, if_pos (decide_eq_true hblt)]
  rw [before, hl, List.countP_append, hcons, hall]

/-- There is one more key before an element that is not the same as its predecessor. -/
theorem distinctBefore_of_ne {key : α → κ} (hkey : ∀ x ∈ l, ∀ y ∈ l, key x = key y ↔ cmp x y = .eq)
    (hne : cmp a b ≠ .eq) : distinctBefore cmp key l a = distinctBefore cmp key l b + 1 := by
  have hb : b ∈ l := by simp [hl]
  have hnew : key b ∉ ((l.filter fun x => cmp x b = .lt).map key).toFinset := by
    rw [List.mem_toFinset, List.mem_map]
    rintro ⟨x, hx, heq⟩
    obtain ⟨hxl, hlt⟩ := List.mem_filter.mp hx
    rw [(hkey x hxl b hb).mp heq] at hlt
    cases of_decide_eq_true hlt
  have hsame : ((l.filter fun x => cmp x a = .lt).map key).toFinset =
      insert (key b) ((l.filter fun x => cmp x b = .lt).map key).toFinset := by
    ext k
    simp only [List.mem_toFinset, List.mem_map, List.mem_filter, Finset.mem_insert, decide_eq_true_eq]
    constructor
    · rintro ⟨x, ⟨hx, hlt⟩, rfl⟩
      have hle := (lt_iff_of_ne h hl hsorted hne hx).mp hlt
      rcases hcmp : cmp x b with - | - | -
      · exact .inr ⟨x, ⟨hx, hcmp⟩, rfl⟩
      · exact .inl ((hkey x hx b hb).mpr hcmp)
      · exact absurd hcmp hle
    · rintro (rfl | ⟨x, ⟨hx, hlt⟩, rfl⟩)
      · exact ⟨b, ⟨hb, (lt_iff_of_ne h hl hsorted hne hb).mpr (by rw [h.self hb]; nofun)⟩, rfl⟩
      · exact ⟨x, ⟨hx, (lt_iff_of_ne h hl hsorted hne hx).mpr (by rw [hlt]; nofun)⟩, rfl⟩
  rw [distinctBefore, hsame, Finset.card_insert_of_notMem hnew]
  rfl

end StableSort
