import Mathlib

/-!
# The last element that matches

Version lists are searched from their newest end. `LastMatch.find p l` is what such a search
returns, and `Covered p q l` says that whatever satisfies `p` is followed by something that
satisfies `q`. The two meet in `find_eq_find_iff`: two tests find the same element exactly when
every element on which they differ is covered by one that passes both.
-/

namespace LastMatch

variable {α β : Type}

/-- The last element of a list that passes a test. -/
def find (p : α → Bool) (l : List α) : Option α := l.reverse.find? p

/-- Every element that satisfies `p` is followed by one that satisfies `q`. -/
def Covered (p q : α → Prop) : List α → Prop
  | [] => True
  | a :: l => (p a → ∃ b ∈ l, q b) ∧ Covered p q l

instance Covered.decidable (p q : α → Prop) [DecidablePred p] [DecidablePred q] :
    (l : List α) → Decidable (Covered p q l)
  | [] => isTrue trivial
  | a :: l =>
    have := Covered.decidable p q l
    inferInstanceAs (Decidable ((p a → ∃ b ∈ l, q b) ∧ Covered p q l))

/-! ## The search -/

@[simp] theorem find_nil (p : α → Bool) : find p [] = none := rfl

theorem find_append (p : α → Bool) (l l' : List α) :
    find p (l ++ l') = (find p l').or (find p l) := by
  rw [find, List.reverse_append, List.find?_append]
  rfl

theorem find_cons (p : α → Bool) (a : α) (l : List α) :
    find p (a :: l) = (find p l).or (if p a then some a else none) := by
  have hone : find p [a] = if p a then some a else none := by
    simp [find]
  rw [← hone, ← find_append, List.singleton_append]

theorem find_eq_none {p : α → Bool} {l : List α} : find p l = none ↔ ∀ a ∈ l, p a = false := by
  simp [find]

theorem mem_of_find {p : α → Bool} {l : List α} {a : α} (h : find p l = some a) : a ∈ l :=
  List.mem_reverse.mp (List.mem_of_find?_eq_some h)

theorem apply_of_find {p : α → Bool} {l : List α} {a : α} (h : find p l = some a) : p a = true :=
  List.find?_some h

/-- Nothing behind the last match matches. -/
theorem find_of_split {p : α → Bool} {pre post : List α} {a : α} (ha : p a = true)
    (hpost : ∀ b ∈ post, p b = false) : find p (pre ++ a :: post) = some a := by
  rw [find_append, find_cons, find_eq_none.mpr hpost, if_pos ha]
  rfl

theorem find_filterMap (p : β → Bool) (f : α → Option β) (l : List α) :
    find p (l.filterMap f) = (find (fun a => (f a).any p) l).bind f := by
  rw [find, ← List.filterMap_reverse, List.find?_filterMap]
  rfl

theorem find_map (p : β → Bool) (f : α → β) (l : List α) :
    find p (l.map f) = (find (fun a => p (f a)) l).map f := by
  rw [find, ← List.map_reverse, List.find?_map]
  rfl

theorem find_filter (p k : α → Bool) (l : List α) :
    find p (l.filter k) = find (fun a => k a && p a) l := by
  rw [find, ← List.filter_reverse, List.find?_filter, find]
  simp only [Bool.decide_and, Bool.decide_eq_true]

/-! ## Covering -/

theorem Covered.imp {p p' q q' : α → Prop} {l : List α} (h : Covered p q l)
    (hp : ∀ a ∈ l, p' a → p a) (hq : ∀ a ∈ l, q a → q' a) : Covered p' q' l := by
  induction l with
  | nil => trivial
  | cons a l ih =>
    refine ⟨fun ha => ?_, ih h.2 (fun b hb => hp b (List.mem_cons_of_mem _ hb))
      fun b hb => hq b (List.mem_cons_of_mem _ hb)⟩
    obtain ⟨b, hb, hqb⟩ := h.1 (hp a List.mem_cons_self ha)
    exact ⟨b, hb, hq b (List.mem_cons_of_mem _ hb) hqb⟩

theorem Covered.of_forall_not {p q : α → Prop} {l : List α} (h : ∀ a ∈ l, ¬ p a) :
    Covered p q l := by
  induction l with
  | nil => trivial
  | cons a l ih =>
    exact ⟨fun ha => absurd ha (h a List.mem_cons_self),
      ih fun b hb => h b (List.mem_cons_of_mem _ hb)⟩

theorem covered_congr {p p' q q' : α → Prop} {l : List α} (hp : ∀ a ∈ l, p a ↔ p' a)
    (hq : ∀ a ∈ l, q a ↔ q' a) : Covered p q l ↔ Covered p' q' l :=
  ⟨fun h => h.imp (fun a ha => (hp a ha).mpr) fun a ha => (hq a ha).mp,
    fun h => h.imp (fun a ha => (hp a ha).mp) fun a ha => (hq a ha).mpr⟩

/-- Two tests find the same element exactly when every element on which they differ is followed by
one that passes both. -/
theorem find_eq_find_iff {p q : α → Bool} {l : List α} :
    find p l = find q l ↔ Covered (fun a => p a ≠ q a) (fun a => p a = true ∧ q a = true) l := by
  induction l with
  | nil => simp [Covered]
  | cons a l ih =>
    rw [find_cons, find_cons, Covered, ← ih]
    constructor
    · intro h
      match hp : find p l, hq : find q l with
      | some x, some y =>
        obtain rfl : x = y := by simpa [hp, hq] using h
        exact ⟨fun _ => ⟨x, mem_of_find hp, apply_of_find hp, apply_of_find hq⟩, rfl⟩
      | none, none =>
        refine ⟨fun hne => absurd ?_ hne, rfl⟩
        rw [hp, hq, Option.none_or, Option.none_or] at h
        cases hpa : p a <;> cases hqa : q a <;> simp_all
      | some x, none =>
        -- then `q` finds `a`, which equals `x`, and `x` occurs behind `a`
        exfalso
        rw [hp, hq, Option.some_or, Option.none_or] at h
        split at h
        · next hqa =>
          rw [← Option.some.inj h] at hqa
          rw [find_eq_none.mp hq x (mem_of_find hp)] at hqa
          cases hqa
        · cases h
      | none, some y =>
        exfalso
        rw [hp, hq, Option.some_or, Option.none_or] at h
        split at h
        · next hpa =>
          rw [Option.some.inj h] at hpa
          rw [find_eq_none.mp hp y (mem_of_find hq)] at hpa
          cases hpa
        · cases h
    · rintro ⟨ha, hl⟩
      rw [← hl]
      cases hp : find p l with
      | some x => rfl
      | none =>
        have hsame : p a = q a := by
          by_contra hne
          obtain ⟨b, hb, hpb, -⟩ := ha hne
          rw [find_eq_none.mp hp b hb] at hpb
          cases hpb
        rw [hsame]

/-- A search is not disturbed by a filter exactly when every match that the filter removes is
followed by one that it keeps. -/
theorem find_filter_iff {p k : α → Bool} {l : List α} :
    find p (l.filter k) = find p l ↔
      Covered (fun a => p a = true ∧ k a = false) (fun a => p a = true ∧ k a = true) l := by
  rw [find_filter, eq_comm, find_eq_find_iff]
  refine covered_congr (fun a _ => ?_) fun a _ => ?_ <;> cases p a <;> cases k a <;> simp

end LastMatch
