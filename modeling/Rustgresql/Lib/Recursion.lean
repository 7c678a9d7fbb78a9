import Mathlib

/-!
# Recursive queries

A recursive query has an anchor and a step that makes elements out of a list of elements, or fails. `Derivable`
is the least set that has the anchor and is closed under the step. `Iteration.newIn` is how it is computed: the
step is made on the elements that were new in the last iteration. If the step is made on single elements then
an element is found in at most as many iterations as there are steps on the way to it: `found_iff_reached`.
-/

namespace Recursion

variable {α ε : Type}

/-- What can be derived from the anchor with any number of steps -/
inductive Derivable (anchor : List α) (step : List α → Except ε (List α)) : α → Prop
  | anchor {a : α} : a ∈ anchor → Derivable anchor step a
  | step {l out : List α} {a : α} : (∀ b ∈ l, Derivable anchor step b) → step l = .ok out → a ∈ out →
    Derivable anchor step a

/-- What is reached from an element of the anchor in a number of steps on single elements -/
inductive ReachedIn (anchor : List α) (step : List α → Except ε (List α)) : ℕ → α → Prop
  | anchor {a : α} : a ∈ anchor → ReachedIn anchor step 0 a
  | step {k : ℕ} {b a : α} {out : List α} : ReachedIn anchor step k b → step [b] = .ok out → a ∈ out →
    ReachedIn anchor step (k + 1) a

/-- The step on a list of derivable elements is made on each of them. -/
def IsLinear (anchor : List α) (step : List α → Except ε (List α)) : Prop :=
  ∀ l out, (∀ b ∈ l, Derivable anchor step b) → step l = .ok out →
    ∀ a, a ∈ out ↔ ∃ b ∈ l, ∃ out', step [b] = .ok out' ∧ a ∈ out'

/-! ## Every iteration counts -/

/-- The results of the iterations, each made from the last -/
def iterates (anchor : List α) (step : List α → Except ε (List α)) : ℕ → Except ε (List α)
  | 0 => .ok anchor
  | k + 1 => iterates anchor step k >>= step

/-- The elements of a result -/
def elements : Except ε (List α) → List α
  | .ok l => l
  | .error _ => []

/-- The sum of the iterations until one yields no element -/
def IsSum (anchor : List α) (step : List α → Except ε (List α)) (l : List α) : Prop :=
  ∃ m, iterates anchor step m = .ok [] ∧ (∀ k < m, iterates anchor step k ≠ .ok []) ∧
    l.Perm ((List.range m).flatMap fun k => elements (iterates anchor step k))

/-! ## New elements count -/

section New

variable (same : α → α → Bool)

/-- The elements of a list that are not among those seen, nor among each other -/
def fresh : List α → List α → List α
  | _, [] => []
  | seen, a :: l => if seen.any (same · a) then fresh seen l else a :: fresh (seen ++ [a]) l

/-- The elements that are new in an iteration, and all up to it. An iteration on nothing is not made. -/
def iteration (anchor : List α) (step : List α → Except ε (List α)) : ℕ → List α × List α
  | 0 => (anchor, anchor)
  | k + 1 =>
    let last := iteration anchor step k
    let new := if last.1.isEmpty then [] else fresh same last.2 (elements (step last.1))
    (new, last.2 ++ new)

/-- The elements that are new in an iteration -/
def newIn (anchor : List α) (step : List α → Except ε (List α)) (k : ℕ) : List α :=
  (iteration same anchor step k).1

/-- All elements up to an iteration -/
def foundBy (anchor : List α) (step : List α → Except ε (List α)) (k : ℕ) : List α :=
  (iteration same anchor step k).2

section Fresh

variable {same}

theorem mem_of_mem_fresh {seen l : List α} {a : α} (h : a ∈ fresh same seen l) : a ∈ l := by
  induction l generalizing seen with
  | nil => exact h
  | cons b l ih =>
    rw [fresh] at h
    split_ifs at h
    · exact List.mem_cons_of_mem _ (ih h)
    · rcases List.mem_cons.mp h with rfl | h
      · exact List.mem_cons_self
      · exact List.mem_cons_of_mem _ (ih h)

/-- Every element of the list is seen afterwards. -/
theorem exists_same_fresh {seen l : List α} {a : α} (h : a ∈ l) (hself : same a a) :
    ∃ b ∈ seen ++ fresh same seen l, same b a := by
  induction l generalizing seen with
  | nil => cases h
  | cons b l ih =>
    rw [fresh]
    split_ifs with hseen
    · rcases List.mem_cons.mp h with rfl | h
      · obtain ⟨c, hc, hsame⟩ := List.any_eq_true.mp hseen
        exact ⟨c, List.mem_append_left _ hc, hsame⟩
      · exact ih h
    · rw [List.append_cons]
      rcases List.mem_cons.mp h with rfl | h
      · exact ⟨_, by simp, hself⟩
      · exact ih h

theorem pairwise_append_fresh {seen : List α} (l : List α) (h : seen.Pairwise fun a b => same a b = false) :
    (seen ++ fresh same seen l).Pairwise fun a b => same a b = false := by
  induction l generalizing seen with
  | nil =>
    rw [fresh, List.append_nil]
    exact h
  | cons b l ih =>
    rw [fresh]
    split_ifs with hseen
    · exact ih h
    · rw [List.append_cons]
      refine ih (List.pairwise_append.mpr ⟨h, List.pairwise_singleton _ _, fun c hc d hd => ?_⟩)
      obtain rfl := List.mem_singleton.mp hd
      exact Bool.eq_false_iff.mpr fun hsame => hseen (List.any_eq_true.mpr ⟨c, hc, hsame⟩)

/-- If no element is the same as another then every element is new. -/
theorem fresh_none (seen l : List α) : fresh (fun _ _ => false) seen l = l := by
  induction l generalizing seen with
  | nil => rfl
  | cons a l ih =>
    rw [fresh, if_neg (by simp), ih]

end Fresh

section Iterations

variable {same} {anchor : List α} {step : List α → Except ε (List α)} {k n : ℕ} {a : α}

theorem newIn_succ (k : ℕ) : newIn same anchor step (k + 1) = if (newIn same anchor step k).isEmpty then []
    else fresh same (foundBy same anchor step k) (elements (step (newIn same anchor step k))) := rfl

theorem foundBy_succ (k : ℕ) : foundBy same anchor step (k + 1) =
    foundBy same anchor step k ++ newIn same anchor step (k + 1) := rfl

/-- What is found is new in some iteration. -/
theorem foundBy_eq (k : ℕ) :
    foundBy same anchor step k = (List.range (k + 1)).flatMap (newIn same anchor step) := by
  induction k with
  | zero => exact (List.append_nil _).symm
  | succ k ih => rw [foundBy_succ, ih, List.range_succ (n := k + 1), List.flatMap_append, List.flatMap_singleton]

theorem mem_foundBy : a ∈ foundBy same anchor step n ↔ ∃ k ≤ n, a ∈ newIn same anchor step k := by
  rw [foundBy_eq, List.mem_flatMap]
  simp only [List.mem_range, Nat.lt_succ_iff]

/-- An iteration on elements whose step does not fail finds what the step makes of them. -/
theorem newIn_succ_of_ok {out : List α} (hne : newIn same anchor step k ≠ [])
    (hout : step (newIn same anchor step k) = .ok out) :
    newIn same anchor step (k + 1) = fresh same (foundBy same anchor step k) out := by
  rw [newIn_succ, if_neg (mt List.isEmpty_iff.mp hne), hout]
  rfl

/-- An element that is new in an iteration is made by the step. -/
theorem exists_step_of_mem_newIn (h : a ∈ newIn same anchor step (k + 1)) :
    ∃ out, step (newIn same anchor step k) = .ok out ∧ a ∈ out := by
  rw [newIn_succ] at h
  split_ifs at h
  · cases h
  · have hmem := mem_of_mem_fresh h
    rcases hstep : step (newIn same anchor step k) with e | out
    · rw [hstep] at hmem
      cases hmem
    · rw [hstep] at hmem
      exact ⟨out, rfl, hmem⟩

theorem newIn_eq_nil_of_le (h : newIn same anchor step k = []) (hle : k ≤ n) : newIn same anchor step n = [] := by
  induction n, hle using Nat.le_induction with
  | base => exact h
  | succ n _ ih => rw [newIn_succ, ih]; rfl

/-- Nothing is found after an iteration that finds nothing. -/
theorem foundBy_eq_of_le (h : newIn same anchor step (k + 1) = []) (hle : k ≤ n) :
    foundBy same anchor step n = foundBy same anchor step k := by
  induction n, hle using Nat.le_induction with
  | base => rfl
  | succ n hkn ih => rw [foundBy_succ, newIn_eq_nil_of_le h (Nat.succ_le_succ hkn), List.append_nil, ih]

/-- What is found can be derived. -/
theorem derivable_of_mem_newIn (h : a ∈ newIn same anchor step k) : Derivable anchor step a := by
  induction k generalizing a with
  | zero => exact .anchor h
  | succ k ih =>
    obtain ⟨out, hout, hmem⟩ := exists_step_of_mem_newIn h
    exact .step (fun b hb => ih hb) hout hmem

theorem derivable_of_mem_foundBy (h : a ∈ foundBy same anchor step n) : Derivable anchor step a := by
  obtain ⟨k, -, hk⟩ := mem_foundBy.mp h
  exact derivable_of_mem_newIn hk

theorem pairwise_foundBy (h : anchor.Pairwise fun a b => same a b = false) (n : ℕ) :
    (foundBy same anchor step n).Pairwise fun a b => same a b = false := by
  induction n with
  | zero => exact h
  | succ n ih =>
    rw [foundBy_succ, newIn_succ]
    split_ifs
    · rw [List.append_nil]
      exact ih
    · exact pairwise_append_fresh _ ih

theorem anchor_sublist_foundBy (n : ℕ) : anchor.Sublist (foundBy same anchor step n) := by
  induction n with
  | zero => exact .refl _
  | succ n ih => exact ih.trans (List.sublist_append_left _ _)

/-- The elements that are the same are equal, as far as they can be derived. -/
def TellsApart (same : α → α → Bool) (anchor : List α) (step : List α → Except ε (List α)) : Prop :=
  ∀ a b, Derivable anchor step a → Derivable anchor step b → (same a b = true ↔ a = b)

/-- The step does not fail in the first iterations. -/
def StepsReturn (same : α → α → Bool) (anchor : List α) (step : List α → Except ε (List α)) (n : ℕ) : Prop :=
  ∀ k < n, newIn same anchor step k ≠ [] → ∃ out, step (newIn same anchor step k) = .ok out

/-- The elements found are different ones, if those of the anchor are. -/
theorem nodup_foundBy (hsame : TellsApart same anchor step) (n : ℕ) :
    (foundBy same anchor step n).Nodup ↔ anchor.Nodup := by
  have hiff {l : List α} (hl : ∀ a ∈ l, Derivable anchor step a) :
      l.Nodup ↔ l.Pairwise fun a b => same a b = false := by
    refine List.Pairwise.iff_of_mem fun ha hb => ?_
    rw [Bool.eq_false_iff, ne_eq, ne_eq, hsame _ _ (hl _ ha) (hl _ hb)]
  refine ⟨fun h => h.sublist (anchor_sublist_foundBy n), fun h => ?_⟩
  rw [hiff fun a => derivable_of_mem_foundBy]
  exact pairwise_foundBy ((hiff fun a => .anchor).mp h) n

section Linear

variable (hlinear : IsLinear anchor step)

include hlinear

theorem reachedIn_of_mem_newIn (h : a ∈ newIn same anchor step k) : ReachedIn anchor step k a := by
  induction k generalizing a with
  | zero => exact .anchor h
  | succ k ih =>
    obtain ⟨out, hout, hmem⟩ := exists_step_of_mem_newIn h
    obtain ⟨b, hb, out', hout', ha⟩ := (hlinear _ _ (fun b hb => derivable_of_mem_newIn hb) hout a).mp hmem
    exact .step (ih hb) hout' ha

/-- What is reached in a number of steps is found in as many iterations. -/
theorem mem_foundBy_of_reachedIn (hsame : TellsApart same anchor step) (hreturn : StepsReturn same anchor step n)
    (h : ReachedIn anchor step k a) (hle : k ≤ n) : a ∈ foundBy same anchor step k := by
  induction h with
  | anchor ha => exact ha
  | @step k b a out _ hout ha ih =>
    obtain ⟨j, hj, hb⟩ := mem_foundBy.mp (ih (by omega))
    have hne : newIn same anchor step j ≠ [] := List.ne_nil_of_mem hb
    obtain ⟨out', hout'⟩ := hreturn j (by omega) hne
    have hmem := (hlinear _ _ (fun b hb => derivable_of_mem_newIn hb) hout' a).mpr ⟨b, hb, out, hout, ha⟩
    have hderivable : Derivable anchor step a := .step (fun b hb => derivable_of_mem_newIn hb) hout' hmem
    have hself : same a a := (hsame a a hderivable hderivable).mpr rfl
    obtain ⟨c, hc, hca⟩ : ∃ c ∈ foundBy same anchor step j ++ fresh same (foundBy same anchor step j) out', same c a :=
      exists_same_fresh hmem hself
    rw [← newIn_succ_of_ok hne hout', ← foundBy_succ] at hc
    obtain rfl := (hsame c a (derivable_of_mem_foundBy hc) hderivable).mp hca
    obtain ⟨i, hi, hmem'⟩ := mem_foundBy.mp hc
    exact mem_foundBy.mpr ⟨i, by omega, hmem'⟩

/-- The iterations find exactly what is reached in so many steps. -/
theorem found_iff_reached (hsame : TellsApart same anchor step) (hreturn : StepsReturn same anchor step n) :
    a ∈ foundBy same anchor step n ↔ ∃ k ≤ n, ReachedIn anchor step k a := by
  rw [mem_foundBy]
  constructor
  · rintro ⟨k, hk, ha⟩
    exact ⟨k, hk, reachedIn_of_mem_newIn hlinear ha⟩
  · rintro ⟨k, hk, ha⟩
    obtain ⟨j, hj, hmem⟩ := mem_foundBy.mp (mem_foundBy_of_reachedIn hlinear hsame hreturn ha hk)
    exact ⟨j, hj.trans hk, hmem⟩

end Linear

end Iterations

end New

/-! ## Sums -/

section Sum

variable {anchor : List α} {step : List α → Except ε (List α)} {n : ℕ}

/-- If every element is new then an iteration finds the result of the last. -/
theorem iterates_eq_newIn (hreturn : StepsReturn (fun _ _ => false) anchor step n) {k : ℕ} (hk : k ≤ n)
    (hne : ∀ j < k, newIn (fun _ _ => false) anchor step j ≠ []) :
    iterates anchor step k = .ok (newIn (fun _ _ => false) anchor step k) := by
  induction k with
  | zero => rfl
  | succ k ih =>
    have hlast := hne k (Nat.lt_succ_self k)
    obtain ⟨out, hout⟩ := hreturn k (by omega) hlast
    rw [iterates, ih (by omega) fun j hj => hne j (by omega), newIn_succ_of_ok hlast hout, fresh_none]
    exact hout

theorem exists_iterates_of_le {m k : ℕ} {l : List α} (h : iterates anchor step m = .ok l) (hk : k ≤ m) :
    ∃ l', iterates anchor step k = .ok l' := by
  induction m, hk using Nat.le_induction generalizing l with
  | base => exact ⟨l, h⟩
  | succ m _ ih =>
    rw [iterates] at h
    rcases hm : iterates anchor step m with e | l'
    · rw [hm] at h
      cases h
    · exact ih hm

theorem foundBy_eq_of_nil {same : α → α → Bool} {m : ℕ} (h : newIn same anchor step m = []) (hm : m ≤ n) :
    foundBy same anchor step n = (List.range m).flatMap (newIn same anchor step) := by
  induction n, hm using Nat.le_induction with
  | base => rw [foundBy_eq, List.range_succ, List.flatMap_append, List.flatMap_singleton, h, List.append_nil]
  | succ n hmn ih => rw [foundBy_succ, newIn_eq_nil_of_le h (by omega), List.append_nil, ih]

/-- What the iterations find is the sum of all of them if one of them, or the next one, yields nothing. -/
theorem isSum_foundBy_iff (hreturn : StepsReturn (fun _ _ => false) anchor step n) :
    IsSum anchor step (foundBy (fun _ _ => false) anchor step n) ↔ ∃ m ≤ n + 1, iterates anchor step m = .ok [] := by
  have helements {m : ℕ} (h : ∀ k < m, iterates anchor step k = .ok (newIn (fun _ _ => false) anchor step k)) :
      (List.range m).flatMap (newIn (fun _ _ => false) anchor step) =
        (List.range m).flatMap fun k => elements (iterates anchor step k) := by
    refine List.flatMap_congr fun k hk => ?_
    rw [h k (List.mem_range.mp hk), elements]
  by_cases hempty : ∃ m, m ≤ n ∧ newIn (fun _ _ => false) anchor step m = []
  · -- the first iteration that finds nothing
    classical
    obtain ⟨m, ⟨hm, hnil⟩, hmin⟩ : ∃ m, (m ≤ n ∧ newIn (fun _ _ => false) anchor step m = []) ∧
        ∀ k < m, newIn (fun _ _ => false) anchor step k ≠ [] :=
      ⟨Nat.find hempty, Nat.find_spec hempty, fun k hk hnil =>
        Nat.find_min hempty hk ⟨hk.le.trans (Nat.find_spec hempty).1, hnil⟩⟩
    have hiterates : ∀ k ≤ m, iterates anchor step k = .ok (newIn (fun _ _ => false) anchor step k) :=
      fun k hk => iterates_eq_newIn hreturn (hk.trans hm) fun j hj => hmin j (hj.trans_le hk)
    have hlast : iterates anchor step m = .ok [] := by rw [hiterates m le_rfl, hnil]
    refine iff_of_true ⟨m, hlast, fun k hk h => hmin k hk ?_, ?_⟩ ⟨m, by omega, hlast⟩
    · exact Except.ok.inj ((hiterates k hk.le).symm.trans h)
    · rw [foundBy_eq_of_nil hnil hm, helements fun k hk => hiterates k hk.le]
  · have hne : ∀ k ≤ n, newIn (fun _ _ => false) anchor step k ≠ [] := fun k hk hnil => hempty ⟨k, hk, hnil⟩
    have hiterates : ∀ k ≤ n, iterates anchor step k = .ok (newIn (fun _ _ => false) anchor step k) :=
      fun k hk => iterates_eq_newIn hreturn hk fun j hj => hne j (hj.le.trans hk)
    have hfirst : ∀ k ≤ n, iterates anchor step k ≠ .ok [] := fun k hk h =>
      hne k hk (Except.ok.inj ((hiterates k hk).symm.trans h))
    rw [foundBy_eq, helements fun k hk => hiterates k (by omega)]
    constructor
    · rintro ⟨m, hm, hmin, hperm⟩
      refine ⟨m, not_lt.mp fun hlt => ?_, hm⟩
      -- the sum would have one more iteration, and that iteration yields something
      have hrange : List.range m = List.range (n + 1) ++ List.range' (n + 1) (m - (n + 1)) := by
        have happend := List.range'_append_1 (s := 0) (m := n + 1) (n := m - (n + 1))
        rw [Nat.zero_add, Nat.add_sub_cancel' hlt.le] at happend
        rw [List.range_eq_range', List.range_eq_range', happend]
      have hlength := hperm.length_eq
      rw [hrange, List.flatMap_append, List.length_append, Nat.left_eq_add] at hlength
      have hnone := List.flatMap_eq_nil_iff.mp (List.eq_nil_of_length_eq_zero hlength) (n + 1)
        (List.mem_range'_1.mpr ⟨le_rfl, by omega⟩)
      obtain ⟨l, hl⟩ := exists_iterates_of_le hm hlt.le
      refine hmin (n + 1) hlt ?_
      rw [hl] at hnone ⊢
      exact congrArg _ hnone
    · rintro ⟨m, hm, hlast⟩
      obtain rfl : m = n + 1 := by
        by_contra hne'
        exact hfirst m (by omega) hlast
      exact ⟨n + 1, hlast, fun k hk => hfirst k (by omega), .refl _⟩

end Sum

end Recursion
