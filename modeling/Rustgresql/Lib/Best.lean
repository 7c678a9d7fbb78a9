import Mathlib

/-!
# The best element of a list

A loop over a list that keeps the current element until it meets a better one. If "better" is transitive then no
element of the list is better than the one that is left.
-/

namespace Best

variable {α : Type} (better : α → α → Prop) [DecidableRel better]

/-- Keep the current element until there is a better one. -/
def best (current : α) (l : List α) : α := l.foldl (fun m a => if better a m then a else m) current

variable {better} {current : α} {l : List α}

theorem best_cons (a : α) : best better current (a :: l) = best better (if better a current then a else current) l := rfl

theorem best_mem : best better current l ∈ current :: l := by
  induction l generalizing current with
  | nil => exact List.mem_cons_self
  | cons a l ih =>
    rw [best_cons]
    rcases List.mem_cons.mp ih with h | h
    · rw [h]
      split_ifs
      · exact List.mem_cons_of_mem _ List.mem_cons_self
      · exact List.mem_cons_self
    · exact List.mem_cons_of_mem _ (List.mem_cons_of_mem _ h)

/-- An element that was not better than an earlier current one is not better than a later one. -/
theorem not_better_best (htrans : ∀ a b c, better a b → better b c → better a c) {a : α} (h : ¬ better a current) :
    ¬ better a (best better current l) := by
  induction l generalizing current with
  | nil => exact h
  | cons b l ih =>
    rw [best_cons]
    refine ih ?_
    split_ifs with hb
    · exact fun hab => h (htrans a b current hab hb)
    · exact h

/-- No element is better than the one that is left. -/
theorem best_spec (hirrefl : ∀ a, ¬ better a a) (htrans : ∀ a b c, better a b → better b c → better a c) :
    ∀ a ∈ current :: l, ¬ better a (best better current l) := by
  induction l generalizing current with
  | nil =>
    intro a ha
    obtain rfl := List.mem_singleton.mp ha
    exact hirrefl a
  | cons b l ih =>
    intro a ha
    rw [best_cons]
    rcases List.mem_cons.mp ha with rfl | ha
    · refine not_better_best htrans ?_
      split_ifs with hb
      · exact fun hab => hirrefl a (htrans a b a hab hb)
      · exact hirrefl a
    · rcases List.mem_cons.mp ha with rfl | ha
      · refine not_better_best htrans ?_
        split_ifs with hb
        · exact hirrefl a
        · exact hb
      · exact ih a (List.mem_cons_of_mem _ ha)

/-- The first element is left if none is better. -/
theorem best_eq_self (h : ∀ a ∈ l, ¬ better a current) : best better current l = current := by
  induction l with
  | nil => rfl
  | cons a l ih =>
    rw [best_cons, if_neg (h a List.mem_cons_self)]
    exact ih fun b hb => h b (List.mem_cons_of_mem _ hb)

end Best
