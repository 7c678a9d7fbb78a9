import Rustgresql.Executor.Expression.Comparison
import Rustgresql.Lib.Best

/-!
# MIN and MAX

The aggregates order values by their kinds first, while the evaluator compares integers with floating-point
numbers by their values. `isExtremal_iff` says when the aggregates return extremal elements nevertheless.
-/

namespace Rustgresql

open Sql (BinaryOperator)

open Best

open ExpressionEvaluator (compared compared_eq evaluateBinaryOperation_of_not_null evaluateGreaterThan evaluateLessThan
  evaluatorOperations EvaluatorParameters greaterThan isNull_eq_true lessThan noFloats noParameters ofComparison
  Operations)

variable {S : Type}

/-- MIN or MAX -/
inductive Extreme
  | min | max
  deriving DecidableEq

namespace Extreme

/-- How a value compares with the current one that it replaces. -/
def order : Extreme → Ordering
  | min => .lt
  | max => .gt

def state : Extreme → Option Value → AggregateState
  | min, v => .min v
  | max, v => .max v

/-- The operator for which there is no better element -/
def operator : Extreme → BinaryOperator
  | min => .lessThan
  | max => .greaterThan

/-- A value replaces another one. -/
def Better (k : Extreme) (v current : Value) : Prop := compareValues v current .default = k.order

instance (k : Extreme) : DecidableRel k.Better := fun v w =>
  inferInstanceAs (Decidable (compareValues v w .default = k.order))

theorem aggregate_compareValues {v : Value} (hv : v.isNull = false) (w : Value) :
    AggregateState.compareValues v w = compareValues v w .default := by
  cases v <;> first | rfl | cases hv

theorem better_irrefl (k : Extreme) (v : Value) : ¬ k.Better v v := by
  have hself : compareValues v v .default = .eq := by
    have hswap := compareValues_swap v v .default
    revert hswap
    cases compareValues v v .default <;> simp
  rw [Better, hself]
  cases k <;> exact nofun

theorem compareFloats_eq_lt {x y : UInt64} : compareFloats x y = .lt ↔ floatLt x y = true := by
  unfold compareFloats floatLt
  rcases floatKey x with - | i <;> rcases floatKey y with - | j
  case some.some => rw [compare_lt_iff_lt, decide_eq_true_eq]
  all_goals exact iff_of_false nofun nofun

theorem floatLt_iff {x y : UInt64} : floatLt x y = true ↔ ∃ i j, floatKey x = some i ∧ floatKey y = some j ∧ i < j := by
  unfold floatLt
  rcases floatKey x with - | i <;> rcases floatKey y with - | j <;> simp

theorem floatLt_trans {x y z : UInt64} (hxy : floatLt x y = true) (hyz : floatLt y z = true) : floatLt x z = true := by
  obtain ⟨i, j, hx, hy, hij⟩ := floatLt_iff.mp hxy
  obtain ⟨j', k, hy', hz, hjk⟩ := floatLt_iff.mp hyz
  obtain rfl := Option.some.inj (hy.symm.trans hy')
  exact floatLt_iff.mpr ⟨i, k, hx, hz, hij.trans hjk⟩

theorem compare_lt_trans {α : Type} [LinearOrder α] {x y z : α} (hxy : compare x y = .lt) (hyz : compare y z = .lt) :
    compare x z = .lt :=
  compare_lt_iff_lt.mpr ((compare_lt_iff_lt.mp hxy).trans (compare_lt_iff_lt.mp hyz))

theorem compareValues_lt_trans {a b c : Value} (hab : compareValues a b .default = .lt)
    (hbc : compareValues b c .default = .lt) : compareValues a c .default = .lt := by
  cases a <;> cases b <;> try contradiction
  all_goals cases c <;> try contradiction
  case float.float.float x y z =>
    exact compareFloats_eq_lt.mpr (floatLt_trans (compareFloats_eq_lt.mp hab) (compareFloats_eq_lt.mp hbc))
  case integer.integer.integer i j k =>
    have hij : compare i j = .lt := hab
    exact compare_lt_trans hij hbc
  case string.string.string s t u =>
    have hst : compare s t = .lt := hab
    exact compare_lt_trans hst hbc
  case boolean.boolean.boolean b c d =>
    have hbc' : compare b c = .lt := hab
    exact compare_lt_trans hbc' hbc
  case timestamp.timestamp.timestamp m n o =>
    have hmn : compare m n = .lt := hab
    exact compare_lt_trans hmn hbc
  -- the kinds tell the values apart
  all_goals rfl

theorem better_max_iff {v w : Value} : Better .max v w ↔ compareValues w v .default = .lt := by
  rw [Better, order, compareValues_swap w v]
  cases compareValues w v .default <;> simp

theorem better_trans (k : Extreme) (a b c : Value) (hab : k.Better a b) (hbc : k.Better b c) : k.Better a c := by
  cases k
  · exact compareValues_lt_trans hab hbc
  · rw [better_max_iff] at *
    exact compareValues_lt_trans hbc hab

section Fold

variable [DebugText] [FloatArithmetic] (k : Extreme)

/-- The aggregate of a list, from the state of a new group -/
def aggregate (l : List Value) : Value := (l.foldl AggregateState.update (k.state none)).result

theorem update_some (v current : Value) : (k.state (some current)).update v =
    if v.isNull then k.state (some current) else k.state (some (if k.Better v current then v else current)) := by
  rcases hv : v.isNull
  · rw [if_neg Bool.false_ne_true]
    cases k
    · show AggregateState.update (.min (some current)) v = _
      rw [AggregateState.update, hv, if_neg Bool.false_ne_true, aggregate_compareValues hv]
      exact (apply_ite (fun v => AggregateState.min (some v)) _ _ _).symm
    · show AggregateState.update (.max (some current)) v = _
      rw [AggregateState.update, hv, if_neg Bool.false_ne_true, aggregate_compareValues hv]
      exact (apply_ite (fun v => AggregateState.max (some v)) _ _ _).symm
  · rw [if_pos rfl]
    cases k
    · show AggregateState.update (.min (some current)) v = _
      rw [AggregateState.update, hv]
      rfl
    · show AggregateState.update (.max (some current)) v = _
      rw [AggregateState.update, hv]
      rfl

theorem update_none (v : Value) : (k.state none).update v =
    if v.isNull then k.state none else k.state (some v) := by
  cases k <;> rfl

theorem foldl_update_some (current : Value) (l : List Value) : l.foldl AggregateState.update (k.state (some current)) =
    k.state (some (best k.Better current (l.filter (!·.isNull)))) := by
  induction l generalizing current with
  | nil => rfl
  | cons v l ih =>
    rw [List.foldl_cons, update_some, List.filter_cons]
    rcases v.isNull
    · exact ih _
    · exact ih _

theorem aggregate_eq {l : List Value} {first : Value} {rest : List Value}
    (h : l.filter (!·.isNull) = first :: rest) :
    k.aggregate l = best k.Better first rest := by
  induction l with
  | nil => cases h
  | cons v l ih =>
    rw [aggregate, List.foldl_cons, update_none]
    rw [List.filter_cons] at h
    rcases hv : v.isNull
    · rw [hv] at h
      obtain ⟨rfl, rfl⟩ := List.cons.inj h
      rw [if_neg Bool.false_ne_true, foldl_update_some]
      cases k <;> rfl
    · rw [hv] at h
      exact ih h

/-- The aggregate is an element of the list that is not NULL, and the aggregates find none that is better. -/
theorem aggregate_spec {l : List Value} (h : ∃ a ∈ l, a.isNull = false) : k.aggregate l ∈ l ∧
    (k.aggregate l).isNull = false ∧ ∀ e ∈ l, e.isNull = false → ¬ k.Better e (k.aggregate l) := by
  have hmem {v : Value} : v ∈ l.filter (!·.isNull) ↔ v ∈ l ∧ v.isNull = false := by
    rw [List.mem_filter, Bool.not_eq_true']
  obtain ⟨a, ha, hnull⟩ := h
  obtain ⟨first, rest, hfilter⟩ := List.exists_cons_of_ne_nil (List.ne_nil_of_mem (hmem.mpr ⟨ha, hnull⟩))
  rw [k.aggregate_eq hfilter]
  obtain ⟨hbest, hnotNull⟩ := hmem.mp (hfilter ▸ best_mem : best k.Better first rest ∈ l.filter (!·.isNull))
  refine ⟨hbest, hnotNull, fun e he hnull => ?_⟩
  exact best_spec (better_irrefl k) (better_trans k) e (hfilter ▸ hmem.mpr ⟨he, hnull⟩)

/-- The first value is the aggregate if none is better. -/
theorem aggregate_first {first : Value} {rest : List Value} (hfirst : first.isNull = false)
    (h : ∀ v ∈ rest, v.isNull = false → ¬ k.Better v first) : k.aggregate (first :: rest) = first := by
  have hfilter : (first :: rest).filter (!·.isNull) = first :: rest.filter (!·.isNull) := by
    rw [List.filter_cons, hfirst]
    rfl
  rw [k.aggregate_eq hfilter]
  refine best_eq_self fun v hv => ?_
  obtain ⟨hv, hnull⟩ := List.mem_filter.mp hv
  exact h v hv ((Bool.not_eq_true' _).mp hnull)

end Fold

/-! ## The order of the evaluator -/

section Evaluator

variable [FloatOperators]

/-- The comparison of the evaluator for which there is to be no better element -/
def precedes : Extreme → Value → Value → Option Bool
  | min => lessThan
  | max => greaterThan

theorem compareValues_of_lessThan {e m : Value} (h : lessThan e m = some true) : compareValues e m .default = .lt ∨
    (∃ x i, e = .float x ∧ m = .integer i ∧ floatLt x (FloatArithmetic.ofInt i) = true) := by
  cases e <;> cases m <;> try contradiction
  case integer.integer i j => exact .inl (compare_lt_iff_lt.mpr (of_decide_eq_true (Option.some.inj h)))
  case float.float x y => exact .inl (compareFloats_eq_lt.mpr (Option.some.inj h))
  case string.string s t => exact .inl (compare_lt_iff_lt.mpr (of_decide_eq_true (Option.some.inj h)))
  case boolean.boolean b c =>
    left
    cases b <;> cases c <;> first | rfl | cases h
  case timestamp.timestamp m n => exact .inl (compare_lt_iff_lt.mpr (of_decide_eq_true (Option.some.inj h)))
  case float.integer x i => exact .inr ⟨x, i, rfl, rfl, Option.some.inj h⟩
  -- an integer is less than a floating-point number in both orders
  all_goals exact .inl rfl

theorem lessThan_of_greaterThan {e m : Value} (h : greaterThan e m = some true) : lessThan m e = some true := by
  cases e <;> cases m <;> try contradiction
  case boolean.boolean b c =>
    cases b <;> cases c <;> first | rfl | cases h
  all_goals exact h

/-- The two orders agree except on an integer and a floating-point number. -/
theorem better_of_precedes {k : Extreme} {e m : Value} (h : k.precedes e m = some true) : k.Better e m ∨
    (k = min ∧ ∃ x i, e = .float x ∧ m = .integer i ∧ floatLt x (FloatArithmetic.ofInt i) = true) ∨
    (k = max ∧ ∃ i x, e = .integer i ∧ m = .float x ∧ floatLt x (FloatArithmetic.ofInt i) = true) := by
  cases k
  case min =>
    rcases compareValues_of_lessThan h with hlt | ⟨x, i, he, hm, hlt⟩
    · exact .inl hlt
    · exact .inr (.inl ⟨rfl, x, i, he, hm, hlt⟩)
  case max =>
    rcases compareValues_of_lessThan (lessThan_of_greaterThan h) with hlt | ⟨x, i, hm, he, hlt⟩
    · exact .inl (better_max_iff.mpr hlt)
    · exact .inr (.inr ⟨rfl, i, x, he, hm, hlt⟩)

theorem precedes_null {k : Extreme} {e m : Value} (h : e.isNull = true ∨ m.isNull = true) : k.precedes e m = none := by
  cases k <;> cases e <;> cases m <;> first | rfl | cases h <;> contradiction

variable [DebugText]

theorem compared_eq_true_iff {p : EvaluatorParameters S} {depth : ℕ} {k : Extreme} {e m : Value} :
    compared (evaluatorOperations p depth) k.operator e m = .ok (.boolean true) ↔ k.precedes e m = some true := by
  have hvalue : compared (evaluatorOperations p depth) k.operator e m = .ok (ofComparison (k.precedes e m)) := by
    rw [compared_eq]
    rcases he : e.isNull
    · rcases hm : m.isNull
      · rw [evaluateBinaryOperation_of_not_null he hm (by cases k <;> decide)]
        cases k <;> rfl
      · rw [precedes_null (.inr hm), isNull_eq_true hm]
        cases k <;> cases e <;> rfl
    · rw [precedes_null (.inl he), isNull_eq_true he]
      cases k <;> rfl
  rw [hvalue]
  rcases k.precedes e m with - | t
  · exact iff_of_false nofun nofun
  · rw [ofComparison, Except.ok.injEq, Value.boolean.injEq, Option.some.injEq]

/-- In whatever order the aggregate is given the values, it returns one of them, and the evaluator finds none that
is less, or greater. -/
def IsExtremal (ops : Operations S) (k : Extreme) (l : List Value) : Prop :=
  ∀ l' : List Value, l'.Perm l → k.aggregate l' ∈ l ∧ (k.aggregate l').isNull = false ∧
    ∀ e ∈ l, compared ops k.operator e (k.aggregate l') ≠ .ok (.boolean true)

end Evaluator

end Extreme

section Mixed

variable [FloatOperators]

/-- The evaluator can compare two values. -/
def Comparable (a b : Value) : Prop := (lessThan a b).isSome

/-- No floating-point number is less than the least integer, and no integer is greater than the greatest
floating-point number. -/
def MixesInOrder (l : List Value) : Prop :=
  ∀ i x, .integer i ∈ l → .float x ∈ l →
    (∀ j, .integer j ∈ l → i ≤ j) ∨ (∀ y, .float y ∈ l → floatLt x y = false) →
      floatLt x (FloatArithmetic.ofInt i) = false

theorem not_better_least {l : List Value} {i : ℤ} (hcomparable : ∀ v ∈ l, v.isNull = false → Comparable v (.integer i))
    (hleast : ∀ j, .integer j ∈ l → i ≤ j) : ∀ v ∈ l, v.isNull = false → ¬ Extreme.min.Better v (.integer i) := by
  intro v hv hnull hbetter
  have hcompare := hcomparable v hv hnull
  cases v <;> try contradiction
  case integer j =>
    have hlt : compare j i = .lt := hbetter
    exact absurd (compare_lt_iff_lt.mp hlt) (not_lt.mpr (hleast j hv))

theorem not_better_greatest {l : List Value} {x : UInt64}
    (hcomparable : ∀ v ∈ l, v.isNull = false → Comparable v (.float x))
    (hgreatest : ∀ y, .float y ∈ l → floatLt x y = false) :
    ∀ v ∈ l, v.isNull = false → ¬ Extreme.max.Better v (.float x) := by
  intro v hv hnull hbetter
  have hcompare := hcomparable v hv hnull
  rw [Extreme.better_max_iff] at hbetter
  cases v <;> try contradiction
  case float y => exact Bool.false_ne_true ((hgreatest y hv).symm.trans (Extreme.compareFloats_eq_lt.mp hbetter))

variable [DebugText]

/-- A value that comes first in some order of the list is the aggregate if none is better. -/
theorem compared_of_first {p : EvaluatorParameters S} {depth : ℕ} {k : Extreme} {l : List Value} {m e : Value}
    (h : k.IsExtremal (evaluatorOperations p depth) l) (hm : m ∈ l) (hnull : m.isNull = false)
    (hbest : ∀ v ∈ l, v.isNull = false → ¬ k.Better v m) (he : e ∈ l) : k.precedes e m ≠ some true := by
  obtain ⟨front, back, rfl⟩ := List.append_of_mem hm
  have hfirst : k.aggregate (m :: (front ++ back)) = m := by
    refine k.aggregate_first hnull fun v hv => hbest v ?_
    rw [List.mem_append] at hv
    rw [List.mem_append, List.mem_cons]
    exact hv.imp_right .inr
  have hextremal := (h _ List.perm_middle.symm).2.2 e he
  rwa [hfirst, Ne, Extreme.compared_eq_true_iff] at hextremal

/-- MIN and MAX are extremal for the evaluator if and only if integers and floating-point numbers are not mixed, or
mixed in the order of their kinds. -/
theorem isExtremal_iff (p : EvaluatorParameters S) (depth : ℕ) {l : List Value} (hne : ∃ a ∈ l, a.isNull = false)
    (hcomparable : ∀ a ∈ l, ∀ b ∈ l, a.isNull = false → b.isNull = false → Comparable a b) :
    (∀ k : Extreme, k.IsExtremal (evaluatorOperations p depth) l) ↔ MixesInOrder l := by
  constructor
  · rintro h i x hi hx (hleast | hgreatest)
    · have hbest := not_better_least (fun v hv hnull => hcomparable v hv _ hi hnull rfl) hleast
      exact (Bool.not_eq_true _).mp fun hlt => compared_of_first (h .min) hi rfl hbest hx (congrArg some hlt)
    · have hbest := not_better_greatest (fun v hv hnull => hcomparable v hv _ hx hnull rfl) hgreatest
      exact (Bool.not_eq_true _).mp fun hlt => compared_of_first (h .max) hx rfl hbest hi (congrArg some hlt)
  · intro hmixed k l' hperm
    have hne' : ∃ a ∈ l', a.isNull = false := by
      obtain ⟨a, ha, hnull⟩ := hne
      exact ⟨a, hperm.mem_iff.mpr ha, hnull⟩
    obtain ⟨hmem, hnotNull, hbest⟩ := k.aggregate_spec hne'
    refine ⟨hperm.mem_iff.mp hmem, hnotNull, fun e he hcompared => ?_⟩
    have hprecedes := Extreme.compared_eq_true_iff.mp hcompared
    have hnull : e.isNull = false := by
      by_contra hnull
      rw [Extreme.precedes_null (.inl ((Bool.not_eq_false _).mp hnull))] at hprecedes
      cases hprecedes
    have hmem := hperm.mem_iff.mp hmem
    have hbest (e : Value) (he : e ∈ l) := hbest e (hperm.mem_iff.mpr he)
    generalize k.aggregate l' = m at *
    rcases Extreme.better_of_precedes hprecedes with
      hbetter | ⟨rfl, x, i, rfl, rfl, hlt⟩ | ⟨rfl, i, x, rfl, rfl, hlt⟩
    · exact hbest e he hnull hbetter
    · -- no integer is less than the minimum
      refine Bool.false_ne_true ((hmixed i x hmem he (.inl fun j hj => ?_)).symm.trans hlt)
      by_contra hlt
      exact hbest _ hj rfl (compare_lt_iff_lt.mpr (not_le.mp hlt))
    · -- and no floating-point number is greater than the maximum
      refine Bool.false_ne_true ((hmixed i x he hmem (.inr fun y hy => ?_)).symm.trans hlt)
      refine (Bool.not_eq_true _).mp fun hlt => hbest _ hy rfl ?_
      exact Extreme.better_max_iff.mpr (Extreme.compareFloats_eq_lt.mpr hlt)

end Mixed

theorem isExtremal_integers : letI : DebugText := ⟨fun _ => "", fun _ => "", fun _ => ""⟩
    letI : FloatOperators := noFloats
    Extreme.min.IsExtremal (evaluatorOperations noParameters 0) [.null, .integer 2, .integer 1] ∧
      Extreme.max.IsExtremal (evaluatorOperations noParameters 0) [.null, .integer 2, .integer 1] := by
  let texts : DebugText := ⟨fun _ => "", fun _ => "", fun _ => ""⟩
  let operators : FloatOperators := noFloats
  have hcomparable : ∀ a ∈ [Value.null, .integer 2, .integer 1], ∀ b ∈ [Value.null, .integer 2, .integer 1],
      a.isNull = false → b.isNull = false → Comparable a b := by
    intro a ha b hb hna hnb
    simp only [List.mem_cons, List.not_mem_nil, or_false] at ha hb
    rcases ha with rfl | rfl | rfl <;> rcases hb with rfl | rfl | rfl <;> first | rfl | contradiction
  have hextremal := (isExtremal_iff noParameters 0 ⟨.integer 2, by simp, rfl⟩ hcomparable).mpr fun i x hi hx => by
    simp at hx
  exact ⟨hextremal .min, hextremal .max⟩

/-- MIN of 5 and 1.0 is 5. -/
theorem min_mixed : ¬ ∀ (_ : FloatOperators) (_ : DebugText) (S : Type) (p : EvaluatorParameters S) (depth : ℕ)
    (l : List Value), (∃ a ∈ l, a.isNull = false) →
      (∀ a ∈ l, ∀ b ∈ l, a.isNull = false → b.isNull = false → Comparable a b) →
      ∀ k : Extreme, k.IsExtremal (evaluatorOperations p depth) l := by
  intro h
  let texts : DebugText := ⟨fun _ => "", fun _ => "", fun _ => ""⟩
  -- 5 as a floating-point number
  let operators : FloatOperators := { noFloats with ofInt := fun _ => 0x4014000000000000 }
  have hextremal := h operators texts Unit noParameters 0 [.integer 5, .float 0x3ff0000000000000]
    ⟨.integer 5, List.mem_cons_self, rfl⟩ ?_ .min _ (List.Perm.refl _)
  · have hless := hextremal.2.2 (.float 0x3ff0000000000000) (List.mem_cons_of_mem _ List.mem_cons_self)
    have hlt : floatLt 0x3ff0000000000000 0x4014000000000000 = true := by decide
    exact hless (Extreme.compared_eq_true_iff.mpr (congrArg some hlt))
  · intro a ha b hb _ _
    simp only [List.mem_cons, List.not_mem_nil, or_false] at ha hb
    rcases ha with rfl | rfl <;> rcases hb with rfl | rfl <;> rfl

end Rustgresql
