import Rustgresql.Basic
import Rustgresql.Lib.HashMap

/-!
# Statistics and selectivity (`optimizer/statistics.rs`)

The selectivity of a range is estimated from how many bounds of the histogram lie in it. `isSound_iff`: the estimate is
sound unless a bound lies between the ends of a range whose lower end is above its upper end, or the lower end of the
range is above all bounds. In the first case a subtraction underflows. In the second case the search for the lower
end finds nothing and leaves it at the first bound, so that bounds are counted that are not in the range.
-/

namespace Rustgresql

/-! ## Counting in sorted lists -/

section Sorted

variable {α : Type} [LinearOrder α] {l : List α} (hsorted : l.Pairwise (· ≤ ·))

include hsorted

/-- A search from the front of a sorted list passes all elements that are too small. -/
theorem findIdx?_of_sorted {p : α → Bool} (hp : ∀ a b, a ≤ b → p a = true → p b = true) :
    l.findIdx? p = if l.countP (fun a => !p a) < l.length then some (l.countP fun a => !p a) else none := by
  induction l with
  | nil => rfl
  | cons a l ih =>
    obtain ⟨hall, hrest⟩ := List.pairwise_cons.mp hsorted
    rw [List.findIdx?_cons]
    by_cases ha : p a = true
    · have hnone : (a :: l).countP (fun a => !p a) = 0 := by
        rw [List.countP_eq_zero]
        intro b hb
        rcases List.mem_cons.mp hb with rfl | hb
        · simp [ha]
        · simp [hp a b (hall b hb) ha]
      rw [if_pos ha, hnone, if_pos (by simp)]
    · rw [if_neg ha, ih hrest, List.countP_cons_of_pos (by simpa using ha), List.length_cons]
      by_cases hlt : l.countP (fun a => !p a) < l.length
      · rw [if_pos hlt, if_pos (by omega), Option.map_some]
      · rw [if_neg hlt, if_neg (by omega), Option.map_none]

end Sorted

/-! ## Statistics of a column -/

/-- Statistics for a column -/
structure ColumnStatistics where
  nullFraction : ℚ
  distinctCount : Option ℚ
  mcv : List (String × ℚ)
  histogram : List String

/-- The ends of a range, as far as there are ends. -/
structure Range where
  min : Option String
  max : Option String

namespace Range

/-- A value below the range -/
def IsBelow (r : Range) (x : String) : Prop := ∃ min ∈ r.min, x < min

/-- A value that is not above the range -/
def IsUpTo (r : Range) (x : String) : Prop := ∀ max ∈ r.max, x ≤ max

/-- A value in a range -/
def Contains (r : Range) (x : String) : Prop := r.IsUpTo x ∧ ¬ r.IsBelow x

instance (r : Range) : DecidablePred r.IsBelow := fun _ => inferInstanceAs (Decidable (∃ _ ∈ r.min, _))

instance (r : Range) : DecidablePred r.IsUpTo := fun _ => inferInstanceAs (Decidable (∀ _ ∈ r.max, _))

instance (r : Range) : DecidablePred r.Contains := fun _ => inferInstanceAs (Decidable (_ ∧ _))

/-- If a value is below the range and above it as well, then whatever is not above it is below it. -/
theorem isBelow_of_isUpTo {r : Range} {b x : String} (hbelow : r.IsBelow b) (habove : ¬ r.IsUpTo b) (hx : r.IsUpTo x) :
    r.IsBelow x := by
  obtain ⟨min, hmin, hb⟩ := hbelow
  simp only [IsUpTo, not_forall, not_le] at habove
  obtain ⟨max, hmax, hmaxb⟩ := habove
  exact ⟨min, hmin, ((hx max hmax).trans_lt hmaxb).trans hb⟩

end Range

namespace ColumnStatistics

/-- Estimate selectivity for equality predicate -/
def estimateEqSelectivity (value : String) (s : ColumnStatistics) : ℚ :=
  match s.mcv.find? fun e => e.1 = value with
  | some (_, freq) => freq
  | none =>
    match s.distinctCount with
    | some distinct => (1 - s.nullFraction) / distinct
    | none => 1 / 10

/-- The first bound that is not below the range. If there is none, the search leaves the first bound of all. -/
def lowerBound (r : Range) (s : ColumnStatistics) : ℕ :=
  match r.min with
  | some min => (s.histogram.findIdx? fun bound => min ≤ bound).getD 0
  | none => 0

/-- The first bound that is above the range -/
def upperBound (r : Range) (s : ColumnStatistics) : ℕ :=
  match r.max with
  | some max => (s.histogram.findIdx? fun bound => max < bound).getD s.histogram.length
  | none => s.histogram.length

/-- Estimate selectivity for inequality predicate. Builds without overflow checks wrap around where this panics. -/
def estimateRangeSelectivity (r : Range) (s : ColumnStatistics) : Result ℚ :=
  if s.histogram.isEmpty then .ok (33 / 100)
  else if s.upperBound r < s.lowerBound r then .error (.panic "attempt to subtract with overflow")
  else
    let selectivity : ℚ := (s.upperBound r - s.lowerBound r : ℕ) / s.histogram.length
    .ok (selectivity * (1 - s.nullFraction))

/-! ## What is counted -/

/-- The bounds that lie below a range -/
def below (r : Range) (s : ColumnStatistics) : ℕ := s.histogram.countP fun bound => r.IsBelow bound

/-- The bounds of the histogram that lie in a range -/
def countIn (r : Range) (s : ColumnStatistics) : ℕ := s.histogram.countP fun bound => r.Contains bound

/-- All bounds lie below the range. -/
def AllBelow (r : Range) (s : ColumnStatistics) : Prop := ∀ bound ∈ s.histogram, r.IsBelow bound

/-- No bound lies both below and above the range. -/
def IsRange (r : Range) (s : ColumnStatistics) : Prop := ∀ bound ∈ s.histogram, r.IsBelow bound → r.IsUpTo bound

instance (s : ColumnStatistics) (r : Range) : Decidable (s.AllBelow r) :=
  inferInstanceAs (Decidable (∀ bound ∈ s.histogram, _))

section Counting

variable {s : ColumnStatistics} {r : Range}

theorem below_le (r : Range) : s.below r ≤ s.histogram.length := List.countP_le_length

theorem below_eq_length_iff : s.below r = s.histogram.length ↔ s.AllBelow r := by
  rw [below, List.countP_eq_length]
  exact forall₂_congr fun _ _ => decide_eq_true_iff

theorem lowerBound_eq (hsorted : s.histogram.Pairwise (· ≤ ·)) :
    s.lowerBound r = if s.AllBelow r then 0 else s.below r := by
  have hmin : ∀ min, r.min = some min → s.below r = s.histogram.countP fun bound => decide (bound < min) := by
    intro min hmin
    simp [below, Range.IsBelow, hmin]
  have hnone : r.min = none → s.below r = 0 := by
    intro hmin
    simp [below, Range.IsBelow, hmin]
  rw [← if_congr below_eq_length_iff rfl rfl, lowerBound]
  rcases h : r.min with - | min
  · rw [hnone h]
    exact (ite_self 0).symm
  · have hfind := findIdx?_of_sorted hsorted (p := fun bound => decide (min ≤ bound))
      fun a b hab ha => decide_eq_true ((of_decide_eq_true ha).trans hab)
    simp only [← decide_not, not_le, ← hmin min h] at hfind
    have hle := s.below_le r
    simp only [hfind]
    split_ifs with hlt heq heq
    · omega
    · rfl
    · rfl
    · omega

theorem upperBound_eq (hsorted : s.histogram.Pairwise (· ≤ ·)) :
    s.upperBound r = s.histogram.countP fun bound => r.IsUpTo bound := by
  have hmax : ∀ max, r.max = some max → (s.histogram.countP fun bound => decide (r.IsUpTo bound)) =
      s.histogram.countP fun bound => decide (bound ≤ max) := by
    intro max hmax
    simp [Range.IsUpTo, hmax]
  rw [upperBound]
  rcases h : r.max with - | max
  · simp [Range.IsUpTo, h]
  · have hfind := findIdx?_of_sorted hsorted (p := fun bound => decide (max < bound))
      fun a b hab ha => decide_eq_true ((of_decide_eq_true ha).trans_le hab)
    have hle : s.histogram.countP (fun bound => bound ≤ max) ≤ s.histogram.length := List.countP_le_length
    simp only [← decide_not, not_lt] at hfind
    simp only [hfind, hmax max h]
    split
    · rfl
    · simp only [Option.getD_none]
      omega

/-- The bounds that are not above a range are those in it and those below it. -/
theorem countIn_add_below (hrange : s.IsRange r) :
    s.countIn r + s.below r = s.histogram.countP fun bound => r.IsUpTo bound := by
  rw [countIn, below, List.countP_eq_countP_filter_add s.histogram (fun bound => decide (r.IsUpTo bound))
    (fun bound => decide (¬ r.IsBelow bound)), List.countP_filter, List.countP_filter]
  congr 1
  · exact List.countP_congr fun b _ => by
      rw [Bool.and_eq_true, decide_eq_true_iff, decide_eq_true_iff, decide_eq_true_iff]
      exact Iff.rfl
  · refine List.countP_congr fun b hb => ?_
    simpa using hrange b hb

/-- If a bound lies below and above, then more bounds lie below than lie not above. -/
theorem lt_below_of_not_isRange (hrange : ¬ s.IsRange r) :
    (s.histogram.countP fun bound => r.IsUpTo bound) < s.below r := by
  simp only [IsRange, not_forall] at hrange
  obtain ⟨b, hb, hbelow, habove⟩ := hrange
  have hsplit := List.countP_eq_countP_filter_add s.histogram (fun bound => decide (r.IsBelow bound))
    (fun bound => decide (r.IsUpTo bound))
  have hupTo : (s.histogram.filter fun bound => decide (r.IsUpTo bound)).countP (fun bound => decide (r.IsBelow bound)) =
      s.histogram.countP fun bound => r.IsUpTo bound := by
    rw [List.countP_filter]
    refine List.countP_congr fun x _ => ?_
    simpa using Range.isBelow_of_isUpTo hbelow habove
  have hpos : 0 < (s.histogram.filter fun bound => !decide (r.IsUpTo bound)).countP fun bound => decide (r.IsBelow bound) :=
    List.countP_pos_iff.mpr ⟨b, List.mem_filter.mpr ⟨hb, by simpa using habove⟩, by simpa using hbelow⟩
  rw [below, hsplit, hupTo]
  exact Nat.lt_add_of_pos_right hpos

end Counting

/-! ## Sound estimates -/

/-- The estimate of a range is a fraction of the rows that are not NULL. It is at most the estimate of a range that
contains the range, and it is 0 if the range contains no bound. -/
def IsSound (s : ColumnStatistics) (r : Range) : Prop :=
  ∃ e, s.estimateRangeSelectivity r = .ok e ∧ 0 ≤ e ∧ e ≤ 1 - s.nullFraction ∧
    (∀ r' e', (∀ x, r.Contains x → r'.Contains x) → s.estimateRangeSelectivity r' = .ok e' → e ≤ e') ∧
    ((∀ bound ∈ s.histogram, ¬ r.Contains bound) → e = 0)

/-- No bound lies both below and above the range. If all lie below it, then none lies below its upper end, or all
rows are NULL. -/
def IsEstimable (s : ColumnStatistics) (r : Range) : Prop :=
  (¬ s.AllBelow r → s.IsRange r) ∧
    (s.AllBelow r → s.nullFraction = 1 ∨ ∀ bound ∈ s.histogram, ¬ r.IsUpTo bound)

/-- The estimate for a number of bounds -/
def fraction (s : ColumnStatistics) (n : ℕ) : ℚ := n / s.histogram.length * (1 - s.nullFraction)

section Soundness

variable {s : ColumnStatistics} {r : Range}

theorem fraction_mono (hnull : s.nullFraction ≤ 1) {m n : ℕ} (h : m ≤ n) : s.fraction m ≤ s.fraction n := by
  have hrows : 0 ≤ 1 - s.nullFraction := sub_nonneg.mpr hnull
  unfold fraction
  gcongr

theorem fraction_nonneg (hnull : s.nullFraction ≤ 1) (n : ℕ) : 0 ≤ s.fraction n := by
  have hrows : 0 ≤ 1 - s.nullFraction := sub_nonneg.mpr hnull
  unfold fraction
  positivity

theorem fraction_zero (s : ColumnStatistics) : s.fraction 0 = 0 := by simp [fraction]

theorem fraction_length (hne : s.histogram ≠ []) : s.fraction s.histogram.length = 1 - s.nullFraction := by
  have hlength : (s.histogram.length : ℚ) ≠ 0 := Nat.cast_ne_zero.mpr (List.length_pos_iff.mpr hne).ne'
  rw [fraction, div_self hlength, one_mul]

theorem fraction_eq_zero_iff (hne : s.histogram ≠ []) {n : ℕ} :
    s.fraction n = 0 ↔ s.nullFraction = 1 ∨ n = 0 := by
  have hlength : (s.histogram.length : ℚ) ≠ 0 := Nat.cast_ne_zero.mpr (List.length_pos_iff.mpr hne).ne'
  rw [fraction, mul_eq_zero, div_eq_zero_iff, or_iff_left hlength, Nat.cast_eq_zero, sub_eq_zero, or_comm, eq_comm (a := 1)]

variable (hne : s.histogram ≠ []) (hsorted : s.histogram.Pairwise (· ≤ ·))

include hne hsorted

/-- The estimate counts the bounds in the range, or those up to its upper end if all are below it. -/
theorem estimateRangeSelectivity_eq (r : Range) : s.estimateRangeSelectivity r =
    if s.AllBelow r then .ok (s.fraction (s.upperBound r))
    else if s.upperBound r < s.below r then .error (.panic "attempt to subtract with overflow")
    else .ok (s.fraction (s.countIn r)) := by
  have hempty : s.histogram.isEmpty = false := by simpa using hne
  rw [estimateRangeSelectivity, hempty, lowerBound_eq hsorted]
  by_cases hall : s.AllBelow r
  · simp [hall, fraction]
  · simp only [hall, if_false, Bool.false_eq_true]
    by_cases hrange : s.IsRange r
    · have hcount := countIn_add_below hrange
      rw [← upperBound_eq hsorted] at hcount
      rw [if_neg (by omega), if_neg (by omega), fraction, ← hcount, Nat.add_sub_cancel]
    · have hlt := lt_below_of_not_isRange hrange
      rw [← upperBound_eq hsorted] at hlt
      rw [if_pos hlt, if_pos hlt]

/-- The bounds in a range are among those that are counted for a range that contains it. -/
theorem fraction_countIn_le (hnull : s.nullFraction ≤ 1) {r' : Range} {e : ℚ}
    (hcontains : ∀ x, r.Contains x → r'.Contains x) (he : s.estimateRangeSelectivity r' = .ok e) :
    s.fraction (s.countIn r) ≤ e := by
  have hin : s.countIn r ≤ s.countIn r' :=
    List.countP_mono_left fun x _ hx => decide_eq_true (hcontains x (of_decide_eq_true hx))
  have hupTo : s.countIn r' ≤ s.upperBound r' := by
    rw [upperBound_eq hsorted]
    exact List.countP_mono_left fun x _ hx => decide_eq_true (of_decide_eq_true hx).1
  rw [estimateRangeSelectivity_eq hne hsorted] at he
  split_ifs at he
  · rw [← Except.ok.inj he]
    exact fraction_mono hnull (hin.trans hupTo)
  · rw [← Except.ok.inj he]
    exact fraction_mono hnull hin

/-- An estimate is never negative. -/
theorem nonneg_of_estimate (hnull : s.nullFraction ≤ 1) {e : ℚ} (he : s.estimateRangeSelectivity r = .ok e) : 0 ≤ e := by
  rw [estimateRangeSelectivity_eq hne hsorted] at he
  split_ifs at he
  · exact Except.ok.inj he ▸ fraction_nonneg hnull _
  · exact Except.ok.inj he ▸ fraction_nonneg hnull _

/-- A range is estimated soundly exactly if it is estimable. -/
theorem isSound_iff (hnull : 0 ≤ s.nullFraction ∧ s.nullFraction ≤ 1) (r : Range) : s.IsSound r ↔ s.IsEstimable r := by
  have hestimate := estimateRangeSelectivity_eq hne hsorted r
  by_cases hall : s.AllBelow r
  · -- the search for the lower end finds nothing
    rw [if_pos hall] at hestimate
    have hzero : s.fraction (s.upperBound r) = 0 ↔
        s.nullFraction = 1 ∨ ∀ bound ∈ s.histogram, ¬ r.IsUpTo bound := by
      rw [fraction_eq_zero_iff hne, upperBound_eq hsorted, List.countP_eq_zero]
      simp only [decide_eq_true_eq]
    have hestimable : s.IsEstimable r ↔ s.fraction (s.upperBound r) = 0 := by
      rw [hzero]
      exact ⟨fun h => h.2 hall, fun h => ⟨fun hnot => absurd hall hnot, fun _ => h⟩⟩
    rw [hestimable]
    constructor
    · rintro ⟨e, he, -, -, -, hempty⟩
      obtain rfl : s.fraction (s.upperBound r) = e := Except.ok.inj (hestimate.symm.trans he)
      exact hempty fun bound hbound hcontains => hcontains.2 (hall bound hbound)
    · intro h
      rw [h] at hestimate
      refine ⟨0, hestimate, le_rfl, sub_nonneg.mpr hnull.2, fun r' e' _ he' => ?_, fun _ => rfl⟩
      exact nonneg_of_estimate hne hsorted hnull.2 he'
  · rw [if_neg hall] at hestimate
    have hestimable : s.IsEstimable r ↔ s.IsRange r :=
      ⟨fun h => h.1 hall, fun h => ⟨fun _ => h, fun hbelow => absurd hbelow hall⟩⟩
    rw [hestimable]
    by_cases hrange : s.IsRange r
    · refine iff_of_true ?_ hrange
      have hcount := countIn_add_below hrange
      rw [← upperBound_eq hsorted] at hcount
      rw [if_neg (by omega)] at hestimate
      refine ⟨_, hestimate, fraction_nonneg hnull.2 _, ?_, ?_, fun hempty => ?_⟩
      · rw [← fraction_length hne]
        exact fraction_mono hnull.2 List.countP_le_length
      · exact fun r' e' hcontains he' => fraction_countIn_le hne hsorted hnull.2 hcontains he'
      · have hnone : s.countIn r = 0 := List.countP_eq_zero.mpr fun b hb => by simpa using hempty b hb
        rw [hnone, fraction_zero]
    · refine iff_of_false ?_ hrange
      have hlt := lt_below_of_not_isRange hrange
      rw [← upperBound_eq hsorted] at hlt
      rw [if_pos hlt] at hestimate
      rintro ⟨e, he, -⟩
      rw [hestimate] at he
      cases he

end Soundness

/-- Statistics with a histogram and without NULLs -/
def ofBounds (bounds : List String) : ColumnStatistics :=
  { nullFraction := 0, distinctCount := none, mcv := [], histogram := bounds }

theorem isSound_inside : (ofBounds ["a", "c"]).IsSound ⟨some "b", none⟩ := by
  refine (isSound_iff (by simp [ofBounds]) (by simp [ofBounds]) ⟨le_rfl, zero_le_one⟩ _).mpr ⟨fun _ => ?_, fun hall => ?_⟩
  · intro bound _ _ max hmax
    cases hmax
  · obtain ⟨min, hmin, hlt⟩ := hall "c" (by simp [ofBounds])
    obtain rfl : "b" = min := Option.some.inj hmin
    exact absurd hlt (by decide)

/-- A range above all bounds contains none, and all are counted. -/
theorem not_isSound_above : ¬ (ofBounds ["a"]).IsSound ⟨some "b", none⟩ := by
  rintro ⟨e, he, -, -, -, hempty⟩
  have hsearch : ((ofBounds ["a"]).histogram.findIdx? fun bound => decide ("b" ≤ bound)) = none := by decide
  have hestimate : (ofBounds ["a"]).estimateRangeSelectivity ⟨some "b", none⟩ = .ok 1 := by
    simp [estimateRangeSelectivity, lowerBound, upperBound, ofBounds] at hsearch ⊢
  have hnone : ∀ bound ∈ (ofBounds ["a"]).histogram, ¬ Range.Contains ⟨some "b", none⟩ bound := by
    intro bound hbound hcontains
    obtain rfl : bound = "a" := List.mem_singleton.mp hbound
    exact hcontains.2 ⟨"b", rfl, by decide⟩
  have hzero := hempty hnone
  rw [hestimate] at he
  rw [← Except.ok.inj he] at hzero
  exact one_ne_zero hzero

/-- Ranges without a lower end are estimated soundly. -/
theorem isSound_upTo {s : ColumnStatistics} (hne : s.histogram ≠ []) (hsorted : s.histogram.Pairwise (· ≤ ·))
    (hnull : 0 ≤ s.nullFraction ∧ s.nullFraction ≤ 1) (max : Option String) : s.IsSound ⟨none, max⟩ := by
  have hbelow (x : String) : ¬ Range.IsBelow ⟨none, max⟩ x := by
    rintro ⟨_, ⟨⟩, _⟩
  refine (isSound_iff hne hsorted hnull _).mpr ⟨fun _ bound _ h => absurd h (hbelow bound), fun hall => ?_⟩
  obtain ⟨bound, hbound⟩ := List.exists_mem_of_ne_nil _ hne
  exact absurd (hall bound hbound) (hbelow bound)

/-- Estimate selectivity for LIKE predicate (simplified) -/
def estimateLikeSelectivity (pattern : List Char) : ℚ :=
  if '%' ∈ pattern then
    if pattern.head? = some '%' ∧ pattern.getLast? = some '%' then 3 / 10 -- Contains pattern
    else if pattern.head? = some '%' then 4 / 10 -- Ends with pattern
    else 2 / 10 -- Starts with pattern
  else 1 / 10 -- Exact match (similar to =)

end ColumnStatistics

/-! ## Statistics of a table -/

/-- Types of predicates for selectivity estimation -/
inductive PredicateType
  | equals | notEquals | less | lessOrEqual | greater | greaterOrEqual | like | isNull | isNotNull

/-- Estimate result size for a predicate on a single column -/
def estimatePredicateSelectivity (columnStats : HashMap String ColumnStatistics) (columnName : String)
    (predicateType : PredicateType) (value : Option String) : Result ℚ :=
  match columnStats.lookup columnName with
  | some colStats =>
    match predicateType, value with
    | .equals, some v => .ok (colStats.estimateEqSelectivity v)
    | .equals, none => .ok (1 / 10)
    | .notEquals, some v => .ok (1 - colStats.estimateEqSelectivity v)
    | .notEquals, none => .ok (9 / 10)
    | .less, _ | .lessOrEqual, _ => colStats.estimateRangeSelectivity ⟨none, value⟩
    | .greater, _ | .greaterOrEqual, _ => colStats.estimateRangeSelectivity ⟨value, none⟩
    | .like, some v => .ok (ColumnStatistics.estimateLikeSelectivity v.toList)
    | .like, none => .ok (1 / 10)
    | .isNull, _ => .ok colStats.nullFraction
    | .isNotNull, _ => .ok (1 - colStats.nullFraction)
  -- Default selectivity when no statistics available
  | none =>
    match predicateType with
    | .equals | .like => .ok (1 / 10)
    | .notEquals => .ok (9 / 10)
    | .less | .lessOrEqual | .greater | .greaterOrEqual => .ok (33 / 100)
    | .isNull => .ok (5 / 100)
    | .isNotNull => .ok (95 / 100)

/-- The estimate of a comparison with an upper bound is a fraction of the rows that are not NULL. -/
theorem estimatePredicateSelectivity_upTo {columnStats : HashMap String ColumnStatistics} {columnName : String}
    {s : ColumnStatistics} (hlookup : columnStats.lookup columnName = some s) (hne : s.histogram ≠ [])
    (hsorted : s.histogram.Pairwise (· ≤ ·)) (hnull : 0 ≤ s.nullFraction ∧ s.nullFraction ≤ 1)
    {predicateType : PredicateType} (hless : predicateType = .less ∨ predicateType = .lessOrEqual) (value : Option String) :
    ∃ e, estimatePredicateSelectivity columnStats columnName predicateType value = .ok e ∧
      0 ≤ e ∧ e ≤ 1 - s.nullFraction := by
  obtain ⟨e, he, hnonneg, hle, -⟩ := ColumnStatistics.isSound_upTo hne hsorted hnull value
  refine ⟨e, ?_, hnonneg, hle⟩
  unfold estimatePredicateSelectivity
  rw [hlookup]
  rcases hless with rfl | rfl
  · exact he
  · exact he

end Rustgresql
