import Mathlib.Algebra.BigOperators.Group.Finset.Basic
import Rustgresql.Executor.Aggregate
import Rustgresql.I64
import Rustgresql.Lib.Binary64
import Rustgresql.Lib.Recursion

/-!
# SUM over integers

Integers are added up as floating-point numbers, from 0. `sumsExactly_iff`: the aggregate returns the exact sum if
and only if there is something to add and the rounding errors cancel.
-/

namespace Rustgresql

open AggregateState (addNumeric newSum update wholeOrFloat)

open Binary64 (encode key Representable roundInt)

open Recursion (fresh)

namespace SumOfIntegers

/-- An integer or NULL -/
def element : Option Int64 → Value
  | some i => .integer i.toInt
  | none => .null

def integers (l : List (Option Int64)) : List ℤ := l.filterMap (·.map Int64.toInt)

/-- What is added up. Of equal values the first counts with DISTINCT. -/
def summands (distinct : Bool) (l : List (Option Int64)) : List ℤ :=
  if distinct then fresh (fun a b => decide (a = b)) [] (integers l) else integers l

/-- The exact sum -/
def exactSum (distinct : Bool) (l : List (Option Int64)) : ℤ :=
  if distinct then ∑ i ∈ (integers l).toFinset, i else (integers l).sum

/-! ## Rounding -/

/-- Convert to a floating-point number and add. -/
def accumulate (s : ℤ) (l : List ℤ) : ℤ := l.foldl (fun s i => roundInt (s + roundInt i)) s

/-- The rounding errors of the conversions and the additions -/
def roundingError (s : ℤ) : List ℤ → ℤ
  | [] => 0
  | i :: l => (roundInt i - i) + (roundInt (s + roundInt i) - (s + roundInt i)) + roundingError (roundInt (s + roundInt i)) l

theorem accumulate_eq (s : ℤ) (l : List ℤ) : accumulate s l = s + l.sum + roundingError s l := by
  induction l generalizing s with
  | nil => simp [accumulate, roundingError]
  | cons i l ih =>
    have hstep : accumulate s (i :: l) = accumulate (roundInt (s + roundInt i)) l := rfl
    rw [hstep, ih, List.sum_cons, roundingError]
    ring

theorem roundInt_of_natAbs_lt {a : ℤ} (h : a.natAbs < 2 ^ 53) : roundInt a = a := by
  rw [roundInt, Binary64.roundNat_of_lt h, Int.sign_mul_natAbs]

/-- Nothing is rounded if the absolute values do not add up to more than 53 bits. -/
theorem roundingError_eq_zero {s : ℤ} {l : List ℤ} (h : s.natAbs + (l.map Int.natAbs).sum < 2 ^ 53) :
    roundingError s l = 0 := by
  induction l generalizing s with
  | nil => rfl
  | cons i l ih =>
    rw [List.map_cons, List.sum_cons] at h
    have hadd := Int.natAbs_add_le s i
    have hi : roundInt i = i := roundInt_of_natAbs_lt (by omega)
    have hs : roundInt (s + i) = s + i := roundInt_of_natAbs_lt (by omega)
    rw [roundingError, hi, hs, ih (by omega)]
    ring

/-- Numbers that the sum can be on the way -/
structure IsSum (s : ℤ) : Prop where
  representable : Representable s.natAbs
  bound : s.natAbs ≤ 2 ^ 117

theorem natAbs_roundInt_le {i : ℤ} (h : I64.InRange i) : (roundInt i).natAbs ≤ 2 ^ 63 := by
  rw [Binary64.natAbs_roundInt]
  refine Binary64.roundNat_le_two_pow ?_
  obtain ⟨hmin, hmax⟩ := h
  rw [I64.min] at hmin
  rw [I64.max] at hmax
  omega

theorem isSum_roundInt {i : ℤ} (h : I64.InRange i) : IsSum (roundInt i) := by
  refine ⟨?_, (natAbs_roundInt_le h).trans (by decide)⟩
  rw [Binary64.natAbs_roundInt]
  exact Binary64.representable_roundNat _

theorem IsSum.add {s i : ℤ} (hs : IsSum s) (hi : I64.InRange i) : IsSum (roundInt (s + roundInt i)) := by
  refine ⟨?_, Binary64.natAbs_roundInt_add_le hs.bound (natAbs_roundInt_le hi)⟩
  rw [Binary64.natAbs_roundInt]
  exact Binary64.representable_roundNat _

theorem isSum_zero : IsSum 0 := ⟨⟨0, 0, Nat.zero_le _, rfl⟩, Nat.zero_le _⟩

theorem isSum_accumulate {s : ℤ} {l : List ℤ} (hs : IsSum s) (hl : ∀ i ∈ l, I64.InRange i) : IsSum (accumulate s l) := by
  induction l generalizing s with
  | nil => exact hs
  | cons i l ih => exact ih (hs.add (hl i List.mem_cons_self)) fun j hj => hl j (List.mem_cons_of_mem _ hj)

/-- Conversions and additions roundInt to 53 significant bits, and integral floating-point numbers are recognized and
converted back, with saturation. -/
structure RoundsTo53Bits [FloatArithmetic] : Prop where
  ofInt : ∀ i, I64.InRange i → FloatArithmetic.ofInt i = encode (roundInt i)
  add : ∀ a b, IsSum a → IsSum b → (roundInt (a + b)).natAbs ≤ 2 ^ 117 →
    FloatArithmetic.add (encode a) (encode b) = encode (roundInt (a + b))
  isWhole : ∀ a, IsSum a → FloatArithmetic.isWhole (encode a) = true
  toInt : ∀ a, IsSum a → FloatArithmetic.toInt (encode a) = Max.max I64.min (Min.min a I64.max)

theorem floatKey_encode {a : ℤ} (h : IsSum a) : floatKey (encode a) = some (key a) := by
  have hlt := Binary64.magnitude_lt h.bound
  have hword := Binary64.toNat_encode h.bound
  have hmagnitude : (encode a &&& 0x7fffffffffffffff).toNat = Binary64.magnitude a.natAbs := by
    rw [UInt64.toNat_and, hword]
    have hmask : (0x7fffffffffffffff : UInt64).toNat = 2 ^ 63 - 1 := rfl
    rw [hmask, Nat.and_two_pow_sub_one_eq_mod]
    split_ifs <;> omega
  unfold floatKey key
  dsimp only
  rw [if_neg, hmagnitude]
  · split_ifs with hsign hneg hneg
    · rw [UInt64.lt_iff_toNat_lt, hword, if_pos hneg] at hsign
      have hlimit : (0x8000000000000000 : UInt64).toNat = 2 ^ 63 := rfl
      omega
    · rfl
    · rfl
    · rw [UInt64.lt_iff_toNat_lt, hword, if_neg hneg] at hsign
      have hlimit : (0x8000000000000000 : UInt64).toNat = 2 ^ 63 := rfl
      omega
  · rw [UInt64.lt_iff_toNat_lt, hmagnitude]
    have hlimit : (0x7ff0000000000000 : UInt64).toNat = 2047 * 2 ^ 52 := rfl
    omega

theorem floatLe_encode {a b : ℤ} (ha : IsSum a) (hb : IsSum b) : floatLe (encode a) (encode b) = decide (a ≤ b) := by
  rw [floatLe, floatKey_encode ha, floatKey_encode hb]
  exact decide_eq_decide.mpr (Binary64.key_le_key_iff ha.representable hb.representable)

/-! ## Texts -/

section Texts

variable [DebugText] {unprintable : Char → Bool}

theorem value_inj (hderived : DebugText.IsDerived unprintable) {v w : Value} (hv : SetOperationOperator.IsPlain v)
    (hw : SetOperationOperator.IsPlain w) (h : DebugText.value v = DebugText.value w) : v = w := by
  have hrow {v : Value} (hv : SetOperationOperator.IsPlain v) : SetOperationOperator.IsPlainRow [v] := by
    intro u hu
    rwa [List.mem_singleton.mp hu]
  have hkeys := DebugText.groupKey_inj hderived (hrow hv) (hrow hw) rfl (congrArg (fun t => "|".intercalate [t]) h)
  exact List.head_eq_of_cons_eq hkeys

/-- The texts among those seen -/
def Sees (values : Finset String) (seen : List ℤ) : Prop :=
  ∀ i, DebugText.value (.integer i) ∈ values ↔ i ∈ seen

theorem Sees.insert (hderived : DebugText.IsDerived unprintable) {values : Finset String} {seen : List ℤ}
    (h : Sees values seen) (i : ℤ) : Sees (Insert.insert (DebugText.value (.integer i)) values) (seen ++ [i]) := by
  intro j
  rw [Finset.mem_insert, List.mem_append, List.mem_singleton, h j, or_comm]
  refine or_congr_right ⟨fun htext => ?_, fun hij => by rw [hij]⟩
  exact Value.integer.inj (value_inj hderived trivial trivial htext)

theorem Sees.insert_null (hderived : DebugText.IsDerived unprintable) {values : Finset String} {seen : List ℤ}
    (h : Sees values seen) : Sees (Insert.insert (DebugText.value .null) values) seen := by
  intro j
  rw [Finset.mem_insert, h j]
  refine or_iff_right fun htext => ?_
  have hne : Value.integer j = .null := value_inj hderived trivial trivial htext
  cases hne

end Texts

/-! ## The aggregate -/

section Aggregate

variable [FloatArithmetic]

/-- The result of a sum -/
theorem wholeOrFloat_encode (hfloat : RoundsTo53Bits) {s : ℤ} (hs : IsSum s) : wholeOrFloat (encode s) =
    if -2 ^ 63 ≤ s ∧ s ≤ 2 ^ 63 then .integer (Min.min s I64.max) else .float (encode s) := by
  have hmax : roundInt (2 ^ 63 - 1) = 2 ^ 63 := by decide +kernel
  have hmin : roundInt (-2 ^ 63) = -2 ^ 63 := by decide +kernel
  have hmaxRange : I64.InRange (2 ^ 63 - 1) := by decide
  have hminRange : I64.InRange (-2 ^ 63) := by decide
  rw [wholeOrFloat, hfloat.ofInt _ hmaxRange, hfloat.ofInt _ hminRange, hfloat.isWhole s hs,
    floatLe_encode hs (isSum_roundInt hmaxRange), floatLe_encode (isSum_roundInt hminRange) hs, hmax, hmin]
  simp only [Bool.true_and, Bool.and_eq_true, decide_eq_true_eq]
  by_cases hrange : -2 ^ 63 ≤ s ∧ s ≤ 2 ^ 63
  · rw [if_pos hrange.symm, if_pos hrange, hfloat.toInt s hs]
    refine congrArg Value.integer (max_eq_right (le_min hrange.1 (by decide)))
  · rw [if_neg fun h => hrange h.symm, if_neg hrange]

theorem addNumeric_integer (hfloat : RoundsTo53Bits) {s i : ℤ} (hs : IsSum s) (hi : I64.InRange i) :
    addNumeric (some (encode s)) (.integer i) = some (encode (roundInt (s + roundInt i))) := by
  rw [addNumeric, AggregateState.extractNumeric, hfloat.ofInt i hi]
  exact congrArg some (hfloat.add s _ hs (isSum_roundInt hi) (hs.add hi).bound)

variable [DebugText]

/-- The sum of a group -/
def sumOf (distinct : Bool) (l : List (Option Int64)) : Value :=
  ((l.map element).foldl update (newSum distinct)).result

variable {unprintable : Char → Bool}

/-- A sum that continues -/
theorem foldl_update (hfloat : RoundsTo53Bits) (hderived : DebugText.IsDerived unprintable) (distinct : Bool)
    {s : ℤ} {values : Finset String} {seen : List ℤ} (hs : IsSum s) (hseen : Sees values seen)
    (l : List (Option Int64)) : ∃ values', (l.map element).foldl update (.sum (some (encode s)) distinct values) =
      .sum (some (encode (accumulate s
        (if distinct then fresh (fun a b => decide (a = b)) seen (integers l) else integers l)))) distinct values' := by
  induction l generalizing s values seen with
  | nil =>
    refine ⟨values, ?_⟩
    cases distinct <;> rfl
  | cons e l ih =>
    rw [List.map_cons, List.foldl_cons]
    rcases distinct
    · rcases e with - | n
      · exact ih hs hseen
      · have hupdate : update (.sum (some (encode s)) false values) (element (some n)) =
            .sum (some (encode (roundInt (s + roundInt n.toInt)))) false values := by
          rw [← addNumeric_integer hfloat hs (I64.inRange_toInt n)]
          rfl
        rw [hupdate]
        exact ih (hs.add (I64.inRange_toInt n)) hseen
    · rcases e with - | n
      · rw [element, update, if_pos rfl]
        by_cases hnull : DebugText.value .null ∈ values
        · rw [if_pos hnull]
          exact ih hs hseen
        · rw [if_neg hnull]
          exact ih hs (hseen.insert_null hderived)
      · have hfresh : integers (some n :: l) = n.toInt :: integers l := rfl
        rw [element, update, if_pos rfl, if_pos rfl, hfresh, fresh]
        by_cases hmem : n.toInt ∈ seen
        · have hany : seen.any fun a => decide (a = n.toInt) := List.any_eq_true.mpr ⟨_, hmem, decide_eq_true rfl⟩
          rw [if_pos ((hseen _).mpr hmem), if_pos hany]
          obtain ⟨values', h⟩ := ih hs hseen
          exact ⟨values', h⟩
        · have hany : ¬ seen.any fun a => decide (a = n.toInt) := by
            rw [List.any_eq_true]
            rintro ⟨a, ha, heq⟩
            exact hmem (of_decide_eq_true heq ▸ ha)
          rw [if_neg fun h => hmem ((hseen _).mp h), if_neg hany, addNumeric_integer hfloat hs (I64.inRange_toInt n)]
          obtain ⟨values', h⟩ := ih (hs.add (I64.inRange_toInt n)) (hseen.insert hderived n.toInt)
          exact ⟨values', h⟩

theorem sumOf_eq (hfloat : RoundsTo53Bits) (hderived : DebugText.IsDerived unprintable) (distinct : Bool)
    (l : List (Option Int64)) : sumOf distinct l = wholeOrFloat (encode (accumulate 0 (summands distinct l))) := by
  have hseen : Sees ∅ [] := fun i => iff_of_false (Finset.notMem_empty _) List.not_mem_nil
  obtain ⟨values, h⟩ := foldl_update hfloat hderived distinct isSum_zero hseen l
  rw [sumOf, newSum]
  rw [show (0 : UInt64) = encode 0 from rfl, h]
  rfl

end Aggregate

/-! ## The sums -/

theorem integers_perm {l l' : List (Option Int64)} (h : l'.Perm l) : (integers l').Perm (integers l) := h.filterMap _

theorem inRange_of_mem_integers {l : List (Option Int64)} {i : ℤ} (h : i ∈ integers l) : I64.InRange i := by
  obtain ⟨e, -, he⟩ := List.mem_filterMap.mp h
  obtain ⟨n, -, rfl⟩ := Option.map_eq_some_iff.mp he
  exact I64.inRange_toInt n

theorem mem_summands {distinct : Bool} {l : List (Option Int64)} {i : ℤ} (h : i ∈ summands distinct l) :
    i ∈ integers l := by
  unfold summands at h
  split_ifs at h
  · exact Recursion.mem_of_mem_fresh h
  · exact h

theorem sum_summands {distinct : Bool} {l l' : List (Option Int64)} (h : l'.Perm l) :
    (summands distinct l').sum = exactSum distinct l := by
  have hperm := integers_perm h
  unfold summands exactSum
  split_ifs
  · have hnodup : (fresh (fun a b : ℤ => decide (a = b)) [] (integers l')).Nodup := by
      have hpairwise : ([] ++ fresh (fun a b : ℤ => decide (a = b)) [] (integers l')).Pairwise
          fun a b => decide (a = b) = false := Recursion.pairwise_append_fresh (integers l') .nil
      exact hpairwise.imp fun hne => of_decide_eq_false hne
    have hset : (integers l).toFinset = (fresh (fun a b : ℤ => decide (a = b)) [] (integers l')).toFinset := by
      ext i
      rw [List.mem_toFinset, List.mem_toFinset, ← hperm.mem_iff]
      refine ⟨fun hi => ?_, Recursion.mem_of_mem_fresh⟩
      have hself : decide (i = i) = true := decide_eq_true rfl
      obtain ⟨j, hj, hsame⟩ : ∃ j ∈ [] ++ fresh (fun a b : ℤ => decide (a = b)) [] (integers l'), decide (j = i) :=
        Recursion.exists_same_fresh hi hself
      rwa [← of_decide_eq_true hsame]
    rw [hset, List.sum_toFinset _ hnodup, List.map_id']
  · exact hperm.sum_eq

/-- In every order of the list, the sum is NULL if there is no integer, and otherwise the exact sum if it fits. -/
def SumsExactly [DebugText] [FloatArithmetic] (distinct : Bool) (l : List (Option Int64)) : Prop :=
  ∀ l' : List (Option Int64), l'.Perm l → ((∀ e ∈ l, e = none) → sumOf distinct l' = .null) ∧
    ((∃ i, some i ∈ l) → I64.InRange (exactSum distinct l) → sumOf distinct l' = .integer (exactSum distinct l))

/-- The rounding errors add up to zero. The greatest integer may be missed by one, since the conversion back
saturates. -/
def ErrorsCancel (sum error : ℤ) : Prop := error = 0 ∨ (sum = I64.max ∧ error = 1)

theorem wholeOrFloat_eq_iff [FloatArithmetic] (hfloat : RoundsTo53Bits) {sum error : ℤ} (hs : IsSum (sum + error))
    (hsum : I64.InRange sum) : wholeOrFloat (encode (sum + error)) = .integer sum ↔ ErrorsCancel sum error := by
  obtain ⟨hmin, hmax⟩ := hsum
  rw [wholeOrFloat_encode hfloat hs, ErrorsCancel]
  rw [I64.min] at hmin
  rw [I64.max] at hmax ⊢
  split_ifs with hrange
  · rw [Value.integer.injEq]
    omega
  · refine iff_of_false nofun ?_
    omega

theorem wholeOrFloat_ne_null [FloatArithmetic] (x : UInt64) : wholeOrFloat x ≠ .null := by
  unfold wholeOrFloat
  split_ifs <;> exact nofun

/-- The floating-point numbers that are words for integers -/
abbrev wholeNumbers : FloatArithmetic where
  add x y := encode (roundInt (Binary64.decode x + Binary64.decode y))
  div x _ := x
  ofInt i := encode (roundInt i)
  isWhole _ := true
  toInt x := Max.max I64.min (Min.min (Binary64.decode x) I64.max)

theorem roundsTo53Bits_wholeNumbers : letI := wholeNumbers; RoundsTo53Bits := by
  have hdecode {a : ℤ} (h : IsSum a) : Binary64.decode (encode a) = a := Binary64.decode_encode h.bound h.representable
  let numbers := wholeNumbers
  refine ⟨fun i _ => rfl, fun a b ha hb _ => ?_, fun a _ => rfl, fun a ha => ?_⟩
  · show encode (roundInt (Binary64.decode (encode a) + Binary64.decode (encode b))) = _
    rw [hdecode ha, hdecode hb]
  · show Max.max I64.min (Min.min (Binary64.decode (encode a)) I64.max) = _
    rw [hdecode ha]

end SumOfIntegers

end Rustgresql
