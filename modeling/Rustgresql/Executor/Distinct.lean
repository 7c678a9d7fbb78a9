import Rustgresql.Executor.Keys
import Rustgresql.Executor.Operators
import Rustgresql.Executor.Planner.ClauseOrder

/-!
# DISTINCT

The rows are deduplicated with a hash set. That needs an equality that is an equivalence, and hashes that are equal
if the values are. `Value.eq_iff`: values are equal if they are without NaN and the same but for the signs of
zeros. But NaN is not equal to itself, and the two zeros are hashed by their bits. So the rows are deduplicated
consistently exactly if none has a NaN and none differ in the signs of zeros only: `dedups_iff`.
-/

namespace Rustgresql

namespace Value

/-- The bits of a number, with one zero only -/
def unsignedZero (bits : UInt64) : UInt64 := if bits &&& 0x7fffffffffffffff = 0 then 0 else bits

mutual

/-- The value is or contains what is not a number. -/
def HasNaN : Value → Prop
  | float bits => 0x7ff0000000000000 < bits &&& 0x7fffffffffffffff
  | list vs => AnyNaN vs
  | _ => False

def AnyNaN : List Value → Prop
  | [] => False
  | v :: vs => v.HasNaN ∨ AnyNaN vs

end

mutual

/-- The value without the signs of its zeros -/
def unsigned : Value → Value
  | float bits => float (unsignedZero bits)
  | list vs => list (unsignedAll vs)
  | v => v

def unsignedAll : List Value → List Value
  | [] => []
  | v :: vs => v.unsigned :: unsignedAll vs

end

theorem floatEq_iff (x y : UInt64) :
    floatEq x y = true ↔ ¬ (float x).HasNaN ∧ ¬ (float y).HasNaN ∧ unsignedZero x = unsignedZero y := by
  have hzero : (0 : UInt64) &&& 0x7fffffffffffffff = 0 := by decide
  simp only [floatEq, HasNaN, unsignedZero, Bool.and_eq_true, Bool.or_eq_true, beq_iff_eq, decide_eq_true_eq,
    UInt64.not_lt, and_assoc]
  refine and_congr_right fun _ => and_congr_right fun _ => ?_
  by_cases hx : x &&& 0x7fffffffffffffff = 0 <;> by_cases hy : y &&& 0x7fffffffffffffff = 0
  · simp [hx, hy]
  · rw [if_pos hx, if_neg hy]
    constructor
    · rintro (rfl | ⟨-, h⟩)
      · exact absurd hx hy
      · exact absurd h hy
    · rintro rfl
      exact absurd hzero hy
  · rw [if_neg hx, if_pos hy]
    constructor
    · rintro (rfl | ⟨h, -⟩)
      · exact absurd hy hx
      · exact absurd h hx
    · rintro rfl
      exact absurd hzero hx
  · simp [hx, hy]

mutual

/-- Values are equal if they are without NaN and the same but for the signs of zeros. -/
theorem eq_iff : ∀ v w : Value, eq v w = true ↔ ¬ v.HasNaN ∧ ¬ w.HasNaN ∧ v.unsigned = w.unsigned
  | float x, w => by
    cases w
    case float y =>
      rw [eq, floatEq_iff, unsigned, unsigned, float.injEq]
    all_goals simp [eq, unsigned]
  | list vs, w => by
    cases w
    case list ws =>
      rw [eq, eqList_iff vs ws, HasNaN, HasNaN, unsigned, unsigned, list.injEq]
    all_goals simp [eq, unsigned]
  | integer i, w => by cases w <;> simp [eq, unsigned, HasNaN]
  | string s, w => by cases w <;> simp [eq, unsigned, HasNaN]
  | boolean b, w => by cases w <;> simp [eq, unsigned, HasNaN]
  | timestamp nanos, w => by cases w <;> simp [eq, unsigned, HasNaN]
  | null, w => by cases w <;> simp [eq, unsigned, HasNaN]

theorem eqList_iff : ∀ vs ws : List Value,
    eqList vs ws = true ↔ ¬ AnyNaN vs ∧ ¬ AnyNaN ws ∧ unsignedAll vs = unsignedAll ws
  | [], [] => by simp [eqList, AnyNaN]
  | [], w :: ws => by simp [eqList, unsignedAll]
  | v :: vs, [] => by simp [eqList, unsignedAll]
  | v :: vs, w :: ws => by
    rw [eqList, Bool.and_eq_true, eq_iff v w, eqList_iff vs ws, AnyNaN, AnyNaN, unsignedAll, unsignedAll, List.cons.injEq]
    tauto

end

end Value

namespace DistinctOperator

open Value (eqList AnyNaN unsignedAll)

/-- Equality is an equivalence on the rows, and equal rows have equal hashes. -/
structure HashSetContract (rows : List Row) : Prop where
  refl : ∀ a ∈ rows, eqList a a = true
  symm : ∀ a ∈ rows, ∀ b ∈ rows, eqList a b = true → eqList b a = true
  trans : ∀ a ∈ rows, ∀ b ∈ rows, ∀ c ∈ rows, eqList a b = true → eqList b c = true → eqList a c = true
  hash : ∀ a ∈ rows, ∀ b ∈ rows, eqList a b = true → sameHashes a b = true

/-- The rows that are returned are in the order of the input, among them is the first of all rows that are equal to
a row, and no two of them are equal. -/
structure IsDeduplicated (rows out : List Row) : Prop where
  sublist : out.Sublist rows
  first : ∀ row ∈ rows, ∀ a, rows.find? (eqList row) = some a → a ∈ out
  distinct : out.Pairwise fun a b => eqList a b = false

/-- The rows of the input are deduplicated, and consistently. -/
def DedupsConsistently (input : QueryResult) : Prop :=
  (∃ out, execute (.ok input) = .ok { input with rows := out } ∧ IsDeduplicated input.rows out) ∧
    HashSetContract input.rows

variable {rows : List Row}

mutual

theorem sameHash_self : ∀ v : Value, sameHash v v = true
  | .integer _ | .string _ | .boolean _ | .float _ | .timestamp _ => decide_eq_true rfl
  | .list vs => sameHashes_self vs
  | .null => rfl

theorem sameHashes_self : ∀ vs : List Value, sameHashes vs vs = true
  | [] => rfl
  | v :: vs => by rw [sameHashes, sameHash_self v, sameHashes_self vs]; rfl

end

/-- Rows that are equal are one row, unless they have a NaN or differ in the signs of zeros. -/
theorem hashSetContract_iff : HashSetContract rows ↔
    (∀ row ∈ rows, ¬ AnyNaN row) ∧ ∀ a ∈ rows, ∀ b ∈ rows, unsignedAll a = unsignedAll b → a = b := by
  constructor
  · intro h
    have hnumbers (row : Row) (hrow : row ∈ rows) : ¬ AnyNaN row :=
      ((Value.eqList_iff row row).mp (h.refl row hrow)).1
    refine ⟨hnumbers, fun a ha b hb hunsigned => eq_of_sameHashes (h.hash a ha b hb ?_)⟩
    exact (Value.eqList_iff a b).mpr ⟨hnumbers a ha, hnumbers b hb, hunsigned⟩
  · rintro ⟨hnumbers, hunsigned⟩
    have heq (a : Row) (ha : a ∈ rows) (b : Row) (hb : b ∈ rows) (hab : eqList a b = true) : a = b :=
      hunsigned a ha b hb ((Value.eqList_iff a b).mp hab).2.2
    have hrefl (a : Row) (ha : a ∈ rows) : eqList a a = true :=
      (Value.eqList_iff a a).mpr ⟨hnumbers a ha, hnumbers a ha, rfl⟩
    refine ⟨hrefl, fun a ha b hb hab => ?_, fun a ha b hb c hc hab hbc => ?_, fun a ha b hb hab => ?_⟩
    · rwa [Value.eqList_comm]
    · rwa [heq a ha b hb hab]
    · rw [heq a ha b hb hab]
      exact sameHashes_self b

/-- If equality is what the hash set needs, one row of all that are equal stays. -/
theorem isDeduplicated_distinctRows (h : HashSetContract rows) : IsDeduplicated rows (distinctRows rows) := by
  have heq (a : Row) (ha : a ∈ rows) (b : Row) (hb : b ∈ rows) (hab : eqList a b = true) : a = b :=
    eq_of_sameHashes (h.hash a ha b hb hab)
  rw [distinctRows_eq_fresh]
  refine ⟨StableSort.fresh_sublist [] rows, fun row hrow a hfind => ?_, ?_⟩
  · have hmem : a ∈ rows := List.mem_of_find?_eq_some hfind
    have hself : sameRow a a = true := by
      rw [sameRow, sameHashes_self, h.refl a hmem, Bool.and_self]
    obtain ⟨b, hb, hba⟩ : ∃ b ∈ [] ++ Recursion.fresh sameRow [] rows, sameRow b a = true :=
      Recursion.exists_same_fresh hmem hself
    rwa [← eq_of_sameRow b a hba]
  · have hpairwise : (Recursion.fresh sameRow [] rows).Pairwise fun a b => sameRow a b = false :=
      Recursion.pairwise_append_fresh rows .nil
    refine hpairwise.imp_of_mem fun {a b} ha hb hab => ?_
    have ha' := Recursion.mem_of_mem_fresh ha
    have hb' := Recursion.mem_of_mem_fresh hb
    rw [Bool.eq_false_iff]
    intro heqList
    obtain rfl := heq a ha' b hb' heqList
    rw [sameRow, sameHashes_self, heqList] at hab
    cases hab

/-- DISTINCT deduplicates the rows consistently exactly if none has a NaN and no two differ in the signs of zeros
only. -/
theorem dedups_iff (input : QueryResult) : DedupsConsistently input ↔
    (∀ row ∈ input.rows, ¬ AnyNaN row) ∧
      ∀ a ∈ input.rows, ∀ b ∈ input.rows, unsignedAll a = unsignedAll b → a = b := by
  rw [← hashSetContract_iff]
  exact ⟨fun h => h.2, fun h => ⟨⟨_, rfl, isDeduplicated_distinctRows h⟩, h⟩⟩

/-- The two zeros are equal and stay both. -/
theorem not_dedups_zeros :
    ¬ DedupsConsistently ⟨[[.float 0], [.float 0x8000000000000000]], ["x"]⟩ := by
  rintro ⟨⟨out, hout, hdistinct⟩, -⟩
  have hrows : out = [[.float 0], [.float 0x8000000000000000]] :=
    (congrArg QueryResult.rows (Except.ok.inj hout)).symm.trans rfl
  have hpairwise := hdistinct.distinct
  rw [hrows] at hpairwise
  exact absurd (List.rel_of_pairwise_cons hpairwise List.mem_cons_self) (by decide)

end DistinctOperator

end Rustgresql
