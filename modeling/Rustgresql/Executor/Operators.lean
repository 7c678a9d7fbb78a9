import Rustgresql.Catalog.Table
import Rustgresql.Lib.StableSort
import Rustgresql.Sql.Ast

/-!
# Execution operators (`executor/operators.rs`)

What the physical operators share: their results, and the comparison that sorting rests on.
-/

namespace Rustgresql

open Sql (NullsPosition)

/-- Query result row -/
structure QueryResult where
  rows : List Row
  columnNames : List String

/-- The place of a floating-point number among the others. What is not a number has none. -/
def floatKey (bits : UInt64) : Option ℤ :=
  let magnitude := bits &&& 0x7fffffffffffffff
  if 0x7ff0000000000000 < magnitude then none
  else if bits < 0x8000000000000000 then some magnitude.toNat else some (-magnitude.toNat)

/-- `partial_cmp`, with what is not a number equal to all -/
def compareFloats (x y : UInt64) : Ordering :=
  match floatKey x, floatKey y with
  | some i, some j => compare i j
  | _, _ => .eq

/-- Compare two values for sorting -/
def compareValues (a b : Value) (nullsPosition : NullsPosition) : Ordering :=
  match a, b with
  | .null, .null => .eq
  | .null, _ =>
    -- Determine NULL position based on specification
    match nullsPosition with
    | .first => .lt
    | .last => .gt
    | .default => .lt
  | _, .null =>
    match nullsPosition with
    | .first => .gt
    | .last => .lt
    | .default => .gt
  | .integer i, .integer j => compare i j
  | .float x, .float y => compareFloats x y
  | .string s, .string t => compare s t
  | .boolean b, .boolean c => compare b c
  | .timestamp m, .timestamp n => compare m n
  -- Different types - establish a priority order
  | .boolean _, _ => .lt
  | _, .boolean _ => .gt
  | .integer _, .float _ => .lt
  | .float _, .integer _ => .gt
  | .integer _, .string _ => .lt
  | .string _, .integer _ => .gt
  | .float _, .string _ => .lt
  | .string _, .float _ => .gt
  | .list _, .list _ => .eq
  | .list _, _ => .lt
  | _, .list _ => .gt
  | .timestamp _, _ => .lt
  | _, .timestamp _ => .gt

/-! ## The order of values -/

/-- The value is a floating-point number, but not a number. -/
def Value.IsNaN (v : Value) : Prop := ∃ bits, v = .float bits ∧ floatKey bits = none

/-- What values are compared by: their kind, then what they hold. -/
def Value.sortKey (nullsPosition : NullsPosition) : Value → ℕ ×ₗ ℤ ×ₗ String
  | .null => toLex (if nullsPosition = .last then 7 else 0, toLex (0, ""))
  | .boolean b => toLex (1, toLex (if b then 1 else 0, ""))
  | .list _ => toLex (2, toLex (0, ""))
  | .timestamp t => toLex (3, toLex (t, ""))
  | .integer i => toLex (4, toLex (i, ""))
  | .float bits => toLex (5, toLex ((floatKey bits).getD 0, ""))
  | .string s => toLex (6, toLex (0, s))

theorem compareFloats_swap (x y : UInt64) : compareFloats y x = (compareFloats x y).swap := by
  unfold compareFloats
  rcases floatKey x with - | i <;> rcases floatKey y with - | j
  case some.some => exact Std.OrientedOrd.eq_swap
  all_goals rfl

theorem compareValues_swap (v w : Value) (nullsPosition : NullsPosition) :
    compareValues w v nullsPosition = (compareValues v w nullsPosition).swap := by
  cases v <;> cases w
  case float.float x y => exact compareFloats_swap x y
  all_goals first
    | rfl
    | exact Std.OrientedOrd.eq_swap
    | cases nullsPosition <;> rfl

theorem exists_floatKey {bits : UInt64} (h : ¬ (Value.float bits).IsNaN) : ∃ i, floatKey bits = some i := by
  rcases hkey : floatKey bits with - | i
  · exact absurd ⟨bits, rfl, hkey⟩ h
  · exact ⟨i, rfl⟩

theorem compareValues_eq {v w : Value} (hv : ¬ v.IsNaN) (hw : ¬ w.IsNaN) (nullsPosition : NullsPosition) :
    compareValues v w nullsPosition = compare (v.sortKey nullsPosition) (w.sortKey nullsPosition) := by
  rw [Prod.Lex.compare_def]
  cases v <;> cases w
  case boolean.boolean b c => cases b <;> cases c <;> rfl
  case float.float x y =>
    obtain ⟨i, hi⟩ := exists_floatKey hv
    obtain ⟨j, hj⟩ := exists_floatKey hw
    simp [compareValues, compareFloats, hi, hj, Value.sortKey, Prod.Lex.compare_def, compareLex, compareOn]
  -- the kinds tell the values apart, or what they hold is compared
  all_goals first
    | rfl
    | cases nullsPosition <;> rfl
    | simp [compareValues, Value.sortKey, Prod.Lex.compare_def, compareLex, compareOn]

/-- Values are compared by an order, unless there are floating-point numbers that are not numbers. -/
theorem isOrderOn_compareValues {values : List Value} (h : ∀ v ∈ values, ¬ v.IsNaN)
    (nullsPosition : NullsPosition) :
    StableSort.IsOrderOn (fun v w => compareValues v w nullsPosition) values :=
  StableSort.isOrderOn_of_key (Value.sortKey nullsPosition) fun v hv w hw =>
    compareValues_eq (h v hv) (h w hw) nullsPosition

/-- The comparison of a sort is a total preorder on the values among which there is no NaN, wherever the NULLs go. -/
theorem compareValues_isPreorder {u v w : Value} (hu : ¬ u.IsNaN) (hv : ¬ v.IsNaN) (hw : ¬ w.IsNaN)
    (nullsPosition : NullsPosition) :
    compareValues v v nullsPosition = .eq ∧
      compareValues w v nullsPosition = (compareValues v w nullsPosition).swap ∧
      (compareValues u v nullsPosition ≠ .gt → compareValues v w nullsPosition ≠ .gt →
        compareValues u w nullsPosition ≠ .gt) := by
  have horder : StableSort.IsOrderOn (fun v w => compareValues v w nullsPosition) [u, v, w] := by
    refine isOrderOn_compareValues (fun x hx => ?_) nullsPosition
    simp only [List.mem_cons, List.not_mem_nil, or_false] at hx
    rcases hx with rfl | rfl | rfl
    · exact hu
    · exact hv
    · exact hw
  refine ⟨horder.self (by simp), compareValues_swap v w nullsPosition, ?_⟩
  exact horder.trans u (by simp) v (by simp) w (by simp)

theorem compareValues_isPreorder_mixed :
    compareValues (.timestamp 0) (.timestamp 0) .last = .eq ∧
      compareValues (.list [.null]) (.timestamp 0) .last = .lt ∧
      compareValues (.list []) (.integer 1) .last ≠ .gt := by
  have hnone (v : Value) (h : ∀ bits, v ≠ .float bits) : ¬ v.IsNaN := fun ⟨bits, hbits, _⟩ => h bits hbits
  have h := compareValues_isPreorder (hnone (.list []) (by simp)) (hnone (.timestamp 0) (by simp))
    (hnone (.integer 1) (by simp)) .last
  have h' := compareValues_isPreorder (hnone .null (by simp)) (hnone (.timestamp 0) (by simp))
    (hnone (.list [.null]) (by simp)) .last
  exact ⟨h.1, h'.2.1.trans rfl, h.2.2 (by decide) (by decide)⟩

end Rustgresql
