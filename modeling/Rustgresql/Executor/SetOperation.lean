import Rustgresql.Catalog.Table
import Rustgresql.Sql.Ast

/-!
# Set operations

UNION, INTERSECT and EXCEPT on lists of rows. `count_setOperationAll`: with ALL every row is there as
often as it should be. `yieldsSet_iff`: without ALL the rows of a UNION are all different only if those of
its left side are, and a row with a timestamp or a list in it, which the comparison takes to be different
from itself, is never found again.
-/

namespace Rustgresql

open StateSpec

open Sql (SetOperator)

namespace SetOperationOperator

/-- Check if two values are equal -/
def valuesEqual : Value → Value → Bool
  | .null, .null => true
  | .integer i, .integer j => i == j
  | .float x, .float y => floatEq x y
  | .string s, .string t => s == t
  | .boolean b, .boolean c => b == c
  | _, _ => false

/-- Check if two rows are equal -/
def rowsEqual (a b : Row) : Bool :=
  if a.length ≠ b.length then false else (a.zip b).all fun p => valuesEqual p.1 p.2

/-- Check if a list of rows contains a specific row -/
def rowsContains (rows : List Row) (target : Row) : Bool := rows.any fun row => rowsEqual row target

/-- Count occurrences of a row in a list of rows -/
def countRowOccurrences (rows : List Row) (target : Row) : ℕ :=
  (rows.filter fun row => rowsEqual row target).length

/-- Add a right row to a UNION, if it is not there. -/
def unionRow (result : List Row) (rightRow : Row) : List Row :=
  if !rowsContains result rightRow then result ++ [rightRow] else result

/-- Perform UNION operation -/
def performUnion (all : Bool) (leftRows rightRows : List Row) : List Row :=
  if all then leftRows ++ rightRows
  else rightRows.foldl unionRow leftRows

/-- Add a left row to an INTERSECT. With ALL its occurrences are counted on both sides. -/
def intersectRow (all : Bool) (leftRows rightRows result : List Row) (leftRow : Row) : List Row :=
  if all then
    let leftCount := countRowOccurrences leftRows leftRow
    let rightCount := countRowOccurrences rightRows leftRow
    let count := min leftCount rightCount
    (result.filter fun r => !rowsEqual r leftRow) ++ List.replicate count leftRow
  else
    if rowsContains rightRows leftRow && !rowsContains result leftRow then result ++ [leftRow] else result

/-- Perform INTERSECT operation -/
def performIntersect (all : Bool) (leftRows rightRows : List Row) : List Row :=
  leftRows.foldl (intersectRow all leftRows rightRows) []

/-- Add a left row to an EXCEPT. With ALL the occurrences on the right are subtracted. -/
def exceptRow (all : Bool) (leftRows rightRows result : List Row) (leftRow : Row) : List Row :=
  if all then
    let leftCount := countRowOccurrences leftRows leftRow
    let rightCount := countRowOccurrences rightRows leftRow
    if rightCount < leftCount then
      let remaining := leftCount - rightCount
      if countRowOccurrences result leftRow < remaining then result ++ [leftRow] else result
    else result
  else
    if !rowsContains rightRows leftRow && !rowsContains result leftRow then result ++ [leftRow] else result

/-- Perform EXCEPT operation -/
def performExcept (all : Bool) (leftRows rightRows : List Row) : List Row :=
  leftRows.foldl (exceptRow all leftRows rightRows) []

/-- Perform the set operation -/
def perform (operator : SetOperator) (all : Bool) (leftRows rightRows : List Row) : List Row :=
  match operator with
  | .union => performUnion all leftRows rightRows
  | .intersect => performIntersect all leftRows rightRows
  | .except => performExcept all leftRows rightRows

/-! ## The comparison -/

/-- The comparison takes a row to be equal to itself. -/
def SelfEqual (row : Row) : Prop := rowsEqual row row = true

/-- No value of a row is a floating-point number. -/
def NoFloat (row : Row) : Prop := ∀ v ∈ row, ∀ bits, v ≠ .float bits

theorem valuesEqual_eq_true {v w : Value} (hfloat : ∀ bits, v ≠ .float bits) :
    valuesEqual v w = true ↔ v = w ∧ valuesEqual v v = true := by
  cases v <;> cases w <;> simp_all [valuesEqual]

theorem rowsEqual_cons {v w : Value} {a b : Row} :
    rowsEqual (v :: a) (w :: b) = true ↔ valuesEqual v w = true ∧ rowsEqual a b = true := by
  unfold rowsEqual
  by_cases hlength : a.length = b.length
  · simp [hlength]
  · simp [hlength]

/-- Rows without floating-point numbers are equal if they are the same and equal to themselves. -/
theorem rowsEqual_eq_true {a b : Row} (hfloat : NoFloat a) : rowsEqual a b = true ↔ a = b ∧ SelfEqual a := by
  unfold SelfEqual
  induction a generalizing b with
  | nil => cases b <;> simp [rowsEqual]
  | cons v a ih =>
    obtain ⟨hv, ha⟩ := List.forall_mem_cons.mp hfloat
    cases b with
    | nil => simp [rowsEqual]
    | cons w b =>
      rw [rowsEqual_cons, rowsEqual_cons, valuesEqual_eq_true hv, ih ha, List.cons.injEq]
      exact and_and_and_comm

theorem rowsContains_eq_true {rows : List Row} {target : Row} (hfloat : ∀ row ∈ rows, NoFloat row) :
    rowsContains rows target = true ↔ target ∈ rows ∧ SelfEqual target := by
  rw [rowsContains, List.any_eq_true]
  constructor
  · rintro ⟨row, hrow, hequal⟩
    obtain ⟨rfl, hself⟩ := (rowsEqual_eq_true (hfloat row hrow)).mp hequal
    exact ⟨hrow, hself⟩
  · rintro ⟨hmem, hself⟩
    exact ⟨target, hmem, hself⟩

/-! ## Multiplicities -/

open scoped Classical in
theorem countRowOccurrences_eq {rows : List Row} {target : Row} (hfloat : ∀ row ∈ rows, NoFloat row)
    (hself : SelfEqual target) : countRowOccurrences rows target = rows.count target := by
  rw [countRowOccurrences, ← List.countP_eq_length_filter, List.count_eq_countP]
  refine List.countP_congr fun row hrow => ?_
  rw [rowsEqual_eq_true (hfloat row hrow), beq_iff_eq]
  constructor
  · exact And.left
  · rintro rfl
    exact ⟨rfl, hself⟩

/-- NULL, integers, strings and Booleans -/
def IsPlain : Value → Prop
  | .null | .integer _ | .string _ | .boolean _ => True
  | _ => False

/-- A row without timestamps, lists and floating-point numbers -/
def IsPlainRow (row : Row) : Prop := ∀ v ∈ row, IsPlain v

theorem noFloat_of_plain {row : Row} (h : IsPlainRow row) : NoFloat row := by
  rintro v hv bits rfl
  exact h _ hv

theorem valuesEqual_self {v : Value} (hfloat : ∀ bits, v ≠ .float bits) :
    valuesEqual v v = true ↔ IsPlain v := by
  cases v <;> simp_all [valuesEqual, IsPlain]

/-- The rows that the comparison finds again are those without timestamps and lists. -/
theorem selfEqual_iff {row : Row} (hfloat : NoFloat row) : SelfEqual row ↔ IsPlainRow row := by
  unfold SelfEqual
  induction row with
  | nil => exact iff_of_true rfl fun v hv => absurd hv List.not_mem_nil
  | cons v row ih =>
    obtain ⟨hv, hrow⟩ := List.forall_mem_cons.mp hfloat
    rw [rowsEqual_cons, valuesEqual_self hv, ih hrow]
    exact List.forall_mem_cons.symm

theorem selfEqual_of_plain {row : Row} (h : IsPlainRow row) : SelfEqual row :=
  (selfEqual_iff (noFloat_of_plain h)).mpr h

section All

variable {leftRows rightRows : List Row} (hleft : ∀ row ∈ leftRows, IsPlainRow row)
  (hright : ∀ row ∈ rightRows, IsPlainRow row)

include hleft hright

open scoped Classical in
/-- One left row of an INTERSECT ALL sets its own multiplicity and no other. -/
theorem count_intersectRow {result : List Row} (hresult : ∀ row ∈ result, row ∈ leftRows) {leftRow : Row}
    (hmem : leftRow ∈ leftRows) (row : Row) :
    (intersectRow true leftRows rightRows result leftRow).count row =
      if row = leftRow then min (leftRows.count row) (rightRows.count row) else result.count row := by
  have hself : SelfEqual leftRow := selfEqual_of_plain (hleft leftRow hmem)
  have hcountLeft := countRowOccurrences_eq (fun row h => noFloat_of_plain (hleft row h)) hself
  have hcountRight := countRowOccurrences_eq (fun row h => noFloat_of_plain (hright row h)) hself
  rw [intersectRow, if_pos rfl, List.count_append, List.count_replicate, hcountLeft, hcountRight]
  by_cases hrow : row = leftRow
  · subst hrow
    have hgone : (result.filter fun r => !rowsEqual r row).count row = 0 := by
      refine List.count_eq_zero.mpr fun hfilter => ?_
      have hnot := (List.mem_filter.mp hfilter).2
      rw [show rowsEqual row row = true from hself] at hnot
      cases hnot
    rw [hgone, if_pos rfl, if_pos (beq_self_eq_true row), Nat.zero_add]
  · have hkept : (result.filter fun r => !rowsEqual r leftRow).count row = result.count row := by
      by_cases hrowResult : row ∈ result
      · refine List.count_filter ?_
        have hnot : ¬ rowsEqual row leftRow = true := fun hequal =>
          hrow ((rowsEqual_eq_true (noFloat_of_plain (hleft row (hresult row hrowResult)))).mp hequal).1
        rw [Bool.eq_false_of_not_eq_true hnot]
        rfl
      · rw [List.count_eq_zero.mpr hrowResult, List.count_eq_zero]
        exact fun hfilter => hrowResult (List.mem_filter.mp hfilter).1
    have hother : ¬ (leftRow == row) = true := fun h => hrow (beq_iff_eq.mp h).symm
    rw [hkept, if_neg hrow, if_neg hother, Nat.add_zero]

open scoped Classical in
/-- The rows of INTERSECT ALL that were processed are there as often as they have to be, the others not. -/
theorem count_intersectAll (row : Row) : (performIntersect true leftRows rightRows).count row =
    min (leftRows.count row) (rightRows.count row) := by
  have hinv := foldl_prefix_induction (f := intersectRow true leftRows rightRows) (s := [])
    (I := fun pre result => (∀ row ∈ pre, row ∈ leftRows) → (∀ row ∈ result, row ∈ leftRows) ∧
      ∀ row, result.count row = if row ∈ pre then min (leftRows.count row) (rightRows.count row) else 0)
    (fun _ => ⟨fun _ h => absurd h List.not_mem_nil, fun row => by simp⟩) ?_ leftRows fun _ h => h
  · rw [performIntersect, hinv.2 row]
    split
    · rfl
    · next hrow => rw [List.count_eq_zero.mpr hrow, Nat.zero_min]
  · intro pre leftRow result ih hpre
    obtain ⟨hpre, hleftRow⟩ := List.forall_mem_append.mp hpre
    have hmem := hleftRow leftRow (List.mem_singleton_self _)
    obtain ⟨hresult, hcount⟩ := ih hpre
    have hstep := count_intersectRow hleft hright hresult hmem
    refine ⟨fun row hrow => ?_, fun row => ?_⟩
    · rw [← List.count_pos_iff, hstep] at hrow
      split at hrow
      · next heq => exact heq ▸ hmem
      · exact hresult row (List.count_pos_iff.mp hrow)
    · rw [hstep, hcount]
      simp only [List.mem_append, List.mem_singleton]
      split <;> simp_all

open scoped Classical in
theorem count_exceptRow {result : List Row} (hresult : ∀ row ∈ result, row ∈ leftRows) {leftRow : Row}
    (hmem : leftRow ∈ leftRows) (row : Row) :
    (exceptRow true leftRows rightRows result leftRow).count row =
      result.count row + if row = leftRow ∧ result.count row < leftRows.count row - rightRows.count row
        then 1 else 0 := by
  have hself : SelfEqual leftRow := selfEqual_of_plain (hleft leftRow hmem)
  have hcountLeft := countRowOccurrences_eq (fun row h => noFloat_of_plain (hleft row h)) hself
  have hcountRight := countRowOccurrences_eq (fun row h => noFloat_of_plain (hright row h)) hself
  have hcountResult := countRowOccurrences_eq
    (fun row h => noFloat_of_plain (hleft row (hresult row h))) hself
  have hadd : (result ++ [leftRow]).count row = result.count row + if row = leftRow then 1 else 0 := by
    rw [List.count_append, List.count_singleton]
    by_cases hrow : row = leftRow
    · rw [if_pos hrow, if_pos (beq_iff_eq.mpr hrow.symm)]
    · rw [if_neg hrow, if_neg fun h => hrow (beq_iff_eq.mp h).symm]
  simp only [exceptRow, if_pos, hcountLeft, hcountRight, hcountResult]
  split
  · split
    · rw [hadd]
      by_cases hrow : row = leftRow <;> simp_all
    · by_cases hrow : row = leftRow <;> simp_all
  · by_cases hrow : row = leftRow
    · subst hrow
      have hnone : ¬ result.count row < leftRows.count row - rightRows.count row := by omega
      simp [hnone]
    · simp [hrow]

open scoped Classical in
/-- EXCEPT ALL keeps as many of the processed copies of a row as may remain. -/
theorem count_exceptAll (row : Row) : (performExcept true leftRows rightRows).count row =
    leftRows.count row - rightRows.count row := by
  have hinv := foldl_prefix_induction (f := exceptRow true leftRows rightRows) (s := [])
    (I := fun pre result => (∀ row ∈ pre, row ∈ leftRows) → (∀ row ∈ result, row ∈ leftRows) ∧
      ∀ row, result.count row = min (pre.count row) (leftRows.count row - rightRows.count row))
    (fun _ => ⟨fun _ h => absurd h List.not_mem_nil, fun row => by simp⟩) ?_ leftRows fun _ h => h
  · rw [performExcept, hinv.2 row]
    exact min_eq_right (Nat.sub_le ..)
  · intro pre leftRow result ih hpre
    obtain ⟨hpre, hleftRow⟩ := List.forall_mem_append.mp hpre
    have hmem := hleftRow leftRow (List.mem_singleton_self _)
    obtain ⟨hresult, hcount⟩ := ih hpre
    have hstep := count_exceptRow hleft hright hresult hmem
    refine ⟨fun row hrow => ?_, fun row => ?_⟩
    · rw [← List.count_pos_iff, hstep] at hrow
      by_cases heq : row = leftRow
      · exact heq ▸ hmem
      · rw [if_neg fun h => heq h.1, Nat.add_zero] at hrow
        exact hresult row (List.count_pos_iff.mp hrow)
    · rw [hstep, hcount, List.count_append, List.count_singleton]
      by_cases heq : row = leftRow
      · subst heq
        simp only [true_and, beq_self_eq_true, if_true]
        split <;> omega
      · have hother : ¬ (leftRow == row) = true := fun h => heq (beq_iff_eq.mp h).symm
        rw [if_neg fun h => heq h.1, if_neg hother, Nat.add_zero, Nat.add_zero]

open scoped Classical in
/-- With ALL a row that is `m` times on the left and `n` times on the right is `m + n` times in the UNION,
`min m n` times in the INTERSECT and `m - n` times in the EXCEPT. -/
theorem count_setOperationAll (row : Row) :
    (perform .union true leftRows rightRows).count row = leftRows.count row + rightRows.count row ∧
    (perform .intersect true leftRows rightRows).count row =
      min (leftRows.count row) (rightRows.count row) ∧
    (perform .except true leftRows rightRows).count row = leftRows.count row - rightRows.count row :=
  ⟨List.count_append, count_intersectAll hleft hright row, count_exceptAll hleft hright row⟩

end All

open scoped Classical in
theorem count_setOperationAll_two :
    (perform .intersect true [[.integer 1], [.integer 1], [.null]] [[.integer 1], [.integer 2]]).count
      [.integer 1] = 1 := by
  have hplain : ∀ row ∈ ([[.integer 1], [.integer 1], [.null]] : List Row), IsPlainRow row := by
    simp [IsPlainRow, IsPlain]
  have hplain' : ∀ row ∈ ([[.integer 1], [.integer 2]] : List Row), IsPlainRow row := by
    simp [IsPlainRow, IsPlain]
  have hcount := (count_setOperationAll hplain hplain' [.integer 1]).2.1
  rw [hcount]
  simp

/-! ## Sets -/

/-- The rows that a set operation is to return -/
def resultSet (operator : SetOperator) (leftRows rightRows : List Row) : Set Row :=
  match operator with
  | .union => {row | row ∈ leftRows ∨ row ∈ rightRows}
  | .intersect => {row | row ∈ leftRows ∧ row ∈ rightRows}
  | .except => {row | row ∈ leftRows ∧ row ∉ rightRows}

/-- Without ALL, each row of the union, intersection or difference is returned exactly once, and no
other. -/
def YieldsSet (operator : SetOperator) (leftRows rightRows : List Row) : Prop :=
  (perform operator false leftRows rightRows).Nodup ∧
    ∀ row, row ∈ perform operator false leftRows rightRows ↔ row ∈ resultSet operator leftRows rightRows

/-- The rows with timestamps or lists in a list of rows are all different. -/
def DifferentUnlessPlain (rows : List Row) : Prop := rows.Pairwise fun a b => ¬ IsPlainRow a → a ≠ b

/-- The rows on the left of a UNION are all different, and those with timestamps or lists are not repeated
where the comparison would have to find them again. -/
def NeverRepeats (operator : SetOperator) (leftRows rightRows : List Row) : Prop :=
  match operator with
  | .union => leftRows.Nodup ∧ DifferentUnlessPlain rightRows ∧
    ∀ row ∈ rightRows, ¬ IsPlainRow row → row ∉ leftRows
  | .intersect => ∀ row ∈ leftRows, ¬ IsPlainRow row → row ∉ rightRows
  | .except => DifferentUnlessPlain leftRows ∧ ∀ row ∈ leftRows, ¬ IsPlainRow row → row ∉ rightRows

/-- Rows that are plain need not be looked at. -/
theorem differentUnlessPlain_filter {rows : List Row} {p : Row → Bool} (hp : ∀ row, ¬ IsPlainRow row → p row) :
    DifferentUnlessPlain (rows.filter p) ↔ DifferentUnlessPlain rows := by
  unfold DifferentUnlessPlain
  rw [List.pairwise_filter]
  refine List.Pairwise.iff fun a b => ⟨fun h hplain => ?_, fun h _ _ => h⟩
  rintro rfl
  exact h (hp a hplain) (hp a hplain) hplain rfl

theorem rowsContains_iff {rows : List Row} {target : Row} (hrows : ∀ row ∈ rows, NoFloat row) :
    rowsContains rows target = true ↔ target ∈ rows ∧ IsPlainRow target := by
  rw [rowsContains_eq_true hrows]
  exact and_congr_right fun hmem => selfEqual_iff (hrows target hmem)

/-! ### Adding new rows -/

/-- Add a row that is to be kept, if it is not there. -/
def addNew (keep : Row → Bool) (result : List Row) (row : Row) : List Row :=
  if keep row && !rowsContains result row then result ++ [row] else result

theorem unionRow_eq : unionRow = addNew fun _ => true := by
  funext result row
  rw [addNew, Bool.true_and]
  rfl

theorem intersectRow_eq (leftRows rightRows : List Row) :
    intersectRow false leftRows rightRows = addNew (rowsContains rightRows) := rfl

theorem exceptRow_eq (leftRows rightRows : List Row) :
    exceptRow false leftRows rightRows = addNew fun row => !rowsContains rightRows row := rfl

section AddNew

variable {keep : Row → Bool} {result rows : List Row} {row : Row}

/-- A row is added unless it is not kept or is found in the result. -/
theorem addNew_cases (hresult : ∀ row ∈ result, NoFloat row) (keep : Row → Bool) (row : Row) :
    (keep row = false ∧ addNew keep result row = result) ∨
    (keep row = true ∧ (row ∈ result ∧ IsPlainRow row) ∧ addNew keep result row = result) ∨
    (keep row = true ∧ ¬ (row ∈ result ∧ IsPlainRow row) ∧ addNew keep result row = result ++ [row]) := by
  unfold addNew
  rcases hkeep : keep row with - | -
  · exact .inl ⟨rfl, rfl⟩
  · rw [Bool.true_and, ← rowsContains_iff hresult]
    rcases hcontains : rowsContains result row with - | -
    · exact .inr (.inr ⟨rfl, Bool.false_ne_true, rfl⟩)
    · exact .inr (.inl ⟨rfl, rfl, rfl⟩)

theorem mem_addNew (hresult : ∀ row ∈ result, NoFloat row) {r : Row} :
    r ∈ addNew keep result row ↔ r ∈ result ∨ r = row ∧ keep row = true := by
  obtain ⟨hkeep, heq⟩ | ⟨hkeep, ⟨hthere, -⟩, heq⟩ | ⟨hkeep, -, heq⟩ := addNew_cases hresult keep row
  · rw [heq, hkeep]
    simp
  · rw [heq]
    refine ⟨.inl, fun h => h.elim id ?_⟩
    rintro ⟨rfl, -⟩
    exact hthere
  · rw [heq, List.mem_append, List.mem_singleton, hkeep]
    simp

/-- A row is repeated only if the comparison cannot find it. -/
theorem nodup_addNew (hresult : ∀ row ∈ result, NoFloat row) : (addNew keep result row).Nodup ↔
    result.Nodup ∧ (keep row = true → ¬ IsPlainRow row → row ∉ result) := by
  obtain ⟨hkeep, heq⟩ | ⟨-, ⟨-, hplain⟩, heq⟩ | ⟨hkeep, hnew, heq⟩ := addNew_cases hresult keep row
  · rw [heq, hkeep]
    simp
  · rw [heq]
    exact ⟨fun h => ⟨h, fun _ hnot => absurd hplain hnot⟩, And.left⟩
  · rw [heq, List.nodup_append_comm, List.singleton_append, List.nodup_cons, and_comm]
    refine and_congr_right fun _ => ⟨fun h _ _ => h, fun h hthere => ?_⟩
    by_cases hplain : IsPlainRow row
    · exact hnew ⟨hthere, hplain⟩
    · exact h hkeep hplain hthere

/-- The result has the rows it began with and those that are kept. -/
theorem mem_foldl_addNew (hresult : ∀ row ∈ result, NoFloat row) (hrows : ∀ row ∈ rows, NoFloat row) {r : Row} :
    r ∈ rows.foldl (addNew keep) result ↔ r ∈ result ∨ r ∈ rows.filter keep := by
  induction rows generalizing result with
  | nil => simp
  | cons row rows ih =>
    obtain ⟨hrow, hrows⟩ := List.forall_mem_cons.mp hrows
    have hadded : ∀ r ∈ addNew keep result row, NoFloat r := fun r hr =>
      ((mem_addNew hresult).mp hr).elim (hresult r) fun h => h.1 ▸ hrow
    rw [List.foldl_cons, ih hadded hrows, mem_addNew hresult, or_assoc]
    refine or_congr_right ?_
    rw [List.mem_filter, List.mem_filter, List.mem_cons, or_and_right]
    exact or_congr_left (and_congr_right fun h => by rw [h])

/-- The result repeats no row if it did not before and no kept row is repeated that the comparison cannot
find. -/
theorem nodup_foldl_addNew (hresult : ∀ row ∈ result, NoFloat row) (hrows : ∀ row ∈ rows, NoFloat row) :
    (rows.foldl (addNew keep) result).Nodup ↔ result.Nodup ∧ DifferentUnlessPlain (rows.filter keep) ∧
      ∀ row ∈ rows.filter keep, ¬ IsPlainRow row → row ∉ result := by
  induction rows generalizing result with
  | nil => simp [DifferentUnlessPlain]
  | cons row rows ih =>
    obtain ⟨hrow, hrows⟩ := List.forall_mem_cons.mp hrows
    have hadded : ∀ r ∈ addNew keep result row, NoFloat r := fun r hr =>
      ((mem_addNew hresult).mp hr).elim (hresult r) fun h => h.1 ▸ hrow
    rw [List.foldl_cons, ih hadded hrows, nodup_addNew hresult]
    simp only [mem_addNew hresult, not_or, not_and]
    by_cases hkeep : keep row
    · rw [List.filter_cons_of_pos hkeep, List.forall_mem_cons]
      simp only [hkeep, forall_const, not_true_eq_false, imp_false]
      unfold DifferentUnlessPlain
      rw [List.pairwise_cons]
      constructor
      · rintro ⟨⟨hnodup, hfirst⟩, hdifferent, hrest⟩
        refine ⟨hnodup, ⟨fun r hr hplain heq => ?_, hdifferent⟩, hfirst, fun r hr hplain => (hrest r hr hplain).1⟩
        exact (hrest r hr (heq ▸ hplain)).2 heq.symm
      · rintro ⟨hnodup, ⟨hother, hdifferent⟩, hfirst, hrest⟩
        refine ⟨⟨hnodup, hfirst⟩, hdifferent, fun r hr hplain => ⟨hrest r hr hplain, fun heq => ?_⟩⟩
        exact hother r hr (heq ▸ hplain) heq.symm
    · rw [List.filter_cons_of_neg hkeep]
      simp [hkeep]

end AddNew

section Sets

variable {leftRows rightRows : List Row} (hleft : ∀ row ∈ leftRows, NoFloat row)
  (hright : ∀ row ∈ rightRows, NoFloat row)

include hleft hright

/-- UNION has the rows of both sides, and repeats none if the left side does not and the right side has no
row that would have to be found again but cannot be. -/
theorem union_rows : (∀ row, row ∈ performUnion false leftRows rightRows ↔ row ∈ leftRows ∨ row ∈ rightRows) ∧
    ((performUnion false leftRows rightRows).Nodup ↔ leftRows.Nodup ∧ DifferentUnlessPlain rightRows ∧
      ∀ row ∈ rightRows, ¬ IsPlainRow row → row ∉ leftRows) := by
  have hunion : performUnion false leftRows rightRows = rightRows.foldl (addNew fun _ => true) leftRows := by
    rw [← unionRow_eq]
    rfl
  have hall : (rightRows.filter fun _ => true) = rightRows := List.filter_true _
  rw [hunion, nodup_foldl_addNew hleft hright, hall]
  refine ⟨fun row => ?_, Iff.rfl⟩
  rw [mem_foldl_addNew hleft hright, hall]

theorem intersect_rows : (performIntersect false leftRows rightRows).Nodup ∧
    ∀ row, row ∈ performIntersect false leftRows rightRows ↔
      row ∈ leftRows ∧ row ∈ rightRows ∧ IsPlainRow row := by
  have hnil : ∀ row ∈ ([] : List Row), NoFloat row := fun _ h => absurd h List.not_mem_nil
  rw [performIntersect, intersectRow_eq]
  constructor
  · -- a row that is kept is plain
    rw [nodup_foldl_addNew hnil hleft]
    refine ⟨List.nodup_nil, ?_, fun _ _ _ => List.not_mem_nil⟩
    refine List.pairwise_filter.mpr (List.pairwise_of_forall fun a b hkept _ hplain => ?_)
    exact absurd ((rowsContains_iff hright).mp hkept).2 hplain
  · intro row
    rw [mem_foldl_addNew hnil hleft, List.mem_filter, rowsContains_iff hright]
    simp

theorem except_rows :
    (∀ row, row ∈ performExcept false leftRows rightRows ↔
      row ∈ leftRows ∧ (row ∉ rightRows ∨ ¬ IsPlainRow row)) ∧
    ((performExcept false leftRows rightRows).Nodup ↔ DifferentUnlessPlain leftRows) := by
  have hnil : ∀ row ∈ ([] : List Row), NoFloat row := fun _ h => absurd h List.not_mem_nil
  have hkeep (row : Row) : (!rowsContains rightRows row) = true ↔ row ∉ rightRows ∨ ¬ IsPlainRow row := by
    rw [Bool.not_eq_true', ← Bool.not_eq_true, rowsContains_iff hright, not_and_or]
  rw [performExcept, exceptRow_eq]
  constructor
  · intro row
    rw [mem_foldl_addNew hnil hleft, List.mem_filter, hkeep]
    simp
  · -- a row that is not plain is kept
    rw [nodup_foldl_addNew hnil hleft,
      differentUnlessPlain_filter fun row hplain => (hkeep row).mpr (.inr hplain)]
    simp

/-- Without ALL, each row of the union, intersection or difference is returned exactly once and no other if
and only if the left rows of a UNION are all different and no row with a timestamp or a list is repeated
where it would have to be found again. -/
theorem yieldsSet_iff (operator : SetOperator) :
    YieldsSet operator leftRows rightRows ↔ NeverRepeats operator leftRows rightRows := by
  cases operator with
  | union =>
    obtain ⟨hmem, hnodup⟩ := union_rows hleft hright
    exact ⟨fun h => hnodup.mp h.1, fun h => ⟨hnodup.mpr h, hmem⟩⟩
  | intersect =>
    obtain ⟨hnodup, hmem⟩ := intersect_rows hleft hright
    constructor
    · rintro ⟨-, hset⟩ row hrow hplain hright'
      exact hplain ((hmem row).mp ((hset row).mpr ⟨hrow, hright'⟩)).2.2
    · refine fun h => ⟨hnodup, fun row => (hmem row).trans ⟨fun hrow => ⟨hrow.1, hrow.2.1⟩, ?_⟩⟩
      rintro ⟨hrow, hright'⟩
      exact ⟨hrow, hright', by_contra fun hplain => h row hrow hplain hright'⟩
  | except =>
    obtain ⟨hmem, hnodup⟩ := except_rows hleft hright
    constructor
    · rintro ⟨hresult, hset⟩
      refine ⟨hnodup.mp hresult, fun row hrow hplain => ?_⟩
      exact ((hset row).mp ((hmem row).mpr ⟨hrow, .inr hplain⟩)).2
    · rintro ⟨hdifferent, hkept⟩
      refine ⟨hnodup.mpr hdifferent, fun row => (hmem row).trans (and_congr_right fun hrow => ?_)⟩
      exact ⟨fun h => h.elim id (hkept row hrow), .inl⟩

end Sets

theorem yieldsSet_union_one : YieldsSet .union [[.integer 1]] [[.integer 1], [.null]] := by
  have hleft : ∀ row ∈ ([[.integer 1]] : List Row), NoFloat row := by simp [NoFloat]
  have hright : ∀ row ∈ ([[.integer 1], [.null]] : List Row), NoFloat row := by simp [NoFloat]
  refine (yieldsSet_iff hleft hright .union).mpr ⟨List.nodup_singleton _, ?_, ?_⟩
  · simp [DifferentUnlessPlain]
  · simp [IsPlainRow, IsPlain]

/-- A row that is twice on the left is twice in the UNION. -/
theorem union_keeps_left_copies : ¬ ∀ (operator : SetOperator) (leftRows rightRows : List Row),
    (∀ row ∈ leftRows, NoFloat row) → (∀ row ∈ rightRows, NoFloat row) →
      YieldsSet operator leftRows rightRows := by
  intro h
  have hrows : ∀ row ∈ ([[.integer 1], [.integer 1]] : List Row), NoFloat row := by simp [NoFloat]
  have hnodup := (h .union _ [] hrows fun row hrow => absurd hrow List.not_mem_nil).1
  have htwice : perform .union false [[.integer 1], [.integer 1]] [] = [[.integer 1], [.integer 1]] := rfl
  rw [htwice] at hnodup
  simp at hnodup

end SetOperationOperator

end Rustgresql
