import Rustgresql.Executor.Operators
import Rustgresql.Executor.Scanner

/-!
# ORDER BY

`sorts_iff`: the sort operator orders the rows as the items ask, unless an item asks for a place of the
NULLs and for descending order. Then the NULLs go to the other end, since the whole comparison is turned
around.
-/

namespace Rustgresql

open Sql (NullsPosition OrderBy SortDirection)

open StableSort

/-- A comparison in the direction of an item. -/
def directed (direction : SortDirection) (comparison : Ordering) : Ordering :=
  match direction with
  | .asc => comparison
  | .desc => comparison.swap

namespace SortOperator

variable {E : Type} (evaluate : Evaluator E) (columnNames : List String)

/-- Compare two rows by the items. If the evaluation of an item fails, its keys count as equal. -/
def compareRows : List (OrderBy E) → Row → Row → Ordering
  | [], _, _ => .eq
  | item :: orderBy, a, b =>
    match evaluate item.expr (createEvaluationContext columnNames a),
      evaluate item.expr (createEvaluationContext columnNames b) with
    | .ok v, .ok w =>
      let comparison := compareValues v w item.nulls
      if comparison ≠ .eq then directed item.direction comparison
      else compareRows orderBy a b
    | _, _ => compareRows orderBy a b

/-- Sort the rows of the input with the stable sort of the standard library. -/
def execute (sort : (Row → Row → Ordering) → List Row → Result (List Row)) (evaluate : Evaluator E)
    (orderBy : List (OrderBy E)) (input : Result QueryResult) : Result QueryResult := do
  let inputResult ← input
  -- If no rows or no order by clauses, return as-is
  if inputResult.rows.isEmpty || orderBy.isEmpty then return inputResult
  let rows ← sort (compareRows evaluate inputResult.columnNames orderBy) inputResult.rows
  return { inputResult with rows }

/-! ## What the items ask for -/

/-- The order of two keys. NULLs are first or last in both directions if the item says so. -/
def keyOrder (direction : SortDirection) (nulls : NullsPosition) : Value → Value → Ordering
  | .null, .null => .eq
  | .null, _ =>
    match nulls with
    | .first => .lt
    | .last => .gt
    | .default => directed direction .lt
  | _, .null =>
    match nulls with
    | .first => .gt
    | .last => .lt
    | .default => directed direction .gt
  | v, w => directed direction (compareValues v w nulls)

/-- The order of two rows by one item. Without keys there is none. -/
def itemOrder (item : OrderBy E) (a b : Row) : Ordering :=
  match evaluate item.expr (createEvaluationContext columnNames a),
    evaluate item.expr (createEvaluationContext columnNames b) with
  | .ok v, .ok w => keyOrder item.direction item.nulls v w
  | _, _ => .eq

/-- The order of two rows by all items. -/
def rowOrder : List (OrderBy E) → Row → Row → Ordering
  | [], _, _ => .eq
  | item :: orderBy, a, b => (itemOrder evaluate columnNames item a b).then (rowOrder orderBy a b)

/-- Two keys of an item with a place for NULLs and descending order, one of which is NULL -/
def IsMisplaced (item : OrderBy E) (v w : Value) : Prop :=
  item.direction = .desc ∧ item.nulls ≠ .default ∧ v.isNull ≠ w.isNull

instance (item : OrderBy E) (v w : Value) : Decidable (IsMisplaced item v w) :=
  inferInstanceAs (Decidable (_ ∧ _ ∧ _))

/-- The first item that tells two rows apart is descending, has a place for NULLs, and one of the keys is
NULL. -/
def Misplaces : List (OrderBy E) → Row → Row → Prop
  | [], _, _ => False
  | item :: orderBy, a, b =>
    match evaluate item.expr (createEvaluationContext columnNames a),
      evaluate item.expr (createEvaluationContext columnNames b) with
    | .ok v, .ok w =>
      if keyOrder item.direction item.nulls v w = .eq then Misplaces orderBy a b else IsMisplaced item v w
    | _, _ => Misplaces orderBy a b

/-- The place of the NULLs before the comparison is turned around. -/
def placement : SortDirection → NullsPosition → NullsPosition
  | .desc, .first => .last
  | .desc, .last => .first
  | _, nulls => nulls

theorem keyOrder_eq (direction : SortDirection) (nulls : NullsPosition) (v w : Value) :
    keyOrder direction nulls v w = directed direction (compareValues v w (placement direction nulls)) := by
  cases v <;> cases w <;> cases direction <;> cases nulls <;> rfl

theorem directed_swap (direction : SortDirection) (comparison : Ordering) :
    directed direction comparison.swap = (directed direction comparison).swap := by
  cases direction <;> rfl

/-- The keys of an item are compared the wrong way round if they are misplaced. -/
theorem directed_compareValues (item : OrderBy E) (v w : Value) :
    directed item.direction (compareValues v w item.nulls) =
      if IsMisplaced item v w then (keyOrder item.direction item.nulls v w).swap
      else keyOrder item.direction item.nulls v w := by
  obtain ⟨expr, direction, nulls⟩ := item
  cases v <;> cases w <;> cases direction <;> cases nulls <;> rfl

theorem directed_eq_eq {direction : SortDirection} {comparison : Ordering} :
    directed direction comparison = .eq ↔ comparison = .eq := by
  cases direction
  · exact Iff.rfl
  · exact Ordering.swap_eq_eq

theorem isOrderOn_directed {α : Type} {cmp : α → α → Ordering} {l : List α} (direction : SortDirection)
    (h : IsOrderOn cmp l) : IsOrderOn (fun a b => directed direction (cmp a b)) l := by
  cases direction
  · exact h
  · exact h.swapped

/-- The order that was asked for tells the same keys apart. -/
theorem keyOrder_eq_eq {item : OrderBy E} {v w : Value} :
    keyOrder item.direction item.nulls v w = .eq ↔ compareValues v w item.nulls = .eq := by
  have hdirected : directed item.direction (compareValues v w item.nulls) = .eq ↔
      compareValues v w item.nulls = .eq := directed_eq_eq
  rw [← hdirected, directed_compareValues]
  split
  · exact Ordering.swap_eq_eq.symm
  · exact Iff.rfl

section Rows

variable {evaluate columnNames}

theorem itemOrder_swap (item : OrderBy E) (a b : Row) :
    itemOrder evaluate columnNames item b a = (itemOrder evaluate columnNames item a b).swap := by
  unfold itemOrder
  rcases evaluate item.expr (createEvaluationContext columnNames a) with - | v <;>
    rcases evaluate item.expr (createEvaluationContext columnNames b) with - | w
  case ok.ok =>
    show keyOrder item.direction item.nulls w v = (keyOrder item.direction item.nulls v w).swap
    rw [keyOrder_eq, keyOrder_eq, compareValues_swap v w, directed_swap]
  all_goals rfl

theorem rowOrder_swap (orderBy : List (OrderBy E)) (a b : Row) :
    rowOrder evaluate columnNames orderBy b a = (rowOrder evaluate columnNames orderBy a b).swap := by
  induction orderBy with
  | nil => rfl
  | cons item orderBy ih => rw [rowOrder, rowOrder, itemOrder_swap, ih, Ordering.swap_then]

/-- The rows are compared the wrong way round if they are misplaced. -/
theorem compareRows_eq (orderBy : List (OrderBy E)) (a b : Row) :
    (Misplaces evaluate columnNames orderBy a b ∧ rowOrder evaluate columnNames orderBy a b ≠ .eq ∧
      compareRows evaluate columnNames orderBy a b = (rowOrder evaluate columnNames orderBy a b).swap) ∨
    (¬ Misplaces evaluate columnNames orderBy a b ∧
      compareRows evaluate columnNames orderBy a b = rowOrder evaluate columnNames orderBy a b) := by
  induction orderBy with
  | nil => exact .inr ⟨id, rfl⟩
  | cons item orderBy ih =>
    unfold compareRows rowOrder Misplaces itemOrder
    rcases evaluate item.expr (createEvaluationContext columnNames a) with - | v <;>
      rcases evaluate item.expr (createEvaluationContext columnNames b) with - | w
    case ok.ok =>
      by_cases hkey : keyOrder item.direction item.nulls v w = .eq
      · -- the item does not tell the rows apart
        simpa [hkey, keyOrder_eq_eq.mp hkey] using ih
      · have hne := mt keyOrder_eq_eq.mpr hkey
        have hthen (o : Ordering) : (keyOrder item.direction item.nulls v w).then o =
            keyOrder item.direction item.nulls v w := by
          cases hk : keyOrder item.direction item.nulls v w <;> first | rfl | exact absurd hk hkey
        simp only [hkey, hne, hthen, ne_eq, not_false_eq_true, if_true, if_false,
          directed_compareValues]
        by_cases hmisplaced : IsMisplaced item v w
        · exact .inl ⟨hmisplaced, trivial, if_pos hmisplaced⟩
        · exact .inr ⟨hmisplaced, if_neg hmisplaced⟩
    all_goals simpa using ih

end Rows

/-! ## Sorting -/

/-- The rows of the input are returned in the order that the items ask for. -/
def Honours (sort : (Row → Row → Ordering) → List Row → Result (List Row)) (evaluate : Evaluator E)
    (orderBy : List (OrderBy E)) (input : QueryResult) : Prop :=
  ∃ rows, execute sort evaluate orderBy (.ok input) = .ok { input with rows } ∧
    StablySorted (rowOrder evaluate input.columnNames orderBy) input.rows rows

section Sorting

variable {evaluate} {orderBy : List (OrderBy E)} {input : QueryResult}
  {sort : (Row → Row → Ordering) → List Row → Result (List Row)}

theorem execute_ok : execute sort evaluate orderBy (.ok input) =
    if input.rows.isEmpty || orderBy.isEmpty then .ok input
    else (sort (compareRows evaluate input.columnNames orderBy) input.rows).map
      fun rows => { input with rows } := by
  by_cases hempty : (input.rows.isEmpty || orderBy.isEmpty) = true
  · rw [if_pos hempty]
    exact if_pos hempty
  · rw [if_neg hempty]
    refine (if_neg hempty).trans ?_
    rcases sort (compareRows evaluate input.columnNames orderBy) input.rows with - | rows <;> rfl

/-- If no rows are misplaced, they are sorted as the items ask. -/
theorem honours_of_placed (hsort : IsStableSort sort)
    (horder : IsOrderOn (rowOrder evaluate input.columnNames orderBy) input.rows)
    (h : ∀ a ∈ input.rows, ∀ b ∈ input.rows, ¬ Misplaces evaluate input.columnNames orderBy a b) :
    Honours sort evaluate orderBy input := by
  have heq : ∀ a ∈ input.rows, ∀ b ∈ input.rows, compareRows evaluate input.columnNames orderBy a b =
      rowOrder evaluate input.columnNames orderBy a b := by
    intro a ha b hb
    rcases compareRows_eq orderBy a b with hab | hab
    · exact absurd hab.1 (h a ha b hb)
    · exact hab.2
  obtain ⟨rows, hrows, hsorted⟩ := hsort.sorts _ _ (horder.congr heq)
  unfold Honours
  rw [execute_ok]
  split
  · next hempty =>
    refine ⟨input.rows, rfl, stablySorted_self fun a ha b hb => ?_⟩
    rw [Bool.or_eq_true, List.isEmpty_iff, List.isEmpty_iff] at hempty
    rcases hempty with hnone | rfl
    · rw [hnone] at ha
      cases ha
    · rfl
  · exact ⟨rows, by rw [hrows]; rfl, hsorted.congr fun a ha b hb => (heq a ha b hb).symm⟩

/-- Rows that a sort has brought into the right order were compared the right way round. -/
theorem placed_of_sorted {rows : List Row}
    (hcompare : IsOrderOn (compareRows evaluate input.columnNames orderBy) input.rows)
    (hsorted : StablySorted (compareRows evaluate input.columnNames orderBy) input.rows rows)
    (horder : StablySorted (rowOrder evaluate input.columnNames orderBy) input.rows rows) {a b : Row}
    (ha : a ∈ input.rows) (hb : b ∈ input.rows) : ¬ Misplaces evaluate input.columnNames orderBy a b := by
  intro hmisplaced
  rcases compareRows_eq orderBy a b with ⟨-, hne, hcmp⟩ | ⟨hplaced, -⟩
  · have hba := hcompare.swap a ha b hb
    have hba' : rowOrder evaluate input.columnNames orderBy b a =
        (rowOrder evaluate input.columnNames orderBy a b).swap := rowOrder_swap orderBy a b
    rw [hcmp] at hba
    have hordered := eq_or_ordered hsorted.sorted horder.sorted (hsorted.perm.mem_iff.mpr ha)
      (hsorted.perm.mem_iff.mpr hb)
    rw [hcmp, hba, hba'] at hordered
    rcases hordered with rfl | hordered
    · refine hne ?_
      revert hba'
      cases rowOrder evaluate input.columnNames orderBy a a <;> simp
    · revert hne hordered
      cases rowOrder evaluate input.columnNames orderBy a b <;> simp
  · exact hplaced hmisplaced

/-- The items order the rows if every key can be evaluated and is none of the floating-point numbers that
are not numbers. -/
theorem isOrderOn_rowOrder {columnNames : List String} {rows : List Row}
    (h : ∀ item ∈ orderBy, ∀ row ∈ rows, ∃ v,
      evaluate item.expr (createEvaluationContext columnNames row) = .ok v ∧ ¬ v.IsNaN) :
    IsOrderOn (rowOrder evaluate columnNames orderBy) rows := by
  induction orderBy with
  | nil => exact isOrderOn_eq rows
  | cons item orderBy ih =>
    obtain ⟨hitem, hitems⟩ := List.forall_mem_cons.mp h
    refine IsOrderOn.lexicographic ?_ (ih hitems)
    let key : Row → Value := fun row =>
      (evaluate item.expr (createEvaluationContext columnNames row)).toOption.getD .null
    have hkey : ∀ row ∈ rows, evaluate item.expr (createEvaluationContext columnNames row) =
        .ok (key row) ∧ ¬ (key row).IsNaN := by
      intro row hrow
      obtain ⟨v, hv, hnumber⟩ := hitem row hrow
      have hvalue : key row = v := by simp only [key, hv]; rfl
      rw [hvalue]
      exact ⟨hv, hnumber⟩
    have hnumbers : ∀ v ∈ rows.map key, ¬ v.IsNaN :=
      List.forall_mem_map.mpr fun row hrow => (hkey row hrow).2
    have hvalues := isOrderOn_compareValues hnumbers (placement item.direction item.nulls)
    refine (isOrderOn_directed item.direction hvalues.comap).congr fun a ha b hb => ?_
    rw [itemOrder, (hkey a ha).1, (hkey b hb).1, ← keyOrder_eq]

/-- What the strict sort brings into the right order is in order, and compared the right way round. -/
theorem placed_of_honours {e : Failure} (h : Honours (strictSort e) evaluate orderBy input) :
    IsOrderOn (rowOrder evaluate input.columnNames orderBy) input.rows ∧
      ∀ a ∈ input.rows, ∀ b ∈ input.rows, ¬ Misplaces evaluate input.columnNames orderBy a b := by
  obtain ⟨rows, hrows, hordered⟩ := h
  rw [execute_ok] at hrows
  split at hrows
  · next hempty =>
    rw [Bool.or_eq_true, List.isEmpty_iff, List.isEmpty_iff] at hempty
    rcases hempty with hnone | rfl
    · rw [hnone]
      exact ⟨⟨nofun, nofun⟩, nofun⟩
    · exact ⟨isOrderOn_eq input.rows, fun _ _ _ _ => id⟩
  · rcases hsort : strictSort e (compareRows evaluate input.columnNames orderBy) input.rows with e' | rows'
    · rw [hsort] at hrows
      cases hrows
    · rw [hsort] at hrows
      cases hrows
      obtain ⟨horder, hsorted⟩ := stablySorted_of_strictSort hsort
      have hplaced : ∀ a ∈ input.rows, ∀ b ∈ input.rows,
          ¬ Misplaces evaluate input.columnNames orderBy a b :=
        fun a ha b hb => placed_of_sorted horder hsorted hordered ha hb
      refine ⟨horder.congr fun a ha b hb => ?_, hplaced⟩
      rcases compareRows_eq orderBy a b with hab | hab
      · exact absurd hab.1 (hplaced a ha b hb)
      · exact hab.2.symm

/-- The rows are returned in the order that the items ask for if and only if that is an order on the rows
and for no two rows the first item that tells them apart is descending with a place for NULLs and has
one NULL key. -/
theorem honours_iff (evaluate : Evaluator E) (orderBy : List (OrderBy E)) (input : QueryResult) :
    (∀ sort, IsStableSort sort → Honours sort evaluate orderBy input) ↔
      IsOrderOn (rowOrder evaluate input.columnNames orderBy) input.rows ∧
        ∀ a ∈ input.rows, ∀ b ∈ input.rows, ¬ Misplaces evaluate input.columnNames orderBy a b := by
  constructor
  · intro h
    exact placed_of_honours (h _ (isStableSort_strictSort (.panic "not a total order")))
  · rintro ⟨horder, hplaced⟩ sort hsort
    exact honours_of_placed hsort horder hplaced

end Sorting

/-- A NULL is last under DESC NULLS FIRST. -/
theorem nulls_first_is_last : ¬ ∀ (E : Type) (evaluate : Evaluator E) (orderBy : List (OrderBy E))
    (input : QueryResult) (sort : (Row → Row → Ordering) → List Row → Result (List Row)),
    IsStableSort sort → Honours sort evaluate orderBy input := by
  intro h
  let evaluate : Evaluator String := fun column context => .ok ((context.lookup column).getD .null)
  have hhonours := h String evaluate [⟨"a", .desc, .first⟩] ⟨[[.null], [.integer 1]], ["a"]⟩ _
    (isStableSort_strictSort (.panic "not a total order"))
  refine (placed_of_honours hhonours).2 [.null] (by simp) [.integer 1] (by simp) ?_
  exact ⟨rfl, by decide, by decide⟩

end SortOperator

end Rustgresql
