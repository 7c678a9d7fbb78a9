import Rustgresql.Executor.HashJoin

/-!
# Merge joins

The merge join walks through both sorted sides and joins runs of rows with the same key. Before it joins
two runs, it joins their first rows: `sameRows_iff`.
-/

namespace Rustgresql

open Sql (JoinType)

open ExpressionEvaluator (Operations)

open StableSort

open JoinOperator (keepRows keepRows_of_ok ok_of_keepRows holds pairRows)

variable {S : Type}

/-- Merge join operator -/
structure MergeJoinOperator (S : Type) where
  condition : Option (Expression S)
  joinType : JoinType
  /-- Columns to sort on for merge join -/
  sortColumns : List String

namespace MergeJoinOperator

/-- Compare two rows by the columns that both have. -/
def compareRows (leftColumns rightColumns : List String) : List String → Row → Row → Ordering
  | [], _, _ => .eq
  | columnName :: sortColumns, leftRow, rightRow =>
    match (leftColumns.findIdx? (· = columnName)).bind (leftRow[·]?),
      (rightColumns.findIdx? (· = columnName)).bind (rightRow[·]?) with
    | some v, some w =>
      let comparison := compareValues v w .default
      if comparison ≠ .eq then comparison else compareRows leftColumns rightColumns sortColumns leftRow rightRow
    | _, _ => compareRows leftColumns rightColumns sortColumns leftRow rightRow

/-- Compare two rows of one side at the indices of the sort columns. -/
def compareAt : List ℕ → Row → Row → Ordering
  | [], _, _ => .eq
  | i :: indices, a, b =>
    match a[i]?, b[i]? with
    | some v, some w =>
      let comparison := compareValues v w .default
      if comparison ≠ .eq then comparison else compareAt indices a b
    | _, _ => compareAt indices a b

def sortInput (sort : (Row → Row → Ordering) → List Row → Result (List Row)) (sortColumns : List String)
    (input : QueryResult) : Result (List Row) :=
  let sortIndices := sortColumns.filterMap fun columnName => input.columnNames.findIdx? (· = columnName)
  -- No valid sort columns found
  if sortIndices.isEmpty then .ok input.rows else sort (compareAt sortIndices) input.rows

def evaluateJoinCondition (ops : Operations S) (op : MergeJoinOperator S)
    (leftColumns rightColumns : List String) (leftRow rightRow : Row) : Result Bool :=
  evaluateCombined ops op.condition leftColumns rightColumns leftRow rightRow

/-- Join a row with those that satisfy the condition. -/
def joinRow (condition : Row → Row → Result Bool) (rightRows : List Row) (leftRow : Row) :
    Result (List Row) := do
  let kept ← keepRows (condition leftRow) rightRows
  return kept.map (leftRow ++ ·)

/-- Join all rows of two runs. -/
def joinRuns (condition : Row → Row → Result Bool) (leftRows rightRows : List Row) : Result (List Row) := do
  let joined ← leftRows.mapM (joinRow condition rightRows)
  return joined.flatten

theorem compareRows_self (columns sortColumns : List String) (row : Row) :
    compareRows columns columns sortColumns row row = .eq := by
  induction sortColumns with
  | nil => rfl
  | cons columnName sortColumns ih =>
    rw [compareRows]
    rcases (columns.findIdx? (· = columnName)).bind (row[·]?) with - | v
    · exact ih
    · have hself : compareValues v v .default = .eq := by
        have hswap := compareValues_swap v v .default
        revert hswap
        cases compareValues v v .default <;> simp
      simp [hself, ih]

/-- Whether a row of one side has the same key as another. -/
def sameKey (columns sortColumns : List String) (row row' : Row) : Bool :=
  compareRows columns columns sortColumns row' row = .eq

theorem length_dropWhile_sameKey (columns sortColumns : List String) (row : Row) (rows : List Row) :
    ((row :: rows).dropWhile (sameKey columns sortColumns row)).length ≤ rows.length := by
  have hself : sameKey columns sortColumns row row = true := decide_eq_true (compareRows_self ..)
  rw [List.dropWhile_cons_of_pos hself]
  exact (List.dropWhile_sublist _).length_le

/-- Walk through the rows that are left on both sides. -/
def merge (condition : Row → Row → Result Bool) (leftColumns rightColumns sortColumns : List String) :
    List Row → List Row → Result (List Row)
  | left :: lefts, right :: rights =>
    match compareRows leftColumns rightColumns sortColumns left right with
    | .eq => do
      -- Rows match - check full join condition if present
      let joined ← joinRow condition [right] left
      let sameLeft := sameKey leftColumns sortColumns left
      let sameRight := sameKey rightColumns sortColumns right
      -- Generate all combinations of matching rows
      let pairs ← joinRuns condition ((left :: lefts).takeWhile sameLeft) ((right :: rights).takeWhile sameRight)
      let rest ← merge condition leftColumns rightColumns sortColumns ((left :: lefts).dropWhile sameLeft)
        ((right :: rights).dropWhile sameRight)
      return joined ++ pairs ++ rest
    | .lt => merge condition leftColumns rightColumns sortColumns lefts (right :: rights)
    | .gt => merge condition leftColumns rightColumns sortColumns (left :: lefts) rights
  | _, _ => .ok []
termination_by lefts rights => lefts.length + rights.length
decreasing_by
  · have hleft := length_dropWhile_sameKey leftColumns sortColumns left lefts
    have hright := length_dropWhile_sameKey rightColumns sortColumns right rights
    simp only [List.length_cons]
    omega
  · simp
  · simp

def execute (sort : (Row → Row → Ordering) → List Row → Result (List Row)) (ops : Operations S)
    (op : MergeJoinOperator S) (left right : Result QueryResult) : Result QueryResult := do
  let leftResult ← left
  let rightResult ← right
  -- Sort both inputs on the merge key
  let leftRows ← sortInput sort op.sortColumns leftResult
  let rightRows ← sortInput sort op.sortColumns rightResult
  let rows ← merge (op.evaluateJoinCondition ops leftResult.columnNames rightResult.columnNames)
    leftResult.columnNames rightResult.columnNames op.sortColumns leftRows rightRows
  return { rows, columnNames := leftResult.columnNames ++ rightResult.columnNames }

/-! ## Keys -/

/-- Compare rows of both sides. -/
def compareSides (leftColumns rightColumns sortColumns : List String) : Row ⊕ Row → Row ⊕ Row → Ordering
  | .inl a, .inl b => compareRows leftColumns leftColumns sortColumns a b
  | .inl a, .inr b => compareRows leftColumns rightColumns sortColumns a b
  | .inr a, .inl b => compareRows rightColumns leftColumns sortColumns a b
  | .inr a, .inr b => compareRows rightColumns rightColumns sortColumns a b

/-- The rows of both sides together are ordered by their keys. -/
def KeysOrdered (sortColumns : List String) (left right : QueryResult) : Prop :=
  IsOrderOn (compareSides left.columnNames right.columnNames sortColumns)
    (left.rows.map .inl ++ right.rows.map .inr)

/-- The value that a row has in a sort column. -/
def keyValue (columns : List String) (columnName : String) (row : Row) : Option Value :=
  (columns.findIdx? (· = columnName)).bind (row[·]?)

theorem compareRows_cons {leftColumns rightColumns sortColumns : List String} {columnName : String}
    {leftRow rightRow : Row} {v w : Value} (hv : keyValue leftColumns columnName leftRow = some v)
    (hw : keyValue rightColumns columnName rightRow = some w) :
    compareRows leftColumns rightColumns (columnName :: sortColumns) leftRow rightRow =
      (compareValues v w .default).then (compareRows leftColumns rightColumns sortColumns leftRow rightRow) := by
  unfold keyValue at hv hw
  rw [compareRows, hv, hw]
  rcases hcmp : compareValues v w .default <;> simp [hcmp]

/-- The rows of both sides are ordered if all of them have values in the sort columns, and these can be
compared. -/
theorem keysOrdered_of_values {sortColumns : List String} {left right : QueryResult}
    (hleft : ∀ columnName ∈ sortColumns, ∀ row ∈ left.rows,
      ∃ v, keyValue left.columnNames columnName row = some v ∧ ¬ v.IsNaN)
    (hright : ∀ columnName ∈ sortColumns, ∀ row ∈ right.rows,
      ∃ v, keyValue right.columnNames columnName row = some v ∧ ¬ v.IsNaN) :
    KeysOrdered sortColumns left right := by
  unfold KeysOrdered
  induction sortColumns with
  | nil => exact (isOrderOn_eq _).congr fun a _ b _ => by cases a <;> cases b <;> rfl
  | cons columnName sortColumns ih =>
    obtain ⟨hleft, hlefts⟩ := List.forall_mem_cons.mp hleft
    obtain ⟨hright, hrights⟩ := List.forall_mem_cons.mp hright
    let value : Row ⊕ Row → Option Value :=
      Sum.elim (keyValue left.columnNames columnName) (keyValue right.columnNames columnName)
    have hvalue : ∀ a ∈ (left.rows.map .inl ++ right.rows.map .inr : List (Row ⊕ Row)),
        ∃ v, value a = some v ∧ ¬ v.IsNaN := by
      intro a ha
      rcases List.mem_append.mp ha with ha | ha
      · obtain ⟨row, hrow, rfl⟩ := List.mem_map.mp ha
        exact hleft row hrow
      · obtain ⟨row, hrow, rfl⟩ := List.mem_map.mp ha
        exact hright row hrow
    have hcolumn : IsOrderOn (fun a b => compareValues ((value a).getD .null) ((value b).getD .null) .default)
        (left.rows.map .inl ++ right.rows.map .inr) := by
      refine isOrderOn_of_key (fun a => ((value a).getD .null).sortKey .default) fun a ha b hb => ?_
      obtain ⟨v, hv, hnan⟩ := hvalue a ha
      obtain ⟨w, hw, hnan'⟩ := hvalue b hb
      simp only [hv, hw, Option.getD_some]
      exact compareValues_eq hnan hnan' .default
    refine (hcolumn.lexicographic (ih hlefts hrights)).congr fun a ha b hb => ?_
    obtain ⟨v, hv, -⟩ := hvalue a ha
    obtain ⟨w, hw, -⟩ := hvalue b hb
    simp only [hv, hw, Option.getD_some]
    cases a <;> cases b <;> exact compareRows_cons hv hw

theorem compareAt_eq (columns sortColumns : List String) (a b : Row) :
    compareAt (sortColumns.filterMap fun columnName => columns.findIdx? (· = columnName)) a b =
      compareRows columns columns sortColumns a b := by
  induction sortColumns with
  | nil => rfl
  | cons columnName sortColumns ih =>
    rw [compareRows, List.filterMap_cons]
    rcases columns.findIdx? (· = columnName) with - | i
    · exact ih
    · rw [compareAt, ih]
      rfl

/-! ## The walk -/

section Walk

variable {condition : Row → Row → Result Bool} {M : Row → Row → Bool}
  {leftColumns rightColumns sortColumns : List String} {left right : Row} {lefts rights : List Row}

theorem joinRow_of_ok {rightRows : List Row} (h : ∀ right ∈ rightRows, condition left right = .ok (M left right)) :
    joinRow condition rightRows left = .ok ((rightRows.filter (M left)).map (left ++ ·)) := by
  rw [joinRow, keepRows_of_ok h]
  rfl

theorem joinRuns_of_ok {leftRows rightRows : List Row}
    (h : ∀ left ∈ leftRows, ∀ right ∈ rightRows, condition left right = .ok (M left right)) :
    joinRuns condition leftRows rightRows = .ok (pairRows M leftRows rightRows) := by
  have hjoined : leftRows.mapM (joinRow condition rightRows) =
      .ok (leftRows.map fun left => (rightRows.filter (M left)).map (left ++ ·)) := by
    induction leftRows with
    | nil => rfl
    | cons left leftRows ih =>
      obtain ⟨hleft, hlefts⟩ := List.forall_mem_cons.mp h
      rw [List.mapM_cons, joinRow_of_ok hleft, ih hlefts]
      rfl
  rw [joinRuns, hjoined]
  rfl

theorem merge_of_eq (h : compareRows leftColumns rightColumns sortColumns left right = .eq) :
    merge condition leftColumns rightColumns sortColumns (left :: lefts) (right :: rights) = do
      let joined ← joinRow condition [right] left
      let pairs ← joinRuns condition ((left :: lefts).takeWhile (sameKey leftColumns sortColumns left))
        ((right :: rights).takeWhile (sameKey rightColumns sortColumns right))
      let rest ← merge condition leftColumns rightColumns sortColumns
        ((left :: lefts).dropWhile (sameKey leftColumns sortColumns left))
        ((right :: rights).dropWhile (sameKey rightColumns sortColumns right))
      return joined ++ pairs ++ rest := by
  rw [merge]
  simp only [h]

theorem merge_of_lt (h : compareRows leftColumns rightColumns sortColumns left right = .lt) :
    merge condition leftColumns rightColumns sortColumns (left :: lefts) (right :: rights) =
      merge condition leftColumns rightColumns sortColumns lefts (right :: rights) := by
  rw [merge]
  simp only [h]

theorem merge_of_gt (h : compareRows leftColumns rightColumns sortColumns left right = .gt) :
    merge condition leftColumns rightColumns sortColumns (left :: lefts) (right :: rights) =
      merge condition leftColumns rightColumns sortColumns (left :: lefts) rights := by
  rw [merge]
  simp only [h]

/-- Two sorted sides, on which the walk stands. -/
structure Walking (leftColumns rightColumns sortColumns : List String) (lefts rights : List Row) : Prop where
  order : IsOrderOn (compareSides leftColumns rightColumns sortColumns) (lefts.map .inl ++ rights.map .inr)
  left : lefts.Pairwise fun a b => compareRows leftColumns leftColumns sortColumns a b ≠ .gt
  right : rights.Pairwise fun a b => compareRows rightColumns rightColumns sortColumns a b ≠ .gt

theorem Walking.mono {lefts' rights' : List Row} (h : Walking leftColumns rightColumns sortColumns lefts rights)
    (hleft : lefts'.Sublist lefts) (hright : rights'.Sublist rights) :
    Walking leftColumns rightColumns sortColumns lefts' rights' := by
  refine ⟨h.order.mono fun a ha => ?_, h.left.sublist hleft, h.right.sublist hright⟩
  exact ((hleft.map _).append (hright.map _)).subset ha

theorem inl_mem (hleft : left ∈ lefts) : .inl left ∈ (lefts.map .inl ++ rights.map .inr : List (Row ⊕ Row)) :=
  List.mem_append_left _ (List.mem_map_of_mem hleft)

theorem inr_mem (hright : right ∈ rights) : .inr right ∈ (lefts.map .inl ++ rights.map .inr : List (Row ⊕ Row)) :=
  List.mem_append_right _ (List.mem_map_of_mem hright)

namespace Walking

variable (h : Walking leftColumns rightColumns sortColumns lefts rights)

include h

theorem left_order : IsOrderOn (compareRows leftColumns leftColumns sortColumns) lefts :=
  (h.order.mono fun _ ha => List.mem_append_left _ ha).comap

theorem right_order : IsOrderOn (compareRows rightColumns rightColumns sortColumns) rights :=
  (h.order.mono fun _ ha => List.mem_append_right _ ha).comap

/-- A left row that is less than a right row is less than the right rows after it. -/
theorem lt_of_lt {right' : Row} (hleft : left ∈ lefts) (hright : right ∈ rights) (hright' : right' ∈ rights)
    (hlt : compareRows leftColumns rightColumns sortColumns left right = .lt)
    (hle : compareRows rightColumns rightColumns sortColumns right right' ≠ .gt) :
    compareRows leftColumns rightColumns sortColumns left right' = .lt :=
  h.order.lt_of_lt_of_le (inl_mem hleft) (inr_mem hright) (inr_mem hright') hlt hle

/-- A right row that is less than a left row is less than the left rows after it. -/
theorem gt_of_gt {left' : Row} (hleft : left ∈ lefts) (hleft' : left' ∈ lefts) (hright : right ∈ rights)
    (hgt : compareRows leftColumns rightColumns sortColumns left right = .gt)
    (hle : compareRows leftColumns leftColumns sortColumns left left' ≠ .gt) :
    compareRows leftColumns rightColumns sortColumns left' right = .gt := by
  have hswap := h.order.swap _ (inl_mem hleft) _ (inr_mem hright)
  have hswap' := h.order.swap _ (inl_mem hleft') _ (inr_mem hright)
  have hlt : compareSides leftColumns rightColumns sortColumns (.inr right) (.inl left) = .lt := by
    rw [hswap]
    exact congrArg Ordering.swap hgt
  rw [h.order.lt_of_lt_of_le (inr_mem hright) (inl_mem hleft) (inl_mem hleft') hlt hle] at hswap'
  exact (Ordering.swap_eq_lt.mp hswap'.symm)

/-- Rows with the keys of two rows compare like these. -/
theorem congr {left' right' : Row} (hleft : left ∈ lefts) (hleft' : left' ∈ lefts) (hright : right ∈ rights)
    (hright' : right' ∈ rights) (hl : compareRows leftColumns leftColumns sortColumns left' left = .eq)
    (hr : compareRows rightColumns rightColumns sortColumns right' right = .eq) :
    compareRows leftColumns rightColumns sortColumns left' right' =
      compareRows leftColumns rightColumns sortColumns left right := by
  have hfirst := h.order.congr_left (inl_mem hleft') (inl_mem hleft) (inr_mem hright') hl
  have hsecond := h.order.congr_right (inl_mem hleft) (inr_mem hright') (inr_mem hright) hr
  exact hfirst.trans hsecond

/-- Left rows that have the key of one right row have the same key. -/
theorem same_left {left' : Row} (hleft : left ∈ lefts) (hleft' : left' ∈ lefts) (hright : right ∈ rights)
    (hl : compareRows leftColumns rightColumns sortColumns left right = .eq)
    (hl' : compareRows leftColumns rightColumns sortColumns left' right = .eq) :
    compareRows leftColumns leftColumns sortColumns left' left = .eq := by
  have hswap := h.order.swap _ (inl_mem hleft) _ (inr_mem hright)
  have hcongr := h.order.congr_left (inl_mem hleft') (inr_mem hright) (inl_mem hleft) hl'
  exact hcongr.trans (hswap.trans (congrArg Ordering.swap hl))

/-- Right rows that have the key of one left row have the same key. -/
theorem same_right {right' : Row} (hleft : left ∈ lefts) (hright : right ∈ rights) (hright' : right' ∈ rights)
    (hr : compareRows leftColumns rightColumns sortColumns left right = .eq)
    (hr' : compareRows leftColumns rightColumns sortColumns left right' = .eq) :
    compareRows rightColumns rightColumns sortColumns right' right = .eq := by
  have hswap := h.order.swap _ (inl_mem hleft) _ (inr_mem hright')
  have hcongr := h.order.congr_left (inr_mem hright') (inl_mem hleft) (inr_mem hright)
    (hswap.trans (congrArg Ordering.swap hr'))
  exact hcongr.trans hr

/-- A left row that is greater than one with the key of a right row is greater than the right row. -/
theorem gt_of_lt {left' : Row} (hleft : left ∈ lefts) (hleft' : left' ∈ lefts) (hright : right ∈ rights)
    (heq : compareRows leftColumns rightColumns sortColumns left right = .eq)
    (hlt : compareRows leftColumns leftColumns sortColumns left left' = .lt) :
    compareRows leftColumns rightColumns sortColumns left' right = .gt := by
  have hswap := h.order.swap _ (inl_mem hleft') _ (inr_mem hright)
  have hcongr := h.order.congr_left (inl_mem hleft) (inr_mem hright) (inl_mem hleft') heq
  rw [← hcongr] at hswap
  exact Ordering.swap_eq_lt.mp (hswap.symm.trans hlt)

/-- A right row that is greater than one with the key of a left row is greater than the left row. -/
theorem lt_of_eq_of_lt {right' : Row} (hleft : left ∈ lefts) (hright : right ∈ rights) (hright' : right' ∈ rights)
    (heq : compareRows leftColumns rightColumns sortColumns left right = .eq)
    (hlt : compareRows rightColumns rightColumns sortColumns right right' = .lt) :
    compareRows leftColumns rightColumns sortColumns left right' = .lt :=
  (h.order.congr_left (inl_mem hleft) (inr_mem hright) (inr_mem hright') heq).trans hlt

end Walking

/-- Two rows have the same key, and the condition holds for them. -/
def meets (M : Row → Row → Bool) (leftColumns rightColumns sortColumns : List String) (left right : Row) : Bool :=
  compareRows leftColumns rightColumns sortColumns left right = .eq && M left right

/-- The condition does not hold for the first rows on both sides that have the same key. -/
def FirstRowsFail (M : Row → Row → Bool) (leftColumns rightColumns sortColumns : List String)
    (lefts rights : List Row) : Prop :=
  ∀ left right, IsFirst (compareRows leftColumns leftColumns sortColumns) lefts left →
    IsFirst (compareRows rightColumns rightColumns sortColumns) rights right →
      compareRows leftColumns rightColumns sortColumns left right = .eq → M left right = false

theorem meets_eq_false {left right : Row} (h : compareRows leftColumns rightColumns sortColumns left right ≠ .eq) :
    meets M leftColumns rightColumns sortColumns left right = false := by
  simp [meets, h]

/-- A left row that is less than all right rows has no partner. -/
theorem skip_left (h : Walking leftColumns rightColumns sortColumns (left :: lefts) (right :: rights))
    (hlt : compareRows leftColumns rightColumns sortColumns left right = .lt) :
    Joins.pairs (meets M leftColumns rightColumns sortColumns) (left :: lefts : List Row) (right :: rights : List Row) =
        Joins.pairs (meets M leftColumns rightColumns sortColumns) lefts (right :: rights : List Row) ∧
      (FirstRowsFail M leftColumns rightColumns sortColumns (left :: lefts) (right :: rights) ↔
        FirstRowsFail M leftColumns rightColumns sortColumns lefts (right :: rights)) := by
  have hall : ∀ r ∈ right :: rights, compareRows leftColumns rightColumns sortColumns left r = .lt := by
    intro r hr
    exact h.lt_of_lt List.mem_cons_self List.mem_cons_self hr hlt (not_gt_of_mem_cons h.right_order h.right hr)
  constructor
  · rw [← Multiset.cons_coe, ← Multiset.singleton_add, Joins.pairs_add_left, Joins.pairs_eq_zero, zero_add]
    intro l hl r hr
    rw [Multiset.mem_singleton.mp hl]
    exact meets_eq_false (by rw [hall r hr]; exact nofun)
  · refine forall₂_congr fun l r => ?_
    have hfirst (heq : compareRows leftColumns rightColumns sortColumns l r = .eq) (hl : l ∈ left :: lefts)
        (hr : r ∈ right :: rights) : IsFirst (compareRows leftColumns leftColumns sortColumns) (left :: lefts) l ↔
          IsFirst (compareRows leftColumns leftColumns sortColumns) lefts l := by
      refine isFirst_cons_of_ne fun hsame => ?_
      have hcongr := h.congr List.mem_cons_self hl hr hr hsame (compareRows_self ..)
      rw [heq, hall r hr] at hcongr
      cases hcongr
    exact ⟨fun hfail hl hr heq => hfail ((hfirst heq (List.mem_cons_of_mem _ hl.mem) hr.mem).mpr hl) hr heq,
      fun hfail hl hr heq => hfail ((hfirst heq hl.mem hr.mem).mp hl) hr heq⟩

/-- A right row that is less than all left rows has no partner. -/
theorem skip_right (h : Walking leftColumns rightColumns sortColumns (left :: lefts) (right :: rights))
    (hgt : compareRows leftColumns rightColumns sortColumns left right = .gt) :
    Joins.pairs (meets M leftColumns rightColumns sortColumns) (left :: lefts : List Row) (right :: rights : List Row) =
        Joins.pairs (meets M leftColumns rightColumns sortColumns) (left :: lefts : List Row) rights ∧
      (FirstRowsFail M leftColumns rightColumns sortColumns (left :: lefts) (right :: rights) ↔
        FirstRowsFail M leftColumns rightColumns sortColumns (left :: lefts) rights) := by
  have hall : ∀ l ∈ left :: lefts, compareRows leftColumns rightColumns sortColumns l right = .gt := by
    intro l hl
    exact h.gt_of_gt List.mem_cons_self hl List.mem_cons_self hgt (not_gt_of_mem_cons h.left_order h.left hl)
  constructor
  · rw [← Multiset.cons_coe right, ← Multiset.singleton_add, Joins.pairs_add_right, Joins.pairs_eq_zero, zero_add]
    intro l hl r hr
    rw [Multiset.mem_singleton.mp hr]
    exact meets_eq_false (by rw [hall l hl]; exact nofun)
  · refine forall₂_congr fun l r => ?_
    have hfirst (heq : compareRows leftColumns rightColumns sortColumns l r = .eq) (hl : l ∈ left :: lefts)
        (hr : r ∈ right :: rights) : IsFirst (compareRows rightColumns rightColumns sortColumns) (right :: rights) r ↔
          IsFirst (compareRows rightColumns rightColumns sortColumns) rights r := by
      refine isFirst_cons_of_ne fun hsame => ?_
      have hcongr := h.congr hl hl List.mem_cons_self hr (compareRows_self ..) hsame
      rw [heq, hall l hl] at hcongr
      cases hcongr
    exact ⟨fun hfail hl hr heq => hfail hl ((hfirst heq hl.mem (List.mem_cons_of_mem _ hr.mem)).mpr hr) heq,
      fun hfail hl hr heq => hfail hl ((hfirst heq hl.mem hr.mem).mp hr) heq⟩

theorem of_mem_run {columns : List String} {row row' : Row} {rows : List Row}
    (h : row' ∈ (row :: rows).takeWhile (sameKey columns sortColumns row)) :
    row' ∈ row :: rows ∧ compareRows columns columns sortColumns row' row = .eq := by
  have hsame : sameKey columns sortColumns row row' = true := List.mem_takeWhile_imp h
  exact ⟨(List.takeWhile_sublist _).subset h, of_decide_eq_true hsame⟩

section Runs

variable (h : Walking leftColumns rightColumns sortColumns (left :: lefts) (right :: rights))
  (heq : compareRows leftColumns rightColumns sortColumns left right = .eq)

include h heq

/-- Left rows after the run are greater than the right rows in it. -/
theorem of_mem_left_rest {l : Row} (hl : l ∈ (left :: lefts).dropWhile (sameKey leftColumns sortColumns left)) :
    l ∈ left :: lefts ∧ ∀ r ∈ right :: rights, compareRows rightColumns rightColumns sortColumns r right = .eq →
      compareRows leftColumns rightColumns sortColumns l r = .gt := by
  have hmem := (List.dropWhile_sublist _).subset hl
  refine ⟨hmem, fun r hr hrun => ?_⟩
  rw [h.congr hmem hmem List.mem_cons_self hr (compareRows_self ..) hrun]
  exact h.gt_of_lt List.mem_cons_self hmem List.mem_cons_self heq (lt_of_mem_dropWhile h.left_order h.left hl)

/-- Right rows after the run are greater than the left rows in it. -/
theorem of_mem_right_rest {r : Row} (hr : r ∈ (right :: rights).dropWhile (sameKey rightColumns sortColumns right)) :
    r ∈ right :: rights ∧ ∀ l ∈ left :: lefts, compareRows leftColumns leftColumns sortColumns l left = .eq →
      compareRows leftColumns rightColumns sortColumns l r = .lt := by
  have hmem := (List.dropWhile_sublist _).subset hr
  refine ⟨hmem, fun l hl hrun => ?_⟩
  rw [h.congr List.mem_cons_self hl hmem hmem hrun (compareRows_self ..)]
  exact h.lt_of_eq_of_lt List.mem_cons_self List.mem_cons_self hmem heq
    (lt_of_mem_dropWhile h.right_order h.right hr)

/-- What two runs of the same key and the rows after them contribute. -/
theorem join_runs :
    Joins.pairs (meets M leftColumns rightColumns sortColumns) (left :: lefts : List Row) (right :: rights : List Row) =
      Joins.pairs M ((left :: lefts).takeWhile (sameKey leftColumns sortColumns left) : List Row)
          ((right :: rights).takeWhile (sameKey rightColumns sortColumns right) : List Row) +
        Joins.pairs (meets M leftColumns rightColumns sortColumns)
          ((left :: lefts).dropWhile (sameKey leftColumns sortColumns left) : List Row)
          ((right :: rights).dropWhile (sameKey rightColumns sortColumns right) : List Row) := by
  conv_lhs =>
    rw [← List.takeWhile_append_dropWhile (p := sameKey leftColumns sortColumns left) (l := left :: lefts),
      ← List.takeWhile_append_dropWhile (p := sameKey rightColumns sortColumns right) (l := right :: rights)]
  rw [← Multiset.coe_add, ← Multiset.coe_add, Joins.pairs_add_left, Joins.pairs_add_right, Joins.pairs_add_right]
  have hruns : Joins.pairs (meets M leftColumns rightColumns sortColumns)
      ((left :: lefts).takeWhile (sameKey leftColumns sortColumns left) : List Row)
      ((right :: rights).takeWhile (sameKey rightColumns sortColumns right) : List Row) =
        Joins.pairs M ((left :: lefts).takeWhile (sameKey leftColumns sortColumns left) : List Row)
          ((right :: rights).takeWhile (sameKey rightColumns sortColumns right) : List Row) := by
    refine Joins.pairs_congr fun l hl r hr => ?_
    obtain ⟨hl, hsame⟩ := of_mem_run hl
    obtain ⟨hr, hsame'⟩ := of_mem_run hr
    rw [meets, h.congr List.mem_cons_self hl List.mem_cons_self hr hsame hsame', heq]
    rfl
  rw [hruns, Joins.pairs_eq_zero (M := meets M leftColumns rightColumns sortColumns), add_zero,
    Joins.pairs_eq_zero (M := meets M leftColumns rightColumns sortColumns), zero_add]
  · intro l hl r hr
    obtain ⟨hr, hsame⟩ := of_mem_run hr
    exact meets_eq_false (by rw [(of_mem_left_rest h heq hl).2 r hr hsame]; exact nofun)
  · intro l hl r hr
    obtain ⟨hl, hsame⟩ := of_mem_run hl
    exact meets_eq_false (by rw [(of_mem_right_rest h heq hr).2 l hl hsame]; exact nofun)

theorem firstRowsFail_iff : FirstRowsFail M leftColumns rightColumns sortColumns (left :: lefts) (right :: rights) ↔
    M left right = false ∧ FirstRowsFail M leftColumns rightColumns sortColumns
      ((left :: lefts).dropWhile (sameKey leftColumns sortColumns left))
      ((right :: rights).dropWhile (sameKey rightColumns sortColumns right)) := by
  have hleft {l : Row} (hl : l ∈ left :: lefts) := isFirst_cons_iff h.left_order hl
  have hright {r : Row} (hr : r ∈ right :: rights) := isFirst_cons_iff h.right_order hr
  have hl : left ∈ left :: lefts := List.mem_cons_self
  have hr : right ∈ right :: rights := List.mem_cons_self
  constructor
  · intro hfail
    refine ⟨hfail left right ?_ ?_ heq, fun l r hfirst hfirst' hmeet => ?_⟩
    · rw [hleft hl, if_pos (compareRows_self ..)]
    · rw [hright hr, if_pos (compareRows_self ..)]
    · -- first rows after the runs are first rows
      have hl' := of_mem_left_rest h heq hfirst.mem
      have hr' := of_mem_right_rest h heq hfirst'.mem
      refine hfail l r ?_ ?_ hmeet
      · rw [hleft hl'.1, if_neg fun hsame => ?_]
        · exact hfirst
        · have hlt := hr'.2 l hl'.1 hsame
          rw [hmeet] at hlt
          cases hlt
      · rw [hright hr'.1, if_neg fun hsame => ?_]
        · exact hfirst'
        · have hgt := hl'.2 r hr'.1 hsame
          rw [hmeet] at hgt
          cases hgt
  · rintro ⟨hrun, hrest⟩ l r hfirst hfirst' hmeet
    have hl' := hfirst.mem
    have hr' := hfirst'.mem
    rw [hleft hl'] at hfirst
    rw [hright hr'] at hfirst'
    have hiff : compareRows leftColumns leftColumns sortColumns l left = .eq ↔
        compareRows rightColumns rightColumns sortColumns r right = .eq := by
      constructor
      · intro hsame
        rw [h.congr hl hl' hr' hr' hsame (compareRows_self ..)] at hmeet
        exact h.same_right hl hr hr' heq hmeet
      · intro hsame
        rw [h.congr hl' hl' hr hr' (compareRows_self ..) hsame] at hmeet
        exact h.same_left hl hl' hr heq hmeet
    by_cases hsame : compareRows leftColumns leftColumns sortColumns l left = .eq
    · rw [if_pos hsame] at hfirst
      rw [if_pos (hiff.mp hsame)] at hfirst'
      rw [hfirst, hfirst', hrun]
    · rw [if_neg hsame] at hfirst
      rw [if_neg (mt hiff.mpr hsame)] at hfirst'
      exact hrest l r hfirst hfirst' hmeet

end Runs

/-- The walk joins the pairs with the same key for which the condition holds, and some of them again: none
if and only if the condition does not hold for first rows with the same key. -/
theorem merge_spec (h : Walking leftColumns rightColumns sortColumns lefts rights)
    (hcondition : ∀ left ∈ lefts, ∀ right ∈ rights,
      compareRows leftColumns rightColumns sortColumns left right = .eq →
        condition left right = .ok (M left right)) :
    ∃ rows extra, merge condition leftColumns rightColumns sortColumns lefts rights = .ok rows ∧
      (rows : Multiset Row) = (Joins.pairs (meets M leftColumns rightColumns sortColumns) lefts rights + extra).map
        (fun p => p.1 ++ p.2) ∧
      (∀ p ∈ extra, p ∈ Joins.pairs (meets M leftColumns rightColumns sortColumns) lefts rights) ∧
      (extra = 0 ↔ FirstRowsFail M leftColumns rightColumns sortColumns lefts rights) := by
  induction lefts, rights using merge.induct leftColumns rightColumns sortColumns with
  | case1 left lefts right rights heq ih =>
    have hrun : ∀ l ∈ (left :: lefts).takeWhile (sameKey leftColumns sortColumns left),
        ∀ r ∈ (right :: rights).takeWhile (sameKey rightColumns sortColumns right), condition l r = .ok (M l r) := by
      intro l hl r hr
      obtain ⟨hl, hsame⟩ := of_mem_run hl
      obtain ⟨hr, hsame'⟩ := of_mem_run hr
      refine hcondition l hl r hr ?_
      rw [h.congr List.mem_cons_self hl List.mem_cons_self hr hsame hsame', heq]
    have hfirst : ∀ r ∈ [right], condition left r = .ok (M left r) := by
      intro r hr
      rw [List.mem_singleton.mp hr]
      exact hcondition left List.mem_cons_self right List.mem_cons_self heq
    obtain ⟨rows, extra, hrows, hpairs, hextra, hiff⟩ := ih
      (h.mono (List.dropWhile_sublist _) (List.dropWhile_sublist _)) fun l hl r hr =>
        hcondition l ((List.dropWhile_sublist _).subset hl) r ((List.dropWhile_sublist _).subset hr)
    let doubled : Multiset (Row × Row) := if M left right then {(left, right)} else 0
    have hdoubled : (([right].filter (M left)).map (left ++ ·) : Multiset Row) =
        doubled.map fun p => p.1 ++ p.2 := by
      by_cases hmatch : M left right = true <;> simp [doubled, hmatch]
    have hjoin := join_runs (M := M) h heq
    refine ⟨([right].filter (M left)).map (left ++ ·) ++
      pairRows M ((left :: lefts).takeWhile (sameKey leftColumns sortColumns left))
        ((right :: rights).takeWhile (sameKey rightColumns sortColumns right)) ++ rows,
      doubled + extra, ?_, ?_, ?_, ?_⟩
    · rw [merge_of_eq heq, joinRow_of_ok hfirst, joinRuns_of_ok hrun, hrows]
      rfl
    · rw [hjoin, ← Multiset.coe_add, ← Multiset.coe_add, hpairs, JoinOperator.pairRows_coe, hdoubled]
      simp only [Multiset.map_add]
      abel
    · intro p hp
      rcases Multiset.mem_add.mp hp with hp | hp
      · by_cases hmatch : M left right = true
        · simp only [doubled, hmatch, if_true, Multiset.mem_singleton] at hp
          rw [hp, Joins.mem_pairs]
          exact ⟨List.mem_cons_self, List.mem_cons_self, by simp [meets, heq, hmatch]⟩
        · simp [doubled, hmatch] at hp
      · rw [hjoin]
        exact Multiset.mem_add.mpr (.inr (hextra p hp))
    · rw [firstRowsFail_iff h heq, ← hiff, add_eq_zero]
      refine and_congr_left fun _ => ?_
      by_cases hmatch : M left right = true <;> simp [doubled, hmatch]
  | case2 left lefts right rights hlt ih =>
    obtain ⟨hpairs, hfail⟩ := skip_left h hlt
    rw [merge_of_lt hlt, hpairs, hfail]
    exact ih (h.mono (List.sublist_cons_self ..) (.refl _)) fun l hl => hcondition l (List.mem_cons_of_mem _ hl)
  | case3 left lefts right rights hgt ih =>
    obtain ⟨hpairs, hfail⟩ := skip_right h hgt
    rw [merge_of_gt hgt, hpairs, hfail]
    exact ih (h.mono (.refl _) (List.sublist_cons_self ..)) fun l hl r hr =>
      hcondition l hl r (List.mem_cons_of_mem _ hr)
  | case4 lefts rights hnone =>
    have hempty : lefts = [] ∨ rights = [] := by
      rcases lefts with - | ⟨left, lefts⟩
      · exact .inl rfl
      · rcases rights with - | ⟨right, rights⟩
        · exact .inr rfl
        · exact (hnone left lefts right rights rfl rfl).elim
    refine ⟨[], 0, ?_, ?_, fun _ hp => absurd hp (Multiset.notMem_zero _), ?_⟩
    · rcases hempty with rfl | rfl
      · rw [merge]
        nofun
      · rw [merge]
        nofun
    · rw [Joins.pairs_eq_zero]
      · rfl
      · rcases hempty with rfl | rfl <;> simp
    · refine iff_of_true rfl fun left right hleft hright => ?_
      rcases hempty with rfl | rfl
      · cases hleft.mem
      · cases hright.mem

theorem ok_of_joinRuns {leftRows rightRows rows : List Row}
    (h : joinRuns condition leftRows rightRows = .ok rows) :
    ∀ left ∈ leftRows, ∀ right ∈ rightRows, ∃ b, condition left right = .ok b := by
  obtain ⟨joined, hjoined, -⟩ := Result.bind_eq_ok.mp h
  clear h
  induction leftRows generalizing joined with
  | nil => nofun
  | cons left leftRows ih =>
    rw [List.mapM_cons] at hjoined
    obtain ⟨row, hrow, hrest⟩ := Result.bind_eq_ok.mp hjoined
    obtain ⟨rest, hrest, -⟩ := Result.bind_eq_ok.mp hrest
    obtain ⟨kept, hkept, -⟩ := Result.bind_eq_ok.mp hrow
    exact List.forall_mem_cons.mpr ⟨ok_of_keepRows hkept, ih rest hrest⟩

/-- All pairs with the same key have been tested when the walk ends. -/
theorem ok_of_merge (h : Walking leftColumns rightColumns sortColumns lefts rights) {rows : List Row}
    (hrun : merge condition leftColumns rightColumns sortColumns lefts rights = .ok rows) :
    ∀ left ∈ lefts, ∀ right ∈ rights, compareRows leftColumns rightColumns sortColumns left right = .eq →
      ∃ b, condition left right = .ok b := by
  induction lefts, rights using merge.induct leftColumns rightColumns sortColumns generalizing rows with
  | case1 left lefts right rights heq ih =>
    rw [merge_of_eq heq] at hrun
    obtain ⟨joined, -, hrun⟩ := Result.bind_eq_ok.mp hrun
    obtain ⟨pairs, hpairs, hrun⟩ := Result.bind_eq_ok.mp hrun
    obtain ⟨rest, hrest, -⟩ := Result.bind_eq_ok.mp hrun
    have hruns := ok_of_joinRuns hpairs
    have hafter := ih (h.mono (List.dropWhile_sublist _) (List.dropWhile_sublist _)) hrest
    intro l hl r hr hmeet
    rw [← List.takeWhile_append_dropWhile (p := sameKey leftColumns sortColumns left) (l := left :: lefts)] at hl
    rw [← List.takeWhile_append_dropWhile (p := sameKey rightColumns sortColumns right) (l := right :: rights)] at hr
    rcases List.mem_append.mp hl with hl | hl <;> rcases List.mem_append.mp hr with hr | hr
    · exact hruns l hl r hr
    · obtain ⟨hl, hsame⟩ := of_mem_run hl
      rw [(of_mem_right_rest h heq hr).2 l hl hsame] at hmeet
      cases hmeet
    · obtain ⟨hr, hsame⟩ := of_mem_run hr
      rw [(of_mem_left_rest h heq hl).2 r hr hsame] at hmeet
      cases hmeet
    · exact hafter l hl r hr hmeet
  | case2 left lefts right rights hlt ih =>
    rw [merge_of_lt hlt] at hrun
    intro l hl r hr hmeet
    rcases List.mem_cons.mp hl with rfl | hl
    · have hless := h.lt_of_lt List.mem_cons_self List.mem_cons_self hr hlt
        (not_gt_of_mem_cons h.right_order h.right hr)
      rw [hmeet] at hless
      cases hless
    · exact ih (h.mono (List.sublist_cons_self ..) (.refl _)) hrun l hl r hr hmeet
  | case3 left lefts right rights hgt ih =>
    rw [merge_of_gt hgt] at hrun
    intro l hl r hr hmeet
    rcases List.mem_cons.mp hr with rfl | hr
    · have hgreater := h.gt_of_gt List.mem_cons_self hl List.mem_cons_self hgt
        (not_gt_of_mem_cons h.left_order h.left hl)
      rw [hmeet] at hgreater
      cases hgreater
    · exact ih (h.mono (.refl _) (List.sublist_cons_self ..)) hrun l hl r hr hmeet
  | case4 lefts rights hnone =>
    intro left hleft right hright
    obtain ⟨l, ls, rfl⟩ := List.exists_cons_of_ne_nil (List.ne_nil_of_mem hleft)
    obtain ⟨r, rs, rfl⟩ := List.exists_cons_of_ne_nil (List.ne_nil_of_mem hright)
    exact (hnone l ls r rs rfl rfl).elim

end Walk

/-! ## The same rows -/

section Result

variable {sort : (Row → Row → Ordering) → List Row → Result (List Row)} {ops : Operations S}
  {op : MergeJoinOperator S} {leftAlias rightAlias : Option String} {left right result : QueryResult}

theorem sortInput_spec (hsort : IsStableSort sort) {sortColumns : List String} {input : QueryResult}
    (horder : IsOrderOn (compareRows input.columnNames input.columnNames sortColumns) input.rows) :
    ∃ rows, sortInput sort sortColumns input = .ok rows ∧
      StablySorted (compareRows input.columnNames input.columnNames sortColumns) input.rows rows := by
  have heq := compareAt_eq input.columnNames sortColumns
  unfold sortInput
  generalize (sortColumns.filterMap fun columnName => input.columnNames.findIdx? (· = columnName)) = indices at heq
  by_cases hempty : indices.isEmpty = true
  · refine ⟨input.rows, if_pos hempty, stablySorted_self fun a _ b _ => ?_⟩
    rw [← heq, List.isEmpty_iff.mp hempty]
    rfl
  · obtain ⟨rows, hrows, hsorted⟩ := hsort.sorts (compareAt indices) input.rows
      (horder.congr fun a _ b _ => heq a b)
    refine ⟨rows, ?_, hsorted.congr fun a _ b _ => (heq a b).symm⟩
    exact (if_neg hempty).trans hrows

/-- The inner nested-loop join with the same condition -/
def nestedLoop (op : MergeJoinOperator S) (leftAlias rightAlias : Option String) : JoinOperator S :=
  ⟨op.condition, .inner, leftAlias, rightAlias⟩

/-- The merge join returns the rows of a result in some order. -/
def SameRows (sort : (Row → Row → Ordering) → List Row → Result (List Row)) (ops : Operations S)
    (op : MergeJoinOperator S) (left right result : QueryResult) : Prop :=
  ∃ result', op.execute sort ops (.ok left) (.ok right) = .ok result' ∧ result'.rows.Perm result.rows

/-- Whether the condition holds for two rows. -/
def pairMatches (ops : Operations S) (op : MergeJoinOperator S) (left right : QueryResult)
    (leftRow rightRow : Row) : Bool :=
  holds (op.evaluateJoinCondition ops left.columnNames right.columnNames leftRow rightRow)

/-- The condition can be evaluated on the pairs with the same key. -/
def ConditionEvaluates (ops : Operations S) (op : MergeJoinOperator S) (left right : QueryResult) : Prop :=
  ∀ leftRow ∈ left.rows, ∀ rightRow ∈ right.rows,
    compareRows left.columnNames right.columnNames op.sortColumns leftRow rightRow = .eq →
      ∃ b, op.evaluateJoinCondition ops left.columnNames right.columnNames leftRow rightRow = .ok b

/-- Both sides are sorted before the walk. -/
theorem exists_sorted (hsort : IsStableSort sort) (hkeys : KeysOrdered op.sortColumns left right) :
    ∃ leftRows rightRows,
      StablySorted (compareRows left.columnNames left.columnNames op.sortColumns) left.rows leftRows ∧
      StablySorted (compareRows right.columnNames right.columnNames op.sortColumns) right.rows rightRows ∧
      Walking left.columnNames right.columnNames op.sortColumns leftRows rightRows ∧
      ∀ ops : Operations S, op.execute sort ops (.ok left) (.ok right) =
        (merge (op.evaluateJoinCondition ops left.columnNames right.columnNames) left.columnNames
          right.columnNames op.sortColumns leftRows rightRows).map
          fun rows => ⟨rows, left.columnNames ++ right.columnNames⟩ := by
  have hleftOrder : IsOrderOn (compareRows left.columnNames left.columnNames op.sortColumns) left.rows :=
    (hkeys.mono fun _ ha => List.mem_append_left _ ha).comap
  have hrightOrder : IsOrderOn (compareRows right.columnNames right.columnNames op.sortColumns) right.rows :=
    (hkeys.mono fun _ ha => List.mem_append_right _ ha).comap
  obtain ⟨leftRows, hleftRows, hleft⟩ := sortInput_spec hsort hleftOrder
  obtain ⟨rightRows, hrightRows, hright⟩ := sortInput_spec hsort hrightOrder
  refine ⟨leftRows, rightRows, hleft, hright, ⟨hkeys.mono fun a ha => ?_, hleft.sorted, hright.sorted⟩, fun ops => ?_⟩
  · exact ((hleft.perm.map _).append (hright.perm.map _)).subset ha
  · unfold execute
    simp only [bind, Except.bind, hleftRows, hrightRows]
    rfl

theorem evaluates_of_sameRows (hsort : IsStableSort sort) (hkeys : KeysOrdered op.sortColumns left right)
    (h : SameRows sort ops op left right result) : op.ConditionEvaluates ops left right := by
  obtain ⟨leftRows, rightRows, hleft, hright, hwalking, hexecute⟩ := exists_sorted hsort hkeys
  obtain ⟨result', hresult', -⟩ := h
  rw [hexecute] at hresult'
  obtain ⟨rows, hrows, -⟩ := Result.map_eq_ok.mp hresult'
  intro leftRow hleftRow rightRow hrightRow
  exact ok_of_merge hwalking hrows leftRow (hleft.perm.symm.subset hleftRow) rightRow
    (hright.perm.symm.subset hrightRow)

/-- A pair of rows can be told from the row that it is joined to. -/
theorem map_append_inj {width : ℕ} {P P' : Multiset (Row × Row)} (hP : ∀ p ∈ P, p.1.length = width)
    (hP' : ∀ p ∈ P', p.1.length = width) :
    (P.map fun p => p.1 ++ p.2) = (P'.map fun p => p.1 ++ p.2) ↔ P = P' := by
  let split (row : Row) : Row × Row := (row.take width, row.drop width)
  have hsplit {Q : Multiset (Row × Row)} (hQ : ∀ p ∈ Q, p.1.length = width) :
      (Q.map fun p => p.1 ++ p.2).map split = Q := by
    rw [Multiset.map_map]
    refine (Multiset.map_congr rfl fun p hp => ?_).trans (Multiset.map_id Q)
    simp [split, ← hQ p hp]
  refine ⟨fun h => ?_, fun h => by rw [h]⟩
  rw [← hsplit hP, h, hsplit hP']

theorem ConditionEvaluates.eq (h : op.ConditionEvaluates ops left right) {leftRow rightRow : Row}
    (hleft : leftRow ∈ left.rows) (hright : rightRow ∈ right.rows)
    (heq : compareRows left.columnNames right.columnNames op.sortColumns leftRow rightRow = .eq) :
    op.evaluateJoinCondition ops left.columnNames right.columnNames leftRow rightRow =
      .ok (op.pairMatches ops left right leftRow rightRow) := by
  obtain ⟨b, hb⟩ := h leftRow hleft rightRow hright heq
  rw [pairMatches, hb]
  rfl

theorem StablySorted.firstRowsFail_iff {M : Row → Row → Bool} {leftColumns rightColumns sortColumns : List String}
    {lefts lefts' rights rights' : List Row}
    (hleft : StablySorted (compareRows leftColumns leftColumns sortColumns) lefts lefts')
    (hright : StablySorted (compareRows rightColumns rightColumns sortColumns) rights rights') :
    FirstRowsFail M leftColumns rightColumns sortColumns lefts' rights' ↔
      FirstRowsFail M leftColumns rightColumns sortColumns lefts rights := by
  unfold FirstRowsFail
  simp only [hleft.isFirst_iff, hright.isFirst_iff]

theorem sameRows_iff_of_evaluates (hsort : IsStableSort sort) (hkeys : KeysOrdered op.sortColumns left right)
    (hleft : ∀ row ∈ left.rows, row.length = left.columnNames.length)
    (h : (op.nestedLoop leftAlias rightAlias).execute ops (.ok left) (.ok right) = .ok result)
    (hcondition : op.ConditionEvaluates ops left right) :
    SameRows sort ops op left right result ↔
      (∀ leftRow ∈ left.rows, ∀ rightRow ∈ right.rows,
        meets (op.pairMatches ops left right) left.columnNames right.columnNames op.sortColumns leftRow rightRow =
          (op.nestedLoop leftAlias rightAlias).pairMatches ops left right leftRow rightRow) ∧
      FirstRowsFail (op.pairMatches ops left right) left.columnNames right.columnNames op.sortColumns
        left.rows right.rows := by
  obtain ⟨leftRows, rightRows, hleftSorted, hrightSorted, hwalking, hexecute⟩ :=
    exists_sorted hsort hkeys
  obtain ⟨rows, extra, hrows, hpairs, hextra, hfail⟩ := merge_spec (M := op.pairMatches ops left right) hwalking
    fun leftRow hleftRow rightRow hrightRow heq => hcondition.eq (hleftSorted.perm.subset hleftRow)
      (hrightSorted.perm.subset hrightRow) heq
  rw [Multiset.coe_eq_coe.mpr hleftSorted.perm, Multiset.coe_eq_coe.mpr hrightSorted.perm] at hpairs hextra
  rw [StablySorted.firstRowsFail_iff hleftSorted hrightSorted] at hfail
  have hresult : (result.rows : Multiset Row) =
      (Joins.pairs ((op.nestedLoop leftAlias rightAlias).pairMatches ops left right) left.rows right.rows).map
        fun p => p.1 ++ p.2 := (JoinOperator.of_execute h).1
  have hsame : SameRows sort ops op left right result ↔ (rows : Multiset Row) = result.rows := by
    unfold SameRows
    rw [hexecute, hrows, Multiset.coe_eq_coe]
    refine ⟨fun ⟨result', hresult', hperm⟩ => ?_, fun hperm => ⟨_, rfl, hperm⟩⟩
    obtain rfl := Except.ok.inj hresult'
    exact hperm
  rw [hsame, hpairs, hresult, map_append_inj, Joins.pairs_add_eq_iff hextra, hfail, and_comm]
  · rfl
  · intro p hp
    rcases Multiset.mem_add.mp hp with hp | hp
    · exact hleft _ (Joins.mem_pairs.mp hp).1
    · exact hleft _ (Joins.mem_pairs.mp (hextra p hp)).1
  · intro p hp
    exact hleft _ (Joins.mem_pairs.mp hp).1

/-- The merge join returns the rows of the inner nested-loop join if and only if the condition can be
evaluated on the pairs with the same key, the nested loop joins those of them for which it holds, and it
does not hold for any two rows that are the first with their key. -/
theorem sameRows_iff (hsort : IsStableSort sort) (hkeys : KeysOrdered op.sortColumns left right)
    (hleft : ∀ row ∈ left.rows, row.length = left.columnNames.length)
    (h : (op.nestedLoop leftAlias rightAlias).execute ops (.ok left) (.ok right) = .ok result) :
    SameRows sort ops op left right result ↔ op.ConditionEvaluates ops left right ∧
      (∀ leftRow ∈ left.rows, ∀ rightRow ∈ right.rows,
        meets (op.pairMatches ops left right) left.columnNames right.columnNames op.sortColumns leftRow rightRow =
          (op.nestedLoop leftAlias rightAlias).pairMatches ops left right leftRow rightRow) ∧
      FirstRowsFail (op.pairMatches ops left right) left.columnNames right.columnNames op.sortColumns
        left.rows right.rows := by
  constructor
  · intro hsame
    have hcondition := evaluates_of_sameRows hsort hkeys hsame
    exact ⟨hcondition, (sameRows_iff_of_evaluates hsort hkeys hleft h hcondition).mp hsame⟩
  · rintro ⟨hcondition, hmatches⟩
    exact (sameRows_iff_of_evaluates hsort hkeys hleft h hcondition).mpr hmatches

end Result

/-- The equality of integers -/
def integerEquality : Operations Unit where
  binary
    | .equals, .integer i, .integer j => .ok (.boolean (i = j))
    | _, _, _ => .ok .null
  sign _ v := .ok v
  cast v _ := .ok v
  function _ _ _ := .ok .null
  subquery _ _ := .ok .null
  toUppercase name := String.ofList (name.toList.map Char.toUpper)

/-- A merge join whose condition is the equality of a column of each side. -/
def equiJoin (leftColumn rightColumn : String) (sortColumns : List String) : MergeJoinOperator Unit :=
  ⟨some (.binaryOp (.column (some "l") leftColumn) .equals (.column (some "r") rightColumn)), .inner, sortColumns⟩

/-- The first rows do not satisfy the condition, and the pair that does is found once. -/
theorem sameRows_equiJoin : SameRows (strictSort (.panic "not a total order")) integerEquality
    (equiJoin "x" "y" ["k"]) ⟨[[.integer 1, .integer 1], [.integer 1, .integer 2]], ["k", "x"]⟩
    ⟨[[.integer 1, .integer 2]], ["k", "y"]⟩
    ⟨[[.integer 1, .integer 2, .integer 1, .integer 2]], ["l.k", "l.x", "r.k", "r.y"]⟩ := by
  have hkeys : KeysOrdered ["k"] ⟨[[.integer 1, .integer 1], [.integer 1, .integer 2]], ["k", "x"]⟩
      ⟨[[.integer 1, .integer 2]], ["k", "y"]⟩ := by
    refine keysOrdered_of_values ?_ ?_
    all_goals
      intro columnName hcolumn row hrow
      rw [List.mem_singleton.mp hcolumn]
    · rcases List.mem_pair.mp hrow with rfl | rfl <;> exact ⟨.integer 1, rfl, nofun⟩
    · rw [List.mem_singleton.mp hrow]
      exact ⟨.integer 1, rfl, nofun⟩
  have hnested : ((equiJoin "x" "y" ["k"]).nestedLoop (some "l") (some "r")).execute integerEquality
      (.ok ⟨[[.integer 1, .integer 1], [.integer 1, .integer 2]], ["k", "x"]⟩)
      (.ok ⟨[[.integer 1, .integer 2]], ["k", "y"]⟩) =
        .ok ⟨[[.integer 1, .integer 2, .integer 1, .integer 2]], ["l.k", "l.x", "r.k", "r.y"]⟩ := rfl
  refine (sameRows_iff (isStableSort_strictSort _) hkeys (by simp) hnested).mpr ⟨?_, ?_, ?_⟩
  · intro leftRow hleft rightRow hright _
    rw [List.mem_singleton.mp hright]
    rcases List.mem_pair.mp hleft with rfl | rfl
    · exact ⟨false, rfl⟩
    · exact ⟨true, rfl⟩
  · intro leftRow hleft rightRow hright
    rw [List.mem_singleton.mp hright]
    rcases List.mem_pair.mp hleft with rfl | rfl <;> rfl
  · intro leftRow rightRow hfirst hfirst' _
    have hright := List.mem_singleton.mp hfirst'.mem
    rcases List.mem_pair.mp hfirst.mem with hleft | hleft
    · rw [hleft, hright]
      rfl
    · -- the second row has the key of the first
      rw [hleft] at hfirst
      cases hfirst

/-- A pair of rows whose keys are equal is returned twice. -/
theorem pair_returned_twice : ¬ ∀ (S : Type) (sort : (Row → Row → Ordering) → List Row → Result (List Row))
    (ops : Operations S) (op : MergeJoinOperator S) (leftAlias rightAlias columnName : String)
    (left right result : QueryResult), IsStableSort sort → KeysOrdered op.sortColumns left right →
    op.joinType = .inner → op.sortColumns = [columnName] →
    op.condition = some (.binaryOp (.column (some leftAlias) columnName) .equals
      (.column (some rightAlias) columnName)) →
    (op.nestedLoop (some leftAlias) (some rightAlias)).execute ops (.ok left) (.ok right) = .ok result →
      SameRows sort ops op left right result := by
  intro h
  have hkeys : KeysOrdered ["id"] ⟨[[.integer 1]], ["id"]⟩ ⟨[[.integer 1]], ["id"]⟩ := by
    refine keysOrdered_of_values ?_ ?_
    all_goals
      intro columnName hcolumn row hrow
      rw [List.mem_singleton.mp hcolumn, List.mem_singleton.mp hrow]
      exact ⟨.integer 1, rfl, nofun⟩
  have hnested : ((equiJoin "id" "id" ["id"]).nestedLoop (some "l") (some "r")).execute integerEquality
      (.ok ⟨[[.integer 1]], ["id"]⟩) (.ok ⟨[[.integer 1]], ["id"]⟩) =
        .ok ⟨[[.integer 1, .integer 1]], ["l.id", "r.id"]⟩ := rfl
  have hsort := isStableSort_strictSort (α := Row) (Failure.panic "not a total order")
  have hsame := h Unit _ _ _ "l" "r" "id" _ _ _ hsort hkeys rfl rfl rfl hnested
  have hcondition := evaluates_of_sameRows hsort hkeys hsame
  have hfail := ((sameRows_iff_of_evaluates hsort hkeys (by simp) hnested hcondition).mp hsame).2
  -- the only pair of rows satisfies the condition
  cases hfail [.integer 1] [.integer 1] rfl rfl rfl

end MergeJoinOperator

end Rustgresql
