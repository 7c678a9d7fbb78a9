import Rustgresql.Executor.Scanner

/-!
# Statements that fail

INSERT and UPDATE write row by row and take nothing back. `data_of_failed_iff` says when a statement that
fails has left the rows of the table as they were.
-/

namespace Rustgresql

open StateSpec

section Failures

variable [DebugText] {E : Type} {evaluate : Evaluator E} {m : IndexManager} {s : Surroundings}
  {t t' : SystemTable}

/-! ## INSERT -/

/-- The first row is refused. -/
def FirstRefused (m : IndexManager) (t : SystemTable) (rows : List Row) : Prop :=
  ∀ row ∈ rows.head?, TableScanner.checkUniqueConstraints m t row ≠ .ok ()

/-- An INSERT takes no row away. -/
theorem length_le_insertRows (rows : List (Row × Result Unit)) :
    t.data.length ≤ (final (InsertOperator.insertRows m rows) t).data.length := by
  induction rows generalizing t with
  | nil => exact le_rfl
  | cons p rows ih =>
    obtain ⟨row, persist⟩ := p
    have hinsert : t.data.length ≤ (t.insert row).data.length := by
      change t.data.length ≤ (t.data ++ [row]).length
      rw [List.length_append]
      omega
    rcases hcheck : TableScanner.checkUniqueConstraints m t row with e | ⟨⟩
    · rw [final, insertRows_of_refused hcheck]
    rcases persist with e | ⟨⟩
    · rw [final, insertRows_of_error hcheck]
      exact hinsert
    · rw [final, insertRows_of_ok hcheck, ← final]
      exact hinsert.trans ih

/-- A row that was not refused stays, whatever happens to the next ones. -/
theorem length_lt_insertRows {row : Row} (persist : Result Unit) (rows : List (Row × Result Unit))
    (hcheck : TableScanner.checkUniqueConstraints m t row = .ok ()) :
    t.data.length < (final (InsertOperator.insertRows m ((row, persist) :: rows)) t).data.length := by
  have hinsert : (t.insert row).data.length = t.data.length + 1 := by
    change (t.data ++ [row]).length = _
    rw [List.length_append, List.length_singleton]
  rcases persist with e | ⟨⟩
  · rw [final, insertRows_of_error hcheck]
    change t.data.length < (t.insert row).data.length
    omega
  · rw [final, insertRows_of_ok hcheck, ← final]
    have hle := length_le_insertRows (m := m) (t := t.insert row) rows
    omega

theorem data_of_failed_insert_iff {rows : List (Row × Result Unit)} {e : Failure}
    (h : InsertOperator.insertRows m rows t = .error e t') :
    t'.data = t.data ↔ FirstRefused m t (rows.map Prod.fst) := by
  have hfinal : final (InsertOperator.insertRows m rows) t = t' := by rw [final, h]
  rcases rows with - | ⟨⟨row, persist⟩, rows⟩
  · cases h
  rcases hcheck : TableScanner.checkUniqueConstraints m t row with e' | ⟨⟩
  · rw [insertRows_of_refused hcheck] at h
    cases h
    apply iff_of_true rfl
    rintro _ ⟨⟩
    rw [hcheck]
    intro hok
    cases hok
  · have hlt := length_lt_insertRows persist rows hcheck
    rw [hfinal] at hlt
    refine iff_of_false (fun hdata => ?_) fun hrefused => hrefused row rfl hcheck
    rw [hdata] at hlt
    omega

/-! ## UPDATE -/

/-- Up to the row where an UPDATE fails, the selected rows get the values that they have. -/
def WritesSame (evaluate : Evaluator E) (s : Surroundings) (assignments : List (String × E))
    (condition : Option E) (t : TableDef) : List (Row × ℕ) → Prop
  | [] => True
  | (row, i) :: rows =>
    if selects evaluate condition t row then
      match UpdateOperator.updatedRow evaluate assignments t row with
      | .ok newRow => newRow = row ∧
        (s.persist i = .ok () → WritesSame evaluate s assignments condition t rows)
      | .error _ => True
    else WritesSame evaluate s assignments condition t rows

theorem rowsAfterUpdate_eq_iff {assignments : List (String × E)} {condition : Option E}
    {tableDef : TableDef} (rows : List (Row × ℕ)) :
    rowsAfterUpdate evaluate s assignments condition tableDef rows = rows.map Prod.fst ↔
      WritesSame evaluate s assignments condition tableDef rows := by
  induction rows with
  | nil => exact iff_of_true rfl trivial
  | cons p rows ih =>
    obtain ⟨row, i⟩ := p
    rw [rowsAfterUpdate, WritesSame, List.map_cons]
    by_cases hsel : selects evaluate condition tableDef row
    · rw [if_pos hsel, if_pos hsel]
      rcases hnew : UpdateOperator.updatedRow evaluate assignments tableDef row with e | newRow
      · exact iff_of_true rfl trivial
      rcases hpersist : s.persist i with e | ⟨⟩
      · simp
      · simp [ih]
    · rw [if_neg hsel, if_neg hsel, List.cons_inj_right, ih]

/-! ## Statements -/

namespace RowStatement

/-- The first row of an INSERT is refused, and an UPDATE writes what is there already until it fails. -/
def WritesNothing (evaluate : Evaluator E) (m : IndexManager) (s : Surroundings) (t : SystemTable) :
    RowStatement E → Prop
  | insert columns values =>
    FirstRefused m t (InsertOperator.fullRows evaluate s columns values t.definition)
  | update assignments condition =>
    WritesSame evaluate s assignments condition t.definition t.data.zipIdx
  | delete _ => True

/-- An INSERT or UPDATE that fails leaves the rows as they were if and only if it wrote nothing until
then. -/
theorem data_of_failed_iff {op : RowStatement E} (hop : ∀ condition, op ≠ delete condition) {e : Failure}
    (h : op.execute evaluate m s t = .error e t') :
    t'.data = t.data ↔ op.WritesNothing evaluate m s t := by
  cases op with
  | insert columns values =>
    have hrows := data_of_failed_insert_iff h
    rwa [List.map_map, Function.comp_def, List.zipIdx_map_fst] at hrows
  | update assignments condition =>
    have hrun : UpdateOperator.execute evaluate s assignments condition t = .error e t' := h
    have hfinal := final_update evaluate s assignments condition t
    rw [final, hrun] at hfinal
    have hdata : t.data.zipIdx.map Prod.fst = t.data := List.zipIdx_map_fst ..
    change t' = _ at hfinal
    rw [hfinal, RowStatement.WritesNothing, ← rowsAfterUpdate_eq_iff, hdata]
  | delete condition => exact absurd rfl (hop condition)

end RowStatement

end Failures

/-! ## Inserted duplicates -/

namespace RowStatement

/-- A table with one column. -/
def oneColumn : TableDef := ⟨2, "t", 1, [⟨1, "a", .integer, true, none, false, true, none⟩], []⟩

/-- A unique index on it. -/
def uniqueIndex : IndexManager := IndexManager.new.withIndex ⟨1, "t_a", 2, ["a"], .btree, true, false, true⟩

def quietSurroundings : Surroundings := ⟨fun _ => .ok (), fun _ => .ok (), fun _ _ => 1⟩

/-- An INSERT whose first row is refused. -/
theorem data_of_insert_refused : letI : DebugText := ⟨fun _ => "", fun _ => "", fun _ => ""⟩
    (final ((insert [] [[.integer 1]] : RowStatement Value).execute literalValue uniqueIndex
      quietSurroundings) ⟨oneColumn, [[.integer 1]]⟩).data = [[.integer 1]] := by
  let texts : DebugText := ⟨fun _ => "", fun _ => "", fun _ => ""⟩
  have hop (condition : Option Value) : insert [] [[.integer 1]] ≠ delete condition := nofun
  have hrun : (insert [] [[.integer 1]] : RowStatement Value).execute literalValue uniqueIndex
    quietSurroundings ⟨oneColumn, [[.integer 1]]⟩ = .error _ _ := rfl
  refine (data_of_failed_iff hop hrun).mpr fun row hrow => ?_
  cases hrow
  exact nofun

/-- An INSERT of two equal rows keeps the first. -/
theorem insert_keeps_first_row : ¬ ∀ (_ : DebugText) (m : IndexManager) (s : Surroundings)
      (op : RowStatement Value) (t t' : SystemTable) (e : Failure), (∀ condition, op ≠ delete condition) →
        op.execute literalValue m s t = .error e t' → t'.data = t.data := by
  intro h
  have hdata := h ⟨fun _ => "", fun _ => "", fun _ => ""⟩ uniqueIndex quietSurroundings
    (insert [] [[.integer 1], [.integer 1]]) ⟨oneColumn, []⟩ _ _ nofun rfl
  cases hdata

end RowStatement

end Rustgresql
