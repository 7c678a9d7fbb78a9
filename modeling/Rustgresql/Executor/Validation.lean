import Rustgresql.Executor.Scanner

/-!
# Stored rows and the schema

UPDATE validates the rows that it stores, and INSERT does not. `rowsValid_iff` says that the rows of a
table stay valid exactly as long as every row that an INSERT stores is valid.
-/

namespace Rustgresql

open StateSpec

section Rows

variable [DebugText] {E : Type} {evaluate : Evaluator E} {m : IndexManager} {t : SystemTable}

/-- A row passes the validation of its table. -/
def TableDef.Valid (tableDef : TableDef) (row : Row) : Prop := tableDef.validateRowData row = .ok ()

namespace SystemTable

/-- Every stored row passes the validation. -/
def RowsValid (t : SystemTable) : Prop := ∀ row ∈ t.data, t.definition.Valid row

end SystemTable

namespace RowStatement

/-- Every row that an INSERT stores passes the validation. -/
def InsertsValid (evaluate : Evaluator E) (m : IndexManager) (t : SystemTable) : Step E → Prop
  | (s, insert columns values) =>
    Stores m (fun t row => t.definition.Valid row)
      ((InsertOperator.fullRows evaluate s columns values t.definition).zipIdx.map
        fun p => (p.1, s.persist p.2)) t
  | _ => True

/-- A row that a statement is to store. -/
def WouldStore (evaluate : Evaluator E) (t : SystemTable) (row : Row) : Step E → Prop
  | (s, insert columns values) =>
    row ∈ InsertOperator.fullRows evaluate s columns values t.definition
  | (_, update assignments condition) =>
    ∃ old ∈ t.data, selects evaluate condition t.definition old ∧
      UpdateOperator.assign evaluate t.definition
        (createEvaluationContext t.definition.columnNames old) assignments old = .ok row
  | (_, delete _) => False

/-- A statement returns an error if it is to store a row that is not valid. -/
def RefusesInvalid (evaluate : Evaluator E) (m : IndexManager) (t : SystemTable) (op : Step E) : Prop :=
  ∀ row, WouldStore evaluate t row op → ¬ t.definition.Valid row →
    ∃ e t', execute evaluate m op.1 op.2 t = .error e t'

end RowStatement

open RowStatement

theorem rowsValid_insert (t : SystemTable) (row : Row) :
    (t.insert row).RowsValid ↔ t.RowsValid ∧ t.definition.Valid row := by
  simp [SystemTable.RowsValid, SystemTable.insert, or_imp, forall_and]

/-- A row that takes the place of another has been validated. -/
theorem valid_updatedRow {assignments : List (String × E)} {tableDef : TableDef} {row newRow : Row}
    (h : UpdateOperator.updatedRow evaluate assignments tableDef row = .ok newRow) :
    tableDef.Valid newRow := by
  rw [UpdateOperator.updatedRow] at h
  rcases hassign : UpdateOperator.assign evaluate tableDef
      (createEvaluationContext tableDef.columnNames row) assignments row with e | assigned
  · rw [hassign] at h
    cases h
  rcases hvalid : tableDef.validateRowData assigned with e | ⟨⟩
  · simp only [hassign, bind, Except.bind, hvalid] at h
    cases h
  · simp only [hassign, bind, Except.bind, hvalid] at h
    cases h
    exact hvalid

theorem valid_rowsAfterUpdate {s : Surroundings} {assignments : List (String × E)} {condition : Option E}
    {tableDef : TableDef} {rows : List (Row × ℕ)} (h : ∀ p ∈ rows, tableDef.Valid p.1) :
    ∀ row ∈ rowsAfterUpdate evaluate s assignments condition tableDef rows, tableDef.Valid row := by
  induction rows with
  | nil => exact fun _ h => absurd h List.not_mem_nil
  | cons p rows ih =>
    obtain ⟨row, i⟩ := p
    obtain ⟨hrow, hrows⟩ := List.forall_mem_cons.mp h
    have hrest : ∀ r ∈ rows.map Prod.fst, tableDef.Valid r := by
      intro r hr
      obtain ⟨p, hp, rfl⟩ := List.mem_map.mp hr
      exact hrows p hp
    rw [rowsAfterUpdate]
    split
    · split
      · next hnew _ => exact List.forall_mem_cons.mpr ⟨valid_updatedRow hnew, ih hrows⟩
      · next hnew _ => exact List.forall_mem_cons.mpr ⟨valid_updatedRow hnew, hrest⟩
      · exact List.forall_mem_cons.mpr ⟨hrow, hrest⟩
    · exact List.forall_mem_cons.mpr ⟨hrow, ih hrows⟩

/-- A statement keeps the rows valid exactly if the rows that it inserts are. -/
theorem rowsValid_step_iff (h : t.RowsValid) (op : Step E) :
    (step evaluate m t op).RowsValid ↔ InsertsValid evaluate m t op := by
  obtain ⟨s, statement⟩ := op
  cases statement with
  | insert columns values =>
    have hrows := insertRows_iff (m := m) (t := t) rowsValid_insert
      ((InsertOperator.fullRows evaluate s columns values t.definition).zipIdx.map
        fun p => (p.1, s.persist p.2))
    rwa [and_iff_right h] at hrows
  | update assignments condition =>
    apply iff_of_true _ trivial
    change (final (UpdateOperator.execute evaluate s assignments condition) t).RowsValid
    rw [final_update]
    apply valid_rowsAfterUpdate
    intro p hp
    exact h p.1 (List.fst_mem_of_mem_zipIdx hp)
  | delete condition =>
    apply iff_of_true _ trivial
    obtain ⟨data, hdata, hfinal⟩ := final_delete evaluate s condition t
    change (final (DeleteOperator.execute evaluate s condition) t).RowsValid
    rw [hfinal]
    exact fun row hrow => h row (hdata.subset hrow)

/-- An INSERT that returns has stored all of its rows. -/
theorem forall_of_insertRows {Q : SystemTable → Row → Prop} {rows : List (Row × Result Unit)}
    {t' : SystemTable} (hrun : InsertOperator.insertRows m rows t = .ok () t') (h : Stores m Q rows t) :
    ∀ p ∈ rows, ∃ t₁, t₁.definition = t.definition ∧ Q t₁ p.1 := by
  induction rows generalizing t with
  | nil => exact fun _ hp => absurd hp List.not_mem_nil
  | cons p rows ih =>
    obtain ⟨row, persist⟩ := p
    rcases hcheck : TableScanner.checkUniqueConstraints m t row with e | ⟨⟩
    · rw [insertRows_of_refused hcheck] at hrun
      cases hrun
    obtain ⟨hrow, hrows⟩ := h hcheck
    rcases persist with e | ⟨⟩
    · rw [insertRows_of_error hcheck] at hrun
      cases hrun
    · rw [insertRows_of_ok hcheck] at hrun
      have hrest := ih hrun (hrows rfl)
      exact List.forall_mem_cons.mpr ⟨⟨t, rfl, hrow⟩, hrest⟩

/-- An UPDATE that returns has replaced every row that it selects. -/
theorem forall_of_updateRows {s : Surroundings} {assignments : List (String × E)} {condition : Option E}
    {rows : List (Row × ℕ)} {t' : SystemTable}
    (hrun : UpdateOperator.updateRows evaluate s assignments condition rows t = .ok () t') :
    ∀ p ∈ rows, selects evaluate condition t.definition p.1 →
      ∃ newRow, UpdateOperator.updatedRow evaluate assignments t.definition p.1 = .ok newRow := by
  induction rows generalizing t with
  | nil => exact fun _ hp => absurd hp List.not_mem_nil
  | cons p rows ih =>
    obtain ⟨row, i⟩ := p
    rw [UpdateOperator.updateRows] at hrun
    by_cases hsel : selects evaluate condition t.definition row
    · rcases hnew : UpdateOperator.updatedRow evaluate assignments t.definition row with e | newRow
      · rw [bind_of_error (updateSelected_of_error hsel hnew)] at hrun
        cases hrun
      have hstored := updateSelected_of_ok (s := s) (i := i) hsel hnew
      rcases hpersist : s.persist i with e | ⟨⟩
      · rw [hpersist, ofResult_error] at hstored
        rw [bind_of_error hstored] at hrun
        cases hrun
      · rw [hpersist, ofResult_ok] at hstored
        rw [bind_of_ok hstored] at hrun
        have hrest := ih hrun
        exact List.forall_mem_cons.mpr ⟨fun _ => ⟨newRow, hnew⟩, hrest⟩
    · rw [bind_of_ok (updateSelected_of_not hsel)] at hrun
      exact List.forall_mem_cons.mpr ⟨fun h => absurd h hsel, ih hrun⟩

theorem valid_assign {assignments : List (String × E)} {tableDef : TableDef} {row assigned newRow : Row}
    (hassign : UpdateOperator.assign evaluate tableDef
      (createEvaluationContext tableDef.columnNames row) assignments row = .ok assigned)
    (h : UpdateOperator.updatedRow evaluate assignments tableDef row = .ok newRow) :
    tableDef.Valid assigned := by
  have hvalid := valid_updatedRow h
  rw [UpdateOperator.updatedRow, hassign] at h
  rcases hcheck : tableDef.validateRowData assigned with e | ⟨⟩
  · simp only [bind, Except.bind, hcheck] at h
    cases h
  · exact hcheck

/-- A statement whose stored rows are valid returns an error if it is to store another. -/
theorem refusesInvalid (op : Step E) (h : InsertsValid evaluate m t op) :
    RefusesInvalid evaluate m t op := by
  obtain ⟨s, statement⟩ := op
  intro row hstore hinvalid
  rcases hrun : execute evaluate m s statement t with ⟨⟨⟩, t'⟩ | ⟨e, t'⟩
  swap
  · exact ⟨e, t', rfl⟩
  exfalso
  apply hinvalid
  cases statement with
  | insert columns values =>
    obtain ⟨i, hi, rfl⟩ := List.getElem_of_mem hstore
    have hrows := forall_of_insertRows hrun h
    obtain ⟨t₁, ht₁, hvalid⟩ := hrows (_, s.persist i)
      (List.mem_map.mpr ⟨(_, i), List.mk_mem_zipIdx_iff_getElem?.mpr (List.getElem?_eq_getElem hi), rfl⟩)
    rwa [ht₁] at hvalid
  | update assignments condition =>
    obtain ⟨old, hold, hsel, hassign⟩ := hstore
    obtain ⟨i, hi, rfl⟩ := List.getElem_of_mem hold
    obtain ⟨newRow, hnew⟩ := forall_of_updateRows hrun (_, i)
      (List.mk_mem_zipIdx_iff_getElem?.mpr (List.getElem?_eq_getElem hi)) hsel
    exact valid_assign hassign hnew
  | delete condition => exact hstore.elim

/-- Over every sequence of statements from an empty table, all stored rows are valid and a statement that
is to store another returns an error, if and only if every row that an INSERT stores is valid. -/
theorem rowsValid_iff (evaluate : Evaluator E) (m : IndexManager) (tableDef : TableDef)
    (ops : List (Step E)) :
    ((∀ pre, pre <+: ops → (run evaluate m ⟨tableDef, []⟩ pre).RowsValid) ∧
      ∀ pre op post, ops = pre ++ op :: post →
        RefusesInvalid evaluate m (run evaluate m ⟨tableDef, []⟩ pre) op) ↔
      ∀ pre op post, ops = pre ++ op :: post →
        InsertsValid evaluate m (run evaluate m ⟨tableDef, []⟩ pre) op := by
  have hempty : SystemTable.RowsValid ⟨tableDef, []⟩ := fun _ h => absurd h List.not_mem_nil
  unfold run
  rw [forall_prefix_iff hempty]
  simp only [← forall_and]
  refine forall_step_iff (I := SystemTable.RowsValid)
    (G := fun t op => (step evaluate m t op).RowsValid ∧ RefusesInvalid evaluate m t op) hempty ?_ ?_ ops
  · exact fun t op _ hstep => hstep.1
  · intro t op h
    rw [rowsValid_step_iff h]
    exact and_iff_left_of_imp (refusesInvalid op)

end Rows

/-- INSERT stores NULL in a column that is not nullable. -/
theorem insert_stores_null :
    ¬ ∀ (_ : DebugText) (m : IndexManager) (tableDef : TableDef) (ops : List (RowStatement.Step Value)),
      ∀ pre, pre <+: ops → (RowStatement.run literalValue m ⟨tableDef, []⟩ pre).RowsValid := by
  intro h
  let texts : DebugText := ⟨fun _ => "", fun _ => "", fun _ => ""⟩
  let tableDef : TableDef := ⟨2, "t", 1, [⟨1, "a", .integer, false, none, false, false, none⟩], []⟩
  let surroundings : Surroundings := ⟨fun _ => .ok (), fun _ => .ok (), fun _ _ => 1⟩
  have hvalid := h texts IndexManager.new tableDef [(surroundings, .insert [] [[.null]])] _
    (List.prefix_refl _) [.null] (List.mem_singleton_self _)
  cases hvalid

end Rustgresql
