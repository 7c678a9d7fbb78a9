import Rustgresql.Catalog.Index
import Rustgresql.Lib.LastMatch

/-!
# Rows of a table

The table scanner and the operators that change rows: INSERT, UPDATE and DELETE on one table. The
expressions and their evaluator are parameters, and so is what the storage answers to each write.
-/

namespace Rustgresql

open StateSpec IndexManager

/-- The derived `Debug` texts of types and values. -/
class DebugText where
  kind : DataTypeKind → String
  value : Value → String
  names : List String → String

/-! ## Definitions of a table -/

namespace TableDef

def columnNames (t : TableDef) : List String := t.columns.map ColumnDef.name

/-- The entry of a column in the column map. Of columns of one name the last is entered. -/
def getColumnIndex (t : TableDef) (name : String) : Option ℕ :=
  (LastMatch.find (fun p => p.1 = name) t.columnNames.zipIdx).map Prod.snd

/-- Validate that a value matches the expected column type -/
def validateColumnType [DebugText] (expected : DataTypeKind) (value : Value) (columnIndex : ℕ) :
    Result Unit :=
  let mismatch : Result Unit := .error (.err (.type
    s!"Type mismatch at column {columnIndex}: expected {DebugText.kind expected}, got {DebugText.value value}"))
  match expected, value with
  | .integer, .integer _ | .serial, .integer _ | .bigInt, .integer _ | .bigSerial, .integer _ => .ok ()
  | .real, .float _ | .doublePrecision, .float _ | .numeric _ _, .float _ | .decimal _ _, .float _ =>
    .ok ()
  | .text, .string _ | .varchar _, .string _ => .ok ()
  | .timestamp, .string _ | .timestamp, .timestamp _ | .timestampWithTimeZone, .string _
  | .timestampWithTimeZone, .timestamp _ => .ok ()
  | .date, .string _ | .time, .string _ | .timeWithTimeZone, .string _ | .interval, .string _ => .ok ()
  | .boolean, .boolean _ => .ok ()
  | _, _ => mismatch

/-- One column of a row. -/
def validateColumn [DebugText] (column : ColumnDef) (value : Value) (i : ℕ) : Result Unit := do
  if column.nullable = false && value.isNull then
    throw (.err (.type s!"Column '{column.name}' cannot be NULL"))
  if value.isNull then pure () else validateColumnType column.dataType value i

/-- Validate row data against table schema -/
def validateRowData [DebugText] (t : TableDef) (row : Row) : Result Unit := do
  if row.length ≠ t.columns.length then
    throw (.err (.type s!"Column count mismatch: expected {t.columns.length}, got {row.length}"))
  (t.columns.zip row).zipIdx.forM fun p => validateColumn p.1.1 p.1.2 p.2

end TableDef

/-! ## Scanner -/

abbrev EvaluationContext := HashMap String Value

/-- Create evaluation context for row data -/
def createEvaluationContext (columnNames : List String) (row : Row) : EvaluationContext :=
  (columnNames.zip row).foldl (fun context p => context.insert p.1 p.2) ∅

/-- What the surroundings of a statement supply: what the storage answers after a row has been changed in
memory, what the transaction manager answers before a row is deleted, and the values for automatically
numbered columns. -/
structure Surroundings where
  persist : ℕ → Result Unit
  logDelete : ℕ → Result Unit
  autoIncrement : ℕ → ℕ → ℤ

abbrev TableCall (α : Type) := EStateM Failure SystemTable α

/-- The outcome of a call that keeps no state. -/
def ofResult {σ α : Type} : Result α → EStateM Failure σ α
  | .ok a => pure a
  | .error e => throw e

namespace IndexManager

/-- Get unique indexes (excluding primary keys) for a table -/
def getTableUniqueIndexes (tableId : ℕ) (m : IndexManager) : List IndexDef :=
  (listTableIndexes tableId m).filter fun d => d.unique && !d.primaryKey

end IndexManager

namespace TableScanner

variable [DebugText]

/-- The values of a row in the columns of an index. Columns that the table does not have are passed over,
and a row that is too short is a panic. -/
def indexValues (t : TableDef) (d : IndexDef) (row : Row) : Result (List Value) :=
  (d.columns.filterMap t.getColumnIndex).mapM fun i =>
    match row[i]? with
    | some v => .ok v
    | none => .error (.panic "index out of bounds")

/-- Compare the values of a new row with those of a stored row. -/
def checkExistingRow (t : TableDef) (d : IndexDef) (values : List Value) (row : Row) : Result Unit := do
  let existing ← indexValues t d row
  if Value.eqList values existing then
    throw (.err (.constraint
      s!"Duplicate value for unique index '{d.name}' on columns {DebugText.names d.columns}"))

/-- Check if inserting this row would violate any unique constraints -/
def checkUniqueConstraints (m : IndexManager) (t : SystemTable) (row : Row) : Result Unit :=
  (m.getTableUniqueIndexes t.definition.tableId).forM fun d => do
    let values ← indexValues t.definition d row
    t.data.forM (checkExistingRow t.definition d values)

/-- Insert a new row into the table -/
def insertRow (m : IndexManager) (persist : Result Unit) (row : Row) : TableCall Unit := do
  ofResult (checkUniqueConstraints m (← get) row)
  modify (SystemTable.insert row)
  ofResult persist

end TableScanner

/-! ## Operators -/

/-- What a condition means for a row. -/
def Value.isTrue : Value → Bool
  | .boolean b => b
  | .null => false
  | .integer i => i ≠ 0
  -- the two zeros
  | .float bits => !(bits &&& 0x7fffffffffffffff == 0)
  | .string s => s ≠ ""
  | .timestamp _ => true
  | .list vs => !vs.isEmpty

/-- The evaluator of expressions. -/
abbrev Evaluator (E : Type) := E → EvaluationContext → Result Value

variable {E : Type}

/-- The evaluation of literals. -/
def literalValue : Evaluator Value := fun v _ => .ok v

/-- INSERT, UPDATE and DELETE -/
inductive RowStatement (E : Type)
  | insert (columns : List String) (values : List (List E))
  | update (assignments : List (String × E)) (condition : Option E)
  | delete (condition : Option E)

namespace InsertOperator

/-- The provided values in the columns of the table. -/
def placeValues (columns : List String) (t : TableDef) (provided : List Value) : Row :=
  let fullRow := List.replicate t.columns.length Value.null
  if columns = [] then
    provided.zipIdx.foldl (fun row p => row.set p.2 p.1) fullRow
  else
    columns.zipIdx.foldl (fun row p =>
      match t.getColumnIndex p.1, provided[p.2]? with
      | some i, some v => row.set i v
      | _, _ => row) fullRow

/-- The value of a column that may have been left out. -/
def fillIn (autoIncrement : ℤ) (column : ColumnDef) (v : Value) : Value :=
  if v.isNull then
    if column.dataType = .serial then .integer autoIncrement else column.defaultValue.getD v
  else v

/-- Map provided values to full table schema, handling auto-increment and default values -/
def mapValuesToTableSchema (autoIncrement : ℕ → ℤ) (columns : List String) (t : TableDef)
    (provided : List Value) : Row :=
  (t.columns.zip (placeValues columns t provided)).zipIdx.map fun p =>
    fillIn (autoIncrement p.2) p.1.1 p.1.2

/-- An expression that cannot be evaluated is inserted as NULL. -/
def providedValues (evaluate : Evaluator E) (exprs : List E) : List Value :=
  exprs.map fun e => (evaluate e ∅).toOption.getD .null

/-- The full rows of an INSERT. -/
def fullRows (evaluate : Evaluator E) (s : Surroundings) (columns : List String)
    (values : List (List E)) (t : TableDef) : List Row :=
  values.zipIdx.map fun p =>
    mapValuesToTableSchema (s.autoIncrement p.2) columns t (providedValues evaluate p.1)

variable [DebugText]

/-- Insert the rows in order. The first that fails ends the statement. -/
def insertRows (m : IndexManager) : List (Row × Result Unit) → TableCall Unit
  | [] => pure ()
  | (row, persist) :: rows => do
    TableScanner.insertRow m persist row
    insertRows m rows

def execute (evaluate : Evaluator E) (m : IndexManager) (s : Surroundings) (columns : List String)
    (values : List (List E)) : TableCall Unit := do
  let rows := fullRows evaluate s columns values (← get).definition
  insertRows m (rows.zipIdx.map fun p => (p.1, s.persist p.2))

end InsertOperator

/-- Check WHERE condition if present. A condition that cannot be evaluated does not hold. -/
def selects (evaluate : Evaluator E) (condition : Option E) (t : TableDef) (row : Row) : Bool :=
  match condition with
  | some e =>
    match evaluate e (createEvaluationContext t.columnNames row) with
    | .ok v => v.isTrue
    | .error _ => false
  | none => true

namespace UpdateOperator

/-- Apply assignments to create new row values. Of columns of one name the first is assigned. -/
def assign (evaluate : Evaluator E) (t : TableDef) (context : EvaluationContext) :
    List (String × E) → Row → Result Row
  | [], row => .ok row
  | (name, e) :: assignments, row => do
    let v ← evaluate e context
    let row := if name ∈ t.columnNames then row.set (t.columnNames.idxOf name) v else row
    assign evaluate t context assignments row

variable [DebugText]

/-- The row that takes the place of an updated one. -/
def updatedRow (evaluate : Evaluator E) (assignments : List (String × E)) (t : TableDef) (row : Row) :
    Result Row := do
  let newRow ← assign evaluate t (createEvaluationContext t.columnNames row) assignments row
  t.validateRowData newRow
  return newRow

/-- Update a row of the scan if it is selected. -/
def updateSelected (evaluate : Evaluator E) (s : Surroundings) (assignments : List (String × E))
    (condition : Option E) (row : Row) (i : ℕ) : TableCall Unit := do
  let t := (← get).definition
  if selects evaluate condition t row then
    let newRow ← ofResult (updatedRow evaluate assignments t row)
    modify (SystemTable.updateRow i newRow)
    ofResult (s.persist i)

/-- Process the rows of the scan in order. The first that fails ends the statement. -/
def updateRows (evaluate : Evaluator E) (s : Surroundings) (assignments : List (String × E))
    (condition : Option E) : List (Row × ℕ) → TableCall Unit
  | [] => pure ()
  | (row, i) :: rows => do
    updateSelected evaluate s assignments condition row i
    updateRows evaluate s assignments condition rows

def execute (evaluate : Evaluator E) (s : Surroundings) (assignments : List (String × E))
    (condition : Option E) : TableCall Unit := do
  updateRows evaluate s assignments condition (← get).data.zipIdx

end UpdateOperator

namespace DeleteOperator

/-- Delete rows from the last to the first. -/
def deleteRows (s : Surroundings) : List ℕ → TableCall Unit
  | [] => pure ()
  | i :: is => do
    ofResult (s.logDelete i)
    modify (SystemTable.deleteRow i)
    ofResult (s.persist i)
    deleteRows s is

def execute (evaluate : Evaluator E) (s : Surroundings) (condition : Option E) : TableCall Unit := do
  let t ← get
  let selected := t.data.zipIdx.filter fun p => selects evaluate condition t.definition p.1
  deleteRows s (selected.map Prod.snd).reverse

end DeleteOperator

namespace RowStatement

variable [DebugText]

/-- Execute a statement. -/
def execute (evaluate : Evaluator E) (m : IndexManager) (s : Surroundings) :
    RowStatement E → TableCall Unit
  | insert columns values => InsertOperator.execute evaluate m s columns values
  | update assignments condition => UpdateOperator.execute evaluate s assignments condition
  | delete condition => DeleteOperator.execute evaluate s condition

abbrev Step (E : Type) := Surroundings × RowStatement E

def step (evaluate : Evaluator E) (m : IndexManager) (t : SystemTable) (op : Step E) : SystemTable :=
  final (execute evaluate m op.1 op.2) t

/-- The table after a list of statements. -/
def run (evaluate : Evaluator E) (m : IndexManager) (t : SystemTable) (ops : List (Step E)) :
    SystemTable :=
  ops.foldl (step evaluate m) t

end RowStatement

/-! ## What the operators store -/

theorem ofResult_ok {σ α : Type} (a : α) (s : σ) : ofResult (.ok a) s = .ok a s := rfl

theorem ofResult_error {σ α : Type} (e : Failure) (s : σ) :
    ofResult (.error e : Result α) s = .error e s := rfl

/-- A DELETE takes rows away. -/
theorem final_delete (evaluate : Evaluator E) (s : Surroundings) (condition : Option E)
    (t : SystemTable) : ∃ data, data.Sublist t.data ∧
      final (DeleteOperator.execute evaluate s condition) t = { t with data := data } := by
  have hrows (is : List ℕ) : ∃ data, data.Sublist t.data ∧
      final (DeleteOperator.deleteRows s is) t = { t with data := data } := by
    induction is generalizing t with
    | nil => exact ⟨t.data, List.Sublist.refl _, rfl⟩
    | cons i is ih =>
      rw [DeleteOperator.deleteRows]
      rcases hlog : s.logDelete i with e | ⟨⟩
      · exact ⟨t.data, List.Sublist.refl _, by rw [final_bind_of_error (ofResult_error e t)]⟩
      rw [final_bind_of_ok (ofResult_ok () t)]
      have hdeleted : (modify (SystemTable.deleteRow i) : TableCall Unit) t =
          .ok () (t.deleteRow i) := rfl
      rw [final_bind_of_ok hdeleted]
      rcases hpersist : s.persist i with e | ⟨⟩
      · exact ⟨_, List.eraseIdx_sublist .., by rw [final_bind_of_error (ofResult_error e _)]; rfl⟩
      obtain ⟨data, hdata, hfinal⟩ := ih (t.deleteRow i)
      rw [final_bind_of_ok (ofResult_ok () _), hfinal]
      exact ⟨data, hdata.trans (List.eraseIdx_sublist ..), rfl⟩
  exact hrows _

section Stored

variable [DebugText] {m : IndexManager} {t : SystemTable}

/-- Every row that an INSERT stores meets a condition when it is stored. -/
def Stores (m : IndexManager) (Q : SystemTable → Row → Prop) : List (Row × Result Unit) → SystemTable → Prop
  | [], _ => True
  | (row, persist) :: rows, t =>
    TableScanner.checkUniqueConstraints m t row = .ok () →
      Q t row ∧ (persist = .ok () → Stores m Q rows (t.insert row))

theorem insertRows_of_refused {row : Row} {persist : Result Unit} {rows : List (Row × Result Unit)}
    {e : Failure} (hcheck : TableScanner.checkUniqueConstraints m t row = .error e) :
    InsertOperator.insertRows m ((row, persist) :: rows) t = .error e t := by
  have hrow : TableScanner.insertRow m persist row t = .error e t := by
    rw [TableScanner.insertRow, get_bind, hcheck]
    rfl
  exact bind_of_error hrow

theorem insertRow_of_ok {row : Row} (hcheck : TableScanner.checkUniqueConstraints m t row = .ok ())
    (persist : Result Unit) :
    TableScanner.insertRow m persist row t = ofResult persist (t.insert row) := by
  rw [TableScanner.insertRow, get_bind, hcheck]
  rfl

theorem insertRows_of_error {row : Row} {rows : List (Row × Result Unit)} {e : Failure}
    (hcheck : TableScanner.checkUniqueConstraints m t row = .ok ()) :
    InsertOperator.insertRows m ((row, .error e) :: rows) t = .error e (t.insert row) :=
  bind_of_error (insertRow_of_ok hcheck _)

theorem insertRows_of_ok {row : Row} {rows : List (Row × Result Unit)}
    (hcheck : TableScanner.checkUniqueConstraints m t row = .ok ()) :
    InsertOperator.insertRows m ((row, .ok ()) :: rows) t =
      InsertOperator.insertRows m rows (t.insert row) :=
  bind_of_ok (insertRow_of_ok hcheck _)

/-- What a table satisfies after an INSERT, if it is a condition on each row with those before it. -/
theorem insertRows_iff {P : SystemTable → Prop} {Q : SystemTable → Row → Prop}
    (hinsert : ∀ t row, P (t.insert row) ↔ P t ∧ Q t row) (rows : List (Row × Result Unit)) :
    P (final (InsertOperator.insertRows m rows) t) ↔ P t ∧ Stores m Q rows t := by
  induction rows generalizing t with
  | nil => exact (and_iff_left trivial).symm
  | cons p rows ih =>
    obtain ⟨row, persist⟩ := p
    rw [Stores]
    rcases hcheck : TableScanner.checkUniqueConstraints m t row with e | ⟨⟩
    · rw [final, insertRows_of_refused hcheck]
      simp
    rcases persist with e | ⟨⟩
    · rw [final, insertRows_of_error hcheck, hinsert]
      simp
    · rw [final, insertRows_of_ok hcheck, ← final, ih, hinsert, and_assoc]
      simp

/-- The rows that an UPDATE leaves: those that it reaches and selects are replaced. -/
def rowsAfterUpdate (evaluate : Evaluator E) (s : Surroundings) (assignments : List (String × E))
    (condition : Option E) (t : TableDef) : List (Row × ℕ) → List Row
  | [] => []
  | (row, i) :: rows =>
    if selects evaluate condition t row then
      match UpdateOperator.updatedRow evaluate assignments t row, s.persist i with
      | .ok newRow, .ok () => newRow :: rowsAfterUpdate evaluate s assignments condition t rows
      | .ok newRow, .error _ => newRow :: rows.map Prod.fst
      | .error _, _ => row :: rows.map Prod.fst
    else
      row :: rowsAfterUpdate evaluate s assignments condition t rows

section Update

variable {evaluate : Evaluator E} {s : Surroundings} {assignments : List (String × E)}
  {condition : Option E} {row newRow : Row} {i : ℕ}

theorem updateSelected_of_not (hsel : ¬ selects evaluate condition t.definition row) :
    UpdateOperator.updateSelected evaluate s assignments condition row i t = .ok () t := by
  rw [UpdateOperator.updateSelected, get_bind]
  simp only [hsel]
  rfl

theorem updateSelected_of_error (hsel : selects evaluate condition t.definition row) {e : Failure}
    (hnew : UpdateOperator.updatedRow evaluate assignments t.definition row = .error e) :
    UpdateOperator.updateSelected evaluate s assignments condition row i t = .error e t := by
  rw [UpdateOperator.updateSelected, get_bind]
  simp only [hsel, hnew]
  rfl

theorem updateSelected_of_ok (hsel : selects evaluate condition t.definition row)
    (hnew : UpdateOperator.updatedRow evaluate assignments t.definition row = .ok newRow) :
    UpdateOperator.updateSelected evaluate s assignments condition row i t =
      ofResult (s.persist i) (t.updateRow i newRow) := by
  rw [UpdateOperator.updateSelected, get_bind]
  simp only [hsel, hnew]
  rfl

/-- The rows before those that are still to be processed are done. -/
theorem final_updateRows (tableDef : TableDef) (done rest : List Row) :
    final (UpdateOperator.updateRows evaluate s assignments condition (rest.zipIdx done.length))
        ⟨tableDef, done ++ rest⟩ =
      ⟨tableDef, done ++ rowsAfterUpdate evaluate s assignments condition tableDef
        (rest.zipIdx done.length)⟩ := by
  induction rest generalizing done with
  | nil => rfl
  | cons row rest ih =>
    have hnext (newRow : Row) : final (UpdateOperator.updateRows evaluate s assignments condition
          (rest.zipIdx (done.length + 1))) ⟨tableDef, done ++ newRow :: rest⟩ =
        ⟨tableDef, done ++ newRow :: rowsAfterUpdate evaluate s assignments condition tableDef
          (rest.zipIdx (done.length + 1))⟩ := by
      have hdone := ih (done ++ [newRow])
      simpa only [List.length_append, List.length_singleton, List.append_assoc, List.singleton_append]
        using hdone
    have hset (newRow : Row) : SystemTable.updateRow done.length newRow ⟨tableDef, done ++ row :: rest⟩ =
        ⟨tableDef, done ++ newRow :: rest⟩ := by
      simp [SystemTable.updateRow]
    have hfst : (rest.zipIdx (done.length + 1)).map Prod.fst = rest := List.zipIdx_map_fst ..
    rw [List.zipIdx_cons, UpdateOperator.updateRows, rowsAfterUpdate]
    by_cases hsel : selects evaluate condition tableDef row
    · rw [if_pos hsel]
      rcases hnew : UpdateOperator.updatedRow evaluate assignments tableDef row with e | newRow
      · rw [final_bind_of_error (updateSelected_of_error hsel hnew), hfst]
      · have hstored := updateSelected_of_ok (s := s) (i := done.length)
          (t := ⟨tableDef, done ++ row :: rest⟩) hsel hnew
        rw [hset] at hstored
        rcases hpersist : s.persist done.length with e | ⟨⟩
        · rw [hpersist, ofResult_error] at hstored
          rw [final_bind_of_error hstored, hfst]
        · rw [hpersist, ofResult_ok] at hstored
          rw [final_bind_of_ok hstored]
          exact hnext newRow
    · rw [if_neg hsel, final_bind_of_ok (updateSelected_of_not hsel)]
      exact hnext row

theorem final_update (evaluate : Evaluator E) (s : Surroundings) (assignments : List (String × E))
    (condition : Option E) (t : SystemTable) :
    final (UpdateOperator.execute evaluate s assignments condition) t =
      { t with data := rowsAfterUpdate evaluate s assignments condition t.definition t.data.zipIdx } :=
  final_updateRows t.definition [] t.data

end Update

end Stored

end Rustgresql
