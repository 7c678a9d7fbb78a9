import Rustgresql.Executor.Scanner

/-!
# ALTER TABLE

ADD COLUMN, DROP COLUMN and RENAME COLUMN replace the definition of a table and leave its rows alone.
`aligned_iff` says that the rows stay in line with the definition exactly as long as columns are added
and dropped while the table is empty.
-/

namespace Rustgresql

open StateSpec

/-- DDL errors of ALTER TABLE -/
inductive DdlError
  | columnNotFound (columnName tableName : String)
  | columnAlreadyExists (columnName tableName : String)
  | columnInUse (columnName tableName : String)
  | invalidConstraintDefinition (columnName reason : String)
  deriving DecidableEq

/-- The message of an error. -/
def DdlError.message : DdlError → String
  | columnNotFound c t => s!"Column '{c}' does not exist in table '{t}'"
  | columnAlreadyExists c t => s!"Column '{c}' already exists in table '{t}'"
  | columnInUse c _ =>
    s!"Column '{c}' cannot be dropped because it is referenced by constraints or indexes"
  | invalidConstraintDefinition c reason => s!"Invalid constraint definition '{c}': {reason}"

def DataTypeKind.isSupported : DataTypeKind → Bool
  | smallInt | integer | bigInt | real | doublePrecision | numeric _ _ | decimal _ _ | text | varchar _
  | char _ | boolean | date | time | timeWithTimeZone | timestamp | timestampWithTimeZone | interval
  | serial | bigSerial | uuid | array _ => true
  | _ => false

/-- ALTER TABLE operations on columns. A new column comes as the catalog definition that its constraints
map to. -/
inductive AlterOperation
  | addColumn (column : ColumnDef)
  | dropColumn (columnName : String)
  | renameColumn (oldName newName : String)

namespace TableConstraint

/-- A constraint names a column of its table. -/
def mentions (columnName : String) : TableConstraint → Bool
  | primaryKey columns | foreignKey columns _ _ | unique columns => columns.contains columnName
  | notNull column => column = columnName
  | check _ => false

def renameColumn (oldName newName : String) : TableConstraint → TableConstraint
  | primaryKey columns => primaryKey (columns.map fun c => if c = oldName then newName else c)
  | foreignKey columns referencedTable referencedColumns =>
    foreignKey (columns.map fun c => if c = oldName then newName else c) referencedTable
      referencedColumns
  | unique columns => unique (columns.map fun c => if c = oldName then newName else c)
  | notNull column => notNull (if column = oldName then newName else column)
  | check condition => check condition

end TableConstraint

namespace AlterOperation

/-- Validate the operation. -/
def validate (t : TableDef) : AlterOperation → Except DdlError Unit
  | addColumn column => do
    if column.name ∈ t.columnNames then throw (.columnAlreadyExists column.name t.name)
    if column.dataType.isSupported then pure ()
    else throw (.invalidConstraintDefinition column.name "Unsupported data type")
  | dropColumn columnName => do
    if columnName ∉ t.columnNames then throw (.columnNotFound columnName t.name)
    if t.constraints.any (·.mentions columnName) then throw (.columnInUse columnName t.name)
  | renameColumn oldName newName => do
    if oldName ∉ t.columnNames then throw (.columnNotFound oldName t.name)
    if newName ∈ t.columnNames then throw (.columnAlreadyExists newName t.name)

/-- The definition after the operation. Of columns of one name the first is dropped or renamed. -/
def newDefinition (t : TableDef) : AlterOperation → TableDef
  | addColumn column => { t with columns := t.columns ++ [{ column with columnId := t.columns.length }] }
  | dropColumn columnName => { t with
      columns := t.columns.eraseIdx (t.columnNames.idxOf columnName)
      constraints := t.constraints.filter fun c => !c.mentions columnName }
  | renameColumn oldName newName => { t with
      columns := t.columns.modify (t.columnNames.idxOf oldName) fun c => { c with name := newName }
      constraints := t.constraints.map (TableConstraint.renameColumn oldName newName) }

/-- Update the table definition in the catalog. The rows stay as they are. -/
def execute (op : AlterOperation) (t : SystemTable) : Except DdlError SystemTable := do
  op.validate t.definition
  return { t with definition := op.newDefinition t.definition }

/-- Where a column is after the operation, if it survives. -/
def newPosition (t : TableDef) : AlterOperation → ℕ → Option ℕ
  | addColumn _, i => some i
  | dropColumn columnName, i =>
    let k := t.columnNames.idxOf columnName
    if i = k then none else if i < k then some i else some (i - 1)
  | renameColumn _ _, i => some i

/-- The column that a surviving column has become. -/
def survivor (t : TableDef) : AlterOperation → ℕ → ColumnDef → ColumnDef
  | addColumn _, _, c => c
  | dropColumn _, _, c => c
  | renameColumn oldName newName, i, c =>
    if t.columnNames.idxOf oldName = i then { c with name := newName } else c

/-- The surviving columns stand at their new positions. -/
theorem getElem?_newDefinition {op : AlterOperation} {t : TableDef} {i j : ℕ} {c : ColumnDef}
    (hc : t.columns[i]? = some c) (hj : op.newPosition t i = some j) :
    (op.newDefinition t).columns[j]? = some (op.survivor t i c) := by
  cases op with
  | addColumn column =>
    cases hj
    rw [newDefinition, List.getElem?_append_left (List.getElem?_eq_some_iff.mp hc).1, hc, survivor]
  | dropColumn columnName =>
    rw [newPosition] at hj
    rw [newDefinition, List.getElem?_eraseIdx, survivor]
    split at hj
    · cases hj
    split at hj
    · next hlt =>
      cases hj
      rw [if_pos hlt, hc]
    · next hne hge =>
      cases hj
      have hi : i - 1 + 1 = i := by omega
      rw [if_neg (by omega), hi, hc]
  | renameColumn oldName newName =>
    cases hj
    rw [newDefinition, List.getElem?_modify, hc, survivor]
    rfl

end AlterOperation

/-! ## Rows and columns -/

namespace SystemTable

/-- Every row has as many values as the table has columns. -/
def Aligned (t : SystemTable) : Prop := ∀ row ∈ t.data, row.length = t.definition.columns.length

/-- Every row is still there, surviving columns read in it what they read before, and an added column
reads its default or NULL. -/
structure ReadsKept (op : AlterOperation) (t t' : SystemTable) : Prop where
  length : t'.data.length = t.data.length
  survivors : ∀ (k : ℕ) (row row' : Row) (i j : ℕ), t.data[k]? = some row → t'.data[k]? = some row' →
    op.newPosition t.definition i = some j → i < t.definition.columns.length → row'[j]? = row[i]?
  added : ∀ column, op = .addColumn column → ∀ row' ∈ t'.data,
    row'[t.definition.columns.length]? = some (column.defaultValue.getD .null)

end SystemTable

/-- ALTER TABLE and INSERT statements -/
inductive AlterStep (E : Type)
  | alter (op : AlterOperation)
  | insert (s : Surroundings) (columns : List String) (values : List (List E))

namespace AlterStep

variable [DebugText] {E : Type}

/-- The table after a statement. An ALTER TABLE that fails changes nothing. -/
def step (evaluate : Evaluator E) (m : IndexManager) (t : SystemTable) : AlterStep E → SystemTable
  | alter op => (op.execute t).toOption.getD t
  | insert s columns values => final (InsertOperator.execute evaluate m s columns values) t

/-- The table after a list of statements. -/
def run (evaluate : Evaluator E) (m : IndexManager) (t : SystemTable) (ops : List (AlterStep E)) :
    SystemTable :=
  ops.foldl (step evaluate m) t

/-- A column is added or dropped only while the table has no rows. -/
def ReshapesEmpty (t : SystemTable) : AlterStep E → Prop
  | alter (.addColumn column) =>
    (AlterOperation.addColumn column).validate t.definition = .ok () → t.data = []
  | alter (.dropColumn columnName) =>
    (AlterOperation.dropColumn columnName).validate t.definition = .ok () → t.data = []
  | alter (.renameColumn _ _) => True
  | insert _ _ _ => True

/-- A statement leaves the rows in line with the definition, and what columns read as it was. -/
def KeepsAlignment (evaluate : Evaluator E) (m : IndexManager) (t : SystemTable) (op : AlterStep E) : Prop :=
  (step evaluate m t op).Aligned ∧
    ∀ alteration t', op = alter alteration → alteration.execute t = .ok t' → t.ReadsKept alteration t'

end AlterStep

open AlterStep

variable {op : AlterOperation} {t t' : SystemTable}

theorem execute_of_ok (h : op.validate t.definition = .ok ()) :
    op.execute t = .ok { t with definition := op.newDefinition t.definition } := by
  rw [AlterOperation.execute, h]
  rfl

theorem execute_of_error {e : DdlError} (h : op.validate t.definition = .error e) :
    op.execute t = .error e := by
  rw [AlterOperation.execute, h]
  rfl

/-- A column is dropped only if it is there. -/
theorem length_of_validate_drop {columnName : String}
    (h : (AlterOperation.dropColumn columnName).validate t.definition = .ok ()) :
    t.definition.columns.length =
      ((AlterOperation.dropColumn columnName).newDefinition t.definition).columns.length + 1 := by
  rw [AlterOperation.validate] at h
  have hmem : columnName ∈ t.definition.columnNames := by
    by_contra hnot
    rw [if_pos hnot] at h
    cases h
  have hlt : t.definition.columnNames.idxOf columnName < t.definition.columns.length := by
    have hidx := List.idxOf_lt_length_of_mem hmem
    rwa [TableDef.columnNames, List.length_map] at hidx
  rw [AlterOperation.newDefinition, List.length_eraseIdx_of_lt hlt]
  omega

/-! ## INSERT -/

theorem length_foldl {α : Type} {f : Row → α → Row} (hf : ∀ row a, (f row a).length = row.length)
    (l : List α) (row : Row) : (l.foldl f row).length = row.length := by
  induction l generalizing row with
  | nil => rfl
  | cons a l ih => rw [List.foldl_cons, ih, hf]

theorem length_placeValues (columns : List String) (tableDef : TableDef) (provided : List Value) :
    (InsertOperator.placeValues columns tableDef provided).length = tableDef.columns.length := by
  unfold InsertOperator.placeValues
  split
  · rw [length_foldl fun row p => List.length_set, List.length_replicate]
  · rw [length_foldl, List.length_replicate]
    intro row p
    split
    · exact List.length_set
    · rfl

/-- The rows of an INSERT have a value for every column. -/
theorem length_of_mem_fullRows {E : Type} {evaluate : Evaluator E} {s : Surroundings}
    {columns : List String} {values : List (List E)} {tableDef : TableDef} {row : Row}
    (h : row ∈ InsertOperator.fullRows evaluate s columns values tableDef) :
    row.length = tableDef.columns.length := by
  obtain ⟨p, -, rfl⟩ := List.mem_map.mp h
  rw [InsertOperator.mapValuesToTableSchema, List.length_map, List.length_zipIdx, List.length_zip,
    length_placeValues, Nat.min_self]

theorem aligned_insert (t : SystemTable) (row : Row) :
    (t.insert row).Aligned ↔ t.Aligned ∧ row.length = t.definition.columns.length := by
  simp [SystemTable.Aligned, SystemTable.insert, or_imp, forall_and]

section Runs

variable [DebugText] {m : IndexManager}

theorem stores_of_forall {Q : SystemTable → Row → Prop} {rows : List (Row × Result Unit)}
    (h : ∀ p ∈ rows, ∀ t', t'.definition = t.definition → Q t' p.1) : Stores m Q rows t := by
  induction rows generalizing t with
  | nil => trivial
  | cons p rows ih =>
    obtain ⟨hp, hrows⟩ := List.forall_mem_cons.mp h
    exact fun _ => ⟨hp t rfl, fun _ => ih hrows⟩

/-! ## Runs -/

variable {E : Type} {evaluate : Evaluator E}

theorem aligned_step_insert (h : t.Aligned) (s : Surroundings) (columns : List String)
    (values : List (List E)) : (step evaluate m t (.insert s columns values)).Aligned := by
  have hrows := insertRows_iff (m := m) (t := t) aligned_insert
    ((InsertOperator.fullRows evaluate s columns values t.definition).zipIdx.map
      fun p => (p.1, s.persist p.2))
  refine hrows.mpr ⟨h, stores_of_forall fun p hp t' ht' => ?_⟩
  obtain ⟨q, hq, rfl⟩ := List.mem_map.mp hp
  rw [ht']
  exact length_of_mem_fullRows (List.fst_mem_of_mem_zipIdx hq)

/-- An operation that changes the number of columns needs a table without rows. -/
theorem keepsAlignment_alter_iff (h : t.Aligned) (hok : op.validate t.definition = .ok ())
    (hlength : (op.newDefinition t.definition).columns.length ≠ t.definition.columns.length) :
    KeepsAlignment evaluate m t (.alter op) ↔ t.data = [] := by
  have hexecute := execute_of_ok hok
  constructor
  · rintro ⟨haligned, -⟩
    rw [step, hexecute] at haligned
    by_contra hne
    obtain ⟨row, hrow⟩ := List.exists_mem_of_ne_nil _ hne
    have hnew : row.length = (op.newDefinition t.definition).columns.length := haligned row hrow
    exact hlength (hnew.symm.trans (h row hrow))
  · intro hempty
    refine ⟨?_, ?_⟩
    · rw [step, hexecute]
      intro row hrow
      rw [Except.toOption, Option.getD_some, hempty] at hrow
      cases hrow
    · rintro alteration t' ⟨⟩ ht'
      cases hexecute.symm.trans ht'
      refine ⟨rfl, fun k row row' i j hrow => ?_, fun column _ row' hrow' => ?_⟩
      · rw [hempty] at hrow
        cases hrow
      · rw [hempty] at hrow'
        cases hrow'

/-- A statement that fails to alter the table keeps everything. -/
theorem keepsAlignment_of_error (h : t.Aligned) {e : DdlError}
    (herror : op.validate t.definition = .error e) : KeepsAlignment evaluate m t (.alter op) := by
  have hexecute := execute_of_error herror
  refine ⟨?_, ?_⟩
  · rw [step, hexecute]
    exact h
  · rintro alteration t' ⟨⟩ ht'
    cases hexecute.symm.trans ht'

theorem keepsAlignment_rename (h : t.Aligned) {oldName newName : String}
    (hok : (AlterOperation.renameColumn oldName newName).validate t.definition = .ok ()) :
    KeepsAlignment evaluate m t (.alter (.renameColumn oldName newName)) := by
  have hexecute := execute_of_ok hok
  refine ⟨?_, ?_⟩
  · rw [step, hexecute]
    intro row hrow
    change row.length = (t.definition.columns.modify _ _).length
    rw [List.length_modify]
    exact h row hrow
  · rintro alteration t' ⟨⟩ ht'
    cases hexecute.symm.trans ht'
    refine ⟨rfl, fun k row row' i j hrow hrow' hj _ => ?_, fun column hcolumn => ?_⟩
    · cases hj
      cases hrow.symm.trans hrow'
      rfl
    · cases hcolumn

theorem keepsAlignment_iff (h : t.Aligned) (op : AlterStep E) :
    KeepsAlignment evaluate m t op ↔ ReshapesEmpty t op := by
  cases op with
  | insert s columns values =>
    apply iff_of_true _ trivial
    exact ⟨aligned_step_insert h s columns values, fun _ _ hop => by cases hop⟩
  | alter op =>
    rcases hvalidate : op.validate t.definition with e | ⟨⟩
    · apply iff_of_true (keepsAlignment_of_error h hvalidate)
      cases op with
      | addColumn column =>
        intro hok
        cases hok.symm.trans hvalidate
      | dropColumn columnName =>
        intro hok
        cases hok.symm.trans hvalidate
      | renameColumn oldName newName => trivial
    · cases op with
      | addColumn column =>
        rw [keepsAlignment_alter_iff h hvalidate, ReshapesEmpty, hvalidate]
        · simp
        · simp [AlterOperation.newDefinition]
      | dropColumn columnName =>
        rw [keepsAlignment_alter_iff h hvalidate, ReshapesEmpty, hvalidate]
        · simp
        · have hlength := length_of_validate_drop hvalidate
          omega
      | renameColumn oldName newName => exact iff_of_true (keepsAlignment_rename h hvalidate) trivial

/-- Over every sequence of ALTER TABLE and INSERT statements on a table whose rows are in line with its
definition, they stay in line and columns read what they are to read, if and only if columns are added
and dropped only while the table has no rows. -/
theorem aligned_iff (evaluate : Evaluator E) (m : IndexManager) {t : SystemTable} (h : t.Aligned)
    (ops : List (AlterStep E)) :
    ((∀ pre, pre <+: ops → (run evaluate m t pre).Aligned) ∧
      ∀ pre op post, ops = pre ++ op :: post → ∀ alteration t', op = .alter alteration →
        alteration.execute (run evaluate m t pre) = .ok t' →
          (run evaluate m t pre).ReadsKept alteration t') ↔
      ∀ pre op post, ops = pre ++ op :: post → ReshapesEmpty (run evaluate m t pre) op := by
  unfold run
  rw [forall_prefix_iff h]
  simp only [← forall_and]
  refine forall_step_iff (I := SystemTable.Aligned) (G := KeepsAlignment evaluate m) h ?_ ?_ ops
  · exact fun t op _ hstep => hstep.1
  · exact fun t op h => keepsAlignment_iff h op

end Runs

/-- A table of one column and one row. -/
def oneRow : SystemTable :=
  ⟨⟨2, "t", 1, [⟨0, "a", .integer, true, none, false, false, none⟩], []⟩, [[.integer 1]]⟩

theorem aligned_oneRow : oneRow.Aligned := by
  intro row hrow
  rw [List.mem_singleton.mp hrow]
  rfl

/-- A column of a table with rows is renamed. -/
theorem aligned_renamed :
    letI : DebugText := ⟨fun _ => "", fun _ => "", fun _ => ""⟩
    (run literalValue IndexManager.new oneRow [.alter (.renameColumn "a" "b")]).Aligned := by
  let texts : DebugText := ⟨fun _ => "", fun _ => "", fun _ => ""⟩
  refine ((aligned_iff literalValue IndexManager.new aligned_oneRow
    [.alter (.renameColumn "a" "b")]).mpr ?_).1 _ (List.prefix_refl _)
  intro pre op post hops
  have hop : op ∈ [(.alter (.renameColumn "a" "b") : AlterStep Value)] := by
    rw [hops]
    exact List.mem_append_right _ List.mem_cons_self
  rw [List.mem_singleton.mp hop]
  trivial

/-- A column is added to a table with rows. -/
theorem not_aligned_added :
    ¬ ∀ (_ : DebugText) (m : IndexManager) (t : SystemTable) (ops : List (AlterStep Value)), t.Aligned →
      ∀ pre, pre <+: ops → (run literalValue m t pre).Aligned := by
  intro h
  have haligned := h ⟨fun _ => "", fun _ => "", fun _ => ""⟩ IndexManager.new oneRow
    [.alter (.addColumn ⟨0, "b", .integer, true, some (.integer 0), false, false, none⟩)] aligned_oneRow _
    (List.prefix_refl _) [.integer 1] (List.mem_singleton_self _)
  exact absurd haligned (by decide)

end Rustgresql
