import Rustgresql.Executor.TableConstraints

/-!
# CREATE TABLE (`executor/engine.rs`)

The columns and constraints are mapped and checked, the table and the indexes of its columns are entered into the
catalog, and then the indexes of its constraints. When one of these steps fails, the indexes that were recorded and the
table are dropped; its rows in `pg_table` and `pg_column` stay. `unchanged_iff`: a statement that fails leaves the
catalog unchanged exactly if it fails before the table is entered.
-/

namespace Rustgresql

open StateSpec

/-- CREATE TABLE. A column comes as the catalog definition that its constraints map to, or with the error of the
mapping. -/
structure CreateTableStatement where
  tableName : String
  columns : List (Except RustgreSQLError ColumnDef)
  tableConstraints : List NewConstraint
  ifNotExists : Bool

/-- What the write-ahead log answers to the begin, the record and the commit of the statement. Without a log there is
nothing that fails. -/
structure DdlLog where
  begin : Except RustgreSQLError Unit
  record : Except RustgreSQLError Unit
  commit : Except RustgreSQLError Unit

namespace CatalogManager

/-! ## Checks -/

/-- Validate a catalog column definition for CREATE TABLE -/
def validateCatalogColumnDefinition (column : ColumnDef) : Except RustgreSQLError Unit :=
  if ¬ column.dataType.isSupported then .error (.invalidConstraintDefinition column.name "Unsupported data type")
  else if column.primaryKey ∧ column.nullable then
    .error (.invalidConstraintDefinition column.name "Primary key columns cannot be nullable")
  else .ok ()

/-- Convert AST column definitions to catalog column definitions -/
def mapColumns : List (Except RustgreSQLError ColumnDef) → Except RustgreSQLError (List ColumnDef)
  | [] => .ok []
  | mapped :: columns => do
    let column ← mapped
    validateCatalogColumnDefinition column
    let catalogColumns ← mapColumns columns
    return column :: catalogColumns

/-- The constraint in the catalog -/
def mapTableConstraint : NewConstraint → Except RustgreSQLError TableConstraint
  | .primaryKey columns => .ok (.primaryKey columns)
  | .foreignKey columns refTable refColumns => .ok (.foreignKey columns refTable refColumns)
  | .unique columns => .ok (.unique columns)
  | .check _ condition => TableConstraint.check <$> condition

def mapTableConstraints : List NewConstraint → Except RustgreSQLError (List TableConstraint)
  | [] => .ok []
  | constraint :: constraints => do
    let catalogConstraint ← mapTableConstraint constraint
    let catalogConstraints ← mapTableConstraints constraints
    return catalogConstraint :: catalogConstraints

/-- Change the first column of a name. -/
def updateColumn (name : String) (f : ColumnDef → ColumnDef) (columns : List ColumnDef) : List ColumnDef :=
  columns.modify (columns.findIdx (·.name = name)) f

def mergeConstraint (columns : List ColumnDef) : TableConstraint → List ColumnDef
  | .primaryKey pkColumns =>
    -- Primary keys are implicitly NOT NULL
    pkColumns.foldl (fun columns name =>
      updateColumn name (fun c => { c with primaryKey := true, nullable := false }) columns) columns
  | .unique uniqColumns =>
    uniqColumns.foldl (fun columns name => updateColumn name (fun c => { c with unique := true }) columns) columns
  | .notNull name => updateColumn name (fun c => { c with nullable := false }) columns
  | .foreignKey _ _ _ | .check _ => columns

/-- Merge column-level and table-level constraints -/
def mergeConstraints (columns : List ColumnDef) (tableConstraints : List TableConstraint) : List ColumnDef :=
  tableConstraints.foldl mergeConstraint columns

/-- The columns of a primary key are there and cannot be NULL. -/
def requireKeyColumns (tableName : String) (tableColumns : List ColumnDef) (columns : List String) :
    List String → Except RustgreSQLError Unit
  | [] => .ok ()
  | columnName :: rest =>
    match tableColumns.find? (·.name = columnName) with
    | some column =>
      if column.nullable then
        let listed := ", ".intercalate columns
        .error (.invalidConstraintDefinition s!"PRIMARY KEY ({listed})" "Primary key columns cannot be nullable")
      else requireKeyColumns tableName tableColumns columns rest
    | none => .error (.columnNotFound columnName tableName .create)

def requireTableColumns (tableName : String) (tableColumns : List ColumnDef) (columns : List String) :
    Except RustgreSQLError Unit :=
  match columns.find? (· ∉ tableColumns.map ColumnDef.name) with
  | some columnName => .error (.columnNotFound columnName tableName .create)
  | none => .ok ()

def validateCreateConstraint (c : CatalogManager) (tableName : String) (tableColumns : List ColumnDef) :
    NewConstraint → Except RustgreSQLError Unit
  | .primaryKey columns => requireKeyColumns tableName tableColumns columns columns
  | .foreignKey columns refTable _ => do
    requireTableColumns tableName tableColumns columns
    if (c.getTable refTable).isNone then throw (.tableNotFound refTable .create)
  | .unique columns => requireTableColumns tableName tableColumns columns
  | .check _ _ => .ok ()

/-- Validate table constraints for CREATE TABLE -/
def validateTableConstraints (c : CatalogManager) (tableName : String) (tableColumns : List ColumnDef) :
    List NewConstraint → Except RustgreSQLError Unit
  | [] => .ok ()
  | constraint :: constraints => do
    validateCreateConstraint c tableName tableColumns constraint
    validateTableConstraints c tableName tableColumns constraints

/-- The columns and constraints of the new table, mapped and checked -/
def prepareTable (c : CatalogManager) (create : CreateTableStatement) :
    Except RustgreSQLError (List ColumnDef × List TableConstraint) := do
  let catalogColumns ← mapColumns create.columns
  let catalogTableConstraints ← mapTableConstraints create.tableConstraints
  let finalColumns := mergeConstraints catalogColumns catalogTableConstraints
  validateTableConstraints c create.tableName finalColumns create.tableConstraints
  return (finalColumns, catalogTableConstraints)

/-! ## The statement -/

/-- The catalog, and the names of the indexes that were created -/
abbrev Creation := CatalogManager × List String

abbrev CreationCall (α : Type) := EStateM Failure Creation α

/-- A call of the catalog. -/
def onCreation {α : Type} (x : Call α) : CreationCall α := fun s =>
  match x s.1 with
  | .ok a c => .ok a (c, s.2)
  | .error e c => .error e (c, s.2)

def recordIndex (indexName : String) : CreationCall Unit := modify fun s => (s.1, s.2 ++ [indexName])

/-- Create indexes for constraints. A primary key is recorded under another name than its index has. -/
def createConstraintIndex (kindText : DataTypeKind → String) (tableName : String) (tableId : ℕ) :
    TableConstraint → CreationCall Unit
  | .primaryKey columns => do
    onCreation (onIndexes (discard (IndexManager.createPrimaryKeyIndex tableId tableName columns)))
    recordIndex s!"{tableName}_pkey"
  | .unique columns => do
    let indexName := s!"unique_{tableName}_{joined columns}"
    onCreation (onIndexes (discard (IndexManager.createIndex indexName tableId columns .btree true)))
    recordIndex indexName
  | .foreignKey columns referencedTable referencedColumns => do
    -- Validate foreign key reference
    onCreation do
      let tableDef ← tableOrError tableName .alter
      ofExcept (validateForeignKeyConstraint kindText columns referencedTable referencedColumns tableName tableDef
        (← get))
    -- Create foreign key index for better join performance
    if columns ≠ [] then
      let indexName := s!"fk_{tableName}_{referencedTable}_{joined columns}"
      onCreation (onIndexes (discard (IndexManager.createIndex indexName tableId columns .btree false)))
      recordIndex indexName
  | .check _ | .notNull _ => pure ()

def createConstraintIndexes (kindText : DataTypeKind → String) (tableName : String) (tableId : ℕ) :
    List TableConstraint → CreationCall Unit
  | [] => pure ()
  | constraint :: constraints => do
    createConstraintIndex kindText tableName tableId constraint
    createConstraintIndexes kindText tableName tableId constraints

/-- Enter the table and the indexes of its columns, log it, and create the indexes of its constraints. -/
def enterTable (kindText : DataTypeKind → String) (log : DdlLog) (tableName : String) (columns : List ColumnDef)
    (constraints : List TableConstraint) : CreationCall Unit := do
  let tableId ← onCreation (createTable tableName columns)
  onCreation (ofExcept log.record)
  createConstraintIndexes kindText tableName tableId constraints

/-- Cleanup any partially created indexes, and try to drop the partially created table -/
def cleanup (createdIndexes : List String) (tableName : String) : Call Unit := do
  onIndexes (createdIndexes.forM IndexManager.dropIndex)
  dropTable tableName

/-- Execute CREATE TABLE statement with full catalog and storage integration -/
def executeCreateTable (kindText : DataTypeKind → String) (log : DdlLog) (create : CreateTableStatement) : Call Unit := do
  if (getTable create.tableName (← get)).isSome then
    require create.ifNotExists (.err (.tableAlreadyExists create.tableName))
  else
    ofExcept log.begin
    let c ← get
    match c.prepareTable create with
    | .error e =>
      cleanup [] create.tableName
      throw (.err e)
    | .ok (columns, constraints) =>
      match enterTable kindText log create.tableName columns constraints (c, []) with
      | .ok () (c, _) =>
        set c
        ofExcept log.commit
      | .error e (c, createdIndexes) =>
        set c
        cleanup createdIndexes create.tableName
        throw e

/-! ## When the catalog is unchanged -/

/-- The tables with their rows and the indexes with their lists are the same. -/
structure Unchanged (c c' : CatalogManager) : Prop where
  tables : ∀ name, c'.tableManager.tables.lookup name = c.tableManager.tables.lookup name
  indexes : ∀ name, c'.indexManager.indexes.lookup name = c.indexManager.indexes.lookup name
  tableIndexes : ∀ tableId, c'.indexManager.tableIndexes.lookup tableId = c.indexManager.tableIndexes.lookup tableId

/-- The statement fails before it enters the table: there is a table of the name, the log refuses the beginning, or a
column or constraint is refused. -/
def FailsBefore (log : DdlLog) (create : CreateTableStatement) (c : CatalogManager) : Prop :=
  (c.getTable create.tableName).isSome ∨ (∃ e, log.begin = .error e) ∨ ∃ e, c.prepareTable create = .error e

section Rows

/-- `pg_table` is there and has that many rows. -/
def HasRows (n : ℕ) (m : SystemTableManager) : Prop :=
  ∃ table, m.tables.lookup "pg_table" = some table ∧ table.data.length = n

variable {m : SystemTableManager} {n : ℕ} {tableName : String}

theorem HasRows.modify (h : HasRows n m) {tables : HashMap String SystemTable} (next : ℕ)
    (hsame : tables.lookup "pg_table" = m.tables.lookup "pg_table") : HasRows n ⟨tables, next⟩ := by
  obtain ⟨table, htable, hrows⟩ := h
  exact ⟨table, hsame.trans htable, hrows⟩

/-- A new table has a row in `pg_table`. -/
theorem spec_createTable (h : HasRows n m) (hname : tableName ≠ "pg_table") (columns : List ColumnDef) :
    Spec (SystemTableManager.createTable tableName columns) m (fun _ => HasRows (n + 1)) fun _ => HasRows (n + 1) := by
  obtain ⟨table, htable, hrows⟩ := h
  refine ⟨table.insert [.integer m.nextTableId, .string tableName, .integer 1], ?_, ?_⟩
  · change (HashMap.adjust "pg_column" _ (HashMap.adjust "pg_table" _ (m.tables.insert tableName _))).lookup _ = _
    rw [HashMap.lookup_adjust, if_neg (by decide), HashMap.lookup_adjust, if_pos rfl, HashMap.lookup_insert_eq,
      if_neg (Ne.symm hname), htable]
    rfl
  · rw [SystemTable.insert, List.length_append, hrows]
    rfl

theorem keeps_dropTable_rows (hname : tableName ≠ "pg_table") :
    Keeps (fun c : CatalogManager => HasRows n c.tableManager) (dropTable tableName) := by
  refine Keeps.get_bind fun c => ?_
  split
  · refine Keeps.get_bind fun c => (keeps_onIndexes _).bind fun _ => keeps_onTables ?_
    refine Keeps.modify fun m h => h.modify m.nextTableId ?_
    rw [HashMap.lookup_erase_eq, if_neg (Ne.symm hname)]
  · exact Keeps.pure _

theorem spec_onTables {α : Type} {x : SystemTableManager.Call α} {c : CatalogManager}
    {Q : α → SystemTableManager → Prop} {E : Failure → SystemTableManager → Prop} (hx : Spec x c.tableManager Q E) :
    Spec (onTables x) c (fun a c' => Q a c'.tableManager) fun e c' => E e c'.tableManager := by
  unfold Spec onTables at *
  cases h : x c.tableManager <;> rw [h] at hx <;> exact hx

theorem spec_onCreation {α : Type} {x : Call α} {s : Creation} {Q : α → CatalogManager → Prop}
    {E : Failure → CatalogManager → Prop} (hx : Spec x s.1 Q E) :
    Spec (onCreation x) s (fun a s' => Q a s'.1) fun e s' => E e s'.1 := by
  unfold Spec onCreation at *
  cases h : x s.1 <;> rw [h] at hx <;> exact hx

theorem keeps_onCreation {α : Type} {J : CatalogManager → Prop} {x : Call α} (hx : Keeps J x) :
    Keeps (fun s : Creation => J s.1) (onCreation x) :=
  fun s hs => spec_onCreation (hx s.1 hs)

theorem keeps_recordIndex {J : CatalogManager → Prop} (indexName : String) :
    Keeps (fun s : Creation => J s.1) (recordIndex indexName) :=
  Keeps.modify fun _ h => h

/-- The indexes of constraints do not change tables. -/
theorem keeps_createConstraintIndex {I : SystemTableManager → Prop} (kindText : DataTypeKind → String)
    (tableName : String) (tableId : ℕ) (constraint : TableConstraint) :
    Keeps (fun s : Creation => I s.1.tableManager) (createConstraintIndex kindText tableName tableId constraint) := by
  cases constraint with
  | primaryKey columns =>
    exact (keeps_onCreation (keeps_onIndexes _)).bind fun _ =>
      keeps_recordIndex (J := fun c => I c.tableManager) _
  | unique columns =>
    exact (keeps_onCreation (keeps_onIndexes _)).bind fun _ =>
      keeps_recordIndex (J := fun c => I c.tableManager) _
  | foreignKey columns referencedTable referencedColumns =>
    refine Keeps.bind (keeps_onCreation (J := fun c => I c.tableManager) ?_) fun _ => ?_
    · exact (keeps_tableOrError _ _).bind fun tableDef => Keeps.get_bind fun c => keeps_ofExcept _
    · split
      · exact (keeps_onCreation (keeps_onIndexes _)).bind fun _ =>
          keeps_recordIndex (J := fun c => I c.tableManager) _
      · exact Keeps.pure _
  | check condition => exact Keeps.pure _
  | notNull column => exact Keeps.pure _

theorem keeps_createConstraintIndexes {I : SystemTableManager → Prop} (kindText : DataTypeKind → String)
    (tableName : String) (tableId : ℕ) (constraints : List TableConstraint) :
    Keeps (fun s : Creation => I s.1.tableManager)
      (createConstraintIndexes kindText tableName tableId constraints) := by
  induction constraints with
  | nil => exact Keeps.pure _
  | cons constraint constraints ih =>
    exact (keeps_createConstraintIndex kindText tableName tableId constraint).bind fun _ => ih

/-- Whether the table can be entered with all its indexes or not, it has a row in `pg_table`. -/
theorem spec_enterTable (kindText : DataTypeKind → String) (log : DdlLog) {c : CatalogManager} {createdIndexes : List String}
    (h : HasRows n c.tableManager) (hname : tableName ≠ "pg_table") (columns : List ColumnDef)
    (constraints : List TableConstraint) :
    Spec (enterTable kindText log tableName columns constraints) (c, createdIndexes)
      (fun _ s => HasRows (n + 1) s.1.tableManager) fun _ s => HasRows (n + 1) s.1.tableManager := by
  have hcreate : Spec (onCreation (createTable tableName columns)) (c, createdIndexes)
      (fun _ s => HasRows (n + 1) s.1.tableManager) fun _ s => HasRows (n + 1) s.1.tableManager := by
    refine @spec_onCreation _ _ (c, createdIndexes) (fun _ c => HasRows (n + 1) c.tableManager)
      (fun _ c => HasRows (n + 1) c.tableManager) ?_
    refine (spec_onTables (spec_createTable h hname columns)).bind fun tableId c hc => ?_
    exact ((keeps_onIndexes _).bind fun _ => Keeps.pure _) c hc
  refine hcreate.bind fun tableId s hs => ?_
  refine Spec.bind (@keeps_onCreation _ (fun c => HasRows (n + 1) c.tableManager) _ (keeps_ofExcept log.record) s hs)
    fun _ s hs => ?_
  exact keeps_createConstraintIndexes kindText tableName tableId constraints s hs

end Rows

section Statement

variable {kindText : DataTypeKind → String} {log : DdlLog} {create : CreateTableStatement} {c c' : CatalogManager}
  {e : Failure}

theorem executeCreateTable_of_exists (h : (c.getTable create.tableName).isSome) :
    executeCreateTable kindText log create c =
      require (create.ifNotExists : Prop) (.err (.tableAlreadyExists create.tableName)) c := by
  rw [executeCreateTable, get_bind]
  exact congrFun (if_pos h) c

/-- What is left to do once it is known that there is no table of the name -/
theorem executeCreateTable_cases (h : c.getTable create.tableName = none) :
    (∃ e, log.begin = .error e ∧ executeCreateTable kindText log create c = .error (.err e) c) ∨
    (∃ e, log.begin = .ok () ∧ c.prepareTable create = .error e ∧
      executeCreateTable kindText log create c = .error (.err e) c) ∨
    ∃ columns constraints, log.begin = .ok () ∧ c.prepareTable create = .ok (columns, constraints) ∧
      executeCreateTable kindText log create c =
        match enterTable kindText log create.tableName columns constraints (c, []) with
        | .ok _ s => ofExcept log.commit s.1
        | .error e s => (cleanup s.2 create.tableName >>= fun _ => throw e) s.1 := by
  have hnone : ¬ (c.getTable create.tableName).isSome := by simp [h]
  have hcleanup : cleanup [] create.tableName c = .ok () c := by
    change dropTable create.tableName c = .ok () c
    rw [dropTable, get_bind]
    unfold getTable at h
    rw [h]
    rfl
  unfold executeCreateTable
  rw [get_bind, if_neg hnone]
  rcases hbegin : log.begin with e | u
  · exact .inl ⟨e, rfl, rfl⟩
  · right
    rw [bind_of_ok (rfl : ofExcept (.ok u) c = .ok u c), get_bind]
    rcases hprepare : c.prepareTable create with e | ⟨columns, constraints⟩
    · left
      exact ⟨e, rfl, rfl, bind_of_ok hcleanup⟩
    · right
      refine ⟨columns, constraints, rfl, rfl, ?_⟩
      dsimp only
      rcases henter : enterTable kindText log create.tableName columns constraints (c, []) with ⟨_, s⟩ | ⟨e, s⟩ <;> rfl

/-- After the table is entered, `pg_table` has a row more. -/
theorem hasRows_of_not_failsBefore {n : ℕ} (hrows : HasRows n c.tableManager)
    (h : executeCreateTable kindText log create c = .error e c') (hbefore : ¬ FailsBefore log create c) :
    HasRows (n + 1) c'.tableManager := by
  simp only [FailsBefore, not_or, Bool.not_eq_true, Option.isSome_eq_false_iff, Option.isNone_iff_eq_none] at hbefore
  obtain ⟨hnone, hbegin, hprepare⟩ := hbefore
  have hname : create.tableName ≠ "pg_table" := by
    intro hname
    obtain ⟨table, htable, -⟩ := hrows
    rw [hname, getTable, SystemTableManager.getTable, htable] at hnone
    cases hnone
  rcases executeCreateTable_cases hnone with ⟨e, he, -⟩ | ⟨e, -, he, -⟩ | ⟨columns, constraints, -, -, hrun⟩
  · exact absurd ⟨e, he⟩ hbegin
  · exact absurd ⟨e, he⟩ hprepare
  rw [hrun] at h
  have henter : Spec (enterTable kindText log create.tableName columns constraints) (c, [])
      (fun _ s => HasRows (n + 1) s.1.tableManager) fun _ s => HasRows (n + 1) s.1.tableManager :=
    spec_enterTable kindText log hrows hname columns constraints
  unfold Spec at henter
  rcases hentered : enterTable kindText log create.tableName columns constraints (c, []) with ⟨_, s⟩ | ⟨e, s⟩ <;>
    rw [hentered] at h henter
  · exact (@keeps_ofExcept _ (fun c => HasRows (n + 1) c.tableManager) log.commit s.1 henter).fail h
  · have hcleanup : Keeps (fun c : CatalogManager => HasRows (n + 1) c.tableManager)
        (cleanup s.2 create.tableName >>= fun _ => (throw e : Call Unit)) :=
      ((keeps_onIndexes _).bind fun _ => keeps_dropTable_rows hname).bind fun _ => Keeps.throw e
    exact (hcleanup s.1 henter).fail h

theorem Unchanged.refl (c : CatalogManager) : Unchanged c c := ⟨fun _ => rfl, fun _ => rfl, fun _ => rfl⟩

/-- A statement that fails leaves the catalog as it was if it fails before it enters the table, and only then, as long
as the catalog has its table of tables. -/
theorem unchanged_iff (h : executeCreateTable kindText log create c = .error e c') :
    (FailsBefore log create c → Unchanged c c') ∧
      ((c.getTable "pg_table").isSome → (Unchanged c c' ↔ FailsBefore log create c)) := by
  have hsame : FailsBefore log create c → Unchanged c c' := by
    intro hbefore
    suffices hc : c' = c from hc ▸ Unchanged.refl c
    by_cases hexists : (c.getTable create.tableName).isSome
    · rw [executeCreateTable_of_exists hexists] at h
      by_cases hskip : (create.ifNotExists : Prop)
      · rw [require_of hskip] at h
        cases h
      · rw [require_of_not hskip] at h
        cases h
        rfl
    have hnone : c.getTable create.tableName = none := by simpa using hexists
    rcases executeCreateTable_cases hnone with ⟨_, -, hrun⟩ | ⟨_, -, -, hrun⟩ | ⟨columns, constraints, hbegin, hprepare, -⟩
    · rw [hrun] at h
      cases h
      rfl
    · rw [hrun] at h
      cases h
      rfl
    · rcases hbefore with hsome | ⟨e, he⟩ | ⟨e, he⟩
      · exact absurd hsome hexists
      · cases hbegin.symm.trans he
      · cases hprepare.symm.trans he
  refine ⟨hsame, fun hpg => ⟨fun hunchanged => ?_, hsame⟩⟩
  by_contra hbefore
  obtain ⟨tableDef, htableDef⟩ := Option.isSome_iff_exists.mp hpg
  obtain ⟨table, htable, -⟩ := Option.map_eq_some_iff.mp htableDef
  have hrows : HasRows table.data.length c.tableManager := ⟨table, htable, rfl⟩
  obtain ⟨table', htable', hlength⟩ := hasRows_of_not_failsBefore hrows h hbefore
  rw [hunchanged.tables, htable] at htable'
  cases htable'
  omega

end Statement

/-- `CREATE TABLE t (a INTEGER, UNIQUE (a))` -/
def uniqueTable : CreateTableStatement :=
  ⟨"t", [.ok ⟨1, "a", .integer, true, none, false, false, none⟩], [.unique ["a"]], false⟩

/-- A log without errors -/
def noErrors : DdlLog := ⟨.ok (), .ok (), .ok ()⟩

theorem fails_uniqueTable : ∃ e c', executeCreateTable Database.noKindText noErrors uniqueTable .new = .error e c' :=
  ⟨_, _, rfl⟩

theorem unchanged_iff_uniqueTable : ∃ c',
    (FailsBefore noErrors uniqueTable .new → Unchanged .new c') ∧
      (((new.getTable "pg_table").isSome → (Unchanged .new c' ↔ FailsBefore noErrors uniqueTable .new))) := by
  obtain ⟨e, c', h⟩ := fails_uniqueTable
  exact ⟨c', unchanged_iff h⟩

/-- The index of the UNIQUE column is created twice, and the row of the table in `pg_table` stays. -/
theorem not_unchanged_uniqueTable : ¬ ∀ log create e c',
    executeCreateTable Database.noKindText log create .new = .error e c' → Unchanged .new c' := by
  intro h
  obtain ⟨e, c', hrun⟩ := fails_uniqueTable
  have hrows := hasRows_of_not_failsBefore ⟨_, rfl, rfl⟩ hrun (by
    rintro (hsome | ⟨e, he⟩ | ⟨e, he⟩)
    · cases hsome
    · cases he
    · cases he)
  obtain ⟨table, htable, hlength⟩ := hrows
  rw [(h _ _ _ _ hrun).tables] at htable
  cases htable
  cases hlength

end CatalogManager

end Rustgresql
