import Rustgresql.Catalog.Manager
import Rustgresql.Catalog.Schema
import Rustgresql.Executor.SystemTables
import Rustgresql.Transaction.DdlTransaction

/-!
# DROP TABLE, DROP INDEX and ALTER TABLE

Each of these statements looks up its object, begins a DDL transaction, locks the object, checks and does
its work, and commits. Nothing rolls the transaction back when one of the steps fails.
`released_iff`: a statement that fails leaves nothing behind exactly if it fails before the transaction.
-/

namespace Rustgresql

open StateSpec

/-- Table constraints of ALTER TABLE. The condition of a CHECK is a value or not, and comes as the text that
it is stored as, or with the error of its serialization. -/
inductive NewConstraint
  | primaryKey (columns : List String)
  | foreignKey (columns : List String) (refTable : String) (refColumns : List String)
  | unique (columns : List String)
  | check (isValue : Bool) (condition : Except RustgreSQLError String)

/-- ALTER TABLE operations. A new column comes as the catalog definition that its constraints map to, and
perhaps the error of the mapping. -/
inductive AlterTableOperation
  | addColumn (column : ColumnDef) (mappingError : Option RustgreSQLError)
  | dropColumn (columnName : String)
  | renameColumn (oldName newName : String)
  | addConstraint (constraint : NewConstraint)
  | dropConstraint (constraintName : String)
  | renameTable (newName : String)

/-- DDL statements that run in a DDL transaction. -/
inductive DdlStatement
  | dropTable (tableName : String) (ifExists : Bool)
  | dropIndex (indexName : String) (ifExists : Bool)
  | alterTable (tableName : String) (operation : AlterTableOperation)

/-- The catalog and the manager of DDL transactions. -/
structure Database where
  schemas : SchemaManager
  catalog : CatalogManager
  ddl : DdlTransactionManager

/-! ## The catalog's part -/

namespace CatalogManager

def getTable (name : String) (c : CatalogManager) : Option TableDef :=
  SystemTableManager.getTable name c.tableManager

/-- List all tables -/
def listTables (c : CatalogManager) : List TableDef :=
  c.tableManager.tables.entries.map fun e => e.2.definition

/-- The table, which has to be there. -/
def tableOrError (name : String) (operation : DdlOperation) : Call TableDef := do
  match getTable name (← get) with
  | some tableDef => return tableDef
  | none => throw (.err (.tableNotFound name operation))

/-- Validate table belongs to schema -/
def validateTableInSchema (schemas : SchemaManager) (tableName schemaName : String) (c : CatalogManager) :
    Bool :=
  match schemas.schemas.lookup schemaName, c.getTable tableName with
  | some schemaDef, some tableDef => tableDef.schemaId == schemaDef.schemaId
  | _, _ => false

/-- Resolve table reference (schema.table or just table) -/
def resolveTableReference (tableRef : String) : Except RustgreSQLError (String × String) :=
  if '.' ∈ tableRef.toList then
    match tableRef.toList.splitOn '.' with
    | [schemaName, tableName] => .ok (String.ofList schemaName, String.ofList tableName)
    | _ => .error (.parse s!"Invalid table reference: {tableRef}")
  else .ok ("public", tableRef)

/-! ### DROP TABLE and DROP INDEX -/

/-- Find all tables that depend on the given table (foreign key references) -/
def findTableDependents (tableName : String) (c : CatalogManager) : List String :=
  c.listTables.filterMap fun otherTable =>
    if otherTable.name ≠ tableName ∧ otherTable.constraints.any fun
        | .foreignKey _ referencedTable _ => referencedTable = tableName
        | _ => false
    then some s!"{otherTable.name}.{otherTable.name}"
    else none

/-- Drop table with all its dependencies (indexes, constraints, data) -/
def dropTableWithDependencies (tableName : String) : Call Unit := do
  let tableDef ← tableOrError tableName .drop
  onIndexes (dropIndexes (IndexManager.listTableIndexes tableDef.tableId (← get).indexManager))
  onTables (SystemTableManager.dropTable tableName)

/-- Get table name for an index by table ID -/
def getTableNameForIndex (tableId : ℕ) (c : CatalogManager) : Except RustgreSQLError String :=
  match c.listTables.find? (·.tableId == tableId) with
  | some table => .ok table.name
  | none => .error (.internal s!"Table with ID {tableId} not found for index")

/-- Find all indexes that depend on the given index: there are none. -/
def findIndexDependents (_indexName : String) (_c : CatalogManager) : List String := []

/-! ### ALTER TABLE -/

def ofExcept {α : Type} (x : Except RustgreSQLError α) : Call α :=
  match x with
  | .ok a => pure a
  | .error e => throw (.err e)

/-- The columns are in the table. -/
def requireColumns (columns : List String) (tableDef : TableDef) (operation : DdlOperation) :
    Except RustgreSQLError Unit :=
  match columns.find? (· ∉ tableDef.columnNames) with
  | some columnName => .error (.columnNotFound columnName tableDef.name operation)
  | none => .ok ()

/-- Validate a table constraint for ADD CONSTRAINT -/
def validateTableConstraint (tableDef : TableDef) : NewConstraint → Except RustgreSQLError Unit
  | .primaryKey columns => do
    requireColumns columns tableDef .create
    if tableDef.columns.any (·.primaryKey) then
      throw (.constraintViolation "primary_key" "Table already has a primary key")
  | .foreignKey columns _ _ => requireColumns columns tableDef .create
  | .unique columns => requireColumns columns tableDef .create
  | .check _ _ => .ok ()

/-- Constraints have no names, so none is found by its name. -/
def constraintExists (_constraintName : String) (_tableDef : TableDef) : Bool := false

/-- The error of a validation. -/
def ofDdlError : DdlError → RustgreSQLError
  | .columnNotFound columnName tableName => .columnNotFound columnName tableName .alter
  | .columnAlreadyExists columnName tableName => .columnAlreadyExists columnName tableName
  | .columnInUse columnName _ => .columnInUse columnName
  | .invalidConstraintDefinition columnName reason => .invalidConstraintDefinition columnName reason

/-- Validate an ALTER TABLE operation -/
def validateAlterTableOperation (tableDef : TableDef) (c : CatalogManager) :
    AlterTableOperation → Except RustgreSQLError Unit
  | .addColumn column _ => ((AlterOperation.addColumn column).validate tableDef).mapError ofDdlError
  | .dropColumn columnName => ((AlterOperation.dropColumn columnName).validate tableDef).mapError ofDdlError
  | .renameColumn oldName newName =>
    ((AlterOperation.renameColumn oldName newName).validate tableDef).mapError ofDdlError
  | .addConstraint constraint => validateTableConstraint tableDef constraint
  | .dropConstraint constraintName =>
    if constraintExists constraintName tableDef then .ok ()
    else .error (.constraintNotFound constraintName "Constraint not found")
  | .renameTable newName =>
    if (c.getTable newName).isSome then .error (.tableAlreadyExists newName) else .ok ()

/-- Create rollback information for ALTER TABLE operations -/
def createAlterTableRollbackInfo (tableDef : TableDef) : AlterTableOperation → Option RollbackInfo
  | .addColumn column _ => reverse s!"DROP COLUMN {column.name}"
  | .dropColumn columnName => reverse s!"ADD COLUMN {columnName} [restore]"
  | .renameColumn oldName _ => reverse s!"ALTER TABLE {oldName} RENAME COLUMN TO {oldName}"
  | .addConstraint _ => reverse "DROP CONSTRAINT [restore]"
  | .dropConstraint _ | .renameTable _ => none
where
  reverse (reverseOperation : String) : Option RollbackInfo :=
    some (.reverseAlter tableDef.name "public" reverseOperation tableDef)

/-- Column names in the name of an index. -/
def joined (columns : List String) : String := "_".intercalate columns

/-- Validate that a constraint can be added to the table -/
def validateConstraintAddition (tableDef : TableDef) (c : CatalogManager) :
    NewConstraint → Except RustgreSQLError Unit
  | .primaryKey columns => do
    if tableDef.constraints.any fun | .primaryKey _ => true | _ => false then
      throw (.constraintViolation "primary_key" "Table already has a primary key constraint")
    requireColumns columns tableDef .alter
  | .foreignKey columns refTable refColumns => do
    requireColumns columns tableDef .alter
    match c.getTable refTable with
    | none => throw (.tableNotFound refTable .create)
    | some refTableDef => requireColumns refColumns { refTableDef with name := refTable } .alter
  | .unique columns => do
    requireColumns columns tableDef .alter
    if TableConstraint.unique columns ∈ tableDef.constraints then
      let listed := ", ".intercalate columns
      throw (.constraintAlreadyExists s!"unique_{tableDef.name}_{joined columns}"
        s!"Unique constraint on columns ({listed}) already exists")
  | .check isValue _ =>
    if isValue then throw (.invalidCheckCondition "CHECK condition must be a boolean expression") else pure ()

/-- The columns of a primary key are there and cannot be NULL. -/
def requireNotNull (tableName : String) (tableDef : TableDef) : List String → Except RustgreSQLError Unit
  | [] => .ok ()
  | columnName :: columns =>
    match tableDef.columns.find? (·.name == columnName) with
    | some column =>
      if column.nullable then
        .error (.invalidConstraintDefinition "primary_key"
          s!"Column '{columnName}' used in primary key must be NOT NULL")
      else requireNotNull tableName tableDef columns
    | none => .error (.columnNotFound columnName tableName .alter)

/-- The column, which has to be there. -/
def columnOrError (columnName tableName : String) (tableDef : TableDef) : Except RustgreSQLError ColumnDef :=
  match tableDef.columns.find? (·.name == columnName) with
  | some column => .ok column
  | none => .error (.columnNotFound columnName tableName .alter)

/-- Validate foreign key constraint details. Types are compared by kind and shown by `kindText`. -/
def validateForeignKeyConstraint (kindText : DataTypeKind → String) (localColumns : List String)
    (referencedTable : String) (referencedColumns : List String) (tableName : String) (tableDef : TableDef)
    (c : CatalogManager) : Except RustgreSQLError Unit := do
  if localColumns.length ≠ referencedColumns.length then
    throw (.invalidConstraintDefinition "foreign_key"
      s!"Foreign key column count ({localColumns.length}) does not match referenced column count ({referencedColumns.length})")
  match c.getTable referencedTable with
  | none => throw (.tableNotFound referencedTable .create)
  | some refTableDef =>
    (localColumns.zip referencedColumns).forM fun (localCol, refCol) => do
      let localColDef ← columnOrError localCol tableName tableDef
      let refColDef ← columnOrError refCol referencedTable refTableDef
      if localColDef.dataType ≠ refColDef.dataType then
        throw (.invalidConstraintDefinition "foreign_key"
          s!"Data type mismatch between {tableName}.{localCol} ({kindText localColDef.dataType}) and {referencedTable}.{refCol} ({kindText refColDef.dataType})")

/-- ADD CONSTRAINT creates the index of the constraint. The definition of the table is not updated. -/
def executeAddConstraint (kindText : DataTypeKind → String) (constraint : NewConstraint)
    (tableName : String) : Call Unit := do
  let tableDef ← tableOrError tableName .alter
  ofExcept (validateConstraintAddition tableDef (← get) constraint)
  match constraint with
  | .primaryKey columns =>
    ofExcept (requireNotNull tableName tableDef columns)
    onIndexes (discard (IndexManager.createPrimaryKeyIndex tableDef.tableId tableName columns))
  | .foreignKey columns refTable refColumns =>
    ofExcept (validateForeignKeyConstraint kindText columns refTable refColumns tableName tableDef (← get))
  | .unique columns =>
    onIndexes (discard (IndexManager.createIndex s!"unique_{tableName}_{joined columns}"
      tableDef.tableId columns .btree true))
  | .check _ condition =>
    let text ← ofExcept condition
    if text.trimAscii.isEmpty then
      throw (.err (.invalidCheckCondition "CHECK condition cannot be empty"))

/-- The constraint goes by the name. Constraints have no names of their own, so names are made up from the
kind and the columns. -/
def matchesName (constraintName tableName : String) : TableConstraint → Bool
  | .primaryKey columns =>
    constraintName = "PRIMARY" ∨ constraintName = s!"pk_{joined columns}" ∨
      constraintName = s!"{tableName}_pkey"
  | .foreignKey columns referencedTable _ =>
    constraintName = s!"fk_{tableName}_{joined columns}_{referencedTable}" ∨
      constraintName = s!"{tableName}_{joined columns}_fkey"
  | .unique columns =>
    constraintName = s!"unique_{tableName}_{joined columns}" ∨
      constraintName = s!"{tableName}_{joined columns}_key"
  | .check condition =>
    "check".toList <:+: constraintName.toList ∨ constraintName.toList <:+: condition.toList
  | .notNull column =>
    constraintName = s!"notnull_{tableName}_{column}" ∨ constraintName = s!"{tableName}_{column}_not_null"

/-- Validate that a constraint can be removed from the table -/
def validateConstraintRemoval (constraint : TableConstraint) (tableName : String) (c : CatalogManager) :
    Except RustgreSQLError Unit :=
  match constraint with
  | .primaryKey _ =>
    match c.listTables.find? (fun other => other.constraints.any fun
        | .foreignKey _ referencedTable _ => referencedTable = tableName
        | _ => false) with
    | some other => .error (.dependencyExists tableName .table [s!"foreign_key_{other.name}_{tableName}"])
    | none => .ok ()
  | _ => .ok ()

/-- The index of a constraint. -/
def constraintIndex (tableName : String) : TableConstraint → Option String
  | .primaryKey _ => some s!"pk_{tableName}"
  | .foreignKey columns _ _ => some s!"fk_{tableName}_{joined columns}"
  | .unique columns => some s!"unique_{tableName}_{joined columns}"
  | .check _ | .notNull _ => none

/-- DROP CONSTRAINT drops the index of the constraint. The definition of the table is not updated. -/
def executeDropConstraint (constraintName tableName : String) : Call Unit := do
  let tableDef ← tableOrError tableName .alter
  match tableDef.constraints.find? (matchesName constraintName tableName) with
  | some constraint =>
    ofExcept (validateConstraintRemoval constraint tableName (← get))
    match constraintIndex tableName constraint with
    | some indexName => onIndexes (IndexManager.dropIndex indexName)
    | none => return
  | none => throw (.err (.constraintNotFound constraintName
      s!"Constraint '{constraintName}' not found in table '{tableName}'"))

/-- Execute the specific ALTER TABLE operation -/
def executeAlterTableOperation (kindText : DataTypeKind → String) (tableName : String) :
    AlterTableOperation → Call Unit
  | .addColumn column mappingError => do
    discard (tableOrError tableName .alter)
    match mappingError with
    | some e => throw (.err e)
    | none => onTables (SystemTableManager.executeColumnOperation (.addColumn column) tableName)
  | .dropColumn columnName =>
    onTables (SystemTableManager.executeColumnOperation (.dropColumn columnName) tableName)
  | .renameColumn oldName newName =>
    onTables (SystemTableManager.executeColumnOperation (.renameColumn oldName newName) tableName)
  | .addConstraint constraint => executeAddConstraint kindText constraint tableName
  | .dropConstraint constraintName => executeDropConstraint constraintName tableName
  | .renameTable newName => onTables (SystemTableManager.executeRenameTable newName)

/-! ### The checks of the statements -/

/-- What DROP TABLE checks under the lock, with its operation and rollback information. -/
def checkDropTable (schemaName tableName : String) (tableDef : TableDef) :
    Call (DdlOperationType × Option RollbackInfo) := do
  let dependents := (← get).findTableDependents tableName
  require (dependents = []) (.err (.dependencyExists s!"{schemaName}.{tableName}" .table dependents))
  return (.dropTable tableName schemaName, some (.restoreTable tableName schemaName tableDef))

/-- What DROP INDEX checks under the lock, with its operation and rollback information. -/
def checkDropIndex (indexName : String) (indexDef : IndexDef) :
    Call (DdlOperationType × Option RollbackInfo) := do
  require (¬ indexDef.isSystemGenerated) (.err (.unsupportedOperation "DROP INDEX"
    "Cannot drop system-generated indexes (drop the constraint or table instead)"))
  let tableName ← ofExcept ((← get).getTableNameForIndex indexDef.tableId)
  let dependents := (← get).findIndexDependents indexName
  require (dependents = []) (.err (.dependencyExists indexName .index dependents))
  return (.dropIndex indexName "public", some (.recreateIndex indexName tableName "public" indexDef))

/-- What ALTER TABLE checks under the lock, with its operation and rollback information. -/
def checkAlterTable (schemaName tableName : String) (tableDef : TableDef) (operation : AlterTableOperation) :
    Call (DdlOperationType × Option RollbackInfo) := do
  ofExcept ((← get).validateAlterTableOperation tableDef operation)
  return (.alterTable tableName schemaName, createAlterTableRollbackInfo tableDef operation)

end CatalogManager

/-! ## The statements -/

namespace Database

abbrev Call (α : Type) := EStateM Failure Database α

/-- A call of the catalog. -/
def onCatalog {α : Type} (x : CatalogManager.Call α) : Call α := fun db =>
  match x db.catalog with
  | .ok a c => .ok a { db with catalog := c }
  | .error e c => .error e { db with catalog := c }

/-- A call of the manager of DDL transactions. -/
def onDdl {α : Type} (x : DdlTransactionManager.Call α) : Call α := fun db =>
  match x db.ddl with
  | .ok a m => .ok a { db with ddl := m }
  | .error e m => .error e { db with ddl := m }

/-- The transaction of a statement on an object. All statements run as transaction 1. -/
def inTransaction (objectName : String)
    (check : CatalogManager.Call (DdlOperationType × Option RollbackInfo))
    (act : CatalogManager.Call Unit) : Call Unit := do
  let context ← onDdl (DdlTransactionManager.beginTransaction 1)
  onDdl (DdlTransactionManager.lockObject context objectName)
  onDdl (DdlTransactionManager.acquireGlobalLock objectName 1)
  let (operationType, rollbackInfo) ← onCatalog check
  let operationId ← onDdl (DdlTransactionManager.addOperation context operationType [] rollbackInfo)
  onDdl (DdlTransactionManager.startOperation context operationId)
  onCatalog act
  onDdl (DdlTransactionManager.completeOperation context operationId)
  onDdl (DdlTransactionManager.commitTransaction 1)

/-- Execute DROP TABLE statement -/
def executeDropTable (tableName : String) (ifExists : Bool) : Call Unit := do
  let (schemaName, resolvedTableName) ← onCatalog
    (CatalogManager.ofExcept (CatalogManager.resolveTableReference tableName))
  let db ← get
  match db.catalog.getTable resolvedTableName with
  | none => require ifExists (.err (.tableNotFound resolvedTableName .drop))
  | some tableDef =>
    require (db.catalog.validateTableInSchema db.schemas resolvedTableName schemaName)
      (.err (.tableNotFound s!"{schemaName}.{resolvedTableName}" .drop))
    inTransaction s!"{schemaName}.{resolvedTableName}"
      (CatalogManager.checkDropTable schemaName resolvedTableName tableDef)
      (CatalogManager.dropTableWithDependencies resolvedTableName)

/-- Execute DROP INDEX statement -/
def executeDropIndex (indexName : String) (ifExists : Bool) : Call Unit := do
  match (← get).catalog.indexManager.indexes.lookup indexName with
  | none => require ifExists (.err (.indexNotFound indexName .drop))
  | some indexDef =>
    inTransaction s!"index_{indexName}" (CatalogManager.checkDropIndex indexName indexDef)
      (CatalogManager.onIndexes (IndexManager.dropIndex indexName))

/-- Execute ALTER TABLE statement -/
def executeAlterTable (kindText : DataTypeKind → String) (tableName : String)
    (operation : AlterTableOperation) : Call Unit := do
  let (schemaName, resolvedTableName) ← onCatalog
    (CatalogManager.ofExcept (CatalogManager.resolveTableReference tableName))
  let db ← get
  match db.catalog.getTable resolvedTableName with
  | none => throw (.err (.tableNotFound resolvedTableName .alter))
  | some tableDef =>
    require (db.catalog.validateTableInSchema db.schemas resolvedTableName schemaName)
      (.err (.tableNotFound s!"{schemaName}.{resolvedTableName}" .alter))
    inTransaction s!"{schemaName}.{resolvedTableName}"
      (CatalogManager.checkAlterTable schemaName resolvedTableName tableDef operation)
      (CatalogManager.executeAlterTableOperation kindText resolvedTableName operation)

/-- Execute a statement. -/
def execute (kindText : DataTypeKind → String) : DdlStatement → Call Unit
  | .dropTable tableName ifExists => executeDropTable tableName ifExists
  | .dropIndex indexName ifExists => executeDropIndex indexName ifExists
  | .alterTable tableName operation => executeAlterTable kindText tableName operation

end Database

/-! ## What a failed statement leaves behind -/

/-- From `d` to `d'` no context came about that is still active or holds objects, and no lock was added. -/
structure Released (d d' : DdlTransactionManager) : Prop where
  active : ∀ transactionId context, d'.activeTransactions.lookup transactionId = some context →
    d.nextContext ≤ context → d'.nextContext ≤ context
  locked : ∀ context, d.nextContext ≤ context → context < d'.nextContext →
    (d'.contexts context).lockedObjects = []
  globalLocks : ∀ objectName transactionId, d'.globalLocks.lookup objectName = some transactionId →
    d.globalLocks.lookup objectName = some transactionId

theorem Released.refl (d : DdlTransactionManager) : Released d d where
  active _ _ _ h := h
  locked _ h hlt := absurd h (by omega)
  globalLocks _ _ h := h

/-- The transaction of a statement is active, with a context of its own. -/
def HasTransaction (context : ℕ) (d : DdlTransactionManager) : Prop :=
  d.activeTransactions.lookup 1 = some context ∧ context < d.nextContext

theorem HasTransaction.not_released {d d' : DdlTransactionManager} (h : HasTransaction d.nextContext d') :
    ¬ Released d d' := by
  intro hreleased
  have hle := hreleased.active 1 _ h.1 le_rfl
  exact absurd h.2 (by omega)

namespace DdlTransactionManager

variable {m : DdlTransactionManager} {context : ℕ}

theorem keeps_setContext (context' : ℕ) (c : DdlTransactionContext) :
    Keeps (HasTransaction context) (setContext context' c) := Keeps.modify fun _ h => h

theorem keeps_lockObject (context' : ℕ) (objectName : String) :
    Keeps (HasTransaction context) (lockObject context' objectName) :=
  Keeps.get_bind fun _ => keeps_setContext context' _

theorem keeps_addOperation (context' : ℕ) (operationType : DdlOperationType) (dependencies : List ℕ)
    (rollbackInfo : Option RollbackInfo) :
    Keeps (HasTransaction context) (addOperation context' operationType dependencies rollbackInfo) :=
  Keeps.get_bind fun _ => (keeps_setContext context' _).bind fun _ => Keeps.pure _

theorem keeps_setStatus (context' operationId : ℕ) (status : DdlOperationStatus) :
    Keeps (HasTransaction context) (setStatus context' operationId status) := by
  apply Keeps.get_bind
  intro m
  cases (m.contexts context').setStatus operationId status with
  | ok c => exact keeps_setContext context' c
  | error e => exact Keeps.throw _

theorem keeps_acquireGlobalLock (objectName : String) (transactionId : TransactionId) :
    Keeps (HasTransaction context) (acquireGlobalLock objectName transactionId) := by
  apply Keeps.get_bind
  intro m
  exact (Keeps.require _ _).bind fun _ => Keeps.modify fun _ h => h

theorem spec_beginTransaction (m : DdlTransactionManager) :
    Spec (beginTransaction 1) m
      (fun context m' => context = m.nextContext ∧ HasTransaction m.nextContext m') fun _ _ => False := by
  refine ⟨rfl, ?_, ?_⟩
  · exact AList.lookup_insert _
  · exact Nat.lt_succ_self _

/-- A transaction that is active can be committed. -/
theorem spec_commitTransaction (h : HasTransaction context m) :
    Spec (commitTransaction 1) m (fun _ _ => True) fun _ _ => False := by
  rw [Spec, commitTransaction, get_bind, h.1]
  trivial

end DdlTransactionManager

namespace Database

open DdlTransactionManager

variable {db : Database} {context : ℕ} {α : Type}

/-- A call of the manager does to the database what it does to the manager. -/
theorem spec_onDdl {x : DdlTransactionManager.Call α} {Q : α → DdlTransactionManager → Prop}
    {E : Failure → DdlTransactionManager → Prop} (hx : Spec x db.ddl Q E) :
    Spec (onDdl x) db (fun a db' => Q a db'.ddl) fun e db' => E e db'.ddl := by
  unfold Spec at hx ⊢
  unfold onDdl
  cases h : x db.ddl <;> rw [h] at hx <;> exact hx

/-- What a call of the manager keeps, keeps on the database. -/
theorem keeps_onDdl {I : DdlTransactionManager → Prop} {x : DdlTransactionManager.Call α}
    (hx : Keeps I x) : Keeps (fun db : Database => I db.ddl) (onDdl x) :=
  fun db hdb => spec_onDdl (hx db.ddl hdb)

theorem keeps_onCatalog (I : DdlTransactionManager → Prop) (x : CatalogManager.Call α) :
    Keeps (fun db : Database => I db.ddl) (onCatalog x) := by
  intro db hdb
  unfold Spec onCatalog
  cases x db.catalog <;> exact hdb

/-- A statement that fails in its transaction leaves the transaction active. -/
theorem spec_inTransaction (db : Database) (objectName : String)
    (check : CatalogManager.Call (DdlOperationType × Option RollbackInfo)) (act : CatalogManager.Call Unit) :
    Spec (inTransaction objectName check act) db (fun _ _ => True)
      fun _ db' => HasTransaction db.ddl.nextContext db'.ddl := by
  have hbegin := spec_onDdl (spec_beginTransaction db.ddl)
  refine (hbegin.mono (fun _ _ h => h) fun _ _ h => h.elim).bind ?_
  rintro context db₁ ⟨-, h₁⟩
  refine (keeps_onDdl (keeps_lockObject context objectName) db₁ h₁).bind fun _ db₂ h₂ => ?_
  refine (keeps_onDdl (keeps_acquireGlobalLock objectName 1) db₂ h₂).bind fun _ db₃ h₃ => ?_
  refine (keeps_onCatalog _ check db₃ h₃).bind fun ⟨operationType, rollbackInfo⟩ db₄ h₄ => ?_
  refine (keeps_onDdl (keeps_addOperation context operationType [] rollbackInfo) db₄ h₄).bind
    fun operationId db₅ h₅ => ?_
  refine (keeps_onDdl (keeps_setStatus context operationId .executing) db₅ h₅).bind fun _ db₆ h₆ => ?_
  refine (keeps_onCatalog _ act db₆ h₆).bind fun _ db₇ h₇ => ?_
  refine (keeps_onDdl (keeps_setStatus context operationId .completed) db₇ h₇).bind fun _ db₈ h₈ => ?_
  exact (spec_onDdl (spec_commitTransaction h₈)).mono (fun _ _ _ => trivial) fun _ _ h => h.elim

/-- The name resolves to a table of its schema. -/
def FindsTable (db : Database) (tableName : String) : Prop :=
  ∃ schemaName resolvedTableName,
    CatalogManager.resolveTableReference tableName = .ok (schemaName, resolvedTableName) ∧
      db.catalog.validateTableInSchema db.schemas resolvedTableName schemaName

/-- The object of a statement is there. -/
def Finds (db : Database) : DdlStatement → Prop
  | .dropTable tableName _ | .alterTable tableName _ => db.FindsTable tableName
  | .dropIndex indexName _ => indexName ∈ db.catalog.indexManager.indexes

/-- Of a table in its schema there is a definition. -/
theorem getTable_of_validateTableInSchema {c : CatalogManager} {schemas : SchemaManager}
    {tableName schemaName : String} (h : c.validateTableInSchema schemas tableName schemaName) :
    ∃ tableDef, c.getTable tableName = some tableDef := by
  unfold CatalogManager.validateTableInSchema at h
  cases htable : c.getTable tableName with
  | some tableDef => exact ⟨tableDef, rfl⟩
  | none =>
    rw [htable] at h
    cases hschema : schemas.schemas.lookup schemaName <;> rw [hschema] at h <;> exact absurd h (by simp)

theorem onCatalog_ofExcept_ok {x : Except RustgreSQLError α} {a : α} (h : x = .ok a) :
    onCatalog (CatalogManager.ofExcept x) db = .ok a db := by
  subst h
  rfl

theorem onCatalog_ofExcept_error {x : Except RustgreSQLError α} {e : RustgreSQLError} (h : x = .error e) :
    onCatalog (CatalogManager.ofExcept x) db = .error (.err e) db := by
  subst h
  rfl

/-- A statement whose object is there runs in a transaction. -/
theorem execute_of_finds (kindText : DataTypeKind → String) {statement : DdlStatement}
    (h : db.Finds statement) : ∃ objectName check act,
      execute kindText statement db = inTransaction objectName check act db := by
  cases statement with
  | dropTable tableName ifExists =>
    obtain ⟨schemaName, resolved, hresolve, hschema⟩ := h
    obtain ⟨tableDef, htable⟩ := getTable_of_validateTableInSchema hschema
    refine ⟨s!"{schemaName}.{resolved}", CatalogManager.checkDropTable schemaName resolved tableDef,
      CatalogManager.dropTableWithDependencies resolved, ?_⟩
    refine (bind_of_ok (onCatalog_ofExcept_ok hresolve)).trans ?_
    simp only [get_bind, htable]
    exact bind_of_ok (require_of hschema _ db)
  | dropIndex indexName ifExists =>
    obtain ⟨indexDef, hindex⟩ := Option.isSome_iff_exists.mp (AList.lookup_isSome.mpr h)
    refine ⟨s!"index_{indexName}", CatalogManager.checkDropIndex indexName indexDef,
      CatalogManager.onIndexes (IndexManager.dropIndex indexName), ?_⟩
    rw [execute, executeDropIndex, get_bind, hindex]
  | alterTable tableName operation =>
    obtain ⟨schemaName, resolved, hresolve, hschema⟩ := h
    obtain ⟨tableDef, htable⟩ := getTable_of_validateTableInSchema hschema
    refine ⟨s!"{schemaName}.{resolved}", CatalogManager.checkAlterTable schemaName resolved tableDef operation,
      CatalogManager.executeAlterTableOperation kindText resolved operation, ?_⟩
    refine (bind_of_ok (onCatalog_ofExcept_ok hresolve)).trans ?_
    simp only [get_bind, htable]
    exact bind_of_ok (require_of hschema _ db)

/-- A statement whose object is not there changes nothing. -/
theorem execute_of_not_finds (kindText : DataTypeKind → String) {statement : DdlStatement}
    (h : ¬ db.Finds statement) : final (execute kindText statement) db = db := by
  cases statement with
  | dropTable tableName ifExists =>
    cases hresolve : CatalogManager.resolveTableReference tableName with
    | error e => exact final_bind_of_error (onCatalog_ofExcept_error hresolve)
    | ok names =>
      obtain ⟨schemaName, resolved⟩ := names
      have hschema := fun hschema => h ⟨schemaName, resolved, hresolve, hschema⟩
      refine (final_bind_of_ok (onCatalog_ofExcept_ok hresolve)).trans ?_
      unfold final
      simp only [get_bind]
      cases htable : db.catalog.getTable resolved with
      | none => cases ifExists <;> rfl
      | some tableDef => exact final_bind_of_error (require_of_not hschema _ db)
  | dropIndex indexName ifExists =>
    have hindex := AList.lookup_eq_none.mpr h
    rw [execute, executeDropIndex, final, get_bind, hindex]
    cases ifExists <;> rfl
  | alterTable tableName operation =>
    cases hresolve : CatalogManager.resolveTableReference tableName with
    | error e => exact final_bind_of_error (onCatalog_ofExcept_error hresolve)
    | ok names =>
      obtain ⟨schemaName, resolved⟩ := names
      have hschema := fun hschema => h ⟨schemaName, resolved, hresolve, hschema⟩
      refine (final_bind_of_ok (onCatalog_ofExcept_ok hresolve)).trans ?_
      unfold final
      simp only [get_bind]
      cases htable : db.catalog.getTable resolved with
      | none => rfl
      | some tableDef => exact final_bind_of_error (require_of_not hschema _ db)

/-- A statement that fails releases what it took if and only if it did not find its object, so that it
took nothing. -/
theorem released_iff (kindText : DataTypeKind → String) (statement : DdlStatement) {e : Failure}
    {db' : Database} (h : execute kindText statement db = .error e db') :
    Released db.ddl db'.ddl ↔ ¬ db.Finds statement := by
  constructor
  · intro hreleased hfinds
    obtain ⟨objectName, check, act, hrun⟩ := execute_of_finds kindText hfinds
    have hleft := (spec_inTransaction db objectName check act).fail (hrun.symm.trans h)
    exact hleft.not_released hreleased
  · intro hfinds
    have hsame := execute_of_not_finds kindText hfinds
    rw [final, h] at hsame
    subst hsame
    exact Released.refl db'.ddl

/-- A database with one table `t`, before any DDL transaction. -/
def oneTable : Database :=
  ⟨.new, final (CatalogManager.createTable "t" [⟨0, "a", .integer, true, none, false, false, none⟩]) .new,
    .new⟩

/-- The types are not shown. -/
def noKindText : DataTypeKind → String := fun _ => ""

theorem released_iff_missingTable : ∃ e db',
    execute noKindText (.dropTable "u" false) oneTable = .error e db' ∧
      (Released oneTable.ddl db'.ddl ↔ ¬ oneTable.Finds (.dropTable "u" false)) :=
  have h : execute noKindText (.dropTable "u" false) oneTable =
      .error (.err (.tableNotFound "u" .drop)) oneTable := rfl
  ⟨_, _, h, released_iff noKindText (.dropTable "u" false) h⟩

/-- ALTER TABLE of a column that is not there fails and leaves its transaction active. -/
theorem not_released_missingColumn : ¬ ∀ kindText db statement e db',
    execute kindText statement db = .error e db' → Released db.ddl db'.ddl := by
  intro h
  obtain ⟨db', hrun, hactive⟩ : ∃ db',
      execute noKindText (.alterTable "t" (.dropColumn "b")) oneTable =
        .error (.err (.columnNotFound "b" "t" .alter)) db' ∧ HasTransaction 0 db'.ddl :=
    ⟨_, rfl, rfl, Nat.zero_lt_one⟩
  exact hactive.not_released (h _ _ _ _ _ hrun)

end Database

end Rustgresql
