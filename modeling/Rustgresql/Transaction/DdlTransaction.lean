import Rustgresql.Catalog.Index
import Rustgresql.Executor.DdlError

/-!
# DDL transactions (`transaction/ddl_transaction.rs`)

The manager of DDL transactions. Its contexts are shared between the map of active transactions and the
statements that began them, so they are kept by their addresses.
-/

namespace Rustgresql

open StateSpec

/-- DDL operation types for transaction tracking -/
inductive DdlOperationType
  | dropTable (tableName schemaName : String)
  | alterTable (tableName schemaName : String)
  | dropIndex (indexName schemaName : String)

/-- DDL operation status within a transaction -/
inductive DdlOperationStatus
  | planned | executing | completed | failed (errorMessage : String) | rolledBack
  deriving DecidableEq

/-- Information needed to rollback a DDL operation, with definitions instead of their bytes -/
inductive RollbackInfo
  | restoreTable (tableName schemaName : String) (backup : TableDef)
  | reverseAlter (tableName schemaName reverseOperation : String) (originalSchema : TableDef)
  | recreateIndex (indexName tableName schemaName : String) (indexDefinition : IndexDef)

/-- A single DDL operation within a transaction -/
structure DdlTransactionOperation where
  operationId : ℕ
  operationType : DdlOperationType
  status : DdlOperationStatus
  dependencies : List ℕ
  rollbackInfo : Option RollbackInfo

/-- DDL transaction context for managing schema changes -/
structure DdlTransactionContext where
  transactionId : TransactionId
  operations : HashMap ℕ DdlTransactionOperation
  nextOperationId : ℕ
  lockedObjects : List String
  modifiedObjects : List String

/-- Extract the object name from a DDL operation type -/
def DdlOperationType.extractObjectName : DdlOperationType → String
  | dropTable tableName schemaName => s!"{schemaName}.{tableName}"
  | alterTable tableName schemaName => s!"{schemaName}.{tableName}"
  | dropIndex indexName schemaName => s!"{schemaName}.{indexName}"

namespace DdlTransactionContext

def new (transactionId : TransactionId) : DdlTransactionContext := ⟨transactionId, ∅, 1, [], []⟩

/-- Add a new DDL operation to the transaction -/
def addOperation (self : DdlTransactionContext) (operationType : DdlOperationType) (dependencies : List ℕ)
    (rollbackInfo : Option RollbackInfo) : ℕ × DdlTransactionContext :=
  let operationId := self.nextOperationId
  (operationId, { self with
    nextOperationId := operationId + 1
    operations := self.operations.insert operationId
      ⟨operationId, operationType, .planned, dependencies, rollbackInfo⟩
    modifiedObjects := self.modifiedObjects.insert operationType.extractObjectName })

/-- Mark an operation as executing or as completed. -/
def setStatus (self : DdlTransactionContext) (operationId : ℕ) (status : DdlOperationStatus) :
    Except RustgreSQLError DdlTransactionContext :=
  match self.operations.lookup operationId with
  | some operation => .ok { self with
      operations := self.operations.insert operationId { operation with status := status } }
  | none => .error (.concurrentDdlConflict s!"Operation {operationId}" .create)

/-- Lock an object for this transaction -/
def lockObject (self : DdlTransactionContext) (objectName : String) : DdlTransactionContext :=
  { self with lockedObjects := self.lockedObjects.insert objectName }

/-- Release all locks held by this transaction -/
def releaseAllLocks (self : DdlTransactionContext) : DdlTransactionContext :=
  { self with lockedObjects := [] }

end DdlTransactionContext

/-- Global DDL transaction manager, and the contexts that were allocated -/
structure DdlTransactionManager where
  contexts : ℕ → DdlTransactionContext
  nextContext : ℕ
  activeTransactions : HashMap TransactionId ℕ
  globalLocks : HashMap String TransactionId

namespace DdlTransactionManager

abbrev Call (α : Type) := EStateM Failure DdlTransactionManager α

def new : DdlTransactionManager := ⟨fun _ => .new 0, 0, ∅, ∅⟩

/-- Change a context. -/
def setContext (context : ℕ) (c : DdlTransactionContext) : Call Unit :=
  modify fun m => { m with contexts := Function.update m.contexts context c }

/-- Begin a DDL transaction -/
def beginTransaction (transactionId : TransactionId) : Call ℕ :=
  modifyGet fun m => (m.nextContext, { m with
    contexts := Function.update m.contexts m.nextContext (.new transactionId)
    nextContext := m.nextContext + 1
    activeTransactions := m.activeTransactions.insert transactionId m.nextContext })

def lockObject (context : ℕ) (objectName : String) : Call Unit := do
  setContext context (((← get).contexts context).lockObject objectName)

def addOperation (context : ℕ) (operationType : DdlOperationType) (dependencies : List ℕ)
    (rollbackInfo : Option RollbackInfo) : Call ℕ := do
  let (operationId, c) := ((← get).contexts context).addOperation operationType dependencies rollbackInfo
  setContext context c
  return operationId

def setStatus (context operationId : ℕ) (status : DdlOperationStatus) : Call Unit := do
  match ((← get).contexts context).setStatus operationId status with
  | .ok c => setContext context c
  | .error e => throw (.err e)

/-- Mark an operation as executing -/
def startOperation (context operationId : ℕ) : Call Unit := setStatus context operationId .executing

/-- Mark an operation as completed -/
def completeOperation (context operationId : ℕ) : Call Unit := setStatus context operationId .completed

/-- Commit a DDL transaction -/
def commitTransaction (transactionId : TransactionId) : Call Unit := do
  match (← get).activeTransactions.lookup transactionId with
  | some context =>
    modify fun m => { m with activeTransactions := m.activeTransactions.erase transactionId }
    setContext context ((← get).contexts context).releaseAllLocks
    modify fun m => { m with globalLocks := HashMap.retain (· != transactionId) m.globalLocks }
  | none => throw (.err (.ddlTransaction "Transaction not found"))

/-- Another transaction holds the lock of an object. -/
def Conflicts (m : DdlTransactionManager) (objectName : String) (transactionId : TransactionId) : Prop :=
  ∃ owner ∈ m.globalLocks.lookup objectName, owner ≠ transactionId

instance (m : DdlTransactionManager) (objectName : String) (transactionId : TransactionId) :
    Decidable (m.Conflicts objectName transactionId) := by
  unfold Conflicts
  infer_instance

/-- Acquire a global object lock -/
def acquireGlobalLock (objectName : String) (transactionId : TransactionId) : Call Unit := do
  require (¬ (← get).Conflicts objectName transactionId) (.err (.concurrentDdlConflict objectName .alter))
  modify fun m => { m with globalLocks := m.globalLocks.insert objectName transactionId }

end DdlTransactionManager

end Rustgresql
