import Rustgresql.Transaction.Wal.Journal

/-!
# The log of schema changes (`transaction/ddl_wal.rs`)

`DdlWALManager` logs schema changes. Each operation looks up the number of the last record of its
transaction, appends a record that links to it, and notes the number of the new one. Schemas come
here in their serialized form, and the schema manager, which no call of this module uses, is left out.

The numbers in the log increase, and the state of an active transaction lists those of its records
since its begin (`Chained`). So every record but a begin links to the record before it of its
transaction (`ddl_chain`).
-/

namespace Rustgresql

open StateSpec

/-- DDL transaction state. -/
structure DdlTransactionState where
  transactionId : TransactionId
  startLsn : LSN
  currentLsn : LSN
  modifiedObjects : List String
  prevLsns : List LSN
  deriving DecidableEq, Repr

/-- DDL WAL manager. -/
structure DdlWALManager (ω : Type) where
  walManager : ω
  activeTransactions : HashMap TransactionId DdlTransactionState

/-- The calls on a DDL WAL manager. Schemas, columns, constraints and indexes are given by their names
and their serialized forms. -/
inductive DdlOp
  | begin (transactionId : TransactionId)
  | commit (transactionId : TransactionId)
  | rollback (transactionId : TransactionId)
  | createTable (transactionId : TransactionId) (tableName : String) (schemaName : Option String)
      (tableDefinition : List UInt8)
  | dropTable (transactionId : TransactionId) (tableName : String) (schemaName : Option String)
      (previousDefinition : List UInt8)
  | addColumn (transactionId : TransactionId) (tableName : String) (schemaName : Option String)
      (columnName : String) (columnDefinition : List UInt8)
  | dropColumn (transactionId : TransactionId) (tableName : String) (schemaName : Option String)
      (columnName : String) (columnDefinition : List UInt8)
  | addConstraint (transactionId : TransactionId) (tableName : String) (schemaName : Option String)
      (constraintName : String) (constraintDefinition : List UInt8)
  | dropConstraint (transactionId : TransactionId) (tableName : String) (schemaName : Option String)
      (constraintName : String) (constraintDefinition : List UInt8)
  | createIndex (transactionId : TransactionId) (tableName indexName : String)
      (indexDefinition : List UInt8)
  | dropIndex (transactionId : TransactionId) (tableName indexName : String)
      (indexDefinition : List UInt8)

namespace DdlWALManager

variable {ω : Type}

/-- A call on the DDL WAL manager. -/
abbrev Call (ω : Type) := EStateM Failure (DdlWALManager ω)

/-- `DdlWALManager::new`. -/
def new (walManager : ω) : DdlWALManager ω := ⟨walManager, ∅⟩

/-- Run a call on the log. -/
def onWal {α : Type} (act : EStateM Failure ω α) : Call ω α := fun m =>
  match act m.walManager with
  | .ok a walManager => .ok a { m with walManager }
  | .error e walManager => .error e { m with walManager }

theorem final_onWal {α : Type} (act : EStateM Failure ω α) (m : DdlWALManager ω) :
    final (onWal act) m = { m with walManager := final act m.walManager } := by
  unfold final onWal
  cases act m.walManager <;> rfl

/-- The error for a transaction that is not active. -/
def notFound (transactionId : TransactionId) : Failure :=
  .err (.transaction s!"DDL transaction {transactionId} not found")

/-- `get_transaction_prev_lsn`. -/
def getTransactionPrevLsn (transactionId : TransactionId) (m : DdlWALManager ω) : Option LSN :=
  (m.activeTransactions.lookup transactionId).map (·.currentLsn)

/-- What `update_transaction_state` makes of a transaction. -/
def noteRecord (lsn : LSN) (objectName : String) (state : DdlTransactionState) :
    DdlTransactionState :=
  { state with
    prevLsns := state.prevLsns ++ [state.currentLsn]
    currentLsn := lsn
    modifiedObjects := state.modifiedObjects ++ [objectName] }

/-- `update_transaction_state`. -/
def updateTransactionState (transactionId : TransactionId) (lsn : LSN) (objectName : String) :
    Call ω Unit :=
  modify fun m =>
    match m.activeTransactions.lookup transactionId with
    | none => m
    | some state =>
      { m with
        activeTransactions :=
          m.activeTransactions.insert transactionId (noteRecord lsn objectName state) }

theorem final_updateTransactionState (t : TransactionId) (lsn : LSN) (objectName : String)
    (m : DdlWALManager ω) : final (updateTransactionState t lsn objectName) m =
      match m.activeTransactions.lookup t with
      | none => m
      | some state =>
        { m with activeTransactions :=
            m.activeTransactions.insert t (noteRecord lsn objectName state) } := rfl

/-- `get_table_dependents`. -/
def getTableDependents (_tableName : String) : List String := []

section Calls

variable [Journal ω]

/-- `begin_ddl_transaction`. -/
def beginDdlTransaction (transactionId : TransactionId) : Call ω LSN := do
  let startLsn := Journal.nextLsn (← get).walManager
  let loggedLsn ← onWal (Journal.appendRecord (.begin transactionId startLsn))
  modify fun m =>
    { m with
      activeTransactions := m.activeTransactions.insert transactionId
        { transactionId, startLsn := loggedLsn, currentLsn := loggedLsn, modifiedObjects := [],
          prevLsns := [] } }
  pure loggedLsn

/-- What ends a transaction: its record, which `record` builds from its number and its link, and a
flush. -/
def endDdlTransaction (transactionId : TransactionId) (record : LSN → Option LSN → WALRecord) :
    Call ω LSN := do
  match (← get).activeTransactions.lookup transactionId with
  | none => throw (notFound transactionId)
  | some txState =>
    modify fun m => { m with activeTransactions := m.activeTransactions.erase transactionId }
    let lsn := Journal.nextLsn (← get).walManager
    let loggedLsn ← onWal (Journal.appendRecord (record lsn (some txState.currentLsn)))
    onWal Journal.flushBuffer
    pure loggedLsn

/-- `commit_ddl_transaction`. -/
def commitDdlTransaction (transactionId : TransactionId) : Call ω LSN :=
  endDdlTransaction transactionId (.commit transactionId)

/-- `rollback_ddl_transaction`. -/
def rollbackDdlTransaction (transactionId : TransactionId) : Call ω LSN :=
  endDdlTransaction transactionId (.abort transactionId)

/-- What logs an operation on an object: its record, which `record` builds from its number and its
link. -/
def logOperation (transactionId : TransactionId) (objectName : String)
    (record : LSN → Option LSN → WALRecord) : Call ω LSN := do
  let prevLsn := getTransactionPrevLsn transactionId (← get)
  let recordLsn := Journal.nextLsn (← get).walManager
  let loggedLsn ← onWal (Journal.appendRecord (record recordLsn prevLsn))
  updateTransactionState transactionId loggedLsn objectName
  pure loggedLsn

/-- `log_create_table`. -/
def logCreateTable (transactionId : TransactionId) (tableName : String) (schemaName : Option String)
    (tableDefinition : List UInt8) : Call ω LSN :=
  logOperation transactionId tableName fun lsn prevLsn =>
    .createTable transactionId lsn prevLsn tableName schemaName tableDefinition
      (getTableDependents tableName)

/-- `log_drop_table`. -/
def logDropTable (transactionId : TransactionId) (tableName : String) (schemaName : Option String)
    (previousDefinition : List UInt8) : Call ω LSN :=
  logOperation transactionId tableName fun lsn prevLsn =>
    .dropTable transactionId lsn prevLsn tableName schemaName previousDefinition
      (getTableDependents tableName)

/-- `log_add_column`. -/
def logAddColumn (transactionId : TransactionId) (tableName : String) (schemaName : Option String)
    (columnName : String) (columnDefinition : List UInt8) : Call ω LSN :=
  logOperation transactionId tableName fun lsn prevLsn =>
    .alterTable transactionId lsn prevLsn .alterTableAddColumn tableName schemaName "ADD_COLUMN"
      columnName none (some columnDefinition) (getTableDependents tableName)

/-- `log_drop_column`. -/
def logDropColumn (transactionId : TransactionId) (tableName : String) (schemaName : Option String)
    (columnName : String) (columnDefinition : List UInt8) : Call ω LSN :=
  logOperation transactionId tableName fun lsn prevLsn =>
    .alterTable transactionId lsn prevLsn .alterTableDropColumn tableName schemaName "DROP_COLUMN"
      columnName (some columnDefinition) none (getTableDependents tableName)

/-- `log_add_constraint`. -/
def logAddConstraint (transactionId : TransactionId) (tableName : String)
    (schemaName : Option String) (constraintName : String) (constraintDefinition : List UInt8) :
    Call ω LSN :=
  logOperation transactionId tableName fun lsn prevLsn =>
    .alterTable transactionId lsn prevLsn .alterTableAddConstraint tableName schemaName
      "ADD_CONSTRAINT" constraintName none (some constraintDefinition) (getTableDependents tableName)

/-- `log_drop_constraint`. -/
def logDropConstraint (transactionId : TransactionId) (tableName : String)
    (schemaName : Option String) (constraintName : String) (constraintDefinition : List UInt8) :
    Call ω LSN :=
  logOperation transactionId tableName fun lsn prevLsn =>
    .alterTable transactionId lsn prevLsn .alterTableDropConstraint tableName schemaName
      "DROP_CONSTRAINT" constraintName (some constraintDefinition) none
      (getTableDependents tableName)

/-- The record of an operation on an index. -/
def indexRecord (transactionId : TransactionId) (recordType : WALRecordType) (ddlType : String)
    (tableName indexName : String) (objectDefinition previousDefinition : Option (List UInt8))
    (lsn : LSN) (prevLsn : Option LSN) : WALRecord :=
  .ddl transactionId lsn prevLsn recordType
    { ddlType, objectName := indexName, objectType := "index", schemaName := none, objectDefinition,
      previousDefinition, metadata := AList.insert "table_name" tableName ∅,
      dependents := getTableDependents tableName }

/-- `log_create_index`. -/
def logCreateIndex (transactionId : TransactionId) (tableName indexName : String)
    (indexDefinition : List UInt8) : Call ω LSN :=
  logOperation transactionId s!"{tableName}.{indexName}"
    (indexRecord transactionId .createIndex "CREATE_INDEX" tableName indexName (some indexDefinition)
      none)

/-- `log_drop_index`. -/
def logDropIndex (transactionId : TransactionId) (tableName indexName : String)
    (indexDefinition : List UInt8) : Call ω LSN :=
  logOperation transactionId s!"{tableName}.{indexName}"
    (indexRecord transactionId .dropIndex "DROP_INDEX" tableName indexName none
      (some indexDefinition))

/-- Make one call. -/
def step : DdlOp → Call ω LSN
  | .begin t => beginDdlTransaction t
  | .commit t => commitDdlTransaction t
  | .rollback t => rollbackDdlTransaction t
  | .createTable t table schema definition => logCreateTable t table schema definition
  | .dropTable t table schema definition => logDropTable t table schema definition
  | .addColumn t table schema column definition => logAddColumn t table schema column definition
  | .dropColumn t table schema column definition => logDropColumn t table schema column definition
  | .addConstraint t table schema name definition => logAddConstraint t table schema name definition
  | .dropConstraint t table schema name definition => logDropConstraint t table schema name definition
  | .createIndex t table index definition => logCreateIndex t table index definition
  | .dropIndex t table index definition => logDropIndex t table index definition

/-- Make calls in order, going on after failures. -/
def run (ops : List DdlOp) (m : DdlWALManager ω) : DdlWALManager ω :=
  ops.foldl (fun m op => final (step op) m) m

end Calls

/-! ## What a call can do -/

/-- The records in the log. -/
def log (m : DdlWALManager (Recorded ω)) : List WALRecord := m.walManager.log

/-- The records of a transaction since its last begin. -/
def sinceBegin (t : TransactionId) (log : List WALRecord) : List WALRecord :=
  (recordsOf t log).foldl
    (fun records r => if r.header.recordType = .begin then [r] else records ++ [r]) []

theorem sinceBegin_append_other {t : TransactionId} {r : WALRecord} (h : r.header.transactionId ≠ t)
    (log : List WALRecord) : sinceBegin t (log ++ [r]) = sinceBegin t log := by
  rw [sinceBegin, recordsOf_append_of_ne h, sinceBegin]

theorem sinceBegin_append {t : TransactionId} {r : WALRecord} (h : r.header.transactionId = t)
    (log : List WALRecord) : sinceBegin t (log ++ [r]) =
      if r.header.recordType = .begin then [r] else sinceBegin t log ++ [r] := by
  rw [sinceBegin, recordsOf_append_of_eq h, List.foldl_append, ← sinceBegin]
  rfl

/-- The last record of a transaction is the last one since its begin. -/
theorem getLast?_sinceBegin (t : TransactionId) (log : List WALRecord) :
    (sinceBegin t log).getLast? = (recordsOf t log).getLast? := by
  rw [sinceBegin]
  induction recordsOf t log using List.reverseRecOn with
  | nil => rfl
  | append_singleton records r ih =>
    rw [List.foldl_append, List.foldl_cons, List.foldl_nil, List.getLast?_concat]
    split
    · rfl
    · exact List.getLast?_concat

/-- `record` builds records of the transaction with the link that it is given, and no begins. -/
def Links (t : TransactionId) (record : LSN → Option LSN → WALRecord) : Prop :=
  ∀ lsn prevLsn, (record lsn prevLsn).header.transactionId = t ∧
    (record lsn prevLsn).header.prevLsn = prevLsn ∧
    (record lsn prevLsn).header.recordType ≠ .begin

variable [Journal ω]

/-- Every call begins a transaction, ends one, or logs an operation of one. -/
theorem step_forms (op : DdlOp) :
    (∃ t, step (ω := ω) op = beginDdlTransaction t) ∨
      (∃ t record, Links t record ∧ step (ω := ω) op = endDdlTransaction t record) ∨
      ∃ t objectName record, Links t record ∧ step (ω := ω) op = logOperation t objectName record := by
  cases op with
  | begin t => exact .inl ⟨t, rfl⟩
  | commit t | rollback t =>
    refine .inr (.inl ⟨t, _, ?_, rfl⟩)
    exact fun _ _ => ⟨rfl, rfl, nofun⟩
  | createTable t | dropTable t | addColumn t | dropColumn t | addConstraint t | dropConstraint t
  | createIndex t | dropIndex t =>
    unfold step
    refine .inr (.inr ⟨t, _, _, ?_, rfl⟩)
    exact fun _ _ => ⟨rfl, rfl, nofun⟩

/-- Nothing is logged, and at most a transaction has gone. -/
structure Quiet (m m' : DdlWALManager (Recorded ω)) : Prop where
  log : m'.log = m.log
  next : Journal.nextLsn m.walManager ≤ Journal.nextLsn m'.walManager
  active : ∀ t state, m'.activeTransactions.lookup t = some state →
    m.activeTransactions.lookup t = some state

/-- The state of a transaction after the record `r`, in terms of its state before. -/
structure Noted (r : WALRecord) (before : Option DdlTransactionState)
    (after : DdlTransactionState) : Prop where
  current : after.currentLsn = r.header.lsn
  begins : r.header.recordType = .begin → after.prevLsns = []
  continues : r.header.recordType ≠ .begin →
    ∃ state, before = some state ∧ after.prevLsns = state.prevLsns ++ [state.currentLsn]

/-- The record `r` is logged. It has the next number and links to the current record of its
transaction; the states of other transactions stay. -/
structure Logged (r : WALRecord) (m m' : DdlWALManager (Recorded ω)) : Prop where
  log : m'.log = m.log ++ [r]
  lsn : r.header.lsn = Journal.nextLsn m.walManager
  next : Journal.nextLsn m.walManager < Journal.nextLsn m'.walManager
  link : r.header.recordType ≠ .begin →
    r.header.prevLsn = getTransactionPrevLsn r.header.transactionId m
  own : ∀ state, m'.activeTransactions.lookup r.header.transactionId = some state →
    Noted r (m.activeTransactions.lookup r.header.transactionId) state
  others : ∀ t ≠ r.header.transactionId,
    m'.activeTransactions.lookup t = m.activeTransactions.lookup t

/-- A record that has been appended is logged once the state of its transaction is updated. -/
theorem logged_of_noted {m : DdlWALManager (Recorded ω)} {w : Recorded ω} {r : WALRecord}
    {t : TransactionId} (hlog : w.log = m.log ++ [r])
    (hlsn : r.header.lsn = Journal.nextLsn m.walManager)
    (hnext : Journal.nextLsn m.walManager < Journal.nextLsn w) (ht : r.header.transactionId = t)
    (htype : r.header.recordType ≠ .begin) (hlink : r.header.prevLsn = getTransactionPrevLsn t m)
    (objectName : String) :
    Logged r m (final (updateTransactionState t r.header.lsn objectName)
      { m with walManager := w }) := by
  subst ht
  set t := r.header.transactionId
  cases hlookup : m.activeTransactions.lookup t with
  | none =>
    have hfinal : final (updateTransactionState t r.header.lsn objectName)
        { m with walManager := w } = { m with walManager := w } := by
      rw [final_updateTransactionState, hlookup]
    rw [hfinal]
    refine ⟨hlog, hlsn, hnext, fun _ => hlink, fun state hstate => ?_, fun _ _ => rfl⟩
    cases hlookup.symm.trans hstate
  | some before =>
    have hfinal : final (updateTransactionState t r.header.lsn objectName)
        { m with walManager := w } = ⟨w, m.activeTransactions.insert t
          (noteRecord r.header.lsn objectName before)⟩ := by
      rw [final_updateTransactionState, hlookup]
    rw [hfinal]
    refine ⟨hlog, hlsn, hnext, fun _ => hlink, fun state hstate => ?_, fun x hx => ?_⟩
    · obtain rfl := Option.some.inj ((AList.lookup_insert _).symm.trans hstate)
      exact ⟨rfl, fun h => absurd h htype, fun _ => ⟨before, hlookup, rfl⟩⟩
    · exact AList.lookup_insert_ne hx

/-! ## Chained states -/

/-- The numbers in the log increase and are below the next one, and the state of every active
transaction lists those of its records since its begin. -/
structure Chained (m : DdlWALManager (Recorded ω)) : Prop where
  increasing : (m.log.map (·.header.lsn)).Pairwise (· < ·)
  below : ∀ r ∈ m.log, r.header.lsn < Journal.nextLsn m.walManager
  states : ∀ t state, m.activeTransactions.lookup t = some state →
    state.prevLsns ++ [state.currentLsn] = (sinceBegin t m.log).map (·.header.lsn)

theorem chained_new (journal : ω) : Chained (new (⟨journal, []⟩ : Recorded ω)) where
  increasing := List.Pairwise.nil
  below := List.forall_mem_nil _
  states := nofun

theorem Chained.quiet {m m' : DdlWALManager (Recorded ω)} (h : Chained m) (hquiet : Quiet m m') :
    Chained m' where
  increasing := hquiet.log ▸ h.increasing
  below := fun r hr => UInt64.lt_of_lt_of_le (h.below r (hquiet.log ▸ hr)) hquiet.next
  states := fun t state hstate => hquiet.log ▸ h.states t state (hquiet.active t state hstate)

theorem Chained.logged {m m' : DdlWALManager (Recorded ω)} {r : WALRecord} (h : Chained m)
    (hlogged : Logged r m m') : Chained m' where
  increasing := by
    rw [hlogged.log, List.map_append, List.pairwise_append]
    refine ⟨h.increasing, List.pairwise_singleton _ _, fun x hx y hy => ?_⟩
    obtain ⟨p, hp, rfl⟩ := List.mem_map.mp hx
    obtain rfl := List.mem_singleton.mp hy
    show p.header.lsn < r.header.lsn
    rw [hlogged.lsn]
    exact h.below p hp
  below := by
    rw [hlogged.log]
    refine List.forall_mem_append.mpr ⟨fun p hp => ?_, ?_⟩
    · apply UInt64.lt_trans (h.below p hp) hlogged.next
    · rw [List.forall_mem_singleton, hlogged.lsn]
      exact hlogged.next
  states := by
    intro t state hstate
    rw [hlogged.log]
    by_cases ht : t = r.header.transactionId
    · subst ht
      obtain ⟨hcurrent, hbegins, hcontinues⟩ := hlogged.own state hstate
      by_cases htype : r.header.recordType = .begin
      · rw [sinceBegin_append rfl, if_pos htype, hbegins htype, hcurrent]
        rfl
      · obtain ⟨before, hbefore, hprev⟩ := hcontinues htype
        rw [sinceBegin_append rfl, if_neg htype, hprev, hcurrent, h.states _ before hbefore,
          List.map_append]
        rfl
    · rw [hlogged.others t ht] at hstate
      rw [sinceBegin_append_other fun heq => ht heq.symm]
      exact h.states t state hstate

/-- The current record of an active transaction is the last one that it has in the log. -/
theorem Chained.link {m : DdlWALManager (Recorded ω)} (h : Chained m) {t : TransactionId}
    (ht : t ∈ m.activeTransactions) :
    ∃ p ∈ (recordsOf t m.log).getLast?, getTransactionPrevLsn t m = some p.header.lsn := by
  obtain ⟨state, hstate⟩ := Option.isSome_iff_exists.mp (AList.lookup_isSome.mpr ht)
  have hlast := congrArg List.getLast? (h.states t state hstate)
  rw [List.getLast?_concat, List.getLast?_map, getLast?_sinceBegin] at hlast
  obtain ⟨p, hp, hlsn⟩ := Option.map_eq_some_iff.mp hlast.symm
  refine ⟨p, hp, ?_⟩
  rw [getTransactionPrevLsn, hstate, hlsn]
  rfl

/-! ## Every call -/

variable [LawfulJournal ω]

/-- An append numbers and records its record, or fails and records nothing. -/
theorem append_cases (r : WALRecord) (m : DdlWALManager (Recorded ω)) :
    (∃ w, onWal (Journal.appendRecord r) m =
          .ok (Journal.nextLsn m.walManager) { m with walManager := w } ∧
        w.log = m.log ++ [WALManager.stamp (Journal.nextLsn m.walManager) r] ∧
        Journal.nextLsn m.walManager < Journal.nextLsn w) ∨
      ∃ e w, onWal (Journal.appendRecord r) m = .error e { m with walManager := w } ∧
        w.log = m.log ∧ Journal.nextLsn m.walManager ≤ Journal.nextLsn w := by
  cases hrun : Journal.appendRecord r m.walManager with
  | ok lsn w =>
    obtain ⟨rfl, hnext⟩ := LawfulJournal.append_ok hrun
    refine .inl ⟨w, by rw [onWal, hrun], (Recorded.append_eq_ok hrun).1, ?_⟩
    rw [UInt64.lt_iff_toNat_lt]
    exact (Nat.lt_succ_self _).trans_eq hnext.symm
  | error e w =>
    exact .inr ⟨e, w, by rw [onWal, hrun], (Recorded.append_eq_error hrun).1,
      LawfulJournal.append_error hrun⟩

theorem begin_cases (t : TransactionId) (m : DdlWALManager (Recorded ω)) :
    Quiet m (final (beginDdlTransaction t) m) ∨ ∃ r, Logged r m (final (beginDdlTransaction t) m) := by
  set next := Journal.nextLsn m.walManager with hnextLsn
  rcases append_cases (.begin t next) m with ⟨w, hrun, hlog, hnext⟩ | ⟨e, w, hrun, hlog, hnext⟩
  · right
    refine ⟨WALManager.stamp next (.begin t next), ?_⟩
    have hfinal : final (beginDdlTransaction t) m =
        ⟨w, m.activeTransactions.insert t ⟨t, next, next, [], []⟩⟩ := by
      rw [final, beginDdlTransaction, get_bind, bind_of_ok hrun]
      rfl
    rw [hfinal]
    refine ⟨hlog, rfl, hnext, fun h => absurd rfl h, fun state hstate => ?_, fun x hx => ?_⟩
    · obtain rfl := Option.some.inj ((AList.lookup_insert _).symm.trans hstate)
      exact ⟨rfl, fun _ => rfl, fun h => absurd rfl h⟩
    · exact AList.lookup_insert_ne hx
  · left
    have hfinal : final (beginDdlTransaction t) m = { m with walManager := w } := by
      rw [final, beginDdlTransaction, get_bind, bind_of_error hrun]
    rw [hfinal]
    exact ⟨hlog, hnext, fun _ _ h => h⟩

theorem logOperation_cases {t : TransactionId} {record : LSN → Option LSN → WALRecord}
    (hlinks : Links t record) (objectName : String) (m : DdlWALManager (Recorded ω)) :
    Quiet m (final (logOperation t objectName record) m) ∨
      ∃ r, Logged r m (final (logOperation t objectName record) m) := by
  set next := Journal.nextLsn m.walManager with hnextLsn
  set prevLsn := getTransactionPrevLsn t m with hprevLsn
  obtain ⟨ht, hlink, htype⟩ := hlinks next prevLsn
  rcases append_cases (record next prevLsn) m with ⟨w, hrun, hlog, hnext⟩ | ⟨e, w, hrun, hlog, hnext⟩
  · right
    refine ⟨WALManager.stamp next (record next prevLsn), ?_⟩
    have hfinal : final (logOperation t objectName record) m =
        final (updateTransactionState t next objectName) { m with walManager := w } := by
      rw [final, logOperation, get_bind, get_bind, bind_of_ok hrun]
      rfl
    rw [hfinal]
    exact logged_of_noted (r := WALManager.stamp next (record next prevLsn)) hlog rfl hnext ht htype
      hlink objectName
  · left
    have hfinal : final (logOperation t objectName record) m = { m with walManager := w } := by
      rw [final, logOperation, get_bind, get_bind, bind_of_error hrun]
    rw [hfinal]
    exact ⟨hlog, hnext, fun _ _ h => h⟩

theorem end_cases {t : TransactionId} {record : LSN → Option LSN → WALRecord}
    (hlinks : Links t record) (m : DdlWALManager (Recorded ω)) :
    Quiet m (final (endDdlTransaction t record) m) ∨
      ∃ r, Logged r m (final (endDdlTransaction t record) m) := by
  cases hlookup : m.activeTransactions.lookup t with
  | none =>
    left
    have hfinal : final (endDdlTransaction t record) m = m := by
      rw [final, endDdlTransaction, get_bind, hlookup]
      rfl
    rw [hfinal]
    exact ⟨rfl, UInt64.le_refl _, fun _ _ h => h⟩
  | some txState =>
    set next := Journal.nextLsn m.walManager with hnextLsn
    set r := record next (some txState.currentLsn) with hr
    set m₁ : DdlWALManager (Recorded ω) :=
      { m with activeTransactions := m.activeTransactions.erase t } with hm₁
    obtain ⟨ht, hlink, htype⟩ := hlinks next (some txState.currentLsn)
    have hrun : endDdlTransaction t record m = (do
        let loggedLsn ← onWal (Journal.appendRecord r)
        onWal Journal.flushBuffer
        pure loggedLsn : Call (Recorded ω) LSN) m₁ := by
      rw [endDdlTransaction, get_bind, hlookup]
      rfl
    rcases append_cases r m₁ with ⟨w, happend, hlog, hnext⟩ | ⟨e, w, happend, hlog, hnext⟩
    · right
      refine ⟨WALManager.stamp next r, ?_⟩
      have hfinal : final (endDdlTransaction t record) m =
          { m₁ with walManager := final Journal.flushBuffer w } := by
        rw [final, hrun, bind_of_ok happend, ← final, final_bind_pure, final_onWal]
      rw [hfinal]
      refine ⟨(Recorded.log_flush w).trans hlog, rfl, ?_, fun _ => ?_, fun state hstate => ?_,
        fun x hx => ?_⟩
      · rwa [LawfulJournal.flush]
      · show r.header.prevLsn = getTransactionPrevLsn r.header.transactionId m
        rw [ht, hlink, getTransactionPrevLsn, hlookup]
        rfl
      · change (m.activeTransactions.erase t).lookup r.header.transactionId = some state at hstate
        rw [ht, AList.lookup_erase] at hstate
        cases hstate
      · change x ≠ r.header.transactionId at hx
        exact AList.lookup_erase_ne (ht ▸ hx)
    · left
      have hfinal : final (endDdlTransaction t record) m = { m₁ with walManager := w } := by
        rw [final, hrun, bind_of_error happend]
      rw [hfinal]
      refine ⟨hlog, hnext, fun x state hstate => ?_⟩
      change (m.activeTransactions.erase t).lookup x = some state at hstate
      by_cases hx : x = t
      · rw [hx, AList.lookup_erase] at hstate
        cases hstate
      · rwa [AList.lookup_erase_ne hx] at hstate

/-- What a call can do: log one record, or none. -/
theorem step_cases (op : DdlOp) (m : DdlWALManager (Recorded ω)) :
    Quiet m (final (step op) m) ∨ ∃ r, Logged r m (final (step op) m) := by
  rcases step_forms (ω := Recorded ω) op with
    ⟨t, hstep⟩ | ⟨t, record, hlinks, hstep⟩ | ⟨t, objectName, record, hlinks, hstep⟩ <;> rw [hstep]
  · exact begin_cases t m
  · exact end_cases hlinks m
  · exact logOperation_cases hlinks objectName m

/-! ## Runs -/

theorem chained_run (journal : ω) (ops : List DdlOp) :
    Chained ((new (⟨journal, []⟩ : Recorded ω)).run ops) := by
  induction ops using List.reverseRecOn with
  | nil => exact chained_new journal
  | append_singleton ops op ih =>
    rw [run, List.foldl_append]
    rcases step_cases op ((new (⟨journal, []⟩ : Recorded ω)).run ops) with hquiet | ⟨r, hlogged⟩
    · exact ih.quiet hquiet
    · exact ih.logged hlogged

/-- The log of schema changes, over every run of calls and with any failures of the file. The numbers
in the log increase. The state of an active transaction lists those of its records since its begin.
And a record other than a begin that a further call logs for an active transaction links to the last
record of the transaction before it. -/
theorem ddl_chain (wal : WALManager) (ops : List DdlOp) :
    let m := (new (⟨wal, []⟩ : Recorded WALManager)).run ops
    (m.log.map (·.header.lsn)).Pairwise (· < ·) ∧
      (∀ t state, m.activeTransactions.lookup t = some state →
        state.prevLsns ++ [state.currentLsn] = (sinceBegin t m.log).map (·.header.lsn)) ∧
      ∀ op r, (final (step op) m).log = m.log ++ [r] → r.header.recordType ≠ .begin →
        r.header.transactionId ∈ m.activeTransactions →
        ∃ p ∈ (recordsOf r.header.transactionId m.log).getLast?,
          r.header.prevLsn = some p.header.lsn := by
  intro m
  have hchained : Chained m := chained_run wal ops
  refine ⟨hchained.increasing, hchained.states, fun op r hlog htype hactive => ?_⟩
  rcases step_cases op m with hquiet | ⟨r', hlogged⟩
  · have hnil : [r] = [] := List.append_right_eq_self.mp (hlog.symm.trans hquiet.log)
    cases hnil
  · obtain rfl : r = r' := by
      have heq := List.append_cancel_left (hlog.symm.trans hlogged.log)
      exact List.singleton_inj.mp heq
    obtain ⟨p, hp, hprev⟩ := hchained.link hactive
    exact ⟨p, hp, (hlogged.link htype).trans hprev⟩

/-! ## The records are only observed -/

section Forget

variable {ω : Type}

/-- The DDL WAL manager without the list of records. -/
def forget (m : DdlWALManager (Recorded ω)) : DdlWALManager ω :=
  ⟨m.walManager.journal, m.activeTransactions⟩

theorem commutes_onWal {α : Type} {act : EStateM Failure (Recorded ω) α}
    {act' : EStateM Failure ω α} (h : Commutes Recorded.journal act act') :
    Commutes forget (onWal act) (onWal act') := by
  intro m
  have hrun := h m.walManager
  simp only [onWal, forget]
  cases hact : act m.walManager <;> rw [hact] at hrun <;> rw [hrun]

variable [Journal ω]

/-- A DDL WAL manager on a recorded journal does what it does on the journal. -/
theorem commutes_step (op : DdlOp) : Commutes (forget (ω := ω)) (step op) (step op) := by
  have hbegin : ∀ t, Commutes (forget (ω := ω)) (beginDdlTransaction t) (beginDdlTransaction t) := by
    intro t
    refine Commutes.get_bind fun m => (commutes_onWal (Recorded.commutes_append _)).bind fun lsn => ?_
    exact Commutes.bind (Commutes.modify fun _ => rfl) fun _ => Commutes.pure _
  have hend : ∀ t record,
      Commutes (forget (ω := ω)) (endDdlTransaction t record) (endDdlTransaction t record) := by
    intro t record
    refine Commutes.get_bind fun m => ?_
    dsimp only [forget]
    cases m.activeTransactions.lookup t with
    | none => exact Commutes.throw _
    | some txState =>
      refine Commutes.bind (Commutes.modify fun _ => rfl) fun _ => Commutes.get_bind fun m' => ?_
      refine (commutes_onWal (Recorded.commutes_append _)).bind fun lsn => ?_
      exact (commutes_onWal Recorded.commutes_flush).bind fun _ => Commutes.pure _
  have hlog : ∀ t objectName record, Commutes (forget (ω := ω)) (logOperation t objectName record)
      (logOperation t objectName record) := by
    intro t objectName record
    refine Commutes.get_bind fun m => Commutes.get_bind fun m' => ?_
    refine (commutes_onWal (Recorded.commutes_append _)).bind fun lsn => Commutes.bind ?_ fun _ =>
      Commutes.pure _
    refine Commutes.modify fun m => ?_
    dsimp only [forget]
    cases m.activeTransactions.lookup t <;> rfl
  cases op with
  | begin t => exact hbegin t
  | commit t | rollback t => exact hend t _
  | createTable t | dropTable t | addColumn t | dropColumn t | addConstraint t | dropConstraint t
  | createIndex t | dropIndex t =>
    unfold step
    apply hlog t

theorem forget_run (ops : List DdlOp) (m : DdlWALManager (Recorded ω)) :
    forget (m.run ops) = (forget m).run ops := by
  induction ops generalizing m with
  | nil => rfl
  | cons op ops ih =>
    have hstep := (commutes_step op).final m
    exact (ih (final (step op) m)).trans (congrArg (run ops) hstep.symm)

end Forget

end DdlWALManager

end Rustgresql
