import Rustgresql.Transaction.Mvcc.Vacuum
import Rustgresql.Transaction.Wal.Journal

/-!
# The transaction manager (`transaction/manager.rs`)

`TransactionManager` hands out transaction numbers and keeps the active transactions next to the
MVCC manager and an optional log, which may be any `Journal`. Restoring table rows on rollback is the
catalog's business and leaves this state alone.

The clock of the MVCC manager stays ahead of every active snapshot (`Ahead`), so `cleanup` vacuums
with a timestamp that no active or future snapshot is before.
-/

namespace Rustgresql

open StateSpec

/-- Transaction isolation levels. -/
inductive IsolationLevel
  | readUncommitted
  | readCommitted
  | repeatableRead
  | serializable
  deriving DecidableEq, Repr

/-- Transaction state. -/
inductive TransactionState
  | active
  | preparing
  | committed
  | aborted
  deriving DecidableEq, Repr

/-- Transaction context. -/
structure Transaction where
  id : TransactionId
  state : TransactionState
  snapshot : Option Snapshot
  isolationLevel : IsolationLevel
  startTs : ℕ
  lastLsn : Option LSN
  modifiedPages : HashMap PageId (List UInt8)
  deriving DecidableEq

namespace Transaction

/-- `Transaction::new`. -/
def new (id : TransactionId) (isolationLevel : IsolationLevel) (startTs : ℕ) : Transaction where
  id := id
  state := .active
  snapshot := none
  isolationLevel := isolationLevel
  startTs := startTs
  lastLsn := none
  modifiedPages := ∅

/-- `Transaction::add_modified_page`. -/
def addModifiedPage (pageId : PageId) (oldData : List UInt8) (t : Transaction) : Transaction :=
  { t with modifiedPages := t.modifiedPages.insert pageId oldData }

/-- `snapshot.as_ref().unwrap()`. -/
def getSnapshot (t : Transaction) : Result Snapshot :=
  match t.snapshot with
  | some s => .ok s
  | none => .error (.panic "called `Option::unwrap()` on a `None` value")

end Transaction

/-- Transaction manager. -/
structure TransactionManager (ω : Type) where
  nextTransactionId : TransactionId
  activeTransactions : HashMap TransactionId Transaction
  wal : Option ω
  mvcc : MVCCManager

/-- Cleanup results. -/
structure CleanupResult where
  removedVersions : ℕ
  vacuumTimestamp : ℕ
  deriving DecidableEq, Repr

namespace TransactionManager

variable {ω : Type}

/-- A call on the transaction manager. -/
abbrev Call (ω : Type) := EStateM Failure (TransactionManager ω)

/-- `TransactionManager::new`, and `with_wal` for a given log. -/
def new (wal : Option ω) : TransactionManager ω := ⟨1, ∅, wal, .new⟩

/-- Run log calls, if there is a log. -/
def onWal {α : Type} (act : EStateM Failure ω α) : Call ω (Option α) := fun m =>
  match m.wal with
  | none => .ok none m
  | some wal =>
    match act wal with
    | .ok a wal => .ok (some a) { m with wal := some wal }
    | .error e wal => .error e { m with wal := some wal }

/-- Lift an outcome that does not depend on the state. -/
def lift {α : Type} (r : Result α) : Call ω α := fun m =>
  match r with
  | .ok a => .ok a m
  | .error e => .error e m

/-- Run a call of the MVCC manager that returns a value. -/
def onMvcc {α : Type} (act : MVCCManager → α × MVCCManager) : Call ω α := fun m =>
  .ok (act m.mvcc).1 { m with mvcc := (act m.mvcc).2 }

/-- The error for a transaction that is not active. -/
def notFound (transactionId : TransactionId) : Failure :=
  .err (.transaction s!"Transaction {transactionId} not found")

/-- Change an active transaction, if it is there. -/
def updateActive (transactionId : TransactionId) (f : Transaction → Transaction) : Call ω Unit :=
  modify fun m =>
    match m.activeTransactions.lookup transactionId with
    | none => m
    | some t => { m with activeTransactions := m.activeTransactions.insert transactionId (f t) }

/-- The timestamps of the active snapshots. -/
def snapshotTimestamps (m : TransactionManager ω) : Result (List ℕ) :=
  m.activeTransactions.entries.mapM fun e => do
    let snapshot ← e.2.getSnapshot
    pure snapshot.timestamp

/-- The timestamp with which `cleanup` vacuums: that of the oldest active snapshot, or else the
clock. -/
def oldestSnapshot (m : TransactionManager ω) : Result ℕ := do
  let timestamps ← m.snapshotTimestamps
  pure (timestamps.min?.getD m.mvcc.globalTimestamp)

/-- `TransactionManager::cleanup`. -/
def cleanup : Call ω CleanupResult := do
  let oldest ← lift (← get).oldestSnapshot
  let removedVersions ← onMvcc (MVCCManager.vacuum oldest)
  pure { removedVersions, vacuumTimestamp := oldest }

section Calls

variable [Journal ω]

/-- `TransactionManager::begin_transaction`; it begins the transaction twice in the MVCC manager. -/
def beginTransaction (isolationLevel : IsolationLevel) : Call ω TransactionId := do
  let transactionId := (← get).nextTransactionId
  require (transactionId.toNat + 1 < 2 ^ 64) (.panic "attempt to add with overflow")
  modify fun m => { m with nextTransactionId := transactionId + 1 }
  let first ← onMvcc (MVCCManager.beginTransaction transactionId)
  let snapshot ← onMvcc (MVCCManager.beginTransaction transactionId)
  let transaction :=
    { Transaction.new transactionId isolationLevel first.timestamp with snapshot := some snapshot }
  modify fun m =>
    { m with activeTransactions := m.activeTransactions.insert transactionId transaction }
  let _ ← onWal (Journal.appendRecord (.begin transactionId 0))
  pure transactionId

/-- The second phase of `commit_transaction`, given the number of the record of the first. -/
def commitPhase2 (transactionId : TransactionId) (snapshotTs : ℕ) (commitLsn : Option LSN) :
    Call ω Unit := do
  let _ ← onMvcc (MVCCManager.commitTransaction transactionId snapshotTs)
  match commitLsn with
  | none => pure ()
  | some lsn =>
    require (lsn ≠ 0) (.panic "attempt to subtract with overflow")
    let _ ← onWal (Journal.appendAndFlush (.commit transactionId lsn (some (lsn - 1))))

/-- `TransactionManager::commit_transaction`. -/
def commitTransaction (transactionId : TransactionId) : Call ω Unit := do
  match (← get).activeTransactions.lookup transactionId with
  | none => throw (notFound transactionId)
  | some transaction =>
    modify fun m => { m with activeTransactions := m.activeTransactions.erase transactionId }
    let snapshot ← lift transaction.getSnapshot
    let commitLsn ← onWal (Journal.appendAndFlush (.commit transactionId 0 transaction.lastLsn))
    commitPhase2 transactionId snapshot.timestamp commitLsn

/-- `TransactionManager::rollback_transaction`. -/
def rollbackTransaction (transactionId : TransactionId) : Call ω Unit := do
  match (← get).activeTransactions.lookup transactionId with
  | none => throw (notFound transactionId)
  | some transaction =>
    modify fun m => { m with activeTransactions := m.activeTransactions.erase transactionId }
    let _ ← lift transaction.getSnapshot
    let _ ← onWal (Journal.appendAndFlush (.abort transactionId 0 transaction.lastLsn))
    onMvcc fun m => ((), m.abortTransaction transactionId)

/-- Append a modification record and note its number in the transaction. -/
def logRecord (transactionId : TransactionId) (record : WALRecord) : Call ω Unit := do
  match ← onWal (Journal.appendRecord record) with
  | none => pure ()
  | some lsn => updateActive transactionId fun t => { t with lastLsn := some lsn }

/-- `TransactionManager::log_modify`. -/
def logModify (transactionId : TransactionId) (pageId : PageId) (offset : UInt64)
    (oldData : Option (List UInt8)) (newData : List UInt8) : Call ω Unit :=
  match oldData with
  | some old => do
    updateActive transactionId (Transaction.addModifiedPage pageId old)
    logRecord transactionId (.update transactionId 0 none pageId offset old newData)
  | none => logRecord transactionId (.insert transactionId 0 none pageId offset newData)

/-- `TransactionManager::log_delete`, with the serialized restoration info. -/
def logDelete (transactionId : TransactionId) (rowIndex : UInt64)
    (restoreInfoBytes : List UInt8) : Call ω Unit := do
  updateActive transactionId (Transaction.addModifiedPage rowIndex restoreInfoBytes)
  logRecord transactionId (.delete transactionId 0 none rowIndex rowIndex restoreInfoBytes)

/-- `TransactionManager::checkpoint`. -/
def checkpoint : Call ω Unit := do
  let _ ← onWal do
    let lsn := Journal.nextLsn (← get)
    Journal.checkpoint lsn

/-- The calls that sessions make for their transactions. -/
inductive TxOp
  | begin (isolationLevel : IsolationLevel)
  | commit (transactionId : TransactionId)
  | rollback (transactionId : TransactionId)
  | logModify (transactionId : TransactionId) (pageId : PageId) (offset : UInt64)
      (oldData : Option (List UInt8)) (newData : List UInt8)
  | logDelete (transactionId : TransactionId) (rowIndex : UInt64) (restoreInfoBytes : List UInt8)

/-- The calls on a transaction manager. Sessions write through the MVCC manager it hands out. -/
inductive TmOp
  | tx (op : TxOp)
  | cleanup
  | checkpoint
  | mvcc (op : MVCCManager.MvccOp)

/-- Make one call for a transaction. -/
def txStep : TxOp → Call ω Unit
  | .begin isolationLevel => discard (beginTransaction isolationLevel)
  | .commit t => commitTransaction t
  | .rollback t => rollbackTransaction t
  | .logModify t pageId offset oldData newData => logModify t pageId offset oldData newData
  | .logDelete t rowIndex restoreInfoBytes => logDelete t rowIndex restoreInfoBytes

/-- Make one call. -/
def step : TmOp → Call ω Unit
  | .tx op => txStep op
  | .cleanup => discard cleanup
  | .checkpoint => checkpoint
  | .mvcc op => onMvcc fun m => ((), m.step op)

/-- Make calls in order, going on after failures. -/
def run (ops : List TmOp) (m : TransactionManager ω) : TransactionManager ω :=
  ops.foldl (fun m op => final (step op) m) m

end Calls

/-! ## The clock is ahead of the active snapshots -/

/-- Every active transaction has a snapshot that is before the clock; and the chains of the MVCC
manager are indexed as they always are. -/
structure Ahead (m : TransactionManager ω) : Prop where
  active : ∀ t tx, m.activeTransactions.lookup t = some tx →
    ∃ s, tx.snapshot = some s ∧ s.timestamp < m.mvcc.globalTimestamp
  latest : m.mvcc.LatestBehind

theorem ahead_new (wal : Option ω) : Ahead (new wal) where
  active := by rintro t tx ⟨⟩
  latest := MVCCManager.everyChain_new _

theorem Ahead.erase {m : TransactionManager ω} (h : Ahead m) (t : TransactionId) :
    Ahead { m with activeTransactions := m.activeTransactions.erase t } where
  active := by
    intro t' tx hlookup
    by_cases ht : t' = t
    · subst ht
      rw [AList.lookup_erase] at hlookup
      cases hlookup
    · rw [AList.lookup_erase_ne ht] at hlookup
      exact h.active t' tx hlookup
  latest := h.latest

theorem Ahead.insert {m : TransactionManager ω} (h : Ahead m) (t : TransactionId) {tx : Transaction}
    (htx : ∃ s, tx.snapshot = some s ∧ s.timestamp < m.mvcc.globalTimestamp) :
    Ahead { m with activeTransactions := m.activeTransactions.insert t tx } where
  active := by
    intro t' tx' hlookup
    rw [HashMap.lookup_insert_eq] at hlookup
    split at hlookup
    · rwa [← Option.some.inj hlookup]
    · exact h.active t' tx' hlookup
  latest := h.latest

/-- A call of the MVCC manager keeps the clock ahead. -/
theorem Ahead.step {m : TransactionManager ω} (h : Ahead m) (op : MVCCManager.MvccOp) :
    Ahead { m with mvcc := m.mvcc.step op } where
  active := by
    intro t tx hlookup
    obtain ⟨s, hs, hlt⟩ := h.active t tx hlookup
    exact ⟨s, hs, hlt.trans_le (MVCCManager.globalTimestamp_step m.mvcc op)⟩
  latest := MVCCManager.chainInvariant_latestBehind.step h.latest op

theorem keeps_onWal {α : Type} (act : EStateM Failure ω α) : Keeps (Ahead (ω := ω)) (onWal act) := by
  intro m h
  unfold Spec onWal
  cases m.wal with
  | none => exact h
  | some wal =>
    dsimp only
    cases act wal with
    | ok a wal' => exact ⟨h.active, h.latest⟩
    | error e wal' => exact ⟨h.active, h.latest⟩

theorem keeps_lift {α : Type} (r : Result α) : Keeps (Ahead (ω := ω)) (lift r) := by
  intro m h
  unfold Spec lift
  cases r <;> exact h

theorem keeps_onMvcc {α : Type} {act : MVCCManager → α × MVCCManager} (op : MVCCManager.MvccOp)
    (hact : ∀ m, (act m).2 = m.step op) : Keeps (Ahead (ω := ω)) (onMvcc act) := by
  intro m h
  show Ahead { m with mvcc := (act m.mvcc).2 }
  rw [hact]
  exact h.step op

theorem keeps_updateActive (t : TransactionId) {f : Transaction → Transaction}
    (hf : ∀ tx, (f tx).snapshot = tx.snapshot) : Keeps (Ahead (ω := ω)) (updateActive t f) := by
  refine Keeps.modify fun m h => ?_
  cases hlookup : m.activeTransactions.lookup t with
  | none => exact h
  | some tx =>
    obtain ⟨s, hs, hlt⟩ := h.active t tx hlookup
    exact h.insert t ⟨s, by rw [hf, hs], hlt⟩

theorem keeps_cleanup : Keeps (Ahead (ω := ω)) cleanup := by
  refine Keeps.get_bind fun m₀ => (keeps_lift _).bind fun oldest => ?_
  exact (keeps_onMvcc (.vacuum oldest) fun _ => rfl).bind fun _ => Keeps.pure _

section Keeps

variable [Journal ω]

theorem keeps_logRecord (t : TransactionId) (record : WALRecord) :
    Keeps (Ahead (ω := ω)) (logRecord t record) := by
  refine (keeps_onWal _).bind fun lsn => ?_
  cases lsn with
  | none => exact Keeps.pure ()
  | some lsn => exact keeps_updateActive t fun _ => rfl

/-- A begin registers its second snapshot, which the clock has passed. -/
theorem keeps_beginTransaction (isolationLevel : IsolationLevel) :
    Keeps (Ahead (ω := ω)) (beginTransaction isolationLevel) := by
  refine Keeps.get_bind fun m₀ => (Keeps.require _ _).bind fun _ => Keeps.bind ?_ fun _ => ?_
  · exact Keeps.modify fun m h => ⟨h.active, h.latest⟩
  · refine Keeps.bind (keeps_onMvcc (.begin _) fun _ => rfl) fun first => ?_
    intro m h
    have hbegin : Spec (onMvcc (MVCCManager.beginTransaction m₀.nextTransactionId)) m
        (fun s m' => Ahead m' ∧ s.timestamp < m'.mvcc.globalTimestamp) (fun _ => Ahead) :=
      ⟨h.step (.begin m₀.nextTransactionId), Nat.lt_succ_self _⟩
    refine hbegin.bind fun s m' hs => ?_
    exact Keeps.bind (keeps_onWal _) (fun _ => Keeps.pure _) _ (hs.1.insert _ ⟨s, rfl, hs.2⟩)

theorem keeps_commitTransaction (t : TransactionId) : Keeps (Ahead (ω := ω)) (commitTransaction t) := by
  refine Keeps.get_bind fun m₀ => ?_
  split
  · exact Keeps.throw _
  · refine Keeps.bind (Keeps.modify fun m h => h.erase t) fun _ => ?_
    refine (keeps_lift _).bind fun s => (keeps_onWal _).bind fun commitLsn => ?_
    refine (keeps_onMvcc (.commit t s.timestamp) fun _ => rfl).bind fun _ => ?_
    split
    · exact Keeps.pure ()
    · exact (Keeps.require _ _).bind fun _ => (keeps_onWal _).bind fun _ => Keeps.pure _

theorem keeps_rollbackTransaction (t : TransactionId) : Keeps (Ahead (ω := ω)) (rollbackTransaction t) := by
  refine Keeps.get_bind fun m₀ => ?_
  split
  · exact Keeps.throw _
  · refine Keeps.bind (Keeps.modify fun m h => h.erase t) fun _ => ?_
    refine (keeps_lift _).bind fun s => (keeps_onWal _).bind fun _ => ?_
    exact keeps_onMvcc (.abort t) fun _ => rfl

theorem keeps_txStep (op : TxOp) : Keeps (Ahead (ω := ω)) (txStep op) := by
  cases op with
  | begin isolationLevel => exact (keeps_beginTransaction isolationLevel).bind fun _ => Keeps.pure _
  | commit t => exact keeps_commitTransaction t
  | rollback t => exact keeps_rollbackTransaction t
  | logModify t pageId offset oldData newData =>
    cases oldData with
    | none => exact keeps_logRecord t _
    | some old => exact Keeps.bind (keeps_updateActive t fun _ => rfl) fun _ => keeps_logRecord t _
  | logDelete t rowIndex bytes =>
    exact Keeps.bind (keeps_updateActive t fun _ => rfl) fun _ => keeps_logRecord t _

theorem keeps_step (op : TmOp) : Keeps (Ahead (ω := ω)) (step op) := by
  cases op with
  | tx op => exact keeps_txStep op
  | cleanup => exact keeps_cleanup.bind fun _ => Keeps.pure _
  | checkpoint => exact (keeps_onWal _).bind fun _ => Keeps.pure _
  | mvcc op =>
    intro m h
    exact h.step op

theorem ahead_run (ops : List TmOp) {m : TransactionManager ω} (h : Ahead m) :
    Ahead (m.run ops) := by
  induction ops generalizing m with
  | nil => exact h
  | cons op ops ih => exact ih ((keeps_step op).final h)

end Keeps

/-! ## Cleanup -/

/-- Each element of a list is mapped, if the map fails at none. -/
theorem mem_of_mapM_ok {α β : Type} {f : α → Result β} {l : List α} {bs : List β}
    (h : l.mapM f = .ok bs) {a : α} (ha : a ∈ l) : ∃ b ∈ bs, f a = .ok b := by
  induction l generalizing bs with
  | nil => cases ha
  | cons x l ih =>
    rw [List.mapM_cons] at h
    cases hx : f x with
    | error e =>
      rw [hx] at h
      cases h
    | ok b =>
      cases hl : l.mapM f with
      | error e =>
        rw [hx, hl] at h
        cases h
      | ok bs' =>
        rw [hx, hl] at h
        cases h
        rcases List.mem_cons.mp ha with rfl | ha
        · exact ⟨b, List.mem_cons_self, hx⟩
        · obtain ⟨b', hb', hf⟩ := ih hl ha
          exact ⟨b', List.mem_cons_of_mem _ hb', hf⟩

theorem mem_snapshotTimestamps {m : TransactionManager ω} {timestamps : List ℕ}
    (h : m.snapshotTimestamps = .ok timestamps) {t : TransactionId} {tx : Transaction} {s : Snapshot}
    (htx : m.activeTransactions.lookup t = some tx) (hs : tx.snapshot = some s) :
    s.timestamp ∈ timestamps := by
  obtain ⟨ts, hmem, hts⟩ := mem_of_mapM_ok h (HashMap.lookup_eq_some.mp htx)
  rw [Transaction.getSnapshot, hs] at hts
  cases hts
  exact hmem

/-- `cleanup` vacuums with a timestamp that no active snapshot and no future one is before. -/
theorem oldestSnapshot_le {m : TransactionManager ω} (hm : Ahead m) {oldest : ℕ}
    (h : m.oldestSnapshot = .ok oldest) :
    oldest ≤ m.mvcc.globalTimestamp ∧ ∀ t tx s, m.activeTransactions.lookup t = some tx →
      tx.snapshot = some s → oldest ≤ s.timestamp := by
  rw [oldestSnapshot] at h
  cases hts : m.snapshotTimestamps with
  | error e =>
    rw [hts] at h
    cases h
  | ok timestamps =>
    rw [hts] at h
    obtain rfl : timestamps.min?.getD m.mvcc.globalTimestamp = oldest := Except.ok.inj h
    have hactive : ∀ t tx s, m.activeTransactions.lookup t = some tx → tx.snapshot = some s →
        timestamps.min?.getD m.mvcc.globalTimestamp ≤ s.timestamp := by
      intro t tx s htx hs
      have hmem := mem_snapshotTimestamps hts htx hs
      exact List.min?_getD_le_of_mem hmem
    refine ⟨?_, hactive⟩
    cases hentries : m.activeTransactions.entries with
    | nil =>
      rw [snapshotTimestamps, hentries] at hts
      obtain rfl : [] = timestamps := Except.ok.inj hts
      exact Nat.le_refl _
    | cons e entries =>
      have he : m.activeTransactions.lookup e.1 = some e.2 :=
        HashMap.lookup_eq_some.mpr (by rw [hentries]; exact List.mem_cons_self)
      obtain ⟨s, hs, hlt⟩ := hm.active e.1 e.2 he
      exact (hactive e.1 e.2 s he hs).trans hlt.le

/-- What a cleanup that returns has done. -/
theorem cleanup_eq_ok {m m' : TransactionManager ω} {result : CleanupResult}
    (h : cleanup m = .ok result m') : m.oldestSnapshot = .ok result.vacuumTimestamp ∧
      m'.mvcc = (m.mvcc.vacuum result.vacuumTimestamp).2 := by
  unfold cleanup at h
  rw [get_bind] at h
  cases holdest : m.oldestSnapshot with
  | error e =>
    have hlift : lift m.oldestSnapshot m = .error e m := by
      unfold lift
      rw [holdest]
    rw [bind_of_error hlift] at h
    cases h
  | ok oldest =>
    have hlift : lift m.oldestSnapshot m = .ok oldest m := by
      unfold lift
      rw [holdest]
    rw [bind_of_ok hlift] at h
    cases h
    exact ⟨rfl, rfl⟩

/-- The manager reads nothing differently after a cleanup: not through the snapshot of an active
transaction, not through a snapshot that is yet to be taken, and not as the latest version. -/
def SameReads (m m' : TransactionManager ω) : Prop :=
  ∀ r, (∀ t tx s, m.activeTransactions.lookup t = some tx → tx.snapshot = some s →
      m'.mvcc.readRecord r s = m.mvcc.readRecord r s) ∧
    (∀ s : Snapshot, m.mvcc.globalTimestamp ≤ s.timestamp →
      m'.mvcc.readRecord r s = m.mvcc.readRecord r s) ∧
    m'.mvcc.getLatestVersion r = m.mvcc.getLatestVersion r

theorem sameReads_of_vacuumSafe {m m' : TransactionManager ω} (hm : Ahead m) {result : CleanupResult}
    (h : cleanup m = .ok result m')
    (hsafe : m.mvcc.VacuumSafe result.vacuumTimestamp) : SameReads m m' := by
  obtain ⟨holdest, hmvcc⟩ := cleanup_eq_ok h
  obtain ⟨hclock, hactive⟩ := oldestSnapshot_le hm holdest
  have hkeeps := (MVCCManager.keepsReads_iff hm.latest result.vacuumTimestamp).mpr hsafe
  intro r
  rw [hmvcc]
  refine ⟨fun t tx s htx hs => ?_, fun s hs => ?_, (hkeeps r).2⟩
  · exact MVCCManager.readRecord_of_keepsReads hkeeps r (hactive t tx s htx hs)
  · exact MVCCManager.readRecord_of_keepsReads hkeeps r (hclock.trans hs)

/-- A vacuum keeps the reads exactly when it is safe, in every state that the MVCC manager can
reach; and after any calls on a transaction manager, a cleanup that vacuums safely changes no read
of an active or future transaction. -/
theorem vacuum_keepsReads_iff [Journal ω] (ops : List MVCCManager.MvccOp) (beforeTimestamp : ℕ)
    (wal : Option ω) (calls : List TmOp) :
    (MVCCManager.KeepsReads beforeTimestamp (MVCCManager.new.run ops) ↔
      MVCCManager.VacuumSafe beforeTimestamp (MVCCManager.new.run ops)) ∧
    ∀ result m', cleanup ((new wal).run calls) = .ok result m' →
      MVCCManager.VacuumSafe result.vacuumTimestamp ((new wal).run calls).mvcc →
        SameReads ((new wal).run calls) m' := by
  refine ⟨?_, fun result m' h hsafe => ?_⟩
  · exact MVCCManager.keepsReads_iff
      (MVCCManager.chainInvariant_latestBehind.run ops (MVCCManager.everyChain_new _))
      beforeTimestamp
  · exact sameReads_of_vacuumSafe (ahead_run calls (ahead_new wal)) h hsafe

/-- Transaction 1 writes record 7 and a cleanup in the middle of it changes no read. -/
theorem vacuum_keepsReads_active :
    let m := (new (none : Option WALManager)).run
      [.tx (.begin .readCommitted), .mvcc (.insert 7 [42] 1 1)]
    SameReads m (final cleanup m) := by
  refine (vacuum_keepsReads_iff [] 0 (none : Option WALManager)
    [.tx (.begin .readCommitted), .mvcc (.insert 7 [42] 1 1)]).2 ⟨0, 2⟩ _ rfl fun r => .inl ?_
  show ∀ v ∈ ((MVCCManager.new.run [.begin 1, .begin 1]).pushVersion 7 [42] 1 1).versions r,
    MVCCManager.vacuumKeeps 2 {1} v = true
  rw [MVCCManager.versions_pushVersion]
  split
  · next hr =>
    subst hr
    decide
  · intro v hv
    cases hv

/-- Transaction 1 commits record 7. The next cleanup removes it: neither a later snapshot nor
`get_latest_version` finds it. -/
theorem cleanup_removes_latest :
    let m := (new (none : Option WALManager)).run
      [.tx (.begin .readCommitted), .mvcc (.insert 7 [42] 1 1), .tx (.commit 1)]
    let m' := final cleanup m
    m.mvcc = MVCCManager.new.run [.begin 1, .begin 1, .insert 7 [42] 1 1, .commit 1 2] ∧
      m.mvcc.globalTimestamp = 4 ∧ m'.mvcc = (m.mvcc.vacuum 4).2 ∧
      m.mvcc.readRecord 7 ⟨2, 4, {2}⟩ = some [42] ∧ m'.mvcc.readRecord 7 ⟨2, 4, {2}⟩ = none ∧
      m.mvcc.getLatestVersion 7 = some [42] ∧ m'.mvcc.getLatestVersion 7 = none :=
  ⟨rfl, rfl, rfl, by decide, by decide, by decide, by decide⟩

end TransactionManager

end Rustgresql
