import Rustgresql.Transaction.Manager

/-!
# The two sets of active transactions

The transaction manager and its MVCC manager each keep the transactions that are active. A begin
registers in both before it touches the log. A commit and a rollback leave the first set, write to
the log, and then leave the second: if the log refuses their first record, the two sets differ from
then on. `activeSets_agree_iff` says that nothing else can go wrong.
-/

namespace Rustgresql

open StateSpec

namespace TransactionManager

variable {ω : Type}

/-- The two managers hold the same transactions to be active. -/
def ActiveAgree (m : TransactionManager ω) : Prop :=
  ∀ t, t ∈ m.activeTransactions ↔ t ∈ m.mvcc.activeTransactions

/-- The states differ in their logs at most. -/
structure SameButWal (m m' : TransactionManager ω) : Prop where
  next : m'.nextTransactionId = m.nextTransactionId
  active : m'.activeTransactions = m.activeTransactions
  mvcc : m'.mvcc = m.mvcc

theorem SameButWal.trans {m m' m'' : TransactionManager ω} (h : SameButWal m m')
    (h' : SameButWal m' m'') : SameButWal m m'' :=
  ⟨h'.next.trans h.next, h'.active.trans h.active, h'.mvcc.trans h.mvcc⟩

theorem SameButWal.agree {m m' : TransactionManager ω} (h : SameButWal m m') :
    ActiveAgree m' ↔ ActiveAgree m := by
  rw [ActiveAgree, ActiveAgree, h.active, h.mvcc]

/-- The log, if there is one, runs `act` without failing. -/
def LogTakes {α : Type} (act : EStateM Failure ω α) (m : TransactionManager ω) : Prop :=
  ∀ w ∈ m.wal, ∃ a w', act w = .ok a w'

theorem onWal_of_takes {α : Type} {act : EStateM Failure ω α} {m : TransactionManager ω}
    (h : LogTakes act m) : ∃ a m', onWal act m = .ok a m' ∧ SameButWal m m' := by
  unfold onWal
  cases hwal : m.wal with
  | none => exact ⟨none, m, rfl, rfl, rfl, rfl⟩
  | some w =>
    obtain ⟨a, w', hact⟩ := h w hwal
    simp only [hact]
    exact ⟨some a, _, rfl, rfl, rfl, rfl⟩

theorem onWal_of_not_takes {α : Type} {act : EStateM Failure ω α} {m : TransactionManager ω}
    (h : ¬ LogTakes act m) : ∃ e m', onWal act m = .error e m' ∧ SameButWal m m' := by
  unfold LogTakes at h
  push Not at h
  obtain ⟨w, hwal, hfail⟩ := h
  cases hact : act w with
  | ok a w' => exact absurd hact (hfail a w')
  | error e w' =>
    refine ⟨e, { m with wal := some w' }, ?_, rfl, rfl, rfl⟩
    simp only [onWal, Option.mem_def.mp hwal, hact]

/-- Whatever becomes of calls on the log, everything else stays as it is. -/
theorem onWal_same {α : Type} (act : EStateM Failure ω α) (m : TransactionManager ω) :
    Spec (onWal act) m (fun _ => SameButWal m) (fun _ => SameButWal m) := by
  by_cases h : LogTakes act m
  · obtain ⟨a, m', hrun, hsame⟩ := onWal_of_takes h
    exact Spec.of_ok hrun hsame
  · obtain ⟨e, m', hrun, hsame⟩ := onWal_of_not_takes h
    unfold Spec
    rw [hrun]
    exact hsame

/-- The states have the same MVCC manager and the same active transactions, up to what the first set
keeps of these. -/
structure SameActive (m m' : TransactionManager ω) : Prop where
  mvcc : m'.mvcc = m.mvcc
  mem : ∀ t, t ∈ m'.activeTransactions ↔ t ∈ m.activeTransactions

theorem SameButWal.same {m m' : TransactionManager ω} (h : SameButWal m m') : SameActive m m' :=
  ⟨h.mvcc, fun t => by rw [h.active]⟩

theorem SameActive.trans {m m' m'' : TransactionManager ω} (h : SameActive m m')
    (h' : SameActive m' m'') : SameActive m m'' :=
  ⟨h'.mvcc.trans h.mvcc, fun t => (h'.mem t).trans (h.mem t)⟩

theorem ActiveAgree.of_same {m m' : TransactionManager ω} (h : ActiveAgree m)
    (hsame : SameActive m m') : ActiveAgree m' := by
  intro t
  rw [hsame.mem, hsame.mvcc]
  exact h t

/-- A change to an active transaction leaves the numbers of the active transactions. -/
theorem updateActive_same (t : TransactionId) (f : Transaction → Transaction)
    (m : TransactionManager ω) : SameActive m (final (updateActive t f) m) := by
  simp only [final, updateActive, modify, modifyGet, MonadStateOf.modifyGet, EStateM.modifyGet]
  cases h : m.activeTransactions.lookup t with
  | none => exact ⟨rfl, fun _ => Iff.rfl⟩
  | some tx =>
    refine ⟨rfl, fun x => (AList.mem_insert _).trans (or_iff_right_of_imp ?_)⟩
    rintro rfl
    exact AList.lookup_isSome.mp (by rw [h]; rfl)

/-- The state in which a commit or a rollback has taken its transaction out of the first set. -/
def removed (t : TransactionId) (m : TransactionManager ω) : TransactionManager ω :=
  { m with activeTransactions := m.activeTransactions.erase t }

/-- Taking a transaction out of the first set alone makes the sets differ. -/
theorem not_agree_removed {m : TransactionManager ω} (h : ActiveAgree m) {t : TransactionId}
    {tx : Transaction} (hlookup : m.activeTransactions.lookup t = some tx) :
    ¬ ActiveAgree (removed t m) := by
  intro hagree
  have hmem : t ∈ m.activeTransactions := AList.lookup_isSome.mp (by rw [hlookup]; rfl)
  have hstill := (hagree t).mpr ((h t).mp hmem)
  exact ((AList.mem_erase).mp hstill).1 rfl

/-- Taking a transaction out of both sets leaves them in agreement. -/
theorem agree_erase {m : TransactionManager ω} (h : ActiveAgree m) (t x : TransactionId) :
    x ∈ m.activeTransactions.erase t ↔ x ∈ m.mvcc.activeTransactions.erase t := by
  rw [AList.mem_erase, Finset.mem_erase, h x]

variable [Journal ω]

/-- The first record that the call writes for its transaction reaches the log. A begin and the
logging of a modification may fail. -/
def FirstRecordLogged (m : TransactionManager ω) : TxOp → Prop
  | .commit t => ∀ tx ∈ m.activeTransactions.lookup t,
      LogTakes (Journal.appendAndFlush (.commit t 0 tx.lastLsn)) m
  | .rollback t => ∀ tx ∈ m.activeTransactions.lookup t,
      LogTakes (Journal.appendAndFlush (.abort t 0 tx.lastLsn)) m
  | _ => True

/-! ## What the calls come to -/

/-- The state in which a begin has registered its transaction and has yet to log it. -/
def registered (isolationLevel : IsolationLevel) (m : TransactionManager ω) :
    TransactionManager ω :=
  let first := m.mvcc.beginTransaction m.nextTransactionId
  let second := first.2.beginTransaction m.nextTransactionId
  let transaction := Transaction.new m.nextTransactionId isolationLevel first.1.timestamp
  { nextTransactionId := m.nextTransactionId + 1
    activeTransactions := m.activeTransactions.insert m.nextTransactionId
      { transaction with snapshot := some second.1 }
    wal := m.wal
    mvcc := second.2 }

theorem beginTransaction_of_fits (isolationLevel : IsolationLevel) {m : TransactionManager ω}
    (h : m.nextTransactionId.toNat + 1 < 2 ^ 64) :
    beginTransaction isolationLevel m = (do
      let _ ← onWal (Journal.appendRecord (.begin m.nextTransactionId 0))
      pure m.nextTransactionId : Call ω TransactionId) (registered isolationLevel m) := by
  rw [beginTransaction, get_bind, bind_of_ok (require_of h _ _)]
  rfl

theorem beginTransaction_of_not_fits (isolationLevel : IsolationLevel) {m : TransactionManager ω}
    (h : ¬ m.nextTransactionId.toNat + 1 < 2 ^ 64) :
    beginTransaction isolationLevel m = .error (.panic "attempt to add with overflow") m := by
  rw [beginTransaction, get_bind, bind_of_error (require_of_not h _ _)]

theorem commitTransaction_of_none {t : TransactionId} {m : TransactionManager ω}
    (h : m.activeTransactions.lookup t = none) :
    commitTransaction t m = .error (notFound t) m := by
  rw [commitTransaction, get_bind, h]
  rfl

theorem rollbackTransaction_of_none {t : TransactionId} {m : TransactionManager ω}
    (h : m.activeTransactions.lookup t = none) :
    rollbackTransaction t m = .error (notFound t) m := by
  rw [rollbackTransaction, get_bind, h]
  rfl

theorem commitTransaction_of_some {t : TransactionId} {m : TransactionManager ω} {tx : Transaction}
    {s : Snapshot} (h : m.activeTransactions.lookup t = some tx) (hs : tx.snapshot = some s) :
    commitTransaction t m =
      (onWal (Journal.appendAndFlush (.commit t 0 tx.lastLsn)) >>= commitPhase2 t s.timestamp)
        (removed t m) := by
  have hlift : lift tx.getSnapshot (removed t m) = .ok s (removed t m) := by
    unfold lift
    rw [Transaction.getSnapshot, hs]
  rw [commitTransaction, get_bind, h]
  exact (bind_of_ok rfl).trans (bind_of_ok hlift)

theorem rollbackTransaction_of_some {t : TransactionId} {m : TransactionManager ω}
    {tx : Transaction} {s : Snapshot} (h : m.activeTransactions.lookup t = some tx)
    (hs : tx.snapshot = some s) :
    rollbackTransaction t m = (do
      let _ ← onWal (Journal.appendAndFlush (.abort t 0 tx.lastLsn))
      onMvcc fun m => ((), m.abortTransaction t) : Call ω Unit) (removed t m) := by
  have hlift : lift tx.getSnapshot (removed t m) = .ok s (removed t m) := by
    unfold lift
    rw [Transaction.getSnapshot, hs]
  rw [rollbackTransaction, get_bind, h]
  exact (bind_of_ok rfl).trans (bind_of_ok hlift)

/-- The second phase of a commit ends the transaction in the MVCC manager, whether its own record is
logged or not. -/
theorem commitPhase2_same (t : TransactionId) (ts : ℕ) (commitLsn : Option LSN)
    (m : TransactionManager ω) :
    SameButWal { m with mvcc := (m.mvcc.commitTransaction t ts).2 }
      (final (commitPhase2 t ts commitLsn) m) := by
  set m' : TransactionManager ω := { m with mvcc := (m.mvcc.commitTransaction t ts).2 }
  have hmvcc : onMvcc (MVCCManager.commitTransaction t ts) m =
      .ok (m.mvcc.commitTransaction t ts).1 m' := rfl
  unfold commitPhase2
  rw [final_bind_of_ok hmvcc]
  cases commitLsn with
  | none => exact ⟨rfl, rfl, rfl⟩
  | some lsn =>
    by_cases hlsn : lsn ≠ 0
    · rw [final_bind_of_ok (require_of hlsn _ _)]
      exact Spec.final (I := m'.SameButWal) ((onWal_same _ m').bind fun _ _ h => Spec.pure h)
    · rw [final_bind_of_error (require_of_not hlsn _ _)]
      exact ⟨rfl, rfl, rfl⟩

/-- What a commit of an active transaction leaves. -/
theorem final_commit {t : TransactionId} {m : TransactionManager ω} {tx : Transaction}
    {s : Snapshot} (h : m.activeTransactions.lookup t = some tx) (hs : tx.snapshot = some s) :
    (LogTakes (Journal.appendAndFlush (.commit t 0 tx.lastLsn)) m →
      SameButWal { removed t m with mvcc := (m.mvcc.commitTransaction t s.timestamp).2 }
        (final (commitTransaction t) m)) ∧
    (¬ LogTakes (Journal.appendAndFlush (.commit t 0 tx.lastLsn)) m →
      SameButWal (removed t m) (final (commitTransaction t) m)) := by
  have hrun : final (commitTransaction t) m = final (onWal (Journal.appendAndFlush
      (.commit t 0 tx.lastLsn)) >>= commitPhase2 t s.timestamp) (removed t m) := by
    rw [final, commitTransaction_of_some h hs, final]
  rw [hrun]
  constructor
  · intro htakes
    obtain ⟨lsn, m', hlog, hsame⟩ := onWal_of_takes (m := removed t m) htakes
    rw [final_bind_of_ok hlog]
    have hphase := commitPhase2_same t s.timestamp lsn m'
    refine ⟨hphase.next.trans hsame.next, hphase.active.trans hsame.active, ?_⟩
    rw [hphase.mvcc, hsame.mvcc]
    rfl
  · intro hfails
    obtain ⟨e, m', hlog, hsame⟩ := onWal_of_not_takes (m := removed t m) hfails
    rw [final_bind_of_error hlog]
    exact hsame

/-- What a rollback of an active transaction leaves. -/
theorem final_rollback {t : TransactionId} {m : TransactionManager ω} {tx : Transaction}
    {s : Snapshot} (h : m.activeTransactions.lookup t = some tx) (hs : tx.snapshot = some s) :
    (LogTakes (Journal.appendAndFlush (.abort t 0 tx.lastLsn)) m →
      SameButWal { removed t m with mvcc := m.mvcc.abortTransaction t }
        (final (rollbackTransaction t) m)) ∧
    (¬ LogTakes (Journal.appendAndFlush (.abort t 0 tx.lastLsn)) m →
      SameButWal (removed t m) (final (rollbackTransaction t) m)) := by
  have hrun : final (rollbackTransaction t) m = final (do
      let _ ← onWal (Journal.appendAndFlush (.abort t 0 tx.lastLsn))
      onMvcc fun m => ((), m.abortTransaction t) : Call ω Unit) (removed t m) := by
    rw [final, rollbackTransaction_of_some h hs, final]
  rw [hrun]
  constructor
  · intro htakes
    obtain ⟨lsn, m', hlog, hsame⟩ := onWal_of_takes (m := removed t m) htakes
    rw [final_bind_of_ok hlog]
    refine ⟨hsame.next, hsame.active, ?_⟩
    show m'.mvcc.abortTransaction t = _
    rw [hsame.mvcc]
    rfl
  · intro hfails
    obtain ⟨e, m', hlog, hsame⟩ := onWal_of_not_takes (m := removed t m) hfails
    rw [final_bind_of_error hlog]
    exact hsame

/-- What a begin leaves, whether it is logged or not. -/
theorem final_begin (isolationLevel : IsolationLevel) {m : TransactionManager ω}
    (h : m.nextTransactionId.toNat + 1 < 2 ^ 64) :
    SameButWal (registered isolationLevel m) (final (beginTransaction isolationLevel) m) := by
  rw [final, beginTransaction_of_fits isolationLevel h, ← final]
  exact Spec.final (I := (registered isolationLevel m).SameButWal)
    ((onWal_same _ _).bind fun _ _ h => Spec.pure h)

/-- Logging a modification leaves the active transactions and the MVCC manager. -/
theorem logRecord_same (t : TransactionId) (record : WALRecord) (m : TransactionManager ω) :
    SameActive m (final (logRecord t record) m) := by
  have hwal : Spec (onWal (Journal.appendRecord record)) m (fun _ => SameActive m)
      (fun _ => SameActive m) := (onWal_same _ m).mono (fun _ _ h => h.same) fun _ _ h => h.same
  refine Spec.final (hwal.bind fun lsn m' h => ?_)
  cases lsn with
  | none => exact Spec.pure h
  | some lsn => exact Spec.of_ok rfl (h.trans (updateActive_same t _ m'))

theorem logModify_same (t : TransactionId) (pageId : PageId) (offset : UInt64)
    (oldData : Option (List UInt8)) (newData : List UInt8) (m : TransactionManager ω) :
    SameActive m (final (logModify t pageId offset oldData newData) m) := by
  cases oldData with
  | none => exact logRecord_same t _ m
  | some old => exact (updateActive_same t _ m).trans (logRecord_same t _ _)

theorem logDelete_same (t : TransactionId) (rowIndex : UInt64) (bytes : List UInt8)
    (m : TransactionManager ω) : SameActive m (final (logDelete t rowIndex bytes) m) :=
  (updateActive_same t _ m).trans (logRecord_same t _ _)

/-- One call, made when the two sets agree, keeps them in agreement exactly when its first record
is logged. -/
theorem agree_txStep_iff {m : TransactionManager ω} (hm : Ahead m) (h : ActiveAgree m) (op : TxOp) :
    ActiveAgree (final (txStep op) m) ↔ FirstRecordLogged m op := by
  cases op with
  | begin isolationLevel =>
    refine iff_of_true ?_ trivial
    rw [txStep, final_discard]
    by_cases hfits : m.nextTransactionId.toNat + 1 < 2 ^ 64
    · refine (final_begin isolationLevel hfits).agree.mpr fun t => ?_
      show t ∈ AList.insert _ _ _ ↔ t ∈ insert _ (insert _ _)
      rw [AList.mem_insert, Finset.insert_idem, Finset.mem_insert, h t]
    · rwa [final, beginTransaction_of_not_fits isolationLevel hfits]
  | commit t =>
    rw [txStep, FirstRecordLogged]
    cases hlookup : m.activeTransactions.lookup t with
    | none =>
      have hsame : final (commitTransaction t) m = m := by
        rw [final, commitTransaction_of_none hlookup]
      rw [hsame]
      exact iff_of_true h nofun
    | some tx =>
      obtain ⟨s, hs, -⟩ := hm.active t tx hlookup
      obtain ⟨hlogged, hrefused⟩ := final_commit hlookup hs
      constructor
      · intro hagree x hx
        obtain rfl : tx = x := Option.some.inj hx
        by_contra hnot
        exact not_agree_removed h hlookup ((hrefused hnot).agree.mp hagree)
      · intro htakes
        exact (hlogged (htakes tx rfl)).agree.mpr (agree_erase h t)
  | rollback t =>
    rw [txStep, FirstRecordLogged]
    cases hlookup : m.activeTransactions.lookup t with
    | none =>
      have hsame : final (rollbackTransaction t) m = m := by
        rw [final, rollbackTransaction_of_none hlookup]
      rw [hsame]
      exact iff_of_true h nofun
    | some tx =>
      obtain ⟨s, hs, -⟩ := hm.active t tx hlookup
      obtain ⟨hlogged, hrefused⟩ := final_rollback hlookup hs
      constructor
      · intro hagree x hx
        obtain rfl : tx = x := Option.some.inj hx
        by_contra hnot
        exact not_agree_removed h hlookup ((hrefused hnot).agree.mp hagree)
      · intro htakes
        exact (hlogged (htakes tx rfl)).agree.mpr (agree_erase h t)
  | logModify t pageId offset oldData newData =>
    refine iff_of_true ?_ trivial
    exact h.of_same (logModify_same t pageId offset oldData newData m)
  | logDelete t rowIndex bytes =>
    refine iff_of_true ?_ trivial
    exact h.of_same (logDelete_same t rowIndex bytes m)

/-! ## Runs -/

/-- After every call of a run the two sets agree, if and only if every commit and every rollback of
an active transaction gets its first record into the log. -/
theorem activeSets_agree_iff (wal : Option ω) (ops : List TxOp) :
    (∀ pre, pre <+: ops → ActiveAgree ((new wal).run (pre.map .tx))) ↔
      ∀ pre op post, ops = pre ++ op :: post →
        FirstRecordLogged ((new wal).run (pre.map .tx)) op := by
  have hstep : ∀ (pre : List TxOp) (op : TxOp), ActiveAgree ((new wal).run (pre.map .tx)) →
      (ActiveAgree ((new wal).run ((pre ++ [op]).map .tx)) ↔
        FirstRecordLogged ((new wal).run (pre.map .tx)) op) := by
    intro pre op h
    have hrun : (new wal).run ((pre ++ [op]).map .tx) =
        final (txStep op) ((new wal).run (pre.map .tx)) := by
      rw [List.map_append, run, List.foldl_append]
      rfl
    rw [hrun]
    exact agree_txStep_iff (ahead_run _ (ahead_new wal)) h op
  constructor
  · rintro h pre op post rfl
    have hbefore := h pre (List.prefix_append _ _)
    refine (hstep pre op hbefore).mp (h _ ?_)
    exact ⟨post, by simp⟩
  · intro h pre
    induction pre using List.reverseRecOn with
    | nil =>
      intro _ t
      simp [new, run, MVCCManager.new]
    | append_singleton pre op ih =>
      rintro ⟨post, rfl⟩
      have hbefore := ih ⟨op :: post, by simp⟩
      exact (hstep pre op hbefore).mpr (h pre op post (by simp))

/-- A log whose next file operation fails. -/
def failingLog : WALManager :=
  { WALManager.created 8192 with file := ⟨[], 0, [some 0]⟩ }

/-- Transaction 1 begins and commits on such a log. The commit fails, and the MVCC manager keeps the
transaction that the transaction manager has dropped. -/
theorem activeSets_differ :
    let m := (new (some failingLog)).run [.tx (.begin .readCommitted), .tx (.commit 1)]
    1 ∉ m.activeTransactions ∧ 1 ∈ m.mvcc.activeTransactions := by
  decide

end TransactionManager

end Rustgresql
