import Rustgresql.Transaction.ActiveSets

/-!
# Undo chains of the transaction log

An undo follows the `prev_lsn` links from a record of a transaction back to its begin. Here the log
holds such chains only as long as no call gets anything but a begin into it
(`undoChains_iff`): `log_modify` and `log_delete` pass no link ("will be set", which nobody does), and
a commit or a rollback passes the number of the transaction's last modification, which a transaction
without modifications does not have.
-/

namespace Rustgresql

open StateSpec

/-- Following the links from `prev` through the records of `log` visits `visited`, in this order. -/
inductive Visits (log : List WALRecord) : Option LSN → List WALRecord → Prop
  | done : Visits log none []
  | back {r : WALRecord} {visited : List WALRecord} : r ∈ log →
      Visits log r.header.prevLsn visited → Visits log (some r.header.lsn) (r :: visited)

theorem visits_none_iff {log visited : List WALRecord} : Visits log none visited ↔ visited = [] := by
  constructor
  · rintro ⟨⟩
    rfl
  · rintro rfl
    exact .done

/-- From every record of the log the links lead through the earlier records of its transaction, the
newest first, and the oldest of them is a begin. -/
def UndoChains (log : List WALRecord) : Prop :=
  ∀ pre r post, log = pre ++ r :: post →
    Visits log r.header.prevLsn (recordsOf r.header.transactionId pre).reverse ∧
      ∀ first ∈ (recordsOf r.header.transactionId (pre ++ [r])).head?,
        first.header.recordType = .begin

/-- The log holds begins only. -/
def OnlyBegins (log : List WALRecord) : Prop := ∀ r ∈ log, r.header.recordType = .begin

/-- Only begins stand before some record that is not one, and that has no link. -/
def UnlinkedStart (log : List WALRecord) : Prop :=
  ∃ pre r post, log = pre ++ r :: post ∧ OnlyBegins pre ∧ r.header.recordType ≠ .begin ∧
    r.header.prevLsn = none

/-- Begins of different transactions, with no links, are chains of their own. -/
theorem undoChains_of_onlyBegins {log : List WALRecord} (h : OnlyBegins log)
    (hlinks : ∀ r ∈ log, r.header.prevLsn = none)
    (hids : (log.map (·.header.transactionId)).Pairwise (· < ·)) : UndoChains log := by
  rintro pre r post rfl
  have hr : r ∈ pre ++ r :: post := by simp
  have hnone : recordsOf r.header.transactionId pre = [] := by
    apply List.filter_eq_nil_iff.mpr
    intro p hp heq
    rw [List.map_append, List.pairwise_append] at hids
    have hlt := hids.2.2 _ (List.mem_map_of_mem hp) r.header.transactionId (by simp)
    rw [of_decide_eq_true heq] at hlt
    exact UInt64.lt_irrefl _ hlt
  rw [hnone, hlinks r hr]
  refine ⟨.done, fun first hfirst => h first ?_⟩
  have hmem : first ∈ pre ++ [r] := List.mem_of_mem_filter (List.mem_of_mem_head? hfirst)
  have hinit : pre ++ [r] <+: pre ++ r :: post := ⟨post, by simp⟩
  exact hinit.subset hmem

/-- The first record that is not a begin must lead back to the begin of its transaction. -/
theorem not_undoChains_of_unlinkedStart {log : List WALRecord} (h : UnlinkedStart log) :
    ¬ UndoChains log := by
  obtain ⟨pre, r, post, hlog, -, htype, hlink⟩ := h
  intro hchains
  obtain ⟨hvisits, hfirst⟩ := hchains pre r post hlog
  rw [hlink, visits_none_iff, List.reverse_eq_nil_iff] at hvisits
  apply htype
  refine hfirst r ?_
  rw [recordsOf_append_of_eq rfl, hvisits]
  rfl

theorem UnlinkedStart.mono {log log' : List WALRecord} (h : UnlinkedStart log)
    (hinit : log <+: log') : UnlinkedStart log' := by
  obtain ⟨pre, r, post, rfl, hpre, htype, hlink⟩ := h
  obtain ⟨rest, rfl⟩ := hinit
  exact ⟨pre, r, post ++ rest, by simp, hpre, htype, hlink⟩

namespace TransactionManager

variable {ω : Type}

/-- The records in the log of a transaction manager. -/
def log (m : TransactionManager (Recorded ω)) : List WALRecord := m.wal.elim [] Recorded.log

/-- The first record that a call other than a begin passes to the log. -/
def firstRecord (m : TransactionManager ω) : TxOp → Option WALRecord
  | .begin _ => none
  | .commit t => (m.activeTransactions.lookup t).map fun tx => .commit t 0 tx.lastLsn
  | .rollback t => (m.activeTransactions.lookup t).map fun tx => .abort t 0 tx.lastLsn
  | .logModify t pageId offset (some oldData) newData =>
    some (.update t 0 none pageId offset oldData newData)
  | .logModify t pageId offset none newData => some (.insert t 0 none pageId offset newData)
  | .logDelete t rowIndex bytes => some (.delete t 0 none rowIndex rowIndex bytes)

theorem updateActive_of_none {t : TransactionId} {m : TransactionManager ω}
    (h : m.activeTransactions.lookup t = none) (f : Transaction → Transaction) :
    updateActive t f m = .ok () m := by
  simp only [updateActive, modify, modifyGet, MonadStateOf.modifyGet, EStateM.modifyGet, h]

theorem updateActive_of_some {t : TransactionId} {m : TransactionManager ω} {tx : Transaction}
    (h : m.activeTransactions.lookup t = some tx) (f : Transaction → Transaction) :
    updateActive t f m =
      .ok () { m with activeTransactions := m.activeTransactions.insert t (f tx) } := by
  simp only [updateActive, modify, modifyGet, MonadStateOf.modifyGet, EStateM.modifyGet, h]

/-- Noting a page in an active transaction leaves the log, and the numbers of the last records. -/
theorem updateActive_ok (t : TransactionId) (f : Transaction → Transaction)
    (m : TransactionManager ω) : ∃ m', updateActive t f m = .ok () m' ∧ m'.wal = m.wal ∧
      m'.nextTransactionId = m.nextTransactionId ∧
      ∀ x tx', m'.activeTransactions.lookup x = some tx' →
        m.activeTransactions.lookup x = some tx' ∨
          ∃ tx, m.activeTransactions.lookup x = some tx ∧ tx' = f tx := by
  cases hlookup : m.activeTransactions.lookup t with
  | none => exact ⟨m, updateActive_of_none hlookup f, rfl, rfl, fun _ _ => .inl⟩
  | some tx =>
    refine ⟨_, updateActive_of_some hlookup f, rfl, rfl, fun x tx' hx => ?_⟩
    dsimp only at hx
    rw [HashMap.lookup_insert_eq] at hx
    split at hx
    · next heq =>
      cases hx
      exact .inr ⟨tx, heq ▸ hlookup, rfl⟩
    · exact .inl hx

/-! ## Clean states -/

/-- The log holds begins of different transactions without links, and no active transaction has logged
anything else. -/
structure Clean (m : TransactionManager (Recorded ω)) : Prop where
  onlyBegins : OnlyBegins m.log
  links : ∀ r ∈ m.log, r.header.prevLsn = none
  ids : (m.log.map (·.header.transactionId)).Pairwise (· < ·)
  below : ∀ r ∈ m.log, r.header.transactionId < m.nextTransactionId
  unlogged : ∀ t tx, m.activeTransactions.lookup t = some tx → tx.lastLsn = none

theorem Clean.undoChains {m : TransactionManager (Recorded ω)} (h : Clean m) : UndoChains m.log :=
  undoChains_of_onlyBegins h.onlyBegins h.links h.ids

/-- In a clean state every record but a begin is about to be logged without a link. -/
theorem Clean.firstRecord_unlinked {m : TransactionManager (Recorded ω)} (h : Clean m) {op : TxOp}
    {r : WALRecord} (hr : r ∈ firstRecord m op) :
    r.header.recordType ≠ .begin ∧ r.header.prevLsn = none := by
  cases op with
  | begin isolationLevel => cases hr
  | commit t =>
    obtain ⟨tx, hlookup, rfl⟩ := Option.map_eq_some_iff.mp hr
    exact ⟨nofun, h.unlogged t tx hlookup⟩
  | rollback t =>
    obtain ⟨tx, hlookup, rfl⟩ := Option.map_eq_some_iff.mp hr
    exact ⟨nofun, h.unlogged t tx hlookup⟩
  | logModify t pageId offset oldData newData =>
    cases oldData <;> cases hr <;> exact ⟨nofun, rfl⟩
  | logDelete t rowIndex bytes =>
    cases hr
    exact ⟨nofun, rfl⟩

/-- A state with the same log, later numbers and transactions that logged no more is clean too. -/
theorem Clean.of_same {m m' : TransactionManager (Recorded ω)} (h : Clean m)
    (hlog : m'.log = m.log) (hnext : m.nextTransactionId ≤ m'.nextTransactionId)
    (hactive : ∀ t tx, m'.activeTransactions.lookup t = some tx → tx.lastLsn = none) : Clean m' where
  onlyBegins := hlog ▸ h.onlyBegins
  links := hlog ▸ h.links
  ids := hlog ▸ h.ids
  below := fun r hr => UInt64.lt_of_lt_of_le (h.below r (hlog ▸ hr)) hnext
  unlogged := hactive

/-- A begin with the next number may be logged. -/
theorem Clean.append_begin {m m' : TransactionManager (Recorded ω)} (h : Clean m) {lsn : LSN}
    (hlog : m'.log = m.log ++ [WALManager.stamp lsn (.begin m.nextTransactionId 0)])
    (hnext : m.nextTransactionId < m'.nextTransactionId)
    (hactive : ∀ t tx, m'.activeTransactions.lookup t = some tx → tx.lastLsn = none) : Clean m' where
  onlyBegins := by
    rw [hlog]
    apply List.forall_mem_append.mpr ⟨h.onlyBegins, ?_⟩
    exact List.forall_mem_singleton.mpr rfl
  links := by
    rw [hlog]
    apply List.forall_mem_append.mpr ⟨h.links, ?_⟩
    exact List.forall_mem_singleton.mpr rfl
  ids := by
    rw [hlog, List.map_append, List.pairwise_append]
    refine ⟨h.ids, List.pairwise_singleton _ _, fun x hx y hy => ?_⟩
    obtain ⟨r, hr, rfl⟩ := List.mem_map.mp hx
    obtain rfl := List.mem_singleton.mp hy
    exact h.below r hr
  below := by
    rw [hlog]
    apply List.forall_mem_append.mpr ⟨fun r hr => UInt64.lt_trans (h.below r hr) hnext, ?_⟩
    exact List.forall_mem_singleton.mpr hnext
  unlogged := hactive

theorem Clean.removed {m m' : TransactionManager (Recorded ω)} (h : Clean m) {t : TransactionId}
    (hsame : SameButWal (removed t m) m') (hlog : m'.log = m.log) : Clean m' := by
  refine h.of_same hlog (by rw [hsame.next]; exact UInt64.le_refl _) fun x tx hx => ?_
  rw [hsame.active] at hx
  refine h.unlogged x tx ?_
  by_cases hxt : x = t
  · rw [hxt, TransactionManager.removed, AList.lookup_erase] at hx
    cases hx
  · rwa [TransactionManager.removed, AList.lookup_erase_ne hxt] at hx

theorem Clean.update_ok {m : TransactionManager (Recorded ω)} (h : Clean m) (t : TransactionId)
    {f : Transaction → Transaction} (hf : ∀ tx, (f tx).lastLsn = tx.lastLsn) :
    ∃ m', updateActive t f m = .ok () m' ∧ m'.wal = m.wal ∧ Clean m' := by
  obtain ⟨m', hrun, hwal, hnext, hactive⟩ := updateActive_ok t f m
  refine ⟨m', hrun, hwal, h.of_same (by rw [log, log, hwal]) (hnext ▸ UInt64.le_refl _) ?_⟩
  intro x tx' hx
  rcases hactive x tx' hx with hsame | ⟨tx, hold, rfl⟩
  · exact h.unlogged x tx' hsame
  · rw [hf]
    exact h.unlogged x tx hold

/-- A new transaction manager on a journal, with nothing recorded yet. -/
def onJournal (journal : ω) : TransactionManager (Recorded ω) := new (some ⟨journal, []⟩)

theorem clean_onJournal (journal : ω) : Clean (onJournal journal) where
  onlyBegins := List.forall_mem_nil _
  links := List.forall_mem_nil _
  ids := List.Pairwise.nil
  below := List.forall_mem_nil _
  unlogged := nofun

/-! ## What holds of the log -/

section LogHolds

variable {P : ω → Prop}

/-- There is a journal, and `P` holds of it. -/
def LogHolds (P : ω → Prop) (m : TransactionManager ω) : Prop := ∃ w, m.wal = some w ∧ P w

/-- The log goes on after the records `l`. -/
def Extends (l : List WALRecord) : TransactionManager (Recorded ω) → Prop :=
  LogHolds fun w => l <+: w.log

theorem Extends.log {l : List WALRecord} {m : TransactionManager (Recorded ω)} (h : Extends l m) :
    l <+: m.log := by
  obtain ⟨w, hwal, hinit⟩ := h
  rwa [TransactionManager.log, hwal]

theorem spec_onWal {α : Type} {act : EStateM Failure ω α} {m : TransactionManager ω} {w : ω}
    (hwal : m.wal = some w) (hact : Spec act w (fun _ => P) (fun _ => P)) :
    Spec (onWal act) m (fun _ => LogHolds P) (fun _ => LogHolds P) := by
  unfold Spec at hact ⊢
  rw [onWal, hwal]
  dsimp only
  cases hrun : act w with
  | ok a w' =>
    rw [hrun] at hact
    exact ⟨w', rfl, hact⟩
  | error e w' =>
    rw [hrun] at hact
    exact ⟨w', rfl, hact⟩

theorem keepsLog_onWal {α : Type} {act : EStateM Failure ω α} (hact : Keeps P act) :
    Keeps (LogHolds P) (onWal act) := by
  rintro m ⟨w, hwal, hw⟩
  exact spec_onWal hwal (hact w hw)

theorem keepsLog_lift {α : Type} (r : Result α) : Keeps (LogHolds P) (lift r) := by
  intro m h
  unfold Spec lift
  cases r <;> exact h

theorem keepsLog_onMvcc {α : Type} (act : MVCCManager → α × MVCCManager) :
    Keeps (LogHolds P) (onMvcc act) := fun _ h => h

theorem keepsLog_modify {f : TransactionManager ω → TransactionManager ω}
    (hf : ∀ m, (f m).wal = m.wal) : Keeps (LogHolds P) (modify f : Call ω PUnit) := by
  refine Keeps.modify fun m h => ?_
  rwa [LogHolds, hf]

theorem keepsLog_updateActive (t : TransactionId) (f : Transaction → Transaction) :
    Keeps (LogHolds P) (updateActive t f) := by
  apply keepsLog_modify
  intro m
  cases m.activeTransactions.lookup t <;> rfl

variable [Journal ω]

theorem keepsLog_commitPhase2 (happend : ∀ r, Keeps P (Journal.appendAndFlush (ω := ω) r))
    (t : TransactionId) (ts : ℕ) (commitLsn : Option LSN) :
    Keeps (LogHolds P) (commitPhase2 t ts commitLsn) := by
  refine (keepsLog_onMvcc _).bind fun _ => ?_
  split
  · exact Keeps.pure ()
  · exact (Keeps.require _ _).bind fun _ => (keepsLog_onWal (happend _)).bind fun _ => Keeps.pure _

/-- What appends and flushes keep, every call on the transaction manager keeps. -/
theorem keepsLog_txStep (happend : ∀ r, Keeps P (Journal.appendRecord (ω := ω) r))
    (hflush : Keeps P (Journal.flushBuffer (ω := ω))) (op : TxOp) :
    Keeps (LogHolds P) (txStep op) := by
  have happendAndFlush : ∀ r, Keeps P (Journal.appendAndFlush (ω := ω) r) := fun r =>
    (happend r).bind fun _ => hflush.bind fun _ => Keeps.pure _
  have hlog : ∀ t r, Keeps (LogHolds P) (logRecord t r) := by
    intro t r
    refine (keepsLog_onWal (happend r)).bind fun lsn => ?_
    cases lsn with
    | none => exact Keeps.pure ()
    | some lsn => exact keepsLog_updateActive t _
  cases op with
  | begin isolationLevel =>
    refine Keeps.bind (Keeps.get_bind fun m₀ => (Keeps.require _ _).bind fun _ => ?_)
      fun _ => Keeps.pure _
    refine Keeps.bind (keepsLog_modify fun _ => rfl) fun _ => (keepsLog_onMvcc _).bind fun _ => ?_
    refine (keepsLog_onMvcc _).bind fun _ => Keeps.bind (keepsLog_modify fun _ => rfl) fun _ => ?_
    exact (keepsLog_onWal (happend _)).bind fun _ => Keeps.pure _
  | commit t =>
    refine Keeps.get_bind fun m₀ => ?_
    split
    · exact Keeps.throw _
    · refine Keeps.bind (keepsLog_modify fun _ => rfl) fun _ => (keepsLog_lift _).bind fun s => ?_
      exact (keepsLog_onWal (happendAndFlush _)).bind (keepsLog_commitPhase2 happendAndFlush _ _)
  | rollback t =>
    refine Keeps.get_bind fun m₀ => ?_
    split
    · exact Keeps.throw _
    · refine Keeps.bind (keepsLog_modify fun _ => rfl) fun _ => (keepsLog_lift _).bind fun s => ?_
      exact (keepsLog_onWal (happendAndFlush _)).bind fun _ => keepsLog_onMvcc _
  | logModify t pageId offset oldData newData =>
    cases oldData with
    | none => exact hlog t _
    | some old => exact (keepsLog_updateActive t _).bind fun _ => hlog t _
  | logDelete t rowIndex bytes => exact (keepsLog_updateActive t _).bind fun _ => hlog t _

end LogHolds

section Calls

variable [Journal ω]

/-- The call gets a record other than a begin into the log. -/
def Logs (m : TransactionManager ω) (op : TxOp) : Prop :=
  ∃ r ∈ firstRecord m op, LogTakes (Journal.appendRecord r) m

/-! ## One call -/

theorem keepsPrefix_append (l : List WALRecord) (r : WALRecord) :
    Keeps (fun w : Recorded ω => l <+: w.log) (Journal.appendRecord r) := by
  intro w h
  unfold Spec
  cases hrun : Journal.appendRecord r w with
  | ok lsn w' =>
    dsimp only
    rw [(Recorded.append_eq_ok hrun).1]
    apply h.trans (List.prefix_append _ _)
  | error e w' =>
    dsimp only
    rwa [(Recorded.append_eq_error hrun).1]

theorem keepsPrefix_flush (l : List WALRecord) :
    Keeps (fun w : Recorded ω => l <+: w.log) Journal.flushBuffer := by
  intro w h
  have hlog := Recorded.log_flush w
  unfold Spec
  rw [final] at hlog
  cases hrun : Journal.flushBuffer w <;> rw [hrun] at hlog <;> dsimp only at hlog ⊢ <;> rwa [hlog]

/-- No call takes records out of the log. -/
theorem keepsExtends_txStep (l : List WALRecord) (op : TxOp) :
    Keeps (Extends (ω := ω) l) (txStep op) :=
  keepsLog_txStep (keepsPrefix_append l) (keepsPrefix_flush l) op

/-- A record that the log takes stays in it, whatever the rest of the log call does. -/
theorem spec_of_takes {α : Type} {m : TransactionManager (Recorded ω)} (hm : Extends m.log m)
    {r : WALRecord} {g : LSN → EStateM Failure (Recorded ω) α}
    (hg : ∀ l lsn, Keeps (fun w : Recorded ω => l <+: w.log) (g lsn))
    (htakes : LogTakes (Journal.appendRecord r) m) :
    ∃ lsn, Spec (onWal (Journal.appendRecord r >>= g)) m
      (fun _ => Extends (m.log ++ [WALManager.stamp lsn r]))
      (fun _ => Extends (m.log ++ [WALManager.stamp lsn r])) := by
  obtain ⟨w, hwal, -⟩ := hm
  obtain ⟨lsn, w', hrun⟩ := htakes w hwal
  have hlog : w'.log = m.log ++ [WALManager.stamp lsn r] := by
    rw [(Recorded.append_eq_ok hrun).1, log, hwal]
    rfl
  refine ⟨lsn, spec_onWal hwal ?_⟩
  have hspec := hg (m.log ++ [WALManager.stamp lsn r]) lsn w' (hlog ▸ List.prefix_rfl)
  unfold Spec at hspec ⊢
  rwa [bind_of_ok hrun]

/-- A record that the log does not take leaves everything but the inside of the log as it is. -/
theorem onWal_of_refused {α : Type} {m : TransactionManager (Recorded ω)} {r : WALRecord}
    (h : ¬ LogTakes (Journal.appendRecord r) m) (g : LSN → EStateM Failure (Recorded ω) α) :
    ∃ e m', onWal (Journal.appendRecord r >>= g) m = .error e m' ∧ SameButWal m m' ∧
      m'.log = m.log := by
  unfold LogTakes at h
  push Not at h
  obtain ⟨w, hwal, hfail⟩ := h
  cases hrun : Journal.appendRecord r w with
  | ok lsn w' => exact absurd hrun (hfail lsn w')
  | error e w' =>
    refine ⟨e, { m with wal := some w' }, ?_, ⟨rfl, rfl, rfl⟩, ?_⟩
    · simp only [onWal, Option.mem_def.mp hwal, bind_of_error hrun]
    · rw [log, log, Option.mem_def.mp hwal]
      exact (Recorded.append_eq_error hrun).1

theorem extends_logRecord {m : TransactionManager (Recorded ω)} (hlog : Extends m.log m)
    (t : TransactionId) {r : WALRecord} (htakes : LogTakes (Journal.appendRecord r) m) :
    ∃ lsn, m.log ++ [WALManager.stamp lsn r] <+: (final (logRecord t r) m).log := by
  obtain ⟨lsn, hspec⟩ := spec_of_takes hlog (g := pure) (fun _ _ => Keeps.pure _) htakes
  rw [bind_pure] at hspec
  refine ⟨lsn, Extends.log ?_⟩
  refine Spec.final (I := Extends _) (hspec.bind fun lsn m' h => ?_)
  cases lsn with
  | none => exact Spec.pure h
  | some lsn => exact keepsLog_updateActive t _ m' h

theorem extends_update_logRecord {m : TransactionManager (Recorded ω)} (hlog : Extends m.log m)
    (t : TransactionId) (f : Transaction → Transaction) {r : WALRecord}
    (htakes : LogTakes (Journal.appendRecord r) m) :
    ∃ lsn, m.log ++ [WALManager.stamp lsn r] <+: (final (do
      updateActive t f
      logRecord t r) m).log := by
  obtain ⟨m', hrun, hwal, -⟩ := updateActive_ok t f m
  have hsame : m'.log = m.log := by rw [log, log, hwal]
  rw [final_bind_of_ok hrun, ← hsame]
  apply extends_logRecord
  · rwa [hsame, Extends, LogHolds, hwal]
  · rwa [LogTakes, hwal]

/-- A call that logs a record keeps it. -/
theorem extends_of_logs {m : TransactionManager (Recorded ω)} (hm : Ahead m)
    (hlog : Extends m.log m) {op : TxOp} {r : WALRecord} (hr : r ∈ firstRecord m op)
    (htakes : LogTakes (Journal.appendRecord r) m) :
    ∃ lsn, m.log ++ [WALManager.stamp lsn r] <+: (final (txStep op) m).log := by
  have hflush : ∀ l (lsn : LSN), Keeps (fun w : Recorded ω => l <+: w.log) (do
      Journal.flushBuffer
      pure lsn) := fun l lsn => (keepsPrefix_flush l).bind fun _ => Keeps.pure _
  cases op with
  | begin isolationLevel => cases hr
  | commit t =>
    obtain ⟨tx, hlookup, rfl⟩ := Option.map_eq_some_iff.mp hr
    obtain ⟨s, hs, -⟩ := hm.active t tx hlookup
    obtain ⟨lsn, hspec⟩ := spec_of_takes (m := removed t m) hlog hflush htakes
    refine ⟨lsn, Extends.log ?_⟩
    rw [txStep, final, commitTransaction_of_some hlookup hs, ← final]
    refine Spec.final (I := Extends _) (hspec.bind fun _ m' h => ?_)
    exact keepsLog_commitPhase2 (fun r => (keepsPrefix_append _ r).bind (hflush _)) _ _ _ m' h
  | rollback t =>
    obtain ⟨tx, hlookup, rfl⟩ := Option.map_eq_some_iff.mp hr
    obtain ⟨s, hs, -⟩ := hm.active t tx hlookup
    obtain ⟨lsn, hspec⟩ := spec_of_takes (m := removed t m) hlog hflush htakes
    refine ⟨lsn, Extends.log ?_⟩
    rw [txStep, final, rollbackTransaction_of_some hlookup hs, ← final]
    exact Spec.final (I := Extends _) (hspec.bind fun _ m' h => keepsLog_onMvcc _ m' h)
  | logModify t pageId offset oldData newData =>
    cases oldData with
    | none =>
      cases hr
      exact extends_logRecord hlog t htakes
    | some old =>
      cases hr
      exact extends_update_logRecord hlog t _ htakes
  | logDelete t rowIndex bytes =>
    cases hr
    exact extends_update_logRecord hlog t _ htakes

/-- The first record that is not a begin breaks the chains for good. -/
theorem Clean.unlinkedStart_of_logs {m : TransactionManager (Recorded ω)} (h : Clean m)
    (hm : Ahead m) (hlog : Extends m.log m) {op : TxOp} (hlogs : Logs m op) :
    UnlinkedStart (final (txStep op) m).log := by
  obtain ⟨r, hr, htakes⟩ := hlogs
  obtain ⟨lsn, hinit⟩ := extends_of_logs hm hlog hr htakes
  obtain ⟨htype, hlink⟩ := h.firstRecord_unlinked hr
  exact UnlinkedStart.mono ⟨m.log, WALManager.stamp lsn r, [], rfl, h.onlyBegins, htype, hlink⟩
    hinit

theorem Clean.logRecord_refused {m : TransactionManager (Recorded ω)} (h : Clean m)
    (t : TransactionId) {r : WALRecord} (hrefused : ¬ LogTakes (Journal.appendRecord r) m) :
    Clean (final (logRecord t r) m) := by
  obtain ⟨e, m', hrun, hsame, hlog⟩ := onWal_of_refused hrefused pure
  rw [bind_pure] at hrun
  rw [logRecord, final_bind_of_error hrun]
  refine h.of_same hlog (hsame.next ▸ UInt64.le_refl _) ?_
  rw [hsame.active]
  exact h.unlogged

theorem Clean.update_logRecord_refused {m : TransactionManager (Recorded ω)} (h : Clean m)
    (t : TransactionId) {f : Transaction → Transaction} (hf : ∀ tx, (f tx).lastLsn = tx.lastLsn)
    {r : WALRecord} (hrefused : ¬ LogTakes (Journal.appendRecord r) m) :
    Clean (final (do
      updateActive t f
      logRecord t r) m) := by
  obtain ⟨m', hrun, hwal, hclean⟩ := h.update_ok t hf
  rw [final_bind_of_ok hrun]
  apply hclean.logRecord_refused
  rwa [LogTakes, hwal]

theorem log_begin {m : TransactionManager (Recorded ω)} (hm : Extends m.log m)
    (isolationLevel : IsolationLevel) (hfits : m.nextTransactionId.toNat + 1 < 2 ^ 64) :
    (final (beginTransaction isolationLevel) m).log = m.log ∨
      ∃ lsn, (final (beginTransaction isolationLevel) m).log =
        m.log ++ [WALManager.stamp lsn (.begin m.nextTransactionId 0)] := by
  obtain ⟨w, hwal, -⟩ := hm
  have hw : m.log = w.log := by
    rw [log, hwal]
    rfl
  set P : Recorded ω → Prop := fun w' => w'.log = m.log ∨
    ∃ lsn, w'.log = m.log ++ [WALManager.stamp lsn (.begin m.nextTransactionId 0)]
  have happend : Spec (Journal.appendRecord (.begin m.nextTransactionId 0)) w
      (fun _ => P) (fun _ => P) := by
    unfold Spec
    cases hrun : Journal.appendRecord (.begin m.nextTransactionId 0) w with
    | ok lsn w' => exact .inr ⟨lsn, hw ▸ (Recorded.append_eq_ok hrun).1⟩
    | error e w' => exact .inl (hw ▸ (Recorded.append_eq_error hrun).1)
  rw [final, beginTransaction_of_fits isolationLevel hfits, ← final]
  have hspec := spec_onWal (m := registered isolationLevel m) hwal happend
  obtain ⟨w', hwal', hP⟩ := Spec.final (I := LogHolds P) (hspec.bind fun _ _ h => Spec.pure h)
  rw [log.eq_def (final _ _), hwal']
  exact hP

/-- A begin adds at most a record of its own, with the next number. -/
theorem Clean.begin {m : TransactionManager (Recorded ω)} (h : Clean m) (hm : Extends m.log m)
    (isolationLevel : IsolationLevel) : Clean (final (beginTransaction isolationLevel) m) := by
  by_cases hfits : m.nextTransactionId.toNat + 1 < 2 ^ 64
  · have hlt : m.nextTransactionId < m.nextTransactionId + 1 := by
      rw [UInt64.lt_iff_toNat_lt, UInt64.toNat_add]
      exact (Nat.lt_succ_self _).trans_eq (Nat.mod_eq_of_lt hfits).symm
    have hsame := final_begin isolationLevel hfits
    set m' := final (beginTransaction isolationLevel) m
    have hnext : m'.nextTransactionId = m.nextTransactionId + 1 := hsame.next
    have hactive : ∀ t tx, m'.activeTransactions.lookup t = some tx → tx.lastLsn = none := by
      intro t tx ht
      rw [hsame.active, registered, HashMap.lookup_insert_eq] at ht
      split at ht
      · cases ht
        rfl
      · exact h.unlogged t tx ht
    rcases log_begin hm isolationLevel hfits with hlog | ⟨lsn, hlog⟩
    · exact h.of_same hlog (hnext ▸ UInt64.le_of_lt hlt) hactive
    · exact h.append_begin hlog (hnext ▸ hlt) hactive
  · rwa [final, beginTransaction_of_not_fits isolationLevel hfits]

theorem Clean.end_refused {m : TransactionManager (Recorded ω)} (h : Clean m) (t : TransactionId)
    {r : WALRecord} (hrefused : ¬ LogTakes (Journal.appendRecord r) m)
    (rest : Option LSN → Call (Recorded ω) Unit) :
    Clean (final (onWal (Journal.appendAndFlush r) >>= rest) (TransactionManager.removed t m)) := by
  obtain ⟨e, m', hrun, hsame, hlog⟩ := onWal_of_refused (m := TransactionManager.removed t m)
    hrefused fun lsn => do
      Journal.flushBuffer
      pure lsn
  have hfinal := final_bind_of_error (f := rest) hrun
  rw [Journal.appendAndFlush, hfinal]
  exact h.removed hsame hlog

/-- A call that logs nothing but begins leaves a clean state. -/
theorem Clean.step {m : TransactionManager (Recorded ω)} (h : Clean m) (hm : Ahead m)
    (hlog : Extends m.log m) {op : TxOp} (hlogs : ¬ Logs m op) : Clean (final (txStep op) m) := by
  have hrefused : ∀ r ∈ firstRecord m op, ¬ LogTakes (Journal.appendRecord r) m :=
    fun r hr htakes => hlogs ⟨r, hr, htakes⟩
  cases op with
  | begin isolationLevel =>
    rw [txStep, final_discard]
    exact h.begin hlog isolationLevel
  | commit t =>
    cases hlookup : m.activeTransactions.lookup t with
    | none => rwa [txStep, final, commitTransaction_of_none hlookup]
    | some tx =>
      obtain ⟨s, hs, -⟩ := hm.active t tx hlookup
      have hnot := hrefused _ (Option.map_eq_some_iff.mpr ⟨tx, hlookup, rfl⟩)
      rw [txStep, final, commitTransaction_of_some hlookup hs, ← final]
      exact h.end_refused t hnot _
  | rollback t =>
    cases hlookup : m.activeTransactions.lookup t with
    | none => rwa [txStep, final, rollbackTransaction_of_none hlookup]
    | some tx =>
      obtain ⟨s, hs, -⟩ := hm.active t tx hlookup
      have hnot := hrefused _ (Option.map_eq_some_iff.mpr ⟨tx, hlookup, rfl⟩)
      rw [txStep, final, rollbackTransaction_of_some hlookup hs, ← final]
      exact h.end_refused t hnot _
  | logModify t pageId offset oldData newData =>
    cases oldData with
    | none => exact h.logRecord_refused t (hrefused _ rfl)
    | some old =>
      exact h.update_logRecord_refused t (f := Transaction.addModifiedPage pageId old)
        (fun _ => rfl) (hrefused _ rfl)
  | logDelete t rowIndex bytes =>
    exact h.update_logRecord_refused t (f := Transaction.addModifiedPage rowIndex bytes)
      (fun _ => rfl) (hrefused _ rfl)

/-! ## Runs -/

theorem run_append_tx (m : TransactionManager ω) (ops : List TxOp) (op : TxOp) :
    m.run ((ops ++ [op]).map .tx) = final (txStep op) (m.run (ops.map .tx)) := by
  rw [List.map_append, run, List.foldl_append]
  rfl

theorem extends_run (journal : ω) (ops : List TxOp) :
    Extends ((onJournal journal).run (ops.map .tx)).log ((onJournal journal).run (ops.map .tx)) := by
  have hlog : Extends [] ((onJournal journal).run (ops.map .tx)) := by
    induction ops using List.reverseRecOn with
    | nil => exact ⟨_, rfl, List.nil_prefix⟩
    | append_singleton ops op ih =>
      rw [run_append_tx]
      exact (keepsExtends_txStep [] op).final ih
  obtain ⟨w, hwal, -⟩ := hlog
  refine ⟨w, hwal, ?_⟩
  rw [log, hwal]
  exact List.prefix_rfl

/-- As long as nothing but begins is logged the state is clean. -/
theorem clean_run (journal : ω) (ops : List TxOp)
    (h : ∀ pre op post, ops = pre ++ op :: post →
      ¬ Logs ((onJournal journal).run (pre.map .tx)) op) :
    Clean ((onJournal journal).run (ops.map .tx)) := by
  induction ops using List.reverseRecOn with
  | nil => exact clean_onJournal journal
  | append_singleton ops op ih =>
    rw [run_append_tx]
    obtain ⟨hbefore, hlast⟩ := forall_split_append_singleton.mp h
    exact (ih hbefore).step (ahead_run _ (ahead_new _)) (extends_run journal ops) hlast

/-- Afterwards the chains are broken. -/
theorem unlinkedStart_run (journal : ω) (ops : List TxOp)
    (h : ¬ ∀ pre op post, ops = pre ++ op :: post →
      ¬ Logs ((onJournal journal).run (pre.map .tx)) op) :
    UnlinkedStart ((onJournal journal).run (ops.map .tx)).log := by
  induction ops using List.reverseRecOn with
  | nil => exact absurd (by simp) h
  | append_singleton ops op ih =>
    rw [run_append_tx]
    by_cases hbefore : ∀ pre op' post, ops = pre ++ op' :: post →
        ¬ Logs ((onJournal journal).run (pre.map .tx)) op'
    · refine (clean_run journal ops hbefore).unlinkedStart_of_logs (ahead_run _ (ahead_new _))
        (extends_run journal ops) ?_
      by_contra hlast
      exact h (forall_split_append_singleton.mpr ⟨hbefore, hlast⟩)
    · have hinit := (keepsExtends_txStep _ op).final (extends_run journal ops)
      exact (ih hbefore).mono hinit.log

/-- The log of a run holds undo chains exactly when no call has logged anything but a begin. -/
theorem undoChains_iff (journal : ω) (ops : List TxOp) :
    UndoChains ((onJournal journal).run (ops.map .tx)).log ↔
      ∀ pre op post, ops = pre ++ op :: post →
        ¬ Logs ((onJournal journal).run (pre.map .tx)) op := by
  constructor
  · intro hchains
    by_contra hlogs
    exact not_undoChains_of_unlinkedStart (unlinkedStart_run journal ops hlogs) hchains
  · exact fun h => (clean_run journal ops h).undoChains

/-- Transaction 1 begins and logs a modification: its record has no link to the begin. -/
theorem undoChains_broken :
    ¬ UndoChains ((onJournal (WALManager.created 8192)).run
      ([.begin .readCommitted, .logModify 1 5 0 none [7]].map .tx)).log := by
  apply not_undoChains_of_unlinkedStart
  refine ⟨[_], _, [], rfl, ?_, nofun, rfl⟩
  exact List.forall_mem_singleton.mpr rfl

end Calls

/-! ## The records are only observed -/

/-- The transaction manager without the list of records. -/
def forget (m : TransactionManager (Recorded ω)) : TransactionManager ω :=
  { m with wal := m.wal.map Recorded.journal }

theorem commutes_onWal {α : Type} {act : EStateM Failure (Recorded ω) α}
    {act' : EStateM Failure ω α} (h : Commutes Recorded.journal act act') :
    Commutes forget (onWal act) (onWal act') := by
  rintro ⟨next, active, wal, mvcc⟩
  cases wal with
  | none => rfl
  | some w =>
    have hrun := h w
    simp only [onWal, forget, Option.map_some]
    cases hact : act w <;> rw [hact] at hrun <;> rw [hrun] <;> rfl

theorem commutes_lift {α : Type} (r : Result α) :
    Commutes (forget (ω := ω)) (lift r) (lift r) := by
  intro m
  unfold lift
  cases r <;> rfl

theorem commutes_onMvcc {α : Type} (act : MVCCManager → α × MVCCManager) :
    Commutes (forget (ω := ω)) (onMvcc act) (onMvcc act) := fun _ => rfl

theorem commutes_updateActive (t : TransactionId) (f : Transaction → Transaction) :
    Commutes (forget (ω := ω)) (updateActive t f) (updateActive t f) := by
  refine Commutes.modify fun m => ?_
  simp only [forget]
  cases m.activeTransactions.lookup t <;> rfl

variable [Journal ω]

theorem commutes_appendAndFlush (r : WALRecord) :
    Commutes Recorded.journal (Journal.appendAndFlush (ω := Recorded ω) r)
      (Journal.appendAndFlush r) :=
  (Recorded.commutes_append r).bind fun _ => Recorded.commutes_flush.bind fun _ => Commutes.pure _

theorem commutes_logRecord (t : TransactionId) (r : WALRecord) :
    Commutes (forget (ω := ω)) (logRecord t r) (logRecord t r) := by
  refine (commutes_onWal (Recorded.commutes_append r)).bind fun lsn => ?_
  cases lsn with
  | none => exact Commutes.pure ()
  | some lsn => exact commutes_updateActive t _

/-- A transaction manager on a recorded journal does what it does on the journal. -/
theorem commutes_txStep (op : TxOp) : Commutes (forget (ω := ω)) (txStep op) (txStep op) := by
  cases op with
  | begin isolationLevel =>
    refine Commutes.bind (Commutes.get_bind fun m => (Commutes.require _ _).bind fun _ => ?_)
      fun _ => Commutes.pure _
    refine Commutes.bind (Commutes.modify fun _ => rfl) fun _ => (commutes_onMvcc _).bind fun _ => ?_
    refine (commutes_onMvcc _).bind fun _ => Commutes.bind (Commutes.modify fun _ => rfl) fun _ => ?_
    exact (commutes_onWal (Recorded.commutes_append _)).bind fun _ => Commutes.pure _
  | commit t =>
    refine Commutes.get_bind fun m => ?_
    dsimp only [forget]
    cases m.activeTransactions.lookup t with
    | none => exact Commutes.throw _
    | some tx =>
      refine Commutes.bind (Commutes.modify fun _ => rfl) fun _ => (commutes_lift _).bind fun s => ?_
      refine (commutes_onWal (commutes_appendAndFlush _)).bind fun commitLsn => ?_
      refine (commutes_onMvcc _).bind fun _ => ?_
      cases commitLsn with
      | none => exact Commutes.pure ()
      | some lsn => exact (Commutes.require _ _).bind fun _ =>
          (commutes_onWal (commutes_appendAndFlush _)).bind fun _ => Commutes.pure _
  | rollback t =>
    refine Commutes.get_bind fun m => ?_
    dsimp only [forget]
    cases m.activeTransactions.lookup t with
    | none => exact Commutes.throw _
    | some tx =>
      refine Commutes.bind (Commutes.modify fun _ => rfl) fun _ => (commutes_lift _).bind fun s => ?_
      exact (commutes_onWal (commutes_appendAndFlush _)).bind fun _ => commutes_onMvcc _
  | logModify t pageId offset oldData newData =>
    cases oldData with
    | none => exact commutes_logRecord t _
    | some old => exact (commutes_updateActive t _).bind fun _ => commutes_logRecord t _
  | logDelete t rowIndex bytes =>
    exact (commutes_updateActive t _).bind fun _ => commutes_logRecord t _

theorem forget_run (ops : List TxOp) (m : TransactionManager (Recorded ω)) :
    forget (m.run (ops.map .tx)) = (forget m).run (ops.map .tx) := by
  induction ops using List.reverseRecOn with
  | nil => rfl
  | append_singleton ops op ih =>
    rw [run_append_tx, run_append_tx, ← ih, (commutes_txStep op).final]

end TransactionManager

end Rustgresql
