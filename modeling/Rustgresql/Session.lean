import Rustgresql.Transaction.ActiveSets

/-!
# The session loop (`main.rs`)

A session remembers the number of its open transaction. `execute` runs one statement; the statements
of one query are run in order until one fails, and the loop goes on with the next query.

The session and the transaction manager agree if the number is that of the one active transaction.
A begin registers its transaction before it is logged, and a commit or a rollback removes it before,
so each of these makes them disagree as soon as the log refuses one of its records
(`session_agree_iff`).
-/

namespace Rustgresql

open StateSpec TransactionManager

/-- SQL statements, as far as the session loop tells them apart. Of another statement counts what it
does with the transaction manager: it logs the rows that it deletes, and ends in some way. -/
inductive Statement
  | beginTransaction
  | commitTransaction
  | rollbackTransaction
  | other (deletes : List (UInt64 × List UInt8)) (outcome : Result Unit)

/-- A session: the transaction manager and the number of the open transaction. -/
structure Session (ω : Type) where
  tm : TransactionManager ω
  currentTxId : Option TransactionId

namespace Session

variable {ω : Type}

/-- A computation of a session. -/
abbrev Run (ω : Type) := EStateM Failure (Session ω)

/-- Run a call on the transaction manager. -/
def onTm {α : Type} (act : Call ω α) : Run ω α := fun s =>
  match act s.tm with
  | .ok a tm => .ok a { s with tm }
  | .error e tm => .error e { s with tm }

theorem onTm_of_ok {α : Type} {act : Call ω α} {s : Session ω} {a : α}
    {tm : TransactionManager ω} (h : act s.tm = .ok a tm) : onTm act s = .ok a { s with tm } := by
  rw [onTm, h]

theorem onTm_of_error {α : Type} {act : Call ω α} {s : Session ω} {e : Failure}
    {tm : TransactionManager ω} (h : act s.tm = .error e tm) :
    onTm act s = .error e { s with tm } := by
  rw [onTm, h]

/-- The session at the start, with a new transaction manager. -/
def start (wal : Option ω) : Session ω := ⟨.new wal, none⟩

/-- The session and its transaction manager agree on what is open. -/
def Agree (s : Session ω) : Prop :=
  ∀ t, s.currentTxId = some t ↔ t ∈ s.tm.activeTransactions

/-- The session after a call that begins or ends a transaction and, if it returns, a change of the
open number. -/
theorem final_onTm_bind {α : Type} (act : Call ω α) (f : α → Session ω → Session ω) (s : Session ω) :
    final (do
      let a ← onTm act
      modify (f a)) s = match act s.tm with
        | .ok a tm => f a { s with tm }
        | .error _ tm => { s with tm } := by
  cases hact : act s.tm with
  | ok a tm =>
    rw [final_bind_of_ok (onTm_of_ok hact)]
    rfl
  | error e tm => rw [final_bind_of_error (onTm_of_error hact)]

theorem onWal_of_ok {α : Type} {act : EStateM Failure ω α} {m : TransactionManager ω} {w w' : ω}
    {a : α} (hwal : m.wal = some w) (h : act w = .ok a w') :
    onWal act m = .ok (some a) { m with wal := some w' } := by
  simp only [onWal, hwal, h]

theorem onWal_of_error {α : Type} {act : EStateM Failure ω α} {m : TransactionManager ω}
    {w w' : ω} {e : Failure} (hwal : m.wal = some w) (h : act w = .error e w') :
    onWal act m = .error e { m with wal := some w' } := by
  simp only [onWal, hwal, h]

/-- Ending the open transaction, in a call that drops it in any case, keeps the session and the
manager in agreement exactly when the call returns. -/
theorem agree_end_iff {act : Call ω Unit} {s : Session ω} {t : TransactionId} (h : Agree s)
    (ht : s.currentTxId = some t)
    (hact : (final act s.tm).activeTransactions = s.tm.activeTransactions.erase t) :
    Agree (final (do
      onTm act
      modify fun s => { s with currentTxId := none }) s) ↔ ∃ m', act s.tm = .ok () m' := by
  rw [final_onTm_bind]
  rw [final] at hact
  cases hrun : act s.tm with
  | ok a m' =>
    rw [hrun] at hact
    refine iff_of_true (fun x => ?_) ⟨m', rfl⟩
    show none = some x ↔ x ∈ m'.activeTransactions
    rw [hact, AList.mem_erase, ← h x, ht]
    refine iff_of_false nofun ?_
    rintro ⟨hne, heq⟩
    exact hne (Option.some.inj heq).symm
  | error e m' =>
    rw [hrun] at hact
    refine iff_of_false (fun hagree => ?_) nofun
    have hmem : t ∈ m'.activeTransactions := (hagree t).mp ht
    rw [hact, AList.mem_erase] at hmem
    exact hmem.1 rfl

/-- Calls that leave the active transactions keep the session and the manager in agreement. -/
theorem Agree.of_same {s : Session ω} (h : Agree s) {tm : TransactionManager ω}
    (hsame : SameActive s.tm tm) : Agree { s with tm } :=
  fun t => (h t).trans (hsame.mem t).symm

theorem keeps_onTm {α : Type} {act : Call ω α} (hact : Keeps Ahead act) :
    Keeps (fun s : Session ω => Ahead s.tm) (onTm act) := by
  intro s h
  have hspec := hact s.tm h
  unfold Spec at hspec ⊢
  unfold onTm
  cases hrun : act s.tm <;> rwa [hrun] at hspec

theorem agree_start (wal : Option ω) : Agree (start wal) := by
  intro t
  refine iff_of_false nofun ?_
  apply AList.notMem_empty

variable [Journal ω]

/-- The log calls of a delete statement: one for each row, until one fails. -/
def logDeletes (t : TransactionId) : List (UInt64 × List UInt8) → Call ω Unit
  | [] => pure ()
  | (rowIndex, bytes) :: deletes => do
    logDelete t rowIndex bytes
    logDeletes t deletes

/-- One round of the loop of `execute_sql`. -/
def execute : Statement → Run ω Unit
  | .beginTransaction => do
    match (← get).currentTxId with
    | some _ => pure () -- only a warning
    | none =>
      let txId ← onTm (TransactionManager.beginTransaction .readCommitted)
      modify fun s => { s with currentTxId := some txId }
  | .commitTransaction => do
    match (← get).currentTxId with
    | some txId =>
      onTm (TransactionManager.commitTransaction txId)
      modify fun s => { s with currentTxId := none }
    | none => pure () -- only a warning
  | .rollbackTransaction => do
    match (← get).currentTxId with
    | some txId =>
      onTm (TransactionManager.rollbackTransaction txId)
      modify fun s => { s with currentTxId := none }
    | none => pure () -- only a warning
  | .other deletes outcome => do
    match (← get).currentTxId with
    | some txId => onTm (logDeletes txId deletes)
    | none => pure ()
    onTm (lift outcome)

/-- `execute_sql` on the statements of a query. -/
def executeSql : List Statement → Run ω Unit
  | [] => pure ()
  | statement :: statements => do
    execute statement
    executeSql statements

/-- The statements of a query that are run, each with the session before it. -/
def executedIn : Session ω → List Statement → List (Session ω × Statement)
  | _, [] => []
  | s, statement :: statements =>
    (s, statement) :: match execute statement s with
      | .ok _ s' => executedIn s' statements
      | .error _ _ => []

/-- The statements that the session loop runs, each with the session before it. -/
def executed : Session ω → List (List Statement) → List (Session ω × Statement)
  | _, [] => []
  | s, query :: queries => executedIn s query ++ executed (final (executeSql query) s) queries

/-- What a commit writes to the log. -/
def logCommit (t : TransactionId) (lastLsn : Option LSN) : EStateM Failure ω Unit := do
  let lsn ← Journal.appendAndFlush (.commit t 0 lastLsn)
  require (lsn ≠ 0) (.panic "attempt to subtract with overflow")
  let _ ← Journal.appendAndFlush (.commit t lsn (some (lsn - 1)))

/-- The log takes every record that the statement writes to begin or to end a transaction. -/
def FullyLogged (s : Session ω) : Statement → Prop
  | .beginTransaction => s.currentTxId = none → s.tm.nextTransactionId.toNat + 1 < 2 ^ 64 →
      LogTakes (Journal.appendRecord (.begin s.tm.nextTransactionId 0)) s.tm
  | .commitTransaction => ∀ t ∈ s.currentTxId, ∀ tx ∈ s.tm.activeTransactions.lookup t,
      LogTakes (logCommit t tx.lastLsn) s.tm
  | .rollbackTransaction => ∀ t ∈ s.currentTxId, ∀ tx ∈ s.tm.activeTransactions.lookup t,
      LogTakes (Journal.appendAndFlush (.abort t 0 tx.lastLsn)) s.tm
  | .other _ _ => True

/-! ## Outcomes of the transaction calls -/

/-- The second phase returns exactly when its record is logged. -/
theorem commitPhase2_returns_iff {t : TransactionId} {ts : ℕ} {lsn : LSN}
    {m : TransactionManager ω} {w : ω} (h : m.wal = some w) :
    (∃ m', commitPhase2 t ts (some lsn) m = .ok () m') ↔
      ∃ w', (do
        require (lsn ≠ 0) (.panic "attempt to subtract with overflow")
        let _ ← Journal.appendAndFlush (.commit t lsn (some (lsn - 1))) :
          EStateM Failure ω Unit) w = .ok () w' := by
  set m₁ : TransactionManager ω := { m with mvcc := (m.mvcc.commitTransaction t ts).2 }
  have hmvcc : onMvcc (MVCCManager.commitTransaction t ts) m =
      .ok (m.mvcc.commitTransaction t ts).1 m₁ := rfl
  have hwal : m₁.wal = some w := h
  have hphase : commitPhase2 t ts (some lsn) m = (do
      require (lsn ≠ 0) (.panic "attempt to subtract with overflow")
      let _ ← onWal (Journal.appendAndFlush (.commit t lsn (some (lsn - 1)))) :
        Call ω Unit) m₁ := by
    unfold commitPhase2
    exact bind_of_ok hmvcc
  rw [hphase]
  by_cases hlsn : lsn ≠ 0
  · rw [bind_of_ok (require_of hlsn _ _), bind_of_ok (require_of hlsn _ _)]
    cases hact : Journal.appendAndFlush (.commit t lsn (some (lsn - 1))) w with
    | ok a w' => exact iff_of_true ⟨_, bind_of_ok (onWal_of_ok hwal hact)⟩ ⟨_, bind_of_ok hact⟩
    | error e w' =>
      rw [bind_of_error (onWal_of_error hwal hact), bind_of_error hact]
      exact iff_of_false nofun nofun
  · rw [bind_of_error (require_of_not hlsn _ _), bind_of_error (require_of_not hlsn _ _)]
    exact iff_of_false nofun nofun

/-- A commit of an active transaction returns exactly when the log takes both of its records. -/
theorem commit_returns_iff {t : TransactionId} {m : TransactionManager ω} {tx : Transaction}
    {snapshot : Snapshot} (h : m.activeTransactions.lookup t = some tx)
    (hs : tx.snapshot = some snapshot) :
    (∃ m', TransactionManager.commitTransaction t m = .ok () m') ↔
      LogTakes (logCommit t tx.lastLsn) m := by
  rw [commitTransaction_of_some h hs, LogTakes]
  cases hwal : m.wal with
  | none =>
    have hrun : onWal (Journal.appendAndFlush (.commit t 0 tx.lastLsn)) (removed t m) =
        .ok none (removed t m) := by
      simp only [onWal, removed, hwal]
    rw [bind_of_ok hrun]
    refine iff_of_true ⟨_, rfl⟩ fun w hw => ?_
    cases hw
  | some w =>
    have hremoved : (removed t m).wal = some w := hwal
    have hsome : (∀ w' ∈ some w, ∃ a w'', logCommit t tx.lastLsn w' = .ok a w'') ↔
        ∃ w'', logCommit t tx.lastLsn w = .ok () w'' := by
      constructor
      · intro h
        obtain ⟨⟨⟩, w'', hw''⟩ := h w rfl
        exact ⟨w'', hw''⟩
      · rintro ⟨w'', hw''⟩ w' ⟨⟩
        exact ⟨(), w'', hw''⟩
    rw [hsome, logCommit]
    cases hact : Journal.appendAndFlush (.commit t 0 tx.lastLsn) w with
    | ok lsn w' =>
      rw [bind_of_ok (onWal_of_ok hremoved hact), bind_of_ok hact]
      exact commitPhase2_returns_iff rfl
    | error e w' =>
      rw [bind_of_error (onWal_of_error hremoved hact), bind_of_error hact]
      refine iff_of_false ?_ ?_ <;> rintro ⟨_, hok⟩ <;> cases hok

/-- A rollback of an active transaction returns exactly when the log takes its record. -/
theorem rollback_returns_iff {t : TransactionId} {m : TransactionManager ω} {tx : Transaction}
    {snapshot : Snapshot} (h : m.activeTransactions.lookup t = some tx)
    (hs : tx.snapshot = some snapshot) :
    (∃ m', TransactionManager.rollbackTransaction t m = .ok () m') ↔
      LogTakes (Journal.appendAndFlush (.abort t 0 tx.lastLsn)) m := by
  rw [rollbackTransaction_of_some h hs]
  by_cases htakes : LogTakes (Journal.appendAndFlush (.abort t 0 tx.lastLsn)) m
  · obtain ⟨a, m', hrun, -⟩ := onWal_of_takes (m := removed t m) htakes
    exact iff_of_true ⟨_, bind_of_ok hrun⟩ htakes
  · obtain ⟨e, m', hrun, -⟩ := onWal_of_not_takes (m := removed t m) htakes
    rw [bind_of_error hrun]
    exact iff_of_false nofun htakes

/-- A begin with a number to give returns exactly when the log takes its record. -/
theorem begin_returns_iff (isolationLevel : IsolationLevel) {m : TransactionManager ω}
    (h : m.nextTransactionId.toNat + 1 < 2 ^ 64) :
    (∃ t m', TransactionManager.beginTransaction isolationLevel m = .ok t m') ↔
      LogTakes (Journal.appendRecord (.begin m.nextTransactionId 0)) m := by
  rw [beginTransaction_of_fits isolationLevel h]
  by_cases htakes : LogTakes (Journal.appendRecord (.begin m.nextTransactionId 0)) m
  · obtain ⟨a, m', hrun, -⟩ := onWal_of_takes (m := registered isolationLevel m) htakes
    exact iff_of_true ⟨_, _, bind_of_ok hrun⟩ htakes
  · obtain ⟨e, m', hrun, -⟩ := onWal_of_not_takes (m := registered isolationLevel m) htakes
    rw [bind_of_error hrun]
    exact iff_of_false nofun htakes

/-! ## One statement -/

theorem logDeletes_same (t : TransactionId) (deletes : List (UInt64 × List UInt8))
    (m : TransactionManager ω) : SameActive m (final (logDeletes t deletes) m) := by
  induction deletes generalizing m with
  | nil => exact ⟨rfl, fun _ => Iff.rfl⟩
  | cons d deletes ih =>
    have hone := logDelete_same t d.1 d.2 m
    cases hrun : logDelete t d.1 d.2 m with
    | ok a m' =>
      rw [final, hrun] at hone
      exact hone.trans ((final_bind_of_ok hrun) ▸ ih m')
    | error e m' =>
      rw [final, hrun] at hone
      exact (final_bind_of_error hrun) ▸ hone

/-- Other statements leave the active transactions. -/
theorem agree_other {s : Session ω} (h : Agree s) (deletes : List (UInt64 × List UInt8))
    (outcome : Result Unit) : Agree (final (execute (.other deletes outcome)) s) := by
  have hlift : ∀ s' : Session ω, final (onTm (lift outcome)) s' = s' := by
    intro s'
    unfold final onTm lift
    cases outcome <;> rfl
  cases ht : s.currentTxId with
  | none =>
    have hrun : execute (.other deletes outcome) s = onTm (lift outcome) s := by
      rw [execute, get_bind, ht]
    rwa [final, hrun, ← final, hlift]
  | some t =>
    have hrun : execute (.other deletes outcome) s = (do
        onTm (logDeletes t deletes)
        onTm (lift outcome) : Run ω Unit) s := by
      rw [execute, get_bind, ht]
    have hsame := logDeletes_same t deletes s.tm
    rw [final] at hsame
    rw [final, hrun, ← final]
    cases hlog : logDeletes t deletes s.tm with
    | ok a tm =>
      rw [hlog] at hsame
      rw [final_bind_of_ok (onTm_of_ok hlog), hlift]
      exact h.of_same hsame
    | error e tm =>
      rw [hlog] at hsame
      rw [final_bind_of_error (onTm_of_error hlog)]
      exact h.of_same hsame

/-- A begin that opens the first transaction keeps the agreement exactly when it is logged. -/
theorem agree_begin_iff {s : Session ω} (h : Agree s) (ht : s.currentTxId = none) :
    Agree (final (execute .beginTransaction) s) ↔ FullyLogged s .beginTransaction := by
  have hrun : final (execute .beginTransaction) s = final (do
      let txId ← onTm (TransactionManager.beginTransaction .readCommitted)
      modify fun s => { s with currentTxId := some txId } : Run ω Unit) s := by
    rw [final, execute, get_bind, ht]
    rfl
  rw [hrun, final_onTm_bind]
  have hempty : ∀ x, x ∉ s.tm.activeTransactions := fun x hx => by
    rw [← h x, ht] at hx
    cases hx
  by_cases hfits : s.tm.nextTransactionId.toNat + 1 < 2 ^ 64
  · have hiff : FullyLogged s .beginTransaction ↔
        LogTakes (Journal.appendRecord (.begin s.tm.nextTransactionId 0)) s.tm :=
      ⟨fun hlogged => hlogged ht hfits, fun htakes _ _ => htakes⟩
    rw [hiff, ← begin_returns_iff .readCommitted hfits]
    have hsame := final_begin .readCommitted hfits
    rw [final] at hsame
    cases hbegin : TransactionManager.beginTransaction .readCommitted s.tm with
    | ok t m' =>
      rw [hbegin] at hsame
      have hid : t = s.tm.nextTransactionId := by
        rw [beginTransaction_of_fits .readCommitted hfits, bind_eq_ok] at hbegin
        obtain ⟨lsn, m₁, -, hpure⟩ := hbegin
        cases hpure
        rfl
      refine iff_of_true (fun x => ?_) ⟨t, m', rfl⟩
      show some t = some x ↔ x ∈ m'.activeTransactions
      rw [hsame.active, Option.some.injEq, hid]
      show _ ↔ x ∈ AList.insert _ _ _
      rw [AList.mem_insert, or_iff_left (hempty x), eq_comm]
    | error e m' =>
      rw [hbegin] at hsame
      refine iff_of_false (fun hagree => ?_) nofun
      have hmem : s.tm.nextTransactionId ∈ m'.activeTransactions := by
        rw [hsame.active]
        exact (AList.mem_insert _).mpr (.inl rfl)
      have hcurrent : s.currentTxId = some s.tm.nextTransactionId := (hagree _).mpr hmem
      rw [ht] at hcurrent
      cases hcurrent
  · rw [beginTransaction_of_not_fits .readCommitted hfits]
    exact iff_of_true h fun _ hfits' => absurd hfits' hfits

/-- One statement, run when the session and the manager agree, keeps them in agreement exactly when
the log takes its records. -/
theorem agree_execute_iff {s : Session ω} (hm : Ahead s.tm) (h : Agree s) (statement : Statement) :
    Agree (final (execute statement) s) ↔ FullyLogged s statement := by
  cases statement with
  | beginTransaction =>
    cases ht : s.currentTxId with
    | none => exact agree_begin_iff h ht
    | some t =>
      have hrun : final (execute .beginTransaction) s = s := by
        rw [final, execute, get_bind, ht]
        rfl
      rw [hrun, FullyLogged, ht]
      exact iff_of_true h nofun
  | commitTransaction =>
    cases ht : s.currentTxId with
    | none =>
      have hrun : final (execute .commitTransaction) s = s := by
        rw [final, execute, get_bind, ht]
        rfl
      rw [hrun, FullyLogged, ht]
      exact iff_of_true h nofun
    | some t =>
      have hrun : final (execute .commitTransaction) s = final (do
          onTm (TransactionManager.commitTransaction t)
          modify fun s => { s with currentTxId := none } : Run ω Unit) s := by
        rw [final, execute, get_bind, ht]
        rfl
      obtain ⟨tx, hlookup⟩ := Option.isSome_iff_exists.mp (AList.lookup_isSome.mpr ((h t).mp ht))
      obtain ⟨snapshot, hs, -⟩ := hm.active t tx hlookup
      have hdropped : (final (TransactionManager.commitTransaction t) s.tm).activeTransactions =
          s.tm.activeTransactions.erase t := by
        by_cases htakes : LogTakes (Journal.appendAndFlush (.commit t 0 tx.lastLsn)) s.tm
        · exact ((final_commit hlookup hs).1 htakes).active
        · exact ((final_commit hlookup hs).2 htakes).active
      have hiff : FullyLogged s .commitTransaction ↔ LogTakes (logCommit t tx.lastLsn) s.tm := by
        rw [FullyLogged, ht]
        simp [hlookup]
      rw [hrun, agree_end_iff h ht hdropped, commit_returns_iff hlookup hs, hiff]
  | rollbackTransaction =>
    cases ht : s.currentTxId with
    | none =>
      have hrun : final (execute .rollbackTransaction) s = s := by
        rw [final, execute, get_bind, ht]
        rfl
      rw [hrun, FullyLogged, ht]
      exact iff_of_true h nofun
    | some t =>
      have hrun : final (execute .rollbackTransaction) s = final (do
          onTm (TransactionManager.rollbackTransaction t)
          modify fun s => { s with currentTxId := none } : Run ω Unit) s := by
        rw [final, execute, get_bind, ht]
        rfl
      obtain ⟨tx, hlookup⟩ := Option.isSome_iff_exists.mp (AList.lookup_isSome.mpr ((h t).mp ht))
      obtain ⟨snapshot, hs, -⟩ := hm.active t tx hlookup
      have hdropped : (final (TransactionManager.rollbackTransaction t) s.tm).activeTransactions =
          s.tm.activeTransactions.erase t := by
        by_cases htakes : LogTakes (Journal.appendAndFlush (.abort t 0 tx.lastLsn)) s.tm
        · exact ((final_rollback hlookup hs).1 htakes).active
        · exact ((final_rollback hlookup hs).2 htakes).active
      have hiff : FullyLogged s .rollbackTransaction ↔
          LogTakes (Journal.appendAndFlush (.abort t 0 tx.lastLsn)) s.tm := by
        rw [FullyLogged, ht]
        simp [hlookup]
      rw [hrun, agree_end_iff h ht hdropped, rollback_returns_iff hlookup hs, hiff]
  | other deletes outcome => exact iff_of_true (agree_other h deletes outcome) trivial

/-! ## Runs -/

theorem keeps_logDeletes (t : TransactionId) (deletes : List (UInt64 × List UInt8)) :
    Keeps (Ahead (ω := ω)) (logDeletes t deletes) := by
  induction deletes with
  | nil => exact Keeps.pure ()
  | cons d deletes ih => exact (keeps_txStep (.logDelete t d.1 d.2)).bind fun _ => ih

theorem keeps_execute (statement : Statement) :
    Keeps (fun s : Session ω => Ahead s.tm) (execute statement) := by
  cases statement with
  | beginTransaction =>
    refine Keeps.get_bind fun s => ?_
    split
    · exact Keeps.pure ()
    · exact (keeps_onTm (keeps_beginTransaction _)).bind fun _ => Keeps.modify fun _ h => h
  | commitTransaction =>
    refine Keeps.get_bind fun s => ?_
    split
    · exact (keeps_onTm (keeps_commitTransaction _)).bind fun _ => Keeps.modify fun _ h => h
    · exact Keeps.pure ()
  | rollbackTransaction =>
    refine Keeps.get_bind fun s => ?_
    split
    · exact (keeps_onTm (keeps_rollbackTransaction _)).bind fun _ => Keeps.modify fun _ h => h
    · exact Keeps.pure ()
  | other deletes outcome =>
    refine Keeps.get_bind fun s => ?_
    split
    · exact (keeps_onTm (keeps_logDeletes _ deletes)).bind fun _ => keeps_onTm (keeps_lift _)
    · exact (Keeps.pure ()).bind fun _ => keeps_onTm (keeps_lift _)

/-- The statements of a query, run when the session and the manager agree: the agreement holds after
each of them exactly when the log takes the records of each, and then it holds after the query. -/
theorem agree_executedIn {s : Session ω} (hm : Ahead s.tm) (h : Agree s)
    (statements : List Statement) :
    ((∀ p ∈ executedIn s statements, Agree (final (execute p.2) p.1)) ↔
        ∀ p ∈ executedIn s statements, FullyLogged p.1 p.2) ∧
      ((∀ p ∈ executedIn s statements, FullyLogged p.1 p.2) →
        Agree (final (executeSql statements) s)) := by
  induction statements generalizing s with
  | nil => exact ⟨iff_of_true nofun nofun, fun _ => h⟩
  | cons statement statements ih =>
    have hstep := agree_execute_iff hm h statement
    have hm' : Ahead (final (execute statement) s).tm := (keeps_execute statement).final hm
    cases hrun : execute statement s with
    | ok a s' =>
      have hs' : final (execute statement) s = s' := by rw [final, hrun]
      have hmem : executedIn s (statement :: statements) =
          (s, statement) :: executedIn s' statements := by rw [executedIn, hrun]
      have hrest : final (executeSql (statement :: statements)) s =
          final (executeSql statements) s' := final_bind_of_ok hrun
      rw [hmem, hrest]
      simp only [List.forall_mem_cons]
      rw [hs'] at hm' hstep
      rw [hs', hstep]
      constructor
      · refine and_congr_right fun hlogged => ?_
        apply (ih hm' (hstep.mpr hlogged)).1
      · rintro ⟨hlogged, hlater⟩
        apply (ih hm' (hstep.mpr hlogged)).2 hlater
    | error e s' =>
      have hmem : executedIn s (statement :: statements) = [(s, statement)] := by
        rw [executedIn, hrun]
      have hrest : final (executeSql (statement :: statements)) s = final (execute statement) s := by
        rw [executeSql, final_bind_of_error hrun, final, hrun]
      rw [hmem, hrest]
      simp only [List.forall_mem_singleton]
      exact ⟨hstep, hstep.mpr⟩

theorem keeps_executeSql (statements : List Statement) :
    Keeps (fun s : Session ω => Ahead s.tm) (executeSql statements) := by
  induction statements with
  | nil => exact Keeps.pure ()
  | cons statement statements ih => exact (keeps_execute statement).bind fun _ => ih

theorem agree_executed {s : Session ω} (hm : Ahead s.tm) (h : Agree s)
    (queries : List (List Statement)) :
    (∀ p ∈ executed s queries, Agree (final (execute p.2) p.1)) ↔
      ∀ p ∈ executed s queries, FullyLogged p.1 p.2 := by
  induction queries generalizing s with
  | nil => exact iff_of_true nofun nofun
  | cons query queries ih =>
    obtain ⟨hquery, hend⟩ := agree_executedIn hm h query
    simp only [executed, List.forall_mem_append]
    rw [hquery]
    refine and_congr_right fun hlogged => ?_
    apply ih ((keeps_executeSql query).final hm) (hend hlogged)

/-- Whatever queries are run, the session and the transaction manager agree after every statement
exactly when the log takes the records of every statement that begins or ends a transaction. -/
theorem session_agree_iff (wal : Option ω) (queries : List (List Statement)) :
    (∀ p ∈ executed (start wal) queries, Agree (final (execute p.2) p.1)) ↔
      ∀ p ∈ executed (start wal) queries, FullyLogged p.1 p.2 :=
  agree_executed (ahead_new wal) (agree_start wal) queries

/-- A query begins and commits a transaction, on a log whose first file operation fails.
The commit fails before the commit point, and the session is left with the number of a transaction
that is gone and that a rollback does not find. -/
theorem failed_commit_strands :
    let s := final (executeSql [.beginTransaction, .commitTransaction]) (start (some failingLog))
    s.currentTxId = some 1 ∧ 1 ∉ s.tm.activeTransactions ∧
      execute .rollbackTransaction s = .error (notFound 1) s := by
  refine ⟨by decide, by decide, rfl⟩

end Session

end Rustgresql
