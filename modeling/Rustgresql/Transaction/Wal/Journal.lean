import Rustgresql.Transaction.Wal.Manager

/-!
# Journals

The transaction managers use the log through three calls. `Journal` is this interface, and
`WALManager` the journal of the engine. Any call of a journal may fail, which stands for every
failure of an append or a flush.

`Recorded` adds a history variable to a journal: the list of the records whose append returned. It
is what the results about the contents of the log are about; it changes nothing else
(`Recorded.commutes_append`, `Recorded.commutes_flush`).
-/

namespace Rustgresql

open StateSpec

/-- What the transaction managers need of a log. -/
class Journal (ω : Type) where
  nextLsn : ω → LSN
  appendRecord : WALRecord → EStateM Failure ω LSN
  flushBuffer : EStateM Failure ω Unit

instance : Journal WALManager where
  nextLsn m := m.nextLsn
  appendRecord := WALManager.appendRecord
  flushBuffer := WALManager.flushBuffer

/-- `append_record` returns the next number and moves it by one; no call moves it back. -/
class LawfulJournal (ω : Type) [Journal ω] : Prop where
  append_ok : ∀ {r : WALRecord} {s s' : ω} {lsn : LSN}, Journal.appendRecord r s = .ok lsn s' →
    lsn = Journal.nextLsn s ∧ (Journal.nextLsn s').toNat = (Journal.nextLsn s).toNat + 1
  append_error : ∀ {r : WALRecord} {s s' : ω} {e : Failure},
    Journal.appendRecord r s = .error e s' → Journal.nextLsn s ≤ Journal.nextLsn s'
  flush : ∀ s : ω, Journal.nextLsn (final Journal.flushBuffer s) = Journal.nextLsn s

namespace Journal

variable {ω : Type} [Journal ω]

/-- `WALManager::checkpoint` on any journal. -/
def checkpoint (_lsn : LSN) : EStateM Failure ω Unit := do
  flushBuffer
  let next := nextLsn (← get)
  let _ ← appendRecord (WALManager.checkpointRecord next)

example (lsn : LSN) : checkpoint lsn = WALManager.checkpoint lsn := rfl

/-- Append a record and flush. -/
def appendAndFlush (record : WALRecord) : EStateM Failure ω LSN := do
  let lsn ← appendRecord record
  flushBuffer
  pure lsn

end Journal

namespace WALManager

theorem nextLsn_onFile {α : Type} (act : EStateM Failure ByteFile α) (m : WALManager) :
    (final (onFile act) m).nextLsn = m.nextLsn := by
  unfold final onFile
  cases act m.file <;> rfl

theorem nextLsn_flushBuffer (m : WALManager) : (final flushBuffer m).nextLsn = m.nextLsn := by
  by_cases hempty : m.buffer = []
  · have hrun : flushBuffer m = .ok () m := by
      rw [flushBuffer, get_bind, if_pos hempty]
      rfl
    rw [final, hrun]
  · set act : EStateM Failure ByteFile Unit := do
      ioCall ByteFile.seekEnd
      writeRecords m.buffer
      ioCall ByteFile.flush
      if m.fsyncEnabled then ioCall ByteFile.syncAll
    have hrun : flushBuffer m = onFile act { m with buffer := [] } := by
      rw [flushBuffer, get_bind, if_neg hempty]
      exact bind_of_ok rfl
    have hfinal : final flushBuffer m = final (onFile act) { m with buffer := [] } := by
      rw [final, hrun, final]
    rw [hfinal, nextLsn_onFile]

/-- An append fails before it does anything, or numbers the record and may then fail to flush. -/
theorem appendRecord_cases (r : WALRecord) (m : WALManager) :
    (∃ e, appendRecord r m = .error e m) ∨ ∃ m', (m'.nextLsn).toNat = m.nextLsn.toNat + 1 ∧
      (appendRecord r m = .ok m.nextLsn m' ∨ ∃ e, appendRecord r m = .error e m') := by
  by_cases hfit : m.nextLsn.toNat + 1 < 2 ^ 64
  · set m₁ : WALManager :=
      { m with nextLsn := m.nextLsn + 1, buffer := m.buffer ++ [stamp m.nextLsn r] } with hm₁
    have hnext : m₁.nextLsn.toNat = m.nextLsn.toNat + 1 := by
      show (m.nextLsn + 1).toNat = _
      rw [UInt64.toNat_add]
      exact Nat.mod_eq_of_lt hfit
    have hrun : appendRecord r m = (do
        if m₁.buffer.length ≥ m₁.bufferSize then flushBuffer
        pure m.nextLsn : Call LSN) m₁ := by
      rw [appendRecord, get_bind, bind_of_ok (require_of hfit _ _)]
      rfl
    right
    by_cases hfull : m₁.buffer.length ≥ m₁.bufferSize
    · rw [if_pos hfull] at hrun
      have hflush := nextLsn_flushBuffer m₁
      rw [final] at hflush
      cases hf : flushBuffer m₁ with
      | ok a m' =>
        rw [hf] at hflush
        rw [bind_of_ok hf] at hrun
        exact ⟨m', by rw [hflush, hnext], .inl hrun⟩
      | error e m' =>
        rw [hf] at hflush
        rw [bind_of_error hf] at hrun
        exact ⟨m', by rw [hflush, hnext], .inr ⟨e, hrun⟩⟩
    · rw [if_neg hfull] at hrun
      exact ⟨m₁, hnext, .inl hrun⟩
  · left
    exact ⟨_, by rw [appendRecord, get_bind, bind_of_error (require_of_not hfit _ _)]⟩

instance : LawfulJournal WALManager where
  append_ok {r s s' lsn} h := by
    rcases appendRecord_cases r s with ⟨e, he⟩ | ⟨m', hnext, hok | ⟨e, he⟩⟩
    · cases he.symm.trans h
    · cases hok.symm.trans h
      exact ⟨rfl, hnext⟩
    · cases he.symm.trans h
  append_error {r s s' e'} h := by
    rcases appendRecord_cases r s with ⟨e, he⟩ | ⟨m', hnext, hok | ⟨e, he⟩⟩
    · cases he.symm.trans h
      exact UInt64.le_refl _
    · cases hok.symm.trans h
    · cases he.symm.trans h
      rw [UInt64.le_iff_toNat_le]
      exact (Nat.le_succ _).trans_eq hnext.symm
  flush := nextLsn_flushBuffer

end WALManager

/-- The records of a transaction. -/
def recordsOf (t : TransactionId) (log : List WALRecord) : List WALRecord :=
  log.filter (·.header.transactionId = t)

theorem recordsOf_append_of_eq {t : TransactionId} {r : WALRecord} (h : r.header.transactionId = t)
    (log : List WALRecord) : recordsOf t (log ++ [r]) = recordsOf t log ++ [r] := by
  simp [recordsOf, List.filter_append, h]

theorem recordsOf_append_of_ne {t : TransactionId} {r : WALRecord} (h : r.header.transactionId ≠ t)
    (log : List WALRecord) : recordsOf t (log ++ [r]) = recordsOf t log := by
  simp [recordsOf, List.filter_append, h]

/-- A journal and the records whose append returned, in order. -/
structure Recorded (ω : Type) where
  journal : ω
  log : List WALRecord

namespace Recorded

variable {ω : Type} [Journal ω]

instance : Journal (Recorded ω) where
  nextLsn s := Journal.nextLsn s.journal
  appendRecord r := fun s =>
    match Journal.appendRecord r s.journal with
    | .ok lsn j => .ok lsn ⟨j, s.log ++ [WALManager.stamp lsn r]⟩
    | .error e j => .error e ⟨j, s.log⟩
  flushBuffer := fun s =>
    match Journal.flushBuffer s.journal with
    | .ok a j => .ok a ⟨j, s.log⟩
    | .error e j => .error e ⟨j, s.log⟩

theorem commutes_append (r : WALRecord) :
    Commutes journal (Journal.appendRecord (ω := Recorded ω) r) (Journal.appendRecord r) := by
  intro s
  simp only [Journal.appendRecord]
  cases Journal.appendRecord r s.journal <;> rfl

theorem commutes_flush :
    Commutes journal (Journal.flushBuffer (ω := Recorded ω)) Journal.flushBuffer := by
  intro s
  simp only [Journal.flushBuffer]
  cases Journal.flushBuffer s.journal <;> rfl

theorem append_eq_ok {r : WALRecord} {s s' : Recorded ω} {lsn : LSN}
    (h : Journal.appendRecord r s = .ok lsn s') : s'.log = s.log ++ [WALManager.stamp lsn r] ∧
      Journal.appendRecord r s.journal = .ok lsn s'.journal := by
  simp only [Journal.appendRecord] at h
  split at h
  · next hrun =>
    cases h
    exact ⟨rfl, hrun⟩
  · cases h

theorem append_eq_error {r : WALRecord} {s s' : Recorded ω} {e : Failure}
    (h : Journal.appendRecord r s = .error e s') : s'.log = s.log ∧
      Journal.appendRecord r s.journal = .error e s'.journal := by
  simp only [Journal.appendRecord] at h
  split at h
  · cases h
  · next hrun =>
    cases h
    exact ⟨rfl, hrun⟩

theorem log_flush (s : Recorded ω) : (final Journal.flushBuffer s).log = s.log := by
  simp only [final, Journal.flushBuffer]
  cases Journal.flushBuffer s.journal <;> rfl

instance [LawfulJournal ω] : LawfulJournal (Recorded ω) where
  append_ok h := LawfulJournal.append_ok (ω := ω) (append_eq_ok h).2
  append_error h := LawfulJournal.append_error (ω := ω) (append_eq_error h).2
  flush s := by
    have hflush := LawfulJournal.flush s.journal
    simp only [final, Journal.flushBuffer, Journal.nextLsn] at hflush ⊢
    cases hrun : Journal.flushBuffer s.journal <;> rwa [hrun] at hflush

end Recorded

end Rustgresql
