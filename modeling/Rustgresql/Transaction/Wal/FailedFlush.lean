import Rustgresql.Transaction.Wal.Manager

/-!
# Flushes that fail (`transaction/wal.rs`)

`flush_buffer` drains the buffer, and then seeks, writes and syncs. When one of these calls fails, the records that
were taken out of the buffer are dropped. So no flush of a run loses a record exactly if every flush that has something
to write meets no fault (`losesNothing_iff`).
-/

namespace Rustgresql

open StateSpec ByteFile

namespace WALManager

/-! ## The calls of a flush -/

/-- A flush of `n` records seeks, writes each record, flushes, and syncs if it is enabled. -/
def callsOfFlush (m : WALManager) : ℕ := 1 + (m.buffer.length + (1 + if m.fsyncEnabled then 1 else 0))

theorem runs_ioCall {n : ℕ} {act : Io Unit} {g : List UInt8 × ℕ → List UInt8 × ℕ} (h : Runs n act g) :
    Runs n (ioCall act) g := by
  intro p faults
  obtain ⟨hok, herror⟩ := h p faults
  refine ⟨fun hnone => ioCall_ok (hok hnone), fun hfault => ?_⟩
  obtain ⟨e, f, hrun⟩ := herror hfault
  exact ⟨.err (.io e), f, by simp only [ioCall, hrun]⟩

/-- The bytes and the cursor after records have been written -/
def written (rs : List WALRecord) (p : List UInt8 × ℕ) : List UInt8 × ℕ :=
  rs.foldl (fun p r => (overwrite p.1 p.2 r.toBytes, p.2 + r.toBytes.length)) p

theorem written_end (rs : List WALRecord) (bytes : List UInt8) :
    (written rs (bytes, bytes.length)).1 = bytes ++ rs.flatMap WALRecord.toBytes := by
  induction rs generalizing bytes with
  | nil => exact (List.append_nil bytes).symm
  | cons r rs ih =>
    have hfirst : written (r :: rs) (bytes, bytes.length) =
        written rs (bytes ++ r.toBytes, (bytes ++ r.toBytes).length) := by
      rw [written, List.foldl_cons, overwrite_end, List.length_append]
      rfl
    rw [hfirst, ih, List.flatMap_cons, List.append_assoc]

theorem runs_writeRecords (rs : List WALRecord) : Runs rs.length (writeRecords rs) (written rs) := by
  induction rs with
  | nil => exact .pure
  | cons r rs ih =>
    rw [List.length_cons, Nat.add_comm]
    exact (runs_ioCall (.writeAll r.toBytes)).seq ih

theorem runs_sync (enabled : Bool) :
    Runs (if enabled then 1 else 0) (if enabled then ioCall syncAll else pure ()) id := by
  cases enabled
  · exact .pure
  · exact runs_ioCall .syncAll

/-- A flush without a fault moves the buffer to the end of the file. After a fault the buffer is empty all the same. -/
theorem flushBuffer_cases {m : WALManager} (h : m.buffer ≠ []) :
    (NoFault m.callsOfFlush m.file.faults → ∃ m', flushBuffer m = .ok () m' ∧
      m'.file.bytes = m.file.bytes ++ m.buffer.flatMap WALRecord.toBytes ∧ m'.buffer = [] ∧
        m'.nextLsn = m.nextLsn) ∧
    (¬ NoFault m.callsOfFlush m.file.faults → ∃ e m', flushBuffer m = .error e m' ∧ m'.buffer = []) := by
  have hflush := (runs_ioCall .seekEnd).seq ((runs_writeRecords m.buffer).seq
    ((runs_ioCall .flush).seq (runs_sync m.fsyncEnabled)))
  obtain ⟨hok, herror⟩ := hflush (m.file.bytes, m.file.cursor) m.file.faults
  have hdrained : flushBuffer m = onFile (do
      ioCall seekEnd
      writeRecords m.buffer
      ioCall ByteFile.flush
      if m.fsyncEnabled then ioCall syncAll) { m with buffer := [] } := by
    rw [flushBuffer, get_bind, if_neg h]
    rfl
  rw [hdrained]
  constructor
  · intro hnone
    refine ⟨_, onFile_ok (hok hnone), ?_, rfl, rfl⟩
    exact written_end m.buffer m.file.bytes
  · intro hfault
    obtain ⟨e, f, hrun⟩ := herror hfault
    have hrun' : (do
        ioCall seekEnd
        writeRecords m.buffer
        ioCall ByteFile.flush
        if m.fsyncEnabled then ioCall syncAll) m.file = .error e f := hrun
    exact ⟨e, { m with file := f, buffer := [] }, by simp only [onFile, hrun'], rfl⟩

theorem flushBuffer_of_nil {m : WALManager} (h : m.buffer = []) : flushBuffer m = .ok () m := by
  rw [flushBuffer, get_bind, if_pos h]
  rfl

/-! ## Runs -/

/-- The calls on a log. A checkpoint makes one or both of them. -/
inductive LogOp
  | append (record : WALRecord)
  | flush

/-- A manager and the records that have been given numbers. -/
structure Appending where
  manager : WALManager
  appended : List WALRecord

namespace Appending

/-- There is a number left for a record. -/
def HasNumber (s : Appending) : Prop := s.manager.nextLsn.toNat + 1 < 2 ^ 64

instance (s : Appending) : Decidable s.HasNumber := inferInstanceAs (Decidable (_ < _))

/-- Number a record and put it into the buffer. -/
def buffered (s : Appending) (record : WALRecord) : Appending :=
  let r := stamp s.manager.nextLsn record
  { manager := { s.manager with nextLsn := s.manager.nextLsn + 1, buffer := s.manager.buffer ++ [r] }
    appended := s.appended ++ [r] }

/-- The state in which a call comes to `flush_buffer`, if it does. -/
def flushing (s : Appending) : LogOp → Option Appending
  | .append record =>
    if s.HasNumber ∧ (s.buffered record).manager.buffer.length ≥ s.manager.bufferSize then some (s.buffered record)
    else none
  | .flush => some s

/-- Make one call. A record that has been given a number is appended, whatever becomes of the call. -/
def step (s : Appending) : LogOp → Appending
  | .append record =>
    { manager := final (appendRecord record) s.manager
      appended := if s.HasNumber then (s.buffered record).appended else s.appended }
  | .flush => { s with manager := final flushBuffer s.manager }

/-- Make calls in order, going on after failures. -/
def run (s : Appending) (ops : List LogOp) : Appending := ops.foldl step s

/-- Nothing has been appended yet. -/
def start (m : WALManager) : Appending := ⟨m, []⟩

/-- After a flush that fails, the records that were to be written are still in the buffer. After one that returns, all
appended records are in the file behind what was there at the start, once each, by their numbers. -/
def LosesNothing (before : List UInt8) (s : Appending) : Prop :=
  match flushBuffer s.manager with
  | .ok _ m => m.file.bytes = before ++ s.appended.flatMap WALRecord.toBytes ∧
    s.appended.Pairwise (·.header.lsn < ·.header.lsn)
  | .error _ m => s.manager.buffer.Sublist m.buffer

/-- No call on the file fails, if there is something to write. -/
def MeetsNoFault (s : Appending) : Prop :=
  s.manager.buffer ≠ [] → NoFault s.manager.callsOfFlush s.manager.file.faults

/-- The file and the buffer together hold the appended records, which are numbered upwards. -/
structure Holds (before : List UInt8) (s : Appending) : Prop where
  split : ∃ flushed, flushed ++ s.manager.buffer = s.appended ∧
    s.manager.file.bytes = before ++ flushed.flatMap WALRecord.toBytes
  ordered : s.appended.Pairwise (·.header.lsn < ·.header.lsn)
  below : ∀ r ∈ s.appended, r.header.lsn < s.manager.nextLsn

variable {before : List UInt8} {s : Appending}

/-- A flush loses nothing exactly if it meets no fault. -/
theorem losesNothing_iff_meetsNoFault (h : s.Holds before) : s.LosesNothing before ↔ s.MeetsNoFault := by
  obtain ⟨flushed, hsplit, hbytes⟩ := h.split
  unfold LosesNothing MeetsNoFault
  by_cases hempty : s.manager.buffer = []
  · rw [flushBuffer_of_nil hempty]
    refine iff_of_true ⟨?_, h.ordered⟩ fun hne => absurd hempty hne
    rw [hempty, List.append_nil] at hsplit
    rw [hbytes, hsplit]
  · obtain ⟨hok, herror⟩ := flushBuffer_cases hempty
    by_cases hnone : NoFault s.manager.callsOfFlush s.manager.file.faults
    · obtain ⟨m', hflush, hbytes', -, -⟩ := hok hnone
      rw [hflush]
      refine iff_of_true ⟨?_, h.ordered⟩ fun _ => hnone
      rw [hbytes', hbytes, List.append_assoc, ← List.flatMap_append, hsplit]
    · obtain ⟨e, m', hflush, hbuffer⟩ := herror hnone
      rw [hflush]
      refine iff_of_false (fun hsublist => hempty ?_) fun h => hnone (h hempty)
      exact List.sublist_nil.mp (hbuffer ▸ hsublist)

/-- After a flush that loses nothing, all appended records are in the file. -/
theorem Holds.flush (h : s.Holds before) (hflush : s.LosesNothing before) :
    Holds before { s with manager := final flushBuffer s.manager } := by
  by_cases hempty : s.manager.buffer = []
  · rwa [final, flushBuffer_of_nil hempty]
  · have hnone := (losesNothing_iff_meetsNoFault h).mp hflush hempty
    obtain ⟨m', hrun, -, hbuffer, hnext⟩ := (flushBuffer_cases hempty).1 hnone
    unfold LosesNothing at hflush
    rw [hrun] at hflush
    rw [final, hrun]
    refine ⟨⟨s.appended, ?_, hflush.1⟩, h.ordered, fun r hr => ?_⟩
    · rw [hbuffer, List.append_nil]
    · rw [hnext]
      exact h.below r hr

theorem Holds.buffered (h : s.Holds before) (hnumber : s.HasNumber) (record : WALRecord) :
    (s.buffered record).Holds before := by
  obtain ⟨flushed, hsplit, hbytes⟩ := h.split
  have hnext : s.manager.nextLsn < s.manager.nextLsn + 1 := by
    rw [UInt64.lt_iff_toNat_lt, UInt64.toNat_add]
    exact (Nat.lt_succ_self _).trans_eq (Nat.mod_eq_of_lt hnumber).symm
  refine ⟨⟨flushed, ?_, hbytes⟩, ?_, ?_⟩
  · show flushed ++ (s.manager.buffer ++ _) = s.appended ++ _
    rw [← List.append_assoc, hsplit]
  · refine List.pairwise_append.mpr ⟨h.ordered, List.pairwise_singleton _ _, fun r hr r' hr' => ?_⟩
    rw [List.mem_singleton.mp hr']
    exact h.below r hr
  · intro r hr
    rcases List.mem_append.mp hr with hr | hr
    · exact UInt64.lt_trans (h.below r hr) hnext
    · rw [List.mem_singleton.mp hr]
      exact hnext

/-- An append that comes to a flush leaves what the flush leaves. -/
theorem step_append (record : WALRecord) : s.step (.append record) =
    match s.flushing (.append record) with
    | some t => { t with manager := final flushBuffer t.manager }
    | none => if s.HasNumber then s.buffered record else s := by
  by_cases hnumber : s.HasNumber
  · have hrun : appendRecord record s.manager = (do
        if (s.buffered record).manager.buffer.length ≥ s.manager.bufferSize then flushBuffer
        pure s.manager.nextLsn : Call LSN) (s.buffered record).manager := by
      have hfits : s.manager.nextLsn.toNat + 1 < 2 ^ 64 := hnumber
      rw [appendRecord, get_bind, bind_of_ok (require_of hfits _ _)]
      rfl
    by_cases hfull : (s.buffered record).manager.buffer.length ≥ s.manager.bufferSize
    · have hflushing : s.flushing (.append record) = some (s.buffered record) := if_pos ⟨hnumber, hfull⟩
      have hfinal : final (appendRecord record) s.manager = final flushBuffer (s.buffered record).manager := by
        rw [if_pos hfull] at hrun
        rw [final, hrun]
        exact final_bind_pure flushBuffer (fun _ => s.manager.nextLsn) _
      rw [hflushing, step, if_pos hnumber, hfinal]
    · have hflushing : s.flushing (.append record) = none := if_neg fun h => hfull h.2
      have hfinal : final (appendRecord record) s.manager = (s.buffered record).manager := by
        rw [if_neg hfull] at hrun
        rw [final, hrun]
        rfl
      rw [hflushing, step, if_pos hnumber, hfinal, if_pos hnumber]
  · have hflushing : s.flushing (.append record) = none := if_neg fun h => hnumber h.1
    have hrun : appendRecord record s.manager = .error (.panic "attempt to add with overflow") s.manager := by
      have hfull : ¬ s.manager.nextLsn.toNat + 1 < 2 ^ 64 := hnumber
      rw [appendRecord, get_bind, bind_of_error (require_of_not hfull _ _)]
    rw [hflushing, step, if_neg hnumber, final, hrun, if_neg hnumber]

/-- The state in which a call comes to a flush holds what the state before it held. -/
theorem Holds.flushing (h : s.Holds before) {op : LogOp} {t : Appending} (hflushing : s.flushing op = some t) :
    t.Holds before := by
  cases op with
  | append record =>
    rw [Appending.flushing] at hflushing
    split_ifs at hflushing with hfull
    obtain rfl := Option.some.inj hflushing
    exact h.buffered hfull.1 record
  | flush =>
    obtain rfl := Option.some.inj hflushing
    exact h

theorem Holds.step (h : s.Holds before) (op : LogOp)
    (hflush : ∀ t, s.flushing op = some t → t.LosesNothing before) : (s.step op).Holds before := by
  cases op with
  | append record =>
    rw [step_append]
    rcases hflushing : s.flushing (.append record) with - | t
    · dsimp only
      split_ifs with hnumber
      · exact h.buffered hnumber record
      · exact h
    · exact (h.flushing hflushing).flush (hflush t hflushing)
  | flush => exact h.flush (hflush s rfl)

/-- No flush of a run loses a record, if and only if every flush of the run that has something to write meets no fault. -/
theorem losesNothing_iff {m : WALManager} (hbuffer : m.buffer = []) (ops : List LogOp) :
    (∀ pre op post, ops = pre ++ op :: post → ∀ t, ((start m).run pre).flushing op = some t →
        t.LosesNothing m.file.bytes) ↔
      ∀ pre op post, ops = pre ++ op :: post → ∀ t, ((start m).run pre).flushing op = some t → t.MeetsNoFault := by
  have hstart : (start m).Holds m.file.bytes := by
    refine ⟨⟨[], hbuffer, ?_⟩, .nil, nofun⟩
    rw [List.flatMap_nil, List.append_nil]
    rfl
  unfold run
  refine forall_step_iff
    (G := fun s op => ∀ t, s.flushing op = some t → t.LosesNothing m.file.bytes)
    (C := fun s op => ∀ t, s.flushing op = some t → t.MeetsNoFault) hstart
    (fun s op h hflush => h.step op hflush) (fun s op h => ?_) ops
  exact forall_congr' fun t => forall_congr' fun ht => losesNothing_iff_meetsNoFault (h.flushing ht)

/-- A record is appended and flushed to a new log. -/
theorem losesNothing_new : (created 8192).buffer = [] ∧
    ∀ pre op post, [.append (.begin 1 0), .flush] = pre ++ op :: post →
      ∀ t, ((start (created 8192)).run pre).flushing op = some t → t.LosesNothing (created 8192).file.bytes := by
  refine ⟨rfl, (losesNothing_iff (m := created 8192) rfl [.append (.begin 1 0), .flush]).mpr ?_⟩
  refine forall_split_cons.mpr ⟨fun t ht => ?_, forall_split_cons.mpr ⟨fun t ht _ => ?_, forall_split_nil⟩⟩
  · rw [flushing] at ht
    split_ifs at ht with hfull
    exact absurd hfull.2 (by decide)
  · obtain rfl := Option.some.inj ht
    exact nofun

/-- A new log on whose file the first call fails -/
def failing : WALManager := { created 8192 with file := { (created 8192).file with faults := [some 0] } }

/-- A record is appended and the flush fails. The record is in the buffer no more, and the next flush returns without
having written it. -/
theorem record_lost :
    ¬ ∀ pre op post, [.append (.begin 1 0), .flush, .flush] = pre ++ op :: post →
      ∀ t, ((start failing).run pre).flushing op = some t → t.LosesNothing failing.file.bytes := by
  intro h
  have hlost := h [.append (.begin 1 0)] .flush [.flush] rfl _ rfl
  have hbuffer : [stamp 1 (.begin 1 0)].Sublist [] := hlost
  exact absurd (List.sublist_nil.mp hbuffer) (List.cons_ne_nil _ _)

end Appending

end WALManager

end Rustgresql
