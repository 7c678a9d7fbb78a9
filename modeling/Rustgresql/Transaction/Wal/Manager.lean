import Rustgresql.Transaction.Wal.Record
import Rustgresql.Lib.ByteFile
import Rustgresql.Lib.StateSpec

/-!
# The write-ahead log manager (`transaction/wal.rs`)

`WALManager` numbers the records that are appended, buffers them and writes them to the end of the
log file. `openFile` finds the next number of an existing log by scanning it: 29 bytes of header,
then as many bytes as the header announces.

The writer keeps the log equal to the file header followed by the records numbered from 1
(`Logged`). The scan recovers the next number from such a log if the records are `Aligned`, which
is what `openFile_nextLsn` shows.
-/

namespace Rustgresql

open Wire StateSpec

/-- WAL file header. -/
structure WALHeader where
  magicNumber : UInt64
  version : UInt32
  pageSize : UInt32
  startLsn : LSN
  deriving DecidableEq, Repr

namespace WALHeader

/-- The `bincode` form of a WAL file header. -/
def codec : Codec WALHeader :=
  (Codec.u64.seq <| Codec.u32.seq <| Codec.u32.seq Codec.u64).via
    (fun h => (h.magicNumber, h.version, h.pageSize, h.startLsn))
    (fun t => some ⟨t.1, t.2.1, t.2.2.1, t.2.2.2⟩)
    (fun _ => rfl)

/-- `WALHeader::new`. -/
def new (pageSize : UInt32) : WALHeader where
  magicNumber := 0x57414C5253514C44
  version := 1
  pageSize := pageSize
  startLsn := 0

/-- The size that `open` computes for a file header. -/
def size : ℕ := (codec.encode (new 0)).length

theorem valid (h : WALHeader) : codec.Valid h :=
  ⟨Codec.u64_valid _, Codec.u32_valid _, Codec.u32_valid _, Codec.u64_valid _⟩

@[simp] theorem encode_length (h : WALHeader) : (codec.encode h).length = 24 := by
  simp only [codec, Codec.via, Codec.seq, List.length_append, Codec.u64_length, Codec.u32_length]

theorem size_eq : size = 24 := encode_length _

end WALHeader

/-- WAL manager: the log file, the next number to assign and the records not yet written. -/
structure WALManager where
  file : ByteFile
  nextLsn : LSN
  buffer : List WALRecord
  bufferSize : ℕ
  fsyncEnabled : Bool
  deriving DecidableEq

namespace WALManager

/-- A call on the WAL manager. -/
abbrev Call := EStateM Failure WALManager

/-- A file call whose error is passed on with `?`. -/
def ioCall {α : Type} (act : ByteFile.Io α) : EStateM Failure ByteFile α := fun f =>
  match act f with
  | .ok a f' => .ok a f'
  | .error e f' => .error (.err (.io e)) f'

/-- Run file calls on the file of the manager. -/
def onFile {α : Type} (act : EStateM Failure ByteFile α) : Call α := fun m =>
  match act m.file with
  | .ok a f => .ok a { m with file := f }
  | .error e f => .error e { m with file := f }

/-- `WALManager::create`, on the file that opening with truncation gives. -/
def create (file : ByteFile) (pageSize : UInt32) : EStateM.Result Failure WALManager Unit :=
  onFile
    (do
      ioCall (ByteFile.writeAll (WALHeader.codec.encode (WALHeader.new pageSize)))
      ioCall ByteFile.flush)
    { file, nextLsn := 1, buffer := [], bufferSize := 1000, fsyncEnabled := true }

/-! ## Opening -/

/-- The loop of `open`: read a header, skip the data it announces, remember the next number.
`fuel` bounds the number of headers read. -/
def scan : ℕ → LSN → EStateM Failure ByteFile LSN
  | 0, _ => throw (.panic "out of fuel")
  | fuel + 1, nextLsn => do
    let headerBuf ← ioCall (ByteFile.read WALRecordHeader.size)
    if headerBuf.length = 0 then
      pure nextLsn
    else
      require (WALRecordHeader.size ≤ headerBuf.length)
        (.err (.corruption "Incomplete WAL record header"))
      match WALRecordHeader.codec.deserialize headerBuf with
      | none => throw (.err (.serialization bincodeErrorText))
      | some recordHeader =>
        if recordHeader.dataSize > 0 then
          ioCall (ByteFile.seekForward recordHeader.dataSize.toNat)
        require (recordHeader.lsn.toNat + 1 < 2 ^ 64) (.panic "attempt to add with overflow")
        scan fuel (recordHeader.lsn + 1)

/-- `open` on the file header. -/
def checkHeader : EStateM Failure ByteFile Unit := do
  ioCall (ByteFile.seekStart 0)
  let headerBytes ← ioCall (ByteFile.readExact WALHeader.size)
  match WALHeader.codec.deserialize headerBytes with
  | none => throw (.err (.serialization bincodeErrorText))
  | some header =>
    require (header.magicNumber = (WALHeader.new 0).magicNumber)
      (.err (.corruption "Invalid WAL magic number"))

/-- `WALManager::open`, on the file with its cursor where opening puts it. Every round of the scan
reads a header, so as many rounds as the file has bytes are enough. -/
def openFile (file : ByteFile) : Result WALManager :=
  let recover : EStateM Failure ByteFile LSN := do
    checkHeader
    ioCall (ByteFile.seekStart WALHeader.size)
    scan (file.bytes.length + 1) 0
  match recover { file with cursor := 0 } with
  | .ok nextLsn file => .ok { file, nextLsn, buffer := [], bufferSize := 1000, fsyncEnabled := true }
  | .error e _ => .error e

/-! ## Writing -/

/-- Write records one after another. -/
def writeRecords : List WALRecord → EStateM Failure ByteFile Unit
  | [] => pure ()
  | r :: rs => do
    ioCall (ByteFile.writeAll r.toBytes)
    writeRecords rs

/-- `WALManager::flush_buffer`. The buffer is drained before the first write. -/
def flushBuffer : Call Unit := do
  let m ← get
  if m.buffer = [] then
    pure ()
  else
    set { m with buffer := [] }
    onFile do
      ioCall ByteFile.seekEnd
      writeRecords m.buffer
      ioCall ByteFile.flush
      if m.fsyncEnabled then ioCall ByteFile.syncAll

/-- Give a record its number. -/
def stamp (lsn : LSN) (r : WALRecord) : WALRecord :=
  { r with header := { r.header with lsn } }

/-- `WALManager::append_record`. -/
def appendRecord (record : WALRecord) : Call LSN := do
  let lsn := (← get).nextLsn
  require (lsn.toNat + 1 < 2 ^ 64) (.panic "attempt to add with overflow")
  modify fun m => { m with nextLsn := lsn + 1, buffer := m.buffer ++ [stamp lsn record] }
  let m ← get
  if m.buffer.length ≥ m.bufferSize then flushBuffer
  pure lsn

/-- The record that `checkpoint` appends: it announces eight bytes of data and has none. -/
def checkpointRecord (lsn : LSN) : WALRecord where
  header :=
    { lsn, prevLsn := none, transactionId := 0, recordType := .checkpoint, dataSize := 8,
      checksum := 0 }
  data := none

/-- `WALManager::checkpoint`; the LSN it is given is not used. -/
def checkpoint (_lsn : LSN) : Call Unit := do
  flushBuffer
  let next := (← get).nextLsn
  let _ ← appendRecord (checkpointRecord next)

/-! ## Runs -/

/-- The calls that a log sees between creation and closing. -/
inductive WalOp
  | append (record : WALRecord)
  | checkpoint (lsn : LSN)
  | flush

/-- The record that a call appends, up to its number. -/
def WalOp.record : WalOp → Option WALRecord
  | .append record => some record
  | .checkpoint _ => some (checkpointRecord 0)
  | .flush => none

/-- Make one call; the result is the number it assigned, if any. -/
def step : WalOp → Call (Option LSN)
  | .append record => some <$> appendRecord record
  | .checkpoint lsn => do
    let next := (← get).nextLsn
    checkpoint lsn
    pure (some next)
  | .flush => do
    flushBuffer
    pure none

/-- Make calls in order; the result is the list of assigned numbers. -/
def run : List WalOp → Call (List LSN)
  | [] => pure []
  | op :: ops => do
    let lsn ← step op
    let lsns ← run ops
    pure (lsn.toList ++ lsns)

/-! ## What the writer leaves in the file -/

theorem ioCall_ok {α : Type} {act : ByteFile.Io α} {f f' : ByteFile} {a : α}
    (h : act f = .ok a f') : ioCall act f = .ok a f' := by
  simp only [ioCall, h]

theorem onFile_ok {α : Type} {act : EStateM Failure ByteFile α} {m : WALManager} {f : ByteFile}
    {a : α} (h : act m.file = .ok a f) : onFile act m = .ok a { m with file := f } := by
  simp only [onFile, h]

/-- Records written at the end of a file are appended to it. -/
theorem writeRecords_run (rs : List WALRecord) (bytes : List UInt8) :
    ∃ cursor, writeRecords rs ⟨bytes, bytes.length, []⟩ =
      .ok () ⟨bytes ++ rs.flatMap WALRecord.toBytes, cursor, []⟩ := by
  induction rs generalizing bytes with
  | nil => exact ⟨bytes.length, by rw [List.flatMap_nil, List.append_nil]; rfl⟩
  | cons r rs ih =>
    have hwrite : ioCall (ByteFile.writeAll r.toBytes) ⟨bytes, bytes.length, []⟩ =
        .ok () ⟨bytes ++ r.toBytes, (bytes ++ r.toBytes).length, []⟩ := by
      refine ioCall_ok ((ByteFile.writeAll_run rfl _).trans ?_)
      rw [ByteFile.store, ByteFile.overwrite_end, List.length_append]
    obtain ⟨cursor, hrest⟩ := ih (bytes ++ r.toBytes)
    refine ⟨cursor, ?_⟩
    rw [writeRecords, bind_of_ok hwrite, hrest, List.flatMap_cons, List.append_assoc]

/-- A flush moves the buffer to the end of the file. -/
theorem flushBuffer_run {m : WALManager} (hf : m.file.faults = []) :
    ∃ file : ByteFile, file.faults = [] ∧
      file.bytes = m.file.bytes ++ m.buffer.flatMap WALRecord.toBytes ∧
      flushBuffer m = .ok () { m with file, buffer := [] } := by
  by_cases hempty : m.buffer = []
  · refine ⟨m.file, hf, by rw [hempty, List.flatMap_nil, List.append_nil], ?_⟩
    rw [flushBuffer, get_bind, if_pos hempty, ← hempty]
    rfl
  · obtain ⟨cursor, hwrite⟩ := writeRecords_run m.buffer m.file.bytes
    refine ⟨⟨m.file.bytes ++ m.buffer.flatMap WALRecord.toBytes, cursor, []⟩, rfl, rfl, ?_⟩
    have hseek : ioCall ByteFile.seekEnd m.file = .ok () ⟨m.file.bytes, m.file.bytes.length, []⟩ := by
      refine ioCall_ok ((ByteFile.seekEnd_run hf).trans ?_)
      rw [hf]
    have hflush := ioCall_ok (ByteFile.flush_run
      (f := ⟨m.file.bytes ++ m.buffer.flatMap WALRecord.toBytes, cursor, []⟩) rfl)
    rw [flushBuffer, get_bind, if_neg hempty]
    refine (bind_of_ok rfl).trans (onFile_ok ?_)
    refine (bind_of_ok hseek).trans ((bind_of_ok hwrite).trans ((bind_of_ok hflush).trans ?_))
    by_cases hsync : m.fsyncEnabled = true
    · rw [if_pos hsync]
      exact ioCall_ok (ByteFile.syncAll_run rfl)
    · rw [if_neg hsync]
      rfl

/-- The records numbered from `n`. -/
def stampFrom : ℕ → List WALRecord → List WALRecord
  | _, [] => []
  | n, r :: rs => stamp (UInt64.ofNat n) r :: stampFrom (n + 1) rs

theorem stampFrom_append (n : ℕ) (rs : List WALRecord) (r : WALRecord) :
    stampFrom n (rs ++ [r]) = stampFrom n rs ++ [stamp (UInt64.ofNat (n + rs.length)) r] := by
  induction rs generalizing n with
  | nil => rfl
  | cons r' rs ih =>
    rw [List.cons_append, stampFrom, ih, stampFrom, List.cons_append, List.length_cons,
      Nat.add_right_comm, Nat.add_assoc]

/-- The file and the buffer together hold the file header and the records `rs` numbered from 1. -/
structure Logged (pageSize : UInt32) (rs : List WALRecord) (m : WALManager) : Prop where
  faults : m.file.faults = []
  next : m.nextLsn.toNat = rs.length + 1
  split : ∃ flushed, flushed ++ m.buffer = stampFrom 1 rs ∧
    m.file.bytes = WALHeader.codec.encode (WALHeader.new pageSize) ++
      flushed.flatMap WALRecord.toBytes

/-- What `create` leaves. -/
def created (pageSize : UInt32) : WALManager where
  file := ByteFile.store (WALHeader.codec.encode (WALHeader.new pageSize)) .empty
  nextLsn := 1
  buffer := []
  bufferSize := 1000
  fsyncEnabled := true

theorem create_run (pageSize : UInt32) : create .empty pageSize = .ok () (created pageSize) := by
  rw [create, created]
  generalize WALHeader.codec.encode (WALHeader.new pageSize) = header
  rfl

theorem created_bytes (pageSize : UInt32) :
    (created pageSize).file.bytes = WALHeader.codec.encode (WALHeader.new pageSize) := by
  simp only [created, ByteFile.store, ByteFile.empty]
  exact (ByteFile.overwrite_end [] _).trans (List.nil_append _)

theorem create_logged {pageSize : UInt32} {m : WALManager}
    (h : create .empty pageSize = .ok () m) : Logged pageSize [] m := by
  rw [create_run] at h
  obtain ⟨-, rfl⟩ := (EStateM.Result.ok.injEq ..).mp h
  exact ⟨rfl, rfl, [], rfl, by rw [created_bytes, List.flatMap_nil, List.append_nil]⟩

theorem flushBuffer_logged {pageSize : UInt32} {rs : List WALRecord} {m : WALManager}
    (h : Logged pageSize rs m) :
    ∃ m', flushBuffer m = .ok () m' ∧ Logged pageSize rs m' ∧ m'.nextLsn = m.nextLsn ∧
      m'.buffer = [] := by
  obtain ⟨flushed, hsplit, hbytes⟩ := h.split
  obtain ⟨file, hfaults, hfile, hrun⟩ := flushBuffer_run h.faults
  refine ⟨_, hrun, ⟨hfaults, h.next, stampFrom 1 rs, List.append_nil _, ?_⟩, rfl, rfl⟩
  show file.bytes = _
  rw [hfile, hbytes, ← hsplit, List.flatMap_append, List.append_assoc]

theorem appendRecord_logged {pageSize : UInt32} {rs : List WALRecord} {m m' : WALManager}
    {r : WALRecord} {lsn : LSN} (h : Logged pageSize rs m)
    (hrun : appendRecord r m = .ok lsn m') : Logged pageSize (rs ++ [r]) m' ∧ lsn = m.nextLsn := by
  obtain ⟨flushed, hsplit, hbytes⟩ := h.split
  rw [appendRecord, get_bind] at hrun
  by_cases hfit : m.nextLsn.toNat + 1 < 2 ^ 64
  · rw [bind_of_ok (require_of hfit _ _)] at hrun
    set m₁ : WALManager :=
      { m with nextLsn := m.nextLsn + 1, buffer := m.buffer ++ [stamp m.nextLsn r] } with hm₁
    have hlogged : Logged pageSize (rs ++ [r]) m₁ := by
      refine ⟨h.faults, ?_, flushed, ?_, hbytes⟩
      · show (m.nextLsn + 1).toNat = _
        rw [UInt64.toNat_add, h.next, List.length_append]
        have : rs.length + 1 + 1 < 2 ^ 64 := h.next ▸ hfit
        exact Nat.mod_eq_of_lt this
      · have hn : UInt64.ofNat (1 + rs.length) = m.nextLsn := by
          rw [Nat.add_comm, ← h.next, UInt64.ofNat_toNat]
        rw [stampFrom_append, ← hsplit, hn, List.append_assoc]
    have hrest : (if m₁.buffer.length ≥ m₁.bufferSize then
        flushBuffer >>= fun _ => (pure m.nextLsn : Call LSN) else pure m.nextLsn) m₁ =
        .ok lsn m' := hrun
    split at hrest
    · obtain ⟨m₂, hflush, hlogged', -, -⟩ := flushBuffer_logged hlogged
      rw [bind_of_ok hflush] at hrest
      obtain ⟨rfl, rfl⟩ := (EStateM.Result.ok.injEq ..).mp hrest
      exact ⟨hlogged', rfl⟩
    · obtain ⟨rfl, rfl⟩ := (EStateM.Result.ok.injEq ..).mp hrest
      exact ⟨hlogged, rfl⟩
  · rw [bind_of_error (require_of_not hfit _ _)] at hrun
    cases hrun

theorem checkpoint_logged {pageSize : UInt32} {rs : List WALRecord} {m m' : WALManager} {lsn : LSN}
    (h : Logged pageSize rs m) (hrun : checkpoint lsn m = .ok () m') :
    Logged pageSize (rs ++ [checkpointRecord 0]) m' := by
  obtain ⟨m₁, hflush, hlogged, -, -⟩ := flushBuffer_logged h
  rw [checkpoint, bind_of_ok hflush, get_bind] at hrun
  obtain ⟨lsn', m₂, happend, hdone⟩ := bind_eq_ok.mp hrun
  obtain ⟨-, rfl⟩ := (EStateM.Result.ok.injEq ..).mp hdone
  obtain ⟨hfaults, hnext, flushed, hsplit, hbytes⟩ := (appendRecord_logged hlogged happend).1
  refine ⟨hfaults, ?_, flushed, ?_, hbytes⟩
  · rw [hnext, List.length_append, List.length_append]
    rfl
  · rw [hsplit, stampFrom_append, stampFrom_append]
    rfl

/-- One call: the log holds what it held and the record that the call appends; the number assigned
is the next one. -/
theorem step_logged {pageSize : UInt32} {rs : List WALRecord} {m m' : WALManager} {op : WalOp}
    {lsn : Option LSN} (h : Logged pageSize rs m) (hrun : step op m = .ok lsn m') :
    Logged pageSize (rs ++ op.record.toList) m' ∧ ∀ l ∈ lsn, l < m'.nextLsn := by
  have hlt : ∀ {r : WALRecord} {m₁ : WALManager}, Logged pageSize (rs ++ [r]) m₁ →
      m.nextLsn < m₁.nextLsn := by
    intro r m₁ h₁
    rw [UInt64.lt_iff_toNat_lt, h.next, h₁.next, List.length_append]
    exact Nat.lt_succ_self _
  cases op with
  | append r =>
    obtain ⟨l, m₁, happend, hdone⟩ := bind_eq_ok.mp hrun
    obtain ⟨rfl, rfl⟩ := (EStateM.Result.ok.injEq ..).mp hdone
    obtain ⟨hlogged, rfl⟩ := appendRecord_logged h happend
    refine ⟨hlogged, ?_⟩
    rintro l' ⟨⟩
    exact hlt hlogged
  | checkpoint lsn' =>
    rw [step, get_bind] at hrun
    obtain ⟨_, m₁, hcheckpoint, hdone⟩ := bind_eq_ok.mp hrun
    obtain ⟨rfl, rfl⟩ := (EStateM.Result.ok.injEq ..).mp hdone
    have hlogged := checkpoint_logged h hcheckpoint
    refine ⟨hlogged, ?_⟩
    rintro l' ⟨⟩
    exact hlt hlogged
  | flush =>
    obtain ⟨m₁, hflush, hlogged, -, -⟩ := flushBuffer_logged h
    rw [step, bind_of_ok hflush] at hrun
    obtain ⟨rfl, rfl⟩ := (EStateM.Result.ok.injEq ..).mp hrun
    refine ⟨by rwa [WalOp.record, Option.toList_none, List.append_nil], ?_⟩
    rintro l' ⟨⟩

/-- A whole run: the log holds the appended records in order, and every number assigned is below
the next one. -/
theorem run_logged {pageSize : UInt32} {ops : List WalOp} {rs : List WALRecord}
    {m m' : WALManager} {lsns : List LSN} (h : Logged pageSize rs m)
    (hrun : run ops m = .ok lsns m') :
    Logged pageSize (rs ++ ops.filterMap WalOp.record) m' ∧ ∀ l ∈ lsns, l < m'.nextLsn := by
  induction ops generalizing rs m lsns with
  | nil =>
    obtain ⟨rfl, rfl⟩ := (EStateM.Result.ok.injEq ..).mp hrun
    refine ⟨by rwa [List.filterMap_nil, List.append_nil], ?_⟩
    rintro l ⟨⟩
  | cons op ops ih =>
    obtain ⟨lsn, m₁, hstep, htail⟩ := bind_eq_ok.mp hrun
    obtain ⟨lsns', m₂, hrest, hdone⟩ := bind_eq_ok.mp htail
    obtain ⟨rfl, rfl⟩ := (EStateM.Result.ok.injEq ..).mp hdone
    obtain ⟨hlogged, hlsn⟩ := step_logged h hstep
    obtain ⟨hlogged', hlsns⟩ := ih hlogged hrest
    have hrecords : (op :: ops).filterMap WalOp.record =
        op.record.toList ++ ops.filterMap WalOp.record := by
      cases hop : op.record <;> simp [hop]
    refine ⟨by rwa [hrecords, ← List.append_assoc], ?_⟩
    intro l hl
    rcases List.mem_append.mp hl with hl | hl
    · have hmono : m₁.nextLsn ≤ m₂.nextLsn := by
        have hnext := hlogged'.next
        rw [List.length_append] at hnext
        rw [UInt64.le_iff_toNat_le, hlogged.next, hnext]
        omega
      exact UInt64.lt_of_lt_of_le (hlsn l (by simpa using hl)) hmono
    · exact hlsns l hl

/-! ## What the scan recovers -/

/-- The records that the scan steps over: no header is longer than the scan assumes, every record
but the last has as many bytes of data as it announces, and the last has no more. -/
structure Aligned (rs : List WALRecord) : Prop where
  nonempty : rs ≠ []
  unlinked : ∀ r ∈ rs, r.header.prevLsn = none
  exact : ∀ r ∈ rs.dropLast, r.payload.length = r.header.dataSize.toNat
  last : ∀ r ∈ rs.getLast?, r.payload.length ≤ r.header.dataSize.toNat

theorem Aligned.tail {r r' : WALRecord} {rs : List WALRecord} (h : Aligned (r :: r' :: rs)) :
    Aligned (r' :: rs) where
  nonempty := List.cons_ne_nil _ _
  unlinked := fun x hx => h.unlinked x (List.mem_cons_of_mem _ hx)
  exact := fun x hx => h.exact x (by
    rw [List.dropLast_cons_of_ne_nil (List.cons_ne_nil _ _)]
    exact List.mem_cons_of_mem _ hx)
  last := fun x hx => h.last x (by rwa [List.getLast?_cons_cons])

/-- At the end of the file the scan stops. -/
theorem scan_end {f : ByteFile} (hf : f.faults = []) (hend : f.bytes.length ≤ f.cursor)
    (fuel : ℕ) (nextLsn : LSN) : ∃ f', scan (fuel + 1) nextLsn f = .ok nextLsn f' := by
  have hread := ioCall_ok (ByteFile.read_run hf WALRecordHeader.size)
  rw [List.drop_eq_nil_of_le hend, List.take_nil] at hread
  exact ⟨_, by rw [scan, bind_of_ok hread, if_pos List.length_nil]; rfl⟩

/-- At a record whose header is as short as assumed the scan takes over its number and skips the
data that it announces. -/
theorem scan_record {f : ByteFile} (hf : f.faults = []) {r : WALRecord} {rest : List UInt8}
    (hprev : r.header.prevLsn = none) (hbytes : f.bytes.drop f.cursor = r.toBytes ++ rest)
    (hlsn : r.header.lsn.toNat + 1 < 2 ^ 64) (fuel : ℕ) (nextLsn : LSN) :
    scan (fuel + 1) nextLsn f = scan fuel (r.header.lsn + 1)
      { f with cursor := f.cursor + WALRecordHeader.size + r.header.dataSize.toNat } := by
  set header := r.updateChecksum.header with hheader
  have hhead : (WALRecordHeader.codec.encode header).length = WALRecordHeader.size :=
    WALRecordHeader.encode_length_of_none hprev
  have hread := ioCall_ok (ByteFile.read_run hf WALRecordHeader.size)
  rw [hbytes, WALRecord.toBytes, List.append_assoc, List.take_left' hhead, hhead] at hread
  have hdes : WALRecordHeader.codec.deserialize (WALRecordHeader.codec.encode header) =
      some header := Codec.deserialize_encode' _ (WALRecordHeader.valid _)
  have hne : ¬ (WALRecordHeader.codec.encode header).length = 0 := by
    rw [hhead, WALRecordHeader.size_eq]
    decide
  rw [scan, bind_of_ok hread, if_neg hne, bind_of_ok (require_of hhead.ge _ _), hdes]
  set afterHeader : ByteFile := { f with cursor := f.cursor + WALRecordHeader.size }
  -- with and without data to skip, the number is taken over at the same place
  have hnext : ∀ f' : ByteFile, (require (header.lsn.toNat + 1 < 2 ^ 64)
      (.panic "attempt to add with overflow") >>= fun _ => scan fuel (header.lsn + 1)) f' =
        scan fuel (r.header.lsn + 1) f' :=
    fun f' => bind_of_ok (require_of hlsn _ _)
  by_cases hdata : header.dataSize > 0
  · have hseek := ioCall_ok (ByteFile.seekForward_run (f := afterHeader) hf header.dataSize.toNat)
    refine (congrFun (if_pos hdata) _).trans ((bind_of_ok hseek).trans (hnext _))
  · have hzero : r.header.dataSize.toNat = 0 := by
      have hnot : ¬ 0 < r.header.dataSize.toNat := fun h => hdata (UInt32.lt_iff_toNat_lt.mpr h)
      omega
    rw [hzero, Nat.add_zero]
    exact (congrFun (if_neg hdata) _).trans (hnext _)

theorem length_toBytes {r : WALRecord} (hprev : r.header.prevLsn = none) :
    r.toBytes.length = WALRecordHeader.size + r.payload.length := by
  have hhead : (WALRecordHeader.codec.encode r.updateChecksum.header).length =
      WALRecordHeader.size := WALRecordHeader.encode_length_of_none hprev
  rw [WALRecord.toBytes, List.length_append, hhead]

/-- The scan of aligned records ends behind the last number. -/
theorem scan_stampFrom {rs : List WALRecord} (h : Aligned rs) {n fuel : ℕ}
    (hn : n + rs.length < 2 ^ 64) (hfuel : rs.length < fuel) {f : ByteFile} (hf : f.faults = [])
    (hbytes : f.bytes.drop f.cursor = (stampFrom n rs).flatMap WALRecord.toBytes)
    (hcursor : f.cursor ≤ f.bytes.length) (nextLsn : LSN) :
    ∃ f', scan fuel nextLsn f = .ok (UInt64.ofNat (n + rs.length)) f' := by
  induction rs generalizing n fuel f nextLsn with
  | nil => exact absurd rfl h.nonempty
  | cons r rs ih =>
    rw [List.length_cons] at hn hfuel
    obtain ⟨k, rfl⟩ := Nat.exists_eq_add_of_lt hfuel
    set r₁ := stamp (UInt64.ofNat n) r with hr₁
    have hprev : r₁.header.prevLsn = none := h.unlinked r List.mem_cons_self
    have hnat : r₁.header.lsn.toNat = n :=
      UInt64.toNat_ofNat_of_lt' (show n < 2 ^ 64 by omega)
    have hnext : r₁.header.lsn + 1 = UInt64.ofNat (n + 1) := (UInt64.ofNat_add n 1).symm
    rw [stampFrom, List.flatMap_cons] at hbytes
    have hlen : r₁.toBytes.length = WALRecordHeader.size + r.payload.length := length_toBytes hprev
    have hfile := congrArg List.length hbytes
    rw [List.length_drop, List.length_append, hlen] at hfile
    rw [scan_record hf hprev hbytes (by omega), hnext]
    cases rs with
    | nil =>
      -- the data announced by the last record may reach past the end of the file
      have hlast : r.payload.length ≤ r.header.dataSize.toNat := h.last r rfl
      rw [stampFrom, List.flatMap_nil, List.length_nil, Nat.add_zero] at hfile
      obtain ⟨f', hscan⟩ := scan_end (f := { f with
        cursor := f.cursor + WALRecordHeader.size + r.header.dataSize.toNat }) hf
        (show f.bytes.length ≤ f.cursor + WALRecordHeader.size + r.header.dataSize.toNat by omega)
        k (UInt64.ofNat (n + 1))
      refine ⟨f', ?_⟩
      rw [List.length_nil, Nat.zero_add, Nat.add_comm 1 k]
      exact hscan
    | cons r' rs =>
      have hexact : r.payload.length = r.header.dataSize.toNat :=
        h.exact r (by rw [List.dropLast_cons_of_ne_nil (List.cons_ne_nil _ _)]; exact List.mem_cons_self)
      have hbytes' : f.bytes.drop (f.cursor + WALRecordHeader.size + r.header.dataSize.toNat) =
          (stampFrom (n + 1) (r' :: rs)).flatMap WALRecord.toBytes := by
        rw [Nat.add_assoc, ← List.drop_drop, hbytes, ← hexact, ← hlen, List.drop_left]
      have hcursor' : f.cursor + WALRecordHeader.size + r.header.dataSize.toNat ≤
          f.bytes.length := by omega
      have hlt : n + 1 + (r' :: rs).length < 2 ^ 64 := by omega
      obtain ⟨f', hscan⟩ := ih h.tail hlt (f := { f with
        cursor := f.cursor + WALRecordHeader.size + r.header.dataSize.toNat })
        (Nat.lt_add_of_pos_right k.succ_pos) hf hbytes' hcursor' (UInt64.ofNat (n + 1))
      refine ⟨f', ?_⟩
      have hrounds : (r' :: rs).length + 1 + k = (r' :: rs).length + k.succ := by omega
      have hlast : n + (r :: r' :: rs).length = n + 1 + (r' :: rs).length := by
        rw [List.length_cons]
        omega
      rw [hrounds, hlast]
      exact hscan

theorem checkHeader_run {file : ByteFile} (hf : file.faults = []) {pageSize : UInt32}
    {rest : List UInt8}
    (hbytes : file.bytes = WALHeader.codec.encode (WALHeader.new pageSize) ++ rest) :
    checkHeader file = .ok () { file with cursor := WALHeader.size } := by
  have hlen : (WALHeader.codec.encode (WALHeader.new pageSize)).length = WALHeader.size := by
    rw [WALHeader.size_eq, WALHeader.encode_length]
  have hseek := ioCall_ok (ByteFile.seekStart_run hf (show 0 < 2 ^ 63 by decide))
  have hfits : WALHeader.size ≤ (file.bytes.drop 0).length := by
    rw [List.drop_zero, hbytes, List.length_append, hlen]
    exact Nat.le_add_right _ _
  have hread := ioCall_ok (ByteFile.readExact_run (f := { file with cursor := 0 }) hf hfits)
  have htake : (file.bytes.drop 0).take WALHeader.size =
      WALHeader.codec.encode (WALHeader.new pageSize) := by
    rw [List.drop_zero, hbytes, List.take_left' hlen]
  have hdes : WALHeader.codec.deserialize (WALHeader.codec.encode (WALHeader.new pageSize)) =
      some (WALHeader.new pageSize) := Codec.deserialize_encode' _ (WALHeader.valid _)
  rw [checkHeader, bind_of_ok hseek, bind_of_ok hread, htake, hdes, Nat.zero_add]
  exact require_of rfl _ _

/-- Each record takes at least a header. -/
theorem length_le_flatMap (n : ℕ) (rs : List WALRecord) :
    rs.length ≤ ((stampFrom n rs).flatMap WALRecord.toBytes).length := by
  induction rs generalizing n with
  | nil => exact Nat.zero_le _
  | cons r rs ih =>
    have hhead := WALRecordHeader.encode_length (stamp (UInt64.ofNat n) r).updateChecksum.header
    rw [stampFrom, List.flatMap_cons, List.length_append, WALRecord.toBytes, List.length_append,
      hhead, List.length_cons]
    have := ih (n + 1)
    omega

/-- Opening a file that holds aligned records finds the number behind the last one. -/
theorem openFile_logged {pageSize : UInt32} {rs : List WALRecord} {m : WALManager}
    (h : Logged pageSize rs m) (hflushed : m.buffer = []) (hrs : Aligned rs) :
    ∃ m', openFile m.file = .ok m' ∧ m'.nextLsn = m.nextLsn := by
  obtain ⟨flushed, hsplit, hbytes⟩ := h.split
  rw [hflushed, List.append_nil] at hsplit
  rw [hsplit] at hbytes
  have hlen : (WALHeader.codec.encode (WALHeader.new pageSize)).length = WALHeader.size := by
    rw [WALHeader.size_eq, WALHeader.encode_length]
  have hnext : 1 + rs.length < 2 ^ 64 := by
    rw [Nat.add_comm, ← h.next]
    exact m.nextLsn.toNat_lt
  have hcheck : checkHeader { m.file with cursor := 0 } =
      .ok () { m.file with cursor := WALHeader.size } := checkHeader_run h.faults hbytes
  have hseek := ioCall_ok (ByteFile.seekStart_run (f := { m.file with cursor := WALHeader.size })
    h.faults (show WALHeader.size < 2 ^ 63 by rw [WALHeader.size_eq]; decide))
  have hdrop : m.file.bytes.drop WALHeader.size = (stampFrom 1 rs).flatMap WALRecord.toBytes := by
    rw [hbytes, List.drop_left' hlen]
  have hcursor : WALHeader.size ≤ m.file.bytes.length := by
    rw [hbytes, List.length_append, hlen]
    exact Nat.le_add_right _ _
  have hfuel : rs.length < m.file.bytes.length + 1 := by
    have hrecords := length_le_flatMap 1 rs
    rw [hbytes, List.length_append]
    omega
  obtain ⟨f', hscan⟩ := scan_stampFrom hrs hnext hfuel
    (f := { m.file with cursor := WALHeader.size }) h.faults hdrop hcursor 0
  have hlsn : UInt64.ofNat (1 + rs.length) = m.nextLsn := by
    rw [Nat.add_comm, ← h.next, UInt64.ofNat_toNat]
  rw [hlsn] at hscan
  refine ⟨⟨f', m.nextLsn, [], 1000, true⟩, ?_, rfl⟩
  simp only [openFile]
  rw [bind_of_ok hcheck, bind_of_ok hseek, hscan]

/-! ## Numbers across a restart -/

theorem run_append {ops ops' : List WalOp} {m m'' : WALManager} {lsns : List LSN}
    (h : run (ops ++ ops') m = .ok lsns m'') :
    ∃ lsns₁ m' lsns₂, run ops m = .ok lsns₁ m' ∧ run ops' m' = .ok lsns₂ m'' := by
  induction ops generalizing m lsns with
  | nil => exact ⟨[], m, lsns, rfl, h⟩
  | cons op ops ih =>
    obtain ⟨lsn, m₁, hstep, htail⟩ := bind_eq_ok.mp h
    obtain ⟨lsns', m₂, hrest, hdone⟩ := bind_eq_ok.mp htail
    obtain ⟨-, rfl⟩ := (EStateM.Result.ok.injEq ..).mp hdone
    obtain ⟨lsns₁, m', lsns₂, hfirst, hsecond⟩ := ih hrest
    exact ⟨_, m', lsns₂, bind_eq_ok.mpr ⟨lsn, m₁, hstep, bind_eq_ok.mpr ⟨lsns₁, m', hfirst, rfl⟩⟩,
      hsecond⟩

/-- A run that ends in a flush leaves nothing in the buffer. -/
theorem buffer_of_flushed {pageSize : UInt32} {ops : List WalOp} {rs : List WALRecord}
    {m m' : WALManager} {lsns : List LSN} (h : Logged pageSize rs m)
    (hrun : run (ops ++ [.flush]) m = .ok lsns m') : m'.buffer = [] := by
  obtain ⟨_, m₁, _, hops, hflush⟩ := run_append hrun
  obtain ⟨m₂, hflush', -, -, hempty⟩ := flushBuffer_logged (run_logged h hops).1
  obtain ⟨lsn, m₃, hstep, htail⟩ := bind_eq_ok.mp hflush
  obtain ⟨_, m₄, hnil, hdone⟩ := bind_eq_ok.mp htail
  rw [step, bind_of_ok hflush'] at hstep
  obtain ⟨-, rfl⟩ := (EStateM.Result.ok.injEq ..).mp hstep
  obtain ⟨-, rfl⟩ := (EStateM.Result.ok.injEq ..).mp hnil
  obtain ⟨-, rfl⟩ := (EStateM.Result.ok.injEq ..).mp hdone
  exact hempty

/-- A log that was created, used and flushed, and whose records are aligned, opens again with the
next number of the closed manager, which is above every number assigned. -/
theorem openFile_nextLsn {pageSize : UInt32} {ops : List WalOp} {m₀ m : WALManager}
    {lsns : List LSN} (hcreate : create .empty pageSize = .ok () m₀)
    (hrun : run (ops ++ [.flush]) m₀ = .ok lsns m) (h : Aligned (ops.filterMap WalOp.record)) :
    ∃ m', openFile m.file = .ok m' ∧ m'.nextLsn = m.nextLsn ∧ ∀ l ∈ lsns, l < m'.nextLsn := by
  have hcreated := create_logged hcreate
  obtain ⟨hlogged, hlsns⟩ := run_logged hcreated hrun
  have hflush : [WalOp.flush].filterMap WalOp.record = [] := rfl
  rw [List.nil_append, List.filterMap_append, hflush, List.append_nil] at hlogged
  obtain ⟨m', hopen, hnext⟩ := openFile_logged hlogged (buffer_of_flushed hcreated hrun) h
  exact ⟨m', hopen, hnext, by rwa [hnext]⟩

/-- A log of one begin record. -/
theorem openFile_nextLsn_begin :
    ∃ m lsns, run ([.append (.begin 1 0)] ++ [.flush]) (created 8192) = .ok lsns m ∧
      ∃ m', openFile m.file = .ok m' ∧ m'.nextLsn = m.nextLsn ∧ ∀ l ∈ lsns, l < m'.nextLsn := by
  have hrun : ∃ lsns m, run ([.append (.begin 1 0)] ++ [.flush]) (created 8192) = .ok lsns m :=
    ⟨_, _, rfl⟩
  obtain ⟨lsns, m, hrun⟩ := hrun
  refine ⟨m, lsns, hrun, openFile_nextLsn (create_run 8192) hrun
    ⟨by decide, by decide, by decide, ?_⟩⟩
  rintro r ⟨⟩
  decide

/-- An empty log opens with number 0, which the writer never assigns. -/
example : ∃ m', openFile (created 8192).file = .ok m' ∧ m'.nextLsn = 0 := ⟨_, rfl, rfl⟩

/-- The log of `test_wal_manager`: begin, insert and commit, each linked to the one before. -/
def linkedLog : List WalOp :=
  [.append (.begin 1 0), .append (.insert 1 0 (some 1) 1 0 [100, 97, 116, 97]),
    .append (.commit 1 0 (some 2))]

set_option maxRecDepth 20000 in
/-- That log does not open again. -/
theorem linkedLog_lost :
    ∃ m₀ m lsns, create .empty 8192 = .ok () m₀ ∧ run (linkedLog ++ [.flush]) m₀ = .ok lsns m ∧
      openFile m.file = .error (.err (.serialization bincodeErrorText)) :=
  ⟨_, _, _, create_run 8192, rfl, rfl⟩

end WALManager

end Rustgresql
