import Rustgresql.Basic
import Rustgresql.Lib.Wire
import Rustgresql.Lib.Crc32c

/-!
# Write-ahead log records (`transaction/wal.rs`)

A record is a header and, for modifications and DDL, a payload. The encoder and the decoder of the
source do not agree: `to_bytes` writes a header of 29 or 37 bytes and puts the `WALRecordData` tag
before the payload, `from_bytes` always reads 29 bytes of header and expects no tag.

`WALRecord.roundTrip_iff` says which records survive the disagreement: those without a previous LSN
that carry no payload, or one that consists of zero bytes only.
-/

namespace Rustgresql

open Wire

/-- WAL record types. -/
inductive WALRecordType
  | begin
  | commit
  | abort
  | insert
  | update
  | delete
  | checkpoint
  | createTable
  | dropTable
  | createIndex
  | dropIndex
  | alterTableAddColumn
  | alterTableDropColumn
  | alterTableAddConstraint
  | alterTableDropConstraint
  | schemaVersionChange
  | tableMetadataUpdate
  | columnMetadataUpdate
  | indexMetadataUpdate
  deriving DecidableEq, Repr

namespace WALRecordType

/-- All record types in the order of their variant indices. -/
def all : List WALRecordType :=
  [.begin, .commit, .abort, .insert, .update, .delete, .checkpoint, .createTable, .dropTable,
    .createIndex, .dropIndex, .alterTableAddColumn, .alterTableDropColumn, .alterTableAddConstraint,
    .alterTableDropConstraint, .schemaVersionChange, .tableMetadataUpdate, .columnMetadataUpdate,
    .indexMetadataUpdate]

/-- The variant index under which `bincode` stores a record type. -/
def index (t : WALRecordType) : UInt32 := UInt32.ofNat (all.idxOf t)

/-- The record type stored under a variant index. -/
def ofIndex (i : UInt32) : Option WALRecordType := all.find? (·.index = i)

/-- The `Debug` text of a record type. -/
def debug : WALRecordType → String
  | .begin => "Begin"
  | .commit => "Commit"
  | .abort => "Abort"
  | .insert => "Insert"
  | .update => "Update"
  | .delete => "Delete"
  | .checkpoint => "Checkpoint"
  | .createTable => "CreateTable"
  | .dropTable => "DropTable"
  | .createIndex => "CreateIndex"
  | .dropIndex => "DropIndex"
  | .alterTableAddColumn => "AlterTableAddColumn"
  | .alterTableDropColumn => "AlterTableDropColumn"
  | .alterTableAddConstraint => "AlterTableAddConstraint"
  | .alterTableDropConstraint => "AlterTableDropConstraint"
  | .schemaVersionChange => "SchemaVersionChange"
  | .tableMetadataUpdate => "TableMetadataUpdate"
  | .columnMetadataUpdate => "ColumnMetadataUpdate"
  | .indexMetadataUpdate => "IndexMetadataUpdate"

def codec : Codec WALRecordType :=
  Codec.u32.via index ofIndex (by intro t; cases t <;> rfl)

theorem codec_canonical : codec.Canonical :=
  Codec.u32_canonical.via fun a b _ h => by
    have hfound := List.find?_some h
    simpa using hfound

end WALRecordType

/-- WAL record header. -/
structure WALRecordHeader where
  lsn : LSN
  prevLsn : Option LSN
  transactionId : TransactionId
  recordType : WALRecordType
  dataSize : UInt32
  checksum : UInt32
  deriving DecidableEq, Repr

namespace WALRecordHeader

/-- The `bincode` form of a record header. -/
def codec : Codec WALRecordHeader :=
  (Codec.u64.seq <| Codec.u64.option.seq <| Codec.u64.seq <| WALRecordType.codec.seq <|
    Codec.u32.seq Codec.u32).via
    (fun h => (h.lsn, h.prevLsn, h.transactionId, h.recordType, h.dataSize, h.checksum))
    (fun t => some ⟨t.1, t.2.1, t.2.2.1, t.2.2.2.1, t.2.2.2.2.1, t.2.2.2.2.2⟩)
    (fun _ => rfl)

/-- The header whose serialized size the readers take for the size of every header. -/
def dummy : WALRecordHeader :=
  { lsn := 0, prevLsn := none, transactionId := 0, recordType := .begin, dataSize := 0,
    checksum := 0 }

/-- The header size that the readers assume. -/
def size : ℕ := (codec.encode dummy).length

theorem valid (h : WALRecordHeader) : codec.Valid h :=
  ⟨Codec.u64_valid _, fun a _ => Codec.u64_valid a, Codec.u64_valid _, Codec.u32_valid _,
    Codec.u32_valid _, Codec.u32_valid _⟩

theorem codec_canonical : codec.Canonical :=
  (Codec.u64_canonical.seq <| Codec.u64_canonical.option.seq <| Codec.u64_canonical.seq <|
    WALRecordType.codec_canonical.seq <| Codec.u32_canonical.seq Codec.u32_canonical).via
    fun a b _ h => by rw [← Option.some.inj h]

theorem encode_length (h : WALRecordHeader) :
    (codec.encode h).length = 29 + if h.prevLsn.isSome then 8 else 0 := by
  have hprev : (Codec.u64.option.encode h.prevLsn).length =
      1 + if h.prevLsn.isSome then 8 else 0 := by
    cases h.prevLsn with
    | none => rfl
    | some lsn => simp [Codec.option]
  simp only [codec, Codec.via, Codec.seq, List.length_append, hprev, Codec.u64_length,
    Codec.u32_length, WALRecordType.codec]
  omega

theorem size_eq : size = 29 := encode_length _

theorem encode_length_of_none {h : WALRecordHeader} (hprev : h.prevLsn = none) :
    (codec.encode h).length = size := by
  rw [size_eq, encode_length, hprev]
  rfl

theorem size_lt_of_some {h : WALRecordHeader} (hprev : h.prevLsn ≠ none) :
    size < (codec.encode h).length := by
  rw [size_eq, encode_length, if_pos (Option.isSome_iff_ne_none.mpr hprev)]
  decide

end WALRecordHeader

/-- Insert, update and delete data. -/
structure ModifyRecord where
  pageId : PageId
  offset : UInt64
  oldData : Option (List UInt8)
  newData : List UInt8
  deriving DecidableEq, Repr

namespace ModifyRecord

/-- The `bincode` form of modification data. -/
def codec : Codec ModifyRecord :=
  (Codec.u64.seq <| Codec.u64.seq <| Codec.bytes.option.seq Codec.bytes).via
    (fun m => (m.pageId, m.offset, m.oldData, m.newData))
    (fun t => some ⟨t.1, t.2.1, t.2.2.1, t.2.2.2⟩)
    (fun _ => rfl)

theorem codec_canonical : codec.Canonical :=
  (Codec.u64_canonical.seq <| Codec.u64_canonical.seq <| Codec.bytes_canonical.option.seq
    Codec.bytes_canonical).via fun a b _ h => by rw [← Option.some.inj h]

/-- The empty insertion at offset 0 of page 0: its serialized form is all zeros. -/
def zero : ModifyRecord := ⟨0, 0, none, []⟩

theorem zero_valid : codec.Valid zero := by
  refine ⟨Codec.u64_valid _, Codec.u64_valid _, ?_, ?_⟩
  · rintro a ⟨⟩
  · show 0 < 2 ^ 64
    decide

theorem encode_zero : codec.encode zero = List.replicate 25 0 := by decide

/-- At least the two numbers, the tag and the length of the new data. -/
theorem encode_length_ge (m : ModifyRecord) : 25 ≤ (codec.encode m).length := by
  have hold : 1 ≤ (Codec.bytes.option.encode m.oldData).length := by
    cases m.oldData <;> simp [Codec.option]
  have hnew : 8 ≤ (Codec.bytes.encode m.newData).length := by simp [Codec.bytes]
  simp only [codec, Codec.via, Codec.seq, List.length_append, Codec.u64_length]
  omega

/-- A modification that reads back from behind its tag consists of zero bytes. -/
theorem eq_zero_of_tagged {m : ModifyRecord} {rest : List UInt8}
    (h : codec.decode (Codec.u32.encode 0 ++ codec.encode m) = some (m, rest)) : m = zero := by
  obtain ⟨hbytes, hm⟩ := codec_canonical.split h
  have hshift : codec.encode m <+: Codec.u32.encode 0 ++ codec.encode m := ⟨rest, hbytes.symm⟩
  have htag : Codec.u32.encode 0 = List.replicate 4 0 := by decide
  have hzeros : codec.encode m = List.replicate (codec.encode m).length 0 := by
    refine List.ext_getElem? fun i => ?_
    rcases lt_or_ge i (codec.encode m).length with hi | hi
    · rw [Codec.getElem?_of_shift hshift (by simp) hi, htag, List.length_replicate,
        List.getElem?_replicate_of_lt (Nat.mod_lt _ (by decide)),
        List.getElem?_replicate_of_lt hi]
    · rw [List.getElem?_eq_none hi, List.getElem?_eq_none (by simpa using hi)]
  obtain ⟨n, hn⟩ := Nat.exists_eq_add_of_le m.encode_length_ge
  rw [hn, List.replicate_add, ← encode_zero] at hzeros
  have hself := codec.decode_encode hm []
  rw [List.append_nil, hzeros, codec.decode_encode zero_valid] at hself
  exact (congrArg Prod.fst (Option.some.inj hself)).symm

end ModifyRecord

/-- DDL data. -/
structure DdlRecord where
  ddlType : String
  objectName : String
  objectType : String
  schemaName : Option String
  objectDefinition : Option (List UInt8)
  previousDefinition : Option (List UInt8)
  metadata : HashMap String String
  dependents : List String
  deriving DecidableEq

namespace DdlRecord

/-- The `bincode` form of DDL data. -/
def codec : Codec DdlRecord :=
  (Codec.string.seq <| Codec.string.seq <| Codec.string.seq <| Codec.string.option.seq <|
    Codec.bytes.option.seq <| Codec.bytes.option.seq <|
    (Codec.hashMap Codec.string Codec.string).seq Codec.string.vec).via
    (fun d => (d.ddlType, d.objectName, d.objectType, d.schemaName, d.objectDefinition,
      d.previousDefinition, d.metadata, d.dependents))
    (fun t => some ⟨t.1, t.2.1, t.2.2.1, t.2.2.2.1, t.2.2.2.2.1, t.2.2.2.2.2.1, t.2.2.2.2.2.2.1,
      t.2.2.2.2.2.2.2⟩)
    (fun _ => rfl)

/-- Two DDL records agree in every field; their maps may be iterated in different orders. -/
def Same (d e : DdlRecord) : Prop :=
  d.ddlType = e.ddlType ∧ d.objectName = e.objectName ∧ d.objectType = e.objectType ∧
    d.schemaName = e.schemaName ∧ d.objectDefinition = e.objectDefinition ∧
    d.previousDefinition = e.previousDefinition ∧
    (∀ k, d.metadata.lookup k = e.metadata.lookup k) ∧ d.dependents = e.dependents

/-- An accepted DDL record starts with its two names. -/
theorem decode_names {bytes rest : List UInt8} {d : DdlRecord}
    (h : codec.decode bytes = some (d, rest)) :
    ∃ tail, bytes = Codec.bytes.encode (Codec.utf8 d.ddlType) ++
        (Codec.bytes.encode (Codec.utf8 d.objectName) ++ tail) ∧
      (Codec.utf8 d.ddlType).length < 2 ^ 64 ∧ (Codec.utf8 d.objectName).length < 2 ^ 64 := by
  obtain ⟨t, hd, ht⟩ := Codec.via_decode h
  obtain ⟨mid, hd₁, hd⟩ := Codec.seq_decode hd
  obtain ⟨tail, hd₂, -⟩ := Codec.seq_decode hd
  obtain ⟨rfl, hvalid₁⟩ := Codec.string_canonical.split hd₁
  obtain ⟨rfl, hvalid₂⟩ := Codec.string_canonical.split hd₂
  cases ht
  exact ⟨tail, rfl, hvalid₁, hvalid₂⟩

/-- Two byte strings that read back from behind the DDL tag are huge: the tag shifts the length of
the first to `2 ^ 32 + 1` and then the length of the second to `2 ^ 56 + 2 ^ 24`. -/
theorem length_of_shift {type name tail rest : List UInt8} (htype : type.length < 2 ^ 64)
    (hname : name.length < 2 ^ 64)
    (h : Codec.u32.encode 1 ++ (Codec.bytes.encode type ++ (Codec.bytes.encode name ++ tail)) =
      Codec.bytes.encode type ++ (Codec.bytes.encode name ++ rest)) :
    name.length = 2 ^ 56 + 2 ^ 24 := by
  set head := Codec.bytes.encode type with hhead
  have hheadLen : head.length = 8 + type.length := by simp [hhead, Codec.bytes]
  have hnameLen : (Codec.bytes.encode name).length = 8 + name.length := by simp [Codec.bytes]
  have hshift : head ++ Codec.bytes.encode name <+:
      Codec.u32.encode 1 ++ (head ++ Codec.bytes.encode name) := by
    have hread : Codec.u32.encode 1 ++ (head ++ Codec.bytes.encode name ++ tail) =
        head ++ Codec.bytes.encode name ++ rest := by
      rw [List.append_assoc, h, List.append_assoc]
    exact Codec.prefix_of_shift hread
  have htag : Codec.u32.encode 1 = [1, 0, 0, 0] := by decide
  rw [htag] at hshift
  have hlen : type.length = 2 ^ 32 + 1 := by
    have hread := Codec.take_drop_of_shift hshift (by decide) 0 (i := 0) (n := 8)
      (by rw [List.length_append]; omega)
    rw [List.drop_zero] at hread
    have hvalue := Codec.take_bytes htype (Codec.bytes.encode name)
    rw [← hhead, hread] at hvalue
    rw [← hvalue]
    decide
  have hread := Codec.take_drop_of_shift hshift (by decide) 0 (i := 8 + type.length) (n := 8)
    (by rw [List.length_append]; omega)
  rw [List.drop_left' hheadLen, hlen] at hread
  have hvalue := Codec.take_bytes hname []
  rw [List.append_nil, hread] at hvalue
  rw [← hvalue]
  decide

/-- A DDL record that reads back from behind its tag fits in no memory. -/
theorem not_fits_of_tagged {d e : DdlRecord} {rest : List UInt8}
    (h : codec.decode (Codec.u32.encode 1 ++ codec.encode d) = some (e, rest)) (hsame : e.Same d) :
    ¬ (Codec.utf8 d.objectName).length < 2 ^ 56 := by
  obtain ⟨tail, hbytes, htype, hname⟩ := decode_names h
  obtain ⟨htypeEq, hnameEq, -⟩ := hsame
  rw [htypeEq] at hbytes htype
  rw [hnameEq] at hbytes hname
  obtain ⟨tail', hencode⟩ : ∃ tail', codec.encode d = Codec.bytes.encode (Codec.utf8 d.ddlType) ++
      (Codec.bytes.encode (Codec.utf8 d.objectName) ++ tail') := ⟨_, rfl⟩
  rw [hencode] at hbytes
  rw [length_of_shift htype hname hbytes]
  decide

end DdlRecord

/-- Complete WAL record data. -/
inductive WALRecordData
  | modify (m : ModifyRecord)
  | ddl (d : DdlRecord)
  deriving DecidableEq

namespace WALRecordData

/-- The `bincode` form of record data: the variant index and the variant. -/
def encode : WALRecordData → List UInt8
  | .modify m => Codec.u32.encode 0 ++ ModifyRecord.codec.encode m
  | .ddl d => Codec.u32.encode 1 ++ DdlRecord.codec.encode d

/-- Equality of record data, up to the iteration order of the metadata map. -/
def Same : WALRecordData → WALRecordData → Prop
  | .modify m, .modify n => m = n
  | .ddl d, .ddl e => d.Same e
  | _, _ => False

end WALRecordData

/-- Complete WAL record. -/
structure WALRecord where
  header : WALRecordHeader
  data : Option WALRecordData
  deriving DecidableEq

namespace WALRecord

/-! ## Constructors -/

/-- `WALRecord::begin`. -/
def begin (transactionId : TransactionId) (lsn : LSN) : WALRecord where
  header :=
    { lsn, prevLsn := none, transactionId, recordType := .begin, dataSize := 0, checksum := 0 }
  data := none

/-- `WALRecord::commit`. -/
def commit (transactionId : TransactionId) (lsn : LSN) (prevLsn : Option LSN) : WALRecord where
  header := { lsn, prevLsn, transactionId, recordType := .commit, dataSize := 0, checksum := 0 }
  data := none

/-- `WALRecord::abort`. -/
def abort (transactionId : TransactionId) (lsn : LSN) (prevLsn : Option LSN) : WALRecord where
  header := { lsn, prevLsn, transactionId, recordType := .abort, dataSize := 0, checksum := 0 }
  data := none

/-- The record that `insert`, `update` and `delete` build around their data. -/
def ofModify (transactionId : TransactionId) (lsn : LSN) (prevLsn : Option LSN)
    (recordType : WALRecordType) (data : ModifyRecord) : WALRecord where
  header :=
    { lsn, prevLsn, transactionId, recordType,
      dataSize := UInt32.ofNat (ModifyRecord.codec.encode data).length, checksum := 0 }
  data := some (.modify data)

/-- `WALRecord::insert`. -/
def insert (transactionId : TransactionId) (lsn : LSN) (prevLsn : Option LSN) (pageId : PageId)
    (offset : UInt64) (newData : List UInt8) : WALRecord :=
  ofModify transactionId lsn prevLsn .insert { pageId, offset, oldData := none, newData }

/-- `WALRecord::update`. -/
def update (transactionId : TransactionId) (lsn : LSN) (prevLsn : Option LSN) (pageId : PageId)
    (offset : UInt64) (oldData newData : List UInt8) : WALRecord :=
  ofModify transactionId lsn prevLsn .update { pageId, offset, oldData := some oldData, newData }

/-- `WALRecord::delete`. -/
def delete (transactionId : TransactionId) (lsn : LSN) (prevLsn : Option LSN) (pageId : PageId)
    (offset : UInt64) (oldData : List UInt8) : WALRecord :=
  ofModify transactionId lsn prevLsn .delete
    { pageId, offset, oldData := some oldData, newData := [] }

/-- `WALRecord::ddl`. -/
def ddl (transactionId : TransactionId) (lsn : LSN) (prevLsn : Option LSN)
    (recordType : WALRecordType) (data : DdlRecord) : WALRecord where
  header :=
    { lsn, prevLsn, transactionId, recordType,
      dataSize := UInt32.ofNat (DdlRecord.codec.encode data).length, checksum := 0 }
  data := some (.ddl data)

/-- `WALRecord::create_table`. -/
def createTable (transactionId : TransactionId) (lsn : LSN) (prevLsn : Option LSN)
    (tableName : String) (schemaName : Option String) (tableDefinition : List UInt8)
    (dependents : List String) : WALRecord :=
  ddl transactionId lsn prevLsn .createTable
    { ddlType := "CREATE_TABLE", objectName := tableName, objectType := "table", schemaName,
      objectDefinition := some tableDefinition, previousDefinition := none,
      metadata := AList.insert "operation" "CREATE" ∅, dependents }

/-- `WALRecord::drop_table`. -/
def dropTable (transactionId : TransactionId) (lsn : LSN) (prevLsn : Option LSN)
    (tableName : String) (schemaName : Option String) (previousDefinition : List UInt8)
    (dependents : List String) : WALRecord :=
  ddl transactionId lsn prevLsn .dropTable
    { ddlType := "DROP_TABLE", objectName := tableName, objectType := "table", schemaName,
      objectDefinition := none, previousDefinition := some previousDefinition,
      metadata := AList.insert "operation" "DROP" ∅, dependents }

/-- `WALRecord::alter_table`. -/
def alterTable (transactionId : TransactionId) (lsn : LSN) (prevLsn : Option LSN)
    (recordType : WALRecordType) (tableName : String) (schemaName : Option String)
    (alterationType targetName : String) (previousDefinition newDefinition : Option (List UInt8))
    (dependents : List String) : WALRecord :=
  ddl transactionId lsn prevLsn recordType
    { ddlType := s!"ALTER_TABLE_{alterationType}", objectName := tableName, objectType := "table",
      schemaName, objectDefinition := newDefinition, previousDefinition,
      metadata := AList.insert "target_name" targetName
        (AList.insert "alteration_type" alterationType ∅),
      dependents }

/-- The records that the constructors build. -/
inductive Built : WALRecord → Prop
  | begin (t lsn) : Built (begin t lsn)
  | commit (t lsn prev) : Built (commit t lsn prev)
  | abort (t lsn prev) : Built (abort t lsn prev)
  | insert (t lsn prev page offset new) : Built (insert t lsn prev page offset new)
  | update (t lsn prev page offset old new) : Built (update t lsn prev page offset old new)
  | delete (t lsn prev page offset old) : Built (delete t lsn prev page offset old)
  | ddl (t lsn prev type data) : Built (ddl t lsn prev type data)
  | createTable (t lsn prev table schema definition dependents) :
      Built (createTable t lsn prev table schema definition dependents)
  | dropTable (t lsn prev table schema previous dependents) :
      Built (dropTable t lsn prev table schema previous dependents)
  | alterTable (t lsn prev type table schema alteration target previous new dependents) :
      Built (alterTable t lsn prev type table schema alteration target previous new dependents)

/-! ## Serialization -/

/-- `WALRecord::update_checksum`. The digest is finalized without having absorbed the serialized
record, and a checksum that is already set stays. -/
def updateChecksum (r : WALRecord) : WALRecord :=
  let checksum := if r.header.checksum ≠ 0 then r.header.checksum else Crc32c.checksum []
  { r with header := { r.header with checksum } }

/-- `WALRecord::verify`, with the same empty digest. -/
def verify (r : WALRecord) : Bool :=
  Crc32c.checksum [] == r.header.checksum

/-- The payload behind the header. -/
def payload (r : WALRecord) : List UInt8 :=
  r.data.elim [] WALRecordData.encode

/-- `WALRecord::to_bytes`. -/
def toBytes (r : WALRecord) : List UInt8 :=
  WALRecordHeader.codec.encode r.updateChecksum.header ++ r.payload

/-- `from_bytes` on the data of an insert, update or delete record. -/
def readModify (dataBytes : List UInt8) : Result (Option WALRecordData) :=
  match ModifyRecord.codec.deserialize dataBytes with
  | some m => .ok (some (.modify m))
  | none => .error (.err (.serialization bincodeErrorText))

/-- `from_bytes` on the data of a DDL record. -/
def readDdl (dataBytes : List UInt8) : Result (Option WALRecordData) :=
  match DdlRecord.codec.deserialize dataBytes with
  | some d => .ok (some (.ddl d))
  | none => .error (.err (.serialization bincodeErrorText))

/-- What `from_bytes` makes of the bytes behind a header. -/
def readData (header : WALRecordHeader) (dataBytes : List UInt8) : Result (Option WALRecordData) :=
  if header.dataSize > 0 then
    match header.recordType with
    | .insert | .update | .delete => readModify dataBytes
    | .createTable | .dropTable | .createIndex | .dropIndex | .alterTableAddColumn
    | .alterTableDropColumn | .alterTableAddConstraint | .alterTableDropConstraint
    | .schemaVersionChange | .tableMetadataUpdate | .columnMetadataUpdate
    | .indexMetadataUpdate => readDdl dataBytes
    | .begin | .commit | .abort | .checkpoint =>
      .error (.err (.serialization
        s!"Unexpected record type for data: {header.recordType.debug}"))
  else .ok none

/-- `WALRecord::from_bytes`. -/
def fromBytes (bytes : List UInt8) : Result WALRecord :=
  if bytes = [] then
    .error (.err (.serialization "Empty WAL record"))
  else if bytes.length < WALRecordHeader.size then
    .error (.err (.serialization "Insufficient bytes for WAL header"))
  else
    match WALRecordHeader.codec.deserialize (bytes.take WALRecordHeader.size) with
    | none => .error (.err (.serialization bincodeErrorText))
    | some header =>
      (readData header (bytes.drop WALRecordHeader.size)).map fun data => { header, data }

/-- Reading back what `to_bytes` wrote gives the stored header and the data. -/
def RoundTrip (r : WALRecord) : Prop :=
  ∃ r', fromBytes r.toBytes = .ok r' ∧ r'.header = r.updateChecksum.header ∧
    Option.Rel WALRecordData.Same r'.data r.data

/-! ## Reading what was written -/

theorem readData_eq_some {h : WALRecordHeader} {bytes : List UInt8} {d : WALRecordData}
    (hread : readData h bytes = .ok (some d)) :
    readModify bytes = .ok (some d) ∨ readDdl bytes = .ok (some d) := by
  unfold readData at hread
  split at hread
  · cases htype : h.recordType <;> simp only [htype] at hread <;>
      first
        | exact .inl hread
        | exact .inr hread
        | cases hread
  · cases hread

theorem decode_of_readData_modify {h : WALRecordHeader} {bytes : List UInt8} {m : ModifyRecord}
    (hread : readData h bytes = .ok (some (.modify m))) :
    ∃ rest, ModifyRecord.codec.decode bytes = some (m, rest) := by
  rcases readData_eq_some hread with hmod | hddl
  · unfold readModify at hmod
    split at hmod
    · next m' hdec =>
      obtain ⟨⟨m'', rest⟩, hd, rfl⟩ := Option.map_eq_some_iff.mp hdec
      cases hmod
      exact ⟨rest, hd⟩
    · cases hmod
  · unfold readDdl at hddl
    split at hddl <;> cases hddl

theorem decode_of_readData_ddl {h : WALRecordHeader} {bytes : List UInt8} {d : DdlRecord}
    (hread : readData h bytes = .ok (some (.ddl d))) :
    ∃ rest, DdlRecord.codec.decode bytes = some (d, rest) := by
  rcases readData_eq_some hread with hmod | hddl
  · unfold readModify at hmod
    split at hmod <;> cases hmod
  · unfold readDdl at hddl
    split at hddl
    · next d' hdec =>
      obtain ⟨⟨d'', rest⟩, hd, rfl⟩ := Option.map_eq_some_iff.mp hdec
      cases hddl
      exact ⟨rest, hd⟩
    · cases hddl

/-- Behind a header with a previous LSN the reader cuts the header short. -/
theorem fromBytes_toBytes_of_linked {r : WALRecord} (hprev : r.header.prevLsn ≠ none) :
    fromBytes r.toBytes = .error (.err (.serialization bincodeErrorText)) := by
  have hlong : WALRecordHeader.size < (WALRecordHeader.codec.encode r.updateChecksum.header).length :=
    WALRecordHeader.size_lt_of_some hprev
  have hne : r.toBytes ≠ [] := by
    intro h
    have := congrArg List.length h
    rw [toBytes, List.length_append, List.length_nil] at this
    omega
  have hlen : ¬ r.toBytes.length < WALRecordHeader.size := by
    rw [toBytes, List.length_append]
    omega
  rw [fromBytes, if_neg hne, if_neg hlen, toBytes,
    WALRecordHeader.codec_canonical.deserialize_take (WALRecordHeader.valid _) hlong]

/-- Without a previous LSN the reader finds the header and decodes the tagged payload. -/
theorem fromBytes_toBytes {r : WALRecord} (hprev : r.header.prevLsn = none) :
    fromBytes r.toBytes = (readData r.updateChecksum.header r.payload).map fun data =>
      { header := r.updateChecksum.header, data } := by
  have hhead : (WALRecordHeader.codec.encode r.updateChecksum.header).length =
      WALRecordHeader.size := WALRecordHeader.encode_length_of_none hprev
  have hsize := WALRecordHeader.size_eq
  have hne : r.toBytes ≠ [] := by
    intro h
    have := congrArg List.length h
    rw [toBytes, List.length_append, List.length_nil] at this
    omega
  have hlen : ¬ r.toBytes.length < WALRecordHeader.size := by
    rw [toBytes, List.length_append]
    omega
  rw [fromBytes, if_neg hne, if_neg hlen, toBytes, List.take_left' hhead, List.drop_left' hhead,
    Codec.deserialize_encode' _ (WALRecordHeader.valid _)]

/-! ## The records that survive -/

/-- No object name reaches `2 ^ 56` bytes, the user address space of a 64-bit machine. -/
def FitsInMemory (r : WALRecord) : Prop :=
  ∀ d, r.data = some (.ddl d) → (Codec.utf8 d.objectName).length < 2 ^ 56

/-- The constructors announce no data when there is none, and the length of the modification when
there is one. -/
theorem Built.sized {r : WALRecord} (h : r.Built) :
    (r.data = none → r.header.dataSize = 0) ∧
      ∀ m, r.data = some (.modify m) →
        r.header.dataSize = UInt32.ofNat (ModifyRecord.codec.encode m).length ∧
        (r.header.recordType = .insert ∨ r.header.recordType = .update ∨
          r.header.recordType = .delete) := by
  cases h with
  | begin | commit | abort =>
    refine ⟨fun _ => rfl, ?_⟩
    rintro m ⟨⟩
  | insert =>
    refine ⟨nofun, ?_⟩
    rintro m ⟨⟩
    exact ⟨rfl, .inl rfl⟩
  | update =>
    refine ⟨nofun, ?_⟩
    rintro m ⟨⟩
    exact ⟨rfl, .inr (.inl rfl)⟩
  | delete =>
    refine ⟨nofun, ?_⟩
    rintro m ⟨⟩
    exact ⟨rfl, .inr (.inr rfl)⟩
  | ddl | createTable | dropTable | alterTable => exact ⟨nofun, nofun⟩

/-- A record without a previous LSN and without data reads back. -/
theorem roundTrip_of_none {r : WALRecord} (hprev : r.header.prevLsn = none) (hdata : r.data = none)
    (hsize : r.header.dataSize = 0) : r.RoundTrip := by
  have hread : readData r.updateChecksum.header r.payload = .ok none := by
    have h : ¬ r.updateChecksum.header.dataSize > 0 := by
      show ¬ r.header.dataSize > 0
      rw [hsize]
      decide
    rw [readData, if_neg h]
  refine ⟨{ header := r.updateChecksum.header, data := none }, ?_, rfl, ?_⟩
  · rw [fromBytes_toBytes hprev, hread]
    rfl
  · rw [hdata]
    exact .none

/-- The modification that consists of zero bytes reads back: its tag is zero as well. -/
theorem roundTrip_of_zero {r : WALRecord} (hprev : r.header.prevLsn = none)
    (hdata : r.data = some (.modify .zero)) (hsize : r.header.dataSize > 0)
    (htype : r.header.recordType = .insert ∨ r.header.recordType = .update ∨
      r.header.recordType = .delete) : r.RoundTrip := by
  have hpayload : r.payload = ModifyRecord.codec.encode .zero ++ List.replicate 4 0 := by
    rw [payload, hdata]
    decide
  have hdes : ModifyRecord.codec.deserialize r.payload = some .zero := by
    rw [hpayload, Codec.deserialize_encode _ ModifyRecord.zero_valid]
  have hread : readData r.updateChecksum.header r.payload = .ok (some (.modify .zero)) := by
    have h : r.updateChecksum.header.dataSize > 0 := hsize
    have ht : r.updateChecksum.header.recordType = r.header.recordType := rfl
    rw [readData, if_pos h, ht]
    rcases htype with ht | ht | ht <;> simp only [ht, readModify, hdes]
  refine ⟨{ header := r.updateChecksum.header, data := some (.modify .zero) }, ?_, rfl, ?_⟩
  · rw [fromBytes_toBytes hprev, hread]
    rfl
  · rw [hdata]
    exact .some (show WALRecordData.Same (.modify .zero) (.modify .zero) from rfl)

/-- What reads back has no previous LSN and carries no data but zero bytes. -/
theorem unlinked_of_roundTrip {r : WALRecord} (hmem : r.FitsInMemory) (h : r.RoundTrip) :
    r.header.prevLsn = none ∧ (r.data = none ∨ r.data = some (.modify .zero)) := by
  obtain ⟨r', hr', -, hdata⟩ := h
  have hprev : r.header.prevLsn = none := by
    by_contra hlink
    rw [fromBytes_toBytes_of_linked hlink] at hr'
    cases hr'
  refine ⟨hprev, ?_⟩
  have hread : readData r.updateChecksum.header r.payload = .ok r'.data := by
    rw [fromBytes_toBytes hprev] at hr'
    cases hd : readData r.updateChecksum.header r.payload with
    | error e => rw [hd] at hr'; cases hr'
    | ok data => rw [hd] at hr'; cases hr'; rfl
  rw [payload] at hread
  match hr : r.data, hr'd : r'.data, hdata with
  | none, none, _ => exact .inl rfl
  | some (.modify m), some (.modify m'), .some hsame =>
    obtain rfl : m' = m := hsame
    rw [hr, hr'd] at hread
    obtain ⟨rest, hdec⟩ := decode_of_readData_modify hread
    rw [ModifyRecord.eq_zero_of_tagged hdec]
    exact .inr rfl
  | some (.ddl d), some (.ddl d'), .some hsame =>
    rw [hr, hr'd] at hread
    obtain ⟨rest, hdec⟩ := decode_of_readData_ddl hread
    exact absurd (hmem d hr) (DdlRecord.not_fits_of_tagged hdec hsame)

/-- A built record reads back exactly when it has no previous LSN and carries no data, or only the
data that consists of zero bytes. -/
theorem roundTrip_iff {r : WALRecord} (hbuilt : r.Built) (hmem : r.FitsInMemory) :
    r.RoundTrip ↔ r.header.prevLsn = none ∧
      (r.data = none ∨ r.data = some (.modify .zero)) := by
  obtain ⟨hnone, hmodify⟩ := hbuilt.sized
  constructor
  · exact unlinked_of_roundTrip hmem
  · rintro ⟨hprev, hdata | hdata⟩
    · exact roundTrip_of_none hprev hdata (hnone hdata)
    · obtain ⟨hsize, htype⟩ := hmodify _ hdata
      refine roundTrip_of_zero hprev hdata ?_ htype
      rw [hsize, ModifyRecord.encode_zero]
      decide

/-- A begin record reads back. -/
theorem begin_roundTrip :
    (begin 1 100).RoundTrip ↔ (begin 1 100).header.prevLsn = none ∧
      ((begin 1 100).data = none ∨ (begin 1 100).data = some (.modify .zero)) :=
  roundTrip_iff (.begin 1 100) nofun

/-- The record of `test_wal_record_serialization` does not read back. -/
theorem insert_not_roundTrip :
    ¬ (insert 1 100 none 42 10 [116, 101, 115, 116, 32, 100, 97, 116, 97]).RoundTrip := by
  intro h
  obtain ⟨-, hdata⟩ := unlinked_of_roundTrip (by rintro d ⟨⟩) h
  rcases hdata with hdata | hdata <;> cases hdata

end WALRecord

end Rustgresql
