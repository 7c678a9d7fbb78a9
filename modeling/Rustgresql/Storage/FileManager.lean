import Rustgresql.Storage.Page
import Rustgresql.Lib.StateSpec

/-!
# The file manager (`storage/file_manager.rs`)

`DefaultFileManager` keeps the database header in memory and reads and writes pages of the database
file. A page id is turned into a byte offset through the length of the serialized header.

The module ends with what a page survives: `writePage` cuts the block to the page size and `readPage`
assumes the shortest header, so exactly the pages without links whose data area leaves room for that
header come back unchanged (`writePage_readPage_iff`).
-/

namespace Rustgresql

open Wire StateSpec

/-- Database file header. -/
structure DatabaseHeader where
  magicNumber : UInt64
  version : UInt32
  pageSize : UInt32
  totalPages : UInt64
  freePages : UInt64
  firstFreePage : Option PageId
  checksum : UInt32
  deriving DecidableEq, Repr

namespace DatabaseHeader

/-- The `bincode` form of a database header. -/
def codec : Codec DatabaseHeader :=
  (Codec.u64.seq <| Codec.u32.seq <| Codec.u32.seq <| Codec.u64.seq <| Codec.u64.seq <|
    Codec.u64.option.seq Codec.u32).via
    (fun h => (h.magicNumber, h.version, h.pageSize, h.totalPages, h.freePages, h.firstFreePage,
      h.checksum))
    (fun t => some ⟨t.1, t.2.1, t.2.2.1, t.2.2.2.1, t.2.2.2.2.1, t.2.2.2.2.2.1, t.2.2.2.2.2.2⟩)
    (fun _ => rfl)

/-- `DatabaseHeader::new`. -/
def new (pageSize : UInt32) : DatabaseHeader where
  magicNumber := 0x5253514C44544142
  version := 1
  pageSize := pageSize
  totalPages := 1
  freePages := 0
  firstFreePage := none
  checksum := 0

/-- `DatabaseHeader::update_checksum`: CRC-32C of the serialized header without its last field. -/
def updateChecksum (h : DatabaseHeader) : DatabaseHeader :=
  let bytes := codec.encode { h with checksum := 0 }
  { h with checksum := Crc32c.checksum (bytes.take (bytes.length - 4)) }

theorem encode_length (h : DatabaseHeader) :
    (codec.encode h).length = 37 + linkSize h.firstFreePage := by
  simp only [codec, Codec.via, Codec.seq, List.length_append, linkSize_eq, Codec.u64_length,
    Codec.u32_length]
  omega

end DatabaseHeader

/-- The file manager: the open file, the header it keeps in memory and the page size. The header is
behind a lock, which a call in progress may hold. -/
structure DefaultFileManager where
  file : ByteFile
  header : DatabaseHeader
  pageSize : ℕ
  headerLocked : Bool := false
  deriving DecidableEq, Repr

namespace DefaultFileManager

/-- A call on the file manager. -/
abbrev Call := EStateM Failure DefaultFileManager

/-- Run a file call, turning its error into `wrap` of it. -/
def onFile {α : Type} (act : ByteFile.Io α) (wrap : ByteFile.IoError → RustgreSQLError) : Call α :=
  fun m =>
    match act m.file with
    | .ok a f => .ok a { m with file := f }
    | .error e f => .error (.err (wrap e)) { m with file := f }

/-- Lift an outcome that reads the file manager but does not change it. -/
def query {α : Type} (r : DefaultFileManager → Result α) : Call α := fun m =>
  match r m with
  | .ok a => .ok a m
  | .error e => .error e m

/-- Run `act` while holding the header lock. The lock is not reentrant: whoever asks for it again while
it is held waits forever, and it is never released. -/
def withHeader {α : Type} (act : Call α) : Call α := fun m =>
  if m.headerLocked then .error .deadlock m
  else
    match act { m with headerLocked := true } with
    | .ok a m' => .ok a { m' with headerLocked := false }
    | .error .deadlock m' => .error .deadlock m'
    | .error e m' => .error e { m' with headerLocked := false }

/-- `DefaultFileManager::write_header`. -/
def writeHeader : Call Unit := withHeader do
  modify fun m => { m with header := m.header.updateChecksum }
  let headerBytes := DatabaseHeader.codec.encode (← get).header
  onFile (ByteFile.seekStart 0) .io
  onFile (ByteFile.writeAll headerBytes) .io
  onFile ByteFile.flush .io

/-- `DefaultFileManager::create`, on the file that opening with truncation gives. -/
def create (file : ByteFile) (pageSize : UInt32) : EStateM.Result Failure DefaultFileManager Unit :=
  writeHeader
    { file, header := (DatabaseHeader.new pageSize).updateChecksum, pageSize := pageSize.toNat }

/-- `DefaultFileManager::page_offset`. It takes the header lock; the arithmetic panics on a zero page
size and on overflow. -/
def pageOffset (pageId : PageId) (m : DefaultFileManager) : Result ℕ :=
  if m.headerLocked then
    .error .deadlock
  else if pageId = 0 then
    .error (.err (.storage "Cannot access header page through read_page"))
  else if m.pageSize = 0 then
    .error (.panic "attempt to divide by zero")
  else
    let headerSize := (DatabaseHeader.codec.encode m.header).length
    let headerPages := (headerSize + m.pageSize - 1) / m.pageSize
    let offset := (headerPages + (pageId - 1).toNat) * m.pageSize
    if offset < 2 ^ 64 then .ok offset else .error (.panic "attempt to multiply with overflow")

/-- What `read_page` makes of a complete block: the page, if it parses and its checksum verifies. -/
def parseBlock (pageId : PageId) (pageSize : ℕ) (pageBytes : List UInt8) : Result Page :=
  match Page.fromBytes pageBytes with
  | .ok page =>
    if page.verify pageSize then .ok page
    else .error (.err (.corruption
      s!"Page {pageId} failed checksum verification - data corruption detected"))
  | .error (.err e) =>
    .error (.err (.corruption s!"Failed to deserialize page {pageId}: {e.display}"))
  | .error e => .error e

/-- `DefaultFileManager::read_page`. -/
def readPage (pageId : PageId) : Call Page := do
  let offset ← query (pageOffset pageId)
  onFile (ByteFile.seekStart offset) .io
  let pageSize := (← get).pageSize
  let pageBytes ← onFile (ByteFile.read pageSize) fun e =>
    .storage s!"Failed to read page {pageId}: {ioErrorText e}"
  let bytesRead := pageBytes.length
  require (bytesRead = pageSize) (.err (.storage
    s!"Incomplete read for page {pageId}: expected {pageSize} bytes, got {bytesRead}"))
  query fun _ => parseBlock pageId pageSize pageBytes

/-- `DefaultFileManager::write_page`. -/
def writePage (pageId : PageId) (page : Page) : Call Unit := do
  let offset ← query (pageOffset pageId)
  let pageSize := (← get).pageSize
  let page := page.updateChecksum pageSize
  onFile (ByteFile.seekStart offset) fun e =>
    .storage s!"Failed to seek to page {pageId} offset: {ioErrorText e}"
  let pageBytes ← query fun _ => page.toBytes pageSize
  let size := pageBytes.length
  require (size = pageSize) (.err (.storage
    s!"Page {pageId} serialization produced wrong size: expected {pageSize}, got {size}"))
  onFile (ByteFile.writeAll pageBytes) fun e =>
    .storage s!"Failed to write page {pageId}: {ioErrorText e}"
  onFile ByteFile.flush fun e => .storage s!"Failed to flush page {pageId}: {ioErrorText e}"
  onFile ByteFile.syncAll fun e => .storage s!"Failed to sync page {pageId}: {ioErrorText e}"

/-- `DefaultFileManager::sync`. -/
def sync : Call Unit := do
  onFile ByteFile.flush .io
  onFile ByteFile.syncAll .io

/-! ## Runs on a file without faults -/

theorem query_ok {α : Type} {r : DefaultFileManager → Result α} {m : DefaultFileManager} {a : α}
    (h : r m = .ok a) : query r m = .ok a m := by
  simp only [query, h]

theorem query_error {α : Type} {r : DefaultFileManager → Result α} {m : DefaultFileManager}
    {e : Failure} (h : r m = .error e) : query r m = .error e m := by
  simp only [query, h]

theorem onFile_ok {α : Type} {act : ByteFile.Io α} {wrap : ByteFile.IoError → RustgreSQLError}
    {m : DefaultFileManager} {a : α} {f : ByteFile} (h : act m.file = .ok a f) :
    onFile act wrap m = .ok a { m with file := f } := by
  simp only [onFile, h]

/-- The file manager after `bytes` were stored at `offset`. -/
def stored (m : DefaultFileManager) (offset : ℕ) (bytes : List UInt8) : DefaultFileManager :=
  { m with file := ByteFile.store bytes { m.file with cursor := offset } }

theorem writePage_run {m : DefaultFileManager} (hf : m.file.faults = []) {pageId : PageId}
    {offset : ℕ} (hoff : pageOffset pageId m = .ok offset) (hsmall : offset < 2 ^ 63)
    (page : Page) :
    writePage pageId page m =
      .ok () (m.stored offset ((page.updateChecksum m.pageSize).block m.pageSize)) := by
  set block := (page.updateChecksum m.pageSize).block m.pageSize with hblock
  set m₁ : DefaultFileManager := { m with file := { m.file with cursor := offset } } with hm₁
  have hf₁ : m₁.file.faults = [] := hf
  have hf₂ : (m.stored offset block).file.faults = [] := hf
  have hbytes : query (fun _ => (page.updateChecksum m.pageSize).toBytes m.pageSize) m₁
      = .ok block m₁ := query_ok rfl
  have hsize : block.length = m.pageSize := Page.block_length ..
  rw [writePage, bind_of_ok (query_ok hoff), get_bind,
    bind_of_ok (onFile_ok (ByteFile.seekStart_run hf hsmall)), bind_of_ok hbytes,
    bind_of_ok (require_of hsize _ _), bind_of_ok (onFile_ok (ByteFile.writeAll_run hf₁ _))]
  exact (bind_of_ok (onFile_ok (ByteFile.flush_run hf₂))).trans
    (onFile_ok (ByteFile.syncAll_run hf₂))

/-- A write that returned had an offset in range. -/
theorem offset_of_writePage {m m' : DefaultFileManager} (hf : m.file.faults = []) {pageId : PageId}
    {page : Page} (h : writePage pageId page m = .ok () m') :
    ∃ offset, pageOffset pageId m = .ok offset ∧ offset < 2 ^ 63 := by
  rw [writePage, bind_eq_ok] at h
  obtain ⟨offset, m₁, hquery, h⟩ := h
  unfold query at hquery
  split at hquery
  · rename_i offset' hoff
    obtain ⟨rfl, rfl⟩ := EStateM.Result.ok.inj hquery
    refine ⟨offset', hoff, ?_⟩
    rw [get_bind, bind_eq_ok] at h
    obtain ⟨_, m₂, hseek, -⟩ := h
    by_contra hlarge
    simp only [onFile, ByteFile.seekStart, ByteFile.guarded, hf, if_neg hlarge] at hseek
    cases hseek
  · cases hquery

theorem readPage_run {m : DefaultFileManager} (hf : m.file.faults = []) {pageId : PageId}
    {offset : ℕ} (hoff : pageOffset pageId m = .ok offset) (hsmall : offset < 2 ^ 63)
    {block : List UInt8} (hblock : (m.file.bytes.drop offset).take m.pageSize = block)
    (hfull : block.length = m.pageSize) :
    readPage pageId m = query (fun _ => parseBlock pageId m.pageSize block)
      { m with file := { m.file with cursor := offset + m.pageSize } } := by
  have hread := ByteFile.read_run (f := { m.file with cursor := offset }) hf m.pageSize
  rw [hblock, hfull] at hread
  rw [readPage, bind_of_ok (query_ok hoff),
    bind_of_ok (onFile_ok (ByteFile.seekStart_run hf hsmall)), get_bind,
    bind_of_ok (onFile_ok hread), bind_of_ok (require_of hfull _ _)]

/-- What reading makes of a page that was just written. -/
theorem readPage_stored {m : DefaultFileManager} (hf : m.file.faults = []) {pageId : PageId}
    {offset : ℕ} (hoff : pageOffset pageId m = .ok offset) (hsmall : offset < 2 ^ 63) (p : Page) :
    ∃ m', readPage pageId (m.stored offset (p.block m.pageSize)) =
      query (fun _ => parseBlock pageId m.pageSize (p.block m.pageSize)) m' := by
  have hstored := ByteFile.take_drop_overwrite m.file.bytes offset (p.block m.pageSize)
  rw [Page.block_length] at hstored
  exact ⟨_, readPage_run (m := m.stored offset (p.block m.pageSize)) hf hoff hsmall hstored
    (Page.block_length ..)⟩

end DefaultFileManager

/-! ## What a block parses to -/

/-- A page whose checksum was just updated verifies. -/
theorem Page.verify_updateChecksum (p : Page) (pageSize : ℕ) :
    (p.updateChecksum pageSize).verify pageSize = true := beq_self_eq_true _

/-- A linked header is longer than the header that `fromBytes` reads, so it does not parse. -/
theorem Page.fromBytes_block_of_linked {p : Page}
    (hlink : 26 < (PageHeader.codec.encode p.header).length) (pageSize : ℕ) (q : Page) :
    Page.fromBytes (p.block pageSize) ≠ .ok q := by
  intro h
  rw [Page.fromBytes, Page.headerSize_eq] at h
  split at h
  · cases h
  · rename_i hlong
    rw [Page.block_length] at hlong
    have htake : (p.block pageSize).take 26
        = (PageHeader.codec.encode p.header ++ p.data).take 26 := by
      rw [Page.block, resize, List.take_append_of_le_length, List.take_take,
        Nat.min_eq_left (by omega)]
      rw [List.length_take, List.length_append]
      omega
    rw [htake, PageHeader.codec_canonical.deserialize_take p.header.valid hlink] at h
    cases h

/-- The data area of a parsed block is the block without its first 26 bytes. -/
theorem Page.data_of_fromBytes {bytes : List UInt8} {q : Page} (h : Page.fromBytes bytes = .ok q) :
    q.data.length + 26 = bytes.length := by
  rw [Page.fromBytes, Page.headerSize_eq] at h
  split at h
  · cases h
  · split at h
    · cases h
    · rw [← Except.ok.inj h, List.length_drop]
      omega

/-- A page without links whose data fills the block parses back. -/
theorem Page.fromBytes_block {p : Page} (hprev : p.header.prevPageId = none)
    (hnext : p.header.nextPageId = none) {pageSize : ℕ} (hdata : p.data.length + 26 = pageSize) :
    Page.fromBytes (p.block pageSize) = .ok p := by
  have hhead : (PageHeader.codec.encode p.header).length = 26 := by
    rw [PageHeader.encode_length, hprev, hnext]
    rfl
  have hblock : p.block pageSize = PageHeader.codec.encode p.header ++ p.data := by
    rw [Page.block, resize_of_length]
    rw [List.length_append]
    omega
  have hlong : ¬ (PageHeader.codec.encode p.header ++ p.data).length < 26 := by
    rw [List.length_append]
    omega
  rw [Page.fromBytes, Page.headerSize_eq, hblock, if_neg hlong, List.take_left' hhead,
    List.drop_left' hhead, Codec.deserialize_encode' _ p.header.valid]

namespace DefaultFileManager

theorem parseBlock_eq_ok {pageId : PageId} {pageSize : ℕ} {bytes : List UInt8} {q : Page} :
    parseBlock pageId pageSize bytes = .ok q ↔
      Page.fromBytes bytes = .ok q ∧ q.verify pageSize = true := by
  unfold parseBlock
  cases hparse : Page.fromBytes bytes with
  | ok page =>
    by_cases hv : page.verify pageSize = true
    · simp only [hv, if_true, Except.ok.injEq]
      constructor
      · rintro rfl; exact ⟨rfl, hv⟩
      · exact fun h => h.1
    · simp only [hv, Except.ok.injEq]
      constructor
      · intro h; cases h
      · rintro ⟨rfl, h⟩; exact absurd h hv
  | error e => cases e <;> simp

/-! ## What a page survives -/

/-- `q` carries the page type, the links, the free-byte count and the data of `p`. -/
def SameContent (p q : Page) : Prop :=
  q.header.pageType = p.header.pageType ∧ q.header.prevPageId = p.header.prevPageId ∧
    q.header.nextPageId = p.header.nextPageId ∧ q.header.freeBytes = p.header.freeBytes ∧
    q.data = p.data

theorem SameContent.updateChecksum (p : Page) (pageSize : ℕ) :
    SameContent p (p.updateChecksum pageSize) := ⟨rfl, rfl, rfl, rfl, rfl⟩

/-- The outcome of a query that does not look at the file manager -/
theorem exists_query_ok {α : Type} {r : Result α} {m : DefaultFileManager} {P : α → Prop} :
    (∃ a m', query (fun _ => r) m = .ok a m' ∧ P a) ↔ ∃ a, r = .ok a ∧ P a := by
  constructor
  · rintro ⟨a, m', hrun, ha⟩
    cases r with
    | ok b =>
      cases hrun
      exact ⟨a, rfl, ha⟩
    | error e => cases hrun
  · rintro ⟨a, rfl, ha⟩
    exact ⟨a, m, rfl, ha⟩

/-- A block keeps the content of its page exactly when the page has no links and its data area is 26 bytes shorter than
the block. -/
theorem parseBlock_sameContent_iff {pageId : PageId} {pageSize : ℕ} {p : Page} :
    (∃ q, parseBlock pageId pageSize ((p.updateChecksum pageSize).block pageSize) = .ok q ∧ SameContent p q) ↔
      p.header.prevPageId = none ∧ p.header.nextPageId = none ∧ p.data.length + 26 = pageSize := by
  set p' := p.updateChecksum pageSize with hp'
  constructor
  · rintro ⟨q, hparse, -, hprev, hnext, -, hdata⟩
    have hfrom := (parseBlock_eq_ok.mp hparse).1
    have hlinks : (PageHeader.codec.encode p'.header).length ≤ 26 :=
      not_lt.mp fun hlink => Page.fromBytes_block_of_linked hlink _ _ hfrom
    have hsize := Page.data_of_fromBytes hfrom
    rw [hdata, Page.block_length] at hsize
    obtain ⟨hprev', hnext'⟩ := PageHeader.encode_length_le.mp hlinks
    exact ⟨hprev', hnext', hsize⟩
  · rintro ⟨hprev, hnext, hdata⟩
    exact ⟨p', parseBlock_eq_ok.mpr
      ⟨Page.fromBytes_block (p := p') hprev hnext hdata, p.verify_updateChecksum _⟩, SameContent.updateChecksum p _⟩

/-- A page that was written reads back with its content exactly when it has no links and its data
area is 26 bytes shorter than a block. -/
theorem writePage_readPage_iff {m m' : DefaultFileManager} (hf : m.file.faults = [])
    {pageId : PageId} {p : Page} (hwrite : writePage pageId p m = .ok () m') :
    (∃ q m'', readPage pageId m' = .ok q m'' ∧ SameContent p q) ↔
      p.header.prevPageId = none ∧ p.header.nextPageId = none ∧
        p.data.length + 26 = m.pageSize := by
  obtain ⟨offset, hoff, hsmall⟩ := offset_of_writePage hf hwrite
  rw [writePage_run hf hoff hsmall, EStateM.Result.ok.injEq] at hwrite
  obtain ⟨-, rfl⟩ := hwrite
  obtain ⟨m₁, hread⟩ := readPage_stored hf hoff hsmall (p.updateChecksum m.pageSize)
  rw [hread, exists_query_ok]
  exact parseBlock_sameContent_iff

/-- A new page of 64 bytes, cut as a reader would see it, keeps its content. -/
theorem writePage_readPage_unlinked :
    let m : DefaultFileManager := ⟨.empty, DatabaseHeader.new 64, 64, false⟩
    let p : Page := ⟨Page.dummyHeader, List.replicate 38 7⟩
    (∃ q m'', readPage 1 (m.stored 64 ((p.updateChecksum 64).block 64)) = .ok q m'' ∧
      SameContent p q) ↔
      p.header.prevPageId = none ∧ p.header.nextPageId = none ∧ p.data.length + 26 = 64 :=
  have hoff : pageOffset 1 ⟨.empty, DatabaseHeader.new 64, 64, false⟩ = .ok 64 := by decide
  writePage_readPage_iff (m := ⟨.empty, DatabaseHeader.new 64, 64, false⟩) rfl
    (writePage_run rfl hoff (by decide) ⟨Page.dummyHeader, List.replicate 38 7⟩)

/-- The page that `Page::new` makes, linked to page 2. -/
def linkedPage : Page :=
  { Page.new 1 .data 8192 with
    header := { (Page.new 1 .data 8192).header with nextPageId := some 2 } }

/-- The file manager that `create` returns on an empty file. -/
theorem create_run (pageSize : UInt32) :
    let header := (DatabaseHeader.new pageSize).updateChecksum.updateChecksum
    create .empty pageSize = .ok ()
      { file := ByteFile.store (DatabaseHeader.codec.encode header) .empty, header,
        pageSize := pageSize.toNat } := rfl

/-- On a database just created with 8 KiB pages, writing a linked page succeeds and reading it back
fails. -/
theorem linkedPage_lost :
    ∃ m m', create .empty 8192 = .ok () m ∧ writePage 1 linkedPage m = .ok () m' ∧
      ¬ ∃ q m'', readPage 1 m' = .ok q m'' ∧ SameContent linkedPage q := by
  set m : DefaultFileManager :=
    { file := ByteFile.store
        (DatabaseHeader.codec.encode (DatabaseHeader.new 8192).updateChecksum.updateChecksum) .empty,
      header := (DatabaseHeader.new 8192).updateChecksum.updateChecksum,
      pageSize := (8192 : UInt32).toNat } with hm
  have hf : m.file.faults = [] := rfl
  have hlen : (DatabaseHeader.codec.encode m.header).length = 37 := DatabaseHeader.encode_length _
  have hoff : pageOffset 1 m = .ok 8192 := by
    have hps : m.pageSize = 8192 := rfl
    rw [pageOffset, if_neg (by decide), if_neg (by decide), hlen, hps, if_neg (by decide)]
    exact if_pos (by decide)
  have hsmall : 8192 < 2 ^ 63 := by decide
  refine ⟨m, _, create_run 8192, writePage_run hf hoff hsmall linkedPage, ?_⟩
  rintro ⟨q, m'', hq, -⟩
  obtain ⟨m₁, hread⟩ := readPage_stored hf hoff hsmall (linkedPage.updateChecksum m.pageSize)
  rw [hread] at hq
  unfold query at hq
  split at hq
  · rename_i q' hparse
    refine Page.fromBytes_block_of_linked ?_ _ _ (parseBlock_eq_ok.mp hparse).1
    rw [PageHeader.encode_length]
    show 26 < 26 + 0 + 8
    decide
  · cases hq

end DefaultFileManager

end Rustgresql
