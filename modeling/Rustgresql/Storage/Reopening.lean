import Rustgresql.Storage.HeaderLock

/-!
# Opening a database file again (`storage/file_manager.rs`)

`open` reads the header that `write_header` has left at the beginning of the file. On a file whose calls do not fail,
opening succeeds after every run of calls, also if a call has panicked or waits for itself, and every page reads as
it was written last, in this or an earlier process (`reads_written`).
-/

namespace Rustgresql

open Wire StateSpec

namespace DatabaseHeader

/-- `DatabaseHeader::verify`. -/
def verify (h : DatabaseHeader) : Bool :=
  let bytes := codec.encode h
  Crc32c.checksum (bytes.take (bytes.length - 4)) == h.checksum

theorem valid (h : DatabaseHeader) : codec.Valid h :=
  ⟨Codec.u64_valid _, Codec.u32_valid _, Codec.u32_valid _, Codec.u64_valid _, Codec.u64_valid _,
    fun a _ => Codec.u64_valid a, Codec.u32_valid _⟩

/-- The checksum is the last field. -/
theorem exists_encode_eq (h : DatabaseHeader) : ∃ front, ∀ c : UInt32,
    codec.encode { h with checksum := c } = front ++ Codec.u32.encode c := by
  refine ⟨Codec.u64.encode h.magicNumber ++ (Codec.u32.encode h.version ++ (Codec.u32.encode h.pageSize ++
    (Codec.u64.encode h.totalPages ++ (Codec.u64.encode h.freePages ++ Codec.u64.option.encode h.firstFreePage)))),
    fun c => ?_⟩
  simp only [codec, Codec.via, Codec.seq, List.append_assoc]

theorem verify_updateChecksum (h : DatabaseHeader) : h.updateChecksum.verify = true := by
  obtain ⟨front, hfront⟩ := h.exists_encode_eq
  have htake (c : UInt32) : (front ++ Codec.u32.encode c).take ((front ++ Codec.u32.encode c).length - 4) = front := by
    rw [List.length_append, Codec.u32_length, Nat.add_sub_cancel, List.take_left]
  have hupdate : h.updateChecksum = { h with checksum := Crc32c.checksum front } := by
    rw [updateChecksum, hfront, htake]
  rw [hupdate, verify, hfront, htake]
  exact beq_self_eq_true _

end DatabaseHeader

namespace DefaultFileManager

/-! ## Opening -/

/-- What `read_header` makes of the first bytes of the file. -/
def parseHeader (headerBytes : List UInt8) : Result DatabaseHeader :=
  match DatabaseHeader.codec.deserialize headerBytes with
  | some header => .ok header
  | none => .error (.err (.serialization bincodeErrorText))

/-- `DefaultFileManager::read_header`. -/
def readHeader : Call Unit := do
  onFile (ByteFile.seekStart 0) .io
  let headerBytes ← onFile (ByteFile.read 1024) .io
  require (headerBytes ≠ []) (.err (.storage "Empty database file"))
  let header ← query fun _ => parseHeader headerBytes
  require (header.verify = true) (.err (.corruption "Invalid header checksum"))
  require (header.magicNumber = (DatabaseHeader.new 0).magicNumber) (.err (.corruption "Invalid magic number"))
  modify fun m => { m with header, pageSize := header.pageSize.toNat }

/-- `DefaultFileManager::open`, on the file with its cursor where opening puts it. -/
def openFile (file : ByteFile) : EStateM.Result Failure DefaultFileManager Unit :=
  readHeader { file := { file with cursor := 0 }, header := DatabaseHeader.new 8192, pageSize := 8192 }

/-! ## A file and the processes that have it open -/

/-- What happens to a file: a call, or the end of the process after which another one opens the file. -/
inductive FileEvent
  | call (op : FileOp)
  | reopen

/-- The process that has the file open, and the pages as calls that returned have written them last. -/
structure PageStore where
  caller : Caller
  written : PageId → Option Page := fun _ => none

/-- The page that a call writes if it returns. `deallocate_page` does not come to write. -/
def FileOp.writes (m : DefaultFileManager) : FileOp → Option (PageId × Page)
  | .allocate pageType =>
    match allocatePage pageType m with
    | .ok pageId _ => some (pageId, (Page.new pageId pageType m.pageSize).updateChecksum m.pageSize)
    | .error _ _ => none
  | .write pageId page =>
    match writePage pageId page m with
    | .ok _ _ => some (pageId, page)
    | .error _ _ => none
  | .deallocate _ | .read _ | .sync => none

namespace PageStore

/-- The process after opening or creating a file -/
def opened : EStateM.Result Failure DefaultFileManager Unit → Caller
  | .ok _ fm => { fm }
  | .error e fm => { fm, stopped := some e }

def start (pageSize : UInt32) : PageStore := { caller := opened (create .empty pageSize) }

/-- The pages that are written, with one more if there is one -/
def recorded (written : PageId → Option Page) : Option (PageId × Page) → PageId → Option Page
  | none => written
  | some (pageId, page) => Function.update written pageId (some page)

def step (s : PageStore) : FileEvent → PageStore
  | .call op =>
    { caller := s.caller.step op
      written :=
        if s.caller.stopped.isSome then s.written else recorded s.written (op.writes s.caller.fm) }
  | .reopen => { s with caller := opened (openFile s.caller.fm.file) }

def run (s : PageStore) (events : List FileEvent) : PageStore := events.foldl step s

end PageStore

/-! ## Where a page is -/

/-- The offset of a page, with a header that has no free list -/
def pageStart (pageSize : ℕ) (pageId : PageId) : ℕ :=
  ((37 + pageSize - 1) / pageSize + (pageId - 1).toNat) * pageSize

theorem le_pageStart {pageSize : ℕ} (h : pageSize ≠ 0) (pageId : PageId) : 37 ≤ pageStart pageSize pageId := by
  have hdiv := Nat.div_add_mod' (37 + pageSize - 1) pageSize
  have hmod := Nat.mod_lt (37 + pageSize - 1) (Nat.pos_of_ne_zero h)
  rw [pageStart, Nat.add_mul]
  omega

/-- Two pages do not overlap. -/
theorem pageStart_disjoint (pageSize : ℕ) {p q : PageId} (h : p ≠ q) :
    pageStart pageSize p + pageSize ≤ pageStart pageSize q ∨
      pageStart pageSize q + pageSize ≤ pageStart pageSize p := by
  have hne : (p - 1).toNat ≠ (q - 1).toNat := fun heq => h (by
    have hsub : p - 1 = q - 1 := UInt64.toNat_inj.mp heq
    rw [← UInt64.sub_add_cancel p 1, hsub, UInt64.sub_add_cancel])
  unfold pageStart
  generalize (37 + pageSize - 1) / pageSize = first
  rcases Nat.lt_or_gt_of_ne hne with hlt | hlt
  · left
    rw [← Nat.succ_mul]
    exact Nat.mul_le_mul_right _ (by omega)
  · right
    rw [← Nat.succ_mul]
    exact Nat.mul_le_mul_right _ (by omega)

section Calls

variable {m : DefaultFileManager}

theorem pageOffset_eq_ok (hfree : m.headerLocked = false) (hlist : m.header.firstFreePage = none) {pageId : PageId}
    {offset : ℕ} (h : pageOffset pageId m = .ok offset) :
    pageId ≠ 0 ∧ m.pageSize ≠ 0 ∧ offset = pageStart m.pageSize pageId := by
  have hlen : (DatabaseHeader.codec.encode m.header).length = 37 := by
    rw [DatabaseHeader.encode_length, hlist]
    rfl
  rw [pageOffset, if_neg (by simp [hfree]), hlen] at h
  by_cases hid : pageId = 0
  · rw [if_pos hid] at h
    cases h
  by_cases hsize : m.pageSize = 0
  · rw [if_neg hid, if_pos hsize] at h
    cases h
  rw [if_neg hid, if_neg hsize] at h
  dsimp only at h
  split_ifs at h
  cases h
  exact ⟨hid, hsize, rfl⟩

theorem pageOffset_pageStart (hfree : m.headerLocked = false) (hlist : m.header.firstFreePage = none) {pageId : PageId}
    (hid : pageId ≠ 0) (hsize : m.pageSize ≠ 0) (hsmall : pageStart m.pageSize pageId < 2 ^ 63) :
    pageOffset pageId m = .ok (pageStart m.pageSize pageId) := by
  have hlen : (DatabaseHeader.codec.encode m.header).length = 37 := by
    rw [DatabaseHeader.encode_length, hlist]
    rfl
  rw [pageOffset, if_neg (by simp [hfree]), hlen, if_neg hid, if_neg hsize]
  have hfits : pageStart m.pageSize pageId < 2 ^ 64 := by omega
  exact if_pos hfits

end Calls

/-! ## What is in the file -/

/-- A header of a database with pages of that size and no free list -/
structure HeaderFine (pageSize : ℕ) (h : DatabaseHeader) : Prop where
  magic : h.magicNumber = (DatabaseHeader.new 0).magicNumber
  size : h.pageSize.toNat = pageSize
  noList : h.firstFreePage = none

theorem HeaderFine.length {pageSize : ℕ} {h : DatabaseHeader} (hfine : HeaderFine pageSize h) :
    (DatabaseHeader.codec.encode h).length = 37 := by
  rw [DatabaseHeader.encode_length, hfine.noList]
  rfl

/-- The file begins with a header that opening accepts, and has the pages that have been written. -/
structure Stores (pageSize : ℕ) (written : PageId → Option Page) (m : DefaultFileManager) : Prop where
  faults : m.file.faults = []
  size : m.pageSize = pageSize
  fine : HeaderFine pageSize m.header
  stored : ∃ h, h.verify = true ∧ HeaderFine pageSize h ∧ ByteFile.HasAt m.file.bytes 0 (DatabaseHeader.codec.encode h)
  pages : ∀ pageId page, written pageId = some page → pageId ≠ 0 ∧ pageSize ≠ 0 ∧ pageStart pageSize pageId < 2 ^ 63 ∧
    ByteFile.HasAt m.file.bytes (pageStart pageSize pageId) ((page.updateChecksum pageSize).block pageSize)

section Stores

variable {pageSize : ℕ} {written : PageId → Option Page} {m : DefaultFileManager}

theorem Stores.congr (h : Stores pageSize written m) {m' : DefaultFileManager} (hbytes : m'.file.bytes = m.file.bytes)
    (hfaults : m'.file.faults = []) (hsize : m'.pageSize = pageSize) (hfine : HeaderFine pageSize m'.header) :
    Stores pageSize written m' :=
  ⟨hfaults, hsize, hfine, hbytes ▸ h.stored, hbytes ▸ h.pages⟩

theorem Stores.locked (h : Stores pageSize written m) (locked : Bool) :
    Stores pageSize written { m with headerLocked := locked } := h.congr rfl h.faults h.size h.fine

theorem keeps_onFile_stores {α : Type} {act : ByteFile.Io α} (wrap : ByteFile.IoError → RustgreSQLError)
    (hact : ∀ f, f.faults = [] → Spec act f (fun _ f' => f'.bytes = f.bytes ∧ f'.faults = [])
      fun _ f' => f'.bytes = f.bytes ∧ f'.faults = []) :
    Keeps (Stores pageSize written) (onFile act wrap) := by
  intro m h
  have hfile := hact m.file h.faults
  unfold Spec onFile at *
  cases hrun : act m.file with
  | ok a f =>
    rw [hrun] at hfile
    exact h.congr hfile.1 hfile.2 h.size h.fine
  | error e f =>
    rw [hrun] at hfile
    exact h.congr hfile.1 hfile.2 h.size h.fine

theorem keeps_readPage (pageId : PageId) : Keeps (Stores pageSize written) (readPage pageId) := by
  refine (keeps_query _).bind fun offset => Keeps.bind ?_ fun _ => Keeps.get_bind fun m =>
    Keeps.bind ?_ fun pageBytes => (Keeps.require _ _).bind fun _ => keeps_query _
  · refine keeps_onFile_stores _ fun f hf => ?_
    unfold Spec ByteFile.seekStart ByteFile.guarded
    rw [hf]
    dsimp only
    split_ifs
    · exact ⟨rfl, hf⟩
    · exact ⟨rfl, hf⟩
  · refine keeps_onFile_stores _ fun f hf => Spec.of_ok (ByteFile.read_run hf _) ⟨rfl, hf⟩

theorem keeps_sync : Keeps (Stores pageSize written) sync := by
  refine Keeps.bind ?_ fun _ => ?_
  · exact keeps_onFile_stores _ fun f hf => Spec.of_ok (ByteFile.flush_run hf) ⟨rfl, hf⟩
  · exact keeps_onFile_stores _ fun f hf => Spec.of_ok (ByteFile.syncAll_run hf) ⟨rfl, hf⟩

/-- A call that writes a page writes all of it, or nothing. -/
theorem spec_writePage (h : Stores pageSize written m) (hfree : m.headerLocked = false) (pageId : PageId)
    (page : Page) : Spec (writePage pageId page) m
      (fun _ m' => Stores pageSize (Function.update written pageId (some page)) m' ∧ m'.headerLocked = false)
      fun _ m' => m' = m := by
  have hsize := h.size
  unfold Spec
  rcases hoff : pageOffset pageId m with e | offset
  · rw [writePage, bind_of_error (query_error hoff)]
  by_cases hsmall : offset < 2 ^ 63
  · rw [writePage_run h.faults hoff hsmall page]
    obtain ⟨hid, hpos, rfl⟩ := pageOffset_eq_ok hfree h.fine.noList hoff
    rw [hsize] at hpos hsmall ⊢
    have hlength : ((page.updateChecksum pageSize).block pageSize).length = pageSize := Page.block_length ..
    refine ⟨⟨h.faults, hsize, h.fine, ?_, ?_⟩, hfree⟩
    · obtain ⟨header, hverify, hfine, hheader⟩ := h.stored
      refine ⟨header, hverify, hfine, hheader.overwrite (.inl ?_)⟩
      rw [hfine.length, Nat.zero_add]
      exact le_pageStart hpos pageId
    · intro other page' hother
      by_cases heq : other = pageId
      · subst heq
        rw [Function.update_self] at hother
        cases hother
        exact ⟨hid, hpos, hsmall, ByteFile.hasAt_overwrite _ _ _⟩
      · rw [Function.update_of_ne heq] at hother
        obtain ⟨hother0, -, hsmall', hhas⟩ := h.pages other page' hother
        have hlength' : ((page'.updateChecksum pageSize).block pageSize).length = pageSize := Page.block_length ..
        refine ⟨hother0, hpos, hsmall', hhas.overwrite ?_⟩
        rw [hlength, hlength']
        exact pageStart_disjoint pageSize heq
  · have hseek (wrap : ByteFile.IoError → RustgreSQLError) :
        onFile (ByteFile.seekStart offset) wrap m = .error (.err (wrap .invalidInput)) m := by
      simp only [onFile, ByteFile.seekStart, ByteFile.guarded, h.faults, if_neg hsmall]
    rw [writePage, bind_of_ok (query_ok hoff), get_bind, bind_of_error (hseek _)]

theorem writeHeader_run (hf : m.file.faults = []) (hfree : m.headerLocked = false) : writeHeader m = .ok ()
    { m with
      header := m.header.updateChecksum
      file := ByteFile.store (DatabaseHeader.codec.encode m.header.updateChecksum) { m.file with cursor := 0 } } := by
  obtain ⟨⟨bytes, cursor, faults⟩, header, size, locked⟩ := m
  obtain rfl : faults = [] := hf
  obtain rfl : locked = false := hfree
  rfl

theorem spec_writeHeader (h : Stores pageSize written m) (hfree : m.headerLocked = false) :
    Spec writeHeader m (fun _ m' => Stores pageSize written m' ∧ m'.headerLocked = false) fun _ _ => False := by
  have hfine : HeaderFine pageSize m.header.updateChecksum := ⟨h.fine.magic, h.fine.size, h.fine.noList⟩
  refine Spec.of_ok (writeHeader_run h.faults hfree) ⟨⟨h.faults, h.size, hfine, ?_, ?_⟩, hfree⟩
  · exact ⟨_, m.header.verify_updateChecksum, hfine, ByteFile.hasAt_overwrite _ _ _⟩
  · intro pageId page hpage
    obtain ⟨hid, hpos, hsmall, hhas⟩ := h.pages pageId page hpage
    refine ⟨hid, hpos, hsmall, hhas.overwrite (.inr ?_)⟩
    rw [hfine.length, Nat.zero_add]
    exact le_pageStart hpos pageId

theorem spec_attempt_writePage (h : Stores pageSize written m) (hfree : m.headerLocked = false) (pageId : PageId)
    (page : Page) : Spec (attempt (writePage pageId page)) m
      (fun result m' => (∃ e, result = .error e ∧ m' = m) ∨
        result = .ok () ∧ Stores pageSize (Function.update written pageId (some page)) m' ∧ m'.headerLocked = false)
      fun _ m' => m' = m := by
  have hwrite := spec_writePage h hfree pageId page
  unfold Spec attempt at *
  cases hrun : writePage pageId page m with
  | ok u m' =>
    rw [hrun] at hwrite
    exact .inr ⟨rfl, hwrite⟩
  | error e m' =>
    rw [hrun] at hwrite
    cases e with
    | err e => exact .inl ⟨e, rfl, hwrite⟩
    | panic | deadlock => exact hwrite

theorem spec_unclaimPage_stores (h : Stores pageSize written m) (hfree : m.headerLocked = false) :
    Spec (withHeader unclaimPage) m (fun _ => Stores pageSize written) fun _ => Stores pageSize written := by
  refine spec_withHeader hfree ?_
  unfold Spec
  rw [unclaimPage, get_bind]
  by_cases hzero : m.header.totalPages = 0
  · rw [bind_of_error (require_of_not (by simpa using hzero) _ _)]
    exact ⟨by simp, h.locked false⟩
  · rw [bind_of_ok (require_of (by simpa using hzero) _ _)]
    exact h.congr rfl h.faults h.size ⟨h.fine.magic, h.fine.size, h.fine.noList⟩

theorem spec_extendFile_stores (h : Stores pageSize written m) (hfree : m.headerLocked = false) (pageId : PageId)
    (pageType : PageType) : Spec (extendFile pageId pageType) m
      (fun id m' => Stores pageSize
        (Function.update written id (some ((Page.new id pageType pageSize).updateChecksum pageSize))) m')
      fun _ => Stores pageSize written := by
  set page := (Page.new pageId pageType pageSize).updateChecksum pageSize with hpage
  have hrun : extendFile pageId pageType m = (do
      orUndo (writePage pageId page) unclaimPage
      writeHeader
      pure pageId : Call PageId) m := by
    rw [extendFile, get_bind, h.size]
  have hwrite : Spec (orUndo (writePage pageId page) unclaimPage) m
      (fun _ m' => Stores pageSize (Function.update written pageId (some page)) m' ∧ m'.headerLocked = false)
      fun _ => Stores pageSize written := by
    refine ((spec_attempt_writePage h hfree pageId page).mono (fun _ _ h => h) fun _ m' hm' => ?_).bind ?_
    · rw [hm']
      exact h
    · rintro result m' (⟨e, rfl, rfl⟩ | ⟨rfl, h'⟩)
      · exact (spec_unclaimPage_stores h hfree).bind fun _ _ h'' => Spec.throw h''
      · exact Spec.pure h'
  unfold Spec
  rw [hrun]
  refine Spec.bind (m := orUndo (writePage pageId page) unclaimPage) hwrite fun _ m₁ h₁ => ?_
  exact ((spec_writeHeader h₁.1 h₁.2).mono (fun _ _ h => h) fun _ _ h => h.elim).bind fun _ _ h' => Spec.pure h'.1

/-- An allocation that returns has written its page, and one that fails has written nothing. -/
theorem spec_allocatePage_stores (h : Stores pageSize written m) (hfree : m.headerLocked = false)
    (pageType : PageType) : Spec (allocatePage pageType) m
      (fun id m' => Stores pageSize
        (Function.update written id (some ((Page.new id pageType pageSize).updateChecksum pageSize))) m')
      fun _ => Stores pageSize written := by
  have hlock : Spec (withHeader findPage) m
      (fun found m' => found = .newPage m.header.totalPages ∧ Stores pageSize written m' ∧ m'.headerLocked = false)
      fun _ => Stores pageSize written := by
    refine spec_withHeader hfree ?_
    unfold Spec
    rw [findPage_of_noList (m := { m with headerLocked := true }) h.fine.noList]
    split_ifs
    · exact ⟨rfl, h.congr rfl h.faults h.size ⟨h.fine.magic, h.fine.size, h.fine.noList⟩, rfl⟩
    · exact ⟨by simp, h.locked false⟩
  refine hlock.bind ?_
  rintro found m₁ ⟨rfl, h₁, hfree₁⟩
  exact spec_extendFile_stores h₁ hfree₁ _ pageType

theorem spec_deallocatePage (h : Stores pageSize written m) (hfree : m.headerLocked = false) (pageId : PageId) :
    Spec (deallocatePage pageId) m (fun _ _ => False) fun _ => Stores pageSize written := by
  by_cases hpage : pageId < m.header.totalPages
  · unfold Spec
    rw [deallocatePage_of_lt hfree hpage]
    exact h.locked true
  · have hrelease : Spec (releasePage pageId) { m with headerLocked := true } (fun _ _ => False)
        fun e m' => e ≠ .deadlock ∧ Stores pageSize written { m' with headerLocked := false } := by
      unfold Spec
      rw [releasePage, get_bind, if_pos (UInt64.not_lt.mp hpage)]
      by_cases hzero : m.header.totalPages = 0
      · rw [bind_of_error (require_of_not (by simpa using hzero) _ _)]
        exact ⟨by simp, h.locked false⟩
      · rw [bind_of_ok (require_of (by simpa using hzero) _ _)]
        exact ⟨by simp, h.locked false⟩
    have hlock : Spec (withHeader (releasePage pageId)) m (fun _ _ => False) fun _ => Stores pageSize written :=
      spec_withHeader hfree hrelease
    exact hlock.bind fun _ _ h => h.elim

/-! ## Opening the file again -/

theorem readHeader_run (hf : m.file.faults = []) (hread : (m.file.bytes.take 1024) ≠ []) {header : DatabaseHeader}
    (hdecode : DatabaseHeader.codec.deserialize (m.file.bytes.take 1024) = some header) (hverify : header.verify = true)
    (hmagic : header.magicNumber = (DatabaseHeader.new 0).magicNumber) : readHeader m = .ok ()
      { m with
        file := { m.file with cursor := (m.file.bytes.take 1024).length }
        header
        pageSize := header.pageSize.toNat } := by
  set m₁ : DefaultFileManager := { m with file := { m.file with cursor := 0 } } with hm₁
  have hbytes := ByteFile.read_run (f := m₁.file) hf 1024
  rw [List.drop_zero, Nat.zero_add] at hbytes
  rw [readHeader, bind_of_ok (onFile_ok (ByteFile.seekStart_run hf (show 0 < 2 ^ 63 by decide))),
    bind_of_ok (onFile_ok hbytes), bind_of_ok (require_of hread _ _)]
  set m₂ : DefaultFileManager := { m with file := { m.file with cursor := (m.file.bytes.take 1024).length } } with hm₂
  have hquery : query (fun _ => parseHeader (m.file.bytes.take 1024)) m₂ = .ok header m₂ :=
    query_ok (by rw [parseHeader, hdecode])
  rw [bind_of_ok hquery, bind_of_ok (require_of hverify _ _), bind_of_ok (require_of hmagic _ _)]
  rfl

/-- Opening takes over the header, and leaves the bytes. -/
theorem openFile_ok (h : Stores pageSize written m) :
    ∃ m', openFile m.file = .ok () m' ∧ Stores pageSize written m' ∧ m'.headerLocked = false := by
  obtain ⟨header, hverify, hfine, hheader⟩ := h.stored
  have hlength := hfine.length
  unfold ByteFile.HasAt at hheader
  rw [List.drop_zero, hlength] at hheader
  have hread : m.file.bytes.take 1024 = DatabaseHeader.codec.encode header ++ (m.file.bytes.drop 37).take 987 := by
    rw [← hheader, ← List.take_add]
  have hne : m.file.bytes.take 1024 ≠ [] := by
    intro hnil
    rw [hread, List.append_eq_nil_iff] at hnil
    rw [hnil.1] at hlength
    cases hlength
  have hdecode : DatabaseHeader.codec.deserialize (m.file.bytes.take 1024) = some header := by
    rw [hread]
    exact Codec.deserialize_encode _ header.valid _
  set start : DefaultFileManager :=
    { file := { m.file with cursor := 0 }, header := DatabaseHeader.new 8192, pageSize := 8192 } with hstart
  refine ⟨_, readHeader_run (m := start) h.faults hne hdecode hverify hfine.magic, ?_, rfl⟩
  exact ⟨h.faults, hfine.size, hfine, h.stored, h.pages⟩

/-- A page that is stored is read from its block. -/
theorem readPage_of_stores (h : Stores pageSize written m) (hfree : m.headerLocked = false) {pageId : PageId}
    {page : Page} (hpage : written pageId = some page) : ∃ m', readPage pageId m =
      query (fun _ => parseBlock pageId pageSize ((page.updateChecksum pageSize).block pageSize)) m' := by
  obtain ⟨hid, hpos, hsmall, hhas⟩ := h.pages pageId page hpage
  have hsize := h.size
  subst hsize
  have hlength : ((page.updateChecksum m.pageSize).block m.pageSize).length = m.pageSize := Page.block_length ..
  unfold ByteFile.HasAt at hhas
  rw [hlength] at hhas
  exact ⟨_, readPage_run h.faults (pageOffset_pageStart hfree h.fine.noList hid hpos hsmall) hsmall hhas hlength⟩

end Stores

/-! ## Runs -/

namespace PageStore

/-- The file has the pages, and as long as the thread goes on it holds no lock. -/
structure Kept (pageSize : UInt32) (s : PageStore) : Prop where
  stores : Stores pageSize.toNat s.written s.caller.fm
  free : s.caller.Free

variable {pageSize : UInt32} {s : PageStore}

theorem kept_start (pageSize : UInt32) : Kept pageSize (start pageSize) := by
  refine ⟨⟨rfl, rfl, ⟨rfl, rfl, rfl⟩, ?_, fun _ _ h => by cases h⟩, fun _ => rfl⟩
  exact ⟨_, DatabaseHeader.verify_updateChecksum _, ⟨rfl, rfl, rfl⟩, ByteFile.hasAt_overwrite _ _ _⟩

/-- A call keeps what is in the file, and adds the page that it has written. -/
theorem spec_call {pageSize : ℕ} {written : PageId → Option Page} {m : DefaultFileManager}
    (h : Stores pageSize written m) (hfree : m.headerLocked = false) (op : FileOp) :
    Spec op.call m (fun _ => Stores pageSize (recorded written (op.writes m)))
      fun _ => Stores pageSize (recorded written (op.writes m)) := by
  cases op with
  | allocate pageType =>
    have hallocate := spec_allocatePage_stores h hfree pageType
    have hsize := h.size
    unfold Spec at *
    cases hrun : allocatePage pageType m with
    | ok pageId m' =>
      rw [hrun] at hallocate
      simp only [FileOp.call, FileOp.writes, Functor.discard, Functor.mapConst, Function.comp, EStateM.map,
        hrun, hsize]
      exact hallocate
    | error e m' =>
      rw [hrun] at hallocate
      simp only [FileOp.call, FileOp.writes, Functor.discard, Functor.mapConst, Function.comp, EStateM.map,
        hrun]
      exact hallocate
  | deallocate pageId => exact (spec_deallocatePage h hfree pageId).mono (fun _ _ h => h.elim) fun _ _ h => h
  | read pageId => exact (keeps_readPage pageId).discard m h
  | write pageId page =>
    have hwrite := spec_writePage h hfree pageId page
    unfold Spec at *
    rw [FileOp.call]
    cases hrun : writePage pageId page m with
    | ok u m' =>
      rw [hrun] at hwrite
      simp only [FileOp.writes, hrun]
      exact hwrite.1
    | error e m' =>
      rw [hrun] at hwrite
      simp only [FileOp.writes, hrun]
      rw [hwrite]
      exact h
  | sync => exact keeps_sync m h

theorem Kept.step (h : Kept pageSize s) (event : FileEvent) : Kept pageSize (s.step event) := by
  obtain ⟨hstores, hfree⟩ := h
  cases event with
  | reopen =>
    obtain ⟨m, hopen, hstores', hfree'⟩ := openFile_ok hstores
    refine ⟨?_, fun _ => ?_⟩
    · rw [PageStore.step, hopen]
      exact hstores'
    · rw [PageStore.step, hopen]
      exact hfree'
  | call op =>
    cases hstopped : s.caller.stopped with
    | some e =>
      have hstep : s.step (.call op) = s := by
        rw [PageStore.step, Caller.step_of_stopped (by simp [hstopped]), if_pos (by simp [hstopped])]
      rw [hstep]
      exact ⟨hstores, hfree⟩
    | none =>
      refine ⟨?_, ?_⟩
      · have hspec := spec_call hstores (hfree hstopped) op
        rw [PageStore.step, if_neg (by simp [hstopped])]
        unfold Spec at hspec
        unfold Caller.step
        rw [hstopped]
        cases hrun : op.call s.caller.fm with
        | ok u m =>
          rw [hrun] at hspec
          exact hspec
        | error e m =>
          rw [hrun] at hspec
          cases e <;> exact hspec
      · obtain ⟨hblocks, hpasses⟩ := passes_or_blocks (hfree hstopped) op
        by_cases hreads : ReadsUnderLock s.caller.fm op
        · intro hnone
          cases hnone.symm.trans (Caller.step_of_blocks hstopped (hblocks hreads))
        · exact (Caller.step_of_passes hstopped (hpasses hreads)).1

theorem kept_run (pageSize : UInt32) (events : List FileEvent) : Kept pageSize ((start pageSize).run events) := by
  unfold run
  have hall : ∀ s, Kept pageSize s → Kept pageSize (events.foldl PageStore.step s) := by
    induction events with
    | nil => exact fun _ h => h
    | cons event events ih => exact fun s h => ih _ (h.step event)
  exact hall _ (kept_start pageSize)

/-- However a database file has been used since it was created, and whatever has stopped the processes that had it open,
it can be opened again; a page that was written reads back with its content then exactly when it has no links and its
data area is 26 bytes shorter than a block. -/
theorem reads_written (pageSize : UInt32) (events : List FileEvent) :
    ∃ m, openFile ((start pageSize).run events).caller.fm.file = .ok () m ∧
      ∀ pageId page, ((start pageSize).run events).written pageId = some page →
        ((∃ q m', readPage pageId m = .ok q m' ∧ SameContent page q) ↔
          page.header.prevPageId = none ∧ page.header.nextPageId = none ∧ page.data.length + 26 = pageSize.toNat) := by
  obtain ⟨m, hopen, hstores, hfree⟩ := openFile_ok (kept_run pageSize events).stores
  refine ⟨m, hopen, fun pageId page hpage => ?_⟩
  obtain ⟨m', hread⟩ := readPage_of_stores hstores hfree hpage
  rw [hread, exists_query_ok]
  exact parseBlock_sameContent_iff

/-- A page of 64 bytes as a reader sees it -/
def readablePage : Page := ⟨Page.dummyHeader, List.replicate 38 7⟩

/-- A page is written, and the process waits for itself when it frees the page. -/
def afterDeadlock : PageStore :=
  (start 64).run [.call (.allocate .data), .call (.write 1 readablePage), .call (.deallocate 1)]

theorem afterDeadlock_written : afterDeadlock.written 1 = some readablePage ∧
    afterDeadlock.caller.stopped = some .deadlock := by
  decide +kernel

/-- The next process reads the page. -/
theorem reads_written_afterDeadlock : afterDeadlock.caller.stopped = some .deadlock ∧
    ∃ m q m', openFile afterDeadlock.caller.fm.file = .ok () m ∧ readPage 1 m = .ok q m' ∧
      SameContent readablePage q := by
  obtain ⟨hwritten, hstopped⟩ := afterDeadlock_written
  have hreads := reads_written 64 [.call (.allocate .data), .call (.write 1 readablePage), .call (.deallocate 1)]
  rw [← afterDeadlock] at hreads
  obtain ⟨m, hopen, hreads⟩ := hreads
  obtain ⟨q, m', hread, hsame⟩ := (hreads 1 readablePage hwritten).mpr ⟨rfl, rfl, by decide⟩
  exact ⟨hstopped, m, q, m', hopen, hread, hsame⟩

end PageStore

end DefaultFileManager

end Rustgresql
