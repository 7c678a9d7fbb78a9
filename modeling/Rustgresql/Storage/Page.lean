import Rustgresql.Basic
import Rustgresql.Lib.Wire
import Rustgresql.Lib.Crc32c

/-!
# Pages (`storage/page.rs`)

A page is a header and a data area that share one block of `page_size` bytes on disk. The header is
serialized with `bincode`, so its length depends on its two optional links: 26 bytes without links
and 8 more for each link.
-/

namespace Rustgresql

open Wire

/-- Page types. -/
inductive PageType
  | header
  | bTreeInternal
  | bTreeLeaf
  | data
  | wal
  | free
  deriving DecidableEq, Repr

/-- The variant index under which `bincode` stores a page type. -/
def PageType.index : PageType → UInt32
  | .header => 0
  | .bTreeInternal => 1
  | .bTreeLeaf => 2
  | .data => 3
  | .wal => 4
  | .free => 5

/-- The page type stored under a variant index. -/
def PageType.ofIndex (i : UInt32) : Option PageType :=
  [PageType.header, .bTreeInternal, .bTreeLeaf, .data, .wal, .free].find? (·.index = i)

def PageType.codec : Codec PageType :=
  Codec.u32.via PageType.index PageType.ofIndex (by intro t; cases t <;> rfl)

/-- Page header. -/
structure PageHeader where
  pageId : PageId
  pageType : PageType
  prevPageId : Option PageId
  nextPageId : Option PageId
  freeBytes : UInt64
  checksum : UInt32
  deriving DecidableEq, Repr

/-- The `bincode` form of a page header: its fields in order. -/
def PageHeader.codec : Codec PageHeader :=
  (Codec.u64.seq <| PageType.codec.seq <| Codec.u64.option.seq <| Codec.u64.option.seq <|
    Codec.u64.seq Codec.u32).via
    (fun h => (h.pageId, h.pageType, h.prevPageId, h.nextPageId, h.freeBytes, h.checksum))
    (fun t => some ⟨t.1, t.2.1, t.2.2.1, t.2.2.2.1, t.2.2.2.2.1, t.2.2.2.2.2⟩)
    (fun _ => rfl)

/-- A page: header and raw data. -/
structure Page where
  header : PageHeader
  data : List UInt8
  deriving DecidableEq, Repr

namespace Page

/-- `Page::new`: the data area is as long as the whole block. -/
def new (pageId : PageId) (pageType : PageType) (pageSize : ℕ) : Page where
  header :=
    { pageId, pageType, prevPageId := none, nextPageId := none,
      freeBytes := UInt64.ofNat pageSize, checksum := 0 }
  data := List.replicate pageSize 0

/-- The block that is written to disk: header, data, cut or padded to the page size. -/
def block (p : Page) (pageSize : ℕ) : List UInt8 :=
  resize (PageHeader.codec.encode p.header ++ p.data) pageSize 0

/-- `Page::calculate_checksum`: CRC-32C of the block with the checksum field zeroed. -/
def calculateChecksum (p : Page) (pageSize : ℕ) : UInt32 :=
  Crc32c.checksum ({ p with header := { p.header with checksum := 0 } }.block pageSize)

/-- `Page::verify`. -/
def verify (p : Page) (pageSize : ℕ) : Bool :=
  p.calculateChecksum pageSize == p.header.checksum

/-- `Page::update_checksum`. -/
def updateChecksum (p : Page) (pageSize : ℕ) : Page :=
  { p with header := { p.header with checksum := p.calculateChecksum pageSize } }

/-- `Page::to_bytes`. -/
def toBytes (p : Page) (pageSize : ℕ) : Result (List UInt8) :=
  .ok (p.block pageSize)

/-- The header that `from_bytes` serializes to learn how long a header is. -/
def dummyHeader : PageHeader :=
  { pageId := 0, pageType := .data, prevPageId := none, nextPageId := none, freeBytes := 0,
    checksum := 0 }

/-- The header length that `from_bytes` assumes. -/
def headerSize : ℕ := (PageHeader.codec.encode dummyHeader).length

/-- `Page::from_bytes`. Slicing off the header panics when the block is shorter than that. -/
def fromBytes (bytes : List UInt8) : Result Page :=
  if bytes.length < headerSize then
    .error (.panic "range end index out of range for slice")
  else
    match PageHeader.codec.deserialize (bytes.take headerSize) with
    | none => .error (.err (.serialization bincodeErrorText))
    | some header => .ok { header, data := bytes.drop headerSize }

end Page

/-! ## Header lengths -/

theorem PageType.valid (t : PageType) : PageType.codec.Valid t := Codec.u32_valid _

theorem PageType.codec_canonical : PageType.codec.Canonical :=
  Codec.u32_canonical.via fun a b _ h => by
    have hfound := List.find?_some h
    simpa using hfound

theorem PageHeader.valid (h : PageHeader) : PageHeader.codec.Valid h :=
  ⟨Codec.u64_valid _, PageType.valid _, fun a _ => Codec.u64_valid a, fun a _ => Codec.u64_valid a,
    Codec.u64_valid _, Codec.u32_valid _⟩

theorem PageHeader.codec_canonical : PageHeader.codec.Canonical :=
  (Codec.u64_canonical.seq <| PageType.codec_canonical.seq <| Codec.u64_canonical.option.seq <|
    Codec.u64_canonical.option.seq <| Codec.u64_canonical.seq Codec.u32_canonical).via
    fun a b _ h => by rw [← Option.some.inj h]

/-- The bytes that an optional link adds to the header. -/
def linkSize (link : Option PageId) : ℕ := if link.isSome then 8 else 0

theorem linkSize_eq (link : Option PageId) :
    (Codec.u64.option.encode link).length = 1 + linkSize link := by
  cases link with
  | none => rfl
  | some id => simp [Codec.option, linkSize]

theorem PageHeader.encode_length (h : PageHeader) :
    (PageHeader.codec.encode h).length = 26 + linkSize h.prevPageId + linkSize h.nextPageId := by
  simp only [PageHeader.codec, Codec.via, Codec.seq, List.length_append, linkSize_eq,
    Codec.u64_length, Codec.u32_length, PageType.codec]
  omega

theorem Page.headerSize_eq : Page.headerSize = 26 := PageHeader.encode_length _

/-- Only a header without links is as short as the one `from_bytes` reads. -/
theorem PageHeader.encode_length_le {h : PageHeader} :
    (PageHeader.codec.encode h).length ≤ 26 ↔ h.prevPageId = none ∧ h.nextPageId = none := by
  rw [PageHeader.encode_length]
  cases h.prevPageId <;> cases h.nextPageId <;> simp [linkSize]

@[simp] theorem Page.block_length (p : Page) (pageSize : ℕ) :
    (p.block pageSize).length = pageSize := resize_length ..

end Rustgresql
