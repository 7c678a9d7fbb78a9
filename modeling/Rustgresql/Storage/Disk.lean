import Rustgresql.Storage.FreeList
import Rustgresql.Lib.HashMap

/-!
# File managers

The buffer pool works with any file manager. `FileManager` is the interface, and `DefaultFileManager`
and the mock of the tests implement it. `LawfulFileManager` is its contract: what a page holds is
what was last written to it. `Watched` notes what reads return and whether a call has failed.
-/

namespace Rustgresql

open StateSpec

/-- The trait `FileManager`, as far as the buffer pool uses it. -/
class FileManager (φ : Type) where
  readPage : PageId → EStateM Failure φ Page
  writePage : PageId → Page → EStateM Failure φ Unit
  allocatePage : PageType → EStateM Failure φ PageId
  deallocatePage : PageId → EStateM Failure φ Unit

instance : FileManager DefaultFileManager where
  readPage := DefaultFileManager.readPage
  writePage := DefaultFileManager.writePage
  allocatePage := DefaultFileManager.allocatePage
  deallocatePage := DefaultFileManager.deallocatePage

/-- What a page holds: all of it but the checksum, which a file manager may set when it writes. -/
def Page.content (p : Page) : Page := { p with header := { p.header with checksum := 0 } }

/-- A file manager that stores pages. Reading, writing and allocating, as long as they return, keep
`Good` states and act on the contents of the pages of the store; an allocated page is new. -/
class LawfulFileManager (φ : Type) [FileManager φ] where
  content : φ → PageId → Option Page
  Good : φ → Prop
  read_ok : ∀ {s s' : φ} {p : PageId} {page : Page}, Good s →
    FileManager.readPage p s = .ok page s' →
    Good s' ∧ content s p = some page.content ∧ content s' = content s
  write_ok : ∀ {s s' : φ} {p : PageId} {page : Page}, Good s → (content s p).isSome →
    FileManager.writePage p page s = .ok () s' →
    Good s' ∧ content s' = Function.update (content s) p (some page.content)
  allocate_ok : ∀ {s s' : φ} {t : PageType} {p : PageId}, Good s →
    FileManager.allocatePage t s = .ok p s' →
    Good s' ∧ content s p = none ∧ ∃ page, content s' = Function.update (content s) p (some page)

/-! ## The mock file manager (`storage/test_utils.rs`) -/

/-- Mock file manager for testing. -/
structure MockFileManager where
  pages : HashMap PageId Page
  nextPageId : PageId

namespace MockFileManager

/-- `MockFileManager::new`. -/
def new : MockFileManager := ⟨∅, 1⟩

/-- `MockFileManager::read_page`. -/
def readPage (pageId : PageId) : EStateM Failure MockFileManager Page := fun s =>
  match s.pages.lookup pageId with
  | some page => .ok page s
  | none => .error (.err (.pageNotFound pageId)) s

/-- `MockFileManager::write_page`. -/
def writePage (pageId : PageId) (page : Page) : EStateM Failure MockFileManager Unit :=
  modify fun s => { s with pages := s.pages.insert pageId page }

/-- `MockFileManager::allocate_page`. -/
def allocatePage (pageType : PageType) : EStateM Failure MockFileManager PageId := do
  let pageId := (← get).nextPageId
  require (pageId.toNat + 1 < 2 ^ 64) (.panic "attempt to add with overflow")
  let page := Page.new pageId pageType 8192
  modify fun s => ⟨s.pages.insert pageId page, pageId + 1⟩
  pure pageId

/-- `MockFileManager::deallocate_page`. -/
def deallocatePage (pageId : PageId) : EStateM Failure MockFileManager Unit :=
  modify fun s => { s with pages := s.pages.erase pageId }

instance : FileManager MockFileManager where
  readPage := readPage
  writePage := writePage
  allocatePage := allocatePage
  deallocatePage := deallocatePage

/-- What the pages of the map hold. -/
def content (s : MockFileManager) (p : PageId) : Option Page := (s.pages.lookup p).map Page.content

/-- Writing to a page is storing in the map of pages. -/
theorem content_insert (s : MockFileManager) (p next : PageId) (page : Page) :
    content ⟨s.pages.insert p page, next⟩ =
      Function.update (content s) p (some page.content) := by
  funext x
  rw [content, HashMap.lookup_insert_eq, Function.update_apply]
  split <;> rfl

theorem lookup_isSome_of_content {s : MockFileManager} {p : PageId} (h : (content s p).isSome) :
    (s.pages.lookup p).isSome := by
  rwa [content, Option.isSome_map] at h

instance : LawfulFileManager MockFileManager where
  content := content
  Good s := ∀ p ∈ s.pages, p < s.nextPageId
  read_ok {s s' p page} hgood h := by
    change readPage p s = _ at h
    rw [readPage] at h
    split at h
    · next hpage =>
      cases h
      exact ⟨hgood, congrArg _ hpage, rfl⟩
    · cases h
  write_ok {s s' p page} hgood hsome h := by
    cases h
    refine ⟨fun x hx => ?_, content_insert s p _ page⟩
    rcases (AList.mem_insert _).mp hx with rfl | hx
    · exact hgood x (AList.lookup_isSome.mp (lookup_isSome_of_content hsome))
    · exact hgood x hx
  allocate_ok {s s' t p} hgood h := by
    change allocatePage t s = _ at h
    by_cases hfits : s.nextPageId.toNat + 1 < 2 ^ 64
    · rw [allocatePage, get_bind, bind_of_ok (require_of hfits _ _)] at h
      cases h
      have hlt : s.nextPageId < s.nextPageId + 1 := by
        rw [UInt64.lt_iff_toNat_lt, UInt64.toNat_add]
        exact (Nat.lt_succ_self _).trans_eq (Nat.mod_eq_of_lt hfits).symm
      refine ⟨fun x hx => ?_, ?_, _, content_insert s _ _ _⟩
      · rcases (AList.mem_insert _).mp hx with rfl | hx
        · exact hlt
        · exact UInt64.lt_trans (hgood x hx) hlt
      · refine Option.map_eq_none_iff.mpr (AList.lookup_eq_none.mpr fun hmem => ?_)
        exact UInt64.lt_irrefl _ (hgood _ hmem)
    · rw [allocatePage, get_bind, bind_of_error (require_of_not hfits _ _)] at h
      cases h

end MockFileManager

/-! ## Watching the calls -/

/-- A file manager, whether one of the calls on it has failed, and what the reads of pages have
returned, the latest first. -/
structure Watched (φ : Type) where
  manager : φ
  failed : Bool
  reads : List (PageId × Page)

namespace Watched

variable {φ : Type}

/-- Start to watch a file manager. -/
def new (manager : φ) : Watched φ := ⟨manager, false, []⟩

/-- What the latest read of a page returned. -/
def lastRead (s : Watched φ) (p : PageId) : Option Page := s.reads.lookup p

/-- Make a call and note whether it fails. -/
def watch {α : Type} (act : EStateM Failure φ α) : EStateM Failure (Watched φ) α := fun s =>
  match act s.manager with
  | .ok a manager => .ok a { s with manager }
  | .error e manager => .error e { s with manager, failed := true }

/-- Note what a read of a page has returned. -/
def noteRead (p : PageId) (page : Page) : EStateM Failure (Watched φ) Page := do
  modify fun s => { s with reads := (p, page) :: s.reads }
  pure page

/-- A watched call does what the call does, and the failure is noted. -/
theorem spec_watch {α : Type} (act : EStateM Failure φ α) (s : Watched φ) :
    Spec (watch act) s
      (fun a s' => act s.manager = .ok a s'.manager ∧ s'.failed = s.failed ∧ s'.reads = s.reads)
      (fun e s' => act s.manager = .error e s'.manager ∧ s'.failed = true ∧ s'.reads = s.reads) := by
  unfold Spec watch
  cases hrun : act s.manager <;> exact ⟨rfl, rfl, rfl⟩

instance [FileManager φ] : FileManager (Watched φ) where
  readPage p := do noteRead p (← watch (FileManager.readPage p))
  writePage p page := watch (FileManager.writePage p page)
  allocatePage t := watch (FileManager.allocatePage t)
  deallocatePage p := watch (FileManager.deallocatePage p)

section

variable [FileManager φ]

/-- What a watched read does. -/
theorem spec_readPage (p : PageId) (s : Watched φ) :
    Spec (FileManager.readPage p) s
      (fun page s' => FileManager.readPage p s.manager = .ok page s'.manager ∧
        s'.failed = s.failed ∧ s'.reads = (p, page) :: s.reads)
      (fun e s' => FileManager.readPage p s.manager = .error e s'.manager ∧ s'.failed = true ∧
        s'.reads = s.reads) := by
  refine (spec_watch (FileManager.readPage p) s).bind ?_
  rintro page s' ⟨hrun, hfailed, hreads⟩
  exact ⟨hrun, hfailed, congrArg _ hreads⟩

theorem lastRead_of_read {s s' : Watched φ} {p : PageId} {page : Page}
    (h : FileManager.readPage p s = .ok page s') (q : PageId) :
    s'.lastRead q = if q = p then some page else s.lastRead q := by
  rw [lastRead, lastRead, ((spec_readPage p s).post h).2.2, List.lookup_cons]
  split <;> simp_all

end

instance [FileManager φ] [LawfulFileManager φ] : LawfulFileManager (Watched φ) where
  content s := LawfulFileManager.content s.manager
  Good s := LawfulFileManager.Good s.manager
  read_ok hgood h := LawfulFileManager.read_ok hgood ((spec_readPage _ _).post h).1
  write_ok hgood hsome h := LawfulFileManager.write_ok hgood hsome ((spec_watch _ _).post h).1
  allocate_ok hgood h := LawfulFileManager.allocate_ok hgood ((spec_watch _ _).post h).1

end Watched

end Rustgresql
