import Rustgresql.Storage.FileManager

/-!
# The free list (`storage/file_manager.rs`)

`allocate_page` takes a page from the free list, or else a new page at the end of the file.
`deallocate_page` puts a page on the list. Both read a page while they hold the header lock, and
`read_page` asks for that lock to work out the page's offset. So an `allocate_page` that finds a free
page and a `deallocate_page` of a page in the file wait for themselves and never return: the list is
in order exactly as long as nobody frees a page (`freeList_ok_iff`).
-/

namespace Rustgresql

open StateSpec

namespace DefaultFileManager

/-! ## The calls -/

/-- Run a call and hand back its `Err`. -/
def attempt {α : Type} (act : Call α) : Call (Except RustgreSQLError α) := fun m =>
  match act m with
  | .ok a m' => .ok (.ok a) m'
  | .error (.err e) m' => .ok (.error e) m'
  | .error e m' => .error e m'

/-- Run a call; if it returns an `Err`, undo a change of the header and pass the error on. -/
def orUndo (act undo : Call Unit) : Call Unit := do
  match ← attempt act with
  | .ok _ => pure ()
  | .error e =>
    withHeader undo
    throw (.err e)

/-- Change the header. -/
def setHeader (f : DatabaseHeader → DatabaseHeader) : Call Unit :=
  modify fun m => { m with header := f m.header }

/-- `header.free_pages += 1`. -/
def addFreePage : Call Unit := do
  require ((← get).header.freePages.toNat + 1 < 2 ^ 64) (.panic "attempt to add with overflow")
  setHeader fun h => { h with freePages := h.freePages + 1 }

/-- `header.free_pages -= 1`. -/
def removeFreePage : Call Unit := do
  require ((← get).header.freePages ≠ 0) (.panic "attempt to subtract with overflow")
  setHeader fun h => { h with freePages := h.freePages - 1 }

/-- `header.total_pages += 1`, with the number of the new page. -/
def claimPage : Call PageId := do
  let newPageId := (← get).header.totalPages
  require (newPageId.toNat + 1 < 2 ^ 64) (.panic "attempt to add with overflow")
  setHeader fun h => { h with totalPages := newPageId + 1 }
  pure newPageId

/-- `header.total_pages -= 1`. -/
def unclaimPage : Call Unit := do
  require ((← get).header.totalPages ≠ 0) (.panic "attempt to subtract with overflow")
  setHeader fun h => { h with totalPages := h.totalPages - 1 }

/-- What `allocate_page` finds while it holds the header lock. -/
inductive Found
  | freePage (pageId : PageId) (page : Page)
  | unreadable
  | newPage (pageId : PageId)

/-- The part of `allocate_page` under the header lock. -/
def findPage : Call Found := do
  match (← get).header.firstFreePage with
  | some freePageId =>
    match ← attempt (readPage freePageId) with
    | .ok page =>
      setHeader fun h => { h with firstFreePage := page.header.nextPageId }
      removeFreePage
      pure (.freePage freePageId page)
    | .error _ =>
      setHeader fun h => { h with firstFreePage := h.firstFreePage.filter (· ≠ freePageId) }
      pure .unreadable
  | none =>
    let newPageId ← claimPage
    pure (.newPage newPageId)

/-- The part of `allocate_page` that writes a new page at the end of the file. -/
def extendFile (newPageId : PageId) (pageType : PageType) : Call PageId := do
  let pageSize := (← get).pageSize
  let newPage := (Page.new newPageId pageType pageSize).updateChecksum pageSize
  orUndo (writePage newPageId newPage) unclaimPage
  writeHeader
  pure newPageId

/-- `DefaultFileManager::allocate_page`. -/
def allocatePage (pageType : PageType) : Call PageId := do
  match ← withHeader findPage with
  | .freePage freePageId page =>
    let header := { page.header with pageType, nextPageId := none }
    orUndo (writePage freePageId { page with header }) do
      setHeader fun h => { h with firstFreePage := some freePageId }
      addFreePage
    writeHeader
    pure freePageId
  | .unreadable =>
    -- the recursive call finds an empty list
    let newPageId ← withHeader claimPage
    extendFile newPageId pageType
  | .newPage newPageId => extendFile newPageId pageType

/-- The part of `deallocate_page` under the header lock. -/
def releasePage (pageId : PageId) : Call Page := do
  let header := (← get).header
  if pageId ≥ header.totalPages then
    require (header.totalPages ≠ 0) (.panic "attempt to subtract with overflow")
    throw (.err (.storage
      s!"Invalid page ID {pageId} for deallocation (max: {header.totalPages - 1})"))
  let page ← do
    match ← attempt (readPage pageId) with
    | .ok page => pure page
    | .error _ => pure (Page.new pageId .free (← get).pageSize)
  setHeader fun h => { h with firstFreePage := some pageId }
  addFreePage
  pure { page with
    header := { page.header with pageType := .free, nextPageId := header.firstFreePage } }

/-- `DefaultFileManager::deallocate_page`. -/
def deallocatePage (pageId : PageId) : Call Unit := do
  let page ← withHeader (releasePage pageId)
  orUndo (writePage pageId page) do
    setHeader fun h => { h with firstFreePage := h.firstFreePage.filter (· ≠ pageId) }
    removeFreePage
  writeHeader

/-! ## The free list of a run -/

/-- The calls that allocate and free pages. -/
inductive PageOp
  | allocate (pageType : PageType)
  | deallocate (pageId : PageId)

/-- A file manager, the pages that are in use and the pages that have been freed. -/
structure Tracked where
  fm : DefaultFileManager
  allocated : List PageId
  freed : List PageId

/-- Make one call. A page that `allocate_page` returns is in use from then on. A page given to
`deallocate_page` is freed, unless the call panics or returns an error. -/
def Tracked.step (s : Tracked) : PageOp → Tracked
  | .allocate pageType =>
    match allocatePage pageType s.fm with
    | .ok id fm => { fm, allocated := id :: s.allocated, freed := s.freed.filter (· ≠ id) }
    | .error _ fm => { s with fm }
  | .deallocate id =>
    match deallocatePage id s.fm with
    | .ok _ fm | .error .deadlock fm =>
      { fm, allocated := s.allocated.filter (· ≠ id), freed := id :: s.freed.filter (· ≠ id) }
    | .error _ fm => { s with fm }

/-- Make calls in order, going on after failures. -/
def Tracked.run (s : Tracked) (ops : List PageOp) : Tracked := ops.foldl Tracked.step s

/-- A new file manager. -/
def Tracked.start (fm : DefaultFileManager) : Tracked := ⟨fm, [], []⟩

/-- Reading pages from the given one on, through their links, visits these pages. -/
inductive FreeChain (m : DefaultFileManager) : Option PageId → List PageId → Prop
  | done : FreeChain m none []
  | page {id : PageId} {p : Page} {m' : DefaultFileManager} {rest : List PageId} :
      readPage id m = .ok p m' → FreeChain m p.header.nextPageId rest →
      FreeChain m (some id) (id :: rest)

/-- The free list visits exactly the freed pages, once each; it is as long as the header says, and no
page in use has been allocated twice. -/
def FreeListOk (s : Tracked) : Prop :=
  (∃ chain, FreeChain s.fm s.fm.header.firstFreePage chain ∧ chain.Nodup ∧
    (∀ id, id ∈ chain ↔ id ∈ s.freed) ∧ s.fm.header.freePages.toNat = chain.length) ∧
  s.allocated.Nodup

theorem freeChain_none_iff {m : DefaultFileManager} {chain : List PageId} :
    FreeChain m none chain ↔ chain = [] := by
  constructor
  · rintro ⟨⟩
    rfl
  · rintro rfl
    exact .done

/-! ## What the calls come to -/

theorem readPage_of_locked {m : DefaultFileManager} (h : m.headerLocked = true) (pageId : PageId) :
    readPage pageId m = .error .deadlock m := by
  have hoff : pageOffset pageId m = .error .deadlock := by rw [pageOffset, if_pos h]
  rw [readPage, bind_of_error (query_error hoff)]

/-- A call that frees a page of the file waits for the lock that it holds. -/
theorem deallocatePage_of_lt {m : DefaultFileManager} (hfree : m.headerLocked = false)
    {pageId : PageId} (h : pageId < m.header.totalPages) :
    deallocatePage pageId m = .error .deadlock { m with headerLocked := true } := by
  set m₁ : DefaultFileManager := { m with headerLocked := true } with hm₁
  have hread : attempt (readPage pageId) m₁ = .error .deadlock m₁ := by
    rw [attempt, readPage_of_locked rfl]
  have hrelease : releasePage pageId m₁ = .error .deadlock m₁ := by
    rw [releasePage, get_bind, if_neg (UInt64.not_le.mpr h)]
    exact bind_of_error hread
  have hlock : withHeader (releasePage pageId) m = .error .deadlock m₁ := by
    rw [withHeader, if_neg (by simp [hfree]), hrelease]
  rw [deallocatePage, bind_of_error hlock]

/-- A call that frees a page beyond the file is refused. -/
theorem deallocatePage_of_le {m : DefaultFileManager} (hfree : m.headerLocked = false)
    {pageId : PageId} (h : m.header.totalPages ≤ pageId) (hpos : m.header.totalPages ≠ 0) :
    ∃ e, deallocatePage pageId m = .error (.err e) m := by
  set m₁ : DefaultFileManager := { m with headerLocked := true } with hm₁
  have hrelease : ∃ e, releasePage pageId m₁ = .error (.err e) m₁ := by
    rw [releasePage, get_bind, if_pos h]
    exact ⟨_, bind_of_ok (require_of hpos _ _)⟩
  obtain ⟨e, hrelease⟩ := hrelease
  have hlock : withHeader (releasePage pageId) m = .error (.err e) m := by
    have hback : m = { m₁ with headerLocked := false } := by
      rw [hm₁, ← hfree]
    rw [withHeader, if_neg (by simp [hfree]), hrelease]
    exact congrArg _ hback.symm
  exact ⟨e, by rw [deallocatePage, bind_of_error hlock]⟩

/-- Nobody holds the header lock, no page is free, and the file has `total` pages. -/
structure Idle (total : UInt64) (m : DefaultFileManager) : Prop where
  unlocked : m.headerLocked = false
  noList : m.header.firstFreePage = none
  noFree : m.header.freePages = 0
  total : m.header.totalPages = total

theorem spec_withHeader {α : Type} {act : Call α} {m : DefaultFileManager}
    {Q : α → DefaultFileManager → Prop} {E : Failure → DefaultFileManager → Prop}
    (hfree : m.headerLocked = false)
    (hact : Spec act { m with headerLocked := true }
      (fun a m' => Q a { m' with headerLocked := false })
      (fun e m' => e ≠ .deadlock ∧ E e { m' with headerLocked := false })) :
    Spec (withHeader act) m Q E := by
  unfold Spec at hact ⊢
  rw [withHeader, if_neg (by simp [hfree])]
  cases hrun : act { m with headerLocked := true } with
  | ok a m' =>
    rw [hrun] at hact
    exact hact
  | error e m' =>
    rw [hrun] at hact
    obtain ⟨hne, hE⟩ := hact
    cases e with
    | err e => exact hE
    | panic msg => exact hE
    | deadlock => exact absurd rfl hne

theorem keeps_query {α : Type} {I : DefaultFileManager → Prop} (r : DefaultFileManager → Result α) :
    Keeps I (query r) := by
  intro m h
  unfold Spec query
  cases r m <;> exact h

theorem keeps_onFile {α : Type} {I : DefaultFileManager → Prop} (act : ByteFile.Io α)
    (wrap : ByteFile.IoError → RustgreSQLError) (hI : ∀ m file, I m → I { m with file }) :
    Keeps I (onFile act wrap) := by
  intro m h
  unfold Spec onFile
  cases act m.file <;> exact hI m _ h

theorem Idle.file {total : UInt64} {m : DefaultFileManager} (h : Idle total m) (file : ByteFile) :
    Idle total { m with file } :=
  ⟨h.unlocked, h.noList, h.noFree, h.total⟩

theorem keeps_writePage (total : UInt64) (pageId : PageId) (page : Page) :
    Keeps (Idle total) (writePage pageId page) := by
  have honFile : ∀ {α : Type} (act : ByteFile.Io α) (wrap : ByteFile.IoError → RustgreSQLError),
      Keeps (Idle total) (onFile act wrap) := fun act wrap => keeps_onFile act wrap fun _ f h => h.file f
  refine (keeps_query _).bind fun offset => Keeps.get_bind fun m => ?_
  refine (honFile _ _).bind fun _ => (keeps_query _).bind fun bytes => ?_
  refine (Keeps.require _ _).bind fun _ => (honFile _ _).bind fun _ => ?_
  exact (honFile _ _).bind fun _ => honFile _ _

theorem keeps_writeHeader (total : UInt64) : Keeps (Idle total) writeHeader := by
  intro m h
  refine spec_withHeader h.unlocked ?_
  set I : DefaultFileManager → Prop := fun m' => Idle total { m' with headerLocked := false }
  have hnever : ∀ {α : Type} (act : ByteFile.Io α) (m' : DefaultFileManager), I m' →
      Spec (onFile act .io) m' (fun _ => I) (fun e m'' => e ≠ .deadlock ∧ I m'') := by
    intro α act m' h'
    unfold Spec onFile
    cases act m'.file with
    | ok a f => exact h'.file f
    | error e f => exact ⟨nofun, h'.file f⟩
  have hstart : I { m with header := m.header.updateChecksum, headerLocked := true } :=
    ⟨rfl, h.noList, h.noFree, h.total⟩
  refine (hnever _ _ hstart).bind fun _ m₁ h₁ => ?_
  refine (hnever _ m₁ h₁).bind fun _ m₂ h₂ => ?_
  exact hnever _ m₂ h₂

theorem spec_unclaimPage {total : UInt64} {m : DefaultFileManager} (h : Idle (total + 1) m)
    (hne : total + 1 ≠ 0) :
    Spec (withHeader unclaimPage) m (fun _ => Idle total) (fun _ _ => False) := by
  set m₁ : DefaultFileManager := { m with headerLocked := true } with hm₁
  have hpos : m₁.header.totalPages ≠ 0 := by
    rw [hm₁, h.total]
    exact hne
  have hrun : unclaimPage m₁ = .ok ()
      { m₁ with header := { m.header with totalPages := m.header.totalPages - 1 } } := by
    rw [unclaimPage, get_bind, bind_of_ok (require_of hpos _ _)]
    rfl
  refine spec_withHeader h.unlocked (Spec.of_ok hrun ?_)
  refine ⟨rfl, h.noList, h.noFree, ?_⟩
  show m.header.totalPages - 1 = total
  rw [h.total, UInt64.add_sub_cancel]

/-- After an `Err` the change is undone. After a panic it is not. -/
theorem spec_orUndo {act undo : Call Unit} {m : DefaultFileManager}
    {I J : DefaultFileManager → Prop} (hact : Spec act m (fun _ => I) (fun _ => I))
    (hundo : ∀ m', I m' → Spec (withHeader undo) m' (fun _ => J) (fun _ _ => False)) :
    Spec (orUndo act undo) m (fun _ => I) (fun _ m' => J m' ∨ I m') := by
  have hattempt : Spec (attempt act) m (fun _ => I) (fun _ m' => J m' ∨ I m') := by
    unfold Spec attempt at *
    cases hrun : act m with
    | ok a m' =>
      rw [hrun] at hact
      exact hact
    | error e m' =>
      rw [hrun] at hact
      cases e with
      | err e => exact hact
      | panic msg => exact .inr hact
      | deadlock => exact .inr hact
  refine hattempt.bind fun result m' h' => ?_
  cases result with
  | ok a => exact Spec.pure h'
  | error e =>
    refine ((hundo m' h').mono (fun _ _ h => h) fun _ _ h => h.elim).bind ?_
    exact fun _ _ h'' => Spec.throw (.inl h'')

/-- Writing the page of a number just claimed succeeds, or leaves the number claimed or not. -/
theorem spec_extendFile {total : UInt64} {m : DefaultFileManager} (h : Idle (total + 1) m)
    (hne : total + 1 ≠ 0) (pageType : PageType) :
    Spec (extendFile total pageType) m (fun id m' => id = total ∧ Idle (total + 1) m')
      (fun _ m' => Idle total m' ∨ Idle (total + 1) m') := by
  set page := (Page.new total pageType m.pageSize).updateChecksum m.pageSize
  have hrun : extendFile total pageType m = (do
      orUndo (writePage total page) unclaimPage
      writeHeader
      pure total : Call PageId) m := by
    rw [extendFile, get_bind]
  have hwrite : Spec (orUndo (writePage total page) unclaimPage) m (fun _ => Idle (total + 1))
      (fun _ m' => Idle total m' ∨ Idle (total + 1) m') :=
    spec_orUndo (keeps_writePage (total + 1) total page m h) fun m' h' => spec_unclaimPage h' hne
  have hheader : ∀ m', Idle (total + 1) m' → Spec writeHeader m' (fun _ => Idle (total + 1))
      (fun _ m' => Idle total m' ∨ Idle (total + 1) m') := fun m' h' =>
    (keeps_writeHeader (total + 1) m' h').mono (fun _ _ h => h) fun _ _ h => .inr h
  unfold Spec
  rw [hrun]
  refine Spec.bind (m := orUndo (writePage total page) unclaimPage) hwrite fun _ m₁ h₁ => ?_
  exact (hheader m₁ h₁).bind fun _ _ h' => Spec.pure ⟨rfl, h'⟩

/-- Claiming a page fails before it does anything, or moves the number of pages by one. -/
theorem findPage_of_noList {m : DefaultFileManager} (hlist : m.header.firstFreePage = none) :
    findPage m = if m.header.totalPages.toNat + 1 < 2 ^ 64 then
        .ok (.newPage m.header.totalPages)
          { m with header := { m.header with totalPages := m.header.totalPages + 1 } }
      else .error (.panic "attempt to add with overflow") m := by
  have hclaim : findPage m = (do
      let newPageId ← claimPage
      pure (.newPage newPageId) : Call Found) m := by
    rw [findPage, get_bind, hlist]
  rw [hclaim]
  split
  · next hfits =>
    have hrun : claimPage m = .ok m.header.totalPages
        { m with header := { m.header with totalPages := m.header.totalPages + 1 } } := by
      rw [claimPage, get_bind, bind_of_ok (require_of hfits _ _)]
      rfl
    exact bind_of_ok hrun
  · next hfull =>
    have hrun : claimPage m = .error (.panic "attempt to add with overflow") m := by
      rw [claimPage, get_bind, bind_of_error (require_of_not hfull _ _)]
    exact bind_of_error hrun

/-- Without free pages, `allocate_page` returns the number of a new page at the end of the file. -/
theorem spec_allocatePage {total : UInt64} {m : DefaultFileManager} (h : Idle total m)
    (pageType : PageType) :
    Spec (allocatePage pageType) m
      (fun id m' => id = total ∧ total.toNat + 1 < 2 ^ 64 ∧ Idle (total + 1) m')
      (fun _ m' => Idle total m' ∨ (total.toNat + 1 < 2 ^ 64 ∧ Idle (total + 1) m')) := by
  have hfind := findPage_of_noList (m := { m with headerLocked := true }) h.noList
  by_cases hfits : total.toNat + 1 < 2 ^ 64
  · have hne : total + 1 ≠ 0 := by
      intro hzero
      have htoNat := congrArg UInt64.toNat hzero
      rw [UInt64.toNat_add] at htoNat
      change (total.toNat + 1) % 2 ^ 64 = 0 at htoNat
      omega
    rw [h.total, if_pos hfits] at hfind
    have hlock : Spec (withHeader findPage) m
        (fun found m' => found = .newPage total ∧ Idle (total + 1) m') (fun _ _ => False) :=
      spec_withHeader h.unlocked (Spec.of_ok hfind ⟨rfl, rfl, h.noList, h.noFree, rfl⟩)
    refine (hlock.mono (fun _ _ h => h) fun _ _ h => h.elim).bind ?_
    rintro found m₁ ⟨rfl, h₁⟩
    refine (spec_extendFile h₁ hne pageType).mono ?_ ?_
    · exact fun id m' h' => ⟨h'.1, hfits, h'.2⟩
    · exact fun e m' h' => h'.imp_right fun h' => ⟨hfits, h'⟩
  · rw [h.total, if_neg hfits] at hfind
    have hlock : Spec (withHeader findPage) m (fun _ _ => False) (fun _ => Idle total) := by
      refine spec_withHeader h.unlocked ?_
      unfold Spec
      rw [hfind]
      exact ⟨nofun, rfl, h.noList, h.noFree, h.total⟩
    refine Spec.bind (Q := fun _ _ => False) (hlock.mono (fun _ _ h => h) fun _ _ h => .inl h) ?_
    exact fun _ _ h => h.elim

/-! ## Runs -/

/-- The state of a run in which nobody has freed a page of the file. -/
structure Unfreed (total : UInt64) (s : Tracked) : Prop where
  idle : Idle total s.fm
  pos : total ≠ 0
  freed : s.freed = []
  nodup : s.allocated.Nodup
  below : ∀ id ∈ s.allocated, id < total

theorem Unfreed.ok {total : UInt64} {s : Tracked} (h : Unfreed total s) : FreeListOk s := by
  refine ⟨⟨[], ?_, List.nodup_nil, fun id => ?_, ?_⟩, h.nodup⟩
  · rw [h.idle.noList]
    exact .done
  · rw [h.freed]
  · rw [h.idle.noFree]
    rfl

theorem Unfreed.start {file : ByteFile} {pageSize : UInt32} {m : DefaultFileManager}
    (h : create file pageSize = .ok () m) : Unfreed 1 (.start m) where
  idle := Spec.post (Q := fun _ => Idle 1) (keeps_writeHeader 1 _ ⟨rfl, rfl, rfl, rfl⟩) h
  pos := by decide
  freed := rfl
  nodup := List.nodup_nil
  below := List.forall_mem_nil _

/-- An allocation gives out a page that nobody has. -/
theorem Unfreed.allocate {total : UInt64} {s : Tracked} (h : Unfreed total s) (pageType : PageType) :
    ∃ total', Unfreed total' (s.step (.allocate pageType)) := by
  have hspec := spec_allocatePage h.idle pageType
  have hstep : s.step (.allocate pageType) = match allocatePage pageType s.fm with
    | .ok id fm => ⟨fm, id :: s.allocated, s.freed.filter (· ≠ id)⟩
    | .error _ fm => { s with fm } := rfl
  have hgrow : total.toNat + 1 < 2 ^ 64 → total < total + 1 ∧ total + 1 ≠ 0 := by
    intro hfits
    have htoNat : (total + 1).toNat = total.toNat + 1 := by
      rw [UInt64.toNat_add]
      exact Nat.mod_eq_of_lt hfits
    refine ⟨UInt64.lt_iff_toNat_lt.mpr (by omega), fun hzero => ?_⟩
    rw [hzero] at htoNat
    exact absurd htoNat.symm (Nat.succ_ne_zero _)
  rw [hstep]
  unfold Spec at hspec
  cases hrun : allocatePage pageType s.fm with
  | ok id fm =>
    rw [hrun] at hspec
    obtain ⟨rfl, hfits, hidle⟩ := hspec
    obtain ⟨hlt, hpos⟩ := hgrow hfits
    refine ⟨id + 1, hidle, hpos, by rw [h.freed]; rfl, ?_, ?_⟩
    · exact List.nodup_cons.mpr ⟨fun hmem => UInt64.lt_irrefl _ (h.below id hmem), h.nodup⟩
    · exact List.forall_mem_cons.mpr ⟨hlt, fun x hx => UInt64.lt_trans (h.below x hx) hlt⟩
  | error e fm =>
    rw [hrun] at hspec
    rcases hspec with hidle | ⟨hfits, hidle⟩
    · exact ⟨total, hidle, h.pos, h.freed, h.nodup, h.below⟩
    · obtain ⟨hlt, hpos⟩ := hgrow hfits
      exact ⟨total + 1, hidle, hpos, h.freed, h.nodup, fun x hx => UInt64.lt_trans (h.below x hx) hlt⟩

/-- A call that frees a page beyond the file changes nothing. -/
theorem Unfreed.deallocate_of_le {total : UInt64} {s : Tracked} (h : Unfreed total s) {id : PageId}
    (hle : s.fm.header.totalPages ≤ id) : s.step (.deallocate id) = s := by
  obtain ⟨e, hrun⟩ := deallocatePage_of_le h.idle.unlocked hle (h.idle.total ▸ h.pos)
  rw [Tracked.step, hrun]

/-- A call that frees a page of the file loses it. -/
theorem Unfreed.deallocate_of_lt {total : UInt64} {s : Tracked} (h : Unfreed total s) {id : PageId}
    (hlt : id < s.fm.header.totalPages) : ¬ FreeListOk (s.step (.deallocate id)) := by
  rintro ⟨⟨chain, hchain, -, hmem, -⟩, -⟩
  rw [Tracked.step, deallocatePage_of_lt h.idle.unlocked hlt] at hchain hmem
  change FreeChain _ s.fm.header.firstFreePage chain at hchain
  rw [h.idle.noList, freeChain_none_iff] at hchain
  have hnone : id ∈ ([] : List PageId) := hchain ▸ (hmem id).mpr List.mem_cons_self
  cases hnone

/-- No call of the list frees a page that is in the file at that time. -/
def FreesNothing (s : Tracked) (ops : List PageOp) : Prop :=
  ∀ pre op post, ops = pre ++ op :: post → ∀ id, op = .deallocate id →
    (s.run pre).fm.header.totalPages ≤ id

theorem run_append (s : Tracked) (ops : List PageOp) (op : PageOp) :
    s.run (ops ++ [op]) = (s.run ops).step op := List.foldl_append

theorem unfreed_run {s : Tracked} {total : UInt64} (h : Unfreed total s) {ops : List PageOp}
    (hfrees : FreesNothing s ops) : ∃ total', Unfreed total' (s.run ops) := by
  induction ops using List.reverseRecOn with
  | nil => exact ⟨total, h⟩
  | append_singleton ops op ih =>
    obtain ⟨hbefore, hlast⟩ := forall_split_append_singleton.mp hfrees
    obtain ⟨total', h'⟩ := ih hbefore
    rw [run_append]
    cases op with
    | allocate pageType => exact h'.allocate pageType
    | deallocate id =>
      rw [h'.deallocate_of_le (hlast id rfl)]
      exact ⟨total', h'⟩

/-- The free list is in order after every call of a run on a new file, whatever its calls fail, if and
only if no call of the run frees a page of the file. -/
theorem freeList_ok_iff {file : ByteFile} {pageSize : UInt32} {m : DefaultFileManager}
    (hcreate : create file pageSize = .ok () m) (ops : List PageOp) :
    (∀ pre, pre <+: ops → FreeListOk ((Tracked.start m).run pre)) ↔
      FreesNothing (.start m) ops := by
  have hstart : Unfreed 1 (.start m) := Unfreed.start hcreate
  constructor
  · intro hok
    induction ops using List.reverseRecOn with
    | nil => exact fun pre op post hops => absurd hops.symm (by simp)
    | append_singleton ops op ih =>
      have hbefore := ih fun pre hpre => hok pre (hpre.trans (List.prefix_append _ _))
      refine forall_split_append_singleton.mpr ⟨hbefore, ?_⟩
      rintro id rfl
      obtain ⟨total', h'⟩ := unfreed_run hstart hbefore
      by_contra hlt
      have hlast := hok _ List.prefix_rfl
      rw [run_append] at hlast
      exact h'.deallocate_of_lt (UInt64.not_le.mp hlt) hlast
  · rintro hfrees pre ⟨post, rfl⟩
    have hbefore : FreesNothing (Tracked.start m) pre := fun pre' op post' hpre =>
      hfrees pre' op (post' ++ post) (by simp [hpre])
    obtain ⟨total', h'⟩ := unfreed_run hstart hbefore
    exact h'.ok

/-- The file manager that creating a database with 8 KiB pages gives. -/
def newDatabase : DefaultFileManager :=
  let header := (DatabaseHeader.new 8192).updateChecksum.updateChecksum
  { file := ByteFile.store (DatabaseHeader.codec.encode header) .empty, header, pageSize := 8192 }

/-- Two allocations on a new database keep the free list in order. -/
theorem freeList_ok_allocations :
    FreeListOk ((Tracked.start newDatabase).run [.allocate .data, .allocate .bTreeLeaf]) := by
  have hcreate : create .empty 8192 = .ok () newDatabase := rfl
  refine (freeList_ok_iff hcreate [.allocate .data, .allocate .bTreeLeaf]).mpr ?_ _ (List.prefix_refl _)
  rintro pre op post hops id rfl
  have hmem : PageOp.deallocate id ∈ [PageOp.allocate .data, .allocate .bTreeLeaf] := by
    rw [hops]
    exact List.mem_append_right _ List.mem_cons_self
  simp at hmem

theorem newDatabase_allocate :
    ((Tracked.start newDatabase).step (.allocate .data)).allocated = [1] ∧
      ((Tracked.start newDatabase).step (.allocate .data)).fm.header.totalPages = 2 := by
  decide +kernel

/-- On a new database page 1 is allocated and then freed. The second call waits for itself, and the
page is not on the free list. -/
theorem freed_page_lost :
    let s := (Tracked.start newDatabase).step (.allocate .data)
    s.allocated = [1] ∧
      deallocatePage 1 s.fm = .error .deadlock { s.fm with headerLocked := true } ∧
      ¬ FreeListOk (s.step (.deallocate 1)) := by
  have hcreate : create .empty 8192 = .ok () newDatabase := rfl
  obtain ⟨hallocated, htotal⟩ := newDatabase_allocate
  obtain ⟨total, h⟩ := (Unfreed.start hcreate).allocate .data
  have hfile : (1 : UInt64) <
      ((Tracked.start newDatabase).step (.allocate .data)).fm.header.totalPages := by
    rw [htotal]
    decide
  exact ⟨hallocated, deallocatePage_of_lt h.idle.unlocked hfile, h.deallocate_of_lt hfile⟩

end DefaultFileManager

end Rustgresql
