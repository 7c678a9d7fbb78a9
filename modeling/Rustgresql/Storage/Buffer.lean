import Rustgresql.Storage.Disk

/-!
# The buffer pool (`storage/buffer.rs`)

A buffer pool of `n` frames keeps pages of a file manager in memory. Two maps go from pages to frames
and back, and the LRU list orders the pages for eviction. A caller gets a shared handle to the page
in a frame; as long as the page is pinned, the handle and the frame hold the same page, and this is
what a call that changes the page acts on (`modifyPage`).

Frame indices are of type `Fin n`, so that no index is out of bounds. The field `lru_index`, which
nothing reads, is left out.
-/

namespace Rustgresql

open StateSpec

/-- Buffer pool frame. -/
structure BufferFrame where
  page : Option Page
  pageId : Option PageId
  pinCount : UInt32
  dirty : Bool
  deriving DecidableEq

namespace BufferFrame

/-- `BufferFrame::new`. -/
def new : BufferFrame := ⟨none, none, 0, false⟩

/-- `BufferFrame::is_evictable`. -/
def isEvictable (f : BufferFrame) : Bool := f.pinCount == 0

end BufferFrame

/-- Buffer pool with `n` frames. -/
structure BufferPool (n : ℕ) where
  frames : Fin n → BufferFrame
  lruList : List PageId
  pageToFrame : HashMap PageId (Fin n)
  frameToPage : HashMap (Fin n) PageId

/-- Buffer pool manager. -/
structure BufferPoolManager (n : ℕ) (φ : Type) where
  bufferPool : BufferPool n
  fileManager : φ

/-- The first frame that holds no page. -/
def BufferPool.emptyFrame {n : ℕ} (b : BufferPool n) : Option (Fin n) :=
  (List.finRange n).find? fun i => (b.frames i).pageId.isNone

/-- The eviction scan of `find_available_frame`: drop pages from the front of the LRU list up to the
first one whose frame may be evicted. The result is that frame and what is left of the list. -/
def BufferPool.scan {n : ℕ} (b : BufferPool n) : List PageId → Option (Fin n) × List PageId
  | [] => (none, [])
  | pageId :: rest =>
    match b.pageToFrame.lookup pageId with
    | some i => if (b.frames i).isEvictable then (some i, rest) else b.scan rest
    | none => b.scan rest

namespace BufferPoolManager

variable {n : ℕ} {φ : Type}

/-- A call on the buffer pool manager. -/
abbrev Call (n : ℕ) (φ : Type) := EStateM Failure (BufferPoolManager n φ)

/-- `BufferPoolManager::new`. -/
def new (n : ℕ) (fileManager : φ) : BufferPoolManager n φ :=
  ⟨⟨fun _ => .new, [], ∅, ∅⟩, fileManager⟩

/-- Make a call on the file manager. -/
def onFm {α : Type} (act : EStateM Failure φ α) : Call n φ α := fun m =>
  match act m.fileManager with
  | .ok a fileManager => .ok a { m with fileManager }
  | .error e fileManager => .error e { m with fileManager }

/-- Change the buffer pool. -/
def setPool (f : BufferPool n → BufferPool n) : Call n φ Unit :=
  modify fun m => { m with bufferPool := f m.bufferPool }

/-- Change one frame. -/
def setFrame (i : Fin n) (f : BufferFrame → BufferFrame) : Call n φ Unit :=
  setPool fun b => { b with frames := Function.update b.frames i (f (b.frames i)) }

/-- The error for a pool in which no frame is available. -/
def noFrames : Failure := .err (.storage "No available buffer frames")

/-- `BufferPool::find_available_frame`. -/
def findAvailableFrame : Call n φ (Fin n) := do
  let b := (← get).bufferPool
  match b.emptyFrame with
  | some i => pure i
  | none =>
    let (found, lruList) := b.scan b.lruList
    setPool fun b => { b with lruList }
    match found with
    | some i => pure i
    | none => throw noFrames

/-- `BufferPool::update_lru`. -/
def updateLru (pageId : PageId) : Call n φ Unit :=
  setPool fun b => { b with lruList := b.lruList.filter (· ≠ pageId) ++ [pageId] }

/-- `BufferFrame::pin`. -/
def pin (i : Fin n) : Call n φ Unit := do
  let f := (← get).bufferPool.frames i
  require (f.pinCount.toNat + 1 < 2 ^ 32) (.panic "attempt to add with overflow")
  setFrame i fun f => { f with pinCount := f.pinCount + 1 }

/-- The mapping update of `fetch_page`: frame `i` goes over to `pageId`. -/
def remap (i : Fin n) (pageId : PageId) (b : BufferPool n) : BufferPool n :=
  let b :=
    match (b.frames i).pageId with
    | some oldPageId =>
      { b with
        pageToFrame := b.pageToFrame.erase oldPageId
        frameToPage := b.frameToPage.erase i }
    | none => b
  { b with
    pageToFrame := b.pageToFrame.insert pageId i
    frameToPage := b.frameToPage.insert i pageId }

section Calls

variable [FileManager φ]

/-- The write-back of `fetch_page`. -/
def writeBack (f : BufferFrame) : Call n φ Unit :=
  match f.dirty, f.pageId, f.page with
  | true, some oldPageId, some oldPage => onFm (FileManager.writePage oldPageId oldPage)
  | _, _, _ => pure ()

/-- The part of `fetch_page` that loads a page into a frame. -/
def loadInto (pageId : PageId) (i : Fin n) : Call n φ Page := do
  writeBack ((← get).bufferPool.frames i)
  setPool (remap i pageId)
  let page ← onFm (FileManager.readPage pageId)
  setFrame i fun f => { f with page := some page, pageId := some pageId }
  pin i
  setFrame i fun f => { f with dirty := false }
  updateLru pageId
  pure page

/-- The part of `fetch_page` for a page that is not in the buffer. -/
def loadPage (pageId : PageId) : Call n φ Page := do
  let i ← findAvailableFrame
  loadInto pageId i

/-- `BufferPoolManager::fetch_page`. -/
def fetchPage (pageId : PageId) : Call n φ Page := do
  match (← get).bufferPool.pageToFrame.lookup pageId with
  | some i =>
    pin i
    updateLru pageId
    match ((← get).bufferPool.frames i).page with
    | some page => pure page
    | none => loadPage pageId
  | none => loadPage pageId

/-- `BufferPoolManager::unpin_page`. -/
def unpinPage (pageId : PageId) (dirty : Bool) : Call n φ Unit := do
  match (← get).bufferPool.pageToFrame.lookup pageId with
  | some i =>
    require (((← get).bufferPool.frames i).pinCount ≠ 0)
      (.err (.internal "Attempt to unpin page with pin_count = 0"))
    setFrame i fun f => { f with pinCount := f.pinCount - 1 }
    setFrame i fun f => { f with dirty := f.dirty || dirty }
  | none => throw (.err (.pageNotFound pageId))

/-- The loop of `flush_all_pages` over the entries of the map from frames to pages. -/
def flushPages : List (Fin n × PageId) → Call n φ Unit
  | [] => pure ()
  | (i, pageId) :: rest => do
    let f := (← get).bufferPool.frames i
    match f.dirty, f.page with
    | true, some page => onFm (FileManager.writePage pageId page)
    | _, _ => pure ()
    flushPages rest

/-- `BufferPoolManager::flush_all_pages`. -/
def flushAllPages : Call n φ Unit := do
  flushPages (HashMap.pairs (← get).bufferPool.frameToPage)

/-- `BufferPoolManager::new_page`. -/
def newPage (pageType : PageType) : Call n φ PageId := do
  let pageId ← onFm (FileManager.allocatePage pageType)
  let _ ← fetchPage pageId
  pure pageId

/-- `BufferPoolManager::delete_page`. -/
def deletePage (pageId : PageId) : Call n φ Unit := do
  match (← get).bufferPool.pageToFrame.lookup pageId with
  | some i =>
    setPool fun b =>
      { b with
        pageToFrame := b.pageToFrame.erase pageId
        frameToPage := b.frameToPage.erase i }
    setFrame i fun f => { f with page := none, pageId := none, dirty := false, pinCount := 0 }
  | none => pure ()
  onFm (FileManager.deallocatePage pageId)

/-- Change a page through its handle. -/
def modifyPage (pageId : PageId) (page : Page) : Call n φ Unit := do
  match (← get).bufferPool.pageToFrame.lookup pageId with
  | some i => setFrame i fun f => { f with page := f.page.map fun _ => page }
  | none => pure ()

/-- The calls on a buffer pool manager. -/
inductive PoolOp
  | fetch (pageId : PageId)
  | unpin (pageId : PageId) (dirty : Bool)
  | newPage (pageType : PageType)
  | delete (pageId : PageId)
  | flush

/-- Make one call. -/
def step : PoolOp → Call n φ Unit
  | .fetch pageId => discard (fetchPage pageId)
  | .unpin pageId dirty => unpinPage pageId dirty
  | .newPage pageType => discard (newPage pageType)
  | .delete pageId => deletePage pageId
  | .flush => flushAllPages

/-- Make calls in order, going on after failures. -/
def run (ops : List PoolOp) (m : BufferPoolManager n φ) : BufferPoolManager n φ :=
  ops.foldl (fun m op => final (step op) m) m

/-- The page that a call fetches, if it fetches one, meets `C` at that time. -/
def OnFetch (C : PageId → BufferPoolManager n φ → Prop) (m : BufferPoolManager n φ) : PoolOp → Prop
  | .fetch pageId => C pageId m
  | .newPage pageType => ∀ pageId fileManager,
      FileManager.allocatePage pageType m.fileManager = .ok pageId fileManager →
        C pageId { m with fileManager }
  | _ => True

end Calls

/-! ## What the calls come to -/

theorem onFm_of_ok {α : Type} {act : EStateM Failure φ α} {m : BufferPoolManager n φ} {a : α}
    {fm : φ} (h : act m.fileManager = .ok a fm) : onFm act m = .ok a { m with fileManager := fm } := by
  simp only [onFm, h]

theorem onFm_of_error {α : Type} {act : EStateM Failure φ α} {m : BufferPoolManager n φ}
    {e : Failure} {fm : φ} (h : act m.fileManager = .error e fm) :
    onFm act m = .error e { m with fileManager := fm } := by
  simp only [onFm, h]

theorem emptyFrame_eq_none {b : BufferPool n} :
    b.emptyFrame = none ↔ ∀ i, (b.frames i).pageId ≠ none := by
  simp [BufferPool.emptyFrame]

theorem pageId_of_emptyFrame {b : BufferPool n} {i : Fin n} (h : b.emptyFrame = some i) :
    (b.frames i).pageId = none := by
  simpa using List.find?_some h

/-- The pages that an eviction scan drops before its end are in no frame or pinned. -/
def Passed (b : BufferPool n) (dropped : List PageId) : Prop :=
  ∀ p ∈ dropped, ∀ i, b.pageToFrame.lookup p = some i → (b.frames i).pinCount ≠ 0

/-- The scan stops behind an unpinned page that is in a frame, or drops the whole list. -/
theorem scan_cases (b : BufferPool n) (lru : List PageId) :
    (∃ i p dropped rest, b.scan lru = (some i, rest) ∧ lru = dropped ++ p :: rest ∧
        b.pageToFrame.lookup p = some i ∧ (b.frames i).pinCount = 0 ∧ Passed b dropped) ∨
      b.scan lru = (none, []) ∧ Passed b lru := by
  induction lru with
  | nil => exact .inr ⟨rfl, List.forall_mem_nil _⟩
  | cons p lru ih =>
    have hskip : b.scan (p :: lru) = b.scan lru →
        (∀ i, b.pageToFrame.lookup p = some i → (b.frames i).pinCount ≠ 0) →
        (∃ i q dropped rest, b.scan (p :: lru) = (some i, rest) ∧ p :: lru = dropped ++ q :: rest ∧
          b.pageToFrame.lookup q = some i ∧ (b.frames i).pinCount = 0 ∧ Passed b dropped) ∨
        b.scan (p :: lru) = (none, []) ∧ Passed b (p :: lru) := by
      intro hscan hp
      rw [hscan]
      rcases ih with ⟨i, q, dropped, rest, hfound, rfl, hq, hpin, hpassed⟩ | ⟨hnone, hpassed⟩
      · exact .inl ⟨i, q, p :: dropped, rest, hfound, rfl, hq, hpin,
          List.forall_mem_cons.mpr ⟨hp, hpassed⟩⟩
      · exact .inr ⟨hnone, List.forall_mem_cons.mpr ⟨hp, hpassed⟩⟩
    cases hlookup : b.pageToFrame.lookup p with
    | none =>
      refine hskip (by rw [BufferPool.scan, hlookup]) fun i hi => ?_
      rw [hlookup] at hi
      cases hi
    | some i =>
      by_cases hpin : (b.frames i).pinCount = 0
      · refine .inl ⟨i, p, [], lru, ?_, rfl, hlookup, hpin, List.forall_mem_nil _⟩
        rw [BufferPool.scan, hlookup]
        exact if_pos (by rw [BufferFrame.isEvictable, hpin]; rfl)
      · refine hskip ?_ fun j hj => ?_
        · rw [BufferPool.scan, hlookup]
          exact if_neg (by simpa [BufferFrame.isEvictable] using hpin)
        · cases hlookup.symm.trans hj
          exact hpin

/-- The manager with another LRU list. -/
def withLru (lruList : List PageId) (m : BufferPoolManager n φ) : BufferPoolManager n φ :=
  { m with bufferPool := { m.bufferPool with lruList } }

/-- The frame that `find_available_frame` finds: an empty one, or else the first in the LRU list that
may be evicted. -/
structure Available (m : BufferPoolManager n φ) (i : Fin n) (lruList : List PageId) : Prop where
  run : findAvailableFrame m = .ok i (withLru lruList m)
  found : (m.bufferPool.frames i).pageId = none ∧ lruList = m.bufferPool.lruList ∨
    (∀ j, (m.bufferPool.frames j).pageId ≠ none) ∧ (m.bufferPool.frames i).pinCount = 0 ∧
      ∃ p dropped, m.bufferPool.lruList = dropped ++ p :: lruList ∧
        m.bufferPool.pageToFrame.lookup p = some i ∧ Passed m.bufferPool dropped

theorem findAvailableFrame_cases (m : BufferPoolManager n φ) :
    (∃ i lruList, Available m i lruList) ∨
      findAvailableFrame m = .error noFrames (withLru [] m) ∧
        (∀ j, (m.bufferPool.frames j).pageId ≠ none) ∧
        Passed m.bufferPool m.bufferPool.lruList := by
  cases hempty : m.bufferPool.emptyFrame with
  | some i =>
    refine .inl ⟨i, m.bufferPool.lruList, ?_, .inl ⟨pageId_of_emptyFrame hempty, rfl⟩⟩
    rw [findAvailableFrame, get_bind, hempty]
    rfl
  | none =>
    have hfull := emptyFrame_eq_none.mp hempty
    rcases scan_cases m.bufferPool m.bufferPool.lruList with
      ⟨i, p, dropped, rest, hscan, hlru, hp, hpin, hpassed⟩ | ⟨hscan, hpassed⟩
    · refine .inl ⟨i, rest, ?_, .inr ⟨hfull, hpin, p, dropped, hlru, hp, hpassed⟩⟩
      rw [findAvailableFrame, get_bind, hempty]
      dsimp only
      rw [hscan]
      rfl
    · refine .inr ⟨?_, hfull, hpassed⟩
      rw [findAvailableFrame, get_bind, hempty]
      dsimp only
      rw [hscan]
      rfl

/-- The pool after a page that it holds in frame `i` has been fetched. -/
def hit (p : PageId) (i : Fin n) (b : BufferPool n) : BufferPool n :=
  { b with
    frames := Function.update b.frames i
      { b.frames i with pinCount := (b.frames i).pinCount + 1 }
    lruList := b.lruList.filter (· ≠ p) ++ [p] }

/-- The pool after a page has been read into frame `i`. -/
def loaded (p : PageId) (page : Page) (i : Fin n) (b : BufferPool n) : BufferPool n :=
  { b with
    frames := Function.update b.frames i ⟨some page, some p, 1, false⟩
    lruList := b.lruList.filter (· ≠ p) ++ [p] }

/-- The pool after frame `i` has been unpinned. -/
def released (dirty : Bool) (i : Fin n) (b : BufferPool n) : BufferPool n :=
  { b with
    frames := Function.update b.frames i
      { b.frames i with
        pinCount := (b.frames i).pinCount - 1
        dirty := (b.frames i).dirty || dirty } }

/-- The pool without a page. -/
def removed (p : PageId) (b : BufferPool n) : BufferPool n :=
  match b.pageToFrame.lookup p with
  | some i =>
    { b with
      frames := Function.update b.frames i .new
      pageToFrame := b.pageToFrame.erase p
      frameToPage := b.frameToPage.erase i }
  | none => b

theorem frames_remap (i : Fin n) (p : PageId) (b : BufferPool n) :
    (remap i p b).frames = b.frames := by
  unfold remap
  cases (b.frames i).pageId <;> rfl

theorem lruList_remap (i : Fin n) (p : PageId) (b : BufferPool n) :
    (remap i p b).lruList = b.lruList := by
  unfold remap
  cases (b.frames i).pageId <;> rfl

theorem pin_of_fits {m : BufferPoolManager n φ} {i : Fin n}
    (h : (m.bufferPool.frames i).pinCount.toNat + 1 < 2 ^ 32) :
    pin i m = .ok () { m with bufferPool := { m.bufferPool with
      frames := Function.update m.bufferPool.frames i { m.bufferPool.frames i with
        pinCount := (m.bufferPool.frames i).pinCount + 1 } } } := by
  rw [pin, get_bind, bind_of_ok (require_of h _ _)]
  rfl

/-- The end of `fetch_page`, after the page has been read. -/
theorem setFrame_pin {m : BufferPoolManager n φ} {i : Fin n}
    (hpin : (m.bufferPool.frames i).pinCount = 0) (p : PageId) (page : Page) :
    (do
      setFrame i fun f => { f with page := some page, pageId := some p }
      pin i
      setFrame i fun f => { f with dirty := false }
      updateLru p
      pure page : Call n φ Page) m = .ok page { m with bufferPool := loaded p page i m.bufferPool } := by
  set m₁ : BufferPoolManager n φ := { m with bufferPool := { m.bufferPool with
    frames := Function.update m.bufferPool.frames i
      { m.bufferPool.frames i with page := some page, pageId := some p } } } with hm₁
  have hframe : m₁.bufferPool.frames i = ⟨some page, some p, 0, (m.bufferPool.frames i).dirty⟩ := by
    rw [hm₁, ← hpin]
    exact Function.update_self ..
  have hfits : (m₁.bufferPool.frames i).pinCount.toNat + 1 < 2 ^ 32 := by
    rw [hframe]
    show (0 : UInt32).toNat + 1 < 2 ^ 32
    decide
  have hset : setFrame i (fun f => { f with page := some page, pageId := some p }) m = .ok () m₁ := rfl
  rw [bind_of_ok hset, bind_of_ok (pin_of_fits hfits)]
  refine (bind_of_ok rfl).trans ((bind_of_ok rfl).trans ?_)
  rw [loaded]
  simp only [hm₁, Function.update_idem, Function.update_self, hpin]
  rfl

/-- A call on the file manager leaves the pool. -/
theorem spec_onFm {α : Type} (act : EStateM Failure φ α) (m : BufferPoolManager n φ) :
    Spec (onFm act) m (fun a m' => m'.bufferPool = m.bufferPool ∧
        act m.fileManager = .ok a m'.fileManager)
      (fun e m' => m'.bufferPool = m.bufferPool ∧ act m.fileManager = .error e m'.fileManager) := by
  unfold Spec onFm
  cases hrun : act m.fileManager <;> exact ⟨rfl, rfl⟩

/-- Two changes of a frame are one. -/
theorem setFrame_setFrame (i : Fin n) (f g : BufferFrame → BufferFrame)
    (m : BufferPoolManager n φ) :
    (do setFrame i f; setFrame i g : Call n φ Unit) m = setFrame i (g ∘ f) m := by
  refine (bind_of_ok rfl).trans ?_
  show EStateM.Result.ok () _ = EStateM.Result.ok () _
  simp only [Function.update_idem, Function.update_self, Function.comp_apply]

/-- `unpin_page` fails and changes nothing, or takes one pin off the page. -/
theorem unpinPage_cases (p : PageId) (dirty : Bool) (m : BufferPoolManager n φ) :
    ((∃ e, unpinPage p dirty m = .error e m) ∧
        ∀ i, m.bufferPool.pageToFrame.lookup p = some i → (m.bufferPool.frames i).pinCount = 0) ∨
      ∃ i, m.bufferPool.pageToFrame.lookup p = some i ∧ (m.bufferPool.frames i).pinCount ≠ 0 ∧
        unpinPage p dirty m = .ok () { m with bufferPool := released dirty i m.bufferPool } := by
  rw [unpinPage, get_bind]
  cases hlookup : m.bufferPool.pageToFrame.lookup p with
  | none => exact .inl ⟨⟨_, rfl⟩, fun _ hi => by cases hi⟩
  | some i =>
    by_cases hpin : (m.bufferPool.frames i).pinCount = 0
    · refine .inl ⟨?_, fun j hj => ?_⟩
      · dsimp only
        rw [get_bind]
        exact ⟨_, bind_of_error (require_of_not (not_not_intro hpin) _ _)⟩
      · cases hj
        exact hpin
    · refine .inr ⟨i, rfl, hpin, ?_⟩
      dsimp only
      rw [get_bind, bind_of_ok (require_of hpin _ _), setFrame_setFrame]
      rfl

section Calls

variable [FileManager φ]

/-- `delete_page` removes the page from the pool, also when it is not deallocated. -/
theorem deletePage_eq (p : PageId) (m : BufferPoolManager n φ) :
    deletePage p m =
      onFm (FileManager.deallocatePage p) { m with bufferPool := removed p m.bufferPool } := by
  rw [deletePage, get_bind, removed]
  cases m.bufferPool.pageToFrame.lookup p <;> rfl

theorem pool_deletePage (p : PageId) (m : BufferPoolManager n φ) :
    (final (deletePage p) m).bufferPool = removed p m.bufferPool := by
  have hspec := spec_onFm (FileManager.deallocatePage p : EStateM Failure φ Unit)
    { m with bufferPool := removed p m.bufferPool }
  rw [final, deletePage_eq]
  exact Spec.final (I := fun m' => m'.bufferPool = removed p m.bufferPool)
    (hspec.mono (fun _ _ h => h.1) fun _ _ h => h.1)

/-- Flushing leaves the pool, and what every write keeps of the file manager. -/
theorem keeps_flushPages {J : φ → Prop}
    (hwrite : ∀ p page, Keeps J (FileManager.writePage p page : EStateM Failure φ Unit))
    (b : BufferPool n) (entries : List (Fin n × PageId)) :
    Keeps (fun m => m.bufferPool = b ∧ J m.fileManager) (flushPages (φ := φ) entries) := by
  induction entries with
  | nil => exact Keeps.pure ()
  | cons entry entries ih =>
    obtain ⟨i, p⟩ := entry
    refine Keeps.get_bind fun m => ?_
    dsimp only
    split
    · next page _ _ =>
      refine Keeps.bind ?_ fun _ => ih
      rintro m ⟨hpool, hJ⟩
      refine (spec_onFm _ m).mono ?_ ?_
      · exact fun _ m' h => ⟨h.1.trans hpool, (hwrite p page _ hJ).post h.2⟩
      · exact fun _ m' h => ⟨h.1.trans hpool, (hwrite p page _ hJ).fail h.2⟩
    · exact ih

theorem pool_flushAllPages (m : BufferPoolManager n φ) :
    (final flushAllPages m).bufferPool = m.bufferPool :=
  ((keeps_flushPages (fun _ _ => Keeps.true _) m.bufferPool
    (HashMap.pairs m.bufferPool.frameToPage)).final (s := m) ⟨rfl, trivial⟩).1

theorem fetchPage_of_hit {m : BufferPoolManager n φ} {p : PageId} {i : Fin n} {page : Page}
    (hlookup : m.bufferPool.pageToFrame.lookup p = some i)
    (hpage : (m.bufferPool.frames i).page = some page) :
    fetchPage p m = if (m.bufferPool.frames i).pinCount.toNat + 1 < 2 ^ 32 then
        .ok page { m with bufferPool := hit p i m.bufferPool }
      else .error (.panic "attempt to add with overflow") m := by
  have hrun : fetchPage p m = (do
      pin i
      updateLru p
      match ((← get).bufferPool.frames i).page with
      | some page => pure page
      | none => loadPage p : Call n φ Page) m := by
    rw [fetchPage, get_bind, hlookup]
  rw [hrun]
  split
  · next hfits =>
    rw [bind_of_ok (pin_of_fits hfits)]
    refine (bind_of_ok rfl).trans ?_
    rw [get_bind]
    dsimp only
    rw [Function.update_self]
    have hmatch : ∀ (o : Option Page) (m' : BufferPoolManager n φ), o = some page →
        (match o with
          | some page => pure page
          | none => loadPage p : Call n φ Page) m' = .ok page m' := by
      rintro _ m' rfl
      rfl
    exact hmatch _ _ hpage
  · next hfull =>
    have hpin : pin i m = .error (.panic "attempt to add with overflow") m := by
      rw [pin, get_bind, bind_of_error (require_of_not hfull _ _)]
    rw [bind_of_error hpin]

theorem fetchPage_of_miss {m : BufferPoolManager n φ} {p : PageId}
    (hlookup : m.bufferPool.pageToFrame.lookup p = none) : fetchPage p m = loadPage p m := by
  rw [fetchPage, get_bind, hlookup]

/-- A frame's page is written back if it is dirty. -/
theorem writeBack_cases (f : BufferFrame) (m : BufferPoolManager n φ) :
    writeBack f m = .ok () m ∧ (f.dirty = true → f.pageId = none ∨ f.page = none) ∨
      ∃ p page, f.dirty = true ∧ f.pageId = some p ∧ f.page = some page ∧
        writeBack f m = onFm (FileManager.writePage p page) m := by
  obtain ⟨page, pageId, pinCount, dirty⟩ := f
  cases dirty with
  | false => exact .inl ⟨rfl, nofun⟩
  | true =>
    cases pageId with
    | none => exact .inl ⟨rfl, fun _ => .inl rfl⟩
    | some p =>
      cases page with
      | none => exact .inl ⟨rfl, fun _ => .inr rfl⟩
      | some page => exact .inr ⟨p, page, rfl, rfl, rfl, rfl⟩

theorem pool_writeBack (f : BufferFrame) (m : BufferPoolManager n φ) :
    Spec (writeBack f) m (fun _ m' => m'.bufferPool = m.bufferPool)
      (fun _ m' => m'.bufferPool = m.bufferPool) := by
  rcases writeBack_cases f m with ⟨hrun, -⟩ | ⟨p, page, -, -, -, hrun⟩
  · exact Spec.of_ok hrun rfl
  · unfold Spec
    rw [hrun]
    exact (spec_onFm _ m).mono (fun _ _ h => h.1) fun _ _ h => h.1

/-- How loading a page into an unpinned frame ends: the write-back fails, the read fails when the maps
have already been changed, or the page is there. -/
theorem loadInto_cases {m : BufferPoolManager n φ} {i : Fin n}
    (hpin : (m.bufferPool.frames i).pinCount = 0) (p : PageId) :
    (∃ e m₁, writeBack (m.bufferPool.frames i) m = .error e m₁ ∧ loadInto p i m = .error e m₁) ∨
      ∃ m₁, writeBack (m.bufferPool.frames i) m = .ok () m₁ ∧
        ((∃ e fm, FileManager.readPage p m₁.fileManager = .error e fm ∧
            loadInto p i m = .error e ⟨remap i p m.bufferPool, fm⟩) ∨
          ∃ page fm, FileManager.readPage p m₁.fileManager = .ok page fm ∧
            loadInto p i m = .ok page ⟨loaded p page i (remap i p m.bufferPool), fm⟩) := by
  have hpool := pool_writeBack (m.bufferPool.frames i) m
  cases hwrite : writeBack (m.bufferPool.frames i) m with
  | error e m₁ =>
    refine .inl ⟨e, m₁, rfl, ?_⟩
    rw [loadInto, get_bind, bind_of_error hwrite]
  | ok a m₁ =>
    have hsame := hpool.post hwrite
    refine .inr ⟨m₁, rfl, ?_⟩
    have hrun : loadInto p i m = (do
        let page ← onFm (FileManager.readPage p)
        setFrame i fun f => { f with page := some page, pageId := some p }
        pin i
        setFrame i fun f => { f with dirty := false }
        updateLru p
        pure page : Call n φ Page) ⟨remap i p m.bufferPool, m₁.fileManager⟩ := by
      rw [loadInto, get_bind, bind_of_ok hwrite, ← hsame]
      rfl
    rw [hrun]
    cases hread : FileManager.readPage p m₁.fileManager with
    | error e fm =>
      refine .inl ⟨e, fm, rfl, ?_⟩
      exact bind_of_error (onFm_of_error (m := ⟨remap i p m.bufferPool, m₁.fileManager⟩) hread)
    | ok page fm =>
      refine .inr ⟨page, fm, rfl, ?_⟩
      rw [bind_of_ok (onFm_of_ok (m := ⟨remap i p m.bufferPool, m₁.fileManager⟩) hread)]
      apply setFrame_pin
      rw [frames_remap, hpin]

/-- What a call of `new_page` comes to: the allocation fails, or the new page is fetched. -/
theorem newPage_cases (t : PageType) (m : BufferPoolManager n φ) :
    (∃ e fm, FileManager.allocatePage t m.fileManager = .error e fm ∧
        newPage t m = .error e { m with fileManager := fm }) ∨
      ∃ p fm, FileManager.allocatePage t m.fileManager = .ok p fm ∧
        final (newPage t) m = final (fetchPage p) { m with fileManager := fm } := by
  cases halloc : FileManager.allocatePage t m.fileManager with
  | error e fm => exact .inl ⟨e, fm, rfl, by rw [newPage, bind_of_error (onFm_of_error halloc)]⟩
  | ok p fm =>
    refine .inr ⟨p, fm, rfl, ?_⟩
    rw [newPage, final_bind_of_ok (onFm_of_ok halloc), final_bind_pure]

/-- How loading a page that is not in the buffer can end: no frame is found, the write-back of the old
page fails, the read fails when the maps have already been changed, or the page is there. -/
inductive Loading (p : PageId) (m : BufferPoolManager n φ) :
    EStateM.Result Failure (BufferPoolManager n φ) Page → Prop
  | noFrame (search : findAvailableFrame m = .error noFrames (withLru [] m))
      (full : ∀ j, (m.bufferPool.frames j).pageId ≠ none)
      (passed : Passed m.bufferPool m.bufferPool.lruList) :
      Loading p m (.error noFrames (withLru [] m))
  | writeFails {i : Fin n} {lruList : List PageId} {e : Failure} {m₁ : BufferPoolManager n φ}
      (found : Available m i lruList)
      (write : writeBack (m.bufferPool.frames i) (withLru lruList m) = .error e m₁) :
      Loading p m (.error e m₁)
  | readFails {i : Fin n} {lruList : List PageId} {m₁ : BufferPoolManager n φ} {e : Failure} {fm : φ}
      (found : Available m i lruList)
      (write : writeBack (m.bufferPool.frames i) (withLru lruList m) = .ok () m₁)
      (read : FileManager.readPage p m₁.fileManager = .error e fm) :
      Loading p m (.error e ⟨remap i p (withLru lruList m).bufferPool, fm⟩)
  | loads {i : Fin n} {lruList : List PageId} {m₁ : BufferPoolManager n φ} {page : Page} {fm : φ}
      (found : Available m i lruList)
      (write : writeBack (m.bufferPool.frames i) (withLru lruList m) = .ok () m₁)
      (read : FileManager.readPage p m₁.fileManager = .ok page fm) :
      Loading p m (.ok page ⟨loaded p page i (remap i p (withLru lruList m).bufferPool), fm⟩)

/-- If nobody has pinned an empty frame, these are all the ends. -/
theorem loading_loadPage {m : BufferPoolManager n φ}
    (hempty : ∀ i, (m.bufferPool.frames i).pageId = none → (m.bufferPool.frames i).pinCount = 0)
    (p : PageId) : Loading p m (loadPage p m) := by
  rcases findAvailableFrame_cases m with ⟨i, lruList, hfound⟩ | ⟨hnone, hfull, hpassed⟩
  · have hpin : ((withLru lruList m).bufferPool.frames i).pinCount = 0 := by
      rcases hfound.found with ⟨hid, -⟩ | ⟨-, hpin, -⟩
      · exact hempty i hid
      · exact hpin
    rw [loadPage, bind_of_ok hfound.run]
    rcases loadInto_cases hpin p with ⟨e, m₁, hwrite, hrun⟩ |
      ⟨m₁, hwrite, ⟨e, fm, hread, hrun⟩ | ⟨page, fm, hread, hrun⟩⟩
    · rw [hrun]
      exact .writeFails hfound hwrite
    · rw [hrun]
      exact .readFails hfound hwrite hread
    · rw [hrun]
      exact .loads hfound hwrite hread
  · rw [loadPage, bind_of_error hnone]
    exact .noFrame hnone hfull hpassed

theorem run_append (ops : List PoolOp) (op : PoolOp) (m : BufferPoolManager n φ) :
    run (ops ++ [op]) m = final (step op) (run ops m) := by
  rw [run, run, List.foldl_append, List.foldl_cons, List.foldl_nil]

/-- What every call keeps, provided the page that it fetches meets `C`, holds after a run of such
calls. -/
theorem run_induction {I : BufferPoolManager n φ → Prop}
    {C : PageId → BufferPoolManager n φ → Prop}
    (hstep : ∀ m op, I m → OnFetch C m op → I (final (step op) m)) {m : BufferPoolManager n φ}
    (hm : I m) {ops : List PoolOp}
    (hfetch : ∀ pre op post, ops = pre ++ op :: post → OnFetch C (run pre m) op) :
    I (run ops m) :=
  foldl_induction hstep hm hfetch

end Calls

end BufferPoolManager

end Rustgresql
