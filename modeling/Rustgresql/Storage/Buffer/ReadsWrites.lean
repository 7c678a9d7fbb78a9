import Rustgresql.Storage.Buffer.Mapping

/-!
# The buffer pool as a store of pages

Over a file manager that stores pages, the buffer pool is a store of pages too: `Coherent` relates it to
a view of what every page holds, and the calls act on the view as one expects. Clients have to pin the
pages that they change and to unpin them as dirty. `reads_writes` follows the view along a run.
-/

namespace Rustgresql

open StateSpec

namespace BufferPoolManager

variable {n : ℕ} {φ : Type}

/-- The page is in the buffer and pinned. -/
def Pinned (p : PageId) (b : BufferPool n) : Prop :=
  ∃ i, b.pageToFrame.lookup p = some i ∧ (b.frames i).pinCount ≠ 0

theorem pinCount_loaded (p : PageId) (page : Page) (i : Fin n) (b : BufferPool n) :
    ((loaded p page i b).frames i).pinCount = 1 := by
  rw [loaded]
  dsimp only
  rw [Function.update_self]

theorem pinCount_succ_ne_zero {c : UInt32} (h : c.toNat + 1 < 2 ^ 32) : c + 1 ≠ 0 := by
  intro hzero
  have hnat := congrArg UInt32.toNat hzero
  rw [UInt32.toNat_add] at hnat
  have hone : (1 : UInt32).toNat = 1 := rfl
  have hzero' : (0 : UInt32).toNat = 0 := rfl
  omega

section Store

variable [FileManager φ] [LawfulFileManager φ]

open LawfulFileManager

/-- The pool holds the pages of `view`: every frame, and the file manager for a page that is not in the
buffer, or has not been changed since it was loaded. A change of a `pending` page is not yet known to
the pool, and such a page is pinned. -/
structure Coherent (view : PageId → Option Page) (pending : PageId → Bool)
    (m : BufferPoolManager n φ) : Prop where
  sound : Sound (fun p page => view p = some page.content) m.bufferPool
  good : Good m.fileManager
  stored : ∀ p, (content m.fileManager p).isSome = (view p).isSome
  clean : ∀ p, (∀ i, m.bufferPool.pageToFrame.lookup p = some i →
      (m.bufferPool.frames i).dirty = false ∧ pending p = false) →
    content m.fileManager p = view p
  pinned : ∀ p, pending p = true → Pinned p m.bufferPool

theorem coherent_new (n : ℕ) {fm : φ} (hgood : Good fm) :
    Coherent (content fm) (fun _ => false) (new n fm) where
  sound := sound_new fm
  good := hgood
  stored _ := rfl
  clean _ _ := rfl
  pinned _ := nofun

variable {view : PageId → Option Page} {pending : PageId → Bool} {m m' : BufferPoolManager n φ}

theorem Coherent.settled (h : Coherent view pending m) {p : PageId} {i : Fin n}
    (hlookup : m.bufferPool.pageToFrame.lookup p = some i)
    (hpin : (m.bufferPool.frames i).pinCount = 0) : pending p = false := by
  by_contra hp
  obtain ⟨j, hj, hne⟩ := h.pinned p (Bool.eq_true_of_not_eq_false hp)
  cases hlookup.symm.trans hj
  exact hne hpin

theorem Coherent.lru (h : Coherent view pending m) (lruList : List PageId) :
    Coherent view pending (withLru lruList m) where
  sound := h.sound.lru lruList
  good := h.good
  stored := h.stored
  clean := h.clean
  pinned := h.pinned

/-- Writing a page to the file manager that the view has. -/
theorem Coherent.write (h : Coherent view pending m) {p : PageId} {page : Page}
    (hview : view p = some page.content) {fm : φ}
    (hwrite : FileManager.writePage p page m.fileManager = .ok () fm) :
    Coherent view pending { m with fileManager := fm } ∧ content fm p = view p ∧
      ∀ q ≠ p, content fm q = content m.fileManager q := by
  have hsome : (content m.fileManager p).isSome := by rw [h.stored, hview]; rfl
  obtain ⟨hgood, hcontent⟩ := write_ok h.good hsome hwrite
  have hself : content fm p = view p := by rw [hcontent, Function.update_self, hview]
  have hother : ∀ q ≠ p, content fm q = content m.fileManager q := by
    intro q hq
    rw [hcontent, Function.update_of_ne hq]
  refine ⟨⟨h.sound, hgood, fun q => ?_, fun q hq => ?_, h.pinned⟩, hself, hother⟩
  · by_cases hqp : q = p
    · rw [hqp, hself]
    · rw [hother q hqp, h.stored]
  · by_cases hqp : q = p
    · rw [hqp, hself]
    · rw [hother q hqp]
      exact h.clean q hq

/-- The write-back of an unpinned frame leaves its page on disk as in the view. -/
theorem Coherent.wroteBack (h : Coherent view pending m) {i : Fin n}
    (hpin : (m.bufferPool.frames i).pinCount = 0)
    (hrun : writeBack (m.bufferPool.frames i) m = .ok () m') :
    Coherent view pending m' ∧ m'.bufferPool = m.bufferPool ∧
      ∀ p, (m.bufferPool.frames i).pageId = some p → content m'.fileManager p = view p := by
  rcases writeBack_cases (m.bufferPool.frames i) m with ⟨hclean, hnothing⟩ |
    ⟨p, page, -, hid, hpage, hdirty⟩
  · cases hclean.symm.trans hrun
    refine ⟨h, rfl, fun p hid => h.clean p fun j hj => ?_⟩
    have hi := (h.sound.frame p i).mpr hid
    cases hi.symm.trans hj
    refine ⟨?_, h.settled hi hpin⟩
    obtain ⟨page, hpage, -⟩ := h.sound.holds p i hid
    by_contra hdirty
    rcases hnothing (Bool.eq_true_of_not_eq_false hdirty) with hnone | hnone
    · cases hid.symm.trans hnone
    · cases hpage.symm.trans hnone
  · obtain ⟨x, hx, hview⟩ := h.sound.holds p i hid
    cases hx.symm.trans hpage
    obtain ⟨hpool, hwrite⟩ := (spec_onFm _ m).post (hdirty.symm.trans hrun)
    obtain ⟨hcoherent, hself, -⟩ := h.write hview hwrite
    have hm' : m' = { m with fileManager := m'.fileManager } := by rw [← hpool]
    refine ⟨hm' ▸ hcoherent, hpool, fun q hq => ?_⟩
    cases hid.symm.trans hq
    exact hself

/-- A page that is not in the buffer goes to a frame whose page is on disk as in the view. -/
theorem Coherent.loaded (h : Coherent view pending m) {p : PageId}
    (hmiss : m.bufferPool.pageToFrame.lookup p = none) {i : Fin n}
    (hpin : (m.bufferPool.frames i).pinCount = 0)
    (hold : ∀ q, (m.bufferPool.frames i).pageId = some q → content m.fileManager q = view q)
    {page : Page} {fm : φ} (hread : FileManager.readPage p m.fileManager = .ok page fm) :
    Coherent view pending ⟨loaded p page i (remap i p m.bufferPool), fm⟩ ∧
      view p = some page.content ∧ content fm p = view p := by
  obtain ⟨hgood, hpage, hcontent⟩ := read_ok h.good hread
  have hdisk : content m.fileManager p = view p := by
    refine h.clean p fun j hj => ?_
    cases hmiss.symm.trans hj
  have hview : view p = some page.content := hdisk.symm.trans hpage
  have hsound := h.sound.loaded hmiss hview (fun _ _ _ hq => hq) i
  have hto : ∀ q j, j ≠ i → ((remap i p m.bufferPool).pageToFrame.lookup q = some j ↔
      m.bufferPool.pageToFrame.lookup q = some j) := by
    intro q j hj
    rw [h.sound.lookup_remap_eq hmiss, if_neg hj, h.sound.frame]
  have hkept : ∀ j, j ≠ i → (BufferPoolManager.loaded p page i (remap i p m.bufferPool)).frames j =
      m.bufferPool.frames j := by
    intro j hj
    rw [BufferPoolManager.loaded, frames_remap]
    exact Function.update_of_ne hj ..
  refine ⟨⟨hsound, hgood, fun q => ?_, fun q hq => ?_, fun q hq => ?_⟩, hview,
    (congrFun hcontent p).trans hdisk⟩
  · rw [hcontent, h.stored]
  · rw [hcontent]
    by_cases hold' : (m.bufferPool.frames i).pageId = some q
    · exact hold q hold'
    · refine h.clean q fun j hj => ?_
      have hji : j ≠ i := by
        rintro rfl
        exact hold' ((h.sound.frame q j).mp hj)
      exact hkept j hji ▸ hq j ((hto q j hji).mpr hj)
  · obtain ⟨j, hj, hne⟩ := h.pinned q hq
    have hji : j ≠ i := by
      rintro rfl
      exact hne hpin
    exact ⟨j, (hto q j hji).mpr hj, (hkept j hji).symm ▸ hne⟩

/-- Only the pins of a page in the buffer change, and perhaps its dirty flag is set. -/
theorem Coherent.repin (h : Coherent view pending m) {p : PageId} {i : Fin n}
    (hlookup : m.bufferPool.pageToFrame.lookup p = some i) (pinCount : UInt32) {dirty : Bool}
    {pending' : PageId → Bool} (hdirty : (m.bufferPool.frames i).dirty = true → dirty = true)
    (hp : pending p = true → dirty = true ∨ pending' p = true)
    (hother : ∀ q ≠ p, pending' q = pending q) (hpin : pending' p = true → pinCount ≠ 0) :
    Coherent view pending' { m with bufferPool := { m.bufferPool with
      frames := Function.update m.bufferPool.frames i
        { m.bufferPool.frames i with pinCount, dirty } } } := by
  have hframe : ∀ q j, m.bufferPool.pageToFrame.lookup q = some j → q ≠ p → j ≠ i := by
    rintro q j hq hqp rfl
    have hsame := ((h.sound.frame q j).mp hq).symm.trans ((h.sound.frame p j).mp hlookup)
    exact hqp (Option.some.inj hsame)
  refine ⟨h.sound.repin hlookup pinCount dirty, h.good, h.stored, fun q hq => ?_, fun q hq => ?_⟩
  · refine h.clean q fun j hj => ?_
    have hclean := hq j hj
    by_cases hqp : q = p
    · subst hqp
      cases hlookup.symm.trans hj
      dsimp only at hclean
      rw [Function.update_self] at hclean
      refine ⟨?_, ?_⟩
      · by_contra hd
        rw [hdirty (Bool.eq_true_of_not_eq_false hd)] at hclean
        cases hclean.1
      · by_contra hpend
        rcases hp (Bool.eq_true_of_not_eq_false hpend) with hd | hd
        · rw [hd] at hclean
          cases hclean.1
        · rw [hd] at hclean
          cases hclean.2
    · dsimp only at hclean
      rwa [Function.update_of_ne (hframe q j hj hqp), hother q hqp] at hclean
  · by_cases hqp : q = p
    · subst hqp
      refine ⟨i, hlookup, ?_⟩
      dsimp only
      rw [Function.update_self]
      exact hpin hq
    · obtain ⟨j, hj, hne⟩ := h.pinned q (hother q hqp ▸ hq)
      refine ⟨j, hj, ?_⟩
      dsimp only
      rwa [Function.update_of_ne (hframe q j hj hqp)]

/-! ## The calls -/

/-- A fetch that returns gives the page of the view, pinned. -/
theorem Coherent.fetched (h : Coherent view pending m) {p : PageId} {page : Page}
    (hrun : fetchPage p m = .ok page m') :
    Coherent view pending m' ∧ view p = some page.content ∧ Pinned p m'.bufferPool ∧
      (m.bufferPool.pageToFrame.lookup p = none → content m'.fileManager p = view p) := by
  cases hlookup : m.bufferPool.pageToFrame.lookup p with
  | some i =>
    obtain ⟨x, hx, hview⟩ := h.sound.holds p i ((h.sound.frame p i).mp hlookup)
    rw [fetchPage_of_hit hlookup hx] at hrun
    split at hrun
    · next hfits =>
      cases hrun
      have hne := pinCount_succ_ne_zero hfits
      refine ⟨?_, hview, ⟨i, hlookup, ?_⟩, fun hmiss => by cases hmiss⟩
      · exact (h.repin hlookup _ id .inr (fun _ _ => rfl) fun _ => hne).lru _
      · exact ne_of_eq_of_ne (congrArg BufferFrame.pinCount (Function.update_self ..)) hne
    · cases hrun
  | none =>
    rw [fetchPage_of_miss hlookup] at hrun
    have hload := loading_loadPage h.sound.unpinned p
    rw [hrun] at hload
    cases hload with
    | @loads i lruList m₁ page fm hfound hwrite hread =>
      have hpin : ((withLru lruList m).bufferPool.frames i).pinCount = 0 := by
        rcases hfound.found with ⟨hid, -⟩ | ⟨-, hpin, -⟩
        · exact h.sound.unpinned i hid
        · exact hpin
      obtain ⟨hcoherent, hpool, hold⟩ := (h.lru lruList).wroteBack hpin hwrite
      rw [← hpool] at hold hpin
      have hmiss : m₁.bufferPool.pageToFrame.lookup p = none := by rw [hpool]; exact hlookup
      obtain ⟨hloaded, hview, hdisk⟩ := hcoherent.loaded hmiss hpin hold hread
      rw [hpool] at hloaded
      refine ⟨hloaded, hview, ⟨i, ?_, ?_⟩, fun _ => hdisk⟩
      · exact (lookup_remap i p p _).trans (if_pos rfl)
      · rw [pinCount_loaded]
        exact nofun

/-- Forgetting that a page is pending, if it is not in the buffer or was not pending there. -/
theorem Coherent.of_pending (h : Coherent view pending m) {pending' : PageId → Bool}
    (hsame : ∀ p i, m.bufferPool.pageToFrame.lookup p = some i → pending' p = pending p)
    (hless : ∀ p, pending' p = true → pending p = true) : Coherent view pending' m where
  sound := h.sound
  good := h.good
  stored := h.stored
  clean p hp := h.clean p fun i hi => hsame p i hi ▸ hp i hi
  pinned p hp := h.pinned p (hless p hp)

/-- Unpinning a page keeps the view, if the last pin of a changed page goes with `dirty` set. -/
theorem Coherent.unpinned (h : Coherent view pending m) {p : PageId} {dirty : Bool}
    (hlast : ∀ i, m.bufferPool.pageToFrame.lookup p = some i → (m.bufferPool.frames i).pinCount = 1 →
      pending p = true → dirty = true) :
    Coherent view (if dirty then Function.update pending p false else pending)
      (final (unpinPage p dirty) m) := by
  have hother : ∀ q ≠ p,
      (if dirty then Function.update pending p false else pending) q = pending q := by
    intro q hq
    cases dirty
    · rfl
    · exact Function.update_of_ne hq ..
  unfold final
  rcases unpinPage_cases p dirty m with ⟨⟨e, hrun⟩, hzero⟩ | ⟨i, hlookup, hpin, hrun⟩
  · rw [hrun]
    refine h.of_pending (fun q i hi => ?_) fun q hq => ?_
    · by_cases hqp : q = p
      · subst hqp
        cases dirty
        · rfl
        · exact (Function.update_self ..).trans (h.settled hi (hzero i hi)).symm
      · exact hother q hqp
    · by_cases hqp : q = p
      · subst hqp
        cases dirty
        · exact hq
        · cases (Function.update_self ..).symm.trans hq
      · exact hother q hqp ▸ hq
  · rw [hrun]
    refine h.repin hlookup _ (fun hd => by rw [hd]; rfl) (fun hp => ?_) hother fun hp hzero => ?_
    · cases dirty
      · exact .inr hp
      · exact .inl (Bool.or_true _)
    · cases dirty
      · have hone : (m.bufferPool.frames i).pinCount = 1 := by
          rwa [sub_eq_zero] at hzero
        cases hlast i hlookup hone hp
      · cases (Function.update_self ..).symm.trans hp

/-- Changing a pinned page changes the view. -/
theorem Coherent.modified (h : Coherent view pending m) {p : PageId}
    (hpinned : Pinned p m.bufferPool) (page : Page) :
    Coherent (Function.update view p (some page.content)) (Function.update pending p true)
      (final (modifyPage p page) m) := by
  obtain ⟨i, hlookup, hpin⟩ := hpinned
  have hid := (h.sound.frame p i).mp hlookup
  obtain ⟨x, hx, hview⟩ := h.sound.holds p i hid
  set frame : BufferFrame :=
    ⟨some page, some p, (m.bufferPool.frames i).pinCount, (m.bufferPool.frames i).dirty⟩ with hframe
  have hrun : BufferPoolManager.modifyPage p page m = .ok () { m with bufferPool :=
      { m.bufferPool with frames := Function.update m.bufferPool.frames i frame } } := by
    rw [BufferPoolManager.modifyPage, get_bind, hlookup, hframe, ← hid]
    have hmap : (m.bufferPool.frames i).page.map (fun _ => page) = some page := by rw [hx]; rfl
    rw [← hmap]
    rfl
  have hsame : ∀ q j, m.bufferPool.pageToFrame.lookup q = some j → q ≠ p → j ≠ i := by
    rintro q j hq hqp rfl
    exact hqp (Option.some.inj (((h.sound.frame q j).mp hq).symm.trans hid))
  have hkept : ∀ q x', q ≠ p → view q = some x' →
      Function.update view p (some page.content) q = some x' := by
    intro q x' hq hx'
    rwa [Function.update_of_ne hq]
  rw [final, hrun]
  refine ⟨?_, h.good, fun q => ?_, fun q hq => ?_, fun q hq => ?_⟩
  · exact h.sound.update hlookup (Function.update_self ..) (fun q x' hq => hkept q _ hq) _ _
  · rw [h.stored]
    by_cases hq : q = p
    · rw [hq, Function.update_self, hview]
      rfl
    · rw [Function.update_of_ne hq]
  · by_cases hqp : q = p
    · subst hqp
      have hpending := (hq i hlookup).2
      rw [Function.update_self] at hpending
      cases hpending
    · rw [Function.update_of_ne hqp]
      refine h.clean q fun j hj => ?_
      have hclean := hq j hj
      dsimp only at hclean
      rwa [Function.update_of_ne (hsame q j hj hqp), Function.update_of_ne hqp] at hclean
  · by_cases hqp : q = p
    · subst hqp
      refine ⟨i, hlookup, ?_⟩
      dsimp only
      rwa [Function.update_self]
    · rw [Function.update_of_ne hqp] at hq
      obtain ⟨j, hj, hne⟩ := h.pinned q hq
      refine ⟨j, hj, ?_⟩
      dsimp only
      rwa [Function.update_of_ne (hsame q j hj hqp)]

/-- Allocating a page adds it to the view. -/
theorem Coherent.allocated (h : Coherent view pending m) {t : PageType} {p : PageId} {fm : φ}
    (halloc : FileManager.allocatePage t m.fileManager = .ok p fm) :
    Coherent (fun q => (view q).or (content fm q)) pending { m with fileManager := fm } := by
  obtain ⟨hgood, hnew, page, hcontent⟩ := allocate_ok h.good halloc
  have hself : content fm p = some page := by rw [hcontent, Function.update_self]
  have hother : ∀ q, q ≠ p → content fm q = content m.fileManager q := by
    intro q hq
    rw [hcontent, Function.update_of_ne hq]
  have hnone : view p = none := by simpa [hnew] using h.stored p
  have hview : ∀ q, q ≠ p → (view q).or (content fm q) = view q := by
    intro q hq
    have hstored := h.stored q
    rw [hother q hq]
    cases hv : view q with
    | some x => rfl
    | none => simpa [hv] using hstored
  refine ⟨h.sound.mono fun q x hq => ?_, hgood, fun q => ?_, fun q hq => ?_, h.pinned⟩
  · rw [hq, Option.some_or]
  · by_cases hqp : q = p
    · rw [hqp, hself, hnone, Option.none_or]
    · rw [hview q hqp, hother q hqp, h.stored]
  · by_cases hqp : q = p
    · rw [hqp, hself, hnone, Option.none_or]
    · rw [hview q hqp, hother q hqp]
      exact h.clean q hq

/-- A flush of frames that returns leaves the view, and their dirty pages are on disk as in it. -/
theorem Coherent.flushedEntries (h : Coherent view pending m) {entries : List (Fin n × PageId)}
    (hentries : ∀ e ∈ entries, m.bufferPool.pageToFrame.lookup e.2 = some e.1)
    (hrun : flushPages entries m = .ok () m') :
    Coherent view pending m' ∧ m'.bufferPool = m.bufferPool ∧
      (∀ p, content m'.fileManager p = content m.fileManager p ∨
        content m'.fileManager p = view p) ∧
      ∀ e ∈ entries, (m.bufferPool.frames e.1).dirty = true →
        content m'.fileManager e.2 = view e.2 := by
  induction entries generalizing m with
  | nil =>
    cases hrun
    exact ⟨h, rfl, fun _ => .inl rfl, List.forall_mem_nil _⟩
  | cons entry entries ih =>
    obtain ⟨i, p⟩ := entry
    obtain ⟨hlookup, hentries⟩ := List.forall_mem_cons.mp hentries
    have hid := (h.sound.frame p i).mp hlookup
    obtain ⟨page, hpage, hview⟩ := h.sound.holds p i hid
    rw [BufferPoolManager.flushPages, get_bind, hpage] at hrun
    cases hdirty : (m.bufferPool.frames i).dirty with
    | false =>
      rw [hdirty] at hrun
      obtain ⟨hcoherent, hpool, hkept, hwritten⟩ := ih h hentries hrun
      refine ⟨hcoherent, hpool, hkept, List.forall_mem_cons.mpr ⟨fun hd => ?_, hwritten⟩⟩
      cases hdirty.symm.trans hd
    | true =>
      rw [hdirty] at hrun
      obtain ⟨_, m₁, hwrite, hrest⟩ := bind_eq_ok.mp hrun
      obtain ⟨hpool₁, hact⟩ := (spec_onFm _ m).post hwrite
      obtain ⟨hcoherent₁, hself, hother⟩ := h.write hview hact
      have hm₁ : { m with fileManager := m₁.fileManager } = m₁ := by rw [← hpool₁]
      rw [hm₁] at hcoherent₁
      obtain ⟨hcoherent, hpool, hkept, hwritten⟩ := ih hcoherent₁ (hpool₁ ▸ hentries) hrest
      refine ⟨hcoherent, hpool.trans hpool₁, fun q => ?_, List.forall_mem_cons.mpr ⟨fun _ => ?_, ?_⟩⟩
      · rcases hkept q with hq | hq
        · by_cases hqp : q = p
          · exact .inr (by rw [hq, hqp, hself])
          · exact .inl (hq.trans (hother q hqp))
        · exact .inr hq
      · rcases hkept p with hp | hp
        · exact hp.trans hself
        · exact hp
      · rwa [hpool₁] at hwritten

/-- A flush that returns leaves the view, and every page that is not pending is on disk as in it. -/
theorem Coherent.flushed (h : Coherent view pending m)
    (hrun : flushAllPages m = .ok () m') :
    Coherent view pending m' ∧ ∀ p, pending p = false → content m'.fileManager p = view p := by
  have hentries : ∀ e ∈ HashMap.pairs m.bufferPool.frameToPage,
      m.bufferPool.pageToFrame.lookup e.2 = some e.1 := by
    intro e he
    exact (h.sound.inverse e.2 e.1).mpr (HashMap.mem_pairs.mp he)
  obtain ⟨hcoherent, hpool, hkept, hwritten⟩ := h.flushedEntries hentries hrun
  refine ⟨hcoherent, fun p hp => ?_⟩
  by_cases hdirty : ∃ i, m.bufferPool.pageToFrame.lookup p = some i ∧
      (m.bufferPool.frames i).dirty = true
  · obtain ⟨i, hi, hd⟩ := hdirty
    exact hwritten (i, p) (HashMap.mem_pairs.mpr ((h.sound.inverse p i).mp hi)) hd
  · refine hcoherent.clean p fun i hi => ⟨?_, hp⟩
    rw [hpool] at hi ⊢
    by_contra hd
    exact hdirty ⟨i, hi, Bool.eq_true_of_not_eq_false hd⟩

/-- What the file manager has adds nothing to the view. -/
theorem Coherent.view_or (h : Coherent view pending m) :
    (fun p => (view p).or (content m.fileManager p)) = view := by
  funext p
  have hstored := h.stored p
  cases hv : view p with
  | some x => rfl
  | none => simpa [hv] using hstored

end Store

section Failures

open LawfulFileManager

variable [FileManager φ] {m m' : BufferPoolManager n (Watched φ)} {e : Failure}

theorem failed_flushPages {entries : List (Fin n × PageId)}
    (hrun : flushPages entries m = .error e m') : m'.fileManager.failed = true := by
  induction entries generalizing m with
  | nil => cases hrun
  | cons entry entries ih =>
    obtain ⟨i, p⟩ := entry
    unfold flushPages at hrun
    rw [get_bind] at hrun
    cases hdirty : (m.bufferPool.frames i).dirty with
    | false =>
      rw [hdirty] at hrun
      exact ih hrun
    | true =>
      cases hpage : (m.bufferPool.frames i).page with
      | none =>
        rw [hdirty, hpage] at hrun
        exact ih hrun
      | some page =>
        rw [hdirty, hpage] at hrun
        change (onFm (FileManager.writePage p page) >>= fun _ => flushPages entries) m = _ at hrun
        cases hwrite : onFm (FileManager.writePage p page) m with
        | ok _ m₁ =>
          rw [bind_of_ok hwrite] at hrun
          exact ih hrun
        | error e₁ m₁ =>
          rw [bind_of_error hwrite] at hrun
          cases hrun
          have hact := ((spec_onFm _ m).fail hwrite).2
          exact ((Watched.spec_watch (FileManager.writePage p page) m.fileManager).fail hact).2.1

variable [LawfulFileManager φ] {view : PageId → Option Page} {pending : PageId → Bool}

/-- A fetch that fails without a failure of the file manager found no frame, or no room for another
pin, and keeps the view. -/
theorem Coherent.fetched_error (h : Coherent view pending m) {p : PageId}
    (hrun : fetchPage p m = .error e m') :
    m'.fileManager.failed = true ∨ Coherent view pending m' ∧
      (e = noFrames ∨ e = .panic "attempt to add with overflow") ∧
        m'.bufferPool.pageToFrame = m.bufferPool.pageToFrame := by
  cases hlookup : m.bufferPool.pageToFrame.lookup p with
  | some i =>
    obtain ⟨x, hx, -⟩ := h.sound.holds p i ((h.sound.frame p i).mp hlookup)
    rw [fetchPage_of_hit hlookup hx] at hrun
    split at hrun
    · cases hrun
    · cases hrun
      exact .inr ⟨h, .inr rfl, rfl⟩
  | none =>
    rw [fetchPage_of_miss hlookup] at hrun
    have hload := loading_loadPage h.sound.unpinned p
    rw [hrun] at hload
    cases hload with
    | noFrame => exact .inr ⟨h.lru [], .inl rfl, rfl⟩
    | writeFails _ hwrite => exact .inl (failed_writeBack hwrite)
    | readFails _ _ hread => exact .inl ((Watched.spec_readPage _ _).fail hread).2.1

/-- A fetch without a failure of the file manager keeps the view, and leaves the page that it loads on
disk as it was. -/
theorem Coherent.final_fetch (h : Coherent view pending m) {p : PageId}
    (hio : (final (fetchPage p) m).fileManager.failed = false) :
    Coherent view pending (final (fetchPage p) m) ∧
      (m.bufferPool.pageToFrame.lookup p = none →
        content (final (fetchPage p) m).fileManager p = view p) := by
  unfold final at hio ⊢
  cases hrun : fetchPage p m with
  | ok page m' =>
    obtain ⟨hcoherent, -, -, hdisk⟩ := h.fetched hrun
    exact ⟨hcoherent, hdisk⟩
  | error e m' =>
    rw [hrun] at hio
    rcases h.fetched_error hrun with hfailed | ⟨hcoherent, -, hpool⟩
    · cases hio.symm.trans hfailed
    · refine ⟨hcoherent, fun hmiss => hcoherent.clean p fun i hi => ?_⟩
      rw [hpool] at hi
      cases hmiss.symm.trans hi

/-- Making a new page without a failure of the file manager adds it to the view. -/
theorem Coherent.final_new (h : Coherent view pending m) {t : PageType}
    (hio : (final (newPage t) m).fileManager.failed = false) :
    Coherent (fun p => (view p).or (content (final (newPage t) m).fileManager p)) pending
      (final (newPage t) m) := by
  rcases newPage_cases t m with ⟨e, fm, halloc, hrun⟩ | ⟨p, fm, halloc, hrun⟩
  · have hfailed := ((Watched.spec_watch (FileManager.allocatePage t) m.fileManager).fail halloc).2.1
    rw [final, hrun] at hio
    cases hio.symm.trans hfailed
  · rw [hrun] at hio ⊢
    obtain ⟨hcoherent, hdisk⟩ := (h.allocated halloc).final_fetch hio
    have hnone : view p = none := by simpa [(allocate_ok h.good halloc).2.1] using h.stored p
    have hmiss : m.bufferPool.pageToFrame.lookup p = none := by
      rw [Option.eq_none_iff_forall_ne_some]
      intro i hi
      obtain ⟨x, -, hview⟩ := h.sound.holds p i ((h.sound.frame p i).mp hi)
      cases hnone.symm.trans hview
    -- the view gets the new page, and nothing else
    convert hcoherent using 2 with q
    by_cases hq : q = p
    · rw [hq, hdisk hmiss, hnone, Option.none_or, Option.none_or]
    · have hfm : content fm q = content m.fileManager q := by
        obtain ⟨-, -, page, hcontent⟩ := allocate_ok h.good halloc
        rw [hcontent, Function.update_of_ne hq]
      have hbefore := h.stored q
      have hafter := hcoherent.stored q
      rw [hfm] at hafter ⊢
      cases hv : view q with
      | some x => rfl
      | none =>
        rw [hv, Option.isSome_none, Option.isSome_eq_false_iff, Option.isNone_iff_eq_none] at hbefore
        rw [hv, hbefore] at hafter
        rw [hbefore, Option.none_or, Option.or_none]
        exact Option.isNone_iff_eq_none.mp (Option.isSome_eq_false_iff.mp hafter)

end Failures

/-! ## Runs of clients -/

/-- What a client does with a buffer pool: it makes a call, or changes a page through its handle. -/
inductive ClientOp
  | call (op : PoolOp)
  | modify (pageId : PageId) (page : Page)

/-- A buffer pool, what was last written to every page, and the pages that have been changed since they
were last unpinned as dirty. -/
structure Tracked (n : ℕ) (φ : Type) where
  pool : BufferPoolManager n (Watched φ)
  view : PageId → Option Page
  pending : PageId → Bool

namespace Tracked

section Clients

variable [FileManager φ] [LawfulFileManager φ]

open LawfulFileManager

/-- A new buffer pool. The pages hold what the file manager has. -/
def new (n : ℕ) (fm : φ) : Tracked n φ := ⟨.new n (.new fm), content fm, fun _ => false⟩

/-- The pages that are still pending after a call. -/
def cleared (pending : PageId → Bool) : PoolOp → PageId → Bool
  | .unpin p true => Function.update pending p false
  | _ => pending

/-- One step of a client. A page that is allocated holds what the file manager put there. -/
def step (s : Tracked n φ) : ClientOp → Tracked n φ
  | .call op =>
    let pool := final (BufferPoolManager.step op) s.pool
    { pool
      view := fun p => (s.view p).or (content pool.fileManager p)
      pending := cleared s.pending op }
  | .modify p page =>
    { pool := final (modifyPage p page) s.pool
      view := Function.update s.view p (some page.content)
      pending := Function.update s.pending p true }

/-- The steps of a client, in order. -/
def run (ops : List ClientOp) (s : Tracked n φ) : Tracked n φ := ops.foldl step s

/-- Clients change pages only while these are pinned, and a changed page loses its last pin only with
`dirty` set. They delete no pages. -/
def Allowed (s : Tracked n φ) : ClientOp → Prop
  | .call (.unpin p dirty) => ∀ i, s.pool.bufferPool.pageToFrame.lookup p = some i →
      (s.pool.bufferPool.frames i).pinCount = 1 → s.pending p = true → dirty = true
  | .call (.delete _) => False
  | .call _ => True
  | .modify p _ => Pinned p s.pool.bufferPool

/-- A step that keeps to the rules, without a failure of the file manager. -/
def Smooth (s : Tracked n φ) (op : ClientOp) : Prop :=
  Allowed s op ∧ (step s op).pool.fileManager.failed = false

/-- The pool holds what the clients have written. -/
def Agrees (s : Tracked n φ) : Prop := Coherent s.view s.pending s.pool

theorem agrees_step {s : Tracked n φ} {op : ClientOp} (h : Agrees s) (hop : Smooth s op) :
    Agrees (step s op) := by
  obtain ⟨hallowed, hio⟩ := hop
  -- calls that allocate no page leave the view
  have hsame : ∀ op, Coherent s.view (cleared s.pending op) (final (BufferPoolManager.step op) s.pool) →
      Agrees (step s (.call op)) := by
    intro op hcoherent
    rw [Agrees, step]
    dsimp only
    rwa [hcoherent.view_or]
  cases op with
  | modify p page => exact Coherent.modified h hallowed page
  | call op =>
    change (final (BufferPoolManager.step op) s.pool).fileManager.failed = false at hio
    cases op with
    | fetch p =>
      have hrun : final (BufferPoolManager.step (.fetch p)) s.pool = final (fetchPage p) s.pool :=
        final_discard _ _
      apply hsame
      rw [hrun] at hio ⊢
      exact (Coherent.final_fetch h hio).1
    | unpin p dirty =>
      have hunpinned := Coherent.unpinned h hallowed
      apply hsame
      cases dirty
      · exact hunpinned
      · exact hunpinned
    | newPage t =>
      have hrun : final (BufferPoolManager.step (.newPage t)) s.pool = final (newPage t) s.pool :=
        final_discard _ _
      rw [hrun] at hio
      have hnew := Coherent.final_new h hio
      rw [← hrun] at hnew
      exact hnew
    | delete p => exact hallowed.elim
    | flush =>
      apply hsame
      change (final flushAllPages s.pool).fileManager.failed = false at hio
      show Coherent s.view s.pending (final flushAllPages s.pool)
      unfold final at hio ⊢
      cases hrun : flushAllPages s.pool with
      | ok _ m' => exact (Coherent.flushed h hrun).1
      | error e m' =>
        rw [hrun] at hio
        cases hio.symm.trans (failed_flushPages hrun)

end Clients

end Tracked

end BufferPoolManager

end Rustgresql
