import Rustgresql.Storage.Buffer

/-!
# The two maps of the buffer pool

`fetch_page` changes the maps before it reads the page and fills the frame after it. If the read
fails in between, the maps send the page to a frame that holds another page, or none. This is the
only way in which the maps and the frames come apart (`mapped_iff`).
-/

namespace Rustgresql

open StateSpec

namespace BufferPoolManager

variable {n : ℕ} {φ : Type}

/-! ## The maps after a remap -/

theorem lookup_remap (i : Fin n) (p q : PageId) (b : BufferPool n) :
    (remap i p b).pageToFrame.lookup q =
      if q = p then some i
      else if (b.frames i).pageId = some q then none else b.pageToFrame.lookup q := by
  unfold remap
  cases hold : (b.frames i).pageId with
  | none =>
    dsimp only
    rw [HashMap.lookup_insert_eq]
    simp
  | some old =>
    dsimp only
    rw [HashMap.lookup_insert_eq]
    split
    · rfl
    · by_cases hq : q = old
      · rw [if_pos (congrArg some hq.symm), hq, AList.lookup_erase]
      · rw [if_neg fun h => hq (Option.some.inj h).symm, AList.lookup_erase_ne hq]

theorem lookup_frameToPage_remap (i j : Fin n) (p : PageId) (b : BufferPool n) :
    (remap i p b).frameToPage.lookup j = if j = i then some p else b.frameToPage.lookup j := by
  unfold remap
  cases (b.frames i).pageId with
  | none =>
    dsimp only
    rw [HashMap.lookup_insert_eq]
  | some old =>
    dsimp only
    rw [HashMap.lookup_insert_eq]
    split
    · rfl
    · next hj => rw [AList.lookup_erase_ne hj]

/-! ## Maps and frames in step -/

/-- The two maps are inverse to each other, and send a page to a frame exactly when the frame has its
number and holds the page. -/
structure Mapped (Holds : PageId → Page → Prop) (b : BufferPool n) : Prop where
  inverse : ∀ p i, b.pageToFrame.lookup p = some i ↔ b.frameToPage.lookup i = some p
  frame : ∀ p i, b.pageToFrame.lookup p = some i ↔ (b.frames i).pageId = some p
  holds : ∀ p i, (b.frames i).pageId = some p →
    ∃ page, (b.frames i).page = some page ∧ Holds p page

/-- Moreover, nobody has pinned an empty frame. -/
structure Sound (Holds : PageId → Page → Prop) (b : BufferPool n) : Prop extends Mapped Holds b where
  unpinned : ∀ i, (b.frames i).pageId = none → (b.frames i).pinCount = 0

section Pools

variable {Holds Holds' : PageId → Page → Prop} {b : BufferPool n}

theorem sound_new (fm : φ) : Sound Holds (new n fm).bufferPool where
  inverse _ _ := iff_of_false nofun nofun
  frame _ _ := iff_of_false nofun nofun
  holds _ _ := nofun
  unpinned _ _ := rfl

theorem Sound.mono (h : Sound Holds b) (himp : ∀ p page, Holds p page → Holds' p page) :
    Sound Holds' b where
  inverse := h.inverse
  frame := h.frame
  holds p i hid := by
    obtain ⟨page, hpage, hp⟩ := h.holds p i hid
    exact ⟨page, hpage, himp p page hp⟩
  unpinned := h.unpinned

theorem Sound.lru (h : Sound Holds b) (lruList : List PageId) : Sound Holds { b with lruList } where
  inverse := h.inverse
  frame := h.frame
  holds := h.holds
  unpinned := h.unpinned

/-- Changing the page in the frame of page `p`, its pins and its dirty flag. -/
theorem Sound.update (h : Sound Holds b) {p : PageId} {i : Fin n}
    (hlookup : b.pageToFrame.lookup p = some i) {page : Page} (hp : Holds' p page)
    (hother : ∀ q x, q ≠ p → Holds q x → Holds' q x) (pinCount : UInt32) (dirty : Bool) :
    Sound Holds' { b with
      frames := Function.update b.frames i ⟨some page, some p, pinCount, dirty⟩ } := by
  have hid := (h.frame p i).mp hlookup
  have hsame : ∀ j, (Function.update b.frames i ⟨some page, some p, pinCount, dirty⟩ j).pageId =
      (b.frames j).pageId := by
    intro j
    by_cases hj : j = i
    · rw [hj, Function.update_self, hid]
    · rw [Function.update_of_ne hj]
  refine { inverse := h.inverse, frame := fun q j => ?_, holds := fun q j hq => ?_,
           unpinned := fun j hj => ?_ }
  · exact (h.frame q j).trans (by rw [hsame])
  · by_cases hj : j = i
    · have hqp : q = p := by
        rw [hsame, hj, hid] at hq
        exact (Option.some.inj hq).symm
      dsimp only
      rw [hj, Function.update_self, hqp]
      exact ⟨page, rfl, hp⟩
    · rw [hsame] at hq
      obtain ⟨x, hx, hheld⟩ := h.holds q j hq
      refine ⟨x, ?_, hother q x (fun hqp => hj ?_) hheld⟩
      · exact (congrArg _ (Function.update_of_ne hj ..)).trans hx
      · exact Option.some.inj (((h.frame q j).mpr hq).symm.trans (hqp ▸ hlookup))
  · rw [hsame] at hj
    by_cases hji : j = i
    · rw [hji, hid] at hj
      cases hj
    · exact (congrArg _ (Function.update_of_ne hji ..)).trans (h.unpinned j hj)

/-- Changing only the pins and the dirty flag. -/
theorem Sound.repin (h : Sound Holds b) {p : PageId} {i : Fin n}
    (hlookup : b.pageToFrame.lookup p = some i) (pinCount : UInt32) (dirty : Bool) :
    Sound Holds { b with
      frames := Function.update b.frames i { b.frames i with pinCount, dirty } } := by
  have hid := (h.frame p i).mp hlookup
  obtain ⟨page, hpage, hp⟩ := h.holds p i hid
  have hupdate := h.update hlookup hp (fun _ _ _ hq => hq) pinCount dirty
  rwa [← hpage, ← hid] at hupdate

/-- Another frame holds none of the pages that a remap of frame `i` concerns. -/
theorem Mapped.lookup_remap_eq (h : Mapped Holds b) {p : PageId}
    (hmiss : b.pageToFrame.lookup p = none) (i j : Fin n) (q : PageId) :
    (remap i p b).pageToFrame.lookup q = some j ↔
      if j = i then q = p else (b.frames j).pageId = some q := by
  rw [lookup_remap]
  by_cases hq : q = p
  · subst hq
    have hnone : (b.frames j).pageId ≠ some q := by
      intro hid
      rw [(h.frame q j).mpr hid] at hmiss
      cases hmiss
    simp [hnone, eq_comm]
  · rw [if_neg hq]
    split
    · next hold =>
      split
      · exact iff_of_false nofun hq
      · next hj =>
        refine iff_of_false nofun fun hid => hj ?_
        exact Option.some.inj (((h.frame q j).mpr hid).symm.trans ((h.frame q i).mpr hold))
    · next hold =>
      split
      · next hj =>
        rw [hj, h.frame]
        exact iff_of_false hold hq
      · exact h.frame q j

/-- Reading a page into a frame, with the maps changed, keeps everything in step. -/
theorem Sound.loaded (h : Sound Holds b) {p : PageId} (hmiss : b.pageToFrame.lookup p = none)
    {page : Page} (hp : Holds' p page) (hother : ∀ q x, q ≠ p → Holds q x → Holds' q x) (i : Fin n) :
    Sound Holds' (loaded p page i (remap i p b)) := by
  set frames := Function.update b.frames i ⟨some page, some p, 1, false⟩ with hframes
  have hsame : (BufferPoolManager.loaded p page i (remap i p b)).frames = frames := by
    rw [hframes, BufferPoolManager.loaded, frames_remap]
  have hself : frames i = ⟨some page, some p, 1, false⟩ := Function.update_self ..
  have hkept : ∀ j ≠ i, frames j = b.frames j := fun j hj => Function.update_of_ne hj ..
  have hid : ∀ j q, (frames j).pageId = some q ↔
      if j = i then q = p else (b.frames j).pageId = some q := by
    intro j q
    split
    · next hj =>
      rw [hj, hself, Option.some.injEq, eq_comm]
    · next hj => rw [hkept j hj]
  have hback : ∀ j q, (remap i p b).frameToPage.lookup j = some q ↔
      if j = i then q = p else (b.frames j).pageId = some q := by
    intro j q
    rw [lookup_frameToPage_remap]
    split
    · rw [Option.some.injEq, eq_comm]
    · rw [← h.inverse, h.frame]
  refine { inverse := fun q j => ?_, frame := fun q j => ?_, holds := fun q j => ?_,
           unpinned := fun j => ?_ }
  · exact (h.lookup_remap_eq hmiss i j q).trans (hback j q).symm
  · rw [hsame, hid]
    exact h.lookup_remap_eq hmiss i j q
  · rw [hsame]
    by_cases hj : j = i
    · rw [hj, hself]
      rintro ⟨⟩
      exact ⟨page, rfl, hp⟩
    · rw [hkept j hj]
      intro hq
      obtain ⟨x, hx, hheld⟩ := h.holds q j hq
      refine ⟨x, hx, hother q x ?_ hheld⟩
      rintro rfl
      rw [(h.frame q j).mpr hq] at hmiss
      cases hmiss
  · rw [hsame]
    by_cases hj : j = i
    · rw [hj, hself]
      intro hnone
      cases hnone
    · rw [hkept j hj]
      exact h.unpinned j

/-- Removing a page from both maps and its frame. -/
theorem Sound.removed (h : Sound Holds b) (p : PageId) : Sound Holds (removed p b) := by
  unfold BufferPoolManager.removed
  cases hlookup : b.pageToFrame.lookup p with
  | none => exact h
  | some i =>
    dsimp only
    -- the page is in no other frame, and the frame holds no other page
    have hto : ∀ q j, (b.pageToFrame.erase p).lookup q = some j ↔
        j ≠ i ∧ b.pageToFrame.lookup q = some j := by
      intro q j
      by_cases hq : q = p
      · rw [hq, AList.lookup_erase, hlookup]
        refine iff_of_false nofun ?_
        rintro ⟨hj, ⟨⟩⟩
        exact hj rfl
      · rw [AList.lookup_erase_ne hq, iff_and_self]
        rintro hj rfl
        have hsame := ((h.frame q j).mp hj).symm.trans ((h.frame p j).mp hlookup)
        exact hq (Option.some.inj hsame)
    have hframe : ∀ q j, (Function.update b.frames i .new j).pageId = some q ↔
        j ≠ i ∧ (b.frames j).pageId = some q := by
      intro q j
      by_cases hj : j = i
      · rw [hj, Function.update_self]
        exact iff_of_false nofun fun hne => hne.1 rfl
      · rw [Function.update_of_ne hj]
        exact (and_iff_right hj).symm
    refine { inverse := fun q j => ?_, frame := fun q j => ?_, holds := fun q j hj => ?_,
             unpinned := fun j => ?_ }
    · rw [hto, h.inverse]
      by_cases hj : j = i
      · rw [hj, AList.lookup_erase]
        exact iff_of_false (fun hne => hne.1 rfl) nofun
      · rw [AList.lookup_erase_ne hj]
        exact and_iff_right hj
    · rw [hto, hframe, h.frame]
    · obtain ⟨hji, hid⟩ := (hframe q j).mp hj
      dsimp only
      rw [Function.update_of_ne hji]
      exact h.holds q j hid
    · by_cases hj : j = i
      · dsimp only
        rw [hj, Function.update_self]
        exact fun _ => rfl
      · dsimp only
        rw [Function.update_of_ne hj]
        exact h.unpinned j

/-- A failed read leaves the new entry of the maps and the old frame. -/
theorem Mapped.not_remap (h : Mapped Holds b) {p : PageId} (hmiss : b.pageToFrame.lookup p = none)
    (i : Fin n) : ¬ Mapped Holds' (remap i p b) := by
  intro hm
  have hto : (remap i p b).pageToFrame.lookup p = some i := by
    rw [lookup_remap, if_pos rfl]
  have hid := (hm.frame p i).mp hto
  rw [frames_remap] at hid
  cases hmiss.symm.trans ((h.frame p i).mpr hid)

end Pools

/-! ## What the frames hold -/

/-- The maps and the frames are in step, and a frame holds what the last read of its page returned. -/
def ReadsMapped (m : BufferPoolManager n (Watched φ)) : Prop :=
  Mapped (fun p page => m.fileManager.lastRead p = some page) m.bufferPool

/-- Moreover, nobody has pinned an empty frame. -/
def ReadsSound (m : BufferPoolManager n (Watched φ)) : Prop :=
  Sound (fun p page => m.fileManager.lastRead p = some page) m.bufferPool

/-- The state is in step if `c` holds, and only then. -/
def SoundIff (c : Prop) (m : BufferPoolManager n (Watched φ)) : Prop :=
  (c → ReadsSound m) ∧ (ReadsMapped m → c)

theorem SoundIff.of_sound {c : Prop} {m : BufferPoolManager n (Watched φ)} (hm : ReadsSound m)
    (hc : c) : SoundIff c m := ⟨fun _ => hm, fun _ => hc⟩

/-- A file manager that has read no more leaves what the frames hold. -/
theorem ReadsSound.of_same {m m' : BufferPoolManager n (Watched φ)} (h : ReadsSound m)
    (hpool : m'.bufferPool = m.bufferPool) (hreads : m'.fileManager.reads = m.fileManager.reads) :
    ReadsSound m' := by
  rw [ReadsSound, hpool]
  refine h.mono fun p page hp => ?_
  rwa [Watched.lastRead, hreads]

theorem sound_unpinPage {m : BufferPoolManager n (Watched φ)} (h : ReadsSound m) (p : PageId)
    (dirty : Bool) : ReadsSound (final (unpinPage p dirty) m) := by
  unfold final
  rcases unpinPage_cases p dirty m with ⟨⟨e, hrun⟩, -⟩ | ⟨i, hlookup, -, hrun⟩
  · rw [hrun]
    exact h
  · rw [hrun]
    exact h.repin hlookup _ _

/-! ## One call -/

section Calls

variable [FileManager φ]

/-- If fetching page `p` gets as far as reading it, the read returns. -/
def ReadsIn (p : PageId) (m : BufferPoolManager n (Watched φ)) : Prop :=
  ∀ i m₁ m₂, m.bufferPool.pageToFrame.lookup p = none → findAvailableFrame m = .ok i m₁ →
    writeBack (m.bufferPool.frames i) m₁ = .ok () m₂ →
      ∃ page fm, FileManager.readPage p m₂.fileManager = .ok page fm

theorem reads_writeBack (f : BufferFrame) (m : BufferPoolManager n (Watched φ)) :
    Spec (writeBack f) m (fun _ m' => m'.fileManager.reads = m.fileManager.reads)
      (fun _ m' => m'.fileManager.reads = m.fileManager.reads) := by
  rcases writeBack_cases f m with ⟨hrun, -⟩ | ⟨p, page, -, -, -, hrun⟩
  · exact Spec.of_ok hrun rfl
  · unfold Spec
    rw [hrun]
    have hwatch := Watched.spec_watch (FileManager.writePage p page) m.fileManager
    exact (spec_onFm _ m).mono (fun _ _ h => (hwatch.post h.2).2.2) fun _ _ h => (hwatch.fail h.2).2.2

theorem failed_writeBack {f : BufferFrame} {m m' : BufferPoolManager n (Watched φ)} {e : Failure}
    (h : writeBack f m = .error e m') : m'.fileManager.failed = true := by
  rcases writeBack_cases f m with ⟨hrun, -⟩ | ⟨p, page, -, -, -, hrun⟩
  · cases hrun.symm.trans h
  · have hact := ((spec_onFm _ m).fail (hrun.symm.trans h)).2
    exact ((Watched.spec_watch (FileManager.writePage p page) m.fileManager).fail hact).2.1

/-- A fetch keeps a state in step exactly if no read fails in it, and the page that it returns is what
the last read of that page returned. -/
theorem spec_fetchPage {m : BufferPoolManager n (Watched φ)} (h : ReadsSound m) (p : PageId) :
    Spec (fetchPage p) m
      (fun page m' => SoundIff (ReadsIn p m) m' ∧ m'.fileManager.lastRead p = some page)
      (fun _ => SoundIff (ReadsIn p m)) := by
  cases hlookup : m.bufferPool.pageToFrame.lookup p with
  | some i =>
    have hreads : ReadsIn p m := fun _ _ _ hmiss => by cases hlookup.symm.trans hmiss
    obtain ⟨page, hpage, hread⟩ := h.holds p i ((h.frame p i).mp hlookup)
    unfold Spec
    rw [fetchPage_of_hit hlookup hpage]
    split
    · next hrun =>
      split at hrun
      · cases hrun
        exact ⟨.of_sound ((h.repin hlookup _ _).lru _) hreads, hread⟩
      · cases hrun
    · next hrun =>
      split at hrun
      · cases hrun
      · cases hrun
        exact .of_sound h hreads
  | none =>
    rw [Spec, fetchPage_of_miss hlookup]
    have hlru : ∀ lruList, ReadsSound (withLru lruList m) := fun lruList => h.lru lruList
    have hload := loading_loadPage h.unpinned p
    generalize loadPage p m = r at hload
    cases hload with
    | noFrame hsearch _ _ =>
      refine .of_sound (hlru []) fun i m₁ m₂ _ hi _ => ?_
      cases hsearch.symm.trans hi
    | @writeFails i lruList e m₁ hfound hwrite =>
      have hpool := (pool_writeBack _ (withLru lruList m)).fail hwrite
      have hreads := (reads_writeBack _ (withLru lruList m)).fail hwrite
      refine .of_sound ((hlru lruList).of_same hpool hreads) fun j m₁' m₂ _ hj hok => ?_
      cases hfound.run.symm.trans hj
      cases hwrite.symm.trans hok
    | @readFails i lruList m₁ e fm hfound hwrite hread =>
      refine ⟨fun hreads => ?_, fun hm => ?_⟩
      · obtain ⟨page, fm', hok⟩ := hreads i _ m₁ hlookup hfound.run hwrite
        cases hread.symm.trans hok
      · exact ((hlru lruList).toMapped.not_remap hlookup i hm).elim
    | @loads i lruList m₁ page fm hfound hwrite hread =>
      have hlast : ∀ q, fm.lastRead q = if q = p then some page else m.fileManager.lastRead q := by
        intro q
        have hreads := (reads_writeBack _ (withLru lruList m)).post hwrite
        rw [Watched.lastRead_of_read hread, Watched.lastRead, hreads]
        rfl
      have hself : fm.lastRead p = some page := (hlast p).trans (if_pos rfl)
      have hother : ∀ q x, q ≠ p → m.fileManager.lastRead q = some x → fm.lastRead q = some x :=
        fun q x hq hx => ((hlast q).trans (if_neg hq)).trans hx
      refine ⟨.of_sound ((hlru lruList).loaded hlookup hself hother i)
        fun j m₁' m₂ _ hj hok => ?_, hself⟩
      cases hfound.run.symm.trans hj
      cases hwrite.symm.trans hok
      exact ⟨page, fm, hread⟩

theorem sound_deletePage {m : BufferPoolManager n (Watched φ)} (h : ReadsSound m) (p : PageId) :
    ReadsSound (final (deletePage p) m) := by
  have hspec := spec_onFm (FileManager.deallocatePage p : EStateM Failure (Watched φ) Unit)
    { m with bufferPool := removed p m.bufferPool }
  have hwatch := Watched.spec_watch (FileManager.deallocatePage p) m.fileManager
  have hremoved : ReadsSound { m with bufferPool := removed p m.bufferPool } := h.removed p
  rw [final, deletePage_eq]
  split
  · next hrun =>
    obtain ⟨hpool, hact⟩ := hspec.post hrun
    exact hremoved.of_same hpool (hwatch.post hact).2.2
  · next hrun =>
    obtain ⟨hpool, hact⟩ := hspec.fail hrun
    exact hremoved.of_same hpool (hwatch.fail hact).2.2

theorem sound_flushAllPages {m : BufferPoolManager n (Watched φ)} (h : ReadsSound m) :
    ReadsSound (final flushAllPages m) := by
  have hwrite : ∀ p page, Keeps (fun s : Watched φ => s.reads = m.fileManager.reads)
      (FileManager.writePage p page : EStateM Failure (Watched φ) Unit) := by
    intro p page s hs
    exact (Watched.spec_watch (FileManager.writePage p page) s).mono
      (fun _ _ hrun => hrun.2.2.trans hs) fun _ _ hrun => hrun.2.2.trans hs
  have hkept := (keeps_flushPages hwrite m.bufferPool
    (HashMap.pairs m.bufferPool.frameToPage)).final (s := m) ⟨rfl, rfl⟩
  exact h.of_same hkept.1 hkept.2

theorem soundIff_newPage {m : BufferPoolManager n (Watched φ)} (h : ReadsSound m) (t : PageType) :
    SoundIff (OnFetch ReadsIn m (.newPage t)) (final (newPage t) m) := by
  have hwatch := Watched.spec_watch (FileManager.allocatePage t) m.fileManager
  rcases newPage_cases t m with ⟨e, fm, halloc, hrun⟩ | ⟨p, fm, halloc, hrun⟩
  · rw [final, hrun]
    have hsame : ReadsSound { m with fileManager := fm } :=
      h.of_same rfl (hwatch.fail halloc).2.2
    refine .of_sound hsame fun p fm hok => ?_
    cases halloc.symm.trans hok
  · have hsame : ReadsSound { m with fileManager := fm } := h.of_same rfl (hwatch.post halloc).2.2
    have hfetch := spec_fetchPage hsame p
    have hiff : OnFetch ReadsIn m (.newPage t) ↔ ReadsIn p { m with fileManager := fm } := by
      refine ⟨fun hreads => hreads p fm halloc, fun hreads q fm hok => ?_⟩
      cases halloc.symm.trans hok
      exact hreads
    rw [hrun, hiff]
    exact (hfetch.conseq fun _ _ hpost => hpost.1).final

/-- A call keeps a state in step exactly if no read fails in it. -/
theorem soundIff_step {m : BufferPoolManager n (Watched φ)} (h : ReadsSound m) (op : PoolOp) :
    SoundIff (OnFetch ReadsIn m op) (final (step op) m) := by
  cases op with
  | fetch p =>
    rw [step, final_discard]
    exact ((spec_fetchPage h p).conseq fun _ _ hpost => hpost.1).final
  | unpin p dirty => exact .of_sound (sound_unpinPage h p dirty) trivial
  | newPage t =>
    rw [step, final_discard]
    exact soundIff_newPage h t
  | delete p => exact .of_sound (sound_deletePage h p) trivial
  | flush => exact .of_sound (sound_flushAllPages h) trivial

/-! ## Runs -/

theorem sound_run {m : BufferPoolManager n (Watched φ)} (h : ReadsSound m) {ops : List PoolOp}
    (hreads : ∀ pre op post, ops = pre ++ op :: post → OnFetch ReadsIn (run pre m) op) :
    ReadsSound (run ops m) :=
  run_induction (I := ReadsSound) (fun _ op hm hop => (soundIff_step hm op).1 hop) h hreads

theorem readsIn_of_mapped {m : BufferPoolManager n (Watched φ)} (h : ReadsSound m) {ops : List PoolOp}
    (hmapped : ∀ pre, pre <+: ops → ReadsMapped (run pre m)) :
    ∀ pre op post, ops = pre ++ op :: post → OnFetch ReadsIn (run pre m) op := by
  induction ops using List.reverseRecOn with
  | nil => exact fun pre op post hops => by simp at hops
  | append_singleton ops op ih =>
    have hbefore := ih fun pre hpre => hmapped pre (hpre.trans (List.prefix_append ops [op]))
    refine forall_split_append_singleton.mpr ⟨hbefore, ?_⟩
    have hlast := hmapped _ List.prefix_rfl
    rw [run_append] at hlast
    exact (soundIff_step (sound_run h hbefore) op).2 hlast

/-- In a run of calls on a new buffer pool, with any failures of the file manager, the maps agree with
the frames and every fetch returns what the last read of its page returned exactly if no read of a
page that is being loaded fails. -/
theorem mapped_iff (n : ℕ) (fm : φ) (ops : List PoolOp) :
    (∀ pre, pre <+: ops → ReadsMapped (run pre (new n (.new fm))) ∧
        ∀ p page (m' : BufferPoolManager n (Watched φ)),
          fetchPage p (run pre (new n (.new fm))) = .ok page m' →
            m'.fileManager.lastRead p = some page) ↔
      ∀ pre op post, ops = pre ++ op :: post → OnFetch ReadsIn (run pre (new n (.new fm))) op := by
  constructor
  · exact fun h => readsIn_of_mapped (sound_new (.new fm)) fun pre hpre => (h pre hpre).1
  · intro hreads pre hpre
    obtain ⟨rest, rfl⟩ := hpre
    have hsound : ReadsSound (run pre (new n (.new fm))) := by
      refine sound_run (sound_new (.new fm)) fun before op post hops => ?_
      exact hreads before op (post ++ rest) (by rw [hops, List.append_assoc, List.cons_append])
    exact ⟨hsound.toMapped, fun p page m' hok => ((spec_fetchPage hsound p).post hok).2⟩

end Calls

/-- A pool with one frame: a new page 1 is unpinned, and page 2, which does not exist, is fetched. -/
def missingPage : BufferPoolManager 1 (Watched MockFileManager) :=
  run [.newPage .data, .unpin 1 false, .fetch 2] (new 1 (.new .new))

/-- The failed read of page 2 leaves the map sending page 2 to the frame that holds page 1, and the next
fetch of page 2 returns page 1. -/
theorem missingPage_fetched :
    ¬ ReadsMapped missingPage ∧ ∃ page m', fetchPage 2 missingPage = .ok page m' ∧
      page.header.pageId = 1 ∧ m'.fileManager.lastRead 2 = none := by
  refine ⟨fun h => ?_, _, _, rfl, rfl, rfl⟩
  have hid : (missingPage.bufferPool.frames 0).pageId = some 2 := (h.frame 2 0).mp rfl
  have hone : (missingPage.bufferPool.frames 0).pageId = some 1 := rfl
  rw [hid] at hone
  cases hone

end BufferPoolManager

end Rustgresql
