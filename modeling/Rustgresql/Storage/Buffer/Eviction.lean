import Rustgresql.Storage.Buffer.Mapping

/-!
# Frames that can be evicted

Only a page in the LRU list can be evicted, and the eviction scan drops the pages that it passes over.
A page that is pinned when a scan passes over it is out of the list for good: unpinning does not put
it back. `noLeak_run` says that frames are lost in no other way than this one and a failure of the
file manager in the middle of a fetch.
-/

namespace Rustgresql

open StateSpec

namespace BufferPoolManager

variable {n : ℕ} {φ : Type}

/-- The frame of the least recently used page that is in the buffer. -/
def oldest (b : BufferPool n) : Option (Fin n) :=
  b.lruList.findSome? b.pageToFrame.lookup

/-- The LRU list has every page that is in the buffer. -/
structure Listed (m : BufferPoolManager n (Watched φ)) : Prop where
  sound : ReadsSound m
  listed : ∀ p i, m.bufferPool.pageToFrame.lookup p = some i → p ∈ m.bufferPool.lruList

theorem listed_new (n : ℕ) (fm : φ) : Listed (new n (.new fm)) where
  sound := sound_new (Watched.new fm)
  listed _ _ := nofun

/-- A state in step is listed if its buffer has no more pages, and its LRU list no fewer. -/
theorem ReadsSound.listed_of {m m' : BufferPoolManager n (Watched φ)} (hm' : ReadsSound m')
    (hm : Listed m)
    (hto : ∀ p i, m'.bufferPool.pageToFrame.lookup p = some i →
      ∃ j, m.bufferPool.pageToFrame.lookup p = some j)
    (hlru : m.bufferPool.lruList ⊆ m'.bufferPool.lruList) : Listed m' where
  sound := hm'
  listed p i hp := by
    obtain ⟨j, hj⟩ := hto p i hp
    exact hlru (hm.listed p j hj)

theorem mem_touched {l : List PageId} {p q : PageId} (h : q = p ∨ q ∈ l) :
    q ∈ l.filter (· ≠ p) ++ [p] := by
  by_cases hq : q = p
  · simp [hq]
  · simp [hq, h.resolve_left hq]

theorem lruList_removed (p : PageId) (b : BufferPool n) : (removed p b).lruList = b.lruList := by
  unfold removed
  cases b.pageToFrame.lookup p <;> rfl

theorem lookup_of_removed {p q : PageId} {b : BufferPool n} {i : Fin n}
    (h : (removed p b).pageToFrame.lookup q = some i) : b.pageToFrame.lookup q = some i := by
  cases hlookup : b.pageToFrame.lookup p with
  | none => rwa [removed, hlookup] at h
  | some j =>
    rw [removed, hlookup] at h
    by_cases hq : q = p
    · rw [hq, AList.lookup_erase] at h
      cases h
    · rwa [AList.lookup_erase_ne hq] at h

/-! ## The eviction scan -/

/-- If the oldest page in the buffer is not pinned, the pages that a scan passes over are not in the
buffer. -/
theorem lookup_of_passed {b : BufferPool n}
    (hold : ∀ i, oldest b = some i → (b.frames i).pinCount = 0) {dropped rest : List PageId}
    (hlru : b.lruList = dropped ++ rest) (hpassed : Passed b dropped) {p : PageId}
    (hp : p ∈ dropped) : b.pageToFrame.lookup p = none := by
  by_contra hne
  cases hfirst : dropped.findSome? b.pageToFrame.lookup with
  | none => exact hne (List.findSome?_eq_none_iff.mp hfirst p hp)
  | some i =>
    obtain ⟨q, hq, hi⟩ := List.exists_of_findSome?_eq_some hfirst
    refine hpassed q hq i hi (hold i ?_)
    rw [oldest, hlru, List.findSome?_append, hfirst, Option.some_or]

/-- A page that is in the buffer, in another frame than the one that is found, stays in the list. -/
theorem Listed.mem_of_available {m : BufferPoolManager n (Watched φ)} (h : Listed m)
    (hold : (∀ i, (m.bufferPool.frames i).pageId ≠ none) →
      ∀ i, oldest m.bufferPool = some i → (m.bufferPool.frames i).pinCount = 0)
    {i j : Fin n} {lruList : List PageId} (hfound : Available m i lruList) {p : PageId}
    (hp : m.bufferPool.pageToFrame.lookup p = some j) (hne : (m.bufferPool.frames i).pageId ≠ some p) :
    p ∈ lruList := by
  have hmem := h.listed p j hp
  rcases hfound.found with ⟨-, hlru⟩ | ⟨hfull, -, q, dropped, hlru, hq, hpassed⟩
  · exact hlru ▸ hmem
  · rw [hlru, List.mem_append, List.mem_cons] at hmem
    rcases hmem with hdropped | rfl | hrest
    · cases (lookup_of_passed (hold hfull) hlru hpassed hdropped).symm.trans hp
    · exact (hne ((h.sound.frame p i).mp hq)).elim
    · exact hrest

/-- If some frame is empty or not pinned, the search finds a frame. -/
theorem Listed.not_passed {m : BufferPoolManager n (Watched φ)} (h : Listed m)
    (hfree : ∃ i, (m.bufferPool.frames i).pageId = none ∨ (m.bufferPool.frames i).pinCount = 0)
    (hfull : ∀ j, (m.bufferPool.frames j).pageId ≠ none) :
    ¬ Passed m.bufferPool m.bufferPool.lruList := by
  intro hpassed
  obtain ⟨i, hempty | hpin⟩ := hfree
  · exact hfull i hempty
  · obtain ⟨p, hp⟩ := Option.ne_none_iff_exists'.mp (hfull i)
    have hlookup := (h.sound.frame p i).mpr hp
    exact hpassed p (h.listed p i hlookup) i hlookup hpin

/-! ## One call -/

section Calls

variable [FileManager φ]

/-- If page `p` is loaded into a full buffer, the oldest page in the buffer is not pinned; and the
write-back and the read return. -/
structure LoadsWell (p : PageId) (m : BufferPoolManager n (Watched φ)) : Prop where
  oldest : m.bufferPool.pageToFrame.lookup p = none → (∀ i, (m.bufferPool.frames i).pageId ≠ none) →
    ∀ i, oldest m.bufferPool = some i → (m.bufferPool.frames i).pinCount = 0
  writes : ∀ i m₁, m.bufferPool.pageToFrame.lookup p = none → findAvailableFrame m = .ok i m₁ →
    ∃ m₂, writeBack (m.bufferPool.frames i) m₁ = .ok () m₂
  reads : ReadsIn p m

/-- Some frame is empty or not pinned only if every fetch returns, whatever the file manager is by
then, unless a call on the file manager fails or the page has as many pins as a counter can hold. -/
def NoLeak (m : BufferPoolManager n (Watched φ)) : Prop :=
  (∃ i, (m.bufferPool.frames i).pageId = none ∨ (m.bufferPool.frames i).pinCount = 0) →
    ∀ (p : PageId) (fm : Watched φ) (e : Failure) (m' : BufferPoolManager n (Watched φ)),
      fm.failed = false → fetchPage p { m with fileManager := fm } = .error e m' →
        m'.fileManager.failed = true ∨
          ∃ i, m.bufferPool.pageToFrame.lookup p = some i ∧
            (m.bufferPool.frames i).pinCount.toNat + 1 = 2 ^ 32

theorem Listed.noLeak {m : BufferPoolManager n (Watched φ)} (h : Listed m) : NoLeak m := by
  intro hfree p fm e m' _ hrun
  cases hlookup : m.bufferPool.pageToFrame.lookup p with
  | some i =>
    obtain ⟨page, hpage, -⟩ := h.sound.holds p i ((h.sound.frame p i).mp hlookup)
    rw [fetchPage_of_hit (m := { m with fileManager := fm }) hlookup hpage] at hrun
    split at hrun
    · cases hrun
    · next hfull =>
      have hlt := (m.bufferPool.frames i).pinCount.toNat_lt
      refine .inr ⟨i, rfl, ?_⟩
      dsimp only at hfull
      omega
  | none =>
    rw [fetchPage_of_miss (m := { m with fileManager := fm }) hlookup] at hrun
    have hload := loading_loadPage (m := { m with fileManager := fm }) h.sound.unpinned p
    rw [hrun] at hload
    cases hload with
    | noFrame _ hfull hpassed => exact (h.not_passed hfree hfull hpassed).elim
    | writeFails _ hwrite => exact .inl (failed_writeBack hwrite)
    | readFails _ _ hread => exact .inl ((Watched.spec_readPage _ _).fail hread).2.1

theorem listed_fetchPage {m : BufferPoolManager n (Watched φ)} (h : Listed m) {p : PageId}
    (hwell : LoadsWell p m) : Listed (final (fetchPage p) m) := by
  have hsound : ReadsSound (final (fetchPage p) m) :=
    ((spec_fetchPage h.sound p).conseq fun _ _ hpost => hpost.1).final.1 hwell.reads
  unfold final at hsound ⊢
  cases hlookup : m.bufferPool.pageToFrame.lookup p with
  | some i =>
    obtain ⟨page, hpage, -⟩ := h.sound.holds p i ((h.sound.frame p i).mp hlookup)
    rw [fetchPage_of_hit hlookup hpage] at hsound ⊢
    by_cases hfits : (m.bufferPool.frames i).pinCount.toNat + 1 < 2 ^ 32
    · rw [if_pos hfits] at hsound ⊢
      exact hsound.listed_of h (fun q j hq => ⟨j, hq⟩) fun q hq => mem_touched (.inr hq)
    · rw [if_neg hfits]
      exact h
  | none =>
    rw [fetchPage_of_miss hlookup] at hsound ⊢
    have hload := loading_loadPage h.sound.unpinned p
    generalize loadPage p m = r at hload hsound
    cases hload with
    | noFrame _ hfull hpassed =>
      -- every page of the list is dropped, and none of them is in the buffer
      refine ⟨hsound, fun q j hq => ?_⟩
      have hnone := lookup_of_passed (hwell.oldest hlookup hfull) (List.append_nil _).symm hpassed
        (h.listed q j hq)
      cases hnone.symm.trans hq
    | writeFails hfound hwrite =>
      obtain ⟨m₂, hok⟩ := hwell.writes _ _ hlookup hfound.run
      cases hwrite.symm.trans hok
    | readFails hfound hwrite hread =>
      obtain ⟨page, fm, hok⟩ := hwell.reads _ _ _ hlookup hfound.run hwrite
      cases hread.symm.trans hok
    | @loads i lruList m₁ page fm hfound hwrite hread =>
      refine ⟨hsound, fun q j hq => ?_⟩
      rw [loaded, lookup_remap] at hq
      rw [loaded, lruList_remap]
      refine mem_touched ?_
      split at hq
      · next hqp => exact .inl hqp
      · split at hq
        · cases hq
        · next hne =>
          exact .inr (h.mem_of_available (hwell.oldest hlookup) hfound hq hne)

/-- A call keeps the list complete if the page that it fetches is loaded well. -/
theorem listed_step {m : BufferPoolManager n (Watched φ)} (h : Listed m) {op : PoolOp}
    (hwell : OnFetch LoadsWell m op) : Listed (final (step op) m) := by
  cases op with
  | fetch p =>
    rw [step, final_discard]
    exact listed_fetchPage h hwell
  | unpin p dirty =>
    have hsound := sound_unpinPage h.sound p dirty
    rw [step]
    unfold final at hsound ⊢
    rcases unpinPage_cases p dirty m with ⟨⟨e, hrun⟩, -⟩ | ⟨i, hlookup, -, hrun⟩
    · rw [hrun]
      exact h
    · rw [hrun] at hsound ⊢
      exact hsound.listed_of h (fun q j hq => ⟨j, hq⟩) fun q hq => hq
  | newPage t =>
    rw [step, final_discard]
    have hwatch := Watched.spec_watch (FileManager.allocatePage t) m.fileManager
    rcases newPage_cases t m with ⟨e, fm, halloc, hrun⟩ | ⟨p, fm, halloc, hrun⟩
    · rw [final, hrun]
      have hsound : ReadsSound { m with fileManager := fm } :=
        h.sound.of_same rfl (hwatch.fail halloc).2.2
      exact hsound.listed_of h (fun q j hq => ⟨j, hq⟩) fun q hq => hq
    · rw [hrun]
      have hsound : ReadsSound { m with fileManager := fm } :=
        h.sound.of_same rfl (hwatch.post halloc).2.2
      exact listed_fetchPage (hsound.listed_of h (fun q j hq => ⟨j, hq⟩) fun q hq => hq)
        (hwell p fm halloc)
  | delete p =>
    refine (sound_deletePage h.sound p).listed_of h (fun q j hq => ?_) ?_
    · rw [pool_deletePage] at hq
      exact ⟨j, lookup_of_removed hq⟩
    · rw [pool_deletePage, lruList_removed]
      exact fun q hq => hq
  | flush =>
    refine (sound_flushAllPages h.sound).listed_of h (fun q j hq => ⟨j, ?_⟩) ?_
    · rwa [pool_flushAllPages] at hq
    · rw [pool_flushAllPages]
      exact fun q hq => hq

/-- A page whose loading runs through is loaded well. -/
theorem LoadsWell.of_runs {p : PageId} {m m₁ m₂ : BufferPoolManager n (Watched φ)} {i : Fin n}
    {page : Page} {fm : Watched φ}
    (hold : (∀ i, (m.bufferPool.frames i).pageId ≠ none) →
      ∀ i, BufferPoolManager.oldest m.bufferPool = some i → (m.bufferPool.frames i).pinCount = 0)
    (hfind : findAvailableFrame m = .ok i m₁)
    (hwrite : writeBack (m.bufferPool.frames i) m₁ = .ok () m₂)
    (hread : FileManager.readPage p m₂.fileManager = .ok page fm) : LoadsWell p m where
  oldest _ := hold
  writes j m' _ hj := by
    cases hfind.symm.trans hj
    exact ⟨m₂, hwrite⟩
  reads j m' m'' _ hj hw := by
    cases hfind.symm.trans hj
    cases hwrite.symm.trans hw
    exact ⟨page, fm, hread⟩

/-- In a run of calls on a new buffer pool, no frame is lost as long as no fetch that has to evict
passes over a pinned page, and the file manager does not fail in a fetch. -/
theorem noLeak_run (n : ℕ) (fm : φ) (ops : List PoolOp)
    (hwell : ∀ pre op post, ops = pre ++ op :: post →
      OnFetch LoadsWell (run pre (new n (.new fm))) op) :
    NoLeak (run ops (new n (.new fm))) :=
  (run_induction (I := Listed) (fun _ _ h => listed_step h) (listed_new n fm) hwell).noLeak

end Calls

/-- A mock file manager with the pages 1 and 2. -/
def twoPages : MockFileManager :=
  final (do
    discard (FileManager.allocatePage .data)
    discard (FileManager.allocatePage .data) : EStateM Failure MockFileManager Unit) .new

theorem noLeak_after_eviction :
    NoLeak (run [.fetch 1, .unpin 1 false, .fetch 2] (new 1 (.new twoPages))) := by
  apply noLeak_run
  show ∀ pre op post, ([] ++ [PoolOp.fetch 1] ++ [.unpin 1 false]) ++ [.fetch 2] = pre ++ op :: post → _
  refine forall_split_append_singleton.mpr ⟨forall_split_append_singleton.mpr
    ⟨forall_split_append_singleton.mpr ⟨?_, ?_⟩, ?_⟩, ?_⟩
  · exact fun pre op post hops => by simp at hops
  · exact .of_runs (fun hfull => (hfull 0 rfl).elim) rfl rfl rfl
  · exact trivial
  · exact .of_runs (fun _ i _ => by rw [Subsingleton.elim i 0]; rfl) rfl rfl rfl

/-- With one frame, page 1 is pinned when a fetch of page 2 passes over it. After it has been unpinned,
page 2 still finds no frame. -/
theorem pinned_page_lost :
    ¬ NoLeak (run [.fetch 1, .fetch 2, .unpin 1 false] (new 1 (.new twoPages))) := by
  intro h
  have hfetch := h ⟨0, .inr rfl⟩ 2 (.new twoPages) noFrames _ rfl rfl
  rcases hfetch with hfailed | ⟨i, hlookup, -⟩
  · cases hfailed
  · cases hlookup

end BufferPoolManager

end Rustgresql
