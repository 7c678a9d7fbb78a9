import Rustgresql.Storage.FreeList

/-!
# The header lock (`storage/file_manager.rs`)

The header of a `DefaultFileManager` is behind a mutex that is not reentrant. Every call takes and
releases it several times on its way, `page_offset` and `write_header` among them. Two paths read a page
with the guard still alive: `allocate_page` when it takes a page off the free list, and
`deallocate_page` of any page in the file. Both wait for themselves. No other path does
(`neverBlocks_iff`).
-/

namespace Rustgresql

open StateSpec

namespace DefaultFileManager

/-! ## Calls by one thread -/

/-- The calls on a file manager that take or may take a lock. -/
inductive FileOp
  | allocate (pageType : PageType)
  | deallocate (pageId : PageId)
  | read (pageId : PageId)
  | write (pageId : PageId) (page : Page)
  | sync

/-- The call that an operation makes. -/
def FileOp.call : FileOp → Call Unit
  | .allocate pageType => discard (allocatePage pageType)
  | .deallocate pageId => deallocatePage pageId
  | .read pageId => discard (readPage pageId)
  | .write pageId page => writePage pageId page
  | .sync => DefaultFileManager.sync

/-- A file manager and the thread that calls it: what has stopped the thread, if something has. -/
structure Caller where
  fm : DefaultFileManager
  stopped : Option Failure := none

/-- Make one call. The thread goes on after an `Err`; a panic or a lock that never comes free is the
end of it. -/
def Caller.step (c : Caller) (op : FileOp) : Caller :=
  match c.stopped with
  | some _ => c
  | none =>
    match op.call c.fm with
    | .ok _ fm | .error (.err _) fm => { fm }
    | .error e fm => { fm, stopped := some e }

/-- Make calls in order. -/
def Caller.run (c : Caller) (ops : List FileOp) : Caller := ops.foldl Caller.step c

/-- The thread makes the call, and in it asks for the header lock while it holds it. -/
def Caller.Blocks (c : Caller) (op : FileOp) : Prop :=
  c.stopped = none ∧ (c.step op).stopped = some .deadlock

/-- The call reads a page under the header lock: it takes a page off the free list, or frees a page of
the file. -/
def ReadsUnderLock (m : DefaultFileManager) : FileOp → Prop
  | .allocate _ => m.header.firstFreePage ≠ none
  | .deallocate pageId => pageId < m.header.totalPages
  | .read _ | .write _ _ | .sync => False

/-! ## Calls that come through -/

/-- Called while the header lock is held, or while it is free, the call returns, fails or panics, and
the lock is as before. -/
def ComesThrough {α : Type} (locked : Bool) (act : Call α) : Prop :=
  ∀ m, m.headerLocked = locked → Spec act m (fun _ m' => m'.headerLocked = locked)
    fun e m' => e ≠ .deadlock ∧ m'.headerLocked = locked

section Rules

variable {α β : Type} {locked : Bool}

theorem ComesThrough.pure (a : α) : ComesThrough locked (pure a : Call α) := fun _ h => h

theorem ComesThrough.throw {e : Failure} (h : e ≠ .deadlock) :
    ComesThrough locked (throw e : Call α) := fun _ hlock => ⟨h, hlock⟩

theorem ComesThrough.bind {act : Call α} {f : α → Call β} (hact : ComesThrough locked act)
    (hf : ∀ a, ComesThrough locked (f a)) : ComesThrough locked (act >>= f) :=
  fun m h => (hact m h).bind fun a m' h' => hf a m' h'

theorem ComesThrough.get_bind {f : DefaultFileManager → Call β}
    (hf : ∀ m, ComesThrough locked (f m)) : ComesThrough locked (get >>= f) :=
  fun m h => hf m m h

theorem ComesThrough.require (p : Prop) [Decidable p] {e : Failure} (h : e ≠ .deadlock) :
    ComesThrough locked (require p e) := by
  unfold StateSpec.require
  split
  · exact .pure ()
  · exact .throw h

theorem comesThrough_setHeader (f : DatabaseHeader → DatabaseHeader) :
    ComesThrough locked (setHeader f) := fun _ h => h

theorem comesThrough_onFile (act : ByteFile.Io α) (wrap : ByteFile.IoError → RustgreSQLError) :
    ComesThrough locked (onFile act wrap) := by
  intro m h
  unfold Spec onFile
  cases act m.file with
  | ok a file => exact h
  | error e file => exact ⟨by simp, h⟩

theorem comesThrough_query {r : DefaultFileManager → Result α}
    (hr : ∀ m, m.headerLocked = locked → r m ≠ .error .deadlock) :
    ComesThrough locked (query r) := by
  intro m h
  have hne := hr m h
  unfold Spec query
  cases hrun : r m with
  | ok a => exact h
  | error e =>
    rw [hrun] at hne
    exact ⟨fun he => hne (congrArg _ he), h⟩

/-- What does not ask for the lock can run under it. -/
theorem ComesThrough.withHeader {act : Call α} (hact : ComesThrough true act) :
    ComesThrough false (withHeader act) := by
  intro m h
  refine spec_withHeader h ?_
  exact (hact _ rfl).mono (fun _ _ _ => rfl) fun _ _ ⟨hne, _⟩ => ⟨hne, hne, rfl⟩

theorem ComesThrough.attempt {act : Call α} (hact : ComesThrough locked act) :
    ComesThrough locked (attempt act) := by
  intro m h
  have hspec := hact m h
  unfold Spec DefaultFileManager.attempt at *
  cases hrun : act m with
  | ok a m' =>
    rw [hrun] at hspec
    exact hspec
  | error e m' =>
    rw [hrun] at hspec
    obtain ⟨hne, hlock⟩ := hspec
    cases e with
    | err e => exact hlock
    | panic msg => exact ⟨hne, hlock⟩
    | deadlock => exact absurd rfl hne

theorem ComesThrough.orUndo {act undo : Call Unit} (hact : ComesThrough false act)
    (hundo : ComesThrough true undo) : ComesThrough false (orUndo act undo) := by
  refine hact.attempt.bind fun result => ?_
  cases result with
  | ok a => exact .pure ()
  | error e => exact hundo.withHeader.bind fun _ => .throw (by simp)

end Rules

theorem pageOffset_ne_deadlock (pageId : PageId) {m : DefaultFileManager}
    (h : m.headerLocked = false) : pageOffset pageId m ≠ .error .deadlock := by
  unfold pageOffset
  rw [if_neg (by simp [h])]
  dsimp only
  split_ifs <;> simp

theorem parseBlock_ne_deadlock (pageId : PageId) (pageSize : ℕ) (bytes : List UInt8) :
    parseBlock pageId pageSize bytes ≠ .error .deadlock := by
  unfold parseBlock Page.fromBytes
  split_ifs
  · simp
  · cases PageHeader.codec.deserialize (bytes.take Page.headerSize) with
    | none => simp
    | some header =>
      dsimp only
      split_ifs <;> simp

theorem comesThrough_readPage (pageId : PageId) : ComesThrough false (readPage pageId) := by
  refine (comesThrough_query fun m => pageOffset_ne_deadlock pageId).bind fun offset => ?_
  refine (comesThrough_onFile _ _).bind fun _ => .get_bind fun m => ?_
  refine (comesThrough_onFile _ _).bind fun pageBytes => ?_
  refine (ComesThrough.require _ (by simp)).bind fun _ => ?_
  exact comesThrough_query fun _ _ => parseBlock_ne_deadlock pageId m.pageSize pageBytes

theorem comesThrough_writePage (pageId : PageId) (page : Page) :
    ComesThrough false (writePage pageId page) := by
  refine (comesThrough_query fun m => pageOffset_ne_deadlock pageId).bind fun offset => ?_
  refine .get_bind fun m => (comesThrough_onFile _ _).bind fun _ => ?_
  refine (comesThrough_query fun _ _ => by simp [Page.toBytes]).bind fun pageBytes => ?_
  refine (ComesThrough.require _ (by simp)).bind fun _ => (comesThrough_onFile _ _).bind fun _ => ?_
  exact (comesThrough_onFile _ _).bind fun _ => comesThrough_onFile _ _

theorem comesThrough_sync : ComesThrough false sync :=
  (comesThrough_onFile _ _).bind fun _ => comesThrough_onFile _ _

theorem comesThrough_writeHeader : ComesThrough false writeHeader := by
  refine ComesThrough.withHeader ?_
  refine (comesThrough_setHeader DatabaseHeader.updateChecksum).bind fun _ => .get_bind fun m => ?_
  refine (comesThrough_onFile _ _).bind fun _ => (comesThrough_onFile _ _).bind fun _ => ?_
  exact comesThrough_onFile _ _

theorem comesThrough_unclaimPage : ComesThrough true unclaimPage := by
  refine .get_bind fun m => (ComesThrough.require _ (by simp)).bind fun _ => ?_
  exact comesThrough_setHeader _

theorem comesThrough_extendFile (newPageId : PageId) (pageType : PageType) :
    ComesThrough false (extendFile newPageId pageType) := by
  refine .get_bind fun m => ?_
  refine ((comesThrough_writePage _ _).orUndo comesThrough_unclaimPage).bind fun _ => ?_
  exact comesThrough_writeHeader.bind fun _ => .pure newPageId

/-! ## The calls that wait for themselves -/

/-- The call does not wait, and leaves the lock free. -/
def Passes {α : Type} (act : Call α) (m : DefaultFileManager) : Prop :=
  Spec act m (fun _ m' => m'.headerLocked = false) fun e m' => e ≠ .deadlock ∧ m'.headerLocked = false

/-- An allocation with an empty free list does not read a page. -/
theorem passes_allocatePage {m : DefaultFileManager} (hfree : m.headerLocked = false)
    (hlist : m.header.firstFreePage = none) (pageType : PageType) :
    Passes (allocatePage pageType) m := by
  have hfind := findPage_of_noList (m := { m with headerLocked := true }) hlist
  have hlock : Spec (withHeader findPage) m
      (fun found m' => found = .newPage m.header.totalPages ∧ m'.headerLocked = false)
      fun e m' => e ≠ .deadlock ∧ m'.headerLocked = false := by
    refine spec_withHeader hfree ?_
    unfold Spec
    rw [hfind]
    split_ifs
    · exact ⟨rfl, rfl⟩
    · exact ⟨by simp, by simp, rfl⟩
  refine hlock.bind ?_
  rintro found m' ⟨rfl, hfree'⟩
  exact comesThrough_extendFile m.header.totalPages pageType m' hfree'

/-- An allocation with a page on the free list reads that page under the lock. -/
theorem allocatePage_of_list {m : DefaultFileManager} (hfree : m.headerLocked = false)
    {freePageId : PageId} (hlist : m.header.firstFreePage = some freePageId) (pageType : PageType) :
    allocatePage pageType m = .error .deadlock { m with headerLocked := true } := by
  set m₁ : DefaultFileManager := { m with headerLocked := true } with hm₁
  have hread : attempt (readPage freePageId) m₁ = .error .deadlock m₁ := by
    rw [attempt, readPage_of_locked rfl]
  have hfind : findPage m₁ = .error .deadlock m₁ := by
    have hsome : m₁.header.firstFreePage = some freePageId := hlist
    rw [findPage, get_bind, hsome]
    exact bind_of_error hread
  have hlock : withHeader findPage m = .error .deadlock m₁ := by
    rw [withHeader, if_neg (by simp [hfree]), hfind]
  rw [allocatePage, bind_of_error hlock]

/-- A page beyond the file is refused before it is read. -/
theorem passes_deallocatePage {m : DefaultFileManager} (hfree : m.headerLocked = false)
    {pageId : PageId} (h : m.header.totalPages ≤ pageId) : Passes (deallocatePage pageId) m := by
  set m₁ : DefaultFileManager := { m with headerLocked := true } with hm₁
  have hrelease : Spec (releasePage pageId) m₁ (fun _ _ => False)
      fun e m' => e ≠ .deadlock ∧ m'.headerLocked = true := by
    unfold Spec
    rw [releasePage, get_bind, if_pos h]
    refine Spec.bind (ComesThrough.require _ (by simp) m₁ rfl) fun _ _ hlock => ?_
    exact Spec.throw ⟨by simp, hlock⟩
  have hlock : Spec (withHeader (releasePage pageId)) m (fun _ _ => False)
      fun e m' => e ≠ .deadlock ∧ m'.headerLocked = false :=
    spec_withHeader hfree (hrelease.mono (fun _ _ h => h) fun _ _ h => ⟨h.1, h.1, rfl⟩)
  exact hlock.bind fun _ _ h => h.elim

/-- From a free lock, a call waits for itself exactly if it reads a page under the lock. Any other call
leaves the lock free. -/
theorem passes_or_blocks {m : DefaultFileManager} (hfree : m.headerLocked = false) (op : FileOp) :
    (ReadsUnderLock m op → op.call m = .error .deadlock { m with headerLocked := true }) ∧
      (¬ ReadsUnderLock m op → Passes op.call m) := by
  cases op with
  | allocate pageType =>
    constructor
    · intro hlist
      obtain ⟨freePageId, hsome⟩ := Option.ne_none_iff_exists'.mp hlist
      exact bind_of_error (allocatePage_of_list hfree hsome pageType)
    · intro hlist
      exact (passes_allocatePage hfree (not_not.mp hlist) pageType).bind fun _ _ h => Spec.pure h
  | deallocate pageId =>
    refine ⟨deallocatePage_of_lt hfree, fun hpage => ?_⟩
    exact passes_deallocatePage hfree (UInt64.not_lt.mp hpage)
  | read pageId =>
    refine ⟨False.elim, fun _ => ?_⟩
    exact (comesThrough_readPage pageId m hfree).bind fun _ _ h => Spec.pure h
  | write pageId page => exact ⟨False.elim, fun _ => comesThrough_writePage pageId page m hfree⟩
  | sync => exact ⟨False.elim, fun _ => comesThrough_sync m hfree⟩

/-! ## Runs -/

/-- As long as the thread goes on, it holds no lock. -/
def Caller.Free (c : Caller) : Prop := c.stopped = none → c.fm.headerLocked = false

theorem Caller.step_of_stopped {c : Caller} (h : c.stopped ≠ none) (op : FileOp) : c.step op = c := by
  unfold Caller.step
  split
  · rfl
  · next hnone => exact absurd hnone h

/-- A call that passes does not stop the thread at the lock. -/
theorem Caller.step_of_passes {c : Caller} (h : c.stopped = none) {op : FileOp}
    (hpass : Passes op.call c.fm) : (c.step op).Free ∧ (c.step op).stopped ≠ some .deadlock := by
  unfold Caller.step
  rw [h]
  unfold Passes Spec at hpass
  cases hrun : op.call c.fm with
  | ok a fm =>
    rw [hrun] at hpass
    exact ⟨fun _ => hpass, nofun⟩
  | error e fm =>
    rw [hrun] at hpass
    obtain ⟨hne, hfree⟩ := hpass
    cases e with
    | err e => exact ⟨fun _ => hfree, nofun⟩
    | panic msg => exact ⟨nofun, nofun⟩
    | deadlock => exact absurd rfl hne

theorem Caller.step_of_blocks {c : Caller} (h : c.stopped = none) {op : FileOp}
    {m : DefaultFileManager} (hblock : op.call c.fm = .error .deadlock m) :
    (c.step op).stopped = some .deadlock := by
  unfold Caller.step
  rw [h, hblock]

/-- No call that one thread makes on a file manager waits for the header lock while it holds it if and
only if, at every call that the thread comes to, an allocation finds the free list empty and a
deallocation names a page beyond the file. -/
theorem neverBlocks_iff {m : DefaultFileManager} (hfree : m.headerLocked = false)
    (ops : List FileOp) :
    (∀ pre op post, ops = pre ++ op :: post → ¬ (Caller.run { fm := m } pre).Blocks op) ↔
      ∀ pre op post, ops = pre ++ op :: post → (Caller.run { fm := m } pre).stopped = none →
        ¬ ReadsUnderLock (Caller.run { fm := m } pre).fm op := by
  have hstart : Caller.Free { fm := m } := fun _ => hfree
  unfold Caller.run
  refine forall_step_iff (G := fun c op => ¬ c.Blocks op)
    (C := fun c op => c.stopped = none → ¬ ReadsUnderLock c.fm op) hstart ?_ ?_ ops
  · intro c op hc hstep
    by_cases hnone : c.stopped = none
    · obtain ⟨hblocks, hpasses⟩ := passes_or_blocks (hc hnone) op
      refine (Caller.step_of_passes hnone (hpasses fun hreads => hstep ⟨hnone, ?_⟩)).1
      exact Caller.step_of_blocks hnone (hblocks hreads)
    · rwa [Caller.step_of_stopped hnone]
  · intro c op hc
    rw [Caller.Blocks, not_and]
    refine forall_congr' fun hnone => not_congr ?_
    obtain ⟨hblocks, hpasses⟩ := passes_or_blocks (hc hnone) op
    constructor
    · intro hstop
      by_contra hpass
      exact (Caller.step_of_passes hnone (hpasses hpass)).2 hstop
    · exact fun hreads => Caller.step_of_blocks hnone (hblocks hreads)

/-- A thread that only allocates a page and syncs does not block on a new database. -/
theorem neverBlocks_allocation : newDatabase.headerLocked = false ∧
    ∀ pre op post, [.allocate .data, .sync] = pre ++ op :: post →
      ¬ (Caller.run { fm := newDatabase } pre).Blocks op := by
  refine ⟨rfl, (neverBlocks_iff (m := newDatabase) rfl [.allocate .data, .sync]).mpr ?_⟩
  exact forall_split_cons.mpr ⟨fun _ => not_not.mpr rfl, forall_split_cons.mpr ⟨fun _ => id, forall_split_nil⟩⟩

theorem newDatabase_run_allocate :
    (Caller.run { fm := newDatabase } [.allocate .data]).stopped = none ∧
      (Caller.run { fm := newDatabase } [.allocate .data]).fm.headerLocked = false ∧
      (Caller.run { fm := newDatabase } [.allocate .data]).fm.header.totalPages = 2 := by
  decide +kernel

/-- On a new database a thread allocates page 1 and frees it. The second call reads the page with the
header locked, and waits for itself. -/
theorem deallocation_blocks :
    ¬ ∀ pre op post, [.allocate .data, .deallocate 1] = pre ++ op :: post →
      ¬ (Caller.run { fm := newDatabase } pre).Blocks op := by
  obtain ⟨hnone, hfree, htotal⟩ := newDatabase_run_allocate
  have hreads : ReadsUnderLock (Caller.run { fm := newDatabase } [.allocate .data]).fm
      (.deallocate 1) := by
    rw [ReadsUnderLock, htotal]
    decide
  have hblocks := Caller.step_of_blocks hnone ((passes_or_blocks hfree _).1 hreads)
  exact fun h => h [.allocate .data] (.deallocate 1) [] rfl ⟨hnone, hblocks⟩

end DefaultFileManager

end Rustgresql
