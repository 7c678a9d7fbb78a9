import Rustgresql.Storage.BTree.Refinement

/-!
# B-trees over several sessions

A session ends with a flush of the buffer pool. The next one starts with an empty pool over the same file, and loads
the tree from its root page. What the calls of all sessions return is what they return on one tree of pages
(`sessions_eq`), and a tree of one node answers over all sessions as a map does (`sessions_eq_answers`).
-/

namespace Rustgresql

open StateSpec Wire BufferPoolManager

open LawfulFileManager (content Good)

/-- A file manager that reads and writes all pages that it has -/
class ReliablePages (φ : Type) [FileManager φ] [LawfulFileManager φ] : Prop where
  read_returns : ∀ {s : φ} {p : PageId}, Good s → (content s p).isSome →
    ∃ page s', FileManager.readPage p s = .ok page s'
  write_returns : ∀ {s : φ} {p : PageId} (page : Page), Good s → (content s p).isSome →
    ∃ s', FileManager.writePage p page s = .ok () s'

instance : ReliablePages MockFileManager where
  read_returns {s p} _ h := by
    obtain ⟨page, hpage⟩ := Option.isSome_iff_exists.mp (MockFileManager.lookup_isSome_of_content h)
    refine ⟨page, s, ?_⟩
    show MockFileManager.readPage p s = _
    rw [MockFileManager.readPage, hpage]
  write_returns page _ _ := ⟨_, rfl⟩

namespace BufferPoolManager

variable {n : ℕ} {φ : Type} [FileManager φ] [LawfulFileManager φ] [ReliablePages φ]
  {view : PageId → Option Page} {pending : PageId → Bool} {m : BufferPoolManager n φ}

theorem Coherent.flushPages_returns (h : Coherent view pending m) {entries : List (Fin n × PageId)}
    (hentries : ∀ e ∈ entries, m.bufferPool.pageToFrame.lookup e.2 = some e.1) :
    ∃ m', flushPages entries m = .ok () m' := by
  induction entries generalizing m with
  | nil => exact ⟨m, rfl⟩
  | cons entry entries ih =>
    obtain ⟨i, p⟩ := entry
    obtain ⟨hlookup, hrest⟩ := List.forall_mem_cons.mp hentries
    obtain ⟨page, hpage, hview⟩ := h.sound.holds p i ((h.sound.frame p i).mp hlookup)
    rw [flushPages, get_bind, hpage]
    cases hdirty : (m.bufferPool.frames i).dirty with
    | false => exact ih h hrest
    | true =>
      have hstored : (content m.fileManager p).isSome := by rw [h.stored, hview, Option.isSome_some]
      obtain ⟨fm, hwrite⟩ := ReliablePages.write_returns page h.good hstored
      have hrun : flushPages [(i, p)] m = .ok () { m with fileManager := fm } := by
        rw [flushPages, get_bind, hpage, hdirty]
        exact bind_of_ok (onFm_of_ok hwrite)
      have hcoherent := (h.flushedEntries (by simpa using hlookup) hrun).1
      obtain ⟨m', hrun'⟩ := ih hcoherent hrest
      exact ⟨m', (bind_of_ok (onFm_of_ok hwrite)).trans hrun'⟩

theorem Coherent.flush_returns (h : Coherent view pending m) : ∃ m', flushAllPages m = .ok () m' := by
  refine h.flushPages_returns fun e he => ?_
  exact (h.sound.inverse e.2 e.1).mpr (HashMap.mem_pairs.mp he)

/-- The first page of a new pool is fetched. -/
theorem fetchPage_new {fm : φ} (hgood : Good fm) (hn : 0 < n) {p : PageId} (hp : (content fm p).isSome) :
    ∃ page m, fetchPage p (BufferPoolManager.new n fm) = .ok page m := by
  obtain ⟨page, fm', hread⟩ := ReliablePages.read_returns hgood hp
  rw [fetchPage_of_miss rfl, loadPage]
  rcases findAvailableFrame_cases (BufferPoolManager.new n fm) with ⟨i, lruList, havailable⟩ | ⟨-, hfull, -⟩
  · rw [bind_of_ok havailable.run]
    have hwrite : writeBack (φ := φ) .new (withLru lruList (BufferPoolManager.new n fm)) =
        .ok () (withLru lruList (BufferPoolManager.new n fm)) := rfl
    rcases loadInto_cases (m := withLru lruList (BufferPoolManager.new n fm)) (i := i) rfl p with
      ⟨e, m₁, hfail, -⟩ | ⟨m₁, hwrite', ⟨e, fm'', hfail, -⟩ | ⟨page', fm'', -, hload⟩⟩
    · cases hwrite.symm.trans hfail
    · cases hwrite.symm.trans hwrite'
      cases hread.symm.trans hfail
    · exact ⟨page', _, hload⟩
  · exact absurd rfl (hfull ⟨0, hn⟩)

end BufferPoolManager

namespace PooledBTree

variable {n : ℕ} {φ : Type} {t : PooledBTree n φ} {ps : List (BTreeKey × BTreeValue)}
  {capacity k pageSize depth : ℕ}

/-- Load an existing B-Tree from root page -/
def load (rootPageId : PageId) (bufferManager : BufferPoolManager n φ) : PooledBTree n φ :=
  ⟨rootPageId, bufferManager⟩

theorem onPages_eq_ok {α : Type} {act : PageCall n φ α} {a : α} {t' : PooledBTree n φ}
    (h : onPages act t = .ok a t') : ∃ m, act t.bufferManager = .ok a m ∧ t' = { t with bufferManager := m } := by
  rw [onPages] at h
  split at h
  · next hact =>
    cases h
    exact ⟨_, hact, rfl⟩
  · cases h

section Sessions

variable [FileManager φ]

/-- The buffer pool is flushed, and the tree loaded into a new one. -/
def reopen : Call n φ Unit := do
  onPages flushAllPages
  modify fun t => load t.rootPageId (.new n t.bufferManager.fileManager)

/-- Calls of one session after the other. The result is what all of them return. -/
def sessions (pageSize depth : ℕ) : List (List TreeOp) → Call n φ (List (Option BTreeValue))
  | [] => pure []
  | ops :: rest => do
    let values ← calls (call pageSize depth) ops
    reopen
    let others ← sessions pageSize depth rest
    return values ++ others

variable [LawfulFileManager φ]

/-! ## Trees of any size -/

section Trees

variable {ρ : Naming}

/-- The tree that is loaded again has the nodes of the same tree of pages. -/
theorem refines_reopen : Refines (Represents capacity) (fun _ _ _ => True) ρ
    (reopen : Call n φ Unit) (pure () : BTree.Call Unit) := by
  intro t b hb _ t' hrun
  obtain ⟨_, t₁, hflush, hload⟩ := bind_eq_ok.mp hrun
  cases hload
  obtain ⟨m, hpool, rfl⟩ := onPages_eq_ok hflush
  obtain ⟨view, hcoherent, hnodes⟩ := hb.pages.pages
  obtain ⟨hcoherent', hflushed⟩ := hcoherent.flushed hpool
  have hnew : ∀ id p, ρ id p → ∃ page, content m.fileManager p = some page ∧
      HoldsNode capacity ρ page (b.nodeAt id) := by
    intro id p hid
    rw [hflushed p rfl]
    exact hnodes id p hid
  exact ⟨ρ, le_refl ρ, (), b, rfl, trivial, ⟨hb.pages.root_eq, hb.pages.unique, hb.pages.injective,
    hb.pages.allocated, hb.pages.blank, _, coherent_new n hcoherent'.good, hnew⟩, hb.root⟩

variable [BlankPages φ capacity]

/-- Sessions are one run on a tree of pages. -/
theorem refines_sessions (opss : List (List TreeOp)) (ρ : Naming) :
    Refines (Represents capacity) (fun _ values values' => values = values') ρ
      (sessions pageSize depth opss : Call n φ (List (Option BTreeValue)))
      (calls (BTree.callTo capacity fun _ => depth) opss.flatten) := by
  induction opss generalizing ρ with
  | nil => exact Refines.pure rfl
  | cons ops opss ih =>
    rw [List.flatten_cons, calls_append, sessions]
    have hcalls : Refines (Represents capacity) (fun _ values values' => values = values') ρ
        (calls (call pageSize depth) ops : Call n φ (List (Option BTreeValue)))
        (calls (BTree.callTo capacity fun _ => depth) ops) := Refines.calls (fun _ => refines_call) ρ ops
    refine hcalls.bind ?_
    rintro ρ₁ values _ - rfl
    have hreopen : Refines (Represents capacity) (fun _ _ _ => True) ρ₁ (reopen : Call n φ Unit)
        (pure () : BTree.Call Unit) := refines_reopen
    refine hreopen.bind_left fun ρ₂ _ _ _ => (ih ρ₂).bind ?_
    rintro ρ₃ others _ - rfl
    exact Refines.pure rfl

variable (capacity) in
/-- In all sessions with a new tree that return, whatever pages are evicted, written back and read again in and between
them, every call returns what it returns on one tree of pages. -/
theorem sessions_eq {fm : φ} (hgood : Good fm) {p : PageId} {m : BufferPoolManager n φ}
    (hcreate : create (BufferPoolManager.new n fm) = .ok p m) (opss : List (List TreeOp))
    {values : List (Option BTreeValue)} {t : PooledBTree n φ}
    (hrun : sessions pageSize depth opss ⟨p, m⟩ = .ok values t) (id : ℕ) :
    ∃ b, calls (BTree.callTo capacity fun _ => depth) opss.flatten (BTree.new id) = .ok values b ∧
      ∃ ρ, Represents capacity ρ t b := by
  obtain ⟨ρ, hnew⟩ := represents_create capacity hgood hcreate id
  obtain ⟨ρ', -, _, b, hrun', rfl, ht⟩ := refines_sessions opss ρ _ _ hnew values t hrun
  exact ⟨b, hrun', ρ', ht⟩

end Trees

/-! ## Trees of one node -/

variable [ReliablePages φ]

theorem readNode_congr {page page' : Page} (h : page.content = page'.content) : readNode page = readNode page' := by
  have hdata : page.content.data = page'.content.data := by rw [h]
  have hfree : page.content.header.freeBytes = page'.content.header.freeBytes := by rw [h]
  change page.data = page'.data at hdata
  change page.header.freeBytes = page'.header.freeBytes at hfree
  rw [readNode, readNode, hdata, hfree]

/-- The leaf is read again from the file, with all pins gone. -/
theorem reopen_oneLeaf (h : OneLeaf capacity k ps t) : ∃ t', reopen t = .ok () t' ∧ OneLeaf capacity 0 ps t' := by
  obtain ⟨entries, page, m, hleaf, hkept, -, ⟨⟨i, -⟩, -⟩, hlength, hsize, hread⟩ := h
  obtain ⟨view, pending, hcoherent, hpending, hview⟩ := hkept
  obtain ⟨m₁, hflush⟩ := hcoherent.flush_returns
  obtain ⟨hcoherent₁, hflushed⟩ := hcoherent.flushed hflush
  have hfile : content m₁.fileManager t.rootPageId = some page.content := (hflushed _ hpending).trans hview
  have hfound : (content m₁.fileManager t.rootPageId).isSome := by rw [hfile, Option.isSome_some]
  obtain ⟨fetched, m₂, hfetch⟩ := fetchPage_new (n := n) hcoherent₁.good (Nat.zero_lt_of_lt i.isLt) hfound
  have hnew := coherent_new n hcoherent₁.good
  have hfetched : fetched.content = page.content := by
    have heq := (hnew.fetched hfetch).2.1
    rw [hfile] at heq
    exact (Option.some.inj heq).symm
  obtain ⟨page', hsettled, heq⟩ := settled_of_fetchPage hnew rfl (fun _ => rfl) rfl hfetch
  rw [hfile] at heq
  have hsame : page'.content = page.content := (Option.some.inj heq).symm
  refine ⟨load t.rootPageId (.new n m₁.fileManager), ?_, entries, page', m₂, hleaf, ⟨_, _, hnew, rfl, ?_⟩, ?_, hsettled,
    ?_, hsize, ?_⟩
  · rw [reopen, bind_of_ok (onPages_of_ok hflush)]
    rfl
  · rw [hsame]
    exact hfile
  · rw [loadNode, load, bind_of_ok hfetch]
    exact onNode_eq_ok.mpr ⟨(readNode_congr hfetched).trans hread, rfl⟩
  · exact (congrArg (fun page : Page => page.data.length) hsame).trans hlength
  · exact (readNode_congr hsame).trans hread

theorem answers_append (ops ops' : List TreeOp) :
    answers ps (ops ++ ops') = answers ps ops ++ answers (afterAll ps ops) ops' := by
  induction ops generalizing ps with
  | nil => rfl
  | cons op ops ih =>
    rw [List.cons_append, answers, ih]
    rfl

theorem allFit_append {ops ops' : List TreeOp} :
    AllFit capacity ps (ops ++ ops') ↔ AllFit capacity ps ops ∧ AllFit capacity (afterAll ps ops) ops' := by
  induction ops generalizing ps with
  | nil => exact ⟨fun h => ⟨trivial, h⟩, And.right⟩
  | cons op ops ih =>
    rw [List.cons_append, AllFit, AllFit, ih, and_assoc]
    rfl

theorem sessions_oneLeaf (h : OneLeaf capacity k ps t) (hk : k ≤ 1) (hcapacity : capacity < 2 ^ 64)
    {opss : List (List TreeOp)} (hlength : ∀ ops ∈ opss, ops.length + 2 < 2 ^ 32)
    (hops : AllFit capacity ps opss.flatten) :
    ∃ t', sessions pageSize (depth + 1) opss t = .ok (answers ps opss.flatten) t' := by
  induction opss generalizing k ps t with
  | nil => exact ⟨t, rfl⟩
  | cons ops opss ih =>
    obtain ⟨hlength, hlengths⟩ := List.forall_mem_cons.mp hlength
    rw [List.flatten_cons, allFit_append] at hops
    have hsession : ∃ t', calls (call pageSize (depth + 1)) ops t = .ok (answers ps ops) t' ∧
        OneLeaf capacity (k + ops.length) (afterAll ps ops) t' := calls_oneLeaf h hcapacity (by omega) hops.1
    obtain ⟨t₁, hcalls, h₁⟩ := hsession
    obtain ⟨t₂, hreopen, h₂⟩ := reopen_oneLeaf h₁
    obtain ⟨t₃, hothers⟩ := ih h₂ (Nat.zero_le 1) hlengths hops.2
    refine ⟨t₃, ?_⟩
    rw [sessions, bind_of_ok hcalls, bind_of_ok hreopen, bind_of_ok hothers, List.flatten_cons, answers_append]
    rfl

end Sessions

/-- In a pool of one frame, a pair is inserted in one session and found in the next one, as in one tree of pages. -/
theorem sessions_eq_onePair : ∃ m values t b, create (BufferPoolManager.new 1 MockFileManager.new) = .ok 1 m ∧
    sessions 8192 1 [[.insert [1] 2], [.search [1]]] ⟨1, m⟩ = .ok values t ∧
      calls (BTree.callTo 8192 fun _ => 1) [.insert [1] 2, .search [1]] (BTree.new 1) = .ok values b ∧
        ∃ ρ, Represents 8192 ρ t b := by
  have hnew : ∃ m, newPage .bTreeInternal (BufferPoolManager.new 1 MockFileManager.new) = .ok 1 m := ⟨_, rfl⟩
  obtain ⟨m, hnew⟩ := hnew
  have hops : AllFit 8192 [] [[.insert [1] 2], [.search [1]]].flatten :=
    ⟨⟨List.forall_mem_nil _, by decide, by decide⟩, trivial, trivial⟩
  obtain ⟨m', hcreate, hleaf⟩ := create_returns good_mock (by decide : 30 ≤ 8192) hnew
  obtain ⟨t, hrun⟩ := sessions_oneLeaf hleaf le_rfl (by decide) (by decide) hops
  obtain ⟨b, hrun', hb⟩ := sessions_eq 8192 good_mock hcreate _ hrun 1
  exact ⟨m', _, t, b, hcreate, hrun, hrun', hb⟩

end PooledBTree

end Rustgresql
