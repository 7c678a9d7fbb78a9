import Rustgresql.Lib.Simulation
import Rustgresql.Storage.BTree.Deletion
import Rustgresql.Storage.BTree.Naming
import Rustgresql.Storage.Buffer.ReadsWrites

/-!
# A B-tree that fits into one node

As long as the pairs of a tree fit into its root page, no call needs another page: the root page stays in
its frame, every call pins it once more, and the tree is a map.
-/

namespace Rustgresql

open StateSpec Wire BufferPoolManager

/-! ## A resident page -/

namespace BufferPoolManager

variable {n : ℕ} {φ : Type} {m : BufferPoolManager n φ} {p : PageId} {page : Page} {k : ℕ}

/-- The page is in a frame that is pinned that often. -/
def Resident (p : PageId) (page : Page) (k : ℕ) (m : BufferPoolManager n φ) : Prop :=
  ∃ i, m.bufferPool.pageToFrame.lookup p = some i ∧ (m.bufferPool.frames i).page = some page ∧ pins m i = k

theorem resident_of_update {m' : BufferPoolManager n φ} {i : Fin n} {f : BufferFrame}
    (hlookup : m'.bufferPool.pageToFrame.lookup p = some i)
    (hframes : m'.bufferPool.frames = Function.update m.bufferPool.frames i f) (hpage : f.page = some page)
    (hk : f.pinCount.toNat = k) : Resident p page k m' := by
  refine ⟨i, hlookup, ?_, ?_⟩
  · rw [hframes, Function.update_self, hpage]
  · rw [pins, hframes, Function.update_self, hk]

theorem Resident.fetched [FileManager φ] (h : Resident p page k m) (hk : k + 1 < 2 ^ 32) :
    ∃ m', fetchPage p m = .ok page m' ∧ Resident p page (k + 1) m' := by
  obtain ⟨i, hlookup, hpage, rfl⟩ := h
  refine ⟨_, (fetchPage_of_hit hlookup hpage).trans (if_pos hk), resident_of_update hlookup rfl hpage ?_⟩
  show ((m.bufferPool.frames i).pinCount + 1).toNat = _
  rw [UInt32.toNat_add]
  exact Nat.mod_eq_of_lt hk

theorem Resident.modified (h : Resident p page k m) (page' : Page) :
    ∃ m', modifyPage p page' m = .ok () m' ∧ Resident p page' k m' := by
  obtain ⟨i, hlookup, hpage, rfl⟩ := h
  have hrun : modifyPage p page' m = setFrame i (fun f => { f with page := f.page.map fun _ => page' }) m := by
    rw [modifyPage, get_bind, hlookup]
  refine ⟨_, hrun, resident_of_update hlookup rfl ?_ rfl⟩
  show (m.bufferPool.frames i).page.map (fun _ => page') = _
  rw [hpage]
  rfl

theorem Resident.unpinned (h : Resident p page (k + 1) m) (dirty : Bool) :
    ∃ m', unpinPage p dirty m = .ok () m' ∧ Resident p page k m' := by
  obtain ⟨i, hlookup, hpage, hk⟩ := h
  rcases unpinPage_cases p dirty m with ⟨-, hzero⟩ | ⟨j, hj, -, hrun⟩
  · rw [pins, hzero i hlookup] at hk
    cases hk
  · cases hlookup.symm.trans hj
    refine ⟨_, hrun, resident_of_update hlookup rfl hpage ?_⟩
    have hone : (1 : UInt32) ≤ (m.bufferPool.frames i).pinCount := by
      rw [UInt32.le_iff_toNat_le]
      show 1 ≤ pins m i
      rw [hk]
      exact Nat.le_add_left 1 k
    rw [UInt32.toNat_sub_of_le _ _ hone]
    exact Nat.sub_eq_of_eq_add hk

section Settled

variable [FileManager φ] [LawfulFileManager φ]

/-- The pool or its file manager has the page, and the pool knows of all changes of it. -/
def KeepsPage (p : PageId) (page : Page) (m : BufferPoolManager n φ) : Prop :=
  ∃ view pending, Coherent view pending m ∧ pending p = false ∧ view p = some page.content

/-- The page is kept in a frame that is pinned that often. -/
def Settled (p : PageId) (page : Page) (k : ℕ) (m : BufferPoolManager n φ) : Prop :=
  Resident p page k m ∧ KeepsPage p page m

theorem Settled.fetched (h : Settled p page k m) (hk : k + 1 < 2 ^ 32) :
    ∃ m', fetchPage p m = .ok page m' ∧ Settled p page (k + 1) m' := by
  obtain ⟨hresident, view, pending, hcoherent, hkept⟩ := h
  obtain ⟨m', hfetch, hresident'⟩ := hresident.fetched hk
  exact ⟨m', hfetch, hresident', view, pending, (hcoherent.fetched hfetch).1, hkept⟩

/-- A page is fetched, changed and unpinned as a dirty page. -/
theorem Settled.rewritten (h : Settled p page k m) (hk : k + 1 < 2 ^ 32) (page' : Page) :
    ∃ m₁ m₂ m₃, fetchPage p m = .ok page m₁ ∧ modifyPage p page' m₁ = .ok () m₂ ∧
      unpinPage p true m₂ = .ok () m₃ ∧ Settled p page' k m₃ := by
  obtain ⟨hresident, view, pending, hcoherent, -⟩ := h
  obtain ⟨m₁, hfetch, h₁⟩ := hresident.fetched hk
  obtain ⟨hcoherent₁, -, hpinned, -⟩ := hcoherent.fetched hfetch
  obtain ⟨m₂, hmodify, h₂⟩ := h₁.modified page'
  obtain ⟨m₃, hunpin, h₃⟩ := h₂.unpinned true
  refine ⟨m₁, m₂, m₃, hfetch, hmodify, hunpin, h₃, ?_⟩
  have hcoherent₂ := hcoherent₁.modified hpinned page'
  simp only [final, hmodify] at hcoherent₂
  have hcoherent₃ : Coherent _ (Function.update (Function.update pending p true) p false)
      (final (unpinPage p true) m₂) := hcoherent₂.unpinned fun _ _ _ _ => rfl
  simp only [final, hunpin] at hcoherent₃
  exact ⟨_, _, hcoherent₃, Function.update_self .., Function.update_self ..⟩

end Settled

end BufferPoolManager

namespace PooledBTree

variable {n : ℕ} {φ : Type} [FileManager φ] [LawfulFileManager φ] {m : BufferPoolManager n φ} {p : PageId} {page : Page}
  {k pageSize : ℕ} {node : BTreeNode}

theorem Settled.loadNode (h : Settled p page k m) (hk : k + 1 < 2 ^ 32) (hread : readNode page = .ok node) :
    ∃ m', loadNode p m = .ok node m' ∧ Settled p page (k + 1) m' := by
  obtain ⟨m', hfetch, hm'⟩ := h.fetched hk
  refine ⟨m', ?_, hm'⟩
  rw [PooledBTree.loadNode, bind_of_ok hfetch]
  exact onNode_eq_ok.mpr ⟨hread, rfl⟩

/-- A node that fits is saved, without another pin. -/
theorem Settled.saveNode (h : Settled p page k m) (hk : k + 1 < 2 ^ 32)
    (hvalid : BTreeNode.codec.Valid node) (hlength : page.data.length < 2 ^ 64)
    (hfits : node.serializedLength ≤ page.data.length) :
    ∃ page' m', saveNode pageSize p node m = .ok () m' ∧ Settled p page' k m' ∧
      readNode page' = .ok node ∧ page'.data.length = page.data.length := by
  obtain ⟨page', hwrite⟩ : ∃ page', writeNode pageSize node page = .ok page' := writeNode_eq_ok.mpr hfits
  obtain ⟨m₁, m₂, m₃, hfetch, hmodify, hunpin, h₃⟩ := h.rewritten hk page'
  have hon : (onNode (writeNode pageSize node page) : PageCall n φ Page) m₁ = .ok page' m₁ :=
    onNode_eq_ok.mpr ⟨hwrite, rfl⟩
  refine ⟨page', m₃, ?_, h₃, readNode_of_writeNode hvalid hlength hwrite, length_of_writeNode hwrite⟩
  rw [PooledBTree.saveNode, bind_of_ok hfetch, bind_of_ok hon, bind_of_ok hmodify, hunpin]

end PooledBTree

/-! ## One leaf as a map -/

namespace BTree

variable {entries : List BTreeEntry} {ps : List (BTreeKey × BTreeValue)} {k : BTreeKey}

/-- An entry in order is erased like all entries with its key. -/
theorem eraseIdx_eq_filter (h : Ordered entries) {i : ℕ} {e : BTreeEntry} (hi : entries[i]? = some e) :
    entries.eraseIdx i = entries.filter fun e' => e'.key ≠ e.key := by
  obtain ⟨l₁, l₂, hsplit, herase⟩ := BTreeNode.exists_split_of_getElem? hi
  rw [herase, hsplit]
  rw [Ordered, hsplit] at h
  obtain ⟨-, hbehind, hbefore⟩ := List.pairwise_append.mp h
  have h₁ : ∀ a ∈ l₁, a.key ≠ e.key := fun a ha => (hbefore a ha e List.mem_cons_self).ne
  have h₂ : ∀ a ∈ l₂, a.key ≠ e.key := fun a ha => ((List.pairwise_cons.mp hbehind).1 a ha).ne'
  rw [List.filter_append, List.filter_cons_of_neg (by simp), List.filter_eq_self.mpr (by simpa using h₁),
    List.filter_eq_self.mpr (by simpa using h₂)]

/-- The entries of a leaf, in order, stand for the pairs of a map. -/
structure LeafOf (ps : List (BTreeKey × BTreeValue)) (entries : List BTreeEntry) : Prop where
  nodup : (ps.map Prod.fst).Nodup
  ordered : Ordered entries
  perm : (entries.map fun e => (e.key, e.value)).Perm ps

theorem LeafOf.nil : LeafOf [] [] := ⟨List.nodup_nil, .nil, .refl _⟩

/-- The entries make up a tree of pages of one leaf. -/
theorem LeafOf.isLeaf (h : LeafOf ps entries) :
    IsLeaf ((BTree.new 0).withNode 0 (leafNode entries)) entries ps where
  root_lt := Nat.one_pos
  readNode := readNode_eq_ok.mpr ⟨Nat.one_pos, rfl⟩
  others _ hid := Function.update_of_ne hid ..
  ordered := h.ordered
  perm := h.perm

theorem LeafOf.insert (h : LeafOf ps entries) (hk : ∀ p ∈ ps, p.1 ≠ k) (v : BTreeValue) :
    LeafOf (ps ++ [(k, v)]) (insertOrdered ⟨k, v⟩ entries) where
  nodup := by
    rw [List.map_append, List.nodup_append]
    refine ⟨h.nodup, List.nodup_singleton _, ?_⟩
    rintro _ hp _ hk' rfl
    obtain ⟨p, hp, hpk⟩ := List.mem_map.mp hp
    exact hk p hp (hpk.trans (List.mem_singleton.mp hk'))
  ordered := ordered_insert h.ordered fun e he => hk _ (h.perm.mem_iff.mp (List.mem_map_of_mem he))
  perm := by
    have hcons : ((k, v) :: entries.map fun e => (e.key, e.value)).Perm ((k, v) :: ps) := h.perm.cons _
    have hmap := (insertOrdered_perm ⟨k, v⟩ entries).map fun e => (e.key, e.value)
    exact (hmap.trans hcons).trans (List.perm_append_singleton _ _).symm

theorem LeafOf.valueOf (h : LeafOf ps entries) (k : BTreeKey) :
    (leafNode entries).valueOf k = ps.lookup k := by
  exact (value_findKey h.ordered k).trans (h.isLeaf.lookup h.nodup k)

theorem LeafOf.without (h : LeafOf ps entries) (k : BTreeKey) : ∃ entries',
    (leafNode entries).without k = leafNode entries' ∧ LeafOf (ps.filter fun p => p.1 ≠ k) entries' := by
  cases hfind : (leafNode entries).findKey k with
  | none =>
    have hnone : ps.lookup k = none := by
      rw [← h.valueOf k, BTreeNode.valueOf, hfind]
      rfl
    have hkept : (ps.filter fun p => p.1 ≠ k) = ps := by
      refine List.filter_eq_self.mpr fun p hp => decide_eq_true ?_
      rintro rfl
      cases hnone.symm.trans ((lookup_eq_some_iff_mem h.nodup).mpr hp)
    exact ⟨entries, BTreeNode.without_of_none hfind, hkept.symm ▸ h⟩
  | some idx =>
    obtain ⟨e, he, rfl⟩ := findKey_eq_some hfind
    have hidx : idx < entries.length := (List.getElem?_eq_some_iff.mp he).1
    refine ⟨entries.eraseIdx idx, ?_, h.nodup.sublist (List.filter_sublist.map _),
      h.ordered.sublist (List.eraseIdx_sublist ..), ?_⟩
    · rw [BTreeNode.without_of_some hfind, leafNode, leafNode, List.length_eraseIdx_of_lt hidx]
    · have hmap : (entries.filter fun e' => e'.key ≠ e.key).map (fun e => (e.key, e.value)) =
          (entries.map fun e => (e.key, e.value)).filter fun p => p.1 ≠ e.key := by
        rw [List.filter_map]
        rfl
      rw [eraseIdx_eq_filter h.ordered he, hmap]
      exact h.perm.filter _

end BTree

namespace PooledBTree

variable {n : ℕ} {φ : Type} {t : PooledBTree n φ} {entries : List BTreeEntry}
  {ps : List (BTreeKey × BTreeValue)} {capacity k pageSize depth : ℕ}

/-- What a call on a map of these pairs returns. -/
def answer (ps : List (BTreeKey × BTreeValue)) : TreeOp → Option BTreeValue
  | .insert _ _ => none
  | .search key => ps.lookup key
  | .delete key => ps.lookup key

/-- The pairs after a call. -/
def after (ps : List (BTreeKey × BTreeValue)) : TreeOp → List (BTreeKey × BTreeValue)
  | .insert key value => ps ++ [(key, value)]
  | .search _ => ps
  | .delete key => ps.filter fun p => p.1 ≠ key

/-- What calls on a map return one after the other. -/
def answers : List (BTreeKey × BTreeValue) → List TreeOp → List (Option BTreeValue)
  | _, [] => []
  | ps, op :: ops => answer ps op :: answers (after ps op) ops

/-- The bytes that a leaf with these pairs needs. -/
def leafSize (ps : List (BTreeKey × BTreeValue)) : ℕ := 30 + (ps.map fun p => 16 + p.1.length).sum

/-- An insertion adds a key that is not there, and there is room for it in one leaf. -/
def Fits (capacity : ℕ) (ps : List (BTreeKey × BTreeValue)) : TreeOp → Prop
  | .insert key value => (∀ p ∈ ps, p.1 ≠ key) ∧ ps.length < maxKeys ∧
      leafSize (ps ++ [(key, value)]) ≤ capacity
  | _ => True

/-- Every insertion of a run fits. -/
def AllFit (capacity : ℕ) : List (BTreeKey × BTreeValue) → List TreeOp → Prop
  | _, [] => True
  | ps, op :: ops => Fits capacity ps op ∧ AllFit capacity (after ps op) ops

theorem serializedLength_leafNode (h : BTree.LeafOf ps entries) :
    (BTree.leafNode entries).serializedLength = leafSize ps := by
  have hperm := (h.perm.map fun p => 16 + p.1.length).sum_eq
  rw [List.map_map] at hperm
  have hsizes : (entries.map fun e => 8 + e.key.length + 8) =
      entries.map ((fun p : BTreeKey × BTreeValue => 16 + p.1.length) ∘ fun e => (e.key, e.value)) := by
    refine List.map_congr_left fun e _ => ?_
    show 8 + e.key.length + 8 = 16 + e.key.length
    omega
  rw [leafSize, ← hperm, ← hsizes]
  simp only [BTreeNode.serializedLength, BTree.leafNode, List.length_nil, Option.isSome_none,
    Bool.false_eq_true, if_false]
  omega

theorem leafSize_filter (ps : List (BTreeKey × BTreeValue)) (f : BTreeKey × BTreeValue → Bool) :
    leafSize (ps.filter f) ≤ leafSize ps :=
  Nat.add_le_add_left ((List.filter_sublist.map _).sum_le_sum fun _ _ => Nat.zero_le _) 30

theorem valid_leafNode (h : (BTree.leafNode entries).serializedLength < 2 ^ 64) :
    BTreeNode.codec.Valid (BTree.leafNode entries) := by
  have hsame : Renamed (fun _ _ => False) (BTree.leafNode entries) (BTree.leafNode entries) :=
    ⟨rfl, .nil, rfl, fun _ => rfl, rfl, rfl⟩
  exact hsame.valid h

theorem onPages_of_ok {α : Type} {act : PageCall n φ α} {a : α} {m : BufferPoolManager n φ}
    (h : act t.bufferManager = .ok a m) : onPages act t = .ok a { t with bufferManager := m } := by
  rw [onPages, h]

/-- The pairs after calls -/
def afterAll (ps : List (BTreeKey × BTreeValue)) (ops : List TreeOp) : List (BTreeKey × BTreeValue) :=
  ops.foldl after ps

section Calls

variable [FileManager φ] [LawfulFileManager φ]

/-- The root page holds one leaf with the pairs. A load of it pins it for the `k + 1`-th time. -/
def OneLeaf (capacity k : ℕ) (ps : List (BTreeKey × BTreeValue)) (t : PooledBTree n φ) : Prop :=
  ∃ entries page m, BTree.LeafOf ps entries ∧ KeepsPage t.rootPageId page t.bufferManager ∧
    loadNode t.rootPageId t.bufferManager = .ok (BTree.leafNode entries) m ∧
    Settled t.rootPageId page (k + 1) m ∧ page.data.length = capacity ∧ leafSize ps ≤ capacity ∧
    readNode page = .ok (BTree.leafNode entries)

theorem oneLeaf_of_settled (hk : k + 1 < 2 ^ 32) {page : Page} (hleaf : BTree.LeafOf ps entries)
    (hsettled : Settled t.rootPageId page k t.bufferManager) (hlength : page.data.length = capacity)
    (hsize : leafSize ps ≤ capacity) (hread : readNode page = .ok (BTree.leafNode entries)) :
    OneLeaf capacity k ps t := by
  obtain ⟨m, hload, hsettled'⟩ := Settled.loadNode hsettled hk hread
  exact ⟨entries, page, m, hleaf, hsettled.2, hload, hsettled', hlength, hsize, hread⟩

/-- A leaf that fits is saved in the root page. -/
theorem save_leaf (hcapacity : capacity < 2 ^ 64) {page : Page} (hk : k + 1 < 2 ^ 32)
    (hsettled : Settled t.rootPageId page k t.bufferManager) (hlength : page.data.length = capacity)
    (hleaf : BTree.LeafOf ps entries) (hsize : leafSize ps ≤ capacity) :
    ∃ m, saveNode pageSize t.rootPageId (BTree.leafNode entries) t.bufferManager = .ok () m ∧
      OneLeaf capacity k ps ⟨t.rootPageId, m⟩ := by
  have hfits : (BTree.leafNode entries).serializedLength ≤ capacity :=
    (serializedLength_leafNode hleaf).trans_le hsize
  obtain ⟨page', m, hsave, hsettled', hread, hlength'⟩ := Settled.saveNode hsettled hk
    (valid_leafNode (hfits.trans_lt hcapacity)) (hlength ▸ hcapacity) (hlength ▸ hfits)
  exact ⟨m, hsave, oneLeaf_of_settled hk hleaf hsettled' (hlength'.trans hlength) hsize hread⟩

theorem insert_oneLeaf (h : OneLeaf capacity k ps t) (hcapacity : capacity < 2 ^ 64) (hk : k + 2 < 2 ^ 32)
    {key : BTreeKey} {value : BTreeValue} (hfits : Fits capacity ps (.insert key value)) :
    ∃ t', insert pageSize (depth + 1) key value t = .ok () t' ∧
      OneLeaf capacity (k + 1) (ps ++ [(key, value)]) t' := by
  obtain ⟨entries, page, m₁, hleaf, -, hload, hsettled, hlength, -, -⟩ := h
  obtain ⟨hkey, hroom, hsize⟩ := hfits
  have hentries : entries.length < maxKeys := hleaf.isLeaf.length ▸ hroom
  have hnotFull : (BTree.leafNode entries).isFull = false := by
    unfold BTreeNode.isFull BTree.leafNode
    simpa using hentries
  have hroot : splitFullRoot pageSize (BTree.leafNode entries) (⟨t.rootPageId, m₁⟩ : PooledBTree n φ) =
      .ok (BTree.leafNode entries) ⟨t.rootPageId, m₁⟩ := by
    rw [splitFullRoot, hnotFull]
    rfl
  obtain ⟨m₂, hsave, hdone⟩ := save_leaf (t := ⟨t.rootPageId, m₁⟩) hcapacity hk hsettled hlength
    (hleaf.insert hkey value) hsize
  have hinto : insertIntoNode pageSize key value (depth + 1) t.rootPageId (BTree.leafNode entries) m₁ =
      .ok () m₂ := by
    refine (bind_of_ok (onNode_eq_ok.mpr ⟨?_, rfl⟩)).trans hsave
    exact BTree.insertEntry_leafNode hentries ⟨key, value⟩
  refine ⟨⟨t.rootPageId, m₂⟩, ?_, hdone⟩
  rw [insert, get_bind, bind_of_ok (onPages_of_ok hload), bind_of_ok hroot, get_bind]
  exact onPages_of_ok hinto

theorem search_oneLeaf (h : OneLeaf capacity k ps t) (hk : k + 2 < 2 ^ 32) (key : BTreeKey) :
    ∃ t', search (depth + 1) key t = .ok (ps.lookup key) t' ∧ OneLeaf capacity (k + 1) ps t' := by
  obtain ⟨entries, page, m₁, hleaf, -, hload, hsettled, hlength, hsize, hread⟩ := h
  refine ⟨⟨t.rootPageId, m₁⟩, ?_, oneLeaf_of_settled hk hleaf hsettled hlength hsize hread⟩
  rw [search, get_bind, bind_of_ok (onPages_of_ok hload), ← hleaf.valueOf]
  rfl

theorem delete_oneLeaf (h : OneLeaf capacity k ps t) (hcapacity : capacity < 2 ^ 64) (hk : k + 2 < 2 ^ 32)
    (key : BTreeKey) :
    ∃ t', delete pageSize (depth + 1) key t = .ok (ps.lookup key) t' ∧
      OneLeaf capacity (k + 1) (ps.filter fun p => p.1 ≠ key) t' := by
  obtain ⟨entries, page, m₁, hleaf, -, hload, hsettled, hlength, hsize, hread⟩ := h
  have htype : (BTree.leafNode entries).nodeType = .leaf := rfl
  have hvalue := hleaf.valueOf key
  obtain ⟨entries', hwithout, hleaf'⟩ := hleaf.without key
  cases hfind : (BTree.leafNode entries).findKey key with
  | none =>
    rw [BTreeNode.without_of_none hfind] at hwithout
    have hrun : deleteFromNode pageSize key (depth + 1) t.rootPageId (BTree.leafNode entries) m₁ =
        .ok (BTree.leafNode entries, none, false) m₁ := by
      simp only [deleteFromNode, htype, hfind]
      rfl
    have hnone : ps.lookup key = none := by rw [← hvalue, BTreeNode.valueOf, hfind, Option.bind_none]
    refine ⟨⟨t.rootPageId, m₁⟩, ?_, oneLeaf_of_settled hk hleaf' hsettled hlength ?_ (hwithout ▸ hread)⟩
    · rw [delete, get_bind, bind_of_ok (onPages_of_ok hload), bind_of_ok (onPages_of_ok hrun), hnone]
      rfl
    · exact (leafSize_filter ps _).trans hsize
  | some idx =>
    obtain ⟨e, he, rfl⟩ := BTree.findKey_eq_some hfind
    have hcount : (BTree.leafNode entries).entryCount ≠ 0 := by
      have hidx := (List.getElem?_eq_some_iff.mp he).1
      exact Nat.ne_zero_of_lt hidx
    obtain ⟨m₂, hsave, hdone⟩ := save_leaf (t := ⟨t.rootPageId, m₁⟩) hcapacity hk hsettled hlength hleaf'
      ((leafSize_filter ps _).trans hsize)
    have hrun : deleteFromNode pageSize e.key (depth + 1) t.rootPageId (BTree.leafNode entries) m₁ =
        .ok (BTree.leafNode entries', ps.lookup e.key, (BTree.leafNode entries').isEmpty) m₂ := by
      simp only [deleteFromNode, htype, hfind]
      rw [bind_of_ok (require_of hcount _ _)]
      rw [BTreeNode.without_of_some hfind, htype] at hwithout
      rw [BTreeNode.valueOf, hfind, Option.bind_some] at hvalue
      rw [hvalue, hwithout, bind_of_ok hsave]
      rfl
    refine ⟨⟨t.rootPageId, m₂⟩, ?_, hdone⟩
    rw [delete, get_bind, bind_of_ok (onPages_of_ok hload), bind_of_ok (onPages_of_ok hrun)]
    -- the leaf has no child to become the root
    cases (BTree.leafNode entries').isEmpty <;> rfl

/-- A call on one leaf answers as a map does, and takes one pin more. -/
theorem call_oneLeaf (h : OneLeaf capacity k ps t) (hcapacity : capacity < 2 ^ 64) (hk : k + 2 < 2 ^ 32)
    {op : TreeOp} (hop : Fits capacity ps op) :
    ∃ t', call pageSize (depth + 1) op t = .ok (answer ps op) t' ∧
      OneLeaf capacity (k + 1) (after ps op) t' := by
  cases op with
  | insert key value =>
    obtain ⟨t', hrun, ht'⟩ := insert_oneLeaf h hcapacity hk hop
    exact ⟨t', bind_of_ok hrun, ht'⟩
  | search key => exact search_oneLeaf h hk key
  | delete key => exact delete_oneLeaf h hcapacity hk key

theorem calls_oneLeaf (h : OneLeaf capacity k ps t) (hcapacity : capacity < 2 ^ 64) {ops : List TreeOp}
    (hk : k + ops.length + 1 < 2 ^ 32) (hops : AllFit capacity ps ops) :
    ∃ t', calls (call pageSize (depth + 1)) ops t = .ok (answers ps ops) t' ∧
      OneLeaf capacity (k + ops.length) (afterAll ps ops) t' := by
  induction ops generalizing k ps t with
  | nil => exact ⟨t, rfl, h⟩
  | cons op ops ih =>
    rw [List.length_cons] at hk
    obtain ⟨t₁, hcall, h₁⟩ := call_oneLeaf h hcapacity (by omega) hops.1
    obtain ⟨t₂, hcalls, h₂⟩ := ih h₁ (by omega) hops.2
    refine ⟨t₂, ?_, ?_⟩
    · rw [calls, bind_of_ok hcall, bind_of_ok hcalls]
      rfl
    · rw [List.length_cons, Nat.add_comm ops.length, ← Nat.add_assoc]
      exact h₂

theorem onFm_eq_ok {n : ℕ} {φ α : Type} {m m' : BufferPoolManager n φ} {act : EStateM Failure φ α} {a : α}
    (h : onFm act m = .ok a m') : ∃ fm, act m.fileManager = .ok a fm ∧ m' = { m with fileManager := fm } := by
  obtain ⟨hpool, hact⟩ := (spec_onFm act m).post h
  exact ⟨m'.fileManager, hact, by rw [← hpool]⟩

section New

variable [BlankPages φ capacity] {fm : φ} {p : PageId} {m : BufferPoolManager n φ}

/-- A page that was in no frame is fetched into one that was not pinned. -/
theorem settled_of_fetchPage {view : PageId → Option Page} {pending : PageId → Bool} {m m' : BufferPoolManager n φ}
    {page : Page} (h : Coherent view pending m) (hpending : pending p = false) (hpins : ∀ i, pins m i = 0)
    (hlookup : m.bufferPool.pageToFrame.lookup p = none) (hrun : fetchPage p m = .ok page m') :
    ∃ page', Settled p page' 1 m' ∧ view p = some page'.content := by
  obtain ⟨hfetched, -, -, -⟩ := h.fetched hrun
  obtain ⟨i, hpins', hlookup'⟩ := (pins_loadPage p _).post ((fetchPage_of_miss hlookup).symm.trans hrun)
  obtain ⟨page', hpage, hview⟩ := hfetched.sound.holds p i ((hfetched.sound.frame p i).mp hlookup')
  refine ⟨page', ⟨⟨i, hlookup', hpage, ?_⟩, view, pending, hfetched, hpending, hview⟩, hview⟩
  rw [hpins', Function.update_self, hpins]

variable (capacity) in
/-- The first page of a buffer pool is pinned once, and blank. -/
theorem settled_newPage (hgood : LawfulFileManager.Good fm) {pageType : PageType}
    (hrun : newPage pageType (BufferPoolManager.new n fm) = .ok p m) :
    ∃ page, Settled p page 1 m ∧ page.content = .new p pageType capacity := by
  obtain ⟨p', m₁, halloc, hrun⟩ := bind_eq_ok.mp hrun
  obtain ⟨page, m₂, hfetch, hp⟩ := bind_eq_ok.mp hrun
  cases hp
  obtain ⟨fm', hact, rfl⟩ := onFm_eq_ok halloc
  obtain ⟨page', hsettled, hview⟩ :=
    settled_of_fetchPage ((coherent_new n hgood).allocated hact) rfl (fun _ => rfl) rfl hfetch
  refine ⟨page', hsettled, ?_⟩
  have hnone := (LawfulFileManager.allocate_ok hgood hact).2.1
  have hblank : LawfulFileManager.content fm' p = some (.new p pageType capacity) :=
    BlankPages.allocate_blank hgood hact
  change LawfulFileManager.content fm p = none at hnone
  rw [hnone, Option.none_or, hblank] at hview
  exact (Option.some.inj hview).symm

/-- A tree is made as soon as its root page is. -/
theorem create_returns (hgood : LawfulFileManager.Good fm) (hcapacity : 30 ≤ capacity)
    (hrun : newPage .bTreeInternal (BufferPoolManager.new n fm) = .ok p m) :
    ∃ m', create (BufferPoolManager.new n fm) = .ok p m' ∧ OneLeaf capacity 1 [] ⟨p, m'⟩ := by
  obtain ⟨root, hsettled, hblank⟩ := settled_newPage capacity hgood hrun
  have hlength : root.data.length = capacity :=
    (congrArg (fun page : Page => page.data.length) hblank).trans List.length_replicate
  obtain ⟨m₁, m₂, m₃, hfetch, hmodify, hunpin, h₃⟩ := hsettled.rewritten (by decide) (withEmptyLeaf root)
  have hfits : (BTreeNode.codec.encode (.new .leaf)).length ≤ root.data.length := hlength ▸ hcapacity
  refine ⟨m₃, ?_, oneLeaf_of_settled (by decide) .nil h₃ ?_ hcapacity ?_⟩
  · rw [create, bind_of_ok hrun, bind_of_ok hfetch, bind_of_ok (require_of hfits _ _), bind_of_ok hmodify,
      bind_of_ok hunpin]
    rfl
  · rw [withEmptyLeaf, List.length_append, List.length_drop, ← hlength]
    omega
  · exact readNode_withEmptyLeaf (hlength ▸ BlankPages.capacity_lt φ)

end New

end Calls

theorem good_mock : LawfulFileManager.Good MockFileManager.new := fun p hp => (AList.notMem_empty p hp).elim

end PooledBTree

end Rustgresql
