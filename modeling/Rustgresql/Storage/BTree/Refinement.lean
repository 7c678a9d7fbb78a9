import Rustgresql.Storage.BTree.OneLeaf

/-!
# The tree of pages behind the buffer pool

A B-tree over the buffer pool does what the tree of pages does, whatever pages are evicted, written back
and read again in between: whenever a call returns, the call on the tree of pages returns the same
(`calls_eq`). Pages that the pool allocates may have other numbers there.
-/

namespace Rustgresql

open StateSpec BufferPoolManager

namespace PooledBTree

variable {n : ℕ} {φ : Type} [FileManager φ] [LawfulFileManager φ] {capacity root : ℕ} {ρ : Naming}
  {m m' : BufferPoolManager n φ} {b : BTree} {id : ℕ} {p : PageId} {node node' : BTreeNode}

/-- The buffer pool holds the nodes of a tree of pages, under other names. -/
structure Holds (capacity root : ℕ) (ρ : Naming) (m : BufferPoolManager n φ) (b : BTree) : Prop where
  root_eq : b.rootPageId = root
  unique : ∀ {id p p'}, ρ id p → ρ id p' → p = p'
  injective : ∀ {id id' p}, ρ id p → ρ id' p → id = id'
  allocated : ∀ {id p}, ρ id p → id < b.totalPages
  blank : ∀ id, b.totalPages ≤ id → b.nodeAt id = .new .leaf
  pages : ∃ view, Coherent view (fun _ => false) m ∧
    ∀ id p, ρ id p → ∃ page, view p = some page ∧ HoldsNode capacity ρ page (b.nodeAt id)

theorem Holds.fetched (h : Holds capacity root ρ m b) (hid : ρ id p) {page : Page}
    (hrun : fetchPage p m = .ok page m') :
    Holds capacity root ρ m' b ∧ HoldsNode capacity ρ page (b.nodeAt id) := by
  obtain ⟨view, hcoherent, hnodes⟩ := h.pages
  obtain ⟨hcoherent', hview, -, -⟩ := hcoherent.fetched hrun
  obtain ⟨page', hview', hpage'⟩ := hnodes id p hid
  cases hview.symm.trans hview'
  exact ⟨⟨h.root_eq, h.unique, h.injective, h.allocated, h.blank, view, hcoherent', hnodes⟩, hpage'⟩

theorem refines_onNode {α α' : Type} {V : Naming → α → α' → Prop} {r : Result α} {r' : Result α'}
    (h : ∀ a, r = .ok a → ∃ a', r' = .ok a' ∧ V ρ a a') :
    Refines (Holds capacity root) V ρ (onNode r : PageCall n φ α) (BTree.onNode r') := by
  intro m b hb a m' hrun
  obtain ⟨hr, rfl⟩ := onNode_eq_ok.mp hrun
  obtain ⟨a', ha', hV⟩ := h a hr
  refine ⟨ρ, le_refl ρ, a', b, ?_, hV, hb⟩
  rw [ha']
  rfl

/-- Loading a node gives the node of the page, under other names. -/
theorem refines_loadNode (hid : ρ id p) :
    Refines (Holds capacity root) Renamed ρ (loadNode p : PageCall n φ BTreeNode) (BTree.loadNode id) := by
  intro m b h node m' hrun
  obtain ⟨page, m₁, hfetch, hread⟩ := bind_eq_ok.mp hrun
  obtain ⟨hpool, -, node₁, hnode₁, hrenamed⟩ := h.fetched hid hfetch
  obtain ⟨hnode, rfl⟩ := onNode_eq_ok.mp hread
  cases hnode₁.symm.trans hnode
  refine ⟨ρ, le_refl ρ, b.nodeAt id, b, ?_, hrenamed, hpool⟩
  rw [BTree.loadNode, BTree.readNode_eq_ok.mpr ⟨h.allocated hid, rfl⟩]

/-- A page that was fetched, changed and unpinned holds what it was changed to. -/
theorem Holds.written (h : Holds capacity root ρ m b) (hid : ρ id p) {page page' : Page}
    {m₁ m₂ : BufferPoolManager n φ} {u u' : Unit} (hfetch : fetchPage p m = .ok page m₁)
    (hmodify : modifyPage p page' m₁ = .ok u m₂) (hunpin : unpinPage p true m₂ = .ok u' m')
    (hpage' : HoldsNode capacity ρ page' node') : Holds capacity root ρ m' (b.withNode id node') := by
  obtain ⟨view, hcoherent, hnodes⟩ := h.pages
  obtain ⟨hfetched, -, hpinned, -⟩ := hcoherent.fetched hfetch
  have hmodified := hfetched.modified hpinned page'
  rw [final_of_ok hmodify] at hmodified
  have hunpinned := hmodified.unpinned (p := p) fun _ _ _ _ => rfl
  rw [final_of_ok hunpin, if_pos rfl, Function.update_idem, Function.update_eq_self_iff.mpr rfl]
    at hunpinned
  refine ⟨h.root_eq, h.unique, h.injective, h.allocated, fun id' hid' => ?_, _, hunpinned,
    fun id' p' hid' => ?_⟩
  · rw [BTree.nodeAt_withNode, Function.update_of_ne ((h.allocated hid).trans_le hid').ne']
    exact h.blank id' hid'
  · rw [BTree.nodeAt_withNode]
    by_cases hp : p' = p
    · subst hp
      cases h.injective hid hid'
      rw [Function.update_self, Function.update_self]
      exact ⟨_, rfl, hpage'⟩
    · have hne : id' ≠ id := by
        rintro rfl
        exact hp (h.unique hid' hid)
      rw [Function.update_of_ne hp, Function.update_of_ne hne]
      exact hnodes id' p' hid'

/-- A tree of pages counts through the nodes of its pages. -/
theorem Holds.congr (h : Holds capacity root ρ m b) {b' : BTree} (hroot : b'.rootPageId = b.rootPageId)
    (htotal : b'.totalPages = b.totalPages) (hnodes : b'.nodeAt = b.nodeAt) :
    Holds capacity root ρ m b' where
  root_eq := hroot.trans h.root_eq
  unique := h.unique
  injective := h.injective
  allocated hid := htotal ▸ h.allocated hid
  blank id hid := hnodes ▸ h.blank id (htotal ▸ hid)
  pages := hnodes ▸ h.pages

/-- Saving a node puts it into its page. -/
theorem refines_saveNode (hcapacity : capacity < 2 ^ 64) {pageSize : ℕ} (hid : ρ id p)
    (hnode : Renamed ρ node node') :
    Refines (Holds capacity root) (fun _ _ _ => True) ρ (saveNode pageSize p node : PageCall n φ Unit)
      (BTree.saveNode capacity id node') := by
  intro m b h _ m' hrun
  obtain ⟨page, m₁, hfetch, hrun⟩ := bind_eq_ok.mp hrun
  obtain ⟨page', m₂, hwrite, hrun⟩ := bind_eq_ok.mp hrun
  obtain ⟨_, m₃, hmodify, hunpin⟩ := bind_eq_ok.mp hrun
  obtain ⟨hwritten, rfl⟩ := onNode_eq_ok.mp hwrite
  obtain ⟨-, hlength, -⟩ := h.fetched hid hfetch
  have hfits : node.serializedLength ≤ capacity := hlength ▸ writeNode_eq_ok.mp ⟨page', hwritten⟩
  have hread : readNode page' = .ok node :=
    readNode_of_writeNode (hnode.valid (hfits.trans_lt hcapacity)) (hlength ▸ hcapacity) hwritten
  refine ⟨ρ, le_refl ρ, ⟨⟩, b.withNode id node', ?_, trivial, h.written hid hfetch hmodify hunpin
    ⟨(length_of_writeNode hwritten).trans hlength, node, hread, hnode⟩⟩
  rw [BTree.saveNode, BTree.readNode_eq_ok.mpr ⟨h.allocated hid, rfl⟩]
  dsimp only
  rw [hnode.serializedLength, if_neg hfits.not_gt]
  rfl

/-- A new page is named like the next page of the tree of pages. -/
theorem refines_newPage [BlankPages φ capacity] (t : PageType) :
    Refines (Holds capacity root) (fun ρ p id => ρ id p) ρ (newPage t : PageCall n φ PageId)
      BTree.newPage := by
  intro m b h p m' hrun
  obtain ⟨view, hcoherent, hnodes⟩ := h.pages
  obtain ⟨p', m₁, halloc, hrun⟩ := bind_eq_ok.mp hrun
  obtain ⟨page, m₂, hfetch, hp⟩ := bind_eq_ok.mp hrun
  cases hp
  obtain ⟨fm, hact, rfl⟩ := onFm_eq_ok halloc
  obtain ⟨hfetched, hview, -, -⟩ := (hcoherent.allocated hact).fetched hfetch
  obtain ⟨-, hnone, page₁, hcontent⟩ := LawfulFileManager.allocate_ok hcoherent.good hact
  have hblank : LawfulFileManager.content fm p = some (.new p t capacity) :=
    BlankPages.allocate_blank hcoherent.good hact
  have hfresh : view p = none := by simpa [hnone] using hcoherent.stored p
  have hnew : ∀ id', ¬ ρ id' p := by
    intro id' hid'
    obtain ⟨_, hview', -⟩ := hnodes id' p hid'
    cases hfresh.symm.trans hview'
  have htotal : ∀ p', ¬ ρ b.totalPages p' := fun p' hid' => (h.allocated hid').false
  refine ⟨ρ.withPage b.totalPages p, ρ.le_withPage _ _, b.totalPages,
    { b with totalPages := b.totalPages + 1 }, rfl, ρ.withPage_self _ _, h.root_eq, ?_, ?_, ?_, ?_, _,
    hfetched, ?_⟩
  · rintro id p₁ p₂ (h₁ | ⟨rfl, rfl⟩) (h₂ | ⟨hid, rfl⟩)
    · exact h.unique h₁ h₂
    · exact (htotal p₁ (hid ▸ h₁)).elim
    · exact (htotal p₂ h₂).elim
    · rfl
  · rintro id₁ id₂ q (h₁ | ⟨rfl, rfl⟩) (h₂ | ⟨rfl, hq⟩)
    · exact h.injective h₁ h₂
    · exact (hnew id₁ (hq ▸ h₁)).elim
    · exact (hnew id₂ h₂).elim
    · rfl
  · rintro id q (hq | ⟨rfl, rfl⟩)
    · exact (h.allocated hq).trans (Nat.lt_succ_self _)
    · exact Nat.lt_succ_self _
  · exact fun id hid => h.blank id ((Nat.le_succ _).trans hid)
  · rintro id q (hq | ⟨rfl, rfl⟩)
    · obtain ⟨page', hview', hpage'⟩ := hnodes id q hq
      refine ⟨page', ?_, hpage'.mono (ρ.le_withPage _ _)⟩
      rw [hview', Option.some_or]
    · refine ⟨.new q t capacity, ?_, List.length_replicate, .new .leaf, ?_, ?_⟩
      · rw [hfresh, Option.none_or, hblank]
      · exact readNode_new _ _ (BlankPages.capacity_lt φ)
      · exact (h.blank _ le_rfl).symm ▸ .new _ _

/-! ## Calls on nodes -/

/-- A question about the tree of pages. -/
def asks {α : Type} (f : BTree → Result α) : BTree.Call α := fun t =>
  match f t with
  | .ok a => .ok a t
  | .error e => .error e t

/-- A question that starts with loading a node. -/
theorem refines_asks_readNode {α : Type} {V : Naming → α → α → Prop} {f : BTreeNode → PageCall n φ α}
    {f' : BTree → BTreeNode → Result α} (hid : ρ id p)
    (h : ∀ ρ₁ node node', ρ ≤ ρ₁ → Renamed ρ₁ node node' →
      Refines (Holds capacity root) V ρ₁ (f node) (asks fun t => f' t node')) :
    Refines (Holds capacity root) V ρ (loadNode p >>= f)
      (asks fun t => match t.readNode id with
        | .ok node => f' t node
        | .error e => .error e) := by
  have hasks : (asks fun t => match t.readNode id with
      | .ok node => f' t node
      | .error e => .error e) = (BTree.loadNode id >>= fun node => asks fun t => f' t node) := by
    funext t
    unfold asks BTree.loadNode
    cases hread : t.readNode id <;> simp [bind, EStateM.bind, hread]
  rw [hasks]
  exact (refines_loadNode hid).bind h

theorem refines_searchInNode {depth : ℕ} (key : BTreeKey) (hnode : Renamed ρ node node') :
    Refines (Holds capacity root) (fun _ v v' => v = v') ρ
      (searchInNode key depth node : PageCall n φ (Option BTreeValue))
      (asks fun t => t.searchInNode key depth node') := by
  induction depth generalizing ρ node node' with
  | zero => exact Refines.throw _ _
  | succ depth ih =>
    unfold searchInNode BTree.searchInNode
    rw [hnode.nodeType]
    cases node.nodeType with
    | leaf =>
      rw [hnode.findKey, hnode.entries]
      exact Refines.pure rfl
    | internal =>
      dsimp only
      rw [hnode.findInsertPosition]
      cases hchild : node.children[node.findInsertPosition key]? with
      | none => exact Refines.throw _ _
      | some c =>
        obtain ⟨childId, hchildId, hc⟩ := hnode.child hchild
        rw [hchildId]
        exact refines_asks_readNode hc fun ρ₁ _ _ _ hchild' => ih hchild'

theorem refines_canLend (hnode : Renamed ρ node node') (i : ℕ) :
    Refines (Holds capacity root) (fun _ v v' => v = v') ρ (canLend node i : PageCall n φ Bool)
      (BTree.canLend node' i) := by
  unfold canLend BTree.canLend
  cases hchild : node.children[i]? with
  | none => exact Refines.throw _ _
  | some c =>
    obtain ⟨childId, hchildId, hc⟩ := hnode.child hchild
    rw [hchildId]
    refine (refines_loadNode hc).bind fun ρ₁ sibling sibling' _ hsibling => ?_
    rw [hsibling.entryCount]
    exact Refines.pure rfl

/-- Nothing is merged. -/
theorem refines_handleUnderflow (hnode : Renamed ρ node node') (childIdx : ℕ) :
    Refines (Holds capacity root) (fun _ v v' => v = false ∧ v' = false) ρ
      (handleUnderflow node childIdx : PageCall n φ Bool) (BTree.handleUnderflow node' childIdx) := by
  have hleft : Refines (Holds capacity root) (fun _ v v' => v = v') ρ
      (leftLends node childIdx : PageCall n φ Bool) (BTree.leftLends node' childIdx) := by
    unfold leftLends BTree.leftLends
    split
    · exact refines_canLend hnode _
    · exact Refines.pure rfl
  have hright : ∀ {ρ₁}, Renamed ρ₁ node node' → Refines (Holds capacity root) (fun _ v v' => v = v') ρ₁
      (rightLends node childIdx : PageCall n φ Bool) (BTree.rightLends node' childIdx) := by
    intro ρ₁ hnode₁
    unfold rightLends BTree.rightLends
    rw [← hnode.children.length_eq]
    split
    · exact refines_canLend hnode₁ _
    · exact Refines.pure rfl
  unfold handleUnderflow BTree.handleUnderflow
  refine hleft.bind ?_
  rintro ρ₁ lends _ hρ₁ rfl
  split
  · exact Refines.pure ⟨rfl, rfl⟩
  · refine (hright (hnode.mono hρ₁)).bind ?_
    rintro ρ₂ lends _ - rfl
    split
    · exact Refines.pure ⟨rfl, rfl⟩
    · split <;> exact Refines.pure ⟨rfl, rfl⟩

section Nodes

variable [BlankPages φ capacity] {pageSize depth : ℕ}

theorem refines_insertIntoNode (key : BTreeKey) (value : BTreeValue) (hid : ρ id p)
    (hnode : Renamed ρ node node') :
    Refines (Holds capacity root) (fun _ _ _ => True) ρ
      (insertIntoNode pageSize key value depth p node : PageCall n φ Unit)
      (BTree.insertIntoNode capacity key value depth id node') := by
  have hcapacity : capacity < 2 ^ 64 := BlankPages.capacity_lt φ
  induction depth generalizing ρ p id node node' with
  | zero => exact Refines.throw _ _
  | succ depth ih =>
    unfold insertIntoNode BTree.insertIntoNode
    rw [hnode.nodeType]
    cases htype : node.nodeType with
    | leaf =>
      refine (refines_onNode fun _ hinsert => hnode.insertEntry hinsert).bind ?_
      exact fun ρ₁ _ _ hρ₁ hnode₁ => refines_saveNode hcapacity (Naming.mono hρ₁ hid) hnode₁
    | internal =>
      dsimp only
      rw [hnode.findInsertPosition]
      have hle : node.findInsertPosition key ≤ node.entries.length := by
        rw [BTree.findInsertPosition_eq]
        exact (List.takeWhile_sublist _).length_le
      cases hchild : node.children[node.findInsertPosition key]? with
      | none => exact Refines.throw _ _
      | some c =>
        obtain ⟨childId, hchildId, hc⟩ := hnode.child hchild
        rw [hchildId]
        refine (refines_loadNode hc).bind fun ρ₁ child child' hρ₁ hchild' => ?_
        rw [hchild'.isFull]
        split
        · -- the child is split
          refine (refines_onNode fun _ hsplit => hchild'.split hsplit).bind ?_
          rintro ρ₂ ⟨left, right, separator⟩ ⟨left', right', _⟩ hρ₂ ⟨hleft, hright, rfl⟩
          have h₂ := hρ₁.trans hρ₂
          dsimp only at hleft hright ⊢
          refine (refines_saveNode hcapacity (Naming.mono h₂ hc) hleft).bind fun ρ₃ _ _ hρ₃ _ => ?_
          refine (refines_newPage _).bind fun ρ₄ q id' hρ₄ hq => ?_
          have h₄ := hρ₃.trans hρ₄
          refine (refines_saveNode hcapacity hq (hright.mono h₄)).bind fun ρ₅ _ _ hρ₅ _ => ?_
          have h₅ := h₄.trans hρ₅
          refine (refines_saveNode hcapacity (Naming.mono (h₂.trans h₅) hid)
            ((hnode.mono (h₂.trans h₅)).insertChild hle separator (Naming.mono hρ₅ hq))).bind ?_
          intro ρ₆ _ _ hρ₆ _
          have h₆ := h₅.trans hρ₆
          split
          · exact ih (Naming.mono (h₂.trans h₆) hc) (hleft.mono h₆)
          · exact ih (Naming.mono (hρ₅.trans hρ₆) hq) (hright.mono h₆)
        · refine (refines_saveNode hcapacity (Naming.mono hρ₁ hid) (hnode.mono hρ₁)).bind ?_
          exact fun ρ₂ _ _ hρ₂ _ => ih (Naming.mono (hρ₁.trans hρ₂) hc) (hchild'.mono hρ₂)

theorem refines_deleteFromNode (key : BTreeKey) (hid : ρ id p) (hnode : Renamed ρ node node') :
    Refines (Holds capacity root)
      (fun ρ d d' => Renamed ρ d.1 d'.1 ∧ d.2 = d'.2 ∧ (d.2.2 = true → d.1.nodeType = .leaf)) ρ
      (deleteFromNode pageSize key depth p node : PageCall n φ (BTreeNode × Option BTreeValue × Bool))
      (BTree.deleteFromNode capacity key depth id node') := by
  have hcapacity : capacity < 2 ^ 64 := BlankPages.capacity_lt φ
  induction depth generalizing ρ p id node node' with
  | zero => exact Refines.throw _ _
  | succ depth ih =>
    unfold deleteFromNode BTree.deleteFromNode
    rw [hnode.nodeType]
    cases htype : node.nodeType with
    | leaf =>
      dsimp only
      rw [hnode.findKey]
      cases hfind : node.findKey key with
      | none => exact Refines.pure ⟨hnode, rfl, fun hmerge => by cases hmerge⟩
      | some idx =>
        obtain ⟨e, he, -⟩ := BTree.findKey_eq_some hfind
        have hidx := (List.getElem?_eq_some_iff.mp he).1
        refine Refines.require_bind fun _ => ?_
        refine (refines_saveNode hcapacity hid (hnode.eraseEntry htype hidx)).bind fun ρ₁ _ _ hρ₁ _ => ?_
        refine Refines.pure ⟨(hnode.eraseEntry htype hidx).mono hρ₁, ?_, fun _ => rfl⟩
        dsimp only [BTreeNode.isEmpty]
        rw [hnode.entries, hnode.entryCount]
    | internal =>
      dsimp only
      rw [hnode.findInsertPosition]
      cases hchild : node.children[node.findInsertPosition key]? with
      | none => exact Refines.throw _ _
      | some c =>
        obtain ⟨childId, hchildId, hc⟩ := hnode.child hchild
        rw [hchildId]
        refine (refines_loadNode hc).bind fun ρ₁ child child' hρ₁ hchild' => ?_
        refine (ih (Naming.mono hρ₁ hc) hchild').bind ?_
        rintro ρ₂ ⟨child, value, merge⟩ ⟨child', _⟩ hρ₂ ⟨hchild₂, rfl, -⟩
        have h₂ := hρ₁.trans hρ₂
        dsimp only at hchild₂ ⊢
        split
        · refine (refines_handleUnderflow (hnode.mono h₂) _).bind ?_
          rintro ρ₃ _ _ hρ₃ ⟨rfl, rfl⟩
          have h₃ := h₂.trans hρ₃
          refine (refines_saveNode hcapacity (Naming.mono h₃ hid) (hnode.mono h₃)).bind ?_
          exact fun ρ₄ _ _ hρ₄ _ =>
            Refines.pure ⟨hnode.mono (h₃.trans hρ₄), rfl, fun hmerge => by cases hmerge⟩
        · refine (refines_saveNode hcapacity (Naming.mono h₂ hc) hchild₂).bind ?_
          exact fun ρ₃ _ _ hρ₃ _ =>
            Refines.pure ⟨hnode.mono (h₂.trans hρ₃), rfl, fun hmerge => by cases hmerge⟩

end Nodes

/-! ## Calls on trees -/

end PooledBTree

namespace BTree

/-! `depth` is how deep calls may nest in a tree. In `insert`, `search` and `delete` it is the number of
pages. -/

variable (capacity : ℕ) (depth : BTree → ℕ)

/-- `insert`, with calls that nest up to a depth. -/
def insertTo (key : BTreeKey) (value : BTreeValue) : Call Unit := do
  let rootNode ← loadNode (← get).rootPageId
  let rootNode ← splitFullRoot capacity rootNode
  let t ← get
  insertIntoNode capacity key value (depth t) t.rootPageId rootNode

/-- `delete`, with calls that nest up to a depth. -/
def deleteTo (key : BTreeKey) : Call (Option BTreeValue) := do
  let t ← get
  let rootNode ← loadNode t.rootPageId
  let (rootNode, deletedValue, shouldMergeRoot) ←
    deleteFromNode capacity key (depth t) t.rootPageId rootNode
  match shouldMergeRoot, rootNode.children with
  | true, newRootId :: _ =>
    deletePage t.rootPageId
    modify fun t => { t with rootPageId := newRootId }
    return deletedValue
  | _, _ => return deletedValue

/-- `search`, with calls that nest up to a depth. -/
def searchTo (t : BTree) (key : BTreeKey) : Result (Option BTreeValue) :=
  match t.readNode t.rootPageId with
  | .ok node => t.searchInNode key (depth t) node
  | .error e => .error e

theorem insertTo_totalPages (key : BTreeKey) (value : BTreeValue) :
    insertTo capacity totalPages key value = insert capacity key value := rfl

theorem deleteTo_totalPages (key : BTreeKey) : deleteTo capacity totalPages key = delete capacity key := rfl

theorem searchTo_totalPages (t : BTree) (key : BTreeKey) : t.searchTo totalPages key = t.search key := rfl

/-- Make one call, for its value. -/
def callTo : PooledBTree.TreeOp → Call (Option BTreeValue)
  | .insert key value => do
    insertTo capacity depth key value
    return none
  | .search key => PooledBTree.asks fun t => t.searchTo depth key
  | .delete key => deleteTo capacity depth key

end BTree

namespace PooledBTree

variable {n : ℕ} {φ : Type} [FileManager φ] [LawfulFileManager φ] {capacity : ℕ} {ρ : Naming}
  {t t' : PooledBTree n φ} {b : BTree}

/-- The tree has the nodes of a tree of pages, under other names. -/
structure Represents (capacity : ℕ) (ρ : Naming) (t : PooledBTree n φ) (b : BTree) : Prop where
  pages : Holds capacity b.rootPageId ρ t.bufferManager b
  root : ρ b.rootPageId t.rootPageId

theorem refines_onPages {α α' : Type} {V : Naming → α → α' → Prop} {act : PageCall n φ α}
    {act' : BTree.Call α'} (h : ∀ root, Refines (Holds capacity root) V ρ act act') :
    Refines (Represents capacity) V ρ (onPages act) act' := by
  intro t b hb a t' hrun
  cases hact : act t.bufferManager with
  | error e m =>
    rw [onPages, hact] at hrun
    cases hrun
  | ok x m =>
    rw [onPages, hact] at hrun
    cases hrun
    obtain ⟨ρ₁, hρ₁, a', b', hrun', hV, hpages⟩ := h b.rootPageId t.bufferManager b hb.pages a m hact
    have hroot := hpages.root_eq
    refine ⟨ρ₁, hρ₁, a', b', hrun', hV, hroot ▸ hpages, ?_⟩
    rw [hroot]
    exact hρ₁ _ _ hb.root

/-- Another page becomes the root. -/
theorem Represents.withRoot (h : Represents capacity ρ t b) {id : ℕ} {p : PageId} (hid : ρ id p) :
    Represents capacity ρ { t with rootPageId := p } { b with rootPageId := id } where
  pages := ⟨rfl, h.pages.unique, h.pages.injective, h.pages.allocated, h.pages.blank, h.pages.pages⟩
  root := hid

theorem refines_search {depth : ℕ} (key : BTreeKey) :
    Refines (Represents capacity) (fun _ v v' => v = v') ρ
      (search depth key : Call n φ (Option BTreeValue)) (asks fun b => b.searchTo (fun _ => depth) key) := by
  intro t b hb a t' hrun
  have hasks : asks (fun b => b.searchTo (fun _ => depth) key) b = (do
      let node ← BTree.loadNode b.rootPageId
      asks fun b => b.searchInNode key depth node : BTree.Call (Option BTreeValue)) b := by
    unfold asks BTree.loadNode BTree.searchTo
    cases hread : b.readNode b.rootPageId <;> simp [bind, EStateM.bind, hread]
  have hsearch : Refines (Represents capacity) (fun _ v v' => v = v') ρ (do
      let node ← onPages (loadNode t.rootPageId)
      onPages (searchInNode key depth node) : Call n φ (Option BTreeValue)) _ :=
    (refines_onPages fun _ => refines_loadNode hb.root).bind fun _ _ _ _ hnode =>
      refines_onPages fun _ => refines_searchInNode key hnode
  rw [hasks]
  exact hsearch t b hb a t' hrun

section Trees

variable [BlankPages φ capacity] {pageSize depth : ℕ}

theorem refines_splitRoot {rootNode rootNode' : BTreeNode} (hroot : Renamed ρ rootNode rootNode') :
    Refines (Represents capacity) Renamed ρ (splitRoot pageSize rootNode : Call n φ BTreeNode)
      (BTree.splitRoot capacity rootNode') := by
  have hcapacity : capacity < 2 ^ 64 := BlankPages.capacity_lt φ
  unfold splitRoot BTree.splitRoot
  refine Refines.get_bind fun t b hb => ?_
  refine (refines_onPages fun _ => refines_newPage _).bind fun ρ₁ newRootId newRootId' hρ₁ hnew => ?_
  refine (refines_onPages fun _ => refines_onNode fun _ hsplit => (hroot.mono hρ₁).split hsplit).bind ?_
  rintro ρ₂ ⟨left, right, separator⟩ ⟨left', right', _⟩ hρ₂ ⟨hleft, hright, rfl⟩
  dsimp only at hleft hright ⊢
  have h₂ := hρ₁.trans hρ₂
  refine (refines_onPages fun _ => refines_saveNode hcapacity (Naming.mono h₂ hb.root) hleft).bind
    fun ρ₃ _ _ hρ₃ _ => ?_
  refine (refines_onPages fun _ => refines_newPage _).bind fun ρ₄ rightId rightId' hρ₄ hid => ?_
  have h₄ := hρ₃.trans hρ₄
  refine (refines_onPages fun _ => refines_saveNode hcapacity hid (hright.mono h₄)).bind
    fun ρ₅ _ _ hρ₅ _ => ?_
  have h₅ := h₄.trans hρ₅
  have hnewRoot : Renamed ρ₅ { BTreeNode.new .internal with
      entryCount := 1, entries := [separator], children := [t.rootPageId.toNat, rightId.toNat] }
      { BTreeNode.new .internal with
        entryCount := 1, entries := [separator], children := [b.rootPageId, rightId'] } :=
    ⟨rfl, .cons ⟨_, rfl, Naming.mono (h₂.trans h₅) hb.root⟩ (.cons ⟨_, rfl, Naming.mono hρ₅ hid⟩ .nil),
      rfl, nofun, rfl, rfl⟩
  refine (refines_onPages fun _ => refines_saveNode hcapacity (Naming.mono (hρ₂.trans h₅) hnew)
    hnewRoot).bind fun ρ₆ _ _ hρ₆ _ => ?_
  have hid₆ := Naming.mono ((hρ₂.trans h₅).trans hρ₆) hnew
  refine (Refines.modify (V := fun _ _ _ => True) trivial fun _ _ h => h.withRoot hid₆).bind ?_
  exact fun ρ₇ _ _ hρ₇ _ => Refines.pure (hnewRoot.mono (hρ₆.trans hρ₇))

theorem refines_splitFullRoot {rootNode rootNode' : BTreeNode} (hroot : Renamed ρ rootNode rootNode') :
    Refines (Represents capacity) Renamed ρ (splitFullRoot pageSize rootNode : Call n φ BTreeNode)
      (BTree.splitFullRoot capacity rootNode') := by
  unfold splitFullRoot BTree.splitFullRoot
  rw [hroot.isFull]
  split
  · exact refines_splitRoot hroot
  · exact Refines.pure hroot

theorem refines_insert (key : BTreeKey) (value : BTreeValue) :
    Refines (Represents capacity) (fun _ _ _ => True) ρ (insert pageSize depth key value : Call n φ Unit)
      (BTree.insertTo capacity (fun _ => depth) key value) := by
  unfold insert BTree.insertTo
  refine Refines.get_bind fun t b hb => ?_
  refine (refines_onPages fun _ => refines_loadNode hb.root).bind fun ρ₁ rootNode rootNode' _ hroot => ?_
  refine (refines_splitFullRoot hroot).bind fun ρ₂ rootNode₂ rootNode₂' _ hroot₂ => ?_
  exact Refines.get_bind fun t₂ b₂ hb₂ =>
    refines_onPages fun _ => refines_insertIntoNode key value hb₂.root hroot₂

theorem refines_delete (key : BTreeKey) :
    Refines (Represents capacity) (fun _ v v' => v = v') ρ
      (delete pageSize depth key : Call n φ (Option BTreeValue)) (BTree.deleteTo capacity (fun _ => depth) key) := by
  unfold delete BTree.deleteTo
  refine Refines.get_bind fun t b hb => ?_
  refine (refines_onPages fun _ => refines_loadNode hb.root).bind fun ρ₁ rootNode rootNode' hρ₁ hroot => ?_
  refine (refines_onPages fun _ => refines_deleteFromNode key (Naming.mono hρ₁ hb.root) hroot).bind ?_
  rintro ρ₂ ⟨rootNode, deletedValue, shouldMergeRoot⟩ ⟨rootNode', _⟩ - ⟨hroot₂, rfl, hleaf⟩
  dsimp only at hroot₂ hleaf ⊢
  cases hmerge : shouldMergeRoot with
  | false => exact Refines.pure rfl
  | true =>
    -- an empty leaf has no child that could become the root
    have hchildren : rootNode.children = [] := hroot₂.leaf (hleaf hmerge)
    have hchildren' : rootNode'.children = [] := by
      rw [← List.length_eq_zero_iff, ← hroot₂.children.length_eq, hchildren, List.length_nil]
    rw [hchildren, hchildren']
    exact Refines.pure rfl

theorem refines_call (op : TreeOp) :
    Refines (Represents capacity) (fun _ v v' => v = v') ρ (call pageSize depth op : Call n φ _)
      (BTree.callTo capacity (fun _ => depth) op) := by
  cases op with
  | insert key value => exact (refines_insert key value).bind fun _ _ _ _ _ => Refines.pure rfl
  | search key => exact refines_search key
  | delete key => exact refines_delete key

variable (capacity) in
/-- A new tree is a new tree of pages, whatever number its root has there. -/
theorem represents_create {fm : φ} (hgood : LawfulFileManager.Good fm) {p : PageId}
    {m : BufferPoolManager n φ} (hrun : create (BufferPoolManager.new n fm) = .ok p m) (id : ℕ) :
    ∃ ρ, Represents capacity ρ ⟨p, m⟩ (BTree.new id) := by
  have hempty : Holds capacity id (fun _ _ => False) (BufferPoolManager.new n fm)
      ⟨id, fun _ => none, id⟩ :=
    ⟨rfl, nofun, nofun, nofun, fun _ _ => rfl, _, coherent_new n hgood, nofun⟩
  obtain ⟨p', m₁, hnew, hrun⟩ := bind_eq_ok.mp hrun
  obtain ⟨root, m₂, hfetch, hrun⟩ := bind_eq_ok.mp hrun
  obtain ⟨_, m₃, hrequire, hrun⟩ := bind_eq_ok.mp hrun
  obtain ⟨_, m₄, hmodify, hrun⟩ := bind_eq_ok.mp hrun
  obtain ⟨_, m₅, hunpin, hp⟩ := bind_eq_ok.mp hrun
  cases hp
  obtain ⟨ρ, -, id', b, hnew', hid, hpages⟩ := refines_newPage .bTreeInternal _ _ hempty p m₁ hnew
  cases hnew'
  obtain ⟨-, hlength, -⟩ := hpages.fetched hid hfetch
  obtain ⟨hfits, rfl⟩ := require_eq_ok.mp hrequire
  have hwritten : HoldsNode capacity ρ (withEmptyLeaf root) (.new .leaf) := by
    refine ⟨?_, .new .leaf, readNode_withEmptyLeaf (hlength ▸ BlankPages.capacity_lt φ), .new ρ .leaf⟩
    rw [withEmptyLeaf, List.length_append, List.length_drop, ← hlength]
    omega
  refine ⟨ρ, (hpages.written hid hfetch hmodify hunpin hwritten).congr rfl rfl ?_, hid⟩
  rw [BTree.nodeAt_withNode]
  exact (Function.update_eq_self_iff.mpr rfl).symm

variable (capacity) in
/-- In every run of calls on a new tree that all return, whatever pages are evicted and written back in
between, every call returns what it returns on the tree of pages. -/
theorem calls_eq {fm : φ} (hgood : LawfulFileManager.Good fm) {p : PageId} {m : BufferPoolManager n φ}
    (hcreate : create (BufferPoolManager.new n fm) = .ok p m) (ops : List TreeOp)
    {values : List (Option BTreeValue)} {t : PooledBTree n φ}
    (hrun : calls (call pageSize depth) ops ⟨p, m⟩ = .ok values t) (id : ℕ) :
    ∃ b, calls (BTree.callTo capacity fun _ => depth) ops (BTree.new id) = .ok values b ∧
      ∃ ρ, Represents capacity ρ t b := by
  obtain ⟨ρ, hnew⟩ := represents_create capacity hgood hcreate id
  obtain ⟨ρ', -, _, b, hrun', rfl, ht⟩ :=
    Refines.calls (fun _ => refines_call) ρ ops _ _ hnew values t hrun
  exact ⟨b, hrun', ρ', ht⟩

end Trees

/-- In a pool of one frame, a pair is inserted and found as in the tree of pages. -/
theorem calls_eq_onePair : ∃ m values t b, create (BufferPoolManager.new 1 MockFileManager.new) = .ok 1 m ∧
    calls (call 8192 1) [.insert [1] 2, .search [1]] ⟨1, m⟩ = .ok values t ∧
      calls (BTree.callTo 8192 fun _ => 1) [.insert [1] 2, .search [1]] (BTree.new 1) = .ok values b ∧
        ∃ ρ, Represents 8192 ρ t b := by
  have hnew : ∃ m, newPage .bTreeInternal (BufferPoolManager.new 1 MockFileManager.new) = .ok 1 m := ⟨_, rfl⟩
  obtain ⟨m, hnew⟩ := hnew
  have hops : AllFit 8192 [] [.insert [1] 2, .search [1]] :=
    ⟨⟨List.forall_mem_nil _, by decide, by decide⟩, trivial, trivial⟩
  have hcapacity : 30 ≤ 8192 := by decide
  obtain ⟨m', hcreate, hleaf⟩ := create_returns good_mock hcapacity hnew
  obtain ⟨t, hrun, -⟩ := calls_oneLeaf hleaf (by decide) (by decide) hops
  obtain ⟨b, hrun', hb⟩ := calls_eq 8192 good_mock hcreate _ hrun 1
  exact ⟨m', _, t, b, hcreate, hrun, hrun', hb⟩

end PooledBTree

end Rustgresql
