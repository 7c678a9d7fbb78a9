import Rustgresql.Storage.BTree.Pooled

/-!
# The pins that a B-tree leaves

`load_node` pins the page that it reads and never unpins it, while `save_node` takes off the pin that
it puts on. So no call on a B-tree takes a pin away, apart from the one that deletes its root page, and
every call that gets hold of the root page leaves a pin more.
-/

namespace Rustgresql

open StateSpec BufferPoolManager

namespace PooledBTree

variable {n : ℕ} {φ : Type}

/-! ## Calls on pages -/

/-- Every frame is pinned at least that often. -/
def AtLeast (q : Fin n → ℕ) (m : BufferPoolManager n φ) : Prop := q ≤ pins m

variable {q : Fin n → ℕ}

theorem keeps_onNode {α : Type} (I : BufferPoolManager n φ → Prop) (r : Result α) :
    Keeps I (onNode r) := by
  intro m hm
  unfold Spec onNode
  cases r <;> exact hm

theorem keeps_modifyPage {I : BufferPoolManager n φ → Prop}
    (hI : ∀ m m' : BufferPoolManager n φ, pins m' = pins m →
      m'.bufferPool.pageToFrame = m.bufferPool.pageToFrame → I m → I m') (p : PageId) (page : Page) :
    Keeps I (modifyPage p page) := by
  refine Keeps.get_bind fun m => ?_
  split
  · intro m' hm'
    exact (pins_setFrame rfl).mono (fun _ m'' h => hI m' m'' h.1 h.2 hm') fun _ _ h => h.elim
  · exact Keeps.pure ()

section Calls

variable [FileManager φ] {pageSize depth : ℕ}

theorem keeps_fetchPage (p : PageId) : Keeps (AtLeast (φ := φ) q) (fetchPage p) := by
  intro m hm
  exact (pins_fetchPage p m).mono (fun _ _ h => le_trans hm h.2.1.le) fun _ _ h => le_trans hm h.le

theorem keeps_newPage (t : PageType) : Keeps (AtLeast (φ := φ) q) (newPage t) := fun m hm =>
  (pins_newPage t m).mono (fun _ _ h => le_trans hm h) fun _ _ h => le_trans hm h

theorem keeps_loadNode (p : PageId) : Keeps (AtLeast (φ := φ) q) (loadNode p) :=
  (keeps_fetchPage p).bind fun _ => keeps_onNode _ _

/-- Saving a node unpins what it has pinned. -/
theorem keeps_saveNode (p : PageId) (node : BTreeNode) :
    Keeps (AtLeast (φ := φ) q) (saveNode pageSize p node) := by
  intro m hm
  -- between the fetch and the unpin, the frame of the page has a pin to spare
  let I : BufferPoolManager n φ → Prop := fun m' => q ≤ pins m' ∧
    ∃ i, m'.bufferPool.pageToFrame.lookup p = some i ∧ q i < pins m' i
  have hweak : ∀ m', I m' → AtLeast q m' := fun m' h => h.1
  have hfetch : Spec (fetchPage p) m (fun _ => I) (fun _ => AtLeast q) := by
    refine (pins_fetchPage p m).mono ?_ fun _ _ h => le_trans hm h.le
    rintro _ m' ⟨-, hlt, i, hi, hmore⟩
    exact ⟨le_trans hm hlt.le, i, hi, (hm i).trans_lt hmore⟩
  refine hfetch.bind fun page m₁ h₁ => ?_
  refine ((keeps_onNode I _ m₁ h₁).mono (fun _ _ h => h) fun _ m' h => hweak m' h).bind ?_
  intro page' m₂ h₂
  have hmodify : Keeps I (modifyPage p page') := by
    refine keeps_modifyPage (fun m m' hpins hmap h => ?_) p page'
    exact ⟨hpins ▸ h.1, by rw [hmap, hpins]; exact h.2⟩
  refine ((hmodify m₂ h₂).mono (fun _ _ h => h) fun _ m' h => hweak m' h).bind ?_
  rintro _ m₃ ⟨h₃, i, hi, hmore⟩
  refine pins_unpinPage true h₃ fun j hj => ?_
  cases hi.symm.trans hj
  exact hmore

theorem keeps_searchInNode (key : BTreeKey) (node : BTreeNode) :
    Keeps (AtLeast (φ := φ) q) (searchInNode key depth node) := by
  induction depth generalizing node with
  | zero => exact Keeps.throw _
  | succ depth ih =>
    unfold searchInNode
    split
    · exact Keeps.pure _
    · dsimp only
      split
      · exact Keeps.throw _
      · exact (keeps_loadNode _).bind fun childNode => ih childNode

theorem keeps_insertIntoNode (key : BTreeKey) (value : BTreeValue) (id : PageId) (node : BTreeNode) :
    Keeps (AtLeast (φ := φ) q) (insertIntoNode pageSize key value depth id node) := by
  induction depth generalizing id node with
  | zero => exact Keeps.throw _
  | succ depth ih =>
    unfold insertIntoNode
    split
    · exact (keeps_onNode _ _).bind fun _ => keeps_saveNode _ _
    · dsimp only
      split
      · exact Keeps.throw _
      · refine (keeps_loadNode _).bind fun childNode => ?_
        split
        · -- the child is split
          refine (keeps_onNode _ _).bind ?_
          rintro ⟨left, right, separator⟩
          refine (keeps_saveNode _ _).bind fun _ => (keeps_newPage _).bind fun rightPageId => ?_
          refine (keeps_saveNode _ _).bind fun _ => (keeps_saveNode _ _).bind fun _ => ?_
          split
          · exact ih _ _
          · exact ih _ _
        · exact (keeps_saveNode _ _).bind fun _ => ih _ _

theorem keeps_canLend (node : BTreeNode) (siblingIdx : ℕ) :
    Keeps (AtLeast (φ := φ) q) (canLend node siblingIdx) := by
  unfold canLend
  split
  · exact Keeps.throw _
  · exact (keeps_loadNode _).bind fun _ => Keeps.pure _

/-- Nothing is ever borrowed or merged. -/
theorem spec_handleUnderflow {m : BufferPoolManager n φ} (hm : AtLeast q m) (node : BTreeNode)
    (childIdx : ℕ) :
    Spec (handleUnderflow node childIdx) m (fun merged m' => merged = false ∧ AtLeast q m')
      (fun _ => AtLeast q) := by
  have hleft : Keeps (AtLeast (φ := φ) q) (leftLends node childIdx) := by
    unfold leftLends
    split
    · exact keeps_canLend _ _
    · exact Keeps.pure _
  have hright : Keeps (AtLeast (φ := φ) q) (rightLends node childIdx) := by
    unfold rightLends
    split
    · exact keeps_canLend _ _
    · exact Keeps.pure _
  unfold handleUnderflow
  refine (hleft m hm).bind fun _ m₁ h₁ => ?_
  split
  · exact ⟨rfl, h₁⟩
  · refine (hright m₁ h₁).bind fun _ m₂ h₂ => ?_
    split
    · exact ⟨rfl, h₂⟩
    · split <;> exact ⟨rfl, h₂⟩

/-- Only a leaf asks for a merge, and it keeps its children. -/
theorem spec_deleteFromNode {m : BufferPoolManager n φ} (hm : AtLeast q m) (key : BTreeKey)
    (id : PageId) (node : BTreeNode) :
    Spec (deleteFromNode pageSize key depth id node) m
      (fun r m' => AtLeast q m' ∧
        (r.2.2 = true → node.nodeType = .leaf ∧ r.1.children = node.children))
      (fun _ => AtLeast q) := by
  induction depth generalizing m id node with
  | zero => exact hm
  | succ depth ih =>
    unfold deleteFromNode
    split
    · next hleaf =>
      split
      · refine (Keeps.require _ _ m hm).bind fun _ m₁ h₁ => ?_
        refine (keeps_saveNode _ _ m₁ h₁).bind fun _ m₂ h₂ => ?_
        exact ⟨h₂, fun _ => ⟨hleaf, rfl⟩⟩
      · exact ⟨hm, nofun⟩
    · dsimp only
      split
      · exact hm
      · refine (keeps_loadNode _ m hm).bind fun childNode m₁ h₁ => ?_
        refine (ih h₁ _ childNode).bind ?_
        rintro ⟨childNode, deletedValue, childNeedsMerge⟩ m₂ ⟨h₂, -⟩
        dsimp only
        split
        · refine (spec_handleUnderflow h₂ node _).bind ?_
          rintro _ m₃ ⟨rfl, h₃⟩
          exact (keeps_saveNode _ _ m₃ h₃).bind fun _ m₄ h₄ => ⟨h₄, nofun⟩
        · exact (keeps_saveNode _ _ m₂ h₂).bind fun _ m₃ h₃ => ⟨h₃, nofun⟩

end Calls

/-! ## Calls on trees -/

variable {t : PooledBTree n φ}

theorem spec_onPages {α : Type} {act : PageCall n φ α} {Q : α → BufferPoolManager n φ → Prop}
    {E : Failure → BufferPoolManager n φ → Prop} (h : Spec act t.bufferManager Q E) :
    Spec (onPages act) t
      (fun a t' => t'.rootPageId = t.rootPageId ∧ Q a t'.bufferManager)
      (fun e t' => E e t'.bufferManager) := by
  unfold Spec at h ⊢
  unfold onPages
  cases hrun : act t.bufferManager with
  | ok a m =>
    rw [hrun] at h
    exact ⟨rfl, h⟩
  | error e m =>
    rw [hrun] at h
    exact h

/-- Every frame of the tree's pool is pinned at least that often. -/
def TreeAtLeast (q : Fin n → ℕ) (t : PooledBTree n φ) : Prop := AtLeast q t.bufferManager

theorem keeps_onPages {α : Type} {act : PageCall n φ α} (h : Keeps (AtLeast q) act) :
    Keeps (TreeAtLeast q) (onPages act) :=
  fun _ ht => (spec_onPages (h _ ht)).mono (fun _ _ h => h.2) fun _ _ h => h

section Calls

variable [FileManager φ] {pageSize depth : ℕ}

theorem keeps_splitFullRoot (rootNode : BTreeNode) :
    Keeps (TreeAtLeast (φ := φ) q) (splitFullRoot pageSize rootNode) := by
  unfold splitFullRoot
  split
  · refine Keeps.get_bind fun t => (keeps_onPages (keeps_newPage _)).bind fun newRootId => ?_
    refine (keeps_onPages (keeps_onNode _ _)).bind ?_
    rintro ⟨left, right, separator⟩
    refine (keeps_onPages (keeps_saveNode _ _)).bind fun _ => ?_
    refine (keeps_onPages (keeps_newPage _)).bind fun rightPageId => ?_
    refine (keeps_onPages (keeps_saveNode _ _)).bind fun _ => ?_
    refine (keeps_onPages (keeps_saveNode _ _)).bind fun _ => ?_
    refine Keeps.bind ?_ fun _ => Keeps.pure _
    exact Keeps.modify fun _ h => h
  · exact Keeps.pure _

/-- The root page cannot be fetched. -/
def RootUnfetchable (t : PooledBTree n φ) : Prop := Unfetchable t.rootPageId t.bufferManager

/-- How a call on a tree changes the pins. -/
def TreeCounted (t t' : PooledBTree n φ) : Prop :=
  Counted t.rootPageId t.bufferManager t'.bufferManager

/-- The call is a deletion, and the root is a leaf that has children. -/
def MayDropRoot (op : TreeOp) (t : PooledBTree n φ) : Prop :=
  ∃ key node m, op = .delete key ∧ loadNode t.rootPageId t.bufferManager = .ok node m ∧
    node.nodeType = .leaf ∧ node.children ≠ []

/-- A call that has loaded the root has pinned a frame. -/
theorem spec_loadRoot (t : PooledBTree n φ) :
    Spec (onPages (loadNode t.rootPageId)) t
      (fun node t' => t'.rootPageId = t.rootPageId ∧ ¬ RootUnfetchable t ∧
        pins t.bufferManager < pins t'.bufferManager ∧
        loadNode t.rootPageId t.bufferManager = .ok node t'.bufferManager)
      (fun _ t' => TreeCounted t t') := by
  apply spec_onPages (E := fun _ => Counted t.rootPageId t.bufferManager)
    (Q := fun node m => ¬ RootUnfetchable t ∧ pins t.bufferManager < pins m ∧
      loadNode t.rootPageId t.bufferManager = .ok node m)
  have hspec : Spec (loadNode t.rootPageId) t.bufferManager
      (fun _ m' => ¬ RootUnfetchable t ∧ pins t.bufferManager < pins m')
      (fun _ m' => Counted t.rootPageId t.bufferManager m') := by
    refine (pins_fetchPage _ _).bind fun page m₁ h₁ => ?_
    refine (keeps_onNode (fun m' => ¬ RootUnfetchable t ∧ pins t.bufferManager < pins m') _ m₁
      ⟨h₁.1, h₁.2.1⟩).mono (fun _ _ h => h) fun _ _ h => .inr h
  unfold Spec at hspec ⊢
  cases hrun : loadNode t.rootPageId t.bufferManager with
  | ok node m' =>
    rw [hrun] at hspec
    exact ⟨hspec.1, hspec.2, rfl⟩
  | error e m' =>
    rw [hrun] at hspec
    exact hspec

theorem treeCounted_of_atLeast {t' t'' : PooledBTree n φ} (hnot : ¬ RootUnfetchable t)
    (hlt : pins t.bufferManager < pins t'.bufferManager)
    (h : TreeAtLeast (pins t'.bufferManager) t'') : TreeCounted t t'' :=
  .inr ⟨hnot, hlt.trans_le h⟩

theorem counted_insert (key : BTreeKey) (value : BTreeValue) (t : PooledBTree n φ) :
    Spec (insert pageSize depth key value) t (fun _ => TreeCounted t) (fun _ => TreeCounted t) := by
  refine Spec.bind (Q := fun s t' => t = s ∧ t = t') ⟨rfl, rfl⟩ ?_
  rintro _ _ ⟨rfl, rfl⟩
  refine (spec_loadRoot t).bind ?_
  rintro rootNode t₁ ⟨-, hnot, hlt, -⟩
  have hrest : Keeps (TreeAtLeast (pins t₁.bufferManager)) (do
      let rootNode ← splitFullRoot pageSize rootNode
      onPages (insertIntoNode pageSize key value depth (← get).rootPageId rootNode) :
        Call n φ Unit) :=
    (keeps_splitFullRoot rootNode).bind fun _ => Keeps.get_bind fun _ =>
      keeps_onPages (keeps_insertIntoNode key value _ _)
  exact (hrest t₁ (le_refl _)).mono (fun _ _ h => treeCounted_of_atLeast hnot hlt h)
    fun _ _ h => treeCounted_of_atLeast hnot hlt h

theorem counted_search (key : BTreeKey) (t : PooledBTree n φ) :
    Spec (search depth key) t (fun _ => TreeCounted t) (fun _ => TreeCounted t) := by
  refine Spec.bind (Q := fun s t' => t = s ∧ t = t') ⟨rfl, rfl⟩ ?_
  rintro _ _ ⟨rfl, rfl⟩
  refine (spec_loadRoot t).bind ?_
  rintro node t₁ ⟨-, hnot, hlt, -⟩
  refine (keeps_onPages (keeps_searchInNode key node) t₁ (le_refl _)).mono ?_ ?_
  · exact fun _ _ h => treeCounted_of_atLeast hnot hlt h
  · exact fun _ _ h => treeCounted_of_atLeast hnot hlt h

theorem counted_delete (key : BTreeKey) (t : PooledBTree n φ) :
    Spec (delete pageSize depth key) t
      (fun _ t' => TreeCounted t t' ∨ MayDropRoot (.delete key) t)
      (fun _ t' => TreeCounted t t' ∨ MayDropRoot (.delete key) t) := by
  refine Spec.bind (Q := fun s t' => t = s ∧ t = t') ⟨rfl, rfl⟩ ?_
  rintro _ _ ⟨rfl, rfl⟩
  refine ((spec_loadRoot t).mono (fun _ _ h => h) fun _ _ h => .inl h).bind ?_
  rintro rootNode t₁ ⟨-, hnot, hlt, hload⟩
  have hdelete : Spec (onPages (deleteFromNode pageSize key depth t.rootPageId rootNode)) t₁ _ _ :=
    spec_onPages (spec_deleteFromNode (le_refl (pins t₁.bufferManager)) key t.rootPageId rootNode)
  refine (hdelete.mono (fun _ _ h => h) fun _ _ h =>
    .inl (treeCounted_of_atLeast hnot hlt h)).bind ?_
  rintro ⟨rootNode', deletedValue, shouldMergeRoot⟩ t₂ ⟨-, hpins, hmerge⟩
  have hcounted : TreeCounted t t₂ := treeCounted_of_atLeast hnot hlt hpins
  dsimp only
  split
  · next newRootId rest hchildren =>
    obtain ⟨hleaf, hsame⟩ := hmerge rfl
    have hdrop : MayDropRoot (.delete key) t := by
      refine ⟨key, rootNode, _, rfl, hload, hleaf, ?_⟩
      rw [← hsame, hchildren]
      exact List.cons_ne_nil _ _
    exact (Keeps.true _ t₂ trivial).mono (fun _ _ _ => .inr hdrop) fun _ _ _ => .inr hdrop
  · exact .inl hcounted

/-- A call leaves a pin more if it can fetch the root page, and changes no pin if it cannot. -/
theorem counted_step (op : TreeOp) (t : PooledBTree n φ) :
    TreeCounted t (final (step pageSize depth op) t) ∨ MayDropRoot op t := by
  cases op with
  | insert key value => exact .inl (counted_insert key value t).final
  | search key =>
    rw [step, final_discard]
    exact .inl (counted_search key t).final
  | delete key =>
    rw [step, final_discard]
    exact (counted_delete key t).final (I := fun t' => TreeCounted t t' ∨ MayDropRoot (.delete key) t)

/-- A deletion that cannot fetch the root page does not drop it. -/
theorem not_mayDropRoot {op : TreeOp} (h : RootUnfetchable t) : ¬ MayDropRoot op t := by
  rintro ⟨key, node, m, rfl, hload, -, -⟩
  obtain ⟨page, m₁, hfetch, -⟩ := bind_eq_ok.mp hload
  exact ((pins_fetchPage _ _).post hfetch).1 h

/-- Every call of a run leaves every frame as often pinned as it was before the call. -/
def PinBalanced (pageSize depth : ℕ) (ops : List TreeOp) (t : PooledBTree n φ) : Prop :=
  ∀ pre op post, ops = pre ++ op :: post →
    pins (final (step pageSize depth op) (run pageSize depth pre t)).bufferManager =
      pins (run pageSize depth pre t).bufferManager

/-- A run of calls is balanced if none of them can fetch the root page. Conversely, in a balanced run
no call can, apart from deletions whose root is a leaf that has children. -/
theorem pinBalanced_rootUnfetchable (pageSize depth : ℕ) (ops : List TreeOp) (t : PooledBTree n φ) :
    ((∀ pre op post, ops = pre ++ op :: post → RootUnfetchable (run pageSize depth pre t)) →
        PinBalanced pageSize depth ops t) ∧
      (PinBalanced pageSize depth ops t → ∀ pre op post, ops = pre ++ op :: post →
        RootUnfetchable (run pageSize depth pre t) ∨ MayDropRoot op (run pageSize depth pre t)) := by
  refine ⟨fun h pre op post hops => ?_, fun h pre op post hops => ?_⟩
  · have hroot := h pre op post hops
    rcases counted_step op (run pageSize depth pre t) with (⟨-, hsame⟩ | ⟨hnot, -⟩) | hdrop
    · exact hsame
    · exact (hnot hroot).elim
    · exact (not_mayDropRoot hroot hdrop).elim
  · rcases counted_step op (run pageSize depth pre t) with (⟨hroot, -⟩ | ⟨-, hmore⟩) | hdrop
    · exact .inl hroot
    · exact (hmore.ne (h pre op post hops).symm).elim
    · exact .inr hdrop

end Calls

/-- A tree with a new root page, in a pool with one frame. -/
def newTree : PooledBTree 1 MockFileManager :=
  ⟨1, BufferPoolManager.new 1 (final (do
    discard (FileManager.allocatePage .bTreeLeaf)
    discard (FileManager.allocatePage .bTreeLeaf) : EStateM Failure MockFileManager Unit) .new)⟩

theorem fetchPage_newTree : ∃ page m, fetchPage newTree.rootPageId newTree.bufferManager = .ok page m ∧
    page = .new 1 .bTreeLeaf 8192 ∧ pins m 0 = 1 ∧ ∃ m', fetchPage 2 m = .error noFrames m' :=
  ⟨_, _, rfl, rfl, rfl, _, rfl⟩

/-- A search whose root is an empty leaf does no more than fetch it. -/
theorem search_of_empty {φ : Type} [FileManager φ] {t : PooledBTree n φ} {page : Page}
    {m : BufferPoolManager n φ} (hfetch : fetchPage t.rootPageId t.bufferManager = .ok page m)
    (hread : readNode page = .ok (.new .leaf)) (pageSize depth : ℕ) (key : BTreeKey) :
    final (step pageSize (depth + 1) (.search key)) t = ⟨t.rootPageId, m⟩ := by
  have hload : onPages (loadNode t.rootPageId) t = .ok (.new .leaf) ⟨t.rootPageId, m⟩ := by
    rw [onPages, loadNode, bind_of_ok hfetch, hread]
    rfl
  have hsearch : search (depth + 1) key t = (do
      let node ← onPages (loadNode t.rootPageId)
      onPages (searchInNode key (depth + 1) node) : Call n φ (Option BTreeValue)) t := rfl
  rw [step, final_discard, final, hsearch, bind_of_ok hload]
  rfl

/-- After one search, the only frame stays pinned, and no other page finds a frame. -/
theorem search_exhausts_pool : ¬ PinBalanced 8192 1 [.search []] newTree ∧
    ∃ m, fetchPage 2 (run 8192 1 [.search []] newTree).bufferManager = .error noFrames m := by
  obtain ⟨page, m, hfetch, rfl, hpin, m', hfull⟩ := fetchPage_newTree
  have hstep := search_of_empty hfetch (readNode_new 1 .bTreeLeaf (by decide)) 8192 0 []
  refine ⟨fun h => ?_, m', ?_⟩
  · have hpins := h [] (.search []) [] rfl
    have hzero : pins newTree.bufferManager 0 = 0 := rfl
    rw [run, List.foldl_nil, hstep] at hpins
    rw [← hpins, hpin] at hzero
    exact one_ne_zero hzero
  · rw [run, List.foldl_cons, List.foldl_nil, hstep]
    exact hfull

end PooledBTree

end Rustgresql
