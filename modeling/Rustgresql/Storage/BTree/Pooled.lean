import Rustgresql.Lib.Wire
import Rustgresql.Storage.BTree
import Rustgresql.Storage.Buffer.Pins

/-!
# B-trees over the buffer pool (`storage/btree.rs`)

The calls on a B-tree, with every page of the buffer pool that they fetch, change and unpin. The nodes lie
in the pages in their `bincode` form.
-/

namespace Rustgresql

open StateSpec Wire BufferPoolManager

/-! ## Nodes on pages -/

/-- The variant index under which `bincode` stores a node type. -/
def BTreeNodeType.index : BTreeNodeType → UInt32
  | .leaf => 0
  | .internal => 1

/-- The node type stored under a variant index. -/
def BTreeNodeType.ofIndex (i : UInt32) : Option BTreeNodeType :=
  [BTreeNodeType.leaf, .internal].find? (·.index = i)

def BTreeNodeType.codec : Codec BTreeNodeType :=
  Codec.u32.via BTreeNodeType.index BTreeNodeType.ofIndex (by intro t; cases t <;> rfl)

/-- The `bincode` form of a key. -/
def BTreeKey.codec : Codec BTreeKey :=
  Codec.bytes.via (List.map UInt8.ofFin) (fun bs => some (bs.map UInt8.toFin)) fun key => by
    rw [List.map_map]
    exact congrArg some (List.map_id key)

/-- The `bincode` form of a node entry. -/
def BTreeEntry.codec : Codec BTreeEntry :=
  (BTreeKey.codec.seq Codec.u64).via (fun e => (e.key, e.value)) (fun p => some ⟨p.1, p.2⟩)
    (fun _ => rfl)

/-- The `bincode` form of a node: its fields in order. -/
def BTreeNode.codec : Codec BTreeNode :=
  (BTreeNodeType.codec.seq <| (Codec.fixed 8).seq <| BTreeEntry.codec.vec.seq <|
    (Codec.fixed 8).vec.seq <| (Codec.fixed 8).option.seq (Codec.fixed 8).option).via
    (fun node => (node.nodeType, node.entryCount, node.entries, node.children, node.prevLeaf,
      node.nextLeaf))
    (fun t => some ⟨t.1, t.2.1, t.2.2.1, t.2.2.2.1, t.2.2.2.2.1, t.2.2.2.2.2⟩)
    (fun _ => rfl)

theorem BTreeEntry.encode_length (e : BTreeEntry) :
    (BTreeEntry.codec.encode e).length = 8 + e.key.length + 8 := by
  simp only [BTreeEntry.codec, BTreeKey.codec, Codec.via, Codec.seq, Codec.bytes, List.length_append,
    Codec.u64_length, List.length_map]

/-- A node takes as many bytes as its serialized length says. -/
theorem BTreeNode.encode_length (node : BTreeNode) :
    (BTreeNode.codec.encode node).length = node.serializedLength := by
  have hfixed : ∀ x : ℕ, ((Codec.fixed 8).encode x).length = 8 := leBytes_length 8
  have hlink : ∀ o : Option ℕ, ((Codec.fixed 8).option.encode o).length =
      if o.isSome then 9 else 1 := by
    intro o
    cases o with
    | none => rfl
    | some x => exact congrArg (· + 1) (hfixed x)
  have hentries := BTreeEntry.codec.vec_length node.entries
  have hchildren := (Codec.fixed 8).vec_length node.children
  simp only [BTreeEntry.encode_length] at hentries
  simp only [hfixed, List.map_const', List.sum_replicate, smul_eq_mul] at hchildren
  simp only [BTreeNode.codec, BTreeNodeType.codec, Codec.via, Codec.seq, List.length_append,
    Codec.u32_length, hfixed, hlink, hentries, hchildren, BTreeNode.serializedLength]
  omega

theorem BTreeNode.encode_length_ge (node : BTreeNode) :
    30 ≤ (BTreeNode.codec.encode node).length := by
  rw [encode_length, serializedLength]
  dsimp only
  split <;> split <;> omega

theorem BTreeNode.valid_new : BTreeNode.codec.Valid (.new .leaf) := by
  refine ⟨Codec.u32_valid _, ?_⟩
  simp [Codec.seq, Codec.vec, Codec.option, Codec.fixed, new]

/-- Only an empty leaf is written as zeros. -/
theorem BTreeNode.eq_new_of_zeros {node : BTreeNode} (hvalid : BTreeNode.codec.Valid node)
    (h : (BTreeNode.codec.encode node).all (· == 0)) : node = .new .leaf := by
  obtain ⟨k, hk⟩ := Nat.exists_eq_add_of_le node.encode_length_ge
  have hzeros : BTreeNode.codec.encode node = List.replicate (30 + k) 0 := by
    rw [← hk]
    exact List.eq_replicate_of_mem fun b hb => by simpa using List.all_eq_true.mp h b hb
  have hempty : BTreeNode.codec.encode (.new .leaf) = List.replicate 30 0 := rfl
  have hdecode := BTreeNode.codec.decode_encode hvalid []
  rw [List.append_nil, hzeros, List.replicate_add, ← hempty,
    BTreeNode.codec.decode_encode valid_new] at hdecode
  exact (Prod.mk.inj (Option.some.inj hdecode)).1.symm

namespace PooledBTree

variable {n : ℕ} {φ : Type}

/-- A call on the pages of a tree. -/
abbrev PageCall (n : ℕ) (φ : Type) := BufferPoolManager.Call n φ

/-- The node in a page. A page without data holds an empty leaf. -/
def readNode (page : Page) : Result BTreeNode :=
  if page.data.length < page.header.freeBytes.toNat then
    .error (.panic "attempt to subtract with overflow")
  else
    let nodeSize := page.data.length - page.header.freeBytes.toNat
    let nodeBytes := page.data.take nodeSize
    if nodeSize = 0 ∨ nodeBytes.all (· == 0) then .ok (.new .leaf)
    else
      match BTreeNode.codec.deserialize nodeBytes with
      | some node => .ok node
      | none => .error (.err (.serialization bincodeErrorText))

/-- The page with a node. -/
def writeNode (pageSize : ℕ) (node : BTreeNode) (page : Page) : Result Page :=
  let nodeBytes := BTreeNode.codec.encode node
  if page.data.length < nodeBytes.length then .error (.err (.storage
    (s!"B-Tree node too large for page: {nodeBytes.length} bytes, " ++
      s!"max {page.data.length} bytes")))
  else
    let freeBytes := page.data.length - nodeBytes.length
    .ok (({ header := { page.header with freeBytes := .ofNat freeBytes }
            data := nodeBytes ++ List.replicate freeBytes 0 } : Page).updateChecksum pageSize)

/-- The page, when an empty leaf is copied to its start. -/
def withEmptyLeaf (root : Page) : Page :=
  let nodeBytes := BTreeNode.codec.encode (.new .leaf)
  let freeBytes := root.data.length - nodeBytes.length
  { header := { root.header with freeBytes := .ofNat freeBytes }
    data := nodeBytes ++ root.data.drop nodeBytes.length }

def onNode {α : Type} (r : Result α) : PageCall n φ α := fun m =>
  match r with
  | .ok a => .ok a m
  | .error e => .error e m

section Calls

variable [FileManager φ] (pageSize : ℕ)

/-- Load a B-Tree node from disk -/
def loadNode (pageId : PageId) : PageCall n φ BTreeNode := do
  let page ← fetchPage pageId
  onNode (readNode page)

/-- Save a B-Tree node to disk -/
def saveNode (pageId : PageId) (node : BTreeNode) : PageCall n φ Unit := do
  let page ← fetchPage pageId
  let page ← onNode (writeNode pageSize node page)
  modifyPage pageId page
  unpinPage pageId true

/-- The type of a page for a node. -/
def pageTypeOf (node : BTreeNode) : PageType :=
  if node.nodeType = .leaf then .bTreeLeaf else .bTreeInternal

/-- Insert a key-value pair into a node, up to a depth. -/
def insertIntoNode (key : BTreeKey) (value : BTreeValue) : ℕ → PageId → BTreeNode → PageCall n φ Unit
  | 0, _, _ => throw (.panic "stack overflow")
  | depth + 1, nodeId, node =>
    match node.nodeType with
    | .leaf => do
      let node ← onNode (node.insertEntry ⟨key, value⟩)
      saveNode pageSize nodeId node
    | .internal => do
      let childIdx := node.findInsertPosition key
      match node.children[childIdx]? with
      | none => throw (BTree.corruption childIdx node)
      | some child =>
        let childId := UInt64.ofNat child
        let childNode ← loadNode childId
        if childNode.isFull then
          let (childNode, rightNode, separator) ← onNode childNode.split
          saveNode pageSize childId childNode
          let rightPageId ← newPage (pageTypeOf rightNode)
          saveNode pageSize rightPageId rightNode
          let node := { node with
            entries := node.entries.insertIdx childIdx separator
            children := node.children.insertIdx (childIdx + 1) rightPageId.toNat
            entryCount := node.entryCount + 1 }
          saveNode pageSize nodeId node
          if key < separator.key then insertIntoNode key value depth childId childNode
          else insertIntoNode key value depth rightPageId rightNode
        else
          saveNode pageSize nodeId node
          insertIntoNode key value depth childId childNode

/-- Search for a key in a specific node, up to a depth. -/
def searchInNode (key : BTreeKey) : ℕ → BTreeNode → PageCall n φ (Option BTreeValue)
  | 0, _ => throw (.panic "stack overflow")
  | depth + 1, node =>
    match node.nodeType with
    | .leaf => pure ((node.findKey key).bind fun idx => node.entries[idx]?.map BTreeEntry.value)
    | .internal =>
      let childIdx := node.findInsertPosition key
      match node.children[childIdx]? with
      | none => throw (.err (.index (s!"B-Tree search: child_idx {childIdx} >= children.len() " ++
          s!"{node.children.length} (entries: {node.entries.length})")))
      | some child => do
        let childNode ← loadNode (.ofNat child)
        searchInNode key depth childNode

/-- Whether a sibling has entries to lend. -/
def canLend (node : BTreeNode) (siblingIdx : ℕ) : PageCall n φ Bool :=
  match node.children[siblingIdx]? with
  | none => throw (.panic
    s!"index out of bounds: the len is {node.children.length} but the index is {siblingIdx}")
  | some sibling => do
    let sibling ← loadNode (.ofNat sibling)
    return decide (minKeys < sibling.entryCount)

/-- Try to borrow from left sibling -/
def leftLends (node : BTreeNode) (childIdx : ℕ) : PageCall n φ Bool :=
  if 0 < childIdx then canLend node (childIdx - 1) else pure false

/-- Try to borrow from right sibling -/
def rightLends (node : BTreeNode) (childIdx : ℕ) : PageCall n φ Bool :=
  if childIdx < node.children.length - 1 then canLend node (childIdx + 1) else pure false

/-- Borrow from left sibling -/
def borrowFromLeft (_node : BTreeNode) (_childIdx : ℕ) : PageCall n φ Bool := pure false

/-- Borrow from right sibling -/
def borrowFromRight (_node : BTreeNode) (_childIdx : ℕ) : PageCall n φ Bool := pure false

/-- Merge with left sibling -/
def mergeWithLeft (_node : BTreeNode) (_childIdx : ℕ) : PageCall n φ Bool := pure false

/-- Merge with right sibling -/
def mergeWithRight (_node : BTreeNode) (_childIdx : ℕ) : PageCall n φ Bool := pure false

/-- Handle underflow in a child node -/
def handleUnderflow (node : BTreeNode) (childIdx : ℕ) : PageCall n φ Bool := do
  if ← leftLends node childIdx then borrowFromLeft node childIdx
  else if ← rightLends node childIdx then borrowFromRight node childIdx
  -- Merge with a sibling
  else if 0 < childIdx then mergeWithLeft node childIdx
  else mergeWithRight node childIdx

/-- Delete a key from a node, up to a depth. Besides the value and whether the node needs a merge this
returns the node as the deletion leaves it. -/
def deleteFromNode (key : BTreeKey) :
    ℕ → PageId → BTreeNode → PageCall n φ (BTreeNode × Option BTreeValue × Bool)
  | 0, _, _ => throw (.panic "stack overflow")
  | depth + 1, nodeId, node =>
    match node.nodeType with
    | .leaf =>
      match node.findKey key with
      | some idx => do
        let value := node.entries[idx]?.map BTreeEntry.value
        require (node.entryCount ≠ 0) (.panic "attempt to subtract with overflow")
        let node := { node with
          entries := node.entries.eraseIdx idx, entryCount := node.entryCount - 1 }
        saveNode pageSize nodeId node
        return (node, value, node.isEmpty)
      | none => return (node, none, false)
    | .internal =>
      let childIdx := node.findInsertPosition key
      match node.children[childIdx]? with
      | none => throw (.err (.index (s!"B-Tree delete: child_idx {childIdx} >= children.len() " ++
          s!"{node.children.length} (entries: {node.entries.length})")))
      | some child => do
        let childId := UInt64.ofNat child
        let childNode ← loadNode childId
        let (childNode, deletedValue, childNeedsMerge) ← deleteFromNode key depth childId childNode
        if childNeedsMerge then
          let shouldMergeRoot ← handleUnderflow node childIdx
          saveNode pageSize nodeId node
          return (node, deletedValue, shouldMergeRoot)
        else
          saveNode pageSize childId childNode
          return (node, deletedValue, false)

end Calls

end PooledBTree

/-- A B-tree and the buffer pool that it works with. -/
structure PooledBTree (n : ℕ) (φ : Type) where
  rootPageId : PageId
  bufferManager : BufferPoolManager n φ

namespace PooledBTree

variable {n : ℕ} {φ : Type}

/-- A call on a B-tree. -/
abbrev Call (n : ℕ) (φ : Type) := EStateM Failure (PooledBTree n φ)

/-- Make a call on the pages. -/
def onPages {α : Type} (act : PageCall n φ α) : Call n φ α := fun t =>
  match act t.bufferManager with
  | .ok a bufferManager => .ok a { t with bufferManager }
  | .error e bufferManager => .error e { t with bufferManager }

section Calls

/-! `depth` is how deep calls may nest. -/

variable [FileManager φ] (pageSize depth : ℕ)

/-- `BTree::new`: the root page, with an empty leaf. -/
def create : PageCall n φ PageId := do
  let rootPageId ← newPage .bTreeInternal
  let root ← fetchPage rootPageId
  let size := (BTreeNode.codec.encode (.new .leaf)).length
  require (size ≤ root.data.length) (.panic
    s!"range end index {size} out of range for slice of length {root.data.length}")
  modifyPage rootPageId (withEmptyLeaf root)
  unpinPage rootPageId true
  return rootPageId

/-- Split the root into two nodes below a new one. -/
def splitRoot (rootNode : BTreeNode) : Call n φ BTreeNode := do
  let rootId := (← get).rootPageId
  let newRootId ← onPages (newPage .bTreeInternal)
  let (leftNode, rightNode, separator) ← onPages (onNode rootNode.split)
  onPages (saveNode pageSize rootId leftNode)
  let rightPageId ← onPages (newPage .bTreeLeaf)
  onPages (saveNode pageSize rightPageId rightNode)
  let newRootNode := { BTreeNode.new .internal with
    entryCount := 1, entries := [separator], children := [rootId.toNat, rightPageId.toNat] }
  onPages (saveNode pageSize newRootId newRootNode)
  modify fun t => { t with rootPageId := newRootId }
  return newRootNode

/-- If root is full, split it -/
def splitFullRoot (rootNode : BTreeNode) : Call n φ BTreeNode :=
  if rootNode.isFull then splitRoot pageSize rootNode else pure rootNode

/-- Insert a key-value pair into the B-Tree -/
def insert (key : BTreeKey) (value : BTreeValue) : Call n φ Unit := do
  let rootNode ← onPages (loadNode (← get).rootPageId)
  let rootNode ← splitFullRoot pageSize rootNode
  onPages (insertIntoNode pageSize key value depth (← get).rootPageId rootNode)

/-- Search for a key in the B-Tree -/
def search (key : BTreeKey) : Call n φ (Option BTreeValue) := do
  let node ← onPages (loadNode (← get).rootPageId)
  onPages (searchInNode key depth node)

/-- Delete a key from the B-Tree -/
def delete (key : BTreeKey) : Call n φ (Option BTreeValue) := do
  let rootPageId := (← get).rootPageId
  let rootNode ← onPages (loadNode rootPageId)
  let (rootNode, deletedValue, shouldMergeRoot) ←
    onPages (deleteFromNode pageSize key depth rootPageId rootNode)
  match shouldMergeRoot, rootNode.children with
  | true, newRootId :: _ =>
    -- the root became empty: its first child becomes the root
    onPages (deletePage rootPageId)
    modify fun t => { t with rootPageId := .ofNat newRootId }
    return deletedValue
  | _, _ => return deletedValue

/-- The calls on a B-tree -/
inductive TreeOp
  | insert (key : BTreeKey) (value : BTreeValue)
  | search (key : BTreeKey)
  | delete (key : BTreeKey)

/-- Make one call, for its value. -/
def call : TreeOp → Call n φ (Option BTreeValue)
  | .insert key value => do
    insert pageSize depth key value
    return none
  | .search key => search depth key
  | .delete key => delete pageSize depth key

/-- Make one call. -/
def step : TreeOp → Call n φ Unit
  | .insert key value => insert pageSize depth key value
  | .search key => discard (search depth key)
  | .delete key => discard (delete pageSize depth key)

/-- Make calls in order, going on after failures. -/
def run (ops : List TreeOp) (t : PooledBTree n φ) : PooledBTree n φ :=
  ops.foldl (fun t op => final (step pageSize depth op) t) t

end Calls

/-! ## What a page gives back -/

/-- A node is written if it is no longer than the data of the page. -/
theorem writeNode_eq_ok {pageSize : ℕ} {node : BTreeNode} {page : Page} :
    (∃ page', writeNode pageSize node page = .ok page') ↔
      node.serializedLength ≤ page.data.length := by
  rw [← node.encode_length, writeNode]
  split
  · next h => simp [h]
  · next h => simpa using h

/-- A page whose data start with a node, and whose other bytes are free, holds that node. -/
theorem readNode_of_encode {node : BTreeNode} {page : Page} {rest : List UInt8}
    (hvalid : BTreeNode.codec.Valid node) (hdata : page.data = BTreeNode.codec.encode node ++ rest)
    (hfree : page.header.freeBytes.toNat = rest.length) : readNode page = .ok node := by
  have hpos := node.encode_length_ge
  have hlength : page.data.length = (BTreeNode.codec.encode node).length + rest.length := by
    rw [hdata, List.length_append]
  have hsize : page.data.length - rest.length = (BTreeNode.codec.encode node).length := by omega
  have htake : page.data.take (BTreeNode.codec.encode node).length = BTreeNode.codec.encode node := by
    rw [hdata, List.take_left]
  rw [readNode, hfree, if_neg (by omega)]
  simp only [hsize, htake]
  split
  · next hzero =>
    rcases hzero with hzero | hzero
    · omega
    · rw [BTreeNode.eq_new_of_zeros hvalid hzero]
  · rw [Codec.deserialize_encode' _ hvalid]

/-- A page that a node was written to holds that node. -/
theorem readNode_of_writeNode {pageSize : ℕ} {node : BTreeNode} {page page' : Page}
    (hvalid : BTreeNode.codec.Valid node) (hlength : page.data.length < 2 ^ 64)
    (h : writeNode pageSize node page = .ok page') : readNode page' = .ok node := by
  rw [writeNode] at h
  split at h
  · cases h
  · cases h
    refine readNode_of_encode hvalid rfl ?_
    rw [List.length_replicate]
    exact UInt64.toNat_ofNat_of_lt' ((Nat.sub_le _ _).trans_lt hlength)

theorem readNode_withEmptyLeaf {root : Page} (h : root.data.length < 2 ^ 64) :
    readNode (withEmptyLeaf root) = .ok (.new .leaf) := by
  refine readNode_of_encode BTreeNode.valid_new rfl ?_
  rw [List.length_drop]
  exact UInt64.toNat_ofNat_of_lt' ((Nat.sub_le _ _).trans_lt h)

/-- A page that a node was written to has as much space as before. -/
theorem length_of_writeNode {pageSize : ℕ} {node : BTreeNode} {page page' : Page}
    (h : writeNode pageSize node page = .ok page') : page'.data.length = page.data.length := by
  rw [writeNode] at h
  split at h
  · cases h
  · cases h
    simp only [Page.updateChecksum, List.length_append, List.length_replicate]
    omega

/-- A new page holds an empty leaf. -/
theorem readNode_new (p : PageId) (pageType : PageType) {pageSize : ℕ} (h : pageSize < 2 ^ 64) :
    readNode (.new p pageType pageSize) = .ok (.new .leaf) := by
  have hfree : (UInt64.ofNat pageSize).toNat = pageSize := UInt64.toNat_ofNat_of_lt' h
  simp [readNode, Page.new, hfree]

theorem onNode_eq_ok {α : Type} {m m' : BufferPoolManager n φ} {r : Result α} {a : α} :
    (onNode r : PageCall n φ α) m = .ok a m' ↔ r = .ok a ∧ m = m' := by
  unfold onNode
  cases r <;> simp

/-- A leaf with one pair comes back from a page of 8192 bytes. -/
theorem readNode_of_writeNode_onePair :
    let node : BTreeNode := ⟨.leaf, 1, [⟨[1], 2⟩], [], none, none⟩
    ∃ page, writeNode 8192 node (.new 1 .bTreeLeaf 8192) = .ok page ∧ readNode page = .ok node := by
  intro node
  have hdata : (Page.new 1 .bTreeLeaf 8192).data.length = 8192 := List.length_replicate
  have hvalid : BTreeNode.codec.Valid node := by
    refine ⟨Codec.u32_valid _, ?_⟩
    simp [node, Codec.seq, Codec.vec, Codec.option, Codec.fixed, BTreeEntry.codec, BTreeKey.codec,
      Codec.via, Codec.bytes, Codec.u64_valid]
  have hfits : node.serializedLength ≤ (Page.new 1 .bTreeLeaf 8192).data.length := by
    rw [hdata]
    decide
  obtain ⟨page, h⟩ := writeNode_eq_ok.mpr hfits
  exact ⟨page, h, readNode_of_writeNode hvalid (by rw [hdata]; decide) h⟩

end PooledBTree

/-! ## Blank pages -/

/-- A file manager whose new pages are blank and have that much space for data. -/
class BlankPages (φ : Type) [FileManager φ] [LawfulFileManager φ] (capacity : ℕ) : Prop where
  capacity_lt : capacity < 2 ^ 64
  allocate_blank : ∀ {s s' : φ} {t : PageType} {p : PageId}, LawfulFileManager.Good s →
    FileManager.allocatePage t s = .ok p s' →
    LawfulFileManager.content s' p = some (.new p t capacity)

instance : BlankPages MockFileManager 8192 where
  capacity_lt := by decide
  allocate_blank {s s' t p} _ h := by
    change MockFileManager.allocatePage t s = _ at h
    by_cases hfits : s.nextPageId.toNat + 1 < 2 ^ 64
    · rw [MockFileManager.allocatePage, get_bind, bind_of_ok (require_of hfits _ _)] at h
      cases h
      exact (congrFun (MockFileManager.content_insert s _ _ _) _).trans (Function.update_self ..)
    · rw [MockFileManager.allocatePage, get_bind, bind_of_error (require_of_not hfits _ _)] at h
      cases h

end Rustgresql
