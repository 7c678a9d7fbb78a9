import Rustgresql.Basic
import Rustgresql.Lib.StateSpec

/-!
# B-trees (`storage/btree.rs`)

The nodes of a B-tree lie in pages. The buffer pool is taken to find a frame for every page and the file
manager to keep what is written, so a page is the node that was saved there last. A page that nothing
was saved in holds an empty leaf. Page numbers are natural numbers.
-/

namespace Rustgresql

open StateSpec

/-- B-Tree key type -/
abbrev BTreeKey := List (Fin 256)

/-- B-Tree value type -/
abbrev BTreeValue := PageId

/-- B-Tree node entry -/
structure BTreeEntry where
  key : BTreeKey
  value : BTreeValue
  deriving DecidableEq

/-- Whether an entry comes before a key. -/
def BTreeEntry.before (key : BTreeKey) (e : BTreeEntry) : Bool := e.key < key

/-- B-Tree node types -/
inductive BTreeNodeType
  | leaf | internal
  deriving DecidableEq

/-- B-Tree node structure -/
structure BTreeNode where
  nodeType : BTreeNodeType
  entryCount : ℕ
  entries : List BTreeEntry
  children : List ℕ
  prevLeaf : Option ℕ
  nextLeaf : Option ℕ

/-- Maximum number of keys in a B-Tree node -/
def maxKeys : ℕ := 100

/-- Minimum number of keys in a B-Tree node -/
def minKeys : ℕ := maxKeys / 2

namespace BTreeNode

/-- Create a new empty B-Tree node -/
def new (nodeType : BTreeNodeType) : BTreeNode := ⟨nodeType, 0, [], [], none, none⟩

/-- Check if node is full -/
def isFull (node : BTreeNode) : Bool := maxKeys ≤ node.entryCount

/-- Check if node is empty -/
def isEmpty (node : BTreeNode) : Bool := node.entryCount == 0

/-- `binary_search_by`, on entries that are in order -/
def binarySearch (key : BTreeKey) (entries : List BTreeEntry) : Except ℕ ℕ :=
  let pos := (entries.takeWhile (BTreeEntry.before key)).length
  match entries[pos]? with
  | some e => if e.key = key then .ok pos else .error pos
  | none => .error pos

/-- Find the index where a key should be inserted -/
def findInsertPosition (key : BTreeKey) (node : BTreeNode) : ℕ :=
  match binarySearch key node.entries with
  | .ok pos => pos
  | .error pos => pos

/-- Find an exact key in the node -/
def findKey (key : BTreeKey) (node : BTreeNode) : Option ℕ := (binarySearch key node.entries).toOption

/-- Insert an entry into the node -/
def insertEntry (e : BTreeEntry) (node : BTreeNode) : Result BTreeNode :=
  if node.isFull then .error (.err (.index "Node is full"))
  else
    let pos := node.findInsertPosition e.key
    .ok { node with entries := node.entries.insertIdx pos e, entryCount := node.entryCount + 1 }

/-- Split the node into two nodes: the left one, the right one, and the separator, which stays in
neither. -/
def split (node : BTreeNode) : Result (BTreeNode × BTreeNode × BTreeEntry) :=
  let splitPos := node.entryCount / 2
  if node.entries.length < splitPos then .error (.panic
    s!"`at` split index (is {splitPos}) should be <= len (is {node.entries.length})")
  else match node.entries.drop splitPos with
  | [] => .error (.panic "removal index (is 0) should be < len (is 0)")
  | separator :: rightEntries =>
    let childSplitPos := splitPos + 1
    let movesChildren := node.nodeType = .internal ∧ node.children ≠ [] ∧
      childSplitPos ≤ node.children.length
    let left := { node with
      entryCount := (node.entries.take splitPos).length
      entries := node.entries.take splitPos
      children := if movesChildren then node.children.take childSplitPos else node.children }
    let right := { new node.nodeType with
      entryCount := rightEntries.length
      entries := rightEntries
      children := if movesChildren then node.children.drop childSplitPos else [] }
    .ok (left, right, separator)

/-- The bytes that `bincode` needs for a node. -/
def serializedLength (node : BTreeNode) : ℕ :=
  let link := fun o : Option ℕ => if o.isSome then 9 else 1
  4 + 8 + (8 + (node.entries.map fun e => 8 + e.key.length + 8).sum) + (8 + 8 * node.children.length) +
    link node.prevLeaf + link node.nextLeaf

end BTreeNode

/-- B-Tree implementation, with the pages of its buffer pool -/
structure BTree where
  rootPageId : ℕ
  pages : ℕ → Option BTreeNode
  /-- The pages up to this one are allocated. -/
  totalPages : ℕ

namespace BTree

abbrev Call := EStateM Failure BTree

/-- Load a B-Tree node from disk -/
def readNode (t : BTree) (pageId : ℕ) : Result BTreeNode :=
  if pageId < t.totalPages then .ok ((t.pages pageId).getD (.new .leaf))
  else .error (.err (.pageNotFound (.ofNat pageId)))

def loadNode (pageId : ℕ) : Call BTreeNode := fun t =>
  match t.readNode pageId with
  | .ok node => .ok node t
  | .error e => .error e t

/-- A new page -/
def newPage : Call ℕ := fun t => .ok t.totalPages { t with totalPages := t.totalPages + 1 }

def onNode {α : Type} (r : Result α) : Call α := fun t =>
  match r with
  | .ok a => .ok a t
  | .error e => .error e t

/-- `BTree::new`, when that many pages are allocated already. -/
def new (totalPages : ℕ) : BTree := ⟨totalPages, fun _ => none, totalPages + 1⟩

section Calls

/-! `capacity` is the number of bytes for data in a page. -/

variable (capacity : ℕ)

/-- Save a B-Tree node to disk -/
def saveNode (pageId : ℕ) (node : BTreeNode) : Call Unit := fun t =>
  match t.readNode pageId with
  | .error e => .error e t
  | .ok _ =>
    if capacity < node.serializedLength then
      .error (.err (.storage (s!"B-Tree node too large for page: {node.serializedLength} bytes, " ++
        s!"max {capacity} bytes"))) t
    else .ok () { t with pages := Function.update t.pages pageId (some node) }

/-- The error for a node that has too few children. -/
def corruption (childIdx : ℕ) (node : BTreeNode) : Failure :=
  .err (.index (s!"B-Tree internal node corruption: child_idx {childIdx} >= children.len() " ++
    s!"{node.children.length} (entries: {node.entries.length})"))

/-- Insert a key-value pair into a node, up to a depth. -/
def insertIntoNode (key : BTreeKey) (value : BTreeValue) : ℕ → ℕ → BTreeNode → Call Unit
  | 0, _, _ => throw (.panic "stack overflow")
  | n + 1, nodeId, node =>
    match node.nodeType with
    | .leaf => do
      let node ← onNode (node.insertEntry ⟨key, value⟩)
      saveNode capacity nodeId node
    | .internal => do
      let childIdx := node.findInsertPosition key
      match node.children[childIdx]? with
      | none => throw (corruption childIdx node)
      | some childId =>
        let childNode ← loadNode childId
        if childNode.isFull then
          let (childNode, rightNode, separator) ← onNode childNode.split
          saveNode capacity childId childNode
          let rightPageId ← newPage
          saveNode capacity rightPageId rightNode
          let node := { node with
            entries := node.entries.insertIdx childIdx separator
            children := node.children.insertIdx (childIdx + 1) rightPageId
            entryCount := node.entryCount + 1 }
          saveNode capacity nodeId node
          if key < separator.key then insertIntoNode key value n childId childNode
          else insertIntoNode key value n rightPageId rightNode
        else
          saveNode capacity nodeId node
          insertIntoNode key value n childId childNode

/-- Split the root into two nodes below a new one. -/
def splitRoot (rootNode : BTreeNode) : Call BTreeNode := do
  let rootId := (← get).rootPageId
  let newRootId ← newPage
  let (leftNode, rightNode, separator) ← onNode rootNode.split
  saveNode capacity rootId leftNode
  let rightPageId ← newPage
  saveNode capacity rightPageId rightNode
  let newRootNode := { BTreeNode.new .internal with
    entryCount := 1, entries := [separator], children := [rootId, rightPageId] }
  saveNode capacity newRootId newRootNode
  modify fun t => { t with rootPageId := newRootId }
  return newRootNode

/-- If root is full, split it -/
def splitFullRoot (rootNode : BTreeNode) : Call BTreeNode :=
  if rootNode.isFull then splitRoot capacity rootNode else pure rootNode

/-- Insert a key-value pair into the B-Tree. No path is longer than there are pages. -/
def insert (key : BTreeKey) (value : BTreeValue) : Call Unit := do
  let rootNode ← loadNode (← get).rootPageId
  let rootNode ← splitFullRoot capacity rootNode
  let t ← get
  insertIntoNode capacity key value t.totalPages t.rootPageId rootNode

/-- Insert pairs one after the other. -/
def insertAll : List (BTreeKey × BTreeValue) → Call Unit
  | [] => pure ()
  | p :: ps => do
    insert capacity p.1 p.2
    insertAll ps

/-- Delete a page: what is saved in it is gone. -/
def deletePage (pageId : ℕ) : Call Unit := modify fun t =>
  { t with pages := Function.update t.pages pageId none }

/-- Borrow from left sibling -/
def borrowFromLeft (_node : BTreeNode) (_childIdx : ℕ) : Call Bool := pure false

/-- Borrow from right sibling -/
def borrowFromRight (_node : BTreeNode) (_childIdx : ℕ) : Call Bool := pure false

/-- Merge with left sibling -/
def mergeWithLeft (_node : BTreeNode) (_childIdx : ℕ) : Call Bool := pure false

/-- Merge with right sibling -/
def mergeWithRight (_node : BTreeNode) (_childIdx : ℕ) : Call Bool := pure false

/-- Whether a sibling has entries to lend. -/
def canLend (node : BTreeNode) (siblingIdx : ℕ) : Call Bool :=
  match node.children[siblingIdx]? with
  | none => throw (.panic
    s!"index out of bounds: the len is {node.children.length} but the index is {siblingIdx}")
  | some siblingId => do
    let sibling ← loadNode siblingId
    return decide (minKeys < sibling.entryCount)

/-- Try to borrow from left sibling -/
def leftLends (node : BTreeNode) (childIdx : ℕ) : Call Bool :=
  if 0 < childIdx then canLend node (childIdx - 1) else pure false

/-- Try to borrow from right sibling -/
def rightLends (node : BTreeNode) (childIdx : ℕ) : Call Bool :=
  if childIdx < node.children.length - 1 then canLend node (childIdx + 1) else pure false

/-- Handle underflow in a child node -/
def handleUnderflow (node : BTreeNode) (childIdx : ℕ) : Call Bool := do
  if ← leftLends node childIdx then borrowFromLeft node childIdx
  else if ← rightLends node childIdx then borrowFromRight node childIdx
  -- Merge with a sibling
  else if 0 < childIdx then mergeWithLeft node childIdx
  else mergeWithRight node childIdx

/-- Delete a key from a node, up to a depth. Besides the value and whether the node needs a merge this
returns the node as the deletion leaves it. -/
def deleteFromNode (key : BTreeKey) : ℕ → ℕ → BTreeNode → Call (BTreeNode × Option BTreeValue × Bool)
  | 0, _, _ => throw (.panic "stack overflow")
  | n + 1, nodeId, node =>
    match node.nodeType with
    | .leaf =>
      match node.findKey key with
      | some idx => do
        let value := node.entries[idx]?.map BTreeEntry.value
        let node := { node with entries := node.entries.eraseIdx idx, entryCount := node.entryCount - 1 }
        saveNode capacity nodeId node
        return (node, value, node.isEmpty)
      | none => return (node, none, false)
    | .internal =>
      let childIdx := node.findInsertPosition key
      match node.children[childIdx]? with
      | none => throw (.err (.index (s!"B-Tree delete: child_idx {childIdx} >= children.len() " ++
          s!"{node.children.length} (entries: {node.entries.length})")))
      | some childId => do
        let childNode ← loadNode childId
        let (childNode, deletedValue, childNeedsMerge) ← deleteFromNode key n childId childNode
        if childNeedsMerge then
          let shouldMergeRoot ← handleUnderflow node childIdx
          saveNode capacity nodeId node
          return (node, deletedValue, shouldMergeRoot)
        else
          saveNode capacity childId childNode
          return (node, deletedValue, false)

/-- Delete a key from the B-Tree -/
def delete (key : BTreeKey) : Call (Option BTreeValue) := do
  let t ← get
  let rootNode ← loadNode t.rootPageId
  let (rootNode, deletedValue, shouldMergeRoot) ←
    deleteFromNode capacity key t.totalPages t.rootPageId rootNode
  match shouldMergeRoot, rootNode.children with
  | true, newRootId :: _ =>
    -- the root became empty: its first child becomes the root
    deletePage t.rootPageId
    modify fun t => { t with rootPageId := newRootId }
    return deletedValue
  | _, _ => return deletedValue

end Calls

/-- Search for a key in a specific node, up to a depth. -/
def searchInNode (t : BTree) (key : BTreeKey) : ℕ → BTreeNode → Result (Option BTreeValue)
  | 0, _ => .error (.panic "stack overflow")
  | n + 1, node =>
    match node.nodeType with
    | .leaf => .ok ((node.findKey key).bind fun idx => node.entries[idx]?.map BTreeEntry.value)
    | .internal =>
      let childIdx := node.findInsertPosition key
      match node.children[childIdx]? with
      | none => .error (.err (.index (s!"B-Tree search: child_idx {childIdx} >= children.len() " ++
          s!"{node.children.length} (entries: {node.entries.length})")))
      | some childId =>
        match t.readNode childId with
        | .ok childNode => t.searchInNode key n childNode
        | .error e => .error e

/-- Search for a key in the B-Tree -/
def search (t : BTree) (key : BTreeKey) : Result (Option BTreeValue) :=
  match t.readNode t.rootPageId with
  | .ok node => t.searchInNode key t.totalPages node
  | .error e => .error e

end BTree

end Rustgresql
