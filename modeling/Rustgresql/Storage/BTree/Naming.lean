import Rustgresql.Storage.BTree.Insertion
import Rustgresql.Storage.BTree.Pooled

/-!
# Nodes under other names

A page of the buffer pool stands for a page of a tree of pages, under a number of its own. The nodes of the
two then differ in the names of their children only, and the operations on nodes do not look at these.
-/

namespace Rustgresql

open Wire

/-- Which page of the buffer pool stands for which page of the tree of pages. -/
abbrev Naming := ℕ → PageId → Prop

/-- The child of a node on the buffer pool names that page of the tree of pages. -/
def Names (ρ : Naming) (child : ℕ) (id : ℕ) : Prop := ∃ p : PageId, child = p.toNat ∧ ρ id p

/-- A node on the buffer pool and the node in a tree of pages that it stands for: only the children may
have other names. -/
structure Renamed (ρ : Naming) (node node' : BTreeNode) : Prop where
  same : node' = { node with children := node'.children }
  children : List.Forall₂ (Names ρ) node.children node'.children
  count : node.entryCount = node.entries.length
  leaf : node.nodeType = .leaf → node.children = []
  noPrev : node.prevLeaf = none
  noNext : node.nextLeaf = none

/-- The halves of a node, with their separator. -/
structure Halved (ρ : Naming) (s s' : BTreeNode × BTreeNode × BTreeEntry) : Prop where
  left : Renamed ρ s.1 s'.1
  right : Renamed ρ s.2.1 s'.2.1
  separator : s.2.2 = s'.2.2

theorem forall₂_insertIdx {α β : Type} {r : α → β → Prop} {l : List α} {l' : List β}
    (h : List.Forall₂ r l l') {a : α} {b : β} (hab : r a b) (i : ℕ) :
    List.Forall₂ r (l.insertIdx i a) (l'.insertIdx i b) := by
  induction h generalizing i with
  | nil =>
    cases i with
    | zero => exact .cons hab .nil
    | succ i => exact .nil
  | cons hhead htail ih =>
    cases i with
    | zero => exact .cons hab (.cons hhead htail)
    | succ i => exact .cons hhead (ih i)

namespace Renamed

variable {ρ ρ' : Naming} {node node' : BTreeNode}

theorem mono (h : Renamed ρ node node') (hρ : ρ ≤ ρ') : Renamed ρ' node node' where
  same := h.same
  children := h.children.imp fun _ _ ⟨p, hp, hid⟩ => ⟨p, hp, hρ _ _ hid⟩
  count := h.count
  leaf := h.leaf
  noPrev := h.noPrev
  noNext := h.noNext

theorem new (ρ : Naming) (nodeType : BTreeNodeType) : Renamed ρ (.new nodeType) (.new nodeType) :=
  ⟨rfl, .nil, rfl, fun _ => rfl, rfl, rfl⟩

theorem nodeType (h : Renamed ρ node node') : node'.nodeType = node.nodeType := by rw [h.same]

theorem entries (h : Renamed ρ node node') : node'.entries = node.entries := by rw [h.same]

theorem entryCount (h : Renamed ρ node node') : node'.entryCount = node.entryCount := by rw [h.same]

theorem isFull (h : Renamed ρ node node') : node'.isFull = node.isFull := by rw [h.same]; rfl

theorem isEmpty (h : Renamed ρ node node') : node'.isEmpty = node.isEmpty := by rw [h.same]; rfl

theorem findInsertPosition (h : Renamed ρ node node') (key : BTreeKey) :
    node'.findInsertPosition key = node.findInsertPosition key := by rw [h.same]; rfl

theorem findKey (h : Renamed ρ node node') (key : BTreeKey) : node'.findKey key = node.findKey key := by
  rw [h.same]
  rfl

theorem serializedLength (h : Renamed ρ node node') : node'.serializedLength = node.serializedLength := by
  have hlength := h.children.length_eq
  rw [h.same]
  simp only [BTreeNode.serializedLength, hlength]

/-- The child at a position names the child there. -/
theorem child (h : Renamed ρ node node') {i : ℕ} {c : ℕ} (hc : node.children[i]? = some c) :
    ∃ id, node'.children[i]? = some id ∧ ρ id (.ofNat c) := by
  obtain ⟨hi, rfl⟩ := List.getElem?_eq_some_iff.mp hc
  have hi' : i < node'.children.length := h.children.length_eq ▸ hi
  obtain ⟨p, hp, hid⟩ := h.children.get hi hi'
  refine ⟨_, List.getElem?_eq_getElem hi', ?_⟩
  change node.children[i] = p.toNat at hp
  rw [hp, UInt64.ofNat_toNat]
  exact hid

/-- Other entries, and other children in the place of the children. -/
theorem withEntries (h : Renamed ρ node node') {entries : List BTreeEntry} {entryCount : ℕ}
    (hcount : entryCount = entries.length) :
    Renamed ρ { node with entries, entryCount } { node' with entries, entryCount } where
  same := by rw [h.same]
  children := h.children
  count := hcount
  leaf := h.leaf
  noPrev := h.noPrev
  noNext := h.noNext

theorem insertEntry (h : Renamed ρ node node') {e : BTreeEntry} {n : BTreeNode}
    (hn : node.insertEntry e = .ok n) : ∃ n', node'.insertEntry e = .ok n' ∧ Renamed ρ n n' := by
  rw [BTreeNode.insertEntry] at hn ⊢
  rw [h.isFull]
  split at hn
  · cases hn
  · next hroom =>
    cases hn
    rw [if_neg hroom, h.findInsertPosition, h.entries, h.entryCount]
    refine ⟨_, rfl, h.withEntries ?_⟩
    have hle : node.findInsertPosition e.key ≤ node.entries.length := by
      rw [BTree.findInsertPosition_eq]
      exact (List.takeWhile_sublist _).length_le
    rw [List.length_insertIdx_of_le_length hle, h.count]

theorem split (h : Renamed ρ node node') {s : BTreeNode × BTreeNode × BTreeEntry}
    (hsplit : node.split = .ok s) : ∃ s', node'.split = .ok s' ∧ Halved ρ s s' := by
  have hlength : node.children.length = node'.children.length := h.children.length_eq
  have hempty : node.children = [] ↔ node'.children = [] := by
    rw [← List.length_eq_zero_iff, hlength, List.length_eq_zero_iff]
  unfold BTreeNode.split at hsplit ⊢
  simp only [h.entryCount, h.entries, h.nodeType, ne_eq, ← hempty, ← hlength] at hsplit ⊢
  split at hsplit
  · cases hsplit
  · next hpos =>
    rw [if_neg hpos]
    split at hsplit
    · cases hsplit
    · next rightEntries hdrop =>
      cases hsplit
      refine ⟨_, rfl, ⟨by rw [h.same], ?_, rfl, ?_, h.noPrev, h.noNext⟩,
        ⟨rfl, ?_, rfl, ?_, rfl, rfl⟩, rfl⟩
      · dsimp only
        split
        · exact List.forall₂_take _ h.children
        · exact h.children
      · intro hleaf
        simp [h.leaf hleaf]
      · dsimp only
        split
        · exact List.forall₂_drop _ h.children
        · exact .nil
      · intro hleaf
        change node.nodeType = .leaf at hleaf
        simp [hleaf]

/-- A new child behind another one, and its separator among the entries. -/
theorem insertChild (h : Renamed ρ node node') {i : ℕ} (hi : i ≤ node.entries.length) (separator : BTreeEntry)
    {p : PageId} {id : ℕ} (hid : ρ id p) :
    Renamed ρ
      { node with
        nodeType := .internal
        entries := node.entries.insertIdx i separator
        children := node.children.insertIdx (i + 1) p.toNat
        entryCount := node.entryCount + 1 }
      { node' with
        nodeType := .internal
        entries := node'.entries.insertIdx i separator
        children := node'.children.insertIdx (i + 1) id
        entryCount := node'.entryCount + 1 } where
  same := by rw [h.same]
  children := forall₂_insertIdx h.children ⟨p, rfl, hid⟩ _
  count := by
    dsimp only
    rw [List.length_insertIdx_of_le_length hi, h.count]
  leaf := nofun
  noPrev := h.noPrev
  noNext := h.noNext

/-- Removing an entry of a leaf. -/
theorem eraseEntry (h : Renamed ρ node node') (hleaf : node.nodeType = .leaf) {i : ℕ}
    (hi : i < node.entries.length) :
    Renamed ρ
      { node with
        nodeType := .leaf, entries := node.entries.eraseIdx i, entryCount := node.entryCount - 1 }
      { node' with
        nodeType := .leaf, entries := node'.entries.eraseIdx i, entryCount := node'.entryCount - 1 } where
  same := by rw [h.same]
  children := h.children
  count := by
    dsimp only
    rw [List.length_eraseIdx_of_lt hi, h.count]
  leaf _ := h.leaf hleaf
  noPrev := h.noPrev
  noNext := h.noNext

end Renamed

namespace Naming

/-- The names after a page was allocated. -/
def withPage (ρ : Naming) (id : ℕ) (p : PageId) : Naming := fun id' p' => ρ id' p' ∨ id' = id ∧ p' = p

theorem le_withPage (ρ : Naming) (id : ℕ) (p : PageId) : ρ ≤ ρ.withPage id p := fun _ _ h => .inl h

theorem mono {ρ ρ' : Naming} (h : ρ ≤ ρ') {id : ℕ} {p : PageId} (hid : ρ id p) : ρ' id p := h id p hid

theorem withPage_self (ρ : Naming) (id : ℕ) (p : PageId) : ρ.withPage id p id p := .inr ⟨rfl, rfl⟩

end Naming

/-- A page with space for that many bytes holds the node, or one with other names for the children. -/
def HoldsNode (capacity : ℕ) (ρ : Naming) (page : Page) (node' : BTreeNode) : Prop :=
  page.data.length = capacity ∧ ∃ node, PooledBTree.readNode page = .ok node ∧ Renamed ρ node node'

theorem HoldsNode.mono {capacity : ℕ} {ρ ρ' : Naming} {page : Page} {node' : BTreeNode}
    (h : HoldsNode capacity ρ page node') (hρ : ρ ≤ ρ') : HoldsNode capacity ρ' page node' := by
  obtain ⟨hlength, node, hread, hnode⟩ := h
  exact ⟨hlength, node, hread, hnode.mono hρ⟩

/-- A node that fits into a page is valid for `bincode`. -/
theorem Renamed.valid {ρ : Naming} {node node' : BTreeNode} (h : Renamed ρ node node')
    (hfits : node.serializedLength < 2 ^ 64) : BTreeNode.codec.Valid node := by
  have hentry : ∀ e ∈ node.entries, 16 + e.key.length ≤
      (node.entries.map fun e => 8 + e.key.length + 8).sum := by
    intro e he
    have hle := List.single_le_sum (fun _ _ => Nat.zero_le _) _
      (List.mem_map_of_mem (f := fun e : BTreeEntry => 8 + e.key.length + 8) he)
    omega
  have hcount : node.entries.length ≤ (node.entries.map fun e => 8 + e.key.length + 8).sum := by
    rw [← List.length_map (f := fun e : BTreeEntry => 8 + e.key.length + 8)]
    refine List.length_le_sum_of_one_le _ fun x hx => ?_
    obtain ⟨e, -, rfl⟩ := List.mem_map.mp hx
    omega
  have hchild : ∀ c ∈ node.children, c < 2 ^ 64 := by
    intro c hc
    obtain ⟨i, hi, rfl⟩ := List.getElem_of_mem hc
    obtain ⟨p, hp, -⟩ := h.children.get hi (h.children.length_eq ▸ hi)
    change node.children[i] = p.toNat at hp
    rw [hp]
    exact p.toNat_lt
  simp only [BTreeNode.serializedLength] at hfits
  refine ⟨Codec.u32_valid _, ?_, ⟨?_, fun e he => ⟨?_, Codec.u64_valid _⟩⟩, ⟨?_, fun c hc => ?_⟩, ?_, ?_⟩
  · show node.entryCount < 256 ^ 8
    rw [h.count]
    omega
  · show node.entries.length < 2 ^ 64
    omega
  · show (e.key.map UInt8.ofFin).length < 2 ^ 64
    have hlength := hentry e he
    rw [List.length_map]
    omega
  · show node.children.length < 2 ^ 64
    omega
  · exact hchild c hc
  · show ∀ a ∈ node.prevLeaf, _
    rw [h.noPrev]
    intro a ha
    cases ha
  · show ∀ a ∈ node.nextLeaf, _
    rw [h.noNext]
    intro a ha
    cases ha

end Rustgresql
