import Rustgresql.Storage.BTree

/-!
# The pages of a B-tree

What the calls on pages do, and what insertion keeps: a property of nodes that splitting a node and
inserting an entry into a leaf keep is kept by all nodes.
-/

namespace Rustgresql

open StateSpec

namespace BTree

variable {capacity : ℕ} {t : BTree} {node : BTreeNode}

/-- The node in a page. -/
def nodeAt (t : BTree) (id : ℕ) : BTreeNode := (t.pages id).getD (.new .leaf)

/-- The tree with a node saved. -/
def withNode (t : BTree) (id : ℕ) (node : BTreeNode) : BTree :=
  { t with pages := Function.update t.pages id (some node) }

theorem readNode_eq_ok {id : ℕ} : t.readNode id = .ok node ↔ id < t.totalPages ∧ t.nodeAt id = node := by
  unfold readNode nodeAt
  split
  · next h => simp [h]
  · next h => simp [h]

theorem nodeAt_withNode (t : BTree) (id : ℕ) (node : BTreeNode) :
    (t.withNode id node).nodeAt = Function.update t.nodeAt id node := by
  funext id'
  show (Function.update t.pages id (some node) id').getD _ = _
  by_cases hid : id' = id
  · rw [hid, Function.update_self, Function.update_self, Option.getD_some]
  · rw [Function.update_of_ne hid, Function.update_of_ne hid]
    rfl

/-! ## Calls -/

theorem spec_loadNode (id : ℕ) :
    Spec (loadNode id) t (fun node t' => t' = t ∧ t.readNode id = .ok node) fun _ _ => True := by
  unfold Spec loadNode
  rcases hread : t.readNode id with e | node
  · exact trivial
  · exact ⟨rfl, rfl⟩

theorem spec_onNode {α : Type} (r : Result α) :
    Spec (onNode r) t (fun a t' => t' = t ∧ r = .ok a) fun _ _ => True := by
  unfold Spec onNode
  rcases r with e | a
  · exact trivial
  · exact ⟨rfl, rfl⟩

theorem spec_get {E : Failure → BTree → Prop} :
    Spec (get : Call BTree) t (fun s t' => s = t ∧ t' = t) E := ⟨rfl, rfl⟩

theorem spec_newPage {E : Failure → BTree → Prop} :
    Spec newPage t (fun id t' => id = t.totalPages ∧ t' = { t with totalPages := t.totalPages + 1 }) E :=
  ⟨rfl, rfl⟩

/-- A node is saved in its page, or the call fails. -/
theorem saveNode_cases (capacity : ℕ) (t : BTree) (id : ℕ) (node : BTreeNode) :
    (∃ e, saveNode capacity id node t = .error e t) ∨
      id < t.totalPages ∧ saveNode capacity id node t = .ok () (t.withNode id node) := by
  unfold saveNode
  split
  · exact .inl ⟨_, rfl⟩
  · next hread =>
    split
    · exact .inl ⟨_, rfl⟩
    · exact .inr ⟨(readNode_eq_ok.mp hread).1, rfl⟩

theorem spec_saveNode (id : ℕ) (node : BTreeNode) :
    Spec (saveNode capacity id node) t (fun _ t' => id < t.totalPages ∧ t' = t.withNode id node)
      fun _ _ => True := by
  unfold Spec
  obtain ⟨e, h⟩ | ⟨hid, h⟩ := saveNode_cases capacity t id node
  · rw [h]
    trivial
  · rw [h]
    exact ⟨hid, rfl⟩

/-! ## What all nodes keep -/

section Everywhere

variable {P Q : BTreeNode → Prop}

/-- All nodes have a property. -/
def Everywhere (P : BTreeNode → Prop) (t : BTree) : Prop := ∀ id, P (t.nodeAt id)

theorem everywhere_withNode {id : ℕ} (h : ∀ id', id' ≠ id → P (t.nodeAt id')) (hnode : P node) :
    Everywhere P (t.withNode id node) := by
  intro id'
  rw [nodeAt_withNode]
  by_cases hid : id' = id
  · rwa [hid, Function.update_self]
  · rw [Function.update_of_ne hid]
    exact h id' hid

theorem everywhere_saveNode {id : ℕ} (h : ∀ id', id' ≠ id → P (t.nodeAt id')) (hnode : P node) :
    Spec (saveNode capacity id node) t (fun _ => Everywhere P) fun _ _ => True := by
  apply (spec_saveNode id node).conseq
  rintro _ t' ⟨-, rfl⟩
  exact everywhere_withNode h hnode

theorem Everywhere.saveNode (h : Everywhere P t) (id : ℕ) (hnode : P node) :
    Spec (saveNode capacity id node) t (fun _ => Everywhere P) fun _ _ => True :=
  everywhere_saveNode (fun id' _ => h id') hnode

/-- Splitting a node and inserting an entry keep the property `P`, up to `Q` for the leaf with the entry. -/
structure KeptByInsertion (e : BTreeEntry) (P Q : BTreeNode → Prop) : Prop where
  internal : ∀ node, node.nodeType = .internal → P node
  split : ∀ node left right separator, P node → node.split = .ok (left, right, separator) →
    P left ∧ P right
  insert : ∀ node node', P node → node.insertEntry e = .ok node' → Q node'
  weaken : ∀ node, P node → Q node

theorem everywhere_insertIntoNode {key : BTreeKey} {value : BTreeValue}
    (hkept : KeptByInsertion ⟨key, value⟩ P Q) (n id : ℕ) (hnode : P node) (h : Everywhere P t) :
    Spec (insertIntoNode capacity key value n id node) t (fun _ => Everywhere Q) fun _ _ => True := by
  induction n generalizing id node t with
  | zero => exact trivial
  | succ n ih =>
    rcases htype : node.nodeType
    · simp only [insertIntoNode, htype]
      apply (spec_onNode _).bind
      rintro node' t' ⟨rfl, hr⟩
      have hall : Everywhere Q t' := fun id' => hkept.weaken _ (h id')
      exact hall.saveNode id (hkept.insert node node' hnode hr)
    · simp only [insertIntoNode, htype]
      split
      · exact trivial
      · next childId _ =>
        apply (spec_loadNode childId).bind
        rintro childNode t' ⟨rfl, hread⟩
        have hchild : P childNode := (readNode_eq_ok.mp hread).2 ▸ h childId
        split
        · -- the child is split, and the entry goes into one of its halves
          apply (spec_onNode _).bind
          rintro ⟨left, right, separator⟩ t' ⟨rfl, hsplit⟩
          obtain ⟨hleft, hright⟩ := hkept.split childNode left right separator hchild hsplit
          apply (h.saveNode childId hleft).bind
          intro _ t₁ h₁
          apply spec_newPage.bind
          rintro _ _ ⟨rfl, rfl⟩
          have h₁' : Everywhere P { t₁ with totalPages := t₁.totalPages + 1 } := h₁
          apply (h₁'.saveNode t₁.totalPages hright).bind
          intro _ t₂ h₂
          apply (h₂.saveNode id (hkept.internal _ rfl)).bind
          intro _ t₃ h₃
          split
          · exact ih childId hleft h₃
          · exact ih t₁.totalPages hright h₃
        · apply (h.saveNode id hnode).bind
          exact fun _ t' h' => ih childId hchild h'

/-- If the property holds outside the root and of the halves of the root, it holds after the split. -/
theorem everywhere_splitRoot (hinternal : ∀ node, node.nodeType = .internal → P node)
    (h : ∀ id, id ≠ t.rootPageId → P (t.nodeAt id))
    (hsplit : ∀ left right separator, node.split = .ok (left, right, separator) → P left ∧ P right) :
    Spec (splitRoot capacity node) t (fun node' t' => P node' ∧ Everywhere P t') fun _ _ => True := by
  unfold splitRoot
  apply spec_get.bind
  rintro _ t ⟨rfl, rfl⟩
  apply spec_newPage.bind
  rintro _ _ ⟨rfl, rfl⟩
  apply (spec_onNode _).bind
  rintro ⟨left, right, separator⟩ t' ⟨rfl, hr⟩
  obtain ⟨hleft, hright⟩ := hsplit left right separator hr
  apply (everywhere_saveNode (t := { t with totalPages := t.totalPages + 1 }) h hleft).bind
  intro _ t₁ h₁
  apply spec_newPage.bind
  rintro _ _ ⟨rfl, rfl⟩
  have h₁' : Everywhere P { t₁ with totalPages := t₁.totalPages + 1 } := h₁
  apply (h₁'.saveNode t₁.totalPages hright).bind
  intro _ t₂ h₂
  apply (h₂.saveNode t.totalPages (hinternal _ rfl)).bind
  intro _ t₃ h₃
  exact ⟨hinternal _ rfl, h₃⟩

theorem everywhere_insert {key : BTreeKey} {value : BTreeValue} (hkept : KeptByInsertion ⟨key, value⟩ P Q)
    (h : Everywhere P t) :
    Spec (insert capacity key value) t (fun _ => Everywhere Q) fun _ _ => True := by
  unfold insert
  apply spec_get.bind
  rintro _ t ⟨rfl, rfl⟩
  apply (spec_loadNode _).bind
  rintro node t' ⟨rfl, hread⟩
  have hnode : P node := (readNode_eq_ok.mp hread).2 ▸ h t'.rootPageId
  apply Spec.bind (Q := fun node' t' => P node' ∧ Everywhere P t')
  · unfold splitFullRoot
    split
    · exact everywhere_splitRoot hkept.internal (fun id _ => h id)
        fun left right separator => hkept.split node left right separator hnode
    · exact ⟨hnode, h⟩
  · rintro node' t'' ⟨hnode', h'⟩
    exact everywhere_insertIntoNode hkept _ _ hnode' h'

end Everywhere

end BTree

end Rustgresql
