import Rustgresql.Storage.BTree.Insertion

/-!
# Deletion from a B-tree

`delete_correct`: as long as no key is inserted that a leaf stores already, a deletion returns what a
search would have found, the key is not found afterwards, and all other keys are found as before. A
deletion changes one leaf: nothing is borrowed or merged, and the root never shrinks.
-/

namespace Rustgresql

open StateSpec

/-! ## Leaves -/

namespace BTreeNode

variable {node : BTreeNode} {key : BTreeKey}

/-- The value of a key in a leaf. -/
def valueOf (key : BTreeKey) (node : BTreeNode) : Option BTreeValue :=
  (node.findKey key).bind fun idx => node.entries[idx]?.map BTreeEntry.value

/-- The node without the entry that a search for a key finds. -/
def without (key : BTreeKey) (node : BTreeNode) : BTreeNode :=
  match node.findKey key with
  | some idx => { node with entries := node.entries.eraseIdx idx, entryCount := node.entryCount - 1 }
  | none => node

/-- The entries of a leaf are in order, and it has no children. -/
def Tidy (node : BTreeNode) : Prop := node.nodeType = .leaf → BTree.Ordered node.entries ∧ node.children = []

theorem without_of_some {idx : ℕ} (h : node.findKey key = some idx) : node.without key =
    { node with entries := node.entries.eraseIdx idx, entryCount := node.entryCount - 1 } := by
  rw [without, h]

theorem without_of_none (h : node.findKey key = none) : node.without key = node := by
  rw [without, h]

theorem nodeType_without (key : BTreeKey) (node : BTreeNode) :
    (node.without key).nodeType = node.nodeType := by
  unfold without
  split
  · rfl
  · rfl

theorem children_without (key : BTreeKey) (node : BTreeNode) :
    (node.without key).children = node.children := by
  unfold without
  split
  · rfl
  · rfl

theorem sublist_without (key : BTreeKey) (node : BTreeNode) :
    (node.without key).entries.Sublist node.entries := by
  unfold without
  split
  · exact List.eraseIdx_sublist ..
  · exact List.Sublist.refl _

theorem Tidy.without (h : node.Tidy) (key : BTreeKey) : (node.without key).Tidy := by
  intro hleaf
  rw [nodeType_without] at hleaf
  obtain ⟨hordered, hchildren⟩ := h hleaf
  rw [children_without]
  exact ⟨hordered.sublist (sublist_without key node), hchildren⟩

theorem exists_split_of_getElem? {α : Type} {l : List α} {i : ℕ} {a : α} (h : l[i]? = some a) :
    ∃ l₁ l₂, l = l₁ ++ a :: l₂ ∧ l.eraseIdx i = l₁ ++ l₂ := by
  obtain ⟨hi, rfl⟩ := List.getElem?_eq_some_iff.mp h
  refine ⟨l.take i, l.drop (i + 1), ?_, List.eraseIdx_eq_take_drop_succ l i⟩
  rw [← List.drop_eq_getElem_cons hi, List.take_append_drop]

/-- In ordered entries the key that is taken out is there once. -/
theorem valueOf_without (h : BTree.Ordered node.entries) (key q : BTreeKey) :
    (node.without key).valueOf q = if q = key then none else node.valueOf q := by
  have hwithout := h.sublist (sublist_without key node)
  have hvalue : (node.without key).valueOf q =
      ((node.without key).entries.find? fun e => e.key = q).map BTreeEntry.value :=
    BTree.value_findKey hwithout q
  have hbefore : node.valueOf q = (node.entries.find? fun e => e.key = q).map BTreeEntry.value :=
    BTree.value_findKey h q
  rcases hfind : node.findKey key with - | idx
  · rw [without_of_none hfind]
    split
    · next hq => rw [hq, valueOf, hfind, Option.bind_none]
    · rfl
  · obtain ⟨e, he, rfl⟩ := BTree.findKey_eq_some hfind
    have hentries : (node.without e.key).entries = node.entries.eraseIdx idx := by
      rw [without_of_some hfind]
    obtain ⟨l₁, l₂, hsplit, herase⟩ := exists_split_of_getElem? he
    rw [hvalue, hbefore, hentries, herase, hsplit, List.find?_append, List.find?_append]
    split
    · next hq =>
      -- the entries before and after are smaller and larger
      subst hq
      rw [BTree.Ordered, hsplit, List.pairwise_append, List.pairwise_cons] at h
      have hbefore : (l₁.find? fun e' => e'.key = e.key) = none :=
        List.find?_eq_none.mpr fun e' he' => by simpa using (h.2.2 e' he' e List.mem_cons_self).ne
      have hafter : (l₂.find? fun e' => e'.key = e.key) = none :=
        List.find?_eq_none.mpr fun e' he' => by simpa using (h.2.1.1 e' he').ne'
      rw [hbefore, hafter]
      rfl
    · next hq => rw [List.find?_cons_of_neg (by simpa using Ne.symm hq)]

end BTreeNode

namespace BTree

open BTreeNode (valueOf without Tidy)

variable {capacity : ℕ} {t t' : BTree} {node node' : BTreeNode} {key q : BTreeKey}

/-! ## What a search depends on -/

/-- Two nodes answer alike for a key. -/
def AnswersAlike (key : BTreeKey) (node node' : BTreeNode) : Prop :=
  node' = node ∨ node.nodeType = .leaf ∧ node'.nodeType = .leaf ∧ node'.valueOf key = node.valueOf key

theorem readNode_of_lt {id : ℕ} (h : id < t.totalPages) : t.readNode id = .ok (t.nodeAt id) :=
  readNode_eq_ok.mpr ⟨h, rfl⟩

theorem searchInNode_leaf (h : node.nodeType = .leaf) (n : ℕ) :
    t.searchInNode key (n + 1) node = .ok (node.valueOf key) := by
  simp only [searchInNode, h]
  rfl

theorem searchInNode_internal (h : node.nodeType = .internal) {childId : ℕ}
    (hchild : node.children[node.findInsertPosition key]? = some childId) (hlt : childId < t.totalPages)
    (n : ℕ) : t.searchInNode key (n + 1) node = t.searchInNode key n (t.nodeAt childId) := by
  simp only [searchInNode, h, hchild, readNode_of_lt hlt]

/-- A search in two trees whose nodes answer alike ends alike. -/
theorem searchInNode_congr (htotal : t'.totalPages = t.totalPages)
    (h : ∀ id, AnswersAlike key (t.nodeAt id) (t'.nodeAt id)) (n : ℕ) (hnode : AnswersAlike key node node') :
    t'.searchInNode key n node' = t.searchInNode key n node := by
  induction n generalizing node node' with
  | zero => rfl
  | succ n ih =>
    rcases hnode with rfl | ⟨hleaf, hleaf', hvalue⟩
    · rcases htype : node'.nodeType
      · rw [searchInNode_leaf htype, searchInNode_leaf htype]
      · simp only [searchInNode, htype]
        split
        · rfl
        · next childId _ =>
          by_cases hlt : childId < t.totalPages
          · rw [readNode_of_lt hlt, readNode_of_lt (htotal ▸ hlt)]
            exact ih (h childId)
          · simp only [readNode, htotal, if_neg hlt]
    · rw [searchInNode_leaf hleaf, searchInNode_leaf hleaf', hvalue]

theorem search_congr (hroot : t'.rootPageId = t.rootPageId) (htotal : t'.totalPages = t.totalPages)
    (h : ∀ id, AnswersAlike key (t.nodeAt id) (t'.nodeAt id)) : t'.search key = t.search key := by
  unfold search
  rw [hroot]
  by_cases hlt : t.rootPageId < t.totalPages
  · rw [readNode_of_lt hlt, readNode_of_lt (htotal ▸ hlt), htotal]
    exact searchInNode_congr htotal h _ (h t.rootPageId)
  · simp only [readNode, htotal, if_neg hlt]

/-! ## What a deletion does -/

/-- The tree has the same root and pages, and one of its leaves is without a key. -/
structure Removed (key : BTreeKey) (t t' : BTree) : Prop where
  rootPageId : t'.rootPageId = t.rootPageId
  totalPages : t'.totalPages = t.totalPages
  leaf : ∃ leafId, (t.nodeAt leafId).nodeType = .leaf ∧
    t'.nodeAt = Function.update t.nodeAt leafId ((t.nodeAt leafId).without key)

/-- The nodes are the same. -/
structure SameNodes (t t' : BTree) : Prop where
  rootPageId : t'.rootPageId = t.rootPageId
  totalPages : t'.totalPages = t.totalPages
  nodeAt : t'.nodeAt = t.nodeAt

theorem sameNodes_withNode {id : ℕ} (h : t.nodeAt id = node) : SameNodes t (t.withNode id node) := by
  refine ⟨rfl, rfl, ?_⟩
  rw [nodeAt_withNode, ← h, Function.update_eq_self]

theorem Removed.same {t'' : BTree} (h : Removed key t t') (hsame : SameNodes t' t'') : Removed key t t'' := by
  obtain ⟨leafId, hleaf, hnodes⟩ := h.leaf
  exact ⟨hsame.rootPageId.trans h.rootPageId, hsame.totalPages.trans h.totalPages, leafId, hleaf,
    hsame.nodeAt.trans hnodes⟩

theorem SameNodes.searchInNode (h : SameNodes t t') (n : ℕ) (node : BTreeNode) :
    t'.searchInNode key n node = t.searchInNode key n node :=
  searchInNode_congr h.totalPages (fun id => .inl (by rw [h.nodeAt])) n (.inl rfl)

/-- Internal nodes stay. -/
theorem Removed.nodeAt_internal (h : Removed key t t') {id : ℕ} (hid : (t.nodeAt id).nodeType = .internal) :
    t'.nodeAt id = t.nodeAt id := by
  obtain ⟨leafId, hleaf, hnodes⟩ := h.leaf
  have hne : id ≠ leafId := by
    rintro rfl
    rw [hid] at hleaf
    cases hleaf
  rw [hnodes, Function.update_of_ne hne]

theorem Removed.everywhere (h : Removed key t t') (htidy : Everywhere Tidy t) : Everywhere Tidy t' := by
  obtain ⟨leafId, -, hnodes⟩ := h.leaf
  intro id
  rw [hnodes]
  by_cases hid : id = leafId
  · rw [hid, Function.update_self]
    exact (htidy leafId).without key
  · rw [Function.update_of_ne hid]
    exact htidy id

/-- Other keys are found as before. -/
theorem Removed.search_of_ne (h : Removed key t t') (htidy : Everywhere Tidy t) (hq : q ≠ key) :
    t'.search q = t.search q := by
  obtain ⟨leafId, hleaf, hnodes⟩ := h.leaf
  refine search_congr h.rootPageId h.totalPages fun id => ?_
  rw [hnodes]
  by_cases hid : id = leafId
  · subst hid
    rw [Function.update_self]
    refine .inr ⟨hleaf, ?_, ?_⟩
    · rw [BTreeNode.nodeType_without, hleaf]
    · rw [BTreeNode.valueOf_without (htidy id hleaf).1, if_neg hq]
  · rw [Function.update_of_ne hid]
    exact .inl rfl

/-- Handling an underflow changes nothing. -/
theorem spec_handleUnderflow (node : BTreeNode) (childIdx : ℕ) :
    Spec (handleUnderflow node childIdx) t (fun merge t' => merge = false ∧ t' = t) fun _ _ => True := by
  have hlends (siblingIdx : ℕ) :
      Spec (canLend node siblingIdx) t (fun _ t' => t' = t) fun _ _ => True := by
    unfold canLend
    split
    · exact trivial
    · next siblingId _ => exact (spec_loadNode siblingId).bind fun _ _ h => h.1
  have hleft : Spec (leftLends node childIdx) t (fun _ t' => t' = t) fun _ _ => True := by
    unfold leftLends
    split
    · exact hlends _
    · exact rfl
  have hright : Spec (rightLends node childIdx) t (fun _ t' => t' = t) fun _ _ => True := by
    unfold rightLends
    split
    · exact hlends _
    · exact rfl
  unfold handleUnderflow
  apply hleft.bind
  rintro leftLends _ rfl
  split
  · exact ⟨rfl, rfl⟩
  · apply hright.bind
    rintro rightLends _ rfl
    split
    · exact ⟨rfl, rfl⟩
    · split
      · exact ⟨rfl, rfl⟩
      · exact ⟨rfl, rfl⟩

theorem deleteFromNode_of_none (h : node.nodeType = .leaf) (hfind : node.findKey key = none) (n id : ℕ) :
    deleteFromNode capacity key (n + 1) id node = pure (node, none, false) := by
  simp only [deleteFromNode, h, hfind]

theorem deleteFromNode_of_some (h : node.nodeType = .leaf) {idx : ℕ} (hfind : node.findKey key = some idx)
    (n id : ℕ) : deleteFromNode capacity key (n + 1) id node = (do
      saveNode capacity id (node.without key)
      return (node.without key, node.valueOf key, (node.without key).isEmpty)) := by
  simp only [deleteFromNode, h, hfind, without, valueOf, Option.bind_some]

/-- The deletion below a node: a search from the node finds what it returns, and nothing afterwards. -/
structure DeletedBelow (key : BTreeKey) (n id : ℕ) (node : BTreeNode) (t : BTree)
    (r : BTreeNode × Option BTreeValue × Bool) (t' : BTree) : Prop where
  removed : Removed key t t'
  saved : t'.nodeAt id = r.1
  nodeType : r.1.nodeType = node.nodeType
  merge : r.2.2 = true → r.1.children = []
  found : t.searchInNode key n node = .ok r.2.1
  gone : t'.searchInNode key n r.1 = .ok none

theorem spec_deleteFromNode (htidy : Everywhere Tidy t) (n id : ℕ) (hnode : t.nodeAt id = node) :
    Spec (deleteFromNode capacity key n id node) t (DeletedBelow key n id node t) fun _ _ => True := by
  induction n generalizing id node with
  | zero => exact trivial
  | succ n ih =>
    rcases htype : node.nodeType
    · obtain ⟨hordered, hchildren⟩ := htidy id (hnode ▸ htype)
      rw [hnode] at hordered hchildren
      have hfound : t.searchInNode key (n + 1) node = .ok (node.valueOf key) := searchInNode_leaf htype n
      have hgone (t' : BTree) : t'.searchInNode key (n + 1) (node.without key) = .ok none := by
        rw [searchInNode_leaf ((BTreeNode.nodeType_without key node).trans htype) n,
          BTreeNode.valueOf_without hordered, if_pos rfl]
      rcases hfind : node.findKey key with - | idx
      · -- the key is not there: the leaf stays
        have hwithout := BTreeNode.without_of_none hfind
        rw [deleteFromNode_of_none htype hfind]
        refine ⟨⟨rfl, rfl, id, hnode ▸ htype, ?_⟩, hnode, rfl, fun h => (Bool.false_ne_true h).elim, ?_, ?_⟩
        · rw [hnode, hwithout, ← hnode, Function.update_eq_self]
        · rw [hfound, valueOf, hfind, Option.bind_none]
        · rw [← hwithout]
          exact hgone t
      · rw [deleteFromNode_of_some htype hfind]
        apply (spec_saveNode id (node.without key)).bind
        rintro _ t' ⟨-, rfl⟩
        refine ⟨⟨rfl, rfl, id, hnode ▸ htype, ?_⟩, ?_, BTreeNode.nodeType_without key node, fun _ => ?_, ?_,
          hgone _⟩
        · rw [nodeAt_withNode, hnode]
        · rw [nodeAt_withNode, Function.update_self]
        · rw [BTreeNode.children_without, hchildren]
        · exact hfound
    · simp only [deleteFromNode, htype]
      split
      · exact trivial
      · next childId hchild =>
        apply (spec_loadNode childId).bind
        rintro childNode t₁ ⟨rfl, hread⟩
        obtain ⟨hlt, hchildNode⟩ := readNode_eq_ok.mp hread
        apply (ih childId hchildNode).bind
        rintro ⟨childNode', deletedValue, childNeedsMerge⟩ t₂ hdeleted
        have hid : t₂.nodeAt id = node :=
          (hdeleted.removed.nodeAt_internal (hnode ▸ htype)).trans hnode
        -- the node and its child are saved as they are
        have hbelow (t₃ : BTree) (hsame : SameNodes t₂ t₃) :
            DeletedBelow key (n + 1) id node t₁ (node, deletedValue, false) t₃ := by
          refine ⟨hdeleted.removed.same hsame, ?_, rfl, fun h => (Bool.false_ne_true h).elim, ?_, ?_⟩
          · rw [hsame.nodeAt, hid]
          · rw [searchInNode_internal htype hchild hlt, hchildNode]
            exact hdeleted.found
          · have htotal := (hdeleted.removed.same hsame).totalPages
            rw [searchInNode_internal htype hchild (htotal ▸ hlt), hsame.nodeAt, hdeleted.saved,
              hsame.searchInNode]
            exact hdeleted.gone
        split
        · apply (spec_handleUnderflow node _).bind
          rintro _ _ ⟨rfl, rfl⟩
          apply (spec_saveNode id node).bind
          rintro _ t₃ ⟨-, rfl⟩
          exact hbelow _ (sameNodes_withNode hid)
        · apply (spec_saveNode childId childNode').bind
          rintro _ t₃ ⟨-, rfl⟩
          exact hbelow _ (sameNodes_withNode hdeleted.saved)

theorem spec_delete (htidy : Everywhere Tidy t) :
    Spec (delete capacity key) t
      (fun deletedValue t' => Removed key t t' ∧ t.search key = .ok deletedValue ∧ t'.search key = .ok none)
      fun _ _ => True := by
  unfold delete
  apply spec_get.bind
  rintro _ t ⟨rfl, rfl⟩
  apply (spec_loadNode t.rootPageId).bind
  rintro rootNode t ⟨rfl, hread⟩
  obtain ⟨hlt, hroot⟩ := readNode_eq_ok.mp hread
  apply (spec_deleteFromNode htidy t.totalPages t.rootPageId hroot).bind
  rintro ⟨rootNode', deletedValue, shouldMergeRoot⟩ t' hdeleted
  have hremoved := hdeleted.removed
  have hdone : Removed key t t' ∧ t.search key = .ok deletedValue ∧ t'.search key = .ok none := by
    refine ⟨hremoved, ?_, ?_⟩
    · simp only [search, hread]
      exact hdeleted.found
    · have hread' : t'.readNode t.rootPageId = .ok rootNode' :=
        readNode_eq_ok.mpr ⟨hremoved.totalPages ▸ hlt, hdeleted.saved⟩
      simp only [search, hremoved.rootPageId, hread', hremoved.totalPages]
      exact hdeleted.gone
  -- a root that became empty is a leaf, without a child to take its place
  rcases shouldMergeRoot
  · exact hdone
  · have hchildren : rootNode'.children = [] := hdeleted.merge rfl
    simp only [hchildren]
    exact hdone

/-! ## Reachable trees -/

/-- The trees that insertions of allowed keys and deletions lead to. -/
inductive Reachable (allowed : BTreeKey → BTree → Prop) (capacity n : ℕ) : BTree → Prop
  | new : Reachable allowed capacity n (BTree.new n)
  | insert {t t' : BTree} {key : BTreeKey} {value : BTreeValue} :
    Reachable allowed capacity n t → allowed key t → BTree.insert capacity key value t = .ok () t' →
      Reachable allowed capacity n t'
  | delete {t t' : BTree} {key : BTreeKey} {deletedValue : Option BTreeValue} :
    Reachable allowed capacity n t → BTree.delete capacity key t = .ok deletedValue t' →
      Reachable allowed capacity n t'

theorem tidy_of_internal (h : node.nodeType = .internal) : Tidy node := by
  intro hleaf
  rw [h] at hleaf
  cases hleaf

/-- The halves of a leaf have no children. -/
theorem split_children_leaf {left right : BTreeNode} {separator : BTreeEntry} (hleaf : node.nodeType = .leaf)
    (h : node.split = .ok (left, right, separator)) :
    left.children = node.children ∧ right.children = [] := by
  unfold BTreeNode.split at h
  dsimp only at h
  split at h
  · cases h
  · split at h
    · cases h
    · cases h
      simp [hleaf]

theorem tidy_split {left right : BTreeNode} {separator : BTreeEntry} (hnode : Tidy node)
    (h : node.split = .ok (left, right, separator)) : Tidy left ∧ Tidy right := by
  obtain ⟨hleft, hright, hentries, hdrop⟩ := split_eq_ok h
  constructor
  · intro hleaf
    rw [hleft] at hleaf
    obtain ⟨hordered, hchildren⟩ := hnode hleaf
    rw [hentries, (split_children_leaf hleaf h).1]
    exact ⟨hordered.sublist (List.take_sublist ..), hchildren⟩
  · intro hleaf
    rw [hright] at hleaf
    obtain ⟨hordered, -⟩ := hnode hleaf
    refine ⟨?_, (split_children_leaf hleaf h).2⟩
    have hafter : Ordered (separator :: right.entries) := hdrop ▸ hordered.sublist (List.drop_sublist ..)
    exact (List.pairwise_cons.mp hafter).2

theorem tidy_insertEntry {e : BTreeEntry} (hnode : Tidy node) (hlacks : LeafLacks e.key node)
    (h : node.insertEntry e = .ok node') : Tidy node' := by
  unfold BTreeNode.insertEntry at h
  split at h
  · cases h
  · cases h
    intro hleaf
    obtain ⟨hordered, hchildren⟩ := hnode hleaf
    refine ⟨?_, hchildren⟩
    rw [findInsertPosition_eq, insertIdx_length_takeWhile]
    exact ordered_insert hordered (hlacks hleaf)

/-- A key that no leaf has can be inserted. -/
theorem kept_tidy (key : BTreeKey) (value : BTreeValue) :
    KeptByInsertion ⟨key, value⟩ (fun node => Tidy node ∧ LeafLacks key node) Tidy where
  internal _ h := ⟨tidy_of_internal h, leafLacks_of_internal h⟩
  split _ _ _ _ hnode h := by
    obtain ⟨hleft, hright⟩ := tidy_split hnode.1 h
    obtain ⟨hleft', hright'⟩ := leafLacks_split hnode.2 h
    exact ⟨⟨hleft, hleft'⟩, hright, hright'⟩
  insert _ _ hnode h := tidy_insertEntry hnode.1 hnode.2 h
  weaken _ hnode := hnode.1

/-- Leaves stay in order as long as the inserted keys are new to them. -/
theorem tidy_of_reachable {n : ℕ} (h : Reachable Lacks capacity n t) : Everywhere Tidy t := by
  induction h with
  | new => exact fun _ _ => ⟨List.Pairwise.nil, rfl⟩
  | insert _ hlacks hrun ih =>
    have hnodes : Everywhere (fun node => Tidy node ∧ LeafLacks _ node) _ :=
      fun id => ⟨ih id, lacks_iff.mp hlacks id⟩
    exact (everywhere_insert (kept_tidy _ _) hnodes).post hrun
  | delete _ hrun ih => exact ((spec_delete ih).post hrun).1.everywhere ih

/-- A deletion returns what a search would have found. Then the key is not found, and the other keys are
found as before. -/
theorem delete_correct {n : ℕ} {t t' : BTree} {key : BTreeKey} {deletedValue : Option BTreeValue}
    (h : Reachable Lacks capacity n t) (hrun : delete capacity key t = .ok deletedValue t') :
    t.search key = .ok deletedValue ∧ t'.search key = .ok none ∧
      ∀ q, q ≠ key → t'.search q = t.search q := by
  have htidy := tidy_of_reachable h
  obtain ⟨hremoved, hfound, hgone⟩ := (spec_delete htidy).post hrun
  exact ⟨hfound, hgone, fun q hq => hremoved.search_of_ne htidy hq⟩

/-- A tree with one pair, in pages with 4 KiB for data. -/
def onePair : BTree := StateSpec.final (insert 4096 [0] 1) (new 1)

theorem delete_correct_onePair : onePair.search [0] = .ok (some 1) ∧
    (StateSpec.final (delete 4096 [0]) onePair).search [0] = .ok none := by
  have hinsert : insert 4096 [0] 1 (new 1) = .ok () onePair := rfl
  have hdelete : delete 4096 [0] onePair = .ok (some 1) (StateSpec.final (delete 4096 [0]) onePair) := rfl
  have hlacks : Lacks [0] (new 1) := lacks_iff.mpr fun _ => leafLacks_new .leaf
  obtain ⟨hfound, hgone, -⟩ := delete_correct (.insert .new hlacks hinsert) hdelete
  exact ⟨hfound, hgone⟩

/-- The tree with a second pair of the same key. -/
def twoPairs : BTree := StateSpec.final (insert 4096 [0] 2) onePair

/-- A key that was inserted twice is found after it was deleted. -/
theorem delete_leaves_second : ¬ ∀ (capacity n : ℕ) (t t' : BTree) (key : BTreeKey)
    (deletedValue : Option BTreeValue), Reachable (fun _ _ => True) capacity n t →
      delete capacity key t = .ok deletedValue t' → t'.search key = .ok none := by
  intro h
  have hfirst : insert 4096 [0] 1 (new 1) = .ok () onePair := rfl
  have hsecond : insert 4096 [0] 2 onePair = .ok () twoPairs := rfl
  have hone : Reachable (fun _ _ => True) 4096 1 onePair := .insert .new trivial hfirst
  have htwo : Reachable (fun _ _ => True) 4096 1 twoPairs := .insert hone trivial hsecond
  have hdelete : delete 4096 [0] twoPairs = .ok (some 2) (StateSpec.final (delete 4096 [0]) twoPairs) := rfl
  have hfound : (StateSpec.final (delete 4096 [0]) twoPairs).search [0] = .ok (some 1) := rfl
  have hgone := h 4096 1 twoPairs _ [0] (some 2) htwo hdelete
  rw [hfound] at hgone
  cases hgone

end BTree

end Rustgresql
