import Rustgresql.Storage.BTree.Shape

/-!
# Well-formed B-trees

`wellFormed_of_freshRun`: after insertions of new keys and deletions every node is sound, its children
are one more than its entries and keep between them, and all leaves are at one depth. A search then ends
in a leaf, and what an insertion or a deletion can fail with is a node that does not fit into its page.
-/

namespace Rustgresql

open StateSpec
open Fence (Fenced)

namespace BTree

open BTreeNode (without Tidy)

/-- The keys in the pages of a subtree, down to a depth. -/
def keysBelow (t : BTree) : ℕ → ℕ → List BTreeKey
  | 0, id => (t.nodeAt id).entries.map BTreeEntry.key
  | h + 1, id => (t.nodeAt id).entries.map BTreeEntry.key ++ (t.nodeAt id).children.flatMap (keysBelow t h)

/-- The entries of a node are counted, not too many, and in order. -/
structure Sound (node : BTreeNode) : Prop where
  count : node.entryCount = node.entries.length
  length_le : node.entries.length ≤ maxKeys
  ordered : Ordered node.entries

/-- The subtree of a page has all leaves at one depth, and the keys below a child are strictly between the
separators on its sides. -/
def WellFormed (t : BTree) : ℕ → ℕ → Prop
  | 0, id => Sound (t.nodeAt id) ∧ (t.nodeAt id).nodeType = .leaf
  | h + 1, id => Sound (t.nodeAt id) ∧ (t.nodeAt id).nodeType = .internal ∧
    (t.nodeAt id).children.length = (t.nodeAt id).entries.length + 1 ∧
    Fenced (fun a c b => WellFormed t h c ∧ ∀ k ∈ keysBelow t h c, a < bound k ∧ bound k < b) ⊥
      (fences (t.nodeAt id).entries) (t.nodeAt id).children ⊤

variable {capacity m n : ℕ} {L : Labels} {H : ℕ} {S : Set BTreeKey} {t t' : BTree} {l : Label}
  {node : BTreeNode} {key : BTreeKey}

theorem NodeFits.sound (h : NodeFits L l node) : Sound node := ⟨h.count, h.length_le, h.ordered⟩

/-- A labelled page has a well-formed subtree, with keys within the bounds of its label. -/
theorem Shape.wellFormed (h : Shape m L H S t) (height id : ℕ) (hid : L id = some l) (hheight : l.height = height) :
    WellFormed t height id ∧ ∀ k ∈ keysBelow t height id, l.lo < bound k ∧ bound k < l.hi := by
  induction height generalizing id l with
  | zero =>
    have hfits := h.fits id l hid
    refine ⟨⟨hfits.sound, (hfits.leaf hheight).1⟩, fun k hk => ?_⟩
    obtain ⟨e, he, rfl⟩ := List.mem_map.mp hk
    exact hfits.within e he
  | succ height ih =>
    have hfits := h.fits id l hid
    obtain ⟨htype, hfenced⟩ := hfits.internal height hheight
    have hbelow : Fenced (fun a c b => WellFormed t height c ∧
        ∀ k ∈ keysBelow t height c, a < bound k ∧ bound k < b) l.lo (fences (t.nodeAt id).entries)
        (t.nodeAt id).children l.hi :=
      hfenced.imp fun a c b _ hslot => ih c hslot.1 rfl
    have hlength := hfenced.length
    rw [fences, List.length_map] at hlength
    refine ⟨⟨hfits.sound, htype, hlength, hbelow.widen ?_ bot_le le_top⟩, fun k hk => ?_⟩
    · rintro a c b a' b' ⟨hwell, hkeys⟩ ha hb
      exact ⟨hwell, fun k hk => ⟨ha.trans_lt (hkeys k hk).1, (hkeys k hk).2.trans_le hb⟩⟩
    · rcases List.mem_append.mp hk with hk | hk
      · obtain ⟨e, he, rfl⟩ := List.mem_map.mp hk
        exact hfits.within e he
      · obtain ⟨c, hc, hk⟩ := List.mem_flatMap.mp hk
        obtain ⟨n', a, b, hn', hlabel, -, hlo, hhi⟩ := hfits.child hc
        obtain rfl : n' = height := Nat.succ.inj (hn'.symm.trans hheight)
        obtain ⟨ha, hb⟩ := (ih c hlabel rfl).2 k hk
        exact ⟨hlo.trans_lt ha, hb.trans_le hhi⟩

/-! ## Search and deletion in a tree of the shape -/

/-- There is a child behind the place of every key. -/
theorem NodeFits.child_of_position (h : NodeFits L l node) {n : ℕ} (hheight : l.height = n + 1) (key : BTreeKey) :
    ∃ c, node.children[node.findInsertPosition key]? = some c ∧ ∃ a b, L c = some ⟨n, a, b⟩ := by
  have hlength := (h.internal n hheight).2.length
  rw [fences, List.length_map] at hlength
  have hlt : node.findInsertPosition key < node.children.length := by
    rw [findInsertPosition_eq, hlength]
    exact Nat.lt_succ_of_le (List.takeWhile_prefix _).length_le
  refine ⟨_, List.getElem?_eq_getElem hlt, ?_⟩
  obtain ⟨n', a, b, hn', hlabel, -⟩ := h.child (List.getElem_mem hlt)
  obtain rfl : n' = n := Nat.succ.inj (hn'.symm.trans hheight)
  exact ⟨a, b, hlabel⟩

/-- A search below a page ends in a leaf. -/
theorem Shape.searchInNode_returns (h : Shape m L H S t) (key : BTreeKey) (n id : ℕ) (hid : L id = some l)
    (hn : l.height < n) : ∃ value, t.searchInNode key n (t.nodeAt id) = .ok value := by
  induction n generalizing id l with
  | zero => exact absurd hn (Nat.not_lt_zero _)
  | succ n ih =>
    have hfits := h.fits id l hid
    rcases hheight : l.height with - | n'
    · exact ⟨_, searchInNode_leaf (hfits.leaf hheight).1 n⟩
    · obtain ⟨c, hchild, a, b, hlabel⟩ := hfits.child_of_position hheight key
      rw [searchInNode_internal (hfits.internal n' hheight).1 hchild (h.allocated c _ hlabel)]
      exact ih c hlabel (by show n' < n; omega)

theorem Shape.search_returns (h : Shape m L H S t) (key : BTreeKey) : ∃ value, t.search key = .ok value := by
  unfold search
  rw [readNode_of_lt (h.allocated _ _ h.root)]
  exact h.searchInNode_returns key _ _ h.root h.height_lt

theorem spec_handleUnderflow_allocated {childIdx : ℕ} (hlt : childIdx < node.children.length)
    (hallocated : ∀ c ∈ node.children, c < t.totalPages) :
    Spec (handleUnderflow node childIdx) t (fun _ _ => True) fun e _ => TooLarge e := by
  have hlends (siblingIdx : ℕ) (hsibling : siblingIdx < node.children.length) :
      Spec (canLend node siblingIdx) t (fun _ t' => t' = t) fun e _ => TooLarge e := by
    unfold canLend
    rw [List.getElem?_eq_getElem hsibling]
    exact (spec_loadNode_allocated (hallocated _ (List.getElem_mem hsibling))).bind fun _ _ h => h.1
  have hleft : Spec (leftLends node childIdx) t (fun _ t' => t' = t) fun e _ => TooLarge e := by
    unfold leftLends
    split
    · exact hlends _ (by omega)
    · exact rfl
  have hright : Spec (rightLends node childIdx) t (fun _ t' => t' = t) fun e _ => TooLarge e := by
    unfold rightLends
    split
    · exact hlends _ (by omega)
    · exact rfl
  unfold handleUnderflow
  apply hleft.bind
  rintro leftLends _ rfl
  split
  · exact trivial
  · apply hright.bind
    rintro rightLends _ rfl
    split
    · exact trivial
    · split
      · exact trivial
      · exact trivial

/-- A deletion below a node fails only if a node does not fit into its page. -/
theorem Shape.deletedBelow (h : Shape m L H S t) (htidy : Everywhere Tidy t) (n id : ℕ) (hid : L id = some l)
    (hn : l.height < n) (hnode : t.nodeAt id = node) :
    Spec (deleteFromNode capacity key n id node) t (DeletedBelow key n id node t) fun e _ => TooLarge e := by
  induction n generalizing id l node with
  | zero => exact absurd hn (Nat.not_lt_zero _)
  | succ n ih =>
    have hdeleted : Spec (deleteFromNode capacity key (n + 1) id node) t (DeletedBelow key (n + 1) id node t)
        fun _ _ => True := spec_deleteFromNode htidy (n + 1) id hnode
    suffices hfails : Spec (deleteFromNode capacity key (n + 1) id node) t (fun _ _ => True)
        fun e _ => TooLarge e from
      (hdeleted.and hfails).mono (fun _ _ h => h.1) fun _ _ h => h.2
    subst hnode
    have hfits := h.fits id l hid
    have hallocated := h.allocated id l hid
    rcases hheight : l.height with - | n'
    · have htype := (hfits.leaf hheight).1
      rcases hfind : (t.nodeAt id).findKey key with - | idx
      · rw [deleteFromNode_of_none htype hfind]
        trivial
      · rw [deleteFromNode_of_some htype hfind]
        exact (spec_saveNode_allocated hallocated _).bind fun _ _ _ => trivial
    · have htype := (hfits.internal n' hheight).1
      obtain ⟨c, hchild, a, b, hlabel⟩ := hfits.child_of_position hheight key
      have hcallocated := h.allocated c _ hlabel
      simp only [deleteFromNode, htype, hchild]
      apply (spec_loadNode_allocated hcallocated).bind
      rintro childNode t ⟨rfl, rfl⟩
      apply (ih c hlabel (by show n' < n; omega) rfl).bind
      rintro ⟨childNode', deletedValue, childNeedsMerge⟩ t' hdeleted'
      have htotal := hdeleted'.removed.totalPages
      split
      · have hlt : (t.nodeAt id).findInsertPosition key < (t.nodeAt id).children.length :=
          (List.getElem?_eq_some_iff.mp hchild).1
        have hsiblings : ∀ d ∈ (t.nodeAt id).children, d < t'.totalPages := by
          intro d hd
          obtain ⟨n'', x, y, -, hlabel', -⟩ := hfits.child hd
          exact htotal ▸ h.allocated d _ hlabel'
        have hunderflow : Spec (handleUnderflow (t.nodeAt id) ((t.nodeAt id).findInsertPosition key)) t'
            (fun _ t'' => t'' = t') fun e _ => TooLarge e :=
          ((spec_handleUnderflow _ _).and (spec_handleUnderflow_allocated hlt hsiblings)).mono
            (fun _ _ h => h.1.2) fun _ _ h => h.2
        apply hunderflow.bind
        rintro _ _ rfl
        exact (spec_saveNode_allocated (htotal ▸ hallocated) _).bind fun _ _ _ => trivial
      · exact (spec_saveNode_allocated (htotal ▸ hcallocated) _).bind fun _ _ _ => trivial

/-- A deletion takes a key out of a leaf, or fails because a node does not fit into its page. -/
theorem Shape.spec_delete (h : Shape m L H S t) (htidy : Everywhere Tidy t) :
    Spec (delete capacity key) t (fun _ t' => Removed key t t') fun e _ => TooLarge e := by
  have hdeleted : Spec (delete capacity key) t _ _ := BTree.spec_delete htidy
  suffices hfails : Spec (delete capacity key) t (fun _ _ => True) fun e _ => TooLarge e from
    (hdeleted.and hfails).mono (fun _ _ h => h.1.1) fun _ _ h => h.2
  unfold delete
  apply spec_get.bind
  rintro _ t ⟨rfl, rfl⟩
  apply (spec_loadNode_allocated (h.allocated _ _ h.root)).bind
  rintro rootNode t ⟨rfl, rfl⟩
  apply (h.deletedBelow htidy t.totalPages t.rootPageId h.root h.height_lt rfl).bind
  rintro ⟨rootNode', deletedValue, shouldMergeRoot⟩ t' -
  dsimp only
  split
  · trivial
  · trivial

theorem NodeFits.without (h : NodeFits L l node) (hleaf : node.nodeType = .leaf) (key : BTreeKey) :
    NodeFits L l (node.without key) := by
  have hsublist := BTreeNode.sublist_without key node
  have hheight : l.height = 0 := by
    rcases hheight : l.height with - | n
    · rfl
    · rw [(h.internal n hheight).1] at hleaf
      cases hleaf
  refine ⟨?_, hsublist.length_le.trans h.length_le, h.ordered.sublist hsublist,
    fun e he => h.within e (hsublist.subset he), fun _ => ?_, fun n hn => ?_⟩
  · rcases hfind : node.findKey key with - | idx
    · rw [BTreeNode.without_of_none hfind]
      exact h.count
    · obtain ⟨e, he, -⟩ := findKey_eq_some hfind
      have hlt := (List.getElem?_eq_some_iff.mp he).1
      rw [BTreeNode.without_of_some hfind, List.length_eraseIdx_of_lt hlt, h.count]
  · rw [BTreeNode.nodeType_without, BTreeNode.children_without]
    exact h.leaf hheight
  · exact absurd (hheight.symm.trans hn) (by simp)

/-- The shape stays when a key is taken out of a leaf. -/
theorem Shape.removed (h : Shape 0 L H S t) (hremoved : Removed key t t') : Shape 0 L H S t' := by
  obtain ⟨leafId, hleaf, hnodes⟩ := hremoved.leaf
  have hsame : SameNodes (t.withNode leafId ((t.nodeAt leafId).without key)) t' :=
    ⟨hremoved.rootPageId, hremoved.totalPages, by rw [hnodes, nodeAt_withNode]⟩
  refine (h.withNode le_rfl fun l hl => ⟨?_, ?_, fun _ => Nat.zero_le _⟩).same hsame
  · exact (h.fits leafId l hl).without hleaf key
  · exact fun e he => h.keys leafId l hl e ((BTreeNode.sublist_without key _).subset he)

/-! ## Runs with new keys -/

/-- Trees after insertions of keys that were never inserted before, with the keys inserted so far, and
deletions. -/
inductive FreshRun (capacity n : ℕ) : Set BTreeKey → BTree → Prop
  | new : FreshRun capacity n ∅ (BTree.new n)
  | insert {S : Set BTreeKey} {t t' : BTree} {key : BTreeKey} {value : BTreeValue} :
    FreshRun capacity n S t → key ∉ S → BTree.insert capacity key value t = .ok () t' →
      FreshRun capacity n (S ∪ {key}) t'
  | delete {S : Set BTreeKey} {t t' : BTree} {key : BTreeKey} {deletedValue : Option BTreeValue} :
    FreshRun capacity n S t → BTree.delete capacity key t = .ok deletedValue t' → FreshRun capacity n S t'

/-- A tree with its shape, whose leaves have no other keys than those inserted. -/
structure Shaped (S : Set BTreeKey) (t : BTree) : Prop where
  shape : ∃ L H, Shape 0 L H S t
  tidy : Everywhere Tidy t
  lacks : ∀ k, k ∉ S → Lacks k t

theorem Removed.lacks (h : Removed key t t') {k : BTreeKey} (hlacks : Lacks k t) : Lacks k t' := by
  obtain ⟨leafId, hleaf, hnodes⟩ := h.leaf
  refine lacks_iff.mpr fun id => ?_
  rw [hnodes]
  by_cases hid : id = leafId
  · rw [hid, Function.update_self]
    exact fun _ e he => lacks_iff.mp hlacks leafId hleaf e ((BTreeNode.sublist_without key _).subset he)
  · rw [Function.update_of_ne hid]
    exact lacks_iff.mp hlacks id

theorem shaped_of_freshRun (h : FreshRun capacity n S t) : Shaped S t := by
  induction h with
  | new =>
    refine ⟨⟨_, 0, shape_new 0 n⟩, fun _ _ => ⟨List.Pairwise.nil, rfl⟩, fun k _ => ?_⟩
    exact lacks_iff.mpr fun _ => leafLacks_new .leaf
  | @insert S t t' key value _ hkey hrun ih =>
    obtain ⟨⟨L, H, hshape⟩, htidy, hlacks⟩ := ih
    obtain ⟨L', H', hshape', -⟩ := (hshape.spec_insert (Nat.zero_le 49) hkey).post hrun
    have hnodes : Everywhere (fun node => Tidy node ∧ LeafLacks key node) t :=
      fun id => ⟨htidy id, lacks_iff.mp (hlacks key hkey) id⟩
    refine ⟨⟨L', H', hshape'⟩, (everywhere_insert (kept_tidy key value) hnodes).post hrun, fun k hk => ?_⟩
    have hne : key ≠ k := fun heq => hk (.inr heq.symm)
    exact (lacks_insert hne value (hlacks k fun hk' => hk (.inl hk'))).post hrun
  | delete _ hrun ih =>
    obtain ⟨⟨L, H, hshape⟩, htidy, hlacks⟩ := ih
    have hremoved := (hshape.spec_delete htidy).post hrun
    exact ⟨⟨L, H, hshape.removed hremoved⟩, hremoved.everywhere htidy, fun k hk => hremoved.lacks (hlacks k hk)⟩

/-- Every tree that insertions of new keys and deletions lead to is well-formed, no deeper than it has
pages. Searches in it return, and insertions of new keys and deletions fail only if a node does not fit
into its page. -/
theorem wellFormed_of_freshRun (h : FreshRun capacity n S t) :
    (∃ H, H < t.totalPages ∧ WellFormed t H t.rootPageId) ∧ (∀ key, ∃ value, t.search key = .ok value) ∧
      (∀ key value e t', key ∉ S → insert capacity key value t = .error e t' → TooLarge e) ∧
      ∀ key e t', delete capacity key t = .error e t' → TooLarge e := by
  obtain ⟨⟨L, H, hshape⟩, htidy, -⟩ := shaped_of_freshRun h
  refine ⟨⟨H, hshape.height_lt, ?_⟩, hshape.search_returns, ?_, ?_⟩
  · exact (hshape.wellFormed H t.rootPageId hshape.root rfl).1
  · intro key value e t' hkey hrun
    exact (hshape.spec_insert (Nat.zero_le 49) hkey).fail hrun
  · intro key e t' hrun
    exact (hshape.spec_delete htidy).fail hrun

theorem wellFormed_onePair : (∃ H, H < onePair.totalPages ∧ WellFormed onePair H onePair.rootPageId) ∧
    ∀ key, ∃ value, onePair.search key = .ok value := by
  have hinsert : insert 4096 [0] 1 (new 1) = .ok () onePair := rfl
  obtain ⟨hwell, hsearch, -⟩ := wellFormed_of_freshRun (.insert .new (Set.notMem_empty [0]) hinsert)
  exact ⟨hwell, hsearch⟩

end BTree

end Rustgresql
