import Rustgresql.Storage.BTree.Pages

/-!
# Insertion into a B-tree

`search_insertAll_iff`: as long as a tree is a single leaf, every inserted key is found. The split of
that leaf moves the middle entry up as separator, and a search passes separators by.
-/

namespace Rustgresql

open StateSpec

namespace BTree

/-! ## Keys that are in no leaf -/

section Lacks

/-- A leaf does not have a key. -/
def LeafLacks (k : BTreeKey) (node : BTreeNode) : Prop :=
  node.nodeType = .leaf → ∀ e ∈ node.entries, e.key ≠ k

/-- No leaf that is saved in a page has a key. -/
def Lacks (k : BTreeKey) (t : BTree) : Prop := ∀ id node, t.pages id = some node → LeafLacks k node

variable {k : BTreeKey} {t : BTree} {node : BTreeNode}

theorem leafLacks_new (nodeType : BTreeNodeType) : LeafLacks k (.new nodeType) :=
  fun _ _ he => absurd he List.not_mem_nil

theorem leafLacks_of_internal (h : node.nodeType = .internal) : LeafLacks k node := by
  intro hleaf
  rw [h] at hleaf
  cases hleaf

theorem lacks_iff : Lacks k t ↔ Everywhere (LeafLacks k) t := by
  constructor
  · intro h id
    unfold nodeAt
    rcases hpage : t.pages id with - | node
    · exact leafLacks_new .leaf
    · exact h id node hpage
  · intro h id node hpage
    have hnode := h id
    rwa [nodeAt, hpage] at hnode

variable {capacity : ℕ}

theorem leafLacks_insertEntry {e : BTreeEntry} {node' : BTreeNode} (hnode : LeafLacks k node)
    (he : e.key ≠ k) (h : node.insertEntry e = .ok node') : LeafLacks k node' := by
  unfold BTreeNode.insertEntry at h
  split at h
  · cases h
  · cases h
    intro hleaf e' he'
    rcases List.eq_or_mem_of_mem_insertIdx he' with rfl | he'
    · exact he
    · exact hnode hleaf e' he'

/-- What a split leaves on both sides was there before. -/
theorem split_eq_ok {left right : BTreeNode} {separator : BTreeEntry}
    (h : node.split = .ok (left, right, separator)) :
    left.nodeType = node.nodeType ∧ right.nodeType = node.nodeType ∧
      left.entries = node.entries.take (node.entryCount / 2) ∧
      node.entries.drop (node.entryCount / 2) = separator :: right.entries := by
  unfold BTreeNode.split at h
  dsimp only at h
  split at h
  · cases h
  · split at h
    · cases h
    · next hdrop =>
      cases h
      exact ⟨rfl, rfl, rfl, hdrop⟩

theorem leafLacks_split {left right : BTreeNode} {separator : BTreeEntry} (hnode : LeafLacks k node)
    (h : node.split = .ok (left, right, separator)) : LeafLacks k left ∧ LeafLacks k right := by
  obtain ⟨hleft, hright, hentries, hdrop⟩ := split_eq_ok h
  constructor
  · intro hleaf e he
    rw [hentries] at he
    exact hnode (hleft ▸ hleaf) e (List.mem_of_mem_take he)
  · intro hleaf e he
    have hmem : e ∈ node.entries.drop (node.entryCount / 2) := by
      rw [hdrop]
      exact List.mem_cons_of_mem _ he
    exact hnode (hright ▸ hleaf) e (List.mem_of_mem_drop hmem)

theorem kept_leafLacks {key : BTreeKey} (hkey : key ≠ k) (value : BTreeValue) :
    KeptByInsertion ⟨key, value⟩ (LeafLacks k) (LeafLacks k) where
  internal _ := leafLacks_of_internal
  split _ _ _ _ := leafLacks_split
  insert _ _ hnode := leafLacks_insertEntry hnode hkey
  weaken _ := id

/-- Another key is inserted: `k` gets into no leaf. -/
theorem lacks_insertIntoNode {key : BTreeKey} (hkey : key ≠ k) (value : BTreeValue) (n id : ℕ)
    (hnode : LeafLacks k node) (h : Lacks k t) :
    Spec (insertIntoNode capacity key value n id node) t (fun _ => Lacks k) fun _ _ => True :=
  (everywhere_insertIntoNode (kept_leafLacks hkey value) n id hnode (lacks_iff.mp h)).conseq
    fun _ _ => lacks_iff.mpr

/-- If `k` is in no other leaf and not in the halves of the root, it is in no leaf after the split. -/
theorem lacks_splitRoot (h : ∀ id, id ≠ t.rootPageId → LeafLacks k (t.nodeAt id))
    (hsplit : ∀ left right separator, node.split = .ok (left, right, separator) →
      LeafLacks k left ∧ LeafLacks k right) :
    Spec (splitRoot capacity node) t (fun node' t' => LeafLacks k node' ∧ Lacks k t')
      fun _ _ => True :=
  (everywhere_splitRoot (fun _ => leafLacks_of_internal) h hsplit).conseq
    fun _ _ h => ⟨h.1, lacks_iff.mpr h.2⟩

theorem lacks_insert {key : BTreeKey} (hkey : key ≠ k) (value : BTreeValue) (h : Lacks k t) :
    Spec (insert capacity key value) t (fun _ => Lacks k) fun _ _ => True :=
  (everywhere_insert (kept_leafLacks hkey value) (lacks_iff.mp h)).conseq fun _ _ => lacks_iff.mpr

theorem lacks_insertAll {ps : List (BTreeKey × BTreeValue)} (hps : ∀ p ∈ ps, p.1 ≠ k) (h : Lacks k t) :
    Spec (insertAll capacity ps) t (fun _ => Lacks k) fun _ _ => True := by
  induction ps generalizing t with
  | nil => exact h
  | cons p ps ih =>
    obtain ⟨hp, hps⟩ := List.forall_mem_cons.mp hps
    unfold insertAll
    exact (lacks_insert hp p.2 h).bind fun _ t' h' => ih hps h'

theorem findKey_eq_some {pos : ℕ} (h : node.findKey k = some pos) :
    ∃ e, node.entries[pos]? = some e ∧ e.key = k := by
  unfold BTreeNode.findKey BTreeNode.binarySearch at h
  dsimp only at h
  split at h
  · next e he =>
    split at h
    · next hk =>
      cases h
      exact ⟨e, he, hk⟩
    · cases h
  · cases h

/-- A search finds only what is in a leaf. -/
theorem Lacks.search_ne (h : Lacks k t) (v : BTreeValue) : t.search k ≠ .ok (some v) := by
  have hnode (n : ℕ) : ∀ node, LeafLacks k node → t.searchInNode k n node ≠ .ok (some v) := by
    induction n with
    | zero => exact fun _ _ => nofun
    | succ n ih =>
      intro node hnode
      rcases htype : node.nodeType
      · simp only [searchInNode, htype]
        rcases hfind : node.findKey k with - | pos
        · exact nofun
        · obtain ⟨e, he, hk⟩ := findKey_eq_some hfind
          exact absurd hk (hnode htype e (List.mem_of_getElem? he))
      · simp only [searchInNode, htype]
        split
        · exact nofun
        · split
          · next childNode hread => exact ih childNode ((readNode_eq_ok.mp hread).2 ▸ lacks_iff.mp h _)
          · exact nofun
  unfold search
  split
  · next node hread => exact hnode _ node ((readNode_eq_ok.mp hread).2 ▸ lacks_iff.mp h _)
  · exact nofun

end Lacks

/-! ## A single leaf -/

section Single

/-- The leaf with these entries. -/
def leafNode (entries : List BTreeEntry) : BTreeNode := ⟨.leaf, entries.length, entries, [], none, none⟩

/-- The entries are in the order of their keys, and no key is there twice. -/
def Ordered (entries : List BTreeEntry) : Prop := entries.Pairwise fun e e' => e.key < e'.key

theorem insertIdx_length_takeWhile {α : Type} (p : α → Bool) (l : List α) (a : α) :
    l.insertIdx (l.takeWhile p).length a = l.takeWhile p ++ a :: l.dropWhile p := by
  induction l with
  | nil => rfl
  | cons b l ih =>
    by_cases hb : p b
    · simp only [List.takeWhile_cons_of_pos hb, List.dropWhile_cons_of_pos hb, List.length_cons,
        List.insertIdx_succ_cons, ih, List.cons_append]
    · simp only [List.takeWhile_cons_of_neg hb, List.dropWhile_cons_of_neg hb, List.length_nil,
        List.insertIdx_zero, List.nil_append]

theorem getElem?_length_takeWhile {α : Type} (p : α → Bool) (l : List α) :
    l[(l.takeWhile p).length]? = (l.dropWhile p).head? := by
  induction l with
  | nil => rfl
  | cons b l ih =>
    by_cases hb : p b
    · simp only [List.takeWhile_cons_of_pos hb, List.dropWhile_cons_of_pos hb, List.length_cons,
        List.getElem?_cons_succ, ih]
    · simp only [List.takeWhile_cons_of_neg hb, List.dropWhile_cons_of_neg hb, List.length_nil,
        List.getElem?_cons_zero, List.head?_cons]

/-- The place of a key is behind the smaller ones. -/
theorem findInsertPosition_eq (node : BTreeNode) (k : BTreeKey) :
    node.findInsertPosition k = (node.entries.takeWhile (BTreeEntry.before k)).length := by
  unfold BTreeNode.findInsertPosition BTreeNode.binarySearch
  dsimp only
  rcases node.entries[(node.entries.takeWhile (BTreeEntry.before k)).length]? with - | e
  · rfl
  · by_cases hk : e.key = k
    · simp only [if_pos hk]
    · simp only [if_neg hk]

theorem BTreeEntry.before_iff {k : BTreeKey} {e : BTreeEntry} : e.before k = true ↔ e.key < k :=
  decide_eq_true_iff

/-- Entries in order with one more. -/
def insertOrdered (e : BTreeEntry) (entries : List BTreeEntry) : List BTreeEntry :=
  entries.takeWhile (BTreeEntry.before e.key) ++ e :: entries.dropWhile (BTreeEntry.before e.key)

theorem insertOrdered_perm (e : BTreeEntry) (entries : List BTreeEntry) :
    (insertOrdered e entries).Perm (e :: entries) := by
  have hperm : (insertOrdered e entries).Perm _ := List.perm_middle
  rwa [List.takeWhile_append_dropWhile] at hperm

theorem ordered_insert {entries : List BTreeEntry} {e : BTreeEntry} (h : Ordered entries)
    (he : ∀ e' ∈ entries, e'.key ≠ e.key) :
    Ordered (insertOrdered e entries) := by
  induction entries with
  | nil => exact List.pairwise_singleton _ _
  | cons a entries ih =>
    obtain ⟨ha, h⟩ := List.pairwise_cons.mp h
    obtain ⟨hne, he⟩ := List.forall_mem_cons.mp he
    by_cases hlt : a.before e.key
    · unfold insertOrdered
      rw [List.takeWhile_cons_of_pos hlt, List.dropWhile_cons_of_pos hlt, List.cons_append]
      refine List.pairwise_cons.mpr ⟨fun e' he' => ?_, ih h he⟩
      rcases List.mem_cons.mp ((insertOrdered_perm e entries).mem_iff.mp he') with rfl | hmem
      · exact BTreeEntry.before_iff.mp hlt
      · exact ha e' hmem
    · have hgt : e.key < a.key :=
        lt_of_le_of_ne (not_lt.mp (mt BTreeEntry.before_iff.mpr hlt)) hne.symm
      unfold insertOrdered
      rw [List.takeWhile_cons_of_neg hlt, List.dropWhile_cons_of_neg hlt, List.nil_append]
      refine List.pairwise_cons.mpr ⟨?_, List.pairwise_cons.mpr ⟨ha, h⟩⟩
      exact List.forall_mem_cons.mpr ⟨hgt, fun e' he' => hgt.trans (ha e' he')⟩

theorem head?_dropWhile {entries : List BTreeEntry} (h : Ordered entries) (k : BTreeKey) :
    ((entries.dropWhile (BTreeEntry.before k)).head?.filter fun e => e.key = k) =
      entries.find? fun e => e.key = k := by
  induction entries with
  | nil => rfl
  | cons a entries ih =>
    obtain ⟨ha, h⟩ := List.pairwise_cons.mp h
    by_cases hlt : a.before k
    · have hne : a.key ≠ k := (BTreeEntry.before_iff.mp hlt).ne
      rw [List.dropWhile_cons_of_pos hlt, ih h, List.find?_cons_of_neg (by simpa using hne)]
    · rw [List.dropWhile_cons_of_neg hlt, List.head?_cons]
      by_cases hk : a.key = k
      · simp [hk]
      · have hgt : k < a.key :=
          lt_of_le_of_ne (not_lt.mp (mt BTreeEntry.before_iff.mpr hlt)) (Ne.symm hk)
        have hnone : (entries.find? fun e => e.key = k) = none := by
          refine List.find?_eq_none.mpr fun e he => ?_
          simpa using (hgt.trans (ha e he)).ne'
        simp [hk, hnone]

/-- Binary search in a leaf finds the entry with a key. -/
theorem value_findKey {node : BTreeNode} (h : Ordered node.entries) (k : BTreeKey) :
    ((node.findKey k).bind fun pos => node.entries[pos]?.map BTreeEntry.value) =
      (node.entries.find? fun e => e.key = k).map BTreeEntry.value := by
  rw [← head?_dropWhile h k, ← getElem?_length_takeWhile]
  unfold BTreeNode.findKey BTreeNode.binarySearch
  dsimp only
  rcases he : node.entries[(node.entries.takeWhile (BTreeEntry.before k)).length]? with - | e
  · rfl
  · by_cases hk : e.key = k
    · simp [hk, he, Except.toOption]
    · simp [hk, Except.toOption]

/-- The tree is one leaf with these entries, which stand for the inserted pairs. -/
structure IsLeaf (t : BTree) (entries : List BTreeEntry) (ps : List (BTreeKey × BTreeValue)) : Prop where
  root_lt : t.rootPageId < t.totalPages
  readNode : t.readNode t.rootPageId = .ok (leafNode entries)
  others : ∀ id, id ≠ t.rootPageId → t.pages id = none
  ordered : Ordered entries
  perm : (entries.map fun e => (e.key, e.value)).Perm ps

theorem isLeaf_new (n : ℕ) : IsLeaf (new n) [] [] where
  root_lt := Nat.lt_succ_self n
  readNode := by
    have hlt : (BTree.new n).rootPageId < (BTree.new n).totalPages := Nat.lt_succ_self n
    unfold BTree.readNode
    rw [if_pos hlt]
    rfl
  others _ _ := rfl
  ordered := List.Pairwise.nil
  perm := .refl _

variable {capacity : ℕ} {t t' : BTree} {entries : List BTreeEntry} {ps : List (BTreeKey × BTreeValue)}

theorem IsLeaf.length (h : IsLeaf t entries ps) : entries.length = ps.length := by
  have hlength := h.perm.length_eq
  rwa [List.length_map] at hlength

theorem IsLeaf.loadNode (h : IsLeaf t entries ps) :
    loadNode t.rootPageId t = .ok (leafNode entries) t := by
  unfold BTree.loadNode
  rw [h.readNode]

theorem insertEntry_leafNode (hfull : entries.length < maxKeys) (e : BTreeEntry) :
    (leafNode entries).insertEntry e = .ok (leafNode (insertOrdered e entries)) := by
  have hnotFull : (leafNode entries).isFull = false := by
    unfold BTreeNode.isFull leafNode
    simpa using hfull
  have hlength : entries.length + 1 = (insertOrdered e entries).length :=
    (insertOrdered_perm e entries).length_eq.symm
  unfold BTreeNode.insertEntry
  rw [hnotFull, if_neg Bool.false_ne_true, findInsertPosition_eq]
  unfold leafNode
  dsimp only
  rw [insertIdx_length_takeWhile, hlength]
  rfl

/-- A leaf that is not full is saved with one more entry. -/
theorem IsLeaf.insert_eq (h : IsLeaf t entries ps) (hfull : ps.length < maxKeys) (k : BTreeKey)
    (v : BTreeValue) : BTree.insert capacity k v t = saveNode capacity t.rootPageId
      (leafNode (insertOrdered ⟨k, v⟩ entries)) t := by
  have hlength := h.length
  have hnotFull : (leafNode entries).isFull = false := by
    unfold BTreeNode.isFull leafNode
    simp only [decide_eq_false_iff_not]
    omega
  have hroot : splitFullRoot capacity (leafNode entries) t = .ok (leafNode entries) t := by
    unfold splitFullRoot
    rw [hnotFull]
    rfl
  have hentry : onNode ((leafNode entries).insertEntry ⟨k, v⟩) t =
      .ok (leafNode (insertOrdered ⟨k, v⟩ entries)) t := by
    rw [insertEntry_leafNode (by omega)]
    rfl
  obtain ⟨n, hn⟩ : ∃ n, t.totalPages = n + 1 :=
    Nat.exists_eq_succ_of_ne_zero (Nat.ne_zero_of_lt h.root_lt)
  have hinto : insertIntoNode capacity k v t.totalPages t.rootPageId (leafNode entries) t =
      saveNode capacity t.rootPageId (leafNode (insertOrdered ⟨k, v⟩ entries)) t := by
    rw [hn]
    exact bind_of_ok hentry
  unfold BTree.insert
  rw [get_bind, bind_of_ok h.loadNode, bind_of_ok hroot, get_bind, hinto]

/-- A pair is inserted into a leaf that is not full. -/
theorem IsLeaf.insert (h : IsLeaf t entries ps) (hfull : ps.length < maxKeys) {k : BTreeKey}
    {v : BTreeValue} (hk : ∀ p ∈ ps, p.1 ≠ k) (hrun : BTree.insert capacity k v t = .ok () t') :
    ∃ entries', IsLeaf t' entries' (ps ++ [(k, v)]) := by
  have hne : ∀ e ∈ entries, e.key ≠ k := fun e he =>
    hk _ (h.perm.mem_iff.mp (List.mem_map_of_mem he))
  rw [h.insert_eq hfull] at hrun
  obtain ⟨-, rfl⟩ := (spec_saveNode t.rootPageId _).post hrun
  refine ⟨_, ⟨h.root_lt, ?_, ?_, ordered_insert (e := ⟨k, v⟩) h.ordered hne, ?_⟩⟩
  · apply readNode_eq_ok.mpr
    rw [nodeAt_withNode]
    exact ⟨h.root_lt, Function.update_self ..⟩
  · intro id hid
    exact (Function.update_of_ne hid ..).trans (h.others id hid)
  · have hcons : ((k, v) :: entries.map fun e => (e.key, e.value)).Perm ((k, v) :: ps) := h.perm.cons _
    have hmap := (insertOrdered_perm ⟨k, v⟩ entries).map fun e => (e.key, e.value)
    exact (hmap.trans hcons).trans (List.perm_append_singleton _ _).symm

/-- Pairs with distinct keys are looked up as members. -/
theorem lookup_eq_some_iff_mem (hps : (ps.map Prod.fst).Nodup) {k : BTreeKey} {v : BTreeValue} :
    ps.lookup k = some v ↔ (k, v) ∈ ps := by
  rw [List.lookup_eq_some_iff]
  constructor
  · rintro ⟨l₁, l₂, rfl, -⟩
    exact List.mem_append_right _ List.mem_cons_self
  · intro h
    obtain ⟨l₁, l₂, rfl⟩ := List.append_of_mem h
    refine ⟨l₁, l₂, rfl, fun p hp => ?_⟩
    rw [List.map_append, List.map_cons, List.nodup_append] at hps
    have hne := hps.2.2 p.1 (List.mem_map_of_mem hp) k List.mem_cons_self
    simpa using hne.symm

theorem IsLeaf.lookup (h : IsLeaf t entries ps) (hps : (ps.map Prod.fst).Nodup) (k : BTreeKey) :
    (entries.find? fun e => e.key = k).map BTreeEntry.value = ps.lookup k := by
  apply Option.ext
  intro v
  rw [lookup_eq_some_iff_mem hps, Option.map_eq_some_iff]
  constructor
  · rintro ⟨e, he, rfl⟩
    have hk : e.key = k := by simpa using List.find?_some he
    exact hk ▸ h.perm.mem_iff.mp (List.mem_map_of_mem (List.mem_of_find?_eq_some he))
  · intro hv
    obtain ⟨e, he, hkv⟩ := List.mem_map.mp (h.perm.mem_iff.mpr hv)
    obtain ⟨e', he'⟩ : ∃ e', (entries.find? fun e => e.key = k) = some e' := by
      apply Option.isSome_iff_exists.mp
      rw [List.find?_isSome]
      exact ⟨e, he, by simpa using congrArg Prod.fst hkv⟩
    have hk : e'.key = k := by simpa using List.find?_some he'
    have hmem : (k, e'.value) ∈ ps :=
      hk ▸ h.perm.mem_iff.mp (List.mem_map_of_mem (List.mem_of_find?_eq_some he'))
    exact ⟨e', he', congrArg Prod.snd (List.inj_on_of_nodup_map hps hmem hv rfl)⟩

/-- A leaf answers every search. -/
theorem IsLeaf.search (h : IsLeaf t entries ps) (hps : (ps.map Prod.fst).Nodup) (k : BTreeKey) :
    t.search k = .ok (ps.lookup k) := by
  obtain ⟨n, hn⟩ : ∃ n, t.totalPages = n + 1 :=
    Nat.exists_eq_succ_of_ne_zero (Nat.ne_zero_of_lt h.root_lt)
  unfold BTree.search
  rw [h.readNode]
  dsimp only
  rw [hn, ← h.lookup hps k]
  have hvalue : ((leafNode entries).findKey k).bind (fun pos => entries[pos]?.map BTreeEntry.value) =
      (entries.find? fun e => e.key = k).map BTreeEntry.value := value_findKey h.ordered k
  exact congrArg Except.ok hvalue

/-! ## Insertion and search -/

theorem insertAll_append (ps qs : List (BTreeKey × BTreeValue)) :
    insertAll capacity (ps ++ qs) t = (insertAll capacity ps >>= fun _ => insertAll capacity qs) t := by
  induction ps generalizing t with
  | nil => rfl
  | cons p ps ih =>
    rw [List.cons_append, insertAll, insertAll]
    rcases hinsert : BTree.insert capacity p.1 p.2 t with ⟨⟨⟩, t'⟩ | ⟨e, t'⟩
    · rw [bind_of_ok hinsert, ih, bind_assoc, bind_of_ok hinsert]
    · rw [bind_of_error hinsert, bind_assoc, bind_of_error hinsert]

/-- Pairs that fit into the leaf are inserted there. -/
theorem IsLeaf.insertAll {qs : List (BTreeKey × BTreeValue)} (h : IsLeaf t entries ps)
    (hnodup : ((ps ++ qs).map Prod.fst).Nodup) (hlength : (ps ++ qs).length ≤ maxKeys)
    (hrun : insertAll capacity qs t = .ok () t') : ∃ entries', IsLeaf t' entries' (ps ++ qs) := by
  induction qs generalizing t entries ps with
  | nil =>
    cases hrun
    exact ⟨entries, by rwa [List.append_nil]⟩
  | cons q qs ih =>
    obtain ⟨⟨⟩, t₁, hinsert, hrest⟩ := bind_eq_ok.mp hrun
    have hq : ∀ p ∈ ps, p.1 ≠ q.1 := by
      rw [List.map_append, List.nodup_append] at hnodup
      exact fun p hp => hnodup.2.2 p.1 (List.mem_map_of_mem hp) q.1 List.mem_cons_self
    have hfull : ps.length < maxKeys := by
      rw [List.length_append, List.length_cons] at hlength
      omega
    obtain ⟨entries₁, h₁⟩ := h.insert hfull hq hinsert
    rw [← List.singleton_append, ← List.append_assoc] at hnodup hlength ⊢
    exact ih h₁ hnodup hlength hrest

/-- The insertion that splits the leaf takes the separator out of all leaves. -/
theorem IsLeaf.exists_lacks (h : IsLeaf t entries ps) (hfull : ps.length = maxKeys) {k : BTreeKey}
    (v : BTreeValue) (hk : ∀ p ∈ ps, p.1 ≠ k) :
    ∃ p ∈ ps, Spec (BTree.insert capacity k v) t (fun _ => Lacks p.1) fun _ _ => True := by
  have hlength : entries.length = 100 := h.length.trans hfull
  obtain ⟨separator, right, hdrop⟩ : ∃ separator right, entries.drop 50 = separator :: right := by
    apply List.exists_cons_of_length_pos
    rw [List.length_drop]
    omega
  have hentries : entries = entries.take 50 ++ separator :: right := by
    rw [← hdrop, List.take_append_drop]
  have hordered := h.ordered
  rw [Ordered, hentries, List.pairwise_append, List.pairwise_cons] at hordered
  obtain ⟨-, ⟨hright, -⟩, hleft⟩ := hordered
  have hmem : (separator.key, separator.value) ∈ ps := by
    refine h.perm.mem_iff.mp (List.mem_map.mpr ⟨separator, ?_, rfl⟩)
    rw [hentries]
    exact List.mem_append_right _ List.mem_cons_self
  have hhalves : ∀ l r s, (leafNode entries).split = .ok (l, r, s) →
      LeafLacks separator.key l ∧ LeafLacks separator.key r := by
    intro l r s hsplit
    obtain ⟨-, -, hl, hr⟩ := split_eq_ok hsplit
    have hmiddle : (leafNode entries).entryCount / 2 = 50 := by
      change entries.length / 2 = 50
      omega
    rw [hmiddle] at hl hr
    obtain ⟨-, hr⟩ := List.cons.inj (hdrop.symm.trans hr)
    constructor
    · intro _ e he
      rw [hl] at he
      exact (hleft e he separator List.mem_cons_self).ne
    · intro _ e he
      rw [← hr] at he
      exact (hright e he).ne'
  refine ⟨_, hmem, ?_⟩
  unfold BTree.insert
  apply spec_get.bind
  rintro _ t ⟨rfl, rfl⟩
  apply (Spec.of_ok h.loadNode (Q := fun node t' => node = leafNode entries ∧ t' = t) ⟨rfl, rfl⟩).bind
  rintro _ _ ⟨rfl, rfl⟩
  have hisFull : (leafNode entries).isFull = true := by
    unfold BTreeNode.isFull leafNode
    simp [hlength, maxKeys]
  apply Spec.bind (Q := fun node' t' => LeafLacks separator.key node' ∧ Lacks separator.key t')
  · unfold splitFullRoot
    rw [if_pos hisFull]
    refine lacks_splitRoot (fun id hid => ?_) hhalves
    rw [nodeAt, h.others id hid]
    exact leafLacks_new .leaf
  · rintro node' t' ⟨hnode', h'⟩
    exact lacks_insertIntoNode (hk _ hmem).symm v _ _ hnode' h'

end Single

/-- A run of more insertions than fit into a node, at the insertion that splits the leaf. -/
structure Overflows (capacity n : ℕ) (ps : List (BTreeKey × BTreeValue)) (t : BTree) (entries : List BTreeEntry)
    (k : BTreeKey) (v : BTreeValue) (rest : List (BTreeKey × BTreeValue)) (t₁ t₂ : BTree) : Prop where
  pairs : ps = ps.take maxKeys ++ (k, v) :: rest
  length : (ps.take maxKeys).length = maxKeys
  before : insertAll capacity (ps.take maxKeys) (new n) = .ok () t₁
  isLeaf : IsLeaf t₁ entries (ps.take maxKeys)
  insert : insert capacity k v t₁ = .ok () t₂
  after : insertAll capacity rest t₂ = .ok () t

theorem exists_overflows {capacity n : ℕ} {ps : List (BTreeKey × BTreeValue)} {t : BTree}
    (hrun : insertAll capacity ps (new n) = .ok () t) (hps : (ps.map Prod.fst).Nodup)
    (hlength : maxKeys < ps.length) :
    ∃ entries k v rest t₁ t₂, Overflows capacity n ps t entries k v rest t₁ t₂ := by
  have hdrop : 0 < (ps.drop maxKeys).length := by
    rw [List.length_drop]
    omega
  obtain ⟨⟨k, v⟩, rest, hrest⟩ := List.exists_cons_of_length_pos hdrop
  have hsplit : ps = ps.take maxKeys ++ (k, v) :: rest := by
    rw [← hrest, List.take_append_drop]
  have htake : (ps.take maxKeys).length = maxKeys := by
    rw [List.length_take]
    omega
  have hfirst : ((ps.take maxKeys).map Prod.fst).Nodup := hps.sublist ((List.take_sublist ..).map _)
  rw [hsplit, insertAll_append] at hrun
  obtain ⟨⟨⟩, t₁, hrun₁, hrun₂⟩ := bind_eq_ok.mp hrun
  obtain ⟨⟨⟩, t₂, hinsert, hrun₃⟩ := bind_eq_ok.mp hrun₂
  obtain ⟨entries, hleaf⟩ := (isLeaf_new n).insertAll (by simpa using hfirst) (by simp [htake]) hrun₁
  rw [List.nil_append] at hleaf
  exact ⟨entries, k, v, rest, t₁, t₂, hsplit, htake, hrun₁, hleaf, hinsert, hrun₃⟩

/-- The keys after the first ones are others. -/
theorem Overflows.ne {capacity n : ℕ} {ps : List (BTreeKey × BTreeValue)} {t : BTree} {entries : List BTreeEntry}
    {k : BTreeKey} {v : BTreeValue} {rest : List (BTreeKey × BTreeValue)} {t₁ t₂ : BTree}
    (h : Overflows capacity n ps t entries k v rest t₁ t₂) (hps : (ps.map Prod.fst).Nodup)
    {p q : BTreeKey × BTreeValue} (hp : p ∈ ps.take maxKeys) (hq : q ∈ (k, v) :: rest) : p.1 ≠ q.1 := by
  rw [h.pairs, List.map_append, List.nodup_append] at hps
  exact hps.2.2 p.1 (List.mem_map_of_mem hp) q.1 (List.mem_map_of_mem hq)

/-- The insertion that splits the leaf loses its separator for good. -/
theorem length_le_of_search {capacity n : ℕ} {ps : List (BTreeKey × BTreeValue)} {t : BTree}
    (hrun : insertAll capacity ps (new n) = .ok () t) (hps : (ps.map Prod.fst).Nodup)
    (hsearch : ∀ k, t.search k = .ok (ps.lookup k)) : ps.length ≤ maxKeys := by
  by_contra hlength
  obtain ⟨entries, k, v, rest, t₁, t₂, h⟩ := exists_overflows hrun hps (not_le.mp hlength)
  have hk : ∀ p ∈ ps.take maxKeys, p.1 ≠ k := fun p hp => h.ne hps hp List.mem_cons_self
  obtain ⟨⟨k', v'⟩, hmem, hlacks⟩ : ∃ p ∈ ps.take maxKeys,
      Spec (insert capacity k v) t₁ (fun _ => Lacks p.1) fun _ _ => True :=
    h.isLeaf.exists_lacks h.length v hk
  have hrestLacks : ∀ p ∈ rest, p.1 ≠ k' :=
    fun p hp => (h.ne hps hmem (List.mem_cons_of_mem _ hp)).symm
  have hfinal : Lacks k' t := (lacks_insertAll hrestLacks (hlacks.post h.insert)).post h.after
  have hlookup : ps.lookup k' = some v' :=
    (lookup_eq_some_iff_mem hps).mpr (List.mem_of_mem_take hmem)
  exact hfinal.search_ne v' ((hsearch k').trans (congrArg Except.ok hlookup))

/-- Over every sequence of insertions that return, with distinct keys, every key is found with its value
and no other key is found, if and only if they fit into one node. -/
theorem search_insertAll_iff {capacity n : ℕ} {ps : List (BTreeKey × BTreeValue)} {t : BTree}
    (hrun : insertAll capacity ps (new n) = .ok () t) (hps : (ps.map Prod.fst).Nodup) :
    (∀ k, t.search k = .ok (ps.lookup k)) ↔ ps.length ≤ maxKeys := by
  constructor
  · exact length_le_of_search hrun hps
  · intro hlength k
    obtain ⟨entries, hleaf⟩ := (isLeaf_new n).insertAll (by simpa using hps) (by simpa using hlength) hrun
    exact hleaf.search (by simpa using hps) k

/-- Two pairs, in pages with 4 KiB for data. -/
theorem search_insertAll_two :
    (StateSpec.final (insertAll 4096 [([0], 1), ([1], 2)]) (new 1)).search [1] = .ok (some 2) := by
  have hrun : insertAll 4096 [([0], 1), ([1], 2)] (new 1) =
      .ok () (StateSpec.final (insertAll 4096 [([0], 1), ([1], 2)]) (new 1)) := rfl
  exact (search_insertAll_iff hrun (by decide)).mpr (by decide) [1]

/-- One more pair than fits into a node, with keys that become smaller. -/
def manyPairs : List (BTreeKey × BTreeValue) :=
  (List.finRange 101).reverse.map fun i => ([i.castLE (by decide)], 0)

def returns {ε σ α : Type} : EStateM.Result ε σ α → Bool
  | .ok _ _ => true
  | .error _ _ => false

/-- After 101 insertions that return, a key is not found. -/
theorem insertAll_loses_key :
    ¬ ∀ (capacity n : ℕ) (ps : List (BTreeKey × BTreeValue)) (t : BTree),
      insertAll capacity ps (new n) = .ok () t → (ps.map Prod.fst).Nodup →
        ∀ k, t.search k = .ok (ps.lookup k) := by
  intro h
  have hreturns : returns (insertAll 4096 manyPairs (new 1)) = true := by decide +kernel
  have hnodup : (manyPairs.map Prod.fst).Nodup := by decide +kernel
  rcases hrun : insertAll 4096 manyPairs (new 1) with ⟨⟨⟩, t⟩ | ⟨e, t⟩
  · have hlength := length_le_of_search hrun hnodup (h 4096 1 manyPairs t hrun hnodup)
    revert hlength
    decide +kernel
  · rw [hrun] at hreturns
    cases hreturns

end BTree

end Rustgresql
