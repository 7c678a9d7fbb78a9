import Rustgresql.Storage.BTree.Shape

/-!
# Iteration over a B-tree

The iterator keeps a stack of nodes with the index of the next entry. `iteration_iff`: it goes through
all entries in order exactly as long as the tree is a single leaf. The entries of an internal node are
returned one after the other, and then only the child before the last of them is visited.
-/

namespace Rustgresql

open StateSpec
open Fence (Fenced)

/-- The stack of a B-Tree iterator, the last frame first. All nodes are taken to be flushed. -/
abbrev BTreeIterator := List (ℕ × BTreeNode × ℕ)

namespace BTreeIterator

open BTree

/-- Traverse to leftmost leaf, in that many steps -/
def descend (t : BTree) : ℕ → BTreeIterator → ℕ → BTreeNode → Result BTreeIterator
  | 0, _, _, _ => .error (.panic "the loop does not end")
  | n + 1, stack, currentId, currentNode =>
    match currentNode.nodeType with
    | .leaf => .ok ((currentId, currentNode, 0) :: stack)
    | .internal =>
      match currentNode.children with
      | [] => .ok ((currentId, currentNode, 0) :: (currentId, currentNode, 0) :: stack)
      | childId :: _ =>
        match t.readNode childId with
        | .ok childNode => descend t n ((currentId, currentNode, 0) :: stack) childId childNode
        | .error e => .error e

/-- Create a new iterator starting from the first key -/
def new (t : BTree) : Result BTreeIterator :=
  match t.readNode t.rootPageId with
  | .ok rootNode => descend t t.totalPages [] t.rootPageId rootNode
  | .error e => .error e

/-- Create a new iterator starting from a specific key -/
def seek (t : BTree) (_key : BTreeKey) : Result BTreeIterator := new t

/-- One round of `next` with the frame on top: the pair that it returns, or none, and the stack. -/
def round (t : BTree) (pageId : ℕ) (node : BTreeNode) (entryIdx : ℕ) (stack : BTreeIterator) :
    Result (Option (BTreeKey × BTreeValue) × BTreeIterator) :=
  if entryIdx < node.entryCount then
    match node.entries[entryIdx]? with
    | some entry => .ok (some (entry.key, entry.value), (pageId, node, entryIdx + 1) :: stack)
    | none => .error (.panic
      s!"index out of bounds: the len is {node.entries.length} but the index is {entryIdx}")
  else
    match node.nodeType with
    | .leaf => .ok (none, stack)
    | .internal =>
      if entryIdx = 0 then .error (.panic "attempt to subtract with overflow")
      else
        match node.children[entryIdx - 1]? with
        | none => .ok (none, stack)
        | some childId =>
          match t.readNode childId with
          | .ok childNode => .ok (none, (childId, childNode, 0) :: stack)
          | .error e => .error e

/-- The next pair, in that many rounds -/
def next (t : BTree) : ℕ → BTreeIterator → Result (Option (BTreeKey × BTreeValue) × BTreeIterator)
  | 0, _ => .error (.panic "the loop does not end")
  | _ + 1, [] => .ok (none, [])
  | n + 1, (pageId, node, entryIdx) :: stack =>
    match round t pageId node entryIdx stack with
    | .ok (some pair, stack) => .ok (some pair, stack)
    | .ok (none, stack) => next t n stack
    | .error e => .error e

/-- The pairs that `next` returns until it returns none, if there are fewer than this. -/
def drain (t : BTree) : ℕ → BTreeIterator → Result (List (BTreeKey × BTreeValue))
  | 0, _ => .error (.panic "the loop does not end")
  | n + 1, stack =>
    match next t (n + 1) stack with
    | .ok (some pair, stack) => (drain t n stack).map fun pairs => pair :: pairs
    | .ok (none, _) => .ok []
    | .error e => .error e

/-- An iterator returns exactly these pairs, in the order of their keys, and then ends. -/
def Yields (t : BTree) (it : Result BTreeIterator) (pairs : List (BTreeKey × BTreeValue)) : Prop :=
  ∃ stack out n, it = .ok stack ∧ drain t n stack = .ok out ∧ out.Pairwise (fun p q => p.1 < q.1) ∧
    out.Perm pairs

/-! ## Rounds -/

variable {t : BTree} {stack stack' bottom : BTreeIterator} {out out' : List (BTreeKey × BTreeValue)}
  {id entryIdx : ℕ} {node : BTreeNode}

/-- Rounds until the stack is empty, with the pairs that they return. -/
inductive Rounds (t : BTree) : BTreeIterator → List (BTreeKey × BTreeValue) → Prop
  | done : Rounds t [] []
  | round {id entryIdx : ℕ} {node : BTreeNode} {stack stack' : BTreeIterator}
    {pair : Option (BTreeKey × BTreeValue)} {out : List (BTreeKey × BTreeValue)} :
    round t id node entryIdx stack = .ok (pair, stack') → Rounds t stack' out →
      Rounds t ((id, node, entryIdx) :: stack) (pair.toList ++ out)

/-- `next` returns none when the stack is empty. -/
theorem next_none (n : ℕ) (h : next t n stack = .ok (none, stack')) : stack' = [] := by
  induction n generalizing stack with
  | zero => cases h
  | succ n ih =>
    match stack with
    | [] =>
      cases h
      rfl
    | (id, node, entryIdx) :: stack =>
      unfold next at h
      split at h
      · cases h
      · exact ih h
      · cases h

theorem rounds_of_next (n : ℕ) {pair : Option (BTreeKey × BTreeValue)}
    (h : next t n stack = .ok (pair, stack')) (hout : Rounds t stack' out) :
    Rounds t stack (pair.toList ++ out) := by
  induction n generalizing stack with
  | zero => cases h
  | succ n ih =>
    match stack with
    | [] =>
      cases h
      exact hout
    | (id, node, entryIdx) :: stack =>
      unfold next at h
      split at h
      · next hround =>
        cases h
        exact .round hround hout
      · next hround =>
        show Rounds t _ ((none : Option (BTreeKey × BTreeValue)).toList ++ (pair.toList ++ out))
        exact .round hround (ih h)
      · cases h

theorem rounds_of_drain (n : ℕ) (h : drain t n stack = .ok out) : Rounds t stack out := by
  induction n generalizing stack out with
  | zero => cases h
  | succ n ih =>
    unfold drain at h
    split at h
    · next pair stack' hnext =>
      rcases hdrain : drain t n stack' with e | pairs
      · rw [hdrain] at h
        cases h
      · rw [hdrain] at h
        cases h
        exact rounds_of_next _ hnext (ih hdrain)
    · next stack' hnext =>
      cases h
      have hstack := next_none _ hnext
      subst hstack
      exact rounds_of_next _ hnext .done
    · cases h

/-- The rounds from a stack are determined. -/
theorem Rounds.unique (h : Rounds t stack out) (h' : Rounds t stack out') : out = out' := by
  induction h generalizing out' with
  | done =>
    cases h'
    rfl
  | round hround _ ih =>
    cases h' with
    | round hround' hrest' =>
      obtain ⟨rfl, rfl⟩ := Prod.mk.inj (Except.ok.inj (hround.symm.trans hround'))
      rw [ih hrest']

/-- A round leaves what is below the frame alone. -/
theorem round_append {pair : Option (BTreeKey × BTreeValue)}
    (h : round t id node entryIdx (stack ++ bottom) = .ok (pair, stack')) :
    ∃ top, stack' = top ++ bottom := by
  unfold round at h
  split at h
  · split at h
    · cases h
      exact ⟨_ :: stack, rfl⟩
    · cases h
  · split at h
    · cases h
      exact ⟨stack, rfl⟩
    · split at h
      · cases h
      · split at h
        · cases h
          exact ⟨stack, rfl⟩
        · split at h
          · cases h
            exact ⟨_ :: stack, rfl⟩
          · cases h

/-- The rounds end with those from the bottom of the stack. -/
theorem Rounds.rest (h : Rounds t (stack ++ bottom) out) :
    ∃ out₁ out₂, out = out₁ ++ out₂ ∧ Rounds t bottom out₂ := by
  generalize hstack : stack ++ bottom = whole at h
  induction h generalizing stack with
  | done =>
    obtain ⟨-, rfl⟩ := List.append_eq_nil_iff.mp hstack
    exact ⟨[], [], rfl, .done⟩
  | @round id entryIdx node rest stack' pair out hround hrest ih =>
    match stack with
    | [] =>
      obtain rfl : bottom = (id, node, entryIdx) :: rest := hstack
      exact ⟨[], _, rfl, .round hround hrest⟩
    | frame :: stack =>
      obtain ⟨rfl, rfl⟩ := List.cons.inj hstack
      obtain ⟨top, rfl⟩ := round_append hround
      obtain ⟨out₁, out₂, rfl, hbottom⟩ := ih rfl
      exact ⟨pair.toList ++ out₁, out₂, by rw [List.append_assoc], hbottom⟩

/-- The pair of an entry. -/
def pairOf (e : BTreeEntry) : BTreeKey × BTreeValue := (e.key, e.value)

/-- The entries of the frame on top come first. -/
theorem Rounds.entries (hcount : node.entryCount = node.entries.length)
    (h : Rounds t ((id, node, entryIdx) :: stack) out) (hle : entryIdx ≤ node.entries.length) :
    ∃ out', out = (node.entries.drop entryIdx).map pairOf ++ out' ∧
      Rounds t ((id, node, node.entries.length) :: stack) out' := by
  induction hk : node.entries.length - entryIdx generalizing entryIdx out with
  | zero =>
    obtain rfl : entryIdx = node.entries.length := by omega
    exact ⟨out, by rw [List.drop_length, List.map_nil, List.nil_append], h⟩
  | succ k ih =>
    have hlt : entryIdx < node.entries.length := by omega
    cases h with
    | @round _ _ _ _ stack' pair out hround hrest =>
      unfold BTreeIterator.round at hround
      rw [if_pos (hcount ▸ hlt), List.getElem?_eq_getElem hlt] at hround
      obtain ⟨rfl, rfl⟩ := Prod.mk.inj (Except.ok.inj hround)
      obtain ⟨out', rfl, hrest'⟩ := ih hrest hlt (by omega)
      refine ⟨out', ?_, hrest'⟩
      rw [List.drop_eq_getElem_cons hlt]
      rfl

/-! ## Trees of more than one node -/

section Tall

variable {m : ℕ} {L : Labels} {H : ℕ} {S : Set BTreeKey}

theorem descend_append (n : ℕ) (h : descend t n bottom id node = .ok stack) :
    ∃ top, stack = top ++ bottom := by
  induction n generalizing bottom id node with
  | zero => cases h
  | succ n ih =>
    unfold descend at h
    split at h
    · cases h
      exact ⟨[_], rfl⟩
    · split at h
      · cases h
        exact ⟨[_, _], rfl⟩
      · split at h
        · obtain ⟨top, rfl⟩ := ih h
          exact ⟨top ++ [_], by rw [List.append_assoc]; rfl⟩
        · cases h

/-- Below a root that is no leaf the iterator begins with the root at the bottom of its stack. -/
theorem new_of_tall (h : Shape m L H S t) (hH : 0 < H) (hnew : new t = .ok stack) :
    ∃ top, stack = top ++ [(t.rootPageId, t.nodeAt t.rootPageId, 0)] := by
  obtain ⟨n, rfl⟩ := Nat.exists_eq_succ_of_ne_zero hH.ne'
  have hrootlt := h.allocated _ _ h.root
  have hfits := h.fits _ _ h.root
  obtain ⟨htype, hfenced⟩ := hfits.internal n rfl
  obtain ⟨c, cs, hchildren⟩ : ∃ c cs, (t.nodeAt t.rootPageId).children = c :: cs := by
    apply List.exists_cons_of_length_pos
    rw [hfenced.length]
    exact Nat.succ_pos _
  have hc : c ∈ (t.nodeAt t.rootPageId).children := hchildren ▸ List.mem_cons_self
  obtain ⟨n', a, b, -, hlabel, -⟩ := hfits.child hc
  obtain ⟨k, hk⟩ : ∃ k, t.totalPages = k + 1 := Nat.exists_eq_succ_of_ne_zero (Nat.ne_zero_of_lt hrootlt)
  unfold new at hnew
  rw [readNode_of_lt hrootlt, hk] at hnew
  simp only [descend, htype, hchildren, readNode_of_lt (h.allocated c _ hlabel)] at hnew
  exact descend_append k hnew

theorem round_child (id : ℕ) (stack : BTreeIterator) (hcount : node.entryCount = node.entries.length)
    (htype : node.nodeType = .internal) {k c : ℕ} (hlength : node.entries.length = k + 1) (hchild : node.children[k]? = some c)
    (hc : c < t.totalPages) :
    round t id node node.entries.length stack = .ok (none, (c, t.nodeAt c, 0) :: stack) := by
  unfold round
  rw [if_neg (by omega), htype]
  simp only [hlength, Nat.add_sub_cancel, hchild, readNode_of_lt hc, if_neg (Nat.succ_ne_zero k)]

/-- The entries of the child before the last separator come behind the separator. -/
theorem not_ordered_of_tall (h : Shape 49 L H S t) (hH : 0 < H) (hnew : new t = .ok stack)
    (hrounds : Rounds t stack out) : ¬ out.Pairwise fun p q => p.1 < q.1 := by
  obtain ⟨top, rfl⟩ := new_of_tall h hH hnew
  obtain ⟨n, rfl⟩ := Nat.exists_eq_succ_of_ne_zero hH.ne'
  have hfits := h.fits _ _ h.root
  have htype := (hfits.internal n rfl).1
  have hcount := hfits.count
  obtain ⟨out₁, out₂, rfl, hroot⟩ := hrounds.rest
  obtain ⟨out₃, rfl, hlast⟩ := hroot.entries hcount (Nat.zero_le _)
  rcases List.eq_nil_or_concat (t.nodeAt t.rootPageId).entries with hnil | ⟨es, e, hentries⟩
  · -- an internal node without entries makes the index underflow
    rw [hnil] at hcount hlast
    cases hlast with
    | round hround _ =>
      unfold BTreeIterator.round at hround
      rw [if_neg (by rw [hcount]; exact Nat.lt_irrefl 0), htype] at hround
      cases hround
  · have hlength : (t.nodeAt t.rootPageId).entries.length = es.length + 1 := by
      rw [hentries, List.concat_eq_append, List.length_append, List.length_singleton]
    rw [List.concat_eq_append] at hentries
    obtain ⟨c, a, b, hchild, hlabel, hb⟩ := hfits.child_before_last rfl hentries
    have hround := round_child t.rootPageId [] hcount htype hlength hchild
      (h.allocated c _ hlabel)
    cases hlast with
    | round hround' hrest =>
      obtain ⟨rfl, rfl⟩ := Prod.mk.inj (Except.ok.inj (hround.symm.trans hround'))
      have hcfits := h.fits c _ hlabel
      obtain ⟨out₄, rfl, -⟩ := hrest.entries hcfits.count (Nat.zero_le _)
      have hne : c ≠ t.rootPageId := by
        rintro rfl
        rw [h.root] at hlabel
        simp at hlabel
      obtain ⟨e', es', hentries'⟩ := List.exists_cons_of_length_pos
        (Nat.lt_of_lt_of_le (by decide : 0 < 49) (h.filled c _ hlabel hne))
      have hless : e'.key < e.key := by
        have hwithin := (hcfits.within e' (hentries' ▸ List.mem_cons_self)).2
        exact bound_lt.mp (hwithin.trans_le hb)
      intro hordered
      rw [hentries, hentries', List.drop_zero, List.drop_zero] at hordered
      obtain ⟨-, hrootOrdered, -⟩ := List.pairwise_append.mp hordered
      obtain ⟨-, -, hcross⟩ := List.pairwise_append.mp hrootOrdered
      have hbehind := hcross (pairOf e) (List.mem_map_of_mem (List.mem_append_right _ List.mem_cons_self))
        (pairOf e') List.mem_cons_self
      exact lt_asymm hless hbehind

end Tall

/-! ## Trees of one leaf -/

section Single

variable {ps : List (BTreeKey × BTreeValue)} {entries : List BTreeEntry}

theorem drain_leaf (n : ℕ) (hle : entryIdx ≤ entries.length) (hn : entries.length - entryIdx < n) :
    drain t (n + 1) [(id, leafNode entries, entryIdx)] = .ok ((entries.drop entryIdx).map pairOf) := by
  induction n generalizing entryIdx with
  | zero => exact absurd hn (Nat.not_lt_zero _)
  | succ n ih =>
    by_cases hlt : entryIdx < entries.length
    · have hround : round t id (leafNode entries) entryIdx [] =
          .ok (some (pairOf entries[entryIdx]), [(id, leafNode entries, entryIdx + 1)]) := by
        unfold round leafNode
        simp only [if_pos hlt, List.getElem?_eq_getElem hlt]
        rfl
      have hnext : next t (n + 1 + 1) [(id, leafNode entries, entryIdx)] =
          .ok (some (pairOf entries[entryIdx]), [(id, leafNode entries, entryIdx + 1)]) := by
        simp only [next, hround]
      unfold drain
      rw [hnext]
      dsimp only
      rw [ih hlt (by omega), List.drop_eq_getElem_cons hlt]
      rfl
    · have hround : round t id (leafNode entries) entryIdx [] = .ok (none, []) := by
        unfold round leafNode
        simp only [if_neg hlt]
      unfold drain
      simp only [next, hround]
      rw [List.drop_of_length_le (not_lt.mp hlt)]
      rfl

/-- A leaf is gone through in order. -/
theorem new_leaf (h : IsLeaf t entries ps) : ∃ stack n, new t = .ok stack ∧
    drain t n stack = .ok (entries.map pairOf) := by
  obtain ⟨k, hk⟩ : ∃ k, t.totalPages = k + 1 := Nat.exists_eq_succ_of_ne_zero (Nat.ne_zero_of_lt h.root_lt)
  refine ⟨[(t.rootPageId, leafNode entries, 0)], entries.length + 2, ?_, ?_⟩
  · unfold new
    rw [h.readNode, hk]
    rfl
  · exact drain_leaf (entries.length + 1) (Nat.zero_le _) (by omega)

theorem ordered_pairs (h : IsLeaf t entries ps) : (entries.map pairOf).Pairwise fun p q => p.1 < q.1 :=
  List.pairwise_map.mpr h.ordered

end Single

/-! ## Iteration after insertions -/

/-- Insertions of new keys keep the shape, and the tree grows only. -/
theorem shape_insertAll {capacity m : ℕ} {ps : List (BTreeKey × BTreeValue)} {L : Labels} {H : ℕ}
    {S : Set BTreeKey} {t t' : BTree} (hm : m ≤ 49) (h : Shape m L H S t) (hps : (ps.map Prod.fst).Nodup)
    (hnew : ∀ p ∈ ps, p.1 ∉ S) (hrun : insertAll capacity ps t = .ok () t') :
    ∃ L' H' S', Shape m L' H' S' t' ∧ H ≤ H' ∧ ∀ k ∈ S', k ∈ S ∨ ∃ p ∈ ps, p.1 = k := by
  induction ps generalizing t L H S with
  | nil =>
    cases hrun
    exact ⟨L, H, S, h, le_rfl, fun k hk => .inl hk⟩
  | cons p ps ih =>
    obtain ⟨⟨⟩, t₁, hinsert, hrest⟩ := bind_eq_ok.mp hrun
    obtain ⟨hp, hps⟩ := List.nodup_cons.mp hps
    obtain ⟨L₁, H₁, h₁, hle, -⟩ := (h.spec_insert hm (hnew p List.mem_cons_self)).post hinsert
    have hnew₁ : ∀ q ∈ ps, q.1 ∉ S ∪ {p.1} := by
      rintro q hq (hS | heq)
      · exact hnew q (List.mem_cons_of_mem _ hq) hS
      · exact hp (heq ▸ List.mem_map_of_mem hq)
    obtain ⟨L', H', S', h', hle', hkeys⟩ := ih h₁ hps hnew₁ hrest
    refine ⟨L', H', S', h', hle.trans hle', fun k hk => ?_⟩
    rcases hkeys k hk with (hS | heq) | ⟨q, hq, heq⟩
    · exact .inl hS
    · exact .inr ⟨p, List.mem_cons_self, heq.symm⟩
    · exact .inr ⟨q, List.mem_cons_of_mem _ hq, heq⟩

/-- More pairs than fit into a node make the tree higher than a leaf. -/
theorem tall_of_length {capacity n : ℕ} {ps : List (BTreeKey × BTreeValue)} {t : BTree}
    (hrun : insertAll capacity ps (BTree.new n) = .ok () t) (hps : (ps.map Prod.fst).Nodup)
    (hlength : maxKeys < ps.length) : ∃ L H S, Shape 49 L H S t ∧ 0 < H := by
  obtain ⟨entries, k, v, rest, t₁, t₂, h⟩ := exists_overflows hrun hps hlength
  have hfirst : ((ps.take maxKeys).map Prod.fst).Nodup := hps.sublist ((List.take_sublist ..).map _)
  have hrest : (rest.map Prod.fst).Nodup ∧ ∀ p ∈ rest, p.1 ≠ k := by
    rw [h.pairs, List.map_append, List.nodup_append, List.map_cons, List.nodup_cons] at hps
    refine ⟨hps.2.1.2, fun p hp heq => hps.2.1.1 ?_⟩
    have hmem : p.1 ∈ rest.map Prod.fst := List.mem_map_of_mem hp
    rwa [heq] at hmem
  obtain ⟨L₁, H₁, S₁, h₁, -, hkeys⟩ :=
    shape_insertAll le_rfl (shape_new 49 n) hfirst (fun _ _ => Set.notMem_empty _) h.before
  have hnotMem : ∀ q ∈ (k, v) :: rest, q.1 ∉ S₁ := by
    intro q hq hmem
    rcases hkeys q.1 hmem with hempty | ⟨p, hp, heq⟩
    · exact hempty
    · exact h.ne hps hp hq heq
  have hroot : t₁.nodeAt t₁.rootPageId = leafNode entries := (readNode_eq_ok.mp h.isLeaf.readNode).2
  have hfull : (t₁.nodeAt t₁.rootPageId).isFull = true := by
    rw [hroot]
    exact decide_eq_true (h.length.symm.trans h.isLeaf.length.symm).le
  obtain ⟨L₂, H₂, h₂, -, hgrows⟩ := (h₁.spec_insert le_rfl (hnotMem _ List.mem_cons_self)).post h.insert
  obtain ⟨L, H, S, hshape, hle, -⟩ := shape_insertAll le_rfl h₂ hrest.1
    (fun p hp hmem => hmem.elim (hnotMem p (List.mem_cons_of_mem _ hp)) (hrest.2 p hp)) h.after
  exact ⟨L, H, S, hshape, ((Nat.zero_le H₁).trans_lt (hgrows hfull)).trans_le hle⟩

/-- The iterator from the first key is right exactly for a single leaf without repeated keys. -/
theorem new_yields_iff {capacity n : ℕ} {ps : List (BTreeKey × BTreeValue)} {t : BTree}
    (hrun : insertAll capacity ps (BTree.new n) = .ok () t) :
    Yields t (new t) ps ↔ ps.length ≤ maxKeys ∧ (ps.map Prod.fst).Nodup := by
  constructor
  · rintro ⟨stack, out, k, hnew, hdrain, hordered, hperm⟩
    have hnodup : (ps.map Prod.fst).Nodup := by
      refine (hperm.map Prod.fst).nodup_iff.mp (List.pairwise_map.mpr (hordered.imp fun h => ?_))
      exact h.ne
    refine ⟨?_, hnodup⟩
    by_contra hlength
    obtain ⟨L, H, S, hshape, hH⟩ := tall_of_length hrun hnodup (not_le.mp hlength)
    exact not_ordered_of_tall hshape hH hnew (rounds_of_drain k hdrain) hordered
  · rintro ⟨hlength, hnodup⟩
    obtain ⟨entries, hleaf⟩ := (isLeaf_new n).insertAll (by simpa using hnodup) (by simpa using hlength) hrun
    rw [List.nil_append] at hleaf
    obtain ⟨stack, k, hnew, hdrain⟩ := new_leaf hleaf
    exact ⟨stack, _, k, hnew, hdrain, ordered_pairs hleaf, hleaf.perm⟩

/-- After insertions that return, the iterator from the first key returns all pairs in order, and the one
from a key all those from this key on, if and only if the pairs fit into one node, no key is inserted
twice, and no key is before the given one. -/
theorem iteration_iff {capacity n : ℕ} {ps : List (BTreeKey × BTreeValue)} {t : BTree}
    (hrun : insertAll capacity ps (BTree.new n) = .ok () t) (key : BTreeKey) :
    (Yields t (new t) ps ∧ Yields t (seek t key) (ps.filter fun p => key ≤ p.1)) ↔
      ps.length ≤ maxKeys ∧ (ps.map Prod.fst).Nodup ∧ ∀ p ∈ ps, key ≤ p.1 := by
  constructor
  · rintro ⟨hyields, stack', out', k', hseek, hdrain', -, hperm'⟩
    obtain ⟨hlength, hnodup⟩ := (new_yields_iff hrun).mp hyields
    obtain ⟨stack, out, k, hnew, hdrain, -, hperm⟩ := hyields
    -- the key is not looked at, so both iterators return the same
    obtain rfl : stack = stack' := Except.ok.inj (hnew.symm.trans hseek)
    obtain rfl := (rounds_of_drain k hdrain).unique (rounds_of_drain k' hdrain')
    have hall := (hperm'.symm.trans hperm).length_eq
    rw [List.length_filter_eq_length_iff] at hall
    exact ⟨hlength, hnodup, fun p hp => of_decide_eq_true (hall p hp)⟩
  · rintro ⟨hlength, hnodup, hkey⟩
    have hyields := (new_yields_iff hrun).mpr ⟨hlength, hnodup⟩
    rw [List.filter_eq_self.mpr fun p hp => decide_eq_true (hkey p hp)]
    exact ⟨hyields, hyields⟩

theorem iteration_iff_two :
    Yields (StateSpec.final (insertAll 4096 [([1], 2), ([0], 1)]) (BTree.new 1))
      (new (StateSpec.final (insertAll 4096 [([1], 2), ([0], 1)]) (BTree.new 1))) [([1], 2), ([0], 1)] := by
  have hrun : insertAll 4096 [([1], 2), ([0], 1)] (BTree.new 1) =
      .ok () (StateSpec.final (insertAll 4096 [([1], 2), ([0], 1)]) (BTree.new 1)) := rfl
  exact ((iteration_iff hrun []).mpr ⟨by decide, by decide, by decide⟩).1

/-- After 101 insertions that return, the iterator from the first key is wrong. -/
theorem iteration_visits_again : ¬ ∀ (capacity n : ℕ) (ps : List (BTreeKey × BTreeValue)) (t : BTree),
    insertAll capacity ps (BTree.new n) = .ok () t → (ps.map Prod.fst).Nodup → Yields t (new t) ps := by
  intro h
  have hreturns : returns (insertAll 4096 manyPairs (BTree.new 1)) = true := by decide +kernel
  have hnodup : (manyPairs.map Prod.fst).Nodup := by decide +kernel
  rcases hrun : insertAll 4096 manyPairs (BTree.new 1) with ⟨⟨⟩, t⟩ | ⟨e, t⟩
  · have hlength := ((new_yields_iff hrun).mp (h 4096 1 manyPairs t hrun hnodup)).1
    revert hlength
    decide +kernel
  · rw [hrun] at hreturns
    cases hreturns

end BTreeIterator

end Rustgresql
