import Rustgresql.Lib.Fence
import Rustgresql.Storage.BTree.Deletion

/-!
# The shape of a B-tree

The pages of a tree are labelled with their height and with the bounds of their keys. `Shape` says of
every labelled page that its node fits its label, and that the pages of one height share no keys. Splits,
insertions and deletions are followed page by page, without a tree in between.
-/

namespace Rustgresql

open StateSpec
open Fence (Fenced lastFence firstFence)

namespace BTree

/-- Keys, and what is below and above all keys. -/
abbrev Bound := WithBot (WithTop BTreeKey)

def bound (k : BTreeKey) : Bound := ((k : WithTop BTreeKey) : Bound)

theorem bound_lt {k k' : BTreeKey} : bound k < bound k' ↔ k < k' := by
  unfold bound
  rw [WithBot.coe_lt_coe, WithTop.coe_lt_coe]

theorem bot_lt_bound (k : BTreeKey) : ⊥ < bound k := WithBot.bot_lt_coe _

theorem bound_lt_top (k : BTreeKey) : bound k < ⊤ := WithBot.coe_lt_coe.mpr (WithTop.coe_lt_top k)

/-- The separators of a node. -/
def fences (entries : List BTreeEntry) : List Bound := entries.map fun e => bound e.key

/-- The height of a page over the leaves, and the bounds of its keys. -/
structure Label where
  height : ℕ
  lo : Bound
  hi : Bound

abbrev Labels := ℕ → Option Label

/-- A child between two separators. -/
def Slot (L : Labels) (h : ℕ) (a : Bound) (c : ℕ) (b : Bound) : Prop := L c = some ⟨h, a, b⟩ ∧ a < b

/-- A node fits the label of its page. -/
structure NodeFits (L : Labels) (l : Label) (node : BTreeNode) : Prop where
  count : node.entryCount = node.entries.length
  length_le : node.entries.length ≤ maxKeys
  ordered : Ordered node.entries
  within : ∀ e ∈ node.entries, l.lo < bound e.key ∧ bound e.key < l.hi
  leaf : l.height = 0 → node.nodeType = .leaf ∧ node.children = []
  internal : ∀ h, l.height = h + 1 → node.nodeType = .internal ∧
    Fenced (Slot L h) l.lo (fences node.entries) node.children l.hi

/-- The shape of a tree of height `H` with the keys `S`, and with at least `m` entries in all nodes but
the root. -/
structure Shape (m : ℕ) (L : Labels) (H : ℕ) (S : Set BTreeKey) (t : BTree) : Prop where
  root : L t.rootPageId = some ⟨H, ⊥, ⊤⟩
  allocated : ∀ id l, L id = some l → id < t.totalPages
  height_le : ∀ id l, L id = some l → l.height ≤ H
  height_lt : H < t.totalPages
  nonempty : ∀ id l, L id = some l → l.lo < l.hi
  disjoint : ∀ id id' l l', L id = some l → L id' = some l' → l.height = l'.height → id ≠ id' →
    l.hi ≤ l'.lo ∨ l'.hi ≤ l.lo
  fits : ∀ id l, L id = some l → NodeFits L l (t.nodeAt id)
  keys : ∀ id l, L id = some l → ∀ e ∈ (t.nodeAt id).entries, e.key ∈ S
  filled : ∀ id l, L id = some l → id ≠ t.rootPageId → m ≤ (t.nodeAt id).entries.length

variable {m : ℕ} {L L' : Labels} {H : ℕ} {S : Set BTreeKey} {t t' : BTree} {l : Label} {node : BTreeNode}

/-! ## Nodes and labels -/

theorem slot_lt (h : ℕ) (a : Bound) (c : ℕ) (b : Bound) (hslot : Slot L h a c b) : a < b := hslot.2

theorem slot_unique (h : ℕ) (a : Bound) (c : ℕ) (b a' b' : Bound) (hslot : Slot L h a c b)
    (hslot' : Slot L h a' c b') : a = a' := by
  have heq := hslot.1.symm.trans hslot'.1
  rw [Option.some.injEq, Label.mk.injEq] at heq
  exact heq.2.1

/-- A node depends on the labels of its children only. -/
theorem NodeFits.congr (h : NodeFits L l node) (hchildren : ∀ c ∈ node.children, L' c = L c) :
    NodeFits L' l node := by
  refine ⟨h.count, h.length_le, h.ordered, h.within, h.leaf, fun n hn => ?_⟩
  obtain ⟨htype, hfenced⟩ := h.internal n hn
  refine ⟨htype, hfenced.imp fun a c b hc hslot => ?_⟩
  exact ⟨(hchildren c hc).trans hslot.1, hslot.2⟩

theorem NodeFits.nodup (h : NodeFits L l node) : node.children.Nodup := by
  rcases hheight : l.height with - | n
  · rw [(h.leaf hheight).2]
    exact List.nodup_nil
  · exact (h.internal n hheight).2.nodup (slot_lt n) (slot_unique n)

/-- The children of a node have labels within its own. -/
theorem NodeFits.child (h : NodeFits L l node) {c : ℕ} (hc : c ∈ node.children) :
    ∃ n a b, l.height = n + 1 ∧ L c = some ⟨n, a, b⟩ ∧ a < b ∧ l.lo ≤ a ∧ b ≤ l.hi := by
  rcases hheight : l.height with - | n
  · rw [(h.leaf hheight).2] at hc
    cases hc
  · obtain ⟨a, b, hslot, hlo, hhi⟩ := (h.internal n hheight).2.exists_of_mem (slot_lt n) hc
    exact ⟨n, a, b, rfl, hslot.1, hslot.2, hlo, hhi⟩

/-- The keys of the child before the last separator are less than the separator. -/
theorem NodeFits.child_before_last (h : NodeFits L l node) {n : ℕ} (hheight : l.height = n + 1)
    {es : List BTreeEntry} {e : BTreeEntry} (hentries : node.entries = es ++ [e]) :
    ∃ c a b, node.children[es.length]? = some c ∧ L c = some ⟨n, a, b⟩ ∧ b ≤ bound e.key := by
  have hfenced := (h.internal n hheight).2
  have hfences : fences node.entries = fences es ++ bound e.key :: [] := by
    rw [hentries]
    exact List.map_append
  rw [hfences] at hfenced
  obtain ⟨cs₁, cs₂, hchildren, hbefore, -⟩ := hfenced.cut
  have hlength := hbefore.length
  rw [fences, List.length_map] at hlength
  have hlt : es.length < cs₁.length := by omega
  obtain ⟨a, b, hslot, -, hb⟩ := hbefore.exists_of_mem (slot_lt n) (List.getElem_mem hlt)
  refine ⟨_, a, b, ?_, hslot.1, hb⟩
  rw [hchildren, List.getElem?_append_left hlt, List.getElem?_eq_getElem hlt]

/-- No page is the child of two pages. -/
theorem Shape.parent_unique (h : Shape m L H S t) {p q c : ℕ} {lp lq : Label} (hp : L p = some lp)
    (hq : L q = some lq) (hpc : c ∈ (t.nodeAt p).children) (hqc : c ∈ (t.nodeAt q).children) : p = q := by
  obtain ⟨n, a, b, hn, hc, hab, hlo, hhi⟩ := (h.fits p lp hp).child hpc
  obtain ⟨n', a', b', hn', hc', -, hlo', hhi'⟩ := (h.fits q lq hq).child hqc
  have heq := hc.symm.trans hc'
  rw [Option.some.injEq, Label.mk.injEq] at heq
  obtain ⟨rfl, rfl, rfl⟩ := heq
  by_contra hne
  rcases h.disjoint p q lp lq hp hq (hn.trans hn'.symm) hne with hle | hle
  · exact absurd hab (not_lt_of_ge (hhi.trans (hle.trans hlo')))
  · exact absurd hab (not_lt_of_ge (hhi'.trans (hle.trans hlo)))

/-- Whether a split cuts the children. -/
def CutsChildren (node : BTreeNode) : Prop :=
  node.nodeType = .internal ∧ node.children ≠ [] ∧ 51 ≤ node.children.length

instance (node : BTreeNode) : Decidable (CutsChildren node) := by
  unfold CutsChildren
  infer_instance

/-- The left half of a full node. -/
def leftHalf (node : BTreeNode) : BTreeNode := { node with
  entryCount := (node.entries.take 50).length
  entries := node.entries.take 50
  children := if CutsChildren node then node.children.take 51 else node.children }

/-- The right half of a full node, when these entries are behind the separator. -/
def rightHalf (node : BTreeNode) (rightEntries : List BTreeEntry) : BTreeNode := { BTreeNode.new node.nodeType with
  entryCount := rightEntries.length
  entries := rightEntries
  children := if CutsChildren node then node.children.drop 51 else [] }

/-- What a full node is split into. -/
structure SplitInto (L : Labels) (l : Label) (node left right : BTreeNode) (separator : BTreeEntry) : Prop where
  split : node.split = .ok (left, right, separator)
  above : l.lo < bound separator.key
  below : bound separator.key < l.hi
  left_fits : NodeFits L ⟨l.height, l.lo, bound separator.key⟩ left
  right_fits : NodeFits L ⟨l.height, bound separator.key, l.hi⟩ right
  entries : node.entries = left.entries ++ separator :: right.entries
  left_length : left.entries.length = 50
  right_length : right.entries.length = 49
  children : ∀ c, c ∈ left.children ∨ c ∈ right.children → c ∈ node.children

theorem split_of_full (hcount : node.entryCount = 100) (hlength : node.entries.length = 100)
    {separator : BTreeEntry} {rightEntries : List BTreeEntry}
    (hdrop : node.entries.drop 50 = separator :: rightEntries) :
    node.split = .ok (leftHalf node, rightHalf node rightEntries, separator) := by
  have hmiddle : node.entryCount / 2 = 50 := by omega
  have hcut : ¬ node.entries.length < 50 := by omega
  unfold BTreeNode.split
  simp only [hmiddle, if_neg hcut, hdrop]
  rfl

/-- A full leaf is split without children. -/
theorem children_halves_leaf (htype : node.nodeType = .leaf) (hchildren : node.children = [])
    (rightEntries : List BTreeEntry) :
    (leftHalf node).children = [] ∧ (rightHalf node rightEntries).children = [] := by
  have hcuts : ¬ CutsChildren node := by simp [CutsChildren, htype]
  unfold leftHalf rightHalf
  rw [if_neg hcuts, if_neg hcuts, hchildren]
  exact ⟨rfl, rfl⟩

/-- The children of a full internal node are cut where its entries are cut. -/
theorem fenced_halves {P : Bound → ℕ → Bound → Prop} {lo hi : Bound} {separator : BTreeEntry}
    {rightEntries : List BTreeEntry} (htype : node.nodeType = .internal)
    (hentries : node.entries = node.entries.take 50 ++ separator :: rightEntries)
    (hleft : (node.entries.take 50).length = 50)
    (h : Fenced P lo (fences node.entries) node.children hi) :
    Fenced P lo (fences (node.entries.take 50)) (leftHalf node).children (bound separator.key) ∧
      Fenced P (bound separator.key) (fences rightEntries) (rightHalf node rightEntries).children hi ∧
      ∀ c, c ∈ (leftHalf node).children ∨ c ∈ (rightHalf node rightEntries).children → c ∈ node.children := by
  have hfences : fences node.entries =
      fences (node.entries.take 50) ++ bound separator.key :: fences rightEntries := by
    conv_lhs => rw [hentries]
    rw [fences, List.map_append, List.map_cons]
    rfl
  rw [hfences] at h
  obtain ⟨cs₁, cs₂, hchildren, h₁, h₂⟩ := h.cut
  have hlength : cs₁.length = 51 := by
    rw [h₁.length, fences, List.length_map, hleft]
  have hcuts : CutsChildren node := by
    have hpos : 51 ≤ node.children.length := by
      rw [hchildren, List.length_append]
      omega
    exact ⟨htype, List.ne_nil_of_length_pos (by omega), hpos⟩
  have hleftChildren : (leftHalf node).children = cs₁ := by
    unfold leftHalf
    rw [if_pos hcuts, hchildren, List.take_left' hlength]
  have hrightChildren : (rightHalf node rightEntries).children = cs₂ := by
    unfold rightHalf
    rw [if_pos hcuts, hchildren, List.drop_left' hlength]
  rw [hleftChildren, hrightChildren, hchildren]
  exact ⟨h₁, h₂, fun c => List.mem_append.mpr⟩

/-- The halves of a full node fit the halves of its label. -/
theorem NodeFits.split (h : NodeFits L l node) (hfull : node.isFull) :
    ∃ left right separator, SplitInto L l node left right separator := by
  have hlength : node.entries.length = 100 := by
    have hle : 100 ≤ node.entryCount := of_decide_eq_true hfull
    have hge : node.entries.length ≤ 100 := h.length_le
    have hcount := h.count
    omega
  obtain ⟨separator, rightEntries, hdrop⟩ : ∃ e es, node.entries.drop 50 = e :: es := by
    apply List.exists_cons_of_length_pos
    rw [List.length_drop]
    omega
  have hentries : node.entries = node.entries.take 50 ++ separator :: rightEntries := by
    rw [← hdrop, List.take_append_drop]
  have hright : rightEntries.length = 49 := by
    have hlengths := congrArg List.length hdrop
    rw [List.length_drop, List.length_cons] at hlengths
    omega
  have hleft : (node.entries.take 50).length = 50 := by
    rw [List.length_take]
    omega
  have hordered := h.ordered
  have hwithin := h.within
  rw [Ordered, hentries, List.pairwise_append, List.pairwise_cons] at hordered
  obtain ⟨hleftOrdered, ⟨hafter, hrightOrdered⟩, hbefore⟩ := hordered
  have hbetween := hwithin separator (hentries ▸ List.mem_append_right _ List.mem_cons_self)
  have hleftWithin : ∀ e ∈ node.entries.take 50, l.lo < bound e.key ∧ bound e.key < bound separator.key :=
    fun e he => ⟨(hwithin e (List.mem_of_mem_take he)).1,
      bound_lt.mpr (hbefore e he separator List.mem_cons_self)⟩
  have hrightWithin : ∀ e ∈ rightEntries, bound separator.key < bound e.key ∧ bound e.key < l.hi := by
    intro e he
    have hmem : e ∈ node.entries := hentries ▸ List.mem_append_right _ (List.mem_cons_of_mem _ he)
    exact ⟨bound_lt.mpr (hafter e he), (hwithin e hmem).2⟩
  have hsplit := split_of_full (h.count.trans hlength) hlength hdrop
  have hleftLe : (node.entries.take 50).length ≤ maxKeys := hleft.trans_le (by decide)
  have hrightLe : rightEntries.length ≤ maxKeys := hright.trans_le (by decide)
  refine ⟨leftHalf node, rightHalf node rightEntries, separator, ?_⟩
  rcases hheight : l.height with - | n
  · obtain ⟨htype, hchildren⟩ := h.leaf hheight
    obtain ⟨hleftChildren, hrightChildren⟩ := children_halves_leaf htype hchildren rightEntries
    refine ⟨hsplit, hbetween.1, hbetween.2, ?_, ?_, hentries, hleft, hright, fun c hc => ?_⟩
    · exact ⟨rfl, hleftLe, hleftOrdered, hleftWithin, fun _ => ⟨htype, hleftChildren⟩, by simp [hheight]⟩
    · exact ⟨rfl, hrightLe, hrightOrdered, hrightWithin, fun _ => ⟨htype, hrightChildren⟩, by simp [hheight]⟩
    · rw [hleftChildren, hrightChildren] at hc
      simp at hc
  · obtain ⟨htype, hfenced⟩ := h.internal n hheight
    obtain ⟨hleftFenced, hrightFenced, hchildren⟩ := fenced_halves htype hentries hleft hfenced
    refine ⟨hsplit, hbetween.1, hbetween.2, ?_, ?_, hentries, hleft, hright, hchildren⟩
    · refine ⟨rfl, hleftLe, hleftOrdered, hleftWithin, by simp [hheight], fun n' hn' => ?_⟩
      obtain rfl : n = n' := Nat.succ.inj (hheight.symm.trans hn')
      exact ⟨htype, hleftFenced⟩
    · refine ⟨rfl, hrightLe, hrightOrdered, hrightWithin, by simp [hheight], fun n' hn' => ?_⟩
      obtain rfl : n = n' := Nat.succ.inj (hheight.symm.trans hn')
      exact ⟨htype, hrightFenced⟩

/-! ## The split of a child -/

/-- A node with one more child behind one that was split. -/
def insertChild (node : BTreeNode) (childIdx : ℕ) (separator : BTreeEntry) (rightPageId : ℕ) : BTreeNode :=
  { node with
    entries := node.entries.insertIdx childIdx separator
    children := node.children.insertIdx (childIdx + 1) rightPageId
    entryCount := node.entryCount + 1 }

theorem insertIdx_behind {α : Type} (l₁ l₂ : List α) (x y : α) :
    (l₁ ++ x :: l₂).insertIdx (l₁.length + 1) y = l₁ ++ x :: y :: l₂ := by
  induction l₁ with
  | nil => rfl
  | cons z l₁ ih => rw [List.cons_append, List.length_cons, List.insertIdx_succ_cons, ih, List.cons_append]

theorem ordered_of_fences {entries : List BTreeEntry} (h : (fences entries).Pairwise (· < ·)) :
    Ordered entries :=
  (List.pairwise_map.mp h).imp bound_lt.mp

theorem NodeFits.insertChild (h : NodeFits L l node) {n : ℕ} (hheight : l.height = n + 1)
    (hroom : node.entries.length < maxKeys) {childIdx rightPageId : ℕ} {separator : BTreeEntry}
    (hchildIdx : childIdx ≤ node.entries.length) (hfenced : Fenced (Slot L' n) l.lo
      (fences (node.entries.insertIdx childIdx separator)) (node.children.insertIdx (childIdx + 1) rightPageId) l.hi) :
    NodeFits L' l (insertChild node childIdx separator rightPageId) := by
  have hlength := List.length_insertIdx_of_le_length hchildIdx separator
  obtain ⟨hsorted, hbetween⟩ := hfenced.sorted (slot_lt n)
  refine ⟨?_, hlength.trans_le hroom, ordered_of_fences hsorted, ?_, ?_, fun n' hn' => ?_⟩
  · show node.entryCount + 1 = (node.entries.insertIdx _ separator).length
    rw [h.count, hlength]
  · exact fun e he => hbetween _ (List.mem_map_of_mem he)
  · exact fun hzero => absurd (hzero.symm.trans hheight) (by simp)
  · obtain rfl : n = n' := Nat.succ.inj (hheight.symm.trans hn')
    exact ⟨(h.internal n hheight).1, hfenced⟩

/-- The child whose bounds a key is within, and the node after a split of this child. -/
structure ChildFor (L : Labels) (l : Label) (n : ℕ) (node : BTreeNode) (key : BTreeKey) (c : ℕ) (a b : Bound) :
    Prop where
  child : node.children[node.findInsertPosition key]? = some c
  slot : Slot L n a c b
  above : a < bound key
  below : bound key < b
  insertChild : ∀ (L' : Labels) (r : ℕ) (s : BTreeEntry), node.entries.length < maxKeys →
    a < bound s.key → bound s.key < b → (∀ d ∈ node.children, d ≠ c → L' d = L d) →
      L' c = some ⟨n, a, bound s.key⟩ → L' r = some ⟨n, bound s.key, b⟩ →
        NodeFits L' l (insertChild node (node.findInsertPosition key) s r)

theorem NodeFits.childFor (h : NodeFits L l node) {n : ℕ} (hheight : l.height = n + 1) {key : BTreeKey}
    (hlo : l.lo < bound key) (hhi : bound key < l.hi) (hkey : ∀ e ∈ node.entries, e.key ≠ key) :
    ∃ c a b, ChildFor L l n node key c a b := by
  obtain ⟨-, hfenced⟩ := h.internal n hheight
  have hnodup := h.nodup
  have hposition := findInsertPosition_eq node key
  let es₁ := node.entries.takeWhile (BTreeEntry.before key)
  let es₂ := node.entries.dropWhile (BTreeEntry.before key)
  have hentries : node.entries = es₁ ++ es₂ := (List.takeWhile_append_dropWhile ..).symm
  have hfences : fences node.entries = fences es₁ ++ fences es₂ := by
    conv_lhs => rw [hentries]
    exact List.map_append
  rw [hfences] at hfenced
  obtain ⟨cs₁, c, cs₂, hchildren, hlength, hslot, hgap⟩ := hfenced.focus
  have hlength' : cs₁.length = node.findInsertPosition key := by
    rw [hlength, fences, List.length_map, hposition]
  rw [hchildren] at hnodup
  have hother : ∀ d, d ∈ cs₁ ∨ d ∈ cs₂ → d ∈ node.children ∧ d ≠ c := by
    rintro d hd
    rw [hchildren]
    rw [List.nodup_append, List.nodup_cons] at hnodup
    rcases hd with hd | hd
    · exact ⟨List.mem_append_left _ hd, hnodup.2.2 d hd c List.mem_cons_self⟩
    · refine ⟨List.mem_append_right _ (List.mem_cons_of_mem _ hd), ?_⟩
      rintro rfl
      exact hnodup.2.1.1 hd
  refine ⟨c, _, _, ?_, hslot, ?_, ?_, ?_⟩
  · rw [← hlength', hchildren, List.getElem?_append_right le_rfl, Nat.sub_self, List.getElem?_cons_zero]
  · -- the entries before the child have smaller keys
    rcases Fence.lastFence_eq_or_mem l.lo (fences es₁) with heq | hmem
    · rwa [heq]
    · obtain ⟨e, he, hbound⟩ := List.mem_map.mp hmem
      rw [← hbound]
      exact bound_lt.mpr (BTreeEntry.before_iff.mp (List.mem_takeWhile_imp he))
  · rcases Fence.firstFence_eq_or_head l.hi (fences es₂) with heq | hhead
    · rwa [heq]
    · -- the entry behind the child does not come before the key, and has another key
      obtain ⟨e, he, hbound⟩ := Option.map_eq_some_iff.mp ((List.head?_map ..).symm.trans hhead)
      rw [← hbound]
      have hmem : e ∈ node.entries := hentries ▸ List.mem_append_right _ (List.mem_of_mem_head? he)
      have hnot : ¬ e.before key := by
        have hhead := List.head?_dropWhile_not (BTreeEntry.before key) node.entries
        rw [show (node.entries.dropWhile (BTreeEntry.before key)).head? = some e from he] at hhead
        simpa using hhead
      exact bound_lt.mpr (lt_of_le_of_ne (not_lt.mp (mt BTreeEntry.before_iff.mpr hnot)) (hkey e hmem).symm)
  · intro L' r s hroom ha hb hL' hc hr
    have hfenced' := hgap (Slot L' n) [bound s.key] [c, r]
      (fun x d y hd hslot => ⟨(hL' d (hother d hd).1 (hother d hd).2).trans hslot.1, hslot.2⟩)
      (.cons ⟨hc, ha⟩ (.last ⟨hr, hb⟩))
    have hentries' : node.entries.insertIdx (node.findInsertPosition key) s = es₁ ++ s :: es₂ := by
      rw [hposition, insertIdx_length_takeWhile]
    have hchildren' : node.children.insertIdx (node.findInsertPosition key + 1) r = cs₁ ++ c :: r :: cs₂ := by
      rw [hchildren, ← hlength', insertIdx_behind]
    have hfences' : fences es₁ ++ [bound s.key] ++ fences es₂ = fences (es₁ ++ s :: es₂) := by
      simp [fences]
    rw [hfences', List.append_assoc, List.cons_append, List.cons_append, List.nil_append, ← hentries', ← hchildren']
      at hfenced'
    refine h.insertChild hheight hroom ?_ hfenced'
    rw [hposition]
    exact (List.takeWhile_sublist _).length_le

/-- The labels after the split of a page at a key. -/
def splitLabels (L : Labels) (c r : ℕ) (n : ℕ) (a : Bound) (s : BTreeKey) (b : Bound) : Labels :=
  Function.update (Function.update L c (some ⟨n, a, bound s⟩)) r (some ⟨n, bound s, b⟩)

section SplitLabels

variable {c r n : ℕ} {a b : Bound} {s : BTreeKey} {id : ℕ}

theorem splitLabels_right (L : Labels) (c r n : ℕ) (a : Bound) (s : BTreeKey) (b : Bound) :
    splitLabels L c r n a s b r = some ⟨n, bound s, b⟩ := Function.update_self ..

theorem splitLabels_left (h : c ≠ r) : splitLabels L c r n a s b c = some ⟨n, a, bound s⟩ :=
  (Function.update_of_ne h ..).trans (Function.update_self ..)

theorem splitLabels_of_ne (hc : id ≠ c) (hr : id ≠ r) : splitLabels L c r n a s b id = L id :=
  (Function.update_of_ne hr ..).trans (Function.update_of_ne hc ..)

theorem splitLabels_cases (hcr : c ≠ r) (h : splitLabels L c r n a s b id = some l) :
    id = r ∧ l = ⟨n, bound s, b⟩ ∨ id = c ∧ l = ⟨n, a, bound s⟩ ∨ id ≠ c ∧ id ≠ r ∧ L id = some l := by
  by_cases hr : id = r
  · rw [hr, splitLabels_right] at h
    exact .inl ⟨hr, (Option.some.inj h).symm⟩
  · by_cases hc : id = c
    · rw [hc, splitLabels_left hcr] at h
      exact .inr (.inl ⟨hc, (Option.some.inj h).symm⟩)
    · rw [splitLabels_of_ne hc hr] at h
      exact .inr (.inr ⟨hc, hr, h⟩)

/-- The labels of a split page are within its old label. -/
theorem splitLabels_within (hcr : c ≠ r) (hc : L c = some ⟨n, a, b⟩) (ha : a < bound s) (hb : bound s < b)
    (h : splitLabels L c r n a s b id = some l) :
    ∃ l₀, L (if id = r then c else id) = some l₀ ∧ l₀.height = l.height ∧ l₀.lo ≤ l.lo ∧ l.hi ≤ l₀.hi := by
  rcases splitLabels_cases hcr h with ⟨rfl, rfl⟩ | ⟨rfl, rfl⟩ | ⟨-, hr, hl⟩
  · exact ⟨⟨n, a, b⟩, by rwa [if_pos rfl], rfl, ha.le, le_rfl⟩
  · exact ⟨⟨n, a, b⟩, by rwa [if_neg hcr], rfl, le_rfl, hb.le⟩
  · exact ⟨l, by rwa [if_neg hr], rfl, le_rfl, le_rfl⟩

/-- Where the pages of one height share no keys, they share none after a split. -/
theorem splitLabels_disjoint (hcr : c ≠ r) (hc : L c = some ⟨n, a, b⟩) (ha : a < bound s) (hb : bound s < b)
    (hdisjoint : ∀ id id' l l', L id = some l → L id' = some l' → l.height = l'.height → id ≠ id' →
      l.hi ≤ l'.lo ∨ l'.hi ≤ l.lo) {id' : ℕ} {l' : Label} (hl : splitLabels L c r n a s b id = some l)
    (hl' : splitLabels L c r n a s b id' = some l') (hheight : l.height = l'.height) (hne : id ≠ id') :
    l.hi ≤ l'.lo ∨ l'.hi ≤ l.lo := by
  obtain ⟨o, ho, hh, hlo, hhi⟩ := splitLabels_within hcr hc ha hb hl
  obtain ⟨o', ho', hh', hlo', hhi'⟩ := splitLabels_within hcr hc ha hb hl'
  by_cases horigin : (if id = r then c else id) = if id' = r then c else id'
  · -- the two halves of the same page
    rcases splitLabels_cases hcr hl with ⟨rfl, rfl⟩ | ⟨rfl, rfl⟩ | ⟨hidc, hidr, -⟩
    · rcases splitLabels_cases hcr hl' with ⟨rfl, rfl⟩ | ⟨rfl, rfl⟩ | ⟨hidc', hidr', -⟩
      · exact absurd rfl hne
      · exact .inr le_rfl
      · rw [if_pos rfl, if_neg hidr'] at horigin
        exact absurd horigin.symm hidc'
    · rcases splitLabels_cases hcr hl' with ⟨rfl, rfl⟩ | ⟨rfl, rfl⟩ | ⟨hidc', hidr', -⟩
      · exact .inl le_rfl
      · exact absurd rfl hne
      · rw [if_neg hcr, if_neg hidr'] at horigin
        exact absurd horigin.symm hidc'
    · rw [if_neg hidr] at horigin
      split at horigin
      · exact absurd horigin hidc
      · exact absurd horigin hne
  · rcases hdisjoint _ _ o o' ho ho' (by omega) horigin with hle | hle
    · exact .inl (hhi.trans (hle.trans hlo'))
    · exact .inr (hhi'.trans (hle.trans hlo))

end SplitLabels

/-- The tree after the split of a child, which moved the upper half to a new page. -/
structure SplitAt (p c : ℕ) (left right : BTreeNode) (parent : BTreeNode) (t t' : BTree) : Prop where
  rootPageId : t'.rootPageId = t.rootPageId
  totalPages : t'.totalPages = t.totalPages + 1
  nodeAt : t'.nodeAt =
    Function.update (Function.update (Function.update t.nodeAt c left) t.totalPages right) p parent

namespace SplitAt

variable {p c : ℕ} {left right parent : BTreeNode}

theorem nodeAt_parent (h : SplitAt p c left right parent t t') : t'.nodeAt p = parent := by
  rw [h.nodeAt, Function.update_self]

theorem nodeAt_left (h : SplitAt p c left right parent t t') (hcp : c ≠ p) (hc : c < t.totalPages) :
    t'.nodeAt c = left := by
  rw [h.nodeAt, Function.update_of_ne hcp, Function.update_of_ne hc.ne, Function.update_self]

theorem nodeAt_right (h : SplitAt p c left right parent t t') (hp : p < t.totalPages) :
    t'.nodeAt t.totalPages = right := by
  rw [h.nodeAt, Function.update_of_ne hp.ne', Function.update_self]

theorem nodeAt_of_ne (h : SplitAt p c left right parent t t') {id : ℕ} (hp : id ≠ p) (hc : id ≠ c)
    (hr : id ≠ t.totalPages) : t'.nodeAt id = t.nodeAt id := by
  rw [h.nodeAt, Function.update_of_ne hp, Function.update_of_ne hr, Function.update_of_ne hc]

end SplitAt

theorem Shape.splitChild {p c n : ℕ} {key : BTreeKey} {a b : Bound} {left right : BTreeNode}
    {separator : BTreeEntry} (h : Shape m L H S t) (hm : m ≤ 49) (hp : L p = some l)
    (hheight : l.height = n + 1) (hroom : (t.nodeAt p).entries.length < maxKeys)
    (hchild : ChildFor L l n (t.nodeAt p) key c a b)
    (hsplit : SplitInto L ⟨n, a, b⟩ (t.nodeAt c) left right separator)
    (ht' : SplitAt p c left right
      (insertChild (t.nodeAt p) ((t.nodeAt p).findInsertPosition key) separator t.totalPages) t t') :
    Shape m (splitLabels L c t.totalPages n a separator.key b) H S t' := by
  have hc := hchild.slot.1
  have ha : a < bound separator.key := hsplit.above
  have hb : bound separator.key < b := hsplit.below
  have hmem : c ∈ (t.nodeAt p).children := List.mem_of_getElem? hchild.child
  have hallocated : ∀ {id : ℕ} {l : Label}, L id = some l → id ≠ t.totalPages :=
    fun hl => (h.allocated _ _ hl).ne
  have hcr : c ≠ t.totalPages := hallocated hc
  have hheights : ∀ {id : ℕ} {l : Label}, L id = some l → l.height ≠ n → id ≠ c := by
    rintro id l hl hne rfl
    rw [hc] at hl
    cases hl
    exact hne rfl
  have hpc : p ≠ c := hheights hp (by omega)
  have hle : n + 1 ≤ H := hheight ▸ h.height_le p l hp
  have hrootc : t.rootPageId ≠ c := hheights h.root (by show H ≠ n; omega)
  have hrootr : t.rootPageId ≠ t.totalPages := hallocated h.root
  have hkeys : ∀ e ∈ (t.nodeAt c).entries, e.key ∈ S := h.keys c _ hc
  rw [hsplit.entries] at hkeys
  -- the nodes of the three pages, and of the others
  have hnodep := ht'.nodeAt_parent
  have hnodec := ht'.nodeAt_left hpc.symm (h.allocated _ _ hc)
  have hnoder := ht'.nodeAt_right (h.allocated _ _ hp)
  have hnode : ∀ id, id ≠ p → id ≠ c → id ≠ t.totalPages → t'.nodeAt id = t.nodeAt id :=
    fun _ => ht'.nodeAt_of_ne
  -- a child of a page of another height, or of another page, keeps its label
  have hsame : ∀ {d : ℕ} {l' : Label}, L d = some l' → d ≠ c →
      splitLabels L c t.totalPages n a separator.key b d = L d :=
    fun hd hdc => splitLabels_of_ne hdc (hallocated hd)
  have hhalf : ∀ {node : BTreeNode} {lo hi : Bound}, NodeFits L ⟨n, lo, hi⟩ node →
      NodeFits (splitLabels L c t.totalPages n a separator.key b) ⟨n, lo, hi⟩ node := by
    intro node lo hi hfits
    refine hfits.congr fun d hd => ?_
    obtain ⟨n', x, y, hn', hd, -⟩ := hfits.child hd
    exact hsame hd (hheights hd (by simp only at hn' ⊢; omega))
  refine ⟨?_, ?_, ?_, ?_, ?_, ?_, ?_, ?_, ?_⟩
  · rw [ht'.rootPageId, splitLabels_of_ne hrootc hrootr]
    exact h.root
  · intro id l' hl'
    rw [ht'.totalPages]
    rcases splitLabels_cases hcr hl' with ⟨rfl, -⟩ | ⟨rfl, -⟩ | ⟨-, -, hl⟩
    · exact Nat.lt_succ_self _
    · exact Nat.lt_succ_of_lt (h.allocated _ _ hc)
    · exact Nat.lt_succ_of_lt (h.allocated _ _ hl)
  · intro id l' hl'
    obtain ⟨l₀, hl₀, hheights', -⟩ := splitLabels_within hcr hc ha hb hl'
    exact hheights' ▸ h.height_le _ _ hl₀
  · rw [ht'.totalPages]
    exact Nat.lt_succ_of_lt h.height_lt
  · intro id l' hl'
    rcases splitLabels_cases hcr hl' with ⟨-, rfl⟩ | ⟨-, rfl⟩ | ⟨-, -, hl⟩
    · exact hb
    · exact ha
    · exact h.nonempty _ _ hl
  · exact fun id id' l₁ l₂ => splitLabels_disjoint hcr hc ha hb h.disjoint
  · intro id l' hl'
    rcases splitLabels_cases hcr hl' with ⟨rfl, rfl⟩ | ⟨rfl, rfl⟩ | ⟨hidc, hidr, hl⟩
    · rw [hnoder]
      exact hhalf hsplit.right_fits
    · rw [hnodec]
      exact hhalf hsplit.left_fits
    · by_cases hidp : id = p
      · subst hidp
        rw [hp] at hl
        cases hl
        rw [hnodep]
        refine hchild.insertChild _ _ _ hroom ha hb (fun d hd hdc => ?_) (splitLabels_left hcr)
          (splitLabels_right ..)
        obtain ⟨n', x, y, -, hd, -⟩ := (h.fits id l hp).child hd
        exact hsame hd hdc
      · rw [hnode id hidp hidc hidr]
        refine (h.fits id l' hl).congr fun d hd => ?_
        obtain ⟨n', x, y, -, hlabel, -⟩ := (h.fits id l' hl).child hd
        refine hsame hlabel ?_
        rintro rfl
        exact hidp (h.parent_unique hl hp hd hmem)
  · intro id l' hl' e he
    rcases splitLabels_cases hcr hl' with ⟨rfl, rfl⟩ | ⟨rfl, rfl⟩ | ⟨hidc, hidr, hl⟩
    · rw [hnoder] at he
      exact hkeys e (List.mem_append_right _ (List.mem_cons_of_mem _ he))
    · rw [hnodec] at he
      exact hkeys e (List.mem_append_left _ he)
    · by_cases hidp : id = p
      · subst hidp
        rw [hnodep] at he
        rcases List.eq_or_mem_of_mem_insertIdx he with rfl | he
        · exact hkeys e (List.mem_append_right _ List.mem_cons_self)
        · exact h.keys id _ hl e he
      · rw [hnode id hidp hidc hidr] at he
        exact h.keys id _ hl e he
  · intro id l' hl' hroot
    rw [ht'.rootPageId] at hroot
    rcases splitLabels_cases hcr hl' with ⟨rfl, rfl⟩ | ⟨rfl, rfl⟩ | ⟨hidc, hidr, hl⟩
    · rw [hnoder, hsplit.right_length]
      exact hm
    · rw [hnodec, hsplit.left_length]
      omega
    · have hfilled := h.filled id l' hl hroot
      by_cases hidp : id = p
      · subst hidp
        rw [hnodep]
        refine hfilled.trans ?_
        show _ ≤ ((t.nodeAt id).entries.insertIdx _ separator).length
        rw [List.length_insertIdx]
        split
        · omega
        · exact le_rfl
      · rwa [hnode id hidp hidc hidr]

/-! ## Insertion -/

/-- The error for a node that does not fit into its page. -/
def TooLarge (e : Failure) : Prop := ∃ text, e = .err (.storage text)

theorem spec_saveNode_allocated {capacity id : ℕ} (hid : id < t.totalPages) (node : BTreeNode) :
    Spec (saveNode capacity id node) t (fun _ t' => t' = t.withNode id node) fun e _ => TooLarge e := by
  unfold Spec saveNode
  rw [readNode_of_lt hid]
  by_cases hlarge : capacity < node.serializedLength
  · simp only [if_pos hlarge]
    exact ⟨_, rfl⟩
  · simp only [if_neg hlarge]
    rfl

theorem spec_loadNode_allocated {id : ℕ} (hid : id < t.totalPages) {E : Failure → BTree → Prop} :
    Spec (loadNode id) t (fun node t' => t' = t ∧ node = t.nodeAt id) E := by
  unfold Spec loadNode
  rw [readNode_of_lt hid]
  exact ⟨rfl, rfl⟩

theorem isFull_iff (h : NodeFits L l node) : node.isFull = true ↔ maxKeys ≤ node.entries.length := by
  unfold BTreeNode.isFull
  rw [decide_eq_true_iff, h.count]

/-- The shape depends on the nodes only. -/
theorem Shape.same (h : Shape m L H S t) (hsame : SameNodes t t') : Shape m L H S t' := by
  obtain ⟨hroot, htotal, hnodes⟩ := hsame
  refine ⟨?_, ?_, h.height_le, ?_, h.nonempty, h.disjoint, ?_, ?_, ?_⟩
  · rw [hroot]
    exact h.root
  · rw [htotal]
    exact h.allocated
  · rw [htotal]
    exact h.height_lt
  · rw [hnodes]
    exact h.fits
  · rw [hnodes]
    exact h.keys
  · rw [hnodes, hroot]
    exact h.filled

/-- One node is replaced by another that fits, if its page has a label. -/
theorem Shape.withNode {S' : Set BTreeKey} {id : ℕ} (h : Shape m L H S t) (hS : S ⊆ S')
    (hfits : ∀ l, L id = some l → NodeFits L l node ∧ (∀ e ∈ node.entries, e.key ∈ S') ∧
      (id ≠ t.rootPageId → m ≤ node.entries.length)) : Shape m L H S' (t.withNode id node) := by
  refine ⟨h.root, h.allocated, h.height_le, h.height_lt, h.nonempty, h.disjoint, ?_, ?_, ?_⟩
  · intro id' l' hl'
    rw [nodeAt_withNode]
    by_cases heq : id' = id
    · subst heq
      rw [Function.update_self]
      exact (hfits l' hl').1
    · rw [Function.update_of_ne heq]
      exact h.fits id' l' hl'
  · intro id' l' hl'
    rw [nodeAt_withNode]
    by_cases heq : id' = id
    · subst heq
      rw [Function.update_self]
      exact (hfits l' hl').2.1
    · rw [Function.update_of_ne heq]
      exact fun e he => hS (h.keys id' l' hl' e he)
  · intro id' l' hl' hroot
    rw [nodeAt_withNode]
    by_cases heq : id' = id
    · subst heq
      rw [Function.update_self]
      exact (hfits l' hl').2.2 hroot
    · rw [Function.update_of_ne heq]
      exact h.filled id' l' hl' hroot

/-- The leaf with one more entry. -/
def insertLeaf (node : BTreeNode) (e : BTreeEntry) : BTreeNode :=
  { node with entries := insertOrdered e node.entries, entryCount := node.entryCount + 1 }

theorem insertEntry_of_room (h : NodeFits L l node) (hroom : node.entries.length < maxKeys) (e : BTreeEntry) :
    node.insertEntry e = .ok (insertLeaf node e) := by
  have hfull : ¬ node.isFull = true := mt (isFull_iff h).mp (not_le.mpr hroom)
  unfold BTreeNode.insertEntry
  rw [if_neg hfull]
  simp only [findInsertPosition_eq, insertIdx_length_takeWhile]
  rfl

theorem NodeFits.insertLeaf (h : NodeFits L l node) (hheight : l.height = 0)
    (hroom : node.entries.length < maxKeys) {e : BTreeEntry} (hlo : l.lo < bound e.key)
    (hhi : bound e.key < l.hi) (hkey : ∀ e' ∈ node.entries, e'.key ≠ e.key) :
    NodeFits L l (insertLeaf node e) := by
  have hlength : (insertOrdered e node.entries).length = node.entries.length + 1 :=
    (insertOrdered_perm e node.entries).length_eq
  refine ⟨?_, hlength.trans_le hroom, ordered_insert h.ordered hkey, ?_, fun _ => h.leaf hheight, fun n hn => ?_⟩
  · show node.entryCount + 1 = (insertOrdered e node.entries).length
    rw [hlength, h.count]
  · intro e' he'
    rcases List.mem_cons.mp ((insertOrdered_perm e node.entries).mem_iff.mp he') with rfl | he'
    · exact ⟨hlo, hhi⟩
    · exact h.within e' he'
  · exact absurd (hheight.symm.trans hn) (by simp)

theorem insertIntoNode_internal {capacity : ℕ} {key : BTreeKey} {value : BTreeValue}
    (htype : node.nodeType = .internal) {c : ℕ}
    (hchild : node.children[node.findInsertPosition key]? = some c) (n id : ℕ) :
    insertIntoNode capacity key value (n + 1) id node = (do
      let childNode ← loadNode c
      if childNode.isFull then
        let (childNode, rightNode, separator) ← onNode childNode.split
        saveNode capacity c childNode
        let rightPageId ← newPage
        saveNode capacity rightPageId rightNode
        saveNode capacity id (insertChild node (node.findInsertPosition key) separator rightPageId)
        if key < separator.key then insertIntoNode capacity key value n c childNode
        else insertIntoNode capacity key value n rightPageId rightNode
      else
        saveNode capacity id node
        insertIntoNode capacity key value n c childNode) := by
  simp only [insertIntoNode, htype, hchild, insertChild]

/-- Insertion below a node that is not full keeps the shape, and fails only if a node does not fit into
its page. -/
theorem Shape.spec_insertIntoNode {capacity : ℕ} {key : BTreeKey} {value : BTreeValue} (hm : m ≤ 49)
    (hkey : key ∉ S) (n id : ℕ) (h : Shape m L H S t) (hid : L id = some l) (hn : l.height < n)
    (hnode : t.nodeAt id = node) (hroom : node.entries.length < maxKeys) (hlo : l.lo < bound key)
    (hhi : bound key < l.hi) :
    Spec (insertIntoNode capacity key value n id node) t (fun _ t' => ∃ L', Shape m L' H (S ∪ {key}) t')
      fun e _ => TooLarge e := by
  induction n generalizing id node t L l with
  | zero => exact absurd hn (Nat.not_lt_zero _)
  | succ n ih =>
    have hfits := h.fits id l hid
    have hkeys := h.keys id l hid
    have hallocated := h.allocated id l hid
    rw [hnode] at hfits hkeys
    have hne : ∀ e ∈ node.entries, e.key ≠ key := fun e he heq => hkey (heq ▸ hkeys e he)
    rcases hheight : l.height with - | n'
    · obtain ⟨htype, -⟩ := hfits.leaf hheight
      simp only [insertIntoNode, htype]
      rw [insertEntry_of_room hfits hroom]
      show Spec (saveNode capacity id _) t _ _
      refine (spec_saveNode_allocated hallocated _).conseq ?_
      rintro _ _ rfl
      refine ⟨L, h.withNode Set.subset_union_left fun l' hl' => ?_⟩
      obtain rfl : l = l' := Option.some.inj (hid.symm.trans hl')
      refine ⟨hfits.insertLeaf hheight hroom hlo hhi hne, ?_, ?_⟩
      · intro e he
        rcases List.mem_cons.mp ((insertOrdered_perm _ node.entries).mem_iff.mp he) with rfl | he
        · exact .inr rfl
        · exact .inl (hkeys e he)
      · intro hroot
        have hfilled := h.filled id l hid hroot
        rw [hnode] at hfilled
        exact hfilled.trans ((insertOrdered_perm ⟨key, value⟩ node.entries).length_eq ▸ Nat.le_succ _)
    · obtain ⟨htype, -⟩ := hfits.internal n' hheight
      obtain ⟨c, a, b, hchild⟩ := hfits.childFor hheight hlo hhi hne
      have hc := hchild.slot.1
      have hcallocated := h.allocated c _ hc
      have hcp : c ≠ id := by
        rintro rfl
        rw [hid] at hc
        cases hc
        simp at hheight
      rw [insertIntoNode_internal htype hchild.child]
      apply (spec_loadNode_allocated hcallocated).bind
      rintro childNode t ⟨rfl, rfl⟩
      have hcfits := h.fits c _ hc
      split
      · next hfull =>
        obtain ⟨left, right, separator, hsplit⟩ := hcfits.split hfull
        rw [hsplit.split]
        have ha := hsplit.above
        have hb := hsplit.below
        have hsKey : separator.key ≠ key := by
          intro heq
          refine hkey (heq ▸ h.keys c _ hc separator ?_)
          rw [hsplit.entries]
          exact List.mem_append_right _ List.mem_cons_self
        refine Spec.bind (Q := fun r t' => r = (left, right, separator) ∧ t' = t) ⟨rfl, rfl⟩ ?_
        rintro _ t ⟨rfl, rfl⟩
        apply (spec_saveNode_allocated hcallocated left).bind
        rintro _ _ rfl
        apply spec_newPage.bind
        rintro _ _ ⟨rfl, rfl⟩
        apply (spec_saveNode_allocated (Nat.lt_succ_self t.totalPages) right).bind
        rintro _ _ rfl
        apply (spec_saveNode_allocated (Nat.lt_succ_of_lt hallocated) _).bind
        rintro _ t' ht'
        have hat : SplitAt id c left right
            (insertChild (t.nodeAt id) ((t.nodeAt id).findInsertPosition key) separator t.totalPages) t t' := by
          rw [ht']
          refine ⟨rfl, rfl, ?_⟩
          rw [nodeAt_withNode, nodeAt_withNode]
          show Function.update (Function.update (t.withNode c left).nodeAt _ _) _ _ = _
          rw [nodeAt_withNode, hnode]
          rfl
        have hshape := h.splitChild hm hid hheight (hnode ▸ hroom) (hnode ▸ hchild) hsplit hat
        have hcr : c ≠ t.totalPages := hcallocated.ne
        by_cases hless : key < separator.key
        · rw [if_pos hless]
          refine ih c hshape (splitLabels_left hcr) (by show n' < n; omega) (hat.nodeAt_left hcp hcallocated) ?_
            hchild.above (bound_lt.mpr hless)
          rw [hsplit.left_length]
          decide
        · rw [if_neg hless]
          have hgreater := lt_of_le_of_ne (not_lt.mp hless) hsKey
          refine ih t.totalPages hshape (splitLabels_right ..) (by show n' < n; omega)
            (hat.nodeAt_right hallocated) ?_ (bound_lt.mpr hgreater) hchild.below
          rw [hsplit.right_length]
          decide
      · next hnotFull =>
        apply (spec_saveNode_allocated hallocated node).bind
        rintro _ _ rfl
        have hsame := sameNodes_withNode hnode
        refine ih c (h.same hsame) hc (by show n' < n; omega) (congrFun hsame.nodeAt c) ?_ hchild.above hchild.below
        exact not_le.mp (mt (isFull_iff hcfits).mpr hnotFull)

/-! ## The split of the root -/

/-- A root over one page, without entries. -/
def rootOver (c : ℕ) : BTreeNode := { BTreeNode.new .internal with children := [c] }

/-- The tree with a new root over the old one. -/
def withRoot (t : BTree) : BTree :=
  BTree.withNode { t with rootPageId := t.totalPages, totalPages := t.totalPages + 1 } t.totalPages
    (rootOver t.rootPageId)

theorem nodeAt_withRoot (t : BTree) :
    t.withRoot.nodeAt = Function.update t.nodeAt t.totalPages (rootOver t.rootPageId) := nodeAt_withNode ..

theorem bot_lt_top : (⊥ : Bound) < ⊤ := (bot_lt_bound []).trans (bound_lt_top [])

/-- The split of the root is the split of the only child of a new root. -/
theorem Shape.withRoot (h : Shape m L H S t) (hm : m ≤ (t.nodeAt t.rootPageId).entries.length) :
    Shape m (Function.update L t.totalPages (some ⟨H + 1, ⊥, ⊤⟩)) (H + 1) S t.withRoot := by
  have hcases : ∀ {id : ℕ} {l : Label},
      Function.update L t.totalPages (some ⟨H + 1, ⊥, ⊤⟩) id = some l →
        id = t.totalPages ∧ l = ⟨H + 1, ⊥, ⊤⟩ ∨ id ≠ t.totalPages ∧ L id = some l := by
    intro id l hl
    by_cases hid : id = t.totalPages
    · rw [hid, Function.update_self] at hl
      exact .inl ⟨hid, (Option.some.inj hl).symm⟩
    · rw [Function.update_of_ne hid] at hl
      exact .inr ⟨hid, hl⟩
  have hold : ∀ {id : ℕ} {l : Label}, L id = some l →
      Function.update L t.totalPages (some ⟨H + 1, ⊥, ⊤⟩) id = L id :=
    fun hl => Function.update_of_ne (h.allocated _ _ hl).ne _ _
  have hnode : ∀ {id : ℕ}, id ≠ t.totalPages → t.withRoot.nodeAt id = t.nodeAt id := by
    intro id hid
    rw [nodeAt_withRoot, Function.update_of_ne hid]
  have hnew : t.withRoot.nodeAt t.totalPages = rootOver t.rootPageId := by
    rw [nodeAt_withRoot, Function.update_self]
  refine ⟨Function.update_self .., ?_, ?_, Nat.succ_lt_succ h.height_lt, ?_, ?_, ?_, ?_, ?_⟩
  · intro id l' hl'
    rcases hcases hl' with ⟨rfl, -⟩ | ⟨-, hl⟩
    · exact Nat.lt_succ_self _
    · exact Nat.lt_succ_of_lt (h.allocated _ _ hl)
  · intro id l' hl'
    rcases hcases hl' with ⟨-, rfl⟩ | ⟨-, hl⟩
    · exact le_rfl
    · exact (h.height_le _ _ hl).trans (Nat.le_succ H)
  · intro id l' hl'
    rcases hcases hl' with ⟨-, rfl⟩ | ⟨-, hl⟩
    · exact bot_lt_top
    · exact h.nonempty _ _ hl
  · intro id id' l₁ l₂ hl₁ hl₂ hheight hne
    -- the new root is alone on its height
    rcases hcases hl₁ with ⟨rfl, rfl⟩ | ⟨-, hl₁⟩
    · rcases hcases hl₂ with ⟨rfl, rfl⟩ | ⟨-, hl₂⟩
      · exact absurd rfl hne
      · exact absurd (h.height_le _ _ hl₂) (by simp only at hheight; omega)
    · rcases hcases hl₂ with ⟨rfl, rfl⟩ | ⟨-, hl₂⟩
      · exact absurd (h.height_le _ _ hl₁) (by simp only at hheight; omega)
      · exact h.disjoint _ _ _ _ hl₁ hl₂ hheight hne
  · intro id l' hl'
    rcases hcases hl' with ⟨rfl, rfl⟩ | ⟨hid, hl⟩
    · rw [hnew]
      refine ⟨rfl, Nat.zero_le _, List.Pairwise.nil, fun e he => absurd he List.not_mem_nil, by simp,
        fun n hn => ?_⟩
      obtain rfl : H = n := Nat.succ.inj hn
      exact ⟨rfl, .last ⟨(hold h.root).trans h.root, bot_lt_top⟩⟩
    · rw [hnode hid]
      refine (h.fits _ _ hl).congr fun d hd => ?_
      obtain ⟨n, x, y, -, hd, -⟩ := (h.fits _ _ hl).child hd
      exact hold hd
  · intro id l' hl' e he
    rcases hcases hl' with ⟨rfl, rfl⟩ | ⟨hid, hl⟩
    · rw [hnew] at he
      exact absurd he List.not_mem_nil
    · rw [hnode hid] at he
      exact h.keys _ _ hl e he
  · intro id l' hl' hroot
    rcases hcases hl' with ⟨rfl, -⟩ | ⟨hid, hl⟩
    · exact absurd rfl hroot
    · rw [hnode hid]
      by_cases heq : id = t.rootPageId
      · rwa [heq]
      · exact h.filled _ _ hl heq

theorem Shape.spec_splitRoot {capacity : ℕ} (hm : m ≤ 49) (h : Shape m L H S t)
    (hnode : t.nodeAt t.rootPageId = node) (hfull : node.isFull) :
    Spec (splitRoot capacity node) t (fun node' t' => (∃ L', Shape m L' (H + 1) S t') ∧
      t'.nodeAt t'.rootPageId = node' ∧ node'.entries.length = 1) fun e _ => TooLarge e := by
  have hrootlt := h.allocated _ _ h.root
  have hlength : m ≤ (t.nodeAt t.rootPageId).entries.length := by
    have hge := (isFull_iff (h.fits _ _ h.root)).mp (hnode ▸ hfull)
    exact hm.trans ((by decide : 49 ≤ maxKeys).trans hge)
  have hroot := h.withRoot hlength
  have hnodeRoot : t.withRoot.nodeAt t.rootPageId = node := by
    rw [nodeAt_withRoot, Function.update_of_ne hrootlt.ne, hnode]
  have hlabelRoot := (Function.update_of_ne hrootlt.ne (some ⟨H + 1, ⊥, ⊤⟩) L).trans h.root
  obtain ⟨left, right, separator, hsplit⟩ := (hroot.fits _ _ hlabelRoot).split (hnodeRoot ▸ hfull)
  have hsplitNode := hsplit.split
  rw [hnodeRoot] at hsplitNode
  unfold splitRoot
  apply spec_get.bind
  rintro _ t ⟨rfl, rfl⟩
  apply spec_newPage.bind
  rintro _ _ ⟨rfl, rfl⟩
  rw [hsplitNode]
  refine Spec.bind (Q := fun r t' => r = (left, right, separator) ∧ t' = { t with totalPages := t.totalPages + 1 })
    ⟨rfl, rfl⟩ ?_
  rintro _ _ ⟨rfl, rfl⟩
  apply (spec_saveNode_allocated (Nat.lt_succ_of_lt hrootlt) left).bind
  rintro _ _ rfl
  apply spec_newPage.bind
  rintro _ _ ⟨rfl, rfl⟩
  apply (spec_saveNode_allocated (Nat.lt_succ_self (t.totalPages + 1)) right).bind
  rintro _ _ rfl
  apply (spec_saveNode_allocated (Nat.lt_succ_of_lt (Nat.lt_succ_self t.totalPages)) _).bind
  rintro _ t₁ ht₁
  have hnewRoot : t.withRoot.nodeAt t.totalPages = rootOver t.rootPageId := by
    rw [nodeAt_withRoot, Function.update_self]
  have hrootfits := hroot.fits t.totalPages _ (Function.update_self ..)
  rw [hnewRoot] at hrootfits
  obtain ⟨c, a, b, hchild⟩ := hrootfits.childFor rfl (bot_lt_bound []) (bound_lt_top [])
    fun e he => absurd he List.not_mem_nil
  obtain rfl : t.rootPageId = c := Option.some.inj hchild.child
  have hlabel := hchild.slot.1
  rw [hlabelRoot] at hlabel
  obtain ⟨-, rfl, rfl⟩ := Label.mk.inj (Option.some.inj hlabel)
  -- what was saved is the split of the only child of the new root
  have hat : SplitAt t.totalPages t.rootPageId left right
      (insertChild (rootOver t.rootPageId) ((rootOver t.rootPageId).findInsertPosition []) separator
        t.withRoot.totalPages) t.withRoot { t₁ with rootPageId := t.totalPages } := by
    rw [ht₁]
    refine ⟨rfl, rfl, ?_⟩
    show BTree.nodeAt (BTree.withNode _ t.totalPages _) = _
    rw [nodeAt_withNode, nodeAt_withNode, nodeAt_withRoot]
    show Function.update (Function.update (BTree.nodeAt (BTree.withNode _ _ left)) (t.totalPages + 1) right)
      t.totalPages _ = Function.update (Function.update (Function.update _ _ _) (t.totalPages + 1) _) _ _
    rw [nodeAt_withNode]
    funext id
    by_cases hid : id = t.totalPages
    · rw [hid, Function.update_self, Function.update_self]
      rfl
    · rw [Function.update_of_ne hid, Function.update_of_ne hid]
      by_cases hright : id = t.totalPages + 1
      · rw [hright, Function.update_self, Function.update_self]
      · rw [Function.update_of_ne hright, Function.update_of_ne hright]
        by_cases hleft : id = t.rootPageId
        · rw [hleft, Function.update_self, Function.update_self]
        · rw [Function.update_of_ne hleft, Function.update_of_ne hleft, Function.update_of_ne hid]
          rfl
  rw [← hnewRoot] at hchild hat
  have hroom : (t.withRoot.nodeAt t.totalPages).entries.length < maxKeys := by
    rw [hnewRoot]
    exact Nat.zero_lt_of_lt (by decide : 0 < maxKeys)
  have hshape := hroot.splitChild hm (Function.update_self ..) rfl hroom hchild hsplit hat
  refine ⟨⟨_, hshape⟩, ?_, rfl⟩
  show BTree.nodeAt _ t.totalPages = _
  rw [hat.nodeAt, Function.update_self, hnewRoot]
  rfl

/-! ## Runs -/

/-- A new tree is a leaf without entries. -/
theorem shape_new (m n : ℕ) :
    Shape m (Function.update (fun _ => none) n (some ⟨0, ⊥, ⊤⟩)) 0 ∅ (BTree.new n) := by
  have hcases : ∀ {id : ℕ} {l : Label},
      (Function.update (fun _ => none) n (some ⟨0, ⊥, ⊤⟩) : Labels) id = some l → id = n ∧ l = ⟨0, ⊥, ⊤⟩ := by
    intro id l hl
    by_cases hid : id = n
    · rw [hid, Function.update_self] at hl
      exact ⟨hid, (Option.some.inj hl).symm⟩
    · rw [Function.update_of_ne hid] at hl
      cases hl
  refine ⟨Function.update_self .., ?_, ?_, Nat.succ_pos n, ?_, ?_, ?_, ?_, ?_⟩
  · intro id l hl
    obtain ⟨rfl, -⟩ := hcases hl
    exact Nat.lt_succ_self _
  · intro id l hl
    obtain ⟨-, rfl⟩ := hcases hl
    exact le_rfl
  · intro id l hl
    obtain ⟨-, rfl⟩ := hcases hl
    exact bot_lt_top
  · intro id id' l l' hl hl' _ hne
    exact absurd ((hcases hl).1.trans (hcases hl').1.symm) hne
  · intro id l hl
    obtain ⟨-, rfl⟩ := hcases hl
    exact ⟨rfl, Nat.zero_le _, List.Pairwise.nil, fun e he => absurd he List.not_mem_nil, fun _ => ⟨rfl, rfl⟩,
      by simp⟩
  · intro id l _ e he
    exact absurd he List.not_mem_nil
  · intro id l hl hroot
    exact absurd (hcases hl).1 hroot

/-- Insertion of a key that is not in the tree keeps the shape, and fails only if a node does not fit into
its page. The tree grows if the root is full. -/
theorem Shape.spec_insert {capacity : ℕ} {key : BTreeKey} {value : BTreeValue} (hm : m ≤ 49) (hkey : key ∉ S)
    (h : Shape m L H S t) :
    Spec (insert capacity key value) t (fun _ t' => ∃ L' H', Shape m L' H' (S ∪ {key}) t' ∧ H ≤ H' ∧
      ((t.nodeAt t.rootPageId).isFull → H < H')) fun e _ => TooLarge e := by
  have hrootlt := h.allocated _ _ h.root
  have hbelow : (⟨H, ⊥, ⊤⟩ : Label).height < t.totalPages := h.height_lt
  unfold insert
  apply spec_get.bind
  rintro _ t ⟨rfl, rfl⟩
  apply (spec_loadNode_allocated hrootlt).bind
  rintro rootNode t ⟨rfl, rfl⟩
  by_cases hfull : (t.nodeAt t.rootPageId).isFull = true
  · rw [splitFullRoot, if_pos hfull]
    apply (h.spec_splitRoot hm rfl hfull).bind
    rintro rootNode' t' ⟨⟨L', h'⟩, hnode, hlength⟩
    apply spec_get.bind
    rintro _ t' ⟨rfl, rfl⟩
    refine Spec.conseq (h'.spec_insertIntoNode hm hkey t'.totalPages t'.rootPageId h'.root h'.height_lt hnode ?_
      (bot_lt_bound key) (bound_lt_top key)) ?_
    · rw [hlength]
      decide
    · rintro _ t'' ⟨L'', h''⟩
      exact ⟨L'', H + 1, h'', Nat.le_succ H, fun _ => Nat.lt_succ_self H⟩
  · rw [splitFullRoot, if_neg hfull]
    refine Spec.bind (Q := fun r t' => r = t.nodeAt t.rootPageId ∧ t' = t) ⟨rfl, rfl⟩ ?_
    rintro _ t ⟨rfl, rfl⟩
    apply spec_get.bind
    rintro _ t ⟨rfl, rfl⟩
    refine Spec.conseq (h.spec_insertIntoNode hm hkey t.totalPages t.rootPageId h.root hbelow rfl ?_
      (bot_lt_bound key) (bound_lt_top key)) ?_
    · exact not_le.mp (mt (isFull_iff (h.fits _ _ h.root)).mpr hfull)
    · rintro _ t'' ⟨L'', h''⟩
      exact ⟨L'', H, h'', le_rfl, fun hcontra => absurd hcontra hfull⟩

end BTree

end Rustgresql
