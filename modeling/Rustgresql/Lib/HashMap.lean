import Mathlib
import Rustgresql.Lib.LastMatch

/-!
# Hash maps

A hash map is one of Mathlib's association lists with distinct keys; the list is the order in which
the map is iterated. This module adds what programs do with a whole map: change every value, drop
the entries whose value fails a test, add up a measure of the values, and collect a sequence of pairs
into a map.
-/

/-- Finite maps with an iteration order. -/
abbrev HashMap (κ ν : Type) := AList fun _ : κ => ν

namespace HashMap

variable {κ ν : Type}

/-- Change every value. -/
def mapValues (f : ν → ν) (m : HashMap κ ν) : HashMap κ ν :=
  ⟨m.entries.map (.map id fun _ => f), m.nodupKeys.map₂ fun _ => f⟩

/-- Keep the entries whose value passes a test. -/
def retain (p : ν → Bool) (m : HashMap κ ν) : HashMap κ ν :=
  ⟨m.entries.filter fun e => p e.2, m.nodupKeys.sublist List.filter_sublist⟩

/-- Add up a measure of the values. -/
def total (f : ν → ℕ) (m : HashMap κ ν) : ℕ := (m.entries.map fun e => f e.2).sum

@[simp] theorem entries_mapValues (f : ν → ν) (m : HashMap κ ν) :
    (mapValues f m).entries = m.entries.map (.map id fun _ => f) := rfl

@[simp] theorem entries_retain (p : ν → Bool) (m : HashMap κ ν) :
    (retain p m).entries = m.entries.filter fun e => p e.2 := rfl

variable [DecidableEq κ]

/-- Collect pairs into a map; a later value for a key replaces an earlier one. -/
def ofPairs (l : List (κ × ν)) : HashMap κ ν :=
  let entries : List (Σ _ : κ, ν) := l.map fun p => ⟨p.1, p.2⟩
  ⟨entries.reverse.dedupKeys.reverse,
    (List.perm_nodupKeys (List.reverse_perm _)).mpr (List.nodupKeys_dedupKeys _)⟩

/-- Change the value of a key, if it has one. -/
def adjust (k : κ) (f : ν → ν) (m : HashMap κ ν) : HashMap κ ν :=
  match m.lookup k with
  | some v => m.insert k (f v)
  | none => m

/-- The pairs of a map in iteration order. -/
def pairs (m : HashMap κ ν) : List (κ × ν) :=
  m.entries.map fun e => (e.1, e.2)

/-! ## Lookups -/

theorem lookup_eq_some {m : HashMap κ ν} {k : κ} {v : ν} :
    m.lookup k = some v ↔ ⟨k, v⟩ ∈ m.entries :=
  AList.mem_lookup_iff

@[simp] theorem lookup_mapValues (f : ν → ν) (m : HashMap κ ν) (k : κ) :
    (mapValues f m).lookup k = (m.lookup k).map f :=
  List.dlookup_map₂ k

@[simp] theorem lookup_retain (p : ν → Bool) (m : HashMap κ ν) (k : κ) :
    (retain p m).lookup k = (m.lookup k).filter p := by
  refine Option.ext fun v => ?_
  rw [← Option.mem_def, AList.mem_lookup_iff, entries_retain, List.mem_filter, Option.filter_eq_some_iff,
    lookup_eq_some]

theorem lookup_insert_eq (m : HashMap κ ν) (k k' : κ) (v : ν) :
    (m.insert k v).lookup k' = if k' = k then some v else m.lookup k' := by
  split
  · next h => rw [h, AList.lookup_insert]
  · next h => exact AList.lookup_insert_ne h

theorem lookup_adjust (m : HashMap κ ν) (k k' : κ) (f : ν → ν) :
    (adjust k f m).lookup k' = if k' = k then (m.lookup k').map f else m.lookup k' := by
  rcases h : m.lookup k with - | v
  · simp only [adjust, h]
    split
    · next hk => rw [hk, h, Option.map_none]
    · rfl
  · simp only [adjust, h, lookup_insert_eq]
    split
    · next hk => rw [hk, h, Option.map_some]
    · rfl

theorem lookup_erase_eq (m : HashMap κ ν) (k k' : κ) :
    (m.erase k).lookup k' = if k' = k then none else m.lookup k' := by
  split
  · next h => rw [h, AList.lookup_erase]
  · next h => exact AList.lookup_erase_ne h

/-! ## Sizes -/

theorem length_erase_le (m : HashMap κ ν) (k : κ) : (m.erase k).entries.length ≤ m.entries.length :=
  (List.kerase_sublist k m.entries).length_le

theorem length_erase_of_lookup {m : HashMap κ ν} {k : κ} {v : ν} (h : m.lookup k = some v) :
    (m.erase k).entries.length + 1 = m.entries.length := by
  have hmem : k ∈ m.entries.keys := List.mem_keys_of_mem (lookup_eq_some.mp h)
  obtain ⟨w, l₁, l₂, -, hentries, herase⟩ := List.exists_of_kerase hmem
  rw [show (m.erase k).entries = m.entries.kerase k from rfl, herase, hentries, List.length_append, List.length_append,
    List.length_cons]
  omega

theorem length_insert (m : HashMap κ ν) (k : κ) (v : ν) :
    (m.insert k v).entries.length = (m.erase k).entries.length + 1 := by
  rw [AList.entries_insert, List.length_cons]
  rfl

/-! ## Totals -/

theorem sum_kerase (f : ν → ℕ) (k : κ) (l : List (Σ _ : κ, ν)) :
    ((l.kerase k).map fun e => f e.2).sum + ((l.dlookup k).elim 0 f) = (l.map fun e => f e.2).sum := by
  induction l with
  | nil => rfl
  | cons e l ih =>
    obtain ⟨k', v⟩ := e
    by_cases hk : k = k'
    · subst hk
      have hkerase : (⟨k, v⟩ :: l : List (Σ _ : κ, ν)).kerase k = l := List.kerase_cons_eq rfl
      rw [hkerase, List.dlookup_cons_eq, List.map_cons, List.sum_cons]
      exact Nat.add_comm _ _
    · have hkerase : (⟨k', v⟩ :: l : List (Σ _ : κ, ν)).kerase k = ⟨k', v⟩ :: l.kerase k :=
        List.kerase_cons_ne hk
      rw [hkerase, List.dlookup_cons_ne l ⟨k', v⟩ hk, List.map_cons, List.sum_cons, List.map_cons,
        List.sum_cons, Nat.add_assoc, ih]

theorem total_erase (f : ν → ℕ) (m : HashMap κ ν) (k : κ) :
    total f (m.erase k) + (m.lookup k).elim 0 f = total f m :=
  sum_kerase f k m.entries

theorem total_insert (f : ν → ℕ) (m : HashMap κ ν) (k : κ) (v : ν) :
    total f (m.insert k v) + (m.lookup k).elim 0 f = f v + total f m := by
  have herase := total_erase f m k
  have hinsert : total f (m.insert k v) = f v + total f (m.erase k) := List.sum_cons
  omega

/-! ## Maps and their pairs -/

theorem dedupKeys_eq {l : List (Σ _ : κ, ν)} (h : l.NodupKeys) : l.dedupKeys = l := by
  induction l with
  | nil => rfl
  | cons e l ih =>
    obtain ⟨hnew, htail⟩ := List.nodupKeys_cons.mp h
    rw [List.dedupKeys_cons, ih htail, List.kinsert_def, List.kerase_of_notMem_keys hnew]

theorem mem_pairs {m : HashMap κ ν} {e : κ × ν} : e ∈ m.pairs ↔ m.lookup e.1 = some e.2 := by
  rw [pairs, List.mem_map, lookup_eq_some]
  constructor
  · rintro ⟨e', he', rfl⟩
    exact he'
  · exact fun he => ⟨⟨e.1, e.2⟩, he, rfl⟩

theorem ofPairs_pairs (m : HashMap κ ν) : ofPairs m.pairs = m := by
  have hentries : m.pairs.map (fun p => (⟨p.1, p.2⟩ : Σ _ : κ, ν)) = m.entries := by
    rw [pairs, List.map_map]
    exact List.map_id _
  refine AList.ext ?_
  show (m.pairs.map fun p => (⟨p.1, p.2⟩ : Σ _ : κ, ν)).reverse.dedupKeys.reverse = m.entries
  rw [hentries, dedupKeys_eq, List.reverse_reverse]
  exact (List.perm_nodupKeys (List.reverse_perm _)).mpr m.nodupKeys

/-! ## Groups -/

section Groups

variable {α : Type} (key : α → κ) (start : α → ν) (step : ν → α → ν)

/-- Take elements together under their keys. The first element of a group starts its value. -/
def group (l : List α) : HashMap κ ν :=
  l.foldl (fun m a => m.insert (key a) (step ((m.lookup (key a)).getD (start a)) a)) ∅

theorem group_append_singleton (l : List α) (a : α) : group key start step (l ++ [a]) =
    (group key start step l).insert (key a)
      (step (((group key start step l).lookup (key a)).getD (start a)) a) := by
  rw [group, List.foldl_append]
  rfl

/-- The value of a group is made of exactly the elements with its key, in their order. -/
theorem lookup_group (l : List α) (k : κ) : (group key start step l).lookup k =
    (l.filter fun a => key a = k).head?.map fun a =>
      (l.filter fun a => key a = k).foldl step (start a) := by
  induction l using List.reverseRecOn with
  | nil => rfl
  | append_singleton l a ih =>
    rw [group_append_singleton, lookup_insert_eq, List.filter_append]
    by_cases hkey : k = key a
    · subst hkey
      rw [if_pos rfl, ih]
      rcases l.filter fun b => key b = key a with - | ⟨b, bs⟩
      · simp
      · simp
    · have hother : ([a].filter fun b => key b = k) = [] := by
        simp [Ne.symm hkey]
      rw [if_neg hkey, hother, List.append_nil, ih]

end Groups

/-- Of the elements with a key the last has been entered. -/
theorem lookup_foldl_insert {α : Type} (key : α → Option κ) (value : α → ν) (l : List α) (m : HashMap κ ν) (k : κ) :
    (l.foldl (fun m a => (key a).elim m fun k => m.insert k (value a)) m).lookup k =
      ((LastMatch.find (fun a => key a = some k) l).map value).or (m.lookup k) := by
  induction l generalizing m with
  | nil => rfl
  | cons a l ih =>
    rw [List.foldl_cons, ih, LastMatch.find_cons]
    rcases LastMatch.find (fun a => key a = some k) l with - | b
    · rcases hkey : key a with - | k'
      · simp
      · rw [Option.elim_some, lookup_insert_eq]
        by_cases heq : k = k'
        · simp [heq]
        · simp [heq, Ne.symm heq]
    · simp

/-- Every element is counted with its own image. -/
theorem sum_length_filter {α β : Type} [DecidableEq β] (f : α → β) {l : List α} {images : List β} (hnodup : images.Nodup)
    (hmem : ∀ b, b ∈ images ↔ ∃ a ∈ l, f a = b) :
    (images.map fun b => (l.filter fun a => f a = b).length).sum = l.length := by
  have hperm : images.Perm (l.map f).dedup := by
    refine (List.perm_ext_iff_of_nodup hnodup (List.nodup_dedup _)).mpr fun b => ?_
    rw [hmem, List.mem_dedup, List.mem_map]
  have hcount (b : β) : (l.filter fun a => f a = b).length = (l.map f).count b := by
    rw [List.count_eq_countP, List.countP_map, List.countP_eq_length_filter]
    refine congrArg List.length (List.filter_congr fun a _ => ?_)
    exact Bool.eq_iff_iff.mpr (by simp)
  simp only [hcount]
  rw [(hperm.map _).sum_eq, List.sum_map_count_dedup_eq_length, List.length_map]

end HashMap
