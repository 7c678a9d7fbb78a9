import Rustgresql.Lib.HashMap

/-!
# Maps built by insertion

`insertAll` enters pairs one after the other. Lookups and searches in its result find the last pair that matches,
and a map with other values under the same keys keeps its order.
-/

namespace HashMap

variable {κ ν μ : Type} {f : ν → μ} {m : HashMap κ ν} {m' : HashMap κ μ}

/-- A map has the values of another one, under a function. -/
def IsImage (f : ν → μ) (m : HashMap κ ν) (m' : HashMap κ μ) : Prop := m'.pairs = m.pairs.map (Prod.map id f)

theorem isImage_empty : IsImage f (∅ : HashMap κ ν) ∅ := rfl

variable [DecidableEq κ]

def insertAll (l : List (κ × ν)) (m : HashMap κ ν) : HashMap κ ν := l.foldl (fun m p => m.insert p.1 p.2) m

theorem insertAll_append (l l' : List (κ × ν)) (m : HashMap κ ν) :
    insertAll (l ++ l') m = insertAll l' (insertAll l m) := List.foldl_append

theorem pairs_insert (k : κ) (v : ν) (m : HashMap κ ν) :
    pairs (m.insert k v) = (k, v) :: m.pairs.eraseP fun p => k = p.1 := by
  rw [pairs, AList.entries_insert, List.map_cons, pairs, List.eraseP_map]
  rfl

/-! ## Searches -/

theorem lookup_eq_find? (m : HashMap κ ν) (k : κ) : m.lookup k = (m.pairs.find? fun p => p.1 = k).map Prod.snd := by
  rcases hfind : m.pairs.find? (fun p => p.1 = k) with - | p
  · rw [hfind, Option.map_none, AList.lookup_eq_none]
    intro hmem
    obtain ⟨v, hlookup⟩ := Option.isSome_iff_exists.mp (AList.lookup_isSome.mpr hmem)
    have hpair : (k, v) ∈ m.pairs := mem_pairs.mpr hlookup
    exact List.find?_eq_none.mp hfind _ hpair (decide_eq_true rfl)
  · have hkey := List.find?_some hfind
    obtain rfl : p.1 = k := of_decide_eq_true hkey
    rw [hfind]
    exact mem_pairs.mp (List.mem_of_find?_eq_some hfind)

theorem lookup_insertAll (l : List (κ × ν)) (m : HashMap κ ν) (k : κ) :
    (insertAll l m).lookup k = ((LastMatch.find (fun p => p.1 = k) l).map Prod.snd).or (m.lookup k) := by
  have hlookup := lookup_foldl_insert (fun p : κ × ν => some p.1) Prod.snd l m k
  simp only [Option.some.injEq] at hlookup
  exact hlookup

theorem find?_eraseP {q : κ → Bool} {k : κ} (h : q k = false) (l : List (κ × ν)) :
    (l.eraseP fun p => k = p.1).find? (fun p => q p.1) = l.find? fun p => q p.1 := by
  induction l with
  | nil => rfl
  | cons p l ih =>
    by_cases hk : k = p.1
    · have hfirst : q p.1 = false := hk ▸ h
      rw [List.eraseP_cons_of_pos (by simpa using hk), List.find?_cons, hfirst]
    · rw [List.eraseP_cons_of_neg (by simpa using hk), List.find?_cons, List.find?_cons, ih]

theorem find?_pairs_insert (q : κ → Bool) (k : κ) (v : ν) (m : HashMap κ ν) :
    (pairs (m.insert k v)).find? (fun p => q p.1) = if q k then some (k, v) else m.pairs.find? fun p => q p.1 := by
  rw [pairs_insert, List.find?_cons]
  rcases h : q k
  · rw [find?_eraseP h]
    rfl
  · rfl

/-- A search through the keys finds the pair that has been entered last. -/
theorem find?_pairs_insertAll (q : κ → Bool) (l : List (κ × ν)) (m : HashMap κ ν) :
    (insertAll l m).pairs.find? (fun p => q p.1) =
      (LastMatch.find (fun p => q p.1) l).or (m.pairs.find? fun p => q p.1) := by
  induction l generalizing m with
  | nil => rfl
  | cons p l ih =>
    have hcons : insertAll (p :: l) m = insertAll l (m.insert p.1 p.2) := rfl
    rw [hcons, ih, find?_pairs_insert, LastMatch.find_cons]
    rcases LastMatch.find (fun p : κ × ν => q p.1) l with - | p'
    · split_ifs <;> rfl
    · rfl

/-! ## Images -/

theorem IsImage.insert (h : IsImage f m m') (k : κ) (v : ν) : IsImage f (m.insert k v) (m'.insert k (f v)) := by
  rw [IsImage, pairs_insert, pairs_insert, List.map_cons, h, List.eraseP_map]
  rfl

theorem IsImage.insertAll (h : IsImage f m m') (l : List (κ × ν)) :
    IsImage f (insertAll l m) (HashMap.insertAll (l.map (Prod.map id f)) m') := by
  induction l generalizing m m' with
  | nil => exact h
  | cons p l ih => exact ih (h.insert p.1 p.2)

theorem IsImage.lookup (h : IsImage f m m') (k : κ) : m'.lookup k = (m.lookup k).map f := by
  rw [lookup_eq_find?, lookup_eq_find?, h, List.find?_map, Option.map_map, Option.map_map]
  rfl

end HashMap
