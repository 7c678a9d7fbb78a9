import Mathlib.Computability.Language

/-!
# Patterns with wildcards

A pattern is a sequence of letters and wildcards, for one letter or for many. The language of a pattern is the
product of the languages of its items.
-/

namespace Wildcards

variable {α : Type}

/-- An item of a pattern -/
inductive Item (α : Type)
  | char (a : α)
  | any
  | anyMany

/-- The words that an item stands for. `wild` are the letters that wildcards stand for. -/
def language (same : α → α → Bool) (wild : α → Bool) : Item α → Language α
  | .char a => {w | ∃ b, w = [b] ∧ same a b}
  | .any => {w | ∃ b, w = [b] ∧ wild b}
  | .anyMany => {w | ∀ b ∈ w, wild b}

def patternLanguage (same : α → α → Bool) (wild : α → Bool) (items : List (Item α)) : Language α :=
  (items.map (language same wild)).prod

/-- Whether a pattern matches a word -/
def matchItems (same : α → α → Bool) (wild : α → Bool) : List (Item α) → List α → Bool
  | [], w => w.isEmpty
  | .char a :: items, b :: w => same a b && matchItems same wild items w
  | .any :: items, b :: w => wild b && matchItems same wild items w
  | .anyMany :: items, w =>
    (List.range (w.length + 1)).any fun k => (w.take k).all wild && matchItems same wild items (w.drop k)
  | _ :: _, [] => false

section Patterns

variable {same : α → α → Bool} {wild : α → Bool} {items : List (Item α)} {w : List α}

theorem mem_patternLanguage_nil : w ∈ patternLanguage same wild [] ↔ w = [] := Language.mem_one w

theorem mem_patternLanguage_cons {item : Item α} : w ∈ patternLanguage same wild (item :: items) ↔
    ∃ u ∈ language same wild item, ∃ v ∈ patternLanguage same wild items, u ++ v = w := by
  rw [patternLanguage, List.map_cons, List.prod_cons, Language.mem_mul]
  rfl

/-- A letter is matched by itself or by a wildcard for one letter. -/
theorem mem_cons_single {item : Item α} {p : α → Bool}
    (h : ∀ u, u ∈ language same wild item ↔ ∃ b, u = [b] ∧ p b) : w ∈ patternLanguage same wild (item :: items) ↔
      ∃ b v, w = b :: v ∧ p b ∧ v ∈ patternLanguage same wild items := by
  rw [mem_patternLanguage_cons]
  constructor
  · rintro ⟨u, hu, v, hv, rfl⟩
    obtain ⟨b, rfl, hb⟩ := (h u).mp hu
    exact ⟨b, v, rfl, hb, hv⟩
  · rintro ⟨b, v, rfl, hb, hv⟩
    exact ⟨[b], (h [b]).mpr ⟨b, rfl, hb⟩, v, hv, rfl⟩

theorem matchItems_iff : matchItems same wild items w = true ↔ w ∈ patternLanguage same wild items := by
  induction items generalizing w with
  | nil => rw [matchItems, List.isEmpty_iff, mem_patternLanguage_nil]
  | cons item items ih =>
    cases item with
    | char a =>
      rw [mem_cons_single fun u => Iff.rfl]
      cases w with
      | nil => exact iff_of_false nofun nofun
      | cons b w => simp [matchItems, ih]
    | any =>
      rw [mem_cons_single fun u => Iff.rfl]
      cases w with
      | nil => exact iff_of_false nofun nofun
      | cons b w => simp [matchItems, ih]
    | anyMany =>
      rw [matchItems, List.any_eq_true, mem_patternLanguage_cons]
      constructor
      · rintro ⟨k, -, hk⟩
        obtain ⟨hwild, hrest⟩ := (Bool.and_eq_true _ _).mp hk
        exact ⟨w.take k, List.all_eq_true.mp hwild, w.drop k, ih.mp hrest, List.take_append_drop k w⟩
      · rintro ⟨u, hu, v, hv, rfl⟩
        refine ⟨u.length, ?_, ?_⟩
        · rw [List.mem_range, List.length_append]
          omega
        · rw [List.take_left, List.drop_left, Bool.and_eq_true]
          exact ⟨List.all_eq_true.mpr hu, ih.mpr hv⟩

/-- More wild letters, more words -/
theorem patternLanguage_mono {wild' : α → Bool} (h : ∀ b, wild b → wild' b)
    (hw : w ∈ patternLanguage same wild items) : w ∈ patternLanguage same wild' items := by
  induction items generalizing w with
  | nil => exact hw
  | cons item items ih =>
    obtain ⟨u, hu, v, hv, rfl⟩ := mem_patternLanguage_cons.mp hw
    refine mem_patternLanguage_cons.mpr ⟨u, ?_, v, ih hv, rfl⟩
    cases item with
    | char a => exact hu
    | any =>
      obtain ⟨b, rfl, hb⟩ := hu
      exact ⟨b, rfl, h b hb⟩
    | anyMany => exact fun b hb => h b (hu b hb)

end Patterns

end Wildcards
