import Mathlib

/-!
# Prefix codes

A prefix code tells where the code of an element ends, whatever follows it. So codes can be strung together,
and what they are made of can be read off again: `IsPrefixCode.flatMap` for lists that are closed by a
terminator, `IsPrefixCode.intercalate` for lists of one length with separators between their elements.
-/

namespace PrefixCode

variable {α β : Type}

/-- What follows the code of an element does not make it the code of another element. -/
def IsPrefixCode (s : Set α) (code : α → List β) : Prop :=
  ∀ a ∈ s, ∀ b ∈ s, ∀ l l', code a ++ l = code b ++ l' → a = b ∧ l = l'

section Constructions

variable {s : Set α} {code : α → List β}

/-- A fixed beginning can be put in front of every code. -/
theorem IsPrefixCode.prepend (h : IsPrefixCode s code) (start : List β) :
    IsPrefixCode s fun a => start ++ code a := by
  intro a ha b hb l l' heq
  rw [List.append_assoc, List.append_assoc] at heq
  exact h a ha b hb l l' (List.append_cancel_left heq)

/-- A fixed beginning and a fixed end can be put around every code. -/
theorem IsPrefixCode.enclose (h : IsPrefixCode s code) (start stop : List β) :
    IsPrefixCode s fun a => start ++ code a ++ stop := by
  intro a ha b hb l l' heq
  rw [List.append_assoc, List.append_assoc (start ++ code b)] at heq
  obtain ⟨hab, hrest⟩ := h.prepend start a ha b hb _ _ heq
  exact ⟨hab, List.append_cancel_left hrest⟩

/-- Texts that are different and do not contain the terminator are told apart when it closes them. -/
theorem isPrefixCode_of_terminator {text : α → List β} {t : β} (hinj : Set.InjOn text s)
    (hnone : ∀ a ∈ s, t ∉ text a) : IsPrefixCode s fun a => text a ++ [t] := by
  have hcut : ∀ {u v l l' : List β}, t ∉ u → t ∉ v → u ++ t :: l = v ++ t :: l' → u = v ∧ l = l' := by
    intro u v l l' hu hv heq
    induction u generalizing v with
    | nil =>
      rcases v with - | ⟨x, v⟩
      · exact ⟨rfl, (List.cons.inj heq).2⟩
      · exact absurd ((List.cons.inj heq).1 ▸ List.mem_cons_self) hv
    | cons x u ih =>
      rcases v with - | ⟨y, v⟩
      · exact absurd ((List.cons.inj heq).1 ▸ List.mem_cons_self) hu
      · obtain ⟨hxy, hrest⟩ := List.cons.inj heq
        obtain ⟨huv, hl⟩ := ih (mt (List.mem_cons_of_mem x) hu) (mt (List.mem_cons_of_mem y) hv) hrest
        exact ⟨by rw [hxy, huv], hl⟩
  intro a ha b hb l l' heq
  rw [List.append_assoc, List.append_assoc] at heq
  obtain ⟨htext, hl⟩ := hcut (hnone a ha) (hnone b hb) heq
  exact ⟨hinj ha hb htext, hl⟩

/-- Lists of elements are told apart when a terminator closes them that no code begins with. -/
theorem IsPrefixCode.flatMap (h : IsPrefixCode s code) {t : β} (hstart : ∀ a ∈ s, ∀ l l', code a ++ l ≠ t :: l') :
    IsPrefixCode {w : List α | ∀ a ∈ w, a ∈ s} fun w => w.flatMap code ++ [t] := by
  intro v hv w hw l l' heq
  rw [List.append_assoc, List.append_assoc] at heq
  induction v generalizing w with
  | nil =>
    rcases w with - | ⟨b, w⟩
    · exact ⟨rfl, (List.cons.inj heq).2⟩
    · rw [List.flatMap_cons, List.append_assoc] at heq
      exact absurd heq.symm (hstart b (hw b List.mem_cons_self) _ _)
  | cons a v ih =>
    rw [List.flatMap_cons, List.append_assoc] at heq
    rcases w with - | ⟨b, w⟩
    · exact absurd heq (hstart a (hv a List.mem_cons_self) _ _)
    · rw [List.flatMap_cons, List.append_assoc] at heq
      obtain ⟨hab, hrest⟩ := h a (hv a List.mem_cons_self) b (hw b List.mem_cons_self) _ _ heq
      obtain ⟨hvw, hl⟩ := ih (fun c hc => hv c (List.mem_cons_of_mem a hc)) w
        (fun c hc => hw c (List.mem_cons_of_mem b hc)) hrest
      exact ⟨by rw [hab, hvw], hl⟩

/-- Lists of one length are told apart when their codes are joined with a separator. -/
theorem IsPrefixCode.intercalate (h : IsPrefixCode s code) (sep : List β) {v w : List α}
    (hv : ∀ a ∈ v, a ∈ s) (hw : ∀ a ∈ w, a ∈ s) (hlength : v.length = w.length)
    (heq : sep.intercalate (v.map code) = sep.intercalate (w.map code)) : v = w := by
  induction v generalizing w with
  | nil => exact (List.length_eq_zero_iff.mp hlength.symm).symm
  | cons a v ih =>
    obtain ⟨b, w, rfl⟩ := List.exists_cons_of_length_eq_add_one hlength.symm
    have hlength : v.length = w.length := Nat.succ.inj hlength
    have ha := hv a List.mem_cons_self
    have hb := hw b List.mem_cons_self
    rcases v with - | ⟨a', v⟩
    · obtain rfl := List.length_eq_zero_iff.mp hlength.symm
      have hcode : code a ++ [] = code b ++ [] := by simpa using heq
      rw [(h a ha b hb _ _ hcode).1]
    · obtain ⟨b', w, rfl⟩ := List.exists_cons_of_length_eq_add_one hlength.symm
      simp only [List.map_cons, List.intercalate_cons_cons, List.append_assoc] at heq
      obtain ⟨hab, hrest⟩ := h a ha b hb _ _ heq
      have htail := ih (fun c hc => hv c (List.mem_cons_of_mem a hc))
        (fun c hc => hw c (List.mem_cons_of_mem b hc)) hlength (List.append_cancel_left hrest)
      rw [hab, htail]

end Constructions

/-! ## Numbers -/

section Digits

variable {b : ℕ}

theorem mem_toDigits (hb : 1 < b) {n : ℕ} {c : Char} (hc : c ∈ Nat.toDigits b n) :
    ∃ k < b, c = k.digitChar := by
  induction n using Nat.strongRecOn with
  | ind n ih =>
    rw [Nat.toDigits_eq_if hb] at hc
    split at hc
    · next hlt => exact ⟨n, hlt, List.mem_singleton.mp hc⟩
    · next hge =>
      rcases List.mem_append.mp hc with hc | hc
      · exact ih (n / b) (Nat.div_lt_self (by omega) hb) hc
      · exact ⟨n % b, Nat.mod_lt n (by omega), List.mem_singleton.mp hc⟩

theorem digitChar_inj {m n : ℕ} (hm : m < 16) (hn : n < 16) (h : m.digitChar = n.digitChar) : m = n := by
  have hall : ∀ m < 16, ∀ n < 16, m.digitChar = n.digitChar → m = n := by decide
  exact hall m hm n hn h

/-- The digits of a number tell it, in any base up to 16. -/
theorem toDigits_injective (hb : 1 < b) (hb' : b ≤ 16) : Function.Injective (Nat.toDigits b) := by
  intro m n h
  induction m using Nat.strongRecOn generalizing n with
  | ind m ih =>
    rw [Nat.toDigits_eq_if hb, Nat.toDigits_eq_if (n := n) hb] at h
    have hne (k : ℕ) : Nat.toDigits b k ≠ [] := Nat.toDigits_ne_nil
    have hmod : m % b < b ∧ n % b < b := ⟨Nat.mod_lt m (by omega), Nat.mod_lt n (by omega)⟩
    split at h <;> split at h
    · exact digitChar_inj (by omega) (by omega) (List.singleton_inj.mp h)
    · have hlength := congrArg List.length h
      have hpos := List.length_pos_iff.mpr (hne (n / b))
      simp only [List.length_append, List.length_singleton] at hlength
      omega
    · have hlength := congrArg List.length h
      have hpos := List.length_pos_iff.mpr (hne (m / b))
      simp only [List.length_append, List.length_singleton] at hlength
      omega
    · obtain ⟨hdiv, hlast⟩ := List.append_inj' h rfl
      have hdigit := digitChar_inj (by omega) (by omega) (List.singleton_inj.mp hlast)
      have hquot := ih (m / b) (Nat.div_lt_self (by omega) hb) hdiv
      rw [← Nat.div_add_mod m b, ← Nat.div_add_mod n b, hquot, hdigit]

end Digits

end PrefixCode
