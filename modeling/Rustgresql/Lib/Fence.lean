import Mathlib

/-!
# Members between fences

The children of a search tree node lie between its separators: one before the first, one between any
two, one behind the last. `Fenced P lo bs cs hi` says that the members `cs` lie between the fences `bs`,
with `lo` and `hi` on the outside, and that `P a c b` holds of every member `c` between the fences `a` and
`b`. Fences are cut at one of them, joined at a new one, and changed around one member.
-/

namespace Fence

variable {α β : Type}

/-- The members lie between the fences. -/
inductive Fenced (P : β → α → β → Prop) : β → List β → List α → β → Prop
  | last {lo hi : β} {c : α} : P lo c hi → Fenced P lo [] [c] hi
  | cons {lo b hi : β} {c : α} {bs : List β} {cs : List α} :
    P lo c b → Fenced P b bs cs hi → Fenced P lo (b :: bs) (c :: cs) hi

variable {P Q : β → α → β → Prop} {lo b hi : β} {bs bs₁ bs₂ : List β} {cs cs₁ cs₂ : List α}

/-- There is one more member than there are fences. -/
theorem Fenced.length (h : Fenced P lo bs cs hi) : cs.length = bs.length + 1 := by
  induction h with
  | last _ => rfl
  | cons _ _ ih => rw [List.length_cons, List.length_cons, ih]

theorem Fenced.imp (h : Fenced P lo bs cs hi) (himp : ∀ a c b, c ∈ cs → P a c b → Q a c b) :
    Fenced Q lo bs cs hi := by
  induction h with
  | last hc => exact .last (himp _ _ _ List.mem_cons_self hc)
  | cons hc _ ih =>
    refine .cons (himp _ _ _ List.mem_cons_self hc) (ih fun a c b hmem => ?_)
    exact himp a c b (List.mem_cons_of_mem _ hmem)

/-- Members on both sides of a fence. -/
theorem Fenced.join (h₁ : Fenced P lo bs₁ cs₁ b) (h₂ : Fenced P b bs₂ cs₂ hi) :
    Fenced P lo (bs₁ ++ b :: bs₂) (cs₁ ++ cs₂) hi := by
  induction h₁ with
  | last hc => exact .cons hc h₂
  | cons hc _ ih => exact .cons hc (ih h₂)

/-- The members on both sides of one of the fences. -/
theorem Fenced.cut (h : Fenced P lo (bs₁ ++ b :: bs₂) cs hi) : ∃ cs₁ cs₂, cs = cs₁ ++ cs₂ ∧
    Fenced P lo bs₁ cs₁ b ∧ Fenced P b bs₂ cs₂ hi := by
  induction bs₁ generalizing lo cs with
  | nil =>
    cases h with
    | cons hc h => exact ⟨_, _, rfl, .last hc, h⟩
  | cons b' bs₁ ih =>
    cases h with
    | cons hc h =>
      obtain ⟨cs₁, cs₂, rfl, h₁, h₂⟩ := ih h
      exact ⟨_, cs₂, rfl, .cons hc h₁, h₂⟩

/-- The last of the fences, or the one outside. -/
def lastFence (lo : β) (bs : List β) : β := bs.getLast?.getD lo

/-- The first of the fences, or the one outside. -/
def firstFence (hi : β) (bs : List β) : β := bs.head?.getD hi

theorem lastFence_cons (lo b : β) (bs : List β) : lastFence lo (b :: bs) = lastFence b bs := by
  unfold lastFence
  cases bs with
  | nil => rfl
  | cons b' bs => simp [List.getLast?_cons]

/-- The last fence is the one outside or one of the fences. -/
theorem lastFence_eq_or_mem (lo : β) (bs : List β) : lastFence lo bs = lo ∨ lastFence lo bs ∈ bs := by
  unfold lastFence
  rcases h : bs.getLast? with - | b
  · exact .inl rfl
  · exact .inr (List.mem_of_getLast? h)

theorem firstFence_eq_or_head (hi : β) (bs : List β) :
    firstFence hi bs = hi ∨ bs.head? = some (firstFence hi bs) := by
  cases bs with
  | nil => exact .inl rfl
  | cons b bs => exact .inr rfl

/-- The member behind some of the fences, with the members before and after it. -/
theorem Fenced.focus (h : Fenced P lo (bs₁ ++ bs₂) cs hi) : ∃ cs₁ c cs₂, cs = cs₁ ++ c :: cs₂ ∧
    cs₁.length = bs₁.length ∧ P (lastFence lo bs₁) c (firstFence hi bs₂) ∧
      ∀ Q bs' cs', (∀ a d b, d ∈ cs₁ ∨ d ∈ cs₂ → P a d b → Q a d b) →
        Fenced Q (lastFence lo bs₁) bs' cs' (firstFence hi bs₂) →
          Fenced Q lo (bs₁ ++ bs' ++ bs₂) (cs₁ ++ cs' ++ cs₂) hi := by
  induction bs₁ generalizing lo cs with
  | nil =>
    cases h with
    | last hc =>
      refine ⟨[], _, [], rfl, rfl, hc, fun Q bs' cs' _ hgap => ?_⟩
      rw [List.append_nil, List.append_nil]
      exact hgap
    | cons hc h =>
      refine ⟨[], _, _, rfl, rfl, hc, fun Q bs' cs' himp hgap => ?_⟩
      exact Fenced.join hgap (h.imp fun a d b hd => himp a d b (.inr hd))
  | cons b bs₁ ih =>
    cases h with
    | cons hc h =>
      obtain ⟨cs₁, c, cs₂, rfl, hlength, hP, hgap⟩ := ih h
      rw [lastFence_cons]
      refine ⟨_ :: cs₁, c, cs₂, rfl, by rw [List.length_cons, List.length_cons, hlength], hP, ?_⟩
      intro Q bs' cs' himp hQ
      refine .cons (himp _ _ _ (.inl List.mem_cons_self) hc) (hgap Q bs' cs' ?_ hQ)
      exact fun a d b hd => himp a d b (hd.imp_left (List.mem_cons_of_mem _))

section Order

variable [Preorder β]

/-- The fences outside may be moved away. -/
theorem Fenced.widen {lo' hi' : β} (h : Fenced P lo bs cs hi)
    (hmono : ∀ {a c b a' b'}, P a c b → a' ≤ a → b ≤ b' → P a' c b') (hlo : lo' ≤ lo) (hhi : hi ≤ hi') :
    Fenced P lo' bs cs hi' := by
  induction h generalizing lo' with
  | last hP => exact .last (hmono hP hlo hhi)
  | cons hP _ ih => exact .cons (hmono hP hlo le_rfl) (ih le_rfl hhi)

theorem Fenced.lt (h : Fenced P lo bs cs hi) (hlt : ∀ a c b, P a c b → a < b) : lo < hi := by
  induction h with
  | last hP => exact hlt _ _ _ hP
  | cons hP _ ih => exact (hlt _ _ _ hP).trans ih

/-- The fences are in order. -/
theorem Fenced.sorted (h : Fenced P lo bs cs hi) (hlt : ∀ a c b, P a c b → a < b) :
    bs.Pairwise (· < ·) ∧ ∀ b ∈ bs, lo < b ∧ b < hi := by
  induction h with
  | last _ => exact ⟨List.Pairwise.nil, fun b hb => absurd hb List.not_mem_nil⟩
  | cons hP h ih =>
    obtain ⟨hsorted, hbetween⟩ := ih
    have hlo := hlt _ _ _ hP
    refine ⟨List.pairwise_cons.mpr ⟨fun b hb => (hbetween b hb).1, hsorted⟩, fun b hb => ?_⟩
    rcases List.mem_cons.mp hb with rfl | hb
    · exact ⟨hlo, h.lt hlt⟩
    · exact ⟨hlo.trans (hbetween b hb).1, (hbetween b hb).2⟩

/-- Every member lies between fences within those outside. -/
theorem Fenced.exists_of_mem (h : Fenced P lo bs cs hi) (hlt : ∀ a c b, P a c b → a < b) {c : α}
    (hc : c ∈ cs) : ∃ a b, P a c b ∧ lo ≤ a ∧ b ≤ hi := by
  induction h with
  | last hP =>
    obtain rfl := List.mem_singleton.mp hc
    exact ⟨_, _, hP, le_rfl, le_rfl⟩
  | cons hP h ih =>
    rcases List.mem_cons.mp hc with rfl | hc
    · exact ⟨_, _, hP, le_rfl, (h.lt hlt).le⟩
    · obtain ⟨a, b, hab, hlo, hhi⟩ := ih hc
      exact ⟨a, b, hab, (hlt _ _ _ hP).le.trans hlo, hhi⟩

/-- A member that lies between two fences only is there once. -/
theorem Fenced.nodup (h : Fenced P lo bs cs hi) (hlt : ∀ a c b, P a c b → a < b)
    (hfun : ∀ a c b a' b', P a c b → P a' c b' → a = a') : cs.Nodup := by
  induction h with
  | last _ => exact List.nodup_singleton _
  | cons hP h ih =>
    refine List.nodup_cons.mpr ⟨fun hc => ?_, ih⟩
    obtain ⟨a, b, hab, hle, -⟩ := h.exists_of_mem hlt hc
    have heq := hfun _ _ _ _ _ hP hab
    exact absurd (heq ▸ hlt _ _ _ hP) (not_lt_of_ge hle)

end Order

end Fence
