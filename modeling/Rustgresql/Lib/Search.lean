import Mathlib

/-!
# Searches that finish or fail

Nodes with ordered children, some of them missing. A depth-first search from a node finishes, fails at the first
missing node that it meets, or goes round a cycle for ever. `finishes_iff`: over finitely many nodes it finishes if
and only if no node that is reached is missing or on a cycle.
-/

namespace Search

variable {α : Type} (children : α → Option (List α))

/-- The node and all below are there, and the search comes to the end of them. -/
inductive Finishes : α → Prop
  | node {a : α} {l : List α} : children a = some l → (∀ b ∈ l, Finishes b) → Finishes a

/-- The search meets a missing node, and finishes all children before it. -/
inductive Fails : α → Prop
  | missing {a : α} : children a = none → Fails a
  | child {a b : α} {pre post : List α} : children a = some (pre ++ b :: post) → (∀ c ∈ pre, Finishes children c) →
    Fails b → Fails a

/-- A search from each node of a list in turn fails. -/
def FailsIn (l : List α) : Prop :=
  ∃ pre a post, l = pre ++ a :: post ∧ (∀ b ∈ pre, Finishes children b) ∧ Fails children a

/-- The second node is a child of the first. -/
def HasChild (a b : α) : Prop := ∃ l, children a = some l ∧ b ∈ l

abbrev Reaches : α → α → Prop := Relation.ReflTransGen (HasChild children)

/-- The node is below itself. -/
def OnCycle (a : α) : Prop := Relation.TransGen (HasChild children) a a

variable {children} {a b : α} {l : List α}

theorem Finishes.of_hasChild (h : Finishes children a) (hb : HasChild children a b) : Finishes children b := by
  obtain ⟨hl, hchildren⟩ := h
  obtain ⟨l', hl', hmem⟩ := hb
  obtain rfl := Option.some.inj (hl.symm.trans hl')
  exact hchildren b hmem

theorem Finishes.of_reaches (h : Finishes children a) (hb : Reaches children a b) : Finishes children b := by
  induction hb with
  | refl => exact h
  | tail _ hchild ih => exact ih.of_hasChild hchild

theorem Finishes.ne_none (h : Finishes children a) : children a ≠ none := by
  obtain ⟨hl, -⟩ := h
  rw [hl]
  exact nofun

theorem Finishes.acc (h : Finishes children a) : Acc (fun b a => HasChild children a b) a := by
  induction h with
  | @node a l hl _ ih =>
    refine ⟨a, fun b ⟨l', hl', hmem⟩ => ?_⟩
    obtain rfl := Option.some.inj (hl.symm.trans hl')
    exact ih b hmem

theorem Finishes.not_onCycle (h : Finishes children a) : ¬ OnCycle children a := by
  intro hcycle
  have hacc := h.acc.transGen
  have hswap : Relation.TransGen (fun b a => HasChild children a b) a a := Relation.transGen_swap.mpr hcycle
  induction hacc with
  | intro x _ ih => exact ih x hswap (h.of_reaches hcycle.to_reflTransGen) hcycle hswap

theorem Finishes.not_fails (h : Finishes children a) : ¬ Fails children a := by
  induction h with
  | @node a l hl _ ih =>
    rintro (hnone | ⟨hl', -, hb⟩)
    · rw [hl] at hnone
      cases hnone
    · obtain rfl := Option.some.inj (hl.symm.trans hl')
      exact ih _ (List.mem_append_right _ List.mem_cons_self) hb

theorem failsIn_singleton : FailsIn children [a] ↔ Fails children a := by
  constructor
  · rintro ⟨pre, b, post, hl, -, hfails⟩
    obtain ⟨rfl, hl⟩ | ⟨rest, -, hl⟩ := List.cons_eq_append_iff.mp hl
    · obtain ⟨rfl, -⟩ := List.cons.inj hl
      exact hfails
    · simp at hl
  · exact fun h => ⟨[], a, [], rfl, nofun, h⟩

theorem failsIn_cons : FailsIn children (a :: l) ↔ Fails children a ∨ Finishes children a ∧ FailsIn children l := by
  constructor
  · rintro ⟨pre, b, post, hl, hfinishes, hfails⟩
    obtain ⟨rfl, hl⟩ | ⟨rest, rfl, rfl⟩ := List.cons_eq_append_iff.mp hl
    · obtain ⟨rfl, -⟩ := List.cons.inj hl
      exact .inl hfails
    · obtain ⟨ha, hrest⟩ := List.forall_mem_cons.mp hfinishes
      exact .inr ⟨ha, rest, b, post, rfl, hrest, hfails⟩
  · rintro (hfails | ⟨ha, pre, b, post, rfl, hfinishes, hfails⟩)
    · exact ⟨[], a, l, rfl, nofun, hfails⟩
    · exact ⟨a :: pre, b, post, rfl, List.forall_mem_cons.mpr ⟨ha, hfinishes⟩, hfails⟩

theorem Fails.of_failsIn (hl : children a = some l) (h : FailsIn children l) : Fails children a := by
  obtain ⟨pre, b, post, rfl, hfinishes, hfails⟩ := h
  exact .child hl hfinishes hfails

/-- Over finitely many nodes a search finishes if and only if it reaches no missing node and no cycle. -/
theorem finishes_iff (hfinite : {a | children a ≠ none}.Finite) : Finishes children a ↔
    (∀ b, Reaches children a b → children b ≠ none) ∧ ∀ b, Reaches children a b → ¬ OnCycle children b := by
  constructor
  · exact fun h => ⟨fun b hb => (h.of_reaches hb).ne_none, fun b hb => (h.of_reaches hb).not_onCycle⟩
  · rintro ⟨hpresent, hacyclic⟩
    have hreached : Finite {b // Reaches children a b} := (hfinite.subset fun b hb => hpresent b hb).to_subtype
    let below (b c : {b // Reaches children a b}) : Prop := Relation.TransGen (HasChild children) c.1 b.1
    have htrans : IsTrans _ below := ⟨fun _ _ _ hbc hcd => hcd.trans hbc⟩
    have hirrefl : Std.Irrefl below := ⟨fun b => hacyclic b.1 b.2⟩
    have hwf : WellFounded below := Finite.wellFounded_of_trans_of_irrefl below
    suffices hall : ∀ b : {b // Reaches children a b}, Finishes children b.1 from hall ⟨a, .refl⟩
    intro b
    induction b using hwf.induction with
    | _ b ih =>
      obtain ⟨l, hl⟩ := Option.ne_none_iff_exists'.mp (hpresent b.1 b.2)
      refine .node hl fun c hc => ?_
      have hchild : HasChild children b.1 c := ⟨l, hl, hc⟩
      exact ih ⟨c, b.2.tail hchild⟩ (.single hchild)

/-! ## Relations that are extended at one node -/

section Extension

variable {R R' : α → α → Prop} {v : α} {below : α → Prop}

/-- Without cycles and with finitely many nodes that have something below, what is below is reached after finitely
many steps. -/
theorem wellFounded_of_acyclic (hfinite : {a | ∃ b, R a b}.Finite) (hacyclic : ∀ a, ¬ Relation.TransGen R a a) :
    WellFounded fun b a => R a b := by
  have hnodes : Finite {a // ∃ b, R a b} := hfinite.to_subtype
  let under (b a : {a // ∃ b, R a b}) : Prop := Relation.TransGen R a.1 b.1
  have htrans : IsTrans _ under := ⟨fun _ _ _ hba hcb => hcb.trans hba⟩
  have hirrefl : Std.Irrefl under := ⟨fun a => hacyclic a.1⟩
  have hwf : WellFounded under := Finite.wellFounded_of_trans_of_irrefl under
  have hinner (a : {a // ∃ b, R a b}) : Acc (fun b a => R a b) a.1 := by
    induction a using hwf.induction with
    | _ a ih =>
      refine ⟨a.1, fun b hb => ?_⟩
      by_cases hnode : ∃ c, R b c
      · exact ih ⟨b, hnode⟩ (.single hb)
      · exact ⟨b, fun c hc => absurd ⟨c, hc⟩ hnode⟩
  refine ⟨fun a => ⟨a, fun b hb => ?_⟩⟩
  by_cases hnode : ∃ c, R b c
  · exact hinner ⟨b, hnode⟩
  · exact ⟨b, fun c hc => absurd ⟨c, hc⟩ hnode⟩

variable (hextends : ∀ a b, R' a b ↔ R a b ∨ a = v ∧ below b)

include hextends

theorem reaches_of_extension {a : α} (h : Relation.ReflTransGen R' a v) : Relation.ReflTransGen R a v := by
  induction h using Relation.ReflTransGen.head_induction_on with
  | refl => exact .refl
  | head hab _ ih =>
    rcases (hextends _ _).mp hab with hR | ⟨rfl, -⟩
    · exact .head hR ih
    · exact .refl

/-- A path that is new passes through the node. -/
theorem transGen_of_extension {a b : α} (h : Relation.TransGen R' a b) : Relation.TransGen R a b ∨
    ∃ c, below c ∧ Relation.ReflTransGen R' a v ∧ Relation.ReflTransGen R' c b := by
  induction h with
  | single hab =>
    rcases (hextends _ _).mp hab with hR | ⟨rfl, hbelow⟩
    · exact .inl (.single hR)
    · exact .inr ⟨_, hbelow, .refl, .refl⟩
  | @tail b d hab hbd ih =>
    rcases ih with hR | ⟨c, hc, hav, hcb⟩
    · rcases (hextends _ _).mp hbd with hR' | ⟨rfl, hbelow⟩
      · exact .inl (hR.tail hR')
      · exact .inr ⟨d, hbelow, hab.to_reflTransGen, .refl⟩
    · exact .inr ⟨c, hc, hav, hcb.tail hbd⟩

/-- Where there was no cycle, the new edges close one exactly if one of them leads back to their node. -/
theorem acyclic_extension_iff (hacyclic : ∀ a, ¬ Relation.TransGen R a a) :
    (∀ a, ¬ Relation.TransGen R' a a) ↔ ∀ b, below b → ¬ Relation.ReflTransGen R b v := by
  have hmono : ∀ a b, R a b → R' a b := fun a b h => (hextends a b).mpr (.inl h)
  constructor
  · intro h b hbelow hreaches
    have hfirst : R' v b := (hextends v b).mpr (.inr ⟨rfl, hbelow⟩)
    exact h v (Relation.TransGen.head' hfirst (Relation.ReflTransGen.mono hmono _ _ hreaches))
  · intro h a hcycle
    rcases transGen_of_extension hextends hcycle with hR | ⟨c, hc, hav, hca⟩
    · exact hacyclic a hR
    · exact h c hc (reaches_of_extension hextends (hca.trans hav))

end Extension

end Search
