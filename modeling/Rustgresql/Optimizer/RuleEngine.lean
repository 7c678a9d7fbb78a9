import Rustgresql.Optimizer.ProjectionPushdown

/-!
# The rule engine (`optimizer/rules.rs`)

`RuleEngine::optimize` goes through the rules round by round, until a round changes nothing or the limit is
reached. The test for a change looks at the kind of the root only (`plans_equal`). A rewrite that keeps the kind is
thrown away and does not count as a change. When the loop stops early, then, the plan is a fixpoint of the rules and no
rewrite is lost exactly if no rule on the way rewrites a plan into another one of the same kind (`settles_iff`).
-/

namespace Rustgresql.Optimizer

/-! ## Kinds of plan nodes -/

/-- The variant of a plan node, as `std::mem::discriminant` tells it. -/
inductive PlanKind (K : Type)
  | scan
  | indexScan
  | indexOnlyScan
  | filter
  | project
  | aggregate
  | join
  | other (kind : K)
  deriving DecidableEq

namespace PlanNode

variable {S O K : Type}

def discriminant (otherKind : O → K) : PlanNode S O → PlanKind K
  | scan _ _ _ => .scan
  | indexScan _ _ _ _ => .indexScan
  | indexOnlyScan _ _ _ _ => .indexOnlyScan
  | filter _ _ => .filter
  | project _ _ _ _ _ => .project
  | aggregate _ _ => .aggregate
  | join _ _ _ _ _ _ => .join
  | other node => .other (otherKind node)

end PlanNode

/-! ## The engine -/

/-- Optimization rule trait -/
structure OptimizerRule (S O : Type) where
  apply : PlanNode S O → Result (PlanNode S O)
  isApplicable : PlanNode S O → Bool := fun _ => true

def ProjectionPushdownRule.rule (S O : Type) : OptimizerRule S O where
  apply plan := .ok (ProjectionPushdownRule.apply plan)
  isApplicable
    | .project _ _ _ _ _ => true
    | _ => false

/-- Rule engine for applying optimization rules -/
structure RuleEngine (S O : Type) where
  rules : List (OptimizerRule S O) := []
  iterationLimit : ℕ := 10
  enableIteration : Bool := true

namespace RuleEngine

variable {S O K : Type} [DecidableEq K] (otherKind : O → K)

def addRule (engine : RuleEngine S O) (rule : OptimizerRule S O) : RuleEngine S O :=
  { engine with rules := engine.rules ++ [rule] }

/-- Check if two plans are equal (simplified) -/
def plansEqual (plan1 plan2 : PlanNode S O) : Bool :=
  plan1.discriminant otherKind == plan2.discriminant otherKind

/-- What one rule makes of `current_plan` and `changed` -/
def applyRule (state : PlanNode S O × Bool) (rule : OptimizerRule S O) : Result (PlanNode S O × Bool) :=
  if rule.isApplicable state.1 then do
    let newPlan ← rule.apply state.1
    return if plansEqual otherKind state.1 newPlan then state else (newPlan, true)
  else .ok state

/-- Rounds from `iteration_count` on, with the count at the end -/
def iterate (engine : RuleEngine S O) (currentPlan : PlanNode S O) (iterationCount : ℕ) : Result (PlanNode S O × ℕ) := do
  let (newPlan, changed) ← engine.rules.foldlM (applyRule otherKind) (currentPlan, false)
  if _h : !changed || iterationCount + 1 ≥ engine.iterationLimit then return (newPlan, iterationCount + 1)
  else iterate engine newPlan (iterationCount + 1)
termination_by engine.iterationLimit - iterationCount
decreasing_by
  simp at _h
  omega

/-- Apply all rules to plan (with fixpoint iteration) -/
def optimize (engine : RuleEngine S O) (initialPlan : PlanNode S O) : Result (PlanNode S O) :=
  if engine.enableIteration then do
    let (plan, _) ← iterate otherKind engine initialPlan 0
    return plan
  else
    engine.rules.foldlM
      (fun currentPlan rule => if rule.isApplicable currentPlan then rule.apply currentPlan else .ok currentPlan) initialPlan

/-! ## The run of the loop -/

/-- Where the loop is: the rules of the round that are left, and its variables. -/
structure State (S O : Type) where
  pending : List (OptimizerRule S O)
  currentPlan : PlanNode S O
  changed : Bool
  iterationCount : ℕ

/-- The loop comes to the next rule, or to the next round. -/
inductive Step (engine : RuleEngine S O) : State S O → State S O → Prop
  | rule {rule : OptimizerRule S O} {rest : List (OptimizerRule S O)} {plan newPlan : PlanNode S O}
    {changed changed' : Bool} {count : ℕ} (h : applyRule otherKind (plan, changed) rule = .ok (newPlan, changed')) :
    Step engine ⟨rule :: rest, plan, changed, count⟩ ⟨rest, newPlan, changed', count⟩
  | round {plan : PlanNode S O} {count : ℕ} (h : count + 1 < engine.iterationLimit) :
    Step engine ⟨[], plan, true, count⟩ ⟨engine.rules, plan, false, count + 1⟩

/-- The first round begins. -/
def start (engine : RuleEngine S O) (plan : PlanNode S O) : State S O := ⟨engine.rules, plan, false, 0⟩

/-- The loop comes to a state on its way. -/
abbrev Comes (engine : RuleEngine S O) : State S O → State S O → Prop := Relation.ReflTransGen (Step otherKind engine)

theorem comes_of_foldlM (engine : RuleEngine S O) {rules : List (OptimizerRule S O)} {state state' : PlanNode S O × Bool}
    (count : ℕ) (h : rules.foldlM (applyRule otherKind) state = .ok state') :
    Comes otherKind engine ⟨rules, state.1, state.2, count⟩ ⟨[], state'.1, state'.2, count⟩ := by
  induction rules generalizing state with
  | nil =>
    obtain rfl := Except.ok.inj h
    exact .refl
  | cons rule rest ih =>
    rw [List.foldlM_cons, Result.bind_eq_ok] at h
    obtain ⟨next, hrule, hrest⟩ := h
    exact .head (.rule hrule) (ih hrest)

/-- After a round with a change, the loop goes on below the limit. -/
theorem iterate_of_changed {engine : RuleEngine S O} {plan newPlan : PlanNode S O} {count : ℕ}
    (hround : engine.rules.foldlM (applyRule otherKind) (plan, false) = .ok (newPlan, true))
    (hlimit : count + 1 < engine.iterationLimit) :
    iterate otherKind engine plan count = iterate otherKind engine newPlan (count + 1) := by
  have hgoes : ¬ (!true || decide (count + 1 ≥ engine.iterationLimit)) = true := by simpa using hlimit
  rw [iterate, hround]
  exact dif_neg hgoes

/-- The loop ends after a round without a change, or at the limit. -/
theorem comes_of_iterate {engine : RuleEngine S O} {plan result : PlanNode S O} {count iterationCount : ℕ}
    (h : iterate otherKind engine plan count = .ok (result, iterationCount)) :
    ∃ changed last, iterationCount = last + 1 ∧ (changed = false ∨ engine.iterationLimit ≤ iterationCount) ∧
      Comes otherKind engine ⟨engine.rules, plan, false, count⟩ ⟨[], result, changed, last⟩ := by
  induction plan, count using iterate.induct engine with
  | case1 plan count ih =>
    rw [iterate, Result.bind_eq_ok] at h
    obtain ⟨⟨newPlan, changed⟩, hround, h⟩ := h
    have hcomes := comes_of_foldlM otherKind engine count hround
    dsimp only at h
    split at h
    · next hstop =>
      cases h
      exact ⟨changed, count, rfl, by simpa using hstop, hcomes⟩
    · next hgo =>
      obtain ⟨changed', last, hcount, hend, hrest⟩ := ih newPlan changed hgo h
      obtain ⟨rfl, hlimit⟩ : changed = true ∧ count + 1 < engine.iterationLimit := by simpa using hgo
      exact ⟨changed', last, hcount, hend, hcomes.trans (.head (.round hlimit) hrest)⟩

/-! ## Fixpoints -/

/-- A rule does not touch a plan. -/
def Leaves (rule : OptimizerRule S O) (plan : PlanNode S O) : Prop :=
  rule.isApplicable plan → rule.apply plan = .ok plan

/-- The rule that is next rewrites the plan. -/
def State.Rewrites (state : State S O) (newPlan : PlanNode S O) : Prop :=
  ∃ rule rest, state.pending = rule :: rest ∧ rule.isApplicable state.currentPlan ∧
    rule.apply state.currentPlan = .ok newPlan

/-- The loop on a plan has come to a fixpoint of the rules, and from every rewrite on its way it went on. -/
structure Settles (engine : RuleEngine S O) (initialPlan result : PlanNode S O) : Prop where
  fixpoint : ∀ rule ∈ engine.rules, Leaves rule result
  kept : ∀ state next newPlan, Comes otherKind engine (engine.start initialPlan) state → state.Rewrites newPlan →
    Step otherKind engine state next → next.currentPlan = newPlan

/-- The rule that is next rewrites the plan to another one of the same kind. -/
def State.Disguises (state : State S O) : Prop :=
  ∃ newPlan, state.Rewrites newPlan ∧ newPlan ≠ state.currentPlan ∧
    newPlan.discriminant otherKind = state.currentPlan.discriminant otherKind

variable {otherKind}

theorem applyRule_of_rewrites {rule : OptimizerRule S O} {plan newPlan : PlanNode S O} {changed : Bool}
    (happlicable : rule.isApplicable plan) (h : rule.apply plan = .ok newPlan) :
    applyRule otherKind (plan, changed) rule =
      .ok (if plansEqual otherKind plan newPlan then (plan, changed) else (newPlan, true)) := by
  rw [applyRule, if_pos happlicable, h]
  rfl

/-- A rewrite that is not disguised is kept. -/
theorem currentPlan_of_step {engine : RuleEngine S O} {state next : State S O} {newPlan : PlanNode S O}
    (hdisguise : ¬ state.Disguises otherKind) (hrewrite : state.Rewrites newPlan) (hstep : Step otherKind engine state next) :
    next.currentPlan = newPlan := by
  have hkind : newPlan = state.currentPlan ∨ ¬ plansEqual otherKind state.currentPlan newPlan := by
    by_contra h
    rw [not_or, not_not, plansEqual, beq_iff_eq] at h
    exact hdisguise ⟨newPlan, hrewrite, h.1, h.2.symm⟩
  obtain ⟨rule, rest, hpending, happlicable, hrule⟩ := hrewrite
  cases hstep with
  | round => cases hpending
  | rule hnext =>
    cases hpending
    rw [applyRule_of_rewrites happlicable hrule] at hnext
    rcases hkind with rfl | hkind
    · rw [if_pos (by simp [plansEqual])] at hnext
      cases hnext
      rfl
    · rw [if_neg hkind] at hnext
      cases hnext
      rfl

/-- A rule that is said to change nothing leaves the plan as it is, or its rewrite is disguised. -/
theorem leaves_of_applyRule {rule : OptimizerRule S O} {plan newPlan : PlanNode S O} {changed : Bool}
    (h : applyRule otherKind (plan, changed) rule = .ok (newPlan, false)) (rest : List (OptimizerRule S O)) (count : ℕ)
    (hdisguise : ¬ State.Disguises otherKind ⟨rule :: rest, plan, changed, count⟩) :
    newPlan = plan ∧ changed = false ∧ Leaves rule plan := by
  by_cases happlicable : rule.isApplicable plan
  · rw [applyRule, if_pos happlicable, Result.bind_eq_ok] at h
    obtain ⟨rewritten, hrule, h⟩ := h
    replace h := Except.ok.inj h
    split at h
    · next hkind =>
      rw [plansEqual, beq_iff_eq] at hkind
      cases h
      refine ⟨rfl, rfl, fun _ => ?_⟩
      by_contra hne
      rw [hrule] at hne
      exact hdisguise ⟨rewritten, ⟨rule, rest, rfl, happlicable, hrule⟩, fun heq => hne (congrArg _ heq), hkind.symm⟩
    · cases h
  · rw [applyRule, if_neg happlicable] at h
    cases h
    exact ⟨rfl, rfl, fun h => absurd h happlicable⟩

/-- As long as a round has changed nothing, the rules that it has gone through leave the plan as it is. -/
theorem leaves_of_comes {engine : RuleEngine S O} {initialPlan : PlanNode S O} {state : State S O}
    (hcomes : Comes otherKind engine (engine.start initialPlan) state)
    (hdisguise : ∀ state, Comes otherKind engine (engine.start initialPlan) state → ¬ state.Disguises otherKind)
    (hchanged : state.changed = false) : ∀ rule ∈ engine.rules, rule ∈ state.pending ∨ Leaves rule state.currentPlan := by
  induction hcomes with
  | refl => exact fun rule hrule => .inl hrule
  | @tail state next hbefore hstep ih =>
    cases hstep with
    | round => exact fun rule hrule => .inl hrule
    | @rule rule rest plan newPlan changed changed' count happly =>
      obtain rfl : changed' = false := hchanged
      obtain ⟨rfl, rfl, hleaves⟩ := leaves_of_applyRule happly rest count (hdisguise _ hbefore)
      intro rule' hrule'
      rcases ih rfl rule' hrule' with hpending | hdone
      · rcases List.mem_cons.mp hpending with rfl | hrest
        · exact .inr hleaves
        · exact .inl hrest
      · exact .inr hdone

/-- When the loop of `optimize` stops before its limit, the returned plan is a fixpoint of all rules and no rewrite has
been lost, if and only if no rule on the way rewrites a plan to another one of the same kind. -/
theorem settles_iff {engine : RuleEngine S O} (hiteration : engine.enableIteration) {initialPlan result : PlanNode S O}
    {iterationCount : ℕ} (hresult : iterate otherKind engine initialPlan 0 = .ok (result, iterationCount))
    (hlimit : iterationCount < engine.iterationLimit) :
    optimize otherKind engine initialPlan = .ok result ∧
      (Settles otherKind engine initialPlan result ↔
        ∀ state, Comes otherKind engine (engine.start initialPlan) state → ¬ state.Disguises otherKind) := by
  refine ⟨by rw [optimize, if_pos hiteration, hresult]; rfl, ?_, ?_⟩
  · rintro ⟨-, hkept⟩ ⟨pending, plan, changed, count⟩ hcomes ⟨newPlan, hrewrite, hne, hkind⟩
    obtain ⟨rule, rest, rfl, happlicable, hrule⟩ := id hrewrite
    have hdiscarded : applyRule otherKind (plan, changed) rule = .ok (plan, changed) := by
      rw [applyRule_of_rewrites happlicable hrule, if_pos]
      rw [plansEqual, beq_iff_eq]
      exact hkind.symm
    exact hne (hkept _ _ newPlan hcomes hrewrite (.rule hdiscarded)).symm
  · intro hdisguise
    obtain ⟨changed, last, -, hend, hcomes⟩ := comes_of_iterate otherKind hresult
    obtain rfl := hend.resolve_right (Nat.not_le.mpr hlimit)
    refine ⟨fun rule hrule => ?_, fun state next newPlan hstate hrewrite hstep => ?_⟩
    · exact (leaves_of_comes hcomes hdisguise rfl rule hrule).resolve_left List.not_mem_nil
    · exact currentPlan_of_step (hdisguise state hstate) hrewrite hstep

/-- The rule engine with projection pushdown -/
def pushdownEngine : RuleEngine Unit Unit := RuleEngine.addRule {} (ProjectionPushdownRule.rule Unit Unit)

/-- A round of the one rule -/
theorem pushdownEngine_round {input : PlanNode Unit Unit} {columns : List (String × Expression Unit)}
    {newPlan : PlanNode Unit Unit} (h : ProjectionPushdownRule.apply (.project input columns ∅ none none) = newPlan) :
    pushdownEngine.rules.foldlM (applyRule id) (.project input columns ∅ none none, false) =
      .ok (if plansEqual id (.project input columns ∅ none none) newPlan then (.project input columns ∅ none none, false)
        else (newPlan, true)) := by
  have hrule : applyRule id (.project input columns ∅ none none, false) (ProjectionPushdownRule.rule Unit Unit) = _ :=
    applyRule_of_rewrites rfl (congrArg Except.ok h)
  have hrules : pushdownEngine.rules = [ProjectionPushdownRule.rule Unit Unit] := rfl
  rw [hrules, List.foldlM_cons, hrule]
  rfl

/-- The projection of `SELECT a FROM t` is dropped, and the second round changes nothing. -/
theorem settles_scan :
    let project : PlanNode Unit Unit := .project (.scan "t" [] none) [("a", .column none "a")] ∅ none none
    optimize id pushdownEngine project = .ok (.scan "t" ["a"] none) ∧
      (Settles id pushdownEngine project (.scan "t" ["a"] none) ↔
        ∀ state, Comes id pushdownEngine (pushdownEngine.start project) state → ¬ state.Disguises id) := by
  intro project
  have hfirst : pushdownEngine.rules.foldlM (applyRule id) (project, false) = .ok (.scan "t" ["a"] none, true) :=
    pushdownEngine_round (ProjectionPushdownRule.apply_project ..)
  have hsecond : iterate id pushdownEngine (.scan "t" ["a"] none) 1 = .ok (.scan "t" ["a"] none, 2) := by
    rw [iterate]
    rfl
  have hresult : iterate id pushdownEngine project 0 = .ok (.scan "t" ["a"] none, 2) :=
    (iterate_of_changed id hfirst (by decide)).trans hsecond
  exact settles_iff rfl hresult (by decide)

/-- A projection over the projection of `SELECT a FROM t` -/
def twoProjections : PlanNode Unit Unit :=
  .project (.project (.scan "t" [] none) [("a", .column none "a")] ∅ none none) [("a", .column none "a")] ∅ none none

/-- The rule drops the inner one of two projections. The engine takes the plan for unchanged, and returns the old one
after one round. -/
theorem rewrite_discarded :
    iterate id pushdownEngine twoProjections 0 = .ok (twoProjections, 1) ∧ 1 < pushdownEngine.iterationLimit ∧
      ¬ Settles id pushdownEngine twoProjections twoProjections := by
  have happly : ProjectionPushdownRule.apply twoProjections =
      .project (.scan "t" ["a"] none) [("a", .column none "a")] ∅ none none := by
    rw [twoProjections, ProjectionPushdownRule.apply_project]
    refine congrArg (PlanNode.project · [("a", .column none "a")] ∅ none none) ?_
    exact ProjectionPushdownRule.apply_project ..
  refine ⟨?_, by decide, ?_⟩
  · rw [iterate, twoProjections, pushdownEngine_round happly]
    rfl
  · rintro ⟨hfixpoint, -⟩
    have hleaves := hfixpoint (ProjectionPushdownRule.rule Unit Unit) List.mem_cons_self rfl
    have hinner : PlanNode.project _ _ _ _ _ = PlanNode.project _ _ _ _ _ := happly.symm.trans (Except.ok.inj hleaves)
    cases hinner

end RuleEngine

end Rustgresql.Optimizer
