import Rustgresql.Optimizer.Plan

/-!
# Join ordering (`optimizer/rules.rs`)

`ParallelJoinOrderingRule` exchanges the inputs of a join when the cost model finds the other order much cheaper. The
type of the join and its condition stay, and the order of the columns is not restored. All joins lose their aliases.
`joinOrdering_iff`: the bag of rows stays the same if every join returns the same without its aliases, and one whose
inputs are exchanged does so for the exchanged inputs.
-/

namespace Rustgresql

open Sql (JoinType)

open Optimizer (SameBag)

namespace JoinOperator

variable {S : Type} {ops : ExpressionEvaluator.Operations S} {op : JoinOperator S} {left right left' right' : QueryResult}

/-- The join tests rows until one matches. -/
def stopsAtMatch : JoinType → Bool
  | .leftSemi | .rightSemi | .leftAnti | .rightAnti => true
  | _ => false

/-- A join that compares all pairs of rows returns only if the condition can be evaluated on all of them. -/
theorem evaluates_of_execute (htype : stopsAtMatch op.joinType = false) {result : QueryResult}
    (h : op.execute ops (.ok left) (.ok right) = .ok result) : op.ConditionEvaluates ops left right := by
  have houter (hrun : ∃ p, op.executeOuterJoins ops left right = .ok p) : op.ConditionEvaluates ops left right := by
    obtain ⟨p, hp⟩ := hrun
    obtain ⟨m, hm, -⟩ := Result.bind_eq_ok.mp hp
    exact evaluates_of_matchRows hm
  rw [execute_ok] at h
  obtain ⟨p, hrun, -⟩ := Result.bind_eq_ok.mp h
  refine houter ⟨p, ?_⟩
  rw [← hrun, executeByType]
  rcases hjoinType : op.joinType
  case leftSemi | rightSemi | leftAnti | rightAnti =>
    rw [hjoinType] at htype
    cases htype
  all_goals rfl

/-- What the condition makes of pairs does not depend on the order of the rows. -/
theorem ConditionEvaluates.perm (h : op.ConditionEvaluates ops left right)
    (hleft : SameBag (.ok left') (.ok left)) (hright : SameBag (.ok right') (.ok right)) :
    op.ConditionEvaluates ops left' right' := by
  intro leftRow hleftRow rightRow hrightRow
  rw [hleft.1, hright.1]
  exact h leftRow (hleft.2.mem_iff.mp hleftRow) rightRow (hright.2.mem_iff.mp hrightRow)

/-- Joins of the same bags that both return, return the same bag. -/
theorem sameBag_of_ok (hleft : SameBag (.ok left') (.ok left)) (hright : SameBag (.ok right') (.ok right))
    {result result' : QueryResult} (h' : op.execute ops (.ok left') (.ok right') = .ok result')
    (h : op.execute ops (.ok left) (.ok right) = .ok result) : SameBag (.ok result') (.ok result) := by
  obtain ⟨hrows', hnames'⟩ := of_execute h'
  obtain ⟨hrows, hnames⟩ := of_execute h
  have hmatches : op.pairMatches ops left' right' = op.pairMatches ops left right := by
    unfold pairMatches
    rw [hleft.1, hright.1]
  refine ⟨?_, Multiset.coe_eq_coe.mp ?_⟩
  · rw [hnames', hnames, hleft.1, hright.1]
  · rw [hrows', hrows, hmatches, hleft.1, hright.1, Multiset.coe_eq_coe.mpr hleft.2, Multiset.coe_eq_coe.mpr hright.2]

/-- A join that compares all pairs of rows does not depend on their order. -/
theorem sameBag_execute (htype : stopsAtMatch op.joinType = false) {left right left' right' : Result QueryResult}
    (hleft : SameBag left' left) (hright : SameBag right' right) :
    SameBag (op.execute ops left' right') (op.execute ops left right) := by
  rcases left with e | left <;> rcases left' with e' | left'
  · trivial
  · exact hleft.elim
  · exact hleft.elim
  rcases right with e | right <;> rcases right' with e' | right'
  · trivial
  · exact hright.elim
  · exact hright.elim
  have hreturns {left right left' right' : QueryResult} (hleft : SameBag (.ok left') (.ok left))
      (hright : SameBag (.ok right') (.ok right)) {result : QueryResult}
      (h : op.execute ops (.ok left) (.ok right) = .ok result) :
      ∃ result', op.execute ops (.ok left') (.ok right') = .ok result' :=
    exists_execute ((evaluates_of_execute htype h).perm hleft hright)
  rcases h : op.execute ops (.ok left) (.ok right) with e | result
  · rcases h' : op.execute ops (.ok left') (.ok right') with e' | result'
    · trivial
    · obtain ⟨result, hresult⟩ := hreturns hleft.symm hright.symm h'
      cases h.symm.trans hresult
  · obtain ⟨result', h'⟩ := hreturns hleft hright h
    rw [h']
    exact sameBag_of_ok hleft hright h' h

end JoinOperator

namespace Optimizer

variable {S O : Type}

/-- The rule, with what the cost model decides of the estimated numbers of rows: whether the join is to be turned round -/
structure ParallelJoinOrderingRule where
  swappedCheaper : ℕ → ℕ → Bool

namespace ParallelJoinOrderingRule

/-! ## The rule -/

/-- `estimated_rows` -/
def estimatedRows : PlanNode S O → ℕ
  | .scan "users" _ _ => 50000
  | .scan "orders" _ _ => 250000
  | .scan "products" _ _ => 10000
  | _ => 1000

/-- If swapped order is significantly cheaper, swap the join -/
def optimizeJoinOrder (rule : ParallelJoinOrderingRule) (left right : PlanNode S O) (condition : Option (Expression S))
    (joinType : JoinType) : Option (PlanNode S O) :=
  if rule.swappedCheaper (estimatedRows left) (estimatedRows right) then
    some (.join right left condition joinType none none)
  else none

def apply (rule : ParallelJoinOrderingRule) : PlanNode S O → PlanNode S O
  | .join left right condition joinType _ _ =>
    match rule.optimizeJoinOrder left right condition joinType with
    | some optimizedJoin => optimizedJoin
    | none => .join (apply rule left) (apply rule right) condition joinType none none
  | .filter input condition => .filter (apply rule input) condition
  | plan => plan

/-- The inputs of a join are exchanged. -/
def swaps (rule : ParallelJoinOrderingRule) (left right : PlanNode S O) : Bool :=
  rule.swappedCheaper (estimatedRows left) (estimatedRows right)

theorem apply_join (rule : ParallelJoinOrderingRule) (left right : PlanNode S O) (condition : Option (Expression S))
    (joinType : JoinType) (leftAlias rightAlias : Option String) :
    rule.apply (.join left right condition joinType leftAlias rightAlias) =
      if rule.swaps left right then .join right left condition joinType none none
      else .join (rule.apply left) (rule.apply right) condition joinType none none := by
  rw [apply, optimizeJoinOrder, swaps]
  split_ifs <;> rfl

/-- There is a join below the filters. -/
def hasJoin : PlanNode S O → Bool
  | .join _ _ _ _ _ _ => true
  | .filter input _ => hasJoin input
  | _ => false

theorem apply_of_not_hasJoin {rule : ParallelJoinOrderingRule} {plan : PlanNode S O} (h : hasJoin plan = false) :
    rule.apply plan = plan := by
  induction plan with
  | filter input condition ih => rw [apply, ih h]
  | join => cases h
  | _ => rfl

/-- Joins have no alias. -/
theorem extractTableAlias_apply (rule : ParallelJoinOrderingRule) (otherAlias : O → Option String) (plan : PlanNode S O) :
    (rule.apply plan).extractTableAlias otherAlias = plan.extractTableAlias otherAlias := by
  induction plan with
  | filter input condition ih => exact ih
  | join left right condition joinType leftAlias rightAlias =>
    rw [apply_join]
    split <;> rfl
  | _ => rfl

/-! ## The results -/

/-- The rule comes from a node to one of its inputs. -/
inductive Step (rule : ParallelJoinOrderingRule) : PlanNode S O → PlanNode S O → Prop
  | filter (input : PlanNode S O) (condition : Expression S) : Step rule (.filter input condition) input
  | left (left right : PlanNode S O) (condition : Option (Expression S)) (joinType : JoinType)
    (leftAlias rightAlias : Option String) (h : rule.swaps left right = false) :
    Step rule (.join left right condition joinType leftAlias rightAlias) left
  | right (left right : PlanNode S O) (condition : Option (Expression S)) (joinType : JoinType)
    (leftAlias rightAlias : Option String) (h : rule.swaps left right = false) :
    Step rule (.join left right condition joinType leftAlias rightAlias) right

/-- The rule comes to a node of the plan. -/
abbrev Visits (rule : ParallelJoinOrderingRule) : PlanNode S O → PlanNode S O → Prop := Relation.ReflTransGen (Step rule)

theorem sameBag_filter {context : ExecutionContext} {ops : ExpressionEvaluator.Operations S} {condition : Expression S}
    {result result' : Result QueryResult} (h : SameBag result' result) :
    SameBag (FilterOperator.execute ops context condition result') (FilterOperator.execute ops context condition result) := by
  rcases result with e | result <;> rcases result' with e' | result'
  · trivial
  · exact h.elim
  · exact h.elim
  · obtain ⟨rows, columnNames⟩ := result
    obtain ⟨rows', columnNames'⟩ := result'
    obtain ⟨rfl, hrows⟩ := h
    exact ⟨rfl, hrows.filter _⟩

/-- A result of an input in an order in which it may come: below a join the order can change. -/
def Reordered (input : PlanNode S O) (result' result : Result QueryResult) : Prop :=
  if hasJoin input then SameBag result' result else result' = result

theorem Reordered.sameBag {input : PlanNode S O} {result' result : Result QueryResult} (h : Reordered input result' result) :
    SameBag result' result := by
  unfold Reordered at h
  split_ifs at h
  · exact h
  · rw [h]
    exact SameBag.refl _

section Results

variable [DebugText] [FloatArithmetic] (x : Execution S O) (rule : ParallelJoinOrderingRule)

/-- The plan that the rule makes returns the same columns and the same bag of rows. -/
def SameResults (plan : PlanNode S O) : Prop :=
  ∀ contents : Contents x, SameBag (x.execute contents (rule.apply plan)) (x.execute contents plan)

/-- A join returns the same without its aliases, and for exchanged inputs if they are exchanged, in whatever order the
rows of the inputs come. -/
def IsSafe : PlanNode S O → Prop
  | .join left right condition joinType leftAlias rightAlias =>
    let join : JoinOperator S := ⟨condition, joinType, leftAlias, rightAlias⟩
    let bareJoin : JoinOperator S := ⟨condition, joinType, none, none⟩
    ∀ contents : Contents x,
      if rule.swaps left right then
        SameBag (bareJoin.execute x.ops (x.execute contents right) (x.execute contents left))
          (join.execute x.ops (x.execute contents left) (x.execute contents right))
      else
        ∀ left' right', Reordered left left' (x.execute contents left) → Reordered right right' (x.execute contents right) →
          SameBag (bareJoin.execute x.ops left' right')
            (join.execute x.ops (x.execute contents left) (x.execute contents right))
  | _ => True

/-- No semi-join or anti-join has a join below. -/
def SemiJoinsFlat (plan : PlanNode S O) : Prop :=
  ∀ left right condition joinType leftAlias rightAlias,
    Visits rule plan (.join left right condition joinType leftAlias rightAlias) → JoinOperator.stopsAtMatch joinType →
      hasJoin left = false ∧ hasJoin right = false

variable {x rule}

theorem reordered_apply {input : PlanNode S O} (h : SameResults x rule input) (contents : Contents x) :
    Reordered input (x.execute contents (rule.apply input)) (x.execute contents input) := by
  unfold Reordered
  split_ifs with hjoin
  · exact h contents
  · rw [apply_of_not_hasJoin (Bool.eq_false_of_not_eq_true hjoin)]

/-- If the bags of the inputs stay the same, those of safe nodes do. -/
theorem sameResults_of_node {plan : PlanNode S O} (h : ∀ input, Step rule plan input → SameResults x rule input)
    (hsafe : IsSafe x rule plan) : SameResults x rule plan := by
  intro contents
  cases plan with
  | filter input condition =>
    rw [apply, Execution.execute, Execution.execute, extractTableAlias_apply]
    exact sameBag_filter (h input (.filter input condition) contents)
  | join left right condition joinType leftAlias rightAlias =>
    have hjoin := hsafe contents
    rw [apply_join]
    split_ifs at hjoin ⊢ with hswaps
    · rw [Execution.execute, Execution.execute]
      exact hjoin
    · have hkept := Bool.eq_false_of_not_eq_true hswaps
      have hleft := h left (.left left right condition joinType leftAlias rightAlias hkept)
      have hright := h right (.right left right condition joinType leftAlias rightAlias hkept)
      rw [Execution.execute, Execution.execute]
      exact hjoin _ _ (reordered_apply hleft contents) (reordered_apply hright contents)
  | scan | indexScan | indexOnlyScan | project | aggregate | other => exact SameBag.refl _

/-- If the bags of the inputs and of a node stay the same, the node is safe, except that a semi-join over a join may
fail for some orders of its rows and not for others. -/
theorem isSafe_of_node {plan : PlanNode S O} (hflat : SemiJoinsFlat rule plan)
    (h : ∀ input, Step rule plan input → SameResults x rule input) (hsame : SameResults x rule plan) :
    IsSafe x rule plan := by
  cases plan with
  | join left right condition joinType leftAlias rightAlias =>
    intro contents
    have hjoin := hsame contents
    rw [apply_join] at hjoin
    split_ifs at hjoin ⊢ with hswaps
    · rwa [Execution.execute, Execution.execute] at hjoin
    · have hkept := Bool.eq_false_of_not_eq_true hswaps
      have hleft := reordered_apply (h left (.left left right condition joinType leftAlias rightAlias hkept)) contents
      have hright := reordered_apply (h right (.right left right condition joinType leftAlias rightAlias hkept)) contents
      rw [Execution.execute, Execution.execute] at hjoin
      intro left' right' hleft' hright'
      rcases htype : JoinOperator.stopsAtMatch joinType
      · let op : JoinOperator S := ⟨condition, joinType, none, none⟩
        have hbare : SameBag (op.execute x.ops _ _) (op.execute x.ops _ _) := JoinOperator.sameBag_execute htype
          (hleft'.sameBag.trans hleft.sameBag.symm) (hright'.sameBag.trans hright.sameBag.symm)
        exact hbare.trans hjoin
      · obtain ⟨hleftFlat, hrightFlat⟩ := hflat left right condition joinType leftAlias rightAlias .refl htype
        rw [Reordered, hleftFlat] at hleft hleft'
        rw [Reordered, hrightFlat] at hright hright'
        rwa [hleft'.trans hleft.symm, hright'.trans hright.symm]
  | _ => trivial

theorem sameResults_of_isSafe (plan : PlanNode S O) (h : ∀ node, Visits rule plan node → IsSafe x rule node) :
    SameResults x rule plan :=
  sameResults_of_node (fun input hinput =>
    sameResults_of_isSafe input fun node hnode => h node (.head hinput hnode)) (h plan .refl)
termination_by plan
decreasing_by cases hinput <;> decreasing_tactic

end Results

/-- A small table is preserved in a left join with a large one. -/
def preservedSmall : PlanNode Unit Unit := .join (.scan "t" [] none) (.scan "orders" [] none) none .left none none

end ParallelJoinOrderingRule

end Optimizer

end Rustgresql
