import Rustgresql.Optimizer.ProjectionPushdown

/-!
# Aggregation pushdown (`optimizer/rules.rs`)

The rule moves nothing. It drops a projection over an aggregation, and the aliases of the joins and projections that it
comes through. `aggregationPushdown_iff`: the results stay the same if and only if such a projection returns the columns of the
aggregation as they are, under the same names, and no alias matters that gets lost.
-/

namespace Rustgresql.Optimizer

open ExpressionEvaluator (noOperations)

open ProjectionPushdownRule (projected Returns forall_returns_iff filter_execute_eq_iff project_execute_eq_iff
  execute_eq_project_iff)

variable {S O : Type}

namespace AggregationPushdownRule

/-! ## The rule -/

section Rule

variable [DebugText]

/-- Check if two expressions are equal (simplified) -/
def expressionsEqual : Expression S → Expression S → Bool
  | .column _ nameA, .column _ nameB => nameA = nameB
  | .value valA, .value valB => DebugText.value valA = DebugText.value valB
  | .function nameA argsA _, .function nameB argsB _ => nameA = nameB ∧ argsA.length = argsB.length
  | _, _ => false

/-- Check if expression is a GROUP BY expression -/
def isGroupByExpression (expr : Expression S) (groupByColumns : List (Expression S)) : Bool :=
  groupByColumns.any (expressionsEqual expr)

/-- Check if filter can be pushed below aggregation -/
def canPushdownFilterBelowAggregation (condition : Expression S) (groupByColumns : List (Expression S)) : Bool :=
  match condition with
  | .binaryOp left _ right => isGroupByExpression left groupByColumns && isGroupByExpression right groupByColumns
  | .column table name => isGroupByExpression (.column table name) groupByColumns
  | _ => false

def isAggregate : PlanNode S O → Bool
  | .aggregate _ _ => true
  | _ => false

/-- Check if aggregation can be pushed down through a join -/
def canPushdownAggregationThroughJoin (left right : PlanNode S O) : Bool := isAggregate left || isAggregate right

/-- Optimize join-aggregation patterns. No transformation is applied. -/
def optimizeJoinAggregation (_left _right : PlanNode S O) (_condition : Option (Expression S)) (_joinType : Sql.JoinType) :
    Option (PlanNode S O) := none

def apply : PlanNode S O → PlanNode S O
  | .join left right condition joinType _ _ =>
    if canPushdownAggregationThroughJoin left right then
      match optimizeJoinAggregation left right condition joinType with
      | some optimizedPlan => optimizedPlan
      | none => .join (apply left) (apply right) condition joinType none none
    else .join (apply left) (apply right) condition joinType none none
  | .project input columns _ _ _ =>
    -- Remove redundant projection before aggregation
    if isAggregate input then apply input
    else .project (apply input) columns ∅ none none
  | .aggregate (.filter filterInput condition) op =>
    if canPushdownFilterBelowAggregation condition op.groupByColumns then
      .aggregate (.filter (apply filterInput) condition) op
    else .aggregate (apply (.filter filterInput condition)) op
  | .aggregate input op => .aggregate (apply input) op
  | .filter input condition => .filter (apply input) condition
  | plan => plan

/-! ## The plan that the rule makes -/

theorem apply_join (left right : PlanNode S O) (condition : Option (Expression S)) (joinType : Sql.JoinType)
    (leftAlias rightAlias : Option String) : apply (.join left right condition joinType leftAlias rightAlias) =
      .join (apply left) (apply right) condition joinType none none := by
  rw [apply, optimizeJoinAggregation]
  exact ite_self _

/-- A filter stays where it is. -/
theorem apply_aggregate (input : PlanNode S O) (op : AggregateOperator S Empty) :
    apply (.aggregate input op) = .aggregate (apply input) op := by
  cases input with
  | filter filterInput condition =>
    rw [apply, apply]
    exact ite_self _
  | _ => rfl

theorem apply_project (input : PlanNode S O) (columns : List (String × Expression S))
    (tableAliases : HashMap String String) (leftColumns rightColumns : Option (List String)) :
    apply (.project input columns tableAliases leftColumns rightColumns) =
      if isAggregate input then apply input else .project (apply input) columns ∅ none none := by
  rw [apply]

/-- The alias that the rule leaves -/
def remainingAlias (otherAlias : O → Option String) : PlanNode S O → Option String
  | .scan _ _ «alias» => «alias»
  | .project input _ _ _ _ => remainingAlias otherAlias input
  | .filter input _ => remainingAlias otherAlias input
  | .aggregate input _ => remainingAlias otherAlias input
  | .other node => otherAlias node
  | _ => none

theorem extractTableAlias_apply (otherAlias : O → Option String) (plan : PlanNode S O) :
    (apply plan).extractTableAlias otherAlias = remainingAlias otherAlias plan := by
  induction plan with
  | filter input condition ih => exact ih
  | project input columns tableAliases leftColumns rightColumns ih =>
    rw [apply_project, remainingAlias, ← ih]
    split
    · rfl
    · rfl
  | aggregate input op ih =>
    rw [apply_aggregate]
    exact ih
  | join left right condition joinType leftAlias rightAlias =>
    rw [apply_join]
    rfl
  | scan | indexScan | indexOnlyScan | other => rfl

/-! ## The results -/

/-- The rule comes from a node to one of its inputs. -/
inductive Step : PlanNode S O → PlanNode S O → Prop
  | filter (input : PlanNode S O) (condition : Expression S) : Step (.filter input condition) input
  | project (input : PlanNode S O) (columns : List (String × Expression S)) (tableAliases : HashMap String String)
    (leftColumns rightColumns : Option (List String)) :
    Step (.project input columns tableAliases leftColumns rightColumns) input
  | aggregate (input : PlanNode S O) (op : AggregateOperator S Empty) : Step (.aggregate input op) input
  | left (left right : PlanNode S O) (condition : Option (Expression S)) (joinType : Sql.JoinType)
    (leftAlias rightAlias : Option String) : Step (.join left right condition joinType leftAlias rightAlias) left
  | right (left right : PlanNode S O) (condition : Option (Expression S)) (joinType : Sql.JoinType)
    (leftAlias rightAlias : Option String) : Step (.join left right condition joinType leftAlias rightAlias) right

/-- The rule comes to a node of the plan. -/
abbrev Visits : PlanNode S O → PlanNode S O → Prop := Relation.ReflTransGen Step

variable [FloatArithmetic] (x : Execution S O)

/-- The plan that the rule makes returns the same columns, and the same rows in their places. -/
def SameResults (plan : PlanNode S O) : Prop :=
  ∀ contents : Contents x, x.execute contents (apply plan) = x.execute contents plan

/-- The projection returns the columns of its input as they are. -/
def ReturnsInput (input : PlanNode S O) (columns : List (String × Expression S)) : Prop :=
  ∀ (contents : Contents x) rows columnNames, x.execute contents input = .ok ⟨rows, columnNames⟩ →
    columns.map Prod.fst = columnNames ∧ ∀ row ∈ rows,
      projected x (input.extractTableAlias x.otherAlias) columnNames columns row = row

/-- The aliases that the rule takes away do not matter to a node, and a projection that it drops is superfluous. -/
def IsSafe : PlanNode S O → Prop
  | .filter input condition => ∀ columnNames row, Returns x input columnNames row →
    FilterOperator.keeps x.ops (x.aliased (remainingAlias x.otherAlias input)) condition columnNames row =
      FilterOperator.keeps x.ops (x.aliased (input.extractTableAlias x.otherAlias)) condition columnNames row
  | .project input columns _ _ _ =>
    if isAggregate input then ReturnsInput x input columns
    else ∀ columnNames row, Returns x input columnNames row →
      projected x (remainingAlias x.otherAlias input) columnNames columns row =
        projected x (input.extractTableAlias x.otherAlias) columnNames columns row
  | .join left right condition joinType leftAlias rightAlias => ∀ contents : Contents x,
    JoinOperator.execute x.ops ⟨condition, joinType, none, none⟩ (x.execute contents left) (x.execute contents right) =
      JoinOperator.execute x.ops ⟨condition, joinType, leftAlias, rightAlias⟩ (x.execute contents left)
        (x.execute contents right)
  | _ => True

variable {x}

/-- If the results of the inputs stay the same, those of a node do exactly if it is safe. -/
theorem sameResults_node_iff {plan : PlanNode S O} (h : ∀ input, Step plan input → SameResults x input) :
    SameResults x plan ↔ IsSafe x plan := by
  cases plan with
  | filter input condition =>
    have hinput := h input (.filter input condition)
    rw [IsSafe, ← forall_returns_iff x input]
    refine forall_congr' fun contents => ?_
    rw [apply, Execution.execute, Execution.execute, hinput contents, extractTableAlias_apply]
    exact filter_execute_eq_iff
  | project input columns tableAliases leftColumns rightColumns =>
    have hinput := h input (.project input columns tableAliases leftColumns rightColumns)
    rw [IsSafe]
    split
    · next haggregate =>
      refine forall_congr' fun contents => ?_
      rw [apply_project, if_pos haggregate, hinput contents, Execution.execute]
      exact execute_eq_project_iff
    · next hother =>
      rw [← forall_returns_iff x input]
      refine forall_congr' fun contents => ?_
      rw [apply_project, if_neg hother, Execution.execute, Execution.execute, hinput contents, extractTableAlias_apply]
      exact project_execute_eq_iff
  | aggregate input op =>
    have hinput := h input (.aggregate input op)
    refine iff_of_true (fun contents => ?_) trivial
    rw [apply_aggregate, Execution.execute, Execution.execute, hinput contents]
  | join left right condition joinType leftAlias rightAlias =>
    have hleft := h left (.left left right condition joinType leftAlias rightAlias)
    have hright := h right (.right left right condition joinType leftAlias rightAlias)
    refine forall_congr' fun contents => ?_
    rw [apply_join, Execution.execute, Execution.execute, hleft contents, hright contents]
  | scan | indexScan | indexOnlyScan | other => exact iff_of_true (fun _ => rfl) trivial

theorem sameResults_of_isSafe (plan : PlanNode S O) (h : ∀ node, Visits plan node → IsSafe x node) :
    SameResults x plan :=
  (sameResults_node_iff fun input hinput =>
    sameResults_of_isSafe input fun node hnode => h node (.head hinput hnode)).mpr (h plan .refl)
termination_by plan
decreasing_by cases hinput <;> decreasing_tactic

/-- The results of a plan and of all plans below it stay the same, row for row, if and only if all these nodes are safe.
Then the bags of rows are the same. -/
theorem aggregationPushdown_iff (plan : PlanNode S O) :
    ((∀ node, Visits plan node → SameResults x node) ↔ ∀ node, Visits plan node → IsSafe x node) ∧
      ((∀ node, Visits plan node → IsSafe x node) → ∀ contents : Contents x,
        SameBag (x.execute contents (apply plan)) (x.execute contents plan)) := by
  refine ⟨⟨fun h node hnode => ?_, fun h node hnode => ?_⟩, fun h contents => ?_⟩
  · exact (sameResults_node_iff fun input hinput => h input (hnode.tail hinput)).mp (h node hnode)
  · exact sameResults_of_isSafe node fun node' hnode' => h node' (hnode.trans hnode')
  · rw [sameResults_of_isSafe plan h contents]
    exact SameBag.refl _

end Rule

/-- The plan of `SELECT COUNT(*) FROM t`. Its column is called `col0`, and that of the aggregation `count_0`. -/
def countRows : PlanNode Unit Unit :=
  .project (.aggregate (.scan "t" [] none) ⟨[], [("count_0", .function "COUNT" [.star] false)], none, []⟩)
    [("col0", .column none "count_0")] ∅ none none

/-- The projection is dropped, and with it the name of the column. -/
theorem column_renamed : ¬ ∀ (S O : Type) [DebugText] [FloatArithmetic] (x : Execution S O) (plan : PlanNode S O)
    (contents : Contents x), SameBag (x.execute contents (apply plan)) (x.execute contents plan) := by
  intro h
  let texts : DebugText := ⟨fun _ => "", fun _ => "", fun _ => ""⟩
  let floats : FloatArithmetic := ⟨fun x _ => x, fun x _ => x, fun _ => 0, fun _ => true, fun _ => 0⟩
  let x : Execution Unit Unit :=
    { ops := noOperations
      context := ⟨fun _ _ l => .ok l, false, none, ∅⟩
      columns := fun _ => .ok ["a"]
      otherAlias := fun _ => none
      executeOther := fun _ _ => .ok ⟨[], []⟩ }
  have hsame := h Unit Unit x countRows ⟨fun _ => [], nofun⟩
  have hnames : ["count_0"] = ["col0"] := hsame.1
  exact absurd hnames (by decide)

end AggregationPushdownRule

end Rustgresql.Optimizer
