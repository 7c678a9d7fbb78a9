import Rustgresql.Executor.Expression.Operators
import Rustgresql.Optimizer.Plan

/-!
# Constant folding (`optimizer/rules.rs`)

`None` stands for an expression that is left as it is, also for a literal, so the operands of an operator never
become known. `applyToExpression_eq`: the rule changes no expression. `constantFolding_iff`: so it folds nothing,
and a join loses its condition if there is no operator in it.
-/

namespace Rustgresql.Optimizer

open Sql (BinaryOperator)

open ExpressionEvaluator (evaluate evaluatorOperations EvaluatorParameters noFloats noParameters Operations)

variable {S O : Type}

namespace ConstantFoldingRule

/-! ## The rule -/

section Rule

variable [FloatOperators] (overflowChecks : Bool)

/-- Operations on two floating-point numbers -/
def foldFloats (op : BinaryOperator) (a b : UInt64) : Option Value :=
  let distance := floatAbs (FloatOperators.sub a b)
  match op with
  | .add => some (.float (FloatArithmetic.add a b))
  | .subtract => some (.float (FloatOperators.sub a b))
  | .multiply => some (.float (FloatOperators.mul a b))
  | .divide => if floatEq b 0 then none else some (.float (FloatArithmetic.div a b))
  | .equals => some (.boolean (floatLt distance floatEpsilon))
  | .notEquals => some (.boolean (floatLe floatEpsilon distance))
  | .lessThan => some (.boolean (floatLt a b))
  | .lessThanOrEquals => some (.boolean (floatLe a b))
  | .greaterThan => some (.boolean (floatLt b a))
  | .greaterThanOrEquals => some (.boolean (floatLe b a))
  | _ => none

/-- Operations on two integers -/
def foldIntegers (op : BinaryOperator) (a b : ℤ) : Result (Option Value) :=
  match op with
  | .add => (fun n => some (.integer n)) <$> I64.add overflowChecks a b
  | .subtract => (fun n => some (.integer n)) <$> I64.sub overflowChecks a b
  | .multiply => (fun n => some (.integer n)) <$> I64.mul overflowChecks a b
  | .divide => if b = 0 then .ok none else (fun n => some (.integer n)) <$> I64.div a b
  | .equals => .ok (some (.boolean (a = b)))
  | .notEquals => .ok (some (.boolean (a ≠ b)))
  | .lessThan => .ok (some (.boolean (a < b)))
  | .lessThanOrEquals => .ok (some (.boolean (a ≤ b)))
  | .greaterThan => .ok (some (.boolean (b < a)))
  | .greaterThanOrEquals => .ok (some (.boolean (b ≤ a)))
  | _ => .ok none

def foldBinaryOperation (op : BinaryOperator) (left right : Value) : Result (Option Value) :=
  match left, right, op with
  | .integer a, .integer b, op => foldIntegers overflowChecks op a b
  | .float a, .float b, op => .ok (foldFloats op a b)
  -- Mixed type operations (promote to higher precision)
  | .integer a, .float b, op => .ok (foldFloats op (FloatArithmetic.ofInt a) b)
  | .float a, .integer b, op => .ok (foldFloats op a (FloatArithmetic.ofInt b))
  | .boolean a, .boolean b, .and => .ok (some (.boolean (a && b)))
  | .boolean a, .boolean b, .or => .ok (some (.boolean (a || b)))
  | .string a, .string b, .equals => .ok (some (.boolean (a = b)))
  | .string a, .string b, .notEquals => .ok (some (.boolean (a ≠ b)))
  | .boolean a, .boolean b, .equals => .ok (some (.boolean (a = b)))
  | .boolean a, .boolean b, .notEquals => .ok (some (.boolean (a ≠ b)))
  | _, _, _ => .ok none

def foldUnaryOperation (op : UnaryOperator) (operand : Value) : Result (Option Value) :=
  match op, operand with
  | .not, .boolean value => .ok (some (.boolean !value))
  | .minus, .integer value => (fun n => some (.integer n)) <$> I64.neg overflowChecks value
  | .minus, .float value => .ok (some (.float (floatNeg value)))
  | .plus, operand => .ok (some operand)
  | _, _ => .ok none

/-- The literal that a result of the rule is -/
def literal? : Option (Expression S) → Option Value
  | some (.value v) => some v
  | _ => none

mutual

/-- The optimized expression, or `none` for an expression that is left as it is. -/
def applyToExpression : Expression S → Result (Option (Expression S))
  | .binaryOp left op right => do
    let optimizedLeft ← applyToExpression left
    let optimizedRight ← applyToExpression right
    let folded ← match literal? optimizedLeft, literal? optimizedRight with
      | some leftVal, some rightVal => foldBinaryOperation overflowChecks op leftVal rightVal
      | _, _ => pure none
    match folded with
    | some v => return some (.value v)
    | none => return some (.binaryOp (optimizedLeft.getD left) op (optimizedRight.getD right))
  | .unaryOp op expr => do
    let optimizedExpr ← applyToExpression expr
    let folded ← match literal? optimizedExpr with
      | some v => foldUnaryOperation overflowChecks op v
      | none => pure none
    match folded with
    | some v => return some (.value v)
    | none => return some (.unaryOp op (optimizedExpr.getD expr))
  | .function name args distinct => do
    let (optimizedArgs, changed) ← applyToExpressions args
    return if changed then some (.function name optimizedArgs distinct) else none
  | .list expressions => do
    let (optimizedExpressions, changed) ← applyToExpressions expressions
    return if changed then some (.list optimizedExpressions) else none
  -- Cannot fold other expressions
  | _ => .ok none

/-- The optimized expressions, and whether there is one. -/
def applyToExpressions : List (Expression S) → Result (List (Expression S) × Bool)
  | [] => .ok ([], false)
  | e :: es => do
    let optimized ← applyToExpression e
    let (rest, changed) ← applyToExpressions es
    return (optimized.getD e :: rest, optimized.isSome || changed)

end

/-- The optimized condition of a join. There is none for an error, and none for a condition that is left as it is. -/
def optimizeJoinCondition : Option (Expression S) → Result (Option (Expression S))
  | some expr =>
    match applyToExpression overflowChecks expr with
    | .error (.err _) => .ok none
    | result => result
  | none => .ok none

/-- The columns of a projection are optimized, but the projection keeps its own. -/
def apply : PlanNode S O → Result (PlanNode S O)
  | .filter input condition => do
    let optimizedInput ← apply input
    let optimizedCondition ← applyToExpression overflowChecks condition
    return .filter optimizedInput (optimizedCondition.getD condition)
  | .project input columns _ _ _ => do
    let optimizedInput ← apply input
    let _ ← applyToExpressions overflowChecks (columns.map Prod.snd)
    return .project optimizedInput columns ∅ none none
  | .join left right condition joinType _ _ => do
    let optimizedLeft ← apply left
    let optimizedRight ← apply right
    let optimizedCondition ← optimizeJoinCondition overflowChecks condition
    return .join optimizedLeft optimizedRight optimizedCondition joinType none none
  | plan => .ok plan

end Rule

/-! ## Expressions -/

mutual

/-- There is an operator in the expression, or in an argument or an element. -/
def hasOperator : Expression S → Bool
  | .binaryOp _ _ _ => true
  | .unaryOp _ _ => true
  | .function _ args _ => hasOperatorAny args
  | .list es => hasOperatorAny es
  | _ => false

def hasOperatorAny : List (Expression S) → Bool
  | [] => false
  | e :: es => hasOperator e || hasOperatorAny es

end

theorem getD_ite (e : Expression S) : (if hasOperator e then some e else none).getD e = e := by
  split_ifs <;> rfl

section Expressions

variable [FloatOperators] {overflowChecks : Bool}

mutual

/-- An expression is left as it is, as `none` or, if there is an operator in it, as `some`. -/
theorem applyToExpression_eq (e : Expression S) :
    applyToExpression overflowChecks e = .ok (if hasOperator e then some e else none) := by
  have hliteral (e : Expression S) : literal? (if hasOperator e then some e else none) = none := by
    cases e <;> first | rfl | (rw [hasOperator]; split_ifs <;> rfl)
  cases e with
  | binaryOp left op right =>
    rw [applyToExpression, applyToExpression_eq left, applyToExpression_eq right]
    simp only [bind, Except.bind, hliteral, getD_ite, pure, Except.pure]
    rfl
  | unaryOp op expr =>
    rw [applyToExpression, applyToExpression_eq expr]
    simp only [bind, Except.bind, hliteral, getD_ite, pure, Except.pure]
    rfl
  | function name args distinct =>
    rw [applyToExpression, applyToExpressions_eq args]
    rfl
  | list es =>
    rw [applyToExpression, applyToExpressions_eq es]
    rfl
  | _ => rfl

theorem applyToExpressions_eq (es : List (Expression S)) :
    applyToExpressions overflowChecks es = .ok (es, hasOperatorAny es) := by
  cases es with
  | nil => rfl
  | cons e es =>
    rw [applyToExpressions, applyToExpression_eq e, applyToExpressions_eq es, hasOperatorAny]
    rcases hasOperator e <;> rfl

end

end Expressions

/-- An operand of the operators at the top of an expression, or the expression itself -/
inductive Subexpression : Expression S → Expression S → Prop
  | refl (e : Expression S) : Subexpression e e
  | left {s l : Expression S} (op : BinaryOperator) (r : Expression S) (h : Subexpression s l) :
    Subexpression s (.binaryOp l op r)
  | right {s r : Expression S} (l : Expression S) (op : BinaryOperator) (h : Subexpression s r) :
    Subexpression s (.binaryOp l op r)
  | operand {s e : Expression S} (op : UnaryOperator) (h : Subexpression s e) : Subexpression s (.unaryOp op e)

/-- Literals and operators -/
def IsColumnFree : Expression S → Prop
  | .value _ => True
  | .binaryOp left _ right => IsColumnFree left ∧ IsColumnFree right
  | .unaryOp _ expr => IsColumnFree expr
  | _ => False

def IsLiteral (e : Expression S) : Prop := ∃ v, e = .value v

/-- The evaluation of a column-free expression -/
def Succeeds (ops : Operations S) (e : Expression S) : Prop := ∃ v, evaluate ops (.withColumns ∅) e = .ok v

/-- What the rule makes of an expression has the same value or error in every context, and no subexpression
without columns is left whose evaluation succeeds. -/
structure FoldsConstants [FloatOperators] (ops : Operations S) (overflowChecks : Bool) (e : Expression S) : Prop where
  equivalent : ∀ e', applyToExpression overflowChecks e = .ok (some e') → ∀ context,
    evaluate ops context e' = evaluate ops context e
  folded : ∃ optimized, applyToExpression overflowChecks e = .ok optimized ∧
    ∀ s, Subexpression s (optimized.getD e) → IsColumnFree s → Succeeds ops s → IsLiteral s

/-- There are no constants to fold: an operator on literals fails. -/
def ConstantsFail (ops : Operations S) (e : Expression S) : Prop :=
  ∀ s, Subexpression s e → IsColumnFree s → hasOperator s → ¬ Succeeds ops s

theorem isLiteral_or_hasOperator {e : Expression S} (h : IsColumnFree e) : IsLiteral e ∨ hasOperator e := by
  cases e with
  | value v => exact .inl ⟨v, rfl⟩
  | binaryOp left op right => exact .inr rfl
  | unaryOp op expr => exact .inr rfl
  | _ => exact h.elim

theorem foldsConstants_iff [FloatOperators] {ops : Operations S} {overflowChecks : Bool} {e : Expression S} :
    FoldsConstants ops overflowChecks e ↔ ConstantsFail ops e := by
  constructor
  · rintro ⟨-, optimized, happly, hfolded⟩ s hs hfree hoperator hsucceeds
    rw [applyToExpression_eq] at happly
    obtain rfl := Except.ok.inj happly
    obtain ⟨v, rfl⟩ := hfolded s ((getD_ite e).symm ▸ hs) hfree hsucceeds
    cases hoperator
  · intro hfail
    refine ⟨fun e' happly context => ?_, _, applyToExpression_eq e, fun s hs hfree hsucceeds => ?_⟩
    · rw [applyToExpression_eq, Except.ok.injEq] at happly
      obtain ⟨-, happly⟩ := Option.ite_none_right_eq_some.mp happly
      rw [Option.some.inj happly]
    · rw [getD_ite] at hs
      exact (isLiteral_or_hasOperator hfree).resolve_right fun hoperator => hfail s hs hfree hoperator hsucceeds

/-! ## Plans -/

/-- The value or error of an expression is the same in every context. -/
def Equivalent (ops : Operations S) (a b : Expression S) : Prop := ∀ context, evaluate ops context a = evaluate ops context b

/-- Whether the condition of a join holds. A join without a condition joins all rows. -/
def joinHolds (ops : Operations S) (context : ExpressionEvaluator.Context) : Option (Expression S) → Result Bool
  | some condition => (evaluate ops context condition).map JoinOperator.conditionHolds
  | none => .ok true

/-- The plan has the nodes of the other with equivalent filters, projections and join conditions. -/
def SameConditions (ops : Operations S) : PlanNode S O → PlanNode S O → Prop
  | .filter input condition, .filter input' condition' => SameConditions ops input input' ∧
    Equivalent ops condition' condition
  | .project input columns _ _ _, .project input' columns' _ _ _ => SameConditions ops input input' ∧
    List.Forall₂ (fun column' column => column'.1 = column.1 ∧ Equivalent ops column'.2 column.2) columns' columns
  | .join left right condition joinType _ _, .join left' right' condition' joinType' _ _ =>
    SameConditions ops left left' ∧ SameConditions ops right right' ∧ joinType' = joinType ∧
      ∀ context, joinHolds ops context condition' = joinHolds ops context condition
  | plan, plan' => plan' = plan

/-- Every join condition that the rule comes to has an operator, or holds of all rows. -/
def JoinsHaveOperators (ops : Operations S) : PlanNode S O → Prop
  | .filter input _ => JoinsHaveOperators ops input
  | .project input _ _ _ _ => JoinsHaveOperators ops input
  | .join left right condition _ _ _ => JoinsHaveOperators ops left ∧ JoinsHaveOperators ops right ∧
    ∀ e, condition = some e → hasOperator e = false → ∀ context, joinHolds ops context (some e) = .ok true
  | _ => True

/-- The condition that a join keeps -/
def keptCondition (condition : Option (Expression S)) : Option (Expression S) :=
  condition.filter hasOperator

/-- The plan that the rule makes -/
def folded : PlanNode S O → PlanNode S O
  | .filter input condition => .filter (folded input) condition
  | .project input columns _ _ _ => .project (folded input) columns ∅ none none
  | .join left right condition joinType _ _ => .join (folded left) (folded right) (keptCondition condition) joinType none none
  | plan => plan

theorem sameConditions_folded_iff {ops : Operations S} (plan : PlanNode S O) :
    SameConditions ops plan (folded plan) ↔ JoinsHaveOperators ops plan := by
  induction plan with
  | filter input condition ih =>
    rw [folded, SameConditions, JoinsHaveOperators, ih]
    exact and_iff_left fun _ => rfl
  | project input columns tableAliases leftColumns rightColumns ih =>
    rw [folded, SameConditions, JoinsHaveOperators, ih]
    exact and_iff_left (List.forall₂_same.mpr fun column _ => ⟨rfl, fun _ => rfl⟩)
  | join left right condition joinType leftAlias rightAlias ihl ihr =>
    rw [folded, SameConditions, JoinsHaveOperators, ihl, ihr, eq_self, true_and]
    refine and_congr_right fun _ => and_congr_right fun _ => ?_
    rcases condition with - | e
    · exact iff_of_true (fun _ => rfl) nofun
    · rw [keptCondition, Option.filter_some]
      rcases hoperator : hasOperator e
      · refine ⟨fun h e' he' _ context => ?_, fun h context => (h e rfl hoperator context).symm⟩
        obtain rfl := Option.some.inj he'
        exact (h context).symm
      · refine iff_of_true (fun _ => rfl) fun e' he' hnone => ?_
        obtain rfl := Option.some.inj he'
        cases hoperator.symm.trans hnone
  | _ => exact iff_of_true rfl trivial

section Plans

variable [FloatOperators] {overflowChecks : Bool}

theorem optimizeJoinCondition_eq (condition : Option (Expression S)) :
    optimizeJoinCondition overflowChecks condition = .ok (keptCondition condition) := by
  rcases condition with - | e
  · rfl
  · rw [optimizeJoinCondition, applyToExpression_eq, keptCondition, Option.filter_some]

theorem apply_eq (plan : PlanNode S O) : apply overflowChecks plan = .ok (folded plan) := by
  induction plan with
  | filter input condition ih =>
    rw [apply, ih, applyToExpression_eq, folded]
    simp only [bind, Except.bind, getD_ite]
    rfl
  | project input columns tableAliases leftColumns rightColumns ih =>
    rw [apply, ih, applyToExpressions_eq]
    rfl
  | join left right condition joinType leftAlias rightAlias ihl ihr =>
    rw [apply, ihl, ihr, optimizeJoinCondition_eq]
    rfl
  | _ => rfl

end Plans

/-- The rule folds the constants of an expression if and only if they all fail, and it keeps the conditions of a
plan if and only if every join condition has an operator or holds of all rows. -/
theorem constantFolding_iff [FloatOperators] (ops : Operations S) (overflowChecks : Bool) (e : Expression S)
    (plan : PlanNode S O) : (FoldsConstants ops overflowChecks e ↔ ConstantsFail ops e) ∧
      ((∃ plan', apply overflowChecks plan = .ok plan' ∧ SameConditions ops plan plan') ↔
        JoinsHaveOperators ops plan) := by
  refine ⟨foldsConstants_iff, ?_⟩
  rw [apply_eq, ← sameConditions_folded_iff]
  constructor
  · rintro ⟨plan', hplan, hsame⟩
    obtain rfl := Except.ok.inj hplan
    exact hsame
  · exact fun hsame => ⟨_, rfl, hsame⟩

/-- 1 + 2 is not folded, and a join on FALSE becomes one without a condition. -/
theorem constants_not_folded : letI : DebugText := ⟨fun _ => "", fun _ => "", fun _ => ""⟩
    letI : FloatOperators := noFloats
    ¬ FoldsConstants (evaluatorOperations noParameters 0) true
      (.binaryOp (.value (.integer 1)) .add (.value (.integer 2))) ∧
    ¬ ∃ plan', apply true (.join (.other ()) (.other ()) (some (.value (.boolean false))) .inner none none) = .ok plan' ∧
      SameConditions (evaluatorOperations noParameters 0)
        (.join (.other ()) (.other ()) (some (.value (.boolean false))) .inner none none) plan' := by
  let texts : DebugText := ⟨fun _ => "", fun _ => "", fun _ => ""⟩
  let operators : FloatOperators := noFloats
  constructor
  · rintro ⟨-, optimized, happly, hfolded⟩
    obtain rfl := Except.ok.inj happly
    obtain ⟨v, hv⟩ := hfolded _ (.refl _) ⟨trivial, trivial⟩ ⟨.integer 3, rfl⟩
    cases hv
  · rintro ⟨plan', happly, hsame⟩
    obtain rfl := Except.ok.inj happly
    cases hsame.2.2.2 (.withColumns ∅)

end ConstantFoldingRule

end Rustgresql.Optimizer
