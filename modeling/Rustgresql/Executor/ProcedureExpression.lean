import Rustgresql.Executor.Distinct
import Rustgresql.Executor.Expression.Operators
import Rustgresql.Executor.Extremes

/-!
# Expressions in procedures (`executor/procedure.rs`)

Procedures have an evaluator of their own, with variables in place of columns. `evaluateExpression_eq_iff`: all parts
of an expression have the value that they have in a query exactly if its variables are bound and its operators are
applied to values on which the two evaluators agree. They do not agree on NULL, on errors, on divisions by zero, on
the order of truth values, of timestamps and of values of different kinds, on comparisons with NaN, and on the
equality of an integer and a number that is close to it.
-/

namespace Rustgresql

open Sql (BinaryOperator)

namespace ProcedureExecutor

open ExpressionEvaluator (Context evaluate evaluateBinaryOperation evaluateUnaryOperation)

section Values

variable [FloatOperators]

/-! ## Values -/

/-- The errors of procedures -/
def failed {α : Type} (msg : String) : Result α := .error (.err (.procedure msg))

def equals : Value → Value → Bool
  | .null, .null => true
  | .null, _ | _, .null => false
  | .boolean a, .boolean b => a = b
  | .integer a, .integer b => a = b
  | .float a, .float b => floatEq a b
  | .integer a, .float b => floatEq (FloatArithmetic.ofInt a) b
  | .float a, .integer b => floatEq a (FloatArithmetic.ofInt b)
  | .string a, .string b => a = b
  | _, _ => false

def lessThan : Value → Value → Bool
  | .integer a, .integer b => a < b
  | .float a, .float b => floatLt a b
  | .integer a, .float b => floatLt (FloatArithmetic.ofInt a) b
  | .float a, .integer b => floatLt a (FloatArithmetic.ofInt b)
  | .string a, .string b => a < b
  | _, _ => false

def lessThanOrEqual (v w : Value) : Bool := lessThan v w || equals v w

def greaterThan (v w : Value) : Bool := !lessThanOrEqual v w

def greaterThanOrEqual (v w : Value) : Bool := !lessThan v w

variable (overflowChecks : Bool)

def add : Value → Value → Result Value
  | .integer a, .integer b => Value.integer <$> I64.add overflowChecks a b
  | .float a, .float b => .ok (.float (FloatArithmetic.add a b))
  | .integer a, .float b => .ok (.float (FloatArithmetic.add (FloatArithmetic.ofInt a) b))
  | .float a, .integer b => .ok (.float (FloatArithmetic.add a (FloatArithmetic.ofInt b)))
  | .string a, .string b => .ok (.string (a ++ b))
  | _, _ => failed "Invalid types for addition"

def subtract : Value → Value → Result Value
  | .integer a, .integer b => Value.integer <$> I64.sub overflowChecks a b
  | .float a, .float b => .ok (.float (FloatOperators.sub a b))
  | .integer a, .float b => .ok (.float (FloatOperators.sub (FloatArithmetic.ofInt a) b))
  | .float a, .integer b => .ok (.float (FloatOperators.sub a (FloatArithmetic.ofInt b)))
  | _, _ => failed "Invalid types for subtraction"

def multiply : Value → Value → Result Value
  | .integer a, .integer b => Value.integer <$> I64.mul overflowChecks a b
  | .float a, .float b => .ok (.float (FloatOperators.mul a b))
  | .integer a, .float b => .ok (.float (FloatOperators.mul (FloatArithmetic.ofInt a) b))
  | .float a, .integer b => .ok (.float (FloatOperators.mul a (FloatArithmetic.ofInt b)))
  | _, _ => failed "Invalid types for multiplication"

def divide : Value → Value → Result Value
  | .integer a, .integer b => if b = 0 then failed "Division by zero" else Value.integer <$> I64.div a b
  | .float a, .float b => if floatEq b 0 then failed "Division by zero" else .ok (.float (FloatArithmetic.div a b))
  | .integer a, .float b =>
    if floatEq b 0 then failed "Division by zero"
    else .ok (.float (FloatArithmetic.div (FloatArithmetic.ofInt a) b))
  | .float a, .integer b =>
    if b = 0 then failed "Division by zero" else .ok (.float (FloatArithmetic.div a (FloatArithmetic.ofInt b)))
  | _, _ => failed "Invalid types for division"

def negate : Value → Result Value
  | .integer a => Value.integer <$> I64.neg overflowChecks a
  | .float a => .ok (.float (floatNeg a))
  | _ => failed "Cannot negate non-numeric value"

/-! ## Operators -/

/-- The derived `Debug` text of an operator that procedures do not have -/
def operatorText : BinaryOperator → String
  | .like => "Like"
  | .iLike => "ILike"
  | .in => "In"
  | .is => "Is"
  | .isNot => "IsNot"
  | .concatenate => "Concatenate"
  | _ => ""

/-- Evaluate a binary operation -/
def evaluateBinaryOp (op : BinaryOperator) (left right : Value) : Result Value :=
  match op with
  | .add => add overflowChecks left right
  | .subtract => subtract overflowChecks left right
  | .multiply => multiply overflowChecks left right
  | .divide => divide left right
  | .equals => .ok (.boolean (equals left right))
  | .notEquals => .ok (.boolean !equals left right)
  | .lessThan => .ok (.boolean (lessThan left right))
  | .lessThanOrEquals => .ok (.boolean (lessThanOrEqual left right))
  | .greaterThan => .ok (.boolean (greaterThan left right))
  | .greaterThanOrEquals => .ok (.boolean (greaterThanOrEqual left right))
  | .and => .ok (.boolean (left.isTrue && right.isTrue))
  | .or => .ok (.boolean (left.isTrue || right.isTrue))
  | op => failed s!"Binary operator {operatorText op} not yet implemented in procedures"

/-- Evaluate a unary operation -/
def evaluateUnaryOp (op : UnaryOperator) (operand : Value) : Result Value :=
  match op with
  | .not => .ok (.boolean !operand.isTrue)
  | .minus => negate overflowChecks operand
  | .plus => .ok operand
  | .exists => failed "EXISTS should be handled as EXISTS expression, not as unary operator"
  | .notExists => failed "NOT EXISTS should be handled as EXISTS expression, not as unary operator"

end Values

/-! ## Expressions -/

section Expressions

variable {S : Type} [FloatOperators] [DebugText]

/-- What the evaluator takes from elsewhere: the calls of built-in functions and of functions of the user, and the main
evaluator -/
structure Parameters (S : Type) where
  function : String → List Value → Result Value
  evaluator : ExpressionEvaluator.EvaluatorParameters S
  depth : ℕ

/-- The main evaluator -/
def Parameters.operations (p : Parameters S) : ExpressionEvaluator.Operations S :=
  ExpressionEvaluator.evaluatorOperations p.evaluator p.depth

mutual

/-- Evaluate an expression in the procedure context -/
def evaluateExpression (p : Parameters S) (values : HashMap String Value) : Expression S → Result Value
  -- Look up variable in procedure context
  | .column _ name =>
    match values.lookup name with
    | some v => .ok v
    | none => failed s!"Variable '{name}' not found"
  | .value v => .ok v
  | .literal v => .ok v
  | .binaryOp left op right => do
    let leftVal ← evaluateExpression p values left
    let rightVal ← evaluateExpression p values right
    evaluateBinaryOp p.evaluator.overflowChecks op leftVal rightVal
  | .unaryOp op expr => do
    let val ← evaluateExpression p values expr
    evaluateUnaryOp p.evaluator.overflowChecks op val
  | .function name args _ => do
    let argValues ← evaluateArguments p values args
    p.function name argValues
  | .parameter idx => failed s!"Unresolved parameter ${idx} in procedure"
  -- For other expression types, we'll use the main expression evaluator
  | expr => evaluate p.operations (.withColumns values) expr

def evaluateArguments (p : Parameters S) (values : HashMap String Value) : List (Expression S) → Result (List Value)
  | [] => .ok []
  | arg :: args => do
    let v ← evaluateExpression p values arg
    let vs ← evaluateArguments p values args
    return v :: vs

end

end Expressions

/-! ## The answers of the main evaluator -/

theorem fromValue_of_not_null {v : Value} (hv : v.isNull = false) : ThreeValuedLogic.fromValue v =
    if v.isTrue then .true else .false := by
  cases v <;> first | rfl | cases hv

/-- NULL is answered with NULL. -/
theorem evaluateBinaryOperation_null {S : Type} {ops : ExpressionEvaluator.Operations S} {op : BinaryOperator} {v w : Value}
    (his : op ≠ .is) (hisNot : op ≠ .isNot)
    (hnull : v.isNull = true ∨ w.isNull = true) : evaluateBinaryOperation ops op v w = .ok .null := by
  unfold evaluateBinaryOperation
  rw [if_pos ⟨his, hisNot, hnull⟩]
  cases op <;> rfl

/-- No query fails with an error of procedures. -/
theorem matchPattern_ne_failed {S : Type} {p : ExpressionEvaluator.EvaluatorParameters S} {v w : Value} {name flag msg : String} :
    ExpressionEvaluator.matchPattern p name flag v w ≠ failed msg := by
  cases v <;> cases w
  case string.string s pattern =>
    simp only [ExpressionEvaluator.matchPattern, failed]
    split <;> simp
  all_goals simp [ExpressionEvaluator.matchPattern, failed]

/-! ## Not less and not equal -/

theorem toNat_magnitude (x : UInt64) : (x &&& 0x7fffffffffffffff).toNat = x.toNat % 2 ^ 63 := by
  have hmask : (0x7fffffffffffffff : UInt64).toNat = 2 ^ 63 - 1 := rfl
  rw [UInt64.toNat_and, hmask, Nat.and_two_pow_sub_one_eq_mod]

/-- Numbers are equal if they have one place among the others. -/
theorem floatEq_iff_floatKey (x y : UInt64) : floatEq x y = true ↔ ∃ i, floatKey x = some i ∧ floatKey y = some i := by
  have hx := toNat_magnitude x
  have hy := toNat_magnitude y
  have hxlt := x.toNat_lt
  have hylt := y.toNat_lt
  have hnan : (0x7ff0000000000000 : UInt64).toNat = 0x7ff0000000000000 := rfl
  have hsign : (0x8000000000000000 : UInt64).toNat = 2 ^ 63 := rfl
  have hzero : (0 : UInt64).toNat = 0 := rfl
  simp only [floatEq, floatKey, Bool.and_eq_true, Bool.or_eq_true, beq_iff_eq, decide_eq_true_eq, UInt64.le_iff_toNat_le,
    UInt64.lt_iff_toNat_lt, ← UInt64.toNat_inj, hx, hy, hnan, hsign, hzero]
  constructor
  · rintro ⟨⟨hxnan, hynan⟩, h⟩
    have hx' : ¬ 0x7ff0000000000000 < x.toNat % 2 ^ 63 := by omega
    have hy' : ¬ 0x7ff0000000000000 < y.toNat % 2 ^ 63 := by omega
    rw [if_neg hx', if_neg hy']
    split_ifs <;> refine ⟨_, rfl, ?_⟩ <;> rw [Option.some_inj] <;> omega
  · rintro ⟨i, hi, hj⟩
    split_ifs at hi hj <;> rw [Option.some_inj] at hi hj <;> omega
theorem integerGreater (i j : ℤ) : (!(decide (i < j) || decide (i = j))) = decide (j < i) := by
  rw [Bool.eq_iff_iff]
  simp only [Bool.not_eq_true', Bool.or_eq_false_iff, decide_eq_false_iff_not, decide_eq_true_eq]
  omega

theorem stringGreater (s t : String) : (!(decide (s < t) || decide (s = t))) = decide (t < s) := by
  rw [Bool.eq_iff_iff]
  simp only [Bool.not_eq_true', Bool.or_eq_false_iff, decide_eq_false_iff_not, decide_eq_true_eq]
  constructor
  · rintro ⟨hlt, hne⟩
    exact lt_of_le_of_ne (not_lt.mp hlt) (Ne.symm hne)
  · exact fun h => ⟨h.asymm, h.ne'⟩

/-- Not less and not equal is greater, unless there is a NaN. -/
theorem floatGreater_iff (x y : UInt64) :
    (!(floatLt x y || floatEq x y)) = floatLt y x ↔ floatKey x ≠ none ∧ floatKey y ≠ none := by
  have heq := floatEq_iff_floatKey x y
  unfold floatLt
  rcases hx : floatKey x with - | i <;> rcases hy : floatKey y with - | j
  case some.some =>
    have hkey : floatEq x y = decide (i = j) := by
      rw [Bool.eq_iff_iff, heq, hx, hy]
      simp [eq_comm]
    simp only [hkey, integerGreater, ne_eq, reduceCtorEq, not_false_eq_true, and_self]
  all_goals
    have hfalse : floatEq x y = false := by
      rw [Bool.eq_false_iff, ne_eq, heq, hx, hy]
      simp
    simp [hfalse]

/-! ## Expressions with operators -/

section Parts

variable {S : Type}

/-- An expression built from literals and variables with operators -/
inductive IsOperatorExpression : Expression S → Prop
  | value (v : Value) : IsOperatorExpression (.value v)
  | literal (v : Value) : IsOperatorExpression (.literal v)
  | variable (name : String) : IsOperatorExpression (.column none name)
  | binaryOp {left right : Expression S} (op : BinaryOperator) (hleft : IsOperatorExpression left)
    (hright : IsOperatorExpression right) : IsOperatorExpression (.binaryOp left op right)
  | unaryOp {expr : Expression S} (op : UnaryOperator) (hexpr : IsOperatorExpression expr) :
    IsOperatorExpression (.unaryOp op expr)

/-- The first expression is the second or an operand in it. -/
inductive IsPart (e : Expression S) : Expression S → Prop
  | whole : IsPart e e
  | left {left right : Expression S} {op : BinaryOperator} (h : IsPart e left) : IsPart e (.binaryOp left op right)
  | right {left right : Expression S} {op : BinaryOperator} (h : IsPart e right) : IsPart e (.binaryOp left op right)
  | operand {op : UnaryOperator} {expr : Expression S} (h : IsPart e expr) : IsPart e (.unaryOp op expr)

variable {M : Expression S → Prop}

theorem forall_isPart_value {v : Value} : (∀ e, IsPart e (.value v) → M e) ↔ M (.value v) :=
  ⟨fun h => h _ .whole, fun h e he => by cases he; exact h⟩

theorem forall_isPart_literal {v : Value} : (∀ e, IsPart e (.literal v) → M e) ↔ M (.literal v) :=
  ⟨fun h => h _ .whole, fun h e he => by cases he; exact h⟩

theorem forall_isPart_column {table : Option String} {name : String} :
    (∀ e, IsPart e (.column table name) → M e) ↔ M (.column table name) :=
  ⟨fun h => h _ .whole, fun h e he => by cases he; exact h⟩

theorem forall_isPart_binaryOp {left right : Expression S} {op : BinaryOperator} :
    (∀ e, IsPart e (.binaryOp left op right) → M e) ↔
      ((∀ e, IsPart e left → M e) ∧ ∀ e, IsPart e right → M e) ∧ M (.binaryOp left op right) := by
  constructor
  · exact fun h => ⟨⟨fun e he => h e he.left, fun e he => h e he.right⟩, h _ .whole⟩
  · rintro ⟨⟨hleft, hright⟩, hwhole⟩ e he
    cases he with
    | whole => exact hwhole
    | left he => exact hleft e he
    | right he => exact hright e he

theorem forall_isPart_unaryOp {op : UnaryOperator} {expr : Expression S} :
    (∀ e, IsPart e (.unaryOp op expr) → M e) ↔ (∀ e, IsPart e expr → M e) ∧ M (.unaryOp op expr) := by
  constructor
  · exact fun h => ⟨fun e he => h e he.operand, h _ .whole⟩
  · rintro ⟨hexpr, hwhole⟩ e he
    cases he with
    | whole => exact hwhole
    | operand he => exact hexpr e he

theorem rightContext_of_isOperatorExpression {op : BinaryOperator} {right : Expression S} {context : Context}
    (hright : IsOperatorExpression right) : ExpressionEvaluator.rightContext op right context = context := by
  cases hright <;> cases op <;> rfl

end Parts

/-! ## Where the operators agree -/

section Agreement

variable [FloatOperators]

/-- The floating-point numbers by which two numbers are compared, unless both are integers -/
def asFloats : Value → Value → Option (UInt64 × UInt64)
  | .float x, .float y => some (x, y)
  | .integer i, .float y => some (FloatArithmetic.ofInt i, y)
  | .float x, .integer j => some (x, FloatArithmetic.ofInt j)
  | _, _ => none

/-- Both are numbers. -/
def AreNumbers : Value → Value → Prop
  | .integer _, .integer _ | .float _, .float _ | .integer _, .float _ | .float _, .integer _ => True
  | _, _ => False

/-- Both are strings. -/
def AreStrings : Value → Value → Prop
  | .string _, .string _ => True
  | _, _ => False

def IsZero : Value → Prop
  | .integer i => i = 0
  | .float x => floatEq x 0 = true
  | _ => False

/-- An integer and a floating-point number are as equal as they are close. -/
def EqualityAgrees : Value → Value → Prop
  | .integer i, .float y =>
    floatEq (FloatArithmetic.ofInt i) y = ExpressionEvaluator.floatsClose (FloatArithmetic.ofInt i) y
  | .float x, .integer j =>
    floatEq x (FloatArithmetic.ofInt j) = ExpressionEvaluator.floatsClose x (FloatArithmetic.ofInt j)
  | _, _ => True

/-- Values of one kind that is ordered, but false is not compared with true, nor a timestamp with a later one. -/
def OrderAgrees : Value → Value → Prop
  | .boolean l, .boolean r => ¬ (l = false ∧ r = true)
  | .timestamp l, .timestamp r => ¬ l < r
  | v, w => AreNumbers v w ∨ AreStrings v w

/-- Values of one kind that is ordered, but there is no NaN, false is not compared with true, and of timestamps the
first is later. -/
def GreaterAgrees : Value → Value → Prop
  | .boolean l, .boolean r => ¬ (l = false ∧ r = true)
  | .timestamp l, .timestamp r => r < l
  | v, w => (AreNumbers v w ∧ ∀ x ∈ asFloats v w, floatKey x.1 ≠ none ∧ floatKey x.2 ≠ none) ∨ AreStrings v w

/-- The two evaluators agree on an operator for two values. -/
def BinaryAgrees (op : BinaryOperator) (v w : Value) : Prop :=
  v.isNull = false ∧ w.isNull = false ∧
    match op with
    | .add => AreNumbers v w ∨ AreStrings v w
    | .subtract | .multiply => AreNumbers v w
    | .divide => AreNumbers v w ∧ ¬ IsZero w
    | .equals | .notEquals => EqualityAgrees v w
    | .lessThan | .greaterThanOrEquals => OrderAgrees v w
    | .lessThanOrEquals => OrderAgrees v w ∧ (lessThan v w = true ∨ EqualityAgrees v w)
    | .greaterThan => GreaterAgrees v w
    | .and | .or => True
    | _ => False

/-- The two evaluators agree on an operator for a value. -/
def UnaryAgrees (op : UnaryOperator) (v : Value) : Prop :=
  match op with
  | .not => v.isNull = false
  | .minus => AreNumbers v v
  | .plus => AreNumbers v v ∨ v.isNull = true
  | _ => False

theorem add_agrees_iff {overflowChecks : Bool} {v w : Value} :
    add overflowChecks v w = ExpressionEvaluator.evaluateAddition overflowChecks v w ↔ AreNumbers v w ∨ AreStrings v w := by
  cases v <;> cases w <;>
    simp [add, ExpressionEvaluator.evaluateAddition, failed, AreNumbers, AreStrings]

theorem subtract_agrees_iff {overflowChecks : Bool} {v w : Value} :
    subtract overflowChecks v w = ExpressionEvaluator.evaluateSubtraction overflowChecks v w ↔ AreNumbers v w := by
  cases v <;> cases w <;> simp [subtract, ExpressionEvaluator.evaluateSubtraction, failed, AreNumbers]

theorem multiply_agrees_iff {overflowChecks : Bool} {v w : Value} :
    multiply overflowChecks v w = ExpressionEvaluator.evaluateMultiplication overflowChecks v w ↔ AreNumbers v w := by
  cases v <;> cases w <;> simp [multiply, ExpressionEvaluator.evaluateMultiplication, failed, AreNumbers]

theorem divide_agrees_iff {v w : Value} :
    divide v w = ExpressionEvaluator.evaluateDivision v w ↔ AreNumbers v w ∧ ¬ IsZero w := by
  cases v <;> cases w <;> simp [divide, ExpressionEvaluator.evaluateDivision, failed, AreNumbers, IsZero]
  all_goals split_ifs with h <;> simp [h]

theorem equals_agrees_iff {v w : Value} (hv : v.isNull = false) :
    equals v w = ExpressionEvaluator.valuesEqual v w ↔ EqualityAgrees v w := by
  cases v <;> cases w <;> simp_all [equals, ExpressionEvaluator.valuesEqual, EqualityAgrees, Value.isNull]

theorem lessThan_agrees_iff {v w : Value} :
    Value.boolean (lessThan v w) = ExpressionEvaluator.ofComparison (ExpressionEvaluator.lessThan v w) ↔ OrderAgrees v w := by
  cases v <;> cases w <;>
    simp [lessThan, ExpressionEvaluator.lessThan, ExpressionEvaluator.ofComparison, OrderAgrees, AreNumbers, AreStrings]

theorem lessThanOrEquals_agrees_iff {v w : Value} (hv : v.isNull = false) :
    Value.boolean (lessThanOrEqual v w) = ExpressionEvaluator.ofComparison
        ((ExpressionEvaluator.lessThan v w).map (· || ExpressionEvaluator.valuesEqual v w)) ↔
      OrderAgrees v w ∧ (lessThan v w = true ∨ EqualityAgrees v w) := by
  cases v <;> cases w
  case integer.float i y =>
    simp [lessThanOrEqual, lessThan, equals, ExpressionEvaluator.lessThan, ExpressionEvaluator.valuesEqual,
      ExpressionEvaluator.ofComparison, OrderAgrees, AreNumbers, EqualityAgrees]
    cases floatLt (FloatArithmetic.ofInt i) y <;> simp
  case float.integer x j =>
    simp [lessThanOrEqual, lessThan, equals, ExpressionEvaluator.lessThan, ExpressionEvaluator.valuesEqual,
      ExpressionEvaluator.ofComparison, OrderAgrees, AreNumbers, EqualityAgrees]
    cases floatLt x (FloatArithmetic.ofInt j) <;> simp
  case boolean.boolean l r =>
    cases l <;> cases r <;> simp [lessThanOrEqual, lessThan, equals, ExpressionEvaluator.lessThan,
      ExpressionEvaluator.valuesEqual, ExpressionEvaluator.ofComparison, OrderAgrees, EqualityAgrees]
  all_goals simp_all [lessThanOrEqual, lessThan, equals, ExpressionEvaluator.lessThan, ExpressionEvaluator.valuesEqual,
    ExpressionEvaluator.ofComparison, OrderAgrees, AreNumbers, AreStrings, EqualityAgrees, Value.isNull]

theorem greaterThanOrEquals_agrees_iff {v w : Value} :
    Value.boolean (greaterThanOrEqual v w) =
      ExpressionEvaluator.ofComparison ((ExpressionEvaluator.lessThan v w).map (!·)) ↔ OrderAgrees v w := by
  cases v <;> cases w
  case boolean.boolean l r =>
    cases l <;> cases r <;> simp [greaterThanOrEqual, lessThan, ExpressionEvaluator.lessThan,
      ExpressionEvaluator.ofComparison, OrderAgrees]
  all_goals simp [greaterThanOrEqual, lessThan, ExpressionEvaluator.lessThan,
    ExpressionEvaluator.ofComparison, OrderAgrees, AreNumbers, AreStrings]

theorem greaterThan_agrees_iff {v w : Value} (hv : v.isNull = false) :
    Value.boolean (greaterThan v w) = ExpressionEvaluator.ofComparison (ExpressionEvaluator.greaterThan v w) ↔
      GreaterAgrees v w := by
  cases v <;> cases w
  case integer.integer i j =>
    simp only [greaterThan, lessThanOrEqual, lessThan, equals, integerGreater, ExpressionEvaluator.greaterThan,
      ExpressionEvaluator.ofComparison, true_iff]
    exact .inl ⟨trivial, by simp [asFloats]⟩
  case string.string s t =>
    simp only [greaterThan, lessThanOrEqual, lessThan, equals, stringGreater, ExpressionEvaluator.greaterThan,
      ExpressionEvaluator.ofComparison, true_iff]
    exact .inr trivial
  case boolean.boolean l r =>
    cases l <;> cases r <;> simp [greaterThan, lessThanOrEqual, lessThan, equals, ExpressionEvaluator.greaterThan,
      ExpressionEvaluator.ofComparison, GreaterAgrees]
  case float.float | integer.float | float.integer =>
    simpa [greaterThan, lessThanOrEqual, lessThan, equals, ExpressionEvaluator.greaterThan,
      ExpressionEvaluator.ofComparison, GreaterAgrees, AreNumbers, AreStrings, asFloats] using floatGreater_iff _ _
  all_goals simp_all [greaterThan, lessThanOrEqual, lessThan, equals, ExpressionEvaluator.greaterThan,
    ExpressionEvaluator.ofComparison, GreaterAgrees, AreNumbers, AreStrings, Value.isNull]

/-- Procedures do not answer NULL with NULL. -/
theorem evaluateBinaryOp_ne_null {overflowChecks : Bool} {op : BinaryOperator} {v w : Value}
    (hnull : v.isNull = true ∨ w.isNull = true) :
    evaluateBinaryOp overflowChecks op v w ≠ .ok .null := by
  cases op
  case add => cases v <;> cases w <;> simp_all [evaluateBinaryOp, add, failed, Value.isNull]
  case subtract => cases v <;> cases w <;> simp_all [evaluateBinaryOp, subtract, failed, Value.isNull]
  case multiply => cases v <;> cases w <;> simp_all [evaluateBinaryOp, multiply, failed, Value.isNull]
  case divide => cases v <;> cases w <;> simp_all [evaluateBinaryOp, divide, failed, Value.isNull]
  all_goals simp [evaluateBinaryOp, failed]

theorem evaluateIn_ne_failed {v w : Value} {msg : String} : ExpressionEvaluator.evaluateIn v w ≠ failed msg := by
  cases w
  case string s => cases v <;> simp [ExpressionEvaluator.evaluateIn, failed]
  all_goals simp [ExpressionEvaluator.evaluateIn, failed]

section Operators

variable {S : Type} [DebugText] {p : ExpressionEvaluator.EvaluatorParameters S} {depth : ℕ} {op : BinaryOperator}
  {v w : Value}

/-- Procedures do not have the other operators. -/
theorem evaluateBinaryOp_missing (hop : op ∈ [.like, .iLike, .in, .is, .isNot, .concatenate]) :
    evaluateBinaryOp p.overflowChecks op v w ≠
      evaluateBinaryOperation (ExpressionEvaluator.evaluatorOperations p depth) op v w := by
  obtain ⟨msg, hmsg⟩ : ∃ msg, evaluateBinaryOp p.overflowChecks op v w = failed msg := by
    simp only [List.mem_cons, List.not_mem_nil, or_false] at hop
    obtain rfl | rfl | rfl | rfl | rfl | rfl := hop <;> exact ⟨_, rfl⟩
  rw [hmsg]
  refine Ne.symm ?_
  unfold evaluateBinaryOperation
  split_ifs with hnull
  · rw [ExpressionEvaluator.handleNullInBinaryOperation.eq_def]
    split <;> simp [failed]
  obtain ⟨b, hb⟩ := ExpressionEvaluator.evaluateIs_eq v w
  simp only [List.mem_cons, List.not_mem_nil, or_false] at hop
  obtain rfl | rfl | rfl | rfl | rfl | rfl := hop <;>
    simp only [ExpressionEvaluator.evaluatorOperations_binary, ExpressionEvaluator.evaluateOperator]
  · exact matchPattern_ne_failed
  · exact matchPattern_ne_failed
  · exact evaluateIn_ne_failed
  · simp [hb, failed]
  · simp [ExpressionEvaluator.evaluateIsNot, hb, failed, bind, Except.bind, pure, Except.pure]
  · cases v <;> cases w <;> simp [ExpressionEvaluator.evaluateConcatenation, failed]

theorem not_agrees_of_null (hnull : v.isNull = true ∨ w.isNull = true) :
    evaluateBinaryOp p.overflowChecks op v w ≠
      evaluateBinaryOperation (ExpressionEvaluator.evaluatorOperations p depth) op v w := by
  by_cases hmissing : op ∈ [.like, .iLike, .in, .is, .isNot, .concatenate]
  · exact evaluateBinaryOp_missing hmissing
  · have his : op ≠ .is := by rintro rfl; simp at hmissing
    have hisNot : op ≠ .isNot := by rintro rfl; simp at hmissing
    rw [evaluateBinaryOperation_null his hisNot hnull]
    exact evaluateBinaryOp_ne_null hnull

theorem binary_agrees_iff : evaluateBinaryOp p.overflowChecks op v w =
      evaluateBinaryOperation (ExpressionEvaluator.evaluatorOperations p depth) op v w ↔ BinaryAgrees op v w := by
  by_cases hnull : v.isNull = true ∨ w.isNull = true
  · refine iff_of_false (not_agrees_of_null hnull) fun h => ?_
    rcases hnull with hv | hw
    · exact Bool.false_ne_true (h.1.symm.trans hv)
    · exact Bool.false_ne_true (h.2.1.symm.trans hw)
  obtain ⟨hv, hw⟩ : v.isNull = false ∧ w.isNull = false := by simpa using hnull
  by_cases hmissing : op ∈ [.like, .iLike, .in, .is, .isNot, .concatenate]
  · refine iff_of_false (evaluateBinaryOp_missing hmissing) fun h => ?_
    simp only [List.mem_cons, List.not_mem_nil, or_false] at hmissing
    obtain rfl | rfl | rfl | rfl | rfl | rfl := hmissing <;> exact h.2.2
  unfold BinaryAgrees evaluateBinaryOperation
  rw [if_neg (by simp [hv, hw])]
  simp only [hv, hw, true_and, ExpressionEvaluator.evaluatorOperations_binary]
  cases op
  case add => exact add_agrees_iff
  case subtract => exact subtract_agrees_iff
  case multiply => exact multiply_agrees_iff
  case divide => exact divide_agrees_iff
  case and | or =>
    simp only [evaluateBinaryOp, fromValue_of_not_null hv, fromValue_of_not_null hw, iff_true]
    cases v.isTrue <;> cases w.isTrue <;> rfl
  case equals => simpa [evaluateBinaryOp, ExpressionEvaluator.evaluateOperator, ExpressionEvaluator.evaluateEquals]
    using equals_agrees_iff hv
  case notEquals =>
    simpa [evaluateBinaryOp, ExpressionEvaluator.evaluateOperator, ExpressionEvaluator.evaluateNotEquals_eq] using equals_agrees_iff hv
  case lessThan =>
    simpa [evaluateBinaryOp, ExpressionEvaluator.evaluateOperator, ExpressionEvaluator.evaluateLessThan]
      using lessThan_agrees_iff
  case lessThanOrEquals =>
    simpa [evaluateBinaryOp, ExpressionEvaluator.evaluateOperator, ExpressionEvaluator.evaluateLessThanOrEquals_eq]
      using lessThanOrEquals_agrees_iff hv
  case greaterThan =>
    simpa [evaluateBinaryOp, ExpressionEvaluator.evaluateOperator, ExpressionEvaluator.evaluateGreaterThan]
      using greaterThan_agrees_iff hv
  case greaterThanOrEquals =>
    simpa [evaluateBinaryOp, ExpressionEvaluator.evaluateOperator, ExpressionEvaluator.evaluateGreaterThanOrEquals_eq]
      using greaterThanOrEquals_agrees_iff
  all_goals simp at hmissing

theorem unary_agrees_iff {op : UnaryOperator} : evaluateUnaryOp p.overflowChecks op v =
      evaluateUnaryOperation (ExpressionEvaluator.evaluatorOperations p depth) op v ↔ UnaryAgrees op v := by
  cases op
  case not =>
    cases hv : v.isNull
    · simp only [evaluateUnaryOp, evaluateUnaryOperation, fromValue_of_not_null hv, UnaryAgrees, hv, iff_true]
      cases v.isTrue <;> rfl
    · cases v <;> simp_all [evaluateUnaryOp, evaluateUnaryOperation, UnaryAgrees, Value.isNull, 
        ThreeValuedLogic.fromValue, ThreeValuedLogic.not, ThreeValuedLogic.toValue]
  all_goals
    cases v <;> simp [evaluateUnaryOp, evaluateUnaryOperation, UnaryAgrees, Value.isNull, negate, failed,
      ExpressionEvaluator.evaluateSign, AreNumbers]

end Operators

/-! ## Where the evaluators agree -/

section Evaluators

variable {S : Type} [DebugText] {p : Parameters S} {values : HashMap String Value}

/-- The value of an expression in a query whose columns are the variables -/
def queryValue (p : Parameters S) (values : HashMap String Value) (e : Expression S) : Result Value :=
  evaluate p.operations (.withColumns values) e

/-- A variable is bound, and an operator is applied to values on which the two evaluators agree. -/
def IsCompatible (p : Parameters S) (values : HashMap String Value) : Expression S → Prop
  | .column _ name => values.lookup name ≠ none
  | .binaryOp left op right =>
    ∀ v w, queryValue p values left = .ok v → queryValue p values right = .ok w → BinaryAgrees op v w
  | .unaryOp op expr => ∀ v, queryValue p values expr = .ok v → UnaryAgrees op v
  | _ => True

theorem column_agrees_iff {name : String} :
    evaluateExpression p values (.column none name) = queryValue p values (.column none name) ↔
      values.lookup name ≠ none := by
  rw [evaluateExpression, queryValue, evaluate, ExpressionEvaluator.columnValue, ExpressionEvaluator.unqualifiedValue]
  cases h : values.lookup name <;> simp [ExpressionEvaluator.Context.withColumns, h, failed]

theorem binaryOp_agrees_iff {left right : Expression S} {op : BinaryOperator} (hop : IsOperatorExpression right)
    (hleft : evaluateExpression p values left = queryValue p values left)
    (hright : evaluateExpression p values right = queryValue p values right) :
    evaluateExpression p values (.binaryOp left op right) = queryValue p values (.binaryOp left op right) ↔
      IsCompatible p values (.binaryOp left op right) := by
  have hquery : queryValue p values (.binaryOp left op right) = (queryValue p values left >>= fun leftVal =>
      queryValue p values right >>= fun rightVal => evaluateBinaryOperation p.operations op leftVal rightVal) := by
    rw [queryValue, evaluate, rightContext_of_isOperatorExpression hop]
    rfl
  rw [hquery, evaluateExpression, hleft, hright, IsCompatible]
  rcases queryValue p values left with failure | v
  · exact iff_of_true rfl nofun
  rcases queryValue p values right with failure | w
  · exact iff_of_true rfl nofun
  change evaluateBinaryOp p.evaluator.overflowChecks op v w = evaluateBinaryOperation p.operations op v w ↔ _
  simpa [Parameters.operations] using binary_agrees_iff

theorem unaryOp_agrees_iff {op : UnaryOperator} {expr : Expression S}
    (hexpr : evaluateExpression p values expr = queryValue p values expr) :
    evaluateExpression p values (.unaryOp op expr) = queryValue p values (.unaryOp op expr) ↔
      IsCompatible p values (.unaryOp op expr) := by
  have hquery : queryValue p values (.unaryOp op expr) = (queryValue p values expr >>= fun innerVal =>
      evaluateUnaryOperation p.operations op innerVal) := by
    rw [queryValue, evaluate]
    rfl
  rw [hquery, evaluateExpression, hexpr, IsCompatible]
  rcases queryValue p values expr with failure | v
  · exact iff_of_true rfl nofun
  change evaluateUnaryOp p.evaluator.overflowChecks op v = evaluateUnaryOperation p.operations op v ↔ _
  simpa [Parameters.operations] using unary_agrees_iff

/-- All parts of an expression have the value that they have in a query exactly if its variables are bound and its
operators are applied to values on which the evaluators agree. -/
theorem evaluateExpression_eq_iff (p : Parameters S) (values : HashMap String Value) {e : Expression S}
    (he : IsOperatorExpression e) :
    (∀ d, IsPart d e →
        evaluateExpression p values d = evaluate p.operations (.withColumns values) d) ↔
      ∀ d, IsPart d e → IsCompatible p values d := by
  change (∀ d, IsPart d e → evaluateExpression p values d = queryValue p values d) ↔ _
  induction he with
  | value v => 
    rw [forall_isPart_value, forall_isPart_value]
    exact iff_of_true rfl trivial
  | literal v => 
    rw [forall_isPart_literal, forall_isPart_literal]
    exact iff_of_true rfl trivial
  | «variable» name =>
    rw [forall_isPart_column, forall_isPart_column]
    exact column_agrees_iff
  | binaryOp op hleft hright ihleft ihright =>
    rw [forall_isPart_binaryOp, forall_isPart_binaryOp, ← ihleft, ← ihright]
    refine and_congr_right fun ⟨hl, hr⟩ => ?_
    exact binaryOp_agrees_iff hright (hl _ .whole) (hr _ .whole)
  | unaryOp op hexpr ih =>
    rw [forall_isPart_unaryOp, forall_isPart_unaryOp, ← ih]
    exact and_congr_right fun h => unaryOp_agrees_iff (h _ .whole)

end Evaluators

end Agreement

section Examples

/-- No functions, and no nested calls -/
def noFunctions : Parameters Unit := ⟨fun _ _ => .ok .null, ExpressionEvaluator.noParameters, 0⟩

/-- One and a bound variable that is one are equal for both evaluators. -/
theorem evaluateExpression_eq_ones :
    let _texts : DebugText := ⟨fun _ => "", fun _ => "", fun _ => ""⟩
    let _floats : FloatOperators := ExpressionEvaluator.noFloats
    let e : Expression Unit := .binaryOp (.value (.integer 1)) .equals (.column none "x")
    let values := (∅ : HashMap String Value).insert "x" (.integer 1)
    IsOperatorExpression e ∧ ((∀ d, IsPart d e →
        evaluateExpression noFunctions values d = evaluate noFunctions.operations (.withColumns values) d) ↔
      ∀ d, IsPart d e → IsCompatible noFunctions values d) := by
  intro _texts _floats e values
  have he : IsOperatorExpression e := .binaryOp .equals (.value _) (.variable "x")
  exact ⟨he, evaluateExpression_eq_iff noFunctions values he⟩

/-- NULL = NULL is true in procedures, and NULL in queries. -/
theorem not_evaluateExpression_eq_nulls :
    let _texts : DebugText := ⟨fun _ => "", fun _ => "", fun _ => ""⟩
    let _floats : FloatOperators := ExpressionEvaluator.noFloats
    ¬ ∀ (values : HashMap String Value) (e : Expression Unit), IsOperatorExpression e →
      evaluateExpression noFunctions values e = evaluate noFunctions.operations (.withColumns values) e := by
  intro _texts _floats h
  have hnulls := h ∅ (.binaryOp (.value .null) .equals (.value .null)) (.binaryOp .equals (.value _) (.value _))
  have hprocedure : evaluateExpression noFunctions ∅ (.binaryOp (.value .null) .equals (.value .null)) =
      .ok (.boolean true) := rfl
  have hquery : evaluate noFunctions.operations (.withColumns ∅) (.binaryOp (.value .null) .equals (.value .null)) =
      .ok .null := rfl
  rw [hprocedure, hquery] at hnulls
  cases hnulls

end Examples

end ProcedureExecutor

end Rustgresql
