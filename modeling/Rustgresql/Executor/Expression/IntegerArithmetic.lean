import Rustgresql.Executor.Expression.Comparison

/-!
# Integer arithmetic

Expressions over integers with the four operations, unary minus and ABS. `evaluatesExactly_iff`: they have their
exact values in all builds if and only if no operation on the way leaves the range of `i64`.
-/

namespace Rustgresql

open Sql (BinaryOperator)

namespace ExpressionEvaluator

variable {S : Type}

inductive ArithmeticOperator
  | add | subtract | multiply | divide
  deriving DecidableEq

namespace ArithmeticOperator

def operator : ArithmeticOperator → BinaryOperator
  | add => .add
  | subtract => .subtract
  | multiply => .multiply
  | divide => .divide

/-- The exact result. There is none of a division by zero. -/
def exact : ArithmeticOperator → ℤ → ℤ → Option ℤ
  | add, a, b => some (a + b)
  | subtract, a, b => some (a - b)
  | multiply, a, b => some (a * b)
  | divide, a, b => if b = 0 then none else some (a.tdiv b)

end ArithmeticOperator

/-- An expression over integers -/
inductive IntegerTree
  | value (i : Int64)
  | operation (op : ArithmeticOperator) (left right : IntegerTree)
  | minus (t : IntegerTree)
  | abs (t : IntegerTree)

namespace IntegerTree

def expression : IntegerTree → Expression S
  | value i => .value (.integer i.toInt)
  | operation op left right => .binaryOp left.expression op.operator right.expression
  | minus t => .unaryOp .minus t.expression
  | abs t => .function "ABS" [t.expression] false

/-- How deep the calls of ABS are nested -/
def callDepth : IntegerTree → ℕ
  | value _ => 0
  | operation _ left right => max left.callDepth right.callDepth
  | minus t => t.callDepth
  | abs t => t.callDepth + 1

/-- The exact value. NULL has none, and ABS does not take it. -/
def exact : IntegerTree → Result (Option ℤ)
  | value i => .ok (some i.toInt)
  | operation op left right => do
    let x ← left.exact
    let y ← right.exact
    return x.bind fun a => y.bind (op.exact a)
  | minus t => do
    let x ← t.exact
    return x.map (- ·)
  | abs t => do
    match ← t.exact with
    | some a => return some |a|
    | none => throw (.err (.type "ABS function requires numeric argument"))

/-- No operation on the way to the exact value leaves the range of `i64`. -/
def Fits : IntegerTree → Prop
  | value _ => True
  | operation op left right => left.Fits ∧ ∀ x, left.exact = .ok x → right.Fits ∧
    ∀ y, right.exact = .ok y → ∀ a ∈ x, ∀ b ∈ y, ∀ n ∈ op.exact a b, I64.InRange n
  | minus t => t.Fits ∧ ∀ a, t.exact = .ok (some a) → I64.InRange (-a)
  | abs t => t.Fits ∧ ∀ a, t.exact = .ok (some a) → I64.InRange |a|

end IntegerTree

/-- The value of an integer or NULL -/
def ofInteger : Option ℤ → Value
  | some a => .integer a
  | none => .null

/-- The expression returns its exact value or an `Err`, with and without overflow checks. With them it would panic
if any operation left the range. -/
def EvaluatesExactly [FloatOperators] [DebugText] (p : EvaluatorParameters S) (depth : ℕ) (t : IntegerTree) : Prop :=
  ∀ overflowChecks context, evaluate (evaluatorOperations { p with overflowChecks } depth) context t.expression =
    ofInteger <$> t.exact

/-- An exact value is not a panic. -/
theorem exact_ne_panic (t : IntegerTree) (msg : String) : t.exact ≠ .error (.panic msg) := by
  induction t with
  | value i => exact nofun
  | operation op left right ihl ihr =>
    rw [IntegerTree.exact]
    rcases hl : left.exact with e | x
    · exact fun h => ihl (hl.trans h)
    · rcases hr : right.exact with e | y
      · exact fun h => ihr (hr.trans h)
      · exact nofun
  | minus t ih =>
    rw [IntegerTree.exact]
    rcases ht : t.exact with e | x
    · exact fun h => ih (ht.trans h)
    · exact nofun
  | abs t ih =>
    rw [IntegerTree.exact]
    rcases ht : t.exact with e | (- | a)
    · exact fun h => ih (ht.trans h)
    · exact nofun
    · exact nofun

theorem inRange_of_checked (operation : String) {n : ℤ}
    (h : ∀ msg, Value.integer <$> I64.checked true operation n ≠ .error (.panic msg)) : I64.InRange n := by
  by_contra hrange
  refine h s!"attempt to {operation} with overflow" ?_
  rw [I64.checked, if_neg hrange]
  rfl

theorem rightContext_operator (op : ArithmeticOperator) (e : Expression S) (context : Context) :
    rightContext op.operator e context = context := by
  cases op <;> rfl

section Operations

variable [FloatOperators] [DebugText] {p : EvaluatorParameters S} {depth : ℕ} {op : ArithmeticOperator} {a b : ℤ}

/-- The operators on integers -/
theorem evaluateOperator_integers : evaluateOperator p op.operator (.integer a) (.integer b) =
    match op with
    | .add => Value.integer <$> I64.checked p.overflowChecks "add" (a + b)
    | .subtract => Value.integer <$> I64.checked p.overflowChecks "subtract" (a - b)
    | .multiply => Value.integer <$> I64.checked p.overflowChecks "multiply" (a * b)
    | .divide => if b = 0 then .ok .null else Value.integer <$> I64.div a b := by
  cases op <;> rfl

theorem evaluateOperator_of_inRange (h : ∀ n ∈ op.exact a b, I64.InRange n) :
    evaluateOperator p op.operator (.integer a) (.integer b) = .ok (ofInteger (op.exact a b)) := by
  rw [evaluateOperator_integers]
  cases op
  case divide =>
    dsimp only
    rw [ArithmeticOperator.exact] at h ⊢
    split_ifs with hb
    · rfl
    · rw [if_neg hb] at h
      rw [I64.div_of hb (h _ rfl)]
      rfl
  all_goals
    dsimp only
    rw [I64.checked_of (h _ rfl)]
    rfl

/-- With overflow checks what leaves the range panics. -/
theorem inRange_of_no_panic (hchecks : p.overflowChecks = true)
    (h : ∀ msg, evaluateOperator p op.operator (.integer a) (.integer b) ≠ .error (.panic msg)) :
    ∀ n ∈ op.exact a b, I64.InRange n := by
  intro n hn
  rw [evaluateOperator_integers, hchecks] at h
  cases op
  case divide =>
    dsimp only at h
    rw [ArithmeticOperator.exact] at hn
    split_ifs at hn h with hb
    · cases hn
    · cases hn
      by_contra hrange
      refine h "attempt to divide with overflow" ?_
      rw [I64.div, if_neg hb, if_neg hrange]
      rfl
  all_goals
    cases hn
    exact inRange_of_checked _ h

/-- An operation on integers or NULLs -/
theorem evaluateBinaryOperation_ofInteger (x y : Option ℤ) (op : ArithmeticOperator) :
    evaluateBinaryOperation (evaluatorOperations p depth) op.operator (ofInteger x) (ofInteger y) =
      match x, y with
      | some a, some b => evaluateOperator p op.operator (.integer a) (.integer b)
      | _, _ => .ok .null := by
  rcases x with - | a
  · cases op <;> rfl
  · rcases y with - | b
    · cases op <;> rfl
    · exact evaluateBinaryOperation_of_not_null rfl rfl (by cases op <;> decide)

end Operations

section Trees

variable [FloatOperators] [DebugText] {p : EvaluatorParameters S} {depth : ℕ} {context : Context}

theorem evaluate_abs (habs : p.toUppercase "ABS" = "ABS") (t : IntegerTree) :
    evaluate (evaluatorOperations p (depth + 1)) context (t.abs.expression : Expression S) = (do
      match ← evaluate (evaluatorOperations p depth) context t.expression with
      | .integer i => Value.integer <$> I64.abs p.overflowChecks i
      | .float x => return .float (floatAbs x)
      | _ => throw (.err (.type "ABS function requires numeric argument"))) := by
  rw [IntegerTree.expression, evaluate, evaluateFunction, evaluatorOperations_toUppercase, habs,
    if_neg (by decide)]
  show evaluateScalarFunction _ _ _ _ _ = _
  unfold evaluateScalarFunction
  rw [evaluatorOperations_toUppercase, habs]
  rfl

theorem evaluateUnaryOperation_minus (x : Option ℤ) (h : ∀ a ∈ x, I64.InRange (-a)) :
    evaluateUnaryOperation (evaluatorOperations p depth) .minus (ofInteger x) = .ok (ofInteger (x.map (- ·))) := by
  rw [evaluateUnaryOperation, evaluatorOperations_sign]
  rcases x with - | a
  · rfl
  · exact congrArg (Value.integer <$> ·) (I64.checked_of (h a rfl))

/-- An expression whose operations stay in the range has its exact value. -/
theorem evaluate_of_fits (habs : p.toUppercase "ABS" = "ABS") {t : IntegerTree} (hdepth : t.callDepth ≤ depth)
    (h : t.Fits) : evaluate (evaluatorOperations p depth) context t.expression = ofInteger <$> t.exact := by
  induction t generalizing depth with
  | value i =>
    rw [IntegerTree.expression, evaluate]
    rfl
  | operation op left right ihl ihr =>
    rw [IntegerTree.callDepth, max_le_iff] at hdepth
    rw [IntegerTree.expression, evaluate, rightContext_operator, ihl hdepth.1 h.1, IntegerTree.exact]
    rcases hl : left.exact with e | x
    · rfl
    · obtain ⟨hright, hresult⟩ := h.2 x hl
      rw [ihr hdepth.2 hright]
      rcases hr : right.exact with e | y
      · rfl
      · show evaluateBinaryOperation _ _ _ _ = _
        rw [evaluateBinaryOperation_ofInteger]
        rcases x with - | a
        · rfl
        · rcases y with - | b
          · rfl
          · exact evaluateOperator_of_inRange (hresult _ hr a rfl b rfl)
  | minus t ih =>
    rw [IntegerTree.expression, evaluate, ih hdepth h.1, IntegerTree.exact]
    rcases ht : t.exact with e | (- | a)
    · rfl
    · exact evaluateUnaryOperation_minus none fun _ hnone => by cases hnone
    · exact evaluateUnaryOperation_minus (some a) fun b hb => Option.some.inj hb ▸ h.2 a ht
  | abs t ih =>
    obtain ⟨depth, rfl⟩ := Nat.exists_eq_add_of_le' (Nat.le_of_add_left_le hdepth)
    rw [evaluate_abs habs, ih (Nat.le_of_succ_le_succ hdepth) h.1, IntegerTree.exact]
    rcases ht : t.exact with e | (- | a)
    · rfl
    · rfl
    · exact congrArg (Value.integer <$> ·) (I64.checked_of (h.2 a ht))

/-- An expression that does not panic with overflow checks stays in the range. -/
theorem fits_of_no_panic (habs : p.toUppercase "ABS" = "ABS") (hchecks : p.overflowChecks = true) {t : IntegerTree}
    (hdepth : t.callDepth ≤ depth)
    (h : ∀ msg, evaluate (evaluatorOperations p depth) context t.expression ≠ .error (.panic msg)) : t.Fits := by
  induction t generalizing depth with
  | value i => trivial
  | operation op left right ihl ihr =>
    rw [IntegerTree.callDepth, max_le_iff] at hdepth
    rw [IntegerTree.expression, evaluate, rightContext_operator] at h
    have hleft : left.Fits := ihl hdepth.1 fun msg hpanic => h msg (by rw [hpanic]; rfl)
    refine ⟨hleft, fun x hx => ?_⟩
    rw [evaluate_of_fits habs hdepth.1 hleft, hx] at h
    have hright : right.Fits := ihr hdepth.2 fun msg hpanic => h msg (by rw [hpanic]; rfl)
    refine ⟨hright, ?_⟩
    rintro y hy a rfl b rfl
    rw [evaluate_of_fits habs hdepth.2 hright, hy] at h
    refine inRange_of_no_panic hchecks fun msg hpanic => h msg ?_
    exact (evaluateBinaryOperation_ofInteger (some a) (some b) op).trans hpanic
  | minus t ih =>
    rw [IntegerTree.expression, evaluate] at h
    have hdepth' : t.callDepth ≤ depth := hdepth
    have ht : t.Fits := ih hdepth' fun msg hpanic => h msg (by rw [hpanic]; rfl)
    refine ⟨ht, fun a ha => inRange_of_checked "negate" fun msg hpanic => h msg ?_⟩
    rw [evaluate_of_fits habs hdepth' ht, ha, ← hpanic, ← hchecks]
    show evaluateUnaryOperation (evaluatorOperations p depth) .minus (.integer a) = _
    rw [evaluateUnaryOperation, evaluatorOperations_sign]
    rfl
  | abs t ih =>
    obtain ⟨depth, rfl⟩ := Nat.exists_eq_add_of_le' (Nat.le_of_add_left_le hdepth)
    have hdepth' := Nat.le_of_succ_le_succ hdepth
    rw [evaluate_abs habs] at h
    have ht : t.Fits := ih hdepth' fun msg hpanic => h msg (by rw [hpanic]; rfl)
    refine ⟨ht, fun a ha => inRange_of_checked "negate" fun msg hpanic => h msg ?_⟩
    rw [evaluate_of_fits habs hdepth' ht, ha, ← hpanic, ← hchecks]
    rfl

end Trees

/-- An expression has its exact value in all builds if and only if no operation on the way leaves the range. -/
theorem evaluatesExactly_iff [FloatOperators] [DebugText] {p : EvaluatorParameters S}
    (habs : p.toUppercase "ABS" = "ABS") {t : IntegerTree} {depth : ℕ} (hdepth : t.callDepth ≤ depth) :
    EvaluatesExactly p depth t ↔ t.Fits := by
  constructor
  · intro h
    have hparameters : ({ p with overflowChecks := true } : EvaluatorParameters S).toUppercase "ABS" = "ABS" := habs
    have hpanics (msg : String) : evaluate (evaluatorOperations { p with overflowChecks := true } depth) (.withColumns ∅)
        t.expression ≠ .error (.panic msg) := by
      intro hpanic
      rw [h true] at hpanic
      rcases ht : t.exact with e | x
      · rw [ht] at hpanic
        have hfailure : e = .panic msg := Except.error.inj hpanic
        exact exact_ne_panic t msg (by rw [ht, hfailure])
      · rw [ht] at hpanic
        cases hpanic
    exact fits_of_no_panic hparameters rfl hdepth hpanics
  · intro h overflowChecks context
    have hparameters : ({ p with overflowChecks } : EvaluatorParameters S).toUppercase "ABS" = "ABS" := habs
    exact evaluate_of_fits hparameters hdepth h

/-- `-(-1) + ABS(-2)` -/
def smallTree : IntegerTree := .operation .add (.minus (.value (-1))) (.abs (.value (-2)))

/-- `-` of the least integer -/
def minusLeast : IntegerTree := .minus (.value Int64.minValue)

theorem evaluatesExactly_small : letI : FloatOperators := noFloats
    letI : DebugText := ⟨fun _ => "", fun _ => "", fun _ => ""⟩
    EvaluatesExactly noParameters 1 smallTree := by
  let operators : FloatOperators := noFloats
  let texts : DebugText := ⟨fun _ => "", fun _ => "", fun _ => ""⟩
  have habs : noParameters.toUppercase "ABS" = "ABS" := by decide
  have hin {n : ℤ} (hmin : -1000 ≤ n) (hmax : n ≤ 1000) : I64.InRange n := by
    unfold I64.InRange I64.min I64.max
    omega
  refine (evaluatesExactly_iff habs (by decide)).mpr ⟨⟨trivial, ?_⟩, ?_⟩
  · intro a ha
    cases ha
    exact hin (by decide) (by decide)
  · intro x hx
    cases hx
    refine ⟨⟨trivial, ?_⟩, ?_⟩
    · intro a ha
      cases ha
      exact hin (by decide) (by decide)
    · intro y hy a ha b hb n hn
      cases hy
      cases ha
      cases hb
      cases hn
      exact hin (by decide) (by decide)

/-- The negation of the least integer is not reported. -/
theorem minus_least_overflows : ¬ ∀ (_ : FloatOperators) (_ : DebugText) (S : Type) (p : EvaluatorParameters S)
    (depth : ℕ) (t : IntegerTree), p.toUppercase "ABS" = "ABS" → t.callDepth ≤ depth → EvaluatesExactly p depth t := by
  intro h
  let texts : DebugText := ⟨fun _ => "", fun _ => "", fun _ => ""⟩
  have heval := h noFloats texts Unit noParameters 0 minusLeast (by decide) (by decide) true (.withColumns ∅)
  cases heval

end ExpressionEvaluator

end Rustgresql
