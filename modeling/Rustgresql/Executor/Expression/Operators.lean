import Rustgresql.Executor.Aggregate
import Rustgresql.I64

/-!
# The operators of the evaluator (`executor/expression.rs`)

Arithmetic, comparison, LIKE, IN, IS and the scalar functions. Casts, subqueries and the regular expressions of
the `regex` crate are parameters.
-/

namespace Rustgresql

/-- The arithmetic of floating-point numbers that expressions use beyond that of aggregates -/
class FloatOperators extends FloatArithmetic where
  sub : UInt64 → UInt64 → UInt64
  mul : UInt64 → UInt64 → UInt64

/-- `<` on floating-point numbers. What is not a number is not comparable. -/
def floatLt (x y : UInt64) : Bool :=
  match floatKey x, floatKey y with
  | some i, some j => i < j
  | _, _ => false

def floatNeg (x : UInt64) : UInt64 := x ^^^ 0x8000000000000000

def floatAbs (x : UInt64) : UInt64 := x &&& 0x7fffffffffffffff

/-- `f64::EPSILON` -/
def floatEpsilon : UInt64 := 0x3cb0000000000000

namespace ExpressionEvaluator

variable {S : Type}

/-- What the operators and functions take from elsewhere -/
structure EvaluatorParameters (S : Type) where
  overflowChecks : Bool
  /-- `Regex::new` of the `regex` crate, and `is_match` of what it returns -/
  regex : String → Except String (String → Bool)
  cast : Value → DataTypeKind → Result Value
  subquery : S → Context → Result Value
  /-- `str::to_uppercase` -/
  toUppercase : String → String

/-! ## Arithmetic and strings -/

section Arithmetic

variable [FloatOperators] (overflowChecks : Bool)

def evaluateAddition : Value → Value → Result Value
  | .integer l, .integer r => Value.integer <$> I64.add overflowChecks l r
  | .float l, .float r => .ok (.float (FloatArithmetic.add l r))
  | .integer l, .float r => .ok (.float (FloatArithmetic.add (FloatArithmetic.ofInt l) r))
  | .float l, .integer r => .ok (.float (FloatArithmetic.add l (FloatArithmetic.ofInt r)))
  | .string l, .string r => .ok (.string (l ++ r))
  | _, _ => .error (.err (.type "Invalid types for addition"))

def evaluateSubtraction : Value → Value → Result Value
  | .integer l, .integer r => Value.integer <$> I64.sub overflowChecks l r
  | .float l, .float r => .ok (.float (FloatOperators.sub l r))
  | .integer l, .float r => .ok (.float (FloatOperators.sub (FloatArithmetic.ofInt l) r))
  | .float l, .integer r => .ok (.float (FloatOperators.sub l (FloatArithmetic.ofInt r)))
  | _, _ => .error (.err (.type "Invalid types for subtraction"))

def evaluateMultiplication : Value → Value → Result Value
  | .integer l, .integer r => Value.integer <$> I64.mul overflowChecks l r
  | .float l, .float r => .ok (.float (FloatOperators.mul l r))
  | .integer l, .float r => .ok (.float (FloatOperators.mul (FloatArithmetic.ofInt l) r))
  | .float l, .integer r => .ok (.float (FloatOperators.mul l (FloatArithmetic.ofInt r)))
  | _, _ => .error (.err (.type "Invalid types for multiplication"))

/-- A division by zero is NULL. -/
def evaluateDivision : Value → Value → Result Value
  | .integer l, .integer r => if r = 0 then .ok .null else Value.integer <$> I64.div l r
  | .float l, .float r => if floatEq r 0 then .ok .null else .ok (.float (FloatArithmetic.div l r))
  | .integer l, .float r =>
    if floatEq r 0 then .ok .null else .ok (.float (FloatArithmetic.div (FloatArithmetic.ofInt l) r))
  | .float l, .integer r => if r = 0 then .ok .null else .ok (.float (FloatArithmetic.div l (FloatArithmetic.ofInt r)))
  | _, _ => .error (.err (.type "Invalid types for division"))

/-- What is not a string is concatenated by its `Debug` text. -/
def evaluateConcatenation [DebugText] : Value → Value → Result Value
  | .string l, .string r => .ok (.string (l ++ r))
  | .string s, right => .ok (.string (s ++ DebugText.value right))
  | left, .string s => .ok (.string (DebugText.value left ++ s))
  | left, right => .ok (.string (DebugText.value left ++ DebugText.value right))

/-- Unary minus and plus -/
def evaluateSign (op : UnaryOperator) (operand : Value) : Result Value :=
  match op, operand with
  | .minus, .integer i => Value.integer <$> I64.neg overflowChecks i
  | .minus, .float x => .ok (.float (floatNeg x))
  | .minus, .null => .ok .null
  | .minus, _ => .error (.err (.invalidOperation "Unary minus not supported for this type"))
  -- Unary plus is a no-op for numeric types
  | _, .integer i => .ok (.integer i)
  | _, .float x => .ok (.float x)
  | _, .null => .ok .null
  | _, _ => .error (.err (.invalidOperation "Unary plus not supported for this type"))

end Arithmetic

/-! ## Comparison -/

section Comparison

variable [FloatOperators]

/-- Whether an integer and a floating-point number are equal up to `EPSILON`. -/
def floatsClose (x y : UInt64) : Bool := floatLt (floatAbs (FloatOperators.sub x y)) floatEpsilon

/-- Values of different kinds are not equal, and neither are timestamps, lists and NULLs. -/
def valuesEqual : Value → Value → Bool
  | .integer l, .integer r => l = r
  | .float l, .float r => floatEq l r
  | .string l, .string r => l = r
  | .boolean l, .boolean r => l = r
  | .integer l, .float r => floatsClose (FloatArithmetic.ofInt l) r
  | .float l, .integer r => floatsClose l (FloatArithmetic.ofInt r)
  | _, _ => false

def evaluateEquals (left right : Value) : Result Value := .ok (.boolean (valuesEqual left right))

def evaluateNotEquals (left right : Value) : Result Value := do
  match ← evaluateEquals left right with
  | .boolean result => return .boolean !result
  | _ => throw (.err (.execution "NOT EQUALS operation failed"))

/-- Unknown becomes NULL. -/
def ofComparison : Option Bool → Value
  | some b => .boolean b
  | none => .null

def lessThan : Value → Value → Option Bool
  | .integer l, .integer r => some (l < r)
  | .float l, .float r => some (floatLt l r)
  | .string l, .string r => some (l < r)
  -- FALSE < TRUE in SQL boolean ordering
  | .boolean l, .boolean r => some (!l && r)
  | .integer l, .float r => some (floatLt (FloatArithmetic.ofInt l) r)
  | .float l, .integer r => some (floatLt l (FloatArithmetic.ofInt r))
  | .timestamp l, .timestamp r => some (l < r)
  -- Incompatible types - return Unknown (NULL)
  | _, _ => none

def evaluateLessThan (left right : Value) : Result Value := .ok (ofComparison (lessThan left right))

def evaluateLessThanOrEquals (left right : Value) : Result Value := do
  let lessThan ← evaluateLessThan left right
  let equals ← evaluateEquals left right
  match lessThan, equals with
  | .boolean lt, .boolean eq => return .boolean (lt || eq)
  -- If either is NULL/Unknown, propagate Unknown
  | .null, _ | _, .null => return .null
  | _, _ => throw (.err (.execution "LESS THAN OR EQUALS operation failed"))

def greaterThan : Value → Value → Option Bool
  | .integer l, .integer r => some (r < l)
  | .float l, .float r => some (floatLt r l)
  | .string l, .string r => some (r < l)
  -- TRUE > FALSE in SQL boolean ordering
  | .boolean l, .boolean r => some (l && !r)
  | .integer l, .float r => some (floatLt r (FloatArithmetic.ofInt l))
  | .float l, .integer r => some (floatLt (FloatArithmetic.ofInt r) l)
  | .timestamp l, .timestamp r => some (r < l)
  -- Incompatible types - return Unknown (NULL)
  | _, _ => none

def evaluateGreaterThan (left right : Value) : Result Value := .ok (ofComparison (greaterThan left right))

def evaluateGreaterThanOrEquals (left right : Value) : Result Value := do
  match ← evaluateLessThan left right with
  | .boolean lt => return .boolean !lt
  -- If Unknown, stay Unknown
  | .null => return .null
  | _ => throw (.err (.execution "GREATER THAN OR EQUALS operation failed"))

/-- IN takes a list, or the string that a subquery returns. -/
def evaluateIn (left right : Value) : Result Value :=
  match right with
  | .list values => .ok (.boolean (values.any (valuesEqual left)))
  | .string rightStr =>
    match left with
    | .string leftStr => .ok (.boolean (leftStr = rightStr))
    | _ => .ok (.boolean false)
  | _ => .error (.err (.type "IN operation requires a list or subquery result"))

/-- For non-NULL values IS is equality. -/
def evaluateIs (left right : Value) : Result Value :=
  match left, right with
  | .null, .null => .ok (.boolean true)
  | .null, _ | _, .null => .ok (.boolean false)
  | left, right => evaluateEquals left right

def evaluateIsNot (left right : Value) : Result Value := do
  match ← evaluateIs left right with
  | .boolean result => return .boolean !result
  | _ => throw (.err (.execution "IS operation failed"))

theorem evaluateNotEquals_eq (v w : Value) : evaluateNotEquals v w =
    .ok (.boolean !valuesEqual v w) := rfl

theorem evaluateLessThanOrEquals_eq (v w : Value) : evaluateLessThanOrEquals v w =
    .ok (ofComparison
      ((lessThan v w).map (· || valuesEqual v w))) := by
  unfold evaluateLessThanOrEquals evaluateLessThan
    evaluateEquals
  rcases lessThan v w with - | lt <;> rfl

theorem evaluateGreaterThanOrEquals_eq (v w : Value) : evaluateGreaterThanOrEquals v w =
    .ok (ofComparison ((lessThan v w).map (!·))) := by
  unfold evaluateGreaterThanOrEquals evaluateLessThan
  rcases lessThan v w with - | lt <;> rfl

theorem evaluateIs_eq (v w : Value) : ∃ b, evaluateIs v w = .ok (.boolean b) := by
  cases v <;> cases w <;> exact ⟨_, rfl⟩

theorem evaluateIsNot_eq (v w : Value) : ∃ b, evaluateIsNot v w = .ok (.boolean b) := by
  obtain ⟨b, hb⟩ := evaluateIs_eq v w
  refine ⟨!b, ?_⟩
  rw [evaluateIsNot, hb]
  rfl

end Comparison

/-! ## Patterns -/

/-- `str::replace` of a character by a text -/
def replaceChar (c : Char) (text : String) (s : String) : String :=
  String.ofList (s.toList.flatMap fun d => if d = c then text.toList else [d])

/-- Convert SQL LIKE pattern to regex -/
def regexPattern (pattern : String) : String := replaceChar '_' "." (replaceChar '%' ".*" pattern)

/-- LIKE, and ILIKE with the flag that ignores the case of letters -/
def matchPattern (p : EvaluatorParameters S) (name flag : String) (left right : Value) : Result Value :=
  match left, right with
  | .string leftStr, .string pattern =>
    match p.regex (flag ++ "^" ++ regexPattern pattern ++ "$") with
    | .ok isMatch => .ok (.boolean (isMatch leftStr))
    | .error e => .error (.err (.invalidOperation s!"Invalid {name} pattern: {e}"))
  | _, _ => .error (.err (.type s!"{name} operation requires string operands"))

def evaluateLike (p : EvaluatorParameters S) : Value → Value → Result Value := matchPattern p "LIKE" ""

def evaluateIlike (p : EvaluatorParameters S) : Value → Value → Result Value := matchPattern p "ILIKE" "(?i)"

/-! ## Functions -/

section Functions

variable [FloatOperators]

/-- The first value that is not NULL -/
def evaluateCoalesce (ops : Operations S) (context : Context) : List (Expression S) → Result Value
  | [] => .ok .null
  | arg :: args => do
    let v ← evaluate ops context arg
    if v.isNull then evaluateCoalesce ops context args else return v

/-- The functions other than aggregate functions, called with an evaluator for their arguments -/
def evaluateScalarFunction (overflowChecks : Bool) (ops : Operations S) (name : String) (args : List (Expression S))
    (context : Context) : Result Value :=
  match ops.toUppercase name, args with
  | "ABS", [arg] => do
    match ← evaluate ops context arg with
    | .integer i => Value.integer <$> I64.abs overflowChecks i
    | .float x => return .float (floatAbs x)
    | _ => throw (.err (.type "ABS function requires numeric argument"))
  | "ABS", _ => .error (.err (.invalidOperation "ABS function requires exactly 1 argument"))
  | "COALESCE", [] => .error (.err (.invalidOperation "COALESCE function requires at least 1 argument"))
  | "COALESCE", args => evaluateCoalesce ops context args
  | "LENGTH", [arg] => do
    match ← evaluate ops context arg with
    | .string s => return .integer s.utf8ByteSize
    | _ => throw (.err (.type "LENGTH function requires string argument"))
  | "LENGTH", _ => .error (.err (.invalidOperation "LENGTH function requires exactly 1 argument"))
  | "NULLIF", [arg1, arg2] => do
    let v ← evaluate ops context arg1
    let w ← evaluate ops context arg2
    -- NULLIF returns NULL if both args are equal, otherwise returns first arg
    if valuesEqual v w then return .null else return v
  | "NULLIF", _ => .error (.err (.invalidOperation "NULLIF function requires exactly 2 arguments"))
  | _, _ => .error (.err (.invalidOperation s!"Unknown function: {name}"))

/-! ## The evaluator -/

variable [DebugText]

/-- The operators other than AND and OR -/
def evaluateOperator (p : EvaluatorParameters S) : Sql.BinaryOperator → Value → Value → Result Value
  | .add => evaluateAddition p.overflowChecks
  | .subtract => evaluateSubtraction p.overflowChecks
  | .multiply => evaluateMultiplication p.overflowChecks
  | .divide => evaluateDivision
  | .concatenate => evaluateConcatenation
  | .equals => evaluateEquals
  | .notEquals => evaluateNotEquals
  | .lessThan => evaluateLessThan
  | .lessThanOrEquals => evaluateLessThanOrEquals
  | .greaterThan => evaluateGreaterThan
  | .greaterThanOrEquals => evaluateGreaterThanOrEquals
  | .like => evaluateLike p
  | .iLike => evaluateIlike p
  | .in => evaluateIn
  | .is => evaluateIs
  | .isNot => evaluateIsNot
  | .and => fun left right => .ok ((ThreeValuedLogic.fromValue left).and (ThreeValuedLogic.fromValue right)).toValue
  | .or => fun left right => .ok ((ThreeValuedLogic.fromValue left).or (ThreeValuedLogic.fromValue right)).toValue

/-- The evaluator for expressions whose calls of functions are nested up to a depth. Every call needs room on
the stack. -/
def evaluatorOperations (p : EvaluatorParameters S) : ℕ → Operations S
  | 0 =>
    { binary := evaluateOperator p
      sign := evaluateSign p.overflowChecks
      cast := p.cast
      function := fun _ _ _ => .error (.panic "stack overflow")
      subquery := p.subquery
      toUppercase := p.toUppercase }
  | depth + 1 =>
    { binary := evaluateOperator p
      sign := evaluateSign p.overflowChecks
      cast := p.cast
      function := evaluateScalarFunction p.overflowChecks (evaluatorOperations p depth)
      subquery := p.subquery
      toUppercase := p.toUppercase }

variable {p : EvaluatorParameters S} {depth : ℕ}

@[simp] theorem evaluatorOperations_binary : (evaluatorOperations p depth).binary = evaluateOperator p := by
  cases depth <;> rfl

@[simp] theorem evaluatorOperations_sign : (evaluatorOperations p depth).sign = evaluateSign p.overflowChecks := by
  cases depth <;> rfl

@[simp] theorem evaluatorOperations_toUppercase : (evaluatorOperations p depth).toUppercase = p.toUppercase := by
  cases depth <;> rfl

end Functions

/-- Floating-point numbers are not computed with. -/
abbrev noFloats : FloatOperators where
  add x _ := x
  div x _ := x
  ofInt _ := 0
  isWhole _ := false
  toInt _ := 0
  sub x _ := x
  mul x _ := x

/-- No regular expressions, casts and subqueries, in a build with overflow checks. -/
def noParameters : EvaluatorParameters Unit where
  overflowChecks := true
  regex _ := .error ""
  cast v _ := .ok v
  subquery _ _ := .ok .null
  toUppercase name := String.ofList (name.toList.map Char.toUpper)

end ExpressionEvaluator

end Rustgresql
