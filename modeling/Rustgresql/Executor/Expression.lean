import Rustgresql.Executor.Scanner
import Rustgresql.Sql.Ast

/-!
# Expression evaluation engine (`executor/expression.rs`)

Columns, literals, the logical operators and the calls of aggregate functions. The other operators and
functions, casts and subqueries are parameters of the evaluator.

`evaluate_eq_kleene_iff`: an expression over AND, OR and NOT gets its three-valued value exactly if it
has no NULL operand or that value is NULL itself. A NULL operand is answered with NULL before the
three-valued tables are asked.
-/

namespace Rustgresql

open Sql (BinaryOperator WindowClause)

/-- Unary operators -/
inductive UnaryOperator
  | not | minus | plus | exists | notExists
  deriving DecidableEq

/-- Window function call -/
structure WindowFunction (E : Type) where
  name : String
  args : List E
  windowClause : WindowClause E

/-- Expression in SQL, over the subqueries in it -/
inductive Expression (S : Type)
  | column (table : Option String) (name : String)
  | value (v : Value)
  | literal (v : Value)
  | function (name : String) (args : List (Expression S)) (distinct : Bool)
  | windowFunction (f : WindowFunction (Expression S))
  | binaryOp (left : Expression S) (op : BinaryOperator) (right : Expression S)
  | unaryOp (op : UnaryOperator) (expr : Expression S)
  | cast (expr : Expression S) (dataType : DataTypeKind)
  | subquery (query : S)
  | exists (subquery : S) (negated : Bool)
  | list (es : List (Expression S))
  | star
  | parameter (n : ℕ)
  | case (base : Option (Expression S)) (branches : List (Expression S × Expression S))
    (elseResult : Option (Expression S))

/-- Context for subquery evaluation to determine how results should be processed -/
inductive SubqueryContext
  | inClause | scalar | exists
  deriving DecidableEq

/-! ## Three-valued logic -/

/-- Three-valued logic result (SQL boolean logic with NULL) -/
inductive ThreeValuedLogic
  | true | false | unknown
  deriving DecidableEq

namespace ThreeValuedLogic

def fromValue : Value → ThreeValuedLogic
  | .null => unknown
  | v => if v.isTrue then true else false

def toValue : ThreeValuedLogic → Value
  | true => .boolean Bool.true
  | false => .boolean Bool.false
  | unknown => .null

def and : ThreeValuedLogic → ThreeValuedLogic → ThreeValuedLogic
  | false, _ => false
  | _, false => false
  | unknown, _ => unknown
  | _, unknown => unknown
  | true, true => true

def or : ThreeValuedLogic → ThreeValuedLogic → ThreeValuedLogic
  | true, _ => true
  | _, true => true
  | unknown, _ => unknown
  | _, unknown => unknown
  | false, false => false

def not : ThreeValuedLogic → ThreeValuedLogic
  | true => false
  | false => true
  | unknown => unknown

/-- The truth values in their order, from false over unknown to true. -/
def sign : ThreeValuedLogic → SignType
  | true => 1
  | false => -1
  | unknown => 0

theorem sign_and (a b : ThreeValuedLogic) : (a.and b).sign = min a.sign b.sign := by
  cases a <;> cases b <;> rfl

theorem sign_or (a b : ThreeValuedLogic) : (a.or b).sign = max a.sign b.sign := by
  cases a <;> cases b <;> rfl

theorem sign_not (a : ThreeValuedLogic) : a.not.sign = -a.sign := by
  cases a <;> rfl

end ThreeValuedLogic

namespace ExpressionEvaluator

/-- Evaluation context for expression evaluation -/
structure Context where
  columns : HashMap String Value
  rowData : Option Row
  leftRow : Option Row
  rightRow : Option Row
  leftColumns : Option (List String)
  rightColumns : Option (List String)
  subqueryContext : Option SubqueryContext
  /-- Aggregate function values for HAVING clause evaluation -/
  havingAggregates : Option (HashMap String Value)

def Context.withColumns (columns : EvaluationContext) : Context :=
  ⟨columns, none, none, none, none, none, none, none⟩

/-! ## Columns -/

/-- Index into a row. -/
def valueAt (row : Row) (i : ℕ) : Result Value :=
  match row[i]? with
  | some v => .ok v
  | none => .error (.panic s!"index out of bounds: the len is {row.length} but the index is {i}")

/-- What follows the first dot of a name. -/
def afterDot (name : String) : Option (List Char) :=
  match name.toList.dropWhile (· ≠ '.') with
  | [] => none
  | _ :: rest => some rest

/-- A value found in one side of a join. -/
def sideValue (row : Option Row) (columns : Option (List String)) (name : String) :
    Option (Result Value) :=
  match row, columns with
  | some row, some columns => (columns.findIdx? (· = name)).map (valueAt row)
  | _, _ => none

/-- A column with a table in front: under its full name, under the name that joins give it, in any table,
in the joined rows, or without a table. -/
def qualifiedValue (context : Context) (table name : String) : Result Value :=
  let inColumns := fun key : String => (context.columns.lookup key).map Except.ok
  let inAnyTable := (context.columns.pairs.find? fun p => afterDot p.1 = some name.toList).map
    fun p => Except.ok p.2
  ((inColumns (table ++ "." ++ name)).or <| (inColumns ("left." ++ name)).or <|
    (inColumns ("right." ++ name)).or <| inAnyTable.or <|
    (sideValue context.leftRow context.leftColumns name).or <|
    (sideValue context.rightRow context.rightColumns name).or (inColumns name)).getD (.ok .null)

/-- A column without a table. -/
def unqualifiedValue (context : Context) (name : String) : Result Value :=
  match context.columns.lookup name, context.rowData with
  | some v, _ => .ok v
  | none, some row =>
    match (context.columns.pairs.map Prod.fst).findIdx? (· = name) with
    | some i => valueAt row i
    | none => .ok .null
  | none, none => .ok .null

/-- A column that is not found is NULL. -/
def columnValue (context : Context) : Option String → String → Result Value
  | some table, name => qualifiedValue context table name
  | none, name => unqualifiedValue context name

/-! ## Operations -/

/-- What the evaluator does besides columns and logic. -/
structure Operations (S : Type) where
  /-- The operators other than AND and OR -/
  binary : BinaryOperator → Value → Value → Result Value
  /-- Unary minus and plus -/
  sign : UnaryOperator → Value → Result Value
  cast : Value → DataTypeKind → Result Value
  /-- The functions other than aggregate functions -/
  function : String → List (Expression S) → Context → Result Value
  subquery : S → Context → Result Value
  /-- `str::to_uppercase` -/
  toUppercase : String → String

variable {S : Type}

/-- Handle NULL values in binary operations according to SQL three-valued logic -/
def handleNullInBinaryOperation : BinaryOperator → Result Value
  | .and | .or => .ok ThreeValuedLogic.unknown.toValue
  | _ => .ok .null

/-- Evaluate a binary operation with proper type checking and NULL handling -/
def evaluateBinaryOperation (ops : Operations S) (op : BinaryOperator) (left right : Value) :
    Result Value :=
  -- IS and IS NOT operators handle NULLs specifically
  if op ≠ .is ∧ op ≠ .isNot ∧ (left.isNull ∨ right.isNull) then handleNullInBinaryOperation op
  else match op with
    | .and => .ok ((ThreeValuedLogic.fromValue left).and (ThreeValuedLogic.fromValue right)).toValue
    | .or => .ok ((ThreeValuedLogic.fromValue left).or (ThreeValuedLogic.fromValue right)).toValue
    | op => ops.binary op left right

/-- Evaluate a unary operation -/
def evaluateUnaryOperation (ops : Operations S) (op : UnaryOperator) (operand : Value) : Result Value :=
  match op with
  | .not => .ok (ThreeValuedLogic.fromValue operand).not.toValue
  | .minus | .plus => ops.sign op operand
  | .exists => .error (.err (.invalidOperation
    "EXISTS should be handled as EXISTS expression, not as unary operator"))
  | .notExists => .error (.err (.invalidOperation
    "NOT EXISTS should be handled as EXISTS expression, not as unary operator"))

/-- The context for the right side of an operator. -/
def rightContext (op : BinaryOperator) (right : Expression S) (context : Context) : Context :=
  match op, right with
  | .in, .subquery _ => { context with subqueryContext := some .inClause }
  | _, _ => context

/-- Whether a branch of CASE is taken. With a base the values are compared by `=`. -/
def branchTaken (ops : Operations S) (base : Option Value) (condition : Value) : Result Bool := do
  let v ← match base with
    | some baseValue => ops.binary .equals baseValue condition
    | none => pure condition
  return ThreeValuedLogic.fromValue v = .true

/-- What stands for an argument in the key of a function call. -/
def argumentKey (ops : Operations S) : Expression S → String
  | .column _ name => ops.toUppercase name
  | .literal _ => "LITERAL"
  | _ => "EXPR"

/-- The key of a function call among the aggregate values. -/
def functionKey (ops : Operations S) (name : String) (args : List (Expression S)) : String :=
  ops.toUppercase name ++ "(" ++ ",".intercalate (args.map (argumentKey ops)) ++ ")"

/-- The name of an aggregate function, in upper case -/
def IsAggregateName (name : String) : Prop := name ∈ ["COUNT", "SUM", "AVG", "MIN", "MAX"]

instance : DecidablePred IsAggregateName := fun name => inferInstanceAs (Decidable (name ∈ _))

/-- The calls of aggregate functions are looked up among the aggregate values that HAVING has. -/
def evaluateFunction (ops : Operations S) (name : String) (args : List (Expression S)) (context : Context) :
    Result Value :=
  if IsAggregateName (ops.toUppercase name) then
    match context.havingAggregates.bind fun aggregates => aggregates.lookup (functionKey ops name args) with
    | some v => .ok v
    | none => .error (.err (.invalidOperation
      s!"Aggregate function '{name}' cannot be evaluated directly. Use GROUP BY or aggregate context."))
  else ops.function name args context

mutual

/-- Evaluate an expression in the given context -/
def evaluate (ops : Operations S) (context : Context) : Expression S → Result Value
  | .value v => .ok v
  | .literal v => .ok v
  | .column table name => columnValue context table name
  | .binaryOp left op right => do
    let leftVal ← evaluate ops context left
    let rightVal ← evaluate ops (rightContext op right context) right
    evaluateBinaryOperation ops op leftVal rightVal
  | .unaryOp op expr => do
    let innerVal ← evaluate ops context expr
    evaluateUnaryOperation ops op innerVal
  | .cast expr dataType => do
    let v ← evaluate ops context expr
    ops.cast v dataType
  | .function name args _ => evaluateFunction ops name args context
  | .list es => do
    let values ← evaluateAll ops context es
    return .list values
  | .star => .error (.err (.invalidOperation "STAR expression not supported in this context"))
  | .parameter _ => .error (.err (.invalidOperation "Parameters not yet supported"))
  | .subquery query => ops.subquery query context
  | .windowFunction _ => .error (.err (.invalidOperation
    "Window functions must be evaluated by WindowOperator"))
  | .case base branches elseResult => do
    let baseValue ← evaluateOption ops context base
    match ← evaluateBranches ops context baseValue branches with
    | some v => return v
    | none => return (← evaluateOption ops context elseResult).getD .null
  | .exists query negated => do
    let found ← ops.subquery query { context with subqueryContext := some .exists }
    if negated then
      match found with
      | .boolean b => return .boolean !b
      | _ => throw (.err (.invalidOperation "EXISTS subquery did not return boolean value"))
    else return found

def evaluateOption (ops : Operations S) (context : Context) :
    Option (Expression S) → Result (Option Value)
  | none => .ok none
  | some e => do
    let v ← evaluate ops context e
    return some v

def evaluateAll (ops : Operations S) (context : Context) : List (Expression S) → Result (List Value)
  | [] => .ok []
  | e :: es => do
    let v ← evaluate ops context e
    let vs ← evaluateAll ops context es
    return v :: vs

/-- The result of the first branch that is taken. -/
def evaluateBranches (ops : Operations S) (context : Context) (base : Option Value) :
    List (Expression S × Expression S) → Result (Option Value)
  | [] => .ok none
  | (condition, result) :: branches => do
    let conditionVal ← evaluate ops context condition
    if ← branchTaken ops base conditionVal then
      let v ← evaluate ops context result
      return some v
    else evaluateBranches ops context base branches

end

/-- A call of an aggregate function has the value under its key. -/
theorem evaluate_aggregateCall {ops : Operations S} {context : Context} {name : String} {args : List (Expression S)}
    {distinct : Bool} {aggregates : HashMap String Value} {v : Value}
    (hname : IsAggregateName (ops.toUppercase name)) (hcontext : context.havingAggregates = some aggregates)
    (hlookup : aggregates.lookup (functionKey ops name args) = some v) :
    evaluate ops context (.function name args distinct) = .ok v := by
  rw [evaluate, evaluateFunction, if_pos hname, hcontext, Option.bind_some, hlookup]

/-! ## Logical expressions -/

/-- Boolean or NULL -/
def isTruthValue : Value → Bool
  | .boolean _ | .null => true
  | _ => false

/-- The value of a sign. -/
def ofSign : SignType → Value
  | .pos => .boolean true
  | .neg => .boolean false
  | .zero => .null

/-- An expression over AND, OR and NOT whose literals and columns are Boolean or NULL. -/
def IsLogical (context : Context) : Expression S → Prop
  | .value v => isTruthValue v
  | .literal v => isTruthValue v
  | .column table name => ∃ v, columnValue context table name = .ok v ∧ isTruthValue v
  | .binaryOp left op right => (op = .and ∨ op = .or) ∧ IsLogical context left ∧ IsLogical context right
  | .unaryOp op expr => op = .not ∧ IsLogical context expr
  | _ => False

/-- A literal or a column of the expression is NULL. -/
def HasNull (context : Context) : Expression S → Prop
  | .value v => v.isNull
  | .literal v => v.isNull
  | .column table name => columnValue context table name = .ok .null
  | .binaryOp left _ right => HasNull context left ∨ HasNull context right
  | .unaryOp _ expr => HasNull context expr
  | _ => False

/-- The truth of a value. -/
def truth (v : Value) : SignType := (ThreeValuedLogic.fromValue v).sign

/-- Kleene's value of a logical expression: AND is the minimum, OR the maximum and NOT the negation. -/
def kleene (context : Context) : Expression S → SignType
  | .value v => truth v
  | .literal v => truth v
  | .column table name =>
    match columnValue context table name with
    | .ok v => truth v
    | .error _ => 0
  | .binaryOp left op right =>
    if op = .and then min (kleene context left) (kleene context right)
    else max (kleene context left) (kleene context right)
  | .unaryOp _ expr => -kleene context expr
  | _ => 0

variable {ops : Operations S} {context : Context}

theorem evaluateBinaryOperation_null {op : BinaryOperator} (hop : op = .and ∨ op = .or) {left right : Value}
    (h : left.isNull ∨ right.isNull) : evaluateBinaryOperation ops op left right = .ok .null := by
  obtain rfl | rfl := hop <;> simp [evaluateBinaryOperation, h, handleNullInBinaryOperation,
    ThreeValuedLogic.toValue]

theorem evaluateBinaryOperation_boolean (ops : Operations S) {op : BinaryOperator} (hop : op = .and ∨ op = .or) (a b : Bool) :
    ∃ c, evaluateBinaryOperation ops op (.boolean a) (.boolean b) = .ok (.boolean c) ∧
      truth (.boolean c) = if op = .and then min (truth (.boolean a)) (truth (.boolean b))
        else max (truth (.boolean a)) (truth (.boolean b)) := by
  obtain rfl | rfl := hop
  · exact ⟨a && b, by cases a <;> cases b <;> rfl, by cases a <;> cases b <;> rfl⟩
  · exact ⟨a || b, by cases a <;> cases b <;> rfl, by cases a <;> cases b <;> rfl⟩

theorem evaluateUnaryOperation_not (ops : Operations S) (b : Bool) :
    evaluateUnaryOperation ops .not (.boolean b) = .ok (.boolean !b) ∧
      truth (.boolean !b) = -truth (.boolean b) := by
  cases b <;> exact ⟨rfl, rfl⟩

/-- The value of a truth value is NULL, or it is TRUE or FALSE. -/
theorem null_or_boolean {v : Value} (h : isTruthValue v) : v = .null ∨ ∃ b, v = .boolean b := by
  unfold isTruthValue at h
  split at h
  · exact .inr ⟨_, rfl⟩
  · exact .inl rfl
  · cases h

theorem ofSign_truth (b : Bool) : ofSign (truth (.boolean b)) = .boolean b := by
  cases b <;> rfl

theorem ofSign_eq_null {s : SignType} : ofSign s = .null ↔ s = 0 := by
  cases s <;> simp [ofSign]

/-- A logical expression is answered with NULL if there is a NULL in it, and with Kleene's value
otherwise. -/
theorem evaluate_logical : ∀ {e : Expression S}, IsLogical context e →
    (HasNull context e ∧ evaluate ops context e = .ok .null) ∨
      (¬ HasNull context e ∧ ∃ b, evaluate ops context e = .ok (.boolean b) ∧
        kleene context e = truth (.boolean b))
  | .value v, h | .literal v, h => by
    rcases null_or_boolean h with rfl | ⟨b, rfl⟩
    · exact .inl ⟨rfl, by rw [evaluate]⟩
    · exact .inr ⟨nofun, b, by rw [evaluate], by rw [kleene]⟩
  | .column table name, h => by
    obtain ⟨v, hv, htruth⟩ := h
    rcases null_or_boolean htruth with rfl | ⟨b, rfl⟩
    · exact .inl ⟨hv, by rw [evaluate, hv]⟩
    · refine .inr ⟨fun hnull => ?_, b, by rw [evaluate, hv], by rw [kleene, hv]⟩
      cases hv.symm.trans hnull
  | .unaryOp op expr, h => by
    obtain ⟨rfl, h⟩ := h
    rcases evaluate_logical h with ⟨hnull, heval⟩ | ⟨hnull, b, heval, htruth⟩
    · refine .inl ⟨hnull, ?_⟩
      rw [evaluate, heval]
      rfl
    · obtain ⟨hnot, hsign⟩ := evaluateUnaryOperation_not ops b
      refine .inr ⟨hnull, !b, ?_, ?_⟩
      · rw [evaluate, heval]
        exact hnot
      · rw [kleene, htruth, hsign]
  | .binaryOp left op right, h => by
    obtain ⟨hop, hleft, hright⟩ := h
    have hcontext : rightContext op right context = context := by
      obtain rfl | rfl := hop <;> rfl
    have hrun {l r : Value} (hl : evaluate ops context left = .ok l)
        (hr : evaluate ops context right = .ok r) :
        evaluate ops context (.binaryOp left op right) = evaluateBinaryOperation ops op l r := by
      rw [evaluate, hcontext, hl, hr]
      rfl
    rcases evaluate_logical hleft with ⟨hnull, hl⟩ | ⟨hnull, a, hl, ha⟩
    · -- the left side is NULL, whatever the right side is
      have hr : ∃ r, evaluate ops context right = .ok r := by
        rcases evaluate_logical hright with ⟨-, hr⟩ | ⟨-, b, hr, -⟩
        · exact ⟨_, hr⟩
        · exact ⟨_, hr⟩
      obtain ⟨r, hr⟩ := hr
      refine .inl ⟨.inl hnull, ?_⟩
      rw [hrun hl hr]
      exact evaluateBinaryOperation_null hop (.inl rfl)
    rcases evaluate_logical hright with ⟨hnull', hr⟩ | ⟨hnull', b, hr, hb⟩
    · refine .inl ⟨.inr hnull', ?_⟩
      rw [hrun hl hr]
      exact evaluateBinaryOperation_null hop (.inr rfl)
    · obtain ⟨c, hc, htruth⟩ := evaluateBinaryOperation_boolean ops hop a b
      refine .inr ⟨not_or_intro hnull hnull', c, ?_, ?_⟩
      · rw [hrun hl hr, hc]
      · rw [kleene, ha, hb, htruth]

/-- A logical expression gets Kleene's value if and only if there is no NULL in it or that value is NULL
itself. -/
theorem evaluate_eq_kleene_iff {e : Expression S} (h : IsLogical context e) :
    evaluate ops context e = .ok (ofSign (kleene context e)) ↔
      (HasNull context e → kleene context e = 0) := by
  rcases evaluate_logical h with ⟨hnull, heval⟩ | ⟨hnull, b, heval, htruth⟩
  · rw [heval, Except.ok.injEq, eq_comm, ofSign_eq_null]
    exact ⟨fun hzero _ => hzero, fun hzero => hzero hnull⟩
  · rw [heval, htruth, ofSign_truth]
    exact iff_of_true rfl fun h => absurd h hnull

/-- No operator besides the logical ones. -/
def noOperations : Operations Unit where
  binary _ _ _ := .ok .null
  sign _ v := .ok v
  cast v _ := .ok v
  function _ _ _ := .ok .null
  subquery _ _ := .ok .null
  toUppercase name := String.ofList (name.toList.map Char.toUpper)

/-- TRUE AND NULL is NULL. -/
theorem evaluate_true_and_null : evaluate noOperations (.withColumns ∅)
      (.binaryOp (.value (.boolean true)) .and (.value .null)) = .ok .null := by
  have hlogical : IsLogical (.withColumns ∅)
      (.binaryOp (.value (.boolean true)) .and (.value .null) : Expression Unit) :=
    ⟨.inl rfl, rfl, rfl⟩
  exact (evaluate_eq_kleene_iff hlogical).mpr fun _ => rfl

/-- FALSE AND NULL is NULL, too. -/
theorem evaluate_false_and_null : ¬ ∀ (S : Type) (ops : Operations S) (context : Context)
      (e : Expression S), IsLogical context e →
        evaluate ops context e = .ok (ofSign (kleene context e)) := by
  intro h
  have heval := h Unit noOperations (.withColumns ∅)
    (.binaryOp (.value (.boolean false)) .and (.value .null)) ⟨.inl rfl, rfl, rfl⟩
  cases heval

end ExpressionEvaluator

end Rustgresql
