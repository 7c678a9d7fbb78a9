import Rustgresql.Executor.Expression.Lookup
import Rustgresql.Executor.Subquery

/-!
# References in expressions

What an expression looks up in a context are columns, and the columns that the subqueries in it name.
`evaluate_replaceColumns`: where some of them have given values, it evaluates as if they were replaced by these.
-/

namespace Rustgresql

open ExpressionEvaluator SubqueryOperator

variable {S : Type}

/-- A column, or a column that is passed on to a subquery -/
inductive Reference
  | column (table : Option String) (name : String)
  | passed (table name : String)

namespace Reference

def table : Reference → Option String
  | column table _ => table
  | passed table _ => some table

def name : Reference → String
  | column _ name => name
  | passed _ name => name

/-- A column that is not found is NULL, but it is not passed on. -/
def value (context : Context) : Reference → Result (Option Value)
  | column table name => some <$> columnValue context table name
  | passed table name => .ok (outerValue context.columns (table, name))

end Reference

namespace Expression

mutual

/-- The expression with columns replaced by their values -/
def replaceColumns (σ : Option String → String → Option Value) : Expression S → Expression S
  | .column table name =>
    match σ table name with
    | some v => .value v
    | none => .column table name
  | .function name args distinct => .function name (replaceColumnsAll σ args) distinct
  | .binaryOp left op right => .binaryOp (replaceColumns σ left) op (replaceColumns σ right)
  | .unaryOp op expr => .unaryOp op (replaceColumns σ expr)
  | .cast expr dataType => .cast (replaceColumns σ expr) dataType
  | .list es => .list (replaceColumnsAll σ es)
  | .case base branches elseResult => .case (replaceColumnsOption σ base) (replaceColumnsBranches σ branches)
    (replaceColumnsOption σ elseResult)
  | .windowFunction f => .windowFunction f
  | .value v => .value v
  | .literal v => .literal v
  | .subquery query => .subquery query
  | .exists query negated => .exists query negated
  | .star => .star
  | .parameter n => .parameter n

def replaceColumnsAll (σ : Option String → String → Option Value) : List (Expression S) → List (Expression S)
  | [] => []
  | e :: es => replaceColumns σ e :: replaceColumnsAll σ es

def replaceColumnsOption (σ : Option String → String → Option Value) : Option (Expression S) → Option (Expression S)
  | none => none
  | some e => some (replaceColumns σ e)

def replaceColumnsBranches (σ : Option String → String → Option Value) :
    List (Expression S × Expression S) → List (Expression S × Expression S)
  | [] => []
  | (condition, result) :: branches =>
    (replaceColumns σ condition, replaceColumns σ result) :: replaceColumnsBranches σ branches

end

mutual

/-- What the evaluation of an expression looks up. The calls of aggregate functions are looked up by their keys. -/
def references (toUppercase : String → String) (statement : S → SubqueryStatement S) : Expression S → List Reference
  | .column table name => [.column table name]
  | .function name args _ =>
    if IsAggregateName (toUppercase name) then [] else referencesAll toUppercase statement args
  | .binaryOp left _ right => references toUppercase statement left ++ references toUppercase statement right
  | .unaryOp _ expr => references toUppercase statement expr
  | .cast expr _ => references toUppercase statement expr
  | .list es => referencesAll toUppercase statement es
  | .case base branches elseResult => referencesOption toUppercase statement base ++
    (referencesBranches toUppercase statement branches ++ referencesOption toUppercase statement elseResult)
  | .subquery query => (findCorrelatedColumnsInSubquery (statement query)).map fun column => .passed column.1 column.2
  | .exists query _ => (findCorrelatedColumnsInSubquery (statement query)).map fun column => .passed column.1 column.2
  | .windowFunction _ => []
  | .value _ => []
  | .literal _ => []
  | .star => []
  | .parameter _ => []

def referencesAll (toUppercase : String → String) (statement : S → SubqueryStatement S) :
    List (Expression S) → List Reference
  | [] => []
  | e :: es => references toUppercase statement e ++ referencesAll toUppercase statement es

def referencesOption (toUppercase : String → String) (statement : S → SubqueryStatement S) :
    Option (Expression S) → List Reference
  | none => []
  | some e => references toUppercase statement e

def referencesBranches (toUppercase : String → String) (statement : S → SubqueryStatement S) :
    List (Expression S × Expression S) → List Reference
  | [] => []
  | (condition, result) :: branches => references toUppercase statement condition ++
    (references toUppercase statement result ++ referencesBranches toUppercase statement branches)

end

/-! ## Replacing -/

/-- A subquery with some of the columns that it names replaced by values -/
def replacedSubquery (σ : Option String → String → Option Value) (statement : S → SubqueryStatement S)
    (run : S → HashMap String Value → Result QueryResult) (subquery : S) (context : Context) : Result Value := do
  let value := fun column : String × String => (σ (some column.1) column.2).or (outerValue context.columns column)
  let result ← run subquery (injectColumns value (findCorrelatedColumnsInSubquery (statement subquery)))
  subqueryValue context.subqueryContext result

theorem injectColumns_congr {α : Type} {value value' : String × String → Option α} {columns : List (String × String)}
    (h : ∀ column ∈ columns, value column = value' column) : injectColumns value columns = injectColumns value' columns := by
  refine List.foldl_ext _ _ _ fun values column hcolumn => ?_
  rw [injectColumn, injectColumn, h column hcolumn]

section Evaluation

/-- A reference has its value, or else the one that it has in another context. -/
def HasValue (σ : Option String → String → Option Value) (columns columns' : EvaluationContext) (r : Reference) : Prop :=
  ∀ subqueryContext, r.value (.ofColumns subqueryContext columns) =
    match σ r.table r.name with
    | some v => .ok (some v)
    | none => r.value (.ofColumns subqueryContext columns')

/-- Operations that agree on values, and on functions and subqueries whose references have their values -/
structure Agree (σ : Option String → String → Option Value) (columns columns' : EvaluationContext)
    (statement : S → SubqueryStatement S) (ops ops' : Operations S) : Prop where
  binary : ops'.binary = ops.binary
  sign : ops'.sign = ops.sign
  cast : ops'.cast = ops.cast
  toUppercase : ops'.toUppercase = ops.toUppercase
  function : ∀ name args subqueryContext,
    (∀ r ∈ referencesAll ops.toUppercase statement args, HasValue σ columns columns' r) →
      ops.function name args (.ofColumns subqueryContext columns) =
        ops'.function name (replaceColumnsAll σ args) (.ofColumns subqueryContext columns')
  subquery : ∀ query subqueryContext,
    (∀ column ∈ findCorrelatedColumnsInSubquery (statement query), HasValue σ columns columns' (.passed column.1 column.2)) →
      ops.subquery query (.ofColumns subqueryContext columns) = ops'.subquery query (.ofColumns subqueryContext columns')

variable {σ : Option String → String → Option Value} {columns columns' : EvaluationContext}
  {statement : S → SubqueryStatement S} {ops ops' : Operations S}

theorem evaluateBinaryOperation_of_agree (h : Agree σ columns columns' statement ops ops') (op : Sql.BinaryOperator)
    (left right : Value) : evaluateBinaryOperation ops' op left right = evaluateBinaryOperation ops op left right := by
  unfold evaluateBinaryOperation
  rw [h.binary]

theorem evaluateUnaryOperation_of_agree (h : Agree σ columns columns' statement ops ops') (op : UnaryOperator)
    (operand : Value) : evaluateUnaryOperation ops' op operand = evaluateUnaryOperation ops op operand := by
  unfold evaluateUnaryOperation
  rw [h.sign]

theorem eq_of_map_some {x y : Result Value} (h : some <$> x = some <$> y) : x = y := by
  rcases x with e | v <;> rcases y with e' | w
  · exact congrArg Except.error (Except.error.inj h)
  · cases h
  · cases h
  · exact congrArg Except.ok (Option.some.inj (Except.ok.inj h))

/-- IN takes a subquery for a list. -/
def rightSubqueryContext (op : Sql.BinaryOperator) (right : Expression S) (subqueryContext : Option SubqueryContext) :
    Option SubqueryContext :=
  match op, right with
  | .in, .subquery _ => some .inClause
  | _, _ => subqueryContext

theorem rightContext_ofColumns (op : Sql.BinaryOperator) (right : Expression S) (subqueryContext : Option SubqueryContext)
    (columns : EvaluationContext) : rightContext op right (.ofColumns subqueryContext columns) =
      .ofColumns (rightSubqueryContext op right subqueryContext) columns := by
  cases op
  case «in» => cases right <;> rfl
  all_goals rfl

theorem rightSubqueryContext_replaceColumns (op : Sql.BinaryOperator) (right : Expression S)
    (subqueryContext : Option SubqueryContext) :
    rightSubqueryContext op (replaceColumns σ right) subqueryContext = rightSubqueryContext op right subqueryContext := by
  cases right
  case column table name =>
    rw [replaceColumns]
    cases op
    case «in» => cases σ table name <;> rfl
    all_goals rfl
  all_goals cases op <;> rfl

mutual

/-- Where the references of an expression have their values, it evaluates as if they were replaced by them. -/
theorem evaluate_replaceColumns (hagree : Agree σ columns columns' statement ops ops') :
    ∀ (e : Expression S) (subqueryContext : Option SubqueryContext),
    (∀ r ∈ references ops.toUppercase statement e, HasValue σ columns columns' r) →
    evaluate ops (.ofColumns subqueryContext columns) e =
      evaluate ops' (.ofColumns subqueryContext columns') (replaceColumns σ e)
  | .column table name, subqueryContext, h => by
    have hvalue : some <$> columnValue (.ofColumns subqueryContext columns) table name =
        match σ table name with
        | some v => .ok (some v)
        | none => some <$> columnValue (.ofColumns subqueryContext columns') table name :=
      h (.column table name) List.mem_cons_self subqueryContext
    rw [evaluate, replaceColumns]
    rcases hσ : σ table name with - | v
    · rw [hσ] at hvalue
      exact (eq_of_map_some hvalue).trans (evaluate.eq_3 ..).symm
    · rw [hσ] at hvalue
      exact (eq_of_map_some hvalue).trans (evaluate.eq_1 ..).symm
  | .function name args distinct, subqueryContext, h => by
    rw [references] at h
    rw [replaceColumns, evaluate, evaluate, evaluateFunction, evaluateFunction, hagree.toUppercase]
    split_ifs with hname
    · rfl
    · rw [if_neg hname] at h
      exact hagree.function name args subqueryContext h
  | .binaryOp left op right, subqueryContext, h => by
    rw [references, List.forall_mem_append] at h
    rw [replaceColumns, evaluate, evaluate, rightContext_ofColumns, rightContext_ofColumns,
      rightSubqueryContext_replaceColumns, evaluate_replaceColumns hagree left _ h.1,
      evaluate_replaceColumns hagree right _ h.2]
    simp only [evaluateBinaryOperation_of_agree hagree]
  | .unaryOp op expr, subqueryContext, h => by
    rw [references] at h
    rw [replaceColumns, evaluate, evaluate, evaluate_replaceColumns hagree expr _ h]
    simp only [evaluateUnaryOperation_of_agree hagree]
  | .cast expr dataType, subqueryContext, h => by
    rw [references] at h
    rw [replaceColumns, evaluate, evaluate, evaluate_replaceColumns hagree expr _ h, hagree.cast]
  | .list es, subqueryContext, h => by
    rw [references] at h
    rw [replaceColumns, evaluate, evaluate, evaluateAll_replaceColumnsAll hagree es _ h]
  | .case base branches elseResult, subqueryContext, h => by
    simp only [references, List.forall_mem_append] at h
    simp only [replaceColumns, evaluate, evaluateOption_replaceColumnsOption hagree base _ h.1,
      evaluateBranches_replaceColumnsBranches hagree branches _ h.2.1,
      evaluateOption_replaceColumnsOption hagree elseResult _ h.2.2]
  | .subquery query, subqueryContext, h => by
    rw [references, List.forall_mem_map] at h
    rw [replaceColumns, evaluate, evaluate]
    exact hagree.subquery query subqueryContext h
  | .exists query negated, subqueryContext, h => by
    rw [references, List.forall_mem_map] at h
    rw [replaceColumns, evaluate, evaluate]
    have hsubquery := hagree.subquery query (some .exists) h
    dsimp only [Context.ofColumns, Context.withColumns] at hsubquery ⊢
    rw [hsubquery]
  | .windowFunction _, _, _ | .value _, _, _ | .literal _, _, _ | .star, _, _ | .parameter _, _, _ => by
    rw [replaceColumns, evaluate, evaluate]

theorem evaluateOption_replaceColumnsOption (hagree : Agree σ columns columns' statement ops ops') :
    ∀ (e : Option (Expression S)) (subqueryContext : Option SubqueryContext),
    (∀ r ∈ referencesOption ops.toUppercase statement e, HasValue σ columns columns' r) →
    evaluateOption ops (.ofColumns subqueryContext columns) e =
      evaluateOption ops' (.ofColumns subqueryContext columns') (replaceColumnsOption σ e)
  | none, _, _ => by rw [replaceColumnsOption, evaluateOption, evaluateOption]
  | some e, subqueryContext, h => by
    rw [replaceColumnsOption, evaluateOption, evaluateOption, evaluate_replaceColumns hagree e _ h]

theorem evaluateAll_replaceColumnsAll (hagree : Agree σ columns columns' statement ops ops') :
    ∀ (es : List (Expression S)) (subqueryContext : Option SubqueryContext),
    (∀ r ∈ referencesAll ops.toUppercase statement es, HasValue σ columns columns' r) →
    evaluateAll ops (.ofColumns subqueryContext columns) es =
      evaluateAll ops' (.ofColumns subqueryContext columns') (replaceColumnsAll σ es)
  | [], _, _ => by rw [replaceColumnsAll, evaluateAll, evaluateAll]
  | e :: es, subqueryContext, h => by
    rw [referencesAll, List.forall_mem_append] at h
    rw [replaceColumnsAll, evaluateAll, evaluateAll, evaluate_replaceColumns hagree e _ h.1,
      evaluateAll_replaceColumnsAll hagree es _ h.2]

theorem evaluateBranches_replaceColumnsBranches (hagree : Agree σ columns columns' statement ops ops') {base : Option Value} :
    ∀ (branches : List (Expression S × Expression S)) (subqueryContext : Option SubqueryContext),
    (∀ r ∈ referencesBranches ops.toUppercase statement branches, HasValue σ columns columns' r) →
    evaluateBranches ops (.ofColumns subqueryContext columns) base branches =
      evaluateBranches ops' (.ofColumns subqueryContext columns') base (replaceColumnsBranches σ branches)
  | [], _, _ => by rw [replaceColumnsBranches, evaluateBranches, evaluateBranches]
  | (condition, result) :: branches, subqueryContext, h => by
    simp only [referencesBranches, List.forall_mem_append] at h
    simp only [replaceColumnsBranches, evaluateBranches, branchTaken, hagree.binary,
      evaluate_replaceColumns hagree condition _ h.1, evaluate_replaceColumns hagree result _ h.2.1,
      evaluateBranches_replaceColumnsBranches hagree branches _ h.2.2]

end

end Evaluation

/-! ## The evaluator -/

theorem evaluateCoalesce_congr {ops ops' : Operations S} {context context' : Context} {args args' : List (Expression S)}
    (h : args.map (evaluate ops context) = args'.map (evaluate ops' context')) :
    evaluateCoalesce ops context args = evaluateCoalesce ops' context' args' := by
  induction args generalizing args' with
  | nil =>
    rw [List.map_eq_nil_iff.mp h.symm]
    rfl
  | cons e es ih =>
    obtain ⟨e', es', rfl, he, hes⟩ := List.map_eq_cons_iff.mp h.symm
    rw [evaluateCoalesce, evaluateCoalesce, he, ih hes.symm]

theorem evaluateScalarFunction_congr [FloatOperators] {ops ops' : Operations S} (hupper : ops'.toUppercase = ops.toUppercase)
    {context context' : Context} {args args' : List (Expression S)}
    (h : args.map (evaluate ops context) = args'.map (evaluate ops' context')) (overflowChecks : Bool) (name : String) :
    evaluateScalarFunction overflowChecks ops name args context =
      evaluateScalarFunction overflowChecks ops' name args' context' := by
  have hcoalesce := evaluateCoalesce_congr h
  unfold evaluateScalarFunction
  rw [hupper]
  -- the functions take one or two arguments, or any number
  rcases args with - | ⟨a, - | ⟨b, - | ⟨c, rest⟩⟩⟩ <;> rcases args' with - | ⟨a', - | ⟨b', - | ⟨c', rest'⟩⟩⟩ <;>
    simp only [List.map_cons, List.map_nil, List.cons.injEq, reduceCtorEq, and_false, and_true] at h
  · split <;> first | rfl | contradiction
  · split <;> simp_all
  · split <;> simp_all
  · split <;> simp_all

theorem map_evaluate_replaceColumnsAll {σ : Option String → String → Option Value} {columns columns' : EvaluationContext}
    {statement : S → SubqueryStatement S} {ops ops' : Operations S} (hagree : Agree σ columns columns' statement ops ops')
    (es : List (Expression S)) (subqueryContext : Option SubqueryContext)
    (h : ∀ r ∈ referencesAll ops.toUppercase statement es, HasValue σ columns columns' r) :
    es.map (evaluate ops (.ofColumns subqueryContext columns)) =
      (replaceColumnsAll σ es).map (evaluate ops' (.ofColumns subqueryContext columns')) := by
  induction es with
  | nil => rfl
  | cons e es ih =>
    rw [referencesAll, List.forall_mem_append] at h
    rw [replaceColumnsAll, List.map_cons, List.map_cons, evaluate_replaceColumns hagree e _ h.1, ih h.2]

/-- The evaluators that differ in what their subqueries get -/
theorem agree_evaluatorOperations [FloatOperators] [DebugText] (p : EvaluatorParameters S)
    (σ : Option String → String → Option Value) (columns columns' : EvaluationContext)
    (statement : S → SubqueryStatement S) (run : S → HashMap String Value → Result QueryResult) (depth : ℕ) :
    Agree σ columns columns' statement (evaluatorOperations { p with subquery := evaluateSubquery statement run } depth)
      (evaluatorOperations { p with subquery := replacedSubquery σ statement run } depth) := by
  have hbinary (op : Sql.BinaryOperator) : evaluateOperator { p with subquery := replacedSubquery σ statement run } op =
      evaluateOperator { p with subquery := evaluateSubquery statement run } op := by
    cases op <;> rfl
  have hsubquery (query : S) (subqueryContext : Option SubqueryContext)
      (h : ∀ column ∈ findCorrelatedColumnsInSubquery (statement query),
        HasValue σ columns columns' (.passed column.1 column.2)) :
      evaluateSubquery statement run query (.ofColumns subqueryContext columns) =
        replacedSubquery σ statement run query (.ofColumns subqueryContext columns') := by
    have hcolumns : injectColumns (outerValue columns) (findCorrelatedColumnsInSubquery (statement query)) =
        injectColumns (fun column => (σ (some column.1) column.2).or (outerValue columns' column))
          (findCorrelatedColumnsInSubquery (statement query)) := by
      refine injectColumns_congr fun column hcolumn => ?_
      have hvalue : Except.ok (ε := Failure) (outerValue columns column) =
          match σ (some column.1) column.2 with
          | some v => .ok (some v)
          | none => .ok (outerValue columns' column) := h column hcolumn none
      rcases hσ : σ (some column.1) column.2 with - | v
      · rw [hσ] at hvalue
        exact Except.ok.inj hvalue
      · rw [hσ] at hvalue
        exact Except.ok.inj hvalue
    rw [evaluateSubquery, replacedSubquery]
    dsimp only [Context.ofColumns, Context.withColumns]
    rw [hcolumns]
  induction depth with
  | zero => exact ⟨funext hbinary, rfl, rfl, rfl, fun _ _ _ _ => rfl, hsubquery⟩
  | succ depth ih =>
    refine ⟨funext hbinary, rfl, rfl, rfl, fun name args subqueryContext h => ?_, hsubquery⟩
    refine evaluateScalarFunction_congr ih.toUppercase (map_evaluate_replaceColumnsAll ih args subqueryContext ?_) _ name
    rwa [evaluatorOperations_toUppercase]

end Expression

end Rustgresql
