import Rustgresql.Executor.AggregateOutput

/-!
# Calls of aggregate functions in expressions

`evaluate_replaceCalls`: where the calls of an expression have their values, it evaluates as if they were
replaced by them.
-/

namespace Rustgresql

open ExpressionEvaluator

open Sql (OrderBy WindowFrame WindowFrameBound)

namespace Expression

variable {S : Type}

/-- A call of COUNT, SUM, AVG, MIN or MAX -/
structure AggregateCall (ops : Operations S) where
  name : String
  args : List (Expression S)
  distinct : Bool
  isAggregate : IsAggregateName (ops.toUppercase name)

def AggregateCall.expr {ops : Operations S} (c : AggregateCall ops) : Expression S := .function c.name c.args c.distinct

/-! ## Calls -/

variable {ops : Operations S} {r : AggregateCall ops → Expression S}

mutual

/-- The expression with each call of an aggregate function replaced. -/
def replaceCalls (ops : Operations S) (r : AggregateCall ops → Expression S) : Expression S → Expression S
  | .function name args distinct =>
    if h : IsAggregateName (ops.toUppercase name) then r ⟨name, args, distinct, h⟩
    else .function name (replaceCallsAll ops r args) distinct
  | .windowFunction ⟨name, args, ⟨partitionBy, orderBy, windowFrame⟩⟩ =>
    .windowFunction ⟨name, replaceCallsAll ops r args, ⟨replaceCallsAll ops r partitionBy,
      replaceCallsItems ops r orderBy, replaceCallsFrame ops r windowFrame⟩⟩
  | .binaryOp left op right => .binaryOp (replaceCalls ops r left) op (replaceCalls ops r right)
  | .unaryOp op expr => .unaryOp op (replaceCalls ops r expr)
  | .cast expr dataType => .cast (replaceCalls ops r expr) dataType
  | .list es => .list (replaceCallsAll ops r es)
  | .case base branches elseResult => .case (replaceCallsOption ops r base) (replaceCallsBranches ops r branches)
    (replaceCallsOption ops r elseResult)
  | .column table name => .column table name
  | .value v => .value v
  | .literal v => .literal v
  | .subquery query => .subquery query
  | .exists query negated => .exists query negated
  | .star => .star
  | .parameter n => .parameter n

def replaceCallsAll (ops : Operations S) (r : AggregateCall ops → Expression S) : List (Expression S) → List (Expression S)
  | [] => []
  | e :: es => replaceCalls ops r e :: replaceCallsAll ops r es

def replaceCallsOption (ops : Operations S) (r : AggregateCall ops → Expression S) :
    Option (Expression S) → Option (Expression S)
  | none => none
  | some e => some (replaceCalls ops r e)

def replaceCallsBranches (ops : Operations S) (r : AggregateCall ops → Expression S) :
    List (Expression S × Expression S) → List (Expression S × Expression S)
  | [] => []
  | (condition, result) :: branches =>
    (replaceCalls ops r condition, replaceCalls ops r result) :: replaceCallsBranches ops r branches

def replaceCallsItems (ops : Operations S) (r : AggregateCall ops → Expression S) :
    List (OrderBy (Expression S)) → List (OrderBy (Expression S))
  | [] => []
  | ⟨e, direction, nulls⟩ :: items => ⟨replaceCalls ops r e, direction, nulls⟩ :: replaceCallsItems ops r items

def replaceCallsBound (ops : Operations S) (r : AggregateCall ops → Expression S) :
    WindowFrameBound (Expression S) → WindowFrameBound (Expression S)
  | .preceding e => .preceding (replaceCalls ops r e)
  | .following e => .following (replaceCalls ops r e)
  | .currentRow => .currentRow
  | .unboundedPreceding => .unboundedPreceding
  | .unboundedFollowing => .unboundedFollowing

def replaceCallsEnd (ops : Operations S) (r : AggregateCall ops → Expression S) :
    Option (WindowFrameBound (Expression S)) → Option (WindowFrameBound (Expression S))
  | none => none
  | some bound => some (replaceCallsBound ops r bound)

def replaceCallsFrame (ops : Operations S) (r : AggregateCall ops → Expression S) :
    Option (WindowFrame (Expression S)) → Option (WindowFrame (Expression S))
  | none => none
  | some ⟨mode, start, last⟩ => some ⟨mode, replaceCallsBound ops r start, replaceCallsEnd ops r last⟩

end

mutual

/-- The calls of aggregate functions in an expression. -/
def calls (ops : Operations S) : Expression S → List (AggregateCall ops)
  | .function name args distinct =>
    if h : IsAggregateName (ops.toUppercase name) then [⟨name, args, distinct, h⟩] else callsAll ops args
  | .windowFunction ⟨_, args, ⟨partitionBy, orderBy, windowFrame⟩⟩ =>
    callsAll ops args ++ (callsAll ops partitionBy ++ (callsItems ops orderBy ++ callsFrame ops windowFrame))
  | .binaryOp left _ right => calls ops left ++ calls ops right
  | .unaryOp _ expr => calls ops expr
  | .cast expr _ => calls ops expr
  | .list es => callsAll ops es
  | .case base branches elseResult =>
    callsOption ops base ++ (callsBranches ops branches ++ callsOption ops elseResult)
  | .column _ _ => []
  | .value _ => []
  | .literal _ => []
  | .subquery _ => []
  | .exists _ _ => []
  | .star => []
  | .parameter _ => []

def callsAll (ops : Operations S) : List (Expression S) → List (AggregateCall ops)
  | [] => []
  | e :: es => calls ops e ++ callsAll ops es

def callsOption (ops : Operations S) : Option (Expression S) → List (AggregateCall ops)
  | none => []
  | some e => calls ops e

def callsBranches (ops : Operations S) : List (Expression S × Expression S) → List (AggregateCall ops)
  | [] => []
  | (condition, result) :: branches => calls ops condition ++ (calls ops result ++ callsBranches ops branches)

def callsItems (ops : Operations S) : List (OrderBy (Expression S)) → List (AggregateCall ops)
  | [] => []
  | ⟨e, _, _⟩ :: items => calls ops e ++ callsItems ops items

def callsBound (ops : Operations S) : WindowFrameBound (Expression S) → List (AggregateCall ops)
  | .preceding e => calls ops e
  | .following e => calls ops e
  | .currentRow => []
  | .unboundedPreceding => []
  | .unboundedFollowing => []

def callsEnd (ops : Operations S) : Option (WindowFrameBound (Expression S)) → List (AggregateCall ops)
  | none => []
  | some bound => callsBound ops bound

def callsFrame (ops : Operations S) : Option (WindowFrame (Expression S)) → List (AggregateCall ops)
  | none => []
  | some ⟨_, start, last⟩ => callsBound ops start ++ callsEnd ops last

end

/-! ## Replacing -/

mutual

/-- An expression stays as it is if and only if its calls do. -/
theorem replaceCalls_eq_self_iff : ∀ e : Expression S, replaceCalls ops r e = e ↔ ∀ c ∈ calls ops e, r c = c.expr
  | .function name args distinct => by
    rw [replaceCalls, calls]
    split
    · rw [List.forall_mem_singleton]
      rfl
    · simp only [function.injEq, true_and, and_true, replaceCallsAll_eq_self_iff args]
  | .windowFunction ⟨name, args, ⟨partitionBy, orderBy, windowFrame⟩⟩ => by
    simp only [replaceCalls, calls, windowFunction.injEq, WindowFunction.mk.injEq, Sql.WindowClause.mk.injEq,
      true_and, List.forall_mem_append, replaceCallsAll_eq_self_iff args, replaceCallsAll_eq_self_iff partitionBy,
      replaceCallsItems_eq_self_iff orderBy, replaceCallsFrame_eq_self_iff windowFrame]
  | .binaryOp left op right => by
    simp only [replaceCalls, calls, binaryOp.injEq, true_and, List.forall_mem_append,
      replaceCalls_eq_self_iff left, replaceCalls_eq_self_iff right]
  | .unaryOp op expr => by
    simp only [replaceCalls, calls, unaryOp.injEq, true_and, replaceCalls_eq_self_iff expr]
  | .cast expr dataType => by
    simp only [replaceCalls, calls, cast.injEq, and_true, replaceCalls_eq_self_iff expr]
  | .list es => by
    simp only [replaceCalls, calls, list.injEq, replaceCallsAll_eq_self_iff es]
  | .case base branches elseResult => by
    simp only [replaceCalls, calls, case.injEq, List.forall_mem_append, replaceCallsOption_eq_self_iff base,
      replaceCallsBranches_eq_self_iff branches, replaceCallsOption_eq_self_iff elseResult]
  | .column _ _ | .value _ | .literal _ | .subquery _ | .exists _ _ | .star | .parameter _ => by
    simp [replaceCalls, calls]

theorem replaceCallsAll_eq_self_iff : ∀ es : List (Expression S),
    replaceCallsAll ops r es = es ↔ ∀ c ∈ callsAll ops es, r c = c.expr
  | [] => by simp [replaceCallsAll, callsAll]
  | e :: es => by
    simp only [replaceCallsAll, callsAll, List.cons.injEq, List.forall_mem_append, replaceCalls_eq_self_iff e,
      replaceCallsAll_eq_self_iff es]

theorem replaceCallsOption_eq_self_iff : ∀ e : Option (Expression S),
    replaceCallsOption ops r e = e ↔ ∀ c ∈ callsOption ops e, r c = c.expr
  | none => by simp [replaceCallsOption, callsOption]
  | some e => by simp only [replaceCallsOption, callsOption, Option.some.injEq, replaceCalls_eq_self_iff e]

theorem replaceCallsBranches_eq_self_iff : ∀ branches : List (Expression S × Expression S),
    replaceCallsBranches ops r branches = branches ↔ ∀ c ∈ callsBranches ops branches, r c = c.expr
  | [] => by simp [replaceCallsBranches, callsBranches]
  | (condition, result) :: branches => by
    simp only [replaceCallsBranches, callsBranches, List.cons.injEq, Prod.mk.injEq, and_assoc,
      List.forall_mem_append, replaceCalls_eq_self_iff condition, replaceCalls_eq_self_iff result,
      replaceCallsBranches_eq_self_iff branches]

theorem replaceCallsItems_eq_self_iff : ∀ items : List (OrderBy (Expression S)),
    replaceCallsItems ops r items = items ↔ ∀ c ∈ callsItems ops items, r c = c.expr
  | [] => by simp [replaceCallsItems, callsItems]
  | ⟨e, _, _⟩ :: items => by
    simp only [replaceCallsItems, callsItems, List.cons.injEq, OrderBy.mk.injEq, and_true, List.forall_mem_append,
      replaceCalls_eq_self_iff e, replaceCallsItems_eq_self_iff items]

theorem replaceCallsBound_eq_self_iff : ∀ bound : WindowFrameBound (Expression S),
    replaceCallsBound ops r bound = bound ↔ ∀ c ∈ callsBound ops bound, r c = c.expr
  | .preceding e => by
    simp only [replaceCallsBound, callsBound, WindowFrameBound.preceding.injEq, replaceCalls_eq_self_iff e]
  | .following e => by
    simp only [replaceCallsBound, callsBound, WindowFrameBound.following.injEq, replaceCalls_eq_self_iff e]
  | .currentRow | .unboundedPreceding | .unboundedFollowing => by simp [replaceCallsBound, callsBound]

theorem replaceCallsEnd_eq_self_iff : ∀ bound : Option (WindowFrameBound (Expression S)),
    replaceCallsEnd ops r bound = bound ↔ ∀ c ∈ callsEnd ops bound, r c = c.expr
  | none => by simp [replaceCallsEnd, callsEnd]
  | some bound => by
    simp only [replaceCallsEnd, callsEnd, Option.some.injEq, replaceCallsBound_eq_self_iff bound]

theorem replaceCallsFrame_eq_self_iff : ∀ frame : Option (WindowFrame (Expression S)),
    replaceCallsFrame ops r frame = frame ↔ ∀ c ∈ callsFrame ops frame, r c = c.expr
  | none => by simp [replaceCallsFrame, callsFrame]
  | some ⟨mode, start, last⟩ => by
    simp only [replaceCallsFrame, callsFrame, Option.some.injEq, WindowFrame.mk.injEq, true_and,
      List.forall_mem_append, replaceCallsBound_eq_self_iff start, replaceCallsEnd_eq_self_iff last]

end

/-! ## Evaluating -/

/-- A function other than an aggregate function depends on its arguments through their values only. -/
def FunctionsReadValues (ops : Operations S) : Prop :=
  ∀ (name : String) (args args' : List (Expression S)) (context : Context),
    args.map (evaluate ops context) = args'.map (evaluate ops context) →
      ops.function name args context = ops.function name args' context

section Evaluation

variable {context : Context} {valuation : Expression S → Value}

theorem rightContext_of_ne {op : Sql.BinaryOperator} {e : Expression S} (h : ∀ query, e ≠ .subquery query) :
    rightContext op e context = context := by
  unfold rightContext
  split
  · next query => exact absurd rfl (h query)
  · rfl

theorem replaceCalls_ne_subquery {e : Expression S} (h : ∀ query, e ≠ .subquery query) (query : S) :
    replaceCalls ops (fun c => .value (valuation c.expr)) e ≠ .subquery query := by
  cases e
  case subquery query' => exact absurd rfl (h query')
  case function name args distinct =>
    rw [replaceCalls]
    split <;> exact nofun
  all_goals
    rw [replaceCalls]
    exact nofun

theorem evaluateAll_congr {es es' : List (Expression S)} (h : es.map (evaluate ops context) = es'.map (evaluate ops context)) :
    evaluateAll ops context es = evaluateAll ops context es' := by
  induction es generalizing es' with
  | nil => rw [List.map_eq_nil_iff.mp h.symm]
  | cons e es ih =>
    obtain ⟨e', es', rfl, he, hes⟩ := List.map_eq_cons_iff.mp h.symm
    rw [evaluateAll, evaluateAll, ← he, ih hes.symm]

mutual

/-- Where the calls of an expression have their values, it evaluates as if they were replaced by them. -/
theorem evaluate_replaceCalls (hfun : FunctionsReadValues ops) : ∀ (e : Expression S),
    (∀ c ∈ calls ops e, evaluate ops context c.expr = .ok (valuation c.expr)) →
    evaluate ops context (replaceCalls ops (fun c => .value (valuation c.expr)) e) = evaluate ops context e
  | .function name args distinct, h => by
    rw [replaceCalls]
    rw [calls] at h
    split
    · next hname =>
      rw [dif_pos hname] at h
      exact (evaluate.eq_1 ops context _).trans (h _ List.mem_cons_self).symm
    · next hname =>
      rw [dif_neg hname] at h
      rw [evaluate, evaluate, evaluateFunction, evaluateFunction, if_neg hname, if_neg hname]
      exact hfun name _ _ context (map_evaluate_replaceCallsAll hfun args h)
  | .windowFunction ⟨name, args, ⟨partitionBy, orderBy, windowFrame⟩⟩, _ => by
    rw [replaceCalls, evaluate, evaluate]
  | .binaryOp left op right, h => by
    simp only [calls, List.forall_mem_append] at h
    have hright : evaluate ops (rightContext op (replaceCalls ops (fun c => .value (valuation c.expr)) right) context)
        (replaceCalls ops (fun c => .value (valuation c.expr)) right) =
        evaluate ops (rightContext op right context) right := by
      by_cases hquery : ∃ query, right = .subquery query
      · obtain ⟨query, rfl⟩ := hquery
        rw [replaceCalls]
      · have hne := not_exists.mp hquery
        rw [rightContext_of_ne hne, rightContext_of_ne (replaceCalls_ne_subquery hne),
          evaluate_replaceCalls hfun right h.2]
    rw [replaceCalls, evaluate, evaluate, evaluate_replaceCalls hfun left h.1, hright]
  | .unaryOp op expr, h => by
    rw [replaceCalls, evaluate, evaluate, evaluate_replaceCalls hfun expr h]
  | .cast expr dataType, h => by
    rw [replaceCalls, evaluate, evaluate, evaluate_replaceCalls hfun expr h]
  | .list es, h => by
    rw [replaceCalls, evaluate, evaluate, evaluateAll_congr (map_evaluate_replaceCallsAll hfun es h)]
  | .case base branches elseResult, h => by
    simp only [calls, List.forall_mem_append] at h
    simp only [replaceCalls, evaluate, evaluateOption_replaceCalls hfun base h.1,
      evaluateBranches_replaceCalls hfun branches h.2.1, evaluateOption_replaceCalls hfun elseResult h.2.2]
  | .column _ _, _ | .value _, _ | .literal _, _ | .subquery _, _ | .exists _ _, _ | .star, _
  | .parameter _, _ => by rw [replaceCalls]

theorem map_evaluate_replaceCallsAll (hfun : FunctionsReadValues ops) : ∀ (es : List (Expression S)),
    (∀ c ∈ callsAll ops es, evaluate ops context c.expr = .ok (valuation c.expr)) →
    (replaceCallsAll ops (fun c => .value (valuation c.expr)) es).map (evaluate ops context) =
      es.map (evaluate ops context)
  | [], _ => by rw [replaceCallsAll]
  | e :: es, h => by
    rw [callsAll, List.forall_mem_append] at h
    rw [replaceCallsAll, List.map_cons, List.map_cons, evaluate_replaceCalls hfun e h.1,
      map_evaluate_replaceCallsAll hfun es h.2]

theorem evaluateOption_replaceCalls (hfun : FunctionsReadValues ops) : ∀ (e : Option (Expression S)),
    (∀ c ∈ callsOption ops e, evaluate ops context c.expr = .ok (valuation c.expr)) →
    evaluateOption ops context (replaceCallsOption ops (fun c => .value (valuation c.expr)) e) =
      evaluateOption ops context e
  | none, _ => by rw [replaceCallsOption]
  | some e, h => by rw [replaceCallsOption, evaluateOption, evaluateOption, evaluate_replaceCalls hfun e h]

theorem evaluateBranches_replaceCalls (hfun : FunctionsReadValues ops) {base : Option Value} :
    ∀ (branches : List (Expression S × Expression S)),
    (∀ c ∈ callsBranches ops branches, evaluate ops context c.expr = .ok (valuation c.expr)) →
    evaluateBranches ops context base (replaceCallsBranches ops (fun c => .value (valuation c.expr)) branches) =
      evaluateBranches ops context base branches
  | [], _ => by rw [replaceCallsBranches]
  | (condition, result) :: branches, h => by
    simp only [callsBranches, List.forall_mem_append] at h
    simp only [replaceCallsBranches, evaluateBranches, evaluate_replaceCalls hfun condition h.1,
      evaluate_replaceCalls hfun result h.2.1, evaluateBranches_replaceCalls hfun branches h.2.2]

end

end Evaluation

end Expression

end Rustgresql
