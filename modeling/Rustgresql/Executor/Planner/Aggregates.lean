import Rustgresql.Executor.Planner
import Rustgresql.Executor.Planner.Calls

/-!
# Aggregates in the select list and in HAVING

The planners replace an aggregate call of the select list by a column only if it is the whole expression, and
HAVING finds its calls by their keys. `substitutesAggregates_iff` says when every expression reads the values of
its own calls.
-/

namespace Rustgresql

open ExpressionEvaluator Expression AggregateOperator

variable {S : Type}

namespace QueryPlanner

/-! ## Columns by name -/

section Columns

variable {β : Type} {tableAlias : Option String} {outerValues : HashMap String Value} {columns : List (String × β)}

/-- Columns, also under the alias of their table -/
def withAlias (tableAlias : Option String) (columns : List (String × β)) : List (String × β) :=
  columns.flatMap fun p => p :: (tableAlias.map fun table => (qualifiedName table p.1, p.2)).toList

theorem lookup_eq_find (m : HashMap String Value) (name : String) :
    m.lookup name = (LastMatch.find (fun p => p.1 = name) m.pairs).map Prod.snd := by
  rcases hfind : LastMatch.find (fun p => p.1 = name) m.pairs with - | p
  · rw [hfind, Option.map_none, AList.lookup_eq_none]
    intro hmem
    obtain ⟨v, hlookup⟩ := Option.isSome_iff_exists.mp (AList.lookup_isSome.mpr hmem)
    have hpair : (name, v) ∈ m.pairs := HashMap.mem_pairs.mpr hlookup
    exact absurd rfl (of_decide_eq_false (LastMatch.find_eq_none.mp hfind _ hpair))
  · have hname := LastMatch.apply_of_find hfind
    obtain rfl : p.1 = name := of_decide_eq_true hname
    rw [hfind]
    exact HashMap.mem_pairs.mp (LastMatch.mem_of_find hfind)

theorem lookup_foldl (value : β → Value) (m : EvaluationContext) (name : String) :
    (columns.foldl (fun m p => m.insert p.1 (value p.2)) m).lookup name =
      ((LastMatch.find (fun p => p.1 = name) columns).map fun p => value p.2).or (m.lookup name) := by
  have hlookup := HashMap.lookup_foldl_insert (fun p : String × β => some p.1) (fun p => value p.2) columns m name
  simp only [Option.some.injEq] at hlookup
  exact hlookup

/-- An outer query has precedence, then the last column with the name. -/
theorem lookup_createBasicEvaluationContext (value : β → Value) (name : String) :
    (createBasicEvaluationContext tableAlias outerValues (columns.map Prod.fst) (columns.map fun p => value p.2)).lookup
      name = (outerValues.lookup name).or
        ((LastMatch.find (fun p => p.1 = name) (withAlias tableAlias columns)).map fun p => value p.2) := by
  have hcolumns : ((columns.map Prod.fst).zip (columns.map fun p => value p.2)).foldl (storeColumn tableAlias) ∅ =
      (withAlias tableAlias columns).foldl (fun m p => m.insert p.1 (value p.2)) ∅ := by
    rw [List.zip_map', List.foldl_map, withAlias, List.foldl_flatMap]
    cases tableAlias <;> rfl
  have hlookup : ((withAlias tableAlias columns).foldl
      (fun (m : EvaluationContext) p => m.insert p.1 (value p.2)) ∅).lookup name =
      (LastMatch.find (fun p => p.1 = name) (withAlias tableAlias columns)).map fun p => value p.2 := by
    rw [lookup_foldl, AList.lookup_empty, Option.or_none]
  rw [createBasicEvaluationContext, hcolumns, lookup_eq_find outerValues, ← hlookup]
  exact lookup_foldl id _ name

end Columns

theorem unqualifiedValue_withColumns (columns : EvaluationContext) (name : String) :
    unqualifiedValue (.withColumns columns) name = .ok ((columns.lookup name).getD .null) := by
  have hlookup : (Context.withColumns columns).columns.lookup name = columns.lookup name := rfl
  rw [unqualifiedValue, hlookup]
  rcases columns.lookup name with - | v <;> rfl

/-! ## Expressions of the select list -/

section FinalExpr

variable {ops : Operations S} {plans : PlanningOperations S} {select : SelectStatement S} {i : ℕ} {spec : ColumnSpec S}

theorem exists_call {e : Expression S} (h : isAggregateFunction ops e = true) :
    ∃ c : AggregateCall ops, c.expr = e ∧ e.calls ops = [c] ∧ ∀ r, e.replaceCalls ops r = r c := by
  cases e
  case function name args distinct =>
    have hname : IsAggregateName (ops.toUppercase name) := of_decide_eq_true h
    refine ⟨⟨name, args, distinct, hname⟩, rfl, ?_, fun r => ?_⟩
    · rw [calls, dif_pos hname]
    · rw [replaceCalls, dif_pos hname]
  all_goals cases h

theorem containsAggregateFunctionsExpressions_of_mem {e : Expression S} {es : List (Expression S)} (hmem : e ∈ es)
    (h : isAggregateFunction ops e = true) : containsAggregateFunctionsExpressions ops es = true := by
  induction es with
  | nil => cases hmem
  | cons e' es ih =>
    rw [containsAggregateFunctionsExpressions, Bool.or_eq_true]
    rcases List.mem_cons.mp hmem with rfl | hmem
    · left
      cases e
      case function name args distinct =>
        rw [containsAggregateFunctions, Bool.or_eq_true]
        exact .inl h
      all_goals cases h
    · exact .inr (ih hmem)

theorem finalExpr_of_isAggregateFunction (hspec : select.columns[i]? = some spec)
    (h : isAggregateFunction ops spec.expr = true) :
    finalExpr ops plans select i spec = .column none (aggregateAlias plans i spec) := by
  have hmem : spec.expr ∈ select.columns.map ColumnSpec.expr := List.mem_map_of_mem (List.mem_of_getElem? hspec)
  have haggregation : hasAggregation ops select = true := by
    rw [hasAggregation, containsAggregateFunctionsExpressions_of_mem hmem h, Bool.or_true]
  rw [finalExpr, if_pos haggregation, if_pos h]

theorem finalExpr_of_not (h : ¬ isAggregateFunction ops spec.expr = true)
    (hcalls : spec.expr.calls ops ≠ []) : finalExpr ops plans select i spec = spec.expr := by
  have hstar : ¬ (isStar spec.expr && !select.groupBy.isEmpty) = true := by
    intro hstar
    have hexpr : isStar spec.expr = true := (Bool.and_eq_true_iff.mp hstar).1
    refine hcalls ?_
    rcases spec with ⟨e, _⟩
    cases e
    case star => rw [calls]
    all_goals cases hexpr
  rw [finalExpr, if_neg h, if_neg hstar, ite_self]

end FinalExpr

/-! ## Calls in a context -/

section Contexts

variable {ops : Operations S}

theorem evaluate_call_columns (c : AggregateCall ops) (columns : EvaluationContext) (v : Value) :
    evaluate ops (.withColumns columns) c.expr ≠ .ok v := by
  rw [AggregateCall.expr, evaluate, evaluateFunction, if_pos c.isAggregate]
  exact nofun

open scoped Classical in
/-- A call has its own value in HAVING, whatever the values of the calls are, if and only if the last aggregate
of the select list with its key is this very call. -/
theorem evaluate_having_iff {op : AggregateOperator S Empty} (c : AggregateCall ops) :
    (∀ (valuation : Expression S → Value) (values : Row), values.length = op.groupByColumns.length →
      evaluate ops (op.havingContext ops (op.rowWith values valuation)) c.expr = .ok (valuation c.expr)) ↔
      (op.lastWithKey ops (callKey ops c.expr)).map Prod.snd = some c.expr := by
  have hcall : IsAggregateCall ops c.expr := c.isAggregate
  have hvalues : (List.replicate op.groupByColumns.length Value.null).length = op.groupByColumns.length :=
    List.length_replicate
  rcases hlast : op.lastWithKey ops (callKey ops c.expr) with - | f
  · refine iff_of_false (fun h => ?_) nofun
    have hvalue := h (fun _ => .null) _ hvalues
    have hlookup : (op.havingAggregates ops (op.rowWith (List.replicate op.groupByColumns.length .null)
        fun _ => .null)).lookup (functionKey ops c.name c.args) =
          (op.lastWithKey ops (some (functionKey ops c.name c.args))).map fun _ => .null :=
      lookup_havingAggregates hvalues _ _
    have hnone : op.lastWithKey ops (some (functionKey ops c.name c.args)) = none := hlast
    rw [hnone] at hlookup
    rw [AggregateCall.expr, evaluate, evaluateFunction, if_pos c.isAggregate, havingContext, Option.bind_some,
      hlookup] at hvalue
    cases hvalue
  · rw [Option.map_some, Option.some.injEq]
    constructor
    · intro h
      have hvalue := h (fun e => .boolean (e = c.expr)) _ hvalues
      rw [evaluate_call hvalues _ hcall hlast] at hvalue
      simpa using hvalue
    · intro heq valuation values hlength
      rw [evaluate_call hlength valuation hcall hlast, heq]

end Contexts

/-! ## What the columns hold -/

/-- The values that surround the projection of a statement -/
structure ProjectionInput where
  columnNames : List String
  tableAlias : Option String
  outerValues : HashMap String Value

section Outputs

variable [DebugText]

/-- The columns of the rows that the select list is evaluated on. After an aggregation they hold the values of
groups and of aggregate calls. -/
def outputs (planner : Planner) (ops : Operations S) (plans : PlanningOperations S) (select : SelectStatement S)
    (input : ProjectionInput) : List (String × (ℕ ⊕ Expression S)) :=
  if hasAggregation ops select then
    ((planAggregation planner ops plans select).groupByColumns.zipIdx.map fun p => (groupColumnName p.1, .inl p.2)) ++
      (planAggregation planner ops plans select).aggregateFunctions.map fun f => (f.1, .inr f.2)
  else input.columnNames.zipIdx.map fun p => (p.1, .inl p.2)

/-- The context in which the select list is evaluated on a row. -/
def projectionContext (planner : Planner) (ops : Operations S) (plans : PlanningOperations S)
    (select : SelectStatement S) (input : ProjectionInput) (values : ℕ → Value) (valuation : Expression S → Value) :
    Context :=
  .withColumns (createBasicEvaluationContext input.tableAlias input.outerValues
    ((outputs planner ops plans select input).map Prod.fst)
    ((outputs planner ops plans select input).map fun p => p.2.elim values valuation))

/-- What a name stands for on a row that the select list is evaluated on. -/
def holder (planner : Planner) (ops : Operations S) (plans : PlanningOperations S) (select : SelectStatement S)
    (input : ProjectionInput) (name : String) : Option (ℕ ⊕ Expression S) :=
  match input.outerValues.lookup name with
  | some _ => none
  | none => (LastMatch.find (fun p => p.1 = name) (withAlias input.tableAlias (outputs planner ops plans select input))).map
    Prod.snd

/-- A column of the result is computed by the expression of the select list with each aggregate call replaced by
a column that holds this very call. So it evaluates as if the calls were replaced by their values. -/
def SubstitutesColumn (planner : Planner) (ops : Operations S) (plans : PlanningOperations S)
    (select : SelectStatement S) (input : ProjectionInput) (i : ℕ) (spec : ColumnSpec S) : Prop :=
  ∃ naming : AggregateCall ops → String,
    finalExpr ops plans select i spec = spec.expr.replaceCalls ops (fun c => .column none (naming c)) ∧
    ∀ values valuation,
      (∀ c ∈ spec.expr.calls ops, evaluate ops (projectionContext planner ops plans select input values valuation)
        (.column none (naming c)) = .ok (valuation c.expr)) ∧
      evaluate ops (projectionContext planner ops plans select input values valuation) (finalExpr ops plans select i spec) =
        evaluate ops (projectionContext planner ops plans select input values valuation)
          (spec.expr.replaceCalls ops fun c => .value (valuation c.expr))

/-- The contexts in which HAVING is evaluated: on the row of a group, and by the query planner on a row of the
result, too. -/
inductive HavingContext (planner : Planner) (ops : Operations S) (plans : PlanningOperations S)
    (select : SelectStatement S) (valuation : Expression S → Value) : Context → Prop
  | group (values : Row) :
    values.length = (planAggregation planner ops plans select).groupByColumns.length →
    HavingContext planner ops plans select valuation ((planAggregation planner ops plans select).havingContext ops
      ((planAggregation planner ops plans select).rowWith values valuation))
  | result (columns : EvaluationContext) :
    planner = .query → HavingContext planner ops plans select valuation (.withColumns columns)

/-- HAVING is evaluated on groups, and wherever it is evaluated its calls have their own values. -/
def SubstitutesHaving (planner : Planner) (ops : Operations S) (plans : PlanningOperations S)
    (select : SelectStatement S) (having : Expression S) : Prop :=
  hasAggregation ops select ∧ ∀ valuation context, HavingContext planner ops plans select valuation context →
    (∀ c ∈ having.calls ops, evaluate ops context c.expr = .ok (valuation c.expr)) ∧
    evaluate ops context having = evaluate ops context (having.replaceCalls ops fun c => .value (valuation c.expr))

/-- All expressions of a statement that have aggregate calls evaluate as if the calls were replaced by their
values. -/
structure SubstitutesAggregates (planner : Planner) (ops : Operations S) (plans : PlanningOperations S)
    (select : SelectStatement S) (input : ProjectionInput) : Prop where
  columns : ∀ i spec, select.columns[i]? = some spec → spec.expr.calls ops ≠ [] →
    SubstitutesColumn planner ops plans select input i spec
  having : ∀ having, select.having = some having → having.calls ops ≠ [] →
    SubstitutesHaving planner ops plans select having

/-- On the row of a group the aggregate calls have their values over the rows of the group. -/
theorem exists_projectionContext [FloatArithmetic] {planner : Planner} {ops : Operations S}
    {plans : PlanningOperations S} {select : SelectStatement S} (haggregation : hasAggregation ops select = true)
    (context : ExecutionContext) (columnNames : List String) {rows : QueryResult} {p : String × Group}
    (hp : p ∈ ((planAggregation planner ops plans select).groups ops rows).pairs) : ∃ values : ℕ → Value,
      context.row (planAggregation planner ops plans select).resultColumnNames (groupRow p.2) =
        projectionContext planner ops plans select ⟨columnNames, context.tableAlias, context.outerValues⟩ values
          (aggregate ops rows.columnNames (rows.rows.filter fun row =>
            (planAggregation planner ops plans select).groupKey ops rows.columnNames row = p.1)) := by
  obtain ⟨row, -, -, hvalues, hrow⟩ := of_mem_groups hp
  have hlength : p.2.1.length = (planAggregation planner ops plans select).groupByColumns.length := by
    rw [hvalues, groupValues, List.length_map]
  have hnames : (planAggregation planner ops plans select).resultColumnNames = (outputs planner ops plans select
      ⟨columnNames, context.tableAlias, context.outerValues⟩).map Prod.fst := by
    have hwindow : (planAggregation planner ops plans select).windowFunctions = [] := rfl
    have hgroups : ((planAggregation planner ops plans select).groupByColumns.zipIdx.map fun p => groupColumnName p.1) =
        (planAggregation planner ops plans select).groupByColumns.map groupColumnName := by
      conv_rhs => rw [← List.zipIdx_map_fst 0 (planAggregation planner ops plans select).groupByColumns, List.map_map]
      rfl
    rw [outputs, if_pos haggregation, List.map_append, List.map_map, List.map_map, resultColumnNames, hwindow,
      List.map_nil, List.append_nil, ← hgroups]
    rfl
  refine ⟨fun i => p.2.1.getD i .null, ?_⟩
  have hgroups : ((planAggregation planner ops plans select).groupByColumns.zipIdx.map
      fun q => p.2.1.getD q.2 .null) = p.2.1 := by
    refine List.ext_getElem ?_ fun i hi hi' => ?_
    · rw [List.length_map, List.length_zipIdx, hlength]
    · rw [List.getElem_map, List.getElem_zipIdx, Nat.zero_add, List.getD_eq_getElem _ _ hi']
  rw [ExecutionContext.row, hrow, hnames, projectionContext]
  congr 2
  rw [outputs, if_pos haggregation, List.map_append, List.map_map, List.map_map, rowOf]
  exact congrArg (· ++ _) hgroups.symm

/-! ## The select list -/

variable {planner : Planner} {ops : Operations S} {plans : PlanningOperations S} {select : SelectStatement S}
  {input : ProjectionInput}

/-- A name stands for a column of the row, or for something else that does not depend on the row. -/
theorem exists_evaluate_outputColumn (name : String) : ∃ v : Value, ∀ values valuation,
    evaluate ops (projectionContext planner ops plans select input values valuation) (.column none name) =
      .ok ((holder planner ops plans select input name).elim v (Sum.elim values valuation)) := by
  refine ⟨(input.outerValues.lookup name).getD .null, fun values valuation => ?_⟩
  rw [evaluate, columnValue, projectionContext, unqualifiedValue_withColumns,
    lookup_createBasicEvaluationContext (Sum.elim values valuation) name]
  unfold holder
  rcases input.outerValues.lookup name with - | v
  · rw [Option.none_or]
    generalize LastMatch.find _ (withAlias input.tableAlias (outputs planner ops plans select input)) = found
    cases found <;> rfl
  · rfl

open scoped Classical in
/-- A column has the value of a call, whatever the values of the calls are, if and only if it holds this very
call. -/
theorem evaluate_outputColumn_iff {name : String} {e : Expression S} :
    (∀ values valuation, evaluate ops (projectionContext planner ops plans select input values valuation)
      (.column none name) = .ok (valuation e)) ↔ holder planner ops plans select input name = some (.inr e) := by
  have hcolumn : ∃ v : Value, ∀ values valuation,
      evaluate ops (projectionContext planner ops plans select input values valuation) (.column none name) =
        .ok ((holder planner ops plans select input name).elim v (Sum.elim values valuation)) :=
    exists_evaluate_outputColumn name
  obtain ⟨v, hv⟩ := hcolumn
  simp only [hv, Except.ok.injEq]
  rcases holder planner ops plans select input name with - | i | e'
  · refine iff_of_false (fun h => ?_) nofun
    have htrue := h (fun _ => .null) fun _ => .boolean true
    have hfalse := h (fun _ => .null) fun _ => .boolean false
    cases htrue.symm.trans hfalse
  · refine iff_of_false (fun h => ?_) (by simp)
    cases h (fun _ => .null) fun _ => .boolean true
  · refine ⟨fun h => ?_, fun h => ?_⟩
    · -- tell the value of the call from all others
      have hvalue := h (fun _ => .null) fun e' => .boolean (e' = e)
      simpa using hvalue
    · intro values valuation
      obtain rfl : e' = e := by simpa using h
      rfl

/-- The calls of an expression of the select list are replaced if and only if it is a call itself and the last
column with its name. -/
theorem substitutesColumn_iff {i : ℕ} {spec : ColumnSpec S} (hspec : select.columns[i]? = some spec)
    (hcalls : spec.expr.calls ops ≠ []) : SubstitutesColumn planner ops plans select input i spec ↔
      isAggregateFunction ops spec.expr = true ∧
        holder planner ops plans select input (aggregateAlias plans i spec) = some (.inr spec.expr) := by
  by_cases hcall : isAggregateFunction ops spec.expr = true
  · obtain ⟨c, hc, hcalls', hreplace⟩ := exists_call hcall
    unfold SubstitutesColumn
    rw [finalExpr_of_isAggregateFunction hspec hcall, ← evaluate_outputColumn_iff]
    simp only [hcalls', hreplace, List.forall_mem_singleton]
    constructor
    · rintro ⟨naming, hname, hvalues⟩
      injection hname with _ hname
      refine ⟨hcall, fun values valuation => ?_⟩
      rw [hname, (hvalues values valuation).1, hc]
    · rintro ⟨-, hvalues⟩
      refine ⟨fun _ => aggregateAlias plans i spec, rfl, fun values valuation => ⟨?_, ?_⟩⟩
      · rw [hvalues values valuation, hc]
      · rw [hvalues values valuation, evaluate, hc]
  · refine iff_of_false ?_ fun h => hcall h.1
    rintro ⟨naming, hreplace, -⟩
    rw [finalExpr_of_not hcall hcalls] at hreplace
    obtain ⟨c, hc⟩ := List.exists_mem_of_ne_nil _ hcalls
    -- a call is not a column
    cases (replaceCalls_eq_self_iff spec.expr).mp hreplace.symm c hc

/-! ## HAVING -/

/-- The calls of HAVING have their own values if and only if the optimizer has planned an aggregation with these
very calls under their keys. The query planner evaluates HAVING once more on the result, where they have none. -/
theorem substitutesHaving_iff (hfun : FunctionsReadValues ops) {having : Expression S}
    (hcalls : having.calls ops ≠ []) : SubstitutesHaving planner ops plans select having ↔
      planner = .optimizer ∧ hasAggregation ops select = true ∧ ∀ c ∈ having.calls ops,
        ((planAggregation planner ops plans select).lastWithKey ops (callKey ops c.expr)).map Prod.snd =
          some c.expr := by
  constructor
  · rintro ⟨haggregation, hvalues⟩
    refine ⟨?_, haggregation, fun c hc => (evaluate_having_iff c).mp fun valuation values hlength => ?_⟩
    · rcases planner
      · obtain ⟨c, hc⟩ := List.exists_mem_of_ne_nil _ hcalls
        have hvalue := (hvalues (fun _ => .null) _ (.result ∅ rfl)).1 c hc
        exact absurd hvalue (evaluate_call_columns c ∅ .null)
      · rfl
    · exact (hvalues valuation _ (.group values hlength)).1 c hc
  · rintro ⟨rfl, haggregation, hlast⟩
    refine ⟨haggregation, fun valuation context hcontext => ?_⟩
    obtain ⟨values, hlength⟩ | ⟨columns, hplanner⟩ := hcontext
    · have hvalues : ∀ c ∈ having.calls ops, evaluate ops ((planAggregation .optimizer ops plans select).havingContext
          ops ((planAggregation .optimizer ops plans select).rowWith values valuation)) c.expr =
            .ok (valuation c.expr) :=
        fun c hc => (evaluate_having_iff c).mpr (hlast c hc) valuation values hlength
      exact ⟨hvalues, (evaluate_replaceCalls hfun having hvalues).symm⟩
    · cases hplanner

/-! ## Statements -/

/-- The aggregate calls of a statement are read as their values if and only if each expression of the select list
that has a call is a call and the last column with its name, and HAVING has no calls or is planned by the
optimizer with an aggregation that has these very calls under their keys. -/
theorem substitutesAggregates_iff (hfun : FunctionsReadValues ops) :
    SubstitutesAggregates planner ops plans select input ↔
      (∀ i spec, select.columns[i]? = some spec → spec.expr.calls ops ≠ [] →
        isAggregateFunction ops spec.expr = true ∧
          holder planner ops plans select input (aggregateAlias plans i spec) = some (.inr spec.expr)) ∧
      ∀ having, select.having = some having → having.calls ops ≠ [] →
        planner = .optimizer ∧ hasAggregation ops select = true ∧ ∀ c ∈ having.calls ops,
          ((planAggregation planner ops plans select).lastWithKey ops (callKey ops c.expr)).map Prod.snd =
            some c.expr := by
  constructor
  · rintro ⟨hcolumns, hhaving⟩
    exact ⟨fun i spec hspec hcalls => (substitutesColumn_iff hspec hcalls).mp (hcolumns i spec hspec hcalls),
      fun having hsome hcalls => (substitutesHaving_iff hfun hcalls).mp (hhaving having hsome hcalls)⟩
  · rintro ⟨hcolumns, hhaving⟩
    exact ⟨fun i spec hspec hcalls => (substitutesColumn_iff hspec hcalls).mpr (hcolumns i spec hspec hcalls),
      fun having hsome hcalls => (substitutesHaving_iff hfun hcalls).mpr (hhaving having hsome hcalls)⟩

end Outputs

/-- `SELECT k, COUNT(*) AS n FROM t GROUP BY k HAVING COUNT(*) > 1` -/
def countsOfGroups : SelectStatement Unit where
  distinct := false
  columns := [⟨.column none "k", none⟩, ⟨countStar, some "n"⟩]
  whereClause := none
  groupBy := [.column none "k"]
  having := some (.binaryOp countStar .greaterThan (.value (.integer 1)))
  orderBy := []
  limit := none
  offset := none

/-- `SELECT SUM(a) + 1 FROM t` -/
def sumPlusOne : SelectStatement Unit where
  distinct := false
  columns := [⟨.binaryOp (.function "SUM" [.column none "a"] false) .add (.value (.integer 1)), none⟩]
  whereClause := none
  groupBy := []
  having := none
  orderBy := []
  limit := none
  offset := none

def noPlans : PlanningOperations Unit := ⟨id, fun _ => false⟩

theorem functionsReadValues_noOperations : FunctionsReadValues noOperations := fun _ _ _ _ _ => rfl

/-- Counts of groups are read as their values. -/
theorem substitutesAggregates_counts : letI : DebugText := ⟨fun _ => "", fun _ => "", fun _ => ""⟩
    SubstitutesAggregates .optimizer noOperations noPlans countsOfGroups ⟨["k"], none, ∅⟩ := by
  let texts : DebugText := ⟨fun _ => "", fun _ => "", fun _ => ""⟩
  refine (substitutesAggregates_iff functionsReadValues_noOperations).mpr ⟨fun i spec hspec hcalls => ?_, ?_⟩
  · rcases i with - | - | i
    · obtain rfl := Option.some.inj hspec
      exact absurd rfl hcalls
    · obtain rfl := Option.some.inj hspec
      exact ⟨rfl, rfl⟩
    · cases hspec
  · intro having hhaving _
    obtain rfl := Option.some.inj hhaving
    refine ⟨rfl, rfl, fun c hc => ?_⟩
    obtain rfl := List.mem_singleton.mp hc
    rfl

/-- The sum in `SUM(a) + 1` is not replaced. -/
theorem sum_not_replaced : ¬ ∀ (_ : DebugText) (S : Type) (planner : Planner) (ops : Operations S)
    (plans : PlanningOperations S) (select : SelectStatement S) (input : ProjectionInput), FunctionsReadValues ops →
      SubstitutesAggregates planner ops plans select input := by
  intro h
  let texts : DebugText := ⟨fun _ => "", fun _ => "", fun _ => ""⟩
  have hsubstitutes := h texts Unit .optimizer noOperations noPlans sumPlusOne ⟨["a"], none, ∅⟩
    functionsReadValues_noOperations
  have hcalls : (Expression.binaryOp (.function "SUM" [.column none "a"] false) .add
      (.value (.integer 1))).calls noOperations ≠ [] := by
    rw [calls, calls]
    exact List.cons_ne_nil _ _
  have hcall := (substitutesColumn_iff rfl hcalls).mp (hsubstitutes.columns 0 _ rfl hcalls)
  cases hcall.1

end QueryPlanner

end Rustgresql
