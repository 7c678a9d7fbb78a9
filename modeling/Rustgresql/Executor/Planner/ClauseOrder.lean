import Rustgresql.Executor.Planner
import Rustgresql.Lib.Distinct

/-!
# The order of the clauses

The query planner filters by HAVING after the projection, leaves DISTINCT to the end and skips rows only under
LIMIT. `planSelect_answers`: the plan returns what the clauses ask for in their order, if the statement and the
rows of its result give no occasion for that.
-/

namespace Rustgresql

open ExpressionEvaluator StableSort

open Sql (OrderBy)

variable {S : Type}

/-! ## Sorting -/

namespace SortOperator

variable {E α : Type} {evaluate : Evaluator E} {orderBy : List (OrderBy E)}

/-- Compare two elements by the items, each in a context of its own. -/
def compareIn (evaluate : Evaluator E) (columns : α → EvaluationContext) : List (OrderBy E) → α → α → Ordering
  | [], _, _ => .eq
  | item :: orderBy, a, b =>
    match evaluate item.expr (columns a), evaluate item.expr (columns b) with
    | .ok v, .ok w =>
      let comparison := compareValues v w item.nulls
      if comparison ≠ .eq then directed item.direction comparison
      else compareIn evaluate columns orderBy a b
    | _, _ => compareIn evaluate columns orderBy a b

theorem compareRows_eq_compareIn (columnNames : List String) (a b : Row) :
    compareRows evaluate columnNames orderBy a b =
      compareIn evaluate (createEvaluationContext columnNames) orderBy a b := by
  induction orderBy with
  | nil => rfl
  | cons item orderBy ih =>
    rw [compareRows, compareIn]
    rcases evaluate item.expr (createEvaluationContext columnNames a) with e | v
    · exact ih
    · rcases evaluate item.expr (createEvaluationContext columnNames b) with e | w
      · exact ih
      · dsimp only
        rw [ih]

/-- Elements whose keys have the same values compare alike. -/
theorem compareIn_congr {β : Type} {columns : α → EvaluationContext} {columns' : β → EvaluationContext} {a b : α}
    {a' b' : β} (ha : ∀ item ∈ orderBy, evaluate item.expr (columns a) = evaluate item.expr (columns' a'))
    (hb : ∀ item ∈ orderBy, evaluate item.expr (columns b) = evaluate item.expr (columns' b')) :
    compareIn evaluate columns orderBy a b = compareIn evaluate columns' orderBy a' b' := by
  induction orderBy with
  | nil => rfl
  | cons item orderBy ih =>
    have hrest := ih (fun item hitem => ha item (List.mem_cons_of_mem _ hitem))
      fun item hitem => hb item (List.mem_cons_of_mem _ hitem)
    rw [compareIn, compareIn, ha item List.mem_cons_self, hb item List.mem_cons_self, hrest]

theorem compareIn_self {columns : α → EvaluationContext} (h : orderBy = []) (a b : α) :
    compareIn evaluate columns orderBy a b = .eq := by
  rw [h, compareIn]

/-- Rows on which the comparison is an order are sorted by it. -/
theorem exists_execute {sort : (Row → Row → Ordering) → List Row → Result (List Row)} (hsort : IsStableSort sort)
    {input : QueryResult} (horder : IsOrderOn (compareIn evaluate (createEvaluationContext input.columnNames) orderBy)
      input.rows) : ∃ rows, execute sort evaluate orderBy (.ok input) = .ok { input with rows } ∧
        StablySorted (compareIn evaluate (createEvaluationContext input.columnNames) orderBy) input.rows rows := by
  have hcompare : compareRows evaluate input.columnNames orderBy =
      compareIn evaluate (createEvaluationContext input.columnNames) orderBy :=
    funext fun a => funext fun b => compareRows_eq_compareIn input.columnNames a b
  rw [execute_ok, hcompare]
  split
  · next hempty =>
    refine ⟨input.rows, rfl, stablySorted_self fun a ha b hb => ?_⟩
    rw [Bool.or_eq_true, List.isEmpty_iff, List.isEmpty_iff] at hempty
    rcases hempty with hnone | hnone
    · rw [hnone] at ha
      cases ha
    · exact compareIn_self hnone a b
  · obtain ⟨rows, hrows, hsorted⟩ := hsort.sorts _ _ horder
    rw [hrows]
    exact ⟨rows, rfl, hsorted⟩

end SortOperator

/-! ## LIMIT and DISTINCT -/

namespace LimitOperator

/-- OFFSET and LIMIT. A negative limit is none. -/
def limitRows (limit offset : Option ℤ) (rows : List Row) : List Row :=
  match limit with
  | some n => if n < 0 then rows.drop (startIdx offset) else (rows.drop (startIdx offset)).take n.toNat
  | none => rows.drop (startIdx offset)

theorem execute_ok (n : ℤ) (offset : Option ℤ) (input : QueryResult) :
    execute n offset (.ok input) = .ok { input with rows := limitRows (some n) offset input.rows } := by
  have hexecute : execute n offset (.ok input) = if input.rows.length ≤ startIdx offset
      then .ok { input with rows := [] }
      else .ok { input with rows := (input.rows.take (min (endIdx n offset input.rows.length)
        input.rows.length)).drop (startIdx offset) } := by
    by_cases h : input.rows.length ≤ startIdx offset
    · rw [if_pos h]
      exact if_pos h
    · rw [if_neg h]
      exact if_neg h
  rw [hexecute, limitRows]
  split
  · next h => rw [List.drop_eq_nil_of_le h, List.take_nil, ite_self]
  · rw [List.drop_take, endIdx]
    split
    · rw [Nat.min_self, List.take_of_length_le (by rw [List.length_drop])]
    · congr 2
      rw [List.take_eq_take_iff, List.length_drop]
      omega

theorem limitRows_sublist (limit offset : Option ℤ) (rows : List Row) :
    (limitRows limit offset rows).Sublist rows := by
  unfold limitRows
  split
  · split
    · exact List.drop_sublist ..
    · exact (List.take_sublist ..).trans (List.drop_sublist ..)
  · exact List.drop_sublist ..

theorem limitRows_none {offset : Option ℤ} (h : startIdx offset = 0) (rows : List Row) :
    limitRows none offset rows = rows := by
  rw [limitRows, h, List.drop_zero]

end LimitOperator

namespace DistinctOperator

mutual

theorem eq_of_sameHash : ∀ {v w : Value}, sameHash v w = true → v = w
  | .integer _, .integer _, h => by rw [of_decide_eq_true h]
  | .string _, .string _, h => by rw [of_decide_eq_true h]
  | .boolean _, .boolean _, h => by rw [of_decide_eq_true h]
  | .float _, .float _, h => by rw [of_decide_eq_true h]
  | .timestamp _, .timestamp _, h => by rw [of_decide_eq_true h]
  | .list _, .list _, h => by rw [eq_of_sameHashes h]
  | .null, .null, _ => rfl

theorem eq_of_sameHashes : ∀ {vs ws : List Value}, sameHashes vs ws = true → vs = ws
  | [], [], _ => rfl
  | _ :: _, _ :: _, h => by
    rw [sameHashes, Bool.and_eq_true] at h
    rw [eq_of_sameHash h.1, eq_of_sameHashes h.2]

end

theorem eq_of_sameRow (a b : Row) (h : sameRow a b = true) : a = b := eq_of_sameHashes (Bool.and_eq_true_iff.mp h).1

theorem distinctRows_eq_fresh (rows : List Row) : distinctRows rows = Recursion.fresh sameRow [] rows := by
  have hfold (seen out : List Row) : (rows.foldl insertRow (seen, out)).2 = out ++ Recursion.fresh sameRow seen rows := by
    induction rows generalizing seen out with
    | nil => rw [Recursion.fresh, List.append_nil]; rfl
    | cons row rows ih =>
      rw [List.foldl_cons, insertRow, Recursion.fresh]
      split_ifs
      · exact ih seen out
      · rw [ih, List.append_assoc, List.singleton_append]
  exact (hfold [] []).trans (List.nil_append _)

theorem distinctRows_eq_self_iff {rows : List Row} :
    distinctRows rows = rows ↔ rows.Pairwise fun a b => sameRow a b = false := by
  rw [distinctRows_eq_fresh]
  exact fresh_eq_self_iff

/-- Rows that are all different are so in every order. -/
theorem distinctRows_eq_self_perm {rows rows' : List Row} (hperm : rows'.Perm rows) (h : distinctRows rows = rows) :
    distinctRows rows' = rows' := by
  rw [distinctRows_eq_self_iff] at h ⊢
  refine (hperm.pairwise_iff fun {a b} hab => ?_).mpr h
  rw [Bool.eq_false_iff] at hab ⊢
  intro hba
  obtain rfl := eq_of_sameRow b a hba
  exact hab hba

end DistinctOperator

namespace QueryPlanner

open SortOperator (compareIn)

open LimitOperator (startIdx limitRows)

open DistinctOperator (distinctRows)

/-! ## Projections -/

/-- A plan of projections and window functions -/
inductive IsProjection : PlanNode S → Prop
  | source : IsProjection .source
  | project {plan : PlanNode S} (columns : List (String × Expression S)) :
    IsProjection plan → IsProjection (.project plan columns)
  | window {plan : PlanNode S} (windowFunctions : List (String × Expression S)) :
    IsProjection plan → IsProjection (.window plan windowFunctions)

theorem isProjection_planProjection {ops : Operations S} {plans : PlanningOperations S} {fromColumns : List String}
    {select : SelectStatement S} : IsProjection (planProjection ops plans fromColumns select .source) := by
  rw [planProjection]
  dsimp only
  split_ifs
  · exact .source
  · rw [planWindows]
    refine .project _ ?_
    split_ifs
    · exact .source
    · exact .project _ .source
    · exact .window _ .source
    · exact .window _ (.project _ .source)
  · exact .project _ .source

/-! ## The nodes over the projection -/

/-- Apply the condition of a clause if present. -/
def filterResult (ops : Operations S) (context : ExecutionContext) (condition : Option (Expression S))
    (input : Result QueryResult) : Result QueryResult :=
  match condition with
  | some condition => FilterOperator.execute ops context condition input
  | none => input

/-- ORDER BY, LIMIT and DISTINCT as the plan applies them -/
def finishRows (ops : Operations S) (context : ExecutionContext) (select : SelectStatement S)
    (input : Result QueryResult) : Result QueryResult :=
  let sorted := if select.orderBy.isEmpty then input
    else SortOperator.execute (context.sort Row) (WindowOperator.rowEvaluator ops) select.orderBy input
  let limited := match select.limit with
    | some n => LimitOperator.execute n select.offset sorted
    | none => sorted
  if select.distinct then DistinctOperator.execute limited else limited

section Finish

variable {ops : Operations S} {context : ExecutionContext} {select : SelectStatement S} {projected : QueryResult}
  {rows : List Row}

theorem finishRows_error (e : Failure) : finishRows ops context select (.error e) = .error e := by
  rw [finishRows]
  split_ifs <;> cases select.limit <;> rfl

theorem filterResult_error (condition : Option (Expression S)) (e : Failure) :
    filterResult ops context condition (.error e) = .error e := by
  cases condition <;> rfl

/-- The filter over the projection keeps all rows for which HAVING is still true. -/
theorem filterResult_having (h : ∀ having, select.having = some having → ∀ row ∈ projected.rows,
    FilterOperator.keeps ops context having projected.columnNames row = true) :
    filterResult ops context select.having (.ok projected) = .ok projected := by
  rcases hhaving : select.having with - | having
  · rfl
  · have hrows := List.filter_eq_self.mpr (h having hhaving)
    exact congrArg (fun rows => Except.ok { projected with rows }) hrows

/-- ORDER BY, LIMIT and DISTINCT on rows that are ordered by ORDER BY -/
theorem exists_finishRows (hsort : ∀ α, IsStableSort (context.sort α))
    (horder : IsOrderOn (compareIn (WindowOperator.rowEvaluator ops) (createEvaluationContext projected.columnNames)
      select.orderBy) projected.rows) (hoffset : select.limit = none → startIdx select.offset = 0) :
    ∃ sorted, StablySorted (compareIn (WindowOperator.rowEvaluator ops)
        (createEvaluationContext projected.columnNames) select.orderBy) projected.rows sorted ∧
      finishRows ops context select (.ok projected) = .ok ⟨if select.distinct
        then distinctRows (limitRows select.limit select.offset sorted)
        else limitRows select.limit select.offset sorted, projected.columnNames⟩ := by
  obtain ⟨sorted, hexecute, hsorted⟩ := SortOperator.exists_execute (hsort Row) horder
  have hlimited : (match select.limit with
      | some n => LimitOperator.execute n select.offset (.ok ⟨sorted, projected.columnNames⟩)
      | none => .ok ⟨sorted, projected.columnNames⟩) =
        .ok ⟨limitRows select.limit select.offset sorted, projected.columnNames⟩ := by
    rcases hlimit : select.limit with - | n
    · rw [LimitOperator.limitRows_none (hoffset hlimit)]
    · exact LimitOperator.execute_ok ..
  have hsort' : (if select.orderBy.isEmpty then .ok projected else SortOperator.execute (context.sort Row)
      (WindowOperator.rowEvaluator ops) select.orderBy (.ok projected)) =
        .ok ⟨sorted, projected.columnNames⟩ := by
    split_ifs with hempty
    · rw [SortOperator.execute_ok, if_pos (by rw [hempty, Bool.or_true])] at hexecute
      exact hexecute
    · exact hexecute
  refine ⟨sorted, hsorted, ?_⟩
  rw [finishRows, hsort', hlimited]
  split_ifs <;> rfl

/-- LIMIT and DISTINCT can be exchanged if there is no LIMIT or no row is repeated. -/
theorem limitRows_distinctRows (hperm : rows.Perm projected.rows)
    (hdistinct : select.limit = none ∨ distinctRows projected.rows = projected.rows)
    (hoffset : select.limit = none → startIdx select.offset = 0) :
    distinctRows (limitRows select.limit select.offset rows) =
      limitRows select.limit select.offset (distinctRows rows) := by
  rcases hdistinct with hlimit | hdistinct
  · rw [hlimit, LimitOperator.limitRows_none (hoffset hlimit), LimitOperator.limitRows_none (hoffset hlimit)]
  · have hrows := DistinctOperator.distinctRows_eq_self_perm hperm hdistinct
    rw [hrows, DistinctOperator.distinctRows_eq_self_iff]
    exact (DistinctOperator.distinctRows_eq_self_iff.mp hrows).sublist (LimitOperator.limitRows_sublist ..)

end Finish

/-! ## What the clauses ask for -/

section Clauses

variable [DebugText] [FloatArithmetic]

/-- WHERE, grouping and HAVING -/
def groupedRows (ops : Operations S) (plans : PlanningOperations S) (context : ExecutionContext)
    (select : SelectStatement S) (table : QueryResult) : Result QueryResult :=
  let filtered := filterResult ops context select.whereClause (.ok table)
  if hasAggregation ops select then (planAggregation .query ops plans select).execute ops Empty.elim filtered
  else filterResult ops context select.having filtered

/-- The projection, with window functions -/
def projectRows (ops : Operations S) (plans : PlanningOperations S) (context : ExecutionContext)
    (fromColumns : List String) (select : SelectStatement S) (input : Result QueryResult) : Result QueryResult :=
  (planProjection ops plans fromColumns select .source).execute ops context input

def usesWindowFunctions (ops : Operations S) (plans : PlanningOperations S) (select : SelectStatement S) : Bool :=
  !isStarOnly select && (projections .query ops plans select).any fun p => containsWindowFunctions plans p.2

/-- The rows of a projection with the rows they come from. Window functions may return them in another order. -/
structure IsPairing (ops : Operations S) (plans : PlanningOperations S) (select : SelectStatement S)
    (grouped projected : QueryResult) (pairs : List (Row × Row)) : Prop where
  projected : pairs.map Prod.snd = projected.rows
  perm : (pairs.map Prod.fst).Perm grouped.rows
  grouped : usesWindowFunctions ops plans select = false → pairs.map Prod.fst = grouped.rows

/-- The columns that ORDER BY may name: those of the select list, and those of the row it is computed from. -/
def orderColumns (grouped projected : QueryResult) (pair : Row × Row) : EvaluationContext :=
  (projected.columnNames.zip pair.2).foldl (fun columns p => columns.insert p.1 p.2)
    (createEvaluationContext grouped.columnNames pair.1)

/-- The distinct rows if they are asked for, in the order that ORDER BY asks for. After DISTINCT only the columns
of the select list can be named. -/
def IsOrdered (ops : Operations S) (plans : PlanningOperations S) (select : SelectStatement S)
    (grouped projected : QueryResult) (rows : List Row) : Prop :=
  if select.distinct then
    StablySorted (compareIn (WindowOperator.rowEvaluator ops) (createEvaluationContext projected.columnNames)
      select.orderBy) (distinctRows projected.rows) rows
  else ∃ pairs pairs', IsPairing ops plans select grouped projected pairs ∧
    StablySorted (compareIn (WindowOperator.rowEvaluator ops) (orderColumns grouped projected) select.orderBy)
      pairs pairs' ∧ rows = pairs'.map Prod.snd

/-- WHERE, grouping, HAVING, projection, DISTINCT, ORDER BY and OFFSET with LIMIT, in this order. -/
def IsAnswer (ops : Operations S) (plans : PlanningOperations S) (context : ExecutionContext)
    (fromColumns : List String) (select : SelectStatement S) (table result : QueryResult) : Prop :=
  ∃ grouped projected rows, groupedRows ops plans context select table = .ok grouped ∧
    projectRows ops plans context fromColumns select (.ok grouped) = .ok projected ∧
    IsOrdered ops plans select grouped projected rows ∧
    result = ⟨limitRows select.limit select.offset rows, projected.columnNames⟩

/-- The plan returns exactly what the clauses ask for. -/
def Answers (ops : Operations S) (plans : PlanningOperations S) (context : ExecutionContext)
    (fromColumns : List String) (select : SelectStatement S) (table : QueryResult) : Prop :=
  ∀ result, (planSelect ops plans fromColumns select).execute ops context (.ok table) = .ok result ↔
    IsAnswer ops plans context fromColumns select table result

/-! ## When the plan keeps the order -/

/-- The rows of a result give no occasion to tell the order of the clauses. -/
structure RowsKeepOrder (ops : Operations S) (plans : PlanningOperations S) (context : ExecutionContext)
    (select : SelectStatement S) (grouped projected : QueryResult) : Prop where
  /-- HAVING is still true after the projection. -/
  having : ∀ having, select.having = some having → ∀ row ∈ projected.rows,
    FilterOperator.keeps ops context having projected.columnNames row = true
  /-- Under LIMIT there are no rows that are the same. -/
  distinct : select.distinct = true → select.limit = none ∨ distinctRows projected.rows = projected.rows
  /-- ORDER BY orders the rows. -/
  order : IsOrderOn (compareIn (WindowOperator.rowEvaluator ops) (createEvaluationContext projected.columnNames)
    select.orderBy) projected.rows
  /-- ORDER BY needs no columns but those of the select list. -/
  keys : select.distinct = false → ∀ pairs, IsPairing ops plans select grouped projected pairs → ∀ pair ∈ pairs,
    ∀ item ∈ select.orderBy, WindowOperator.rowEvaluator ops item.expr (orderColumns grouped projected pair) =
      WindowOperator.rowEvaluator ops item.expr (createEvaluationContext projected.columnNames pair.2)

/-- HAVING comes with an aggregation, OFFSET that skips rows comes with LIMIT, and the rows keep the order. -/
structure KeepsOrder (ops : Operations S) (plans : PlanningOperations S) (context : ExecutionContext)
    (fromColumns : List String) (select : SelectStatement S) (table : QueryResult) : Prop where
  having : select.having ≠ none → hasAggregation ops select = true
  offset : select.limit = none → startIdx select.offset = 0
  rows : ∀ grouped projected, groupedRows ops plans context select table = .ok grouped →
    projectRows ops plans context fromColumns select (.ok grouped) = .ok projected →
    RowsKeepOrder ops plans context select grouped projected

/-! ## The plan -/

section Plan

variable {ops : Operations S} {plans : PlanningOperations S} {context : ExecutionContext}
  {fromColumns : List String} {select : SelectStatement S}

theorem execute_planFilter (condition : Option (Expression S)) (plan : PlanNode S) (source : Result QueryResult) :
    (planFilter condition plan).execute ops context source =
      filterResult ops context condition (plan.execute ops context source) := by
  cases condition <;> rfl

theorem execute_planWindows (columns : WindowColumns S) (plan : PlanNode S) (source : Result QueryResult) :
    (planWindows columns plan).execute ops context source =
      (planWindows columns .source).execute ops context (plan.execute ops context source) := by
  rw [planWindows, planWindows]
  split_ifs <;> rfl

/-- The projection is made on what the plan below it returns. -/
theorem execute_planProjection (plan : PlanNode S) (source : Result QueryResult) :
    (planProjection ops plans fromColumns select plan).execute ops context source =
      projectRows ops plans context fromColumns select (plan.execute ops context source) := by
  rw [projectRows, planProjection, planProjection]
  dsimp only
  split_ifs
  · rfl
  · exact execute_planWindows _ plan source
  · rfl

theorem execute_planSelect (source : Result QueryResult) :
    (planSelect ops plans fromColumns select).execute ops context source =
      finishRows ops context select (filterResult ops context select.having
        (projectRows ops plans context fromColumns select
          (if hasAggregation ops select then (planAggregation .query ops plans select).execute ops Empty.elim
            (filterResult ops context select.whereClause source)
          else filterResult ops context select.whereClause source))) := by
  have hgrouped : (if hasAggregation ops select then PlanNode.aggregate (planFilter select.whereClause .source)
        (planAggregation .query ops plans select) else planFilter select.whereClause .source).execute ops context source =
      if hasAggregation ops select then (planAggregation .query ops plans select).execute ops Empty.elim
        (filterResult ops context select.whereClause source)
      else filterResult ops context select.whereClause source := by
    split_ifs
    · rw [PlanNode.execute, execute_planFilter, PlanNode.execute]
    · rw [execute_planFilter, PlanNode.execute]
  rw [← hgrouped, ← execute_planProjection, ← execute_planFilter, planSelect, finishRows]
  split_ifs <;> cases select.limit <;> rfl

theorem IsProjection.execute_error {plan : PlanNode S} (hplan : IsProjection plan) (e : Failure) :
    plan.execute ops context (.error e) = .error e := by
  induction hplan with
  | source => rfl
  | project columns _ ih =>
    rw [PlanNode.execute, ih]
    rfl
  | window windowFunctions _ ih =>
    rw [PlanNode.execute, ih]
    rfl

/-- A projection returns as many rows as there were before. -/
theorem IsProjection.length_rows (hsort : ∀ α, IsStableSort (context.sort α)) {plan : PlanNode S}
    (hplan : IsProjection plan) {input result : QueryResult}
    (h : plan.execute ops context (.ok input) = .ok result) : result.rows.length = input.rows.length := by
  induction hplan generalizing result with
  | source => rw [← Except.ok.inj h]
  | project columns _ ih =>
    obtain ⟨input', hinput, h⟩ := Result.bind_eq_ok.mp h
    rw [← ih hinput, ← Except.ok.inj h]
    exact List.length_map ..
  | @window plan windowFunctions _ ih =>
    rw [PlanNode.execute] at h
    rcases hinput : plan.execute ops context (.ok input) with e | input'
    · rw [hinput] at h
      cases h
    · rw [hinput] at h
      rw [WindowOperator.length_rows_of_execute hsort h, ih hinput]

theorem isPairing_zip (hsort : ∀ α, IsStableSort (context.sort α)) {grouped projected : QueryResult}
    (h : projectRows ops plans context fromColumns select (.ok grouped) = .ok projected) :
    IsPairing ops plans select grouped projected (grouped.rows.zip projected.rows) := by
  have hlength : projected.rows.length = grouped.rows.length := isProjection_planProjection.length_rows hsort h
  have hgrouped : (grouped.rows.zip projected.rows).map Prod.fst = grouped.rows :=
    List.map_fst_zip hlength.symm.le
  exact ⟨List.map_snd_zip hlength.le, by rw [hgrouped], fun _ => hgrouped⟩

end Plan

/-! ## Answers -/

section Answers

variable {ops : Operations S} {plans : PlanningOperations S} {context : ExecutionContext}
  {fromColumns : List String} {select : SelectStatement S} {grouped projected : QueryResult} {rows : List Row}

/-- Rows that keep the order are ordered as the clauses ask exactly if they are sorted, and deduplicated under
DISTINCT. -/
theorem isOrdered_iff (hsort : ∀ α, IsStableSort (context.sort α))
    (hprojected : projectRows ops plans context fromColumns select (.ok grouped) = .ok projected)
    (h : RowsKeepOrder ops plans context select grouped projected) {sorted : List Row}
    (hsorted : StablySorted (compareIn (WindowOperator.rowEvaluator ops)
      (createEvaluationContext projected.columnNames) select.orderBy) projected.rows sorted) :
    IsOrdered ops plans select grouped projected rows ↔
      rows = if select.distinct then distinctRows sorted else sorted := by
  rw [IsOrdered]
  split_ifs with hdistinct
  · have hfresh := hsorted.fresh DistinctOperator.eq_of_sameRow
    rw [← DistinctOperator.distinctRows_eq_fresh, ← DistinctOperator.distinctRows_eq_fresh] at hfresh
    refine ⟨fun hrows => ?_, fun hrows => hrows ▸ hfresh⟩
    refine StablySorted.unique (h.order.mono fun row hrow => ?_) hrows hfresh
    rw [DistinctOperator.distinctRows_eq_fresh] at hrow
    exact (fresh_sublist [] projected.rows).subset hrow
  · have hkeys := h.keys (Bool.eq_false_iff.mpr hdistinct)
    -- pairs compare as the rows of the select list in them
    have hcompare {pairs : List (Row × Row)} (hpairs : IsPairing ops plans select grouped projected pairs) :
        ∀ a ∈ pairs, ∀ b ∈ pairs, compareIn (WindowOperator.rowEvaluator ops) (orderColumns grouped projected)
          select.orderBy a b = compareIn (WindowOperator.rowEvaluator ops)
            (createEvaluationContext projected.columnNames) select.orderBy a.2 b.2 :=
      fun a ha b hb => SortOperator.compareIn_congr (hkeys pairs hpairs a ha) (hkeys pairs hpairs b hb)
    constructor
    · rintro ⟨pairs, pairs', hpairs, hsorted', rfl⟩
      have hmap := (hsorted'.congr fun a ha b hb => (hcompare hpairs a ha b hb).symm).map
      rw [hpairs.projected] at hmap
      exact StablySorted.unique h.order hmap hsorted
    · rintro rfl
      have hpairs : IsPairing ops plans select grouped projected (grouped.rows.zip projected.rows) :=
        isPairing_zip hsort hprojected
      have horder : IsOrderOn (compareIn (WindowOperator.rowEvaluator ops) (orderColumns grouped projected)
          select.orderBy) (grouped.rows.zip projected.rows) := by
        refine IsOrderOn.congr (IsOrderOn.comap ?_) (hcompare hpairs)
        rw [hpairs.projected]
        exact h.order
      have hsorted' := stablySorted_mergeSort horder
      refine ⟨_, _, hpairs, hsorted', ?_⟩
      have hmap := (hsorted'.congr fun a ha b hb => (hcompare hpairs a ha b hb).symm).map
      rw [hpairs.projected] at hmap
      exact StablySorted.unique h.order hsorted hmap

/-- Where HAVING comes with an aggregation, the plan groups as the clauses ask. -/
theorem groupedRows_eq (table : QueryResult) (h : select.having ≠ none → hasAggregation ops select = true) :
    groupedRows ops plans context select table = if hasAggregation ops select
      then (planAggregation .query ops plans select).execute ops Empty.elim
        (filterResult ops context select.whereClause (.ok table))
      else filterResult ops context select.whereClause (.ok table) := by
  rw [groupedRows]
  split_ifs with haggregation
  · rfl
  · have hhaving : select.having = none := by_contra fun hne => haggregation (h hne)
    rw [hhaving]
    rfl

/-- If HAVING comes with an aggregation and is still true after the projection, OFFSET comes with LIMIT or skips no
row, DISTINCT comes without LIMIT or there are no repeated rows, and ORDER BY needs only the columns of the select
list or comes with DISTINCT and orders the rows, then the plan returns exactly what the clauses ask for. -/
theorem planSelect_answers (hsort : ∀ α, IsStableSort (context.sort α)) {table : QueryResult}
    (h : KeepsOrder ops plans context fromColumns select table) :
    Answers ops plans context fromColumns select table := by
  intro result
  have hgrouping : groupedRows ops plans context select table = if hasAggregation ops select
      then (planAggregation .query ops plans select).execute ops Empty.elim
        (filterResult ops context select.whereClause (.ok table))
      else filterResult ops context select.whereClause (.ok table) := groupedRows_eq table h.having
  rw [execute_planSelect, ← hgrouping]
  rcases hgrouped : groupedRows ops plans context select table with e | grouped
  · have hproject : projectRows ops plans context fromColumns select (.error e) = .error e :=
      isProjection_planProjection.execute_error e
    rw [hproject, filterResult_error, finishRows_error]
    refine iff_of_false nofun fun ⟨_, _, _, hgrouped', _⟩ => ?_
    cases hgrouped.symm.trans hgrouped'
  rcases hprojected : projectRows ops plans context fromColumns select (.ok grouped) with e | projected
  · rw [filterResult_error, finishRows_error]
    refine iff_of_false nofun fun ⟨_, _, _, hgrouped', hprojected', _⟩ => ?_
    cases hgrouped.symm.trans hgrouped'
    cases hprojected.symm.trans hprojected'
  have hkeeps := h.rows grouped projected hgrouped hprojected
  obtain ⟨sorted, hsorted, hfinish⟩ := exists_finishRows hsort hkeeps.order h.offset
  have hordered {rows : List Row} : IsOrdered ops plans select grouped projected rows ↔
      rows = if select.distinct then distinctRows sorted else sorted := isOrdered_iff hsort hprojected hkeeps hsorted
  have hrows : (if select.distinct then distinctRows (limitRows select.limit select.offset sorted)
      else limitRows select.limit select.offset sorted) =
        limitRows select.limit select.offset (if select.distinct then distinctRows sorted else sorted) := by
    split_ifs with hdistinct
    · exact limitRows_distinctRows hsorted.perm (hkeeps.distinct hdistinct) h.offset
    · rfl
  rw [filterResult_having hkeeps.having, hfinish, hrows, Except.ok.injEq]
  constructor
  · rintro rfl
    exact ⟨grouped, projected, _, hgrouped, hprojected, hordered.mpr rfl, rfl⟩
  · rintro ⟨grouped', projected', rows, hgrouped', hprojected', hrows', rfl⟩
    cases hgrouped.symm.trans hgrouped'
    cases hprojected.symm.trans hprojected'
    rw [hordered.mp hrows']

end Answers

end Clauses

/-- `SELECT * FROM t` with LIMIT and OFFSET -/
def selectAll (limit offset : Option ℤ) : SelectStatement Unit where
  distinct := false
  columns := [⟨.star, none⟩]
  whereClause := none
  groupBy := []
  having := none
  orderBy := []
  limit := limit
  offset := offset

/-- The execution of a statement on its own, with a sort that refuses what is no order -/
noncomputable def strictContext : ExecutionContext where
  sort _ := strictSort (.panic "not a total order")
  overflowChecks := false
  tableAlias := none
  outerValues := ∅

/-- Under LIMIT rows are skipped. -/
theorem isAnswer_selectAll :
    letI : DebugText := ⟨fun _ => "", fun _ => "", fun _ => ""⟩
    letI : FloatArithmetic := ⟨fun x _ => x, fun x _ => x, fun _ => 0, fun _ => false, fun _ => 0⟩
    IsAnswer noOperations ⟨id, fun _ => false⟩ strictContext ["a"] (selectAll (some 1) (some 1))
      ⟨[[.integer 1], [.integer 2], [.integer 3]], ["a"]⟩ ⟨[[.integer 2]], ["a"]⟩ := by
  let texts : DebugText := ⟨fun _ => "", fun _ => "", fun _ => ""⟩
  let arithmetic : FloatArithmetic := ⟨fun x _ => x, fun x _ => x, fun _ => 0, fun _ => false, fun _ => 0⟩
  have hkeeps : KeepsOrder noOperations ⟨id, fun _ => false⟩ strictContext ["a"] (selectAll (some 1) (some 1))
      ⟨[[.integer 1], [.integer 2], [.integer 3]], ["a"]⟩ := by
    refine ⟨fun h => absurd rfl h, nofun, fun grouped projected _ _ => ⟨nofun, nofun, ?_, ?_⟩⟩
    · exact (isOrderOn_eq _).congr fun _ _ _ _ => SortOperator.compareIn_self rfl _ _
    · intro _ _ _ _ _ item hitem
      cases hitem
  exact (planSelect_answers (fun α => isStableSort_strictSort _) hkeeps _).mp rfl

/-- Without LIMIT a row is not skipped. -/
theorem offset_ignored : ¬ ∀ (_ : DebugText) (_ : FloatArithmetic) (S : Type) (ops : Operations S)
    (plans : PlanningOperations S) (context : ExecutionContext) (fromColumns : List String)
    (select : SelectStatement S) (table : QueryResult), (∀ α, IsStableSort (context.sort α)) →
      Answers ops plans context fromColumns select table := by
  intro h
  let texts : DebugText := ⟨fun _ => "", fun _ => "", fun _ => ""⟩
  let arithmetic : FloatArithmetic := ⟨fun x _ => x, fun x _ => x, fun _ => 0, fun _ => false, fun _ => 0⟩
  have hanswers := h texts arithmetic Unit noOperations ⟨id, fun _ => false⟩ strictContext ["a"]
    (selectAll none (some 1)) ⟨[[.integer 1]], ["a"]⟩ fun α => isStableSort_strictSort _
  obtain ⟨grouped, projected, rows, hgrouped, hprojected, hordered, hresult⟩ := (hanswers ⟨[[.integer 1]], ["a"]⟩).mp rfl
  obtain rfl := Except.ok.inj hgrouped
  obtain rfl := Except.ok.inj hprojected
  obtain ⟨pairs, pairs', hpairs, hsorted, rfl⟩ := hordered
  have hlength : (pairs'.map Prod.snd).length = 1 := by
    rw [List.length_map, hsorted.perm.length_eq, ← List.length_map (f := Prod.snd), hpairs.projected]
    rfl
  have hrows : [[.integer 1]] = (pairs'.map Prod.snd).drop 1 := congrArg QueryResult.rows hresult
  have hone := congrArg List.length hrows
  rw [List.length_drop, hlength] at hone
  cases hone

end QueryPlanner

end Rustgresql
