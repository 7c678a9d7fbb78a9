import Rustgresql.Executor.Aggregate

/-!
# What an aggregation returns, and what HAVING sees

The columns of an aggregation depend on whether its input is empty: `dataIndependent_iff`. HAVING takes two
different aggregates for the same if their calls have the same key: `looksUpOwn_iff`.
-/

namespace Rustgresql

open ExpressionEvaluator

namespace AggregateOperator

variable {S W : Type}

/-! ## Columns -/

/-- The window operator adds the columns of the window functions. -/
theorem columnNames_of_applyWindows {op : AggregateOperator S W} {window : WindowEvaluator W}
    {input result : QueryResult} (h : op.applyWindows window input = .ok result) :
    result.columnNames = input.columnNames ++ op.windowFunctions.map Prod.fst := by
  unfold applyWindows at h
  split at h
  · next hempty =>
    obtain rfl := Except.ok.inj h
    rw [List.isEmpty_iff.mp hempty, List.map_nil, List.append_nil]
  · unfold WindowOperator.executeUnpartitioned at h
    split at h
    · obtain rfl := Except.ok.inj h
      rfl
    · obtain ⟨results, -, h⟩ := Result.bind_eq_ok.mp h
      obtain rfl := Except.ok.inj h
      rfl

section Columns

variable [DebugText] [FloatArithmetic] {ops : Operations S} {window : WindowEvaluator W}
  {op : AggregateOperator S W} {input result : QueryResult}

theorem execute_empty (hempty : input.rows = []) : op.execute ops window (.ok input) = op.executeEmpty ops window :=
  if_pos (List.isEmpty_iff.mpr hempty)

theorem execute_nonempty (hempty : input.rows ≠ []) : op.execute ops window (.ok input) = op.applyWindows window
    ⟨((op.groups ops input).pairs.map fun p => groupRow p.2).filter (op.keepsGroup ops), op.resultColumnNames⟩ :=
  if_neg (mt List.isEmpty_iff.mp hempty)

/-- The columns for empty input are those of the aggregates and of the window functions, twice if they run. -/
theorem columnNames_empty (hempty : input.rows = []) (h : op.execute ops window (.ok input) = .ok result) :
    result.columnNames = op.aggregateFunctions.map Prod.fst ++ op.windowFunctions.map Prod.fst ++
      if op.groupByColumns = [] then op.windowFunctions.map Prod.fst else [] := by
  rw [execute_empty hempty, executeEmpty] at h
  by_cases hgroupBy : op.groupByColumns = []
  · rw [if_pos (List.isEmpty_iff.mpr hgroupBy)] at h
    rw [if_pos hgroupBy]
    exact columnNames_of_applyWindows h
  · rw [if_neg (mt List.isEmpty_iff.mp hgroupBy)] at h
    obtain rfl := Except.ok.inj h
    rw [if_neg hgroupBy, List.append_nil]

theorem columnNames_nonempty (hempty : input.rows ≠ []) (h : op.execute ops window (.ok input) = .ok result) :
    result.columnNames = op.resultColumnNames ++ op.windowFunctions.map Prod.fst := by
  rw [execute_nonempty hempty] at h
  exact columnNames_of_applyWindows h

theorem length_groupRow {p : String × Group} (hp : p ∈ (op.groups ops input).pairs) :
    (groupRow p.2).length = op.groupByColumns.length + op.aggregateFunctions.length := by
  obtain ⟨row, -, -, hvalues, hrow⟩ := of_mem_groups hp
  rw [hrow, rowOf, List.length_append, hvalues, groupValues, List.length_map, List.length_map]

/-- The result of an aggregation has the same columns for every input, none of them more often than the
operator names it, and one value per column. HAVING filters the single group of empty input, too. -/
def DataIndependent (ops : Operations S) (window : WindowEvaluator W) (op : AggregateOperator S W) : Prop :=
  ∃ names : List String, (∀ name, names.count name ≤ op.resultColumnNames.count name) ∧
    ∀ input : QueryResult, ∃ result, op.execute ops window (.ok input) = .ok result ∧
      result.columnNames = names ∧ (∀ row ∈ result.rows, row.length = names.length) ∧
      (input.rows = [] → op.groupByColumns = [] → result.rows = [op.initialRow ops].filter (op.keepsGroup ops))

theorem dataIndependent_of (hgroupBy : op.groupByColumns = []) (hwindow : op.windowFunctions = [])
    (hhaving : op.keepsGroup ops (op.initialRow ops) = true) : op.DataIndependent ops window := by
  have hnone (result : QueryResult) : op.applyWindows window result = .ok result :=
    if_pos (List.isEmpty_iff.mpr hwindow)
  have hcolumns : op.resultColumnNames = op.aggregateFunctions.map Prod.fst := by
    rw [resultColumnNames, hgroupBy, hwindow]
    simp
  refine ⟨op.resultColumnNames, fun _ => le_rfl, fun input => ?_⟩
  by_cases hempty : input.rows = []
  · refine ⟨⟨[op.initialRow ops], op.resultColumnNames⟩, ?_, rfl, fun row hrow => ?_, fun _ _ => ?_⟩
    · rw [execute_empty hempty, executeEmpty, if_pos (List.isEmpty_iff.mpr hgroupBy), hnone, hcolumns, hwindow]
      simp
    · rw [List.mem_singleton.mp hrow, hcolumns, initialRow, List.length_map, List.length_map]
    · rw [List.filter_cons_of_pos hhaving, List.filter_nil]
  · refine ⟨_, (execute_nonempty hempty).trans (hnone _), rfl, fun row hrow => ?_, fun h => absurd h hempty⟩
    obtain ⟨p, hp, rfl⟩ := List.mem_map.mp (List.mem_of_mem_filter hrow)
    rw [length_groupRow hp, hcolumns, hgroupBy, List.length_map, List.length_nil, Nat.zero_add]

/-- The columns do not depend on the input if and only if there is no GROUP BY and no window function, and
HAVING keeps the single group of empty input. -/
theorem dataIndependent_iff : op.DataIndependent ops window ↔
    op.groupByColumns = [] ∧ op.windowFunctions = [] ∧ op.keepsGroup ops (op.initialRow ops) = true := by
  refine ⟨fun ⟨names, honce, hresults⟩ => ?_, fun ⟨hgroupBy, hwindow, hhaving⟩ => dataIndependent_of hgroupBy hwindow hhaving⟩
  obtain ⟨result, hexecute, hnames, -, hrows⟩ := hresults ⟨[], []⟩
  obtain ⟨result', hexecute', hnames', -, -⟩ := hresults ⟨[[]], []⟩
  have hempty := columnNames_empty rfl hexecute
  have hnonempty := columnNames_nonempty (List.cons_ne_nil _ _) hexecute'
  have hgroupBy : op.groupByColumns = [] := by
    by_contra hne
    have hlength := congrArg List.length (hempty.symm.trans (hnames.trans (hnames'.symm.trans hnonempty)))
    have hpos := List.length_pos_iff.mpr hne
    rw [if_neg hne, resultColumnNames] at hlength
    simp only [List.length_append, List.length_map, List.length_nil] at hlength
    omega
  have hwindow : op.windowFunctions = [] := by
    -- the columns of the window functions have been added twice
    have hnone : op.windowFunctions.map Prod.fst = [] := by
      refine List.eq_nil_iff_forall_not_mem.mpr fun name hname => ?_
      have hcount := honce name
      have hpos : 0 < (op.windowFunctions.map Prod.fst).count name := List.count_pos_iff.mpr hname
      rw [← hnames, hempty, if_pos hgroupBy, resultColumnNames, hgroupBy, List.map_nil, List.nil_append,
        List.count_append] at hcount
      omega
    exact List.map_eq_nil_iff.mp hnone
  refine ⟨hgroupBy, hwindow, ?_⟩
  have hresult : op.execute ops window (.ok ⟨[], []⟩) = .ok ⟨[op.initialRow ops], op.aggregateFunctions.map Prod.fst⟩ := by
    rw [execute_empty rfl, executeEmpty, if_pos (List.isEmpty_iff.mpr hgroupBy), applyWindows,
      if_pos (List.isEmpty_iff.mpr hwindow), hwindow, List.map_nil, List.append_nil]
  have hfiltered := hrows rfl hgroupBy
  rw [← Except.ok.inj (hresult.symm.trans hexecute)] at hfiltered
  exact (List.filter_eq_self.mp hfiltered.symm) _ List.mem_cons_self

end Columns

/-- Without rows the column of GROUP BY is missing. -/
theorem column_missing : ¬ ∀ (_ : DebugText) (_ : FloatArithmetic) (S W : Type) (ops : Operations S)
    (window : WindowEvaluator W) (op : AggregateOperator S W), op.DataIndependent ops window := by
  intro h
  let texts : DebugText := ⟨fun _ => "", fun _ => "", fun _ => ""⟩
  let arithmetic : FloatArithmetic := ⟨fun x _ => x, fun x _ => x, fun _ => 0, fun _ => false, fun _ => 0⟩
  obtain ⟨names, -, hresults⟩ := h texts arithmetic Unit Unit noOperations (fun _ _ _ => .ok fun _ => .null) countByKey
  obtain ⟨result, hexecute, hnames, -⟩ := hresults ⟨[], ["k"]⟩
  obtain ⟨result', hexecute', hnames', -⟩ := hresults ⟨[[.integer 1]], ["k"]⟩
  have hempty : result.columnNames = ["count"] := columnNames_empty rfl hexecute
  have hnonempty : result'.columnNames = ["k", "count"] := columnNames_nonempty (List.cons_ne_nil _ _) hexecute'
  have hlength := congrArg List.length (hempty.symm.trans (hnames.trans (hnames'.symm.trans hnonempty)))
  cases hlength

/-! ## Aggregates in HAVING -/

section Having

variable {ops : Operations S} {op : AggregateOperator S W}

/-- A call of COUNT, SUM, AVG, MIN or MAX -/
def IsAggregateCall (ops : Operations S) : Expression S → Prop
  | .function name _ _ => IsAggregateName (ops.toUppercase name)
  | _ => False

/-- The key under which the value of a call is found. -/
def callKey (ops : Operations S) : Expression S → Option String
  | .function name args _ => some (functionKey ops name args)
  | _ => none

/-- The last expression of the select list that has a key. -/
def lastWithKey (ops : Operations S) (op : AggregateOperator S W) (key : Option String) :
    Option (String × Expression S) :=
  LastMatch.find (fun f => callKey ops f.2 = key) op.aggregateFunctions

/-- The row of a group whose aggregates have given values. -/
def rowWith (op : AggregateOperator S W) (values : Row) (valuation : Expression S → Value) : Row :=
  values ++ op.aggregateFunctions.map fun f => valuation f.2

theorem lookup_havingAggregates {values : Row} (hvalues : values.length = op.groupByColumns.length)
    (valuation : Expression S → Value) (key : String) :
    (op.havingAggregates ops (op.rowWith values valuation)).lookup key =
      (op.lastWithKey ops (some key)).map fun f => valuation f.2 := by
  have hrow : op.aggregateFunctions.zip ((op.rowWith values valuation).drop op.groupByColumns.length) =
      op.aggregateFunctions.map fun f => (f, valuation f.2) := by
    have hzip := List.zip_map' (f := id) (g := fun f => valuation f.2) (l := op.aggregateFunctions)
    rw [List.map_id] at hzip
    rw [rowWith, ← hvalues, List.drop_left, hzip]
    rfl
  have hlookup := HashMap.lookup_foldl_insert (fun f => callKey ops f.2) (fun f => valuation f.2)
    op.aggregateFunctions ∅ key
  rw [AList.lookup_empty, Option.or_none] at hlookup
  rw [havingAggregates, hrow, List.foldl_map, lastWithKey, ← hlookup]
  congr 2
  funext aggregates f
  cases f.2 <;> rfl

/-- In HAVING every aggregate call of the select list has its own value, whatever the values of the
aggregates are. -/
def LooksUpOwn (ops : Operations S) (op : AggregateOperator S W) : Prop :=
  ∀ (values : Row) (valuation : Expression S → Value), values.length = op.groupByColumns.length →
    ∀ f ∈ op.aggregateFunctions, IsAggregateCall ops f.2 →
      evaluate ops (op.havingContext ops (op.rowWith values valuation)) f.2 = .ok (valuation f.2)

/-- A call has the value of the last expression of the select list with its key. -/
theorem evaluate_call {values : Row} (hvalues : values.length = op.groupByColumns.length)
    (valuation : Expression S → Value) {e : Expression S} (he : IsAggregateCall ops e) {f : String × Expression S}
    (hlast : op.lastWithKey ops (callKey ops e) = some f) :
    evaluate ops (op.havingContext ops (op.rowWith values valuation)) e = .ok (valuation f.2) := by
  cases e
  case function name args distinct =>
    have hfind : op.lastWithKey ops (some (functionKey ops name args)) = some f := hlast
    refine evaluate_aggregateCall he rfl ?_
    rw [lookup_havingAggregates hvalues, hfind]
    rfl
  all_goals exact he.elim

/-- The key of an expression of the select list is found. -/
theorem exists_lastWithKey {f : String × Expression S} (hf : f ∈ op.aggregateFunctions) :
    ∃ f', op.lastWithKey ops (callKey ops f.2) = some f' := by
  rcases hlast : op.lastWithKey ops (callKey ops f.2) with - | f'
  · have hnone := LastMatch.find_eq_none.mp hlast f hf
    exact absurd rfl (of_decide_eq_false hnone)
  · exact ⟨f', rfl⟩

open scoped Classical in
/-- Every aggregate call has its own value in HAVING if and only if the last expression of the select list
with its key is the same call. -/
theorem looksUpOwn_iff : op.LooksUpOwn ops ↔ ∀ f ∈ op.aggregateFunctions, IsAggregateCall ops f.2 →
    ∀ f', op.lastWithKey ops (callKey ops f.2) = some f' → f'.2 = f.2 := by
  constructor
  · intro h f hf hcall f' hlast
    -- tell the value of the call from all others
    let valuation (e : Expression S) : Value := .boolean (e = f.2)
    have hvalues : (op.groupByColumns.map fun _ => Value.null).length = op.groupByColumns.length := List.length_map ..
    have hown := h _ valuation hvalues f hf hcall
    rw [evaluate_call hvalues valuation hcall hlast] at hown
    simpa [valuation] using hown
  · intro h values valuation hvalues f hf hcall
    have hkey : ∃ f', op.lastWithKey ops (callKey ops f.2) = some f' := exists_lastWithKey hf
    obtain ⟨f', hlast⟩ := hkey
    rw [evaluate_call hvalues valuation hcall hlast, h f hf hcall f' hlast]

/-- Over a group a call has the value of the last expression of the select list with its key. -/
theorem evaluate_call_group [DebugText] [FloatArithmetic] {input : QueryResult} {p : String × Group}
    (hp : p ∈ (op.groups ops input).pairs) {e : Expression S} (he : IsAggregateCall ops e)
    {f : String × Expression S} (hlast : op.lastWithKey ops (callKey ops e) = some f) :
    evaluate ops (op.havingContext ops (groupRow p.2)) e = .ok (aggregate ops input.columnNames
      (input.rows.filter fun row => op.groupKey ops input.columnNames row = p.1) f.2) := by
  obtain ⟨row, -, -, hvalues, hrow⟩ := of_mem_groups hp
  have hlength : p.2.1.length = op.groupByColumns.length := by
    rw [hvalues, groupValues, List.length_map]
  rw [hrow]
  exact evaluate_call hlength (aggregate ops input.columnNames
    (input.rows.filter fun row => op.groupKey ops input.columnNames row = p.1)) he hlast

end Having

/-- All rows and the different values of the column `x` are counted in the groups of `k`. -/
def countTwice : AggregateOperator Unit Unit where
  groupByColumns := [.column none "k"]
  aggregateFunctions := [("total", .function "COUNT" [.column none "x"] false),
    ("different", .function "COUNT" [.column none "x"] true)]
  havingClause := some (.function "COUNT" [.column none "x"] false)
  windowFunctions := []

/-- In HAVING `COUNT(x)` has the value of `COUNT(DISTINCT x)`. -/
theorem distinct_ignored : ¬ ∀ (_ : DebugText) (_ : FloatArithmetic) (S W : Type) (ops : Operations S)
    (op : AggregateOperator S W) (input : QueryResult), op.groupByColumns ≠ [] →
    ∀ p ∈ (op.groups ops input).pairs, ∀ f ∈ op.aggregateFunctions, IsAggregateCall ops f.2 →
      evaluate ops (op.havingContext ops (groupRow p.2)) f.2 = .ok (aggregate ops input.columnNames
        (input.rows.filter fun row => op.groupKey ops input.columnNames row = p.1) f.2) := by
  intro h
  let texts : DebugText := ⟨fun _ => "", fun _ => "", fun _ => ""⟩
  let arithmetic : FloatArithmetic := ⟨fun x _ => x, fun x _ => x, fun _ => 0, fun _ => false, fun _ => 0⟩
  let input : QueryResult := ⟨[[.integer 1, .integer 5], [.integer 1, .integer 5]], ["k", "x"]⟩
  have hgroup : ∃ group, (countTwice.groupKey noOperations input.columnNames [.integer 1, .integer 5], group) ∈
      (countTwice.groups noOperations input).pairs := exists_mem_groups List.mem_cons_self
  obtain ⟨group, hp⟩ := hgroup
  have hcall : IsAggregateCall noOperations (.function "COUNT" [.column none "x"] false : Expression Unit) := by
    show "COUNT" ∈ ["COUNT", "SUM", "AVG", "MIN", "MAX"]
    decide
  have hown := h texts arithmetic Unit Unit noOperations countTwice input (List.cons_ne_nil _ _) _ hp _
    List.mem_cons_self hcall
  rw [evaluate_call_group hp hcall rfl] at hown
  -- one value against two rows
  cases hown

end AggregateOperator

end Rustgresql
