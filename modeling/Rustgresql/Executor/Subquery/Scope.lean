import Rustgresql.Executor.AggregateOutput
import Rustgresql.Executor.Planner.Aggregates
import Rustgresql.Executor.Planner.ClauseOrder
import Rustgresql.Executor.Subquery.References

/-!
# The scope of subqueries

A reference in a subquery is to a column of its own tables if they have it, and otherwise to the outer row.
`isScoped_iff`: subqueries are executed so if and only if no reference finds a value of the outer row that it should
not, and none to the outer row stands where its values are not known.
-/

namespace Rustgresql

open ExpressionEvaluator SubqueryOperator QueryPlanner StableSort

open JoinNames (JoinClause)

open HashMap (insertAll IsImage)

variable {S ι : Type}

/-! ## Sites -/

/-- Where expressions are evaluated: on rows with the values of the outer row, or in contexts without them. The names
are those of the columns of the input. -/
inductive Site (S : Type)
  | row (names : List String) (exprs : List (Expression S))
  | other (names : List String) (exprs : List (Expression S)) (context : Row → Context)

namespace PlanNode

/-- The names of the columns that a plan yields -/
def columnNames (source : List String) : PlanNode S → List String
  | .source => source
  | .filter input _ => columnNames source input
  | .project _ columns => columns.map Prod.fst
  | .aggregate _ op => op.resultColumnNames
  | .window input windowFunctions =>
    columnNames source input ++ (WindowOperator.ofPlan windowFunctions).windowFunctions.map Prod.fst
  | .sort input _ => columnNames source input
  | .limit input _ _ => columnNames source input
  | .distinct input => columnNames source input

/-- The expressions of aggregate functions that are evaluated on rows -/
def aggregateArguments (aggregateFunctions : List (String × Expression S)) : List (Expression S) :=
  aggregateFunctions.flatMap fun f => match f.2 with
    | .function _ args _ => args
    | e => [e]

def windowArguments (f : WindowFunction (Expression S)) : List (Expression S) :=
  f.args ++ (f.windowClause.partitionBy ++ f.windowClause.orderBy.map Sql.OrderBy.expr)

/-- Only filters and projections have the values of the outer row. -/
def sites (ops : Operations S) (source : List String) : PlanNode S → List (Site S)
  | .source => []
  | .filter input condition => .row (columnNames source input) [condition] :: sites ops source input
  | .project input columns => .row (columnNames source input) (columns.map Prod.snd) :: sites ops source input
  | .aggregate input op =>
    .other (columnNames source input) (op.groupByColumns ++ aggregateArguments op.aggregateFunctions)
        (AggregateOperator.rowContext (columnNames source input)) ::
      .other op.resultColumnNames op.havingClause.toList (op.havingContext ops) :: sites ops source input
  | .window input windowFunctions =>
    .other (columnNames source input)
        ((WindowOperator.ofPlan windowFunctions).windowFunctions.flatMap fun f => windowArguments f.2)
        (WindowOperator.sortingContext (columnNames source input)) :: sites ops source input
  | .sort input orderBy =>
    .other (columnNames source input) (orderBy.map Sql.OrderBy.expr)
        (WindowOperator.sortingContext (columnNames source input)) :: sites ops source input
  | .limit input _ _ => sites ops source input
  | .distinct input => sites ops source input

end PlanNode

/-- The conditions of joins -/
def joinSites (columns : String → List String) : Optimizer.PlanNode S Empty → List (Site S)
  | .join left right condition joinType leftAlias rightAlias =>
    let leftNames := JoinNames.columnNames columns Empty.elim left
    let rightNames := JoinNames.columnNames columns Empty.elim right
    let op : JoinOperator S := ⟨condition, joinType, leftAlias, rightAlias⟩
    .other [] condition.toList (fun row =>
        op.joinContext (row.take leftNames.length) (row.drop leftNames.length) leftNames rightNames) ::
      (joinSites columns left ++ joinSites columns right)
  | .filter input _ => joinSites columns input
  | .project input _ _ _ _ => joinSites columns input
  | _ => []

namespace QueryDatabase

variable (db : QueryDatabase S) (st : SubqueryStatement S)

/-- The columns of a table. A table that does not exist has none. -/
def columnNames (tableName : String) : List String := (db.columns tableName).toOption.getD []

def sourceNames : List String := JoinNames.columnNames db.columnNames Empty.elim st.sourcePlan

/-- All places where expressions of a subquery are evaluated -/
def sites [FloatOperators] [DebugText] : List (Site S) :=
  joinSites db.columnNames st.sourcePlan ++
    (db.plan st).sites (evaluatorOperations db.parameters db.depth) (db.sourceNames st)

/-! ## Scope -/

/-- A table of the subquery has the column. -/
def HasColumn (table : Option String) (name : String) : Prop :=
  ∃ t ∈ st.first :: st.allJoins.map JoinClause.table,
    (table = none ∨ table = some (t.alias.getD t.name)) ∧ name ∈ db.columnNames t.name

/-- The reference is to a column of the tables, or of the input. -/
def IsOwn (names : List String) (table : Option String) (name : String) : Prop :=
  db.HasColumn st table name ∨ (table = none ∧ name ∈ names)

instance (table : Option String) (name : String) : Decidable (db.HasColumn st table name) :=
  inferInstanceAs (Decidable (∃ t ∈ _, _))

instance (names : List String) (table : Option String) (name : String) : Decidable (db.IsOwn st names table name) :=
  inferInstanceAs (Decidable (_ ∨ _))

variable (outerRow : List (String × ι))

/-- The column of the outer row that a reference is to. The outer row has its columns under names, possibly under
several ones. -/
def outerColumn (names : List String) (table : Option String) (name : String) : Option ι :=
  if db.IsOwn st names table name then none else pick (columnKeys table name) outerRow

end QueryDatabase

/-- The context of an outer row with values for its columns -/
def outerColumns (outerRow : List (String × ι)) (w : ι → Value) : EvaluationContext :=
  insertAll (outerRow.map (Prod.map id w)) ∅

namespace SubqueryStatement

variable (st : SubqueryStatement S) (outerRow : List (String × ι))

/-- The values of the outer row that are injected -/
def passedValues (w : ι → Value) : HashMap String Value :=
  injectColumns (outerValue (outerColumns outerRow w)) (findCorrelatedColumnsInSubquery st)

/-- The columns of the outer row that these are the values of -/
def passedColumns : HashMap String ι :=
  injectColumns (outerValue (insertAll outerRow ∅)) (findCorrelatedColumnsInSubquery st)

end SubqueryStatement

namespace QueryDatabase

variable (db : QueryDatabase S) (st : SubqueryStatement S) (outerRow : List (String × ι))

def rowContext (w : ι → Value) (names : List String) (row : Row) : Context :=
  (db.executionContext st (st.passedValues outerRow w)).row names row

/-- A reference above rows with these columns is bound: to a column of the row, or to one of the outer row. A reference
to neither has the same value as without an outer row. -/
structure BindsReference (names : List String) (r : Reference) : Prop where
  own : db.IsOwn st names r.table r.name → ∃ i < names.length, ∀ w row, row.length = names.length →
    r.value (db.rowContext st outerRow w names row) = .ok row[i]?
  outer : ∀ i, db.outerColumn st outerRow names r.table r.name = some i → ∀ w row, row.length = names.length →
    r.value (db.rowContext st outerRow w names row) = .ok (some (w i))
  unknown : ¬ db.IsOwn st names r.table r.name → db.outerColumn st outerRow names r.table r.name = none →
    ∀ w row, row.length = names.length →
      r.value (db.rowContext st outerRow w names row) = r.value ((db.executionContext st ∅).row names row)

def BindsReferences : Site S → Prop
  | .row names exprs => ∀ e ∈ exprs, ∀ r ∈ e.references db.parameters.toUppercase db.statement,
    db.BindsReference st outerRow names r
  | .other names exprs context => ∀ e ∈ exprs, ∀ r ∈ e.references db.parameters.toUppercase db.statement,
    ∀ i, db.outerColumn st outerRow names r.table r.name = some i →
      ∀ (w : ι → Value) row, r.value (context row) = .ok (some (w i))

/-! ## Replaced references -/

/-- The values that replace the references to an outer row -/
def outerReplacement (w : ι → Value) (names : List String) (table : Option String) (name : String) : Option Value :=
  (db.outerColumn st outerRow names table name).map w

section Replaced

variable [FloatOperators] [DebugText]

/-- The evaluator whose subqueries have references replaced by values -/
def replacedOperations (run : S → HashMap String Value → Result QueryResult) (σ : Option String → String → Option Value) :
    Operations S :=
  evaluatorOperations { db.parameters with subquery := Expression.replacedSubquery σ db.statement run } db.depth

/-- Execute a plan without an outer row, with the references to that row replaced by its values. Where no expression
has such references they need no replacement: the other operators are executed as they are. -/
def executeReplaced (run : S → HashMap String Value → Result QueryResult) (w : ι → Value) (source : Result QueryResult) :
    PlanNode S → Result QueryResult
  | .source => source
  | .filter input condition => do
    let inputResult ← executeReplaced run w source input
    let σ := db.outerReplacement st outerRow w inputResult.columnNames
    FilterOperator.execute (db.replacedOperations run σ) (db.executionContext st ∅) (condition.replaceColumns σ)
      (.ok inputResult)
  | .project input columns => do
    let inputResult ← executeReplaced run w source input
    let σ := db.outerReplacement st outerRow w inputResult.columnNames
    ProjectOperator.execute (db.replacedOperations run σ) (db.executionContext st ∅)
      (columns.map (Prod.map id (Expression.replaceColumns σ))) (.ok inputResult)
  | .aggregate input op => op.execute (db.operations run) Empty.elim (executeReplaced run w source input)
  | .window input windowFunctions =>
    (WindowOperator.ofPlan windowFunctions).execute db.context.sort db.context.overflowChecks (db.operations run)
      (executeReplaced run w source input)
  | .sort input orderBy =>
    SortOperator.execute (db.context.sort Row) (WindowOperator.rowEvaluator (db.operations run)) orderBy
      (executeReplaced run w source input)
  | .limit input n offset => LimitOperator.execute n offset (executeReplaced run w source input)
  | .distinct input => DistinctOperator.execute (executeReplaced run w source input)

/-- Subqueries are scoped: their references are bound to their own tables or to the outer row, and their values are
those of the subquery with its references to the outer row replaced by the values of this row. -/
structure IsScoped (subquery : S) : Prop where
  references : ∀ site ∈ db.sites (db.statement subquery), db.BindsReferences (db.statement subquery) outerRow site
  result : ∀ (tables : db.Rows) (depth : ℕ) (w : ι → Value) (context : Context),
    context.columns = outerColumns outerRow w →
    evaluateSubquery db.statement (tables.run (depth + 1)) subquery context = do
      let run := tables.run depth
      let result ← db.executeReplaced (db.statement subquery) outerRow run w
        (tables.source (db.operations run) (db.statement subquery)) (db.plan (db.statement subquery))
      subqueryValue context.subqueryContext result

end Replaced

/-! ## Names -/

end QueryDatabase

namespace Reference

/-- The keys under which a reference is looked up -/
def keys : Reference → List (String → Bool)
  | column table name => columnKeys table name
  | passed table name => [fun key => key = qualifiedName table name,
      fun key => (afterDot (qualifiedName table name)).map String.ofList = some key]

end Reference

namespace QueryDatabase

variable (db : QueryDatabase S) (st : SubqueryStatement S) (outerRow : List (String × ι))

/-- The names under which a row has its columns -/
def rowNames (names : List String) : List String :=
  (withAlias (st.sourcePlan.extractTableAlias Empty.elim) (names.map fun name => (name, ()))).map Prod.fst

/-- The reference finds that column of the outer row which it is to, if any, and otherwise a column of the row. -/
structure FindsColumn (names : List String) (r : Reference) : Prop where
  outer : captured r.keys (rowNames st names) (st.passedColumns outerRow).pairs =
    db.outerColumn st outerRow names r.table r.name
  own : db.IsOwn st names r.table r.name → ∃ key ∈ r.keys, (rowNames st names).any key = true

def FindsColumns : Site S → Prop
  | .row names exprs => ∀ e ∈ exprs, ∀ r ∈ e.references db.parameters.toUppercase db.statement,
    db.FindsColumn st outerRow names r
  | .other names exprs _ => ∀ e ∈ exprs, ∀ r ∈ e.references db.parameters.toUppercase db.statement,
    db.outerColumn st outerRow names r.table r.name = none

end QueryDatabase

/-! ## Values of references -/

theorem outerValue_insertAll {α : Type} (columns : List (String × α)) (table name : String) :
    outerValue (insertAll columns ∅) (table, name) = pick (Reference.passed table name).keys columns := by
  rw [outerValue, Reference.keys, pick, pick, pick, Option.or_none]
  dsimp only
  rw [lookup_insertAll_empty]
  rcases afterDot (qualifiedName table name) with - | unqualifiedName
  · have hnone : findColumn (fun key => (none : Option (List Char)).map String.ofList = some key) columns = none := by
      refine findColumn_eq_none_iff.mpr (List.any_eq_false.mpr fun key _ => ?_)
      simp
    rw [hnone]
    rfl
  · rw [Option.bind_some, lookup_insertAll_empty]
    refine congrArg _ (congrArg (findColumn · columns) (funext fun key => ?_))
    exact decide_eq_decide.mpr ⟨fun h => congrArg some h.symm, fun h => (Option.some.inj h).symm⟩

namespace Reference

/-- The value of a reference that finds a column or nothing -/
def result (found : Option Value) : Reference → Option Value
  | column _ _ => some (found.getD .null)
  | passed _ _ => found

theorem result_some (v : Value) (r : Reference) : r.result (some v) = some v := by
  cases r <;> rfl

theorem value_insertAll (subqueryContext : Option SubqueryContext) (columns : List (String × Value)) (r : Reference) :
    r.value (.ofColumns subqueryContext (insertAll columns ∅)) = .ok (r.result (pick r.keys columns)) := by
  cases r with
  | column table name =>
    rw [value, columnValue_insertAll]
    rfl
  | passed table name => exact congrArg Except.ok (outerValue_insertAll columns table name)

end Reference

theorem IsImage.outerValue {α β : Type} {f : α → β} {outer : HashMap String α} {outer' : HashMap String β}
    (h : IsImage f outer outer') (column : String × String) :
    outerValue outer' column = (SubqueryOperator.outerValue outer column).map f := by
  rw [SubqueryOperator.outerValue, SubqueryOperator.outerValue, Option.map_or, Option.map_bind, h.lookup]
  exact congrArg _ (congrArg _ (funext fun _ => h.lookup _))

theorem IsImage.injectColumns {α β : Type} {f : α → β} {value : String × String → Option α}
    {value' : String × String → Option β} (h : ∀ column, value' column = (value column).map f)
    (columns : List (String × String)) :
    IsImage f (SubqueryOperator.injectColumns value columns) (SubqueryOperator.injectColumns value' columns) := by
  have hstep {values : HashMap String α} {values' : HashMap String β} (hvalues : IsImage f values values')
      (column : String × String) : IsImage f (injectColumn value values column) (injectColumn value' values' column) := by
    rw [injectColumn, injectColumn, h]
    rcases value column with - | v
    · exact hvalues
    · rcases afterDot (qualifiedName column.1 column.2) with - | unqualifiedName
      · exact hvalues.insert _ v
      · exact (hvalues.insert _ v).insert _ v
  have hfoldl : ∀ {values : HashMap String α} {values' : HashMap String β}, IsImage f values values' →
      IsImage f (columns.foldl (injectColumn value) values) (columns.foldl (injectColumn value') values') := by
    induction columns with
    | nil => exact id
    | cons column columns ih => exact fun hvalues => ih (hstep hvalues column)
  exact hfoldl HashMap.isImage_empty

section Lookup

variable {db : QueryDatabase S} {st : SubqueryStatement S} {outerRow : List (String × ι)}

theorem isImage_passedValues (w : ι → Value) : IsImage w (st.passedColumns outerRow) (st.passedValues outerRow w) := by
  refine IsImage.injectColumns (fun column => IsImage.outerValue ?_ column) _
  exact HashMap.isImage_empty.insertAll outerRow

theorem withAlias_map {α β : Type} (f : α → β) (tableAlias : Option String) (columns : List (String × α)) :
    withAlias tableAlias (columns.map (Prod.map id f)) = (withAlias tableAlias columns).map (Prod.map id f) := by
  rw [withAlias, withAlias, List.flatMap_map, List.map_flatMap]
  refine List.flatMap_congr fun p _ => ?_
  cases tableAlias <;> rfl

/-- The columns of a row, with their positions -/
def rowColumns (st : SubqueryStatement S) (names : List String) : List (String × ℕ) :=
  withAlias (st.sourcePlan.extractTableAlias Empty.elim) names.zipIdx

theorem map_fst_rowColumns (names : List String) :
    (rowColumns st names).map Prod.fst = QueryDatabase.rowNames st names := by
  have hzipIdx : names.map (fun name => (name, ())) = names.zipIdx.map (Prod.map id fun _ => ()) := by
    conv_lhs => rw [← List.zipIdx_map_fst 0 names, List.map_map]
    rfl
  rw [rowColumns, QueryDatabase.rowNames, hzipIdx, withAlias_map, List.map_map]
  rfl

theorem zip_eq_map_zipIdx {names : List String} {row : Row} (h : row.length = names.length) :
    names.zip row = names.zipIdx.map (Prod.map id fun i => row.getD i .null) := by
  refine List.ext_getElem (by simp [h]) fun i hi _ => ?_
  have hrow : i < row.length := (List.length_zip ▸ hi).trans_le (min_le_right _ _)
  simp [hrow]

/-- A reference finds a column of the outer row, or else one of the row. -/
theorem value_row (w : ι → Value) (subqueryContext : Option SubqueryContext) {names : List String} {row : Row}
    (h : row.length = names.length) (r : Reference) :
    r.value (.ofColumns subqueryContext (createBasicEvaluationContext
      (st.sourcePlan.extractTableAlias Empty.elim) (st.passedValues outerRow w) names row)) =
      .ok (r.result (((captured r.keys (QueryDatabase.rowNames st names) (st.passedColumns outerRow).pairs).map w).or
        ((pick r.keys (rowColumns st names)).map fun i => row.getD i .null))) := by
  have hcolumns : withAlias (st.sourcePlan.extractTableAlias Empty.elim) (names.zip row) ++
      (st.passedValues outerRow w).pairs =
      ((rowColumns st names).map (Prod.map id Sum.inl) ++ (st.passedColumns outerRow).pairs.map (Prod.map id Sum.inr)).map
        (Prod.map id (Sum.elim (fun i => row.getD i .null) w)) := by
    rw [zip_eq_map_zipIdx h, withAlias_map, isImage_passedValues w, List.map_append, List.map_map, List.map_map]
    rfl
  rw [createBasicEvaluationContext_eq, hcolumns, Reference.value_insertAll, pick_map, pick_append, Option.map_or,
    Option.map_map, Option.map_map, map_fst_rowColumns]
  rfl

/-- The value without an outer row -/
theorem value_row_empty (subqueryContext : Option SubqueryContext) {names : List String} {row : Row}
    (h : row.length = names.length) (r : Reference) :
    r.value (.ofColumns subqueryContext (createBasicEvaluationContext
      (st.sourcePlan.extractTableAlias Empty.elim) ∅ names row)) =
      .ok (r.result ((pick r.keys (rowColumns st names)).map fun i => row.getD i .null)) := by
  have hcolumns : withAlias (st.sourcePlan.extractTableAlias Empty.elim) (names.zip row) ++
      (∅ : HashMap String Value).pairs = (rowColumns st names).map (Prod.map id fun i => row.getD i .null) := by
    rw [zip_eq_map_zipIdx h, withAlias_map]
    exact List.append_nil _
  rw [createBasicEvaluationContext_eq, hcolumns, Reference.value_insertAll, pick_map]

theorem lt_of_pick_rowColumns {keys : List (String → Bool)} {names : List String} {i : ℕ}
    (h : pick keys (rowColumns st names) = some i) : i < names.length := by
  have hmem := mem_of_pick h
  rw [rowColumns, withAlias, List.map_flatMap, List.mem_flatMap] at hmem
  obtain ⟨p, hp, hi⟩ := hmem
  have hlt := List.snd_lt_of_mem_zipIdx hp
  -- the entry under the alias is for the same position
  obtain rfl | ⟨-, rfl⟩ : i = p.2 ∨ (∃ x, st.sourcePlan.extractTableAlias Empty.elim = some x) ∧ p.2 = i := by
    simpa using hi
  · exact hlt
  · exact hlt

theorem exists_key_iff {keys : List (String → Bool)} {names : List String} :
    (∃ key ∈ keys, (QueryDatabase.rowNames st names).any key = true) ↔ pick keys (rowColumns st names) ≠ none := by
  rw [Ne, pick_eq_none_iff, map_fst_rowColumns, not_forall₂]
  refine exists_congr fun key => ?_
  rw [exists_prop, Bool.not_eq_false]

/-! ## Binding -/

section Found

variable {r : Reference} {found : Option ι} {own : Row → Option Value} {n : ℕ}

theorem result_none_ne (k : ℤ) : r.result none ≠ some (.integer k) := by
  cases r <;> exact nofun

theorem found_of_own {i : ℕ} (hi : i < n) (h : ∀ (w : ι → Value) (row : Row), row.length = n →
    r.result ((found.map w).or (own row)) = row[i]?) : found = none ∧ own (List.replicate n (.integer 0)) ≠ none := by
  have hrow (w : ι → Value) := h w (List.replicate n (.integer 0)) List.length_replicate
  rw [List.getElem?_replicate_of_lt hi] at hrow
  rcases found with - | j
  · refine ⟨rfl, fun hnone => result_none_ne 0 (r := r) ?_⟩
    rw [← hrow fun _ => .null, hnone]
    rfl
  · have hvalue := hrow fun _ => .integer 1
    rw [Option.map_some, Option.some_or, Reference.result_some] at hvalue
    cases hvalue

/-- A value that depends on the outer row comes from it. -/
theorem found_of_outer {i : ι} (h : ∀ (w : ι → Value) (row : Row), row.length = n →
    r.result ((found.map w).or (own row)) = some (w i)) : found = some i := by
  classical
  have hrow (w : ι → Value) := h w (List.replicate n .null) List.length_replicate
  rcases found with - | j
  · have hvalues := (hrow fun _ => .integer 0).symm.trans (hrow fun _ => .integer 1)
    cases hvalues
  · have hvalue := hrow fun k => if k = i then .integer 1 else .integer 0
    rw [Option.map_some, Option.some_or, Reference.result_some, if_pos rfl] at hvalue
    by_contra hne
    rw [if_neg fun heq => hne (congrArg some heq)] at hvalue
    cases hvalue

theorem found_of_unknown (h : ∀ (w : ι → Value) (row : Row), row.length = n →
    r.result ((found.map w).or (own row)) = r.result (own row)) : found = none := by
  rcases found with - | j
  · rfl
  · have hrow (w : ι → Value) := h w (List.replicate n .null) List.length_replicate
    have hvalues := (hrow fun _ => .integer 0).trans (hrow fun _ => .integer 1).symm
    rw [Option.map_some, Option.map_some, Option.some_or, Option.some_or, Reference.result_some,
      Reference.result_some] at hvalues
    cases hvalues

end Found

theorem findsColumn_of_binds {names : List String} {r : Reference} (h : db.BindsReference st outerRow names r) :
    db.FindsColumn st outerRow names r := by
  have hvalue (w : ι → Value) {row : Row} (hrow : row.length = names.length) :
      r.value (db.rowContext st outerRow w names row) = _ := value_row w none hrow r
  have hvalue' {row : Row} (hrow : row.length = names.length) :
      r.value ((db.executionContext st ∅).row names row) = _ := value_row_empty none hrow r
  have hown (hown : db.IsOwn st names r.table r.name) :
      captured r.keys (QueryDatabase.rowNames st names) (st.passedColumns outerRow).pairs = none ∧
        pick r.keys (rowColumns st names) ≠ none := by
    obtain ⟨i, hi, hbound⟩ := h.own hown
    have hfound := found_of_own hi fun w row hrow => Except.ok.inj ((hvalue w hrow).symm.trans (hbound w row hrow))
    exact ⟨hfound.1, fun hnone => hfound.2 (by rw [hnone]; rfl)⟩
  refine ⟨?_, fun h => exists_key_iff.mpr (hown h).2⟩
  rcases houter : db.outerColumn st outerRow names r.table r.name with - | i
  · by_cases hisOwn : db.IsOwn st names r.table r.name
    · exact (hown hisOwn).1
    · exact found_of_unknown fun w row hrow => Except.ok.inj ((hvalue w hrow).symm.trans
        ((h.unknown hisOwn houter w row hrow).trans (hvalue' hrow)))
  · exact found_of_outer fun w row hrow => Except.ok.inj ((hvalue w hrow).symm.trans (h.outer i houter w row hrow))

theorem binds_of_findsColumn {names : List String} {r : Reference} (h : db.FindsColumn st outerRow names r) :
    db.BindsReference st outerRow names r := by
  have hvalue (w : ι → Value) {row : Row} (hrow : row.length = names.length) :
      r.value (db.rowContext st outerRow w names row) = _ := value_row w none hrow r
  refine ⟨fun hown => ?_, fun i hi w row hrow => ?_, fun hown hunknown w row hrow => ?_⟩
  · obtain ⟨i, hi⟩ := Option.ne_none_iff_exists'.mp (exists_key_iff.mp (h.own hown))
    refine ⟨i, lt_of_pick_rowColumns hi, fun w row hrow => ?_⟩
    have hlt : i < row.length := hrow ▸ lt_of_pick_rowColumns hi
    rw [hvalue w hrow, h.outer, QueryDatabase.outerColumn, if_pos hown, hi]
    refine congrArg Except.ok ((r.result_some _).trans ?_)
    show some (row.getD i .null) = _
    rw [List.getD_eq_getElem _ _ hlt, List.getElem?_eq_getElem hlt]
  · rw [hvalue w hrow, h.outer, hi]
    exact congrArg Except.ok (r.result_some _)
  · have hvalue' : r.value ((db.executionContext st ∅).row names row) = _ := value_row_empty none hrow r
    rw [hvalue w hrow, hvalue', h.outer, hunknown]
    rfl

theorem bindsReferences_iff (site : Site S) :
    db.BindsReferences st outerRow site ↔ db.FindsColumns st outerRow site := by
  cases site with
  | row names exprs =>
    exact forall₂_congr fun e _ => forall₂_congr fun r _ => ⟨findsColumn_of_binds, binds_of_findsColumn⟩
  | other names exprs context =>
    refine forall₂_congr fun e _ => forall₂_congr fun r _ => ⟨fun h => ?_, fun h i hi => ?_⟩
    · -- the context does not depend on the outer row
      refine Option.eq_none_iff_forall_ne_some.mpr fun i hi => ?_
      have hvalues := (h i hi (fun _ => .integer 0) []).symm.trans (h i hi (fun _ => .integer 1) [])
      cases hvalues
    · rw [h] at hi
      cases hi

end Lookup

/-! ## Widths -/

/-- The rows of a result have one value for each of these columns. -/
def Fits (names : List String) (result : QueryResult) : Prop :=
  ∀ row ∈ result.rows, result.columnNames = names ∧ row.length = names.length

theorem Fits.mono {names : List String} {input result : QueryResult} (h : Fits names input)
    (hnames : result.columnNames = input.columnNames) (hrows : ∀ row ∈ result.rows, row ∈ input.rows) :
    Fits names result := by
  intro row hrow
  rw [hnames]
  exact h row (hrows row hrow)

section Widths

variable {ops : Operations S} {names : List String} {input result : QueryResult}

theorem fits_filter {context : ExecutionContext} {condition : Expression S} (hfits : Fits names input)
    (h : FilterOperator.execute ops context condition (.ok input) = .ok result) : Fits names result := by
  obtain rfl := Except.ok.inj h
  exact hfits.mono rfl fun row hrow => List.mem_of_mem_filter hrow

theorem fits_project {context : ExecutionContext} {columns : List (String × Expression S)}
    (h : ProjectOperator.execute ops context columns (.ok input) = .ok result) :
    Fits (columns.map Prod.fst) result := by
  obtain rfl := Except.ok.inj h
  intro row hrow
  obtain ⟨row, -, rfl⟩ := List.mem_map.mp hrow
  refine ⟨rfl, ?_⟩
  rw [List.length_map, List.length_map]

theorem fits_aggregate [DebugText] [FloatArithmetic] {op : AggregateOperator S Empty} {window : WindowEvaluator Empty}
    (h : op.execute ops window (.ok input) = .ok result) : Fits op.resultColumnNames result := by
  have hwindow : op.windowFunctions = [] := List.eq_nil_iff_forall_not_mem.mpr fun f _ => f.2.elim
  have hnone (result : QueryResult) : op.applyWindows window result = .ok result :=
    if_pos (List.isEmpty_iff.mpr hwindow)
  by_cases hempty : input.rows = []
  · rw [AggregateOperator.execute_empty hempty, AggregateOperator.executeEmpty, hnone] at h
    split_ifs at h with hgroupBy
    · obtain rfl := Except.ok.inj h
      intro row hrow
      rw [List.mem_singleton.mp hrow, AggregateOperator.resultColumnNames, List.isEmpty_iff.mp hgroupBy, hwindow]
      simp [AggregateOperator.initialRow]
    · obtain rfl := Except.ok.inj h
      intro row hrow
      cases hrow
  · rw [AggregateOperator.execute_nonempty hempty, hnone] at h
    obtain rfl := Except.ok.inj h
    intro row hrow
    obtain ⟨p, hp, rfl⟩ := List.mem_map.mp (List.mem_of_mem_filter hrow)
    rw [AggregateOperator.length_groupRow hp, AggregateOperator.resultColumnNames, hwindow]
    simp

theorem exists_left_of_mem {α β : Type} {R : α → β → Prop} {l : List α} {m : List β} (h : List.Forall₂ R l m) {b : β}
    (hb : b ∈ m) : ∃ a, R a b := by
  induction h with
  | nil => cases hb
  | cons hab _ ih =>
    rcases List.mem_cons.mp hb with rfl | hb
    · exact ⟨_, hab⟩
    · exact ih hb

theorem fits_window {sort : SortBy} {overflowChecks : Bool} {op : WindowOperator S} (hsort : ∀ α, IsStableSort (sort α))
    [DebugText] [FloatArithmetic] (hfits : Fits names input)
    (h : op.execute sort overflowChecks ops (.ok input) = .ok result) :
    Fits (names ++ op.windowFunctions.map Prod.fst) result := by
  obtain ⟨inputResult, hinput, h⟩ := Result.bind_eq_ok.mp h
  obtain rfl := Except.ok.inj hinput
  dsimp only at h
  split_ifs at h
  · obtain rfl := Except.ok.inj h
    exact nofun
  · obtain ⟨sortedRows, hsorted, h⟩ := Result.bind_eq_ok.mp h
    obtain ⟨rows, hrows, h⟩ := Result.bind_eq_ok.mp h
    obtain rfl := Except.ok.inj h
    obtain ⟨outputs, rfl, houtputs⟩ := WindowOperator.outputs_of_applyWindowFunctions hrows
    intro row hrow
    obtain ⟨output, houtput, hrow⟩ := List.mem_flatten.mp hrow
    obtain ⟨partition, hpartition, columns, rfl, hcolumns⟩ := exists_left_of_mem houtputs houtput
    obtain ⟨p, hp, rfl⟩ := List.mem_map.mp hrow
    have hmem : p.1 ∈ input.rows := by
      rw [WindowOperator.partitionRows_eq] at hpartition
      obtain ⟨k, -, rfl⟩ := List.mem_map.mp hpartition
      exact (WindowOperator.sortInputRows_perm hsort hsorted).mem_iff.mp
        (List.mem_of_mem_filter (List.fst_mem_of_mem_zipIdx hp))
    obtain ⟨hnames, hlength⟩ := hfits p.1 hmem
    refine ⟨congrArg (· ++ _) hnames, ?_⟩
    rw [List.length_append, List.length_append, hlength, List.length_map, List.length_map, hcolumns.length_eq]

theorem fits_sort {sort : (Row → Row → Ordering) → List Row → Result (List Row)} (hsort : IsStableSort sort)
    {orderBy : List (Sql.OrderBy (Expression S))} {evaluate : Evaluator (Expression S)} (hfits : Fits names input)
    (h : SortOperator.execute sort evaluate orderBy (.ok input) = .ok result) : Fits names result := by
  obtain ⟨inputResult, hinput, h⟩ := Result.bind_eq_ok.mp h
  obtain rfl := Except.ok.inj hinput
  split_ifs at h
  · obtain rfl := Except.ok.inj h
    exact hfits
  · obtain ⟨rows, hrows, h⟩ := Result.bind_eq_ok.mp h
    obtain rfl := Except.ok.inj h
    exact hfits.mono rfl fun row hrow => (hsort.perm _ _ _ hrows).mem_iff.mp hrow

/-- An operator that succeeds does so on what its input yields. -/
theorem Result.exists_input {α β : Type} {x : Result α} {f : α → Result β} {b : β} (h : x >>= f = .ok b) :
    ∃ a, x = .ok a ∧ (Except.ok a : Result α) >>= f = .ok b :=
  Result.bind_eq_ok.mp h

theorem fits_execute [DebugText] [FloatArithmetic] {context : ExecutionContext}
    (hsort : ∀ α, IsStableSort (context.sort α)) {source : Result QueryResult}
    (hsource : ∀ input, source = .ok input → Fits names input) {plan : PlanNode S}
    (h : plan.execute ops context source = .ok result) : Fits (plan.columnNames names) result := by
  induction plan generalizing result with
  | source => exact hsource result h
  | filter input condition ih =>
    obtain ⟨inputResult, hinput, hexecute⟩ := Result.exists_input h
    exact fits_filter (ih hinput) hexecute
  | project input columns ih =>
    obtain ⟨inputResult, hinput, hexecute⟩ := Result.exists_input h
    exact fits_project hexecute
  | aggregate input op ih =>
    obtain ⟨inputResult, hinput, hexecute⟩ := Result.exists_input h
    exact fits_aggregate hexecute
  | window input windowFunctions ih =>
    obtain ⟨inputResult, hinput, hexecute⟩ := Result.exists_input h
    exact fits_window hsort (ih hinput) hexecute
  | sort input orderBy ih =>
    obtain ⟨inputResult, hinput, hexecute⟩ := Result.exists_input h
    exact fits_sort (hsort Row) (ih hinput) hexecute
  | limit input n offset ih =>
    obtain ⟨inputResult, hinput, hexecute⟩ := Result.exists_input h
    obtain rfl := Except.ok.inj ((LimitOperator.execute_ok n offset inputResult).symm.trans hexecute)
    exact (ih hinput).mono rfl fun row hrow => (LimitOperator.limitRows_sublist (some n) offset inputResult.rows).mem hrow
  | distinct input ih =>
    obtain ⟨inputResult, hinput, hexecute⟩ := Result.exists_input h
    obtain rfl := Except.ok.inj hexecute
    refine (ih hinput).mono rfl fun row hrow => ?_
    have hmem : row ∈ DistinctOperator.distinctRows inputResult.rows := hrow
    rw [DistinctOperator.distinctRows_eq_fresh] at hmem
    exact Recursion.mem_of_mem_fresh hmem

end Widths

theorem fits_source [DebugText] [FloatArithmetic] {x : Optimizer.Execution S Empty} {contents : Optimizer.Contents x}
    {plan : Optimizer.PlanNode S Empty} (hplan : JoinNames.NoAggregates plan) {result : QueryResult} (h : x.execute contents plan = .ok result) :
    ∀ row ∈ result.rows, row.length = result.columnNames.length := by
  induction plan generalizing result with
  | scan tableName columns «alias» =>
    obtain ⟨columnNames, hcolumns, h⟩ := Result.bind_eq_ok.mp h
    obtain rfl := Except.ok.inj h
    exact contents.width tableName columnNames hcolumns
  | indexScan | indexOnlyScan =>
    obtain rfl := Except.ok.inj h
    exact nofun
  | filter input condition ih =>
    obtain ⟨inputResult, hinput, h⟩ := Result.bind_eq_ok.mp h
    obtain rfl := Except.ok.inj h
    exact fun row hrow => ih hplan hinput row (List.mem_of_mem_filter hrow)
  | project input columns tableAliases leftColumns rightColumns ih =>
    obtain ⟨inputResult, hinput, h⟩ := Result.bind_eq_ok.mp h
    obtain rfl := Except.ok.inj h
    intro row hrow
    obtain ⟨row, -, rfl⟩ := List.mem_map.mp hrow
    rw [List.length_map, List.length_map]
  | aggregate => exact hplan.elim
  | join left right condition joinType leftAlias rightAlias ihl ihr =>
    have hexecute := h
    obtain ⟨leftResult, hleft, h⟩ := Result.bind_eq_ok.mp h
    obtain ⟨rightResult, hright, -⟩ := Result.bind_eq_ok.mp h
    rw [Optimizer.Execution.execute, hleft, hright] at hexecute
    exact JoinOperator.length_of_execute (ihl hplan.1 hleft) (ihr hplan.2 hright) hexecute
  | other node => exact node.elim

/-! ## Results -/

theorem Result.ok_bind {α β : Type} (a : α) (f : α → Result β) : (Except.ok a : Result α) >>= f = f a := rfl

theorem Result.error_bind {α β : Type} (e : Failure) (f : α → Result β) : (Except.error e : Result α) >>= f = .error e :=
  rfl

section Results

variable {db : QueryDatabase S} {st : SubqueryStatement S} {outerRow : List (String × ι)} {names : List String} {row : Row}
  {input : QueryResult}

theorem fits_sourceNames [FloatOperators] [DebugText] {tables : db.Rows} {ops : Operations S} (h : tables.source ops st = .ok input) :
    Fits (db.sourceNames st) input := by
  have hexecute : (db.execution ops).execute ⟨tables.rows, tables.width⟩ st.sourcePlan = .ok input := h
  have hplan : JoinNames.NoAggregates st.sourcePlan := JoinNames.noAggregates_planJoins _ _ _
  have hnames : input.columnNames = db.sourceNames st := by
    refine JoinNames.columnNames_of_execute (fun tableName names hcolumns => ?_) (fun node => node.elim) hplan hexecute
    have hcolumns : db.columns tableName = .ok names := hcolumns
    rw [QueryDatabase.columnNames, hcolumns]
    rfl
  exact fun row hrow => ⟨hnames, hnames ▸ fits_source hplan hexecute row hrow⟩

theorem hasValue_of_findsColumn (w : ι → Value) {r : Reference} (h : db.FindsColumn st outerRow names r)
    (hrow : row.length = names.length) : Expression.HasValue (db.outerReplacement st outerRow w names)
      (createBasicEvaluationContext (st.sourcePlan.extractTableAlias Empty.elim) (st.passedValues outerRow w)
        names row)
      (createBasicEvaluationContext (st.sourcePlan.extractTableAlias Empty.elim) ∅ names row) r := by
  intro subqueryContext
  rw [value_row w subqueryContext hrow, value_row_empty subqueryContext hrow, h.outer, QueryDatabase.outerReplacement]
  rcases db.outerColumn st outerRow names r.table r.name with - | i
  · rfl
  · exact congrArg Except.ok (r.result_some _)

variable [FloatOperators] [DebugText]

theorem evaluate_row (run : S → HashMap String Value → Result QueryResult) (w : ι → Value) {e : Expression S}
    (h : ∀ r ∈ e.references db.parameters.toUppercase db.statement, db.FindsColumn st outerRow names r)
    (hrow : row.length = names.length) :
    evaluate (db.operations run) ((db.executionContext st (st.passedValues outerRow w)).row names row) e =
      evaluate (db.replacedOperations run (db.outerReplacement st outerRow w names))
        ((db.executionContext st ∅).row names row) (e.replaceColumns (db.outerReplacement st outerRow w names)) := by
  refine Expression.evaluate_replaceColumns (Expression.agree_evaluatorOperations ..) e none fun r hr => ?_
  rw [evaluatorOperations_toUppercase] at hr
  exact hasValue_of_findsColumn w (h r hr) hrow

theorem filter_eq_replaced (run : S → HashMap String Value → Result QueryResult) (w : ι → Value) {condition : Expression S}
    (h : ∀ r ∈ condition.references db.parameters.toUppercase db.statement, db.FindsColumn st outerRow names r)
    (hfits : Fits names input) :
    FilterOperator.execute (db.operations run) (db.executionContext st (st.passedValues outerRow w)) condition (.ok input) =
      FilterOperator.execute (db.replacedOperations run (db.outerReplacement st outerRow w input.columnNames))
        (db.executionContext st ∅) (condition.replaceColumns (db.outerReplacement st outerRow w input.columnNames))
        (.ok input) := by
  refine congrArg (fun rows => Except.ok { input with rows }) (List.filter_congr fun row hrow => ?_)
  obtain ⟨hnames, hlength⟩ := hfits row hrow
  rw [FilterOperator.keeps, FilterOperator.keeps, hnames, evaluate_row run w h hlength]

theorem project_eq_replaced (run : S → HashMap String Value → Result QueryResult) (w : ι → Value)
    {columns : List (String × Expression S)} (h : ∀ e ∈ columns.map Prod.snd,
      ∀ r ∈ e.references db.parameters.toUppercase db.statement, db.FindsColumn st outerRow names r)
    (hfits : Fits names input) :
    ProjectOperator.execute (db.operations run) (db.executionContext st (st.passedValues outerRow w)) columns (.ok input) =
      ProjectOperator.execute (db.replacedOperations run (db.outerReplacement st outerRow w input.columnNames))
        (db.executionContext st ∅)
        (columns.map (Prod.map id (Expression.replaceColumns (db.outerReplacement st outerRow w input.columnNames))))
        (.ok input) := by
  have hcolumns : (columns.map (Prod.map id (Expression.replaceColumns
      (db.outerReplacement st outerRow w input.columnNames)))).map Prod.fst = columns.map Prod.fst := by
    rw [List.map_map]
    rfl
  refine congrArg Except.ok (QueryResult.mk.injEq .. ▸ ⟨?_, hcolumns.symm⟩)
  refine List.map_congr_left fun row hrow => ?_
  obtain ⟨hnames, hlength⟩ := hfits row hrow
  rw [List.map_map]
  refine List.map_congr_left fun column hcolumn => congrArg orNull ?_
  rw [hnames]
  exact evaluate_row run w (h _ (List.mem_map_of_mem hcolumn)) hlength

theorem execute_eq_replaced (run : S → HashMap String Value → Result QueryResult) (w : ι → Value)
    {source : Result QueryResult} (hsource : ∀ input, source = .ok input → Fits names input) {ops : Operations S}
    {plan : PlanNode S} (h : ∀ site ∈ plan.sites ops names, db.FindsColumns st outerRow site) :
    plan.execute (db.operations run) (db.executionContext st (st.passedValues outerRow w)) source =
      db.executeReplaced st outerRow run w source plan := by
  have hfits {plan : PlanNode S} {result : QueryResult}
      (h : plan.execute (db.operations run) (db.executionContext st (st.passedValues outerRow w)) source = .ok result) :
      Fits (plan.columnNames names) result := by
    have hsort : ∀ α, IsStableSort ((db.executionContext st (st.passedValues outerRow w)).sort α) := db.stableSort
    exact fits_execute hsort hsource h
  induction plan with
  | source => rfl
  | filter input condition ih =>
    rw [PlanNode.sites, List.forall_mem_cons] at h
    rw [PlanNode.execute, QueryDatabase.executeReplaced, ← ih h.2]
    rcases hinput : input.execute (db.operations run) (db.executionContext st (st.passedValues outerRow w)) source with
      e | inputResult
    · rw [FilterOperator.execute, Result.error_bind, Result.error_bind]
    · rw [Result.ok_bind]
      exact filter_eq_replaced run w (h.1 condition List.mem_cons_self) (hfits hinput)
  | project input columns ih =>
    rw [PlanNode.sites, List.forall_mem_cons] at h
    rw [PlanNode.execute, QueryDatabase.executeReplaced, ← ih h.2]
    rcases hinput : input.execute (db.operations run) (db.executionContext st (st.passedValues outerRow w)) source with
      e | inputResult
    · rw [ProjectOperator.execute, Result.error_bind, Result.error_bind]
    · rw [Result.ok_bind]
      exact project_eq_replaced run w h.1 (hfits hinput)
  | aggregate input op ih =>
    rw [PlanNode.sites, List.forall_mem_cons, List.forall_mem_cons] at h
    rw [PlanNode.execute, QueryDatabase.executeReplaced, ← ih h.2.2]
  | window input windowFunctions ih =>
    rw [PlanNode.sites, List.forall_mem_cons] at h
    rw [PlanNode.execute, QueryDatabase.executeReplaced, ← ih h.2]
    rfl
  | sort input orderBy ih =>
    rw [PlanNode.sites, List.forall_mem_cons] at h
    rw [PlanNode.execute, QueryDatabase.executeReplaced, ← ih h.2]
    rfl
  | limit input n offset ih =>
    rw [PlanNode.execute, QueryDatabase.executeReplaced, ← ih h]
  | distinct input ih =>
    rw [PlanNode.execute, QueryDatabase.executeReplaced, ← ih h]

/-- Subqueries are scoped if and only if every reference finds the column that it is to. -/
theorem isScoped_iff (db : QueryDatabase S) (subquery : S) (outerRow : List (String × ι)) :
    db.IsScoped outerRow subquery ↔
      ∀ site ∈ db.sites (db.statement subquery), db.FindsColumns (db.statement subquery) outerRow site := by
  have hreferences : (∀ site ∈ db.sites (db.statement subquery), db.BindsReferences (db.statement subquery) outerRow site) ↔
      ∀ site ∈ db.sites (db.statement subquery), db.FindsColumns (db.statement subquery) outerRow site :=
    forall₂_congr fun site _ => bindsReferences_iff site
  refine ⟨fun h => hreferences.mp h.references, fun h => ⟨hreferences.mpr h, fun tables depth w context hcontext => ?_⟩⟩
  have hsource (input : QueryResult)
      (hinput : tables.source (db.operations (tables.run depth)) (db.statement subquery) = .ok input) :
      Fits (db.sourceNames (db.statement subquery)) input := fits_sourceNames hinput
  have hsites : ∀ site ∈ (db.plan (db.statement subquery)).sites (evaluatorOperations db.parameters db.depth)
      (db.sourceNames (db.statement subquery)), db.FindsColumns (db.statement subquery) outerRow site :=
    fun site hsite => h site (List.mem_append_right _ hsite)
  have hplan := execute_eq_replaced (tables.run depth) w hsource hsites
  rw [evaluateSubquery, hcontext]
  dsimp only
  rw [← hplan]
  rfl

end Results

/-! ## Examples -/

/-- `SELECT own.id FROM table WHERE own.id = outer.id` -/
def matchingIds (table : JoinNames.TableRef) (own outer : String) : SubqueryStatement Unit where
  first := table
  rest := []
  joins := []
  select :=
    { distinct := false
      columns := [⟨.column (some own) "id", none⟩]
      whereClause := some (.binaryOp (.column (some own) "id") .equals (.column (some outer) "id"))
      groupBy := []
      having := none
      orderBy := []
      limit := none
      offset := none }

/-- Tables with a column `id`, and a subquery -/
noncomputable def idTables (st : SubqueryStatement Unit) : QueryDatabase Unit where
  parameters := noParameters
  depth := 0
  plans := noPlans
  context := ⟨fun _ => strictSort (.panic "not a total order"), false, none, ∅⟩
  stableSort _ := isStableSort_strictSort _
  columns _ := .ok ["id"]
  statement _ := st

/-- `SELECT * FROM t a WHERE EXISTS (SELECT b.id FROM u b WHERE b.id = a.id)` -/
example : letI : FloatOperators := noFloats
    letI : DebugText := ⟨fun _ => "", fun _ => "", fun _ => ""⟩
    let st := matchingIds ⟨"u", some "b"⟩ "b" "a"
    ∀ site ∈ (idTables st).sites st, (idTables st).FindsColumns st [("id", ()), ("a.id", ())] site := by
  intro st site hsite
  have hown : (idTables st).FindsColumn st [("id", ()), ("a.id", ())] ["id"] (.column (some "b") "id") :=
    ⟨by decide, fun _ => ⟨_, List.mem_cons_self, by decide⟩⟩
  have houter : (idTables st).FindsColumn st [("id", ()), ("a.id", ())] ["id"] (.column (some "a") "id") :=
    ⟨by decide, fun h => absurd h (by decide)⟩
  rcases List.mem_pair.mp hsite with rfl | rfl
  · intro e he r hr
    obtain rfl := List.mem_singleton.mp he
    obtain rfl := List.mem_singleton.mp hr
    exact hown
  · intro e he r hr
    obtain rfl := List.mem_singleton.mp he
    rcases List.mem_pair.mp hr with rfl | rfl
    · exact hown
    · exact houter

/-- In `SELECT * FROM t WHERE EXISTS (SELECT u.id FROM u WHERE u.id = t.id)`, the reference `u.id` has the value of
`t.id`. -/
theorem own_column_captured : ¬ ∀ (S ι : Type) [FloatOperators] [DebugText] (db : QueryDatabase S) (subquery : S)
    (outerRow : List (String × ι)), db.IsScoped outerRow subquery := by
  intro h
  let operators : FloatOperators := noFloats
  let texts : DebugText := ⟨fun _ => "", fun _ => "", fun _ => ""⟩
  let st := matchingIds ⟨"u", none⟩ "u" "t"
  let condition : Expression Unit := .binaryOp (.column (some "u") "id") .equals (.column (some "t") "id")
  have hsite : .row ["id"] [condition] ∈ (idTables st).sites st := .tail _ (.head _)
  have hbinds := (h Unit Unit (idTables st) () [("id", ())]).references _ hsite condition List.mem_cons_self
    (.column (some "u") "id") List.mem_cons_self
  exact absurd (findsColumn_of_binds hbinds).outer (by decide)

end Rustgresql
