import Rustgresql.Optimizer.Plan

/-!
# Projection pushdown (`optimizer/rules.rs`)

A projection over filters over a scan is dropped, and the column names are passed on to the scan.
`sameResults_iff`: the results stay the same if and only if such a projection returns the rows of the table as
they are, under the same names, and no alias matters that gets lost.
-/

namespace Rustgresql.Optimizer

open ExpressionEvaluator (evaluate noOperations Operations)

variable {S O : Type}

namespace ProjectionPushdownRule

/-! ## The rule -/

/-- The names of the columns that are projected as they are -/
def requiredColumns (columns : List (String × Expression S)) : List String :=
  columns.filterMap fun p =>
    match p.2 with
    | .column _ name => some name
    | _ => none

def canPushdownProjection : PlanNode S O → Bool
  | .scan _ _ _ => true
  | .indexScan _ _ _ _ => true
  | .indexOnlyScan _ _ _ _ => true
  | .filter _ _ => true
  | _ => false

def pushdownProjection (requiredColumns : List String) : PlanNode S O → Option (PlanNode S O)
  | .scan tableName _ _ => some (.scan tableName requiredColumns none)
  | .indexScan tableName indexName indexCondition _ => some (.indexScan tableName indexName indexCondition requiredColumns)
  | .indexOnlyScan tableName indexName indexCondition _ =>
    some (.indexOnlyScan tableName indexName indexCondition requiredColumns)
  | .filter input condition =>
    match pushdownProjection requiredColumns input with
    | some newInput => some (.filter newInput condition)
    | none => none
  | _ => none

theorem exists_of_pushdownProjection_filter {required : List String} {input newInput : PlanNode S O}
    {condition : Expression S} (h : pushdownProjection required (.filter input condition) = some newInput) :
    ∃ input', pushdownProjection required input = some input' ∧ newInput = .filter input' condition := by
  rw [pushdownProjection] at h
  rcases hinput : pushdownProjection required input with - | input'
  · rw [hinput] at h
    cases h
  · rw [hinput] at h
    exact ⟨input', rfl, (Option.some.inj h).symm⟩

/-- The number of nodes that the rule may come to -/
def size : PlanNode S O → ℕ
  | .filter input _ => size input + 1
  | .project input _ _ _ _ => size input + 1
  | .join left right _ _ _ _ => size left + size right + 1
  | _ => 1

theorem size_pushdownProjection {required : List String} {input newInput : PlanNode S O}
    (h : pushdownProjection required input = some newInput) : size newInput = size input := by
  induction input generalizing newInput with
  | filter input condition ih =>
    obtain ⟨input', hinput, rfl⟩ := exists_of_pushdownProjection_filter h
    rw [size, size, ih hinput]
  | scan | indexScan | indexOnlyScan =>
    obtain rfl := Option.some.inj h
    rfl
  | _ => cases h

def apply (plan : PlanNode S O) : PlanNode S O :=
  match plan with
  | .project input columns _ _ _ =>
    if canPushdownProjection input then
      match _h : pushdownProjection (requiredColumns columns) input with
      | some newInput => apply newInput
      | none => .project (apply input) columns ∅ none none
    else .project (apply input) columns ∅ none none
  | .filter input condition => .filter (apply input) condition
  | .join left right condition joinType _ _ => .join (apply left) (apply right) condition joinType none none
  | plan => plan
termination_by size plan
decreasing_by
  · rw [size_pushdownProjection _h, size]
    exact Nat.lt_succ_self _
  all_goals
    rw [size]
    omega

/-! ## The plan that the rule makes -/

/-- The scan below the filters of a plan -/
def scanned : PlanNode S O → Option (PlanNode S O)
  | .filter input _ => scanned input
  | .scan tableName columns «alias» => some (.scan tableName columns «alias»)
  | .indexScan tableName indexName indexCondition columns => some (.indexScan tableName indexName indexCondition columns)
  | .indexOnlyScan tableName indexName indexCondition columns =>
    some (.indexOnlyScan tableName indexName indexCondition columns)
  | _ => none

/-- The filters above the scan -/
def conditions : PlanNode S O → List (Expression S)
  | .filter input condition => condition :: conditions input
  | _ => []

theorem pushdownProjection_eq_none_iff {required : List String} {input : PlanNode S O} :
    pushdownProjection required input = none ↔ scanned input = none := by
  induction input with
  | filter input condition ih =>
    rw [pushdownProjection, scanned, ← ih]
    rcases pushdownProjection required input with - | newInput
    · exact iff_of_true rfl rfl
    · exact iff_of_false nofun nofun
  | scan | indexScan | indexOnlyScan => exact iff_of_false nofun nofun
  | _ => exact iff_of_true rfl rfl

theorem apply_pushdownProjection {required : List String} {input newInput : PlanNode S O}
    (h : pushdownProjection required input = some newInput) : apply newInput = newInput := by
  induction input generalizing newInput with
  | filter input condition ih =>
    obtain ⟨input', hinput, rfl⟩ := exists_of_pushdownProjection_filter h
    rw [apply, ih hinput]
  | scan | indexScan | indexOnlyScan =>
    obtain rfl := Option.some.inj h
    rw [apply]
    all_goals exact nofun
  | _ => cases h

theorem apply_project (input : PlanNode S O) (columns : List (String × Expression S))
    (tableAliases : HashMap String String) (leftColumns rightColumns : Option (List String)) :
    apply (.project input columns tableAliases leftColumns rightColumns) =
      (pushdownProjection (requiredColumns columns) input).getD (.project (apply input) columns ∅ none none) := by
  rw [apply]
  rcases hinput : pushdownProjection (requiredColumns columns) input with - | newInput
  · split_ifs <;> rfl
  · have hcan : canPushdownProjection input := by
      cases input <;> first | rfl | cases hinput
    rw [if_pos hcan]
    exact apply_pushdownProjection hinput

/-- The alias that the rule leaves -/
def remainingAlias (otherAlias : O → Option String) : PlanNode S O → Option String
  | .scan _ _ «alias» => «alias»
  | .project input _ _ _ _ => if (scanned input).isSome then none else remainingAlias otherAlias input
  | .filter input _ => remainingAlias otherAlias input
  | .aggregate input _ => input.extractTableAlias otherAlias
  | .other node => otherAlias node
  | _ => none

theorem extractTableAlias_pushdownProjection {otherAlias : O → Option String} {required : List String}
    {input newInput : PlanNode S O} (h : pushdownProjection required input = some newInput) :
    newInput.extractTableAlias otherAlias = none := by
  induction input generalizing newInput with
  | filter input condition ih =>
    obtain ⟨input', hinput, rfl⟩ := exists_of_pushdownProjection_filter h
    rw [PlanNode.extractTableAlias]
    exact ih hinput
  | scan | indexScan | indexOnlyScan =>
    obtain rfl := Option.some.inj h
    rfl
  | _ => cases h

theorem extractTableAlias_apply (otherAlias : O → Option String) (plan : PlanNode S O) :
    (apply plan).extractTableAlias otherAlias = remainingAlias otherAlias plan := by
  induction plan with
  | filter input condition ih =>
    rw [apply]
    exact ih
  | project input columns tableAliases leftColumns rightColumns ih =>
    rw [apply_project, remainingAlias]
    rcases hinput : pushdownProjection (requiredColumns columns) input with - | newInput
    · rw [pushdownProjection_eq_none_iff.mp hinput]
      exact ih
    · have hscanned : (scanned input).isSome := by
        refine Option.isSome_iff_ne_none.mpr fun hnone => ?_
        rw [pushdownProjection_eq_none_iff.mpr hnone] at hinput
        cases hinput
      rw [if_pos hscanned]
      exact extractTableAlias_pushdownProjection hinput
  | join left right condition joinType leftAlias rightAlias ihl ihr =>
    rw [apply]
    rfl
  | scan | indexScan | indexOnlyScan | aggregate | other =>
    rw [apply]
    · rfl
    all_goals exact nofun

theorem conditions_pushdownProjection {required : List String} {input newInput : PlanNode S O}
    (h : pushdownProjection required input = some newInput) :
    conditions newInput = conditions input ∧
      ∀ scan, scanned input = some scan → scanned newInput = pushdownProjection required scan := by
  induction input generalizing newInput with
  | filter input condition ih =>
    obtain ⟨input', hinput, rfl⟩ := exists_of_pushdownProjection_filter h
    obtain ⟨hconditions, hscanned⟩ := ih hinput
    refine ⟨?_, hscanned⟩
    rw [conditions, conditions, hconditions]
  | scan | indexScan | indexOnlyScan =>
    obtain rfl := Option.some.inj h
    refine ⟨rfl, fun scan hscan => ?_⟩
    obtain rfl := Option.some.inj hscan
    rfl
  | _ => cases h

theorem scanned_cases {input scan : PlanNode S O} (h : scanned input = some scan) :
    (∃ tableName columns «alias», scan = .scan tableName columns «alias») ∨
    (∃ tableName indexName indexCondition columns, scan = .indexScan tableName indexName indexCondition columns) ∨
    ∃ tableName indexName indexCondition columns, scan = .indexOnlyScan tableName indexName indexCondition columns := by
  induction input with
  | filter input condition ih => exact ih h
  | scan | indexScan | indexOnlyScan =>
    obtain rfl := Option.some.inj h
    simp
  | _ => cases h

theorem extractTableAlias_of_scanned {otherAlias : O → Option String} {input scan : PlanNode S O}
    (h : scanned input = some scan) : input.extractTableAlias otherAlias = scan.extractTableAlias otherAlias := by
  induction input with
  | filter input condition ih => exact ih h
  | scan | indexScan | indexOnlyScan =>
    obtain rfl := Option.some.inj h
    rfl
  | _ => cases h

/-! ## The results -/

/-- The rule comes from a node to one of its inputs. -/
inductive Step : PlanNode S O → PlanNode S O → Prop
  | filter (input : PlanNode S O) (condition : Expression S) : Step (.filter input condition) input
  | project (input : PlanNode S O) (columns : List (String × Expression S)) (tableAliases : HashMap String String)
    (leftColumns rightColumns : Option (List String)) (h : scanned input = none) :
    Step (.project input columns tableAliases leftColumns rightColumns) input
  | left (left right : PlanNode S O) (condition : Option (Expression S)) (joinType : Sql.JoinType)
    (leftAlias rightAlias : Option String) : Step (.join left right condition joinType leftAlias rightAlias) left
  | right (left right : PlanNode S O) (condition : Option (Expression S)) (joinType : Sql.JoinType)
    (leftAlias rightAlias : Option String) : Step (.join left right condition joinType leftAlias rightAlias) right

theorem size_lt_of_step {plan input : PlanNode S O} (h : Step plan input) : size input < size plan := by
  cases h <;> rw [size] <;> omega

/-- The rule comes to a node of the plan. -/
abbrev Visits : PlanNode S O → PlanNode S O → Prop := Relation.ReflTransGen Step

theorem filter_eq_filter_iff {α : Type} {f g : α → Bool} {l : List α} :
    l.filter f = l.filter g ↔ ∀ a ∈ l, f a = g a := by
  refine ⟨fun h a ha => ?_, List.filter_congr⟩
  have hmem : a ∈ l.filter f ↔ a ∈ l.filter g := by rw [h]
  rwa [List.mem_filter, List.mem_filter, and_iff_right ha, and_iff_right ha, ← Bool.eq_iff_iff] at hmem

theorem filter_eq_map_filter {α : Type} {f g : α → Bool} {project : α → α} {l : List α}
    (h : ∀ a ∈ l, f a = g a ∧ (g a = true → project a = a)) : l.filter f = (l.filter g).map project := by
  rw [List.filter_congr fun a ha => (h a ha).1]
  conv_lhs => rw [← List.map_id (l.filter g)]
  refine List.map_congr_left fun a ha => ?_
  obtain ⟨ha, hg⟩ := List.mem_filter.mp ha
  exact ((h a ha).2 hg).symm

theorem singleton_filter_eq_map_filter_iff {α : Type} {f g : α → Bool} {project : α → α} {a : α} :
    [a].filter f = ([a].filter g).map project ↔ f a = g a ∧ (g a = true → project a = a) := by
  rw [List.filter_singleton, List.filter_singleton]
  rcases f a <;> rcases g a <;> simp [eq_comm]

theorem filter_execute_eq_iff {context context' : ExecutionContext} {ops : Operations S} {condition : Expression S}
    {input : Result QueryResult} :
    FilterOperator.execute ops context condition input = FilterOperator.execute ops context' condition input ↔
      ∀ rows columnNames, input = .ok ⟨rows, columnNames⟩ → ∀ row ∈ rows,
        FilterOperator.keeps ops context condition columnNames row =
          FilterOperator.keeps ops context' condition columnNames row := by
  rcases input with e | ⟨rows, columnNames⟩
  · exact iff_of_true rfl nofun
  · constructor
    · rintro h rows' columnNames' hinput
      cases hinput
      exact filter_eq_filter_iff.mp (congrArg QueryResult.rows (Except.ok.inj h))
    · intro h
      exact congrArg (fun rows => Except.ok (QueryResult.mk rows columnNames)) (filter_eq_filter_iff.mpr (h rows columnNames rfl))

variable (x : Execution S O)

/-- A row meets all filters. -/
def passes («alias» : Option String) (columnNames : List String) (conditions : List (Expression S)) (row : Row) : Bool :=
  conditions.all fun condition => FilterOperator.keeps x.ops (x.aliased «alias») condition columnNames row

/-- The projection of a row -/
def projected («alias» : Option String) (columnNames : List String) (columns : List (String × Expression S)) (row : Row) :
    Row :=
  columns.map fun column => orNull (evaluate x.ops ((x.aliased «alias»).row columnNames row) column.2)

/-- A projection over filters over a scan returns the columns of the table under their names, and the filters do
not need the alias of the table. No index scan returns rows. -/
def ReturnsTable (input : PlanNode S O) (columns : List (String × Expression S)) : PlanNode S O → Prop
  | .scan tableName _ «alias» => ∀ columnNames, x.columns tableName = .ok columnNames →
    columns.map Prod.fst = columnNames ∧ ∀ row : Row, row.length = columnNames.length →
      passes x none columnNames (conditions input) row = passes x «alias» columnNames (conditions input) row ∧
      (passes x «alias» columnNames (conditions input) row → projected x «alias» columnNames columns row = row)
  | _ => columns.map Prod.fst = requiredColumns columns

theorem project_execute_eq_iff {x : Execution S O} {alias₁ alias₂ : Option String} {columns : List (String × Expression S)}
    {input : Result QueryResult} :
    ProjectOperator.execute x.ops (x.aliased alias₁) columns input =
      ProjectOperator.execute x.ops (x.aliased alias₂) columns input ↔
      ∀ rows columnNames, input = .ok ⟨rows, columnNames⟩ → ∀ row ∈ rows,
        projected x alias₁ columnNames columns row = projected x alias₂ columnNames columns row := by
  rcases input with e | ⟨rows, columnNames⟩
  · exact iff_of_true rfl nofun
  · constructor
    · rintro h rows' columnNames' hinput
      cases hinput
      exact List.map_inj_left.mp (congrArg QueryResult.rows (Except.ok.inj h))
    · intro h
      exact congrArg (fun rows => Except.ok (QueryResult.mk rows (columns.map Prod.fst))) (List.map_inj_left.mpr (h rows columnNames rfl))

/-- A projection is superfluous if it has the names of the columns and leaves every row as it is. -/
theorem execute_eq_project_iff {x : Execution S O} {«alias» : Option String} {columns : List (String × Expression S)}
    {input : Result QueryResult} : input = ProjectOperator.execute x.ops (x.aliased «alias») columns input ↔
      ∀ rows columnNames, input = .ok ⟨rows, columnNames⟩ →
        columns.map Prod.fst = columnNames ∧ ∀ row ∈ rows, projected x «alias» columnNames columns row = row := by
  rcases input with e | ⟨rows, columnNames⟩
  · exact iff_of_true rfl nofun
  · have hexecute : ProjectOperator.execute x.ops (x.aliased «alias») columns (.ok ⟨rows, columnNames⟩) =
      .ok ⟨rows.map (projected x «alias» columnNames columns), columns.map Prod.fst⟩ := rfl
    rw [hexecute, Except.ok.injEq, QueryResult.mk.injEq]
    constructor
    · rintro ⟨hrows, hnames⟩ rows' columnNames' hinput
      cases hinput
      refine ⟨hnames.symm, fun row hrow => ?_⟩
      exact List.map_inj_left.mp (hrows.symm.trans (List.map_id rows).symm) row hrow
    · intro h
      obtain ⟨hnames, hrows⟩ := h rows columnNames rfl
      exact ⟨((List.map_inj_left.mpr hrows).trans (List.map_id rows)).symm, hnames.symm⟩

section Results

variable [DebugText] [FloatArithmetic]

/-- The plan that the rule makes returns the same columns and rows. -/
def SameResults (plan : PlanNode S O) : Prop :=
  ∀ contents : Contents x, x.execute contents (apply plan) = x.execute contents plan

/-- The rows that a plan can return, with its columns -/
def Returns (plan : PlanNode S O) (columnNames : List String) (row : Row) : Prop :=
  ∃ (contents : Contents x) (rows : List Row), x.execute contents plan = .ok ⟨rows, columnNames⟩ ∧ row ∈ rows

/-- The aliases that the rule takes away do not matter to a node, and a projection that it drops is superfluous. -/
def IsSafe : PlanNode S O → Prop
  | .filter input condition => ∀ columnNames row, Returns x input columnNames row →
    FilterOperator.keeps x.ops (x.aliased (remainingAlias x.otherAlias input)) condition columnNames row =
      FilterOperator.keeps x.ops (x.aliased (input.extractTableAlias x.otherAlias)) condition columnNames row
  | .project input columns _ _ _ =>
    match scanned input with
    | some scan => ReturnsTable x input columns scan
    | none => ∀ columnNames row, Returns x input columnNames row →
      projected x (remainingAlias x.otherAlias input) columnNames columns row =
        projected x (input.extractTableAlias x.otherAlias) columnNames columns row
  | .join left right condition joinType leftAlias rightAlias => ∀ contents : Contents x,
    JoinOperator.execute x.ops ⟨condition, joinType, none, none⟩ (x.execute contents left) (x.execute contents right) =
      JoinOperator.execute x.ops ⟨condition, joinType, leftAlias, rightAlias⟩ (x.execute contents left)
        (x.execute contents right)
  | _ => True

/-! ## Scans under filters -/

section Scanned

variable {x} {contents : Contents x} {input newInput : PlanNode S O}

/-- Filters over a scan return the rows of the table that meet all of them. -/
theorem execute_scanned {tableName : String} {columns : List String} {«alias» : Option String}
    (h : scanned input = some (.scan tableName columns «alias»)) : x.execute contents input =
      (x.columns tableName).map fun columnNames =>
        ⟨(contents.rows tableName).filter (passes x «alias» columnNames (conditions input)), columnNames⟩ := by
  induction input with
  | filter input condition ih =>
    rw [scanned] at h
    rw [Execution.execute, ih h, extractTableAlias_of_scanned h]
    rcases x.columns tableName with e | columnNames
    · rfl
    · rw [conditions]
      refine congrArg Except.ok (congrArg₂ QueryResult.mk ?_ rfl)
      rw [List.filter_filter]
      rfl
  | scan tableName' columns' alias' =>
    cases h
    rw [Execution.execute]
    rcases x.columns tableName with e | columnNames
    · rfl
    · refine congrArg Except.ok (congrArg₂ QueryResult.mk ?_ rfl)
      exact (List.filter_eq_self.mpr fun row _ => rfl).symm
  | indexScan | indexOnlyScan => cases h
  | _ => cases h

/-- An index scan -/
def indexColumns : PlanNode S O → Option (List String)
  | .indexScan _ _ _ columns => some columns
  | .indexOnlyScan _ _ _ columns => some columns
  | _ => none

/-- An index scan returns no rows, and no filter changes that. -/
theorem execute_indexScan {scan : PlanNode S O} {columns : List String} (h : scanned input = some scan)
    (hindex : indexColumns scan = some columns) : x.execute contents input = .ok ⟨[], columns⟩ := by
  induction input with
  | filter input condition ih =>
    rw [Execution.execute, ih h]
    rfl
  | scan =>
    obtain rfl := Option.some.inj h
    cases hindex
  | indexScan | indexOnlyScan =>
    obtain rfl := Option.some.inj h
    obtain rfl := Option.some.inj hindex
    rfl
  | _ => cases h

end Scanned

/-! ## The nodes -/

section Nodes

variable {x}

theorem forall_returns_iff (x : Execution S O) (input : PlanNode S O) {P : List String → Row → Prop} :
    (∀ (contents : Contents x) rows columnNames, x.execute contents input = .ok ⟨rows, columnNames⟩ → ∀ row ∈ rows,
      P columnNames row) ↔ ∀ columnNames row, Returns x input columnNames row → P columnNames row := by
  constructor
  · rintro h columnNames row ⟨contents, rows, hinput, hrow⟩
    exact h contents rows columnNames hinput row hrow
  · intro h contents rows columnNames hinput row hrow
    exact h columnNames row ⟨contents, rows, hinput, hrow⟩

/-- Contents with one row in a table and none in the others -/
def singleRow {columnNames : List String} (tableName : String) (htable : x.columns tableName = .ok columnNames) (row : Row)
    (hrow : row.length = columnNames.length) : Contents x where
  rows name := if name = tableName then [row] else []
  width name names hnames row' hrow' := by
    split_ifs at hrow' with hname
    · obtain rfl := List.mem_singleton.mp hrow'
      subst hname
      rw [hrow, Except.ok.inj (htable.symm.trans hnames)]
    · cases hrow'

def noRows : Contents x := ⟨fun _ => [], nofun⟩

/-- A projection that the rule drops -/
theorem sameResults_dropped_iff {input newInput scan : PlanNode S O} {columns : List (String × Expression S)}
    (hscan : scanned input = some scan) (hinput : pushdownProjection (requiredColumns columns) input = some newInput) :
    (∀ contents : Contents x, x.execute contents newInput =
      ProjectOperator.execute x.ops (x.aliased (input.extractTableAlias x.otherAlias)) columns
        (x.execute contents input)) ↔ ReturnsTable x input columns scan := by
  obtain ⟨hconditions, hnewScan⟩ := conditions_pushdownProjection hinput
  replace hnewScan := hnewScan scan hscan
  rw [extractTableAlias_of_scanned hscan]
  rcases scanned_cases hscan with ⟨tableName, tableColumns, «alias», rfl⟩ | ⟨_, _, _, _, rfl⟩ | ⟨_, _, _, _, rfl⟩
  case inl =>
    have hnew (contents : Contents x) : x.execute contents newInput = _ := execute_scanned hnewScan
    simp only [hnew, execute_scanned hscan, hconditions, ReturnsTable]
    rcases htable : x.columns tableName with e | columnNames
    · exact iff_of_true (fun _ => rfl) nofun
    · constructor
      · intro h columnNames' hcolumnNames
        obtain rfl := Except.ok.inj hcolumnNames
        refine ⟨(congrArg QueryResult.columnNames (Except.ok.inj (h noRows))).symm, fun row hrow => ?_⟩
        have hrows := congrArg QueryResult.rows (Except.ok.inj (h (singleRow tableName htable row hrow)))
        dsimp only [singleRow] at hrows
        rw [if_pos rfl] at hrows
        exact singleton_filter_eq_map_filter_iff.mp hrows
      · intro h contents
        obtain ⟨rfl, hrows⟩ := h columnNames rfl
        refine congrArg (fun rows => Except.ok (QueryResult.mk rows (columns.map Prod.fst))) (filter_eq_map_filter ?_)
        exact fun row hrow => hrows row (contents.width tableName _ htable row hrow)
  all_goals
    have hnew (contents : Contents x) : x.execute contents newInput = _ := execute_indexScan hnewScan rfl
    have hold (contents : Contents x) : x.execute contents input = _ := execute_indexScan hscan rfl
    simp only [hnew, hold, ReturnsTable]
    refine ⟨fun h => (congrArg QueryResult.columnNames (Except.ok.inj (h noRows))).symm, fun h _ => ?_⟩
    exact congrArg (fun names => Except.ok (QueryResult.mk [] names)) h.symm

/-- If the results of the inputs stay the same, those of a node do exactly if it is safe. -/
theorem sameResults_node_iff {plan : PlanNode S O} (h : ∀ input, Step plan input → SameResults x input) :
    SameResults x plan ↔ IsSafe x plan := by
  cases plan with
  | filter input condition =>
    have hinput := h input (.filter input condition)
    rw [IsSafe, ← forall_returns_iff x input]
    refine forall_congr' fun contents => ?_
    rw [apply, Execution.execute, Execution.execute, hinput contents, extractTableAlias_apply]
    exact filter_execute_eq_iff
  | project input columns tableAliases leftColumns rightColumns =>
    rw [IsSafe]
    rcases hscan : scanned input with - | scan
    · have hinput := h input (.project input columns tableAliases leftColumns rightColumns hscan)
      dsimp only
      rw [← forall_returns_iff x input]
      refine forall_congr' fun contents => ?_
      rw [apply_project, pushdownProjection_eq_none_iff.mpr hscan, Option.getD_none, Execution.execute, Execution.execute,
        hinput contents, extractTableAlias_apply]
      exact project_execute_eq_iff
    · rcases hpushed : pushdownProjection (requiredColumns columns) input with - | newInput
      · cases hscan.symm.trans (pushdownProjection_eq_none_iff.mp hpushed)
      · dsimp only
        rw [← sameResults_dropped_iff hscan hpushed]
        refine forall_congr' fun contents => ?_
        rw [apply_project, hpushed]
        rfl
  | join left right condition joinType leftAlias rightAlias =>
    have hleft := h left (.left left right condition joinType leftAlias rightAlias)
    have hright := h right (.right left right condition joinType leftAlias rightAlias)
    refine forall_congr' fun contents => ?_
    rw [apply, Execution.execute, Execution.execute, hleft contents, hright contents]
  | scan | indexScan | indexOnlyScan | aggregate | other =>
    refine iff_of_true (fun contents => ?_) trivial
    rw [apply]
    all_goals exact nofun

theorem sameResults_of_isSafe (plan : PlanNode S O) (h : ∀ node, Visits plan node → IsSafe x node) :
    SameResults x plan :=
  (sameResults_node_iff fun input hinput =>
    sameResults_of_isSafe input fun node hnode => h node (.head hinput hnode)).mpr (h plan .refl)
termination_by size plan
decreasing_by exact size_lt_of_step hinput

end Nodes

/-- The results of a plan and of all plans below that the rule comes to stay the same if and only if all these nodes
are safe. -/
theorem sameResults_iff (plan : PlanNode S O) :
    (∀ node, Visits plan node → SameResults x node) ↔ ∀ node, Visits plan node → IsSafe x node := by
  constructor
  · intro h node hnode
    exact (sameResults_node_iff fun input hinput => h input (hnode.tail hinput)).mp (h node hnode)
  · intro h node hnode
    exact sameResults_of_isSafe node fun node' hnode' => h node' (hnode.trans hnode')

end Results

/-- The projection of `SELECT a AS b FROM t` is dropped. -/
theorem renamed_dropped :
    ¬ ∀ (S O : Type) [DebugText] [FloatArithmetic] (x : Execution S O) (plan : PlanNode S O), SameResults x plan := by
  intro h
  let texts : DebugText := ⟨fun _ => "", fun _ => "", fun _ => ""⟩
  let floats : FloatArithmetic := ⟨fun x _ => x, fun x _ => x, fun _ => 0, fun _ => true, fun _ => 0⟩
  let x : Execution Unit Unit :=
    { ops := noOperations
      context := ⟨fun _ _ l => .ok l, false, none, ∅⟩
      columns := fun _ => .ok ["a"]
      otherAlias := fun _ => none
      executeOther := fun _ _ => .ok ⟨[], []⟩ }
  have hsame := h Unit Unit x (.project (.scan "t" ["a"] none) [("b", .column none "a")] ∅ none none) noRows
  rw [apply_project] at hsame
  have hnames : ["a"] = ["b"] := congrArg QueryResult.columnNames (Except.ok.inj hsame)
  exact absurd hnames (by decide)

end ProjectionPushdownRule

end Rustgresql.Optimizer
