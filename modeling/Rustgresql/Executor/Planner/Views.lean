import Rustgresql.Executor.View
import Rustgresql.Executor.Cte
import Rustgresql.Lib.Search
import Rustgresql.Sql.Parser.Total

/-!
# Expansion of views (`executor/planner.rs`)

The planner replaces the name of a view by the plan of the view's query, which it parses and plans then and there.
Nothing stops CREATE VIEW from closing a cycle of names. `planningTerminates_run_iff`: over every sequence of statements, planning
terminates for every query if and only if no CREATE VIEW closes a cycle or stores a text on which the parser panics.
-/

namespace Rustgresql

open StateSpec
open Sql

/-! ## The names in a query -/

/-- The names of tables in a list of table references -/
def tableNames (source : List (TableRef Statement)) : List (Option Text) :=
  source.filterMap fun
    | .table name _ => some (some name)
    | .subquery _ _ => none

/-- The names that planning comes to, in their order, and none for a FROM clause without tables -/
def references : SelectStatement → List (Option Text)
  | .simple (some _) _ _ _ _ _ _ _ _ _ _ _ => []
  | .simple none _ _ [] _ _ _ _ _ _ _ _ => [none]
  | .simple none _ _ (table :: tables) joins _ _ _ _ _ _ _ =>
    tableNames (table :: tables) ++ tableNames (joins.map JoinCondition.table)
  | .setOperation _ left right _ => references left ++ references right

/-- The names before the first FROM clause without tables -/
def visited : List (Option Text) → List Text
  | some name :: l => name :: visited l
  | _ => []

/-! ## Outcomes of planning -/

namespace Result

variable {α β γ : Type}

/-- A value or an error is returned. -/
def Returns (result : Result α) : Prop := (∃ a, result = .ok a) ∨ ∃ e, result = .error (.err e)

/-- The result without its value -/
def outcome : Result α → Result Unit
  | .ok _ => .ok ()
  | .error e => .error e

theorem returns_outcome {x : Result α} : Returns (outcome x) ↔ Returns x := by
  rcases x with e | a
  · simp [Returns, outcome]
  · exact iff_of_true (.inl ⟨(), rfl⟩) (.inl ⟨a, rfl⟩)

theorem outcome_bind {x : Result α} {f : α → Result β} {y : Result Unit} (h : ∀ a, outcome (f a) = y) :
    outcome (x >>= f) = outcome x >>= fun _ => y := by
  rcases x with e | a
  · rfl
  · exact h a

/-- One after the other, up to the first failure -/
def visitAll (f : γ → Result Unit) : List γ → Result Unit
  | [] => .ok ()
  | x :: l => f x >>= fun _ => visitAll f l

theorem visitAll_append (f : γ → Result Unit) (l l' : List γ) :
    visitAll f (l ++ l') = visitAll f l >>= fun _ => visitAll f l' := by
  induction l with
  | nil => rfl
  | cons x l ih =>
    rw [List.cons_append, visitAll, visitAll, ih]
    rcases f x with e | u <;> rfl

/-- What a fold puts together does not matter for its outcome. -/
theorem outcome_foldlM (f : γ → Result β) (combine : α → γ → β → α) (l : List γ) (a : α) :
    outcome (l.foldlM (fun a x => do return combine a x (← f x)) a) = visitAll (fun x => outcome (f x)) l := by
  induction l generalizing a with
  | nil => rfl
  | cons x l ih =>
    rw [List.foldlM_cons, visitAll]
    rcases hx : f x with e | b
    · rfl
    · exact ih (combine a x b)

theorem visitAll_map {δ : Type} (f : γ → Result Unit) (g : δ → γ) (l : List δ) :
    visitAll f (l.map g) = visitAll (fun x => f (g x)) l := by
  induction l with
  | nil => rfl
  | cons x l ih => rw [List.map_cons, visitAll, visitAll, ih]

theorem bind_pure_unit (x : Result Unit) : (x >>= fun _ => .ok ()) = x := by
  rcases x with e | u <;> rfl

/-- A list of names is planned if those that are come to return. -/
theorem returns_visitAll {f : Option Text → Result Unit} (hf : f none = .error (.err (.parse "No tables in FROM clause")))
    {refs : List (Option Text)} (h : ∀ name ∈ visited refs, Returns (f (some name))) : Returns (visitAll f refs) := by
  induction refs with
  | nil => exact .inl ⟨(), rfl⟩
  | cons ref refs ih =>
    rcases ref with - | name
    · rw [visitAll, hf]
      exact .inr ⟨_, rfl⟩
    · rw [visited] at h
      have hrest := ih fun ref href => h ref (List.mem_cons_of_mem _ href)
      rcases h name List.mem_cons_self with ⟨u, hu⟩ | ⟨e, he⟩
      · rw [visitAll, hu]
        exact hrest
      · rw [visitAll, he]
        exact .inr ⟨e, rfl⟩

/-- The list is not planned if one name is not, and the others before it are without an error. -/
theorem not_returns_visitAll {f : Option Text → Result Unit} {refs : List (Option Text)} {name : Text}
    (hname : name ∈ visited refs) (hfails : ¬ Returns (f (some name)))
    (h : ∀ ref ∈ visited refs, f (some ref) = .ok () ∨ ¬ Returns (f (some ref))) : ¬ Returns (visitAll f refs) := by
  induction refs with
  | nil => cases hname
  | cons ref refs ih =>
    rcases ref with - | first
    · cases hname
    rw [visited] at hname h
    rw [visitAll]
    rcases h first List.mem_cons_self with hok | hfirst
    · rcases List.mem_cons.mp hname with rfl | hname
      · exact absurd (.inl ⟨(), hok⟩) hfails
      · rw [hok]
        exact ih hname fun ref href => h ref (List.mem_cons_of_mem _ href)
    · intro hreturns
      refine hfirst ?_
      rcases hrun : f (some first) with e | u
      · rw [hrun] at hreturns
        rcases hreturns with ⟨u, hu⟩ | ⟨e', he⟩
        · cases hu
        · cases he
          exact .inr ⟨e', rfl⟩
      · exact .inl ⟨u, rfl⟩

end Result

/-- The names of a list, all of them materialized without rows -/
def materializeAll (names : List Text) : MaterializedCtes :=
  names.foldr (fun name materializedCtes => materializedCtes.insert name ⟨[], []⟩) ∅

theorem mem_materializeAll {names : List Text} {name : Text} : name ∈ materializeAll names ↔ name ∈ names := by
  induction names with
  | nil => simp [materializeAll]
  | cons name' names ih =>
    rw [materializeAll, List.foldr_cons, AList.mem_insert, List.mem_cons, ← ih]
    rfl

section Planning

variable [ViewStd]

/-! ## The planner -/

namespace QueryPlanner

/-- Plans, as far as they come from table references -/
inductive SourcePlan
  | scan (tableName : Text) («alias» : Option Text)
  | cteScan (cteName : Text) («alias» : Option Text)
  | subquery (query : Statement)
  | join (left right : SourcePlan) (condition : Option Sql.Expression) (joinType : JoinType)
  /-- The nodes for the other clauses of a query -/
  | clauses (query : SelectStatement) (input : SourcePlan)
  | setOperation (operator : SetOperator) (left right : SourcePlan) (all : Bool)
  | cte (withClause : WithClause SelectStatement) (mainQuery : SelectStatement)

end QueryPlanner

/-- Query planner with a catalog -/
structure QueryPlanner where
  catalog : ViewManager
  materializedCtes : MaterializedCtes

namespace QueryPlanner

variable (self : QueryPlanner)

/-- Tokenize and parse the text of a view. -/
def parseView (query : Text) : Result (List Statement) :=
  match parseSql query with
  | .ok statements => .ok statements
  | .error (.error message) => .error (.err (.parse message))
  | .error _ => .error (.panic "called `Option::unwrap()` on a `None` value")

/-- Create table scan plan (or expand view if it's a view), with a way to plan the query of a view -/
def planTableScan (planSelect : SelectStatement → Result SourcePlan) (tableName : Text) («alias» : Option Text) :
    Result SourcePlan :=
  -- First check if this table name refers to a materialized CTE
  if tableName ∈ self.materializedCtes then .ok (.cteScan tableName «alias»)
  else
    match self.catalog.getView tableName with
    | some viewDef => do
      -- The view query should be a SELECT statement
      match ← parseView viewDef.query with
      | [] => throw (.err (.parse s!"View '{String.ofList tableName}' has empty query"))
      | .select selectStmt :: _ => planSelect selectStmt
      | _ => throw (.err (.internal s!"View '{String.ofList tableName}' query is not a SELECT statement"))
    | none => .ok (.scan tableName «alias»)

/-- Create plan for a table reference (either a table or subquery) -/
def planTableRef (planSelect : SelectStatement → Result SourcePlan) : TableRef Statement → Result SourcePlan
  | .table name «alias» => self.planTableScan planSelect name «alias»
  | .subquery subquery _ => .ok (.subquery subquery)

/-- Plan the FROM clause; several tables are joined. -/
def planFromClause (planSelect : SelectStatement → Result SourcePlan) : List (TableRef Statement) → Result SourcePlan
  | [] => .error (.err (.parse "No tables in FROM clause"))
  | table :: tables => do
    let plan ← self.planTableRef planSelect table
    tables.foldlM (fun plan table => do
      let rightPlan ← self.planTableRef planSelect table
      return .join plan rightPlan none .inner) plan

/-- Plan a query, with a way to plan the queries of views -/
def planQuery (planSelect : SelectStatement → Result SourcePlan) : SelectStatement → Result SourcePlan
  | .simple (some withClause) distinct columns source joins whereClause groupBy having orderBy limit offset namedWindows =>
    return .cte withClause
      (.simple none distinct columns source joins whereClause groupBy having orderBy limit offset namedWindows)
  | .simple none distinct columns source joins whereClause groupBy having orderBy limit offset namedWindows => do
    -- Start with table scans
    let plan ← self.planFromClause planSelect source
    -- Apply joins
    let plan ← joins.foldlM (fun plan join => do
      let rightPlan ← self.planTableRef planSelect join.table
      return .join plan rightPlan join.condition join.joinType) plan
    return .clauses
      (.simple none distinct columns source joins whereClause groupBy having orderBy limit offset namedWindows) plan
  | .setOperation operator left right all => do
    let leftPlan ← planQuery planSelect left
    let rightPlan ← planQuery planSelect right
    return .setOperation operator leftPlan rightPlan all

/-- Create execution plan from SELECT statement, on a stack with room for a number of views inside each other -/
def planSelectStatement : ℕ → SelectStatement → Result SourcePlan
  | 0, _ => .error (.panic "stack overflow")
  | depth + 1, select => self.planQuery (planSelectStatement depth) select

end QueryPlanner

/-- The names that the text of a view leads to -/
def textReads (query : Text) : List Text :=
  match parseSql query with
  | .ok (.select select :: _) => visited (references select)
  | _ => []

namespace ViewManager

/-- The first name is that of a view whose text leads to the second. -/
def Reads (m : ViewManager) (name ref : Text) : Prop :=
  ∃ viewDef, m.views.lookup name = some viewDef ∧ ref ∈ textReads viewDef.query

end ViewManager

namespace QueryPlanner

open Result

variable (self : QueryPlanner) (planSelect : SelectStatement → Result SourcePlan)

/-- The outcome of planning a name, or of a FROM clause without tables -/
def visit : Option Text → Result Unit
  | some name => outcome (self.planTableScan planSelect name none)
  | none => .error (.err (.parse "No tables in FROM clause"))

theorem outcome_planTableScan (name : Text) («alias» : Option Text) :
    outcome (self.planTableScan planSelect name «alias») = self.visit planSelect (some name) := by
  rw [visit, planTableScan, planTableScan]
  split_ifs
  · rfl
  · cases self.catalog.getView name <;> rfl

theorem visitAll_planTableRef (source : List (TableRef Statement)) :
    visitAll (fun table => outcome (self.planTableRef planSelect table)) source =
      visitAll (self.visit planSelect) (tableNames source) := by
  induction source with
  | nil => rfl
  | cons table source ih =>
    rw [visitAll, ih]
    cases table with
    | table name «alias» =>
      rw [planTableRef, outcome_planTableScan]
      rfl
    | subquery subquery «alias» => rfl

theorem outcome_planFromClause (table : TableRef Statement) (tables : List (TableRef Statement)) :
    outcome (self.planFromClause planSelect (table :: tables)) =
      visitAll (self.visit planSelect) (tableNames (table :: tables)) := by
  rw [← visitAll_planTableRef, planFromClause, visitAll]
  exact outcome_bind fun plan => outcome_foldlM (self.planTableRef planSelect)
    (fun plan _ rightPlan => .join plan rightPlan none .inner) tables plan

/-- Planning visits the names of a query. -/
theorem outcome_planQuery : ∀ select : SelectStatement,
    outcome (self.planQuery planSelect select) = visitAll (self.visit planSelect) (references select)
  | .simple (some _) _ _ _ _ _ _ _ _ _ _ _ => rfl
  | .simple none _ _ [] _ _ _ _ _ _ _ _ => rfl
  | .simple none _ _ (table :: tables) joins _ _ _ _ _ _ _ => by
    rw [planQuery, references, visitAll_append, ← outcome_planFromClause]
    refine outcome_bind fun plan => ?_
    rw [← visitAll_planTableRef]
    have hjoins := outcome_foldlM (fun join : JoinCondition Sql.Expression Statement =>
      self.planTableRef planSelect join.table)
      (fun plan join rightPlan => .join plan rightPlan join.condition join.joinType) joins plan
    rw [visitAll_map, ← hjoins]
    refine (outcome_bind fun plan => ?_).trans (bind_pure_unit _)
    rfl
  | .setOperation operator left right all => by
    rw [planQuery, references, visitAll_append, ← outcome_planQuery left, ← outcome_planQuery right]
    refine outcome_bind fun leftPlan => ?_
    refine (outcome_bind fun rightPlan => ?_).trans (bind_pure_unit _)
    rfl

/-! ## Where planning returns -/

variable {self} {planSelect}

theorem visit_of_materialized {name : Text} (h : name ∈ self.materializedCtes) :
    self.visit planSelect (some name) = .ok () := by
  rw [visit, planTableScan, if_pos h]
  rfl

theorem visit_of_table {name : Text} (h : self.catalog.views.lookup name = none) :
    self.visit planSelect (some name) = .ok () := by
  rw [visit, planTableScan, ViewManager.getView, h]
  split_ifs <;> rfl

/-- A name of a view stands for the query that its text is parsed to. -/
theorem visit_of_view {name : Text} {viewDef : ViewDef} {select : SelectStatement} {statements : List Statement}
    (hname : name ∉ self.materializedCtes) (hview : self.catalog.views.lookup name = some viewDef)
    (hparse : parseSql viewDef.query = .ok (.select select :: statements)) :
    self.visit planSelect (some name) = outcome (planSelect select) := by
  rw [visit, planTableScan, if_neg hname, ViewManager.getView, hview]
  simp only [parseView, hparse]
  rfl

/-- A view whose text is not a query is planned with an error. -/
theorem returns_visit_of_not_select {name : Text} {viewDef : ViewDef}
    (hview : self.catalog.views.lookup name = some viewDef) (hreturns : Sql.Returns (parseSql viewDef.query))
    (hselect : ∀ select statements, parseSql viewDef.query ≠ .ok (.select select :: statements)) :
    Returns (self.visit planSelect (some name)) := by
  rw [visit, planTableScan, ViewManager.getView, hview]
  split_ifs
  · exact .inl ⟨(), rfl⟩
  · rcases hreturns with ⟨statements, hparse⟩ | ⟨message, hparse⟩
    · rcases statements with - | ⟨statement, statements⟩
      · simp only [parseView, hparse]
        exact .inr ⟨_, rfl⟩
      · cases statement with
        | select select => exact absurd hparse (hselect select statements)
        | _ =>
          simp only [parseView, hparse]
          exact .inr ⟨_, rfl⟩
    · simp only [parseView, hparse]
      exact .inr ⟨_, rfl⟩

theorem outcome_planSelectStatement (self : QueryPlanner) (depth : ℕ) (select : SelectStatement) :
    outcome (self.planSelectStatement (depth + 1) select) =
      visitAll (self.visit (self.planSelectStatement depth)) (references select) :=
  self.outcome_planQuery (self.planSelectStatement depth) select

end QueryPlanner

namespace ViewManager

open QueryPlanner Result

/-- The parser returns on the text of every view. -/
def Parses (m : ViewManager) : Prop :=
  ∀ name viewDef, m.views.lookup name = some viewDef → Sql.Returns (parseSql viewDef.query)

/-- No view leads back to itself. -/
def Acyclic (m : ViewManager) : Prop := ∀ name, ¬ Relation.TransGen m.Reads name name

/-- With enough room on the stack, planning returns for every query, whatever expressions are materialized. -/
def PlanningTerminates (m : ViewManager) : Prop :=
  ∀ (materializedCtes : MaterializedCtes) (select : SelectStatement),
    ∃ depth, Returns (QueryPlanner.planSelectStatement ⟨m, materializedCtes⟩ depth select)

variable {m : ViewManager}

/-- With this room or more on the stack, planning the name returns. -/
def ReturnsFrom (self : QueryPlanner) (name : Text) (room : ℕ) : Prop :=
  ∀ depth, room ≤ depth → Returns (self.visit (self.planSelectStatement depth) (some name))

theorem exists_room {self : QueryPlanner} {names : List Text} (h : ∀ name ∈ names, ∃ room, ReturnsFrom self name room) :
    ∃ room, ∀ name ∈ names, ReturnsFrom self name room := by
  induction names with
  | nil => exact ⟨0, nofun⟩
  | cons name names ih =>
    obtain ⟨room, hroom⟩ := h name List.mem_cons_self
    obtain ⟨rooms, hrooms⟩ := ih fun name' hname' => h name' (List.mem_cons_of_mem _ hname')
    refine ⟨max room rooms, fun name' hname' depth hdepth => ?_⟩
    rcases List.mem_cons.mp hname' with rfl | hname'
    · exact hroom depth ((le_max_left _ _).trans hdepth)
    · exact hrooms name' hname' depth ((le_max_right _ _).trans hdepth)

/-- A query is planned if the names in it are. -/
theorem exists_returns {self : QueryPlanner} {select : SelectStatement}
    (h : ∀ name ∈ visited (references select), ∃ room, ReturnsFrom self name room) :
    ∃ room, ∀ depth, room ≤ depth → Returns (self.planSelectStatement depth select) := by
  obtain ⟨room, hroom⟩ := exists_room h
  refine ⟨room + 1, fun depth hdepth => ?_⟩
  obtain ⟨depth, rfl⟩ : ∃ d, depth = d + 1 := ⟨depth - 1, by omega⟩
  rw [← returns_outcome, outcome_planSelectStatement]
  exact returns_visitAll rfl fun name hname => hroom name hname depth (by omega)

theorem select_of_textReads {query ref : Text} (h : ref ∈ textReads query) :
    ∃ select statements, parseSql query = .ok (.select select :: statements) ∧
      textReads query = visited (references select) := by
  unfold textReads at h ⊢
  split at h
  · next select statements hparse => exact ⟨select, statements, hparse, rfl⟩
  · cases h

theorem finite_views (m : ViewManager) : {name | ∃ ref, m.Reads name ref}.Finite := by
  refine Set.Finite.subset (List.finite_toSet m.views.keys) ?_
  rintro name ⟨ref, viewDef, hview, -⟩
  exact AList.mem_keys.mpr (AList.lookup_isSome.mp (by rw [hview]; rfl))

theorem exists_returnsFrom (hparses : m.Parses) (hacyclic : m.Acyclic) (materializedCtes : MaterializedCtes)
    (name : Text) : ∃ room, ReturnsFrom ⟨m, materializedCtes⟩ name room := by
  induction name using (Search.wellFounded_of_acyclic m.finite_views hacyclic).induction with
  | _ name ih =>
    by_cases hmaterialized : name ∈ materializedCtes
    · exact ⟨0, fun _ _ => .inl ⟨(), visit_of_materialized hmaterialized⟩⟩
    rcases hview : m.views.lookup name with - | viewDef
    · exact ⟨0, fun _ _ => .inl ⟨(), visit_of_table hview⟩⟩
    by_cases hselect : ∃ select statements, parseSql viewDef.query = .ok (.select select :: statements)
    · obtain ⟨select, statements, hparse⟩ := hselect
      have hreads : textReads viewDef.query = visited (references select) := by
        rw [textReads, hparse]
      have hbelow : ∀ ref ∈ visited (references select), ∃ room, ReturnsFrom ⟨m, materializedCtes⟩ ref room := by
        intro ref href
        exact ih ref ⟨viewDef, hview, hreads ▸ href⟩
      obtain ⟨room, hroom⟩ := exists_returns hbelow
      refine ⟨room, fun depth hdepth => ?_⟩
      rw [visit_of_view hmaterialized hview hparse, returns_outcome]
      exact hroom depth hdepth
    · refine ⟨0, fun depth _ => returns_visit_of_not_select hview (hparses name viewDef hview) ?_⟩
      exact fun select statements hparse => hselect ⟨select, statements, hparse⟩

/-- The query of all columns of a table -/
def selectAll (name : Text) : SelectStatement :=
  .simple none false [⟨.star, none⟩] [.table name none] [] none [] none [] none none []

theorem not_returns_selectAll {self : QueryPlanner} {name : Text}
    (h : ∀ depth, ¬ Returns (self.visit (self.planSelectStatement depth) (some name))) (depth : ℕ) :
    ¬ Returns (self.planSelectStatement depth (selectAll name)) := by
  cases depth with
  | zero => rintro (⟨plan, h⟩ | ⟨e, h⟩) <;> cases h
  | succ depth =>
    rw [← returns_outcome, outcome_planSelectStatement]
    have hrefs : references (selectAll name) = [some name] := rfl
    rw [hrefs, visitAll]
    intro hreturns
    refine h depth ?_
    rwa [visitAll, bind_pure_unit] at hreturns

/-- The parser has to return on the text of a view. -/
theorem PlanningTerminates.parses (h : m.PlanningTerminates) : m.Parses := by
  intro name viewDef hview
  by_contra hparse
  obtain ⟨depth, hreturns⟩ := h ∅ (selectAll name)
  refine not_returns_selectAll (fun depth => ?_) depth hreturns
  have hpanic : parseView viewDef.query = .error (.panic "called `Option::unwrap()` on a `None` value") := by
    rcases hrun : parseSql viewDef.query with (_ | _ | _) | statements
    · exact absurd (.inr ⟨_, hrun⟩) hparse
    · rw [parseView, hrun]
    · rw [parseView, hrun]
    · exact absurd (.inl ⟨_, hrun⟩) hparse
  rw [visit, planTableScan, if_neg (AList.notMem_empty name), getView, hview]
  simp only [hpanic]
  rintro (⟨u, hu⟩ | ⟨e, he⟩)
  · cases hu
  · cases he

/-- A name that leads back to itself is planned for ever, if the names that do not are materialized. -/
theorem not_returns_visit {materializedCtes : MaterializedCtes}
    (hmaterialized : ∀ name, name ∈ materializedCtes ↔ name ∈ m.views ∧ ¬ Relation.TransGen m.Reads name name)
    (depth : ℕ) {name : Text} (hname : Relation.TransGen m.Reads name name) :
    ¬ Returns (visit ⟨m, materializedCtes⟩ (planSelectStatement ⟨m, materializedCtes⟩ depth) (some name)) := by
  induction depth generalizing name with
  | zero =>
    obtain ⟨ref, ⟨viewDef, hview, href⟩, hback⟩ := Relation.TransGen.head'_iff.mp hname
    have hnot : name ∉ materializedCtes := fun h => ((hmaterialized name).mp h).2 hname
    obtain ⟨select, statements, hparse, -⟩ := select_of_textReads href
    rw [visit_of_view hnot hview hparse]
    rintro (⟨plan, h⟩ | ⟨e, h⟩) <;> cases h
  | succ depth ih =>
    obtain ⟨ref, ⟨viewDef, hview, href⟩, hback⟩ := Relation.TransGen.head'_iff.mp hname
    have hnot : name ∉ materializedCtes := fun h => ((hmaterialized name).mp h).2 hname
    obtain ⟨select, statements, hparse, hreads⟩ := select_of_textReads href
    have hcycle : Relation.TransGen m.Reads ref ref := Relation.TransGen.tail' hback ⟨viewDef, hview, href⟩
    rw [visit_of_view hnot hview hparse, outcome_planSelectStatement]
    refine not_returns_visitAll (hreads ▸ href) (ih hcycle) fun ref' _ => ?_
    by_cases hcycle' : Relation.TransGen m.Reads ref' ref'
    · exact .inr (ih hcycle')
    · left
      rcases hview' : m.views.lookup ref' with - | viewDef'
      · exact visit_of_table hview'
      · have hmem : ref' ∈ m.views := AList.lookup_isSome.mp (by rw [hview']; rfl)
        exact visit_of_materialized ((hmaterialized ref').mpr ⟨hmem, hcycle'⟩)

/-- No view may lead back to itself. -/
theorem PlanningTerminates.acyclic (h : m.PlanningTerminates) : m.Acyclic := by
  classical
  intro name hname
  let names := m.views.keys.filter fun name => ¬ Relation.TransGen m.Reads name name
  have hmaterialized (name : Text) :
      name ∈ materializeAll names ↔ name ∈ m.views ∧ ¬ Relation.TransGen m.Reads name name := by
    rw [mem_materializeAll, List.mem_filter, decide_eq_true_iff, AList.mem_keys]
  obtain ⟨depth, hreturns⟩ := h (materializeAll names) (selectAll name)
  exact not_returns_selectAll (fun depth => not_returns_visit hmaterialized depth hname) depth hreturns

/-- Planning terminates if the parser does on the text of every view and no view leads back to itself. -/
theorem planningTerminates_iff : m.PlanningTerminates ↔ m.Parses ∧ m.Acyclic := by
  constructor
  · exact fun h => ⟨h.parses, h.acyclic⟩
  · rintro ⟨hparses, hacyclic⟩ materializedCtes select
    obtain ⟨room, hroom⟩ := exists_returns fun name _ => exists_returnsFrom hparses hacyclic materializedCtes name
    exact ⟨room, hroom room le_rfl⟩

/-- The view that is added leads to the names in its text. -/
theorem reads_insert {viewName : Text} (hname : viewName ∉ m.views) (viewDef : ViewDef) (next : ℕ) (name ref : Text) :
    Reads ⟨m.views.insert viewName viewDef, next⟩ name ref ↔
      m.Reads name ref ∨ name = viewName ∧ ref ∈ textReads viewDef.query := by
  have hnone := AList.lookup_eq_none.mpr hname
  unfold Reads
  rw [HashMap.lookup_insert_eq]
  split_ifs with h
  · subst h
    simp [hnone]
  · simp [h]

theorem parses_insert {viewName : Text} (hname : viewName ∉ m.views) (viewDef : ViewDef) (next : ℕ) :
    Parses ⟨m.views.insert viewName viewDef, next⟩ ↔ Sql.Returns (parseSql viewDef.query) ∧ m.Parses := by
  have hnone := AList.lookup_eq_none.mpr hname
  unfold Parses
  constructor
  · intro h
    refine ⟨h viewName viewDef (AList.lookup_insert _), fun name viewDef' hview => h name viewDef' ?_⟩
    rw [HashMap.lookup_insert_eq, if_neg]
    · exact hview
    · rintro rfl
      rw [hnone] at hview
      cases hview
  · rintro ⟨hnew, h⟩ name viewDef' hview
    rw [HashMap.lookup_insert_eq] at hview
    split_ifs at hview
    · cases hview
      exact hnew
    · exact h name viewDef' hview

/-- A view that is added to views on which planning terminates may not lead back to itself. -/
theorem planningTerminates_insert_iff (h : m.PlanningTerminates) {viewName : Text} (hname : viewName ∉ m.views)
    (viewDef : ViewDef) (next : ℕ) : PlanningTerminates ⟨m.views.insert viewName viewDef, next⟩ ↔
      Sql.Returns (parseSql viewDef.query) ∧
        ∀ ref ∈ textReads viewDef.query, ¬ Relation.ReflTransGen m.Reads ref viewName := by
  obtain ⟨hparses, hacyclic⟩ := planningTerminates_iff.mp h
  rw [planningTerminates_iff, parses_insert hname, Acyclic,
    Search.acyclic_extension_iff (reads_insert hname viewDef next) hacyclic]
  exact and_congr_left' (and_iff_left hparses)

theorem PlanningTerminates.erase (h : m.PlanningTerminates) (viewName : Text) :
    PlanningTerminates { m with views := m.views.erase viewName } := by
  obtain ⟨hparses, hacyclic⟩ := planningTerminates_iff.mp h
  have hsub {name : Text} {viewDef : ViewDef} (hview : (m.views.erase viewName).lookup name = some viewDef) :
      m.views.lookup name = some viewDef := by
    rw [HashMap.lookup_erase_eq] at hview
    split_ifs at hview
    exact hview
  refine planningTerminates_iff.mpr ⟨fun name viewDef hview => hparses name viewDef (hsub hview), fun name hname => ?_⟩
  refine hacyclic name (Relation.TransGen.mono ?_ _ _ hname)
  rintro name ref ⟨viewDef, hview, href⟩
  exact ⟨viewDef, hsub hview, href⟩

theorem planningTerminates_new : (new : ViewManager).PlanningTerminates := by
  refine planningTerminates_iff.mpr ⟨fun name viewDef hview => ?_, fun name hname => ?_⟩
  · cases hview
  · obtain ⟨ref, ⟨viewDef, hview, -⟩, -⟩ := Relation.TransGen.head'_iff.mp hname
    cases hview

end ViewManager

/-! ## Runs -/

namespace ViewCatalog

open ViewManager

/-- CREATE VIEW is refused, or the parser returns on the text that it stores, and no name in that text leads back to
the view. -/
def KeepsPlanning (c : ViewCatalog) : ViewOp → Prop
  | .createView viewName query _ => c.Accepts viewName → Sql.Returns (parseSql (selectToSql query)) ∧
    ∀ ref ∈ textReads (selectToSql query), ¬ Relation.ReflTransGen c.viewManager.Reads ref viewName
  | _ => True

theorem planningTerminates_step_iff (c : ViewCatalog) (op : ViewOp) (h : c.viewManager.PlanningTerminates) :
    (c.step op).viewManager.PlanningTerminates ↔ c.KeepsPlanning op := by
  cases op with
  | createView viewName query materialized =>
    unfold KeepsPlanning
    by_cases haccepts : c.Accepts viewName
    · obtain ⟨viewDef, next, hquery, hstep⟩ := step_of_accepts haccepts query materialized
      rw [hstep, planningTerminates_insert_iff h haccepts.2, hquery]
      exact ⟨fun hkeeps _ => hkeeps, fun hkeeps => hkeeps haccepts⟩
    · rw [step_of_not_accepts haccepts]
      exact iff_of_true h fun hyes => absurd hyes haccepts
  | dropView viewName cascade =>
    refine iff_of_true ?_ trivial
    rcases c.step_dropView viewName cascade with hstep | hstep
    · rw [hstep]
      exact h
    · rw [hstep]
      exact h.erase viewName
  | other schemaManager => exact iff_of_true h trivial

/-- Planning terminates after every part of a run exactly if every CREATE VIEW in it that is accepted stores a text on
which the parser returns and that does not lead back to the view. -/
theorem planningTerminates_run_iff (ops : List ViewOp) :
    (∀ pre, pre <+: ops → (run .new pre).viewManager.PlanningTerminates) ↔
      ∀ pre op post, ops = pre ++ op :: post → (run .new pre).KeepsPlanning op := by
  have hnew : (new : ViewCatalog).viewManager.PlanningTerminates := planningTerminates_new
  refine (forall_prefix_iff (P := fun c : ViewCatalog => c.viewManager.PlanningTerminates) hnew ops).trans ?_
  exact forall_step_iff (I := fun c : ViewCatalog => c.viewManager.PlanningTerminates) hnew (fun _ _ _ h => h)
    planningTerminates_step_iff ops

end ViewCatalog

end Planning

namespace ViewCatalog

/-- `SELECT a FROM v` -/
def selectFromView : SelectStatement :=
  .simple none false [⟨.column none ['a'], none⟩] [.table ['v'] none] [] none [] none [] none none []

/-- CREATE VIEW v AS SELECT a FROM v is accepted, and then no plan of `v` comes to an end. -/
theorem not_planningTerminates_selfView :
    let _std := ViewStd.ascii
    ¬ ∀ ops : List ViewOp, (run .new ops).viewManager.PlanningTerminates := by
  intro _std h
  have hreads : ['v'] ∈ textReads (selectToSql selectFromView) := by decide
  have hself : (run .new [.createView ['v'] selectFromView false]).viewManager.Reads ['v'] ['v'] := ⟨_, rfl, hreads⟩
  exact (h [.createView ['v'] selectFromView false]).acyclic ['v'] (.single hself)

end ViewCatalog

end Rustgresql
