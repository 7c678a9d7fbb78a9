import Rustgresql.Catalog.View
import Rustgresql.Lib.Since

/-!
# Materialized views and their refreshes

The view manager keeps a status for every view, an index from the tables to the views that depend on them, a log of
the latest changes of tables, and the schedules of refreshes. A change of a table marks the views that depend on it,
and a refresh takes the mark off again.

The times that the calls read from the clock are arguments here. Whether a view needs a refresh is compared with what
happened in the run that led to the state: `UpToDate` says it of the list of calls and does not look at a status.
-/

namespace Rustgresql

open StateSpec
open Sql (Text)

/-- Refresh status for materialized views -/
inductive RefreshStatus
  | fresh
  | stale
  | refreshing
  | failed (error : String)
  deriving DecidableEq

/-- Types of changes that can trigger view refresh -/
inductive ChangeType
  | insert
  | update
  | delete
  | truncate
  | schemaChange
  deriving DecidableEq

/-- Dependency change tracking -/
structure DependencyChange where
  tableName : Text
  changeType : ChangeType
  timestamp : ℕ
  affectedRows : ℕ
  deriving DecidableEq

/-- View refresh schedule -/
structure RefreshSchedule where
  interval : ℕ
  nextRefresh : ℕ
  lastRefresh : Option ℕ
  active : Bool
  deriving DecidableEq

/-- A schedule after a successful refresh -/
def RefreshSchedule.refreshed (now : ℕ) (schedule : RefreshSchedule) : RefreshSchedule :=
  { schedule with lastRefresh := some now, nextRefresh := now + schedule.interval }

/-- View dependency graph. A set of names is a list without repetitions. -/
structure DependencyGraph where
  viewToTables : HashMap Text (List Text)
  viewDependencies : HashMap Text (List Text)
  tableToViews : HashMap Text (List Text)

namespace DependencyGraph

def new : DependencyGraph := ⟨∅, ∅, ∅⟩

/-- Remove an old table -> view mapping. A table without views leaves the index. -/
def detach (viewName : Text) (tableToViews : HashMap Text (List Text)) (table : Text) : HashMap Text (List Text) :=
  match tableToViews.lookup table with
  | none => tableToViews
  | some views =>
    let views := views.filter (· ≠ viewName)
    if views = [] then tableToViews.erase table else tableToViews.insert table views

/-- Add a table -> view mapping. -/
def attach (viewName : Text) (tableToViews : HashMap Text (List Text)) (table : Text) : HashMap Text (List Text) :=
  tableToViews.insert table (((tableToViews.lookup table).getD []).insert viewName)

/-- Update dependency graph when creating a view -/
def update (graph : DependencyGraph) (viewName : Text) (dependencies : List Text) : DependencyGraph :=
  let oldTables := (graph.viewToTables.lookup viewName).getD []
  let tableToViews := oldTables.foldl (detach viewName) graph.tableToViews
  { graph with
    tableToViews := dependencies.foldl (attach viewName) tableToViews
    viewToTables := (graph.viewToTables.erase viewName).insert viewName
      (dependencies.foldl (fun tables table => tables.insert table) []) }

/-- Remove view from dependency graph -/
def remove (graph : DependencyGraph) (viewName : Text) : DependencyGraph where
  tableToViews := ((graph.viewToTables.lookup viewName).getD []).foldl (detach viewName) graph.tableToViews
  viewToTables := graph.viewToTables.erase viewName
  viewDependencies :=
    HashMap.mapValues (fun views => views.filter (· ≠ viewName)) (graph.viewDependencies.erase viewName)

/-- The tables that a view is entered with -/
def tablesOf (graph : DependencyGraph) (viewName : Text) : List Text := (graph.viewToTables.lookup viewName).getD []

/-- The views that are entered with a table -/
def viewsOf (graph : DependencyGraph) (table : Text) : List Text := (graph.tableToViews.lookup table).getD []

theorem mem_detach {viewName name t table : Text} {index : HashMap Text (List Text)} :
    name ∈ ((detach viewName index table).lookup t).getD [] ↔
      name ∈ (index.lookup t).getD [] ∧ (t = table → name ≠ viewName) := by
  rcases hindex : index.lookup table with - | views
  · simp only [detach, hindex]
    refine ⟨fun h => ⟨h, ?_⟩, And.left⟩
    rintro rfl
    rw [hindex] at h
    exact absurd h List.not_mem_nil
  · have hfilter : name ∈ views.filter (· ≠ viewName) ↔ name ∈ views ∧ name ≠ viewName := by
      simp [List.mem_filter]
    by_cases ht : t = table
    · subst ht
      simp only [detach, hindex, Option.getD_some, forall_const, ← hfilter]
      split
      · next hempty => rw [AList.lookup_erase, hempty, Option.getD_none]
      · rw [AList.lookup_insert, Option.getD_some]
    · simp only [detach, hindex, ht, false_imp_iff, and_true]
      split
      · rw [AList.lookup_erase_ne ht]
      · rw [AList.lookup_insert_ne ht]

theorem mem_foldl_detach {viewName name t : Text} (tables : List Text) (index : HashMap Text (List Text)) :
    name ∈ ((tables.foldl (detach viewName) index).lookup t).getD [] ↔
      name ∈ (index.lookup t).getD [] ∧ (t ∈ tables → name ≠ viewName) := by
  induction tables generalizing index with
  | nil => simp
  | cons table tables ih =>
    rw [List.foldl_cons, ih, mem_detach, List.mem_cons, and_assoc, or_imp]

theorem mem_attach {viewName name t table : Text} {index : HashMap Text (List Text)} :
    name ∈ ((attach viewName index table).lookup t).getD [] ↔
      name ∈ (index.lookup t).getD [] ∨ t = table ∧ name = viewName := by
  rw [attach, HashMap.lookup_insert_eq]
  split
  · next ht =>
    subst ht
    rw [Option.getD_some, List.mem_insert_iff, or_comm]
    simp
  · next ht => simp [ht]

theorem mem_foldl_attach {viewName name t : Text} (tables : List Text) (index : HashMap Text (List Text)) :
    name ∈ ((tables.foldl (attach viewName) index).lookup t).getD [] ↔
      name ∈ (index.lookup t).getD [] ∨ t ∈ tables ∧ name = viewName := by
  induction tables generalizing index with
  | nil => simp
  | cons table tables ih =>
    rw [List.foldl_cons, ih, mem_attach, List.mem_cons, or_assoc, or_and_right]

theorem mem_foldl_insert {t : Text} (tables set : List Text) :
    t ∈ tables.foldl (fun tables table => tables.insert table) set ↔ t ∈ set ∨ t ∈ tables := by
  induction tables generalizing set with
  | nil => simp
  | cons table tables ih =>
    rw [List.foldl_cons, ih, List.mem_insert_iff, List.mem_cons, or_right_comm, or_comm]

theorem mem_viewsOf_update {graph : DependencyGraph} {viewName name t : Text} {dependencies : List Text} :
    name ∈ (graph.update viewName dependencies).viewsOf t ↔
      name ∈ graph.viewsOf t ∧ (t ∈ graph.tablesOf viewName → name ≠ viewName) ∨
        t ∈ dependencies ∧ name = viewName := by
  rw [viewsOf, update, mem_foldl_attach, mem_foldl_detach]
  rfl

theorem mem_tablesOf_update {graph : DependencyGraph} {viewName name t : Text} {dependencies : List Text} :
    t ∈ (graph.update viewName dependencies).tablesOf name ↔
      if name = viewName then t ∈ dependencies else t ∈ graph.tablesOf name := by
  simp only [tablesOf, update, HashMap.lookup_insert_eq, HashMap.lookup_erase_eq]
  split
  · rw [Option.getD_some, mem_foldl_insert, or_iff_right List.not_mem_nil]
  · rfl

theorem mem_viewsOf_remove {graph : DependencyGraph} {viewName name t : Text} :
    name ∈ (graph.remove viewName).viewsOf t ↔
      name ∈ graph.viewsOf t ∧ (t ∈ graph.tablesOf viewName → name ≠ viewName) := by
  rw [viewsOf, remove, mem_foldl_detach]
  rfl

theorem mem_tablesOf_remove {graph : DependencyGraph} {viewName name t : Text} :
    t ∈ (graph.remove viewName).tablesOf name ↔ name ≠ viewName ∧ t ∈ graph.tablesOf name := by
  simp only [tablesOf, remove, HashMap.lookup_erase_eq]
  split
  · next h => simp [h]
  · next h => simp [h]

end DependencyGraph

/-- View manager, with dependency tracking and refresh mechanisms -/
structure RefreshManager where
  viewManager : ViewManager
  dependencyGraph : DependencyGraph
  changeLog : List DependencyChange
  refreshSchedules : HashMap Text RefreshSchedule
  viewStatus : HashMap Text RefreshStatus

namespace RefreshManager

abbrev Call (α : Type) := EStateM Failure RefreshManager α

def new : RefreshManager := ⟨ViewManager.new, DependencyGraph.new, [], ∅, ∅⟩

/-- A call of the part that keeps the views -/
def onViews {α : Type} (x : ViewManager.Call α) : Call α := fun m =>
  match x m.viewManager with
  | .ok a views => .ok a { m with viewManager := views }
  | .error e views => .error e { m with viewManager := views }

/-- Get view definition -/
def getView (m : RefreshManager) (name : Text) : Option ViewDef := m.viewManager.getView name

/-- Create a new view -/
def createView [ViewStd] (name : Text) (schemaId : ℕ) (query : Text) (materialized : Bool) : Call ℕ := do
  let viewId ← onViews (ViewManager.createView name schemaId query materialized)
  modify fun m => { m with
    dependencyGraph := m.dependencyGraph.update name (ViewManager.extractDependencies query)
    -- Initialize view status
    viewStatus := m.viewStatus.insert name (if materialized then .stale else .fresh) }
  return viewId

/-- Drop a view -/
def dropView (name : Text) (cascade : Bool) : Call Unit := do
  onViews (ViewManager.dropView name cascade)
  modify fun m => { m with
    dependencyGraph := m.dependencyGraph.remove name
    -- Clean up schedules and status
    refreshSchedules := m.refreshSchedules.erase name
    viewStatus := m.viewStatus.erase name }

/-- Refresh a materialized view -/
def refreshMaterializedView (name : Text) (_withData : Bool) : Call Unit := do
  match (← get).getView name with
  | none => throw (.err (.notFound s!"View '{String.ofList name}' not found"))
  | some viewDef =>
    require viewDef.materialized (.err (.invalidOperation s!"'{String.ofList name}' is not a materialized view"))
    modify fun m => { m with viewStatus := m.viewStatus.insert name .refreshing }
    -- With data or without, the view is marked as fresh after the refresh
    modify fun m => { m with viewStatus := m.viewStatus.insert name .fresh }

/-- Set up scheduled refresh for a materialized view -/
def scheduleRefresh (now : ℕ) (name : Text) (interval : ℕ) : Call Unit := do
  match (← get).getView name with
  | none => throw (.err (.notFound s!"View '{String.ofList name}' not found"))
  | some viewDef =>
    require viewDef.materialized
      (.err (.invalidOperation s!"Cannot schedule refresh for non-materialized view '{String.ofList name}'"))
    modify fun m => { m with refreshSchedules := m.refreshSchedules.insert name ⟨interval, now + interval, none, true⟩ }

/-- A scheduled refresh is due -/
def scheduleDue (m : RefreshManager) (now : ℕ) (name : Text) : Bool :=
  match m.refreshSchedules.lookup name with
  | some schedule => schedule.active && schedule.nextRefresh ≤ now
  | none => false

/-- Check if a materialized view needs refresh -/
def needsRefresh (m : RefreshManager) (now : ℕ) (name : Text) : Result Bool :=
  match m.getView name with
  | none => .error (.err (.notFound s!"View '{String.ofList name}' not found"))
  | some viewDef =>
    -- Regular views don't need refresh
    if ¬ viewDef.materialized then .ok false
    else
      match m.viewStatus.lookup name with
      | some .fresh => .ok (m.scheduleDue now name)
      | some .stale | some (.failed _) => .ok true
      | some .refreshing => .ok false
      -- Default to stale if no status found
      | none => .ok true

/-- Get refresh status of a view -/
def getRefreshStatus (m : RefreshManager) (name : Text) : Result RefreshStatus :=
  match m.viewStatus.lookup name with
  | some status => .ok status
  | none => .error (.err (.notFound s!"View '{String.ofList name}' not found"))

/-- Mark a view as stale, unless it is being refreshed -/
def markStale (viewStatus : HashMap Text RefreshStatus) (viewName : Text) : HashMap Text RefreshStatus :=
  match viewStatus.lookup viewName with
  | some .fresh | some (.failed _) => viewStatus.insert viewName .stale
  | _ => viewStatus

/-- Mark dependent views as stale when a table changes -/
def markDependentViewsStale (tableName : Text) : Call Unit := modify fun m =>
  { m with viewStatus := (m.dependencyGraph.viewsOf tableName).foldl markStale m.viewStatus }

/-- Record a table change that may affect materialized views -/
def recordTableChange (now : ℕ) (tableName : Text) (changeType : ChangeType) (affectedRows : ℕ) : Call Unit := do
  modify fun m => { m with changeLog := m.changeLog ++ [⟨tableName, changeType, now, affectedRows⟩] }
  markDependentViewsStale tableName
  -- Clean old change logs (keep last 1000 changes)
  modify fun m => { m with changeLog := m.changeLog.drop (m.changeLog.length - 1000) }

/-- Get all views that need refresh -/
def getViewsNeedingRefresh (m : RefreshManager) (now : ℕ) : List Text :=
  (m.viewManager.views.pairs.filter fun e => e.2.materialized &&
    match m.viewStatus.lookup e.1 with
    | some .fresh => m.scheduleDue now e.1
    | some .stale | some (.failed _) => true
    | some .refreshing => false
    | none => true).map Prod.fst

/-- Update refresh schedule after successful refresh -/
def updateRefreshSchedule (now : ℕ) (viewName : Text) : Call Unit := modify fun m =>
  { m with refreshSchedules := HashMap.adjust viewName (RefreshSchedule.refreshed now) m.refreshSchedules }

/-- Refresh a view that needs it; a view that cannot be refreshed is marked as failed. -/
def refreshStaleView (now : ℕ) (refreshed : List Text) (viewName : Text) : Call (List Text) := fun m =>
  match refreshMaterializedView viewName true m with
  | .ok _ m => (do updateRefreshSchedule now viewName; return refreshed ++ [viewName]) m
  | .error (.err e) m => .ok refreshed { m with viewStatus := m.viewStatus.insert viewName (.failed e.display) }
  | .error e m => .error e m

/-- Refresh all views that need it -/
def refreshAllStaleViews (now : ℕ) : Call (List Text) := do
  ((← get).getViewsNeedingRefresh now).foldlM (refreshStaleView now) []

local instance : LawfulBEq Text := inferInstance

/-- Get recent changes affecting a view, by default those of the last hour -/
def getRecentChanges (m : RefreshManager) (now : ℕ) (viewName : Text) (since : Option ℕ) : List DependencyChange :=
  let viewTables := m.dependencyGraph.tablesOf viewName
  let cutoffTime := since.getD (now - 3600)
  m.changeLog.filter fun change => change.tableName ∈ viewTables ∧ cutoffTime ≤ change.timestamp

/-- Get views that depend on a specific table -/
def getDependentViews (m : RefreshManager) (tableName : Text) : List ViewDef :=
  (m.viewManager.views.pairs.map Prod.snd).filter fun view => tableName ∈ view.dependencies

/-! ## What the calls do -/

section Calls

variable {m : RefreshManager} {name : Text}

theorem getView_erase {other : Text} : (m.viewManager.views.erase name).lookup other =
    if other = name then none else m.getView other :=
  HashMap.lookup_erase_eq _ _ _

theorem mem_views_of_getView {v : ViewDef} (h : m.getView name = some v) : name ∈ m.viewManager.views :=
  AList.lookup_isSome.mp (by rw [show m.viewManager.views.lookup name = some v from h, Option.isSome_some])

theorem final_onViews_bind {α β : Type} (x : ViewManager.Call α) (f : α → Call β) :
    final (onViews x >>= f) m = match x m.viewManager with
      | .ok a views => final (f a) { m with viewManager := views }
      | .error _ views => { m with viewManager := views } := by
  unfold final onViews
  cases h : x m.viewManager <;> simp only [bind, EStateM.bind, h]

/-- A view is created, or the manager is left as it was because the name is taken. -/
theorem final_createView [ViewStd] (schemaId : ℕ) (query : Text) (materialized : Bool) :
    final (createView name schemaId query materialized) m =
      if name ∈ m.viewManager.views then m
      else { m with
        viewManager := ⟨m.viewManager.views.insert name ⟨m.viewManager.nextViewId, name, schemaId, query, materialized,
          ViewManager.extractDependencies query⟩, m.viewManager.nextViewId + 1⟩
        dependencyGraph := m.dependencyGraph.update name (ViewManager.extractDependencies query)
        viewStatus := m.viewStatus.insert name (if materialized then .stale else .fresh) } := by
  rw [createView, final_onViews_bind, ViewManager.createView, get_bind]
  by_cases h : name ∈ m.viewManager.views
  · rw [bind_of_error (require_of_not (not_not.mpr h) _ _), if_pos h]
  · rw [bind_of_ok (require_of h _ _), if_neg h]
    rfl

variable (m name) in
/-- A view is dropped, or the manager is left as it was. -/
theorem final_dropView (cascade : Bool) : final (dropView name cascade) m = m ∨
    final (dropView name cascade) m = { m with
      viewManager := { m.viewManager with views := m.viewManager.views.erase name }
      dependencyGraph := m.dependencyGraph.remove name
      refreshSchedules := m.refreshSchedules.erase name
      viewStatus := m.viewStatus.erase name } := by
  rw [dropView, final_onViews_bind, ViewManager.dropView, get_bind]
  by_cases hmem : name ∈ m.viewManager.views
  · rw [bind_of_ok (require_of hmem _ _)]
    cases if cascade then none else m.viewManager.dependentView name with
    | none => exact .inr rfl
    | some otherView => exact .inl rfl
  · rw [bind_of_error (require_of_not hmem _ _)]
    exact .inl rfl

/-- A refresh marks a materialized view as fresh, and fails for all others. -/
theorem refreshMaterializedView_ok {v : ViewDef} (h : m.getView name = some v) (hmat : v.materialized)
    (withData : Bool) : refreshMaterializedView name withData m =
      .ok () { m with viewStatus := (m.viewStatus.insert name .refreshing).insert name .fresh } := by
  rw [refreshMaterializedView, get_bind, h]
  dsimp only
  rw [bind_of_ok (require_of hmat _ _)]
  rfl

theorem final_refreshMaterializedView_of_not (h : ∀ v, m.getView name = some v → ¬ v.materialized) (withData : Bool) :
    final (refreshMaterializedView name withData) m = m := by
  rw [refreshMaterializedView, final, get_bind]
  rcases hview : m.getView name with - | v
  · rfl
  · dsimp only
    rw [bind_of_error (require_of_not (h v hview) _ _)]

variable (m name) in
theorem final_scheduleRefresh (now interval : ℕ) : final (scheduleRefresh now name interval) m = m ∨
    final (scheduleRefresh now name interval) m =
      { m with refreshSchedules := m.refreshSchedules.insert name ⟨interval, now + interval, none, true⟩ } := by
  rw [scheduleRefresh, final, get_bind]
  rcases m.getView name with - | v
  · exact .inl rfl
  · dsimp only
    by_cases hmat : v.materialized
    · rw [bind_of_ok (require_of hmat _ _)]
      exact .inr rfl
    · rw [bind_of_error (require_of_not hmat _ _)]
      exact .inl rfl

theorem final_recordTableChange (now : ℕ) (changeType : ChangeType) (affectedRows : ℕ) :
    final (recordTableChange now name changeType affectedRows) m =
      let changeLog := m.changeLog ++ [⟨name, changeType, now, affectedRows⟩]
      { m with
        changeLog := changeLog.drop (changeLog.length - 1000)
        viewStatus := (m.dependencyGraph.viewsOf name).foldl markStale m.viewStatus } := rfl

end Calls

/-! ## Statuses -/

/-- The status of a view after a change of one of its tables -/
def afterChange : RefreshStatus → RefreshStatus
  | .fresh | .failed _ => .stale
  | status => status

@[simp] theorem afterChange_ne_fresh (status : RefreshStatus) : afterChange status ≠ .fresh := by
  cases status <;> exact nofun

theorem afterChange_afterChange (status : RefreshStatus) : afterChange (afterChange status) = afterChange status := by
  cases status <;> rfl

theorem lookup_markStale (viewStatus : HashMap Text RefreshStatus) (viewName name : Text) :
    (markStale viewStatus viewName).lookup name =
      if name = viewName then (viewStatus.lookup name).map afterChange else viewStatus.lookup name := by
  by_cases hname : name = viewName
  · subst hname
    rw [if_pos rfl, markStale]
    rcases hstatus : viewStatus.lookup name with - | (- | - | - | error)
    · rw [hstatus, Option.map_none]
    · exact AList.lookup_insert _
    · exact hstatus
    · exact hstatus
    · exact AList.lookup_insert _
  · rw [if_neg hname, markStale]
    split
    · exact AList.lookup_insert_ne hname
    · exact AList.lookup_insert_ne hname
    · rfl

theorem lookup_foldl_markStale (viewNames : List Text) (viewStatus : HashMap Text RefreshStatus) (name : Text) :
    (viewNames.foldl markStale viewStatus).lookup name =
      if name ∈ viewNames then (viewStatus.lookup name).map afterChange else viewStatus.lookup name := by
  induction viewNames generalizing viewStatus with
  | nil => rfl
  | cons viewName viewNames ih =>
    rw [List.foldl_cons, ih, lookup_markStale]
    by_cases hname : name = viewName
    · have hidem : afterChange ∘ afterChange = afterChange := funext afterChange_afterChange
      rw [if_pos hname, Option.map_map, hidem, if_pos (List.mem_cons.mpr (.inl hname)), ite_self]
    · simp only [hname, if_false, List.mem_cons, false_or]

/-! ## Consistent states -/

/-- What holds between the calls: the views are kept under their names and have got their numbers, the dependency graph
is the one of the views, and just the views have a status, which is fresh or stale. -/
structure Consistent (m : RefreshManager) : Prop where
  named : ∀ name v, m.getView name = some v → v.name = name
  numbered : ∀ name v, m.getView name = some v → v.viewId < m.viewManager.nextViewId
  tablesOf : ∀ name table, table ∈ m.dependencyGraph.tablesOf name ↔
    ∃ v, m.getView name = some v ∧ table ∈ v.dependencies
  viewsOf : ∀ name table, name ∈ m.dependencyGraph.viewsOf table ↔
    ∃ v, m.getView name = some v ∧ table ∈ v.dependencies
  status : ∀ name, m.viewStatus.lookup name = none ∧ m.getView name = none ∨
    (∃ v, m.getView name = some v) ∧ (m.viewStatus.lookup name = some .fresh ∨ m.viewStatus.lookup name = some .stale)

namespace Consistent

theorem new : Consistent new where
  named _ _ h := absurd h nofun
  numbered _ _ h := absurd h nofun
  tablesOf _ _ := ⟨fun h => absurd h List.not_mem_nil, fun ⟨_, h, _⟩ => absurd h nofun⟩
  viewsOf _ _ := ⟨fun h => absurd h List.not_mem_nil, fun ⟨_, h, _⟩ => absurd h nofun⟩
  status _ := .inl ⟨rfl, rfl⟩

variable {m : RefreshManager} {name : Text}

/-- A view is not a dependent before it is created. -/
theorem tablesOf_eq_nil (h : Consistent m) (hview : m.getView name = none) : m.dependencyGraph.tablesOf name = [] := by
  refine List.eq_nil_iff_forall_not_mem.mpr fun table hmem => ?_
  obtain ⟨v, hv, -⟩ := (h.tablesOf name table).mp hmem
  rw [hview] at hv
  cases hv

theorem createView (h : Consistent m) {v : ViewDef} (hview : m.getView name = none) (hname : v.name = name)
    (hid : v.viewId = m.viewManager.nextViewId) {status : RefreshStatus} (hstatus : status = .fresh ∨ status = .stale) :
    Consistent { m with
      viewManager := ⟨m.viewManager.views.insert name v, m.viewManager.nextViewId + 1⟩
      dependencyGraph := m.dependencyGraph.update name v.dependencies
      viewStatus := m.viewStatus.insert name status } := by
  have hget (other : Text) : (m.viewManager.views.insert name v).lookup other =
      if other = name then some v else m.getView other := HashMap.lookup_insert_eq _ _ _ _
  constructor
  · intro other w hw
    rw [getView, ViewManager.getView, hget] at hw
    split at hw
    · next heq => rw [← Option.some.inj hw, hname, heq]
    · exact h.named other w hw
  · intro other w hw
    rw [getView, ViewManager.getView, hget] at hw
    split at hw
    · rw [← Option.some.inj hw, hid]
      exact Nat.lt_succ_self _
    · exact Nat.lt_succ_of_lt (h.numbered other w hw)
  · intro other table
    rw [DependencyGraph.mem_tablesOf_update, getView, ViewManager.getView, hget]
    split
    · simp
    · exact h.tablesOf other table
  · intro other table
    rw [DependencyGraph.mem_viewsOf_update, getView, ViewManager.getView, hget, h.tablesOf_eq_nil hview, h.viewsOf]
    split
    · next heq => simp [heq, hview]
    · next hne => simp [hne]
  · intro other
    rw [getView, ViewManager.getView, hget]
    dsimp only
    rw [HashMap.lookup_insert_eq]
    split
    · rcases hstatus with rfl | rfl <;> simp
    · exact h.status other

theorem dropView (h : Consistent m) : Consistent { m with
    viewManager := { m.viewManager with views := m.viewManager.views.erase name }
    dependencyGraph := m.dependencyGraph.remove name
    refreshSchedules := m.refreshSchedules.erase name
    viewStatus := m.viewStatus.erase name } := by
  constructor
  · intro other w hw
    rw [getView, ViewManager.getView, getView_erase] at hw
    split at hw
    · cases hw
    · exact h.named other w hw
  · intro other w hw
    rw [getView, ViewManager.getView, getView_erase] at hw
    split at hw
    · cases hw
    · exact h.numbered other w hw
  · intro other table
    rw [DependencyGraph.mem_tablesOf_remove, getView, ViewManager.getView, getView_erase, h.tablesOf]
    split
    · next heq => simp [heq]
    · next hne => simp [hne]
  · intro other table
    rw [DependencyGraph.mem_viewsOf_remove, getView, ViewManager.getView, getView_erase, h.viewsOf, h.tablesOf]
    split
    · next heq =>
      subst heq
      simp
    · next hne => simp [hne]
  · intro other
    rw [getView, ViewManager.getView, getView_erase]
    dsimp only
    rw [HashMap.lookup_erase_eq]
    split
    · exact .inl ⟨rfl, rfl⟩
    · exact h.status other

/-- The statuses of views may turn from fresh to stale and back. -/
theorem of_viewStatus (h : Consistent m) {m' : RefreshManager} (hviews : m'.viewManager = m.viewManager)
    (hgraph : m'.dependencyGraph = m.dependencyGraph)
    (hstatus : ∀ name, m'.viewStatus.lookup name = m.viewStatus.lookup name ∨
      (∃ v, m.getView name = some v) ∧
        (m'.viewStatus.lookup name = some .fresh ∨ m'.viewStatus.lookup name = some .stale)) : Consistent m' := by
  have hget (name : Text) : m'.getView name = m.getView name := by rw [getView, getView, hviews]
  constructor
  · intro name v hv
    exact h.named name v (by rw [← hget, hv])
  · intro name v hv
    rw [hviews]
    exact h.numbered name v (by rw [← hget, hv])
  · intro name table
    rw [hgraph, hget, h.tablesOf]
  · intro name table
    rw [hgraph, hget, h.viewsOf]
  · intro name
    rw [hget]
    rcases hstatus name with heq | ⟨hview, hnew⟩
    · rw [heq]
      exact h.status name
    · exact .inr ⟨hview, hnew⟩

/-- The status of a view is fresh or stale. -/
theorem status_of_view (h : Consistent m) {v : ViewDef} (hview : m.getView name = some v) :
    m.viewStatus.lookup name = some .fresh ∨ m.viewStatus.lookup name = some .stale := by
  rcases h.status name with ⟨-, hnone⟩ | ⟨-, hstatus⟩
  · rw [hview] at hnone
    cases hnone
  · exact hstatus

/-- The index finds the views that a scan of all views finds. -/
theorem mem_viewsOf_iff (h : Consistent m) {table : Text} :
    name ∈ m.dependencyGraph.viewsOf table ↔ ∃ v ∈ m.getDependentViews table, v.name = name := by
  rw [h.viewsOf, getDependentViews]
  constructor
  · rintro ⟨v, hview, htable⟩
    have hmem : v ∈ m.viewManager.views.pairs.map Prod.snd :=
      List.mem_map.mpr ⟨(name, v), HashMap.mem_pairs.mpr hview, rfl⟩
    exact ⟨v, List.mem_filter.mpr ⟨hmem, decide_eq_true htable⟩, h.named name v hview⟩
  · rintro ⟨v, hv, rfl⟩
    obtain ⟨hmem, htable⟩ := List.mem_filter.mp hv
    obtain ⟨⟨name, w⟩, hpair, rfl⟩ := List.mem_map.mp hmem
    have hview : m.getView name = some w := HashMap.mem_pairs.mp hpair
    rw [h.named name w hview]
    exact ⟨w, hview, of_decide_eq_true htable⟩

/-- No refresh is seen to be under way or to have failed. -/
theorem getRefreshStatus_cases (h : Consistent m) {status : RefreshStatus}
    (hstatus : m.getRefreshStatus name = .ok status) : status = .fresh ∨ status = .stale := by
  rw [getRefreshStatus] at hstatus
  rcases h.status name with ⟨hnone, -⟩ | ⟨-, hlookup | hlookup⟩
  · rw [hnone] at hstatus
    cases hstatus
  · rw [hlookup] at hstatus
    exact .inl (Except.ok.inj hstatus).symm
  · rw [hlookup] at hstatus
    exact .inr (Except.ok.inj hstatus).symm

end Consistent

/-! ## Refreshing all views -/

section RefreshAll

variable {m : RefreshManager} {now : ℕ}

theorem mem_getViewsNeedingRefresh {name : Text} : name ∈ m.getViewsNeedingRefresh now ↔
    m.needsRefresh now name = .ok true := by
  rw [getViewsNeedingRefresh, List.mem_map, needsRefresh]
  constructor
  · rintro ⟨⟨name', v⟩, hmem, rfl⟩
    obtain ⟨hpair, hneeds⟩ := List.mem_filter.mp hmem
    have hview : m.getView name' = some v := HashMap.mem_pairs.mp hpair
    obtain ⟨hmat, hneeds⟩ := Bool.and_eq_true_iff.mp hneeds
    rw [hview]
    dsimp only at hneeds hmat ⊢
    rw [if_neg (not_not.mpr hmat)]
    split at hneeds <;> simp_all
  · rcases hview : m.getView name with - | v
    · exact nofun
    · dsimp only
      by_cases hmat : v.materialized
      · rw [if_neg (not_not.mpr hmat)]
        intro hneeds
        refine ⟨(name, v), List.mem_filter.mpr ⟨HashMap.mem_pairs.mpr hview, ?_⟩, rfl⟩
        refine Bool.and_eq_true_iff.mpr ⟨hmat, ?_⟩
        dsimp only
        split at hneeds <;> simp_all
      · rw [if_pos hmat]
        exact nofun

/-- The state after refreshes of some views -/
structure Refreshed (now : ℕ) (viewNames : List Text) (m m' : RefreshManager) : Prop where
  viewManager : m'.viewManager = m.viewManager
  dependencyGraph : m'.dependencyGraph = m.dependencyGraph
  changeLog : m'.changeLog = m.changeLog
  viewStatus : ∀ name, m'.viewStatus.lookup name =
    if name ∈ viewNames then some .fresh else m.viewStatus.lookup name
  refreshSchedules : ∀ name, m'.refreshSchedules.lookup name =
    if name ∈ viewNames then (m.refreshSchedules.lookup name).map (.refreshed now) else m.refreshSchedules.lookup name

theorem refreshed_refreshed (schedule : RefreshSchedule) :
    (schedule.refreshed now).refreshed now = schedule.refreshed now := rfl

theorem Refreshed.cons {m' m'' : RefreshManager} {viewName : Text} {viewNames : List Text}
    (hfirst : Refreshed now [viewName] m m') (hrest : Refreshed now viewNames m' m'') :
    Refreshed now (viewName :: viewNames) m m'' where
  viewManager := hrest.viewManager.trans hfirst.viewManager
  dependencyGraph := hrest.dependencyGraph.trans hfirst.dependencyGraph
  changeLog := hrest.changeLog.trans hfirst.changeLog
  viewStatus name := by
    rw [hrest.viewStatus, hfirst.viewStatus]
    by_cases hname : name = viewName
    · simp [hname]
    · simp [hname]
  refreshSchedules name := by
    have hidem : RefreshSchedule.refreshed now ∘ RefreshSchedule.refreshed now = RefreshSchedule.refreshed now :=
      funext refreshed_refreshed
    rw [hrest.refreshSchedules, hfirst.refreshSchedules]
    by_cases hname : name = viewName
    · simp [hname, hidem]
    · simp [hname]

variable (now) in
theorem refreshStaleView_ok {viewName : Text} {v : ViewDef} (hview : m.getView viewName = some v)
    (hmat : v.materialized) (refreshed : List Text) : ∃ m', refreshStaleView now refreshed viewName m = .ok (refreshed ++ [viewName]) m' ∧
      Refreshed now [viewName] m m' := by
  refine ⟨{ m with
    refreshSchedules := HashMap.adjust viewName (.refreshed now) m.refreshSchedules
    viewStatus := (m.viewStatus.insert viewName .refreshing).insert viewName .fresh }, ?_, ?_⟩
  · rw [refreshStaleView, refreshMaterializedView_ok hview hmat]
    rfl
  · refine ⟨rfl, rfl, rfl, fun name => ?_, fun name => ?_⟩
    · dsimp only
      rw [HashMap.lookup_insert_eq, HashMap.lookup_insert_eq]
      by_cases hname : name = viewName <;> simp [hname]
    · dsimp only
      rw [HashMap.lookup_adjust]
      by_cases hname : name = viewName <;> simp [hname]

/-- All views that are materialized are refreshed, none of them fails. -/
theorem foldlM_refreshStaleView (viewNames : List Text) (refreshed : List Text) (m : RefreshManager)
    (hviews : ∀ name ∈ viewNames, ∃ v, m.getView name = some v ∧ v.materialized) :
    ∃ m', viewNames.foldlM (refreshStaleView now) refreshed m = .ok (refreshed ++ viewNames) m' ∧
      Refreshed now viewNames m m' := by
  induction viewNames generalizing refreshed m with
  | nil =>
    refine ⟨m, ?_, rfl, rfl, rfl, fun _ => rfl, fun _ => rfl⟩
    rw [List.append_nil]
    rfl
  | cons viewName viewNames ih =>
    obtain ⟨⟨v, hview, hmat⟩, hviews⟩ := List.forall_mem_cons.mp hviews
    obtain ⟨m', hfirst, hrefreshed⟩ := refreshStaleView_ok now hview hmat refreshed
    obtain ⟨m'', hrest, hrefreshed'⟩ := ih (refreshed ++ [viewName]) m' fun name hname => by
      rw [getView, hrefreshed.viewManager]
      exact hviews name hname
    refine ⟨m'', ?_, hrefreshed.cons hrefreshed'⟩
    rw [List.foldlM_cons, bind_of_ok hfirst, hrest, List.append_assoc, List.singleton_append]

variable (m now) in
theorem refreshAllStaleViews_ok : ∃ m', refreshAllStaleViews now m = .ok (m.getViewsNeedingRefresh now) m' ∧
    Refreshed now (m.getViewsNeedingRefresh now) m m' := by
  rw [refreshAllStaleViews, get_bind]
  refine foldlM_refreshStaleView _ [] m fun name hname => ?_
  obtain ⟨⟨name', v⟩, hmem, rfl⟩ := List.mem_map.mp hname
  obtain ⟨hpair, hneeds⟩ := List.mem_filter.mp hmem
  exact ⟨v, HashMap.mem_pairs.mp hpair, (Bool.and_eq_true_iff.mp hneeds).1⟩

theorem Consistent.refreshAll (h : Consistent m) {m' : RefreshManager}
    (hrefreshed : Refreshed now (m.getViewsNeedingRefresh now) m m') : Consistent m' := by
  refine h.of_viewStatus hrefreshed.viewManager hrefreshed.dependencyGraph fun name => ?_
  rw [hrefreshed.viewStatus]
  by_cases hname : name ∈ m.getViewsNeedingRefresh now
  · rw [if_pos hname]
    obtain ⟨⟨name', v⟩, hmem, rfl⟩ := List.mem_map.mp hname
    exact .inr ⟨⟨v, HashMap.mem_pairs.mp (List.mem_filter.mp hmem).1⟩, .inl rfl⟩
  · rw [if_neg hname]
    exact .inl rfl

/-- A change of a table keeps the state consistent. -/
theorem Consistent.recordTableChange {m : RefreshManager} (h : Consistent m) (viewNames : List Text)
    (changeLog : List DependencyChange) :
    Consistent { m with changeLog, viewStatus := viewNames.foldl markStale m.viewStatus } := by
  refine h.of_viewStatus rfl rfl fun name => ?_
  dsimp only
  rw [lookup_foldl_markStale]
  split
  · rcases h.status name with ⟨hnone, -⟩ | ⟨hview, hstatus | hstatus⟩
    · exact .inl (by rw [hnone, Option.map_none])
    · exact .inr ⟨hview, .inr (by rw [hstatus]; rfl)⟩
    · exact .inr ⟨hview, .inr (by rw [hstatus]; rfl)⟩
  · exact .inl rfl

/-- The views that need a refresh are named once each. -/
theorem nodup_getViewsNeedingRefresh (m : RefreshManager) (now : ℕ) : (m.getViewsNeedingRefresh now).Nodup := by
  have hkeys : (m.viewManager.views.pairs.map Prod.fst).Nodup := by
    rw [HashMap.pairs, List.map_map]
    exact m.viewManager.views.nodupKeys
  exact hkeys.sublist (List.filter_sublist.map Prod.fst)

/-- The last 1000 changes -/
def lastChanges (changes : List DependencyChange) : List DependencyChange := changes.drop (changes.length - 1000)

theorem lastChanges_append_singleton (changes : List DependencyChange) (change : DependencyChange) :
    lastChanges (lastChanges changes ++ [change]) = lastChanges (changes ++ [change]) := by
  rw [lastChanges, lastChanges, lastChanges, ← List.drop_append_of_le_length (Nat.sub_le _ _), List.drop_drop]
  have hlength : changes.length - 1000 + (((changes ++ [change]).drop (changes.length - 1000)).length - 1000) =
      (changes ++ [change]).length - 1000 := by
    simp only [List.length_drop, List.length_append, List.length_singleton]
    omega
  rw [hlength]

end RefreshAll

/-! ## Runs -/

/-- A call of the view manager -/
inductive Op
  | createView (name : Text) (schemaId : ℕ) (query : Text) (materialized : Bool)
  | dropView (name : Text) (cascade : Bool)
  | refreshMaterializedView (name : Text) (withData : Bool)
  | scheduleRefresh (name : Text) (interval : ℕ)
  | recordTableChange (tableName : Text) (changeType : ChangeType) (affectedRows : ℕ)
  | refreshAllStaleViews

section Runs

variable [ViewStd]

/-- Make a call at a time. -/
def perform (now : ℕ) : Op → Call Unit
  | .createView name schemaId query materialized => discard (createView name schemaId query materialized)
  | .dropView name cascade => dropView name cascade
  | .refreshMaterializedView name withData => refreshMaterializedView name withData
  | .scheduleRefresh name interval => scheduleRefresh now name interval
  | .recordTableChange tableName changeType affectedRows => recordTableChange now tableName changeType affectedRows
  | .refreshAllStaleViews => discard (refreshAllStaleViews now)

/-- A call at a time; after a failure the session goes on. -/
def step (m : RefreshManager) (call : ℕ × Op) : RefreshManager := final (perform call.1 call.2) m

/-- The manager after calls -/
def run (calls : List (ℕ × Op)) : RefreshManager := calls.foldl step new

theorem run_append_singleton (calls : List (ℕ × Op)) (call : ℕ × Op) :
    run (calls ++ [call]) = step (run calls) call := by
  rw [run, List.foldl_append]
  rfl

theorem step_refreshAllStaleViews (m : RefreshManager) (now : ℕ) :
    Refreshed now (m.getViewsNeedingRefresh now) m (step m (now, .refreshAllStaleViews)) := by
  obtain ⟨m', hrun, hrefreshed⟩ := refreshAllStaleViews_ok m now
  have hstep : step m (now, .refreshAllStaleViews) = m' := by
    rw [step, perform, final_discard, final, hrun]
  rw [hstep]
  exact hrefreshed

theorem Consistent.step {m : RefreshManager} (h : Consistent m) (call : ℕ × Op) : Consistent (step m call) := by
  obtain ⟨now, op⟩ := call
  rcases op with ⟨name, schemaId, query, materialized⟩ | ⟨name, cascade⟩ | ⟨name, withData⟩ | ⟨name, interval⟩ |
    ⟨tableName, changeType, affectedRows⟩ | -
  · rw [RefreshManager.step, perform, final_discard, final_createView]
    split
    · exact h
    · next hnew =>
      refine h.createView (AList.lookup_eq_none.mpr hnew) rfl rfl ?_
      cases materialized
      · exact .inl rfl
      · exact .inr rfl
  · rw [RefreshManager.step, perform]
    rcases final_dropView m name cascade with heq | heq
    · rw [heq]
      exact h
    · rw [heq]
      exact h.dropView
  · rw [RefreshManager.step, perform]
    by_cases hview : ∃ v, m.getView name = some v ∧ v.materialized
    · obtain ⟨v, hview, hmat⟩ := hview
      rw [final, refreshMaterializedView_ok hview hmat]
      refine h.of_viewStatus rfl rfl fun other => ?_
      dsimp only
      rw [HashMap.lookup_insert_eq, HashMap.lookup_insert_eq]
      by_cases hother : other = name
      · exact .inr ⟨⟨v, hother ▸ hview⟩, .inl (if_pos hother)⟩
      · exact .inl (by rw [if_neg hother, if_neg hother])
    · rw [final_refreshMaterializedView_of_not fun v hv hmat => hview ⟨v, hv, hmat⟩]
      exact h
  · rw [RefreshManager.step, perform]
    rcases final_scheduleRefresh m name now interval with heq | heq
    · rw [heq]
      exact h
    · rw [heq]
      exact h.of_viewStatus rfl rfl fun _ => .inl rfl
  · rw [RefreshManager.step, perform, final_recordTableChange]
    exact h.recordTableChange _ _
  · exact h.refreshAll (step_refreshAllStaleViews m now)

theorem consistent_run (calls : List (ℕ × Op)) : Consistent (run calls) := by
  induction calls using List.reverseRecOn with
  | nil => exact Consistent.new
  | append_singleton calls call ih =>
    rw [run_append_singleton]
    exact ih.step call

theorem nextViewId_step (m : RefreshManager) (call : ℕ × Op) :
    m.viewManager.nextViewId ≤ (step m call).viewManager.nextViewId := by
  obtain ⟨now, op⟩ := call
  rcases op with ⟨name, schemaId, query, materialized⟩ | ⟨name, cascade⟩ | ⟨name, withData⟩ | ⟨name, interval⟩ |
    ⟨tableName, changeType, affectedRows⟩ | -
  · rw [step, perform, final_discard, final_createView]
    split
    · exact le_rfl
    · exact Nat.le_succ _
  · rw [step, perform]
    rcases final_dropView m name cascade with heq | heq <;> rw [heq]
  · rw [step, perform]
    by_cases hview : ∃ v, m.getView name = some v ∧ v.materialized
    · obtain ⟨v, hview, hmat⟩ := hview
      rw [final, refreshMaterializedView_ok hview hmat]
    · rw [final_refreshMaterializedView_of_not fun v hv hmat => hview ⟨v, hv, hmat⟩]
  · rw [step, perform]
    rcases final_scheduleRefresh m name now interval with heq | heq <;> rw [heq]
  · exact le_rfl
  · rw [(step_refreshAllStaleViews m now).viewManager]

/-! ## Views that are up to date -/

/-- The call refreshes a view. -/
def Refreshes (m : RefreshManager) (v : ViewDef) : ℕ × Op → Prop
  | (_, .refreshMaterializedView name _) => name = v.name
  | (now, .refreshAllStaleViews) => v.name ∈ m.getViewsNeedingRefresh now
  | _ => False

/-- The call records a change of a table that a view depends on. -/
def Changes (v : ViewDef) : ℕ × Op → Prop
  | (_, .recordTableChange tableName _ _) => tableName ∈ v.dependencies
  | _ => False

/-- A call of the run refreshed the view, and no later call has changed a table that it depends on. -/
def UpToDate (calls : List (ℕ × Op)) (v : ViewDef) : Prop :=
  Since step (fun m call => m.getView v.name = some v ∧ Refreshes m v call) (fun _ call => Changes v call) new calls

theorem upToDate_append_singleton {calls : List (ℕ × Op)} {call : ℕ × Op} {v : ViewDef} :
    UpToDate (calls ++ [call]) v ↔ UpToDate calls v ∧ ¬ Changes v call ∨
      (run calls).getView v.name = some v ∧ Refreshes (run calls) v call :=
  Since.append_singleton

/-- A view that was refreshed has got its number. -/
theorem viewId_lt_of_upToDate {calls : List (ℕ × Op)} {v : ViewDef} (h : UpToDate calls v) :
    v.viewId < (run calls).viewManager.nextViewId := by
  induction calls using List.reverseRecOn with
  | nil => exact absurd h Since.not_nil
  | append_singleton calls call ih =>
    rw [run_append_singleton]
    refine lt_of_lt_of_le ?_ (nextViewId_step (run calls) call)
    rcases upToDate_append_singleton.mp h with ⟨hbefore, -⟩ | ⟨hview, -⟩
    · exact ih hbefore
    · exact (consistent_run calls).numbered v.name v hview

/-- What a call does to a materialized view that it leaves: a view that was there before is fresh afterwards if it was
fresh and none of its tables has changed, or if it was refreshed; a new view is not fresh. -/
theorem status_step {m : RefreshManager} (h : Consistent m) {call : ℕ × Op} {v : ViewDef} (hmat : v.materialized)
    (hview : (step m call).getView v.name = some v) :
    m.getView v.name = some v ∧ ((step m call).viewStatus.lookup v.name = some .fresh ↔
      m.viewStatus.lookup v.name = some .fresh ∧ ¬ Changes v call ∨ Refreshes m v call) ∨
    v.viewId = m.viewManager.nextViewId ∧ (step m call).viewStatus.lookup v.name ≠ some .fresh ∧
      ¬ Refreshes m v call := by
  obtain ⟨now, op⟩ := call
  rcases op with ⟨name, schemaId, query, materialized⟩ | ⟨name, cascade⟩ | ⟨name, withData⟩ | ⟨name, interval⟩ |
    ⟨tableName, changeType, affectedRows⟩ | -
  · rw [step, perform, final_discard, final_createView] at hview ⊢
    split at hview
    · next hmem =>
      rw [if_pos hmem]
      exact .inl ⟨hview, by simp [Changes, Refreshes]⟩
    · next hmem =>
      rw [if_neg hmem]
      rw [getView, ViewManager.getView, HashMap.lookup_insert_eq] at hview
      dsimp only
      rw [HashMap.lookup_insert_eq]
      split at hview
      · next hname =>
        cases hview
        refine .inr ⟨rfl, ?_, id⟩
        simp [show materialized = true from hmat]
      · next hname =>
        rw [if_neg hname]
        exact .inl ⟨hview, by simp [Changes, Refreshes]⟩
  · rw [step, perform] at hview ⊢
    rcases final_dropView m name cascade with heq | heq
    · rw [heq] at hview ⊢
      exact .inl ⟨hview, by simp [Changes, Refreshes]⟩
    · rw [heq] at hview ⊢
      rw [getView, ViewManager.getView, getView_erase] at hview
      dsimp only
      rw [HashMap.lookup_erase_eq]
      split at hview
      · cases hview
      · next hname =>
        rw [if_neg hname]
        exact .inl ⟨hview, by simp [Changes, Refreshes]⟩
  · rw [step, perform] at hview ⊢
    by_cases hfound : ∃ w, m.getView name = some w ∧ w.materialized
    · obtain ⟨w, hw, hwmat⟩ := hfound
      rw [final, refreshMaterializedView_ok hw hwmat] at hview ⊢
      refine .inl ⟨hview, ?_⟩
      dsimp only
      rw [HashMap.lookup_insert_eq, HashMap.lookup_insert_eq]
      by_cases hname : v.name = name
      · simp [Refreshes, hname]
      · simp [Changes, Refreshes, hname, Ne.symm hname]
    · rw [final_refreshMaterializedView_of_not fun w hw hwmat => hfound ⟨w, hw, hwmat⟩] at hview ⊢
      have hname : name ≠ v.name := by
        rintro rfl
        exact hfound ⟨v, hview, hmat⟩
      exact .inl ⟨hview, by simp [Changes, Refreshes, hname]⟩
  · rw [step, perform] at hview ⊢
    rcases final_scheduleRefresh m name now interval with heq | heq
    · rw [heq] at hview ⊢
      exact .inl ⟨hview, by simp [Changes, Refreshes]⟩
    · rw [heq] at hview ⊢
      exact .inl ⟨hview, by simp [Changes, Refreshes]⟩
  · rw [step, perform, final_recordTableChange] at hview ⊢
    rw [getView] at hview
    dsimp only at hview
    rw [← getView] at hview
    refine .inl ⟨hview, ?_⟩
    have hmem : v.name ∈ m.dependencyGraph.viewsOf tableName ↔ tableName ∈ v.dependencies := by
      rw [h.viewsOf, hview]
      simp
    dsimp only
    rw [lookup_foldl_markStale]
    by_cases hchanges : tableName ∈ v.dependencies
    · rw [if_pos (hmem.mpr hchanges)]
      simp [Changes, Refreshes, hchanges]
    · rw [if_neg fun hin => hchanges (hmem.mp hin)]
      simp [Changes, Refreshes, hchanges]
  · have hrefreshed := step_refreshAllStaleViews m now
    rw [getView, hrefreshed.viewManager] at hview
    refine .inl ⟨hview, ?_⟩
    rw [hrefreshed.viewStatus]
    by_cases hneeds : v.name ∈ m.getViewsNeedingRefresh now
    · simp [Refreshes, hneeds]
    · simp [Changes, Refreshes, hneeds]

/-- The status of a materialized view tells whether it is up to date. -/
theorem fresh_iff_upToDate (calls : List (ℕ × Op)) {v : ViewDef} (hview : (run calls).getView v.name = some v)
    (hmat : v.materialized) : (run calls).viewStatus.lookup v.name = some .fresh ↔ UpToDate calls v := by
  induction calls using List.reverseRecOn with
  | nil => exact absurd hview nofun
  | append_singleton calls call ih =>
    rw [run_append_singleton] at hview ⊢
    rw [upToDate_append_singleton]
    rcases status_step (consistent_run calls) hmat hview with ⟨hbefore, hstatus⟩ | ⟨hnew, hstatus, hrefresh⟩
    · rw [hstatus, ih hbefore, and_iff_right hbefore]
    · have hnever : ¬ UpToDate calls v := fun h => (viewId_lt_of_upToDate h).ne hnew
      simp only [hstatus, hnever, hrefresh, false_and, and_false, or_false]

/-- In every run, a view needs a refresh exactly if it is materialized and is not up to date or its schedule is due. -/
theorem needsRefresh_iff (calls : List (ℕ × Op)) (now : ℕ) (name : Text) :
    (run calls).needsRefresh now name = .ok true ↔ ∃ v, (run calls).getView name = some v ∧ v.materialized ∧
      (¬ UpToDate calls v ∨ (run calls).scheduleDue now name) := by
  rw [needsRefresh]
  rcases hview : (run calls).getView name with - | v
  · exact ⟨nofun, fun ⟨_, h, _⟩ => absurd h nofun⟩
  · have hname := (consistent_run calls).named name v hview
    subst hname
    simp only [Option.some.injEq, exists_eq_left']
    by_cases hmat : v.materialized
    · rw [if_neg (not_not.mpr hmat), and_iff_right hmat, ← fresh_iff_upToDate calls hview hmat]
      rcases (consistent_run calls).status_of_view hview with hstatus | hstatus
      · simp [hstatus]
      · simp [hstatus]
    · rw [if_pos hmat]
      exact ⟨nofun, fun h => absurd h.1 hmat⟩

/-- In every reached state the refresh of all views returns those that need one, each of them once and none failed.
Afterwards a view needs a refresh when its schedule is due, and the schedules of the refreshed views start anew. -/
theorem refreshAllStaleViews_run (calls : List (ℕ × Op)) (now : ℕ) :
    ∃ refreshed m', refreshAllStaleViews now (run calls) = .ok refreshed m' ∧ refreshed.Nodup ∧
      ∀ name, (name ∈ refreshed ↔ (run calls).needsRefresh now name = .ok true) ∧
        ∀ t, m'.needsRefresh t name = .ok true ↔ ∃ v, (run calls).getView name = some v ∧ v.materialized ∧
          ∃ schedule, (run calls).refreshSchedules.lookup name = some schedule ∧ schedule.active ∧
            (if name ∈ refreshed then now + schedule.interval else schedule.nextRefresh) ≤ t := by
  obtain ⟨m', hrun, hrefreshed⟩ := refreshAllStaleViews_ok (run calls) now
  refine ⟨_, m', hrun, nodup_getViewsNeedingRefresh _ _, fun name => ⟨mem_getViewsNeedingRefresh, fun t => ?_⟩⟩
  rw [needsRefresh, getView, hrefreshed.viewManager, ← getView]
  rcases hview : (run calls).getView name with - | v
  · exact ⟨nofun, fun ⟨_, h, _⟩ => absurd h nofun⟩
  · simp only [Option.some.injEq, exists_eq_left']
    by_cases hmat : v.materialized
    · -- Of the views that are not refreshed, the materialized ones were fresh.
      have hfresh : m'.viewStatus.lookup name = some .fresh := by
        rw [hrefreshed.viewStatus]
        split
        · rfl
        · next hneeds =>
          rw [mem_getViewsNeedingRefresh, needsRefresh, hview] at hneeds
          dsimp only at hneeds
          rw [if_neg (not_not.mpr hmat)] at hneeds
          rcases (consistent_run calls).status_of_view hview with hstatus | hstatus
          · exact hstatus
          · rw [hstatus] at hneeds
            exact absurd rfl hneeds
      rw [if_neg (not_not.mpr hmat), and_iff_right hmat, hfresh, scheduleDue, hrefreshed.refreshSchedules]
      rcases hschedule : (run calls).refreshSchedules.lookup name with - | schedule
      · simp
      · by_cases hneeds : name ∈ (run calls).getViewsNeedingRefresh now
        · simp [hneeds, RefreshSchedule.refreshed]
        · simp [hneeds]
    · rw [if_pos hmat]
      exact ⟨nofun, fun h => absurd h.1 hmat⟩

/-! ## The log of changes -/

/-- The change of a table that a call records -/
def recordedChange : ℕ × Op → Option DependencyChange
  | (now, .recordTableChange tableName changeType affectedRows) => some ⟨tableName, changeType, now, affectedRows⟩
  | _ => none

theorem changeLog_step (m : RefreshManager) (call : ℕ × Op) : (step m call).changeLog =
    (recordedChange call).elim m.changeLog fun change => lastChanges (m.changeLog ++ [change]) := by
  obtain ⟨now, op⟩ := call
  rcases op with ⟨name, schemaId, query, materialized⟩ | ⟨name, cascade⟩ | ⟨name, withData⟩ | ⟨name, interval⟩ |
    ⟨tableName, changeType, affectedRows⟩ | -
  · show (step m _).changeLog = m.changeLog
    rw [step, perform, final_discard, final_createView]
    split <;> rfl
  · show (step m _).changeLog = m.changeLog
    rw [step, perform]
    rcases final_dropView m name cascade with heq | heq <;> rw [heq]
  · show (step m _).changeLog = m.changeLog
    rw [step, perform]
    by_cases hview : ∃ v, m.getView name = some v ∧ v.materialized
    · obtain ⟨v, hview, hmat⟩ := hview
      rw [final, refreshMaterializedView_ok hview hmat]
    · rw [final_refreshMaterializedView_of_not fun v hv hmat => hview ⟨v, hv, hmat⟩]
  · show (step m _).changeLog = m.changeLog
    rw [step, perform]
    rcases final_scheduleRefresh m name now interval with heq | heq <;> rw [heq]
  · rw [step, perform, recordedChange, Option.elim_some, final_recordTableChange, lastChanges]
  · exact (step_refreshAllStaleViews m now).changeLog

/-- The log holds the last 1000 changes of the run. -/
theorem changeLog_run (calls : List (ℕ × Op)) :
    (run calls).changeLog = lastChanges (calls.filterMap recordedChange) := by
  induction calls using List.reverseRecOn with
  | nil => rfl
  | append_singleton calls call ih =>
    rw [run_append_singleton, changeLog_step, ih, List.filterMap_append]
    rcases hchange : recordedChange call with - | change
    · rw [List.filterMap_cons_none hchange, List.filterMap_nil, List.append_nil, Option.elim_none]
    · rw [List.filterMap_cons_some hchange, List.filterMap_nil, Option.elim_some, lastChanges_append_singleton]

/-- The recent changes of a view are those of its tables among the last 1000 changes of the run. -/
theorem getRecentChanges_run (calls : List (ℕ × Op)) (now : ℕ) (name : Text) (since : Option ℕ) :
    (run calls).getRecentChanges now name since =
      (lastChanges (calls.filterMap recordedChange)).filter fun change =>
        (∃ v ∈ (run calls).getView name, change.tableName ∈ v.dependencies) ∧
          since.getD (now - 3600) ≤ change.timestamp := by
  rw [getRecentChanges, changeLog_run]
  refine List.filter_congr fun change _ => ?_
  simp only [(consistent_run calls).tablesOf, Option.mem_def]

end Runs

end RefreshManager

end Rustgresql
