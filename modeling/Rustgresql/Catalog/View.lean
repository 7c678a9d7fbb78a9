import Rustgresql.Catalog.Schema
import Rustgresql.Sql.Parser.Statement

/-!
# View management

View definitions, and the manager that keeps them under their names. The definition of a view is the text of its
query; the tables it depends on are guessed from the text.
-/

namespace Rustgresql

open StateSpec
open Sql (Text)

/-- The standard library, as far as views depend on it: `str::to_lowercase` and derived `Debug` texts. -/
class ViewStd extends Sql.Std where
  toLowercase : Text → Text
  debugExpression : Sql.Expression → Text
  debugSelect : Sql.SelectStatement → Text

/-- A library for ASCII, without `Debug` texts. -/
abbrev ViewStd.ascii : ViewStd where
  toStd := Sql.Std.ascii
  toLowercase t := t.map Char.toLower
  debugExpression _ := []
  debugSelect _ := []

/-- View definition metadata -/
structure ViewDef where
  viewId : ℕ
  name : Text
  schemaId : ℕ
  query : Text
  materialized : Bool
  dependencies : List Text

/-- View manager for handling view lifecycle -/
structure ViewManager where
  views : HashMap Text ViewDef
  nextViewId : ℕ

namespace ViewManager

variable [ViewStd]

abbrev Call (α : Type) := EStateM Failure ViewManager α

def new : ViewManager := ⟨∅, 1⟩

/-- The tables that are looked for in a query. -/
def commonTables : List Text := ["users", "orders", "products", "customers", "items"].map String.toList

/-- Parse dependencies from query (simplified) -/
def extractDependencies (query : Text) : List Text :=
  let queryLower := ViewStd.toLowercase query
  commonTables.filter fun tableName =>
    " from ".toList ++ tableName <:+: queryLower ∨ " join ".toList ++ tableName <:+: queryLower ∨
      [' '] ++ tableName ++ [' '] <:+: queryLower

/-- Create a new view -/
def createView (name : Text) (schemaId : ℕ) (query : Text) (materialized : Bool) : Call ℕ := do
  -- Check for duplicate view names
  require (name ∉ (← get).views) (.err (.alreadyExists s!"View '{String.ofList name}' already exists"))
  let viewId := (← get).nextViewId
  modify fun m => { m with nextViewId := viewId + 1 }
  modify fun m => { m with
    views := m.views.insert name ⟨viewId, name, schemaId, query, materialized, extractDependencies query⟩ }
  return viewId

/-- Another view that depends on a view, as the map is iterated -/
def dependentView (m : ViewManager) (name : Text) : Option ViewDef :=
  (m.views.pairs.map Prod.snd).find? fun otherView => otherView.name ≠ name ∧ name ∈ otherView.dependencies

/-- Drop a view -/
def dropView (name : Text) (cascade : Bool) : Call Unit := do
  let m ← get
  require (name ∈ m.views) (.err (.notFound s!"View '{String.ofList name}' not found"))
  match if cascade then none else m.dependentView name with
  | some otherView =>
    throw (.err (.dependentObjects (s!"Cannot drop view '{String.ofList name}' because view " ++
      s!"'{String.ofList otherView.name}' depends on it")))
  | none => modify fun m => { m with views := m.views.erase name }

/-- Get view definition -/
def getView (m : ViewManager) (name : Text) : Option ViewDef := m.views.lookup name

theorem createView_of_mem {m : ViewManager} {name : Text} (h : name ∈ m.views) (schemaId : ℕ) (query : Text)
    (materialized : Bool) : final (createView name schemaId query materialized) m = m := by
  have hrequire : require (name ∉ m.views) (Failure.err (.alreadyExists
      s!"View '{String.ofList name}' already exists")) m = .error _ m := require_of_not (not_not.mpr h) _ _
  rw [createView, final, get_bind, bind_of_error hrequire]

theorem createView_of_notMem {m : ViewManager} {name : Text} (h : name ∉ m.views) (schemaId : ℕ) (query : Text)
    (materialized : Bool) : final (createView name schemaId query materialized) m =
      ⟨m.views.insert name ⟨m.nextViewId, name, schemaId, query, materialized, extractDependencies query⟩,
        m.nextViewId + 1⟩ := by
  have hrequire : require (name ∉ m.views) (Failure.err (.alreadyExists
      s!"View '{String.ofList name}' already exists")) m = .ok () m := require_of h _ _
  rw [createView, final, get_bind, bind_of_ok hrequire]
  rfl

/-- A view is dropped or the manager is left as it was. -/
theorem dropView_cases (name : Text) (cascade : Bool) (m : ViewManager) :
    final (dropView name cascade) m = m ∨ final (dropView name cascade) m = { m with views := m.views.erase name } := by
  by_cases hmem : name ∈ m.views
  · have hrequire : require (name ∈ m.views) (Failure.err (.notFound
        s!"View '{String.ofList name}' not found")) m = .ok () m := require_of hmem _ _
    rw [dropView, final, get_bind, bind_of_ok hrequire]
    cases if cascade then none else m.dependentView name with
    | none => exact .inr rfl
    | some otherView => exact .inl rfl
  · have hrequire : require (name ∈ m.views) (Failure.err (.notFound
        s!"View '{String.ofList name}' not found")) m = .error _ m := require_of_not hmem _ _
    left
    rw [dropView, final, get_bind, bind_of_error hrequire]

end ViewManager

/-- The schemas and views of a catalog -/
structure ViewCatalog where
  schemaManager : SchemaManager
  viewManager : ViewManager

namespace ViewCatalog

abbrev Call (α : Type) := EStateM Failure ViewCatalog α

/-- A call of the view manager. -/
def onViews {α : Type} (x : ViewManager.Call α) : Call α := fun c =>
  match x c.viewManager with
  | .ok a m => .ok a { c with viewManager := m }
  | .error e m => .error e { c with viewManager := m }

theorem final_onViews {α : Type} (x : ViewManager.Call α) (c : ViewCatalog) :
    final (onViews x) c = { c with viewManager := final x c.viewManager } := by
  unfold final onViews
  cases x c.viewManager <;> rfl

variable [ViewStd]

def new : ViewCatalog := ⟨SchemaManager.new, ViewManager.new⟩

/-- Create a view in a schema. -/
def createView (name : Text) (schemaName : String) (query : Text) (materialized : Bool) : Call ℕ := do
  -- Resolve schema
  match (← get).schemaManager.schemas.lookup schemaName with
  | none => throw (.err (.notFound s!"Schema '{schemaName}' not found"))
  | some schemaDef => onViews (ViewManager.createView name schemaDef.schemaId query materialized)

/-- Drop a view -/
def dropView (name : Text) (cascade : Bool) : Call Unit := onViews (ViewManager.dropView name cascade)

end ViewCatalog

end Rustgresql
