import Rustgresql.Catalog.Table
import Rustgresql.Lib.Numbering

/-!
# Schema management

The schema manager, and the numbers of schemas and tables. Both managers number their objects from a
counter that starts at 1, and both begin with an object whose number is 1: the schema `public` and the
table `pg_column`. `ids_distinct_iff` says when that number is handed out a second time.
-/

namespace Rustgresql

open StateSpec
open Numbering (Distinct Below distinct_update_iff)

/-- Schema definition -/
structure SchemaDef where
  schemaId : ℕ
  name : String
  ownerId : ℕ
  deriving DecidableEq

/-- Schema manager -/
structure SchemaManager where
  schemas : HashMap String SchemaDef
  nextSchemaId : ℕ

namespace SchemaManager

abbrev Call (α : Type) := EStateM Failure SchemaManager α

/-- The default schemas, and a counter that starts at 1. -/
def new : SchemaManager where
  schemas := ((∅ : HashMap String SchemaDef).insert "pg_catalog" ⟨0, "pg_catalog", 0⟩).insert "public"
    ⟨1, "public", 1⟩
  nextSchemaId := 1

/-- Create a new schema. The number is used up even if the name exists. -/
def createSchema (name : String) (ownerId : ℕ) : Call ℕ := do
  let schemaId := (← get).nextSchemaId
  modify fun m => { m with nextSchemaId := schemaId + 1 }
  require (name ∉ (← get).schemas) (.err (.alreadyExists s!"Schema '{name}' already exists"))
  modify fun m => { m with schemas := m.schemas.insert name ⟨schemaId, name, ownerId⟩ }
  return schemaId

/-- Drop a schema -/
def dropSchema (name : String) (cascade : Bool) : Call Unit := do
  -- Don't allow dropping system schemas
  require (¬ (name = "pg_catalog" ∨ name = "public" ∧ cascade = false))
    (.err (.invalidOperation s!"Cannot drop system schema '{name}'"))
  modify fun m => { m with schemas := m.schemas.erase name }

/-- The number of the schema of a name. -/
def ids (m : SchemaManager) (name : String) : Option ℕ := (m.schemas.lookup name).map SchemaDef.schemaId

theorem createSchema_of_mem {m : SchemaManager} {name : String} (h : name ∈ m.schemas) (ownerId : ℕ) :
    final (createSchema name ownerId) m = { m with nextSchemaId := m.nextSchemaId + 1 } := by
  have hrun : final (createSchema name ownerId) m = final (do
      require (name ∉ m.schemas)
        (Failure.err (.alreadyExists s!"Schema '{name}' already exists"))
      modify fun m' => { m' with schemas := m'.schemas.insert name ⟨m.nextSchemaId, name, ownerId⟩ }
      return m.nextSchemaId) { m with nextSchemaId := m.nextSchemaId + 1 } := rfl
  rw [hrun, final_bind_of_error (require_of_not (not_not.mpr h) _ _)]

theorem createSchema_of_notMem {m : SchemaManager} {name : String} (h : name ∉ m.schemas)
    (ownerId : ℕ) : final (createSchema name ownerId) m =
      ⟨m.schemas.insert name ⟨m.nextSchemaId, name, ownerId⟩, m.nextSchemaId + 1⟩ := by
  have hrun : final (createSchema name ownerId) m = final (do
      require (name ∉ m.schemas)
        (Failure.err (.alreadyExists s!"Schema '{name}' already exists"))
      modify fun m' => { m' with schemas := m'.schemas.insert name ⟨m.nextSchemaId, name, ownerId⟩ }
      return m.nextSchemaId) { m with nextSchemaId := m.nextSchemaId + 1 } := rfl
  rw [hrun, final_bind_of_ok (require_of h _ _)]
  rfl

theorem dropSchema_cases (name : String) (cascade : Bool) (m : SchemaManager) :
    final (dropSchema name cascade) m = m ∨
      final (dropSchema name cascade) m = { m with schemas := m.schemas.erase name } := by
  by_cases h : name = "pg_catalog" ∨ name = "public" ∧ cascade = false
  · left
    rw [dropSchema, final_bind_of_error (require_of_not (not_not.mpr h) _ _)]
  · right
    rw [dropSchema, final_bind_of_ok (require_of h _ _)]
    rfl

theorem ids_insert (m : SchemaManager) (name : String) (d : SchemaDef) (next : ℕ) :
    ids ⟨m.schemas.insert name d, next⟩ = Function.update m.ids name (some d.schemaId) := by
  funext k
  rw [ids, HashMap.lookup_insert_eq, Function.update_apply]
  split <;> rfl

theorem ids_erase (m : SchemaManager) (name : String) :
    ids { m with schemas := m.schemas.erase name } = Function.update m.ids name none := by
  funext k
  rw [ids, HashMap.lookup_erase_eq, Function.update_apply]
  split <;> rfl

theorem ids_eq_none {m : SchemaManager} {name : String} : m.ids name = none ↔ name ∉ m.schemas := by
  rw [ids, Option.map_eq_none_iff, AList.lookup_eq_none]

/-- The numbers of schemas, up to the counter. -/
structure Numbered (m : SchemaManager) : Prop where
  below : Below 1 "public" m.ids m.nextSchemaId
  one_le : 1 ≤ m.nextSchemaId

end SchemaManager

namespace SystemTableManager

/-- The number of the table of a name. -/
def ids (m : SystemTableManager) (name : String) : Option ℕ :=
  (m.tables.lookup name).map fun t => t.definition.tableId

/-- A change to the rows of a table leaves the numbers. -/
theorem ids_adjust (m : SystemTableManager) (name : String) (f : SystemTable → SystemTable)
    (hf : ∀ t, (f t).definition = t.definition) :
    ids { m with tables := HashMap.adjust name f m.tables } = m.ids := by
  funext k
  rw [ids, HashMap.lookup_adjust]
  split
  · rw [Option.map_map, Function.comp_def]
    simp only [hf]
    rfl
  · rfl

theorem ids_insert (m : SystemTableManager) (name : String) (t : SystemTable) (next : ℕ) :
    ids ⟨m.tables.insert name t, next⟩ = Function.update m.ids name (some t.definition.tableId) := by
  funext k
  rw [ids, HashMap.lookup_insert_eq, Function.update_apply]
  split <;> rfl

theorem ids_erase (m : SystemTableManager) (name : String) :
    ids { m with tables := m.tables.erase name } = Function.update m.ids name none := by
  funext k
  rw [ids, HashMap.lookup_erase_eq, Function.update_apply]
  split <;> rfl

theorem ids_eq_none {m : SystemTableManager} {name : String} :
    m.ids name = none ↔ name ∉ m.tables := by
  rw [ids, Option.map_eq_none_iff, AList.lookup_eq_none]

theorem ids_createTable (name : String) (columns : List ColumnDef) (m : SystemTableManager) :
    (final (createTable name columns) m).ids = Function.update m.ids name (some m.nextTableId) := by
  let withTable := m.tables.insert name ⟨⟨m.nextTableId, name, 1, columns, []⟩, []⟩
  let withRow := HashMap.adjust "pg_table"
    (fun t => t.insert [.integer m.nextTableId, .string name, .integer 1]) withTable
  have hcolumns := ids_adjust ⟨withRow, m.nextTableId + 1⟩ "pg_column"
    (fun t => { t with data := t.data ++ columnRows m.nextTableId columns }) fun _ => rfl
  have hrow := ids_adjust ⟨withTable, m.nextTableId + 1⟩ "pg_table"
    (fun t => t.insert [.integer m.nextTableId, .string name, .integer 1]) fun _ => rfl
  exact hcolumns.trans (hrow.trans (ids_insert m name _ _))

theorem nextTableId_createTable (name : String) (columns : List ColumnDef) (m : SystemTableManager) :
    (final (createTable name columns) m).nextTableId = m.nextTableId + 1 := rfl

/-- The numbers of tables, up to the counter. -/
structure Numbered (m : SystemTableManager) : Prop where
  below : Below 1 "pg_column" m.ids m.nextTableId
  one_le : 1 ≤ m.nextTableId

end SystemTableManager

/-! ## Creations and drops -/

/-- A creation or a drop. -/
inductive CatalogOp
  | createSchema (name : String) (ownerId : ℕ)
  | dropSchema (name : String) (cascade : Bool)
  | createTable (name : String) (columns : List ColumnDef)
  | dropTable (name : String)

/-- The schemas and tables of a catalog. -/
structure CatalogObjects where
  schemas : SchemaManager
  tables : SystemTableManager

namespace CatalogObjects

def new : CatalogObjects := ⟨.new, .new⟩

def step (c : CatalogObjects) : CatalogOp → CatalogObjects
  | .createSchema name ownerId =>
    { c with schemas := final (SchemaManager.createSchema name ownerId) c.schemas }
  | .dropSchema name cascade => { c with schemas := final (SchemaManager.dropSchema name cascade) c.schemas }
  | .createTable name columns =>
    { c with tables := final (SystemTableManager.createTable name columns) c.tables }
  | .dropTable name => { c with tables := final (SystemTableManager.dropTable name) c.tables }

/-- The state after a sequence of creations and drops. -/
def run (c : CatalogObjects) (ops : List CatalogOp) : CatalogObjects := ops.foldl step c

/-- No two schemas and no two tables have the same number. -/
structure IdsDistinct (c : CatalogObjects) : Prop where
  schemas : Distinct c.schemas.ids
  tables : Distinct c.tables.ids

/-- The first creation of a schema finds `public` dropped or the name taken, and the first creation of
a table finds `pg_column` dropped or replaces it. -/
def FirstIsFree (c : CatalogObjects) : CatalogOp → Prop
  | .createSchema name _ => c.schemas.nextSchemaId = 1 →
      name ∈ c.schemas.schemas ∨ "public" ∉ c.schemas.schemas
  | .createTable name _ => c.tables.nextTableId = 1 →
      name = "pg_column" ∨ "pg_column" ∉ c.tables.tables
  | .dropSchema _ _ => True
  | .dropTable _ => True

/-- What creations and drops keep, whatever numbers they hand out. -/
structure Numbered (c : CatalogObjects) : Prop where
  schemas : c.schemas.Numbered
  tables : c.tables.Numbered

theorem schemaIds_new : SchemaManager.new.ids =
    Function.update (Function.update (fun _ => none) "pg_catalog" (some 0)) "public" (some 1) := by
  rw [SchemaManager.new, SchemaManager.ids_insert ⟨_, 1⟩, SchemaManager.ids_insert ⟨∅, 1⟩]
  rfl

theorem tableIds_new : SystemTableManager.new.ids =
    Function.update (Function.update (fun _ => none) "pg_table" (some 0)) "pg_column" (some 1) := by
  rw [SystemTableManager.new, SystemTableManager.ids_insert ⟨_, 1⟩, SystemTableManager.ids_insert ⟨∅, 1⟩]
  rfl

/-- The numbers of two built-in objects. -/
theorem below_builtin {κ : Type} [DecidableEq κ] (a b : κ) : Below 1 b
    (Function.update (Function.update (fun _ => none) a (some 0)) b (some 1)) 1 where
  lt k i hk := by
    rw [Function.update_apply] at hk
    split at hk
    · next hb => exact .inr ⟨rfl, hb⟩
    · rw [Function.update_apply] at hk
      split at hk
      · cases hk
        exact .inl Nat.zero_lt_one
      · cases hk
  builtin _ i hi := by
    rw [Function.update_self] at hi
    cases hi
    rfl

theorem distinct_builtin {κ : Type} [DecidableEq κ] (a b : κ) : Distinct
    (Function.update (Function.update (fun _ => none) a (some 0)) b (some 1)) := by
  intro x y i hx hy
  simp only [Function.update_apply] at hx hy
  grind

theorem numbered_new : Numbered new where
  schemas := ⟨by rw [new, schemaIds_new]; exact below_builtin _ _, le_rfl⟩
  tables := ⟨by rw [new, tableIds_new]; exact below_builtin _ _, le_rfl⟩

theorem idsDistinct_new : IdsDistinct new where
  schemas := by rw [new, schemaIds_new]; exact distinct_builtin _ _
  tables := by rw [new, tableIds_new]; exact distinct_builtin _ _

theorem Numbered.step {c : CatalogObjects} (h : c.Numbered) (op : CatalogOp) : (c.step op).Numbered := by
  cases op with
  | createSchema name ownerId =>
    refine ⟨?_, h.tables⟩
    have hs := h.schemas
    by_cases hmem : name ∈ c.schemas.schemas
    · rw [CatalogObjects.step, SchemaManager.createSchema_of_mem hmem]
      exact ⟨hs.below.skip hs.one_le, by simp⟩
    · rw [CatalogObjects.step, SchemaManager.createSchema_of_notMem hmem]
      refine ⟨?_, by simp⟩
      rw [SchemaManager.ids_insert]
      exact hs.below.update hs.one_le name
  | dropSchema name cascade =>
    refine ⟨?_, h.tables⟩
    rcases SchemaManager.dropSchema_cases name cascade c.schemas with hrun | hrun
    · rw [CatalogObjects.step, hrun]
      exact h.schemas
    · rw [CatalogObjects.step, hrun]
      refine ⟨?_, h.schemas.one_le⟩
      rw [SchemaManager.ids_erase]
      exact h.schemas.below.erase name
  | createTable name columns =>
    refine ⟨h.schemas, ?_, ?_⟩
    · rw [CatalogObjects.step, SystemTableManager.ids_createTable]
      exact h.tables.below.update h.tables.one_le name
    · rw [CatalogObjects.step, SystemTableManager.nextTableId_createTable]
      omega
  | dropTable name =>
    refine ⟨h.schemas, ?_, h.tables.one_le⟩
    change Below 1 "pg_column" (SystemTableManager.ids { c.tables with tables := _ }) _
    rw [SystemTableManager.ids_erase]
    exact h.tables.below.erase name

/-- One creation or drop. -/
theorem idsDistinct_step_iff {c : CatalogObjects} (h : c.Numbered) (hd : c.IdsDistinct)
    (op : CatalogOp) : (c.step op).IdsDistinct ↔ c.FirstIsFree op := by
  cases op with
  | createSchema name ownerId =>
    by_cases hmem : name ∈ c.schemas.schemas
    · rw [CatalogObjects.step, SchemaManager.createSchema_of_mem hmem]
      exact iff_of_true ⟨hd.schemas, hd.tables⟩ fun _ => .inl hmem
    · rw [CatalogObjects.step, SchemaManager.createSchema_of_notMem hmem]
      have hiff := distinct_update_iff h.schemas.below hd.schemas name
      rw [SchemaManager.ids_eq_none] at hiff
      constructor
      · intro hstep hn
        have hs := hstep.schemas
        rw [SchemaManager.ids_insert] at hs
        rcases hiff.mp hs hn with rfl | hpublic
        · exact .inr hmem
        · exact .inr hpublic
      · intro hfree
        refine ⟨?_, hd.tables⟩
        rw [SchemaManager.ids_insert]
        exact hiff.mpr fun hn => .inr ((hfree hn).resolve_left hmem)
  | dropSchema name cascade =>
    refine iff_of_true ⟨?_, hd.tables⟩ trivial
    rcases SchemaManager.dropSchema_cases name cascade c.schemas with hrun | hrun
    · rw [CatalogObjects.step, hrun]
      exact hd.schemas
    · rw [CatalogObjects.step, hrun, SchemaManager.ids_erase]
      exact hd.schemas.erase name
  | createTable name columns =>
    have hiff := distinct_update_iff h.tables.below hd.tables name
    rw [SystemTableManager.ids_eq_none, ← SystemTableManager.ids_createTable name columns] at hiff
    constructor
    · exact fun hstep => hiff.mp hstep.tables
    · exact fun hfree => ⟨hd.schemas, hiff.mpr hfree⟩
  | dropTable name =>
    refine iff_of_true ⟨hd.schemas, ?_⟩ trivial
    change Distinct (SystemTableManager.ids { c.tables with tables := _ })
    rw [SystemTableManager.ids_erase]
    exact hd.tables.erase name

/-- In every state that a sequence of creations and drops reaches, the numbers of schemas and of tables
are distinct, if and only if the number 1 is not handed out while `public` or `pg_column` has it. -/
theorem ids_distinct_iff (ops : List CatalogOp) :
    (∀ pre, pre <+: ops → (new.run pre).IdsDistinct) ↔
      ∀ pre op post, ops = pre ++ op :: post → (new.run pre).FirstIsFree op := by
  unfold run
  rw [forall_prefix_iff idsDistinct_new]
  refine forall_step_iff (I := fun c : CatalogObjects => c.Numbered ∧ c.IdsDistinct)
    (G := fun c op => (c.step op).IdsDistinct) ⟨numbered_new, idsDistinct_new⟩ ?_ ?_ ops
  · exact fun c op h hstep => ⟨h.1.step op, hstep⟩
  · exact fun c op h => idsDistinct_step_iff h.1 h.2 op

/-- The first schema that is created gets the number of `public`, and the first table that of
`pg_column`. -/
theorem ids_not_distinct :
    ¬ ∀ ops : List CatalogOp, ∀ pre, pre <+: ops → (new.run pre).IdsDistinct := by
  intro h
  have hs := h [.createSchema "app" 7, .createTable "t" []] _ (List.prefix_refl _)
  have hname : "t" = "pg_column" := hs.tables "t" "pg_column" 1 (by decide) (by decide)
  exact absurd hname (by decide)

end CatalogObjects

end Rustgresql
