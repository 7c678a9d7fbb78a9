import Rustgresql.Catalog.Index

/-!
# Catalog manager

The catalog manager creates the indexes of a new table and drops those of a dropped one.
`coherent_iff` says when the two maps of the index manager agree over a run, and when a call that fails
leaves them alone: a primary key index does not ask whether its name is taken, and a table whose second
index is refused keeps the first.
-/

namespace Rustgresql

open StateSpec IndexManager

/-- Catalog manager -/
structure CatalogManager where
  tableManager : SystemTableManager
  indexManager : IndexManager

namespace CatalogManager

abbrev Call (α : Type) := EStateM Failure CatalogManager α

def new : CatalogManager := ⟨SystemTableManager.new, IndexManager.new⟩

/-- A call of the table manager. -/
def onTables {α : Type} (x : SystemTableManager.Call α) : Call α := fun c =>
  match x c.tableManager with
  | .ok a m => .ok a { c with tableManager := m }
  | .error e m => .error e { c with tableManager := m }

/-- A call of the index manager. -/
def onIndexes {α : Type} (x : IndexManager.Call α) : Call α := fun c =>
  match x c.indexManager with
  | .ok a m => .ok a { c with indexManager := m }
  | .error e m => .error e { c with indexManager := m }

/-- Create a new table with associated indexes -/
def createTable (name : String) (columns : List ColumnDef) : Call ℕ := do
  let tableId ← onTables (SystemTableManager.createTable name columns)
  onIndexes (createColumnIndexes name tableId columns)
  return tableId

/-- Drop all of the listed indexes. -/
def dropIndexes : List IndexDef → IndexManager.Call Unit
  | [] => pure ()
  | d :: ds => do
    dropIndex d.name
    dropIndexes ds

/-- Drop a table and all its indexes -/
def dropTable (name : String) : Call Unit := do
  match SystemTableManager.getTable name (← get).tableManager with
  | some tableDef =>
    onIndexes (dropIndexes (listTableIndexes tableDef.tableId (← get).indexManager))
    onTables (SystemTableManager.dropTable name)
  | none => pure ()

/-- Calls that create and drop indexes and tables. -/
inductive IndexOp
  | createIndex (name : String) (tableId : ℕ) (columns : List String) (indexType : IndexType)
    (unique : Bool)
  | createPrimaryKeyIndex (tableId : ℕ) (tableName : String) (columns : List String)
  | dropIndex (name : String)
  | createTable (name : String) (columns : List ColumnDef)
  | dropTable (name : String)

/-- What a call does. -/
def call : IndexOp → Call Unit
  | .createIndex name tableId columns indexType unique =>
    onIndexes (discard (IndexManager.createIndex name tableId columns indexType unique))
  | .createPrimaryKeyIndex tableId tableName columns =>
    onIndexes (discard (IndexManager.createPrimaryKeyIndex tableId tableName columns))
  | .dropIndex name => onIndexes (IndexManager.dropIndex name)
  | .createTable name columns => discard (createTable name columns)
  | .dropTable name => dropTable name

def step (c : CatalogManager) (op : IndexOp) : CatalogManager := final (call op) c

/-- The catalog after a list of calls. -/
def run (c : CatalogManager) (ops : List IndexOp) : CatalogManager := ops.foldl step c

/-- The index names that a call enters are free, or the call is refused before it enters any. -/
def NamesAreFree (c : CatalogManager) : IndexOp → Prop
  | .createPrimaryKeyIndex _ tableName _ => s!"pk_{tableName}" ∉ c.indexManager.indexes
  | .createTable name columns =>
    Fresh c.indexManager name columns ∨ Refused c.indexManager name columns
  | _ => True

variable {c : CatalogManager} {α : Type}

theorem final_onIndexes (x : IndexManager.Call α) :
    (final (onIndexes x) c).indexManager = final x c.indexManager := by
  unfold final onIndexes
  cases x c.indexManager <;> rfl

theorem onIndexes_eq_error {x : IndexManager.Call α} {e : Failure} {c' : CatalogManager} :
    onIndexes x c = .error e c' ↔
      ∃ m, x c.indexManager = .error e m ∧ c' = { c with indexManager := m } := by
  unfold onIndexes
  cases x c.indexManager <;> simp [eq_comm]

/-- A call leaves the index maps in agreement, and, if it fails, as they were. -/
def IndexesOrderly (c : CatalogManager) (op : IndexOp) : Prop :=
  (c.step op).indexManager.Coherent ∧
    ∀ e c', call op c = .error e c' → SameMaps c.indexManager c'.indexManager

theorem orderly_onIndexes (x : IndexManager.Call α) (m : IndexManager) :
    ((final (onIndexes x) c).indexManager.Coherent ∧
      ∀ e c', onIndexes x c = .error e c' → SameMaps m c'.indexManager) ↔
      Orderly m x c.indexManager := by
  rw [final_onIndexes, Orderly, and_congr_right_iff]
  intro _
  constructor
  · exact fun h e m hm => h e _ (onIndexes_eq_error.mpr ⟨m, hm, rfl⟩)
  · intro h e c' hc
    obtain ⟨m, hm, rfl⟩ := onIndexes_eq_error.mp hc
    exact h e m hm

theorem indexesOrderly_of_call {op : IndexOp} {x : IndexManager.Call Unit} (hcall : call op = onIndexes x) :
    c.IndexesOrderly op ↔ Orderly c.indexManager x c.indexManager := by
  rw [IndexesOrderly, step, hcall]
  exact orderly_onIndexes x c.indexManager

theorem orderly_createIndex {m : IndexManager} (h : m.Coherent) (name : String) (tableId : ℕ)
    (columns : List String) (indexType : IndexType) (unique : Bool) :
    Orderly m (discard (IndexManager.createIndex name tableId columns indexType unique)) m := by
  by_cases hmem : name ∈ m.indexes
  · have hrun := bind_of_error (f := fun _ => pure ()) (createIndex_of_mem hmem tableId columns indexType
      unique)
    have hsame : SameMaps m { m with nextIndexId := m.nextIndexId + 1 } := ⟨rfl, rfl⟩
    refine ⟨?_, fun e m' he => ?_⟩
    · rw [final_discard, final, createIndex_of_mem hmem]
      exact hsame.coherent h
    · cases hrun.symm.trans he
      exact hsame
  · have hrun := bind_of_ok (f := fun _ => pure ()) (createIndex_of_notMem hmem tableId columns indexType
      unique)
    refine ⟨?_, fun e m' he => ?_⟩
    · rw [final_discard, final, createIndex_of_notMem hmem]
      exact h.withIndex hmem
    · cases hrun.symm.trans he

theorem orderly_createPrimaryKeyIndex_iff {m : IndexManager} (h : m.Coherent) (tableId : ℕ)
    (tableName : String) (columns : List String) :
    Orderly m (discard (IndexManager.createPrimaryKeyIndex tableId tableName columns)) m ↔
      s!"pk_{tableName}" ∉ m.indexes := by
  have hrun := createPrimaryKeyIndex_eq (m := m) tableId tableName columns
  have hfinal : final (discard (IndexManager.createPrimaryKeyIndex tableId tableName columns)) m =
      m.withIndex ⟨m.nextIndexId, s!"pk_{tableName}", tableId, columns, .btree, true, true, true⟩ := by
    rw [final_discard, final, hrun]
  constructor
  · intro ho hmem
    refine (h.misplaced (d := ⟨m.nextIndexId, _, tableId, columns, .btree, true, true, true⟩)
      hmem).not_coherent ?_
    exact hfinal ▸ ho.1
  · refine fun hmem => ⟨?_, fun e m' he => ?_⟩
    · rw [hfinal]
      exact h.withIndex hmem
    · cases (bind_of_ok (f := fun _ => pure ()) hrun).symm.trans he

theorem orderly_dropIndex {m : IndexManager} (h : m.Coherent) (name : String) :
    Orderly m (IndexManager.dropIndex name) m :=
  ⟨h.dropIndex name, fun e m' he => by cases he⟩

theorem dropIndexes_returns (ds : List IndexDef) {m : IndexManager} (h : m.Coherent) :
    ∃ m', dropIndexes ds m = .ok () m' ∧ m'.Coherent := by
  induction ds generalizing m with
  | nil => exact ⟨m, rfl, h⟩
  | cons d ds ih => exact ih (h.dropIndex d.name)

theorem indexesOrderly_dropTable (h : c.indexManager.Coherent) (name : String) :
    c.IndexesOrderly (.dropTable name) := by
  rcases hdef : SystemTableManager.getTable name c.tableManager with - | tableDef
  · have hcall : call (.dropTable name) c = .ok () c := by
      rw [call, dropTable, get_bind, hdef]
      rfl
    rw [IndexesOrderly, step, final, hcall]
    exact ⟨h, fun e c' he => by cases he⟩
  · obtain ⟨m', hrun, hm'⟩ :=
      dropIndexes_returns (listTableIndexes tableDef.tableId c.indexManager) h
    have hindexes : onIndexes (dropIndexes (listTableIndexes tableDef.tableId c.indexManager)) c =
        .ok () { c with indexManager := m' } := by
      rw [onIndexes, hrun]
    have hcall : call (.dropTable name) c =
        onTables (SystemTableManager.dropTable name) { c with indexManager := m' } := by
      rw [call, dropTable, get_bind, hdef]
      exact bind_of_ok hindexes
    rw [IndexesOrderly, step, final, hcall]
    exact ⟨hm', fun e c' he => by cases he⟩

theorem indexesOrderly_createTable_iff (h : c.indexManager.Coherent) (name : String)
    (columns : List ColumnDef) : c.IndexesOrderly (.createTable name columns) ↔
      Fresh c.indexManager name columns ∨ Refused c.indexManager name columns := by
  obtain ⟨tableId, c₁, htable, hsame⟩ : ∃ tableId c₁,
      onTables (SystemTableManager.createTable name columns) c = .ok tableId c₁ ∧
        c₁.indexManager = c.indexManager := ⟨_, _, rfl, rfl⟩
  have hfinal : c.step (.createTable name columns) =
      final (onIndexes (createColumnIndexes name tableId columns)) c₁ := by
    rw [step, call, final_discard, createTable, final_bind_of_ok htable, final_bind_pure]
  have herror (e : Failure) (c' : CatalogManager) : call (.createTable name columns) c = .error e c' ↔
      onIndexes (createColumnIndexes name tableId columns) c₁ = .error e c' := by
    have hrun : createTable name columns c =
        (do onIndexes (createColumnIndexes name tableId columns); return tableId) c₁ :=
      bind_of_ok htable
    change (createTable name columns >>= fun _ => pure ()) c = _ ↔ _
    rcases hindexes : onIndexes (createColumnIndexes name tableId columns) c₁ with ⟨a, c₂⟩ | ⟨e₂, c₂⟩
    · rw [bind_of_ok (hrun.trans (bind_of_ok hindexes))]
      simp only [reduceCtorEq, iff_false]
      intro he
      cases he
    · rw [bind_of_error (hrun.trans (bind_of_error hindexes))]
  rw [IndexesOrderly, hfinal]
  simp only [herror]
  rw [orderly_onIndexes, hsame]
  exact orderly_createColumnIndexes_iff h

/-- One call is orderly exactly if the names it enters are free. -/
theorem indexesOrderly_iff (h : c.indexManager.Coherent) (op : IndexOp) :
    c.IndexesOrderly op ↔ c.NamesAreFree op := by
  cases op with
  | createIndex name tableId columns indexType unique =>
    apply iff_of_true _ trivial
    apply (indexesOrderly_of_call rfl).mpr
    exact orderly_createIndex h name tableId columns indexType unique
  | createPrimaryKeyIndex tableId tableName columns =>
    have hcall : call (.createPrimaryKeyIndex tableId tableName columns) = onIndexes
        (discard (IndexManager.createPrimaryKeyIndex tableId tableName columns)) := rfl
    rw [indexesOrderly_of_call hcall]
    exact orderly_createPrimaryKeyIndex_iff h tableId tableName columns
  | dropIndex name =>
    have hcall : call (.dropIndex name) = onIndexes (IndexManager.dropIndex name) := rfl
    apply iff_of_true _ trivial
    rw [indexesOrderly_of_call hcall]
    exact orderly_dropIndex h name
  | createTable name columns => exact indexesOrderly_createTable_iff h name columns
  | dropTable name => exact iff_of_true (indexesOrderly_dropTable h name) trivial

/-- Over every sequence of calls the index maps agree, and calls that fail leave them alone, if and only
if every call finds the names that it enters free, or is refused before it enters any. -/
theorem coherent_iff (ops : List IndexOp) :
    ((∀ pre, pre <+: ops → (new.run pre).indexManager.Coherent) ∧
      ∀ pre op post, ops = pre ++ op :: post → ∀ e c', call op (new.run pre) = .error e c' →
        SameMaps (new.run pre).indexManager c'.indexManager) ↔
      ∀ pre op post, ops = pre ++ op :: post → (new.run pre).NamesAreFree op := by
  unfold run
  rw [forall_prefix_iff (P := fun c : CatalogManager => c.indexManager.Coherent) coherent_new]
  simp only [← forall_and]
  refine forall_step_iff (I := fun c : CatalogManager => c.indexManager.Coherent)
    (G := IndexesOrderly) coherent_new ?_ ?_ ops
  · exact fun c op _ hstep => hstep.1
  · exact fun c op h => indexesOrderly_iff h op

/-- A table with two primary key columns lists its one index twice. -/
theorem not_coherent_twoKeys :
    ¬ ∀ ops : List IndexOp, ∀ pre, pre <+: ops → (new.run pre).indexManager.Coherent := by
  intro h
  have hc := h [.createTable "t" [⟨0, "a", .integer, false, none, true, false, none⟩,
    ⟨1, "b", .integer, false, none, true, false, none⟩]] _ (List.prefix_refl _)
  have hnodup := hc.nodup 1
  exact absurd hnodup (by decide)

end CatalogManager

end Rustgresql
