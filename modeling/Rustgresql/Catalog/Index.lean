import Rustgresql.Catalog.Table

/-!
# Index management

The index manager keeps the indexes by name, and for every table the names of its indexes. `Coherent`
says that the two maps agree. A primary key index replaces one of its name, so
`orderly_createColumnIndexes_iff` asks for new names.
-/

namespace Rustgresql

open StateSpec

/-- Index type -/
inductive IndexType
  | btree | hash | gin | gist
  deriving DecidableEq

/-- Index definition -/
structure IndexDef where
  indexId : ℕ
  name : String
  tableId : ℕ
  columns : List String
  indexType : IndexType
  unique : Bool
  primaryKey : Bool
  isSystemGenerated : Bool

/-- Index manager -/
structure IndexManager where
  indexes : HashMap String IndexDef
  nextIndexId : ℕ
  tableIndexes : HashMap ℕ (List String)

namespace IndexManager

abbrev Call (α : Type) := EStateM Failure IndexManager α

def new : IndexManager := ⟨∅, 1, ∅⟩

/-- The names listed for a table. -/
def listed (m : IndexManager) (tableId : ℕ) : List String := (m.tableIndexes.lookup tableId).getD []

/-- The next number. -/
def newIndexId : Call ℕ :=
  modifyGet fun m => (m.nextIndexId, { m with nextIndexId := m.nextIndexId + 1 })

/-- Enter an index into both maps. -/
def register (d : IndexDef) : Call Unit :=
  modify fun m => { m with
    indexes := m.indexes.insert d.name d
    tableIndexes := m.tableIndexes.insert d.tableId (m.listed d.tableId ++ [d.name]) }

/-- Create a new index -/
def createIndex (name : String) (tableId : ℕ) (columns : List String) (indexType : IndexType)
    (unique : Bool) : Call ℕ := do
  let indexId ← newIndexId
  require (name ∉ (← get).indexes) (.err (.alreadyExists s!"Index '{name}' already exists"))
  register ⟨indexId, name, tableId, columns, indexType, unique, false, false⟩
  return indexId

/-- Create primary key index. An index of the same name is replaced. -/
def createPrimaryKeyIndex (tableId : ℕ) (tableName : String) (columns : List String) : Call ℕ := do
  let indexId ← newIndexId
  register ⟨indexId, s!"pk_{tableName}", tableId, columns, .btree, true, true, true⟩
  return indexId

/-- Strike a name off the list of a table. No list is left empty. -/
def unlist (name : String) (tableId : ℕ) (lists : HashMap ℕ (List String)) : HashMap ℕ (List String) :=
  match lists.lookup tableId with
  | some names =>
    let names := names.filter (· ≠ name)
    if names = [] then lists.erase tableId else lists.insert tableId names
  | none => lists

/-- Drop an index -/
def dropIndex (name : String) : Call Unit := modify fun m =>
  match m.indexes.lookup name with
  | some d => { m with
      indexes := m.indexes.erase name
      tableIndexes := unlist name d.tableId m.tableIndexes }
  | none => m

/-- List indexes for a table -/
def listTableIndexes (tableId : ℕ) (m : IndexManager) : List IndexDef :=
  (m.listed tableId).filterMap fun name => m.indexes.lookup name

/-! ## Coherence -/

/-- Every listed name is that of an index of the table, every index is listed once under its table, and
no name is listed twice. -/
structure Coherent (m : IndexManager) : Prop where
  named : ∀ t, ∀ n ∈ m.listed t, ∃ d, m.indexes.lookup n = some d ∧ d.tableId = t
  once : ∀ n d, m.indexes.lookup n = some d → (m.listed d.tableId).count n = 1
  nodup : ∀ t, (m.listed t).Nodup

/-- The two maps are the same. -/
def SameMaps (m m' : IndexManager) : Prop :=
  m'.indexes = m.indexes ∧ m'.tableIndexes = m.tableIndexes

variable {m : IndexManager} {d : IndexDef} {name : String}

/-- The index manager after an index is entered. -/
def withIndex (m : IndexManager) (d : IndexDef) : IndexManager where
  indexes := m.indexes.insert d.name d
  nextIndexId := m.nextIndexId + 1
  tableIndexes := m.tableIndexes.insert d.tableId (m.listed d.tableId ++ [d.name])

theorem createIndex_of_notMem (h : name ∉ m.indexes) (tableId : ℕ) (columns : List String)
    (indexType : IndexType) (unique : Bool) : createIndex name tableId columns indexType unique m =
      .ok m.nextIndexId (m.withIndex ⟨m.nextIndexId, name, tableId, columns, indexType, unique, false,
        false⟩) := by
  have hrun : createIndex name tableId columns indexType unique m = (do
      require (name ∉ m.indexes) (Failure.err (.alreadyExists s!"Index '{name}' already exists"))
      register ⟨m.nextIndexId, name, tableId, columns, indexType, unique, false, false⟩
      return m.nextIndexId) { m with nextIndexId := m.nextIndexId + 1 } := rfl
  rw [hrun, bind_of_ok (require_of h _ _)]
  rfl

theorem createIndex_of_mem (h : name ∈ m.indexes) (tableId : ℕ) (columns : List String)
    (indexType : IndexType) (unique : Bool) : createIndex name tableId columns indexType unique m =
      .error (.err (.alreadyExists s!"Index '{name}' already exists"))
        { m with nextIndexId := m.nextIndexId + 1 } := by
  have hrun : createIndex name tableId columns indexType unique m = (do
      require (name ∉ m.indexes) (Failure.err (.alreadyExists s!"Index '{name}' already exists"))
      register ⟨m.nextIndexId, name, tableId, columns, indexType, unique, false, false⟩
      return m.nextIndexId) { m with nextIndexId := m.nextIndexId + 1 } := rfl
  rw [hrun, bind_of_error (require_of_not (not_not.mpr h) _ _)]

theorem createPrimaryKeyIndex_eq (tableId : ℕ) (tableName : String) (columns : List String) :
    createPrimaryKeyIndex tableId tableName columns m = .ok m.nextIndexId
      (m.withIndex ⟨m.nextIndexId, s!"pk_{tableName}", tableId, columns, .btree, true, true, true⟩) :=
  rfl

theorem lookup_withIndex (n : String) : (m.withIndex d).indexes.lookup n =
    if n = d.name then some d else m.indexes.lookup n :=
  HashMap.lookup_insert_eq ..

theorem mem_withIndex {n : String} : n ∈ (m.withIndex d).indexes ↔ n = d.name ∨ n ∈ m.indexes :=
  AList.mem_insert _

theorem listed_withIndex (t : ℕ) : (m.withIndex d).listed t =
    if t = d.tableId then m.listed t ++ [d.name] else m.listed t := by
  unfold listed withIndex
  rw [HashMap.lookup_insert_eq]
  split
  · next h => rw [h]; rfl
  · rfl

/-- Without an index of a name, the name is listed nowhere. -/
theorem Coherent.notMem_listed (h : m.Coherent) (hn : name ∉ m.indexes) (t : ℕ) :
    name ∉ m.listed t := by
  intro hmem
  obtain ⟨d, hd, -⟩ := h.named t name hmem
  exact hn (AList.lookup_isSome.mp (by rw [hd]; rfl))

/-- An index of a new name keeps the maps in agreement. -/
theorem Coherent.withIndex (h : m.Coherent) (hn : d.name ∉ m.indexes) : (m.withIndex d).Coherent where
  named t n hmem := by
    rw [lookup_withIndex]
    rw [listed_withIndex] at hmem
    split
    · next hname =>
      split at hmem
      · next ht => exact ⟨d, rfl, ht.symm⟩
      · exact absurd (hname ▸ hmem) (h.notMem_listed hn t)
    · next hname =>
      apply h.named t n
      split at hmem
      · simpa [hname] using hmem
      · exact hmem
  once n e he := by
    rw [lookup_withIndex] at he
    rw [listed_withIndex]
    split at he
    · next hname =>
      cases he
      rw [if_pos rfl, List.count_append, hname, List.count_eq_zero.mpr (h.notMem_listed hn _)]
      simp
    · next hname =>
      have hcount := h.once n e he
      split
      · rw [List.count_append, hcount, List.count_eq_zero.mpr (by simpa using hname)]
      · exact hcount
  nodup t := by
    rw [listed_withIndex]
    split
    · rw [List.nodup_append]
      refine ⟨h.nodup t, List.nodup_singleton _, fun x hx y hy => ?_⟩
      rw [List.mem_singleton.mp hy]
      rintro rfl
      exact h.notMem_listed hn t hx
    · exact h.nodup t

/-- An index is listed twice under its table, or under another table. -/
def Misplaced (m : IndexManager) : Prop :=
  ∃ n d, m.indexes.lookup n = some d ∧
    (2 ≤ (m.listed d.tableId).count n ∨ ∃ t, t ≠ d.tableId ∧ n ∈ m.listed t)

theorem Misplaced.not_coherent (h : m.Misplaced) : ¬ m.Coherent := by
  obtain ⟨n, d, hd, hcount | ⟨t, ht, hmem⟩⟩ := h
  · intro hc
    have := hc.once n d hd
    omega
  · intro hc
    obtain ⟨e, he, rfl⟩ := hc.named t n hmem
    cases hd.symm.trans he
    exact ht rfl

/-- An index that takes the place of another is misplaced. -/
theorem Coherent.misplaced (h : m.Coherent) (hn : d.name ∈ m.indexes) : (m.withIndex d).Misplaced := by
  obtain ⟨e, he⟩ := Option.isSome_iff_exists.mp (AList.lookup_isSome.mpr hn)
  have hcount := h.once d.name e he
  refine ⟨d.name, d, by rw [lookup_withIndex, if_pos rfl], ?_⟩
  by_cases ht : e.tableId = d.tableId
  · left
    rw [listed_withIndex, if_pos rfl, List.count_append, ← ht, hcount]
    simp
  · right
    refine ⟨e.tableId, ht, ?_⟩
    rw [listed_withIndex, if_neg ht]
    exact List.count_pos_iff.mp (by omega)

/-- A misplaced index stays misplaced when others are entered. -/
theorem Misplaced.withIndex (h : m.Misplaced) : (m.withIndex d).Misplaced := by
  obtain ⟨n, e, he, hcase⟩ := h
  -- lists only grow
  have hgrow : ∀ t, (m.listed t).count n ≤ ((m.withIndex d).listed t).count n := by
    intro t
    rw [listed_withIndex]
    split
    · rw [List.count_append]
      omega
    · exact le_rfl
  by_cases hn : n = d.name
  · refine ⟨n, d, by rw [lookup_withIndex, if_pos hn], ?_⟩
    have hself : (m.listed d.tableId).count n + 1 = ((m.withIndex d).listed d.tableId).count n := by
      rw [listed_withIndex, if_pos rfl, List.count_append, hn]
      simp
    -- some table lists the name already
    obtain ⟨t, ht⟩ : ∃ t, 0 < (m.listed t).count n ∧ (t = d.tableId → t ≠ e.tableId ∨
        2 ≤ (m.listed e.tableId).count n) := by
      rcases hcase with hcount | ⟨t, hne, hmem⟩
      · exact ⟨e.tableId, by omega, fun _ => .inr hcount⟩
      · exact ⟨t, List.count_pos_iff.mpr hmem, fun _ => .inl hne⟩
    by_cases htd : t = d.tableId
    · left
      rw [htd] at ht
      omega
    · right
      have := hgrow t
      exact ⟨t, htd, List.count_pos_iff.mp (by omega)⟩
  · refine ⟨n, e, by rw [lookup_withIndex, if_neg hn, he], ?_⟩
    rcases hcase with hcount | ⟨t, hne, hmem⟩
    · left
      have := hgrow e.tableId
      omega
    · right
      have h1 := hgrow t
      have h2 := List.count_pos_iff.mpr hmem
      exact ⟨t, hne, List.count_pos_iff.mp (by omega)⟩

theorem lookup_unlist (name : String) (tableId t : ℕ) (lists : HashMap ℕ (List String)) :
    ((unlist name tableId lists).lookup t).getD [] =
      if t = tableId then ((lists.lookup t).getD []).filter (· ≠ name) else (lists.lookup t).getD [] := by
  rcases hnames : lists.lookup tableId with - | names
  · simp only [unlist, hnames]
    split
    · next ht => rw [ht, hnames]; rfl
    · rfl
  · simp only [unlist, hnames]
    split
    · next hempty =>
      rw [HashMap.lookup_erase_eq]
      split
      · next ht => rw [ht, hnames, Option.getD_some, hempty]; rfl
      · rfl
    · rw [HashMap.lookup_insert_eq]
      split
      · next ht => rw [ht, hnames]; rfl
      · rfl

theorem dropIndex_of_some (hd : m.indexes.lookup name = some d) : final (dropIndex name) m =
    { m with
      indexes := m.indexes.erase name
      tableIndexes := unlist name d.tableId m.tableIndexes } := by
  change (match m.indexes.lookup name with
    | some d => { m with
        indexes := m.indexes.erase name
        tableIndexes := unlist name d.tableId m.tableIndexes }
    | none => m) = _
  rw [hd]

theorem dropIndex_of_none (hd : m.indexes.lookup name = none) : final (dropIndex name) m = m := by
  change (match m.indexes.lookup name with
    | some d => { m with
        indexes := m.indexes.erase name
        tableIndexes := unlist name d.tableId m.tableIndexes }
    | none => m) = m
  rw [hd]

/-- Dropping an index keeps the maps in agreement. -/
theorem Coherent.dropIndex (h : m.Coherent) (name : String) :
    (final (IndexManager.dropIndex name) m).Coherent := by
  rcases hd : m.indexes.lookup name with - | d
  · rwa [dropIndex_of_none hd]
  rw [dropIndex_of_some hd]
  have hlisted (t : ℕ) := lookup_unlist name d.tableId t m.tableIndexes
  refine ⟨fun t n hmem => ?_, fun n e he => ?_, fun t => ?_⟩
  · rw [listed, hlisted] at hmem
    have hne : n ≠ name ∧ n ∈ m.listed t := by
      split at hmem
      · exact ⟨by simpa using (List.mem_filter.mp hmem).2, (List.mem_filter.mp hmem).1⟩
      · next ht =>
        refine ⟨?_, hmem⟩
        rintro rfl
        obtain ⟨e, he, rfl⟩ := h.named t n hmem
        cases hd.symm.trans he
        exact ht rfl
    rw [HashMap.lookup_erase_eq, if_neg hne.1]
    exact h.named t n hne.2
  · rw [HashMap.lookup_erase_eq] at he
    split at he
    · cases he
    next hne =>
    rw [listed, hlisted]
    split
    · rw [List.count_filter (by simpa using hne)]
      exact h.once n e he
    · exact h.once n e he
  · rw [listed, hlisted]
    split
    · exact (h.nodup t).filter _
    · exact h.nodup t

theorem coherent_new : new.Coherent where
  named t n h := by simp [listed, new] at h
  once n d h := by simp [new] at h
  nodup t := by simp [listed, new]

/-! ## The indexes of a new table -/

/-- The index that a column of a new table gets. -/
def createColumnIndex (tableName : String) (tableId : ℕ) (column : ColumnDef) : Call Unit :=
  if column.primaryKey then
    discard <| createPrimaryKeyIndex tableId tableName [column.name]
  else if column.unique then
    discard <| createIndex s!"unique_{tableName}_{column.name}" tableId [column.name] .btree true
  else
    pure ()

/-- Create indexes for primary key and unique constraints -/
def createColumnIndexes (tableName : String) (tableId : ℕ) : List ColumnDef → Call Unit
  | [] => pure ()
  | column :: columns => do
    createColumnIndex tableName tableId column
    createColumnIndexes tableName tableId columns

/-- The name of the index of a column. -/
def columnIndexName (tableName : String) (column : ColumnDef) : Option String :=
  if column.primaryKey then some s!"pk_{tableName}"
  else if column.unique then some s!"unique_{tableName}_{column.name}"
  else none

/-- The names of the indexes of a new table are new, and pairwise distinct. -/
def Fresh (m : IndexManager) (tableName : String) (columns : List ColumnDef) : Prop :=
  (columns.filterMap (columnIndexName tableName)).Nodup ∧
    ∀ n ∈ columns.filterMap (columnIndexName tableName), n ∉ m.indexes

/-- The first index of a new table is that of a unique column, and its name is taken. -/
def Refused (m : IndexManager) (tableName : String) (columns : List ColumnDef) : Prop :=
  ∃ column, columns.find? (fun c => c.primaryKey || c.unique) = some column ∧
    column.primaryKey = false ∧ s!"unique_{tableName}_{column.name}" ∈ m.indexes

/-- What a call does with the index of a column. -/
inductive ColumnStep (tableName : String) (tableId : ℕ) (column : ColumnDef) (m : IndexManager) : Prop
  | none (hname : columnIndexName tableName column = none)
      (hrun : createColumnIndex tableName tableId column m = .ok () m)
  | entered (d : IndexDef) (hname : columnIndexName tableName column = some d.name)
      (hrun : createColumnIndex tableName tableId column m = .ok () (m.withIndex d))
      (hfresh : column.primaryKey = true ∨ d.name ∉ m.indexes)
  | refused (e : Failure) (m' : IndexManager) (hkey : column.primaryKey = false)
      (hname : columnIndexName tableName column = some s!"unique_{tableName}_{column.name}")
      (hmem : s!"unique_{tableName}_{column.name}" ∈ m.indexes)
      (hrun : createColumnIndex tableName tableId column m = .error e m') (hsame : SameMaps m m')

theorem columnStep (tableName : String) (tableId : ℕ) (column : ColumnDef) (m : IndexManager) :
    ColumnStep tableName tableId column m := by
  by_cases hkey : column.primaryKey
  · refine .entered ⟨m.nextIndexId, s!"pk_{tableName}", tableId, [column.name], .btree, true, true, true⟩
      (if_pos hkey) ?_ (.inl hkey)
    rw [createColumnIndex, if_pos hkey]
    rfl
  by_cases hunique : column.unique
  · have hname : columnIndexName tableName column = some s!"unique_{tableName}_{column.name}" := by
      rw [columnIndexName, if_neg hkey, if_pos hunique]
    have hrun : createColumnIndex tableName tableId column m =
        (discard <| createIndex s!"unique_{tableName}_{column.name}" tableId [column.name] .btree true)
          m := by
      rw [createColumnIndex, if_neg hkey, if_pos hunique]
    by_cases hmem : s!"unique_{tableName}_{column.name}" ∈ m.indexes
    · have hfail := bind_of_error (f := fun _ => pure ()) (createIndex_of_mem hmem tableId [column.name]
        .btree true)
      exact .refused _ _ (by simpa using hkey) hname hmem (hrun.trans hfail) ⟨rfl, rfl⟩
    · refine .entered ⟨m.nextIndexId, s!"unique_{tableName}_{column.name}", tableId, [column.name], .btree,
        true, false, false⟩ hname ?_ (.inr hmem)
      rw [hrun]
      exact bind_of_ok (createIndex_of_notMem hmem ..)
  · refine .none ?_ ?_
    · rw [columnIndexName, if_neg hkey, if_neg hunique]
    · rw [createColumnIndex, if_neg hkey, if_neg hunique]
      rfl

section Columns

variable {column : ColumnDef} {columns : List ColumnDef} {tableName : String} {tableId : ℕ}
  {m₀ m₁ : IndexManager}

theorem createColumnIndexes_of_ok (h : createColumnIndex tableName tableId column m = .ok () m₁) :
    createColumnIndexes tableName tableId (column :: columns) m =
      createColumnIndexes tableName tableId columns m₁ :=
  bind_of_ok h

theorem createColumnIndexes_of_error {e : Failure}
    (h : createColumnIndex tableName tableId column m = .error e m₁) :
    createColumnIndexes tableName tableId (column :: columns) m = .error e m₁ :=
  bind_of_error h

theorem SameMaps.coherent (hs : SameMaps m m₁) (h : m.Coherent) : m₁.Coherent := by
  obtain ⟨hi, ht⟩ := hs
  have hlisted (t : ℕ) : m₁.listed t = m.listed t := by rw [listed, ht, listed]
  refine ⟨fun t n hn => ?_, fun n d hd => ?_, fun t => ?_⟩
  · rw [hi]
    exact h.named t n (hlisted t ▸ hn)
  · rw [hlisted]
    exact h.once n d (hi ▸ hd)
  · rw [hlisted]
    exact h.nodup t

theorem SameMaps.misplaced (hs : SameMaps m m₁) (h : m.Misplaced) : m₁.Misplaced := by
  obtain ⟨n, d, hd, hcase⟩ := h
  have hlisted (t : ℕ) : m₁.listed t = m.listed t := by rw [listed, hs.2, listed]
  exact ⟨n, d, by rw [hs.1, hd], by simpa only [hlisted] using hcase⟩

/-- What entering indexes and refusals keep, the indexes of a new table keep. -/
theorem keeps_createColumnIndexes {I : IndexManager → Prop} (henter : ∀ m d, I m → I (m.withIndex d))
    (hsame : ∀ m m', SameMaps m m' → I m → I m') :
    Keeps I (createColumnIndexes tableName tableId columns) := by
  induction columns with
  | nil => exact Keeps.pure _
  | cons column columns ih =>
    refine Keeps.bind (fun m hm => ?_) fun _ => ih
    cases columnStep tableName tableId column m with
    | none _ hrun => exact Spec.of_ok hrun hm
    | entered d _ hrun _ => exact Spec.of_ok hrun (henter m d hm)
    | refused e m' _ _ _ hrun hs =>
      rw [Spec, hrun]
      exact hsame m m' hs hm

/-- A run leaves the maps in agreement, and, if it fails, as they were in `m₀`. -/
def Orderly {α : Type} (m₀ : IndexManager) (x : Call α) (m : IndexManager) : Prop :=
  (final x m).Coherent ∧ ∀ e m', x m = .error e m' → SameMaps m₀ m'

theorem not_orderly_of_misplaced (h : m.Misplaced) :
    ¬ Orderly m₀ (createColumnIndexes tableName tableId columns) m := by
  rintro ⟨hc, -⟩
  have hkeeps : Keeps Misplaced (createColumnIndexes tableName tableId columns) :=
    keeps_createColumnIndexes (fun _ _ h => h.withIndex) fun _ _ hs h => hs.misplaced h
  exact (hkeeps.final h).not_coherent hc

theorem fresh_cons_of_none (hname : columnIndexName tableName column = none) :
    Fresh m tableName (column :: columns) ↔ Fresh m tableName columns := by
  rw [Fresh, List.filterMap_cons_none hname, Fresh]

theorem fresh_cons_of_some (hname : columnIndexName tableName column = some d.name) :
    Fresh m tableName (column :: columns) ↔
      d.name ∉ m.indexes ∧ Fresh (m.withIndex d) tableName columns := by
  rw [Fresh, List.filterMap_cons_some hname, Fresh, List.nodup_cons, List.forall_mem_cons]
  constructor
  · rintro ⟨⟨hnot, hnodup⟩, hd, hnew⟩
    refine ⟨hd, hnodup, fun n hn => ?_⟩
    rw [mem_withIndex]
    rintro (rfl | hmem)
    · exact hnot hn
    · exact hnew n hn hmem
  · rintro ⟨hd, hnodup, hnew⟩
    simp only [mem_withIndex, not_or] at hnew
    exact ⟨⟨fun hmem => (hnew _ hmem).1 rfl, hnodup⟩, hd, fun n hn => (hnew n hn).2⟩

/-- Once an index has been entered, a failure would come too late. -/
theorem orderly_touched_iff (h : m.Coherent) {k : String} (hk₀ : k ∉ m₀.indexes) (hk : k ∈ m.indexes) :
    Orderly m₀ (createColumnIndexes tableName tableId columns) m ↔ Fresh m tableName columns := by
  induction columns generalizing m with
  | nil => exact iff_of_true ⟨h, fun _ _ he => by cases he⟩ ⟨List.nodup_nil, by simp⟩
  | cons column columns ih =>
    cases columnStep tableName tableId column m with
    | none hname hrun =>
      rw [fresh_cons_of_none hname, ← ih h hk, Orderly, Orderly, final,
        createColumnIndexes_of_ok hrun, final]
    | entered d hname hrun _ =>
      rw [fresh_cons_of_some hname]
      have hnext : Orderly m₀ (createColumnIndexes tableName tableId (column :: columns)) m ↔
          Orderly m₀ (createColumnIndexes tableName tableId columns) (m.withIndex d) := by
        rw [Orderly, Orderly, final, createColumnIndexes_of_ok hrun, final]
      rw [hnext]
      by_cases hd : d.name ∈ m.indexes
      · exact iff_of_false (not_orderly_of_misplaced (h.misplaced hd)) fun hf => hf.1 hd
      · rw [ih (h.withIndex hd) (mem_withIndex.mpr (.inr hk)), and_iff_right hd]
    | refused e m' _ hname hmem hrun hs =>
      apply iff_of_false
      · intro ho
        have hsame := ho.2 e m' (createColumnIndexes_of_error hrun)
        rw [← hs.1, hsame.1] at hk
        exact hk₀ hk
      · intro hf
        refine hf.2 _ ?_ hmem
        rw [List.filterMap_cons_some hname]
        exact List.mem_cons_self ..

/-- The indexes of a new table are created in order if they are all new, or refused at the first. -/
theorem orderly_createColumnIndexes_iff (h : m.Coherent) :
    Orderly m (createColumnIndexes tableName tableId columns) m ↔
      Fresh m tableName columns ∨ Refused m tableName columns := by
  induction columns with
  | nil => exact iff_of_true ⟨h, fun _ _ he => by cases he⟩ (.inl ⟨List.nodup_nil, by simp⟩)
  | cons column columns ih =>
    cases columnStep tableName tableId column m with
    | none hname hrun =>
      have hplain : (column.primaryKey || column.unique) = false := by
        by_contra hindex
        rw [columnIndexName] at hname
        split at hname
        · cases hname
        · split at hname <;> simp_all
      have hrefused : Refused m tableName (column :: columns) ↔ Refused m tableName columns := by
        rw [Refused, List.find?_cons, hplain, Refused]
      rw [fresh_cons_of_none hname, hrefused, ← ih, Orderly, Orderly, final,
        createColumnIndexes_of_ok hrun, final]
    | entered d hname hrun hfresh =>
      have hindex : (column.primaryKey || column.unique) = true := by
        rw [columnIndexName] at hname
        split at hname
        · next hkey => simp [hkey]
        · split at hname
          · next hunique => simp [hunique]
          · cases hname
      have hnext : Orderly m (createColumnIndexes tableName tableId (column :: columns)) m ↔
          Orderly m (createColumnIndexes tableName tableId columns) (m.withIndex d) := by
        rw [Orderly, Orderly, final, createColumnIndexes_of_ok hrun, final]
      -- the call is not refused at this index
      have hrefused : ¬ Refused m tableName (column :: columns) := by
        rintro ⟨first, hfirst, hkey, hmem⟩
        rw [List.find?_cons, hindex] at hfirst
        cases hfirst
        rcases hfresh with hprimary | hnew
        · rw [hprimary] at hkey
          cases hkey
        · rw [columnIndexName, if_neg (by simp [hkey]), if_pos (by simpa [hkey] using hindex),
            Option.some.injEq] at hname
          exact hnew (hname ▸ hmem)
      rw [hnext, or_iff_left hrefused, fresh_cons_of_some hname]
      by_cases hd : d.name ∈ m.indexes
      · exact iff_of_false (not_orderly_of_misplaced (h.misplaced hd)) fun hf => hf.1 hd
      · rw [orderly_touched_iff (h.withIndex hd) hd (mem_withIndex.mpr (.inl rfl)), and_iff_right hd]
    | refused e m' hkey hname hmem hrun hs =>
      refine iff_of_true ⟨?_, fun e' m'' he => ?_⟩ (.inr ⟨column, ?_, hkey, hmem⟩)
      · rw [final, createColumnIndexes_of_error hrun]
        exact hs.coherent h
      · rw [createColumnIndexes_of_error hrun] at he
        cases he
        exact hs
      · rw [List.find?_cons]
        rw [columnIndexName, if_neg (by simp [hkey])] at hname
        split at hname
        · next hunique => simp [hunique]
        · cases hname

end Columns

end IndexManager

end Rustgresql
