import Rustgresql.Executor.Alter
import Rustgresql.Executor.DdlError

/-!
# The rows of `pg_table` and `pg_column`

CREATE TABLE and ALTER TABLE enter tables and columns into the catalog's own tables. `mirrors_of_run`:
every user table has its one row in `pg_table` and the rows of its columns in `pg_column`, with their
current names and positions. The rows of a table that is dropped stay.
-/

namespace Rustgresql

open StateSpec

/-- A value is a number. -/
def Value.isInteger (n : ℤ) : Option Value → Bool
  | some (.integer i) => i == n
  | _ => false

namespace SystemTableManager

/-- Update the entire table definition (for ALTER TABLE operations). The number of the table is preserved.
The rows of its columns are removed from `pg_column` and entered again. -/
def updateTableDefinition (tableName : String) (newDef : TableDef) : Call Unit := do
  match (← get).tables.lookup tableName with
  | none => throw (.err (.notFound s!"Table '{tableName}' not found"))
  | some table =>
    let tableId := table.definition.tableId
    modify fun m => { m with
      tables := HashMap.adjust tableName
        (fun t => { t with definition := { newDef with tableId := tableId } }) m.tables }
    modify fun m => { m with
      tables := HashMap.adjust "pg_column"
        (fun t => { t with
          data := (t.data.filter fun row => !Value.isInteger tableId row[1]?) ++
            columnRows tableId newDef.columns }) m.tables }

/-- Find the column to remove or to rename. -/
def findColumn (tableName : String) (tableDef : TableDef) : AlterOperation → Call Unit
  | .addColumn _ => pure ()
  | .dropColumn columnName | .renameColumn columnName _ =>
    require (columnName ∈ tableDef.columnNames) (.err (.columnNotFound columnName tableName .alter))

/-- ADD COLUMN, DROP COLUMN and RENAME COLUMN, after their validation. -/
def executeColumnOperation (op : AlterOperation) (tableName : String) : Call Unit := do
  match getTable tableName (← get) with
  | none => throw (.err (.tableNotFound tableName .alter))
  | some tableDef =>
    findColumn tableName tableDef op
    updateTableDefinition tableName (op.newDefinition tableDef)

/-- RENAME TABLE: the catalog has no call that renames. -/
def executeRenameTable (newName : String) : Call Unit := do
  require (getTable newName (← get) = none) (.err (.tableAlreadyExists newName))

end SystemTableManager

/-- Creations, drops and alterations of tables. -/
inductive TableOp
  | createTable (name : String) (columns : List ColumnDef)
  | dropTable (name : String)
  | alterColumns (tableName : String) (op : AlterOperation)
  | renameTable (oldName newName : String)

namespace TableOp

open SystemTableManager

def call : TableOp → SystemTableManager.Call Unit
  | .createTable name columns => discard (SystemTableManager.createTable name columns)
  | .dropTable name => SystemTableManager.dropTable name
  | .alterColumns tableName op => executeColumnOperation op tableName
  | .renameTable _ newName => executeRenameTable newName

/-- The tables after a list of operations. -/
def run (ops : List TableOp) : SystemTableManager := ops.foldl (fun m op => final op.call m) .new

end TableOp

namespace SystemTableManager

/-! ## Tables and rows -/

/-- The table is not one of the catalog's own. -/
def IsUser (name : String) : Prop := name ≠ "pg_table" ∧ name ≠ "pg_column"

/-- The rows of a table. -/
def rows (m : SystemTableManager) (name : String) : List Row := (m.tables.lookup name).elim [] SystemTable.data

/-- What the catalog shows of its tables: the definitions of the user tables, and the rows of its own. -/
structure Shows (m : SystemTableManager) (definitions : String → Option TableDef)
    (tableRows columnRows : List Row) : Prop where
  definitions : ∀ name, IsUser name → m.getTable name = definitions name
  tables : (m.tables.lookup "pg_table").map SystemTable.data = some tableRows
  columns : (m.tables.lookup "pg_column").map SystemTable.data = some columnRows

variable {m : SystemTableManager} {definitions : String → Option TableDef} {tableRows colRows : List Row}
  {name : String} {t : SystemTable}

theorem getTable_insert (m : SystemTableManager) (name k : String) (t : SystemTable) (next : ℕ) :
    getTable k ⟨m.tables.insert name t, next⟩ =
      if k = name then some t.definition else m.getTable k := by
  unfold getTable
  rw [HashMap.lookup_insert_eq]
  split
  · rfl
  · rfl

theorem Shows.insert (h : m.Shows definitions tableRows colRows) (hname : IsUser name) (t : SystemTable)
    (next : ℕ) :
    Shows ⟨m.tables.insert name t, next⟩ (Function.update definitions name (some t.definition)) tableRows
      colRows := by
  refine ⟨fun k hk => ?_, ?_, ?_⟩
  · rw [getTable_insert, Function.update_apply, h.definitions k hk]
  · rw [HashMap.lookup_insert_eq, if_neg (Ne.symm hname.1)]
    exact h.tables
  · rw [HashMap.lookup_insert_eq, if_neg (Ne.symm hname.2)]
    exact h.columns

theorem Shows.erase (h : m.Shows definitions tableRows colRows) (hname : IsUser name) :
    Shows { m with tables := m.tables.erase name } (Function.update definitions name none) tableRows
      colRows := by
  refine ⟨fun k hk => ?_, ?_, ?_⟩
  · rw [Function.update_apply, ← h.definitions k hk]
    unfold getTable
    rw [HashMap.lookup_erase_eq]
    split
    · rfl
    · rfl
  · rw [HashMap.lookup_erase_eq, if_neg (Ne.symm hname.1)]
    exact h.tables
  · rw [HashMap.lookup_erase_eq, if_neg (Ne.symm hname.2)]
    exact h.columns

/-- A change to a definition. -/
theorem Shows.adjust (h : m.Shows definitions tableRows colRows) (hname : IsUser name) (f : TableDef → TableDef) :
    Shows { m with
      tables := HashMap.adjust name (fun t => { t with definition := f t.definition }) m.tables }
      (Function.update definitions name ((definitions name).map f)) tableRows colRows := by
  refine ⟨fun k hk => ?_, ?_, ?_⟩
  · rw [Function.update_apply, ← h.definitions k hk, ← h.definitions name hname]
    unfold getTable
    rw [HashMap.lookup_adjust]
    split
    · next heq =>
      rw [heq, Option.map_map, Option.map_map]
      rfl
    · rfl
  · rw [HashMap.lookup_adjust, if_neg (Ne.symm hname.1)]
    exact h.tables
  · rw [HashMap.lookup_adjust, if_neg (Ne.symm hname.2)]
    exact h.columns

theorem Shows.adjust_pgTable (h : m.Shows definitions tableRows colRows) (f : List Row → List Row) :
    Shows { m with tables := HashMap.adjust "pg_table" (fun t => { t with data := f t.data }) m.tables }
      definitions (f tableRows) colRows := by
  refine ⟨fun k hk => ?_, ?_, ?_⟩
  · rw [← h.definitions k hk]
    unfold getTable
    rw [HashMap.lookup_adjust, if_neg hk.1]
  · rw [HashMap.lookup_adjust, if_pos rfl, Option.map_map]
    have htables := congrArg (Option.map f) h.tables
    rwa [Option.map_map] at htables
  · rw [HashMap.lookup_adjust, if_neg (by decide)]
    exact h.columns

theorem Shows.adjust_pgColumn (h : m.Shows definitions tableRows colRows) (f : List Row → List Row) :
    Shows { m with tables := HashMap.adjust "pg_column" (fun t => { t with data := f t.data }) m.tables }
      definitions tableRows (f colRows) := by
  refine ⟨fun k hk => ?_, ?_, ?_⟩
  · rw [← h.definitions k hk]
    unfold getTable
    rw [HashMap.lookup_adjust, if_neg hk.2]
  · rw [HashMap.lookup_adjust, if_neg (by decide)]
    exact h.tables
  · rw [HashMap.lookup_adjust, if_pos rfl, Option.map_map]
    have hcolumns := congrArg (Option.map f) h.columns
    rwa [Option.map_map] at hcolumns

/-- The row of a table in `pg_table`. -/
def tableRow (t : TableDef) : Row := [.integer t.tableId, .string t.name, .integer 1]

theorem shows_createTable (h : m.Shows definitions tableRows colRows) (hname : IsUser name)
    (columns : List ColumnDef) :
    Shows (final (createTable name columns) m)
      (Function.update definitions name (some ⟨m.nextTableId, name, 1, columns, []⟩))
      (tableRows ++ [tableRow ⟨m.nextTableId, name, 1, columns, []⟩])
      (colRows ++ columnRows m.nextTableId columns) := by
  have hinsert := h.insert hname ⟨⟨m.nextTableId, name, 1, columns, []⟩, []⟩ (m.nextTableId + 1)
  have htable := hinsert.adjust_pgTable (· ++ [tableRow ⟨m.nextTableId, name, 1, columns, []⟩])
  exact htable.adjust_pgColumn (· ++ columnRows m.nextTableId columns)

theorem shows_updateTableDefinition (h : m.Shows definitions tableRows colRows) (hname : IsUser name)
    {tableDef : TableDef} (htable : m.getTable name = some tableDef) (newDef : TableDef) :
    Shows (final (updateTableDefinition name newDef) m)
      (Function.update definitions name (some { newDef with tableId := tableDef.tableId })) tableRows
      ((colRows.filter fun row => !Value.isInteger tableDef.tableId row[1]?) ++
        columnRows tableDef.tableId newDef.columns) := by
  obtain ⟨table, hlookup, rfl⟩ := Option.map_eq_some_iff.mp htable
  have hdefinition : definitions name = some table.definition := (h.definitions name hname).symm.trans htable
  have hadjust := h.adjust hname fun _ => { newDef with tableId := table.definition.tableId }
  rw [hdefinition] at hadjust
  have hcolumns := hadjust.adjust_pgColumn fun data =>
    (data.filter fun row => !Value.isInteger table.definition.tableId row[1]?) ++
      columnRows table.definition.tableId newDef.columns
  unfold updateTableDefinition final
  rw [get_bind, hlookup]
  exact hcolumns

theorem newDefinition_name (op : AlterOperation) (t : TableDef) : (op.newDefinition t).name = t.name := by
  rcases op with column | columnName | ⟨oldName, newName⟩
  · rfl
  · rfl
  · rfl

theorem findColumn_cases (tableName : String) (tableDef : TableDef) (op : AlterOperation)
    (m : SystemTableManager) :
    (findColumn tableName tableDef op m = .ok () m) ∨ ∃ e, findColumn tableName tableDef op m = .error e m := by
  have hrequire (columnName : String) (e : Failure) :
      require (columnName ∈ tableDef.columnNames) e m = .ok () m ∨
        ∃ e', require (columnName ∈ tableDef.columnNames) e m = .error e' m := by
    by_cases hmem : columnName ∈ tableDef.columnNames
    · exact .inl (require_of hmem e m)
    · exact .inr ⟨e, require_of_not hmem e m⟩
  rcases op with column | columnName | ⟨oldName, newName⟩
  · exact .inl rfl
  · exact hrequire columnName _
  · exact hrequire oldName _

/-- An operation on columns fails and changes nothing, or updates the definition. -/
theorem executeColumnOperation_cases (op : AlterOperation) (name : String) (m : SystemTableManager) :
    final (executeColumnOperation op name) m = m ∨
      ∃ tableDef, m.getTable name = some tableDef ∧
        final (executeColumnOperation op name) m =
          final (updateTableDefinition name (op.newDefinition tableDef)) m := by
  have hget : final (executeColumnOperation op name) m = final (match m.getTable name with
      | none => throw (.err (.tableNotFound name .alter))
      | some tableDef => do
        findColumn name tableDef op
        updateTableDefinition name (op.newDefinition tableDef)) m := rfl
  rw [hget]
  rcases m.getTable name with - | tableDef
  · exact .inl rfl
  · rcases findColumn_cases name tableDef op m with hfound | ⟨e, hmissing⟩
    · exact .inr ⟨tableDef, rfl, final_bind_of_ok hfound⟩
    · exact .inl (final_bind_of_error hmissing)

theorem final_executeRenameTable (newName : String) (m : SystemTableManager) :
    final (executeRenameTable newName) m = m := by
  have hget : final (executeRenameTable newName) m =
      final (require (m.getTable newName = none) (Failure.err (.tableAlreadyExists newName))) m := rfl
  rw [hget]
  by_cases hnew : m.getTable newName = none
  · rw [final, require_of hnew]
  · rw [final, require_of_not hnew]

/-! ## Rows of a table -/

/-- A row has a number in a column. -/
def hasNumber (k : ℕ) (n : ℕ) (row : Row) : Bool := Value.isInteger n row[k]?

theorem filter_columnRows_self (n : ℕ) (columns : List ColumnDef) :
    (columnRows n columns).filter (hasNumber 1 n) = columnRows n columns := by
  apply List.filter_eq_self.mpr
  intro row hrow
  obtain ⟨p, -, rfl⟩ := List.mem_map.mp hrow
  exact beq_self_eq_true (n : ℤ)

theorem filter_columnRows_of_ne {n n' : ℕ} (h : n ≠ n') (columns : List ColumnDef) :
    (columnRows n' columns).filter (hasNumber 1 n) = [] := by
  apply List.filter_eq_nil_iff.mpr
  intro row hrow
  obtain ⟨p, -, rfl⟩ := List.mem_map.mp hrow
  have hne : (n' : ℤ) ≠ n := fun heq => h (Int.ofNat_inj.mp heq).symm
  exact fun htrue => hne (beq_iff_eq.mp htrue)

theorem filter_tableRow_self (t : TableDef) : [tableRow t].filter (hasNumber 0 t.tableId) = [tableRow t] := by
  apply List.filter_eq_self.mpr
  intro row hrow
  obtain rfl := List.mem_singleton.mp hrow
  exact beq_self_eq_true (t.tableId : ℤ)

theorem filter_tableRow_of_ne {n : ℕ} {t : TableDef} (h : n ≠ t.tableId) :
    [tableRow t].filter (hasNumber 0 n) = [] := by
  apply List.filter_eq_nil_iff.mpr
  intro row hrow
  obtain rfl := List.mem_singleton.mp hrow
  have hne : (t.tableId : ℤ) ≠ n := fun heq => h (Int.ofNat_inj.mp heq).symm
  exact fun htrue => hne (beq_iff_eq.mp htrue)

theorem hasNumber_unique {k n n' : ℕ} {row : Row} (h : hasNumber k n row = true)
    (h' : hasNumber k n' row = true) : n = n' := by
  unfold hasNumber Value.isInteger at h h'
  split at h
  · next i hi =>
    rw [hi] at h'
    have hn : i = n := beq_iff_eq.mp h
    have hn' : i = n' := beq_iff_eq.mp h'
    omega
  · cases h

/-- What the rows have to do with the definitions: every user table has its row in `pg_table` and the rows
of its columns in `pg_column`, and a number of its own, and rows have numbers that were handed out. -/
structure Mirrored (nextTableId : ℕ) (definitions : String → Option TableDef)
    (tableRows colRows : List Row) : Prop where
  below : ∀ name t, IsUser name → definitions name = some t → t.tableId < nextTableId
  distinct : ∀ name name' t t', IsUser name → IsUser name' → definitions name = some t →
    definitions name' = some t' → t.tableId = t'.tableId → name = name'
  tables : ∀ name t, IsUser name → definitions name = some t →
    tableRows.filter (hasNumber 0 t.tableId) = [tableRow t]
  columns : ∀ name t, IsUser name → definitions name = some t →
    colRows.filter (hasNumber 1 t.tableId) = columnRows t.tableId t.columns
  tableRowsBelow : ∀ n, nextTableId ≤ n → tableRows.filter (hasNumber 0 n) = []
  columnRowsBelow : ∀ n, nextTableId ≤ n → colRows.filter (hasNumber 1 n) = []

variable {next : ℕ}

theorem Mirrored.create (h : Mirrored next definitions tableRows colRows) (name : String)
    (columns : List ColumnDef) :
    Mirrored (next + 1) (Function.update definitions name (some ⟨next, name, 1, columns, []⟩))
      (tableRows ++ [tableRow ⟨next, name, 1, columns, []⟩]) (colRows ++ columnRows next columns) := by
  -- the new table, or an older one
  have hcases : ∀ k t, IsUser k →
      Function.update definitions name (some ⟨next, name, 1, columns, []⟩) k = some t →
        (k = name ∧ t = ⟨next, name, 1, columns, []⟩) ∨ (definitions k = some t ∧ t.tableId < next) := by
    intro k t hk ht
    rw [Function.update_apply] at ht
    split at ht
    · next heq => exact .inl ⟨heq, (Option.some.inj ht).symm⟩
    · exact .inr ⟨ht, h.below k t hk ht⟩
  refine ⟨fun k t hk ht => ?_, fun k k' t t' hk hk' ht ht' hid => ?_, fun k t hk ht => ?_,
    fun k t hk ht => ?_, fun n hn => ?_, fun n hn => ?_⟩
  · obtain ⟨-, rfl⟩ | ⟨-, hlt⟩ := hcases k t hk ht
    · exact Nat.lt_succ_self next
    · omega
  · obtain ⟨rfl, rfl⟩ | ⟨hold, hlt⟩ := hcases k t hk ht
    · obtain ⟨rfl, -⟩ | ⟨-, hlt'⟩ := hcases k' t' hk' ht'
      · rfl
      · dsimp only at hid
        omega
    · obtain ⟨-, rfl⟩ | ⟨hold', -⟩ := hcases k' t' hk' ht'
      · dsimp only at hid
        omega
      · exact h.distinct k k' t t' hk hk' hold hold' hid
  · rw [List.filter_append]
    obtain ⟨-, rfl⟩ | ⟨hold, hlt⟩ := hcases k t hk ht
    · rw [h.tableRowsBelow next le_rfl, List.nil_append]
      exact filter_tableRow_self _
    · rw [h.tables k t hk hold, filter_tableRow_of_ne (Nat.ne_of_lt hlt), List.append_nil]
  · rw [List.filter_append]
    obtain ⟨-, rfl⟩ | ⟨hold, hlt⟩ := hcases k t hk ht
    · rw [h.columnRowsBelow next le_rfl, List.nil_append]
      exact filter_columnRows_self next columns
    · rw [h.columns k t hk hold, filter_columnRows_of_ne (Nat.ne_of_lt hlt), List.append_nil]
  · rw [List.filter_append, h.tableRowsBelow n (by omega), List.nil_append]
    exact filter_tableRow_of_ne (by dsimp only; omega)
  · rw [List.filter_append, h.columnRowsBelow n (by omega), List.nil_append]
    exact filter_columnRows_of_ne (by omega) columns

theorem Mirrored.drop (h : Mirrored next definitions tableRows colRows) (name : String) :
    Mirrored next (Function.update definitions name none) tableRows colRows := by
  have hold : ∀ k t, Function.update definitions name none k = some t → definitions k = some t := by
    intro k t ht
    rw [Function.update_apply] at ht
    split at ht
    · cases ht
    · exact ht
  exact ⟨fun k t hk ht => h.below k t hk (hold k t ht),
    fun k k' t t' hk hk' ht ht' => h.distinct k k' t t' hk hk' (hold k t ht) (hold k' t' ht'),
    fun k t hk ht => h.tables k t hk (hold k t ht), fun k t hk ht => h.columns k t hk (hold k t ht),
    h.tableRowsBelow, h.columnRowsBelow⟩

theorem Mirrored.update (h : Mirrored next definitions tableRows colRows) (hname : IsUser name)
    {tableDef newDef : TableDef} (htable : definitions name = some tableDef)
    (hid : newDef.tableId = tableDef.tableId) (hnew : newDef.name = tableDef.name) :
    Mirrored next (Function.update definitions name (some newDef)) tableRows
      ((colRows.filter fun row => !hasNumber 1 tableDef.tableId row) ++
        columnRows tableDef.tableId newDef.columns) := by
  have hcases : ∀ k t, Function.update definitions name (some newDef) k = some t →
      (k = name ∧ t = newDef) ∨ (k ≠ name ∧ definitions k = some t) := by
    intro k t ht
    rw [Function.update_apply] at ht
    split at ht
    · next heq => exact .inl ⟨heq, (Option.some.inj ht).symm⟩
    · next hne => exact .inr ⟨hne, ht⟩
  -- the rows of other tables stay
  have hfilter : ∀ n, n ≠ tableDef.tableId →
      ((colRows.filter fun row => !hasNumber 1 tableDef.tableId row) ++
        columnRows tableDef.tableId newDef.columns).filter (hasNumber 1 n) =
          colRows.filter (hasNumber 1 n) := by
    intro n hn
    rw [List.filter_append, filter_columnRows_of_ne hn, List.append_nil, List.filter_filter]
    apply List.filter_congr
    intro row _
    rcases hrow : hasNumber 1 n row with - | -
    · rw [Bool.false_and]
    · have hother : hasNumber 1 tableDef.tableId row = false :=
        Bool.eq_false_iff.mpr fun htrue => hn (hasNumber_unique hrow htrue)
      rw [hother]
      rfl
  refine ⟨fun k t hk ht => ?_, fun k k' t t' hk hk' ht ht' heq => ?_, fun k t hk ht => ?_,
    fun k t hk ht => ?_, h.tableRowsBelow, fun n hn => ?_⟩
  · obtain ⟨-, rfl⟩ | ⟨-, hold⟩ := hcases k t ht
    · rw [hid]
      exact h.below name tableDef hname htable
    · exact h.below k t hk hold
  · obtain ⟨rfl, rfl⟩ | ⟨-, hold⟩ := hcases k t ht
    · obtain ⟨rfl, -⟩ | ⟨-, hold'⟩ := hcases k' t' ht'
      · rfl
      · exact h.distinct k k' tableDef t' hk hk' htable hold' (hid.symm.trans heq)
    · obtain ⟨rfl, rfl⟩ | ⟨-, hold'⟩ := hcases k' t' ht'
      · exact h.distinct k k' t tableDef hk hk' hold htable (heq.trans hid)
      · exact h.distinct k k' t t' hk hk' hold hold' heq
  · obtain ⟨-, rfl⟩ | ⟨-, hold⟩ := hcases k t ht
    · have hrow : tableRow t = tableRow tableDef := by
        unfold tableRow
        rw [hid, hnew]
      rw [hid, hrow]
      exact h.tables name tableDef hname htable
    · exact h.tables k t hk hold
  · obtain ⟨-, rfl⟩ | ⟨hne, hold⟩ := hcases k t ht
    · rw [hid, List.filter_append, filter_columnRows_self, List.filter_filter]
      have hnone : (colRows.filter fun row =>
          hasNumber 1 tableDef.tableId row && !hasNumber 1 tableDef.tableId row) = [] := by
        apply List.filter_eq_nil_iff.mpr
        intro row _
        rw [Bool.and_not_self]
        exact Bool.false_ne_true
      rw [hnone, List.nil_append]
    · have hother : t.tableId ≠ tableDef.tableId :=
        fun heq => hne (h.distinct k name t tableDef hk hname hold htable heq)
      rw [hfilter t.tableId hother]
      exact h.columns k t hk hold
  · have hlt := h.below name tableDef hname htable
    rw [hfilter n (by omega)]
    exact h.columnRowsBelow n hn

theorem nextTableId_updateTableDefinition (name : String) (newDef : TableDef) (m : SystemTableManager) :
    (final (updateTableDefinition name newDef) m).nextTableId = m.nextTableId := by
  unfold updateTableDefinition final
  rw [get_bind]
  rcases m.tables.lookup name with - | table
  · rfl
  · rfl

/-- The catalog's own tables are there and mirror the user tables. -/
def InStep (m : SystemTableManager) : Prop :=
  ∃ definitions tableRows colRows, m.Shows definitions tableRows colRows ∧
    Mirrored m.nextTableId definitions tableRows colRows

theorem inStep_new : InStep new := by
  refine ⟨fun _ => none, [], [], ⟨fun name hname => ?_, rfl, rfl⟩, ?_⟩
  · unfold getTable new
    dsimp only
    rw [HashMap.lookup_insert_eq, if_neg hname.2, HashMap.lookup_insert_eq, if_neg hname.1]
    rfl
  · exact ⟨nofun, nofun, nofun, nofun, fun _ _ => rfl, fun _ _ => rfl⟩

end SystemTableManager

namespace TableOp

open SystemTableManager

/-- The operation is on user tables. -/
def OnUserTable : TableOp → Prop
  | createTable name _ => IsUser name
  | dropTable name => IsUser name
  | alterColumns tableName _ => IsUser tableName
  | renameTable _ _ => True

variable {m : SystemTableManager}

theorem inStep_step (h : m.InStep) {op : TableOp} (hop : op.OnUserTable) : (final op.call m).InStep := by
  obtain ⟨definitions, tableRows, colRows, hshows, hmirrored⟩ := h
  rcases op with ⟨name, columns⟩ | name | ⟨tableName, op⟩ | ⟨oldName, newName⟩
  · unfold call
    rw [final_discard]
    exact ⟨_, _, _, shows_createTable hshows hop columns, hmirrored.create name columns⟩
  · exact ⟨_, _, _, hshows.erase hop, hmirrored.drop name⟩
  · unfold call
    rcases executeColumnOperation_cases op tableName m with hsame | ⟨tableDef, htable, hupdate⟩
    · rw [hsame]
      exact ⟨definitions, tableRows, colRows, hshows, hmirrored⟩
    · rw [hupdate]
      refine ⟨_, _, _, shows_updateTableDefinition hshows hop htable (op.newDefinition tableDef), ?_⟩
      rw [nextTableId_updateTableDefinition]
      rw [hshows.definitions tableName hop] at htable
      exact hmirrored.update hop htable rfl (newDefinition_name op tableDef)
  · unfold call
    rw [final_executeRenameTable]
    exact ⟨definitions, tableRows, colRows, hshows, hmirrored⟩

theorem inStep_run {ops : List TableOp} (hops : ∀ op ∈ ops, op.OnUserTable) : (run ops).InStep := by
  induction ops using List.reverseRecOn with
  | nil => exact inStep_new
  | append_singleton ops op ih =>
    unfold run at ih ⊢
    rw [List.foldl_append, List.foldl_cons, List.foldl_nil]
    have hbefore := ih fun op' hop' => hops op' (List.mem_append_left _ hop')
    exact inStep_step hbefore (hops op (List.mem_append_right _ List.mem_cons_self))

/-- Every user table has one row in `pg_table`, the rows of its columns in `pg_column`, and a number of
its own. -/
def Mirrors (m : SystemTableManager) : Prop :=
  ∀ name t, IsUser name → m.getTable name = some t →
    (m.rows "pg_table").filter (hasNumber 0 t.tableId) = [tableRow t] ∧
      (m.rows "pg_column").filter (hasNumber 1 t.tableId) = columnRows t.tableId t.columns ∧
        ∀ name' t', IsUser name' → m.getTable name' = some t' → t'.tableId = t.tableId → name' = name

/-- The catalog's tables mirror the user tables after every sequence of operations on user tables. -/
theorem mirrors_of_run (ops : List TableOp) (hops : ∀ op ∈ ops, op.OnUserTable) : Mirrors (run ops) := by
  obtain ⟨definitions, tableRows, colRows, hshows, hmirrored⟩ := inStep_run hops
  intro name t hname ht
  have htables : (run ops).rows "pg_table" = tableRows := by
    obtain ⟨pgTable, hlookup, hdata⟩ := Option.map_eq_some_iff.mp hshows.tables
    unfold rows
    rw [hlookup]
    exact hdata
  have hcolumns : (run ops).rows "pg_column" = colRows := by
    obtain ⟨pgColumn, hlookup, hdata⟩ := Option.map_eq_some_iff.mp hshows.columns
    unfold rows
    rw [hlookup]
    exact hdata
  rw [htables, hcolumns]
  rw [hshows.definitions name hname] at ht
  refine ⟨hmirrored.tables name t hname ht, hmirrored.columns name t hname ht, fun name' t' hname' ht' hid => ?_⟩
  rw [hshows.definitions name' hname'] at ht'
  exact hmirrored.distinct name' name t' t hname' hname ht' ht hid

/-- A column of a type. -/
def column (name : String) (dataType : DataTypeKind) : ColumnDef :=
  ⟨0, name, dataType, true, none, false, false, none⟩

theorem mirrors_renamedColumn :
    Mirrors (run [.createTable "t" [column "a" .integer], .alterColumns "t" (.renameColumn "a" "b")]) := by
  have huser : IsUser "t" := ⟨by decide, by decide⟩
  refine mirrors_of_run _ fun op hop => ?_
  rcases List.mem_pair.mp hop with rfl | rfl
  · exact huser
  · exact huser

/-- The types of columns can be read off their rows. -/
def ReadsTypes (typeOf : Row → Option DataTypeKind) (m : SystemTableManager) : Prop :=
  ∀ (name : String) (t : TableDef) (i : ℕ) (c : ColumnDef), IsUser name → m.getTable name = some t →
    t.columns[i]? = some c → typeOf [.integer i, .integer t.tableId, .string c.name] = some c.dataType

/-- Rows do not tell the types of columns, and a change to `pg_column` itself replaces the rows of the first
user table, which has the same number. -/
theorem not_mirrors_types :
    (¬ ∃ typeOf, ∀ ops, (∀ op ∈ ops, op.OnUserTable) → ReadsTypes typeOf (run ops)) ∧
      ¬ ∀ ops, Mirrors (run ops) := by
  have huser : IsUser "t" := ⟨by decide, by decide⟩
  constructor
  · rintro ⟨typeOf, h⟩
    have hread (dataType : DataTypeKind) :
        typeOf [.integer 0, .integer 1, .string "a"] = some dataType := by
      refine h [.createTable "t" [column "a" dataType]] ?_ "t" ⟨1, "t", 1, [column "a" dataType], []⟩ 0
        (column "a" dataType) huser rfl rfl
      intro op hop
      obtain rfl := List.mem_singleton.mp hop
      exact huser
    have hsame := (hread .integer).symm.trans (hread .text)
    cases hsame
  · intro h
    obtain ⟨-, hcolumns, -⟩ := h [.createTable "t" [column "a" .integer],
      .alterColumns "pg_column" (.addColumn (column "b" .integer))] "t"
        ⟨1, "t", 1, [column "a" .integer], []⟩ huser rfl
    have hlength := congrArg List.length hcolumns
    exact absurd hlength (by decide +kernel)

end TableOp

end Rustgresql
