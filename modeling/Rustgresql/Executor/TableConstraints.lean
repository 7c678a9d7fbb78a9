import Rustgresql.Executor.DdlStatement

/-!
# ADD CONSTRAINT and DROP CONSTRAINT (`executor/engine.rs`)

Both statements work on a copy of the table's definition that is never written back, and no constraint is found by its
name. `takesEffect_iff`: the definition shows what a sequence of these statements did only if it did nothing.
-/

namespace Rustgresql

open StateSpec

/-! ## Statements and what they are to do -/

/-- ADD CONSTRAINT, with the name that the constraint is given, and DROP CONSTRAINT -/
inductive ConstraintStatement
  | add (name : Option String) (constraint : NewConstraint)
  | drop (constraintName : String)

/-- The constraint as the catalog writes it -/
def NewConstraint.toCatalog : NewConstraint → Option TableConstraint
  | primaryKey columns => some (.primaryKey columns)
  | foreignKey columns refTable refColumns => some (.foreignKey columns refTable refColumns)
  | unique columns => some (.unique columns)
  | check _ (.ok condition) => some (.check condition)
  | check _ (.error _) => none

/-- The name of a constraint that is not given one -/
def TableConstraint.defaultName (tableName : String) : TableConstraint → String
  | primaryKey _ => s!"{tableName}_pkey"
  | foreignKey columns _ _ => s!"{tableName}_{CatalogManager.joined columns}_fkey"
  | unique columns => s!"{tableName}_{CatalogManager.joined columns}_key"
  | check _ => s!"{tableName}_check"
  | notNull column => s!"{tableName}_{column}_not_null"

/-- Constraints under their names -/
abbrev NamedConstraints := List (String × TableConstraint)

/-- The constraints of a definition, under the names that they have if they are not given others -/
def TableDef.namedConstraints (tableDef : TableDef) : NamedConstraints :=
  tableDef.constraints.map fun constraint => (constraint.defaultName tableDef.name, constraint)

namespace ConstraintStatement

/-- The statement on a table. The name of a new constraint is not looked at. -/
def ddl (tableName : String) : ConstraintStatement → DdlStatement
  | add _ constraint => .alterTable tableName (.addConstraint constraint)
  | drop constraintName => .alterTable tableName (.dropConstraint constraintName)

/-- The constraints after a statement that succeeds -/
def effect (tableName : String) (named : NamedConstraints) : ConstraintStatement → NamedConstraints
  | add name constraint => named ++ constraint.toCatalog.toList.map fun c => (name.getD (c.defaultName tableName), c)
  | drop constraintName => named.filter fun p => p.1 ≠ constraintName

end ConstraintStatement

/-! ## Definitions without constraints -/

namespace SystemTableManager

/-- No table has a constraint in its definition. -/
def Unconstrained (m : SystemTableManager) : Prop :=
  ∀ name table, m.tables.lookup name = some table → table.definition.constraints = []

variable {m : SystemTableManager}

theorem unconstrained_new : Unconstrained new := by
  intro name table h
  unfold new at h
  rw [HashMap.lookup_insert_eq, HashMap.lookup_insert_eq] at h
  split_ifs at h
  · cases h; rfl
  · cases h; rfl
  · cases h

theorem Unconstrained.insert (h : m.Unconstrained) (name : String) {table : SystemTable}
    (htable : table.definition.constraints = []) (next : ℕ) : Unconstrained ⟨m.tables.insert name table, next⟩ := by
  intro name' table' hlookup
  rw [HashMap.lookup_insert_eq] at hlookup
  split_ifs at hlookup
  · cases hlookup
    exact htable
  · exact h name' table' hlookup

theorem Unconstrained.adjust (h : m.Unconstrained) (name : String) {f : SystemTable → SystemTable}
    (hf : ∀ t, t.definition.constraints = [] → (f t).definition.constraints = []) :
    Unconstrained { m with tables := HashMap.adjust name f m.tables } := by
  intro name' table' hlookup
  rw [HashMap.lookup_adjust] at hlookup
  split_ifs at hlookup
  · obtain ⟨table, htable, rfl⟩ := Option.map_eq_some_iff.mp hlookup
    exact hf table (h name' table htable)
  · exact h name' table' hlookup

theorem keeps_unconstrained_createTable (name : String) (columns : List ColumnDef) :
    Keeps Unconstrained (createTable name columns) := by
  refine Keeps.get_bind fun m₀ => ?_
  dsimp only
  refine Keeps.bind (Keeps.modify fun m h => ?_) fun _ => Keeps.bind (Keeps.modify fun m h => ?_) fun _ =>
    Keeps.bind (Keeps.modify fun m h => ?_) fun _ => Keeps.bind (Keeps.modify fun m h => ?_) fun _ => Keeps.pure _
  · exact h
  · exact h.insert name rfl m.nextTableId
  · exact h.adjust "pg_table" fun t ht => ht
  · exact h.adjust "pg_column" fun t ht => ht

theorem keeps_unconstrained_dropTable (name : String) : Keeps Unconstrained (dropTable name) := by
  refine Keeps.modify fun m h name' table' hlookup => ?_
  rw [HashMap.lookup_erase_eq] at hlookup
  split_ifs at hlookup
  exact h name' table' hlookup

theorem keeps_unconstrained_updateTableDefinition (tableName : String) {newDef : TableDef}
    (hnew : newDef.constraints = []) : Keeps Unconstrained (updateTableDefinition tableName newDef) := by
  refine Keeps.get_bind fun m₀ => ?_
  split
  · exact Keeps.throw _
  · refine Keeps.bind (Keeps.modify fun m h => ?_) fun _ => Keeps.modify fun m h => ?_
    · exact h.adjust tableName fun t ht => hnew
    · exact h.adjust "pg_column" fun t ht => ht

theorem newDefinition_constraints (op : AlterOperation) {t : TableDef} (ht : t.constraints = []) :
    (op.newDefinition t).constraints = [] := by
  cases op <;> simp [AlterOperation.newDefinition, ht]

theorem keeps_unconstrained_executeColumnOperation (op : AlterOperation) (tableName : String) :
    Keeps Unconstrained (executeColumnOperation op tableName) := by
  intro m hm
  rw [executeColumnOperation, Spec, get_bind]
  change Spec _ m _ _
  rcases htable : getTable tableName m with - | tableDef
  · exact hm
  · obtain ⟨table, hlookup, rfl⟩ := Option.map_eq_some_iff.mp htable
    have hnew := newDefinition_constraints op (hm tableName table hlookup)
    refine (Keeps.bind ?_ fun _ => keeps_unconstrained_updateTableDefinition tableName hnew) m hm
    cases op
    · exact Keeps.pure _
    · exact Keeps.require _ _
    · exact Keeps.require _ _

theorem keeps_executeRenameTable {I : SystemTableManager → Prop} (newName : String) :
    Keeps I (executeRenameTable newName) :=
  Keeps.get_bind fun _ => Keeps.require _ _

end SystemTableManager

namespace CatalogManager

variable {I : SystemTableManager → Prop} {α : Type}

theorem keeps_onTables {x : SystemTableManager.Call α} (hx : Keeps I x) :
    Keeps (fun c : CatalogManager => I c.tableManager) (onTables x) := by
  intro c hc
  have hx := hx c.tableManager hc
  unfold Spec onTables at *
  cases h : x c.tableManager <;> rw [h] at hx <;> exact hx

theorem keeps_onIndexes (x : IndexManager.Call α) :
    Keeps (fun c : CatalogManager => I c.tableManager) (onIndexes x) := by
  intro c hc
  unfold Spec onIndexes
  cases x c.indexManager <;> exact hc

theorem keeps_ofExcept {J : CatalogManager → Prop} (x : Except RustgreSQLError α) : Keeps J (ofExcept x) := by
  cases x
  · exact Keeps.throw _
  · exact Keeps.pure _

theorem keeps_tableOrError {J : CatalogManager → Prop} (name : String) (operation : DdlOperation) :
    Keeps J (tableOrError name operation) := by
  refine Keeps.get_bind fun c => ?_
  split
  · exact Keeps.pure _
  · exact Keeps.throw _

/-- ADD CONSTRAINT and DROP CONSTRAINT change indexes only. -/
theorem keeps_executeAddConstraint (kindText : DataTypeKind → String) (constraint : NewConstraint)
    (tableName : String) :
    Keeps (fun c : CatalogManager => I c.tableManager) (executeAddConstraint kindText constraint tableName) := by
  refine (keeps_tableOrError tableName .alter).bind fun tableDef => Keeps.get_bind fun c =>
    (keeps_ofExcept _).bind fun _ => ?_
  cases constraint with
  | primaryKey columns => exact (keeps_ofExcept _).bind fun _ => keeps_onIndexes _
  | foreignKey columns refTable refColumns => exact Keeps.get_bind fun c => keeps_ofExcept _
  | unique columns => exact keeps_onIndexes _
  | check isValue condition =>
    refine (keeps_ofExcept _).bind fun text => ?_
    split
    · exact Keeps.throw _
    · exact Keeps.pure _

theorem keeps_executeDropConstraint (constraintName tableName : String) :
    Keeps (fun c : CatalogManager => I c.tableManager) (executeDropConstraint constraintName tableName) := by
  refine (keeps_tableOrError tableName .alter).bind fun tableDef => ?_
  split
  · refine Keeps.get_bind fun c => (keeps_ofExcept _).bind fun _ => ?_
    split
    · exact keeps_onIndexes _
    · exact Keeps.pure _
  · exact Keeps.throw _

theorem keeps_checkAlterTable {J : CatalogManager → Prop} (schemaName tableName : String) (tableDef : TableDef)
    (operation : AlterTableOperation) : Keeps J (checkAlterTable schemaName tableName tableDef operation) :=
  Keeps.get_bind fun _ => (keeps_ofExcept _).bind fun _ => Keeps.pure _

theorem keeps_checkDropTable {J : CatalogManager → Prop} (schemaName tableName : String) (tableDef : TableDef) :
    Keeps J (checkDropTable schemaName tableName tableDef) :=
  Keeps.get_bind fun _ => (Keeps.require _ _).bind fun _ => Keeps.pure _

theorem keeps_checkDropIndex {J : CatalogManager → Prop} (indexName : String) (indexDef : IndexDef) :
    Keeps J (checkDropIndex indexName indexDef) :=
  (Keeps.require _ _).bind fun _ => Keeps.get_bind fun _ => (keeps_ofExcept _).bind fun _ => Keeps.get_bind fun _ =>
    (Keeps.require _ _).bind fun _ => Keeps.pure _

/-- No table has a constraint in its definition. -/
def Unconstrained (c : CatalogManager) : Prop := c.tableManager.Unconstrained

theorem keeps_unconstrained_executeAlterTableOperation (kindText : DataTypeKind → String) (tableName : String)
    (operation : AlterTableOperation) :
    Keeps Unconstrained (executeAlterTableOperation kindText tableName operation) := by
  cases operation with
  | addColumn column mappingError =>
    refine (keeps_tableOrError tableName .alter).discard.bind fun _ => ?_
    cases mappingError with
    | some e => exact Keeps.throw _
    | none => exact keeps_onTables (SystemTableManager.keeps_unconstrained_executeColumnOperation _ _)
  | dropColumn columnName => exact keeps_onTables (SystemTableManager.keeps_unconstrained_executeColumnOperation _ _)
  | renameColumn oldName newName =>
    exact keeps_onTables (SystemTableManager.keeps_unconstrained_executeColumnOperation _ _)
  | addConstraint constraint => exact keeps_executeAddConstraint kindText constraint tableName
  | dropConstraint constraintName => exact keeps_executeDropConstraint constraintName tableName
  | renameTable newName => exact keeps_onTables (SystemTableManager.keeps_executeRenameTable newName)

end CatalogManager

namespace Database

section Keeps

variable {J : CatalogManager → Prop} {α : Type}

theorem keeps_catalog_onCatalog {x : CatalogManager.Call α} (hx : Keeps J x) :
    Keeps (fun db : Database => J db.catalog) (onCatalog x) := by
  intro db hdb
  have hx := hx db.catalog hdb
  unfold Spec onCatalog at *
  cases h : x db.catalog <;> rw [h] at hx <;> exact hx

theorem keeps_catalog_onDdl (x : DdlTransactionManager.Call α) :
    Keeps (fun db : Database => J db.catalog) (onDdl x) := by
  intro db hdb
  unfold Spec onDdl
  cases x db.ddl <;> exact hdb

/-- A statement does to the catalog what its check and its work do. -/
theorem keeps_catalog_inTransaction (objectName : String)
    {check : CatalogManager.Call (DdlOperationType × Option RollbackInfo)} {act : CatalogManager.Call Unit}
    (hcheck : Keeps J check) (hact : Keeps J act) :
    Keeps (fun db : Database => J db.catalog) (inTransaction objectName check act) :=
  (keeps_catalog_onDdl _).bind fun _ => (keeps_catalog_onDdl _).bind fun _ => (keeps_catalog_onDdl _).bind fun _ =>
    (keeps_catalog_onCatalog hcheck).bind fun _ => (keeps_catalog_onDdl _).bind fun _ =>
      (keeps_catalog_onDdl _).bind fun _ => (keeps_catalog_onCatalog hact).bind fun _ =>
        (keeps_catalog_onDdl _).bind fun _ => keeps_catalog_onDdl _

theorem keeps_catalog_executeAlterTable (kindText : DataTypeKind → String) (tableName : String)
    {operation : AlterTableOperation}
    (hact : ∀ name, Keeps J (CatalogManager.executeAlterTableOperation kindText name operation)) :
    Keeps (fun db : Database => J db.catalog) (executeAlterTable kindText tableName operation) := by
  refine (keeps_catalog_onCatalog (CatalogManager.keeps_ofExcept _)).bind fun ⟨schemaName, resolved⟩ =>
    Keeps.get_bind fun db => ?_
  split
  · exact Keeps.throw _
  · exact (Keeps.require _ _).bind fun _ =>
      keeps_catalog_inTransaction _ (CatalogManager.keeps_checkAlterTable _ _ _ _) (hact _)

theorem keeps_unconstrained_execute (kindText : DataTypeKind → String) (statement : DdlStatement) :
    Keeps (fun db : Database => db.catalog.Unconstrained) (execute kindText statement) := by
  cases statement with
  | dropTable tableName ifExists =>
    refine (keeps_catalog_onCatalog (CatalogManager.keeps_ofExcept _)).bind fun ⟨schemaName, resolved⟩ =>
      Keeps.get_bind fun db => ?_
    split
    · exact Keeps.require _ _
    · refine (Keeps.require _ _).bind fun _ =>
        keeps_catalog_inTransaction _ (CatalogManager.keeps_checkDropTable _ _ _) ?_
      exact (CatalogManager.keeps_tableOrError _ _).bind fun _ => Keeps.get_bind fun _ =>
        (CatalogManager.keeps_onIndexes _).bind fun _ =>
          CatalogManager.keeps_onTables (SystemTableManager.keeps_unconstrained_dropTable _)
  | dropIndex indexName ifExists =>
    refine Keeps.get_bind fun db => ?_
    split
    · exact Keeps.require _ _
    · exact keeps_catalog_inTransaction _ (CatalogManager.keeps_checkDropIndex _ _) (CatalogManager.keeps_onIndexes _)
  | alterTable tableName operation =>
    exact keeps_catalog_executeAlterTable kindText tableName fun name =>
      CatalogManager.keeps_unconstrained_executeAlterTableOperation kindText name operation

end Keeps

/-! ## Statements that fail -/

section Failures

variable {α : Type}

/-- The call fails, whatever the state. -/
def AlwaysFails {σ α : Type} (x : EStateM Failure σ α) : Prop :=
  ∀ s, Spec x s (fun _ _ => False) fun _ _ => True

theorem alwaysFails_bind {σ α β : Type} {x : EStateM Failure σ α} {f : α → EStateM Failure σ β}
    (hf : ∀ a, AlwaysFails (f a)) : AlwaysFails (x >>= f) :=
  fun s => (Keeps.true x s trivial).bind fun a s' _ => hf a s'

theorem AlwaysFails.bind {σ α β : Type} {x : EStateM Failure σ α} (hx : AlwaysFails x) (f : α → EStateM Failure σ β) :
    AlwaysFails (x >>= f) :=
  fun s => (hx s).bind fun _ _ h => h.elim

theorem alwaysFails_throw {σ α : Type} (e : Failure) : AlwaysFails (throw e : EStateM Failure σ α) :=
  fun _ => trivial

theorem alwaysFails_onCatalog {x : CatalogManager.Call α} (hx : AlwaysFails x) : AlwaysFails (onCatalog x) := by
  intro db
  have hx := hx db.catalog
  unfold Spec onCatalog at *
  cases h : x db.catalog <;> rw [h] at hx <;> exact hx

theorem alwaysFails_executeAlterTable (kindText : DataTypeKind → String) (tableName : String)
    {operation : AlterTableOperation}
    (h : (∀ schemaName name tableDef, AlwaysFails (CatalogManager.checkAlterTable schemaName name tableDef operation)) ∨
      ∀ name, AlwaysFails (CatalogManager.executeAlterTableOperation kindText name operation)) :
    AlwaysFails (executeAlterTable kindText tableName operation) := by
  refine alwaysFails_bind fun ⟨schemaName, resolved⟩ => alwaysFails_bind fun db => ?_
  split
  · exact alwaysFails_throw _
  refine alwaysFails_bind fun _ => alwaysFails_bind fun context => alwaysFails_bind fun _ => alwaysFails_bind fun _ => ?_
  rcases h with hcheck | hact
  · exact (alwaysFails_onCatalog (hcheck _ _ _)).bind _
  · refine alwaysFails_bind fun _ => alwaysFails_bind fun _ => alwaysFails_bind fun _ => ?_
    exact (alwaysFails_onCatalog (hact _)).bind _

/-- DROP CONSTRAINT does not find the constraint. -/
theorem alwaysFails_drop (kindText : DataTypeKind → String) (tableName constraintName : String) :
    AlwaysFails (execute kindText ((ConstraintStatement.drop constraintName).ddl tableName)) :=
  alwaysFails_executeAlterTable kindText tableName <| .inl fun _ _ _ =>
    alwaysFails_bind fun _ => AlwaysFails.bind (alwaysFails_throw _) _

/-- ADD CONSTRAINT fails if the condition of a CHECK cannot be written. -/
theorem alwaysFails_add (kindText : DataTypeKind → String) (tableName : String) (name : Option String)
    {constraint : NewConstraint} (h : constraint.toCatalog = none) :
    AlwaysFails (execute kindText ((ConstraintStatement.add name constraint).ddl tableName)) := by
  obtain ⟨isValue, e, rfl⟩ : ∃ isValue e, constraint = .check isValue (.error e) := by
    rcases constraint with _ | _ | _ | ⟨isValue, _ | _⟩
    case check.error e => exact ⟨isValue, e, rfl⟩
    all_goals cases h
  exact alwaysFails_executeAlterTable kindText tableName <| .inr fun _ =>
    alwaysFails_bind fun _ => alwaysFails_bind fun _ => alwaysFails_bind fun _ =>
      AlwaysFails.bind (alwaysFails_throw _) _

end Failures

/-! ## Sequences of statements -/

section Sequences

variable (kindText : DataTypeKind → String) (tableName : String)

/-- Databases that tables and statements lead to. Other statements leave the definitions of tables as they are. -/
inductive Reachable : Database → Prop
  | new : Reachable ⟨.new, .new, .new⟩
  | createTable {db : Database} (name : String) (columns : List ColumnDef) (hdb : Reachable db) :
    Reachable { db with catalog := final (CatalogManager.createTable name columns) db.catalog }
  | execute {db : Database} (statement : DdlStatement) (hdb : Reachable db) :
    Reachable (final (execute kindText statement) db)
  | other {db db' : Database} (hdb : Reachable db) (hsame : ∀ name, db'.catalog.getTable name = db.catalog.getTable name) :
    Reachable db'

/-- All statements of a sequence succeed, one after the other. -/
inductive Succeeds : Database → List ConstraintStatement → Database → Prop
  | nil {db : Database} : Succeeds db [] db
  | cons {db db' db'' : Database} {statement : ConstraintStatement} {statements : List ConstraintStatement}
    (hstatement : execute kindText (statement.ddl tableName) db = .ok () db') (hrest : Succeeds db' statements db'') :
    Succeeds db (statement :: statements) db''

/-- A statement fails. -/
def Fails (db : Database) (statement : ConstraintStatement) : Prop :=
  ∃ e db', execute kindText (statement.ddl tableName) db = .error e db'

/-- The definition that is read back has the constraints that were added and not dropped; a name that exists cannot be
added, and one that does not cannot be dropped. -/
structure TakesEffect (statements : List ConstraintStatement) (tableDef : TableDef) (db' : Database) : Prop where
  constraints : ∀ tableDef', db'.catalog.getTable tableName = some tableDef' →
    tableDef'.constraints.Perm
      ((statements.foldl (ConstraintStatement.effect tableName) tableDef.namedConstraints).map Prod.snd)
  add : ∀ name constraint c, constraint.toCatalog = some c →
    name.getD (c.defaultName tableName) ∈
      (statements.foldl (ConstraintStatement.effect tableName) tableDef.namedConstraints).map Prod.fst →
    Fails kindText tableName db' (.add name constraint)
  drop : ∀ constraintName,
    constraintName ∉ (statements.foldl (ConstraintStatement.effect tableName) tableDef.namedConstraints).map Prod.fst →
    Fails kindText tableName db' (.drop constraintName)

variable {kindText tableName} {db db' : Database}

theorem Reachable.unconstrained (hdb : Reachable kindText db) : db.catalog.Unconstrained := by
  induction hdb with
  | new => exact SystemTableManager.unconstrained_new
  | createTable name columns hdb ih =>
    refine Keeps.final ?_ ih
    exact (CatalogManager.keeps_onTables (SystemTableManager.keeps_unconstrained_createTable name columns)).bind
      fun _ => (CatalogManager.keeps_onIndexes _).bind fun _ => Keeps.pure _
  | execute statement hdb ih => exact (keeps_unconstrained_execute kindText statement).final ih
  | @other db db' hdb hsame ih =>
    intro name table hlookup
    have htable : db.catalog.getTable name = some table.definition := by
      rw [← hsame name, CatalogManager.getTable, SystemTableManager.getTable, hlookup, Option.map_some]
    obtain ⟨table', hlookup', hdefinition⟩ := Option.map_eq_some_iff.mp htable
    rw [← hdefinition]
    exact ih name table' hlookup'

/-- What succeeds is ADD CONSTRAINT, and it leaves the definitions as they are. -/
theorem Succeeds.adds {statements : List ConstraintStatement} (hrun : Succeeds kindText tableName db statements db') :
    db'.catalog.tableManager = db.catalog.tableManager ∧
      ∀ s ∈ statements, ∃ name constraint c, s = .add name constraint ∧ constraint.toCatalog = some c := by
  induction hrun with
  | nil => exact ⟨rfl, nofun⟩
  | @cons db db' db'' statement statements hstatement hrest ih =>
    obtain ⟨hsame, hadds⟩ := ih
    cases statement with
    | drop constraintName => exact ((alwaysFails_drop kindText tableName constraintName db).post hstatement).elim
    | add name constraint =>
      have hact (resolved : String) : Keeps (fun c : CatalogManager => c.tableManager = db.catalog.tableManager)
          (CatalogManager.executeAlterTableOperation kindText resolved (.addConstraint constraint)) :=
        @CatalogManager.keeps_executeAddConstraint (· = db.catalog.tableManager) kindText constraint resolved
      have hkeeps := keeps_catalog_executeAlterTable kindText tableName hact
      refine ⟨hsame.trans ((hkeeps db rfl).post hstatement), ?_⟩
      intro s hs
      rcases List.mem_cons.mp hs with rfl | hs
      · rcases hc : constraint.toCatalog with - | c
        · exact ((alwaysFails_add kindText tableName name hc db).post hstatement).elim
        · exact ⟨name, constraint, c, rfl, hc⟩
      · exact hadds s hs

/-- Every ADD CONSTRAINT is to add a constraint. -/
theorem length_foldl_effect (named : NamedConstraints) {statements : List ConstraintStatement}
    (h : ∀ s ∈ statements, ∃ name constraint c, s = .add name constraint ∧ constraint.toCatalog = some c) :
    (statements.foldl (ConstraintStatement.effect tableName) named).length = named.length + statements.length := by
  induction statements generalizing named with
  | nil => rfl
  | cons statement statements ih =>
    obtain ⟨name, constraint, c, rfl, hc⟩ := h statement List.mem_cons_self
    rw [List.foldl_cons, ih _ fun s hs => h s (List.mem_cons_of_mem _ hs), ConstraintStatement.effect, hc]
    simp only [Option.toList_some, List.map_cons, List.map_nil, List.length_append, List.length_cons, List.length_nil]
    omega

/-- A sequence of statements that succeed takes effect exactly if it is empty. -/
theorem takesEffect_iff {statements : List ConstraintStatement} {tableDef : TableDef}
    (hdb : Reachable kindText db) (htable : db.catalog.getTable tableName = some tableDef)
    (hrun : Succeeds kindText tableName db statements db') :
    TakesEffect kindText tableName statements tableDef db' ↔ statements = [] := by
  obtain ⟨table, hlookup, rfl⟩ := Option.map_eq_some_iff.mp htable
  have hnone : table.definition.constraints = [] := hdb.unconstrained tableName table hlookup
  obtain ⟨hsame, hadds⟩ := hrun.adds
  have htable' : db'.catalog.getTable tableName = some table.definition := by
    rw [CatalogManager.getTable, hsame]
    exact htable
  constructor
  · intro h
    have hlength := (h.constraints _ htable').length_eq
    rw [hnone, List.length_map, length_foldl_effect _ hadds, List.length_nil] at hlength
    exact List.eq_nil_of_length_eq_zero (by omega)
  · rintro rfl
    cases hrun
    have hnamed : table.definition.namedConstraints = [] := by
      rw [TableDef.namedConstraints, hnone, List.map_nil]
    refine ⟨fun tableDef' h => ?_, fun name constraint c _ hmem => ?_, fun constraintName _ => ?_⟩
    · cases htable'.symm.trans h
      rw [List.foldl_nil, hnamed, hnone, List.map_nil]
    · rw [List.foldl_nil, hnamed, List.map_nil] at hmem
      cases hmem
    · have hfails := alwaysFails_drop kindText tableName constraintName db
      unfold Spec at hfails
      rcases h : execute kindText ((ConstraintStatement.drop constraintName).ddl tableName) db with ⟨_, db'⟩ | ⟨e, db'⟩
      · rw [h] at hfails
        exact hfails.elim
      · exact ⟨e, db', h⟩

theorem reachable_oneTable : Reachable noKindText oneTable :=
  Reachable.createTable "t" _ .new

theorem takesEffect_iff_oneTable : ∃ tableDef db',
    TakesEffect noKindText "t" [.add none (.unique ["a"])] tableDef db' ↔
      [ConstraintStatement.add none (.unique ["a"])] = [] :=
  ⟨_, _, takesEffect_iff reachable_oneTable rfl (.cons rfl .nil)⟩

/-- A UNIQUE that was added is not in the definition. -/
theorem not_takesEffect_unique : ¬ ∀ db db' statements tableDef, Reachable noKindText db →
    db.catalog.getTable "t" = some tableDef → Succeeds noKindText "t" db statements db' →
    TakesEffect noKindText "t" statements tableDef db' := by
  intro h
  have htakes := h oneTable _ [.add none (.unique ["a"])] _ reachable_oneTable rfl (.cons rfl .nil)
  have hlength := (htakes.constraints _ rfl).length_eq
  cases hlength

end Sequences

end Database

end Rustgresql
