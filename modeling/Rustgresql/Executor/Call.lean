import Rustgresql.Executor.Engine

/-!
# CALL

The SQL statements of a procedure run in executors of their own: on the global catalog and outside of
transactions. `call_eq` says when that is where the caller runs statements, too.
-/

namespace Rustgresql

open StateSpec Procedure

/-- Catalogs: the one of the process, and those that an embedding program makes. -/
inductive CatalogRef
  | global
  | own (n : ℕ)
  deriving DecidableEq

/-- A deleted row, as the transaction manager keeps it for a rollback. -/
structure UndoEntry where
  transactionId : TransactionId
  tableName : String
  rowIndex : ℕ
  row : Row

/-- The tables of every catalog, and what transactions have to undo. -/
structure World where
  catalogs : CatalogRef → HashMap String SystemTable
  undo : List UndoEntry

/-- Buffer pools: the one that a new executor makes for itself, and those that it is given. -/
inductive PoolRef
  | fresh
  | given (n : ℕ)
  deriving DecidableEq

/-- Where an executor works. -/
structure Environment where
  catalog : CatalogRef
  pool : PoolRef
  transaction : Option TransactionId

/-- `Executor::new` -/
def Environment.new : Environment := ⟨.global, .fresh, none⟩

/-- SQL statements. The surroundings of one on rows depend on where it is executed. Those of kind `other`
are not supported in procedures. -/
inductive SqlStatement (E Q A : Type)
  | select (query : Q)
  | row (tableName : String) (s : RowStatement E) (surroundings : Environment → Surroundings)
  | other (a : A)

/-- What expressions, queries and other statements mean, and the indexes of the catalogs. -/
structure SqlSemantics (E Q A : Type) where
  evaluate : Evaluator E
  /-- Arguments of a call -/
  argument : E → Result Value
  /-- Expressions of a procedure body -/
  variableExpression : E → ScopeM World Value
  indexes : CatalogRef → IndexManager
  select : Q → HashMap String SystemTable → Result Unit
  other : A → Environment → EStateM Failure World Unit
  /-- The `Debug` text of a statement. -/
  text : A → String

variable {E Q A : Type}

namespace SqlSemantics

/-- The entries for deleted rows. Rows are deleted from the last to the first. -/
def undoEntries (sem : SqlSemantics E Q A) (transactionId : TransactionId) (tableName : String)
    (condition : Option E) (t t' : SystemTable) : List UndoEntry :=
  let selected := t.data.zipIdx.filter fun p => selects sem.evaluate condition t.definition p.1
  (selected.reverse.take (t.data.length - t'.data.length)).map fun p =>
    ⟨transactionId, tableName, p.2, p.1⟩

/-- What a transaction notes about a statement: the rows that a DELETE takes away. -/
def noted (sem : SqlSemantics E Q A) (env : Environment) (tableName : String) (s : RowStatement E)
    (t t' : SystemTable) : List UndoEntry :=
  match env.transaction, s with
  | some transactionId, .delete condition =>
    sem.undoEntries transactionId tableName condition t t'
  | _, _ => []

/-- Outside of transactions nothing is logged. -/
def surroundingsIn (env : Environment) (s : Surroundings) : Surroundings :=
  match env.transaction with
  | some _ => s
  | none => { s with logDelete := fun _ => .ok () }

/-- A statement on a table that is not there. -/
def missingTable (tableName : String) : RowStatement E → Result Unit
  | .update _ _ => .error (.err (.notFound s!"Table '{tableName}' not found"))
  | _ => .ok ()

variable [DebugText]

/-- Execute a statement on a table. -/
def executeRow (sem : SqlSemantics E Q A) (env : Environment) (tableName : String)
    (s : RowStatement E) (surroundings : Surroundings) : EStateM Failure World Unit := fun w =>
  let tables := w.catalogs env.catalog
  match tables.lookup tableName with
  | none => ofResult (missingTable tableName s) w
  | some t =>
    let leave := fun t' : SystemTable => World.mk
      (Function.update w.catalogs env.catalog (HashMap.adjust tableName (fun _ => t') tables))
      (w.undo ++ sem.noted env tableName s t t')
    match s.execute sem.evaluate (sem.indexes env.catalog) (surroundingsIn env surroundings) t with
    | .ok () t' => .ok () (leave t')
    | .error e t' => .error e (leave t')

/-- Execute a statement in an executor. -/
def execute (sem : SqlSemantics E Q A) (env : Environment) :
    SqlStatement E Q A → EStateM Failure World Unit
  | .select query => fun w => ofResult (sem.select query (w.catalogs env.catalog)) w
  | .row tableName s surroundings => sem.executeRow env tableName s (surroundings env)
  | .other a => sem.other a env

/-- Execute statements one by one. -/
def executeAll (sem : SqlSemantics E Q A) (env : Environment) :
    List (SqlStatement E Q A) → EStateM Failure World Unit
  | [] => pure ()
  | s :: statements => do
    sem.execute env s
    sem.executeAll env statements

/-- Execute a SQL statement within a procedure -/
def runInProcedure (sem : SqlSemantics E Q A) : SqlStatement E Q A → ScopeM World Unit
  | .other a => throw (.failed (.err (.procedure
      s!"Statement type '{sem.text a}' not supported in procedures")))
  | s => fun scope =>
    match sem.execute .new s scope.world with
    | .ok () w => .ok () { scope with world := w }
    | .error e w => .error (.failed e) { scope with world := w }

/-- The meaning of procedure bodies. -/
def inProcedures (sem : SqlSemantics E Q A) : Semantics E (SqlStatement E Q A) World where
  run := sem.runInProcedure
  evaluate := sem.variableExpression
  equals := Value.eq

/-- An executor whose procedures have SQL statements in their bodies. -/
def inEngine (sem : SqlSemantics E Q A) (steps : ℕ) :
    EngineSemantics E (SqlStatement E Q A) Empty World where
  plain p := nomatch p
  reads p := nomatch p
  argument := sem.argument
  body _ := sem.inProcedures
  steps := steps

/-- The body of a procedure that is a sequence of SQL statements. -/
def body (statements : List (SqlStatement E Q A)) : Procedure.Statement E (SqlStatement E Q A) :=
  .block [] (statements.map .sql) none

/-- What a call leaves if it does what the statements do. -/
def afterCall (values : HashMap String Value) : EStateM.Result Failure World Unit →
    EStateM.Result Stop (Context World) Unit
  | .ok () w => .ok () ⟨⟨values, w⟩, none⟩
  | .error e w => .error (.failed e) ⟨⟨values, w⟩, none⟩

/-- What CALL of a procedure reports and leaves if it does what the statements do. -/
def callResult (d : ProcedureDef E (SqlStatement E Q A)) (values : List Value) :
    EStateM.Result Failure World Unit → QueryOutcome × World
  | .ok () w =>
    (.ok ⟨ProcedureExecutor.outParameters d (ProcedureExecutor.initialValues d values), ["result"]⟩, w)
  | .error e w => (.error (.failed e), w)

end SqlSemantics

/-- The surroundings answer alike, up to the log of a transaction. -/
def Surroundings.Alike (s s' : Surroundings) : Prop :=
  s.persist = s'.persist ∧ s.autoIncrement = s'.autoIncrement

namespace SqlStatement

/-- A statement in a procedure does what it does for a caller: it is supported, the caller works on the
global catalog, its storage answers like that of a new executor, and it is in no transaction that would
note a deletion. -/
def RunsAlike (env : Environment) : SqlStatement E Q A → Prop
  | select _ => env.catalog = .global
  | row _ (.delete _) surroundings =>
    env.catalog = .global ∧ (surroundings env).Alike (surroundings .new) ∧ env.transaction = none
  | row _ _ surroundings => env.catalog = .global ∧ (surroundings env).Alike (surroundings .new)
  | other _ => False

end SqlStatement

/-! ## Transparency -/

section Transparency

theorem alike_surroundingsIn {env env' : Environment} {s s' : Surroundings} (h : s.Alike s') :
    (SqlSemantics.surroundingsIn env s).Alike (SqlSemantics.surroundingsIn env' s') := by
  obtain ⟨hpersist, hauto⟩ := h
  unfold SqlSemantics.surroundingsIn
  split <;> split <;> exact ⟨hpersist, hauto⟩

variable [DebugText]

theorem updateSelected_of_alike {evaluate : Evaluator E} {s s' : Surroundings} (h : s.Alike s')
    (assignments : List (String × E)) (condition : Option E) (row : Row) (i : ℕ) :
    UpdateOperator.updateSelected evaluate s assignments condition row i =
      UpdateOperator.updateSelected evaluate s' assignments condition row i := by
  unfold UpdateOperator.updateSelected
  rw [h.1]

/-- UPDATE does not read the log. -/
theorem updateRows_of_alike {evaluate : Evaluator E} {s s' : Surroundings} (h : s.Alike s')
    (assignments : List (String × E)) (condition : Option E) (rows : List (Row × ℕ)) :
    UpdateOperator.updateRows evaluate s assignments condition rows =
      UpdateOperator.updateRows evaluate s' assignments condition rows := by
  induction rows with
  | nil => rfl
  | cons p rows ih => rw [UpdateOperator.updateRows, UpdateOperator.updateRows, ih,
      updateSelected_of_alike h]

/-- Statements other than DELETE do not read the log of a transaction. -/
theorem execute_of_alike {evaluate : Evaluator E} {m : IndexManager} {s s' : Surroundings}
    {statement : RowStatement E} (hdelete : ∀ condition, statement ≠ .delete condition)
    (h : s.Alike s') :
    statement.execute evaluate m s = statement.execute evaluate m s' := by
  obtain ⟨hpersist, hauto⟩ := h
  cases statement with
  | delete condition => exact absurd rfl (hdelete condition)
  | insert columns values =>
    simp only [RowStatement.execute, InsertOperator.execute, InsertOperator.fullRows, hpersist, hauto]
  | update assignments condition =>
    unfold RowStatement.execute UpdateOperator.execute
    simp only [updateRows_of_alike (show s.Alike s' from ⟨hpersist, hauto⟩)]

variable (sem : SqlSemantics E Q A) {env : Environment}

theorem execute_row_of_alike (pool : PoolRef) (transaction : Option TransactionId) (tableName : String)
    {statement : RowStatement E} (hdelete : ∀ condition, statement ≠ .delete condition)
    {surroundings : Environment → Surroundings}
    (h : (surroundings ⟨.global, pool, transaction⟩).Alike (surroundings .new)) :
    sem.execute ⟨.global, pool, transaction⟩ (.row tableName statement surroundings) =
      sem.execute .new (.row tableName statement surroundings) := by
  have hin : (SqlSemantics.surroundingsIn ⟨.global, pool, transaction⟩
      (surroundings ⟨.global, pool, transaction⟩)).Alike
      (SqlSemantics.surroundingsIn .new (surroundings .new)) := alike_surroundingsIn h
  have hexec : statement.execute sem.evaluate (sem.indexes .global) _ = _ :=
    execute_of_alike hdelete hin
  have hnoted : sem.noted ⟨.global, pool, transaction⟩ tableName statement =
      sem.noted .new tableName statement := by
    funext t t'
    cases statement with
    | delete condition => exact absurd rfl (hdelete condition)
    | insert columns values => cases transaction <;> rfl
    | update assignments condition => cases transaction <;> rfl
  funext w
  simp only [SqlSemantics.execute, SqlSemantics.executeRow, hexec, hnoted]
  rfl

theorem execute_row_of_runsAlike {tableName : String} {statement : RowStatement E}
    {surroundings : Environment → Surroundings}
    (h : (SqlStatement.row tableName statement surroundings : SqlStatement E Q A).RunsAlike env) :
    sem.execute env (.row tableName statement surroundings) =
      sem.execute .new (.row tableName statement surroundings) := by
  obtain ⟨catalog, pool, transaction⟩ := env
  cases statement with
  | delete condition =>
    obtain ⟨rfl, ⟨hpersist, hauto⟩, rfl⟩ := h
    have hin : SqlSemantics.surroundingsIn ⟨.global, pool, none⟩ (surroundings ⟨.global, pool, none⟩) =
        SqlSemantics.surroundingsIn .new (surroundings .new) := by
      simp only [SqlSemantics.surroundingsIn, Environment.new] at hpersist hauto ⊢
      rw [hpersist, hauto]
    funext w
    simp only [SqlSemantics.execute, SqlSemantics.executeRow, hin]
    rfl
  | insert columns values =>
    obtain ⟨rfl, halike⟩ := h
    exact execute_row_of_alike sem pool transaction tableName (fun _ => by simp) halike
  | update assignments condition =>
    obtain ⟨rfl, halike⟩ := h
    exact execute_row_of_alike sem pool transaction tableName (fun _ => by simp) halike

/-- A statement that runs alike leaves the same world and reports the same error. -/
theorem runInProcedure_eq {s : SqlStatement E Q A} (h : s.RunsAlike env) (scope : Scope World) :
    sem.runInProcedure s scope = match sem.execute env s scope.world with
      | .ok () w => .ok () { scope with world := w }
      | .error e w => .error (.failed e) { scope with world := w } := by
  cases s with
  | select query =>
    have hcatalog : env.catalog = Environment.new.catalog := h
    rw [SqlSemantics.execute, hcatalog]
    rfl
  | row tableName statement surroundings =>
    rw [execute_row_of_runsAlike sem h]
    rfl
  | other a => exact h.elim

/-- A body whose statements all run alike does what they do one by one. -/
theorem executeStatement_body_eq (statements : List (SqlStatement E Q A))
    (h : ∀ s ∈ statements, s.RunsAlike env)
    (n : ℕ) (values : HashMap String Value) (w : World) :
    executeStatement sem.inProcedures (n + 2) (SqlSemantics.body statements) ⟨⟨values, w⟩, none⟩ =
      SqlSemantics.afterCall values (sem.executeAll env statements w) := by
  suffices hblock : executeBlockStatements (executeStatement sem.inProcedures (n + 1)) none
      (statements.map .sql) ⟨⟨values, w⟩, none⟩ =
      SqlSemantics.afterCall values (sem.executeAll env statements w) from hblock
  induction statements generalizing w with
  | nil => rfl
  | cons s statements ih =>
    obtain ⟨hs, hstatements⟩ := List.forall_mem_cons.mp h
    have hrun := runInProcedure_eq sem hs ⟨values, w⟩
    rcases hexec : sem.execute env s w with ⟨⟨⟩, w'⟩ | ⟨e, w'⟩
    · have hguarded : executeGuarded (executeStatement sem.inProcedures (n + 1)) none (.sql s)
          ⟨⟨values, w⟩, none⟩ = .ok () ⟨⟨values, w'⟩, none⟩ := by
        have hstatement : executeStatement sem.inProcedures (n + 1) (.sql s) ⟨⟨values, w⟩, none⟩ =
            .ok () ⟨⟨values, w'⟩, none⟩ := by
          change onScope (sem.runInProcedure s) ⟨⟨values, w⟩, none⟩ = _
          rw [onScope, hrun, hexec]
        rw [executeGuarded, hstatement]
      rw [SqlSemantics.executeAll, bind_of_ok hexec, ← ih hstatements w']
      exact (bind_of_ok rfl).trans (bind_of_ok hguarded)
    · have hguarded : executeGuarded (executeStatement sem.inProcedures (n + 1)) none (.sql s)
          ⟨⟨values, w⟩, none⟩ = .error (.failed e) ⟨⟨values, w'⟩, none⟩ := by
        have hstatement : executeStatement sem.inProcedures (n + 1) (.sql s) ⟨⟨values, w⟩, none⟩ =
            .error (.failed e) ⟨⟨values, w'⟩, none⟩ := by
          change onScope (sem.runInProcedure s) ⟨⟨values, w⟩, none⟩ = _
          rw [onScope, hrun, hexec]
        rw [executeGuarded, hstatement]
      rw [SqlSemantics.executeAll, bind_of_error hexec]
      exact (bind_of_ok rfl).trans (bind_of_error hguarded)

end Transparency

/-- Literal values, no indexes, and queries without errors. -/
def literalSemantics : SqlSemantics Value Unit Unit where
  evaluate := literalValue
  argument v := .ok v
  variableExpression v := pure v
  indexes _ := IndexManager.new
  select _ _ := .ok ()
  other _ _ := pure ()
  text _ := ""

/-- Surroundings that never fail. -/
def quietSurroundings : Surroundings := ⟨fun _ => .ok (), fun _ => .ok (), fun _ _ => 1⟩

/-- A table with a single row in the global catalog. -/
def singleRowWorld : World where
  catalogs _ := (∅ : HashMap String SystemTable).insert "t"
    ⟨⟨2, "t", 1, [⟨1, "a", .integer, true, none, false, false, none⟩], []⟩, [[.integer 1]]⟩
  undo := []

/-- A procedure without parameters. -/
def singleProcedure (statements : List (SqlStatement Value Unit Unit)) :
    ProcedureDef Value (SqlStatement Value Unit Unit) :=
  ⟨"p", [], SqlSemantics.body statements⟩

/-- An executor with this procedure. -/
def withProcedure (statements : List (SqlStatement Value Unit Unit)) :
    Executor Value (SqlStatement Value Unit Unit) :=
  ⟨⟨(∅ : HashMap String _).insert "p" (singleProcedure statements), ∅⟩, ∅⟩

end Rustgresql
