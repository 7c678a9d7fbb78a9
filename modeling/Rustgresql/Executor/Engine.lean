import Rustgresql.Executor.Operators
import Rustgresql.Executor.Procedure

/-!
# The execution engine

The engine executes every statement with a new executor. An executor holds the procedures and functions
that have been created, and keeps the results of WITH clauses after their query. `executeAll_eq` says
when a sequence of statements does not notice that both are gone.
-/

namespace Rustgresql

open StateSpec Procedure

/-- Parameter modes -/
inductive ParameterMode
  | «in» | out | inOut
  deriving DecidableEq

/-- Stored procedure definition -/
structure ProcedureDef (E A : Type) where
  name : String
  parameters : List (String × ParameterMode)
  body : Procedure.Statement E A

/-- Stored function definition -/
structure FunctionDef (E A : Type) where
  name : String
  parameters : List (String × ParameterMode)
  body : Procedure.Statement E A

/-- Procedure execution engine -/
structure ProcedureExecutor (E A : Type) where
  procedures : HashMap String (ProcedureDef E A)
  functions : HashMap String (FunctionDef E A)

/-- What an executor keeps from one statement to the next. -/
structure Executor (E A : Type) where
  procedureExecutor : ProcedureExecutor E A
  materializedCtes : HashMap String QueryResult

def Executor.new {E A : Type} : Executor E A := ⟨⟨∅, ∅⟩, ∅⟩

/-- Statements. Those of kind `plain` are queries, DML, DDL and the like. -/
inductive EngineStatement (E A P : Type)
  | createProcedure (d : ProcedureDef E A)
  | createFunction (d : FunctionDef E A)
  | dropProcedure (name : String) (ifExists : Bool)
  | dropFunction (name : String) (ifExists : Bool)
  | callProcedure (name : String) (arguments : List E)
  | plain (p : P)

abbrev QueryOutcome := Except Stop QueryResult

/-- What the parts of statements mean. A plain statement gets the results of WITH clauses that have been
kept and leaves such results, and `reads` are the names that it looks up in them. Procedure bodies get
the procedures and functions. -/
structure EngineSemantics (E A P W : Type) where
  plain : P → HashMap String QueryResult → W → QueryOutcome × HashMap String QueryResult × W
  reads : P → List String
  argument : E → Result Value
  body : ProcedureExecutor E A → Semantics E A W
  /-- The steps that a body may use. -/
  steps : ℕ

variable {E A P W : Type}

/-- The result of a statement that only says what it did. -/
def messageResult (message : String) : QueryResult := ⟨[[.string message]], ["result"]⟩

/-- A failure of the procedure executor. -/
def procedureError (message : String) : QueryOutcome := .error (.failed (.err (.procedure message)))

namespace ProcedureExecutor

/-- Initialize parameters -/
def initialValues (d : ProcedureDef E A) (arguments : List Value) : HashMap String Value :=
  (d.parameters.zip arguments).foldl (fun values p =>
    values.insert p.1.1 (if p.1.2 = .out then .null else p.2)) ∅

/-- Collect OUT and INOUT parameters for the result -/
def outParameters (d : ProcedureDef E A) (values : HashMap String Value) : List Row :=
  d.parameters.filterMap fun p => if p.2 = .in then none else (values.lookup p.1).map fun v => [v]

/-- Execute a stored procedure -/
def executeProcedure (sem : EngineSemantics E A P W) (x : ProcedureExecutor E A) (name : String)
    (arguments : List Value) (w : W) : QueryOutcome × W :=
  match x.procedures.lookup name with
  | none => (procedureError s!"Procedure '{name}' does not exist", w)
  | some d =>
    if arguments.length ≠ d.parameters.length then
      (procedureError
        s!"Procedure '{name}' expects {d.parameters.length} arguments, got {arguments.length}", w)
    else
      match executeStatement (sem.body x) sem.steps d.body ⟨⟨initialValues d arguments, w⟩, none⟩ with
      | .ok () c => (.ok ⟨outParameters d c.scope.values, ["result"]⟩, c.scope.world)
      | .error e c => (.error e, c.scope.world)

end ProcedureExecutor

namespace Executor

/-- Evaluate arguments, and execute the procedure. -/
def executeCallProcedure (sem : EngineSemantics E A P W) (x : Executor E A) (name : String)
    (arguments : List E) (w : W) : QueryOutcome × W :=
  match arguments.mapM sem.argument with
  | .ok values => x.procedureExecutor.executeProcedure sem name values w
  | .error e => (.error (.failed e), w)

/-- Execute a SQL statement and return results -/
def executeStatement (sem : EngineSemantics E A P W) (x : Executor E A) (w : W) :
    EngineStatement E A P → QueryOutcome × Executor E A × W
  | .createProcedure d =>
    let procedures := x.procedureExecutor.procedures.insert d.name d
    (.ok (messageResult s!"Procedure '{d.name}' created"),
      { x with procedureExecutor := { x.procedureExecutor with procedures := procedures } }, w)
  | .createFunction d =>
    let functions := x.procedureExecutor.functions.insert d.name d
    (.ok (messageResult s!"Function '{d.name}' created"),
      { x with procedureExecutor := { x.procedureExecutor with functions := functions } }, w)
  | .dropProcedure name ifExists =>
    -- nothing is dropped
    (if ifExists then .ok (messageResult s!"Procedure '{name}' dropped")
      else procedureError s!"Procedure '{name}' does not exist", x, w)
  | .dropFunction name ifExists =>
    (if ifExists then .ok (messageResult s!"Function '{name}' dropped")
      else procedureError s!"Function '{name}' does not exist", x, w)
  | .callProcedure name arguments =>
    let (outcome, w) := x.executeCallProcedure sem name arguments w
    (outcome, x, w)
  | .plain p =>
    let (outcome, ctes, w) := sem.plain p x.materializedCtes w
    (outcome, { x with materializedCtes := ctes }, w)

/-- Execute statements one after the other with one executor. -/
def executeAll (sem : EngineSemantics E A P W) :
    Executor E A → W → List (EngineStatement E A P) → List QueryOutcome × W
  | _, w, [] => ([], w)
  | x, w, s :: statements =>
    let (outcome, x, w) := executeStatement sem x w s
    let (outcomes, w) := executeAll sem x w statements
    (outcome :: outcomes, w)

/-- The executor and the world after statements. -/
def after (sem : EngineSemantics E A P W) : Executor E A → W → List (EngineStatement E A P) →
    Executor E A × W
  | x, w, [] => (x, w)
  | x, w, s :: statements =>
    let (_, x, w) := executeStatement sem x w s
    after sem x w statements

end Executor

namespace ExecutionEngine

/-- Execute a query with a new executor -/
def executeQuery (sem : EngineSemantics E A P W) (w : W) (s : EngineStatement E A P) : QueryOutcome × W :=
  let (outcome, _, w) := Executor.new.executeStatement sem w s
  (outcome, w)

/-- Execute statements one after the other through the engine. -/
def executeAll (sem : EngineSemantics E A P W) : W → List (EngineStatement E A P) → List QueryOutcome × W
  | w, [] => ([], w)
  | w, s :: statements =>
    let (outcome, w) := executeQuery sem w s
    let (outcomes, w) := executeAll sem w statements
    (outcome :: outcomes, w)

end ExecutionEngine

/-! ## Sessions -/

/-- A plain statement looks only at the kept results that it reads. -/
def EngineSemantics.ReadsOnly (sem : EngineSemantics E A P W) : Prop :=
  ∀ p ctes w, (∀ name ∈ sem.reads p, name ∉ ctes) →
    ((sem.plain p ctes w).1, (sem.plain p ctes w).2.2) = ((sem.plain p ∅ w).1, (sem.plain p ∅ w).2.2)

/-- A statement asks for nothing that the executor has kept: it calls no procedure that has been created,
unless an argument of the call fails, and reads no result of a WITH clause of an earlier query. -/
def AsksForNothing (sem : EngineSemantics E A P W) (x : Executor E A) : EngineStatement E A P → Prop
  | .callProcedure name arguments =>
    ∀ values, arguments.mapM sem.argument = .ok values → name ∉ x.procedureExecutor.procedures
  | .plain p => ∀ name ∈ sem.reads p, name ∉ x.materializedCtes
  | _ => True

variable {sem : EngineSemantics E A P W}

/-- A statement that asks for nothing does with a new executor what it does with an old one. -/
theorem executeQuery_eq (hreads : sem.ReadsOnly) {x : Executor E A} {s : EngineStatement E A P}
    (h : AsksForNothing sem x s) (w : W) : ExecutionEngine.executeQuery sem w s =
      ((x.executeStatement sem w s).1, (x.executeStatement sem w s).2.2) := by
  cases s with
  | createProcedure d => rfl
  | createFunction d => rfl
  | dropProcedure name ifExists => rfl
  | dropFunction name ifExists => rfl
  | plain p => exact (hreads p x.materializedCtes w h).symm
  | callProcedure name arguments =>
    change Executor.new.executeCallProcedure sem name arguments w =
      x.executeCallProcedure sem name arguments w
    unfold Executor.executeCallProcedure
    rcases hvalues : arguments.mapM sem.argument with e | values
    · rfl
    · have hname : x.procedureExecutor.procedures.lookup name = none :=
        AList.lookup_eq_none.mpr (h values hvalues)
      change ProcedureExecutor.executeProcedure sem Executor.new.procedureExecutor name values w =
        x.procedureExecutor.executeProcedure sem name values w
      rw [ProcedureExecutor.executeProcedure, ProcedureExecutor.executeProcedure, hname]
      rfl

/-- Queries that read one name, and procedures without effect. -/
def lookupSemantics : EngineSemantics Value Unit String ℕ where
  plain name ctes w := match ctes.lookup name with
    | some r => (.ok r, ctes, w)
    | none => (.error (.failed (.err (.notFound s!"Table '{name}' not found"))), ctes, w)
  reads name := [name]
  argument v := .ok v
  body _ := ⟨fun _ => pure (), fun v => pure v, Value.eq⟩
  steps := 5

theorem lookupSemantics_readsOnly : lookupSemantics.ReadsOnly := by
  intro name ctes w h
  have hname : ctes.lookup name = none := AList.lookup_eq_none.mpr (h name (List.mem_singleton_self _))
  simp only [lookupSemantics, hname]
  rfl

end Rustgresql
