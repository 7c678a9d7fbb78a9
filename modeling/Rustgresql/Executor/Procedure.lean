import Rustgresql.Executor.Scanner

/-!
# Execution of procedure bodies

Blocks and control flow inside procedures. What SQL statements do and what expressions evaluate to are
parameters. Every call of the interpreter takes a number of steps that it may use, and gives up if they
do not suffice.
-/

namespace Rustgresql

open StateSpec

namespace Procedure

/-- Declarations of variables, with their default values. -/
abbrev Declarations (E : Type) := List (String × Option E)

/-- Statements in procedures. Statements of kind `sql` have no control flow of their own. -/
inductive Statement (E A : Type)
  | sql (a : A)
  | perform (expression : E)
  | declare (declarations : Declarations E)
  | «return» (expression : Option E)
  | ifStatement (branches : List (E × List (Statement E A))) (elseStatements : List (Statement E A))
  | caseStatement (expression : Option E) (branches : List (E × List (Statement E A)))
    (elseStatements : List (Statement E A))
  | loopStatement (label : Option String) (statements : List (Statement E A))
  | whileStatement (label : Option String) (condition : E) (statements : List (Statement E A))
  | forStatement (label : Option String) (variableName : String) (lowerBound upperBound : E)
    (reverse : Bool) (statements : List (Statement E A))
  | exit (label : Option String) (whenCondition : Option E)
  | «continue» (label : Option String) (whenCondition : Option E)
  | block (declarations : Declarations E) (statements : List (Statement E A))
    (othersHandler : Option (List (Statement E A)))

/-- How the execution of a body ends early. -/
inductive Stop
  | failed (e : Failure)
  | outOfSteps

/-- The variables of a procedure, and the world that SQL statements change. -/
structure Scope (W : Type) where
  values : HashMap String Value
  world : W

abbrev ScopeM (W α : Type) := EStateM Stop (Scope W) α

/-- What SQL statements do, what expressions evaluate to, and the trait method `equals` of values. -/
structure Semantics (E A W : Type) where
  run : A → ScopeM W Unit
  evaluate : E → ScopeM W Value
  equals : Value → Value → Bool

/-- The part of the procedure context that the execution reads. -/
structure Context (W : Type) where
  scope : Scope W
  returnValue : Option Value

abbrev ProcM (W α : Type) := EStateM Stop (Context W) α

variable {E A W : Type}

def onScope {α : Type} (x : ScopeM W α) : ProcM W α := fun c =>
  match x c.scope with
  | .ok a s => .ok a { c with scope := s }
  | .error e s => .error e { c with scope := s }

namespace Semantics

variable (sem : Semantics E A W)

def setVariable (name : String) (v : Value) : ScopeM W Unit :=
  modify fun s => { s with values := s.values.insert name v }

/-- Process declarations -/
def declare : Declarations E → ScopeM W Unit
  | [] => pure ()
  | (name, default) :: declarations => do
    let v ← match default with
      | some e => sem.evaluate e
      | none => pure .null
    setVariable name v
    declare declarations

/-- The statements of the first branch whose condition holds. -/
def chooseBranch : List (E × List (Statement E A)) → List (Statement E A) →
    ScopeM W (List (Statement E A))
  | [], elseStatements => pure elseStatements
  | (condition, statements) :: branches, elseStatements => do
    if (← sem.evaluate condition).isTrue then pure statements
    else chooseBranch branches elseStatements

/-- The statements of the first branch whose value is that of the CASE. -/
def chooseCase (v : Value) : List (E × List (Statement E A)) → List (Statement E A) →
    ScopeM W (List (Statement E A))
  | [], elseStatements => pure elseStatements
  | (e, statements) :: branches, elseStatements => do
    if sem.equals v (← sem.evaluate e) then pure statements
    else chooseCase v branches elseStatements

/-- The branch of a simple or of a searched CASE. -/
def chooseStatements (expression : Option E) (branches : List (E × List (Statement E A)))
    (elseStatements : List (Statement E A)) : ScopeM W (List (Statement E A)) := do
  match expression with
  | some e => sem.chooseCase (← sem.evaluate e) branches elseStatements
  | none => sem.chooseBranch branches elseStatements

/-- The values that the variable of a FOR loop takes. -/
def range (lowerBound upperBound : E) (reverse : Bool) : ScopeM W (List ℤ) := do
  match ← sem.evaluate lowerBound, ← sem.evaluate upperBound with
  | .integer lower, .integer upper =>
    if reverse then
      return ((List.range (lower - upper + 1).toNat).map fun i => upper + (i : ℤ)).reverse
    else
      return (List.range (upper - lower + 1).toNat).map fun i => lower + (i : ℤ)
  | _, _ => throw (.failed (.err (.procedure "FOR loop bounds must be integers")))

/-- Whether the WHEN condition of EXIT or CONTINUE holds. -/
def holds : Option E → ScopeM W Bool
  | some e => do return (← sem.evaluate e).isTrue
  | none => pure true

end Semantics

section Execution

variable (sem : Semantics E A W) (exec : Statement E A → ProcM W Unit)

/-- Check if we're returning. -/
def isReturning : ProcM W Bool := return (← get).returnValue.isSome

/-- Execute statements until one of them sets the return value. -/
def executeStatements : List (Statement E A) → ProcM W Unit
  | [] => pure ()
  | s :: statements => do
    exec s
    if ← isReturning then pure () else executeStatements statements

/-- Execute the statements of an exception handler, without a check. -/
def executeHandler : List (Statement E A) → ProcM W Unit
  | [] => pure ()
  | s :: statements => do
    exec s
    executeHandler statements

/-- Execute a statement of a block. Any error is handled by the handler for OTHERS, if there is one. -/
def executeGuarded (othersHandler : Option (List (Statement E A))) (s : Statement E A) :
    ProcM W Unit := fun c =>
  match exec s c with
  | .ok () c' => .ok () c'
  | .error .outOfSteps c' => .error .outOfSteps c'
  | .error (.failed e) c' =>
    match othersHandler with
    | some handler => executeHandler exec handler c'
    | none => .error (.failed e) c'

/-- Execute the statements of a block. -/
def executeBlockStatements (othersHandler : Option (List (Statement E A))) :
    List (Statement E A) → ProcM W Unit
  | [] => pure ()
  | s :: statements => do
    if ← isReturning then pure ()
    else
      executeGuarded exec othersHandler s
      executeBlockStatements othersHandler statements

def executeLoop (statements : List (Statement E A)) : ℕ → ProcM W Unit
  | 0 => throw .outOfSteps
  | n + 1 => do
    executeStatements exec statements
    if ← isReturning then pure () else executeLoop statements n

def executeWhile (condition : E) (statements : List (Statement E A)) : ℕ → ProcM W Unit
  | 0 => throw .outOfSteps
  | n + 1 => do
    if (← onScope (sem.evaluate condition)).isTrue then
      executeStatements exec statements
      if ← isReturning then pure () else executeWhile condition statements n

def executeFor (variableName : String) (statements : List (Statement E A)) : List ℤ → ProcM W Unit
  | [] => pure ()
  | i :: is => do
    onScope (Semantics.setVariable variableName (.integer i))
    executeStatements exec statements
    if ← isReturning then pure () else executeFor variableName statements is

/-- Execute a single statement within a procedure, if its parts are executed by `exec`. -/
def executeWith (n : ℕ) : Statement E A → ProcM W Unit
  | .sql a => onScope (sem.run a)
  | .perform e => do
    let _ ← onScope (sem.evaluate e)
  | .declare declarations => onScope (sem.declare declarations)
  | .return none => modify fun c => { c with returnValue := none }
  | .return (some e) => do
    let v ← onScope (sem.evaluate e)
    modify fun c => { c with returnValue := some v }
  | .ifStatement branches elseStatements => do
    executeStatements exec (← onScope (sem.chooseBranch branches elseStatements))
  | .caseStatement expression branches elseStatements => do
    executeStatements exec (← onScope (sem.chooseStatements expression branches elseStatements))
  | .loopStatement _ statements => executeLoop exec statements n
  | .whileStatement _ condition statements => executeWhile sem exec condition statements n
  | .forStatement _ variableName lowerBound upperBound reverse statements => do
    executeFor exec variableName statements (← onScope (sem.range lowerBound upperBound reverse))
  | .exit _ condition => do
    -- the label is not looked at
    if ← onScope (sem.holds condition) then
      modify fun c => { c with returnValue := some .null }
  | .continue _ condition => do
    let _ ← onScope (sem.holds condition)
  | .block declarations statements othersHandler => do
    onScope (sem.declare declarations)
    executeBlockStatements exec othersHandler statements

end Execution

/-- Execute a single statement within a procedure -/
def executeStatement (sem : Semantics E A W) : ℕ → Statement E A → ProcM W Unit
  | 0, _ => throw .outOfSteps
  | n + 1, s => executeWith sem (executeStatement sem n) n s

end Procedure

end Rustgresql
