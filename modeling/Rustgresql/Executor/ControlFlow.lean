import Rustgresql.Executor.Procedure

/-!
# Control flow of procedures

RETURN ends the procedure, EXIT the loop that it names or the innermost one, and CONTINUE the iteration.
`run` executes statements so, with signals. The executor has one mark for all of them, the return value,
and `executeStatement_eq` says when that is enough.
-/

namespace Rustgresql.Procedure

open StateSpec

variable {E A W : Type}

/-- How a statement ends. -/
inductive Signal
  | normal
  | returned (v : Option Value)
  | exit (label : Option String)
  | «continue» (label : Option String)

/-- The scope, and whether a jump has been made that the executor does not make: EXIT, CONTINUE, RETURN
without an expression, or RETURN in a handler before its last statement. -/
structure Reference (W : Type) where
  scope : Scope W
  jumped : Bool

abbrev RefM (W α : Type) := EStateM Stop (Reference W) α

def onReference {α : Type} (x : ScopeM W α) : RefM W α := fun c =>
  match x c.scope with
  | .ok a s => .ok a { c with scope := s }
  | .error e s => .error e { c with scope := s }

/-- Make a jump that the executor does not make. -/
def jump (signal : Signal) : RefM W Signal := do
  modify fun c => { c with jumped := true }
  return signal

/-! ## Reference semantics -/

section Reference

variable (sem : Semantics E A W) (exec : Statement E A → RefM W Signal)

/-- Go on after a normal end. -/
def andThen (next : RefM W Signal) : Signal → RefM W Signal
  | .normal => next
  | signal => pure signal

/-- Run statements until one of them ends with a signal. -/
def runStatements : List (Statement E A) → RefM W Signal
  | [] => pure .normal
  | s :: statements => exec s >>= andThen (runStatements statements)

/-- Run the statements of a handler. -/
def runHandler : List (Statement E A) → RefM W Signal
  | [] => pure .normal
  | s :: statements => do
    match ← exec s with
    | .normal => runHandler statements
    | signal => if statements.isEmpty then pure signal else jump signal

def runGuarded (othersHandler : Option (List (Statement E A))) (s : Statement E A) :
    RefM W Signal := fun c =>
  match exec s c with
  | .ok signal c' => .ok signal c'
  | .error .outOfSteps c' => .error .outOfSteps c'
  | .error (.failed e) c' =>
    match othersHandler with
    | some handler => runHandler exec handler c'
    | none => .error (.failed e) c'

def runBlockStatements (othersHandler : Option (List (Statement E A))) :
    List (Statement E A) → RefM W Signal
  | [] => pure .normal
  | s :: statements =>
    runGuarded exec othersHandler s >>= andThen (runBlockStatements othersHandler statements)

/-- A jump without a label means the innermost loop. -/
def means (label : Option String) : Option String → Bool
  | none => true
  | some target => label = some target

/-- What a loop does after an iteration. -/
def afterIteration (label : Option String) (again : RefM W Signal) : Signal → RefM W Signal
  | .normal => again
  | .exit target => pure (if means label target then .normal else .exit target)
  | .continue target => if means label target then again else pure (.continue target)
  | .returned v => pure (.returned v)

def runLoop (label : Option String) (statements : List (Statement E A)) : ℕ → RefM W Signal
  | 0 => throw .outOfSteps
  | n + 1 => runStatements exec statements >>= afterIteration label (runLoop label statements n)

def runWhile (label : Option String) (condition : E) (statements : List (Statement E A)) :
    ℕ → RefM W Signal
  | 0 => throw .outOfSteps
  | n + 1 => do
    if (← onReference (sem.evaluate condition)).isTrue then
      runStatements exec statements >>= afterIteration label (runWhile label condition statements n)
    else
      pure .normal

def runFor (label : Option String) (variableName : String) (statements : List (Statement E A)) :
    List ℤ → RefM W Signal
  | [] => pure .normal
  | i :: is => do
    onReference (Semantics.setVariable variableName (.integer i))
    runStatements exec statements >>= afterIteration label (runFor label variableName statements is)

/-- Run a statement, if its parts are run by `exec`. -/
def runWith (n : ℕ) : Statement E A → RefM W Signal
  | .sql a => do
    onReference (sem.run a)
    return .normal
  | .perform e => do
    let _ ← onReference (sem.evaluate e)
    return .normal
  | .declare declarations => do
    onReference (sem.declare declarations)
    return .normal
  | .return none => jump (.returned none)
  | .return (some e) => do
    let v ← onReference (sem.evaluate e)
    return .returned (some v)
  | .ifStatement branches elseStatements => do
    runStatements exec (← onReference (sem.chooseBranch branches elseStatements))
  | .caseStatement expression branches elseStatements => do
    runStatements exec (← onReference (sem.chooseStatements expression branches elseStatements))
  | .loopStatement label statements => runLoop exec label statements n
  | .whileStatement label condition statements => runWhile sem exec label condition statements n
  | .forStatement label variableName lowerBound upperBound reverse statements => do
    runFor exec label variableName statements (← onReference (sem.range lowerBound upperBound reverse))
  | .exit label condition => do
    if ← onReference (sem.holds condition) then jump (.exit label) else return .normal
  | .continue label condition => do
    if ← onReference (sem.holds condition) then jump (.continue label) else return .normal
  | .block declarations statements othersHandler => do
    onReference (sem.declare declarations)
    runBlockStatements exec othersHandler statements

end Reference

/-- Run a statement -/
def run (sem : Semantics E A W) : ℕ → Statement E A → RefM W Signal
  | 0, _ => throw .outOfSteps
  | n + 1, s => runWith sem (run sem n) n s

/-! ## Simulation -/

/-- The return value that a signal stands for. -/
def Signal.value : Signal → Option Value
  | returned v => v
  | _ => none

/-- Signals that the return value can stand for. -/
def Signal.Plain : Signal → Prop
  | normal => True
  | returned v => v.isSome
  | _ => False

/-- What the executor has to leave. -/
def image : EStateM.Result Stop (Reference W) Signal → EStateM.Result Stop (Context W) Unit
  | .ok signal c => .ok () ⟨c.scope, signal.value⟩
  | .error e c => .error e ⟨c.scope, none⟩

/-- Unless the reference makes a jump of its own, the executor does what it does. -/
def Simulates (r : RefM W Signal) (x : ProcM W Unit) : Prop :=
  ∀ c, (final r c).jumped = false → c.jumped = false ∧ (∀ s c', r c = .ok s c' → s.Plain) ∧
    x ⟨c.scope, none⟩ = image (r c)

/-- A jump that has been made stays made. -/
def KeepsJumps (r : RefM W Signal) : Prop := ∀ c, (final r c).jumped = false → c.jumped = false

variable {r r' : RefM W Signal} {x x' : ProcM W Unit}

theorem Simulates.keepsJumps (h : Simulates r x) : KeepsJumps r := fun c hc => (h c hc).1

theorem keepsJumps_pure (signal : Signal) : KeepsJumps (W := W) (pure signal) := fun _ h => h

theorem keepsJumps_jump (signal : Signal) : KeepsJumps (W := W) (jump signal) := by
  intro c h
  cases h

theorem simulates_normal : Simulates (W := W) (pure .normal) (pure ()) := by
  refine fun c hc => ⟨hc, fun s c' h => ?_, rfl⟩
  cases h
  trivial

/-- Where the reference fails, there is no signal. -/
theorem plain_of_error {c c' : Reference W} {e : Stop} (h : r c = .error e c') :
    ∀ s c', r c = .ok s c' → s.Plain := by
  intro s c'' hs
  cases h.symm.trans hs

theorem simulates_throw (e : Stop) : Simulates (W := W) (throw e) (throw e) :=
  fun _ hc => ⟨hc, plain_of_error rfl, rfl⟩

/-- What is done on the scope is the same on both sides. -/
theorem simulates_onScope {α : Type} {y : ScopeM W α} {f : α → RefM W Signal} {g : α → ProcM W Unit}
    (h : ∀ a, Simulates (f a) (g a)) : Simulates (onReference y >>= f) (onScope y >>= g) := by
  intro c hc
  rcases hy : y c.scope with ⟨a, s⟩ | ⟨e, s⟩
  · have href : onReference y c = .ok a { c with scope := s } := by rw [onReference, hy]
    have hproc : onScope y ⟨c.scope, none⟩ = .ok a ⟨s, none⟩ := by rw [onScope, hy]
    rw [final_bind_of_ok href] at hc
    rw [bind_of_ok href, bind_of_ok hproc]
    exact h a _ hc
  · have href : onReference y c = .error e { c with scope := s } := by rw [onReference, hy]
    have hproc : onScope y ⟨c.scope, none⟩ = .error e ⟨s, none⟩ := by rw [onScope, hy]
    rw [final_bind_of_error href] at hc
    refine ⟨hc, plain_of_error (bind_of_error href), ?_⟩
    rw [bind_of_error href, bind_of_error hproc]
    rfl

/-- A continuation that goes on after a normal end, and passes a return on unless it is a jump. -/
theorem Simulates.bind (h : Simulates r x) {k : Signal → RefM W Signal} {g : Unit → ProcM W Unit}
    (hkeeps : ∀ signal, KeepsJumps (k signal)) (hnormal : Simulates (k .normal) (g ()))
    (hreturned : ∀ v c, (final (k (.returned (some v))) c).jumped = false →
      k (.returned (some v)) c = .ok (.returned (some v)) c ∧
        g () ⟨c.scope, some v⟩ = .ok () ⟨c.scope, some v⟩) :
    Simulates (r >>= k) (x >>= g) := by
  intro c hc
  rcases hr : r c with ⟨signal, c'⟩ | ⟨e, c'⟩
  · rw [final_bind_of_ok hr] at hc
    have hfirst : (final r c).jumped = false := by
      rw [final, hr]
      exact hkeeps signal c' hc
    obtain ⟨hjumped, hplain, hx⟩ := h c hfirst
    rw [hr, image] at hx
    rw [bind_of_ok hr, bind_of_ok hx]
    have hsignal := hplain signal c' hr
    cases signal with
    | normal => exact ⟨hjumped, (hnormal c' hc).2⟩
    | returned v =>
      obtain ⟨v, rfl⟩ := Option.isSome_iff_exists.mp hsignal
      obtain ⟨hk, hg⟩ := hreturned v c' hc
      rw [hk]
      refine ⟨hjumped, fun s c'' hs => ?_, hg⟩
      cases hs
      rfl
    | exit label => exact hsignal.elim
    | «continue» label => exact hsignal.elim
  · rw [final_bind_of_error hr] at hc
    have hfirst : (final r c).jumped = false := by rwa [final, hr]
    obtain ⟨hjumped, -, hx⟩ := h c hfirst
    rw [hr, image] at hx
    refine ⟨hjumped, plain_of_error (bind_of_error hr), ?_⟩
    rw [bind_of_error hr, bind_of_error hx]
    rfl

theorem Simulates.andThen (h : Simulates r x) (h' : Simulates r' x') :
    Simulates (r >>= Procedure.andThen r') (do x; if ← isReturning then pure () else x') := by
  refine h.bind (fun signal => ?_) h' fun v c _ => ⟨rfl, rfl⟩
  cases signal with
  | normal => exact h'.keepsJumps
  | returned v => exact keepsJumps_pure _
  | exit label => exact keepsJumps_pure _
  | «continue» label => exact keepsJumps_pure _

theorem Simulates.afterIteration (h : Simulates r x) (h' : Simulates r' x') (label : Option String) :
    Simulates (r >>= Procedure.afterIteration label r')
      (do x; if ← isReturning then pure () else x') := by
  refine h.bind (fun signal => ?_) h' fun v c _ => ⟨rfl, rfl⟩
  cases signal with
  | normal => exact h'.keepsJumps
  | returned v => exact keepsJumps_pure _
  | exit target => exact keepsJumps_pure _
  | «continue» target =>
    rw [Procedure.afterIteration]
    split
    · exact h'.keepsJumps
    · exact keepsJumps_pure _

/-- A block that is returning executes no more statements. -/
theorem executeBlockStatements_returning (othersHandler : Option (List (Statement E A)))
    {exec : Statement E A → ProcM W Unit} (statements : List (Statement E A)) (s : Scope W) (v : Value) :
    executeBlockStatements exec othersHandler statements ⟨s, some v⟩ = .ok () ⟨s, some v⟩ := by
  cases statements <;> rfl

theorem simulates_scope (y : ScopeM W Unit) :
    Simulates (do onReference y; return .normal) (onScope y) := by
  rw [← bind_pure_unit (x := onScope y)]
  exact simulates_onScope fun _ => simulates_normal

section Statements

variable {sem : Semantics E A W} {refer : Statement E A → RefM W Signal}
  {exec : Statement E A → ProcM W Unit} (h : ∀ s, Simulates (refer s) (exec s))
include h

theorem simulates_statements (statements : List (Statement E A)) :
    Simulates (runStatements refer statements) (executeStatements exec statements) := by
  induction statements with
  | nil => exact simulates_normal
  | cons s statements ih => exact (h s).andThen ih

theorem simulates_loop (label : Option String) (statements : List (Statement E A)) (n : ℕ) :
    Simulates (runLoop refer label statements n) (executeLoop exec statements n) := by
  induction n with
  | zero => exact simulates_throw _
  | succ n ih => exact (simulates_statements h statements).afterIteration ih label

theorem simulates_while (label : Option String) (condition : E) (statements : List (Statement E A))
    (n : ℕ) : Simulates (runWhile sem refer label condition statements n)
      (executeWhile sem exec condition statements n) := by
  induction n with
  | zero => exact simulates_throw _
  | succ n ih =>
    refine simulates_onScope fun v => ?_
    by_cases hv : v.isTrue
    · rw [if_pos hv, if_pos hv]
      exact (simulates_statements h statements).afterIteration ih label
    · rw [if_neg hv, if_neg hv]
      exact simulates_normal

theorem simulates_for (label : Option String) (variableName : String) (statements : List (Statement E A))
    (is : List ℤ) : Simulates (runFor refer label variableName statements is)
      (executeFor exec variableName statements is) := by
  induction is with
  | nil => exact simulates_normal
  | cons i is ih =>
    refine simulates_onScope fun _ => ?_
    exact (simulates_statements h statements).afterIteration ih label

/-- A handler that does not return before its last statement. -/
theorem simulates_handler (statements : List (Statement E A)) :
    Simulates (runHandler refer statements) (executeHandler exec statements) := by
  induction statements with
  | nil => exact simulates_normal
  | cons s statements ih =>
    refine (h s).bind (fun signal => ?_) ih fun v c hc => ?_
    · cases signal with
      | normal => exact ih.keepsJumps
      | _ =>
        dsimp only
        split
        · exact keepsJumps_pure _
        · exact keepsJumps_jump _
    · cases statements with
      | nil => exact ⟨rfl, rfl⟩
      | cons s' statements => cases hc

theorem simulates_guarded (othersHandler : Option (List (Statement E A))) (s : Statement E A) :
    Simulates (runGuarded refer othersHandler s) (executeGuarded exec othersHandler s) := by
  intro c hc
  have hs := h s c
  rw [final] at hc hs
  rcases hrun : refer s c with ⟨signal, c'⟩ | ⟨e, c'⟩
  · have href : runGuarded refer othersHandler s c = .ok signal c' := by rw [runGuarded, hrun]
    rw [href] at hc ⊢
    rw [hrun] at hs
    obtain ⟨hjumped, hplain, hexec⟩ := hs hc
    refine ⟨hjumped, hplain, ?_⟩
    rw [executeGuarded, hexec]
    rfl
  rw [hrun] at hs
  cases e with
  | outOfSteps =>
    have href : runGuarded refer othersHandler s c = .error .outOfSteps c' := by rw [runGuarded, hrun]
    rw [href] at hc
    obtain ⟨hjumped, -, hexec⟩ := hs hc
    refine ⟨hjumped, plain_of_error href, ?_⟩
    rw [executeGuarded, hexec, href]
    rfl
  | failed e =>
    cases othersHandler with
    | none =>
      have href : runGuarded refer none s c = .error (.failed e) c' := by rw [runGuarded, hrun]
      rw [href] at hc
      obtain ⟨hjumped, -, hexec⟩ := hs hc
      refine ⟨hjumped, plain_of_error href, ?_⟩
      rw [executeGuarded, hexec, href]
      rfl
    | some handler =>
      have href : runGuarded refer (some handler) s c = runHandler refer handler c' := by
        rw [runGuarded, hrun]
      rw [href] at hc
      obtain ⟨hjumped', hplain, hhandler⟩ := simulates_handler h handler c' hc
      obtain ⟨hjumped, -, hexec⟩ := hs hjumped'
      rw [href]
      refine ⟨hjumped, hplain, ?_⟩
      rw [executeGuarded, hexec]
      exact hhandler

theorem simulates_block (othersHandler : Option (List (Statement E A)))
    (statements : List (Statement E A)) :
    Simulates (runBlockStatements refer othersHandler statements)
      (executeBlockStatements exec othersHandler statements) := by
  induction statements with
  | nil => exact simulates_normal
  | cons s statements ih =>
    have hbind : Simulates (runBlockStatements refer othersHandler (s :: statements)) (do
        executeGuarded exec othersHandler s
        executeBlockStatements exec othersHandler statements) := by
      refine (simulates_guarded h othersHandler s).bind (fun signal => ?_) ih fun v c _ => ?_
      · cases signal with
        | normal => exact ih.keepsJumps
        | _ => exact keepsJumps_pure _
      · exact ⟨rfl, executeBlockStatements_returning ..⟩
    -- nothing has been returned before the first statement
    exact hbind

theorem simulates_with (n : ℕ) (s : Statement E A) :
    Simulates (runWith sem refer n s) (executeWith sem exec n s) := by
  cases s with
  | sql a => exact simulates_scope _
  | perform e => exact simulates_onScope fun _ => simulates_normal
  | declare declarations => exact simulates_scope _
  | «return» expression =>
    cases expression with
    | none =>
      intro c hc
      cases hc
    | some e =>
      refine simulates_onScope fun v c hc => ⟨hc, fun s c' hs => ?_, rfl⟩
      cases hs
      rfl
  | ifStatement branches elseStatements => exact simulates_onScope fun _ => simulates_statements h _
  | caseStatement expression branches elseStatements =>
    exact simulates_onScope fun _ => simulates_statements h _
  | loopStatement label statements => exact simulates_loop h label statements n
  | whileStatement label condition statements => exact simulates_while h label condition statements n
  | forStatement label variableName lowerBound upperBound reverse statements =>
    exact simulates_onScope fun is => simulates_for h label variableName statements is
  | exit label condition =>
    refine simulates_onScope fun holds => ?_
    cases holds with
    | true =>
      intro c hc
      cases hc
    | false => exact simulates_normal
  | «continue» label condition =>
    refine simulates_onScope fun holds => ?_
    cases holds with
    | true =>
      intro c hc
      cases hc
    | false => exact simulates_normal
  | block declarations statements othersHandler =>
    exact simulates_onScope fun _ => simulates_block h othersHandler statements

end Statements

theorem simulates_run (sem : Semantics E A W) (n : ℕ) (s : Statement E A) :
    Simulates (run sem n s) (executeStatement sem n s) := by
  induction n generalizing s with
  | zero => exact simulates_throw _
  | succ n ih => exact simulates_with ih n s

/-- A procedure body in whose run no EXIT or CONTINUE takes effect, no RETURN is without an expression,
and none stands in a handler before its last statement, is executed as RETURN, EXIT and CONTINUE ask. -/
theorem executeStatement_eq (sem : Semantics E A W) (n : ℕ) (body : Statement E A) (s : Scope W)
    (h : (final (run sem n body) ⟨s, false⟩).jumped = false) :
    executeStatement sem n body ⟨s, none⟩ = image (run sem n body ⟨s, false⟩) :=
  (simulates_run sem n body ⟨s, false⟩ h).2.2

/-- Literals as expressions, and a statement that counts how often it is executed. -/
def counting : Semantics Value Unit ℕ where
  run _ := modify fun s => { s with world := s.world + 1 }
  evaluate v := pure v
  equals v w := v.eq w

/-- Three iterations, and a return before a last statement. -/
theorem executeStatement_iterations :
    executeStatement counting 9 (.block [] [.forStatement none "i" (.integer 1) (.integer 3) false [.sql ()],
        .return (some (.integer 7)), .sql ()] none) ⟨⟨∅, 0⟩, none⟩ =
      image (run counting 9 (.block [] [.forStatement none "i" (.integer 1) (.integer 3) false [.sql ()],
        .return (some (.integer 7)), .sql ()] none) ⟨⟨∅, 0⟩, false⟩) :=
  executeStatement_eq counting 9 _ ⟨∅, 0⟩ rfl

/-- EXIT ends the procedure. -/
theorem exit_ends_procedure :
    ¬ ∀ (n : ℕ) (body : Statement Value Unit) (s : Scope ℕ),
      executeStatement counting n body ⟨s, none⟩ = image (run counting n body ⟨s, false⟩) := by
  intro h
  have hrun := h 9 (.block [] [.loopStatement none [.exit none none], .sql ()] none) ⟨∅, 0⟩
  have hworld : (0 : ℕ) = 1 := congrArg (fun r => (match r with
    | .ok _ c => c.scope.world
    | .error _ c => c.scope.world : ℕ)) hrun
  exact absurd hworld (by decide)

end Rustgresql.Procedure
