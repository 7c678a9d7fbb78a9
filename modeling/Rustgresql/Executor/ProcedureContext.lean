import Rustgresql.Lib.Lockstep
import Rustgresql.Executor.Procedure

/-!
# Stacks of a procedure context

A block pushes a frame and a labelled loop its label, and both pop at their end. An error passes over the
pop, so what was pushed stays. All frames declare into one map of variables.
-/

namespace Rustgresql.Procedure

open StateSpec

variable {E A W W' : Type}

/-- Procedure execution frame representing a block scope. There are no cursors to keep in it. -/
structure ExecutionFrame where
  values : HashMap String Value
  label : Option String

/-- The stacks of a procedure context, the last entry first. -/
structure Stacks where
  callStack : List ExecutionFrame
  loopStack : List String

/-- What a statement puts on a stack while it is executed. -/
inductive Entry
  | frame
  | label (name : String)

def Statement.entry : Statement E A → Option Entry
  | .block .. => some .frame
  | .loopStatement label _ | .whileStatement label _ _ | .forStatement label .. => label.map .label
  | _ => none

namespace Stacks

def push : Option Entry → Stacks → Stacks
  | some .frame, st => { st with callStack := ⟨∅, none⟩ :: st.callStack }
  | some (.label name), st => { st with loopStack := name :: st.loopStack }
  | none, st => st

/-- The entry on top goes, whichever it is. -/
def pop : Option Entry → Stacks → Stacks
  | some .frame, st => { st with callStack := st.callStack.tail }
  | some (.label _), st => { st with loopStack := st.loopStack.tail }
  | none, st => st

end Stacks

/-! ## Execution -/

/-- What SQL statements do and what expressions evaluate to. They read the variables of the context. -/
structure Interpretation (E A W : Type) where
  run : A → HashMap String Value → EStateM Stop W Unit
  evaluate : E → HashMap String Value → EStateM Stop W Value
  equals : Value → Value → Bool

/-- Read the variables, beside a part `G` of the context that is not touched. -/
def reading (G : Type) {α : Type} (x : HashMap String Value → EStateM Stop W α) : ScopeM (W × G) α :=
  fun s =>
    match x s.values s.world.1 with
    | .ok a w => .ok a { s with world := (w, s.world.2) }
    | .error e w => .error e { s with world := (w, s.world.2) }

def Interpretation.beside (itp : Interpretation E A W) (G : Type) : Semantics E A (W × G) where
  run a := reading G (itp.run a)
  evaluate e := reading G (itp.evaluate e)
  equals := itp.equals

/-- Procedure execution state -/
abbrev ProcedureContext (W : Type) := Context (W × Stacks)

namespace ProcedureContext

def stack (c : ProcedureContext W) : Stacks := c.scope.world.2

def modifyStacks (f : Stacks → Stacks) (c : ProcedureContext W) : ProcedureContext W :=
  { c with scope := { c.scope with world := (c.scope.world.1, f c.stack) } }

end ProcedureContext

/-- Execute a single statement within a procedure, with the stacks. -/
def executeStacked (itp : Interpretation E A W) : ℕ → Statement E A → ProcM (W × Stacks) Unit
  | 0, _ => throw .outOfSteps
  | n + 1, s => do
    modify (ProcedureContext.modifyStacks (Stacks.push s.entry))
    executeWith (itp.beside Stacks) (executeStacked itp n) n s
    modify (ProcedureContext.modifyStacks (Stacks.pop s.entry))

theorem executeStacked_succ (itp : Interpretation E A W) (n : ℕ) (s : Statement E A)
    (c : ProcedureContext W) : executeStacked itp (n + 1) s c =
      (executeWith (itp.beside Stacks) (executeStacked itp n) n s >>= fun _ =>
        modify (ProcedureContext.modifyStacks (Stacks.pop s.entry)))
        (c.modifyStacks (Stacks.push s.entry)) := rfl

/-! ## Watched executions -/

/-- What is watched: whether an error has left a statement that puts something on a stack, and the
variables that statements have bound. -/
structure Watch where
  left : Bool
  bound : List String

/-- The variables that a statement binds, not counting its parts. -/
def Statement.binds : Statement E A → List String
  | .declare declarations | .block declarations _ _ => declarations.map Prod.fst
  | .forStatement _ variableName .. => [variableName]
  | _ => []

def onWatch (f : Watch → Watch) (c : Context (W × Watch)) : Context (W × Watch) :=
  { c with scope := { c.scope with world := (c.scope.world.1, f c.scope.world.2) } }

/-- Mark the context if an error leaves a statement that puts something on a stack. -/
def watch (entry : Option Entry) (x : ProcM (W × Watch) Unit) : ProcM (W × Watch) Unit := fun c =>
  match x c with
  | .ok () c' => .ok () c'
  | .error e c' => .error e (onWatch (fun w => { w with left := w.left || entry.isSome }) c')

/-- Execute a statement without stacks, and watch. -/
def executeWatched (itp : Interpretation E A W) : ℕ → Statement E A → ProcM (W × Watch) Unit
  | 0, _ => throw .outOfSteps
  | n + 1, s => do
    modify (onWatch fun w => { w with bound := s.binds ++ w.bound })
    watch s.entry (executeWith (itp.beside Watch) (executeWatched itp n) n s)

/-- What is watched in the execution of a statement. -/
def watched (itp : Interpretation E A W) (n : ℕ) (s : Statement E A) (c : ProcedureContext W) : Watch :=
  (final (executeWatched itp n s)
    ⟨⟨c.scope.values, (c.scope.world.1, ⟨false, []⟩)⟩, c.returnValue⟩).scope.world.2

/-! ## Coupled executions -/

/-- Two interpretations of expressions and SQL statements that keep contexts related, if only variables
of `names` are bound. -/
structure Coupled (R : Context W → Context W' → Prop) (names : List String) (sem : Semantics E A W)
    (sem' : Semantics E A W') : Prop where
  returnValue {c c'} : R c c' → c.returnValue = c'.returnValue
  setReturnValue {c c'} (v) : R c c' → R { c with returnValue := v } { c' with returnValue := v }
  setVariable {name} (v) : name ∈ names →
    Lockstep R (onScope (Semantics.setVariable name v)) (onScope (Semantics.setVariable name v))
  run (a) : Lockstep R (onScope (sem.run a)) (onScope (sem'.run a))
  evaluate (e) : Lockstep R (onScope (sem.evaluate e)) (onScope (sem'.evaluate e))
  equals : sem.equals = sem'.equals

theorem onScope_bind {α β : Type} (x : ScopeM W α) (f : α → ScopeM W β) :
    onScope (x >>= f) = onScope x >>= fun a => onScope (f a) := by
  funext c
  cases h : x c.scope with
  | ok a s =>
    have hx : onScope x c = .ok a { c with scope := s } := by rw [onScope, h]
    rw [bind_of_ok hx, onScope, bind_of_ok h]
    rfl
  | error e s =>
    have hx : onScope x c = .error e { c with scope := s } := by rw [onScope, h]
    rw [bind_of_error hx, onScope, bind_of_error h]

namespace Coupled

variable {R : Context W → Context W' → Prop} {names : List String} {sem : Semantics E A W}
  {sem' : Semantics E A W'}

/-- A first step on the scope. -/
theorem onScope_bind {α β : Type} {x : ScopeM W α} {x' : ScopeM W' α} {f : α → ScopeM W β}
    {f' : α → ScopeM W' β} (hx : Lockstep R (onScope x) (onScope x'))
    (hf : ∀ a, Lockstep R (onScope (f a)) (onScope (f' a))) :
    Lockstep R (onScope (x >>= f)) (onScope (x' >>= f')) := by
  rw [Procedure.onScope_bind, Procedure.onScope_bind]
  exact hx.bind hf

section

variable {exec : Statement E A → ProcM W Unit} {exec' : Statement E A → ProcM W' Unit}
  (hexec : ∀ s, Lockstep R (exec s) (exec' s))
include hexec

theorem handler (statements : List (Statement E A)) :
    Lockstep R (executeHandler exec statements) (executeHandler exec' statements) := by
  induction statements with
  | nil => exact .pure ()
  | cons s statements ih => exact (hexec s).bind fun _ => ih

theorem guarded (othersHandler : Option (List (Statement E A))) (s : Statement E A) :
    Lockstep R (executeGuarded exec othersHandler s) (executeGuarded exec' othersHandler s) := by
  intro c c' hc
  unfold executeGuarded
  obtain ⟨a, d, d', hs, hs', hd⟩ | ⟨e, d, d', hs, hs', hd⟩ := hexec s c c' hc
  · rw [hs, hs']
    exact .inl ⟨(), d, d', rfl, rfl, hd⟩
  · rw [hs, hs']
    cases e with
    | outOfSteps => exact .inr ⟨_, d, d', rfl, rfl, hd⟩
    | failed e =>
      cases othersHandler with
      | none => exact .inr ⟨_, d, d', rfl, rfl, hd⟩
      | some statements => exact handler hexec statements d d' hd

end

variable (h : Coupled R names sem sem')
include h

theorem isReturning : Lockstep R isReturning isReturning := by
  refine Lockstep.get_bind fun c c' hc => ?_
  rw [h.returnValue hc]
  exact .pure _

/-- Go on unless the procedure returns. -/
theorem unlessReturning {x : ProcM W Unit} {x' : ProcM W' Unit} (hx : Lockstep R x x') :
    Lockstep R (do if ← Procedure.isReturning then pure () else x)
      (do if ← Procedure.isReturning then pure () else x') := by
  refine h.isReturning.bind fun b => ?_
  cases b with
  | false => exact hx
  | true => exact .pure ()

/-! ### Expressions -/

theorem declare {declarations : Declarations E} (hnames : declarations.map Prod.fst ⊆ names) :
    Lockstep R (onScope (sem.declare declarations)) (onScope (sem'.declare declarations)) := by
  induction declarations with
  | nil => exact .pure ()
  | cons d declarations ih =>
    obtain ⟨name, default⟩ := d
    obtain ⟨hname, hrest⟩ := List.cons_subset.mp hnames
    have hset : ∀ v, Lockstep R (onScope (Semantics.setVariable name v >>= fun _ => sem.declare declarations))
        (onScope (Semantics.setVariable name v >>= fun _ => sem'.declare declarations)) :=
      fun v => onScope_bind (h.setVariable v hname) fun _ => ih hrest
    cases default with
    | none => exact hset .null
    | some e => exact onScope_bind (h.evaluate e) hset

theorem chooseBranch (branches : List (E × List (Statement E A))) (elseStatements : List (Statement E A)) :
    Lockstep R (onScope (sem.chooseBranch branches elseStatements))
      (onScope (sem'.chooseBranch branches elseStatements)) := by
  induction branches with
  | nil => exact .pure _
  | cons b branches ih =>
    refine onScope_bind (h.evaluate b.1) fun v => ?_
    by_cases hv : v.isTrue
    · rw [if_pos hv, if_pos hv]
      exact .pure _
    · rw [if_neg hv, if_neg hv]
      exact ih

theorem chooseCase (v : Value) (branches : List (E × List (Statement E A)))
    (elseStatements : List (Statement E A)) :
    Lockstep R (onScope (sem.chooseCase v branches elseStatements))
      (onScope (sem'.chooseCase v branches elseStatements)) := by
  induction branches with
  | nil => exact .pure _
  | cons b branches ih =>
    refine onScope_bind (h.evaluate b.1) fun w => ?_
    rw [h.equals]
    by_cases hw : sem'.equals v w
    · rw [if_pos hw, if_pos hw]
      exact .pure _
    · rw [if_neg hw, if_neg hw]
      exact ih

theorem chooseStatements (expression : Option E) (branches : List (E × List (Statement E A)))
    (elseStatements : List (Statement E A)) :
    Lockstep R (onScope (sem.chooseStatements expression branches elseStatements))
      (onScope (sem'.chooseStatements expression branches elseStatements)) := by
  cases expression with
  | none => exact h.chooseBranch branches elseStatements
  | some e => exact onScope_bind (h.evaluate e) fun v => h.chooseCase v branches elseStatements

theorem range (lowerBound upperBound : E) (reverse : Bool) :
    Lockstep R (onScope (sem.range lowerBound upperBound reverse))
      (onScope (sem'.range lowerBound upperBound reverse)) := by
  refine onScope_bind (h.evaluate lowerBound) fun lower => ?_
  refine onScope_bind (h.evaluate upperBound) fun upper => ?_
  split
  · split <;> exact .pure _
  · exact .throw _

theorem holds (condition : Option E) :
    Lockstep R (onScope (sem.holds condition)) (onScope (sem'.holds condition)) := by
  cases condition with
  | none => exact .pure _
  | some e => exact onScope_bind (h.evaluate e) fun _ => .pure _

/-! ### Statements -/

variable {exec : Statement E A → ProcM W Unit} {exec' : Statement E A → ProcM W' Unit}
  (hexec : ∀ s, Lockstep R (exec s) (exec' s))
include hexec

theorem statements (statements : List (Statement E A)) :
    Lockstep R (executeStatements exec statements) (executeStatements exec' statements) := by
  induction statements with
  | nil => exact .pure ()
  | cons s statements ih => exact (hexec s).bind fun _ => h.unlessReturning ih

theorem blockStatements (othersHandler : Option (List (Statement E A)))
    (statements : List (Statement E A)) :
    Lockstep R (executeBlockStatements exec othersHandler statements)
      (executeBlockStatements exec' othersHandler statements) := by
  induction statements with
  | nil => exact .pure ()
  | cons s statements ih =>
    exact h.unlessReturning ((guarded hexec othersHandler s).bind fun _ => ih)

theorem loop (statements : List (Statement E A)) (n : ℕ) :
    Lockstep R (executeLoop exec statements n) (executeLoop exec' statements n) := by
  induction n with
  | zero => exact .throw _
  | succ n ih => exact (h.statements hexec statements).bind fun _ => h.unlessReturning ih

theorem whileLoop (condition : E) (statements : List (Statement E A)) (n : ℕ) :
    Lockstep R (executeWhile sem exec condition statements n)
      (executeWhile sem' exec' condition statements n) := by
  induction n with
  | zero => exact .throw _
  | succ n ih =>
    refine (h.evaluate condition).bind fun v => ?_
    by_cases hv : v.isTrue
    · rw [if_pos hv, if_pos hv]
      exact (h.statements hexec statements).bind fun _ => h.unlessReturning ih
    · rw [if_neg hv, if_neg hv]
      exact .pure ()

theorem forLoop {variableName : String} (hname : variableName ∈ names) (statements : List (Statement E A)) (is : List ℤ) :
    Lockstep R (executeFor exec variableName statements is)
      (executeFor exec' variableName statements is) := by
  induction is with
  | nil => exact .pure ()
  | cons i is ih =>
    refine (h.setVariable (.integer i) hname).bind fun _ => ?_
    exact (h.statements hexec statements).bind fun _ => h.unlessReturning ih

theorem executeWith (n : ℕ) {s : Statement E A} (hnames : s.binds ⊆ names) :
    Lockstep R (executeWith sem exec n s) (executeWith sem' exec' n s) := by
  cases s with
  | sql a => exact h.run a
  | perform e => exact (h.evaluate e).bind fun _ => .pure ()
  | declare declarations => exact h.declare hnames
  | «return» expression =>
    cases expression with
    | none => exact .modify fun c c' => h.setReturnValue none
    | some e => exact (h.evaluate e).bind fun v => .modify fun c c' => h.setReturnValue (some v)
  | ifStatement branches elseStatements =>
    exact (h.chooseBranch branches elseStatements).bind fun _ => h.statements hexec _
  | caseStatement expression branches elseStatements =>
    exact (h.chooseStatements expression branches elseStatements).bind fun _ => h.statements hexec _
  | loopStatement label statements => exact h.loop hexec statements n
  | whileStatement label condition statements => exact h.whileLoop hexec condition statements n
  | forStatement label variableName lowerBound upperBound reverse statements =>
    exact (h.range lowerBound upperBound reverse).bind fun is =>
      h.forLoop hexec (hnames (List.mem_singleton_self _)) statements is
  | exit label condition =>
    refine (h.holds condition).bind fun b => ?_
    cases b with
    | false => exact .pure ()
    | true => exact .modify fun c c' => h.setReturnValue (some .null)
  | «continue» label condition => exact (h.holds condition).bind fun _ => .pure ()
  | block declarations statements othersHandler =>
    exact (h.declare hnames).bind fun _ => h.blockStatements hexec othersHandler statements

end Coupled

theorem lockstep_reading {G G' α : Type} {R : Context (W × G) → Context (W × G') → Prop}
    (hvalues : ∀ c c', R c c' → c.scope.values = c'.scope.values ∧ c.scope.world.1 = c'.scope.world.1)
    (hset : ∀ c c' w, R c c' → R ⟨⟨c.scope.values, (w, c.scope.world.2)⟩, c.returnValue⟩
      ⟨⟨c.scope.values, (w, c'.scope.world.2)⟩, c'.returnValue⟩)
    (x : HashMap String Value → EStateM Stop W α) :
    Lockstep R (onScope (reading G x)) (onScope (reading G' x)) := by
  intro c c' hc
  obtain ⟨hv, hw⟩ := hvalues c c' hc
  unfold onScope reading
  rw [← hv, ← hw]
  cases x c.scope.values c.scope.world.1 with
  | ok a w => exact .inl ⟨a, _, _, rfl, rfl, hset c c' w hc⟩
  | error e w => exact .inr ⟨e, _, _, rfl, rfl, hset c c' w hc⟩

/-- Contexts that differ in their stacks only. -/
structure SameScope (c c' : ProcedureContext W) : Prop where
  values : c.scope.values = c'.scope.values
  world : c.scope.world.1 = c'.scope.world.1
  returnValue : c.returnValue = c'.returnValue

theorem coupled_sameScope (itp : Interpretation E A W) (names : List String) :
    Coupled SameScope names (itp.beside Stacks) (itp.beside Stacks) := by
  have hreading {α : Type} (x : HashMap String Value → EStateM Stop W α) :
      Lockstep SameScope (onScope (reading Stacks x)) (onScope (reading Stacks x)) :=
    lockstep_reading (fun c c' h => ⟨h.values, h.world⟩) (fun c c' w h => ⟨rfl, rfl, h.returnValue⟩) x
  exact {
    returnValue := fun h => h.returnValue
    setReturnValue := fun v h => ⟨h.values, h.world, rfl⟩
    setVariable := fun {name} v _ c c' h => .inl ⟨(), _, _, rfl, rfl,
      congrArg (fun m : HashMap String Value => m.insert name v) h.values, h.world, h.returnValue⟩
    run := fun a => hreading (itp.run a)
    evaluate := fun e => hreading (itp.evaluate e)
    equals := rfl }

/-- Nothing reads the stacks: apart from them, the execution is that of a procedure without stacks. -/
theorem lockstep_executeStatement (itp : Interpretation E A W) (n : ℕ) (s : Statement E A) :
    Lockstep SameScope (executeStacked itp n s) (executeStatement (itp.beside Stacks) n s) := by
  induction n generalizing s with
  | zero => exact .throw _
  | succ n ih =>
    intro c c' h
    rw [executeStacked_succ, executeStatement]
    obtain ⟨a, d, d', hs, hs', hd⟩ | ⟨e, d, d', hs, hs', hd⟩ :=
      (coupled_sameScope itp s.binds).executeWith ih n (List.Subset.refl _)
        (c.modifyStacks (Stacks.push s.entry)) c' ⟨h.values, h.world, h.returnValue⟩
    · rw [bind_of_ok hs]
      exact .inl ⟨(), _, d', rfl, hs', hd.values, hd.world, hd.returnValue⟩
    · rw [bind_of_error hs]
      exact .inr ⟨e, d, d', rfl, hs', hd⟩

/-! ## Stacks and escaping errors -/

namespace Stacks

/-- Beside the stacks `st` that are expected, `left` tells whether entries have been left on them. -/
def Agrees (st st' : Stacks) (left : Bool) : Prop :=
  if left then
    st.callStack.length ≤ st'.callStack.length ∧ st.loopStack.length ≤ st'.loopStack.length ∧
      st.callStack.length + st.loopStack.length < st'.callStack.length + st'.loopStack.length
  else st' = st

theorem Agrees.left_eq_false_iff {st st' : Stacks} {left : Bool} (h : Agrees st st' left) :
    left = false ↔ st' = st := by
  cases left with
  | false => exact iff_of_true rfl h
  | true =>
    refine iff_of_false Bool.noConfusion fun heq => ?_
    obtain ⟨-, -, hlt⟩ := h
    rw [heq] at hlt
    exact lt_irrefl _ hlt

theorem Agrees.push {st st' : Stacks} {left : Bool} (h : Agrees st st' left) (entry : Option Entry) :
    Agrees (st.push entry) (st'.push entry) left := by
  cases left with
  | false =>
    obtain rfl : st' = st := h
    exact rfl
  | true =>
    obtain ⟨hcall, hloop, hlt⟩ := h
    rcases entry with - | - | name
    · exact ⟨hcall, hloop, hlt⟩
    all_goals
      simp only [Agrees, Stacks.push, List.length_cons, if_true]
      omega

theorem Agrees.pop {st st' : Stacks} {left : Bool} {entry : Option Entry}
    (h : Agrees (st.push entry) st' left) : Agrees st (st'.pop entry) left := by
  cases left with
  | false =>
    obtain rfl : st' = st.push entry := h
    rcases entry with - | - | name <;> rfl
  | true =>
    rcases entry with - | - | name
    · exact h
    all_goals
      simp only [Agrees, Stacks.push, Stacks.pop, List.length_cons, List.length_tail, if_true] at h ⊢
      omega

/-- Where nothing is popped, an entry is left. -/
theorem Agrees.abandon {st st' : Stacks} {left : Bool} {entry : Option Entry}
    (h : Agrees (st.push entry) st' left) : Agrees st st' (left || entry.isSome) := by
  rcases entry with - | - | name
  · rwa [Option.isSome_none, Bool.or_false]
  all_goals
    rw [Option.isSome_some, Bool.or_true]
    cases left with
    | false =>
      obtain rfl := h
      simp only [Agrees, Stacks.push, List.length_cons, if_true]
      omega
    | true =>
      simp only [Agrees, Stacks.push, List.length_cons, if_true] at h ⊢
      omega

end Stacks

/-- The same context, once with stacks and once watched. The variables of `names` have been bound, and
those that have not been bound have the values that they had. -/
structure SameBut (st : Stacks) (start : HashMap String Value) (names : List String)
    (c : ProcedureContext W) (c' : Context (W × Watch)) : Prop where
  values : c.scope.values = c'.scope.values
  world : c.scope.world.1 = c'.scope.world.1
  returnValue : c.returnValue = c'.returnValue
  agrees : st.Agrees c.stack c'.scope.world.2.left
  bound : names ⊆ c'.scope.world.2.bound
  unbound (x : String) : x ∉ c'.scope.world.2.bound → c.scope.values.lookup x = start.lookup x

theorem coupled_sameBut (itp : Interpretation E A W) (st : Stacks) (start : HashMap String Value)
    (names : List String) :
    Coupled (SameBut st start names) names (itp.beside Stacks) (itp.beside Watch) := by
  have hreading {α : Type} (x : HashMap String Value → EStateM Stop W α) :
      Lockstep (SameBut st start names) (onScope (reading Stacks x)) (onScope (reading Watch x)) :=
    lockstep_reading (fun c c' h => ⟨h.values, h.world⟩)
      (fun c c' w h => ⟨rfl, rfl, h.returnValue, h.agrees, h.bound, h.unbound⟩) x
  have hset {name : String} (v : Value) (hname : name ∈ names) : Lockstep (SameBut (W := W) st start names)
      (onScope (Semantics.setVariable name v)) (onScope (Semantics.setVariable name v)) := by
    refine fun c c' h => .inl ⟨(), _, _, rfl, rfl,
      congrArg (fun m : HashMap String Value => m.insert name v) h.values, h.world, h.returnValue,
      h.agrees, h.bound, fun x hx => ?_⟩
    have hne : x ≠ name := by
      rintro rfl
      exact hx (h.bound hname)
    exact (AList.lookup_insert_ne hne).trans (h.unbound x hx)
  exact {
    returnValue := fun h => h.returnValue
    setReturnValue := fun v h => ⟨h.values, h.world, rfl, h.agrees, h.bound, h.unbound⟩
    setVariable := hset
    run := fun a => hreading (itp.run a)
    evaluate := fun e => hreading (itp.evaluate e)
    equals := rfl }

/-- An execution with stacks leaves entries on them if and only if an error leaves a statement that has
put one there, and it leaves the variables alone that it does not bind. -/
theorem lockstep_executeWatched (itp : Interpretation E A W) (n : ℕ) (s : Statement E A) (st : Stacks)
    (start : HashMap String Value) (names : List String) :
    Lockstep (SameBut st start names) (executeStacked itp n s) (executeWatched itp n s) := by
  induction n generalizing s st names with
  | zero => exact .throw _
  | succ n ih =>
    intro c c' h
    have hpushed : SameBut (st.push s.entry) start (s.binds ++ names)
        (c.modifyStacks (Stacks.push s.entry))
        (onWatch (fun w => { w with bound := s.binds ++ w.bound }) c') :=
      ⟨h.values, h.world, h.returnValue, h.agrees.push s.entry, List.append_subset.mpr ⟨List.subset_append_left _ _,
          List.subset_append_of_subset_right _ h.bound⟩,
        fun x hx => h.unbound x fun hmem => hx (List.mem_append_right _ hmem)⟩
    have hrun' : executeWatched itp (n + 1) s c' =
        watch s.entry (executeWith (itp.beside Watch) (executeWatched itp n) n s)
          (onWatch (fun w => { w with bound := s.binds ++ w.bound }) c') := rfl
    rw [executeStacked_succ, hrun', watch]
    obtain ⟨a, d, d', hs, hs', hd⟩ | ⟨e, d, d', hs, hs', hd⟩ :=
      (coupled_sameBut itp (st.push s.entry) start (s.binds ++ names)).executeWith
        (fun s => ih s _ _) n (List.subset_append_left _ _) _ _ hpushed
    · rw [bind_of_ok hs, hs']
      exact .inl ⟨(), _, d', rfl, rfl, hd.values, hd.world, hd.returnValue, hd.agrees.pop,
        fun x hx => hd.bound (List.mem_append_right _ hx), hd.unbound⟩
    · rw [bind_of_error hs, hs']
      exact .inr ⟨e, d, _, rfl, rfl, hd.values, hd.world, hd.returnValue, hd.agrees.abandon,
        fun x hx => hd.bound (List.mem_append_right _ hx), hd.unbound⟩

/-! ## Visible variables -/

def ProcedureContext.Visible (x : String) (c : ProcedureContext W) : Prop :=
  (c.scope.values.lookup x).isSome

open ProcedureContext

theorem visible_insert (x : String) {c : ProcedureContext W} {name : String} {v : Value}
    (h : name = x ∨ Visible x c) :
    Visible x { c with scope := { c.scope with values := c.scope.values.insert name v } } := by
  unfold Visible at h ⊢
  dsimp only
  rw [HashMap.lookup_insert_eq]
  split
  · rfl
  · exact h.resolve_left (by simpa [eq_comm] using ‹¬ _›)

/-- No variable ever goes. -/
theorem coupled_visible (itp : Interpretation E A W) (x : String) (names : List String) :
    Coupled (fun c d : ProcedureContext W => d = c ∧ Visible x c) names (itp.beside Stacks)
      (itp.beside Stacks) := by
  have hreading {α : Type} (y : HashMap String Value → EStateM Stop W α) :
      Lockstep (fun c d : ProcedureContext W => d = c ∧ Visible x c) (onScope (reading Stacks y))
        (onScope (reading Stacks y)) := by
    refine lockstep_reading ?_ ?_ y
    · rintro c c' ⟨rfl, -⟩
      exact ⟨rfl, rfl⟩
    · rintro c c' w ⟨rfl, h⟩
      exact ⟨rfl, h⟩
  exact {
    returnValue := fun h => by rw [h.1]
    setReturnValue := fun v h => ⟨by rw [h.1], h.2⟩
    setVariable := fun v _ => .of_keeps fun c h => visible_insert x (.inr h)
    run := fun a => hreading (itp.run a)
    evaluate := fun e => hreading (itp.evaluate e)
    equals := rfl }

theorem keeps_visible (itp : Interpretation E A W) (x : String) (n : ℕ) (s : Statement E A) :
    Keeps (Visible x) (executeStacked itp n s) := by
  induction n generalizing s with
  | zero => exact .throw _
  | succ n ih =>
    refine Keeps.bind (.modify fun c h => h) fun _ => Keeps.bind ?_ fun _ => .modify fun c h => h
    exact ((coupled_visible itp x s.binds).executeWith (fun s => .of_keeps (ih s)) n (List.Subset.refl _)).keeps

/-- Declared variables are visible. -/
theorem visible_declare (itp : Interpretation E A W) (declarations : Declarations E)
    (c : ProcedureContext W) :
    Spec (onScope ((itp.beside Stacks).declare declarations)) c
      (fun _ c' => ∀ x ∈ declarations.map Prod.fst, Visible x c') fun _ _ => True := by
  induction declarations generalizing c with
  | nil => exact Spec.pure nofun
  | cons d declarations ih =>
    obtain ⟨name, default⟩ := d
    have hset (v : Value) (c : ProcedureContext W) :
        Spec (onScope (Semantics.setVariable name v >>= fun _ =>
          (itp.beside Stacks).declare declarations)) c
          (fun _ c' => ∀ x ∈ name :: declarations.map Prod.fst, Visible x c') fun _ _ => True := by
      rw [onScope_bind]
      refine Spec.bind (Q := fun _ c' => Visible name c') (visible_insert name (.inl rfl))
        fun _ c' hname => ?_
      have hkept := ((coupled_visible itp name (declarations.map Prod.fst)).declare (List.Subset.refl _)).keeps
        c' hname
      refine (hkept.and (ih c')).mono ?_ fun _ _ _ => trivial
      rintro _ c'' ⟨hname, hrest⟩ x hx
      obtain rfl | hx := List.mem_cons.mp hx
      · exact hname
      · exact hrest x hx
    cases default with
    | none => exact hset .null c
    | some e =>
      have hrun : (itp.beside Stacks).declare ((name, some e) :: declarations) =
          ((itp.beside Stacks).evaluate e >>= fun v => Semantics.setVariable name v >>= fun _ =>
            (itp.beside Stacks).declare declarations) := rfl
      rw [hrun, onScope_bind]
      exact Spec.bind (Q := fun _ _ => True) (Keeps.true _ c trivial) fun v c' _ => hset v c'

/-! ## Contexts restored -/

/-- The statement declares the variable in the block that it is a part of. -/
inductive Statement.Declares (x : String) : Statement E A → Prop
  | declare {declarations} : x ∈ declarations.map Prod.fst → Declares x (.declare declarations)
  | ifBranch {branches elseStatements b s} : b ∈ branches → s ∈ b.2 → Declares x s →
      Declares x (.ifStatement branches elseStatements)
  | ifElse {branches elseStatements s} : s ∈ elseStatements → Declares x s →
      Declares x (.ifStatement branches elseStatements)
  | caseBranch {expression branches elseStatements b s} : b ∈ branches → s ∈ b.2 → Declares x s →
      Declares x (.caseStatement expression branches elseStatements)
  | caseElse {expression branches elseStatements s} : s ∈ elseStatements → Declares x s →
      Declares x (.caseStatement expression branches elseStatements)
  | loop {label statements s} : s ∈ statements → Declares x s →
      Declares x (.loopStatement label statements)
  | while {label condition statements s} : s ∈ statements → Declares x s →
      Declares x (.whileStatement label condition statements)
  | for {label variableName lowerBound upperBound reverse statements s} : s ∈ statements →
      Declares x s →
      Declares x (.forStatement label variableName lowerBound upperBound reverse statements)

/-- The variables of a block: those of its declarations, and those of the DECLARE statements in it. -/
def Statement.IsLocal (x : String) : Statement E A → Prop
  | .block declarations statements othersHandler =>
    x ∈ declarations.map Prod.fst ∨ (∃ s ∈ statements, s.Declares x) ∨
      ∃ handler, othersHandler = some handler ∧ ∃ s ∈ handler, s.Declares x
  | _ => False

/-- The execution ends, with or without an error. -/
def EndsIn (r : EStateM.Result Stop (ProcedureContext W) Unit) (c : ProcedureContext W) : Prop :=
  r = .ok () c ∨ ∃ e, r = .error (.failed e) c

/-- The stacks are as before, and so are the variables that the statement declares for itself. -/
structure Restores (s : Statement E A) (c c' : ProcedureContext W) : Prop where
  callStack : c'.stack.callStack = c.stack.callStack
  loopStack : c'.stack.loopStack = c.stack.loopStack
  values (x : String) : s.IsLocal x → c'.scope.values.lookup x = c.scope.values.lookup x

theorem Restores.stack_eq {s : Statement E A} {c c' : ProcedureContext W} (h : Restores s c c') :
    c'.stack = c.stack := by
  obtain ⟨hcall, hloop, -⟩ := h
  generalize c'.stack = st' at hcall hloop
  generalize c.stack = st at hcall hloop
  cases st'
  cases st
  exact congr (congrArg Stacks.mk hcall) hloop

theorem sameBut_start (c : ProcedureContext W) :
    SameBut c.stack c.scope.values [] c
      ⟨⟨c.scope.values, (c.scope.world.1, ⟨false, []⟩)⟩, c.returnValue⟩ :=
  ⟨rfl, rfl, rfl, rfl, List.nil_subset _, fun _ _ => rfl⟩

/-- What is watched tells whether entries are left on the stacks, and which variables can have changed. -/
theorem watched_of_endsIn {itp : Interpretation E A W} {n : ℕ} {s : Statement E A}
    {c c' : ProcedureContext W} (hends : EndsIn (executeStacked itp n s c) c') :
    c.stack.Agrees c'.stack (watched itp n s c).left ∧
      ∀ x ∉ (watched itp n s c).bound, c'.scope.values.lookup x = c.scope.values.lookup x := by
  unfold watched final
  obtain ⟨a, d, d', hrun, hwatched, hd⟩ | ⟨e, d, d', hrun, hwatched, hd⟩ :=
    lockstep_executeWatched itp n s c.stack c.scope.values [] c _ (sameBut_start c)
  all_goals
    rw [hrun] at hends
    rw [hwatched]
    obtain hend | ⟨e, hend⟩ := hends <;> cases hend
    exact ⟨hd.agrees, hd.unbound⟩

/-- The variables that a block declares are visible once it has ended without an error. -/
theorem visible_of_block {itp : Interpretation E A W} {n : ℕ} {declarations : Declarations E}
    {statements : List (Statement E A)} {othersHandler : Option (List (Statement E A))}
    {c c' : ProcedureContext W}
    (hrun : executeStacked itp n (.block declarations statements othersHandler) c = .ok () c')
    {x : String} (hx : x ∈ declarations.map Prod.fst) : Visible x c' := by
  cases n with
  | zero => cases hrun
  | succ n =>
    have hspec : Spec (executeStacked itp (n + 1) (.block declarations statements othersHandler)) c
        (fun _ c' => Visible x c') fun _ _ => True := by
      refine Spec.bind (Q := fun _ _ => True) trivial fun _ c₀ _ => ?_
      refine Spec.bind (Q := fun _ c' => Visible x c') ?_ fun _ c₁ h => h
      refine Spec.bind ((visible_declare itp declarations c₀).conseq fun _ c₁ h => h x hx)
        fun _ c₁ h => ?_
      have hkept := ((coupled_visible itp x []).blockStatements
        (fun s => .of_keeps (keeps_visible itp x n s)) othersHandler statements).keeps c₁ h
      exact hkept.mono (fun _ _ h => h) fun _ _ _ => trivial
    exact hspec.post hrun

/-- An error that ends a block leaves its frame. -/
theorem left_of_block {itp : Interpretation E A W} {n : ℕ} {declarations : Declarations E}
    {statements : List (Statement E A)} {othersHandler : Option (List (Statement E A))}
    {c c' : ProcedureContext W} {e : Failure}
    (hrun : executeStacked itp n (.block declarations statements othersHandler) c =
      .error (.failed e) c') :
    (watched itp n (.block declarations statements othersHandler) c).left = true := by
  cases n with
  | zero => cases hrun
  | succ n =>
    obtain ⟨a, d, d', hd, -⟩ | ⟨e', d, d', -, hwatched, -⟩ := lockstep_executeWatched itp (n + 1)
      (.block declarations statements othersHandler) c.stack c.scope.values [] c _ (sameBut_start c)
    · cases hrun.symm.trans hd
    · unfold watched final
      rw [hwatched]
      change watch _ _ _ = _ at hwatched
      rw [watch] at hwatched
      split at hwatched <;> cases hwatched
      exact Bool.or_true _

/-- If no error leaves a block or a labelled loop, and no variable of the statement is bound, the context is
restored. If one does, the stacks are not, and a variable that a block declares is visible after it in any
case, so the context is not restored where it was not visible before. -/
theorem restores_iff (itp : Interpretation E A W) (n : ℕ) (s : Statement E A) (c c' : ProcedureContext W)
    (hends : EndsIn (executeStacked itp n s c) c') :
    ((watched itp n s c).left = false ∧ (∀ x ∈ (watched itp n s c).bound, ¬ s.IsLocal x) →
        Restores s c c') ∧
      (Restores s c c' → (watched itp n s c).left = false ∧
        ∀ declarations statements othersHandler, s = .block declarations statements othersHandler →
          ∀ x ∈ declarations.map Prod.fst, Visible x c) := by
  obtain ⟨hagrees, hunbound⟩ := watched_of_endsIn hends
  constructor
  · rintro ⟨hleft, hlocal⟩
    have hstack := hagrees.left_eq_false_iff.mp hleft
    exact ⟨congrArg Stacks.callStack hstack, congrArg Stacks.loopStack hstack,
      fun x hx => hunbound x fun hbound => hlocal x hbound hx⟩
  · intro h
    have hleft : (watched itp n s c).left = false := hagrees.left_eq_false_iff.mpr h.stack_eq
    refine ⟨hleft, ?_⟩
    rintro declarations statements othersHandler rfl x hx
    obtain hrun | ⟨e, hrun⟩ := hends
    · have hvisible := visible_of_block hrun hx
      rwa [Visible, h.values x (.inl hx)] at hvisible
    · cases (left_of_block hrun).symm.trans hleft

/-- Literals as expressions, and RAISE statements. -/
def raising : Interpretation Value String Unit where
  run message _ := throw (.failed (.err (.procedure message)))
  evaluate v _ := pure v
  equals v w := v.eq w

/-- A labelled loop over a block that handles its error. -/
theorem restores_handledLoop :
    ∃ c', EndsIn (executeStacked raising 3 (.forStatement (some "l") "i" (.integer 1) (.integer 2) false
        [.block [] [.sql "RAISE EXCEPTION: No message"] (some [])])
        ⟨⟨∅, ((), ⟨[⟨∅, none⟩], []⟩)⟩, none⟩) c' ∧
      Restores (.forStatement (some "l") "i" (.integer 1) (.integer 2) false
        [.block [] [.sql "RAISE EXCEPTION: No message"] (some [])] : Statement Value String)
        ⟨⟨∅, ((), ⟨[⟨∅, none⟩], []⟩)⟩, none⟩ c' :=
  ⟨_, .inl rfl, (restores_iff raising 3 _ _ _ (.inl rfl)).1 ⟨rfl, fun _ _ h => h⟩⟩

/-- The inner block declares a variable and raises an error that the outer block handles. -/
theorem not_restores_raised :
    ¬ ∀ (n : ℕ) (s : Statement Value String) (c c' : ProcedureContext Unit),
      EndsIn (executeStacked raising n s c) c' → Restores s c c' := by
  intro h
  have hcall := (h 3 (.block [] [.block [("x", none)] [.sql "RAISE EXCEPTION: No message"] none] (some []))
    ⟨⟨∅, ((), ⟨[], []⟩)⟩, none⟩ _ (.inl rfl)).callStack
  cases hcall

end Rustgresql.Procedure
