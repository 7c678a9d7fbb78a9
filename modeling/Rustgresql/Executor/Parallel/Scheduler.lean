import Rustgresql.Basic
import Rustgresql.Lib.HashMap
import Rustgresql.Lib.StateSpec

/-!
# Task scheduler (`executor/parallel/scheduler.rs`)

Workers take tasks from their local queues and from the global queue, and put a task whose dependencies
are not completed at the front of their local queue, where they find it again. `correct_iff`: no task is
executed twice or before its dependencies, and the workers never get stuck exactly if, whenever none of
them is completing a task, one of the tasks that they can get at is ready.
-/

namespace Rustgresql

/-- Unique identifier for parallel tasks -/
abbrev TaskId := UInt64

/-- Represents a parallel task to be executed -/
structure ParallelTask (Cost : Type) where
  id : TaskId
  priority : UInt32
  estimatedCost : Cost
  dependencies : List TaskId
  workerAffinity : Option ℕ
  deriving DecidableEq

/-- What a worker does next. -/
inductive WorkerState (Cost TaskResult : Type)
  /-- look into the local queue -/
  | idle
  /-- look into the global queue -/
  | localEmpty
  /-- steal from the other end of the global queue -/
  | globalEmpty
  /-- check the dependencies of a task -/
  | holding (task : ParallelTask Cost)
  /-- execute it -/
  | satisfied (task : ParallelTask Cost)
  /-- put it back -/
  | unsatisfied (task : ParallelTask Cost)
  /-- record its completion -/
  | executed (task : ParallelTask Cost) (result : TaskResult)
  /-- update the load balancer -/
  | completed (task : ParallelTask Cost)
  /-- look for the tasks that depend on it -/
  | balanced (task : ParallelTask Cost)
  /-- process them -/
  | processing (dependentTasks : List TaskId)

/-- What happens to the tasks. -/
inductive TaskEvent (Cost : Type)
  | executed (task : ParallelTask Cost)
  | completed (id : TaskId)

/-- Work-stealing task scheduler, its workers, and what happened -/
structure TaskScheduler (Cost TaskResult : Type) (numWorkers : ℕ) where
  globalQueue : List (ParallelTask Cost)
  localQueues : Fin numWorkers → List (ParallelTask Cost)
  completedTasks : HashMap TaskId TaskResult
  pendingTasks : HashMap TaskId (List TaskId)
  workers : Fin numWorkers → WorkerState Cost TaskResult
  log : List (TaskEvent Cost)

section Model

variable {Cost TaskResult : Type} {numWorkers : ℕ}

def ParallelTask.hasDependencies (self : ParallelTask Cost) : Bool := !self.dependencies.isEmpty

/-- Insert task into queue sorted by priority and estimated cost -/
def insertTaskSorted (greater : Cost → Cost → Bool) (queue : List (ParallelTask Cost))
    (task : ParallelTask Cost) : List (ParallelTask Cost) :=
  let insertPos := queue.findIdx? fun existingTask =>
    task.priority < existingTask.priority ||
      task.priority == existingTask.priority && greater task.estimatedCost existingTask.estimatedCost
  queue.insertIdx (insertPos.getD queue.length) task

/-- Check if task dependencies are satisfied -/
def dependenciesSatisfied (task : ParallelTask Cost) (completedTasks : HashMap TaskId TaskResult) : Bool :=
  if !task.hasDependencies then true
  else task.dependencies.all fun depId => (completedTasks.lookup depId).isSome

namespace TaskScheduler

/-- Create a new task scheduler -/
def new (Cost TaskResult : Type) (numWorkers : ℕ) : TaskScheduler Cost TaskResult numWorkers where
  globalQueue := []
  localQueues _ := []
  completedTasks := ∅
  pendingTasks := ∅
  workers _ := .idle
  log := []

/-- Schedule a task for execution -/
def scheduleTask (greater : Cost → Cost → Bool) (self : TaskScheduler Cost TaskResult numWorkers)
    (task : ParallelTask Cost) : TaskScheduler Cost TaskResult numWorkers :=
  let pending :=
    if task.hasDependencies then
      task.dependencies.foldl
        (fun pending depId => pending.insert depId ((pending.lookup depId).getD [] ++ [task.id]))
        self.pendingTasks
    else self.pendingTasks
  let toGlobal : TaskScheduler Cost TaskResult numWorkers :=
    { self with
      pendingTasks := pending
      globalQueue := insertTaskSorted greater self.globalQueue task }
  match task.workerAffinity with
  | some targetWorker =>
    if h : targetWorker < numWorkers then
      let worker : Fin numWorkers := ⟨targetWorker, h⟩
      { self with
        pendingTasks := pending
        localQueues := Function.update self.localQueues worker
          (insertTaskSorted greater (self.localQueues worker) task) }
    else toGlobal
  | none => toGlobal

/-- Rebalance tasks across workers -/
def rebalanceTasks (globalQueue : List (ParallelTask Cost)) : List (ParallelTask Cost) :=
  if globalQueue.length > 10 then
    let half := globalQueue.length / 2
    globalQueue.take half ++ (globalQueue.drop half).reverse
  else globalQueue

/-- A dependent task is moved to the front of the global queue if it is ready, otherwise to the back. -/
def processDependentTask (completedTasks : HashMap TaskId TaskResult)
    (globalQueue : List (ParallelTask Cost)) (dependentId : TaskId) : List (ParallelTask Cost) :=
  match globalQueue.find? (·.id == dependentId) with
  | some task =>
    let others := globalQueue.eraseP (·.id == dependentId)
    if dependenciesSatisfied task completedTasks then task :: others else others ++ [task]
  | none => globalQueue

def setWorker (self : TaskScheduler Cost TaskResult numWorkers) (worker : Fin numWorkers)
    (state : WorkerState Cost TaskResult) : TaskScheduler Cost TaskResult numWorkers :=
  { self with workers := Function.update self.workers worker state }

def setLocal (self : TaskScheduler Cost TaskResult numWorkers) (worker : Fin numWorkers)
    (queue : List (ParallelTask Cost)) : TaskScheduler Cost TaskResult numWorkers :=
  { self with localQueues := Function.update self.localQueues worker queue }

/-- The next step of a worker. Whether the load balancer asks for rebalancing depends on the time. -/
def step (taskExecutor : ParallelTask Cost → TaskResult) (self : TaskScheduler Cost TaskResult numWorkers)
    (worker : Fin numWorkers) (shouldRebalance : Bool) : TaskScheduler Cost TaskResult numWorkers :=
  match self.workers worker with
  | .idle =>
    match self.localQueues worker with
    | task :: rest => (self.setLocal worker rest).setWorker worker (.holding task)
    | [] => self.setWorker worker .localEmpty
  | .localEmpty =>
    match self.globalQueue with
    | task :: rest => { self with globalQueue := rest }.setWorker worker (.holding task)
    | [] => self.setWorker worker .globalEmpty
  | .globalEmpty =>
    match self.globalQueue.getLast? with
    | some task =>
      { self with globalQueue := self.globalQueue.dropLast }.setWorker worker (.holding task)
    | none => self.setWorker worker .idle
  | .holding task =>
    self.setWorker worker
      (if dependenciesSatisfied task self.completedTasks then .satisfied task else .unsatisfied task)
  | .satisfied task =>
    { self with log := self.log ++ [TaskEvent.executed task] }.setWorker worker (.executed task (taskExecutor task))
  | .unsatisfied task =>
    (self.setLocal worker (task :: self.localQueues worker)).setWorker worker .idle
  | .executed task result =>
    { self with
      completedTasks := self.completedTasks.insert task.id result
      log := self.log ++ [TaskEvent.completed task.id] }.setWorker worker (.completed task)
  | .completed task =>
    { self with
      globalQueue := if shouldRebalance then rebalanceTasks self.globalQueue else self.globalQueue
    }.setWorker worker (.balanced task)
  | .balanced task =>
    { self with pendingTasks := self.pendingTasks.erase task.id }.setWorker worker
      (.processing ((self.pendingTasks.lookup task.id).getD []))
  | .processing (dependentId :: dependentTasks) =>
    { self with
      globalQueue := processDependentTask self.completedTasks self.globalQueue dependentId
    }.setWorker worker (.processing dependentTasks)
  | .processing [] => self.setWorker worker .idle

/-- Steps one after the other. -/
def run (taskExecutor : ParallelTask Cost → TaskResult) (self : TaskScheduler Cost TaskResult numWorkers)
    (steps : List (Fin numWorkers × Bool)) : TaskScheduler Cost TaskResult numWorkers :=
  steps.foldl (fun s p => s.step taskExecutor p.1 p.2) self

end TaskScheduler

/-- Tasks with distinct ids and acyclic dependencies among them. -/
structure TaskSet (Cost : Type) where
  tasks : List (ParallelTask Cost)
  nodup : (tasks.map (·.id)).Nodup
  closed : ∀ t ∈ tasks, ∀ d ∈ t.dependencies, d ∈ tasks.map (·.id)
  acyclic : ∃ rank : TaskId → ℕ, ∀ t ∈ tasks, ∀ d ∈ t.dependencies, rank d < rank t.id

/-- A scheduler for which tasks were scheduled. -/
def TaskSet.scheduler (tasks : TaskSet Cost) (greater : Cost → Cost → Bool) (TaskResult : Type)
    (numWorkers : ℕ) : TaskScheduler Cost TaskResult numWorkers :=
  tasks.tasks.foldl (TaskScheduler.scheduleTask greater) (.new Cost TaskResult numWorkers)

/-! ## Single steps -/

theorem dependenciesSatisfied_iff {task : ParallelTask Cost} {completedTasks : HashMap TaskId TaskResult} :
    dependenciesSatisfied task completedTasks = true ↔
      ∀ d ∈ task.dependencies, (completedTasks.lookup d).isSome = true := by
  unfold dependenciesSatisfied ParallelTask.hasDependencies
  rcases task.dependencies with - | ⟨d, ds⟩
  · simp
  · simp

/-- Completed tasks stay completed. -/
theorem dependenciesSatisfied_insert {task : ParallelTask Cost} {completedTasks : HashMap TaskId TaskResult}
    (h : dependenciesSatisfied task completedTasks = true) (id : TaskId) (result : TaskResult) :
    dependenciesSatisfied task (completedTasks.insert id result) = true := by
  rw [dependenciesSatisfied_iff] at h ⊢
  intro d hd
  rw [HashMap.lookup_insert_eq]
  split
  · rfl
  · exact h d hd

/-- The task that a worker has taken and not executed. -/
def WorkerState.held : WorkerState Cost TaskResult → List (ParallelTask Cost)
  | .holding task | .satisfied task | .unsatisfied task => [task]
  | _ => []

/-- The worker looks for a task. -/
def WorkerState.isLooking : WorkerState Cost TaskResult → Bool
  | .idle | .localEmpty | .globalEmpty => true
  | _ => false

/-- The worker has executed a task and does not look for the next one yet. -/
def WorkerState.isCompleting : WorkerState Cost TaskResult → Bool
  | .executed _ _ | .completed _ | .balanced _ | .processing _ => true
  | _ => false

def TaskEvent.executed? : TaskEvent Cost → Option (ParallelTask Cost)
  | .executed task => some task
  | .completed _ => none

namespace TaskScheduler

/-- The tasks that were executed. -/
def executedTasks (self : TaskScheduler Cost TaskResult numWorkers) : List (ParallelTask Cost) :=
  self.log.filterMap TaskEvent.executed?

variable {s : TaskScheduler Cost TaskResult numWorkers} {w w' : Fin numWorkers}
  {state : WorkerState Cost TaskResult} {queue : List (ParallelTask Cost)} {b : Bool}
  {exec : ParallelTask Cost → TaskResult} {steps : List (Fin numWorkers × Bool)}

@[simp] theorem setWorker_workers_self : (s.setWorker w state).workers w = state := by
  simp [setWorker]

theorem setWorker_workers_of_ne (h : w' ≠ w) : (s.setWorker w state).workers w' = s.workers w' := by
  simp [setWorker, h]

@[simp] theorem setLocal_localQueues_self : (s.setLocal w queue).localQueues w = queue := by
  simp [setLocal]

theorem setLocal_localQueues_of_ne (h : w' ≠ w) : (s.setLocal w queue).localQueues w' = s.localQueues w' := by
  simp [setLocal, h]

@[simp] theorem setWorker_globalQueue : (s.setWorker w state).globalQueue = s.globalQueue := rfl

@[simp] theorem setWorker_localQueues : (s.setWorker w state).localQueues = s.localQueues := rfl

@[simp] theorem setWorker_completedTasks : (s.setWorker w state).completedTasks = s.completedTasks := rfl

@[simp] theorem setWorker_log : (s.setWorker w state).log = s.log := rfl

@[simp] theorem setLocal_globalQueue : (s.setLocal w queue).globalQueue = s.globalQueue := rfl

@[simp] theorem setLocal_workers : (s.setLocal w queue).workers = s.workers := rfl

@[simp] theorem setLocal_completedTasks : (s.setLocal w queue).completedTasks = s.completedTasks := rfl

@[simp] theorem setLocal_log : (s.setLocal w queue).log = s.log := rfl

@[simp] theorem run_nil : s.run exec [] = s := rfl

@[simp] theorem run_cons (p : Fin numWorkers × Bool) :
    s.run exec (p :: steps) = (s.step exec p.1 p.2).run exec steps := rfl

theorem run_append (steps steps' : List (Fin numWorkers × Bool)) :
    s.run exec (steps ++ steps') = (s.run exec steps).run exec steps' :=
  List.foldl_append

/-- A step of a worker leaves the other workers and their local queues alone. -/
theorem step_other (h : w' ≠ w) :
    (s.step exec w b).workers w' = s.workers w' ∧ (s.step exec w b).localQueues w' = s.localQueues w' := by
  unfold step
  split
  · split
    · exact ⟨setWorker_workers_of_ne h, setLocal_localQueues_of_ne h⟩
    · exact ⟨setWorker_workers_of_ne h, rfl⟩
  · split
    · exact ⟨setWorker_workers_of_ne h, rfl⟩
    · exact ⟨setWorker_workers_of_ne h, rfl⟩
  · split
    · exact ⟨setWorker_workers_of_ne h, rfl⟩
    · exact ⟨setWorker_workers_of_ne h, rfl⟩
  · exact ⟨setWorker_workers_of_ne h, rfl⟩
  · exact ⟨setWorker_workers_of_ne h, rfl⟩
  · exact ⟨setWorker_workers_of_ne h, setLocal_localQueues_of_ne h⟩
  · exact ⟨setWorker_workers_of_ne h, rfl⟩
  · exact ⟨setWorker_workers_of_ne h, rfl⟩
  · exact ⟨setWorker_workers_of_ne h, rfl⟩
  · exact ⟨setWorker_workers_of_ne h, rfl⟩
  · exact ⟨setWorker_workers_of_ne h, rfl⟩

/-! ## No task is lost or doubled -/

theorem perm_rebalanceTasks (queue : List (ParallelTask Cost)) : (rebalanceTasks queue).Perm queue := by
  unfold rebalanceTasks
  split
  · have hrotate := (List.reverse_perm (queue.drop (queue.length / 2))).append_left
      (queue.take (queue.length / 2))
    rwa [List.take_append_drop] at hrotate
  · exact List.Perm.refl queue

theorem perm_processDependentTask (completedTasks : HashMap TaskId TaskResult)
    (queue : List (ParallelTask Cost)) (dependentId : TaskId) :
    (processDependentTask completedTasks queue dependentId).Perm queue := by
  unfold processDependentTask
  split
  · next task hfind =>
    have hcons : (task :: queue.eraseP (·.id == dependentId)).Perm queue := by
      obtain ⟨hid, as, bs, rfl, hbefore⟩ := List.find?_eq_some_iff_append.mp hfind
      have herase : (task :: bs).eraseP (·.id == dependentId) = bs := List.eraseP_cons_of_pos hid
      rw [List.eraseP_append_right _ (by simpa using hbefore), herase]
      exact List.perm_middle.symm
    dsimp only
    split
    · exact hcons
    · exact (List.perm_append_singleton _ _).trans hcons
  · exact List.Perm.refl queue

/-- How many tasks of a kind a worker has. -/
def countAt (s : TaskScheduler Cost TaskResult numWorkers) (p : ParallelTask Cost → Bool)
    (w : Fin numWorkers) : ℕ :=
  (s.localQueues w).countP p + (s.workers w).held.countP p

/-- How many tasks of a kind there are in all places. -/
def count (s : TaskScheduler Cost TaskResult numWorkers) (p : ParallelTask Cost → Bool) : ℕ :=
  s.globalQueue.countP p + ∑ w, s.countAt p w + s.executedTasks.countP p

/-- What is the same at all workers but one. -/
theorem sum_countAt (s' : TaskScheduler Cost TaskResult numWorkers) (p : ParallelTask Cost → Bool)
    (h : ∀ w', w' ≠ w → s'.workers w' = s.workers w' ∧ s'.localQueues w' = s.localQueues w') :
    ∑ w', s'.countAt p w' + s.countAt p w = ∑ w', s.countAt p w' + s'.countAt p w := by
  rw [← Finset.add_sum_erase _ _ (Finset.mem_univ w), ← Finset.add_sum_erase _ (s.countAt p) (Finset.mem_univ w)]
  have hrest : ∑ w' ∈ Finset.univ.erase w, s'.countAt p w' = ∑ w' ∈ Finset.univ.erase w, s.countAt p w' := by
    refine Finset.sum_congr rfl fun w' hw' => ?_
    obtain ⟨hworkers, hlocal⟩ := h w' (Finset.ne_of_mem_erase hw')
    unfold countAt
    rw [hworkers, hlocal]
  omega

variable (s w b exec) in
/-- A step moves tasks between the queues, the worker and the log. -/
theorem step_count_at (p : ParallelTask Cost → Bool) :
    (s.step exec w b).globalQueue.countP p + (s.step exec w b).countAt p w +
        (s.step exec w b).executedTasks.countP p =
      s.globalQueue.countP p + s.countAt p w + s.executedTasks.countP p := by
  rcases hw : s.workers w with - | - | - | task | task | task | ⟨task, result⟩ | task | task | (- | ⟨d, ds⟩)
  · rcases hlocal : s.localQueues w with - | ⟨task, rest⟩
    · simp [step, countAt, executedTasks, WorkerState.held, hw, hlocal]
    · simp [step, countAt, executedTasks, WorkerState.held, hw, hlocal, List.countP_cons]
  · rcases hglobal : s.globalQueue with - | ⟨task, rest⟩
    · simp [step, countAt, executedTasks, WorkerState.held, hw, hglobal]
    · simp [step, countAt, executedTasks, WorkerState.held, hw, hglobal, List.countP_cons]
      omega
  · rcases hglobal : s.globalQueue.getLast? with - | task
    · simp [step, countAt, executedTasks, WorkerState.held, hw, hglobal]
    · obtain ⟨rest, hrest⟩ := List.getLast?_eq_some_iff.mp hglobal
      simp [step, countAt, executedTasks, WorkerState.held, hw, hrest, List.countP_cons]
      omega
  · simp only [step, hw]
    split
    · simp [countAt, executedTasks, WorkerState.held, hw]
    · simp [countAt, executedTasks, WorkerState.held, hw]
  · simp [step, countAt, executedTasks, WorkerState.held, TaskEvent.executed?, hw]
    omega
  · simp [step, countAt, executedTasks, WorkerState.held, hw, List.countP_cons]
  · simp [step, countAt, executedTasks, WorkerState.held, TaskEvent.executed?, hw]
  · have hperm : (s.step exec w b).globalQueue.Perm s.globalQueue := by
      simp only [step, hw, setWorker_globalQueue]
      split
      · exact perm_rebalanceTasks s.globalQueue
      · exact List.Perm.refl s.globalQueue
    rw [hperm.countP_eq]
    simp [step, countAt, executedTasks, WorkerState.held, hw]
  · simp [step, countAt, executedTasks, WorkerState.held, hw]
  · simp [step, countAt, executedTasks, WorkerState.held, hw]
  · have hperm : (s.step exec w b).globalQueue.Perm s.globalQueue := by
      simp only [step, hw, setWorker_globalQueue]
      exact perm_processDependentTask s.completedTasks s.globalQueue d
    rw [hperm.countP_eq]
    simp [step, countAt, executedTasks, WorkerState.held, hw]

theorem step_count (p : ParallelTask Cost → Bool) : (s.step exec w b).count p = s.count p := by
  have hat := step_count_at s w b exec p
  have hsum := sum_countAt (s.step exec w b) p fun w' (hw' : w' ≠ w) => step_other hw'
  unfold count
  omega

variable (s exec steps) in
theorem run_count (p : ParallelTask Cost → Bool) : (s.run exec steps).count p = s.count p := by
  induction steps generalizing s with
  | nil => rfl
  | cons step steps ih => rw [run_cons, ih, step_count]

/-! ## No task before its dependencies -/

/-- Every task was executed after its dependencies were completed. -/
def DependenciesFirst (log : List (TaskEvent Cost)) : Prop :=
  ∀ pre t post, log = pre ++ TaskEvent.executed t :: post →
    ∀ d ∈ t.dependencies, TaskEvent.completed d ∈ pre

theorem dependenciesFirst_concat {log : List (TaskEvent Cost)} {event : TaskEvent Cost}
    (hlog : DependenciesFirst log)
    (hevent : ∀ t, event = .executed t → ∀ d ∈ t.dependencies, TaskEvent.completed d ∈ log) :
    DependenciesFirst (log ++ [event]) := by
  let P : List (TaskEvent Cost) → TaskEvent Cost → Prop := fun pre e =>
    ∀ t, e = TaskEvent.executed t → ∀ d ∈ t.dependencies, TaskEvent.completed d ∈ pre
  have hsplit : ∀ pre e post, log ++ [event] = pre ++ e :: post → P pre e := by
    refine (StateSpec.forall_split_append_singleton (P := P)).mpr ⟨?_, hevent⟩
    rintro pre e post hpre t rfl
    exact hlog pre t post hpre
  exact fun pre t post h => hsplit pre _ post h t rfl

/-- What is completed is in the log, and so are the dependencies of what is about to be executed. -/
structure Logged (s : TaskScheduler Cost TaskResult numWorkers) : Prop where
  completed : ∀ d, (s.completedTasks.lookup d).isSome = true → TaskEvent.completed d ∈ s.log
  satisfied : ∀ w t, s.workers w = .satisfied t → dependenciesSatisfied t s.completedTasks = true
  first : DependenciesFirst s.log

theorem logged_of_idle (hworkers : ∀ w, s.workers w = .idle) (hcompleted : s.completedTasks = ∅)
    (hlog : s.log = []) : Logged s := by
  refine ⟨fun d hd => ?_, fun w t hw => ?_, fun pre t post hsplit => ?_⟩
  · rw [hcompleted] at hd
    cases hd
  · rw [hworkers] at hw
    cases hw
  · rw [hlog] at hsplit
    simp at hsplit

theorem Logged.setWorker (h : Logged s)
    (hstate : ∀ t, state = .satisfied t → dependenciesSatisfied t s.completedTasks = true) :
    Logged (s.setWorker w state) := by
  refine ⟨h.completed, fun w' t hw' => ?_, h.first⟩
  by_cases hne : w' = w
  · subst hne
    rw [setWorker_workers_self] at hw'
    exact hstate t hw'
  · rw [setWorker_workers_of_ne hne] at hw'
    exact h.satisfied w' t hw'

theorem Logged.log_executed (h : Logged s) {task : ParallelTask Cost}
    (htask : dependenciesSatisfied task s.completedTasks = true) :
    Logged { s with log := s.log ++ [TaskEvent.executed task] } := by
  refine ⟨fun d hd => List.mem_append_left _ (h.completed d hd), h.satisfied, ?_⟩
  refine dependenciesFirst_concat h.first fun t ht d hd => ?_
  obtain rfl : task = t := TaskEvent.executed.inj ht
  exact h.completed d (dependenciesSatisfied_iff.mp htask d hd)

theorem Logged.complete (h : Logged s) (id : TaskId) (result : TaskResult) :
    Logged { s with
      completedTasks := s.completedTasks.insert id result
      log := s.log ++ [TaskEvent.completed id] } := by
  refine ⟨fun d hd => ?_, fun w t hw => ?_, ?_⟩
  · rw [HashMap.lookup_insert_eq] at hd
    split at hd
    · next heq =>
      rw [heq]
      exact List.mem_append_right _ List.mem_cons_self
    · exact List.mem_append_left _ (h.completed d hd)
  · exact dependenciesSatisfied_insert (h.satisfied w t hw) id result
  · exact dependenciesFirst_concat h.first fun t ht => by cases ht

theorem step_logged (h : Logged s) : Logged (s.step exec w b) := by
  unfold step
  split
  · split
    · exact Logged.setWorker ⟨h.completed, h.satisfied, h.first⟩ nofun
    · exact h.setWorker nofun
  · split
    · exact Logged.setWorker ⟨h.completed, h.satisfied, h.first⟩ nofun
    · exact h.setWorker nofun
  · split
    · exact Logged.setWorker ⟨h.completed, h.satisfied, h.first⟩ nofun
    · exact h.setWorker nofun
  · next task hw =>
    refine h.setWorker fun t ht => ?_
    split at ht
    · next hdeps =>
      obtain rfl : task = t := WorkerState.satisfied.inj ht
      exact hdeps
    · cases ht
  · next task hw => exact (h.log_executed (h.satisfied w task hw)).setWorker nofun
  · exact Logged.setWorker ⟨h.completed, h.satisfied, h.first⟩ nofun
  · next task result hw => exact (h.complete task.id result).setWorker nofun
  · exact Logged.setWorker ⟨h.completed, h.satisfied, h.first⟩ nofun
  · exact Logged.setWorker ⟨h.completed, h.satisfied, h.first⟩ nofun
  · exact Logged.setWorker ⟨h.completed, h.satisfied, h.first⟩ nofun
  · exact h.setWorker nofun

theorem run_logged (h : Logged s) : Logged (s.run exec steps) := by
  induction steps generalizing s with
  | nil => exact h
  | cons step steps ih => exact ih (step_logged h)

/-! ## Empty queues stay empty -/

/-- A worker that found its local queue or the global queue empty finds it empty again. -/
structure Sweeps (s : TaskScheduler Cost TaskResult numWorkers) : Prop where
  localEmpty : ∀ w, s.workers w = .localEmpty ∨ s.workers w = .globalEmpty → s.localQueues w = []
  globalEmpty : ∀ w, s.workers w = .globalEmpty → s.globalQueue = []

theorem sweeps_of_idle (hworkers : ∀ w, s.workers w = .idle) : Sweeps s := by
  refine ⟨fun w hw => ?_, fun w hw => ?_⟩
  · rw [hworkers] at hw
    simp at hw
  · rw [hworkers] at hw
    cases hw

theorem step_globalQueue_nil (h : s.globalQueue = []) : (s.step exec w b).globalQueue = [] := by
  rcases hw : s.workers w with - | - | - | task | task | task | ⟨task, result⟩ | task | task | (- | ⟨d, ds⟩)
  · rcases hlocal : s.localQueues w with - | ⟨task, rest⟩
    · simpa [step, hw, hlocal] using h
    · simpa [step, hw, hlocal] using h
  · simp [step, hw, h]
  · simp [step, hw, h]
  · simpa [step, hw] using h
  · simpa [step, hw] using h
  · simpa [step, hw] using h
  · simpa [step, hw] using h
  · simp [step, hw, h, rebalanceTasks]
  · simpa [step, hw] using h
  · simpa [step, hw] using h
  · simp [step, hw, h, processDependentTask]

theorem Sweeps.step_localEmpty (h : Sweeps s)
    (hw : (s.step exec w b).workers w = .localEmpty ∨ (s.step exec w b).workers w = .globalEmpty) :
    (s.step exec w b).localQueues w = [] := by
  unfold step at hw ⊢
  split at hw
  · split at hw
    · simp at hw
    · next hlocal => exact hlocal
  · next hempty =>
    have hlocal := h.localEmpty w (.inl hempty)
    split at hw
    · simp at hw
    · exact hlocal
  · split at hw
    · simp at hw
    · simp at hw
  · split at hw
    · simp at hw
    · simp at hw
  all_goals simp at hw

theorem Sweeps.step_globalEmpty (hw : (s.step exec w b).workers w = .globalEmpty) :
    (s.step exec w b).globalQueue = [] := by
  unfold step at hw ⊢
  split at hw
  · split at hw
    · simp at hw
    · simp at hw
  · split at hw
    · simp at hw
    · next hglobal => exact hglobal
  · split at hw
    · simp at hw
    · simp at hw
  · split at hw
    · simp at hw
    · simp at hw
  all_goals simp at hw

theorem step_sweeps (h : Sweeps s) : Sweeps (s.step exec w b) := by
  constructor
  · intro w' hw'
    by_cases hne : w' = w
    · subst hne
      exact h.step_localEmpty hw'
    · rw [(step_other hne).1] at hw'
      rw [(step_other hne).2]
      exact h.localEmpty w' hw'
  · intro w' hw'
    by_cases hne : w' = w
    · subst hne
      exact Sweeps.step_globalEmpty hw'
    · rw [(step_other hne).1] at hw'
      exact step_globalQueue_nil (h.globalEmpty w' hw')

theorem run_sweeps (h : Sweeps s) : Sweeps (s.run exec steps) := by
  induction steps generalizing s with
  | nil => exact h
  | cons step steps ih => exact ih (step_sweeps h)

/-! ## Workers that complete a task -/

/-- No worker is between the execution of a task and its search for the next one. -/
def Quiescent (s : TaskScheduler Cost TaskResult numWorkers) : Prop :=
  ∀ w, (s.workers w).isCompleting = false

/-- Steps of a worker after which it does not complete a task, without an execution. -/
def Completes (exec : ParallelTask Cost → TaskResult) (w : Fin numWorkers)
    (s : TaskScheduler Cost TaskResult numWorkers) : Prop :=
  ∃ steps, ((s.run exec steps).workers w).isCompleting = false ∧
    (∀ w', w' ≠ w → (s.run exec steps).workers w' = s.workers w') ∧
      (s.run exec steps).executedTasks = s.executedTasks

theorem completes_of_not (h : (s.workers w).isCompleting = false) : Completes exec w s :=
  ⟨[], h, fun _ _ => rfl, rfl⟩

theorem completes_of_step (hexecuted : (s.step exec w b).executedTasks = s.executedTasks)
    (h : Completes exec w (s.step exec w b)) : Completes exec w s := by
  obtain ⟨steps, hw, hother, hsame⟩ := h
  refine ⟨(w, b) :: steps, hw, fun w' hne => ?_, hsame.trans hexecuted⟩
  exact (hother w' hne).trans (step_other hne).1

theorem completes_of_processing {ids : List TaskId} (hw : s.workers w = .processing ids) :
    Completes exec w s := by
  induction ids generalizing s with
  | nil =>
    apply completes_of_step (b := false)
    · simp [step, hw, executedTasks]
    · apply completes_of_not
      simp [step, hw, WorkerState.isCompleting]
  | cons d ids ih =>
    apply completes_of_step (b := false)
    · simp [step, hw, executedTasks]
    · apply ih
      simp [step, hw]

theorem completes_of_balanced {task : ParallelTask Cost} (hw : s.workers w = .balanced task) :
    Completes exec w s := by
  apply completes_of_step (b := false)
  · simp [step, hw, executedTasks]
  · have hids : (s.step exec w false).workers w =
        .processing ((s.pendingTasks.lookup task.id).getD []) := by
      simp [step, hw]
    exact completes_of_processing hids

theorem completes_of_completed {task : ParallelTask Cost} (hw : s.workers w = .completed task) :
    Completes exec w s := by
  apply completes_of_step (b := false)
  · simp [step, hw, executedTasks]
  · have hbalanced : (s.step exec w false).workers w = .balanced task := by
      simp [step, hw]
    exact completes_of_balanced hbalanced

/-- A worker that completes a task looks for the next one in the end, and nothing is executed. -/
theorem completes (exec : ParallelTask Cost → TaskResult) (w : Fin numWorkers)
    (s : TaskScheduler Cost TaskResult numWorkers) : Completes exec w s := by
  rcases hw : s.workers w with - | - | - | task | task | task | ⟨task, result⟩ | task | task | ids
  case executed =>
    apply completes_of_step (b := false)
    · simp [step, hw, executedTasks, TaskEvent.executed?]
    · have hcompleted : (s.step exec w false).workers w = .completed task := by
        simp [step, hw]
      exact completes_of_completed hcompleted
  case completed => exact completes_of_completed hw
  case balanced => exact completes_of_balanced hw
  case processing => exact completes_of_processing hw
  all_goals exact completes_of_not (by rw [hw]; rfl)

/-- The workers complete their tasks one after the other. -/
theorem exists_quiescent (exec : ParallelTask Cost → TaskResult)
    (s : TaskScheduler Cost TaskResult numWorkers) :
    ∃ steps, (s.run exec steps).Quiescent ∧ (s.run exec steps).executedTasks = s.executedTasks := by
  have hall (l : List (Fin numWorkers)) : ∃ steps,
      (∀ w, w ∈ l ∨ (s.workers w).isCompleting = false → ((s.run exec steps).workers w).isCompleting = false) ∧
        (s.run exec steps).executedTasks = s.executedTasks := by
    induction l with
    | nil => exact ⟨[], fun w hw => hw.resolve_left List.not_mem_nil, rfl⟩
    | cons w l ih =>
      obtain ⟨steps, hquiet, hexecuted⟩ := ih
      obtain ⟨steps', hw, hother, hexecuted'⟩ := completes exec w (s.run exec steps)
      refine ⟨steps ++ steps', fun w' hw' => ?_, ?_⟩
      · rw [run_append]
        by_cases hne : w' = w
        · rw [hne]
          exact hw
        · rw [hother w' hne]
          apply hquiet
          rcases hw' with hmem | hquiet'
          · exact .inl ((List.mem_cons.mp hmem).resolve_left hne)
          · exact .inr hquiet'
      · rw [run_append, hexecuted', hexecuted]
  obtain ⟨steps, hquiet, hexecuted⟩ := hall (List.finRange numWorkers)
  exact ⟨steps, fun w => hquiet w (.inl (List.mem_finRange w)), hexecuted⟩

/-! ## Tasks that workers can get at -/

/-- The number of workers that look for a task and have none in their local queue. -/
def freeWorkers (s : TaskScheduler Cost TaskResult numWorkers) : ℕ :=
  (Finset.univ.filter fun w => (s.workers w).isLooking ∧ (s.localQueues w).isEmpty).card

theorem freeWorkers_le (s : TaskScheduler Cost TaskResult numWorkers) : s.freeWorkers ≤ numWorkers := by
  have hcard := Finset.card_filter_le Finset.univ
    fun w => ((s.workers w).isLooking ∧ (s.localQueues w).isEmpty : Prop)
  rwa [Finset.card_univ, Fintype.card_fin] at hcard

/-- A task that a worker has taken, that is first in the local queue of a worker, or that is in the global
queue before the number of workers that can look there. -/
inductive InReach (s : TaskScheduler Cost TaskResult numWorkers) (t : ParallelTask Cost) : Prop
  | held (w : Fin numWorkers) (h : t ∈ (s.workers w).held)
  | localFront (w : Fin numWorkers) (rest : List (ParallelTask Cost))
    (hlooking : (s.workers w).isLooking = true) (hlocal : s.localQueues w = t :: rest)
  | globalFront (h : t ∈ s.globalQueue.take s.freeWorkers)

/-- Some further steps execute a task. -/
def CanProgress (exec : ParallelTask Cost → TaskResult) (s : TaskScheduler Cost TaskResult numWorkers) :
    Prop :=
  ∃ steps, s.executedTasks.length < (s.run exec steps).executedTasks.length

theorem CanProgress.of_run (steps : List (Fin numWorkers × Bool))
    (hexecuted : (s.run exec steps).executedTasks = s.executedTasks)
    (h : CanProgress exec (s.run exec steps)) : CanProgress exec s := by
  obtain ⟨steps', hlt⟩ := h
  refine ⟨steps ++ steps', ?_⟩
  rw [run_append, ← hexecuted]
  exact hlt

variable {t : ParallelTask Cost}

theorem canProgress_of_satisfied (hw : s.workers w = .satisfied t) : CanProgress exec s := by
  refine ⟨[(w, false)], ?_⟩
  simp [step, hw, executedTasks, TaskEvent.executed?]

theorem canProgress_of_holding (hw : s.workers w = .holding t)
    (ht : dependenciesSatisfied t s.completedTasks = true) : CanProgress exec s := by
  apply CanProgress.of_run [(w, false)]
  · simp [step, hw, executedTasks]
  · apply canProgress_of_satisfied (w := w) (t := t)
    simp [step, hw, ht]

theorem canProgress_of_localFront {rest : List (ParallelTask Cost)} (hw : s.workers w = .idle)
    (hlocal : s.localQueues w = t :: rest) (ht : dependenciesSatisfied t s.completedTasks = true) :
    CanProgress exec s := by
  apply CanProgress.of_run [(w, false)]
  · simp [step, hw, hlocal, executedTasks]
  · apply canProgress_of_holding (w := w) (t := t)
    · simp [step, hw, hlocal]
    · simpa [step, hw, hlocal] using ht

theorem canProgress_of_held (h : t ∈ (s.workers w).held)
    (ht : dependenciesSatisfied t s.completedTasks = true) : CanProgress exec s := by
  rcases hw : s.workers w with - | - | - | task | task | task | ⟨task, result⟩ | task | task | ids
  case holding =>
    rw [hw] at h
    obtain rfl := List.mem_singleton.mp h
    exact canProgress_of_holding hw ht
  case satisfied => exact canProgress_of_satisfied hw
  case unsatisfied =>
    rw [hw] at h
    obtain rfl := List.mem_singleton.mp h
    -- the task is put back and found again
    apply CanProgress.of_run [(w, false)]
    · simp [step, hw, executedTasks]
    · have hidle : (s.step exec w false).workers w = .idle := by
        simp [step, hw]
      have hfront : (s.step exec w false).localQueues w = t :: s.localQueues w := by
        simp [step, hw]
      apply canProgress_of_localFront hidle hfront
      simpa [step, hw] using ht
  all_goals
    rw [hw] at h
    cases h

variable (exec) in
/-- A free worker takes the first task of the global queue. -/
theorem exists_take (hs : Sweeps s) {rest : List (ParallelTask Cost)} (hglobal : s.globalQueue = t :: rest)
    (hlooking : (s.workers w).isLooking = true) (hlocal : s.localQueues w = []) :
    ∃ steps, s.run exec steps = { s with globalQueue := rest }.setWorker w (.holding t) := by
  rcases hw : s.workers w with - | - | - | task | task | task | ⟨task, result⟩ | task | task | ids
  case idle =>
    refine ⟨[(w, false), (w, false)], ?_⟩
    rw [run_cons, run_cons, run_nil]
    have hfirst : s.step exec w false = s.setWorker w .localEmpty := by simp [step, hw, hlocal]
    rw [hfirst]
    simp [step, hglobal, setWorker]
  case localEmpty =>
    refine ⟨[(w, false)], ?_⟩
    simp [step, hw, hglobal]
  case globalEmpty =>
    rw [hs.globalEmpty w hw] at hglobal
    cases hglobal
  all_goals
    rw [hw] at hlooking
    cases hlooking

variable (t) in
/-- A worker that takes a task is not free any more. -/
theorem freeWorkers_take (rest : List (ParallelTask Cost)) (hlooking : (s.workers w).isLooking = true)
    (hlocal : s.localQueues w = []) :
    ({ s with globalQueue := rest }.setWorker w (.holding t)).freeWorkers + 1 = s.freeWorkers := by
  have herase : (Finset.univ.filter fun w' =>
      (({ s with globalQueue := rest }.setWorker w (.holding t)).workers w').isLooking ∧
        (s.localQueues w').isEmpty) =
      (Finset.univ.filter fun w' => (s.workers w').isLooking ∧ (s.localQueues w').isEmpty).erase w := by
    ext w'
    rw [Finset.mem_erase, Finset.mem_filter_univ, Finset.mem_filter_univ]
    by_cases hne : w' = w
    · subst hne
      simp [WorkerState.isLooking]
    · rw [setWorker_workers_of_ne hne]
      simp [hne]
  have hmem : w ∈ Finset.univ.filter fun w' => (s.workers w').isLooking ∧ (s.localQueues w').isEmpty := by
    rw [Finset.mem_filter_univ, hlocal]
    exact ⟨hlooking, rfl⟩
  have hcard := Finset.card_erase_add_one hmem
  rw [← herase] at hcard
  exact hcard

/-- Free workers take the tasks in front of a ready one. -/
theorem canProgress_of_globalFront {queue : List (ParallelTask Cost)} (hs : Sweeps s)
    (hglobal : s.globalQueue = queue) (h : t ∈ queue.take s.freeWorkers)
    (ht : dependenciesSatisfied t s.completedTasks = true) : CanProgress exec s := by
  induction queue generalizing s with
  | nil =>
    rw [List.take_nil] at h
    cases h
  | cons u rest ih =>
    have hpos : 0 < s.freeWorkers := by
      rcases Nat.eq_zero_or_pos s.freeWorkers with hzero | hpos
      · rw [hzero, List.take_zero] at h
        cases h
      · exact hpos
    obtain ⟨w, hw⟩ := Finset.card_pos.mp hpos
    obtain ⟨hlooking, hempty⟩ := (Finset.mem_filter_univ w).mp hw
    have hlocal : s.localQueues w = [] := List.isEmpty_iff.mp hempty
    obtain ⟨steps, htake⟩ := exists_take exec hs hglobal hlooking hlocal
    have hsweeps : Sweeps (s.run exec steps) := run_sweeps hs
    apply CanProgress.of_run steps (by rw [htake]; rfl)
    rw [htake] at hsweeps ⊢
    have hfree := freeWorkers_take u rest hlooking hlocal
    rw [← hfree, List.take_succ_cons, List.mem_cons] at h
    rcases h with rfl | h
    · exact canProgress_of_holding (w := w) setWorker_workers_self ht
    · exact ih hsweeps rfl h ht

/-- A ready task in reach can be executed. -/
theorem canProgress_of_inReach (hs : Sweeps s) (h : s.InReach t)
    (ht : dependenciesSatisfied t s.completedTasks = true) : CanProgress exec s := by
  rcases h with ⟨w, h⟩ | ⟨w, rest, hlooking, hlocal⟩ | h
  · exact canProgress_of_held h ht
  · rcases hw : s.workers w with - | - | - | task | task | task | ⟨task, result⟩ | task | task | ids
    case idle => exact canProgress_of_localFront hw hlocal ht
    case localEmpty =>
      rw [hs.localEmpty w (.inl hw)] at hlocal
      cases hlocal
    case globalEmpty =>
      rw [hs.localEmpty w (.inr hw)] at hlocal
      cases hlocal
    all_goals
      rw [hw] at hlooking
      cases hlooking
  · exact canProgress_of_globalFront hs rfl h ht

/-! ## Stuck workers -/

/-- No worker completes a task, and no task in reach is ready. -/
structure Stuck (s : TaskScheduler Cost TaskResult numWorkers) : Prop where
  quiescent : s.Quiescent
  sweeps : Sweeps s
  logged : Logged s
  notReady : ∀ t, s.InReach t → dependenciesSatisfied t s.completedTasks = false

/-- What is in reach after one worker changed and the global queue stayed was in reach before, if this
holds of what the worker has. -/
theorem inReach_of_worker {s' : TaskScheduler Cost TaskResult numWorkers}
    (hother : ∀ w', w' ≠ w → s'.workers w' = s.workers w' ∧ s'.localQueues w' = s.localQueues w')
    (hglobal : s'.globalQueue = s.globalQueue)
    (hheld : t ∈ (s'.workers w).held → s.InReach t)
    (hfront : ∀ rest, (s'.workers w).isLooking = true → s'.localQueues w = t :: rest → s.InReach t)
    (hfree : (s'.workers w).isLooking = true → s'.localQueues w = [] →
      (s.workers w).isLooking = true ∧ s.localQueues w = [])
    (h : s'.InReach t) : s.InReach t := by
  rcases h with ⟨w', h⟩ | ⟨w', rest, hlooking, hlocal⟩ | h
  · by_cases hne : w' = w
    · rw [hne] at h
      exact hheld h
    · rw [(hother w' hne).1] at h
      exact .held w' h
  · by_cases hne : w' = w
    · rw [hne] at hlooking hlocal
      exact hfront rest hlooking hlocal
    · rw [(hother w' hne).1] at hlooking
      rw [(hother w' hne).2] at hlocal
      exact .localFront w' rest hlooking hlocal
  · have hle : s'.freeWorkers ≤ s.freeWorkers := by
      apply Finset.card_le_card
      intro w' hw'
      rw [Finset.mem_filter_univ, List.isEmpty_iff] at hw' ⊢
      by_cases hne : w' = w
      · rw [hne] at hw' ⊢
        exact hfree hw'.1 hw'.2
      · rwa [(hother w' hne).1, (hother w' hne).2] at hw'
    rw [hglobal] at h
    exact .globalFront (List.take_subset_take_left _ hle h)

/-- What is in reach after a free worker took a task was in reach before. -/
theorem inReach_of_take {u : ParallelTask Cost} {rest : List (ParallelTask Cost)}
    (hglobal : s.globalQueue = u :: rest) (hlooking : (s.workers w).isLooking = true)
    (hlocal : s.localQueues w = [])
    (h : ({ s with globalQueue := rest }.setWorker w (.holding u)).InReach t) : s.InReach t := by
  have hfree := freeWorkers_take u rest hlooking hlocal
  have htake : ∀ x, x = u ∨ x ∈ rest.take
      ({ s with globalQueue := rest }.setWorker w (.holding u)).freeWorkers → s.InReach x := by
    intro x hx
    apply InReach.globalFront
    rw [hglobal, ← hfree, List.take_succ_cons]
    exact List.mem_cons.mpr hx
  rcases h with ⟨w', h⟩ | ⟨w', rest', hlooking', hlocal'⟩ | h
  · by_cases hne : w' = w
    · subst hne
      rw [setWorker_workers_self] at h
      exact htake t (.inl (List.mem_singleton.mp h))
    · rw [setWorker_workers_of_ne hne] at h
      exact .held w' h
  · by_cases hne : w' = w
    · subst hne
      rw [setWorker_workers_self] at hlooking'
      cases hlooking'
    · rw [setWorker_workers_of_ne hne] at hlooking'
      exact .localFront w' rest' hlooking' hlocal'
  · exact htake t (.inr h)

variable (w b exec) in
/-- A step of stuck workers executes and completes nothing, and brings no task into reach. -/
theorem Stuck.step_spec (h : Stuck s) :
    (s.step exec w b).executedTasks = s.executedTasks ∧
      (s.step exec w b).completedTasks = s.completedTasks ∧
        ((s.step exec w b).workers w).isCompleting = false ∧
          ∀ t, (s.step exec w b).InReach t → s.InReach t := by
  have hother : ∀ w', w' ≠ w → (s.step exec w b).workers w' = s.workers w' ∧
      (s.step exec w b).localQueues w' = s.localQueues w' :=
    fun w' hne => step_other hne
  rcases hw : s.workers w with - | - | - | u | u | u | ⟨u, result⟩ | u | u | ids
  case idle =>
    rcases hlocal : s.localQueues w with - | ⟨u, rest⟩
    · refine ⟨?_, ?_, ?_, fun t => inReach_of_worker hother ?_ ?_ ?_ ?_⟩
      all_goals simp [step, hw, hlocal, executedTasks, WorkerState.isCompleting, WorkerState.held,
        WorkerState.isLooking]
    · have hfront : s.InReach u := .localFront w rest (by rw [hw]; rfl) hlocal
      refine ⟨?_, ?_, ?_, fun t => inReach_of_worker hother ?_ ?_ ?_ ?_⟩
      all_goals simp [step, hw, hlocal, executedTasks, WorkerState.isCompleting, WorkerState.held,
        WorkerState.isLooking]
      rintro rfl
      exact hfront
  case localEmpty =>
    have hlocal := h.sweeps.localEmpty w (.inl hw)
    rcases hglobal : s.globalQueue with - | ⟨u, rest⟩
    · refine ⟨?_, ?_, ?_, fun t => inReach_of_worker hother ?_ ?_ ?_ ?_⟩
      all_goals simp [step, hw, hlocal, hglobal, executedTasks, WorkerState.isCompleting, WorkerState.held,
        WorkerState.isLooking]
    · have hstep : s.step exec w b = { s with globalQueue := rest }.setWorker w (.holding u) := by
        simp [step, hw, hglobal]
      rw [hstep]
      refine ⟨rfl, rfl, ?_, fun t => inReach_of_take hglobal (by rw [hw]; rfl) hlocal⟩
      simp [WorkerState.isCompleting]
  case globalEmpty =>
    have hlocal := h.sweeps.localEmpty w (.inr hw)
    have hglobal := h.sweeps.globalEmpty w hw
    refine ⟨?_, ?_, ?_, fun t => inReach_of_worker hother ?_ ?_ ?_ ?_⟩
    all_goals simp [step, hw, hlocal, hglobal, executedTasks, WorkerState.isCompleting, WorkerState.held,
      WorkerState.isLooking]
  case holding =>
    have hheld : s.InReach u := .held w (by rw [hw]; exact List.mem_singleton_self u)
    have hnot := h.notReady u hheld
    refine ⟨?_, ?_, ?_, fun t => inReach_of_worker hother ?_ ?_ ?_ ?_⟩
    all_goals simp [step, hw, hnot, executedTasks, WorkerState.isCompleting, WorkerState.held,
      WorkerState.isLooking]
    rintro rfl
    exact hheld
  case satisfied =>
    -- such a task is ready
    have hnot := h.notReady u (.held w (by rw [hw]; exact List.mem_singleton_self u))
    rw [h.logged.satisfied w u hw] at hnot
    cases hnot
  case unsatisfied =>
    have hheld : s.InReach u := .held w (by rw [hw]; exact List.mem_singleton_self u)
    refine ⟨?_, ?_, ?_, fun t => inReach_of_worker hother ?_ ?_ ?_ ?_⟩
    all_goals simp [step, hw, executedTasks, WorkerState.isCompleting, WorkerState.held,
      WorkerState.isLooking]
    rintro rfl
    exact hheld
  all_goals
    have hquiet := h.quiescent w
    rw [hw] at hquiet
    cases hquiet

variable (w b exec) in
theorem Stuck.step (h : Stuck s) :
    Stuck (s.step exec w b) ∧ (s.step exec w b).executedTasks = s.executedTasks := by
  obtain ⟨hexecuted, hcompleted, hquiet, hreach⟩ := h.step_spec w b exec
  refine ⟨⟨fun w' => ?_, step_sweeps h.sweeps, step_logged h.logged, fun t ht => ?_⟩, hexecuted⟩
  · by_cases hne : w' = w
    · rw [hne]
      exact hquiet
    · rw [(step_other hne).1]
      exact h.quiescent w'
  · rw [hcompleted]
    exact h.notReady t (hreach t ht)

theorem not_canProgress_of_stuck (h : Stuck s) : ¬ CanProgress exec s := by
  have hrun (steps : List (Fin numWorkers × Bool)) :
      Stuck (s.run exec steps) ∧ (s.run exec steps).executedTasks = s.executedTasks := by
    induction steps generalizing s with
    | nil => exact ⟨h, rfl⟩
    | cons p steps ih =>
      obtain ⟨hstuck, hexecuted⟩ := h.step p.1 p.2 exec
      obtain ⟨hrest, hexecuted'⟩ := ih hstuck
      exact ⟨hrest, hexecuted'.trans hexecuted⟩
  rintro ⟨steps, hlt⟩
  rw [(hrun steps).2] at hlt
  exact lt_irrefl _ hlt

/-! ## Scheduled tasks -/

theorem perm_insertTaskSorted (greater : Cost → Cost → Bool) (queue : List (ParallelTask Cost))
    (task : ParallelTask Cost) : (insertTaskSorted greater queue task).Perm (task :: queue) := by
  apply List.perm_insertIdx
  rcases hpos : queue.findIdx? _ with - | i
  · exact le_refl queue.length
  · exact (List.findIdx?_eq_some_iff_findIdx_eq.mp hpos).1.le

theorem scheduleTask_spec (greater : Cost → Cost → Bool) (s : TaskScheduler Cost TaskResult numWorkers)
    (task : ParallelTask Cost) :
    (s.scheduleTask greater task).workers = s.workers ∧ (s.scheduleTask greater task).log = s.log ∧
      (s.scheduleTask greater task).completedTasks = s.completedTasks ∧
        ∀ p, (s.scheduleTask greater task).count p = s.count p + [task].countP p := by
  have hperm (queue : List (ParallelTask Cost)) (p : ParallelTask Cost → Bool) :
      (insertTaskSorted greater queue task).countP p = queue.countP p + [task].countP p := by
    rw [(perm_insertTaskSorted greater queue task).countP_eq, ← List.singleton_append, List.countP_append]
    exact Nat.add_comm _ _
  have hglobal (pending : HashMap TaskId (List TaskId)) (p : ParallelTask Cost → Bool) :
      ({ s with
        pendingTasks := pending
        globalQueue := insertTaskSorted greater s.globalQueue task } :
          TaskScheduler Cost TaskResult numWorkers).count p = s.count p + [task].countP p := by
    have hqueue := hperm s.globalQueue p
    unfold count executedTasks countAt
    dsimp only
    omega
  unfold scheduleTask
  dsimp only
  split
  · split
    · next targetWorker _ hlt =>
      refine ⟨rfl, rfl, rfl, fun p => ?_⟩
      let s' : TaskScheduler Cost TaskResult numWorkers :=
        s.setLocal ⟨targetWorker, hlt⟩ (insertTaskSorted greater (s.localQueues ⟨targetWorker, hlt⟩) task)
      have hsum : ∑ w, s'.countAt p w + s.countAt p ⟨targetWorker, hlt⟩ =
          ∑ w, s.countAt p w + s'.countAt p ⟨targetWorker, hlt⟩ :=
        sum_countAt s' p fun w' hne => ⟨rfl, setLocal_localQueues_of_ne hne⟩
      have hat : s'.countAt p ⟨targetWorker, hlt⟩ =
          s.countAt p ⟨targetWorker, hlt⟩ + [task].countP p := by
        have hqueue := hperm (s.localQueues ⟨targetWorker, hlt⟩) p
        unfold countAt
        rw [setLocal_localQueues_self, setLocal_workers]
        omega
      have hcount : s'.count p = s.count p + [task].countP p := by
        have hexecuted : s'.executedTasks = s.executedTasks := rfl
        unfold count
        rw [hexecuted, setLocal_globalQueue]
        omega
      exact hcount
    · exact ⟨rfl, rfl, rfl, hglobal _⟩
  · exact ⟨rfl, rfl, rfl, hglobal _⟩

end TaskScheduler

namespace TaskSet

open TaskScheduler

variable (tasks : TaskSet Cost) (greater : Cost → Cost → Bool) (numWorkers : ℕ)

variable (TaskResult) in
/-- The scheduled tasks wait in the queues. -/
theorem scheduler_spec :
    (∀ w, (tasks.scheduler greater TaskResult numWorkers).workers w = .idle) ∧
      (tasks.scheduler greater TaskResult numWorkers).log = [] ∧
        (tasks.scheduler greater TaskResult numWorkers).completedTasks = ∅ ∧
          ∀ p, (tasks.scheduler greater TaskResult numWorkers).count p = tasks.tasks.countP p := by
  unfold scheduler
  generalize tasks.tasks = l
  induction l using List.reverseRecOn with
  | nil =>
    refine ⟨fun w => rfl, rfl, rfl, fun p => ?_⟩
    simp [count, countAt, executedTasks, new, WorkerState.held]
  | append_singleton l task ih =>
    obtain ⟨hworkers, hlog, hcompleted, hcount⟩ := ih
    rw [List.foldl_append, List.foldl_cons, List.foldl_nil]
    obtain ⟨hworkers', hlog', hcompleted', hcount'⟩ := scheduleTask_spec greater
      (l.foldl (scheduleTask greater) (new Cost TaskResult numWorkers)) task
    refine ⟨fun w => ?_, hlog'.trans hlog, hcompleted'.trans hcompleted, fun p => ?_⟩
    · rw [hworkers', hworkers]
    · rw [hcount', hcount, List.countP_append]

/-- Every task is executed at most once and after its dependencies are completed, and if tasks are left,
some further steps execute one. -/
structure Correct (exec : ParallelTask Cost → TaskResult)
    (s : TaskScheduler Cost TaskResult numWorkers) : Prop where
  once : (s.executedTasks.map (·.id)).Nodup
  dependenciesFirst : DependenciesFirst s.log
  progress : s.executedTasks.length < tasks.tasks.length → s.CanProgress exec

/-- In every state that the workers can reach, the tasks are executed correctly and some further steps
execute one if some are left, if and only if in every such state in which no worker completes a task, one
of the tasks in reach is ready if some are left. -/
theorem correct_iff (exec : ParallelTask Cost → TaskResult) :
    (∀ steps, tasks.Correct numWorkers exec ((tasks.scheduler greater TaskResult numWorkers).run exec steps)) ↔
      ∀ steps, ((tasks.scheduler greater TaskResult numWorkers).run exec steps).Quiescent →
        ((tasks.scheduler greater TaskResult numWorkers).run exec steps).executedTasks.length <
          tasks.tasks.length →
        ∃ t, ((tasks.scheduler greater TaskResult numWorkers).run exec steps).InReach t ∧
          dependenciesSatisfied t
            ((tasks.scheduler greater TaskResult numWorkers).run exec steps).completedTasks = true := by
  obtain ⟨hworkers, hlog, hcompleted, hcount⟩ :=
    tasks.scheduler_spec TaskResult greater numWorkers
  generalize tasks.scheduler greater TaskResult numWorkers = s at *
  have hsweeps (steps) : Sweeps (s.run exec steps) := run_sweeps (sweeps_of_idle hworkers)
  have hlogged (steps) : Logged (s.run exec steps) :=
    run_logged (logged_of_idle hworkers hcompleted hlog)
  have honce (steps) : ((s.run exec steps).executedTasks.map (·.id)).Nodup := by
    rw [List.nodup_iff_count_le_one]
    intro id
    have htotal := (run_count s exec steps (·.id == id)).trans (hcount (·.id == id))
    have hnodup := List.nodup_iff_count_le_one.mp tasks.nodup id
    rw [List.count, List.countP_map] at hnodup ⊢
    unfold count at htotal
    change (s.run exec steps).executedTasks.countP (·.id == id) ≤ 1
    change tasks.tasks.countP (·.id == id) ≤ 1 at hnodup
    omega
  constructor
  · intro h steps hquiescent hleft
    by_contra hno
    refine not_canProgress_of_stuck ⟨hquiescent, hsweeps steps, hlogged steps, fun t ht => ?_⟩
      ((h steps).progress hleft)
    exact Bool.eq_false_iff.mpr fun hready => hno ⟨t, ht, hready⟩
  · intro h steps
    refine ⟨honce steps, (hlogged steps).first, fun hleft => ?_⟩
    obtain ⟨steps', hquiescent, hexecuted⟩ := (s.run exec steps).exists_quiescent exec
    refine CanProgress.of_run steps' hexecuted ?_
    rw [← hexecuted] at hleft
    rw [← run_append] at hquiescent hleft ⊢
    obtain ⟨t, hreach, hready⟩ := h (steps ++ steps') hquiescent hleft
    exact canProgress_of_inReach (hsweeps _) hreach hready

end TaskSet

end Model

/-! ## A dependency behind its task -/

/-- Task 1 depends on task 2, and was scheduled first. -/
def dependencyBehind : TaskSet ℕ where
  tasks := [⟨1, 0, 0, [2], none⟩, ⟨2, 0, 0, [], none⟩]
  nodup := by simp
  closed := by simp
  acyclic := ⟨fun id => if id = 1 then 1 else 0, by simp⟩

/-- A single worker takes the first task again and again. -/
theorem not_correct_dependencyBehind : ¬ ∀ (Cost TaskResult : Type) (tasks : TaskSet Cost)
    (greater : Cost → Cost → Bool) (numWorkers : ℕ) (exec : ParallelTask Cost → TaskResult) steps,
      tasks.Correct numWorkers exec ((tasks.scheduler greater TaskResult numWorkers).run exec steps) := by
  intro h
  obtain ⟨hworkers, hlog, hcompleted, -⟩ :=
    dependencyBehind.scheduler_spec Unit (fun _ _ => false) 1
  have hlocal : ∀ w, (dependencyBehind.scheduler (fun _ _ => false) Unit 1).localQueues w = [] := by
    decide +kernel
  have hglobal : (dependencyBehind.scheduler (fun _ _ => false) Unit 1).globalQueue =
      dependencyBehind.tasks := by
    decide +kernel
  have hprogress : (dependencyBehind.scheduler (fun _ _ => false) Unit 1).CanProgress fun _ => () := by
    refine (h ℕ Unit dependencyBehind (fun _ _ => false) 1 (fun _ => ()) []).progress ?_
    unfold TaskScheduler.executedTasks
    rw [TaskScheduler.run_nil, hlog]
    exact Nat.two_pos
  generalize dependencyBehind.scheduler (fun _ _ => false) Unit 1 = s at *
  refine TaskScheduler.not_canProgress_of_stuck ⟨fun w => ?_, ?_, ?_, fun t ht => ?_⟩ hprogress
  · rw [hworkers]
    rfl
  · exact TaskScheduler.sweeps_of_idle hworkers
  · exact TaskScheduler.logged_of_idle hworkers hcompleted hlog
  · obtain ⟨w, ht⟩ | ⟨w, rest, -, ht⟩ | ht := ht
    · rw [hworkers] at ht
      cases ht
    · rw [hlocal] at ht
      cases ht
    · -- one worker can look at the first task only
      have hfirst := List.take_subset_take_left _ s.freeWorkers_le ht
      rw [hglobal] at hfirst
      obtain rfl := List.mem_singleton.mp hfirst
      rw [hcompleted]
      rfl

end Rustgresql
