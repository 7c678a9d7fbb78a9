import Rustgresql.Transaction.DdlTransaction
import Rustgresql.Lib.Search

/-!
# Execution plans of DDL transactions (`transaction/ddl_transaction.rs`)

`get_execution_plan` sorts the planned operations by their dependencies with a recursive depth-first search. An
operation is marked as visited after its dependencies, so the search never comes to the end of a cycle; and the status
of a dependency is not looked at. `plansRight_iff`: these are the only ways in which a plan goes wrong.
-/

namespace Rustgresql

open Search

namespace DdlTransactionContext

/-! ## The search -/

/-- Topological sort for dependency resolution, on a stack with room for a number of calls -/
def topologicalSort (operations : HashMap ℕ DdlTransactionOperation) :
    ℕ → List ℕ × List ℕ → ℕ → Result (List ℕ × List ℕ)
  | 0, _, _ => .error (.panic "stack overflow")
  | depth + 1, (visited, plan), operationId =>
    if operationId ∈ visited then .ok (visited, plan)
    else
      match operations.lookup operationId with
      | none => .error (.err (.concurrentDdlConflict s!"Operation {operationId}" .create))
      | some operation => do
        -- Visit dependencies first
        let (visited, plan) ← operation.dependencies.foldlM (topologicalSort operations depth) (visited, plan)
        return (visited.insert operationId, plan ++ [operationId])

/-- Get operations that need to be executed (with dependencies resolved) -/
def getExecutionPlan (self : DdlTransactionContext) (depth : ℕ) : Result (List ℕ) := do
  let (_, plan) ← self.operations.pairs.foldlM (fun state p =>
    if p.2.status = .planned then topologicalSort self.operations depth state p.1 else .ok state) ([], [])
  return plan

/-! ## What a plan is to be -/

variable (c : DdlTransactionContext)

/-- The dependencies of an operation -/
def dependencies (operationId : ℕ) : Option (List ℕ) :=
  (c.operations.lookup operationId).map DdlTransactionOperation.dependencies

/-- The operations that are planned, as the map is iterated -/
def plannedIds : List ℕ :=
  (c.operations.pairs.filter fun p => p.2.status = .planned).map Prod.fst

/-- An operation that a planned operation needs -/
def IsNeeded (operationId : ℕ) : Prop := ∃ id ∈ c.plannedIds, Reaches c.dependencies id operationId

/-- Every operation that is needed exists. -/
def DependenciesExist : Prop := ∀ id, c.IsNeeded id → id ∈ c.operations

/-- An operation that is needed depends on itself, directly or through others. -/
def IsCyclic : Prop := ∃ id, c.IsNeeded id ∧ OnCycle c.dependencies id

/-- An operation that is executing, has been executed or has been rolled back -/
def IsStarted (operationId : ℕ) : Prop :=
  ∃ operation ∈ c.operations.lookup operationId,
    operation.status = .executing ∨ operation.status = .completed ∨ operation.status = .rolledBack

/-- Every planned operation is in the plan once, behind the planned operations that it depends on, and no operation
is that has been started. -/
structure IsExecutionPlan (plan : List ℕ) : Prop where
  planned : ∀ id ∈ c.plannedIds, plan.count id = 1
  started : ∀ id ∈ plan, ¬ c.IsStarted id
  ordered : ∀ pre id post, plan = pre ++ id :: post → id ∈ c.plannedIds → ∀ id' ∈ c.plannedIds,
    Relation.TransGen (HasChild c.dependencies) id id' → id' ∈ pre

/-- With enough room on the stack, a plan is returned exactly if the operations that are needed exist and are not
cyclic; it is right; and for a cycle there is an error. -/
structure PlansRight : Prop where
  ok_iff : (∃ depth plan, c.getExecutionPlan depth = .ok plan) ↔ c.DependenciesExist ∧ ¬ c.IsCyclic
  plan : ∀ depth plan, c.getExecutionPlan depth = .ok plan → c.IsExecutionPlan plan
  cyclic : c.IsCyclic → ∃ depth e, c.getExecutionPlan depth = .error (.err e)

/-! ## Sorting -/

section Sorting

/-- The state of the search: what is visited is in the plan, each once and behind its dependencies. -/
structure Sorted (state : List ℕ × List ℕ) : Prop where
  visited : ∀ id, id ∈ state.1 ↔ id ∈ state.2
  nodup : state.2.Nodup
  finishes : ∀ id ∈ state.2, Finishes c.dependencies id
  ordered : ∀ pre id post, state.2 = pre ++ id :: post → ∀ id', HasChild c.dependencies id id' → id' ∈ pre

/-- The search from some operations has added what it reached to the plan. -/
structure Adds (ids : List ℕ) (state state' : List ℕ × List ℕ) : Prop where
  sorted : c.Sorted state'
  mem : ∀ id ∈ ids, id ∈ state'.2
  extends_plan : ∃ new, state'.2 = state.2 ++ new ∧ ∀ id ∈ new, ∃ a ∈ ids, Reaches c.dependencies a id

/-- The outcome of a search from some operations is right. -/
def Sound (ids : List ℕ) (state : List ℕ × List ℕ) : Result (List ℕ × List ℕ) → Prop
  | .ok state' => c.Adds ids state state'
  | .error (.err _) => FailsIn c.dependencies ids
  | .error _ => True

variable {c}

theorem sorted_nil : c.Sorted ([], []) :=
  ⟨fun _ => Iff.rfl, List.nodup_nil, nofun, fun pre id post h => by simp at h⟩

theorem Adds.finishes {ids : List ℕ} {state state' : List ℕ × List ℕ} (h : c.Adds ids state state') :
    ∀ id ∈ ids, Finishes c.dependencies id :=
  fun id hid => h.sorted.finishes id (h.mem id hid)

theorem Adds.trans {a : ℕ} {ids : List ℕ} {state state' state'' : List ℕ × List ℕ} (h : c.Adds [a] state state')
    (h' : c.Adds ids state' state'') : c.Adds (a :: ids) state state'' := by
  obtain ⟨new, hnew, hreached⟩ := h.extends_plan
  obtain ⟨new', hnew', hreached'⟩ := h'.extends_plan
  have hplan : state''.2 = state.2 ++ (new ++ new') := by rw [hnew', hnew, List.append_assoc]
  refine ⟨h'.sorted, List.forall_mem_cons.mpr ⟨?_, h'.mem⟩, new ++ new', hplan, fun id hid => ?_⟩
  · rw [hnew']
    exact List.mem_append_left _ (h.mem a List.mem_cons_self)
  · obtain hid | hid := List.mem_append.mp hid
    · obtain ⟨b, hb, hb'⟩ := hreached id hid
      obtain rfl := List.mem_singleton.mp hb
      exact ⟨b, List.mem_cons_self, hb'⟩
    · obtain ⟨b, hb, hb'⟩ := hreached' id hid
      exact ⟨b, List.mem_cons_of_mem _ hb, hb'⟩

/-- An operation whose dependencies have been added is added behind them. -/
theorem Adds.visit {operationId : ℕ} {ids : List ℕ} {state state' : List ℕ × List ℕ}
    (hdependencies : c.dependencies operationId = some ids) (hnew : operationId ∉ state.2)
    (h : c.Adds ids state state') :
    c.Adds [operationId] state (state'.1.insert operationId, state'.2 ++ [operationId]) := by
  have hfinishes : Finishes c.dependencies operationId := .node hdependencies h.finishes
  obtain ⟨new, hplan, hreached⟩ := h.extends_plan
  have habove (a : ℕ) (ha : a ∈ ids) : HasChild c.dependencies operationId a := ⟨ids, hdependencies, ha⟩
  have hfresh : operationId ∉ state'.2 := by
    rw [hplan, List.mem_append]
    rintro (hmem | hmem)
    · exact hnew hmem
    · -- what was reached from a dependency would be above it
      obtain ⟨a, ha, hreaches⟩ := hreached operationId hmem
      exact hfinishes.not_onCycle (.head' (habove a ha) hreaches)
  refine ⟨⟨fun id => ?_, ?_, ?_, ?_⟩, ?_, new ++ [operationId], ?_, ?_⟩
  · simp [h.sorted.visited id, or_comm]
  · exact List.nodup_append.mpr ⟨h.sorted.nodup, List.nodup_singleton _, fun a ha b hb => by
      obtain rfl := List.mem_singleton.mp hb
      exact ne_of_mem_of_not_mem ha hfresh⟩
  · intro id hid
    obtain hid | hid := List.mem_append.mp hid
    · exact h.sorted.finishes id hid
    · rwa [List.mem_singleton.mp hid]
  · intro pre id post heq id' hchild
    obtain rfl | ⟨post', last, rfl⟩ := post.eq_nil_or_concat
    · obtain ⟨rfl, hid⟩ := List.append_inj' heq rfl
      obtain ⟨rfl, -⟩ := List.cons.inj hid
      obtain ⟨ids', hids', hmem⟩ := hchild
      obtain rfl := Option.some.inj (hdependencies.symm.trans hids')
      exact h.mem id' hmem
    · have heq' : state'.2 ++ [operationId] = (pre ++ id :: post') ++ [last] := by simpa using heq
      exact h.sorted.ordered pre id post' (List.append_inj' heq' rfl).1 id' hchild
  · simp
  · rw [hplan, List.append_assoc]
  · intro id hid
    refine ⟨operationId, List.mem_cons_self, ?_⟩
    obtain hid | hid := List.mem_append.mp hid
    · obtain ⟨a, ha, hreaches⟩ := hreached id hid
      exact .head (habove a ha) hreaches
    · rw [List.mem_singleton.mp hid]

/-- If the search from each operation is right, so is the search from all in turn. -/
theorem sound_foldlM {search : List ℕ × List ℕ → ℕ → Result (List ℕ × List ℕ)} {ids : List ℕ}
    (hsearch : ∀ id state, c.Sorted state → c.Sound [id] state (search state id))
    {state : List ℕ × List ℕ} (hstate : c.Sorted state) : c.Sound ids state (ids.foldlM search state) := by
  induction ids generalizing state with
  | nil => exact ⟨hstate, nofun, [], (List.append_nil _).symm, nofun⟩
  | cons id ids ih =>
    rw [List.foldlM_cons]
    have hhead := hsearch id state hstate
    match hresult : search state id with
    | .ok state' =>
      rw [hresult] at hhead
      have hadds : c.Adds [id] state state' := hhead
      have htail := ih hadds.sorted
      have hbind : (Except.ok state' >>= fun s => ids.foldlM search s : Result _) = ids.foldlM search state' := rfl
      rw [hbind]
      match hresult' : ids.foldlM search state' with
      | .ok state'' =>
        rw [hresult'] at htail
        exact hadds.trans htail
      | .error (.err e) =>
        rw [hresult'] at htail
        exact failsIn_cons.mpr (.inr ⟨hadds.finishes id List.mem_cons_self, htail⟩)
      | .error (.panic _) => trivial
      | .error .deadlock => trivial
    | .error (.err e) =>
      rw [hresult] at hhead
      exact failsIn_cons.mpr (.inl (failsIn_singleton.mp hhead))
    | .error (.panic _) => trivial
    | .error .deadlock => trivial

/-- The search is right, for any room on the stack. -/
theorem sound_topologicalSort (depth operationId : ℕ) {state : List ℕ × List ℕ} (hstate : c.Sorted state) :
    c.Sound [operationId] state (topologicalSort c.operations depth state operationId) := by
  induction depth generalizing operationId state with
  | zero => trivial
  | succ depth ih =>
    rw [topologicalSort]
    split_ifs with hvisited
    · have hmem := (hstate.visited operationId).mp hvisited
      exact ⟨hstate, by simpa using hmem, [], (List.append_nil _).symm, nofun⟩
    · have hnew : operationId ∉ state.2 := fun hmem => hvisited ((hstate.visited operationId).mpr hmem)
      match hlookup : c.operations.lookup operationId with
      | none =>
        have hnone : c.dependencies operationId = none := by rw [dependencies, hlookup]; rfl
        exact failsIn_singleton.mpr (.missing hnone)
      | some operation =>
        have hsome : c.dependencies operationId = some operation.dependencies := by
          rw [dependencies, hlookup]; rfl
        have hchildren : c.Sound operation.dependencies state _ := sound_foldlM (fun id _ => ih id) hstate
        dsimp only
        match hresult : operation.dependencies.foldlM (topologicalSort c.operations depth) state with
        | .ok state' =>
          rw [hresult] at hchildren
          exact Adds.visit hsome hnew hchildren
        | .error (.err e) =>
          rw [hresult] at hchildren
          exact failsIn_singleton.mpr (.of_failsIn hsome hchildren)
        | .error (.panic _) => trivial
        | .error .deadlock => trivial

/-! ## Enough room on the stack -/

/-- A plan is returned. -/
def IsPlanned (result : Result (List ℕ × List ℕ)) : Prop := ∃ state, result = .ok state

/-- An error is returned. -/
def IsRefused (result : Result (List ℕ × List ℕ)) : Prop := ∃ e, result = .error (.err e)

/-- With enough room, the search from some operations meets a goal from every sorted state. -/
def Meets (ids : List ℕ) (goal : Result (List ℕ × List ℕ) → Prop) : Prop :=
  ∃ n, ∀ depth ≥ n, ∀ state, c.Sorted state → goal (ids.foldlM (topologicalSort c.operations depth) state)

theorem meets_append {ids operationIds : List ℕ} {goal : Result (List ℕ × List ℕ) → Prop}
    (hids : ∀ id ∈ ids, c.Meets [id] IsPlanned) (hrest : c.Meets operationIds goal) :
    c.Meets (ids ++ operationIds) goal := by
  induction ids with
  | nil => exact hrest
  | cons id ids ih =>
    obtain ⟨⟨n, hn⟩, hids⟩ := List.forall_mem_cons.mp hids
    obtain ⟨m, hm⟩ := ih hids
    refine ⟨max n m, fun depth hdepth state hstate => ?_⟩
    obtain ⟨state', hstate'⟩ := hn depth (le_of_max_le_left hdepth) state hstate
    have hsound : c.Sound [id] state _ := sound_foldlM (fun id _ => sound_topologicalSort depth id) hstate
    rw [hstate'] at hsound
    have hadds : c.Adds [id] state state' := hsound
    have hsplit : id :: ids ++ operationIds = [id] ++ (ids ++ operationIds) := rfl
    rw [hsplit, List.foldlM_append, hstate']
    exact hm depth (le_of_max_le_right hdepth) state' hadds.sorted

theorem isPlanned_of_forall {ids : List ℕ} (h : ∀ id ∈ ids, c.Meets [id] IsPlanned) : c.Meets ids IsPlanned := by
  have hnil : c.Meets [] IsPlanned := ⟨0, fun _ _ state _ => ⟨state, rfl⟩⟩
  have hids := meets_append h hnil
  rwa [List.append_nil] at hids

theorem topologicalSort_succ {operationId : ℕ} {ids : List ℕ} (hids : c.dependencies operationId = some ids)
    (depth : ℕ) {state : List ℕ × List ℕ} (hnew : operationId ∉ state.1) :
    topologicalSort c.operations (depth + 1) state operationId =
      (ids.foldlM (topologicalSort c.operations depth) state).map
        fun state => (state.1.insert operationId, state.2 ++ [operationId]) := by
  obtain ⟨operation, hlookup, rfl⟩ := Option.map_eq_some_iff.mp hids
  rw [topologicalSort, if_neg hnew, hlookup]
  dsimp only
  cases operation.dependencies.foldlM (topologicalSort c.operations depth) state <;> rfl

/-- To meet a goal from an operation that exists, meet it from the dependencies and keep it at the end. -/
theorem Meets.of_dependencies {operationId : ℕ} {ids : List ℕ} {goal : Result (List ℕ × List ℕ) → Prop}
    (hids : c.dependencies operationId = some ids) (h : c.Meets ids goal)
    (hvisited : ∀ state, c.Sorted state → operationId ∈ state.1 → goal (.ok state))
    (hmap : ∀ result f, goal result → goal (result.map f)) : c.Meets [operationId] goal := by
  obtain ⟨n, hn⟩ := h
  refine ⟨n + 1, fun depth hdepth state hstate => ?_⟩
  obtain ⟨depth, rfl⟩ := Nat.exists_eq_add_of_lt hdepth
  rw [List.foldlM_cons]
  simp only [List.foldlM_nil, bind_pure]
  by_cases hmem : operationId ∈ state.1
  · rw [topologicalSort, if_pos hmem]
    exact hvisited state hstate hmem
  · rw [topologicalSort_succ hids _ hmem]
    exact hmap _ _ (hn (n + depth) (Nat.le_add_right n depth) state hstate)

theorem isPlanned_of_finishes {operationId : ℕ} (h : Finishes c.dependencies operationId) :
    c.Meets [operationId] IsPlanned := by
  induction h with
  | @node operationId ids hids _ ih =>
    refine (isPlanned_of_forall ih).of_dependencies hids (fun state _ _ => ⟨state, rfl⟩) ?_
    rintro _ f ⟨state, rfl⟩
    exact ⟨f state, rfl⟩

theorem Meets.cons {operationId : ℕ} {ids : List ℕ} (h : c.Meets [operationId] IsRefused) :
    c.Meets (operationId :: ids) IsRefused := by
  obtain ⟨n, hn⟩ := h
  refine ⟨n, fun depth hdepth state hstate => ?_⟩
  obtain ⟨e, he⟩ := hn depth hdepth state hstate
  have hsplit : operationId :: ids = [operationId] ++ ids := rfl
  rw [hsplit, List.foldlM_append, he]
  exact ⟨e, rfl⟩

theorem isRefused_of_fails {operationId : ℕ} (h : Fails c.dependencies operationId) :
    c.Meets [operationId] IsRefused := by
  have hnew {state : List ℕ × List ℕ} {id : ℕ} (hstate : c.Sorted state) (hfails : Fails c.dependencies id) :
      id ∉ state.1 := fun hvisited =>
    (hstate.finishes id ((hstate.visited id).mp hvisited)).not_fails hfails
  induction h with
  | @missing operationId hnone =>
    refine ⟨1, fun depth hdepth state hstate => ?_⟩
    obtain ⟨depth, rfl⟩ := Nat.exists_eq_add_of_lt hdepth
    have hlookup : c.operations.lookup operationId = none := Option.map_eq_none_iff.mp hnone
    rw [List.foldlM_cons, topologicalSort, if_neg (hnew hstate (.missing hnone)), hlookup]
    exact ⟨_, rfl⟩
  | @child operationId id pre post hids hpre hfails ih =>
    have hchildren : c.Meets (pre ++ id :: post) IsRefused :=
      meets_append (fun id hid => isPlanned_of_finishes (hpre id hid)) ih.cons
    refine hchildren.of_dependencies hids ?_ ?_
    · exact fun state hstate hmem => (hnew hstate (.child hids hpre hfails) hmem).elim
    · rintro _ f ⟨e, rfl⟩
      exact ⟨e, rfl⟩

theorem isRefused_of_failsIn {ids : List ℕ} (h : FailsIn c.dependencies ids) : c.Meets ids IsRefused := by
  obtain ⟨pre, id, post, rfl, hpre, hfails⟩ := h
  exact meets_append (fun id hid => isPlanned_of_finishes (hpre id hid)) (isRefused_of_fails hfails).cons

end Sorting

/-! ## Plans -/

section Plans

variable {c : DdlTransactionContext}

theorem getExecutionPlan_eq (depth : ℕ) :
    c.getExecutionPlan depth = (c.plannedIds.foldlM (topologicalSort c.operations depth) ([], [])).map Prod.snd := by
  have hfold : c.plannedIds.foldlM (topologicalSort c.operations depth) ([], []) =
      c.operations.pairs.foldlM (fun state p =>
        if p.2.status = .planned then topologicalSort c.operations depth state p.1 else .ok state) ([], []) := by
    rw [plannedIds, List.foldlM_map, List.foldlM_filter]
    simp only [decide_eq_true_eq]
    rfl
  rw [getExecutionPlan, ← hfold]
  cases c.plannedIds.foldlM (topologicalSort c.operations depth) ([], []) <;> rfl

theorem sound_plannedIds (c : DdlTransactionContext) (depth : ℕ) :
    c.Sound c.plannedIds ([], []) (c.plannedIds.foldlM (topologicalSort c.operations depth) ([], [])) :=
  sound_foldlM (fun id _ => sound_topologicalSort depth id) sorted_nil

/-- What is returned is what was added in the search from the planned operations. -/
theorem adds_of_getExecutionPlan {depth : ℕ} {plan : List ℕ} (h : c.getExecutionPlan depth = .ok plan) :
    ∃ visited, c.Adds c.plannedIds ([], []) (visited, plan) := by
  rw [getExecutionPlan_eq] at h
  have hsound := c.sound_plannedIds depth
  match hresult : c.plannedIds.foldlM (topologicalSort c.operations depth) ([], []) with
  | .ok (visited, plan') =>
    rw [hresult] at h hsound
    obtain rfl : plan' = plan := Except.ok.inj h
    exact ⟨visited, hsound⟩
  | .error e =>
    rw [hresult] at h
    cases h

theorem failsIn_of_getExecutionPlan {depth : ℕ} {e : RustgreSQLError}
    (h : c.getExecutionPlan depth = .error (.err e)) : FailsIn c.dependencies c.plannedIds := by
  rw [getExecutionPlan_eq] at h
  have hsound := c.sound_plannedIds depth
  match hresult : c.plannedIds.foldlM (topologicalSort c.operations depth) ([], []) with
  | .ok state =>
    rw [hresult] at h
    cases h
  | .error e' =>
    rw [hresult] at h hsound
    obtain rfl : e' = .err e := Except.error.inj h
    exact hsound

theorem exists_getExecutionPlan_iff :
    (∃ depth plan, c.getExecutionPlan depth = .ok plan) ↔ ∀ id ∈ c.plannedIds, Finishes c.dependencies id := by
  constructor
  · rintro ⟨depth, plan, h⟩
    obtain ⟨visited, hadds⟩ := adds_of_getExecutionPlan h
    exact hadds.finishes
  · intro hfinishes
    obtain ⟨n, hn⟩ := isPlanned_of_forall fun id hid => isPlanned_of_finishes (hfinishes id hid)
    obtain ⟨state, hstate⟩ := hn n le_rfl ([], []) sorted_nil
    exact ⟨n, state.2, by rw [getExecutionPlan_eq, hstate]; rfl⟩

theorem exists_error_iff :
    (∃ depth e, c.getExecutionPlan depth = .error (.err e)) ↔ FailsIn c.dependencies c.plannedIds := by
  constructor
  · rintro ⟨depth, e, h⟩
    exact failsIn_of_getExecutionPlan h
  · intro hfails
    obtain ⟨n, hn⟩ := isRefused_of_failsIn hfails
    obtain ⟨e, he⟩ := hn n le_rfl ([], []) sorted_nil
    exact ⟨n, e, by rw [getExecutionPlan_eq, he]; rfl⟩

theorem dependencies_ne_none {operationId : ℕ} : c.dependencies operationId ≠ none ↔ operationId ∈ c.operations := by
  rw [dependencies, ne_eq, Option.map_eq_none_iff, AList.lookup_eq_none, not_not]

theorem forall_finishes_iff :
    (∀ id ∈ c.plannedIds, Finishes c.dependencies id) ↔ c.DependenciesExist ∧ ¬ c.IsCyclic := by
  have hfinite : {id | c.dependencies id ≠ none}.Finite :=
    c.operations.keys.finite_toSet.subset fun id hid => dependencies_ne_none.mp hid
  simp only [finishes_iff hfinite, dependencies_ne_none]
  constructor
  · intro h
    exact ⟨fun id ⟨id', hid', hreaches⟩ => (h id' hid').1 id hreaches,
      fun ⟨id, ⟨id', hid', hreaches⟩, hcycle⟩ => (h id' hid').2 id hreaches hcycle⟩
  · rintro ⟨hexist, hacyclic⟩ id hid
    exact ⟨fun id' hreaches => hexist id' ⟨id, hid, hreaches⟩,
      fun id' hreaches hcycle => hacyclic ⟨id', ⟨id, hid, hreaches⟩, hcycle⟩⟩

/-- The plan is made of the operations that are needed. -/
theorem mem_plan_iff {visited plan : List ℕ} (h : c.Adds c.plannedIds ([], []) (visited, plan)) {operationId : ℕ} :
    operationId ∈ plan ↔ c.IsNeeded operationId := by
  constructor
  · intro hmem
    obtain ⟨new, rfl, hreached⟩ := h.extends_plan
    exact hreached operationId hmem
  · rintro ⟨id, hid, hreaches⟩
    induction hreaches with
    | refl => exact h.mem id hid
    | tail _ hchild ih =>
      obtain ⟨pre, post, hplan⟩ := List.append_of_mem ih
      have hpre := h.sorted.ordered pre _ post hplan _ hchild
      rw [show plan = _ from hplan]
      exact List.mem_append_left _ hpre

/-- All that an operation depends on is in front of it. -/
theorem Sorted.mem_of_transGen {state : List ℕ × List ℕ} (h : c.Sorted state) {id id' : ℕ}
    (hbelow : Relation.TransGen (HasChild c.dependencies) id id') :
    ∀ pre post, state.2 = pre ++ id :: post → id' ∈ pre := by
  induction hbelow with
  | single hchild => exact fun pre post hplan => h.ordered pre id post hplan _ hchild
  | @tail b d _ hchild ih =>
    intro pre post hplan
    obtain ⟨pre', post', hpre⟩ := List.append_of_mem (ih pre post hplan)
    have hplan' : state.2 = pre' ++ b :: (post' ++ id :: post) := by
      rw [hplan, hpre]
      simp
    rw [hpre]
    exact List.mem_append_left _ (h.ordered pre' b _ hplan' d hchild)

/-- A plan that is returned is right if and only if no operation that is needed has been started. -/
theorem isExecutionPlan_iff {depth : ℕ} {plan : List ℕ} (h : c.getExecutionPlan depth = .ok plan) :
    c.IsExecutionPlan plan ↔ ∀ id, c.IsNeeded id → ¬ c.IsStarted id := by
  obtain ⟨visited, hadds⟩ := adds_of_getExecutionPlan h
  constructor
  · exact fun hplan id hid => hplan.started id ((mem_plan_iff hadds).mpr hid)
  · intro hstarted
    refine ⟨fun id hid => ?_, fun id hid => hstarted id ((mem_plan_iff hadds).mp hid), ?_⟩
    · exact List.count_eq_one_of_mem hadds.sorted.nodup (hadds.mem id hid)
    · exact fun pre id post hplan _ id' _ hbelow => hadds.sorted.mem_of_transGen hbelow pre post hplan

end Plans

/-- Plans are right if and only if no planned operation needs one that has been started, unless there is an error or a
cycle, and on a cycle an operation that is missing is met before. -/
theorem plansRight_iff : c.PlansRight ↔
    (c.DependenciesExist ∧ ¬ c.IsCyclic → ∀ id, c.IsNeeded id → ¬ c.IsStarted id) ∧
    (c.IsCyclic → FailsIn c.dependencies c.plannedIds) := by
  have hok : (∃ depth plan, c.getExecutionPlan depth = .ok plan) ↔ c.DependenciesExist ∧ ¬ c.IsCyclic :=
    exists_getExecutionPlan_iff.trans forall_finishes_iff
  constructor
  · intro hright
    refine ⟨fun hpresent => ?_, fun hcyclic => exists_error_iff.mp (hright.cyclic hcyclic)⟩
    obtain ⟨depth, plan, hplan⟩ := hok.mpr hpresent
    exact (isExecutionPlan_iff hplan).mp (hright.plan depth plan hplan)
  · rintro ⟨hstarted, hcyclic⟩
    refine ⟨hok, fun depth plan hplan => ?_, fun h => exists_error_iff.mpr (hcyclic h)⟩
    exact (isExecutionPlan_iff hplan).mpr (hstarted (hok.mp ⟨depth, plan, hplan⟩))

/-- An operation that has been completed is planned again, for the one that depends on it. -/
theorem completed_planned : ¬ ∀ c : DdlTransactionContext, c.PlansRight := by
  intro hright
  let drop : DdlTransactionOperation := ⟨1, .dropTable "t" "public", .completed, [], none⟩
  let alter : DdlTransactionOperation := ⟨2, .alterTable "u" "public", .planned, [1], none⟩
  let c : DdlTransactionContext := ⟨1, HashMap.ofPairs [(1, drop), (2, alter)], 3, [], []⟩
  have hplan : c.getExecutionPlan 2 = .ok [1, 2] := by decide
  have hstarted : c.IsStarted 1 := ⟨drop, rfl, .inr (.inl rfl)⟩
  exact ((hright c).plan 2 [1, 2] hplan).started 1 List.mem_cons_self hstarted

end DdlTransactionContext

end Rustgresql
