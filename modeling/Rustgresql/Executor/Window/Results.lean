import Rustgresql.Executor.Window

/-!
# Results of window functions

A function that keeps an invariant on its state while it goes over the sorted rows leaves its values at the
original places of the rows.
-/

namespace Rustgresql

open ExpressionEvaluator StableSort

theorem Result.mapM_eq_ok {α β : Type} {f : α → Result β} {l : List α} {bs : List β} :
    l.mapM f = .ok bs ↔ List.Forall₂ (fun a b => f a = .ok b) l bs := by
  induction l generalizing bs with
  | nil =>
    rw [List.mapM_nil, List.forall₂_nil_left_iff]
    exact ⟨fun h => (Except.ok.inj h).symm, fun h => h ▸ rfl⟩
  | cons a l ih =>
    rw [List.mapM_cons, List.forall₂_cons_left_iff, Result.bind_eq_ok]
    constructor
    · rintro ⟨b, hb, hrest⟩
      obtain ⟨bs', hbs', heq⟩ := Result.bind_eq_ok.mp hrest
      exact ⟨b, bs', hb, ih.mp hbs', (Except.ok.inj heq).symm⟩
    · rintro ⟨b, bs', hb, hbs', rfl⟩
      exact ⟨b, hb, Result.bind_eq_ok.mpr ⟨bs', ih.mpr hbs', rfl⟩⟩

theorem Result.exists_mapM {α β : Type} {f : α → Result β} {l : List α} (h : ∀ a ∈ l, ∃ b, f a = .ok b) :
    ∃ bs, l.mapM f = .ok bs := by
  induction l with
  | nil => exact ⟨[], rfl⟩
  | cons a l ih =>
    obtain ⟨⟨b, hb⟩, hrest⟩ := List.forall_mem_cons.mp h
    obtain ⟨bs, hbs⟩ := ih hrest
    exact ⟨b :: bs, Result.mapM_eq_ok.mpr (.cons hb (Result.mapM_eq_ok.mp hbs))⟩

namespace WindowOperator

variable {S : Type}

/-! ## Storing -/

theorem length_foldl_set {values : List (ℕ × Value)} {results : List Value} :
    (values.foldl (fun results p => results.set p.1 p.2) results).length = results.length := by
  induction values generalizing results with
  | nil => rfl
  | cons p values ih => rw [List.foldl_cons, ih, List.length_set]

theorem getElem?_foldl_set_of_not_mem {values : List (ℕ × Value)} {results : List Value} {i : ℕ}
    (hi : i ∉ values.map Prod.fst) :
    (values.foldl (fun results p => results.set p.1 p.2) results)[i]? = results[i]? := by
  induction values generalizing results with
  | nil => rfl
  | cons p values ih =>
    rw [List.map_cons, List.mem_cons, not_or] at hi
    rw [List.foldl_cons, ih hi.2, List.getElem?_set_ne fun heq => hi.1 heq.symm]

/-- What is stored once at an index stays there. -/
theorem getElem?_foldl_set {values : List (ℕ × Value)} {results : List Value}
    (hnodup : (values.map Prod.fst).Nodup) (hlt : ∀ p ∈ values, p.1 < results.length) {p : ℕ × Value}
    (hp : p ∈ values) :
    (values.foldl (fun results p => results.set p.1 p.2) results)[p.1]? = some p.2 := by
  induction values generalizing results with
  | nil => cases hp
  | cons q values ih =>
    rw [List.map_cons, List.nodup_cons] at hnodup
    obtain ⟨hq, hvalues⟩ := List.forall_mem_cons.mp hlt
    rw [List.foldl_cons]
    rcases List.mem_cons.mp hp with rfl | hp
    · rw [getElem?_foldl_set_of_not_mem hnodup.1, List.getElem?_set_self hq]
    · refine ih hnodup.2 (fun r hr => ?_) hp
      rw [List.length_set]
      exact hvalues r hr

theorem length_storeResults (numRows : ℕ) (values : List (ℕ × Value)) :
    (storeResults numRows values).length = numRows := by
  rw [storeResults, length_foldl_set, List.length_replicate]

/-- What a sorted partition has at a place is stored where the row stood. -/
theorem getElem?_storeResults {partition : List Row} {sorted : List (Row × ℕ)} {values : List (ℕ × Value)}
    (hperm : sorted.Perm partition.zipIdx) (hindices : values.map Prod.fst = sorted.map Prod.snd)
    {p : ℕ × Value} (hp : p ∈ values) : (storeResults partition.length values)[p.1]? = some p.2 := by
  have hrange : (values.map Prod.fst).Perm (List.range partition.length) := by
    rw [hindices]
    refine (hperm.map Prod.snd).trans ?_
    rw [List.zipIdx_map_snd, List.range_eq_range']
  refine getElem?_foldl_set (hrange.nodup_iff.mpr List.nodup_range) (fun q hq => ?_) hp
  rw [List.length_replicate]
  exact List.mem_range.mp (hrange.subset (List.mem_map_of_mem hq))

/-! ## Going over the rows -/

section Rows

variable [DebugText] [FloatArithmetic] {sort : SortBy} {overflowChecks : Bool} {ops : Operations S}
  {windowFunc : WindowFunction (Expression S)} {partition : SortedPartition} {sorted : List (Row × ℕ)}
  {state : WindowFunctionState}

/-- The function returns for the row at every place, as long as an invariant holds. -/
def StepsReturn (overflowChecks : Bool) (ops : Operations S) (windowFunc : WindowFunction (Expression S))
    (partition : SortedPartition) (sorted : List (Row × ℕ)) (I : ℕ → WindowFunctionState → Prop) : Prop :=
  ∀ k p state, sorted[k]? = some p → I k state → ∃ v state',
    evaluateWindowFunctionWithOrder overflowChecks ops windowFunc partition k p.1 state = .ok (v, state')

/-- What the function returns for the row at the place `k` is right there, and an invariant is kept. -/
def StepsKeep (overflowChecks : Bool) (ops : Operations S) (windowFunc : WindowFunction (Expression S))
    (partition : SortedPartition) (sorted : List (Row × ℕ)) (I : ℕ → WindowFunctionState → Prop)
    (R : ℕ → Value → Prop) : Prop :=
  ∀ k p state v state', sorted[k]? = some p → I k state →
    evaluateWindowFunctionWithOrder overflowChecks ops windowFunc partition k p.1 state = .ok (v, state') →
    R k v ∧ I (k + 1) state'

variable {I : ℕ → WindowFunctionState → Prop} {R : ℕ → Value → Prop}

/-- The original indices come back in their order, each with a value that is right. -/
theorem evaluateRows_spec {values : List (ℕ × Value)}
    (h : evaluateRows overflowChecks ops windowFunc partition 0 state sorted = .ok values) :
    values.map Prod.fst = sorted.map Prod.snd ∧ ∀ I R,
      StepsKeep overflowChecks ops windowFunc partition sorted I R → I 0 state →
      ∀ k p, values[k]? = some p → R k p.2 := by
  -- the rows that are left, with those before them
  have hrest : ∀ (rows pre : List (Row × ℕ)) (state : WindowFunctionState) (values : List (ℕ × Value)),
      sorted = pre ++ rows →
      evaluateRows overflowChecks ops windowFunc partition pre.length state rows = .ok values →
      values.map Prod.fst = rows.map Prod.snd ∧ ∀ I R,
        StepsKeep overflowChecks ops windowFunc partition sorted I R → I pre.length state →
        ∀ k p, values[k]? = some p → R (pre.length + k) p.2 := by
    intro rows
    induction rows with
    | nil =>
      intro pre state values _ h
      obtain rfl := Except.ok.inj h
      exact ⟨rfl, fun I R _ _ k p hp => nomatch hp⟩
    | cons p rows ih =>
      intro pre state values hsorted h
      obtain ⟨⟨v, state'⟩, hstep, h⟩ := Result.bind_eq_ok.mp h
      obtain ⟨values', hvalues', heq⟩ := Result.bind_eq_ok.mp h
      obtain rfl := Except.ok.inj heq
      have hp : sorted[pre.length]? = some p := by
        rw [hsorted, List.getElem?_append_right le_rfl, Nat.sub_self, List.getElem?_cons_zero]
      have hlength : (pre ++ [p]).length = pre.length + 1 := by simp
      obtain ⟨hindices, hright⟩ := ih (pre ++ [p]) state' values' (by rw [hsorted]; simp) (hlength ▸ hvalues')
      refine ⟨by rw [List.map_cons, List.map_cons, hindices], fun I R hkeep hI k q hq => ?_⟩
      obtain ⟨hv, hI'⟩ := hkeep pre.length p state v state' hp hI hstep
      cases k with
      | zero =>
        obtain rfl := Option.some.inj hq
        exact hv
      | succ k =>
        have htail := hright I R hkeep (hlength ▸ hI') k q hq
        rwa [hlength, Nat.add_assoc, Nat.add_comm 1 k] at htail
  obtain ⟨hindices, hright⟩ := hrest sorted [] state values rfl h
  refine ⟨hindices, fun I R hkeep hstart k p hp => ?_⟩
  have hvalue := hright I R hkeep hstart k p hp
  rwa [List.length_nil, Nat.zero_add] at hvalue

theorem exists_evaluateRows (hreturn : StepsReturn overflowChecks ops windowFunc partition sorted I)
    (hkeep : StepsKeep overflowChecks ops windowFunc partition sorted I R) (hstart : I 0 state) :
    ∃ values, evaluateRows overflowChecks ops windowFunc partition 0 state sorted = .ok values := by
  have hrest : ∀ (rows pre : List (Row × ℕ)) (state : WindowFunctionState), sorted = pre ++ rows →
      I pre.length state → ∃ values,
        evaluateRows overflowChecks ops windowFunc partition pre.length state rows = .ok values := by
    intro rows
    induction rows with
    | nil => exact fun pre state _ _ => ⟨[], rfl⟩
    | cons p rows ih =>
      intro pre state hsorted hI
      have hp : sorted[pre.length]? = some p := by
        rw [hsorted, List.getElem?_append_right le_rfl, Nat.sub_self, List.getElem?_cons_zero]
      obtain ⟨v, state', hstep⟩ := hreturn pre.length p state hp hI
      obtain ⟨-, hI'⟩ := hkeep pre.length p state v state' hp hI hstep
      have hlength : (pre ++ [p]).length = pre.length + 1 := by simp
      obtain ⟨values, hvalues⟩ := ih (pre ++ [p]) state' (by rw [hsorted]; simp) (hlength ▸ hI')
      rw [hlength] at hvalues
      exact ⟨_, Result.bind_eq_ok.mpr ⟨_, hstep, Result.bind_eq_ok.mpr ⟨values, hvalues, rfl⟩⟩⟩
  exact hrest sorted [] state rfl hstart

end Rows

/-! ## A partition -/

section Partition

variable {sort : SortBy} {overflowChecks : Bool} {ops : Operations S} {columnNames : List String}
  {windowFunc : WindowFunction (Expression S)} {partition : List Row}

/-- The order of rows by a function's ORDER BY -/
def rowOrder (ops : Operations S) (columnNames : List String) (windowFunc : WindowFunction (Expression S)) :
    Row → Row → Ordering :=
  SortOperator.compareRows (rowEvaluator ops) columnNames windowFunc.windowClause.orderBy

theorem sortPartition_perm (hsort : ∀ α, IsStableSort (sort α)) {sorted : List (Row × ℕ)}
    (h : sortPartition sort ops columnNames windowFunc.windowClause.orderBy partition = .ok sorted) :
    sorted.Perm partition.zipIdx := by
  unfold sortPartition at h
  split at h
  · rw [Except.ok.inj h]
  · exact (hsort _).perm _ _ _ h

/-- A partition on which the ORDER BY is an order is sorted. -/
theorem exists_sortPartition (hsort : ∀ α, IsStableSort (sort α))
    (horder : IsOrderOn (rowOrder ops columnNames windowFunc) partition) :
    ∃ sorted, sortPartition sort ops columnNames windowFunc.windowClause.orderBy partition = .ok sorted ∧
      StablySorted (fun a b => rowOrder ops columnNames windowFunc a.1 b.1) partition.zipIdx sorted := by
  unfold sortPartition
  split
  · next hempty =>
    refine ⟨partition.zipIdx, rfl, stablySorted_self fun a _ b _ => ?_⟩
    rw [rowOrder, List.isEmpty_iff.mp hempty]
    rfl
  · have hpairs : IsOrderOn (rowOrder ops columnNames windowFunc) (partition.zipIdx.map Prod.fst) := by
      rwa [List.zipIdx_map_fst]
    exact (hsort _).sorts _ _ hpairs.comap

variable [DebugText] [FloatArithmetic]

/-- The values of a function stand where the rows stood, and are right if an invariant is kept. -/
theorem windowResults_spec (hsort : ∀ α, IsStableSort (sort α)) {results : List Value}
    (h : windowResults sort overflowChecks ops columnNames windowFunc partition = .ok results) :
    ∃ sorted, sortPartition sort ops columnNames windowFunc.windowClause.orderBy partition = .ok sorted ∧
      ∀ I R, I 0 (initializeWindowFunction ops windowFunc) →
        StepsKeep overflowChecks ops windowFunc ⟨sorted.map Prod.fst, columnNames⟩ sorted I R →
        ∀ k row i, sorted[k]? = some (row, i) → ∃ v, results[i]? = some v ∧ R k v := by
  obtain ⟨sorted, hsorted, h⟩ := Result.bind_eq_ok.mp h
  obtain ⟨values, hvalues, h⟩ := Result.bind_eq_ok.mp h
  obtain rfl := Except.ok.inj h
  obtain ⟨hindices, hright⟩ := evaluateRows_spec hvalues
  refine ⟨sorted, hsorted, fun I R hstart hkeep k row i hk => ?_⟩
  have hplace : (values.map Prod.fst)[k]? = some i := by rw [hindices, List.getElem?_map, hk]; rfl
  rw [List.getElem?_map, Option.map_eq_some_iff] at hplace
  obtain ⟨p, hp, rfl⟩ := hplace
  exact ⟨p.2, getElem?_storeResults (sortPartition_perm hsort hsorted) hindices (List.mem_of_getElem? hp),
    hright I R hkeep hstart k p hp⟩

theorem length_windowResults {results : List Value}
    (h : windowResults sort overflowChecks ops columnNames windowFunc partition = .ok results) :
    results.length = partition.length := by
  obtain ⟨sorted, -, h⟩ := Result.bind_eq_ok.mp h
  obtain ⟨values, -, h⟩ := Result.bind_eq_ok.mp h
  rw [← Except.ok.inj h, length_storeResults]

variable {op : WindowOperator S} {partitions : List (List Row)}

/-- Every partition comes out with the results of the functions on it behind its rows. -/
theorem outputs_of_applyWindowFunctions {rows : List Row}
    (h : applyWindowFunctions sort overflowChecks ops op partitions columnNames = .ok rows) :
    ∃ outputs, rows = outputs.flatten ∧ List.Forall₂ (fun partition output => partition ∈ partitions ∧ ∃ columns,
      output = combineRows partition columns ∧ List.Forall₂ (fun f column => f ∈ op.windowFunctions ∧
        windowResults sort overflowChecks ops columnNames f.2 partition = .ok column) op.windowFunctions columns)
      partitions outputs := by
  obtain ⟨outputs, houtputs, h⟩ := Result.bind_eq_ok.mp h
  refine ⟨outputs, (Except.ok.inj h).symm, ?_⟩
  refine List.Forall₂.imp ?_ ((List.forall₂_and_left _ _).mpr ⟨fun _ hmem => hmem, Result.mapM_eq_ok.mp houtputs⟩)
  rintro partition output ⟨hpartition, h⟩
  obtain ⟨columns, hcolumns, h⟩ := Result.bind_eq_ok.mp h
  exact ⟨hpartition, columns, (Except.ok.inj h).symm,
    (List.forall₂_and_left _ _).mpr ⟨fun _ hmem => hmem, Result.mapM_eq_ok.mp hcolumns⟩⟩

theorem exists_applyWindowFunctions (h : ∀ f ∈ op.windowFunctions, ∀ partition ∈ partitions,
      ∃ column, windowResults sort overflowChecks ops columnNames f.2 partition = .ok column) :
    ∃ rows, applyWindowFunctions sort overflowChecks ops op partitions columnNames = .ok rows := by
  have hpartition : ∀ partition ∈ partitions, ∃ output, (do
      let results ← op.windowFunctions.mapM fun f => windowResults sort overflowChecks ops columnNames f.2 partition
      return combineRows partition results) = Except.ok output := by
    intro partition hmem
    obtain ⟨columns, hcolumns⟩ := Result.exists_mapM fun f hf => h f hf partition hmem
    exact ⟨_, Result.bind_eq_ok.mpr ⟨columns, hcolumns, rfl⟩⟩
  obtain ⟨outputs, houtputs⟩ := Result.exists_mapM hpartition
  exact ⟨_, Result.bind_eq_ok.mpr ⟨outputs, houtputs, rfl⟩⟩

end Partition

end WindowOperator

end Rustgresql
