import Rustgresql.Executor.Window.Offset
import Rustgresql.Executor.Window.Ranking

/-!
# Partitions

The planner gives the operator the PARTITION BY list of the first window function. `own_partitions_iff`: all
functions have the values of their own partitions, whatever the functions are, if and only if every list
takes the same rows together as the first.
-/

namespace Rustgresql

open ExpressionEvaluator StableSort

open Sql (OrderBy)

namespace WindowOperator

variable {S : Type}

/-! ## Planning -/

/-- Extract WindowFunction objects from expressions -/
def extractWindowFunctions (windowFunctions : List (String × Expression S)) :
    List (String × WindowFunction (Expression S)) :=
  windowFunctions.filterMap fun p =>
    match p.2 with
    | .windowFunction f => some (p.1, f)
    | _ => none

/-- The operator of a plan node. It has the window clause of the first function. -/
def ofPlan (windowFunctions : List (String × Expression S)) : WindowOperator S :=
  let windowFuncs := extractWindowFunctions windowFunctions
  { windowFunctions := windowFuncs
    partitionBy := (windowFuncs.head?.map fun f => f.2.windowClause.partitionBy).getD []
    orderBy := (windowFuncs.head?.map fun f => f.2.windowClause.orderBy).getD [] }

/-! ## The rows of a partition -/

/-- The rows with the key of the row at a place, with their places -/
def partitionAt (key : Row → String) (rows : List Row) (i : ℕ) : List (Row × ℕ) :=
  rows.zipIdx.filter fun p => some (key p.1) = rows[i]?.map key

section Keys

variable {key key' : Row → String} {rows : List Row} {row : Row} {i j : ℕ}

theorem mem_partitionAt {p : Row × ℕ} :
    p ∈ partitionAt key rows i ↔ rows[p.2]? = some p.1 ∧ some (key p.1) = rows[i]?.map key := by
  rw [partitionAt, List.mem_filter, decide_eq_true_eq, List.mem_zipIdx_iff_getElem?]

theorem partitionAt_eq (hi : rows[i]? = some row) :
    partitionAt key rows i = rows.zipIdx.filter fun p => key p.1 = key row := by
  rw [partitionAt, hi]
  exact List.filter_congr fun p _ => by simp

/-- Keys that take the same rows together make the same partitions. -/
theorem partitionAt_congr (h : ∀ a ∈ rows, ∀ b ∈ rows, key a = key b ↔ key' a = key' b) (i : ℕ) :
    partitionAt key rows i = partitionAt key' rows i := by
  refine List.filter_congr fun p hp => ?_
  have hp' := List.fst_mem_of_mem_zipIdx hp
  rcases hi : rows[i]? with - | row
  · simp
  · simpa using h p.1 hp' row (List.mem_of_getElem? hi)

theorem pairwise_partitionAt (key : Row → String) (rows : List Row) (i : ℕ) :
    (partitionAt key rows i).Pairwise fun p q => p.2 < q.2 := by
  refine List.Pairwise.filter _ (List.pairwise_map.mp ?_)
  rw [List.zipIdx_map_snd]
  exact List.pairwise_lt_range' 1

/-- A row has one place in its partition. -/
theorem place_unique {p q : ℕ} {a b : Row} (hp : (partitionAt key rows i)[p]? = some (a, j))
    (hq : (partitionAt key rows i)[q]? = some (b, j)) : p = q := by
  obtain ⟨hp, hpj⟩ := List.getElem?_eq_some_iff.mp hp
  obtain ⟨hq, hqj⟩ := List.getElem?_eq_some_iff.mp hq
  have hpairwise := List.pairwise_iff_getElem.mp (pairwise_partitionAt key rows i)
  rcases Nat.lt_trichotomy p q with hlt | heq | hlt
  · have hlt' := hpairwise p q hp hq hlt
    rw [hpj, hqj] at hlt'
    exact absurd hlt' (lt_irrefl _)
  · exact heq
  · have hlt' := hpairwise q p hq hp hlt
    rw [hpj, hqj] at hlt'
    exact absurd hlt' (lt_irrefl _)

/-- An earlier row stands at an earlier place. -/
theorem place_lt {p q j' : ℕ} {a b : Row} (hp : (partitionAt key rows i)[p]? = some (a, j))
    (hq : (partitionAt key rows i)[q]? = some (b, j')) (hj : j < j') : p < q := by
  obtain ⟨hp', hpj⟩ := List.getElem?_eq_some_iff.mp hp
  obtain ⟨hq', hqj⟩ := List.getElem?_eq_some_iff.mp hq
  have hpairwise := List.pairwise_iff_getElem.mp (pairwise_partitionAt key rows i)
  by_contra hle
  rcases Nat.eq_or_lt_of_le (not_lt.mp hle) with rfl | hlt
  · obtain ⟨-, rfl⟩ := Prod.mk.inj (Option.some.inj (hp.symm.trans hq))
    exact absurd hj (lt_irrefl _)
  · have hlt' := hpairwise q p hq' hp' hlt
    rw [hpj, hqj] at hlt'
    exact absurd (hlt'.trans hj) (lt_irrefl _)

end Keys

section Values

variable [DebugText] [FloatArithmetic]

/-- The value of a function for the row at a place, on the rows with the same key -/
def IsValueOn (sort : SortBy) (overflowChecks : Bool) (ops : Operations S) (columnNames : List String)
    (windowFunc : WindowFunction (Expression S)) (key : Row → String) (rows : List Row) (i : ℕ) (v : Value) : Prop :=
  ∃ (column : List Value) (place : ℕ) (row : Row), windowResults sort overflowChecks ops columnNames windowFunc
      ((partitionAt key rows i).map Prod.fst) = .ok column ∧
    (partitionAt key rows i)[place]? = some (row, i) ∧ column[place]? = some v

/-- A row of the result is a row of the input with the values of the functions on the rows with its keys. -/
def IsOutput (sort : SortBy) (overflowChecks : Bool) (ops : Operations S) (columnNames : List String)
    (windowFunctions : List (String × WindowFunction (Expression S)))
    (partitionBy : WindowFunction (Expression S) → List (Expression S)) (rows : List Row) (i : ℕ) (output : Row) :
    Prop :=
  ∃ row values, rows[i]? = some row ∧ output = row ++ values ∧ List.Forall₂ (fun f v =>
    IsValueOn sort overflowChecks ops columnNames f.2 (partitionKey ops (partitionBy f.2) columnNames) rows i v)
    windowFunctions values

/-- The keys of the partitions, in the order in which the partitions are iterated -/
def partitionKeys (ops : Operations S) (op : WindowOperator S) (rows : List Row) (columnNames : List String) :
    List String :=
  if op.partitionBy.isEmpty then [""]
  else (HashMap.group (partitionKey ops op.partitionBy columnNames) (fun _ => []) (fun rows row => rows ++ [row])
    rows).pairs.map Prod.fst

/-- The places in the input of the rows of the result -/
def outputPlaces (ops : Operations S) (op : WindowOperator S) (rows : List Row) (columnNames : List String) : List ℕ :=
  (partitionKeys ops op rows columnNames).flatMap fun k =>
    (rows.zipIdx.filter fun p => partitionKey ops op.partitionBy columnNames p.1 = k).map Prod.snd

end Values

/-! ## The operator -/

section Operator

variable [DebugText] {ops : Operations S} {op : WindowOperator S} {rows : List Row} {columnNames : List String}

theorem partitionKey_nil (row : Row) : partitionKey ops [] columnNames row = "" := rfl

theorem nodup_partitionKeys : (partitionKeys ops op rows columnNames).Nodup := by
  unfold partitionKeys
  split_ifs
  · exact List.nodup_singleton _
  · rw [HashMap.pairs, List.map_map]
    exact AList.nodupKeys _

theorem mem_partitionKeys {row : Row} (hrow : row ∈ rows) :
    partitionKey ops op.partitionBy columnNames row ∈ partitionKeys ops op rows columnNames := by
  unfold partitionKeys
  split_ifs with hempty
  · rw [List.isEmpty_iff.mp hempty, partitionKey_nil]
    exact List.mem_singleton_self _
  · have hmem : row ∈ rows.filter fun row' => partitionKey ops op.partitionBy columnNames row' =
        partitionKey ops op.partitionBy columnNames row := List.mem_filter.mpr ⟨hrow, decide_eq_true rfl⟩
    obtain ⟨first, rest, hrows⟩ := List.exists_cons_of_ne_nil (List.ne_nil_of_mem hmem)
    have hgroup : ∃ group, (HashMap.group (partitionKey ops op.partitionBy columnNames) (fun _ => [])
        (fun rows row => rows ++ [row]) rows).lookup (partitionKey ops op.partitionBy columnNames row) = some group := by
      rw [HashMap.lookup_group, hrows]
      exact ⟨_, rfl⟩
    obtain ⟨group, hgroup⟩ := hgroup
    exact List.mem_map.mpr ⟨(_, group), HashMap.mem_pairs.mpr hgroup, rfl⟩

/-- A partition has the rows with its key, in their order. -/
theorem partitionRows_eq : partitionRows ops op rows columnNames = (partitionKeys ops op rows columnNames).map fun k =>
    rows.filter fun row => partitionKey ops op.partitionBy columnNames row = k := by
  unfold partitionRows partitionKeys
  split_ifs with hempty
  · rw [List.isEmpty_iff.mp hempty, List.map_singleton]
    simp only [partitionKey_nil, decide_true, List.filter_true]
  · rw [List.map_map]
    refine List.map_congr_left fun p hp => ?_
    have hlookup := HashMap.mem_pairs.mp hp
    rw [HashMap.lookup_group, Option.map_eq_some_iff] at hlookup
    obtain ⟨first, -, hgroup⟩ := hlookup
    rw [← hgroup, List.foldl_append_eq_append, List.nil_append, ← List.flatMap_def, List.flatMap_singleton']
    rfl

/-- Every row has a place in the result. -/
theorem outputPlaces_perm : (outputPlaces ops op rows columnNames).Perm (List.range rows.length) := by
  have hplace (k : String) {i : ℕ} : i ∈ (rows.zipIdx.filter fun p =>
      partitionKey ops op.partitionBy columnNames p.1 = k).map Prod.snd ↔
      ∃ row, rows[i]? = some row ∧ partitionKey ops op.partitionBy columnNames row = k := by
    simp only [List.mem_map, List.mem_filter, List.mem_zipIdx_iff_getElem?, decide_eq_true_eq, Prod.exists]
    constructor
    · rintro ⟨row, j, ⟨hrow, hkey⟩, rfl⟩
      exact ⟨row, hrow, hkey⟩
    · rintro ⟨row, hrow, hkey⟩
      exact ⟨row, i, ⟨hrow, hkey⟩, rfl⟩
  refine (List.perm_ext_iff_of_nodup (List.nodup_flatMap.mpr ⟨fun k _ => ?_, ?_⟩) List.nodup_range).mpr fun i => ?_
  · have hindices : (rows.zipIdx.map Prod.snd).Nodup := by
      rw [List.zipIdx_map_snd]
      exact List.nodup_range'
    exact hindices.sublist (List.filter_sublist.map _)
  · refine nodup_partitionKeys.imp fun hne i hk hk' => ?_
    obtain ⟨row, hrow, rfl⟩ := (hplace _).mp hk
    obtain ⟨row', hrow', rfl⟩ := (hplace _).mp hk'
    obtain rfl := Option.some.inj (hrow.symm.trans hrow')
    exact hne rfl
  · rw [List.mem_flatMap, List.mem_range]
    constructor
    · rintro ⟨k, -, hi⟩
      obtain ⟨row, hrow, -⟩ := (hplace k).mp hi
      exact (List.getElem?_eq_some_iff.mp hrow).1
    · intro hi
      exact ⟨_, mem_partitionKeys (List.getElem_mem hi), (hplace _).mpr ⟨_, List.getElem?_eq_getElem hi, rfl⟩⟩

end Operator

section Results

variable [DebugText] [FloatArithmetic] {sort : SortBy} {overflowChecks : Bool} {ops : Operations S}
  {op : WindowOperator S} {rows : List Row} {columnNames : List String}

/-- The rows of a partition come out with the values of the functions on it. -/
theorem isOutput_of_combineRows {key : String} {columns : List (List Value)}
    (hcolumns : List.Forall₂ (fun f column => windowResults sort overflowChecks ops columnNames f.2
      (rows.filter fun row => partitionKey ops op.partitionBy columnNames row = key) = .ok column)
      op.windowFunctions columns) :
    List.Forall₂ (IsOutput sort overflowChecks ops columnNames op.windowFunctions (fun _ => op.partitionBy) rows)
      ((rows.zipIdx.filter fun p => partitionKey ops op.partitionBy columnNames p.1 = key).map Prod.snd)
      (combineRows (rows.filter fun row => partitionKey ops op.partitionBy columnNames row = key) columns) := by
  have hrows : (rows.filter fun row => partitionKey ops op.partitionBy columnNames row = key) =
      (rows.zipIdx.filter fun p => partitionKey ops op.partitionBy columnNames p.1 = key).map Prod.fst := by
    conv_lhs => rw [← List.zipIdx_map_fst 0 rows, List.filter_map]
    rfl
  have hmem {p : Row × ℕ} (hp : p ∈ rows.zipIdx.filter fun p => partitionKey ops op.partitionBy columnNames p.1 = key) :
      rows[p.2]? = some p.1 ∧ partitionKey ops op.partitionBy columnNames p.1 = key := by
    rwa [List.mem_filter, decide_eq_true_eq, List.mem_zipIdx_iff_getElem?] at hp
  rw [hrows] at hcolumns ⊢
  generalize hpartition : (rows.zipIdx.filter fun p => partitionKey ops op.partitionBy columnNames p.1 = key) =
    partition at *
  rw [combineRows, List.zipIdx_map, List.map_map, ← List.zipIdx_map_fst 0 partition, List.map_map,
    List.zipIdx_map_fst, List.forall₂_map_left_iff, List.forall₂_map_right_iff, List.forall₂_same]
  rintro ⟨⟨row, i⟩, k⟩ hk
  have hplace := List.mem_zipIdx_iff_getElem?.mp hk
  obtain ⟨hrow, hkey⟩ := hmem (List.mem_of_getElem? hplace)
  have hsame : partitionAt (partitionKey ops op.partitionBy columnNames) rows i = partition := by
    rw [partitionAt_eq hrow, ← hpartition]
    simp only [hkey]
  refine ⟨row, _, hrow, rfl, List.forall₂_map_right_iff.mpr (hcolumns.imp fun f column hcolumn => ?_)⟩
  have hlt : k < column.length := by
    rw [length_windowResults hcolumn, List.length_map]
    exact (List.getElem?_eq_some_iff.mp hplace).1
  have hvalue : IsValueOn sort overflowChecks ops columnNames f.2 (partitionKey ops op.partitionBy columnNames) rows i
      (column.getD k .null) := by
    unfold IsValueOn
    rw [hsame, List.getD_eq_getElem?_getD, List.getElem?_eq_getElem hlt, Option.getD_some]
    exact ⟨column, k, row, hcolumn, hplace, List.getElem?_eq_getElem hlt⟩
  exact hvalue

/-- The rows of the result have the values of the functions on the partitions of the operator. -/
theorem isOutput_of_applyWindowFunctions {output : List Row}
    (h : applyWindowFunctions sort overflowChecks ops op (partitionRows ops op rows columnNames) columnNames =
      .ok output) :
    List.Forall₂ (IsOutput sort overflowChecks ops columnNames op.windowFunctions (fun _ => op.partitionBy) rows)
      (outputPlaces ops op rows columnNames) output := by
  obtain ⟨outputs, rfl, houtputs⟩ := outputs_of_applyWindowFunctions h
  rw [partitionRows_eq, List.forall₂_map_left_iff] at houtputs
  rw [outputPlaces, List.flatMap_def]
  refine List.rel_flatten (List.forall₂_map_left_iff.mpr (houtputs.imp fun key output h => ?_))
  obtain ⟨-, columns, rfl, hcolumns⟩ := h
  exact isOutput_of_combineRows (hcolumns.imp fun f column h => h.2)

end Results

/-! ## When the partitions are their own -/

theorem sortInputRows_perm {sort : SortBy} {ops : Operations S} {op : WindowOperator S} {input : QueryResult}
    (hsort : ∀ α, IsStableSort (sort α)) {sortedRows : List Row}
    (h : sortInputRows sort ops op input = .ok sortedRows) : sortedRows.Perm input.rows := by
  unfold sortInputRows at h
  split_ifs at h
  · rw [Except.ok.inj h]
  · exact (hsort _).perm _ _ _ h

theorem exists_of_forall₂ {α β : Type} {R R' : α → β → Prop} {l : List α} {m : List β} (h : List.Forall₂ R l m)
    (h' : List.Forall₂ R' l m) {a : α} (ha : a ∈ l) : ∃ b, R a b ∧ R' a b := by
  induction h with
  | nil => cases ha
  | cons hab _ ih =>
    obtain - | ⟨hab', hrest'⟩ := h'
    rcases List.mem_cons.mp ha with rfl | ha
    · exact ⟨_, hab, hab'⟩
    · exact ih hrest' ha

/-- Window functions with a name, some arguments and a PARTITION BY list each -/
def functionsOf (name : String) (args : List (Expression S)) (lists : List (List (Expression S))) :
    List (String × Expression S) :=
  lists.map fun partitionBy => ("v", .windowFunction ⟨name, args, ⟨partitionBy, [], none⟩⟩)

theorem extractWindowFunctions_functionsOf (name : String) (args : List (Expression S))
    (lists : List (List (Expression S))) : extractWindowFunctions (functionsOf name args lists) =
      lists.map fun partitionBy => ("v", ⟨name, args, ⟨partitionBy, [], none⟩⟩) := by
  rw [extractWindowFunctions, functionsOf, List.filterMap_map]
  exact congrFun List.filterMap_eq_map' lists

theorem ofPlan_functionsOf (name : String) (args : List (Expression S)) {lists : List (List (Expression S))}
    {first : List (Expression S)} (hfirst : first ∈ lists.head?) : ofPlan (functionsOf name args lists) =
      ⟨lists.map fun partitionBy => ("v", ⟨name, args, ⟨partitionBy, [], none⟩⟩), first, []⟩ := by
  unfold ofPlan
  dsimp only
  rw [extractWindowFunctions_functionsOf, List.head?_map, Option.mem_def.mp hfirst]
  rfl

/-- Without an ORDER BY a row keeps its place. -/
theorem sorted_of_sortPartition {sort : SortBy} {ops : Operations S} {columnNames : List String}
    {windowFunc : WindowFunction (Expression S)} {partition : List Row} (horderBy : windowFunc.windowClause.orderBy = [])
    {sorted : List (Row × ℕ)}
    (h : sortPartition sort ops columnNames windowFunc.windowClause.orderBy partition = .ok sorted) :
    sorted = partition.zipIdx := by
  rw [sortPartition, horderBy] at h
  exact (Except.ok.inj h).symm

section Own

variable [DebugText]

/-- Every PARTITION BY list takes the same rows together as the first. -/
def TakesSameRows (ops : Operations S) (lists : List (List (Expression S))) (input : QueryResult) : Prop :=
  ∀ first ∈ lists.head?, ∀ partitionBy ∈ lists, ∀ a ∈ input.rows, ∀ b ∈ input.rows,
    partitionKey ops first input.columnNames a = partitionKey ops first input.columnNames b ↔
      partitionKey ops partitionBy input.columnNames a = partitionKey ops partitionBy input.columnNames b

variable [FloatArithmetic]

/-- Whenever the operator of a plan returns, every function has the values of its own partitions. -/
def HasOwnPartitions (sort : SortBy) (overflowChecks : Bool) (ops : Operations S)
    (windowFunctions : List (String × Expression S)) (input : QueryResult) : Prop :=
  ∀ sortedRows result, sortInputRows sort ops (ofPlan windowFunctions) input = .ok sortedRows →
    (ofPlan windowFunctions).execute sort overflowChecks ops (.ok input) = .ok result →
    List.Forall₂ (IsOutput sort overflowChecks ops input.columnNames (extractWindowFunctions windowFunctions)
      (fun f => f.windowClause.partitionBy) sortedRows)
      (outputPlaces ops (ofPlan windowFunctions) sortedRows input.columnNames) result.rows

variable {sort : SortBy} {overflowChecks : Bool} {ops : Operations S} {lists : List (List (Expression S))}
  {windowFunctions : List (String × Expression S)} {input : QueryResult}

/-- The rows of the result have the values of the functions on the partitions of the first list. -/
theorem isOutput_of_execute {op : WindowOperator S} (hsort : ∀ α, IsStableSort (sort α)) {sortedRows : List Row}
    {result : QueryResult} (hsorted : sortInputRows sort ops op input = .ok sortedRows)
    (h : op.execute sort overflowChecks ops (.ok input) = .ok result) :
    List.Forall₂ (IsOutput sort overflowChecks ops input.columnNames op.windowFunctions (fun _ => op.partitionBy)
      sortedRows) (outputPlaces ops op sortedRows input.columnNames) result.rows := by
  obtain ⟨input', hinput, h⟩ := Result.bind_eq_ok.mp h
  obtain rfl := Except.ok.inj hinput
  dsimp only at h
  split_ifs at h with hempty
  · -- without rows there are no places
    have hnone : sortedRows = [] := (List.isEmpty_iff.mp hempty ▸ sortInputRows_perm hsort hsorted).eq_nil
    have hplaces : outputPlaces ops op sortedRows input.columnNames = [] := by
      rw [hnone]
      exact List.Perm.eq_nil outputPlaces_perm
    rw [hplaces, ← Except.ok.inj h]
    exact .nil
  · obtain ⟨sortedRows', hsorted', h⟩ := Result.bind_eq_ok.mp h
    obtain rfl := Except.ok.inj (hsorted.symm.trans hsorted')
    obtain ⟨rows, hrows, h⟩ := Result.bind_eq_ok.mp h
    rw [← Except.ok.inj h]
    exact isOutput_of_applyWindowFunctions hrows

theorem length_rows_of_execute {op : WindowOperator S} (hsort : ∀ α, IsStableSort (sort α)) {result : QueryResult}
    (h : op.execute sort overflowChecks ops (.ok input) = .ok result) : result.rows.length = input.rows.length := by
  rcases hsorted : sortInputRows sort ops op input with e | sortedRows
  · -- then there are no rows to sort
    obtain ⟨input', hinput, h⟩ := Result.bind_eq_ok.mp h
    obtain rfl := Except.ok.inj hinput
    dsimp only at h
    split_ifs at h with hempty
    · rw [← Except.ok.inj h, List.isEmpty_iff.mp hempty]
    · rw [hsorted] at h
      cases h
  · have houtput := isOutput_of_execute hsort hsorted h
    rw [← houtput.length_eq, outputPlaces_perm.length_eq, List.length_range,
      (sortInputRows_perm hsort hsorted).length_eq]

/-- If every list takes the same rows together as the first then every function has its own partitions. -/
theorem hasOwnPartitions_of_takesSameRows (hsort : ∀ α, IsStableSort (sort α))
    (hlists : (extractWindowFunctions windowFunctions).map (fun f => f.2.windowClause.partitionBy) = lists)
    (h : TakesSameRows ops lists input) : HasOwnPartitions sort overflowChecks ops windowFunctions input := by
  intro sortedRows result hsorted hresult
  refine (isOutput_of_execute hsort hsorted hresult).imp fun i output houtput => ?_
  obtain ⟨row, values, hrow, rfl, hvalues⟩ := houtput
  have hall := (List.forall₂_and_left _ _).mpr ⟨fun f hf => hf, hvalues⟩
  refine ⟨row, values, hrow, rfl, hall.imp fun f v ⟨hf, column, place, row', hcolumn, hplace, hv⟩ => ?_⟩
  have hpartition : partitionAt (partitionKey ops (ofPlan windowFunctions).partitionBy input.columnNames) sortedRows i =
      partitionAt (partitionKey ops f.2.windowClause.partitionBy input.columnNames) sortedRows i := by
    refine partitionAt_congr (fun a ha b hb => ?_) i
    have hfirst : (ofPlan windowFunctions).partitionBy ∈ lists.head? := by
      rw [← hlists, List.head?_map]
      show ((extractWindowFunctions windowFunctions).head?.map _).getD [] ∈ _
      rcases hhead : (extractWindowFunctions windowFunctions).head? with - | first
      · have hmem : f ∈ extractWindowFunctions windowFunctions := hf
        rw [List.head?_eq_none_iff.mp hhead] at hmem
        cases hmem
      · exact rfl
    have hperm := sortInputRows_perm hsort hsorted
    exact h _ hfirst _ (hlists ▸ List.mem_map_of_mem hf) a (hperm.mem_iff.mp ha) b (hperm.mem_iff.mp hb)
  refine ⟨column, place, row', ?_, ?_, hv⟩
  · rw [← hpartition]
    exact hcolumn
  · rw [← hpartition]
    exact hplace

/-! ## When they are not -/

/-- An operator without an ORDER BY returns, if its functions do. -/
theorem exists_execute_of_windowResults {op : WindowOperator S} (horderBy : op.orderBy = [])
    (h : ∀ f ∈ op.windowFunctions, ∀ rows, (∀ row ∈ rows, row ∈ input.rows) → ∃ column,
      windowResults sort overflowChecks ops input.columnNames f.2 rows = .ok column) :
    sortInputRows sort ops op input = .ok input.rows ∧
      ∃ result, op.execute sort overflowChecks ops (.ok input) = .ok result := by
  have hsorted : sortInputRows sort ops op input = .ok input.rows := by
    rw [sortInputRows, horderBy]
    rfl
  refine ⟨hsorted, ?_⟩
  by_cases hempty : input.rows.isEmpty
  · refine ⟨⟨[], input.columnNames ++ op.windowFunctions.map Prod.fst⟩, Result.bind_eq_ok.mpr ⟨input, rfl, ?_⟩⟩
    dsimp only
    rw [if_pos hempty]
    rfl
  · have hpartitions : ∀ f ∈ op.windowFunctions, ∀ rows ∈ partitionRows ops op input.rows input.columnNames,
        ∃ column, windowResults sort overflowChecks ops input.columnNames f.2 rows = .ok column := by
      intro f hf rows hrows
      rw [partitionRows_eq] at hrows
      obtain ⟨key, -, rfl⟩ := List.mem_map.mp hrows
      exact h f hf _ fun row hrow => List.mem_of_mem_filter hrow
    obtain ⟨rows, hrows⟩ := exists_applyWindowFunctions hpartitions
    refine ⟨⟨rows, input.columnNames ++ op.windowFunctions.map Prod.fst⟩, Result.bind_eq_ok.mpr ⟨input, rfl, ?_⟩⟩
    dsimp only
    rw [if_neg hempty]
    exact Result.bind_eq_ok.mpr ⟨_, hsorted, Result.bind_eq_ok.mpr ⟨rows, hrows, rfl⟩⟩

/-- A function that can be evaluated has the same value on its own partitions and on those of the first. -/
theorem exists_common_value (hsort : ∀ α, IsStableSort (sort α)) {name : String} {args : List (Expression S)}
    (hown : HasOwnPartitions sort overflowChecks ops (functionsOf name args lists) input)
    (hresults : ∀ partitionBy ∈ lists, ∀ rows, (∀ row ∈ rows, row ∈ input.rows) → ∃ column,
      windowResults sort overflowChecks ops input.columnNames ⟨name, args, ⟨partitionBy, [], none⟩⟩ rows = .ok column)
    {first partitionBy : List (Expression S)} (hfirst : first ∈ lists.head?) (hmem : partitionBy ∈ lists) {i : ℕ}
    (hi : i < input.rows.length) : ∃ v,
      IsValueOn sort overflowChecks ops input.columnNames ⟨name, args, ⟨partitionBy, [], none⟩⟩
        (partitionKey ops first input.columnNames) input.rows i v ∧
      IsValueOn sort overflowChecks ops input.columnNames ⟨name, args, ⟨partitionBy, [], none⟩⟩
        (partitionKey ops partitionBy input.columnNames) input.rows i v := by
  have hplan := ofPlan_functionsOf name args hfirst
  have hextract := extractWindowFunctions_functionsOf name args lists
  have hfunctions : ∀ f ∈ (ofPlan (functionsOf name args lists)).windowFunctions, ∀ rows,
      (∀ row ∈ rows, row ∈ input.rows) → ∃ column,
        windowResults sort overflowChecks ops input.columnNames f.2 rows = .ok column := by
    rw [hplan]
    intro f hf
    obtain ⟨partitionBy, hpartitionBy, rfl⟩ := List.mem_map.mp hf
    exact hresults partitionBy hpartitionBy
  obtain ⟨hsorted, result, hresult⟩ := exists_execute_of_windowResults (by rw [hplan]) hfunctions
  have hplace : i ∈ outputPlaces ops (ofPlan (functionsOf name args lists)) input.rows input.columnNames :=
    outputPlaces_perm.mem_iff.mpr (List.mem_range.mpr hi)
  obtain ⟨output, ⟨row, values, hrow, heq, hvalues⟩, row', values', hrow', heq', hvalues'⟩ :=
    exists_of_forall₂ (isOutput_of_execute hsort hsorted hresult) (hown _ result hsorted hresult) hplace
  obtain rfl := Option.some.inj (hrow.symm.trans hrow')
  obtain rfl := List.append_cancel_left (heq.symm.trans heq')
  rw [hplan] at hvalues
  rw [hextract] at hvalues'
  exact exists_of_forall₂ hvalues hvalues' (List.mem_map_of_mem hmem)

/-! ## Values that tell partitions apart -/

variable {columnNames : List String} {windowFunc : WindowFunction (Expression S)} {key : Row → String}
  {rows : List Row} {i : ℕ} {v : Value}

/-- ROW_NUMBER without an ORDER BY is the place in the partition. -/
theorem rowNumber_value (hsort : ∀ α, IsStableSort (sort α)) (hname : ops.toUppercase windowFunc.name = "ROW_NUMBER")
    (horderBy : windowFunc.windowClause.orderBy = [])
    (h : IsValueOn sort overflowChecks ops columnNames windowFunc key rows i v) :
    ∃ (place : ℕ) (row : Row), (partitionAt key rows i)[place]? = some (row, i) ∧ v = .integer (place + 1) := by
  obtain ⟨column, place, row, hcolumn, hplace, hv⟩ := h
  obtain ⟨sorted, hsorted, hvalues⟩ := windowResults_spec hsort hcolumn
  obtain rfl := sorted_of_sortPartition horderBy hsorted
  have hk : ((partitionAt key rows i).map Prod.fst).zipIdx[place]? = some (row, place) := by
    rw [List.getElem?_zipIdx, List.getElem?_map, hplace, Nat.zero_add]
    rfl
  have hstart : initializeWindowFunction ops windowFunc = .rowNumber 0 := by
    rw [initializeWindowFunction, hname]
    rfl
  obtain ⟨w, hw, hright⟩ := hvalues (fun k state => state = .rowNumber k) (fun k v => v = .integer (k + 1)) hstart (by
    rintro k p state v state' - rfl h
    unfold evaluateWindowFunctionWithOrder at h
    rw [hname] at h
    obtain ⟨rfl, rfl⟩ := Prod.mk.inj (Except.ok.inj h)
    exact ⟨rfl, rfl⟩) place row place hk
  obtain rfl := Option.some.inj (hv.symm.trans hw)
  exact ⟨place, row, hplace, hright⟩

/-- LAG without an ORDER BY is the value on an earlier row of the partition. -/
theorem lag_value (hsort : ∀ α, IsStableSort (sort α)) (hname : ops.toUppercase windowFunc.name = "LAG")
    (horderBy : windowFunc.windowClause.orderBy = []) {e : Expression S} {n : ℕ} (hargs : HasOffset windowFunc.args e n)
    (h : IsValueOn sort overflowChecks ops columnNames windowFunc key rows i v) :
    ∃ (place : ℕ) (row : Row), (partitionAt key rows i)[place]? = some (row, i) ∧
      ∀ m q, place = m + n → (partitionAt key rows i)[m]? = some q →
        evaluate ops (sortingContext columnNames q.1) e = .ok v := by
  obtain ⟨column, place, row, hcolumn, hplace, hv⟩ := h
  have hkind : ops.toUppercase windowFunc.name = OffsetFunction.lag.text := hname
  obtain ⟨sorted, hsorted, -, -, hvalues⟩ := isShifted_of_windowResults hsort hkind hargs hcolumn
  obtain rfl := sorted_of_sortPartition horderBy hsorted
  have hzip {k : ℕ} {p : Row × ℕ} (hk : (partitionAt key rows i)[k]? = some p) :
      ((partitionAt key rows i).map Prod.fst).zipIdx[k]? = some (p.1, k) := by
    rw [List.getElem?_zipIdx, List.getElem?_map, hk, Nat.zero_add]
    rfl
  obtain ⟨w, hw, hright⟩ := hvalues place row place (hzip hplace)
  obtain rfl := Option.some.inj (hv.symm.trans hw)
  refine ⟨place, row, hplace, fun m q hm hq => ?_⟩
  have hearlier : OffsetFunction.lag.place n place = some m := by
    rw [hm]
    exact (if_pos (Nat.le_add_left n m)).trans (congrArg some (Nat.add_sub_cancel m n))
  rw [hearlier, IsValueAt, Option.bind_some, hzip hq] at hright
  exact hright

/-- Rows that one key takes together have the same other key, if ROW_NUMBER and LAG have the same values on both. -/
theorem sameKey_of_values (hsort : ∀ α, IsStableSort (sort α))
    (hupper : ∀ name ∈ ["ROW_NUMBER", "LAG"], ops.toUppercase name = name) (hlength : rows.length < 2 ^ 63)
    {partitionBy clause : List (Expression S)}
    (hnumber : ∀ i < rows.length, ∃ v,
      IsValueOn sort overflowChecks ops columnNames ⟨"ROW_NUMBER", [], ⟨clause, [], none⟩⟩ key rows i v ∧
      IsValueOn sort overflowChecks ops columnNames ⟨"ROW_NUMBER", [], ⟨clause, [], none⟩⟩
        (partitionKey ops partitionBy columnNames) rows i v)
    (hlag : ∀ e ∈ partitionBy, ∀ n : ℕ, 0 < n → n < 2 ^ 63 → ∀ i < rows.length, ∃ v,
      IsValueOn sort overflowChecks ops columnNames
        ⟨"LAG", [e, .value (.integer n)], ⟨clause, [], none⟩⟩ key rows i v ∧
      IsValueOn sort overflowChecks ops columnNames ⟨"LAG", [e, .value (.integer n)], ⟨clause, [], none⟩⟩
        (partitionKey ops partitionBy columnNames) rows i v)
    {j : ℕ} {a b : Row} (hij : i < j) (ha : rows[i]? = some a) (hb : rows[j]? = some b) (hkey : key a = key b) :
    partitionKey ops partitionBy columnNames a = partitionKey ops partitionBy columnNames b := by
  have hj : j < rows.length := (List.getElem?_eq_some_iff.mp hb).1
  -- the place of the later row is the same in both partitions
  obtain ⟨v, hv, hv'⟩ := hnumber j hj
  obtain ⟨place, row, hplace, rfl⟩ := rowNumber_value hsort (hupper _ (by simp)) rfl hv
  obtain ⟨place', row', hplace', heq⟩ := rowNumber_value hsort (hupper _ (by simp)) rfl hv'
  obtain rfl : place = place' := by
    have hcast := Value.integer.inj heq
    omega
  -- the earlier row is at an earlier place of the first
  obtain ⟨p, hp⟩ := List.mem_iff_getElem?.mp
    (mem_partitionAt.mpr ⟨ha, by rw [hb, Option.map_some, hkey]⟩ : (a, i) ∈ partitionAt key rows j)
  have hlt : p < place := place_lt hp hplace hij
  have hshort : place < rows.length := by
    have hle := List.length_filter_le (fun p : Row × ℕ => some (key p.1) = rows[j]?.map key) rows.zipIdx
    rw [List.length_zipIdx] at hle
    exact (List.getElem?_eq_some_iff.mp hplace).1.trans_le hle
  -- and another row is there in the second, with the key of the later row
  obtain ⟨q, hq⟩ : ∃ q, (partitionAt (partitionKey ops partitionBy columnNames) rows j)[p]? = some q :=
    ⟨_, List.getElem?_eq_getElem (hlt.trans (List.getElem?_eq_some_iff.mp hplace').1)⟩
  have hqkey : partitionKey ops partitionBy columnNames q.1 = partitionKey ops partitionBy columnNames b := by
    have hmem := (mem_partitionAt.mp (List.mem_of_getElem? hq)).2
    rw [hb] at hmem
    exact Option.some.inj hmem
  rw [← hqkey, partitionKey, partitionKey]
  refine congrArg "|".intercalate (List.map_congr_left fun e he => ?_)
  obtain ⟨w, hw, hw'⟩ := hlag e he (place - p) (by omega) (by omega) j hj
  have hargs : HasOffset [e, .value (.integer (place - p : ℕ))] e (place - p) := .inr ⟨rfl, by omega, by omega⟩
  obtain ⟨place₁, row₁, hplace₁, hvalue⟩ := lag_value hsort (hupper _ (by simp)) rfl hargs hw
  obtain ⟨place₂, row₂, hplace₂, hvalue'⟩ := lag_value hsort (hupper _ (by simp)) rfl hargs hw'
  have ha' := hvalue p (a, i) (by rw [place_unique hplace₁ hplace]; omega) hp
  have hq' := hvalue' p q (by rw [place_unique hplace₂ hplace']; omega) hq
  rw [ha', hq']

/-- What the argument of a function has to be so that ROW_NUMBER and LAG tell partitions apart -/
def HasKeyValues (ops : Operations S) (lists : List (List (Expression S))) (input : QueryResult) : Prop :=
  ∀ partitionBy ∈ lists, ∀ e ∈ partitionBy, ∀ row ∈ input.rows,
    ∃ v, evaluate ops (sortingContext input.columnNames row) e = .ok v

/-- ROW_NUMBER and LAG have their own partitions only if every list takes the same rows together as the first. -/
theorem takesSameRows_of_hasOwnPartitions (hsort : ∀ α, IsStableSort (sort α))
    (hupper : ∀ name ∈ ["ROW_NUMBER", "LAG"], ops.toUppercase name = name) (hlength : input.rows.length < 2 ^ 63)
    (hvalues : HasKeyValues ops lists input)
    (hown : ∀ name args, HasOwnPartitions sort overflowChecks ops (functionsOf name args lists) input) :
    TakesSameRows ops lists input := by
  intro first hfirst partitionBy hpartitionBy a ha b hb
  have hnumber : ∀ i < input.rows.length, _ := fun i hi =>
    exists_common_value (i := i) hsort (hown "ROW_NUMBER" []) (fun partitionBy _ rows _ =>
      exists_windowResults_ranking .rowNumber hsort (hupper _ (by simp)) fun _ _ _ hitem => nomatch hitem)
      hfirst hpartitionBy hi
  have hlag : ∀ keys ∈ lists, ∀ e ∈ keys, ∀ n : ℕ, 0 < n → n < 2 ^ 63 → ∀ i < input.rows.length, _ :=
    fun keys hkeys e he n hpos hlt i hi =>
      exists_common_value (i := i) hsort (hown "LAG" [e, .value (.integer n)]) (fun partitionBy _ rows hrows =>
        exists_windowResults_offset .lag hsort (hupper _ (by simp)) (.inr ⟨rfl, hpos, hlt⟩)
          ⟨fun _ _ _ _ => rfl, fun _ _ _ _ _ _ _ h => h⟩
          fun row hrow => hvalues keys hkeys e he row (hrows row hrow)) hfirst hpartitionBy hi
  have hforward {i j : ℕ} {a b : Row} (hij : i < j) (ha : input.rows[i]? = some a) (hb : input.rows[j]? = some b) :
      partitionKey ops first input.columnNames a = partitionKey ops first input.columnNames b ↔
        partitionKey ops partitionBy input.columnNames a = partitionKey ops partitionBy input.columnNames b :=
    ⟨sameKey_of_values hsort hupper hlength hnumber (hlag partitionBy hpartitionBy) hij ha hb,
      sameKey_of_values hsort hupper hlength (fun i hi => (hnumber i hi).imp fun _ h => h.symm)
        (fun e he n hpos hlt i hi => (hlag first (List.mem_of_mem_head? hfirst) e he n hpos hlt i hi).imp fun _ h => h.symm)
        hij ha hb⟩
  obtain ⟨i, hi⟩ := List.mem_iff_getElem?.mp ha
  obtain ⟨j, hj⟩ := List.mem_iff_getElem?.mp hb
  rcases Nat.lt_trichotomy i j with hij | rfl | hij
  · exact hforward hij hi hj
  · obtain rfl := Option.some.inj (hi.symm.trans hj)
    exact iff_of_true rfl rfl
  · exact eq_comm.trans ((hforward hij hj hi).trans eq_comm)

end Own

/-- All functions have the values of their own partitions if every PARTITION BY list takes the same rows
together as the first, and only then, if the functions with these lists may be any. -/
theorem own_partitions_iff [DebugText] [FloatArithmetic] {sort : SortBy} (hsort : ∀ α, IsStableSort (sort α))
    (overflowChecks : Bool) (ops : Operations S) (lists : List (List (Expression S))) (input : QueryResult) :
    (TakesSameRows ops lists input → ∀ windowFunctions : List (String × Expression S),
      (extractWindowFunctions windowFunctions).map (fun f => f.2.windowClause.partitionBy) = lists →
      HasOwnPartitions sort overflowChecks ops windowFunctions input) ∧
    ((∀ name ∈ ["ROW_NUMBER", "LAG"], ops.toUppercase name = name) → input.rows.length < 2 ^ 63 →
      HasKeyValues ops lists input →
      (∀ windowFunctions : List (String × Expression S),
        (extractWindowFunctions windowFunctions).map (fun f => f.2.windowClause.partitionBy) = lists →
        HasOwnPartitions sort overflowChecks ops windowFunctions input) →
      TakesSameRows ops lists input) := by
  refine ⟨fun h windowFunctions hlists => hasOwnPartitions_of_takesSameRows hsort hlists h,
    fun hupper hlength hvalues h => ?_⟩
  have hown : ∀ name args, HasOwnPartitions sort overflowChecks ops (functionsOf name args lists) input := by
    refine fun name args => h _ ?_
    rw [extractWindowFunctions_functionsOf, List.map_map]
    exact List.map_id _
  exact takesSameRows_of_hasOwnPartitions hsort hupper hlength hvalues hown

/-- Two rows with the same `a` and different `b` -/
def twoRows : QueryResult := ⟨[[.integer 1, .integer 1], [.integer 1, .integer 2]], ["a", "b"]⟩

/-- The texts of the two values in `twoRows` -/
def oneOrTwo : Value → String
  | .integer 1 => "1"
  | _ => "2"

/-- A function with `PARTITION BY b` behind one with `PARTITION BY a` has the partitions of the other. -/
theorem partitions_of_first : ¬ ∀ (_ : DebugText) (_ : FloatArithmetic) (sort : SortBy), (∀ α, IsStableSort (sort α)) →
    ∀ (S : Type) (overflowChecks : Bool) (ops : Operations S) (windowFunctions : List (String × Expression S))
      (input : QueryResult), HasOwnPartitions sort overflowChecks ops windowFunctions input := by
  intro h
  let texts : DebugText := ⟨fun _ => "", oneOrTwo, fun _ => ""⟩
  let arithmetic : FloatArithmetic := ⟨fun x _ => x, fun x _ => x, fun _ => 0, fun _ => false, fun _ => 0⟩
  have hsort : ∀ α, IsStableSort (α := α) (strictSort (Failure.panic "not a total order")) :=
    fun _ => isStableSort_strictSort _
  have hvalues : HasKeyValues noOperations [[.column none "a"], [.column none "b"]] twoRows := by
    intro partitionBy hpartitionBy e he row hrow
    have hrows : row = [.integer 1, .integer 1] ∨ row = [.integer 1, .integer 2] := by simpa [twoRows] using hrow
    have hcolumns : e = .column none "a" ∨ e = .column none "b" := by
      rcases List.mem_cons.mp hpartitionBy with rfl | hpartitionBy
      · exact .inl (List.mem_singleton.mp he)
      · obtain rfl := List.mem_singleton.mp hpartitionBy
        exact .inr (List.mem_singleton.mp he)
    obtain rfl | rfl := hrows <;> obtain rfl | rfl := hcolumns <;> exact ⟨_, rfl⟩
  have hsame := takesSameRows_of_hasOwnPartitions hsort (by decide) (by decide) hvalues
    fun name args => h texts arithmetic _ hsort Unit false noOperations _ twoRows
  have hkeys := (hsame _ rfl [.column none "b"] (by simp) _ (List.mem_cons_self) _ (List.mem_cons_of_mem _ List.mem_cons_self)).mp rfl
  revert hkeys
  decide

theorem hasOwnPartitions_single : letI : DebugText := ⟨fun _ => "", fun _ => "", fun _ => ""⟩
    letI : FloatArithmetic := ⟨fun x _ => x, fun x _ => x, fun _ => 0, fun _ => false, fun _ => 0⟩
    HasOwnPartitions (fun _ => strictSort (.panic "not a total order")) false noOperations
      [("n", .windowFunction ⟨"ROW_NUMBER", [], ⟨[.column none "a"], [], none⟩⟩)] twoRows := by
  let texts : DebugText := ⟨fun _ => "", fun _ => "", fun _ => ""⟩
  let arithmetic : FloatArithmetic := ⟨fun x _ => x, fun x _ => x, fun _ => 0, fun _ => false, fun _ => 0⟩
  refine (own_partitions_iff (fun _ => isStableSort_strictSort _) false noOperations [[.column none "a"]] twoRows).1 ?_
    _ rfl
  intro first hfirst partitionBy hpartitionBy a _ b _
  obtain rfl := Option.some.inj hfirst
  obtain rfl := List.mem_singleton.mp hpartitionBy
  exact Iff.rfl

end WindowOperator

end Rustgresql
