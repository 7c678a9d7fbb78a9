import Rustgresql.Catalog.Table
import Rustgresql.Usize

/-!
# Parallel scanner (`executor/parallel/scanner.rs`)

A table is cut into partitions, which are scanned one by one. `scanAll_perm_iff`: every row is scanned
exactly once if ranges of rows are cut and there are enough of them, and for the other strategies only
for tables or configurations of one.
-/

namespace Rustgresql

/-- A vector of rows, which takes at most `isize::MAX` bytes. -/
structure RowVec where
  rows : List Row
  length_lt : rows.length < 2 ^ 63

/-- Row data with its row identifier -/
structure RowData where
  values : Row
  rowId : ℕ

/-- Scan all rows of the table. -/
def RowVec.scanAll (table : RowVec) : List RowData := table.rows.zipIdx.map fun p => ⟨p.1, p.2⟩

namespace ParallelScanner

/-- Strategy for partitioning table data -/
inductive PartitionStrategy
  | range | hash | roundRobin | adaptive
  deriving DecidableEq

/-- Configuration for parallel scanning -/
structure Config where
  workerCount : UInt64
  partitionStrategy : PartitionStrategy
  partitionSize : UInt64
  maxPartitions : UInt64
  adaptivePartitioning : Bool

/-- Boundary definition for a partition -/
inductive PartitionBoundary
  | rowIndex (i : ℕ)
  | hash (h : ℕ)
  deriving DecidableEq

/-- Represents a partition of table data -/
structure TablePartition where
  partitionId : ℕ
  start : PartitionBoundary
  stop : PartitionBoundary
  estimatedRows : ℕ
  deriving DecidableEq

section Partitions

variable (overflowChecks : Bool)

/-- Estimate optimal partition size based on table characteristics -/
def estimateOptimalPartitionSize (own : Config) (tableSize : ℕ) : Result ℕ :=
  let baseSize := own.partitionSize.toNat
  if own.adaptivePartitioning = false then .ok baseSize
  else do
    let workers := own.workerCount.toNat
    let minSizePerWorker ← Usize.div tableSize workers
    let targetPartitions ← Usize.mul overflowChecks workers 2
    let perTarget ← Usize.div tableSize targetPartitions
    let fourfold ← Usize.mul overflowChecks baseSize 4
    let adaptiveSize := min (max perTarget (baseSize / 4)) fourfold
    -- Minimum 100 rows per partition
    return max adaptiveSize (max minSizePerWorker 100)

/-- Cut ranges of rows, while there are rows and partitions left. -/
def rangePartitions (partitionSize totalRows : ℕ) : ℕ → ℕ → ℕ → Result (List TablePartition)
  | 0, _, _ => .ok []
  | left + 1, startRow, partitionId =>
    if startRow < totalRows then do
      let stop ← Usize.add overflowChecks startRow partitionSize
      let endRow := min stop totalRows
      let estimatedRows ← Usize.sub overflowChecks endRow startRow
      let more ← rangePartitions partitionSize totalRows left endRow (partitionId + 1)
      return ⟨partitionId, .rowIndex startRow, .rowIndex endRow, estimatedRows⟩ :: more
    else .ok []

def hashPartitions (workerCount totalRows : ℕ) : Result (List TablePartition) := do
  let estimatedPerPartition ← Usize.div totalRows workerCount
  return (List.range workerCount).map fun i => ⟨i, .hash i, .hash (i + 1), estimatedPerPartition⟩

def roundRobinPartitions (workerCount totalRows : ℕ) : Result (List TablePartition) := do
  let partitions ← Usize.mul overflowChecks workerCount 2
  let estimatedPerPartition ← Usize.div totalRows partitions
  return (List.range partitions).map fun i =>
    ⟨i, .rowIndex i, .rowIndex totalRows, estimatedPerPartition⟩

/-- Partitions for a configuration, by a scanner with a configuration of its own that estimates the table
at that many rows. -/
def createPartitions (own config : Config) (totalRows : ℕ) : Result (List TablePartition) := do
  let partitionSize ← estimateOptimalPartitionSize overflowChecks own totalRows
  let ranges := rangePartitions overflowChecks partitionSize totalRows config.maxPartitions.toNat 0 0
  match config.partitionStrategy with
  | .range => ranges
  | .hash => hashPartitions config.workerCount.toNat totalRows
  | .roundRobin => roundRobinPartitions overflowChecks config.workerCount.toNat totalRows
  | .adaptive =>
    -- small tables are cut into ranges
    if totalRows < 10000 then ranges else hashPartitions config.workerCount.toNat totalRows

/-- The estimate is made by the table's name. -/
def estimateTotalRows (tableName : String) : ℕ :=
  if tableName = "users" then 1000
  else if tableName = "orders" then 5000
  else if tableName = "products" then 500
  else 10000

/-- Scan a single partition. Without row boundaries a row is taken before the number of rows is looked
at. -/
def scanPartition (rows : List RowData) (partition : TablePartition) : Result (List RowData) :=
  match partition.start, partition.stop with
  | .rowIndex start, .rowIndex stop => do
    let count ← Usize.sub overflowChecks stop start
    return (rows.drop start).take count
  | _, _ => .ok (rows.take (max partition.estimatedRows 1))

/-- Scan partitions one after the other. -/
def scanPartitions (rows : List RowData) (partitions : List TablePartition) : Result (List RowData) := do
  let results ← partitions.mapM (scanPartition overflowChecks rows)
  return results.flatten

/-- Scan all partitions of a table. -/
def scanAll (own config : Config) (table : RowVec) : Result (List RowData) := do
  let partitions ← createPartitions overflowChecks own config table.rows.length
  scanPartitions overflowChecks table.scanAll partitions

end Partitions

/-! ## Scans -/

section Scans

variable {overflowChecks : Bool} {rows : List RowData} {p : TablePartition} {ps : List TablePartition}

theorem scanPartitions_cons_eq_ok {out : List RowData} :
    scanPartitions overflowChecks rows (p :: ps) = .ok out ↔
      ∃ a b, scanPartition overflowChecks rows p = .ok a ∧
        scanPartitions overflowChecks rows ps = .ok b ∧ out = a ++ b := by
  unfold scanPartitions
  rw [List.mapM_cons]
  rcases scanPartition overflowChecks rows p with e | a
  · simp [bind, Except.bind]
  rcases ps.mapM (scanPartition overflowChecks rows) with e | results
  · simp [bind, Except.bind]
  · simp [bind, Except.bind, pure, Except.pure, eq_comm]

theorem scanPartition_rowIndex {start stop : ℕ} (h : start ≤ stop) (hstop : stop < Usize.size)
    (partitionId estimatedRows : ℕ) :
    scanPartition overflowChecks rows ⟨partitionId, .rowIndex start, .rowIndex stop, estimatedRows⟩ =
      .ok ((rows.drop start).take (stop - start)) := by
  change (Usize.sub overflowChecks stop start >>= fun count => pure ((rows.drop start).take count)) = _
  rw [Usize.sub_of h hstop]
  rfl

/-- Every row of a table has a number of its own. -/
theorem RowVec.nodup_scanAll (table : RowVec) : table.scanAll.Nodup := by
  apply List.Nodup.of_map RowData.rowId
  have hids : table.scanAll.map RowData.rowId = List.range table.rows.length := by
    unfold RowVec.scanAll
    rw [List.map_map, List.range_eq_range', ← List.zipIdx_map_snd]
    rfl
  rw [hids]
  exact List.nodup_range

/-- Rows that are scanned twice are not scanned exactly once. -/
theorem not_perm_of_common {table : RowVec} {out a b : List RowData} {row : RowData} (hout : out = a ++ b)
    (ha : row ∈ a) (hb : row ∈ b) : ¬ out.Perm table.scanAll := by
  intro h
  have hnodup := h.nodup_iff.mpr (RowVec.nodup_scanAll table)
  rw [hout, List.nodup_append] at hnodup
  exact hnodup.2.2 row ha row hb rfl

/-- A range and what lies behind it. -/
theorem take_range {partitionSize left startRow : ℕ} :
    (rows.drop startRow).take ((left + 1) * partitionSize) =
      (rows.drop startRow).take (min (startRow + partitionSize) rows.length - startRow) ++
        (rows.drop (min (startRow + partitionSize) rows.length)).take (left * partitionSize) := by
  have hmul : (left + 1) * partitionSize = partitionSize + left * partitionSize := by
    rw [Nat.add_mul, Nat.one_mul, Nat.add_comm]
  rw [hmul]
  rcases le_or_gt (startRow + partitionSize) rows.length with h | h
  · rw [min_eq_left h, Nat.add_sub_cancel_left, List.take_add, List.drop_drop]
  · rw [min_eq_right h.le, List.drop_length, List.take_nil, List.append_nil,
      List.take_of_length_le (by rw [List.length_drop]; omega),
      List.take_of_length_le (by rw [List.length_drop])]

/-- Ranges cover as many rows as fit into them. -/
theorem scan_rangePartitions (overflowChecks : Bool) {partitionSize : ℕ} (hsize : partitionSize < Usize.size)
    (hrows : rows.length < 2 ^ 63) (left partitionId startRow : ℕ)
    (hstart : startRow < rows.length → startRow = 0 ∨ partitionSize ≤ startRow) :
    ∃ ps, rangePartitions overflowChecks partitionSize rows.length left startRow partitionId = .ok ps ∧
      scanPartitions overflowChecks rows ps = .ok ((rows.drop startRow).take (left * partitionSize)) := by
  induction left generalizing startRow partitionId with
  | zero => exact ⟨[], rfl, by rw [Nat.zero_mul, List.take_zero]; rfl⟩
  | succ left ih =>
    by_cases hlt : startRow < rows.length
    swap
    · refine ⟨[], by rw [rangePartitions, if_neg hlt], ?_⟩
      rw [List.drop_eq_nil_of_le (Nat.le_of_not_lt hlt), List.take_nil]
      rfl
    have hstop : startRow + partitionSize < Usize.size := by
      unfold Usize.size at hsize ⊢
      rcases hstart hlt with h | h <;> omega
    let endRow := min (startRow + partitionSize) rows.length
    have hle : startRow ≤ endRow := by omega
    have hend : endRow < Usize.size := by omega
    obtain ⟨more, hmore, hscan⟩ := ih (partitionId + 1) endRow (by omega)
    refine ⟨⟨partitionId, .rowIndex startRow, .rowIndex endRow, endRow - startRow⟩ :: more, ?_, ?_⟩
    · rw [rangePartitions, if_pos hlt, Usize.add_of hstop]
      simp only [bind, Except.bind]
      rw [Usize.sub_of hle hend]
      simp only [endRow] at hmore
      rw [hmore]
      rfl
    · exact scanPartitions_cons_eq_ok.mpr
        ⟨_, _, scanPartition_rowIndex hle hend _ _, hscan, take_range⟩

/-- The scan of these partitions yields every row exactly once. -/
def ScansOnce (overflowChecks : Bool) (table : RowVec) (partitions : Result (List TablePartition)) : Prop :=
  ∃ ps out, partitions = .ok ps ∧ scanPartitions overflowChecks table.scanAll ps = .ok out ∧
    out.Perm table.scanAll

variable {table : RowVec}

theorem RowVec.length_scanAll (table : RowVec) : table.scanAll.length = table.rows.length := by
  unfold RowVec.scanAll
  rw [List.length_map, List.length_zipIdx]

theorem scansOnce_range_iff {partitionSize : ℕ} (hsize : partitionSize < Usize.size) (maxPartitions : ℕ) :
    ScansOnce overflowChecks table
        (rangePartitions overflowChecks partitionSize table.rows.length maxPartitions 0 0) ↔
      table.rows.length ≤ maxPartitions * partitionSize := by
  have hrows : table.scanAll.length < 2 ^ 63 := by
    rw [RowVec.length_scanAll]
    exact table.length_lt
  obtain ⟨ps, hps, hscan⟩ := scan_rangePartitions overflowChecks hsize hrows maxPartitions
    0 0 fun _ => .inl rfl
  rw [RowVec.length_scanAll] at hps
  rw [List.drop_zero] at hscan
  constructor
  · rintro ⟨ps', out, hps', hout, hperm⟩
    cases hps.symm.trans hps'
    cases hscan.symm.trans hout
    have hlength := hperm.length_eq
    rw [List.length_take, RowVec.length_scanAll] at hlength
    omega
  · intro hle
    refine ⟨ps, _, hps, hscan, ?_⟩
    rw [List.take_of_length_le (by rwa [RowVec.length_scanAll])]

/-- Scans that all succeed. -/
theorem exists_of_scanPartitions {out : List RowData}
    (h : scanPartitions overflowChecks rows ps = .ok out) :
    ∀ p ∈ ps, ∃ part, scanPartition overflowChecks rows p = .ok part := by
  induction ps generalizing out with
  | nil => exact fun p hp => absurd hp List.not_mem_nil
  | cons p ps ih =>
    obtain ⟨a, b, ha, hb, -⟩ := scanPartitions_cons_eq_ok.mp h
    exact List.forall_mem_cons.mpr ⟨⟨a, ha⟩, ih hb⟩

theorem scanPartitions_empty (h : ∀ p ∈ ps, scanPartition overflowChecks rows p = .ok []) :
    scanPartitions overflowChecks rows ps = .ok [] := by
  induction ps with
  | nil => rfl
  | cons p ps ih =>
    obtain ⟨hp, hps⟩ := List.forall_mem_cons.mp h
    exact scanPartitions_cons_eq_ok.mpr ⟨[], [], hp, ih hps, rfl⟩

/-- The first two partitions must have no row in common. -/
theorem not_scansOnce_of_common {p q : TablePartition} {a b : List RowData} {row : RowData}
    (hp : scanPartition overflowChecks table.scanAll p = .ok a)
    (hq : scanPartition overflowChecks table.scanAll q = .ok b) (ha : row ∈ a) (hb : row ∈ b) :
    ¬ ScansOnce overflowChecks table (.ok (p :: q :: ps)) := by
  rintro ⟨ps', out, ⟨⟩, hout, hperm⟩
  obtain ⟨a', rest, ha', hrest, rfl⟩ := scanPartitions_cons_eq_ok.mp hout
  cases hp.symm.trans ha'
  obtain ⟨b', rest', hb', -, rfl⟩ := scanPartitions_cons_eq_ok.mp hrest
  cases hq.symm.trans hb'
  exact not_perm_of_common rfl ha (List.mem_append_left _ hb) hperm

/-- No partition may panic. -/
theorem not_scansOnce_of_error {e : Failure} (hp : p ∈ ps)
    (h : scanPartition overflowChecks table.scanAll p = .error e) :
    ¬ ScansOnce overflowChecks table (.ok ps) := by
  rintro ⟨ps', out, ⟨⟩, hout, -⟩
  obtain ⟨part, hpart⟩ := exists_of_scanPartitions hout p hp
  cases h.symm.trans hpart

theorem exists_range {n : ℕ} (h : 2 ≤ n) : ∃ l, List.range n = 0 :: 1 :: l := by
  obtain ⟨k, rfl⟩ := Nat.exists_eq_add_of_le' h
  exact ⟨_, by rw [List.range_succ_eq_map, List.range_succ_eq_map]; rfl⟩

theorem scansOnce_hash_iff {workerCount : ℕ} (hworkers : 0 < workerCount) :
    ScansOnce overflowChecks table (hashPartitions workerCount table.rows.length) ↔
      table.rows.length = 0 ∨ workerCount = 1 := by
  have hpartitions : hashPartitions workerCount table.rows.length = .ok ((List.range workerCount).map
      fun i => ⟨i, .hash i, .hash (i + 1), table.rows.length / workerCount⟩) := by
    unfold hashPartitions
    rw [Usize.div_of hworkers.ne']
    rfl
  have hscan (i estimatedRows : ℕ) : scanPartition overflowChecks table.scanAll
      ⟨i, .hash i, .hash (i + 1), estimatedRows⟩ =
      .ok (table.scanAll.take (max estimatedRows 1)) := rfl
  rw [hpartitions]
  rcases hrows : table.scanAll with - | ⟨row, rest⟩
  · have hlength : table.rows.length = 0 := by rw [← RowVec.length_scanAll, hrows, List.length_nil]
    refine iff_of_true ⟨_, [], rfl, ?_, by rw [hrows]⟩ (.inl hlength)
    apply scanPartitions_empty
    intro p hp
    obtain ⟨i, -, rfl⟩ := List.mem_map.mp hp
    rw [hscan, hrows, List.take_nil]
  have hlength : table.rows.length = rest.length + 1 := by
    rw [← RowVec.length_scanAll, hrows, List.length_cons]
  rcases Nat.lt_or_ge workerCount 2 with hlt | hge
  · obtain rfl : workerCount = 1 := by omega
    refine iff_of_true ⟨_, table.scanAll, rfl, ?_, List.Perm.refl _⟩ (.inr rfl)
    refine scanPartitions_cons_eq_ok.mpr ⟨table.scanAll, [], ?_, rfl, (List.append_nil _).symm⟩
    rw [hscan, List.take_of_length_le]
    rw [RowVec.length_scanAll, Nat.div_one]
    omega
  · refine iff_of_false ?_ (by omega)
    obtain ⟨l, hl⟩ := exists_range hge
    have hmem : row ∈ table.scanAll.take (max (table.rows.length / workerCount) 1) := by
      obtain ⟨k, hk⟩ : ∃ k, max (table.rows.length / workerCount) 1 = k + 1 :=
        Nat.exists_eq_add_of_le' (le_max_right _ _)
      rw [hk, hrows, List.take_succ_cons]
      exact List.mem_cons_self
    rw [hl, List.map_cons, List.map_cons]
    exact not_scansOnce_of_common (hscan 0 _) (hscan 1 _) hmem hmem

/-- Partition `i` of the round robin begins with row `i`. -/
def roundRobinPartition (totalRows estimatedRows i : ℕ) : TablePartition :=
  ⟨i, .rowIndex i, .rowIndex totalRows, estimatedRows⟩

theorem scan_roundRobinPartition {i c : ℕ} (h : Usize.sub overflowChecks rows.length i = .ok c)
    (estimatedRows : ℕ) :
    scanPartition overflowChecks rows (roundRobinPartition rows.length estimatedRows i) =
      .ok ((rows.drop i).take c) := by
  change (Usize.sub overflowChecks rows.length i >>= fun count => pure ((rows.drop i).take count)) = _
  rw [h]
  rfl

/-- One row at most, and no panic: the first partition has it, and the others are empty. -/
theorem scansOnce_roundRobin {k estimatedRows : ℕ} (hrows : table.rows.length ≤ 1)
    (hsub : ∀ i ≤ k, ∃ c, Usize.sub overflowChecks table.rows.length i = .ok c) :
    ScansOnce overflowChecks table
      (.ok ((List.range (k + 1)).map (roundRobinPartition table.rows.length estimatedRows))) := by
  have hlength := RowVec.length_scanAll table
  have hsize : table.rows.length < Usize.size := by
    unfold Usize.size
    omega
  rw [List.range_succ_eq_map, List.map_cons]
  refine ⟨_, table.scanAll, rfl, ?_, List.Perm.refl _⟩
  refine scanPartitions_cons_eq_ok.mpr ⟨table.scanAll, [], ?_, ?_, (List.append_nil _).symm⟩
  · rw [← hlength, scan_roundRobinPartition (Usize.sub_of (Nat.zero_le _) (by omega)), List.drop_zero,
      List.take_of_length_le (by omega)]
  · apply scanPartitions_empty
    intro p hp
    obtain ⟨i, hi, rfl⟩ := List.mem_map.mp hp
    obtain ⟨j, hj, rfl⟩ := List.mem_map.mp hi
    obtain ⟨c, hc⟩ := hsub (j + 1) (by rw [List.mem_range] at hj; omega)
    rw [← hlength] at hc ⊢
    rw [Nat.succ_eq_add_one, scan_roundRobinPartition hc, List.drop_eq_nil_of_le (by omega), List.take_nil]

/-- The second partition repeats what the first has behind its first row. -/
theorem not_scansOnce_roundRobin {k estimatedRows : ℕ} (hrows : 2 ≤ table.rows.length) :
    ¬ ScansOnce overflowChecks table
      (.ok ((List.range (k + 2)).map (roundRobinPartition table.rows.length estimatedRows))) := by
  have hlength := RowVec.length_scanAll table
  have hlt := table.length_lt
  have hsize : table.rows.length < Usize.size := by
    unfold Usize.size
    omega
  obtain ⟨l, hl⟩ := exists_range (Nat.le_add_left 2 k)
  have hget : 1 < table.scanAll.length := by omega
  have hscan (i : ℕ) (hi : i ≤ 1) : scanPartition overflowChecks table.scanAll
      (roundRobinPartition table.rows.length estimatedRows i) = .ok (table.scanAll.drop i) := by
    rw [← hlength, scan_roundRobinPartition (Usize.sub_of (by omega) (by omega)),
      List.take_of_length_le (by rw [List.length_drop])]
  rw [hl, List.map_cons, List.map_cons]
  have hfirst : table.scanAll[1] ∈ table.scanAll.drop 0 := List.getElem_mem hget
  have hsecond : table.scanAll[1] ∈ table.scanAll.drop 1 := by
    rw [List.drop_eq_getElem_cons hget]
    exact List.mem_cons_self
  exact not_scansOnce_of_common (hscan 0 (by omega)) (hscan 1 le_rfl) hfirst hsecond

theorem roundRobinPartitions_of {workerCount totalRows r : ℕ}
    (hmul : Usize.mul overflowChecks workerCount 2 = .ok r) (hr : r ≠ 0) :
    roundRobinPartitions overflowChecks workerCount totalRows =
      .ok ((List.range r).map (roundRobinPartition totalRows (totalRows / r))) := by
  unfold roundRobinPartitions
  rw [hmul]
  simp only [bind, Except.bind]
  rw [Usize.div_of hr]
  rfl

theorem not_scansOnce_error {e : Failure} : ¬ ScansOnce overflowChecks table (.error e) := by
  rintro ⟨ps, out, ⟨⟩, -⟩

/-- With overflow checks the partitions behind the last row panic. -/
theorem scansOnce_roundRobin_checked_iff {workerCount : ℕ} (hworkers : 0 < workerCount) :
    ScansOnce true table (roundRobinPartitions true workerCount table.rows.length) ↔
      table.rows.length = 1 ∧ workerCount = 1 := by
  rcases Nat.lt_or_ge (workerCount * 2) Usize.size with hlt | hge
  swap
  · have herror : roundRobinPartitions true workerCount table.rows.length =
        .error (.panic "attempt to multiply with overflow") := by
      unfold roundRobinPartitions
      rw [Usize.mul_checked_of_le hge]
      rfl
    rw [herror]
    unfold Usize.size at hge
    exact iff_of_false not_scansOnce_error (by omega)
  rw [roundRobinPartitions_of (Usize.mul_of hlt) (by omega)]
  obtain ⟨k, hk⟩ : ∃ k, workerCount * 2 = k + 2 := Nat.exists_eq_add_of_le' (by omega)
  rw [hk]
  rcases Nat.lt_or_ge table.rows.length 2 with hrows | hrows
  swap
  · exact iff_of_false (not_scansOnce_roundRobin hrows) (by omega)
  rcases Nat.lt_or_ge (table.rows.length + 1) (k + 2) with hbehind | hlast
  · refine iff_of_false ?_ (by omega)
    have hmem : roundRobinPartition table.rows.length (table.rows.length / (k + 2))
        (table.rows.length + 1) ∈ (List.range (k + 2)).map
          (roundRobinPartition table.rows.length (table.rows.length / (k + 2))) :=
      List.mem_map_of_mem (List.mem_range.mpr hbehind)
    apply not_scansOnce_of_error hmem
    change (Usize.sub true table.rows.length (table.rows.length + 1) >>= _) = _
    rw [Usize.sub_checked_of_lt (Nat.lt_succ_self _)]
    rfl
  · refine iff_of_true (scansOnce_roundRobin (by omega) fun i hi => ?_) (by omega)
    exact ⟨_, Usize.sub_of (by omega) (by unfold Usize.size; omega)⟩

/-- Without them these partitions are empty. -/
theorem scansOnce_roundRobin_unchecked_iff {workerCount : ℕ} (hworkers : 0 < workerCount)
    (hsize : workerCount < Usize.size) :
    ScansOnce false table (roundRobinPartitions false workerCount table.rows.length) ↔
      table.rows.length ≤ 1 ∧ workerCount ≠ 2 ^ 63 := by
  have hmul := Usize.mul_unchecked workerCount 2
  unfold Usize.size at hsize hmul
  by_cases hzero : workerCount * 2 % 2 ^ 64 = 0
  · rw [hzero] at hmul
    have herror : roundRobinPartitions false workerCount table.rows.length =
        .error (.panic "attempt to divide by zero") := by
      unfold roundRobinPartitions
      rw [hmul]
      rfl
    rw [herror]
    exact iff_of_false not_scansOnce_error (by omega)
  rw [roundRobinPartitions_of hmul hzero]
  obtain ⟨k, hk⟩ : ∃ k, workerCount * 2 % 2 ^ 64 = k + 2 := Nat.exists_eq_add_of_le' (by omega)
  rw [hk]
  rcases Nat.lt_or_ge table.rows.length 2 with hrows | hrows
  · refine iff_of_true (scansOnce_roundRobin (by omega) fun i _ => ?_) (by omega)
    exact Usize.exists_sub_unchecked _ _
  · exact iff_of_false (not_scansOnce_roundRobin hrows) (by omega)

/-! ## Configurations -/

/-- The worker count, partition size and maximum number of partitions are positive. -/
structure Config.Positive (config : Config) : Prop where
  workers : 0 < config.workerCount
  size : 0 < config.partitionSize
  partitions : 0 < config.maxPartitions

theorem toNat_pos {u : UInt64} (h : 0 < u) : 0 < u.toNat := UInt64.lt_iff_toNat_lt.mp h

/-- The partition size is a word. -/
theorem lt_of_estimate {own : Config} {tableSize partitionSize : ℕ} (htable : tableSize < Usize.size)
    (h : estimateOptimalPartitionSize overflowChecks own tableSize = .ok partitionSize) :
    partitionSize < Usize.size := by
  unfold estimateOptimalPartitionSize at h
  dsimp only at h
  split at h
  · obtain rfl : own.partitionSize.toNat = partitionSize := Except.ok.inj h
    exact own.partitionSize.toNat_lt
  obtain ⟨minSize, hmin, h⟩ := Result.bind_eq_ok.mp h
  obtain ⟨target, -, h⟩ := Result.bind_eq_ok.mp h
  obtain ⟨perTarget, -, h⟩ := Result.bind_eq_ok.mp h
  obtain ⟨fourfold, hfour, h⟩ := Result.bind_eq_ok.mp h
  have hsize : max (min (max perTarget (own.partitionSize.toNat / 4)) fourfold) (max minSize 100) =
      partitionSize := Except.ok.inj h
  -- the adaptive size is bounded by the product, the size for each worker by the table
  rw [← hsize]
  apply max_lt
  · exact min_lt_of_right_lt (Usize.lt_of_mul hfour)
  · exact max_lt (lt_of_le_of_lt (Usize.le_of_div hmin) htable) (by unfold Usize.size; norm_num)

/-- There are enough ranges, or all rows are in one partition. -/
def Covers (overflowChecks : Bool) (config : Config) (partitionSize totalRows : ℕ) : Prop :=
  let inRanges := totalRows ≤ config.maxPartitions.toNat * partitionSize
  match config.partitionStrategy with
  | .range => inRanges
  | .hash => totalRows = 0 ∨ config.workerCount.toNat = 1
  | .roundRobin =>
    if overflowChecks then totalRows = 1 ∧ config.workerCount.toNat = 1
    else totalRows ≤ 1 ∧ config.workerCount.toNat ≠ 2 ^ 63
  | .adaptive => if totalRows < 10000 then inRanges else config.workerCount.toNat = 1

/-- The partition size can be computed, and the partitions cover the table. -/
def CoversOnce (overflowChecks : Bool) (own config : Config) (totalRows : ℕ) : Prop :=
  ∃ partitionSize, estimateOptimalPartitionSize overflowChecks own totalRows = .ok partitionSize ∧
    Covers overflowChecks config partitionSize totalRows

/-- Every row of a table is scanned exactly once if and only if the partitions cover it once. -/
theorem scanAll_perm_iff (overflowChecks : Bool) (table : RowVec) (own : Config) {config : Config}
    (hconfig : config.Positive) :
    (∃ out, scanAll overflowChecks own config table = .ok out ∧ out.Perm table.scanAll) ↔
      CoversOnce overflowChecks own config table.rows.length := by
  have hworkers := toNat_pos hconfig.workers
  have hworkersSize : config.workerCount.toNat < Usize.size := by
    unfold Usize.size
    exact config.workerCount.toNat_lt
  unfold CoversOnce
  rcases hsize : estimateOptimalPartitionSize overflowChecks own table.rows.length with e | partitionSize
  · refine iff_of_false ?_ ?_
    · rintro ⟨out, hout, -⟩
      unfold scanAll createPartitions at hout
      rw [hsize] at hout
      cases hout
    · rintro ⟨partitionSize, ⟨⟩, -⟩
  have hcreate : (∃ out, scanAll overflowChecks own config table = .ok out ∧ out.Perm table.scanAll) ↔
      ScansOnce overflowChecks table
        (createPartitions overflowChecks own config table.rows.length) := by
    unfold scanAll ScansOnce
    rcases createPartitions overflowChecks own config table.rows.length with e | ps
    · simp [bind, Except.bind]
    · simp [bind, Except.bind]
  have hrange : ScansOnce overflowChecks table (rangePartitions overflowChecks partitionSize
      table.rows.length config.maxPartitions.toNat 0 0) ↔ _ :=
    scansOnce_range_iff (lt_of_estimate (lt_trans table.length_lt (by unfold Usize.size; norm_num)) hsize) _
  rw [hcreate]
  unfold createPartitions Covers
  rw [hsize]
  simp only [bind, Except.bind, Except.ok.injEq, exists_eq_left']
  rcases config.partitionStrategy
  · exact hrange
  · exact scansOnce_hash_iff hworkers
  · rcases overflowChecks
    · exact scansOnce_roundRobin_unchecked_iff hworkers hworkersSize
    · exact scansOnce_roundRobin_checked_iff hworkers
  · dsimp only
    split
    · exact hrange
    · rw [scansOnce_hash_iff hworkers]
      omega

/-- Two workers, at most eight partitions, each of a thousand rows. -/
def twoWorkers (strategy : PartitionStrategy) : Config where
  workerCount := 2
  partitionStrategy := strategy
  partitionSize := 1000
  maxPartitions := 8
  adaptivePartitioning := false

theorem positive_twoWorkers (strategy : PartitionStrategy) : (twoWorkers strategy).Positive :=
  ⟨(by decide : (0 : UInt64) < 2), (by decide : (0 : UInt64) < 1000), (by decide : (0 : UInt64) < 8)⟩

/-- A table of one row. -/
def oneRow : RowVec := ⟨[[.boolean true]], by norm_num⟩

theorem scanAll_oneRow_range : ∃ out,
    scanAll true (twoWorkers .range) (twoWorkers .range) oneRow = .ok out ∧ out.Perm oneRow.scanAll := by
  apply (scanAll_perm_iff true oneRow (twoWorkers .range) (positive_twoWorkers .range)).mpr
  refine ⟨1000, rfl, ?_⟩
  change 1 ≤ 8 * 1000
  norm_num

/-- Both workers scan the row of a table that is partitioned by hashes. -/
theorem scanAll_oneRow_hash : ¬ ∀ (overflowChecks : Bool) (table : RowVec) (own config : Config),
    config.Positive → ∃ out, scanAll overflowChecks own config table = .ok out ∧ out.Perm table.scanAll := by
  intro h
  obtain ⟨out, hout, hperm⟩ := h true oneRow (twoWorkers .hash) (twoWorkers .hash) (positive_twoWorkers .hash)
  have htwo : oneRow.scanAll ++ oneRow.scanAll = out := Except.ok.inj hout
  have hlength := hperm.length_eq
  rw [← htwo] at hlength
  exact absurd hlength (by decide)

end Scans

end ParallelScanner

end Rustgresql
