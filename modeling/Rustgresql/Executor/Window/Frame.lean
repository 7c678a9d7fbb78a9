import Rustgresql.Executor.Window.Results

/-!
# Frames

`sqlRows_eq_iff`: an aggregate is taken over the rows of the SQL frame exactly if no offset is negative, no
frame that starts at the first row ends before it, and, without a frame, no later row is a peer.
-/

namespace Rustgresql

open ExpressionEvaluator

open Sql (WindowFrame WindowFrameBound)

namespace WindowOperator

variable {S : Type}

/-! ## The rows of a frame in SQL -/

/-- The row of a bound, which may lie outside the partition. An offset is no negative number. -/
def sqlBound (partitionSize currentRowIndex : ℕ) : WindowFrameBound (Expression S) → Option ℤ
  | .currentRow => some currentRowIndex
  | .unboundedPreceding => some 0
  | .unboundedFollowing => some (partitionSize - 1)
  | .preceding (.value (.integer n)) => if 0 ≤ n then some (currentRowIndex - n) else none
  | .following (.value (.integer n)) => if 0 ≤ n then some (currentRowIndex + n) else none
  | .preceding _ | .following _ => none

/-- The rows of a ROWS frame. Without an end it ends at the current row. -/
def sqlFrame (partitionSize currentRowIndex : ℕ) (frame : WindowFrame (Expression S)) : Option (List ℕ) := do
  let first ← sqlBound partitionSize currentRowIndex frame.start
  let last ← sqlBound partitionSize currentRowIndex (frame.end.getD .currentRow)
  return (List.range partitionSize).filter fun i => first ≤ i ∧ i ≤ last

/-- Two rows of a sorted partition are not told apart by the ORDER BY. -/
def ArePeers (ops : Operations S) (columnNames : List String) (windowFunc : WindowFunction (Expression S))
    (rows : List Row) (i j : ℕ) : Prop :=
  ∃ a ∈ rows[i]?, ∃ b ∈ rows[j]?, rowOrder ops columnNames windowFunc a b = .eq

instance (ops : Operations S) (columnNames : List String) (windowFunc : WindowFunction (Expression S))
    (rows : List Row) (i j : ℕ) : Decidable (ArePeers ops columnNames windowFunc rows i j) :=
  match ha : rows[i]?, hb : rows[j]? with
  | some a, some b => decidable_of_iff (rowOrder ops columnNames windowFunc a b = .eq)
      (by simp [ArePeers, ha, hb])
  | some a, none => isFalse (by simp [ArePeers, hb])
  | none, _ => isFalse (by simp [ArePeers, ha])

/-- The rows over which SQL takes an aggregate. Without a frame they end with the peers of the current row. -/
def sqlRows (ops : Operations S) (columnNames : List String) (windowFunc : WindowFunction (Expression S))
    (rows : List Row) (currentRowIndex : ℕ) : Option (List ℕ) :=
  match windowFunc.windowClause.windowFrame with
  | some frame => sqlFrame rows.length currentRowIndex frame
  | none => some ((List.range rows.length).filter fun i =>
      i ≤ currentRowIndex ∨ ArePeers ops columnNames windowFunc rows currentRowIndex i)

/-! ## When the code has them -/

/-- The number of rows in a bound is no negative number. -/
def IsForward : WindowFrameBound (Expression S) → Prop
  | .preceding (.value (.integer n)) => 0 ≤ n
  | .following (.value (.integer n)) => 0 ≤ n
  | _ => True

/-- A frame starts behind the first row. -/
def StartsLater (currentRowIndex : ℕ) : WindowFrameBound (Expression S) → Prop
  | .currentRow => 0 < currentRowIndex
  | .preceding (.value (.integer n)) => n < currentRowIndex
  | _ => False

/-- A frame does not end before the partition, unless it starts behind the first row. -/
def EndsInside (currentRowIndex : ℕ) (frame : WindowFrame (Expression S)) : Prop :=
  match frame.end with
  | some (.preceding (.value (.integer n))) => n ≤ currentRowIndex ∨ StartsLater currentRowIndex frame.start
  | _ => True

/-- When the rows of a frame are those of SQL -/
def MeetsSql (ops : Operations S) (columnNames : List String) (windowFunc : WindowFunction (Expression S))
    (rows : List Row) (currentRowIndex : ℕ) : Prop :=
  match windowFunc.windowClause.windowFrame with
  | some frame => IsForward frame.start ∧ IsForward (frame.end.getD .currentRow) ∧ EndsInside currentRowIndex frame
  | none => windowFunc.windowClause.orderBy = [] ∨
      ∀ i, currentRowIndex < i → ¬ ArePeers ops columnNames windowFunc rows currentRowIndex i

/-- The number of rows in a bound is an `i64`. -/
def FitsBound : WindowFrameBound (Expression S) → Prop
  | .preceding (.value (.integer n)) => n < 2 ^ 63
  | .following (.value (.integer n)) => n < 2 ^ 63
  | _ => True

/-! ## Bounds -/

section Bounds

variable {overflowChecks : Bool} {partitionSize i first last n : ℕ} {bound : WindowFrameBound (Expression S)}
  {e : Expression S}

/-- Only a constant integer is a number of rows. -/
theorem exists_of_boundRows (h : boundRows e = .ok n) : ∃ m, e = .value (.integer m) ∧ n = asUsize m := by
  unfold boundRows evaluateConstantExpression at h
  cases e with
  | value v =>
    cases v with
    | integer m => exact ⟨m, rfl, (Except.ok.inj h).symm⟩
    | _ => cases h
  | _ => cases h

theorem asUsize_of_nonneg {m : ℤ} (hnonneg : 0 ≤ m) (hlt : m < 2 ^ 63) : asUsize m = m.toNat := by
  rw [asUsize, Usize.size, Int.emod_eq_of_lt hnonneg (by omega)]

theorem precedingRow_eq (i n : ℕ) : precedingRow i n = (i - n : ℤ).toNat := by
  unfold precedingRow
  split_ifs <;> omega

/-- The start of a frame is that of SQL, brought into the partition. -/
theorem frameStart_spec (partitionSize : ℕ) (hfits : FitsBound bound) (h : frameStart i bound = .ok first) :
    (IsForward bound ∧ ∃ z, sqlBound partitionSize i bound = some z ∧ first = z.toNat ∧
      (StartsLater i bound ↔ 0 < z)) ∨
    (¬ IsForward bound ∧ sqlBound partitionSize i bound = none) := by
  cases bound with
  | currentRow =>
    obtain rfl := Except.ok.inj h
    exact .inl ⟨trivial, i, rfl, rfl, Int.natCast_pos.symm⟩
  | unboundedPreceding =>
    obtain rfl := Except.ok.inj h
    exact .inl ⟨trivial, 0, rfl, rfl, iff_of_false id (lt_irrefl _)⟩
  | unboundedFollowing => cases h
  | preceding e =>
    obtain ⟨n, hn, h⟩ := Result.bind_eq_ok.mp h
    obtain ⟨m, rfl, rfl⟩ := exists_of_boundRows hn
    by_cases hnonneg : 0 ≤ m
    · refine .inl ⟨hnonneg, i - m, if_pos hnonneg, ?_, Int.sub_pos.symm⟩
      rw [← Except.ok.inj h, precedingRow_eq, asUsize_of_nonneg hnonneg hfits, Int.toNat_of_nonneg hnonneg]
    · exact .inr ⟨hnonneg, if_neg hnonneg⟩
  | following e => cases h

/-- The end of a frame is that of SQL, brought into the partition. -/
theorem frameEnd_spec {frame : WindowFrame (Expression S)} (hi : i < partitionSize) (hsize : partitionSize < 2 ^ 63)
    (hfits : FitsBound (frame.end.getD .currentRow))
    (h : frameEnd overflowChecks partitionSize i frame.end = .ok last) :
    (IsForward (frame.end.getD .currentRow) ∧ ∃ z, sqlBound partitionSize i (frame.end.getD .currentRow) = some z ∧
      min last (partitionSize - 1) = min z.toNat (partitionSize - 1) ∧
      (EndsInside i frame ↔ 0 ≤ z ∨ StartsLater i frame.start)) ∨
    (¬ IsForward (frame.end.getD .currentRow) ∧ sqlBound partitionSize i (frame.end.getD .currentRow) = none) := by
  obtain ⟨mode, start, bound⟩ := frame
  have hinside {z : ℤ} (hz : 0 ≤ z) : True ↔ 0 ≤ z ∨ StartsLater i start := iff_of_true trivial (.inl hz)
  rcases bound with - | bound
  · obtain rfl := Except.ok.inj h
    exact .inl ⟨trivial, i, rfl, rfl, hinside (Int.natCast_nonneg i)⟩
  · cases bound with
    | currentRow =>
      obtain rfl := Except.ok.inj h
      exact .inl ⟨trivial, i, rfl, rfl, hinside (Int.natCast_nonneg i)⟩
    | unboundedPreceding => cases h
    | unboundedFollowing =>
      obtain rfl := Except.ok.inj h
      exact .inl ⟨trivial, partitionSize - 1, rfl, by omega, hinside (by omega)⟩
    | preceding e =>
      obtain ⟨n, hn, h⟩ := Result.bind_eq_ok.mp h
      obtain ⟨m, rfl, rfl⟩ := exists_of_boundRows hn
      by_cases hnonneg : 0 ≤ m
      · refine .inl ⟨hnonneg, i - m, if_pos hnonneg, ?_, or_congr Int.sub_nonneg.symm Iff.rfl⟩
        rw [← Except.ok.inj h, precedingRow_eq, asUsize_of_nonneg hnonneg hfits, Int.toNat_of_nonneg hnonneg]
      · exact .inr ⟨hnonneg, if_neg hnonneg⟩
    | following e =>
      obtain ⟨n, hn, h⟩ := Result.bind_eq_ok.mp h
      obtain ⟨m, rfl, rfl⟩ := exists_of_boundRows hn
      by_cases hnonneg : 0 ≤ m
      · refine .inl ⟨hnonneg, i + m, if_pos hnonneg, ?_, hinside (by omega)⟩
        have hlt : m < 2 ^ 63 := hfits
        rw [asUsize_of_nonneg hnonneg hlt] at h
        obtain ⟨sum, hsum, h⟩ := Result.bind_eq_ok.mp h
        have hadd : Usize.add overflowChecks i m.toNat = .ok (i + m.toNat) :=
          Usize.checked_of "add" (by rw [Usize.size]; omega)
        obtain rfl := Except.ok.inj (hadd.symm.trans hsum)
        rw [← Except.ok.inj h]
        omega
      · exact .inr ⟨hnonneg, if_neg hnonneg⟩

end Bounds

/-! ## Rows -/

theorem mem_frameRows {partitionSize i : ℕ} {frame : ℕ × ℕ} :
    i ∈ frameRows partitionSize frame ↔ i < partitionSize ∧ frame.1 ≤ i ∧ i ≤ frame.2 := by
  rw [frameRows, List.mem_filter, List.mem_range'_1, decide_eq_true_eq]
  omega

/-- The rows of a frame are those of the partition that have a property, if the property says so of each. -/
theorem filter_eq_frameRows_iff {p : ℕ → Prop} [DecidablePred p] {partitionSize : ℕ} {frame : ℕ × ℕ} :
    ((List.range partitionSize).filter p) = frameRows partitionSize frame ↔
      ∀ i < partitionSize, p i ↔ frame.1 ≤ i ∧ i ≤ frame.2 := by
  have hmem (i : ℕ) : i ∈ (List.range partitionSize).filter p ↔ i < partitionSize ∧ p i := by
    rw [List.mem_filter, List.mem_range, decide_eq_true_eq]
  have hrange : ((List.range partitionSize).filter p).Pairwise (· < ·) := List.pairwise_lt_range.filter _
  have hframe : (frameRows partitionSize frame).Pairwise (· < ·) := (List.pairwise_lt_range' 1).filter _
  constructor
  · intro heq i hi
    have hiff := hmem i
    rw [heq, mem_frameRows] at hiff
    simpa [hi] using hiff.symm
  · intro h
    refine hrange.eq_of_mem_iff hframe fun i => ?_
    rw [hmem, mem_frameRows]
    exact and_congr_right fun hi => h i hi

section Rows

variable {overflowChecks : Bool} {ops : Operations S} {columnNames : List String}
  {windowFunc : WindowFunction (Expression S)} {rows : List Row} {i : ℕ} {frame : ℕ × ℕ}

/-- The rows of a ROWS frame -/
theorem sqlFrame_eq_iff {clause : WindowFrame (Expression S)} (hi : i < rows.length) (hsize : rows.length < 2 ^ 63)
    (hstart : FitsBound clause.start) (hend : FitsBound (clause.end.getD .currentRow)) {first last : ℕ}
    (hfirst : frameStart i clause.start = .ok first)
    (hlast : frameEnd overflowChecks rows.length i clause.end = .ok last) :
    sqlFrame rows.length i clause = some (frameRows rows.length (max first 0, min last (rows.length - 1))) ↔
      IsForward clause.start ∧ IsForward (clause.end.getD .currentRow) ∧ EndsInside i clause := by
  unfold sqlFrame
  obtain ⟨hforward, x, hx, rfl, hlater⟩ | ⟨hforward, hx⟩ := frameStart_spec rows.length hstart hfirst
  · obtain ⟨hforward', y, hy, hmin, hinside⟩ | ⟨hforward', hy⟩ := frameEnd_spec hi hsize hend hlast
    · rw [hx, hy, hmin, hinside, hlater]
      refine (Option.some_inj.trans filter_eq_frameRows_iff).trans ?_
      rw [and_iff_right hforward, and_iff_right hforward']
      constructor
      · -- if the frame is empty in SQL then the first row is not in it
        intro h
        have hzero := h 0 (Nat.zero_lt_of_lt hi)
        simp only [Nat.cast_zero, nonpos_iff_eq_zero, zero_le, and_true, Nat.max_zero] at hzero
        omega
      · intro h j hj
        simp only [Nat.max_zero]
        omega
    · rw [hx, hy]
      exact iff_of_false nofun fun h => hforward' h.2.1
  · rw [hx]
    exact iff_of_false nofun fun h => hforward h.1

/-- The rows up to the current row are those of SQL without a frame if no later row is a peer. -/
theorem sqlRows_default_iff (hi : i < rows.length) :
    ((List.range rows.length).filter fun j => j ≤ i ∨ ArePeers ops columnNames windowFunc rows i j) =
        frameRows rows.length (max 0 0, min i (rows.length - 1)) ↔
      ∀ j, i < j → ¬ ArePeers ops columnNames windowFunc rows i j := by
  rw [filter_eq_frameRows_iff]
  constructor
  · intro h j hij hpeer
    obtain ⟨_, _, b, hb, _⟩ := hpeer
    have hj := (List.getElem?_eq_some_iff.mp hb).1
    have hle := ((h j hj).mp (.inr ⟨_, ‹_›, b, hb, ‹_›⟩)).2
    omega
  · intro h j hj
    have hpeer := h j
    constructor
    · rintro (hle | hpeers)
      · simp only [Nat.max_zero]
        omega
      · have hle : j ≤ i := not_lt.mp fun hlt => hpeer hlt hpeers
        simp only [Nat.max_zero]
        omega
    · simp only [Nat.max_zero]
      omega

/-- The numbers of rows in the bounds of a function are `i64` values. -/
def FitsFrame (windowFunc : WindowFunction (Expression S)) : Prop :=
  ∀ frame ∈ windowFunc.windowClause.windowFrame, FitsBound frame.start ∧ FitsBound (frame.end.getD .currentRow)

theorem sqlRows_eq_frameRows_iff (hi : i < rows.length) (hsize : rows.length < 2 ^ 63) (hfits : FitsFrame windowFunc)
    (h : calculateFrameBoundaries overflowChecks rows.length i windowFunc = .ok frame) :
    sqlRows ops columnNames windowFunc rows i = some (frameRows rows.length frame) ↔
      MeetsSql ops columnNames windowFunc rows i := by
  obtain ⟨bounds, hbounds, heq⟩ := Result.bind_eq_ok.mp h
  obtain rfl := Except.ok.inj heq
  unfold unclampedFrame at hbounds
  unfold sqlRows MeetsSql
  rcases hclause : windowFunc.windowClause.windowFrame with - | clause
  · rw [hclause] at hbounds
    simp only [Option.some_inj]
    by_cases hempty : windowFunc.windowClause.orderBy.isEmpty
    · -- without an ORDER BY all rows are peers
      have horderBy := List.isEmpty_iff.mp hempty
      rw [if_pos hempty] at hbounds
      obtain rfl := Except.ok.inj hbounds
      refine iff_of_true (filter_eq_frameRows_iff.mpr fun j hj => iff_of_true (.inr ?_) ?_) (.inl horderBy)
      · refine ⟨_, List.getElem?_eq_getElem hi, _, List.getElem?_eq_getElem hj, ?_⟩
        rw [rowOrder, horderBy]
        rfl
      · simp only [Nat.max_zero]
        omega
    · rw [if_neg hempty] at hbounds
      obtain rfl := Except.ok.inj hbounds
      rw [sqlRows_default_iff hi, or_iff_right fun horderBy => hempty (List.isEmpty_iff.mpr horderBy)]
  · rw [hclause] at hbounds
    obtain ⟨hstart, hend⟩ := hfits clause hclause
    dsimp only at hbounds
    cases hmode : clause.mode with
    | range =>
      rw [hmode] at hbounds
      cases hbounds
    | rows =>
      rw [hmode] at hbounds
      obtain ⟨first, hfirst, hbounds⟩ := Result.bind_eq_ok.mp hbounds
      obtain ⟨last, hlast, hbounds⟩ := Result.bind_eq_ok.mp hbounds
      obtain rfl := Except.ok.inj hbounds
      exact sqlFrame_eq_iff hi hsize hstart hend hfirst hlast

end Rows

section Aggregate

variable [DebugText] [FloatArithmetic]

/-- The aggregate of a function over some rows -/
def aggregateOver (ops : Operations S) (windowFunc : WindowFunction (Expression S)) (columnNames : List String)
    (rows : List Row) : Result Value := do
  let initial ← createFreshAggregateState ops windowFunc.name
  let final ← rows.foldlM (fun frameState row => do
    let v ← aggregateArgument ops columnNames windowFunc.args row
    return frameState.update v) initial
  return final.result

/-- With an accepted frame an aggregate is taken over the rows of the frame. They are those of SQL exactly if no
offset is negative, a frame that starts at the first row does not end before it, and, without a frame, no later
row is a peer of the current row. -/
theorem aggregate_over_sqlRows_iff (overflowChecks : Bool) (ops : Operations S) (columnNames : List String)
    (windowFunc : WindowFunction (Expression S)) (rows : List Row) (i : ℕ) (frame : ℕ × ℕ) (state : AggregateState)
    (hi : i < rows.length) (hsize : rows.length < 2 ^ 63) (hfits : FitsFrame windowFunc)
    (h : calculateFrameBoundaries overflowChecks rows.length i windowFunc = .ok frame) :
    evaluateAggregate overflowChecks ops windowFunc ⟨rows, columnNames⟩ i (.aggregate state) = (do
      let v ← aggregateOver ops windowFunc columnNames ((frameRows rows.length frame).filterMap (rows[·]?))
      return (v, .aggregate state)) ∧
    (sqlRows ops columnNames windowFunc rows i = some (frameRows rows.length frame) ↔
      MeetsSql ops columnNames windowFunc rows i) := by
  refine ⟨?_, sqlRows_eq_frameRows_iff hi hsize hfits h⟩
  unfold evaluateAggregate aggregateOver
  rcases createFreshAggregateState ops windowFunc.name with - | initial
  · rfl
  · rw [h]
    dsimp only [bind, Except.bind]
    rcases List.foldlM _ initial _ with - | final <;> rfl

end Aggregate

/-- `COUNT(*) OVER (ORDER BY x ROWS BETWEEN UNBOUNDED PRECEDING AND 1 PRECEDING)` -/
def countBefore : WindowFunction (Expression Unit) where
  name := "COUNT"
  args := [.star]
  windowClause := ⟨[], [⟨.column none "x", .asc, .default⟩],
    some ⟨.rows, .unboundedPreceding, some (.preceding (.value (.integer 1)))⟩⟩

theorem fitsFrame_countBefore : FitsFrame countBefore := by
  intro frame hframe
  obtain rfl := Option.some.inj hframe
  refine ⟨trivial, ?_⟩
  show (1 : ℤ) < 2 ^ 63
  decide

/-- The frame of the first row has the row itself in it, in SQL it is empty. -/
theorem frame_before_partition : ¬ ∀ (S : Type) (overflowChecks : Bool) (ops : Operations S) (columnNames : List String)
    (windowFunc : WindowFunction (Expression S)) (rows : List Row) (i : ℕ) (frame : ℕ × ℕ), i < rows.length →
    rows.length < 2 ^ 63 → FitsFrame windowFunc →
    calculateFrameBoundaries overflowChecks rows.length i windowFunc = .ok frame →
    sqlRows ops columnNames windowFunc rows i = some (frameRows rows.length frame) := by
  intro h
  have hrows := h Unit true noOperations ["x"] countBefore [[.integer 1]] 0 (0, 0) (by decide) (by decide)
    fitsFrame_countBefore rfl
  cases hrows

theorem aggregate_over_sqlRows_second : letI : DebugText := ⟨fun _ => "", fun _ => "", fun _ => ""⟩
    letI : FloatArithmetic := ⟨fun x _ => x, fun x _ => x, fun _ => 0, fun _ => false, fun _ => 0⟩
    sqlRows noOperations ["x"] countBefore [[.integer 1], [.integer 1]] 1 = some (frameRows 2 (0, 0)) := by
  let texts : DebugText := ⟨fun _ => "", fun _ => "", fun _ => ""⟩
  let arithmetic : FloatArithmetic := ⟨fun x _ => x, fun x _ => x, fun _ => 0, fun _ => false, fun _ => 0⟩
  refine (aggregate_over_sqlRows_iff true noOperations ["x"] countBefore [[.integer 1], [.integer 1]] 1 (0, 0)
    (.newCount false) (by decide) (by decide) ?_ rfl).2.mpr ?_
  · exact fitsFrame_countBefore
  · exact ⟨trivial, zero_le_one, .inl le_rfl⟩

end WindowOperator

end Rustgresql
