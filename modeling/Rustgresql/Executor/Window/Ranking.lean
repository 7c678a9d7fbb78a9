import Rustgresql.Executor.Window.Results
import Rustgresql.Lib.Ranking

/-!
# ROW_NUMBER, RANK and DENSE_RANK

`applyWindowFunctions_ranks`: on every partition whose sort keys can be evaluated, and are not floating-point
numbers that are not numbers, the ranking functions return the place of a row in the sorted partition, one
more than the number of rows strictly before it, and one more than the number of different sort keys strictly
before it.
-/

namespace Rustgresql

open ExpressionEvaluator StableSort

open Sql (OrderBy NullsPosition)

namespace WindowOperator

variable {S : Type}

inductive RankingFunction
  | rowNumber | rank | denseRank
  deriving DecidableEq

def RankingFunction.text : RankingFunction → String
  | rowNumber => "ROW_NUMBER"
  | rank => "RANK"
  | denseRank => "DENSE_RANK"

/-- The sort keys of a row can be evaluated, and are not floating-point numbers that are not numbers. -/
def HasKeys (ops : Operations S) (columnNames : List String) (orderBy : List (OrderBy (Expression S))) (row : Row) :
    Prop :=
  ∀ item ∈ orderBy, ∃ v, evaluate ops (sortingContext columnNames row) item.expr = .ok v ∧ ¬ v.IsNaN

/-- What the sort keys of a row are compared by -/
def orderKey (ops : Operations S) (columnNames : List String) (orderBy : List (OrderBy (Expression S))) (row : Row) :
    List (ℕ ×ₗ ℤ ×ₗ String) :=
  orderBy.map fun item => (orNull (evaluate ops (sortingContext columnNames row) item.expr)).sortKey .default

/-- The value of a ranking function for the row at the place `k` of the sorted partition -/
def rankingValue (ops : Operations S) (columnNames : List String) (windowFunc : WindowFunction (Expression S))
    (partition : List Row) (k : ℕ) (row : Row) : RankingFunction → Value
  | .rowNumber => .integer (k + 1)
  | .rank => .integer (before (rowOrder ops columnNames windowFunc) partition row + 1)
  | .denseRank => .integer (distinctBefore (rowOrder ops columnNames windowFunc)
      (orderKey ops columnNames windowFunc.windowClause.orderBy) partition row + 1)

/-! ## Keys -/

section Keys

variable {ops : Operations S} {columnNames : List String} {orderBy : List (OrderBy (Expression S))} {a b : Row}

theorem compareValues_eq_eq {v w : Value} (nulls : NullsPosition) :
    compareValues v w nulls = .eq ↔ compareValues v w .default = .eq := by
  cases v <;> cases w <;> cases nulls <;> simp [compareValues]

/-- An item with the place of its NULLs as the comparison has it -/
def placedItem (item : OrderBy (Expression S)) : OrderBy (Expression S) :=
  { item with nulls := SortOperator.placement item.direction item.nulls }

theorem compareRows_eq_rowOrder (ops : Operations S) (columnNames : List String)
    (orderBy : List (OrderBy (Expression S))) (a b : Row) :
    SortOperator.compareRows (rowEvaluator ops) columnNames orderBy a b =
      SortOperator.rowOrder (rowEvaluator ops) columnNames (orderBy.map placedItem) a b := by
  induction orderBy with
  | nil => rfl
  | cons item orderBy ih =>
    rw [List.map_cons, SortOperator.compareRows, SortOperator.rowOrder, SortOperator.itemOrder, ih]
    simp only [placedItem]
    rcases rowEvaluator ops item.expr (createEvaluationContext columnNames a) with - | v <;>
      rcases rowEvaluator ops item.expr (createEvaluationContext columnNames b) with - | w
    case ok.ok =>
      have hplace : SortOperator.placement item.direction (SortOperator.placement item.direction item.nulls) =
          item.nulls := by
        cases item.direction <;> cases item.nulls <;> rfl
      simp only [SortOperator.keyOrder_eq, hplace]
      by_cases heq : compareValues v w item.nulls = .eq
      · have hdirected : directed item.direction (compareValues v w item.nulls) = .eq :=
          SortOperator.directed_eq_eq.mpr heq
        rw [if_neg (not_not_intro heq), hdirected]
        rfl
      · have hdirected : directed item.direction (compareValues v w item.nulls) ≠ .eq :=
          mt SortOperator.directed_eq_eq.mp heq
        rw [if_pos heq]
        revert hdirected
        cases directed item.direction (compareValues v w item.nulls) <;> simp [Ordering.then]
    all_goals rfl

/-- The ORDER BY of a function orders the rows with sort keys. -/
theorem isOrderOn_of_hasKeys {rows : List Row} (h : ∀ row ∈ rows, HasKeys ops columnNames orderBy row) :
    IsOrderOn (SortOperator.compareRows (rowEvaluator ops) columnNames orderBy) rows := by
  have hplaced : IsOrderOn (SortOperator.rowOrder (rowEvaluator ops) columnNames (orderBy.map placedItem)) rows := by
    refine SortOperator.isOrderOn_rowOrder fun placed hplaced row hrow => ?_
    obtain ⟨item, hitem, rfl⟩ := List.mem_map.mp hplaced
    exact h row hrow item hitem
  exact hplaced.congr fun a _ b _ => compareRows_eq_rowOrder ops columnNames orderBy a b

theorem exists_orderByValues (h : HasKeys ops columnNames orderBy a) :
    ∃ values, getOrderByValues ops columnNames orderBy a = .ok values := by
  unfold getOrderByValues
  induction orderBy with
  | nil => exact ⟨[], by rw [List.map_nil, evaluateAll]⟩
  | cons item orderBy ih =>
    obtain ⟨⟨v, hv, -⟩, hrest⟩ := List.forall_mem_cons.mp h
    obtain ⟨values, hvalues⟩ := ih hrest
    refine ⟨v :: values, ?_⟩
    rw [List.map_cons, evaluateAll, hv, hvalues]
    rfl

/-- Rows have equal ORDER BY values if the ORDER BY does not tell them apart. -/
theorem valuesEqual_iff {values values' : List Value} (ha : getOrderByValues ops columnNames orderBy a = .ok values)
    (hb : getOrderByValues ops columnNames orderBy b = .ok values') : valuesEqual values values' = true ↔
      SortOperator.compareRows (rowEvaluator ops) columnNames orderBy a b = .eq := by
  induction orderBy generalizing values values' with
  | nil =>
    rw [getOrderByValues, List.map_nil, evaluateAll] at ha hb
    rw [← Except.ok.inj ha, ← Except.ok.inj hb]
    exact iff_of_true rfl rfl
  | cons item orderBy ih =>
    rw [getOrderByValues, List.map_cons, evaluateAll] at ha hb
    obtain ⟨v, hv, ha⟩ := Result.bind_eq_ok.mp ha
    obtain ⟨vs, hvs, ha⟩ := Result.bind_eq_ok.mp ha
    obtain ⟨w, hw, hb⟩ := Result.bind_eq_ok.mp hb
    obtain ⟨ws, hws, hb⟩ := Result.bind_eq_ok.mp hb
    have hev : rowEvaluator ops item.expr (createEvaluationContext columnNames a) = .ok v := hv
    have hew : rowEvaluator ops item.expr (createEvaluationContext columnNames b) = .ok w := hw
    have hcons : valuesEqual (v :: vs) (w :: ws) = true ↔
        compareValues v w .default = .eq ∧ valuesEqual vs ws = true := by
      unfold valuesEqual
      by_cases hlength : vs.length = ws.length
      · simp [hlength]
      · simp [hlength]
    rw [← Except.ok.inj ha, ← Except.ok.inj hb]
    refine hcons.trans ?_
    rw [ih hvs hws, SortOperator.compareRows]
    simp only [hev, hew]
    rw [← compareValues_eq_eq item.nulls]
    by_cases heq : compareValues v w item.nulls = .eq
    · rw [if_neg (not_not_intro heq)]
      exact and_iff_right heq
    · rw [if_pos heq]
      exact iff_of_false (fun h => heq h.1) (mt SortOperator.directed_eq_eq.mp heq)

theorem orderKey_eq_iff (ha : HasKeys ops columnNames orderBy a) (hb : HasKeys ops columnNames orderBy b) :
    orderKey ops columnNames orderBy a = orderKey ops columnNames orderBy b ↔
      SortOperator.compareRows (rowEvaluator ops) columnNames orderBy a b = .eq := by
  induction orderBy with
  | nil => exact iff_of_true rfl rfl
  | cons item orderBy ih =>
    obtain ⟨⟨v, hv, hnumber⟩, ha⟩ := List.forall_mem_cons.mp ha
    obtain ⟨⟨w, hw, hnumber'⟩, hb⟩ := List.forall_mem_cons.mp hb
    have hev : rowEvaluator ops item.expr (createEvaluationContext columnNames a) = .ok v := hv
    have hew : rowEvaluator ops item.expr (createEvaluationContext columnNames b) = .ok w := hw
    have hkeys : v.sortKey .default = w.sortKey .default ↔ compareValues v w item.nulls = .eq := by
      rw [compareValues_eq_eq, compareValues_eq hnumber hnumber', compare_eq_iff_eq]
    rw [orderKey, orderKey, List.map_cons, List.map_cons, List.cons.injEq, hv, hw, SortOperator.compareRows]
    simp only [hev, hew]
    refine (and_congr hkeys (ih ha hb)).trans ?_
    by_cases heq : compareValues v w item.nulls = .eq
    · rw [if_neg (not_not_intro heq)]
      exact and_iff_right heq
    · rw [if_pos heq]
      exact iff_of_false (fun h => heq h.1) (mt SortOperator.directed_eq_eq.mp heq)

end Keys

/-! ## The scan -/

section Scan

variable {ops : Operations S} {columnNames : List String} {windowFunc : WindowFunction (Expression S)}
  {partition rows : List Row} {row : Row} {values : List Value} {currentRank k : ℕ}
  {prevValues : Option (List Value)} {N : Row → ℕ}

/-- Before the row at the place `k` the rank is the one of its predecessor, and the values are those of a row
that its ORDER BY does not tell from the predecessor. -/
def RankInvariant (ops : Operations S) (columnNames : List String) (windowFunc : WindowFunction (Expression S))
    (rows : List Row) (N : Row → ℕ) (k currentRank : ℕ) (prevValues : Option (List Value)) : Prop :=
  (k = 0 ∧ currentRank = 0 ∧ prevValues = none) ∨
  ∃ j prev peer values, k = j + 1 ∧ rows[j]? = some prev ∧ peer ∈ rows ∧ prevValues = some values ∧
    getOrderByValues ops columnNames windowFunc.windowClause.orderBy peer = .ok values ∧
    rowOrder ops columnNames windowFunc peer prev = .eq ∧ currentRank = N prev + 1

/-- A step gives a row its rank, if the rank of equal rows is the same and the one of the next row is right. -/
theorem rankStep_spec (next : ℕ) (horder : IsOrderOn (rowOrder ops columnNames windowFunc) rows) (hrow : rows[k]? = some row)
    (hvalues : getOrderByValues ops columnNames windowFunc.windowClause.orderBy row = .ok values)
    (h : RankInvariant ops columnNames windowFunc rows N k currentRank prevValues) (hfirst : k = 0 → N row = 0)
    (hequal : ∀ j prev, k = j + 1 → rows[j]? = some prev → rowOrder ops columnNames windowFunc row prev = .eq →
      N row = N prev)
    (hnext : ∀ j prev, k = j + 1 → rows[j]? = some prev → rowOrder ops columnNames windowFunc row prev ≠ .eq →
      currentRank = N prev + 1 → next = N row + 1) :
    (rankStep currentRank prevValues values next).1 = N row + 1 ∧
      RankInvariant ops columnNames windowFunc rows N (k + 1) (rankStep currentRank prevValues values next).1
        (rankStep currentRank prevValues values next).2 := by
  have hmem : row ∈ rows := List.mem_of_getElem? hrow
  obtain ⟨rfl, rfl, rfl⟩ | ⟨j, prev, peer, values', rfl, hprev, hpeer, rfl, hvalues', heq, rfl⟩ := h
  · have hrank : 1 = N row + 1 := by rw [hfirst rfl]
    exact ⟨hrank, .inr ⟨0, row, row, values, rfl, hrow, hmem, rfl, hvalues, horder.self hmem, hrank⟩⟩
  · have hprevMem : prev ∈ rows := List.mem_of_getElem? hprev
    have hsame : valuesEqual values values' = true ↔ rowOrder ops columnNames windowFunc row prev = .eq := by
      rw [valuesEqual_iff hvalues hvalues', ← horder.congr_right hmem hpeer hprevMem heq]
      rfl
    have hstep : rankStep (N prev + 1) (some values') values next =
        if valuesEqual values values' then (N prev + 1, some values') else (next, some values) := rfl
    rw [hstep]
    by_cases hcmp : rowOrder ops columnNames windowFunc row prev = .eq
    · rw [if_pos (hsame.mpr hcmp)]
      have hrank : N prev + 1 = N row + 1 := by rw [hequal j prev rfl hprev hcmp]
      have hpeerRow : rowOrder ops columnNames windowFunc peer row = .eq := by
        rw [horder.congr_right hpeer hmem hprevMem hcmp]
        exact heq
      exact ⟨hrank, .inr ⟨j + 1, row, peer, values', rfl, hrow, hpeer, rfl, hvalues', hpeerRow, hrank⟩⟩
    · rw [if_neg (mt hsame.mp hcmp)]
      have hrank := hnext j prev rfl hprev hcmp rfl
      exact ⟨hrank, .inr ⟨j + 1, row, row, values, rfl, hrow, hmem, rfl, hvalues, horder.self hmem, hrank⟩⟩

/-- Neighbours split a list. -/
theorem exists_split {j : ℕ} {prev : Row} (hprev : rows[j]? = some prev) (hrow : rows[j + 1]? = some row) :
    ∃ pre post, rows = pre ++ prev :: row :: post ∧ pre.length = j := by
  obtain ⟨hj, hprev⟩ := List.getElem?_eq_some_iff.mp hprev
  obtain ⟨hk, hrow⟩ := List.getElem?_eq_some_iff.mp hrow
  refine ⟨rows.take j, rows.drop (j + 2), ?_, List.length_take_of_le hj.le⟩
  conv_lhs => rw [← List.take_append_drop j rows]
  rw [List.drop_eq_getElem_cons hj, List.drop_eq_getElem_cons hk, hprev, hrow]

/-- The rank of a row is that of its predecessor, or the number of the rows that stand before it. -/
theorem before_step (horder : IsOrderOn (rowOrder ops columnNames windowFunc) rows)
    (hsorted : rows.Pairwise fun a b => rowOrder ops columnNames windowFunc a b ≠ .gt) (hrow : rows[k]? = some row) :
    (k = 0 → before (rowOrder ops columnNames windowFunc) rows row = 0) ∧
    ∀ j prev, k = j + 1 → rows[j]? = some prev →
      (rowOrder ops columnNames windowFunc row prev = .eq →
        before (rowOrder ops columnNames windowFunc) rows row =
          before (rowOrder ops columnNames windowFunc) rows prev) ∧
      (rowOrder ops columnNames windowFunc row prev ≠ .eq →
        before (rowOrder ops columnNames windowFunc) rows row = k) := by
  constructor
  · rintro rfl
    rcases rows with - | ⟨first, post⟩
    · cases hrow
    · cases hrow
      rw [before, List.countP_eq_length_filter, filter_of_first horder hsorted, List.length_nil]
  · rintro j prev rfl hprev
    obtain ⟨pre, post, hsplit, hlength⟩ := exists_split hprev hrow
    refine ⟨fun heq => ?_, fun hne => ?_⟩
    · rw [before, before, List.countP_eq_length_filter, List.countP_eq_length_filter, filter_of_eq horder hsplit heq]
    · rw [before_of_ne horder hsplit hsorted hne, hlength]

theorem distinctBefore_step {key : Row → List (ℕ ×ₗ ℤ ×ₗ String)}
    (horder : IsOrderOn (rowOrder ops columnNames windowFunc) rows)
    (hsorted : rows.Pairwise fun a b => rowOrder ops columnNames windowFunc a b ≠ .gt)
    (hkey : ∀ a ∈ rows, ∀ b ∈ rows, key a = key b ↔ rowOrder ops columnNames windowFunc a b = .eq)
    (hrow : rows[k]? = some row) :
    (k = 0 → distinctBefore (rowOrder ops columnNames windowFunc) key rows row = 0) ∧
    ∀ j prev, k = j + 1 → rows[j]? = some prev →
      (rowOrder ops columnNames windowFunc row prev = .eq →
        distinctBefore (rowOrder ops columnNames windowFunc) key rows row =
          distinctBefore (rowOrder ops columnNames windowFunc) key rows prev) ∧
      (rowOrder ops columnNames windowFunc row prev ≠ .eq →
        distinctBefore (rowOrder ops columnNames windowFunc) key rows row =
          distinctBefore (rowOrder ops columnNames windowFunc) key rows prev + 1) := by
  constructor
  · rintro rfl
    rcases rows with - | ⟨first, post⟩
    · cases hrow
    · cases hrow
      rw [distinctBefore, filter_of_first horder hsorted]
      rfl
  · rintro j prev rfl hprev
    obtain ⟨pre, post, hsplit, -⟩ := exists_split hprev hrow
    refine ⟨fun heq => ?_, fun hne => distinctBefore_of_ne horder hsplit hsorted hkey hne⟩
    rw [distinctBefore, distinctBefore, filter_of_eq horder hsplit heq]

end Scan

/-! ## The functions -/

section Functions

variable {ops : Operations S} {columnNames : List String} {windowFunc : WindowFunction (Expression S)}
  {partition : List Row} {sorted : List (Row × ℕ)} {kind : RankingFunction}

/-- The state of a ranking function before the row at the place `k` -/
def RankingState (ops : Operations S) (columnNames : List String) (windowFunc : WindowFunction (Expression S))
    (rows : List Row) (k : ℕ) : RankingFunction → WindowFunctionState → Prop
  | .rowNumber, state => state = .rowNumber k
  | .rank, state => ∃ currentRank prevValues, state = .rank currentRank prevValues ∧
      RankInvariant ops columnNames windowFunc rows (before (rowOrder ops columnNames windowFunc) rows) k currentRank
        prevValues
  | .denseRank, state => ∃ currentRank prevValues, state = .denseRank currentRank prevValues ∧
      RankInvariant ops columnNames windowFunc rows (distinctBefore (rowOrder ops columnNames windowFunc)
        (orderKey ops columnNames windowFunc.windowClause.orderBy) rows) k currentRank prevValues

theorem rankingState_start (hname : ops.toUppercase windowFunc.name = kind.text) (rows : List Row) :
    RankingState ops columnNames windowFunc rows 0 kind (initializeWindowFunction ops windowFunc) := by
  unfold initializeWindowFunction
  rw [hname]
  cases kind
  case rowNumber => rfl
  case rank => exact ⟨0, none, rfl, .inl ⟨rfl, rfl, rfl⟩⟩
  case denseRank => exact ⟨0, none, rfl, .inl ⟨rfl, rfl, rfl⟩⟩

variable [DebugText] [FloatArithmetic] {overflowChecks : Bool}

/-- A ranking function returns the value of the row. -/
theorem evaluate_ranking (overflowChecks : Bool) (hname : ops.toUppercase windowFunc.name = kind.text)
    (hkeys : ∀ row ∈ partition, HasKeys ops columnNames windowFunc.windowClause.orderBy row)
    (hsorted : StablySorted (fun a b => rowOrder ops columnNames windowFunc a.1 b.1) partition.zipIdx sorted) {k : ℕ}
    {p : Row × ℕ} {state : WindowFunctionState} (hp : sorted[k]? = some p)
    (hstate : RankingState ops columnNames windowFunc (sorted.map Prod.fst) k kind state) :
    ∃ state', evaluateWindowFunctionWithOrder overflowChecks ops windowFunc ⟨sorted.map Prod.fst, columnNames⟩ k p.1
        state = .ok (rankingValue ops columnNames windowFunc partition k p.1 kind, state') ∧
      RankingState ops columnNames windowFunc (sorted.map Prod.fst) (k + 1) kind state' := by
  have hperm : (sorted.map Prod.fst).Perm partition := by
    have hfirst := hsorted.perm.map Prod.fst
    rwa [List.zipIdx_map_fst] at hfirst
  have hkeys' : ∀ row ∈ sorted.map Prod.fst, HasKeys ops columnNames windowFunc.windowClause.orderBy row :=
    fun row hrow => hkeys row (hperm.subset hrow)
  have horder : IsOrderOn (rowOrder ops columnNames windowFunc) (sorted.map Prod.fst) := isOrderOn_of_hasKeys hkeys'
  have hpairwise : (sorted.map Prod.fst).Pairwise fun a b => rowOrder ops columnNames windowFunc a b ≠ .gt :=
    List.pairwise_map.mpr hsorted.sorted
  have hrow : (sorted.map Prod.fst)[k]? = some p.1 := by rw [List.getElem?_map, hp]; rfl
  obtain ⟨values, hvalues⟩ := exists_orderByValues (hkeys' p.1 (List.mem_of_getElem? hrow))
  unfold evaluateWindowFunctionWithOrder
  rw [hname]
  cases kind with
  | rowNumber =>
    obtain rfl := hstate
    exact ⟨.rowNumber (k + 1), rfl, rfl⟩
  | rank =>
    obtain ⟨currentRank, prevValues, rfl, hinvariant⟩ := hstate
    obtain ⟨hfirst, hnext⟩ := before_step horder hpairwise hrow
    obtain ⟨hrank, hinvariant'⟩ := rankStep_spec (k + 1) horder hrow hvalues hinvariant hfirst
      (fun j prev hj hprev => (hnext j prev hj hprev).1)
      (fun j prev hj hprev hne _ => by rw [(hnext j prev hj hprev).2 hne])
    have hvalue : rankingValue ops columnNames windowFunc partition k p.1 .rank =
        .integer (rankStep currentRank prevValues values (k + 1)).1 := by
      rw [rankingValue, ← before_perm hperm, hrank]
      rfl
    rw [hvalue]
    exact ⟨_, Result.bind_eq_ok.mpr ⟨values, hvalues, rfl⟩, _, _, rfl, hinvariant'⟩
  | denseRank =>
    obtain ⟨currentRank, prevValues, rfl, hinvariant⟩ := hstate
    obtain ⟨hfirst, hnext⟩ := distinctBefore_step horder hpairwise
      (fun a ha b hb => orderKey_eq_iff (hkeys' a ha) (hkeys' b hb)) hrow
    obtain ⟨hrank, hinvariant'⟩ := rankStep_spec (currentRank + 1) horder hrow hvalues hinvariant hfirst
      (fun j prev hj hprev => (hnext j prev hj hprev).1)
      (fun j prev hj hprev hne hcurrent => by rw [(hnext j prev hj hprev).2 hne, hcurrent])
    have hvalue : rankingValue ops columnNames windowFunc partition k p.1 .denseRank =
        .integer (rankStep currentRank prevValues values (currentRank + 1)).1 := by
      rw [rankingValue, ← distinctBefore_perm hperm, hrank]
      rfl
    rw [hvalue]
    exact ⟨_, Result.bind_eq_ok.mpr ⟨values, hvalues, rfl⟩, _, _, rfl, hinvariant'⟩

theorem stepsKeep_ranking (hname : ops.toUppercase windowFunc.name = kind.text)
    (hkeys : ∀ row ∈ partition, HasKeys ops columnNames windowFunc.windowClause.orderBy row)
    (hsorted : StablySorted (fun a b => rowOrder ops columnNames windowFunc a.1 b.1) partition.zipIdx sorted) :
    StepsKeep overflowChecks ops windowFunc ⟨sorted.map Prod.fst, columnNames⟩ sorted
      (fun k state => RankingState ops columnNames windowFunc (sorted.map Prod.fst) k kind state)
      (fun k v => ∀ p, sorted[k]? = some p → v = rankingValue ops columnNames windowFunc partition k p.1 kind) := by
  intro k p state v state' hp hstate h
  obtain ⟨state'', heval, hstate'⟩ := evaluate_ranking overflowChecks hname hkeys hsorted hp hstate
  obtain ⟨rfl, rfl⟩ := Prod.mk.inj (Except.ok.inj (heval.symm.trans h))
  refine ⟨fun q hq => ?_, hstate'⟩
  rw [Option.some.inj (hp.symm.trans hq)]

theorem stepsReturn_ranking (overflowChecks : Bool) (hname : ops.toUppercase windowFunc.name = kind.text)
    (hkeys : ∀ row ∈ partition, HasKeys ops columnNames windowFunc.windowClause.orderBy row)
    (hsorted : StablySorted (fun a b => rowOrder ops columnNames windowFunc a.1 b.1) partition.zipIdx sorted) :
    StepsReturn overflowChecks ops windowFunc ⟨sorted.map Prod.fst, columnNames⟩ sorted
      (fun k state => RankingState ops columnNames windowFunc (sorted.map Prod.fst) k kind state) := by
  intro k p state hp hstate
  obtain ⟨state', heval, -⟩ := evaluate_ranking overflowChecks hname hkeys hsorted hp hstate
  exact ⟨_, state', heval⟩

/-- The values of a ranking function on a partition, each at the place of its row -/
def IsRanked (ops : Operations S) (columnNames : List String) (windowFunc : WindowFunction (Expression S))
    (partition : List Row) (kind : RankingFunction) (column : List Value) : Prop :=
  ∃ sorted, StablySorted (fun a b => rowOrder ops columnNames windowFunc a.1 b.1) partition.zipIdx sorted ∧
    ∀ k row i, sorted[k]? = some (row, i) →
      column[i]? = some (rankingValue ops columnNames windowFunc partition k row kind)

variable {sort : SortBy}

theorem isRanked_of_windowResults (hsort : ∀ α, IsStableSort (sort α))
    (hname : ops.toUppercase windowFunc.name = kind.text)
    (hkeys : ∀ row ∈ partition, HasKeys ops columnNames windowFunc.windowClause.orderBy row) {column : List Value}
    (h : windowResults sort overflowChecks ops columnNames windowFunc partition = .ok column) :
    IsRanked ops columnNames windowFunc partition kind column := by
  obtain ⟨sorted, hsorted, hvalues⟩ := windowResults_spec hsort h
  obtain ⟨sorted', hsorted', hstable⟩ := exists_sortPartition hsort (isOrderOn_of_hasKeys hkeys)
  obtain rfl := Except.ok.inj (hsorted.symm.trans hsorted')
  refine ⟨sorted, hstable, fun k row i hk => ?_⟩
  obtain ⟨v, hv, hright⟩ := hvalues _ _ (rankingState_start hname _) (stepsKeep_ranking hname hkeys hstable) k row i hk
  rw [hv, hright (row, i) hk]

theorem exists_windowResults_ranking (kind : RankingFunction) (hsort : ∀ α, IsStableSort (sort α))
    (hname : ops.toUppercase windowFunc.name = kind.text)
    (hkeys : ∀ row ∈ partition, HasKeys ops columnNames windowFunc.windowClause.orderBy row) :
    ∃ column, windowResults sort overflowChecks ops columnNames windowFunc partition = .ok column := by
  obtain ⟨sorted, hsorted, hstable⟩ := exists_sortPartition hsort (isOrderOn_of_hasKeys hkeys)
  obtain ⟨values, hvalues⟩ := exists_evaluateRows (stepsReturn_ranking overflowChecks hname hkeys hstable)
    (stepsKeep_ranking hname hkeys hstable) (rankingState_start hname _)
  exact ⟨_, Result.bind_eq_ok.mpr ⟨sorted, hsorted, Result.bind_eq_ok.mpr ⟨values, hvalues, rfl⟩⟩⟩

end Functions

/-- On partitions whose sort keys can be evaluated, and are not floating-point numbers that are not numbers,
the ranking functions return, and every row comes out once, with the ranks of the row behind its own values. -/
theorem applyWindowFunctions_ranks [DebugText] [FloatArithmetic] {sort : SortBy} (hsort : ∀ α, IsStableSort (sort α))
    (overflowChecks : Bool) (ops : Operations S) (op : WindowOperator S) (partitions : List (List Row))
    (columnNames : List String)
    (hkeys : ∀ f ∈ op.windowFunctions, ∀ kind : RankingFunction, ops.toUppercase f.2.name = kind.text →
      ∀ partition ∈ partitions, ∀ row ∈ partition, HasKeys ops columnNames f.2.windowClause.orderBy row) :
    ((∀ f ∈ op.windowFunctions, ∃ kind : RankingFunction, ops.toUppercase f.2.name = kind.text) →
      ∃ rows, applyWindowFunctions sort overflowChecks ops op partitions columnNames = .ok rows) ∧
    ∀ rows, applyWindowFunctions sort overflowChecks ops op partitions columnNames = .ok rows →
      ∃ outputs, rows = outputs.flatten ∧ List.Forall₂ (fun partition output => ∃ columns,
        output = (partition.zipIdx.map fun p => p.1 ++ columns.map fun column => column.getD p.2 .null) ∧
        List.Forall₂ (fun f column => column.length = partition.length ∧
          ∀ kind : RankingFunction, ops.toUppercase f.2.name = kind.text →
            IsRanked ops columnNames f.2 partition kind column) op.windowFunctions columns) partitions outputs := by
  constructor
  · intro hranking
    refine exists_applyWindowFunctions fun f hf partition hpartition => ?_
    obtain ⟨kind, hname⟩ := hranking f hf
    exact exists_windowResults_ranking _ hsort hname (hkeys f hf kind hname partition hpartition)
  · intro rows h
    obtain ⟨outputs, hrows, houtputs⟩ := outputs_of_applyWindowFunctions h
    refine ⟨outputs, hrows, houtputs.imp fun partition output ⟨hpartition, columns, houtput, hcolumns⟩ => ?_⟩
    refine ⟨columns, houtput, hcolumns.imp fun f column ⟨hf, hcolumn⟩ => ⟨?_, fun kind hname => ?_⟩⟩
    · exact length_windowResults hcolumn
    · exact isRanked_of_windowResults hsort hname (hkeys f hf kind hname partition hpartition) hcolumn

/-- `RANK() OVER (ORDER BY x)` -/
def rankByColumn : WindowOperator Unit where
  windowFunctions := [("r", ⟨"RANK", [], ⟨[], [⟨.column none "x", .asc, .default⟩], none⟩⟩)]
  partitionBy := []
  orderBy := []

theorem exists_applyWindowFunctions_rank : letI : DebugText := ⟨fun _ => "", fun _ => "", fun _ => ""⟩
    letI : FloatArithmetic := ⟨fun x _ => x, fun x _ => x, fun _ => 0, fun _ => false, fun _ => 0⟩
    ∃ rows, applyWindowFunctions (fun _ => strictSort (.panic "not a total order")) false noOperations rankByColumn
      [[[.integer 2], [.integer 1]], [[.integer 3]]] ["x"] = .ok rows := by
  let texts : DebugText := ⟨fun _ => "", fun _ => "", fun _ => ""⟩
  let arithmetic : FloatArithmetic := ⟨fun x _ => x, fun x _ => x, fun _ => 0, fun _ => false, fun _ => 0⟩
  refine (applyWindowFunctions_ranks (fun _ => isStableSort_strictSort _) false noOperations rankByColumn
    [[[.integer 2], [.integer 1]], [[.integer 3]]] ["x"] ?_).1 fun f hf => ?_
  · intro f hf kind _ partition hpartition row hrow item hitem
    obtain rfl := List.mem_singleton.mp hf
    obtain rfl := List.mem_singleton.mp hitem
    have hrows : row = [.integer 2] ∨ row = [.integer 1] ∨ row = [.integer 3] := by
      rcases List.mem_cons.mp hpartition with rfl | hpartition
      · rcases List.mem_cons.mp hrow with rfl | hrow
        · exact .inl rfl
        · exact .inr (.inl (List.mem_singleton.mp hrow))
      · obtain rfl := List.mem_singleton.mp hpartition
        exact .inr (.inr (List.mem_singleton.mp hrow))
    obtain rfl | rfl | rfl := hrows
    all_goals exact ⟨_, rfl, nofun⟩
  · obtain rfl := List.mem_singleton.mp hf
    exact ⟨.rank, rfl⟩

end WindowOperator

end Rustgresql
