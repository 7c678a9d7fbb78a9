import Rustgresql.Executor.Window.Results

/-!
# LAG and LEAD

`applyWindowFunctions_offsets`: at every place of a sorted partition LAG and LEAD return the value of their
argument a constant number of places earlier or later, and NULL if no row stands there.
-/

namespace Rustgresql

open ExpressionEvaluator StableSort

namespace WindowOperator

variable {S : Type}

inductive OffsetFunction
  | lag | lead
  deriving DecidableEq

def OffsetFunction.text : OffsetFunction → String
  | lag => "LAG"
  | lead => "LEAD"

/-- The place whose value a function with the offset `n` returns at the place `k` -/
def OffsetFunction.place (n k : ℕ) : OffsetFunction → Option ℕ
  | lag => if n ≤ k then some (k - n) else none
  | lead => some (k + n)

/-- The arguments of a function are an expression and a positive constant, which is one if it is left out. -/
def HasOffset (args : List (Expression S)) (e : Expression S) (n : ℕ) : Prop :=
  (args = [e] ∧ n = 1) ∨ (args = [e, .value (.integer n)] ∧ 0 < n ∧ n < 2 ^ 63)

/-- A value is that of an expression on the row at a place, or NULL if there is none. -/
def IsValueAt (ops : Operations S) (columnNames : List String) (e : Expression S) (sorted : List (Row × ℕ))
    (place : Option ℕ) (v : Value) : Prop :=
  match place.bind (sorted[·]?) with
  | some p => evaluate ops (sortingContext columnNames p.1) e = .ok v
  | none => v = .null

section Offset

variable {args : List (Expression S)} {e : Expression S} {n : ℕ}

theorem HasOffset.pos (h : HasOffset args e n) : 0 < n := by
  obtain ⟨-, rfl⟩ | ⟨-, hpos, -⟩ := h
  · exact Nat.one_pos
  · exact hpos

theorem HasOffset.rowOffset_eq (h : HasOffset args e n) (ops : Operations S) (context : Context) (function : String) :
    rowOffset ops context function args = .ok n := by
  obtain ⟨rfl, rfl⟩ | ⟨rfl, hpos, hlt⟩ := h
  · rfl
  · have hnotNonpositive : ¬ (n : ℤ) ≤ 0 := by omega
    have hsize : asUsize n = n := by
      rw [asUsize, Usize.size, Int.emod_eq_of_lt (by omega) (by omega), Int.toNat_natCast]
    have hvalue : evaluate ops context (.value (.integer n)) = .ok (.integer n) := by rw [evaluate]
    refine Result.bind_eq_ok.mpr ⟨_, hvalue, ?_⟩
    show (if (n : ℤ) ≤ 0 then _ else _) = _
    rw [if_neg hnotNonpositive, hsize]
    rfl

end Offset

/-! ## A step -/

section Steps

variable {ops : Operations S} {columnNames : List String} {windowFunc : WindowFunction (Expression S)}
  {sorted : List (Row × ℕ)} {e : Expression S} {n k : ℕ} {kind : OffsetFunction}

/-- The state of a function before the row at the place `k`. LAG has the values of the rows before. -/
def OffsetState (ops : Operations S) (columnNames : List String) (e : Expression S) (sorted : List (Row × ℕ)) (k : ℕ) :
    OffsetFunction → WindowFunctionState → Prop
  | .lag, state => ∃ buffer, state = .lag buffer ∧ buffer.length = k ∧
      ∀ j v, buffer[j]? = some v → IsValueAt ops columnNames e sorted (some j) v
  | .lead, _ => True

theorem offsetState_start (hname : ops.toUppercase windowFunc.name = kind.text) :
    OffsetState ops columnNames e sorted 0 kind (initializeWindowFunction ops windowFunc) := by
  cases kind with
  | lag =>
    unfold initializeWindowFunction
    rw [hname]
    exact ⟨[], rfl, rfl, fun j v hv => nomatch hv⟩
  | lead => trivial

/-- The value of a row is added behind those of the rows before. -/
theorem offsetState_append {buffer : List Value} {p : Row × ℕ} {v : Value} (hlength : buffer.length = k)
    (hbuffer : ∀ j v, buffer[j]? = some v → IsValueAt ops columnNames e sorted (some j) v) (hp : sorted[k]? = some p)
    (hv : evaluate ops (sortingContext columnNames p.1) e = .ok v) :
    OffsetState ops columnNames e sorted (k + 1) .lag (.lag (buffer ++ [v])) := by
  refine ⟨buffer ++ [v], rfl, by rw [List.length_append, hlength, List.length_singleton], fun j w hw => ?_⟩
  rw [List.getElem?_append] at hw
  split_ifs at hw with hj
  · exact hbuffer j w hw
  · obtain ⟨hlast, heq⟩ := List.getElem?_eq_some_iff.mp hw
    rw [List.length_singleton] at hlast
    have hplace : j = k := by omega
    rw [List.getElem_singleton] at heq
    subst hplace heq
    show match sorted[j]? with
      | some p => evaluate ops (sortingContext columnNames p.1) e = .ok v
      | none => v = .null
    rw [hp]
    exact hv

variable [DebugText] [FloatArithmetic] {overflowChecks : Bool}

theorem evaluate_lag (hname : ops.toUppercase windowFunc.name = "LAG") (hargs : HasOffset windowFunc.args e n)
    (partition : SortedPartition) (row : Row) (buffer : List Value) :
    evaluateWindowFunctionWithOrder overflowChecks ops windowFunc partition k row (.lag buffer) = do
      let currentValue ← evaluate ops (sortingContext partition.columnNames row) e
      return (if k < n then .null else (buffer[k - n]?).getD .null, .lag (buffer ++ [currentValue])) := by
  have hoffset := hargs.rowOffset_eq ops (sortingContext partition.columnNames row) "LAG"
  unfold evaluateWindowFunctionWithOrder evaluateWindowFunction evaluateLag
  rw [hname]
  obtain ⟨hargs, -⟩ | ⟨hargs, -⟩ := hargs
  all_goals
    rw [hargs] at hoffset
    simp only [hargs, hoffset]
    rfl

theorem evaluate_lead (hname : ops.toUppercase windowFunc.name = "LEAD") (hargs : HasOffset windowFunc.args e n)
    (partition : SortedPartition) (row : Row) (state : WindowFunctionState) :
    evaluateWindowFunctionWithOrder overflowChecks ops windowFunc partition k row state =
      match partition.rows[k + n]? with
      | none => .ok (.null, state)
      | some targetRow => do
        let targetValue ← evaluate ops (sortingContext partition.columnNames targetRow) e
        return (targetValue, state) := by
  have hoffset := hargs.rowOffset_eq ops (sortingContext partition.columnNames row) "LEAD"
  unfold evaluateWindowFunctionWithOrder evaluateWindowFunction evaluateLead
  rw [hname]
  obtain ⟨hargs, -⟩ | ⟨hargs, -⟩ := hargs
  all_goals
    rw [hargs] at hoffset
    simp only [hargs, hoffset]
    rfl

theorem stepsKeep_offset (hname : ops.toUppercase windowFunc.name = kind.text)
    (hargs : HasOffset windowFunc.args e n) :
    StepsKeep overflowChecks ops windowFunc ⟨sorted.map Prod.fst, columnNames⟩ sorted
      (fun k state => OffsetState ops columnNames e sorted k kind state)
      (fun k v => IsValueAt ops columnNames e sorted (kind.place n k) v) := by
  intro k p state v state' hp hstate h
  cases kind with
  | lag =>
    obtain ⟨buffer, rfl, hlength, hbuffer⟩ := hstate
    rw [evaluate_lag hname hargs] at h
    obtain ⟨currentValue, hcurrent, h⟩ := Result.bind_eq_ok.mp h
    obtain ⟨rfl, rfl⟩ := Prod.mk.inj (Except.ok.inj h)
    refine ⟨?_, offsetState_append hlength hbuffer hp hcurrent⟩
    show IsValueAt ops columnNames e sorted (if n ≤ k then some (k - n) else none) _
    by_cases hfirst : k < n
    · rw [if_pos hfirst, if_neg (by omega)]
      rfl
    · -- the offset is positive, so that the row stands before this one
      have hpos := hargs.pos
      have hlt : k - n < buffer.length := by omega
      rw [if_neg hfirst, if_pos (by omega), List.getElem?_eq_getElem hlt, Option.getD_some]
      exact hbuffer _ _ (List.getElem?_eq_getElem hlt)
  | lead =>
    refine ⟨?_, trivial⟩
    rw [evaluate_lead hname hargs] at h
    show match sorted[k + n]? with
      | some p => evaluate ops (sortingContext columnNames p.1) e = .ok v
      | none => v = .null
    rw [List.getElem?_map] at h
    rcases hrow : sorted[k + n]? with - | q
    · rw [hrow] at h
      exact (Prod.mk.inj (Except.ok.inj h)).1.symm
    · rw [hrow] at h
      obtain ⟨targetValue, htarget, h⟩ := Result.bind_eq_ok.mp h
      obtain ⟨rfl, -⟩ := Prod.mk.inj (Except.ok.inj h)
      exact htarget

theorem stepsReturn_offset (overflowChecks : Bool) (hname : ops.toUppercase windowFunc.name = kind.text)
    (hargs : HasOffset windowFunc.args e n)
    (hvalues : ∀ p ∈ sorted, ∃ v, evaluate ops (sortingContext columnNames p.1) e = .ok v) :
    StepsReturn overflowChecks ops windowFunc ⟨sorted.map Prod.fst, columnNames⟩ sorted
      (fun k state => OffsetState ops columnNames e sorted k kind state) := by
  intro k p state hp hstate
  cases kind with
  | lag =>
    obtain ⟨buffer, rfl, -, -⟩ := hstate
    rw [evaluate_lag hname hargs]
    obtain ⟨v, hv⟩ := hvalues p (List.mem_of_getElem? hp)
    exact ⟨_, _, Result.bind_eq_ok.mpr ⟨v, hv, rfl⟩⟩
  | lead =>
    rw [evaluate_lead hname hargs]
    rcases hrow : sorted[k + n]? with - | q
    · exact ⟨_, _, by rw [List.getElem?_map, hrow]; rfl⟩
    · obtain ⟨v, hv⟩ := hvalues q (List.mem_of_getElem? hrow)
      refine ⟨v, state, ?_⟩
      rw [List.getElem?_map, hrow]
      exact Result.bind_eq_ok.mpr ⟨v, hv, rfl⟩

end Steps

/-! ## The partitions -/

/-- The values of a function on a partition, each at the place of its row -/
def IsShifted (sort : SortBy) (ops : Operations S) (columnNames : List String) (f : WindowFunction (Expression S))
    (partition : List Row) (kind : OffsetFunction) (e : Expression S) (n : ℕ) (column : List Value) : Prop :=
  ∃ sorted, sortPartition sort ops columnNames f.windowClause.orderBy partition = .ok sorted ∧
    sorted.Perm partition.zipIdx ∧
    (IsOrderOn (rowOrder ops columnNames f) partition →
      StablySorted (fun a b => rowOrder ops columnNames f a.1 b.1) partition.zipIdx sorted) ∧
    ∀ k row i, sorted[k]? = some (row, i) →
      ∃ v, column[i]? = some v ∧ IsValueAt ops columnNames e sorted (kind.place n k) v

section Partition

variable [DebugText] [FloatArithmetic] {sort : SortBy} {overflowChecks : Bool} {ops : Operations S}
  {columnNames : List String} {windowFunc : WindowFunction (Expression S)} {partition : List Row}
  {e : Expression S} {n : ℕ} {kind : OffsetFunction}

theorem isShifted_of_windowResults (hsort : ∀ α, IsStableSort (sort α))
    (hname : ops.toUppercase windowFunc.name = kind.text) (hargs : HasOffset windowFunc.args e n)
    {column : List Value}
    (h : windowResults sort overflowChecks ops columnNames windowFunc partition = .ok column) :
    IsShifted sort ops columnNames windowFunc partition kind e n column := by
  obtain ⟨sorted, hsorted, hvalues⟩ := windowResults_spec hsort h
  refine ⟨sorted, hsorted, sortPartition_perm hsort hsorted, fun horder => ?_, fun k row i hk => ?_⟩
  · obtain ⟨sorted', hsorted', hstable⟩ := exists_sortPartition hsort horder
    obtain rfl := Except.ok.inj (hsorted.symm.trans hsorted')
    exact hstable
  · exact hvalues _ _ (offsetState_start hname) (stepsKeep_offset hname hargs) k row i hk

/-- A function returns on a partition that can be sorted, if its argument has a value on every row. -/
theorem exists_windowResults_offset (kind : OffsetFunction) (hsort : ∀ α, IsStableSort (sort α))
    (hname : ops.toUppercase windowFunc.name = kind.text) (hargs : HasOffset windowFunc.args e n)
    (horder : IsOrderOn (rowOrder ops columnNames windowFunc) partition)
    (hvalues : ∀ row ∈ partition, ∃ v, evaluate ops (sortingContext columnNames row) e = .ok v) :
    ∃ column, windowResults sort overflowChecks ops columnNames windowFunc partition = .ok column := by
  obtain ⟨sorted, hsorted, hstable⟩ := exists_sortPartition hsort horder
  have hmem : ∀ p ∈ sorted, ∃ v, evaluate ops (sortingContext columnNames p.1) e = .ok v := fun p hp =>
    hvalues p.1 (List.fst_mem_of_mem_zipIdx (hstable.perm.subset hp))
  obtain ⟨values, hvalues⟩ := exists_evaluateRows (stepsReturn_offset overflowChecks hname hargs hmem)
    (stepsKeep_offset hname hargs) (offsetState_start hname)
  exact ⟨_, Result.bind_eq_ok.mpr ⟨sorted, hsorted, Result.bind_eq_ok.mpr ⟨values, hvalues, rfl⟩⟩⟩

end Partition

/-- LAG and LEAD with a constant offset return, if their argument has a value on every row of partitions that
can be sorted. Every row comes out once, with the values of the rows that stand so far from it behind its own. -/
theorem applyWindowFunctions_offsets [DebugText] [FloatArithmetic] {sort : SortBy} (hsort : ∀ α, IsStableSort (sort α))
    (overflowChecks : Bool) (ops : Operations S) (op : WindowOperator S) (partitions : List (List Row))
    (columnNames : List String) :
    ((∀ f ∈ op.windowFunctions, ∃ (kind : OffsetFunction) (e : Expression S) (n : ℕ),
        ops.toUppercase f.2.name = kind.text ∧ HasOffset f.2.args e n ∧ ∀ partition ∈ partitions,
          IsOrderOn (rowOrder ops columnNames f.2) partition ∧
            ∀ row ∈ partition, ∃ v, evaluate ops (sortingContext columnNames row) e = .ok v) →
      ∃ rows, applyWindowFunctions sort overflowChecks ops op partitions columnNames = .ok rows) ∧
    ∀ rows, applyWindowFunctions sort overflowChecks ops op partitions columnNames = .ok rows →
      ∃ outputs, rows = outputs.flatten ∧ List.Forall₂ (fun partition output => ∃ columns,
        output = (partition.zipIdx.map fun p => p.1 ++ columns.map fun column => column.getD p.2 .null) ∧
        List.Forall₂ (fun f column => column.length = partition.length ∧
          ∀ (kind : OffsetFunction) (e : Expression S) (n : ℕ), ops.toUppercase f.2.name = kind.text →
            HasOffset f.2.args e n → IsShifted sort ops columnNames f.2 partition kind e n column)
          op.windowFunctions columns) partitions outputs := by
  constructor
  · intro hoffsets
    refine exists_applyWindowFunctions fun f hf partition hpartition => ?_
    obtain ⟨kind, e, n, hname, hargs, hpartitions⟩ := hoffsets f hf
    obtain ⟨horder, hvalues⟩ := hpartitions partition hpartition
    exact exists_windowResults_offset _ hsort hname hargs horder hvalues
  · intro rows h
    obtain ⟨outputs, hrows, houtputs⟩ := outputs_of_applyWindowFunctions h
    refine ⟨outputs, hrows, houtputs.imp fun partition output ⟨_, columns, houtput, hcolumns⟩ => ?_⟩
    refine ⟨columns, houtput, hcolumns.imp fun f column ⟨_, hcolumn⟩ => ⟨?_, fun kind e n hname hargs => ?_⟩⟩
    · exact length_windowResults hcolumn
    · exact isShifted_of_windowResults hsort hname hargs hcolumn

/-- `LAG(x, 2) OVER ()` -/
def lagByTwo : WindowOperator Unit where
  windowFunctions := [("l", ⟨"LAG", [.column none "x", .value (.integer 2)], ⟨[], [], none⟩⟩)]
  partitionBy := []
  orderBy := []

theorem exists_applyWindowFunctions_lag : letI : DebugText := ⟨fun _ => "", fun _ => "", fun _ => ""⟩
    letI : FloatArithmetic := ⟨fun x _ => x, fun x _ => x, fun _ => 0, fun _ => false, fun _ => 0⟩
    ∃ rows, applyWindowFunctions (fun _ => strictSort (.panic "not a total order")) false noOperations lagByTwo
      [[[.integer 2], [.integer 1], [.integer 3]]] ["x"] = .ok rows := by
  let texts : DebugText := ⟨fun _ => "", fun _ => "", fun _ => ""⟩
  let arithmetic : FloatArithmetic := ⟨fun x _ => x, fun x _ => x, fun _ => 0, fun _ => false, fun _ => 0⟩
  refine (applyWindowFunctions_offsets (fun _ => isStableSort_strictSort _) false noOperations lagByTwo
    [[[.integer 2], [.integer 1], [.integer 3]]] ["x"]).1 fun f hf => ?_
  obtain rfl := List.mem_singleton.mp hf
  refine ⟨.lag, .column none "x", 2, rfl, .inr ⟨rfl, by decide, by decide⟩, fun partition hpartition => ⟨?_, ?_⟩⟩
  · exact ⟨fun _ _ _ _ => rfl, fun _ _ _ _ _ _ _ h => h⟩
  · obtain rfl := List.mem_singleton.mp hpartition
    refine List.forall_mem_cons.mpr ⟨⟨_, rfl⟩, List.forall_mem_cons.mpr ⟨⟨_, rfl⟩, List.forall_mem_cons.mpr ⟨⟨_, rfl⟩, ?_⟩⟩⟩
    exact fun row hrow => nomatch hrow

end WindowOperator

end Rustgresql
