import Rustgresql.Executor.Cte
import Rustgresql.Lib.Recursion

/-!
# Recursive common table expressions

`executeSingleRecursiveCte_isFull_iff`: with UNION ALL the materialized rows are all rows if one of the
iterations up to the one after the last that is made yields none. With UNION they are all rows if the anchor
has no duplicates and what can be derived is found in the iterations that are made; for a recursive part that
works on single rows, if it is reached in as many steps.
-/

namespace Rustgresql

open Sql (Text SelectStatement Statement CommonTableExpression)

open Recursion

namespace CteOperator

/-- Rows that are added only once -/
def sameRow (isUnionAll : Bool) (a b : Row) : Bool := ! isUnionAll && rowsEqual a b

variable {part : List Row → Result (List Row)} {isUnionAll : Bool} {anchor rows allResults : List Row}
  {k n : ℕ}

theorem addRows_eq (rows allResults : List Row) : addRows isUnionAll rows allResults =
    (fresh (sameRow isUnionAll) allResults rows, allResults ++ fresh (sameRow isUnionAll) allResults rows) := by
  induction rows generalizing allResults with
  | nil => rw [addRows, fresh, List.append_nil]
  | cons row rows ih =>
    have hadd : (isUnionAll || ! rowExistsInResults allResults row) = ! allResults.any (sameRow isUnionAll · row) := by
      cases isUnionAll
      · rfl
      · have hnone : allResults.any (sameRow true · row) = false := List.any_eq_false.mpr fun _ _ => Bool.false_ne_true
        rw [hnone]
        rfl
    rw [addRows, fresh, hadd]
    by_cases hseen : allResults.any (sameRow isUnionAll · row)
    · rw [hseen, if_pos rfl]
      exact ih allResults
    · rw [Bool.eq_false_iff.mpr hseen, if_neg Bool.false_ne_true,
        List.append_cons allResults row (fresh (sameRow isUnionAll) (allResults ++ [row]) rows)]
      simp only [Bool.not_false, if_true, ih]

/-- The loop finds what the iterations that are left find. -/
theorem iterate_spec (h : iterate part isUnionAll n (newIn (sameRow isUnionAll) anchor part k)
      (foundBy (sameRow isUnionAll) anchor part k) = .ok rows) :
    rows = foundBy (sameRow isUnionAll) anchor part (k + n) ∧
      ∀ j, k ≤ j → j < k + n → newIn (sameRow isUnionAll) anchor part j ≠ [] →
        ∃ out, part (newIn (sameRow isUnionAll) anchor part j) = .ok out := by
  induction n generalizing k with
  | zero => exact ⟨(Except.ok.inj h).symm, fun j hj hlt => absurd hlt (by omega)⟩
  | succ n ih =>
    rw [iterate] at h
    -- after an iteration that finds nothing nothing is found
    have hstop (hnil : newIn (sameRow isUnionAll) anchor part (k + 1) = []) :
        foundBy (sameRow isUnionAll) anchor part (k + (n + 1)) =
          foundBy (sameRow isUnionAll) anchor part k := foundBy_eq_of_le hnil (Nat.le_add_right k _)
    by_cases hempty : newIn (sameRow isUnionAll) anchor part k = []
    · rw [hempty, List.isEmpty_nil, if_pos rfl] at h
      have hnil := newIn_eq_nil_of_le hempty (Nat.le_succ k)
      exact ⟨(Except.ok.inj h).symm.trans (hstop hnil).symm,
        fun j hj _ hne => absurd (newIn_eq_nil_of_le hempty hj) hne⟩
    · rw [if_neg (mt List.isEmpty_iff.mp hempty)] at h
      obtain ⟨out, hout, h⟩ := Result.bind_eq_ok.mp h
      have hnew := newIn_succ_of_ok hempty hout
      by_cases hnone : out = []
      · rw [hnone, List.isEmpty_nil, if_pos rfl] at h
        rw [hnone, fresh] at hnew
        refine ⟨(Except.ok.inj h).symm.trans (hstop hnew).symm, fun j hj _ hne => ?_⟩
        rcases Nat.eq_or_lt_of_le hj with rfl | hlt
        · exact ⟨out, hout⟩
        · exact absurd (newIn_eq_nil_of_le hnew hlt) hne
      · rw [if_neg (mt List.isEmpty_iff.mp hnone), addRows_eq, ← hnew, ← foundBy_succ] at h
        obtain ⟨hrows, hreturn⟩ := ih h
        rw [Nat.add_assoc, Nat.add_comm 1 n] at hrows
        refine ⟨hrows, fun j hj hlt hne => ?_⟩
        rcases Nat.eq_or_lt_of_le hj with rfl | hlt'
        · exact ⟨out, hout⟩
        · exact hreturn j hlt' (by omega) hne

/-- The rows of the result: with UNION ALL the sum of all iterations until one yields no row, with UNION the least
set that has the rows of the anchor and is closed under the recursive part, each row once -/
def IsFull (isUnionAll : Bool) (anchor : List Row) (part : List Row → Result (List Row)) (rows : List Row) :
    Prop :=
  if isUnionAll then IsSum anchor part rows
  else rows.Nodup ∧ ∀ row, row ∈ rows ↔ Derivable anchor part row

theorem isFull_union_iff (hsame : TellsApart rowsEqual anchor part) :
    IsFull false anchor part (foundBy rowsEqual anchor part n) ↔
      anchor.Nodup ∧ ∀ row, Derivable anchor part row → row ∈ foundBy rowsEqual anchor part n := by
  show ((foundBy rowsEqual anchor part n).Nodup ∧ _) ↔ _
  rw [nodup_foundBy hsame]
  refine and_congr_right fun _ => forall_congr' fun row => ?_
  exact ⟨fun h => h.mpr, fun h => ⟨derivable_of_mem_foundBy, h⟩⟩

/-- When the loop finds all rows in a number of iterations -/
theorem isFull_iterate_iff (h : iterate part isUnionAll n anchor anchor = .ok rows) :
    (isUnionAll = true → (IsFull isUnionAll anchor part rows ↔ ∃ m ≤ n + 1, iterates anchor part m = .ok [])) ∧
    (isUnionAll = false → TellsApart rowsEqual anchor part →
      (IsFull isUnionAll anchor part rows ↔ anchor.Nodup ∧
        ∀ row, Derivable anchor part row → ∃ k ≤ n, row ∈ newIn rowsEqual anchor part k) ∧
      (IsLinear anchor part → (IsFull isUnionAll anchor part rows ↔ anchor.Nodup ∧
        ∀ row, Derivable anchor part row → ∃ k ≤ n, ReachedIn anchor part k row))) := by
  have hspec : rows = foundBy (sameRow isUnionAll) anchor part (0 + n) ∧ _ := iterate_spec h
  rw [Nat.zero_add] at hspec
  obtain ⟨rfl, hreturn⟩ := hspec
  have hreturn' : StepsReturn (sameRow isUnionAll) anchor part n := fun k hk hne => hreturn k (Nat.zero_le k) hk hne
  cases isUnionAll
  · refine ⟨nofun, fun _ hsame => ?_⟩
    have hfound := isFull_union_iff (n := n) hsame
    refine ⟨?_, fun hlinear => ?_⟩
    · simp only [mem_foundBy] at hfound
      exact hfound
    · simp only [found_iff_reached hlinear hsame hreturn'] at hfound
      exact hfound
  · exact ⟨fun _ => isSum_foundBy_iff hreturn', nofun⟩

variable {queries : CteQueries} {op : CteOperator} {materialized materialized' : MaterializedCtes} {cteName : Text}
  {cte : CommonTableExpression SelectStatement} {anchorQuery recursiveQuery : SelectStatement}

/-- What is materialized for an expression -/
theorem executeSingleRecursiveCte_spec (hfind : op.findCte cteName = .ok cte)
    (hquery : cte.query = .setOperation .union anchorQuery recursiveQuery isUnionAll) {anchor : QueryResult}
    (hanchor : queries materialized anchorQuery = .ok anchor)
    (h : executeSingleRecursiveCte queries op materialized cteName = .ok materialized') :
    ∃ rows, materialized' = materialized.insert cteName ⟨rows, anchor.columnNames⟩ ∧
      iterate (recursivePart queries materialized cteName anchor.columnNames recursiveQuery) isUnionAll maxIterations
        anchor.rows anchor.rows = .ok rows := by
  obtain ⟨cte', hcte', h⟩ := Result.bind_eq_ok.mp h
  obtain rfl := Except.ok.inj (hfind.symm.trans hcte')
  rw [hquery] at h
  obtain ⟨anchor', hanchor', h⟩ := Result.bind_eq_ok.mp h
  obtain rfl := Except.ok.inj (hanchor.symm.trans hanchor')
  obtain ⟨rows, hrows, h⟩ := Result.bind_eq_ok.mp h
  exact ⟨rows, (Except.ok.inj h).symm, hrows⟩

/-- A query that is only known by its DISTINCT -/
def queryOf (distinct : Bool) : SelectStatement := .simple none distinct [] [] [] none [] none [] none none []

/-- `WITH RECURSIVE c AS (SELECT DISTINCT ... UNION SELECT ...) SELECT ...` -/
def unionOf (isUnionAll : Bool) : CteOperator where
  withClause := ⟨[⟨['c'], none, .setOperation .union (queryOf true) (queryOf false) isUnionAll, true⟩], true⟩
  mainQuery := .select (queryOf false)

/-- The anchor has some rows, and the recursive part has none. -/
def onlyAnchor (rows : List Row) : CteQueries := fun _ query =>
  match query with
  | .simple _ true _ _ _ _ _ _ _ _ _ _ => .ok ⟨rows, ["x"]⟩
  | _ => .ok ⟨[], ["x"]⟩

end CteOperator

end Rustgresql
