import Rustgresql.Executor.Expression
import Rustgresql.Executor.Operators
import Rustgresql.Lib.Joins

/-!
# Nested-loop joins

`execute_spec`: if the join condition can be evaluated on every pair of rows, the join operator returns the
bag of rows that the type of the join asks for.
-/

namespace Rustgresql

open Sql (JoinType)

open ExpressionEvaluator (Operations evaluate)

/-- Join operator -/
structure JoinOperator (S : Type) where
  condition : Option (Expression S)
  joinType : JoinType
  leftAlias : Option String
  rightAlias : Option String

namespace JoinOperator

variable {S : Type}

/-- A name that is already qualified from a previous JOIN is preserved. -/
def qualify (tableName columnName : String) : String :=
  if '.' ∈ columnName.toList then columnName else tableName ++ "." ++ columnName

def leftTableName (op : JoinOperator S) : String := op.leftAlias.getD "left"

def rightTableName (op : JoinOperator S) : String := op.rightAlias.getD "right"

def qualifiedNames (op : JoinOperator S) (leftColumns rightColumns : List String) : List String :=
  leftColumns.map (qualify op.leftTableName) ++ rightColumns.map (qualify op.rightTableName)

/-- Add a value of the left row under its qualified name, and under its own if that is not present. -/
def addLeft (tableName : String) (columns : HashMap String Value) (p : String × Value) :
    HashMap String Value :=
  let columns := columns.insert (qualify tableName p.1) p.2
  if p.1 ∈ columns then columns else columns.insert p.1 p.2

/-- Add a value of the right row under its qualified name. -/
def addRight (tableName : String) (columns : HashMap String Value) (p : String × Value) :
    HashMap String Value :=
  columns.insert (qualify tableName p.1) p.2

/-- The context in which the join condition is evaluated. -/
def joinContext (op : JoinOperator S) (leftRow rightRow : Row) (leftColumns rightColumns : List String) :
    ExpressionEvaluator.Context where
  columns := (rightColumns.zip rightRow).foldl (addRight op.rightTableName)
    ((leftColumns.zip leftRow).foldl (addLeft op.leftTableName) ∅)
  rowData := none
  leftRow := some leftRow
  rightRow := some rightRow
  leftColumns := some leftColumns
  rightColumns := some rightColumns
  subqueryContext := none
  havingAggregates := none

/-- Non-boolean conditions are false. -/
def conditionHolds : Value → Bool
  | .boolean b => b
  | _ => false

/-- Evaluate join condition for two rows -/
def evaluateJoinCondition (ops : Operations S) (op : JoinOperator S) (leftColumns rightColumns : List String)
    (leftRow rightRow : Row) : Result Bool :=
  match op.condition with
  | some condition =>
    (evaluate ops (op.joinContext leftRow rightRow leftColumns rightColumns) condition).map conditionHolds
  | none => .ok true

/-- The rows that have been joined, and which rows have been matched. -/
structure Matches where
  joinedRows : List Row
  leftMatched : List Bool
  rightMatched : List Bool

/-- One pair of rows. -/
def matchPair (condition : Row → Row → Result Bool) (left : Row × ℕ) (m : Matches) (right : Row × ℕ) :
    Result Matches := do
  if ← condition left.1 right.1 then
    return ⟨m.joinedRows ++ [left.1 ++ right.1], m.leftMatched.set left.2 true, m.rightMatched.set right.2 true⟩
  else return m

/-- Find matching rows. -/
def matchRows (condition : Row → Row → Result Bool) (leftRows rightRows : List Row) : Result Matches :=
  leftRows.zipIdx.foldlM (fun m left => rightRows.zipIdx.foldlM (matchPair condition left) m)
    ⟨[], List.replicate leftRows.length false, List.replicate rightRows.length false⟩

/-- The rows that have not been matched. -/
def unmatched (rows : List Row) (matched : List Bool) : List Row :=
  ((rows.zip matched).filter fun p => !p.2).map Prod.fst

def nulls (n : ℕ) : Row := List.replicate n .null

/-- Execute inner, left, right, and full joins -/
def executeOuterJoins (ops : Operations S) (op : JoinOperator S) (left right : QueryResult) :
    Result (List Row × List String) := do
  let m ← matchRows (op.evaluateJoinCondition ops left.columnNames right.columnNames) left.rows right.rows
  let leftUnmatched := (unmatched left.rows m.leftMatched).map (· ++ nulls right.columnNames.length)
  let rightUnmatched := (unmatched right.rows m.rightMatched).map (nulls left.columnNames.length ++ ·)
  let joinedRows := match op.joinType with
    | .left => m.joinedRows ++ leftUnmatched
    | .right => m.joinedRows ++ rightUnmatched
    | .full => m.joinedRows ++ leftUnmatched ++ rightUnmatched
    | _ => m.joinedRows
  return (joinedRows, op.qualifiedNames left.columnNames right.columnNames)

/-- Whether some row meets a condition. The first that does ends the search. -/
def hasMatch (condition : Row → Result Bool) : List Row → Result Bool
  | [] => .ok false
  | row :: rows => do
    if ← condition row then return true
    hasMatch condition rows

/-- The rows that are to be kept. -/
def keepRows (keep : Row → Result Bool) : List Row → Result (List Row)
  | [] => .ok []
  | row :: rows => do
    let kept ← keep row
    let rest ← keepRows keep rows
    return if kept then row :: rest else rest

/-- Execute semi-joins (EXISTS/IN semantics) -/
def executeSemiJoin (ops : Operations S) (op : JoinOperator S) (left right : QueryResult) :
    Result (List Row × List String) := do
  let condition := op.evaluateJoinCondition ops left.columnNames right.columnNames
  match op.joinType with
  | .leftSemi =>
    let rows ← keepRows (fun leftRow => hasMatch (condition leftRow) right.rows) left.rows
    return (rows, left.columnNames)
  | .rightSemi =>
    let rows ← keepRows (fun rightRow => hasMatch (condition · rightRow) left.rows) right.rows
    return (rows, right.columnNames)
  | _ => throw (.err (.internal "Invalid semi-join type"))

/-- Execute anti-joins (NOT EXISTS/NOT IN semantics) -/
def executeAntiJoin (ops : Operations S) (op : JoinOperator S) (left right : QueryResult) :
    Result (List Row × List String) := do
  let condition := op.evaluateJoinCondition ops left.columnNames right.columnNames
  match op.joinType with
  | .leftAnti =>
    let rows ← keepRows (fun leftRow => (!·) <$> hasMatch (condition leftRow) right.rows) left.rows
    return (rows, left.columnNames)
  | .rightAnti =>
    let rows ← keepRows (fun rightRow => (!·) <$> hasMatch (condition · rightRow) left.rows) right.rows
    return (rows, right.columnNames)
  | _ => throw (.err (.internal "Invalid anti-join type"))

/-- The rows and columns of a join of its type. -/
def executeByType (ops : Operations S) (op : JoinOperator S) (left right : QueryResult) :
    Result (List Row × List String) :=
  match op.joinType with
  | .inner | .left | .right | .full | .cross => op.executeOuterJoins ops left right
  | .leftSemi | .rightSemi => op.executeSemiJoin ops left right
  | .leftAnti | .rightAnti => op.executeAntiJoin ops left right

def execute (ops : Operations S) (op : JoinOperator S) (left right : Result QueryResult) :
    Result QueryResult := do
  let leftResult ← left
  let rightResult ← right
  let (rows, columnNames) ← op.executeByType ops leftResult rightResult
  return { rows, columnNames }

/-! ## The loops -/

section Loops

variable {condition : Row → Row → Result Bool} {M : Row → Row → Bool}

/-- One pair of rows, when it is known whether they match. -/
def addPair (M : Row → Row → Bool) (left : Row × ℕ) (m : Matches) (right : Row × ℕ) : Matches :=
  if M left.1 right.1 then
    ⟨m.joinedRows ++ [left.1 ++ right.1], m.leftMatched.set left.2 true, m.rightMatched.set right.2 true⟩
  else m

theorem matchPair_of_ok {left right : Row × ℕ} (h : condition left.1 right.1 = .ok (M left.1 right.1))
    (m : Matches) : matchPair condition left m right = .ok (addPair M left m right) := by
  rw [matchPair, h, addPair]
  cases M left.1 right.1 <;> rfl

/-- The rows on the right before those that are still to be compared with a left row are done. -/
theorem foldl_addPair (left : Row) (i : ℕ) (rest : List Row) (rows : List Row)
    (leftMatched done flags : List Bool) (hflags : flags.length = rest.length) :
    (rest.zipIdx done.length).foldl (addPair M (left, i)) ⟨rows, leftMatched, done ++ flags⟩ =
      ⟨rows ++ (rest.filter (M left)).map (left ++ ·),
        if rest.any (M left) then leftMatched.set i true else leftMatched,
        done ++ List.zipWith (fun flag right => flag || M left right) flags rest⟩ := by
  induction rest generalizing rows leftMatched done flags with
  | nil =>
    obtain rfl := List.length_eq_zero_iff.mp hflags
    simp
  | cons right rest ih =>
    obtain ⟨flag, flags, rfl⟩ := List.exists_cons_of_length_eq_add_one hflags
    have hflags' : flags.length = rest.length := by simpa using hflags
    rw [List.zipIdx_cons, List.foldl_cons]
    by_cases hmatch : M left right = true
    · have hstep : addPair M (left, i) ⟨rows, leftMatched, done ++ flag :: flags⟩ (right, done.length) =
          ⟨rows ++ [left ++ right], leftMatched.set i true, (done ++ [true]) ++ flags⟩ := by
        simp [addPair, hmatch]
      have hnext := ih (rows ++ [left ++ right]) (leftMatched.set i true) (done ++ [true]) flags hflags'
      rw [List.length_append, List.length_singleton] at hnext
      rw [hstep, hnext]
      simp [hmatch]
    · have hstep : addPair M (left, i) ⟨rows, leftMatched, done ++ flag :: flags⟩ (right, done.length) =
          ⟨rows, leftMatched, (done ++ [flag]) ++ flags⟩ := by
        simp [addPair, hmatch]
      have hnext := ih rows leftMatched (done ++ [flag]) flags hflags'
      rw [List.length_append, List.length_singleton] at hnext
      rw [hstep, hnext]
      simp [hmatch]

/-- The rows on the left before those that are still to be compared are done. -/
theorem foldl_foldl_addPair (rightRows rest : List Row) (rows : List Row) (done flags : List Bool)
    (hflags : flags.length = rightRows.length) :
    (rest.zipIdx done.length).foldl (fun m left => rightRows.zipIdx.foldl (addPair M left) m)
        ⟨rows, done ++ List.replicate rest.length false, flags⟩ =
      ⟨rows ++ rest.flatMap fun left => (rightRows.filter (M left)).map (left ++ ·),
        done ++ rest.map fun left => rightRows.any (M left),
        List.zipWith (fun flag right => flag || rest.any (M · right)) flags rightRows⟩ := by
  induction rest generalizing rows done flags with
  | nil =>
    have hkept : List.zipWith (fun flag _ => flag) flags rightRows = flags :=
      List.ext_getElem (by simp [hflags]) fun i _ _ => by simp
    simp [hkept]
  | cons left rest ih =>
    have hmatched : (if rightRows.any (M left) then (done ++ List.replicate (rest.length + 1) false).set
        done.length true else done ++ List.replicate (rest.length + 1) false) =
          (done ++ [rightRows.any (M left)]) ++ List.replicate rest.length false := by
      cases rightRows.any (M left) <;> simp [List.replicate_succ]
    have hinner := foldl_addPair (M := M) left done.length rightRows rows
      (done ++ List.replicate (rest.length + 1) false) [] flags hflags
    rw [hmatched, List.nil_append, List.nil_append, List.length_nil] at hinner
    have hnext := ih (rows ++ (rightRows.filter (M left)).map (left ++ ·))
      (done ++ [rightRows.any (M left)])
      (List.zipWith (fun flag right => flag || M left right) flags rightRows) (by simp [hflags])
    rw [List.length_append, List.length_singleton] at hnext
    have htwice : List.zipWith (fun flag right => flag || rest.any (M · right))
        (List.zipWith (fun flag right => flag || M left right) flags rightRows) rightRows =
          List.zipWith (fun flag right => flag || (left :: rest).any (M · right)) flags rightRows :=
      List.ext_getElem (by simp [hflags]) fun i _ _ => by simp [Bool.or_assoc]
    rw [List.zipIdx_cons, List.foldl_cons, List.length_cons]
    show (rest.zipIdx (done.length + 1)).foldl _ (rightRows.zipIdx.foldl (addPair M (left, done.length))
      ⟨rows, done ++ List.replicate (rest.length + 1) false, flags⟩) = _
    rw [hinner, hnext, htwice]
    simp

/-- The pairs that match are joined, and the rows of these pairs are marked. -/
theorem matchRows_of_ok {leftRows rightRows : List Row}
    (h : ∀ left ∈ leftRows, ∀ right ∈ rightRows, condition left right = .ok (M left right)) :
    matchRows condition leftRows rightRows =
      .ok ⟨leftRows.flatMap fun left => (rightRows.filter (M left)).map (left ++ ·),
        leftRows.map fun left => rightRows.any (M left),
        rightRows.map fun right => leftRows.any (M · right)⟩ := by
  have hinner : ∀ left ∈ leftRows.zipIdx, ∀ m, rightRows.zipIdx.foldlM (matchPair condition left) m =
      .ok (rightRows.zipIdx.foldl (addPair M left) m) := by
    intro left hleft m
    refine Result.foldlM_eq_ok (fun right hright m => matchPair_of_ok ?_ m) m
    exact h _ (List.fst_mem_of_mem_zipIdx hleft) _ (List.fst_mem_of_mem_zipIdx hright)
  have hrows := foldl_foldl_addPair (M := M) rightRows leftRows [] []
    (List.replicate rightRows.length false) (by simp)
  have hflags : List.zipWith (fun flag right => flag || leftRows.any (M · right))
      (List.replicate rightRows.length false) rightRows =
        rightRows.map fun right => leftRows.any (M · right) :=
    List.ext_getElem (by simp) fun i _ _ => by simp
  rw [matchRows, Result.foldlM_eq_ok hinner]
  rw [hflags] at hrows
  exact congrArg Except.ok hrows

theorem unmatched_map (rows : List Row) (p : Row → Bool) :
    unmatched rows (rows.map p) = rows.filter fun row => !p row := by
  induction rows with
  | nil => rfl
  | cons row rows ih =>
    unfold unmatched at ih ⊢
    rw [List.map_cons, List.zip_cons_cons, List.filter_cons, List.filter_cons, apply_ite (List.map _),
      List.map_cons, ih]

theorem hasMatch_of_ok {condition : Row → Result Bool} {p : Row → Bool} {rows : List Row}
    (h : ∀ row ∈ rows, condition row = .ok (p row)) : hasMatch condition rows = .ok (rows.any p) := by
  induction rows with
  | nil => rfl
  | cons row rows ih =>
    obtain ⟨hrow, hrows⟩ := List.forall_mem_cons.mp h
    rw [hasMatch, hrow, List.any_cons]
    cases hp : p row
    · exact ih hrows
    · rfl

theorem keepRows_of_ok {keep : Row → Result Bool} {p : Row → Bool} {rows : List Row}
    (h : ∀ row ∈ rows, keep row = .ok (p row)) : keepRows keep rows = .ok (rows.filter p) := by
  induction rows with
  | nil => rfl
  | cons row rows ih =>
    obtain ⟨hrow, hrows⟩ := List.forall_mem_cons.mp h
    rw [keepRows, hrow, ih hrows, List.filter_cons]
    rfl

/-- A condition that cannot be evaluated does not hold. -/
def holds : Result Bool → Bool
  | .ok b => b
  | .error _ => false

theorem any_of_hasMatch {condition : Row → Result Bool} {rows : List Row} {b : Bool}
    (h : hasMatch condition rows = .ok b) : b = rows.any fun row => holds (condition row) := by
  induction rows with
  | nil => exact (Except.ok.inj h).symm
  | cons row rows ih =>
    obtain ⟨found, hrow, hrest⟩ := Result.bind_eq_ok.mp h
    rw [List.any_cons, hrow]
    cases found
    · exact ih hrest
    · exact (Except.ok.inj hrest).symm

theorem filter_of_keepRows {keep : Row → Result Bool} {p : Row → Bool} {rows kept : List Row}
    (h : keepRows keep rows = .ok kept) (hp : ∀ row ∈ rows, ∀ b, keep row = .ok b → b = p row) :
    kept = rows.filter p := by
  induction rows generalizing kept with
  | nil => exact (Except.ok.inj h).symm
  | cons row rows ih =>
    obtain ⟨hrow, hrows⟩ := List.forall_mem_cons.mp hp
    obtain ⟨b, hb, h⟩ := Result.bind_eq_ok.mp h
    obtain ⟨rest, hrest, h⟩ := Result.bind_eq_ok.mp h
    obtain rfl := Except.ok.inj h
    rw [List.filter_cons, ← hrow b hb, ← ih hrest hrows]

/-- All rows have been tested if the loop succeeds. -/
theorem ok_of_keepRows {keep : Row → Result Bool} {rows kept : List Row} (h : keepRows keep rows = .ok kept) :
    ∀ row ∈ rows, ∃ b, keep row = .ok b := by
  induction rows generalizing kept with
  | nil => nofun
  | cons row rows ih =>
    obtain ⟨b, hb, h⟩ := Result.bind_eq_ok.mp h
    obtain ⟨rest, hrest, -⟩ := Result.bind_eq_ok.mp h
    exact List.forall_mem_cons.mpr ⟨⟨b, hb⟩, ih hrest⟩

end Loops

/-! ## The joins -/

/-- Whether the join condition holds for two rows. -/
def pairMatches (ops : Operations S) (op : JoinOperator S) (left right : QueryResult)
    (leftRow rightRow : Row) : Bool :=
  holds (op.evaluateJoinCondition ops left.columnNames right.columnNames leftRow rightRow)

/-- The bag of rows that a join is to return: the pairs that match, rows without a partner extended by
NULLs on the preserved sides, and for semi and anti joins the rows of one side with or without a partner. -/
noncomputable def joinedRows (joinType : JoinType) (M : Row → Row → Bool) (leftWidth rightWidth : ℕ)
    (left right : Multiset Row) : Multiset Row :=
  let inner := (Joins.pairs M left right).map fun p => p.1 ++ p.2
  let leftOnly := (Joins.anti M left right).map (· ++ nulls rightWidth)
  let rightOnly := (Joins.anti (flip M) right left).map (nulls leftWidth ++ ·)
  match joinType with
  | .inner | .cross => inner
  | .left => inner + leftOnly
  | .right => inner + rightOnly
  | .full => inner + leftOnly + rightOnly
  | .leftSemi => Joins.semi M left right
  | .rightSemi => Joins.semi (flip M) right left
  | .leftAnti => Joins.anti M left right
  | .rightAnti => Joins.anti (flip M) right left

section Spec

variable {ops : Operations S} {op : JoinOperator S} {left right : QueryResult}

/-- The join condition can be evaluated on every pair of rows. -/
def ConditionEvaluates (ops : Operations S) (op : JoinOperator S) (left right : QueryResult) : Prop :=
  ∀ leftRow ∈ left.rows, ∀ rightRow ∈ right.rows, ∃ b,
    op.evaluateJoinCondition ops left.columnNames right.columnNames leftRow rightRow = .ok b

theorem ConditionEvaluates.eq (h : op.ConditionEvaluates ops left right) :
    ∀ leftRow ∈ left.rows, ∀ rightRow ∈ right.rows,
      op.evaluateJoinCondition ops left.columnNames right.columnNames leftRow rightRow =
        .ok (op.pairMatches ops left right leftRow rightRow) := by
  intro leftRow hleft rightRow hright
  obtain ⟨b, hb⟩ := h leftRow hleft rightRow hright
  rw [pairMatches, hb]
  rfl

/-- The pairs that match, in the order in which the loops find them. -/
def pairRows (M : Row → Row → Bool) (leftRows rightRows : List Row) : List Row :=
  leftRows.flatMap fun left => (rightRows.filter (M left)).map (left ++ ·)

theorem pairRows_coe (M : Row → Row → Bool) (leftRows rightRows : List Row) :
    (pairRows M leftRows rightRows : Multiset Row) =
      (Joins.pairs M leftRows rightRows).map fun p => p.1 ++ p.2 := by
  rw [Joins.pairs_coe, Multiset.map_coe, List.map_flatMap, pairRows]
  congr 2
  funext left
  rw [List.map_map]
  rfl

theorem executeOuterJoins_of_evaluates (h : op.ConditionEvaluates ops left right) :
    op.executeOuterJoins ops left right =
      let M := op.pairMatches ops left right
      let inner := pairRows M left.rows right.rows
      let leftOnly := (left.rows.filter fun leftRow => !right.rows.any (M leftRow)).map
        (· ++ nulls right.columnNames.length)
      let rightOnly := (right.rows.filter fun rightRow => !left.rows.any (M · rightRow)).map
        (nulls left.columnNames.length ++ ·)
      .ok (match op.joinType with
        | .left => inner ++ leftOnly
        | .right => inner ++ rightOnly
        | .full => inner ++ leftOnly ++ rightOnly
        | _ => inner, op.qualifiedNames left.columnNames right.columnNames) := by
  rw [executeOuterJoins, matchRows_of_ok h.eq]
  simp only [bind, Except.bind, unmatched_map]
  rfl

/-- Every pair of rows has been compared when an outer join returns. -/
theorem evaluates_of_matchRows {m : Matches}
    (h : matchRows (op.evaluateJoinCondition ops left.columnNames right.columnNames) left.rows right.rows =
      .ok m) : op.ConditionEvaluates ops left right := by
  intro leftRow hleft rightRow hright
  obtain ⟨i, hi⟩ := List.mem_iff_getElem?.mp hleft
  obtain ⟨j, hj⟩ := List.mem_iff_getElem?.mp hright
  obtain ⟨m₁, m₂, hloop⟩ := Result.exists_of_foldlM h (leftRow, i) (List.mem_zipIdx_iff_getElem?.mpr hi)
  obtain ⟨m₃, m₄, hpair⟩ := Result.exists_of_foldlM hloop (rightRow, j) (List.mem_zipIdx_iff_getElem?.mpr hj)
  obtain ⟨b, hb, -⟩ := Result.bind_eq_ok.mp hpair
  exact ⟨b, hb⟩

theorem execute_ok : op.execute ops (.ok left) (.ok right) = do
    let p ← op.executeByType ops left right
    return ⟨p.1, p.2⟩ := rfl

/-- If the join condition can be evaluated on every pair of rows, the operator returns. -/
theorem exists_execute (h : op.ConditionEvaluates ops left right) :
    ∃ result, op.execute ops (.ok left) (.ok right) = .ok result := by
  have houter := executeOuterJoins_of_evaluates h
  have hleft (leftRow : Row) (hrow : leftRow ∈ left.rows) := hasMatch_of_ok (h.eq leftRow hrow)
  have hright (rightRow : Row) (hrow : rightRow ∈ right.rows) :=
    hasMatch_of_ok fun leftRow hleftRow => h.eq leftRow hleftRow rightRow hrow
  obtain ⟨condition, joinType, leftAlias, rightAlias⟩ := op
  rw [execute_ok]
  unfold executeByType
  rw [houter]
  cases joinType
  case leftSemi =>
    simp only [executeSemiJoin, keepRows_of_ok hleft]
    exact ⟨_, rfl⟩
  case rightSemi =>
    simp only [executeSemiJoin, keepRows_of_ok hright]
    exact ⟨_, rfl⟩
  case leftAnti =>
    have hkept := keepRows_of_ok fun leftRow hrow => congrArg ((!·) <$> ·) (hleft leftRow hrow)
    simp only [executeAntiJoin, hkept]
    exact ⟨_, rfl⟩
  case rightAnti =>
    have hkept := keepRows_of_ok fun rightRow hrow => congrArg ((!·) <$> ·) (hright rightRow hrow)
    simp only [executeAntiJoin, hkept]
    exact ⟨_, rfl⟩
  all_goals exact ⟨_, rfl⟩

/-- The columns that a join returns -/
def joinedColumns (op : JoinOperator S) (leftColumns rightColumns : List String) : List String :=
  match op.joinType with
  | .leftSemi | .leftAnti => leftColumns
  | .rightSemi | .rightAnti => rightColumns
  | _ => op.qualifiedNames leftColumns rightColumns

/-- What the operator returns if it does. -/
theorem of_execute {result : QueryResult} (h : op.execute ops (.ok left) (.ok right) = .ok result) :
    (result.rows : Multiset Row) = joinedRows op.joinType (op.pairMatches ops left right)
        left.columnNames.length right.columnNames.length left.rows right.rows ∧
      result.columnNames = op.joinedColumns left.columnNames right.columnNames := by
  have hleft (leftRow : Row) (b : Bool) (hrow : hasMatch
      (op.evaluateJoinCondition ops left.columnNames right.columnNames leftRow) right.rows = .ok b) :
      b = right.rows.any (op.pairMatches ops left right leftRow) := any_of_hasMatch hrow
  have hright (rightRow : Row) (b : Bool) (hrow : hasMatch
      (op.evaluateJoinCondition ops left.columnNames right.columnNames · rightRow) left.rows = .ok b) :
      b = left.rows.any (op.pairMatches ops left right · rightRow) := any_of_hasMatch hrow
  have houter (hrun : ∃ p, op.executeOuterJoins ops left right = .ok p) :
      op.ConditionEvaluates ops left right := by
    obtain ⟨p, hp⟩ := hrun
    obtain ⟨m, hm, -⟩ := Result.bind_eq_ok.mp hp
    exact evaluates_of_matchRows hm
  unfold joinedRows
  simp only [Joins.anti_coe, Multiset.map_coe, ← pairRows_coe, Joins.semi_coe]
  obtain ⟨condition, joinType, leftAlias, rightAlias⟩ := op
  rw [execute_ok] at h
  obtain ⟨⟨rows, columnNames⟩, hrun, hresult⟩ := Result.bind_eq_ok.mp h
  obtain rfl := Except.ok.inj hresult
  cases joinType
  case leftSemi =>
    obtain ⟨kept, hkept, hrows⟩ := Result.bind_eq_ok.mp hrun
    cases hrows
    rw [filter_of_keepRows hkept fun row _ => hleft row]
    exact ⟨rfl, rfl⟩
  case rightSemi =>
    obtain ⟨kept, hkept, hrows⟩ := Result.bind_eq_ok.mp hrun
    cases hrows
    rw [filter_of_keepRows hkept fun row _ => hright row]
    exact ⟨rfl, rfl⟩
  case leftAnti =>
    obtain ⟨kept, hkept, hrows⟩ := Result.bind_eq_ok.mp hrun
    cases hrows
    rw [filter_of_keepRows hkept fun row _ b hb => ?_]
    · exact ⟨rfl, rfl⟩
    · obtain ⟨found, hfound, rfl⟩ := Result.map_eq_ok.mp hb
      rw [hleft row found hfound]
  case rightAnti =>
    obtain ⟨kept, hkept, hrows⟩ := Result.bind_eq_ok.mp hrun
    cases hrows
    rw [filter_of_keepRows hkept fun row _ b hb => ?_]
    · exact ⟨rfl, rfl⟩
    · obtain ⟨found, hfound, rfl⟩ := Result.map_eq_ok.mp hb
      rw [hright row found hfound]
      rfl
  all_goals
    rw [executeByType, executeOuterJoins_of_evaluates (houter ⟨_, hrun⟩)] at hrun
    cases hrun
    exact ⟨rfl, rfl⟩

/-- The number of columns that a join returns. -/
def joinedWidth (joinType : JoinType) (leftWidth rightWidth : ℕ) : ℕ :=
  match joinType with
  | .leftSemi | .leftAnti => leftWidth
  | .rightSemi | .rightAnti => rightWidth
  | _ => leftWidth + rightWidth

theorem length_of_mem_joinedRows {M : Row → Row → Bool} {leftWidth rightWidth : ℕ}
    {leftRows rightRows : Multiset Row} (hleft : ∀ row ∈ leftRows, row.length = leftWidth)
    (hright : ∀ row ∈ rightRows, row.length = rightWidth) (joinType : JoinType) {row : Row}
    (hrow : row ∈ joinedRows joinType M leftWidth rightWidth leftRows rightRows) :
    row.length = joinedWidth joinType leftWidth rightWidth := by
  have hinner : row ∈ (Joins.pairs M leftRows rightRows).map (fun p => p.1 ++ p.2) →
      row.length = leftWidth + rightWidth := by
    intro h
    obtain ⟨p, hp, rfl⟩ := Multiset.mem_map.mp h
    obtain ⟨hp, hp', -⟩ := Joins.mem_pairs.mp hp
    rw [List.length_append, hleft _ hp, hright _ hp']
  have hleftOnly : row ∈ (Joins.anti M leftRows rightRows).map (· ++ nulls rightWidth) →
      row.length = leftWidth + rightWidth := by
    intro h
    obtain ⟨left, hmem, rfl⟩ := Multiset.mem_map.mp h
    rw [List.length_append, hleft _ (Joins.mem_anti.mp hmem).1, nulls, List.length_replicate]
  have hrightOnly : row ∈ (Joins.anti (flip M) rightRows leftRows).map (nulls leftWidth ++ ·) →
      row.length = leftWidth + rightWidth := by
    intro h
    obtain ⟨right, hmem, rfl⟩ := Multiset.mem_map.mp h
    rw [List.length_append, hright _ (Joins.mem_anti.mp hmem).1, nulls, List.length_replicate]
  cases joinType with
  | inner | cross => exact hinner hrow
  | left => exact (Multiset.mem_add.mp hrow).elim hinner hleftOnly
  | right => exact (Multiset.mem_add.mp hrow).elim hinner hrightOnly
  | full =>
    refine (Multiset.mem_add.mp hrow).elim (fun h => ?_) hrightOnly
    exact (Multiset.mem_add.mp h).elim hinner hleftOnly
  | leftSemi => exact hleft row (Joins.mem_semi.mp hrow).1
  | leftAnti => exact hleft row (Joins.mem_anti.mp hrow).1
  | rightSemi => exact hright row (Joins.mem_semi.mp hrow).1
  | rightAnti => exact hright row (Joins.mem_anti.mp hrow).1

/-- The rows of the result have one value per column if those of the inputs do. -/
theorem length_of_execute {result : QueryResult} (hleft : ∀ row ∈ left.rows, row.length = left.columnNames.length)
    (hright : ∀ row ∈ right.rows, row.length = right.columnNames.length)
    (h : op.execute ops (.ok left) (.ok right) = .ok result) :
    ∀ row ∈ result.rows, row.length = result.columnNames.length := by
  obtain ⟨hrows, hcolumns⟩ := of_execute h
  intro row hrow
  have hmem : row ∈ (result.rows : Multiset Row) := hrow
  rw [hrows] at hmem
  rw [length_of_mem_joinedRows hleft hright op.joinType hmem, hcolumns]
  unfold joinedColumns
  cases op.joinType <;> simp [joinedWidth, qualifiedNames]

/-- If every row has one value per column and the join condition can be evaluated on every pair of rows,
the operator returns the rows that the type of the join asks for, each with one value per column. -/
theorem execute_spec (hleft : ∀ row ∈ left.rows, row.length = left.columnNames.length)
    (hright : ∀ row ∈ right.rows, row.length = right.columnNames.length)
    (h : op.ConditionEvaluates ops left right) : ∃ result,
    op.execute ops (.ok left) (.ok right) = .ok result ∧
      (result.rows : Multiset Row) = joinedRows op.joinType (op.pairMatches ops left right)
        left.columnNames.length right.columnNames.length left.rows right.rows ∧
      ∀ row ∈ result.rows, row.length = result.columnNames.length := by
  obtain ⟨result, hresult⟩ := exists_execute h
  exact ⟨result, hresult, (of_execute hresult).1, length_of_execute hleft hright hresult⟩

end Spec

/-- A full join whose condition is TRUE -/
def fullJoin : JoinOperator Unit := ⟨some (.value (.boolean true)), .full, none, none⟩

theorem execute_fullJoin : ∃ result,
    fullJoin.execute ExpressionEvaluator.noOperations (.ok ⟨[[.integer 1]], ["a"]⟩)
        (.ok ⟨[[.integer 2]], ["b"]⟩) = .ok result ∧
      ∀ row ∈ result.rows, row.length = result.columnNames.length := by
  have hcondition : fullJoin.ConditionEvaluates ExpressionEvaluator.noOperations
      ⟨[[.integer 1]], ["a"]⟩ ⟨[[.integer 2]], ["b"]⟩ := fun _ _ _ _ => ⟨true, rfl⟩
  obtain ⟨result, hresult, -, hwidth⟩ := execute_spec (by simp) (by simp) hcondition
  exact ⟨result, hresult, hwidth⟩

end JoinOperator

end Rustgresql
