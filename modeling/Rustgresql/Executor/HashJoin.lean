import Rustgresql.Executor.Join

/-!
# Hash joins

The hash join returns the pairs of rows whose key texts are equal and that satisfy the condition, whatever
the type of the join is, and it does not qualify the names of the columns. `sameResult_iff` says for which
inputs that is the result of the nested-loop join.
-/

namespace Rustgresql

open Sql (JoinType)

open ExpressionEvaluator (Operations evaluate)

open JoinOperator (conditionHolds keepRows keepRows_of_ok holds pairRows)

variable {S : Type}

/-- Evaluate the condition of a hash join or merge join in the columns of both rows. -/
def evaluateCombined (ops : Operations S) (condition : Option (Expression S))
    (leftColumns rightColumns : List String) (leftRow rightRow : Row) : Result Bool :=
  match condition with
  | some condition =>
    (evaluate ops (.withColumns (createEvaluationContext (leftColumns ++ rightColumns) (leftRow ++ rightRow)))
      condition).map conditionHolds
  | none => .ok true

/-- Hash join operator -/
structure HashJoinOperator (S : Type) where
  condition : Option (Expression S)
  joinType : JoinType
  /-- Columns to hash on for equi-joins -/
  hashKeyColumns : List String

namespace HashJoinOperator

section Operator

variable [DebugText]

/-- The texts of the key columns that the row has. -/
def extractHashKey (op : HashJoinOperator S) (columnNames : List String) (row : Row) : String :=
  "|".intercalate (op.hashKeyColumns.filterMap fun columnName =>
    ((columnNames.findIdx? (· = columnName)).bind (row[·]?)).map DebugText.value)

/-- The rows under their keys. -/
def buildHashTable (op : HashJoinOperator S) (input : QueryResult) : HashMap String (List Row) :=
  HashMap.group (op.extractHashKey input.columnNames) (fun _ => []) (fun rows row => rows ++ [row]) input.rows

def evaluateJoinCondition (ops : Operations S) (op : HashJoinOperator S)
    (leftColumns rightColumns : List String) (leftRow rightRow : Row) : Result Bool :=
  evaluateCombined ops op.condition leftColumns rightColumns leftRow rightRow

/-- Join a left row with the rows that have its key. -/
def probe (ops : Operations S) (op : HashJoinOperator S) (left right : QueryResult)
    (hashTable : HashMap String (List Row)) (joinedRows : List Row) (leftRow : Row) : Result (List Row) :=
  match hashTable.lookup (op.extractHashKey left.columnNames leftRow) with
  | some rightMatches => do
    let kept ← keepRows (op.evaluateJoinCondition ops left.columnNames right.columnNames leftRow) rightMatches
    return joinedRows ++ kept.map (leftRow ++ ·)
  | none => .ok joinedRows

def execute (ops : Operations S) (op : HashJoinOperator S) (left right : Result QueryResult) :
    Result QueryResult := do
  let leftResult ← left
  let rightResult ← right
  let hashTable := op.buildHashTable rightResult
  let rows ← leftResult.rows.foldlM (op.probe ops leftResult rightResult hashTable) []
  return { rows, columnNames := leftResult.columnNames ++ rightResult.columnNames }

/-! ## The pairs that are joined -/

section Pairs

variable {ops : Operations S} {op : HashJoinOperator S} {left right : QueryResult}

/-- Two rows have the same key text. -/
def SameKey (op : HashJoinOperator S) (left right : QueryResult) (leftRow rightRow : Row) : Prop :=
  op.extractHashKey right.columnNames rightRow = op.extractHashKey left.columnNames leftRow

instance : DecidableRel (op.SameKey left right) := fun _ _ => inferInstanceAs (Decidable (_ = _))

/-- The condition can be evaluated on the pairs with the same key. -/
def ProbesEvaluate (ops : Operations S) (op : HashJoinOperator S) (left right : QueryResult) : Prop :=
  ∀ leftRow ∈ left.rows, ∀ rightRow ∈ right.rows, op.SameKey left right leftRow rightRow →
    ∃ b, op.evaluateJoinCondition ops left.columnNames right.columnNames leftRow rightRow = .ok b

/-- Two rows have the same key, and the condition holds for them. -/
def pairMatches (ops : Operations S) (op : HashJoinOperator S) (left right : QueryResult)
    (leftRow rightRow : Row) : Bool :=
  op.SameKey left right leftRow rightRow ∧
    holds (op.evaluateJoinCondition ops left.columnNames right.columnNames leftRow rightRow)

/-- A left row is joined with the rows of its group. -/
theorem probe_eq (joinedRows : List Row) (leftRow : Row) :
    op.probe ops left right (op.buildHashTable right) joinedRows leftRow = do
      let kept ← keepRows (op.evaluateJoinCondition ops left.columnNames right.columnNames leftRow)
        (right.rows.filter fun rightRow => op.SameKey left right leftRow rightRow)
      return joinedRows ++ kept.map (leftRow ++ ·) := by
  have hgroup : (op.buildHashTable right).lookup (op.extractHashKey left.columnNames leftRow) =
      (right.rows.filter fun rightRow => op.SameKey left right leftRow rightRow).head?.map fun _ =>
        right.rows.filter fun rightRow => op.SameKey left right leftRow rightRow := by
    rw [buildHashTable, HashMap.lookup_group]
    simp only [List.foldl_append_eq_append, List.nil_append, ← List.flatMap_def, List.flatMap_singleton']
    rfl
  rw [probe, hgroup]
  rcases hrows : right.rows.filter fun rightRow => op.SameKey left right leftRow rightRow with - | ⟨row, rows⟩
  · simp [keepRows]
  · rfl

theorem execute_ok : op.execute ops (.ok left) (.ok right) = do
    let rows ← left.rows.foldlM (op.probe ops left right (op.buildHashTable right)) []
    return ⟨rows, left.columnNames ++ right.columnNames⟩ := rfl

theorem probe_of_ok {leftRow : Row} (h : ∀ rightRow ∈ right.rows, op.SameKey left right leftRow rightRow →
      ∃ b, op.evaluateJoinCondition ops left.columnNames right.columnNames leftRow rightRow = .ok b)
    (joinedRows : List Row) : op.probe ops left right (op.buildHashTable right) joinedRows leftRow =
      .ok (joinedRows ++ (right.rows.filter (op.pairMatches ops left right leftRow)).map (leftRow ++ ·)) := by
  have hkept : keepRows (op.evaluateJoinCondition ops left.columnNames right.columnNames leftRow)
      (right.rows.filter fun rightRow => op.SameKey left right leftRow rightRow) =
        .ok ((right.rows.filter fun rightRow => op.SameKey left right leftRow rightRow).filter fun rightRow =>
          holds (op.evaluateJoinCondition ops left.columnNames right.columnNames leftRow rightRow)) := by
    refine keepRows_of_ok fun rightRow hright => ?_
    obtain ⟨hmem, hkey⟩ := List.mem_filter.mp hright
    obtain ⟨b, hb⟩ := h rightRow hmem (of_decide_eq_true hkey)
    rw [hb]
    rfl
  have hboth : (right.rows.filter fun rightRow => holds (op.evaluateJoinCondition ops left.columnNames
      right.columnNames leftRow rightRow) && decide (op.SameKey left right leftRow rightRow)) =
        right.rows.filter (op.pairMatches ops left right leftRow) :=
    List.filter_congr fun rightRow _ => by simp [pairMatches, Bool.and_comm]
  rw [probe_eq, hkept, List.filter_filter, hboth]
  rfl

theorem execute_of_probes (h : op.ProbesEvaluate ops left right) : op.execute ops (.ok left) (.ok right) =
    .ok ⟨pairRows (op.pairMatches ops left right) left.rows right.rows,
      left.columnNames ++ right.columnNames⟩ := by
  have hrows := Result.foldlM_eq_ok (fun leftRow hleft joinedRows => probe_of_ok (h leftRow hleft) joinedRows)
    ([] : List Row)
  rw [List.foldl_append_eq_append, List.nil_append, ← List.flatMap_def] at hrows
  rw [execute_ok, hrows]
  rfl

theorem probes_of_execute {result : QueryResult} (h : op.execute ops (.ok left) (.ok right) = .ok result) :
    op.ProbesEvaluate ops left right := by
  intro leftRow hleft rightRow hright hkey
  rw [execute_ok] at h
  obtain ⟨rows, hrows, -⟩ := Result.bind_eq_ok.mp h
  obtain ⟨joined, joined', hprobe⟩ := Result.exists_of_foldlM hrows leftRow hleft
  rw [probe_eq] at hprobe
  obtain ⟨kept, hkept, -⟩ := Result.bind_eq_ok.mp hprobe
  exact JoinOperator.ok_of_keepRows hkept rightRow (List.mem_filter.mpr ⟨hright, decide_eq_true hkey⟩)

end Pairs

end Operator

/-! ## The same rows -/

section Rows

open scoped Classical

/-- The hash join gives the rows the partners that they are due. In a full join the copies of an all-NULL
left row stand for the right rows without a partner, too. -/
def PartnersDue (joinType : JoinType) (H M : Row → Row → Bool) (leftWidth rightWidth : ℕ)
    (left right : Multiset Row) : Prop :=
  match joinType with
  | .inner | .cross => ∀ l ∈ left, ∀ r ∈ right, H l r = M l r
  | .left => ∀ l ∈ left,
    (right.filter fun r => H l r = true) = Joins.partners M right (JoinOperator.nulls rightWidth) l
  | .right => ∀ r ∈ right,
    (left.filter fun l => H l r = true) = Joins.partners (flip M) left (JoinOperator.nulls leftWidth) r
  | .full =>
    (∀ l ∈ left, l ≠ JoinOperator.nulls leftWidth →
      (right.filter fun r => H l r = true) = Joins.partners M right (JoinOperator.nulls rightWidth) l) ∧
    left.count (JoinOperator.nulls leftWidth) •
        (right.filter fun r => H (JoinOperator.nulls leftWidth) r = true) =
      left.count (JoinOperator.nulls leftWidth) •
        Joins.partners M right (JoinOperator.nulls rightWidth) (JoinOperator.nulls leftWidth) +
      Joins.anti (flip M) right left
  | .leftSemi => ∀ l ∈ left, (right.filter fun r => H l r = true) = if ∃ r ∈ right, M l r then {[]} else 0
  | .leftAnti => ∀ l ∈ left, (right.filter fun r => H l r = true) = if ∃ r ∈ right, M l r then 0 else {[]}
  | .rightSemi => ∀ r ∈ right, (left.filter fun l => H l r = true) = if ∃ l ∈ left, M l r then {[]} else 0
  | .rightAnti => ∀ r ∈ right, (left.filter fun l => H l r = true) = if ∃ l ∈ left, M l r then 0 else {[]}

variable {H M : Row → Row → Bool} {leftWidth : ℕ} {left right : Multiset Row}

/-- The rows of a join, in parts that belong to a left row. -/
theorem pairs_by_left : (Joins.pairs H left right).map (fun p => p.1 ++ p.2) =
    left.bind fun l => (right.filter fun r => H l r = true).map (l ++ ·) := by
  rw [Joins.pairs_eq_bind, Multiset.map_bind]
  refine Multiset.bind_congr fun l _ => ?_
  rw [Multiset.map_map]
  rfl

/-- The rows of a join, in parts that belong to a right row. -/
theorem pairs_by_right : (Joins.pairs H left right).map (fun p => p.1 ++ p.2) =
    right.bind fun r => (left.filter fun l => H l r = true).map (· ++ r) := by
  rw [Joins.pairs_flip, Joins.pairs_eq_bind, Multiset.map_map, Multiset.map_bind]
  refine Multiset.bind_congr fun r _ => ?_
  rw [Multiset.map_map]
  rfl

/-- Joins are equal if all left rows have the same partners. -/
theorem bind_left_iff (hleft : ∀ l ∈ left, l.length = leftWidth) (f g : Row → Multiset Row) :
    (left.bind fun l => (f l).map (l ++ ·)) = (left.bind fun l => (g l).map (l ++ ·)) ↔
      ∀ l ∈ left, f l = g l := by
  have htag (f : Row → Multiset Row) : ∀ l ∈ left, ∀ row ∈ (f l).map (l ++ ·), row.take leftWidth = l := by
    intro l hl row hrow
    obtain ⟨r, -, rfl⟩ := Multiset.mem_map.mp hrow
    rw [← hleft l hl, List.take_left']
    rfl
  rw [Joins.bind_eq_bind_iff (htag f) (htag g)]
  refine forall₂_congr fun l _ => ?_
  exact (Multiset.map_injective (List.append_right_injective l)).eq_iff

/-- Joins are equal if all right rows have the same partners. -/
theorem bind_right_iff {f g : Row → Multiset Row} (hf : ∀ r ∈ right, ∀ l ∈ f r, l.length = leftWidth)
    (hg : ∀ r ∈ right, ∀ l ∈ g r, l.length = leftWidth) :
    (right.bind fun r => (f r).map (· ++ r)) = (right.bind fun r => (g r).map (· ++ r)) ↔
      ∀ r ∈ right, f r = g r := by
  have htag {f : Row → Multiset Row} (hf : ∀ r ∈ right, ∀ l ∈ f r, l.length = leftWidth) :
      ∀ r ∈ right, ∀ row ∈ (f r).map (· ++ r), row.drop leftWidth = r := by
    intro r hr row hrow
    obtain ⟨l, hl, rfl⟩ := Multiset.mem_map.mp hrow
    exact List.drop_left' (hf r hr l hl)
  rw [Joins.bind_eq_bind_iff (htag hf) (htag hg)]
  refine forall₂_congr fun r _ => ?_
  exact (Multiset.map_injective (List.append_left_injective r)).eq_iff

theorem filter_eq_filter_iff {s : Multiset Row} {p q : Row → Bool} :
    (s.filter fun row => p row = true) = (s.filter fun row => q row = true) ↔ ∀ row ∈ s, p row = q row := by
  refine ⟨fun h row hrow => ?_, fun h => Multiset.filter_congr fun row hrow => by rw [h row hrow]⟩
  have hmem := congrArg (row ∈ ·) h
  simp only [Multiset.mem_filter, hrow, true_and, eq_iff_iff] at hmem
  exact Bool.eq_iff_iff.mpr hmem

theorem length_nulls (n : ℕ) : (JoinOperator.nulls n).length = n := List.length_replicate

theorem full_eq_iff (hleft : ∀ l ∈ left, l.length = leftWidth) (rightWidth : ℕ) :
    (left.bind fun l => (right.filter fun r => H l r = true).map (l ++ ·)) =
        (left.bind fun l => (Joins.partners M right (JoinOperator.nulls rightWidth) l).map (l ++ ·)) +
          (Joins.anti (flip M) right left).map (JoinOperator.nulls leftWidth ++ ·) ↔
      PartnersDue .full H M leftWidth rightWidth left right := by
  have htag (f : Row → Multiset Row) : ∀ l ∈ left, ∀ row ∈ (f l).map (l ++ ·), row.take leftWidth = l := by
    intro l hl row hrow
    obtain ⟨r, -, rfl⟩ := Multiset.mem_map.mp hrow
    exact List.take_left' (hleft l hl)
  have hextra : ∀ row ∈ (Joins.anti (flip M) right left).map (JoinOperator.nulls leftWidth ++ ·),
      row.take leftWidth = JoinOperator.nulls leftWidth := by
    intro row hrow
    obtain ⟨r, -, rfl⟩ := Multiset.mem_map.mp hrow
    exact List.take_left' (length_nulls leftWidth)
  rw [Joins.bind_eq_bind_add_iff (htag _) (htag _) hextra, ← Multiset.map_nsmul, ← Multiset.map_nsmul,
    ← Multiset.map_add]
  refine and_congr (forall₂_congr fun l _ => imp_congr_right fun _ => ?_) ?_
  · exact (Multiset.map_injective (List.append_right_injective l)).eq_iff
  · exact (Multiset.map_injective (List.append_right_injective (JoinOperator.nulls leftWidth))).eq_iff

/-- The rows of a semi join, put together as those of the hash join are. -/
theorem semi_eq_bind_map (rows partners : Multiset Row) {f : Row → Row → Row} (hf : ∀ row, f row [] = row) :
    Joins.semi M rows partners = rows.bind fun row =>
      (if ∃ partner ∈ partners, M row partner then {[]} else 0 : Multiset Row).map (f row) := by
  refine (Joins.semi_eq_bind rows partners).trans (Multiset.bind_congr fun row _ => ?_)
  split
  · rw [Multiset.map_singleton, hf]
  · rw [Multiset.map_zero]

theorem anti_eq_bind_map (rows partners : Multiset Row) {f : Row → Row → Row} (hf : ∀ row, f row [] = row) :
    Joins.anti M rows partners = rows.bind fun row =>
      (if ∃ partner ∈ partners, M row partner then 0 else {[]} : Multiset Row).map (f row) := by
  refine (Joins.anti_eq_bind rows partners).trans (Multiset.bind_congr fun row _ => ?_)
  split
  · rw [Multiset.map_zero]
  · rw [Multiset.map_singleton, hf]

/-- The pairs that match in one way are the rows of a join that matches in another if and only if they give
every row the partners that it is due. -/
theorem pairs_eq_joinedRows_iff (joinType : JoinType) (rightWidth : ℕ)
    (hleft : ∀ l ∈ left, l.length = leftWidth)
    (hnone : joinType = .rightSemi ∨ joinType = .rightAnti → leftWidth = 0) :
    (Joins.pairs H left right).map (fun p => p.1 ++ p.2) =
        JoinOperator.joinedRows joinType M leftWidth rightWidth left right ↔
      PartnersDue joinType H M leftWidth rightWidth left right := by
  have hinner : (Joins.pairs H left right).map (fun p => p.1 ++ p.2) =
      (Joins.pairs M left right).map (fun p => p.1 ++ p.2) ↔ ∀ l ∈ left, ∀ r ∈ right, H l r = M l r := by
    rw [pairs_by_left, pairs_by_left, bind_left_iff hleft]
    exact forall₂_congr fun l _ => filter_eq_filter_iff
  have hwidth : ∀ r ∈ right, ∀ l ∈ left.filter fun l => H l r = true, l.length = leftWidth :=
    fun r _ l hl => hleft l (Multiset.mem_filter.mp hl).1
  cases joinType with
  | inner => exact hinner
  | cross => exact hinner
  | left =>
    have hrows : JoinOperator.joinedRows .left M leftWidth rightWidth left right =
        left.bind fun l => (Joins.partners M right (JoinOperator.nulls rightWidth) l).map (l ++ ·) :=
      (Joins.bind_partners left right (JoinOperator.nulls rightWidth) (· ++ ·)).symm
    rw [hrows, pairs_by_left, bind_left_iff hleft]
    exact Iff.rfl
  | right =>
    have hrows : JoinOperator.joinedRows .right M leftWidth rightWidth left right =
        right.bind fun r => (Joins.partners (flip M) left (JoinOperator.nulls leftWidth) r).map (· ++ r) := by
      rw [Joins.bind_partners right left (JoinOperator.nulls leftWidth) fun r l => l ++ r]
      show (Joins.pairs M left right).map _ + _ = _
      rw [Joins.pairs_flip, Multiset.map_map]
      rfl
    have hpartners : ∀ r ∈ right, ∀ l ∈ Joins.partners (flip M) left (JoinOperator.nulls leftWidth) r,
        l.length = leftWidth := by
      intro r _ l hl
      unfold Joins.partners at hl
      split at hl
      · exact hleft l (Multiset.mem_filter.mp hl).1
      · rw [Multiset.mem_singleton.mp hl, length_nulls]
    rw [hrows, pairs_by_right, bind_right_iff hwidth hpartners]
    exact Iff.rfl
  | full =>
    have hrows : JoinOperator.joinedRows .full M leftWidth rightWidth left right =
        (left.bind fun l => (Joins.partners M right (JoinOperator.nulls rightWidth) l).map (l ++ ·)) +
          (Joins.anti (flip M) right left).map (JoinOperator.nulls leftWidth ++ ·) := by
      rw [Joins.bind_partners left right (JoinOperator.nulls rightWidth) (· ++ ·)]
      rfl
    rw [hrows, pairs_by_left]
    exact full_eq_iff hleft rightWidth
  | leftSemi =>
    have hrows : JoinOperator.joinedRows .leftSemi M leftWidth rightWidth left right =
        left.bind fun l => (if ∃ r ∈ right, M l r then {[]} else 0 : Multiset Row).map (l ++ ·) :=
      semi_eq_bind_map left right List.append_nil
    rw [hrows, pairs_by_left, bind_left_iff hleft]
    exact Iff.rfl
  | leftAnti =>
    have hrows : JoinOperator.joinedRows .leftAnti M leftWidth rightWidth left right =
        left.bind fun l => (if ∃ r ∈ right, M l r then 0 else {[]} : Multiset Row).map (l ++ ·) :=
      anti_eq_bind_map left right List.append_nil
    rw [hrows, pairs_by_left, bind_left_iff hleft]
    exact Iff.rfl
  | rightSemi =>
    have hrows : JoinOperator.joinedRows .rightSemi M leftWidth rightWidth left right =
        right.bind fun r => (if ∃ l ∈ left, M l r then {[]} else 0 : Multiset Row).map (· ++ r) :=
      semi_eq_bind_map right left (f := fun r l => l ++ r) List.nil_append
    have hempty : ∀ r ∈ right, ∀ l ∈ (if ∃ l ∈ left, M l r then {[]} else 0 : Multiset Row),
        l.length = leftWidth := by
      intro r _ l hl
      rw [hnone (.inl rfl)]
      split at hl <;> simp_all
    rw [hrows, pairs_by_right, bind_right_iff hwidth hempty]
    exact Iff.rfl
  | rightAnti =>
    have hrows : JoinOperator.joinedRows .rightAnti M leftWidth rightWidth left right =
        right.bind fun r => (if ∃ l ∈ left, M l r then 0 else {[]} : Multiset Row).map (· ++ r) :=
      anti_eq_bind_map right left (f := fun r l => l ++ r) List.nil_append
    have hempty : ∀ r ∈ right, ∀ l ∈ (if ∃ l ∈ left, M l r then 0 else {[]} : Multiset Row),
        l.length = leftWidth := by
      intro r _ l hl
      rw [hnone (.inr rfl)]
      split at hl <;> simp_all
    rw [hrows, pairs_by_right, bind_right_iff hwidth hempty]
    exact Iff.rfl

end Rows

/-! ## The same result -/

/-- The nested-loop join of the same type with the same condition -/
def nestedLoop (op : HashJoinOperator S) (leftAlias rightAlias : Option String) : JoinOperator S :=
  ⟨op.condition, op.joinType, leftAlias, rightAlias⟩

/-- The columns of both sides are the columns of the result: all are qualified, or only one side has
columns and the join returns those. -/
def SameColumns (joinType : JoinType) (leftColumns rightColumns : List String) : Prop :=
  match joinType with
  | .leftSemi | .leftAnti => rightColumns = []
  | .rightSemi | .rightAnti => leftColumns = []
  | _ => ∀ columnName ∈ leftColumns ++ rightColumns, '.' ∈ columnName.toList

theorem qualify_eq_self {tableName columnName : String} :
    JoinOperator.qualify tableName columnName = columnName ↔ '.' ∈ columnName.toList := by
  unfold JoinOperator.qualify
  split
  · next hqualified => exact iff_of_true rfl hqualified
  · next hqualified =>
    refine iff_of_false (fun h => ?_) hqualified
    have hlength := congrArg String.length h
    rw [String.length_append, String.length_append] at hlength
    have hdot : (".".length : ℕ) = 1 := rfl
    omega

theorem map_qualify_eq_self (tableName : String) {columns : List String} :
    columns = columns.map (JoinOperator.qualify tableName) ↔ ∀ name ∈ columns, '.' ∈ name.toList := by
  constructor
  · intro h name hname
    obtain ⟨i, hi, rfl⟩ := List.getElem_of_mem hname
    have hself : (columns.map (JoinOperator.qualify tableName))[i]? = columns[i]? := by rw [← h]
    rw [List.getElem?_map, List.getElem?_eq_getElem hi, Option.map_some, Option.some.injEq] at hself
    exact qualify_eq_self.mp hself
  · intro h
    exact (List.map_id' columns).symm.trans (List.map_congr_left fun name hname =>
      (qualify_eq_self.mpr (h name hname)).symm)

theorem sameColumns_iff (op : JoinOperator S) (leftColumns rightColumns : List String) :
    leftColumns ++ rightColumns = op.joinedColumns leftColumns rightColumns ↔
      SameColumns op.joinType leftColumns rightColumns := by
  have houter : leftColumns ++ rightColumns = op.qualifiedNames leftColumns rightColumns ↔
      ∀ name ∈ leftColumns ++ rightColumns, '.' ∈ name.toList := by
    rw [List.forall_mem_append, ← map_qualify_eq_self op.leftTableName,
      ← map_qualify_eq_self op.rightTableName]
    refine ⟨fun h => List.append_inj h (by simp), fun h => ?_⟩
    rw [JoinOperator.qualifiedNames, ← h.1, ← h.2]
  unfold JoinOperator.joinedColumns SameColumns
  cases op.joinType
  case leftSemi => exact List.append_right_eq_self
  case leftAnti => exact List.append_right_eq_self
  case rightSemi => exact List.append_left_eq_self
  case rightAnti => exact List.append_left_eq_self
  all_goals exact houter

section Result

variable [DebugText] {ops : Operations S} {op : HashJoinOperator S} {leftAlias rightAlias : Option String}
  {left right result : QueryResult}

/-- The hash join returns the columns of a result and, in some order, its rows. -/
def SameResult (ops : Operations S) (op : HashJoinOperator S) (left right result : QueryResult) : Prop :=
  ∃ result', op.execute ops (.ok left) (.ok right) = .ok result' ∧
    result'.columnNames = result.columnNames ∧ result'.rows.Perm result.rows

/-- What the nested-loop join returns the hash join returns, too, if and only if its condition can be
evaluated where keys are equal, the columns are the same and every row has the partners that it is due. -/
theorem sameResult_iff (hleft : ∀ row ∈ left.rows, row.length = left.columnNames.length)
    (h : (op.nestedLoop leftAlias rightAlias).execute ops (.ok left) (.ok right) = .ok result) :
    op.SameResult ops left right result ↔
      op.ProbesEvaluate ops left right ∧ SameColumns op.joinType left.columnNames right.columnNames ∧
        PartnersDue op.joinType (op.pairMatches ops left right)
          ((op.nestedLoop leftAlias rightAlias).pairMatches ops left right)
          left.columnNames.length right.columnNames.length left.rows right.rows := by
  obtain ⟨hrows, hcolumns⟩ := JoinOperator.of_execute h
  have hsameColumns := sameColumns_iff (op.nestedLoop leftAlias rightAlias) left.columnNames right.columnNames
  have hpartners (hsame : SameColumns op.joinType left.columnNames right.columnNames) :
      (pairRows (op.pairMatches ops left right) left.rows right.rows).Perm result.rows ↔
        PartnersDue op.joinType (op.pairMatches ops left right)
          ((op.nestedLoop leftAlias rightAlias).pairMatches ops left right)
          left.columnNames.length right.columnNames.length left.rows right.rows := by
    rw [← Multiset.coe_eq_coe, JoinOperator.pairRows_coe, hrows]
    refine pairs_eq_joinedRows_iff op.joinType right.columnNames.length hleft fun htype => ?_
    rcases htype with htype | htype
    · rw [htype] at hsame
      exact List.length_eq_zero_iff.mpr hsame
    · rw [htype] at hsame
      exact List.length_eq_zero_iff.mpr hsame
  constructor
  · rintro ⟨result', hresult', hcolumns', hperm⟩
    have hprobes := probes_of_execute hresult'
    rw [execute_of_probes hprobes] at hresult'
    cases hresult'
    have hsame := hsameColumns.mp (hcolumns'.trans hcolumns)
    exact ⟨hprobes, hsame, (hpartners hsame).mp hperm⟩
  · rintro ⟨hprobes, hsame, hdue⟩
    exact ⟨_, execute_of_probes hprobes, (hsameColumns.mpr hsame).trans hcolumns.symm,
      (hpartners hsame).mpr hdue⟩

end Result

/-- A join whose rows all have the same key and satisfy the condition -/
def unconditional (joinType : JoinType) : HashJoinOperator Unit := ⟨none, joinType, []⟩

theorem sameResult_inner : letI : DebugText := ⟨fun _ => "", fun _ => "", fun _ => ""⟩
    (unconditional .inner).SameResult ExpressionEvaluator.noOperations
      ⟨[[.integer 1]], ["l.a"]⟩ ⟨[[.integer 2]], ["r.b"]⟩ ⟨[[.integer 1, .integer 2]], ["l.a", "r.b"]⟩ := by
  let texts : DebugText := ⟨fun _ => "", fun _ => "", fun _ => ""⟩
  have hnested : ((unconditional .inner).nestedLoop none none).execute ExpressionEvaluator.noOperations
      (.ok ⟨[[.integer 1]], ["l.a"]⟩) (.ok ⟨[[.integer 2]], ["r.b"]⟩) =
        .ok ⟨[[.integer 1, .integer 2]], ["l.a", "r.b"]⟩ := rfl
  refine (sameResult_iff (by simp) hnested).mpr ⟨?_, ?_, ?_⟩
  · exact fun _ _ _ _ _ => ⟨true, rfl⟩
  · show ∀ name ∈ ["l.a", "r.b"], '.' ∈ name.toList
    decide
  · exact fun _ _ _ _ => rfl

/-- Rows that are joined have equal values in the key columns. -/
def ImpliesKeyEquality (ops : Operations S) (op : HashJoinOperator S) (nested : JoinOperator S)
    (left right : QueryResult) : Prop :=
  ∀ leftRow ∈ left.rows, ∀ rightRow ∈ right.rows, nested.pairMatches ops left right leftRow rightRow = true →
    ∀ columnName ∈ op.hashKeyColumns, ∃ v w,
      (left.columnNames.findIdx? (· = columnName)).bind (leftRow[·]?) = some v ∧
      (right.columnNames.findIdx? (· = columnName)).bind (rightRow[·]?) = some w ∧
      ops.binary .equals v w = .ok (.boolean true)

/-- A left join loses a left row that has no partner. -/
theorem left_join_loses_row : ¬ ∀ (_ : DebugText) (S : Type) (ops : Operations S) (op : HashJoinOperator S)
    (leftAlias rightAlias : Option String) (left right result : QueryResult),
    ImpliesKeyEquality ops op (op.nestedLoop leftAlias rightAlias) left right →
      (op.nestedLoop leftAlias rightAlias).execute ops (.ok left) (.ok right) = .ok result →
        op.SameResult ops left right result := by
  intro h
  let texts : DebugText := ⟨fun _ => "", fun _ => "", fun _ => ""⟩
  obtain ⟨result, hresult, -, hperm⟩ := h texts Unit ExpressionEvaluator.noOperations
    ⟨some (.binaryOp (.column (some "l") "id") .equals (.column (some "r") "id")), .left, ["id"]⟩ (some "l") (some "r")
    ⟨[[.integer 1]], ["id"]⟩ ⟨[], ["id"]⟩ ⟨[[.integer 1, .null]], ["l.id", "r.id"]⟩ (fun _ _ _ => nofun) rfl
  cases hresult
  simpa using hperm.length_eq

end HashJoinOperator

end Rustgresql
