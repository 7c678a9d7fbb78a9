import Rustgresql.Executor.Scanner

/-!
# Unique keys

INSERT compares a new row with the stored rows for every unique index that is not a primary key. UPDATE
compares nothing. `keysUnique_iff` says what INSERTs and UPDATEs have to avoid themselves.
-/

namespace Rustgresql

open StateSpec

/-! ## Equality of values -/

theorem floatEq_comm (x y : UInt64) : floatEq x y = floatEq y x := by
  unfold floatEq
  dsimp only
  rw [Bool.and_comm (decide (x &&& _ ≤ _)), BEq.comm (a := x),
    Bool.and_comm (x &&& 0x7fffffffffffffff == 0)]

namespace Value

mutual

theorem eq_comm : ∀ v w : Value, eq v w = eq w v
  | integer _, integer _ => by simp only [eq, BEq.comm]
  | string _, string _ => by simp only [eq, BEq.comm]
  | boolean _, boolean _ => by simp only [eq, BEq.comm]
  | float _, float _ => by simp only [eq, floatEq_comm]
  | timestamp _, timestamp _ => by simp only [eq, BEq.comm]
  | list vs, list ws => by simp only [eq, eqList_comm vs ws]
  | null, null => rfl
  | integer _, string _ | integer _, boolean _ | integer _, float _ | integer _, timestamp _
  | integer _, list _ | integer _, null | string _, integer _ | string _, boolean _
  | string _, float _ | string _, timestamp _ | string _, list _ | string _, null
  | boolean _, integer _ | boolean _, string _ | boolean _, float _ | boolean _, timestamp _
  | boolean _, list _ | boolean _, null | float _, integer _ | float _, string _
  | float _, boolean _ | float _, timestamp _ | float _, list _ | float _, null
  | timestamp _, integer _ | timestamp _, string _ | timestamp _, boolean _ | timestamp _, float _
  | timestamp _, list _ | timestamp _, null | list _, integer _ | list _, string _
  | list _, boolean _ | list _, float _ | list _, timestamp _ | list _, null | null, integer _
  | null, string _ | null, boolean _ | null, float _ | null, timestamp _ | null, list _ => by
    simp only [eq]

theorem eqList_comm : ∀ vs ws : List Value, eqList vs ws = eqList ws vs
  | [], [] => rfl
  | v :: vs, w :: ws => by simp only [eqList, eq_comm v w, eqList_comm vs ws]
  | [], _ :: _ | _ :: _, [] => by simp only [eqList]

end

end Value

/-! ## Agreement on an index -/

section Agreement

variable {tableDef : TableDef} {d : IndexDef} {r r' : Row} {m : IndexManager} {t : SystemTable}

/-- Two rows agree on all of the columns, in values that are not NULL. -/
def AgreeOn (tableDef : TableDef) (columns : List String) (r r' : Row) : Prop :=
  ∀ c ∈ columns, ∃ i v w, tableDef.getColumnIndex c = some i ∧ r[i]? = some v ∧ r'[i]? = some w ∧
    v.eq w = true ∧ v.isNull = false ∧ w.isNull = false

theorem AgreeOn.symm {columns : List String} (h : AgreeOn tableDef columns r r') :
    AgreeOn tableDef columns r' r := by
  intro c hc
  obtain ⟨i, v, w, hi, hv, hw, heq, hvn, hwn⟩ := h c hc
  exact ⟨i, w, v, hi, hw, hv, by rw [Value.eq_comm, heq], hwn, hvn⟩

/-- The primary key and unique indexes of a table. -/
def keyIndexes (m : IndexManager) (tableId : ℕ) : List IndexDef :=
  (IndexManager.listTableIndexes tableId m).filter fun d => d.unique || d.primaryKey

/-- No two rows agree on an index. -/
def KeysUnique (m : IndexManager) (t : SystemTable) : Prop :=
  ∀ d ∈ keyIndexes m t.definition.tableId,
    t.data.Pairwise fun r r' => ¬ AgreeOn t.definition d.columns r r'

/-- A row agrees with no stored row on the indexes of a kind. -/
def NewKeys (m : IndexManager) (kind : IndexDef → Prop) (t : SystemTable) (row : Row) : Prop :=
  ∀ d ∈ keyIndexes m t.definition.tableId, kind d →
    ∀ r ∈ t.data, ¬ AgreeOn t.definition d.columns r row

theorem keysUnique_insert (t : SystemTable) (row : Row) :
    KeysUnique m (t.insert row) ↔ KeysUnique m t ∧ NewKeys m (fun _ => True) t row := by
  unfold KeysUnique NewKeys
  rw [← forall₂_and]
  refine forall₂_congr fun d _ => ?_
  change (t.data ++ [row]).Pairwise (fun r r' => ¬ AgreeOn t.definition d.columns r r') ↔ _
  rw [List.pairwise_append]
  simp

theorem forM_eq_ok {ε α : Type} {f : α → Except ε Unit} {l : List α} :
    l.forM f = .ok () ↔ ∀ a ∈ l, f a = .ok () := by
  induction l with
  | nil => simp [pure, Except.pure]
  | cons a l ih =>
    have hcons : (a :: l).forM f = (f a >>= fun _ => l.forM f) := rfl
    rw [hcons, List.forall_mem_cons, ← ih]
    rcases f a with e | ⟨⟩
    · simp [bind, Except.bind]
    · simp [bind, Except.bind]

theorem pairwise_iff_getElem? {α : Type} {R : α → α → Prop} {l : List α} :
    l.Pairwise R ↔ ∀ i j : ℕ, ∀ a b, i < j → l[i]? = some a → l[j]? = some b → R a b := by
  rw [List.pairwise_iff_getElem]
  constructor
  · intro h i j a b hij ha hb
    obtain ⟨hi, rfl⟩ := List.getElem?_eq_some_iff.mp ha
    obtain ⟨hj, rfl⟩ := List.getElem?_eq_some_iff.mp hb
    exact h i j hi hj hij
  · intro h i j hi hj hij
    exact h i j _ _ hij (List.getElem?_eq_getElem hi) (List.getElem?_eq_getElem hj)

/-- Rows that agree on an index have equal values in its columns. -/
theorem AgreeOn.eqList (h : AgreeOn tableDef d.columns r r') :
    ∃ vs ws, TableScanner.indexValues tableDef d r = .ok vs ∧
      TableScanner.indexValues tableDef d r' = .ok ws ∧ Value.eqList ws vs = true := by
  unfold TableScanner.indexValues
  generalize d.columns = columns at h ⊢
  induction columns with
  | nil => exact ⟨[], [], rfl, rfl, by simp only [Value.eqList]⟩
  | cons c columns ih =>
    obtain ⟨hc, hcolumns⟩ := List.forall_mem_cons.mp h
    obtain ⟨i, v, w, hi, hv, hw, heq, -, -⟩ := hc
    obtain ⟨vs, ws, hvs, hws, hlist⟩ := ih hcolumns
    refine ⟨v :: vs, w :: ws, ?_, ?_, ?_⟩
    · rw [List.filterMap_cons_some hi, List.mapM_cons, hv, hvs]
      rfl
    · rw [List.filterMap_cons_some hi, List.mapM_cons, hw, hws]
      rfl
    · rw [Value.eqList, Value.eq_comm, heq, hlist]
      rfl

variable [DebugText]

/-- A row that passes the check agrees with no stored row on an index that is checked. -/
theorem not_agreeOn_of_check {row : Row} (hcheck : TableScanner.checkUniqueConstraints m t row = .ok ())
    (hd : d ∈ m.getTableUniqueIndexes t.definition.tableId) (hr : r ∈ t.data) :
    ¬ AgreeOn t.definition d.columns r row := by
  intro hagree
  obtain ⟨vs, ws, hvs, hws, heq⟩ := hagree.eqList
  have hindex := forM_eq_ok.mp hcheck d hd
  rw [hws] at hindex
  have hrow := forM_eq_ok.mp hindex r hr
  rw [TableScanner.checkExistingRow, hvs] at hrow
  simp [bind, Except.bind, heq] at hrow

/-- What the check leaves to the caller is the primary key. -/
theorem newKeys_iff_of_check {row : Row}
    (hcheck : TableScanner.checkUniqueConstraints m t row = .ok ()) :
    NewKeys m (fun _ => True) t row ↔ NewKeys m (fun d => d.primaryKey = true) t row := by
  constructor
  · exact fun h d hd _ => h d hd trivial
  · intro h d hd _ r hr
    by_cases hkey : d.primaryKey = true
    · exact h d hd hkey r hr
    · refine not_agreeOn_of_check hcheck ?_ hr
      rw [keyIndexes, List.mem_filter] at hd
      rw [IndexManager.getTableUniqueIndexes, List.mem_filter]
      refine ⟨hd.1, ?_⟩
      simpa [hkey] using hd.2

theorem stores_congr {Q Q' : SystemTable → Row → Prop}
    (h : ∀ t row, TableScanner.checkUniqueConstraints m t row = .ok () → (Q t row ↔ Q' t row))
    (rows : List (Row × Result Unit)) (t : SystemTable) : Stores m Q rows t ↔ Stores m Q' rows t := by
  induction rows generalizing t with
  | nil => exact Iff.rfl
  | cons p rows ih =>
    rw [Stores, Stores]
    refine imp_congr_right fun hcheck => ?_
    rw [h t p.1 hcheck, ih]

end Agreement

/-! ## Updates -/

section Update

variable [DebugText] {E : Type} {evaluate : Evaluator E} {s : Surroundings}
  {assignments : List (String × E)} {condition : Option E} {tableDef : TableDef}

/-- The update of a scanned row, if there is one, succeeds. -/
def Succeeds (evaluate : Evaluator E) (s : Surroundings) (assignments : List (String × E))
    (condition : Option E) (tableDef : TableDef) (p : Row × ℕ) : Prop :=
  selects evaluate condition tableDef p.1 →
    (∃ newRow, UpdateOperator.updatedRow evaluate assignments tableDef p.1 = .ok newRow) ∧
      s.persist p.2 = .ok ()

/-- An UPDATE replaces the row at a position: it gets that far, selects the row, and the new row is
valid. -/
def Replaces (evaluate : Evaluator E) (s : Surroundings) (assignments : List (String × E))
    (condition : Option E) (tableDef : TableDef) (rows : List (Row × ℕ)) (n : ℕ) (newRow : Row) : Prop :=
  (∀ p ∈ rows.take n, Succeeds evaluate s assignments condition tableDef p) ∧
    ∃ p, rows[n]? = some p ∧ selects evaluate condition tableDef p.1 ∧
      UpdateOperator.updatedRow evaluate assignments tableDef p.1 = .ok newRow

theorem replaces_zero {p : Row × ℕ} {rows : List (Row × ℕ)} {newRow : Row} :
    Replaces evaluate s assignments condition tableDef (p :: rows) 0 newRow ↔
      selects evaluate condition tableDef p.1 ∧
        UpdateOperator.updatedRow evaluate assignments tableDef p.1 = .ok newRow := by
  simp [Replaces]

theorem replaces_succ {p : Row × ℕ} {rows : List (Row × ℕ)} {n : ℕ} {newRow : Row} :
    Replaces evaluate s assignments condition tableDef (p :: rows) (n + 1) newRow ↔
      Succeeds evaluate s assignments condition tableDef p ∧
        Replaces evaluate s assignments condition tableDef rows n newRow := by
  simp only [Replaces, List.take_succ_cons, List.forall_mem_cons, List.getElem?_cons_succ, and_assoc]

/-- The row at a position after an UPDATE: a replaced one, or that of before. -/
theorem getElem?_rowsAfterUpdate (rows : List (Row × ℕ)) (n : ℕ) (r : Row) :
    (rowsAfterUpdate evaluate s assignments condition tableDef rows)[n]? = some r ↔
      Replaces evaluate s assignments condition tableDef rows n r ∨
        (∀ newRow, ¬ Replaces evaluate s assignments condition tableDef rows n newRow) ∧
          (rows.map Prod.fst)[n]? = some r := by
  induction rows generalizing n with
  | nil => simp [rowsAfterUpdate, Replaces]
  | cons p rows ih =>
    obtain ⟨row, i⟩ := p
    rw [rowsAfterUpdate]
    cases n with
    | zero =>
      simp only [replaces_zero]
      by_cases hsel : selects evaluate condition tableDef row
      · rcases UpdateOperator.updatedRow evaluate assignments tableDef row with e | newRow
        · simp [hsel]
        · rcases s.persist i with e | ⟨⟩ <;> simp [hsel]
      · simp [hsel]
    | succ n =>
      simp only [replaces_succ]
      by_cases hsel : selects evaluate condition tableDef row
      · rcases hnew : UpdateOperator.updatedRow evaluate assignments tableDef row with e | newRow
        · simp [hsel, hnew, Succeeds]
        · rcases hpersist : s.persist i with e | ⟨⟩
          · simp [hsel, hnew, hpersist, Succeeds]
          · simpa [hsel, hnew, hpersist, Succeeds] using ih n
      · simpa [hsel, Succeeds] using ih n

/-- A row that an UPDATE stores agrees on no key with a row at another position. -/
def SparesKeys (evaluate : Evaluator E) (m : IndexManager) (s : Surroundings)
    (assignments : List (String × E)) (condition : Option E) (t : SystemTable) : Prop :=
  let replaces := Replaces evaluate s assignments condition t.definition t.data.zipIdx
  ∀ d ∈ keyIndexes m t.definition.tableId, ∀ i j newRow other, i ≠ j → replaces i newRow →
    replaces j other ∨ (∀ r, ¬ replaces j r) ∧ t.data[j]? = some other →
    ¬ AgreeOn t.definition d.columns newRow other

theorem keysUnique_update_iff {m : IndexManager} {t : SystemTable} (h : KeysUnique m t) :
    KeysUnique m (final (UpdateOperator.execute evaluate s assignments condition) t) ↔
      SparesKeys evaluate m s assignments condition t := by
  rw [final_update]
  change (∀ d ∈ keyIndexes m t.definition.tableId, _) ↔ ∀ d ∈ keyIndexes m t.definition.tableId, _
  refine forall₂_congr fun d hd => ?_
  change (rowsAfterUpdate evaluate s assignments condition t.definition t.data.zipIdx).Pairwise
    (fun r r' => ¬ AgreeOn t.definition d.columns r r') ↔ _
  have hold := pairwise_iff_getElem?.mp (h d hd)
  rw [pairwise_iff_getElem?]
  simp only [getElem?_rowsAfterUpdate, List.zipIdx_map_fst]
  constructor
  · intro hafter i j newRow other hij hnew hother
    rcases Nat.lt_or_gt_of_ne hij with hlt | hgt
    · exact hafter i j newRow other hlt (.inl hnew) hother
    · exact fun hagree => hafter j i other newRow hgt hother (.inl hnew) hagree.symm
  · intro hspares i j a b hij ha hb
    rcases ha with hnew | ⟨hkept, ha⟩
    · exact hspares i j a b hij.ne hnew hb
    rcases hb with hnew | ⟨-, hb⟩
    · exact fun hagree => hspares j i b a hij.ne' hnew (.inr ⟨hkept, ha⟩) hagree.symm
    · exact hold i j a b hij ha hb

end Update

/-! ## Runs -/

section Runs

open RowStatement

variable [DebugText] {E : Type} {evaluate : Evaluator E} {m : IndexManager} {t : SystemTable}

/-- What the check does not do: an INSERT stores no primary key that is there already, and an UPDATE
makes no two rows agree on a key. -/
def SparesAllKeys (evaluate : Evaluator E) (m : IndexManager) (t : SystemTable) : Step E → Prop
  | (s, .insert columns values) =>
    Stores m (NewKeys m fun d => d.primaryKey = true)
      ((InsertOperator.fullRows evaluate s columns values t.definition).zipIdx.map
        fun p => (p.1, s.persist p.2)) t
  | (s, .update assignments condition) => SparesKeys evaluate m s assignments condition t
  | (_, .delete _) => True

/-- A statement returns an error if, executed without regard to indexes, it would make two rows agree
on a key. -/
def RefusesDuplicates (evaluate : Evaluator E) (m : IndexManager) (t : SystemTable) (op : Step E) : Prop :=
  ¬ KeysUnique m (step evaluate IndexManager.new t op) →
    ∃ e t', execute evaluate m op.1 op.2 t = .error e t'

theorem keysUnique_step_iff (h : KeysUnique m t) (op : Step E) :
    KeysUnique m (step evaluate m t op) ↔ SparesAllKeys evaluate m t op := by
  obtain ⟨s, statement⟩ := op
  cases statement with
  | insert columns values =>
    have hrows := insertRows_iff (m := m) (t := t) (keysUnique_insert (m := m))
      ((InsertOperator.fullRows evaluate s columns values t.definition).zipIdx.map
        fun p => (p.1, s.persist p.2))
    rw [and_iff_right h, stores_congr fun t row => newKeys_iff_of_check] at hrows
    exact hrows
  | update assignments condition => exact keysUnique_update_iff h
  | delete condition =>
    apply iff_of_true _ trivial
    obtain ⟨data, hdata, hfinal⟩ := final_delete evaluate s condition t
    change KeysUnique m (final (DeleteOperator.execute evaluate s condition) t)
    rw [hfinal]
    exact fun d hd => (h d hd).sublist hdata

/-- Without indexes there is nothing to check. -/
theorem check_new (t : SystemTable) (row : Row) :
    TableScanner.checkUniqueConstraints IndexManager.new t row = .ok () := rfl

/-- An INSERT that returns would have returned without the check. -/
theorem insertRows_new {rows : List (Row × Result Unit)} {t' : SystemTable}
    (hrun : InsertOperator.insertRows m rows t = .ok () t') :
    InsertOperator.insertRows IndexManager.new rows t = .ok () t' := by
  induction rows generalizing t with
  | nil => exact hrun
  | cons p rows ih =>
    obtain ⟨row, persist⟩ := p
    rcases hcheck : TableScanner.checkUniqueConstraints m t row with e | ⟨⟩
    · rw [insertRows_of_refused hcheck] at hrun
      cases hrun
    rcases persist with e | ⟨⟩
    · rw [insertRows_of_error hcheck] at hrun
      cases hrun
    · rw [insertRows_of_ok hcheck] at hrun
      rw [insertRows_of_ok (check_new t row)]
      exact ih hrun

theorem refusesDuplicates (op : Step E) (h : KeysUnique m (step evaluate m t op)) :
    RefusesDuplicates evaluate m t op := by
  obtain ⟨s, statement⟩ := op
  intro hduplicate
  rcases hrun : execute evaluate m s statement t with ⟨⟨⟩, t'⟩ | ⟨e, t'⟩
  swap
  · exact ⟨e, t', rfl⟩
  exfalso
  apply hduplicate
  have hnew : execute evaluate IndexManager.new s statement t = .ok () t' := by
    cases statement with
    | insert columns values => exact insertRows_new hrun
    | update assignments condition => exact hrun
    | delete condition => exact hrun
  rw [step, final, hrun] at h
  rw [step, final, hnew]
  exact h

/-- Over every sequence of statements from an empty table, no two rows agree on a primary key or unique
index, and a statement that would make them agree returns an error, if and only if no INSERT stores a
primary key that is there already and no UPDATE makes rows agree on a key. -/
theorem keysUnique_iff (evaluate : Evaluator E) (m : IndexManager) (tableDef : TableDef)
    (ops : List (Step E)) :
    ((∀ pre, pre <+: ops → KeysUnique m (run evaluate m ⟨tableDef, []⟩ pre)) ∧
      ∀ pre op post, ops = pre ++ op :: post →
        RefusesDuplicates evaluate m (run evaluate m ⟨tableDef, []⟩ pre) op) ↔
      ∀ pre op post, ops = pre ++ op :: post →
        SparesAllKeys evaluate m (run evaluate m ⟨tableDef, []⟩ pre) op := by
  have hempty : KeysUnique m ⟨tableDef, []⟩ := fun d _ => List.Pairwise.nil
  unfold run
  rw [forall_prefix_iff hempty]
  simp only [← forall_and]
  refine forall_step_iff (I := KeysUnique m)
    (G := fun t op => KeysUnique m (step evaluate m t op) ∧ RefusesDuplicates evaluate m t op)
    hempty ?_ ?_ ops
  · exact fun t op _ hstep => hstep.1
  · intro t op h
    rw [← keysUnique_step_iff h]
    exact and_iff_left_of_imp (refusesDuplicates op)

end Runs

/-- A primary key is stored twice. -/
theorem insert_repeats_key :
    ¬ ∀ (_ : DebugText) (m : IndexManager) (tableDef : TableDef) (ops : List (RowStatement.Step Value)),
      ∀ pre, pre <+: ops → KeysUnique m (RowStatement.run literalValue m ⟨tableDef, []⟩ pre) := by
  intro h
  let texts : DebugText := ⟨fun _ => "", fun _ => "", fun _ => ""⟩
  let tableDef : TableDef := ⟨2, "t", 1, [⟨1, "a", .integer, false, none, true, false, none⟩], []⟩
  let d : IndexDef := ⟨1, "pk_t", 2, ["a"], .btree, true, true, true⟩
  let surroundings : Surroundings := ⟨fun _ => .ok (), fun _ => .ok (), fun _ _ => 1⟩
  let op : RowStatement.Step Value := (surroundings, .insert [] [[.integer 1]])
  have hrun : RowStatement.run literalValue (IndexManager.new.withIndex d) ⟨tableDef, []⟩ [op, op] =
      ⟨tableDef, [[.integer 1], [.integer 1]]⟩ := rfl
  have hkeys := h texts (IndexManager.new.withIndex d) tableDef [op, op] _ (List.prefix_refl _)
  rw [hrun] at hkeys
  have hunique := hkeys d (List.mem_singleton_self _)
  apply List.rel_of_pairwise_cons hunique (List.mem_singleton_self _)
  intro c hc
  obtain rfl := List.mem_singleton.mp hc
  exact ⟨0, .integer 1, .integer 1, rfl, rfl, rfl, by decide, rfl, rfl⟩

end Rustgresql
