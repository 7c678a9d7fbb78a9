import Rustgresql.Executor.Expression

/-!
# Selected rows

UPDATE finds a row by its position in a scan, DELETE by positions that it collects first. Nevertheless
both touch the selected rows, and no others: `touches_selected`.
-/

namespace Rustgresql

open StateSpec

variable {E : Type}

/-- WHERE evaluates to TRUE, or there is none. -/
def IsSelected (evaluate : Evaluator E) (condition : Option E) (t : TableDef) (row : Row) : Prop :=
  ∀ e ∈ condition, ∃ v, evaluate e (createEvaluationContext t.columnNames row) = .ok v ∧
    ThreeValuedLogic.fromValue v = .true

theorem fromValue_eq_true {v : Value} : ThreeValuedLogic.fromValue v = .true ↔ v.isTrue = true := by
  cases v
  case null => simp [ThreeValuedLogic.fromValue, Value.isTrue]
  all_goals
    rw [ThreeValuedLogic.fromValue]
    · split <;> simp_all
    · nofun

theorem isSelected_iff {evaluate : Evaluator E} {condition : Option E} {t : TableDef} {row : Row} :
    IsSelected evaluate condition t row ↔ selects evaluate condition t row = true := by
  rcases condition with - | e
  · simp [IsSelected, selects]
  · simp only [IsSelected, selects, Option.mem_def, Option.some.injEq, forall_eq', fromValue_eq_true]
    rcases evaluate e (createEvaluationContext t.columnNames row) with - | v
    · simp
    · simp

instance (evaluate : Evaluator E) (condition : Option E) (t : TableDef) :
    DecidablePred (IsSelected evaluate condition t) :=
  fun _ => decidable_of_iff _ isSelected_iff.symm

/-- The last assignment to a column. -/
def assignedTo (t : TableDef) (assignments : List (String × E)) (i : ℕ) : Option E :=
  (LastMatch.find (fun a => a.1 ∈ t.columnNames ∧ t.columnNames.idxOf a.1 = i) assignments).map Prod.snd

/-- A row in which the assigned columns have the values of the assignments on the old row. -/
def IsAssigned (evaluate : Evaluator E) (assignments : List (String × E)) (t : TableDef)
    (row newRow : Row) : Prop :=
  newRow.length = row.length ∧ ∀ i v, row[i]? = some v → ∃ v', newRow[i]? = some v' ∧
    match assignedTo t assignments i with
    | some e => evaluate e (createEvaluationContext t.columnNames row) = .ok v'
    | none => v' = v

/-- What an UPDATE makes of a row. -/
def IsUpdated (evaluate : Evaluator E) (assignments : List (String × E)) (condition : Option E)
    (t : TableDef) (row newRow : Row) : Prop :=
  if IsSelected evaluate condition t row then IsAssigned evaluate assignments t row newRow else newRow = row

/-! ## DELETE -/

section Delete

variable {evaluate : Evaluator E} {s : Surroundings} {condition : Option E}

/-- The positions of the selected rows, from the last to the first. -/
def selectedPositions (evaluate : Evaluator E) (condition : Option E) (t : TableDef) (rows : List Row) :
    List ℕ :=
  ((rows.zipIdx.filter fun p => selects evaluate condition t p.1).map Prod.snd).reverse

theorem selectedPositions_append_singleton (t : TableDef) (rows : List Row) (row : Row) :
    selectedPositions evaluate condition t (rows ++ [row]) =
      if selects evaluate condition t row then
        rows.length :: selectedPositions evaluate condition t rows
      else selectedPositions evaluate condition t rows := by
  have hzip : (rows ++ [row]).zipIdx = rows.zipIdx ++ [(row, rows.length)] := by
    rw [List.zipIdx_append, List.zipIdx_singleton, Nat.zero_add]
  rw [selectedPositions, hzip, List.filter_append, List.map_append, List.reverse_append]
  split
  · next hsel => simp [selectedPositions, hsel]
  · next hsel => simp [selectedPositions, hsel]

/-- The rows behind those that are still to be processed are done. -/
theorem deleteRows_spec (t : TableDef) (rows tail : List Row) :
    Spec (DeleteOperator.deleteRows s (selectedPositions evaluate condition t rows)) ⟨t, rows ++ tail⟩
      (fun _ t' => t' = ⟨t, rows.filter (fun row => ¬ IsSelected evaluate condition t row) ++ tail⟩)
      (fun e t' => (∃ i, s.logDelete i = .error e ∨ s.persist i = .error e) ∧
        ∃ pre post, rows = pre ++ post ∧
          t' = ⟨t, pre ++ (post.filter (fun row => ¬ IsSelected evaluate condition t row) ++ tail)⟩) := by
  induction rows using List.reverseRecOn generalizing tail with
  | nil => exact Spec.pure rfl
  | append_singleton rows row ih =>
    rw [selectedPositions_append_singleton]
    by_cases hsel : selects evaluate condition t row = true
    · have hremove : SystemTable.deleteRow rows.length ⟨t, rows ++ [row] ++ tail⟩ = ⟨t, rows ++ tail⟩ := by
        simp [SystemTable.deleteRow, List.eraseIdx_append_of_length_le]
      rw [if_pos hsel, DeleteOperator.deleteRows]
      rcases hlog : s.logDelete rows.length with e | ⟨⟩
      · exact Spec.throw ⟨⟨_, .inl hlog⟩, rows ++ [row], [], by simp, by simp⟩
      refine Spec.bind (Spec.of_ok (ofResult_ok () _) (Q := fun _ t' => t' = _) rfl) ?_
      rintro ⟨⟩ _ rfl
      refine Spec.bind (Spec.of_ok (Q := fun _ t' => t' = ⟨t, rows ++ tail⟩) rfl hremove) ?_
      rintro ⟨⟩ _ rfl
      rcases hpersist : s.persist rows.length with e | ⟨⟩
      · exact Spec.throw ⟨⟨_, .inr hpersist⟩, rows, [row], rfl, by simp [isSelected_iff, hsel]⟩
      refine Spec.bind (Spec.of_ok (ofResult_ok () _) (Q := fun _ t' => t' = _) rfl) ?_
      rintro ⟨⟩ _ rfl
      refine (ih tail).mono ?_ ?_
      · rintro - t' rfl
        simp [isSelected_iff, hsel]
      · rintro e t' ⟨hrefused, pre, post, rfl, rfl⟩
        exact ⟨hrefused, pre, post ++ [row], by simp, by simp [isSelected_iff, hsel]⟩
    · rw [if_neg hsel]
      have hrows : rows ++ [row] ++ tail = rows ++ row :: tail := by simp
      rw [hrows]
      refine (ih (row :: tail)).mono ?_ ?_
      · rintro - t' rfl
        simp [isSelected_iff, hsel]
      · rintro e t' ⟨hrefused, pre, post, rfl, rfl⟩
        exact ⟨hrefused, pre, post ++ [row], by simp, by simp [isSelected_iff, hsel]⟩

end Delete

/-! ## UPDATE -/

section Update

variable {evaluate : Evaluator E} {s : Surroundings} {assignments : List (String × E)}
  {condition : Option E} {t : TableDef}

theorem assignedTo_cons (name : String) (e : E) (i : ℕ) :
    assignedTo t ((name, e) :: assignments) i = (assignedTo t assignments i).or
      (if name ∈ t.columnNames ∧ t.columnNames.idxOf name = i then some e else none) := by
  rw [assignedTo, LastMatch.find_cons, Option.map_or, assignedTo]
  congr 1
  split <;> simp_all

/-- Every column has the value of the last assignment to it. -/
theorem assign_spec {context : EvaluationContext} {row newRow : Row}
    (h : UpdateOperator.assign evaluate t context assignments row = .ok newRow) :
    newRow.length = row.length ∧ ∀ i v, row[i]? = some v → ∃ v', newRow[i]? = some v' ∧
      match assignedTo t assignments i with
      | some e => evaluate e context = .ok v'
      | none => v' = v := by
  induction assignments generalizing row with
  | nil =>
    obtain rfl := Except.ok.inj h
    exact ⟨rfl, fun i v hv => ⟨v, hv, rfl⟩⟩
  | cons a assignments ih =>
    obtain ⟨name, e⟩ := a
    rw [UpdateOperator.assign] at h
    rcases heval : evaluate e context with e' | value
    · rw [heval] at h
      cases h
    rw [heval] at h
    obtain ⟨hlength, hvalues⟩ := ih h
    refine ⟨hlength.trans (by split <;> simp), fun i v hv => ?_⟩
    rw [assignedTo_cons]
    by_cases hname : name ∈ t.columnNames ∧ t.columnNames.idxOf name = i
    · obtain ⟨hmem, rfl⟩ := hname
      have hlt := (List.getElem?_eq_some_iff.mp hv).1
      obtain ⟨v', hv', hlast⟩ := hvalues (t.columnNames.idxOf name) value
        (by rw [if_pos hmem, List.getElem?_set_self hlt])
      refine ⟨v', hv', ?_⟩
      rw [if_pos ⟨hmem, rfl⟩]
      rcases hlater : assignedTo t assignments (t.columnNames.idxOf name) with - | e'
      · rw [hlater] at hlast
        rw [hlast]
        exact heval
      · rw [hlater] at hlast
        exact hlast
    · rw [if_neg hname, Option.or_none]
      refine hvalues i v ?_
      split
      · next hmem => rwa [List.getElem?_set_ne fun h => hname ⟨hmem, h⟩]
      · exact hv

/-- A row that is stored has the assigned columns. -/
theorem isAssigned_of_ok [DebugText] {row newRow : Row}
    (h : UpdateOperator.updatedRow evaluate assignments t row = .ok newRow) :
    IsAssigned evaluate assignments t row newRow := by
  obtain ⟨assigned, hassign, h⟩ := Result.bind_eq_ok.mp h
  obtain ⟨-, -, h⟩ := Result.bind_eq_ok.mp h
  cases h
  exact assign_spec hassign

/-- The rows that an UPDATE has processed when it returns: all of them -/
def Updated (evaluate : Evaluator E) (assignments : List (String × E)) (condition : Option E)
    (t : TableDef) (done rest : List Row) (t' : SystemTable) : Prop :=
  ∃ rows, t' = ⟨t, done ++ rows⟩ ∧ List.Forall₂ (IsUpdated evaluate assignments condition t) rest rows

theorem Updated.cons {done rest : List Row} {row newRow : Row} {t' : SystemTable}
    (hrow : IsUpdated evaluate assignments condition t row newRow)
    (h : Updated evaluate assignments condition t (done ++ [newRow]) rest t') :
    Updated evaluate assignments condition t done (row :: rest) t' := by
  obtain ⟨rows, rfl, hrows⟩ := h
  exact ⟨newRow :: rows, by simp, .cons hrow hrows⟩

variable [DebugText]

/-- The rows that an UPDATE has processed when it fails: some from the first on. The storage refuses one of
them, or the next one that is selected cannot be updated. -/
def Interrupted (evaluate : Evaluator E) (s : Surroundings) (assignments : List (String × E))
    (condition : Option E) (t : TableDef) (done rest : List Row) (e : Failure) (t' : SystemTable) : Prop :=
  ((∃ i, s.persist i = .error e) ∨ ∃ row ∈ rest, IsSelected evaluate condition t row ∧
    UpdateOperator.updatedRow evaluate assignments t row = .error e) ∧
  ∃ pre rows post, rest = pre ++ post ∧ t' = ⟨t, done ++ (rows ++ post)⟩ ∧
    List.Forall₂ (IsUpdated evaluate assignments condition t) pre rows

theorem Interrupted.cons {done rest : List Row} {row newRow : Row} {e : Failure} {t' : SystemTable}
    (hrow : IsUpdated evaluate assignments condition t row newRow)
    (h : Interrupted evaluate s assignments condition t (done ++ [newRow]) rest e t') :
    Interrupted evaluate s assignments condition t done (row :: rest) e t' := by
  obtain ⟨hreason, pre, rows, post, rfl, rfl, hrows⟩ := h
  refine ⟨hreason.imp id ?_, row :: pre, newRow :: rows, post, rfl, by simp, .cons hrow hrows⟩
  rintro ⟨row', hmem, hfails⟩
  exact ⟨row', List.mem_cons_of_mem _ hmem, hfails⟩

/-- The rows before those that are still to be processed are done. -/
theorem updateRows_spec (done rest : List Row) :
    Spec (UpdateOperator.updateRows evaluate s assignments condition (rest.zipIdx done.length))
      ⟨t, done ++ rest⟩ (fun _ => Updated evaluate assignments condition t done rest)
      (Interrupted evaluate s assignments condition t done rest) := by
  induction rest generalizing done with
  | nil => exact Spec.pure ⟨[], rfl, .nil⟩
  | cons row rest ih =>
    have hnext (newRow : Row) (hrow : IsUpdated evaluate assignments condition t row newRow) :
        Spec (UpdateOperator.updateRows evaluate s assignments condition (rest.zipIdx (done.length + 1)))
          ⟨t, done ++ newRow :: rest⟩ (fun _ => Updated evaluate assignments condition t done (row :: rest))
          (Interrupted evaluate s assignments condition t done (row :: rest)) := by
      have hdone := ih (done ++ [newRow])
      rw [List.length_append, List.length_singleton, List.append_assoc, List.singleton_append] at hdone
      exact hdone.mono (fun _ _ => .cons hrow) fun _ _ => .cons hrow
    rw [List.zipIdx_cons, UpdateOperator.updateRows]
    by_cases hsel : selects evaluate condition t row = true
    · have hselected := isSelected_iff.mpr hsel
      rcases hnew : UpdateOperator.updatedRow evaluate assignments t row with e | newRow
      · have hfails := updateSelected_of_error (s := s) (i := done.length)
          (t := ⟨t, done ++ row :: rest⟩) hsel hnew
        rw [Spec, bind_of_error hfails]
        exact ⟨.inr ⟨row, List.mem_cons_self, hselected, hnew⟩, [], [], row :: rest, rfl, rfl, .nil⟩
      · have hrow : IsUpdated evaluate assignments condition t row newRow := by
          rw [IsUpdated, if_pos hselected]
          exact isAssigned_of_ok hnew
        have hstored := updateSelected_of_ok (s := s) (i := done.length)
          (t := ⟨t, done ++ row :: rest⟩) hsel hnew
        have hset : SystemTable.updateRow done.length newRow ⟨t, done ++ row :: rest⟩ =
            ⟨t, done ++ newRow :: rest⟩ := by
          simp [SystemTable.updateRow]
        rw [hset] at hstored
        rcases hpersist : s.persist done.length with e | ⟨⟩
        · rw [hpersist, ofResult_error] at hstored
          rw [Spec, bind_of_error hstored]
          exact ⟨.inl ⟨_, hpersist⟩, [row], [newRow], rest, rfl, by simp, .cons hrow .nil⟩
        · rw [hpersist, ofResult_ok] at hstored
          rw [Spec, bind_of_ok hstored]
          exact hnext newRow hrow
    · have hrow : IsUpdated evaluate assignments condition t row row := by
        rw [IsUpdated, if_neg (mt isSelected_iff.mp hsel)]
      rw [Spec, bind_of_ok (updateSelected_of_not hsel)]
      exact hnext row hrow

end Update

end Rustgresql
