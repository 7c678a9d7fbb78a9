import Rustgresql.Executor.Expression.Operators

/-!
# Comparisons and IN

`comparisonLaws_iff`: the comparison operators are those of a linear order, except that a timestamp is not equal
to itself. `isDisjunction_iff`: IN is the disjunction of equalities unless a NULL element decides it.
-/

namespace Rustgresql

open Sql (BinaryOperator)

namespace ExpressionEvaluator

variable {S : Type}

/-- The value of an operator on two values -/
def compared (ops : Operations S) (op : BinaryOperator) (a b : Value) : Result Value :=
  evaluate ops (.withColumns ∅) (.binaryOp (.value a) op (.value b))

theorem compared_eq {ops : Operations S} {op : BinaryOperator} (a b : Value) :
    compared ops op a b = evaluateBinaryOperation ops op a b := by
  have hcontext : rightContext op (.value b : Expression S) (.withColumns ∅) = .withColumns ∅ := by
    cases op <;> rfl
  rw [compared, evaluate, hcontext, evaluate, evaluate]
  rfl

/-! ## The order -/

/-- Values that are both integers, strings, Booleans or timestamps -/
def SameKind : Value → Value → Prop
  | .integer _, .integer _ => True
  | .string _, .string _ => True
  | .boolean _, .boolean _ => True
  | .timestamp _, .timestamp _ => True
  | _, _ => False

theorem SameKind.not_null {a b : Value} (h : SameKind a b) : a.isNull = false ∧ b.isNull = false := by
  cases a <;> cases b <;> first | exact ⟨rfl, rfl⟩ | exact h.elim

/-- Exactly one of three statements holds. -/
def ExactlyOne (P Q R : Prop) : Prop := (P ∧ ¬Q ∧ ¬R) ∨ (¬P ∧ Q ∧ ¬R) ∨ (¬P ∧ ¬Q ∧ R)

/-- The laws that tie the comparison operators together -/
structure ComparisonLaws (ops : Operations S) (a b : Value) : Prop where
  one : ExactlyOne (compared ops .lessThan a b = .ok (.boolean true)) (compared ops .equals a b = .ok (.boolean true))
    (compared ops .greaterThan a b = .ok (.boolean true))
  lessThanOrEquals : ∃ lt eq, compared ops .lessThan a b = .ok (.boolean lt) ∧
    compared ops .equals a b = .ok (.boolean eq) ∧ compared ops .lessThanOrEquals a b = .ok (.boolean (lt || eq))
  greaterThanOrEquals : ∃ gt eq, compared ops .greaterThan a b = .ok (.boolean gt) ∧
    compared ops .equals a b = .ok (.boolean eq) ∧ compared ops .greaterThanOrEquals a b = .ok (.boolean (gt || eq))
  notEquals : ∃ eq, compared ops .equals a b = .ok (.boolean eq) ∧ compared ops .notEquals a b = .ok (.boolean !eq)
  trans : ∀ c, SameKind b c → compared ops .lessThan a b = .ok (.boolean true) →
    compared ops .lessThan b c = .ok (.boolean true) → compared ops .lessThan a c = .ok (.boolean true)

section Laws

variable [FloatOperators] [DebugText] {p : EvaluatorParameters S} {depth : ℕ} {a b c : Value}

theorem evaluateBinaryOperation_of_not_null (ha : a.isNull = false) (hb : b.isNull = false) {op : BinaryOperator}
    (hop : op ≠ .and ∧ op ≠ .or) :
    evaluateBinaryOperation (evaluatorOperations p depth) op a b = evaluateOperator p op a b := by
  have hbinary : (evaluatorOperations p depth).binary = evaluateOperator p := evaluatorOperations_binary
  rw [← hbinary]
  unfold evaluateBinaryOperation
  rw [if_neg (by simp [ha, hb])]
  cases op
  case and => exact absurd rfl hop.1
  case or => exact absurd rfl hop.2
  all_goals rfl

theorem compared_of_sameKind (h : SameKind a b) {op : BinaryOperator} (hop : op ≠ .and ∧ op ≠ .or) :
    compared (evaluatorOperations p depth) op a b = evaluateOperator p op a b := by
  rw [compared_eq, evaluateBinaryOperation_of_not_null h.not_null.1 h.not_null.2 hop]

/-- The values of the six operators, by the three tables that they are read off -/
theorem compared_values (h : SameKind a b) {lt gt : Bool} (hlt : lessThan a b = some lt)
    (hgt : greaterThan a b = some gt) :
    compared (evaluatorOperations p depth) .lessThan a b = .ok (.boolean lt) ∧
    compared (evaluatorOperations p depth) .equals a b = .ok (.boolean (valuesEqual a b)) ∧
    compared (evaluatorOperations p depth) .greaterThan a b = .ok (.boolean gt) ∧
    compared (evaluatorOperations p depth) .lessThanOrEquals a b = .ok (.boolean (lt || valuesEqual a b)) ∧
    compared (evaluatorOperations p depth) .greaterThanOrEquals a b = .ok (.boolean !lt) ∧
    compared (evaluatorOperations p depth) .notEquals a b = .ok (.boolean !valuesEqual a b) := by
  have hless : evaluateLessThan a b = .ok (.boolean lt) := by rw [evaluateLessThan, hlt]; rfl
  refine ⟨?_, ?_, ?_, ?_, ?_, ?_⟩ <;> rw [compared_of_sameKind h (by decide)]
  · exact hless
  · rfl
  · show evaluateGreaterThan a b = _
    rw [evaluateGreaterThan, hgt]
    rfl
  · show evaluateLessThanOrEquals a b = _
    rw [evaluateLessThanOrEquals, hless]
    rfl
  · show evaluateGreaterThanOrEquals a b = _
    rw [evaluateGreaterThanOrEquals, hless]
    rfl
  · rfl

/-- Values that are compared by the keys of a linear order obey the laws if and only if equal keys make them
equal. -/
theorem laws_iff_of_keys {α : Type} [LinearOrder α] {x y : α} (h : SameKind a b)
    (hlt : lessThan a b = some (decide (x < y))) (hgt : greaterThan a b = some (decide (y < x)))
    (heq : valuesEqual a b = true → x = y)
    (htrans : ∀ c, SameKind b c → lessThan a b = some true → lessThan b c = some true → lessThan a c = some true) :
    ComparisonLaws (evaluatorOperations p depth) a b ↔ (x = y → valuesEqual a b = true) := by
  obtain ⟨hless, hequals, hgreater, hle, hge, hne⟩ := compared_values (p := p) h hlt hgt
  constructor
  · intro hlaws hxy
    subst hxy
    obtain ⟨gt, eq, hgt', heq', hge'⟩ := hlaws.greaterThanOrEquals
    rw [hgreater] at hgt'
    rw [hequals] at heq'
    rw [hge] at hge'
    simp only [lt_irrefl, decide_false, Except.ok.injEq, Value.boolean.injEq] at hgt' heq' hge'
    rw [heq', ← Bool.false_or eq, hgt']
    exact hge'.symm
  · intro hsame
    have hvalues : valuesEqual a b = decide (x = y) := by
      rw [Bool.eq_iff_iff, decide_eq_true_eq]
      exact ⟨heq, hsame⟩
    rw [hvalues] at hequals hle hne
    refine ⟨?_, ⟨_, _, hless, hequals, hle⟩, ⟨_, _, hgreater, hequals, ?_⟩, ⟨_, hequals, hne⟩, fun c hc hab hbc => ?_⟩
    · rw [hless, hequals, hgreater]
      simp only [Except.ok.injEq, Value.boolean.injEq, decide_eq_true_eq, ExactlyOne]
      rcases lt_trichotomy x y with hxy | hxy | hxy
      · exact .inl ⟨hxy, hxy.ne, hxy.not_gt⟩
      · exact .inr (.inl ⟨hxy ▸ lt_irrefl _, hxy, hxy ▸ lt_irrefl _⟩)
      · exact .inr (.inr ⟨hxy.not_gt, hxy.ne', hxy⟩)
    · rw [hge, Except.ok.injEq, Value.boolean.injEq, Bool.eq_iff_iff, Bool.not_eq_true', decide_eq_false_iff_not,
        Bool.or_eq_true, decide_eq_true_eq, decide_eq_true_eq, not_lt, le_iff_lt_or_eq, eq_comm (a := y)]
    · have hac : SameKind a c := by
        cases a <;> cases b <;> cases c <;> trivial
      rw [compared_of_sameKind hac (by decide)]
      rw [compared_of_sameKind h (by decide)] at hab
      rw [compared_of_sameKind hc (by decide)] at hbc
      have htrue {v w : Value} (hvw : evaluateOperator p .lessThan v w = .ok (.boolean true)) :
          lessThan v w = some true := by
        have hvalue : ofComparison (lessThan v w) = .boolean true := Except.ok.inj hvw
        rcases hcompare : lessThan v w with - | t
        · rw [hcompare] at hvalue
          cases hvalue
        · rw [hcompare] at hvalue
          rw [Value.boolean.inj hvalue]
      show evaluateLessThan a c = _
      rw [evaluateLessThan, htrans c hc (htrue hab) (htrue hbc)]
      rfl

end Laws

/-- The comparison operators obey the laws on two values of one kind if and only if the values are not the same
timestamp. -/
theorem comparisonLaws_iff [FloatOperators] [DebugText] (p : EvaluatorParameters S) (depth : ℕ) {a b : Value}
    (h : SameKind a b) : ComparisonLaws (evaluatorOperations p depth) a b ↔
      ∀ nanos, ¬ (a = .timestamp nanos ∧ b = .timestamp nanos) := by
  cases a <;> cases b <;> try exact h.elim
  case integer.integer i j =>
    rw [laws_iff_of_keys (x := i) (y := j) h rfl rfl (fun heq => of_decide_eq_true heq)]
    · exact iff_of_true (fun heq => decide_eq_true heq) nofun
    · rintro ⟨k⟩ hc hab hbc <;> try exact hc.elim
      simp only [lessThan, Option.some.injEq, decide_eq_true_eq] at hab hbc ⊢
      exact hab.trans hbc
  case string.string s t =>
    rw [laws_iff_of_keys (x := s) (y := t) h rfl rfl (fun heq => of_decide_eq_true heq)]
    · exact iff_of_true (fun heq => decide_eq_true heq) nofun
    · rintro c hc hab hbc
      cases c <;> try exact hc.elim
      simp only [lessThan, Option.some.injEq, decide_eq_true_eq] at hab hbc ⊢
      exact hab.trans hbc
  case boolean.boolean l r =>
    rw [laws_iff_of_keys (x := l) (y := r) h (by cases l <;> cases r <;> rfl) (by cases l <;> cases r <;> rfl)
      (fun heq => of_decide_eq_true heq)]
    · exact iff_of_true (fun heq => decide_eq_true heq) nofun
    · rintro c hc hab hbc
      cases c <;> try exact hc.elim
      revert hab hbc
      cases l <;> cases r <;> simp [lessThan]
  case timestamp.timestamp m n =>
    rw [laws_iff_of_keys (x := m) (y := n) h rfl rfl (fun heq => by cases heq)]
    · constructor
      · rintro hsame nanos ⟨hm, hn⟩
        cases hm
        cases hn
        cases hsame rfl
      · rintro hne rfl
        exact absurd ⟨rfl, rfl⟩ (hne m)
    · rintro c hc hab hbc
      cases c <;> try exact hc.elim
      simp only [lessThan, Option.some.injEq, decide_eq_true_eq] at hab hbc ⊢
      exact hab.trans hbc

theorem comparisonLaws_integers : letI : DebugText := ⟨fun _ => "", fun _ => "", fun _ => ""⟩
    letI : FloatOperators := noFloats
    ComparisonLaws (evaluatorOperations noParameters 0) (.integer 1) (.integer 2) := by
  let texts : DebugText := ⟨fun _ => "", fun _ => "", fun _ => ""⟩
  let operators : FloatOperators := noFloats
  have hkind : SameKind (.integer 1) (.integer 2) := trivial
  exact (comparisonLaws_iff noParameters 0 hkind).mpr nofun

/-- A timestamp is not equal to itself. -/
theorem timestamp_not_equal : ¬ ∀ (_ : FloatOperators) (_ : DebugText) (S : Type) (p : EvaluatorParameters S)
    (depth : ℕ) (a b : Value), SameKind a b → ComparisonLaws (evaluatorOperations p depth) a b := by
  intro h
  let texts : DebugText := ⟨fun _ => "", fun _ => "", fun _ => ""⟩
  obtain ⟨gt, eq, hgt, heq, hge⟩ :=
    (h noFloats texts Unit noParameters 0 (.timestamp 0) (.timestamp 0) trivial).greaterThanOrEquals
  cases hgt
  cases heq
  cases hge

/-! ## IN -/

/-- The truth of an equality -/
def equality (ops : Operations S) (x e : Value) : ThreeValuedLogic :=
  match compared ops .equals x e with
  | .ok v => .fromValue v
  | .error _ => .unknown

/-- The disjunction of the equalities of a value with the elements of a list -/
def equalsAny (ops : Operations S) (x : Value) (l : List Value) : ThreeValuedLogic :=
  l.foldr (fun e truth => (equality ops x e).or truth) .false

def inList (x : Value) (l : List Value) : Expression S := .binaryOp (.value x) .in (.list (l.map .value))

/-- IN is the disjunction of equalities, and NOT IN its negation. So NOT IN is not true of a list with NULL. -/
structure IsDisjunction (ops : Operations S) (context : Context) (x : Value) (l : List Value) : Prop where
  isIn : evaluate ops context (inList x l) = .ok (equalsAny ops x l).toValue
  notIn : evaluate ops context (.unaryOp .not (inList x l)) = .ok (equalsAny ops x l).not.toValue
  null : .null ∈ l → evaluate ops context (.unaryOp .not (inList x l)) ≠ .ok (.boolean true)

section In

variable {x : Value} {l : List Value} {context : Context}

theorem isNull_eq_true {v : Value} (h : v.isNull = true) : v = .null := by
  cases v <;> first | rfl | cases h

theorem any_isNull_iff : l.any Value.isNull = true ↔ .null ∈ l := by
  rw [List.any_eq_true]
  refine ⟨?_, fun h => ⟨_, h, rfl⟩⟩
  rintro ⟨e, he, hnull⟩
  rwa [← isNull_eq_true hnull]

theorem evaluateAll_values (ops : Operations S) (context : Context) (l : List Value) :
    evaluateAll ops context (l.map .value) = .ok l := by
  induction l with
  | nil => rfl
  | cons v l ih =>
    rw [List.map_cons, evaluateAll, evaluate, ih]
    rfl

theorem evaluate_inList {ops : Operations S} :
    evaluate ops context (inList x l) = evaluateBinaryOperation ops .in x (.list l) := by
  rw [inList, evaluate, evaluate, rightContext, evaluate, evaluateAll_values]
  · rfl
  · intros
    contradiction

/-- NOT of the value of IN -/
theorem evaluate_notIn {ops : Operations S} {t : ThreeValuedLogic}
    (h : evaluate ops context (inList x l) = .ok t.toValue) :
    evaluate ops context (.unaryOp .not (inList x l)) = .ok t.not.toValue := by
  rw [evaluate, h]
  cases t <;> rfl

variable [FloatOperators]

theorem valuesEqual_null (x : Value) : valuesEqual x .null = false := by cases x <;> rfl

variable [DebugText] {p : EvaluatorParameters S} {depth : ℕ}

/-- NULL is IN no list, not even the empty one. -/
theorem evaluate_inList_null :
    evaluate (evaluatorOperations p depth) context (inList .null l) = .ok .null := by
  rw [evaluate_inList]
  rfl

theorem evaluate_inList_of_not_null (hx : x.isNull = false) :
    evaluate (evaluatorOperations p depth) context (inList x l) = .ok (.boolean (l.any (valuesEqual x))) := by
  rw [evaluate_inList, evaluateBinaryOperation_of_not_null hx rfl (by decide)]
  rfl

theorem equality_null_left (e : Value) : equality (evaluatorOperations p depth) .null e = .unknown := by
  rw [equality, compared_eq]
  rfl

theorem equality_null_right (x : Value) : equality (evaluatorOperations p depth) x .null = .unknown := by
  rw [equality, compared_eq]
  cases x <;> rfl

theorem equality_of_not_null {e : Value} (hx : x.isNull = false) (he : e.isNull = false) :
    equality (evaluatorOperations p depth) x e = if valuesEqual x e then .true else .false := by
  rw [equality, compared_eq, evaluateBinaryOperation_of_not_null hx he (by decide)]
  rfl

/-- The disjunction for NULL -/
theorem equalsAny_null : equalsAny (evaluatorOperations p depth) .null l = if l = [] then .false else .unknown := by
  induction l with
  | nil => rfl
  | cons e l ih =>
    rw [if_neg (List.cons_ne_nil e l)]
    rw [equalsAny] at ih
    rw [equalsAny, List.foldr_cons, ih, equality_null_left]
    split_ifs <;> rfl

/-- The disjunction for other values: an equal element makes it true, and otherwise a NULL element unknown. -/
theorem equalsAny_of_not_null (hx : x.isNull = false) : equalsAny (evaluatorOperations p depth) x l =
    if l.any (valuesEqual x) then .true else if l.any Value.isNull then .unknown else .false := by
  induction l with
  | nil => rfl
  | cons e l ih =>
    rw [equalsAny] at ih
    rw [equalsAny, List.foldr_cons, ih]
    rw [List.any_cons, List.any_cons]
    rcases he : e.isNull
    · rw [equality_of_not_null hx he, Bool.false_or]
      by_cases heq : valuesEqual x e = true
      · rw [if_pos heq, heq, Bool.true_or, if_pos rfl]
        split_ifs <;> rfl
      · rw [if_neg heq, Bool.not_eq_true _ |>.mp heq, Bool.false_or]
        split_ifs <;> rfl
    · obtain rfl := isNull_eq_true he
      rw [equality_null_right, valuesEqual_null, Bool.false_or, Bool.true_or, if_pos rfl]
      split_ifs <;> rfl

theorem any_valuesEqual_iff (hx : x.isNull = false) : l.any (valuesEqual x) = true ↔
    ∃ e ∈ l, compared (evaluatorOperations p depth) .equals x e = .ok (.boolean true) := by
  rw [List.any_eq_true]
  refine exists_congr fun e => and_congr_right fun _ => ?_
  rcases he : e.isNull
  · rw [compared_eq, evaluateBinaryOperation_of_not_null hx he (by decide)]
    refine ⟨fun h => ?_, fun h => Value.boolean.inj (Except.ok.inj h)⟩
    show evaluateEquals x e = _
    rw [evaluateEquals, h]
  · obtain rfl := isNull_eq_true he
    rw [compared_eq, valuesEqual_null]
    refine iff_of_false nofun fun h => ?_
    cases x <;> cases h

theorem isDisjunction_null_iff : IsDisjunction (evaluatorOperations p depth) context .null l ↔ l ≠ [] := by
  constructor
  · rintro h rfl
    have hvalue := h.isIn
    rw [evaluate_inList_null] at hvalue
    cases hvalue
  · intro hl
    have hin : evaluate (evaluatorOperations p depth) context (inList .null l) =
        .ok (equalsAny (evaluatorOperations p depth) .null l).toValue := by
      rw [evaluate_inList_null, equalsAny_null, if_neg hl]
      rfl
    refine ⟨hin, evaluate_notIn hin, fun _ => ?_⟩
    rw [evaluate_notIn hin, equalsAny_null, if_neg hl]
    exact nofun

theorem isDisjunction_iff_of_not_null (hx : x.isNull = false) :
    IsDisjunction (evaluatorOperations p depth) context x l ↔ (.null ∈ l → l.any (valuesEqual x) = true) := by
  have hin : evaluate (evaluatorOperations p depth) context (inList x l) = .ok (.boolean (l.any (valuesEqual x))) :=
    evaluate_inList_of_not_null hx
  rw [← any_isNull_iff]
  constructor
  · intro h hnull
    by_contra hnone
    have hvalue := h.isIn
    rw [hin, equalsAny_of_not_null hx, if_neg hnone, if_pos hnull, (Bool.not_eq_true _).mp hnone] at hvalue
    cases hvalue
  · intro h
    have htruth : Value.boolean (l.any (valuesEqual x)) = (equalsAny (evaluatorOperations p depth) x l).toValue := by
      rw [equalsAny_of_not_null hx]
      rcases hequal : l.any (valuesEqual x)
      · rw [if_neg Bool.false_ne_true, if_neg fun hnull => Bool.false_ne_true (hequal.symm.trans (h hnull))]
        rfl
      · rw [if_pos rfl]
        rfl
    rw [htruth] at hin
    refine ⟨hin, evaluate_notIn hin, fun hnull => ?_⟩
    rw [evaluate_notIn hin, equalsAny_of_not_null hx, if_pos (h (any_isNull_iff.mpr hnull))]
    exact nofun

end In

/-- IN is the disjunction of the equalities with the elements if and only if the value is not NULL, or there are
elements, and no element is NULL, or some element is equal to the value. -/
theorem isDisjunction_iff [FloatOperators] [DebugText] (p : EvaluatorParameters S) (depth : ℕ) (context : Context)
    (x : Value) (l : List Value) : IsDisjunction (evaluatorOperations p depth) context x l ↔
      (x = .null → l ≠ []) ∧ (x ≠ .null → .null ∈ l → ∃ e ∈ l, compared (evaluatorOperations p depth) .equals x e =
        .ok (.boolean true)) := by
  rcases hx : x.isNull
  · have hne : x ≠ .null := by
      rintro rfl
      cases hx
    rw [isDisjunction_iff_of_not_null hx, any_valuesEqual_iff hx]
    exact ⟨fun h => ⟨fun hnull => absurd hnull hne, fun _ => h⟩, fun h => h.2 hne⟩
  · obtain rfl := isNull_eq_true hx
    rw [isDisjunction_null_iff]
    exact ⟨fun h => ⟨fun _ => h, fun hne => absurd rfl hne⟩, fun h => h.1 rfl⟩

/-- 1 NOT IN (2, NULL) is true. -/
theorem notIn_null : ¬ ∀ (_ : FloatOperators) (_ : DebugText) (S : Type) (p : EvaluatorParameters S) (depth : ℕ)
    (context : Context) (x : Value) (l : List Value), IsDisjunction (evaluatorOperations p depth) context x l := by
  intro h
  let texts : DebugText := ⟨fun _ => "", fun _ => "", fun _ => ""⟩
  exact (h noFloats texts Unit noParameters 0 (.withColumns ∅) (.integer 1) [.integer 2, .null]).null
    (List.mem_cons_of_mem _ List.mem_cons_self) rfl

end ExpressionEvaluator

end Rustgresql
