import Rustgresql.Executor.DebugText
import Rustgresql.Executor.Expression.Operators

/-!
# Constraint mapping (`catalog/constraint_mapping.rs`)

The catalog keeps the condition of a CHECK as a text, and reads the text back as a string. `not_survives`: there is no
expression whose text has its value for every row. `mapping_eq_iff`: table constraints come back from the catalog
unchanged exactly if none of them is a CHECK and none has a name.
-/

namespace Rustgresql

open Sql (BinaryOperator Text)

/-- Errors that can occur during constraint mapping -/
inductive ConstraintMappingError
  | expressionSerializationFailed (msg : String)

/-- Result type for constraint mapping operations -/
abbrev MappingResult (α : Type) := Except ConstraintMappingError α

namespace ConstraintMapping

open ExpressionEvaluator (Context Operations evaluate evaluateBinaryOperation)

/-! ## Conditions as texts -/

/-- Formats a BinaryOperator as a string -/
def formatBinaryOperator : BinaryOperator → Text
  | .equals => ['=']
  | .notEquals => ['!', '=']
  | .lessThan => ['<']
  | .lessThanOrEquals => ['<', '=']
  | .greaterThan => ['>']
  | .greaterThanOrEquals => ['>', '=']
  | .like => ['L', 'I', 'K', 'E']
  | .iLike => ['I', 'L', 'I', 'K', 'E']
  | .in => ['I', 'N']
  | .and => ['A', 'N', 'D']
  | .or => ['O', 'R']
  | .is => ['I', 'S']
  | .isNot => ['I', 'S', ' ', 'N', 'O', 'T']
  | .add => ['+']
  | .subtract => ['-']
  | .multiply => ['*']
  | .divide => ['/']
  | .concatenate => ['|', '|']

variable {S : Type}

/-- Deserializes a string representation back to an expression -/
def deserializeExpression (exprStr : String) : Expression S := .value (.string exprStr)

section Texts

variable [DebugText]

/-- Serializes an expression to a string representation -/
def serializeExpression : Expression S → MappingResult String
  | .value v | .literal v => .ok (DebugText.value v)
  | .column (some tableName) name => .ok (tableName ++ "." ++ name)
  | .column none name => .ok name
  | .binaryOp left op right => do
    let leftStr ← serializeExpression left
    let rightStr ← serializeExpression right
    return leftStr ++ " " ++ String.ofList (formatBinaryOperator op) ++ " " ++ rightStr
  | _ => .error (.expressionSerializationFailed "Complex expression serialization not yet implemented")

/-! ## Table constraints -/

/-- The constraint in the catalog -/
def toCatalog : Sql.TableConstraint (Expression S) → MappingResult TableConstraint
  | .primaryKey columns _ => .ok (.primaryKey (columns.map String.ofList))
  | .foreignKey columns refTable refColumns _ =>
    .ok (.foreignKey (columns.map String.ofList) (String.ofList refTable) (refColumns.map String.ofList))
  | .unique columns _ => .ok (.unique (columns.map String.ofList))
  | .check condition _ => TableConstraint.check <$> serializeExpression condition

/-- Converts AST table constraints to catalog table constraints -/
def mapTableConstraintsToCatalog : List (Sql.TableConstraint (Expression S)) → MappingResult (List TableConstraint)
  | [] => .ok []
  | constraint :: constraints => do
    let catalogConstraint ← toCatalog constraint
    let catalogConstraints ← mapTableConstraintsToCatalog constraints
    return catalogConstraint :: catalogConstraints

/-- The constraint from the catalog. NOT NULL is a constraint of columns. -/
def toAst : TableConstraint → Option (Sql.TableConstraint (Expression S))
  | .primaryKey columns => some (.primaryKey (columns.map String.toList) none)
  | .foreignKey columns referencedTable referencedColumns =>
    some (.foreignKey (columns.map String.toList) referencedTable.toList (referencedColumns.map String.toList) none)
  | .unique columns => some (.unique (columns.map String.toList) none)
  | .check condition => some (.check (deserializeExpression condition) none)
  | .notNull _ => none

/-- Converts catalog table constraints back to AST table constraints -/
def mapCatalogTableConstraintsToAst (constraints : List TableConstraint) : List (Sql.TableConstraint (Expression S)) :=
  constraints.filterMap toAst

end Texts

/-- Neither a CHECK nor with a name -/
def IsUnnamedKey : Sql.TableConstraint (Expression S) → Prop
  | .primaryKey _ name | .foreignKey _ _ _ name | .unique _ name => name = none
  | .check _ _ => False

/-! ## What the texts of values contain -/

/-- A vertical bar or a plus sign -/
def isMark (c : Char) : Bool := c = '|' ∨ c = '+'

/-- How many vertical bars and plus signs a text has -/
def marks (text : String) : ℕ := text.toList.countP isMark

theorem marks_append (s t : String) : marks (s ++ t) = marks s + marks t := by
  rw [marks, String.toList_append, List.countP_append, marks, marks]

/-- The derived texts of values, of which those of numbers have no vertical bar and no plus sign -/
structure ShowsValues [DebugText] (unprintable : Char → Bool) : Prop where
  derived : DebugText.IsDerived unprintable
  bar : unprintable '|' = false
  plus : unprintable '+' = false
  float : ∀ bits, marks (DebugText.value (.float bits)) = 0

/-- NULL, a truth value or a number -/
def IsUnmarked : Value → Prop
  | .null | .boolean _ | .integer _ | .float _ => True
  | _ => False

theorem countP_toString (i : ℤ) : (toString i).toList.countP isMark = 0 := by
  rw [List.countP_eq_zero]
  intro c hc hmark
  have hdigit (n : ℕ) : c ∉ Nat.toDigits 10 n := by
    refine DebugText.not_mem_toDigits (fun k hk hck => ?_) n
    subst hck
    clear hc
    revert k
    decide
  rcases i with n | n
  · exact hdigit n (DebugText.toList_toString_natCast n ▸ hc)
  · rw [DebugText.toList_toString_negSucc, List.mem_cons] at hc
    rcases hc with rfl | hc
    · cases hmark
    · exact hdigit (n + 1) hc

theorem countP_enclose {before after : List Char} (hbefore : before.countP isMark = 0) (hafter : after.countP isMark = 0)
    (l : List Char) : (before ++ l ++ after).countP isMark = l.countP isMark := by
  rw [List.countP_append, List.countP_append, hbefore, hafter, Nat.zero_add, Nat.add_zero]

theorem length_le_escape (unprintable : Char → Bool) (l : List Char) :
    l.length ≤ (l.flatMap (DebugText.escapeDebug unprintable)).length := by
  induction l with
  | nil => exact le_rfl
  | cons c l ih =>
    rw [List.flatMap_cons, List.length_append, List.length_cons]
    have hc : DebugText.escapeDebug unprintable c ≠ [] := by
      unfold DebugText.escapeDebug
      split
      · exact List.cons_ne_nil _ _
      · split
        · simp
        · exact List.cons_ne_nil _ _
    have hpos := List.length_pos_iff.mpr hc
    omega

section Marks

variable [DebugText] {unprintable : Char → Bool} (h : ShowsValues unprintable)

include h

theorem toList_value {v : Value} (hv : SetOperationOperator.IsPlain v) : (DebugText.value v).toList =
    "Value \x7b kind: ".toList ++ DebugText.derivedKind unprintable v ++ " \x7d".toList := by
  rw [h.derived v hv]
  exact String.toList_ofList

theorem marks_value {v : Value} (hv : SetOperationOperator.IsPlain v) :
    marks (DebugText.value v) = (DebugText.derivedKind unprintable v).countP isMark := by
  have hbefore : "Value \x7b kind: ".toList.countP isMark = 0 := by decide
  have hafter : " \x7d".toList.countP isMark = 0 := by decide
  rw [marks, toList_value h hv]
  exact countP_enclose hbefore hafter _

theorem marks_of_isUnmarked {v : Value} (hv : IsUnmarked v) : marks (DebugText.value v) = 0 := by
  cases v with
  | null =>
    have hkind : "Null(NullValue)".toList.countP isMark = 0 := by decide
    exact (marks_value h (v := .null) trivial).trans hkind
  | boolean b =>
    have hkind : ("Boolean(".toList ++ ((if b then "true" else "false").toList ++ [')'])).countP isMark = 0 := by
      cases b <;> decide
    exact (marks_value h (v := .boolean b) trivial).trans hkind
  | integer i =>
    have hbefore : "Integer(".toList.countP isMark = 0 := by decide
    have hkind : ("Integer(".toList ++ ((toString i).toList ++ [')'])).countP isMark = 0 := by
      rw [← List.append_assoc, countP_enclose hbefore (by decide)]
      exact countP_toString i
    exact (marks_value h (v := .integer i) trivial).trans hkind
  | float bits => exact h.float bits
  | string s => exact hv.elim
  | timestamp t => exact hv.elim
  | list vs => exact hv.elim

theorem countP_le_escape (l : List Char) :
    l.countP isMark ≤ (l.flatMap (DebugText.escapeDebug unprintable)).countP isMark := by
  induction l with
  | nil => exact le_rfl
  | cons c l ih =>
    rw [List.flatMap_cons, List.countP_append, List.countP_cons]
    have hc : (if isMark c then 1 else 0) ≤ (DebugText.escapeDebug unprintable c).countP isMark := by
      split_ifs with hmark
      · have hsame : DebugText.escapeDebug unprintable c = [c] := by
          rcases of_decide_eq_true hmark with rfl | rfl
          · simp [DebugText.escapeDebug, DebugText.shortEscape, h.bar]
          · simp [DebugText.escapeDebug, DebugText.shortEscape, h.plus]
        rw [hsame, List.countP_cons, if_pos hmark]
        exact Nat.le_add_left _ _
      · exact Nat.zero_le _
    omega

theorem marks_le_value_string (s : String) : marks s ≤ marks (DebugText.value (.string s)) := by
  have hbefore : "String(\"".toList.countP isMark = 0 := by decide
  have hkind : ("String(\"".toList ++ (s.toList.flatMap (DebugText.escapeDebug unprintable) ++ ['\"']) ++
      [')']).countP isMark = (s.toList.flatMap (DebugText.escapeDebug unprintable)).countP isMark := by
    rw [countP_enclose hbefore (by decide), List.countP_append]
    exact Nat.add_zero _
  exact (countP_le_escape h s.toList).trans_eq ((marks_value h (v := .string s) trivial).trans hkind).symm

/-- A string is not its own text. -/
theorem value_string_ne (s : String) : DebugText.value (.string s) ≠ s := by
  intro heq
  have hkind : (DebugText.derivedKind unprintable (.string s)).length =
      ("String(\"".toList ++ (s.toList.flatMap (DebugText.escapeDebug unprintable) ++ ['\"']) ++ [')']).length := rfl
  have hlength := congrArg List.length (toList_value h (v := .string s) trivial)
  rw [heq, List.length_append, List.length_append, hkind, List.length_append, List.length_append,
    List.length_append, List.length_singleton, List.length_singleton] at hlength
  have hle := length_le_escape unprintable s.toList
  omega

end Marks

/-! ## What operators return -/

theorem isUnmarked_of_integer {x : Result ℤ} {r : Value} (h : Value.integer <$> x = .ok r) : IsUnmarked r := by
  rcases x with e | i
  · cases h
  · cases h
    trivial

theorem isUnmarked_ite {b : Prop} [Decidable b] {x : Result Value} {r : Value} (hx : x = .ok r → IsUnmarked r)
    (h : (if b then .ok .null else x) = .ok r) : IsUnmarked r := by
  split_ifs at h
  · cases h
    trivial
  · exact hx h

theorem isUnmarked_ofComparison (b : Option Bool) : IsUnmarked (ExpressionEvaluator.ofComparison b) := by
  cases b <;> trivial

theorem isUnmarked_toValue (a : ThreeValuedLogic) : IsUnmarked a.toValue := by
  cases a <;> trivial

theorem matchPattern_isUnmarked {p : ExpressionEvaluator.EvaluatorParameters S} {name flag : String} {v w r : Value}
    (h : ExpressionEvaluator.matchPattern p name flag v w = .ok r) : IsUnmarked r := by
  unfold ExpressionEvaluator.matchPattern at h
  split at h
  · split at h
    · cases h
      trivial
    · cases h
  · cases h

section Shown

variable [DebugText]

/-- A value as it stands in a concatenation -/
def shown : Value → String
  | .string s => s
  | v => DebugText.value v

theorem evaluateConcatenation_eq (v w : Value) :
    ExpressionEvaluator.evaluateConcatenation v w = .ok (.string (shown v ++ shown w)) := by
  cases v <;> cases w <;> rfl

end Shown

section Shown

variable [DebugText] {unprintable : Char → Bool} (h : ShowsValues unprintable)

include h

theorem marks_shown_le (v : Value) : marks (shown v) ≤ marks (DebugText.value v) := by
  cases v with
  | string s => exact marks_le_value_string h s
  | _ => exact le_rfl

theorem ne_string_value (v : Value) : v ≠ .string (DebugText.value v) := by
  cases v with
  | string s => exact fun heq => value_string_ne h s (Value.string.inj heq).symm
  | _ => exact nofun

end Shown

section Operators

variable [FloatOperators]

theorem evaluateSubtraction_isUnmarked {overflowChecks : Bool} {v w r : Value}
    (h : ExpressionEvaluator.evaluateSubtraction overflowChecks v w = .ok r) : IsUnmarked r := by
  cases v <;> cases w
  case integer.integer i j => exact isUnmarked_of_integer h
  all_goals cases h
  all_goals trivial

theorem evaluateMultiplication_isUnmarked {overflowChecks : Bool} {v w r : Value}
    (h : ExpressionEvaluator.evaluateMultiplication overflowChecks v w = .ok r) : IsUnmarked r := by
  cases v <;> cases w
  case integer.integer i j => exact isUnmarked_of_integer h
  all_goals cases h
  all_goals trivial

theorem evaluateDivision_isUnmarked {v w r : Value} (h : ExpressionEvaluator.evaluateDivision v w = .ok r) :
    IsUnmarked r := by
  cases v <;> cases w
  case integer.integer i j => exact isUnmarked_ite isUnmarked_of_integer h
  case float.float | integer.float | float.integer =>
    refine isUnmarked_ite (fun hr => ?_) h
    cases hr
    trivial
  all_goals cases h

theorem evaluateIn_isUnmarked {v w r : Value} (h : ExpressionEvaluator.evaluateIn v w = .ok r) : IsUnmarked r := by
  unfold ExpressionEvaluator.evaluateIn at h
  split at h
  · cases h
    trivial
  · split at h <;> cases h <;> trivial
  · cases h

variable [DebugText] {p : ExpressionEvaluator.EvaluatorParameters S} {depth : ℕ}

theorem evaluateAddition_cases {overflowChecks : Bool} {v w r : Value}
    (h : ExpressionEvaluator.evaluateAddition overflowChecks v w = .ok r) :
    IsUnmarked r ∨ r = .string (shown v ++ shown w) := by
  cases v <;> cases w
  case integer.integer i j => exact .inl (isUnmarked_of_integer h)
  all_goals cases h
  case string.string => exact .inr rfl
  all_goals exact .inl trivial

/-- An operator returns a value without marks, unless it concatenates, and then it is written with a mark. -/
theorem operator_cases {op : BinaryOperator} {v w r : Value}
    (h : evaluateBinaryOperation (ExpressionEvaluator.evaluatorOperations p depth) op v w = .ok r) :
    IsUnmarked r ∨ r = .string (shown v ++ shown w) ∧ 0 < (formatBinaryOperator op).countP isMark := by
  unfold evaluateBinaryOperation at h
  split_ifs at h with hnull
  · rw [ExpressionEvaluator.handleNullInBinaryOperation.eq_def] at h
    split at h <;> cases h <;> exact .inl trivial
  cases op <;> simp only [ExpressionEvaluator.evaluatorOperations_binary, ExpressionEvaluator.evaluateOperator] at h
  case add =>
    refine (evaluateAddition_cases h).imp_right fun hr => ⟨hr, ?_⟩
    decide
  case concatenate =>
    rw [evaluateConcatenation_eq] at h
    cases h
    exact .inr ⟨rfl, by decide⟩
  case subtract => exact .inl (evaluateSubtraction_isUnmarked h)
  case multiply => exact .inl (evaluateMultiplication_isUnmarked h)
  case divide => exact .inl (evaluateDivision_isUnmarked h)
  case like | iLike => exact .inl (matchPattern_isUnmarked h)
  case «in» => exact .inl (evaluateIn_isUnmarked h)
  case and | or =>
    cases h
    exact .inl (isUnmarked_toValue _)
  case lessThan | greaterThan =>
    cases h
    exact .inl (isUnmarked_ofComparison _)
  case lessThanOrEquals =>
    rw [ExpressionEvaluator.evaluateLessThanOrEquals_eq] at h
    cases h
    exact .inl (isUnmarked_ofComparison _)
  case greaterThanOrEquals =>
    rw [ExpressionEvaluator.evaluateGreaterThanOrEquals_eq] at h
    cases h
    exact .inl (isUnmarked_ofComparison _)
  case equals | notEquals =>
    cases h
    exact .inl trivial
  case is =>
    obtain ⟨b, hb⟩ := ExpressionEvaluator.evaluateIs_eq v w
    rw [hb] at h
    cases h
    exact .inl trivial
  case isNot =>
    obtain ⟨b, hb⟩ := ExpressionEvaluator.evaluateIsNot_eq v w
    rw [hb] at h
    cases h
    exact .inl trivial

end Operators

/-! ## Conditions do not survive -/

theorem serialize_binaryOp [DebugText] {left right : Expression S} {op : BinaryOperator} {text : String}
    (h : serializeExpression (.binaryOp left op right) = .ok text) : ∃ leftStr rightStr,
    serializeExpression left = .ok leftStr ∧ serializeExpression right = .ok rightStr ∧
      text = leftStr ++ " " ++ String.ofList (formatBinaryOperator op) ++ " " ++ rightStr := by
  rw [serializeExpression] at h
  rcases hleft : serializeExpression left with e | leftStr <;> rw [hleft] at h
  · cases h
  rcases hright : serializeExpression right with e | rightStr <;> rw [hright] at h
  · cases h
  · cases h
    exact ⟨leftStr, rightStr, rfl, rfl, rfl⟩

theorem rightContext_of_serialized [DebugText] {op : BinaryOperator} {right : Expression S} {text : String}
    {context : Context} (htext : serializeExpression right = .ok text) :
    ExpressionEvaluator.rightContext op right context = context := by
  cases right with
  | subquery query => cases htext
  | _ => cases op <;> rfl

section Survival

variable [FloatOperators] [DebugText] {unprintable : Char → Bool} (h : ShowsValues unprintable)
  {p : ExpressionEvaluator.EvaluatorParameters S} {depth : ℕ}

/-- An expression has the value of its text, whatever the row. -/
def Survives (ops : Operations S) (e : Expression S) (text : String) : Prop :=
  ∀ columns, evaluate ops (.withColumns columns) (deserializeExpression text) = evaluate ops (.withColumns columns) e

include h

/-- Where the row is empty, a value has no more marks than the text of its expression, and is not that text. -/
theorem evaluate_serialized : ∀ {e : Expression S} {text : String} {v : Value}, serializeExpression e = .ok text →
    evaluate (ExpressionEvaluator.evaluatorOperations p depth) (.withColumns ∅) e = .ok v →
    marks (shown v) ≤ marks text ∧ v ≠ .string text
  | .value v, text, v', htext, hv => by
    cases htext
    cases hv
    exact ⟨marks_shown_le h v, ne_string_value h v⟩
  | .literal v, text, v', htext, hv => by
    cases htext
    cases hv
    exact ⟨marks_shown_le h v, ne_string_value h v⟩
  | .column table name, text, v, htext, hv => by
    have hnull : v = .null := by
      cases table <;> exact (Except.ok.inj hv).symm
    subst hnull
    refine ⟨?_, nofun⟩
    have hmarks : marks (shown .null) = 0 := marks_of_isUnmarked h (v := .null) trivial
    omega
  | .binaryOp left op right, text, v, htext, hv => by
    obtain ⟨leftStr, rightStr, hleft, hright, rfl⟩ := serialize_binaryOp htext
    obtain ⟨leftVal, hleftVal, hv⟩ := Result.bind_eq_ok.mp hv
    rw [rightContext_of_serialized hright] at hv
    obtain ⟨rightVal, hrightVal, hv⟩ := Result.bind_eq_ok.mp hv
    obtain ⟨hleftMarks, -⟩ := evaluate_serialized hleft hleftVal
    obtain ⟨hrightMarks, -⟩ := evaluate_serialized hright hrightVal
    have hop : marks (String.ofList (formatBinaryOperator op)) = (formatBinaryOperator op).countP isMark := by
      rw [marks, String.toList_ofList]
    rcases operator_cases hv with hunmarked | ⟨rfl, hpos⟩
    · have hshown : shown v = DebugText.value v := by
        cases v <;> first | rfl | exact hunmarked.elim
      rw [hshown, marks_of_isUnmarked h hunmarked]
      refine ⟨Nat.zero_le _, ?_⟩
      rintro rfl
      exact hunmarked
    · -- the operator is written with a mark that is not in the value
      have hlt : marks (shown leftVal ++ shown rightVal) <
          marks (leftStr ++ " " ++ String.ofList (formatBinaryOperator op) ++ " " ++ rightStr) := by
        simp only [marks_append, hop]
        omega
      refine ⟨hlt.le, fun heq => ?_⟩
      rw [Value.string.inj heq] at hlt
      exact lt_irrefl _ hlt

/-- No expression has the value of its text on every row. -/
theorem not_survives {e : Expression S} {text : String} (htext : serializeExpression e = .ok text) :
    ¬ Survives (ExpressionEvaluator.evaluatorOperations p depth) e text := by
  intro hsurvives
  have hempty := hsurvives ∅
  rw [deserializeExpression, evaluate] at hempty
  exact (evaluate_serialized h htext hempty.symm).2 rfl

end Survival

/-! ## Constraints that come back -/

section Mapping

variable [DebugText]

/-- A constraint comes back from the catalog unless it is a CHECK or has a name. -/
theorem toAst_toCatalog_iff {unprintable : Char → Bool} (h : ShowsValues unprintable)
    {constraint : Sql.TableConstraint (Expression S)} {catalogConstraint : TableConstraint}
    (hcatalog : toCatalog constraint = .ok catalogConstraint) :
    toAst catalogConstraint = some constraint ↔ IsUnnamedKey constraint := by
  cases constraint with
  | primaryKey columns name =>
    cases hcatalog
    simp [toAst, IsUnnamedKey, eq_comm]
  | foreignKey columns refTable refColumns name =>
    cases hcatalog
    simp [toAst, IsUnnamedKey, eq_comm]
  | unique columns name =>
    cases hcatalog
    simp [toAst, IsUnnamedKey, eq_comm]
  | check condition name =>
    rcases htext : serializeExpression condition with e | text
    · rw [toCatalog, htext] at hcatalog
      cases hcatalog
    · rw [toCatalog, htext] at hcatalog
      cases hcatalog
      refine iff_of_false (fun heq => ?_) id
      cases heq
      exact value_string_ne h text (Except.ok.inj htext)

theorem toAst_isSome {constraint : Sql.TableConstraint (Expression S)} {catalogConstraint : TableConstraint}
    (hcatalog : toCatalog constraint = .ok catalogConstraint) :
    ∃ constraint' : Sql.TableConstraint (Expression S), toAst catalogConstraint = some constraint' := by
  cases constraint with
  | check condition name =>
    rcases htext : serializeExpression condition with e | text <;> rw [toCatalog, htext] at hcatalog <;> cases hcatalog
    exact ⟨_, rfl⟩
  | _ =>
    cases hcatalog
    exact ⟨_, rfl⟩

theorem mapping_eq_iff {unprintable : Char → Bool} (h : ShowsValues unprintable)
    {constraints : List (Sql.TableConstraint (Expression S))} {catalogConstraints : List TableConstraint}
    (hcatalog : mapTableConstraintsToCatalog constraints = .ok catalogConstraints) :
    mapCatalogTableConstraintsToAst catalogConstraints = constraints ↔ ∀ c ∈ constraints, IsUnnamedKey c := by
  induction constraints generalizing catalogConstraints with
  | nil =>
    cases hcatalog
    exact iff_of_true rfl nofun
  | cons constraint constraints ih =>
    rw [mapTableConstraintsToCatalog] at hcatalog
    rcases hfirst : toCatalog constraint with e | catalogConstraint <;> rw [hfirst] at hcatalog
    · cases hcatalog
    rcases hrest : mapTableConstraintsToCatalog constraints with e | rest <;> rw [hrest] at hcatalog
    · cases hcatalog
    cases hcatalog
    obtain ⟨constraint', hback⟩ := toAst_isSome hfirst
    have hiff := toAst_toCatalog_iff h hfirst
    rw [List.forall_mem_cons, ← ih hrest, ← hiff, hback, Option.some_inj, mapCatalogTableConstraintsToAst,
      List.filterMap_cons_some hback, List.cons.injEq]
    rfl

end Mapping

/-- No condition of a CHECK survives the catalog, and a list of table constraints comes back from it unchanged exactly
if none of them is a CHECK and none has a name. -/
theorem survives_iff [FloatOperators] [DebugText] {unprintable : Char → Bool} (h : ShowsValues unprintable)
    (p : ExpressionEvaluator.EvaluatorParameters S) (depth : ℕ) :
    (∀ (e : Expression S) text, serializeExpression e = .ok text →
      ¬ Survives (ExpressionEvaluator.evaluatorOperations p depth) e text) ∧
    ∀ (constraints : List (Sql.TableConstraint (Expression S))) catalogConstraints,
      mapTableConstraintsToCatalog constraints = .ok catalogConstraints →
      (mapCatalogTableConstraintsToAst catalogConstraints = constraints ↔ ∀ c ∈ constraints, IsUnnamedKey c) :=
  ⟨fun _ _ htext => not_survives h htext, fun _ _ hcatalog => mapping_eq_iff h hcatalog⟩

/-- The derived texts, with all characters printable -/
abbrev derivedTexts : DebugText := ⟨fun _ => "", DebugText.derivedValue fun _ => false, fun _ => ""⟩

theorem survives_iff_unique :
    let _texts := derivedTexts
    let _floats := ExpressionEvaluator.noFloats
    (∀ (e : Expression Unit) text, serializeExpression e = .ok text →
      ¬ Survives (ExpressionEvaluator.evaluatorOperations ExpressionEvaluator.noParameters 0) e text) ∧
    ∀ (constraints : List (Sql.TableConstraint (Expression Unit))) catalogConstraints,
      mapTableConstraintsToCatalog constraints = .ok catalogConstraints →
      (mapCatalogTableConstraintsToAst catalogConstraints = constraints ↔ ∀ c ∈ constraints, IsUnnamedKey c) := by
  intro _texts _floats
  have hempty : ("Value \x7b kind: ".toList ++ [] ++ " \x7d".toList).countP isMark = 0 := by decide
  have hshows : ShowsValues (fun _ => false) :=
    ⟨fun _ _ => rfl, rfl, rfl, fun _ => (congrArg (List.countP isMark) String.toList_ofList).trans hempty⟩
  exact survives_iff hshows ExpressionEvaluator.noParameters 0

/-- The condition a > 0 is true for one, and its text is a string. -/
theorem not_survives_positive :
    let _texts := derivedTexts
    let _floats := ExpressionEvaluator.noFloats
    ¬ ∀ (e : Expression Unit) text, serializeExpression e = .ok text →
      Survives (ExpressionEvaluator.evaluatorOperations ExpressionEvaluator.noParameters 0) e text := by
  intro _texts _floats h
  let e : Expression Unit := .binaryOp (.column none "a") .greaterThan (.value (.integer 0))
  have hrow := h e _ rfl ((∅ : HashMap String Value).insert "a" (.integer 1))
  have hvalue : evaluate (ExpressionEvaluator.evaluatorOperations ExpressionEvaluator.noParameters 0)
      (.withColumns ((∅ : HashMap String Value).insert "a" (.integer 1))) e = .ok (.boolean true) := rfl
  rw [hvalue] at hrow
  cases hrow

end ConstraintMapping

end Rustgresql
