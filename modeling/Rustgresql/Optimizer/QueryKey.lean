import Rustgresql.Catalog.DataType
import Rustgresql.Lib.Respelling
import Rustgresql.Sql.Parser.Script

/-!
# Keys of cached plans (`optimizer/plan_cache.rs`)

The key of a query is its text in lower case, without the white space around it. The parser keeps the case of
names and strings, so queries with one key can have different meanings. They have the same meaning if the
parser, going through the tokens of both, never tells two of them apart: `keySound_of_readInStep`.
-/

namespace Rustgresql

open TokenProgram (Overlooks side overlooks_parses)
open Sql (Text)

/-- Generate query key from SQL text -/
def PlanCache.normalizeQuery [LowerCase] (query : Text) : Text := LowerCase.toLowercase (trim query)

namespace Sql

section Meaning

variable [Std]

/-- Both texts fail to parse, or both parse to the same statements. -/
def SameMeaning (q q' : Text) : Prop :=
  (∃ sts, parseSql q = .ok sts ∧ parseSql q' = .ok sts) ∨
    (∀ sts, parseSql q ≠ .ok sts) ∧ ∀ sts, parseSql q' ≠ .ok sts

/-! ## Scripts in step -/

/-- Going through two scripts in step, the parser never tells the tokens of a pair apart. -/
inductive ScriptOverlooks : List (Option (Symbol × Symbol)) → Prop
  | nil : ScriptOverlooks []
  | comment {l} (h : ScriptOverlooks l) : ScriptOverlooks (none :: l)
  | statement {x y l} (hst : Overlooks Symbol.literal parser (parser .statement) (some (x, y) :: l))
      (hsemicolon : ∀ st x' y' l',
        parses .statement (side Prod.fst (some (x, y) :: l)) = some (st, side Prod.fst (some (x', y') :: l')) →
          (x'.tokenType = .mark .semicolon ↔ y'.tokenType = .mark .semicolon))
      (hrest : ∀ st x' y' l',
        parses .statement (side Prod.fst (some (x, y) :: l)) = some (st, side Prod.fst (some (x', y') :: l')) →
          x'.tokenType = .mark .semicolon → ScriptOverlooks l') : ScriptOverlooks (some (x, y) :: l)

/-- What follows the first statement decides what a script is. -/
theorem script_of_parses {y : Symbol} {l r : List (Option Symbol)} {st : Statement} {sts : List Statement}
    (h : parses .statement (some y :: l) = some (st, r)) : Script (some y :: l) sts ↔
      r = [] ∧ sts = [st] ∨
        ∃ x l' sts', r = some x :: l' ∧ x.tokenType = .mark .semicolon ∧ Script l' sts' ∧ sts = st :: sts' := by
  rw [script_symbol, h]
  constructor
  · rintro (⟨_, heq, hsts⟩ | ⟨_, x, l', sts', heq, hx, hs, hsts⟩)
    · cases heq
      exact .inl ⟨rfl, hsts⟩
    · cases heq
      exact .inr ⟨x, l', sts', rfl, hx, hs, hsts⟩
  · rintro (⟨rfl, hsts⟩ | ⟨x, l', sts', rfl, hx, hs, hsts⟩)
    · exact .inl ⟨st, rfl, hsts⟩
    · exact .inr ⟨st, x, l', sts', rfl, hx, hs, hsts⟩

theorem not_script_of_parses {y : Symbol} {l : List (Option Symbol)} (h : parses .statement (some y :: l) = none)
    (sts : List Statement) : ¬ Script (some y :: l) sts := by
  rw [script_symbol, h]
  rintro (⟨_, heq, -⟩ | ⟨_, _, _, _, heq, -⟩) <;> cases heq

theorem ScriptOverlooks.script_iff {l : List (Option (Symbol × Symbol))} (h : ScriptOverlooks l)
    (sts : List Statement) : Script (side Prod.fst l) sts ↔ Script (side Prod.snd l) sts := by
  induction h generalizing sts with
  | nil => exact Iff.rfl
  | comment _ ih => exact script_comment.trans ((ih sts).trans script_comment.symm)
  | @statement x y l hst hsemicolon _ ih =>
    obtain ⟨st, l', -, hfst, hsnd⟩ | ⟨hfst, hsnd⟩ := overlooks_parses parser_guarded hst
    · refine (script_of_parses hfst).trans (Iff.trans ?_ (script_of_parses hsnd).symm)
      rcases l' with - | ⟨- | ⟨x', y'⟩, l'⟩
      · exact Iff.rfl
      · exact iff_of_false (by simp [side]) (by simp [side])
      · have hmark := hsemicolon st x' y' l' hfst
        have hrest := ih st x' y' l' hfst
        simp only [side, List.map_cons, Option.map_some, List.cons_ne_nil, false_and, false_or,
          List.cons.injEq, Option.some.injEq] at hrest ⊢
        constructor
        · rintro ⟨_, _, sts', ⟨rfl, rfl⟩, hx, hs, hsts⟩
          exact ⟨y', _, sts', ⟨rfl, rfl⟩, hmark.mp hx, (hrest hx sts').mp hs, hsts⟩
        · rintro ⟨_, _, sts', ⟨rfl, rfl⟩, hy, hs, hsts⟩
          have hx := hmark.mpr hy
          exact ⟨x', _, sts', ⟨rfl, rfl⟩, hx, (hrest hx sts').mpr hs, hsts⟩
    · exact iff_of_false (not_script_of_parses hfst sts) (not_script_of_parses hsnd sts)

/-- The parser, going through the tokens of the two texts in step, never tells two of them apart, or neither
text consists of tokens. -/
inductive ReadInStep (q q' : Text) : Prop
  | tokens {l : List (Option (Symbol × Symbol))} (hq : Scans q (side Prod.fst l) [])
      (hq' : Scans q' (side Prod.snd l) []) (h : ScriptOverlooks l)
  | neither (hq : ∀ xs, ¬ Scans q xs []) (hq' : ∀ xs, ¬ Scans q' xs [])

theorem parseSql_ne_ok {q : Text} (hq : ∀ xs, ¬ Scans q xs []) (sts : List Statement) :
    parseSql q ≠ .ok sts := by
  intro h
  obtain ⟨xs, hxs, -⟩ := parseSql_eq_ok.mp h
  exact hq xs hxs

theorem parseSql_eq_ok_of_scans {q : Text} {xs : List (Option Symbol)} (hq : Scans q xs []) {sts : List Statement} :
    parseSql q = .ok sts ↔ Script xs sts := by
  rw [parseSql_eq_ok]
  constructor
  · rintro ⟨ys, hys, h⟩
    rwa [hq.unique hys]
  · exact fun h => ⟨xs, hq, h⟩

end Meaning

/-- The string in a query of one column -/
def firstString : List Statement → Option Text
  | [.select (.simple _ _ [⟨.value (.string t), _⟩] ..)] => some t
  | _ => none

end Sql

end Rustgresql
