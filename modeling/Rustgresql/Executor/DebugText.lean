import Rustgresql.Executor.SetOperation
import Rustgresql.Executor.Scanner
import Rustgresql.Lib.PrefixCode

/-!
# Debug texts of values

Groups are found by the `Debug` texts of their values. NULL, Booleans, integers and strings, with the strings
quoted and escaped, can be read off their texts: `groupKey_inj`.
-/

namespace Rustgresql

open PrefixCode

open SetOperationOperator (IsPlain IsPlainRow)

namespace DebugText

/-- The characters with a short escape sequence. -/
def shortEscape : Char → Option Char
  | '\x00' => some '0'
  | '\t' => some 't'
  | '\r' => some 'r'
  | '\n' => some 'n'
  | '\"' => some '\"'
  | '\\' => some '\\'
  | _ => none

/-- A character of a string between quotes. Which of the others are escaped is a table of the standard
library. -/
def escapeDebug (unprintable : Char → Bool) (c : Char) : List Char :=
  match shortEscape c with
  | some e => ['\\', e]
  | none => if unprintable c then "\\u\x7b".toList ++ Nat.toDigits 16 c.toNat ++ ['\x7d'] else [c]

/-- The derived text of a kind of value. -/
def derivedKind (unprintable : Char → Bool) : Value → List Char
  | .null => "Null(NullValue)".toList
  | .boolean b => "Boolean(".toList ++ ((if b then "true" else "false").toList ++ [')'])
  | .integer i => "Integer(".toList ++ ((toString i).toList ++ [')'])
  | .string s => "String(\"".toList ++ (s.toList.flatMap (escapeDebug unprintable) ++ ['\"']) ++ [')']
  | _ => []

/-- The derived text of a value. -/
def derivedValue (unprintable : Char → Bool) (v : Value) : String :=
  String.ofList ("Value \x7b kind: ".toList ++ derivedKind unprintable v ++ " \x7d".toList)

/-- The texts of NULL, Booleans, integers and strings are the derived ones. -/
def IsDerived [DebugText] (unprintable : Char → Bool) : Prop :=
  ∀ v, IsPlain v → DebugText.value v = derivedValue unprintable v

example : derivedValue (fun _ => false) (.string "a\"|\"b") = "Value \x7b kind: String(\"a\\\"|\\\"b\") \x7d" := rfl

/-! ## Reading the texts -/

theorem shortEscape_inj {c d e : Char} (hc : shortEscape c = some e) (hd : shortEscape d = some e) : c = d := by
  unfold shortEscape at hc hd
  split at hc <;> cases hc <;> split at hd <;> cases hd <;> rfl

theorem shortEscape_ne {c e : Char} (h : shortEscape c = some e) : e ≠ 'u' := by
  unfold shortEscape at h
  split at h <;> cases h <;> decide

theorem ne_of_shortEscape {c : Char} (h : shortEscape c = none) : c ≠ '\\' ∧ c ≠ '\"' := by
  constructor
  · rintro rfl
    cases h
  · rintro rfl
    cases h

theorem isPrefixCode_hex : IsPrefixCode Set.univ fun c : Char => Nat.toDigits 16 c.toNat ++ ['\x7d'] := by
  refine isPrefixCode_of_terminator (fun c _ d _ h => ?_) fun c _ hc => ?_
  · exact Char.toNat_inj.mp (toDigits_injective (by decide) (by decide) h)
  · obtain ⟨k, hk, heq⟩ := mem_toDigits (by decide) hc
    revert k
    decide

theorem isPrefixCode_escapeDebug (unprintable : Char → Bool) :
    IsPrefixCode Set.univ (escapeDebug unprintable) := by
  intro c _ d _ l l' h
  unfold escapeDebug at h
  rcases hc : shortEscape c with - | e <;> rcases hd : shortEscape d with - | e' <;> simp only [hc, hd] at h
  · split at h <;> split at h
    · simp only [List.append_assoc, List.append_cancel_left_eq] at h
      rw [← List.append_assoc, ← List.append_assoc] at h
      exact isPrefixCode_hex c trivial d trivial l l' h
    · exact absurd (List.cons.inj h).1.symm (ne_of_shortEscape hd).1
    · exact absurd (List.cons.inj h).1 (ne_of_shortEscape hc).1
    · exact List.cons.inj h
  · split at h
    · have hu := (List.cons.inj (List.cons.inj h).2).1
      exact absurd hu.symm (shortEscape_ne hd)
    · exact absurd (List.cons.inj h).1 (ne_of_shortEscape hc).1
  · split at h
    · have hu := (List.cons.inj (List.cons.inj h).2).1
      exact absurd hu (shortEscape_ne hc)
    · exact absurd (List.cons.inj h).1.symm (ne_of_shortEscape hd).1
  · obtain ⟨-, hrest⟩ := List.cons.inj h
    obtain ⟨rfl, hl⟩ := List.cons.inj hrest
    exact ⟨shortEscape_inj hc hd, hl⟩

/-- The quote that closes a string is not taken for a part of it. -/
theorem escapeDebug_append_ne (unprintable : Char → Bool) (c : Char) (l l' : List Char) :
    escapeDebug unprintable c ++ l ≠ '\"' :: l' := by
  unfold escapeDebug
  intro h
  rcases hc : shortEscape c with - | e <;> simp only [hc] at h
  · split at h
    · cases (List.cons.inj h).1
    · exact absurd (List.cons.inj h).1 (ne_of_shortEscape hc).2
  · cases (List.cons.inj h).1

theorem isPrefixCode_string (unprintable : Char → Bool) :
    IsPrefixCode Set.univ fun s : String => s.toList.flatMap (escapeDebug unprintable) ++ ['\"'] := by
  have hcode := (isPrefixCode_escapeDebug unprintable).flatMap fun c _ => escapeDebug_append_ne unprintable c
  intro s _ t _ l l' h
  obtain ⟨hst, hl⟩ := hcode s.toList (fun _ _ => trivial) t.toList (fun _ _ => trivial) l l' h
  exact ⟨String.toList_inj.mp hst, hl⟩

theorem toList_toString_natCast (n : ℕ) : (toString (n : ℤ)).toList = Nat.toDigits 10 n :=
  Nat.toList_repr

theorem toList_toString_negSucc (n : ℕ) :
    (toString (Int.negSucc n)).toList = '-' :: Nat.toDigits 10 (n + 1) := by
  have htext : toString (Int.negSucc n) = "-" ++ (n + 1).repr := rfl
  rw [htext, String.toList_append, Nat.toList_repr]
  rfl

theorem not_mem_toDigits {c : Char} (hc : ∀ k < 10, c ≠ k.digitChar) (n : ℕ) : c ∉ Nat.toDigits 10 n := by
  intro hmem
  obtain ⟨k, hk, heq⟩ := mem_toDigits (by decide) hmem
  exact hc k hk heq

theorem isPrefixCode_integer : IsPrefixCode Set.univ fun i : ℤ => (toString i).toList ++ [')'] := by
  have hinj := toDigits_injective (b := 10) (by decide) (by decide)
  have hminus (n : ℕ) : '-' ∉ Nat.toDigits 10 n := not_mem_toDigits (by decide) n
  have hparen (n : ℕ) : ')' ∉ Nat.toDigits 10 n := not_mem_toDigits (by decide) n
  refine isPrefixCode_of_terminator (fun i _ j _ h => ?_) fun i _ => ?_
  · rcases i with m | m <;> rcases j with n | n
    · have hdigits := hinj ((toList_toString_natCast m).symm.trans (h.trans (toList_toString_natCast n)))
      exact congrArg Int.ofNat hdigits
    · have hdigits := (toList_toString_natCast m).symm.trans (h.trans (toList_toString_negSucc n))
      exact absurd (hdigits ▸ List.mem_cons_self) (hminus m)
    · have hdigits := (toList_toString_natCast n).symm.trans (h.symm.trans (toList_toString_negSucc m))
      exact absurd (hdigits ▸ List.mem_cons_self) (hminus n)
    · have hdigits := (toList_toString_negSucc m).symm.trans (h.trans (toList_toString_negSucc n))
      exact congrArg Int.negSucc (Nat.succ.inj (hinj (List.cons.inj hdigits).2))
  · rcases i with n | n
    · exact (toList_toString_natCast n).symm ▸ hparen n
    · rw [toList_toString_negSucc, List.mem_cons, not_or]
      exact ⟨by decide, hparen (n + 1)⟩

theorem isPrefixCode_boolean :
    IsPrefixCode Set.univ fun b : Bool => (if b then "true" else "false").toList ++ [')'] := by
  refine isPrefixCode_of_terminator (fun b _ c _ h => ?_) fun b _ => ?_
  · cases b <;> cases c
    · rfl
    · cases h
    · cases h
    · rfl
  · cases b <;> decide

theorem isPrefixCode_derivedKind (unprintable : Char → Bool) :
    IsPrefixCode {v | IsPlain v} (derivedKind unprintable) := by
  intro v hv w hw l l' h
  cases v <;> cases w
  case null.null => exact ⟨rfl, List.append_cancel_left h⟩
  case boolean.boolean b c =>
    obtain ⟨hbc, hl⟩ := (isPrefixCode_boolean.prepend "Boolean(".toList) b trivial c trivial l l' h
    exact ⟨by rw [hbc], hl⟩
  case integer.integer i j =>
    obtain ⟨hij, hl⟩ := (isPrefixCode_integer.prepend "Integer(".toList) i trivial j trivial l l' h
    exact ⟨by rw [hij], hl⟩
  case string.string s t =>
    obtain ⟨hst, hl⟩ := ((isPrefixCode_string unprintable).enclose "String(\"".toList [')']) s trivial t trivial l l' h
    exact ⟨by rw [hst], hl⟩
  -- the first letters are different, or one of the values is of another kind
  all_goals first
    | exact absurd (List.cons.inj h).1 (by decide)
    | exact hv.elim
    | exact hw.elim

section Groups

variable [DebugText] {unprintable : Char → Bool}

/-- The texts of tuples of one length, joined with bars, tell the tuples. -/
theorem groupKey_inj (hderived : IsDerived unprintable) {v w : Row} (hv : IsPlainRow v) (hw : IsPlainRow w)
    (hlength : v.length = w.length)
    (h : "|".intercalate (v.map DebugText.value) = "|".intercalate (w.map DebugText.value)) : v = w := by
  have hcode := (isPrefixCode_derivedKind unprintable).enclose "Value \x7b kind: ".toList " \x7d".toList
  have htext {u : Row} (hu : IsPlainRow u) : ("|".intercalate (u.map DebugText.value)).toList =
      "|".toList.intercalate (u.map fun v => "Value \x7b kind: ".toList ++ derivedKind unprintable v ++ " \x7d".toList) := by
    have hvalues : (u.map DebugText.value).map String.toList =
        u.map fun v => "Value \x7b kind: ".toList ++ derivedKind unprintable v ++ " \x7d".toList := by
      rw [List.map_map]
      refine List.map_congr_left fun v hv => ?_
      rw [Function.comp_apply, hderived v (hu v hv)]
      exact String.toList_ofList
    rw [String.toList_intercalate, hvalues]
  refine hcode.intercalate "|".toList hv hw hlength ?_
  rw [← htext hv, ← htext hw, h]

end Groups

end DebugText

end Rustgresql
