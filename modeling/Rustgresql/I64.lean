import Rustgresql.Basic

/-!
# Arithmetic of `i64`

The operations of the evaluator on `i64` values, which are integers here.
-/

namespace Rustgresql

namespace I64

def min : ℤ := -2 ^ 63

def max : ℤ := 2 ^ 63 - 1

def InRange (n : ℤ) : Prop := min ≤ n ∧ n ≤ max

instance : DecidablePred InRange := fun n => inferInstanceAs (Decidable (min ≤ n ∧ n ≤ max))

/-- Builds with overflow checks panic where others wrap around. -/
def checked (overflowChecks : Bool) (operation : String) (n : ℤ) : Result ℤ :=
  if InRange n then .ok n
  else if overflowChecks then .error (.panic s!"attempt to {operation} with overflow")
  else .ok (n.bmod (2 ^ 64))

def add (overflowChecks : Bool) (a b : ℤ) : Result ℤ := checked overflowChecks "add" (a + b)

def sub (overflowChecks : Bool) (a b : ℤ) : Result ℤ := checked overflowChecks "subtract" (a - b)

def mul (overflowChecks : Bool) (a b : ℤ) : Result ℤ := checked overflowChecks "multiply" (a * b)

def neg (overflowChecks : Bool) (a : ℤ) : Result ℤ := checked overflowChecks "negate" (-a)

/-- `abs` negates a negative number. -/
def abs (overflowChecks : Bool) (a : ℤ) : Result ℤ := checked overflowChecks "negate" |a|

/-- A division truncates. It panics in all builds if it cannot return the quotient. -/
def div (a b : ℤ) : Result ℤ :=
  if b = 0 then .error (.panic "attempt to divide by zero")
  else if InRange (a.tdiv b) then .ok (a.tdiv b)
  else .error (.panic "attempt to divide with overflow")

theorem inRange_toInt (i : Int64) : InRange i.toInt := by
  have hle : -2 ^ 63 ≤ i.toInt := i.le_toInt
  have hlt : i.toInt < 2 ^ 63 := i.toInt_lt
  exact ⟨hle, Int.le_sub_one_of_lt hlt⟩

variable {overflowChecks : Bool} {operation : String} {n : ℤ}

theorem checked_of (h : InRange n) : checked overflowChecks operation n = .ok n := if_pos h

theorem div_of {a b : ℤ} (hb : b ≠ 0) (h : InRange (a.tdiv b)) : div a b = .ok (a.tdiv b) := by
  rw [div, if_neg hb, if_pos h]

end I64

end Rustgresql
