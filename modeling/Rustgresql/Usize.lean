import Rustgresql.Basic

/-!
# Arithmetic of `usize`

The operations that the parallel executor makes on `usize` values, which are natural numbers here.
-/

namespace Rustgresql

namespace Usize

/-- The number of words. -/
def size : ℕ := 2 ^ 64

/-- Builds with overflow checks panic where others wrap around. -/
def checked (overflowChecks : Bool) (operation : String) (n : ℤ) : Result ℕ :=
  if 0 ≤ n ∧ n < size then .ok n.toNat
  else if overflowChecks then .error (.panic s!"attempt to {operation} with overflow")
  else .ok (n % size).toNat

def add (overflowChecks : Bool) (a b : ℕ) : Result ℕ := checked overflowChecks "add" (a + b)

def sub (overflowChecks : Bool) (a b : ℕ) : Result ℕ := checked overflowChecks "subtract" (a - b)

def mul (overflowChecks : Bool) (a b : ℕ) : Result ℕ := checked overflowChecks "multiply" (a * b)

def div (a b : ℕ) : Result ℕ := if b = 0 then .error (.panic "attempt to divide by zero") else .ok (a / b)

theorem size_pos : 0 < size := Nat.two_pow_pos 64

theorem toNat_lt_size (n : UInt64) : n.toNat < size := by
  unfold size
  exact n.toNat_lt

variable {overflowChecks : Bool} {a b n : ℕ}

theorem checked_of (operation : String) (h : n < size) : checked overflowChecks operation n = .ok n := by
  unfold checked
  rw [if_pos (by omega), Int.toNat_natCast]

theorem add_of (h : a + b < size) : add overflowChecks a b = .ok (a + b) := checked_of "add" h

/-- A sum is taken modulo the number of words. -/
theorem add_eq_ok (h : add overflowChecks a b = .ok n) : n = (a + b) % size := by
  unfold add checked at h
  split at h
  · next hword =>
    have hsum : ((a : ℤ) + b).toNat = n := Except.ok.inj h
    rw [Nat.mod_eq_of_lt (by omega)]
    omega
  · split at h
    · cases h
    · have hsum : (((a : ℤ) + b) % size).toNat = n := Except.ok.inj h
      rw [← hsum, ← Nat.cast_add, ← Int.natCast_mod, Int.toNat_natCast]

/-- An overflow is a panic. -/
theorem add_ne_err (e : RustgreSQLError) : add overflowChecks a b ≠ .error (.err e) := by
  unfold add checked
  split
  · nofun
  · split
    · nofun
    · nofun

theorem sub_of (h : b ≤ a) (ha : a < size) : sub overflowChecks a b = .ok (a - b) := by
  unfold sub
  rw [← Nat.cast_sub h]
  exact checked_of "subtract" (by omega)

theorem sub_checked_of_lt (h : a < b) :
    sub true a b = .error (.panic "attempt to subtract with overflow") := by
  unfold sub checked
  rw [if_neg (by omega)]
  rfl

theorem exists_sub_unchecked (a b : ℕ) : ∃ n, sub false a b = .ok n := by
  unfold sub checked
  split
  · exact ⟨_, rfl⟩
  · exact ⟨_, rfl⟩

theorem mul_of (h : a * b < size) : mul overflowChecks a b = .ok (a * b) := by
  unfold mul
  rw [← Nat.cast_mul]
  exact checked_of "multiply" h

theorem mul_checked_of_le (h : size ≤ a * b) :
    mul true a b = .error (.panic "attempt to multiply with overflow") := by
  unfold mul checked
  rw [if_neg (by omega)]
  rfl

theorem mul_unchecked (a b : ℕ) : mul false a b = .ok (a * b % size) := by
  rcases Nat.lt_or_ge (a * b) size with h | h
  · rw [mul_of h, Nat.mod_eq_of_lt h]
  · unfold mul checked
    rw [← Nat.cast_mul, if_neg (by omega), if_neg Bool.false_ne_true, ← Int.natCast_mod, Int.toNat_natCast]

theorem div_of (h : b ≠ 0) : div a b = .ok (a / b) := if_neg h

/-- A product is a word. -/
theorem lt_of_mul (h : mul overflowChecks a b = .ok n) : n < size := by
  cases overflowChecks
  · rw [mul_unchecked] at h
    cases h
    exact Nat.mod_lt _ (by decide)
  · rcases Nat.lt_or_ge (a * b) size with hlt | hge
    · rw [mul_of hlt] at h
      cases h
      exact hlt
    · rw [mul_checked_of_le hge] at h
      cases h

/-- A quotient is at most the dividend. -/
theorem le_of_div (h : div a b = .ok n) : n ≤ a := by
  unfold div at h
  split at h
  · cases h
  · obtain rfl : a / b = n := Except.ok.inj h
    exact Nat.div_le_self a b

end Usize

end Rustgresql
