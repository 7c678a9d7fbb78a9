import Mathlib.Algebra.Order.Ring.Int
import Mathlib.Data.Int.Order.Basic
import Mathlib.Data.Nat.Log
import Mathlib.Tactic.Ring

/-!
# Whole numbers in binary64

Rounding to 53 significant bits, and the words of 64 bits for the numbers that have no more of them.
-/

namespace Binary64

/-! ## Rounding -/

/-- The number of bits after the first 53 -/
def excess (n : ℕ) : ℕ := n.log2 - 52

/-- Round to nearest, ties to even. -/
def roundNat (n : ℕ) : ℕ :=
  let unit := 2 ^ excess n
  let q := n / unit
  let r := n % unit
  if unit < 2 * r ∨ (2 * r = unit ∧ q % 2 = 1) then (q + 1) * unit else q * unit

def roundInt (a : ℤ) : ℤ := a.sign * roundNat a.natAbs

/-- A number has 53 significant bits at most. -/
def Representable (n : ℕ) : Prop := ∃ m e, m ≤ 2 ^ 53 ∧ n = m * 2 ^ e

theorem div_unit_lt (n : ℕ) : n / 2 ^ excess n < 2 ^ 53 := by
  rw [Nat.div_lt_iff_lt_mul (Nat.two_pow_pos _), ← pow_add]
  refine lt_of_lt_of_le Nat.lt_log2_self (Nat.pow_le_pow_right Nat.two_pos ?_)
  rw [excess]
  omega

theorem representable_roundNat (n : ℕ) : Representable (roundNat n) := by
  have hq := div_unit_lt n
  unfold roundNat
  dsimp only
  split_ifs
  · exact ⟨_, _, hq, rfl⟩
  · exact ⟨_, _, hq.le, rfl⟩

theorem roundNat_of_lt {n : ℕ} (h : n < 2 ^ 53) : roundNat n = n := by
  have hexcess : excess n = 0 := by
    rcases Nat.eq_zero_or_pos n with rfl | hn
    · rfl
    · have hlog := (Nat.log2_lt hn.ne').mpr h
      rw [excess]
      omega
  simp [roundNat, hexcess, Nat.mod_one]

theorem roundNat_two_pow (k : ℕ) : roundNat (2 ^ k) = 2 ^ k := by
  have hdvd : 2 ^ excess (2 ^ k) ∣ 2 ^ k := by
    refine pow_dvd_pow 2 ?_
    rw [excess, Nat.log2_two_pow]
    omega
  have hpos := Nat.two_pow_pos (excess (2 ^ k))
  unfold roundNat
  dsimp only
  rw [Nat.mod_eq_zero_of_dvd hdvd, if_neg, Nat.div_mul_cancel hdvd]
  omega

/-- Rounding does not pass a power of two. -/
theorem roundNat_le_two_pow {n k : ℕ} (h : n ≤ 2 ^ k) : roundNat n ≤ 2 ^ k := by
  rcases h.lt_or_eq with hlt | rfl
  · have hexcess : excess n ≤ k := by
      rcases Nat.eq_zero_or_pos n with rfl | hn
      · exact Nat.zero_le _
      · have hlog := (Nat.log2_lt hn.ne').mpr hlt
        rw [excess]
        omega
    have hpow : 2 ^ k = 2 ^ (k - excess n) * 2 ^ excess n := by rw [← pow_add, Nat.sub_add_cancel hexcess]
    have hq : n / 2 ^ excess n < 2 ^ (k - excess n) := by
      rwa [Nat.div_lt_iff_lt_mul (Nat.two_pow_pos _), ← hpow]
    unfold roundNat
    dsimp only
    rw [hpow]
    split_ifs
    · exact Nat.mul_le_mul_right _ hq
    · exact Nat.mul_le_mul_right _ hq.le
  · exact (roundNat_two_pow k).le

/-- Less than half of a unit beyond a power of two does not matter. -/
theorem roundNat_two_pow_add_le {r : ℕ} (h : r ≤ 2 ^ 63) : roundNat (2 ^ 117 + r) ≤ 2 ^ 117 := by
  have hlog : (2 ^ 117 + r).log2 = 117 := by
    rw [Nat.log2_eq_iff (by omega)]
    omega
  unfold roundNat
  dsimp only
  rw [show excess (2 ^ 117 + r) = 65 by rw [excess, hlog]]
  rw [if_neg (by omega)]
  omega

theorem natAbs_roundInt (a : ℤ) : (roundInt a).natAbs = roundNat a.natAbs := by
  rw [roundInt, Int.natAbs_mul]
  rcases eq_or_ne a 0 with rfl | ha
  · rfl
  · rw [Int.natAbs_sign_of_ne_zero ha, Nat.one_mul, Int.natAbs_natCast]

/-- Sums of integers of 64 bits do not grow beyond. -/
theorem natAbs_roundInt_add_le {s x : ℤ} (hs : s.natAbs ≤ 2 ^ 117) (hx : x.natAbs ≤ 2 ^ 63) :
    (roundInt (s + x)).natAbs ≤ 2 ^ 117 := by
  have hsum := Int.natAbs_add_le s x
  rw [natAbs_roundInt]
  rcases Nat.le_total (s + x).natAbs (2 ^ 117) with hle | hge
  · exact roundNat_le_two_pow hle
  · obtain ⟨r, hr⟩ := Nat.exists_eq_add_of_le hge
    rw [hr]
    exact roundNat_two_pow_add_le (by omega)

/-! ## Words -/

/-- Exponent and fraction of a number -/
def magnitude (n : ℕ) : ℕ := if n = 0 then 0 else (n.log2 + 1022) * 2 ^ 52 + n * 2 ^ 52 / 2 ^ n.log2

def encode (a : ℤ) : UInt64 := .ofNat (if a < 0 then 2 ^ 63 + magnitude a.natAbs else magnitude a.natAbs)

/-- The number of an exponent and a fraction -/
def ofMagnitude (k : ℕ) : ℕ := if k = 0 then 0 else (k % 2 ^ 52 + 2 ^ 52) * 2 ^ (k / 2 ^ 52 - 1023) / 2 ^ 52

def decode (x : UInt64) : ℤ := if x.toNat < 2 ^ 63 then ofMagnitude x.toNat else -ofMagnitude (x.toNat - 2 ^ 63)

/-- The significand of a number -/
theorem significand_mem {n : ℕ} (hn : n ≠ 0) : 2 ^ 52 ≤ n * 2 ^ 52 / 2 ^ n.log2 ∧ n * 2 ^ 52 / 2 ^ n.log2 < 2 ^ 53 := by
  have hle := Nat.log2_self_le hn
  have hlt := Nat.lt_log2_self (n := n)
  rw [Nat.le_div_iff_mul_le (Nat.two_pow_pos _), Nat.div_lt_iff_lt_mul (Nat.two_pow_pos _)]
  constructor
  · rw [Nat.mul_comm]
    exact Nat.mul_le_mul_right _ hle
  · rw [pow_succ] at hlt
    rw [pow_succ 2 52]
    calc n * 2 ^ 52 < 2 ^ n.log2 * 2 * 2 ^ 52 := Nat.mul_lt_mul_of_pos_right hlt (Nat.two_pow_pos _)
      _ = 2 ^ 52 * 2 * 2 ^ n.log2 := by ring

theorem magnitude_lt {n : ℕ} (h : n ≤ 2 ^ 117) : magnitude n < 2047 * 2 ^ 52 := by
  unfold magnitude
  split_ifs with hn
  · decide
  · have hlog : n.log2 < 118 := (Nat.log2_lt hn).mpr (lt_of_le_of_lt h (by decide))
    have hsignificand := (significand_mem hn).2
    omega

theorem dvd_of_representable {n : ℕ} (hn : n ≠ 0) (h : Representable n) : 2 ^ n.log2 ∣ n * 2 ^ 52 := by
  obtain ⟨m, e, hm, rfl⟩ := h
  have hm0 : m ≠ 0 := by
    rintro rfl
    exact hn (Nat.zero_mul _)
  have hlog : (m * 2 ^ e).log2 = m.log2 + e := by
    rw [Nat.log2_eq_iff hn]
    have hle := Nat.log2_self_le hm0
    have hlt := Nat.lt_log2_self (n := m)
    constructor
    · rw [pow_add]
      exact Nat.mul_le_mul_right _ hle
    · rw [Nat.add_right_comm, pow_add]
      exact Nat.mul_lt_mul_of_pos_right hlt (Nat.two_pow_pos _)
  rw [hlog, pow_add]
  rcases hm.lt_or_eq with hlt | rfl
  · have hle : m.log2 ≤ 52 := Nat.le_of_lt_succ ((Nat.log2_lt hm0).mpr hlt)
    rw [Nat.mul_right_comm, Nat.mul_comm m]
    exact Nat.mul_dvd_mul (Dvd.dvd.mul_right (pow_dvd_pow 2 hle) m) (dvd_refl _)
  · rw [Nat.log2_two_pow]
    exact Dvd.intro (2 ^ 52) rfl

theorem ofMagnitude_magnitude {n : ℕ} (h : Representable n) : ofMagnitude (magnitude n) = n := by
  unfold magnitude
  split_ifs with hn
  · rw [hn]
    rfl
  · obtain ⟨hle, hlt⟩ := significand_mem hn
    have hdvd := dvd_of_representable hn h
    generalize hm : n * 2 ^ 52 / 2 ^ n.log2 = m at *
    unfold ofMagnitude
    rw [if_neg (by omega)]
    have hmod : ((n.log2 + 1022) * 2 ^ 52 + m) % 2 ^ 52 + 2 ^ 52 = m := by omega
    have hdiv : ((n.log2 + 1022) * 2 ^ 52 + m) / 2 ^ 52 - 1023 = n.log2 := by omega
    rw [hmod, hdiv, ← hm, Nat.div_mul_cancel hdvd, Nat.mul_div_cancel _ (Nat.two_pow_pos _)]

theorem toNat_encode {a : ℤ} (h : a.natAbs ≤ 2 ^ 117) :
    (encode a).toNat = if a < 0 then 2 ^ 63 + magnitude a.natAbs else magnitude a.natAbs := by
  have hlt := magnitude_lt h
  rw [encode, UInt64.toNat_ofNat']
  refine Nat.mod_eq_of_lt ?_
  split_ifs <;> omega

/-- The words tell the numbers. -/
theorem decode_encode {a : ℤ} (h : a.natAbs ≤ 2 ^ 117) (hrepr : Representable a.natAbs) : decode (encode a) = a := by
  have hlt := magnitude_lt h
  rw [decode, toNat_encode h]
  rcases lt_or_ge a 0 with hneg | hpos
  · rw [if_pos hneg, if_neg (by omega), Nat.add_sub_cancel_left, ofMagnitude_magnitude hrepr]
    omega
  · rw [if_neg hpos.not_gt, if_pos (by omega), ofMagnitude_magnitude hrepr]
    omega

/-- Greater numbers have greater exponents or fractions. -/
theorem magnitude_lt_magnitude {m n : ℕ} (hn : Representable n) (h : m < n) : magnitude m < magnitude n := by
  have hn0 : n ≠ 0 := by omega
  have hdvd := dvd_of_representable hn0 hn
  obtain ⟨hle, hlt⟩ := significand_mem hn0
  rcases eq_or_ne m 0 with rfl | hm0
  · rw [magnitude, magnitude, if_pos rfl, if_neg hn0]
    omega
  · have hm := significand_mem hm0
    have hlog : m.log2 ≤ n.log2 := (Nat.le_log2 hn0).mpr ((Nat.log2_self_le hm0).trans h.le)
    rw [magnitude, magnitude, if_neg hm0, if_neg hn0]
    rcases hlog.lt_or_eq with hlog | hlog
    · omega
    · rw [hlog]
      refine Nat.add_lt_add_left (Nat.div_lt_div_of_lt_of_dvd hdvd ?_) _
      exact Nat.mul_lt_mul_of_pos_right h (Nat.two_pow_pos _)

/-- What the words are ordered by -/
def key (a : ℤ) : ℤ := if a < 0 then -magnitude a.natAbs else magnitude a.natAbs

theorem key_lt_key {a b : ℤ} (ha : Representable a.natAbs) (hb : Representable b.natAbs) (h : a < b) : key a < key b := by
  unfold key
  rcases lt_or_ge a 0 with hneg | hpos
  · rw [if_pos hneg]
    rcases lt_or_ge b 0 with hbneg | hbpos
    · rw [if_pos hbneg]
      have hlt := magnitude_lt_magnitude ha (m := b.natAbs) (by omega)
      omega
    · rw [if_neg hbpos.not_gt]
      have hlt := magnitude_lt_magnitude ha (m := 0) (by omega)
      omega
  · rw [if_neg hpos.not_gt, if_neg (hpos.trans h.le).not_gt]
    have hlt := magnitude_lt_magnitude hb (m := a.natAbs) (by omega)
    omega

theorem key_le_key_iff {a b : ℤ} (ha : Representable a.natAbs) (hb : Representable b.natAbs) :
    key a ≤ key b ↔ a ≤ b := by
  constructor
  · intro h
    by_contra hlt
    exact absurd (key_lt_key hb ha (not_le.mp hlt)) (not_lt.mpr h)
  · intro h
    rcases h.lt_or_eq with hlt | rfl
    · exact (key_lt_key ha hb hlt).le
    · exact le_rfl

end Binary64
