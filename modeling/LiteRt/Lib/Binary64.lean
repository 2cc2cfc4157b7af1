import Mathlib.Algebra.Order.Field.Power
import Mathlib.Data.BitVec
import Mathlib.Data.Rat.Defs
import Mathlib.Tactic.Linarith
import Mathlib.Tactic.Ring

/-!
# Doubles as bit patterns

The three fields of a binary64 pattern as numbers, the rational a finite pattern stands for,
and a number rounded to a multiple of a unit.
-/

namespace LiteRt.Lib.Binary64

abbrev Bits := BitVec 64

def sign (u : Bits) : Bool := decide (2 ^ 63 ≤ u.toNat)

def exponent (u : Bits) : Nat := u.toNat / 2 ^ 52 % 2 ^ 11

def mantissa (u : Bits) : Nat := u.toNat % 2 ^ 52

def IsFinite (u : Bits) : Prop := exponent u < 2047

def IsNormal (u : Bits) : Prop := 0 < exponent u ∧ exponent u < 2047

/-- The mantissa with the implicit bit of a normal number. -/
def significand (u : Bits) : Nat := if exponent u = 0 then mantissa u else 2 ^ 52 + mantissa u

/-- The power of two a unit of the significand stands for. -/
def scale (u : Bits) : Int := max (exponent u : Int) 1 - 1075

def signed (s : Bool) (q : ℚ) : ℚ := if s then -q else q

def value (u : Bits) : ℚ := signed (sign u) (significand u * 2 ^ scale u)

instance (u : Bits) : Decidable (IsFinite u) := inferInstanceAs (Decidable (_ < _))

instance (u : Bits) : Decidable (IsNormal u) := inferInstanceAs (Decidable (_ ∧ _))

theorem mantissa_lt (u : Bits) : mantissa u < 2 ^ 52 :=
  Nat.mod_lt _ (Nat.two_pow_pos 52)

theorem exponent_lt (u : Bits) : exponent u < 2 ^ 11 :=
  Nat.mod_lt _ (Nat.two_pow_pos 11)

theorem fields_of_sum {u : Bits} {s : Bool} {e m : Nat} (he : e < 2 ^ 11) (hm : m < 2 ^ 52)
    (h : u.toNat = s.toNat * 2 ^ 63 + e * 2 ^ 52 + m) :
    sign u = s ∧ exponent u = e ∧ mantissa u = m := by
  unfold sign exponent mantissa
  cases s with
  | false =>
    rw [Bool.toNat_false] at h
    exact ⟨decide_eq_false (by omega), by omega, by omega⟩
  | true =>
    rw [Bool.toNat_true] at h
    exact ⟨decide_eq_true (by omega), by omega, by omega⟩

theorem signed_abs_sub (s : Bool) (p q : ℚ) : |signed s p - signed s q| = |p - q| := by
  cases s with
  | false => rfl
  | true =>
    show |-p - -q| = |p - q|
    rw [neg_sub_neg, abs_sub_comm]

theorem abs_signed (s : Bool) (q : ℚ) : |signed s q| = |q| := by
  cases s with
  | false => rfl
  | true => exact abs_neg q

theorem signed_inj {s : Bool} {p q : ℚ} : signed s p = signed s q ↔ p = q := by
  cases s with
  | false => exact Iff.rfl
  | true => exact neg_inj

/-! ### Fields cut out with masks -/

theorem and_mask_shiftRight (n mask k w : Nat) (h : mask >>> k = 2 ^ w - 1) :
    (n &&& mask) >>> k = n / 2 ^ k % 2 ^ w := by
  rw [Nat.shiftRight_and_distrib, h, Nat.and_two_pow_sub_one_eq_mod, Nat.shiftRight_eq_div_pow]

/-- Fields that do not overlap may be added. -/
theorem shiftLeft_or_lt {a b i : Nat} (h : b < 2 ^ i) : a <<< i ||| b = a * 2 ^ i + b := by
  rw [← Nat.shiftLeft_add_eq_or_of_lt h, Nat.shiftLeft_eq]

/-! ### Rounding to a multiple of a unit -/

/-- The nearest number of units, and of two equally near the lower. -/
def roundHalfDown (unit m : Nat) : Nat :=
  if unit < 2 * (m % unit) then m / unit + 1 else m / unit

theorem abs_roundHalfDown_sub {unit : Nat} (h : 0 < unit) (m : Nat) :
    2 * |((roundHalfDown unit m * unit : Nat) : ℚ) - m| ≤ unit := by
  have hdiv : ((m / unit * unit : Nat) : ℚ) + (m % unit : Nat) = m := by
    rw [Nat.mul_comm]
    exact_mod_cast Nat.div_add_mod m unit
  have hmod : ((m % unit : Nat) : ℚ) < unit := by exact_mod_cast Nat.mod_lt m h
  have hpos : (0 : ℚ) ≤ (m % unit : Nat) := Nat.cast_nonneg _
  unfold roundHalfDown
  split
  next hup =>
    have hup' : (unit : ℚ) < 2 * (m % unit : Nat) := by exact_mod_cast hup
    rw [Nat.add_mul, Nat.one_mul, Nat.cast_add, abs_of_nonneg (by linarith)]
    linarith
  next hdown =>
    have hdown' : 2 * ((m % unit : Nat) : ℚ) ≤ unit := by exact_mod_cast Nat.not_lt.1 hdown
    rw [abs_of_nonpos (by linarith)]
    linarith

/-- A relative error does not depend on the scale. -/
theorem abs_mul_sub_mul_le {x y p r : ℚ} (hp : 0 < p) (hy : 0 ≤ y) (h : |x - y| ≤ r * y) :
    |x * p - y * p| ≤ r * |y * p| := by
  have hyp : |y * p| = y * p := abs_of_nonneg (mul_nonneg hy hp.le)
  rw [← sub_mul, abs_mul, abs_of_pos hp, hyp, ← mul_assoc]
  exact mul_le_mul_of_nonneg_right h hp.le

theorem roundHalfDown_add_mul {unit : Nat} (h : 0 < unit) (k m : Nat) :
    roundHalfDown unit (k * unit + m) = k + roundHalfDown unit m := by
  have hdiv : (k * unit + m) / unit = k + m / unit := by
    rw [Nat.add_comm, Nat.add_mul_div_right _ _ h, Nat.add_comm]
  have hmod : (k * unit + m) % unit = m % unit := by
    rw [Nat.add_comm, Nat.add_mul_mod_self_right]
  unfold roundHalfDown
  rw [hdiv, hmod]
  split <;> omega

end LiteRt.Lib.Binary64
