import Mathlib.Data.Nat.Basic
import Mathlib.Tactic.Ring

/-!
# Bits in front of a number

The zeros in front of the low bits of a word tell their binary logarithm, whether they are counted
or shifted out.
-/

namespace LiteRt.Lib

variable {w : Nat}

/-- How many of the bits from `n - 1` down are equal to `b` before the first that is not. -/
def leadingRun (b : Bool) (x : BitVec w) : Nat → Nat
  | 0 => 0
  | n + 1 => if x.getLsbD n = b then leadingRun b x n + 1 else 0

/-- Shifts to the left until the highest bit is set, and counts the shifts. -/
def shiftsToTop (x : BitVec w) (count : Nat) : Nat → Option Nat
  | 0 => none
  | rounds + 1 =>
    if x.toNat < 2 ^ (w - 1) then shiftsToTop (x <<< 1) (count + 1) rounds else some count

variable {x : BitVec w} {k n m : Nat}

theorem low_succ (x : BitVec w) (n : Nat) : x.toNat % 2 ^ (n + 1) =
    x.toNat % 2 ^ n + if x.getLsbD n = true then 2 ^ n else 0 := by
  rw [Nat.mod_pow_succ, BitVec.getLsbD, Nat.testBit_eq_decide_div_mod_eq]
  by_cases h : x.toNat / 2 ^ n % 2 = 1
  · rw [if_pos (decide_eq_true h), h, Nat.mul_one]
  · have hzero : x.toNat / 2 ^ n % 2 = 0 := by omega
    rw [if_neg (by rwa [decide_eq_true_eq]), hzero, Nat.mul_zero]

theorem leadingRun_zero (h : x.toNat % 2 ^ n = 0) : leadingRun false x n = n := by
  induction n with
  | zero => rfl
  | succ n ih =>
    rw [low_succ] at h
    have hpow := Nat.two_pow_pos n
    cases hbit : x.getLsbD n with
    | false =>
      rw [hbit, if_neg Bool.false_ne_true] at h
      rw [leadingRun, if_pos hbit, ih h]
    | true =>
      rw [hbit, if_pos rfl] at h
      omega

/-- The zeros in front of bit `k`. -/
theorem leadingRun_log (hk : k < n) (hle : 2 ^ k ≤ x.toNat % 2 ^ n)
    (hlt : x.toNat % 2 ^ n < 2 ^ (k + 1)) : leadingRun false x n = n - 1 - k := by
  induction n with
  | zero => exact absurd hk (Nat.not_lt_zero k)
  | succ n ih =>
    have hlow := Nat.mod_lt x.toNat (Nat.two_pow_pos n)
    rw [low_succ] at hle hlt
    cases hbit : x.getLsbD n with
    | false =>
      rw [hbit, if_neg Bool.false_ne_true, Nat.add_zero] at hle hlt
      have hkn : k < n := (Nat.pow_lt_pow_iff_right (by decide)).1 (Nat.lt_of_le_of_lt hle hlow)
      rw [leadingRun, if_pos hbit, ih hkn hle hlt]
      omega
    | true =>
      rw [hbit, if_pos rfl] at hlt
      have hnk : n < k + 1 := (Nat.pow_lt_pow_iff_right (by decide)).1
        (Nat.lt_of_le_of_lt (Nat.le_add_left _ _) hlt)
      rw [leadingRun, if_neg (by rw [hbit]; decide)]
      omega

theorem leadingRun_true (x : BitVec w) (hn : n ≤ w) :
    leadingRun true x n = leadingRun false (~~~x) n := by
  induction n with
  | zero => rfl
  | succ n ih =>
    have hbit : (~~~x).getLsbD n = !x.getLsbD n := by
      have hlt : n < w := hn
      rw [BitVec.getLsbD_not, decide_eq_true hlt, Bool.true_and]
    rw [leadingRun, leadingRun, ih (by omega), hbit]
    cases x.getLsbD n with
    | false => rfl
    | true => rfl

/-- The shifts bring bit `k` to the top. -/
theorem shiftsToTop_eq (hk : k < w) (hle : 2 ^ k ≤ x.toNat) (hlt : x.toNat < 2 ^ (k + 1))
    (rounds count : Nat) (hrounds : w - 1 - k < rounds) :
    shiftsToTop x count rounds = some (count + (w - 1 - k)) := by
  induction rounds generalizing x k count with
  | zero => omega
  | succ rounds ih =>
    rw [shiftsToTop]
    by_cases htop : k = w - 1
    · rw [if_neg (by rw [← htop]; omega), htop, Nat.sub_self, Nat.add_zero]
    · have hbelow : 2 ^ (k + 1) ≤ 2 ^ (w - 1) := Nat.pow_le_pow_right (by decide) (by omega)
      have hword : 2 ^ w = 2 ^ (w - 1) * 2 := by
        rw [← Nat.pow_succ]
        congr 1
        omega
      have hshift : (x <<< 1).toNat = x.toNat * 2 := by
        rw [BitVec.toNat_shiftLeft, Nat.shiftLeft_eq, Nat.pow_one, Nat.mod_eq_of_lt (by omega)]
      have hk1 : 2 ^ (k + 1) ≤ (x <<< 1).toNat := by
        rw [hshift, Nat.pow_succ]
        omega
      have hk2 : (x <<< 1).toNat < 2 ^ (k + 1 + 1) := by
        rw [hshift, Nat.pow_succ 2 (k + 1)]
        omega
      rw [if_pos (by omega), ih (by omega) hk1 hk2 (count + 1) (by omega)]
      congr 1
      omega

/-- A positive number has a binary logarithm. -/
theorem exists_log (hm : 0 < m) (hlt : m < 2 ^ n) :
    ∃ k < n, 2 ^ k ≤ m ∧ m < 2 ^ (k + 1) := by
  have hle := Nat.log2_self_le (Nat.pos_iff_ne_zero.1 hm)
  exact ⟨m.log2, (Nat.pow_lt_pow_iff_right (by decide)).1 (Nat.lt_of_le_of_lt hle hlt), hle,
    Nat.lt_log2_self⟩

theorem log_unique {j : Nat} (hle : 2 ^ k ≤ m) (hlt : m < 2 ^ (k + 1)) (hle' : 2 ^ j ≤ m)
    (hlt' : m < 2 ^ (j + 1)) : k = j := by
  have hkj : k < j + 1 := (Nat.pow_lt_pow_iff_right (by decide)).1 (Nat.lt_of_le_of_lt hle hlt')
  have hjk : j < k + 1 := (Nat.pow_lt_pow_iff_right (by decide)).1 (Nat.lt_of_le_of_lt hle' hlt)
  omega

end LiteRt.Lib
