import Mathlib.Algebra.Order.Round
import Mathlib.Data.Rat.Floor
import Mathlib.Tactic.Linarith
import Mathlib.Tactic.Ring

/-!
# Rounding to nearest

An integer next to a rational number may be either of two at a tie. What follows holds however
ties go; a shift to the right after half of the last place was added is the rounding of Mathlib,
which sends ties up.
-/

namespace LiteRt.Lib

/-- No integer is closer to the number. -/
def Nearest (q : ℚ) (n : Int) : Prop := |q - n| ≤ 1 / 2

variable {p q : ℚ} {m n : Int}

theorem nearest_round (q : ℚ) : Nearest q (round q) := abs_sub_round q

/-- Nearness to a quotient, without a division. -/
theorem nearest_div_iff {a d : Int} (hd : 0 < d) :
    Nearest ((a : ℚ) / d) n ↔ |2 * (a - n * d)| ≤ d := by
  have hpos : (0 : ℚ) < d := by exact_mod_cast hd
  have hquotient : (a : ℚ) / d - n = (a - n * d) / d := by
    rw [sub_div, mul_div_assoc, div_self (ne_of_gt hpos), mul_one]
  unfold Nearest
  rw [hquotient, abs_div, abs_of_pos hpos, div_le_div_iff₀ hpos two_pos, one_mul, mul_comm,
    ← abs_two, ← abs_mul]
  exact_mod_cast Iff.rfl

/-- Different ways with ties never turn the order around. -/
theorem Nearest.le_of_lt (hm : Nearest p m) (hn : Nearest q n) (h : p < q) : m ≤ n := by
  by_contra hlt
  have hcast : (n : ℚ) + 1 ≤ m := by exact_mod_cast Int.add_one_le_of_lt (not_le.1 hlt)
  have hlow := (abs_le.1 hm).1
  have hhigh := (abs_le.1 hn).2
  linarith

theorem Nearest.eq_of_intCast {a : Int} (h : Nearest a n) : n = a := by
  have hlow := (abs_le.1 h).1
  have hhigh := (abs_le.1 h).2
  have h₁ : (n : ℚ) < a + 1 := by linarith
  have h₂ : (a : ℚ) < n + 1 := by linarith
  have h₁' : n < a + 1 := by exact_mod_cast h₁
  have h₂' : a < n + 1 := by exact_mod_cast h₂
  omega

/-- The bound of a number bounds its rounding. -/
theorem Nearest.abs_le_of_abs_le {b : Int} (h : Nearest q n) (hb : |q| ≤ b) : |n| ≤ b := by
  have hq := abs_le.1 hb
  have hlow := (abs_le.1 h).1
  have hhigh := (abs_le.1 h).2
  refine abs_le.2 ⟨?_, ?_⟩
  · by_contra hlt
    have hcast : (n : ℚ) ≤ -b - 1 := by exact_mod_cast Int.le_sub_one_of_lt (not_le.1 hlt)
    linarith [hq.1]
  · by_contra hlt
    have hcast : (b : ℚ) + 1 ≤ n := by exact_mod_cast Int.add_one_le_of_lt (not_le.1 hlt)
    linarith [hq.2]

/-- A number rounded before and after a division by a power of two is less than one away. -/
theorem Nearest.abs_sub_lt_one {e : Nat} (hm : Nearest p m) (hn : Nearest (m / 2 ^ e) n) :
    |p / 2 ^ e - n| < 1 := by
  cases e with
  | zero =>
    rw [pow_zero, div_one] at hn
    rw [pow_zero, div_one, hn.eq_of_intCast]
    exact lt_of_le_of_lt hm (by norm_num)
  | succ e =>
    have hpow : (2 : ℚ) ≤ 2 ^ (e + 1) := by
      calc (2 : ℚ) = 2 ^ 1 := (pow_one 2).symm
        _ ≤ 2 ^ (e + 1) := pow_le_pow_right₀ (by norm_num) (Nat.succ_le_succ (Nat.zero_le e))
    have hfirst : |p / 2 ^ (e + 1) - m / 2 ^ (e + 1)| ≤ 1 / 4 := by
      rw [← sub_div, abs_div, abs_of_pos (lt_of_lt_of_le two_pos hpow),
        div_le_iff₀ (lt_of_lt_of_le two_pos hpow)]
      have hhalf : |p - m| ≤ 1 / 2 := hm
      linarith
    have hsecond : |(m : ℚ) / 2 ^ (e + 1) - n| ≤ 1 / 2 := hn
    have htriangle := abs_sub_le (p / 2 ^ (e + 1)) ((m : ℚ) / 2 ^ (e + 1)) n
    linarith

theorem round_le_round_of_le (h : p ≤ q) : round p ≤ round q := by
  rw [round_eq, round_eq]
  exact Int.floor_le_floor (by linarith)

theorem shiftRight_add_half (a : Int) (k : Nat) :
    (a + 2 ^ k) >>> (k + 1) = round ((a : ℚ) / 2 ^ (k + 1)) := by
  have hhalf : (a : ℚ) / 2 ^ (k + 1) + 1 / 2 =
      ((a + 2 ^ k : Int) : ℚ) / ((2 ^ (k + 1) : Nat) : ℚ) := by
    push_cast
    rw [add_div, pow_succ]
    congr 1
    field_simp
  rw [round_eq, hhalf, Rat.floor_intCast_div_natCast, Int.shiftRight_eq_div_pow]

end LiteRt.Lib
