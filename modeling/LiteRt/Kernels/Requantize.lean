import LiteRt.Kernels.BroadcastShapes
import LiteRt.Lib.Rounding

/-!
# Requantization

`MultiplyByQuantizedMultiplier` scales an integer by a multiplier with 31 fractional bits and a
power of two. One build rounds the product once; the other rounds it in gemmlowp's high
multiplication and again in its division by the power of two. The overload for wide integers
keeps 15 bits of the multiplier.
-/

namespace LiteRt.Kernels

open LiteRt.Lib

variable {n : Int}

def int64 (n : Int) : Int := n.bmod (2 ^ 64)

def FitsInt32 (n : Int) : Prop := -2 ^ 31 ≤ n ∧ n < 2 ^ 31

def FitsInt64 (n : Int) : Prop := -2 ^ 63 ≤ n ∧ n < 2 ^ 63

theorem int32_eq (h : FitsInt32 n) : int32 n = n := by
  have hlow := h.1
  have hhigh := h.2
  exact Int.bmod_eq_of_le (by omega) (by omega)

theorem int64_eq (h : FitsInt64 n) : int64 n = n := by
  have hlow := h.1
  have hhigh := h.2
  exact Int.bmod_eq_of_le (by omega) (by omega)

/-- The fixed-point operations of gemmlowp. -/
structure Gemmlowp where
  saturatingRoundingDoublingHighMul : Int → Int → Int
  roundingDivideByPOT : Int → Nat → Int

/-- Both round to nearest; the high multiplication saturates at one pair only. -/
structure Gemmlowp.Documented (g : Gemmlowp) : Prop where
  highMul : ∀ a b, FitsInt32 a → FitsInt32 b → ¬(a = -2 ^ 31 ∧ b = -2 ^ 31) →
    Nearest (a * b / 2 ^ 31) (g.saturatingRoundingDoublingHighMul a b)
  divideByPOT : ∀ x exponent, FitsInt32 x → exponent ≤ 31 →
    Nearest (x / 2 ^ exponent) (g.roundingDivideByPOT x exponent)

namespace SingleRounding

def multiplyByQuantizedMultiplier (x quantizedMultiplier shift : Int) : Int :=
  let totalShift := (31 - shift).toNat
  let round := 2 ^ (totalShift - 1)
  let result := int64 (int64 (x * quantizedMultiplier) + round)
  int32 (result >>> totalShift)

end SingleRounding

namespace DoubleRounding

def multiplyByQuantizedMultiplier (g : Gemmlowp) (x quantizedMultiplier shift : Int) : Int :=
  let leftShift := if shift > 0 then shift.toNat else 0
  let rightShift := if shift > 0 then 0 else (-shift).toNat
  g.roundingDivideByPOT
    (g.saturatingRoundingDoublingHighMul (int32 (x * 2 ^ leftShift)) quantizedMultiplier) rightShift

end DoubleRounding

def reducedMultiplier (quantizedMultiplier : Int) : Int :=
  if quantizedMultiplier < 0x7FFF0000 then int32 (quantizedMultiplier + 2 ^ 15) >>> (16 : Nat)
  else 0x7FFF

/-- The overload for `int64_t`, which is the same in both builds. -/
def multiplyByQuantizedMultiplier64 (x quantizedMultiplier shift : Int) : Int :=
  let totalShift := (15 - shift).toNat
  let round := 2 ^ (totalShift - 1)
  let result := int64 (int64 (x * reducedMultiplier quantizedMultiplier) + round)
  int32 (result >>> totalShift)

/-! ## What is computed exactly -/

/-- The number that a multiplier and a shift stand for, times `x`. -/
def scaledBy (x quantizedMultiplier shift : Int) : ℚ := x * quantizedMultiplier * 2 ^ (shift - 31)

/-- The number that the reduced multiplier and the shift stand for, times `x`. -/
def scaledByReduced (x quantizedMultiplier shift : Int) : ℚ :=
  x * reducedMultiplier quantizedMultiplier * 2 ^ (shift - 15)

/-- The input of the high multiplication. -/
def shiftedLeft (x shift : Int) : Int := x * 2 ^ (max shift 0).toNat

variable {x y quantizedMultiplier shift : Int}

theorem mul_zpow_sub (a : ℚ) {shift : Int} {n : Nat} (h : shift ≤ n) :
    a * 2 ^ (shift - n) = a / 2 ^ (n - shift).toNat := by
  have hneg : shift - n = -((n - shift).toNat : Int) := by omega
  rw [hneg, zpow_neg, zpow_natCast, div_eq_mul_inv]

/-- First the high multiplication, then the shift to the right. -/
theorem scaledBy_eq (x quantizedMultiplier shift : Int) :
    scaledBy x quantizedMultiplier shift =
      (shiftedLeft x shift * quantizedMultiplier : ℚ) / 2 ^ 31 / 2 ^ (max (-shift) 0).toNat := by
  have hpow : (2 : ℚ) ^ (shift - 31) =
      2 ^ (max shift 0).toNat / 2 ^ 31 / 2 ^ (max (-shift) 0).toNat := by
    have hexponent : shift - 31 = ((max shift 0).toNat : Int) - ((31 : Nat) : Int) -
        ((max (-shift) 0).toNat : Int) := by omega
    rw [hexponent, zpow_sub₀ two_ne_zero, zpow_sub₀ two_ne_zero, zpow_natCast, zpow_natCast,
      zpow_natCast]
  unfold scaledBy shiftedLeft
  rw [hpow]
  push_cast
  ring

theorem abs_highProduct_le {a b : Int} (ha : FitsInt32 a) (hb : 0 ≤ b ∧ b < 2 ^ 31) :
    |(a * b : ℚ) / 2 ^ 31| ≤ ((2 ^ 31 - 1 : Int) : ℚ) := by
  have habs : |a| ≤ 2 ^ 31 := abs_le.2 ⟨ha.1, le_of_lt ha.2⟩
  have hproduct : |a * b| ≤ (2 ^ 31 - 1) * 2 ^ 31 := by
    rw [abs_mul, abs_of_nonneg hb.1, mul_comm (2 ^ 31 - 1 : Int)]
    exact mul_le_mul habs (Int.le_sub_one_of_lt hb.2) hb.1 (by norm_num)
  rw [abs_div, abs_of_pos (by norm_num : (0 : ℚ) < 2 ^ 31), div_le_iff₀ (by norm_num)]
  exact_mod_cast hproduct

theorem abs_scaledBy_le (hm : 0 ≤ quantizedMultiplier ∧ quantizedMultiplier < 2 ^ 31)
    (hx : FitsInt32 (shiftedLeft x shift)) :
    |scaledBy x quantizedMultiplier shift| ≤ ((2 ^ 31 - 1 : Int) : ℚ) := by
  rw [scaledBy_eq, abs_div]
  refine le_trans (div_le_self (abs_nonneg _) ?_) (abs_highProduct_le hx hm)
  rw [abs_of_pos (by positivity)]
  exact one_le_pow₀ one_le_two

theorem scaledBy_lt (hm : 0 < quantizedMultiplier) (h : x < y) :
    scaledBy x quantizedMultiplier shift < scaledBy y quantizedMultiplier shift := by
  have hx : (x : ℚ) < y := by exact_mod_cast h
  have hpos : (0 : ℚ) < quantizedMultiplier := by exact_mod_cast hm
  have hpow : (0 : ℚ) < 2 ^ (shift - 31) := zpow_pos two_pos _
  unfold scaledBy
  gcongr

theorem fitsInt32_of_abs_le (h : |n| ≤ 2 ^ 31 - 1) : FitsInt32 n := by
  have hn := abs_le.1 h
  constructor <;> omega

theorem fitsInt64_of_abs_lt (h : |n| < 2 ^ 63) : FitsInt64 n :=
  ⟨le_of_lt (abs_lt.1 h).1, (abs_lt.1 h).2⟩

/-- A product and half of the last place, shifted. -/
theorem shifted_eq_round {n : Nat} (a : Int) (hshift : shift < n) :
    (a + 2 ^ ((n - shift).toNat - 1)) >>> (n - shift).toNat = round ((a : ℚ) * 2 ^ (shift - n)) := by
  obtain ⟨k, hk⟩ : ∃ k, (n - shift).toNat = k + 1 := ⟨(n - shift).toNat - 1, by omega⟩
  rw [mul_zpow_sub _ (le_of_lt hshift), hk, Nat.add_sub_cancel]
  exact shiftRight_add_half a k

/-! ## One rounding -/

namespace SingleRounding

/-- The product is rounded half up. -/
theorem multiplyByQuantizedMultiplier_eq_round
    (hm : 0 ≤ quantizedMultiplier ∧ quantizedMultiplier < 2 ^ 31)
    (hshift : -31 ≤ shift ∧ shift ≤ 30) (hx : FitsInt32 x)
    (hleft : FitsInt32 (shiftedLeft x shift)) :
    multiplyByQuantizedMultiplier x quantizedMultiplier shift =
      round (scaledBy x quantizedMultiplier shift) := by
  have habs : |x * quantizedMultiplier| ≤ 2 ^ 31 * 2 ^ 31 := by
    rw [abs_mul, abs_of_nonneg hm.1]
    exact mul_le_mul (abs_le.2 ⟨hx.1, le_of_lt hx.2⟩) (le_of_lt hm.2) hm.1 (by norm_num)
  have hround : (2 : Int) ^ ((31 - shift).toNat - 1) ≤ 2 ^ 61 :=
    pow_le_pow_right₀ one_le_two (by omega)
  have hpos : (0 : Int) ≤ 2 ^ ((31 - shift).toNat - 1) := by positivity
  have hproduct := abs_le.1 habs
  have hfits : FitsInt64 (x * quantizedMultiplier) := by constructor <;> omega
  have hsum : FitsInt64 (x * quantizedMultiplier + 2 ^ ((31 - shift).toNat - 1)) := by
    constructor <;> omega
  have hshifted := shifted_eq_round (n := 31) (x * quantizedMultiplier)
    (lt_of_le_of_lt hshift.2 (by norm_num))
  have hexact : ((x * quantizedMultiplier : Int) : ℚ) * 2 ^ (shift - (31 : Nat)) =
      scaledBy x quantizedMultiplier shift := by
    unfold scaledBy
    push_cast
    rfl
  have hresult := (nearest_round (scaledBy x quantizedMultiplier shift)).abs_le_of_abs_le
    (abs_scaledBy_le hm hleft)
  unfold multiplyByQuantizedMultiplier
  simp only [int64_eq hfits, int64_eq hsum]
  rw [hexact] at hshifted
  exact (congrArg int32 hshifted).trans (int32_eq (fitsInt32_of_abs_le hresult))

end SingleRounding

/-! ## Two roundings -/

namespace DoubleRounding

variable {g : Gemmlowp}

/-- The high multiplication rounds, and its result fits. -/
theorem nearest_highMul (hg : g.Documented)
    (hm : 0 ≤ quantizedMultiplier ∧ quantizedMultiplier < 2 ^ 31)
    (hleft : FitsInt32 (shiftedLeft x shift)) :
    Nearest ((shiftedLeft x shift * quantizedMultiplier : ℚ) / 2 ^ 31)
        (g.saturatingRoundingDoublingHighMul (shiftedLeft x shift) quantizedMultiplier) ∧
      FitsInt32 (g.saturatingRoundingDoublingHighMul (shiftedLeft x shift) quantizedMultiplier) := by
  have hfits : FitsInt32 quantizedMultiplier := ⟨by omega, hm.2⟩
  have hnearest := hg.highMul _ _ hleft hfits fun h => by omega
  exact ⟨hnearest, fitsInt32_of_abs_le (hnearest.abs_le_of_abs_le (abs_highProduct_le hleft hm))⟩

theorem multiplyByQuantizedMultiplier_eq (hleft : FitsInt32 (shiftedLeft x shift)) :
    multiplyByQuantizedMultiplier g x quantizedMultiplier shift = g.roundingDivideByPOT
        (g.saturatingRoundingDoublingHighMul (shiftedLeft x shift) quantizedMultiplier)
        (max (-shift) 0).toNat := by
  have hl : (if shift > 0 then shift.toNat else 0) = (max shift 0).toNat := by
    split <;> omega
  have hr : (if shift > 0 then 0 else (-shift).toNat) = (max (-shift) 0).toNat := by
    split <;> omega
  unfold multiplyByQuantizedMultiplier
  simp only [hl, hr]
  rw [← shiftedLeft, int32_eq hleft]

variable (hg : g.Documented) (hm : 0 < quantizedMultiplier ∧ quantizedMultiplier < 2 ^ 31)
  (hshift : -31 ≤ shift)

include hg hm hshift

theorem abs_sub_lt_one (hleft : FitsInt32 (shiftedLeft x shift)) :
    |scaledBy x quantizedMultiplier shift -
      multiplyByQuantizedMultiplier g x quantizedMultiplier shift| < 1 := by
  obtain ⟨hhigh, hfits⟩ := nearest_highMul hg ⟨le_of_lt hm.1, hm.2⟩ hleft
  have hdivide := hg.divideByPOT _ (max (-shift) 0).toNat hfits (by omega)
  rw [multiplyByQuantizedMultiplier_eq hleft, scaledBy_eq]
  exact hhigh.abs_sub_lt_one hdivide

/-- Neither rounding turns the order around. -/
theorem mono (hx : FitsInt32 (shiftedLeft x shift)) (hy : FitsInt32 (shiftedLeft y shift))
    (h : x ≤ y) : multiplyByQuantizedMultiplier g x quantizedMultiplier shift ≤
      multiplyByQuantizedMultiplier g y quantizedMultiplier shift := by
  obtain rfl | hlt := h.eq_or_lt
  · exact le_refl _
  obtain ⟨hhighx, hfitsx⟩ := nearest_highMul hg ⟨le_of_lt hm.1, hm.2⟩ hx
  obtain ⟨hhighy, hfitsy⟩ := nearest_highMul hg ⟨le_of_lt hm.1, hm.2⟩ hy
  have hdividex := hg.divideByPOT _ (max (-shift) 0).toNat hfitsx (by omega)
  have hdividey := hg.divideByPOT _ (max (-shift) 0).toNat hfitsy (by omega)
  have hscaled : (shiftedLeft x shift * quantizedMultiplier : ℚ) / 2 ^ 31 <
      shiftedLeft y shift * quantizedMultiplier / 2 ^ 31 := by
    have hleft : (shiftedLeft x shift : ℚ) < shiftedLeft y shift := by
      unfold shiftedLeft
      exact_mod_cast mul_lt_mul_of_pos_right hlt (by positivity)
    have hpos : (0 : ℚ) < quantizedMultiplier := by exact_mod_cast hm.1
    gcongr
  rw [multiplyByQuantizedMultiplier_eq hx, multiplyByQuantizedMultiplier_eq hy]
  obtain heq | hlt' := (hhighx.le_of_lt hhighy hscaled).eq_or_lt
  · rw [heq]
  · refine hdividex.le_of_lt hdividey ?_
    have hcast : ((g.saturatingRoundingDoublingHighMul (shiftedLeft x shift) quantizedMultiplier :
        Int) : ℚ) < g.saturatingRoundingDoublingHighMul (shiftedLeft y shift) quantizedMultiplier := by
      exact_mod_cast hlt'
    gcongr

end DoubleRounding

/-! ## The wide overload -/

theorem reducedMultiplier_eq (hm : -2 ^ 31 ≤ quantizedMultiplier) :
    reducedMultiplier quantizedMultiplier =
      min (round ((quantizedMultiplier : ℚ) / 2 ^ 16)) 0x7FFF := by
  have hshift : (quantizedMultiplier + 2 ^ 15) >>> (16 : Nat) =
      round ((quantizedMultiplier : ℚ) / 2 ^ 16) := shiftRight_add_half quantizedMultiplier 15
  have hdiv := Int.shiftRight_eq_div_pow (quantizedMultiplier + 2 ^ 15) 16
  rw [← hshift]
  unfold reducedMultiplier
  split
  · rename_i hlt
    rw [int32_eq ⟨by omega, by omega⟩, min_eq_left]
    omega
  · rename_i hle
    rw [min_eq_right]
    omega

theorem reducedMultiplier_bounds (hm : 0 ≤ quantizedMultiplier) :
    0 ≤ reducedMultiplier quantizedMultiplier ∧ reducedMultiplier quantizedMultiplier < 2 ^ 15 := by
  have hdiv := Int.shiftRight_eq_div_pow (quantizedMultiplier + 2 ^ 15) 16
  unfold reducedMultiplier
  split
  · rename_i hlt
    rw [int32_eq ⟨by omega, by omega⟩]
    omega
  · omega

section
variable (hm : 0 ≤ quantizedMultiplier) (hshift : -31 ≤ shift ∧ shift ≤ 7) (hx : |x| < 2 ^ 47)

include hm hx

theorem abs_wideProduct_lt : |x * reducedMultiplier quantizedMultiplier| < 2 ^ 62 := by
  obtain ⟨hnonneg, hlt⟩ := reducedMultiplier_bounds hm
  rw [abs_mul, abs_of_nonneg hnonneg]
  exact mul_lt_mul'' hx hlt (abs_nonneg x) hnonneg

include hshift

theorem fitsInt64_wideSum :
    FitsInt64 (x * reducedMultiplier quantizedMultiplier + 2 ^ ((15 - shift).toNat - 1)) := by
  have hproduct := abs_lt.1 (abs_wideProduct_lt hm hx)
  have hround : (2 : Int) ^ ((15 - shift).toNat - 1) ≤ 2 ^ 45 :=
    pow_le_pow_right₀ one_le_two (by omega)
  have hpos : (0 : Int) ≤ 2 ^ ((15 - shift).toNat - 1) := by positivity
  constructor <;> omega

theorem multiplyByQuantizedMultiplier64_eq_round :
    multiplyByQuantizedMultiplier64 x quantizedMultiplier shift =
      int32 (round (scaledByReduced x quantizedMultiplier shift)) := by
  have hfits := fitsInt64_of_abs_lt (lt_trans (abs_wideProduct_lt hm hx) (by norm_num))
  have hshifted := shifted_eq_round (n := 15) (x * reducedMultiplier quantizedMultiplier)
    (lt_of_le_of_lt hshift.2 (by norm_num))
  have hexact : ((x * reducedMultiplier quantizedMultiplier : Int) : ℚ) * 2 ^ (shift - (15 : Nat)) =
      scaledByReduced x quantizedMultiplier shift := by
    unfold scaledByReduced
    push_cast
    rfl
  unfold multiplyByQuantizedMultiplier64
  simp only [int64_eq hfits, int64_eq (fitsInt64_wideSum hm hshift hx)]
  rw [hexact] at hshifted
  exact congrArg int32 hshifted

end

/-! ## Both builds -/

/-- Requantization is accurate and keeps the order; the wide overload does not overflow and
rounds the product with the reduced multiplier to nearest. -/
theorem multiplyByQuantizedMultiplier_accurate {g : Gemmlowp} (hg : g.Documented)
    {quantizedMultiplier : Int} (hm : 2 ^ 30 ≤ quantizedMultiplier ∧ quantizedMultiplier < 2 ^ 31)
    (shift : Int) :
    (-31 ≤ shift ∧ shift ≤ 30 →
      (∀ x, FitsInt32 x → FitsInt32 (x * 2 ^ (max shift 0).toNat) →
        |scaledBy x quantizedMultiplier shift -
            DoubleRounding.multiplyByQuantizedMultiplier g x quantizedMultiplier shift| < 1 ∧
          SingleRounding.multiplyByQuantizedMultiplier x quantizedMultiplier shift =
            round (scaledBy x quantizedMultiplier shift)) ∧
      ∀ x y, FitsInt32 x → FitsInt32 y → FitsInt32 (x * 2 ^ (max shift 0).toNat) →
        FitsInt32 (y * 2 ^ (max shift 0).toNat) → x ≤ y →
          DoubleRounding.multiplyByQuantizedMultiplier g x quantizedMultiplier shift ≤
              DoubleRounding.multiplyByQuantizedMultiplier g y quantizedMultiplier shift ∧
            SingleRounding.multiplyByQuantizedMultiplier x quantizedMultiplier shift ≤
              SingleRounding.multiplyByQuantizedMultiplier y quantizedMultiplier shift) ∧
    (-31 ≤ shift ∧ shift ≤ 7 → ∀ x, |x| < 2 ^ 47 →
      reducedMultiplier quantizedMultiplier =
          min (round ((quantizedMultiplier : ℚ) / 2 ^ 16)) 0x7FFF ∧
        FitsInt64 (x * reducedMultiplier quantizedMultiplier) ∧
        FitsInt64 (x * reducedMultiplier quantizedMultiplier + 2 ^ ((15 - shift).toNat - 1)) ∧
        multiplyByQuantizedMultiplier64 x quantizedMultiplier shift =
          int32 (round (scaledByReduced x quantizedMultiplier shift))) := by
  have hpos : 0 < quantizedMultiplier := lt_of_lt_of_le (by norm_num) hm.1
  refine ⟨fun hshift => ⟨fun x hx hleft => ⟨?_, ?_⟩, fun x y hx hy hleftx hlefty hle => ⟨?_, ?_⟩⟩,
    fun hshift x hx => ⟨?_, ?_, ?_, ?_⟩⟩
  · exact DoubleRounding.abs_sub_lt_one hg ⟨hpos, hm.2⟩ hshift.1 hleft
  · exact SingleRounding.multiplyByQuantizedMultiplier_eq_round ⟨le_of_lt hpos, hm.2⟩ hshift hx
      hleft
  · exact DoubleRounding.mono hg ⟨hpos, hm.2⟩ hshift.1 hleftx hlefty hle
  · rw [SingleRounding.multiplyByQuantizedMultiplier_eq_round ⟨le_of_lt hpos, hm.2⟩ hshift hx hleftx,
      SingleRounding.multiplyByQuantizedMultiplier_eq_round ⟨le_of_lt hpos, hm.2⟩ hshift hy hlefty]
    obtain rfl | hlt := hle.eq_or_lt
    · exact le_refl _
    · exact round_le_round_of_le (le_of_lt (scaledBy_lt hpos hlt))
  · exact reducedMultiplier_eq (le_trans (by norm_num) hm.1)
  · exact fitsInt64_of_abs_lt (lt_trans (abs_wideProduct_lt (le_of_lt hpos) hx) (by norm_num))
  · exact fitsInt64_wideSum (le_of_lt hpos) hshift hx
  · exact multiplyByQuantizedMultiplier64_eq_round (le_of_lt hpos) hshift hx

def portableGemmlowp : Gemmlowp where
  saturatingRoundingDoublingHighMul a b :=
    if a = b ∧ a = -2 ^ 31 then 2 ^ 31 - 1
    else (a * b + if a * b ≥ 0 then 2 ^ 30 else 1 - 2 ^ 30).tdiv (2 ^ 31)
  roundingDivideByPOT x exponent :=
    x >>> exponent +
      if x % 2 ^ exponent > (2 ^ exponent - 1) / 2 + (if x < 0 then 1 else 0) then 1 else 0

section
variable (a b : Int)

theorem nearest_highMul_portable (h : ¬(a = -2 ^ 31 ∧ b = -2 ^ 31)) :
    Nearest (a * b / 2 ^ 31) (portableGemmlowp.saturatingRoundingDoublingHighMul a b) := by
  have hne : ¬(a = b ∧ a = -2 ^ 31) := fun hab => h ⟨hab.2, hab.1 ▸ hab.2⟩
  have hround : portableGemmlowp.saturatingRoundingDoublingHighMul a b =
      (a * b + 2 ^ 30) >>> (30 + 1 : Nat) := by
    rw [Int.shiftRight_eq_div_pow]
    unfold portableGemmlowp
    simp only [if_neg hne]
    generalize a * b = product
    split
    · rw [Int.tdiv_eq_ediv_of_nonneg (by omega)]
      rfl
    · have hneg := Int.neg_tdiv (-(product + (1 - 2 ^ 30))) (2 ^ 31)
      rw [neg_neg] at hneg
      rw [hneg, Int.tdiv_eq_ediv_of_nonneg (by omega)]
      omega
  have hcast : (a * b : ℚ) / 2 ^ 31 = ((a * b : Int) : ℚ) / 2 ^ (30 + 1) := by
    push_cast
    rfl
  rw [hround, shiftRight_add_half, hcast]
  exact nearest_round _

theorem nearest_divideByPOT_portable (exponent : Nat) :
    Nearest (a / 2 ^ exponent) (portableGemmlowp.roundingDivideByPOT a exponent) := by
  have hpos : (0 : Int) < 2 ^ exponent := by positivity
  have hcast : (a : ℚ) / 2 ^ exponent = a / ((2 ^ exponent : Int) : ℚ) := by
    push_cast
    rfl
  have heven : (2 : Int) ^ exponent = 1 ∨ (2 : Int) ^ exponent % 2 = 0 := by
    cases exponent with
    | zero => exact .inl (pow_zero 2)
    | succ k => exact .inr (by rw [pow_succ]; omega)
  have hdiv := Int.mul_ediv_add_emod a (2 ^ exponent)
  have hnonneg := Int.emod_nonneg a (ne_of_gt hpos)
  have hlt := Int.emod_lt_of_pos a hpos
  rw [hcast, nearest_div_iff hpos, abs_le]
  unfold portableGemmlowp
  simp only [Int.shiftRight_eq_div_pow, Nat.cast_pow, Nat.cast_ofNat, add_mul]
  rw [mul_comm] at hdiv
  generalize a / 2 ^ exponent * 2 ^ exponent = whole at *
  generalize a % 2 ^ exponent = rest at *
  generalize (2 : Int) ^ exponent = power at *
  split <;> split at * <;> omega

end

theorem portableGemmlowp_documented : portableGemmlowp.Documented where
  highMul a b _ _ h := nearest_highMul_portable a b h
  divideByPOT x exponent _ _ := nearest_divideByPOT_portable x exponent

theorem multiplyByQuantizedMultiplier_accurate_portable :
    |scaledBy 100 (2 ^ 30 + 2 ^ 14) (-3) -
        DoubleRounding.multiplyByQuantizedMultiplier portableGemmlowp 100 (2 ^ 30 + 2 ^ 14) (-3)| <
      1 := by
  have hm : 2 ^ 30 ≤ (2 ^ 30 + 2 ^ 14 : Int) ∧ (2 ^ 30 + 2 ^ 14 : Int) < 2 ^ 31 := by norm_num
  have hall := multiplyByQuantizedMultiplier_accurate portableGemmlowp_documented hm (-3)
  exact ((hall.1 (by norm_num)).1 100 (by constructor <;> norm_num)
    (by constructor <;> norm_num)).1

/-- The wide overload is not next to the product with the whole multiplier. -/
theorem multiplyByQuantizedMultiplier64_not_nearest :
    ¬∀ x quantizedMultiplier shift, 2 ^ 30 ≤ quantizedMultiplier → quantizedMultiplier < 2 ^ 31 →
      -31 ≤ shift → shift ≤ 7 → |x| < 2 ^ 47 →
        FitsInt32 (round (scaledBy x quantizedMultiplier shift)) →
          Nearest (scaledBy x quantizedMultiplier shift)
            (multiplyByQuantizedMultiplier64 x quantizedMultiplier shift) := by
  intro h
  have hvalue : multiplyByQuantizedMultiplier64 (2 ^ 46) (2 ^ 30 + 2 ^ 14) (-16) = 2 ^ 29 := by
    decide
  have hexact : scaledBy (2 ^ 46) (2 ^ 30 + 2 ^ 14) (-16) = ((2 ^ 29 + 2 ^ 13 : Int) : ℚ) := by
    unfold scaledBy
    norm_num
  have hnearest := h (2 ^ 46) (2 ^ 30 + 2 ^ 14) (-16) (by norm_num) (by norm_num) (by norm_num)
    (by norm_num) (by norm_num) (by rw [hexact, round_intCast]; constructor <;> norm_num)
  rw [hvalue, hexact] at hnearest
  have heq := hnearest.eq_of_intCast
  norm_num at heq

end LiteRt.Kernels
