import LiteRt.Lib.Binary64
import Mathlib.Data.Nat.Bitwise
import Mathlib.Tactic.NormNum

/-!
# Doubles taken apart with integer instructions

`IntegerFrExp` splits a double into a fraction of 31 bits and a shift, and
`DoubleFromFractionAndShift` puts the two together again. Both work on the bit pattern. A
fraction that rounds up to the next power of two is `2^31`: then its carry is ORed into the
exponent field, and is lost where the lowest bit of the exponent is set already.
-/

namespace LiteRt.Kernels

open Lib.Binary64

variable {u : Bits} {fraction : Nat} {e g : Nat}

def kSignMask : Bits := 0x8000000000000000
def kExponentMask : Bits := 0x7ff0000000000000
def kExponentShift : Nat := 52
def kExponentBias : Nat := 1023
def kExponentIsBadNum : BitVec 32 := 0x7ff
def kFractionMask : Bits := 0x000fffffffc00000
def kFractionShift : Nat := 22
def kFractionRoundingMask : Bits := 0x003fffff
def kFractionRoundingThreshold : Bits := 0x00200000

def int32Max : Int := 2 ^ 31 - 1
def int64Max : Int := 2 ^ 63 - 1
def int64Min : Int := -2 ^ 63

def quietNaN : Bits := 0x7ff8000000000000
def infinity : Bits := 0x7ff0000000000000

/-- `exponent_part` of `IntegerFrExp`. -/
def exponentPart (u : Bits) : BitVec 32 := ((u &&& kExponentMask) >>> kExponentShift).setWidth 32

/-- The fraction of `IntegerFrExp` before its sign. -/
def roundedFraction (u : Bits) : Int :=
  let fraction : Int := 0x40000000 + ((u &&& kFractionMask) >>> kFractionShift).toNat
  if u &&& kFractionRoundingMask > kFractionRoundingThreshold then fraction + 1 else fraction

/-- The returned fraction and the value written through `shift`. -/
def integerFrExp (u : Bits) : Int × Int :=
  if u &&& ~~~kSignMask = 0 then (0, 0)
  else if exponentPart u = kExponentIsBadNum then
    if u &&& kFractionMask ≠ 0 then (0, int32Max)
    else if u &&& kSignMask ≠ 0 then (int64Min, int32Max)
    else (int64Max, int32Max)
  else
    -- the subtraction is one of `uint32_t`, and its result is stored in an `int`
    let shift := (exponentPart u - BitVec.ofNat 32 kExponentBias + 1).toInt
    (if u &&& kSignMask ≠ 0 then -roundedFraction u else roundedFraction u, shift)

/-- The loop that doubles a fraction below `0x40000000`. -/
def doubleFraction (fraction : Nat) (shift : Int) : Nat × Int :=
  if 0 < fraction ∧ fraction < 0x40000000 then doubleFraction (fraction * 2) (shift - 1)
  else (fraction, shift)
termination_by 0x40000000 - fraction
decreasing_by omega

/-- The loop that halves a fraction above `0x80000000`. -/
def halveFraction (fraction : Nat) (shift : Int) : Nat × Int :=
  if 0x80000000 < fraction then halveFraction (fraction / 2) (shift + 1) else (fraction, shift)
termination_by fraction
decreasing_by omega

def clampShift (shift : Int) : Int :=
  if shift < -1022 then -1023 else if shift > 1022 then 1023 else shift

def doubleFromFractionAndShift (fraction shift : Int) : Bits :=
  if shift = int32Max then
    if fraction = 0 then quietNaN
    else if fraction > 0 then infinity
    else kSignMask ||| infinity
  else if fraction = 0 then 0
  else
    let doubled := doubleFraction fraction.natAbs (shift - 1)
    let halved := halveFraction doubled.1 doubled.2
    let encodedFraction := halved.1 - 0x40000000
    let encodedShift := clampShift halved.2 + kExponentBias
    (if fraction < 0 then kSignMask else 0) |||
      (BitVec.ofInt 64 encodedShift <<< kExponentShift) |||
      (BitVec.ofNat 64 encodedFraction <<< kFractionShift)

/-- A double taken apart and put together again. -/
def roundTrip (u : Bits) : Bits := doubleFromFractionAndShift (integerFrExp u).1 (integerFrExp u).2

/-! ### The fields `IntegerFrExp` reads -/

/-- The bits of the mantissa that are kept, rounded. -/
def kept (u : Bits) : Nat := roundHalfDown (2 ^ 22) (mantissa u)

/-- The number with its significand rounded to the bits kept. -/
def rounded (u : Bits) : ℚ :=
  signed (sign u) (roundHalfDown (2 ^ 22) (significand u) * 2 ^ (scale u + 22))

def IsZero (u : Bits) : Prop := exponent u = 0 ∧ mantissa u = 0

instance (u : Bits) : Decidable (IsZero u) := inferInstanceAs (Decidable (_ ∧ _))

/-- The bits kept round up to the next power of two. -/
def Carries (u : Bits) : Prop := 2 ^ 52 - 2 ^ 21 < mantissa u

instance (u : Bits) : Decidable (Carries u) := inferInstanceAs (Decidable (_ < _))

theorem kept_le (u : Bits) : kept u ≤ 2 ^ 30 := by
  have h := mantissa_lt u
  unfold kept roundHalfDown
  split <;> omega

theorem kept_eq_top : kept u = 2 ^ 30 ↔ Carries u := by
  have h := mantissa_lt u
  unfold kept roundHalfDown Carries
  split <;> omega

theorem kept_eq_zero : kept u = 0 ↔ mantissa u ≤ 2 ^ 21 := by
  unfold kept roundHalfDown
  split <;> omega

theorem sub_sign_eq_zero (u : Bits) : u &&& ~~~kSignMask = 0 ↔ IsZero u := by
  have hmask : ~~~kSignMask = BitVec.ofNat 64 (2 ^ 63 - 1) := by decide
  have hand : (u &&& ~~~kSignMask).toNat = u.toNat % 2 ^ 63 := by
    rw [hmask, BitVec.toNat_and]
    exact Nat.and_two_pow_sub_one_eq_mod u.toNat 63
  rw [← BitVec.toNat_inj, hand]
  show u.toNat % 2 ^ 63 = 0 ↔ u.toNat / 2 ^ 52 % 2 ^ 11 = 0 ∧ u.toNat % 2 ^ 52 = 0
  omega

theorem and_signMask_ne_zero (u : Bits) : u &&& kSignMask ≠ 0 ↔ sign u = true := by
  have hand : (u &&& kSignMask).toNat = (u.toNat.testBit 63).toNat * 2 ^ 63 := by
    rw [BitVec.toNat_and]
    exact Nat.and_two_pow u.toNat 63
  have hbit : u.toNat.testBit 63 = sign u := by
    have hlt := u.isLt
    rw [Nat.testBit_eq_decide_div_mod_eq]
    unfold sign
    rw [decide_eq_decide]
    omega
  rw [Ne, ← BitVec.toNat_inj, hand, hbit]
  cases sign u <;> decide

theorem exponentPart_toNat (u : Bits) : (exponentPart u).toNat = exponent u := by
  have hfield : ((u &&& kExponentMask) >>> kExponentShift).toNat = exponent u := by
    rw [BitVec.toNat_ushiftRight, BitVec.toNat_and]
    exact and_mask_shiftRight _ _ 52 11 (by decide)
  have hlt := exponent_lt u
  unfold exponentPart
  rw [BitVec.toNat_setWidth, hfield]
  omega

theorem exponentPart_ne_bad (h : IsFinite u) : exponentPart u ≠ kExponentIsBadNum := by
  intro hbad
  have hnat := exponentPart_toNat u
  rw [hbad] at hnat
  have hlt : exponent u < 2047 := h
  have h2047 : kExponentIsBadNum.toNat = 2047 := rfl
  omega

theorem exponentPart_shift (u : Bits) :
    (exponentPart u - BitVec.ofNat 32 kExponentBias + 1).toInt = (exponent u : Int) - 1022 := by
  have hnat := exponentPart_toNat u
  have hlt := exponent_lt u
  have hbias : (BitVec.ofNat 32 kExponentBias).toNat = 1023 := rfl
  have hone : (1 : BitVec 32).toNat = 1 := rfl
  rw [BitVec.toInt_eq_toNat_cond, BitVec.toNat_add, BitVec.toNat_sub, hnat, hbias, hone]
  split <;> omega

theorem roundedFraction_eq (u : Bits) : roundedFraction u = 2 ^ 30 + (kept u : Int) := by
  have hhigh : ((u &&& kFractionMask) >>> kFractionShift).toNat = u.toNat / 2 ^ 22 % 2 ^ 30 := by
    rw [BitVec.toNat_ushiftRight, BitVec.toNat_and]
    exact and_mask_shiftRight _ _ 22 30 (by decide)
  have hlow : (u &&& kFractionRoundingMask).toNat = u.toNat % 2 ^ 22 := by
    rw [BitVec.toNat_and]
    exact Nat.and_two_pow_sub_one_eq_mod u.toNat 22
  have hthreshold : kFractionRoundingThreshold.toNat = 2 ^ 21 := rfl
  unfold roundedFraction kept roundHalfDown mantissa
  simp only [gt_iff_lt, BitVec.lt_def, hlow, hhigh, hthreshold]
  split <;> split <;> omega

/-- What `IntegerFrExp` returns for a finite number that is not zero. -/
theorem integerFrExp_finite (h : IsFinite u) (hz : ¬IsZero u) :
    integerFrExp u = (if sign u then -(2 ^ 30 + (kept u : Int)) else 2 ^ 30 + (kept u : Int),
        (exponent u : Int) - 1022) := by
  unfold integerFrExp
  rw [if_neg (mt (sub_sign_eq_zero u).1 hz), if_neg (exponentPart_ne_bad h)]
  simp only [and_signMask_ne_zero, exponentPart_shift, roundedFraction_eq]

theorem integerFrExp_zero (hz : IsZero u) : integerFrExp u = (0, 0) := by
  unfold integerFrExp
  rw [if_pos ((sub_sign_eq_zero u).2 hz)]

/-! ### The fields `DoubleFromFractionAndShift` writes -/

theorem doubleFraction_of_le (h : 2 ^ 30 ≤ fraction) (shift : Int) :
    doubleFraction fraction shift = (fraction, shift) := by
  rw [doubleFraction, if_neg (by omega)]

theorem halveFraction_of_le (h : fraction ≤ 2 ^ 31) (shift : Int) :
    halveFraction fraction shift = (fraction, shift) := by
  rw [halveFraction, if_neg (by omega)]

/-- The carry of a fraction is ORed to the exponent. -/
theorem or_fields (he : e < 2 ^ 11) (hg : g ≤ 2 ^ 30) (s : Bool) :
    (((if s = true then kSignMask else 0) ||| (BitVec.ofNat 64 e <<< kExponentShift)) |||
        (BitVec.ofNat 64 g <<< kFractionShift)).toNat =
      s.toNat * 2 ^ 63 + (e ||| g / 2 ^ 30) * 2 ^ 52 + g % 2 ^ 30 * 2 ^ 22 := by
  have hsign : (if s = true then kSignMask else (0 : Bits)).toNat = s.toNat <<< 63 := by
    cases s <;> rfl
  have hexp : (BitVec.ofNat 64 e <<< kExponentShift).toNat = e <<< 52 := by
    show (BitVec.ofNat 64 e <<< 52).toNat = e <<< 52
    rw [BitVec.toNat_shiftLeft, BitVec.toNat_ofNat, Nat.shiftLeft_eq, Nat.shiftLeft_eq]
    omega
  have hfrac : (BitVec.ofNat 64 g <<< kFractionShift).toNat =
      (g / 2 ^ 30) <<< 52 ||| (g % 2 ^ 30 * 2 ^ 22) := by
    show (BitVec.ofNat 64 g <<< 22).toNat = _
    rw [BitVec.toNat_shiftLeft, BitVec.toNat_ofNat, Nat.shiftLeft_eq, shiftLeft_or_lt (by omega)]
    omega
  have hlt : e ||| g / 2 ^ 30 < 2 ^ 11 := Nat.or_lt_two_pow he (by omega)
  rw [BitVec.toNat_or, BitVec.toNat_or, hsign, hexp, hfrac, Nat.or_assoc,
    ← Nat.or_assoc (e <<< 52), ← Nat.shiftLeft_or_distrib,
    shiftLeft_or_lt (i := 52) (by omega), shiftLeft_or_lt (i := 63) (by omega)]
  omega

/-- A fraction of 31 bits or one that carried is encoded as it is. -/
theorem doubleFromFractionAndShift_eq (hpos : 0 < e) (he : e < 2047) (hg : g ≤ 2 ^ 30) (s : Bool) :
    doubleFromFractionAndShift (if s then -(2 ^ 30 + (g : Int)) else 2 ^ 30 + (g : Int))
        ((e : Int) - 1022) =
      (if s = true then kSignMask else 0) ||| (BitVec.ofNat 64 e <<< kExponentShift) |||
        (BitVec.ofNat 64 g <<< kFractionShift) := by
  have hshift : ¬(e : Int) - 1022 = int32Max := by
    unfold int32Max
    omega
  have hclamp : clampShift ((e : Int) - 1022 - 1) + kExponentBias = (e : Int) := by
    unfold clampShift kExponentBias
    split
    · omega
    · split <;> omega
  have hexp : BitVec.ofInt 64 (e : Int) = BitVec.ofNat 64 e := BitVec.ofInt_natCast 64 e
  have hne : ¬(if s then -(2 ^ 30 + (g : Int)) else 2 ^ 30 + (g : Int)) = 0 := by
    split <;> omega
  have hneg : (if s then -(2 ^ 30 + (g : Int)) else 2 ^ 30 + (g : Int)) < 0 ↔ s = true := by
    cases s with
    | false => simp only [Bool.false_eq_true, if_false, iff_false]; omega
    | true => simp only [if_true, iff_true]; omega
  have habs : (if s then -(2 ^ 30 + (g : Int)) else 2 ^ 30 + (g : Int)).natAbs = 2 ^ 30 + g := by
    split <;> omega
  have hsub : 2 ^ 30 + g - 0x40000000 = g := by omega
  unfold doubleFromFractionAndShift
  rw [if_neg hshift, if_neg hne, habs]
  simp only [doubleFraction_of_le (show 2 ^ 30 ≤ 2 ^ 30 + g by omega),
    halveFraction_of_le (show 2 ^ 30 + g ≤ 2 ^ 31 by omega), hclamp, hexp, hsub, hneg]

/-- The pattern put together from the fraction and the shift of a normal number. -/
theorem roundTrip_fields (h : IsNormal u) :
    sign (roundTrip u) = sign u ∧ exponent (roundTrip u) = exponent u ||| kept u / 2 ^ 30 ∧
      mantissa (roundTrip u) = kept u % 2 ^ 30 * 2 ^ 22 := by
  obtain ⟨hpos, hlt⟩ := h
  have hk := kept_le u
  have hor : exponent u ||| kept u / 2 ^ 30 < 2 ^ 11 := Nat.or_lt_two_pow (by omega) (by omega)
  have hnonzero : ¬IsZero u := fun hz => by
    have := hz.1
    omega
  refine fields_of_sum hor (by omega) ?_
  rw [← or_fields (show exponent u < 2 ^ 11 by omega) hk,
    ← doubleFromFractionAndShift_eq hpos hlt hk]
  unfold roundTrip
  rw [integerFrExp_finite hlt hnonzero]

/-! ### The value of the round trip -/

theorem rounded_normal (h : IsNormal u) :
    rounded u = signed (sign u) ((2 ^ 30 + kept u : Nat) * 2 ^ ((exponent u : Int) - 1053)) := by
  have hsig : significand u = 2 ^ 30 * 2 ^ 22 + mantissa u := if_neg (by have := h.1; omega)
  have hscale : scale u + 22 = (exponent u : Int) - 1053 := by
    have := h.1
    unfold scale
    omega
  unfold rounded kept
  rw [hsig, hscale, roundHalfDown_add_mul (by omega)]

/-- A unit of the fraction is `2^22` units of the mantissa. -/
theorem unit_eq (e : Int) : (2 : ℚ) ^ (e - 1053) = 2 ^ 22 * 2 ^ (e - 1075) := by
  rw [show e - 1053 = 22 + (e - 1075) by omega, zpow_add₀ (by norm_num)]
  norm_num

theorem value_normal (h : IsNormal u) :
    value u = signed (sign u) ((2 ^ 52 + mantissa u : Nat) * 2 ^ ((exponent u : Int) - 1075)) := by
  have hsig : significand u = 2 ^ 52 + mantissa u := if_neg (by have := h.1; omega)
  have hscale : scale u = (exponent u : Int) - 1075 := by
    have := h.1
    unfold scale
    omega
  unfold value
  rw [hsig, hscale]

/-- Rounding stays within a relative error of `2^-31`. -/
theorem abs_rounded_sub_value (h : IsNormal u) :
    |rounded u - value u| ≤ 2 ^ (-31 : Int) * |value u| := by
  have hround := abs_roundHalfDown_sub (show 0 < 2 ^ 22 by omega) (significand u)
  have hsig : (2 : ℚ) ^ 52 ≤ significand u := by
    have : 2 ^ 52 ≤ significand u := by
      have hne : exponent u ≠ 0 := by have := h.1; omega
      unfold significand
      rw [if_neg hne]
      omega
    exact_mod_cast this
  have hpow : (0 : ℚ) < 2 ^ scale u := zpow_pos (by norm_num) _
  have hsplit : (2 : ℚ) ^ (scale u + 22) = 2 ^ 22 * 2 ^ scale u := by
    rw [zpow_add₀ (by norm_num), mul_comm]
    norm_num
  have hrel : (2 : ℚ) ^ 21 ≤ 2 ^ (-31 : Int) * (significand u : ℚ) := by
    have hle := mul_le_mul_of_nonneg_left hsig (show (0 : ℚ) ≤ 2 ^ (-31 : Int) by norm_num)
    have h31 : (2 : ℚ) ^ (-31 : Int) * 2 ^ 52 = 2 ^ 21 := by norm_num
    rwa [h31] at hle
  have herr : |(roundHalfDown (2 ^ 22) (significand u) : ℚ) * 2 ^ 22 - significand u| ≤
      2 ^ (-31 : Int) * (significand u : ℚ) := by
    simp only [Nat.cast_mul, Nat.cast_pow, Nat.cast_ofNat] at hround
    exact le_trans (by linarith) hrel
  unfold rounded value
  rw [signed_abs_sub, abs_signed, hsplit, ← mul_assoc]
  exact abs_mul_sub_mul_le hpow (Nat.cast_nonneg _) herr

/-- The exponent takes the carry where its lowest bit is clear. -/
theorem or_one_eq {e : Nat} : (e ||| 1) = if e % 2 = 1 then e else e + 1 := by
  have h2 : (e ||| 1) / 2 = e / 2 := by rw [Nat.or_div_two]; simp
  have hmod : (e ||| 1) % 2 = 1 := by rw [Nat.or_mod_two_eq_one]; simp
  split <;> omega

/-- Without a carry the fields are the rounded ones. -/
theorem roundTrip_of_not_carries (h : IsNormal u) (hc : ¬Carries u) :
    IsNormal (roundTrip u) ∧ value (roundTrip u) = rounded u := by
  obtain ⟨hsign, hexp, hman⟩ := roundTrip_fields h
  have hk := kept_le u
  have hk30 : kept u ≠ 2 ^ 30 := fun hk30 => hc (kept_eq_top.1 hk30)
  have hdiv : kept u / 2 ^ 30 = 0 := by omega
  have hmod : kept u % 2 ^ 30 = kept u := Nat.mod_eq_of_lt (by omega)
  rw [hdiv, Nat.or_zero] at hexp
  rw [hmod] at hman
  have hnormal : IsNormal (roundTrip u) := by rwa [IsNormal, hexp]
  refine ⟨hnormal, ?_⟩
  rw [value_normal hnormal, rounded_normal h, hsign, hexp, hman, signed_inj, unit_eq]
  push_cast
  ring

/-- With a carry the mantissa is zero, and the exponent is the next one only from an even one. -/
theorem roundTrip_of_carries (h : IsNormal u) (hc : Carries u) :
    sign (roundTrip u) = sign u ∧ mantissa (roundTrip u) = 0 ∧
      exponent (roundTrip u) = if exponent u % 2 = 1 then exponent u else exponent u + 1 := by
  obtain ⟨hsign, hexp, hman⟩ := roundTrip_fields h
  rw [kept_eq_top.2 hc] at hexp hman
  rw [Nat.div_self (Nat.two_pow_pos 30), or_one_eq] at hexp
  rw [Nat.mod_self, Nat.zero_mul] at hman
  exact ⟨hsign, hman, hexp⟩

/-- A double that rounds up to a power of two has twice the least significand of its exponent. -/
theorem rounded_of_carries (h : IsNormal u) (hc : Carries u) :
    rounded u = signed (sign u) (2 ^ 53 * 2 ^ ((exponent u : Int) - 1075)) := by
  rw [rounded_normal h, kept_eq_top.2 hc, signed_inj, unit_eq, ← mul_assoc]
  norm_num

/-- The value after a carry, wherever the result is finite. -/
theorem value_of_carries (h : IsNormal u) (hc : Carries u) (hfin : IsFinite (roundTrip u)) :
    value (roundTrip u) = rounded u ↔ exponent u % 2 = 0 := by
  obtain ⟨hsign, hman, hexp⟩ := roundTrip_of_carries h hc
  have hpos := h.1
  have hnormal : IsNormal (roundTrip u) := ⟨by rw [hexp]; split <;> omega, hfin⟩
  have hpow : (0 : ℚ) < 2 ^ ((exponent u : Int) - 1075) := zpow_pos (by norm_num) _
  rw [value_normal hnormal, rounded_of_carries h hc, hsign, hman, signed_inj, hexp, Nat.add_zero,
    Nat.cast_pow, Nat.cast_ofNat]
  by_cases hodd : exponent u % 2 = 1
  · rw [if_pos hodd, mul_left_inj' hpow.ne']
    exact iff_of_false (by norm_num) (by omega)
  · have hnext : ((exponent u + 1 : Nat) : Int) - 1075 = 1 + ((exponent u : Int) - 1075) := by omega
    rw [if_neg hodd, hnext, zpow_add₀ (by norm_num), zpow_one, ← mul_assoc]
    exact iff_of_true (by norm_num) (by omega)

/-- A double put together again is the double rounded to the bits kept, unless the carry of the
rounding meets an exponent that is odd or the largest. -/
theorem roundTrip_isRounding_iff (u : Bits) (h : IsNormal u) :
    (IsFinite (roundTrip u) ∧ value (roundTrip u) = rounded u ∧
        |value (roundTrip u) - value u| ≤ 2 ^ (-31 : Int) * |value u|) ↔
      ¬(Carries u ∧ (exponent u % 2 = 1 ∨ exponent u = 2046)) := by
  have hnear := abs_rounded_sub_value h
  have hlt := h.2
  by_cases hc : Carries u
  · have hexp := (roundTrip_of_carries h hc).2.2
    constructor
    · rintro ⟨hfin, hv, -⟩ ⟨-, hbad⟩
      have heven := (value_of_carries h hc hfin).1 hv
      have htop : exponent (roundTrip u) < 2047 := hfin
      rw [if_neg (by omega)] at hexp
      omega
    · intro hgood
      have heven : exponent u % 2 = 0 := by
        by_contra hodd
        exact hgood ⟨hc, .inl (by omega)⟩
      have htop : exponent u ≠ 2046 := fun htop => hgood ⟨hc, .inr htop⟩
      have hfin : IsFinite (roundTrip u) := by
        show exponent (roundTrip u) < 2047
        rw [hexp]
        split <;> omega
      have hv := (value_of_carries h hc hfin).2 heven
      exact ⟨hfin, hv, by rwa [hv]⟩
  · obtain ⟨hnormal, hv⟩ := roundTrip_of_not_carries h hc
    exact iff_of_true ⟨hnormal.2, hv, by rwa [hv]⟩ (fun hbad => hc hbad.1)

/-- The double one. -/
def one : Bits := 0x3ff0000000000000

theorem roundTrip_one_isRounding :
    IsNormal one ∧ ¬(Carries one ∧ (exponent one % 2 = 1 ∨ exponent one = 2046)) ∧
      IsFinite (roundTrip one) ∧ value (roundTrip one) = rounded one :=
  have hcond : ¬(Carries one ∧ (exponent one % 2 = 1 ∨ exponent one = 2046)) := by decide
  have h := (roundTrip_isRounding_iff one (by decide)).2 hcond
  ⟨by decide, hcond, h.1, h.2.1⟩

/-- The greatest double below two comes back as one. -/
theorem roundTrip_belowTwo_not_rounding :
    ¬∀ u : Bits, IsNormal u → IsFinite (roundTrip u) ∧ value (roundTrip u) = rounded u ∧
      |value (roundTrip u) - value u| ≤ 2 ^ (-31 : Int) * |value u| := by
  intro h
  have hnormal : IsNormal 0x3fffffffffffffff := by decide
  obtain ⟨hfin, hv, -⟩ := h 0x3fffffffffffffff hnormal
  have heven := (value_of_carries hnormal (by decide) hfin).1 hv
  exact absurd heven (by decide)

end LiteRt.Kernels
