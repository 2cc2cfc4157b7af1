import LiteRt.Kernels.IntegerDouble
import Mathlib.Tactic.Positivity

/-!
# Doubles compared with integer instructions

`IntegerDoubleCompare` compares the shifts of two doubles, and their fractions where the shifts
are equal. This is the order of the numbers only for numbers that are not negative: of two
negative numbers the larger shift is the smaller one, zero has the shift of one half, and a
fraction that carried belongs to the next shift.
-/

namespace LiteRt.Kernels

open Lib.Binary64

variable {u : Bits} {a b : Bits} {x y : ℚ}

def integerDoubleCompare (a b : Bits) : Int :=
  let aFraction := (integerFrExp a).1
  let aShift := (integerFrExp a).2
  let bFraction := (integerFrExp b).1
  let bShift := (integerFrExp b).2
  if aShift = int32Max ∨ bShift = int32Max then 1
  else if aFraction = 0 ∧ bFraction < 0 then 1
  else if aFraction < 0 ∧ bFraction = 0 then -1
  else if aShift < bShift then -1
  else if aShift > bShift then 1
  else if aFraction < bFraction then -1
  else if aFraction > bFraction then 1
  else 0

/-- A result orders two numbers. -/
def Orders (r : Int) (x y : ℚ) : Prop := (r < 0 ↔ x < y) ∧ (r = 0 ↔ x = y) ∧ (0 < r ↔ y < x)

theorem orders_neg_one : Orders (-1) x y ↔ x < y := by
  refine ⟨fun h => h.1.1 (by omega), fun h => ⟨iff_of_true (by omega) h, ?_, ?_⟩⟩
  · exact iff_of_false (by omega) h.ne
  · exact iff_of_false (by omega) h.not_gt

theorem orders_one : Orders 1 x y ↔ y < x := by
  refine ⟨fun h => h.2.2.1 (by omega), fun h => ⟨?_, ?_, iff_of_true (by omega) h⟩⟩
  · exact iff_of_false (by omega) h.not_gt
  · exact iff_of_false (by omega) h.ne'

theorem orders_zero : Orders 0 x y ↔ x = y := by
  refine ⟨fun h => h.2.1.1 rfl, fun h => ⟨?_, iff_of_true rfl h, ?_⟩⟩
  · exact iff_of_false (by omega) h.not_lt
  · exact iff_of_false (by omega) h.not_gt

/-! ### Which numbers the order is wrong for -/

def Positive (u : Bits) : Prop := ¬IsZero u ∧ sign u = false

def Negative (u : Bits) : Prop := ¬IsZero u ∧ sign u = true

/-- A number other than zero of which no bit is kept. -/
def Vanishes (u : Bits) : Prop := ¬IsZero u ∧ exponent u = 0 ∧ mantissa u ≤ 2 ^ 21

instance (u : Bits) : Decidable (Positive u) := inferInstanceAs (Decidable (_ ∧ _))

instance (u : Bits) : Decidable (Negative u) := inferInstanceAs (Decidable (_ ∧ _))

instance (u : Bits) : Decidable (Vanishes u) := inferInstanceAs (Decidable (_ ∧ _))

/-- The exponent a number is ordered by. -/
def place (u : Bits) : Nat := if IsZero u then 1022 else exponent u

/-- A number ordered by a greater exponent is the greater one. -/
def Above (lo hi : Bits) : Prop :=
  Positive hi ∧ ¬(Positive lo ∧ Carries lo ∧ place hi = place lo + 1 ∧ mantissa hi ≤ 2 ^ 21)

instance (lo hi : Bits) : Decidable (Above lo hi) := inferInstanceAs (Decidable (_ ∧ _))

def OrderedRight (a b : Bits) : Prop :=
  if IsZero a ∧ Negative b then ¬Vanishes b
  else if Negative a ∧ IsZero b then ¬Vanishes a
  else if place a < place b then Above a b
  else if place b < place a then Above b a
  else ¬(Vanishes a ∧ Vanishes b ∧ sign a ≠ sign b)

instance (a b : Bits) : Decidable (OrderedRight a b) := by
  unfold OrderedRight
  infer_instance

theorem zero_or_positive_or_negative (u : Bits) : IsZero u ∨ Positive u ∨ Negative u := by
  by_cases hz : IsZero u
  · exact .inl hz
  · cases hs : sign u with
    | false => exact .inr (.inl ⟨hz, hs⟩)
    | true => exact .inr (.inr ⟨hz, hs⟩)

/-! ### The magnitude that is kept -/

/-- The magnitude of a number with its significand rounded to the bits kept. -/
def magnitude (u : Bits) : ℚ := roundHalfDown (2 ^ 22) (significand u) * 2 ^ (scale u + 22)

theorem rounded_zero (h : IsZero u) : rounded u = 0 := by
  have hsig : significand u = 0 := by
    unfold significand
    rw [if_pos h.1, h.2]
  have hround : roundHalfDown (2 ^ 22) 0 = 0 := rfl
  unfold rounded
  rw [hsig, hround, Nat.cast_zero, zero_mul]
  cases sign u with
  | false => rfl
  | true => exact neg_zero

theorem rounded_positive (h : Positive u) : rounded u = magnitude u := by
  unfold rounded
  rw [h.2]
  rfl

theorem rounded_negative (h : Negative u) : rounded u = -magnitude u := by
  unfold rounded
  rw [h.2]
  rfl

/-- A subnormal number has no implicit bit. -/
theorem magnitude_subnormal (h : exponent u = 0) :
    magnitude u = kept u * 2 ^ (-1052 : Int) := by
  have hscale : scale u + 22 = -1052 := by
    unfold scale
    rw [h]
    rfl
  unfold magnitude significand kept
  rw [if_pos h, hscale]

theorem magnitude_normal (h : 0 < exponent u) :
    magnitude u = (2 ^ 30 + kept u : Nat) * 2 ^ ((exponent u : Int) - 1053) := by
  have hsig : significand u = 2 ^ 30 * 2 ^ 22 + mantissa u := if_neg (by omega)
  have hscale : scale u + 22 = (exponent u : Int) - 1053 := by
    unfold scale
    omega
  unfold magnitude kept
  rw [hsig, hscale, roundHalfDown_add_mul (by omega)]

theorem magnitude_nonneg (u : Bits) : 0 ≤ magnitude u := by
  unfold magnitude
  positivity

/-- Two numbers of one exponent are ordered by the bits kept. -/
theorem magnitude_lt_of_exponent_eq (h : exponent a = exponent b) :
    magnitude a < magnitude b ↔ kept a < kept b := by
  have hpow : ∀ e : Int, (0 : ℚ) < 2 ^ e := fun e => zpow_pos (by norm_num) e
  by_cases h0 : exponent a = 0
  · rw [magnitude_subnormal h0, magnitude_subnormal (h ▸ h0), mul_lt_mul_iff_left₀ (hpow _),
      Nat.cast_lt]
  · rw [magnitude_normal (by omega), magnitude_normal (by omega), h,
      mul_lt_mul_iff_left₀ (hpow _), Nat.cast_lt]
    omega

/-- A magnitude does not pass the next power of two, which it reaches by a carry. -/
theorem magnitude_le_top (u : Bits) :
    magnitude u ≤ 2 ^ ((exponent u : Int) - 1022) ∧
      (magnitude u = 2 ^ ((exponent u : Int) - 1022) ↔ Carries u) := by
  have hk : (kept u : ℚ) ≤ 2 ^ 30 := by exact_mod_cast kept_le u
  have hcarry : (kept u : ℚ) = 2 ^ 30 ↔ Carries u := by
    rw [← kept_eq_top]
    norm_cast
  have hpow : ∀ e : Int, (0 : ℚ) < 2 ^ e := fun e => zpow_pos (by norm_num) e
  by_cases h0 : exponent u = 0
  · have htop : (2 : ℚ) ^ ((exponent u : Int) - 1022) = 2 ^ 30 * 2 ^ (-1052 : Int) := by
      rw [h0, ← zpow_natCast, ← zpow_add₀ (by norm_num)]
      rfl
    rw [magnitude_subnormal h0, htop, mul_left_inj' (hpow _).ne', hcarry]
    exact ⟨mul_le_mul_of_nonneg_right hk (hpow _).le, Iff.rfl⟩
  · have htop : (2 : ℚ) ^ ((exponent u : Int) - 1022) =
        (2 ^ 30 + 2 ^ 30) * 2 ^ ((exponent u : Int) - 1053) := by
      rw [show (exponent u : Int) - 1022 = 31 + ((exponent u : Int) - 1053) by omega,
        zpow_add₀ (by norm_num)]
      norm_num
    rw [magnitude_normal (by omega), htop, mul_left_inj' (hpow _).ne', ← hcarry]
    rw [Nat.cast_add, Nat.cast_pow, Nat.cast_ofNat]
    exact ⟨mul_le_mul_of_nonneg_right (by linarith) (hpow _).le, by rw [add_right_inj]⟩

/-- A normal magnitude is at least its power of two, which it is when no bit is kept. -/
theorem bottom_le_magnitude (h : 0 < exponent u) :
    2 ^ ((exponent u : Int) - 1023) ≤ magnitude u ∧
      (magnitude u = 2 ^ ((exponent u : Int) - 1023) ↔ mantissa u ≤ 2 ^ 21) := by
  have hk : (0 : ℚ) ≤ kept u := Nat.cast_nonneg _
  have hzero : (kept u : ℚ) = 0 ↔ mantissa u ≤ 2 ^ 21 := by
    rw [← kept_eq_zero]
    norm_cast
  have hpow : (0 : ℚ) < 2 ^ ((exponent u : Int) - 1053) := zpow_pos (by norm_num) _
  have hbottom : (2 : ℚ) ^ ((exponent u : Int) - 1023) =
      2 ^ 30 * 2 ^ ((exponent u : Int) - 1053) := by
    rw [show (exponent u : Int) - 1023 = 30 + ((exponent u : Int) - 1053) by omega,
      zpow_add₀ (by norm_num)]
    norm_num
  rw [magnitude_normal h, hbottom, mul_left_inj' hpow.ne', ← hzero]
  rw [Nat.cast_add, Nat.cast_pow, Nat.cast_ofNat]
  exact ⟨mul_le_mul_of_nonneg_right (by linarith) hpow.le, by rw [add_eq_left]⟩

theorem magnitude_pos_of_normal (h : 0 < exponent u) : 0 < magnitude u :=
  lt_of_lt_of_le (zpow_pos (by norm_num) _) (bottom_le_magnitude h).1

theorem magnitude_eq_zero : magnitude u = 0 ↔ exponent u = 0 ∧ mantissa u ≤ 2 ^ 21 := by
  by_cases h0 : exponent u = 0
  · have hpow : (2 : ℚ) ^ (-1052 : Int) ≠ 0 := zpow_ne_zero _ (by norm_num)
    rw [magnitude_subnormal h0, mul_eq_zero, or_iff_left hpow, Nat.cast_eq_zero, kept_eq_zero]
    exact ⟨fun h => ⟨h0, h⟩, fun h => h.2⟩
  · exact iff_of_false (magnitude_pos_of_normal (by omega)).ne' (fun h => h0 h.1)

/-- A greater exponent is a greater magnitude, unless a carry reaches it. -/
theorem magnitude_of_exponent_lt (h : exponent a < exponent b) :
    magnitude a ≤ magnitude b ∧ (magnitude a < magnitude b ↔
        ¬(Carries a ∧ exponent b = exponent a + 1 ∧ mantissa b ≤ 2 ^ 21)) := by
  obtain ⟨htop, htopEq⟩ := magnitude_le_top a
  obtain ⟨hbottom, hbottomEq⟩ := bottom_le_magnitude (show 0 < exponent b by omega)
  have hmono : (2 : ℚ) ^ ((exponent a : Int) - 1022) ≤ 2 ^ ((exponent b : Int) - 1023) :=
    zpow_le_zpow_right₀ (by norm_num) (by omega)
  have hle : magnitude a ≤ magnitude b := htop.trans (hmono.trans hbottom)
  refine ⟨hle, ?_⟩
  rw [lt_iff_le_and_ne, and_iff_right hle, Ne, not_iff_not, ← htopEq, ← hbottomEq]
  constructor
  · intro heq
    have hstep : (2 : ℚ) ^ ((exponent a : Int) - 1022) = 2 ^ ((exponent b : Int) - 1023) :=
      le_antisymm hmono (hbottom.trans (heq ▸ htop))
    have hexp := zpow_right_injective₀ (by norm_num : (0 : ℚ) < 2) (by norm_num) hstep
    refine ⟨le_antisymm htop (hstep ▸ heq ▸ hbottom), by omega, ?_⟩
    exact le_antisymm (heq ▸ hstep ▸ htop) hbottom
  · rintro ⟨ha, hexp, hb⟩
    rw [ha, hb, hexp]
    congr 1
    omega

/-! ### The order of the rounded numbers -/

theorem place_of_not_zero (h : ¬IsZero u) : place u = exponent u := if_neg h

theorem place_of_zero (h : IsZero u) : place u = 1022 := if_pos h

theorem rounded_pos_of_normal (h : Positive u) (he : 0 < exponent u) :
    0 < rounded u := by
  rw [rounded_positive h]
  exact magnitude_pos_of_normal he

/-- A negative number is below zero unless it vanishes. -/
theorem rounded_negative_lt_zero (h : Negative u) : rounded u < 0 ↔ ¬Vanishes u := by
  have hnonneg := magnitude_nonneg u
  rw [rounded_negative h, neg_lt_zero, lt_iff_le_and_ne, and_iff_right hnonneg, ne_comm, Ne,
    magnitude_eq_zero, not_iff_not]
  exact ⟨fun hv => ⟨h.1, hv⟩, fun hv => hv.2⟩

/-- Numbers with different places are ordered by them where the higher one is above. -/
theorem rounded_lt_iff_above {lo hi : Bits} (hplace : place lo < place hi)
    (hzero : ¬(IsZero lo ∧ Negative hi)) (hneg : ¬(Negative lo ∧ IsZero hi)) :
    rounded lo < rounded hi ↔ Above lo hi := by
  rcases zero_or_positive_or_negative hi with hhi | hhi | hhi
  · -- zero is above nothing that is left
    have hnot : ¬Above lo hi := fun h => h.1.1 hhi
    rw [rounded_zero hhi]
    refine iff_of_false ?_ hnot
    rcases zero_or_positive_or_negative lo with hlo | hlo | hlo
    · rw [rounded_zero hlo]
      exact lt_irrefl 0
    · rw [rounded_positive hlo]
      exact (magnitude_nonneg lo).not_gt
    · exact absurd ⟨hlo, hhi⟩ hneg
  · have hexp : place hi = exponent hi := place_of_not_zero hhi.1
    have hnormal : 0 < exponent hi := by omega
    have hpos := rounded_pos_of_normal hhi hnormal
    rcases zero_or_positive_or_negative lo with hlo | hlo | hlo
    · rw [rounded_zero hlo]
      exact iff_of_true hpos ⟨hhi, fun h => h.1.1 hlo⟩
    · have hlt : exponent lo < exponent hi := by
        rwa [place_of_not_zero hlo.1, hexp] at hplace
      rw [rounded_positive hlo, rounded_positive hhi, (magnitude_of_exponent_lt hlt).2]
      unfold Above
      rw [hexp, place_of_not_zero hlo.1, and_iff_right hhi, and_iff_right hlo]
    · have hle : rounded lo ≤ 0 := by
        rw [rounded_negative hlo]
        exact neg_nonpos.2 (magnitude_nonneg lo)
      refine iff_of_true (hle.trans_lt hpos) ⟨hhi, fun h => ?_⟩
      exact absurd (h.1.2.symm.trans hlo.2) Bool.false_ne_true
  · -- the higher of two negative numbers is the smaller one
    have hnot : ¬Above lo hi := fun h => absurd (h.1.2.symm.trans hhi.2) Bool.false_ne_true
    refine iff_of_false ?_ hnot
    rw [rounded_negative hhi]
    have hnonneg := magnitude_nonneg hi
    rcases zero_or_positive_or_negative lo with hlo | hlo | hlo
    · exact absurd ⟨hlo, hhi⟩ hzero
    · rw [rounded_positive hlo]
      have := magnitude_nonneg lo
      linarith
    · have hlt : exponent lo < exponent hi := by
        rwa [place_of_not_zero hlo.1, place_of_not_zero hhi.1] at hplace
      have hle := (magnitude_of_exponent_lt hlt).1
      rw [rounded_negative hlo]
      linarith

/-! ### The order of the fractions -/

/-- The fraction of a finite number, with its sign. -/
def fraction (u : Bits) : Int := (integerFrExp u).1

theorem fraction_zero (h : IsZero u) : fraction u = 0 := by
  unfold fraction
  rw [integerFrExp_zero h]

theorem fraction_positive (hfin : IsFinite u) (h : Positive u) :
    fraction u = 2 ^ 30 + (kept u : Int) := by
  unfold fraction
  rw [integerFrExp_finite hfin h.1, h.2, if_neg Bool.false_ne_true]

theorem fraction_negative (hfin : IsFinite u) (h : Negative u) :
    fraction u = -(2 ^ 30 + (kept u : Int)) := by
  unfold fraction
  rw [integerFrExp_finite hfin h.1, h.2, if_pos rfl]

theorem shift_eq (hfin : IsFinite u) : (integerFrExp u).2 = (place u : Int) - 1022 := by
  by_cases hz : IsZero u
  · rw [integerFrExp_zero hz, place_of_zero hz]
    rfl
  · rw [integerFrExp_finite hfin hz, place_of_not_zero hz]

theorem fraction_eq_zero (hfin : IsFinite u) : fraction u = 0 ↔ IsZero u := by
  rcases zero_or_positive_or_negative u with h | h | h
  · exact iff_of_true (fraction_zero h) h
  · rw [fraction_positive hfin h]
    exact iff_of_false (by omega) h.1
  · rw [fraction_negative hfin h]
    exact iff_of_false (by omega) h.1

theorem fraction_lt_zero (hfin : IsFinite u) : fraction u < 0 ↔ Negative u := by
  rcases zero_or_positive_or_negative u with h | h | h
  · rw [fraction_zero h]
    exact iff_of_false (by omega) (fun hn => hn.1 h)
  · rw [fraction_positive hfin h]
    exact iff_of_false (by omega) (fun hn => absurd (h.2.symm.trans hn.2) Bool.false_ne_true)
  · rw [fraction_negative hfin h]
    exact iff_of_true (by omega) h

def compareFractions (a b : Bits) : Int :=
  if fraction a < fraction b then -1 else if fraction b < fraction a then 1 else 0

theorem integerDoubleCompare_finite (ha : IsFinite a) (hb : IsFinite b) :
    integerDoubleCompare a b =
      if IsZero a ∧ Negative b then 1
      else if Negative a ∧ IsZero b then -1
      else if place a < place b then -1
      else if place b < place a then 1
      else compareFractions a b := by
  have hmax : ∀ {u : Bits}, IsFinite u → ¬(integerFrExp u).2 = int32Max := by
    intro u hu hshift
    have hlt : exponent u < 2047 := hu
    have hplace : place u < 2047 := by
      unfold place
      split <;> omega
    rw [shift_eq hu] at hshift
    unfold int32Max at hshift
    omega
  have hshift : ∀ m n : Nat, (m : Int) - 1022 < (n : Int) - 1022 ↔ m < n := by
    intro m n
    omega
  show (if (integerFrExp a).2 = int32Max ∨ (integerFrExp b).2 = int32Max then (1 : Int)
    else if fraction a = 0 ∧ fraction b < 0 then 1
    else if fraction a < 0 ∧ fraction b = 0 then -1
    else if (integerFrExp a).2 < (integerFrExp b).2 then -1
    else if (integerFrExp a).2 > (integerFrExp b).2 then 1
    else compareFractions a b) = _
  rw [if_neg (fun h => h.elim (hmax ha) (hmax hb))]
  simp only [fraction_eq_zero ha, fraction_eq_zero hb, fraction_lt_zero ha, fraction_lt_zero hb,
    shift_eq ha, shift_eq hb, gt_iff_lt, hshift]

theorem orders_compareFractions :
    Orders (compareFractions a b) x y ↔
      (fraction a < fraction b ↔ x < y) ∧ (fraction b < fraction a ↔ y < x) := by
  unfold compareFractions
  split
  next hlt =>
    rw [orders_neg_one, iff_true_left hlt, iff_false_left (show ¬fraction b < fraction a by omega)]
    exact ⟨fun h => ⟨h, h.not_gt⟩, fun h => h.1⟩
  next hge =>
    split
    next hlt =>
      rw [orders_one, iff_false_left hge, iff_true_left hlt]
      exact ⟨fun h => ⟨h.not_gt, h⟩, fun h => h.2⟩
    next hle =>
      rw [orders_zero, iff_false_left hge, iff_false_left hle, not_lt, not_lt]
      exact ⟨fun h => ⟨h.ge, h.le⟩, fun h => le_antisymm h.2 h.1⟩

/-- The fractions of numbers of one place order them, unless both vanish to zero from two
sides. -/
theorem fraction_lt_iff_rounded_lt (ha : IsFinite a) (hb : IsFinite b) (hplace : place a = place b)
    (hzero : ¬(IsZero a ∧ Negative b)) (hneg : ¬(Negative a ∧ IsZero b)) :
    (fraction a < fraction b ↔ rounded a < rounded b) ↔
      ¬(Negative a ∧ Positive b ∧ Vanishes a ∧ Vanishes b) := by
  have hmagA := magnitude_nonneg a
  have hmagB := magnitude_nonneg b
  have hexp : ¬IsZero a → ¬IsZero b → exponent a = exponent b := fun hza hzb => by
    rwa [place_of_not_zero hza, place_of_not_zero hzb] at hplace
  rcases zero_or_positive_or_negative a with hza | hpa | hna
  · refine iff_of_true ?_ (fun h => h.1.1 hza)
    rw [fraction_zero hza, rounded_zero hza]
    rcases zero_or_positive_or_negative b with hzb | hpb | hnb
    · rw [fraction_zero hzb, rounded_zero hzb]
      exact iff_of_false (lt_irrefl 0) (lt_irrefl 0)
    · -- a number with the place of zero is one of the normal numbers from one half on
      have hplaceB : 0 < exponent b := by
        rw [place_of_zero hza, place_of_not_zero hpb.1] at hplace
        omega
      rw [fraction_positive hb hpb]
      exact iff_of_true (by omega) (rounded_pos_of_normal hpb hplaceB)
    · exact absurd ⟨hza, hnb⟩ hzero
  · refine iff_of_true ?_ (fun h => absurd (hpa.2.symm.trans h.1.2) Bool.false_ne_true)
    rw [fraction_positive ha hpa, rounded_positive hpa]
    rcases zero_or_positive_or_negative b with hzb | hpb | hnb
    · rw [fraction_zero hzb, rounded_zero hzb]
      exact iff_of_false (by omega) hmagA.not_gt
    · rw [fraction_positive hb hpb, rounded_positive hpb,
        magnitude_lt_of_exponent_eq (hexp hpa.1 hpb.1)]
      omega
    · rw [fraction_negative hb hnb, rounded_negative hnb]
      exact iff_of_false (by omega) (by linarith)
  · rcases zero_or_positive_or_negative b with hzb | hpb | hnb
    · exact absurd ⟨hna, hzb⟩ hneg
    · have hlt : fraction a < fraction b := by
        rw [fraction_negative ha hna, fraction_positive hb hpb]
        omega
      rw [iff_true_left hlt, and_iff_right hna, and_iff_right hpb, rounded_negative hna,
        rounded_positive hpb]
      constructor
      · rintro hsum ⟨hva, hvb⟩
        rw [magnitude_eq_zero.2 hva.2, magnitude_eq_zero.2 hvb.2, neg_zero] at hsum
        exact lt_irrefl 0 hsum
      · intro hnot
        by_contra hsum
        have hzeroA : magnitude a = 0 := by linarith
        have hzeroB : magnitude b = 0 := by linarith
        exact hnot ⟨⟨hna.1, magnitude_eq_zero.1 hzeroA⟩, ⟨hpb.1, magnitude_eq_zero.1 hzeroB⟩⟩
    · refine iff_of_true ?_ (fun h => absurd (h.2.1.2.symm.trans hnb.2) Bool.false_ne_true)
      have hround : rounded a < rounded b ↔ kept b < kept a := by
        rw [rounded_negative hna, rounded_negative hnb, neg_lt_neg_iff,
          magnitude_lt_of_exponent_eq (hexp hna.1 hnb.1).symm]
      rw [fraction_negative ha hna, fraction_negative hb hnb, hround]
      omega

/-- Vanishing numbers of different signs are one below zero and one above. -/
theorem vanish_apart_iff :
    ¬(Vanishes a ∧ Vanishes b ∧ sign a ≠ sign b) ↔
      ¬(Negative a ∧ Positive b ∧ Vanishes a ∧ Vanishes b) ∧
        ¬(Negative b ∧ Positive a ∧ Vanishes b ∧ Vanishes a) := by
  rw [← not_or, not_iff_not]
  constructor
  · rintro ⟨hva, hvb, hne⟩
    cases hs : sign a with
    | true => exact .inl ⟨⟨hva.1, hs⟩, ⟨hvb.1, by rw [hs] at hne; simpa using hne⟩, hva, hvb⟩
    | false => exact .inr ⟨⟨hvb.1, by rw [hs] at hne; simpa using hne⟩, ⟨hva.1, hs⟩, hvb, hva⟩
  · rintro (⟨hna, hpb, hva, hvb⟩ | ⟨hnb, hpa, hvb, hva⟩)
    · exact ⟨hva, hvb, by rw [hna.2, hpb.2]; exact Bool.true_eq_false_eq_False⟩
    · exact ⟨hva, hvb, by rw [hnb.2, hpa.2]; exact Bool.false_ne_true⟩

/-- Two doubles are ordered as their rounded values are in the pairs that are ordered right, and
in no others. -/
theorem integerDoubleCompare_orders_iff (a b : Bits) (ha : IsFinite a) (hb : IsFinite b) :
    Orders (integerDoubleCompare a b) (rounded a) (rounded b) ↔ OrderedRight a b := by
  rw [integerDoubleCompare_finite ha hb]
  unfold OrderedRight
  by_cases hzero : IsZero a ∧ Negative b
  · rw [if_pos hzero, if_pos hzero, orders_one, rounded_zero hzero.1,
      rounded_negative_lt_zero hzero.2]
  rw [if_neg hzero, if_neg hzero]
  by_cases hneg : Negative a ∧ IsZero b
  · rw [if_pos hneg, if_pos hneg, orders_neg_one, rounded_zero hneg.2,
      rounded_negative_lt_zero hneg.1]
  rw [if_neg hneg, if_neg hneg]
  have hzero' : ¬(IsZero b ∧ Negative a) := fun h => hneg ⟨h.2, h.1⟩
  have hneg' : ¬(Negative b ∧ IsZero a) := fun h => hzero ⟨h.2, h.1⟩
  by_cases hlt : place a < place b
  · rw [if_pos hlt, if_pos hlt, orders_neg_one, rounded_lt_iff_above hlt hzero hneg]
  rw [if_neg hlt, if_neg hlt]
  by_cases hgt : place b < place a
  · rw [if_pos hgt, if_pos hgt, orders_one, rounded_lt_iff_above hgt hzero' hneg']
  have hplace : place a = place b := by omega
  rw [if_neg hgt, if_neg hgt, orders_compareFractions, vanish_apart_iff,
    fraction_lt_iff_rounded_lt ha hb hplace hzero hneg,
    fraction_lt_iff_rounded_lt hb ha hplace.symm hzero' hneg']

def minusOne : Bits := 0xbff0000000000000
def minusTwo : Bits := 0xc000000000000000

theorem integerDoubleCompare_minusOne_one :
    OrderedRight minusOne one ∧
      Orders (integerDoubleCompare minusOne one) (rounded minusOne) (rounded one) :=
  have hright : OrderedRight minusOne one := by decide
  ⟨hright, (integerDoubleCompare_orders_iff minusOne one (by decide) (by decide)).2 hright⟩

/-- Minus two is compared as greater than minus one. -/
theorem integerDoubleCompare_minusTwo_minusOne :
    ¬∀ a b : Bits, IsFinite a → IsFinite b →
      Orders (integerDoubleCompare a b) (rounded a) (rounded b) := by
  intro h
  have horder := h minusTwo minusOne (by decide) (by decide)
  have hcompare : integerDoubleCompare minusTwo minusOne = 1 := by decide
  have hexp : exponent minusOne < exponent minusTwo := by decide
  have hle := (magnitude_of_exponent_lt hexp).1
  rw [hcompare, orders_one, rounded_negative (u := minusTwo) (by decide),
    rounded_negative (u := minusOne) (by decide)] at horder
  linarith

end LiteRt.Kernels
