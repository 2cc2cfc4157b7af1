import LiteRt.Lib.Loops
import Mathlib.Algebra.Group.Nat.Defs
import Mathlib.Algebra.Ring.Int.Defs
import Mathlib.Data.List.GetD

/-!
# Values of a few bits in bytes

The low bits of some values are put into one byte, the first value in the lowest bits, and are
taken out again with or without a sign. A width divides eight, so that no value is on two bytes.
-/

namespace LiteRt.Lib

variable {isUnsigned : Bool} {t : Nat}

abbrev Byte := BitVec 8

/-- The lowest bits of a byte. -/
def lowMask (width : Nat) : Byte := BitVec.ofNat 8 (2 ^ width - 1)

/-- The low bits of the values `f 0`, `f 1`, … in one byte. -/
def packFields (width : Nat) (f : Nat → Byte) (count : Nat) : Byte :=
  (List.range count).foldl (fun out j => out ||| ((f j &&& lowMask width) <<< (j * width))) 0

/-- The bits of a byte from an offset on, with the sign of the topmost one unless unsigned. -/
def extractField (isUnsigned : Bool) (width : Nat) (byte : Byte) (offset : Nat) : Byte :=
  if isUnsigned then (byte >>> offset) &&& lowMask width
  else (byte <<< (8 - width - offset)).sshiftRight (8 - width)

/-- The value has so many bits. -/
def FieldFits (isUnsigned : Bool) (width : Nat) (value : Byte) : Prop :=
  if isUnsigned then value.toNat < 2 ^ width
  else -2 ^ (width - 1) ≤ value.toInt ∧ value.toInt < 2 ^ (width - 1)

instance (isUnsigned : Bool) (width : Nat) (value : Byte) :
    Decidable (FieldFits isUnsigned width value) :=
  inferInstanceAs (Decidable (if isUnsigned = true then value.toNat < 2 ^ width
    else -2 ^ (width - 1) ≤ value.toInt ∧ value.toInt < 2 ^ (width - 1)))

/-- The values, and zeros behind them. -/
def padded (f : Nat → Byte) (n : Nat) (x : Nat) : Byte := if x < n then f x else 0

/-- The number of bytes for so many values. -/
def bytesFor (width n : Nat) : Nat := (n + 8 / width - 1) / (8 / width)

/-- The byte in which the values from `8 / width * i` on are. -/
def packedByte (width : Nat) (f : Nat → Byte) (n i : Nat) : Byte :=
  packFields width (fun j => padded f n (8 / width * i + j)) (8 / width)

variable {width count : Nat} {f g : Nat → Byte}

theorem packFields_succ (width : Nat) (f : Nat → Byte) (count : Nat) :
    packFields width f (count + 1) =
      packFields width f count ||| ((f count &&& lowMask width) <<< (count * width)) := by
  unfold packFields
  rw [List.range_succ, List.foldl_append, List.foldl_cons, List.foldl_nil]

theorem packFields_congr (h : ∀ j < count, f j = g j) :
    packFields width f count = packFields width g count := by
  induction count with
  | zero => rfl
  | succ count ih =>
    rw [packFields_succ, packFields_succ, ih fun j hj => h j (Nat.lt_succ_of_lt hj),
      h count (Nat.lt_succ_self count)]

/-- Zeros at the end change nothing. -/
theorem packFields_add (rest : Nat) (h : ∀ j, count ≤ j → f j = 0) :
    packFields width f (count + rest) = packFields width f count := by
  induction rest with
  | zero => rfl
  | succ rest ih =>
    have hzero : (0 &&& lowMask width) <<< ((count + rest) * width) = 0 := by simp
    rw [← Nat.add_assoc, packFields_succ, ih, h _ (Nat.le_add_right _ _), hzero]
    exact BitVec.or_zero

theorem getLsbD_lowMask (width t : Nat) (ht : t < 8) :
    (lowMask width).getLsbD t = decide (t < width) := by
  unfold lowMask
  rw [BitVec.getLsbD_ofNat, Nat.testBit_two_pow_sub_one]
  simp [ht]

/-- Which bit of which value a bit of the byte is. -/
theorem getLsbD_packFields (hwidth : 0 < width) (ht : t < 8) :
    (packFields width f count).getLsbD t =
      (decide (t < count * width) && (f (t / width)).getLsbD (t % width)) := by
  induction count with
  | zero => simp [packFields]
  | succ count ih =>
    rw [packFields_succ, BitVec.getLsbD_or, ih, BitVec.getLsbD_shiftLeft, BitVec.getLsbD_and,
      getLsbD_lowMask _ _ (by omega)]
    by_cases hlow : t < count * width
    · have hsucc : t < (count + 1) * width := by
        rw [Nat.succ_mul]
        omega
      simp [hlow, hsucc]
    · by_cases hhigh : t < (count + 1) * width
      · have hdiv : t / width = count := by
          refine Nat.div_eq_of_lt_le (Nat.not_lt.1 hlow) hhigh
        have hmod : t % width = t - count * width := by
          rw [Nat.mod_eq_sub, hdiv, Nat.mul_comm]
        have hlt : t - count * width < width := by
          rw [Nat.succ_mul] at hhigh
          omega
        simp [hlow, hhigh, hdiv, hmod, hlt, ht]
      · have hge : ¬t - count * width < width := by
          rw [Nat.succ_mul] at hhigh
          omega
        simp [hlow, hhigh, hge]

/-! ## Taking a value out again -/

/-- Behind the bits of a value that fits there are zeros, or copies of its sign. -/
theorem getLsbD_of_fits {value : Byte} (hwidth : width = 2 ∨ width = 4)
    (hfits : FieldFits isUnsigned width value) (ht : t < 8) (hle : width ≤ t) :
    value.getLsbD t = (!isUnsigned && value.getLsbD (width - 1)) := by
  cases isUnsigned with
  | true =>
    have hlt : value.toNat < 2 ^ t :=
      Nat.lt_of_lt_of_le hfits (Nat.pow_le_pow_right (by decide) hle)
    exact Nat.testBit_lt_two_pow hlt
  | false =>
    have htwo : ∀ v : Byte, FieldFits false 2 v → ∀ t < 8, 2 ≤ t → v.getLsbD t = v.getLsbD 1 := by
      decide +kernel
    have hfour : ∀ v : Byte, FieldFits false 4 v → ∀ t < 8, 4 ≤ t → v.getLsbD t = v.getLsbD 3 := by
      decide +kernel
    obtain rfl | rfl := hwidth
    · exact htwo value hfits t ht hle
    · exact hfour value hfits t ht hle

theorem getLsbD_extractField (isUnsigned : Bool) {byte : Byte} {offset t : Nat}
    (hwidth : 0 < width) (hoffset : offset + width ≤ 8) (ht : t < 8) :
    (extractField isUnsigned width byte offset).getLsbD t =
      if t < width then byte.getLsbD (offset + t)
      else !isUnsigned && byte.getLsbD (offset + (width - 1)) := by
  unfold extractField
  cases isUnsigned with
  | true =>
    simp only [if_true, BitVec.getLsbD_and, BitVec.getLsbD_ushiftRight, getLsbD_lowMask _ _ ht]
    by_cases hlt : t < width <;> simp [hlt]
  | false =>
    have hmsb : (byte <<< (8 - width - offset)).msb = byte.getLsbD (offset + (width - 1)) := by
      have hindex : 8 - 1 - (8 - width - offset) = offset + (width - 1) := by omega
      have hbounds : ¬8 - 1 < 8 - width - offset := by omega
      rw [BitVec.msb_eq_getLsbD_last, BitVec.getLsbD_shiftLeft, hindex]
      simp [hbounds]
    simp only [Bool.false_eq_true, if_false, BitVec.getLsbD_sshiftRight, hmsb,
      BitVec.getLsbD_shiftLeft]
    by_cases hlt : t < width
    · have hinside : 8 - width + t < 8 := by omega
      have hindex : 8 - width + t - (8 - width - offset) = offset + t := by omega
      have hbounds : ¬8 - width + t < 8 - width - offset := by omega
      simp [hlt, hinside, hindex, hbounds, Nat.not_le.2 ht]
    · have houtside : ¬8 - width + t < 8 := by omega
      simp [hlt, houtside, Nat.not_le.2 ht]

theorem extractField_packFields {j : Nat} (hwidth : width = 2 ∨ width = 4)
    (hfits : FieldFits isUnsigned width (f j)) (hj : j < 8 / width) :
    extractField isUnsigned width (packFields width f (8 / width)) (j * width) = f j := by
  have hpos : 0 < width := by omega
  have hwhole : 8 / width * width = 8 := by
    obtain rfl | rfl := hwidth <;> rfl
  have hoffset : j * width + width ≤ 8 := by
    calc j * width + width = (j + 1) * width := (Nat.succ_mul j width).symm
      _ ≤ 8 / width * width := Nat.mul_le_mul_right width hj
      _ = 8 := hwhole
  refine BitVec.eq_of_getLsbD_eq fun t ht => ?_
  have hbit : ∀ s < width, (packFields width f (8 / width)).getLsbD (j * width + s) =
      (f j).getLsbD s := by
    intro s hs
    have hdiv : (j * width + s) / width = j := by
      rw [Nat.mul_comm, Nat.mul_add_div hpos, Nat.div_eq_of_lt hs, Nat.add_zero]
    have hmod : (j * width + s) % width = s := by
      rw [Nat.mul_comm, Nat.mul_add_mod, Nat.mod_eq_of_lt hs]
    have hlt : j * width + s < 8 / width * width := by omega
    rw [getLsbD_packFields hpos (by omega), hdiv, hmod, decide_eq_true hlt, Bool.true_and]
  rw [getLsbD_extractField isUnsigned hpos hoffset ht]
  split
  · rename_i hlt
    exact hbit t hlt
  · rename_i hge
    rw [hbit _ (by omega), getLsbD_of_fits hwidth hfits ht (Nat.not_lt.1 hge)]

theorem extractField_packedByte {n x : Nat} (hwidth : width = 2 ∨ width = 4) (hx : x < n)
    (hfits : FieldFits isUnsigned width (f x)) :
    extractField isUnsigned width (packedByte width f n (x / (8 / width)))
      (x % (8 / width) * width) = f x := by
  have hpos : 0 < 8 / width := by
    obtain rfl | rfl := hwidth <;> decide
  have hplace : padded f n (8 / width * (x / (8 / width)) + x % (8 / width)) = f x := by
    rw [Nat.div_add_mod]
    exact if_pos hx
  have hfits' : FieldFits isUnsigned width
      (padded f n (8 / width * (x / (8 / width)) + x % (8 / width))) := by
    rwa [hplace]
  have hextract : extractField isUnsigned width (packedByte width f n (x / (8 / width)))
      (x % (8 / width) * width) = padded f n (8 / width * (x / (8 / width)) + x % (8 / width)) :=
    extractField_packFields hwidth hfits' (Nat.mod_lt x hpos)
  exact hextract.trans hplace

/-- Bits behind the last value are zeros. -/
theorem getLsbD_packedByte_padding {n i t : Nat} (hwidth : 0 < width) (ht : t < 8)
    (hn : n ≤ 8 / width * i + t / width) : (packedByte width f n i).getLsbD t = false := by
  have hzero : padded f n (8 / width * i + t / width) = 0 := if_neg (Nat.not_lt.2 hn)
  unfold packedByte
  rw [getLsbD_packFields hwidth ht, hzero]
  simp

end LiteRt.Lib
