import Mathlib.Algebra.Ring.Int.Defs
import Mathlib.Algebra.Ring.Nat
import Mathlib.Data.List.Basic

/-!
# Little-endian numbers

A number of `w` bytes, the lowest byte first, read as an unsigned or a signed number.
-/

namespace LiteRt.Lib

/-- The number that some bytes stand for. -/
def unsigned : List UInt8 → Nat
  | [] => 0
  | b :: bytes => b.toNat + 256 * unsigned bytes

/-- The `w` lowest bytes of a number. -/
def lowBytes : Nat → Nat → List UInt8
  | 0, _ => []
  | w + 1, n => UInt8.ofNat n :: lowBytes w (n / 256)

/-- A number modulo 2^(8w), in two's complement. -/
def narrow (w : Nat) (n : Int) : Int := Int.bmod n (256 ^ w)

/-- The signed number that some bytes stand for. -/
def signed (bytes : List UInt8) : Int := narrow bytes.length (unsigned bytes)

/-- The `w` lowest bytes of a signed number. -/
def signedBytes (w : Nat) (n : Int) : List UInt8 := lowBytes w (n % (256 ^ w : Nat)).toNat

/-- A signed number has `w` bytes at most. -/
def FitsBytes (w : Nat) (n : Int) : Prop := narrow w n = n

instance (w : Nat) (n : Int) : Decidable (FitsBytes w n) := inferInstanceAs (Decidable (_ = n))

theorem length_lowBytes : ∀ w n : Nat, (lowBytes w n).length = w
  | 0, _ => rfl
  | w + 1, n => by
    show (lowBytes w (n / 256)).length + 1 = w + 1
    rw [length_lowBytes w]

@[simp] theorem length_signedBytes (w : Nat) (n : Int) : (signedBytes w n).length = w :=
  length_lowBytes w _

theorem unsigned_lowBytes : ∀ w n : Nat, unsigned (lowBytes w n) = n % 256 ^ w
  | 0, n => by
    show 0 = n % 1
    omega
  | w + 1, n => by
    have hbyte : (UInt8.ofNat n).toNat = n % 256 := UInt8.toNat_ofNat'
    show (UInt8.ofNat n).toNat + 256 * unsigned (lowBytes w (n / 256)) = n % 256 ^ (w + 1)
    rw [unsigned_lowBytes w, hbyte, Nat.pow_succ', Nat.mod_mul]

/-- What was written is read back, modulo 2^(8w). -/
theorem signed_signedBytes (w : Nat) (n : Int) : signed (signedBytes w n) = narrow w n := by
  have hpos : (0 : Int) < (256 ^ w : Nat) := Int.natCast_pos.2 (Nat.pow_pos (by decide))
  have hnonneg := Int.emod_nonneg n (Int.ne_of_gt hpos)
  unfold signed signedBytes
  rw [unsigned_lowBytes, length_lowBytes]
  unfold narrow
  rw [Int.natCast_emod, Int.toNat_of_nonneg hnonneg, Int.emod_emod_of_dvd n (Int.dvd_refl _),
    Int.emod_bmod]

theorem narrow_narrow (w : Nat) (n : Int) : narrow w (narrow w n) = narrow w n :=
  Int.bmod_bmod

theorem fitsBytes_narrow (w : Nat) (n : Int) : FitsBytes w (narrow w n) :=
  narrow_narrow w n

/-- A factor may be narrowed before the product is. -/
theorem narrow_narrow_mul (w : Nat) (n k : Int) : narrow w (narrow w n * k) = narrow w (n * k) :=
  Int.bmod_mul_bmod

theorem fitsBytes_iff {w : Nat} (n : Int) : FitsBytes w n ↔
    -((256 ^ w : Nat) / 2 : Int) ≤ n ∧ n < ((256 ^ w : Nat) + 1) / 2 := by
  have hpos : 0 < 256 ^ w := Nat.pow_pos (by decide)
  constructor
  · intro h
    rw [← h]
    exact ⟨Int.le_bmod hpos, Int.bmod_lt hpos⟩
  · rintro ⟨hle, hlt⟩
    exact Int.bmod_eq_of_le hle hlt

theorem lowBytes_append (m n k : Nat) :
    lowBytes (m + n) k = lowBytes m k ++ lowBytes n (k / 256 ^ m) := by
  induction m generalizing k with
  | zero => rw [Nat.zero_add, Nat.pow_zero, Nat.div_one, lowBytes, List.nil_append]
  | succ m ih =>
    rw [Nat.succ_add]
    show UInt8.ofNat k :: lowBytes (m + n) (k / 256) = UInt8.ofNat k :: (_ ++ _)
    rw [ih, Nat.div_div_eq_div_mul, ← Nat.pow_succ']

theorem lowBytes_mod (w k : Nat) : lowBytes w (k % 256 ^ w) = lowBytes w k := by
  induction w generalizing k with
  | zero => rfl
  | succ w ih =>
    have hbyte : UInt8.ofNat (k % 256 ^ (w + 1)) = UInt8.ofNat k := by
      apply UInt8.toNat_inj.1
      rw [UInt8.toNat_ofNat', UInt8.toNat_ofNat', Nat.pow_succ']
      exact Nat.mod_mul_right_mod k 256 (256 ^ w)
    show UInt8.ofNat (k % 256 ^ (w + 1)) :: lowBytes w (k % 256 ^ (w + 1) / 256) = _
    rw [hbyte, Nat.pow_succ', Nat.mod_mul_right_div_self, ih]
    rfl

theorem signedBytes_eight (n : Int) :
    signedBytes 8 n = signedBytes 4 n ++ signedBytes 4 (n / 4294967296) := by
  have hlow : (n % (4294967296 : Nat)).toNat =
      (n % (18446744073709551616 : Nat)).toNat % 4294967296 := by omega
  have hhigh : (n / 4294967296 % (4294967296 : Nat)).toNat =
      (n % (18446744073709551616 : Nat)).toNat / 4294967296 := by omega
  show lowBytes (4 + 4) (n % (18446744073709551616 : Nat)).toNat =
    lowBytes 4 (n % (4294967296 : Nat)).toNat ++
      lowBytes 4 (n / 4294967296 % (4294967296 : Nat)).toNat
  rw [lowBytes_append, hlow, hhigh]
  exact congrArg (· ++ _) (lowBytes_mod 4 _).symm

/-- The first numbers of `w` bytes in a buffer. -/
def readNumbers (w : Nat) : Nat → List UInt8 → List Int
  | 0, _ => []
  | k + 1, bytes => signed (bytes.take w) :: readNumbers w k (bytes.drop w)

/-- The numbers of `w` bytes that fill a buffer. -/
def numbers (w : Nat) (bytes : List UInt8) : List Int := readNumbers w (bytes.length / w) bytes

/-- A buffer of numbers of `w` bytes. -/
def numberBytes (w : Nat) (values : List Int) : List UInt8 := values.flatMap (signedBytes w)

@[simp] theorem length_numberBytes (w : Nat) (values : List Int) :
    (numberBytes w values).length = values.length * w := by
  induction values with
  | nil => rw [numberBytes, List.flatMap_nil, List.length_nil, List.length_nil, Nat.zero_mul]
  | cons v values ih =>
    show (signedBytes w v ++ numberBytes w values).length = (values.length + 1) * w
    rw [List.length_append, length_signedBytes, ih, Nat.succ_mul, Nat.add_comm]

theorem readNumbers_numberBytes (w : Nat) (values : List Int) :
    readNumbers w values.length (numberBytes w values) = values.map (narrow w) := by
  induction values with
  | nil => rfl
  | cons v values ih =>
    have hlen := length_signedBytes w v
    show signed ((signedBytes w v ++ numberBytes w values).take w) ::
      readNumbers w values.length ((signedBytes w v ++ numberBytes w values).drop w) = _
    rw [List.take_left' hlen, List.drop_left' hlen, signed_signedBytes, ih, List.map_cons]

theorem length_readNumbers (w k : Nat) (bytes : List UInt8) :
    (readNumbers w k bytes).length = k := by
  induction k generalizing bytes with
  | zero => rfl
  | succ k ih => exact congrArg (· + 1) (ih _)

theorem numbers_numberBytes {w : Nat} (hw : 0 < w) (values : List Int) :
    numbers w (numberBytes w values) = values.map (narrow w) := by
  unfold numbers
  rw [length_numberBytes, Nat.mul_div_cancel _ hw, readNumbers_numberBytes]

theorem numberBytes_eight (values : List Int) :
    numberBytes 8 values = numberBytes 4 (values.flatMap fun v => [v, v / 4294967296]) := by
  induction values with
  | nil => rfl
  | cons v values ih =>
    show signedBytes 8 v ++ numberBytes 8 values =
      signedBytes 4 v ++ (signedBytes 4 (v / 4294967296) ++
        numberBytes 4 (values.flatMap fun v => [v, v / 4294967296]))
    rw [ih, signedBytes_eight, List.append_assoc]

/-! ## Big-endian words of two bytes -/

variable {pre back : List UInt8} {n k : Nat}

/-- The low two bytes of a number, the more significant one first. -/
def beBytes (n : Nat) : List UInt8 := [UInt8.ofNat (n / 256), UInt8.ofNat n]

/-- The number at a position. What is not there reads as zero. -/
def beAt (bytes : List UInt8) (pos : Nat) : Nat :=
  (bytes.getD pos 0).toNat * 256 + (bytes.getD (pos + 1) 0).toNat

@[simp] theorem length_beBytes (n : Nat) : (beBytes n).length = 2 := rfl

theorem getD_length_append (pre back : List UInt8) (k : Nat) :
    (pre ++ back).getD (pre.length + k) 0 = back.getD k 0 := by
  rw [List.getD_eq_getElem?_getD, List.getD_eq_getElem?_getD,
    List.getElem?_append_right (Nat.le_add_right _ _), Nat.add_sub_cancel_left]

theorem beAt_length_append (pre back : List UInt8) (k : Nat) :
    beAt (pre ++ back) (pre.length + k) = beAt back k := by
  unfold beAt
  rw [Nat.add_assoc, getD_length_append, getD_length_append]

theorem beAt_beBytes (hn : n < 2 ^ 16) (back : List UInt8) : beAt (beBytes n ++ back) 0 = n := by
  show (UInt8.ofNat (n / 256)).toNat * 256 + (UInt8.ofNat n).toNat = n
  rw [UInt8.toNat_ofNat', UInt8.toNat_ofNat']
  omega

end LiteRt.Lib
