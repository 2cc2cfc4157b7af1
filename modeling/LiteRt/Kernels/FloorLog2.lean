import LiteRt.Lib.LeadingBits

/-!
# Integer logarithms

The logarithm is found from the bits in front that repeat the sign. One compiler counts these with
a function of its own for `int`, the others count zeros with a function for each width or by
shifts.
-/

namespace LiteRt.Kernels

open LiteRt.Lib

/-- The compilers that the conditions tell apart. -/
inductive Compiler where
  | gcc
  | clang
  | other
  deriving DecidableEq, Repr

/-- `defined(__GNUC__)` -/
def Compiler.gnuc : Compiler → Bool
  | .gcc => true
  | .clang => true
  | .other => false

/-- `defined(__GNUC__) && !defined(__clang__)` -/
def Compiler.gnucOnly : Compiler → Bool
  | .gcc => true
  | .clang => false
  | .other => false

/-- `__builtin_clz` and `__builtin_clzll`: the zeros in front. -/
def builtinClz {w : Nat} (x : BitVec w) : Nat := leadingRun false x w

/-- `__builtin_clrsb`: the bits after the sign that are equal to it. -/
def builtinClrsb (x : BitVec 32) : Nat := leadingRun x.msb x 31

section
variable {w : Nat}

/-- Of an unsigned type of `w` bits. -/
def countLeadingZeros (compiler : Compiler) (integerInput : BitVec w) : Option Nat :=
  if integerInput = 0 then some w
  else if compiler.gnuc = true ∧ w = 32 then some (builtinClz (integerInput.setWidth 32))
  else if compiler.gnuc = true ∧ w = 64 then some (builtinClz (integerInput.setWidth 64))
  else shiftsToTop integerInput 0 w

/-- Of a signed type of `w` bits. The function for `int` is given what is left of the number. -/
def countLeadingSignBits (compiler : Compiler) (integerInput : BitVec w) : Option Int :=
  if compiler.gnucOnly = true then
    if integerInput ≠ 0 then some (builtinClrsb (integerInput.setWidth 32)) else some (w - 1 : Nat)
  else if 0 ≤ integerInput.toInt then
    (countLeadingZeros compiler integerInput).map fun (zeros : Nat) => (zeros : Int) - 1
  else if integerInput ≠ BitVec.intMin w then
    (countLeadingZeros compiler (2 * -integerInput - 1)).map fun (zeros : Nat) => (zeros : Int)
  else some 0

/-- None where the check aborts. -/
def floorLog2 (compiler : Compiler) (n : BitVec w) : Option Int :=
  if ¬0 < n.toInt then none
  else if w = 32 then (countLeadingSignBits compiler n).map fun bits => 30 - bits
  else (countLeadingSignBits compiler n).map fun bits => 62 - bits

end

/-- The result is the logarithm, and that of every compiler that counts zeros. -/
def IsLogarithm {w : Nat} (compiler : Compiler) (n : BitVec w) : Prop :=
  (∃ k : Nat, floorLog2 compiler n = some (k : Int) ∧ 2 ^ k ≤ n.toInt ∧ n.toInt < 2 ^ (k + 1)) ∧
    ∀ sibling, sibling ≠ .gcc → floorLog2 sibling n = floorLog2 compiler n

/-- The low word without its sign. -/
def lowMagnitude (n : BitVec 64) : Nat :=
  if n.toNat % 2 ^ 32 < 2 ^ 31 then n.toNat % 2 ^ 32 else 2 ^ 32 - 1 - n.toNat % 2 ^ 32

/-- The highest bits of both words are at the same place, or there is none in the high word and
the low one has all. -/
def WordsAlike (n : BitVec 64) : Prop :=
  n.toNat = 2 ^ 32 - 1 ∨ ∃ k, (2 ^ k ≤ n.toNat / 2 ^ 32 ∧ n.toNat / 2 ^ 32 < 2 ^ (k + 1)) ∧
    2 ^ k ≤ lowMagnitude n ∧ lowMagnitude n < 2 ^ (k + 1)

/-! ## Counts -/

section
variable {w k : Nat} {compiler : Compiler} {n : BitVec w} {x : BitVec w}

theorem builtinClz_eq (hk : k < w) (hle : 2 ^ k ≤ x.toNat) (hlt : x.toNat < 2 ^ (k + 1)) :
    builtinClz x = w - 1 - k := by
  have hlow : x.toNat % 2 ^ w = x.toNat := Nat.mod_eq_of_lt x.isLt
  exact leadingRun_log hk (by rwa [hlow]) (by rwa [hlow])

theorem countLeadingZeros_eq (hk : k < w) (hle : 2 ^ k ≤ x.toNat) (hlt : x.toNat < 2 ^ (k + 1)) :
    countLeadingZeros compiler x = some (w - 1 - k) := by
  have hne : x ≠ 0 := by
    rintro rfl
    exact absurd hle (Nat.not_le.2 (Nat.two_pow_pos k))
  rw [countLeadingZeros, if_neg hne]
  split
  · next h =>
    obtain ⟨-, rfl⟩ := h
    rw [BitVec.setWidth_eq, builtinClz_eq hk hle hlt]
  split
  · next h =>
    obtain ⟨-, rfl⟩ := h
    rw [BitVec.setWidth_eq, builtinClz_eq hk hle hlt]
  · rw [shiftsToTop_eq hk hle hlt w 0 (by omega), Nat.zero_add]

theorem toNat_of_pos (hpos : 0 < n.toInt) : (n.toNat : Int) = n.toInt := by
  rw [BitVec.toInt_eq_toNat_cond] at *
  split at hpos
  · next h => rw [if_pos h]
  · have := n.isLt
    omega

theorem toNat_lt_of_pos (hpos : 0 < n.toInt) : 2 * n.toNat < 2 ^ w := by
  rw [BitVec.toInt_eq_toNat_cond] at hpos
  split at hpos
  · assumption
  · have := n.isLt
    omega

theorem countLeadingSignBits_eq (hcompiler : compiler ≠ .gcc) (hpos : 0 < n.toInt) (hk : k < w)
    (hle : 2 ^ k ≤ n.toNat) (hlt : n.toNat < 2 ^ (k + 1)) :
    countLeadingSignBits compiler n = some ((w - 1 - k : Nat) - 1 : Int) := by
  have hother : compiler.gnucOnly = false := by
    cases compiler with
    | gcc => exact absurd rfl hcompiler
    | clang => rfl
    | other => rfl
  rw [countLeadingSignBits, hother, if_neg Bool.false_ne_true, if_pos (by omega),
    countLeadingZeros_eq hk hle hlt]
  rfl

theorem builtinClrsb_zero {x : BitVec 32} (h : x.toNat = 0 ∨ x.toNat = 2 ^ 32 - 1) :
    builtinClrsb x = 31 := by
  unfold builtinClrsb
  rcases h with h | h
  · rw [BitVec.msb_eq_decide, decide_eq_false (by omega), leadingRun_zero (by rw [h]; rfl)]
  · have hnot : (~~~x).toNat = 0 := by
      rw [BitVec.toNat_not, h, Nat.sub_self]
    rw [BitVec.msb_eq_decide, decide_eq_true (by omega), leadingRun_true x (by decide),
      leadingRun_zero (by rw [hnot]; rfl)]

/-- The sign of the argument does not matter, only its highest bit that differs from it. -/
theorem builtinClrsb_eq {x : BitVec 32} (hle : 2 ^ k ≤ (if x.toNat < 2 ^ 31 then x.toNat
      else 2 ^ 32 - 1 - x.toNat)) (hlt : (if x.toNat < 2 ^ 31 then x.toNat
      else 2 ^ 32 - 1 - x.toNat) < 2 ^ (k + 1)) (hk : k < 31) : builtinClrsb x = 30 - k := by
  unfold builtinClrsb
  split at hle
  · next h =>
    rw [if_pos h] at hlt
    have hlow : x.toNat % 2 ^ 31 = x.toNat := Nat.mod_eq_of_lt h
    rw [BitVec.msb_eq_decide, decide_eq_false (by omega),
      leadingRun_log hk (by rwa [hlow]) (by rwa [hlow])]
  · next h =>
    rw [if_neg h] at hlt
    have hnot : (~~~x).toNat = 2 ^ 32 - 1 - x.toNat := BitVec.toNat_not
    have hlow : (~~~x).toNat % 2 ^ 31 = 2 ^ 32 - 1 - x.toNat := by
      rw [hnot, Nat.mod_eq_of_lt (by omega)]
    rw [BitVec.msb_eq_decide, decide_eq_true (by omega), leadingRun_true x (by decide),
      leadingRun_log hk (by rwa [hlow]) (by rwa [hlow])]

/-! ## Logarithms -/

theorem exists_log_of_pos (hpos : 0 < n.toInt) :
    ∃ k, k + 1 < w ∧ 2 ^ k ≤ n.toNat ∧ n.toNat < 2 ^ (k + 1) := by
  have hcast := toNat_of_pos hpos
  have hlt := toNat_lt_of_pos hpos
  obtain ⟨k, -, hle, hlt'⟩ := exists_log (n := w) (show 0 < n.toNat by omega) n.isLt
  refine ⟨k, (Nat.pow_lt_pow_iff_right (a := 2) (by decide)).1 ?_, hle, hlt'⟩
  calc
    2 ^ (k + 1) = 2 * 2 ^ k := by rw [Nat.pow_succ, Nat.mul_comm]
    _ ≤ 2 * n.toNat := Nat.mul_le_mul_left 2 hle
    _ < 2 ^ w := hlt

theorem floorLog2_zeros (hw : w = 32 ∨ w = 64) (hcompiler : compiler ≠ .gcc) (hpos : 0 < n.toInt)
    (hk : k + 1 < w) (hle : 2 ^ k ≤ n.toNat) (hlt : n.toNat < 2 ^ (k + 1)) :
    floorLog2 compiler n = some (k : Int) := by
  rw [floorLog2, if_neg (not_not.2 hpos), countLeadingSignBits_eq hcompiler hpos (by omega) hle hlt]
  split
  · next h =>
    refine congrArg some ?_
    show 30 - ((w - 1 - k : Nat) - 1 : Int) = k
    omega
  · next h =>
    refine congrArg some ?_
    show 62 - ((w - 1 - k : Nat) - 1 : Int) = k
    omega

theorem countLeadingSignBits_gcc (hpos : 0 < n.toInt) :
    countLeadingSignBits .gcc n = some (builtinClrsb (n.setWidth 32) : Int) := by
  have hne : n ≠ 0 := by
    rintro rfl
    rw [BitVec.ofNat_eq_ofNat, BitVec.toInt_zero] at hpos
    exact absurd hpos (Int.lt_irrefl 0)
  unfold countLeadingSignBits
  rw [if_pos (show Compiler.gcc.gnucOnly = true from rfl), if_pos hne]

theorem floorLog2_gcc_int {n : BitVec 32} (hpos : 0 < n.toInt) (hk : k + 1 < 32)
    (hle : 2 ^ k ≤ n.toNat) (hlt : n.toNat < 2 ^ (k + 1)) :
    floorLog2 .gcc n = some (k : Int) := by
  have hint := toNat_lt_of_pos hpos
  rw [floorLog2, if_neg (not_not.2 hpos), if_pos rfl, countLeadingSignBits_gcc hpos,
    BitVec.setWidth_eq, builtinClrsb_eq (k := k) (by rwa [if_pos (by omega)])
      (by rwa [if_pos (by omega)]) (by omega)]
  refine congrArg some ?_
  show 30 - ((30 - k : Nat) : Int) = k
  omega

/-- Of a wider number only the low word is counted. -/
theorem floorLog2_gcc_long {n : BitVec 64} (hpos : 0 < n.toInt) :
    floorLog2 .gcc n = some (62 - (builtinClrsb (n.setWidth 32) : Int)) := by
  rw [floorLog2, if_neg (not_not.2 hpos), if_neg (by decide), countLeadingSignBits_gcc hpos]
  rfl

theorem isLogarithm_iff (hw : w = 32 ∨ w = 64) (hpos : 0 < n.toInt) (hk : k + 1 < w)
    (hle : 2 ^ k ≤ n.toNat) (hlt : n.toNat < 2 ^ (k + 1)) :
    IsLogarithm compiler n ↔ floorLog2 compiler n = some (k : Int) := by
  have hcast := toNat_of_pos hpos
  constructor
  · rintro ⟨⟨j, hj, hle', hlt'⟩, -⟩
    rw [← hcast] at hle' hlt'
    rw [hj, log_unique hle hlt (by exact_mod_cast hle') (by exact_mod_cast hlt')]
  · intro h
    refine ⟨⟨k, h, ?_, ?_⟩, fun sibling hsibling => ?_⟩
    · rw [← hcast]
      exact_mod_cast hle
    · rw [← hcast]
      exact_mod_cast hlt
    · rw [h, floorLog2_zeros hw hsibling hpos hk hle hlt]

/-- With the function for `int` the logarithm of a wider number is found by accident only. -/
theorem floorLog2_gcc_long_iff {n : BitVec 64} (hpos : 0 < n.toInt) (hk : k + 1 < 64)
    (hle : 2 ^ k ≤ n.toNat) (hlt : n.toNat < 2 ^ (k + 1)) :
    floorLog2 .gcc n = some (k : Int) ↔ WordsAlike n := by
  have hlow : (n.setWidth 32).toNat = n.toNat % 2 ^ 32 := BitVec.toNat_setWidth ..
  have hmod := Nat.mod_lt n.toNat (show 0 < 2 ^ 32 by decide)
  have hdivmod := Nat.div_add_mod n.toNat (2 ^ 32)
  rw [floorLog2_gcc_long hpos]
  by_cases hzero : lowMagnitude n = 0
  · have hword : n.toNat % 2 ^ 32 = 0 ∨ n.toNat % 2 ^ 32 = 2 ^ 32 - 1 := by
      unfold lowMagnitude at hzero
      split at hzero
      · exact .inl hzero
      · right
        omega
    rw [builtinClrsb_zero (by rwa [hlow])]
    have hno : ¬∃ k, (2 ^ k ≤ n.toNat / 2 ^ 32 ∧ n.toNat / 2 ^ 32 < 2 ^ (k + 1)) ∧
        2 ^ k ≤ lowMagnitude n ∧ lowMagnitude n < 2 ^ (k + 1) := by
      rintro ⟨j, -, hj, -⟩
      exact absurd (Nat.two_pow_pos j) (by omega)
    unfold WordsAlike
    rw [or_iff_left hno, Option.some.injEq]
    constructor
    · intro hk31
      have hk31 : k = 31 := by omega
      subst hk31
      have hpow : (2 : Nat) ^ (31 + 1) = 2 ^ 32 := rfl
      omega
    · intro hall
      have hk31 := log_unique hle hlt (show 2 ^ 31 ≤ n.toNat by omega) (by omega)
      rw [hk31]
      rfl
  · have hmagnitude : lowMagnitude n < 2 ^ 31 := by
      unfold lowMagnitude
      split
      · assumption
      · omega
    obtain ⟨j, hj, hjle, hjlt⟩ := exists_log (Nat.pos_of_ne_zero hzero) hmagnitude
    have hcount : builtinClrsb (n.setWidth 32) = 30 - j := by
      unfold lowMagnitude at hjle hjlt
      exact builtinClrsb_eq (by rwa [hlow]) (by rwa [hlow]) hj
    have hwords : WordsAlike n ↔ 2 ^ j ≤ n.toNat / 2 ^ 32 ∧ n.toNat / 2 ^ 32 < 2 ^ (j + 1) := by
      constructor
      · rintro (hall | ⟨i, hhigh, hile, hilt⟩)
        · exfalso
          refine hzero ?_
          unfold lowMagnitude
          rw [hall]
          rfl
        · rwa [log_unique hjle hjlt hile hilt]
      · exact fun hhigh => .inr ⟨j, hhigh, hjle, hjlt⟩
    rw [hwords, hcount, Option.some.injEq, Nat.le_div_iff_mul_le (by decide),
      Nat.div_lt_iff_lt_mul (by decide), ← Nat.pow_add, ← Nat.pow_add]
    constructor
    · intro hkj
      have hkj : k = j + 32 := by omega
      rw [Nat.add_right_comm, ← hkj]
      exact ⟨hle, hlt⟩
    · rintro ⟨hhigh, hhigh'⟩
      rw [Nat.add_right_comm] at hhigh'
      rw [log_unique hle hlt hhigh hhigh']
      omega

end

/-- The logarithm is found with every compiler, except for numbers wider than `int` with the one
that counts in an `int`: there the two words must be alike. -/
theorem floorLog2_iff (compiler : Compiler) :
    (∀ n : BitVec 32, 0 < n.toInt → IsLogarithm compiler n) ∧
    ∀ n : BitVec 64, 0 < n.toInt →
      (IsLogarithm compiler n ↔ (compiler = .gcc → WordsAlike n)) := by
  constructor
  · intro n hpos
    obtain ⟨k, hk, hle, hlt⟩ := exists_log_of_pos hpos
    rw [isLogarithm_iff (.inl rfl) hpos hk hle hlt]
    by_cases hgcc : compiler = .gcc
    · rw [hgcc, floorLog2_gcc_int hpos hk hle hlt]
    · exact floorLog2_zeros (.inl rfl) hgcc hpos hk hle hlt
  · intro n hpos
    obtain ⟨k, hk, hle, hlt⟩ := exists_log_of_pos hpos
    rw [isLogarithm_iff (.inr rfl) hpos hk hle hlt]
    by_cases hgcc : compiler = .gcc
    · rw [hgcc, floorLog2_gcc_long_iff hpos hk hle hlt]
      exact ⟨fun h _ => h, fun h => h rfl⟩
    · exact iff_of_true (floorLog2_zeros (.inr rfl) hgcc hpos hk hle hlt) fun h => absurd h hgcc

/-- The logarithm of one is said to be 32. -/
theorem one_has_no_logarithm : ¬IsLogarithm .gcc (1 : BitVec 64) := by
  rintro ⟨⟨k, hk, hle, -⟩, -⟩
  have hresult : floorLog2 .gcc (1 : BitVec 64) = some 32 := by decide
  rw [hresult, Option.some.injEq] at hk
  have hk : k = 32 := by omega
  rw [hk] at hle
  exact absurd hle (by decide)

end LiteRt.Kernels
