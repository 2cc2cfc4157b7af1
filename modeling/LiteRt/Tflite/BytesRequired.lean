import Mathlib.Algebra.BigOperators.Group.List.Basic
import Mathlib.Algebra.Ring.Int.Defs
import LiteRt.Tflite.Invoke

/-!
# The size of a tensor

`BytesRequired` multiplies the dimensions on `size_t` and stops when a product does not fit. For
packed types the number of elements is rounded up before it is divided, and that sum can wrap.
-/

namespace LiteRt.Tflite

/-- The width of an element; packed elements share a byte. -/
def TfLiteType.bits (type : TfLiteType) : Option Nat :=
  if type = .int4 ∨ type = .uint4 then some 4
  else if type = .int2 then some 2
  else (getSizeOfType type).map (8 * ·)

/-- The bytes that the elements take, without a bound. -/
def exactBytes (bits : Nat) (dims : List Int) : Nat := (bits * dims.prod.toNat + 7) / 8

/-- The sum that rounds the number of elements up does not fit. -/
def RoundingWraps (type : TfLiteType) (dims : List Int) : Prop :=
  ((type = .int4 ∨ type = .uint4) ∧ dims.prod = 2 ^ 64 - 1) ∨
    (type = .int2 ∧ 2 ^ 64 - 3 ≤ dims.prod ∧ dims.prod < 2 ^ 64)

/-- A result is the exact number of bytes, and a number that does not fit is an error. -/
structure ExactBytes (type : TfLiteType) (bits : Nat) (dims : List Int) : Prop where
  exact : ∀ bytes, bytesRequired type dims = (true, bytes) → bytes = exactBytes bits dims
  overflow : 2 ^ 64 ≤ exactBytes bits dims → (bytesRequired type dims).1 = false

/-- The quotient of a wrapped product tells whether it has wrapped. -/
theorem mul_mod_div_iff {a b : Nat} (ha : a ≠ 0) :
    a * b % 2 ^ 64 / a = b ↔ a * b < 2 ^ 64 := by
  constructor
  · intro h
    by_contra hle
    have hmod := Nat.mod_lt (a * b) (Nat.two_pow_pos 64)
    have hlt : a * b % 2 ^ 64 < a * b := by omega
    have hdiv : a * b % 2 ^ 64 / a < b := by
      rw [Nat.div_lt_iff_lt_mul (Nat.pos_of_ne_zero ha), Nat.mul_comm b a]
      exact hlt
    omega
  · intro hlt
    rw [Nat.mod_eq_of_lt hlt]
    exact Nat.mul_div_cancel_left b (Nat.pos_of_ne_zero ha)

theorem multiplyAndCheckOverflow_eq (a b : Nat) :
    multiplyAndCheckOverflow a b = (decide (a * b < 2 ^ 64), a * b % 2 ^ 64) := by
  refine Prod.ext ?_ rfl
  show (!((a ||| b) >>> 32 != 0 && a != 0 && a * b % 2 ^ 64 / a != b)) = _
  by_cases ha : a = 0
  · rw [ha]
    simp
  · have hiff := @mul_mod_div_iff a b ha
    by_cases hlt : a * b < 2 ^ 64
    · rw [hiff.2 hlt, decide_eq_true hlt]
      simp
    · have hne : a * b % 2 ^ 64 / a ≠ b := fun h => hlt (hiff.1 h)
      have hhigh : (a ||| b) >>> 32 ≠ 0 := by
        intro hz
        rw [Nat.shiftRight_eq_div_pow, Nat.div_eq_zero_iff] at hz
        have hor : a ||| b < 2 ^ 32 := hz.resolve_left (by omega)
        have ha32 : a < 2 ^ 32 := Nat.lt_of_le_of_lt Nat.left_le_or hor
        have hb32 : b < 2 ^ 32 := Nat.lt_of_le_of_lt Nat.right_le_or hor
        have hmul := Nat.mul_lt_mul'' ha32 hb32
        omega
      rw [decide_eq_false hlt, bne_iff_ne.2 hhigh, bne_iff_ne.2 ha, bne_iff_ne.2 hne]
      rfl

/-- Each dimension is a number that `int` can hold and not negative. -/
def NonnegInts (dims : List Int) : Prop := ∀ d ∈ dims, 0 ≤ d ∧ d < 2 ^ 31

instance (dims : List Int) : Decidable (NonnegInts dims) :=
  inferInstanceAs (Decidable (∀ d ∈ dims, 0 ≤ d ∧ d < 2 ^ 31))

section
variable {dims : List Int} {count c : Nat} {type : TfLiteType} {d : Int} {size : Nat}

theorem toNat_dim (h : 0 ≤ d ∧ d < 2 ^ 31) : (d % 2 ^ 64).toNat = d.toNat := by
  omega

theorem prod_nonneg (h : NonnegInts dims) : 0 ≤ dims.prod := by
  induction dims with
  | nil => decide
  | cons d dims ih =>
    rw [List.prod_cons]
    exact Int.mul_nonneg (h d (List.mem_cons_self ..)).1
      (ih fun e he => h e (List.mem_cons_of_mem _ he))

theorem toNat_prod_cons (h : NonnegInts (d :: dims)) :
    (d :: dims).prod.toNat = d.toNat * dims.prod.toNat := by
  have hd := (h d (List.mem_cons_self ..)).1
  have hp := prod_nonneg fun e he => h e (List.mem_cons_of_mem _ he)
  rw [List.prod_cons, Int.toNat_mul hd hp]

theorem countElements_cons (d : Int) (hd : 0 ≤ d ∧ d < 2 ^ 31) (dims : List Int) (count : Nat) :
    countElements (d :: dims) count =
      if count * d.toNat < 2 ^ 64 then countElements dims (count * d.toNat) else none := by
  rw [countElements, toNat_dim hd, multiplyAndCheckOverflow_eq]
  by_cases hlt : count * d.toNat < 2 ^ 64
  · rw [decide_eq_true hlt, if_pos hlt, Nat.mod_eq_of_lt hlt]
  · rw [decide_eq_false hlt, if_neg hlt]

/-- A count that fits at every step is the product. -/
theorem countElements_some (h : NonnegInts dims) (hcount : count < 2 ^ 64)
    (hrun : countElements dims count = some c) : c = count * dims.prod.toNat ∧ c < 2 ^ 64 := by
  induction dims generalizing count with
  | nil =>
    cases hrun
    refine ⟨?_, hcount⟩
    rw [List.prod_nil]
    exact (Nat.mul_one c).symm
  | cons d dims ih =>
    rw [countElements_cons d (h d (List.mem_cons_self ..))] at hrun
    split at hrun
    · next hlt =>
      obtain ⟨hc, hc64⟩ := ih (fun e he => h e (List.mem_cons_of_mem _ he)) hlt hrun
      refine ⟨?_, hc64⟩
      rw [toNat_prod_cons h, ← Nat.mul_assoc]
      exact hc
    · cases hrun

/-- Products of positive dimensions only grow, so none wraps if the last one fits. -/
theorem countElements_of_lt (h : NonnegInts dims) (hpos : 0 < count * dims.prod.toNat)
    (hlt : count * dims.prod.toNat < 2 ^ 64) :
    countElements dims count = some (count * dims.prod.toNat) := by
  induction dims generalizing count with
  | nil =>
    rw [List.prod_nil]
    exact congrArg some (Nat.mul_one count).symm
  | cons d dims ih =>
    rw [toNat_prod_cons h, ← Nat.mul_assoc] at hpos hlt ⊢
    have hrest : 0 < dims.prod.toNat := Nat.pos_of_mul_pos_left hpos
    have hle : count * d.toNat ≤ count * d.toNat * dims.prod.toNat :=
      Nat.le_mul_of_pos_right _ hrest
    rw [countElements_cons d (h d (List.mem_cons_self ..)), if_pos (by omega)]
    exact ih (fun e he => h e (List.mem_cons_of_mem _ he)) hpos hlt

def roundedBytes (type : TfLiteType) (bytes : Nat) : Nat :=
  if type = .int4 ∨ type = .uint4 then (bytes + 1) % 2 ^ 64 / 2
  else if type = .int2 then (bytes + 3) % 2 ^ 64 / 4
  else bytes

theorem bytesRequired_eq (hsize : getSizeOfType type = some size) (dims : List Int) :
    bytesRequired type dims =
      match countElements dims 1 with
      | none => (false, 0)
      | some count =>
        if size * count < 2 ^ 64 then (true, roundedBytes type (size * count))
        else (false, size * count % 2 ^ 64) := by
  unfold bytesRequired
  cases countElements dims 1 with
  | none => rfl
  | some count =>
    simp only [hsize, multiplyAndCheckOverflow_eq]
    by_cases hlt : size * count < 2 ^ 64
    · rw [decide_eq_true hlt, if_pos hlt, Nat.mod_eq_of_lt hlt]
      unfold roundedBytes
      simp only []
      split
      · rfl
      · split
        · rfl
        · rfl
    · rw [decide_eq_false hlt, if_neg hlt]

theorem size_pos (h : getSizeOfType type = some size) :
    0 < size := by
  cases type <;> cases h <;> decide

/-- Rounding is exact unless it wraps. -/
theorem roundedBytes_eq_iff {bits size n : Nat} (hbits : type.bits = some bits)
    (hsize : getSizeOfType type = some size) (hn : size * n < 2 ^ 64) :
    roundedBytes type (size * n) = (bits * n + 7) / 8 ↔
      ¬ (((type = .int4 ∨ type = .uint4) ∧ n = 2 ^ 64 - 1) ∨ (type = .int2 ∧ 2 ^ 64 - 3 ≤ n)) := by
  unfold TfLiteType.bits at hbits
  unfold roundedBytes
  by_cases h4 : type = .int4 ∨ type = .uint4
  · rw [if_pos h4] at hbits ⊢
    cases hbits
    have h1 : size = 1 := by
      rcases h4 with rfl | rfl
      all_goals
        cases hsize
        rfl
    have h2 : type ≠ .int2 := by
      rcases h4 with rfl | rfl
      all_goals decide
    rw [h1] at hn ⊢
    simp only [h4, h2, true_and, false_and, or_false]
    omega
  · rw [if_neg h4] at hbits ⊢
    by_cases h2 : type = .int2
    · rw [if_pos h2] at hbits ⊢
      cases hbits
      have h1 : size = 1 := by
        rw [h2] at hsize
        cases hsize
        rfl
      rw [h1] at hn ⊢
      simp only [h2, true_and, reduceCtorEq, or_self, false_and, false_or]
      omega
    · rw [if_neg h2, hsize] at hbits
      rw [if_neg h2]
      cases hbits
      have hround : (8 * size * n + 7) / 8 = size * n := by
        rw [Nat.mul_assoc]
        omega
      simp [h4, h2, hround]

theorem exists_size {bits : Nat} (h : type.bits = some bits) :
    ∃ size, getSizeOfType type = some size ∧ bits ≤ 8 * size := by
  unfold TfLiteType.bits at h
  split at h
  · next h4 =>
    cases h
    refine ⟨1, ?_, by omega⟩
    rcases h4 with rfl | rfl
    all_goals rfl
  · split at h
    · next h2 =>
      cases h
      rw [h2]
      exact ⟨1, rfl, by omega⟩
    · obtain ⟨size, hsize, rfl⟩ := Option.map_eq_some_iff.1 h
      exact ⟨size, hsize, Nat.le_refl _⟩

/-- The result is exact, and a number that does not fit is an error, unless the rounding wraps. -/
theorem bytesRequired_exact_iff {type : TfLiteType} {bits : Nat} (hbits : type.bits = some bits)
    {dims : List Int} (hdims : NonnegInts dims) :
    ExactBytes type bits dims ↔ ¬ RoundingWraps type dims := by
  obtain ⟨size, hsize, hle⟩ := exists_size hbits
  have heq := bytesRequired_eq hsize dims
  have hnonneg := prod_nonneg hdims
  have hiff {n : Nat} (hn : size * n < 2 ^ 64) (hprod : n = dims.prod.toNat) :
      roundedBytes type (size * n) = exactBytes bits dims ↔ ¬ RoundingWraps type dims := by
    rw [exactBytes, ← hprod, roundedBytes_eq_iff hbits hsize hn, RoundingWraps]
    have hpos : 0 < size := size_pos hsize
    have hn64 : n < 2 ^ 64 := Nat.lt_of_le_of_lt (Nat.le_mul_of_pos_left n hpos) hn
    refine not_congr (or_congr (and_congr_right fun _ => ?_) (and_congr_right fun _ => ?_))
    · omega
    · omega
  constructor
  · intro h hwraps
    have hprod : 0 < dims.prod ∧ dims.prod < 2 ^ 64 := by
      rcases hwraps with ⟨-, h⟩ | ⟨-, h⟩
      · omega
      · omega
    have hcount : countElements dims 1 = some dims.prod.toNat := by
      have hrun := @countElements_of_lt dims 1 hdims (by omega) (by omega)
      rwa [Nat.one_mul] at hrun
    have hsize1 : size = 1 := by
      rcases hwraps with ⟨rfl | rfl, -⟩ | ⟨rfl, -⟩
      all_goals
        cases hsize
        rfl
    have hlt : size * dims.prod.toNat < 2 ^ 64 := by
      rw [hsize1]
      omega
    rw [hcount] at heq
    simp only [if_pos hlt] at heq
    exact (hiff hlt rfl).1 (h.exact _ heq) hwraps
  · intro hnot
    cases hcount : countElements dims 1 with
    | none =>
      rw [hcount] at heq
      refine ⟨fun bytes hb => ?_, fun _ => congrArg Prod.fst heq⟩
      rw [heq] at hb
      cases hb
    | some count =>
      rw [hcount] at heq
      simp only [] at heq
      obtain ⟨hprod, hcount64⟩ := countElements_some hdims (by omega) hcount
      rw [Nat.one_mul] at hprod
      by_cases hlt : size * count < 2 ^ 64
      · rw [if_pos hlt] at heq
        refine ⟨fun bytes hb => ?_, fun hover => ?_⟩
        · rw [heq] at hb
          cases hb
          exact (hiff hlt hprod).2 hnot
        · have hbytes : exactBytes bits dims ≤ size * count := by
            rw [exactBytes, ← hprod]
            have hmul : bits * count ≤ 8 * (size * count) := by
              rw [← Nat.mul_assoc]
              exact Nat.mul_le_mul_right count hle
            omega
          omega
      · rw [if_neg hlt] at heq
        refine ⟨fun bytes hb => ?_, fun _ => congrArg Prod.fst heq⟩
        rw [heq] at hb
        cases hb

end

/-- The odd dimension of five elements is rounded up. -/
theorem bytesRequired_exact_iff_five :
    ExactBytes .int4 4 [5] ↔ ¬ RoundingWraps .int4 [5] :=
  bytesRequired_exact_iff rfl (by decide)

/-- The product of these dimensions is 2^64 - 1, and zero bytes are required for it. -/
theorem bytesRequired_wraps : NonnegInts [3, 5, 17, 257, 641, 65537, 6700417] ∧
    bytesRequired .int4 [3, 5, 17, 257, 641, 65537, 6700417] = (true, 0) ∧
    ¬ ExactBytes .int4 4 [3, 5, 17, 257, 641, 65537, 6700417] := by
  have hrun : bytesRequired .int4 [3, 5, 17, 257, 641, 65537, 6700417] = (true, 0) := by
    decide +kernel
  refine ⟨by decide, hrun, fun h => ?_⟩
  have hzero := h.exact 0 hrun
  revert hzero
  decide +kernel

end LiteRt.Tflite
