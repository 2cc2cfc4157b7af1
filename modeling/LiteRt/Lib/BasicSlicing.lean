import Mathlib.Algebra.BigOperators.Ring.List
import Mathlib.Algebra.Order.Ring.Int
import Mathlib.Data.List.Basic
import Mathlib.Tactic.Linarith
import Mathlib.Tactic.Ring

/-!
# Basic slicing

Subscripts `x[s, ...]` of an array as NumPy defines them: what they select along each axis, the
shape of the result and its elements in order.
-/

namespace LiteRt.Lib

open List

/-! ## Slices of one axis -/

/-- A bound counts from the end if it is negative, and is clamped to the axis. -/
def sliceBound (n : Nat) (step bound : Int) : Int :=
  let bound := if bound < 0 then bound + n else bound
  if 0 < step then max 0 (min n bound) else max (-1) (min (n - 1) bound)

def sliceStart (n : Nat) (step : Int) : Option Int → Int
  | none => if 0 < step then 0 else n - 1
  | some bound => sliceBound n step bound

def sliceStop (n : Nat) (step : Int) : Option Int → Int
  | none => if 0 < step then n else -1
  | some bound => sliceBound n step bound

/-- How many of `start`, `start + step`, ... come before `stop`. -/
def sliceLength (start stop step : Int) : Nat :=
  if 0 < step then ((stop - start + step - 1) / step).toNat
  else ((start - stop - step - 1) / -step).toNat

def sliceIndices (start stop step : Int) : List Int :=
  (List.range (sliceLength start stop step)).map fun (k : Nat) => start + k * step

section
variable {start stop step : Int}

/-- `stop` is not reached yet. -/
def Before (stop step index : Int) : Prop := if step < 0 then stop < index else index < stop

instance (stop step index : Int) : Decidable (Before stop step index) :=
  inferInstanceAs (Decidable (if step < 0 then stop < index else index < stop))

theorem sliceLength_of_not_before (hstep : step ≠ 0) (h : ¬Before stop step start) :
    sliceLength start stop step = 0 := by
  unfold Before at h
  unfold sliceLength
  split
  · rename_i hpos
    rw [if_neg (by omega)] at h
    have hlt : stop - start + step - 1 < 1 * step := by omega
    have hle := Int.ediv_lt_of_lt_mul hpos hlt
    omega
  · rename_i hneg
    rw [if_pos (by omega)] at h
    have hlt : start - stop - step - 1 < 1 * -step := by omega
    have hle := Int.ediv_lt_of_lt_mul (by omega) hlt
    omega

theorem sliceLength_of_before (hstep : step ≠ 0) (h : Before stop step start) :
    sliceLength start stop step = sliceLength (start + step) stop step + 1 := by
  unfold Before at h
  unfold sliceLength
  split
  · rename_i hpos
    rw [if_neg (by omega)] at h
    have hshift : stop - start + step - 1 = stop - (start + step) + step - 1 + step := by ring
    have hnonneg : 0 ≤ (stop - (start + step) + step - 1) / step :=
      Int.ediv_nonneg (by omega) hpos.le
    rw [hshift, Int.add_ediv_of_dvd_right (Int.dvd_refl step), Int.ediv_self hstep]
    omega
  · rename_i hneg
    rw [if_pos (by omega)] at h
    have hshift : start - stop - step - 1 = start + step - stop - step - 1 + -step := by ring
    have hnonneg : 0 ≤ (start + step - stop - step - 1) / -step :=
      Int.ediv_nonneg (by omega) (by omega)
    rw [hshift, Int.add_ediv_of_dvd_right (Int.dvd_refl (-step)), Int.ediv_self (by omega)]
    omega

theorem sliceIndices_of_not_before (hstep : step ≠ 0) (h : ¬Before stop step start) :
    sliceIndices start stop step = [] := by
  unfold sliceIndices
  rw [sliceLength_of_not_before hstep h]
  rfl

theorem sliceIndices_of_before (hstep : step ≠ 0) (h : Before stop step start) :
    sliceIndices start stop step = start :: sliceIndices (start + step) stop step := by
  unfold sliceIndices
  rw [sliceLength_of_before hstep h, range_succ_eq_map, map_cons, map_map]
  congr 1
  · simp
  · refine map_congr_left fun k _ => ?_
    simp only [Function.comp_apply, Nat.succ_eq_add_one, Nat.cast_add, Nat.cast_one]
    ring

/-- Each index moves on by one at least. -/
theorem sliceLength_le (hstep : step ≠ 0) : sliceLength start stop step ≤ (stop - start).natAbs := by
  unfold sliceLength
  split
  · rename_i hpos
    obtain hle | hlt := le_or_gt (stop - start) 0
    · have hlt : stop - start + step - 1 < 1 * step := by omega
      have hquotient := Int.ediv_lt_of_lt_mul hpos hlt
      omega
    · have hmul : (stop - start) * 1 ≤ (stop - start) * step :=
        Int.mul_le_mul_of_nonneg_left hpos hlt.le
      have hquotient : (stop - start + step - 1) / step < stop - start + 1 :=
        Int.ediv_lt_of_lt_mul hpos (by rw [Int.add_mul]; omega)
      omega
  · rename_i hneg
    obtain hle | hlt := le_or_gt (start - stop) 0
    · have hlt : start - stop - step - 1 < 1 * -step := by omega
      have hquotient := Int.ediv_lt_of_lt_mul (by omega) hlt
      omega
    · have hmul : (start - stop) * 1 ≤ (start - stop) * -step :=
        Int.mul_le_mul_of_nonneg_left (by omega) hlt.le
      have hquotient : (start - stop - step - 1) / -step < start - stop + 1 :=
        Int.ediv_lt_of_lt_mul (by omega) (by rw [Int.add_mul]; omega)
      omega

theorem mem_sliceIndices {n : Nat} (hstep : step ≠ 0)
    (hstart : if 0 < step then 0 ≤ start else start < n)
    (hstop : if 0 < step then stop ≤ n else -1 ≤ stop) :
    ∀ i ∈ sliceIndices start stop step, 0 ≤ i ∧ i < n := by
  induction hlength : sliceLength start stop step generalizing start with
  | zero =>
    unfold sliceIndices
    rw [hlength]
    exact fun i hi => absurd hi not_mem_nil
  | succ length ih =>
    have hbefore : Before stop step start := by
      by_contra h
      rw [sliceLength_of_not_before hstep h] at hlength
      cases hlength
    rw [sliceIndices_of_before hstep hbefore]
    rw [sliceLength_of_before hstep hbefore, Nat.add_right_cancel_iff] at hlength
    unfold Before at hbefore
    by_cases hpos : 0 < step
    · simp only [if_pos hpos] at hstart hstop ih
      rw [if_neg (by omega)] at hbefore
      exact forall_mem_cons.2 ⟨by omega, ih (by omega) hlength⟩
    · simp only [if_neg hpos] at hstart hstop ih
      rw [if_pos (by omega)] at hbefore
      exact forall_mem_cons.2 ⟨by omega, ih (by omega) hlength⟩

end

/-! ## Subscripts -/

inductive Subscript where
  | ellipsis
  | newAxis
  | index (i : Int)
  | slice (start stop : Option Int) (step : Int)
  deriving DecidableEq, Repr

/-- What is selected along an axis, and whether the result has the axis. -/
structure Selection where
  extent : Nat
  indices : List Int
  kept : Bool
  deriving DecidableEq, Repr

def selectSlice (n : Nat) (start stop : Option Int) (step : Int) : Selection :=
  ⟨n, sliceIndices (sliceStart n step start) (sliceStop n step stop) step, true⟩

/-- A whole axis. -/
def selectAll (n : Nat) : Selection := selectSlice n none none 1

def selectIndex (n : Nat) (i : Int) : Option Selection :=
  if -n ≤ i ∧ i < n then some ⟨n, [if i < 0 then i + n else i], false⟩ else none

/-- The subscripts that stand for an axis of the array. -/
def Subscript.consumes : Subscript → Bool
  | .ellipsis => false
  | .newAxis => false
  | .index _ => true
  | .slice _ _ _ => true

/-- What subscripts select, axis by axis; `none` stands for an error. An ellipsis stands for the
axes that the subscripts after it leave, and axes without subscript are taken whole. -/
def select : List Subscript → List Nat → Option (List Selection)
  | [], shape => some (shape.map selectAll)
  | .ellipsis :: subscripts, shape =>
    let remaining := shape.length - (subscripts.filter Subscript.consumes).length
    (select subscripts (shape.drop remaining)).map ((shape.take remaining).map selectAll ++ ·)
  | .newAxis :: subscripts, shape => (select subscripts shape).map (⟨1, [0], true⟩ :: ·)
  | .index _ :: _, [] => none
  | .index i :: subscripts, n :: shape =>
    (selectIndex n i).bind fun selection => (select subscripts shape).map (selection :: ·)
  | .slice _ _ _ :: _, [] => none
  | .slice start stop step :: subscripts, n :: shape =>
    (select subscripts shape).map (selectSlice n start stop step :: ·)

def selectedShape (selections : List Selection) : List Nat :=
  (selections.filter Selection.kept).map fun s => s.indices.length

/-- The places of the elements of the result, in order. -/
def selectedPlaces : List Selection → Int → List Int
  | [], place => [place]
  | s :: selections, place =>
    s.indices.flatMap fun i => selectedPlaces selections (place * s.extent + i)

section
variable {selections : List Selection}

/-- As many elements are selected as the indices along the axes have combinations. -/
theorem length_selectedPlaces (place : Int) :
    (selectedPlaces selections place).length = (selections.map fun s => s.indices.length).prod := by
  induction selections generalizing place with
  | nil => rfl
  | cons s selections ih =>
    unfold selectedPlaces
    rw [length_flatMap, map_cons, prod_cons]
    simp only [ih, map_const', sum_replicate_nat]

theorem selectedPlaces_eq_nil_iff {place : Int} :
    selectedPlaces selections place = [] ↔ ∃ s ∈ selections, s.indices = [] := by
  rw [← length_eq_zero_iff, length_selectedPlaces, prod_eq_zero_iff, mem_map]
  simp only [length_eq_zero_iff]

theorem mem_selectedPlaces (h : ∀ s ∈ selections, ∀ i ∈ s.indices, 0 ≤ i ∧ i < s.extent)
    (place : Int) : ∀ p ∈ selectedPlaces selections place,
      place * (selections.map Selection.extent).prod ≤ p ∧
        p < (place + 1) * (selections.map Selection.extent).prod := by
  induction selections generalizing place with
  | nil =>
    intro p hp
    obtain rfl := mem_singleton.1 hp
    simp
  | cons s selections ih =>
    rw [forall_mem_cons] at h
    intro p hp
    obtain ⟨i, hi, hp⟩ := mem_flatMap.1 hp
    obtain ⟨hnonneg, hlt⟩ := h.1 i hi
    obtain ⟨hlow, hhigh⟩ := ih h.2 (place * s.extent + i) p hp
    rw [map_cons, prod_cons, Nat.cast_mul]
    generalize (((selections.map Selection.extent).prod : Nat) : Int) = size at *
    have hsize : 0 ≤ size := by nlinarith
    constructor
    · calc place * (s.extent * size)
        _ = (place * s.extent) * size := by ring
        _ ≤ (place * s.extent + i) * size := Int.mul_le_mul_of_nonneg_right (by omega) hsize
        _ ≤ p := hlow
    · calc p
        _ < (place * s.extent + i + 1) * size := hhigh
        _ ≤ ((place + 1) * s.extent) * size := Int.mul_le_mul_of_nonneg_right (by linarith) hsize
        _ = (place + 1) * (s.extent * size) := by ring

end

end LiteRt.Lib
