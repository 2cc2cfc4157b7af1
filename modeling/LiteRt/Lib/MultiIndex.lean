import LiteRt.Lib.Broadcast
import Mathlib.Data.List.Forall2
import Mathlib.Data.List.GetD
import Mathlib.Data.List.Perm.Basic

/-!
# Indices with one number for each axis

Shapes and indices have the outermost axis first. An element stands at the sum of its indices
times the strides; the row-major strides give each place once. Permuting axes permutes strides.
-/

namespace LiteRt.Lib

open List

/-- The place of an element. -/
def offsetOf (strides indices : List Nat) : Nat := (List.zipWith (· * ·) strides indices).sum

def rowStrides : List Nat → List Nat
  | [] => []
  | _ :: shape => shape.prod :: rowStrides shape

/-- There is an index for each axis, below its extent. -/
abbrev IndexWithin (indices shape : List Nat) : Prop := List.Forall₂ (· < ·) indices shape

/-- The indices of a shape in row-major order. -/
def allIndices : List Nat → List (List Nat)
  | [] => [[]]
  | d :: shape => (List.range d).flatMap fun i => (allIndices shape).map (i :: ·)

variable {shape indices strides : List Nat}

@[simp] theorem offsetOf_nil (indices : List Nat) : offsetOf [] indices = 0 := rfl

@[simp] theorem offsetOf_cons (s i : Nat) (strides indices : List Nat) :
    offsetOf (s :: strides) (i :: indices) = s * i + offsetOf strides indices := by
  unfold offsetOf
  rw [zipWith_cons_cons, sum_cons]

@[simp] theorem length_rowStrides (shape : List Nat) :
    (rowStrides shape).length = shape.length := by
  induction shape with
  | nil => rfl
  | cons d shape ih => rw [rowStrides, length_cons, length_cons, ih]

theorem getElem?_rowStrides {shape : List Nat} {k : Nat} (hk : k < shape.length) :
    (rowStrides shape)[k]? = some (shape.drop (k + 1)).prod := by
  induction shape generalizing k with
  | nil => exact absurd hk (Nat.not_lt_zero k)
  | cons d shape ih =>
    cases k with
    | zero => rfl
    | succ k => exact ih (Nat.lt_of_succ_lt_succ hk)

theorem mem_allIndices : indices ∈ allIndices shape ↔ IndexWithin indices shape := by
  induction shape generalizing indices with
  | nil => exact mem_singleton.trans forall₂_nil_right_iff.symm
  | cons d shape ih =>
    simp only [allIndices, mem_flatMap, mem_range, mem_map, ih, forall₂_cons_right_iff]
    constructor
    · rintro ⟨i, hi, rest, hrest, rfl⟩
      exact ⟨i, rest, hi, hrest, rfl⟩
    · rintro ⟨i, rest, hi, hrest, rfl⟩
      exact ⟨i, hi, rest, hrest, rfl⟩

/-- The row-major strides number the elements in their order. -/
theorem map_offsetOf_allIndices (shape : List Nat) :
    (allIndices shape).map (offsetOf (rowStrides shape)) = List.range shape.prod := by
  induction shape with
  | nil => rfl
  | cons d shape ih =>
    rw [prod_cons, range_mul, allIndices, map_flatMap]
    refine flatMap_congr fun i _ => ?_
    rw [List.map_map, ← ih, List.map_map]
    refine map_congr_left fun rest _ => ?_
    rw [Function.comp_apply, Function.comp_apply, rowStrides, offsetOf_cons, Nat.mul_comm]

theorem offsetOf_lt (h : IndexWithin indices shape) :
    offsetOf (rowStrides shape) indices < shape.prod := by
  have hmem := mem_map_of_mem (f := offsetOf (rowStrides shape)) (mem_allIndices.2 h)
  rw [map_offsetOf_allIndices] at hmem
  exact mem_range.1 hmem

/-! ## Permuted axes -/

theorem offsetOf_eq_sum (hlen : strides.length = indices.length) :
    offsetOf strides indices = ((List.range indices.length).map fun a =>
      strides.getD a 0 * indices.getD a 0).sum := by
  unfold offsetOf
  congr 1
  refine ext_getElem (by simp [hlen]) fun a ha ha' => ?_
  rw [getElem_zipWith, getElem_map, getElem_range]
  rw [length_zipWith] at ha
  rw [getD_eq_getElem _ _ (by omega), getD_eq_getElem _ _ (by omega)]

section
variable {perm outIndices : List Nat}

/-- The indices along the axes from which the permuted axes are taken. -/
def Permutes (perm outIndices indices : List Nat) : Prop :=
  ∀ (k p : Nat), perm[k]? = some p → indices[p]? = outIndices[k]?

theorem offsetOf_permuted (hperm : perm.Perm (List.range indices.length))
    (hlen : strides.length = indices.length) (hout : outIndices.length = indices.length)
    (h : Permutes perm outIndices indices) :
    offsetOf (perm.map fun p => strides.getD p 0) outIndices = offsetOf strides indices := by
  have hpermlen : perm.length = indices.length := by
    rw [hperm.length_eq, length_range]
  rw [offsetOf_eq_sum hlen, offsetOf_eq_sum (by rw [length_map, hpermlen, hout]),
    ← (hperm.map _).sum_eq]
  congr 1
  refine ext_getElem (by simp [hpermlen, hout]) fun k hk hk' => ?_
  rw [length_map] at hk'
  have hget : perm[k]? = some perm[k] := getElem?_eq_getElem hk'
  have hvalue := h k perm[k] hget
  rw [getElem_map, getElem_map, getElem_range, getD_eq_getElem?_getD,
    getElem?_map, hget, getD_eq_getElem?_getD, ← hvalue]
  rfl

/-- Put back to the axes they are taken from. -/
def unpermute (perm outIndices : List Nat) : List Nat :=
  (List.range perm.length).map fun a => outIndices.getD (perm.idxOf a) 0

theorem permutes_unpermute (hperm : perm.Perm (List.range perm.length))
    (hout : outIndices.length = perm.length) :
    Permutes perm outIndices (unpermute perm outIndices) := by
  intro k p hp
  obtain ⟨hk, rfl⟩ := List.getElem?_eq_some_iff.1 hp
  have hlt : perm[k] < perm.length := mem_range.1 (hperm.mem_iff.1 (getElem_mem hk))
  have hidx : perm.idxOf perm[k] = k :=
    (hperm.nodup_iff.2 nodup_range).idxOf_getElem k hk
  unfold unpermute
  rw [getElem?_map, getElem?_range hlt, Option.map_some, hidx,
    getD_eq_getElem _ _ (by omega), getElem?_eq_getElem (by omega)]

theorem indexWithin_unpermute (hperm : perm.Perm (List.range shape.length))
    (h : IndexWithin outIndices (perm.map fun p => shape.getD p 0)) :
    IndexWithin (unpermute perm outIndices) shape := by
  have hpermlen : perm.length = shape.length := by rw [hperm.length_eq, length_range]
  obtain ⟨hlen, hget⟩ := forall₂_iff_get.1 h
  rw [length_map] at hlen
  refine forall₂_iff_get.2 ⟨by simp [unpermute, hpermlen], fun a ha ha' => ?_⟩
  have hmem : a ∈ perm := hperm.mem_iff.2 (mem_range.2 ha')
  have hlt : perm.idxOf a < perm.length := idxOf_lt_length_of_mem hmem
  have hlt' := hget (perm.idxOf a) (by omega) (by rw [length_map]; exact hlt)
  simp only [get_eq_getElem, getElem_map, getElem_idxOf hlt, getD_eq_getElem _ 0 ha'] at hlt'
  simp only [get_eq_getElem, unpermute, getElem_map, getElem_range]
  rw [getD_eq_getElem _ _ (by omega)]
  exact hlt'

end

end LiteRt.Lib
