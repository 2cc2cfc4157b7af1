import LiteRt.Kernels.StridedSliceCall

/-!
# The loops of a strided slice

What the loops that copy go through, which counters and places they compute on the way, and what they
write when all of these are an `int`.
-/

namespace LiteRt.Kernels

open LiteRt.Lib List

/-! ## What the loops go through -/

/-- With `offset`, the end of an axis that is kept is moved within the range of an `int`. -/
def StopAdds (offset : Bool) (axis : SliceAxis) : Prop :=
  offset → axis.shrinkAxis = false → -2147483648 ≤ axis.stopIndex + stridedSliceStartForAxis axis ∧
      axis.stopIndex + stridedSliceStartForAxis axis < 2147483648

def movedAxis (offset : Bool) (axis : SliceAxis) : SliceAxis :=
  if offset && !axis.shrinkAxis then
    { axis with stopIndex := axis.stopIndex + stridedSliceStartForAxis axis }
  else axis

/-- No counter of a loop that is reached overflows. -/
def CountersFit : List SliceAxis → Prop
  | [] => True
  | axis :: axes => ∀ i ∈ (axisSelection axis).indices,
    (-2147483648 ≤ i + axis.stride ∧ i + axis.stride < 2147483648) ∧ CountersFit axes

/-- What the counters of some loops are in their innermost rounds. -/
def visited : List SliceAxis → List (List Int)
  | [] => [[]]
  | axis :: axes => (axisSelection axis).indices.flatMap fun i => (visited axes).map (i :: ·)

/-- Loops inside of each other. -/
def nested : List SliceAxis → (List Int → Option (List Int)) → Option (List Int)
  | [], body => body []
  | axis :: axes, body => forAxis axis fun i => nested axes fun offsets => body (i :: offsets)

section
variable {axis : SliceAxis} {axes : List SliceAxis} {body : List Int → Option (List Int)}
  {written : List Int}

theorem moveStop_eq_some {offset : Bool} {moved : SliceAxis} :
    moveStop offset axis = some moved ↔ StopAdds offset axis ∧ movedAxis offset axis = moved := by
  unfold moveStop movedAxis StopAdds
  cases offset with
  | false => simp
  | true =>
    cases axis.shrinkAxis with
    | true => simp
    | false =>
      show (checkedInt _).bind _ = _ ↔ _
      simp only [Option.bind_eq_some_iff, checkedInt_eq_some, Option.some_inj, forall_const,
        Bool.not_false, Bool.and_self, if_true]
      constructor
      · rintro ⟨stop, ⟨hrange, rfl⟩, hmoved⟩
        exact ⟨hrange, hmoved⟩
      · rintro ⟨hrange, hmoved⟩
        exact ⟨_, ⟨hrange, rfl⟩, hmoved⟩

theorem mapM_moveStop {offset : Bool} {moved : List SliceAxis} :
    axes.mapM (moveStop offset) = some moved ↔
      (∀ axis ∈ axes, StopAdds offset axis) ∧ axes.map (movedAxis offset) = moved := by
  induction axes generalizing moved with
  | nil => simp
  | cons axis axes ih =>
    rw [mapM_cons, forall_mem_cons, map_cons]
    show (moveStop offset axis).bind (fun a => (axes.mapM (moveStop offset)).bind _) = _ ↔ _
    simp only [Option.bind_eq_some_iff, moveStop_eq_some, ih]
    constructor
    · rintro ⟨a, ⟨hadds, rfl⟩, rest, ⟨hall, rfl⟩, hmoved⟩
      exact ⟨⟨hadds, hall⟩, Option.some.inj hmoved⟩
    · rintro ⟨⟨hadds, hall⟩, rfl⟩
      exact ⟨_, ⟨hadds, rfl⟩, _, ⟨hall, rfl⟩, rfl⟩

/-- The loops end when all rounds do and no counter overflows. -/
theorem nested_eq_some (hstrides : ∀ axis ∈ axes, axis.stride ≠ 0) :
    nested axes body = some written ↔ CountersFit axes ∧
      (∀ offsets ∈ visited axes, (body offsets).isSome) ∧
      written = (visited axes).flatMap fun offsets => (body offsets).getD [] := by
  induction axes generalizing body written with
  | nil =>
    unfold nested CountersFit visited
    simp only [true_and, forall_mem_singleton, flatMap_cons, flatMap_nil, append_nil]
    generalize body [] = result
    cases result with
    | none => simp
    | some w =>
      rw [Option.some_inj, Option.getD_some, Option.isSome_some, and_iff_right rfl]
      exact eq_comm
  | cons axis axes ih =>
    rw [forall_mem_cons] at hstrides
    have hvalue : ∀ i, CountersFit axes → (∀ offsets ∈ visited axes, (body (i :: offsets)).isSome) →
        nested axes (fun offsets => body (i :: offsets)) =
          some ((visited axes).flatMap fun offsets => (body (i :: offsets)).getD []) :=
      fun i hfit hbody => (ih hstrides.2).2 ⟨hfit, hbody, rfl⟩
    have hinner : ∀ i, (nested axes fun offsets => body (i :: offsets)).isSome →
        CountersFit axes ∧ ∀ offsets ∈ visited axes, (body (i :: offsets)).isSome := by
      intro i h
      obtain ⟨w, hw⟩ := Option.isSome_iff_exists.1 h
      obtain ⟨hfit, hbody, -⟩ := (ih hstrides.2).1 hw
      exact ⟨hfit, hbody⟩
    unfold nested visited
    rw [forAxis_eq_some hstrides.1, flatMap_assoc]
    constructor
    · rintro ⟨hall, rfl⟩
      refine ⟨fun i hi => ⟨(hall i hi).2, (hinner i (hall i hi).1).1⟩, fun offsets h => ?_, ?_⟩
      · obtain ⟨i, hi, h⟩ := mem_flatMap.1 h
        obtain ⟨rest, hrest, rfl⟩ := mem_map.1 h
        exact (hinner i (hall i hi).1).2 rest hrest
      · refine flatMap_congr fun i hi => ?_
        obtain ⟨hfit, hbody⟩ := hinner i (hall i hi).1
        rw [hvalue i hfit hbody, Option.getD_some, flatMap_map]
    · rintro ⟨hfit, hbody, rfl⟩
      have hround : ∀ i ∈ (axisSelection axis).indices, ∀ offsets ∈ visited axes,
          (body (i :: offsets)).isSome := fun i hi offsets h =>
        hbody _ (mem_flatMap.2 ⟨i, hi, mem_map.2 ⟨offsets, h, rfl⟩⟩)
      refine ⟨fun i hi => ⟨?_, (hfit i hi).1⟩, flatMap_congr fun i hi => ?_⟩
      · rw [hvalue i (hfit i hi).2 (hround i hi)]
        rfl
      · rw [hvalue i (hfit i hi).2 (hround i hi), Option.getD_some, flatMap_map]

end

/-! ## Places -/

section
variable {axis : SliceAxis}

/-- A start lies in the axis, or just behind its last element. -/
theorem start_bounds : if 0 < axis.stride then
    0 ≤ stridedSliceStartForAxis axis ∧ stridedSliceStartForAxis axis ≤ axis.dim
    else -1 ≤ stridedSliceStartForAxis axis ∧ stridedSliceStartForAxis axis < axis.dim := by
  unfold stridedSliceStartForAxis
  by_cases hpos : 0 < axis.stride
  · simp only [if_pos hpos]
    rw [clamp_eq (by omega)]
    split <;> omega
  · simp only [if_neg hpos]
    rw [clamp_eq (by omega)]
    split <;> omega

theorem axisSelection_bounds (hstride : axis.stride ≠ 0) :
    ∀ i ∈ (axisSelection axis).indices, 0 ≤ i ∧ i < axis.dim := by
  have hstart := @start_bounds axis
  unfold axisSelection
  dsimp only
  generalize stridedSliceStartForAxis axis = start at hstart ⊢
  by_cases hpos : 0 < axis.stride
  · rw [if_pos hpos] at hstart
    refine mem_sliceIndices hstride (by rw [if_pos hpos]; exact hstart.1) ?_
    unfold stridedSliceEndForAxis
    simp only [if_pos hpos]
    rw [clamp_eq (by omega)]
    split
    · split <;> omega
    · split <;> omega
  · rw [if_neg hpos] at hstart
    refine mem_sliceIndices hstride (by rw [if_neg hpos]; exact hstart.2) ?_
    unfold stridedSliceEndForAxis
    simp only [if_neg hpos]
    rw [clamp_eq (by omega)]
    split
    · split <;> omega
    · split <;> omega

end

section
variable {dim1 dim2 dim3 dim4 : Nat} {offset0 offset1 offset2 offset3 offset4 : Int}

/-- What is computed for a place is an `int`. -/
def PlaceFits (dim1 dim2 dim3 dim4 : Nat) (offset0 offset1 offset2 offset3 offset4 : Int) : Prop :=
  offset0 * dim1 * dim2 * dim3 < 2147483648 ∧ offset1 * dim2 * dim3 < 2147483648 ∧
  offset2 * dim3 < 2147483648 ∧
  (((offset0 * dim1 + offset1) * dim2 + offset2) * dim3 + offset3) * dim4 + offset4 < 2147483648

theorem placeIndex_eq_some (h0 : 0 ≤ offset0) (h1 : 0 ≤ offset1 ∧ offset1 < dim1)
    (h2 : 0 ≤ offset2 ∧ offset2 < dim2) (h3 : 0 ≤ offset3 ∧ offset3 < dim3) (h4 : 0 ≤ offset4)
    {place : Int} :
    placeIndex dim1 dim2 dim3 dim4 offset0 offset1 offset2 offset3 offset4 = some place ↔
      PlaceFits dim1 dim2 dim3 dim4 offset0 offset1 offset2 offset3 offset4 ∧
      (((offset0 * dim1 + offset1) * dim2 + offset2) * dim3 + offset3) * dim4 + offset4 =
        place := by
  have hsum : (((offset0 * dim1 + offset1) * dim2 + offset2) * dim3 + offset3) * dim4 + offset4 =
      offset4 + offset3 * dim4 + offset2 * dim3 * dim4 + offset1 * dim2 * dim3 * dim4 +
        offset0 * dim1 * dim2 * dim3 * dim4 := by ring
  have hdim2 : (1 : Int) ≤ dim2 := by omega
  have hdim3 : (1 : Int) ≤ dim3 := by omega
  have hproduct0 : 0 ≤ offset0 * dim1 := Int.mul_nonneg h0 (by omega)
  have hproduct02 : offset0 * dim1 ≤ offset0 * dim1 * dim2 := le_mul_of_one_le_right hproduct0 hdim2
  have hproduct03 : offset0 * dim1 * dim2 ≤ offset0 * dim1 * dim2 * dim3 :=
    le_mul_of_one_le_right (hproduct0.trans hproduct02) hdim3
  have hproduct04 : 0 ≤ offset0 * dim1 * dim2 * dim3 * dim4 := Int.mul_nonneg (by omega) (by omega)
  have hproduct1 : 0 ≤ offset1 * dim2 := Int.mul_nonneg h1.1 (by omega)
  have hproduct13 : offset1 * dim2 ≤ offset1 * dim2 * dim3 := le_mul_of_one_le_right hproduct1 hdim3
  have hproduct14 : 0 ≤ offset1 * dim2 * dim3 * dim4 := Int.mul_nonneg (by omega) (by omega)
  have hproduct2 : 0 ≤ offset2 * dim3 := Int.mul_nonneg h2.1 (by omega)
  have hproduct24 : 0 ≤ offset2 * dim3 * dim4 := Int.mul_nonneg (by omega) (by omega)
  have hproduct3 : 0 ≤ offset3 * dim4 := Int.mul_nonneg h3.1 (by omega)
  unfold PlaceFits placeIndex mul32 add32
  rw [hsum]
  simp only [Option.bind_eq_bind, Option.bind_eq_some_iff, checkedInt_eq_some, and_assoc,
    exists_eq_left', exists_and_left]
  omega

end

/-! ## The elements -/

/-- The offsets along the innermost axis that a place is computed for. -/
def lastOffsets (axis : SliceAxis) : List Int :=
  if axis.stride = 1 then [stridedSliceStartForAxis axis] else (axisSelection axis).indices

/-- The places that the loops compute are an `int` each. -/
def PlacesFit : List SliceAxis → Prop
  | [axis0, axis1, axis2, axis3, axis4] =>
    ∀ offset0 ∈ (axisSelection axis0).indices, ∀ offset1 ∈ (axisSelection axis1).indices,
      ∀ offset2 ∈ (axisSelection axis2).indices, ∀ offset3 ∈ (axisSelection axis3).indices,
        ∀ offset4 ∈ lastOffsets axis4, PlaceFits axis1.dim axis2.dim axis3.dim axis4.dim
          offset0 offset1 offset2 offset3 offset4
  | _ => True

section
variable {axis : SliceAxis} {axes : List SliceAxis}

theorem countersFit_one (hstride : axis.stride = 1) (hdim : axis.dim < 2147483648) :
    CountersFit [axis] := by
  intro i hi
  have hbounds := axisSelection_bounds (by rw [hstride]; decide) i hi
  rw [hstride]
  exact ⟨by omega, trivial⟩

theorem lastOffsets_nonneg (hstride : axis.stride ≠ 0) : ∀ offset ∈ lastOffsets axis, 0 ≤ offset := by
  unfold lastOffsets
  split
  · next hone =>
    have hstart := @start_bounds axis
    rw [hone, if_pos Int.one_pos] at hstart
    exact forall_mem_singleton.2 hstart.1
  · exact fun i hi => (axisSelection_bounds hstride i hi).1

/-- The innermost loop copies the elements that are selected, if all their places fit. -/
theorem copyRow_eq_some (hstride : axis.stride ≠ 0) (hdim : axis.dim < 2147483648)
    {index : Int → Option Int} {Fits : Int → Prop} {base : Int} {written : List Int}
    (hindex : ∀ offset, 0 ≤ offset → ∀ place, index offset = some place ↔
      Fits offset ∧ base + offset = place) :
    copyRow axis index = some written ↔ CountersFit [axis] ∧
      (∀ offset ∈ lastOffsets axis, Fits offset) ∧
      written = (axisSelection axis).indices.map (base + ·) := by
  have hnonneg := lastOffsets_nonneg hstride
  unfold copyRow
  unfold lastOffsets at *
  by_cases hone : axis.stride = 1
  · rw [if_pos hone] at hnonneg
    simp only [if_pos hone, forall_mem_singleton] at hnonneg ⊢
    have hrow : (if 0 < stridedSliceEndForAxis axis (stridedSliceStartForAxis axis) -
          stridedSliceStartForAxis axis then
        (List.range (stridedSliceEndForAxis axis (stridedSliceStartForAxis axis) -
          stridedSliceStartForAxis axis).toNat).map
            fun (i : Nat) => base + stridedSliceStartForAxis axis + i else []) =
        (axisSelection axis).indices.map (base + ·) := by
      rw [axisSelection_indices_one hone, map_map]
      split
      · exact map_congr_left fun k _ => Int.add_assoc _ _ _
      · next hempty =>
        rw [Int.toNat_of_nonpos (by omega)]
        rfl
    rw [Option.bind_eq_bind, Option.bind_eq_some_iff]
    constructor
    · rintro ⟨first, hfirst, hwritten⟩
      obtain ⟨hfits, rfl⟩ := (hindex _ hnonneg first).1 hfirst
      exact ⟨countersFit_one hone hdim, hfits, (Option.some.inj hwritten).symm.trans hrow⟩
    · rintro ⟨-, hfits, rfl⟩
      exact ⟨_, (hindex _ hnonneg _).2 ⟨hfits, rfl⟩, congrArg some hrow⟩
  · rw [if_neg hone] at hnonneg
    rw [if_neg hone, if_neg hone, forAxis_eq_some hstride]
    have hplace : ∀ i ∈ (axisSelection axis).indices, Fits i → index i = some (base + i) :=
      fun i hi hfits => (hindex i (hnonneg i hi) _).2 ⟨hfits, rfl⟩
    have hrow : (∀ i ∈ (axisSelection axis).indices, Fits i) →
        ((axisSelection axis).indices.flatMap fun i =>
          ((index i).map fun place => [place]).getD []) =
        (axisSelection axis).indices.map (base + ·) := by
      intro hfits
      rw [map_eq_flatMap]
      refine flatMap_congr fun i hi => ?_
      rw [hplace i hi (hfits i hi)]
      rfl
    constructor
    · rintro ⟨hall, rfl⟩
      have hfits : ∀ i ∈ (axisSelection axis).indices, Fits i := by
        intro i hi
        obtain ⟨place, hsome⟩ := Option.isSome_iff_exists.1 (Option.isSome_map ▸ (hall i hi).1)
        exact ((hindex i (hnonneg i hi) place).1 hsome).1
      exact ⟨fun i hi => ⟨(hall i hi).2, trivial⟩, hfits, hrow hfits⟩
    · rintro ⟨hcounters, hfits, rfl⟩
      refine ⟨fun i hi => ⟨?_, (hcounters i hi).1⟩, (hrow hfits).symm⟩
      rw [hplace i hi (hfits i hi)]
      rfl

theorem forall_visited_cons {P : List Int → Prop} :
    (∀ offsets ∈ visited (axis :: axes), P offsets) ↔
      ∀ i ∈ (axisSelection axis).indices, ∀ offsets ∈ visited axes, P (i :: offsets) := by
  show (∀ offsets ∈ (axisSelection axis).indices.flatMap fun i => (visited axes).map (i :: ·),
    P offsets) ↔ _
  rw [forall_mem_flatMap]
  exact forall₂_congr fun i _ => forall_mem_map

theorem flatMap_visited_cons {f : List Int → List Int} :
    (visited (axis :: axes)).flatMap f = (axisSelection axis).indices.flatMap fun i =>
        (visited axes).flatMap fun offsets => f (i :: offsets) := by
  show ((axisSelection axis).indices.flatMap fun i => (visited axes).map (i :: ·)).flatMap f = _
  rw [flatMap_assoc]
  exact flatMap_congr fun i _ => flatMap_map _ _ _

theorem countersFit_append {inner : List SliceAxis} : CountersFit (axes ++ inner) ↔
    CountersFit axes ∧ ∀ offsets ∈ visited axes, CountersFit inner := by
  induction axes with
  | nil =>
    unfold visited
    rw [nil_append, forall_mem_singleton]
    exact (and_iff_right trivial).symm
  | cons axis axes ih =>
    rw [forall_visited_cons, cons_append]
    show (∀ i ∈ (axisSelection axis).indices,
      (-2147483648 ≤ i + axis.stride ∧ i + axis.stride < 2147483648) ∧
        CountersFit (axes ++ inner)) ↔
      (∀ i ∈ (axisSelection axis).indices,
        (-2147483648 ≤ i + axis.stride ∧ i + axis.stride < 2147483648) ∧ CountersFit axes) ∧ _
    rw [← forall₂_and, ih]
    exact forall₂_congr fun i _ => and_assoc.symm

end

/-- The innermost loop at the offsets along the other four axes. -/
def copyRowAt (axis1 axis2 axis3 axis4 : SliceAxis) : List Int → Option (List Int)
  | [offset0, offset1, offset2, offset3] => copyRow axis4
    (placeIndex axis1.dim axis2.dim axis3.dim axis4.dim offset0 offset1 offset2 offset3)
  | _ => none

section
variable {axis0 axis1 axis2 axis3 axis4 : SliceAxis} {written : List Int}

theorem copyRowAt_eq_some (hstride : axis4.stride ≠ 0) (hdim : axis4.dim < 2147483648)
    {offset0 offset1 offset2 offset3 : Int} (h0 : 0 ≤ offset0)
    (h1 : 0 ≤ offset1 ∧ offset1 < axis1.dim) (h2 : 0 ≤ offset2 ∧ offset2 < axis2.dim)
    (h3 : 0 ≤ offset3 ∧ offset3 < axis3.dim) :
    copyRowAt axis1 axis2 axis3 axis4 [offset0, offset1, offset2, offset3] = some written ↔
      CountersFit [axis4] ∧
      (∀ offset4 ∈ lastOffsets axis4, PlaceFits axis1.dim axis2.dim axis3.dim axis4.dim
        offset0 offset1 offset2 offset3 offset4) ∧
      written = (axisSelection axis4).indices.map
        ((((offset0 * axis1.dim + offset1) * axis2.dim + offset2) * axis3.dim + offset3) *
          axis4.dim + ·) :=
  copyRow_eq_some hstride hdim fun _ h4 _ => placeIndex_eq_some h0 h1 h2 h3 h4

theorem forall_visited_four {P : List Int → Prop} :
    (∀ offsets ∈ visited [axis0, axis1, axis2, axis3], P offsets) ↔
      ∀ offset0 ∈ (axisSelection axis0).indices, ∀ offset1 ∈ (axisSelection axis1).indices,
        ∀ offset2 ∈ (axisSelection axis2).indices, ∀ offset3 ∈ (axisSelection axis3).indices,
          P [offset0, offset1, offset2, offset3] := by
  simp only [forall_visited_cons]
  unfold visited
  simp only [forall_mem_singleton]

theorem flatMap_visited_four {f : List Int → List Int} :
    (visited [axis0, axis1, axis2, axis3]).flatMap f =
      (axisSelection axis0).indices.flatMap fun offset0 =>
        (axisSelection axis1).indices.flatMap fun offset1 =>
          (axisSelection axis2).indices.flatMap fun offset2 =>
            (axisSelection axis3).indices.flatMap fun offset3 =>
              f [offset0, offset1, offset2, offset3] := by
  simp only [flatMap_visited_cons]
  unfold visited
  simp only [flatMap_cons, flatMap_nil, append_nil]

/-- The innermost loop, wherever the other loops reach it. -/
theorem copyRowAt_visited (hstrides : ∀ axis ∈ [axis0, axis1, axis2, axis3, axis4], axis.stride ≠ 0)
    (hdim : axis4.dim < 2147483648) :
    ∀ offset0 ∈ (axisSelection axis0).indices, ∀ offset1 ∈ (axisSelection axis1).indices,
      ∀ offset2 ∈ (axisSelection axis2).indices, ∀ offset3 ∈ (axisSelection axis3).indices,
      ∀ written, copyRowAt axis1 axis2 axis3 axis4 [offset0, offset1, offset2, offset3] =
        some written ↔ CountersFit [axis4] ∧
      (∀ offset4 ∈ lastOffsets axis4, PlaceFits axis1.dim axis2.dim axis3.dim axis4.dim
        offset0 offset1 offset2 offset3 offset4) ∧
      written = (axisSelection axis4).indices.map
        ((((offset0 * axis1.dim + offset1) * axis2.dim + offset2) * axis3.dim + offset3) *
          axis4.dim + ·) := by
  simp only [forall_mem_cons] at hstrides
  obtain ⟨hstride0, hstride1, hstride2, hstride3, hstride4, -⟩ := hstrides
  intro offset0 h0 offset1 h1 offset2 h2 offset3 h3 written
  exact copyRowAt_eq_some hstride4 hdim (axisSelection_bounds hstride0 _ h0).1
    (axisSelection_bounds hstride1 _ h1) (axisSelection_bounds hstride2 _ h2)
    (axisSelection_bounds hstride3 _ h3)

theorem copyRowAt_isSome (hstrides : ∀ axis ∈ [axis0, axis1, axis2, axis3, axis4], axis.stride ≠ 0)
    (hdim : axis4.dim < 2147483648) :
    (∀ offsets ∈ visited [axis0, axis1, axis2, axis3],
      (copyRowAt axis1 axis2 axis3 axis4 offsets).isSome) ↔
    (∀ offsets ∈ visited [axis0, axis1, axis2, axis3], CountersFit [axis4]) ∧
      PlacesFit [axis0, axis1, axis2, axis3, axis4] := by
  have hrow := copyRowAt_visited hstrides hdim
  rw [forall_visited_four, forall_visited_four]
  constructor
  · intro h
    have hfit : ∀ offset0 h0 offset1 h1 offset2 h2 offset3 h3, _ :=
      fun offset0 h0 offset1 h1 offset2 h2 offset3 h3 =>
        (hrow offset0 h0 offset1 h1 offset2 h2 offset3 h3 _).1
          (Option.some_get (h offset0 h0 offset1 h1 offset2 h2 offset3 h3)).symm
    exact ⟨fun offset0 h0 offset1 h1 offset2 h2 offset3 h3 =>
        (hfit offset0 h0 offset1 h1 offset2 h2 offset3 h3).1,
      fun offset0 h0 offset1 h1 offset2 h2 offset3 h3 =>
        (hfit offset0 h0 offset1 h1 offset2 h2 offset3 h3).2.1⟩
  · intro h offset0 h0 offset1 h1 offset2 h2 offset3 h3
    rw [(hrow offset0 h0 offset1 h1 offset2 h2 offset3 h3 _).2
      ⟨h.1 offset0 h0 offset1 h1 offset2 h2 offset3 h3,
        h.2 offset0 h0 offset1 h1 offset2 h2 offset3 h3, rfl⟩]
    rfl

theorem copyRowAt_written (hstrides : ∀ axis ∈ [axis0, axis1, axis2, axis3, axis4], axis.stride ≠ 0)
    (hdim : axis4.dim < 2147483648)
    (h : ∀ offsets ∈ visited [axis0, axis1, axis2, axis3],
      (copyRowAt axis1 axis2 axis3 axis4 offsets).isSome) :
    ((visited [axis0, axis1, axis2, axis3]).flatMap fun offsets =>
      (copyRowAt axis1 axis2 axis3 axis4 offsets).getD []) =
    selectedPlaces ([axis0, axis1, axis2, axis3, axis4].map axisSelection) 0 := by
  rw [forall_visited_four] at h
  rw [flatMap_visited_four]
  simp only [map_cons, map_nil, selectedPlaces]
  refine flatMap_congr fun offset0 h0 => flatMap_congr fun offset1 h1 =>
    flatMap_congr fun offset2 h2 => flatMap_congr fun offset3 h3 => ?_
  obtain ⟨w, hw⟩ := Option.isSome_iff_exists.1 (h offset0 h0 offset1 h1 offset2 h2 offset3 h3)
  obtain ⟨-, -, rfl⟩ :=
    (copyRowAt_visited hstrides hdim offset0 h0 offset1 h1 offset2 h2 offset3 h3 w).1 hw
  rw [hw, Option.getD_some, ← map_eq_flatMap]
  refine map_congr_left fun offset4 _ => ?_
  show _ = ((((0 * (axis0.dim : Int) + offset0) * axis1.dim + offset1) * axis2.dim + offset2) *
    axis3.dim + offset3) * axis4.dim + offset4
  rw [Int.zero_mul, Int.zero_add]

/-- The loops copy the elements that are selected, if no counter overflows and all places fit. -/
theorem copyElements_eq_some
    (hstrides : ∀ axis ∈ [axis0, axis1, axis2, axis3, axis4], axis.stride ≠ 0)
    (hdim : axis4.dim < 2147483648) :
    copyElements [axis0, axis1, axis2, axis3, axis4] = some written ↔
      CountersFit [axis0, axis1, axis2, axis3, axis4] ∧
      PlacesFit [axis0, axis1, axis2, axis3, axis4] ∧
      written = selectedPlaces ([axis0, axis1, axis2, axis3, axis4].map axisSelection) 0 := by
  have hnested : copyElements [axis0, axis1, axis2, axis3, axis4] =
      nested [axis0, axis1, axis2, axis3] (copyRowAt axis1 axis2 axis3 axis4) := rfl
  have hcounters := @countersFit_append [axis0, axis1, axis2, axis3] [axis4]
  have houter : ∀ axis ∈ [axis0, axis1, axis2, axis3], axis.stride ≠ 0 := fun axis haxis =>
    hstrides axis (mem_append_left [axis4] haxis)
  rw [hnested, nested_eq_some houter]
  show _ ↔ CountersFit ([axis0, axis1, axis2, axis3] ++ [axis4]) ∧ _
  rw [hcounters]
  constructor
  · rintro ⟨hfit, hrows, rfl⟩
    obtain ⟨hlast, hplaces⟩ := (copyRowAt_isSome hstrides hdim).1 hrows
    exact ⟨⟨hfit, hlast⟩, hplaces, copyRowAt_written hstrides hdim hrows⟩
  · rintro ⟨⟨hfit, hlast⟩, hplaces, rfl⟩
    have hrows := (copyRowAt_isSome hstrides hdim).2 ⟨hlast, hplaces⟩
    exact ⟨hfit, hrows, (copyRowAt_written hstrides hdim hrows).symm⟩

end

/-! ## All axes -/

section
variable {axis : SliceAxis} {axes : List SliceAxis} {offset : Bool}

/-- The axis that stands in front of the axes of the input. -/
def padAxis : SliceAxis := ⟨0, 1, 1, true, true, false, 1⟩

theorem padAxes_eq : padAxes axes = List.replicate (5 - axes.length) padAxis ++ axes := rfl

theorem movedAxis_padAxis : movedAxis offset padAxis = padAxis := by
  cases offset <;> decide

theorem movedAxis_stride : (movedAxis offset axis).stride = axis.stride := by
  unfold movedAxis
  split <;> rfl

theorem movedAxis_dim : (movedAxis offset axis).dim = axis.dim := by
  unfold movedAxis
  split <;> rfl

theorem padAxes_map_moved :
    (padAxes axes).map (movedAxis offset) = padAxes (axes.map (movedAxis offset)) := by
  rw [padAxes_eq, padAxes_eq, map_append, map_replicate, movedAxis_padAxis, length_map]

theorem stopAdds_padAxes :
    (∀ axis ∈ padAxes axes, StopAdds offset axis) ↔ ∀ axis ∈ axes, StopAdds offset axis := by
  have hpad : StopAdds offset padAxis := fun _ _ => by decide
  rw [padAxes_eq, forall_mem_append]
  exact and_iff_right fun axis haxis => eq_of_mem_replicate haxis ▸ hpad

theorem countersFit_padAxes : CountersFit (padAxes axes) ↔ CountersFit axes := by
  have hpad : (axisSelection padAxis).indices = [0] := by decide
  rw [padAxes_eq]
  induction 5 - axes.length with
  | zero => rfl
  | succ n ih =>
    rw [replicate_succ, cons_append]
    refine Iff.trans ?_ ih
    show (∀ i ∈ (axisSelection padAxis).indices, _) ↔ _
    rw [hpad, forall_mem_singleton]
    exact and_iff_right (by decide)

/-- The copy ends if nothing overflows, and then it has copied what is selected. -/
theorem copy_eq_some {call : SliceCall} {places : List Int} (hlength : axes.length ≤ 5)
    (hstrides : ∀ axis ∈ axes, axis.stride ≠ 0) (hdims : ∀ axis ∈ axes, axis.dim < 2147483648) :
    call.copy axes = some places ↔ (∀ axis ∈ axes, StopAdds call.offset axis) ∧
      CountersFit (axes.map (movedAxis call.offset)) ∧
      PlacesFit (padAxes (axes.map (movedAxis call.offset))) ∧
      places = selectedPlaces ((axes.map (movedAxis call.offset)).map axisSelection) 0 := by
  have hfive : (padAxes (axes.map (movedAxis call.offset))).length = 5 := by
    rw [padAxes_eq, length_append, length_replicate, length_map]
    omega
  have hpadded : ∀ axis ∈ padAxes (axes.map (movedAxis call.offset)),
      axis.stride ≠ 0 ∧ axis.dim < 2147483648 := by
    rw [padAxes_eq, forall_mem_append, forall_mem_map]
    refine ⟨fun axis haxis => ?_, fun axis haxis => ?_⟩
    · rw [eq_of_mem_replicate haxis]
      decide
    · rw [movedAxis_stride, movedAxis_dim]
      exact ⟨hstrides axis haxis, hdims axis haxis⟩
  have hcopy : call.copy axes = some places ↔ (∀ axis ∈ axes, StopAdds call.offset axis) ∧
      copyElements (padAxes (axes.map (movedAxis call.offset))) = some places := by
    unfold SliceCall.copy
    rw [Option.bind_eq_bind, Option.bind_eq_some_iff, ← stopAdds_padAxes]
    simp only [mapM_moveStop, and_assoc, exists_and_left, exists_eq_left', padAxes_map_moved]
  rw [hcopy, ← countersFit_padAxes, ← selectedPlaces_padAxes]
  generalize padAxes (axes.map (movedAxis call.offset)) = padded at hfive hpadded ⊢
  obtain ⟨axis0, rest, rfl⟩ := exists_cons_of_length_eq_add_one hfive
  obtain ⟨axis1, axis2, axis3, axis4, rfl⟩ := length_eq_four.1 (Nat.succ_inj.1 hfive)
  rw [copyElements_eq_some (fun axis haxis => (hpadded axis haxis).1) (hpadded axis4 (by simp)).2]

end

/-! ## Where nothing overflows -/

section
variable {axis : SliceAxis} {body body' : Int → Option (List Int)} {written : List Int}

end

end LiteRt.Kernels
