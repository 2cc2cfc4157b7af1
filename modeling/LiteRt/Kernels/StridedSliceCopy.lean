import LiteRt.Kernels.StridedSliceAxes

/-!
# Strided slice is basic slicing

What is selected along each effective axis, and from it the output shape and the copied elements.
-/

namespace LiteRt.Kernels

open LiteRt.Lib List

variable {axes : List SliceAxis} {axis : SliceAxis} {body : Int → Option (List Int)}
  {f : Int → List Int} {n : Nat} {masks : StridedSliceMasks} {i : Nat} {entries : List SliceEntry}

/-! ## What an axis selects -/

/-- The indices that the loop along an axis goes through. -/
def axisSelection (axis : SliceAxis) : Selection where
  extent := axis.dim
  indices := sliceIndices (stridedSliceStartForAxis axis)
    (stridedSliceEndForAxis axis (stridedSliceStartForAxis axis)) axis.stride
  kept := !axis.shrinkAxis

theorem clamp_eq {v lo hi : Int} (h : lo ≤ hi) : clamp v lo hi = max lo (min hi v) := by
  unfold clamp
  split
  · omega
  · split <;> omega

theorem axisSelection_whole (dim : Nat) : axisSelection (wholeAxis dim) = selectAll dim := rfl

theorem axisSelection_new : axisSelection newAxis = ⟨1, [0], true⟩ := by
  decide

section
variable {masks : StridedSliceMasks} {i : Nat} {entry : SliceEntry} {dim : Nat}

theorem axisSelection_slice (h : masks.shrinkAxisMask.testBit i = false) :
    axisSelection (givenAxis masks i entry dim) =
      selectSlice dim (if masks.beginMask.testBit i then none else some entry.begin)
        (if masks.endMask.testBit i then none else some entry.stop) entry.stride := by
  have hstart : stridedSliceStartForAxis (givenAxis masks i entry dim) = sliceStart dim entry.stride
        (if masks.beginMask.testBit i then none else some entry.begin) := by
    unfold stridedSliceStartForAxis givenAxis
    dsimp only
    rw [clamp_eq (by omega), clamp_eq (by omega)]
    cases masks.beginMask.testBit i <;> rfl
  have hstop : ∀ start, stridedSliceEndForAxis (givenAxis masks i entry dim) start =
      sliceStop dim entry.stride (if masks.endMask.testBit i then none else some entry.stop) := by
    intro start
    unfold stridedSliceEndForAxis givenAxis
    dsimp only
    rw [h, if_neg Bool.false_ne_true, clamp_eq (by omega), clamp_eq (by omega)]
    cases masks.endMask.testBit i <;> rfl
  unfold axisSelection selectSlice
  rw [hstart, hstop]
  unfold givenAxis
  rw [h]
  rfl

theorem axisSelection_index (h : masks.shrinkAxisMask.testBit i) (hstride : 0 < entry.stride)
    {selection : Selection}
    (hselection : selectIndex dim (if masks.beginMask.testBit i then 0 else entry.begin) =
      some selection) : axisSelection (givenAxis masks i entry dim) = selection := by
  unfold selectIndex at hselection
  generalize hbegin : (if masks.beginMask.testBit i then 0 else entry.begin) = begin at hselection
  by_cases hrange : -(dim : Int) ≤ begin ∧ begin < dim
  · rw [if_pos hrange] at hselection
    rw [← Option.some.inj hselection]
    generalize hindex : (if begin < 0 then begin + (dim : Int) else begin) = index
    have hbounds : 0 ≤ index ∧ index < dim := by
      rw [← hindex]
      split <;> omega
    have hstart : stridedSliceStartForAxis (givenAxis masks i entry dim) = index := by
      unfold stridedSliceStartForAxis givenAxis
      dsimp only
      rw [if_pos hstride, if_pos hstride, clamp_eq (by omega)]
      cases hbit : masks.beginMask.testBit i with
      | true =>
        rw [hbit, if_pos rfl] at hbegin
        rw [if_pos rfl, ← hindex, ← hbegin]
        rfl
      | false =>
        rw [hbit, if_neg Bool.false_ne_true] at hbegin
        rw [if_neg Bool.false_ne_true, hbegin, hindex]
        omega
    have hstop : stridedSliceEndForAxis (givenAxis masks i entry dim) index = index + 1 := by
      unfold stridedSliceEndForAxis givenAxis
      dsimp only
      rw [if_pos h, if_neg (by omega)]
    have hbefore : Before (index + 1) entry.stride index := by
      unfold Before
      rw [if_neg (by omega)]
      omega
    have hafter : ¬Before (index + 1) entry.stride (index + entry.stride) := by
      unfold Before
      rw [if_neg (by omega)]
      omega
    unfold axisSelection
    rw [hstart, hstop]
    unfold givenAxis
    dsimp only
    rw [h, sliceIndices_of_before hstride.ne' hbefore,
      sliceIndices_of_not_before hstride.ne' hafter]
    rfl
  · rw [if_neg hrange] at hselection
    cases hselection

end

/-! ## All axes -/

section
variable {masks : StridedSliceMasks} {i : Nat} {entries : List SliceEntry} {shape : List Nat}

theorem consumes_subscriptsFrom (i : Nat) (entries : List SliceEntry) :
    ((subscriptsFrom masks i entries).filter Subscript.consumes).length =
      occurrences masks .given i entries.length := by
  induction entries generalizing i with
  | nil => rfl
  | cons entry entries ih =>
    unfold subscriptsFrom subscriptAt
    rw [length_cons, occurrences_succ, ← ih]
    cases masks.kindAt i with
    | ellipsis => simp [Subscript.consumes]
    | newAxis => simp [Subscript.consumes]
    | given =>
      dsimp only
      split <;> simp [filter_cons, Subscript.consumes, Nat.add_comm]

/-- The axes select what the subscripts say. -/
theorem resolveFrom_of_select {selections : List Selection}
    (hshrink : ∀ j entry, entries[j]? = some entry → masks.shrinkAxisMask.testBit (i + j) →
      0 < entry.stride)
    (h : select (subscriptsFrom masks i entries) shape = some selections) :
    ∃ axes, resolveFrom masks i entries shape = some axes ∧
      axes.map axisSelection = selections := by
  have hwhole : ∀ dims : List Nat, (dims.map wholeAxis).map axisSelection = dims.map selectAll := by
    intro dims
    rw [map_map]
    exact map_congr_left fun dim _ => axisSelection_whole dim
  induction entries generalizing i shape selections with
  | nil =>
    unfold subscriptsFrom select at h
    refine ⟨shape.map wholeAxis, rfl, ?_⟩
    rw [hwhole]
    exact Option.some.inj h
  | cons entry entries ih =>
    have hrec := @ih (i + 1)
    have hshrink' : ∀ j entry, entries[j]? = some entry →
        masks.shrinkAxisMask.testBit (i + 1 + j) → 0 < entry.stride := by
      intro j entry' hj hbit
      rw [Nat.add_assoc, Nat.add_comm 1] at hbit
      exact hshrink (j + 1) entry' hj hbit
    unfold subscriptsFrom subscriptAt at h
    unfold resolveFrom
    cases hkind : masks.kindAt i with
    | ellipsis =>
      rw [hkind] at h
      unfold select at h
      rw [consumes_subscriptsFrom] at h
      obtain ⟨selections', hselect, rfl⟩ := Option.map_eq_some_iff.1 h
      obtain ⟨axes, haxes, rfl⟩ := hrec hshrink' hselect
      refine ⟨_, by dsimp only; rw [haxes]; rfl, ?_⟩
      rw [map_append, hwhole]
    | newAxis =>
      rw [hkind] at h
      unfold select at h
      obtain ⟨selections', hselect, rfl⟩ := Option.map_eq_some_iff.1 h
      obtain ⟨axes, haxes, rfl⟩ := hrec hshrink' hselect
      refine ⟨_, by dsimp only; rw [haxes]; rfl, ?_⟩
      rw [map_cons, axisSelection_new]
    | given =>
      rw [hkind] at h
      dsimp only at h
      cases hbit : masks.shrinkAxisMask.testBit i with
      | true =>
        rw [hbit, if_pos rfl] at h
        cases shape with
        | nil =>
          unfold select at h
          cases h
        | cons dim shape =>
          unfold select at h
          obtain ⟨selection, hselection, h⟩ := Option.bind_eq_some_iff.1 h
          obtain ⟨selections', hselect, rfl⟩ := Option.map_eq_some_iff.1 h
          obtain ⟨axes, haxes, rfl⟩ := hrec hshrink' hselect
          refine ⟨_, by dsimp only; rw [haxes]; rfl, ?_⟩
          rw [map_cons, axisSelection_index hbit (hshrink 0 entry rfl hbit) hselection]
      | false =>
        rw [hbit, if_neg Bool.false_ne_true] at h
        cases shape with
        | nil =>
          unfold select at h
          cases h
        | cons dim shape =>
          unfold select at h
          obtain ⟨selections', hselect, rfl⟩ := Option.map_eq_some_iff.1 h
          obtain ⟨axes, haxes, rfl⟩ := hrec hshrink' hselect
          refine ⟨_, by dsimp only; rw [haxes]; rfl, ?_⟩
          rw [map_cons, axisSelection_slice hbit]

theorem resolveFrom_strides {axes : List SliceAxis} (hstrides : ∀ entry ∈ entries, entry.stride ≠ 0)
    (h : resolveFrom masks i entries shape = some axes) : ∀ axis ∈ axes, axis.stride ≠ 0 := by
  induction entries generalizing i shape axes with
  | nil =>
    unfold resolveFrom at h
    intro axis haxis
    rw [← Option.some.inj h] at haxis
    obtain ⟨dim, -, rfl⟩ := mem_map.1 haxis
    exact one_ne_zero
  | cons entry entries ih =>
    rw [forall_mem_cons] at hstrides
    unfold resolveFrom at h
    intro axis haxis
    split at h
    · obtain ⟨axes', haxes, rfl⟩ := Option.map_eq_some_iff.1 h
      obtain haxis | haxis := mem_append.1 haxis
      · obtain ⟨dim, -, rfl⟩ := mem_map.1 haxis
        exact one_ne_zero
      · exact ih hstrides.2 haxes axis haxis
    · obtain ⟨axes', haxes, rfl⟩ := Option.map_eq_some_iff.1 h
      obtain rfl | haxis := mem_cons.1 haxis
      · exact one_ne_zero
      · exact ih hstrides.2 haxes axis haxis
    · split at h
      · cases h
      · obtain ⟨axes', haxes, rfl⟩ := Option.map_eq_some_iff.1 h
        obtain rfl | haxis := mem_cons.1 haxis
        · exact hstrides.1
        · exact ih hstrides.2 haxes axis haxis

end

/-! ## The output shape -/

/-- The rounded quotient of the code is the number of indices. -/
theorem sliceLength_eq_tdiv {stride : Int} (h : stride ≠ 0) (start dimShape : Int) :
    (sliceLength start (start + dimShape) stride : Int) =
      if decide (dimShape < 0) != decide (stride < 0) then 0
      else if stride < 0 then (dimShape + 1).tdiv stride + 1
      else if dimShape = 0 then 0
      else (dimShape - 1).tdiv stride + 1 := by
  unfold sliceLength
  rw [add_sub_cancel_left, sub_add_cancel_left]
  by_cases hpos : 0 < stride
  · rw [if_pos hpos]
    by_cases hnegative : dimShape < 0
    · have hquotient : (dimShape + stride - 1) / stride < 1 :=
        Int.ediv_lt_of_lt_mul hpos (by omega)
      rw [if_pos (by simp [hnegative, hpos.le])]
      omega
    · rw [if_neg (by simp [hnegative, hpos.le]), if_neg (by omega)]
      split
      · rename_i hzero
        have hquotient : (dimShape + stride - 1) / stride < 1 :=
          Int.ediv_lt_of_lt_mul hpos (by omega)
        omega
      · have hshift : dimShape + stride - 1 = dimShape - 1 + stride := by ring
        have hnonneg : 0 ≤ (dimShape - 1) / stride := Int.ediv_nonneg (by omega) hpos.le
        rw [hshift, Int.add_ediv_of_dvd_right (Int.dvd_refl _), Int.ediv_self h,
          Int.tdiv_eq_ediv_of_nonneg (by omega)]
        omega
  · have hneg : stride < 0 := by omega
    rw [if_neg hpos]
    by_cases hnegative : dimShape < 0
    · have hshift : -dimShape - stride - 1 = -dimShape - 1 + -stride := by ring
      have hnonneg : 0 ≤ (-dimShape - 1) / -stride := Int.ediv_nonneg (by omega) (by omega)
      have hflip : (dimShape + 1).tdiv stride = (-dimShape - 1) / -stride := by
        rw [← Int.tdiv_eq_ediv_of_nonneg (by omega), ← Int.neg_tdiv_neg]
        congr 1
        ring
      rw [if_neg (by simp [hnegative, hneg]), if_pos hneg, hflip, hshift,
        Int.add_ediv_of_dvd_right (Int.dvd_refl _), Int.ediv_self (by omega)]
      omega
    · have hquotient : (-dimShape - stride - 1) / -stride < 1 :=
        Int.ediv_lt_of_lt_mul (by omega) (by omega)
      rw [if_pos (by simp [hnegative, hneg])]
      omega

theorem outputDim_eq (h : axis.stride ≠ 0) :
    outputDim axis = (axisSelection axis).indices.length := by
  unfold outputDim axisSelection sliceIndices
  dsimp only
  rw [length_map, length_range, ← sliceLength_eq_tdiv h, add_sub_cancel]

theorem pushOutputDims_eq (h : ∀ axis ∈ axes, axis.stride ≠ 0) (outputShape : List Int) :
    pushOutputDims axes outputShape =
      some (outputShape ++ (axes.filter fun axis => !axis.shrinkAxis).map outputDim) := by
  induction axes generalizing outputShape with
  | nil => simp [pushOutputDims]
  | cons axis axes ih =>
    rw [forall_mem_cons] at h
    unfold pushOutputDims
    rw [if_neg h.1, ih h.2]
    cases hshrink : axis.shrinkAxis <;> simp [hshrink]

/-- The shape is that of the selection. -/
theorem resizeOutputTensor_eq (hlength : axes.length ≤ 5) (h : ∀ axis ∈ axes, axis.stride ≠ 0) :
    resizeOutputTensor axes = some ((selectedShape (axes.map axisSelection)).map Nat.cast) := by
  have hmap : (axes.filter fun axis => !axis.shrinkAxis).map outputDim =
      (selectedShape (axes.map axisSelection)).map Nat.cast := by
    unfold selectedShape
    rw [filter_map, map_map, map_map]
    refine map_congr_left fun axis haxis => ?_
    exact outputDim_eq (h axis (mem_of_mem_filter haxis))
  unfold resizeOutputTensor
  rw [if_pos hlength, pushOutputDims_eq fun axis haxis => h axis (mem_reverse.1 haxis),
    nil_append, Option.map_some, filter_reverse, map_reverse, reverse_reverse,
    hmap]

/-! ## Copying -/

/-- The loop goes through the indices of the slice. -/
theorem forOffsets_eq {stop stride : Int} (hstride : stride ≠ 0) {rounds : Nat} {start : Int}
    (hrounds : sliceLength start stop stride ≤ rounds)
    (hindices : ∀ i ∈ sliceIndices start stop stride, body i = some (f i) ∧ -2147483648 ≤ i + stride ∧
      i + stride < 2147483648) :
    forOffsets stop stride body rounds start =
      some ((sliceIndices start stop stride).flatMap f) := by
  induction rounds generalizing start with
  | zero =>
    have hbefore : ¬Before stop stride start := fun h => by
      rw [sliceLength_of_before hstride h] at hrounds
      omega
    unfold forOffsets
    rw [if_neg hbefore, sliceIndices_of_not_before hstride hbefore]
    rfl
  | succ rounds ih =>
    unfold forOffsets
    split
    · rename_i hbefore
      rw [sliceIndices_of_before hstride hbefore] at hindices ⊢
      rw [sliceLength_of_before hstride hbefore] at hrounds
      rw [forall_mem_cons] at hindices
      obtain ⟨⟨hbody, hrange⟩, hrest⟩ := hindices
      rw [hbody, Option.bind_eq_bind, Option.bind_some, if_pos hrange, ih (by omega) hrest]
      rfl
    · rename_i hbefore
      rw [sliceIndices_of_not_before hstride hbefore]
      rfl

/-- No index that the loop along an axis goes through is moved out of the range of an `int`. -/
structure AxisFits (axis : SliceAxis) : Prop where
  stride : axis.stride ≠ 0
  offsets : ∀ i ∈ (axisSelection axis).indices,
    -2147483648 ≤ i + axis.stride ∧ i + axis.stride < 2147483648

theorem AxisFits.forAxis_eq (h : AxisFits axis)
    (hbody : ∀ i ∈ (axisSelection axis).indices, body i = some (f i)) :
    forAxis axis body = some ((axisSelection axis).indices.flatMap f) :=
  forOffsets_eq h.stride (sliceLength_le h.stride) fun i hi => ⟨hbody i hi, h.offsets i hi⟩

theorem axisSelection_indices_one (h : axis.stride = 1) :
    (axisSelection axis).indices =
      (List.range (stridedSliceEndForAxis axis (stridedSliceStartForAxis axis) -
        stridedSliceStartForAxis axis).toNat).map
          fun (k : Nat) => stridedSliceStartForAxis axis + k := by
  unfold axisSelection sliceIndices sliceLength
  dsimp only
  rw [h, if_pos Int.one_pos, Int.add_sub_cancel, Int.ediv_one]
  simp only [Int.mul_one]

/-- The loops copy the selected elements. -/
theorem stridedSlice_five {axis0 axis1 axis2 axis3 axis4 : SliceAxis} (h0 : AxisFits axis0)
    (h1 : AxisFits axis1) (h2 : AxisFits axis2) (h3 : AxisFits axis3) (h4 : AxisFits axis4)
    (hpad : padAxes axes = [axis0, axis1, axis2, axis3, axis4])
    (hplaces : ∀ p ∈ selectedPlaces ([axis0, axis1, axis2, axis3, axis4].map axisSelection) 0, 0 ≤ p ∧
      p < 2147483648) :
    stridedSlice axes =
      some (selectedPlaces ([axis0, axis1, axis2, axis3, axis4].map axisSelection) 0) := by
  unfold stridedSlice
  rw [hpad]
  dsimp only
  simp only [map_cons, map_nil, selectedPlaces] at hplaces ⊢
  refine h0.forAxis_eq fun offset0 hoffset0 => h1.forAxis_eq fun offset1 hoffset1 =>
    h2.forAxis_eq fun offset2 hoffset2 => h3.forAxis_eq fun offset3 hoffset3 => ?_
  have hindex : ∀ offset4 ∈ (axisSelection axis4).indices,
      int32 (offset4 + offset3 * axis4.dim + offset2 * axis3.dim * axis4.dim +
        offset1 * axis2.dim * axis3.dim * axis4.dim +
        offset0 * axis1.dim * axis2.dim * axis3.dim * axis4.dim) =
      ((((0 * axis0.dim + offset0) * axis1.dim + offset1) * axis2.dim + offset2) * axis3.dim +
        offset3) * axis4.dim + offset4 := by
    intro offset4 hoffset4
    have hplace := hplaces _ (mem_flatMap.2 ⟨offset0, hoffset0, mem_flatMap.2
      ⟨offset1, hoffset1, mem_flatMap.2 ⟨offset2, hoffset2, mem_flatMap.2
        ⟨offset3, hoffset3, mem_flatMap.2 ⟨offset4, hoffset4, mem_singleton_self _⟩⟩⟩⟩⟩)
    have hring : offset4 + offset3 * axis4.dim + offset2 * axis3.dim * axis4.dim +
        offset1 * axis2.dim * axis3.dim * axis4.dim +
        offset0 * axis1.dim * axis2.dim * axis3.dim * axis4.dim =
        ((((0 * axis0.dim + offset0) * axis1.dim + offset1) * axis2.dim + offset2) * axis3.dim +
          offset3) * axis4.dim + offset4 := by ring
    rw [hring]
    obtain ⟨n, hn⟩ := Int.eq_ofNat_of_zero_le hplace.1
    have hlt := hplace.2
    unfold axisSelection at hn hlt
    dsimp only at hn hlt
    rw [hn] at hlt ⊢
    exact int32_of_lt (by omega)
  split
  · rename_i hone
    have hindices := axisSelection_indices_one hone
    split
    · rename_i hpos
      have hstart : stridedSliceStartForAxis axis4 ∈ (axisSelection axis4).indices := by
        rw [hindices]
        exact mem_map.2 ⟨0, mem_range.2 (by omega), Int.add_zero _⟩
      rw [hindex _ hstart, hindices, flatMap_map, ← map_eq_flatMap]
      refine congrArg some (map_congr_left fun k _ => ?_)
      show _ = ((((0 * (axis0.dim : Int) + offset0) * axis1.dim + offset1) * axis2.dim + offset2) *
        axis3.dim + offset3) * axis4.dim + (stridedSliceStartForAxis axis4 + k)
      ring
    · rename_i hpos
      have hzero : (stridedSliceEndForAxis axis4 (stridedSliceStartForAxis axis4) -
          stridedSliceStartForAxis axis4).toNat = 0 := by omega
      rw [hindices, hzero]
      rfl
  · refine h4.forAxis_eq fun offset4 hoffset4 => ?_
    rw [hindex offset4 hoffset4]
    rfl

theorem padAxes_fits (h : ∀ axis ∈ axes, AxisFits axis) :
    ∀ axis ∈ padAxes axes, AxisFits axis := by
  intro axis haxis
  obtain haxis | haxis := mem_append.1 haxis
  · rw [eq_of_mem_replicate haxis]
    exact ⟨by decide, by decide⟩
  · exact h axis haxis

theorem selectedPlaces_padAxes (axes : List SliceAxis) :
    selectedPlaces ((padAxes axes).map axisSelection) 0 =
      selectedPlaces (axes.map axisSelection) 0 := by
  have hpadding : axisSelection ⟨0, 1, 1, true, true, false, 1⟩ = ⟨1, [0], true⟩ := by decide
  have hcons : ∀ selections, selectedPlaces (⟨1, [0], true⟩ :: selections) 0 =
      selectedPlaces selections 0 := by
    intro selections
    show [(0 : Int)].flatMap (fun i => selectedPlaces selections (0 * ((1 : Nat) : Int) + i)) = _
    rw [flatMap_cons, flatMap_nil, append_nil]
    rfl
  unfold padAxes
  rw [map_append, map_replicate, hpadding]
  induction 5 - axes.length with
  | zero => rfl
  | succ n ih => rw [replicate_succ, cons_append, hcons, ih]

/-- The copied elements are those of the selection. -/
theorem stridedSlice_eq (hlength : axes.length ≤ 5) (hfits : ∀ axis ∈ axes, AxisFits axis)
    (hplaces : ∀ p ∈ selectedPlaces (axes.map axisSelection) 0, 0 ≤ p ∧ p < 2147483648) :
    stridedSlice axes = some (selectedPlaces (axes.map axisSelection) 0) := by
  have hfive : (padAxes axes).length = 5 := by
    unfold padAxes
    rw [length_append, length_replicate]
    omega
  have hpadFits := padAxes_fits hfits
  rw [← selectedPlaces_padAxes] at hplaces ⊢
  generalize hpad : padAxes axes = padded at *
  match padded, hfive with
  | [axis0, axis1, axis2, axis3, axis4], _ =>
    simp only [forall_mem_cons] at hpadFits
    obtain ⟨h0, h1, h2, h3, h4, -⟩ := hpadFits
    exact stridedSlice_five h0 h1 h2 h3 h4 hpad hplaces

/-! ## The whole operation -/

theorem selectSlice_indices {start stop : Option Int} {step : Int} (hstep : step ≠ 0) :
    ∀ i ∈ (selectSlice n start stop step).indices, 0 ≤ i ∧ i < n := by
  refine mem_sliceIndices hstep ?_ ?_
  · unfold sliceStart sliceBound
    by_cases hpos : 0 < step
    · simp only [if_pos hpos]
      split <;> omega
    · simp only [if_neg hpos]
      split <;> omega
  · unfold sliceStop sliceBound
    by_cases hpos : 0 < step
    · simp only [if_pos hpos]
      split <;> omega
    · simp only [if_neg hpos]
      split <;> omega

theorem selectIndex_indices {i : Int} {selection : Selection}
    (h : selectIndex n i = some selection) :
    selection.extent = n ∧ ∀ j ∈ selection.indices, 0 ≤ j ∧ j < n := by
  unfold selectIndex at h
  split at h
  · rename_i hrange
    rw [← Option.some.inj h]
    refine ⟨rfl, fun j hj => ?_⟩
    rw [mem_singleton.1 hj]
    split <;> omega
  · cases h

theorem select_bounds {shape : List Nat} {selections : List Selection}
    (hstrides : ∀ entry ∈ entries, entry.stride ≠ 0)
    (h : select (subscriptsFrom masks i entries) shape = some selections) :
    (selections.map Selection.extent).prod = shape.prod ∧
      ∀ s ∈ selections, ∀ j ∈ s.indices, 0 ≤ j ∧ j < s.extent := by
  have hwhole : ∀ dims : List Nat, (dims.map selectAll).map Selection.extent = dims := by
    intro dims
    rw [map_map]
    exact map_id dims
  have hwholeIndices : ∀ dims : List Nat, ∀ s ∈ dims.map selectAll, ∀ j ∈ s.indices,
      0 ≤ j ∧ j < s.extent := by
    intro dims s hs
    obtain ⟨dim, -, rfl⟩ := mem_map.1 hs
    exact selectSlice_indices one_ne_zero
  induction entries generalizing i shape selections with
  | nil =>
    unfold subscriptsFrom select at h
    rw [← Option.some.inj h, hwhole]
    exact ⟨rfl, hwholeIndices shape⟩
  | cons entry entries ih =>
    rw [forall_mem_cons] at hstrides
    unfold subscriptsFrom subscriptAt at h
    cases hkind : masks.kindAt i with
    | ellipsis =>
      rw [hkind] at h
      unfold select at h
      obtain ⟨selections', hselect, rfl⟩ := Option.map_eq_some_iff.1 h
      obtain ⟨hprod, hindices⟩ := ih hstrides.2 hselect
      refine ⟨?_, forall_mem_append.2 ⟨hwholeIndices _, hindices⟩⟩
      rw [map_append, prod_append, hwhole, hprod, ← prod_append, take_append_drop]
    | newAxis =>
      rw [hkind] at h
      unfold select at h
      obtain ⟨selections', hselect, rfl⟩ := Option.map_eq_some_iff.1 h
      obtain ⟨hprod, hindices⟩ := ih hstrides.2 hselect
      refine ⟨?_, forall_mem_cons.2 ⟨by simp, hindices⟩⟩
      rw [map_cons, prod_cons, hprod, Nat.one_mul]
    | given =>
      rw [hkind] at h
      dsimp only at h
      cases shape with
      | nil => split at h <;> unfold select at h <;> cases h
      | cons dim shape =>
        split at h
        · unfold select at h
          obtain ⟨selection, hselection, h⟩ := Option.bind_eq_some_iff.1 h
          obtain ⟨selections', hselect, rfl⟩ := Option.map_eq_some_iff.1 h
          obtain ⟨hprod, hindices⟩ := ih hstrides.2 hselect
          obtain ⟨hextent, hindex⟩ := selectIndex_indices hselection
          refine ⟨?_, forall_mem_cons.2 ⟨hextent ▸ hindex, hindices⟩⟩
          rw [map_cons, prod_cons, hprod, hextent, prod_cons]
        · unfold select at h
          obtain ⟨selections', hselect, rfl⟩ := Option.map_eq_some_iff.1 h
          obtain ⟨hprod, hindices⟩ := ih hstrides.2 hselect
          refine ⟨?_, forall_mem_cons.2 ⟨selectSlice_indices hstrides.1, hindices⟩⟩
          rw [map_cons, prod_cons, hprod, prod_cons]
          rfl

theorem length_resolveFrom {shape : RuntimeShape}
    (h : resolveFrom masks i entries shape = some axes) :
    axes.length = shape.length + occurrences masks .newAxis i entries.length := by
  induction entries generalizing i shape axes with
  | nil =>
    unfold resolveFrom at h
    rw [← Option.some.inj h, length_map]
    rfl
  | cons entry entries ih =>
    unfold resolveFrom at h
    rw [length_cons, occurrences_succ]
    split at h
    · rename_i hkind
      obtain ⟨axes', haxes, rfl⟩ := Option.map_eq_some_iff.1 h
      rw [hkind, if_neg (by simp), Nat.zero_add, length_append, length_map, ih haxes,
        ← Nat.add_assoc, ← length_append, take_append_drop]
    · rename_i hkind
      obtain ⟨axes', haxes, rfl⟩ := Option.map_eq_some_iff.1 h
      rw [hkind, if_pos rfl, length_cons, ih haxes]
      omega
    · rename_i hkind
      split at h
      · cases h
      · obtain ⟨axes', haxes, rfl⟩ := Option.map_eq_some_iff.1 h
        rw [hkind, if_neg (by simp), length_cons, length_cons, ih haxes]
        omega

/-- No loop of the axes that some indexes stand for overflows. -/
def OffsetsFit (masks : StridedSliceMasks) (entries : List SliceEntry) (shape : RuntimeShape) :
    Prop :=
  ∀ axes, resolveFrom masks 0 entries shape = some axes → ∀ axis ∈ axes,
    ∀ i ∈ (axisSelection axis).indices, -2147483648 ≤ i + axis.stride ∧ i + axis.stride < 2147483648

/-- Where basic slicing is defined, the output shape and the copied elements are those of it. -/
theorem stridedSlice_slices (masks : StridedSliceMasks) (entries : List SliceEntry)
    (shape : RuntimeShape) (selections : List Selection)
    (hselect : select (subscripts masks entries) shape = some selections)
    (hmasks : MasksFit masks entries.length shape.length)
    (hrank : shape.length + numAddAxis masks entries.length ≤ 5)
    (hstrides : ∀ entry ∈ entries, entry.stride ≠ 0)
    (hshrink : ∀ i entry, entries[i]? = some entry → masks.shrinkAxisMask.testBit i →
      0 < entry.stride)
    (hsize : shape.prod ≤ 2147483648) (hoffsets : OffsetsFit masks entries shape) :
    ∃ axes, buildStridedSliceParams masks entries shape = some axes ∧
      resizeOutputTensor axes = some ((selectedShape selections).map Nat.cast) ∧
      stridedSlice axes = some (selectedPlaces selections 0) := by
  obtain ⟨axes, haxes, rfl⟩ := resolveFrom_of_select
    (fun j entry hj hbit => hshrink j entry hj (by rwa [Nat.zero_add] at hbit)) hselect
  have hnonzero := resolveFrom_strides hstrides haxes
  obtain ⟨hprod, hindices⟩ := select_bounds hstrides hselect
  have hlength : axes.length ≤ 5 := by
    rwa [length_resolveFrom haxes, ← numAddAxis_eq_occurrences]
  refine ⟨axes, buildStridedSliceParams_eq hmasks haxes, resizeOutputTensor_eq hlength hnonzero,
    stridedSlice_eq hlength (fun axis haxis => ⟨hnonzero axis haxis, hoffsets axes haxes axis haxis⟩)
      fun p hp => ?_⟩
  obtain ⟨hlow, hhigh⟩ := mem_selectedPlaces hindices 0 p hp
  rw [hprod] at hlow hhigh
  omega

/-- A matrix with the rows backwards, an ellipsis and a new axis: `x[::-1, ..., newaxis]`. -/
theorem stridedSlice_slices_backwards :
    ∃ axes, buildStridedSliceParams ⟨1, 1, 2, 4, 0⟩ [⟨0, 0, -1⟩, ⟨0, 0, 1⟩, ⟨0, 0, 1⟩] [2, 3] =
        some axes ∧
      resizeOutputTensor axes = some ((selectedShape [selectSlice 2 none none (-1), selectAll 3,
        ⟨1, [0], true⟩]).map Nat.cast) ∧
      stridedSlice axes = some (selectedPlaces [selectSlice 2 none none (-1), selectAll 3,
        ⟨1, [0], true⟩] 0) := by
  have hellipsis : ∀ i, (2 : Nat).testBit i → i = 1 := fun i h => by
    rw [Nat.testBit_two_pow (n := 1) ] at h
    exact (of_decide_eq_true h).symm
  have hnewAxis : ∀ i, (4 : Nat).testBit i → i = 2 := fun i h => by
    rw [Nat.testBit_two_pow (n := 2)] at h
    exact (of_decide_eq_true h).symm
  refine stridedSlice_slices ⟨1, 1, 2, 4, 0⟩ [⟨0, 0, -1⟩, ⟨0, 0, 1⟩, ⟨0, 0, 1⟩] [2, 3] _
    (by decide) ⟨fun i h => ?_, fun i h => ?_, fun i j hi hj => ?_, fun e h => ?_⟩ (by decide)
    (by decide) (fun i entry _ h => ?_) (by decide) fun axes haxes => ?_
  · rw [hellipsis i h]
    decide
  · rw [hnewAxis i h]
    decide
  · rw [hellipsis i hi, hellipsis j hj]
  · exact .inr (by decide)
  · rw [Nat.zero_testBit] at h
    exact absurd h Bool.false_ne_true
  · rw [← Option.some.inj haxes]
    decide

/-- The begin mask takes the first element of a shrunk axis, whatever its index. -/
theorem begin_mask_of_shrunk_axis :
    (∃ axes, buildStridedSliceParams ⟨1, 0, 0, 0, 1⟩ [⟨1, 1, 1⟩] [4] = some axes ∧
      resizeOutputTensor axes = some [] ∧ stridedSlice axes = some [0]) ∧
    (select [.index 1] [4]).map (selectedPlaces · 0) = some [1] := by
  exact ⟨⟨[⟨1, 1, 1, true, false, true, 4⟩], by decide, by decide, by decide⟩, by decide⟩

end LiteRt.Kernels
