import LiteRt.Kernels.StridedSliceLoops
import Mathlib.Algebra.BigOperators.Ring.Finset

/-!
# When a strided slice is safe

The output shape is computed from the parameters axis by axis, and the loops that copy derive their
bounds from the parameters again. What has to hold for the two to agree, and for nothing to be read
or computed out of range.
-/

namespace LiteRt.Kernels

open LiteRt.Lib List

/-! ## The output shape -/

/-- With `offset`, the end for an axis that is kept is there, and gives an `int`. -/
def SliceCall.EndRead (call : SliceCall) (idx : Nat) (axis : SliceAxis) : Prop :=
  call.offset → axis.shrinkAxis = false → ∃ dimShape, call.stop[idx]? = some dimShape ∧
    sliceLength 0 dimShape axis.stride < 2147483648

/-- The ends from the last axis to the first, or to one of stride zero. -/
def SliceCall.EndsRead (call : SliceCall) : List SliceAxis → Prop
  | [] => True
  | axis :: axes => axis.stride ≠ 0 → call.EndRead axes.length axis ∧ call.EndsRead axes

def SliceCall.axisDims (call : SliceCall) (idx : Nat) (axis : SliceAxis) : List Nat :=
  if axis.shrinkAxis then []
  else if call.offset then [sliceLength 0 ((call.stop[idx]?).getD 0) axis.stride]
  else [(axisSelection axis).indices.length]

/-- The extents from the last axis to the first. -/
def SliceCall.outputDims (call : SliceCall) : List SliceAxis → List Nat
  | [] => []
  | axis :: axes => call.axisDims axes.length axis ++ call.outputDims axes

def SliceCall.outputShape (call : SliceCall) (axes : List SliceAxis) : List Nat :=
  (call.outputDims axes.reverse).reverse

section
variable {call : SliceCall} {axis : SliceAxis} {axes : List SliceAxis} {outputShape : List Int}

theorem offsetDim_eq {stride : Int} (h : stride ≠ 0) (dimShape : Int) :
    offsetDim dimShape stride = checkedInt (sliceLength 0 dimShape stride) := by
  have hlength := sliceLength_eq_tdiv h 0 dimShape
  rw [Int.zero_add] at hlength
  rw [hlength]
  unfold offsetDim add32
  split
  · rfl
  · split
    · rfl
    · split <;> rfl

theorem pushOutputDims_cons (hstride : axis.stride ≠ 0) (hend : call.EndRead axes.length axis) :
    call.pushOutputDims (axis :: axes) outputShape =
      call.pushOutputDims axes (outputShape ++ (call.axisDims axes.length axis).map Nat.cast) := by
  conv_lhs => unfold SliceCall.pushOutputDims
  unfold SliceCall.axisDims
  rw [if_neg hstride]
  cases hshrink : axis.shrinkAxis with
  | true => simp
  | false =>
    cases hoffset : call.offset with
    | false => simp [outputDim_eq hstride]
    | true =>
      obtain ⟨dimShape, hget, hlt⟩ := hend hoffset hshrink
      have hdim : offsetDim dimShape axis.stride = some (sliceLength 0 dimShape axis.stride : Int) := by
        rw [offsetDim_eq hstride, checkedInt_eq_some]
        exact ⟨by omega, rfl⟩
      simp [hget, hdim]

theorem pushOutputDims_undefined (hstride : axis.stride ≠ 0)
    (hend : ¬call.EndRead axes.length axis) :
    call.pushOutputDims (axis :: axes) outputShape = .error .undefined := by
  unfold SliceCall.EndRead at hend
  simp only [not_forall, not_exists, not_and] at hend
  obtain ⟨hoffset, hshrink, hend⟩ := hend
  unfold SliceCall.pushOutputDims
  rw [if_neg hstride, hshrink, if_neg Bool.false_ne_true, if_pos hoffset]
  cases hget : call.stop[axes.length]? with
  | none => rfl
  | some dimShape =>
    have hnone : checkedInt (sliceLength 0 dimShape axis.stride) = none := by
      rw [← Option.not_isSome_iff_eq_none, checkedInt_isSome]
      have hlarge := hend dimShape hget
      omega
    rw [Option.bind_some, offsetDim_eq hstride, hnone]

theorem pushOutputDims_ok (hends : call.EndsRead axes) (hstrides : ∀ axis ∈ axes, axis.stride ≠ 0) :
    call.pushOutputDims axes outputShape =
      .ok (outputShape ++ (call.outputDims axes).map Nat.cast) := by
  induction axes generalizing outputShape with
  | nil =>
    unfold SliceCall.pushOutputDims SliceCall.outputDims
    rw [map_nil, append_nil]
    rfl
  | cons axis axes ih =>
    rw [forall_mem_cons] at hstrides
    obtain ⟨hend, hends⟩ := hends hstrides.1
    rw [pushOutputDims_cons hstrides.1 hend, ih hends hstrides.2, append_assoc, ← map_append]
    rfl

theorem pushOutputDims_rejected (hends : call.EndsRead axes)
    (hstrides : ¬∀ axis ∈ axes, axis.stride ≠ 0) :
    call.pushOutputDims axes outputShape = .error .rejected := by
  induction axes generalizing outputShape with
  | nil => exact absurd (fun axis haxis => absurd haxis not_mem_nil) hstrides
  | cons axis axes ih =>
    by_cases hstride : axis.stride = 0
    · unfold SliceCall.pushOutputDims
      rw [if_pos hstride]
    · obtain ⟨hend, hends⟩ := hends hstride
      rw [pushOutputDims_cons hstride hend]
      exact ih hends fun h => hstrides (forall_mem_cons.2 ⟨hstride, h⟩)

theorem pushOutputDims_not_read (hends : ¬call.EndsRead axes) :
    call.pushOutputDims axes outputShape = .error .undefined := by
  induction axes generalizing outputShape with
  | nil => exact absurd trivial hends
  | cons axis axes ih =>
    unfold SliceCall.EndsRead at hends
    rw [Classical.not_imp, not_and] at hends
    obtain ⟨hstride, hends⟩ := hends
    by_cases hend : call.EndRead axes.length axis
    · rw [pushOutputDims_cons hstride hend]
      exact ih (hends hend)
    · exact pushOutputDims_undefined hstride hend

theorem resizeOutputTensor_ok (hends : call.EndsRead axes.reverse)
    (hstrides : ∀ axis ∈ axes, axis.stride ≠ 0) :
    call.resizeOutputTensor axes = .ok ((call.outputShape axes).map Nat.cast) := by
  unfold SliceCall.resizeOutputTensor SliceCall.outputShape
  rw [pushOutputDims_ok hends fun axis haxis => hstrides axis (mem_reverse.1 haxis),
    nil_append, map_reverse]
  rfl

theorem resizeOutputTensor_rejected (hends : call.EndsRead axes.reverse)
    (hstrides : ¬∀ axis ∈ axes, axis.stride ≠ 0) :
    call.resizeOutputTensor axes = .error .rejected := by
  unfold SliceCall.resizeOutputTensor
  rw [pushOutputDims_rejected hends fun h =>
    hstrides fun axis haxis => h axis (mem_reverse.2 haxis)]
  rfl

theorem resizeOutputTensor_not_read (hends : ¬call.EndsRead axes.reverse) :
    call.resizeOutputTensor axes = .error .undefined := by
  unfold SliceCall.resizeOutputTensor
  rw [pushOutputDims_not_read hends]
  rfl

end

/-! ## As many elements as the output has -/

/-- The loops and the output shape agree on the number of elements. Without `offset` they differ
where an axis is shrunk: the loop along it has its one round only for a positive stride and a start
in the axis. -/
def SliceCall.CountsAgree (call : SliceCall) (sized axes : List SliceAxis) : Prop :=
  if call.offset then
    ((axes.map (movedAxis true)).map fun axis => (axisSelection axis).indices.length).prod =
      (call.outputShape sized).prod
  else
    (∀ axis ∈ axes, axis.shrinkAxis → 0 < axis.stride ∧ stridedSliceStartForAxis axis < axis.dim) ∨
      ∃ axis ∈ axes, axis.shrinkAxis = false ∧ (axisSelection axis).indices = []

section
variable {call : SliceCall} {axis : SliceAxis} {axes : List SliceAxis}

theorem map_movedAxis_false : axes.map (movedAxis false) = axes := map_id axes

/-- The loop along an axis that is shrunk has one round at most. -/
theorem length_of_shrinkAxis (hshrink : axis.shrinkAxis) (hstride : axis.stride ≠ 0) :
    (axisSelection axis).indices.length =
      if 0 < axis.stride ∧ stridedSliceStartForAxis axis < axis.dim then 1 else 0 := by
  have hstart := @start_bounds axis
  unfold axisSelection sliceIndices stridedSliceEndForAxis
  dsimp only
  rw [length_map, length_range, if_pos hshrink]
  generalize stridedSliceStartForAxis axis = start at hstart ⊢
  by_cases hpos : 0 < axis.stride
  · by_cases hlt : start < axis.dim
    · have hbefore : Before (start + 1) axis.stride start := by
        unfold Before
        rw [if_neg (by omega)]
        omega
      have hafter : ¬Before (start + 1) axis.stride (start + axis.stride) := by
        unfold Before
        rw [if_neg (by omega)]
        omega
      rw [if_neg (by omega), if_pos ⟨hpos, hlt⟩, sliceLength_of_before hstride hbefore,
        sliceLength_of_not_before hstride hafter]
    · have hafter : ¬Before start axis.stride start := by
        unfold Before
        rw [if_neg (by omega)]
        omega
      rw [if_pos (by omega), if_neg (fun h => hlt h.2), sliceLength_of_not_before hstride hafter]
  · rw [if_neg hpos] at hstart
    have hafter : ¬Before (start + 1) axis.stride start := by
      unfold Before
      rw [if_pos (by omega)]
      omega
    rw [if_neg (by omega), if_neg (fun h => hpos h.1), sliceLength_of_not_before hstride hafter]

/-- Without `offset`, an axis that is shrunk counts once. -/
theorem prod_outputShape (hoffset : call.offset = false) : (call.outputShape axes).prod =
    (axes.map fun axis =>
      if axis.shrinkAxis then 1 else (axisSelection axis).indices.length).prod := by
  have hdims : ∀ l : List SliceAxis, (call.outputDims l).prod = (l.map fun axis =>
      if axis.shrinkAxis then 1 else (axisSelection axis).indices.length).prod := by
    intro l
    induction l with
    | nil => rfl
    | cons axis l ih =>
      show (call.axisDims l.length axis ++ call.outputDims l).prod = _
      rw [prod_append, ih, map_cons, prod_cons]
      unfold SliceCall.axisDims
      rw [hoffset, if_neg Bool.false_ne_true]
      cases axis.shrinkAxis <;> simp
  unfold SliceCall.outputShape
  rw [prod_reverse, hdims, map_reverse, prod_reverse]

theorem countsAgree_iff {sized : List SliceAxis} (hstrides : ∀ axis ∈ axes, axis.stride ≠ 0)
    (hsized : call.offset = false → sized = axes) :
    call.CountsAgree sized axes ↔ ((axes.map (movedAxis call.offset)).map fun axis =>
        (axisSelection axis).indices.length).prod = (call.outputShape sized).prod := by
  unfold SliceCall.CountsAgree
  cases hoffset : call.offset with
  | true => rw [if_pos rfl]
  | false =>
    rw [if_neg Bool.false_ne_true, map_movedAxis_false, hsized hoffset, prod_outputShape hoffset]
    by_cases hempty : ∃ axis ∈ axes, axis.shrinkAxis = false ∧ (axisSelection axis).indices = []
    · refine iff_of_true (.inr hempty) ?_
      obtain ⟨axis, haxis, hkept, hindices⟩ := hempty
      rw [prod_eq_zero_iff.2 (mem_map.2 ⟨axis, haxis, by rw [hindices]; rfl⟩),
        prod_eq_zero_iff.2 (mem_map.2 ⟨axis, haxis, by
          rw [if_neg (by rw [hkept]; exact Bool.false_ne_true), hindices]; rfl⟩)]
    · rw [or_iff_left hempty]
      constructor
      · intro h
        refine congrArg List.prod (map_congr_left fun axis haxis => ?_)
        split
        · next hshrink =>
          rw [length_of_shrinkAxis hshrink (hstrides axis haxis), if_pos (h axis haxis hshrink)]
        · rfl
      · intro h axis haxis hshrink
        by_contra hout
        -- no element is copied, although the output has some
        have hzero : (axisSelection axis).indices.length = 0 := by
          rw [length_of_shrinkAxis hshrink (hstrides axis haxis), if_neg hout]
        rw [prod_eq_zero_iff.2 (mem_map.2 ⟨axis, haxis, hzero⟩), eq_comm, prod_eq_zero_iff] at h
        obtain ⟨kept, hkept, hcount⟩ := mem_map.1 h
        split at hcount
        · cases hcount
        · next hnot =>
          exact hempty ⟨kept, hkept, Bool.eq_false_of_not_eq_true hnot, length_eq_zero_iff.1 hcount⟩

end

/-! ## Safety -/

/-- The copy overflows nothing, reads nothing of an input without elements, and copies as many
elements as the output has. -/
structure SliceCall.CopySafe (call : SliceCall) (sized axes : List SliceAxis) : Prop where
  stops : ∀ axis ∈ axes, StopAdds call.offset axis
  counters : CountersFit (axes.map (movedAxis call.offset))
  places : PlacesFit (padAxes (axes.map (movedAxis call.offset)))
  input : (∀ axis ∈ axes.map (movedAxis call.offset), (axisSelection axis).indices ≠ []) →
    0 < call.inputShape.prod
  counts : call.CountsAgree sized axes

/-- What the operation does not check: the length of the arrays, and the arithmetic on what they
contain. A condition comes after the checks that the operation has made by then. -/
def SliceCall.SafeWhen (call : SliceCall) (resizeTensor : List Int → Bool) : Prop :=
  call.begin.length = call.stop.length → call.inputShape.length ≤ 5 →
    call.begin.length ≤ 32 ∧ (call.effectiveDims ≤ 5 →
      call.ArraysFit (!call.offset) ∧ ∀ sized, call.axes (!call.offset) = some sized →
        call.EndsRead sized.reverse ∧ ((∀ axis ∈ sized, axis.stride ≠ 0) →
          resizeTensor ((call.outputShape sized).map Nat.cast) →
            call.ArraysFit true ∧ ∀ axes, call.axes true = some axes → call.CopySafe sized axes))

section
variable {call : SliceCall} {resizeTensor : List Int → Bool} {axes sized : List SliceAxis}

theorem safeResult_rejected : call.SafeResult (.error .rejected) := .inl rfl

theorem not_safeResult_undefined : ¬call.SafeResult (.error .undefined) := by
  rintro (h | ⟨outputShape, places, h, -⟩) <;> cases h

theorem safeResult_ok {outputShape places : List Int} :
    call.SafeResult (.ok (outputShape, places)) ↔
      (∀ p ∈ places, 0 ≤ p ∧ p < (call.inputShape.prod : Nat)) ∧
      (places.length : Int) = outputShape.prod := by
  constructor
  · rintro (h | ⟨outputShape', places', h, hsafe⟩)
    · cases h
    · cases h
      exact hsafe
  · exact fun hsafe => .inr ⟨outputShape, places, rfl, hsafe⟩

theorem moved_bounds {offset : Bool} (hstrides : ∀ axis ∈ axes, axis.stride ≠ 0) :
    ∀ s ∈ (axes.map (movedAxis offset)).map axisSelection, ∀ i ∈ s.indices,
      0 ≤ i ∧ i < s.extent := by
  rw [map_map, forall_mem_map]
  intro axis haxis
  exact axisSelection_bounds (by rw [movedAxis_stride]; exact hstrides axis haxis)

/-- The copied elements are ones of the input, unless it has none. -/
theorem selectedPlaces_input (haxes : call.axes true = some axes)
    (hstrides : ∀ axis ∈ axes, axis.stride ≠ 0) :
    (∀ p ∈ selectedPlaces ((axes.map (movedAxis call.offset)).map axisSelection) 0,
      0 ≤ p ∧ p < (call.inputShape.prod : Nat)) ↔
    ((∀ axis ∈ axes.map (movedAxis call.offset), (axisSelection axis).indices ≠ []) →
      0 < call.inputShape.prod) := by
  have hnonempty : selectedPlaces ((axes.map (movedAxis call.offset)).map axisSelection) 0 ≠ [] ↔
      ∀ axis ∈ axes.map (movedAxis call.offset), (axisSelection axis).indices ≠ [] := by
    rw [ne_eq, selectedPlaces_eq_nil_iff]
    simp only [not_exists, not_and, forall_mem_map, ne_eq]
  obtain ⟨n, hprod, -⟩ := axesFrom_dims (Nat.le_refl 0) haxes
  have hextents : ((((axes.map (movedAxis call.offset)).map axisSelection).map
      Selection.extent).prod) = (call.inputShape.take n).prod := by
    refine Eq.trans ?_ hprod
    rw [map_map, map_map]
    exact congrArg List.prod (map_congr_left fun axis _ => movedAxis_dim)
  have hsplit : (call.inputShape.take n).prod * (call.inputShape.drop n).prod =
      call.inputShape.prod := by
    rw [← prod_append, take_append_drop]
  rw [← hnonempty]
  constructor
  · intro h hplaces
    obtain ⟨p, hp⟩ := exists_mem_of_ne_nil _ hplaces
    have hbounds := h p hp
    omega
  · intro h p hp
    have hpositive := h (ne_nil_of_mem hp)
    obtain ⟨hlow, hhigh⟩ := mem_selectedPlaces (moved_bounds hstrides) 0 p hp
    rw [hextents] at hlow hhigh
    have hle : (call.inputShape.take n).prod ≤ call.inputShape.prod := by
      rw [← hsplit] at hpositive ⊢
      exact Nat.le_mul_of_pos_right _ (Nat.pos_of_mul_pos_left hpositive)
    omega

theorem axes_strides (hsized : call.axes (!call.offset) = some sized)
    (haxes : call.axes true = some axes) (hstrides : ∀ axis ∈ sized, axis.stride ≠ 0) :
    ∀ axis ∈ axes, axis.stride ≠ 0 := by
  have hmap := axesFrom_strides haxes hsized
  intro axis haxis
  obtain ⟨axis', haxis', heq⟩ := mem_map.1 (hmap ▸ mem_map_of_mem haxis)
  rw [← heq]
  exact hstrides axis' haxis'

theorem axes_dims (haxes : call.axes true = some axes) : ∀ axis ∈ axes, axis.dim < 2147483648 := by
  obtain ⟨-, -, hdims⟩ := axesFrom_dims (Nat.le_refl 0) haxes
  intro axis haxis
  obtain hone | hmem := hdims axis haxis
  · rw [hone]
    decide
  · exact call.dims_lt axis.dim hmem

theorem evalImpl_safe_iff (heffective : call.effectiveDims ≤ 5)
    (hsized : call.axes (!call.offset) = some sized) (hstrides : ∀ axis ∈ sized, axis.stride ≠ 0) :
    call.SafeResult (call.evalImpl ((call.outputShape sized).map Nat.cast)) ↔
      call.ArraysFit true ∧ ∀ axes, call.axes true = some axes → call.CopySafe sized axes := by
  have hfit := @axes_isSome call true
  unfold SliceCall.evalImpl
  cases haxes : call.axes true with
  | none =>
    rw [haxes] at hfit
    exact iff_of_false not_safeResult_undefined fun h => Bool.false_ne_true (hfit.2 h.1)
  | some axes =>
    rw [haxes] at hfit
    have hnonzero := axes_strides hsized haxes hstrides
    have hcopy := fun places => @copy_eq_some axes call places
      (by rw [length_axes haxes]; exact heffective) hnonzero (axes_dims haxes)
    have hsame : call.offset = false → sized = axes := fun hoffset => by
      rw [hoffset, Bool.not_false, haxes] at hsized
      exact (Option.some.inj hsized).symm
    rw [and_iff_right (hfit.1 rfl), Option.bind_some]
    cases hresult : call.copy axes with
    | none =>
      refine iff_of_false not_safeResult_undefined fun h => ?_
      have hsafe := h axes rfl
      rw [(hcopy _).2 ⟨hsafe.stops, hsafe.counters, hsafe.places, rfl⟩] at hresult
      cases hresult
    | some places =>
      obtain ⟨hstops, hcounters, hplaces, rfl⟩ := (hcopy places).1 hresult
      have hcast : ((call.outputShape sized).map (Nat.cast : Nat → Int)).prod =
          ((call.outputShape sized).prod : Nat) := (Nat.cast_list_prod _).symm
      have hcounts := countsAgree_iff hnonzero hsame
      refine safeResult_ok.trans ?_
      rw [selectedPlaces_input haxes hnonzero, length_selectedPlaces, map_map, hcast, Nat.cast_inj]
      constructor
      · rintro ⟨hinput, hlength⟩ axes' heq
        rw [← Option.some.inj heq]
        exact ⟨hstops, hcounters, hplaces, hinput, hcounts.2 hlength⟩
      · intro h
        exact ⟨(h axes rfl).input, hcounts.1 (h axes rfl).counts⟩

theorem resizeAndEval_safe_iff {resizeTensor : List Int → Bool}
    (heffective : call.effectiveDims ≤ 5) (hsized : call.axes (!call.offset) = some sized) :
    call.SafeResult (call.resizeAndEval resizeTensor sized) ↔ call.EndsRead sized.reverse ∧
      ((∀ axis ∈ sized, axis.stride ≠ 0) → resizeTensor ((call.outputShape sized).map Nat.cast) →
        call.ArraysFit true ∧ ∀ axes, call.axes true = some axes → call.CopySafe sized axes) := by
  unfold SliceCall.resizeAndEval
  by_cases hends : call.EndsRead sized.reverse
  · rw [and_iff_right hends]
    by_cases hstrides : ∀ axis ∈ sized, axis.stride ≠ 0
    · rw [resizeOutputTensor_ok hends hstrides, forall_prop_of_true hstrides]
      show call.SafeResult (if resizeTensor ((call.outputShape sized).map Nat.cast) then _
        else .error .rejected) ↔ _
      by_cases hresize : resizeTensor ((call.outputShape sized).map Nat.cast)
      · rw [if_pos hresize, forall_prop_of_true hresize]
        exact evalImpl_safe_iff heffective hsized hstrides
      · rw [if_neg hresize]
        exact iff_of_true safeResult_rejected fun h => absurd h hresize
    · rw [resizeOutputTensor_rejected hends hstrides]
      exact iff_of_true safeResult_rejected fun h => absurd h hstrides
  · rw [resizeOutputTensor_not_read hends]
    exact iff_of_false not_safeResult_undefined fun h => hends h.1

-- an index behind the axis: one element in the output, none copied
example : (SliceCall.mk ⟨0, 0, 0, 0, 1⟩ false [2] [3] [1] [2] (by decide)).run (fun _ => true) =
    .ok ([], []) := by decide

-- an offset before the start: no element in the output, two copied
example : (SliceCall.mk ⟨0, 0, 0, 0, 0⟩ true [0] [-1] [1] [3] (by decide)).run (fun _ => true) =
    .ok ([0], [0, 1]) := by decide

-- a stride that moves the counter past the last `int`
example : (SliceCall.mk ⟨0, 0, 0, 0, 0⟩ false [1] [2] [2147483647] [2] (by decide)).run
    (fun _ => true) = .error .undefined := by decide

end

/-! ## The operation on entries -/

section
variable {call : SliceCall} {axes : List SliceAxis} {entries : List SliceEntry}

end

end LiteRt.Kernels
