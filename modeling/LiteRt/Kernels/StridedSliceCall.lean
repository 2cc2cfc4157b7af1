import LiteRt.Kernels.StridedSliceCopy
import LiteRt.Lib.Loops

/-!
# Strided slice on any inputs

The tensors `begin`, `end` and `strides` need not have an entry for each axis, the masks need not
fit them, and with `offset` an end is taken from the start. What the code does not check is read
past the end of an array, or overflows.
-/

namespace LiteRt.Kernels

open LiteRt.Lib List

/-- The inputs of the operation. -/
structure SliceCall where
  masks : StridedSliceMasks
  offset : Bool
  begin : List Int
  stop : List Int
  strides : List Int
  inputShape : RuntimeShape
  dims_lt : ∀ dim ∈ inputShape, dim < 2147483648

/-- The operation returns an error, or does what has no defined result. -/
inductive SliceFailure where
  | rejected
  | undefined
  deriving DecidableEq, Repr

/-! ## Parameters -/

def SliceCall.effectiveDims (call : SliceCall) : Nat :=
  call.inputShape.length + numAddAxis call.masks call.begin.length

/-- The effective masks, and where the ellipsis starts. -/
def SliceCall.maskState (call : SliceCall) : MaskState :=
  expandMasks call.masks call.begin.length call.inputShape.length call.effectiveDims
    call.effectiveDims ⟨0, [], call.effectiveDims, 0⟩

/-- The entries of the three arrays at an index. -/
def SliceCall.entryAt (call : SliceCall) (startAndEndIndices : Bool) (i : Nat) :
    Option SliceEntry := do
  let start ← (if startAndEndIndices then call.begin[i]? else some 0)
  let stop ← (if startAndEndIndices then call.stop[i]? else some 0)
  let stride ← call.strides[i]?
  some ⟨start, stop, stride⟩

/-- An effective axis; `none` if an array ends before. -/
def SliceCall.axisAt (call : SliceCall) (startAndEndIndices : Bool) (kind : EffectiveKind)
    (i addedEllipsis addedAxises : Nat) : Option SliceAxis :=
  match kind with
  | .ellipsis => (call.inputShape[i - addedAxises]?).map wholeAxis
  | .newAxis => some newAxis
  | .given =>
    if call.begin.length + call.maskState.expandedEllipsis ≤ i then
      (call.inputShape[i - addedAxises]?).map wholeAxis
    else do
      let entry ← call.entryAt startAndEndIndices (i - addedEllipsis)
      let dim ← call.inputShape[i - addedAxises]?
      some (givenAxis call.masks (i - addedEllipsis) entry dim)

/-- The loop over the effective axes. -/
def SliceCall.axesFrom (call : SliceCall) (startAndEndIndices : Bool) :
    List EffectiveKind → Nat → Nat → Nat → Option (List SliceAxis)
  | [], _, _, _ => some []
  | kind :: kinds, i, addedEllipsis, addedAxises => do
    let addedEllipsis :=
      if kind = .ellipsis then i - call.maskState.ellipsisStartIdx else addedEllipsis
    let axis ← call.axisAt startAndEndIndices kind i addedEllipsis addedAxises
    let axes ← call.axesFrom startAndEndIndices kinds (i + 1) addedEllipsis
      (if kind = .newAxis then addedAxises + 1 else addedAxises)
    some (axis :: axes)

/-- `BuildStridedSliceParams`, for at most five axes. -/
def SliceCall.axes (call : SliceCall) (startAndEndIndices : Bool) : Option (List SliceAxis) :=
  call.axesFrom startAndEndIndices call.maskState.kinds 0 0 0

/-! ## The output shape -/

/-- The extent along an axis, from the end relative to the start; `none` if it is no `int`. -/
def offsetDim (dimShape stride : Int) : Option Int :=
  if decide (dimShape < 0) != decide (stride < 0) then some 0
  else if stride < 0 then add32 ((dimShape + 1).tdiv stride) 1
  else if dimShape = 0 then some 0
  else add32 ((dimShape - 1).tdiv stride) 1

/-- The loop from the last axis to the first. With `offset` the ends are those of the effective
axes. -/
def SliceCall.pushOutputDims (call : SliceCall) :
    List SliceAxis → List Int → Except SliceFailure (List Int)
  | [], outputShape => pure outputShape
  | axis :: axes, outputShape =>
    if axis.stride = 0 then .error .rejected
    else if axis.shrinkAxis then call.pushOutputDims axes outputShape
    else if call.offset then
      match (call.stop[axes.length]?).bind (offsetDim · axis.stride) with
      | none => .error .undefined
      | some dimShape => call.pushOutputDims axes (outputShape ++ [dimShape])
    else call.pushOutputDims axes (outputShape ++ [outputDim axis])

def SliceCall.resizeOutputTensor (call : SliceCall) (axes : List SliceAxis) :
    Except SliceFailure (List Int) :=
  (call.pushOutputDims axes.reverse []).map List.reverse

/-! ## Copying -/

/-- With `offset` the end of an axis that is kept is added to its start. -/
def moveStop (offset : Bool) (axis : SliceAxis) : Option SliceAxis :=
  if offset && !axis.shrinkAxis then do
    let stop ← add32 axis.stopIndex (stridedSliceStartForAxis axis)
    some { axis with stopIndex := stop }
  else some axis

def placeIndex (dim1 dim2 dim3 dim4 : Nat) (offset0 offset1 offset2 offset3 offset4 : Int) :
    Option Int := do
  let product3 ← mul32 offset3 dim4
  let product2 ← (mul32 offset2 dim3).bind (mul32 · dim4)
  let product1 ← ((mul32 offset1 dim2).bind (mul32 · dim3)).bind (mul32 · dim4)
  let product0 ← (((mul32 offset0 dim1).bind (mul32 · dim2)).bind (mul32 · dim3)).bind (mul32 · dim4)
  let index ← add32 offset4 product3
  let index ← add32 index product2
  let index ← add32 index product1
  add32 index product0

/-- The innermost loop, with the place of an element. For a stride of one the elements are copied
from the place of the first. -/
def copyRow (axis4 : SliceAxis) (index : Int → Option Int) : Option (List Int) :=
  if axis4.stride = 1 then do
    let start4 := stridedSliceStartForAxis axis4
    let len := stridedSliceEndForAxis axis4 start4 - start4
    let first ← index start4
    some (if 0 < len then (List.range len.toNat).map fun (i : Nat) => first + i else [])
  else forAxis axis4 fun offset4 => (index offset4).map fun place => [place]

/-- The loops over the five axes. -/
def copyElements : List SliceAxis → Option (List Int)
  | [axis0, axis1, axis2, axis3, axis4] =>
    forAxis axis0 fun offset0 => forAxis axis1 fun offset1 => forAxis axis2 fun offset2 =>
      forAxis axis3 fun offset3 =>
        copyRow axis4
          (placeIndex axis1.dim axis2.dim axis3.dim axis4.dim offset0 offset1 offset2 offset3)
  | _ => none

def SliceCall.copy (call : SliceCall) (axes : List SliceAxis) : Option (List Int) := do
  let axes ← (padAxes axes).mapM (moveStop call.offset)
  copyElements axes

/-- `EvalImpl`, with the output shape and the places of the input that are copied. -/
def SliceCall.evalImpl (call : SliceCall) (outputShape : List Int) :
    Except SliceFailure (List Int × List Int) :=
  match (call.axes true).bind call.copy with
  | none => .error .undefined
  | some places => pure (outputShape, places)

/-- The output is resized for the axes, and the elements are copied. Whether the output can be
resized is up to `resizeTensor`. -/
def SliceCall.resizeAndEval (call : SliceCall) (resizeTensor : List Int → Bool)
    (axes : List SliceAxis) : Except SliceFailure (List Int × List Int) := do
  let outputShape ← call.resizeOutputTensor axes
  if resizeTensor outputShape then call.evalImpl outputShape
  else .error .rejected

/-- The operation. -/
def SliceCall.run (call : SliceCall) (resizeTensor : List Int → Bool) :
    Except SliceFailure (List Int × List Int) :=
  if call.begin.length ≠ call.stop.length ∨ 5 < call.inputShape.length then .error .rejected
  -- a mask has no bit for an index past the last of an `int`
  else if 32 < call.begin.length then .error .undefined
  -- by then the parameters of these axes have been stored behind the arrays
  else if 5 < call.effectiveDims then .error .rejected
  else
    match call.axes (!call.offset) with
    | none => .error .undefined
    | some axes => call.resizeAndEval resizeTensor axes

/-- The places that are copied lie in the input and fill the output, unless the operation returned
an error. -/
def SliceCall.SafeResult (call : SliceCall)
    (result : Except SliceFailure (List Int × List Int)) : Prop :=
  result = .error .rejected ∨ ∃ outputShape places, result = .ok (outputShape, places) ∧
    (∀ p ∈ places, 0 ≤ p ∧ p < (call.inputShape.prod : Nat)) ∧
    (places.length : Int) = outputShape.prod

def SliceCall.Safe (call : SliceCall) (resizeTensor : List Int → Bool) : Prop :=
  call.SafeResult (call.run resizeTensor)

/-! ## The loop along an axis -/

section
variable {stop stride start : Int} {body : Int → Option (List Int)} {rounds : Nat}
  {written : List Int} {axis : SliceAxis}

/-- A loop that ends has gone through all its indices. -/
theorem forOffsets_some (hstride : stride ≠ 0) (hrounds : sliceLength start stop stride ≤ rounds)
    (h : forOffsets stop stride body rounds start = some written) :
    ∀ i ∈ sliceIndices start stop stride, (body i).isSome ∧
      -2147483648 ≤ i + stride ∧ i + stride < 2147483648 := by
  induction rounds generalizing start written with
  | zero =>
    have hbefore : ¬Before stop stride start := fun h => by
      rw [sliceLength_of_before hstride h] at hrounds
      omega
    rw [sliceIndices_of_not_before hstride hbefore]
    exact fun i hi => absurd hi not_mem_nil
  | succ rounds ih =>
    unfold forOffsets at h
    split at h
    · next hbefore =>
      rw [Option.bind_eq_bind, Option.bind_eq_some_iff] at h
      obtain ⟨w, hbody, h⟩ := h
      split at h
      · next hrange =>
        rw [Option.bind_eq_some_iff] at h
        obtain ⟨rest, hrest, -⟩ := h
        rw [sliceLength_of_before hstride hbefore] at hrounds
        rw [sliceIndices_of_before hstride hbefore, forall_mem_cons]
        exact ⟨⟨by rw [hbody]; rfl, hrange⟩, ih (by omega) hrest⟩
      · cases h
    · next hbefore =>
      rw [sliceIndices_of_not_before hstride hbefore]
      exact fun i hi => absurd hi not_mem_nil

/-- A loop along an axis ends when its rounds do and no counter overflows. -/
theorem forAxis_eq_some (hstride : axis.stride ≠ 0) : forAxis axis body = some written ↔
    (∀ i ∈ (axisSelection axis).indices, (body i).isSome ∧
      -2147483648 ≤ i + axis.stride ∧ i + axis.stride < 2147483648) ∧
    written = (axisSelection axis).indices.flatMap fun i => (body i).getD [] := by
  have heq : (∀ i ∈ (axisSelection axis).indices, (body i).isSome ∧
      -2147483648 ≤ i + axis.stride ∧ i + axis.stride < 2147483648) →
      forAxis axis body = some ((axisSelection axis).indices.flatMap fun i => (body i).getD []) := by
    intro h
    refine forOffsets_eq hstride (sliceLength_le hstride) fun i hi => ⟨?_, (h i hi).2⟩
    obtain ⟨w, hw⟩ := Option.isSome_iff_exists.1 (h i hi).1
    rw [hw]
    rfl
  constructor
  · intro h
    have hall := forOffsets_some hstride (sliceLength_le hstride) h
    refine ⟨hall, ?_⟩
    rw [heq hall] at h
    exact (Option.some.inj h).symm
  · rintro ⟨hall, rfl⟩
    exact heq hall

end

/-!
## The parameters of a strided slice

When the arrays are long enough for the effective axes, and what the axes have of the input. On
arrays with one entry for each index these are the axes that `buildAxes` computes.
-/

/-! ### Arrays that are long enough -/

/-- The arrays have an entry at an index, as far as it is read. -/
structure SliceCall.IndexFits (call : SliceCall) (startAndEndIndices : Bool) (i : Nat) : Prop where
  begin : startAndEndIndices → i < call.begin.length
  stop : startAndEndIndices → i < call.stop.length
  strides : i < call.strides.length

/-- The arrays and the input shape have what the effective axes from the `i`-th on are read from. -/
def SliceCall.ArraysFitFrom (call : SliceCall) (startAndEndIndices : Bool) :
    List EffectiveKind → Nat → Nat → Nat → Prop
  | [], _, _, _ => True
  | kind :: kinds, i, addedEllipsis, addedAxises =>
    (kind ≠ .newAxis → i - addedAxises < call.inputShape.length) ∧
    (kind = .given → i < call.begin.length + call.maskState.expandedEllipsis →
      call.IndexFits startAndEndIndices (i - addedEllipsis)) ∧
    call.ArraysFitFrom startAndEndIndices kinds (i + 1)
      (if kind = .ellipsis then i - call.maskState.ellipsisStartIdx else addedEllipsis)
      (if kind = .newAxis then addedAxises + 1 else addedAxises)

def SliceCall.ArraysFit (call : SliceCall) (startAndEndIndices : Bool) : Prop :=
  call.ArraysFitFrom startAndEndIndices call.maskState.kinds 0 0 0

section
variable {call : SliceCall} {startAndEndIndices : Bool} {kind : EffectiveKind}
  {kinds : List EffectiveKind} {i addedEllipsis addedAxises : Nat}

theorem entryAt_isSome :
    (call.entryAt startAndEndIndices i).isSome ↔ call.IndexFits startAndEndIndices i := by
  have hstrides : (call.strides[i]?).isSome ↔ i < call.strides.length := by simp
  have hbegin : (call.begin[i]?).isSome ↔ i < call.begin.length := by simp
  have hstop : (call.stop[i]?).isSome ↔ i < call.stop.length := by simp
  unfold SliceCall.entryAt
  constructor
  · intro h
    obtain ⟨entry, h⟩ := Option.isSome_iff_exists.1 h
    obtain ⟨start, hstart, h⟩ := Option.bind_eq_some_iff.1 h
    obtain ⟨stop, hend, h⟩ := Option.bind_eq_some_iff.1 h
    obtain ⟨stride, hstride, -⟩ := Option.bind_eq_some_iff.1 h
    rw [hstride] at hstrides
    refine ⟨fun hread => ?_, fun hread => ?_, hstrides.1 rfl⟩
    · rw [if_pos hread] at hstart
      rw [hstart] at hbegin
      exact hbegin.1 rfl
    · rw [if_pos hread] at hend
      rw [hend] at hstop
      exact hstop.1 rfl
  · intro h
    obtain ⟨stride, hstride⟩ := Option.isSome_iff_exists.1 (hstrides.2 h.strides)
    cases startAndEndIndices with
    | false => simp [hstride]
    | true =>
      obtain ⟨start, hstart⟩ := Option.isSome_iff_exists.1 (hbegin.2 (h.begin rfl))
      obtain ⟨stop, hend⟩ := Option.isSome_iff_exists.1 (hstop.2 (h.stop rfl))
      simp [hstride, hstart, hend]

theorem axisAt_isSome :
    (call.axisAt startAndEndIndices kind i addedEllipsis addedAxises).isSome ↔
      (kind ≠ .newAxis → i - addedAxises < call.inputShape.length) ∧
      (kind = .given → i < call.begin.length + call.maskState.expandedEllipsis →
        call.IndexFits startAndEndIndices (i - addedEllipsis)) := by
  have hdim : (call.inputShape[i - addedAxises]?).isSome ↔
      i - addedAxises < call.inputShape.length := by simp
  unfold SliceCall.axisAt
  cases kind with
  | ellipsis => simp [Option.isSome_map, hdim]
  | newAxis => simp
  | given =>
    dsimp only
    by_cases hlate : call.begin.length + call.maskState.expandedEllipsis ≤ i
    · rw [if_pos hlate, Option.isSome_map, hdim]
      simp [Nat.not_lt.2 hlate]
    · rw [if_neg hlate, ← entryAt_isSome, ← hdim]
      cases call.entryAt startAndEndIndices (i - addedEllipsis) with
      | none => simp [Nat.lt_of_not_le hlate]
      | some entry => cases call.inputShape[i - addedAxises]? <;> simp

theorem axesFrom_isSome :
    (call.axesFrom startAndEndIndices kinds i addedEllipsis addedAxises).isSome ↔
      call.ArraysFitFrom startAndEndIndices kinds i addedEllipsis addedAxises := by
  induction kinds generalizing i addedEllipsis addedAxises with
  | nil => exact iff_of_true rfl trivial
  | cons kind kinds ih =>
    have haxis := @axisAt_isSome call startAndEndIndices kind i
      (if kind = .ellipsis then i - call.maskState.ellipsisStartIdx else addedEllipsis) addedAxises
    have hindex : (kind = .given → i < call.begin.length + call.maskState.expandedEllipsis →
        call.IndexFits startAndEndIndices
          (i - if kind = .ellipsis then i - call.maskState.ellipsisStartIdx else addedEllipsis)) ↔
        (kind = .given → i < call.begin.length + call.maskState.expandedEllipsis →
          call.IndexFits startAndEndIndices (i - addedEllipsis)) := by
      refine forall_congr' fun hgiven => ?_
      rw [if_neg (by rw [hgiven]; decide)]
    unfold SliceCall.axesFrom SliceCall.ArraysFitFrom
    dsimp only
    rw [← and_assoc, ← ih, ← hindex, ← haxis]
    cases call.axisAt startAndEndIndices kind i _ addedAxises with
    | none => simp
    | some axis => cases call.axesFrom startAndEndIndices kinds (i + 1) _ _ <;> simp

theorem axes_isSome : (call.axes startAndEndIndices).isSome ↔ call.ArraysFit startAndEndIndices :=
  axesFrom_isSome

end

/-! ### The axes -/

section
variable {call : SliceCall} {startAndEndIndices : Bool} {kind : EffectiveKind}
  {kinds : List EffectiveKind} {i addedEllipsis addedAxises : Nat} {axis : SliceAxis}
  {axes : List SliceAxis} {entry : SliceEntry}

theorem entryAt_stride (h : call.entryAt startAndEndIndices i = some entry) :
    call.strides[i]? = some entry.stride := by
  unfold SliceCall.entryAt at h
  obtain ⟨start, -, h⟩ := Option.bind_eq_some_iff.1 h
  obtain ⟨stop, -, h⟩ := Option.bind_eq_some_iff.1 h
  obtain ⟨stride, hstride, h⟩ := Option.bind_eq_some_iff.1 h
  rw [hstride, ← Option.some.inj h]

/-- An axis that is not new has the next dimension of the input. -/
theorem axisAt_dim
    (h : call.axisAt startAndEndIndices kind i addedEllipsis addedAxises = some axis) :
    if kind = .newAxis then axis.dim = 1 else call.inputShape[i - addedAxises]? = some axis.dim := by
  unfold SliceCall.axisAt at h
  cases kind with
  | ellipsis =>
    obtain ⟨dim, hdim, rfl⟩ := Option.map_eq_some_iff.1 h
    exact hdim
  | newAxis =>
    rw [← Option.some.inj h]
    rfl
  | given =>
    dsimp only at h
    split at h
    · obtain ⟨dim, hdim, rfl⟩ := Option.map_eq_some_iff.1 h
      exact hdim
    · obtain ⟨entry, -, h⟩ := Option.bind_eq_some_iff.1 h
      obtain ⟨dim, hdim, h⟩ := Option.bind_eq_some_iff.1 h
      rw [← Option.some.inj h]
      exact hdim

theorem axesFrom_cons
    (h : call.axesFrom startAndEndIndices (kind :: kinds) i addedEllipsis addedAxises = some axes) :
    ∃ axis rest, call.axisAt startAndEndIndices kind i
        (if kind = .ellipsis then i - call.maskState.ellipsisStartIdx else addedEllipsis)
        addedAxises = some axis ∧
      call.axesFrom startAndEndIndices kinds (i + 1)
        (if kind = .ellipsis then i - call.maskState.ellipsisStartIdx else addedEllipsis)
        (if kind = .newAxis then addedAxises + 1 else addedAxises) = some rest ∧
      axes = axis :: rest := by
  unfold SliceCall.axesFrom at h
  obtain ⟨axis, haxis, h⟩ := Option.bind_eq_some_iff.1 h
  obtain ⟨rest, hrest, h⟩ := Option.bind_eq_some_iff.1 h
  exact ⟨axis, rest, haxis, hrest, (Option.some.inj h).symm⟩

/-- The axes have dimensions of the input in order, and dimensions of one. -/
theorem axesFrom_dims (hadded : addedAxises ≤ i)
    (h : call.axesFrom startAndEndIndices kinds i addedEllipsis addedAxises = some axes) :
    ∃ n, (axes.map SliceAxis.dim).prod = ((call.inputShape.drop (i - addedAxises)).take n).prod ∧
      ∀ axis ∈ axes, axis.dim = 1 ∨ axis.dim ∈ call.inputShape := by
  induction kinds generalizing i addedEllipsis addedAxises axes with
  | nil =>
    unfold SliceCall.axesFrom at h
    rw [← Option.some.inj h]
    exact ⟨0, rfl, fun axis haxis => absurd haxis not_mem_nil⟩
  | cons kind kinds ih =>
    obtain ⟨axis, axes', haxis, haxes, rfl⟩ := axesFrom_cons h
    rw [map_cons, prod_cons]
    have hdim := axisAt_dim haxis
    by_cases hnew : kind = .newAxis
    · rw [if_pos hnew] at hdim haxes
      obtain ⟨n, hprod, hmem⟩ := ih (Nat.succ_le_succ hadded) haxes
      refine ⟨n, ?_, forall_mem_cons.2 ⟨.inl hdim, hmem⟩⟩
      rw [hdim, hprod, Nat.one_mul, Nat.succ_sub_succ]
    · rw [if_neg hnew] at hdim haxes
      obtain ⟨n, hprod, hmem⟩ := ih (Nat.le_succ_of_le hadded) haxes
      obtain ⟨hlt, hget⟩ := List.getElem?_eq_some_iff.1 hdim
      refine ⟨n + 1, ?_, forall_mem_cons.2 ⟨.inr (hget ▸ getElem_mem hlt), hmem⟩⟩
      rw [drop_eq_getElem_cons hlt, take_succ_cons, prod_cons, hget, hprod, Nat.succ_sub hadded]

/-- What is read of `begin` and `end` does not matter for the strides. -/
theorem axisAt_stride {startAndEndIndices' : Bool} {axis' : SliceAxis}
    (h : call.axisAt startAndEndIndices kind i addedEllipsis addedAxises = some axis)
    (h' : call.axisAt startAndEndIndices' kind i addedEllipsis addedAxises = some axis') :
    axis.stride = axis'.stride := by
  unfold SliceCall.axisAt at h h'
  cases kind with
  | ellipsis =>
    obtain ⟨dim, -, rfl⟩ := Option.map_eq_some_iff.1 h
    obtain ⟨dim', -, rfl⟩ := Option.map_eq_some_iff.1 h'
    rfl
  | newAxis => rw [← Option.some.inj h, ← Option.some.inj h']
  | given =>
    dsimp only at h h'
    split at h
    · next hlate =>
      rw [if_pos hlate] at h'
      obtain ⟨dim, -, rfl⟩ := Option.map_eq_some_iff.1 h
      obtain ⟨dim', -, rfl⟩ := Option.map_eq_some_iff.1 h'
      rfl
    · next hlate =>
      rw [if_neg hlate] at h'
      obtain ⟨entry, hentry, h⟩ := Option.bind_eq_some_iff.1 h
      obtain ⟨dim, -, h⟩ := Option.bind_eq_some_iff.1 h
      obtain ⟨entry', hentry', h'⟩ := Option.bind_eq_some_iff.1 h'
      obtain ⟨dim', -, h'⟩ := Option.bind_eq_some_iff.1 h'
      rw [← Option.some.inj h, ← Option.some.inj h']
      show entry.stride = entry'.stride
      rw [Option.some_inj.1 ((entryAt_stride hentry).symm.trans (entryAt_stride hentry'))]

theorem axesFrom_strides {startAndEndIndices' : Bool} {axes' : List SliceAxis}
    (h : call.axesFrom startAndEndIndices kinds i addedEllipsis addedAxises = some axes)
    (h' : call.axesFrom startAndEndIndices' kinds i addedEllipsis addedAxises = some axes') :
    axes.map SliceAxis.stride = axes'.map SliceAxis.stride := by
  induction kinds generalizing i addedEllipsis addedAxises axes axes' with
  | nil =>
    unfold SliceCall.axesFrom at h h'
    rw [← Option.some.inj h, ← Option.some.inj h']
  | cons kind kinds ih =>
    obtain ⟨axis, rest, haxis, hrest, rfl⟩ := axesFrom_cons h
    obtain ⟨axis', rest', haxis', hrest', rfl⟩ := axesFrom_cons h'
    rw [map_cons, map_cons, axisAt_stride haxis haxis', ih hrest hrest']

end

/-! ### How many axes there are -/

/-- There is a kind for each effective axis, however often the ellipsis is expanded. -/
theorem length_expandMasks {masks : StridedSliceMasks} {beginCount inputDims effectiveDims : Nat}
    {rounds : Nat} {s : MaskState} (hi : s.i ≤ effectiveDims) (hkinds : s.kinds.length = s.i)
    (hrounds : effectiveDims ≤ s.i + rounds) :
    (expandMasks masks beginCount inputDims effectiveDims rounds s).kinds.length =
      effectiveDims := by
  induction rounds generalizing s with
  | zero => exact hkinds.trans (Nat.le_antisymm hi hrounds)
  | succ rounds ih =>
    unfold expandMasks
    split
    · split
      · refine ih ?_ ?_ ?_
        · show max (s.i + 1) (min _ effectiveDims) ≤ effectiveDims
          omega
        · rw [length_append, length_replicate, hkinds]
          dsimp only
          omega
        · dsimp only
          omega
      · refine ih ?_ ?_ ?_
        · show s.i + 1 ≤ effectiveDims
          omega
        · rw [length_append, hkinds]
          rfl
        · dsimp only
          omega
    · omega

theorem length_axesFrom {call : SliceCall} {startAndEndIndices : Bool} {kinds : List EffectiveKind}
    {i addedEllipsis addedAxises : Nat} {axes : List SliceAxis}
    (h : call.axesFrom startAndEndIndices kinds i addedEllipsis addedAxises = some axes) :
    axes.length = kinds.length := by
  induction kinds generalizing i addedEllipsis addedAxises axes with
  | nil =>
    unfold SliceCall.axesFrom at h
    rw [← Option.some.inj h]
    rfl
  | cons kind kinds ih =>
    obtain ⟨axis, rest, -, hrest, rfl⟩ := axesFrom_cons h
    rw [length_cons, length_cons, ih hrest]

theorem length_axes {call : SliceCall} {startAndEndIndices : Bool} {axes : List SliceAxis}
    (h : call.axes startAndEndIndices = some axes) : axes.length = call.effectiveDims := by
  rw [length_axesFrom h]
  exact length_expandMasks (Nat.zero_le _) rfl (Nat.le_add_left _ _)

/-! ### Arrays of entries -/

section
variable {call : SliceCall} {entries : List SliceEntry}

end

end LiteRt.Kernels
