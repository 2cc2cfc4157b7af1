import LiteRt.Kernels.BroadcastShapes
import LiteRt.Lib.BasicSlicing

/-!
# Strided slice

The masks of the operation are expanded to one entry for each axis of the effective input, from
which the output shape and the places of the copied elements are computed.
-/

namespace LiteRt.Kernels

open LiteRt.Lib

/-! ## The operation and its axes -/

/-- The fields of `TfLiteStridedSliceParams`, with `offset` not set. -/
structure StridedSliceMasks where
  beginMask : Nat
  endMask : Nat
  ellipsisMask : Nat
  newAxisMask : Nat
  shrinkAxisMask : Nat
  deriving DecidableEq, Repr

/-- The tensors `begin`, `end` and `strides` at one index. -/
structure SliceEntry where
  begin : Int
  stop : Int
  stride : Int
  deriving DecidableEq, Repr

/-- What `StridedSliceParams` and the effective input shape have for one axis. -/
structure SliceAxis where
  startIndex : Int
  stopIndex : Int
  stride : Int
  beginMask : Bool
  endMask : Bool
  shrinkAxis : Bool
  dim : Nat
  deriving DecidableEq, Repr

/-- What the effective masks have for one axis. -/
inductive EffectiveKind where
  | ellipsis
  | newAxis
  | given
  deriving DecidableEq, Repr

/-- The variables of the loop over the effective masks. -/
structure MaskState where
  i : Nat
  kinds : List EffectiveKind
  ellipsisStartIdx : Nat
  expandedEllipsis : Nat
  deriving DecidableEq, Repr

/-- The indexes where the new axis mask is set but the ellipsis mask is not. -/
def numAddAxis (masks : StridedSliceMasks) (beginCount : Nat) : Nat :=
  ((List.range beginCount).filter fun i =>
    !masks.ellipsisMask.testBit i && masks.newAxisMask.testBit i).length

/-- The loop that expands the ellipsis; each round moves `i` on. -/
def expandMasks (masks : StridedSliceMasks) (beginCount inputDims effectiveDims : Nat) :
    Nat → MaskState → MaskState
  | 0, s => s
  | rounds + 1, s =>
    if s.i < effectiveDims then
      if masks.ellipsisMask.testBit s.i then
        let ellipsisEndIdx := max (s.i + 1)
          (min (s.i + 1 + numAddAxis masks beginCount + inputDims - beginCount) effectiveDims)
        expandMasks masks beginCount inputDims effectiveDims rounds
          { i := ellipsisEndIdx
            kinds := s.kinds ++ List.replicate (ellipsisEndIdx - s.i) .ellipsis
            ellipsisStartIdx := s.i
            expandedEllipsis := ellipsisEndIdx - s.i - 1 }
      else
        expandMasks masks beginCount inputDims effectiveDims rounds
          { s with
            i := s.i + 1
            kinds := s.kinds ++
              [if masks.newAxisMask.testBit (s.i - s.expandedEllipsis) then .newAxis else .given] }
    else s

def wholeAxis (dim : Nat) : SliceAxis := ⟨0, 0, 1, true, true, false, dim⟩

/-- The loop over the effective axes; `none` if it reads past the end of an array. -/
def buildAxes (masks : StridedSliceMasks) (entries : List SliceEntry) (inputShape : RuntimeShape)
    (ellipsisStartIdx expandedEllipsis : Nat) :
    List EffectiveKind → Nat → Nat → Nat → Option (List SliceAxis)
  | [], _, _, _ => some []
  | .ellipsis :: kinds, i, _, addedAxises => do
    let dim ← inputShape[i - addedAxises]?
    let axes ← buildAxes masks entries inputShape ellipsisStartIdx expandedEllipsis kinds (i + 1)
      (i - ellipsisStartIdx) addedAxises
    pure (wholeAxis dim :: axes)
  | .newAxis :: kinds, i, addedEllipsis, addedAxises => do
    let axes ← buildAxes masks entries inputShape ellipsisStartIdx expandedEllipsis kinds (i + 1)
      addedEllipsis (addedAxises + 1)
    pure (⟨0, 1, 1, false, false, false, 1⟩ :: axes)
  | .given :: kinds, i, addedEllipsis, addedAxises => do
    let axis ←
      if entries.length + expandedEllipsis ≤ i then do
        let dim ← inputShape[i - addedAxises]?
        pure (wholeAxis dim)
      else do
        let origIdx := i - addedEllipsis
        let entry ← entries[origIdx]?
        let dim ← inputShape[i - addedAxises]?
        pure { startIndex := entry.begin
               stopIndex := entry.stop
               stride := entry.stride
               beginMask := masks.beginMask.testBit origIdx
               endMask := masks.endMask.testBit origIdx
               shrinkAxis := masks.shrinkAxisMask.testBit origIdx
               dim := dim }
    let axes ← buildAxes masks entries inputShape ellipsisStartIdx expandedEllipsis kinds (i + 1)
      addedEllipsis addedAxises
    pure (axis :: axes)

def buildStridedSliceParams (masks : StridedSliceMasks) (entries : List SliceEntry)
    (inputShape : RuntimeShape) : Option (List SliceAxis) :=
  let effectiveDims := inputShape.length + numAddAxis masks entries.length
  let s := expandMasks masks entries.length inputShape.length effectiveDims effectiveDims
    ⟨0, [], effectiveDims, 0⟩
  buildAxes masks entries inputShape s.ellipsisStartIdx s.expandedEllipsis s.kinds 0 0 0

/-! ## The bounds of an axis -/

def clamp (v lo hi : Int) : Int := if hi < v then hi else if v < lo then lo else v

def stridedSliceStartForAxis (axis : SliceAxis) : Int :=
  let start := if axis.startIndex < 0 then axis.startIndex + axis.dim else axis.startIndex
  let start := if 0 < axis.stride then clamp start 0 axis.dim else clamp start (-1) (axis.dim - 1)
  if axis.beginMask then if 0 < axis.stride then 0 else axis.dim - 1 else start

def stridedSliceEndForAxis (axis : SliceAxis) (start : Int) : Int :=
  if axis.shrinkAxis then if (axis.dim : Int) ≤ start then start else start + 1
  else
    let stop := if axis.stopIndex < 0 then axis.stopIndex + axis.dim else axis.stopIndex
    let stop := if 0 < axis.stride then clamp stop 0 axis.dim else clamp stop (-1) (axis.dim - 1)
    if axis.endMask then if 0 < axis.stride then axis.dim else -1 else stop

/-! ## The output shape -/

/-- The extent of the output along an axis that is kept. -/
def outputDim (axis : SliceAxis) : Int :=
  let start := stridedSliceStartForAxis axis
  let dimShape := stridedSliceEndForAxis axis start - start
  if decide (dimShape < 0) != decide (axis.stride < 0) then 0
  else if axis.stride < 0 then (dimShape + 1).tdiv axis.stride + 1
  else if dimShape = 0 then 0
  else (dimShape - 1).tdiv axis.stride + 1

/-- The loop from the last axis to the first; `none` for a stride of zero. -/
def pushOutputDims : List SliceAxis → List Int → Option (List Int)
  | [], outputShape => some outputShape
  | axis :: axes, outputShape =>
    if axis.stride = 0 then none
    else pushOutputDims axes (if axis.shrinkAxis then outputShape else outputShape ++ [outputDim axis])

/-- `none` stands for an error. -/
def resizeOutputTensor (axes : List SliceAxis) : Option (List Int) :=
  if axes.length ≤ 5 then (pushOutputDims axes.reverse []).map List.reverse else none

/-! ## Copying -/

/-- A loop `for (offset = start; lc(stop, stride, offset); offset += stride)` with what its rounds
write; `none` if the offset overflows. Each round moves it by one at least. -/
def forOffsets (stop stride : Int) (body : Int → Option (List Int)) :
    Nat → Int → Option (List Int)
  | 0, offset => if Before stop stride offset then none else some []
  | rounds + 1, offset =>
    if Before stop stride offset then do
      let written ← body offset
      if -2147483648 ≤ offset + stride ∧ offset + stride < 2147483648 then do
        let rest ← forOffsets stop stride body rounds (offset + stride)
        pure (written ++ rest)
      else none
    else some []

def forAxis (axis : SliceAxis) (body : Int → Option (List Int)) : Option (List Int) :=
  let start := stridedSliceStartForAxis axis
  let stop := stridedSliceEndForAxis axis start
  forOffsets stop axis.stride body (stop - start).natAbs start

/-- `StridedSlicePadIndices`, with the input shape extended. -/
def padAxes (axes : List SliceAxis) : List SliceAxis :=
  List.replicate (5 - axes.length) ⟨0, 1, 1, true, true, false, 1⟩ ++ axes

/-- The input places that are written to the output, in order. -/
def stridedSlice (axes : List SliceAxis) : Option (List Int) :=
  match padAxes axes with
  | [axis0, axis1, axis2, axis3, axis4] =>
    forAxis axis0 fun offset0 => forAxis axis1 fun offset1 => forAxis axis2 fun offset2 =>
      forAxis axis3 fun offset3 =>
        let index (offset4 : Int) := int32 (offset4 + offset3 * axis4.dim +
          offset2 * axis3.dim * axis4.dim + offset1 * axis2.dim * axis3.dim * axis4.dim +
          offset0 * axis1.dim * axis2.dim * axis3.dim * axis4.dim)
        if axis4.stride = 1 then
          let start4 := stridedSliceStartForAxis axis4
          let len := stridedSliceEndForAxis axis4 start4 - start4
          if 0 < len then some ((List.range len.toNat).map fun (i : Nat) => index start4 + i)
          else some []
        else forAxis axis4 fun offset4 => some [index offset4]
  | _ => none

end LiteRt.Kernels
