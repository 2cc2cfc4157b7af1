import LiteRt.Shapes.Division
import LiteRt.Shapes.Engine
import LiteRt.Shapes.OperandWidth
import LiteRt.Shapes.Select

/-!
# The inferrers of the other ops

Together with those for reshapes, convolutions, pools, blocks, slices, reductions, pads,
broadcasts and selects these are the ops the engine has an inferrer for. Most compute the shape of
one output.
-/

namespace LiteRt.Shapes

section

open LiteRt.Lib

structure DepthwiseConv2DOptions where
  padding : Padding
  strideW : Int
  strideH : Int
  depthMultiplier : Int
  dilationWFactor : Int
  dilationHFactor : Int
  deriving DecidableEq, Repr

structure Conv3DOptions where
  padding : Padding
  strideD : Int
  strideW : Int
  strideH : Int
  dilationDFactor : Int
  dilationWFactor : Int
  dilationHFactor : Int
  deriving DecidableEq, Repr

inductive BuiltinOptions
  | basic (options : Options)
  | concatenation (axis : Int)
  | pack (axis : Int)
  | unpack (axis num : Int)
  | gather (axis : Int)
  | batchMatMul (adjX adjY : Bool)
  | fullyConnected (keepNumDims : Bool)
  | depthwiseConv2D (options : DepthwiseConv2DOptions)
  | conv3D (options : Conv3DOptions)
  deriving DecidableEq, Repr

structure BuiltinOp where
  inputs : List Operand
  numOutputs : Nat
  options : BuiltinOptions
  deriving DecidableEq, Repr

def BuiltinOp.toOp (op : BuiltinOp) : Op where
  inputs := op.inputs
  numOutputs := op.numOutputs
  options := match op.options with
    | .basic options => options
    | _ => .other

def BuiltinOp.input (op : BuiltinOp) (i : Nat) : Infer Operand := op.toOp.input i

/-! ## Elementwise ops, products and concatenations -/

def inferIdentity (op : BuiltinOp) (inputShapes : List Dims) : Infer Dims :=
  if op.numOutputs ≠ 1 then .error .shapeInferenceFailed
  else (inputShapes.head?).elim (.error .outOfRange) pure

/-- A dimension of the batches of two matrices. -/
def batchDim (d1 d2 : Int) : Infer Int :=
  if d1 = -1 ∨ d2 = -1 then pure (-1)
  else if d1 = d2 then pure d1
  else if d1 = 1 then pure d2
  else if d2 = 1 then pure d1
  else .error .invalidArgument

def BuiltinOptions.adjoints : BuiltinOptions → Bool × Bool
  | .batchMatMul adjX adjY => (adjX, adjY)
  | _ => (false, false)

def inferBatchMatmul (op : BuiltinOp) : List Dims → Infer Dims
  | [lhs, rhs] =>
    if lhs.length < 2 ∨ rhs.length < 2 then .error .invalidArgument
    else
      let adjX := op.options.adjoints.1
      let adjY := op.options.adjoints.2
      let m := dimFromRight lhs (if adjX then 0 else 1)
      let kLhs := dimFromRight lhs (if adjX then 1 else 0)
      let kRhs := dimFromRight rhs (if adjY then 0 else 1)
      let n := dimFromRight rhs (if adjY then 1 else 0)
      if kLhs ≠ -1 ∧ kRhs ≠ -1 ∧ kLhs ≠ kRhs then .error .invalidArgument
      else
        fromRight (fun i =>
          if i = 0 then pure n
          else if i = 1 then pure m
          else batchDim (dimFromRight lhs i) (dimFromRight rhs i)) (maxRank [lhs, rhs])
  | _ => .error .invalidArgument

def BuiltinOptions.keepNumDims : BuiltinOptions → Bool
  | .fullyConnected keepNumDims => keepNumDims
  | _ => false

def knownProduct (shape : Dims) : Int :=
  shape.foldl (fun batch d => if d = -1 then batch else int64 (batch * d)) 1

/-- The last dimension of the input is read or written whether or not there is one. -/
def inferFullyConnected (op : BuiltinOp) : List Dims → Infer Dims
  | input :: weights :: _ =>
    match weights with
    | [outputDim, _] =>
      if input = [] then .error .outOfRange
      else if op.options.keepNumDims then pure (input.dropLast ++ [outputDim])
      else
        let batch := if -1 ∈ input.dropLast then -1 else int32 (knownProduct input.dropLast)
        pure [batch, outputDim]
    | _ => .error .invalidArgument
  | _ => .error .invalidArgument

/-- The sum along the axis, and one of two dimensions that agree elsewhere. -/
def concatDim (onAxis : Bool) (out d : Int) : Infer Int :=
  if onAxis then
    if d = -1 then pure (-1) else if out ≠ -1 then pure (int32 (out + d)) else pure out
  else if out ≠ -1 ∧ d ≠ -1 ∧ out ≠ d then .error .shapeInferenceFailed
  else if out = -1 ∧ d ≠ -1 then pure d
  else pure out

def concatDims (axis : Nat) : Nat → Dims → Dims → Infer Dims
  | i, out :: outShape, d :: shape => do
    let o ← concatDim (i == axis) out d
    let rest ← concatDims axis (i + 1) outShape shape
    pure (o :: rest)
  | _, _, _ => pure []

def concatStep (axis : Nat) (outShape shape : Dims) : Infer Dims :=
  if shape.length ≠ outShape.length then .error .shapeInferenceFailed
  else concatDims axis 0 outShape shape

def inferConcatenation (op : BuiltinOp) : List Dims → Infer Dims
  | [] => .error .shapeInferenceFailed
  | firstShape :: rest =>
    if op.numOutputs ≠ 1 then .error .shapeInferenceFailed
    else
      match op.options with
      | .concatenation axis =>
        let rank := firstShape.length
        let axis := if axis < 0 then axis + rank else axis
        if axis < 0 ∨ rank ≤ axis then .error .shapeInferenceFailed
        else (firstShape :: rest).foldlM (concatStep axis.toNat) (firstShape.set axis.toNat 0)
      | _ => .error .shapeInferenceFailed

/-! ## Ops that raise the rank -/

def BuiltinOptions.packAxis : BuiltinOptions → Int
  | .pack axis => axis
  | _ => 0

/-- The dimension is inserted before the ranks are compared. -/
def inferPack (op : BuiltinOp) : List Dims → Infer Dims
  | [] => .error .invalidArgument
  | s0 :: rest =>
    let rank := s0.length
    let axis := op.options.packAxis
    let axis := if axis < 0 then axis + (rank + 1) else axis
    if axis < 0 ∨ rank < axis then .error .outOfRange
    else if ∃ shape ∈ rest, shape.length ≠ rank then .error .invalidArgument
    else pure (s0.insertIdx axis.toNat (int32 (rest.length + 1)))

def BuiltinOptions.gatherAxis : BuiltinOptions → Int
  | .gather axis => axis
  | _ => 0

def inferGather (op : BuiltinOp) : List Dims → Infer Dims
  | inputShape :: indicesShape :: _ =>
    let axis := op.options.gatherAxis
    let axis := if axis < 0 then axis + inputShape.length else axis
    if axis < 0 ∨ inputShape.length ≤ axis then .error .invalidArgument
    else pure (inputShape.take axis.toNat ++ indicesShape ++ inputShape.drop (axis.toNat + 1))
  | _ => .error .invalidArgument

def inferGatherNd : List Dims → Infer Dims
  | inputShape :: indicesShape :: _ =>
    match indicesShape.getLast? with
    | none => .error .invalidArgument
    | some indexRank =>
      if indexRank < 0 then .error .unsupported
      else pure (indicesShape.dropLast ++ inputShape.drop indexRank.toNat)
  | _ => .error .invalidArgument

def inferEmbeddingLookup : List Dims → Infer Dims
  | idsShape :: paramsShape :: _ => pure (idsShape ++ paramsShape.drop 1)
  | _ => .error .invalidArgument

/-! ## Convolutions -/

def inferDepthwiseConv2D (op : BuiltinOp) : List Dims → Infer Dims
  | [batch, inputH, inputW, inputC] :: [filter0, filterH, filterW, outChannels] :: rest =>
    match op.options with
    | .depthwiseConv2D o =>
      if filter0 ≠ 1 then .error .shapeInferenceFailed
      else if outChannels ≠ int32 (inputC * o.depthMultiplier) then .error .shapeInferenceFailed
      else if o.strideH ≤ 0 ∨ o.strideW ≤ 0 then .error .shapeInferenceFailed
      else if o.strideH > inputH ∨ o.strideW > inputW then .error .shapeInferenceFailed
      else if o.dilationHFactor ≤ 0 ∨ o.dilationWFactor ≤ 0 then .error .shapeInferenceFailed
      else if rest ≠ [] ∧ rest.head? ≠ some [outChannels] then .error .shapeInferenceFailed
      else do
        let effectiveFilterH := int32 ((filterH - 1) * o.dilationHFactor + 1)
        let effectiveFilterW := int32 ((filterW - 1) * o.dilationWFactor + 1)
        let outH ← computeOutputSize o.padding inputH filterH o.strideH o.dilationHFactor
        let outW ← computeOutputSize o.padding inputW filterW o.strideW o.dilationWFactor
        if o.padding = .valid ∧ (inputH < effectiveFilterH ∨ inputW < effectiveFilterW) then
          .error .shapeInferenceFailed
        else if outH ≤ 0 ∨ outW ≤ 0 then .error .shapeInferenceFailed
        else pure [batch, outH, outW, outChannels]
    | _ => .error .invalidArgument
  | _ => .error .invalidArgument

def inferConv3D (op : BuiltinOp) : List Dims → Infer Dims
  | [batch, inputD, inputH, inputW, inputC] ::
      [filterD, filterH, filterW, filterC, outChannels] :: rest =>
    match op.options with
    | .conv3D o =>
      if inputC ≠ filterC then .error .shapeInferenceFailed
      else if o.strideD ≤ 0 ∨ o.strideH ≤ 0 ∨ o.strideW ≤ 0 then .error .shapeInferenceFailed
      else if o.strideD > inputD ∨ o.strideH > inputH ∨ o.strideW > inputW then
        .error .shapeInferenceFailed
      else if o.dilationDFactor ≤ 0 ∨ o.dilationHFactor ≤ 0 ∨ o.dilationWFactor ≤ 0 then
        .error .shapeInferenceFailed
      else if rest ≠ [] ∧ rest.head? ≠ some [outChannels] then .error .shapeInferenceFailed
      else do
        let effectiveFilterD := int32 ((filterD - 1) * o.dilationDFactor + 1)
        let effectiveFilterH := int32 ((filterH - 1) * o.dilationHFactor + 1)
        let effectiveFilterW := int32 ((filterW - 1) * o.dilationWFactor + 1)
        let outD ← computeOutputSize o.padding inputD filterD o.strideD o.dilationDFactor
        let outH ← computeOutputSize o.padding inputH filterH o.strideH o.dilationHFactor
        let outW ← computeOutputSize o.padding inputW filterW o.strideW o.dilationWFactor
        if o.padding = .valid ∧ (inputD < effectiveFilterD ∨ inputH < effectiveFilterH ∨
            inputW < effectiveFilterW) then .error .shapeInferenceFailed
        else if outD ≤ 0 ∨ outH ≤ 0 ∨ outW ≤ 0 then .error .shapeInferenceFailed
        else pure [batch, outD, outH, outW, outChannels]
    | _ => .error .invalidArgument
  | _ => .error .invalidArgument

/-- A dimension is written where there may be none. -/
def setDim (shape : Dims) (i : Nat) (d : Int) : Infer Dims :=
  if i < shape.length then pure (shape.set i d) else .error .outOfRange

def inferTransposeConv (op : BuiltinOp) : List Dims → Infer Dims
  | _ :: weightsShape :: inputShape :: _ => do
    let outputSizeTensor ← op.input 0
    if 4 ≤ outputSizeTensor.buffer.length then pure (numbers 4 outputSizeTensor.buffer)
    else do
      let outShape ← setDim (List.replicate inputShape.length (-1)) 0 (inputShape.headD 0)
      match weightsShape with
      | [outChannels, _, _, _] => setDim outShape 3 outChannels
      | _ => pure outShape
  | _ => .error .invalidArgument

def inferConv3DTranspose (op : BuiltinOp) : List Dims → Infer Dims
  | _ :: filterShape :: inputShape :: _ => do
    let outputSizeTensor ← op.input 0
    if 4 ≤ outputSizeTensor.buffer.length then pure (numbers 4 outputSizeTensor.buffer)
    else
      let outShape := (List.replicate inputShape.length (-1)).set 0 (inputShape.headD 0)
      match filterShape with
      | [_, _, _, _, outChannels] => setDim outShape 4 outChannels
      | _ => pure outShape
  | _ => .error .invalidArgument

/-! ## Slices, resizes and transpositions -/

def inferDynamicUpdateSlice : List Dims → Infer Dims
  | [operandShape, updateShape, startIndicesShape] =>
    if startIndicesShape.length ≠ 1 then .error .shapeInferenceFailed
    else if startIndicesShape.head? ≠ some (operandShape.length : Int) then
      .error .shapeInferenceFailed
    else if updateShape.length ≠ operandShape.length then .error .shapeInferenceFailed
    else if (updateShape.zip operandShape).any fun d => d.2 < d.1 then .error .shapeInferenceFailed
    else pure operandShape
  | _ => .error .shapeInferenceFailed

def inferResizeOp (op : BuiltinOp) : List Dims → Infer Dims
  | inputShape :: _ :: _ => do
    let sizeTensor ← op.input 1
    match inputShape with
    | [batch, _, _, depth] =>
      match numbers 4 sizeTensor.buffer with
      | [height, width] =>
        if sizeTensor.buffer.length = 8 then pure [batch, height, width, depth]
        else pure [batch, -1, -1, depth]
      | _ => pure [batch, -1, -1, depth]
    | _ => .error .shapeInferenceFailed
  | _ => .error .shapeInferenceFailed

def inferTranspose (op : BuiltinOp) : List Dims → Infer Dims
  | inputShape :: _ :: _ => do
    let permTensor ← op.input 1
    if permTensor.buffer ≠ [] then
      let perm := numbers 4 permTensor.buffer
      if perm.length ≠ inputShape.length then .error .shapeInferenceFailed
      else if ∃ p ∈ perm, p < 0 ∨ perm.length ≤ p then .error .shapeInferenceFailed
      else pure (perm.map fun p => inputShape.getD p.toNat 0)
    else pure (List.replicate inputShape.length (-1))
  | _ => .error .shapeInferenceFailed

/-! ## Ops with several outputs -/

/-- The axis of an unpack and the number of its outputs. -/
def BuiltinOp.unpackParams (op : BuiltinOp) : Int × Int :=
  match op.options with
  | .unpack axis num => (axis, num)
  | _ => (0, op.numOutputs)

def inferUnpack (op : BuiltinOp) (inputShapes outputShapes : List Dims) : Infer (List Dims) :=
  match inputShapes with
  | [] => .error .shapeInferenceFailed
  | s0 :: _ =>
    let axis := op.unpackParams.1
    let num := op.unpackParams.2
    let axis := if axis < 0 then axis + s0.length else axis
    if axis < 0 ∨ s0.length ≤ axis then .error .shapeInferenceFailed
    else if (outputShapes.length : Int) ≠ num then .error .shapeInferenceFailed
    else pure (List.replicate outputShapes.length (s0.eraseIdx axis.toNat))

/-- The number of a top-k, read from the first four bytes of a constant. -/
def topK (kTensor : Operand) (lastDim : Int) : Infer Int :=
  if kTensor.buffer = [] then pure (-1)
  else if kTensor.buffer.length < 4 then .error .outOfRange
  else
    let k := signed (kTensor.buffer.take 4)
    if lastDim ≠ -1 ∧ lastDim < k then .error .shapeInferenceFailed else pure k

def inferTopKV2 (op : BuiltinOp) (inputShapes outputShapes : List Dims) : Infer (List Dims) :=
  match inputShapes with
  | inputShape :: _ :: _ => do
    let kTensor ← op.input 1
    match inputShape.getLast? with
    | none => .error .shapeInferenceFailed
    | some lastDim => do
      let k ← topK kTensor lastDim
      let outShape := inputShape.dropLast ++ [k]
      pure ((outputShapes.set 0 outShape).set 1 outShape)
  | _ => .error .shapeInferenceFailed

end

/-!
## The inferrers of the engine

`RegisterStandardOps` registers an inferrer for each op code it knows. The macros for simple unary
and binary ops, pads, resizes and reductions make one inferrer serve many op codes.
-/

/-- The op codes with a standard inferrer, and the others. -/
inductive OpCode
  | abs | ceil | cos | dequantize | elu | exp | floor | gelu | hardSwish | leakyRelu | log
  | logicalNot | logistic | neg | quantize | relu | relu0To1 | relu6 | reluN1To1 | round | rsqrt
  | sign | sin | softmax | sqrt | square | tanh | equal | floorDiv | greater | greaterEqual
  | less | lessEqual | logicalAnd | logicalOr | maximum | minimum | notEqual | pow | prelu
  | squaredDifference | add | argMax | argMin | averagePool2d | batchMatmul | broadcastTo | cast
  | concatenation | conv2d | conv3d | conv3dTranspose | depthToSpace | depthwiseConv2d | div
  | dynamicUpdateSlice | embeddingLookup | fullyConnected | gather | gatherNd | l2Pool2d
  | maxPool2d | mean | mirrorPad | mul | pack | pad | padv2 | reduceAll | reduceAny | reduceMax
  | reduceMin | sum | reshape | resizeBilinear | resizeNearestNeighbor | select | selectV2
  | slice | spaceToDepth | sub | transpose | transposeConv | unpack | cumsum | l2Normalization
  | reverseV2 | topkV2
  | other (code : Nat)
  deriving DecidableEq, Repr

/-- The inferrers of the shape of one output. -/
inductive Inferrer
  | identity | elementwiseBinary | argMinMax | pool2D | batchMatmul | broadcastTo | concatenation
  | conv2D | conv3D | conv3DTranspose | depthToSpace | depthwiseConv2D | dynamicUpdateSlice
  | embeddingLookup | fullyConnected | gather | gatherNd | reduce | pad | pack | reshape
  | resizeOp | select | slice | spaceToDepth | transpose | transposeConv
  deriving DecidableEq, Repr

inductive StandardInferrer
  | first (inferrer : Inferrer)
  | unpack
  | topKV2
  deriving DecidableEq, Repr

/-- `RegisterStandardOps` -/
def standardInferrer : OpCode → Option StandardInferrer
  | .abs | .ceil | .cos | .dequantize | .elu | .exp | .floor | .gelu | .hardSwish | .leakyRelu
  | .log | .logicalNot | .logistic | .neg | .quantize | .relu | .relu0To1 | .relu6 | .reluN1To1
  | .round | .rsqrt | .sign | .sin | .softmax | .sqrt | .square | .tanh | .cast | .cumsum
  | .l2Normalization | .reverseV2 => some (.first .identity)
  | .equal | .floorDiv | .greater | .greaterEqual | .less | .lessEqual | .logicalAnd | .logicalOr
  | .maximum | .minimum | .notEqual | .pow | .prelu | .squaredDifference | .add | .div | .mul
  | .sub => some (.first .elementwiseBinary)
  | .argMax | .argMin => some (.first .argMinMax)
  | .averagePool2d | .l2Pool2d | .maxPool2d => some (.first .pool2D)
  | .batchMatmul => some (.first .batchMatmul)
  | .broadcastTo => some (.first .broadcastTo)
  | .concatenation => some (.first .concatenation)
  | .conv2d => some (.first .conv2D)
  | .conv3d => some (.first .conv3D)
  | .conv3dTranspose => some (.first .conv3DTranspose)
  | .depthToSpace => some (.first .depthToSpace)
  | .depthwiseConv2d => some (.first .depthwiseConv2D)
  | .dynamicUpdateSlice => some (.first .dynamicUpdateSlice)
  | .embeddingLookup => some (.first .embeddingLookup)
  | .fullyConnected => some (.first .fullyConnected)
  | .gather => some (.first .gather)
  | .gatherNd => some (.first .gatherNd)
  | .mean | .reduceAll | .reduceAny | .reduceMax | .reduceMin | .sum => some (.first .reduce)
  | .mirrorPad | .pad | .padv2 => some (.first .pad)
  | .pack => some (.first .pack)
  | .reshape => some (.first .reshape)
  | .resizeBilinear | .resizeNearestNeighbor => some (.first .resizeOp)
  | .select | .selectV2 => some (.first .select)
  | .slice => some (.first .slice)
  | .spaceToDepth => some (.first .spaceToDepth)
  | .transpose => some (.first .transpose)
  | .transposeConv => some (.first .transposeConv)
  | .unpack => some .unpack
  | .topkV2 => some .topKV2
  | .other _ => none

def Inferrer.shape (op : BuiltinOp) : Inferrer → List Dims → Infer Dims
  | .identity => inferIdentity op
  | .elementwiseBinary => inferElementwiseBinary
  | .argMinMax => inferArgMinMax op.toOp
  | .pool2D => inferPool2D op.toOp
  | .batchMatmul => inferBatchMatmul op
  | .broadcastTo => inferBroadcastTo op.toOp
  | .concatenation => inferConcatenation op
  | .conv2D => inferConv2D op.toOp
  | .conv3D => inferConv3D op
  | .conv3DTranspose => inferConv3DTranspose op
  | .depthToSpace => inferDepthToSpace op.toOp
  | .depthwiseConv2D => inferDepthwiseConv2D op
  | .dynamicUpdateSlice => inferDynamicUpdateSlice
  | .embeddingLookup => inferEmbeddingLookup
  | .fullyConnected => inferFullyConnected op
  | .gather => inferGather op
  | .gatherNd => inferGatherNd
  | .reduce => inferReduce op.toOp
  | .pad => inferPad op.toOp
  | .pack => inferPack op
  | .reshape => inferReshape op.toOp
  | .resizeOp => inferResizeOp op
  | .select => inferSelect
  | .slice => inferSlice op.toOp
  | .spaceToDepth => inferSpaceToDepth op.toOp
  | .transpose => inferTranspose op
  | .transposeConv => inferTransposeConv op

/-- The inferred shape is written to the first output; only a transposition makes room for it. -/
def StandardInferrer.infer (op : BuiltinOp) (inputShapes outputShapes : List Dims) :
    StandardInferrer → Infer (List Dims)
  | .first inferrer => do
    let shape ← inferrer.shape op inputShapes
    match outputShapes with
    | _ :: rest => pure (shape :: rest)
    | [] => if inferrer = .transpose then pure [shape] else .error .outOfRange
  | .unpack => inferUnpack op inputShapes outputShapes
  | .topKV2 => inferTopKV2 op inputShapes outputShapes

section
variable {T : Type}

/-- The op with the tensors it reads. Loading leaves out the inputs that are absent. -/
def GraphOp.builtin (tensors : T → Operand) (op : GraphOp T OpCode BuiltinOptions) : BuiltinOp where
  inputs := op.inputs.filterMap fun input => input.map tensors
  numOutputs := op.outputs.length
  options := op.options

def standardEngine (tensors : T → Operand) : ShapeInferenceEngine T OpCode BuiltinOptions where
  registry code := (standardInferrer code).map fun inferrer op inputShapes outputShapes =>
    inferrer.infer (op.builtin tensors) inputShapes outputShapes
  weights tensor := (tensors tensor).buffer

end

end LiteRt.Shapes
