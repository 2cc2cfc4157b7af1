import LiteRt.Qnn.EmbeddingGemma

/-!
# Attention over a cache and a slice, one head at a time

The keys and values of the cache and of the slice are unpacked into their heads, and the input into
the attention heads. Each of these has copies of the ops, with the dimension of the heads dropped,
and the results are concatenated.
-/

namespace LiteRt.Qnn

open LiteRt.Lib G2G

/-- Whether an output of one op is an input of another, for each of the connections. -/
def allConnected : List (OpWrapper × Nat × OpWrapper × Nat) → G2G Bool
  | [] => pure true
  | c :: connections => do
    let output ← getOutputTensor c.1 c.2.1
    let input ← getInputTensor c.2.2.1 c.2.2.2
    if output = input then allConnected connections else pure false

def eraseDimension (dimensions : List Nat) (i : Nat) : G2G (List Nat) :=
  if i < dimensions.length then pure (dimensions.eraseIdx i) else throw .undefined

def buildUnpackOp (input : Nat) (outputs : List Nat) (axis : Nat) : OpWrapper where
  opCode := .unPack
  inputs := [input]
  outputs := outputs
  scalarParam := some (.axis axis)

def createSliceOp (input output ranges : Nat) : OpWrapper where
  opCode := .stridedSlice
  inputs := [input]
  outputs := [output]
  tensorParams := [ranges]

/-- So many new tensors with the same dimensions. -/
def cloneNativeTensors (src : Nat) (dimensions : List Nat) : Nat → G2G (List Nat)
  | 0 => pure []
  | n + 1 => do
    let output ← cloneNativeTensorFrom src dimensions
    let outputs ← cloneNativeTensors src dimensions n
    pure (output :: outputs)

def unpackTensor (newOps : List OpWrapper) (input unpackDims : Nat) :
    G2G (List Nat × List OpWrapper) := do
  let tensor ← getTensor input
  let numUnpack ← orUndefined tensor.dimensions[unpackDims]?
  let inputDims ← eraseDimension tensor.dimensions unpackDims
  let outputs ← cloneNativeTensors input inputDims numUnpack
  pure (outputs, newOps ++ [buildUnpackOp input outputs unpackDims])

/-- The output of an op without the dimension of the heads. -/
def dropHeads (op : OpWrapper) : G2G (Nat × List Nat) := do
  let output ← getOutputTensor op 0
  let tensor ← getTensor output
  let dimensions ← eraseDimension tensor.dimensions 1
  pure (output, dimensions)

/-- A new tensor for the output of an op of one attention head. -/
def cloneForHead (op : OpWrapper) (numAttnPerKvHeads : Nat) : G2G Nat := do
  let source ← dropHeads op
  let dimensions ← divideDimension source.2 1 numAttnPerKvHeads
  cloneNativeTensorFrom source.1 dimensions

/-- The signed value is converted for the division, and back. -/
def divideRange (range : Int) (n : Nat) : Int := (range % 4294967296 / n).bmod 4294967296

/-- The ranges of a slice without those of the heads. -/
def rangesForHead (slice : OpWrapper) (numAttnPerKvHeads : Nat) : G2G Nat := do
  let param ← orUndefined slice.tensorParams[0]?
  let paramTensor ← getTensor param
  let paramData ← orUndefined paramTensor.getInt32Data
  if paramData.length < 6 then
    throw .undefined
  else
    let ranges := paramData.take 3 ++ paramData.drop 6
    let range ← orUndefined ranges[4]?
    if numAttnPerKvHeads = 0 then
      throw .undefined
    else
      createStaticTensor paramTensor.quantParams [ranges.length / 3, 3]
        (.int32 (ranges.set 4 (divideRange range numAttnPerKvHeads)))

def sliceForHead (slice : OpWrapper) (input numAttnPerKvHeads : Nat) :
    G2G (Nat × OpWrapper) := do
  let ranges ← rangesForHead slice numAttnPerKvHeads
  let output ← cloneForHead slice numAttnPerKvHeads
  pure (output, createSliceOp input output ranges)

/-- The ops of the pattern that the heads have copies of. -/
structure KvAttention where
  scaleMul : OpWrapper
  qKcacheMatmul : OpWrapper
  qKsliceMatmul : OpWrapper
  qkConcat : OpWrapper
  maskAdd : OpWrapper
  postMaskReshape : OpWrapper
  softmax : OpWrapper
  qkVcacheSlice : OpWrapper
  qkVsliceSlice : OpWrapper
  qkVcacheMatmul : OpWrapper
  qkVsliceMatmul : OpWrapper
  qkvAdd : OpWrapper

/-- The tensors of one head. -/
structure KvHead where
  scaleMulInput : Nat
  kCache : Nat
  kSlice : Nat
  vCache : Nat
  vSlice : Nat

def buildSingleShaByUnpackAxis1 (newOps : List OpWrapper) (numAttnPerKvHeads : Nat)
    (head : KvHead) (ops : KvAttention) : G2G (Nat × List OpWrapper) := do
  let mulSource ← dropHeads ops.scaleMul
  let mulOutput ← cloneNativeTensorFrom mulSource.1 mulSource.2
  let mul := ops.scaleMul.updateTensors [some head.scaleMulInput, none] [some mulOutput]
  let qKcacheOutput ← cloneForHead ops.qKcacheMatmul numAttnPerKvHeads
  let qKcacheMatmul := ops.qKcacheMatmul.updateTensors [some mulOutput, some head.kCache]
    [some qKcacheOutput]
  let qKsliceOutput ← cloneForHead ops.qKsliceMatmul numAttnPerKvHeads
  let qKsliceMatmul := ops.qKsliceMatmul.updateTensors [some mulOutput, some head.kSlice]
    [some qKsliceOutput]
  let concatOutput ← cloneForHead ops.qkConcat numAttnPerKvHeads
  let concat := buildConcatenationOp [qKcacheOutput, qKsliceOutput] concatOutput 2
  let maskAddOut ← getOutputTensor ops.maskAdd 0
  let maskAddTensor ← getTensor maskAddOut
  if maskAddTensor.dimensions.length < 2 then
    throw .undefined
  else
    let maskAddOutput ← cloneNativeTensorFrom maskAddOut
      ((maskAddTensor.dimensions.set 0 1).set 1 1)
    let maskAdd := ops.maskAdd.updateTensors [some concatOutput, none] [some maskAddOutput]
    let reshapeOutput ← cloneForHead ops.postMaskReshape numAttnPerKvHeads
    let reshape := ops.postMaskReshape.updateTensors [some maskAddOutput] [some reshapeOutput]
    let softmaxOutput ← cloneForHead ops.softmax numAttnPerKvHeads
    let softmax := ops.softmax.updateTensors [some reshapeOutput] [some softmaxOutput]
    let vcacheSlice ← sliceForHead ops.qkVcacheSlice softmaxOutput numAttnPerKvHeads
    let vsliceSlice ← sliceForHead ops.qkVsliceSlice softmaxOutput numAttnPerKvHeads
    let vcacheOutput ← cloneForHead ops.qkVcacheMatmul numAttnPerKvHeads
    let vcacheMatmul := ops.qkVcacheMatmul.updateTensors [some vcacheSlice.1, some head.vCache]
      [some vcacheOutput]
    let vsliceOutput ← cloneForHead ops.qkVsliceMatmul numAttnPerKvHeads
    let vsliceMatmul := ops.qkVsliceMatmul.updateTensors [some vsliceSlice.1, some head.vSlice]
      [some vsliceOutput]
    let addOutput ← cloneForHead ops.qkvAdd numAttnPerKvHeads
    let add := ops.qkvAdd.updateTensors [some vcacheOutput, some vsliceOutput] [some addOutput]
    pure (addOutput, newOps ++ [mul, qKcacheMatmul, qKsliceMatmul, concat, maskAdd, reshape,
      softmax, vcacheSlice.2, vsliceSlice.2, vcacheMatmul, vsliceMatmul, add])

/-- The tensors that the heads were unpacked into. -/
structure KvHeads where
  scaleMul : List Nat
  kCache : List Nat
  kSlice : List Nat
  vCache : List Nat
  vSlice : List Nat

/-- The body of the loops, for the attention heads `p.2` of each of the heads `p.1`. -/
def buildKvShas (heads : KvHeads) (ops : KvAttention) (numAttnPerKvHeads : Nat) :
    List (Nat × Nat) → List OpWrapper → G2G (List Nat × List OpWrapper)
  | [], newOps => pure ([], newOps)
  | p :: places, newOps => do
    let scaleMulInput ← orUndefined heads.scaleMul[p.1 * numAttnPerKvHeads + p.2]?
    let kCache ← orUndefined heads.kCache[p.1]?
    let kSlice ← orUndefined heads.kSlice[p.1]?
    let vCache ← orUndefined heads.vCache[p.1]?
    let vSlice ← orUndefined heads.vSlice[p.1]?
    let sha ← buildSingleShaByUnpackAxis1 newOps numAttnPerKvHeads
      ⟨scaleMulInput, kCache, kSlice, vCache, vSlice⟩ ops
    let shas ← buildKvShas heads ops numAttnPerKvHeads places sha.2
    pure (sha.1 :: shas.1, shas.2)

/-- The new ops, unless the numbers of heads do not match. -/
def buildKvSwapped (ops : KvAttention) (lastOp : OpWrapper) : G2G (List OpWrapper) := do
  let kCacheInput ← getInputTensor ops.qKcacheMatmul 1
  let kCache ← unpackTensor [] kCacheInput 1
  let kSliceInput ← getInputTensor ops.qKsliceMatmul 1
  let kSlice ← unpackTensor kCache.2 kSliceInput 1
  let scaleMulIn ← getInputTensor ops.scaleMul 0
  let scaleMul ← unpackTensor kSlice.2 scaleMulIn 1
  let vCacheInput ← getInputTensor ops.qkVcacheMatmul 1
  let vCache ← unpackTensor scaleMul.2 vCacheInput 1
  let vSliceInput ← getInputTensor ops.qkVsliceMatmul 1
  let vSlice ← unpackTensor vCache.2 vSliceInput 1
  let numKvHeads := kCache.1.length
  let numAttnHeads := scaleMul.1.length
  if numKvHeads = 0 then
    throw .undefined
  else
    let numAttnPerKvHeads := numAttnHeads / numKvHeads
    -- A tensor was unpacked into as many as its dimension tells.
    if numKvHeads = kSlice.1.length ∧ numKvHeads = vCache.1.length ∧
        numKvHeads = vSlice.1.length then
      let places := (List.range numKvHeads).flatMap fun i =>
        (List.range numAttnPerKvHeads).map fun j => (i, j)
      let shas ← buildKvShas ⟨scaleMul.1, kCache.1, kSlice.1, vCache.1, vSlice.1⟩ ops
        numAttnPerKvHeads places vSlice.2
      let patternOutput ← getOutputTensor lastOp 0
      pure (shas.2 ++ [buildConcatenationOp shas.1 patternOutput 2])
    else
      pure []

def optimizeKvSwappedFastVlmPrefill (validate : Nat → OpWrapper → Bool) : CustomTransform :=
  fun startIndex patternSize => do
    let g ← get
    match (g.ops.drop startIndex).take 17 with
    | [qScaleMul, qScaleReshape, qkCacheMatmul, qkSliceMatmul, qkConcat, preMaskReshape, maskAdd,
        postMaskReshape, softmax, qkvCacheSlice, qkvSliceSlice, qkvCacheMatmul, qkvSliceMatmul,
        qkvAdd, qkvReshape, qkvTranspose, oProjReshape] =>
      let connected ← allConnected [
        (qScaleMul, 0, qScaleReshape, 0), (qScaleReshape, 0, qkCacheMatmul, 0),
        (qScaleReshape, 0, qkSliceMatmul, 0), (qkCacheMatmul, 0, qkConcat, 0),
        (qkSliceMatmul, 0, qkConcat, 1), (qkConcat, 0, preMaskReshape, 0),
        (preMaskReshape, 0, maskAdd, 0), (maskAdd, 0, postMaskReshape, 0),
        (postMaskReshape, 0, softmax, 0), (softmax, 0, qkvCacheSlice, 0),
        (softmax, 0, qkvSliceSlice, 0), (qkvCacheSlice, 0, qkvCacheMatmul, 0),
        (qkvSliceSlice, 0, qkvSliceMatmul, 0), (qkvCacheMatmul, 0, qkvAdd, 0),
        (qkvSliceMatmul, 0, qkvAdd, 1), (qkvAdd, 0, qkvReshape, 0),
        (qkvReshape, 0, qkvTranspose, 0), (qkvTranspose, 0, oProjReshape, 0)]
      if !connected then
        pure 1
      else
        let lastOp ← orUndefined g.ops[startIndex + patternSize - 1]?
        let newOps ← buildKvSwapped ⟨qScaleMul, qkCacheMatmul, qkSliceMatmul, qkConcat, maskAdd,
          postMaskReshape, softmax, qkvCacheSlice, qkvSliceSlice, qkvCacheMatmul, qkvSliceMatmul,
          qkvAdd⟩ lastOp
        if newOps.isEmpty then
          pure 1
        else
          let valid ← validateAll validate newOps
          if valid then
            modify fun g => { g with
              ops := g.ops.take startIndex ++ newOps ++ g.ops.drop (startIndex + patternSize) }
            pure newOps.length
          else
            pure 1
    | _ => throw .undefined

def kvSwappedFastVlmPrefill : List QnnOpCode :=
  [.elementWiseBinary, .reshape, .matMul, .matMul, .concat, .reshape, .elementWiseBinary, .reshape,
    .softmax, .stridedSlice, .stridedSlice, .matMul, .matMul, .elementWiseBinary, .reshape,
    .transpose, .reshape]

end LiteRt.Qnn
