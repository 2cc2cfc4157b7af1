import LiteRt.Qnn.Transform

/-!
# Attention with one head at a time

The attention over all heads is replaced: the input and the mask are split, each head has copies
of the ops, and the results are concatenated.
-/

namespace LiteRt.Qnn

open LiteRt.Lib G2G

def divideDimension (dimensions : List Nat) (i numHeads : Nat) : G2G (List Nat) := do
  let dimension ← orUndefined dimensions[i]?
  if numHeads = 0 then
    throw .undefined
  else
    pure (dimensions.set i (dimension / numHeads))

/-- Negative axes count from the end. -/
def adjustedAxis (axis : Int) (rank : Nat) : Nat :=
  ((if 0 ≤ axis then axis else axis + rank) % 4294967296).toNat

def buildSplitOp (axisTensor input : Nat) (outputs : List Nat) (numSplits : Nat) :
    G2G (List OpWrapper) := do
  let axisTensor ← getTensor axisTensor
  if axisTensor.isTensorStatic then
    let inputTensor ← getTensor input
    match axisTensor.getInt32Data with
    | none => pure []
    | some axisData =>
      let axis := adjustedAxis (axisData.headD 0) inputTensor.dimensions.length
      let dimension ← orUndefined inputTensor.dimensions[axis]?
      if numSplits = 0 then
        throw .undefined
      else
        let sliceSize := dimension / numSplits
        let splitIndice := (List.range (numSplits - 1)).map fun i =>
          (i + 1) * sliceSize % 4294967296
        let splitIndiceTensor ← createStaticTensor axisTensor.quantParams [numSplits - 1]
          (.uint32 splitIndice)
        pure [{
          opCode := .split
          inputs := [input]
          outputs := outputs
          scalarParam := some (.axis axis)
          tensorParams := [splitIndiceTensor] }]
  else
    pure []

def buildConcatenationOp (inputs : List Nat) (output axis : Nat) : OpWrapper where
  opCode := .concat
  inputs := inputs
  outputs := [output]
  scalarParam := some (.axis axis)

def buildReshapeOp (input output : Nat) : OpWrapper where
  opCode := .reshape
  inputs := [input]
  outputs := [output]

def buildSingleSha (newOps : List OpWrapper) (shaInput maskInput : Nat)
    (mulOp matmulOp1 addOp softmaxOp matmulOp2 : OpWrapper) (numHeads : Nat) :
    G2G (Nat × List OpWrapper) := do
  let mulOut ← getOutputTensor mulOp 0
  let shaTensor ← getTensor shaInput
  let mulOutput ← cloneNativeTensorFrom mulOut shaTensor.dimensions
  let mulOp := mulOp.updateTensors [some shaInput, none] [some mulOutput]
  let matmulOp1Output ← getOutputTensor matmulOp1 0
  let matmulTensor1 ← getTensor matmulOp1Output
  let newMatmul1OutputDim ← divideDimension matmulTensor1.dimensions 2 numHeads
  let newMatmul1Output ← cloneNativeTensorFrom matmulOp1Output newMatmul1OutputDim
  let matmulOp1 := matmulOp1.updateTensors [some mulOutput, none] [some newMatmul1Output]
  let addOut ← getOutputTensor addOp 0
  let newAddOutput ← cloneNativeTensorFrom addOut newMatmul1OutputDim
  let addOp := addOp.updateTensors [some newMatmul1Output, some maskInput] [some newAddOutput]
  let softmaxOut ← getOutputTensor softmaxOp 0
  let addTensor ← getTensor newAddOutput
  let softmaxOutput ← cloneNativeTensorFrom softmaxOut addTensor.dimensions
  let softmaxOp := softmaxOp.updateTensors [some newAddOutput] [some softmaxOutput]
  let matmulOp2Out ← getOutputTensor matmulOp2 0
  let matmulTensor2 ← getTensor matmulOp2Out
  let matmulOp2OutDim ← divideDimension matmulTensor2.dimensions 2 numHeads
  let newMatmul2Output ← cloneNativeTensorFrom matmulOp2Out matmulOp2OutDim
  let matmulOp2 := matmulOp2.updateTensors [some softmaxOutput, none] [some newMatmul2Output]
  pure (newMatmul2Output, newOps ++ [mulOp] ++ [matmulOp1] ++ [addOp] ++ [softmaxOp] ++ [matmulOp2])

/-- The parts of a tensor that is split along a dimension. -/
def splitOutputs (tensor i numHeads : Nat) : Nat → G2G (List Nat)
  | 0 => pure []
  | n + 1 => do
    let input ← getTensor tensor
    let dimensions ← divideDimension input.dimensions i numHeads
    let output ← cloneNativeTensorFrom tensor dimensions
    let outputs ← splitOutputs tensor i numHeads n
    pure (output :: outputs)

/-- The ops of each head, for the parts of the input and the mask. -/
def buildShas (mulOp matmulOp1 addOp softmaxOp matmulOp2 : OpWrapper) (numHeads : Nat) :
    List (Nat × Nat) → List OpWrapper → G2G (List Nat × List OpWrapper)
  | [], newOps => pure ([], newOps)
  | p :: heads, newOps => do
    let sha ← buildSingleSha newOps p.1 p.2 mulOp matmulOp1 addOp softmaxOp matmulOp2 numHeads
    let shas ← buildShas mulOp matmulOp1 addOp softmaxOp matmulOp2 numHeads heads sha.2
    pure (sha.1 :: shas.1, shas.2)

def mha2Sha (mulOp transposeOp1 matmulOp1 addOp softmaxOp matmulOp2 : OpWrapper)
    (patternInput patternOutput : Nat) : G2G (List OpWrapper) := do
  let transposeOut ← getOutputTensor transposeOp1 0
  let transposeTensor ← getTensor transposeOut
  let transposeOutput ← cloneNativeTensorFrom patternInput transposeTensor.dimensions
  let newTranspose1 := transposeOp1.updateTensors [some patternInput] [some transposeOutput]
  let inputTensor ← getTensor patternInput
  let numHeads ← orUndefined inputTensor.dimensions[2]?
  let mhaInput ← getOutputTensor newTranspose1 0
  let shaInputs ← splitOutputs mhaInput 1 numHeads numHeads
  let splitAxis ← createStaticTensor .undefined [1] (.int32 [1])
  let splitOp ← buildSplitOp splitAxis mhaInput shaInputs numHeads
  let maskInput ← getInputTensor addOp 1
  let newMaskInputs ← splitOutputs maskInput 2 numHeads numHeads
  let maskSplitAxis ← createStaticTensor .undefined [1] (.int32 [2])
  let maskSplitOp ← buildSplitOp maskSplitAxis maskInput newMaskInputs numHeads
  let shas ← buildShas mulOp matmulOp1 addOp softmaxOp matmulOp2 numHeads
    (shaInputs.zip newMaskInputs) ([newTranspose1] ++ splitOp ++ maskSplitOp)
  let outputTensor ← getTensor patternOutput
  let concatOutput ← cloneNativeTensorFrom patternOutput (1 :: outputTensor.dimensions)
  pure (shas.2 ++ [buildConcatenationOp shas.1 concatOutput 3] ++
    [buildReshapeOp concatOutput patternOutput])

def transformEmbeddingGemma (validate : Nat → OpWrapper → Bool) : CustomTransform :=
  fun startIndex patternSize => do
    let g ← get
    let mulOp ← orUndefined g.ops[startIndex]?
    let transposeOp1 ← orUndefined g.ops[startIndex + 1]?
    let reshapeOp1 ← orUndefined g.ops[startIndex + 2]?
    let matmulOp1 ← orUndefined g.ops[startIndex + 3]?
    let addOp ← orUndefined g.ops[startIndex + 4]?
    let softmaxOp ← orUndefined g.ops[startIndex + 5]?
    let matmulOp2 ← orUndefined g.ops[startIndex + 6]?
    let reshapeOp2 ← orUndefined g.ops[startIndex + 7]?
    let transposeOp2 ← orUndefined g.ops[startIndex + 8]?
    let reshapeOp3 ← orUndefined g.ops[startIndex + 9]?
    let connected ← isChain [mulOp, transposeOp1, reshapeOp1, matmulOp1, addOp, softmaxOp,
      matmulOp2, reshapeOp2, transposeOp2, reshapeOp3]
    let isMatch := connected && isElementWiseMultiply mulOp && isElementWiseAdd addOp
    if !isMatch then
      pure 1
    else
      let patternInput ← getInputTensor mulOp 0
      let patternOutput ← getOutputTensor reshapeOp3 0
      let newOps ← mha2Sha mulOp transposeOp1 matmulOp1 addOp softmaxOp matmulOp2 patternInput
        patternOutput
      if newOps.isEmpty then
        pure 1
      else
        let valid ← validateAll validate newOps
        if valid then
          modify fun g => { g with
            ops := g.ops.take startIndex ++ newOps ++ g.ops.drop (startIndex + patternSize) }
          pure newOps.length
        else
          pure 1

def embeddingGemma : List QnnOpCode :=
  [.elementWiseBinary, .transpose, .reshape, .matMul, .elementWiseBinary, .softmax, .matMul,
    .reshape, .transpose, .reshape]

end LiteRt.Qnn
