import LiteRt.Qnn.Transform

/-!
# Select ops for quantized masks

A mask that is negated, cast, scaled and quantized is computed by one select op between two
constants, which are new static tensors.
-/

namespace LiteRt.Qnn

open LiteRt.Lib G2G

/-- The constants are zeros and the factor of the multiplication. -/
def createGemma3SelectOp (originalOps : List OpWrapper) (startIndex patternSize : Nat) :
    G2G (Option OpWrapper) := do
  let firstOp ← orUndefined originalOps[startIndex]?
  let lastOp ← orUndefined originalOps[startIndex + patternSize - 1]?
  let patternInput ← getInputTensor firstOp 0
  let patternOutput ← getOutputTensor lastOp 0
  let outputTensor ← getTensor patternOutput
  let inputTensor ← getTensor patternInput
  let numElement := inputTensor.getTensorNumElements
  let input1 ← createStaticTensor outputTensor.quantParams inputTensor.dimensions
    (.int16 (List.replicate numElement 0))
  let mulStaticTensor ← getInputTensor lastOp 1
  let staticTensor ← getTensor mulStaticTensor
  match staticTensor.getInt16Data with
  | none => pure none
  | some staticTensorData =>
    let input2 ← createStaticTensor outputTensor.quantParams inputTensor.dimensions
      (.int16 (List.replicate numElement (staticTensorData.headD 0)))
    pure (some {
      opCode := .elementWiseSelect
      inputs := [patternInput, input1, input2]
      outputs := [patternOutput] })

/-- The factor is the smallest value that the quantization of the output can express. -/
def isExpectedMin (quantParam : QuantizeParams) (staticTensorData : List Float32) : Bool :=
  match quantParam with
  | .scaleOffset scale zeroPoint =>
    !(scale * Float32.ofInt (-128 - zeroPoint) != staticTensorData.headD 0)
  | _ => true

/-- The constants are the largest and the smallest values. -/
def createGemma4SelectOp (originalOps : List OpWrapper) (startIndex patternSize : Nat) :
    G2G (Option OpWrapper) := do
  let firstOp ← orUndefined originalOps[startIndex]?
  let lastOp ← orUndefined originalOps[startIndex + patternSize - 1]?
  let mulOp ← orUndefined originalOps[startIndex + patternSize - 2]?
  let patternInput ← getInputTensor firstOp 0
  let inputTensor ← getTensor patternInput
  let numElement := inputTensor.getTensorNumElements
  let patternOutput ← getOutputTensor lastOp 0
  let outputTensor ← getTensor patternOutput
  let mulStaticTensor ← getInputTensor mulOp 1
  let staticTensor ← getTensor mulStaticTensor
  match staticTensor.getFloatData with
  | none => pure none
  | some staticTensorData =>
    if isExpectedMin outputTensor.quantParams staticTensorData then
      let input1 ← createStaticTensor outputTensor.quantParams inputTensor.dimensions
        (.int8 (List.replicate numElement 127))
      let input2 ← createStaticTensor outputTensor.quantParams inputTensor.dimensions
        (.int8 (List.replicate numElement (-128)))
      pure (some {
        opCode := .elementWiseSelect
        inputs := [patternInput, input1, input2]
        outputs := [patternOutput] })
    else
      pure none

def createSelectOp (ops : List OpWrapper) (startIndex patternSize : Nat) (op2 op3 : OpWrapper) :
    G2G (Option OpWrapper) :=
  if isElementWiseMultiply op2 then
    createGemma4SelectOp ops startIndex patternSize
  else if isElementWiseMultiply op3 then
    createGemma3SelectOp ops startIndex patternSize
  else
    pure none

def transformQuantizeInMask (validate : Nat → OpWrapper → Bool) : CustomTransform :=
  fun startIndex patternSize => do
    let g ← get
    let op0 ← orUndefined g.ops[startIndex]?
    let op1 ← orUndefined g.ops[startIndex + 1]?
    let op2 ← orUndefined g.ops[startIndex + 2]?
    let op3 ← orUndefined g.ops[startIndex + 3]?
    let connected ← isChain [op0, op1, op2, op3]
    if !connected then
      pure 1
    else if !isElementWiseNot op0 then
      pure 1
    else
      let select ← createSelectOp g.ops startIndex patternSize op2 op3
      match select with
      | none => pure 1
      | some select =>
        let valid ← validateOpConfig validate select
        if valid then
          modify fun g => { g with
            ops := g.ops.take startIndex ++ [select] ++ g.ops.drop (startIndex + patternSize) }
        pure 1

def gemma3Mask : List QnnOpCode := [.elementWiseUnary, .cast, .quantize, .elementWiseBinary]

def gemma4Mask : List QnnOpCode := [.elementWiseUnary, .cast, .elementWiseBinary, .quantize]

end LiteRt.Qnn
