import LiteRt.Lib.ByteOrder
import LiteRt.Lib.Outcome
import LiteRt.Lib.Overwrite
import Mathlib.Logic.Function.Basic

/-!
# Replacing magic numbers

A magic number stands for a dimension that is known only when the model is initialized. Its
multiples are replaced in the dimensions of the tensors, which are kept twice, and in the
constant parameters of the ops that compute shapes. What is read only is the `Model`, and the
numbers are the `Contents`.
-/

namespace LiteRt.MagicNumbers

open LiteRt.Lib

inductive Failure
  | status
  | undefined
  /-- The composites are nested deeper than what was allowed for. -/
  | depth
  deriving DecidableEq, Repr

structure Config where
  magicNumber : Int
  targetNumber : Int
  /-- Empty for a null pointer. -/
  signaturePrefix : List UInt8 := []

inductive OpCode
  | tflFill
  | tflReshape
  | tflBroadcastTo
  | tflRange
  | tflSlice
  | shloComposite
  | other (code : Nat)
  deriving DecidableEq, Repr

structure CompositeOptions where
  name : String
  decompositionSubgraphIndex : Int
  deriving DecidableEq, Repr

structure Op where
  opCode : OpCode
  /-- The places of the operands among the tensors of the subgraph. -/
  inputs : List Nat
  compositeOptions : Option CompositeOptions := none
  deriving DecidableEq, Repr

structure Tensor where
  tensorIndex : Nat
  ranked : Bool
  deriving DecidableEq, Repr

structure Subgraph where
  tensors : List Tensor
  ops : List Op

structure Signature where
  key : List UInt8
  /-- The place of its subgraph in the model. -/
  subgraph : Nat

inductive TensorType
  | int32
  | int64
  | other
  deriving DecidableEq, Repr

structure TflTensor where
  type : TensorType
  buffer : Nat

structure TflSubgraph where
  tensors : List TflTensor
  numOperators : Nat

structure Buffer where
  /-- The data is part of the flatbuffer. -/
  hasData : Bool
  offset : Nat := 0
  size : Nat := 0

structure FlatBufferModel where
  subgraphs : List TflSubgraph
  buffers : List Buffer
  hasAllocation : Bool

structure Model where
  subgraphs : List Subgraph
  signatures : List Signature
  fbModel : FlatBufferModel

/-- Where the data of a buffer is: in the flatbuffer, or in the file behind it. -/
inductive Region
  | data (buffer : Nat)
  | appended (offset size : Nat)
  deriving DecidableEq, Repr

structure Contents where
  /-- The dimensions of a tensor of a subgraph. -/
  dimensions : Nat → Nat → List Int
  /-- The same in the flatbuffer. -/
  shape : Nat → Nat → List Int
  /-- The bytes of a buffer in the flatbuffer. -/
  data : Nat → List UInt8
  /-- The bytes of the file. -/
  allocation : List UInt8
  /-- The attributes of a composite op of a subgraph. -/
  compositeAttributes : Nat → Nat → List UInt8
  /-- The same in the flatbuffer. -/
  tflCompositeAttributes : Nat → Nat → List UInt8

abbrev Update := EStateM Failure Contents

namespace Contents

variable (c : Contents)

def memory : Region → List UInt8
  | .data b => c.data b
  | .appended _ _ => c.allocation

def size : Region → Nat
  | .data b => (c.data b).length
  | .appended _ n => n

end Contents

def Region.start : Region → Nat
  | .data _ => 0
  | .appended offset _ => offset

namespace Contents

/-- The `n` bytes at a place in a region. -/
def load (c : Contents) (r : Region) (pos n : Nat) : List UInt8 :=
  slice (c.memory r) (r.start + pos) n

def store (c : Contents) (r : Region) (pos : Nat) (bytes : List UInt8) : Contents :=
  match r with
  | .data b => { c with data := Function.update c.data b (overwrite 0 (c.data b) pos bytes) }
  | .appended offset _ => { c with allocation := overwrite 0 c.allocation (offset + pos) bytes }

/-- The element of `w` bytes at a place. -/
def element (c : Contents) (r : Region) (w i : Nat) : Int := signed (c.load r (w * i) w)

def setDimension (c : Contents) (s t i : Nat) (n : Int) : Contents :=
  { c with
    dimensions := Function.update c.dimensions s
      (Function.update (c.dimensions s) t ((c.dimensions s t).set i n)) }

def mutateShape (c : Contents) (s t i : Nat) (n : Int) : Contents :=
  { c with
    shape := Function.update c.shape s (Function.update (c.shape s) t ((c.shape s t).set i n)) }

end Contents

def getInputIndexOfMagicNumber : OpCode → Option Nat
  | .tflFill => some 0
  | .tflReshape => some 1
  | .tflBroadcastTo => some 1
  | .tflRange => some 1
  | .tflSlice => some 2
  | .shloComposite => none
  | .other _ => none

def getMagicNumberFactor (value magicNumber : Int) : Int :=
  let factor := value.tdiv magicNumber
  if factor * magicNumber = value then factor else 0

/-- The number that replaces a value, or none if the value is kept. A division by zero and a
signed overflow are undefined. -/
def replacement (magicNumber targetNumber value : Int) : Except Failure (Option Int) :=
  if magicNumber = 0 ∨ ¬ FitsBytes 8 (value.tdiv magicNumber) then
    .error .undefined
  else
    let factor := getMagicNumberFactor value magicNumber
    if factor = 0 then
      .ok none
    else if FitsBytes 8 (targetNumber * factor) then
      .ok (some (targetNumber * factor))
    else
      .error .undefined

def updateDimension (config : Config) (s t tidx i : Nat) : Update Nat := do
  let c ← get
  match replacement config.magicNumber config.targetNumber ((c.dimensions s t).getD i 0) with
  | .error e => throw e
  | .ok none => pure 0
  | .ok (some n) =>
    set (c.setDimension s t i (narrow 4 n))
    if i < (c.shape s tidx).length then
      modify fun c => c.mutateShape s tidx i (narrow 4 n)
      pure 1
    else
      throw .undefined

def updateMagicNumberInDimensions (m : Model) (config : Config) (s t : Nat) (tensor : Tensor) :
    Update Nat :=
  if tensor.ranked then
    match m.fbModel.subgraphs[s]? with
    | none => throw .undefined
    | some tflSubgraph =>
      if tensor.tensorIndex < tflSubgraph.tensors.length then do
        let c ← get
        tally (updateDimension config s t tensor.tensorIndex) (List.range (c.dimensions s t).length)
      else
        throw .undefined
  else
    pure 0

/-- One element of `w` bytes. The numbers have its type, too. -/
def updateElement (w : Nat) (magicNumber targetNumber : Int) (r : Region) (i : Nat) :
    Update Nat := do
  let c ← get
  match replacement magicNumber targetNumber (c.element r w i) with
  | .error e => throw e
  | .ok none => pure 0
  | .ok (some n) =>
    set (c.store r (w * i) (signedBytes w n))
    pure 1

/-- All elements of a region. What is behind its end must not be read or written. -/
def updateMagicNumber (w : Nat) (config : Config) (r : Region) : Update Nat := do
  let c ← get
  if w ∣ c.size r ∧ r.start + c.size r ≤ (c.memory r).length then
    tally (updateElement w (narrow w config.magicNumber) (narrow w config.targetNumber) r)
      (List.range (c.size r / w))
  else
    throw .undefined

/-- Where the data of a buffer is, if there is any. -/
def regionOf (fbModel : FlatBufferModel) (b : Nat) (buffer : Buffer) : Option Region :=
  if buffer.hasData then
    some (.data b)
  else if 1 < buffer.offset ∧ fbModel.hasAllocation then
    some (.appended buffer.offset buffer.size)
  else
    none

def updateMagicNumberInParam (m : Model) (config : Config) (s : Nat) (tensor : Tensor) :
    Update Nat :=
  match m.fbModel.subgraphs[s]? with
  | none => throw .undefined
  | some tflSubgraph =>
    match tflSubgraph.tensors[tensor.tensorIndex]? with
    | none => throw .undefined
    | some paramTensor =>
      match m.fbModel.buffers[paramTensor.buffer]? with
      | none => throw .undefined
      | some buffer =>
        match regionOf m.fbModel paramTensor.buffer buffer with
        | none => pure 0
        | some r =>
          match paramTensor.type with
          | .int32 => updateMagicNumber 4 config r
          | .int64 => updateMagicNumber 8 config r
          | .other => pure 0

def getStableHLOCompositeOptions (op : Op) : Except Failure CompositeOptions :=
  if op.opCode = .shloComposite then
    match op.compositeOptions with
    | some opts => .ok opts
    | none => .error .status
  else
    .error .status

def compositeOpsWhichMayHaveMagicNumbers : List String := ["odml.cache_update"]

def isOpRequiredToUpdateCompositeAttributes (op : Op) : Bool :=
  match getStableHLOCompositeOptions op with
  | .ok opts => compositeOpsWhichMayHaveMagicNumbers.contains opts.name
  | .error _ => false

def getDecompositionSubgraphIndex (m : Model) (op : Op) : Except Failure Nat :=
  match getStableHLOCompositeOptions op with
  | .error e => .error e
  | .ok opts =>
    if 0 ≤ opts.decompositionSubgraphIndex ∧
        opts.decompositionSubgraphIndex < m.subgraphs.length then
      .ok opts.decompositionSubgraphIndex.toNat
    else
      .error .status

section
-- Replaces the numbers in a map of attributes, and counts them.
variable (mutateInts : Int → Int → List UInt8 → Nat × List UInt8)

def updateMagicNumberInCompositeAttributes (m : Model) (config : Config) (s i : Nat) :
    Update Nat :=
  match m.fbModel.subgraphs[s]? with
  | none => throw .undefined
  | some tflSubgraph =>
    if i < tflSubgraph.numOperators then do
      let c ← get
      let updated := mutateInts config.magicNumber config.targetNumber (c.compositeAttributes s i)
      if updated.1 = 0 then
        pure 0
      else
        set { c with
          compositeAttributes := Function.update c.compositeAttributes s
            (Function.update (c.compositeAttributes s) i updated.2)
          tflCompositeAttributes := Function.update c.tflCompositeAttributes s
            (Function.update (c.tflCompositeAttributes s) i
              (overwrite 0 (c.tflCompositeAttributes s i) 0 updated.2)) }
        pure updated.1
    else
      throw .undefined

/-- The part of the update that one op asks for; `decomposition` updates a subgraph. -/
def updateOp (m : Model) (config : Config) (decomposition : Nat → Update Nat) (s : Nat)
    (subgraph : Subgraph) (i : Nat) (op : Op) : Update Nat :=
  if op.opCode = .shloComposite then
    match getDecompositionSubgraphIndex m op with
    | .error e => throw e
    | .ok d => do
      let n ← decomposition d
      if isOpRequiredToUpdateCompositeAttributes op then
        let k ← updateMagicNumberInCompositeAttributes mutateInts m config s i
        pure (n + k)
      else
        pure n
  else
    match getInputIndexOfMagicNumber op.opCode with
    | none => pure 0
    | some magicParamIndex =>
      match op.inputs[magicParamIndex]? with
      | none => throw .status
      | some t =>
        match subgraph.tensors[t]? with
        | none => throw .undefined
        | some tensor => updateMagicNumberInParam m config s tensor

/-- The subgraph, and what its composites stand for; `depth` bounds the nesting. -/
def replaceMagicNumberInSubgraph (m : Model) (config : Config) : Nat → Nat → Update Nat
  | 0, _ => throw .depth
  | depth + 1, s =>
    match m.subgraphs[s]? with
    | none => throw .undefined
    | some subgraph => do
      let n ← tally (fun p => updateMagicNumberInDimensions m config s p.2 p.1)
        subgraph.tensors.zipIdx
      let k ← tally (fun p => updateOp mutateInts m config
        (replaceMagicNumberInSubgraph m config depth) s subgraph p.2 p.1) subgraph.ops.zipIdx
      pure (n + k)

def Config.selects (config : Config) (signature : Signature) : Bool :=
  config.signaturePrefix.isPrefixOf signature.key

def updateMagicNumbersInModel (m : Model) (depth : Nat) (configs : List Config) : Update Nat :=
  tally (fun signature =>
    match m.fbModel.subgraphs[signature.subgraph]? with
    | none => throw .undefined
    | some _ =>
      tally (fun config =>
        if config.selects signature then
          replaceMagicNumberInSubgraph mutateInts m config depth signature.subgraph
        else
          pure 0) configs) m.signatures

end

end LiteRt.MagicNumbers
