import LiteRt.Lib.Outcome
import Mathlib.Data.List.Basic
import Mathlib.Logic.Function.Basic

/-!
# Op wrappers and the tensor pool

An op refers to its tensors by their places in the pool. The names of the tensors of a pool are
different, so equal tensors are the same one.
-/

namespace LiteRt.Qnn

inductive Failure
  | undefined
  /-- The loop did not end in the number of rounds that was allowed for. -/
  | depth
  deriving DecidableEq, Repr

/-- The op codes that the rewrites below name. -/
inductive QnnOpCode
  | cast
  | concat
  | convert
  | elementWiseBinary
  | elementWiseSelect
  | elementWiseUnary
  | matMul
  | quantize
  | reshape
  | softmax
  | split
  | stridedSlice
  | transpose
  | unPack
  | other (code : Nat)
  deriving DecidableEq, Repr

inductive TensorType
  | appWrite
  | appRead
  | native
  | static
  deriving DecidableEq, Repr

inductive QuantizeParams
  | undefined
  | scaleOffset (scale : Float32) (zeroPoint : Int)
  | other

/-- The data of a tensor, as the type that its data type stands for. -/
inductive TensorData
  | none
  | int8 (values : List Int)
  | int16 (values : List Int)
  | int32 (values : List Int)
  | uint32 (values : List Nat)
  | float (values : List Float32)
  | other

structure TensorWrapper where
  type : TensorType
  quantParams : QuantizeParams := .undefined
  dimensions : List Nat
  data : TensorData := .none

namespace TensorWrapper

def isTensorStatic (tensor : TensorWrapper) : Bool := tensor.type = .static

def isSubgraphOutput (tensor : TensorWrapper) : Bool := tensor.type = .appRead

/-- Only static tensors and outputs have data. -/
def hasData (tensor : TensorWrapper) : Bool := tensor.isTensorStatic || tensor.isSubgraphOutput

/-- The data, unless there is none or it has another type. -/
def getInt16Data (tensor : TensorWrapper) : Option (List Int) :=
  match tensor.data with
  | .int16 values => if tensor.hasData ∧ values ≠ [] then some values else none
  | _ => none

def getInt32Data (tensor : TensorWrapper) : Option (List Int) :=
  match tensor.data with
  | .int32 values => if tensor.hasData ∧ values ≠ [] then some values else none
  | _ => none

def getFloatData (tensor : TensorWrapper) : Option (List Float32) :=
  match tensor.data with
  | .float values => if tensor.hasData ∧ ¬ values.isEmpty then some values else none
  | _ => none

def getTensorNumElements (tensor : TensorWrapper) : Nat :=
  if tensor.dimensions.isEmpty then 0 else tensor.dimensions.foldl (· * ·) 1 % 4294967296

end TensorWrapper

inductive UnaryOperation
  | not
  | other (code : Nat)
  deriving DecidableEq, Repr

inductive BinaryOperation
  | add
  | multiply
  | other (code : Nat)
  deriving DecidableEq, Repr

/-- The first scalar parameter of an op. -/
inductive ScalarParam
  | unaryOperation (operation : UnaryOperation)
  | binaryOperation (operation : BinaryOperation)
  | axis (axis : Nat)
  | other
  deriving DecidableEq, Repr

structure OpWrapper where
  opCode : QnnOpCode
  inputs : List Nat
  outputs : List Nat
  scalarParam : Option ScalarParam := none
  /-- Static tensors that are parameters. -/
  tensorParams : List Nat := []
  /-- Empty in an op that a builder makes, whose running number nothing reads. -/
  name : String := ""
  deriving DecidableEq, Repr

def isElementWiseMultiply (op : OpWrapper) : Bool :=
  op.opCode = .elementWiseBinary ∧ op.scalarParam = some (.binaryOperation .multiply)

def isElementWiseAdd (op : OpWrapper) : Bool :=
  op.opCode = .elementWiseBinary ∧ op.scalarParam = some (.binaryOperation .add)

def isElementWiseNot (op : OpWrapper) : Bool :=
  op.opCode = .elementWiseUnary ∧ op.scalarParam = some (.unaryOperation .not)

/-- The tensors are replaced where there is a new one, if the numbers of tensors are right. -/
def OpWrapper.updateTensors (op : OpWrapper) (inputs outputs : List (Option Nat)) : OpWrapper :=
  if inputs.length ≠ op.inputs.length ∨ outputs.length ≠ op.outputs.length then
    op
  else
    { op with
      inputs := List.zipWith (fun new old => new.getD old) inputs op.inputs
      outputs := List.zipWith (fun new old => new.getD old) outputs op.outputs }

/-- The ops of a graph, the tensors, and the number of ops that were validated so far. -/
structure Graph where
  ops : List OpWrapper
  pool : List TensorWrapper
  calls : Nat := 0

abbrev G2G := EStateM Failure Graph

namespace G2G

def orUndefined {α : Type} : Option α → G2G α
  | some a => pure a
  | none => throw .undefined

def addTensor (tensor : TensorWrapper) : G2G Nat := do
  let g ← get
  set { g with pool := g.pool ++ [tensor] }
  pure g.pool.length

def getTensor (t : Nat) : G2G TensorWrapper := do
  let g ← get
  orUndefined g.pool[t]?

def createStaticTensor (quantParams : QuantizeParams) (dimensions : List Nat) (data : TensorData) :
    G2G Nat :=
  addTensor { type := .static, quantParams := quantParams, dimensions := dimensions, data := data }

def cloneNativeTensorFrom (src : Nat) (dimensions : List Nat) : G2G Nat := do
  let tensor ← getTensor src
  addTensor { type := .native, quantParams := tensor.quantParams, dimensions := dimensions }

def getInputTensor (op : OpWrapper) (i : Nat) : G2G Nat := orUndefined op.inputs[i]?

def getOutputTensor (op : OpWrapper) (i : Nat) : G2G Nat := orUndefined op.outputs[i]?

/-- The answer of the validator to its next call. -/
def validateOpConfig (validate : Nat → OpWrapper → Bool) (op : OpWrapper) : G2G Bool := do
  let g ← get
  set { g with calls := g.calls + 1 }
  pure (validate g.calls op)

/-- All of them, up to the first one that is not valid. -/
def validateAll (validate : Nat → OpWrapper → Bool) : List OpWrapper → G2G Bool
  | [] => pure true
  | op :: ops => do
    let valid ← validateOpConfig validate op
    if valid then validateAll validate ops else pure false

end G2G

/-- The outputs of two ops are swapped. -/
def swapOutputs (ops : List OpWrapper) (i j : Nat) : List OpWrapper :=
  match ops[i]?, ops[j]? with
  | some a, some b => (ops.set i { a with outputs := b.outputs }).set j
      { b with outputs := a.outputs }
  | _, _ => ops

/-!
## Matching patterns of op codes

A rewrite is tried at a place where the op codes of its pattern stand in a row. It tells how many
ops the search goes on behind that place.
-/

open LiteRt.Lib

/-- The ops that the pattern names stand at a place. -/
structure MatchedAt (ops : List OpWrapper) (patternOps : List QnnOpCode) (p : Nat) : Prop where
  inside : p + patternOps.length ≤ ops.length
  opCode : ∀ i < patternOps.length, (ops[p + i]?).map (·.opCode) = patternOps[i]?

/-- A rewrite at a place of the ops. -/
abbrev CustomTransform := Nat → Nat → G2G Nat

/-- The matched ops and those around them. -/
theorem MatchedAt.split {ops : List OpWrapper} {patternOps : List QnnOpCode} {p : Nat}
    (h : MatchedAt ops patternOps p) :
    ∃ pre old post, ops = pre ++ old ++ post ∧ pre.length = p ∧
      old.map (·.opCode) = patternOps := by
  have hinside := h.inside
  refine ⟨ops.take p, (ops.drop p).take patternOps.length,
    (ops.drop p).drop patternOps.length, ?_, ?_, ?_⟩
  · rw [List.append_assoc, List.take_append_drop, List.take_append_drop]
  · rw [List.length_take]
    omega
  · refine List.ext_getElem? fun i => ?_
    rw [List.getElem?_map]
    by_cases hi : i < patternOps.length
    · rw [List.getElem?_take_of_lt hi, List.getElem?_drop, h.opCode i hi]
    · rw [List.getElem?_eq_none (Nat.le_of_not_lt hi), List.getElem?_eq_none]
      · rfl
      · rw [List.length_take]
        omega

/-- An op of the matched ones. -/
theorem getElem?_old {pre old post : List OpWrapper} {i : Nat} (hi : i < old.length) :
    (pre ++ old ++ post)[pre.length + i]? = old[i]? := by
  rw [List.append_assoc, List.getElem?_append_right (Nat.le_add_right _ _),
    Nat.add_sub_cancel_left, List.getElem?_append_left hi]

open G2G

/-- The first output of one op is the first input of the next one. -/
def isConnected (op nextOp : OpWrapper) : G2G Bool := do
  let output ← getOutputTensor op 0
  let input ← getInputTensor nextOp 0
  pure (output = input)

/-- Each op is connected to the next one. -/
def isChain : List OpWrapper → G2G Bool
  | op :: nextOp :: ops => do
    let connected ← isConnected op nextOp
    if connected then isChain (nextOp :: ops) else pure false
  | _ => pure true

end LiteRt.Qnn
