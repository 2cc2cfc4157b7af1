import Mathlib.Algebra.Group.Int.Defs
import Mathlib.Algebra.Group.Nat.Defs
import LiteRt.Tflite.Subgraph

/-!
# Preparing and invoking nodes

Ops are prepared up to the first one with dynamic or unknown output shapes, the planner
places what was prepared, and `Invoke` goes on preparing where the next op is not.
-/

namespace LiteRt.Tflite

open LiteRt.Lib Subgraph

/-! ## Tensors -/

def getSizeOfType : TfLiteType → Option Nat
  | .float32 => some 4
  | .int32 => some 4
  | .uint32 => some 4
  | .uint8 => some 1
  | .int64 => some 8
  | .uint64 => some 8
  | .bool => some 1
  | .complex64 => some 8
  | .complex128 => some 16
  | .uint16 => some 2
  | .int16 => some 2
  | .int8 => some 1
  | .float16 => some 2
  | .bfloat16 => some 2
  | .float64 => some 8
  | .uint4 => some 1
  | .int4 => some 1
  | .int2 => some 1
  | _ => none

/-- `MultiplyAndCheckOverflow` on `size_t`: whether it succeeds, and the product. -/
def multiplyAndCheckOverflow (a b : Nat) : Bool × Nat :=
  let product := a * b % 2 ^ 64
  (!((a ||| b) >>> 32 != 0 && a != 0 && product / a != b), product)

/-- The element count of `BytesRequired`. -/
def countElements : List Int → Nat → Option Nat
  | [], count => some count
  | dim :: dims, count =>
    match multiplyAndCheckOverflow count (dim % 2 ^ 64).toNat with
    | (true, count) => countElements dims count
    | (false, _) => none

/-- `BytesRequired`: whether it succeeds, and what `*bytes` holds then if it was zero. -/
def bytesRequired (type : TfLiteType) (dims : List Int) : Bool × Nat :=
  match countElements dims 1 with
  | none => (false, 0)
  | some count =>
    match getSizeOfType type with
    | none => (false, 0)
    | some typeSize =>
      match multiplyAndCheckOverflow typeSize count with
      | (false, bytes) => (false, bytes)
      | (true, bytes) =>
        if type = .int4 ∨ type = .uint4 then (true, (bytes + 1) % 2 ^ 64 / 2)
        else if type = .int2 then (true, (bytes + 3) % 2 ^ 64 / 4)
        else (true, bytes)

def TfLiteType.hasByteSize (type : TfLiteType) : Bool :=
  type != .string && type != .resource && type != .variant

/-- `HasDynamicTensorImpl`. -/
def Subgraph.hasDynamicTensor (s : Subgraph) (indices : List TensorIndex) : Bool :=
  indices.any fun t => t != kTfLiteOptionalTensor && (s.tensors t).allocationType == .dynamic

/-- The allocation types that `ResizeTensorImpl` resizes. -/
def TfLiteAllocationType.resizable (type : TfLiteAllocationType) : Bool :=
  type == .arenaRw || type == .dynamic || type == .arenaRwPersistent || type == .persistentRo ||
    type == .custom || type == .nonCpu

/-- Sets `dims`; the trace says whether they change. -/
def Subgraph.setDims (s : Subgraph) (t : TensorIndex) (dims : List Int) : Subgraph :=
  let s' := s.updateTensor t fun tensor => { tensor with dims := dims }
  if (s.tensors t).dims = dims then s' else s'.log (.dims t)

/-- Sets `bytes`; the trace says whether they change. -/
def Subgraph.setBytes (s : Subgraph) (t : TensorIndex) (bytes : Nat) : Subgraph :=
  let s' := s.updateTensor t fun tensor => { tensor with bytes := bytes }
  if (s.tensors t).bytes = bytes then s' else s'.log (.bytes t)

def Subgraph.setHasData (s : Subgraph) (t : TensorIndex) (hasData : Bool) : Subgraph :=
  s.updateTensor t fun tensor => { tensor with hasData := hasData }

def resizeTensorImpl (t : TensorIndex) (newSize : List Int) : SubgraphM Unit := do
  let s ← get
  let tensor := s.tensors t
  if tensor.allocationType.resizable then
    modify fun s => { s with
      tensorResizedSinceOpInvoke :=
        s.tensorResizedSinceOpInvoke || decide (tensor.dims ≠ newSize) }
    onlyIf tensor.type.hasByteSize do
      ensure (bytesRequired tensor.type newSize).1
      onlyIf (tensor.allocationType = .dynamic ∨ tensor.allocationType = .persistentRo)
        (modify fun s => s.setHasData t true)
      modify fun s => s.setBytes t (bytesRequired tensor.type newSize).2
    modify fun s => s.setDims t newSize
    onlyIf (tensor.allocationType = .arenaRw ∨ tensor.allocationType = .arenaRwPersistent)
      (modify fun s => s.setHasData t false)
  else throw .error

def resizeTensor (t : TensorIndex) (newSize : List Int) : SubgraphM Unit := do
  let s ← get
  let tensor := s.tensors t
  let canReuseAllocation := tensor.hasData && tensor.dims == newSize &&
    (!tensor.type.hasByteSize || (bytesRequired tensor.type tensor.dims).2 == tensor.bytes)
  if canReuseAllocation then pure () else resizeTensorImpl t newSize

def setTensorToDynamic (t : TensorIndex) : SubgraphM Unit :=
  modify fun s => s.updateTensor t fun tensor =>
    if tensor.allocationType ≠ .dynamic then
      { tensor with allocationType := .dynamic, hasData := false }
    else tensor

/-! ## Kernels and the planner -/

def runKernelCall : KernelCall → SubgraphM Unit
  | .resizeTensor t newSize => resizeTensor t newSize
  | .setTensorToDynamic t => setTensorToDynamic t

def runKernelCalls : List KernelCall → SubgraphM Unit
  | [] => pure ()
  | call :: calls => do
    runKernelCall call
    runKernelCalls calls

def opPrepare (env : Env) (nodeIndex : Nat) : SubgraphM TfLiteStatus := do
  modify fun s => s.log (.prepare nodeIndex)
  let s ← get
  let callStatus ← status (runKernelCalls (env.opPrepare s nodeIndex).1)
  pure (if callStatus ≠ .ok then callStatus else (env.opPrepare s nodeIndex).2)

def opInvoke (env : Env) (executionPlanIndex : Nat) : SubgraphM TfLiteStatus := do
  modify fun s => s.log (.invoke executionPlanIndex)
  let s ← get
  let callStatus ← status (runKernelCalls (env.opInvoke s executionPlanIndex).1)
  pure (if callStatus ≠ .ok then callStatus else (env.opInvoke s executionPlanIndex).2)

/-- A call of the memory planner, which decides which tensors have data. -/
def callPlanner (env : Env) (call : PlannerCall) : SubgraphM Unit := do
  modify fun s => s.log (.planner call)
  let s ← get
  match env.planner s call with
  | none => throw .error
  | some hasData => modify fun s =>
      { s with tensors := fun t => { s.tensors t with hasData := hasData t } }

/-! ## `Prepare` -/

/-- The loop of `PrepareOpsStartingAt`; returns the last index that was prepared. -/
def prepareOps (env : Env) : List Nat → Nat → Nat → SubgraphM Nat
  | [], _, last => pure last
  | nodeIndex :: nodes, executionPlanIndex, _ => do
    let opPrepareStatus ← opPrepare env nodeIndex
    onlyIf (opPrepareStatus ≠ .ok ∧ opPrepareStatus ≠ .outputShapeNotKnown) (throw opPrepareStatus)
    let s ← get
    if s.hasDynamicTensor (s.node nodeIndex).outputs || opPrepareStatus = .outputShapeNotKnown then
      modify fun s => { s with hasDynamicTensors := true }
      pure executionPlanIndex
    else prepareOps env nodes (executionPlanIndex + 1) executionPlanIndex

/-- `PrepareOpsStartingAt`; `last` is what the out-parameter holds before. -/
def prepareOpsStartingAt (env : Env) (first : Nat) (plan : List Nat) (last : Nat) :
    SubgraphM Nat := do
  onlyIf (first = 0) (modify fun s => { s with hasDynamicTensors := s.hasDynamicTensor s.outputs })
  prepareOps env (plan.drop first) first last

def Subgraph.prepareOriginalPlan (s : Subgraph) (env : Env) : Bool :=
  !s.preDelegationExecutionPlan.isEmpty &&
    s.delegatesApplied.any fun d => (env.delegate d).requirePropagatedShapes

def prepareOpsAndTensors (env : Env) : SubgraphM Unit := do
  let s ← get
  onlyIf (s.prepareOriginalPlan env) do
    let last ← prepareOpsStartingAt env s.nextExecutionPlanIndexToPrepare
      s.preDelegationExecutionPlan 0
    modify fun s => { s with nextOriginalExecutionPlanIndexToPrepare := last + 1 }
  let last ← prepareOpsStartingAt env s.nextExecutionPlanIndexToPrepare s.executionPlan 0
  modify fun s => { s with nextExecutionPlanIndexToPrepare := last + 1 }
  onlyIf (!s.hasMemoryPlanner) do
    modify fun s => { s with hasMemoryPlanner := true }
    let _ ← status (callPlanner env .planAllocations)
  callPlanner env (.executeAllocations s.nextExecutionPlanIndexToPlanAllocation last)
  modify fun s => { s with nextExecutionPlanIndexToPlanAllocation := last + 1 }

/-! ## `Invoke` -/

def Subgraph.inputLacksData (s : Subgraph) (node : NodeAndRegistration) : Bool :=
  node.inputs.zipIdx.any fun input =>
    let tensor := s.tensors input.1
    input.1 != kTfLiteOptionalTensor && !tensor.hasData && decide (0 < tensor.bytes) &&
      tensor.allocationType != .nonCpu &&
      !(node.builtinCode == .reshape && input.2 == 1 && tensor.dims.length != 1)

/-- What a round of the loop of `InvokeImpl` does before the node is invoked. -/
def beforeInvoke (env : Env) (executionPlanIndex : Nat) : SubgraphM Unit := do
  let s ← get
  onlyIf (executionPlanIndex = s.nextExecutionPlanIndexToPrepare) do
    prepareOpsAndTensors env
    let s ← get
    ensure (decide (executionPlanIndex ≤ s.nextExecutionPlanIndexToPrepare))
  let s ← get
  ensure (!s.inputLacksData (s.node (s.executionPlan.getD executionPlanIndex 0)))
  modify fun s => { s with tensorResizedSinceOpInvoke := false }

/-- What it does after the node has been invoked: a resized dynamic output takes the
cursors back. -/
def afterInvoke (env : Env) (executionPlanIndex : Nat) : SubgraphM Unit := do
  let s ← get
  let node := s.node (s.executionPlan.getD executionPlanIndex 0)
  onlyIf (s.tensorResizedSinceOpInvoke && s.hasDynamicTensor node.outputs) do
    modify fun s => { s with nextExecutionPlanIndexToPrepare := executionPlanIndex + 1 }
    onlyIf (executionPlanIndex + 1 < s.nextExecutionPlanIndexToPlanAllocation) do
      modify fun s => { s with nextExecutionPlanIndexToPlanAllocation := executionPlanIndex + 1 }
      onlyIf s.hasMemoryPlanner (callPlanner env (.resetAllocationsAfter executionPlanIndex))

/-- One round of the loop of `InvokeImpl`. -/
def invokeNode (env : Env) (executionPlanIndex : Nat) : SubgraphM Unit := do
  beforeInvoke env executionPlanIndex
  let status ← opInvoke env executionPlanIndex
  onlyIf (status ≠ .ok) (throw (if status = .cancelled then .cancelled else .error))
  afterInvoke env executionPlanIndex

/-- The loop from `executionPlanIndex` on, over `n` nodes. -/
def invokeNodes (env : Env) : Nat → Nat → SubgraphM Unit
  | 0, _ => pure ()
  | n + 1, executionPlanIndex => do
    invokeNode env executionPlanIndex
    invokeNodes env n (executionPlanIndex + 1)

def invokeImpl (env : Env) : SubgraphM Unit := do
  let s ← get
  ensure s.consistent
  ensure (s.state ≠ .uninvokable)
  invokeNodes env s.executionPlan.length 0

end LiteRt.Tflite
