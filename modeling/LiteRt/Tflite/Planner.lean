import LiteRt.Tflite.Arena
import LiteRt.Tflite.Subgraph

/-!
# The arena planner

`PlanAllocations` finds out when each tensor is allocated and deallocated, before the sizes
are known; `ExecuteAllocations` gives the tensors of a batch of nodes their offsets. The
buffers behind the arenas are left out, and with them the data pointers of the tensors.
-/

namespace LiteRt.Tflite

open LiteRt.Lib SimpleMemoryArena

def kNodeNotAssigned : Int := 2147483647

def kLastActiveNodeUndefined : Int := 2147483647

def kScalarTensorBytes : UInt64 := 4

def kTfLiteMaxSharableOpInputs : Nat := 3

def kTfLiteInplaceOpNone : UInt64 := 0

def kTfLiteInplaceOpDataUnmodified : UInt64 := 1

def kTfLiteInplaceOpInput0Shared : UInt64 := 4

/-! ## The graph -/

structure PlannerNode where
  inputs : List TensorIndex
  outputs : List TensorIndex
  inplaceOperator : UInt64 := kTfLiteInplaceOpNone
  deriving DecidableEq, Repr

/-- What `PlanAllocations` reads of the graph; the nodes are in the order of execution. -/
structure PlannerGraph where
  inputs : List TensorIndex
  outputs : List TensorIndex
  variableTensors : List TensorIndex
  nodes : List PlannerNode
  deriving DecidableEq, Repr

/-- The tensors and the temporaries of the nodes, which may change from call to call. -/
structure PlannerTensors where
  numTensors : Nat
  bytes : Nat → UInt64
  allocationType : Nat → TfLiteAllocationType
  temporaries : Nat → List Nat

/-- The tensors of a list that are not left out. -/
def tensorIndices (tensors : List TensorIndex) : List Nat :=
  (tensors.filter fun t => decide (t ≠ kTfLiteOptionalTensor)).map Int.toNat

/-! ## The planner -/

structure ArenaPlanner where
  arena : SimpleMemoryArena
  persistentArena : SimpleMemoryArena
  preserveAllTensors : Bool
  tensorAlignment : UInt64
  /-- Stores allocation data for all tensors. -/
  allocs : List ArenaAllocWithUsageInterval
  /-- Tensors allocated by each node. -/
  nodesToTensors : List (List Nat)
  /-- First node that uses the tensor. -/
  allocNode : List Int
  /-- Last node that uses the tensor. -/
  deallocNode : List Int
  /-- Index of the last node whose tensors were allocated. -/
  lastActiveNode : Int
  /-- The original tensor if the tensor is sharing data with another one; the first entry of a
  tensor counts. -/
  actualTensorId : List (Nat × Nat)
  refcounts : List Int
  deriving DecidableEq

/-- The order in which `std::sort` leaves the tensors; nothing is said of equal ones. The
sets of `nodes_to_tensors_` have no order either. -/
structure TensorSort where
  sort : (Nat → Nat → Bool) → List Nat → List Nat
  perm : ∀ less tensors, (sort less tensors).Perm tensors

namespace ArenaPlanner

def new (bufferAlignment tensorAlignment : UInt64) (preserveAllTensors : Bool) : ArenaPlanner where
  arena := .new bufferAlignment
  persistentArena := .new bufferAlignment
  preserveAllTensors := preserveAllTensors
  tensorAlignment := tensorAlignment
  allocs := []
  nodesToTensors := []
  allocNode := []
  deallocNode := []
  lastActiveNode := kLastActiveNodeUndefined
  actualTensorId := []
  refcounts := []

def allocNodeOf (p : ArenaPlanner) (tensor : Nat) : Int := p.allocNode.getD tensor kNodeNotAssigned

def deallocNodeOf (p : ArenaPlanner) (tensor : Nat) : Int :=
  p.deallocNode.getD tensor kNodeNotAssigned

def allocOf (p : ArenaPlanner) (tensor : Nat) : ArenaAllocWithUsageInterval :=
  p.allocs.getD tensor .unused

def resetAllocations (p : ArenaPlanner) (numTensors : Nat) : ArenaPlanner :=
  { p with
    arena := p.arena.clearPlan
    persistentArena := p.persistentArena.clearPlan
    allocs := List.replicate numTensors .unused
    lastActiveNode := kLastActiveNodeUndefined }

/-- The loop of `ResetAllocationsAfter` over the tensors. -/
def resetAllocs (p : ArenaPlanner) (tensors : PlannerTensors) (node : Int) :
    List ArenaAllocWithUsageInterval :=
  p.allocs.zipIdx.map fun entry =>
    if node < entry.1.firstNode ∧ 0 < entry.1.size ∧ tensors.allocationType entry.2 = .arenaRw then
      .unused
    else entry.1

def resetAllocationsAfter (sorting : OffsetSort) (p : ArenaPlanner) (tensors : PlannerTensors)
    (node : Int) : ArenaPlanner :=
  let allocs := p.resetAllocs tensors node
  { p with
    allocs := allocs
    arena := if node < p.lastActiveNode then p.arena.calculateActiveAllocs sorting allocs node
      else p.arena.purgeAfter node
    lastActiveNode := node }

/-! ### PlanAllocations -/

def findSharedTensor (p : ArenaPlanner) (tensor : Nat) : Nat :=
  (p.actualTensorId.lookup tensor).getD tensor

def inputTensorCanBeShared (p : ArenaPlanner) (graph : PlannerGraph) (tensors : PlannerTensors)
    (inputId outputId : Nat) (tensorChanged : Bool) : Bool :=
  let inputType := tensors.allocationType inputId
  !(tensorChanged && (decide (tensors.bytes inputId ≠ tensors.bytes outputId) ||
      decide (tensors.bytes inputId ≤ kScalarTensorBytes))) &&
    !(tensorChanged && decide (1 < p.refcounts.getD inputId 0)) &&
    !graph.inputs.contains inputId && !graph.outputs.contains outputId &&
    !(decide (inputType ≠ tensors.allocationType outputId) && decide (inputType ≠ .arenaRw)) &&
    !p.preserveAllTensors

/-- The first input that the node may share, of those it declares. -/
def sharableInput (p : ArenaPlanner) (graph : PlannerGraph) (tensors : PlannerTensors)
    (node : PlannerNode) (outputId : Nat) (tensorChanged : Bool) : Option Nat :=
  (((node.inputs.take kTfLiteMaxSharableOpInputs).zipIdx.filter fun input =>
      decide (input.1 ≠ kTfLiteOptionalTensor) &&
        decide (node.inplaceOperator &&& (kTfLiteInplaceOpInput0Shared <<< input.2.toUInt64) ≠ 0)
    ).map fun input => input.1.toNat).find? fun inputId =>
      p.inputTensorCanBeShared graph tensors inputId outputId tensorChanged

/-- The body of the loop of `IdentifyInPlaceTensors`. -/
def identifyInPlace (graph : PlannerGraph) (tensors : PlannerTensors) (p : ArenaPlanner)
    (node : PlannerNode) : ArenaPlanner :=
  match node.outputs with
  | [] => p
  | output :: _ =>
    let outputId := output.toNat
    let tensorChanged := decide (node.inplaceOperator &&& kTfLiteInplaceOpDataUnmodified = 0)
    if node.inplaceOperator = kTfLiteInplaceOpNone then p
    else
      match p.sharableInput graph tensors node outputId tensorChanged with
      | none => p
      | some inputId =>
        let actualOutputTensorId := p.findSharedTensor inputId
        if tensorChanged ∧ 1 < p.refcounts.getD actualOutputTensorId 0 then p
        else { p with actualTensorId := (outputId, actualOutputTensorId) :: p.actualTensorId }

def identifyInPlaceTensors (graph : PlannerGraph) (tensors : PlannerTensors) (p : ArenaPlanner) :
    ArenaPlanner :=
  graph.nodes.foldl (identifyInPlace graph tensors) { p with actualTensorId := [] }

def planAllocate (p : ArenaPlanner) (node : Nat) (tensor : Nat) : Except Fault ArenaPlanner :=
  if p.allocNodeOf tensor ≠ kNodeNotAssigned then .ok p
  else if p.deallocNodeOf tensor ≠ kNodeNotAssigned then .error .ensure
  else .ok { p with allocNode := p.allocNode.set tensor node }

/-- The `deallocate` of `PlanAllocations`. -/
def planDeallocate (p : ArenaPlanner) (node : Nat) (tensor : Nat) : Except Fault ArenaPlanner :=
  if p.allocNodeOf tensor = kNodeNotAssigned then .ok p
  else if p.deallocNodeOf tensor ≠ kNodeNotAssigned then .error .ensure
  else .ok { p with deallocNode := p.deallocNode.set tensor node }

/-- `nodes_to_tensors_[node].insert(tensor)`. -/
def insertTensor (p : ArenaPlanner) (node : Nat) (tensor : Nat) : ArenaPlanner :=
  { p with nodesToTensors := p.nodesToTensors.modify node fun tensors => tensors.insert tensor }

def increment (refcounts : List Int) (tensor : Nat) : List Int := refcounts.modify tensor (· + 1)

/-- A variable tensor or an input of the graph is allocated at the very beginning and never
overwritten. -/
def planLasting (p : ArenaPlanner) (tensor : Nat) : Except Fault ArenaPlanner := do
  let p ← { p with refcounts := increment p.refcounts tensor }.planAllocate 0 tensor
  return p.insertTensor 0 tensor

def planVariable (p : ArenaPlanner) (tensor : TensorIndex) : Except Fault ArenaPlanner :=
  if tensor = kTfLiteOptionalTensor then .error .ensure else p.planLasting tensor.toNat

/-- The reference counts of the second count, and the planner. -/
structure Walk where
  refcounts : List Int
  planner : ArenaPlanner

/-- An input is deallocated behind its last reference. -/
def Walk.release (node : Nat) (w : Walk) (tensor : Nat) : Except Fault Walk := do
  let shared := w.planner.findSharedTensor tensor
  let refcounts := w.refcounts.modify shared (· - 1)
  if refcounts.getD shared 0 = 0 then
    let p ← w.planner.planDeallocate node shared
    return ⟨refcounts, p⟩
  else return ⟨refcounts, w.planner⟩

/-- The body of the walk through the graph in the order of execution. -/
def Walk.step (w : Walk) (node : PlannerNode × Nat) : Except Fault Walk := do
  let p ← (tensorIndices node.1.outputs).foldlM (fun (p : ArenaPlanner) tensor =>
    (p.insertTensor node.2 tensor).planAllocate node.2 tensor) w.planner
  if p.preserveAllTensors then return ⟨w.refcounts, p⟩
  else (tensorIndices node.1.inputs).foldlM (Walk.release node.2) ⟨w.refcounts, p⟩

def planAllocations (p : ArenaPlanner) (graph : PlannerGraph) (tensors : PlannerTensors) :
    Except Fault ArenaPlanner := do
  let p := p.resetAllocations tensors.numTensors
  let p := { p with
    allocNode := List.replicate tensors.numTensors kNodeNotAssigned
    deallocNode := List.replicate tensors.numTensors kNodeNotAssigned
    nodesToTensors := List.replicate (max graph.nodes.length 1) []
    refcounts := (tensorIndices graph.outputs).foldl increment
      (List.replicate tensors.numTensors 0) }
  let p ← graph.variableTensors.foldlM planVariable p
  let p ← (tensorIndices graph.inputs).foldlM planLasting p
  -- the counts before sharing tensors
  let refcounts := p.refcounts
  let references := graph.nodes.flatMap fun node => tensorIndices node.inputs
  let p := { p with refcounts := references.foldl increment p.refcounts }
  let p := identifyInPlaceTensors graph tensors p
  let refcounts := (references.map p.findSharedTensor).foldl increment refcounts
  let w ← graph.nodes.zipIdx.foldlM Walk.step ⟨refcounts, p⟩
  return w.planner

/-! ### ExecuteAllocations -/

/-- Whether the tensor lives through the whole inference. -/
def isLasting (p : ArenaPlanner) (tensor : Nat) : Bool :=
  decide (p.allocNodeOf tensor = 0) && decide (p.deallocNodeOf tensor = kNodeNotAssigned)

def tensorCompare (p : ArenaPlanner) (tensors : PlannerTensors) (idx1 idx2 : Nat) : Bool :=
  if p.isLasting idx1 then if p.isLasting idx2 then decide (idx1 < idx2) else true
  else if p.isLasting idx2 then false
  else if tensors.bytes idx1 ≠ tensors.bytes idx2 then
    decide (tensors.bytes idx2 < tensors.bytes idx1)
  else decide (p.allocNodeOf idx1 < p.allocNodeOf idx2)

def getTensorsToAllocate (p : ArenaPlanner) (firstNode lastNode : Int) : List Nat :=
  (List.range (lastNode - firstNode + 1).toNat).flatMap fun k =>
    p.nodesToTensors.getD (firstNode.toNat + k) []

def tensorsAllocated (p : ArenaPlanner) (tensors : PlannerTensors) (firstNode lastNode : Int) :
    List Nat :=
  (p.getTensorsToAllocate firstNode lastNode).filter fun tensor =>
    match tensors.allocationType tensor with
    | .arenaRw => decide ((p.allocOf tensor).size < tensors.bytes tensor)
    | .arenaRwPersistent => true
    | _ => false

/-- Allocates a tensor that owns its buffer. -/
def allocateOwner (tensors : PlannerTensors) (p : ArenaPlanner) (tensor : Nat) :
    Except Fault ArenaPlanner :=
  match tensors.allocationType tensor with
  | .arenaRw =>
    let result := p.arena.allocate ⟨p.tensorAlignment, tensors.bytes tensor, tensor,
      p.allocNodeOf tensor, p.deallocNodeOf tensor⟩ (p.allocOf tensor)
    result.status.map fun _ =>
      { p with arena := result.arena, allocs := p.allocs.set tensor result.newAlloc }
  | .arenaRwPersistent =>
    if (p.allocOf tensor).size = 0 ∧ (p.allocOf tensor).size < tensors.bytes tensor then
      let result := p.persistentArena.allocate ⟨p.tensorAlignment, tensors.bytes tensor, tensor,
        p.allocNodeOf tensor, 2147483647⟩ (p.allocOf tensor)
      result.status.map fun _ =>
        { p with persistentArena := result.arena, allocs := p.allocs.set tensor result.newAlloc }
    else .ok p
  | _ => .ok p

/-- The body of the loop of `CalculateAllocations`; a tensor that no longer may share its
buffer owns it. -/
def allocateTensor (tensors : PlannerTensors) (p : ArenaPlanner) (tensor : Nat) :
    Except Fault ArenaPlanner :=
  match p.actualTensorId.lookup tensor with
  | none => allocateOwner tensors p tensor
  | some root =>
    if tensors.allocationType root ≠ .arenaRw ∨ tensors.bytes root ≠ tensors.bytes tensor then
      allocateOwner tensors
        { p with actualTensorId := p.actualTensorId.filter fun entry => entry.1 ≠ tensor } tensor
    else .ok p

def shrinkActive (firstNode : Int) (p : ArenaPlanner) : ArenaPlanner :=
  if firstNode < p.lastActiveNode then
    { p with arena := p.arena.resetAllocs, lastActiveNode := firstNode }
  else { p with arena := p.arena.purgeActiveAllocs firstNode }

/-- `CalculateAllocations` behind the point where the active allocations are shrunk. -/
def allocateAll (order : TensorSort) (tensors : PlannerTensors) (allocated : List Nat)
    (lastNode : Int) (p : ArenaPlanner) : Except Fault ArenaPlanner := do
  let p ← (order.sort (p.tensorCompare tensors) allocated).foldlM (allocateTensor tensors) p
  return { p with lastActiveNode := lastNode }

/-- `shrink` is `shrinkActive` in the code. -/
def calculateAllocations (order : TensorSort) (shrink : ArenaPlanner → ArenaPlanner)
    (p : ArenaPlanner) (tensors : PlannerTensors) (firstNode lastNode : Int) :
    Except Fault ArenaPlanner :=
  let allocated := p.tensorsAllocated tensors firstNode lastNode
  if allocated = [] then .ok { p with lastActiveNode := lastNode }
  else (shrink p).allocateAll order tensors allocated lastNode

/-- Grows the tables to the number of tensors. -/
def resize (p : ArenaPlanner) (numTensors : Nat) : ArenaPlanner :=
  { p with
    allocNode := p.allocNode ++ List.replicate (numTensors - p.allocNode.length) kNodeNotAssigned
    deallocNode := p.deallocNode ++
      List.replicate (numTensors - p.deallocNode.length) kNodeNotAssigned
    allocs := p.allocs ++ List.replicate (numTensors - p.allocs.length) .unused }

/-- A temporary tensor is allocated and deallocated by its node. -/
def setTemporary (p : ArenaPlanner) (entry : Nat × Nat) : ArenaPlanner :=
  let p := { p with allocNode := p.allocNode.set entry.2 entry.1 }.insertTensor entry.1 entry.2
  if p.preserveAllTensors then p
  else { p with deallocNode := p.deallocNode.set entry.2 entry.1 }

def batchTemporaries (tensors : PlannerTensors) (numExecutionNodes : Nat)
    (firstNode lastNode : Int) : List (Nat × Nat) :=
  ((List.range numExecutionNodes).filter fun (i : Nat) =>
    decide (firstNode ≤ i) && decide ((i : Int) ≤ lastNode)).flatMap fun (i : Nat) =>
      (tensors.temporaries i).map fun tensor => (i, tensor)

/-- Sets the allocation and deallocation of the temporary tensors. -/
def setTemporaries (p : ArenaPlanner) (tensors : PlannerTensors) (numExecutionNodes : Nat)
    (firstNode lastNode : Int) : ArenaPlanner :=
  (batchTemporaries tensors numExecutionNodes firstNode lastNode).foldl setTemporary
    (p.resize tensors.numTensors)

def executeAllocations (order : TensorSort) (shrink : ArenaPlanner → ArenaPlanner)
    (p : ArenaPlanner) (tensors : PlannerTensors) (numExecutionNodes : Nat)
    (firstNode lastNode : Int) : Except Fault ArenaPlanner :=
  if tensors.numTensors < p.allocs.length then .error .ensure
  else (p.setTemporaries tensors numExecutionNodes firstNode lastNode).calculateAllocations order
    shrink tensors firstNode lastNode

end ArenaPlanner

end LiteRt.Tflite
