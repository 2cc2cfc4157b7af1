import LiteRt.Lib.Outcome
import Mathlib.Data.List.Destutter
import Mathlib.Data.List.Sort
import Mathlib.Logic.Function.Basic

/-!
# Partitioning a graph into node subsets

`PartitionGraphIntoIndependentNodeSubsets` of `graph_info.cc`. A node is named by its
position in the execution plan, a `NodeSubset` lists original node indices, and the
loops take fuel: a scan that goes on schedules a node, and so does a subset that is kept.
-/

namespace LiteRt.Tflite

abbrev TensorIndex := Int

def kTfLiteOptionalTensor : TensorIndex := -1

/-- `TfLiteNode`. -/
structure Node where
  inputs : List TensorIndex
  outputs : List TensorIndex
  mightHaveSideEffect : Bool := false
  deriving DecidableEq, Repr

/-- `GraphInfo`; nodes are given by position in the execution plan. -/
structure GraphInfo where
  numExecutionNodes : Nat
  numTotalNodes : Nat
  node : Nat → Node
  nodeIndex : Nat → Nat
  outputs : List TensorIndex

/-- `ControlEdge`: the second node depends on the first one. -/
abbrev ControlEdge := Int × Int

inductive NodeSubsetType where
  | unexplored
  | partition
  | nonPartition
  deriving DecidableEq, Repr

structure NodeSubset where
  type : NodeSubsetType := .unexplored
  nodes : List Int := []
  inputTensors : List TensorIndex := []
  outputTensors : List TensorIndex := []
  deriving DecidableEq, Repr

/-- `kEpochNotReady`, `kEpochAlwaysReady`, or the index of a subset. -/
inductive Epoch where
  | notReady
  | alwaysReady
  | assigned (epoch : Nat)
  deriving DecidableEq, Repr

/-- `Uniquefy`: `std::sort` and `std::unique`. -/
def uniquefy {α : Type*} [DecidableEq α] (r : α → α → Prop) [DecidableRel r] (items : List α) :
    List α := (items.insertionSort r).destutter (· ≠ ·)

def isValidIndex (index : Int) (size : Nat) : Bool := decide (0 ≤ index) && decide (index < size)

def validateNodesToPartition (info : GraphInfo) (nodesToPartition : List Int) : Bool :=
  nodesToPartition.all fun node => isValidIndex node info.numTotalNodes

def validateControlEdges (info : GraphInfo) (controlEdges : List ControlEdge) : Bool :=
  controlEdges.all fun edge =>
    isValidIndex edge.1 info.numExecutionNodes && isValidIndex edge.2 info.numExecutionNodes

/-- The constant fields of `PartitionGraphIntoIndependentNodeSubsetsImpl`. -/
structure Partitioner where
  info : GraphInfo
  nodesToPartition : List Int
  greedily : Bool
  controlEdges : List ControlEdge
  disableNodeFusion : Bool

/-- The lexicographic order of control edges. -/
def LeEdge (e f : ControlEdge) : Prop := e.1 < f.1 ∨ (e.1 = f.1 ∧ e.2 ≤ f.2)

instance : DecidableRel LeEdge := fun _ _ => inferInstanceAs (Decidable (_ ∨ _))

/-- The constructor. -/
def Partitioner.make (info : GraphInfo) (nodesToPartition : List Int) (greedily : Bool)
    (controlEdges : List ControlEdge) (disableNodeFusion : Bool) : Partitioner where
  info := info
  nodesToPartition := nodesToPartition
  greedily := greedily
  controlEdges := uniquefy LeEdge controlEdges
  disableNodeFusion := disableNodeFusion

/-- The fields that change; the last subset is the current one. -/
structure PartitionState where
  nodeSubsets : List NodeSubset
  tensorEpochs : TensorIndex → Epoch
  nodeEpochs : Nat → Epoch
  numIncomingControlEdges : Int → Int

/-- `node_subsets_->back()`. -/
def PartitionState.currentSubset (s : PartitionState) : NodeSubset := s.nodeSubsets.getLast?.getD {}

/-- `node_subsets_->emplace_back(NodeSubset())`. -/
def PartitionState.emplaceBack (s : PartitionState) : PartitionState :=
  { s with nodeSubsets := s.nodeSubsets ++ [{}] }

/-- `node_subsets_->pop_back()`. -/
def PartitionState.popBack (s : PartitionState) : PartitionState :=
  { s with nodeSubsets := s.nodeSubsets.dropLast }

def PartitionState.currentEpoch (s : PartitionState) : Nat := s.nodeSubsets.length - 1

namespace Partitioner

variable (p : Partitioner)

def nodeType (node : Int) : NodeSubsetType :=
  if node ∈ p.nodesToPartition then .partition else .nonPartition

def start : PartitionState where
  nodeSubsets := []
  tensorEpochs := (List.range p.info.numExecutionNodes).foldl (fun epochs i =>
    ((p.info.node i).outputs.filter (· ≠ kTfLiteOptionalTensor)).foldl (fun epochs t =>
      Function.update epochs t .notReady) epochs) fun _ => .alwaysReady
  nodeEpochs _ := .notReady
  numIncomingControlEdges := p.controlEdges.foldl (fun counts edge =>
    Function.update counts edge.2 (counts edge.2 + 1)) fun _ => 0

/-- The second look at an input of a node that joins the epoch. -/
def readInput (epoch : Nat) (s : PartitionState) (t : TensorIndex) : PartitionState :=
  if t = kTfLiteOptionalTensor then s
  else if s.tensorEpochs t ≠ .assigned epoch then
    let subsets := s.nodeSubsets.modify epoch fun subset =>
      { subset with inputTensors := subset.inputTensors ++ [t] }
    match s.tensorEpochs t with
    | .assigned inputEpoch =>
      { s with
        nodeSubsets := subsets.modify inputEpoch fun subset =>
          { subset with outputTensors := subset.outputTensors ++ [t] } }
    | _ => { s with nodeSubsets := subsets }
  else s

/-- The node joins the current epoch, whose type is `type`. -/
def assign (type : NodeSubsetType) (s : PartitionState) (i : Nat) : PartitionState :=
  let node := p.info.node i
  let epoch := s.currentEpoch
  let s := { s with
    nodeEpochs := Function.update s.nodeEpochs i (.assigned epoch)
    nodeSubsets := s.nodeSubsets.modify epoch fun subset =>
      { subset with type := type, nodes := subset.nodes ++ [(p.info.nodeIndex i : Int)] }
    tensorEpochs := (node.outputs.filter (· ≠ kTfLiteOptionalTensor)).foldl (fun epochs t =>
      Function.update epochs t (.assigned epoch)) s.tensorEpochs }
  let s := node.inputs.foldl (readInput epoch) s
  { s with
    numIncomingControlEdges := (p.controlEdges.filter fun edge => edge.1 = (i : Int)).foldl
      (fun counts edge => Function.update counts edge.2 (counts edge.2 - 1))
      s.numIncomingControlEdges }

/-- `UpdateNode`; `none` when the node is not assigned to the epoch. -/
def updateNode (s : PartitionState) (i : Nat) : Option PartitionState :=
  let node := p.info.node i
  if p.disableNodeFusion && !s.currentSubset.nodes.isEmpty then none
  else if s.nodeEpochs i ≠ .notReady then none
  else if node.inputs.any fun t =>
      decide (t ≠ kTfLiteOptionalTensor) && decide (s.tensorEpochs t = .notReady) then none
  else if s.numIncomingControlEdges i ≠ 0 then none
  else
    let nodeType := p.nodeType (p.info.nodeIndex i)
    let type := if s.currentSubset.type = .unexplored then nodeType else s.currentSubset.type
    if type = nodeType then some (p.assign type s i) else none

/-- One round over the execution plan: the state, whether a node was updated, and
whether the subset ends here. -/
def updateNodes : List Nat → PartitionState → Bool → PartitionState × Bool × Bool
  | [], s, didSomething => (s, didSomething, false)
  | i :: is, s, didSomething =>
    match p.updateNode s i with
    | some s => updateNodes is s true
    | none => if didSomething && !p.greedily then (s, didSomething, true) else updateNodes is s didSomething

/-- The loop of `BuildNodeSubset`. -/
def buildLoop : Nat → PartitionState → PartitionState
  | 0, s => s
  | n + 1, s =>
    let r := p.updateNodes (List.range p.info.numExecutionNodes) s false
    if r.2.2 || !r.2.1 then r.1 else buildLoop n r.1

def buildNodeSubset (s : PartitionState) : PartitionState :=
  p.buildLoop (p.info.numExecutionNodes + 1) s.emplaceBack

/-- The loop over the epochs. -/
def buildNodeSubsets : Nat → PartitionState → PartitionState
  | 0, s => s
  | n + 1, s =>
    let s' := p.buildNodeSubset s
    if s'.currentSubset.nodes = [] then s'.popBack
    else buildNodeSubsets n s'

/-- One round of the loop that marks the outputs of the model. -/
def markOutput (tensorEpochs : TensorIndex → Epoch) (subsets : List NodeSubset)
    (output : TensorIndex) : Option (List NodeSubset) :=
  match tensorEpochs output with
  | .alwaysReady => some subsets
  | .notReady => none
  | .assigned epoch =>
    if epoch < subsets.length then
      some (subsets.modify epoch fun subset =>
        { subset with outputTensors := subset.outputTensors ++ [output] })
    else none

/-- `Partition`; `none` is `kTfLiteError`. -/
def partition : Option (List NodeSubset) := do
  let s := p.buildNodeSubsets (p.info.numExecutionNodes + 1) p.start
  if (List.range p.info.numExecutionNodes).any fun i => decide (s.nodeEpochs i = .notReady) then none
  let subsets ← p.info.outputs.foldlM (markOutput s.tensorEpochs) s.nodeSubsets
  pure (subsets.map fun subset => { subset with
    inputTensors := uniquefy (· ≤ ·) subset.inputTensors
    outputTensors := uniquefy (· ≤ ·) subset.outputTensors })

end Partitioner

/-- The dependency chain between stateful ops. -/
def sideEffectEdges (info : GraphInfo) : List ControlEdge :=
  ((List.range info.numExecutionNodes).foldl (fun (s : List ControlEdge × Int) (i : Nat) =>
    if (info.node i).mightHaveSideEffect then
      (if s.2 ≠ -1 then s.1 ++ [(s.2, (i : Int))] else s.1, (i : Int))
    else s) ([], -1)).1

def partitionGraphIntoIndependentNodeSubsets (info : GraphInfo) (nodesToPartition : List Int)
    (greedily : Bool) (controlEdges : Option (List ControlEdge)) (disableNodeFusion : Bool) :
    Option (List NodeSubset) :=
  if validateNodesToPartition info nodesToPartition then
    let controlEdges := controlEdges.getD (if greedily then sideEffectEdges info else [])
    if validateControlEdges info controlEdges then
      (Partitioner.make info nodesToPartition greedily controlEdges disableNodeFusion).partition
    else none
  else none

/-!
## Subgraphs of the interpreter

The state behind `subgraph.cc`, and how nodes are added and replaced by delegate
kernels. Kernels, the memory planner and delegates are given by an environment; the
trace records what the subgraph asks of them and what changes under them.
-/

inductive TfLiteStatus where
  | ok
  | error
  | delegateError
  | applicationError
  | unresolvedOps
  | cancelled
  | outputShapeNotKnown
  deriving DecidableEq, Repr

inductive TfLiteType where
  | noType
  | float32
  | int32
  | uint8
  | int64
  | string
  | bool
  | int16
  | complex64
  | int8
  | float16
  | float64
  | complex128
  | uint64
  | resource
  | variant
  | uint32
  | uint16
  | int4
  | bfloat16
  | int2
  | uint4
  deriving DecidableEq, Repr, Inhabited

inductive TfLiteAllocationType where
  | memNone
  | mmapRo
  | arenaRw
  | arenaRwPersistent
  | dynamic
  | persistentRo
  | custom
  | variantObject
  | nonCpu
  deriving DecidableEq, Repr, Inhabited

abbrev DelegateId := Nat

/-- `TfLiteTensor`; `hasData` says that `data.raw` is not null. -/
structure Tensor where
  type : TfLiteType := .noType
  allocationType : TfLiteAllocationType := .memNone
  dims : List Int := []
  bytes : Nat := 0
  hasData : Bool := false
  delegate : Option DelegateId := none
  deriving DecidableEq, Repr, Inhabited

/-- The codes that the subgraph looks at. -/
inductive BuiltinOperator where
  | dequantize
  | reshape
  | builtinIf
  | builtinWhile
  | callOnce
  | stablehloComposite
  | delegate
  | other (code : Nat)
  deriving DecidableEq, Repr, Inhabited

/-- `builtin_data`: null, the parameters of a composite, or other ones. -/
inductive BuiltinData where
  | null
  | composite (subgraphIndex : Nat)
  | params (id : Nat)
  deriving DecidableEq, Repr, Inhabited

/-- `TfLiteNode` and its registration. -/
structure NodeAndRegistration extends Node where
  intermediates : List TensorIndex := []
  builtinData : BuiltinData := .null
  builtinCode : BuiltinOperator := .other 0
  delegate : Option DelegateId := none
  deriving DecidableEq, Repr

instance : Inhabited NodeAndRegistration := ⟨{ inputs := [], outputs := [] }⟩

/-- `Subgraph::State`. -/
inductive State where
  | uninvokable
  | invokable
  | invokableAndImmutable
  deriving DecidableEq, Repr, Inhabited

/-- What a memory planner is asked. -/
inductive PlannerCall where
  | planAllocations
  | resetAllocations
  | resetAllocationsAfter (node : Nat)
  | executeAllocations (firstNode lastNode : Nat)
  deriving DecidableEq, Repr

inductive Event where
  | executionPlan
  | prepare (node : Nat)
  | invoke (executionPlanIndex : Nat)
  | dims (tensor : TensorIndex)
  | bytes (tensor : TensorIndex)
  | planner (call : PlannerCall)
  deriving DecidableEq, Repr

/-- The fields of `Subgraph`, the options it reads, and the trace, newest last. -/
structure Subgraph where
  inputs : List TensorIndex := []
  outputs : List TensorIndex := []
  tensorsSize : Nat := 0
  tensors : TensorIndex → Tensor := fun _ => {}
  nodesAndRegistration : List NodeAndRegistration := []
  executionPlan : List Nat := []
  preDelegationExecutionPlan : List Nat := []
  delegatesApplied : List DelegateId := []
  delegatesUndone : Bool := false
  state : State := .uninvokable
  consistent : Bool := true
  hasDynamicTensors : Bool := true
  nextExecutionPlanIndexToPrepare : Nat := 0
  nextExecutionPlanIndexToPlanAllocation : Nat := 0
  nextOriginalExecutionPlanIndexToPrepare : Nat := 0
  tensorResizedSinceOpInvoke : Bool := false
  hasMemoryPlanner : Bool := false
  controlEdges : Option (List ControlEdge) := none
  isDelegationSkippable : Bool := false
  preserveAllTensors : Bool := false
  disableDelegateClustering : Bool := false
  shloCompositeInlining : Bool := false
  trace : List Event := []

/-- What a kernel does to tensors. -/
inductive KernelCall where
  | resizeTensor (tensor : TensorIndex) (newSize : List Int)
  | setTensorToDynamic (tensor : TensorIndex)
  deriving DecidableEq, Repr

/-- The `Prepare` of a delegate, which may ask for replacements and remap the inputs of
nodes before it returns a status. -/
inductive DelegateProgram where
  | done (status : TfLiteStatus)
  | replaceNodeSubsets (nodesToReplace : List Int)
      (next : TfLiteStatus → Subgraph → DelegateProgram)
  | setNodeInputs (node : Nat) (inputs : List TensorIndex) (next : Subgraph → DelegateProgram)

structure Delegate where
  allowDynamicTensors : Bool := false
  requirePropagatedShapes : Bool := false
  hintFullyDelegatedToSingleDelegate : Bool := false
  prepare : Subgraph → DelegateProgram

/-- Kernels, planner, delegates, and the other subgraphs of the model. What they do may
depend on everything that has happened so far. -/
structure Env where
  opInit : Subgraph → NodeAndRegistration → Bool
  opPrepare : Subgraph → Nat → List KernelCall × TfLiteStatus
  opInvoke : Subgraph → Nat → List KernelCall × TfLiteStatus
  planner : Subgraph → PlannerCall → Option (TensorIndex → Bool)
  delegate : DelegateId → Delegate
  subgraphs : List Subgraph

abbrev SubgraphM := EStateM TfLiteStatus Subgraph

/-- `TF_LITE_ENSURE`. -/
def ensure (condition : Bool) : SubgraphM Unit := if condition then pure () else throw .error

/-- The status of a call that fails without further ado. -/
def status (x : SubgraphM Unit) : SubgraphM TfLiteStatus := fun s =>
  match x s with
  | .ok _ s' => .ok .ok s'
  | .error e s' => .ok e s'

namespace Subgraph

variable (s : Subgraph)

/-- `nodes_and_registration_[node_index]`. -/
def node (nodeIndex : Nat) : NodeAndRegistration := s.nodesAndRegistration.getD nodeIndex default

def log (event : Event) : Subgraph := { s with trace := s.trace ++ [event] }

/-- Assigns `execution_plan_`. -/
def setExecutionPlan (plan : List Nat) : Subgraph :=
  { s with executionPlan := plan, trace := s.trace ++ [.executionPlan] }

def updateTensor (t : TensorIndex) (f : Tensor → Tensor) : Subgraph :=
  { s with tensors := Function.update s.tensors t (f (s.tensors t)) }

def updateNode (nodeIndex : Nat) (f : NodeAndRegistration → NodeAndRegistration) : Subgraph :=
  { s with nodesAndRegistration := s.nodesAndRegistration.modify nodeIndex f }

/-- `InterpreterInfo`. -/
def info : GraphInfo where
  numExecutionNodes := s.executionPlan.length
  numTotalNodes := s.nodesAndRegistration.length
  node i := (s.node (s.executionPlan.getD i 0)).toNode
  nodeIndex i := s.executionPlan.getD i 0
  outputs := s.outputs

@[simp] theorem info_numExecutionNodes : s.info.numExecutionNodes = s.executionPlan.length := rfl

@[simp] theorem info_nodeIndex (i : Nat) : s.info.nodeIndex i = s.executionPlan.getD i 0 := rfl

@[simp] theorem info_node (i : Nat) :
    s.info.node i = (s.node (s.executionPlan.getD i 0)).toNode := rfl

def opMightHaveSideEffect (node : NodeAndRegistration) : Bool :=
  let isResource (t : TensorIndex) := isValidIndex t s.tensorsSize && (s.tensors t).type == .resource
  node.inputs.any isResource || node.outputs.any isResource ||
    node.builtinCode == .builtinIf || node.builtinCode == .builtinWhile ||
    node.builtinCode == .callOnce

def partitionGraph (nodesToReplace : List Int) : Option (List NodeSubset) :=
  partitionGraphIntoIndependentNodeSubsets s.info nodesToReplace (!s.disableDelegateClustering)
    s.controlEdges s.preserveAllTensors

end Subgraph

open LiteRt.Lib Subgraph

def checkTensorIndices (indices : List TensorIndex) : SubgraphM Unit := do
  let s ← get
  if indices.all fun t => t == kTfLiteOptionalTensor || isValidIndex t s.tensorsSize then pure ()
  else
    modify fun s => { s with consistent := false }
    throw .error

def checkInputAndOutputForOverlap (inputs outputs : List TensorIndex) : SubgraphM Unit := do
  if inputs.any fun t => outputs.contains t then
    modify fun s => { s with consistent := false }
    throw .error
  else pure ()

/-- `AddNodeWithParameters`; `node` is the new node as far as it is given. -/
def addNodeWithParameters (env : Env) (node : NodeAndRegistration) : SubgraphM Nat := do
  let s ← get
  ensure (s.state ≠ .invokableAndImmutable)
  modify fun s => { s with state := .uninvokable }
  checkTensorIndices node.inputs
  checkTensorIndices node.outputs
  onlyIf (node.builtinData ≠ .null) (checkInputAndOutputForOverlap node.inputs node.outputs)
  let s ← get
  let newNodeIndex := s.nodesAndRegistration.length
  if env.opInit s node then
    let node := { node with
      mightHaveSideEffect := s.opMightHaveSideEffect node
      delegate := none }
    modify fun s => { s with nodesAndRegistration := s.nodesAndRegistration ++ [node] }
    modify fun s => s.setExecutionPlan (s.executionPlan ++ [newNodeIndex])
    pure newNodeIndex
  else
    modify fun s => { s with nodesAndRegistration := s.nodesAndRegistration ++ [default] }
    throw .error

def setDelegate (delegate : DelegateId) : List TensorIndex → SubgraphM Unit
  | [] => pure ()
  | t :: ts => do
    let s ← get
    ensure ((s.tensors t).delegate.all (· == delegate))
    modify fun s => s.updateTensor t fun tensor => { tensor with delegate := some delegate }
    setDelegate delegate ts

/-- One subset of `ReplaceNodeSubsetsWithDelegateKernels`. -/
def addNodeSubset (env : Env) (delegate : DelegateId) (subset : NodeSubset) : SubgraphM Unit :=
  match subset.type with
  | .nonPartition => modify fun s =>
      s.setExecutionPlan (s.executionPlan ++ subset.nodes.map Int.toNat)
  | .partition => do
    let nodeIndex ← addNodeWithParameters env {
      inputs := subset.inputTensors
      outputs := subset.outputTensors
      builtinData := .params delegate
      builtinCode := .delegate }
    setDelegate delegate subset.outputTensors
    modify fun s => s.updateNode nodeIndex fun node => { node with delegate := some delegate }
  | .unexplored => throw .error

def addNodeSubsets (env : Env) (delegate : DelegateId) : List NodeSubset → SubgraphM Unit
  | [] => pure ()
  | subset :: subsets => do
    addNodeSubset env delegate subset
    addNodeSubsets env delegate subsets

def replaceNodeSubsetsWithDelegateKernels (env : Env) (nodesToReplace : List Int)
    (delegate : DelegateId) : SubgraphM Unit := do
  if nodesToReplace = [] then pure ()
  else
    let s ← get
    match s.partitionGraph nodesToReplace with
    | none => throw .error
    | some subsets =>
      modify fun s => s.setExecutionPlan []
      addNodeSubsets env delegate subsets

/-! ### Small subgraphs -/

/-- Float tensors in the arena. -/
def Subgraph.ofNodes (nodes : List NodeAndRegistration) : Subgraph where
  tensorsSize := 8
  tensors _ := { type := .float32, allocationType := .arenaRw }
  nodesAndRegistration := nodes
  executionPlan := List.range nodes.length

/-- Kernels that do nothing, and a planner that places every tensor. -/
def Env.ofDelegates (delegates : List Delegate) : Env where
  opInit _ _ := true
  opPrepare _ _ := ([], .ok)
  opInvoke _ _ := ([], .ok)
  planner _ _ := some fun _ => true
  delegate d := delegates.getD d { prepare := fun _ => .done .ok }
  subgraphs := []

def Delegate.replacing (nodesToReplace : List Int) : Delegate where
  prepare _ := .replaceNodeSubsets nodesToReplace fun callStatus _ => .done callStatus

end LiteRt.Tflite
