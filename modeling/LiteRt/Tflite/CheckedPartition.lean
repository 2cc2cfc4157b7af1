import LiteRt.Tflite.CheckedPlanner

/-!
# The table of the partitioner

`PartitionGraphIntoIndependentNodeSubsets` with every access to `tensor_epochs_` checked. Where
the nodes leave out what they like and the graph leaves out no output, it is the partition.
-/

namespace LiteRt.Tflite

open LiteRt.Lib

/-- A computation that fails with `kTfLiteError`. -/
def orError {α : Type} (x : Option α) : Except TfLiteStatus α :=
  match x with
  | some a => .ok a
  | none => .error .error

theorem orError_foldlM {α β : Type} {f : β → α → Option β} {l : List α} {b : β} :
    l.foldlM (fun b a => orError (f b a)) b = orError (l.foldlM f b) := by
  induction l generalizing b with
  | nil => rfl
  | cons a l ih =>
    rw [List.foldlM_cons, List.foldlM_cons]
    cases f b a with
    | none => rfl
    | some b' => exact ih

namespace Partitioner

variable (numTensors : Nat) (p : Partitioner)

/-- `tensor_epochs_[t] = epoch`. -/
def setEpochChecked (epoch : Epoch) (epochs : TensorIndex → Epoch) (t : TensorIndex) :
    Checked TfLiteStatus (TensorIndex → Epoch) := do
  access numTensors t
  return Function.update epochs t epoch

def startChecked : Checked TfLiteStatus PartitionState := do
  let epochs ← (List.range p.info.numExecutionNodes).foldlM (fun epochs i =>
    (p.info.node i).outputs.foldlM (unlessOptional (setEpochChecked numTensors .notReady)) epochs)
      fun _ => .alwaysReady
  return { p.start with tensorEpochs := epochs }

def inputNotReadyChecked (epochs : TensorIndex → Epoch) :
    List TensorIndex → Checked TfLiteStatus Bool
  | [] => .ok false
  | t :: inputs =>
    if t = kTfLiteOptionalTensor then inputNotReadyChecked epochs inputs
    else do
      access numTensors t
      if epochs t = .notReady then return true else inputNotReadyChecked epochs inputs

def readInputChecked (epoch : Nat) (s : PartitionState) (t : TensorIndex) :
    Checked TfLiteStatus PartitionState := do
  access numTensors t
  return readInput epoch s t

def assignChecked (type : NodeSubsetType) (s : PartitionState) (i : Nat) :
    Checked TfLiteStatus PartitionState := do
  let node := p.info.node i
  let epoch := s.currentEpoch
  let epochs ← node.outputs.foldlM (unlessOptional (setEpochChecked numTensors (.assigned epoch)))
    s.tensorEpochs
  let s := { s with
    nodeEpochs := Function.update s.nodeEpochs i (.assigned epoch)
    nodeSubsets := s.nodeSubsets.modify epoch fun subset =>
      { subset with type := type, nodes := subset.nodes ++ [(p.info.nodeIndex i : Int)] }
    tensorEpochs := epochs }
  let s ← node.inputs.foldlM (unlessOptional (readInputChecked numTensors epoch)) s
  return { s with
    numIncomingControlEdges := (p.controlEdges.filter fun edge => edge.1 = (i : Int)).foldl
      (fun counts edge => Function.update counts edge.2 (counts edge.2 - 1))
      s.numIncomingControlEdges }

def updateNodeChecked (s : PartitionState) (i : Nat) :
    Checked TfLiteStatus (Option PartitionState) := do
  if p.disableNodeFusion && !s.currentSubset.nodes.isEmpty then return none
  else if s.nodeEpochs i ≠ .notReady then return none
  else if ← inputNotReadyChecked numTensors s.tensorEpochs (p.info.node i).inputs then return none
  else if s.numIncomingControlEdges i ≠ 0 then return none
  else
    let nodeType := p.nodeType (p.info.nodeIndex i)
    let type := if s.currentSubset.type = .unexplored then nodeType else s.currentSubset.type
    if type = nodeType then return some (← p.assignChecked numTensors type s i) else return none

def updateNodesChecked : List Nat → PartitionState → Bool →
    Checked TfLiteStatus (PartitionState × Bool × Bool)
  | [], s, didSomething => .ok (s, didSomething, false)
  | i :: is, s, didSomething => do
    match ← p.updateNodeChecked numTensors s i with
    | some s => updateNodesChecked is s true
    | none =>
      if didSomething && !p.greedily then return (s, didSomething, true)
      else updateNodesChecked is s didSomething

def buildLoopChecked : Nat → PartitionState → Checked TfLiteStatus PartitionState
  | 0, s => .ok s
  | n + 1, s => do
    let r ← p.updateNodesChecked numTensors (List.range p.info.numExecutionNodes) s false
    if r.2.2 || !r.2.1 then return r.1 else buildLoopChecked n r.1

def buildNodeSubsetsChecked : Nat → PartitionState → Checked TfLiteStatus PartitionState
  | 0, s => .ok s
  | n + 1, s => do
    let s' ← p.buildLoopChecked numTensors (p.info.numExecutionNodes + 1) s.emplaceBack
    if s'.currentSubset.nodes = [] then return s'.popBack
    else buildNodeSubsetsChecked n s'

/-- The outputs of the model are looked at without asking whether they are left out. -/
def markOutputChecked (tensorEpochs : TensorIndex → Epoch) (subsets : List NodeSubset)
    (output : TensorIndex) : Checked TfLiteStatus (List NodeSubset) := do
  access numTensors output
  checked (orError (markOutput tensorEpochs subsets output))

def partitionChecked : Checked TfLiteStatus (List NodeSubset) := do
  let s ← p.startChecked numTensors
  let s ← p.buildNodeSubsetsChecked numTensors (p.info.numExecutionNodes + 1) s
  if (List.range p.info.numExecutionNodes).any fun i => decide (s.nodeEpochs i = .notReady) then
    throw (.failed .error)
  else
    let subsets ← p.info.outputs.foldlM (markOutputChecked numTensors s.tensorEpochs) s.nodeSubsets
    return subsets.map fun subset => { subset with
      inputTensors := uniquefy (· ≤ ·) subset.inputTensors
      outputTensors := uniquefy (· ≤ ·) subset.outputTensors }

end Partitioner

def partitionGraphChecked (numTensors : Nat) (info : GraphInfo) (nodesToPartition : List Int)
    (greedily : Bool) (controlEdges : Option (List ControlEdge)) (disableNodeFusion : Bool) :
    Checked TfLiteStatus (List NodeSubset) :=
  if validateNodesToPartition info nodesToPartition then
    let controlEdges := controlEdges.getD (if greedily then sideEffectEdges info else [])
    if validateControlEdges info controlEdges then
      (Partitioner.make info nodesToPartition greedily controlEdges
        disableNodeFusion).partitionChecked numTensors
    else .error (.failed .error)
  else .error (.failed .error)

/-! ## In bounds -/

namespace Partitioner

variable {numTensors : Nat} {p : Partitioner} {l : List TensorIndex}

theorem setEpochs_ok (h : Indexes numTensors l) (epoch : Epoch) (epochs : TensorIndex → Epoch) :
    l.foldlM (unlessOptional (setEpochChecked numTensors epoch)) epochs =
      .ok ((l.filter (· ≠ kTfLiteOptionalTensor)).foldl (fun epochs t =>
        Function.update epochs t epoch) epochs) := by
  rw [foldlM_unlessOptional]
  refine (@foldlM_eq_ok _ _ _ _ (fun _ => True) _ _ _ trivial fun epochs _ t ht =>
    ⟨?_, trivial⟩).1
  obtain ⟨i, hi, rfl⟩ := h.present ht
  rw [setEpochChecked, access_ok (by omega)]
  rfl

theorem inputNotReadyChecked_ok (h : Indexes numTensors l) (epochs : TensorIndex → Epoch) :
    inputNotReadyChecked numTensors epochs l =
      .ok (l.any fun t =>
        decide (t ≠ kTfLiteOptionalTensor) && decide (epochs t = .notReady)) := by
  induction l with
  | nil => rfl
  | cons t l ih =>
    have ih' := ih fun t ht => h t (List.mem_cons_of_mem _ ht)
    rw [inputNotReadyChecked, List.any_cons]
    by_cases ht : t = kTfLiteOptionalTensor
    · rw [if_pos ht, ih', decide_eq_false (not_not_intro ht), Bool.false_and, Bool.false_or]
    · obtain ⟨i, hi, rfl⟩ := h t (List.mem_cons_self ..) ht
      rw [if_neg ht, access_ok (by omega), ok_bind, decide_eq_true ht, Bool.true_and]
      by_cases hready : epochs i = .notReady
      · rw [if_pos hready, decide_eq_true hready, Bool.true_or]
        rfl
      · rw [if_neg hready, decide_eq_false hready, Bool.false_or, ih']

theorem readInputs_ok (h : Indexes numTensors l) (epoch : Nat) (s : PartitionState) :
    l.foldlM (unlessOptional (readInputChecked numTensors epoch)) s =
      .ok (l.foldl (readInput epoch) s) := by
  refine (@foldlM_eq_ok _ _ _ _ (fun _ => True) _ _ _ trivial fun s _ t ht =>
    ⟨?_, trivial⟩).1
  by_cases hne : t = kTfLiteOptionalTensor
  · rw [unlessOptional, if_pos hne, readInput, if_pos hne]
  · obtain ⟨i, hi, rfl⟩ := h t ht hne
    rw [unlessOptional, if_neg hne, readInputChecked, access_ok (by omega)]
    rfl

theorem markOutputs_checked {outputs : List TensorIndex} (houtputs : Indexes numTensors outputs)
    (hnot : kTfLiteOptionalTensor ∉ outputs) (epochs : TensorIndex → Epoch)
    (subsets : List NodeSubset) : outputs.foldlM (markOutputChecked numTensors epochs) subsets =
      checked (orError (outputs.foldlM (markOutput epochs) subsets)) := by
  rw [← orError_foldlM]
  refine (@foldlM_eq_checked _ _ _ _ (fun _ => True) _ _ _ trivial fun subsets _ t ht =>
    ⟨?_, fun _ _ => trivial⟩).1
  obtain ⟨i, hi, rfl⟩ := houtputs t ht fun hne => hnot (hne ▸ ht)
  rw [markOutputChecked, access_ok (by omega), ok_bind]

/-- The nodes hold tensors, or `kTfLiteOptionalTensor`. -/
def NodesIndexed (numTensors : Nat) (info : GraphInfo) : Prop :=
  ∀ i, Indexes numTensors (info.node i).inputs ∧ Indexes numTensors (info.node i).outputs

section
variable (h : NodesIndexed numTensors p.info)

include h

theorem startChecked_ok : p.startChecked numTensors = .ok p.start := by
  have hloop := (@foldlM_eq_ok TfLiteStatus _ _ (fun epochs i =>
    (p.info.node i).outputs.foldlM (unlessOptional (setEpochChecked numTensors .notReady)) epochs)
    (fun _ => True) (List.range p.info.numExecutionNodes) (fun _ => .alwaysReady) _ trivial
    fun epochs _ i _ => ⟨setEpochs_ok (h i).2 .notReady epochs, trivial⟩).1
  rw [startChecked, hloop]
  rfl

theorem assignChecked_ok (type : NodeSubsetType) (s : PartitionState) (i : Nat) :
    p.assignChecked numTensors type s i = .ok (p.assign type s i) := by
  rw [assignChecked, setEpochs_ok (h i).2, ok_bind]
  dsimp only
  rw [readInputs_ok (h i).1]
  rfl

theorem updateNodeChecked_ok (s : PartitionState) (i : Nat) :
    p.updateNodeChecked numTensors s i = .ok (p.updateNode s i) := by
  rw [updateNodeChecked, updateNode, inputNotReadyChecked_ok (h i).1]
  split
  · rfl
  split
  · rfl
  rw [ok_bind]
  split
  · rfl
  split
  · rfl
  dsimp only
  rw [assignChecked_ok h, ok_bind]
  generalize (if s.currentSubset.type = .unexplored then p.nodeType (p.info.nodeIndex i)
    else s.currentSubset.type) = type
  split
  · rfl
  · rfl

theorem updateNodesChecked_ok (is : List Nat) (s : PartitionState) (didSomething : Bool) :
    p.updateNodesChecked numTensors is s didSomething =
      .ok (p.updateNodes is s didSomething) := by
  induction is generalizing s didSomething with
  | nil => rfl
  | cons i is ih =>
    rw [updateNodesChecked, updateNodes, updateNodeChecked_ok h, ok_bind]
    cases p.updateNode s i with
    | some s' => exact ih s' true
    | none =>
      dsimp only
      split
      · rfl
      · exact ih s didSomething

theorem buildLoopChecked_ok (n : Nat) (s : PartitionState) :
    p.buildLoopChecked numTensors n s = .ok (p.buildLoop n s) := by
  induction n generalizing s with
  | zero => rfl
  | succ n ih =>
    rw [buildLoopChecked, buildLoop, updateNodesChecked_ok h, ok_bind]
    split
    · rfl
    · exact ih _

theorem buildNodeSubsetsChecked_ok (n : Nat) (s : PartitionState) :
    p.buildNodeSubsetsChecked numTensors n s = .ok (p.buildNodeSubsets n s) := by
  induction n generalizing s with
  | zero => rfl
  | succ n ih =>
    rw [buildNodeSubsetsChecked, buildNodeSubsets, buildLoopChecked_ok h, ok_bind]
    show (if (p.buildNodeSubset s).currentSubset.nodes = [] then _ else _ : Checked _ _) = _
    split
    · rfl
    · exact ih _

theorem partitionChecked_eq (houtputs : Indexes numTensors p.info.outputs)
    (hnot : kTfLiteOptionalTensor ∉ p.info.outputs) :
    p.partitionChecked numTensors = checked (orError p.partition) := by
  rw [partitionChecked, partition, startChecked_ok h, ok_bind, buildNodeSubsetsChecked_ok h,
    ok_bind, markOutputs_checked houtputs hnot]
  dsimp only
  split
  · rfl
  · cases p.info.outputs.foldlM (markOutput _) _ with
    | none => rfl
    | some subsets => rfl

end

end Partitioner

theorem partitionGraphChecked_eq {numTensors : Nat} {info : GraphInfo}
    (h : Partitioner.NodesIndexed numTensors info) (houtputs : Indexes numTensors info.outputs)
    (hnot : kTfLiteOptionalTensor ∉ info.outputs) (nodesToPartition : List Int) (greedily : Bool)
    (controlEdges : Option (List ControlEdge)) (disableNodeFusion : Bool) :
    partitionGraphChecked numTensors info nodesToPartition greedily controlEdges disableNodeFusion =
      checked (orError (partitionGraphIntoIndependentNodeSubsets info nodesToPartition greedily
        controlEdges disableNodeFusion)) := by
  rw [partitionGraphChecked, partitionGraphIntoIndependentNodeSubsets]
  split
  · dsimp only
    generalize controlEdges.getD (if greedily then sideEffectEdges info else []) = edges
    split
    · exact Partitioner.partitionChecked_eq
        (p := .make info nodesToPartition greedily edges disableNodeFusion) h houtputs hnot
    · rfl
  · rfl

/-!
## Outputs that are left out

A subgraph may leave out outputs of its own, variables, and outputs of its nodes. The planner
and the partitioner look for such gaps in most places; the theorem names those where they do
not.
-/

/-- The graph of the planner; a registration says how its nodes work in place. -/
def Subgraph.plannerGraph (s : Subgraph) (vars : List TensorIndex)
    (inplaceOperator : Nat → UInt64) : PlannerGraph where
  inputs := s.inputs
  outputs := s.outputs
  variableTensors := vars
  nodes := s.executionPlan.map fun i =>
    { inputs := (s.node i).inputs
      outputs := (s.node i).outputs
      inplaceOperator := inplaceOperator i }

def Subgraph.plannerTensors (s : Subgraph) (temporaries : Nat → List Nat) : PlannerTensors where
  numTensors := s.tensorsSize
  bytes i := UInt64.ofNat (s.tensors i).bytes
  allocationType i := (s.tensors i).allocationType
  temporaries := temporaries

/-- None of the five indexes a table of the tensors outside its bounds. -/
structure IndexSafe (s : Subgraph) (vars : List TensorIndex) (inplaceOperator : Nat → UInt64) :
    Prop where
  getInputTensorsCount : InBounds s.getInputTensorsCount
  removeUnusedInputs : InBounds s.removeUnusedInputs
  planAllocations : ∀ (p : ArenaPlanner) temporaries, InBounds (p.planAllocationsChecked
    (s.plannerGraph vars inplaceOperator) (s.plannerTensors temporaries))
  /-- In a planner with its tables set up. -/
  identifyInPlaceTensors : ∀ (p : ArenaPlanner) temporaries, p.Sized s.tensorsSize →
    InBounds (ArenaPlanner.identifyInPlaceTensorsChecked (s.plannerGraph vars inplaceOperator)
      (s.plannerTensors temporaries) p)
  partition : ∀ nodesToPartition greedily controlEdges disableNodeFusion,
    InBounds (partitionGraphChecked s.tensorsSize s.info nodesToPartition greedily controlEdges
      disableNodeFusion)

section
variable {s : Subgraph} {vars : List TensorIndex} {inplaceOperator : Nat → UInt64}

theorem Admitted.plannerGraph (h : Admitted s vars) (inplaceOperator : Nat → UInt64) :
    (s.plannerGraph vars inplaceOperator).Indexed s.tensorsSize := by
  refine ⟨h.inputs.indexes, h.outputs.indexes, h.variableTensors.indexes, fun node hnode => ?_⟩
  obtain ⟨i, _, rfl⟩ := List.mem_map.mp hnode
  exact ⟨(h.node i).1.indexes, (h.node i).2.indexes⟩

theorem Admitted.nodesIndexed (h : Admitted s vars) :
    Partitioner.NodesIndexed s.tensorsSize s.info := fun _ =>
  ⟨(h.node _).1.indexes, (h.node _).2.indexes⟩

theorem plannerGraph_complete_iff : (s.plannerGraph vars inplaceOperator).Complete ↔
    kTfLiteOptionalTensor ∉ vars ∧ ∀ i ∈ s.executionPlan, inplaceOperator i ≠ kTfLiteInplaceOpNone →
        (s.node i).outputs.head? ≠ some kTfLiteOptionalTensor := by
  refine ⟨fun h => ⟨h.variableTensors, fun i hi => ?_⟩, fun h => ⟨h.1, fun node hnode => ?_⟩⟩
  · exact h.targets _ (List.mem_map_of_mem hi)
  · obtain ⟨i, hi, rfl⟩ := List.mem_map.mp hnode
    exact h.2 i hi

/-- The places where nobody looks: the outputs of the graph, its variables, and the first
output of a node that works in place. -/
theorem indexSafe_iff {env : Env} (h : Built env s vars) (inplaceOperator : Nat → UInt64) :
    IndexSafe s vars inplaceOperator ↔ kTfLiteOptionalTensor ∉ s.outputs ∧
      kTfLiteOptionalTensor ∉ vars ∧ ∀ i ∈ s.executionPlan,
        inplaceOperator i ≠ kTfLiteInplaceOpNone →
          (s.node i).outputs.head? ≠ some kTfLiteOptionalTensor := by
  have hadmitted := h.admitted
  have hgraph := hadmitted.plannerGraph inplaceOperator
  rw [← plannerGraph_complete_iff]
  refine ⟨fun hsafe => ⟨?_, ?_⟩, fun hpresent => ⟨?_, ?_, fun p temporaries => ?_,
    fun p temporaries hp => ?_, fun nodesToPartition greedily controlEdges disableNodeFusion => ?_⟩⟩
  · exact hadmitted.inBounds_getInputTensorsCount.mp hsafe.getInputTensorsCount
  · have hplan := hsafe.planAllocations (.new 1 1 false) fun _ => []
    exact (ArenaPlanner.inBounds_planAllocationsChecked _ hgraph).mp hplan
  · exact hadmitted.inBounds_getInputTensorsCount.mpr hpresent.1
  · exact hadmitted.inBounds_removeUnusedInputs.mpr hpresent.1
  · exact (ArenaPlanner.inBounds_planAllocationsChecked p hgraph).mpr hpresent.2
  · have hshares : ArenaPlanner.Shares s.tensorsSize { p with actualTensorId := [] } :=
      ⟨⟨hp.allocNode, hp.deallocNode, hp.refcounts⟩, fun entry hentry => by cases hentry⟩
    rw [(ArenaPlanner.identifyInPlaceTensorsChecked_ok rfl hgraph hpresent.2.targets hshares).1]
    exact inBounds_ok _
  · rw [partitionGraphChecked_eq hadmitted.nodesIndexed hadmitted.outputs.indexes hpresent.1]
    exact inBounds_checked _

end

/-- One tensor, and the outputs asked for. -/
def oneTensor (outputs : List TensorIndex) : Subgraph :=
  after (setOutputs outputs) (after (addTensors 1) {})

theorem indexSafe_iff_oneTensor : IndexSafe (oneTensor [0]) [] (fun _ => kTfLiteInplaceOpNone) ∧
    Built (.ofDelegates []) (oneTensor [0]) [] :=
  have hbuilt : Built (.ofDelegates []) (oneTensor [0]) [] := .setOutputs [0] (.addTensors 1 .new)
  ⟨(indexSafe_iff hbuilt _).mpr (by decide), hbuilt⟩

/-- An output that is left out is accepted, counted and looked up in the epochs. -/
theorem absentOutput_indexed : Built (.ofDelegates []) (oneTensor [-1]) [] ∧
    (oneTensor [-1]).outputs = [kTfLiteOptionalTensor] ∧
    (oneTensor [-1]).getInputTensorsCount = .error .outOfBounds ∧
    (oneTensor [-1]).removeUnusedInputs = .error .outOfBounds ∧
    partitionGraphChecked (oneTensor [-1]).tensorsSize (oneTensor [-1]).info [] true none false =
      .error .outOfBounds :=
  ⟨.setOutputs [-1] (.addTensors 1 .new), rfl, rfl, rfl, rfl⟩

end LiteRt.Tflite
