import LiteRt.Tflite.Invoke

/-!
# Applying and removing delegates

`ModifyGraphWithDelegate`, `AllocateTensors` and what they call. Delegates that were
undone are redone first, and redoing them calls the same functions again, with the flag
`delegates_undone_` down; `depth` bounds that recursion.
-/

namespace LiteRt.Tflite

open LiteRt.Lib Subgraph

/-! ## `UndoAllDelegates` -/

namespace Subgraph

variable (s : Subgraph)

def isFullyDelegated : Bool := s.executionPlan.all fun n => (s.node n).delegate.isSome

/-- Frees the delegate nodes of the plan, by `CleanupNode`. -/
def cleanupDelegateNodes : Subgraph :=
  s.executionPlan.foldl (fun s n =>
    if (s.node n).delegate.isSome then
      s.updateNode n fun node =>
        { node with inputs := [], outputs := [], intermediates := [], builtinData := .null }
    else s) s

def restoreExecutionPlan : Subgraph :=
  { s.setExecutionPlan s.preDelegationExecutionPlan with preDelegationExecutionPlan := [] }

/-- The first pass: which fp32 tensor stands for an fp16 one. -/
def fp16ToFp32 : TensorIndex → TensorIndex :=
  s.executionPlan.foldl (fun map n =>
    match (s.node n).builtinCode, (s.node n).inputs, (s.node n).outputs with
    | .dequantize, [input], [output] =>
      if (s.tensors input).type = .float16 then Function.update map input output else map
    | _, _, _ => map) id

/-- The second pass on one node. -/
def remapFp16Inputs (map : TensorIndex → TensorIndex) (node : NodeAndRegistration) :
    NodeAndRegistration :=
  if node.builtinCode = .dequantize then node
  else { node with inputs := node.inputs.map fun t =>
    if t ≠ kTfLiteOptionalTensor ∧ (s.tensors t).type = .float16 then map t else t }

/-- Points fp16 inputs back to their dequantized versions. -/
def restoreFp16 : Subgraph :=
  s.executionPlan.foldl (fun s' n => s'.updateNode n (s.remapFp16Inputs s.fp16ToFp32)) s

/-- Drops the nodes behind those of the plan. -/
def truncateNodes : Subgraph :=
  let size := s.executionPlan.foldl max 0 + 1
  { s with nodesAndRegistration := s.nodesAndRegistration.take size ++
      List.replicate (size - s.nodesAndRegistration.length) default }

/-- `UndoAllDelegates` when there is a plan to go back to. -/
def undoAllDelegates : Subgraph :=
  { s.cleanupDelegateNodes.restoreExecutionPlan.restoreFp16.truncateNodes with
    isDelegationSkippable := false
    state := .uninvokable
    delegatesUndone := true }

end Subgraph

def undoAllDelegates : SubgraphM Unit := do
  let s ← get
  onlyIf (s.preDelegationExecutionPlan ≠ []) (modify Subgraph.undoAllDelegates)

/-! ## `AllocateTensors` and `ModifyGraphWithDelegate` -/

/-- The allocation itself, at the end of `AllocateTensors`. -/
def allocate (env : Env) : SubgraphM Unit := do
  let s ← get
  let noReallocationsNecessary := s.state ≠ .uninvokable && !s.hasDynamicTensor s.inputs
  if noReallocationsNecessary then pure ()
  else
    modify fun s => { s with
      nextExecutionPlanIndexToPrepare := 0
      nextExecutionPlanIndexToPlanAllocation := 0
      nextOriginalExecutionPlanIndexToPrepare := 0 }
    onlyIf s.hasMemoryPlanner (callPlanner env .resetAllocations)
    prepareOpsAndTensors env
    modify fun s => { s with state := .invokable }

section
variable (env : Env) (redo : SubgraphM Unit)

/-- `AllocateTensors` with its calls of `RedoAllDelegates` and of the inlining. -/
def allocateTensorsWith (inline : SubgraphM Unit) : SubgraphM Unit := do
  let s ← get
  ensure s.consistent
  redo
  inline
  allocate env

def ensureMemoryAllocations : SubgraphM Unit := do
  let s ← get
  onlyIf s.hasMemoryPlanner do
    modify fun s => { s with state := .uninvokable }
    callPlanner env .planAllocations
  allocateTensorsWith env redo (pure ())
  let s ← get
  ensure (s.state = .invokable)

def removeAllDelegatesWith : SubgraphM Unit := do
  undoAllDelegates
  modify fun s => { s with delegatesApplied := [], delegatesUndone := false }
  ensureMemoryAllocations env redo

/-- `reset_delegation_if_not_ok` on the status of `x`. -/
def resetDelegationIfNotOk (x : SubgraphM Unit) : SubgraphM Unit := do
  let callStatus ← status x
  onlyIf (callStatus ≠ .ok) do
    removeAllDelegatesWith env redo
    throw .delegateError

/-- The `Prepare` of a delegate in the context of the subgraph. -/
def runDelegate (delegate : DelegateId) : DelegateProgram → SubgraphM Unit
  | .done status => onlyIf (status ≠ .ok) (throw status)
  | .replaceNodeSubsets nodesToReplace next => do
    let callStatus ← status (replaceNodeSubsetsWithDelegateKernels env nodesToReplace delegate)
    let s ← get
    runDelegate delegate (next callStatus s)
  | .setNodeInputs node inputs next => do
    modify fun s => s.updateNode node fun node => { node with inputs := inputs }
    let s ← get
    runDelegate delegate (next s)

/-- `TfLiteDelegatePrepareInternal`. -/
def delegatePrepare (delegate : DelegateId) : SubgraphM Unit := do
  let s ← get
  runDelegate env delegate ((env.delegate delegate).prepare s)

/-- `PrepareOpsStartingAt` over the whole execution plan. -/
def prepareAllOps : SubgraphM Unit := do
  let s ← get
  let _ ← prepareOpsStartingAt env 0 s.executionPlan 0

/-- Step 1 of `ModifyGraphWithDelegateImpl` after delegates are redone. -/
def verifyForDelegation (delegate : Delegate) : SubgraphM Unit := do
  let s ← get
  if s.state = .invokableAndImmutable then modify fun s => { s with state := .uninvokable }
  else onlyIf (!delegate.allowDynamicTensors && !delegate.hintFullyDelegatedToSingleDelegate) do
    prepareAllOps env
    let s ← get
    onlyIf s.hasDynamicTensors do
      ensureMemoryAllocations env redo
      throw .applicationError

/-- Step 2: the delegate replaces nodes. -/
def applyDelegate (delegate : DelegateId) : SubgraphM Unit := do
  modify fun s => { s with preDelegationExecutionPlan :=
    if s.delegatesApplied = [] then s.executionPlan else s.preDelegationExecutionPlan }
  resetDelegationIfNotOk env redo (delegatePrepare env delegate)
  let s ← get
  onlyIf ((env.delegate delegate).hintFullyDelegatedToSingleDelegate && !s.isFullyDelegated)
    (throw .applicationError)

/-- Step 3, for the state from before the delegation. -/
def settleDelegation (delegate : Delegate) (preDelegationState : State) : SubgraphM Unit := do
  if !delegate.allowDynamicTensors then
    onlyIf (!delegate.hintFullyDelegatedToSingleDelegate) do
      modify fun s => { s with state := .uninvokable }
      resetDelegationIfNotOk env redo (ensureMemoryAllocations env redo)
    modify fun s => { s with state := .invokableAndImmutable }
  else if preDelegationState = .invokableAndImmutable then
    resetDelegationIfNotOk env redo (prepareAllOps env)
    let s ← get
    onlyIf s.hasDynamicTensors do
      removeAllDelegatesWith env redo
      throw .applicationError
    resetDelegationIfNotOk env redo (ensureMemoryAllocations env redo)
    modify fun s => { s with state := .invokableAndImmutable }
  else
    onlyIf (preDelegationState = .invokable)
      (resetDelegationIfNotOk env redo (ensureMemoryAllocations env redo))

/-- `ModifyGraphWithDelegateImpl`; a null delegate is `none`. -/
def modifyGraphWithDelegateImpl : Option DelegateId → SubgraphM Unit
  | none => throw .delegateError
  | some delegate => do
    redo
    let s ← get
    verifyForDelegation env redo (env.delegate delegate)
    applyDelegate env redo delegate
    settleDelegation env redo (env.delegate delegate) s.state
    modify fun s => { s with delegatesApplied := s.delegatesApplied ++ [delegate] }

/-- The delegates, one after the other. -/
def modifyGraphWithDelegates : List DelegateId → SubgraphM Unit
  | [] => pure ()
  | delegate :: delegates => do
    modifyGraphWithDelegateImpl env redo (some delegate)
    modifyGraphWithDelegates delegates

end

/-- `RedoAllDelegates`; inside itself the flag is down. -/
def redoAllDelegates (env : Env) : Nat → SubgraphM Unit
  | 0 => do
    let s ← get
    ensure (!s.delegatesUndone)
  | depth + 1 => do
    let s ← get
    onlyIf s.delegatesUndone do
      modify fun s => { s with delegatesUndone := false, delegatesApplied := [] }
      modifyGraphWithDelegates env (redoAllDelegates env depth) s.delegatesApplied

/-! ## Inlining composite nodes -/

/-- `ReMapTensorIndex` for the tensors `formal` of the inserted subgraph. -/
def reMapTensorIndex (formal actual : List TensorIndex) (tensorOffset : Nat) (t : TensorIndex) :
    TensorIndex :=
  match (formal.zip actual).reverse.find? fun pair => pair.1 == t with
  | some pair => pair.2
  | none => t + tensorOffset

/-- The nodes of the inserted subgraph, cloned; returns their indices. -/
def cloneNodes (env : Env) (subgraph : Subgraph) (composite : NodeAndRegistration)
    (tensorOffset : Nat) : List Nat → SubgraphM (List Nat)
  | [] => pure []
  | n :: ns => do
    let node := subgraph.node n
    let cloned ← addNodeWithParameters env { node with
      inputs := node.inputs.map (reMapTensorIndex subgraph.inputs composite.inputs tensorOffset)
      outputs :=
        node.outputs.map (reMapTensorIndex subgraph.outputs composite.outputs tensorOffset)
      intermediates := node.intermediates.map (· + (tensorOffset : Int)) }
    modify fun s => s.setExecutionPlan s.executionPlan.dropLast
    let rest ← cloneNodes env subgraph composite tensorOffset ns
    pure (cloned :: rest)

/-- `AddTensors` with clones of the tensors of the inserted subgraph. -/
def Subgraph.addTensors (s subgraph : Subgraph) : Subgraph :=
  { s with
    tensorsSize := s.tensorsSize + subgraph.tensorsSize
    tensors := fun t =>
      if (s.tensorsSize : Int) ≤ t ∧ t < s.tensorsSize + subgraph.tensorsSize then
        subgraph.tensors (t - s.tensorsSize)
      else s.tensors t }

/-- `ReplaceNodeWithSubgraph`; returns how many nodes were inserted. -/
def replaceNodeWithSubgraph (env : Env) (executionIndex : Nat) (node : NodeAndRegistration)
    (subgraphIndex : Nat) : SubgraphM Nat := do
  match env.subgraphs[subgraphIndex]? with
  | none => throw .error
  | some subgraph =>
    let s ← get
    let tensorOffset := s.tensorsSize
    modify fun s => s.addTensors subgraph
    let plan := if subgraph.preDelegationExecutionPlan = [] then subgraph.executionPlan
      else subgraph.preDelegationExecutionPlan
    let inserted ← cloneNodes env subgraph node tensorOffset plan
    modify fun s => s.setExecutionPlan
      (s.executionPlan.take executionIndex ++ inserted ++ s.executionPlan.drop (executionIndex + 1))
    pure inserted.length

def Subgraph.compositeNodes (s : Subgraph) : List Nat :=
  s.executionPlan.filter fun n => (s.node n).builtinCode == .stablehloComposite

/-- `params.subgraph_index`. -/
def BuiltinData.subgraphIndex : BuiltinData → Nat
  | .composite subgraphIndex => subgraphIndex
  | _ => 0

/-- The loop over the execution plan from `executionIndex` on, over `n` nodes. -/
def inlineNodes (env : Env) (composites : List Nat) : Nat → Nat → SubgraphM Unit
  | 0, _ => pure ()
  | n + 1, executionIndex => do
    let s ← get
    let nodeIndex := s.executionPlan.getD executionIndex 0
    if nodeIndex ∈ composites then
      let count ← replaceNodeWithSubgraph env executionIndex (s.node nodeIndex)
        (s.node nodeIndex).builtinData.subgraphIndex
      inlineNodes env composites n (executionIndex + count)
    else inlineNodes env composites n (executionIndex + 1)

/-- `InlineCompositeNodes`, over at most `rounds` rounds. -/
def inlineCompositeNodes (env : Env) (redo : SubgraphM Unit) : Nat → SubgraphM Unit
  | 0 => do
    let s ← get
    ensure s.compositeNodes.isEmpty
  | rounds + 1 => do
    let s ← get
    onlyIf (s.compositeNodes ≠ []) do
      undoAllDelegates
      let s' ← get
      inlineNodes env s.compositeNodes s'.executionPlan.length 0
      redo
      inlineCompositeNodes env redo rounds

/-! ## The calls of an application -/

def allocateTensors (env : Env) (rounds : Nat) : SubgraphM Unit :=
  allocateTensorsWith env (redoAllDelegates env 1) do
    let s ← get
    onlyIf (s.shloCompositeInlining && !s.isDelegationSkippable && !s.isFullyDelegated)
      (inlineCompositeNodes env (redoAllDelegates env 1) rounds)

def modifyGraphWithDelegate (env : Env) (delegate : Option DelegateId) : SubgraphM Unit :=
  modifyGraphWithDelegateImpl env (redoAllDelegates env 1) delegate

def removeAllDelegates (env : Env) : SubgraphM Unit :=
  removeAllDelegatesWith env (redoAllDelegates env 1)

def resizeInputTensor (t : TensorIndex) (dims : List Int) : SubgraphM Unit := do
  let s ← get
  let graphIsImmutable := s.state = .invokableAndImmutable
  ensure (!(graphIsImmutable && s.delegatesApplied.isEmpty))
  ensure (isValidIndex t s.tensorsSize)
  if (s.tensors t).hasData && (s.tensors t).dims == dims then pure ()
  else
    onlyIf graphIsImmutable undoAllDelegates
    modify fun s => { s with state := .uninvokable }
    resizeTensorImpl t dims

inductive Call where
  | allocateTensors
  | resizeInputTensor (tensor : TensorIndex) (dims : List Int)
  | modifyGraphWithDelegate (delegate : Option DelegateId)
  | removeAllDelegates
  | invoke
  deriving DecidableEq, Repr

def Call.run (env : Env) (rounds : Nat) : Call → SubgraphM Unit
  | .allocateTensors => Tflite.allocateTensors env rounds
  | .resizeInputTensor t dims => Tflite.resizeInputTensor t dims
  | .modifyGraphWithDelegate delegate => Tflite.modifyGraphWithDelegate env delegate
  | .removeAllDelegates => Tflite.removeAllDelegates env
  | .invoke => invokeImpl env

end LiteRt.Tflite
