import LiteRt.GpuGraph.Transformation

/-!
# Copies of a graph

The copy takes over the places of values and nodes and links them anew with the mutators, node by
node in the order of execution.
-/

namespace LiteRt.GpuGraph

open LiteRt.Lib GraphFloat32

variable {Op Tn : Type}

namespace GraphFloat32

/-! ## Queries that list nodes and values -/

section
variable (g : GraphFloat32 Op Tn)

def allNodes : List (NodeId × Op) :=
  g.executionPlan.filterMap fun id => (g.getNode id).map (Prod.mk id)

def filterValues (predicate : ValueDef Tn → Tn → Bool) : List (ValueId × Tn) :=
  (List.range g.values.length).filterMap fun id => do
    let v ← g.values[id]?
    let value ← v.value
    if predicate v value then some (id, value) else none

def allValues : List (ValueId × Tn) := g.filterValues fun _ _ => true

def inputs : List (ValueId × Tn) := g.filterValues fun v _ => v.producer.isNone

def variableInputs (isVariableInput : Tn → Bool) : List (ValueId × Tn) :=
  g.filterValues fun _ value => isVariableInput value

/-- Values without a consumer, and then the known graph outputs that have one. -/
def outputs : List (ValueId × Tn) :=
  g.filterValues (fun v _ => v.consumers.isEmpty) ++
    (g.filterValues fun v _ => !v.consumers.isEmpty).filter fun v =>
      decide (v.1 ∈ g.knownGraphOutputs)

def isGraphInput (id : ValueId) : Bool :=
  match g.values[id]? with
  | some v => v.producer.isNone
  | none => false

end

end GraphFloat32

/-! ## The copy -/

/-- The pointer to the new value is its index. -/
def copyValue (g : GraphFloat32 Op Tn) (id : ValueId) : GraphM Op Tn Unit :=
  match g.values[id]? with
  | none => throw .undefined
  | some v => do
    modify fun c => { c with values := c.values ++ [ValueDef.mk none [] v.value] }
    let c ← get
    if v.value.isSome ∧ id ∈ g.knownGraphOutputs then addKnownGraphOutput (c.values.length - 1)
    else pure ()

/-- Places in front that are not given yet are left as those of deleted nodes. -/
def placeNode (nodes : List (NodeDef Op)) (id : NodeId) (n : NodeDef Op) : List (NodeDef Op) :=
  (nodes ++ List.replicate (id + 1 - nodes.length) (NodeDef.mk [] [] none)).set id n

def copyNode (g : GraphFloat32 Op Tn) (id : NodeId) : GraphM Op Tn Unit :=
  match g.nodes[id]? with
  | none => throw .undefined
  | some n =>
    modify fun c => { c with
      executionPlan := c.executionPlan ++ [id]
      nodes := placeNode c.nodes id ⟨[], [], n.node⟩ }

def wireNode (g : GraphFloat32 Op Tn) (id : NodeId) : GraphM Op Tn Unit :=
  match g.nodes[id]? with
  | none => throw .undefined
  | some n =>
    if n.node.isSome then do
      n.outputs.forM fun output => setProducer id output
      n.inputs.forM fun input => addConsumer id input
    else pure ()

/-- Runs on the graph that becomes the copy. -/
def makeExactCopy (g : GraphFloat32 Op Tn) : GraphM Op Tn Unit := do
  set (GraphFloat32.empty : GraphFloat32 Op Tn)
  (List.range g.values.length).forM (copyValue g)
  g.executionPlan.forM (copyNode g)
  g.executionPlan.forM (wireNode g)

/-! ## Runs that also set contents -/

/-- A mutator, or an assignment through the pointer to a node or a value. -/
inductive Edit (Op Tn : Type) where
  | mutator (op : GraphOp)
  | operation (id : NodeId) (op : Op)
  | tensor (id : ValueId) (t : Tn)
  deriving DecidableEq, Repr

def GraphFloat32.withTensor (g : GraphFloat32 Op Tn) (id : ValueId) (t : Tn) :
    GraphFloat32 Op Tn :=
  { g with values := g.values.modify id fun v => { v with value := some t } }

section
variable [Inhabited Op] [Inhabited Tn]

/-- There is no pointer to what is deleted. -/
def Edit.apply (g : GraphFloat32 Op Tn) : Edit Op Tn → GraphFloat32 Op Tn
  | mutator op => after op.run g
  | operation id op => if (g.getNode id).isSome then g.withOperation id op else g
  | tensor id t => if (g.getValue id).isSome then g.withTensor id t else g

def edited (edits : List (Edit Op Tn)) (g : GraphFloat32 Op Tn) : GraphFloat32 Op Tn :=
  edits.foldl Edit.apply g

end

/-- A graph and its copy. -/
structure Pair (Op Tn : Type) where
  original : GraphFloat32 Op Tn
  copy : GraphFloat32 Op Tn

/-- An edit of the one or of the other. -/
inductive EitherEdit (Op Tn : Type) where
  | original (e : Edit Op Tn)
  | copy (e : Edit Op Tn)

namespace EitherEdit

def onOriginal : EitherEdit Op Tn → Option (Edit Op Tn)
  | original e => some e
  | copy _ => none

def onCopy : EitherEdit Op Tn → Option (Edit Op Tn)
  | original _ => none
  | copy e => some e

def apply [Inhabited Op] [Inhabited Tn] (both : Pair Op Tn) : EitherEdit Op Tn → Pair Op Tn
  | original e => { both with original := e.apply both.original }
  | copy e => { both with copy := e.apply both.copy }

end EitherEdit

/-- Both graphs give the same answers to all queries, consumers in any order. -/
structure SameAnswers (isVariableInput : Tn → Bool) (g c : GraphFloat32 Op Tn) : Prop where
  executionPlan : c.executionPlan = g.executionPlan
  nodes : c.allNodes = g.allNodes
  values : c.allValues = g.allValues
  inputs : c.inputs = g.inputs
  variableInputs : c.variableInputs isVariableInput = g.variableInputs isVariableInput
  outputs : c.outputs = g.outputs
  getNode : ∀ id, c.getNode id = g.getNode id
  getValue : ∀ id, c.getValue id = g.getValue id
  findProducer : ∀ id, c.findProducer id = g.findProducer id
  findInputs : ∀ id, c.findInputs id = g.findInputs id
  findOutputs : ∀ id, c.findOutputs id = g.findOutputs id
  isGraphInput : ∀ id, c.isGraphInput id = g.isGraphInput id
  isGraphOutput : ∀ id, c.isGraphOutput id = g.isGraphOutput id
  findConsumers : ∀ id n, n ∈ c.findConsumers id ↔ n ∈ g.findConsumers id

end LiteRt.GpuGraph
