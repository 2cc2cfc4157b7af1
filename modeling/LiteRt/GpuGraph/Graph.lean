import LiteRt.Lib.Links
import LiteRt.Lib.Outcome
import Mathlib.Data.List.Perm.Basic

/-!
# The graph of the GPU delegate

Values and nodes are kept by their index. A deleted one leaves its place behind, so an index is
never given twice, and a pointer to a node or a value is its index.
-/

namespace LiteRt.GpuGraph

open LiteRt.Lib

section

abbrev NodeId := Nat

abbrev ValueId := Nat

inductive StatusCode where
  | outOfRange
  | alreadyExists
  | invalidArgument
  | failedPrecondition
  deriving DecidableEq, Repr

structure Status where
  code : StatusCode
  message : String
  deriving DecidableEq, Repr

/-- An operation stops with a status, or erases the end of a vector. -/
inductive Stop where
  | error (status : Status)
  | undefined
  deriving DecidableEq, Repr

structure NodeDef (Op : Type) where
  inputs : List ValueId
  outputs : List ValueId
  node : Option Op
  deriving DecidableEq, Repr

structure ValueDef (Tn : Type) where
  producer : Option NodeId
  consumers : List NodeId
  value : Option Tn
  deriving DecidableEq, Repr

/-- Nodes carry an operation and values a tensor; the graph never looks at either. -/
structure GraphFloat32 (Op Tn : Type) where
  values : List (ValueDef Tn)
  nodes : List (NodeDef Op)
  /-- Node ids in the order of execution. -/
  executionPlan : List NodeId
  knownGraphOutputs : List ValueId
  deriving DecidableEq, Repr

abbrev GraphM (Op Tn α : Type) := EStateM Stop (GraphFloat32 Op Tn) α

variable {Op Tn : Type}

namespace GraphFloat32

def empty : GraphFloat32 Op Tn := ⟨[], [], [], []⟩

/-! ## Queries -/

section
variable (g : GraphFloat32 Op Tn)

def findInputs (id : NodeId) : List ValueId :=
  match g.nodes[id]? with
  | some n => n.inputs
  | none => []

def findOutputs (id : NodeId) : List ValueId :=
  match g.nodes[id]? with
  | some n => n.outputs
  | none => []

def findProducer (id : ValueId) : Option NodeId :=
  match g.values[id]? with
  | some v => v.producer
  | none => none

def findConsumers (id : ValueId) : List NodeId :=
  match g.values[id]? with
  | some v => v.consumers
  | none => []

def getNode (id : NodeId) : Option Op :=
  match g.nodes[id]? with
  | some n => n.node
  | none => none

def getValue (id : ValueId) : Option Tn :=
  match g.values[id]? with
  | some v => v.value
  | none => none

def isInput (node : NodeId) (value : ValueId) : Bool :=
  (g.getNode node).isSome && (g.getValue value).isSome && decide (value ∈ g.findInputs node)

/-! ## Changes of one field -/

def setInputs (id : NodeId) (inputs : List ValueId) : GraphFloat32 Op Tn :=
  { g with nodes := g.nodes.modify id fun n => { n with inputs := inputs } }

def setOutputs (id : NodeId) (outputs : List ValueId) : GraphFloat32 Op Tn :=
  { g with nodes := g.nodes.modify id fun n => { n with outputs := outputs } }

def resetNode (id : NodeId) : GraphFloat32 Op Tn :=
  { g with nodes := g.nodes.modify id fun n => { n with node := none } }

def setProducerOf (id : ValueId) (producer : Option NodeId) : GraphFloat32 Op Tn :=
  { g with values := g.values.modify id fun v => { v with producer := producer } }

def setConsumers (id : ValueId) (consumers : List NodeId) : GraphFloat32 Op Tn :=
  { g with values := g.values.modify id fun v => { v with consumers := consumers } }

def resetValue (id : ValueId) : GraphFloat32 Op Tn :=
  { g with values := g.values.modify id fun v => { v with value := none } }

end

end GraphFloat32

open GraphFloat32

/-! ## Mutators -/

def fail {α : Type} (code : StatusCode) (message : String) : GraphM Op Tn α :=
  throw (.error ⟨code, message⟩)

def lookupNode (id : NodeId) : GraphM Op Tn Unit := do
  let g ← get
  if g.nodes.length ≤ id then fail .outOfRange "NodeId is out of range"
  else if g.getNode id = none then fail .outOfRange "Node is already deleted"
  else pure ()

def lookupValue (id : ValueId) : GraphM Op Tn Unit := do
  let g ← get
  if g.values.length ≤ id then fail .outOfRange "ValueId is out of range"
  else if g.getValue id = none then fail .outOfRange "Value is already deleted"
  else pure ()

/-- `Erase` of a vector: what is not found is the end, which cannot be erased. -/
def erase {α : Type} [DecidableEq α] (values : List α) (value : α) : GraphM Op Tn (List α) :=
  if value ∈ values then pure (values.erase value) else throw .undefined

def eraseInput (id : NodeId) (value : ValueId) : GraphM Op Tn Unit := do
  let g ← get
  let inputs ← erase (g.findInputs id) value
  modify fun g => g.setInputs id inputs

def eraseOutput (id : NodeId) (value : ValueId) : GraphM Op Tn Unit := do
  let g ← get
  let outputs ← erase (g.findOutputs id) value
  modify fun g => g.setOutputs id outputs

def eraseConsumer (id : ValueId) (node : NodeId) : GraphM Op Tn Unit := do
  let g ← get
  let consumers ← erase (g.findConsumers id) node
  modify fun g => g.setConsumers id consumers

/-- The value disappears from the outputs of its producer. -/
def eraseFromProducer (value : ValueId) : GraphM Op Tn Unit := do
  let g ← get
  match g.findProducer value with
  | some producer => eraseOutput producer value
  | none => pure ()

def addKnownGraphOutput (id : ValueId) : GraphM Op Tn Unit :=
  modify fun g => { g with knownGraphOutputs := g.knownGraphOutputs ++ [id] }

section
variable [Inhabited Op] [Inhabited Tn]

/-- A node without links; `plan` is the execution plan with it. -/
def addNode (plan : NodeId → List NodeId) : GraphM Op Tn NodeId := do
  let g ← get
  let newId := g.nodes.length
  set { g with
    nodes := g.nodes ++ [NodeDef.mk [] [] (some default)]
    executionPlan := plan newId }
  return newId

def newNode : GraphM Op Tn NodeId := do
  let g ← get
  addNode fun newId => g.executionPlan ++ [newId]

def insertNodeAfter (id : NodeId) : GraphM Op Tn NodeId := do
  let g ← get
  if g.nodes.length ≤ id then fail .outOfRange "NodeId is out of range"
  else
    let idx := g.executionPlan.idxOf id
    if idx = g.executionPlan.length then fail .outOfRange "NodeId not in execution plan"
    else addNode fun newId => g.executionPlan.insertIdx (idx + 1) newId

def newValue : GraphM Op Tn ValueId := do
  let g ← get
  set { g with values := g.values ++ [ValueDef.mk none [] (some default)] }
  return g.values.length

end

def setProducer (producer : NodeId) (value : ValueId) : GraphM Op Tn Unit := do
  lookupValue value
  lookupNode producer
  let g ← get
  if g.findProducer value = some producer then
    fail .alreadyExists s!"Node {producer} is already a producer of the value {value}"
  else if g.isInput producer value then
    fail .invalidArgument "Node is a consumer of the value"
  else do
    eraseFromProducer value
    modify fun g => g.setProducerOf value (some producer)
    modify fun g => g.setOutputs producer (g.findOutputs producer ++ [value])

def removeProducer (value : ValueId) : GraphM Op Tn Unit := do
  lookupValue value
  let g ← get
  if g.findProducer value = none then
    fail .invalidArgument "Value does not have a producer"
  else do
    eraseFromProducer value
    modify fun g => g.setProducerOf value none

def addConsumer (consumer : NodeId) (value : ValueId) : GraphM Op Tn Unit := do
  lookupValue value
  lookupNode consumer
  let g ← get
  if g.findProducer value = some consumer then
    fail .invalidArgument "Node is a producer of the value"
  else if g.isInput consumer value then
    fail .alreadyExists s!"Node {consumer} is already a consumer of the value {value}"
  else do
    modify fun g => g.setInputs consumer (g.findInputs consumer ++ [value])
    modify fun g => g.setConsumers value (g.findConsumers value ++ [consumer])

def replaceInput (node : NodeId) (oldValue newValue : ValueId) : GraphM Op Tn Unit := do
  lookupValue oldValue
  lookupValue newValue
  lookupNode node
  let g ← get
  if ¬g.isInput node oldValue then
    fail .invalidArgument "old_value must be input of node."
  else if g.isInput node newValue then
    fail .invalidArgument "new_value can not be input of node."
  else if g.findProducer newValue = some node then
    fail .invalidArgument "new_value can not be output of node."
  else do
    modify fun g => g.setInputs node ((g.findInputs node).replace oldValue newValue)
    modify fun g => g.setConsumers newValue (g.findConsumers newValue ++ [node])
    eraseConsumer oldValue node

def removeConsumer (consumer : NodeId) (value : ValueId) : GraphM Op Tn Unit := do
  lookupValue value
  lookupNode consumer
  let g ← get
  if ¬g.isInput consumer value then
    fail .invalidArgument "Node is not a consumer of the value"
  else do
    eraseInput consumer value
    eraseConsumer value consumer

def deleteNode (id : NodeId) : GraphM Op Tn Unit := do
  lookupNode id
  let g ← get
  (g.findInputs id).forM fun value => eraseConsumer value id
  (g.findOutputs id).forM fun value => modify fun g => g.setProducerOf value none
  modify fun g => ((g.setInputs id []).setOutputs id []).resetNode id

def deleteValue (id : ValueId) : GraphM Op Tn Unit := do
  lookupValue id
  let g ← get
  eraseFromProducer id
  (g.findConsumers id).forM fun node => eraseInput node id
  modify fun g => ((g.setProducerOf id none).setConsumers id []).resetValue id

end

/-!
## Linked graphs

What the values and the nodes of a graph know of each other are links in the sense of the
library; here each change of a field is read off the queries, and the links of a graph are
put beside the state of its nodes and values.
-/

variable {Op Tn : Type}

namespace GraphFloat32

variable {g : GraphFloat32 Op Tn} {n m : NodeId} {v w : ValueId}

/-! ### Queries after a change -/

theorem lt_of_getNode (h : g.getNode n ≠ none) : n < g.nodes.length := by
  refine Nat.lt_of_not_le fun hle => h ?_
  unfold getNode
  rw [List.getElem?_eq_none hle]

theorem lt_of_getValue (h : g.getValue v ≠ none) : v < g.values.length := by
  refine Nat.lt_of_not_le fun hle => h ?_
  unfold getValue
  rw [List.getElem?_eq_none hle]

section
variable (g)

theorem findInputs_setInputs (hn : n < g.nodes.length) (l : List ValueId) :
    (g.setInputs n l).findInputs = Function.update g.findInputs n l := by
  funext m
  by_cases hm : m = n
  · subst hm
    simp [findInputs, setInputs, List.getElem?_eq_getElem hn]
  · simp [findInputs, setInputs, List.getElem?_modify_ne _ _ (Ne.symm hm), hm]

theorem findOutputs_setOutputs (hn : n < g.nodes.length) (l : List ValueId) :
    (g.setOutputs n l).findOutputs = Function.update g.findOutputs n l := by
  funext m
  by_cases hm : m = n
  · subst hm
    simp [findOutputs, setOutputs, List.getElem?_eq_getElem hn]
  · simp [findOutputs, setOutputs, List.getElem?_modify_ne _ _ (Ne.symm hm), hm]

theorem getNode_resetNode (n : NodeId) :
    (g.resetNode n).getNode = Function.update g.getNode n none := by
  funext m
  by_cases hm : m = n
  · subst hm
    simp only [getNode, resetNode, List.getElem?_modify_eq, Function.update_self]
    cases g.nodes[m]? <;> rfl
  · simp [getNode, resetNode, List.getElem?_modify_ne _ _ (Ne.symm hm), hm]

theorem findProducer_setProducerOf (hv : v < g.values.length) (p : Option NodeId) :
    (g.setProducerOf v p).findProducer = Function.update g.findProducer v p := by
  funext w
  by_cases hw : w = v
  · subst hw
    simp [findProducer, setProducerOf, List.getElem?_eq_getElem hv]
  · simp [findProducer, setProducerOf, List.getElem?_modify_ne _ _ (Ne.symm hw), hw]

theorem findConsumers_setConsumers (hv : v < g.values.length) (l : List NodeId) :
    (g.setConsumers v l).findConsumers = Function.update g.findConsumers v l := by
  funext w
  by_cases hw : w = v
  · subst hw
    simp [findConsumers, setConsumers, List.getElem?_eq_getElem hv]
  · simp [findConsumers, setConsumers, List.getElem?_modify_ne _ _ (Ne.symm hw), hw]

theorem getValue_resetValue (v : ValueId) :
    (g.resetValue v).getValue = Function.update g.getValue v none := by
  funext w
  by_cases hw : w = v
  · subst hw
    simp only [getValue, resetValue, List.getElem?_modify_eq, Function.update_self]
    cases g.values[w]? <;> rfl
  · simp [getValue, resetValue, List.getElem?_modify_ne _ _ (Ne.symm hw), hw]

/-! Changes of a node that another query does not see. -/

theorem nodes_modify_view {β : Type} (p : NodeDef Op → β) (d : β) (f : NodeDef Op → NodeDef Op)
    (hf : ∀ a, p (f a) = p a) (n m : NodeId) :
    (match (g.nodes.modify n f)[m]? with
      | some a => p a
      | none => d) = match g.nodes[m]? with
      | some a => p a
      | none => d := by
  rw [List.getElem?_modify]
  cases g.nodes[m]? with
  | none => rfl
  | some a =>
    by_cases hnm : n = m
    · simp [hnm, hf]
    · simp [hnm]

theorem values_modify_view {β : Type} (p : ValueDef Tn → β) (d : β)
    (f : ValueDef Tn → ValueDef Tn) (hf : ∀ a, p (f a) = p a) (v w : ValueId) :
    (match (g.values.modify v f)[w]? with
      | some a => p a
      | none => d) = match g.values[w]? with
      | some a => p a
      | none => d := by
  rw [List.getElem?_modify]
  cases g.values[w]? with
  | none => rfl
  | some a =>
    by_cases hvw : v = w
    · simp [hvw, hf]
    · simp [hvw]

@[simp] theorem findOutputs_setInputs (n : NodeId) (l : List ValueId) :
    (g.setInputs n l).findOutputs = g.findOutputs :=
  funext fun m => g.nodes_modify_view (·.outputs) [] (fun a => { a with inputs := l })
    (fun _ => rfl) n m

@[simp] theorem getNode_setInputs (n : NodeId) (l : List ValueId) :
    (g.setInputs n l).getNode = g.getNode :=
  funext fun m => g.nodes_modify_view (·.node) none (fun a => { a with inputs := l })
    (fun _ => rfl) n m

@[simp] theorem findInputs_setOutputs (n : NodeId) (l : List ValueId) :
    (g.setOutputs n l).findInputs = g.findInputs :=
  funext fun m => g.nodes_modify_view (·.inputs) [] (fun a => { a with outputs := l })
    (fun _ => rfl) n m

@[simp] theorem getNode_setOutputs (n : NodeId) (l : List ValueId) :
    (g.setOutputs n l).getNode = g.getNode :=
  funext fun m => g.nodes_modify_view (·.node) none (fun a => { a with outputs := l })
    (fun _ => rfl) n m

@[simp] theorem findInputs_resetNode (n : NodeId) : (g.resetNode n).findInputs = g.findInputs :=
  funext fun m => g.nodes_modify_view (·.inputs) [] (fun a => { a with node := none })
    (fun _ => rfl) n m

@[simp] theorem findOutputs_resetNode (n : NodeId) :
    (g.resetNode n).findOutputs = g.findOutputs :=
  funext fun m => g.nodes_modify_view (·.outputs) [] (fun a => { a with node := none })
    (fun _ => rfl) n m

@[simp] theorem findConsumers_setProducerOf (v : ValueId) (p : Option NodeId) :
    (g.setProducerOf v p).findConsumers = g.findConsumers :=
  funext fun w => g.values_modify_view (·.consumers) [] (fun a => { a with producer := p })
    (fun _ => rfl) v w

@[simp] theorem getValue_setProducerOf (v : ValueId) (p : Option NodeId) :
    (g.setProducerOf v p).getValue = g.getValue :=
  funext fun w => g.values_modify_view (·.value) none (fun a => { a with producer := p })
    (fun _ => rfl) v w

@[simp] theorem findProducer_setConsumers (v : ValueId) (l : List NodeId) :
    (g.setConsumers v l).findProducer = g.findProducer :=
  funext fun w => g.values_modify_view (·.producer) none (fun a => { a with consumers := l })
    (fun _ => rfl) v w

@[simp] theorem getValue_setConsumers (v : ValueId) (l : List NodeId) :
    (g.setConsumers v l).getValue = g.getValue :=
  funext fun w => g.values_modify_view (·.value) none (fun a => { a with consumers := l })
    (fun _ => rfl) v w

@[simp] theorem findProducer_resetValue (v : ValueId) :
    (g.resetValue v).findProducer = g.findProducer :=
  funext fun w => g.values_modify_view (·.producer) none (fun a => { a with value := none })
    (fun _ => rfl) v w

@[simp] theorem findConsumers_resetValue (v : ValueId) :
    (g.resetValue v).findConsumers = g.findConsumers :=
  funext fun w => g.values_modify_view (·.consumers) [] (fun a => { a with value := none })
    (fun _ => rfl) v w

end

/-! ### The state of a graph -/

def links (g : GraphFloat32 Op Tn) : Links NodeId ValueId :=
  ⟨g.findProducer, g.findConsumers, g.findInputs, g.findOutputs⟩

/-- The ends of every link are not deleted. -/
def LiveLinks (g : GraphFloat32 Op Tn) (L : Links NodeId ValueId) : Prop :=
  ∀ (n : NodeId) (v : ValueId), v ∈ L.inputs n ∨ v ∈ L.outputs n →
    g.getNode n ≠ none ∧ g.getValue v ≠ none

/-- Both ends of every link agree and are not deleted, and the plan lists every node once. -/
structure Linked (g : GraphFloat32 Op Tn) : Prop where
  links : g.links.Valid
  live : g.LiveLinks g.links
  plan : g.executionPlan.Perm (List.range g.nodes.length)

/-- From `g` to `g'` only the links have changed, and they are now `L`. -/
structure Relinks (g g' : GraphFloat32 Op Tn) (L : Links NodeId ValueId) : Prop where
  links : g'.links = L
  getNode : g'.getNode = g.getNode
  getValue : g'.getValue = g.getValue
  executionPlan : g'.executionPlan = g.executionPlan
  nodes : g'.nodes.length = g.nodes.length
  known : g'.knownGraphOutputs = g.knownGraphOutputs

theorem Relinks.linked {g' : GraphFloat32 Op Tn} {L : Links NodeId ValueId}
    (hrel : Relinks g g' L) (h : g.Linked) (hL : L.Valid) (hlive : g.LiveLinks L) :
    g'.Linked where
  links := by rwa [hrel.links]
  live := by
    intro n v
    rw [hrel.links, hrel.getNode, hrel.getValue]
    exact hlive n v
  plan := by
    rw [hrel.executionPlan, hrel.nodes]
    exact h.plan

/-- An operation that fails reports a status and changes nothing. -/
def Unchanged (g : GraphFloat32 Op Tn) (stop : Stop) (g' : GraphFloat32 Op Tn) : Prop :=
  g' = g ∧ ∃ status, stop = .error status

/-- An operation fails because its precondition does. -/
def Refused (g : GraphFloat32 Op Tn) (pre : Prop) (stop : Stop) (g' : GraphFloat32 Op Tn) : Prop :=
  Unchanged g stop g' ∧ ¬pre

namespace Linked

theorem mem_outputs (h : g.Linked) : v ∈ g.findOutputs n ↔ g.findProducer v = some n :=
  h.links.outputs n v

theorem mem_inputs (h : g.Linked) : v ∈ g.findInputs n ↔ n ∈ g.findConsumers v :=
  h.links.inputs n v

theorem live_input (h : g.Linked) (hv : v ∈ g.findInputs n) :
    g.getNode n ≠ none ∧ g.getValue v ≠ none :=
  h.live n v (.inl hv)

theorem live_output (h : g.Linked) (hv : v ∈ g.findOutputs n) :
    g.getNode n ≠ none ∧ g.getValue v ≠ none :=
  h.live n v (.inr hv)

end Linked

theorem isInput_iff (h : g.Linked) : g.isInput n v = true ↔ v ∈ g.findInputs n := by
  unfold isInput
  simp only [Bool.and_eq_true, Option.isSome_iff_ne_none, decide_eq_true_eq]
  exact ⟨fun hin => hin.2, fun hv => ⟨h.live_input hv, hv⟩⟩

end GraphFloat32

open GraphFloat32

variable {g : GraphFloat32 Op Tn} {n : NodeId} {v : ValueId}

/-! ### The steps of the mutators -/

section
variable {α : Type} {f : Unit → GraphM Op Tn α} {Q : α → GraphFloat32 Op Tn → Prop} {pre : Prop}

theorem ends_fail {code : StatusCode} {message : String} (hpre : ¬pre) :
    Ends (fail code message : GraphM Op Tn α) g Q (Refused g pre) :=
  ends_throw ⟨⟨rfl, _, rfl⟩, hpre⟩

theorem ends_lookupNode (hpre : pre → g.getNode n ≠ none)
    (h : g.getNode n ≠ none → Ends (f ()) g Q (Refused g pre)) :
    Ends (lookupNode n >>= f) g Q (Refused g pre) := by
  refine Ends.bind (Q := fun _ g' => g' = g ∧ g.getNode n ≠ none) ?_ ?_
  · refine ends_get ?_
    by_cases hle : g.nodes.length ≤ n
    · rw [if_pos hle]
      exact ends_fail fun h => Nat.not_lt.2 hle (lt_of_getNode (hpre h))
    · rw [if_neg hle]
      by_cases hnone : g.getNode n = none
      · rw [if_pos hnone]
        exact ends_fail fun h => hpre h hnone
      · rw [if_neg hnone]
        exact ends_pure ⟨rfl, hnone⟩
  · rintro ⟨⟩ g' ⟨rfl, hn⟩
    exact h hn

theorem ends_lookupValue (hpre : pre → g.getValue v ≠ none)
    (h : g.getValue v ≠ none → Ends (f ()) g Q (Refused g pre)) :
    Ends (lookupValue v >>= f) g Q (Refused g pre) := by
  refine Ends.bind (Q := fun _ g' => g' = g ∧ g.getValue v ≠ none) ?_ ?_
  · refine ends_get ?_
    by_cases hle : g.values.length ≤ v
    · rw [if_pos hle]
      exact ends_fail fun h => Nat.not_lt.2 hle (lt_of_getValue (hpre h))
    · rw [if_neg hle]
      by_cases hnone : g.getValue v = none
      · rw [if_pos hnone]
        exact ends_fail fun h => hpre h hnone
      · rw [if_neg hnone]
        exact ends_pure ⟨rfl, hnone⟩
  · rintro ⟨⟩ g' ⟨rfl, hv⟩
    exact h hv

end

theorem eraseInput_eq (h : v ∈ g.findInputs n) :
    eraseInput n v g = .ok () (g.setInputs n ((g.findInputs n).erase v)) := by
  change (erase (g.findInputs n) v >>= fun inputs =>
    modify fun g => g.setInputs n inputs : GraphM Op Tn Unit) g = _
  unfold erase
  rw [if_pos h]
  rfl

theorem eraseOutput_eq (h : v ∈ g.findOutputs n) :
    eraseOutput n v g = .ok () (g.setOutputs n ((g.findOutputs n).erase v)) := by
  change (erase (g.findOutputs n) v >>= fun outputs =>
    modify fun g => g.setOutputs n outputs : GraphM Op Tn Unit) g = _
  unfold erase
  rw [if_pos h]
  rfl

theorem eraseConsumer_eq (h : n ∈ g.findConsumers v) :
    eraseConsumer v n g = .ok () (g.setConsumers v ((g.findConsumers v).erase n)) := by
  change (erase (g.findConsumers v) n >>= fun consumers =>
    modify fun g => g.setConsumers v consumers : GraphM Op Tn Unit) g = _
  unfold erase
  rw [if_pos h]
  rfl

end LiteRt.GpuGraph
