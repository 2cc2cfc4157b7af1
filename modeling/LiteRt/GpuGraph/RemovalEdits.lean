import LiteRt.GpuGraph.Consistency

/-!
# Removing a node

Four helpers take a node out of the graph and hand its links to a neighbour. Each is a sequence
of mutators, so an error of a later one leaves what the earlier ones have done.
-/

namespace LiteRt.GpuGraph

open LiteRt.Lib GraphFloat32

section

variable {Op Tn : Type} {g g' : GraphFloat32 Op Tn} {n : NodeId} {v x y : ValueId}

namespace GraphFloat32

/-- Another node than `toKeep` consumes the value, or more than one do. -/
def HasOtherConsumers (g : GraphFloat32 Op Tn) (toKeep : NodeId) (value : ValueId) : Prop :=
  1 < (g.findConsumers value).length ∨
    ((g.findConsumers value).length = 1 ∧ (g.findConsumers value).head? ≠ some toKeep)

instance (g : GraphFloat32 Op Tn) (toKeep : NodeId) :
    DecidablePred (g.HasOtherConsumers toKeep) :=
  fun _ => inferInstanceAs (Decidable (_ ∨ _))

/-- The value is known to be an output, or nothing consumes it. -/
def isGraphOutput (g : GraphFloat32 Op Tn) (id : ValueId) : Bool :=
  if g.values.length ≤ id then false
  else decide (id ∈ g.knownGraphOutputs) || (g.findConsumers id).isEmpty

end GraphFloat32

/-! ## The helpers -/

def removePrecedingNode (toRemove toKeep : NodeId) : GraphM Op Tn Unit := do
  let g ← get
  if ∃ output ∈ g.findOutputs toRemove, g.HasOtherConsumers toKeep output then
    fail .invalidArgument "Output from to_remove node has other consumers"
  else do
    (g.findInputs toRemove).forM fun input => addConsumer toKeep input
    let g ← get
    (g.findOutputs toRemove).forM fun output => deleteValue output
    deleteNode toRemove

/-- The producer is looked at without a test for its absence. -/
def checkProducer (toKeep : NodeId) (input : ValueId) : GraphM Op Tn Unit := do
  let g ← get
  match g.findProducer input with
  | none => throw .undefined
  | some producer =>
    if producer ≠ toKeep then fail .invalidArgument "To_remove node has other inputs"
    else pure ()

def removeFollowingNode (toRemove toKeep : NodeId) : GraphM Op Tn Unit := do
  let g ← get
  (g.findInputs toRemove).forM fun input => checkProducer toKeep input
  (g.findInputs toRemove).forM fun input => deleteValue input
  let g ← get
  (g.findOutputs toRemove).forM fun output => setProducer toKeep output
  deleteNode toRemove

def removeSimpleNodeKeepInput (simpleNode : NodeId) : GraphM Op Tn Unit := do
  let g ← get
  match g.findInputs simpleNode, g.findOutputs simpleNode with
  | [inputId], [outputId] => do
    deleteNode simpleNode
    (g.findConsumers outputId).forM fun consumer => replaceInput consumer outputId inputId
    deleteValue outputId
    onlyIf (g.findProducer inputId = none ∧ g.findConsumers outputId = []) (deleteValue inputId)
  | _, _ => fail .failedPrecondition "simple_node node must have 1 input and 1 output"

/-- The output goes to the producer of the input, if there is one. -/
def handOver (producer : Option NodeId) (inputId outputId : ValueId) : GraphM Op Tn Unit :=
  match producer with
  | some producer => do
    removeProducer inputId
    setProducer producer outputId
  | none => pure ()

def removeSimpleNodeKeepOutput (simpleNode : NodeId) : GraphM Op Tn Unit := do
  let g ← get
  match g.findInputs simpleNode, g.findOutputs simpleNode with
  | [inputId], [outputId] =>
    if (g.findConsumers inputId).length ≠ 1 then
      fail .failedPrecondition "simple_node should be the only consumer on the node."
    else do
      deleteNode simpleNode
      handOver (g.findProducer inputId) inputId outputId
      deleteValue inputId
      let g' ← get
      onlyIf (g.findProducer inputId = none ∧ g'.findConsumers outputId = []) (deleteValue outputId)
  | _, _ => fail .failedPrecondition "simple_node must have 1 input and 1 output"

/-! ## What a removal promises -/

/-- Every node but `n` reads and writes at the same positions as before, `kept` for `removed`,
and the graph outputs are there. -/
structure Bypassed (g g' : GraphFloat32 Op Tn) (n : NodeId) (removed kept : ValueId) : Prop where
  getNode : ∀ m, m ≠ n → g'.getNode m = g.getNode m
  inputs : ∀ m, m ≠ n →
    g'.findInputs m = (g.findInputs m).map fun v => if v = removed then kept else v
  outputs : ∀ m, m ≠ n →
    g'.findOutputs m = (g.findOutputs m).map fun v => if v = removed then kept else v
  graphOutputs : ∀ v, g.isGraphOutput v = true → v ≠ removed → g'.getValue v = g.getValue v

inductive Removal where
  | precedingNode (toRemove toKeep : NodeId)
  | followingNode (toRemove toKeep : NodeId)
  | simpleNodeKeepInput (simpleNode : NodeId)
  | simpleNodeKeepOutput (simpleNode : NodeId)
  deriving DecidableEq, Repr

def Removal.run : Removal → GraphM Op Tn Unit
  | precedingNode toRemove toKeep => removePrecedingNode toRemove toKeep
  | followingNode toRemove toKeep => removeFollowingNode toRemove toKeep
  | simpleNodeKeepInput simpleNode => removeSimpleNodeKeepInput simpleNode
  | simpleNodeKeepOutput simpleNode => removeSimpleNodeKeepOutput simpleNode

/-- What holds after a removal that succeeds. -/
def Removal.Meaning (g g' : GraphFloat32 Op Tn) : Removal → Prop
  | precedingNode _ _ | followingNode _ _ => True
  | simpleNodeKeepInput n =>
    ∀ x y, g.findInputs n = [x] → g.findOutputs n = [y] → Bypassed g g' n y x
  | simpleNodeKeepOutput n =>
    ∀ x y, g.findInputs n = [x] → g.findOutputs n = [y] → Bypassed g g' n x y

/-- The removal keeps the meaning of the graph, and does not touch it if it fails. -/
def Removal.Sound (g : GraphFloat32 Op Tn) (r : Removal) : Prop :=
  Ends r.run g (fun _ g' => r.Meaning g g') (Unchanged g)

/-! ## When it keeps the promise -/

def FirstOrNone (pre : ValueId → Prop) (l : List ValueId) : Prop :=
  (∀ v ∈ l, pre v) ∨ ∃ v ∈ l.head?, ¬pre v

def Removal.Safe (g : GraphFloat32 Op Tn) : Removal → Prop
  | precedingNode toRemove toKeep =>
    (∃ output ∈ g.findOutputs toRemove, g.HasOtherConsumers toKeep output) ∨
      FirstOrNone (Unlinked g toKeep) (g.findInputs toRemove)
  | followingNode toRemove toKeep =>
    -- The first input that `toKeep` does not produce decides what the check does.
    match (g.findInputs toRemove).find? fun input => g.findProducer input ≠ some toKeep with
    | some input => g.findProducer input ≠ none
    | none => (∀ output ∈ g.findOutputs toRemove, Unlinked g toKeep output) ∨
        (g.findInputs toRemove = [] ∧ FirstOrNone (Unlinked g toKeep) (g.findOutputs toRemove))
  | simpleNodeKeepInput n =>
    ∀ x y, g.findInputs n = [x] → g.findOutputs n = [y] →
      (∀ consumer ∈ g.findConsumers y, Unlinked g consumer x) ∧
      (g.findProducer x = none → g.findConsumers y = [] →
        g.findConsumers x = [n] ∧ x ∉ g.knownGraphOutputs)
  | simpleNodeKeepOutput n =>
    ∀ x y, g.findInputs n = [x] → g.findOutputs n = [y] → g.findConsumers x = [n] →
      (∀ p, g.findProducer x = some p → y ∉ g.findInputs p ∧ (g.findOutputs p).getLast? = some x) ∧
      (g.findProducer x = none → g.findConsumers y ≠ [])

end

/-!
## Loops of edits in a removal

A loop over values adds each to the inputs of one node, sets its producer, or deletes it. What
the loop has done before it stops is read off the queries.
-/

variable {Op Tn : Type} {g g' : GraphFloat32 Op Tn} {n k : NodeId} {v : ValueId} {l : List ValueId}

/-! ### Single edits -/

namespace GraphFloat32

theorem Linked.not_mem_consumers (h : g.Linked) (hin : v ∉ g.findInputs n) :
    n ∉ g.links.consumers v :=
  fun hmem => hin (h.mem_inputs.2 hmem)

theorem Relinks.linked_setProducer (hrel : Relinks g g' (g.links.setProducer n v))
    (h : g.Linked) (hpre : Unlinked g n v) : g'.Linked :=
  hrel.linked h (h.links.setProducer (h.not_mem_consumers hpre.input))
    (liveLinks_setProducer h hpre.node hpre.value)

theorem Relinks.linked_addConsumer (hrel : Relinks g g' (g.links.addConsumer n v))
    (h : g.Linked) (hpre : Unlinked g n v) : g'.Linked :=
  hrel.linked h (h.links.addConsumer (h.not_mem_consumers hpre.input) hpre.producer)
    (liveLinks_addConsumer h hpre.node hpre.value)

theorem Relinks.linked_replaceInput {old new : ValueId}
    (hrel : Relinks g g' (g.links.replaceInput n old new)) (h : g.Linked)
    (hold : old ∈ g.findInputs n) (hpre : Unlinked g n new) : g'.Linked :=
  hrel.linked h (h.links.replaceInput hold hpre.input hpre.producer)
    (liveLinks_replaceInput h hpre.node hpre.value hold)

/-- The links of a deleted node are gone. -/
theorem Linked.findInputs_dead (h : g.Linked) (hn : g.getNode n = none) : g.findInputs n = [] :=
  List.eq_nil_iff_forall_not_mem.2 fun _ hv => (h.live_input hv).1 hn

theorem Linked.findOutputs_dead (h : g.Linked) (hn : g.getNode n = none) :
    g.findOutputs n = [] :=
  List.eq_nil_iff_forall_not_mem.2 fun _ hv => (h.live_output hv).1 hn

/-- No node reads what it writes. -/
theorem Linked.separate (h : g.Linked) (hin : v ∈ g.findInputs n) :
    g.findProducer v ≠ some n :=
  fun hp => h.links.separate n v hp (h.mem_inputs.1 hin)

end GraphFloat32

/-! ### Adding consumers -/

/-- `n` also reads the values of `done`. -/
structure Reads (g g' : GraphFloat32 Op Tn) (n : NodeId) (done : List ValueId) : Prop where
  linked : g'.Linked
  inputs : g'.findInputs n = g.findInputs n ++ done
  outputs : g'.findOutputs = g.findOutputs
  producer : g'.findProducer = g.findProducer
  getNode : g'.getNode = g.getNode
  getValue : g'.getValue = g.getValue
  start : done = [] → g' = g

theorem Reads.unlinked_iff {done : List ValueId} (hreads : Reads g g' n done) (hv : v ∉ done) :
    Unlinked g' n v ↔ Unlinked g n v := by
  have hin : v ∈ g'.findInputs n ↔ v ∈ g.findInputs n := by
    rw [hreads.inputs, List.mem_append, or_iff_left hv]
  constructor
  · intro h
    refine ⟨hreads.getNode ▸ h.node, hreads.getValue ▸ h.value, ?_, hreads.producer ▸ h.producer⟩
    exact fun hmem => h.input (hin.2 hmem)
  · intro h
    refine ⟨hreads.getNode ▸ h.node, hreads.getValue ▸ h.value, ?_, hreads.producer ▸ h.producer⟩
    exact fun hmem => h.input (hin.1 hmem)

theorem addConsumers_ends (h : g.Linked) (hnodup : l.Nodup) :
    Ends (l.forM fun v => addConsumer n v) g
      (fun _ g' => (∀ v ∈ l, Unlinked g n v) ∧ Reads g g' n l)
      fun e g' => (∃ status, e = .error status) ∧ ∃ done v rest, l = done ++ v :: rest ∧
        (∀ w ∈ done, Unlinked g n w) ∧ ¬Unlinked g n v ∧ Reads g g' n done := by
  refine forM_ends (P := fun done g' => Reads g g' n done) ?_ ?_
  · exact ⟨h, (List.append_nil _).symm, rfl, rfl, rfl, rfl, fun _ => rfl⟩
  · intro done v rest hsplit g₁ hreads
    have hv : v ∉ done := not_mem_done hnodup hsplit
    rw [← hreads.unlinked_iff hv]
    refine (addConsumer_ends hreads.linked n v).mono ?_ fun _ _ hr => ⟨hr.1.2, hr.1.1, hr.2⟩
    rintro ⟨⟩ g₂ ⟨hpre, hrel⟩
    have hlinks := hrel.links
    refine ⟨hpre, hrel.linked_addConsumer hreads.linked hpre, ?_, ?_, ?_,
      hrel.getNode.trans hreads.getNode, hrel.getValue.trans hreads.getValue, ?_⟩
    · have hinputs : g₂.findInputs = _ := congrArg Links.inputs hlinks
      rw [hinputs]
      change Function.update g₁.findInputs n (g₁.findInputs n ++ [v]) n = _
      rw [Function.update_self, hreads.inputs, List.append_assoc]
    · exact (congrArg Links.outputs hlinks).trans hreads.outputs
    · exact (congrArg Links.producer hlinks).trans hreads.producer
    · intro hnil
      simp at hnil

/-! ### Setting producers -/

/-- `n` also writes the values of `done`. -/
structure Writes (g g' : GraphFloat32 Op Tn) (n : NodeId) (done : List ValueId) : Prop where
  linked : g'.Linked
  inputs : g'.findInputs = g.findInputs
  producer : ∀ v, g'.findProducer v = if v ∈ done then some n else g.findProducer v
  getNode : g'.getNode = g.getNode
  getValue : g'.getValue = g.getValue
  start : done = [] → g' = g

theorem Writes.unlinked_iff {done : List ValueId} (hwrites : Writes g g' n done)
    (hv : v ∉ done) : Unlinked g' n v ↔ Unlinked g n v := by
  have hproducer : g'.findProducer v = g.findProducer v := by
    rw [hwrites.producer, if_neg hv]
  constructor
  · intro h
    exact ⟨hwrites.getNode ▸ h.node, hwrites.getValue ▸ h.value, hwrites.inputs ▸ h.input,
      hproducer ▸ h.producer⟩
  · intro h
    refine ⟨hwrites.getNode ▸ h.node, hwrites.getValue ▸ h.value, hwrites.inputs ▸ h.input, ?_⟩
    rw [hproducer]
    exact h.producer

theorem setProducers_ends (h : g.Linked) (hnodup : l.Nodup) :
    Ends (l.forM fun v => setProducer n v) g
      (fun _ g' => (∀ v ∈ l, Unlinked g n v) ∧ Writes g g' n l)
      fun e g' => (∃ status, e = .error status) ∧ ∃ done v rest, l = done ++ v :: rest ∧
        (∀ w ∈ done, Unlinked g n w) ∧ ¬Unlinked g n v ∧ Writes g g' n done := by
  refine forM_ends (P := fun done g' => Writes g g' n done) ?_ ?_
  · exact ⟨h, rfl, fun v => (if_neg List.not_mem_nil).symm, rfl, rfl, fun _ => rfl⟩
  · intro done v rest hsplit g₁ hwrites
    have hv : v ∉ done := not_mem_done hnodup hsplit
    rw [← hwrites.unlinked_iff hv]
    refine (setProducer_ends hwrites.linked n v).mono ?_ fun _ _ hr => ⟨hr.1.2, hr.1.1, hr.2⟩
    rintro ⟨⟩ g₂ ⟨hpre, hrel⟩
    have hlinks := hrel.links
    refine ⟨hpre, hrel.linked_setProducer hwrites.linked hpre,
      (congrArg Links.inputs hlinks).trans hwrites.inputs, ?_,
      hrel.getNode.trans hwrites.getNode, hrel.getValue.trans hwrites.getValue, ?_⟩
    · intro w
      have hproducer : g₂.findProducer = _ := congrArg Links.producer hlinks
      rw [hproducer]
      change Function.update g₁.findProducer v (some n) w = _
      by_cases hw : w = v
      · subst hw
        simp
      · rw [Function.update_of_ne hw, hwrites.producer]
        simp [hw]
    · intro hnil
      simp at hnil

/-! ### Deleting values -/

structure ValuesDeleted (g g' : GraphFloat32 Op Tn) (done : List ValueId) : Prop where
  linked : g'.Linked
  getNode : g'.getNode = g.getNode
  getValue : ∀ v, g'.getValue v = if v ∈ done then none else g.getValue v
  producer : ∀ v, v ∉ done → g'.findProducer v = g.findProducer v
  inputs : ∀ n, (∀ v ∈ g.findInputs n, v ∉ done) → g'.findInputs n = g.findInputs n
  outputs : ∀ n, (∀ v ∈ g.findOutputs n, v ∉ done) → g'.findOutputs n = g.findOutputs n
  start : done = [] → g' = g

theorem deleteValues_ends {E : Stop → GraphFloat32 Op Tn → Prop} (h : g.Linked)
    (hnodup : l.Nodup) (hlive : ∀ v ∈ l, g.getValue v ≠ none) :
    Ends (l.forM fun v => deleteValue v) g (fun _ g' => ValuesDeleted g g' l) E := by
  have hloop : Ends (l.forM fun v => deleteValue v) g
      (fun _ g' => (∀ v ∈ l, True) ∧ ValuesDeleted g g' l)
      fun _ g' => False ∧ ∃ done v rest, l = done ++ v :: rest ∧ (∀ w ∈ done, True) ∧ ¬True ∧
        ValuesDeleted g g' done := by
    refine forM_ends (E := fun _ => False) (P := fun done g' => ValuesDeleted g g' done) ?_ ?_
    · exact ⟨h, rfl, fun v => (if_neg List.not_mem_nil).symm, fun _ _ => rfl, fun _ _ => rfl,
        fun _ _ => rfl, fun _ => rfl⟩
    · intro done v rest hsplit g₁ hdone
      have hv : v ∉ done := not_mem_done hnodup hsplit
      have hvlive : g₁.getValue v ≠ none := by
        rw [hdone.getValue, if_neg hv]
        exact hlive v (hsplit ▸ List.mem_append_right _ List.mem_cons_self)
      refine (deleteValue_ends hdone.linked v).mono ?_ fun _ _ hr => absurd hvlive hr.2
      rintro ⟨⟩ g₂ ⟨_, hdel⟩
      have hlinks := hdel.links
      refine ⟨trivial, hdel.linked hdone.linked, hdel.getNode.trans hdone.getNode, ?_, ?_, ?_,
        ?_, ?_⟩
      · intro w
        rw [hdel.getValue]
        by_cases hw : w = v
        · subst hw
          simp
        · rw [Function.update_of_ne hw, hdone.getValue]
          simp [hw]
      · intro w hw
        obtain ⟨hwdone, hwv⟩ := not_or.1 fun hor => hw (List.mem_append.2 hor)
        have hproducer : g₂.findProducer = _ := congrArg Links.producer hlinks
        rw [hproducer]
        change Function.update g₁.findProducer v none w = _
        rw [Function.update_of_ne fun heq => hwv (List.mem_singleton.2 heq),
          hdone.producer w hwdone]
      · intro m hm
        have hinputs : g₂.findInputs = _ := congrArg Links.inputs hlinks
        have hold := hdone.inputs m fun w hw hmem => hm w hw (List.mem_append_left _ hmem)
        rw [hinputs]
        change (g₁.findInputs m).erase v = _
        rw [hold, List.erase_of_not_mem fun hmem => hm v hmem (by simp)]
      · intro m hm
        have houtputs : g₂.findOutputs = _ := congrArg Links.outputs hlinks
        have hold := hdone.outputs m fun w hw hmem => hm w hw (List.mem_append_left _ hmem)
        rw [houtputs]
        change (g₁.findOutputs m).erase v = _
        rw [hold, List.erase_of_not_mem fun hmem => hm v hmem (by simp)]
      · intro hnil
        simp at hnil
  exact hloop.mono (fun _ _ hend => hend.2) fun _ _ hend => hend.1.elim

end LiteRt.GpuGraph
