import LiteRt.Tflite.Delegation

/-!
# What kernels and the planner leave alone

Preparing and invoking nodes changes the shapes, the data and the cursors of a subgraph,
never its graph: nodes, plans and delegates.
-/

namespace LiteRt.Tflite

open LiteRt.Lib Subgraph

/-- The part of a subgraph that only the delegation calls change. -/
def Subgraph.graph (s : Subgraph) : Subgraph :=
  { s with
    tensors := fun t => { type := (s.tensors t).type, delegate := (s.tensors t).delegate }
    hasDynamicTensors := true
    nextExecutionPlanIndexToPrepare := 0
    nextExecutionPlanIndexToPlanAllocation := 0
    nextOriginalExecutionPlanIndexToPrepare := 0
    tensorResizedSinceOpInvoke := false
    hasMemoryPlanner := false
    trace := [] }

/-- `s` has the graph of `g`. -/
def SameGraph (g s : Subgraph) : Prop := s.graph = g.graph

namespace SameGraph

variable {g s : Subgraph}

theorem refl (g : Subgraph) : SameGraph g g := rfl

theorem trans {s' : Subgraph} (h : SameGraph g s) (h' : SameGraph s s') : SameGraph g s' :=
  Eq.trans h' h

theorem apply {α : Type*} (h : SameGraph g s) (f : Subgraph → α) : f s.graph = f g.graph := by
  rw [show s.graph = g.graph from h]

theorem executionPlan (h : SameGraph g s) : s.executionPlan = g.executionPlan :=
  h.apply Subgraph.executionPlan

theorem nodesAndRegistration (h : SameGraph g s) :
    s.nodesAndRegistration = g.nodesAndRegistration :=
  h.apply Subgraph.nodesAndRegistration

theorem node (h : SameGraph g s) (n : Nat) : s.node n = g.node n := by
  rw [Subgraph.node, Subgraph.node, h.nodesAndRegistration]

theorem info (h : SameGraph g s) : s.info = g.info := h.apply Subgraph.info

theorem preDelegationExecutionPlan (h : SameGraph g s) :
    s.preDelegationExecutionPlan = g.preDelegationExecutionPlan :=
  h.apply Subgraph.preDelegationExecutionPlan

theorem setState (h : SameGraph g s) (state : State) :
    SameGraph { g with state := state } { s with state := state } := by
  have h' := h.apply fun g : Subgraph => ({ g with state := state } : Subgraph)
  exact h'

theorem updateTensor (h : SameGraph g s) (t : TensorIndex) {f : Tensor → Tensor}
    (hf : ∀ tensor, (f tensor).type = tensor.type ∧ (f tensor).delegate = tensor.delegate) :
    SameGraph g (s.updateTensor t f) := by
  rw [SameGraph, ← h]
  have htensors : (fun u => ({ type := ((s.updateTensor t f).tensors u).type
                               delegate := ((s.updateTensor t f).tensors u).delegate } : Tensor)) =
      fun u => { type := (s.tensors u).type, delegate := (s.tensors u).delegate } := by
    funext u
    by_cases hu : u = t
    · subst hu
      simp [Subgraph.updateTensor, hf]
    · simp [Subgraph.updateTensor, hu]
  rw [Subgraph.graph, htensors]
  rfl

end SameGraph

/-! ## Rules -/

section
variable {s : Subgraph} {E : TfLiteStatus → Subgraph → Prop} {x : SubgraphM Unit}

theorem ends_ensure {c : Bool} {Q : Unit → Subgraph → Prop} (ht : c = true → Q () s)
    (hf : c = false → E .error s) : Ends (ensure c) s Q E := by
  cases c with
  | true => exact ends_pure (ht rfl)
  | false => exact ends_throw (hf rfl)

/-- A status that is looked at does not end the caller. -/
theorem ends_status {Q : TfLiteStatus → Subgraph → Prop} (hx : Ends x s (fun _ s' => Q .ok s') Q) :
    Ends (status x) s Q E := by
  revert hx
  rw [Ends, Ends, status]
  cases x s with
  | ok _ s' => exact id
  | error e s' => exact id

theorem keeps_ensure (c : Bool) (P : Subgraph → Prop) : Keeps (ensure c) P :=
  fun _ hs => ends_ensure (fun _ => hs) fun _ => hs

theorem Keeps.status {P : Subgraph → Prop} (hx : Keeps x P) :
    Keeps (status x) P := fun s hs => ends_status (hx s hs)

end

/-! ## Kernel calls -/

namespace Subgraph

variable (s : Subgraph) (t u : TensorIndex)

theorem updateTensor_field {α : Type*} (field : Tensor → α) {f : Tensor → Tensor}
    (hf : ∀ tensor, field (f tensor) = field tensor) :
    field ((s.updateTensor t f).tensors u) = field (s.tensors u) := by
  by_cases hu : u = t
  · subst hu
    simp [updateTensor, hf]
  · simp [updateTensor, hu]

@[simp] theorem setHasData_dims (hasData : Bool) :
    ((s.setHasData t hasData).tensors u).dims = (s.tensors u).dims :=
  updateTensor_field s t u Tensor.dims fun _ => rfl

@[simp] theorem setBytes_dims (bytes : Nat) :
    ((s.setBytes t bytes).tensors u).dims = (s.tensors u).dims := by
  have h := updateTensor_field s t u Tensor.dims (f := fun tensor => { tensor with bytes := bytes })
    fun _ => rfl
  rw [setBytes]
  split <;> exact h

@[simp] theorem setBytes_tensorResizedSinceOpInvoke (bytes : Nat) :
    (s.setBytes t bytes).tensorResizedSinceOpInvoke = s.tensorResizedSinceOpInvoke := by
  rw [setBytes]
  split <;> rfl

end Subgraph

def KernelCall.tensor : KernelCall → TensorIndex
  | .resizeTensor t _ => t
  | .setTensorToDynamic t => t

/-- `s` comes from `g` by kernel calls on tensors with `T`. -/
structure Reshaped (T : TensorIndex → Prop) (g s : Subgraph) : Prop where
  graph : SameGraph g s
  toPrepare : s.nextExecutionPlanIndexToPrepare = g.nextExecutionPlanIndexToPrepare
  toPlan : s.nextExecutionPlanIndexToPlanAllocation = g.nextExecutionPlanIndexToPlanAllocation
  planner : s.hasMemoryPlanner = g.hasMemoryPlanner
  trace : ∃ events, s.trace = g.trace ++ events ∧ ∀ e ∈ events, ∃ t, T t ∧
    (e = .bytes t ∨ e = .dims t ∧ s.tensorResizedSinceOpInvoke = true)
  dynamic : ∀ t, (g.tensors t).allocationType = .dynamic → (s.tensors t).allocationType = .dynamic

namespace Reshaped

variable {T : TensorIndex → Prop} {g s : Subgraph} {t : TensorIndex}

theorem refl (g : Subgraph) : Reshaped T g g where
  graph := .refl g
  toPrepare := rfl
  toPlan := rfl
  planner := rfl
  trace := ⟨[], (List.append_nil _).symm, by simp⟩
  dynamic _ h := h

theorem updateTensor (h : Reshaped T g s) (t : TensorIndex) {f : Tensor → Tensor}
    (hf : ∀ tensor, (f tensor).type = tensor.type ∧ (f tensor).delegate = tensor.delegate)
    (hd : (s.tensors t).allocationType = .dynamic →
      (f (s.tensors t)).allocationType = .dynamic) : Reshaped T g (s.updateTensor t f) where
  graph := h.graph.updateTensor t hf
  toPrepare := h.toPrepare
  toPlan := h.toPlan
  planner := h.planner
  trace := h.trace
  dynamic u hu := by
    by_cases hut : u = t
    · subst hut
      simpa [Subgraph.updateTensor] using hd (h.dynamic u hu)
    · simpa [Subgraph.updateTensor, hut] using h.dynamic u hu

/-- A change that the trace records. -/
theorem log (h : Reshaped T g s) (ht : T t) {e : Event}
    (he : e = .bytes t ∨ e = .dims t ∧ s.tensorResizedSinceOpInvoke = true) :
    Reshaped T g (s.log e) where
  graph := h.graph
  toPrepare := h.toPrepare
  toPlan := h.toPlan
  planner := h.planner
  trace := by
    obtain ⟨events, hs, hev⟩ := h.trace
    refine ⟨events ++ [e], by rw [Subgraph.log, hs, List.append_assoc], fun e' he' => ?_⟩
    rcases List.mem_append.mp he' with he' | he'
    · exact hev e' he'
    · obtain rfl := List.mem_singleton.mp he'
      exact ⟨t, ht, he⟩
  dynamic := h.dynamic

theorem flag (h : Reshaped T g s) (b : Bool) : Reshaped T g
    { s with tensorResizedSinceOpInvoke := s.tensorResizedSinceOpInvoke || b } where
  graph := h.graph
  toPrepare := h.toPrepare
  toPlan := h.toPlan
  planner := h.planner
  trace := by
    obtain ⟨events, hs, hev⟩ := h.trace
    refine ⟨events, hs, fun e he => ?_⟩
    obtain ⟨t, ht, he⟩ := hev e he
    exact ⟨t, ht, he.imp_right fun he => ⟨he.1, Bool.or_eq_true_iff.mpr (.inl he.2)⟩⟩
  dynamic := h.dynamic

theorem setHasData (h : Reshaped T g s) (t : TensorIndex) (hasData : Bool) :
    Reshaped T g (s.setHasData t hasData) :=
  h.updateTensor t (fun _ => ⟨rfl, rfl⟩) fun hd => hd

theorem setBytes (h : Reshaped T g s) (ht : T t) (bytes : Nat) :
    Reshaped T g (s.setBytes t bytes) := by
  have h' : Reshaped T g (s.updateTensor t fun tensor => { tensor with bytes := bytes }) :=
    h.updateTensor t (fun _ => ⟨rfl, rfl⟩) fun hd => hd
  rw [Subgraph.setBytes]
  split
  · exact h'
  · exact h'.log ht (.inl rfl)

theorem setDims (h : Reshaped T g s) (ht : T t) {dims : List Int}
    (hflag : (s.tensors t).dims ≠ dims → s.tensorResizedSinceOpInvoke = true) :
    Reshaped T g (s.setDims t dims) := by
  have h' : Reshaped T g (s.updateTensor t fun tensor => { tensor with dims := dims }) :=
    h.updateTensor t (fun _ => ⟨rfl, rfl⟩) fun hd => hd
  rw [Subgraph.setDims]
  split
  · exact h'
  · next hne => exact h'.log ht (.inr ⟨rfl, hflag hne⟩)

end Reshaped

section
variable {T : TensorIndex → Prop} {g : Subgraph} {t : TensorIndex}

theorem keeps_setTensorToDynamic : Keeps (setTensorToDynamic t) (Reshaped T g) := by
  refine keeps_modify fun s hs => hs.updateTensor t (fun tensor => ?_) fun hd => ?_
  · split <;> exact ⟨rfl, rfl⟩
  · rw [if_neg (not_not.mpr hd)]
    exact hd

theorem keeps_resizeTensorImpl (ht : T t) (newSize : List Int) :
    Keeps (resizeTensorImpl t newSize) (Reshaped T g) := by
  refine keeps_get fun s hs => ?_
  dsimp only
  split
  · -- the flag is up before the dims change
    let Flagged (s' : Subgraph) := Reshaped T g s' ∧
      ((s'.tensors t).dims ≠ newSize → s'.tensorResizedSinceOpInvoke = true)
    have hbytes : Keeps (onlyIf (s.tensors t).type.hasByteSize do
        ensure (bytesRequired (s.tensors t).type newSize).1
        onlyIf ((s.tensors t).allocationType = .dynamic ∨
            (s.tensors t).allocationType = .persistentRo)
          (modify fun s' => s'.setHasData t true)
        modify fun s' => s'.setBytes t (bytesRequired (s.tensors t).type newSize).2) Flagged := by
      refine .onlyIf ((keeps_ensure _ _).bind fun _ => .bind (.onlyIf (keeps_modify ?_)) fun _ =>
        keeps_modify ?_)
      · exact fun s' h => ⟨h.1.setHasData t true, fun hne => h.2 (by simpa using hne)⟩
      · exact fun s' h => ⟨h.1.setBytes ht _, fun hne => by
          simpa using h.2 (by simpa using hne)⟩
    refine Ends.bind (Q := fun _ => Flagged) (ends_modify ⟨hs.flag _, fun hne => ?_⟩)
      fun _ s₁ h₁ => ?_
    · exact Bool.or_eq_true_iff.mpr (.inr (decide_eq_true hne))
    refine Ends.bind (Q := fun _ => Flagged)
      ((hbytes s₁ h₁).mono (fun _ _ => id) fun _ _ h => h.1) fun _ s₂ h₂ => ?_
    refine Ends.bind (Q := fun _ => Reshaped T g) (ends_modify (h₂.1.setDims ht h₂.2))
      fun _ s₃ h₃ => ?_
    exact ends_onlyIf (fun _ => ends_modify (h₃.setHasData t false)) fun _ => h₃
  · exact ends_throw hs

theorem keeps_resizeTensor (ht : T t) (newSize : List Int) :
    Keeps (resizeTensor t newSize) (Reshaped T g) := by
  refine keeps_get fun s hs => ?_
  dsimp only
  split
  · exact ends_pure hs
  · exact keeps_resizeTensorImpl ht newSize s hs

theorem keeps_runKernelCall {call : KernelCall} (ht : T call.tensor) :
    Keeps (runKernelCall call) (Reshaped T g) := by
  cases call with
  | resizeTensor t newSize => exact keeps_resizeTensor ht newSize
  | setTensorToDynamic t => exact keeps_setTensorToDynamic

theorem keeps_runKernelCalls {calls : List KernelCall} (ht : ∀ call ∈ calls, T call.tensor) :
    Keeps (runKernelCalls calls) (Reshaped T g) := by
  induction calls with
  | nil => exact keeps_pure _
  | cons call calls ih =>
    exact (keeps_runKernelCall (ht call (List.mem_cons_self ..))).bind fun _ =>
      ih fun call' hcall => ht call' (List.mem_cons_of_mem _ hcall)

end

/-! ## The graph stays -/

/-- What depends on the graph of a subgraph, and on the planner that it has. -/
def Stable (P : Subgraph → Prop) : Prop :=
  ∀ s s' : Subgraph, s'.graph = s.graph →
    (s.hasMemoryPlanner = true → s'.hasMemoryPlanner = true) → P s → P s'

theorem stable_sameGraph (g : Subgraph) : Stable (SameGraph g) := fun _ _ hg _ h => hg.trans h

theorem stable_hasMemoryPlanner : Stable fun s => s.hasMemoryPlanner = true := fun _ _ _ h => h

section
variable {env : Env} {P : Subgraph → Prop} (hP : Stable P)

include hP

theorem keeps_modify_stable {f : Subgraph → Subgraph} (hf : ∀ s : Subgraph, (f s).graph = s.graph ∧
    (s.hasMemoryPlanner = true → (f s).hasMemoryPlanner = true)) :
    Keeps (modify f : SubgraphM Unit) P :=
  keeps_modify fun s hs => hP s (f s) (hf s).1 (hf s).2 hs

theorem keeps_runKernelCalls_stable (calls : List KernelCall) : Keeps (runKernelCalls calls) P :=
  fun s hs =>
    have hdone (s' : Subgraph) (h : Reshaped (fun _ => True) s s') : P s' :=
      hP s s' h.graph (fun hm => h.planner.trans hm) hs
    (keeps_runKernelCalls (fun _ _ => trivial) s (.refl s)).mono (fun _ => hdone) fun _ => hdone

theorem keeps_opPrepare_stable (nodeIndex : Nat) : Keeps (opPrepare env nodeIndex) P :=
  (keeps_modify_stable hP fun _ => by exact ⟨rfl, id⟩).bind fun _ => keeps_get fun s hs =>
    ((Keeps.status (keeps_runKernelCalls_stable hP _)).bind fun _ => keeps_pure _) s hs

theorem keeps_callPlanner_stable (call : PlannerCall) : Keeps (callPlanner env call) P := by
  refine (keeps_modify_stable hP fun _ => by exact ⟨rfl, id⟩).bind fun _ =>
    keeps_get fun s hs => ?_
  split
  · exact ends_throw hs
  · exact keeps_modify_stable hP (fun _ => by exact ⟨rfl, id⟩) s hs

theorem keeps_prepareOps_stable (nodes : List Nat) (index last : Nat) :
    Keeps (prepareOps env nodes index last) P := by
  induction nodes generalizing index last with
  | nil => exact keeps_pure _
  | cons node nodes ih =>
    refine (keeps_opPrepare_stable hP node).bind fun _ => .bind (.onlyIf (keeps_throw _)) fun _ =>
      keeps_get fun s hs => ?_
    split
    · exact ((keeps_modify_stable hP fun _ => by exact ⟨rfl, id⟩).bind fun _ => keeps_pure _) s hs
    · exact ih _ _ s hs

theorem keeps_prepareOpsStartingAt_stable (first : Nat) (plan : List Nat) (last : Nat) :
    Keeps (prepareOpsStartingAt env first plan last) P :=
  (Keeps.onlyIf (keeps_modify_stable hP fun _ => by exact ⟨rfl, id⟩)).bind fun _ =>
    keeps_prepareOps_stable hP _ _ _

theorem keeps_prepareOpsAndTensors_stable : Keeps (prepareOpsAndTensors env) P := by
  refine keeps_get fun s hs => Keeps.bind (.onlyIf ?_) (fun _ => ?_) s hs
  · exact (keeps_prepareOpsStartingAt_stable hP _ _ _).bind fun _ =>
      keeps_modify_stable hP fun _ => by exact ⟨rfl, id⟩
  · refine (keeps_prepareOpsStartingAt_stable hP _ _ _).bind fun _ =>
      (keeps_modify_stable hP fun _ => by exact ⟨rfl, id⟩).bind fun _ => .bind (.onlyIf ?_) fun _ =>
        (keeps_callPlanner_stable hP _).bind fun _ =>
          keeps_modify_stable hP fun _ => by exact ⟨rfl, id⟩
    exact (keeps_modify_stable hP fun _ => by exact ⟨rfl, fun _ => rfl⟩).bind fun _ =>
      (Keeps.status (keeps_callPlanner_stable hP _)).bind fun _ => keeps_pure _

theorem keeps_beforeInvoke_stable (k : Nat) : Keeps (beforeInvoke env k) P := by
  refine keeps_get fun s hs => Keeps.bind (.onlyIf ?_) (fun _ => ?_) s hs
  · exact (keeps_prepareOpsAndTensors_stable hP).bind fun _ => keeps_get fun s hs =>
      keeps_ensure _ P s hs
  · exact keeps_get fun s hs => ((keeps_ensure _ P).bind fun _ =>
      keeps_modify_stable hP fun _ => by exact ⟨rfl, id⟩) s hs

theorem keeps_invokeNode_stable (k : Nat) : Keeps (invokeNode env k) P := by
  refine (keeps_beforeInvoke_stable hP k).bind fun _ => Keeps.bind ?_ fun _ =>
    .bind (.onlyIf (keeps_throw _)) fun _ => keeps_get fun s hs => Keeps.onlyIf ?_ s hs
  · exact (keeps_modify_stable hP fun _ => by exact ⟨rfl, id⟩).bind fun _ => keeps_get fun s hs =>
      ((Keeps.status (keeps_runKernelCalls_stable hP _)).bind fun _ => keeps_pure _) s hs
  · exact (keeps_modify_stable hP fun _ => by exact ⟨rfl, id⟩).bind fun _ => .onlyIf
      ((keeps_modify_stable hP fun _ => by exact ⟨rfl, id⟩).bind fun _ =>
        .onlyIf (keeps_callPlanner_stable hP _))

theorem keeps_invokeNodes_stable (n k : Nat) : Keeps (invokeNodes env n k) P := by
  induction n generalizing k with
  | zero => exact keeps_pure _
  | succ n ih => exact (keeps_invokeNode_stable hP k).bind fun _ => ih (k + 1)

theorem keeps_invokeImpl_stable : Keeps (invokeImpl env) P :=
  keeps_get fun s hs => ((keeps_ensure _ P).bind fun _ => (keeps_ensure _ P).bind fun _ =>
    keeps_invokeNodes_stable hP _ _) s hs

end

/-!
## What rewiring leaves alone

Adding nodes, replacing them by delegate kernels and inlining change nodes, tensors and
the execution plan, and may make the subgraph uninvokable. They do not reach the records
of the delegation: the saved plan, the delegates applied, and whether they are undone.
-/

/-- What depends on the records of the delegation, and holds of subgraphs made uninvokable. -/
def PlanFree (P : Subgraph → Prop) : Prop :=
  ∀ s s' : Subgraph, s'.preDelegationExecutionPlan = s.preDelegationExecutionPlan →
    s'.delegatesApplied = s.delegatesApplied → s'.delegatesUndone = s.delegatesUndone →
    (s'.state = s.state ∨ s'.state = .uninvokable) → P s → P s'

section
variable {env : Env} {P : Subgraph → Prop} (hP : PlanFree P) {f : Subgraph → Subgraph}

include hP

theorem keeps_modify_planFree
    (hf : ∀ s : Subgraph, (f s).preDelegationExecutionPlan = s.preDelegationExecutionPlan ∧
      (f s).delegatesApplied = s.delegatesApplied ∧ (f s).delegatesUndone = s.delegatesUndone ∧
    ((f s).state = s.state ∨ (f s).state = .uninvokable)) :
    Keeps (modify f : SubgraphM Unit) P :=
  keeps_modify fun s hs => hP s (f s) (hf s).1 (hf s).2.1 (hf s).2.2.1 (hf s).2.2.2 hs

theorem keeps_modify_fields
    (hf : ∀ s : Subgraph, ((f s).preDelegationExecutionPlan, (f s).delegatesApplied,
      (f s).delegatesUndone,
    (f s).state) = (s.preDelegationExecutionPlan, s.delegatesApplied, s.delegatesUndone, s.state)) :
    Keeps (modify f : SubgraphM Unit) P :=
  keeps_modify_planFree hP fun s => by
    have h := hf s
    simp only [Prod.mk.injEq] at h
    exact ⟨h.1, h.2.1, h.2.2.1, .inl h.2.2.2⟩

theorem keeps_checkTensorIndices (indices : List TensorIndex) :
    Keeps (checkTensorIndices indices) P := by
  refine keeps_get fun s hs => ?_
  split
  · exact ends_pure hs
  · exact ((keeps_modify_fields hP fun _ => by rfl).bind fun _ => keeps_throw _) s hs

theorem keeps_checkInputAndOutputForOverlap (inputs outputs : List TensorIndex) :
    Keeps (checkInputAndOutputForOverlap inputs outputs) P := by
  rw [checkInputAndOutputForOverlap]
  split
  · exact (keeps_modify_fields hP fun _ => by rfl).bind fun _ => keeps_throw _
  · exact keeps_pure _

theorem keeps_addNodeWithParameters (node : NodeAndRegistration) :
    Keeps (addNodeWithParameters env node) P := by
  refine keeps_get fun s hs => ((keeps_ensure _ P).bind fun _ => .bind (keeps_modify_planFree hP
    fun _ => by exact ⟨rfl, rfl, rfl, .inr rfl⟩) fun _ => (keeps_checkTensorIndices hP _).bind
      fun _ => (keeps_checkTensorIndices hP _).bind fun _ => .bind
        (.onlyIf (keeps_checkInputAndOutputForOverlap hP _ _)) fun _ => keeps_get fun s hs => ?_) s hs
  split
  · exact ((keeps_modify_fields hP fun _ => by rfl).bind fun _ =>
      (keeps_modify_fields hP fun _ => by rfl).bind fun _ => keeps_pure _) s hs
  · exact ((keeps_modify_fields hP fun _ => by rfl).bind fun _ => keeps_throw _) s hs

/-! ### Replacing nodes -/

theorem keeps_setDelegate (delegate : DelegateId) (tensors : List TensorIndex) :
    Keeps (setDelegate delegate tensors) P := by
  induction tensors with
  | nil => exact keeps_pure _
  | cons t tensors ih =>
    exact keeps_get fun s hs => ((keeps_ensure _ P).bind fun _ =>
      (keeps_modify_fields hP fun _ => by rfl).bind fun _ => ih) s hs

theorem keeps_addNodeSubset (delegate : DelegateId) (subset : NodeSubset) :
    Keeps (addNodeSubset env delegate subset) P := by
  rw [addNodeSubset]
  split
  · exact keeps_modify_fields hP fun _ => by rfl
  · exact (keeps_addNodeWithParameters hP _).bind fun _ => (keeps_setDelegate hP _ _).bind fun _ =>
      keeps_modify_fields hP fun _ => by rfl
  · exact keeps_throw _

theorem keeps_addNodeSubsets (delegate : DelegateId) (subsets : List NodeSubset) :
    Keeps (addNodeSubsets env delegate subsets) P := by
  induction subsets with
  | nil => exact keeps_pure _
  | cons subset subsets ih => exact (keeps_addNodeSubset hP _ _).bind fun _ => ih

theorem keeps_replaceNodeSubsets (nodesToReplace : List Int) (delegate : DelegateId) :
    Keeps (replaceNodeSubsetsWithDelegateKernels env nodesToReplace delegate) P := by
  rw [replaceNodeSubsetsWithDelegateKernels]
  split
  · exact keeps_pure _
  · refine keeps_get fun s hs => ?_
    split
    · exact ends_throw hs
    · exact ((keeps_modify_fields hP fun _ => by rfl).bind fun _ =>
        keeps_addNodeSubsets hP _ _) s hs

theorem keeps_runDelegate (delegate : DelegateId) (program : DelegateProgram) :
    Keeps (runDelegate env delegate program) P := by
  induction program with
  | done status => exact .onlyIf (keeps_throw _)
  | replaceNodeSubsets nodes next ih =>
    exact (Keeps.status (keeps_replaceNodeSubsets hP _ _)).bind fun callStatus =>
      keeps_get fun s hs => ih callStatus s s hs
  | setNodeInputs node inputs next ih =>
    exact (keeps_modify_fields hP fun _ => by rfl).bind fun _ => keeps_get fun s hs => ih s s hs

/-! ### Inlining -/

theorem keeps_cloneNodes (subgraph : Subgraph) (composite : NodeAndRegistration) (offset : Nat)
    (nodes : List Nat) : Keeps (cloneNodes env subgraph composite offset nodes) P := by
  induction nodes with
  | nil => exact keeps_pure _
  | cons n nodes ih =>
    exact (keeps_addNodeWithParameters hP _).bind fun _ =>
      (keeps_modify_fields hP fun _ => by rfl).bind fun _ => ih.bind fun _ => keeps_pure _

theorem keeps_replaceNodeWithSubgraph (index : Nat) (node : NodeAndRegistration)
    (subgraphIndex : Nat) : Keeps (replaceNodeWithSubgraph env index node subgraphIndex) P := by
  rw [replaceNodeWithSubgraph]
  split
  · exact keeps_throw _
  · exact keeps_get fun s hs => ((keeps_modify_fields hP fun _ => by rfl).bind fun _ =>
      (keeps_cloneNodes hP _ _ _ _).bind fun _ =>
        (keeps_modify_fields hP fun _ => by rfl).bind fun _ => keeps_pure _) s hs

theorem keeps_inlineNodes (composites : List Nat) (n index : Nat) :
    Keeps (inlineNodes env composites n index) P := by
  induction n generalizing index with
  | zero => exact keeps_pure _
  | succ n ih =>
    refine keeps_get fun s hs => ?_
    dsimp only
    split
    · exact ((keeps_replaceNodeWithSubgraph hP _ _ _).bind fun _ => ih _) s hs
    · exact ih _ s hs

end

end LiteRt.Tflite
