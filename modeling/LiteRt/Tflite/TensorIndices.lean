import LiteRt.Tflite.ControlEdges
import LiteRt.Tflite.Planner

/-!
# Tables of the tensors

The lists of a subgraph may hold `kTfLiteOptionalTensor` in place of a tensor. The calls that
build a subgraph leave no other index outside its tensors; `GetInputTensorsCount` and
`RemoveUnusedInputs` are the first of those that index a table with one entry for each tensor.
-/

namespace LiteRt.Tflite

open LiteRt.Lib Subgraph

/-! ## Building a subgraph -/

def addTensors (tensorsToAdd : Int) : SubgraphM Unit :=
  if tensorsToAdd < 0 then throw .error
  else modify fun s => { s with
    tensorsSize := s.tensorsSize + tensorsToAdd.toNat
    tensors := fun t => if (s.tensorsSize : Int) ≤ t then {} else s.tensors t }

def setInputs (inputs : List TensorIndex) : SubgraphM Unit := do
  checkTensorIndices inputs
  modify fun s => { s with inputs := inputs }

def setOutputs (outputs : List TensorIndex) : SubgraphM Unit := do
  checkTensorIndices outputs
  modify fun s => { s with outputs := outputs }

/-- `SetVariables`; the variables are kept beside the subgraph. -/
def setVariables (vars : List TensorIndex) : SubgraphM (List TensorIndex) := do
  checkTensorIndices vars
  pure vars

/-- The subgraphs that the calls leave behind, each with its variables; a call may fail. -/
inductive Built (env : Env) : Subgraph → List TensorIndex → Prop
  | new : Built env {} []
  | addTensors {s vars} (tensorsToAdd : Int) : Built env s vars →
      Built env (after (addTensors tensorsToAdd) s) vars
  | addNode {s vars} (node : NodeAndRegistration) : Built env s vars →
      Built env (after (addNodeWithParameters env node) s) vars
  | setInputs {s vars} (inputs : List TensorIndex) : Built env s vars →
      Built env (after (setInputs inputs) s) vars
  | setOutputs {s vars} (outputs : List TensorIndex) : Built env s vars →
      Built env (after (setOutputs outputs) s) vars
  | setVariables {s s' vars vars'} : Built env s vars →
      setVariables vars' s = .ok vars' s' → Built env s' vars'

/-- What the calls check of the lists of tensors. -/
structure Admitted (s : Subgraph) (vars : List TensorIndex) : Prop where
  inputs : s.ValidTensors s.inputs
  outputs : s.ValidTensors s.outputs
  variableTensors : s.ValidTensors vars
  nodes : ∀ node ∈ s.nodesAndRegistration, s.ValidTensors node.inputs ∧ s.ValidTensors node.outputs

section
variable {s : Subgraph} {vars : List TensorIndex}

theorem ends_checkTensorIndices_valid (indices : List TensorIndex) :
    Ends (checkTensorIndices indices) s (fun _ s' => s' = s ∧ s.ValidTensors indices)
      fun _ s' => s' = { s with consistent := false } := by
  refine ends_get ?_
  by_cases hall : (indices.all fun t =>
      t == kTfLiteOptionalTensor || isValidIndex t s.tensorsSize) = true
  · rw [if_pos hall]
    refine ends_pure ⟨rfl, fun t ht => ?_⟩
    simpa using List.all_eq_true.mp hall t ht
  · rw [if_neg hall]
    exact ends_modify_bind (ends_throw rfl)

theorem ends_checkOverlap (inputs outputs : List TensorIndex) :
    Ends (checkInputAndOutputForOverlap inputs outputs) s (fun _ s' => s' = s)
      fun _ s' => s' = { s with consistent := false } := by
  rw [checkInputAndOutputForOverlap]
  split
  · exact ends_modify_bind (ends_throw rfl)
  · exact ends_pure rfl

/-- The parts of a subgraph that the check reads. -/
theorem Admitted.congr {s' : Subgraph} (h : Admitted s vars) (hi : s'.inputs = s.inputs)
    (ho : s'.outputs = s.outputs) (hn : s'.nodesAndRegistration = s.nodesAndRegistration)
    (hsize : s'.tensorsSize = s.tensorsSize) : Admitted s' vars := by
  have hvalid (l : List TensorIndex) : s'.ValidTensors l ↔ s.ValidTensors l := by
    rw [ValidTensors, ValidTensors, hsize]
  refine ⟨?_, ?_, (hvalid _).mpr h.variableTensors, fun node hnode => ?_⟩
  · rw [hvalid, hi]
    exact h.inputs
  · rw [hvalid, ho]
    exact h.outputs
  · rw [hvalid, hvalid]
    exact h.nodes node (hn ▸ hnode)

theorem Admitted.inconsistent (h : Admitted s vars) :
    Admitted { s with consistent := false } vars := h.congr rfl rfl rfl rfl

theorem Admitted.addTensors (h : Admitted s vars) (tensorsToAdd : Int) :
    Admitted (after (addTensors tensorsToAdd) s) vars := by
  by_cases hneg : tensorsToAdd < 0
  · rw [Tflite.addTensors, if_pos hneg]
    exact h
  · rw [Tflite.addTensors, if_neg hneg]
    have hgrow {l : List TensorIndex} (hl : s.ValidTensors l) : ∀ t ∈ l, t = kTfLiteOptionalTensor ∨
          isValidIndex t (s.tensorsSize + tensorsToAdd.toNat) = true := fun t ht => by
      refine (hl t ht).imp_right fun hindex => ?_
      rw [isValidIndex_iff] at hindex ⊢
      obtain ⟨i, hi, rfl⟩ := hindex
      exact ⟨i, by omega, rfl⟩
    exact ⟨hgrow h.inputs, hgrow h.outputs, hgrow h.variableTensors, fun node hnode =>
      ⟨hgrow (h.nodes node hnode).1, hgrow (h.nodes node hnode).2⟩⟩

/-- A list of tensors is checked, and the rest of the call may rely on it. -/
theorem Admitted.check {α : Type} {indices : List TensorIndex} {f : Unit → SubgraphM α}
    {Q : α → Subgraph → Prop} (h : Admitted s vars) (hf : s.ValidTensors indices →
      Ends (f ()) s Q fun _ s' => Admitted s' vars) :
    Ends (checkTensorIndices indices >>= f) s Q fun _ s' => Admitted s' vars := by
  refine ((ends_checkTensorIndices_valid indices).mono (fun _ _ => id) fun _ s' hs' => ?_).bind
    fun _ s' hs' => ?_
  · rw [hs']
    exact h.inconsistent
  · obtain ⟨rfl, hvalid⟩ := hs'
    exact hf hvalid

theorem Admitted.setInputs (h : Admitted s vars) (inputs : List TensorIndex) :
    Admitted (after (setInputs inputs) s) vars := by
  have hends : Ends (Tflite.setInputs inputs) s (fun _ s' => Admitted s' vars)
      fun _ s' => Admitted s' vars :=
    h.check fun hvalid => ends_modify ⟨hvalid, h.outputs, h.variableTensors, h.nodes⟩
  exact hends.after

theorem Admitted.setOutputs (h : Admitted s vars) (outputs : List TensorIndex) :
    Admitted (after (setOutputs outputs) s) vars := by
  have hends : Ends (Tflite.setOutputs outputs) s (fun _ s' => Admitted s' vars)
      fun _ s' => Admitted s' vars :=
    h.check fun hvalid => ends_modify ⟨h.inputs, hvalid, h.variableTensors, h.nodes⟩
  exact hends.after

theorem Admitted.setVariables {s' : Subgraph} {vars' : List TensorIndex}
    (h : Admitted s vars) (hok : setVariables vars' s = .ok vars' s') :
    Admitted s' vars' := by
  have hends : Ends (Tflite.setVariables vars') s (fun _ s' => Admitted s' vars')
      fun _ s' => Admitted s' vars :=
    h.check fun hvalid => ends_pure ⟨h.inputs, h.outputs, hvalid, h.nodes⟩
  exact hends.ok hok

/-- A new node is one with tensors of the lists that were checked, or one without tensors. -/
theorem Admitted.append (h : Admitted s vars) {node : NodeAndRegistration}
    (hinputs : s.ValidTensors node.inputs) (houtputs : s.ValidTensors node.outputs) :
    ∀ n ∈ s.nodesAndRegistration ++ [node],
      s.ValidTensors n.inputs ∧ s.ValidTensors n.outputs := fun n hn => by
  obtain hn | hn := List.mem_append.mp hn
  · exact h.nodes n hn
  · rw [List.mem_singleton] at hn
    subst hn
    exact ⟨hinputs, houtputs⟩

theorem Admitted.addNode (h : Admitted s vars) (env : Env) (node : NodeAndRegistration) :
    Admitted (after (addNodeWithParameters env node) s) vars := by
  have hends : Ends (addNodeWithParameters env node) s (fun _ s' => Admitted s' vars)
      fun _ s' => Admitted s' vars := by
    refine ends_get (Ends.bind (Q := fun _ s' => s' = s)
      (ends_ensure (fun _ => rfl) fun _ => h) fun _ s₁ h₁ => ends_modify_bind ?_)
    subst h₁
    have h₂ : Admitted { s₁ with state := .uninvokable } vars := h.congr rfl rfl rfl rfl
    refine h₂.check fun hinputs => h₂.check fun houtputs => ?_
    refine Ends.bind (ends_onlyIf (fun _ => (ends_checkOverlap node.inputs node.outputs).mono
      (fun _ _ => id) fun _ s' hs' => ?_) fun _ => rfl) fun _ s₃ hs₃ => ?_
    · rw [hs']
      exact h₂.inconsistent
    subst hs₃
    refine ends_get ?_
    dsimp only
    split
    · exact ends_modify_bind (ends_modify_bind (ends_pure
        ⟨h.inputs, h.outputs, h.variableTensors, h.append hinputs houtputs⟩))
    · exact ends_modify_bind (ends_throw ⟨h.inputs, h.outputs, h.variableTensors,
        h.append (fun t ht => by cases ht) fun t ht => by cases ht⟩)
  exact hends.after

theorem Built.admitted {env : Env} (h : Built env s vars) : Admitted s vars := by
  induction h with
  | new =>
    have hnil : ({} : Subgraph).ValidTensors [] := fun t ht => by cases ht
    exact ⟨hnil, hnil, hnil, fun node hnode => by cases hnode⟩
  | addTensors tensorsToAdd _ ih => exact ih.addTensors tensorsToAdd
  | addNode node _ ih => exact ih.addNode env node
  | setInputs inputs _ ih => exact ih.setInputs inputs
  | setOutputs outputs _ ih => exact ih.setOutputs outputs
  | setVariables _ hok ih => exact ih.setVariables hok

end

/-! ## Loops over tensors -/

/-- The body of a loop that leaves out `kTfLiteOptionalTensor`. -/
def unlessOptional {ε β : Type} (f : β → TensorIndex → Checked ε β) (b : β) (t : TensorIndex) :
    Checked ε β :=
  if t = kTfLiteOptionalTensor then .ok b else f b t

/-- `++counts[t]`. -/
def countTensor {ε : Type} (counts : List Int) (t : TensorIndex) : Checked ε (List Int) := do
  access counts.length t
  return ArenaPlanner.increment counts t.toNat

/-- Nothing but `kTfLiteOptionalTensor` is outside a table of `n` tensors. -/
def Indexes (n : Nat) (l : List TensorIndex) : Prop :=
  ∀ t ∈ l, t ≠ kTfLiteOptionalTensor → ∃ i < n, t = (i : Int)

theorem Subgraph.ValidTensors.indexes {s : Subgraph} {l : List TensorIndex}
    (h : s.ValidTensors l) : Indexes s.tensorsSize l := fun t ht hne =>
  isValidIndex_iff.mp ((h t ht).resolve_left hne)

section
variable {ε β : Type} {n : Nat} {l : List TensorIndex} {f : β → TensorIndex → Checked ε β}
  {Inv : β → Prop} {b : β}

theorem foldlM_unlessOptional : l.foldlM (unlessOptional f) b =
    (l.filter fun t => decide (t ≠ kTfLiteOptionalTensor)).foldlM f b := by
  induction l generalizing b with
  | nil => rfl
  | cons t l ih =>
    rw [List.foldlM_cons]
    by_cases ht : t = kTfLiteOptionalTensor
    · rw [unlessOptional, if_pos ht, ok_bind, ih, List.filter_cons_of_neg (by simpa using ht)]
    · rw [unlessOptional, if_neg ht, List.filter_cons_of_pos (by simpa using ht), List.foldlM_cons]
      exact congrArg (f b t >>= ·) (funext fun b' => ih)

theorem Indexes.present (h : Indexes n l) {t : TensorIndex}
    (ht : t ∈ l.filter fun t => decide (t ≠ kTfLiteOptionalTensor)) : ∃ i < n, t = (i : Int) := by
  obtain ⟨hl, hne⟩ := List.mem_filter.mp ht
  exact h t hl (of_decide_eq_true hne)

/-- A loop that never fails is one over the tensors that are not left out. -/
theorem Indexes.foldlM_eq_ok {g : β → Nat → β} (h : Indexes n l) (hinv : Inv b)
    (hstep : ∀ b, Inv b → ∀ i < n, f b (i : Int) = .ok (g b i) ∧ Inv (g b i)) :
    l.foldlM (unlessOptional f) b = .ok ((tensorIndices l).foldl g b) ∧
      Inv ((tensorIndices l).foldl g b) := by
  rw [foldlM_unlessOptional, tensorIndices, List.foldl_map]
  refine Lib.foldlM_eq_ok hinv fun b hb t ht => ?_
  obtain ⟨i, hi, rfl⟩ := h.present ht
  exact hstep b hb i hi

theorem Indexes.foldlM_eq_checked {g : β → Nat → Except ε β} (h : Indexes n l) (hinv : Inv b)
    (hstep : ∀ b, Inv b → ∀ i < n,
      f b (i : Int) = checked (g b i) ∧ ∀ b', g b i = .ok b' → Inv b') :
    l.foldlM (unlessOptional f) b = checked ((tensorIndices l).foldlM g b) ∧
      ∀ b', (tensorIndices l).foldlM g b = .ok b' → Inv b' := by
  rw [foldlM_unlessOptional, tensorIndices, List.foldlM_map]
  refine Lib.foldlM_eq_checked hinv fun b hb t ht => ?_
  obtain ⟨i, hi, rfl⟩ := h.present ht
  exact hstep b hb i hi

theorem countTensor_ok {counts : List Int} (hn : counts.length = n) {i : Nat} (hi : i < n) :
    (countTensor counts i : Checked ε _) = .ok (ArenaPlanner.increment counts i) ∧
      (ArenaPlanner.increment counts i).length = n := by
  refine ⟨?_, by rw [ArenaPlanner.increment, List.length_modify, hn]⟩
  rw [countTensor, hn, access_ok (by omega)]
  rfl

theorem countTensor_optional {counts : List Int} :
    (countTensor counts kTfLiteOptionalTensor : Checked ε _) = .error .outOfBounds := by
  rw [countTensor, access_negative (by decide)]
  rfl

/-- Counting tensors leaves out none but those that are left out. -/
theorem Indexes.count (h : Indexes n l) {counts : List Int} (hn : counts.length = n) :
    (l.foldlM (unlessOptional countTensor) counts : Checked ε _) =
        .ok ((tensorIndices l).foldl ArenaPlanner.increment counts) ∧
      ((tensorIndices l).foldl ArenaPlanner.increment counts).length = n :=
  @Indexes.foldlM_eq_ok _ _ _ _ _ (fun counts : List Int => counts.length = n) _ _ h hn
    fun _ hn _ hi => countTensor_ok hn hi

/-- There may be none to leave out. -/
theorem Indexes.count_all (h : Indexes n l) (hnot : kTfLiteOptionalTensor ∉ l)
    {counts : List Int} (hn : counts.length = n) (ε : Type) : ∃ counts' : List Int,
      (l.foldlM countTensor counts : Checked ε _) = .ok counts' ∧ counts'.length = n := by
  refine ⟨_, @Lib.foldlM_eq_ok ε _ _ countTensor (fun counts : List Int => counts.length = n) _ _
    (fun counts t => ArenaPlanner.increment counts t.toNat) hn fun counts hn t ht => ?_⟩
  obtain ⟨i, hi, rfl⟩ := h t ht fun hne => hnot (hne ▸ ht)
  exact countTensor_ok hn hi

/-- A loop that leaves nothing out counts in bounds when there is nothing to leave out. -/
theorem Indexes.inBounds_count (h : Indexes n l) {counts : List Int} (hn : counts.length = n) :
    InBounds (l.foldlM countTensor counts : Checked ε _) ↔ kTfLiteOptionalTensor ∉ l := by
  refine ⟨fun hin hmem => hin ?_, fun hnot => ?_⟩
  · refine @foldlM_eq_outOfBounds _ _ _ _ (fun counts : List Int => counts.length = n) _ _ hn
      (fun counts hn t ht => ?_) _ hmem fun counts => countTensor_optional
    by_cases hne : t = kTfLiteOptionalTensor
    · rw [hne]
      exact .inl countTensor_optional
    · obtain ⟨i, hi, rfl⟩ := h t ht hne
      exact .inr ⟨_, countTensor_ok hn hi⟩
  · obtain ⟨counts', heq, _⟩ := h.count_all hnot hn ε
    rw [heq]
    exact inBounds_ok _

end

/-! ## GetInputTensorsCount and RemoveUnusedInputs -/

def Subgraph.getInputTensorsCount (s : Subgraph) : Checked TfLiteStatus (List Int) := do
  let counts ← s.executionPlan.foldlM (fun counts nodeIndex =>
    (s.node nodeIndex).inputs.foldlM (unlessOptional countTensor) counts)
      (List.replicate s.tensorsSize 0)
  s.outputs.foldlM countTensor counts

/-- The body of the loop of `RemoveUnusedInputs`, with the inputs that it has seen. -/
def removeUnusedInput (counts : List Int) (state : Subgraph × List TensorIndex)
    (t : TensorIndex) : Checked TfLiteStatus (Subgraph × List TensorIndex) := do
  if t = kTfLiteOptionalTensor then return (state.1, state.2 ++ [t])
  access counts.length t
  if counts.getD t.toNat 0 = 0 then
    return (state.1.updateTensor t fun tensor => { tensor with bytes := 0 },
      state.2 ++ [kTfLiteOptionalTensor])
  else return (state.1, state.2 ++ [t])

def Subgraph.removeUnusedInputs (s : Subgraph) : Checked TfLiteStatus Subgraph := do
  let counts ← s.getInputTensorsCount
  let state ← s.inputs.foldlM (removeUnusedInput counts) (s, [])
  return { state.1 with inputs := state.2 }

section
variable {s : Subgraph} {vars : List TensorIndex}

/-- Every node has tensors that were checked, also one that there is not. -/
theorem Admitted.node (h : Admitted s vars) (nodeIndex : Nat) :
    s.ValidTensors (s.node nodeIndex).inputs ∧ s.ValidTensors (s.node nodeIndex).outputs := by
  rw [Subgraph.node, List.getD_eq_getElem?_getD]
  cases hget : s.nodesAndRegistration[nodeIndex]? with
  | some node => exact h.nodes node (List.mem_of_getElem? hget)
  | none =>
    have hnil : s.ValidTensors [] := fun t ht => by cases ht
    exact ⟨hnil, hnil⟩

theorem Admitted.getInputTensorsCount_eq (h : Admitted s vars) : ∃ counts : List Int,
    counts.length = s.tensorsSize ∧
      s.getInputTensorsCount = s.outputs.foldlM countTensor counts := by
  have hloop := @Lib.foldlM_eq_ok TfLiteStatus _ _
    (fun counts nodeIndex => (s.node nodeIndex).inputs.foldlM (unlessOptional countTensor) counts)
    (fun counts : List Int => counts.length = s.tensorsSize) s.executionPlan
    (List.replicate s.tensorsSize 0) _ List.length_replicate fun counts hn nodeIndex _ =>
      (h.node nodeIndex).1.indexes.count hn
  refine ⟨_, hloop.2, ?_⟩
  rw [getInputTensorsCount, hloop.1, ok_bind]

theorem Admitted.inBounds_getInputTensorsCount (h : Admitted s vars) :
    InBounds s.getInputTensorsCount ↔ kTfLiteOptionalTensor ∉ s.outputs := by
  obtain ⟨counts, hn, heq⟩ := h.getInputTensorsCount_eq
  rw [heq]
  exact h.outputs.indexes.inBounds_count hn

theorem inBounds_removeUnusedInput {counts : List Int} (hn : counts.length = s.tensorsSize)
    (state : Subgraph × List TensorIndex) {t : TensorIndex}
    (ht : t ≠ kTfLiteOptionalTensor → ∃ i < s.tensorsSize, t = (i : Int)) :
    InBounds (removeUnusedInput counts state t) := by
  by_cases hne : t = kTfLiteOptionalTensor
  · rw [removeUnusedInput, if_pos hne]
    exact inBounds_ok _
  · obtain ⟨i, hi, rfl⟩ := ht hne
    rw [removeUnusedInput, if_neg hne, hn, access_ok (by omega), ok_bind]
    split
    · exact inBounds_ok _
    · exact inBounds_ok _

/-- `RemoveUnusedInputs` only has the trouble of the count. -/
theorem Admitted.inBounds_removeUnusedInputs (h : Admitted s vars) :
    InBounds s.removeUnusedInputs ↔ kTfLiteOptionalTensor ∉ s.outputs := by
  refine ⟨fun hin => h.inBounds_getInputTensorsCount.mp hin.of_bind, fun hnot => ?_⟩
  obtain ⟨counts, hn, heq⟩ := h.getInputTensorsCount_eq
  obtain ⟨counts', heq', hn'⟩ := h.outputs.indexes.count_all hnot hn TfLiteStatus
  rw [removeUnusedInputs, heq, heq', ok_bind]
  refine (inBounds_foldlM fun state t ht => ?_).bind fun state _ => inBounds_ok _
  exact inBounds_removeUnusedInput hn' state (h.inputs.indexes t ht)

end

end LiteRt.Tflite
