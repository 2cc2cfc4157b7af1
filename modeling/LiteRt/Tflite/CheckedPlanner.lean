import LiteRt.Tflite.TensorIndices

/-!
# The tables of the arena planner

`PlanAllocations` with every access to a table of the tensors checked. Where the graph leaves
out no variable, and no first output of a node that works in place, it is the plan of the
planner; elsewhere it indexes a table outside its bounds.
-/

namespace LiteRt.Tflite

open LiteRt.Lib List

/-- A node that works in place does so in an output of its own. -/
def PlannerNode.HasTarget (node : PlannerNode) : Prop :=
  node.inplaceOperator ≠ kTfLiteInplaceOpNone → node.outputs.head? ≠ some kTfLiteOptionalTensor

/-- The lists hold tensors, or `kTfLiteOptionalTensor`. -/
structure PlannerGraph.Indexed (n : Nat) (graph : PlannerGraph) : Prop where
  inputs : Indexes n graph.inputs
  outputs : Indexes n graph.outputs
  variableTensors : Indexes n graph.variableTensors
  nodes : ∀ node ∈ graph.nodes, Indexes n node.inputs ∧ Indexes n node.outputs

/-- What the planner takes for granted of the tensors that are left out. -/
structure PlannerGraph.Complete (graph : PlannerGraph) : Prop where
  variableTensors : kTfLiteOptionalTensor ∉ graph.variableTensors
  targets : ∀ node ∈ graph.nodes, node.HasTarget

namespace ArenaPlanner

def inputTensorCanBeSharedChecked (p : ArenaPlanner) (graph : PlannerGraph)
    (tensors : PlannerTensors) (inputId outputId : TensorIndex) (tensorChanged : Bool) :
    Checked Fault Bool := do
  if tensorChanged then
    if tensors.bytes inputId.toNat ≠ tensors.bytes outputId.toNat ∨
        tensors.bytes inputId.toNat ≤ kScalarTensorBytes then return false
    access p.refcounts.length inputId
    if 1 < p.refcounts.getD inputId.toNat 0 then return false
  if graph.inputs.contains inputId then return false
  if graph.outputs.contains outputId then return false
  let inputType := tensors.allocationType inputId.toNat
  if inputType ≠ tensors.allocationType outputId.toNat ∧ inputType ≠ .arenaRw then return false
  return !p.preserveAllTensors

/-- The loop of `IdentifyInPlaceTensors` over the first inputs of a node. -/
def sharableInputChecked (p : ArenaPlanner) (graph : PlannerGraph) (tensors : PlannerTensors)
    (node : PlannerNode) (outputId : TensorIndex) (tensorChanged : Bool) :
    List (TensorIndex × Nat) → Checked Fault (Option TensorIndex)
  | [] => .ok none
  | (t, i) :: inputs =>
    if t = kTfLiteOptionalTensor then
      sharableInputChecked p graph tensors node outputId tensorChanged inputs
    else if node.inplaceOperator &&& (kTfLiteInplaceOpInput0Shared <<< i.toUInt64) = 0 then
      sharableInputChecked p graph tensors node outputId tensorChanged inputs
    else do
      access tensors.numTensors t
      if ← p.inputTensorCanBeSharedChecked graph tensors t outputId tensorChanged then
        return some t
      else sharableInputChecked p graph tensors node outputId tensorChanged inputs

def identifyInPlaceChecked (graph : PlannerGraph) (tensors : PlannerTensors) (p : ArenaPlanner)
    (node : PlannerNode) : Checked Fault ArenaPlanner :=
  match node.outputs with
  | [] => .ok p
  | outputId :: _ =>
    let tensorChanged := decide (node.inplaceOperator &&& kTfLiteInplaceOpDataUnmodified = 0)
    if node.inplaceOperator = kTfLiteInplaceOpNone then .ok p
    else do
      access tensors.numTensors outputId
      match ← p.sharableInputChecked graph tensors node outputId tensorChanged
          (node.inputs.take kTfLiteMaxSharableOpInputs).zipIdx with
      | none => return p
      | some inputId =>
        let actualOutputTensorId := p.findSharedTensor inputId.toNat
        if tensorChanged then
          access p.refcounts.length actualOutputTensorId
          if 1 < p.refcounts.getD actualOutputTensorId 0 then return p
        return { p with
          actualTensorId := (outputId.toNat, actualOutputTensorId) :: p.actualTensorId }

def identifyInPlaceTensorsChecked (graph : PlannerGraph) (tensors : PlannerTensors)
    (p : ArenaPlanner) : Checked Fault ArenaPlanner :=
  graph.nodes.foldlM (identifyInPlaceChecked graph tensors) { p with actualTensorId := [] }

def planAllocateChecked (p : ArenaPlanner) (node : Nat) (tensor : TensorIndex) :
    Checked Fault ArenaPlanner := do
  access p.allocNode.length tensor
  if p.allocNodeOf tensor.toNat ≠ kNodeNotAssigned then return p
  access p.deallocNode.length tensor
  if p.deallocNodeOf tensor.toNat ≠ kNodeNotAssigned then throw (.failed .ensure)
  return { p with allocNode := p.allocNode.set tensor.toNat node }

def planDeallocateChecked (p : ArenaPlanner) (node : Nat) (tensor : TensorIndex) :
    Checked Fault ArenaPlanner := do
  access p.allocNode.length tensor
  if p.allocNodeOf tensor.toNat = kNodeNotAssigned then return p
  access p.deallocNode.length tensor
  if p.deallocNodeOf tensor.toNat ≠ kNodeNotAssigned then throw (.failed .ensure)
  return { p with deallocNode := p.deallocNode.set tensor.toNat node }

def planLastingChecked (p : ArenaPlanner) (tensor : TensorIndex) : Checked Fault ArenaPlanner := do
  let refcounts ← countTensor p.refcounts tensor
  let p ← { p with refcounts := refcounts }.planAllocateChecked 0 tensor
  return p.insertTensor 0 tensor.toNat

/-- The count comes before the check of the index. -/
def planVariableChecked (p : ArenaPlanner) (tensor : TensorIndex) :
    Checked Fault ArenaPlanner := do
  let refcounts ← countTensor p.refcounts tensor
  if tensor = kTfLiteOptionalTensor then throw (.failed .ensure)
  else
    let p ← { p with refcounts := refcounts }.planAllocateChecked 0 tensor
    return p.insertTensor 0 tensor.toNat

/-- An input is deallocated behind its last reference. -/
def Walk.releaseChecked (node : Nat) (w : Walk) (tensor : TensorIndex) : Checked Fault Walk := do
  let shared := w.planner.findSharedTensor tensor.toNat
  access w.refcounts.length shared
  let refcounts := w.refcounts.modify shared (· - 1)
  if refcounts.getD shared 0 = 0 then
    let p ← w.planner.planDeallocateChecked node shared
    return ⟨refcounts, p⟩
  else return ⟨refcounts, w.planner⟩

/-- The body of the walk through the graph in the order of execution. -/
def Walk.stepChecked (w : Walk) (node : PlannerNode × Nat) : Checked Fault Walk := do
  let p ← node.1.outputs.foldlM (unlessOptional fun (p : ArenaPlanner) tensor =>
    (p.insertTensor node.2 tensor.toNat).planAllocateChecked node.2 tensor) w.planner
  if p.preserveAllTensors then return ⟨w.refcounts, p⟩
  else node.1.inputs.foldlM (unlessOptional (Walk.releaseChecked node.2)) ⟨w.refcounts, p⟩

def planAllocationsChecked (p : ArenaPlanner) (graph : PlannerGraph) (tensors : PlannerTensors) :
    Checked Fault ArenaPlanner := do
  let p := p.resetAllocations tensors.numTensors
  let refcounts ← graph.outputs.foldlM (unlessOptional countTensor)
    (List.replicate tensors.numTensors 0)
  let p := { p with
    allocNode := List.replicate tensors.numTensors kNodeNotAssigned
    deallocNode := List.replicate tensors.numTensors kNodeNotAssigned
    nodesToTensors := List.replicate (max graph.nodes.length 1) []
    refcounts := refcounts }
  let p ← graph.variableTensors.foldlM planVariableChecked p
  let p ← graph.inputs.foldlM (unlessOptional planLastingChecked) p
  -- the counts before sharing tensors
  let refcounts := p.refcounts
  let references := graph.nodes.flatMap fun node => node.inputs
  let counts ← references.foldlM (unlessOptional countTensor) p.refcounts
  let p ← identifyInPlaceTensorsChecked graph tensors { p with refcounts := counts }
  let refcounts ← references.foldlM (unlessOptional fun counts tensor =>
    countTensor counts (p.findSharedTensor tensor.toNat)) refcounts
  let w ← graph.nodes.zipIdx.foldlM Walk.stepChecked ⟨refcounts, p⟩
  return w.planner

/-! ## In bounds -/

/-- The tables have one entry for each tensor. -/
structure Sized (n : Nat) (p : ArenaPlanner) : Prop where
  allocNode : p.allocNode.length = n
  deallocNode : p.deallocNode.length = n
  refcounts : p.refcounts.length = n

/-- Tensors share data with other tensors. -/
structure Shares (n : Nat) (p : ArenaPlanner) : Prop extends Sized n p where
  shared : ∀ entry ∈ p.actualTensorId, entry.2 < n

section
variable {n : Nat} {p p' : ArenaPlanner} {graph : PlannerGraph} {tensors : PlannerTensors}
  {node : PlannerNode} {i : Nat}

theorem Shares.findSharedTensor (h : Shares n p) (hi : i < n) : p.findSharedTensor i < n := by
  rw [ArenaPlanner.findSharedTensor]
  cases hlookup : p.actualTensorId.lookup i with
  | none => exact hi
  | some root =>
    obtain ⟨before, after, hsplit, _⟩ := lookup_eq_some_iff.mp hlookup
    exact h.shared (i, root) (by rw [hsplit]; simp)

theorem Sized.insertTensor (h : Sized n p) (nodeIndex tensor : Nat) :
    Sized n (p.insertTensor nodeIndex tensor) := ⟨h.allocNode, h.deallocNode, h.refcounts⟩

theorem Shares.congr (h : Shares n p) (hp' : Sized n p' ∧ p'.actualTensorId = p.actualTensorId) :
    Shares n p' := ⟨hp'.1, hp'.2 ▸ h.shared⟩

theorem Sized.setRefcounts (h : Sized n p) {refcounts : List Int} (hn : refcounts.length = n) :
    Sized n { p with refcounts := refcounts } := ⟨h.allocNode, h.deallocNode, hn⟩

theorem Sized.planAllocateChecked (h : Sized n p) (nodeIndex : Nat) (hi : i < n) :
    p.planAllocateChecked nodeIndex i = checked (p.planAllocate nodeIndex i) ∧
      ∀ p', p.planAllocate nodeIndex i = .ok p' →
        Sized n p' ∧ p'.actualTensorId = p.actualTensorId := by
  rw [ArenaPlanner.planAllocateChecked, planAllocate, h.allocNode, h.deallocNode,
    access_ok (by omega), ok_bind, ok_bind, Int.toNat_natCast]
  split
  · exact ⟨rfl, fun p' hp' => by cases hp'; exact ⟨h, rfl⟩⟩
  · split
    · exact ⟨rfl, fun p' hp' => by cases hp'⟩
    · refine ⟨rfl, fun p' hp' => ?_⟩
      cases hp'
      exact ⟨⟨by rw [length_set, h.allocNode], h.deallocNode, h.refcounts⟩, rfl⟩

theorem Sized.planDeallocateChecked (h : Sized n p) (nodeIndex : Nat) (hi : i < n) :
    p.planDeallocateChecked nodeIndex i = checked (p.planDeallocate nodeIndex i) ∧
      ∀ p', p.planDeallocate nodeIndex i = .ok p' →
        Sized n p' ∧ p'.actualTensorId = p.actualTensorId := by
  rw [ArenaPlanner.planDeallocateChecked, planDeallocate, h.allocNode, h.deallocNode,
    access_ok (by omega), ok_bind, ok_bind, Int.toNat_natCast]
  split
  · exact ⟨rfl, fun p' hp' => by cases hp'; exact ⟨h, rfl⟩⟩
  · split
    · exact ⟨rfl, fun p' hp' => by cases hp'⟩
    · refine ⟨rfl, fun p' hp' => ?_⟩
      cases hp'
      exact ⟨⟨h.allocNode, by rw [length_set, h.deallocNode], h.refcounts⟩, rfl⟩

/-- A check that ends in `false` in front of others. -/
theorem ite_ok_false {c : Prop} [Decidable c] {x : Checked Fault Bool} {b : Bool}
    (h : ¬ c → x = .ok b) : (if c then .ok false else x) = .ok (!decide c && b) := by
  by_cases hc : c
  · rw [if_pos hc, decide_eq_true hc, Bool.not_true, Bool.false_and]
  · rw [if_neg hc, h hc, decide_eq_false hc, Bool.not_false, Bool.true_and]

theorem inputTensorCanBeSharedChecked_ok (h : Sized n p) (hi : i < n) (output : Nat)
    (tensorChanged : Bool) :
    p.inputTensorCanBeSharedChecked graph tensors i output tensorChanged =
      .ok (p.inputTensorCanBeShared graph tensors i output tensorChanged) := by
  -- the checks that are made of tensors that do not change too
  have hrest := @ite_ok_false (graph.inputs.contains (i : Int) = true) _ _ _ fun _ =>
    @ite_ok_false (graph.outputs.contains (output : Int) = true) _ _ _ fun _ =>
      @ite_ok_false (tensors.allocationType i ≠ tensors.allocationType output ∧
        tensors.allocationType i ≠ .arenaRw) _ _ (!p.preserveAllTensors) fun _ => rfl
  rw [ArenaPlanner.inputTensorCanBeSharedChecked, inputTensorCanBeShared, h.refcounts,
    access_ok (by omega), Int.toNat_natCast, Int.toNat_natCast]
  simp only [ok_bind, pure, Except.pure]
  cases tensorChanged with
  | false =>
    rw [if_neg Bool.false_ne_true, hrest]
    simp [Bool.and_assoc]
  | true =>
    rw [if_pos rfl, hrest, ite_ok_false fun _ => ite_ok_false fun _ => rfl]
    simp [Bool.and_assoc]

theorem sharableInputChecked_ok (h : Sized n p) (hn : tensors.numTensors = n) (output : Nat)
    (tensorChanged : Bool) {inputs : List (TensorIndex × Nat)}
    (hinputs : Indexes n (inputs.map Prod.fst)) :
    p.sharableInputChecked graph tensors node output tensorChanged inputs =
      .ok ((((inputs.filter fun input => decide (input.1 ≠ kTfLiteOptionalTensor) &&
        decide (node.inplaceOperator &&&
          (kTfLiteInplaceOpInput0Shared <<< input.2.toUInt64) ≠ 0)).map
        fun input => input.1.toNat).find? fun inputId =>
          p.inputTensorCanBeShared graph tensors inputId output tensorChanged).map
            fun (i : Nat) => (i : Int)) := by
  induction inputs with
  | nil => rfl
  | cons input inputs ih =>
    obtain ⟨t, k⟩ := input
    have ih' := ih fun t ht => hinputs t (mem_cons_of_mem _ ht)
    rw [sharableInputChecked]
    by_cases ht : t = kTfLiteOptionalTensor
    · rw [if_pos ht, ih', filter_cons_of_neg (by simp [ht])]
    rw [if_neg ht]
    by_cases hmask : node.inplaceOperator &&& (kTfLiteInplaceOpInput0Shared <<< k.toUInt64) = 0
    · rw [if_pos hmask, ih', filter_cons_of_neg (by simp [hmask])]
    obtain ⟨i, hi, rfl⟩ := hinputs t (mem_cons_self ..) ht
    rw [if_neg hmask, hn, access_ok (by omega), ok_bind, inputTensorCanBeSharedChecked_ok h hi,
      ok_bind, filter_cons_of_pos (by simp [ht, hmask]), map_cons, find?_cons]
    cases hshared : p.inputTensorCanBeShared graph tensors i output tensorChanged with
    | true => simp [hshared, pure, Except.pure]
    | false => simp [hshared, ih']

theorem sharableInput_lt (hinputs : Indexes n node.inputs) {output : Nat} {tensorChanged : Bool}
    (hfind : p.sharableInput graph tensors node output tensorChanged = some i) : i < n := by
  obtain ⟨input, hmem, rfl⟩ := mem_map.mp (mem_of_find?_eq_some hfind)
  obtain ⟨hzip, hkeep⟩ := mem_filter.mp hmem
  have hin : input.1 ∈ node.inputs :=
    mem_of_mem_take (fst_mem_of_mem_zipIdx hzip)
  obtain ⟨i, hi, heq⟩ := hinputs input.1 hin (of_decide_eq_true (Bool.and_eq_true_iff.mp hkeep).1)
  rw [heq, Int.toNat_natCast]
  exact hi

theorem identifyInPlaceChecked_ok (h : Shares n p) (hn : tensors.numTensors = n)
    (hinputs : Indexes n node.inputs) (houtputs : Indexes n node.outputs)
    (htarget : node.HasTarget) :
    identifyInPlaceChecked graph tensors p node = .ok (identifyInPlace graph tensors p node) ∧
      Shares n (identifyInPlace graph tensors p node) := by
  rw [PlannerNode.HasTarget] at htarget
  rw [identifyInPlaceChecked, identifyInPlace]
  cases houts : node.outputs with
  | nil => exact ⟨rfl, h⟩
  | cons output rest =>
    rw [houts] at htarget houtputs
    dsimp only
    by_cases hop : node.inplaceOperator = kTfLiteInplaceOpNone
    · rw [if_pos hop, if_pos hop]
      exact ⟨rfl, h⟩
    obtain ⟨o, ho, rfl⟩ := houtputs output (mem_cons_self ..) fun heq =>
      htarget hop (by rw [heq, head?_cons])
    have hfirst : Indexes n
        ((node.inputs.take kTfLiteMaxSharableOpInputs).zipIdx.map Prod.fst) := fun t ht =>
      hinputs t (mem_of_mem_take (zipIdx_map_fst 0 _ ▸ ht))
    have hshared := @sharableInputChecked_ok n p graph tensors node h.toSized hn o
      (decide (node.inplaceOperator &&& kTfLiteInplaceOpDataUnmodified = 0)) _ hfirst
    rw [if_neg hop, if_neg hop, Int.toNat_natCast]
    replace hshared : _ = Except.ok ((p.sharableInput graph tensors node o _).map _) := hshared
    rw [hshared, hn, access_ok (by omega), ok_bind, ok_bind]
    cases hfind : p.sharableInput graph tensors node o
        (decide (node.inplaceOperator &&& kTfLiteInplaceOpDataUnmodified = 0)) with
    | none => exact ⟨rfl, h⟩
    | some input =>
      have hroot := h.findSharedTensor (sharableInput_lt hinputs hfind)
      dsimp only [Option.map_some]
      rw [Int.toNat_natCast, h.refcounts, access_ok (by omega), ok_bind]
      have hshare : Shares n { p with
          actualTensorId := (o, p.findSharedTensor input) :: p.actualTensorId } :=
        ⟨⟨h.allocNode, h.deallocNode, h.refcounts⟩, fun entry hentry =>
          (mem_cons.mp hentry).elim (fun heq => heq ▸ hroot) (h.shared entry)⟩
      by_cases hchanged :
          decide (node.inplaceOperator &&& kTfLiteInplaceOpDataUnmodified = 0) = true
      · by_cases hcount : 1 < p.refcounts.getD (p.findSharedTensor input) 0
        · rw [if_pos hchanged, if_pos hcount, if_pos ⟨hchanged, hcount⟩]
          exact ⟨rfl, h⟩
        · rw [if_pos hchanged, if_neg hcount, if_neg fun hand => hcount hand.2]
          exact ⟨rfl, hshare⟩
      · rw [if_neg hchanged, if_neg fun hand => hchanged hand.1]
        exact ⟨rfl, hshare⟩

/-- The output is looked at before the inputs. -/
theorem hasTarget_of_inBounds (hin : InBounds (identifyInPlaceChecked graph tensors p node)) :
    node.HasTarget := by
  intro hop hhead
  obtain ⟨rest, houts⟩ : ∃ rest, node.outputs = kTfLiteOptionalTensor :: rest :=
    ⟨_, eq_cons_of_mem_head? hhead⟩
  rw [identifyInPlaceChecked, houts] at hin
  dsimp only at hin
  rw [if_neg hop, access_negative (by decide)] at hin
  exact hin rfl

/-- Before the walk nothing is deallocated, and no allocation fails. -/
structure Lasting (n : Nat) (p : ArenaPlanner) : Prop extends Sized n p where
  lasting : ∀ i, p.deallocNodeOf i = kNodeNotAssigned

theorem Lasting.planLastingChecked (h : Lasting n p) (hi : i < n) : ∃ p',
    p.planLastingChecked i = .ok p' ∧ p.planLasting i = .ok p' ∧ Lasting n p' := by
  obtain ⟨hcount, hlength⟩ := @countTensor_ok Fault _ _ h.refcounts _ hi
  have hsized := h.toSized.setRefcounts hlength
  obtain ⟨hchecked, hkeep⟩ := hsized.planAllocateChecked 0 hi
  rw [ArenaPlanner.planLastingChecked, planLasting, hcount, ok_bind, hchecked]
  have hok : ∃ q, { p with refcounts := increment p.refcounts i }.planAllocate 0 i = .ok q ∧
      q.deallocNode = p.deallocNode := by
    rw [planAllocate]
    split
    · exact ⟨_, rfl, rfl⟩
    · exact ⟨_, if_neg (not_not_intro (h.lasting i)), rfl⟩
  obtain ⟨q, hq, hsame⟩ := hok
  rw [hq]
  refine ⟨q.insertTensor 0 i, rfl, rfl, (hkeep q hq).1.insertTensor 0 i, fun j => ?_⟩
  show q.deallocNode.getD j kNodeNotAssigned = kNodeNotAssigned
  rw [hsame]
  exact h.lasting j

theorem planVariableChecked_optional :
    p.planVariableChecked kTfLiteOptionalTensor = .error .outOfBounds := by
  rw [planVariableChecked, countTensor_optional, error_bind]

/-- A variable is planned as an input of the graph. -/
theorem planVariableChecked_tensor (i : Nat) :
    p.planVariableChecked i = p.planLastingChecked i ∧ p.planVariable i = p.planLasting i := by
  have hne : (i : TensorIndex) ≠ kTfLiteOptionalTensor := fun heq => by cases heq
  refine ⟨?_, if_neg hne⟩
  simp only [planVariableChecked, if_neg hne]
  rfl

/-- The walk keeps its tables. -/
structure Walk.Sized (n : Nat) (w : Walk) : Prop where
  refcounts : w.refcounts.length = n
  planner : w.planner.Shares n

theorem Walk.Sized.releaseChecked {w : Walk} (h : w.Sized n) (nodeIndex : Nat) (hi : i < n) :
    w.releaseChecked nodeIndex i = checked (w.release nodeIndex i) ∧
      ∀ w', w.release nodeIndex i = .ok w' → w'.Sized n := by
  have hshared := h.planner.findSharedTensor hi
  obtain ⟨hchecked, hkeep⟩ := h.planner.toSized.planDeallocateChecked nodeIndex hshared
  have hlength : (w.refcounts.modify (w.planner.findSharedTensor i) (· - 1)).length = n := by
    rw [length_modify, h.refcounts]
  rw [Walk.releaseChecked, release, Int.toNat_natCast, h.refcounts, access_ok (by omega), ok_bind]
  dsimp only
  rw [hchecked]
  by_cases hzero : (w.refcounts.modify (w.planner.findSharedTensor i) (· - 1)).getD
      (w.planner.findSharedTensor i) 0 = 0
  · rw [if_pos hzero, if_pos hzero]
    cases hd : w.planner.planDeallocate nodeIndex (w.planner.findSharedTensor i) with
    | error e => exact ⟨rfl, fun w' hw' => by cases hw'⟩
    | ok q =>
      refine ⟨rfl, fun w' hw' => ?_⟩
      cases hw'
      exact ⟨hlength, h.planner.congr (hkeep q hd)⟩
  · rw [if_neg hzero, if_neg hzero]
    refine ⟨rfl, fun w' hw' => ?_⟩
    cases hw'
    exact ⟨hlength, h.planner⟩

theorem Walk.Sized.stepChecked {w : Walk} (h : w.Sized n) {entry : PlannerNode × Nat}
    (hinputs : Indexes n entry.1.inputs) (houtputs : Indexes n entry.1.outputs) :
    w.stepChecked entry = checked (w.step entry) ∧ ∀ w', w.step entry = .ok w' → w'.Sized n := by
  obtain ⟨hout, hkeep⟩ := @Indexes.foldlM_eq_checked Fault _ _ _ (fun (p : ArenaPlanner) tensor =>
      (p.insertTensor entry.2 tensor.toNat).planAllocateChecked entry.2 tensor)
    (ArenaPlanner.Shares n) w.planner
    (fun (p : ArenaPlanner) tensor =>
      (p.insertTensor entry.2 tensor).planAllocate entry.2 tensor)
    houtputs h.planner fun p hp i hi => by
      obtain ⟨hchecked, hsame⟩ :=
        (hp.toSized.insertTensor entry.2 i).planAllocateChecked entry.2 hi
      exact ⟨hchecked, fun p' hp' => hp.congr (hsame p' hp')⟩
  rw [Walk.stepChecked, step, hout]
  cases hplan : (tensorIndices entry.1.outputs).foldlM (fun (p : ArenaPlanner) tensor =>
      (p.insertTensor entry.2 tensor).planAllocate entry.2 tensor) w.planner with
  | error e => exact ⟨rfl, fun w' hw' => by cases hw'⟩
  | ok q =>
    have hq := hkeep q hplan
    rw [checked_ok, ok_bind, ok_bind]
    by_cases hpreserve : q.preserveAllTensors = true
    · rw [if_pos hpreserve, if_pos hpreserve]
      refine ⟨rfl, fun w' hw' => ?_⟩
      cases hw'
      exact ⟨h.refcounts, hq⟩
    · rw [if_neg hpreserve, if_neg hpreserve]
      exact @Indexes.foldlM_eq_checked Fault _ _ _ (Walk.releaseChecked entry.2) (Walk.Sized n)
        ⟨w.refcounts, q⟩ (Walk.release entry.2) hinputs ⟨h.refcounts, hq⟩
        fun w hw i hi => hw.releaseChecked entry.2 hi

/-! ### The plan -/

theorem tensorIndices_flatMap {α : Type} (l : List α) (f : α → List TensorIndex) :
    tensorIndices (l.flatMap f) = l.flatMap fun a => tensorIndices (f a) := by
  rw [tensorIndices, filter_flatMap, map_flatMap]
  rfl

theorem indexes_references {l : List PlannerNode} (h : ∀ node ∈ l, Indexes n node.inputs) :
    Indexes n (l.flatMap fun node => node.inputs) := fun t ht => by
  obtain ⟨node, hnode, ht⟩ := mem_flatMap.mp ht
  exact h node hnode t ht

/-- The planner in front of the variables. -/
def start (p : ArenaPlanner) (graph : PlannerGraph) (tensors : PlannerTensors) : ArenaPlanner :=
  { p.resetAllocations tensors.numTensors with
    allocNode := List.replicate tensors.numTensors kNodeNotAssigned
    deallocNode := List.replicate tensors.numTensors kNodeNotAssigned
    nodesToTensors := List.replicate (max graph.nodes.length 1) []
    refcounts := (tensorIndices graph.outputs).foldl increment
      (List.replicate tensors.numTensors 0) }

theorem Lasting.start (p : ArenaPlanner) (hgraph : graph.Indexed tensors.numTensors) :
    Lasting tensors.numTensors (p.start graph tensors) := by
  have hcount := @Indexes.count Fault _ _ hgraph.outputs (List.replicate tensors.numTensors 0)
    length_replicate
  refine ⟨⟨length_replicate, length_replicate, hcount.2⟩, fun i => ?_⟩
  show (List.replicate tensors.numTensors kNodeNotAssigned).getD i kNodeNotAssigned = _
  rw [getD_eq_getElem?_getD, getElem?_replicate]
  split
  · rfl
  · rfl

/-- Behind the variables and the inputs. -/
theorem Lasting.identify (h : Lasting n p) {counts : List Int} (hn : counts.length = n) :
    Shares n { p with refcounts := counts, actualTensorId := [] } :=
  ⟨⟨h.allocNode, h.deallocNode, hn⟩, fun entry hentry => by cases hentry⟩

theorem identifyInPlaceTensorsChecked_ok (hn : tensors.numTensors = n)
    (hgraph : graph.Indexed n) (htargets : ∀ node ∈ graph.nodes, node.HasTarget)
    (h : Shares n { p with actualTensorId := [] }) :
    identifyInPlaceTensorsChecked graph tensors p = .ok (identifyInPlaceTensors graph tensors p) ∧
      Shares n (identifyInPlaceTensors graph tensors p) :=
  foldlM_eq_ok h fun _ hq node hnode => identifyInPlaceChecked_ok hq hn
    (hgraph.nodes node hnode).1 (hgraph.nodes node hnode).2 (htargets node hnode)

/-- One output that is left out is one too many. -/
theorem targets_of_inBounds (hn : tensors.numTensors = n) (hgraph : graph.Indexed n)
    (h : Shares n { p with actualTensorId := [] })
    (hin : InBounds (identifyInPlaceTensorsChecked graph tensors p)) :
    ∀ node ∈ graph.nodes, node.HasTarget := by
  intro node hnode
  by_contra hnot
  have hbad (q : ArenaPlanner) {node : PlannerNode} (hnot : ¬ node.HasTarget) :
      identifyInPlaceChecked graph tensors q node = .error .outOfBounds := by
    by_contra hne
    exact hnot (hasTarget_of_inBounds hne)
  refine hin (foldlM_eq_outOfBounds h (fun q hq node' hnode' => ?_) hnode fun q => hbad q hnot)
  by_cases htarget : node'.HasTarget
  · exact .inr ⟨_, identifyInPlaceChecked_ok hq hn (hgraph.nodes node' hnode').1
      (hgraph.nodes node' hnode').2 htarget⟩
  · exact .inl (hbad q htarget)

/-- Variables and inputs of the graph, in the order of the code. -/
def planAll (p : ArenaPlanner) (graph : PlannerGraph) : Except Fault ArenaPlanner := do
  let p ← graph.variableTensors.foldlM planVariable p
  (tensorIndices graph.inputs).foldlM planLasting p

def planAllChecked (p : ArenaPlanner) (graph : PlannerGraph) : Checked Fault ArenaPlanner := do
  let p ← graph.variableTensors.foldlM planVariableChecked p
  graph.inputs.foldlM (unlessOptional planLastingChecked) p

/-- `PlanAllocations` behind the variables and the inputs. -/
def planNodes (graph : PlannerGraph) (tensors : PlannerTensors) (p : ArenaPlanner) :
    Except Fault ArenaPlanner := do
  let references := graph.nodes.flatMap fun node => tensorIndices node.inputs
  let q := identifyInPlaceTensors graph tensors
    { p with refcounts := references.foldl increment p.refcounts }
  let refcounts := (references.map q.findSharedTensor).foldl increment p.refcounts
  let w ← graph.nodes.zipIdx.foldlM Walk.step ⟨refcounts, q⟩
  return w.planner

def planNodesChecked (graph : PlannerGraph) (tensors : PlannerTensors) (p : ArenaPlanner) :
    Checked Fault ArenaPlanner := do
  let references := graph.nodes.flatMap fun node => node.inputs
  let counts ← references.foldlM (unlessOptional countTensor) p.refcounts
  let q ← identifyInPlaceTensorsChecked graph tensors { p with refcounts := counts }
  let refcounts ← references.foldlM (unlessOptional fun counts tensor =>
    countTensor counts (q.findSharedTensor tensor.toNat)) p.refcounts
  let w ← graph.nodes.zipIdx.foldlM Walk.stepChecked ⟨refcounts, q⟩
  return w.planner

theorem planAllocations_eq (p : ArenaPlanner) (graph : PlannerGraph) (tensors : PlannerTensors) :
    p.planAllocations graph tensors =
      ((p.start graph tensors).planAll graph >>= planNodes graph tensors) := by
  rw [planAllocations, planAll, bind_assoc]
  rfl

theorem planAllocationsChecked_eq (p : ArenaPlanner)
    (hgraph : graph.Indexed tensors.numTensors) : p.planAllocationsChecked graph tensors =
      ((p.start graph tensors).planAllChecked graph >>= planNodesChecked graph tensors) := by
  have hcount := @Indexes.count Fault _ _ hgraph.outputs (List.replicate tensors.numTensors 0)
    length_replicate
  rw [planAllocationsChecked, planAllChecked, bind_assoc, hcount.1]
  rfl

theorem Lasting.planAllChecked (h : Lasting n p) (hgraph : graph.Indexed n)
    (hnot : kTfLiteOptionalTensor ∉ graph.variableTensors) : ∃ p',
      p.planAllChecked graph = .ok p' ∧ p.planAll graph = .ok p' ∧ Lasting n p' := by
  obtain ⟨q, hq, hq', hlasting⟩ := exists_foldlM (f := planVariableChecked) (g := planVariable) h
    fun p hp t ht => by
      obtain ⟨i, hi, rfl⟩ := hgraph.variableTensors t ht fun hne => hnot (hne ▸ ht)
      rw [(planVariableChecked_tensor i).1, (planVariableChecked_tensor i).2]
      exact hp.planLastingChecked hi
  obtain ⟨r, hr, hr', hlasting'⟩ := exists_foldlM
    (l := graph.inputs.filter fun t => decide (t ≠ kTfLiteOptionalTensor))
    (f := ArenaPlanner.planLastingChecked) (g := fun p t => planLasting p t.toNat) hlasting
    fun p hp t ht => by
      obtain ⟨i, hi, rfl⟩ := hgraph.inputs.present ht
      exact hp.planLastingChecked hi
  refine ⟨r, ?_, ?_, hlasting'⟩
  · rw [ArenaPlanner.planAllChecked, hq, ok_bind, foldlM_unlessOptional, hr]
  · rw [planAll, hq', ok_bind, tensorIndices, foldlM_map, hr']

theorem Lasting.variableTensors_of_inBounds (h : Lasting n p) (hgraph : graph.Indexed n)
    (hin : InBounds (p.planAllChecked graph)) :
    kTfLiteOptionalTensor ∉ graph.variableTensors := fun hmem => by
  refine hin.of_bind (foldlM_eq_outOfBounds h (fun p hp t ht => ?_) hmem fun p =>
    planVariableChecked_optional)
  by_cases hne : t = kTfLiteOptionalTensor
  · exact .inl (hne ▸ planVariableChecked_optional)
  · obtain ⟨i, hi, rfl⟩ := hgraph.variableTensors t ht hne
    obtain ⟨p', hp', _, hlasting⟩ := hp.planLastingChecked hi
    exact .inr ⟨p', (planVariableChecked_tensor i).1.trans hp', hlasting⟩

theorem Lasting.planNodesChecked (h : Lasting n p) (hn : tensors.numTensors = n)
    (hgraph : graph.Indexed n) (htargets : ∀ node ∈ graph.nodes, node.HasTarget) :
    planNodesChecked graph tensors p = checked (planNodes graph tensors p) := by
  have hreferences := indexes_references fun node hnode => (hgraph.nodes node hnode).1
  have hcount := @Indexes.count Fault _ _ hreferences _ h.refcounts
  have hidentify := identifyInPlaceTensorsChecked_ok (p := { p with
    refcounts := (tensorIndices (graph.nodes.flatMap fun node => node.inputs)).foldl increment
      p.refcounts }) hn hgraph htargets (h.identify hcount.2)
  rw [ArenaPlanner.planNodesChecked, planNodes, hcount.1, ok_bind, ← tensorIndices_flatMap,
    hidentify.1, ok_bind]
  have hshares := hidentify.2
  generalize identifyInPlaceTensors graph tensors _ = q at hshares
  have hcount' := @Indexes.foldlM_eq_ok Fault _ _ _
    (fun counts tensor => countTensor counts (q.findSharedTensor tensor.toNat))
    (fun counts : List Int => counts.length = n) p.refcounts
    (fun counts i => increment counts (q.findSharedTensor i)) hreferences h.refcounts
    fun counts hn i hi => countTensor_ok hn (hshares.findSharedTensor hi)
  rw [hcount'.1, ok_bind, foldl_map]
  have hwalk := @foldlM_eq_checked Fault _ _ Walk.stepChecked (Walk.Sized n) graph.nodes.zipIdx
    ⟨_, q⟩ Walk.step ⟨hcount'.2, hshares⟩ fun w hw entry hentry => by
      have hnode := hgraph.nodes entry.1 (fst_mem_of_mem_zipIdx hentry)
      exact hw.stepChecked hnode.1 hnode.2
  rw [hwalk.1]
  exact checked_bind fun _ _ => rfl

theorem Lasting.targets_of_inBounds (h : Lasting n p) (hn : tensors.numTensors = n)
    (hgraph : graph.Indexed n) (hin : InBounds (ArenaPlanner.planNodesChecked graph tensors p)) :
    ∀ node ∈ graph.nodes, node.HasTarget := by
  have hcount := @Indexes.count Fault _ _
    (indexes_references fun node hnode => (hgraph.nodes node hnode).1) _ h.refcounts
  rw [ArenaPlanner.planNodesChecked, hcount.1, ok_bind] at hin
  exact ArenaPlanner.targets_of_inBounds (p := { p with
    refcounts := (tensorIndices (graph.nodes.flatMap fun node => node.inputs)).foldl increment
      p.refcounts }) hn hgraph (h.identify hcount.2) hin.of_bind

/-- With no gap where the planner does not look for one, it is the planner. -/
theorem planAllocationsChecked_complete (p : ArenaPlanner)
    (hgraph : graph.Indexed tensors.numTensors) (hcomplete : graph.Complete) :
    p.planAllocationsChecked graph tensors = checked (p.planAllocations graph tensors) := by
  obtain ⟨q, hq, hq', hlasting⟩ :=
    (Lasting.start p hgraph).planAllChecked hgraph hcomplete.variableTensors
  rw [planAllocationsChecked_eq p hgraph, planAllocations_eq, hq, hq', ok_bind, ok_bind]
  exact hlasting.planNodesChecked rfl hgraph hcomplete.targets

theorem inBounds_planAllocationsChecked (p : ArenaPlanner)
    (hgraph : graph.Indexed tensors.numTensors) :
    InBounds (p.planAllocationsChecked graph tensors) ↔ graph.Complete := by
  refine ⟨fun hin => ?_, fun hcomplete => ?_⟩
  · rw [planAllocationsChecked_eq p hgraph] at hin
    have hnot := (Lasting.start p hgraph).variableTensors_of_inBounds hgraph hin.of_bind
    obtain ⟨q, hq, _, hlasting⟩ := (Lasting.start p hgraph).planAllChecked hgraph hnot
    rw [hq, ok_bind] at hin
    exact ⟨hnot, hlasting.targets_of_inBounds rfl hgraph hin⟩
  · rw [planAllocationsChecked_complete p hgraph hcomplete]
    exact inBounds_checked _

end

end ArenaPlanner

end LiteRt.Tflite
