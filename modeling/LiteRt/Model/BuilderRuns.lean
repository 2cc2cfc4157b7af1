import LiteRt.Lib.Run
import LiteRt.Model.Dce

/-!
# Rewrite transactions

`LiteRtBuilderT` collects new tensors and ops in a subgraph of its own. Tensors
of the graph under rewrite are listed as operands without a use record;
`ApplyChanges` drops the erased ops, adds the missing back pointers and splices
all new ops at the position of the first erased op.
-/

namespace LiteRt.Model

open LiteRt.Lib List

variable {s : Ir × Builder} {pre : List OpId} {sg : Subgraph}

/-- `LiteRtBuilderT`. -/
structure Builder where
  subgraph : Subgraph
  erases : List OpId := []
  allocatedTensors : List TensorId := []

namespace Builder

def buildWeights (g : Ir) (b : Builder) (data : List UInt8) (t : TensorId) : Option Ir :=
  if t ∈ b.allocatedTensors then some (setWeightsFromOwnedBuffer g t data) else none

/-- `BuildTensor`; its form with a source tensor passes that tensor's fields. -/
def buildTensor (g : Ir) (b : Builder) (weights : Weights) (quantization : Quantization)
    (type : TensorType) (name : Option String) : Ir × Builder :=
  let (g, subgraph, t) := emplaceTensor g b.subgraph
  let g := g.modifyTensor t fun x =>
    { x with type := type, qparams := quantization, weights := weights
             name := name.getD x.name }
  (g, { b with subgraph := subgraph, allocatedTensors := b.allocatedTensors ++ [t] })

/-- The first loop of `BuildOp`. -/
def buildInput (o : OpId) (s : Ir × Builder) (t : TensorId) : Ir × Builder :=
  let (g, b) := s
  if t ∈ b.allocatedTensors then (attachInput g t o, b)
  else (g.modifyOp o fun op => { op with inputs := op.inputs ++ [t] },
    { b with subgraph := { b.subgraph with inputs := b.subgraph.inputs ++ [t] } })

/-- The second loop of `BuildOp`. -/
def buildOutput (o : OpId) (s : Ir × Builder) (t : TensorId) : Option (Ir × Builder) :=
  let (g, b) := s
  if t ∈ b.allocatedTensors then (attachOutput g t o).map fun g => (g, b)
  else some (g.modifyOp o fun op => { op with outputs := op.outputs ++ [t] },
    { b with subgraph := { b.subgraph with outputs := b.subgraph.outputs ++ [t] } })

/-- `BuildOp`; its form with a source op passes that op's code. -/
def buildOp (g : Ir) (b : Builder) (code : Nat) (inputs outputs : List TensorId) :
    Option (Ir × Builder) :=
  let (g, subgraph, o) := emplaceOp g b.subgraph
  let g := g.modifyOp o fun op => { op with attrs := { op.attrs with opCode := code } }
  let s := inputs.foldl (buildInput o) (g, { b with subgraph := subgraph })
  outputs.foldlM (buildOutput o) s

def eraseOp (b : Builder) (o : OpId) : Builder := { b with erases := b.erases.insert o }

end Builder

/-- One call to the builder. -/
inductive BuilderAction where
  | buildWeights (data : List UInt8) (t : TensorId)
  | buildTensor (weights : Weights) (quantization : Quantization) (type : TensorType)
      (name : Option String)
  | buildOp (code : Nat) (inputs outputs : List TensorId)
  | eraseOp (o : OpId)
  deriving DecidableEq

def BuilderAction.apply (s : Ir × Builder) : BuilderAction → Option (Ir × Builder)
  | .buildWeights data t => (s.2.buildWeights s.1 data t).map fun g => (g, s.2)
  | .buildTensor weights quantization type name =>
    some (s.2.buildTensor s.1 weights quantization type name)
  | .buildOp code inputs outputs => s.2.buildOp s.1 code inputs outputs
  | .eraseOp o => some (s.1, s.2.eraseOp o)

/-! ## ApplyChanges -/

/-- Record the operands of `o` that are inputs of the builder subgraph. -/
def reconnectInputs (ioTensors : List TensorId) (g : Ir) (o : OpId) : Ir :=
  (g.op o).inputs.zipIdx.foldl (fun g (t, i) =>
    if t ∈ ioTensors then g.modifyTensor t fun x => { x with users := x.users ++ [(o, i)] }
    else g) g

/-- Define the results of `o` that are outputs of the builder subgraph. -/
def reconnectOutputs (ioTensors : List TensorId) (g : Ir) (o : OpId) : Ir :=
  (g.op o).outputs.zipIdx.foldl (fun g (t, i) =>
    if t ∈ ioTensors then g.modifyTensor t fun x => x.setDefiningOp o i else g) g

def reconnect (subgraph : Subgraph) (g : Ir) (o : OpId) : Ir :=
  reconnectOutputs subgraph.outputs (reconnectInputs subgraph.inputs g o) o

/-- The loop that finds where the new ops go. -/
def spliceIndex (erases : List OpId) (ops : List OpId) : Nat :=
  (List.range ops.length).foldl (fun index originalOpIndex =>
    erases.foldl (fun index opToErase =>
      if ops[originalOpIndex]? = some opToErase then min index originalOpIndex else index) index)
    ops.length

/-- Move the weights of a new tensor to the buffer manager of the graph. -/
def transferWeights (src dst : Option ManagerId) (g : Ir) (t : TensorId) : Option Ir :=
  if 0 < (g.tensor t).weights.buffer.length ∧ some (g.tensor t).weights.bufferManager = src then
    dst.map fun dst =>
      let g' := g.modifyTensor t fun x => { x with weights :=
        { x.weights with bufferManager := dst } }
      setWeightsFromOwnedBuffer g' t (g.tensor t).weights.buffer
  else some g

/-- `ApplyChanges`; `erases` is the order in which the set of erased ops is
walked. -/
def applyChanges (g : Ir) (b : Builder) (erases : List OpId) (sg : Subgraph) :
    Option (Ir × Subgraph) := do
  let g ← erases.foldlM drop g
  let subgraph := dce g b.subgraph
  let g := subgraph.ops.foldl (reconnect subgraph) g
  let index := spliceIndex erases sg.ops
  let sg := { sg with ops := sg.ops.take index ++ subgraph.ops ++ sg.ops.drop index }
  let sg := dce g sg
  let g ← subgraph.tensors.foldlM (transferWeights subgraph.bufferManager sg.bufferManager) g
  pure (g, { sg with tensors := sg.tensors ++ subgraph.tensors })

/-!
## Runs of the builder

The builder leaves the graph it rewrites alone. Its own tensors have both ends of
all their edges; the edges to tensors of the graph are the operands and results
listed in the builder subgraph's inputs and outputs.
-/

def BuilderAction.UsesTensors (sg : Subgraph) (s : Ir × Builder) : BuilderAction → Prop
  | .buildOp _ inputs outputs =>
    ∀ t ∈ inputs ++ outputs, t ∈ s.2.allocatedTensors ∨ t ∈ sg.tensors
  | _ => True

instance (sg : Subgraph) (s : Ir × Builder) : (a : BuilderAction) → Decidable (a.UsesTensors sg s)
  | .buildWeights .. => .isTrue trivial
  | .buildTensor .. => .isTrue trivial
  | .buildOp _ inputs outputs => inferInstanceAs (Decidable
      (∀ t ∈ inputs ++ outputs, t ∈ s.2.allocatedTensors ∨ t ∈ sg.tensors))
  | .eraseOp _ => .isTrue trivial

/-- What holds of the graph and the builder between two calls, from the graph
`g₀` with the tensors `root`. -/
structure BuilderInv (g₀ : Ir) (root : List TensorId) (g : Ir) (b : Builder) : Prop where
  closed : g.Closed
  le_tensor : g₀.alloc.nextTensor ≤ g.alloc.nextTensor
  le_op : g₀.alloc.nextOp ≤ g.alloc.nextOp
  tensor : ∀ t < g₀.alloc.nextTensor, g.tensor t = g₀.tensor t
  op : ∀ o < g₀.alloc.nextOp, g.op o = g₀.op o
  mem_allocated : ∀ t, t ∈ b.allocatedTensors ↔ g₀.alloc.nextTensor ≤ t ∧ t < g.alloc.nextTensor
  tensors : b.subgraph.tensors = b.allocatedTensors
  tensors_nodup : b.subgraph.tensors.Nodup
  mem_ops : ∀ o, o ∈ b.subgraph.ops ↔ g₀.alloc.nextOp ≤ o ∧ o < g.alloc.nextOp
  ops_nodup : b.subgraph.ops.Nodup
  uses : ∀ t, g₀.alloc.nextTensor ≤ t → ∀ o i, (g.tensor t).users.count (o, i) =
    if (g.op o).inputs[i]? = some t then 1 else 0
  def_sound : ∀ t, g₀.alloc.nextTensor ≤ t → ∀ o j, (g.op o).outputs[j]? = some t →
    (g.tensor t).definingOp = some o ∧ (g.tensor t).definingOpOutInd = j
  def_complete : ∀ t, g₀.alloc.nextTensor ≤ t → ∀ o, (g.tensor t).definingOp = some o →
    (g.op o).outputs[(g.tensor t).definingOpOutInd]? = some t
  args : ∀ o, g₀.alloc.nextOp ≤ o → ∀ t, t ∈ (g.op o).inputs ∨ t ∈ (g.op o).outputs →
    t < g₀.alloc.nextTensor → t ∈ root
  inputs : b.subgraph.inputs = b.subgraph.ops.flatMap fun o =>
    (g.op o).inputs.filter (· < g₀.alloc.nextTensor)
  outputs : b.subgraph.outputs = b.subgraph.ops.flatMap fun o =>
    (g.op o).outputs.filter (· < g₀.alloc.nextTensor)

variable {g₀ g g' : Ir} {root : List TensorId} {b b' : Builder} {o : OpId} {t : TensorId}

theorem BuilderInv.init (h : g.Closed) (m : Option ManagerId) :
    BuilderInv g root g { subgraph := { bufferManager := m } } where
  closed := h
  le_tensor := Nat.le_refl _
  le_op := Nat.le_refl _
  tensor _ _ := rfl
  op _ _ := rfl
  mem_allocated t := by simp
  tensors := rfl
  tensors_nodup := .nil
  mem_ops o := by simp
  ops_nodup := .nil
  uses t ht o i := by
    rw [(h.tensor t ht).1, if_neg fun hi => ?_]
    · rfl
    · exact absurd (h.operand o t (mem_of_getElem? hi)) (Nat.not_lt.mpr ht)
  def_sound t ht o j hj :=
    absurd (h.result o t (mem_of_getElem? hj)) (Nat.not_lt.mpr ht)
  def_complete t ht o hd := by simp [(h.tensor t ht).2] at hd
  args o ho t ht _ := by
    rw [(h.op o ho).1, (h.op o ho).2] at ht
    simp at ht
  inputs := rfl
  outputs := rfl

theorem BuilderInv.modifyTensor (h : BuilderInv g₀ root g b) {f : Tensor → Tensor}
    (ht : g₀.alloc.nextTensor ≤ t)
    (hf : ∀ x, (f x).users = x.users ∧ (f x).definingOp = x.definingOp ∧
      (f x).definingOpOutInd = x.definingOpOutInd) (nb : ManagerId → Nat) :
    BuilderInv g₀ root
      { g.modifyTensor t f with alloc := { g.alloc with numBuffers := nb } } b := by
  have hfields (t' : TensorId) : ((g.modifyTensor t f).tensor t').users = (g.tensor t').users ∧
      ((g.modifyTensor t f).tensor t').definingOp = (g.tensor t').definingOp ∧
      ((g.modifyTensor t f).tensor t').definingOpOutInd = (g.tensor t').definingOpOutInd := by
    rw [Ir.tensor_modifyTensor]
    split
    · exact hf _
    · exact ⟨rfl, rfl, rfl⟩
  have hc := h.closed
  constructor
  · refine ⟨fun t' h' => ?_, hc.op, fun t' u hu => ?_, fun t' o hd => ?_, hc.operand, hc.result⟩
    · simp only [hfields]
      exact hc.tensor t' h'
    · simp only [hfields] at hu
      exact hc.user t' u hu
    · simp only [hfields] at hd
      exact hc.definer t' o hd
  · exact h.le_tensor
  · exact h.le_op
  · intro t' h'
    rw [← h.tensor t' h']
    exact Ir.tensor_modifyTensor_ne (Nat.ne_of_lt (Nat.lt_of_lt_of_le h' ht))
  · exact h.op
  · exact h.mem_allocated
  · exact h.tensors
  · exact h.tensors_nodup
  · exact h.mem_ops
  · exact h.ops_nodup
  · intro t' h' o i
    simp only [hfields]
    exact h.uses t' h' o i
  · intro t' h' o j hj
    simp only [hfields]
    exact h.def_sound t' h' o j hj
  · intro t' h' o hd
    simp only [hfields] at hd ⊢
    exact h.def_complete t' h' o hd
  · exact h.args
  · exact h.inputs
  · exact h.outputs

theorem BuilderInv.emplaceTensor (h : BuilderInv g₀ root g b) {m : ManagerId}
    (hT : ∀ t, g'.tensor t = if t = g.alloc.nextTensor then { weights := { bufferManager := m } }
      else g.tensor t)
    (hO : g'.op = g.op) (hnt : g'.alloc.nextTensor = g.alloc.nextTensor + 1)
    (hno : g'.alloc.nextOp = g.alloc.nextOp) :
    BuilderInv g₀ root g' { b with
      subgraph := { b.subgraph with tensors := b.subgraph.tensors ++ [g.alloc.nextTensor] }
      allocatedTensors := b.allocatedTensors ++ [g.alloc.nextTensor] } := by
  have hc := h.closed
  have hnew : g.alloc.nextTensor ∉ b.allocatedTensors := fun hm =>
    Nat.lt_irrefl _ ((h.mem_allocated _).mp hm).2
  have hold (t : TensorId) : (g'.tensor t).users = (g.tensor t).users ∧
      (g'.tensor t).definingOp = (g.tensor t).definingOp ∧
      ∀ o, (g'.tensor t).definingOp = some o →
        (g'.tensor t).definingOpOutInd = (g.tensor t).definingOpOutInd := by
    rw [hT]
    split
    · next ht =>
      subst ht
      have := hc.tensor _ (Nat.le_refl g.alloc.nextTensor)
      exact ⟨this.1.symm, this.2.symm, fun o ho => by cases ho⟩
    · exact ⟨rfl, rfl, fun _ _ => rfl⟩
  constructor
  · refine ⟨fun t ht => ?_, fun o ho => ?_, fun t u hu => ?_, fun t o hd => ?_, fun o t ht => ?_,
      fun o t ht => ?_⟩
    · rw [hnt] at ht
      rw [(hold t).1, (hold t).2.1]
      exact hc.tensor t (Nat.le_of_succ_le ht)
    · rw [hO]
      exact hc.op o (hno ▸ ho)
    · rw [(hold t).1] at hu
      exact hno ▸ hc.user t u hu
    · rw [(hold t).2.1] at hd
      exact hno ▸ hc.definer t o hd
    · rw [hO] at ht
      exact hnt ▸ Nat.lt_succ_of_lt (hc.operand o t ht)
    · rw [hO] at ht
      exact hnt ▸ Nat.lt_succ_of_lt (hc.result o t ht)
  · exact hnt ▸ Nat.le_succ_of_le h.le_tensor
  · exact hno ▸ h.le_op
  · intro t ht
    rw [← h.tensor t ht, hT, if_neg (Nat.ne_of_lt (Nat.lt_of_lt_of_le ht h.le_tensor))]
  · intro o ho
    rw [hO, h.op o ho]
  · intro t
    have hle := h.le_tensor
    rw [mem_append, h.mem_allocated, mem_singleton, hnt]
    grind
  · exact congrArg (· ++ [g.alloc.nextTensor]) h.tensors
  · refine nodup_append.mpr ⟨h.tensors_nodup, nodup_singleton _, ?_⟩
    rintro t ht t' ht' rfl
    rw [mem_singleton.mp ht', h.tensors] at ht
    exact hnew ht
  · intro o
    rw [hno]
    exact h.mem_ops o
  · exact h.ops_nodup
  · intro t ht o i
    rw [(hold t).1, hO]
    exact h.uses t ht o i
  · intro t ht o j hj
    rw [hO] at hj
    have := h.def_sound t ht o j hj
    rw [(hold t).2.2 o ((hold t).2.1.trans this.1), (hold t).2.1]
    exact this
  · intro t ht o hd
    rw [(hold t).2.2 o hd, hO]
    rw [(hold t).2.1] at hd
    exact h.def_complete t ht o hd
  · rw [hO]
    exact h.args
  · rw [hO]
    exact h.inputs
  · rw [hO]
    exact h.outputs

theorem BuilderInv.emplaceOp (h : BuilderInv g₀ root g b) {x : Op} (hx : x.inputs = [])
    (hx' : x.outputs = []) (hO : ∀ o, g'.op o = if o = g.alloc.nextOp then x else g.op o)
    (hT : g'.tensor = g.tensor) (hnt : g'.alloc.nextTensor = g.alloc.nextTensor)
    (hno : g'.alloc.nextOp = g.alloc.nextOp + 1) :
    BuilderInv g₀ root g' { b with
      subgraph := { b.subgraph with ops := b.subgraph.ops ++ [g.alloc.nextOp] } } := by
  have hc := h.closed
  have hnew : g.alloc.nextOp ∉ b.subgraph.ops := fun hm =>
    Nat.lt_irrefl _ ((h.mem_ops _).mp hm).2
  have hold (o : OpId) : (g'.op o).inputs = (g.op o).inputs ∧
      (g'.op o).outputs = (g.op o).outputs := by
    rw [hO]
    split
    · next ho =>
      subst ho
      have := hc.op _ (Nat.le_refl g.alloc.nextOp)
      exact ⟨hx.trans this.1.symm, hx'.trans this.2.symm⟩
    · exact ⟨rfl, rfl⟩
  constructor
  · refine ⟨fun t ht => ?_, fun o ho => ?_, fun t u hu => ?_, fun t o hd => ?_, fun o t ht => ?_,
      fun o t ht => ?_⟩
    · rw [hT]
      exact hc.tensor t (hnt ▸ ht)
    · rw [hno] at ho
      rw [(hold o).1, (hold o).2]
      exact hc.op o (Nat.le_of_succ_le ho)
    · rw [hT] at hu
      exact hno ▸ Nat.lt_succ_of_lt (hc.user t u hu)
    · rw [hT] at hd
      exact hno ▸ Nat.lt_succ_of_lt (hc.definer t o hd)
    · rw [(hold o).1] at ht
      exact hnt ▸ hc.operand o t ht
    · rw [(hold o).2] at ht
      exact hnt ▸ hc.result o t ht
  · exact hnt ▸ h.le_tensor
  · exact hno ▸ Nat.le_succ_of_le h.le_op
  · rw [hT]
    exact h.tensor
  · intro o ho
    rw [← h.op o ho, hO, if_neg (Nat.ne_of_lt (Nat.lt_of_lt_of_le ho h.le_op))]
  · intro t
    rw [hnt]
    exact h.mem_allocated t
  · exact h.tensors
  · exact h.tensors_nodup
  · intro o
    have hle := h.le_op
    rw [mem_append, h.mem_ops, mem_singleton, hno]
    grind
  · refine nodup_append.mpr ⟨h.ops_nodup, nodup_singleton _, ?_⟩
    rintro o ho o' ho' rfl
    rw [mem_singleton.mp ho'] at ho
    exact hnew ho
  · intro t ht o i
    rw [hT, (hold o).1]
    exact h.uses t ht o i
  · intro t ht o j hj
    rw [(hold o).2] at hj
    rw [hT]
    exact h.def_sound t ht o j hj
  · intro t ht o hd
    rw [hT] at hd ⊢
    rw [(hold o).2]
    exact h.def_complete t ht o hd
  · intro o ho t ht
    rw [(hold o).1, (hold o).2] at ht
    exact h.args o ho t ht
  · simp only [hold, h.inputs, flatMap_append, flatMap_singleton]
    rw [(hc.op _ (Nat.le_refl g.alloc.nextOp)).1]
    simp
  · simp only [hold, h.outputs, flatMap_append, flatMap_singleton]
    rw [(hc.op _ (Nat.le_refl g.alloc.nextOp)).2]
    simp

/-! ### One operand, one result -/

theorem buildInput_spec (g : Ir) (b : Builder) (o : OpId) (t : TensorId) :
    ∃ g' b', Builder.buildInput o (g, b) t = (g', b') ∧ b'.subgraph.ops = b.subgraph.ops ∧
      b'.subgraph.tensors = b.subgraph.tensors ∧ b'.allocatedTensors = b.allocatedTensors ∧
      b'.subgraph.outputs = b.subgraph.outputs ∧
      b'.subgraph.inputs = b.subgraph.inputs ++ (if t ∈ b.allocatedTensors then [] else [t]) ∧
      g'.alloc = g.alloc ∧
      (∀ o', g'.op o' =
        if o' = o then { g.op o' with inputs := (g.op o').inputs ++ [t] } else g.op o') ∧
      ∀ t', g'.tensor t' = if t' = t ∧ t ∈ b.allocatedTensors then
        { g.tensor t' with users := (g.tensor t').users ++ [(o, (g.op o).inputs.length)] }
        else g.tensor t' := by
  unfold Builder.buildInput
  by_cases ht : t ∈ b.allocatedTensors
  · simp only [ht, ↓reduceIte, and_true, append_nil]
    exact ⟨_, _, rfl, rfl, rfl, rfl, rfl, rfl, rfl, fun o' => op_attachInput g t o o',
      fun t' => tensor_attachInput g t t' o⟩
  · simp only [ht, ↓reduceIte, and_false]
    exact ⟨_, _, rfl, rfl, rfl, rfl, rfl, rfl, rfl, fun _ => rfl, fun _ => rfl⟩

/-- Where a tensor of a call comes from. -/
theorem BuilderInv.mem_allocated_iff (h : BuilderInv g₀ root g b)
    (ht : t ∈ b.allocatedTensors ∨ t ∈ root) (hroot : ∀ t ∈ root, t < g₀.alloc.nextTensor) :
    (t ∈ b.allocatedTensors ↔ g₀.alloc.nextTensor ≤ t) ∧ t < g.alloc.nextTensor := by
  refine ⟨⟨fun hm => ((h.mem_allocated t).mp hm).1, fun hle => ht.resolve_right fun hr => ?_⟩, ?_⟩
  · exact absurd (hroot t hr) (Nat.not_lt.mpr hle)
  · exact ht.elim (fun hm => ((h.mem_allocated t).mp hm).2)
      fun hr => Nat.lt_of_lt_of_le (hroot t hr) h.le_tensor

/-- The list of the graph's tensors at the ops, when the last op gets one more. -/
theorem flatMap_filter_snoc (f f' : OpId → List TensorId) (t : TensorId) {ops pre : List OpId}
    {n : Nat} {new : List TensorId} (ho : ops = pre ++ [o]) (hnd : ops.Nodup)
    (hne : ∀ o', o' ≠ o → f' o' = f o') (hself : f' o = f o ++ [t])
    (hnew : new = if t < n then [t] else []) :
    (ops.flatMap fun o => (f o).filter (· < n)) ++ new =
      ops.flatMap fun o => (f' o).filter (· < n) := by
  subst ho
  have hpre : pre.flatMap (fun o => (f' o).filter (· < n)) =
      pre.flatMap fun o => (f o).filter (· < n) := by
    refine flatMap_congr fun o' hm => ?_
    rw [hne o' fun he => ?_]
    exact (nodup_append.mp hnd).2.2 o' hm o (mem_singleton.mpr rfl) he
  rw [flatMap_append, flatMap_append, hpre, flatMap_singleton,
    flatMap_singleton, hself, filter_append, hnew, append_assoc]
  congr 2
  split <;> simp [*]

theorem BuilderInv.buildInput (h : BuilderInv g₀ root g b) (ho : b.subgraph.ops = pre ++ [o])
    (ht : t ∈ b.allocatedTensors ∨ t ∈ root) (hroot : ∀ t ∈ root, t < g₀.alloc.nextTensor) :
    ∃ g' b', Builder.buildInput o (g, b) t = (g', b') ∧ BuilderInv g₀ root g' b' ∧
      b'.allocatedTensors = b.allocatedTensors ∧ b'.subgraph.ops = b.subgraph.ops := by
  obtain ⟨g', b', he, hbo, hbt, hba, hbout, hbin, hA, hO, hT⟩ := buildInput_spec g b o t
  refine ⟨g', b', he, ?_, hba, hbo⟩
  clear he
  have hc := h.closed
  obtain ⟨hge, hlt⟩ := (h.mem_ops o).mp (ho ▸ mem_append_right pre (mem_singleton.mpr rfl))
  obtain ⟨hmem, htlt⟩ := h.mem_allocated_iff ht hroot
  have hout (o' : OpId) : (g'.op o').outputs = (g.op o').outputs := by
    rw [hO]
    split <;> rfl
  have hdef (t' : TensorId) : (g'.tensor t').definingOp = (g.tensor t').definingOp ∧
      (g'.tensor t').definingOpOutInd = (g.tensor t').definingOpOutInd := by
    rw [hT]
    split <;> exact ⟨rfl, rfl⟩
  have hin (o' : OpId) (t' : TensorId) : t' ∈ (g'.op o').inputs ↔
      t' ∈ (g.op o').inputs ∨ (o' = o ∧ t' = t) := by
    rw [hO]
    split <;> simp [*]
  have huser (t' : TensorId) (u : OpId × Nat) (hu : u ∈ (g'.tensor t').users) :
      u ∈ (g.tensor t').users ∨ (t' = t ∧ u.1 = o) := by
    rw [hT] at hu
    split at hu
    · next hcond =>
      rcases mem_append.mp hu with hu | hu
      · exact .inl hu
      · rw [mem_singleton.mp hu]
        exact .inr ⟨hcond.1, rfl⟩
    · exact .inl hu
  constructor
  · refine ⟨fun t' h' => ?_, fun o' h' => ?_, fun t' u hu => ?_, fun t' o' hd => ?_,
      fun o' t' hm => ?_, fun o' t' hm => ?_⟩
    · rw [hA] at h'
      rw [(hdef t').1]
      refine ⟨eq_nil_iff_forall_not_mem.mpr fun u hu => ?_, (hc.tensor t' h').2⟩
      rcases huser t' u hu with hu | ⟨rfl, -⟩
      · simp [(hc.tensor t' h').1] at hu
      · exact absurd htlt (Nat.not_lt.mpr h')
    · rw [hA] at h'
      rw [hO, if_neg (Nat.ne_of_gt (Nat.lt_of_lt_of_le hlt h'))]
      exact hc.op o' h'
    · rw [hA]
      rcases huser t' u hu with hu | ⟨-, hu⟩
      · exact hc.user t' u hu
      · exact hu ▸ hlt
    · exact hA ▸ hc.definer t' o' ((hdef t').1 ▸ hd)
    · rw [hA]
      rcases (hin o' t').mp hm with hm | ⟨-, rfl⟩
      · exact hc.operand o' t' hm
      · exact htlt
    · exact hA ▸ hc.result o' t' (hout o' ▸ hm)
  · exact hA ▸ h.le_tensor
  · exact hA ▸ h.le_op
  · intro t' h'
    rw [← h.tensor t' h', hT, if_neg]
    rintro ⟨rfl, hm⟩
    exact absurd h' (Nat.not_lt.mpr (hmem.mp hm))
  · intro o' h'
    rw [← h.op o' h', hO, if_neg (Nat.ne_of_lt (Nat.lt_of_lt_of_le h' hge))]
  · rw [hba, hA]
    exact h.mem_allocated
  · rw [hbt, hba]
    exact h.tensors
  · exact hbt ▸ h.tensors_nodup
  · rw [hbo, hA]
    exact h.mem_ops
  · exact hbo ▸ h.ops_nodup
  · intro t' h' o' i
    have hu := h.uses t' h' o' i
    by_cases htt : t' = t
    · subst htt
      rw [hT, if_pos ⟨rfl, hmem.mpr h'⟩, count_append, hu, hO]
      by_cases hoo : o' = o
      · subst hoo
        simp only [↓reduceIte, getElem?_snoc_eq_some, and_true]
        by_cases hi : i = (g.op o').inputs.length
        · subst hi
          simp
        · simp [hi, Ne.symm hi]
      · simp [hoo, Ne.symm hoo]
    · rw [hT, if_neg (fun hcond => htt hcond.1), hu, hO]
      by_cases hoo : o' = o
      · subst hoo
        simp [getElem?_snoc_eq_some, Ne.symm htt]
      · simp [hoo]
  · intro t' h' o' j hj
    rw [hout] at hj
    rw [(hdef t').1, (hdef t').2]
    exact h.def_sound t' h' o' j hj
  · intro t' h' o' hd
    rw [(hdef t').1] at hd
    rw [(hdef t').2, hout]
    exact h.def_complete t' h' o' hd
  · intro o' h' t' hm hlt'
    rw [hout, hin] at hm
    rcases hm with (hm | ⟨-, rfl⟩) | hm
    · exact h.args o' h' t' (.inl hm) hlt'
    · exact ht.resolve_left fun hm => absurd hlt' (Nat.not_lt.mpr (hmem.mp hm))
    · exact h.args o' h' t' (.inr hm) hlt'
  · rw [hbin, h.inputs, hbo]
    refine flatMap_filter_snoc (fun o => (g.op o).inputs) (fun o => (g'.op o).inputs) t ho
      h.ops_nodup (fun o' hne => by simp [hO, hne]) (by simp [hO]) ?_
    by_cases hm : t ∈ b.allocatedTensors
    · rw [if_pos hm, if_neg (Nat.not_lt.mpr (hmem.mp hm))]
    · rw [if_neg hm, if_pos (Nat.lt_of_not_le fun hle => hm (hmem.mpr hle))]
  · simp only [hout, hbout, hbo]
    exact h.outputs

theorem buildOutput_spec {g : Ir} {b : Builder} (o : OpId) {t : TensorId}
    (hs : Builder.buildOutput o (g, b) t = some s) :
    s.2.subgraph.ops = b.subgraph.ops ∧ s.2.subgraph.tensors = b.subgraph.tensors ∧
      s.2.allocatedTensors = b.allocatedTensors ∧ s.2.subgraph.inputs = b.subgraph.inputs ∧
      s.2.subgraph.outputs = b.subgraph.outputs ++ (if t ∈ b.allocatedTensors then [] else [t]) ∧
      s.1.alloc = g.alloc ∧ (t ∈ b.allocatedTensors → (g.tensor t).definingOp = none) ∧
      (∀ o', s.1.op o' =
        if o' = o then { g.op o' with outputs := (g.op o').outputs ++ [t] } else g.op o') ∧
      ∀ t', s.1.tensor t' = if t' = t ∧ t ∈ b.allocatedTensors then
        (g.tensor t').setDefiningOp o (g.op o).outputs.length else g.tensor t' := by
  unfold Builder.buildOutput at hs
  by_cases ht : t ∈ b.allocatedTensors
  · simp only [ht, ↓reduceIte, Option.map_eq_some_iff] at hs
    obtain ⟨g', hg', rfl⟩ := hs
    have hnone : (g.tensor t).definingOp = none := by
      unfold attachOutput at hg'
      split at hg'
      · assumption
      · cases hg'
    obtain ⟨g'', he, hA, hT, hO⟩ := attachOutput_spec o hnone
    obtain rfl : g'' = g' := Option.some.inj (he.symm.trans hg')
    simp only [ht, ↓reduceIte, and_true, append_nil]
    exact ⟨trivial, trivial, trivial, trivial, trivial, hA, fun _ => hnone, hO, hT⟩
  · simp only [ht, ↓reduceIte, Option.some.injEq] at hs
    subst hs
    simp only [ht, ↓reduceIte, and_false]
    exact ⟨trivial, trivial, trivial, trivial, trivial, rfl, fun h => h.elim, fun _ => rfl,
      fun _ => rfl⟩

theorem BuilderInv.buildOutput (h : BuilderInv g₀ root g b) (ho : b.subgraph.ops = pre ++ [o])
    (ht : t ∈ b.allocatedTensors ∨ t ∈ root) (hroot : ∀ t ∈ root, t < g₀.alloc.nextTensor)
    (hs : Builder.buildOutput o (g, b) t = some s) :
    BuilderInv g₀ root s.1 s.2 ∧ s.2.allocatedTensors = b.allocatedTensors ∧
      s.2.subgraph.ops = b.subgraph.ops := by
  obtain ⟨hbo, hbt, hba, hbin, hbout, hA, hnone, hO, hT⟩ := buildOutput_spec o hs
  refine ⟨?_, hba, hbo⟩
  clear hs
  have hc := h.closed
  obtain ⟨hge, hlt⟩ := (h.mem_ops o).mp (ho ▸ mem_append_right pre (mem_singleton.mpr rfl))
  obtain ⟨hmem, htlt⟩ := h.mem_allocated_iff ht hroot
  have hin (o' : OpId) : (s.1.op o').inputs = (g.op o').inputs := by
    rw [hO]
    split <;> rfl
  have huse (t' : TensorId) : (s.1.tensor t').users = (g.tensor t').users := by
    rw [hT]
    split <;> rfl
  have hdef (t' : TensorId) (o' : OpId) (hd : (s.1.tensor t').definingOp = some o') :
      (t' = t ∧ o' = o) ∨ (s.1.tensor t' = g.tensor t' ∧ (g.tensor t').definingOp = some o') := by
    rw [hT] at hd ⊢
    split at hd
    · next hcond => exact .inl ⟨hcond.1, (Option.some.inj hd).symm⟩
    · next hcond => exact .inr ⟨if_neg hcond, hd⟩
  have hout (o' : OpId) (t' : TensorId) : t' ∈ (s.1.op o').outputs ↔
      t' ∈ (g.op o').outputs ∨ (o' = o ∧ t' = t) := by
    rw [hO]
    split <;> simp [*]
  constructor
  · refine ⟨fun t' h' => ?_, fun o' h' => ?_, fun t' u hu => ?_, fun t' o' hd => ?_,
      fun o' t' hm => ?_, fun o' t' hm => ?_⟩
    · rw [hA] at h'
      rw [huse]
      refine ⟨(hc.tensor t' h').1, ?_⟩
      rw [hT, if_neg]
      · exact (hc.tensor t' h').2
      · rintro ⟨rfl, -⟩
        exact absurd htlt (Nat.not_lt.mpr h')
    · rw [hA] at h'
      rw [hO, if_neg (Nat.ne_of_gt (Nat.lt_of_lt_of_le hlt h'))]
      exact hc.op o' h'
    · rw [hA]
      exact hc.user t' u (huse t' ▸ hu)
    · rw [hA]
      rcases hdef t' o' hd with ⟨-, rfl⟩ | ⟨-, hd⟩
      · exact hlt
      · exact hc.definer t' o' hd
    · exact hA ▸ hc.operand o' t' (hin o' ▸ hm)
    · rw [hA]
      rcases (hout o' t').mp hm with hm | ⟨-, rfl⟩
      · exact hc.result o' t' hm
      · exact htlt
  · exact hA ▸ h.le_tensor
  · exact hA ▸ h.le_op
  · intro t' h'
    rw [← h.tensor t' h', hT, if_neg]
    rintro ⟨rfl, hm⟩
    exact absurd h' (Nat.not_lt.mpr (hmem.mp hm))
  · intro o' h'
    rw [← h.op o' h', hO, if_neg (Nat.ne_of_lt (Nat.lt_of_lt_of_le h' hge))]
  · rw [hba, hA]
    exact h.mem_allocated
  · rw [hbt, hba]
    exact h.tensors
  · exact hbt ▸ h.tensors_nodup
  · rw [hbo, hA]
    exact h.mem_ops
  · exact hbo ▸ h.ops_nodup
  · intro t' h' o' i
    rw [huse, hin]
    exact h.uses t' h' o' i
  · intro t' h' o' j hj
    have hold : (g.op o').outputs[j]? = some t' ∨
        (o' = o ∧ j = (g.op o).outputs.length ∧ t' = t) := by
      rw [hO] at hj
      split at hj
      · next hoo =>
        subst hoo
        rcases getElem?_snoc_eq_some.mp hj with hj | ⟨rfl, rfl⟩
        · exact .inl hj
        · exact .inr ⟨rfl, rfl, rfl⟩
      · exact .inl hj
    rcases hold with hj | ⟨rfl, rfl, rfl⟩
    · have hd := h.def_sound t' h' o' j hj
      rw [hT, if_neg]
      · exact hd
      · rintro ⟨rfl, hm⟩
        simp [hnone hm] at hd
    · rw [hT, if_pos ⟨rfl, hmem.mpr h'⟩]
      exact ⟨rfl, rfl⟩
  · intro t' h' o' hd
    rcases hdef t' o' hd with ⟨rfl, rfl⟩ | ⟨he, hd⟩
    · rw [hT, if_pos ⟨rfl, hmem.mpr h'⟩, hO, if_pos rfl]
      simp [Tensor.setDefiningOp]
    · have := h.def_complete t' h' o' hd
      rw [he, hO]
      split
      · exact getElem?_snoc_eq_some.mpr (.inl this)
      · exact this
  · intro o' h' t' hm hlt'
    rw [hin, hout] at hm
    rcases hm with hm | hm | ⟨-, rfl⟩
    · exact h.args o' h' t' (.inl hm) hlt'
    · exact h.args o' h' t' (.inr hm) hlt'
    · exact ht.resolve_left fun hm => absurd hlt' (Nat.not_lt.mpr (hmem.mp hm))
  · simp only [hin, hbin, hbo]
    exact h.inputs
  · rw [hbout, h.outputs, hbo]
    refine flatMap_filter_snoc (fun o => (g.op o).outputs) (fun o => (s.1.op o).outputs) t ho
      h.ops_nodup (fun o' hne => by simp [hO, hne]) (by simp [hO]) ?_
    by_cases hm : t ∈ b.allocatedTensors
    · rw [if_pos hm, if_neg (Nat.not_lt.mpr (hmem.mp hm))]
    · rw [if_neg hm, if_pos (Nat.lt_of_not_le fun hle => hm (hmem.mpr hle))]

/-! ### Calls and runs -/

theorem BuilderInv.buildInputs {pre ts : List TensorId} (h : BuilderInv g₀ root g b)
    (ho : b.subgraph.ops = pre ++ [o]) (ht : ∀ t ∈ ts, t ∈ b.allocatedTensors ∨ t ∈ root)
    (hroot : ∀ t ∈ root, t < g₀.alloc.nextTensor) :
    ∃ g' b', ts.foldl (Builder.buildInput o) (g, b) = (g', b') ∧ BuilderInv g₀ root g' b' ∧
      b'.allocatedTensors = b.allocatedTensors ∧ b'.subgraph.ops = b.subgraph.ops := by
  induction ts generalizing g b with
  | nil => exact ⟨g, b, rfl, h, rfl, rfl⟩
  | cons t ts ih =>
    obtain ⟨g₁, b₁, he, h₁, ha, hops⟩ := h.buildInput ho (ht t (by simp)) hroot
    obtain ⟨g', b', he', h', ha', hops'⟩ := ih h₁ (hops.trans ho)
      fun t' hm => ha ▸ ht t' (mem_cons_of_mem t hm)
    exact ⟨g', b', by rw [foldl_cons, he, he'], h', ha'.trans ha, hops'.trans hops⟩

theorem BuilderInv.buildOutputs {pre ts : List TensorId} (h : BuilderInv g₀ root g b)
    (ho : b.subgraph.ops = pre ++ [o]) (ht : ∀ t ∈ ts, t ∈ b.allocatedTensors ∨ t ∈ root)
    (hroot : ∀ t ∈ root, t < g₀.alloc.nextTensor)
    (hs : ts.foldlM (Builder.buildOutput o) (g, b) = some s) : BuilderInv g₀ root s.1 s.2 := by
  induction ts generalizing g b with
  | nil =>
    obtain rfl := Option.some.inj hs
    exact h
  | cons t ts ih =>
    rw [foldlM_cons] at hs
    obtain ⟨⟨g₁, b₁⟩, he, hs⟩ := Option.bind_eq_some_iff.mp hs
    obtain ⟨h₁, ha, hops⟩ := h.buildOutput ho (ht t (by simp)) hroot he
    exact ih h₁ (hops.trans ho) (fun t' hm => ha ▸ ht t' (mem_cons_of_mem t hm)) hs

theorem BuilderInv.buildOp (h : BuilderInv g₀ root g b) {code : Nat} {ins outs : List TensorId}
    (ht : ∀ t, t ∈ ins ∨ t ∈ outs → t ∈ b.allocatedTensors ∨ t ∈ root)
    (hroot : ∀ t ∈ root, t < g₀.alloc.nextTensor) (hs : b.buildOp g code ins outs = some s) :
    BuilderInv g₀ root s.1 s.2 := by
  obtain ⟨g₁, he, hO, hT, hnt, hno⟩ := emplaceOp_spec g b.subgraph
  unfold Builder.buildOp at hs
  rw [he] at hs
  simp only at hs
  set g₂ := g₁.modifyOp g.alloc.nextOp fun op =>
    { op with attrs := { op.attrs with opCode := code } }
  have hO₂ : ∀ o, g₂.op o = if o = g.alloc.nextOp then { attrs := { opCode := code } }
      else g.op o := fun o => by
    rw [Ir.op_modifyOp, hO]
    split <;> rfl
  have h₂ : BuilderInv g₀ root g₂ _ := h.emplaceOp rfl rfl hO₂ hT hnt hno
  obtain ⟨g₃, b₃, he₃, h₃, ha₃, hops₃⟩ := h₂.buildInputs rfl (fun t hm => ht t (.inl hm)) hroot
  rw [he₃] at hs
  exact h₃.buildOutputs hops₃ (fun t hm => ha₃ ▸ ht t (.inr hm)) hroot hs

theorem BuilderInv.step (hroot : ∀ t ∈ sg.tensors, t < g₀.alloc.nextTensor) {s s' : Ir × Builder}
    {a : BuilderAction} (ha : a.UsesTensors sg s) (hs : a.apply s = some s')
    (h : BuilderInv g₀ sg.tensors s.1 s.2) :
    BuilderInv g₀ sg.tensors s'.1 s'.2 := by
  obtain ⟨g, b⟩ := s
  cases a with
  | buildWeights data t =>
    simp only [BuilderAction.apply, Builder.buildWeights, Option.map_eq_some_iff] at hs
    obtain ⟨g', hg', rfl⟩ := hs
    split at hg'
    · next hm =>
      cases hg'
      refine h.modifyTensor ((h.mem_allocated t).mp hm).1 ?_ _
      exact fun x => ⟨rfl, rfl, rfl⟩
    · cases hg'
  | buildTensor weights quantization type name =>
    obtain ⟨g₁, m, he, hT, hO, hnt, hno⟩ := emplaceTensor_spec g b.subgraph
    obtain rfl := Option.some.inj hs
    simp only [Builder.buildTensor, he]
    have h₁ := h.emplaceTensor hT hO hnt hno
    let f (x : Tensor) : Tensor :=
      { x with type := type, qparams := quantization, weights := weights
               name := name.getD x.name }
    exact h₁.modifyTensor (f := f) h.le_tensor (fun x => ⟨rfl, rfl, rfl⟩) g₁.alloc.numBuffers
  | buildOp code ins outs =>
    exact h.buildOp (fun t hm => ha t (mem_append.mpr hm)) hroot hs
  | eraseOp o =>
    obtain rfl := Option.some.inj hs
    cases h
    constructor <;> assumption

theorem builderInv_of_run {m : Option ManagerId} {as : List BuilderAction} (hclosed : g₀.Closed)
    (hroot : ∀ t ∈ sg.tensors, t < g₀.alloc.nextTensor)
    (hrun : Run (fun s a => BuilderAction.UsesTensors sg s a) BuilderAction.apply (g₀,
      { subgraph := { bufferManager := m } }) as (g, b)) :
    BuilderInv g₀ sg.tensors g b :=
  hrun.invariant (P := fun s => BuilderInv g₀ sg.tensors s.1 s.2)
    (fun _ _ _ ha hs h => h.step hroot ha hs) (.init hclosed m)

end LiteRt.Model
