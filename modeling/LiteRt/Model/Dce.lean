import LiteRt.Lib.TopoOrder
import LiteRt.Model.Drop

/-!
# Allocating and cloning IR objects

A subgraph allocates its tensors with its buffer manager when it has one. All
edges connect allocated addresses (`Ir.Closed`), so a new object has no edges.
-/

namespace LiteRt.Model

variable {g : Ir} {sg : Subgraph}

/-- Only allocated addresses occur in edges. -/
structure Ir.Closed (g : Ir) : Prop where
  tensor : ∀ t, g.alloc.nextTensor ≤ t → (g.tensor t).users = [] ∧ (g.tensor t).definingOp = none
  op : ∀ o, g.alloc.nextOp ≤ o → (g.op o).inputs = [] ∧ (g.op o).outputs = []
  user : ∀ t, ∀ u ∈ (g.tensor t).users, u.1 < g.alloc.nextOp
  definer : ∀ t o, (g.tensor t).definingOp = some o → o < g.alloc.nextOp
  operand : ∀ o, ∀ t ∈ (g.op o).inputs, t < g.alloc.nextTensor
  result : ∀ o, ∀ t ∈ (g.op o).outputs, t < g.alloc.nextTensor

/-- The constructors of `LiteRtTensorT`. -/
def newTensor (g : Ir) (bufferManager : Option ManagerId) : Ir × TensorId :=
  let t := g.alloc.nextTensor
  match bufferManager with
  | some m =>
    ({ g.modifyTensor t fun _ => { weights := { bufferManager := m } } with
        alloc := { g.alloc with nextTensor := t + 1 } }, t)
  | none =>
    let m := g.alloc.nextManager
    ({ g.modifyTensor t fun _ => { weights := { bufferManager := m } } with
        alloc := { g.alloc with
          nextTensor := t + 1
          nextManager := m + 1
          numBuffers := fun m' => if m' = m then 1 else g.alloc.numBuffers m' } }, t)

/-- The constructor of `LiteRtOpT`. -/
def newOp (g : Ir) : Ir × OpId :=
  let o := g.alloc.nextOp
  ({ g.modifyOp o fun _ => {} with alloc := { g.alloc with nextOp := o + 1 } }, o)

def emplaceTensor (g : Ir) (sg : Subgraph) : Ir × Subgraph × TensorId :=
  let (g, t) := newTensor g sg.bufferManager
  (g, { sg with tensors := sg.tensors ++ [t] }, t)

def emplaceOpAt (g : Ir) (sg : Subgraph) (index : Nat) : Ir × Subgraph × OpId :=
  let (g, o) := newOp g
  (g, { sg with ops := sg.ops.insertIdx index o }, o)

def emplaceOp (g : Ir) (sg : Subgraph) : Ir × Subgraph × OpId := emplaceOpAt g sg sg.ops.length

/-- `SetWeightsFromOwnedBuffer`: the buffer gets the next id of the manager. -/
def setWeightsFromOwnedBuffer (g : Ir) (t : TensorId) (buffer : List UInt8) : Ir :=
  let m := (g.tensor t).weights.bufferManager
  { g.modifyTensor t fun x => { x with weights :=
      { x.weights with bufferId := g.alloc.numBuffers m, buffer := buffer } } with
    alloc := { g.alloc with
      numBuffers := fun m' =>
        if m' = m then g.alloc.numBuffers m + 1 else g.alloc.numBuffers m' } }

def cloneTensorTo (g : Ir) (src dest : TensorId) : Ir :=
  let s := g.tensor src
  let g := g.modifyTensor dest fun d =>
    { d with name := s.name, qparams := s.qparams, type := s.type, tensorIndex := s.tensorIndex }
  if s.weights.bufferManager = (g.tensor dest).weights.bufferManager then
    g.modifyTensor dest fun d =>
      { d with weights :=
        { d.weights with bufferId := s.weights.bufferId, buffer := s.weights.buffer } }
  else setWeightsFromOwnedBuffer g dest s.weights.buffer

def cloneOpTo (g : Ir) (src dest : OpId) : Ir :=
  g.modifyOp dest fun d => { d with attrs := (g.op src).attrs }

def makeTensorClone (g : Ir) (parent : Subgraph) (src : TensorId) : Ir × Subgraph × TensorId :=
  let (g, parent, t) := emplaceTensor g parent
  (cloneTensorTo g src t, parent, t)

def makeOpClone (g : Ir) (parent : Subgraph) (src : OpId) : Ir × Subgraph × OpId :=
  let (g, parent, o) := emplaceOp g parent
  (cloneOpTo g src o, parent, o)

/-- `IsConstant`, less its `ABSL_DCHECK`. The layout of an unranked tensor is read
like that of a ranked one. -/
def isConstant (t : Tensor) : Bool :=
  let isZeroSized := t.type.layout.dimensions.length = 1 ∧ t.type.layout.dimensions.head? = some 0
  0 < t.weights.buffer.length ∨ isZeroSized

/-! ## What the allocations change -/

theorem emplaceTensor_spec (g : Ir) (sg : Subgraph) : ∃ g' m, emplaceTensor g sg =
      (g', { sg with tensors := sg.tensors ++ [g.alloc.nextTensor] }, g.alloc.nextTensor) ∧
    (∀ t, g'.tensor t = if t = g.alloc.nextTensor then { weights := { bufferManager := m } }
      else g.tensor t) ∧
    g'.op = g.op ∧ g'.alloc.nextTensor = g.alloc.nextTensor + 1 ∧
    g'.alloc.nextOp = g.alloc.nextOp := by
  refine ⟨(newTensor g sg.bufferManager).1, sg.bufferManager.getD g.alloc.nextManager, ?_⟩
  unfold emplaceTensor newTensor
  cases sg.bufferManager <;> exact ⟨rfl, fun _ => rfl, rfl, rfl, rfl⟩

theorem emplaceOpAt_spec (g : Ir) (sg : Subgraph) (index : Nat) : ∃ g', emplaceOpAt g sg index =
      (g', { sg with ops := sg.ops.insertIdx index g.alloc.nextOp }, g.alloc.nextOp) ∧
    (∀ o, g'.op o = if o = g.alloc.nextOp then {} else g.op o) ∧
    g'.tensor = g.tensor ∧ g'.alloc.nextTensor = g.alloc.nextTensor ∧
    g'.alloc.nextOp = g.alloc.nextOp + 1 :=
  ⟨_, rfl, fun _ => rfl, rfl, rfl, rfl⟩

theorem emplaceOp_spec (g : Ir) (sg : Subgraph) : ∃ g',
    emplaceOp g sg = (g', { sg with ops := sg.ops ++ [g.alloc.nextOp] }, g.alloc.nextOp) ∧
    (∀ o, g'.op o = if o = g.alloc.nextOp then {} else g.op o) ∧
    g'.tensor = g.tensor ∧ g'.alloc.nextTensor = g.alloc.nextTensor ∧
    g'.alloc.nextOp = g.alloc.nextOp + 1 := by
  obtain ⟨g', he, h⟩ := emplaceOpAt_spec g sg sg.ops.length
  rw [List.insertIdx_length_self] at he
  exact ⟨g', he, h⟩

/-- What the clone of a tensor has in common with it. -/
structure Tensor.SameData (t t' : Tensor) : Prop where
  buffer : t'.weights.buffer = t.weights.buffer
  type : t'.type = t.type
  qparams : t'.qparams = t.qparams

theorem Tensor.SameData.symm {t t' : Tensor} (h : t.SameData t') : t'.SameData t :=
  ⟨h.buffer.symm, h.type.symm, h.qparams.symm⟩

theorem Tensor.SameData.trans {t t' t'' : Tensor} (h : t.SameData t') (h' : t'.SameData t'') :
    t.SameData t'' :=
  ⟨h'.buffer.trans h.buffer, h'.type.trans h.type, h'.qparams.trans h.qparams⟩

/-- `CloneTo` changes the data of `dest` and no edges. -/
theorem cloneTensorTo_spec (g : Ir) (src dest : TensorId) : ∃ x nb, cloneTensorTo g src dest =
      { tensor := fun t => if t = dest then x else g.tensor t
        op := g.op
        alloc := { g.alloc with numBuffers := nb } } ∧
    x.users = (g.tensor dest).users ∧ x.definingOp = (g.tensor dest).definingOp ∧
    x.definingOpOutInd = (g.tensor dest).definingOpOutInd ∧ (g.tensor src).SameData x := by
  refine ⟨(cloneTensorTo g src dest).tensor dest, (cloneTensorTo g src dest).alloc.numBuffers, ?_⟩
  unfold cloneTensorTo setWeightsFromOwnedBuffer
  simp only
  split
  all_goals
    refine ⟨Ir.ext' (fun t => ?_) (fun _ => rfl) rfl, ?_, ?_, ?_, ?_, ?_, ?_⟩
    · simp only [Ir.tensor_modifyTensor]
      by_cases ht : t = dest
      · simp [ht]
      · simp [ht]
    all_goals simp

theorem makeTensorClone_spec (sg : Subgraph) {src : TensorId} (hsrc : src < g.alloc.nextTensor) :
    ∃ g',
    makeTensorClone g sg src =
      (g', { sg with tensors := sg.tensors ++ [g.alloc.nextTensor] }, g.alloc.nextTensor) ∧
    (∀ t, t ≠ g.alloc.nextTensor → g'.tensor t = g.tensor t) ∧
    ((g'.tensor g.alloc.nextTensor).users = [] ∧ (g'.tensor g.alloc.nextTensor).definingOp = none ∧
      (g.tensor src).SameData (g'.tensor g.alloc.nextTensor)) ∧
    g'.op = g.op ∧ g'.alloc.nextTensor = g.alloc.nextTensor + 1 ∧
    g'.alloc.nextOp = g.alloc.nextOp := by
  obtain ⟨g₁, m, he, hT, hO, hnt, hno⟩ := emplaceTensor_spec g sg
  obtain ⟨x, nb, hclone, husers, hdef, -, hdata⟩ :=
    cloneTensorTo_spec g₁ src g.alloc.nextTensor
  rw [hT, if_pos rfl] at husers hdef
  rw [hT, if_neg (Nat.ne_of_lt hsrc)] at hdata
  refine ⟨cloneTensorTo g₁ src g.alloc.nextTensor, by rw [makeTensorClone, he], fun t ht => ?_,
    ?_, ?_, ?_, ?_⟩
  · rw [hclone]
    simp only [ht, ↓reduceIte, hT]
  · rw [hclone]
    simp only [↓reduceIte]
    exact ⟨husers, hdef, hdata⟩
  · rw [hclone]
    exact hO
  · rw [hclone]
    exact hnt
  · rw [hclone]
    exact hno

theorem makeOpClone_spec (sg : Subgraph) {src : OpId} (hsrc : src < g.alloc.nextOp) :
    ∃ g', makeOpClone g sg src =
      (g', { sg with ops := sg.ops ++ [g.alloc.nextOp] }, g.alloc.nextOp) ∧
    (∀ o, g'.op o = if o = g.alloc.nextOp then { attrs := (g.op src).attrs } else g.op o) ∧
    g'.tensor = g.tensor ∧ g'.alloc.nextTensor = g.alloc.nextTensor ∧
    g'.alloc.nextOp = g.alloc.nextOp + 1 := by
  obtain ⟨g₁, he, hO, hT, hnt, hno⟩ := emplaceOp_spec g sg
  refine ⟨cloneOpTo g₁ src g.alloc.nextOp, by rw [makeOpClone, he], fun o => ?_, hT, hnt, hno⟩
  rw [cloneOpTo, Ir.op_modifyOp, hO, hO, if_neg (Nat.ne_of_lt hsrc)]
  split <;> rfl

/-!
## Subgraphs and dead code

A well-formed subgraph owns both ends of all its edges. `DCE` looks at the
back pointers of a tensor only, so it keeps a subgraph well-formed when those
back pointers are right.
-/

open LiteRt.Lib

def isOpDead (op : Op) : Bool := op.inputs.isEmpty && op.outputs.isEmpty

def isTensorDead (t : Tensor) : Bool := t.definingOp.isNone && t.users.isEmpty

def isIo (sg : Subgraph) (t : TensorId) : Bool := t ∈ sg.inputs ∨ t ∈ sg.outputs

def dce (g : Ir) (sg : Subgraph) : Subgraph :=
  let sg := { sg with ops := sg.ops.filter fun o => !isOpDead (g.op o) }
  { sg with tensors := sg.tensors.filter fun t => !(isTensorDead (g.tensor t) && !isIo sg t) }

/-- A subgraph owns what its edges connect, and the edges agree on both sides. -/
structure Subgraph.WellFormed (g : Ir) (sg : Subgraph) : Prop where
  ops_nodup : sg.ops.Nodup
  tensors_nodup : sg.tensors.Nodup
  edges : ∀ o ∈ sg.ops, g.WellFormedAt o
  operands : ∀ o ∈ sg.ops, ∀ t ∈ (g.op o).inputs, t ∈ sg.tensors
  results : ∀ o ∈ sg.ops, ∀ t ∈ (g.op o).outputs, t ∈ sg.tensors
  users : ∀ t ∈ sg.tensors, ∀ u ∈ (g.tensor t).users, u.1 ∈ sg.ops
  definers : ∀ t ∈ sg.tensors, ∀ o, (g.tensor t).definingOp = some o → o ∈ sg.ops
  ios : ∀ t, t ∈ sg.inputs ∨ t ∈ sg.outputs → t ∈ sg.tensors

/-- `o` reads a result of `o'`. -/
def Ir.DependsOn (g : Ir) (o o' : OpId) : Prop :=
  ∃ t ∈ (g.op o).inputs, (g.tensor t).definingOp = some o'

instance (g : Ir) (o o' : OpId) : Decidable (g.DependsOn o o') :=
  inferInstanceAs (Decidable (∃ t ∈ (g.op o).inputs, (g.tensor t).definingOp = some o'))

/-- An op list in topological order. -/
abbrev Ir.TopoOrder (g : Ir) (ops : List OpId) : Prop := Topological g.DependsOn ops

theorem isOpDead_iff {op : Op} : isOpDead op = true ↔ op.inputs = [] ∧ op.outputs = [] := by
  simp [isOpDead]

theorem isTensorDead_iff {t : Tensor} :
    isTensorDead t = true ↔ t.definingOp = none ∧ t.users = [] := by
  simp [isTensorDead]

@[simp] theorem mem_ops_dce {o : OpId} :
    o ∈ (dce g sg).ops ↔ o ∈ sg.ops ∧ ¬ isOpDead (g.op o) := by
  simp [dce]

@[simp] theorem mem_tensors_dce {t : TensorId} :
    t ∈ (dce g sg).tensors ↔ t ∈ sg.tensors ∧
      (isTensorDead (g.tensor t) → t ∈ sg.inputs ∨ t ∈ sg.outputs) := by
  simp only [dce, isIo, List.mem_filter]
  cases isTensorDead (g.tensor t) <;> simp

@[simp] theorem inputs_dce (g : Ir) (sg : Subgraph) : (dce g sg).inputs = sg.inputs := rfl

@[simp] theorem outputs_dce (g : Ir) (sg : Subgraph) : (dce g sg).outputs = sg.outputs := rfl

/-- Ops and tensors without edges can go. -/
theorem Subgraph.WellFormed.restrict {sg sg' : Subgraph} (h : sg.WellFormed g)
    (ho : sg'.ops.Sublist sg.ops) (ht : sg'.tensors.Sublist sg.tensors)
    (hin : sg'.inputs = sg.inputs) (hout : sg'.outputs = sg.outputs)
    (hops : ∀ o ∈ sg.ops, ¬ isOpDead (g.op o) → o ∈ sg'.ops)
    (htensors : ∀ t ∈ sg.tensors, (isTensorDead (g.tensor t) → t ∈ sg.inputs ∨ t ∈ sg.outputs) →
      t ∈ sg'.tensors) :
    sg'.WellFormed g where
  ops_nodup := h.ops_nodup.sublist ho
  tensors_nodup := h.tensors_nodup.sublist ht
  edges o hm := h.edges o (ho.subset hm)
  operands o hm t htm := by
    refine htensors t (h.operands o (ho.subset hm) t htm) fun hd => ?_
    obtain ⟨i, hi⟩ := (h.edges o (ho.subset hm)).mem_inputs_iff.mp htm
    simp [(isTensorDead_iff.mp hd).2] at hi
  results o hm t htm := by
    refine htensors t (h.results o (ho.subset hm) t htm) fun hd => ?_
    have := (h.edges o (ho.subset hm)).mem_outputs_iff.mp htm
    simp [(isTensorDead_iff.mp hd).1] at this
  users t htm u hu := by
    have hm := h.users t (ht.subset htm) u hu
    refine hops u.1 hm fun hd => ?_
    have := (h.edges u.1 hm).mem_inputs_iff.mpr ⟨u.2, hu⟩
    simp [(isOpDead_iff.mp hd).1] at this
  definers t htm o hd := by
    have hm := h.definers t (ht.subset htm) o hd
    refine hops o hm fun hdead => ?_
    have := (h.edges o hm).mem_outputs_iff.mpr hd
    simp [(isOpDead_iff.mp hdead).2] at this
  ios t hio := by
    rw [hin, hout] at hio
    exact htensors t (h.ios t hio) fun _ => hio

/-- `DCE` keeps a subgraph well-formed. -/
theorem Subgraph.WellFormed.dce (h : sg.WellFormed g) :
    (dce g sg).WellFormed g :=
  h.restrict List.filter_sublist List.filter_sublist rfl rfl
    (fun _ ho hd => mem_ops_dce.mpr ⟨ho, hd⟩) fun _ ht hd => mem_tensors_dce.mpr ⟨ht, hd⟩

end LiteRt.Model
