import Mathlib.Data.List.Basic
import Mathlib.Logic.Function.Iterate

/-!
# The LiteRT graph IR

Ops and tensors are IR objects at stable addresses (`OpId`, `TensorId`); the
store `Ir` maps an address to the object. A tensor keeps the records of its
users (`Users()` and `UserArgInds()`, one list of pairs here, since every
mutator changes both vectors together) and its defining op. A subgraph owns
lists of addresses in order.

A weights handle carries the bytes its buffer manager returns for it. A buffer
never changes once registered, so the handle's bytes are those of the buffer;
of a manager only the number of registered buffers is state.
-/

namespace LiteRt.Model

variable {o : OpId} {ind : Nat} {u : OpId × Nat} {users : List (OpId × Nat)} {g : Ir}

/-- Address of a `LiteRtTensorT`. -/
abbrev TensorId := Nat

/-- Address of a `LiteRtOpT`. -/
abbrev OpId := Nat

/-- Address of a `BufferManager`. -/
abbrev ManagerId := Nat

/-- `LiteRtElementType`. -/
inductive ElementType where
  | none | bool | int2 | int4 | int8 | int16 | int32 | int64
  | uint8 | uint16 | uint32 | uint64
  | float16 | bfloat16 | float32 | float64
  | complex64 | complex128
  | tfResource | tfString | tfVariant
  deriving DecidableEq, Repr

/-- `LiteRtTensorTypeId`. -/
inductive TensorTypeId where
  | ranked
  | unranked
  deriving DecidableEq, Repr

/-- `LiteRtLayout`: `rank` is the number of dimensions, absent strides are
`has_strides = false`. -/
structure Layout where
  dimensions : List Int := []
  strides : Option (List Nat) := none
  deriving DecidableEq, Repr

/-- `TensorType`: the type id and the union's memory. -/
structure TensorType where
  id : TensorTypeId := .ranked
  elementType : ElementType := .none
  layout : Layout := {}
  deriving DecidableEq, Repr

/-- `Quantization`, scales as the bit patterns of the floats. -/
inductive Quantization where
  | none
  | perTensor (scale : UInt32) (zeroPoint : Int)
  | perChannel (scales : List UInt32) (zeroPoints : List Int) (quantizedDimension : Int)
  deriving DecidableEq, Repr

/-- `LiteRtWeightsT`: the buffer's manager, its id there, and its bytes. -/
structure Weights where
  bufferManager : ManagerId := 0
  bufferId : Nat := 0
  buffer : List UInt8 := []
  deriving DecidableEq, Repr

/-- `LiteRtTensorT`. -/
structure Tensor where
  users : List (OpId × Nat) := []
  definingOp : Option OpId := none
  definingOpOutInd : Nat := 0
  weights : Weights := {}
  qparams : Quantization := .none
  type : TensorType := {}
  name : String := ""
  tensorIndex : Nat := 0
  deriving DecidableEq, Repr

/-- `TflOptions2`: the composite options are read, the other ones are carried. -/
inductive TflOptions2 where
  | none
  | stableHLOComposite (name : String) (decompositionSubgraphIndex : Int)
      (compositeAttributes : List UInt8) (version : Int)
  | other (payload : List UInt8)
  deriving DecidableEq, Repr

/-- The fields of a `LiteRtOpT` that say what it computes: those `CloneTo` copies.
The custom code of an op is looked up through `tflOpCodeInd`. -/
structure OpAttrs where
  opCode : Nat := 0
  customOptions : List UInt8 := []
  tflOpCodeInd : Int := -1
  tflOptions : List UInt8 := []
  tflOptions2 : TflOptions2 := .none
  deriving DecidableEq, Repr

/-- `LiteRtOpT`. -/
structure Op where
  inputs : List TensorId := []
  outputs : List TensorId := []
  attrs : OpAttrs := {}
  customCode : String := ""
  opIndex : Nat := 0
  deriving DecidableEq, Repr

/-- The allocation state: addresses from `nextTensor`, `nextOp` and `nextManager`
on are free, and `NumBuffers()` of each buffer manager. -/
structure Alloc where
  nextTensor : TensorId := 0
  nextOp : OpId := 0
  nextManager : ManagerId := 0
  numBuffers : ManagerId → Nat := fun _ => 1

/-- The IR objects by address. -/
structure Ir where
  tensor : TensorId → Tensor
  op : OpId → Op
  alloc : Alloc

/-- `LiteRtSubgraphT`; without a buffer manager, tensors get one each. -/
structure Subgraph where
  tensors : List TensorId := []
  ops : List OpId := []
  inputs : List TensorId := []
  outputs : List TensorId := []
  bufferManager : Option ManagerId := none
  deriving DecidableEq, Repr

namespace Ir

theorem ext' {g h : Ir} (ht : ∀ t, g.tensor t = h.tensor t) (ho : ∀ o, g.op o = h.op o)
    (ha : g.alloc = h.alloc) : g = h := by
  obtain ⟨_, _, _⟩ := g
  obtain ⟨_, _, _⟩ := h
  simp only [mk.injEq]
  exact ⟨funext ht, funext ho, ha⟩

def modifyTensor (g : Ir) (t : TensorId) (f : Tensor → Tensor) : Ir :=
  { g with tensor := fun t' => if t' = t then f (g.tensor t') else g.tensor t' }

def modifyOp (g : Ir) (o : OpId) (f : Op → Op) : Ir :=
  { g with op := fun o' => if o' = o then f (g.op o') else g.op o' }

section
variable (g : Ir) (t t' : TensorId) (o o' : OpId) (f : Tensor → Tensor) (k : Op → Op)

theorem tensor_modifyTensor :
    (g.modifyTensor t f).tensor t' = if t' = t then f (g.tensor t') else g.tensor t' := rfl

@[simp] theorem tensor_modifyTensor_self : (g.modifyTensor t f).tensor t = f (g.tensor t) := by
  simp [modifyTensor]

@[simp] theorem op_modifyTensor : (g.modifyTensor t f).op = g.op := rfl

theorem op_modifyOp : (g.modifyOp o k).op o' = if o' = o then k (g.op o') else g.op o' := rfl

@[simp] theorem op_modifyOp_self : (g.modifyOp o k).op o = k (g.op o) := by simp [modifyOp]

@[simp] theorem tensor_modifyOp : (g.modifyOp o k).tensor = g.tensor := rfl

@[simp] theorem alloc_modifyTensor : (g.modifyTensor t f).alloc = g.alloc := rfl

@[simp] theorem alloc_modifyOp : (g.modifyOp o k).alloc = g.alloc := rfl

variable {g t t' o o' f k}

theorem tensor_modifyTensor_ne (h : t' ≠ t) : (g.modifyTensor t f).tensor t' = g.tensor t' := by
  rw [tensor_modifyTensor, if_neg h]

theorem op_modifyOp_ne (h : o' ≠ o) : (g.modifyOp o k).op o' = g.op o' := by
  rw [op_modifyOp, if_neg h]

end

end Ir

/-!
## Graph mutators

`attachInput`, `attachOutput`, `disconnectInput`, `disconnectOutput` and `drop`
of `model.cc`. A `none` is a failed `ABSL_DCHECK`.
-/

def Tensor.removeUse (t : Tensor) (ind : Nat) : Tensor := { t with users := t.users.eraseIdx ind }

def Tensor.setDefiningOp (t : Tensor) (o : OpId) (outInd : Nat) : Tensor :=
  { t with definingOp := some o, definingOpOutInd := outInd }

def Tensor.clearDefiningOp (t : Tensor) : Tensor :=
  { t with definingOp := none, definingOpOutInd := 0 }

def attachInput (g : Ir) (t : TensorId) (o : OpId) : Ir :=
  let g := g.modifyOp o fun op => { op with inputs := op.inputs ++ [t] }
  g.modifyTensor t fun x => { x with users := x.users ++ [(o, (g.op o).inputs.length - 1)] }

def attachOutput (g : Ir) (t : TensorId) (o : OpId) : Option Ir :=
  if (g.tensor t).definingOp = none then
    let g := g.modifyOp o fun op => { op with outputs := op.outputs ++ [t] }
    some (g.modifyTensor t fun x => x.setDefiningOp o ((g.op o).outputs.length - 1))
  else none

/-- The index of the last use of the operand `ind` of `o`: the search loop of
`DisconnectInput` keeps the last match. -/
def targetUseInd (users : List (OpId × Nat)) (o : OpId) (ind : Nat) : Option Nat :=
  (List.range users.length).foldl
    (fun target i => if users[i]? = some (o, ind) then some i else target) none

/-- A use record of `o` past `ind`, slid to the left. -/
def slideUse (o : OpId) (ind : Nat) (u : OpId × Nat) : OpId × Nat :=
  if u.1 = o ∧ ind < u.2 then (u.1, u.2 - 1) else u

/-- One round of the sliding loop: the uses of the tensor at one later operand. -/
def slideUses (o : OpId) (ind : Nat) (g : Ir) (t : TensorId) : Ir :=
  g.modifyTensor t fun x => { x with users := x.users.map (slideUse o ind) }

/-- `DisconnectInput`, which also returns the disconnected tensor. -/
def disconnectInput (g : Ir) (o : OpId) (inputInd : Nat) : Option (Ir × TensorId) :=
  match (g.op o).inputs[inputInd]? with
  | none => none
  | some input =>
    match targetUseInd (g.tensor input).users o inputInd with
    | none => none
    | some targetUse =>
      let g := ((g.op o).inputs.drop (inputInd + 1)).foldl (slideUses o inputInd) g
      let g := g.modifyTensor input fun x => x.removeUse targetUse
      let g := g.modifyOp o fun op => { op with inputs := op.inputs.eraseIdx inputInd }
      some (g, input)

def disconnectOutput (g : Ir) (o : OpId) (outputInd : Nat) : Option (Ir × TensorId) :=
  match (g.op o).outputs[outputInd]? with
  | none => none
  | some output =>
    let g := g.modifyTensor output Tensor.clearDefiningOp
    let g := g.modifyOp o fun op => { op with outputs := op.outputs.eraseIdx outputInd }
    some (g, output)

/-- The first loop of `Drop`: each round takes the first operand off, so the
number of operands bounds the rounds. -/
def dropInputs (o : OpId) : Nat → Ir → Option Ir
  | 0, g => some g
  | n + 1, g =>
    if (g.op o).inputs = [] then some g
    else (disconnectInput g o 0).bind fun p => dropInputs o n p.1

/-- The second loop of `Drop`. -/
def dropOutputs (o : OpId) : Nat → Ir → Option Ir
  | 0, g => some g
  | n + 1, g =>
    if (g.op o).outputs = [] then some g
    else (disconnectOutput g o 0).bind fun p => dropOutputs o n p.1

def drop (g : Ir) (o : OpId) : Option Ir :=
  (dropInputs o (g.op o).inputs.length g).bind fun g => dropOutputs o (g.op o).outputs.length g

/-! ### Use records -/

theorem targetUseInd_aux :
    ∀ n, (∀ i, (List.range n).foldl
        (fun target i => if users[i]? = some (o, ind) then some i else target) none = some i →
          users[i]? = some (o, ind)) ∧
      ((List.range n).foldl
        (fun target i => if users[i]? = some (o, ind) then some i else target) none = none →
          ∀ i < n, users[i]? ≠ some (o, ind)) := by
  intro n
  induction n with
  | zero => simp
  | succ n ih =>
    rw [List.range_succ, List.foldl_append, List.foldl_cons, List.foldl_nil]
    by_cases h : users[n]? = some (o, ind)
    · simp only [h, ↓reduceIte, Option.some.injEq, reduceCtorEq, false_implies, and_true]
      rintro _ rfl
      exact h
    · simp only [h, ↓reduceIte]
      refine ⟨ih.1, fun hn i hi => ?_⟩
      rcases Nat.lt_succ_iff_lt_or_eq.mp hi with h' | rfl
      · exact ih.2 hn i h'
      · exact h

theorem getElem?_of_targetUseInd {ind i : Nat} (h : targetUseInd users o ind = some i) :
    users[i]? = some (o, ind) :=
  (targetUseInd_aux users.length).1 i h

theorem exists_targetUseInd (h : (o, ind) ∈ users) : ∃ i, targetUseInd users o ind = some i := by
  cases hi : targetUseInd users o ind with
  | some i => exact ⟨i, rfl⟩
  | none =>
    obtain ⟨i, hlt, he⟩ := List.getElem_of_mem h
    exact absurd (by rw [List.getElem?_eq_getElem hlt, he])
      ((targetUseInd_aux users.length).2 hi i hlt)

theorem slideUse_of_ne (h : u.1 ≠ o) :
    slideUse o ind u = u := if_neg fun h' => h h'.1

theorem slideUse_of_le (h : u.2 ≤ ind) :
    slideUse o ind u = u := if_neg fun h' => absurd h'.2 (Nat.not_lt.mpr h)

@[simp] theorem slideUse_fst (o : OpId) (ind : Nat) (u : OpId × Nat) :
    (slideUse o ind u).1 = u.1 := by
  unfold slideUse; split <;> rfl

/-! ### The sliding loop -/

section
variable {o : OpId} {ind : Nat}

@[simp] theorem op_slideUses (g : Ir) (t : TensorId) : (slideUses o ind g t).op = g.op := rfl

theorem op_foldl_slideUses (ts : List TensorId) (g : Ir) :
    (ts.foldl (slideUses o ind) g).op = g.op := by
  induction ts generalizing g with
  | nil => rfl
  | cons t ts ih => rw [List.foldl_cons, ih, op_slideUses]

theorem alloc_foldl_slideUses (ts : List TensorId) (g : Ir) :
    (ts.foldl (slideUses o ind) g).alloc = g.alloc := by
  induction ts generalizing g with
  | nil => rfl
  | cons t ts ih => rw [List.foldl_cons, ih]; rfl

/-- The loop slides the records of a tensor once for each later operand it is. -/
theorem tensor_foldl_slideUses (ts : List TensorId) (g : Ir) (t : TensorId) :
    (ts.foldl (slideUses o ind) g).tensor t =
      { g.tensor t with
        users := (g.tensor t).users.map (slideUse o ind)^[ts.count t] } := by
  induction ts generalizing g with
  | nil => simp
  | cons t' ts ih =>
    rw [List.foldl_cons, ih]
    by_cases h : t = t'
    · subst h
      simp [slideUses, Function.iterate_succ]
    · simp [slideUses, Ir.tensor_modifyTensor, h, Ne.symm h]

end

@[simp] theorem slideUse_iterate_fst (o : OpId) (ind n : Nat) (u : OpId × Nat) :
    ((slideUse o ind)^[n] u).1 = u.1 := by
  induction n with
  | zero => rfl
  | succ n ih => rw [Function.iterate_succ_apply', slideUse_fst, ih]

theorem slideUse_iterate_of_ne (n : Nat) (h : u.1 ≠ o) :
    (slideUse o ind)^[n] u = u := Function.iterate_fixed (slideUse_of_ne h) n

theorem slideUse_iterate_of_le (n : Nat) (h : u.2 ≤ ind) :
    (slideUse o ind)^[n] u = u := Function.iterate_fixed (slideUse_of_le h) n

/-- A record past `ind` slides down to `ind` and stays there. -/
theorem slideUse_iterate_of_lt {ind a : Nat} (n : Nat) (h : ind < a) :
    (slideUse o ind)^[n] (o, a) = (o, max ind (a - n)) := by
  induction n with
  | zero => simp; omega
  | succ n ih =>
    rw [Function.iterate_succ_apply', ih, slideUse]
    by_cases hlt : ind < a - n
    · rw [if_pos ⟨rfl, by simp; omega⟩]
      simp only [Prod.mk.injEq, true_and]
      omega
    · rw [if_neg (by simp; omega)]
      simp only [Prod.mk.injEq, true_and]
      omega

/-! ### One edge at a time -/

section
variable (g : Ir) (t t' : TensorId) (o o' : OpId)

theorem op_attachInput : (attachInput g t o).op o' =
    if o' = o then { g.op o' with inputs := (g.op o').inputs ++ [t] } else g.op o' := rfl

theorem tensor_attachInput : (attachInput g t o).tensor t' =
    if t' = t then
      { g.tensor t' with users := (g.tensor t').users ++ [(o, (g.op o).inputs.length)] }
    else g.tensor t' := by
  simp [attachInput, Ir.tensor_modifyTensor]

@[simp] theorem alloc_attachInput : (attachInput g t o).alloc = g.alloc := rfl

end

/-- Attaching operands one after the other. -/
theorem foldl_attachInput (ts : List TensorId) (o : OpId) (g : Ir) :
    ts.foldl (fun g t => attachInput g t o) g =
      { tensor := fun t => { g.tensor t with users := (g.tensor t).users ++
          ((ts.zipIdx (g.op o).inputs.length).filter fun p => p.1 = t).map fun p => (o, p.2) }
        op := fun o' => if o' = o then { g.op o' with inputs := (g.op o').inputs ++ ts }
          else g.op o'
        alloc := g.alloc } := by
  induction ts generalizing g with
  | nil =>
    refine Ir.ext' (fun t => by simp) (fun o' => ?_) rfl
    simp only [List.foldl_nil, List.append_nil]
    split <;> rfl
  | cons t ts ih =>
    rw [List.foldl_cons, ih]
    refine Ir.ext' (fun t' => ?_) (fun o' => ?_) rfl
    · have hlen : ((attachInput g t o).op o).inputs.length = (g.op o).inputs.length + 1 := by
        simp [op_attachInput]
      simp only [hlen, tensor_attachInput, List.zipIdx_cons]
      by_cases ht : t' = t
      · subst ht
        simp
      · simp [ht, Ne.symm ht]
    · simp only [op_attachInput]
      by_cases ho : o' = o
      · subst ho
        simp
      · simp [ho]

theorem attachOutput_spec {t : TensorId} (o : OpId) (h : (g.tensor t).definingOp = none) :
    ∃ g', attachOutput g t o = some g' ∧ g'.alloc = g.alloc ∧ (∀ t', g'.tensor t' =
        if t' = t then (g.tensor t').setDefiningOp o (g.op o).outputs.length else g.tensor t') ∧
      ∀ o', g'.op o' =
        if o' = o then { g.op o' with outputs := (g.op o').outputs ++ [t] } else g.op o' := by
  refine ⟨_, if_pos h, rfl, fun t' => ?_, fun o' => rfl⟩
  simp [Ir.tensor_modifyTensor]

/-- What `DisconnectInput` does when the operand has its use record. -/
theorem disconnectInput_spec {input : TensorId} (hi : (g.op o).inputs[ind]? = some input)
    (hu : (o, ind) ∈ (g.tensor input).users) :
    ∃ g' u, disconnectInput g o ind = some (g', input) ∧
      (g.tensor input).users[u]? = some (o, ind) ∧ g'.alloc = g.alloc ∧
      (∀ t, g'.tensor t =
        let slid := (g.tensor t).users.map
          (slideUse o ind)^[((g.op o).inputs.drop (ind + 1)).count t]
        { g.tensor t with users := if t = input then slid.eraseIdx u else slid }) ∧
      ∀ o', g'.op o' =
        if o' = o then { g.op o with inputs := (g.op o).inputs.eraseIdx ind } else g.op o' := by
  obtain ⟨u, hu'⟩ := exists_targetUseInd hu
  refine ⟨_, u, by simp only [disconnectInput, hi, hu']; rfl, getElem?_of_targetUseInd hu', ?_,
    fun t => ?_, fun o' => ?_⟩
  · simp [alloc_foldl_slideUses]
  · simp only [Ir.tensor_modifyOp, Ir.tensor_modifyTensor, tensor_foldl_slideUses, Tensor.removeUse]
    split <;> rfl
  · rw [Ir.op_modifyOp]
    simp only [Ir.op_modifyTensor, op_foldl_slideUses]
    split
    · next h => rw [h]
    · rfl

theorem disconnectOutput_spec {output : TensorId} (hi : (g.op o).outputs[ind]? = some output) :
    ∃ g', disconnectOutput g o ind = some (g', output) ∧ g'.alloc = g.alloc ∧ (∀ t, g'.tensor t =
        if t = output then (g.tensor t).clearDefiningOp else g.tensor t) ∧
      ∀ o', g'.op o' =
        if o' = o then { g.op o with outputs := (g.op o).outputs.eraseIdx ind } else g.op o' := by
  refine ⟨_, by simp only [disconnectOutput, hi]; rfl, ?_, fun t => ?_, fun o' => ?_⟩
  · rfl
  · simp only [Ir.tensor_modifyOp, Ir.tensor_modifyTensor]
  · rw [Ir.op_modifyOp]
    simp only [Ir.op_modifyTensor]
    split
    · next h => rw [h]
    · rfl

end LiteRt.Model
