import LiteRt.Lib.Words
import LiteRt.Tflite.Invoke

/-!
# Setting a read-only tensor again

Where the type and the dimensions stay, `SetTensorParametersReadOnly` writes the fields one by
one instead of resetting the tensor, and the graph stays invokable. It leaves out the size in
bytes, the name, the variable flag and the signature of the dimensions.
-/

namespace LiteRt.Tflite.ReadOnly

/-- An address that is not null. -/
abbrev Pointer := Nat

structure AffineQuantization where
  scale : Option (List UInt32)
  zeroPoint : Option (List Int)
  quantizedDimension : Int
  deriving DecidableEq

structure BlockwiseQuantization where
  scale : Int
  zeroPoint : Int
  blocksize : Int
  quantizedDimension : Int
  deriving DecidableEq

inductive Quantization where
  | noQuantization
  | affine (params : Option AffineQuantization)
  | blockwise (params : BlockwiseQuantization)
  deriving DecidableEq

/-- The legacy parameters; the scale is the bit pattern of a `float`. -/
structure QuantizationParams where
  scale : UInt32
  zeroPoint : Int
  deriving DecidableEq

structure Tensor where
  type : TfLiteType
  name : Option Pointer
  dims : Option (List Int)
  params : QuantizationParams
  data : Option Pointer
  bytes : Nat
  allocationType : TfLiteAllocationType
  allocation : Option Pointer
  isVariable : Bool
  quantization : Quantization
  sparsity : Option Pointer
  dimsSignature : Option (List Int)
  deriving DecidableEq

structure Arguments where
  tensorIndex : Int
  type : TfLiteType
  name : Option Pointer
  dims : List Int
  quantization : Quantization
  buffer : Option Pointer
  bytes : Nat
  allocation : Option Pointer
  sparsity : Option Pointer
  bufferIdentifier : Nat
  externalBufferId : Nat

structure Subgraph where
  state : State
  tensors : List Tensor
  tensorBufferIdentifiers : Nat → Option Nat
  tensorExternalBufferIds : Nat → Option Nat

inductive SetError where
  | immutable
  | tensorIndex
  | bytesRequired
  | bytes

def kTfLiteNoBufferIdentifier : Nat := 2 ^ 64 - 1

def getLegacyQuantization (quantization : Quantization) : QuantizationParams :=
  match quantization with
  | .affine (some ⟨some [scale], some zeroPoint, _⟩) => ⟨scale, zeroPoint.headD 0⟩
  | _ => ⟨0, 0⟩

/-- A length passed as an `int`. -/
def intLength (dims : List Int) : Int := Lib.signed32 (dims.length % 4294967296)

def convertArrayToTfLiteIntArray (dims : List Int) : List Int := dims.take (intLength dims).toNat

def equalArrayAndTfLiteIntArray (a : Option (List Int)) (b : List Int) : Bool :=
  match a with
  | none => false
  | some a => decide ((a.length : Int) = intLength b) && a == b.take a.length

def Tensor.dataFree (t : Tensor) : Tensor := { t with data := none }

def Tensor.quantizationFree (t : Tensor) : Tensor := { t with quantization := .noQuantization }

def Tensor.free (t : Tensor) : Tensor :=
  { t.dataFree.quantizationFree with
    dims := none
    dimsSignature := none
    sparsity := none }

/-- `TfLiteTensorReset` with the arguments of the slow path. -/
def Tensor.reset (t : Tensor) (a : Arguments) : Tensor :=
  { t.free with
    type := a.type
    name := a.name
    dims := some (convertArrayToTfLiteIntArray a.dims)
    params := getLegacyQuantization a.quantization
    data := a.buffer
    bytes := a.bytes
    allocationType := .mmapRo
    allocation := a.allocation
    isVariable := false
    quantization := .noQuantization }

/-- The fast path on the tensor. -/
def Tensor.update (t : Tensor) (a : Arguments) : Tensor :=
  let t := t.dataFree.quantizationFree
  { t with
    data := a.buffer
    dims := if t.dims.isNone then some (convertArrayToTfLiteIntArray a.dims) else t.dims
    params := getLegacyQuantization a.quantization
    quantization := a.quantization
    sparsity := a.sparsity
    allocationType := .mmapRo
    allocation := a.allocation }

/-- The slow path on the tensor. -/
def Tensor.replace (t : Tensor) (a : Arguments) : Tensor :=
  { t.reset a with
    quantization := a.quantization
    sparsity := a.sparsity }

def Arguments.hasExternalBuffer (a : Arguments) : Bool :=
  a.externalBufferId != 0 && a.externalBufferId != kTfLiteNoBufferIdentifier

/-- What is checked before the tensor is looked at. -/
def Arguments.check (a : Arguments) (s : Subgraph) : Except SetError Tensor :=
  if s.state = .invokableAndImmutable then .error .immutable
  else if a.tensorIndex < 0 then .error .tensorIndex
  else
    match s.tensors[a.tensorIndex.toNat]? with
    | none => .error .tensorIndex
    | some t =>
      if a.type.hasByteSize && a.sparsity.isNone && !a.hasExternalBuffer then
        match bytesRequired a.type a.dims with
        | (false, _) => .error .bytesRequired
        | (true, requiredBytes) => if requiredBytes ≤ a.bytes then .ok t else .error .bytes
      else .ok t

/-- The tensor is entered, and the identifiers that are given. -/
def Subgraph.enter (s : Subgraph) (a : Arguments) (t : Tensor) : Subgraph :=
  let i := a.tensorIndex.toNat
  { s with
    tensors := s.tensors.set i t
    tensorBufferIdentifiers :=
      if a.bufferIdentifier ≠ kTfLiteNoBufferIdentifier then
        Function.update s.tensorBufferIdentifiers i (some a.bufferIdentifier)
      else s.tensorBufferIdentifiers
    tensorExternalBufferIds :=
      if a.hasExternalBuffer then
        Function.update s.tensorExternalBufferIds i (some a.externalBufferId)
      else s.tensorExternalBufferIds }

def Arguments.takesFastPath (a : Arguments) (t : Tensor) : Bool :=
  a.type == t.type && equalArrayAndTfLiteIntArray t.dims a.dims

def setTensorParametersReadOnly (s : Subgraph) (a : Arguments) : Except SetError Subgraph :=
  match a.check s with
  | .error e => .error e
  | .ok t =>
    if a.takesFastPath t then .ok (s.enter a (t.update a))
    else .ok ({ s with state := .uninvokable }.enter a (t.replace a))

/-- What the function would do had it only the slow path. -/
def setByReset (s : Subgraph) (a : Arguments) : Except SetError Subgraph :=
  match a.check s with
  | .error e => .error e
  | .ok t => .ok ({ s with state := .uninvokable }.enter a (t.replace a))

/-- Two subgraphs agree on the parameters of a tensor. -/
def SameParameters (i : Nat) (s r : Subgraph) : Prop :=
  ∃ t u, s.tensors[i]? = some t ∧ r.tensors[i]? = some u ∧
    t.type = u.type ∧ t.dims = u.dims ∧ t.data = u.data ∧ t.bytes = u.bytes ∧
    t.params = u.params ∧ t.quantization = u.quantization ∧ t.sparsity = u.sparsity ∧
    t.isVariable = u.isVariable ∧ t.dimsSignature = u.dimsSignature ∧
    s.tensorExternalBufferIds i = r.tensorExternalBufferIds i

/-- The fields the fast path leaves alone are those of a tensor that was reset. -/
structure AsReset (t : Tensor) (a : Arguments) : Prop where
  bytes : t.bytes = a.bytes
  isVariable : t.isVariable = false
  dimsSignature : t.dimsSignature = none

/-- Dimensions that compare equal are those the slow path makes. -/
theorem dims_of_equalArray {dims : Option (List Int)} {b : List Int}
    (h : equalArrayAndTfLiteIntArray dims b = true) :
    dims = some (convertArrayToTfLiteIntArray b) := by
  cases dims with
  | none => exact absurd h Bool.false_ne_true
  | some a =>
    unfold equalArrayAndTfLiteIntArray at h
    dsimp only at h
    rw [Bool.and_eq_true, decide_eq_true_eq, beq_iff_eq] at h
    unfold convertArrayToTfLiteIntArray
    rw [← h.1, Int.toNat_natCast, ← h.2]

/-- On the fast path the tensor keeps its type and its dimensions. -/
theorem update_eq {t : Tensor} {a : Arguments} (hfast : a.takesFastPath t = true) :
    t.update a =
      { t.replace a with
        bytes := t.bytes
        name := t.name
        isVariable := t.isVariable
        dimsSignature := t.dimsSignature } := by
  unfold Arguments.takesFastPath at hfast
  rw [Bool.and_eq_true, beq_iff_eq] at hfast
  have hdims := dims_of_equalArray hfast.2
  unfold Tensor.update Tensor.replace Tensor.reset Tensor.free Tensor.quantizationFree
    Tensor.dataFree
  dsimp only
  rw [hdims, hfast.1]
  rfl

theorem check_tensor {s : Subgraph} {a : Arguments} {t : Tensor} (h : a.check s = .ok t) :
    s.tensors[a.tensorIndex.toNat]? = some t := by
  unfold Arguments.check at h
  split at h
  · cases h
  · split at h
    · cases h
    · split at h
      · cases h
      · next u hu =>
        rw [hu]
        split at h
        · split at h
          · cases h
          · split at h
            · cases h
              rfl
            · cases h
        · cases h
          rfl

theorem enter_tensor {s : Subgraph} {a : Arguments} {t u : Tensor}
    (ht : s.tensors[a.tensorIndex.toNat]? = some t) :
    (s.enter a u).tensors[a.tensorIndex.toNat]? = some u := by
  have hlt := (List.getElem?_eq_some_iff.1 ht).1
  show (s.tensors.set a.tensorIndex.toNat u)[a.tensorIndex.toNat]? = some u
  rw [List.getElem?_set_self hlt]

/-- The parameters of the two paths, and the rest of the subgraphs, in terms of the tensors
entered. -/
theorem sameParameters_enter {s : Subgraph} {a : Arguments} {t u v : Tensor} {state : State}
    (ht : s.tensors[a.tensorIndex.toNat]? = some t) :
    SameParameters a.tensorIndex.toNat (s.enter a u) ({ s with state }.enter a v) ↔
      u.type = v.type ∧ u.dims = v.dims ∧ u.data = v.data ∧ u.bytes = v.bytes ∧
        u.params = v.params ∧ u.quantization = v.quantization ∧ u.sparsity = v.sparsity ∧
        u.isVariable = v.isVariable ∧ u.dimsSignature = v.dimsSignature := by
  have hu := @enter_tensor s a t u ht
  have hv := @enter_tensor { s with state } a t v ht
  constructor
  · rintro ⟨u', v', hu', hv', h1, h2, h3, h4, h5, h6, h7, h8, h9, -⟩
    cases hu.symm.trans hu'
    cases hv.symm.trans hv'
    exact ⟨h1, h2, h3, h4, h5, h6, h7, h8, h9⟩
  · rintro ⟨h1, h2, h3, h4, h5, h6, h7, h8, h9⟩
    exact ⟨u, v, hu, hv, h1, h2, h3, h4, h5, h6, h7, h8, h9, rfl⟩

/-- An accepted call leaves the parameters that a reset would leave, unless it takes the fast
path to a tensor of another size, to a variable or to one with a signature; and nothing but the
state of the graph differs if the name is the same too. -/
theorem setTensorParametersReadOnly_asReset_iff (s s' : Subgraph) (a : Arguments) (t : Tensor)
    (hok : setTensorParametersReadOnly s a = .ok s')
    (ht : s.tensors[a.tensorIndex.toNat]? = some t) :
    ∃ r, setByReset s a = .ok r ∧
      (SameParameters a.tensorIndex.toNat s' r ↔ (a.takesFastPath t = true → AsReset t a)) ∧
      ({ s' with state := r.state } = r ↔
        (a.takesFastPath t = true → AsReset t a ∧ t.name = a.name)) := by
  unfold setTensorParametersReadOnly at hok
  unfold setByReset
  cases hcheck : a.check s with
  | error e =>
    rw [hcheck] at hok
    cases hok
  | ok u =>
    cases ht.symm.trans (check_tensor hcheck)
    rw [hcheck] at hok
    dsimp only at hok
    refine ⟨_, rfl, ?_⟩
    by_cases hfast : a.takesFastPath t = true
    · rw [if_pos hfast] at hok
      cases hok
      rw [sameParameters_enter ht, update_eq hfast]
      constructor
      · constructor
        · rintro ⟨-, -, -, hbytes, -, -, -, hvar, hsig⟩ -
          exact ⟨hbytes, hvar, hsig⟩
        · intro h
          have hr := h hfast
          exact ⟨rfl, rfl, rfl, hr.bytes, rfl, rfl, rfl, hr.isVariable, hr.dimsSignature⟩
      · constructor
        · intro heq _
          have htensor := congrArg (fun s : Subgraph => s.tensors[a.tensorIndex.toNat]?) heq
          have hu := (enter_tensor ht).symm.trans
            (htensor.trans (@enter_tensor { s with state := .uninvokable } a t _ ht))
          rw [Option.some_inj] at hu
          exact ⟨⟨congrArg Tensor.bytes hu, congrArg Tensor.isVariable hu,
            congrArg Tensor.dimsSignature hu⟩, congrArg Tensor.name hu⟩
        · intro h
          obtain ⟨hr, hname⟩ := h hfast
          rw [hr.bytes, hr.isVariable, hr.dimsSignature, hname]
          rfl
    · rw [if_neg hfast] at hok
      cases hok
      refine ⟨iff_of_true ?_ (fun h => absurd h hfast), iff_of_true rfl fun h => absurd h hfast⟩
      have hv := @enter_tensor { s with state := .uninvokable } a t (t.replace a) ht
      exact ⟨_, _, hv, hv, rfl, rfl, rfl, rfl, rfl, rfl, rfl, rfl, rfl, rfl⟩

/-- A tensor of two `int8` elements that has read-only data. -/
def twoBytes : Tensor where
  type := .int8
  name := none
  dims := some [2]
  params := ⟨0, 0⟩
  data := some 16
  bytes := 2
  allocationType := .mmapRo
  allocation := none
  isVariable := false
  quantization := .noQuantization
  sparsity := none
  dimsSignature := none

def twoBytesGraph : Subgraph where
  state := .uninvokable
  tensors := [twoBytes]
  tensorBufferIdentifiers _ := none
  tensorExternalBufferIds _ := none

def newData (bytes : Nat) : Arguments where
  tensorIndex := 0
  type := .int8
  name := none
  dims := [2]
  quantization := .noQuantization
  buffer := some 32
  bytes := bytes
  allocation := none
  sparsity := none
  bufferIdentifier := kTfLiteNoBufferIdentifier
  externalBufferId := kTfLiteNoBufferIdentifier

theorem setTensorParametersReadOnly_twoBytes :
    ∃ s' r, setTensorParametersReadOnly twoBytesGraph (newData 2) = .ok s' ∧
      setByReset twoBytesGraph (newData 2) = .ok r ∧ SameParameters 0 s' r := by
  have hok : setTensorParametersReadOnly twoBytesGraph (newData 2) =
      .ok (twoBytesGraph.enter (newData 2) (twoBytes.update (newData 2))) := rfl
  obtain ⟨r, hr, hsame, -⟩ := setTensorParametersReadOnly_asReset_iff twoBytesGraph _ (newData 2)
    twoBytes hok rfl
  exact ⟨_, r, hok, hr, hsame.2 fun _ => ⟨rfl, rfl, rfl⟩⟩

/-- A buffer of three bytes leaves the tensor with two. -/
theorem setTensorParametersReadOnly_keeps_bytes :
    ¬∀ (s s' r : Subgraph) (a : Arguments), setTensorParametersReadOnly s a = .ok s' →
      setByReset s a = .ok r → SameParameters a.tensorIndex.toNat s' r := by
  intro h
  obtain ⟨t, u, ht, hu, -, -, -, hbytes, -⟩ := h twoBytesGraph _ _ (newData 3) rfl rfl
  cases ht
  cases hu
  exact absurd hbytes (by decide)

end LiteRt.Tflite.ReadOnly
