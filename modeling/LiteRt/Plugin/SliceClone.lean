import LiteRt.Model.ApplyChanges
import LiteRt.Model.Eval
import LiteRt.Plugin.Inline

/-!
# Slicing a partition out of a subgraph

`GraphSlicer` of `algo.cc`: the partition is cloned into a new subgraph and one of
its ops becomes a dispatch op in the root. The map from old to new tensors is
walked in insertion order to connect the dispatch op.
-/

namespace LiteRt.Plugin

open LiteRt.Lib LiteRt.Model InsertOrderMap List

/-- `slice_` and `tensor_map_` of a `GraphSlicer`. -/
structure Slicer where
  slice : Subgraph
  tensorMap : TensorMap := []

/-- The loop body over the inputs of the root. -/
def registerInput (used : List TensorId) (p : Ir × Slicer) (oldInput : TensorId) : Ir × Slicer :=
  if oldInput ∈ used then
    let (g, slice, newInput) := makeTensorClone p.1 p.2.slice oldInput
    (g,
      { slice := { slice with inputs := slice.inputs ++ [newInput] }
        tensorMap := p.2.tensorMap.insertOrAssign oldInput newInput })
  else p

/-- The counterpart of an operand, cloned if there is none yet. -/
def lookupOrClone (p : Ir × Slicer) (oldInput : TensorId) : Ir × Slicer × TensorId :=
  match p.2.tensorMap.find? oldInput with
  | some newInput => (p.1, p.2, newInput)
  | none =>
    let (g, slice, newInput) := makeTensorClone p.1 p.2.slice oldInput
    let slice :=
      if isConstant (g.tensor newInput) then slice
      else { slice with inputs := slice.inputs ++ [newInput] }
    (g, { slice := slice, tensorMap := p.2.tensorMap.insertOrAssign oldInput newInput }, newInput)

def cloneInput (newOp : OpId) (p : Ir × Slicer) (oldInput : TensorId) : Ir × Slicer :=
  let (g, s, newInput) := lookupOrClone p oldInput
  (attachInput g newInput newOp, s)

def cloneOutput (newOp : OpId) (p : Ir × Slicer) (oldOutput : TensorId) : Option (Ir × Slicer) :=
  let (g, slice, newOutput) := makeTensorClone p.1 p.2.slice oldOutput
  (attachOutput g newOutput newOp).map fun g =>
    (g, { slice := slice, tensorMap := p.2.tensorMap.insertOrAssign oldOutput newOutput })

def cloneInto (p : Ir × Slicer) (oldOp : OpId) : Option (Ir × Slicer) :=
  let (g, slice, newOp) := makeOpClone p.1 p.2.slice oldOp
  (g.op oldOp).outputs.foldlM (cloneOutput newOp)
    ((g.op oldOp).inputs.foldl (cloneInput newOp) (g, { p.2 with slice := slice }))

def kLiteRtOpCodeTflCustom : Nat := 32

def kDispatchOpCodeTflInd : Int := -1

def makeDispatchOp (g : Ir) (o : OpId) : Ir :=
  g.modifyOp o fun op => { op with
    attrs :=
      { opCode := kLiteRtOpCodeTflCustom
        customOptions := []
        tflOpCodeInd := kDispatchOpCodeTflInd
        tflOptions := []
        tflOptions2 := .none } }

/-- The loop body of `RerouteTensorsThroughCustomOp`. -/
def rerouteTensor (root : Subgraph) (dispatchOp : OpId) (p : Ir × Subgraph)
    (e : TensorId × TensorId) : Option (Ir × Subgraph) :=
  let (g, slice) := p
  let (oldTensor, newTensor) := e
  if (g.tensor newTensor).definingOp = none ∧ !isConstant (g.tensor newTensor) then
    some (attachInput g oldTensor dispatchOp, slice)
  else if ((g.tensor oldTensor).users ≠ [] ∧ !isConstant (g.tensor oldTensor)) ∨
      oldTensor ∈ root.outputs then
    (attachOutput g oldTensor dispatchOp).map fun g =>
      (g, { slice with outputs := slice.outputs ++ [newTensor] })
  else some (g, slice)

/-- What `OutlinePartition` leaves. -/
structure Outlined where
  ir : Ir
  root : Subgraph
  slice : Subgraph
  dispatchOp : OpId

/-- `SlicePartitionFromGraph`, which is `OutlinePartition`; `slice` is a new subgraph.
A `none` is an empty partition or a failed `ABSL_DCHECK`. -/
def outlinePartition (g : Ir) (root slice : Subgraph) (partition : List OpId) :
    Option Outlined := do
  let used := partition.flatMap fun o => (g.op o).inputs
  let (g, s) ← partition.foldlM cloneInto
    (root.inputs.foldl (registerInput used) (g, { slice := slice }))
  let g ← partition.foldlM drop g
  let dispatchOp ← partition.getLast?
  let g := makeDispatchOp g dispatchOp
  let (g, slice) ← s.tensorMap.foldlM (rerouteTensor root dispatchOp) (g, s.slice)
  pure { ir := g, root := dce g root, slice := slice, dispatchOp := dispatchOp }

/-!
## The sliced clones

What holds after each step of registering the inputs and cloning the ops, for ops in
any order. `seen` are the tensors the map knows, `made` those a cloned op defines.
-/

/-- The slicer adds tensors and ops of its own and leaves the old ones alone. -/
structure Slicing (g₀ : Ir) (seen made : TensorId → Prop) (g : Ir) (s : Slicer) : Prop where
  closed : g.Closed
  nextTensor : g₀.alloc.nextTensor ≤ g.alloc.nextTensor
  nextOp : g₀.alloc.nextOp ≤ g.alloc.nextOp
  tensor : ∀ t < g₀.alloc.nextTensor, g.tensor t = g₀.tensor t
  op : ∀ o < g₀.alloc.nextOp, g.op o = g₀.op o
  new_users : ∀ t, g₀.alloc.nextTensor ≤ t → ∀ u ∈ (g.tensor t).users, g₀.alloc.nextOp ≤ u.1
  new_definer : ∀ t, g₀.alloc.nextTensor ≤ t → ∀ o, (g.tensor t).definingOp = some o →
    g₀.alloc.nextOp ≤ o
  keys_nodup : (s.tensorMap.map Prod.fst).Nodup
  keys : ∀ t, t ∈ s.tensorMap.map Prod.fst ↔ seen t
  old : ∀ t, seen t → t < g₀.alloc.nextTensor
  made_seen : ∀ t, made t → seen t
  new : ∀ p ∈ s.tensorMap, g₀.alloc.nextTensor ≤ p.2 ∧ p.2 < g.alloc.nextTensor
  inj : ∀ p ∈ s.tensorMap, ∀ p' ∈ s.tensorMap, p.2 = p'.2 → p.1 = p'.1
  data : ∀ p ∈ s.tensorMap, (g₀.tensor p.1).SameData (g.tensor p.2)
  definer : ∀ p ∈ s.tensorMap, (g.tensor p.2).definingOp = none ↔ ¬ made p.1

section
variable {g₀ g : Ir} {seen made : TensorId → Prop} {s : Slicer} (h : Slicing g₀ seen made g s)
  {o : OpId}

theorem Slicing.init (hc : g₀.Closed) (slice : Subgraph) :
    Slicing g₀ (fun _ => False) (fun _ => False) g₀ { slice := slice } where
  closed := hc
  nextTensor := Nat.le_refl _
  nextOp := Nat.le_refl _
  tensor _ _ := rfl
  op _ _ := rfl
  new_users t ht u hu := by
    rw [(hc.tensor t ht).1] at hu
    cases hu
  new_definer t ht o ho := by
    rw [(hc.tensor t ht).2] at ho
    cases ho
  keys_nodup := .nil
  keys t := by simp
  old _ := False.elim
  made_seen _ := id
  new p hp := by cases hp
  inj p hp := by cases hp
  data p hp := by cases hp
  definer p hp := by cases hp

include h

theorem Slicing.congr {seen' made' : TensorId → Prop} (hs : ∀ t, seen' t ↔ seen t)
    (hm : ∀ t, made' t ↔ made t) : Slicing g₀ seen' made' g s := by
  have h1 : seen' = seen := funext fun t => propext (hs t)
  have h2 : made' = made := funext fun t => propext (hm t)
  rw [h1, h2]
  exact h

/-- A new clone of `t` enters the map. -/
theorem Slicing.insert {t : TensorId} (ht : t < g₀.alloc.nextTensor) (hmade : ¬ made t)
    (sl slice : Subgraph) : ∃ g',
    makeTensorClone g sl t =
      (g', { sl with tensors := sl.tensors ++ [g.alloc.nextTensor] }, g.alloc.nextTensor) ∧
    g'.op = g.op ∧ g'.alloc.nextOp = g.alloc.nextOp ∧
    Slicing g₀ (fun t' => seen t' ∨ t' = t) made g'
      { slice := slice, tensorMap := s.tensorMap.insertOrAssign t g.alloc.nextTensor } := by
  obtain ⟨g', he, hT, ⟨husers, hdef, hdata⟩, hO, hnt, hno⟩ :=
    makeTensorClone_spec sl (Nat.lt_of_lt_of_le ht h.nextTensor)
  refine ⟨g', he, hO, hno, ?_⟩
  set n := g.alloc.nextTensor with hn
  have hne {t' : TensorId} (ht' : t' < g₀.alloc.nextTensor) : t' ≠ n :=
    Nat.ne_of_lt (Nat.lt_of_lt_of_le ht' h.nextTensor)
  -- the edges of every tensor are what they were
  have hedges (t' : TensorId) : (g'.tensor t').users = (g.tensor t').users ∧
      (g'.tensor t').definingOp = (g.tensor t').definingOp := by
    by_cases ht' : t' = n
    · have := h.closed.tensor n (Nat.le_of_eq hn.symm)
      rw [ht']
      exact ⟨husers.trans this.1.symm, hdef.trans this.2.symm⟩
    · rw [hT t' ht']
      exact ⟨rfl, rfl⟩
  have hmem {p : TensorId × TensorId}
      (hp : p ∈ s.tensorMap.insertOrAssign t n) : (p ∈ s.tensorMap ∧ p.1 ≠ t) ∨ p = (t, n) := by
    have hf := find?_of_mem (nodup_keys_insertOrAssign h.keys_nodup t n) hp
    rw [find?_insertOrAssign] at hf
    split at hf
    · next hpt => exact .inr (Prod.ext hpt (Option.some.inj hf).symm)
    · next hpt => exact .inl ⟨mem_of_find? hf, hpt⟩
  constructor
  case closed =>
    have hc := h.closed
    constructor
    · intro t' ht'
      rw [(hedges t').1, (hedges t').2]
      exact hc.tensor t' (Nat.le_of_succ_le (Nat.le_trans (Nat.le_of_eq hnt.symm) ht'))
    · intro o ho
      rw [hO]
      exact hc.op o (hno ▸ ho)
    · intro t' u hu
      rw [(hedges t').1] at hu
      exact hno ▸ hc.user t' u hu
    · intro t' o hd
      rw [(hedges t').2] at hd
      exact hno ▸ hc.definer t' o hd
    · intro o t' ht'
      rw [hO] at ht'
      exact hnt ▸ Nat.lt_succ_of_lt (hc.operand o t' ht')
    · intro o t' ht'
      rw [hO] at ht'
      exact hnt ▸ Nat.lt_succ_of_lt (hc.result o t' ht')
  case nextTensor => exact Nat.le_trans h.nextTensor (hnt ▸ Nat.le_succ n)
  case nextOp => exact hno ▸ h.nextOp
  case tensor =>
    intro t' ht'
    rw [hT t' (hne ht'), h.tensor t' ht']
  case op =>
    intro o ho
    rw [hO, h.op o ho]
  case new_users =>
    intro t' ht' u hu
    rw [(hedges t').1] at hu
    exact h.new_users t' ht' u hu
  case new_definer =>
    intro t' ht' o hd
    rw [(hedges t').2] at hd
    exact h.new_definer t' ht' o hd
  case keys_nodup => exact nodup_keys_insertOrAssign h.keys_nodup t n
  case keys =>
    intro t'
    rw [mem_keys_insertOrAssign, h.keys t', or_comm]
  case old =>
    rintro t' (hs | rfl)
    · exact h.old t' hs
    · exact ht
  case made_seen => exact fun t' hm => .inl (h.made_seen t' hm)
  case new =>
    intro p hp
    rcases hmem hp with ⟨hp, -⟩ | rfl
    · exact ⟨(h.new p hp).1, hnt ▸ Nat.lt_succ_of_lt (h.new p hp).2⟩
    · exact ⟨h.nextTensor, hnt ▸ Nat.lt_succ_self n⟩
  case inj =>
    intro p hp p' hp' he
    rcases hmem hp with ⟨hp, -⟩ | rfl <;> rcases hmem hp' with ⟨hp', -⟩ | rfl
    · exact h.inj p hp p' hp' he
    · exact absurd he (Nat.ne_of_lt (h.new p hp).2)
    · exact absurd he.symm (Nat.ne_of_lt (h.new p' hp').2)
    · rfl
  case data =>
    intro p hp
    rcases hmem hp with ⟨hp, -⟩ | rfl
    · rw [hT p.2 (Nat.ne_of_lt (h.new p hp).2)]
      exact h.data p hp
    · rw [h.tensor t ht] at hdata
      exact hdata
  case definer =>
    intro p hp
    rcases hmem hp with ⟨hp, -⟩ | rfl
    · rw [hT p.2 (Nat.ne_of_lt (h.new p hp).2)]
      exact h.definer p hp
    · simp [hdef, hmade]

/-- An operand of a new op. -/
theorem Slicing.attachInput {c : TensorId} (hc : g₀.alloc.nextTensor ≤ c)
    (hcn : c < g.alloc.nextTensor) (ho : g₀.alloc.nextOp ≤ o) (hon : o < g.alloc.nextOp) :
    Slicing g₀ seen made (attachInput g c o) s := by
  have hT (t : TensorId) := tensor_attachInput g c t o
  have hO (o' : OpId) := op_attachInput g c o o'
  have hedges (t : TensorId) : ∀ u ∈ ((LiteRt.Model.attachInput g c o).tensor t).users,
      u ∈ (g.tensor t).users ∨ u.1 = o := by
    intro u hu
    rw [hT] at hu
    split at hu
    · rcases mem_append.mp hu with hu | hu
      · exact .inl hu
      · exact .inr (by rw [mem_singleton.mp hu])
    · exact .inl hu
  have hdef (t : TensorId) : ((LiteRt.Model.attachInput g c o).tensor t).definingOp =
      (g.tensor t).definingOp := by
    rw [hT]
    split <;> rfl
  have hdata {t : TensorId} {x : Tensor} (hx : x.SameData (g.tensor t)) :
      x.SameData ((LiteRt.Model.attachInput g c o).tensor t) := by
    rw [hT]
    split
    · exact ⟨hx.buffer, hx.type, hx.qparams⟩
    · exact hx
  constructor
  case closed =>
    have hcl := h.closed
    constructor
    · intro t ht
      rw [hT, if_neg (Nat.ne_of_gt (Nat.lt_of_lt_of_le hcn ht))]
      exact hcl.tensor t ht
    · intro o' ho'
      rw [hO, if_neg (Nat.ne_of_gt (Nat.lt_of_lt_of_le hon ho'))]
      exact hcl.op o' ho'
    · intro t u hu
      rcases hedges t u hu with hu | hu
      · exact hcl.user t u hu
      · exact hu ▸ hon
    · intro t o' hd
      rw [hdef] at hd
      exact hcl.definer t o' hd
    · intro o' t ht
      rw [hO] at ht
      split at ht
      · rcases mem_append.mp ht with ht | ht
        · exact hcl.operand o' t ht
        · exact mem_singleton.mp ht ▸ hcn
      · exact hcl.operand o' t ht
    · intro o' t ht
      rw [hO] at ht
      split at ht
      · exact hcl.result o' t ht
      · exact hcl.result o' t ht
  case nextTensor => exact h.nextTensor
  case nextOp => exact h.nextOp
  case tensor =>
    intro t ht
    rw [hT, if_neg (Nat.ne_of_lt (Nat.lt_of_lt_of_le ht hc)), h.tensor t ht]
  case op =>
    intro o' ho'
    rw [hO, if_neg (Nat.ne_of_lt (Nat.lt_of_lt_of_le ho' ho)), h.op o' ho']
  case new_users =>
    intro t ht u hu
    rcases hedges t u hu with hu | hu
    · exact h.new_users t ht u hu
    · exact hu ▸ ho
  case new_definer =>
    intro t ht o' hd
    rw [hdef] at hd
    exact h.new_definer t ht o' hd
  case keys_nodup => exact h.keys_nodup
  case keys => exact h.keys
  case old => exact h.old
  case made_seen => exact h.made_seen
  case new => exact h.new
  case inj => exact h.inj
  case data => exact fun p hp => hdata (h.data p hp)
  case definer =>
    intro p hp
    rw [hdef]
    exact h.definer p hp

/-- A result of a new op. -/
theorem Slicing.attachOutput {t c : TensorId} (hm : (t, c) ∈ s.tensorMap)
    (hund : (g.tensor c).definingOp = none) (ho : g₀.alloc.nextOp ≤ o) (hon : o < g.alloc.nextOp) :
    ∃ g', attachOutput g c o = some g' ∧ (∀ o', g'.op o' =
        if o' = o then { g.op o' with outputs := (g.op o').outputs ++ [c] } else g.op o') ∧
      Slicing g₀ seen (fun t' => made t' ∨ t' = t) g' s := by
  obtain ⟨g', he, ha, hT, hO⟩ := attachOutput_spec o hund
  refine ⟨g', he, hO, ?_⟩
  obtain ⟨hc, hcn⟩ : g₀.alloc.nextTensor ≤ c ∧ c < g.alloc.nextTensor := h.new (t, c) hm
  have husers (t' : TensorId) : (g'.tensor t').users = (g.tensor t').users := by
    rw [hT]
    split <;> rfl
  have hdef {t' : TensorId} {o' : OpId} (hd : (g'.tensor t').definingOp = some o') :
      o' = o ∨ (g.tensor t').definingOp = some o' := by
    rw [hT] at hd
    split at hd
    · exact .inl (Option.some.inj hd).symm
    · exact .inr hd
  have hdata {t' : TensorId} {x : Tensor} (hx : x.SameData (g.tensor t')) :
      x.SameData (g'.tensor t') := by
    rw [hT]
    split
    · exact ⟨hx.buffer, hx.type, hx.qparams⟩
    · exact hx
  constructor
  case closed =>
    have hcl := h.closed
    constructor
    · intro t' ht
      rw [ha] at ht
      rw [hT, if_neg (Nat.ne_of_gt (Nat.lt_of_lt_of_le hcn ht))]
      exact hcl.tensor t' ht
    · intro o' ho'
      rw [ha] at ho'
      rw [hO, if_neg (Nat.ne_of_gt (Nat.lt_of_lt_of_le hon ho'))]
      exact hcl.op o' ho'
    · intro t' u hu
      rw [husers] at hu
      exact ha ▸ hcl.user t' u hu
    · intro t' o' hd
      rw [ha]
      rcases hdef hd with rfl | hd
      · exact hon
      · exact hcl.definer t' o' hd
    · intro o' t' ht
      rw [hO] at ht
      rw [ha]
      split at ht
      · exact hcl.operand o' t' ht
      · exact hcl.operand o' t' ht
    · intro o' t' ht
      rw [hO] at ht
      rw [ha]
      split at ht
      · rcases mem_append.mp ht with ht | ht
        · exact hcl.result o' t' ht
        · exact mem_singleton.mp ht ▸ hcn
      · exact hcl.result o' t' ht
  case nextTensor => exact ha ▸ h.nextTensor
  case nextOp => exact ha ▸ h.nextOp
  case tensor =>
    intro t' ht
    rw [hT, if_neg (Nat.ne_of_lt (Nat.lt_of_lt_of_le ht hc)), h.tensor t' ht]
  case op =>
    intro o' ho'
    rw [hO, if_neg (Nat.ne_of_lt (Nat.lt_of_lt_of_le ho' ho)), h.op o' ho']
  case new_users =>
    intro t' ht u hu
    rw [husers] at hu
    exact h.new_users t' ht u hu
  case new_definer =>
    intro t' ht o' hd
    rcases hdef hd with rfl | hd
    · exact ho
    · exact h.new_definer t' ht o' hd
  case keys_nodup => exact h.keys_nodup
  case keys => exact h.keys
  case old => exact h.old
  case made_seen =>
    rintro t' (hmade | rfl)
    · exact h.made_seen t' hmade
    · exact (h.keys t').mp (mem_map_of_mem hm)
  case new =>
    intro p hp
    rw [ha]
    exact h.new p hp
  case inj => exact h.inj
  case data => exact fun p hp => hdata (h.data p hp)
  case definer =>
    intro p hp
    rw [hT]
    by_cases hpc : p.2 = c
    · rw [if_pos hpc]
      simp [Tensor.setDefiningOp, h.inj p hp (t, c) hm hpc]
    · have hpt : p.1 ≠ t := by
        intro hpt
        have h1 := find?_of_mem h.keys_nodup hp
        rw [hpt, find?_of_mem h.keys_nodup hm] at h1
        exact hpc (Option.some.inj h1).symm
      rw [if_neg hpc, h.definer p hp, not_or, and_iff_left hpt]

theorem Slicing.newOp (ho : o < g₀.alloc.nextOp) (sl slice : Subgraph) : ∃ g',
    makeOpClone g sl o = (g', { sl with ops := sl.ops ++ [g.alloc.nextOp] }, g.alloc.nextOp) ∧
    (∀ o', g'.op o' =
      if o' = g.alloc.nextOp then { attrs := (g₀.op o).attrs } else g.op o') ∧
    g'.alloc.nextOp = g.alloc.nextOp + 1 ∧
    Slicing g₀ seen made g' { s with slice := slice } := by
  obtain ⟨g', he, hO, hT, hnt, hno⟩ := makeOpClone_spec sl (Nat.lt_of_lt_of_le ho h.nextOp)
  rw [h.op o ho] at hO
  refine ⟨g', he, hO, hno, ?_⟩
  constructor
  case closed =>
    have hcl := h.closed
    constructor
    · intro t ht
      rw [hnt] at ht
      rw [hT]
      exact hcl.tensor t ht
    · intro o' ho'
      rw [hno] at ho'
      rw [hO, if_neg (Nat.ne_of_gt ho')]
      exact hcl.op o' (Nat.le_of_succ_le ho')
    · intro t u hu
      rw [hT] at hu
      exact hno ▸ Nat.lt_succ_of_lt (hcl.user t u hu)
    · intro t o' hd
      rw [hT] at hd
      exact hno ▸ Nat.lt_succ_of_lt (hcl.definer t o' hd)
    · intro o' t ht
      rw [hO] at ht
      split at ht
      · cases ht
      · exact hnt ▸ hcl.operand o' t ht
    · intro o' t ht
      rw [hO] at ht
      split at ht
      · cases ht
      · exact hnt ▸ hcl.result o' t ht
  case nextTensor => exact hnt ▸ h.nextTensor
  case nextOp => exact Nat.le_trans h.nextOp (hno ▸ Nat.le_succ _)
  case tensor =>
    intro t ht
    rw [hT, h.tensor t ht]
  case op =>
    intro o' ho'
    rw [hO, if_neg (Nat.ne_of_lt (Nat.lt_of_lt_of_le ho' h.nextOp)), h.op o' ho']
  case new_users => exact hT ▸ h.new_users
  case new_definer => exact hT ▸ h.new_definer
  case keys_nodup => exact h.keys_nodup
  case keys => exact h.keys
  case old => exact h.old
  case made_seen => exact h.made_seen
  case new => exact hnt ▸ h.new
  case inj => exact h.inj
  case data => exact hT ▸ h.data
  case definer => exact hT ▸ h.definer

end

/-! ### Cloning an op -/

def Slicer.counterpart (s : Slicer) (t : TensorId) : TensorId := (s.tensorMap.find? t).getD 0

theorem Slicer.counterpart_of_mem {s : Slicer} (hnd : (s.tensorMap.map Prod.fst).Nodup)
    {t c : TensorId} (h : (t, c) ∈ s.tensorMap) : s.counterpart t = c := by
  rw [counterpart, find?_of_mem hnd h]
  rfl

theorem Slicer.counterpart_append {s s' : Slicer} {added : TensorMap}
    (h : s'.tensorMap = s.tensorMap ++ added) {t : TensorId}
    (ht : t ∈ s.tensorMap.map Prod.fst) : s'.counterpart t = s.counterpart t := by
  rw [counterpart, counterpart, h, find?_append ht]

section
variable {g₀ g : Ir} {seen made : TensorId → Prop} {s : Slicer} {o : OpId} {ts : List TensorId}

/-- What cloning the operands of an op does, `added` the new entries of the map. -/
theorem cloneInputs_spec (h : Slicing g₀ seen made g s) (hts : ∀ t ∈ ts, t < g₀.alloc.nextTensor)
    (ho : g₀.alloc.nextOp ≤ o) (hon : o < g.alloc.nextOp) : ∃ g' s' added,
    ts.foldl (cloneInput o) (g, s) = (g', s') ∧
    Slicing g₀ (fun t => seen t ∨ t ∈ ts) made g' s' ∧
    (∀ o', g'.op o' = if o' = o then
      { g.op o' with inputs := (g.op o').inputs ++ ts.map s'.counterpart } else g.op o') ∧
    g'.alloc.nextOp = g.alloc.nextOp ∧
    s'.tensorMap = s.tensorMap ++ added ∧ (∀ p ∈ added, p.1 ∈ ts ∧ ¬ seen p.1) ∧
    s'.slice.inputs = s.slice.inputs ++
      (added.filter fun p => !isConstant (g₀.tensor p.1)).map Prod.snd ∧
    s'.slice.ops = s.slice.ops ∧ s'.slice.outputs = s.slice.outputs := by
  induction ts generalizing g s seen with
  | nil =>
    refine ⟨g, s, [], rfl, h.congr (by simp) fun _ => .rfl, fun o' => ?_, rfl, by simp, by simp,
      by simp, rfl, rfl⟩
    split <;> simp
  | cons t ts ih =>
    have ht := hts t (by simp)
    -- one operand
    obtain ⟨g₁, s₁, added₁, he₁, h₁, hO₁, hno₁, hmap₁, hadd₁, hin₁, hops₁, hout₁⟩ :
        ∃ g₁ s₁ added₁, cloneInput o (g, s) t = (g₁, s₁) ∧
          Slicing g₀ (fun t' => seen t' ∨ t' = t) made g₁ s₁ ∧
          (∀ o', g₁.op o' = if o' = o then
            { g.op o' with inputs := (g.op o').inputs ++ [s₁.counterpart t] } else g.op o') ∧
          g₁.alloc.nextOp = g.alloc.nextOp ∧
          s₁.tensorMap = s.tensorMap ++ added₁ ∧ (∀ p ∈ added₁, p.1 = t ∧ ¬ seen p.1) ∧
          s₁.slice.inputs = s.slice.inputs ++
            (added₁.filter fun p => !isConstant (g₀.tensor p.1)).map Prod.snd ∧
          s₁.slice.ops = s.slice.ops ∧ s₁.slice.outputs = s.slice.outputs := by
      cases hf : s.tensorMap.find? t with
      | some c =>
        have hm := mem_of_find? hf
        have hseen : seen t := (h.keys t).mp (mem_map_of_mem hm)
        have hc : s.counterpart t = c := by
          rw [Slicer.counterpart, hf]
          rfl
        refine ⟨attachInput g c o, s, [], by simp only [cloneInput, lookupOrClone, hf],
          (h.attachInput (h.new _ hm).1 (h.new _ hm).2 ho hon).congr (fun t' => ?_)
            fun _ => .rfl, ?_, rfl, by simp, by simp, by simp, rfl, rfl⟩
        · exact ⟨fun h' => h'.elim id fun he => he ▸ hseen, .inl⟩
        · rw [hc]
          exact fun o' => op_attachInput g c o o'
      | none =>
        have hseen : ¬ seen t := fun hs => find?_eq_none.mp hf ((h.keys t).mpr hs)
        let slice' : Subgraph :=
          { s.slice with
            tensors := s.slice.tensors ++ [g.alloc.nextTensor]
            inputs := s.slice.inputs ++
              if isConstant (g₀.tensor t) then [] else [g.alloc.nextTensor] }
        obtain ⟨g₁, he₁, hO₁, hno, h₁⟩ :=
          h.insert ht (fun hm => hseen (h.made_seen t hm)) s.slice slice'
        have hmap : s.tensorMap.insertOrAssign t g.alloc.nextTensor =
            s.tensorMap ++ [(t, g.alloc.nextTensor)] :=
          insertOrAssign_of_not_contains (find?_eq_none.mp hf) _
        have hmem : (t, g.alloc.nextTensor) ∈ s.tensorMap.insertOrAssign t g.alloc.nextTensor := by
          rw [hmap]
          exact mem_append_right _ (mem_singleton_self _)
        have hconst : isConstant (g₁.tensor g.alloc.nextTensor) = isConstant (g₀.tensor t) :=
          isConstant_of_sameData (h₁.data _ hmem)
        have hcp := Slicer.counterpart_of_mem h₁.keys_nodup hmem
        refine ⟨attachInput g₁ g.alloc.nextTensor o, _, [(t, g.alloc.nextTensor)], ?_,
          h₁.attachInput (h₁.new _ hmem).1 (h₁.new _ hmem).2 ho (hno ▸ hon), ?_, hno, hmap, ?_, ?_, rfl,
          rfl⟩
        · simp only [cloneInput, lookupOrClone, hf, he₁, hconst, slice']
          split <;> simp
        · intro o'
          rw [hcp, op_attachInput, hO₁]
        · intro p hp
          rw [mem_singleton.mp hp]
          exact ⟨rfl, hseen⟩
        · simp only [slice', filter_cons, filter_nil]
          cases isConstant (g₀.tensor t) <;> rfl
    obtain ⟨g', s', added, he, h', hO, hno, hmap, hadd, hin, hops, hout⟩ := ih h₁
      (fun t' ht' => hts t' (mem_cons_of_mem t ht')) (hno₁ ▸ hon)
    have hkey : t ∈ s₁.tensorMap.map Prod.fst := (h₁.keys t).mpr (.inr rfl)
    refine ⟨g', s', added₁ ++ added, ?_, h'.congr (fun t' => ?_) fun _ => .rfl, fun o' => ?_,
      hno.trans hno₁, by rw [hmap, hmap₁, append_assoc], fun p hp => ?_, ?_,
      hops.trans hops₁, hout.trans hout₁⟩
    · rw [foldl_cons, he₁, he]
    · rw [mem_cons, or_assoc]
    · rw [hO, hO₁]
      split
      · rw [map_cons, Slicer.counterpart_append hmap hkey, append_assoc]
        rfl
      · rfl
    · rcases mem_append.mp hp with hp | hp
      · exact ⟨mem_cons.mpr (.inl (hadd₁ p hp).1), (hadd₁ p hp).2⟩
      · exact ⟨mem_cons_of_mem t (hadd p hp).1, fun hs => (hadd p hp).2 (.inl hs)⟩
    · rw [hin, hin₁, filter_append, map_append, append_assoc]

/-- What cloning the results of an op does. Results the map does not know yet are
appended to it. -/
theorem cloneOutputs_spec (h : Slicing g₀ seen made g s) (hts : ∀ t ∈ ts, t < g₀.alloc.nextTensor)
    (hnd : ts.Nodup) (hnew : ∀ t ∈ ts, ¬ made t) (ho : g₀.alloc.nextOp ≤ o)
    (hon : o < g.alloc.nextOp) : ∃ g' s' outs,
    ts.foldlM (cloneOutput o) (g, s) = some (g', s') ∧
    Slicing g₀ (fun t => seen t ∨ t ∈ ts) (fun t => made t ∨ t ∈ ts) g' s' ∧
    (∀ o', g'.op o' = if o' = o then
      { g.op o' with outputs := (g.op o').outputs ++ outs } else g.op o') ∧
    g'.alloc.nextOp = g.alloc.nextOp ∧
    s'.slice.inputs = s.slice.inputs ∧ s'.slice.ops = s.slice.ops ∧
    s'.slice.outputs = s.slice.outputs ∧
    ((∀ t ∈ ts, ¬ seen t) → ∃ added, s'.tensorMap = s.tensorMap ++ added ∧
      added.map Prod.fst = ts ∧ outs = ts.map s'.counterpart) := by
  induction ts generalizing g s seen made with
  | nil =>
    refine ⟨g, s, [], rfl, h.congr (by simp) (by simp), fun o' => ?_, rfl, rfl, rfl, rfl,
      fun _ => ⟨[], by simp, rfl, rfl⟩⟩
    split <;> simp
  | cons t ts ih =>
    obtain ⟨htnew, hnd⟩ := nodup_cons.mp hnd
    let slice' : Subgraph :=
      { s.slice with tensors := s.slice.tensors ++ [g.alloc.nextTensor] }
    obtain ⟨g₁, he₁, hO₁, hno₁, h₁⟩ :=
      h.insert (hts t (by simp)) (hnew t (by simp)) s.slice slice'
    have hmem : (t, g.alloc.nextTensor) ∈ s.tensorMap.insertOrAssign t g.alloc.nextTensor := by
      refine mem_of_find? ?_
      rw [find?_insertOrAssign, if_pos rfl]
    have hund : (g₁.tensor g.alloc.nextTensor).definingOp = none :=
      (h₁.definer _ hmem).mpr (hnew t (by simp))
    obtain ⟨g₂, he₂, hO₂, h₂⟩ := h₁.attachOutput hmem hund ho (hno₁ ▸ hon)
    have hno₂ : g₂.alloc.nextOp = g.alloc.nextOp := by
      obtain ⟨g₃, he₃, ha, -⟩ := attachOutput_spec o hund
      rw [he₃] at he₂
      cases he₂
      rw [ha, hno₁]
    have hstep : cloneOutput o (g, s) t = some (g₂,
        { slice := slice', tensorMap := s.tensorMap.insertOrAssign t g.alloc.nextTensor }) := by
      simp only [cloneOutput, he₁, he₂, Option.map_some]
      rfl
    obtain ⟨g', s', outs, he, h', hO, hno, hin, hops, hout, happ⟩ := ih h₂
      (fun t' ht' => hts t' (mem_cons_of_mem t ht')) hnd
      (fun t' ht' hm => hm.elim (hnew t' (mem_cons_of_mem t ht'))
        fun hm => htnew (hm ▸ ht')) (hno₂ ▸ hon)
    refine ⟨g', s', g.alloc.nextTensor :: outs, ?_, h'.congr (fun t' => ?_) (fun t' => ?_),
      fun o' => ?_, hno.trans hno₂, hin, hops, hout, fun hfresh => ?_⟩
    · rw [foldlM_cons, hstep]
      exact he
    · rw [mem_cons, or_assoc]
    · rw [mem_cons, or_assoc]
    · rw [hO, hO₂, hO₁]
      split
      · rw [append_assoc]
        rfl
      · rfl
    · have hmap : s.tensorMap.insertOrAssign t g.alloc.nextTensor =
          s.tensorMap ++ [(t, g.alloc.nextTensor)] :=
        insertOrAssign_of_not_contains (fun hk => hfresh t (by simp) ((h.keys t).mp hk)) _
      obtain ⟨added, happ, hkeys, houts⟩ := happ fun t' ht' hs => hs.elim
        (hfresh t' (mem_cons_of_mem t ht')) fun he => htnew (he ▸ ht')
      refine ⟨(t, g.alloc.nextTensor) :: added, ?_, by rw [map_cons, hkeys], ?_⟩
      · rw [happ, hmap, append_assoc]
        rfl
      · rw [map_cons, houts, Slicer.counterpart_append happ ((h₂.keys t).mpr (.inr rfl)),
          Slicer.counterpart_of_mem h₂.keys_nodup hmem]

end

end LiteRt.Plugin
