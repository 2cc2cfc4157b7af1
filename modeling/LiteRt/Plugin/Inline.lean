import LiteRt.Lib.InsertOrderMap
import LiteRt.Lib.SkipErase
import LiteRt.Model.Dce
import LiteRt.Model.Yank

/-!
# Inlining a composite op

`InlineSubgraph` of `algo.cc`, loop by loop. A returned error is an `Error`; a
`none` is a lookup that finds nothing and is dereferenced all the same, or an
index past the end of a vector.
-/

namespace LiteRt.Plugin

open LiteRt.Lib LiteRt.Model List

/-- The `LiteRtStatus` values returned here. -/
inductive LiteRtStatus where
  | errorInvalidArgument
  deriving DecidableEq, Repr

structure Error where
  status : LiteRtStatus
  message : String := ""
  deriving DecidableEq, Repr

/-- `LiteRtIsSameLayout`. -/
def isSameLayout (layout1 layout2 : Layout) : Bool :=
  if layout1.dimensions.length ≠ layout2.dimensions.length ∨
      layout1.strides.isSome ≠ layout2.strides.isSome then false
  else if layout1.dimensions ≠ layout2.dimensions then false
  else layout1.strides = layout2.strides

def verifyTensorType (dest source : Tensor) : Except Error Unit :=
  if dest.type.id ≠ source.type.id then .error { status := .errorInvalidArgument }
  else
    match dest.type.id with
    | .unranked =>
      if dest.type.elementType ≠ source.type.elementType then
        .error { status := .errorInvalidArgument }
      else .ok ()
    | .ranked =>
      if dest.type.elementType ≠ source.type.elementType then
        .error { status := .errorInvalidArgument }
      else if !isSameLayout dest.type.layout source.type.layout then
        .error { status := .errorInvalidArgument }
      else .ok ()

/-- The checks in front of the rewrite. -/
def verifySignature (g : Ir) (destination : Op) (source : Subgraph) : Except Error Unit := do
  if destination.inputs.length ≠ source.inputs.length ∨
      destination.outputs.length ≠ source.outputs.length then
    throw
      { status := .errorInvalidArgument
        message := "Input/output tensors of destination op and source subgraph are not the same." }
  (destination.inputs.zip source.inputs).forM fun p =>
    verifyTensorType (g.tensor p.1) (g.tensor p.2)
  (destination.outputs.zip source.outputs).forM fun p =>
    verifyTensorType (g.tensor p.1) (g.tensor p.2)

abbrev OpMap := InsertOrderMap OpId OpId
abbrev TensorMap := InsertOrderMap TensorId TensorId

/-- Copy the ops of the decomposition to `index` and on. -/
def cloneOps (g : Ir) (main : Subgraph) (opMap : OpMap) (index : Nat) :
    List OpId → Ir × Subgraph × OpMap
  | [] => (g, main, opMap)
  | decompOp :: ops =>
    let (g, main, newOp) := emplaceOpAt g main index
    cloneOps (cloneOpTo g decompOp newOp) main (opMap.insertOrAssign decompOp newOp) (index + 1) ops

/-- Copy the tensors of the decomposition. -/
def cloneTensors (g : Ir) (main : Subgraph) (tensorMap : TensorMap) :
    List TensorId → Ir × Subgraph × TensorMap
  | [] => (g, main, tensorMap)
  | decompTensor :: tensors =>
    let (g, main, newTensor) := emplaceTensor g main
    cloneTensors (cloneTensorTo g decompTensor newTensor) main
      (tensorMap.insertOrAssign decompTensor newTensor) tensors

/-- Append a result without a back pointer. -/
def pushOutput (g : Ir) (t : TensorId) (o : OpId) : Ir :=
  g.modifyOp o fun op => { op with outputs := op.outputs ++ [t] }

def restoreOp (opMap : OpMap) (tensorMap : TensorMap) (g : Ir) (decompOp : OpId) : Option Ir := do
  let clonedOp ← opMap.find? decompOp
  let g' ← (g.op decompOp).inputs.foldlM (fun h t =>
    (tensorMap.find? t).map fun c => attachInput h c clonedOp) g
  (g.op decompOp).outputs.foldlM (fun h t =>
    (tensorMap.find? t).map fun c => pushOutput h c clonedOp) g'

/-- Make the tensor `t` the operand of `o` at `argInd`, its records first passed
through `f`. -/
def moveUse (f : List (OpId × Nat) → List (OpId × Nat)) (g : Ir) (t : TensorId)
    (u : OpId × Nat) : Option Ir :=
  if u.2 < (g.op u.1).inputs.length then
    let g := g.modifyOp u.1 fun op => { op with inputs := op.inputs.set u.2 t }
    some (g.modifyTensor t fun x => { x with users := f x.users ++ [u] })
  else none

/-- The uses of one decomposition input become uses of the composite's operand;
at each of them the records of the composite op are erased while iterating. -/
def connectInput (opMap : OpMap) (destinationOp : OpId) (g : Ir) (p : TensorId × TensorId) :
    Option Ir :=
  (g.tensor p.2).users.foldlM (fun h u => do
    let clonedOp ← opMap.find? u.1
    moveUse (skipErase fun v => v.1 = destinationOp) h p.1 (clonedOp, u.2)) g

def clearTensor (g : Ir) (t : TensorId) : Ir :=
  g.modifyTensor t fun x => { x.clearDefiningOp with users := [] }

/-- The uses of one composite result become uses of the cloned result. -/
def rerouteOutput (tensorMap : TensorMap) (s : Ir × Subgraph) (p : TensorId × TensorId) :
    Option (Ir × Subgraph) := do
  let (g, main) := s
  let clonedTensor ← tensorMap.find? p.2
  let g ← (g.tensor p.1).users.foldlM (fun h u => moveUse id h clonedTensor u) g
  pure (g, { main with outputs := main.outputs.map fun t => if t = p.1 then clonedTensor else t })

/-- The rewrite of `InlineSubgraph`, in the main subgraph that holds the op at
`opIndex`. -/
def inlineInto (g : Ir) (main : Subgraph) (destinationOp : OpId) (opIndex : Nat)
    (source : Subgraph) : Option (Ir × Subgraph) := do
  let (g, main, opMap) := cloneOps g main [] opIndex source.ops
  let (g, main, tensorMap) := cloneTensors g main [] source.tensors
  let g ← source.ops.foldlM (restoreOp opMap tensorMap) g
  let g ← ((g.op destinationOp).inputs.zip source.inputs).foldlM
    (connectInput opMap destinationOp) g
  let g ← source.inputs.foldlM (fun h t => (tensorMap.find? t).map (clearTensor h)) g
  let (g, main) ← ((g.op destinationOp).outputs.zip source.outputs).foldlM
    (rerouteOutput tensorMap) (g, main)
  let g := (g.op destinationOp).outputs.foldl clearTensor g
  let g := g.modifyOp destinationOp fun op => { op with inputs := [], outputs := [] }
  pure (g, dce g main)

/-- The loop that looks for the subgraph of an op keeps the last one found. -/
def findMainSubgraph (m : LiteRtModel) (o : OpId) : Option SubgraphId :=
  m.subgraphs.foldl (fun found s => if o ∈ (m.subgraph s).ops then some s else found) none

def inlineSubgraph (m : LiteRtModel) (destinationOp : OpId) (source : SubgraphId) :
    Except Error (Option LiteRtModel) := do
  verifySignature m.ir (m.ir.op destinationOp) (m.subgraph source)
  match findMainSubgraph m destinationOp with
  | none => pure none
  | some mainId =>
    match (m.subgraph mainId).ops.idxOf? destinationOp with
    | none =>
      throw
        { status := .errorInvalidArgument
          message := "Failed to find op in given subgraph during inlining." }
    | some opIndex =>
      pure ((inlineInto m.ir (m.subgraph mainId) destinationOp opIndex (m.subgraph source)).map
        fun (ir, main) =>
          { m with ir := ir, subgraph := fun s => if s = mainId then main else m.subgraph s })

/-!
## The cloned decomposition

What the first three loops of `InlineSubgraph` leave: a copy of each op and each
tensor of the decomposition at fresh addresses, with the edges between them
restored, save that no cloned result knows its defining op.
-/

/-- The address of the clone of `x`, the clones of `l` standing from `base` on. -/
def cloneAddr (base : Nat) (l : List Nat) (x : Nat) : Nat := base + l.idxOf x

section
variable {base : Nat} {l : List Nat} {x y : Nat}

theorem le_cloneAddr : base ≤ cloneAddr base l x := Nat.le_add_right _ _

theorem cloneAddr_inj (hx : x ∈ l) (h : cloneAddr base l x = cloneAddr base l y) : x = y :=
  (idxOf_inj hx).mp (Nat.add_left_cancel h)

theorem cloneAddr_cons_self : cloneAddr base (x :: l) x = base := by simp [cloneAddr]

theorem cloneAddr_cons_ne (h : x ≠ y) : cloneAddr base (x :: l) y = cloneAddr (base + 1) l y := by
  rw [cloneAddr, cloneAddr, idxOf_cons_ne l h]
  omega

theorem map_cloneAddr (hnd : l.Nodup) : l.map (cloneAddr base l) = List.range' base l.length := by
  induction l generalizing base with
  | nil => rfl
  | cons a l ih =>
    obtain ⟨ha, hnd⟩ := nodup_cons.mp hnd
    rw [map_cons, cloneAddr_cons_self, length_cons, range'_succ, ← ih hnd]
    congr 1
    refine map_congr_left fun b hb => cloneAddr_cons_ne ?_
    rintro rfl
    exact ha hb

end

/-! ### Ops -/

theorem cloneOps_spec {os : List OpId} (hnd : os.Nodup) {g : Ir}
    (hlt : ∀ o ∈ os, o < g.alloc.nextOp) (main : Subgraph) {l₁ l₂ : List OpId}
    (hmain : main.ops = l₁ ++ l₂) (opMap : OpMap) : ∃ g' opMap',
    cloneOps g main opMap l₁.length os =
      (g', { main with ops := l₁ ++ os.map (cloneAddr g.alloc.nextOp os) ++ l₂ }, opMap') ∧
    g'.tensor = g.tensor ∧ g'.alloc.nextTensor = g.alloc.nextTensor ∧
    (∀ o < g.alloc.nextOp, g'.op o = g.op o) ∧
    (∀ d ∈ os, g'.op (cloneAddr g.alloc.nextOp os d) = { attrs := (g.op d).attrs }) ∧
    ∀ o, opMap'.find? o =
      if o ∈ os then some (cloneAddr g.alloc.nextOp os o) else opMap.find? o := by
  induction os generalizing g main l₁ opMap with
  | nil =>
    refine ⟨g, opMap, ?_, rfl, rfl, fun _ _ => rfl, by simp, by simp⟩
    rw [cloneOps]
    simp [← hmain]
  | cons d os ih =>
    obtain ⟨hnew, hnd⟩ := nodup_cons.mp hnd
    obtain ⟨g₁, he, hO, hT, hnt, hno⟩ := emplaceOpAt_spec g main l₁.length
    set n := g.alloc.nextOp with hn
    have hdn : d ≠ n := Nat.ne_of_lt (hlt d (by simp))
    set g₂ := cloneOpTo g₁ d n with hg₂
    have hO₂ (o : OpId) : g₂.op o = if o = n then { attrs := (g.op d).attrs } else g.op o := by
      rw [hg₂, cloneOpTo, Ir.op_modifyOp, hO o, hO d, if_neg hdn]
      split <;> rfl
    have hno₂ : g₂.alloc.nextOp = n + 1 := hno
    have hmain' : main.ops.insertIdx l₁.length n = (l₁ ++ [n]) ++ l₂ := by
      rw [hmain, insertIdx_length_append, append_assoc, singleton_append]
    obtain ⟨g', opMap', he', hT', hnt', hO', hclone, hfind⟩ := ih hnd (g := g₂)
      (fun o ho => hno₂ ▸ Nat.lt_succ_of_lt (hlt o (mem_cons_of_mem d ho)))
      { main with ops := main.ops.insertIdx l₁.length n } hmain' (opMap.insertOrAssign d n)
    rw [hno₂] at he' hO' hclone hfind
    have haddr (o : OpId) (ho : o ∈ os) : cloneAddr n (d :: os) o = cloneAddr (n + 1) os o :=
      cloneAddr_cons_ne fun h => hnew (h ▸ ho)
    refine ⟨g', opMap', ?_, hT'.trans hT, hnt'.trans hnt, fun o ho => ?_, fun o ho => ?_,
      fun o => ?_⟩
    · rw [cloneOps, he]
      have hlen : (l₁ ++ [n]).length = l₁.length + 1 := by simp
      rw [hlen] at he'
      simp only
      rw [he', map_cons, cloneAddr_cons_self, map_congr_left haddr]
      simp
    · rw [hO' o (Nat.lt_succ_of_lt ho), hO₂, if_neg (Nat.ne_of_lt ho)]
    · rcases mem_cons.mp ho with rfl | ho
      · rw [cloneAddr_cons_self, hO' n (Nat.lt_succ_self n), hO₂, if_pos rfl]
      · rw [haddr o ho, hclone o ho, hO₂, if_neg]
        exact Nat.ne_of_lt (hlt o (mem_cons_of_mem d ho))
    · rw [hfind, InsertOrderMap.find?_insertOrAssign]
      by_cases ho : o = d
      · subst ho
        simp [hnew, cloneAddr_cons_self]
      · by_cases hm : o ∈ os
        · simp [hm, haddr o hm]
        · simp [hm, ho]

/-! ### Tensors -/

theorem cloneTensors_spec {ts : List TensorId} (hnd : ts.Nodup) {g : Ir}
    (hlt : ∀ t ∈ ts, t < g.alloc.nextTensor) (main : Subgraph) (tensorMap : TensorMap) :
    ∃ g' tensorMap',
    cloneTensors g main tensorMap ts =
      (g', { main with tensors := main.tensors ++ ts.map (cloneAddr g.alloc.nextTensor ts) },
        tensorMap') ∧
    g'.op = g.op ∧
    (∀ t ∉ ts.map (cloneAddr g.alloc.nextTensor ts), g'.tensor t = g.tensor t) ∧
    (∀ s ∈ ts, (g'.tensor (cloneAddr g.alloc.nextTensor ts s)).users = [] ∧
      (g'.tensor (cloneAddr g.alloc.nextTensor ts s)).definingOp = none ∧
      (g.tensor s).SameData (g'.tensor (cloneAddr g.alloc.nextTensor ts s))) ∧
    ∀ t, tensorMap'.find? t =
      if t ∈ ts then some (cloneAddr g.alloc.nextTensor ts t) else tensorMap.find? t := by
  induction ts generalizing g main tensorMap with
  | nil =>
    refine ⟨g, tensorMap, ?_, rfl, fun _ _ => rfl, by simp, by simp⟩
    rw [cloneTensors]
    simp
  | cons s ts ih =>
    obtain ⟨hnew, hnd'⟩ := nodup_cons.mp hnd
    obtain ⟨g₁, m, he, hT, hO, hnt, hno⟩ := emplaceTensor_spec g main
    set n := g.alloc.nextTensor with hn
    have hsn : s ≠ n := Nat.ne_of_lt (hlt s (by simp))
    obtain ⟨x, nb, hclone, husers, hdef, -, hdata⟩ := cloneTensorTo_spec g₁ s n
    rw [hT n, if_pos rfl] at husers hdef
    rw [hT s, if_neg hsn] at hdata
    set g₂ := cloneTensorTo g₁ s n with hg₂
    have hT₂ (t : TensorId) : g₂.tensor t = if t = n then x else g.tensor t := by
      rw [hclone]
      simp only
      split
      · rfl
      · next h => rw [hT, if_neg h]
    have hnt₂ : g₂.alloc.nextTensor = n + 1 := by
      rw [hclone]
      exact hnt
    have hO₂ : g₂.op = g.op := by
      rw [hclone]
      exact hO
    obtain ⟨g', tensorMap', he', hO', hT', hnew', hfind⟩ := ih hnd' (g := g₂)
      (fun t ht => hnt₂ ▸ Nat.lt_succ_of_lt (hlt t (mem_cons_of_mem s ht)))
      { main with tensors := main.tensors ++ [n] } (tensorMap.insertOrAssign s n)
    rw [hnt₂] at he' hT' hnew' hfind
    have haddr (t : TensorId) (ht : t ∈ ts) : cloneAddr n (s :: ts) t = cloneAddr (n + 1) ts t :=
      cloneAddr_cons_ne fun h => hnew (h ▸ ht)
    refine ⟨g', tensorMap', ?_, hO'.trans hO₂, fun t ht => ?_, fun t ht => ?_, fun t => ?_⟩
    · rw [cloneTensors, he]
      simp only
      rw [he', map_cons, cloneAddr_cons_self, map_congr_left haddr]
      simp
    · rw [map_cons, cloneAddr_cons_self, map_congr_left haddr, mem_cons, not_or] at ht
      rw [hT' t ht.2, hT₂, if_neg ht.1]
    · rcases mem_cons.mp ht with rfl | ht
      · have hn : n ∉ ts.map (cloneAddr (n + 1) ts) := by
          rw [map_cloneAddr hnd', mem_range'_1]
          exact fun h => Nat.not_succ_le_self n h.1
        rw [cloneAddr_cons_self, hT' n hn, hT₂, if_pos rfl]
        exact ⟨husers, hdef, hdata⟩
      · rw [haddr t ht]
        have := hnew' t ht
        rwa [hT₂, if_neg (Nat.ne_of_lt (hlt t (mem_cons_of_mem s ht)))] at this
    · rw [hfind, InsertOrderMap.find?_insertOrAssign]
      by_cases ht : t = s
      · subst ht
        simp [hnew, cloneAddr_cons_self]
      · by_cases hm : t ∈ ts
        · simp [hm, haddr t hm]
        · simp [hm, ht]

end LiteRt.Plugin
