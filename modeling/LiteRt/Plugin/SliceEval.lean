import Mathlib.Data.List.Perm.Subperm
import LiteRt.Plugin.Outline

/-!
# When outlining keeps the meaning of the root

The slice runs the ops of a contiguous partition under renamed tensors. It is handed
the operands of the dispatch op by position. An input of the root that the partition
uses always becomes an input of the slice, but an operand of the dispatch op only if
it is no constant, and only once.
-/

namespace LiteRt.Plugin

open LiteRt.Lib LiteRt.Model

variable {root : Subgraph} {P : List OpId}

/-- A root whose inputs and constants no op defines. -/
structure WellFormedRoot (g : Ir) (root : Subgraph) : Prop where
  closed : g.Closed
  wf : root.WellFormed g
  alloc : root.Allocated g
  inputs_undefined : ∀ t ∈ root.inputs, (g.tensor t).definingOp = none
  constants_undefined : ∀ t ∈ root.tensors, isConstant (g.tensor t) → (g.tensor t).definingOp = none

/-- The inputs of the root that the partition uses are distinct and no constants. -/
def InputsPassed (g : Ir) (root : Subgraph) (P : List OpId) : Prop :=
  (root.inputs.filter fun t => decide (readBy g P t)).Nodup ∧
    ∀ t ∈ root.inputs, readBy g P t → ¬ isConstant (g.tensor t)

def newSlice (m : Option ManagerId) : Subgraph := { bufferManager := m }

theorem WellFormedRoot.sliceable {g : Ir} (h : WellFormedRoot g root) (hnd : P.Nodup)
    (hsub : ∀ o ∈ P, o ∈ root.ops) (hne : P ≠ []) :
    Sliceable g root P where
  closed := h.closed
  wf := h.wf
  alloc := h.alloc
  nodup := hnd
  subset := hsub
  ne_nil := hne
  results t ht hc := by
    obtain ⟨o, ho, ht⟩ := ht
    have hd := (h.wf.edges o (hsub o ho)).mem_outputs_iff.mp ht
    rw [h.constants_undefined t (h.wf.results o (hsub o ho) t ht) hc] at hd
    cases hd

section
variable {g : Ir} {root : Subgraph} {P : List OpId} (h : Sliceable g root P)

include h

/-- The clones of a partition in topological order. The map first knows the inputs of the
root in `inputs`, then the tensors in `added`. -/
theorem Sliceable.cloned_of_topo (hin : ∀ t ∈ root.inputs, (g.tensor t).definingOp = none)
    (htopo : g.TopoOrder P) (m : Option ManagerId) : ∃ g' s inputs added,
    P.foldlM cloneInto (root.inputs.foldl
      (registerInput (P.flatMap fun o => (g.op o).inputs)) (g, { slice := newSlice m })) =
        some (g', s) ∧
    Slicing g (fun t => readBy g P t ∨ definedBy g P t) (definedBy g P) g' s ∧
    s.slice.outputs = [] ∧ s.slice.ops = List.range' g.alloc.nextOp P.length ∧
    (∀ p ∈ P.zipIdx g.alloc.nextOp, g'.op p.2 =
      { attrs := (g.op p.1).attrs
        inputs := (g.op p.1).inputs.map s.counterpart
        outputs := (g.op p.1).outputs.map s.counterpart }) ∧
    s.tensorMap = inputs ++ added ∧
    (∀ t, t ∈ inputs.map Prod.fst ↔ t ∈ root.inputs ∧ readBy g P t) ∧
    s.slice.inputs.length = (root.inputs.filter fun t => decide (readBy g P t)).length +
      (added.filter fun p => dispatchInput g P p.1).length ∧
    ((root.inputs.filter fun t => decide (readBy g P t)).Nodup → s.slice.inputs =
      inputs.map Prod.snd ++ (added.filter fun p => dispatchInput g P p.1).map Prod.snd) := by
  have hreg (t : TensorId) (ht : t ∈ root.inputs) : t < g.alloc.nextTensor ∧ ¬ False :=
    ⟨h.alloc.tensor t (h.wf.ios t (.inl ht)), id⟩
  obtain ⟨g₁, s₁, he₁, h₁, -, hno₁, hops₁, hout₁, hlen₁, hnew₁⟩ := registerInputs_spec
    (Slicing.init h.closed (newSlice m)) (P.flatMap fun o => (g.op o).inputs) hreg
  obtain ⟨g₂, s₂, he₂, h₂, -, hops₂, hout₂, htopo₂⟩ := clonePartition_spec h.closed h₁
    (fun o ho => h.lt_nextOp ho) h.nodup_results fun _ _ => id
  have hused (t : TensorId) : t ∈ (P.flatMap fun o => (g.op o).inputs) ↔ readBy g P t :=
    List.mem_flatMap
  have hfilter : root.inputs.filter (· ∈ P.flatMap fun o => (g.op o).inputs) =
      root.inputs.filter fun t => decide (readBy g P t) :=
    List.filter_congr fun t _ => decide_eq_decide.mpr (hused t)
  have hpass (l : TensorMap) : (l.filter fun p =>
      !isConstant (g.tensor p.1) && !decide (definedBy g P p.1)) =
        l.filter fun p => dispatchInput g P p.1 :=
    List.filter_congr fun p _ => Bool.and_comm ..
  -- results are new: nothing in front of an op reads what it defines
  obtain ⟨added, hmap, hop, -, hins⟩ := htopo₂ fun l₁ o l₂ hsplit t ht => by
    have ho : o ∈ P := by simp [hsplit]
    have hd := (h.wf.edges o (h.subset o ho)).mem_outputs_iff.mp ht
    refine ⟨fun hs => ?_, fun o' ho' hread => ?_⟩
    · rw [hin t (hs.resolve_left id).1] at hd
      cases hd
    · have hdep : g.DependsOn o' o := ⟨t, hread, hd⟩
      rcases List.mem_append.mp ho' with ho' | ho'
      · rw [hsplit] at htopo
        exact (Topological.append_iff.mp htopo).2.2 o' ho' o (by simp) hdep
      · exact htopo.irrefl o ho (List.mem_singleton.mp ho' ▸ hdep)
  refine ⟨g₂, s₂, s₁.tensorMap, added, by rw [he₁, he₂], h₂.congr (fun t => ?_) fun t => by simp,
    by rw [hout₂, hout₁]; rfl, ?_, hno₁ ▸ hop, hmap, fun t => ?_, ?_, fun hnd => ?_⟩
  · simp only [List.mem_flatMap, readBy, false_or]
    exact ⟨.inr, fun ht => ht.elim (fun hr => .inl hr.2) id⟩
  · rw [hops₂, hops₁, hno₁]
    rfl
  · rw [h₁.keys, false_or, hused]
  · rw [hins, List.length_append, hlen₁, hfilter, List.length_map, hpass]
    exact congrArg (· + _) (Nat.zero_add _)
  · obtain ⟨inputs, hmap₁, -, hin₁⟩ := hnew₁ (hfilter ▸ hnd) fun _ _ _ => id
    rw [hins, hin₁, hmap₁, hpass]
    rfl

end

/-- The slice of a partition in topological order, `m` the tensor map and `ρ` the
renaming it is. -/
structure Sliced (g : Ir) (root : Subgraph) (P : List OpId) (m : TensorMap)
    (ρ : TensorId → TensorId) (r : Outlined) : Prop extends Outlines g root P m r where
  rename : ∀ p ∈ m, ρ p.1 = p.2
  slice_ops : r.slice.ops = List.range' g.alloc.nextOp P.length
  slice_op : ∀ p ∈ P.zipIdx g.alloc.nextOp, r.ir.op p.2 =
    { attrs := (g.op p.1).attrs
      inputs := (g.op p.1).inputs.map ρ
      outputs := (g.op p.1).outputs.map ρ }
  slice_outputs : r.slice.outputs = (m.filter fun e => dispatchOutput g root P e.1).map Prod.snd
  length_inputs : r.slice.inputs.length = (r.ir.op r.dispatchOp).inputs.length →
    InputsPassed g root P
  slice_inputs : InputsPassed g root P →
    r.slice.inputs = (m.filter fun e => dispatchInput g P e.1).map Prod.snd

section
variable {g : Ir} {root : Subgraph} {P : List OpId} (h : WellFormedRoot g root)
  (hnd : P.Nodup) (hsub : ∀ o ∈ P, o ∈ root.ops) (hne : P ≠ []) (htopo : g.TopoOrder P)

include h hnd hsub hne htopo

theorem outlinePartition_sliced (mgr : Option ManagerId) : ∃ r m ρ,
    outlinePartition g root (newSlice mgr) P = some r ∧ Sliced g root P m ρ r := by
  have hsl := h.sliceable hnd hsub hne
  obtain ⟨g', s, inputs, added, hclone, hs, hsout, hsops, hsop, hmap, hinputs, hlen, hin⟩ :=
    hsl.cloned_of_topo h.inputs_undefined htopo mgr
  obtain ⟨r, hr, ho, hslice, hop⟩ := outlinePartition_spec hsl hclone hs fun t ht hc _ =>
    h.constants_undefined t (h.wf.ios t (.inr ht)) hc
  refine ⟨r, s.tensorMap, s.counterpart, hr, ?_⟩
  -- the operands of the dispatch op, in the two parts of the map
  have hdisp : (r.ir.op r.dispatchOp).inputs = (inputs.map Prod.fst).filter (dispatchInput g P) ++
        (added.map Prod.fst).filter (dispatchInput g P) := by
    rw [ho.inputs, hmap, List.map_append, List.filter_append]
  have hnotmade {t : TensorId} (ht : t ∈ root.inputs) : ¬ definedBy g P t := fun hm => by
    obtain ⟨o, -, hd⟩ := hsl.definedBy_iff.mp hm
    rw [h.inputs_undefined t ht] at hd
    cases hd
  have hkeys : (inputs.map Prod.fst).Nodup := by
    have := hs.keys_nodup
    rw [hmap, List.map_append] at this
    exact (List.nodup_append.mp this).1
  have hsubperm : (inputs.map Prod.fst).Subperm
      (root.inputs.filter fun t => decide (readBy g P t)) :=
    hkeys.subperm fun t ht => List.mem_filter.mpr
      ⟨((hinputs t).mp ht).1, decide_eq_true ((hinputs t).mp ht).2⟩
  constructor
  · exact ho
  · exact fun p hp => Slicer.counterpart_of_mem hs.keys_nodup hp
  · rw [hslice]
    exact hsops
  · intro p hp
    rw [hop p.2 (List.le_snd_of_mem_zipIdx hp)]
    exact hsop p hp
  · rw [hslice]
    simp only [hsout, List.nil_append]
  · intro hl
    rw [hslice] at hl
    simp only [hdisp, List.length_append, hlen, List.filter_map, List.length_map] at hl
    have hle := hsubperm.length_le
    have hle' := List.length_filter_le (dispatchInput g P ∘ Prod.fst) inputs
    rw [List.length_map] at hle
    have hadd : (added.filter fun p => dispatchInput g P p.1).length =
      (added.filter (dispatchInput g P ∘ Prod.fst)).length := rfl
    have hperm := hsubperm.perm_of_length_le (by rw [List.length_map]; omega)
    refine ⟨hperm.nodup_iff.mp hkeys, fun t ht hread hc => ?_⟩
    obtain ⟨p, hp, rfl⟩ := List.mem_map.mp ((hinputs t).mpr ⟨ht, hread⟩)
    have hall := List.length_filter_eq_length_iff.mp
      (show (inputs.filter (dispatchInput g P ∘ Prod.fst)).length = inputs.length by omega) p hp
    simp [dispatchInput, hc] at hall
  · intro hpass
    rw [hslice]
    simp only [hin hpass.1, hmap, List.filter_append, List.map_append]
    congr 2
    refine (List.filter_eq_self.mpr fun p hp => ?_).symm
    have hp := (hinputs p.1).mp (List.mem_map_of_mem hp)
    simp [dispatchInput, hnotmade hp.1, hpass.2 p.1 hp.1 hp.2]

end

/-! ## Evaluation -/

/-- The dispatch op calls the slice. -/
def callSlice {V : Type} (S : Semantics V) (r : Outlined) : Calls V :=
  fun o => if o = r.dispatchOp then some (evalSubgraph S r.ir noCalls r.slice) else none

section
variable {g : Ir} {root : Subgraph} {P : List OpId} {m : TensorMap} {ρ : TensorId → TensorId}
  {r : Outlined} (h : Sliceable g root P) (hs : Sliced g root P m ρ r) {V : Type}
  {S : Semantics V} {t : TensorId} {e₁ e₁' e₂ : Env TensorId V} {as : List V}

include hs

theorem Sliced.dispatchOp_mem : r.dispatchOp ∈ P := List.mem_of_getLast? hs.dispatchOp

theorem Sliced.opInstr_other {o : OpId} (ho : o < g.alloc.nextOp) (hP : o ∉ P) :
    opInstr S r.ir (callSlice S r) o = opInstr S g noCalls o := by
  have hc : callSlice S r o = none := if_neg fun he : o = r.dispatchOp =>
    hP (he ▸ hs.dispatchOp_mem)
  simp only [opInstr, noCalls, hc, hs.op o ho hP]

/-- The slice runs the ops of the partition under other names. -/
theorem Sliced.slice_instrs : r.slice.ops.map (opInstr S r.ir noCalls) =
    (P.map (opInstr S g noCalls)).map (Instr.rename ρ) := by
  have hsnd : r.slice.ops = (P.zipIdx g.alloc.nextOp).map Prod.snd := by
    rw [hs.slice_ops, List.zipIdx_map_snd]
  have hfst : P.map (opInstr S g noCalls) =
      (P.zipIdx g.alloc.nextOp).map fun p => opInstr S g noCalls p.1 := by
    conv_lhs => rw [← List.zipIdx_map_fst g.alloc.nextOp P]
    rw [List.map_map]
    rfl
  rw [hsnd, hfst, List.map_map, List.map_map]
  refine List.map_congr_left fun p hp => ?_
  simp only [Function.comp_apply, opInstr, noCalls, Instr.rename, hs.slice_op p hp, List.length_map]

theorem Sliced.mem_map (ht : t ∈ m.map Prod.fst) : (t, ρ t) ∈ m := by
  obtain ⟨⟨t', c⟩, hp, rfl⟩ := List.mem_map.mp ht
  rw [hs.rename _ hp]
  exact hp

theorem Sliced.rename_inj {t t' : TensorId} (ht : t ∈ m.map Prod.fst)
    (ht' : t' ∈ m.map Prod.fst) (he : ρ t = ρ t') : t = t' :=
  hs.inj _ (hs.mem_map ht) _ (hs.mem_map ht') he

/-- The names of the entries a filter keeps. -/
theorem Sliced.map_rename (p : TensorId → Bool) :
    (m.filter fun e => p e.1).map Prod.snd = ((m.map Prod.fst).filter p).map ρ := by
  rw [List.filter_map, List.map_map]
  exact List.map_congr_left fun e he => (hs.rename e (List.mem_of_mem_filter he)).symm

theorem Sliced.nodup_rename {ts : List TensorId} (hsub : ts.Sublist (m.map Prod.fst)) :
    (ts.map ρ).Nodup := by
  refine List.Nodup.map_on (fun t ht t' ht' he => ?_) (hs.keys_nodup.sublist hsub)
  exact hs.rename_inj (hsub.subset ht) (hsub.subset ht') he

theorem Sliced.constants_rename (ht : t ∈ m.map Prod.fst) :
    constants S r.ir (ρ t) = constants S g t :=
  constants_of_sameData (hs.new_data _ (hs.mem_map ht))

include h

/-- The slice on the operands of the dispatch op, `e₁` and `e₂` the values before and after
the partition. -/
theorem Sliced.exec_slice (hpass : InputsPassed g root P)
    (he : ∀ t < g.alloc.nextTensor, e₁' t = e₁ t)
    (hread : e₁'.readAll (r.ir.op r.dispatchOp).inputs = some as)
    (hconst : ∀ t ∈ m.map Prod.fst, isConstant (g.tensor t) → e₁ t = constants S g t)
    (hmade : ∀ t, definedBy g P t → e₁ t = none)
    (hexec : exec (P.map (opInstr S g noCalls)) e₁ = some e₂) : ∃ f,
    exec (r.slice.ops.map (opInstr S r.ir noCalls))
      ((constants S r.ir).bind r.slice.inputs as) = some f ∧
    ∀ t ∈ m.map Prod.fst, f (ρ t) = e₂ t := by
  have hin : r.slice.inputs = (r.ir.op r.dispatchOp).inputs.map ρ := by
    rw [hs.slice_inputs hpass, hs.map_rename, hs.inputs]
  have hsub : ((r.ir.op r.dispatchOp).inputs).Sublist (m.map Prod.fst) := by
    rw [hs.inputs]
    exact List.filter_sublist
  have hlt {t : TensorId} (ht : t ∈ m.map Prod.fst) : t < g.alloc.nextTensor := by
    rcases (hs.keys t).mp ht with ⟨o, ho, hto⟩ | ⟨o, ho, hto⟩
    · exact h.alloc.tensor t (h.wf.operands o (h.subset o ho) t hto)
    · exact h.alloc.tensor t (h.wf.results o (h.subset o ho) t hto)
  have hstart (t : TensorId) (ht : t ∈ m.map Prod.fst) :
      (constants S r.ir).bind r.slice.inputs as (ρ t) = e₁ t := by
    by_cases hm : t ∈ (r.ir.op r.dispatchOp).inputs
    · -- handed in by position
      have hz : (t, ρ t) ∈ (r.ir.op r.dispatchOp).inputs.zip r.slice.inputs := by
        rw [hin]
        exact mem_zip_map ρ hm
      rw [Env.bind_readAll hread (hin ▸ hs.nodup_rename hsub) hz, he t (hlt ht)]
    · have hnot : ρ t ∉ r.slice.inputs := by
        rw [hin]
        intro hmem
        obtain ⟨t', ht', he'⟩ := List.mem_map.mp hmem
        exact hm (hs.rename_inj (hsub.subset ht') ht he' ▸ ht')
      rw [Env.bind_of_not_mem hnot, hs.constants_rename ht]
      rw [hs.inputs, List.mem_filter, not_and, dispatchInput] at hm
      by_cases hd : definedBy g P t
      · rw [hmade t hd]
        exact if_neg (h.results t hd)
      · have hc : isConstant (g.tensor t) := by simpa [hd] using hm ht
        exact (hconst t ht hc).symm
  rw [hs.slice_instrs]
  refine exec_rename ρ (· ∈ m.map Prod.fst) ?_ ?_ hstart hexec
  · exact List.forall_mem_map.mpr fun o ho t ht => (hs.keys t).mpr (.inl ⟨o, ho, ht⟩)
  · exact List.forall_mem_map.mpr fun o ho w hw t ht he' =>
      hs.rename_inj ht ((hs.keys w).mpr (.inr ⟨o, ho, hw⟩)) he'

/-- The results of the dispatch op. -/
theorem Sliced.evalSubgraph_slice (hpass : InputsPassed g root P)
    (he : ∀ t < g.alloc.nextTensor, e₁' t = e₁ t)
    (hread : e₁'.readAll (r.ir.op r.dispatchOp).inputs = some as)
    (hconst : ∀ t ∈ m.map Prod.fst, isConstant (g.tensor t) → e₁ t = constants S g t)
    (hmade : ∀ t, definedBy g P t → e₁ t = none)
    (hexec : exec (P.map (opInstr S g noCalls)) e₁ = some e₂) : ∃ ws,
    evalSubgraph S r.ir noCalls r.slice as = some ws ∧
    ∀ t ∈ (r.ir.op r.dispatchOp).outputs, e₁'.bind (r.ir.op r.dispatchOp).outputs ws t = e₂ t := by
  obtain ⟨f, hf, hU⟩ := hs.exec_slice h hpass he hread hconst hmade hexec
  have hsub : ((r.ir.op r.dispatchOp).outputs).Sublist (m.map Prod.fst) := by
    rw [hs.outputs]
    exact List.filter_sublist
  have hout : r.slice.outputs = (r.ir.op r.dispatchOp).outputs.map ρ := by
    rw [hs.slice_outputs, hs.map_rename, hs.outputs]
  obtain ⟨ws, hws⟩ : ∃ ws, e₂.readAll (r.ir.op r.dispatchOp).outputs = some ws := by
    refine Env.readAll_isSome _ _ fun t ht => exec_isSome_of_mem_writes hexec
      (List.forall_mem_map.mpr fun o _ => opInstr_total rfl) ?_
    rw [hs.outputs, List.mem_filter, dispatchOutput] at ht
    by_cases hd : definedBy g P t
    · obtain ⟨o, ho, hto⟩ := hd
      exact .inr ⟨_, List.mem_map_of_mem ho, hto⟩
    · have hc : isConstant (g.tensor t) := by
        rw [if_neg hd, Bool.and_eq_true] at ht
        exact ht.2.1
      rw [hconst t ht.1 hc]
      exact .inl (constants_isSome hc)
  have hws' : f.readAll r.slice.outputs = some ws := by
    rw [hout, Env.readAll_map fun t ht => hU t (hsub.subset ht), hws]
  refine ⟨ws, ?_, fun t ht => ?_⟩
  · simp only [evalSubgraph, Block.eval, Subgraph.block, hf, Option.bind_some, hws']
  · have hz : (ρ t, t) ∈ r.slice.outputs.zip (r.ir.op r.dispatchOp).outputs := by
      rw [hout]
      exact mem_map_zip ρ ht
    rw [Env.bind_readAll hws' (hs.keys_nodup.sublist hsub) hz, hU t (hsub.subset ht)]

end

section
variable {g : Ir} {root : Subgraph} {l₁ P l₂ : List OpId} {m : TensorMap}
  {ρ : TensorId → TensorId} {r : Outlined} (h : WellFormedRoot g root)
  (hops : root.ops = l₁ ++ P ++ l₂) (hs : Sliced g root P m ρ r) {V : Type} {S : Semantics V}
  {args : List V} {e₁ : Env TensorId V} {t : TensorId}

include h hs

/-- The ops around the partition run as before. -/
theorem Sliced.exec_around {os : List OpId} (hos : ∀ o ∈ os, o ∈ root.ops ∧ o ∉ P)
    (U : TensorId → Prop) (hU : ∀ o ∈ os, ∀ t ∈ (g.op o).inputs, U t)
    {e e' f : Env TensorId V} (he : ∀ t, U t → e' t = e t)
    (hexec : exec (os.map (opInstr S g noCalls)) e = some f) : ∃ f',
    exec (os.map (opInstr S r.ir (callSlice S r))) e' = some f' ∧ ∀ t, U t → f' t = f t := by
  have hinstrs : os.map (opInstr S r.ir (callSlice S r)) =
      (os.map (opInstr S g noCalls)).map (Instr.rename id) := by
    rw [List.map_map]
    refine List.map_congr_left fun o ho => ?_
    rw [hs.opInstr_other (h.alloc.op o (hos o ho).1) (hos o ho).2]
    simp only [Function.comp_apply, Instr.rename, List.map_id]
  rw [hinstrs]
  exact exec_rename id U (List.forall_mem_map.mpr hU) (fun _ _ _ _ _ _ he => he) he hexec

omit hs in
/-- The ops around a partition are none of it. -/
theorem WellFormedRoot.around (hops : root.ops = l₁ ++ P ++ l₂) :
    P.Nodup ∧ (∀ o ∈ P, o ∈ root.ops) ∧ (∀ o ∈ l₁, o ∈ root.ops ∧ o ∉ P) ∧
      ∀ o ∈ l₂, o ∈ root.ops ∧ o ∉ P := by
  have hnd := h.wf.ops_nodup
  rw [hops, List.nodup_append, List.nodup_append] at hnd
  obtain ⟨⟨-, hndP, hdisj₁⟩, -, hdisj⟩ := hnd
  rw [hops]
  exact ⟨hndP, fun o ho => List.mem_append_left _ (List.mem_append_right _ ho),
    fun o ho => ⟨List.mem_append_left _ (List.mem_append_left _ ho),
      fun hP => hdisj₁ o ho o hP rfl⟩,
    fun o ho => ⟨List.mem_append_right _ ho,
      fun hP => hdisj o (List.mem_append_right _ hP) o ho rfl⟩⟩

omit h hs in
/-- Before the partition, a tensor that no op in front of it and no input defines is as it was. -/
theorem env_before
    (he₁ : exec (l₁.map (opInstr S g noCalls)) ((constants S g).bind root.inputs args) = some e₁)
    (hd : ∀ o ∈ l₁, t ∉ (g.op o).outputs) (hin : t ∉ root.inputs) :
    e₁ t = constants S g t := by
  rw [exec_frame he₁ (List.forall_mem_map.mpr hd), Env.bind_of_not_mem hin]

/-- The constants that the partition reads have their values in front of it. -/
theorem Sliced.constant_before (hsl : Sliceable g root P) (hpass : InputsPassed g root P)
    (hl₁ : ∀ o ∈ l₁, o ∈ root.ops ∧ o ∉ P)
    (he₁ : exec (l₁.map (opInstr S g noCalls)) ((constants S g).bind root.inputs args) = some e₁)
    (ht : t ∈ m.map Prod.fst) (hc : isConstant (g.tensor t)) :
    e₁ t = constants S g t := by
  have hread : readBy g P t := ((hs.keys t).mp ht).resolve_right fun hd => hsl.results t hd hc
  have hten : t ∈ root.tensors := by
    obtain ⟨o, ho, hto⟩ := hread
    exact h.wf.operands o (hsl.subset o ho) t hto
  refine env_before he₁ (fun o ho hto => ?_) fun hin => hpass.2 t hin hread hc
  have hd := (h.wf.edges o (hl₁ o ho).1).mem_outputs_iff.mp hto
  rw [h.constants_undefined t hten hc] at hd
  cases hd

omit hs in
/-- The results of the partition have no values in front of it. -/
theorem WellFormedRoot.result_before (hsl : Sliceable g root P)
    (hl₁ : ∀ o ∈ l₁, o ∈ root.ops ∧ o ∉ P)
    (he₁ : exec (l₁.map (opInstr S g noCalls)) ((constants S g).bind root.inputs args) = some e₁)
    (ht : definedBy g P t) : e₁ t = none := by
  obtain ⟨o, ho, hto⟩ := ht
  have hd := (h.wf.edges o (hsl.subset o ho)).mem_outputs_iff.mp hto
  rw [env_before he₁ (fun o' ho' hto' => ?_) fun hin => ?_]
  · exact if_neg (hsl.results t ⟨o, ho, hto⟩)
  · have hd' := (h.wf.edges o' (hl₁ o' ho').1).mem_outputs_iff.mp hto'
    rw [hd] at hd'
    exact (hl₁ o' ho').2 (Option.some.inj hd' ▸ ho)
  · rw [h.inputs_undefined t hin] at hd
    cases hd

/-- Where the partition runs, the operands of the dispatch op have values. -/
theorem Sliced.readAll_dispatchOp (hsub : ∀ o ∈ P, o ∈ root.ops) {e₁ e₁' e₂ : Env TensorId V}
    (hU : ∀ t, t < g.alloc.nextTensor → e₁' t = e₁ t)
    (hexec : exec (P.map (opInstr S g noCalls)) e₁ = some e₂) :
    ∃ as, e₁'.readAll (r.ir.op r.dispatchOp).inputs = some as := by
  refine Env.readAll_isSome _ _ fun t ht => ?_
  rw [hs.inputs, List.mem_filter, dispatchInput] at ht
  have hnot : ¬ definedBy g P t := by
    have := ht.2
    simp only [Bool.and_eq_true, Bool.not_eq_true', decide_eq_false_iff_not] at this
    exact this.1
  obtain ⟨o, ho, hto⟩ := ((hs.keys t).mp ht.1).resolve_right hnot
  rw [hU t (h.alloc.tensor t (h.wf.operands o (hsub o ho) t hto))]
  refine Option.ne_none_iff_exists'.mp fun hnone => ?_
  rw [exec_eq_none (List.mem_map_of_mem ho) hto hnone
    (List.forall_mem_map.mpr fun o' ho' hto' => hnot ⟨o', ho', hto'⟩)] at hexec
  cases hexec

omit h in
/-- The ops of the partition in the root that is left: only the dispatch op does something. -/
theorem Sliced.exec_partition (hnd : P.Nodup) {e₁' e₂' : Env TensorId V}
    (hstep : (opInstr S r.ir (callSlice S r) r.dispatchOp).step e₁' = some e₂') :
    exec (P.map (opInstr S r.ir (callSlice S r))) e₁' = some e₂' := by
  obtain ⟨P₀, hP₀⟩ := List.getLast?_eq_some_iff.mp hs.dispatchOp
  have hdead {o : OpId} (ho : o ∈ P₀) (e : Env TensorId V) :
      (opInstr S r.ir (callSlice S r) o).step e = some e := by
    have hne : o ≠ r.dispatchOp := by
      rw [hP₀] at hnd
      exact (List.nodup_append.mp hnd).2.2 o ho _ (List.mem_singleton_self _)
    exact opInstr_idle (if_neg hne)
      (hs.op_dropped o (by rw [hP₀]; exact List.mem_append_left _ ho) hne) e
  have hidle := exec_filter (p := fun _ => false) (l := P₀) (fun o ho _ => hdead ho) e₁'
  rw [List.filter_false, List.map_nil, exec_nil] at hidle
  rw [hP₀, List.map_append, exec_append, ← hidle, Option.bind_some, List.map_cons, List.map_nil,
    exec_cons, hstep, Option.bind_some, exec_nil]

include hops

/-- When the slice gets all its inputs, the outputs of the root keep their values. -/
theorem Sliced.evalSubgraph_root (hpass : InputsPassed g root P) {args vs : List V}
    (heval : evalSubgraph S g noCalls root args = some vs) :
    evalSubgraph S r.ir (callSlice S r) r.root args = some vs := by
  obtain ⟨hndP, hsub, hl₁, hl₂⟩ := h.around hops
  have hne : P ≠ [] := fun hP => by
    have := hs.dispatchOp
    rw [hP] at this
    cases this
  have hsl := h.sliceable hndP hsub hne
  have hlt {o : OpId} (ho : o ∈ root.ops) {t : TensorId} (ht : t ∈ (g.op o).inputs) :
      t < g.alloc.nextTensor := h.alloc.tensor t (h.wf.operands o ho t ht)
  -- the run before, cut around the partition
  rw [evalSubgraph, Block.eval, Subgraph.block, Option.bind_eq_some_iff] at heval
  obtain ⟨f, hf, hvs⟩ := heval
  simp only [hops, List.map_append] at hf
  rw [exec_append, Option.bind_eq_some_iff] at hf
  obtain ⟨e₂, he₂, hf⟩ := hf
  rw [exec_append, Option.bind_eq_some_iff] at he₂
  obtain ⟨e₁, he₁, he₂⟩ := he₂
  obtain ⟨e₁', he₁', hU₁⟩ := hs.exec_around h hl₁ (· < g.alloc.nextTensor)
    (fun o ho t ht => hlt (hl₁ o ho).1 ht)
    (fun t ht => Env.bind_congr (constants_of_sameData (hs.old_data t ht)) root.inputs args) he₁
  -- the partition, and the dispatch op in its place
  obtain ⟨as, has⟩ := hs.readAll_dispatchOp h hsub hU₁ he₂
  obtain ⟨ws, hws, hresult⟩ := hs.evalSubgraph_slice hsl hpass hU₁ has
    (fun t ht hc => hs.constant_before h hsl hpass hl₁ he₁ ht hc)
    (fun t ht => h.result_before hsl hl₁ he₁ ht) he₂
  have hstep : (opInstr S r.ir (callSlice S r) r.dispatchOp).step e₁' =
      some (e₁'.bind (r.ir.op r.dispatchOp).outputs ws) :=
    Instr.step_eq_some.mpr ⟨as, ws, has, by simp only [opInstr, callSlice, ↓reduceIte, hws], rfl⟩
  -- what is still needed after the partition
  have hagree (t : TensorId) (ht : t < g.alloc.nextTensor ∧
      ((∃ o ∈ l₂, t ∈ (g.op o).inputs) ∨ t ∈ root.outputs)) :
      e₁'.bind (r.ir.op r.dispatchOp).outputs ws t = e₂ t := by
    by_cases hm : t ∈ (r.ir.op r.dispatchOp).outputs
    · exact hresult t hm
    · have hnot : ¬ definedBy g P t := fun hd => hm <| by
        rw [hs.outputs, List.mem_filter, dispatchOutput, if_pos hd]
        refine ⟨(hs.keys t).mpr (.inr hd), ?_⟩
        rw [Bool.or_eq_true, decide_eq_true_eq, decide_eq_true_eq]
        exact ht.2.imp_left fun hx => hx.imp fun o ho => ⟨(hl₂ o ho.1).1, (hl₂ o ho.1).2, ho.2⟩
      rw [Env.bind_of_not_mem hm, hU₁ t ht.1, exec_frame he₂]
      exact List.forall_mem_map.mpr fun o ho hto => hnot ⟨o, ho, hto⟩
  obtain ⟨f', hf', hU₂⟩ := hs.exec_around h hl₂ (fun t => t < g.alloc.nextTensor ∧
      ((∃ o ∈ l₂, t ∈ (g.op o).inputs) ∨ t ∈ root.outputs))
    (fun o ho t ht => ⟨hlt (hl₂ o ho).1 ht, .inl ⟨o, ho, ht⟩⟩) hagree hf
  have hrun : exec (root.ops.map (opInstr S r.ir (callSlice S r)))
      ((constants S r.ir).bind root.inputs args) = some f' := by
    rw [hops, List.map_append, List.map_append, exec_append, exec_append, he₁', Option.bind_some,
      hs.exec_partition hndP hstep, Option.bind_some, hf']
  -- the ops that are dead are no part of the root any more
  have hfilter := exec_filter (i := opInstr S r.ir (callSlice S r)) (l := root.ops)
    (p := fun o => !isOpDead (r.ir.op o)) (fun o _ hp e => by
      have hp : isOpDead (r.ir.op o) := by simpa using hp
      by_cases ho : o = r.dispatchOp
      · subst ho
        rw [(isOpDead_iff.mp hp).1] at has
        cases has
        obtain ⟨hin, hout⟩ := isOpDead_iff.mp hp
        exact Instr.step_idle hin hout ⟨ws, by simp only [opInstr, callSlice, ↓reduceIte, hws]⟩
      · exact opInstr_idle (if_neg ho) hp e) ((constants S r.ir).bind root.inputs args)
  simp only [evalSubgraph, Block.eval, Subgraph.block, hs.root_eq, dce, hfilter, hrun,
    Option.bind_some]
  rw [← hvs]
  have hread : f'.readAll (root.outputs.map id) = f.readAll root.outputs :=
    Env.readAll_map fun t ht => hU₂ t ⟨h.alloc.tensor t (h.wf.ios t (.inr ht)), .inr ht⟩
  rwa [List.map_id] at hread

end

/-- The dispatch op stands for the slice: operands and results match its inputs and
outputs by position, and the outputs of the root keep their values. -/
structure StandsForSlice (g : Ir) (root : Subgraph) (r : Outlined) : Prop where
  inputs : List.Forall₂ (fun t c => (r.ir.tensor t).SameData (r.ir.tensor c))
    (r.ir.op r.dispatchOp).inputs r.slice.inputs
  outputs : List.Forall₂ (fun t c => (r.ir.tensor t).SameData (r.ir.tensor c))
    (r.ir.op r.dispatchOp).outputs r.slice.outputs
  eval : ∀ (V : Type) (S : Semantics V) (args vs : List V),
    evalSubgraph S g noCalls root args = some vs →
    evalSubgraph S r.ir (callSlice S r) r.root args = some vs

/-- The two sides of the entries a filter keeps. -/
theorem Sliced.forall₂ {g : Ir} {m : TensorMap} {ρ : TensorId → TensorId} {r : Outlined}
    (h : Sliceable g root P) (hs : Sliced g root P m ρ r) (p : TensorId → Bool) :
    List.Forall₂ (fun t c => (r.ir.tensor t).SameData (r.ir.tensor c))
      ((m.map Prod.fst).filter p) ((m.filter fun e => p e.1).map Prod.snd) := by
  rw [List.filter_map, List.forall₂_map_left_iff, List.forall₂_map_right_iff]
  refine List.forall₂_same.mpr fun e he => ?_
  have hm := List.mem_of_mem_filter he
  have hlt : e.1 < g.alloc.nextTensor := by
    rcases (hs.keys e.1).mp (List.mem_map_of_mem hm) with ⟨o, ho, ht⟩ | ⟨o, ho, ht⟩
    · exact h.alloc.tensor _ (h.wf.operands o (h.subset o ho) _ ht)
    · exact h.alloc.tensor _ (h.wf.results o (h.subset o ho) _ ht)
  exact (hs.old_data e.1 hlt).symm.trans (hs.new_data e hm)

/-- Three ops in a chain, the first one on an input of the given type. -/
def chain (type : TensorType) : Ir :=
  .ofOps [{ inputs := [0], outputs := [1] }, { inputs := [1], outputs := [2] },
    { inputs := [2], outputs := [3] }] 4 fun t => if t = 0 then { type := type } else {}

def chainRoot : Subgraph where
  tensors := List.range 4
  ops := List.range 3
  inputs := [0]
  outputs := [3]
  bufferManager := some 0

theorem chain_wellFormedRoot (type : TensorType) : WellFormedRoot (chain type) chainRoot where
  closed := Ir.ofOps_closed (by decide) (by decide)
  wf := Subgraph.ofOps_wellFormed (by decide) rfl rfl (by decide) (by decide) (by decide)
  alloc := ⟨fun _ => List.mem_range.mp, fun _ => List.mem_range.mp⟩
  inputs_undefined t ht := by
    rw [List.mem_singleton.mp ht]
    rfl
  constants_undefined t ht hc := by
    by_cases h0 : t = 0
    · subst h0
      rfl
    · rw [chain, isConstant] at hc
      simp [Ir.ofOps, h0] at hc

end LiteRt.Plugin
