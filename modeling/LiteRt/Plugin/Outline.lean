import LiteRt.Model.Rewrite
import LiteRt.Plugin.SliceSpec

/-!
# The root after outlining

The ops of the partition lose their edges and the last one gets those of the whole
partition. A constant output of the root that the partition reads becomes a result
of the dispatch op as well, which it cannot become twice.
-/

namespace LiteRt.Plugin

open LiteRt.Lib LiteRt.Model

/-- A partition of the ops of `root`, in any order. -/
structure Sliceable (g : Ir) (root : Subgraph) (P : List OpId) : Prop where
  closed : g.Closed
  wf : root.WellFormed g
  alloc : root.Allocated g
  nodup : P.Nodup
  subset : ∀ o ∈ P, o ∈ root.ops
  ne_nil : P ≠ []
  results : ∀ t, definedBy g P t → ¬ isConstant (g.tensor t)

def dispatchInput (g : Ir) (P : List OpId) (t : TensorId) : Bool :=
  !decide (definedBy g P t) && !isConstant (g.tensor t)

/-- An op of the root outside the partition reads `t`. -/
def readOutside (g : Ir) (root : Subgraph) (P : List OpId) (t : TensorId) : Prop :=
  ∃ o ∈ root.ops, o ∉ P ∧ t ∈ (g.op o).inputs

instance (g : Ir) (root : Subgraph) (P : List OpId) (t : TensorId) :
    Decidable (readOutside g root P t) :=
  inferInstanceAs (Decidable (∃ o ∈ root.ops, o ∉ P ∧ t ∈ (g.op o).inputs))

def dispatchOutput (g : Ir) (root : Subgraph) (P : List OpId) (t : TensorId) : Bool :=
  if definedBy g P t then decide (readOutside g root P t) || t ∈ root.outputs
  else isConstant (g.tensor t) && t ∈ root.outputs

/-- What outlining `P` into a slice leaves, `m` the tensor map. -/
structure Outlines (g : Ir) (root : Subgraph) (P : List OpId) (m : TensorMap) (r : Outlined) :
    Prop where
  dispatchOp : P.getLast? = some r.dispatchOp
  root_eq : r.root = dce r.ir root
  closed : r.ir.Closed
  nextTensor : g.alloc.nextTensor ≤ r.ir.alloc.nextTensor
  nextOp : g.alloc.nextOp ≤ r.ir.alloc.nextOp
  keys_nodup : (m.map Prod.fst).Nodup
  keys : ∀ t, t ∈ m.map Prod.fst ↔ readBy g P t ∨ definedBy g P t
  new : ∀ p ∈ m, g.alloc.nextTensor ≤ p.2
  inj : ∀ p ∈ m, ∀ p' ∈ m, p.2 = p'.2 → p.1 = p'.1
  old_data : ∀ t < g.alloc.nextTensor, (g.tensor t).SameData (r.ir.tensor t)
  new_data : ∀ p ∈ m, (g.tensor p.1).SameData (r.ir.tensor p.2)
  op : ∀ o < g.alloc.nextOp, o ∉ P → r.ir.op o = g.op o
  op_dropped : ∀ o ∈ P, o ≠ r.dispatchOp → isOpDead (r.ir.op o)
  inputs : (r.ir.op r.dispatchOp).inputs = (m.map Prod.fst).filter (dispatchInput g P)
  outputs : (r.ir.op r.dispatchOp).outputs = (m.map Prod.fst).filter (dispatchOutput g root P)
  definer : ∀ t < g.alloc.nextTensor, ∀ o, (r.ir.tensor t).definingOp = some o ↔
    if t ∈ (r.ir.op r.dispatchOp).outputs then o = r.dispatchOp
    else (g.tensor t).definingOp = some o ∧ o ∉ P
  wf : root.WellFormed r.ir

section
variable {g : Ir} {root : Subgraph} {P : List OpId} (h : Sliceable g root P)

include h

theorem Sliceable.lt_nextOp {o : OpId} (ho : o ∈ P) : o < g.alloc.nextOp :=
  h.alloc.op o (h.subset o ho)

theorem Sliceable.definedBy_iff {t : TensorId} :
    definedBy g P t ↔ ∃ o ∈ P, (g.tensor t).definingOp = some o :=
  exists_congr fun _ => and_congr_right fun ho => (h.wf.edges _ (h.subset _ ho)).mem_outputs_iff

/-- Different ops define different tensors. -/
theorem Sliceable.nodup_results : (P.flatMap fun o => (g.op o).outputs).Nodup := by
  refine List.nodup_flatMap.mpr ⟨fun o ho => (h.wf.edges o (h.subset o ho)).outputs_nodup, ?_⟩
  refine h.nodup.imp_of_mem fun {o o'} ho ho' hne => ?_
  refine List.disjoint_left.mpr fun t ht ht' => hne ?_
  rw [(h.wf.edges o (h.subset o ho)).mem_outputs_iff] at ht
  rw [(h.wf.edges o' (h.subset o' ho')).mem_outputs_iff, ht] at ht'
  exact Option.some.inj ht'

/-- The graph and the tensor map once the partition is cloned. -/
theorem Sliceable.cloned (slice : Subgraph) : ∃ g' s, P.foldlM cloneInto (root.inputs.foldl
      (registerInput (P.flatMap fun o => (g.op o).inputs)) (g, { slice := slice })) = some (g', s) ∧
    Slicing g (fun t => readBy g P t ∨ definedBy g P t) (definedBy g P) g' s := by
  have hreg (t : TensorId) (ht : t ∈ root.inputs) : t < g.alloc.nextTensor ∧ ¬ False :=
    ⟨h.alloc.tensor t (h.wf.ios t (.inl ht)), id⟩
  obtain ⟨g₁, s₁, he₁, h₁, -⟩ := registerInputs_spec
    (Slicing.init h.closed slice) (P.flatMap fun o => (g.op o).inputs) hreg
  obtain ⟨g₂, s₂, he₂, h₂, -⟩ := clonePartition_spec h.closed h₁
    (fun o ho => h.lt_nextOp ho) h.nodup_results fun _ _ => id
  refine ⟨g₂, s₂, by rw [he₁, he₂], h₂.congr (fun t => ?_) fun t => by simp⟩
  simp only [List.mem_flatMap, readBy, false_or]
  exact ⟨.inr, fun ht => ht.elim (fun hr => .inl hr.2) id⟩

/-- The graph before the dispatch op is connected. -/
def dropped (g' : Ir) (P : List OpId) (d : OpId) : Ir := makeDispatchOp (P.foldl Ir.eraseEdges g') d

variable {g' : Ir} {s : Slicer} {slice : Subgraph} {d : OpId}

omit h in
theorem tensor_dropped : (dropped g' P d).tensor = (P.foldl Ir.eraseEdges g').tensor := rfl

omit h in
theorem args_dropped (o : OpId) :
    ((dropped g' P d).op o).inputs = ((P.foldl Ir.eraseEdges g').op o).inputs ∧
    ((dropped g' P d).op o).outputs = ((P.foldl Ir.eraseEdges g').op o).outputs := by
  rw [dropped, makeDispatchOp, Ir.op_modifyOp]
  split <;> exact ⟨rfl, rfl⟩

variable (hs : Slicing g (fun t => readBy g P t ∨ definedBy g P t) (definedBy g P) g' s)

include hs

theorem Sliceable.wellFormedAt_cloned {o : OpId} (ho : o ∈ root.ops) : g'.WellFormedAt o := by
  have hlt := h.alloc.op o ho
  have hw := h.wf.edges o ho
  have hop := hs.op o hlt
  have hfresh {t : TensorId} (ht : ¬ t < g.alloc.nextTensor) :
      (∀ i, (o, i) ∉ (g'.tensor t).users) ∧ (g'.tensor t).definingOp ≠ some o := by
    have ht := Nat.le_of_not_lt ht
    exact ⟨fun i hi => Nat.not_lt.mpr (hs.new_users t ht _ hi) hlt,
      fun hd => Nat.not_lt.mpr (hs.new_definer t ht o hd) hlt⟩
  refine ⟨fun t i => ?_, fun j t hj => ?_, fun t hd => ?_⟩
  · rw [hop]
    by_cases ht : t < g.alloc.nextTensor
    · rw [hs.tensor t ht]
      exact hw.uses_count t i
    · rw [List.count_eq_zero.mpr ((hfresh ht).1 i), if_neg]
      exact fun hi => ht (h.closed.operand o t (List.mem_of_getElem? hi))
  · rw [hop] at hj
    rw [hs.tensor t (h.closed.result o t (List.mem_of_getElem? hj))]
    exact hw.def_sound j t hj
  · by_cases ht : t < g.alloc.nextTensor
    · rw [hs.tensor t ht] at hd ⊢
      rw [hop]
      exact hw.def_complete t hd
    · exact absurd hd (hfresh ht).2

omit h in
theorem definingOp_dropped {t : TensorId} (ht : t < g.alloc.nextTensor) {o : OpId} :
    ((dropped g' P d).tensor t).definingOp = some o ↔ (g.tensor t).definingOp = some o ∧ o ∉ P := by
  rw [tensor_dropped, definingOp_foldl_eraseEdges, hs.tensor t ht]

omit h hs in
theorem sameData_dropped {t : TensorId} {x : Tensor} (hx : x.SameData (g'.tensor t)) :
    x.SameData ((dropped g' P d).tensor t) := by
  rw [tensor_dropped]
  exact hx.trans (sameData_foldl_eraseEdges P g' t)

theorem Sliceable.wellFormedAt_dropped {o : OpId} (ho : o ∈ root.ops) :
    (dropped g' P d).WellFormedAt o := by
  have hw := wellFormedAt_foldl_eraseEdges (h.wellFormedAt_cloned hs ho) P
  obtain ⟨hin, hout⟩ : ((dropped g' P d).op o).inputs = ((P.foldl Ir.eraseEdges g').op o).inputs ∧
      ((dropped g' P d).op o).outputs = ((P.foldl Ir.eraseEdges g').op o).outputs :=
    args_dropped o
  refine ⟨fun t i => ?_, fun j t hj => ?_, fun t hd => ?_⟩
  · rw [hin, tensor_dropped]
    exact hw.uses_count t i
  · rw [hout] at hj
    exact hw.def_sound j t hj
  · rw [hout]
    exact hw.def_complete t hd

theorem Sliceable.definingOp_clone_dropped {t : TensorId} (ht : g.alloc.nextTensor ≤ t) :
    ((dropped g' P d).tensor t).definingOp = (g'.tensor t).definingOp := by
  refine Option.ext fun o => ?_
  rw [tensor_dropped, definingOp_foldl_eraseEdges, and_iff_left_iff_imp]
  exact fun hd ho => Nat.not_lt.mpr (hs.new_definer t ht o hd) (h.lt_nextOp ho)

theorem Sliceable.isDispatchInput_dropped {e : TensorId × TensorId} (he : e ∈ s.tensorMap) :
    isDispatchInput (dropped g' P d) e = dispatchInput g P e.1 := by
  rw [isDispatchInput, dispatchInput, h.definingOp_clone_dropped hs (hs.new e he).1,
    isConstant_of_sameData (sameData_dropped (hs.data e he)), Bool.eq_iff_iff]
  simp [hs.definer e he]

theorem Sliceable.mem_tensors_of_key {t : TensorId} (ht : t ∈ s.tensorMap.map Prod.fst) :
    t ∈ root.tensors := by
  rcases (hs.keys t).mp ht with ⟨o, ho, ht⟩ | ⟨o, ho, ht⟩
  · exact h.wf.operands o (h.subset o ho) t ht
  · exact h.wf.results o (h.subset o ho) t ht

theorem Sliceable.users_dropped {t : TensorId} (ht : t ∈ root.tensors) :
    ((dropped g' P d).tensor t).users ≠ [] ↔ readOutside g root P t := by
  rw [tensor_dropped, users_foldl_eraseEdges, hs.tensor t (h.alloc.tensor t ht), ne_eq,
    List.filter_eq_nil_iff]
  simp only [decide_eq_true_eq, not_forall, not_not]
  constructor
  · rintro ⟨u, hu, hP⟩
    have ho := h.wf.users t ht u hu
    exact ⟨u.1, ho, hP, (h.wf.edges u.1 ho).mem_inputs_iff.mpr ⟨u.2, hu⟩⟩
  · rintro ⟨o, ho, hP, hin⟩
    obtain ⟨i, hi⟩ := (h.wf.edges o ho).mem_inputs_iff.mp hin
    exact ⟨(o, i), hi, hP⟩

theorem Sliceable.isDispatchOutput_dropped {e : TensorId × TensorId} (he : e ∈ s.tensorMap) :
    isDispatchOutput (dropped g' P d) root e = dispatchOutput g root P e.1 := by
  have ht := h.mem_tensors_of_key hs (List.mem_map_of_mem he)
  have hlt := h.alloc.tensor e.1 ht
  have hconst : isConstant ((dropped g' P d).tensor e.1) = isConstant (g.tensor e.1) :=
    isConstant_of_sameData (sameData_dropped (by rw [hs.tensor e.1 hlt]; exact ⟨rfl, rfl, rfl⟩))
  have husers := h.users_dropped hs (d := d) ht
  rw [isDispatchOutput, h.isDispatchInput_dropped hs he, dispatchInput, dispatchOutput, hconst]
  by_cases hm : definedBy g P e.1
  · have hc := h.results e.1 hm
    simp only [hm, hc, husers]
    simp
  · cases hc : isConstant (g.tensor e.1) <;> simp [hm]

theorem Sliceable.filter_isDispatchInput :
    (s.tensorMap.filter (isDispatchInput (dropped g' P d))).map Prod.fst =
      (s.tensorMap.map Prod.fst).filter (dispatchInput g P) := by
  rw [List.filter_map]
  exact congrArg _ (List.filter_congr fun e he => h.isDispatchInput_dropped hs he)

theorem Sliceable.filter_isDispatchOutput :
    s.tensorMap.filter (isDispatchOutput (dropped g' P d) root) =
      s.tensorMap.filter fun e => dispatchOutput g root P e.1 :=
  List.filter_congr fun _ he => h.isDispatchOutput_dropped hs he

theorem Sliceable.filter_isDispatchOutput_fst :
    (s.tensorMap.filter (isDispatchOutput (dropped g' P d) root)).map Prod.fst =
      (s.tensorMap.map Prod.fst).filter (dispatchOutput g root P) := by
  rw [h.filter_isDispatchOutput hs, List.filter_map]
  rfl

omit h hs in
theorem op_dropped_of_mem {o : OpId} (ho : o ∈ P) :
    ((dropped g' P d).op o).inputs = [] ∧ ((dropped g' P d).op o).outputs = [] := by
  rw [(args_dropped o).1, (args_dropped o).2]
  exact op_foldl_eraseEdges_of_mem ho

omit h hs in
theorem op_dropped_of_not_mem (hd : d ∈ P) {o : OpId} (ho : o ∉ P) :
    (dropped g' P d).op o = g'.op o := by
  have hne : o ≠ d := fun he => ho (he ▸ hd)
  rw [dropped, makeDispatchOp, Ir.op_modifyOp_ne hne, op_foldl_eraseEdges_of_not_mem ho]

/-- The edges of a graph in which `d` has taken those of the whole partition. -/
structure Taken (root : Subgraph) (P : List OpId) (d : OpId) (g' g'' : Ir) : Prop where
  keys : ∀ t, t ∈ (g''.op d).inputs ∨ t ∈ (g''.op d).outputs → t ∈ root.tensors
  op : ∀ o ≠ d, ((g''.op o).inputs = [] ∧ (g''.op o).outputs = []) ∨ o ∉ P ∧ g''.op o = g'.op o
  users : ∀ t, ∀ u ∈ (g''.tensor t).users, u ∈ (g'.tensor t).users ∨ u.1 = d ∧ t ∈ (g''.op d).inputs
  definer : ∀ t o, (g''.tensor t).definingOp = some o ↔
    if t ∈ (g''.op d).outputs then o = d else (g'.tensor t).definingOp = some o ∧ o ∉ P

variable {g'' : Ir} (hr : Rerouted root d s.tensorMap (dropped g' P d) g'')

include hr

/-- The operands and the results of the dispatch op. -/
theorem Sliceable.args_rerouted (hd : d ∈ P) :
    (g''.op d).inputs = (s.tensorMap.map Prod.fst).filter (dispatchInput g P) ∧
    (g''.op d).outputs = (s.tensorMap.map Prod.fst).filter (dispatchOutput g root P) := by
  obtain ⟨hin, hout⟩ := @op_dropped_of_mem P g' d d hd
  rw [hr.op_self, h.filter_isDispatchInput hs, h.filter_isDispatchOutput_fst hs, hin, hout,
    List.nil_append, List.nil_append]
  exact ⟨rfl, rfl⟩

theorem Sliceable.taken (hd : d ∈ P) : Taken root P d g' g'' where
  keys := by
    intro t ht
    rw [(h.args_rerouted hs hr hd).1, (h.args_rerouted hs hr hd).2] at ht
    exact h.mem_tensors_of_key hs (ht.elim List.mem_of_mem_filter List.mem_of_mem_filter)
  op := by
    intro o hne
    rw [hr.op_ne o hne]
    by_cases ho : o ∈ P
    · exact .inl (op_dropped_of_mem ho)
    · exact .inr ⟨ho, op_dropped_of_not_mem hd ho⟩
  users := by
    intro t u hu
    refine (hr.users t u hu).imp (fun hu => ?_) fun hu => ?_
    · rw [tensor_dropped, users_foldl_eraseEdges] at hu
      exact List.mem_of_mem_filter hu
    · rw [(h.args_rerouted hs hr hd).1, ← h.filter_isDispatchInput hs]
      exact hu
  definer := by
    intro t o
    rw [hr.definer, h.filter_isDispatchOutput_fst hs, ← (h.args_rerouted hs hr hd).2]
    split
    · rw [Option.some.injEq, eq_comm]
    · rw [tensor_dropped, definingOp_foldl_eraseEdges]

omit h hr in
theorem Taken.closed (ht : Taken root P d g' g'') (halloc : g''.alloc = g'.alloc)
    (hroot : root.Allocated g) (hd : d < g.alloc.nextOp) : g''.Closed := by
  have hc := hs.closed
  have hold {t : TensorId} (ht : t ∈ root.tensors) : t < g''.alloc.nextTensor :=
    halloc ▸ Nat.lt_of_lt_of_le (hroot.tensor t ht) hs.nextTensor
  have hdlt : d < g''.alloc.nextOp := halloc ▸ Nat.lt_of_lt_of_le hd hs.nextOp
  constructor
  case tensor =>
    intro t hlt
    obtain ⟨hu, hd'⟩ := hc.tensor t (halloc ▸ hlt)
    refine ⟨List.eq_nil_iff_forall_not_mem.mpr fun u hu' => ?_,
      Option.eq_none_iff_forall_ne_some.mpr fun o ho => ?_⟩
    · rcases ht.users t u hu' with hu' | ⟨-, hm⟩
      · rw [hu] at hu'
        cases hu'
      · exact Nat.not_lt.mpr hlt (hold (ht.keys t (.inl hm)))
    · rw [ht.definer, if_neg fun hm => Nat.not_lt.mpr hlt (hold (ht.keys t (.inr hm))), hd'] at ho
      cases ho.1
  case op =>
    intro o ho
    rcases ht.op o fun he => Nat.not_lt.mpr ho (he ▸ hdlt) with hargs | ⟨-, hop⟩
    · exact hargs
    · rw [hop]
      exact hc.op o (halloc ▸ ho)
  case user =>
    intro t u hu
    rcases ht.users t u hu with hu | ⟨hu, -⟩
    · exact halloc ▸ hc.user t u hu
    · exact hu ▸ hdlt
  case definer =>
    intro t o ho
    rw [ht.definer] at ho
    split at ho
    · exact ho ▸ hdlt
    · exact halloc ▸ hc.definer t o ho.1
  case operand =>
    intro o t hin
    by_cases hne : o = d
    · exact hold (ht.keys t (.inl (hne ▸ hin)))
    · rcases ht.op o hne with hargs | ⟨-, hop⟩
      · rw [hargs.1] at hin
        cases hin
      · exact halloc ▸ hc.operand o t (hop ▸ hin)
  case result =>
    intro o t hout
    by_cases hne : o = d
    · exact hold (ht.keys t (.inr (hne ▸ hout)))
    · rcases ht.op o hne with hargs | ⟨-, hop⟩
      · rw [hargs.2] at hout
        cases hout
      · exact halloc ▸ hc.result o t (hop ▸ hout)

theorem Sliceable.wellFormed_rerouted (hd : d ∈ P) : root.WellFormed g'' := by
  have ht := h.taken hs hr hd
  have harg {o : OpId} (ho : o ∈ root.ops) {t : TensorId}
      (hin : t ∈ (g''.op o).inputs ∨ t ∈ (g''.op o).outputs) : t ∈ root.tensors := by
    by_cases hne : o = d
    · exact ht.keys t (hne ▸ hin)
    · rcases ht.op o hne with hargs | ⟨-, hop⟩
      · rw [hargs.1, hargs.2] at hin
        rcases hin with hin | hin <;> cases hin
      · rw [hop, hs.op o (h.alloc.op o ho)] at hin
        exact hin.elim (h.wf.operands o ho t) (h.wf.results o ho t)
  constructor
  case ops_nodup => exact h.wf.ops_nodup
  case tensors_nodup => exact h.wf.tensors_nodup
  case edges => exact fun o ho => hr.wellFormedAt o (h.wellFormedAt_dropped hs ho)
  case operands => exact fun o ho t hin => harg ho (.inl hin)
  case results => exact fun o ho t hout => harg ho (.inr hout)
  case users =>
    intro t hmem u hu
    rcases ht.users t u hu with hu | ⟨hu, -⟩
    · rw [hs.tensor t (h.alloc.tensor t hmem)] at hu
      exact h.wf.users t hmem u hu
    · exact hu ▸ h.subset d hd
  case definers =>
    intro t hmem o ho
    rw [ht.definer] at ho
    split at ho
    · exact ho ▸ h.subset d hd
    · rw [hs.tensor t (h.alloc.tensor t hmem)] at ho
      exact h.wf.definers t hmem o ho.1
  case ios => exact h.wf.ios

omit hr in
/-- The dispatch op in the root of a graph that is rerouted. -/
theorem Sliceable.outlines {r : Outlined} (hd : P.getLast? = some d) (hrd : r.dispatchOp = d)
    (hroot : r.root = dce r.ir root)
    (hr : Rerouted root d s.tensorMap (dropped g' P d) r.ir) :
    Outlines g root P s.tensorMap r := by
  obtain rfl := hrd
  have hdP := List.mem_of_getLast? hd
  have halloc : r.ir.alloc = g'.alloc := hr.alloc.trans alloc_foldl_eraseEdges
  have ht := h.taken hs hr hdP
  constructor
  case dispatchOp => exact hd
  case root_eq => exact hroot
  case closed => exact ht.closed hs halloc h.alloc (h.lt_nextOp hdP)
  case nextTensor => exact halloc ▸ hs.nextTensor
  case nextOp => exact halloc ▸ hs.nextOp
  case keys_nodup => exact hs.keys_nodup
  case keys => exact hs.keys
  case new => exact fun p hp => (hs.new p hp).1
  case inj => exact hs.inj
  case old_data =>
    intro t hlt
    refine Tensor.SameData.trans (sameData_dropped ?_) (hr.data t)
    rw [hs.tensor t hlt]
    exact ⟨rfl, rfl, rfl⟩
  case new_data => exact fun p hp => (sameData_dropped (hs.data p hp)).trans (hr.data p.2)
  case op =>
    intro o ho hP
    rw [hr.op_ne o fun he => hP (he ▸ hdP), op_dropped_of_not_mem hdP hP, hs.op o ho]
  case op_dropped =>
    intro o ho hne
    rw [hr.op_ne o hne]
    exact isOpDead_iff.mpr (op_dropped_of_mem ho)
  case inputs => exact (h.args_rerouted hs hr hdP).1
  case outputs => exact (h.args_rerouted hs hr hdP).2
  case definer =>
    intro t hlt o
    rw [ht.definer, hs.tensor t hlt]
  case wf => exact h.wellFormed_rerouted hs hr hdP

end

section
variable {g : Ir} {root : Subgraph} {P : List OpId} (h : Sliceable g root P)
  {slice : Subgraph} {g' : Ir} {s : Slicer}
  (hclone : P.foldlM cloneInto (root.inputs.foldl
    (registerInput (P.flatMap fun o => (g.op o).inputs)) (g, { slice := slice })) = some (g', s))
  (hs : Slicing g (fun t => readBy g P t ∨ definedBy g P t) (definedBy g P) g' s)

include h hclone hs

theorem outlinePartition_eq {d : OpId} (hd : P.getLast? = some d) :
    outlinePartition g root slice P =
      (s.tensorMap.foldlM (rerouteTensor root d) (dropped g' P d, s.slice)).map fun p =>
        { ir := p.1, root := dce p.1 root, slice := p.2, dispatchOp := d } := by
  have hdrop : P.foldlM drop g' = some (P.foldl Ir.eraseEdges g') :=
    foldlM_drop fun o ho => h.wellFormedAt_cloned hs (h.subset o ho)
  simp only [outlinePartition, hclone, hdrop, hd, Option.bind_eq_bind, Option.bind_some]
  rw [Option.map_eq_bind]
  rfl

/-- Outlining goes through when no constant output of the root that the partition reads is
a result already. -/
theorem outlinePartition_spec (hfree : ∀ t ∈ root.outputs, isConstant (g.tensor t) →
      readBy g P t → (g.tensor t).definingOp = none) :
    ∃ r, outlinePartition g root slice P = some r ∧ Outlines g root P s.tensorMap r ∧
      r.slice = { s.slice with outputs := s.slice.outputs ++
        (s.tensorMap.filter fun e => dispatchOutput g root P e.1).map Prod.snd } ∧
      ∀ o, g.alloc.nextOp ≤ o → r.ir.op o = g'.op o := by
  obtain ⟨d, hd⟩ : ∃ d, P.getLast? = some d :=
    ⟨P.getLast h.ne_nil, List.getLast?_eq_some_getLast h.ne_nil⟩
  have hdP := List.mem_of_getLast? hd
  have hund : ∀ e ∈ s.tensorMap, isDispatchOutput (dropped g' P d) root e →
      ((dropped g' P d).tensor e.1).definingOp = none := by
    intro e he hout
    rw [h.isDispatchOutput_dropped hs he, dispatchOutput] at hout
    have ht := h.mem_tensors_of_key hs (List.mem_map_of_mem he)
    refine Option.eq_none_iff_forall_ne_some.mpr fun o ho => ?_
    obtain ⟨ho, hP⟩ := (definingOp_dropped hs (h.alloc.tensor e.1 ht)).mp ho
    split at hout
    · next hm =>
      obtain ⟨o', ho', hd'⟩ := h.definedBy_iff.mp hm
      rw [hd'] at ho
      exact hP (Option.some.inj ho ▸ ho')
    · next hm =>
      simp only [Bool.and_eq_true, decide_eq_true_eq] at hout
      have hread := ((hs.keys e.1).mp (List.mem_map_of_mem he)).resolve_right hm
      rw [hfree e.1 hout.2 hout.1 hread] at ho
      cases ho
  obtain ⟨g₂, he, hr⟩ := reroute_spec (d := d) hs.keys_nodup
    (fun e he e' he' => Nat.ne_of_gt (Nat.lt_of_lt_of_le
      (hs.old e'.1 ((hs.keys e'.1).mp (List.mem_map_of_mem he'))) (hs.new e he).1))
    hund s.slice
  refine ⟨_, by rw [outlinePartition_eq h hclone hs hd, he]; rfl,
    h.outlines hs hd rfl rfl hr, ?_, fun o ho => ?_⟩
  · simp only [h.filter_isDispatchOutput hs]
  · have hP : o ∉ P := fun hm => Nat.not_lt.mpr ho (h.lt_nextOp hm)
    have hne : o ≠ d := fun he => hP (he ▸ hdP)
    simp only
    rw [hr.op_ne o hne, dropped, makeDispatchOp, Ir.op_modifyOp_ne hne,
      op_foldl_eraseEdges_of_not_mem hP]

/-- A constant output of the root that is a result already cannot become one. -/
theorem outlinePartition_eq_none {t : TensorId} (ht : t ∈ root.outputs)
    (hc : isConstant (g.tensor t)) (hread : readBy g P t)
    (hdef : (g.tensor t).definingOp ≠ none) : outlinePartition g root slice P = none := by
  obtain ⟨d, hd⟩ : ∃ d, P.getLast? = some d :=
    ⟨P.getLast h.ne_nil, List.getLast?_eq_some_getLast h.ne_nil⟩
  have hm : ¬ definedBy g P t := fun hm => h.results t hm hc
  obtain ⟨⟨t', c⟩, he, rfl⟩ := List.mem_map.mp ((hs.keys t).mpr (.inl hread))
  rw [outlinePartition_eq h hclone hs hd, reroute_eq_none hs.keys_nodup
    (fun e he e' he' => Nat.ne_of_gt (Nat.lt_of_lt_of_le
      (hs.old e'.1 ((hs.keys e'.1).mp (List.mem_map_of_mem he'))) (hs.new e he).1)) he]
  · rfl
  · rw [h.isDispatchOutput_dropped hs he, dispatchOutput, if_neg hm]
    simp only [hc, ht, decide_true, Bool.and_self]
  · obtain ⟨o, ho⟩ := Option.ne_none_iff_exists'.mp hdef
    have hlt := h.alloc.tensor t' (h.wf.ios t' (.inr ht))
    rw [(definingOp_dropped hs hlt).mpr ⟨ho, fun hP => hm (h.definedBy_iff.mpr ⟨o, hP, ho⟩)⟩]
    exact Option.some_ne_none o

end

end LiteRt.Plugin
