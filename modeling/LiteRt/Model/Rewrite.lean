import Mathlib.Data.List.Pairwise
import LiteRt.Lib.Fusion
import LiteRt.Model.ApplyChanges
import LiteRt.Model.Eval
import LiteRt.Model.FromOps

/-!
# Rewrites keep the graph well-formed

The graph after `ApplyChanges`, from the edges of the graph before and of the
builder: first the edges without the erased ops, then those with the reconnected
new ops, then the op list.
-/

namespace LiteRt.Model

open LiteRt.Lib List

variable {g g' : Ir}

/-- The subgraph's objects are allocated. -/
structure Subgraph.Allocated (g : Ir) (sg : Subgraph) : Prop where
  op : ∀ o ∈ sg.ops, o < g.alloc.nextOp
  tensor : ∀ t ∈ sg.tensors, t < g.alloc.nextTensor

/-- What a transaction may ask for: it erases ops of the graph, redefines results
of erased ops only, each once, and builds its ops in dependency order. -/
structure Builder.Admissible (g₀ : Ir) (sg : Subgraph) (g : Ir) (b : Builder) : Prop where
  erases : ∀ e ∈ b.erases, e ∈ sg.ops
  redefines : ∀ t ∈ b.subgraph.outputs, ∃ e ∈ b.erases, t ∈ (g₀.op e).outputs
  redefines_once : b.subgraph.outputs.Nodup
  ordered : Topological (fun n n' => ∃ t ∈ (g.op n).inputs, t ∈ (g.op n').outputs) b.subgraph.ops

/-- The operands of the new ops from ops that stay are defined before the first
erased op. -/
def Builder.OperandsReady (g₀ : Ir) (sg : Subgraph) (g : Ir) (b : Builder) : Prop :=
  ∀ n ∈ b.subgraph.ops, ∀ t ∈ (g.op n).inputs, ∀ r ∈ (g₀.tensor t).definingOp,
    r ∉ b.erases → r ∈ sg.ops.takeWhile (· ∉ b.erases)

instance (g₀ : Ir) (sg : Subgraph) (g : Ir) (b : Builder) :
    Decidable (b.OperandsReady g₀ sg g) :=
  inferInstanceAs (Decidable (∀ n ∈ b.subgraph.ops, ∀ t ∈ (g.op n).inputs,
    ∀ r ∈ (g₀.tensor t).definingOp, r ∉ b.erases → r ∈ sg.ops.takeWhile (· ∉ b.erases)))

/-! ## Moving the weights -/

/-- Two stores with the same edges. -/
structure Ir.SameEdges (g g' : Ir) : Prop where
  op : g'.op = g.op
  users : ∀ t, (g'.tensor t).users = (g.tensor t).users
  definingOp : ∀ t, (g'.tensor t).definingOp = (g.tensor t).definingOp
  definingOpOutInd : ∀ t, (g'.tensor t).definingOpOutInd = (g.tensor t).definingOpOutInd

theorem Ir.SameEdges.refl (g : Ir) : g.SameEdges g := ⟨rfl, fun _ => rfl, fun _ => rfl, fun _ => rfl⟩

theorem Ir.SameEdges.trans {g g' g'' : Ir} (h : g.SameEdges g') (h' : g'.SameEdges g'') :
    g.SameEdges g'' :=
  ⟨h'.op.trans h.op, fun t => (h'.users t).trans (h.users t),
    fun t => (h'.definingOp t).trans (h.definingOp t),
    fun t => (h'.definingOpOutInd t).trans (h.definingOpOutInd t)⟩

theorem Ir.SameEdges.wellFormedAt (h : g.SameEdges g') {o : OpId} (ho : g.WellFormedAt o) :
    g'.WellFormedAt o := by
  refine ⟨fun t i => ?_, fun j t hj => ?_, fun t hd => ?_⟩
  · rw [h.users, h.op]
    exact ho.uses_count t i
  · rw [h.op] at hj
    rw [h.definingOp, h.definingOpOutInd]
    exact ho.def_sound j t hj
  · rw [h.definingOp] at hd
    rw [h.definingOpOutInd, h.op]
    exact ho.def_complete t hd

theorem Ir.SameEdges.wellFormed (h : g.SameEdges g') {sg : Subgraph} (hsg : sg.WellFormed g) :
    sg.WellFormed g' where
  ops_nodup := hsg.ops_nodup
  tensors_nodup := hsg.tensors_nodup
  edges o ho := h.wellFormedAt (hsg.edges o ho)
  operands := by rw [h.op]; exact hsg.operands
  results := by rw [h.op]; exact hsg.results
  users t ht u hu := hsg.users t ht u (h.users t ▸ hu)
  definers t ht o hd := hsg.definers t ht o (h.definingOp t ▸ hd)
  ios := hsg.ios

theorem Ir.SameEdges.dependsOn (h : g.SameEdges g') : g'.DependsOn = g.DependsOn := by
  funext o o'
  simp only [Ir.DependsOn, h.op, h.definingOp]

theorem transferWeights_sameEdges (src : Option ManagerId) (dst : ManagerId) (g : Ir)
    (t : TensorId) : ∃ g', transferWeights src (some dst) g t = some g' ∧ g.SameEdges g' := by
  unfold transferWeights
  split
  · refine ⟨_, rfl, rfl, fun t' => ?_, fun t' => ?_, fun t' => ?_⟩ <;>
    · simp only [setWeightsFromOwnedBuffer, Ir.tensor_modifyTensor]
      split <;> rfl
  · exact ⟨g, rfl, .refl g⟩

theorem foldlM_transferWeights (src : Option ManagerId) (dst : ManagerId) (ts : List TensorId)
    (g : Ir) : ∃ g', ts.foldlM (transferWeights src (some dst)) g = some g' ∧ g.SameEdges g' := by
  induction ts generalizing g with
  | nil => exact ⟨g, rfl, .refl g⟩
  | cons t ts ih =>
    obtain ⟨g₁, he, h₁⟩ := transferWeights_sameEdges src dst g t
    obtain ⟨g', he', h'⟩ := ih g₁
    exact ⟨g', by rw [foldlM_cons, he]; exact he', h₁.trans h'⟩

/-! ## The edges -/

section
variable {g₀ g : Ir} {sg : Subgraph} {b : Builder} {es : List OpId} {o : OpId}

theorem BuilderInv.wellFormedAt (h : BuilderInv g₀ sg.tensors g b) (hc : g₀.Closed) {r : OpId}
    (hr : r < g₀.alloc.nextOp) (hwf : g₀.WellFormedAt r) : g.WellFormedAt r := by
  refine ⟨fun t i => ?_, fun j t hj => ?_, fun t hd => ?_⟩
  · by_cases ht : t < g₀.alloc.nextTensor
    · rw [h.tensor t ht, h.op r hr]
      exact hwf.uses_count t i
    · exact h.uses t (Nat.le_of_not_lt ht) r i
  · have ht : t < g₀.alloc.nextTensor := by
      rw [h.op r hr] at hj
      exact hc.result r t (mem_of_getElem? hj)
    rw [h.op r hr] at hj
    rw [h.tensor t ht]
    exact hwf.def_sound j t hj
  · by_cases ht : t < g₀.alloc.nextTensor
    · rw [h.tensor t ht] at hd ⊢
      rw [h.op r hr]
      exact hwf.def_complete t hd
    · exact h.def_complete t (Nat.le_of_not_lt ht) r hd

/-- The op that lists a redefined tensor, and where. -/
theorem BuilderInv.redefined_unique (h : BuilderInv g₀ sg.tensors g b)
    (hnd : b.subgraph.outputs.Nodup) {t : TensorId} (ht : t < g₀.alloc.nextTensor) {n n' : OpId}
    {j j' : Nat} (hn : n ∈ b.subgraph.ops) (hn' : n' ∈ b.subgraph.ops)
    (hj : (g.op n).outputs[j]? = some t) (hj' : (g.op n').outputs[j']? = some t) :
    n = n' ∧ j = j' := by
  rw [h.outputs, nodup_flatMap] at hnd
  obtain ⟨hone, hdisj⟩ := hnd
  have hmem {o : OpId} {i : Nat} (hi : (g.op o).outputs[i]? = some t) :
      t ∈ (g.op o).outputs.filter (· < g₀.alloc.nextTensor) :=
    mem_filter.mpr ⟨mem_of_getElem? hi, by simpa using ht⟩
  have heq : n = n' := by
    by_contra hne
    have hsymm : Std.Symm (Function.onFun List.Disjoint fun o =>
        (g.op o).outputs.filter (· < g₀.alloc.nextTensor)) := ⟨fun _ _ hd _ h1 h2 => hd h2 h1⟩
    exact (hdisj.forall hn hn' hne) (hmem hj) (hmem hj')
  subst heq
  refine ⟨rfl, getElem?_inj_of_count_le_one ?_ hj hj'⟩
  have hcount := nodup_iff_count_le_one.mp (hone n hn) t
  rwa [count_filter (by simpa using ht)] at hcount

def liveNewOps (g : Ir) (b : Builder) (es : List OpId) : List OpId :=
  (dce (es.foldl Ir.eraseEdges g) b.subgraph).ops

/-- The graph after the erased ops are dropped and the new ops reconnected. -/
def rewritten (g : Ir) (b : Builder) (es : List OpId) : Ir :=
  (liveNewOps g b es).foldl (reconnect b.subgraph) (es.foldl Ir.eraseEdges g)

variable (h : BuilderInv g₀ sg.tensors g b) (hc : g₀.Closed) (ha : sg.Allocated g₀)
  (hwf : sg.WellFormed g₀) (hadm : b.Admissible g₀ sg g) (hes : ∀ e, e ∈ es ↔ e ∈ b.erases)
  {n r : OpId} {t : TensorId}

theorem op_rewritten (o : OpId) : (rewritten g b es).op o = (es.foldl Ir.eraseEdges g).op o := by
  rw [rewritten, op_foldl_reconnect]

include ha hadm hes in
theorem not_mem_erases (hn : g₀.alloc.nextOp ≤ n) : n ∉ es := fun hm =>
  absurd (ha.op n (hadm.erases n ((hes n).mp hm))) (Nat.not_lt.mpr hn)

include ha hadm hes in
theorem op_rewritten_new (hn : g₀.alloc.nextOp ≤ n) : (rewritten g b es).op n = g.op n := by
  rw [op_rewritten, op_foldl_eraseEdges_of_not_mem (not_mem_erases ha hadm hes hn)]

include h ha hadm hes in
theorem mem_liveNewOps : n ∈ liveNewOps g b es ↔ n ∈ b.subgraph.ops ∧ ¬ isOpDead (g.op n) := by
  rw [liveNewOps, mem_ops_dce]
  refine and_congr_right fun hn => ?_
  rw [op_foldl_eraseEdges_of_not_mem (not_mem_erases ha hadm hes ((h.mem_ops n).mp hn).1)]

include h in
theorem nodup_liveNewOps : (liveNewOps g b es).Nodup := h.ops_nodup.sublist filter_sublist

include h in
theorem mem_inputs_iff : t ∈ b.subgraph.inputs ↔
    t < g₀.alloc.nextTensor ∧ ∃ n ∈ b.subgraph.ops, t ∈ (g.op n).inputs := by
  rw [h.inputs]
  simp only [mem_flatMap, mem_filter, decide_eq_true_eq]
  exact ⟨fun ⟨n, hn, hm, hlt⟩ => ⟨hlt, n, hn, hm⟩, fun ⟨hlt, n, hn, hm⟩ => ⟨n, hn, hm, hlt⟩⟩

include h in
theorem mem_outputs_iff : t ∈ b.subgraph.outputs ↔
    t < g₀.alloc.nextTensor ∧ ∃ n ∈ b.subgraph.ops, t ∈ (g.op n).outputs := by
  rw [h.outputs]
  simp only [mem_flatMap, mem_filter, decide_eq_true_eq]
  exact ⟨fun ⟨n, hn, hm, hlt⟩ => ⟨hlt, n, hn, hm⟩, fun ⟨hlt, n, hn, hm⟩ => ⟨n, hn, hm, hlt⟩⟩

include h ha hadm hes in
/-- The use records after the rewrite. -/
theorem count_users_rewritten (o : OpId) (i : Nat) :
    ((rewritten g b es).tensor t).users.count (o, i) =
      ((g.tensor t).users.filter fun u => u.1 ∉ es).count (o, i) +
        if o ∈ b.subgraph.ops ∧ t < g₀.alloc.nextTensor ∧ (g.op o).inputs[i]? = some t then 1
        else 0 := by
  rw [rewritten, count_users_foldl_reconnect (nodup_liveNewOps h), users_foldl_eraseEdges]
  congr 1
  refine if_congr ?_ rfl rfl
  rw [mem_liveNewOps h ha hadm hes, mem_inputs_iff h]
  constructor
  · rintro ⟨⟨ho, -⟩, ⟨hlt, -⟩, hi⟩
    rw [op_foldl_eraseEdges_of_not_mem (not_mem_erases ha hadm hes ((h.mem_ops o).mp ho).1)] at hi
    exact ⟨ho, hlt, hi⟩
  · rintro ⟨ho, hlt, hi⟩
    rw [op_foldl_eraseEdges_of_not_mem (not_mem_erases ha hadm hes ((h.mem_ops o).mp ho).1)]
    refine ⟨⟨ho, fun hdead => ?_⟩, ⟨hlt, o, ho, mem_of_getElem? hi⟩, hi⟩
    rw [(isOpDead_iff.mp hdead).1] at hi
    simp at hi

/-- A tensor no new op redefines keeps its definition unless that is erased. -/
theorem def_rewritten_of_not_mem (ht : t ∉ b.subgraph.outputs) :
    ((rewritten g b es).tensor t).definingOp = some o ↔
      (g.tensor t).definingOp = some o ∧ o ∉ es := by
  rw [rewritten, (def_foldl_reconnect_of_not_mem fun hm => absurd hm ht).1,
    definingOp_foldl_eraseEdges]

theorem definingOpOutInd_foldl_eraseEdges
    (hd : ((es.foldl Ir.eraseEdges g).tensor t).definingOp = some o) :
    ((es.foldl Ir.eraseEdges g).tensor t).definingOpOutInd = (g.tensor t).definingOpOutInd := by
  induction es using List.reverseRecOn with
  | nil => rfl
  | append_singleton es e ih =>
    simp only [foldl_append, foldl_cons, foldl_nil] at hd ⊢
    rw [definingOp_eraseEdges] at hd
    split at hd
    · cases hd
    · next hne =>
      simp only [Ir.eraseEdges, hne, ↓reduceIte]
      exact ih hd

include h ha hadm hes in
/-- A redefined tensor is defined by the new op that lists it. -/
theorem def_rewritten_of_mem (ht : t ∈ b.subgraph.outputs) :
    ∃ n j, n ∈ b.subgraph.ops ∧ (g.op n).outputs[j]? = some t ∧
      ((rewritten g b es).tensor t).definingOp = some n ∧
      ((rewritten g b es).tensor t).definingOpOutInd = j := by
  obtain ⟨hlt, n, hn, hm⟩ := (mem_outputs_iff h).mp ht
  obtain ⟨j, hj⟩ := mem_iff_getElem?.mp hm
  have hop {o : OpId} (ho : o ∈ b.subgraph.ops) : (es.foldl Ir.eraseEdges g).op o = g.op o :=
    op_foldl_eraseEdges_of_not_mem (not_mem_erases ha hadm hes ((h.mem_ops o).mp ho).1)
  refine ⟨n, j, hn, hj, ?_⟩
  refine def_foldl_reconnect_of_mem (nodup_liveNewOps h) ht ?_ (by rwa [hop hn]) ?_
  · refine (mem_liveNewOps h ha hadm hes).mpr ⟨hn, fun hdead => ?_⟩
    rw [(isOpDead_iff.mp hdead).2] at hj
    simp at hj
  · intro o ho j' hj'
    have ho := ((mem_liveNewOps h ha hadm hes).mp ho).1
    rw [hop ho] at hj'
    exact h.redefined_unique hadm.redefines_once hlt ho hn hj' hj

include hwf hadm hes in
theorem definingOp_redefined (ht : t ∈ b.subgraph.outputs) :
    ∃ e ∈ es, (g₀.tensor t).definingOp = some e := by
  obtain ⟨e, he, hm⟩ := hadm.redefines t ht
  exact ⟨e, (hes e).mpr he, (hwf.edges e (hadm.erases e he)).mem_outputs_iff.mp hm⟩

include h hc ha hwf hadm hes in
theorem rewritten_wellFormedAt_root (hr : r ∈ sg.ops) : (rewritten g b es).WellFormedAt r := by
  have hlt := ha.op r hr
  have hnew : r ∉ b.subgraph.ops := fun hm =>
    absurd ((h.mem_ops r).mp hm).1 (Nat.not_le.mpr hlt)
  have h1 := wellFormedAt_foldl_eraseEdges (h.wellFormedAt hc hlt (hwf.edges r hr)) es
  refine ⟨fun t i => ?_, fun j t hj => ?_, fun t hd => ?_⟩
  · rw [count_users_rewritten h ha hadm hes, op_rewritten, if_neg (fun hcond => hnew hcond.1),
      ← users_foldl_eraseEdges]
    exact h1.uses_count t i
  · rw [op_rewritten] at hj
    have hd := h1.def_sound j t hj
    have hnot : t ∉ b.subgraph.outputs := by
      intro hm
      obtain ⟨e, he, hde⟩ := definingOp_redefined hwf hadm hes hm
      have := (definingOp_foldl_eraseEdges.mp hd.1)
      rw [h.tensor t ((mem_outputs_iff h).mp hm).1, hde] at this
      exact this.2 (Option.some.inj this.1 ▸ he)
    rw [rewritten, (def_foldl_reconnect_of_not_mem fun hm => absurd hm hnot).1,
      (def_foldl_reconnect_of_not_mem fun hm => absurd hm hnot).2]
    exact hd
  · by_cases hm : t ∈ b.subgraph.outputs
    · obtain ⟨n, j, hn, -, hdn, -⟩ := def_rewritten_of_mem h ha hadm hes hm
      rw [hdn] at hd
      exact absurd (Option.some.inj hd ▸ hn) hnew
    · rw [op_rewritten]
      rw [rewritten, (def_foldl_reconnect_of_not_mem fun hm' => absurd hm' hm).1] at hd
      rw [rewritten, (def_foldl_reconnect_of_not_mem fun hm' => absurd hm' hm).2]
      exact h1.def_complete t hd

include h hc ha hadm hes in
theorem rewritten_wellFormedAt_new (hn : n ∈ b.subgraph.ops) :
    (rewritten g b es).WellFormedAt n := by
  have hge := ((h.mem_ops n).mp hn).1
  have hes' := not_mem_erases ha hadm hes hge
  have hop := op_rewritten_new ha hadm hes (n := n) hge
  refine ⟨fun t i => ?_, fun j t hj => ?_, fun t hd => ?_⟩
  · rw [count_users_rewritten h ha hadm hes, hop, count_filter (by simpa using hes')]
    by_cases ht : t < g₀.alloc.nextTensor
    · have h0 : (g.tensor t).users.count (n, i) = 0 := by
        rw [h.tensor t ht]
        exact count_eq_zero.mpr fun hm => absurd (hc.user t _ hm) (Nat.not_lt.mpr hge)
      rw [h0]
      simp [hn, ht]
    · rw [h.uses t (Nat.le_of_not_lt ht)]
      simp [ht]
  · rw [hop] at hj
    by_cases ht : t < g₀.alloc.nextTensor
    · have hm : t ∈ b.subgraph.outputs :=
        (mem_outputs_iff h).mpr ⟨ht, n, hn, mem_of_getElem? hj⟩
      obtain ⟨n', j', hn', hj', hd⟩ := def_rewritten_of_mem h ha hadm hes hm
      obtain ⟨rfl, rfl⟩ := h.redefined_unique hadm.redefines_once ht hn hn' hj hj'
      exact hd
    · have hnot : t ∉ b.subgraph.outputs := fun hm => ht ((mem_outputs_iff h).mp hm).1
      have hd := h.def_sound t (Nat.le_of_not_lt ht) n j hj
      have hd1 : ((es.foldl Ir.eraseEdges g).tensor t).definingOp = some n :=
        definingOp_foldl_eraseEdges.mpr ⟨hd.1, hes'⟩
      rw [rewritten, (def_foldl_reconnect_of_not_mem fun hm => absurd hm hnot).1,
        (def_foldl_reconnect_of_not_mem fun hm => absurd hm hnot).2,
        definingOpOutInd_foldl_eraseEdges hd1]
      exact ⟨hd1, hd.2⟩
  · rw [hop]
    by_cases hm : t ∈ b.subgraph.outputs
    · obtain ⟨n', j', hn', hj', hdn, hind⟩ := def_rewritten_of_mem h ha hadm hes hm
      obtain rfl := Option.some.inj (hdn.symm.trans hd)
      rw [hind]
      exact hj'
    · have hd' := (def_rewritten_of_not_mem hm).mp hd
      have ht : g₀.alloc.nextTensor ≤ t := by
        refine Nat.le_of_not_lt fun hlt => ?_
        rw [h.tensor t hlt] at hd'
        exact absurd (hc.definer t n hd'.1) (Nat.not_lt.mpr hge)
      have hd1 : ((es.foldl Ir.eraseEdges g).tensor t).definingOp = some n :=
        definingOp_foldl_eraseEdges.mpr hd'
      rw [rewritten, (def_foldl_reconnect_of_not_mem fun hm' => absurd hm' hm).2,
        definingOpOutInd_foldl_eraseEdges hd1]
      exact h.def_complete t ht n hd'.1

/-! ## The subgraph -/

/-- The builder's tensors that are not dead. -/
def liveNewTensors (g : Ir) (b : Builder) (es : List OpId) : List TensorId :=
  (dce (es.foldl Ir.eraseEdges g) b.subgraph).tensors

/-- The subgraph with the new ops and tensors, before the erased ones are removed. -/
def spliced (g : Ir) (b : Builder) (es : List OpId) (sg : Subgraph) : Subgraph :=
  let p := sg.ops.findIdx (· ∈ es)
  { sg with
    ops := sg.ops.take p ++ liveNewOps g b es ++ sg.ops.drop p
    tensors := sg.tensors ++ liveNewTensors g b es }

theorem mem_ops_spliced :
    o ∈ (spliced g b es sg).ops ↔ o ∈ sg.ops ∨ o ∈ liveNewOps g b es := by
  simp only [spliced, mem_append]
  conv_rhs => rw [← take_append_drop (sg.ops.findIdx (· ∈ es)) sg.ops, mem_append]
  tauto

include h in
/-- The ops at a tensor of the builder are new ops. -/
theorem new_of_mem_args (hc : g₀.Closed) (ht : g₀.alloc.nextTensor ≤ t)
    (hm : t ∈ (g.op o).inputs ∨ t ∈ (g.op o).outputs) :
    o ∈ b.subgraph.ops ∧ ¬ isOpDead (g.op o) := by
  refine ⟨(h.mem_ops o).mpr ⟨Nat.le_of_not_lt fun hlt => ?_, Nat.lt_of_not_le fun hle => ?_⟩,
    fun hdead => ?_⟩
  · rw [h.op o hlt] at hm
    rcases hm with hm | hm
    · exact absurd (hc.operand o t hm) (Nat.not_lt.mpr ht)
    · exact absurd (hc.result o t hm) (Nat.not_lt.mpr ht)
  · simp [(h.closed.op o hle).1, (h.closed.op o hle).2] at hm
  · simp [(isOpDead_iff.mp hdead).1, (isOpDead_iff.mp hdead).2] at hm

include h ha hadm hes in
theorem mem_liveNewTensors (hn : n ∈ b.subgraph.ops) (ht : g₀.alloc.nextTensor ≤ t)
    (hm : t ∈ (g.op n).inputs ∨ t ∈ (g.op n).outputs) : t ∈ liveNewTensors g b es := by
  have hes' := not_mem_erases ha hadm hes ((h.mem_ops n).mp hn).1
  refine mem_tensors_dce.mpr ⟨?_, fun hdead => ?_⟩
  · rw [h.tensors, h.mem_allocated]
    exact ⟨ht, hm.elim (h.closed.operand n t) (h.closed.result n t)⟩
  · obtain ⟨hdef, huse⟩ := isTensorDead_iff.mp hdead
    exfalso
    rcases hm with hm | hm
    · obtain ⟨i, hi⟩ := mem_iff_getElem?.mp hm
      have hcount := h.uses t ht n i
      rw [if_pos hi] at hcount
      have hmem : (n, i) ∈ (g.tensor t).users := count_pos_iff.mp (by omega)
      rw [users_foldl_eraseEdges, filter_eq_nil_iff] at huse
      exact absurd hes' (by simpa using huse (n, i) hmem)
    · obtain ⟨j, hj⟩ := mem_iff_getElem?.mp hm
      have := definingOp_foldl_eraseEdges.mpr ⟨(h.def_sound t ht n j hj).1, hes'⟩
      rw [hdef] at this
      cases this

include h hc ha hwf hadm hes in
theorem spliced_wellFormed : (spliced g b es sg).WellFormed (rewritten g b es) := by
  have hlt (t : TensorId) (ht : t ∈ sg.tensors) : t < g₀.alloc.nextTensor := ha.tensor t ht
  have hge (t : TensorId) (ht : t ∈ liveNewTensors g b es) : g₀.alloc.nextTensor ≤ t := by
    have := (mem_tensors_dce.mp ht).1
    rw [h.tensors, h.mem_allocated] at this
    exact this.1
  have hlive {n : OpId} : n ∈ liveNewOps g b es ↔ _ := mem_liveNewOps h ha hadm hes
  constructor
  · have hperm : (spliced g b es sg).ops.Perm (liveNewOps g b es ++ sg.ops) := by
      have := perm_append_comm_assoc (sg.ops.take (sg.ops.findIdx (· ∈ es)))
        (liveNewOps g b es) (sg.ops.drop (sg.ops.findIdx (· ∈ es)))
      simpa only [spliced, append_assoc, take_append_drop] using this
    rw [hperm.nodup_iff, nodup_append]
    refine ⟨nodup_liveNewOps h, hwf.ops_nodup, ?_⟩
    rintro n hn o ho rfl
    exact absurd (ha.op n ho) (Nat.not_lt.mpr ((h.mem_ops n).mp (hlive.mp hn).1).1)
  · refine nodup_append.mpr ⟨hwf.tensors_nodup, h.tensors_nodup.sublist filter_sublist, ?_⟩
    rintro t ht t' ht' rfl
    exact absurd (hlt t ht) (Nat.not_lt.mpr (hge t ht'))
  · intro o ho
    rcases mem_ops_spliced.mp ho with ho | ho
    · exact rewritten_wellFormedAt_root h hc ha hwf hadm hes ho
    · exact rewritten_wellFormedAt_new h hc ha hadm hes (hlive.mp ho).1
  · intro o ho t ht
    refine mem_append.mpr ?_
    rcases mem_ops_spliced.mp ho with ho | ho
    · rw [op_rewritten] at ht
      by_cases he : o ∈ es
      · simp [(op_foldl_eraseEdges_of_mem he).1] at ht
      · rw [op_foldl_eraseEdges_of_not_mem he, h.op o (ha.op o ho)] at ht
        exact .inl (hwf.operands o ho t ht)
    · have hn := (hlive.mp ho).1
      have hge' := ((h.mem_ops o).mp hn).1
      rw [op_rewritten_new ha hadm hes hge'] at ht
      rcases Nat.lt_or_ge t g₀.alloc.nextTensor with hltt | hget
      · exact .inl (h.args o hge' t (.inl ht) hltt)
      · exact .inr (mem_liveNewTensors h ha hadm hes hn hget (.inl ht))
  · intro o ho t ht
    refine mem_append.mpr ?_
    rcases mem_ops_spliced.mp ho with ho | ho
    · rw [op_rewritten] at ht
      by_cases he : o ∈ es
      · simp [(op_foldl_eraseEdges_of_mem he).2] at ht
      · rw [op_foldl_eraseEdges_of_not_mem he, h.op o (ha.op o ho)] at ht
        exact .inl (hwf.results o ho t ht)
    · have hn := (hlive.mp ho).1
      have hge' := ((h.mem_ops o).mp hn).1
      rw [op_rewritten_new ha hadm hes hge'] at ht
      rcases Nat.lt_or_ge t g₀.alloc.nextTensor with hltt | hget
      · exact .inl (h.args o hge' t (.inr ht) hltt)
      · exact .inr (mem_liveNewTensors h ha hadm hes hn hget (.inr ht))
  · rintro t ht ⟨o, i⟩ hu
    have hpos := count_pos_iff.mpr hu
    rw [count_users_rewritten h ha hadm hes] at hpos
    refine mem_ops_spliced.mpr ?_
    by_cases hcond : o ∈ b.subgraph.ops ∧ t < g₀.alloc.nextTensor ∧ (g.op o).inputs[i]? = some t
    · refine .inr (hlive.mpr ⟨hcond.1, fun hdead => ?_⟩)
      have := mem_of_getElem? hcond.2.2
      simp [(isOpDead_iff.mp hdead).1] at this
    · rw [if_neg hcond, Nat.add_zero] at hpos
      have hu := (mem_filter.mp (count_pos_iff.mp hpos)).1
      rcases mem_append.mp ht with ht | ht
      · rw [h.tensor t (hlt t ht)] at hu
        exact .inl (hwf.users t ht _ hu)
      · have hcount := h.uses t (hge t ht) o i
        have hi : (g.op o).inputs[i]? = some t := by
          by_contra hne
          rw [if_neg hne] at hcount
          exact count_eq_zero.mp hcount hu
        exact .inr (hlive.mpr (new_of_mem_args h hc (hge t ht) (.inl (mem_of_getElem? hi))))
  · intro t ht o hd
    refine mem_ops_spliced.mpr ?_
    by_cases hm : t ∈ b.subgraph.outputs
    · obtain ⟨n, j, hn, hj, hdn, -⟩ := def_rewritten_of_mem h ha hadm hes hm
      obtain rfl := Option.some.inj (hdn.symm.trans hd)
      refine .inr (hlive.mpr ⟨hn, fun hdead => ?_⟩)
      have := mem_of_getElem? hj
      simp [(isOpDead_iff.mp hdead).2] at this
    · have hd := ((def_rewritten_of_not_mem hm).mp hd).1
      rcases mem_append.mp ht with ht | ht
      · rw [h.tensor t (hlt t ht)] at hd
        exact .inl (hwf.definers t ht o hd)
      · have hj := h.def_complete t (hge t ht) o hd
        exact .inr (hlive.mpr (new_of_mem_args h hc (hge t ht) (.inr (mem_of_getElem? hj))))
  · exact fun t hio => mem_append_left _ (hwf.ios t hio)

/-! ## The order -/

include h hc ha hadm hes in
/-- What a tensor depends on among the ops that stay. -/
theorem definingOp_rewritten_root (hr : r < g₀.alloc.nextOp) :
    ((rewritten g b es).tensor t).definingOp = some r →
      (g₀.tensor t).definingOp = some r ∧ r ∉ es := by
  intro hd
  have hm : t ∉ b.subgraph.outputs := fun hm => by
    obtain ⟨n, j, hn, -, hdn, -⟩ := def_rewritten_of_mem h ha hadm hes hm
    obtain rfl := Option.some.inj (hdn.symm.trans hd)
    exact absurd ((h.mem_ops n).mp hn).1 (Nat.not_le.mpr hr)
  have hd := (def_rewritten_of_not_mem hm).mp hd
  refine ⟨?_, hd.2⟩
  by_cases ht : t < g₀.alloc.nextTensor
  · rw [← h.tensor t ht]
    exact hd.1
  · have hj := mem_of_getElem? (h.def_complete t (Nat.le_of_not_lt ht) r hd.1)
    rw [h.op r hr] at hj
    exact absurd (hc.result r t hj) ht

include hes in
theorem take_findIdx_erased (sg : Subgraph) : sg.ops.take (sg.ops.findIdx (· ∈ es)) =
    sg.ops.takeWhile (· ∉ b.erases) := by
  rw [takeWhile_eq_take_findIdx_not]
  simp [hes]

include h ha in
/-- An op of the graph that still has an edge keeps its operands and results. -/
theorem op_rewritten_root (hr : r ∈ sg.ops)
    (hlive : ((rewritten g b es).op r).inputs ≠ [] ∨ ((rewritten g b es).op r).outputs ≠ []) :
    (rewritten g b es).op r = g₀.op r ∧ r ∉ es := by
  rw [op_rewritten] at hlive ⊢
  by_cases he : r ∈ es
  · simp [op_foldl_eraseEdges_of_mem he] at hlive
  · exact ⟨by rw [op_foldl_eraseEdges_of_not_mem he, h.op r (ha.op r hr)], he⟩

include h hc ha hwf hadm hes in
/-- The op list after the rewrite is sorted exactly when the operands are ready. -/
theorem topoOrder_spliced_iff (htopo : g₀.TopoOrder sg.ops) :
    (rewritten g b es).TopoOrder
        ((spliced g b es sg).ops.filter fun o => !isOpDead ((rewritten g b es).op o)) ↔
      b.OperandsReady g₀ sg g := by
  have htake := take_findIdx_erased hes sg
  have hsplit := take_append_drop (sg.ops.findIdx (· ∈ es)) sg.ops
  rw [htake] at hsplit
  set early := sg.ops.takeWhile (· ∉ b.erases) with hearly
  set late := sg.ops.drop (sg.ops.findIdx (· ∈ es))
  set alive : OpId → Bool := fun o => !isOpDead ((rewritten g b es).op o) with halive
  have hops : (spliced g b es sg).ops.filter alive =
      early.filter alive ++ (liveNewOps g b es).filter alive ++ late.filter alive := by
    simp only [spliced, htake, filter_append]
    rfl
  have hroot {r : OpId} (hr : r ∈ early.filter alive ∨ r ∈ late.filter alive) : r ∈ sg.ops := by
    rw [← hsplit, mem_append]
    exact hr.imp (fun h => (mem_filter.mp h).1) fun h => (mem_filter.mp h).1
  have hnew {n : OpId} (hn : n ∈ (liveNewOps g b es).filter alive) : n ∈ b.subgraph.ops :=
    ((mem_liveNewOps h ha hadm hes).mp (mem_filter.mp hn).1).1
  have hold : Topological (rewritten g b es).DependsOn
      (early.filter alive ++ late.filter alive) := by
    rw [← filter_append, hsplit]
    refine (htopo.filter alive).mono ?_
    rintro a hma r hmr ⟨t, ht, hd⟩
    have hma := (mem_filter.mp hma).1
    have hmr := (mem_filter.mp hmr).1
    obtain ⟨hop, -⟩ := op_rewritten_root h ha hma (.inl (ne_nil_of_mem ht))
    exact ⟨t, hop ▸ ht, (definingOp_rewritten_root h hc ha hadm hes (ha.op r hmr) hd).1⟩
  have hblock : Topological (rewritten g b es).DependsOn ((liveNewOps g b es).filter alive) := by
    refine (hadm.ordered.sublist (filter_sublist.trans filter_sublist)).mono ?_
    rintro n hn n' hn' ⟨t, ht, hd⟩
    have hge {o : OpId} (ho : o ∈ b.subgraph.ops) := ((h.mem_ops o).mp ho).1
    have hm := (rewritten_wellFormedAt_new h hc ha hadm hes (hnew hn')).mem_outputs_iff.mpr hd
    rw [op_rewritten_new ha hadm hes (hge (hnew hn))] at ht
    rw [op_rewritten_new ha hadm hes (hge (hnew hn'))] at hm
    exact ⟨t, ht, hm⟩
  have hbefore : ∀ a ∈ early.filter alive, ∀ n ∈ (liveNewOps g b es).filter alive,
      ¬ (rewritten g b es).DependsOn a n := by
    rintro a hma n hn ⟨t, ht, hd⟩
    have hear := (mem_filter.mp hma).1
    obtain ⟨hop, -⟩ := op_rewritten_root h ha (hroot (.inl hma)) (.inl (ne_nil_of_mem ht))
    rw [hop] at ht
    have hge := ((h.mem_ops n).mp (hnew hn)).1
    have hm := (rewritten_wellFormedAt_new h hc ha hadm hes (hnew hn)).mem_outputs_iff.mpr hd
    rw [op_rewritten_new ha hadm hes hge] at hm
    -- the new op redefines a result of an erased op, which stands after `a`
    obtain ⟨e, he, hde⟩ := definingOp_redefined hwf hadm hes
      ((mem_outputs_iff h).mpr ⟨hc.operand a t ht, n, hnew hn, hm⟩)
    have heo := hadm.erases e ((hes e).mp he)
    rw [← hsplit, mem_append] at heo
    have helate : e ∈ late := heo.resolve_left fun hm => by
      have := mem_takeWhile_imp hm
      simp only [decide_eq_true_eq] at this
      exact this ((hes e).mp he)
    have hsorted := htopo.sorted
    rw [← hsplit] at hsorted
    exact (pairwise_append.mp hsorted).2.2 a hear e helate ⟨t, ht, hde⟩
  rw [hops, Ir.TopoOrder, Topological.splice_iff hold hblock hbefore]
  constructor
  · intro hno n hn t ht r hd hr
    by_contra hnear
    have hge := ((h.mem_ops n).mp hn).1
    have htlt : t < g₀.alloc.nextTensor := Nat.lt_of_not_le fun hle => by
      rw [(hc.tensor t hle).2] at hd
      cases hd
    have hro : r ∈ sg.ops := hwf.definers t (h.args n hge t (.inl ht) htlt) r hd
    have hes' : r ∉ es := fun hm => hr ((hes r).mp hm)
    have hm : t ∉ b.subgraph.outputs := fun hm => by
      obtain ⟨e, he, hde⟩ := definingOp_redefined hwf hadm hes hm
      exact hes' (Option.some.inj (hde.symm.trans hd) ▸ he)
    have hdr : ((rewritten g b es).tensor t).definingOp = some r :=
      (def_rewritten_of_not_mem hm).mpr ⟨h.tensor t htlt ▸ hd, hes'⟩
    have hnlive : n ∈ (liveNewOps g b es).filter alive := by
      have hdead : ¬ isOpDead (g.op n) := fun hdead => by
        simp [(isOpDead_iff.mp hdead).1] at ht
      refine mem_filter.mpr ⟨(mem_liveNewOps h ha hadm hes).mpr ⟨hn, hdead⟩, ?_⟩
      simp only [halive, op_rewritten_new ha hadm hes hge]
      simpa using hdead
    have hrlive : r ∈ late.filter alive := by
      refine mem_filter.mpr ⟨?_, ?_⟩
      · rw [← hsplit, mem_append] at hro
        exact hro.resolve_left hnear
      · have := (rewritten_wellFormedAt_root h hc ha hwf hadm hes hro).mem_outputs_iff.mpr hdr
        simp only [halive, Bool.not_eq_true', Bool.eq_false_iff, ne_eq]
        intro hdead
        simp [(isOpDead_iff.mp hdead).2] at this
    refine hno n hnlive r hrlive ⟨t, ?_, hdr⟩
    rwa [op_rewritten_new ha hadm hes hge]
  · rintro hready n hn r hr ⟨t, ht, hd⟩
    rw [op_rewritten_new ha hadm hes ((h.mem_ops n).mp (hnew hn)).1] at ht
    obtain ⟨hd, hre⟩ := definingOp_rewritten_root h hc ha hadm hes (ha.op r (hroot (.inr hr))) hd
    have hear := hready n (hnew hn) t ht r hd fun hm => hre ((hes r).mpr hm)
    have hnd := hwf.ops_nodup
    rw [← hsplit] at hnd
    exact (nodup_append.mp hnd).2.2 r hear r (mem_filter.mp hr).1 rfl

end

/-! ## ApplyChanges -/

/-- **Rewrite transactions.** After a run of builder calls on a well-formed, sorted
subgraph, `ApplyChanges` runs through, leaves a well-formed subgraph, and leaves
it sorted exactly when the new ops read no op that stays after the first erased one. -/
theorem applyChanges_topoOrder_iff {g₀ g : Ir} {sg : Subgraph} {b : Builder}
    {m : Option ManagerId} {as : List BuilderAction} {es : List OpId}
    (hclosed : g₀.Closed) (halloc : sg.Allocated g₀) (hmgr : sg.bufferManager.isSome)
    (hwf : sg.WellFormed g₀) (htopo : g₀.TopoOrder sg.ops)
    (hrun : Run (fun s a => BuilderAction.UsesTensors sg s a) BuilderAction.apply
      (g₀, { subgraph := { bufferManager := m } }) as (g, b))
    (hadm : b.Admissible g₀ sg g) (hes : es.Perm b.erases) :
    ∃ g' sg', applyChanges g b es sg = some (g', sg') ∧ sg'.WellFormed g' ∧
      (g'.TopoOrder sg'.ops ↔ b.OperandsReady g₀ sg g) := by
  have h := builderInv_of_run hclosed halloc.tensor hrun
  have hes' (e : OpId) : e ∈ es ↔ e ∈ b.erases := hes.mem_iff
  obtain ⟨dst, hdst⟩ := Option.isSome_iff_exists.mp hmgr
  have hdrop : es.foldlM drop g = some (es.foldl Ir.eraseEdges g) := by
    refine foldlM_drop fun e he => ?_
    have hm := hadm.erases e ((hes' e).mp he)
    exact h.wellFormedAt hclosed (halloc.op e hm) (hwf.edges e hm)
  obtain ⟨g', he, hsame⟩ := foldlM_transferWeights b.subgraph.bufferManager dst
    (liveNewTensors g b es) (rewritten g b es)
  have hfinal : applyChanges g b es sg = some (g',
      { dce (rewritten g b es) { sg with ops := (spliced g b es sg).ops } with
        tensors := (dce (rewritten g b es) { sg with ops := (spliced g b es sg).ops }).tensors ++
          liveNewTensors g b es }) := by
    have he' : (liveNewTensors g b es).foldlM
        (transferWeights b.subgraph.bufferManager sg.bufferManager) (rewritten g b es) = some g' := by
      rw [hdst]
      exact he
    simp only [applyChanges, hdrop, Option.bind_eq_bind, Option.bind_some, spliceIndex_eq]
    erw [he']
    rfl
  refine ⟨g', _, hfinal, hsame.wellFormed ?_, ?_⟩
  · refine (spliced_wellFormed h hclosed halloc hwf hadm hes').restrict filter_sublist
      (List.Sublist.append List.filter_sublist (List.Sublist.refl _)) rfl rfl
      (fun o ho hd => mem_ops_dce.mpr ⟨ho, hd⟩) fun t ht hd => ?_
    rcases mem_append.mp ht with ht | ht
    · exact mem_append_left _ (mem_tensors_dce.mpr ⟨ht, hd⟩)
    · exact mem_append_right _ ht
  · rw [Ir.TopoOrder, hsame.dependsOn]
    exact topoOrder_spliced_iff h hclosed halloc hwf hadm hes' htopo

/-- Two branches from the input, joined by the last op. -/
def twoBranches : Ir :=
  .ofOps [{ inputs := [0], outputs := [1] }, { inputs := [0], outputs := [2] },
    { inputs := [1, 2], outputs := [3] }] 4 fun _ => {}

def twoBranchesSubgraph : Subgraph where
  tensors := List.range 4
  ops := List.range 3
  inputs := [0]
  outputs := [3]
  bufferManager := some 0

theorem twoBranches_closed : twoBranches.Closed := Ir.ofOps_closed (by decide) (by decide)

theorem twoBranches_wellFormed : twoBranchesSubgraph.WellFormed twoBranches :=
  Subgraph.ofOps_wellFormed (by decide) rfl rfl (by decide) (by decide) (by decide)

theorem twoBranches_topoOrder : twoBranches.TopoOrder twoBranchesSubgraph.ops :=
  ⟨by decide, by decide⟩

/-- The joining op replaced by two ops. -/
theorem applyChanges_replaces_join : ∃ g b g' sg',
    Run (fun s a => BuilderAction.UsesTensors twoBranchesSubgraph s a) BuilderAction.apply
      (twoBranches, { subgraph := { bufferManager := some 1 } })
      [.buildTensor {} .none {} none, .buildOp 0 [1, 2] [4], .buildOp 0 [4] [3], .eraseOp 2]
      (g, b) ∧
    applyChanges g b b.erases twoBranchesSubgraph = some (g', sg') ∧ sg'.WellFormed g' ∧
    g'.TopoOrder sg'.ops := by
  obtain ⟨g, b, hrun, hadm, hready⟩ : ∃ g b,
      Run (fun s a => BuilderAction.UsesTensors twoBranchesSubgraph s a) BuilderAction.apply
        (twoBranches, { subgraph := { bufferManager := some 1 } })
        [.buildTensor {} .none {} none, .buildOp 0 [1, 2] [4], .buildOp 0 [4] [3], .eraseOp 2]
        (g, b) ∧
      b.Admissible twoBranches twoBranchesSubgraph g ∧
      b.OperandsReady twoBranches twoBranchesSubgraph g :=
    ⟨_, _, .cons trivial rfl (.cons (by decide) rfl (.cons (by decide) rfl
      (.cons trivial rfl (.nil _)))),
      ⟨by decide, by decide, by decide, ⟨by decide, by decide⟩⟩, by decide⟩
  obtain ⟨g', sg', he, hwf, htopo⟩ := applyChanges_topoOrder_iff twoBranches_closed
    ⟨by decide, by decide⟩ rfl twoBranches_wellFormed twoBranches_topoOrder hrun hadm (.refl _)
  exact ⟨g, b, g', sg', hrun, he, hwf, htopo.mpr hready⟩

/-- The first and the last op replaced by one op, which then stands before the
branch it reads. -/
theorem applyChanges_not_topoOrder : ∃ g b g' sg',
    Run (fun s a => BuilderAction.UsesTensors twoBranchesSubgraph s a) BuilderAction.apply
      (twoBranches, { subgraph := { bufferManager := some 1 } })
      [.buildOp 0 [0, 2] [3], .eraseOp 0, .eraseOp 2] (g, b) ∧
    twoBranches.Closed ∧ twoBranchesSubgraph.WellFormed twoBranches ∧
    twoBranches.TopoOrder twoBranchesSubgraph.ops ∧
    b.Admissible twoBranches twoBranchesSubgraph g ∧
    applyChanges g b b.erases twoBranchesSubgraph = some (g', sg') ∧ ¬ g'.TopoOrder sg'.ops :=
  ⟨_, _, _, _, .cons (by decide) rfl (.cons trivial rfl (.cons trivial rfl (.nil _))),
    twoBranches_closed, twoBranches_wellFormed, twoBranches_topoOrder,
    ⟨by decide, by decide, by decide, ⟨by decide, by decide⟩⟩, rfl,
    fun h => absurd h.sorted (by decide)⟩

/-! ## Erasing what nobody reads -/

/-- No op left reads what the erased ops write, and no output is one of it. -/
def Unread (g : Ir) (sg : Subgraph) (es : List OpId) : Prop :=
  ∀ o ∈ es, ∀ t ∈ (g.op o).outputs, t ∉ sg.outputs ∧ ∀ u ∈ (g.tensor t).users, u.1 ∈ es

instance (sg : Subgraph) (es : List OpId) : Decidable (Unread g sg es) :=
  inferInstanceAs (Decidable (∀ o ∈ es, ∀ t ∈ (g.op o).outputs,
    t ∉ sg.outputs ∧ ∀ u ∈ (g.tensor t).users, u.1 ∈ es))

section
variable {V : Type} {S : Semantics V} {sg : Subgraph} {es : List OpId} {args vs : List V}

theorem exec_erased (e : Env TensorId V) :
    exec ((dce (es.foldl Ir.eraseEdges g) sg).ops.map
      (opInstr S (es.foldl Ir.eraseEdges g) noCalls)) e =
    exec ((sg.ops.filter (· ∉ es)).map (opInstr S g noCalls)) e := by
  have hidle (o : OpId) (hd : isOpDead ((es.foldl Ir.eraseEdges g).op o)) (e : Env TensorId V) :=
    @opInstr_idle V S _ noCalls o rfl hd e
  have hsame : ((sg.ops.filter (· ∉ es)).map (opInstr S g noCalls)) =
      (sg.ops.filter (· ∉ es)).map (opInstr S (es.foldl Ir.eraseEdges g) noCalls) := by
    refine map_congr_left fun o ho => ?_
    have ho : o ∉ es := by simpa using (mem_filter.mp ho).2
    simp only [opInstr, op_foldl_eraseEdges_of_not_mem ho]
  rw [hsame, exec_filter fun o _ hp => hidle o (isOpDead_iff.mpr
    (op_foldl_eraseEdges_of_mem (by simpa using hp)))]
  exact exec_filter (fun o _ hp => hidle o (by simpa using hp)) e

/-- A rewrite that only erases ops keeps what the subgraph computes. -/
theorem applyChanges_erases_computes {b : Builder} (hwf : sg.WellFormed g)
    (hops : b.subgraph.ops = []) (htensors : b.subgraph.tensors = []) (hes : es ⊆ sg.ops)
    (hun : Unread g sg es) (hv : evalSubgraph S g noCalls sg args = some vs) :
    ∃ g' sg', applyChanges g b es sg = some (g', sg') ∧
      evalSubgraph S g' noCalls sg' args = some vs := by
  refine ⟨es.foldl Ir.eraseEdges g, dce (es.foldl Ir.eraseEdges g) sg, ?_, ?_⟩
  · simp [applyChanges, foldlM_drop fun o ho => hwf.edges o (hes ho), dce, hops, htensors]
  · have hconst : constants S (es.foldl Ir.eraseEdges g) = constants S g :=
      funext fun t => constants_of_sameData (sameData_foldl_eraseEdges es g t)
    simp only [evalSubgraph, Block.eval, Subgraph.block, Option.bind_eq_some_iff] at hv ⊢
    obtain ⟨f, hf, hvs⟩ := hv
    have hreads (o : OpId) (ho : o ∈ sg.ops) (hp : decide (o ∉ es) = true) (t : TensorId)
        (ht : t ∈ (opInstr S g noCalls o).reads) : ∀ e ∈ es, t ∉ (g.op e).outputs := by
      intro e he hw
      obtain ⟨k, hk⟩ := (hwf.edges o ho).mem_inputs_iff.mp ht
      exact of_decide_eq_true hp ((hun e he t hw).2 _ hk)
    obtain ⟨f', hf', hU⟩ := exec_unread hreads
      (fun o _ hp t ht hU => hU o (by simpa using hp) ht) (fun _ _ => rfl) hf
    refine ⟨f', ?_, (Env.readAll_congr fun t ht => hU t fun o ho hw => ?_).trans hvs⟩
    · rw [hconst, inputs_dce, exec_erased, hf']
    · exact (hun o ho t hw).1 ht

end

/-- The first branch as the output, without the other ops. -/
theorem applyChanges_erases_branch : ∃ g' sg',
    applyChanges twoBranches { subgraph := {} } [2, 1] { twoBranchesSubgraph with outputs := [1] } =
      some (g', sg') ∧
    evalSubgraph ⟨fun _ vs _ => vs.foldl Nat.add 1, fun _ _ _ => 0⟩ g' noCalls sg' [5] = some [6] :=
  applyChanges_erases_computes (Subgraph.ofOps_wellFormed (by decide) rfl rfl (by decide)
    (by decide) (by decide)) rfl rfl (by decide) (by decide) rfl

end LiteRt.Model
