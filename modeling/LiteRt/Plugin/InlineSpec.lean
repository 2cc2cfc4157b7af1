import Mathlib.Algebra.GroupWithZero.Nat
import LiteRt.Model.Rewrite
import LiteRt.Plugin.InlineEdges

/-!
# What inlining does to the edges

Three stages: the copied decomposition (`Cloned`), its inputs connected to the
operands of the composite op (`Connected`), and the uses of the composite's
results moved to the copied results (`Inlined`).
-/

namespace LiteRt.Plugin

open LiteRt.Lib LiteRt.Model List

/-- A composite op in a main subgraph, and a decomposition of the same arity. -/
structure Inlinable (g : Ir) (main decomp : Subgraph) (dest : OpId) : Prop where
  closed : g.Closed
  main_wf : main.WellFormed g
  main_alloc : main.Allocated g
  topo : g.TopoOrder main.ops
  mem : dest ∈ main.ops
  decomp_wf : decomp.WellFormed g
  decomp_alloc : decomp.Allocated g
  inputs_nodup : decomp.inputs.Nodup
  inputs_undefined : ∀ t ∈ decomp.inputs, (g.tensor t).definingOp = none
  ops_disjoint : ∀ o ∈ main.ops, o ∉ decomp.ops
  tensors_disjoint : ∀ t ∈ main.tensors, t ∉ decomp.tensors
  numInputs : (g.op dest).inputs.length = decomp.inputs.length
  numOutputs : (g.op dest).outputs.length = decomp.outputs.length

def clonedOp (g : Ir) (decomp : Subgraph) (d : OpId) : OpId :=
  cloneAddr g.alloc.nextOp decomp.ops d

def clonedTensor (g : Ir) (decomp : Subgraph) (t : TensorId) : TensorId :=
  cloneAddr g.alloc.nextTensor decomp.tensors t

/-- What stands for a tensor of the decomposition: an input is the operand of the
composite op, another one its copy. -/
def operandFor (g : Ir) (decomp : Subgraph) (dest : OpId) (t : TensorId) : TensorId :=
  (InsertOrderMap.find? (decomp.inputs.zip (g.op dest).inputs) t).getD (clonedTensor g decomp t)

/-- What stands for a tensor of the main subgraph: for a result of the composite op
the copied output. -/
def resultFor (g : Ir) (decomp : Subgraph) (dest : OpId) (t : TensorId) : TensorId :=
  ((InsertOrderMap.find? ((g.op dest).outputs.zip decomp.outputs) t).map
    (clonedTensor g decomp)).getD t

/-- After the first three loops. -/
structure Cloned (g : Ir) (decomp : Subgraph) (h : Ir) : Prop where
  op : ∀ o < g.alloc.nextOp, h.op o = g.op o
  clone_op : ∀ d ∈ decomp.ops, h.op (clonedOp g decomp d) =
    { attrs := (g.op d).attrs
      inputs := (g.op d).inputs.map (clonedTensor g decomp)
      outputs := (g.op d).outputs.map (clonedTensor g decomp) }
  tensor : ∀ t ∉ decomp.tensors.map (clonedTensor g decomp), h.tensor t = g.tensor t
  clone_definer : ∀ s ∈ decomp.tensors, (h.tensor (clonedTensor g decomp s)).definingOp = none
  clone_data : ∀ s ∈ decomp.tensors, (g.tensor s).SameData (h.tensor (clonedTensor g decomp s))
  clone_users : ∀ s ∈ decomp.tensors, ∀ u ∈ (h.tensor (clonedTensor g decomp s)).users,
    ∃ d ∈ decomp.ops, u.1 = clonedOp g decomp d
  clone_count : ∀ s ∈ decomp.tensors, ∀ d ∈ decomp.ops, ∀ i,
    (h.tensor (clonedTensor g decomp s)).users.count (clonedOp g decomp d, i) =
      if (g.op d).inputs[i]? = some s then 1 else 0

section
variable {g : Ir} {main decomp : Subgraph} {dest : OpId} (hi : Inlinable g main decomp dest)

theorem clonedTensor_inj {s t : TensorId} (hs : s ∈ decomp.tensors)
    (h : clonedTensor g decomp s = clonedTensor g decomp t) : s = t := cloneAddr_inj hs h

theorem clonedOp_inj {d d' : OpId} (hd : d ∈ decomp.ops)
    (h : clonedOp g decomp d = clonedOp g decomp d') : d = d' := cloneAddr_inj hd h

theorem le_clonedOp (d : OpId) : g.alloc.nextOp ≤ clonedOp g decomp d := le_cloneAddr

theorem le_clonedTensor (t : TensorId) : g.alloc.nextTensor ≤ clonedTensor g decomp t :=
  le_cloneAddr

/-- Mapping an injective-on-members function over an operand list. -/
theorem getElem?_map_clonedTensor {l : List TensorId} {s : TensorId} (hs : s ∈ decomp.tensors)
    (i : Nat) : (l.map (clonedTensor g decomp))[i]? = some (clonedTensor g decomp s) ↔
      l[i]? = some s := by
  rw [getElem?_map, Option.map_eq_some_iff]
  constructor
  · rintro ⟨t, ht, he⟩
    rw [ht, clonedTensor_inj hs he.symm]
  · exact fun h => ⟨s, h, rfl⟩

include hi in
/-- The first three loops succeed. -/
theorem cloned_spec {l₁ l₂ : List OpId} (hmain : main.ops = l₁ ++ dest :: l₂) :
    ∃ g₁ main₁ opMap g₂ tensorMap h, cloneOps g main [] l₁.length decomp.ops = (g₁, main₁, opMap) ∧
      cloneTensors g₁ main₁ [] decomp.tensors = (g₂, { main with
          ops := l₁ ++ decomp.ops.map (clonedOp g decomp) ++ dest :: l₂
          tensors := main.tensors ++ decomp.tensors.map (clonedTensor g decomp) }, tensorMap) ∧
      decomp.ops.foldlM (restoreOp opMap tensorMap) g₂ = some h ∧
      (∀ d ∈ decomp.ops, opMap.find? d = some (clonedOp g decomp d)) ∧
      (∀ t ∈ decomp.tensors, tensorMap.find? t = some (clonedTensor g decomp t)) ∧
      Cloned g decomp h := by
  obtain ⟨g₁, opMap, he₁, hT₁, hnt₁, hO₁, hC₁, hfind₁⟩ :=
    cloneOps_spec hi.decomp_wf.ops_nodup hi.decomp_alloc.op main hmain []
  obtain ⟨g₂, tensorMap, he₂, hO₂, hT₂, hC₂, hfind₂⟩ :=
    cloneTensors_spec hi.decomp_wf.tensors_nodup (g := g₁)
      (fun t ht => hnt₁ ▸ hi.decomp_alloc.tensor t ht)
      { main with ops := l₁ ++ decomp.ops.map (clonedOp g decomp) ++ dest :: l₂ } []
  rw [hnt₁] at he₂ hT₂ hC₂ hfind₂
  have hopMap (d : OpId) (hd : d ∈ decomp.ops) : opMap.find? d = some (clonedOp g decomp d) := by
    rw [hfind₁, if_pos hd]
    rfl
  have htensorMap (t : TensorId) (ht : t ∈ decomp.tensors) :
      tensorMap.find? t = some (clonedTensor g decomp t) := by
    rw [hfind₂, if_pos ht]
    rfl
  have hold (o : OpId) (ho : o < g.alloc.nextOp) : g₂.op o = g.op o := by rw [hO₂, hO₁ o ho]
  have hop (d : OpId) (hd : d ∈ decomp.ops) : g₂.op d = g.op d := hold d (hi.decomp_alloc.op d hd)
  have hnew (d : OpId) (hd : d ∈ decomp.ops) :
      g₂.op (clonedOp g decomp d) = { attrs := (g.op d).attrs } := by
    rw [hO₂]
    exact hC₁ d hd
  obtain ⟨h, he₃, -, hT₃, hO₃, hC₃⟩ := restoreOps_spec (g := g₂) hi.decomp_wf.ops_nodup hopMap
    (fun d hd t ht => htensorMap t (hi.decomp_wf.operands d hd t (by rwa [hop d hd] at ht)))
    (fun d hd t ht => htensorMap t (hi.decomp_wf.results d hd t (by rwa [hop d hd] at ht)))
    (fun d hd => by rw [hnew d hd]; exact ⟨rfl, rfl⟩)
    (fun d _ d' hd' => Nat.ne_of_lt (Nat.lt_of_lt_of_le (hi.decomp_alloc.op d' hd')
      (le_clonedOp d)))
    (fun d hd d' _ => clonedOp_inj hd)
  refine ⟨g₁, _, opMap, g₂, tensorMap, h, he₁, he₂, he₃, hopMap, htensorMap, ?_, ?_, ?_, ?_, ?_,
    ?_, ?_⟩
  · intro o ho
    rw [hO₃ o fun d _ => Nat.ne_of_lt (Nat.lt_of_lt_of_le ho (le_clonedOp d)), hold o ho]
  · intro d hd
    rw [hC₃ d hd, hop d hd, hnew d hd]
  · intro t ht
    obtain ⟨us, hus, hmem, hcount⟩ := hT₃ t
    -- no cloned op reads a tensor that is no clone
    have hnil : us = [] := by
      refine eq_nil_iff_forall_not_mem.mpr fun u hu => ?_
      obtain ⟨d, hd, hud⟩ := hmem u hu
      have := hcount d hd u.2
      rw [if_neg, ← hud] at this
      · exact count_eq_zero.mp this hu
      · intro hget
        obtain ⟨s, hs, he⟩ := mem_map.mp (mem_of_getElem? hget)
        rw [hop d hd] at hs
        exact ht (mem_map.mpr ⟨s, hi.decomp_wf.operands d hd s hs, he⟩)
    rw [hus, hnil, append_nil, hT₂ t ht, hT₁]
  · intro s hs
    obtain ⟨us, hus, -⟩ := hT₃ (clonedTensor g decomp s)
    rw [hus]
    exact (hC₂ s hs).2.1
  · intro s hs
    obtain ⟨us, hus, -⟩ := hT₃ (clonedTensor g decomp s)
    have := (hC₂ s hs).2.2
    rw [hT₁] at this
    rw [hus]
    exact ⟨this.buffer, this.type, this.qparams⟩
  · intro s hs u hu
    obtain ⟨us, hus, hmem, -⟩ := hT₃ (clonedTensor g decomp s)
    have hnil : (g₂.tensor (clonedTensor g decomp s)).users = [] := (hC₂ s hs).1
    rw [hus, hnil, nil_append] at hu
    exact hmem u hu
  · intro s hs d hd i
    obtain ⟨us, hus, -, hcount⟩ := hT₃ (clonedTensor g decomp s)
    have hnil : (g₂.tensor (clonedTensor g decomp s)).users = [] := (hC₂ s hs).1
    rw [hus, hnil, nil_append, hcount d hd i, hop d hd]
    simp only [getElem?_map_clonedTensor hs]

end

/-! ## The operands of the composite op -/

/-- How often a pass over the records of `t` is made: once for each use of an input of
the decomposition at which the composite op passes `t`. -/
def numPasses (g : Ir) (decomp : Subgraph) (dest : OpId) (t : TensorId) : Nat :=
  (((g.op dest).inputs.zip decomp.inputs).map fun p =>
    if p.1 = t then (g.tensor p.2).users.length else 0).sum

/-- After the loops over the inputs. -/
structure Connected (g : Ir) (decomp : Subgraph) (dest : OpId) (h : Ir) : Prop where
  op : ∀ o < g.alloc.nextOp, h.op o = g.op o
  clone_op : ∀ d ∈ decomp.ops, h.op (clonedOp g decomp d) =
    { attrs := (g.op d).attrs
      inputs := (g.op d).inputs.map (operandFor g decomp dest)
      outputs := (g.op d).outputs.map (clonedTensor g decomp) }
  tensor : ∀ t ∉ decomp.tensors.map (clonedTensor g decomp), t ∉ (g.op dest).inputs →
    h.tensor t = g.tensor t
  operand : ∀ t ∉ decomp.tensors.map (clonedTensor g decomp), ∃ us,
    h.tensor t = { g.tensor t with users := us } ∧
    (∀ u ∈ us, u ∈ (g.tensor t).users ∨ ∃ d ∈ decomp.ops, u.1 = clonedOp g decomp d) ∧
    (∀ u, u.1 < g.alloc.nextOp → u.1 ≠ dest → us.count u = (g.tensor t).users.count u) ∧
    ((∀ u ∈ us, u.1 ≠ dest) ↔
      longestRun (fun u => u.1 = dest) (g.tensor t).users < 2 ^ numPasses g decomp dest t)
  clone_definer : ∀ s ∈ decomp.tensors, (h.tensor (clonedTensor g decomp s)).definingOp = none
  clone_data : ∀ s ∈ decomp.tensors, (g.tensor s).SameData (h.tensor (clonedTensor g decomp s))
  clone_users : ∀ s ∈ decomp.tensors, ∀ u ∈ (h.tensor (clonedTensor g decomp s)).users,
    ∃ d ∈ decomp.ops, u.1 = clonedOp g decomp d
  clone_count : ∀ t, ∀ d ∈ decomp.ops, ∀ i, (h.tensor t).users.count (clonedOp g decomp d, i) =
      if ((g.op d).inputs.map (operandFor g decomp dest))[i]? = some t then 1 else 0

section
variable {g : Ir} {main decomp : Subgraph} {dest : OpId} (hi : Inlinable g main decomp dest)
  {t s : TensorId} {d : OpId} {m : Move} {u : OpId × Nat} {i : Nat}

include hi in
theorem operandFor_input (hm : (t, s) ∈ (g.op dest).inputs.zip decomp.inputs) :
    operandFor g decomp dest s = t := by
  have hm' : (s, t) ∈ decomp.inputs.zip (g.op dest).inputs := by
    obtain ⟨i, hget⟩ := mem_iff_getElem?.mp hm
    rw [getElem?_zip_eq_some] at hget
    exact mem_iff_getElem?.mpr ⟨i, getElem?_zip_eq_some.mpr hget.symm⟩
  rw [operandFor, InsertOrderMap.find?_of_mem _ hm']
  · rfl
  · rw [map_fst_zip (Nat.le_of_eq hi.numInputs.symm)]
    exact hi.inputs_nodup

theorem operandFor_of_not_mem (hs : s ∉ decomp.inputs) :
    operandFor g decomp dest s = clonedTensor g decomp s := by
  rw [operandFor, InsertOrderMap.find?_eq_none.mpr]
  · rfl
  · intro hm
    obtain ⟨p, hp, rfl⟩ := mem_map.mp hm
    exact hs (of_mem_zip hp).1

include hi in
/-- An input of the decomposition is passed some operand. -/
theorem exists_operand (hs : s ∈ decomp.inputs) :
    ∃ t, (t, s) ∈ (g.op dest).inputs.zip decomp.inputs := by
  obtain ⟨i, hlt, rfl⟩ := getElem_of_mem hs
  have hlt' : i < (g.op dest).inputs.length := hi.numInputs.symm ▸ hlt
  refine ⟨(g.op dest).inputs[i], mem_iff_getElem?.mpr ⟨i, ?_⟩⟩
  rw [getElem?_zip_eq_some]
  exact ⟨getElem?_eq_getElem hlt', getElem?_eq_getElem hlt⟩

/-- The moves of the fourth loop. -/
def operandMoves (g : Ir) (decomp : Subgraph) (dest : OpId) : List Move :=
  connectMoves (clonedOp g decomp) (fun s => (g.tensor s).users)
    ((g.op dest).inputs.zip decomp.inputs)

theorem mem_operandMoves : m ∈ operandMoves g decomp dest ↔
    ∃ p ∈ (g.op dest).inputs.zip decomp.inputs, ∃ u ∈ (g.tensor p.2).users,
      m = (p.1, (clonedOp g decomp u.1, u.2)) := by
  simp only [operandMoves, connectMoves, mem_flatMap, mem_map, eq_comm]

theorem countP_operandMoves (t : TensorId) :
    (operandMoves g decomp dest).countP (fun m => m.1 = t) = numPasses g decomp dest t := by
  rw [operandMoves, connectMoves, numPasses, countP_flatMap]
  congr 1
  refine map_congr_left fun p _ => ?_
  rw [Function.comp_apply, countP_map]
  by_cases h : p.1 = t
  · subst h
    rw [if_pos rfl, countP_eq_length.mpr (by simp)]
  · rw [if_neg h, countP_eq_zero.mpr (by simpa using fun _ _ _ => h)]

theorem not_mem_clones_of_lt (ht : t < g.alloc.nextTensor) :
    t ∉ decomp.tensors.map (clonedTensor g decomp) := by
  intro h
  obtain ⟨s, -, rfl⟩ := mem_map.mp h
  exact Nat.not_lt.mpr (le_clonedTensor s) ht

include hi

theorem tensor_lt_of_mem_inputs (ht : t ∈ (g.op dest).inputs) : t < g.alloc.nextTensor :=
  hi.main_alloc.tensor t (hi.main_wf.operands dest hi.mem t ht)

/-- A record of an input of the decomposition names an operand of one of its ops. -/
theorem mem_users_input (hs : s ∈ decomp.inputs) :
    u ∈ (g.tensor s).users ↔ u.1 ∈ decomp.ops ∧ (g.op u.1).inputs[u.2]? = some s := by
  have hst := hi.decomp_wf.ios s (.inl hs)
  constructor
  · intro hu
    have ho := hi.decomp_wf.users s hst u hu
    exact ⟨ho, (hi.decomp_wf.edges u.1 ho).use_sound hu⟩
  · exact fun ⟨ho, hget⟩ => (hi.decomp_wf.edges u.1 ho).mem_users hget

theorem operandMoves_nodup : ((operandMoves g decomp dest).map Prod.snd).Nodup := by
  have hzip : (operandMoves g decomp dest).map Prod.snd = decomp.inputs.flatMap fun s =>
      (g.tensor s).users.map fun u => (clonedOp g decomp u.1, u.2) := by
    rw [operandMoves, connectMoves, map_flatMap]
    conv_rhs => rw [← map_snd_zip (Nat.le_of_eq hi.numInputs.symm), flatMap_map]
    simp only [List.map_map, Function.comp_def]
  have hinj {s s' : TensorId} (hs : s ∈ decomp.inputs) (hs' : s' ∈ decomp.inputs)
      {u u' : OpId × Nat} (hu : u ∈ (g.tensor s).users) (hu' : u' ∈ (g.tensor s').users)
      (he : (clonedOp g decomp u.1, u.2) = (clonedOp g decomp u'.1, u'.2)) : u = u' := by
    simp only [Prod.mk.injEq] at he
    exact Prod.ext (clonedOp_inj ((mem_users_input hi hs).mp hu).1 he.1) he.2
  rw [hzip, nodup_flatMap]
  refine ⟨fun s hs => ?_, ?_⟩
  · refine List.Nodup.map_on (fun u hu u' hu' he => hinj hs hs hu hu' he) ?_
    refine nodup_iff_count_le_one.mpr fun u => ?_
    by_cases hu : u ∈ (g.tensor s).users
    · have := (hi.decomp_wf.edges u.1 ((mem_users_input hi hs).mp hu).1).uses_count s u.2
      rw [show u = (u.1, u.2) from rfl, this]
      split <;> simp
    · rw [count_eq_zero.mpr hu]
      exact Nat.zero_le 1
  · refine hi.inputs_nodup.imp_of_mem fun {s s'} hs hs' hne => ?_
    refine disjoint_left.mpr ?_
    intro v hv hv'
    obtain ⟨u, hu, rfl⟩ := mem_map.mp hv
    obtain ⟨u', hu', he⟩ := mem_map.mp hv'
    obtain rfl := hinj hs' hs hu' hu he
    have h1 := ((mem_users_input hi hs).mp hu).2
    have h2 := ((mem_users_input hi hs').mp hu').2
    rw [h1] at h2
    exact hne (Option.some.inj h2)

theorem mem_zip_inputs {p : TensorId × TensorId} (hp : p ∈ (g.op dest).inputs.zip decomp.inputs) :
    p.1 < g.alloc.nextTensor ∧ p.1 ∈ main.tensors ∧ p.2 ∈ decomp.inputs ∧ p.2 ∈ decomp.tensors :=
  have h := of_mem_zip hp
  ⟨tensor_lt_of_mem_inputs hi h.1, hi.main_wf.operands dest hi.mem p.1 h.1, h.2,
    hi.decomp_wf.ios p.2 (.inl h.2)⟩

theorem mem_operandMoves_iff (hd : d ∈ decomp.ops) (ht : t < g.alloc.nextTensor) :
    (t, (clonedOp g decomp d, i)) ∈ operandMoves g decomp dest ↔
      ((g.op d).inputs.map (operandFor g decomp dest))[i]? = some t := by
  rw [getElem?_map, Option.map_eq_some_iff, mem_operandMoves]
  constructor
  · rintro ⟨p, hp, u, hu, he⟩
    simp only [Prod.mk.injEq] at he
    obtain ⟨rfl, he, rfl⟩ := he
    obtain ⟨hud, hget⟩ := (mem_users_input hi (mem_zip_inputs hi hp).2.2.1).mp hu
    obtain rfl := clonedOp_inj hd he
    exact ⟨p.2, hget, operandFor_input hi hp⟩
  · rintro ⟨s, hget, he⟩
    have hs : s ∈ decomp.inputs := by
      by_contra hs
      rw [operandFor_of_not_mem hs] at he
      exact Nat.not_lt.mpr (le_clonedTensor s) (he ▸ ht)
    obtain ⟨t', hm⟩ := exists_operand hi hs
    rw [operandFor_input hi hm] at he
    subst he
    exact ⟨(t', s), hm, (d, i), (mem_users_input hi hs).mpr ⟨hd, hget⟩, rfl⟩

theorem operandFor_eq_clonedTensor_iff (hs : s ∈ decomp.tensors) :
    ((g.op d).inputs.map (operandFor g decomp dest))[i]? = some (clonedTensor g decomp s) ↔
      (g.op d).inputs[i]? = some s ∧ s ∉ decomp.inputs := by
  rw [getElem?_map, Option.map_eq_some_iff]
  constructor
  · rintro ⟨x, hget, he⟩
    have hx : x ∉ decomp.inputs := by
      intro hx
      obtain ⟨t, hm⟩ := exists_operand hi hx
      rw [operandFor_input hi hm] at he
      exact Nat.not_lt.mpr (le_clonedTensor s) (he ▸ (mem_zip_inputs hi hm).1)
    rw [operandFor_of_not_mem hx] at he
    obtain rfl := clonedTensor_inj hs he.symm
    exact ⟨hget, hx⟩
  · exact fun ⟨hget, hx⟩ => ⟨s, hget, operandFor_of_not_mem hx⟩

theorem op_lt {o : OpId} (ho : o ∈ main.ops) : o < g.alloc.nextOp := hi.main_alloc.op o ho

theorem clonedOp_ne (d : OpId) : clonedOp g decomp d ≠ dest :=
  Nat.ne_of_gt (Nat.lt_of_lt_of_le (op_lt hi hi.mem) (le_clonedOp d))

theorem clonedTensor_not_operand (s : TensorId) : clonedTensor g decomp s ∉ (g.op dest).inputs :=
  fun hm => Nat.not_lt.mpr (le_clonedTensor s) (tensor_lt_of_mem_inputs hi hm)

/-- A move takes the operand of a copied op to an operand of the composite op. -/
theorem exists_of_mem_operandMoves (hm : m ∈ operandMoves g decomp dest) :
    ∃ s d, s ∈ decomp.inputs ∧ (m.1, s) ∈ (g.op dest).inputs.zip decomp.inputs ∧
      d ∈ decomp.ops ∧ m.2.1 = clonedOp g decomp d ∧ (g.op d).inputs[m.2.2]? = some s := by
  obtain ⟨p, hp, u, hu, rfl⟩ := mem_operandMoves.mp hm
  have hs := (mem_zip_inputs hi hp).2.2.1
  obtain ⟨hd, hget⟩ := (mem_users_input hi hs).mp hu
  exact ⟨p.2, u.1, hs, hp, hd, rfl, hget⟩

theorem mem_moved_operand
    (hu : u ∈ ((operandMoves g decomp dest).filter fun m => m.1 = t).map Prod.snd) :
    ∃ d ∈ decomp.ops, u.1 = clonedOp g decomp d := by
  obtain ⟨m, hm, rfl⟩ := mem_map.mp hu
  obtain ⟨-, d, -, -, hd, he, -⟩ := exists_of_mem_operandMoves hi (mem_filter.mp hm).1
  exact ⟨d, hd, he⟩

/-! ## After the loop over the inputs -/

omit hi in
/-- The records at the copied inputs have moved, the copies of the inputs still have theirs. -/
structure OperandsMoved (g : Ir) (decomp : Subgraph) (dest : OpId) (h h₄ : Ir) : Prop where
  op : ∀ o < g.alloc.nextOp, h₄.op o = g.op o
  clone_op : ∀ d ∈ decomp.ops, h₄.op (clonedOp g decomp d) =
    { attrs := (g.op d).attrs
      inputs := (g.op d).inputs.map (operandFor g decomp dest)
      outputs := (g.op d).outputs.map (clonedTensor g decomp) }
  tensor : ∀ t ∉ decomp.tensors.map (clonedTensor g decomp), h₄.tensor t = { g.tensor t with
    users := (skipErase fun v : OpId × Nat => v.1 = dest)^[numPasses g decomp dest t]
        (g.tensor t).users ++
      ((operandMoves g decomp dest).filter fun m => m.1 = t).map Prod.snd }
  frame : ∀ t ∉ (g.op dest).inputs, h₄.tensor t = h.tensor t

variable {h h₄ : Ir} (hc : Cloned g decomp h)

include hc

/-- The moves replace the inputs among the operands of a copied op. -/
theorem clone_inputs_moved (hd : d ∈ decomp.ops) {ins : List TensorId}
    (hmem : ∀ m ∈ operandMoves g decomp dest, m.2.1 = clonedOp g decomp d → ins[m.2.2]? = some m.1)
    (hno : ∀ i, (clonedOp g decomp d, i) ∉ (operandMoves g decomp dest).map Prod.snd →
      ins[i]? = (h.op (clonedOp g decomp d)).inputs[i]?) :
    ins = (g.op d).inputs.map (operandFor g decomp dest) := by
  refine ext_getElem? fun i => ?_
  rw [getElem?_map]
  cases hget : (g.op d).inputs[i]? with
  | none =>
    rw [hno i, hc.clone_op d hd, getElem?_map, hget]
    · rfl
    · intro hm
      obtain ⟨m, hm, he⟩ := mem_map.mp hm
      obtain ⟨s, d', -, -, hd', he', hget'⟩ := exists_of_mem_operandMoves hi hm
      simp only [he] at he' hget'
      rw [← clonedOp_inj hd he', hget] at hget'
      cases hget'
  | some s =>
    by_cases hs : s ∈ decomp.inputs
    · obtain ⟨t, hz⟩ := exists_operand hi hs
      have hm : (t, (clonedOp g decomp d, i)) ∈ operandMoves g decomp dest :=
        mem_operandMoves.mpr ⟨(t, s), hz, (d, i), (mem_users_input hi hs).mpr ⟨hd, hget⟩, rfl⟩
      rw [hmem _ hm rfl, Option.map_some, operandFor_input hi hz]
    · rw [hno i, hc.clone_op d hd, getElem?_map, hget, Option.map_some, Option.map_some,
        operandFor_of_not_mem hs]
      intro hm
      obtain ⟨m, hm, he⟩ := mem_map.mp hm
      obtain ⟨s', d', hs', -, hd', he', hget'⟩ := exists_of_mem_operandMoves hi hm
      simp only [he] at he' hget'
      rw [← clonedOp_inj hd he', hget] at hget'
      exact hs (Option.some.inj hget' ▸ hs')

theorem moves_operands : ∃ h₄,
    moves (skipErase fun v => v.1 = dest) h (operandMoves g decomp dest) = some h₄ ∧
      OperandsMoved g decomp dest h h₄ := by
  obtain ⟨h₄, he₄, -, hT₄, hO₄⟩ := moves_spec (operandMoves g decomp dest) (g := h)
    (f := skipErase fun v : OpId × Nat => v.1 = dest)
    (q := fun v => decide (v.1 = dest) = false) (fun us l hl => skipErase_append _ hl)
    (fun m hm => by
      obtain ⟨-, d, -, -, -, he, -⟩ := exists_of_mem_operandMoves hi hm
      simpa [he] using clonedOp_ne hi d)
    (operandMoves_nodup hi)
    (fun m hm => by
      obtain ⟨s, d, -, -, hd, he, hget⟩ := exists_of_mem_operandMoves hi hm
      rw [he, hc.clone_op d hd, length_map]
      exact (List.getElem?_eq_some_iff.mp hget).1)
  refine ⟨h₄, he₄, ?_⟩
  constructor
  case op =>
    intro o ho
    obtain ⟨ins, hins, -, -, hno⟩ := hO₄ o
    have : ins = (h.op o).inputs := by
      refine ext_getElem? fun i => hno i fun hm => ?_
      obtain ⟨m, hm, he⟩ := mem_map.mp hm
      obtain ⟨-, d, -, -, -, he', -⟩ := exists_of_mem_operandMoves hi hm
      simp only [he] at he'
      exact Nat.not_lt.mpr (le_clonedOp d) (he' ▸ ho)
    rw [hins, this, hc.op o ho]
  case clone_op =>
    intro d hd
    obtain ⟨ins, hins, -, hmem, hno⟩ := hO₄ (clonedOp g decomp d)
    rw [hins, clone_inputs_moved hi hc hd hmem hno, hc.clone_op d hd]
  case tensor =>
    intro t ht
    rw [hT₄ t, hc.tensor t ht, countP_operandMoves]
  case frame =>
    intro t ht
    refine moves_frame he₄ fun hmap => ?_
    obtain ⟨m, hm, rfl⟩ := mem_map.mp hmap
    obtain ⟨s, _, -, hz, -⟩ := exists_of_mem_operandMoves hi hm
    exact ht (of_mem_zip hz).1

omit hc

variable (hm : OperandsMoved g decomp dest h h₄)

include hm

/-- An operand of the composite op keeps what the passes of the eraser leave of its records, and
gets those of the copied ops. -/
theorem OperandsMoved.operand (ht : t ∉ decomp.tensors.map (clonedTensor g decomp)) : ∃ us,
    h₄.tensor t = { g.tensor t with users := us } ∧
    (∀ u ∈ us, u ∈ (g.tensor t).users ∨ ∃ d ∈ decomp.ops, u.1 = clonedOp g decomp d) ∧
    (∀ u, u.1 < g.alloc.nextOp → u.1 ≠ dest → us.count u = (g.tensor t).users.count u) ∧
    ((∀ u ∈ us, u.1 ≠ dest) ↔
      longestRun (fun u => u.1 = dest) (g.tensor t).users < 2 ^ numPasses g decomp dest t) := by
  refine ⟨_, hm.tensor t ht, fun u hu => ?_, fun u hlt hne => ?_, ?_⟩
  · rcases mem_append.mp hu with hu | hu
    · exact .inl ((iterate_skipErase_sublist _ _ _).subset hu)
    · exact .inr (mem_moved_operand hi hu)
  · rw [count_append, count_iterate_skipErase (fun v : OpId × Nat => v.1 = dest) _ _
      (a := u) (by simpa using hne)]
    refine Nat.add_eq_left.mpr (count_eq_zero.mpr fun hu => ?_)
    obtain ⟨d, -, he⟩ := mem_moved_operand hi hu
    exact Nat.not_lt.mpr (le_clonedOp d) (he ▸ hlt)
  · rw [← forall_iterate_skipErase_iff]
    constructor
    · intro hall u hu
      simpa using hall u (mem_append_left _ hu)
    · intro hall u hu
      rcases mem_append.mp hu with hu | hu
      · simpa using hall u hu
      · obtain ⟨d, -, he⟩ := mem_moved_operand hi hu
        rw [he]
        exact clonedOp_ne hi d

/-- The records of a copied op at an old tensor are at its operands. -/
theorem OperandsMoved.clone_count (ht : t ∉ decomp.tensors.map (clonedTensor g decomp))
    (hd : d ∈ decomp.ops) (i : Nat) :
    (h₄.tensor t).users.count (clonedOp g decomp d, i) =
      if ((g.op d).inputs.map (operandFor g decomp dest))[i]? = some t then 1 else 0 := by
  have hzero : (g.tensor t).users.count (clonedOp g decomp d, i) = 0 :=
    count_eq_zero.mpr fun hu => Nat.not_lt.mpr (le_clonedOp d) (hi.closed.user t _ hu)
  rw [hm.tensor t ht]
  simp only
  rw [count_append, count_iterate_skipErase (fun v : OpId × Nat => v.1 = dest) _ _
      (a := (clonedOp g decomp d, i)) (by simpa using clonedOp_ne hi d), hzero,
    count_movedTo (operandMoves_nodup hi), Nat.zero_add]
  by_cases hlt : t < g.alloc.nextTensor
  · simp only [mem_operandMoves_iff hi hd hlt]
  · rw [if_neg, if_neg]
    · intro hget
      rw [getElem?_map, Option.map_eq_some_iff] at hget
      obtain ⟨s, hget, rfl⟩ := hget
      have hst := hi.decomp_wf.operands d hd s (mem_of_getElem? hget)
      by_cases hs : s ∈ decomp.inputs
      · obtain ⟨t, hz⟩ := exists_operand hi hs
        rw [operandFor_input hi hz] at hlt
        exact hlt (mem_zip_inputs hi hz).1
      · rw [operandFor_of_not_mem hs] at ht
        exact ht (mem_map.mpr ⟨s, hst, rfl⟩)
    · intro hmove
      obtain ⟨s, -, -, hz, -⟩ := exists_of_mem_operandMoves hi hmove
      exact hlt (mem_zip_inputs hi hz).1

include hc

/-- The copies of the inputs lose their edges. -/
theorem OperandsMoved.connected : Connected g decomp dest { h₄ with
    tensor := fun t =>
      if t ∈ decomp.inputs.map (clonedTensor g decomp) then cleared (h₄.tensor t)
      else h₄.tensor t } := by
  have hsub {t : TensorId} (ht : t ∉ decomp.tensors.map (clonedTensor g decomp)) :
      t ∉ decomp.inputs.map (clonedTensor g decomp) := by
    intro hin
    obtain ⟨s, hs, he⟩ := mem_map.mp hin
    exact ht (mem_map.mpr ⟨s, hi.decomp_wf.ios s (.inl hs), he⟩)
  have hframe (s : TensorId) :
      h₄.tensor (clonedTensor g decomp s) = h.tensor (clonedTensor g decomp s) :=
    hm.frame _ (clonedTensor_not_operand hi s)
  constructor
  case op => exact hm.op
  case clone_op => exact hm.clone_op
  case tensor =>
    intro t ht hin
    simp only
    rw [if_neg (hsub ht), hm.frame t hin, hc.tensor t ht]
  case operand =>
    intro t ht
    simp only
    rw [if_neg (hsub ht)]
    exact hm.operand hi ht
  case clone_definer =>
    intro s hs
    simp only
    split
    · rfl
    · rw [hframe s]
      exact hc.clone_definer s hs
  case clone_data =>
    intro s hs
    have := hc.clone_data s hs
    simp only
    split
    · rw [hframe s]
      exact ⟨this.buffer, this.type, this.qparams⟩
    · rw [hframe s]
      exact this
  case clone_users =>
    intro s hs u hu
    simp only at hu
    split at hu
    · cases hu
    · rw [hframe s] at hu
      exact hc.clone_users s hs u hu
  case clone_count =>
    intro t d hd i
    simp only
    split
    · next ht =>
      obtain ⟨s, hs, rfl⟩ := mem_map.mp ht
      have := operandFor_eq_clonedTensor_iff hi (d := d) (i := i) (hi.decomp_wf.ios s (.inl hs))
      rw [if_neg fun hget => (this.mp hget).2 hs]
      rfl
    · next ht =>
      by_cases hcl : t ∈ decomp.tensors.map (clonedTensor g decomp)
      · obtain ⟨s, hs, rfl⟩ := mem_map.mp hcl
        have hsin : s ∉ decomp.inputs := fun h => ht (mem_map.mpr ⟨s, h, rfl⟩)
        simp only [hframe s, hc.clone_count s hs d hd i,
          operandFor_eq_clonedTensor_iff hi hs, hsin, not_false_eq_true, and_true]
      · exact hm.clone_count hi hcl hd i

omit hc hm

/-- The loops over the inputs succeed. -/
theorem connected_spec (hc : Cloned g decomp h) {opMap : OpMap} {tensorMap : TensorMap}
    (hopMap : ∀ d ∈ decomp.ops, opMap.find? d = some (clonedOp g decomp d))
    (htensorMap : ∀ t ∈ decomp.tensors, tensorMap.find? t = some (clonedTensor g decomp t)) :
    ∃ h₄ h', ((h.op dest).inputs.zip decomp.inputs).foldlM (connectInput opMap dest) h = some h₄ ∧
      decomp.inputs.foldlM (fun h t => (tensorMap.find? t).map (clearTensor h)) h₄ = some h' ∧
      Connected g decomp dest h' := by
  have heq : ((g.op dest).inputs.zip decomp.inputs).foldlM (connectInput opMap dest) h =
      moves (skipErase fun v => v.1 = dest) h (operandMoves g decomp dest) := connectInputs_eq
    (fun p hp u hu => hopMap u.1 ((mem_users_input hi (mem_zip_inputs hi hp).2.2.1).mp hu).1)
    (fun p hp p' hp' he => hi.tensors_disjoint p'.1 (mem_zip_inputs hi hp').2.1
      (he ▸ (mem_zip_inputs hi hp).2.2.2))
    fun p hp => by
      rw [hc.tensor p.2 (not_mem_clones_of_lt
        (hi.decomp_alloc.tensor p.2 (mem_zip_inputs hi hp).2.2.2))]
  obtain ⟨h₄, he₄, hm⟩ := moves_operands hi hc
  refine ⟨h₄, _, ?_, ?_, hm.connected hi hc⟩
  · rw [hc.op dest (op_lt hi hi.mem), heq]
    exact he₄
  · rw [foldlM_find? (fun t ht => htensorMap t (hi.decomp_wf.ios t (.inl ht))), foldl_clearTensor]

end

end LiteRt.Plugin
