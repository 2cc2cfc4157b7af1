import LiteRt.Plugin.InlineResult

/-!
# When inlining keeps the main subgraph well-formed

The clones get use records but no back pointers, and a pass over the records of an
operand only halves the runs of records of the composite op.
-/

namespace LiteRt.Plugin

open LiteRt.Lib LiteRt.Model List

section
variable {g h : Ir} {main decomp : Subgraph} {dest : OpId} {l₁ l₂ : List OpId} {o : OpId}
  {t : TensorId} {d : OpId}

theorem mem_ops_inlinedMain (hmain : main.ops = l₁ ++ dest :: l₂) :
    o ∈ (inlinedMain g main decomp dest l₁ l₂).ops ↔
      o ∈ main.ops ∨ ∃ d ∈ decomp.ops, clonedOp g decomp d = o := by
  simp only [inlinedMain, hmain, mem_append, mem_map, mem_cons]
  exact or_right_comm

theorem mem_tensors_inlinedMain :
    t ∈ (inlinedMain g main decomp dest l₁ l₂).tensors ↔
      t ∈ main.tensors ∨ t ∈ decomp.tensors.map (clonedTensor g decomp) := mem_append

theorem resultFor_mem (hi : Inlinable g main decomp dest) (ht : t ∈ main.tensors) :
    resultFor g decomp dest t ∈ (inlinedMain g main decomp dest l₁ l₂).tensors := by
  by_cases hm : t ∈ (g.op dest).outputs
  · obtain ⟨s, hz⟩ := exists_output hi hm
    rw [resultFor_output hi hz]
    exact mem_tensors_inlinedMain.mpr (.inr (mem_map.mpr
      ⟨s, hi.decomp_wf.ios s (.inr (of_mem_zip hz).2), rfl⟩))
  · rw [resultFor_of_not_mem hm]
    exact mem_tensors_inlinedMain.mpr (.inl ht)

theorem operandFor_mem (hi : Inlinable g main decomp dest) (hd : d ∈ decomp.ops) {x : TensorId}
    (hx : x ∈ (g.op d).inputs) :
    operandFor g decomp dest x ∈ (inlinedMain g main decomp dest l₁ l₂).tensors := by
  by_cases hin : x ∈ decomp.inputs
  · obtain ⟨t, hz⟩ := exists_operand hi hin
    rw [operandFor_input hi hz]
    exact mem_tensors_inlinedMain.mpr (.inl (mem_zip_inputs hi hz).2.1)
  · rw [operandFor_of_not_mem hin]
    exact mem_tensors_inlinedMain.mpr (.inr (mem_map.mpr ⟨x, hi.decomp_wf.operands d hd x hx, rfl⟩))

theorem Inlined.definer_eq (hinl : Inlined g main decomp dest h)
    (hd : (h.tensor t).definingOp = some o) :
    t ∉ (g.op dest).outputs ∧ (g.tensor t).definingOp = some o ∧
      (h.tensor t).definingOpOutInd = (g.tensor t).definingOpOutInd := by
  have hcl : t ∉ decomp.tensors.map (clonedTensor g decomp) := by
    intro hm
    obtain ⟨s, hs, rfl⟩ := mem_map.mp hm
    rw [hinl.clone_definer s hs] at hd
    cases hd
  have hm : t ∉ (g.op dest).outputs := by
    intro hm
    rw [hinl.result_definer t hm] at hd
    cases hd
  obtain ⟨h1, h2⟩ := hinl.definer t hcl hm
  exact ⟨hm, h1 ▸ hd, h2⟩

theorem nodup_ops_inlinedMain (hi : Inlinable g main decomp dest)
    (hmain : main.ops = l₁ ++ dest :: l₂) :
    (inlinedMain g main decomp dest l₁ l₂).ops.Nodup := by
  have hclones : (decomp.ops.map (clonedOp g decomp)).Nodup :=
    hi.decomp_wf.ops_nodup.map_on fun d hd d' _ he => clonedOp_inj hd he
  have hdisj : ∀ o ∈ main.ops, o ∉ decomp.ops.map (clonedOp g decomp) := by
    intro o ho hm
    obtain ⟨d, -, rfl⟩ := mem_map.mp hm
    exact Nat.not_lt.mpr (le_clonedOp d) (hi.main_alloc.op _ ho)
  have hperm : (inlinedMain g main decomp dest l₁ l₂).ops.Perm
      (main.ops ++ decomp.ops.map (clonedOp g decomp)) := by
    rw [inlinedMain, hmain, append_assoc, append_assoc]
    exact perm_append_comm.append_left l₁
  rw [hperm.nodup_iff, nodup_append']
  exact ⟨hi.main_wf.ops_nodup, hclones, disjoint_left.mpr fun o => hdisj o⟩

/-- The composite op has no edge left. -/
theorem wellFormedAt_dest (hi : Inlinable g main decomp dest) (hinl : Inlined g main decomp dest h)
    (hleft : ∀ t, ∀ u ∈ (h.tensor t).users, u.1 ≠ dest) : h.WellFormedAt dest := by
  refine ⟨fun t i => ?_, fun j t hj => ?_, fun t hd => ?_⟩
  · rw [hinl.dest_op.1, count_eq_zero.mpr fun hu => hleft t _ hu rfl]
    rfl
  · rw [hinl.dest_op.2] at hj
    cases hj
  · obtain ⟨hm, hd, -⟩ := hinl.definer_eq hd
    exact absurd ((hi.main_wf.edges dest hi.mem).mem_outputs_iff.mpr hd) hm

theorem wellFormedAt_main (hi : Inlinable g main decomp dest) (hinl : Inlined g main decomp dest h)
    (ho : o ∈ main.ops) (hne : o ≠ dest) :
    h.WellFormedAt o := by
  refine ⟨hinl.main_count o ho hne, fun j t hj => ?_, fun t hd => ?_⟩
  · rw [hinl.main_op o ho hne] at hj
    have hs := (hi.main_wf.edges o ho).def_sound j t hj
    have hcl : t ∉ decomp.tensors.map (clonedTensor g decomp) := not_mem_clones_of_lt
      (hi.main_alloc.tensor t (hi.main_wf.results o ho t (mem_of_getElem? hj)))
    obtain ⟨h1, h2⟩ := hinl.definer t hcl fun hm => by
      rw [(hi.main_wf.edges dest hi.mem).mem_outputs_iff, hs.1] at hm
      exact hne (Option.some.inj hm)
    rw [h1, h2]
    exact hs
  · obtain ⟨-, hd, hind⟩ := hinl.definer_eq hd
    rw [hinl.main_op o ho hne, hind]
    exact (hi.main_wf.edges o ho).def_complete t hd

theorem wellFormedAt_clone (hi : Inlinable g main decomp dest) (hinl : Inlined g main decomp dest h)
    (hd : d ∈ decomp.ops) (hout : (g.op d).outputs = []) :
    h.WellFormedAt (clonedOp g decomp d) := by
  refine ⟨hinl.clone_count d hd, fun j t hj => ?_, fun t hd => ?_⟩
  · simp only [hinl.clone_op d hd, hout, map_nil, getElem?_nil] at hj
    cases hj
  · obtain ⟨-, hd, -⟩ := hinl.definer_eq hd
    exact absurd (hi.closed.definer t _ hd) (Nat.not_lt.mpr (le_clonedOp d))

/-- The main subgraph is well-formed when no op of the decomposition has a result and
no record of the composite op is left. -/
theorem inlinedMain_wellFormed (hi : Inlinable g main decomp dest)
    (hmain : main.ops = l₁ ++ dest :: l₂) (hinl : Inlined g main decomp dest h)
    (hout : ∀ d ∈ decomp.ops, (g.op d).outputs = [])
    (hleft : ∀ t, ∀ u ∈ (h.tensor t).users, u.1 ≠ dest) :
    (inlinedMain g main decomp dest l₁ l₂).WellFormed h := by
  constructor
  case ops_nodup => exact nodup_ops_inlinedMain hi hmain
  case tensors_nodup =>
    refine nodup_append'.mpr ⟨hi.main_wf.tensors_nodup,
      hi.decomp_wf.tensors_nodup.map_on fun s hs s' _ he => clonedTensor_inj hs he,
      disjoint_left.mpr fun t ht => not_mem_clones_of_lt (hi.main_alloc.tensor t ht)⟩
  case edges =>
    intro o ho
    by_cases hdest : o = dest
    · exact hdest ▸ wellFormedAt_dest hi hinl hleft
    · rcases (mem_ops_inlinedMain hmain).mp ho with ho | ⟨d, hd, rfl⟩
      · exact wellFormedAt_main hi hinl ho hdest
      · exact wellFormedAt_clone hi hinl hd (hout d hd)
  case operands =>
    intro o ho t ht
    by_cases hdest : o = dest
    · rw [hdest, hinl.dest_op.1] at ht
      cases ht
    · rcases (mem_ops_inlinedMain hmain).mp ho with ho | ⟨d, hd, rfl⟩
      · rw [hinl.main_op o ho hdest] at ht
        obtain ⟨x, hx, rfl⟩ := mem_map.mp ht
        exact resultFor_mem hi (hi.main_wf.operands o ho x hx)
      · rw [hinl.clone_op d hd] at ht
        obtain ⟨x, hx, rfl⟩ := mem_map.mp ht
        exact operandFor_mem hi hd hx
  case results =>
    intro o ho t ht
    by_cases hdest : o = dest
    · rw [hdest, hinl.dest_op.2] at ht
      cases ht
    · rcases (mem_ops_inlinedMain hmain).mp ho with ho | ⟨d, hd, rfl⟩
      · rw [hinl.main_op o ho hdest] at ht
        exact mem_tensors_inlinedMain.mpr (.inl (hi.main_wf.results o ho t ht))
      · rw [hinl.clone_op d hd, hout d hd] at ht
        cases ht
  case users =>
    intro t ht u hu
    refine (mem_ops_inlinedMain hmain).mpr
      ((hinl.users_mem t (mem_tensors_inlinedMain.mp ht) u hu).imp_right ?_)
    exact fun ⟨d, hd, he⟩ => ⟨d, hd, he.symm⟩
  case definers =>
    intro t ht o hd
    obtain ⟨-, hd', -⟩ := hinl.definer_eq hd
    rcases mem_tensors_inlinedMain.mp ht with ht | ht
    · exact (mem_ops_inlinedMain hmain).mpr (.inl (hi.main_wf.definers t ht o hd'))
    · obtain ⟨s, hs, rfl⟩ := mem_map.mp ht
      rw [hinl.clone_definer s hs] at hd
      cases hd
  case ios =>
    rintro t (ht | ht)
    · exact mem_tensors_inlinedMain.mpr (.inl (hi.main_wf.ios t (.inl ht)))
    · obtain ⟨x, hx, rfl⟩ := mem_map.mp ht
      exact resultFor_mem hi (hi.main_wf.ios x (.inr hx))

/-- The main subgraph after inlining is well-formed exactly when no op of the
decomposition has a result and the passes removed all records of the composite op. -/
theorem inlined_wellFormed_iff (hi : Inlinable g main decomp dest)
    (hmain : main.ops = l₁ ++ dest :: l₂) (hinl : Inlined g main decomp dest h) :
    (dce h (inlinedMain g main decomp dest l₁ l₂)).WellFormed h ↔
      (∀ d ∈ decomp.ops, (g.op d).outputs = []) ∧
      ∀ t ∈ (g.op dest).inputs,
        longestRun (fun u => u.1 = dest) (g.tensor t).users < 2 ^ numPasses g decomp dest t := by
  constructor
  · intro hwf
    constructor
    · intro d hd
      refine eq_nil_iff_forall_not_mem.mpr fun s hs => ?_
      have hop := hinl.clone_op d hd
      have hm : clonedTensor g decomp s ∈ (h.op (clonedOp g decomp d)).outputs := by
        rw [hop]
        exact mem_map.mpr ⟨s, hs, rfl⟩
      have halive : clonedOp g decomp d ∈ (dce h (inlinedMain g main decomp dest l₁ l₂)).ops := by
        refine mem_ops_dce.mpr ⟨mem_append_left _ (mem_append_right _
          (mem_map_of_mem hd)), fun hdead => ?_⟩
        rw [(isOpDead_iff.mp hdead).2] at hm
        cases hm
      rw [(hwf.edges _ halive).mem_outputs_iff,
        hinl.clone_definer s (hi.decomp_wf.results d hd s hs)] at hm
      cases hm
    · intro t ht
      refine (hinl.leftover t ht).mp fun u hu he => ?_
      have halive : t ∈ (dce h (inlinedMain g main decomp dest l₁ l₂)).tensors := by
        refine mem_tensors_dce.mpr ⟨mem_append_left _ (hi.main_wf.operands dest hi.mem t ht),
          fun hdead => ?_⟩
        rw [(isTensorDead_iff.mp hdead).2] at hu
        cases hu
      have hdest := hwf.users t halive u hu
      rw [he, mem_ops_dce, isOpDead_iff] at hdest
      exact hdest.2 hinl.dest_op
  · rintro ⟨hout, hrun⟩
    refine (inlinedMain_wellFormed hi hmain hinl hout fun t => ?_).dce
    by_cases ht : t ∈ (g.op dest).inputs
    · exact (hinl.leftover t ht).mpr (hrun t ht)
    · exact hinl.no_leftover t ht

end

/-- The main subgraph of a model after `InlineSubgraph`. -/
theorem inlineSubgraph_wellFormed_iff {m : LiteRtModel} {dest : OpId}
    {mainId source : SubgraphId} (hm : WellFormedModel m) (hmain : mainId ∈ m.subgraphs)
    (hsource : source ∈ m.subgraphs) (hne : source ≠ mainId)
    (hdest : dest ∈ (m.subgraph mainId).ops) {r : Option LiteRtModel}
    (hok : inlineSubgraph m dest source = .ok r) :
    ∃ m', r = some m' ∧ ((m'.subgraph mainId).WellFormed m'.ir ↔
      (∀ d ∈ (m.subgraph source).ops, (m.ir.op d).outputs = []) ∧
      ∀ t ∈ (m.ir.op dest).inputs, longestRun (fun u => u.1 = dest) (m.ir.tensor t).users <
        2 ^ numPasses m.ir (m.subgraph source) dest t) := by
  obtain ⟨l₁, l₂, h, hops, hi, hinl, rfl⟩ :=
    inlineSubgraph_spec hm hmain hsource hne hdest hok
  refine ⟨_, rfl, ?_⟩
  have := inlined_wellFormed_iff hi hops hinl
  simpa only [inlinedModel, ↓reduceIte] using this

/-- A main subgraph and a decomposition over one op list. -/
def compositeModel (ops : List Op) (numTensors : Nat) (tensor : TensorId → Tensor)
    (main decomp : Subgraph) : LiteRtModel where
  ir := .ofOps ops numTensors tensor
  subgraph s := if s = 0 then main else decomp
  subgraphs := [0, 1]

theorem compositeModel_wellFormed {ops : List Op} {numTensors : Nat} {tensor : TensorId → Tensor}
    {main decomp : Subgraph}
    (hin : ∀ t ∈ ops.flatMap Op.inputs, t < numTensors)
    (hout : ∀ t ∈ ops.flatMap Op.outputs, t < numTensors)
    (hdefs : (ops.flatMap Op.outputs).Nodup)
    (hnodup : ∀ sg ∈ [main, decomp], sg.ops.Nodup ∧ sg.tensors.Nodup)
    (hedges : ∀ sg ∈ [main, decomp],
      ∀ o ∈ sg.ops, ∀ t ∈ ((Ir.ofOps ops numTensors tensor).op o).inputs ++
        ((Ir.ofOps ops numTensors tensor).op o).outputs, t ∈ sg.tensors)
    (hback : ∀ sg ∈ [main, decomp], ∀ t ∈ sg.tensors,
      ∀ o ∈ ((Ir.ofOps ops numTensors tensor).tensor t).users.map Prod.fst ++
        ((Ir.ofOps ops numTensors tensor).tensor t).definingOp.toList, o ∈ sg.ops)
    (hio : ∀ sg ∈ [main, decomp], ∀ t ∈ sg.inputs ++ sg.outputs, t ∈ sg.tensors)
    (halloc : ∀ sg ∈ [main, decomp],
      (∀ o ∈ sg.ops, o < ops.length) ∧ ∀ t ∈ sg.tensors, t < numTensors)
    (htopo : (Ir.ofOps ops numTensors tensor).TopoOrder main.ops)
    (htopo' : (Ir.ofOps ops numTensors tensor).TopoOrder decomp.ops)
    (hinputs : ∀ sg ∈ [main, decomp], sg.inputs.Nodup ∧ ∀ t ∈ sg.inputs,
      ((Ir.ofOps ops numTensors tensor).tensor t).definingOp = none)
    (hops : ∀ o ∈ main.ops, o ∉ decomp.ops)
    (htensors : ∀ t ∈ main.tensors, t ∉ decomp.tensors) :
    WellFormedModel (compositeModel ops numTensors tensor main decomp) := by
  have hsub {s : SubgraphId} : (compositeModel ops numTensors tensor main decomp).subgraph s ∈
      [main, decomp] := by
    simp only [compositeModel]
    split <;> simp
  have htopos : ∀ sg ∈ [main, decomp], (Ir.ofOps ops numTensors tensor).TopoOrder sg.ops :=
    forall_mem_cons.mpr ⟨htopo, forall_mem_singleton.mpr htopo'⟩
  have hid {s : SubgraphId} (hs : s ∈ [0, 1]) : s = 0 ∨ s = 1 := by simpa using hs
  have hdisj {f : Subgraph → List Nat} (h : ∀ a ∈ f main, a ∉ f decomp) :
      ∀ s ∈ [0, 1], ∀ s' ∈ [0, 1], s ≠ s' →
        ∀ a ∈ f ((compositeModel ops numTensors tensor main decomp).subgraph s),
          a ∉ f ((compositeModel ops numTensors tensor main decomp).subgraph s') := by
    intro s hs s' hs' hne a ha ha'
    rcases hid hs with rfl | rfl <;> rcases hid hs' with rfl | rfl
    · exact hne rfl
    · exact h a ha ha'
    · exact h a ha' ha
    · exact hne rfl
  exact {
    closed := Ir.ofOps_closed hin hout
    wf := fun s _ => .of_owns (Ir.ofOps_wellFormed hdefs) (hnodup _ hsub).1 (hnodup _ hsub).2
      (hedges _ hsub) (hback _ hsub) (hio _ hsub)
    alloc := fun s _ => ⟨(halloc _ hsub).1, (halloc _ hsub).2⟩
    topo := fun s _ => htopos _ hsub
    inputs_nodup := fun s _ => (hinputs _ hsub).1
    inputs_undefined := fun s _ => (hinputs _ hsub).2
    ops_disjoint := hdisj (f := Subgraph.ops) hops
    tensors_disjoint := hdisj (f := Subgraph.tensors) htensors }

/-- A composite op that passes one tensor twice to a decomposition that only consumes it. -/
def sinkModel : LiteRtModel :=
  compositeModel [{ inputs := [0, 0] }, { inputs := [1, 2] }] 3 (fun _ => {})
    { tensors := [0], ops := [0], inputs := [0], outputs := [0] }
    { tensors := [1, 2], ops := [1], inputs := [1, 2] }

theorem inlineSubgraph_sinkModel_wellFormed : ∃ m',
    inlineSubgraph sinkModel 0 1 = .ok (some m') ∧ (m'.subgraph 0).WellFormed m'.ir := by
  have hm : WellFormedModel sinkModel := compositeModel_wellFormed (by decide) (by decide)
    (by decide) (by decide) (by decide) (by decide) (by decide) (by decide) ⟨by decide, by decide⟩
    ⟨by decide, by decide⟩ (by decide) (by decide) (by decide)
  obtain ⟨r, hok⟩ : ∃ r, inlineSubgraph sinkModel 0 1 = .ok r := ⟨_, rfl⟩
  obtain ⟨m', rfl, hiff⟩ := inlineSubgraph_wellFormed_iff hm
    (show 0 ∈ sinkModel.subgraphs by decide) (by decide) (by decide) (by decide) hok
  exact ⟨m', hok, hiff.mpr ⟨by decide, by decide⟩⟩

/-- A composite op over a decomposition of one op with one result. -/
def unaryModel : LiteRtModel :=
  compositeModel
    [{ inputs := [0], outputs := [1] }, { inputs := [2], outputs := [3] }] 4 (fun _ => {})
    { tensors := [0, 1], ops := [0], inputs := [0], outputs := [1] }
    { tensors := [2, 3], ops := [1], inputs := [2], outputs := [3] }

theorem unaryModel_wellFormed : WellFormedModel unaryModel :=
  compositeModel_wellFormed (by decide) (by decide)
    (by decide) (by decide) (by decide) (by decide) (by decide) (by decide) ⟨by decide, by decide⟩
    ⟨by decide, by decide⟩ (by decide) (by decide) (by decide)

/-- The copied result does not know the op that defines it. -/
theorem inlineSubgraph_unaryModel_not_wellFormed : WellFormedModel unaryModel ∧ ∃ m',
    inlineSubgraph unaryModel 0 1 = .ok (some m') ∧ ¬ (m'.subgraph 0).WellFormed m'.ir := by
  refine ⟨unaryModel_wellFormed, ?_⟩
  obtain ⟨r, hok⟩ : ∃ r, inlineSubgraph unaryModel 0 1 = .ok r := ⟨_, rfl⟩
  obtain ⟨l₁, l₂, h, hops, hi, hinl, rfl⟩ := inlineSubgraph_spec unaryModel_wellFormed
    (show 0 ∈ unaryModel.subgraphs by decide) (by decide) (by decide) (by decide) hok
  refine ⟨_, hok, fun hwf => ?_⟩
  have := (inlined_wellFormed_iff hi hops hinl).mp (by simpa [inlinedModel] using hwf)
  exact absurd (this.1 1 (by decide)) (by decide)

end LiteRt.Plugin
