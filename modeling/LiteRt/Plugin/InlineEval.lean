import LiteRt.Plugin.InlineWellFormed

/-!
# When inlining keeps the meaning of the main subgraph

The copied ops run under renamed tensors: an input of the decomposition is the
operand of the composite op, any other tensor is its copy. An output of the
decomposition that is also an input is rerouted to the copy, which nothing defines.
-/

namespace LiteRt.Plugin

open LiteRt.Lib LiteRt.Model List

/-- The composite op calls its decomposition. -/
def callDecomposition {V : Type} (S : Semantics V) (g : Ir) (decomp : Subgraph) (dest : OpId) :
    Calls V :=
  fun o => if o = dest then some (evalSubgraph S g noCalls decomp) else none

/-- No result of the composite op in use is an input the decomposition passes through. -/
def NoPassThrough (g : Ir) (main decomp : Subgraph) (dest : OpId) : Prop :=
  ∀ p ∈ (g.op dest).outputs.zip decomp.outputs,
    ((∃ o ∈ main.ops, p.1 ∈ (g.op o).inputs) ∨ p.1 ∈ main.outputs) → p.2 ∉ decomp.inputs

section
variable {g h : Ir} {main decomp : Subgraph} {dest : OpId} {l₁ l₂ : List OpId}
  (hi : Inlinable g main decomp dest) (hinl : Inlined g main decomp dest h)
  {V : Type} {S : Semantics V} {o : OpId} {d : OpId}

include hi

theorem resultFor_of_lt {t s : TensorId} (ht : t < g.alloc.nextTensor)
    (he : resultFor g decomp dest s = t) : s = t ∧ s ∉ (g.op dest).outputs := by
  by_cases hs : s ∈ (g.op dest).outputs
  · obtain ⟨y, hz⟩ := exists_output hi hs
    rw [resultFor_output hi hz] at he
    exact absurd (he ▸ ht) (Nat.not_lt.mpr (le_clonedTensor y))
  · rw [resultFor_of_not_mem hs] at he
    exact ⟨he, hs⟩

/-- Results of other ops are no results of the composite op. -/
theorem not_mem_outputs_of_ne (ho : o ∈ main.ops) (hne : o ≠ dest) {t : TensorId}
    (ht : t ∈ (g.op o).outputs) : t < g.alloc.nextTensor ∧ t ∉ (g.op dest).outputs := by
  refine ⟨hi.main_alloc.tensor t (hi.main_wf.results o ho t ht), fun hm => ?_⟩
  rw [(hi.main_wf.edges o ho).mem_outputs_iff] at ht
  rw [(hi.main_wf.edges dest hi.mem).mem_outputs_iff, ht] at hm
  exact hne (Option.some.inj hm)

theorem not_mem_inputs_of_result (hd : d ∈ decomp.ops) {s : TensorId} (hs : s ∈ (g.op d).outputs) :
    s ∉ decomp.inputs := by
  intro hin
  have := hi.inputs_undefined s hin
  rw [(hi.decomp_wf.edges d hd).mem_outputs_iff.mp hs] at this
  cases this

include hinl

theorem opInstr_main {calls : Calls V} (ho : o ∈ main.ops) (hne : o ≠ dest) (hc : calls o = none) :
    opInstr S h noCalls o = (opInstr S g calls o).rename (resultFor g decomp dest) := by
  have hout : (g.op o).outputs.map (resultFor g decomp dest) = (g.op o).outputs :=
    (map_congr_left fun t ht =>
      resultFor_of_not_mem (not_mem_outputs_of_ne hi ho hne ht).2).trans (map_id' _)
  simp only [opInstr, noCalls, Instr.rename, hinl.main_op o ho hne, hout, hc]

theorem opInstr_clone (hd : d ∈ decomp.ops) :
    opInstr S h noCalls (clonedOp g decomp d) =
      (opInstr S g noCalls d).rename (operandFor g decomp dest) := by
  have hout : (g.op d).outputs.map (operandFor g decomp dest) =
      (g.op d).outputs.map (clonedTensor g decomp) :=
    map_congr_left fun s hs => operandFor_of_not_mem (not_mem_inputs_of_result hi hd hs)
  simp only [opInstr, noCalls, Instr.rename, hinl.clone_op d hd, hout, length_map]

omit hi in
/-- Dead ops do not count. -/
theorem evalSubgraph_inlined (args : List V) :
    evalSubgraph S h noCalls (dce h (inlinedMain g main decomp dest l₁ l₂)) args =
      (exec ((l₁ ++ decomp.ops.map (clonedOp g decomp) ++ l₂).map (opInstr S h noCalls))
        ((constants S h).bind main.inputs args)).bind fun e =>
          e.readAll (main.outputs.map (resultFor g decomp dest)) := by
  have hdead : isOpDead (h.op dest) := isOpDead_iff.mpr hinl.dest_op
  have hfilter := exec_filter (i := opInstr S h noCalls)
    (l := l₁ ++ decomp.ops.map (clonedOp g decomp) ++ dest :: l₂)
    (p := fun o => !isOpDead (h.op o))
    (fun o _ hp => opInstr_idle rfl (by simpa using hp)) ((constants S h).bind main.inputs args)
  have hsplit (e : Env TensorId V) : exec ((dest :: l₂).map (opInstr S h noCalls)) e =
      exec (l₂.map (opInstr S h noCalls)) e := by
    rw [map_cons, exec_cons, opInstr_idle rfl hdead, Option.bind_some]
  rw [evalSubgraph, Block.eval, Subgraph.block]
  simp only [dce, inlinedMain] at hfilter ⊢
  rw [hfilter]
  simp only [map_append, exec_append, hsplit]

/-- The copied ops compute what the decomposition computes on the operands. -/
theorem exec_clones {e e' fD : Env TensorId V} {as : List V}
    (hread : e.readAll (g.op dest).inputs = some as)
    (he : ∀ t < g.alloc.nextTensor, e' t = e t)
    (hclone : ∀ s ∈ decomp.tensors, e' (clonedTensor g decomp s) = constants S g s)
    (hexec : exec (decomp.ops.map (opInstr S g noCalls))
      ((constants S g).bind decomp.inputs as) = some fD) : ∃ f',
    exec ((decomp.ops.map (clonedOp g decomp)).map (opInstr S h noCalls)) e' = some f' ∧
    (∀ s ∈ decomp.tensors, f' (operandFor g decomp dest s) = fD s) ∧
    ∀ t < g.alloc.nextTensor, f' t = e' t := by
  have hinstrs : (decomp.ops.map (clonedOp g decomp)).map (opInstr S h noCalls) =
      (decomp.ops.map (opInstr S g noCalls)).map (Instr.rename (operandFor g decomp dest)) := by
    rw [map_map, map_map]
    exact map_congr_left fun d hd => opInstr_clone hi hinl hd
  have hstart (s : TensorId) (hs : s ∈ decomp.tensors) : e' (operandFor g decomp dest s) =
      (constants S g).bind decomp.inputs as s := by
    by_cases hin : s ∈ decomp.inputs
    · obtain ⟨t, hz⟩ := exists_operand hi hin
      rw [operandFor_input hi hz, he t (mem_zip_inputs hi hz).1,
        Env.bind_readAll hread hi.inputs_nodup hz]
    · rw [operandFor_of_not_mem hin, hclone s hs, Env.bind_of_not_mem hin]
  obtain ⟨f', hf', hU⟩ := exec_rename (operandFor g decomp dest) (· ∈ decomp.tensors)
    (forall_mem_map.mpr fun d hd t ht => hi.decomp_wf.operands d hd t ht)
    (forall_mem_map.mpr fun d hd w hw t ht heq => by
      rw [operandFor_of_not_mem (not_mem_inputs_of_result hi hd hw)] at heq
      by_cases hin : t ∈ decomp.inputs
      · obtain ⟨x, hz⟩ := exists_operand hi hin
        rw [operandFor_input hi hz] at heq
        exact absurd (heq ▸ (mem_zip_inputs hi hz).1) (Nat.not_lt.mpr (le_clonedTensor w))
      · rw [operandFor_of_not_mem hin] at heq
        exact clonedTensor_inj ht heq)
    hstart hexec
  refine ⟨f', by rw [hinstrs, hf'], hU, fun t ht => exec_frame hf' ?_⟩
  rw [← hinstrs]
  simp only [forall_mem_map]
  intro d hd hw
  simp only [opInstr, hinl.clone_op d hd, mem_map] at hw
  obtain ⟨s, -, rfl⟩ := hw
  exact Nat.not_lt.mpr (le_clonedTensor s) ht

variable (hmain : main.ops = l₁ ++ dest :: l₂)

include hmain

/-- Without a pass-through in use, the outputs keep their values. -/
theorem evalSubgraph_inlined_of_noPassThrough (hpass : NoPassThrough g main decomp dest)
    {args vs : List V}
    (heval : evalSubgraph S g (callDecomposition S g decomp dest) main args = some vs) :
    evalSubgraph S h noCalls (dce h (inlinedMain g main decomp dest l₁ l₂)) args = some vs := by
  have hnd := hi.main_wf.ops_nodup
  rw [hmain] at hnd
  have hmem₁ {o : OpId} (ho : o ∈ l₁) : o ∈ main.ops ∧ o ≠ dest := by
    refine ⟨by rw [hmain]; exact mem_append_left _ ho, ?_⟩
    rintro rfl
    exact (nodup_append.mp hnd).2.2 o ho o (by simp) rfl
  have hmem₂ {o : OpId} (ho : o ∈ l₂) : o ∈ main.ops ∧ o ≠ dest := by
    refine ⟨by rw [hmain]; exact mem_append_right _ (mem_cons_of_mem dest ho), ?_⟩
    rintro rfl
    exact (nodup_cons.mp (nodup_append.mp hnd).2.1).1 ho
  have hcall {o : OpId} (hne : o ≠ dest) : callDecomposition S g decomp dest o = none :=
    if_neg hne
  have hstart (t : TensorId) (ht : t < g.alloc.nextTensor) :
      (constants S h).bind main.inputs args (id t) = (constants S g).bind main.inputs args t :=
    Env.bind_congr (constants_of_sameData (hinl.data t (not_mem_clones_of_lt ht))) _ _
  -- the run before inlining, cut at the composite op
  rw [evalSubgraph, Block.eval, Subgraph.block, Option.bind_eq_some_iff] at heval
  obtain ⟨f, hf, hvs⟩ := heval
  simp only [hmain, map_append, map_cons] at hf
  rw [exec_append, Option.bind_eq_some_iff] at hf
  obtain ⟨e₁, he₁, hf⟩ := hf
  rw [exec_cons, Option.bind_eq_some_iff] at hf
  obtain ⟨e₂, he₂, hf⟩ := hf
  obtain ⟨as, ws, has, hws, rfl⟩ := Instr.step_eq_some.mp he₂
  simp only [opInstr, callDecomposition, ↓reduceIte] at has hws
  rw [evalSubgraph, Block.eval, Subgraph.block, Option.bind_eq_some_iff] at hws
  obtain ⟨fD, hfD, hws⟩ := hws
  -- the ops before it read none of its results
  have hpre : l₁.map (opInstr S h noCalls) =
      (l₁.map (opInstr S g (callDecomposition S g decomp dest))).map (Instr.rename id) := by
    rw [map_map]
    refine map_congr_left fun o ho => ?_
    rw [opInstr_main hi hinl (hmem₁ ho).1 (hmem₁ ho).2 (hcall (hmem₁ ho).2)]
    have htopo := hi.topo
    rw [hmain] at htopo
    have hread : ∀ t ∈ (g.op o).inputs, resultFor g decomp dest t = t := fun t ht =>
      resultFor_of_not_mem fun hm => (Topological.append_iff.mp htopo).2.2 o ho dest (by simp)
        ⟨t, ht, (hi.main_wf.edges dest hi.mem).mem_outputs_iff.mp hm⟩
    have hwrite : ∀ t ∈ (g.op o).outputs, resultFor g decomp dest t = t := fun t ht =>
      resultFor_of_not_mem (not_mem_outputs_of_ne hi (hmem₁ ho).1 (hmem₁ ho).2 ht).2
    simp only [Function.comp_apply, Instr.rename, opInstr, map_id]
    rw [map_congr_left hread, map_congr_left hwrite, map_id', map_id']
  obtain ⟨e₁', he₁', hU₁⟩ := exec_rename id (· < g.alloc.nextTensor)
    (forall_mem_map.mpr fun o ho t ht =>
      hi.main_alloc.tensor t (hi.main_wf.operands o (hmem₁ ho).1 t ht))
    (fun _ _ _ _ _ _ he => he) hstart he₁
  have hclone₁ (s : TensorId) (hs : s ∈ decomp.tensors) :
      e₁' (clonedTensor g decomp s) = constants S g s := by
    rw [exec_frame he₁', Env.bind_of_not_mem, constants_of_sameData (hinl.clone_data s hs)]
    · exact fun hm => Nat.not_lt.mpr (le_clonedTensor s)
        (hi.main_alloc.tensor _ (hi.main_wf.ios _ (.inl hm)))
    · rw [← hpre, forall_mem_map]
      intro o ho hw
      rw [opInstr, hinl.main_op o (hmem₁ ho).1 (hmem₁ ho).2] at hw
      exact Nat.not_lt.mpr (le_clonedTensor s)
        (not_mem_outputs_of_ne hi (hmem₁ ho).1 (hmem₁ ho).2 hw).1
  have hU₁' : ∀ t < g.alloc.nextTensor, e₁' t = e₁ t := hU₁
  obtain ⟨e₂', he₂', hD, hframe⟩ := exec_clones hi hinl has hU₁' hclone₁ hfD
  -- the ops after it
  have hpost : l₂.map (opInstr S h noCalls) =
      (l₂.map (opInstr S g (callDecomposition S g decomp dest))).map
        (Instr.rename (resultFor g decomp dest)) := by
    rw [map_map]
    exact map_congr_left fun o ho =>
      opInstr_main hi hinl (hmem₂ ho).1 (hmem₂ ho).2 (hcall (hmem₂ ho).2)
  have hagree (t : TensorId) (ht : (∃ o ∈ main.ops, t ∈ (g.op o).inputs) ∨ t ∈ main.outputs) :
      e₂' (resultFor g decomp dest t) = e₁.bind (g.op dest).outputs ws t := by
    by_cases hout : t ∈ (g.op dest).outputs
    · obtain ⟨y, hz⟩ := exists_output hi hout
      have hy : operandFor g decomp dest y = clonedTensor g decomp y :=
        operandFor_of_not_mem (hpass (t, y) hz ht)
      have hz' : (y, t) ∈ decomp.outputs.zip (g.op dest).outputs := by
        obtain ⟨i, hget⟩ := mem_iff_getElem?.mp hz
        exact mem_iff_getElem?.mpr ⟨i, getElem?_zip_eq_some.mpr (getElem?_zip_eq_some.mp hget).symm⟩
      rw [resultFor_output hi hz, ← hy, hD y (hi.decomp_wf.ios y (.inr (of_mem_zip hz).2))]
      exact (Env.bind_readAll hws (hi.main_wf.edges dest hi.mem).outputs_nodup hz').symm
    · have hlt : t < g.alloc.nextTensor := hi.main_alloc.tensor t <| by
        rcases ht with ⟨o, ho, ht⟩ | ht
        · exact hi.main_wf.operands o ho t ht
        · exact hi.main_wf.ios t (.inr ht)
      rw [resultFor_of_not_mem hout, hframe t hlt, hU₁' t hlt, Env.bind_of_not_mem hout]
  obtain ⟨f', hf', hU₂⟩ := exec_rename (resultFor g decomp dest)
    (fun t => (∃ o ∈ main.ops, t ∈ (g.op o).inputs) ∨ t ∈ main.outputs)
    (forall_mem_map.mpr fun o ho t ht => .inl ⟨o, (hmem₂ ho).1, ht⟩)
    (forall_mem_map.mpr fun o ho w hw t _ he => by
      obtain ⟨hwlt, hwout⟩ := not_mem_outputs_of_ne hi (hmem₂ ho).1 (hmem₂ ho).2 hw
      rw [resultFor_of_not_mem hwout] at he
      exact (resultFor_of_lt hi hwlt he).1)
    hagree hf
  rw [evalSubgraph_inlined hinl, map_append, map_append, exec_append, exec_append,
    hpre, he₁', Option.bind_some, he₂', Option.bind_some, hpost, hf', Option.bind_some,
    Env.readAll_map fun t ht => hU₂ t (.inr ht)]
  exact hvs

/-- A pass-through in use leaves an output without a value. -/
theorem evalSubgraph_inlined_eq_none (hconst : ∀ t ∈ decomp.inputs, ¬ isConstant (g.tensor t))
    (hpass : ¬ NoPassThrough g main decomp dest) (args : List V) :
    evalSubgraph S h noCalls (dce h (inlinedMain g main decomp dest l₁ l₂)) args = none := by
  simp only [NoPassThrough, not_forall, not_not] at hpass
  obtain ⟨⟨t, s⟩, hz, hused, hs⟩ := hpass
  have hst := hi.decomp_wf.ios s (.inl hs)
  have ht := (of_mem_zip hz).1
  have hops {o : OpId} (ho : o ∈ main.ops) (hne : o ≠ dest) : o ∈ l₁ ∨ o ∈ l₂ := by
    rw [hmain, mem_append, mem_cons] at ho
    exact ho.imp_right fun h => h.resolve_left hne
  have hcases {o : OpId} (ho : o ∈ l₁ ++ decomp.ops.map (clonedOp g decomp) ++ l₂) :
      (o ∈ main.ops ∧ o ≠ dest) ∨ ∃ d ∈ decomp.ops, clonedOp g decomp d = o := by
    have hnd := hi.main_wf.ops_nodup
    rw [hmain, nodup_append] at hnd
    rw [append_assoc, mem_append, mem_append] at ho
    rcases ho with ho | ho | ho
    · exact .inl ⟨hmain ▸ mem_append_left _ ho, hnd.2.2 o ho dest (by simp)⟩
    · exact .inr (mem_map.mp ho)
    · refine .inl ⟨hmain ▸ mem_append_right _ (mem_cons_of_mem dest ho), ?_⟩
      rintro rfl
      exact (nodup_cons.mp hnd.2.1).1 ho
  -- nothing gives the copy of the input a value
  have hnone : (constants S h).bind main.inputs args (clonedTensor g decomp s) = none := by
    rw [Env.bind_of_not_mem, constants_of_sameData (hinl.clone_data s hst)]
    · exact if_neg (hconst s hs)
    · exact fun hm => Nat.not_lt.mpr (le_clonedTensor s)
        (hi.main_alloc.tensor _ (hi.main_wf.ios _ (.inl hm)))
  have hwrite : ∀ i ∈ (l₁ ++ decomp.ops.map (clonedOp g decomp) ++ l₂).map (opInstr S h noCalls),
      clonedTensor g decomp s ∉ i.writes := by
    rw [forall_mem_map]
    intro o ho hw
    rcases hcases ho with ⟨ho, hne⟩ | ⟨d, hd, rfl⟩
    · rw [opInstr, hinl.main_op o ho hne] at hw
      exact Nat.not_lt.mpr (le_clonedTensor s) (not_mem_outputs_of_ne hi ho hne hw).1
    · simp only [opInstr, hinl.clone_op d hd, mem_map] at hw
      obtain ⟨s', hs', he⟩ := hw
      rw [← clonedTensor_inj hst he.symm] at hs'
      exact not_mem_inputs_of_result hi hd hs' hs
  rw [evalSubgraph_inlined hinl]
  rcases hused with ⟨o, ho, hread⟩ | hout
  · have hne : o ≠ dest := by
      rintro rfl
      exact not_mem_inputs_of_mem_outputs hi ht hread
    have hm : o ∈ l₁ ++ decomp.ops.map (clonedOp g decomp) ++ l₂ := by
      rcases hops ho hne with h | h
      · exact mem_append_left _ (mem_append_left _ h)
      · exact mem_append_right _ h
    rw [exec_eq_none (mem_map_of_mem hm) (t := clonedTensor g decomp s) _ hnone hwrite]
    · rfl
    · rw [opInstr, hinl.main_op o ho hne]
      exact mem_map.mpr ⟨t, hread, resultFor_output hi hz⟩
  · cases he : exec ((l₁ ++ decomp.ops.map (clonedOp g decomp) ++ l₂).map (opInstr S h noCalls))
        ((constants S h).bind main.inputs args) with
    | none => rfl
    | some e =>
      refine Env.readAll_eq_none (t := clonedTensor g decomp s) ?_ ?_
      · exact mem_map.mpr ⟨t, hout, resultFor_output hi hz⟩
      · rw [exec_frame he hwrite, hnone]

end

/-- Whatever ops compute, when the outputs of the main subgraph of `m` have values,
those of `m'` have the same. -/
def KeepsMeaning (m m' : LiteRtModel) (mainId source : SubgraphId) (dest : OpId) : Prop :=
  ∀ (V : Type) (S : Semantics V) (args vs : List V),
    evalSubgraph S m.ir (callDecomposition S m.ir (m.subgraph source) dest) (m.subgraph mainId)
      args = some vs →
    evalSubgraph S m'.ir noCalls (m'.subgraph mainId) args = some vs

section
variable {m : LiteRtModel} {dest : OpId} {mainId source : SubgraphId} (hm : WellFormedModel m)
  (hmain : mainId ∈ m.subgraphs) (hsource : source ∈ m.subgraphs)

include hm hsource in
/-- When all outputs have values before, no result in use may be passed through. -/
theorem noPassThrough_of_keepsMeaning {l₁ l₂ : List OpId} {h : Ir}
    (hops : (m.subgraph mainId).ops = l₁ ++ dest :: l₂)
    (hi : Inlinable m.ir (m.subgraph mainId) (m.subgraph source) dest)
    (hinl : Inlined m.ir (m.subgraph mainId) (m.subgraph source) dest h)
    (hg : (m.subgraph mainId).Grounded m.ir) (hgd : (m.subgraph source).Grounded m.ir)
    (hconst : ∀ t ∈ (m.subgraph source).inputs, ¬ isConstant (m.ir.tensor t))
    (hkeep : KeepsMeaning m (inlinedModel m mainId h (dce h
      (inlinedMain m.ir (m.subgraph mainId) (m.subgraph source) dest l₁ l₂))) mainId source dest) :
    NoPassThrough m.ir (m.subgraph mainId) (m.subgraph source) dest := by
  by_contra hpass
  -- the one-point interpretation already tells values from no values
  let S : Semantics Unit := ⟨fun _ _ _ => (), fun _ _ _ => ()⟩
  have htotal : ∀ o ∈ (m.subgraph mainId).ops,
      (opInstr S m.ir (callDecomposition S m.ir (m.subgraph source) dest) o).Total := by
    intro o ho
    by_cases hod : o = dest
    · subst hod
      intro as has
      obtain ⟨ws, hws, hlen⟩ : ∃ ws, evalSubgraph S m.ir noCalls (m.subgraph source) as = some ws ∧
          ws.length = (m.subgraph source).outputs.length :=
        evalSubgraph_isSome hgd hi.decomp_wf (hm.topo source hsource)
          (fun d _ => opInstr_total rfl) (has.trans hi.numInputs)
      exact ⟨ws, by simp only [opInstr, callDecomposition, ↓reduceIte, hws],
        Nat.le_of_eq (hi.numOutputs.trans hlen.symm)⟩
    · exact opInstr_total (if_neg hod)
  obtain ⟨vs, hvs, -⟩ := evalSubgraph_isSome hg hi.main_wf hi.topo htotal
    (length_replicate (n := (m.subgraph mainId).inputs.length) (a := ()))
  have hkept := hkeep Unit S _ vs hvs
  simp only [inlinedModel, ↓reduceIte] at hkept
  rw [evalSubgraph_inlined_eq_none hi hinl hops hconst hpass] at hkept
  cases hkept

include hm hmain hsource in
/-- `InlineSubgraph` keeps the meaning when no result in use is passed through, and
only then. -/
theorem inlineSubgraph_keepsMeaning_iff (hne : source ≠ mainId)
    (hdest : dest ∈ (m.subgraph mainId).ops) {r : Option LiteRtModel}
    (hok : inlineSubgraph m dest source = .ok r) : ∃ m', r = some m' ∧
      (NoPassThrough m.ir (m.subgraph mainId) (m.subgraph source) dest →
        KeepsMeaning m m' mainId source dest) ∧
      ((m.subgraph mainId).Grounded m.ir → (m.subgraph source).Grounded m.ir →
        (∀ t ∈ (m.subgraph source).inputs, ¬ isConstant (m.ir.tensor t)) →
        KeepsMeaning m m' mainId source dest →
          NoPassThrough m.ir (m.subgraph mainId) (m.subgraph source) dest) := by
  obtain ⟨l₁, l₂, h, hops, hi, hinl, rfl⟩ :=
    inlineSubgraph_spec hm hmain hsource hne hdest hok
  refine ⟨_, rfl, fun hpass V S args vs heval => ?_, fun hg hgd hconst hkeep => ?_⟩
  · have := evalSubgraph_inlined_of_noPassThrough hi hinl hops hpass heval
    simpa only [inlinedModel, ↓reduceIte] using this
  · exact noPassThrough_of_keepsMeaning hm hsource hops hi hinl hg hgd hconst hkeep

end

/-- A decomposition that computes its output. -/
theorem inlineSubgraph_unaryModel_keepsMeaning : ∃ m',
    inlineSubgraph unaryModel 0 1 = .ok (some m') ∧ KeepsMeaning unaryModel m' 0 1 0 := by
  obtain ⟨r, hok⟩ : ∃ r, inlineSubgraph unaryModel 0 1 = .ok r := ⟨_, rfl⟩
  obtain ⟨m', rfl, hkeep, -⟩ := inlineSubgraph_keepsMeaning_iff unaryModel_wellFormed
    (show 0 ∈ unaryModel.subgraphs by decide) (by decide) (by decide) (by decide) hok
  refine ⟨m', hok, hkeep ?_⟩
  have hout : (unaryModel.subgraph 1).outputs = [3] := rfl
  have hin : (unaryModel.subgraph 1).inputs = [2] := rfl
  rintro ⟨t, s⟩ hz -
  have hs := (of_mem_zip hz).2
  rw [hout, mem_singleton] at hs
  simp only [hs, hin]
  decide

/-- A composite op over a decomposition that returns its input. -/
def passThroughModel : LiteRtModel :=
  compositeModel [{ inputs := [0], outputs := [1] }] 3 (fun _ => {})
    { tensors := [0, 1], ops := [0], inputs := [0], outputs := [1] }
    { tensors := [2], inputs := [2], outputs := [2] }

theorem passThroughModel_wellFormed : WellFormedModel passThroughModel :=
  compositeModel_wellFormed (by decide) (by decide)
    (by decide) (by decide) (by decide) (by decide) (by decide) (by decide) ⟨by decide, by decide⟩
    ⟨by decide, by decide⟩ (by decide) (by decide) (by decide)

/-- The output of the main subgraph becomes the copy of the input, which has no value. -/
theorem inlineSubgraph_passThroughModel_not_keepsMeaning :
    WellFormedModel passThroughModel ∧ ∃ m',
      inlineSubgraph passThroughModel 0 1 = .ok (some m') ∧
      ¬ KeepsMeaning passThroughModel m' 0 1 0 := by
  refine ⟨passThroughModel_wellFormed, ?_⟩
  obtain ⟨r, hok⟩ : ∃ r, inlineSubgraph passThroughModel 0 1 = .ok r := ⟨_, rfl⟩
  obtain ⟨l₁, l₂, h, hops, hi, hinl, rfl⟩ := inlineSubgraph_spec passThroughModel_wellFormed
    (show 0 ∈ passThroughModel.subgraphs by decide) (by decide) (by decide) (by decide) hok
  refine ⟨_, hok, fun hkeep => ?_⟩
  have hpass := noPassThrough_of_keepsMeaning passThroughModel_wellFormed (by decide) hops hi hinl
    (.of_forall (by decide)) (.of_forall (by decide)) (by decide) hkeep
  exact hpass (1, 2) (by decide) (.inr (by decide)) (by decide)

end LiteRt.Plugin
