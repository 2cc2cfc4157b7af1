import LiteRt.Plugin.InlineSpec

/-!
# The results of the composite op

The last stage of inlining: its users read the copied outputs of the decomposition,
its results lose all their edges and so does the op itself.
-/

namespace LiteRt.Plugin

open LiteRt.Lib LiteRt.Model List

/-- The main subgraph before dead code goes, the composite op standing between `l₁`
and `l₂`. -/
def inlinedMain (g : Ir) (main decomp : Subgraph) (dest : OpId) (l₁ l₂ : List OpId) : Subgraph :=
  { main with
    ops := l₁ ++ decomp.ops.map (clonedOp g decomp) ++ dest :: l₂
    tensors := main.tensors ++ decomp.tensors.map (clonedTensor g decomp)
    outputs := main.outputs.map (resultFor g decomp dest) }

/-- After all loops. -/
structure Inlined (g : Ir) (main decomp : Subgraph) (dest : OpId) (h : Ir) : Prop where
  dest_op : (h.op dest).inputs = [] ∧ (h.op dest).outputs = []
  main_op : ∀ o ∈ main.ops, o ≠ dest →
    h.op o = { g.op o with inputs := (g.op o).inputs.map (resultFor g decomp dest) }
  clone_op : ∀ d ∈ decomp.ops, h.op (clonedOp g decomp d) =
    { attrs := (g.op d).attrs
      inputs := (g.op d).inputs.map (operandFor g decomp dest)
      outputs := (g.op d).outputs.map (clonedTensor g decomp) }
  main_count : ∀ o ∈ main.ops, o ≠ dest → ∀ t i, (h.tensor t).users.count (o, i) =
    if (h.op o).inputs[i]? = some t then 1 else 0
  clone_count : ∀ d ∈ decomp.ops, ∀ t i, (h.tensor t).users.count (clonedOp g decomp d, i) =
      if (h.op (clonedOp g decomp d)).inputs[i]? = some t then 1 else 0
  users_mem : ∀ t, t ∈ main.tensors ∨ t ∈ decomp.tensors.map (clonedTensor g decomp) →
    ∀ u ∈ (h.tensor t).users, u.1 ∈ main.ops ∨ ∃ d ∈ decomp.ops, u.1 = clonedOp g decomp d
  /-- The records of the composite op that stay behind. -/
  leftover : ∀ t ∈ (g.op dest).inputs, (∀ u ∈ (h.tensor t).users, u.1 ≠ dest) ↔
    longestRun (fun u => u.1 = dest) (g.tensor t).users < 2 ^ numPasses g decomp dest t
  no_leftover : ∀ t ∉ (g.op dest).inputs, ∀ u ∈ (h.tensor t).users, u.1 ≠ dest
  result_definer : ∀ t ∈ (g.op dest).outputs, (h.tensor t).definingOp = none
  definer : ∀ t ∉ decomp.tensors.map (clonedTensor g decomp), t ∉ (g.op dest).outputs →
    (h.tensor t).definingOp = (g.tensor t).definingOp ∧
      (h.tensor t).definingOpOutInd = (g.tensor t).definingOpOutInd
  clone_definer : ∀ s ∈ decomp.tensors, (h.tensor (clonedTensor g decomp s)).definingOp = none
  data : ∀ t ∉ decomp.tensors.map (clonedTensor g decomp), (g.tensor t).SameData (h.tensor t)
  clone_data : ∀ s ∈ decomp.tensors, (g.tensor s).SameData (h.tensor (clonedTensor g decomp s))

section
variable {g : Ir} {main decomp : Subgraph} {dest : OpId} (hi : Inlinable g main decomp dest)
  {t s : TensorId} {u : OpId × Nat} {o : OpId}

include hi in
theorem resultFor_output (hm : (t, s) ∈ (g.op dest).outputs.zip decomp.outputs) :
    resultFor g decomp dest t = clonedTensor g decomp s := by
  rw [resultFor, InsertOrderMap.find?_of_mem _ hm]
  · rfl
  · rw [map_fst_zip (Nat.le_of_eq hi.numOutputs)]
    exact (hi.main_wf.edges dest hi.mem).outputs_nodup

theorem resultFor_of_not_mem (ht : t ∉ (g.op dest).outputs) : resultFor g decomp dest t = t := by
  rw [resultFor, InsertOrderMap.find?_eq_none.mpr]
  · rfl
  · intro hm
    obtain ⟨p, hp, rfl⟩ := mem_map.mp hm
    exact ht (of_mem_zip hp).1

include hi

/-- A result of the composite op corresponds to some output. -/
theorem exists_output (ht : t ∈ (g.op dest).outputs) :
    ∃ s, (t, s) ∈ (g.op dest).outputs.zip decomp.outputs := by
  obtain ⟨i, hlt, rfl⟩ := getElem_of_mem ht
  have hlt' : i < decomp.outputs.length := hi.numOutputs ▸ hlt
  refine ⟨decomp.outputs[i], mem_iff_getElem?.mpr ⟨i, ?_⟩⟩
  rw [getElem?_zip_eq_some]
  exact ⟨getElem?_eq_getElem hlt, getElem?_eq_getElem hlt'⟩

theorem tensor_lt_of_mem_outputs (ht : t ∈ (g.op dest).outputs) : t < g.alloc.nextTensor :=
  hi.main_alloc.tensor t (hi.main_wf.results dest hi.mem t ht)

/-- The composite op does not read its own results. -/
theorem not_mem_inputs_of_mem_outputs (ht : t ∈ (g.op dest).outputs) :
    t ∉ (g.op dest).inputs := fun hin =>
  hi.topo.irrefl dest hi.mem ⟨t, hin, (hi.main_wf.edges dest hi.mem).mem_outputs_iff.mp ht⟩

theorem resultFor_not_mem_outputs (t : TensorId) :
    resultFor g decomp dest t ∉ (g.op dest).outputs := by
  by_cases ht : t ∈ (g.op dest).outputs
  · obtain ⟨s, hz⟩ := exists_output hi ht
    rw [resultFor_output hi hz]
    exact fun hm => Nat.not_lt.mpr (le_clonedTensor s) (tensor_lt_of_mem_outputs hi hm)
  · rwa [resultFor_of_not_mem ht]

theorem operandFor_not_mem_outputs (s : TensorId) :
    operandFor g decomp dest s ∉ (g.op dest).outputs := by
  by_cases hs : s ∈ decomp.inputs
  · obtain ⟨t, hz⟩ := exists_operand hi hs
    rw [operandFor_input hi hz]
    exact fun hm => not_mem_inputs_of_mem_outputs hi hm (of_mem_zip hz).1
  · rw [operandFor_of_not_mem hs]
    exact fun hm => Nat.not_lt.mpr (le_clonedTensor s) (tensor_lt_of_mem_outputs hi hm)

/-- A record of a result names an operand of another op of the main subgraph. -/
theorem mem_users_result (ht : t ∈ (g.op dest).outputs) :
    u ∈ (g.tensor t).users ↔ u.1 ∈ main.ops ∧ u.1 ≠ dest ∧ (g.op u.1).inputs[u.2]? = some t := by
  constructor
  · intro hu
    have ho := hi.main_wf.users t (hi.main_wf.results dest hi.mem t ht) u hu
    have hget := (hi.main_wf.edges u.1 ho).use_sound hu
    refine ⟨ho, ?_, hget⟩
    intro he
    rw [he] at hget
    exact not_mem_inputs_of_mem_outputs hi ht (mem_of_getElem? hget)
  · exact fun ⟨ho, _, hget⟩ => (hi.main_wf.edges u.1 ho).mem_users hget

omit hi in
/-- The moves of the sixth loop. -/
def resultMoves (g : Ir) (decomp : Subgraph) (dest : OpId) : List Move :=
  rerouteMoves (clonedTensor g decomp) (fun t => (g.tensor t).users)
    ((g.op dest).outputs.zip decomp.outputs)

omit hi in
theorem mem_resultMoves {m : Move} : m ∈ resultMoves g decomp dest ↔
    ∃ p ∈ (g.op dest).outputs.zip decomp.outputs, ∃ u ∈ (g.tensor p.1).users,
      m = (clonedTensor g decomp p.2, u) := by
  simp only [resultMoves, rerouteMoves, mem_flatMap, mem_map, eq_comm]

/-- The operands that are results of the composite op move. -/
theorem mem_resultMoves_iff : (t, u) ∈ resultMoves g decomp dest ↔
    u.1 ∈ main.ops ∧ u.1 ≠ dest ∧ ∃ x ∈ (g.op dest).outputs,
      (g.op u.1).inputs[u.2]? = some x ∧ resultFor g decomp dest x = t := by
  rw [mem_resultMoves]
  constructor
  · rintro ⟨p, hp, u', hu, he⟩
    obtain ⟨rfl, rfl⟩ := Prod.mk.inj he
    have hx := (of_mem_zip hp).1
    obtain ⟨ho, hne, hget⟩ := (mem_users_result hi hx).mp hu
    exact ⟨ho, hne, p.1, hx, hget, resultFor_output hi hp⟩
  · rintro ⟨ho, hne, x, hx, hget, rfl⟩
    obtain ⟨s, hz⟩ := exists_output hi hx
    exact ⟨(x, s), hz, u, (mem_users_result hi hx).mpr ⟨ho, hne, hget⟩,
      Prod.ext (resultFor_output hi hz) rfl⟩

theorem resultMoves_nodup : ((resultMoves g decomp dest).map Prod.snd).Nodup := by
  have hzip : (resultMoves g decomp dest).map Prod.snd =
      (g.op dest).outputs.flatMap fun t => (g.tensor t).users := by
    rw [resultMoves, rerouteMoves, map_flatMap]
    conv_rhs => rw [← map_fst_zip (Nat.le_of_eq hi.numOutputs), flatMap_map]
    simp only [List.map_map, Function.comp_def, map_id']
  rw [hzip, nodup_flatMap]
  refine ⟨fun t ht => nodup_iff_count_le_one.mpr fun u => ?_, ?_⟩
  · by_cases hu : u ∈ (g.tensor t).users
    · have := (hi.main_wf.edges u.1 ((mem_users_result hi ht).mp hu).1).uses_count t u.2
      rw [show u = (u.1, u.2) from rfl, this]
      split <;> simp
    · rw [count_eq_zero.mpr hu]
      exact Nat.zero_le 1
  · refine (hi.main_wf.edges dest hi.mem).outputs_nodup.imp_of_mem fun {t t'} ht ht' hne => ?_
    refine disjoint_left.mpr ?_
    intro u hu hu'
    have h1 := ((mem_users_result hi ht).mp hu).2.2
    have h2 := ((mem_users_result hi ht').mp hu').2.2
    rw [h1] at h2
    exact hne (Option.some.inj h2)

omit hi in
/-- Renaming the outputs pair by pair is renaming them once. -/
theorem rerouteOutputList_eq {ct : TensorId → TensorId} {ps : List (TensorId × TensorId)}
    (hsep : ∀ p ∈ ps, ∀ p' ∈ ps, p.1 ≠ ct p'.2) (ts : List TensorId) :
    rerouteOutputList ct ps ts = ts.map fun t => ((InsertOrderMap.find? ps t).map ct).getD t := by
  induction ps generalizing ts with
  | nil =>
    rw [rerouteOutputList, foldl_nil]
    exact (map_id _).symm
  | cons p ps ih =>
    have ih := ih (fun p' h p'' h' =>
      hsep p' (mem_cons_of_mem p h) p'' (mem_cons_of_mem p h'))
    rw [rerouteOutputList, foldl_cons, ← rerouteOutputList, ih, List.map_map]
    refine map_congr_left fun t _ => ?_
    rw [Function.comp_apply, InsertOrderMap.find?_cons]
    by_cases ht : t = p.1
    · subst ht
      rw [if_pos rfl, if_pos rfl, InsertOrderMap.find?_eq_none.mpr]
      · rfl
      · intro hm
        obtain ⟨p', hp', he⟩ := mem_map.mp hm
        exact hsep p' (mem_cons_of_mem p hp') p (by simp) he
    · rw [if_neg ht, if_neg (Ne.symm ht)]

/-! ## After the loop over the results -/

omit hi in
/-- The records at the results have moved, the composite op still has its edges. -/
structure ResultsMoved (g : Ir) (main decomp : Subgraph) (dest : OpId) (h h₆ : Ir) : Prop where
  tensor : ∀ t, h₆.tensor t = { h.tensor t with users := (h.tensor t).users ++
    ((resultMoves g decomp dest).filter fun m => m.1 = t).map Prod.snd }
  dest_outputs : (h₆.op dest).outputs = (g.op dest).outputs
  main_op : ∀ o ∈ main.ops, o ≠ dest →
    h₆.op o = { g.op o with inputs := (g.op o).inputs.map (resultFor g decomp dest) }
  clone_op : ∀ d ∈ decomp.ops, h₆.op (clonedOp g decomp d) = h.op (clonedOp g decomp d)

/-- The moved records are of other ops of the main subgraph. -/
theorem mem_moved (hu : u ∈ (resultMoves g decomp dest).map Prod.snd) :
    u.1 ∈ main.ops ∧ u.1 ≠ dest := by
  obtain ⟨⟨t, u⟩, hm, rfl⟩ := mem_map.mp hu
  have hmove := (mem_resultMoves_iff hi).mp hm
  exact ⟨hmove.1, hmove.2.1⟩

theorem mem_movedTo (hu : u ∈ ((resultMoves g decomp dest).filter fun m => m.1 = t).map Prod.snd) :
    u.1 ∈ main.ops ∧ u.1 ≠ dest :=
  mem_moved hi ((filter_sublist.map Prod.snd).subset hu)

theorem results_apart : ∀ p ∈ (g.op dest).outputs.zip decomp.outputs,
    ∀ p' ∈ (g.op dest).outputs.zip decomp.outputs, p.1 ≠ clonedTensor g decomp p'.2 := by
  intro p hp p' _ he
  have hlt := tensor_lt_of_mem_outputs hi (of_mem_zip hp).1
  exact Nat.not_lt.mpr (le_clonedTensor p'.2) (he ▸ hlt)

variable {h h₆ : Ir} (hc : Connected g decomp dest h)

include hc

/-- The moves replace the results among the operands of an op. -/
theorem inputs_moved (ho : o ∈ main.ops) (hne : o ≠ dest) {ins : List TensorId}
    (hmem : ∀ m ∈ resultMoves g decomp dest, m.2.1 = o → ins[m.2.2]? = some m.1)
    (hno : ∀ i, (o, i) ∉ (resultMoves g decomp dest).map Prod.snd → ins[i]? = (h.op o).inputs[i]?) :
    ins = (g.op o).inputs.map (resultFor g decomp dest) := by
  refine ext_getElem? fun i => ?_
  rw [getElem?_map]
  by_cases hx : ∃ x ∈ (g.op dest).outputs, (g.op o).inputs[i]? = some x
  · obtain ⟨x, hx, hget⟩ := hx
    have hm : (resultFor g decomp dest x, (o, i)) ∈ resultMoves g decomp dest :=
      (mem_resultMoves_iff hi).mpr ⟨ho, hne, x, hx, hget, rfl⟩
    rw [hmem _ hm rfl, hget, Option.map_some]
  · rw [hno i, hc.op o (op_lt hi ho)]
    · cases hget : (g.op o).inputs[i]? with
      | none => rfl
      | some x => rw [Option.map_some, resultFor_of_not_mem fun hx' => hx ⟨x, hx', hget⟩]
    · intro hm
      obtain ⟨⟨t, u⟩, hm, rfl⟩ := mem_map.mp hm
      obtain ⟨-, -, x, hx', hget, -⟩ := (mem_resultMoves_iff hi).mp hm
      exact hx ⟨x, hx', hget⟩

theorem moves_results : ∃ h₆, moves id h (resultMoves g decomp dest) = some h₆ ∧
    ResultsMoved g main decomp dest h h₆ := by
  obtain ⟨h₆, he₆, -, hT₆, hO₆⟩ := moves_spec (resultMoves g decomp dest) (g := h) (f := id)
    (q := fun _ => True) (fun _ _ _ => rfl) (fun _ _ => trivial)
    (resultMoves_nodup hi) (fun m hm => by
      obtain ⟨ho, -, x, -, hget, -⟩ := (mem_resultMoves_iff hi (t := m.1) (u := m.2)).mp hm
      rw [hc.op m.2.1 (op_lt hi ho)]
      exact (List.getElem?_eq_some_iff.mp hget).1)
  refine ⟨h₆, he₆, ?_⟩
  constructor
  case tensor =>
    intro t
    rw [hT₆ t]
    simp
  case dest_outputs =>
    obtain ⟨ins, hins, -⟩ := hO₆ dest
    rw [hins, hc.op dest (op_lt hi hi.mem)]
  case main_op =>
    intro o ho hne
    obtain ⟨ins, hins, -, hmem, hno⟩ := hO₆ o
    rw [hins, inputs_moved hi hc ho hne hmem hno, hc.op o (op_lt hi ho)]
  case clone_op =>
    intro d _
    obtain ⟨ins, hins, -, -, hno⟩ := hO₆ (clonedOp g decomp d)
    have : ins = (h.op (clonedOp g decomp d)).inputs :=
      ext_getElem? fun i => hno i fun hm =>
        Nat.not_lt.mpr (le_clonedOp d) (op_lt hi (mem_moved hi hm).1)
    rw [hins, this]

/-- The records at the old operand, which is no result of the composite op. -/
theorem count_connected (ho : o ∈ main.ops) (hne : o ≠ dest) (t : TensorId) (i : Nat) :
    (h.tensor t).users.count (o, i) = if (g.op o).inputs[i]? = some t then 1 else 0 := by
  by_cases hcl : t ∈ decomp.tensors.map (clonedTensor g decomp)
  · obtain ⟨s, hs, rfl⟩ := mem_map.mp hcl
    rw [count_eq_zero.mpr, if_neg]
    · intro hget
      exact not_mem_clones_of_lt (hi.main_alloc.tensor _
        (hi.main_wf.operands o ho _ (mem_of_getElem? hget))) hcl
    · intro hu
      obtain ⟨d, -, he⟩ := hc.clone_users s hs _ hu
      simp only at he
      exact Nat.not_lt.mpr (le_clonedOp d) (he ▸ op_lt hi ho)
  · obtain ⟨us, hus, -, hcount, -⟩ := hc.operand t hcl
    rw [hus]
    exact (hcount (o, i) (op_lt hi ho) hne).trans ((hi.main_wf.edges o ho).uses_count t i)

omit hc

variable (hr : ResultsMoved g main decomp dest h h₆)

include hc hr

theorem ResultsMoved.main_count (ho : o ∈ main.ops) (hne : o ≠ dest) (ht : t ∉ (g.op dest).outputs)
    (i : Nat) : (h₆.tensor t).users.count (o, i) =
      if (h₆.op o).inputs[i]? = some t then 1 else 0 := by
  rw [hr.tensor t, count_append, count_movedTo (resultMoves_nodup hi),
    count_connected hi hc ho hne, hr.main_op o ho hne, getElem?_map]
  cases hget : (g.op o).inputs[i]? with
  | none =>
    rw [if_neg (by simp), if_neg, if_neg (by simp)]
    intro hm
    obtain ⟨-, -, x, -, hget', -⟩ := (mem_resultMoves_iff hi).mp hm
    simp only [hget] at hget'
    cases hget'
  | some x =>
    by_cases hx : x ∈ (g.op dest).outputs
    · have hxt : x ≠ t := fun he => ht (he ▸ hx)
      have hm : (t, (o, i)) ∈ resultMoves g decomp dest ↔ resultFor g decomp dest x = t := by
        rw [mem_resultMoves_iff hi]
        constructor
        · rintro ⟨-, -, y, -, hget', rfl⟩
          simp only [hget, Option.some.injEq] at hget'
          rw [hget']
        · exact fun he => ⟨ho, hne, x, hx, hget, he⟩
      simp [hm, hxt]
    · have hm : (t, (o, i)) ∉ resultMoves g decomp dest := by
        rw [mem_resultMoves_iff hi]
        rintro ⟨-, -, y, hy, hget', -⟩
        simp only [hget, Option.some.injEq] at hget'
        exact hx (hget' ▸ hy)
      simp [hm, resultFor_of_not_mem hx]

theorem ResultsMoved.clone_count {d : OpId} (hd : d ∈ decomp.ops) (t : TensorId) (i : Nat) :
    (h₆.tensor t).users.count (clonedOp g decomp d, i) =
      if ((g.op d).inputs.map (operandFor g decomp dest))[i]? = some t then 1 else 0 := by
  rw [hr.tensor t, count_append, hc.clone_count t d hd i]
  refine Nat.add_eq_left.mpr (count_eq_zero.mpr fun hu => ?_)
  exact Nat.not_lt.mpr (le_clonedOp d) (op_lt hi (mem_movedTo hi hu).1)

theorem ResultsMoved.users_mem
    (ht : t ∈ main.tensors ∨ t ∈ decomp.tensors.map (clonedTensor g decomp))
    (hu : u ∈ (h₆.tensor t).users) :
    u.1 ∈ main.ops ∨ ∃ d ∈ decomp.ops, u.1 = clonedOp g decomp d := by
  rw [hr.tensor t] at hu
  rcases mem_append.mp hu with hu | hu
  · rcases ht with ht | ht
    · obtain ⟨us, hus, hmem, -⟩ := hc.operand t (not_mem_clones_of_lt (hi.main_alloc.tensor t ht))
      rw [hus] at hu
      exact (hmem u hu).imp_left (hi.main_wf.users t ht u)
    · obtain ⟨s, hs, rfl⟩ := mem_map.mp ht
      exact .inr (hc.clone_users s hs u hu)
  · exact .inl (mem_movedTo hi hu).1

theorem ResultsMoved.leftover (ht : t ∈ (g.op dest).inputs) :
    (∀ u ∈ (h₆.tensor t).users, u.1 ≠ dest) ↔
      longestRun (fun u => u.1 = dest) (g.tensor t).users < 2 ^ numPasses g decomp dest t := by
  have htm := hi.main_wf.operands dest hi.mem t ht
  obtain ⟨us, hus, -, -, hiff⟩ :=
    hc.operand t (not_mem_clones_of_lt (hi.main_alloc.tensor t htm))
  rw [← hiff, hr.tensor t, hus]
  constructor
  · exact fun hall u hu => hall u (mem_append_left _ hu)
  · intro hall u hu
    rcases mem_append.mp hu with hu | hu
    · exact hall u hu
    · exact (mem_movedTo hi hu).2

theorem ResultsMoved.no_leftover (hin : t ∉ (g.op dest).inputs) (hu : u ∈ (h₆.tensor t).users) :
    u.1 ≠ dest := by
  rw [hr.tensor t] at hu
  rcases mem_append.mp hu with hold | hnew
  · by_cases hcl : t ∈ decomp.tensors.map (clonedTensor g decomp)
    · obtain ⟨s, hs, rfl⟩ := mem_map.mp hcl
      obtain ⟨d, -, he⟩ := hc.clone_users s hs u hold
      rw [he]
      exact clonedOp_ne hi d
    · rw [hc.tensor t hcl hin] at hold
      rintro rfl
      exact hin (mem_of_getElem? ((hi.main_wf.edges u.1 hi.mem).use_sound hold))
  · exact (mem_movedTo hi hnew).2

/-- The composite op and its results lose their edges. -/
theorem ResultsMoved.inlined : Inlined g main decomp dest
    (((h₆.op dest).outputs.foldl clearTensor h₆).modifyOp dest
      fun op => { op with inputs := [], outputs := [] }) := by
  have hclone_out (s : TensorId) : clonedTensor g decomp s ∉ (g.op dest).outputs := fun hm =>
    Nat.not_lt.mpr (le_clonedTensor s) (tensor_lt_of_mem_outputs hi hm)
  rw [hr.dest_outputs, foldl_clearTensor]
  constructor
  case dest_op => simp
  case main_op =>
    intro o ho hne
    rw [Ir.op_modifyOp_ne hne]
    exact hr.main_op o ho hne
  case clone_op =>
    intro d hd
    rw [Ir.op_modifyOp_ne (clonedOp_ne hi d)]
    exact (hr.clone_op d hd).trans (hc.clone_op d hd)
  case main_count =>
    intro o ho hne t i
    rw [Ir.op_modifyOp_ne hne, Ir.tensor_modifyOp]
    simp only
    split
    · next ht =>
      rw [hr.main_op o ho hne, if_neg]
      · rfl
      · rw [getElem?_map, Option.map_eq_some_iff]
        rintro ⟨x, -, rfl⟩
        exact resultFor_not_mem_outputs hi x ht
    · next ht => exact hr.main_count hi hc ho hne ht i
  case clone_count =>
    intro d hd t i
    rw [Ir.op_modifyOp_ne (clonedOp_ne hi d), Ir.tensor_modifyOp]
    simp only [hr.clone_op d hd, hc.clone_op d hd]
    split
    · next ht =>
      rw [if_neg]
      · rfl
      · rw [getElem?_map, Option.map_eq_some_iff]
        rintro ⟨x, -, rfl⟩
        exact operandFor_not_mem_outputs hi x ht
    · exact hr.clone_count hi hc hd t i
  case users_mem =>
    intro t ht u hu
    rw [Ir.tensor_modifyOp] at hu
    simp only at hu
    split at hu
    · cases hu
    · exact hr.users_mem hi hc ht hu
  case leftover =>
    intro t ht
    rw [Ir.tensor_modifyOp]
    simp only
    rw [if_neg fun h => not_mem_inputs_of_mem_outputs hi h ht]
    exact hr.leftover hi hc ht
  case no_leftover =>
    intro t hin u hu
    rw [Ir.tensor_modifyOp] at hu
    simp only at hu
    split at hu
    · cases hu
    · exact hr.no_leftover hi hc hin hu
  case result_definer =>
    intro t ht
    rw [Ir.tensor_modifyOp]
    simp only
    rw [if_pos ht]
    rfl
  case definer =>
    intro t hcl ht
    obtain ⟨us, hus, -⟩ := hc.operand t hcl
    rw [Ir.tensor_modifyOp]
    simp only
    rw [if_neg ht, hr.tensor t, hus]
    exact ⟨rfl, rfl⟩
  case clone_definer =>
    intro s hs
    rw [Ir.tensor_modifyOp]
    simp only
    rw [if_neg (hclone_out s), hr.tensor]
    exact hc.clone_definer s hs
  case data =>
    intro t hcl
    obtain ⟨us, hus, -⟩ := hc.operand t hcl
    rw [Ir.tensor_modifyOp]
    simp only
    split
    · rw [hr.tensor t, hus]
      exact ⟨rfl, rfl, rfl⟩
    · rw [hr.tensor t, hus]
      exact ⟨rfl, rfl, rfl⟩
  case clone_data =>
    intro s hs
    have := hc.clone_data s hs
    rw [Ir.tensor_modifyOp]
    simp only
    rw [if_neg (hclone_out s), hr.tensor]
    exact ⟨this.buffer, this.type, this.qparams⟩

omit hc hr

/-- The loops over the results succeed. -/
theorem inlined_spec (hc : Connected g decomp dest h) {tensorMap : TensorMap}
    (htensorMap : ∀ t ∈ decomp.tensors, tensorMap.find? t = some (clonedTensor g decomp t))
    (sg : Subgraph) : ∃ h₆,
      ((h.op dest).outputs.zip decomp.outputs).foldlM (rerouteOutput tensorMap) (h, sg) =
        some (h₆, { sg with outputs := sg.outputs.map (resultFor g decomp dest) }) ∧
      Inlined g main decomp dest (((h₆.op dest).outputs.foldl clearTensor h₆).modifyOp dest
        fun op => { op with inputs := [], outputs := [] }) := by
  have hzip {p : TensorId × TensorId} (hp : p ∈ (g.op dest).outputs.zip decomp.outputs) :
      p.1 ∈ (g.op dest).outputs ∧ p.2 ∈ decomp.tensors :=
    have h := of_mem_zip hp
    ⟨h.1, hi.decomp_wf.ios p.2 (.inr h.2)⟩
  have hus : ∀ p ∈ (g.op dest).outputs.zip decomp.outputs,
      (h.tensor p.1).users = (g.tensor p.1).users := fun p hp => by
    have hp1 := (hzip hp).1
    rw [hc.tensor p.1 (not_mem_clones_of_lt (tensor_lt_of_mem_outputs hi hp1))
      (not_mem_inputs_of_mem_outputs hi hp1)]
  have heq : ((g.op dest).outputs.zip decomp.outputs).foldlM (rerouteOutput tensorMap) (h, sg) =
      (moves id h (resultMoves g decomp dest)).map fun g' =>
        (g', { sg with
          outputs := rerouteOutputList (clonedTensor g decomp)
            ((g.op dest).outputs.zip decomp.outputs) sg.outputs }) :=
    rerouteOutputs_eq (fun p hp => htensorMap p.2 (hzip hp).2) (results_apart hi) hus sg
  obtain ⟨h₆, he₆, hr⟩ := moves_results hi hc
  refine ⟨h₆, ?_, hr.inlined hi hc⟩
  rw [hc.op dest (op_lt hi hi.mem), heq, he₆, Option.map_some,
    rerouteOutputList_eq (results_apart hi)]
  rfl

/-- The rewrite succeeds. -/
theorem inlineInto_spec {l₁ l₂ : List OpId} (hmain : main.ops = l₁ ++ dest :: l₂) :
    ∃ h, inlineInto g main dest l₁.length decomp =
        some (h, dce h (inlinedMain g main decomp dest l₁ l₂)) ∧
      Inlined g main decomp dest h := by
  obtain ⟨g₁, main₁, opMap, g₂, tensorMap, h₃, he₁, he₂, he₃, hopMap, htensorMap, hcloned⟩ :=
    cloned_spec hi hmain
  obtain ⟨h₄, h₅, he₄, he₅, hconn⟩ := connected_spec hi hcloned hopMap htensorMap
  obtain ⟨h₆, he₆, hinl⟩ := inlined_spec hi hconn htensorMap
    { main with
      ops := l₁ ++ decomp.ops.map (clonedOp g decomp) ++ dest :: l₂
      tensors := main.tensors ++ decomp.tensors.map (clonedTensor g decomp) }
  refine ⟨_, ?_, hinl⟩
  rw [inlineInto, he₁]
  simp only [he₂, he₃, Option.bind_eq_bind, Option.bind_some, he₄, he₅, he₆]
  rfl

end

/-! ## In a model -/

/-- Every subgraph owns its objects and lists its ops in topological order. -/
structure WellFormedModel (m : LiteRtModel) : Prop where
  closed : m.ir.Closed
  wf : ∀ s ∈ m.subgraphs, (m.subgraph s).WellFormed m.ir
  alloc : ∀ s ∈ m.subgraphs, (m.subgraph s).Allocated m.ir
  topo : ∀ s ∈ m.subgraphs, m.ir.TopoOrder (m.subgraph s).ops
  inputs_nodup : ∀ s ∈ m.subgraphs, (m.subgraph s).inputs.Nodup
  inputs_undefined : ∀ s ∈ m.subgraphs, ∀ t ∈ (m.subgraph s).inputs,
    (m.ir.tensor t).definingOp = none
  ops_disjoint : ∀ s ∈ m.subgraphs, ∀ s' ∈ m.subgraphs, s ≠ s' →
    ∀ o ∈ (m.subgraph s).ops, o ∉ (m.subgraph s').ops
  tensors_disjoint : ∀ s ∈ m.subgraphs, ∀ s' ∈ m.subgraphs, s ≠ s' →
    ∀ t ∈ (m.subgraph s).tensors, t ∉ (m.subgraph s').tensors

/-- The model after inlining into the subgraph `mainId`. -/
def inlinedModel (m : LiteRtModel) (mainId : SubgraphId) (h : Ir) (main : Subgraph) :
    LiteRtModel :=
  { m with ir := h, subgraph := fun s => if s = mainId then main else m.subgraph s }

section
variable {m : LiteRtModel} {dest : OpId} {mainId source : SubgraphId}

theorem length_eq_of_verifySignature {g : Ir} {op : Op} {sg : Subgraph}
    (h : verifySignature g op sg = .ok ()) :
    op.inputs.length = sg.inputs.length ∧ op.outputs.length = sg.outputs.length := by
  by_contra hne
  rw [verifySignature, if_pos (by omega)] at h
  cases h

theorem findMainSubgraph_eq (hm : WellFormedModel m) (hmain : mainId ∈ m.subgraphs)
    (hdest : dest ∈ (m.subgraph mainId).ops) : findMainSubgraph m dest = some mainId := by
  have hother {s : SubgraphId} (hs : s ∈ m.subgraphs) (ho : dest ∈ (m.subgraph s).ops) :
      s = mainId := by
    by_contra hne
    exact hm.ops_disjoint s hs mainId hmain hne dest ho hdest
  -- once found, the subgraph is not replaced by another one
  have hkeep (l : List SubgraphId) (hl : ∀ s ∈ l, s ∈ m.subgraphs) (found : Option SubgraphId)
      (hf : found = some mainId ∨ mainId ∈ l) :
      l.foldl (fun found s => if dest ∈ (m.subgraph s).ops then some s else found) found =
        some mainId := by
    induction l generalizing found with
    | nil => simpa using hf
    | cons s l ih =>
      rw [foldl_cons]
      refine ih (fun s' h => hl s' (mem_cons_of_mem s h)) _ ?_
      by_cases ho : dest ∈ (m.subgraph s).ops
      · rw [if_pos ho, hother (hl s (by simp)) ho]
        exact .inl rfl
      · rw [if_neg ho]
        rcases hf with hf | hf
        · exact .inl hf
        · rcases mem_cons.mp hf with rfl | hf
          · exact absurd hdest ho
          · exact .inr hf
  exact hkeep m.subgraphs (fun _ h => h) none (.inr hmain)

/-- When the signatures agree, inlining a decomposition into another subgraph succeeds. -/
theorem inlineSubgraph_spec (hm : WellFormedModel m) (hmain : mainId ∈ m.subgraphs)
    (hsource : source ∈ m.subgraphs) (hne : source ≠ mainId)
    (hdest : dest ∈ (m.subgraph mainId).ops) {r : Option LiteRtModel}
    (hok : inlineSubgraph m dest source = .ok r) : ∃ l₁ l₂ h,
      (m.subgraph mainId).ops = l₁ ++ dest :: l₂ ∧
      Inlinable m.ir (m.subgraph mainId) (m.subgraph source) dest ∧
      Inlined m.ir (m.subgraph mainId) (m.subgraph source) dest h ∧
      r = some (inlinedModel m mainId h (dce h
        (inlinedMain m.ir (m.subgraph mainId) (m.subgraph source) dest l₁ l₂))) := by
  rw [inlineSubgraph] at hok
  cases hv : verifySignature m.ir (m.ir.op dest) (m.subgraph source) with
  | error e =>
    rw [hv] at hok
    cases hok
  | ok =>
    have hi : Inlinable m.ir (m.subgraph mainId) (m.subgraph source) dest := {
      closed := hm.closed
      main_wf := hm.wf mainId hmain
      main_alloc := hm.alloc mainId hmain
      topo := hm.topo mainId hmain
      mem := hdest
      decomp_wf := hm.wf source hsource
      decomp_alloc := hm.alloc source hsource
      inputs_nodup := hm.inputs_nodup source hsource
      inputs_undefined := hm.inputs_undefined source hsource
      ops_disjoint := hm.ops_disjoint mainId hmain source hsource hne.symm
      tensors_disjoint := hm.tensors_disjoint mainId hmain source hsource hne.symm
      numInputs := (length_eq_of_verifySignature hv).1
      numOutputs := (length_eq_of_verifySignature hv).2 }
    rw [hv, findMainSubgraph_eq hm hmain hdest] at hok
    obtain ⟨i, hfind⟩ : ∃ i, (m.subgraph mainId).ops.idxOf? dest = some i :=
      Option.isSome_iff_exists.mp (isSome_idxOf?.mpr hdest)
    have hops : (m.subgraph mainId).ops = (m.subgraph mainId).ops.take i ++
        dest :: (m.subgraph mainId).ops.drop (i + 1) := by
      obtain ⟨hlt, hget, -⟩ := idxOf?_eq_some_iff.mp hfind
      rw [← hget, ← drop_eq_getElem_cons hlt, take_append_drop]
    have hlen : ((m.subgraph mainId).ops.take i).length = i := by
      obtain ⟨hlt, -⟩ := idxOf?_eq_some_iff.mp hfind
      exact length_take_of_le (Nat.le_of_lt hlt)
    obtain ⟨h, he, hinl⟩ := inlineInto_spec hi hops
    rw [hlen] at he
    refine ⟨_, _, h, hops, hi, hinl, ?_⟩
    simp only [hfind, he] at hok
    cases hok
    rfl

end

end LiteRt.Plugin
