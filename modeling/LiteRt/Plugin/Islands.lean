import LiteRt.Plugin.Partition
import LiteRt.Plugin.SliceEval

/-!
# Outlining island after island

Each outlined island acts as one op at the position of its last listed op. So after a
run of outlinings the dependencies are those between different blocks, and the op
list is in order when every block ends behind the blocks it reads from.
-/

namespace LiteRt.Model

/-- Every operand is an input, a constant or a result of an earlier op. -/
def Subgraph.Executable (g : Ir) (sg : Subgraph) : Prop :=
  ∀ l₁ o l₂, sg.ops = l₁ ++ o :: l₂ → ∀ t ∈ (g.op o).inputs,
    t ∈ sg.inputs ∨ isConstant (g.tensor t) ∨ ∃ o' ∈ l₁, t ∈ (g.op o').outputs

/-- `o` reads a result of `o'` that is no constant. -/
def Ir.DataDep (g : Ir) (sg : Subgraph) (o o' : OpId) : Prop :=
  o ∈ sg.ops ∧ ∃ t ∈ (g.op o).inputs, ¬ isConstant (g.tensor t) ∧ (g.tensor t).definingOp = some o'

end LiteRt.Model

namespace LiteRt.Plugin

open LiteRt.Lib LiteRt.Model

variable {islands : List (List OpId)} {o : OpId}

theorem executable_iff {g : Ir} {sg : Subgraph} (hwf : sg.WellFormed g)
    (hin : ∀ t ∈ sg.inputs, ¬ isConstant (g.tensor t) → (g.tensor t).definingOp = none) :
    sg.Executable g ↔ Topological (g.DataDep sg) sg.ops ∧
      ∀ o ∈ sg.ops, ∀ t ∈ (g.op o).inputs, (g.tensor t).definingOp = none →
        t ∈ sg.inputs ∨ isConstant (g.tensor t) := by
  have hdef {o : OpId} (ho : o ∈ sg.ops) {t : TensorId} :
      t ∈ (g.op o).outputs ↔ (g.tensor t).definingOp = some o := (hwf.edges o ho).mem_outputs_iff
  constructor
  · intro h
    -- a non-constant operand with a definer finds it in front
    have hfront {l₁ l₂ : List OpId} {o o' : OpId} (hops : sg.ops = l₁ ++ o :: l₂)
        (hd : g.DataDep sg o o') : o' ∈ l₁ := by
      obtain ⟨-, t, ht, hc, hd⟩ := hd
      rcases h l₁ o l₂ hops t ht with hi | hc' | ⟨o'', ho'', hout⟩
      · rw [hin t hi hc] at hd
        cases hd
      · exact absurd hc' hc
      · have := (hdef (hops ▸ List.mem_append_left _ ho'')).mp hout
        rw [hd] at this
        exact Option.some.inj this ▸ ho''
    have hnd := hwf.ops_nodup
    refine ⟨⟨fun o ho hd => ?_, ?_⟩, fun o ho t ht hd => ?_⟩
    · obtain ⟨l₁, l₂, hops⟩ := List.append_of_mem ho
      have := hfront hops hd
      rw [hops] at hnd
      exact (List.nodup_append.mp hnd).2.2 o this o (by simp) rfl
    · refine List.pairwise_iff_getElem.mpr fun i j hi hj hij hd => ?_
      have hops : sg.ops = sg.ops.take i ++ sg.ops[i] :: sg.ops.drop (i + 1) := by
        rw [List.getElem_cons_drop, List.take_append_drop]
      obtain ⟨k, hk, he⟩ := List.getElem_of_mem (hfront hops hd)
      rw [List.length_take] at hk
      rw [List.getElem_take] at he
      have := (List.getElem_inj hnd).mp he
      omega
    · obtain ⟨l₁, l₂, hops⟩ := List.append_of_mem ho
      rcases h l₁ o l₂ hops t ht with hi | hc | ⟨o', ho', hout⟩
      · exact .inl hi
      · exact .inr hc
      · rw [(hdef (hops ▸ List.mem_append_left _ ho')).mp hout] at hd
        cases hd
  · rintro ⟨htopo, hground⟩ l₁ o l₂ hops t ht
    have ho : o ∈ sg.ops := by simp [hops]
    by_cases hc : isConstant (g.tensor t)
    · exact .inr (.inl hc)
    · cases hd : (g.tensor t).definingOp with
      | none => exact (hground o ho t ht hd).imp_right .inl
      | some o' =>
        have hdep : g.DataDep sg o o' := ⟨ho, t, ht, hc, hd⟩
        have ho' := hwf.definers t (hwf.operands o ho t ht) o' hd
        refine .inr (.inr ⟨o', ?_, (hdef ho').mpr hd⟩)
        rw [hops] at htopo ho'
        rcases List.mem_append.mp ho' with h' | h'
        · exact h'
        · rcases List.mem_cons.mp h' with rfl | h'
          · exact absurd hdep (htopo.irrefl o' (by simp))
          · exact absurd hdep
              ((List.pairwise_cons.mp (List.pairwise_append.mp htopo.sorted).2.1).1 o' h')

/-! ## One island -/

section
variable {g₀ g : Ir} {root₀ root : Subgraph} {P : List OpId} {m : TensorMap} {r : Outlined}
  (h : Sliceable g root P) (ho : Outlines g root P m r) {t : TensorId}

include ho

theorem Outlines.dispatchOp_mem : r.dispatchOp ∈ P := List.mem_of_getLast? ho.dispatchOp

theorem Outlines.mem_inputs : t ∈ (r.ir.op r.dispatchOp).inputs ↔
    readBy g P t ∧ ¬ definedBy g P t ∧ ¬ isConstant (g.tensor t) := by
  rw [ho.inputs, List.mem_filter, ho.keys, dispatchInput, Bool.and_eq_true, Bool.not_eq_true',
    decide_eq_false_iff_not, Bool.not_eq_true', Bool.not_eq_true]
  constructor
  · rintro ⟨hk, hd, hc⟩
    exact ⟨hk.resolve_right hd, hd, hc⟩
  · rintro ⟨hr, hd, hc⟩
    exact ⟨.inl hr, hd, hc⟩

theorem Outlines.mem_outputs : t ∈ (r.ir.op r.dispatchOp).outputs ↔
    (definedBy g P t ∧ (readOutside g root P t ∨ t ∈ root.outputs)) ∨
      (¬ definedBy g P t ∧ readBy g P t ∧ isConstant (g.tensor t) ∧ t ∈ root.outputs) := by
  rw [ho.outputs, List.mem_filter, ho.keys, dispatchOutput]
  by_cases hd : definedBy g P t
  · simp [hd]
  · simp only [hd, or_false, ↓reduceIte, Bool.and_eq_true, decide_eq_true_eq, false_and,
      not_false_eq_true, true_and, false_or]

end

/-- The ops in blocks: an island stands under its last listed op. -/
def blockEnd (islands : List (List OpId)) (o : OpId) : OpId :=
  match islands.find? fun island => o ∈ island with
  | some island => (island.getLast?).getD o
  | none => o

/-- The islands to outline. -/
structure Islands (root : Subgraph) (islands : List (List OpId)) : Prop where
  nodup : ∀ I ∈ islands, I.Nodup
  ne_nil : ∀ I ∈ islands, I ≠ []
  subset : ∀ I ∈ islands, ∀ o ∈ I, o ∈ root.ops
  disjoint : islands.Pairwise fun I J => ∀ o ∈ I, o ∉ J

/-- The graph once the islands in `done` are outlined. -/
structure Stage (g₀ : Ir) (root₀ : Subgraph) (done : List (List OpId)) (g : Ir)
    (root : Subgraph) : Prop where
  closed : g.Closed
  wf : root.WellFormed g
  alloc : root.Allocated g
  inputs : root.inputs = root₀.inputs
  outputs : root.outputs = root₀.outputs
  nextTensor : g₀.alloc.nextTensor ≤ g.alloc.nextTensor
  nextOp : g₀.alloc.nextOp ≤ g.alloc.nextOp
  inputs_undefined : ∀ t ∈ root.inputs, ¬ isConstant (g.tensor t) → (g.tensor t).definingOp = none
  ops : ∃ p, root.ops = root₀.ops.filter p
  tensors : ∀ t ∈ root.tensors, t ∈ root₀.tensors
  all : done = [] → root.ops = root₀.ops
  dead : ∀ o ∈ root₀.ops, o ∉ root.ops → isOpDead (g.op o)
  live : done ≠ [] → ∀ o ∈ root.ops, ¬ isOpDead (g.op o)
  data : ∀ t < g₀.alloc.nextTensor, (g₀.tensor t).SameData (g.tensor t)
  op : ∀ o ∈ root₀.ops, (∀ I ∈ done, o ∉ I) → g.op o = g₀.op o
  grounded : ∀ o ∈ root₀.ops, ∀ t ∈ (g.op o).inputs, (g.tensor t).definingOp = none →
    t ∈ root₀.inputs ∨ isConstant (g.tensor t)
  dep : ∀ o o', g.DataDep root₀ o o' ↔ Collapse (g₀.DataDep root₀) (blockEnd done) o o'
  constants : ∀ t ∈ root₀.outputs, isConstant (g₀.tensor t) →
    ((g.tensor t).definingOp ≠ none ↔ ∃ I ∈ done, readBy g₀ I t)

section
variable {g₀ g : Ir} {root₀ root : Subgraph} {done : List (List OpId)} {o : OpId} {t : TensorId}

/-- Nothing is outlined yet. -/
theorem Stage.init (h : WellFormedRoot g₀ root₀) (hex : root₀.Executable g₀) :
    Stage g₀ root₀ [] g₀ root₀ := by
  obtain ⟨htopo, hground⟩ :=
    (executable_iff h.wf fun t ht _ => h.inputs_undefined t ht).mp hex
  constructor
  case closed => exact h.closed
  case wf => exact h.wf
  case alloc => exact h.alloc
  case inputs => rfl
  case outputs => rfl
  case nextTensor => exact Nat.le_refl _
  case nextOp => exact Nat.le_refl _
  case inputs_undefined => exact fun t ht _ => h.inputs_undefined t ht
  case ops => exact ⟨fun _ => true, (List.filter_true _).symm⟩
  case tensors => exact fun _ => id
  case all => exact fun _ => rfl
  case dead => exact fun o ho hn => absurd ho hn
  case live => exact fun hne => absurd rfl hne
  case data => exact fun _ _ => ⟨rfl, rfl, rfl⟩
  case op => exact fun _ _ _ => rfl
  case grounded => exact hground
  case dep =>
    intro o o'
    refine (collapse_id (fun a hd => htopo.irrefl a hd.1 hd) o o').symm
  case constants =>
    intro t ht hc
    simp [h.constants_undefined t (h.wf.ios t (.inr ht)) hc]

variable (h : Stage g₀ root₀ done g root)

include h

theorem Stage.ops_subset (ho : o ∈ root.ops) : o ∈ root₀.ops := by
  obtain ⟨p, hp⟩ := h.ops
  rw [hp] at ho
  exact List.mem_of_mem_filter ho

theorem Stage.mem_ops (ho : o ∈ root₀.ops) (ht : t ∈ (g.op o).inputs) : o ∈ root.ops := by
  by_contra hn
  rw [(isOpDead_iff.mp (h.dead o ho hn)).1] at ht
  cases ht

theorem Stage.isConstant_eq (hr : WellFormedRoot g₀ root₀) (ht : t ∈ root₀.tensors) :
    isConstant (g.tensor t) = isConstant (g₀.tensor t) :=
  isConstant_of_sameData (h.data t (hr.alloc.tensor t ht))

theorem Stage.irrefl (o : OpId) : ¬ g.DataDep root₀ o o :=
  fun hd => ((h.dep o o).mp hd).1 rfl

end

theorem blockEnd_append {done : List (List OpId)} {P : List OpId} {d : OpId}
    (hdone : ∀ I ∈ done, I ≠ [] ∧ ∀ o ∈ I, o ∉ P) (hd : P.getLast? = some d) (o : OpId) :
    blockEnd (done ++ [P]) o = ((fun o => if o ∈ P then d else o) ∘ blockEnd done) o := by
  simp only [blockEnd, List.find?_append, Function.comp_apply]
  obtain hf | ⟨I, hf⟩ :=
    Option.eq_none_or_eq_some (done.find? fun island => decide (o ∈ island))
  · by_cases ho : o ∈ P
    · simp only [hf, Option.none_or, List.find?_cons, ho, decide_true, hd, Option.getD_some,
        ↓reduceIte]
    · simp only [hf, Option.none_or, List.find?_cons, ho, decide_false, List.find?_nil, ↓reduceIte]
  · obtain ⟨hne, hdisj⟩ := hdone I (List.mem_of_find?_eq_some hf)
    have hl := List.getLast?_eq_some_getLast hne
    have hn : I.getLast hne ∉ P := hdisj _ (List.getLast_mem hne)
    simp only [hf, Option.some_or, hl, Option.getD_some, hn, ↓reduceIte]

section
variable {g₀ g : Ir} {root₀ root : Subgraph} {done : List (List OpId)} {P : List OpId}
  {m : TensorMap} {r : Outlined} (hr : WellFormedRoot g₀ root₀)
  (h : Stage g₀ root₀ done g root) (hnd : P.Nodup) (hne : P ≠ [])
  (hsub₀ : ∀ o ∈ P, o ∈ root₀.ops) (hdisj : ∀ I ∈ done, I ≠ [] ∧ ∀ o ∈ I, o ∉ P) {t : TensorId}
  {o : OpId}

include h hsub₀ hdisj

theorem Stage.op_island (ho : o ∈ P) : g.op o = g₀.op o :=
  h.op o (hsub₀ o ho) fun I hI hm => (hdisj I hI).2 o hm ho

theorem Stage.readBy_iff (t : TensorId) : readBy g P t ↔ readBy g₀ P t := by
  refine exists_congr fun o => and_congr_right fun ho => ?_
  rw [h.op_island hsub₀ hdisj ho]

include hr

theorem Stage.not_isConstant_of_definedBy (ht : definedBy g P t) :
    ¬ isConstant (g.tensor t) := by
  obtain ⟨o, ho, ht⟩ := ht
  rw [h.op_island hsub₀ hdisj ho] at ht
  have hten := hr.wf.results o (hsub₀ o ho) t ht
  have hd := (hr.wf.edges o (hsub₀ o ho)).mem_outputs_iff.mp ht
  rw [h.isConstant_eq hr hten]
  intro hc
  rw [hr.constants_undefined t hten hc] at hd
  cases hd

include hnd hne

theorem Stage.sliceable (hsub : ∀ o ∈ P, o ∈ root.ops) : Sliceable g root P where
  closed := h.closed
  wf := h.wf
  alloc := h.alloc
  nodup := hnd
  subset := hsub
  ne_nil := hne
  results _ := h.not_isConstant_of_definedBy hr hsub₀ hdisj

variable (hsub : ∀ o ∈ P, o ∈ root.ops) (ho : Outlines g root P m r)

include hsub ho

omit hnd hne hsub₀ hdisj hsub in
theorem Stage.op_outside (hmem : o ∈ root₀.ops) (hP : o ∉ P) : r.ir.op o = g.op o :=
  ho.op o (Nat.lt_of_lt_of_le (hr.alloc.op o hmem) h.nextOp) hP

theorem Stage.definer_iff (ht : t < g.alloc.nextTensor) (hc : ¬ isConstant (g.tensor t))
    (o : OpId) :
    (r.ir.tensor t).definingOp = some o ↔
      if definedBy g P t then o = r.dispatchOp ∧ (readOutside g root P t ∨ t ∈ root.outputs)
      else (g.tensor t).definingOp = some o := by
  have hsl := h.sliceable hr hnd hne hsub₀ hdisj hsub
  rw [ho.definer t ht]
  simp only [ho.mem_outputs]
  by_cases hd : definedBy g P t
  · obtain ⟨o', ho', hdef⟩ := hsl.definedBy_iff.mp hd
    simp only [hd, true_and, not_true_eq_false, false_and, or_false, ↓reduceIte, hdef]
    split
    · next hx => exact ⟨fun he => ⟨he, hx⟩, fun he => he.1⟩
    · next hx =>
      refine ⟨fun hx' => ?_, fun hx' => absurd hx'.2 hx⟩
      exact absurd (Option.some.inj hx'.1 ▸ ho') hx'.2
  · simp only [hd, false_and, hc, and_false, or_false, Bool.false_eq_true, ↓reduceIte,
      and_iff_left_iff_imp]
    exact fun hdef hP => hd (hsl.definedBy_iff.mpr ⟨o, hP, hdef⟩)

/-- After the outlining, the island acts as one op. -/
theorem Stage.dep_outlined (o o' : OpId) : r.ir.DataDep root₀ o o' ↔
    Collapse (g.DataDep root₀) (fun o => if o ∈ P then r.dispatchOp else o) o o' := by
  have hsl := h.sliceable hr hnd hne hsub₀ hdisj hsub
  have hdP := ho.dispatchOp_mem
  have hlt {t : TensorId} (ht : t ∈ root.tensors) : t < g.alloc.nextTensor := h.alloc.tensor t ht
  have hconst {t : TensorId} (ht : t ∈ root.tensors) :
      isConstant (r.ir.tensor t) = isConstant (g.tensor t) :=
    isConstant_of_sameData (ho.old_data t (hlt ht))
  have hread {t : TensorId} (ht : readBy g P t) : t ∈ root.tensors := by
    obtain ⟨p, hp, ht⟩ := ht
    exact h.wf.operands p (hsub p hp) t ht
  have hdefiner := fun {t : TensorId} (ht : t ∈ root.tensors) (hc : ¬ isConstant (g.tensor t)) =>
    h.definer_iff hr hnd hne hsub₀ hdisj hsub ho (hlt ht) hc
  constructor
  · rintro ⟨hmem, t, ht, hc, hd⟩
    by_cases hod : o = r.dispatchOp
    · subst hod
      obtain ⟨⟨p, hp, htp⟩, hndef, hc'⟩ := ho.mem_inputs.mp ht
      have hten := hread ⟨p, hp, htp⟩
      rw [hdefiner hten hc', if_neg hndef] at hd
      have hoP : o' ∉ P := fun hP => hndef (hsl.definedBy_iff.mpr ⟨o', hP, hd⟩)
      exact ⟨fun he => hoP (he ▸ hdP), p, o', if_pos hp, if_neg hoP, hsub₀ p hp, t, htp, hc', hd⟩
    · have hP : o ∉ P := fun hP => by
        rw [(isOpDead_iff.mp (ho.op_dropped o hP hod)).1] at ht
        cases ht
      rw [h.op_outside hr ho hmem hP] at ht
      have hten := h.wf.operands o (h.mem_ops hmem ht) t ht
      rw [hconst hten] at hc
      rw [hdefiner hten hc] at hd
      split at hd
      · next hdef =>
        obtain ⟨p, hp, hdp⟩ := hsl.definedBy_iff.mp hdef
        exact ⟨hd.1 ▸ hod, o, p, if_neg hP, (if_pos hp).trans hd.1.symm, hmem, t, ht, hc, hdp⟩
      · next hdef =>
        have hoP : o' ∉ P := fun hP => hdef (hsl.definedBy_iff.mpr ⟨o', hP, hd⟩)
        refine ⟨?_, o, o', if_neg hP, if_neg hoP, hmem, t, ht, hc, hd⟩
        rintro rfl
        exact h.irrefl o ⟨hmem, t, ht, hc, hd⟩
  · rintro ⟨hne', x, y, rfl, rfl, hmem, t, ht, hc, hd⟩
    have hten := h.wf.operands x (h.mem_ops hmem ht) t ht
    by_cases hx : x ∈ P
    · simp only [hx, ↓reduceIte] at hne' ⊢
      have hy : y ∉ P := fun hy => hne' (if_pos hy).symm
      have hndef : ¬ definedBy g P t := fun hdef => by
        obtain ⟨p, hp, hdp⟩ := hsl.definedBy_iff.mp hdef
        rw [hd] at hdp
        exact hy (Option.some.inj hdp ▸ hp)
      refine ⟨hsub₀ _ hdP, t, ho.mem_inputs.mpr ⟨⟨x, hx, ht⟩, hndef, hc⟩, hconst hten ▸ hc, ?_⟩
      rw [hdefiner hten hc, if_neg hndef, if_neg hy]
      exact hd
    · simp only [hx, ↓reduceIte] at hne' ⊢
      refine ⟨hmem, t, ?_, hconst hten ▸ hc, ?_⟩
      · rw [h.op_outside hr ho hmem hx]
        exact ht
      · rw [hdefiner hten hc]
        by_cases hy : y ∈ P
        · rw [if_pos (hsl.definedBy_iff.mpr ⟨y, hy, hd⟩), if_pos hy]
          exact ⟨rfl, .inl ⟨x, h.mem_ops hmem ht, hx, ht⟩⟩
        · have hndef : ¬ definedBy g P t := fun hdef => by
            obtain ⟨p, hp, hdp⟩ := hsl.definedBy_iff.mp hdef
            rw [hd] at hdp
            exact hy (Option.some.inj hdp ▸ hp)
          rw [if_neg hndef, if_neg hy]
          exact hd

theorem Stage.grounded_outlined (hmem : o ∈ root₀.ops) (ht : t ∈ (r.ir.op o).inputs)
    (hd : (r.ir.tensor t).definingOp = none) :
    t ∈ root₀.inputs ∨ isConstant (r.ir.tensor t) := by
  have hsl := h.sliceable hr hnd hne hsub₀ hdisj hsub
  have hnone := Option.eq_none_iff_forall_ne_some.mp hd
  -- nobody in the partition defines `t`, so nothing has changed about it
  have hkeep {x : OpId} (hx : x ∈ root₀.ops) (htx : t ∈ (g.op x).inputs)
      (hndef : ¬ isConstant (g.tensor t) → ¬ definedBy g P t) :
      t ∈ root₀.inputs ∨ isConstant (r.ir.tensor t) := by
    have hlt := h.alloc.tensor t (h.wf.operands x (h.mem_ops hx htx) t htx)
    rw [isConstant_of_sameData (ho.old_data t hlt)]
    by_cases hc : isConstant (g.tensor t)
    · exact .inr hc
    · refine h.grounded x hx t htx (Option.eq_none_iff_forall_ne_some.mpr fun y hy => ?_)
      refine hnone y ((h.definer_iff hr hnd hne hsub₀ hdisj hsub ho hlt hc y).mpr ?_)
      rw [if_neg (hndef hc)]
      exact hy
  by_cases hod : o = r.dispatchOp
  · subst hod
    obtain ⟨⟨p, hp, htp⟩, hndef, -⟩ := ho.mem_inputs.mp ht
    exact hkeep (hsub₀ p hp) htp fun _ => hndef
  · have hP : o ∉ P := fun hP => by
      rw [(isOpDead_iff.mp (ho.op_dropped o hP hod)).1] at ht
      cases ht
    rw [h.op_outside hr ho hmem hP] at ht
    refine hkeep hmem ht fun hc hdef => hnone r.dispatchOp ?_
    have hlt := h.alloc.tensor t (h.wf.operands o (h.mem_ops hmem ht) t ht)
    rw [h.definer_iff hr hnd hne hsub₀ hdisj hsub ho hlt hc, if_pos hdef]
    exact ⟨rfl, .inl ⟨o, h.mem_ops hmem ht, hP, ht⟩⟩

theorem Stage.constants_outlined (ht : t ∈ root₀.outputs) (hc : isConstant (g₀.tensor t)) :
    (r.ir.tensor t).definingOp ≠ none ↔ ∃ I ∈ done ++ [P], readBy g₀ I t := by
  have hsl := h.sliceable hr hnd hne hsub₀ hdisj hsub
  have hc' : isConstant (g.tensor t) := by
    rw [h.isConstant_eq hr (hr.wf.ios t (.inr ht))]
    exact hc
  have hout : t ∈ root.outputs := h.outputs ▸ ht
  have hlt := h.alloc.tensor t (h.wf.ios t (.inr hout))
  have hndef : ¬ definedBy g P t := fun hdef => hsl.results t hdef hc'
  have hmem : t ∈ (r.ir.op r.dispatchOp).outputs ↔ readBy g₀ P t := by
    rw [ho.mem_outputs, ← h.readBy_iff hsub₀ hdisj]
    simp only [hndef, false_and, not_false_eq_true, hc', hout, and_self, and_true, true_and,
      false_or]
  simp only [List.mem_append, List.mem_singleton, or_and_right, exists_or, exists_eq_left,
    ← h.constants t ht hc, ← hmem, Option.ne_none_iff_exists', ho.definer t hlt]
  constructor
  · rintro ⟨o, hd⟩
    split at hd
    · next hm => exact .inr hm
    · exact .inl ⟨o, hd.1⟩
  · rintro (⟨o, hd⟩ | hm)
    · by_cases hm : t ∈ (r.ir.op r.dispatchOp).outputs
      · exact ⟨r.dispatchOp, by rw [if_pos hm]⟩
      · refine ⟨o, ?_⟩
        rw [if_neg hm]
        exact ⟨hd, fun hP => hndef (hsl.definedBy_iff.mpr ⟨o, hP, hd⟩)⟩
    · exact ⟨r.dispatchOp, by rw [if_pos hm]⟩

/-- One more island. -/
theorem Stage.outline : Stage g₀ root₀ (done ++ [P]) r.ir r.root := by
  have hsl := h.sliceable hr hnd hne hsub₀ hdisj hsub
  have hmemops (o : OpId) : o ∈ r.root.ops ↔ o ∈ root.ops ∧ ¬ isOpDead (r.ir.op o) := by
    rw [ho.root_eq, mem_ops_dce]
  have hnil : done ++ [P] ≠ [] := by simp
  have hten {t : TensorId} (ht : t ∈ r.root.tensors) : t ∈ root.tensors := by
    rw [ho.root_eq, mem_tensors_dce] at ht
    exact ht.1
  have hin : r.root.inputs = root.inputs := by rw [ho.root_eq, inputs_dce]
  have hout : r.root.outputs = root.outputs := by rw [ho.root_eq, outputs_dce]
  constructor
  case closed => exact ho.closed
  case wf =>
    rw [ho.root_eq]
    exact ho.wf.dce
  case alloc =>
    exact ⟨fun o hm => Nat.lt_of_lt_of_le (h.alloc.op o ((hmemops o).mp hm).1) ho.nextOp,
      fun t ht => Nat.lt_of_lt_of_le (h.alloc.tensor t (hten ht)) ho.nextTensor⟩
  case inputs => rw [hin, h.inputs]
  case outputs => rw [hout, h.outputs]
  case nextTensor => exact Nat.le_trans h.nextTensor ho.nextTensor
  case nextOp => exact Nat.le_trans h.nextOp ho.nextOp
  case inputs_undefined =>
    intro t ht hc
    rw [hin] at ht
    have hlt := h.alloc.tensor t (h.wf.ios t (.inl ht))
    rw [isConstant_of_sameData (ho.old_data t hlt)] at hc
    have hund := h.inputs_undefined t ht hc
    refine Option.eq_none_iff_forall_ne_some.mpr fun o hd => ?_
    rw [h.definer_iff hr hnd hne hsub₀ hdisj hsub ho hlt hc, if_neg, hund] at hd
    · cases hd
    · intro hdef
      obtain ⟨p, -, hp⟩ := hsl.definedBy_iff.mp hdef
      rw [hund] at hp
      cases hp
  case ops =>
    obtain ⟨p, hp⟩ := h.ops
    refine ⟨fun o => !isOpDead (r.ir.op o) && p o, ?_⟩
    rw [ho.root_eq, dce, hp, List.filter_filter]
  case tensors => exact fun t ht => h.tensors t (hten ht)
  case all => exact fun he => absurd he hnil
  case dead =>
    intro o hmem hn
    rw [hmemops, not_and, not_not] at hn
    by_cases hm : o ∈ root.ops
    · exact hn hm
    · rw [h.op_outside hr ho hmem fun hP => hm (hsub o hP)]
      exact h.dead o hmem hm
  case live => exact fun _ o hm => ((hmemops o).mp hm).2
  case data =>
    exact fun t ht => (h.data t ht).trans (ho.old_data t (Nat.lt_of_lt_of_le ht h.nextTensor))
  case op =>
    intro o hmem hn
    rw [h.op_outside hr ho hmem (hn P (by simp))]
    exact h.op o hmem fun I hI => hn I (List.mem_append_left _ hI)
  case grounded =>
    exact fun o hmem t ht hd => h.grounded_outlined hr hnd hne hsub₀ hdisj hsub ho hmem ht hd
  case dep =>
    intro o o'
    rw [h.dep_outlined hr hnd hne hsub₀ hdisj hsub ho]
    have hdep : g.DataDep root₀ = Collapse (g₀.DataDep root₀) (blockEnd done) :=
      funext fun a => funext fun b => propext (h.dep a b)
    have hend : ((fun o => if o ∈ P then r.dispatchOp else o) ∘ blockEnd done) =
        blockEnd (done ++ [P]) :=
      funext fun a => (blockEnd_append hdisj ho.dispatchOp a).symm
    rw [hdep, collapse_collapse, hend]
  case constants =>
    exact fun t ht hc => h.constants_outlined hr hnd hne hsub₀ hdisj hsub ho ht hc

end

/-! ## All islands -/

/-- When the island `P` can be outlined after those in `done`: `DCE` has left its ops
alone, and no constant output of the root becomes a result a second time. -/
structure CanOutline (g : Ir) (root : Subgraph) (done : List (List OpId)) (P : List OpId) :
    Prop where
  live : done ≠ [] → ∀ o ∈ P, ¬ isOpDead (g.op o)
  constants : ∀ t ∈ root.outputs, isConstant (g.tensor t) → readBy g P t →
    ∀ I ∈ done, ¬ readBy g I t

section
variable {g₀ g : Ir} {root₀ root : Subgraph} {done : List (List OpId)} {P : List OpId}
  (hr : WellFormedRoot g₀ root₀) (h : Stage g₀ root₀ done g root) (hnd : P.Nodup) (hne : P ≠ [])
  (hsub₀ : ∀ o ∈ P, o ∈ root₀.ops) (hdisj : ∀ I ∈ done, I ≠ [] ∧ ∀ o ∈ I, o ∉ P)

include h hsub₀ hdisj

/-- The ops of an island are still there unless `DCE` has removed them. -/
theorem Stage.subset_iff : (∀ o ∈ P, o ∈ root.ops) ↔
    (done ≠ [] → ∀ o ∈ P, ¬ isOpDead (g₀.op o)) := by
  constructor
  · intro hsub hdone o ho
    rw [← h.op_island hsub₀ hdisj ho]
    exact h.live hdone o (hsub o ho)
  · intro hlive o ho
    by_cases hdone : done = []
    · rw [h.all hdone]
      exact hsub₀ o ho
    · by_contra hn
      refine hlive hdone o ho ?_
      rw [← h.op_island hsub₀ hdisj ho]
      exact h.dead o (hsub₀ o ho) hn

include hr hnd hne

/-- One round of the loop over the islands. -/
theorem Stage.outlineIsland_spec (mgr : Option ManagerId) (res : List OpId) :
    (CanOutline g₀ root₀ done P → ∃ s, outlineIsland mgr (g, root, res) P = some s ∧
      Stage g₀ root₀ (done ++ [P]) s.1 s.2.1) ∧
    (¬ CanOutline g₀ root₀ done P → outlineIsland mgr (g, root, res) P = none) := by
  have hsubset := h.subset_iff hsub₀ hdisj
  by_cases hsub : ∀ o ∈ P, o ∈ root.ops
  · have hsl := h.sliceable hr hnd hne hsub₀ hdisj hsub
    obtain ⟨g', s, hclone, hs⟩ := hsl.cloned { bufferManager := mgr }
    have hfree : (∀ t ∈ root.outputs, isConstant (g.tensor t) → readBy g P t →
        (g.tensor t).definingOp = none) ↔ CanOutline g₀ root₀ done P := by
      constructor
      · intro hfree
        refine ⟨hsubset.mp hsub, fun t ht hc hread I hI hread' => ?_⟩
        have := hfree t (h.outputs ▸ ht)
          (by rw [h.isConstant_eq hr (hr.wf.ios t (.inr ht))]; exact hc)
          ((h.readBy_iff hsub₀ hdisj t).mpr hread)
        exact (h.constants t ht hc).mpr ⟨I, hI, hread'⟩ this
      · intro hcan t ht hc hread
        rw [h.outputs] at ht
        rw [h.isConstant_eq hr (hr.wf.ios t (.inr ht))] at hc
        by_contra hd
        obtain ⟨I, hI, hread'⟩ := (h.constants t ht hc).mp hd
        exact hcan.constants t ht hc ((h.readBy_iff hsub₀ hdisj t).mp hread) I hI hread'
    constructor
    · intro hcan
      obtain ⟨r, hr', ho, -⟩ := outlinePartition_spec hsl hclone hs (hfree.mpr hcan)
      refine ⟨_, by simp only [outlineIsland, if_pos hsub, hr', Option.map_some]; rfl, ?_⟩
      exact h.outline hr hnd hne hsub₀ hdisj hsub ho
    · intro hcan
      have hbad : ∃ t ∈ root.outputs, isConstant (g.tensor t) ∧ readBy g P t ∧
          (g.tensor t).definingOp ≠ none := by
        by_contra hn
        refine hcan (hfree.mp fun t ht hc hread => ?_)
        by_contra hd
        exact hn ⟨t, ht, hc, hread, hd⟩
      obtain ⟨t, ht, hc, hread, hd⟩ := hbad
      simp only [outlineIsland, if_pos hsub,
        outlinePartition_eq_none hsl hclone hs ht hc hread hd, Option.map_none]
  · have hcan : ¬ CanOutline g₀ root₀ done P := fun hcan => hsub (hsubset.mpr hcan.live)
    exact ⟨fun hc => absurd hc hcan, fun _ => if_neg hsub⟩

end

section
variable {g₀ : Ir} {root₀ : Subgraph} (hr : WellFormedRoot g₀ root₀)

include hr

/-- The run over the islands, from the stage after `done`. -/
theorem Stage.outlineIslands_spec {islands done : List (List OpId)} {g : Ir} {root : Subgraph}
    (h : Stage g₀ root₀ done g root) (hislands : Islands root₀ (done ++ islands))
    (mgr : Option ManagerId) (res : List OpId) :
    ((∀ l₁ P l₂, islands = l₁ ++ P :: l₂ → CanOutline g₀ root₀ (done ++ l₁) P) →
      ∃ s, islands.foldlM (outlineIsland mgr) (g, root, res) = some s ∧
        Stage g₀ root₀ (done ++ islands) s.1 s.2.1) ∧
    (¬ (∀ l₁ P l₂, islands = l₁ ++ P :: l₂ → CanOutline g₀ root₀ (done ++ l₁) P) →
      islands.foldlM (outlineIsland mgr) (g, root, res) = none) := by
  induction islands generalizing done g root res with
  | nil =>
    refine ⟨fun _ => ⟨(g, root, res), rfl, by rwa [List.append_nil]⟩, fun hn => ?_⟩
    exact absurd (fun l₁ P l₂ he => by simp at he) hn
  | cons P islands ih =>
    have hP : P ∈ done ++ P :: islands := by simp
    have hdisj (I : List OpId) (hI : I ∈ done) : I ≠ [] ∧ ∀ o ∈ I, o ∉ P :=
      ⟨hislands.ne_nil I (List.mem_append_left _ hI),
        (List.pairwise_append.mp hislands.disjoint).2.2 I hI P (by simp)⟩
    obtain ⟨hcan, hcannot⟩ := h.outlineIsland_spec hr (hislands.nodup P hP)
      (hislands.ne_nil P hP) (hislands.subset P hP) hdisj mgr res
    rw [List.append_cons] at hislands
    rw [List.foldlM_cons]
    have hsplit : (∀ l₁ Q l₂, P :: islands = l₁ ++ Q :: l₂ → CanOutline g₀ root₀ (done ++ l₁) Q) ↔
        CanOutline g₀ root₀ done P ∧
          ∀ l₁ Q l₂, islands = l₁ ++ Q :: l₂ → CanOutline g₀ root₀ (done ++ [P] ++ l₁) Q := by
      constructor
      · intro hall
        refine ⟨by simpa using hall [] P islands rfl, fun l₁ Q l₂ he => ?_⟩
        have := hall (P :: l₁) Q l₂ (by rw [he]; rfl)
        rwa [List.append_cons] at this
      · rintro ⟨hfirst, hrest⟩ l₁ Q l₂ he
        cases l₁ with
        | nil =>
          cases he
          rwa [List.append_nil]
        | cons R l₁ =>
          cases he
          rw [List.append_cons]
          exact hrest l₁ Q l₂ rfl
    rw [hsplit]
    constructor
    · rintro ⟨hfirst, hrest⟩
      obtain ⟨⟨g₁, root₁, res₁⟩, hs₁, hst₁⟩ := hcan hfirst
      obtain ⟨s, hs, hst⟩ := (ih hst₁ hislands res₁).1 hrest
      exact ⟨s, by rw [hs₁]; exact hs, by rwa [List.append_cons]⟩
    · intro hn
      by_cases hfirst : CanOutline g₀ root₀ done P
      · obtain ⟨⟨g₁, root₁, res₁⟩, hs₁, hst₁⟩ := hcan hfirst
        rw [hs₁]
        exact (ih hst₁ hislands res₁).2 fun hrest => hn ⟨hfirst, hrest⟩
      · rw [hcannot hfirst]
        rfl

end

/-! ## The order at the end -/

theorem eq_of_mem_islands (hdisj : islands.Pairwise fun I J => ∀ o ∈ I, o ∉ J) {I J : List OpId}
    (hI : I ∈ islands) (hJ : J ∈ islands) (hoI : o ∈ I) (hoJ : o ∈ J) : I = J := by
  have : Std.Symm fun I J : List OpId => ∀ o ∈ I, o ∉ J := ⟨fun I J h o hJ hI => h o hI hJ⟩
  by_contra hne
  exact hdisj.forall hI hJ hne o hoI hoJ

theorem blockEnd_of_mem (hdisj : islands.Pairwise fun I J => ∀ o ∈ I, o ∉ J) {I : List OpId}
    (hI : I ∈ islands) (hne : I ≠ []) (ho : o ∈ I) : blockEnd islands o = I.getLast hne := by
  obtain ⟨J, hJ⟩ : ∃ J, islands.find? (fun island => decide (o ∈ island)) = some J :=
    Option.isSome_iff_exists.mp (List.find?_isSome.mpr ⟨I, hI, decide_eq_true ho⟩)
  have hoJ : o ∈ J := by simpa using List.find?_some hJ
  obtain rfl := eq_of_mem_islands hdisj (List.mem_of_find?_eq_some hJ) hI hoJ ho
  simp only [blockEnd, hJ, List.getLast?_eq_some_getLast hne, Option.getD_some]

theorem blockEnd_of_forall_not_mem (h : ∀ I ∈ islands, o ∉ I) : blockEnd islands o = o := by
  have hf : islands.find? (fun island => decide (o ∈ island)) = none :=
    List.find?_eq_none.mpr fun I hI => by simpa using h I hI
  simp only [blockEnd, hf]

theorem Islands.blockEnd_mem {root : Subgraph} (h : Islands root islands) (ho : o ∈ root.ops) :
    blockEnd islands o ∈ root.ops := by
  by_cases hI : ∃ I ∈ islands, o ∈ I
  · obtain ⟨I, hI, hoI⟩ := hI
    rw [blockEnd_of_mem h.disjoint hI (h.ne_nil I hI) hoI]
    exact h.subset I hI _ (List.getLast_mem _)
  · rw [blockEnd_of_forall_not_mem fun I hI' hoI => hI ⟨I, hI', hoI⟩]
    exact ho

section
variable {g₀ g : Ir} {root₀ root : Subgraph} {islands : List (List OpId)}
  (hr : WellFormedRoot g₀ root₀)

include hr

/-- The definers of operands are no constants' definers. -/
theorem WellFormedRoot.dataDep_iff {o o' : OpId} (ho : o ∈ root₀.ops) :
    g₀.DataDep root₀ o o' ↔ g₀.DependsOn o o' := by
  constructor
  · rintro ⟨-, t, ht, -, hd⟩
    exact ⟨t, ht, hd⟩
  · rintro ⟨t, ht, hd⟩
    refine ⟨ho, t, ht, fun hc => ?_, hd⟩
    rw [hr.constants_undefined t (hr.wf.operands o ho t ht) hc] at hd
    cases hd

/-- The root is in order when each block ends behind the blocks it reads from. -/
theorem Stage.executable_iff (h : Stage g₀ root₀ islands g root)
    (hislands : Islands root₀ islands) : root.Executable g ↔
      ∀ a ∈ root₀.ops, ∀ b, g₀.DependsOn a b → blockEnd islands a ≠ blockEnd islands b →
        root₀.ops.idxOf (blockEnd islands b) < root₀.ops.idxOf (blockEnd islands a) := by
  obtain ⟨p, hp⟩ := h.ops
  have hdep {o o' : OpId} (hd : g.DataDep root₀ o o') : o ∈ root.ops ∧ o' ∈ root.ops := by
    obtain ⟨hmem, t, ht, -, hd⟩ := hd
    have ho := h.mem_ops hmem ht
    exact ⟨ho, h.wf.definers t (h.wf.operands o ho t ht) o' hd⟩
  have htopo : Topological (g.DataDep root) root.ops ↔ Topological (g.DataDep root₀) root₀.ops := by
    have hsame : Topological (g.DataDep root) root.ops ↔ Topological (g.DataDep root₀) root.ops :=
      ⟨fun ht => ht.mono fun a ha _ _ hd => ⟨ha, hd.2⟩,
        fun ht => ht.mono fun a _ _ _ hd => ⟨h.ops_subset hd.1, hd.2⟩⟩
    rw [hsame, hp]
    refine Topological.filter_iff fun a _ b _ hd => ?_
    have := hdep hd
    rw [hp, List.mem_filter, List.mem_filter] at this
    exact ⟨this.1.2, this.2.2⟩
  have hground : ∀ o ∈ root.ops, ∀ t ∈ (g.op o).inputs, (g.tensor t).definingOp = none →
      t ∈ root.inputs ∨ isConstant (g.tensor t) := fun o ho t ht hd =>
    h.inputs ▸ h.grounded o (h.ops_subset ho) t ht hd
  rw [LiteRt.Plugin.executable_iff h.wf h.inputs_undefined, and_iff_left hground, htopo,
    Topological.iff_idxOf hr.wf.ops_nodup]
  constructor
  · intro hall a ha b hd hne
    have hb := hr.wf.definers
    obtain ⟨t, ht, hdef⟩ := hd
    have hbm := hr.wf.definers t (hr.wf.operands a ha t ht) b hdef
    refine hall _ (hislands.blockEnd_mem ha) _ (hislands.blockEnd_mem hbm) ((h.dep _ _).mpr ?_)
    exact ⟨hne, a, b, rfl, rfl, (hr.dataDep_iff ha).mpr ⟨t, ht, hdef⟩⟩
  · intro hall a _ b _ hd
    obtain ⟨hne, x, y, rfl, rfl, hxy⟩ := (h.dep a b).mp hd
    exact hall x hxy.1 y ((hr.dataDep_iff hxy.1).mp hxy) hne

/-- Outlining all islands goes through and keeps the root in order, or not. -/
theorem outlineIslands_executable_iff (hex : root₀.Executable g₀)
    (hislands : Islands root₀ islands) (mgr : Option ManagerId) :
    (∃ s, outlineIslands mgr g₀ root₀ islands = some s ∧ s.2.1.Executable s.1) ↔
      (∀ I ∈ islands.tail, ∀ o ∈ I, ¬ isOpDead (g₀.op o)) ∧
      (islands.Pairwise fun I J => ∀ t ∈ root₀.outputs, isConstant (g₀.tensor t) →
        readBy g₀ I t → ¬ readBy g₀ J t) ∧
      ∀ a ∈ root₀.ops, ∀ b, g₀.DependsOn a b → blockEnd islands a ≠ blockEnd islands b →
        root₀.ops.idxOf (blockEnd islands b) < root₀.ops.idxOf (blockEnd islands a) := by
  have hcan : (∀ l₁ P l₂, islands = l₁ ++ P :: l₂ → CanOutline g₀ root₀ ([] ++ l₁) P) ↔
      (∀ I ∈ islands.tail, ∀ o ∈ I, ¬ isOpDead (g₀.op o)) ∧
      (islands.Pairwise fun I J => ∀ t ∈ root₀.outputs, isConstant (g₀.tensor t) →
        readBy g₀ I t → ¬ readBy g₀ J t) := by
    constructor
    · intro hall
      refine ⟨fun I hI => ?_, List.pairwise_iff_getElem.mpr fun i j hi hj hij t ht hc hread => ?_⟩
      · obtain ⟨l₁, l₂, hl⟩ := List.append_of_mem hI
        cases hislands' : islands with
        | nil =>
          rw [hislands'] at hI
          cases hI
        | cons J islands' =>
          rw [hislands', List.tail_cons] at hl
          exact (hall (J :: l₁) I l₂ (by rw [hislands', hl]; rfl)).live (by simp)
      · have hsplit : islands = islands.take j ++ islands[j] :: islands.drop (j + 1) := by
          rw [List.getElem_cons_drop, List.take_append_drop]
        intro hread'
        refine (hall _ _ _ hsplit).constants t ht hc hread' islands[i] ?_ hread
        exact List.mem_take_iff_getElem.mpr ⟨i, by omega, rfl⟩
    · rintro ⟨hlive, hpair⟩ l₁ P l₂ rfl
      refine ⟨fun hne o ho => ?_, fun t ht hc hread I hI hread' => ?_⟩
      · cases l₁ with
        | nil => exact absurd rfl hne
        | cons J l₁ => exact hlive P (by simp) o ho
      · exact (List.pairwise_append.mp hpair).2.2 I hI P (by simp) t ht hc hread' hread
  obtain ⟨hyes, hno⟩ := (Stage.init hr hex).outlineIslands_spec hr
    (show Islands root₀ ([] ++ islands) from hislands) mgr []
  rw [← and_assoc, ← hcan]
  by_cases hc : ∀ l₁ P l₂, islands = l₁ ++ P :: l₂ → CanOutline g₀ root₀ ([] ++ l₁) P
  · obtain ⟨s, hs, hst⟩ := hyes hc
    have hiff := hst.executable_iff hr hislands
    constructor
    · rintro ⟨s', hs', hex'⟩
      rw [outlineIslands, hs] at hs'
      cases hs'
      exact ⟨hc, hiff.mp hex'⟩
    · exact fun hall => ⟨s, hs, hiff.mpr hall.2⟩
  · constructor
    · rintro ⟨s', hs', -⟩
      rw [outlineIslands, hno hc] at hs'
      cases hs'
    · exact fun hall => absurd hall.1 hc

end

end LiteRt.Plugin
