import LiteRt.Lib.ListIndex
import LiteRt.Model.Ir

/-!
# Well-formed graphs

Both directions of the use-def edges. `uses_count` states the use side as one
equation between a tensor's records and the operand lists, the form every
mutator is checked against.
-/

namespace LiteRt.Model

open LiteRt.Lib

variable {g : Ir} {o : OpId} {t : TensorId} {i : Nat} {o' : OpId} {ind : Nat} {output : TensorId}

/-- The edges stored on ops and on tensors are the same edges. -/
structure Ir.WellFormed (g : Ir) : Prop where
  /-- An operand has exactly one use record. -/
  use_once : ∀ o i t, (g.op o).inputs[i]? = some t → (g.tensor t).users.count (o, i) = 1
  /-- A use record names an operand. -/
  use_sound : ∀ t o i, (o, i) ∈ (g.tensor t).users → (g.op o).inputs[i]? = some t
  /-- A result points back at its op and position. -/
  def_sound : ∀ o j t, (g.op o).outputs[j]? = some t →
    (g.tensor t).definingOp = some o ∧ (g.tensor t).definingOpOutInd = j
  /-- A defined tensor is the result its back pointer names. -/
  def_complete : ∀ t o, (g.tensor t).definingOp = some o →
    (g.op o).outputs[(g.tensor t).definingOpOutInd]? = some t

theorem Ir.WellFormed.uses_count (h : g.WellFormed) (t : TensorId) (o : OpId) (i : Nat) :
    (g.tensor t).users.count (o, i) = if (g.op o).inputs[i]? = some t then 1 else 0 := by
  split
  · next hi => exact h.use_once o i t hi
  · next hi => exact List.count_eq_zero.mpr fun hm => hi (h.use_sound t o i hm)

theorem Ir.WellFormed.of_counts
    (hu : ∀ t o i, (g.tensor t).users.count (o, i) = if (g.op o).inputs[i]? = some t then 1 else 0)
    (hs : ∀ o j t, (g.op o).outputs[j]? = some t → (g.tensor t).definingOp = some o ∧
      (g.tensor t).definingOpOutInd = j)
    (hc : ∀ t o, (g.tensor t).definingOp = some o → (g.op o).outputs[(g.tensor t).definingOpOutInd]? =
      some t) :
    g.WellFormed where
  use_once o i t hi := by rw [hu, if_pos hi]
  use_sound t o i hm := by
    by_contra hi
    exact List.count_eq_zero.mp ((hu t o i).trans (if_neg hi)) hm
  def_sound := hs
  def_complete := hc

/-- The edges of one op are the same on both sides. -/
structure Ir.WellFormedAt (g : Ir) (o : OpId) : Prop where
  uses_count : ∀ t i, (g.tensor t).users.count (o, i) =
    if (g.op o).inputs[i]? = some t then 1 else 0
  def_sound : ∀ j t, (g.op o).outputs[j]? = some t →
    (g.tensor t).definingOp = some o ∧ (g.tensor t).definingOpOutInd = j
  def_complete : ∀ t, (g.tensor t).definingOp = some o →
    (g.op o).outputs[(g.tensor t).definingOpOutInd]? = some t

theorem Ir.wellFormed_iff_forall : g.WellFormed ↔ ∀ o, g.WellFormedAt o :=
  ⟨fun h o => ⟨fun t i => h.uses_count t o i, h.def_sound o, fun t => h.def_complete t o⟩,
    fun h => .of_counts (fun t o => (h o).uses_count t) (fun o => (h o).def_sound)
      fun t o => (h o).def_complete t⟩

theorem Ir.WellFormed.at (h : g.WellFormed) (o : OpId) : g.WellFormedAt o :=
  Ir.wellFormed_iff_forall.mp h o

theorem Ir.WellFormedAt.use_sound (h : g.WellFormedAt o) (hm : (o, i) ∈ (g.tensor t).users) :
    (g.op o).inputs[i]? = some t := by
  by_contra hi
  exact List.count_eq_zero.mp ((h.uses_count t i).trans (if_neg hi)) hm

theorem Ir.WellFormedAt.mem_users (h : g.WellFormedAt o) (hi : (g.op o).inputs[i]? = some t) :
    (o, i) ∈ (g.tensor t).users :=
  List.count_pos_iff.mp (by rw [h.uses_count t i, if_pos hi]; exact Nat.one_pos)

theorem Ir.WellFormedAt.mem_inputs_iff (h : g.WellFormedAt o) :
    t ∈ (g.op o).inputs ↔ ∃ i, (o, i) ∈ (g.tensor t).users := by
  rw [List.mem_iff_getElem?]
  exact ⟨fun ⟨i, hi⟩ => ⟨i, h.mem_users hi⟩, fun ⟨i, hi⟩ => ⟨i, h.use_sound hi⟩⟩

theorem Ir.WellFormedAt.mem_outputs_iff (h : g.WellFormedAt o) :
    t ∈ (g.op o).outputs ↔ (g.tensor t).definingOp = some o := by
  rw [List.mem_iff_getElem?]
  exact ⟨fun ⟨j, hj⟩ => (h.def_sound j t hj).1, fun hd => ⟨_, h.def_complete t hd⟩⟩

theorem Ir.WellFormed.mem_users (h : g.WellFormed) (hi : (g.op o).inputs[i]? = some t) :
    (o, i) ∈ (g.tensor t).users :=
  List.count_pos_iff.mp (by rw [h.use_once o i t hi]; exact Nat.one_pos)

theorem Ir.WellFormedAt.outputs_nodup (h : g.WellFormedAt o) :
    (g.op o).outputs.Nodup := by
  rw [List.nodup_iff_getElem?_ne_getElem?]
  intro i j hij hj he
  have hi : (g.op o).outputs[i]? = some (g.op o).outputs[i] := List.getElem?_eq_getElem _
  have h1 := (h.def_sound i _ hi).2
  have h2 := (h.def_sound j _ (he ▸ hi)).2
  omega

/-! ## Attaching -/

theorem Ir.WellFormedAt.attachInput (h : g.WellFormedAt o') (t : TensorId) (o : OpId) :
    (attachInput g t o).WellFormedAt o' := by
  have hop : ((LiteRt.Model.attachInput g t o).op o').outputs = (g.op o').outputs := by
    rw [op_attachInput]
    split <;> rfl
  have hdef (t' : TensorId) :
      ((LiteRt.Model.attachInput g t o).tensor t').definingOp = (g.tensor t').definingOp ∧
      ((LiteRt.Model.attachInput g t o).tensor t').definingOpOutInd =
        (g.tensor t').definingOpOutInd := by
    rw [tensor_attachInput]
    split <;> exact ⟨rfl, rfl⟩
  refine ⟨fun t' i => ?_, fun j t' hj => ?_, fun t' hd => ?_⟩
  · have hc := h.uses_count t' i
    rw [tensor_attachInput, op_attachInput]
    by_cases ho : o' = o
    · subst ho
      simp only [↓reduceIte, getElem?_snoc_eq_some]
      by_cases ht : t' = t
      · subst ht
        simp only [↓reduceIte, List.count_append, hc]
        by_cases hi : i = (g.op o').inputs.length
        · subst hi
          simp
        · simp [hi, Ne.symm hi]
      · simp [ht, hc, Ne.symm ht]
    · rw [if_neg ho]
      split
      · rw [List.count_append, hc, List.count_eq_zero.mpr (by simp [ho]), Nat.add_zero]
      · exact hc
  · rw [hop] at hj
    rw [(hdef t').1, (hdef t').2]
    exact h.def_sound j t' hj
  · rw [(hdef t').1] at hd
    rw [hop, (hdef t').2]
    exact h.def_complete t' hd

theorem attachInput_wellFormed (h : g.WellFormed) (t : TensorId) (o : OpId) :
    (attachInput g t o).WellFormed :=
  Ir.wellFormed_iff_forall.mpr fun o' => (h.at o').attachInput t o

/-- Attaching a tensor without a defining op. -/
theorem Ir.WellFormedAt.attachOutput {g g' : Ir} (h : g.WellFormedAt o')
    (hg : attachOutput g t o = some g') : g'.WellFormedAt o' := by
  have hnone : (g.tensor t).definingOp = none := by
    by_contra hd
    rw [LiteRt.Model.attachOutput, if_neg hd] at hg
    cases hg
  obtain ⟨g'', he, -, hT, hO⟩ := attachOutput_spec o hnone
  rw [he] at hg
  cases hg
  have hout (j : Nat) (t' : TensorId) (hj : (g.op o').outputs[j]? = some t') : t' ≠ t := by
    rintro rfl
    rw [(h.def_sound j t' hj).1] at hnone
    cases hnone
  refine ⟨fun t' i => ?_, fun j t' hj => ?_, fun t' hd => ?_⟩
  · have hin : (g'.op o').inputs = (g.op o').inputs := by
      rw [hO]
      split <;> rfl
    rw [hT, hin]
    split <;> exact h.uses_count t' i
  · rw [hO] at hj
    by_cases ho : o' = o
    · subst ho
      simp only [↓reduceIte, getElem?_snoc_eq_some] at hj
      rcases hj with hj | ⟨rfl, rfl⟩
      · rw [hT, if_neg (hout j t' hj)]
        exact h.def_sound j t' hj
      · simp [hT, Tensor.setDefiningOp]
    · rw [if_neg ho] at hj
      rw [hT, if_neg (hout j t' hj)]
      exact h.def_sound j t' hj
  · rw [hT] at hd ⊢
    rw [hO]
    by_cases ht : t' = t
    · subst ht
      simp only [↓reduceIte, Tensor.setDefiningOp, Option.some.injEq] at hd
      subst hd
      simp [Tensor.setDefiningOp]
    · rw [if_neg ht] at hd ⊢
      have := h.def_complete t' hd
      split
      · exact getElem?_snoc_eq_some.mpr (.inl this)
      · exact this

theorem attachOutput_wellFormed {g g' : Ir} (h : g.WellFormed) (hg : attachOutput g t o = some g') :
    g'.WellFormed :=
  Ir.wellFormed_iff_forall.mpr fun o' => (h.at o').attachOutput hg

/-! ## Disconnecting a result -/

theorem disconnectOutput_uses {g g' : Ir} (h : g.WellFormed)
    (hg : disconnectOutput g o ind = some (g', output)) (t : TensorId) (o' : OpId) (i : Nat) :
    (g'.tensor t).users.count (o', i) = if (g'.op o').inputs[i]? = some t then 1 else 0 := by
  cases hi : (g.op o).outputs[ind]? with
  | none => simp [disconnectOutput, hi] at hg
  | some output' =>
    obtain ⟨g'', he, -, hT, hO⟩ := disconnectOutput_spec hi
    rw [he] at hg
    cases hg
    have hc := h.uses_count t o' i
    rw [hT, hO]
    split <;> split
    all_goals first | exact hc | (next ho => subst ho; exact hc)

/-- `DisconnectOutput` renumbers no later result: it keeps the graph
well-formed on the last result of an op and on no other one. -/
theorem disconnectOutput_wellFormed_iff {g g' : Ir} (h : g.WellFormed)
    (hg : disconnectOutput g o ind = some (g', output)) :
    g'.WellFormed ↔ (g.op o).outputs.length = ind + 1 := by
  have huses := disconnectOutput_uses h hg
  cases hi : (g.op o).outputs[ind]? with
  | none => simp [disconnectOutput, hi] at hg
  | some output' =>
    obtain ⟨g'', he, -, hT, hO⟩ := disconnectOutput_spec hi
    rw [he] at hg
    cases hg
    obtain ⟨hlt, -⟩ := List.getElem?_eq_some_iff.mp hi
    constructor
    · intro h'
      by_contra hne
      -- the next result moves to `ind` and keeps its old index
      obtain ⟨t, ht⟩ : ∃ t, (g.op o).outputs[ind + 1]? = some t :=
        ⟨_, List.getElem?_eq_getElem (by omega)⟩
      have hne : t ≠ output := by
        rintro rfl
        have h1 := (h.def_sound o _ _ ht).2
        have h2 := (h.def_sound o _ _ hi).2
        omega
      have hnew : (g'.op o).outputs[ind]? = some t := by
        rw [hO, if_pos rfl]
        simp [List.getElem?_eraseIdx, ht]
      have := (h'.def_sound o ind t hnew).2
      rw [hT, if_neg hne, (h.def_sound o _ _ ht).2] at this
      omega
    · intro hlen
      have hold (o' : OpId) (j : Nat) (t : TensorId) : (g'.op o').outputs[j]? = some t →
          (g.op o').outputs[j]? = some t ∧ t ≠ output := by
        intro hj
        rw [hO] at hj
        split at hj
        · next ho =>
          subst ho
          rw [List.getElem?_eraseIdx] at hj
          split at hj
          · refine ⟨hj, ?_⟩
            rintro rfl
            have h1 := (h.def_sound o' _ _ hj).2
            have h2 := (h.def_sound o' _ _ hi).2
            omega
          · rw [List.getElem?_eq_none (by omega)] at hj
            cases hj
        · next ho =>
          refine ⟨hj, ?_⟩
          rintro rfl
          have h1 := (h.def_sound o' _ _ hj).1
          have h2 := (h.def_sound o _ _ hi).1
          rw [h1] at h2
          exact ho (Option.some.inj h2)
      refine .of_counts huses (fun o' j t hj => ?_) fun t o' hd => ?_
      · obtain ⟨hj', hne⟩ := hold o' j t hj
        rw [hT, if_neg hne]
        exact h.def_sound o' j t hj'
      · rw [hT] at hd ⊢
        split at hd
        · cases hd
        · next hne =>
          rw [if_neg hne]
          have hc := h.def_complete t o' hd
          rw [hO]
          split
          · next ho =>
            subst ho
            have hj := (List.getElem?_eq_some_iff.mp hc).1
            have hjne : (g.tensor t).definingOpOutInd ≠ ind := by
              intro hj'
              rw [hj', hi] at hc
              exact hne (Option.some.inj hc).symm
            rw [List.getElem?_eraseIdx, if_pos (by omega)]
            exact hc
          · exact hc

end LiteRt.Model
