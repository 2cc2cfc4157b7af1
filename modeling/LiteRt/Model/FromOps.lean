import LiteRt.Model.Dce

/-!
# The graph of an op list

`Ir.ofOps` stores a list of ops at the addresses from `0` on and gives each tensor
the back pointers the operand and result lists ask for.
-/

namespace LiteRt.Model

open LiteRt.Lib List

/-- Where a tensor occurs in the operand (or result) lists of the ops, the first op
at address `k`. -/
def places (f : Op → List TensorId) (ops : List Op) (k : Nat) (t : TensorId) :
    List (OpId × Nat) :=
  (ops.zipIdx k).flatMap fun p => ((f p.1).zipIdx.filter fun q => q.1 = t).map fun q => (p.2, q.2)

/-- The graph of an op list, with the other data of the tensors. -/
def Ir.ofOps (ops : List Op) (numTensors : Nat) (tensor : TensorId → Tensor) : Ir where
  tensor t :=
    let defs := places Op.outputs ops 0 t
    { tensor t with
      users := places Op.inputs ops 0 t
      definingOp := defs.head?.map Prod.fst
      definingOpOutInd := (defs.head?.map Prod.snd).getD 0 }
  op o := ops.getD o {}
  alloc := { nextTensor := numTensors, nextOp := ops.length }

theorem count_places (f : Op → List TensorId) (ops : List Op) (k : Nat) (t : TensorId) (o : OpId)
    (i : Nat) : (places f ops k t).count (o, i) =
      if k ≤ o ∧ ∃ op, ops[o - k]? = some op ∧ (f op)[i]? = some t then 1 else 0 := by
  induction ops generalizing k with
  | nil => simp [places]
  | cons op ops ih =>
    have hcons : places f (op :: ops) k t =
        (((f op).zipIdx.filter fun q => q.1 = t).map fun q => (k, q.2)) ++
          places f ops (k + 1) t := rfl
    rw [hcons, count_append, ih, count_zipIdx_filter]
    rcases Nat.lt_trichotomy o k with h | h | h
    · have h1 : ¬ k ≤ o := Nat.not_le.mpr h
      have h2 : ¬ k + 1 ≤ o := fun h' => h1 (Nat.le_of_succ_le h')
      simp [h1, h2, Nat.ne_of_lt h]
    · subst h
      simp
    · have h1 : k ≤ o := Nat.le_of_lt h
      have h2 : o - k = (o - (k + 1)) + 1 := by grind
      have h3 : k + 1 ≤ o := h
      simp [h1, h3, h2, Nat.ne_of_gt h]

theorem mem_places {f : Op → List TensorId} {ops : List Op} {t : TensorId} {o : OpId} {i : Nat} :
    (o, i) ∈ places f ops 0 t ↔ ∃ op, ops[o]? = some op ∧ (f op)[i]? = some t := by
  rw [← count_pos_iff, count_places]
  by_cases h : ∃ op, ops[o]? = some op ∧ (f op)[i]? = some t
  · simp [h]
  · simp only [Nat.zero_le, Nat.sub_zero, true_and, h, ↓reduceIte, Nat.lt_irrefl]

/-- A tensor occurs as often as it is listed. -/
theorem length_places (f : Op → List TensorId) (ops : List Op) (k : Nat) (t : TensorId) :
    (places f ops k t).length = (ops.flatMap f).count t := by
  induction ops generalizing k with
  | nil => rfl
  | cons op ops ih =>
    have hone (l : List TensorId) (j : Nat) :
        ((l.zipIdx j).filter fun q => q.1 = t).length = l.count t := by
      induction l generalizing j with
      | nil => rfl
      | cons a l ih' =>
        rw [zipIdx_cons, filter_cons, count_cons]
        split
        · next ha =>
          have ha : a = t := of_decide_eq_true ha
          simp [ih', ha]
        · next ha =>
          rw [ih', if_neg (by simpa using ha), Nat.add_zero]
    rw [flatMap_cons, count_append, ← ih (k + 1), ← hone (f op) 0]
    simp [places]

section
variable {ops : List Op} {numTensors : Nat} {tensor : TensorId → Tensor}

theorem getElem?_getD_op (ops : List Op) (f : Op → List TensorId) (hf : f {} = []) (o : OpId) (i : Nat)
    (t : TensorId) : (f (ops.getD o {}))[i]? = some t ↔
      ∃ op, ops[o]? = some op ∧ (f op)[i]? = some t := by
  rw [getD_eq_getElem?_getD]
  cases ops[o]? <;> simp [hf]

/-- The graph of an op list is well-formed when no tensor is a result twice. -/
theorem Ir.ofOps_wellFormed (hnd : (ops.flatMap Op.outputs).Nodup) :
    (Ir.ofOps ops numTensors tensor).WellFormed := by
  refine .of_counts (fun t o i => ?_) (fun o j t hj => ?_) fun t o hd => ?_
  · have hcount := count_places Op.inputs ops 0 t o i
    have hiff := getElem?_getD_op ops Op.inputs rfl o i t
    simp only [Nat.zero_le, Nat.sub_zero, true_and, ← hiff] at hcount
    exact hcount
  · have hm := mem_places.mpr ((getElem?_getD_op ops Op.outputs rfl o j t).mp hj)
    have hlen := length_places Op.outputs ops 0 t
    have hle := nodup_iff_count_le_one.mp hnd t
    have hone : places Op.outputs ops 0 t = [(o, j)] := by
      have hpos := length_pos_of_mem hm
      obtain ⟨p, hp⟩ := length_eq_one_iff.mp (show (places Op.outputs ops 0 t).length = 1 by
        omega)
      rw [hp] at hm ⊢
      rw [mem_singleton.mp hm]
    simp [Ir.ofOps, hone]
  · simp only [Ir.ofOps, Option.map_eq_some_iff] at hd
    obtain ⟨⟨o', j⟩, hhead, rfl⟩ := hd
    have hm := mem_places.mp (mem_of_head? hhead)
    simp only [Ir.ofOps, hhead, Option.map_some, Option.getD_some]
    exact (getElem?_getD_op ops Op.outputs rfl o' j t).mpr hm

theorem mem_ofOps {f : Op → List TensorId} (hf : f {} = []) {o : OpId} {t : TensorId}
    (ht : t ∈ f ((Ir.ofOps ops numTensors tensor).op o)) : t ∈ ops.flatMap f := by
  obtain ⟨i, hi⟩ := mem_iff_getElem?.mp ht
  obtain ⟨op, hop, hi⟩ := (getElem?_getD_op ops f hf o i t).mp hi
  exact mem_flatMap.mpr ⟨op, mem_of_getElem? hop, mem_of_getElem? hi⟩

/-- The graph of an op list is closed when its tensors are allocated. -/
theorem Ir.ofOps_closed (hin : ∀ t ∈ ops.flatMap Op.inputs, t < numTensors)
    (hout : ∀ t ∈ ops.flatMap Op.outputs, t < numTensors) :
    (Ir.ofOps ops numTensors tensor).Closed := by
  have hempty (f : Op → List TensorId) (t : TensorId) (h : t ∉ ops.flatMap f) :
      places f ops 0 t = [] :=
    length_eq_zero_iff.mp ((length_places f ops 0 t).trans (count_eq_zero.mpr h))
  have hlt (f : Op → List TensorId) (t : TensorId) (o : OpId) (i : Nat)
      (hm : (o, i) ∈ places f ops 0 t) : o < ops.length := by
    obtain ⟨op, hop, -⟩ := mem_places.mp hm
    exact (List.getElem?_eq_some_iff.mp hop).1
  constructor
  · intro t ht
    have h1 := hempty Op.inputs t fun hm => absurd (hin t hm) (Nat.not_lt.mpr ht)
    have h2 := hempty Op.outputs t fun hm => absurd (hout t hm) (Nat.not_lt.mpr ht)
    simp [Ir.ofOps, h1, h2]
  · intro o ho
    simp only [Ir.ofOps] at ho ⊢
    rw [getD_eq_getElem?_getD, getElem?_eq_none ho]
    exact ⟨rfl, rfl⟩
  · exact fun t u hu => hlt Op.inputs t u.1 u.2 hu
  · intro t o hd
    simp only [Ir.ofOps, Option.map_eq_some_iff] at hd
    obtain ⟨⟨o', j⟩, hhead, rfl⟩ := hd
    exact hlt Op.outputs t o' j (mem_of_head? hhead)
  · exact fun o t ht => hin t (mem_ofOps rfl ht)
  · exact fun o t ht => hout t (mem_ofOps rfl ht)

/-- One subgraph that owns the whole graph. -/
theorem Subgraph.ofOps_wellFormed {sg : Subgraph} (hnd : (ops.flatMap Op.outputs).Nodup)
    (hops : sg.ops = List.range ops.length) (htensors : sg.tensors = List.range numTensors)
    (hin : ∀ t ∈ ops.flatMap Op.inputs, t < numTensors)
    (hout : ∀ t ∈ ops.flatMap Op.outputs, t < numTensors)
    (hio : ∀ t ∈ sg.inputs ++ sg.outputs, t < numTensors) :
    sg.WellFormed (Ir.ofOps ops numTensors tensor) := by
  have hwf : (Ir.ofOps ops numTensors tensor).WellFormed := Ir.ofOps_wellFormed hnd
  have hc : (Ir.ofOps ops numTensors tensor).Closed := Ir.ofOps_closed hin hout
  constructor
  · rw [hops]
    exact nodup_range
  · rw [htensors]
    exact nodup_range
  · exact fun o _ => hwf.at o
  · intro o _ t ht
    rw [htensors]
    exact mem_range.mpr (hin t (mem_ofOps rfl ht))
  · intro o _ t ht
    rw [htensors]
    exact mem_range.mpr (hout t (mem_ofOps rfl ht))
  · intro t _ u hu
    rw [hops]
    exact mem_range.mpr (hc.user t u hu)
  · intro t _ o hd
    rw [hops]
    exact mem_range.mpr (hc.definer t o hd)
  · intro t ht
    rw [htensors]
    exact mem_range.mpr (hio t (mem_append.mpr ht))

end

theorem Subgraph.WellFormed.of_owns {g : Ir} {sg : Subgraph} (h : g.WellFormed)
    (hops : sg.ops.Nodup) (htensors : sg.tensors.Nodup)
    (hedges : ∀ o ∈ sg.ops, ∀ t ∈ (g.op o).inputs ++ (g.op o).outputs, t ∈ sg.tensors)
    (hback : ∀ t ∈ sg.tensors,
      ∀ o ∈ (g.tensor t).users.map Prod.fst ++ (g.tensor t).definingOp.toList, o ∈ sg.ops)
    (hio : ∀ t ∈ sg.inputs ++ sg.outputs, t ∈ sg.tensors) : sg.WellFormed g where
  ops_nodup := hops
  tensors_nodup := htensors
  edges o _ := h.at o
  operands o ho t ht := hedges o ho t (mem_append_left _ ht)
  results o ho t ht := hedges o ho t (mem_append_right _ ht)
  users t ht _ hu := hback t ht _ (mem_append_left _ (mem_map_of_mem hu))
  definers t ht o hd := hback t ht o (mem_append_right _ (by simp [hd]))
  ios t ht := hio t (mem_append.mpr ht)

end LiteRt.Model
