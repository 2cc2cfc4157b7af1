import LiteRt.Lib.Fusion
import LiteRt.Tflite.ControlEdges

/-!
# What a delegated plan computes

Nodes whose outputs are functions of their inputs, run in the order of the execution plan. A
delegate kernel runs the nodes of its subset on the tensors it reads, and passes on those it
writes. The plan that a partition leads to computes what the old one did.
-/

namespace LiteRt.Tflite

open LiteRt.Lib Subgraph List

/-! ## Programs -/

/-- What the nodes do, by index. -/
abbrev Kernels (V : Type*) := Nat → List V → Option (List V)

/-- Without the tensors that are left out. -/
def present (ts : List TensorIndex) : List TensorIndex := ts.filter (· ≠ kTfLiteOptionalTensor)

namespace Subgraph

variable {V : Type*} (s : Subgraph) (kernels : Kernels V)

def instr (n : Nat) : Instr TensorIndex V where
  reads := present (s.node n).inputs
  writes := present (s.node n).outputs
  run := kernels n

/-- The execution plan, invoked node by node. -/
def program : List (Instr TensorIndex V) := s.executionPlan.map (s.instr kernels)

/-- The node at a position. -/
def instrAt (i : Nat) : Instr TensorIndex V := s.instr kernels (s.executionPlan.getD i 0)

def subsetProgram (subset : NodeSubset) : List (Instr TensorIndex V) :=
  subset.nodes.map fun n => s.instr kernels n.toNat

/-- The kernel of a subset. -/
def subsetKernel (subset : NodeSubset) : Instr TensorIndex V :=
  .fuse (present subset.inputTensors) (present subset.outputTensors) (s.subsetProgram kernels subset)

/-- The new nodes, with the old ones that they stand for. -/
def delegated (subsets : List NodeSubset) : List (Instr TensorIndex V × List (Instr TensorIndex V)) :=
  subsets.flatMap fun subset =>
    if subset.type = .partition then
      [(s.subsetKernel kernels subset, s.subsetProgram kernels subset)]
    else (s.subsetProgram kernels subset).map fun i => (i, [i])

/-- What the nodes of the new plan do. -/
def instrAfter (subsets : List NodeSubset) (n : Nat) : Instr TensorIndex V :=
  if n < s.nodesAndRegistration.length then s.instr kernels n
  else match (subsets.filter (·.type = .partition))[n - s.nodesAndRegistration.length]? with
    | some subset => s.subsetKernel kernels subset
    | none => s.instr kernels n

end Subgraph

/-- The plan writes each tensor once, before it is read. -/
structure Dataflow {V : Type*} (s : Subgraph) (kernels : Kernels V) : Prop where
  plan : ∀ n ∈ s.executionPlan, n < s.nodesAndRegistration.length
  ordered : Ordered (s.program kernels)
  full : ∀ i ∈ s.program kernels, i.Full

section
variable {V : Type*} {s s' : Subgraph} {kernels : Kernels V} {r : Replacement}
  {subsets : List NodeSubset} {nodes : List NodeAndRegistration} {edges : List ControlEdge}
  {batches : List (List Nat)} {subset : NodeSubset} {t : TensorIndex} {i : Nat}

theorem mem_reads_instrAt : t ∈ (s.instrAt kernels i).reads ↔ s.info.Reads i t := by
  simp [instrAt, instr, present, GraphInfo.Reads, and_comm]

theorem mem_writes_instrAt : t ∈ (s.instrAt kernels i).writes ↔ s.info.Writes i t := by
  simp [instrAt, instr, present, GraphInfo.Writes, and_comm]

theorem program_eq : s.program kernels =
    (List.range s.executionPlan.length).map (s.instrAt kernels) := by
  refine ext_getElem (by simp [program]) fun i h₁ h₂ => ?_
  simp only [program, length_map] at h₁
  simp [program, instrAt, h₁]

theorem Dataflow.oneProducer (h : Dataflow s kernels) : ∀ t, s.info.OneProducer t := by
  have hclear := pairwise_map.mp h.ordered.clear
  refine oneProducer_iff.mpr (pairwise_map.mpr (hclear.imp fun hclear t ho ht ht' => ?_))
  have hpresent {ts : List TensorIndex} (h : t ∈ ts) : t ∈ present ts :=
    mem_filter.mpr ⟨h, decide_eq_true ho⟩
  exact (hclear t (hpresent ht')).2 (hpresent ht)

theorem flatMap_delegated : (s.delegated kernels subsets).flatMap Prod.snd =
    subsets.flatMap (s.subsetProgram kernels) := by
  rw [delegated, flatMap_assoc]
  refine flatMap_congr fun subset _ => ?_
  split <;> simp [flatMap_map]

theorem mem_delegated {p : Instr TensorIndex V × List (Instr TensorIndex V)}
    (hp : p ∈ s.delegated kernels subsets) : ∃ subset ∈ subsets, p.2 ⊆ s.subsetProgram kernels subset ∧
      ((subset.type = .partition ∧
        p = (s.subsetKernel kernels subset, s.subsetProgram kernels subset)) ∨
      (subset.type ≠ .partition ∧ ∃ i, p = (i, [i]))) := by
  obtain ⟨subset, hs, hp⟩ := mem_flatMap.mp hp
  refine ⟨subset, hs, ?_⟩
  split at hp
  · next ht =>
    obtain rfl := mem_singleton.mp hp
    exact ⟨Subset.refl _, .inl ⟨ht, rfl⟩⟩
  · next ht =>
    obtain ⟨i, hi, rfl⟩ := mem_map.mp hp
    exact ⟨by simpa using hi, .inr ⟨ht, i, rfl⟩⟩

variable (hp : PartitionsPlan s.info r.nodesToReplace edges s.info.OneProducer subsets batches)

include hp

theorem flatMap_subsetProgram : subsets.flatMap (s.subsetProgram kernels) =
    batches.flatten.map (s.instrAt kernels) := by
  have h := congrArg (map fun n => s.instr kernels n.toNat) (forall₂_flatten hp.nodes)
  rw [map_flatMap, List.map_map] at h
  exact h

/-- The nodes of the new plan are the kernels and the nodes left. -/
theorem Dataflow.map_instrAfter (h : Dataflow s kernels) :
    (planAfter s.nodesAndRegistration.length subsets).map (s.instrAfter kernels subsets) =
      (s.delegated kernels subsets).map Prod.fst := by
  rw [@map_planAfter _ _ _ (s.instr kernels) _ (s.subsetKernel kernels)
    (fun subset hs _ n hn => ?_) fun k subset hk => ?_, delegated, map_flatMap]
  · refine flatMap_congr fun subset _ => ?_
    split <;> simp [subsetProgram]
  · obtain ⟨m, hm, rfl⟩ := hp.exists_of_mem hs hn
    exact if_pos (h.plan m hm)
  · simp [instrAfter, hk]

theorem Dataflow.ordered_batches (h : Dataflow s kernels) :
    Ordered (batches.flatten.map (s.instrAt kernels)) := by
  have hnd : batches.flatten.Nodup := hp.once.nodup_iff.mpr nodup_range
  have hlt {i : Nat} (hi : i ∈ batches.flatten) : i < s.executionPlan.length :=
    mem_range.mp (hp.once.mem_iff.mp hi)
  refine ⟨pairwise_map.mpr (pairwise_iff_getElem.mpr fun a b ha hb hab t ht => ?_), ?_⟩
  · rw [mem_writes_instrAt] at ht
    have hne {c : Nat} (hc : c < batches.flatten.length) (hcb : c < b) :
        batches.flatten[c] ≠ batches.flatten[b] := fun he => by
      have := hnd.getElem_inj_iff.mp he
      omega
    refine ⟨fun hr => ?_, fun hw => hne ha hab ?_⟩
    · have hsplit : batches.flatten = batches.flatten.take a ++
          batches.flatten[a] :: batches.flatten.drop (a + 1) := by simp
      have hpre := hp.producers _ _ _ hsplit t (h.oneProducer t) (mem_reads_instrAt.mp hr) _
        (hlt (getElem_mem hb)) ht
      obtain ⟨c, hc, he⟩ := mem_take_iff_getElem.mp hpre
      exact hne (by omega) (by omega) he
    · exact h.oneProducer t _ (hlt (getElem_mem ha)) _ (hlt (getElem_mem hb))
        (mem_writes_instrAt.mp hw) ht
  · intro i hi
    obtain ⟨j, hj, rfl⟩ := mem_map.mp hi
    exact h.ordered.self _ (program_eq ▸ mem_map_of_mem (hp.once.mem_iff.mp hj))

/-- The subset at a place, by its batch. -/
theorem Dataflow.exists_cut (h : Dataflow s kernels) (hs : subset ∈ subsets) :
    ∃ (k : Nat) (E : List Nat), subsets[k]? = some subset ∧ batches[k]? = some E ∧
      s.subsetProgram kernels subset = E.map (s.instrAt kernels) ∧
      Cut (present subset.inputTensors) (present subset.outputTensors)
        (s.subsetProgram kernels subset) ∧
      ∀ t, (∃ j ∈ s.subsetProgram kernels subset, t ∈ j.writes) →
        (t ∈ s.outputs ∨ ∃ i < s.executionPlan.length, i ∉ E ∧
          t ∈ (s.instrAt kernels i).reads) → t ∈ present subset.outputTensors := by
  obtain ⟨⟨k, hk⟩, rfl⟩ := mem_iff_get.mp hs
  have hk' : k < batches.length := hp.nodes.length_eq ▸ hk
  obtain ⟨E, hE⟩ : ∃ E, batches.get ⟨k, hk'⟩ = E := ⟨_, rfl⟩
  have hprogram : s.subsetProgram kernels (subsets.get ⟨k, hk⟩) = E.map (s.instrAt kernels) := by
    rw [subsetProgram, (forall₂_iff_get.mp hp.nodes).2 k hk hk', hE, List.map_map]
    rfl
  have hins := fun t => (forall₂_iff_get.mp hp.inputs).2 k hk hk' t (h.oneProducer t)
  have houts := fun t => (forall₂_iff_get.mp hp.outputs).2 k hk hk' t (h.oneProducer t)
  simp only [hE, ← @mem_reads_instrAt _ _ kernels,
    ← @mem_writes_instrAt _ _ kernels] at hins houts
  have hmap {P : Instr TensorIndex V → Prop} : (∃ i ∈ E.map (s.instrAt kernels), P i) ↔
      ∃ i ∈ E, P (s.instrAt kernels i) := by simp
  rw [hprogram]
  refine ⟨k, E, getElem?_eq_getElem hk, hE ▸ getElem?_eq_getElem hk', rfl,
    ⟨fun t => ?_, fun t ht => ?_, (hp.nodup _ hs).1.filter _, (hp.nodup _ hs).2.filter _⟩,
    fun t hw ho => ?_⟩
  · simp only [hmap, present, mem_filter, decide_eq_true_eq]
    rw [← hins t, and_iff_left_iff_imp]
    intro ht
    obtain ⟨⟨i, -, hr⟩, -⟩ := (hins t).mp ht
    exact (mem_reads_instrAt.mp hr).1
  · exact hmap.mpr ((houts t).mp (mem_filter.mp ht).1).1
  · obtain ⟨i, hi, hw⟩ := hmap.mp hw
    refine mem_filter.mpr ⟨(houts t).mpr ⟨⟨i, hi, hw⟩, ho⟩, ?_⟩
    exact decide_eq_true (mem_writes_instrAt.mp hw).1

theorem Dataflow.stands (h : Dataflow s kernels) : ∀ p ∈ s.delegated kernels subsets,
    Stands p.1 p.2 := by
  intro p hmem
  have hord : Ordered (subsets.flatMap (s.subsetProgram kernels)) := by
    rw [flatMap_subsetProgram hp]
    exact h.ordered_batches hp
  have hfull (i : Instr TensorIndex V) (hi : i ∈ subsets.flatMap (s.subsetProgram kernels)) :
      i.Full := by
    rw [flatMap_subsetProgram hp] at hi
    obtain ⟨j, hj, rfl⟩ := mem_map.mp hi
    exact h.full _ (program_eq ▸ mem_map_of_mem (hp.once.mem_iff.mp hj))
  obtain ⟨subset, hs, hsub, ⟨-, rfl⟩ | ⟨-, i, rfl⟩⟩ := mem_delegated hmem
  · obtain ⟨k, E, -, -, -, hcut, -⟩ := h.exists_cut hp hs
    exact hcut.stands ⟨(pairwise_flatMap.mp hord.clear).1 subset hs, fun i hi =>
      hord.self i (mem_flatMap.mpr ⟨subset, hs, hi⟩)⟩ fun i hi =>
        hfull i (mem_flatMap.mpr ⟨subset, hs, hi⟩)
  · have hi := mem_flatMap.mpr ⟨subset, hs, hsub (mem_singleton_self i)⟩
    exact .refl (hord.self i hi) (hfull i hi)

theorem Dataflow.shown (h : Dataflow s kernels) (ht : t ∈ s.outputs ∨
    ∃ p ∈ s.delegated kernels subsets, t ∈ p.1.reads) : Shown (s.delegated kernels subsets) t := by
  intro q hq hw
  obtain ⟨b, hb, -, ⟨hpb, rfl⟩ | ⟨-, i, rfl⟩⟩ := mem_delegated hq
  · obtain ⟨m, E', hm, hE', -, -, hout⟩ := h.exists_cut hp hb
    refine hout t hw (ht.imp_right fun ht => ?_)
    obtain ⟨p, hmem, ht⟩ := ht
    obtain ⟨⟨j, hj, hr⟩, hno⟩ := (h.stands hp p hmem).reads t ht
    obtain ⟨a, ha, hsub, hcase⟩ := mem_delegated hmem
    obtain ⟨k, E, hk, hE, hprogram, -⟩ := h.exists_cut hp ha
    -- the node that reads the tensor is in another subset
    have hne : a ≠ b := by
      rintro rfl
      obtain ⟨-, rfl⟩ | ⟨hpa, -⟩ := hcase
      · exact hno hw
      · exact hpa hpb
    obtain ⟨x, hx, rfl⟩ := mem_map.mp (hprogram ▸ hsub hj)
    have hnd : batches.flatten.Nodup := hp.once.nodup_iff.mpr nodup_range
    refine ⟨x, ?_, fun hx' => hne ?_, hr⟩
    · exact mem_range.mp (hp.once.mem_iff.mp (mem_flatten.mpr ⟨E, mem_of_getElem? hE, hx⟩))
    · obtain rfl := getElem?_inj_of_nodup_flatten hnd hE hE' hx hx'
      exact Option.some.inj (hk.symm.trans hm)
  · simpa using hw

end

/-- Two branches, of which a delegate takes one and the ends. -/
def twoBranches : Subgraph := { Subgraph.ofNodes
  [{ inputs := [0], outputs := [1] }, { inputs := [1, -1], outputs := [2] },
    { inputs := [1], outputs := [3] }, { inputs := [2, 3], outputs := [4] }] with outputs := [4] }

/-- Each node lists itself and what its inputs list. -/
def listNodes : Kernels (List Nat) := fun n vs => some [n :: vs.flatten]

end LiteRt.Tflite
