import LiteRt.Tflite.NodeSubsets

/-!
# Previewed partitions

A delegate previews the subsets that its supported nodes yield, keeps some of them and
has only their nodes replaced. The nodes left out become ordinary ones, which merges the
epochs between the kept subsets but leaves the kept subsets as they were.
-/

namespace LiteRt.Tflite

open LiteRt.Lib List

theorem forall₂_filter {α β : Type*} {R : α → β → Prop} {f : α → Bool} {g : β → Bool} {l : List α}
    {l' : List β} (h : List.Forall₂ R l l') (hfg : ∀ a ∈ l, ∀ b ∈ l', R a b → f a = g b) :
    List.Forall₂ R (l.filter f) (l'.filter g) := by
  induction h with
  | nil => exact .nil
  | cons hab _ ih =>
    have ih' := ih fun a ha b hb => hfg a (mem_cons_of_mem _ ha) b (mem_cons_of_mem _ hb)
    have he := hfg _ (mem_cons_self ..) _ (mem_cons_self ..) hab
    rw [filter_cons, filter_cons, he]
    split
    · exact .cons hab ih'
    · exact ih'

theorem forall₂_comp {α β γ : Type*} {R : α → β → Prop} {S : γ → β → Prop} {T : α → γ → Prop}
    {l : List α} {l' : List β} {l'' : List γ} (h : List.Forall₂ R l l') (h' : List.Forall₂ S l'' l')
    (hT : ∀ a b c, R a b → S c b → T a c) : List.Forall₂ T l l'' := by
  induction h generalizing l'' with
  | nil =>
    cases h'
    exact .nil
  | cons hab _ ih =>
    cases h' with
    | cons hcb h' => exact .cons (hT _ _ _ hab hcb) (ih h')

/-- The same nodes and inputs, and the same outputs among the tensors with `T`. -/
structure NodeSubset.Same (T : TensorIndex → Prop) (subset subset' : NodeSubset) : Prop where
  nodes : subset'.nodes = subset.nodes
  inputTensors : subset'.inputTensors = subset.inputTensors
  outputTensors : ∀ t, T t → (t ∈ subset'.outputTensors ↔ t ∈ subset.outputTensors)

/-- The plan lists no node twice. -/
def GraphInfo.NodesDistinct (info : GraphInfo) : Prop :=
  ∀ i < info.numExecutionNodes, ∀ j < info.numExecutionNodes,
    info.nodeIndex i = info.nodeIndex j → i = j

namespace Partitioner

variable {p : Partitioner} {subsets : List NodeSubset} {subset : NodeSubset} {E : List Nat}

/-- What a subset says about its batch. -/
structure Holds (p : Partitioner) (subset : NodeSubset) (E : List Nat) : Prop where
  nodes : subset.nodes = E.map fun i => (p.info.nodeIndex i : Int)
  inputTensors : subset.inputTensors = uniquefy (· ≤ ·) (p.inputsFrom [] E)
  outputTensors : ∀ t, p.info.OneProducer t → (t ∈ subset.outputTensors ↔
    (∃ j ∈ E, p.Writes j t) ∧ (t ∈ p.info.outputs ∨
      ∃ i < p.info.numExecutionNodes, i ∉ E ∧ p.Reads i t))
  type : ∀ i ∈ E, subset.type = p.nodeType (p.info.nodeIndex i)

theorem Partitions.holds (h : p.Partitions subsets) {k : Nat} (hk : p.schedule[k]? = some E)
    (hs : subsets[k]? = some subset) : p.Holds subset E := by
  obtain ⟨h1, h2, -, h4⟩ := h.subset k E subset hk hs
  exact ⟨h1, h2, fun t ht => h.mem_outputTensors ht hk hs, h4⟩

theorem Partitions.mem_nodesToPartition (h : p.Partitions subsets) (hm : subset ∈ subsets)
    (ht : subset.type = .partition) {node : Int} (hnode : node ∈ subset.nodes) :
    node ∈ p.nodesToPartition := by
  have htype := h.partitionsPlan.type subset hm node hnode
  by_contra hn
  rw [ht, if_neg hn] at htype
  cases htype

/-- A subset is to be replaced when its batch is. -/
theorem Holds.type_iff (h : p.Holds subset E) (hne : E ≠ [])
    (hc : ∀ i ∈ E, ∀ j ∈ E, p.isPartition i = p.isPartition j) :
    decide (subset.type = .partition) = E.all p.isPartition := by
  obtain ⟨i, hi⟩ := exists_mem_of_ne_nil E hne
  have hiff : p.nodeType (p.info.nodeIndex i) = .partition ↔ p.isPartition i = true := by
    rw [nodeType, isPartition, decide_eq_true_eq]
    split <;> simp_all
  rw [h.type i hi, Bool.eq_iff_iff, all_eq_true, decide_eq_true_eq, hiff]
  exact ⟨fun ht j hj => (hc j hj i hi).trans ht, fun ht => ht i hi⟩

section
variable (h : p.Partitions subsets) (hd : p.info.NodesDistinct) {E : List Nat} {subset : NodeSubset}
  {i : Nat}

include h hd

/-- A node lies in one batch, and in the subset of that batch only. -/
theorem Partitions.mem_nodes_iff {k m : Nat} (hk : p.schedule[k]? = some E)
    (hs : subsets[m]? = some subset) (hi : i ∈ E) :
    (p.info.nodeIndex i : Int) ∈ subset.nodes ↔ m = k := by
  have hlt := (List.getElem?_eq_some_iff.mp hs).1
  rw [h.length] at hlt
  have hm := getElem?_eq_getElem hlt
  have hpos {k : Nat} {E : List Nat} (hk : p.schedule[k]? = some E) {i : Nat} (hi : i ∈ E) :
      i < p.info.numExecutionNodes :=
    mem_range.mp (tracks_schedule.mem E (mem_of_getElem? hk) i hi)
  rw [(h.holds hm hs).nodes, mem_map]
  constructor
  · rintro ⟨j, hj, he⟩
    obtain rfl := hd j (hpos hm hj) i (hpos hk hi) (Int.ofNat.inj he)
    exact getElem?_inj_of_nodup_flatten tracks_schedule.nodup hm hk hj hi
  · rintro rfl
    rw [hk, Option.some.injEq] at hm
    exact ⟨i, hm ▸ hi, rfl⟩

variable {p' : Partitioner} {f : NodeSubset → Bool}

/-- The nodes of the chosen subsets, by batch. -/
theorem Partitions.mem_chosen_iff {k : Nat} (hk : p.schedule[k]? = some E)
    (hs : subsets[k]? = some subset) (hi : i ∈ E) :
    (p.info.nodeIndex i : Int) ∈ (subsets.filter f).flatMap NodeSubset.nodes ↔ f subset = true := by
  rw [mem_flatMap]
  constructor
  · rintro ⟨subset', hm, hn⟩
    obtain ⟨hm, hf⟩ := mem_filter.mp hm
    obtain ⟨m, hm⟩ := mem_iff_getElem?.mp hm
    obtain rfl := (h.mem_nodes_iff hd hk hm hi).mp hn
    rw [hs, Option.some.injEq] at hm
    exact hm ▸ hf
  · intro hf
    exact ⟨subset, mem_filter.mpr ⟨mem_of_getElem? hs, hf⟩, (h.mem_nodes_iff hd hk hs hi).mpr rfl⟩

end

/-- Only the chosen nodes are to be replaced. -/
abbrev choose (p : Partitioner) (nodes : List Int) : Partitioner :=
  { p with nodesToPartition := nodes }

@[simp] theorem choose_inputsFrom (nodes : List Int) (pre E : List Nat) :
    (p.choose nodes).inputsFrom pre E = p.inputsFrom pre E := by
  induction E generalizing pre with
  | nil => rfl
  | cons i E ih => rw [inputsFrom, inputsFrom, ih]

/-- Partitioning again with the nodes of chosen subsets. -/
theorem Partitions.choose (h : p.Partitions subsets) (hd : p.info.NodesDistinct)
    (hg : p.greedily = true) (hfuse : p.disableNodeFusion = false) (f : NodeSubset → Bool)
    (hf : ∀ subset ∈ subsets, f subset = true → subset.type = .partition) :
    ∃ subsets', (p.choose ((subsets.filter f).flatMap NodeSubset.nodes)).partition = some subsets' ∧
      List.Forall₂ (NodeSubset.Same p.info.OneProducer) (subsets.filter f)
        (subsets'.filter fun subset => decide (subset.type = .partition)) := by
  set p' := p.choose ((subsets.filter f).flatMap NodeSubset.nodes) with hp'
  have hsubset {k : Nat} {E : List Nat} (hk : p.schedule[k]? = some E) :
      ∃ subset, subsets[k]? = some subset := by
    have hlt := (List.getElem?_eq_some_iff.mp hk).1
    rw [← h.length] at hlt
    exact ⟨_, getElem?_eq_getElem hlt⟩
  have hchosen {k : Nat} {E : List Nat} {subset : NodeSubset} (hk : p.schedule[k]? = some E)
      (hs : subsets[k]? = some subset) {i : Nat} (hi : i ∈ E) : p'.isPartition i = f subset := by
    rw [isPartition, Bool.eq_iff_iff, decide_eq_true_eq]
    exact h.mem_chosen_iff hd hk hs hi
  have hlen : (p.batching.left []).length < p.info.numExecutionNodes + 1 :=
    Nat.lt_succ_of_le ((Batching.length_left_le _).trans (Nat.le_of_eq length_range))
  have hsub (i : Nat) (hi : p'.isPartition i = true) : p.isPartition i = true := by
    rw [isPartition, decide_eq_true_eq] at hi ⊢
    obtain ⟨subset, hm, hi⟩ := mem_flatMap.mp hi
    obtain ⟨hm, hsel⟩ := mem_filter.mp hm
    exact h.mem_nodesToPartition hm (hf subset hm hsel) hi
  have hconst (E : List Nat) (hE : E ∈ p.schedule) :
      ∀ i ∈ E, ∀ j ∈ E, p'.isPartition i = p'.isPartition j := by
    intro i hi j hj
    obtain ⟨k, hk⟩ := mem_iff_getElem?.mp hE
    obtain ⟨subset, hs⟩ := hsubset hk
    rw [hchosen hk hs hi, hchosen hk hs hj]
  -- the chosen batches stay
  have hfilter : p'.schedule.filter (fun E => E.all p'.isPartition) =
      p.schedule.filter fun E => E.all p'.isPartition :=
    (Batching.batches_retype (b := p.batching) (t := p'.isPartition) p.batching_monotone hg
      (by simp [batching, hfuse]) hsub _ hlen hconst hlen).1 fun _ => .rfl
  -- the nodes are scheduled again
  have hcover : p.schedule.flatten ⊆ [] ++ p'.schedule.flatten := by
    refine Batching.subset_batches (b := p'.batching) p'.batching_monotone hlen
      (fun i hi => h.perm.mem_iff.mp hi) fun pre i post hs => ?_
    rw [nil_append]
    exact decide_eq_true (ready_of_schedule (p := p) hs)
  obtain ⟨subsets', hs', h'⟩ := partition_spec (p := p') fun i hi => hcover (h.all i hi)
  refine ⟨subsets', hs', ?_⟩
  have hall {E : List Nat} (hE : E ∈ p.schedule) {v : Bool}
      (hv : ∀ i ∈ E, p'.isPartition i = v) : E.all p'.isPartition = v := by
    obtain ⟨i, hi⟩ := exists_mem_of_ne_nil E (Batching.ne_nil_of_mem_batches hE)
    cases v with
    | true => exact all_eq_true.mpr hv
    | false => exact all_eq_false.mpr ⟨i, hi, by simp [hv i hi]⟩
  have hfirst := forall₂_filter (f := f) (g := fun E => E.all p'.isPartition)
    (h.forall₂ (R := fun subset E => p.Holds subset E ∧ E ∈ p.schedule ∧
      ∀ i ∈ E, p'.isPartition i = f subset) fun k E subset hk hs =>
        ⟨h.holds hk hs, mem_of_getElem? hk, fun i hi => hchosen hk hs hi⟩)
    fun subset _ E _ hR => (hall hR.2.1 hR.2.2).symm
  have hsecond := forall₂_filter (f := fun subset => decide (subset.type = .partition))
    (g := fun E => E.all p'.isPartition)
    (h'.forall₂ (R := fun subset E => p'.Holds subset E ∧ E ∈ p'.schedule) fun k E subset hk hs =>
      ⟨h'.holds hk hs, mem_of_getElem? hk⟩)
    fun subset _ E _ hR => hR.1.type_iff (Batching.ne_nil_of_mem_batches hR.2)
      (Batching.type_eq_of_mem_batches hR.2)
  rw [hfilter] at hsecond
  refine forall₂_comp hfirst hsecond fun subset E subset' hR hR' => ?_
  exact {
    nodes := hR'.1.nodes.trans hR.1.nodes.symm
    inputTensors := by rw [hR'.1.inputTensors, hR.1.inputTensors, hp', choose_inputsFrom]
    outputTensors := fun t ht => (hR'.1.outputTensors t ht).trans (hR.1.outputTensors t ht).symm }

end Partitioner

end LiteRt.Tflite
