import LiteRt.Lib.Groups
import LiteRt.Lib.Run
import LiteRt.Tflite.NodeSubsets
import LiteRt.Tflite.Kernels

/-!
# Control edges under several delegates

The control edges of a model name its original nodes, but the partitioner reads them as
positions of the current execution plan. As long as that reading still orders the nodes
that stand for the original ones, every replacement respects them.
-/

namespace LiteRt.Tflite

open LiteRt.Lib Subgraph Relation List

/-! ## Partitioning without cycles -/

/-- The node at `i` comes before the node at `j`: it produces an input of that, or a
control edge says so. -/
def GraphInfo.Before (info : GraphInfo) (edges : List ControlEdge) (i j : Nat) : Prop :=
  i < info.numExecutionNodes ∧ j < info.numExecutionNodes ∧
    ((∃ t, info.Writes i t ∧ info.Reads j t) ∨ ((i : Int), (j : Int)) ∈ edges)

theorem isValidIndex_iff {index : Int} {size : Nat} :
    isValidIndex index size = true ↔ ∃ i < size, index = (i : Int) := by
  rw [isValidIndex, Bool.and_eq_true, decide_eq_true_iff, decide_eq_true_iff]
  constructor
  · rintro ⟨h0, hlt⟩
    obtain ⟨i, rfl⟩ := Int.eq_ofNat_of_zero_le h0
    exact ⟨i, by omega, rfl⟩
  · rintro ⟨i, hi, rfl⟩
    exact ⟨by omega, by omega⟩

section
variable {info : GraphInfo} {nodesToPartition : List Int} {greedily fuse : Bool}
  {edges : List ControlEdge}

/-- Without cycles the partitioner reaches every node. -/
theorem exists_partitionGraph (hnodes : validateNodesToPartition info nodesToPartition = true)
    (hedges : validateControlEdges info edges = true)
    (hacyclic : ∀ i, ¬ TransGen (info.Before edges) i i) :
    ∃ subsets, partitionGraphIntoIndependentNodeSubsets info nodesToPartition greedily (some edges)
      fuse = some subsets := by
  set p := Partitioner.make info nodesToPartition greedily edges fuse with hp
  have hall : ∀ j ∈ p.positions, j ∈ p.schedule.flatten := by
    intro j hj
    refine acyclic_induction (fun i j h => ⟨h.1, h.2.1⟩) hacyclic (fun j hj ih => ?_)
      (mem_range.mp hj)
    by_contra hnot
    have hfuel : (p.batching.left []).length < info.numExecutionNodes + 1 := by
      refine Nat.lt_succ_of_le ((Batching.length_left_le _).trans (Nat.le_of_eq ?_))
      exact length_range
    have hready := Batching.batches_closed hfuel j (mem_range.mpr hj) hnot
    refine absurd (decide_eq_true ?_) (Bool.eq_false_iff.mp hready)
    -- what the node waits for is scheduled
    refine ⟨fun t ht ho hprod => ?_, fun e he hej => ?_⟩
    · obtain ⟨i, hi, hw⟩ := hprod
      exact ⟨i, ih i ⟨mem_range.mp hi, hj, .inl ⟨t, hw, ho, ht⟩⟩, hw⟩
    · replace he : e ∈ edges := mem_uniquefy.mp he
      have hvalid := all_eq_true.mp hedges e he
      obtain ⟨i, hi, hei⟩ := isValidIndex_iff.mp (Bool.and_eq_true_iff.mp hvalid).1
      refine ⟨i, ih i ⟨hi, hj, .inr ?_⟩, hei⟩
      rwa [← hei, ← hej]
  obtain ⟨subsets, hs, -⟩ := Partitioner.partition_spec hall
  exact ⟨subsets, partitionGraph_eq_some_iff.mpr ⟨hnodes, hedges, hs⟩⟩

/-- The order of the batches respects what comes before what, in several steps too. -/
theorem PartitionsPlan.mem_of_before {subsets : List NodeSubset} {batches : List (List Nat)}
    (h : PartitionsPlan info nodesToPartition edges info.OneProducer subsets batches)
    (hone : ∀ t, info.OneProducer t) {i j : Nat} (hij : TransGen (info.Before edges) i j)
    {pre post : List Nat} (hsplit : batches.flatten = pre ++ j :: post) : i ∈ pre := by
  have hstep {i j : Nat} {pre post : List Nat} (hsplit : batches.flatten = pre ++ j :: post)
      (hij : info.Before edges i j) : i ∈ pre := by
    obtain ⟨hi, hj, ⟨t, hw, hr⟩ | he⟩ := hij
    · exact h.producers pre j post hsplit t (hone t) hr i hi hw
    · obtain ⟨k, hk, hik⟩ := h.control pre j post hsplit _ he rfl
      rwa [Int.ofNat.inj hik]
  induction hij generalizing pre post with
  | single hij => exact hstep hsplit hij
  | tail _ hkj ih =>
    obtain ⟨pre', post', rfl⟩ := append_of_mem (hstep hsplit hkj)
    exact mem_append_left _ (ih (by rw [hsplit, append_assoc]; rfl))

end

/-! ## The plan after a replacement -/

/-- The plan that lists the nodes of the subsets, or the kernels that replace them, which
are numbered from `next` on. -/
def planAfter (next : Nat) : List NodeSubset → List Nat
  | [] => []
  | subset :: subsets =>
    if subset.type = .partition then next :: planAfter (next + 1) subsets
    else subset.nodes.map Int.toNat ++ planAfter next subsets

def originalsAfter (original : Nat → List Int) (next : Nat) : List NodeSubset → Nat → List Int
  | [] => original
  | subset :: subsets =>
    if subset.type = .partition then
      Function.update (originalsAfter original (next + 1) subsets) next
        (subset.nodes.flatMap fun n => original n.toNat)
    else originalsAfter original next subsets

section
variable {next : Nat} {subsets : List NodeSubset} {original : Nat → List Int}

/-- What the new plan looks like through a function of its nodes. -/
theorem map_planAfter {β : Type*} {f f' : Nat → β} {g : NodeSubset → β}
    (hold : ∀ subset ∈ subsets, subset.type ≠ .partition → ∀ n ∈ subset.nodes,
      f' n.toNat = f n.toNat)
    (hnew : ∀ k subset, (subsets.filter (·.type = .partition))[k]? = some subset →
      f' (next + k) = g subset) :
    (planAfter next subsets).map f' = subsets.flatMap fun subset =>
      if subset.type = .partition then [g subset] else subset.nodes.map fun n => f n.toNat := by
  induction subsets generalizing next with
  | nil => rfl
  | cons subset subsets ih =>
    rw [planAfter, flatMap_cons]
    have hold' := fun subset' hs' => hold subset' (mem_cons_of_mem _ hs')
    split
    · next ht =>
      rw [filter_cons_of_pos (by simpa using ht)] at hnew
      rw [map_cons, singleton_append,
        show f' next = g subset from hnew 0 subset rfl]
      refine congrArg _ (ih hold' fun k subset' hk => ?_)
      rw [Nat.add_assoc, Nat.add_comm 1]
      exact hnew (k + 1) subset' hk
    · next ht =>
      rw [filter_cons_of_neg (by simpa using ht)] at hnew
      rw [map_append, List.map_map, ih hold' hnew]
      refine congrArg (· ++ _) (map_congr_left fun n hn => ?_)
      exact hold subset (mem_cons_self ..) ht n hn

theorem mem_planAfter {m : Nat} (hm : m ∈ planAfter next subsets) :
    (∃ subset ∈ subsets, ∃ n ∈ subset.nodes, m = n.toNat) ∨
      ∃ k < (subsets.filter (·.type = .partition)).length, m = next + k := by
  induction subsets generalizing next with
  | nil => cases hm
  | cons subset subsets ih =>
    rw [planAfter] at hm
    split at hm
    · next ht =>
      rw [filter_cons_of_pos (by simpa using ht), length_cons]
      rcases mem_cons.mp hm with rfl | hm
      · exact .inr ⟨0, Nat.succ_pos _, rfl⟩
      · obtain ⟨subset', hs', h⟩ | ⟨k, hk, rfl⟩ := ih hm
        · exact .inl ⟨subset', mem_cons_of_mem _ hs', h⟩
        · exact .inr ⟨k + 1, Nat.succ_lt_succ hk, by omega⟩
    · next ht =>
      rw [filter_cons_of_neg (by simpa using ht)]
      rcases mem_append.mp hm with hm | hm
      · obtain ⟨n, hn, rfl⟩ := mem_map.mp hm
        exact .inl ⟨subset, mem_cons_self .., n, hn, rfl⟩
      · refine (ih hm).imp_left fun h => ?_
        obtain ⟨subset', hs', h⟩ := h
        exact ⟨subset', mem_cons_of_mem _ hs', h⟩

theorem originalsAfter_old {n : Nat} (hn : n < next) :
    originalsAfter original next subsets n = original n := by
  induction subsets generalizing next with
  | nil => rfl
  | cons subset subsets ih =>
    rw [originalsAfter]
    split
    · rw [Function.update_of_ne (Nat.ne_of_lt hn), ih (Nat.lt_succ_of_lt hn)]
    · exact ih hn

theorem originalsAfter_new {k : Nat} {subset : NodeSubset}
    (hk : (subsets.filter (·.type = .partition))[k]? = some subset) :
    originalsAfter original next subsets (next + k) =
      subset.nodes.flatMap fun n => original n.toNat := by
  induction subsets generalizing next k with
  | nil => simp at hk
  | cons subset' subsets ih =>
    rw [originalsAfter]
    split
    · next ht =>
      rw [filter_cons_of_pos (by simpa using ht)] at hk
      cases k with
      | zero =>
        obtain rfl : subset' = subset := by simpa using hk
        exact Function.update_self ..
      | succ k =>
        rw [Function.update_of_ne (by omega), show next + (k + 1) = next + 1 + k by omega]
        exact ih hk
    · next ht =>
      rw [filter_cons_of_neg (by simpa using ht)] at hk
      exact ih hk

end

/-! ## Adding the kernels -/

/-- `s'` has more nodes than `s`, and `plan` behind its plan. -/
structure Appended (delegate : DelegateId) (s s' : Subgraph) (plan : List Nat)
    (nodes : List NodeAndRegistration) : Prop where
  executionPlan : s'.executionPlan = s.executionPlan ++ plan
  nodesAndRegistration : s'.nodesAndRegistration = s.nodesAndRegistration ++ nodes
  tensorsSize : s'.tensorsSize = s.tensorsSize
  controlEdges : s'.controlEdges = s.controlEdges
  state : s.state ≠ .invokableAndImmutable → s'.state ≠ .invokableAndImmutable
  delegate : ∀ t, (s'.tensors t).delegate = (s.tensors t).delegate ∨
    (s'.tensors t).delegate = some delegate

/-- The indices are those of tensors, or of none. -/
def Subgraph.ValidTensors (s : Subgraph) (indices : List TensorIndex) : Prop :=
  ∀ t ∈ indices, t = kTfLiteOptionalTensor ∨ isValidIndex t s.tensorsSize = true

/-- A delegate kernel with the tensors of the subset can be added. -/
structure KernelFits (delegate : DelegateId) (s : Subgraph) (subset : NodeSubset) : Prop where
  inputs : s.ValidTensors subset.inputTensors
  outputs : s.ValidTensors subset.outputTensors
  disjoint : ∀ t ∈ subset.inputTensors, t ∉ subset.outputTensors
  delegate : ∀ t ∈ subset.outputTensors, (s.tensors t).delegate.all (· == delegate) = true

def IsKernel (node : NodeAndRegistration) (subset : NodeSubset) : Prop :=
  node.inputs = subset.inputTensors ∧ node.outputs = subset.outputTensors

section
variable {env : Env} {delegate : DelegateId} {s s' : Subgraph} {subset : NodeSubset}

theorem Appended.refl (s : Subgraph) : Appended delegate s s [] [] where
  executionPlan := (append_nil _).symm
  nodesAndRegistration := (append_nil _).symm
  tensorsSize := rfl
  controlEdges := rfl
  state := id
  delegate _ := .inl rfl

theorem Appended.trans {s'' : Subgraph} {plan plan' : List Nat}
    {nodes nodes' : List NodeAndRegistration} (h : Appended delegate s s' plan nodes)
    (h' : Appended delegate s' s'' plan' nodes') :
    Appended delegate s s'' (plan ++ plan') (nodes ++ nodes') where
  executionPlan := by rw [h'.executionPlan, h.executionPlan, append_assoc]
  nodesAndRegistration := by
    rw [h'.nodesAndRegistration, h.nodesAndRegistration, append_assoc]
  tensorsSize := h'.tensorsSize.trans h.tensorsSize
  controlEdges := h'.controlEdges.trans h.controlEdges
  state := fun hs => h'.state (h.state hs)
  delegate t := (h'.delegate t).elim (fun ht => (h.delegate t).imp ht.trans ht.trans) .inr

theorem Appended.kernelFits {plan : List Nat} {nodes : List NodeAndRegistration}
    (h : Appended delegate s s' plan nodes) (hfits : KernelFits delegate s subset) :
    KernelFits delegate s' subset where
  inputs := by
    rw [ValidTensors, h.tensorsSize]
    exact hfits.inputs
  outputs := by
    rw [ValidTensors, h.tensorsSize]
    exact hfits.outputs
  disjoint := hfits.disjoint
  delegate t ht := by
    rcases h.delegate t with hd | hd
    · rw [hd]
      exact hfits.delegate t ht
    · simp [hd]

theorem ends_checkTensorIndices {indices : List TensorIndex} (h : s.ValidTensors indices) :
    Ends (checkTensorIndices indices) s (fun _ s' => s' = s) fun _ _ => False := by
  refine ends_get ?_
  rw [if_pos (all_eq_true.mpr fun t ht => ?_)]
  · exact ends_pure rfl
  · simpa using h t ht

theorem ends_checkInputAndOutputForOverlap {inputs outputs : List TensorIndex}
    (h : ∀ t ∈ inputs, t ∉ outputs) : Ends (checkInputAndOutputForOverlap inputs outputs) s
      (fun _ s' => s' = s) fun _ _ => False := by
  rw [checkInputAndOutputForOverlap, if_neg]
  · exact ends_pure rfl
  · simpa using h

theorem ends_addNodeWithParameters {node : NodeAndRegistration} (hinit : ∀ s, env.opInit s node = true)
    (hstate : s.state ≠ .invokableAndImmutable) (hinputs : s.ValidTensors node.inputs)
    (houtputs : s.ValidTensors node.outputs) (hdisjoint : ∀ t ∈ node.inputs, t ∉ node.outputs) :
    Ends (addNodeWithParameters env node) s (fun n s' => n = s.nodesAndRegistration.length ∧
      ∃ node', node'.inputs = node.inputs ∧ node'.outputs = node.outputs ∧
        Appended delegate s s' [s.nodesAndRegistration.length] [node']) fun _ _ => False := by
  refine ends_get (Ends.bind (Q := fun _ s' => s' = s) (ends_ensure (fun _ => rfl) fun h => ?_)
    fun _ s₁ h₁ => ?_)
  · exact hstate (of_not_not (of_decide_eq_false h))
  subst h₁
  set s₂ : Subgraph := { s₁ with state := .uninvokable } with hs₂
  refine ends_modify_bind (Ends.bind (ends_checkTensorIndices (s := s₂) hinputs) fun _ s₃ h₃ => ?_)
  subst h₃
  refine Ends.bind (ends_checkTensorIndices (s := s₂) houtputs) fun _ s₃ h₃ => ?_
  subst h₃
  refine Ends.bind (Q := fun _ s' => s' = s₂)
    (ends_onlyIf (fun _ => ends_checkInputAndOutputForOverlap hdisjoint) fun _ => rfl)
    fun _ s₃ h₃ => ?_
  subst h₃
  refine ends_get ?_
  dsimp only
  rw [if_pos (hinit _)]
  refine ends_modify_bind (ends_modify_bind (ends_pure ⟨rfl, { node with
    mightHaveSideEffect := s₂.opMightHaveSideEffect node, delegate := none }, rfl, rfl, ?_⟩))
  exact { executionPlan := rfl, nodesAndRegistration := rfl, tensorsSize := rfl
          controlEdges := rfl, state := fun _ => by simp [setExecutionPlan, s₂]
          delegate := fun _ => .inl rfl }

theorem ends_setDelegate {ts : List TensorIndex}
    (h : ∀ t ∈ ts, (s.tensors t).delegate.all (· == delegate) = true) :
    Ends (setDelegate delegate ts) s (fun _ s' => Appended delegate s s' [] []) fun _ _ => False := by
  induction ts generalizing s with
  | nil => exact ends_pure (.refl s)
  | cons t ts ih =>
    refine ends_get (Ends.bind (Q := fun _ s' => s' = s) (ends_ensure (fun _ => rfl) fun h' => ?_)
      fun _ s₁ h₁ => ends_modify_bind ?_)
    · rw [h t (mem_cons_self ..)] at h'
      cases h'
    · subst h₁
      have hset (u : TensorIndex) : ((s₁.updateTensor t fun tensor =>
          { tensor with delegate := some delegate }).tensors u).delegate =
            if u = t then some delegate else (s₁.tensors u).delegate := by
        by_cases hu : u = t <;> simp [updateTensor, hu]
      have hstep : Appended delegate s₁ (s₁.updateTensor t fun tensor =>
          { tensor with delegate := some delegate }) [] [] :=
        { executionPlan := (append_nil _).symm
          nodesAndRegistration := (append_nil _).symm
          tensorsSize := rfl
          controlEdges := rfl
          state := id
          delegate := fun u => by
            rw [hset]
            split
            · exact .inr rfl
            · exact .inl rfl }
      refine (ih fun u hu => ?_).mono (fun _ _ h' => hstep.trans h') fun _ _ => id
      rw [hset]
      split
      · simp
      · exact h u (mem_cons_of_mem _ hu)

theorem ends_addNodeSubset (hinit : ∀ s node, node.builtinCode = .delegate → env.opInit s node = true)
    (hstate : s.state ≠ .invokableAndImmutable) (htype : subset.type ≠ .unexplored)
    (hfits : subset.type = .partition → KernelFits delegate s subset) :
    Ends (addNodeSubset env delegate subset) s (fun _ s' => ∃ nodes,
      Appended delegate s s' (planAfter s.nodesAndRegistration.length [subset]) nodes ∧
      List.Forall₂ IsKernel nodes ([subset].filter (·.type = .partition))) fun _ _ => False := by
  simp only [addNodeSubset, planAfter]
  split
  · next ht =>
    refine ends_modify ⟨[], ?_, by simp [ht]⟩
    rw [if_neg (by simp [ht]), append_nil]
    exact { executionPlan := rfl, nodesAndRegistration := (append_nil _).symm
            tensorsSize := rfl, controlEdges := rfl, state := id, delegate := fun _ => .inl rfl }
  · next ht =>
    rw [if_pos ht]
    have hfits := hfits ht
    refine (@ends_addNodeWithParameters env delegate s _ (fun s => hinit s _ rfl) hstate
        hfits.inputs
      hfits.outputs hfits.disjoint).bind fun n s₁ h₁ => ?_
    obtain ⟨rfl, node, hin, hout, h₁⟩ := h₁
    refine (ends_setDelegate (h₁.kernelFits hfits).delegate).bind fun _ s₂ h₂ => ends_modify ?_
    have h₂ := h₁.trans h₂
    refine ⟨[{ node with delegate := some delegate }], { h₂ with nodesAndRegistration := ?_ }, ?_⟩
    · rw [updateNode, h₂.nodesAndRegistration]
      dsimp only
      rw [modify_eq_take_cons_drop (by simp)]
      simp
    · simpa [ht] using ⟨hin, hout⟩
  · next ht => exact absurd ht htype

/-- All subsets are added, with a kernel for each one that is replaced. -/
theorem ends_addNodeSubsets
    (hinit : ∀ s node, node.builtinCode = .delegate → env.opInit s node = true)
    (hstate : s.state ≠ .invokableAndImmutable) {subsets : List NodeSubset}
    (htype : ∀ subset ∈ subsets, subset.type ≠ .unexplored)
    (hfits : ∀ subset ∈ subsets, subset.type = .partition → KernelFits delegate s subset) :
    Ends (addNodeSubsets env delegate subsets) s (fun _ s' => ∃ nodes,
      Appended delegate s s' (planAfter s.nodesAndRegistration.length subsets) nodes ∧
      List.Forall₂ IsKernel nodes (subsets.filter (·.type = .partition))) fun _ _ => False := by
  induction subsets generalizing s with
  | nil => exact ends_pure ⟨[], .refl s, .nil⟩
  | cons subset subsets ih =>
    refine (ends_addNodeSubset hinit hstate (htype subset (mem_cons_self ..))
      (hfits subset (mem_cons_self ..))).bind fun _ s₁ h₁ => ?_
    obtain ⟨nodes, h₁, hkernel⟩ := h₁
    refine (ih (h₁.state hstate) (fun subset' hs' => htype subset' (mem_cons_of_mem _ hs'))
      fun subset' hs' ht => h₁.kernelFits (hfits subset' (mem_cons_of_mem _ hs') ht)).mono
        (fun _ s' h' => ?_) fun _ _ => id
    obtain ⟨nodes', h', hkernel'⟩ := h'
    have hsplit : planAfter s.nodesAndRegistration.length (subset :: subsets) =
        planAfter s.nodesAndRegistration.length [subset] ++
          planAfter s₁.nodesAndRegistration.length subsets := by
      have hlen := hkernel.length_eq
      rw [h₁.nodesAndRegistration, length_append]
      simp only [planAfter]
      split
      · next ht =>
        rw [show nodes.length = 1 by simpa [ht] using hlen]
        rfl
      · next ht =>
        rw [show nodes.length = 0 by simpa [ht] using hlen]
        simp
    refine ⟨nodes ++ nodes', hsplit ▸ h₁.trans h', ?_⟩
    rw [show subset :: subsets = [subset] ++ subsets from rfl, filter_append]
    exact rel_append hkernel hkernel'

end

/-! ## One replacement -/

/-- The tensors of one node are not those of the other. -/
def Apart (ts ts' : List TensorIndex) : Prop := ∀ t ≠ kTfLiteOptionalTensor, t ∈ ts → t ∉ ts'

theorem Apart.symm {ts ts' : List TensorIndex} (h : Apart ts ts') : Apart ts' ts :=
  fun t ht h' h'' => h t ht h'' h'

/-- A subgraph whose nodes stand for the original nodes `0, …, n - 1`. -/
structure Standing (n : Nat) (edges : List ControlEdge) (s : Subgraph) (original : Nat → List Int) :
    Prop where
  plan : ∀ node ∈ s.executionPlan, node < s.nodesAndRegistration.length
  controlEdges : s.controlEdges = some edges
  state : s.state ≠ .invokableAndImmutable
  indices : ∀ node ∈ s.executionPlan, s.ValidTensors ((s.node node).inputs ++ (s.node node).outputs)
  outputs : (s.executionPlan.map fun node => (s.node node).outputs).Pairwise Apart
  once : (s.executionPlan.map original).flatten.Perm ((List.range n).map Nat.cast)

/-- The control edges, read as positions of the plan, still order the nodes that stand for
their ends. -/
structure Readable (edges : List ControlEdge) (s : Subgraph) (original : Nat → List Int) :
    Prop where
  positions : validateControlEdges s.info edges = true
  acyclic : ∀ i, ¬ TransGen (s.info.Before edges) i i
  stands : ∀ e ∈ edges, ∀ i < s.executionPlan.length, ∀ j < s.executionPlan.length,
    e.1 ∈ original (s.executionPlan.getD i 0) → e.2 ∈ original (s.executionPlan.getD j 0) →
      i = j ∨ TransGen (s.info.Before edges) i j

/-- A call of `ReplaceNodeSubsetsWithDelegateKernels`. -/
structure Replacement where
  nodesToReplace : List Int
  delegate : DelegateId

/-- The nodes are in the plan, and none of them writes tensors of other delegates. -/
structure Replacement.Fits (r : Replacement) (s : Subgraph) : Prop where
  nodes : ∀ node ∈ r.nodesToReplace, ∃ m ∈ s.executionPlan, node = (m : Int)
  delegate : ∀ node ∈ r.nodesToReplace, ∀ t ∈ (s.node node.toNat).outputs,
    t ≠ kTfLiteOptionalTensor → (s.tensors t).delegate.all (· == r.delegate) = true

theorem oneProducer_iff {s : Subgraph} : (∀ t, s.info.OneProducer t) ↔
    (s.executionPlan.map fun node => (s.node node).outputs).Pairwise Apart := by
  have hget {i : Nat} (hi : i < s.executionPlan.length) :
      s.executionPlan.getD i 0 = s.executionPlan[i] := by simp [hi]
  rw [pairwise_iff_getElem]
  simp only [length_map, getElem_map]
  constructor
  · intro h i j hi hj hij t ht hti htj
    refine Nat.ne_of_lt hij (h t i hi j hj ⟨ht, ?_⟩ ⟨ht, ?_⟩)
    · rwa [info_node, hget hi]
    · rwa [info_node, hget hj]
  · intro h t i hi j hj hwi hwj
    rw [info_numExecutionNodes] at hi hj
    rw [GraphInfo.Writes, info_node, hget hi] at hwi
    rw [GraphInfo.Writes, info_node, hget hj] at hwj
    rcases Nat.lt_trichotomy i j with hij | hij | hij
    · exact absurd hwj.2 (h i j hi hj hij t hwi.1 hwi.2)
    · exact hij
    · exact absurd hwi.2 (h j i hj hi hij t hwi.1 hwj.2)

section
variable {n : Nat} {edges : List ControlEdge} {s s' : Subgraph} {original : Nat → List Int}
  {r : Replacement} {subsets : List NodeSubset} {batches : List (List Nat)} {subset : NodeSubset}
  {T : TensorIndex → Prop} {nodes : List NodeAndRegistration}

/-- The subsets list the nodes of the plan. -/
theorem PartitionsPlan.perm_plan
    (h : PartitionsPlan s.info r.nodesToReplace edges T subsets batches) :
    (subsets.flatMap NodeSubset.nodes).Perm (s.executionPlan.map Nat.cast) := by
  rw [forall₂_flatten h.nodes]
  refine (h.once.map _).trans (List.Perm.of_eq ?_)
  refine ext_getElem (by simp) fun i h₁ h₂ => ?_
  simp only [getElem_map, getElem_range, info_nodeIndex]
  simp only [length_map] at h₂
  simp [h₂]

theorem PartitionsPlan.exists_of_mem
    (h : PartitionsPlan s.info r.nodesToReplace edges T subsets batches) (hs : subset ∈ subsets)
    {node : Int} (hn : node ∈ subset.nodes) :
    ∃ m ∈ s.executionPlan, node = (m : Int) := by
  have hmem := h.perm_plan.mem_iff.mp (mem_flatMap.mpr ⟨subset, hs, hn⟩)
  obtain ⟨m, hm, rfl⟩ := mem_map.mp hmem
  exact ⟨m, hm, rfl⟩

/-- What a subset lists, by the batch behind it. -/
theorem PartitionsPlan.exists_batch
    (h : PartitionsPlan s.info r.nodesToReplace edges s.info.OneProducer subsets batches)
    (hone : ∀ t, s.info.OneProducer t) (hs : subset ∈ subsets) :
    ∃ E : List Nat, (∀ i ∈ E, i < s.executionPlan.length) ∧
      subset.nodes = E.map (fun i => ((s.executionPlan.getD i 0 : Nat) : Int)) ∧
      (∀ t, t ∈ subset.inputTensors ↔ (∃ i ∈ E, s.info.Reads i t) ∧ ¬ ∃ j ∈ E, s.info.Writes j t) ∧
      ∀ t ∈ subset.outputTensors, ∃ j ∈ E, s.info.Writes j t := by
  obtain ⟨k, hk, rfl⟩ := mem_iff_getElem.mp hs
  have hk' : k < batches.length := h.nodes.length_eq ▸ hk
  have hin := (forall₂_iff_get.mp h.inputs).2 k hk hk'
  have hout := (forall₂_iff_get.mp h.outputs).2 k hk hk'
  refine ⟨batches[k], fun i hi => ?_, (forall₂_iff_get.mp h.nodes).2 k hk hk',
    fun t => hin t (hone t), fun t ht => ((hout t (hone t)).mp ht).1⟩
  have hmem := mem_flatten.mpr ⟨_, getElem_mem hk', hi⟩
  exact mem_range.mp (h.once.mem_iff.mp hmem)

/-- The kernels that replace subsets can be added. -/
theorem Standing.kernelFits (h : Standing n edges s original) (hfits : r.Fits s)
    (hp : PartitionsPlan s.info r.nodesToReplace edges s.info.OneProducer subsets batches)
    (hs : subset ∈ subsets) (ht : subset.type = .partition) :
    KernelFits r.delegate s subset := by
  obtain ⟨E, hlt, hnodes, hin, hout⟩ := hp.exists_batch (oneProducer_iff.mpr h.outputs) hs
  have hplan {i : Nat} (hi : i ∈ E) : s.executionPlan.getD i 0 ∈ s.executionPlan := by
    rw [getD_eq_getElem?_getD, getElem?_eq_getElem (hlt i hi)]
    exact getElem_mem _
  have hvalid {i : Nat} (hi : i ∈ E) := h.indices _ (hplan hi)
  refine ⟨fun t ht => ?_, fun t ht => ?_, fun t hi ho => ?_, fun t ho => ?_⟩
  · obtain ⟨⟨i, hi, hr⟩, -⟩ := (hin t).mp ht
    exact hvalid hi t (mem_append_left _ hr.2)
  · obtain ⟨j, hj, hw⟩ := hout t ht
    exact hvalid hj t (mem_append_right _ hw.2)
  · exact ((hin t).mp hi).2 (hout t ho)
  · obtain ⟨j, hj, hw⟩ := hout t ho
    have hmem : ((s.executionPlan.getD j 0 : Nat) : Int) ∈ subset.nodes := by
      rw [hnodes]
      exact mem_map.mpr ⟨j, hj, rfl⟩
    have hreplace : ((s.executionPlan.getD j 0 : Nat) : Int) ∈ r.nodesToReplace := by
      by_contra hno
      have htype := hp.type subset hs _ hmem
      rw [if_neg hno, ht] at htype
      cases htype
    refine hfits.delegate _ hreplace t ?_ hw.1
    rw [Int.toNat_natCast]
    exact hw.2

/-- The scheduled nodes respect the control edges. -/
theorem Standing.respects (h : Standing n edges s original) (hread : Readable edges s original)
    (hedges : ∀ e ∈ edges, ∃ i < n, e.1 = (i : Int))
    (hp : PartitionsPlan s.info r.nodesToReplace edges s.info.OneProducer subsets batches) :
    Respects (fun a b => (a, b) ∈ edges)
      ((subsets.flatMap NodeSubset.nodes).map fun node => original node.toNat) := by
  rw [forall₂_flatten hp.nodes, List.map_map, respects_map]
  intro pre j post hsplit b hb a hab
  have hlt {i : Nat} (hi : i ∈ pre ++ j :: post) : i < s.executionPlan.length :=
    mem_range.mp (hp.once.mem_iff.mp (hsplit ▸ hi))
  -- the position of the node that stands for the source
  obtain ⟨i, hi, ha⟩ : ∃ i < s.executionPlan.length, a ∈ original (s.executionPlan.getD i 0) := by
    obtain ⟨k, hk, rfl⟩ := hedges (a, b) hab
    have hmem := h.once.mem_iff.mpr (mem_map.mpr ⟨k, mem_range.mpr hk, rfl⟩)
    obtain ⟨g, hg, hkg⟩ := mem_flatten.mp hmem
    obtain ⟨node, hnode, rfl⟩ := mem_map.mp hg
    obtain ⟨i, hi, rfl⟩ := mem_iff_getElem.mp hnode
    exact ⟨i, hi, by simpa [hi] using hkg⟩
  refine ⟨i, ?_, by simpa using ha⟩
  rcases hread.stands (a, b) hab i hi j (hlt (by simp)) ha (by simpa using hb) with rfl | hij
  · simp
  · exact mem_append_left _ (hp.mem_of_before (oneProducer_iff.mpr h.outputs) hij hsplit)

/-- What a new plan shows of a node: its inputs, its outputs and what it stands for. -/
def Subgraph.face (s : Subgraph) (original : Nat → List Int) (node : Nat) :
    List TensorIndex × List TensorIndex × List Int :=
  ((s.node node).inputs, (s.node node).outputs, original node)

/-- The new plan, through its nodes. -/
theorem Standing.map_face (h : Standing n edges s original)
    (hp : PartitionsPlan s.info r.nodesToReplace edges s.info.OneProducer subsets batches)
    (happ : Appended r.delegate (s.setExecutionPlan []) s' (planAfter s.nodesAndRegistration.length
      subsets) nodes)
    (hkernels : List.Forall₂ IsKernel nodes (subsets.filter (·.type = .partition))) :
    s'.executionPlan.map (s'.face (originalsAfter original s.nodesAndRegistration.length subsets)) =
      subsets.flatMap fun subset => if subset.type = .partition then
        [(subset.inputTensors, subset.outputTensors,
          subset.nodes.flatMap fun node => original node.toNat)]
      else subset.nodes.map fun node => s.face original node.toNat := by
  rw [show s'.executionPlan = _ from happ.executionPlan, Subgraph.setExecutionPlan, nil_append]
  refine map_planAfter (fun subset hs _ node hnode => ?_) fun k subset hk => ?_
  · obtain ⟨m, hm, rfl⟩ := hp.exists_of_mem hs hnode
    have hlt := h.plan m hm
    have hnode : s'.node m = s.node m := by
      rw [Subgraph.node, Subgraph.node, happ.nodesAndRegistration]
      simp [setExecutionPlan, getElem?_append_left hlt]
    rw [Int.toNat_natCast, face, face, originalsAfter_old hlt, hnode]
  · obtain ⟨hk', rfl⟩ := List.getElem?_eq_some_iff.mp hk
    have hlt : k < nodes.length := hkernels.length_eq ▸ hk'
    have hnode : s'.node (s.nodesAndRegistration.length + k) = nodes[k] := by
      rw [Subgraph.node, happ.nodesAndRegistration]
      simp [setExecutionPlan, hlt]
    obtain ⟨hin, hout⟩ := (forall₂_iff_get.mp hkernels).2 k hlt hk'
    rw [face, originalsAfter_new hk, hnode]
    exact congrArg₂ Prod.mk hin (congrArg₂ Prod.mk hout rfl)

/-- The tensors of the new nodes. -/
theorem Standing.outputs_after (h : Standing n edges s original)
    (hp : PartitionsPlan s.info r.nodesToReplace edges s.info.OneProducer subsets batches) :
    (subsets.flatMap fun subset => if subset.type = .partition then [subset.outputTensors]
      else subset.nodes.map fun node => (s.node node.toNat).outputs).Pairwise Apart := by
  have hold : (subsets.flatMap fun subset =>
      subset.nodes.map fun node => (s.node node.toNat).outputs).Pairwise Apart := by
    rw [← map_flatMap]
    refine ((hp.perm_plan.map _).pairwise_iff fun h => h.symm).mpr ?_
    rw [List.map_map]
    exact h.outputs
  rw [pairwise_flatMap] at hold ⊢
  -- a kernel writes what its nodes write
  have hcover {subset : NodeSubset} (hs : subset ∈ subsets) {ts : List TensorIndex}
      (hts : ts ∈ if subset.type = .partition then [subset.outputTensors]
        else subset.nodes.map fun node => (s.node node.toNat).outputs) (t : TensorIndex) (ht : t ∈ ts) :
      ∃ ts' ∈ subset.nodes.map fun node => (s.node node.toNat).outputs, t ∈ ts' := by
    split at hts
    · obtain rfl := mem_singleton.mp hts
      obtain ⟨E, -, hnodes, -, hout⟩ := hp.exists_batch (oneProducer_iff.mpr h.outputs) hs
      obtain ⟨j, hj, hw⟩ := hout t ht
      refine ⟨_, mem_map.mpr ⟨((s.executionPlan.getD j 0 : Nat) : Int), ?_, rfl⟩, ?_⟩
      · rw [hnodes]
        exact mem_map.mpr ⟨j, hj, rfl⟩
      · rw [Int.toNat_natCast]
        exact hw.2
    · exact ⟨ts, hts, ht⟩
  refine ⟨fun subset hs => ?_, hold.2.imp_of_mem fun {subset subset'} hs hs' hap ts hts ts' hts' => ?_⟩
  · split
    · exact pairwise_singleton _ _
    · exact hold.1 subset hs
  · intro t ho ht ht'
    obtain ⟨us, hus, ht⟩ := hcover hs hts t ht
    obtain ⟨us', hus', ht'⟩ := hcover hs' hts' t ht'
    exact hap us hus us' hus' t ho ht ht'

/-- After the kernels are added the nodes stand for the same original ones, in order. -/
theorem Standing.appended (h : Standing n edges s original) (hfits : r.Fits s)
    (hread : Readable edges s original) (hedges : ∀ e ∈ edges, ∃ i < n, e.1 = (i : Int))
    (hp : PartitionsPlan s.info r.nodesToReplace edges s.info.OneProducer subsets batches)
    (happ : Appended r.delegate (s.setExecutionPlan []) s' (planAfter s.nodesAndRegistration.length
      subsets) nodes)
    (hkernels : List.Forall₂ IsKernel nodes (subsets.filter (·.type = .partition))) :
    Standing n edges s' (originalsAfter original s.nodesAndRegistration.length subsets) ∧
      Respects (fun a b => (a, b) ∈ edges) (s'.executionPlan.map
        (originalsAfter original s.nodesAndRegistration.length subsets)) := by
  have hface := h.map_face hp happ hkernels
  set original' := originalsAfter original s.nodesAndRegistration.length subsets
  have hmap {β : Type} (f : List TensorIndex × List TensorIndex × List Int → β) :
      s'.executionPlan.map (fun node => f (s'.face original' node)) = subsets.flatMap fun subset =>
        if subset.type = .partition then [f (subset.inputTensors, subset.outputTensors,
          subset.nodes.flatMap fun node => original node.toNat)]
        else subset.nodes.map fun node => f (s.face original node.toNat) := by
    have := congrArg (List.map f) hface
    rw [List.map_map, map_flatMap] at this
    refine this.trans (flatMap_congr fun subset _ => ?_)
    split <;> simp
  have horiginal := hmap fun face => face.2.2
  have hflat : (s'.executionPlan.map original').flatten =
      (subsets.flatMap NodeSubset.nodes).flatMap fun node => original node.toNat := by
    rw [show s'.executionPlan.map original' = _ from horiginal, ← flatMap_id,
      flatMap_assoc, flatMap_assoc]
    refine flatMap_congr fun subset _ => ?_
    split <;> simp [face, flatMap_map]
  refine ⟨⟨fun m hm => ?_, happ.controlEdges.trans h.controlEdges, happ.state h.state,
    fun m hm => ?_, ?_, ?_⟩, ?_⟩
  · rw [show s'.executionPlan = _ from happ.executionPlan, setExecutionPlan, nil_append] at hm
    rw [happ.nodesAndRegistration, length_append]
    rcases mem_planAfter hm with ⟨subset, hs, node, hnode, rfl⟩ | ⟨k, hk, rfl⟩
    · obtain ⟨m', hm', rfl⟩ := hp.exists_of_mem hs hnode
      exact Nat.lt_add_right _ (h.plan m' hm')
    · rw [hkernels.length_eq]
      exact Nat.add_lt_add_left hk _
  · have hmem : s'.face original' m ∈ s'.executionPlan.map (s'.face original') :=
      mem_map.mpr ⟨m, hm, rfl⟩
    rw [hface] at hmem
    obtain ⟨subset, hs, hmem⟩ := mem_flatMap.mp hmem
    rw [ValidTensors, show s'.tensorsSize = _ from happ.tensorsSize]
    split at hmem
    · next ht =>
      have heq := mem_singleton.mp hmem
      have hk := h.kernelFits hfits hp hs ht
      rw [show (s'.node m).inputs = subset.inputTensors from congrArg Prod.fst heq,
        show (s'.node m).outputs = subset.outputTensors from congrArg (fun face => face.2.1) heq]
      exact fun t ht => (mem_append.mp ht).elim (hk.inputs t) (hk.outputs t)
    · obtain ⟨node, hnode, heq⟩ := mem_map.mp hmem
      obtain ⟨m', hm', rfl⟩ := hp.exists_of_mem hs hnode
      rw [Int.toNat_natCast] at heq
      rw [← show (s.node m').inputs = (s'.node m).inputs from congrArg Prod.fst heq,
        ← show (s.node m').outputs = (s'.node m).outputs from congrArg (fun face => face.2.1) heq]
      exact h.indices m' hm'
  · exact (hmap fun face => face.2.1) ▸ h.outputs_after hp
  · rw [hflat]
    refine (hp.perm_plan.flatMap_right _).trans ((List.Perm.of_eq ?_).trans h.once)
    rw [flatMap_map]
    simp [flatMap_def]
  · -- joining the nodes of a replaced subset keeps the order
    let block (subset : NodeSubset) : List (List (List Int)) :=
      if subset.type = .partition then [subset.nodes.map fun node => original node.toNat]
      else subset.nodes.map fun node => [original node.toNat]
    have hblocks : (subsets.flatMap block).flatten =
        (subsets.flatMap NodeSubset.nodes).map fun node => original node.toNat := by
      rw [← flatMap_id, flatMap_assoc, map_flatMap]
      refine flatMap_congr fun subset _ => ?_
      dsimp only [block]
      split
      · simp
      · rw [flatMap_map]
        exact (map_eq_flatMap ..).symm
    have hjoin := Respects.join (hblocks ▸ h.respects hread hedges hp)
    rw [show s'.executionPlan.map original' = _ from horiginal]
    rw [map_flatMap] at hjoin
    refine (congrArg (Respects _) (flatMap_congr fun subset _ => ?_)).mp hjoin
    dsimp only [block]
    split <;> simp [face, flatMap_def]

theorem Standing.replace {env : Env}
    (hinit : ∀ s node, node.builtinCode = .delegate → env.opInit s node = true)
    (hedges : ∀ e ∈ edges, ∃ i < n, e.1 = (i : Int)) (h : Standing n edges s original)
    (hfits : r.Fits s) (hne : r.nodesToReplace ≠ []) (hread : Readable edges s original) :
    ∃ subsets, s.partitionGraph r.nodesToReplace = some subsets ∧
      Ends (replaceNodeSubsetsWithDelegateKernels env r.nodesToReplace r.delegate) s (fun _ s' =>
          let original' := originalsAfter original s.nodesAndRegistration.length subsets
          Standing n edges s' original' ∧
            Respects (fun a b => (a, b) ∈ edges) (s'.executionPlan.map original'))
        fun _ _ => False := by
  have hvalid : validateNodesToPartition s.info r.nodesToReplace = true := by
    refine all_eq_true.mpr fun node hnode => isValidIndex_iff.mpr ?_
    obtain ⟨m, hm, rfl⟩ := hfits.nodes node hnode
    exact ⟨m, h.plan m hm, rfl⟩
  obtain ⟨subsets, hs⟩ := exists_partitionGraph hvalid hread.positions hread.acyclic
  have hpartition : s.partitionGraph r.nodesToReplace = some subsets := by
    rw [partitionGraph, h.controlEdges]
    exact hs
  obtain ⟨batches, hp⟩ := exists_partitionsPlan hs
  replace hp : PartitionsPlan s.info r.nodesToReplace edges s.info.OneProducer subsets batches := hp
  refine ⟨subsets, hpartition, ?_⟩
  have htype (subset : NodeSubset) (hsub : subset ∈ subsets) : subset.type ≠ .unexplored := by
    obtain ⟨node, hnode⟩ := exists_mem_of_ne_nil _ (partitionGraph_nodes hs hsub).1
    rw [hp.type subset hsub node hnode]
    split <;> simp
  rw [replaceNodeSubsetsWithDelegateKernels, if_neg hne]
  refine ends_get ?_
  rw [hpartition]
  refine ends_modify_bind ((ends_addNodeSubsets (s := s.setExecutionPlan []) hinit h.state htype
    fun subset hsub ht => ?_).mono (fun _ s' h' => ?_) fun _ _ => id)
  · have hk := h.kernelFits hfits hp hsub ht
    exact ⟨hk.inputs, hk.outputs, hk.disjoint, hk.delegate⟩
  obtain ⟨nodes, happ, hkernels⟩ := h'
  exact h.appended hfits hread hedges hp happ hkernels

end

/-! ## Several delegates -/

/-- A model with control edges that has not been delegated. -/
structure ControlModel (edges : List ControlEdge) (s : Subgraph) : Prop where
  plan : s.executionPlan = List.range s.nodesAndRegistration.length
  controlEdges : s.controlEdges = some edges
  state : s.state ≠ .invokableAndImmutable
  indices : ∀ node ∈ s.nodesAndRegistration, s.ValidTensors (node.inputs ++ node.outputs)
  producer : ∀ t, s.info.OneProducer t
  valid : validateControlEdges s.info edges = true
  acyclic : ∀ i, ¬ TransGen (s.info.Before edges) i i

/-- A subgraph and the original nodes that its nodes stand for. -/
structure Delegated where
  subgraph : Subgraph
  original : Nat → List Int

/-- Every node stands for itself. -/
def Delegated.start (s : Subgraph) : Delegated := ⟨s, fun node => [(node : Int)]⟩

/-- What a replacement that succeeds leads to. -/
def Delegated.step (env : Env) (s : Delegated) (r : Replacement) : Option Delegated :=
  match replaceNodeSubsetsWithDelegateKernels env r.nodesToReplace r.delegate s.subgraph with
  | .ok _ s' => some ⟨s', match s.subgraph.partitionGraph r.nodesToReplace with
    | some subsets => if r.nodesToReplace = [] then s.original
        else originalsAfter s.original s.subgraph.nodesAndRegistration.length subsets
    | none => s.original⟩
  | .error _ _ => none

def Replacement.Readable (edges : List ControlEdge) (s : Delegated) (r : Replacement) : Prop :=
  r.Fits s.subgraph ∧ (r.nodesToReplace ≠ [] → Tflite.Readable edges s.subgraph s.original)

section
variable {edges : List ControlEdge} {s₀ : Subgraph}

theorem ControlModel.standing (h : ControlModel edges s₀) :
    Standing s₀.nodesAndRegistration.length edges s₀ fun node => [(node : Int)] where
  plan node hnode := mem_range.mp (h.plan ▸ hnode)
  controlEdges := h.controlEdges
  state := h.state
  indices node hnode := by
    have hlt : node < s₀.nodesAndRegistration.length := mem_range.mp (h.plan ▸ hnode)
    refine h.indices _ ?_
    rw [Subgraph.node, getD_eq_getElem?_getD, getElem?_eq_getElem hlt]
    exact getElem_mem _
  outputs := oneProducer_iff.mp h.producer
  once := by
    rw [h.plan, ← flatMap_def, ← map_eq_flatMap]

/-- The first delegate reads the control edges as they are meant. -/
theorem ControlModel.readable (h : ControlModel edges s₀) :
    Readable edges s₀ fun node => [(node : Int)] where
  positions := h.valid
  acyclic := h.acyclic
  stands e he i hi j hj h1 h2 := by
    have hget {i : Nat} (hi : i < s₀.executionPlan.length) : s₀.executionPlan.getD i 0 = i := by
      rw [h.plan, length_range] at hi
      rw [h.plan, getD_eq_getElem?_getD, getElem?_range hi]
      rfl
    rw [hget hi, mem_singleton] at h1
    rw [hget hj, mem_singleton] at h2
    refine .inr (.single ⟨hi, hj, .inr ?_⟩)
    rw [← h1, ← h2]
    exact he

theorem ControlModel.named (h : ControlModel edges s₀) : ∀ e ∈ edges,
    ∃ i < s₀.nodesAndRegistration.length, e.1 = (i : Int) := fun e he => by
  have hvalid := all_eq_true.mp h.valid e he
  have hi := isValidIndex_iff.mp (Bool.and_eq_true_iff.mp hvalid).1
  rwa [info_numExecutionNodes, h.plan, length_range] at hi

variable {n : Nat} {env : Env} {s : Delegated} {r : Replacement}

/-- A replacement succeeds. -/
theorem Standing.step (hinit : ∀ s node, node.builtinCode = .delegate → env.opInit s node = true)
    (hedges : ∀ e ∈ edges, ∃ i < n, e.1 = (i : Int)) (h : Standing n edges s.subgraph s.original)
    (hr : r.Readable edges s) : ∃ s',
      replaceNodeSubsetsWithDelegateKernels env r.nodesToReplace r.delegate s.subgraph =
        .ok () s'.subgraph ∧ s.step env r = some s' ∧ Standing n edges s'.subgraph s'.original ∧
      (r.nodesToReplace = [] → s' = s) ∧ (r.nodesToReplace ≠ [] →
        Respects (fun a b => (a, b) ∈ edges) (s'.subgraph.executionPlan.map s'.original)) := by
  by_cases hne : r.nodesToReplace = []
  · have hok : replaceNodeSubsetsWithDelegateKernels env r.nodesToReplace r.delegate s.subgraph =
        .ok () s.subgraph := by
      rw [replaceNodeSubsetsWithDelegateKernels, if_pos hne]
      rfl
    refine ⟨s, hok, ?_, h, fun _ => rfl, fun hne' => absurd hne hne'⟩
    rw [Delegated.step, hok]
    dsimp only
    cases s.subgraph.partitionGraph r.nodesToReplace with
    | none => rfl
    | some subsets => simp only [if_pos hne]
  · obtain ⟨subsets, hpartition, hends⟩ := h.replace hinit hedges hr.1 hne (hr.2 hne)
    cases hrun : replaceNodeSubsetsWithDelegateKernels env r.nodesToReplace r.delegate s.subgraph with
    | error e s' => exact (hends.error hrun).elim
    | ok _ s' =>
      obtain ⟨h', hrespects⟩ := hends.ok hrun
      refine ⟨⟨s', _⟩, rfl, ?_, h', fun h => absurd h hne, fun _ => hrespects⟩
      rw [Delegated.step, hrun, hpartition]
      simp only [if_neg hne]

/-- The nodes of the plan respect the control edges. -/
def Delegated.Ordered (edges : List ControlEdge) (s : Delegated) : Prop :=
  Respects (fun a b => (a, b) ∈ edges) (s.subgraph.executionPlan.map s.original)

/-- Once a node was replaced the control edges are respected. -/
theorem Standing.run (hinit : ∀ s node, node.builtinCode = .delegate → env.opInit s node = true)
    (hedges : ∀ e ∈ edges, ∃ i < n, e.1 = (i : Int)) {s' : Delegated} {rs : List Replacement}
    (run : Run (fun s r => r.Readable edges s) (Delegated.step env) s rs s')
    (h : Standing n edges s.subgraph s.original) :
    Standing n edges s'.subgraph s'.original ∧
      (s.Ordered edges ∨ (∃ r ∈ rs, r.nodesToReplace ≠ []) → s'.Ordered edges) := by
  induction run with
  | nil => exact ⟨h, fun hor => hor.resolve_right (by simp)⟩
  | @cons s s₁ s' r rs hr hs _ ih =>
    obtain ⟨s₂, -, hs₂, h₂, hsame, hrespects⟩ := h.step hinit hedges hr
    rw [hs, Option.some.injEq] at hs₂
    subst hs₂
    refine (ih h₂).imp_right fun ih hor => ih ?_
    by_cases hne : r.nodesToReplace = []
    · rw [hsame hne]
      simpa [hne] using hor
    · exact .inl (hrespects hne)

/-- As long as the control edges are readable, every replacement succeeds, the nodes of the plan
stand for the original nodes, and once a node was replaced they respect the control edges. -/
theorem replacements_respect_control (hmodel : ControlModel edges s₀)
    (hinit : ∀ s node, node.builtinCode = .delegate → env.opInit s node = true)
    {rs : List Replacement} (run : Run (fun s r => r.Readable edges s) (Delegated.step env)
      (.start s₀) rs s) :
    (∀ r : Replacement, r.Readable edges s → ∃ s',
      replaceNodeSubsetsWithDelegateKernels env r.nodesToReplace r.delegate s.subgraph =
        .ok () s') ∧
    (s.subgraph.executionPlan.map s.original).flatten.Perm
      ((List.range s₀.nodesAndRegistration.length).map Nat.cast) ∧
    ((∀ r ∈ rs, r.nodesToReplace = []) ∨ s.Ordered edges) := by
  obtain ⟨h, hordered⟩ := hmodel.standing.run hinit hmodel.named run
  refine ⟨fun r hr => ?_, h.once, ?_⟩
  · obtain ⟨s', hs', -⟩ := h.step hinit hmodel.named hr
    exact ⟨s'.subgraph, hs'⟩
  · by_cases hempty : ∀ r ∈ rs, r.nodesToReplace = []
    · exact .inl hempty
    · exact .inr (hordered (.inr (by simpa using hempty)))

end

/-- Relations that only go up have no cycles. -/
theorem acyclic_of_lt {r : Nat → Nat → Prop} (h : ∀ i j, r i j → i < j) (i : Nat) :
    ¬ TransGen r i i := fun hcycle => by
  have hlt {i j : Nat} (hij : TransGen r i j) : i < j := by
    induction hij with
    | single hij => exact h _ _ hij
    | tail _ hjk ih => exact ih.trans (h _ _ hjk)
  exact Nat.lt_irrefl i (hlt hcycle)

/-- Three ops in a row; the last two are also ordered by a control edge. -/
def threeOps : Subgraph := { Subgraph.ofNodes
  [{ inputs := [0], outputs := [1] }, { inputs := [1], outputs := [2] },
    { inputs := [2], outputs := [3] }] with controlEdges := some [(1, 2)] }

theorem threeOps_controlModel : ControlModel [(1, 2)] threeOps where
  plan := rfl
  controlEdges := rfl
  state := by decide
  indices := by
    have h : ∀ node ∈ threeOps.nodesAndRegistration, ∀ t ∈ node.inputs ++ node.outputs,
        t = kTfLiteOptionalTensor ∨ isValidIndex t threeOps.tensorsSize = true := by decide
    exact h
  producer := by
    have h : (threeOps.executionPlan.map fun node => (threeOps.node node).outputs) =
        [[1], [2], [3]] := rfl
    rw [oneProducer_iff, h]
    simp only [Apart, pairwise_cons, mem_cons, not_mem_nil, or_false, forall_eq_or_imp,
      forall_eq, IsEmpty.forall_iff, implies_true, List.Pairwise.nil, and_true]
    refine ⟨⟨?_, ?_⟩, ?_⟩ <;> rintro t - rfl <;> decide
  valid := by decide
  acyclic := by
    refine acyclic_of_lt fun i j hij => ?_
    have h : ∀ i < 3, ∀ j < 3, ((∃ t ∈ (threeOps.info.node i).outputs, threeOps.info.Reads j t) ∨
        ((i : Int), (j : Int)) ∈ [((1 : Int), (2 : Int))]) → i < j := by decide
    exact h i hij.1 j hij.2.1 (hij.2.2.imp_left fun h => h.imp fun t ht => ⟨ht.1.2, ht.2⟩)

/-- The first delegate takes the second op, and the order is kept. -/
theorem threeOps_respect_control : ∃ s, Delegated.step (.ofDelegates []) (.start threeOps) ⟨[1], 0⟩ =
      some s ∧ s.subgraph.executionPlan = [0, 3, 2] ∧
    (∀ r : Replacement, r.Readable [(1, 2)] s → ∃ s', replaceNodeSubsetsWithDelegateKernels
      (.ofDelegates []) r.nodesToReplace r.delegate s.subgraph = .ok () s') ∧
    (s.subgraph.executionPlan.map s.original).flatten.Perm ((List.range 3).map Nat.cast) ∧
    ((∀ r ∈ [(⟨[1], 0⟩ : Replacement)], r.nodesToReplace = []) ∨ s.Ordered [(1, 2)]) := by
  refine ⟨_, rfl, rfl, ?_⟩
  refine replacements_respect_control threeOps_controlModel (fun _ _ _ => rfl)
    (.single ⟨⟨?_, ?_⟩, fun _ => threeOps_controlModel.readable⟩ rfl)
  · decide
  · intro node hnode t ht ho
    rfl

/-- After the first delegate the control edge names a position that is not there, and the
second delegate cannot replace anything. -/
theorem threeOps_not_replaced : ControlModel [(1, 2)] threeOps ∧ ∃ s s',
    Delegated.step (.ofDelegates []) (.start threeOps) ⟨[0, 1], 0⟩ = some s ∧
    Replacement.Fits ⟨[2], 1⟩ s.subgraph ∧
    replaceNodeSubsetsWithDelegateKernels (.ofDelegates []) [2] 1 s.subgraph = .error .error s' := by
  refine ⟨threeOps_controlModel, _, _, rfl, ⟨by decide, ?_⟩, rfl⟩
  intro node hnode t ht ho
  obtain rfl := mem_singleton.mp hnode
  obtain rfl : t = 3 := mem_singleton.mp ht
  rfl

end LiteRt.Tflite
