import LiteRt.Tflite.Schedule

/-!
# The subsets a partition returns

`Partition` succeeds exactly when the schedule covers the execution plan. Its subsets
then hold the batches, and list the tensors that cross their boundaries.
-/

namespace LiteRt.Tflite

open LiteRt.Lib List

variable {subsets : List NodeSubset} {α : Type*} {info : GraphInfo} {nodesToPartition : List Int}
  {greedily : Bool} {controlEdges : Option (List ControlEdge)} {disableNodeFusion : Bool}

/-! ## `Uniquefy` -/

theorem mem_destutter' [DecidableEq α] {l : List α} {a b : α} (h : b ∈ a :: l) :
    b ∈ l.destutter' (· ≠ ·) a := by
  induction l generalizing a with
  | nil => simpa using h
  | cons c l ih =>
    rw [destutter'_cons]
    by_cases hac : a = c
    · subst hac
      rw [if_neg (not_not.mpr rfl)]
      refine ih ?_
      simpa using h
    · rw [if_pos hac]
      rcases mem_cons.mp h with rfl | h
      · exact mem_cons_self ..
      · exact mem_cons_of_mem _ (ih h)

theorem mem_uniquefy [DecidableEq α] {r : α → α → Prop} [DecidableRel r] {items : List α} {a : α} :
    a ∈ uniquefy r items ↔ a ∈ items := by
  rw [uniquefy]
  constructor
  · exact fun h => (mem_insertionSort r).mp ((destutter_sublist _ _).subset h)
  · intro h
    have h' := (mem_insertionSort r).mpr h
    cases hl : items.insertionSort r with
    | nil =>
      rw [hl] at h'
      cases h'
    | cons c l =>
      rw [hl] at h'
      exact mem_destutter' h'

theorem nodup_uniquefy (items : List Int) : (uniquefy (· ≤ ·) items).Nodup := by
  have hsorted : ((items.insertionSort (· ≤ ·)).destutter (· ≠ ·)).Pairwise (· ≤ ·) :=
    (pairwise_insertionSort _ items).sublist (destutter_sublist _ _)
  have hchain := isChain_destutter (R := (· ≠ ·)) (items.insertionSort (· ≤ ·))
  have hlt : ((items.insertionSort (· ≤ ·)).destutter (· ≠ ·)).IsChain (· < ·) :=
    isChain_iff_getElem.mpr fun i hi => lt_of_le_of_ne
      (isChain_iff_getElem.mp hsorted.isChain i hi) (isChain_iff_getElem.mp hchain i hi)
  exact hlt.pairwise.imp fun h => ne_of_lt h

namespace Partitioner

variable (p : Partitioner) {i : Nat}

/-- The batches of the whole traversal. -/
def schedule : List (List Nat) := p.batching.batches (p.info.numExecutionNodes + 1) []

variable {p}

theorem tracks_schedule :
    p.Tracks p.schedule (p.buildNodeSubsets (p.info.numExecutionNodes + 1) p.start) := by
  have hlen : (p.batching.left []).length < p.info.numExecutionNodes + 1 :=
    Nat.lt_succ_of_le ((Batching.length_left_le _).trans (Nat.le_of_eq length_range))
  exact (Tracks.start p).buildNodeSubsets _ hlen

/-- What marking the outputs of the model adds to the subset at `k`. -/
def markSubset (epochs : TensorIndex → Epoch) (outputs : List TensorIndex) (k : Nat)
    (subset : NodeSubset) : NodeSubset :=
  { subset with outputTensors :=
      subset.outputTensors ++ outputs.filter fun t => decide (epochs t = .assigned k) }

theorem foldlM_markOutput {epochs : TensorIndex → Epoch} {outputs : List TensorIndex}
    {subsets : List NodeSubset} (hready : ∀ t, epochs t ≠ .notReady)
    (hlt : ∀ t k, epochs t = .assigned k → k < subsets.length) :
    ∃ marked, outputs.foldlM (markOutput epochs) subsets = some marked ∧
      ∀ k : Nat, marked[k]? = (subsets[k]?).map (markSubset epochs outputs k) := by
  induction outputs generalizing subsets with
  | nil =>
    refine ⟨subsets, rfl, fun k => ?_⟩
    have hid : markSubset epochs [] k = id := by
      funext subset
      simp [markSubset]
    rw [hid, Option.map_id]
    rfl
  | cons t outputs ih =>
    rw [foldlM_cons, markOutput]
    cases he : epochs t with
    | notReady => exact absurd he (hready t)
    | alwaysReady =>
      obtain ⟨marked, hm, hk⟩ := ih hlt
      refine ⟨marked, hm, fun k => (hk k).trans (congrArg (Option.map · _) (funext fun subset => ?_))⟩
      simp [markSubset, he]
    | assigned e =>
      have hlen := hlt t e he
      obtain ⟨marked, hm, hk⟩ := @ih (subsets.modify e fun subset =>
        { subset with outputTensors := subset.outputTensors ++ [t] }) (by simpa using hlt)
      refine ⟨marked, by simpa [hlen] using hm, fun k => (hk k).trans ?_⟩
      rw [getElem?_modify, Option.map_eq_map, Option.map_map]
      refine congrArg (Option.map · _) (funext fun subset => ?_)
      by_cases hek : e = k
      · simp [markSubset, he, hek]
      · simp [markSubset, he, hek]

/-- The subsets hold the batches of the schedule and list the tensors between them. -/
structure Partitions (p : Partitioner) (subsets : List NodeSubset) : Prop where
  all : ∀ i ∈ p.positions, i ∈ p.schedule.flatten
  length : subsets.length = p.schedule.length
  subset : ∀ (k : Nat) (E : List Nat) (subset : NodeSubset), p.schedule[k]? = some E →
    subsets[k]? = some subset → subset.nodes = E.map (fun i => (p.info.nodeIndex i : Int)) ∧
    subset.inputTensors = uniquefy (· ≤ ·) (p.inputsFrom [] E) ∧
    subset.outputTensors.Nodup ∧ ∀ i ∈ E, subset.type = p.nodeType (p.info.nodeIndex i)
  outputs : ∀ (k : Nat) (E : List Nat) (subset : NodeSubset), p.schedule[k]? = some E →
    subsets[k]? = some subset → ∀ t ∈ subset.outputTensors, (∃ w ∈ E, p.Writes w t) ∧
      (t ∈ p.info.outputs ∨ ∃ (m : Nat) (E' : List Nat), m ≠ k ∧ p.schedule[m]? = some E' ∧
        ∃ x ∈ E', p.Reads x t)
  passed : ∀ (m : Nat) (E pre : List Nat) (x : Nat) (post : List Nat) (t : TensorIndex),
    p.schedule[m]? = some E → E = pre ++ x :: post → p.Reads x t → p.Produced t →
    (∃ w ∈ pre ++ [x], p.Writes w t) ∨
      ∃ (k : Nat) (E' : List Nat) (subset : NodeSubset), k < m ∧ p.schedule[k]? = some E' ∧
        (∃ w ∈ E', p.Writes w t) ∧ subsets[k]? = some subset ∧ t ∈ subset.outputTensors
  model : ∀ t ∈ p.info.outputs, p.Produced t → ∃ (k : Nat) (E : List Nat) (subset : NodeSubset),
    p.schedule[k]? = some E ∧ (∃ w ∈ E, p.Writes w t) ∧ subsets[k]? = some subset ∧
      t ∈ subset.outputTensors

/-- `Partition` succeeds when every node is scheduled. -/
theorem partition_spec (hall : ∀ i ∈ p.positions, i ∈ p.schedule.flatten) :
    ∃ subsets, p.partition = some subsets ∧ p.Partitions subsets := by
  have h := tracks_schedule (p := p)
  set s := p.buildNodeSubsets (p.info.numExecutionNodes + 1) p.start with hs
  have hready (t : TensorIndex) : s.tensorEpochs t ≠ .notReady := fun he => by
    obtain ⟨⟨j, hj, hw⟩, hn⟩ := (h.unwritten t).mp he
    exact hn j (hall j hj) hw
  have hlt (t : TensorIndex) (k : Nat) (he : s.tensorEpochs t = .assigned k) :
      k < s.nodeSubsets.length := by
    obtain ⟨⟨E, hk, -⟩, -⟩ := (h.written t k).mp he
    rw [h.length]
    exact (List.getElem?_eq_some_iff.mp hk).1
  obtain ⟨marked, hm, hk⟩ := @foldlM_markOutput _ p.info.outputs _ hready hlt
  have hdone : ((List.range p.info.numExecutionNodes).any fun i =>
      decide (s.nodeEpochs i = .notReady)) = false := by
    rw [any_eq_false]
    intro i hi
    rw [decide_eq_true_eq, h.done]
    exact not_not.mpr (hall i hi)
  have hpart : p.partition = some (marked.map fun subset => { subset with
      inputTensors := uniquefy (· ≤ ·) subset.inputTensors
      outputTensors := uniquefy (· ≤ ·) subset.outputTensors }) := by
    rw [partition]
    simp only [← hs, hdone, Bool.false_eq_true, ↓reduceIte, hm]
    rfl
  refine ⟨_, hpart, ?_⟩
  -- each subset returned comes from one of the traversal
  have hback {k : Nat} {subset : NodeSubset} (hsub : (marked.map fun subset => { subset with
      inputTensors := uniquefy (· ≤ ·) subset.inputTensors
      outputTensors := uniquefy (· ≤ ·) subset.outputTensors })[k]? = some subset) :
      ∃ x, s.nodeSubsets[k]? = some x ∧ subset = { x with
        inputTensors := uniquefy (· ≤ ·) x.inputTensors
        outputTensors := uniquefy (· ≤ ·)
          (markSubset s.tensorEpochs p.info.outputs k x).outputTensors } := by
    rw [getElem?_map, hk, Option.map_map, Option.map_eq_some_iff] at hsub
    obtain ⟨x, hx, rfl⟩ := hsub
    exact ⟨x, hx, rfl⟩
  have hforth {k : Nat} {x : NodeSubset} (hx : s.nodeSubsets[k]? = some x) {t : TensorIndex}
      (ht : t ∈ (markSubset s.tensorEpochs p.info.outputs k x).outputTensors) :
      ∃ subset, (marked.map fun subset => { subset with
        inputTensors := uniquefy (· ≤ ·) subset.inputTensors
        outputTensors := uniquefy (· ≤ ·) subset.outputTensors })[k]? = some subset ∧
      t ∈ subset.outputTensors := by
    refine ⟨_, by rw [getElem?_map, hk, hx]; rfl, ?_⟩
    exact mem_uniquefy.mpr ht
  constructor
  case all => exact hall
  case length =>
    have hlen : marked.length = s.nodeSubsets.length := by
      have hiff (k : Nat) : marked.length ≤ k ↔ s.nodeSubsets.length ≤ k := by
        rw [← List.getElem?_eq_none_iff, ← List.getElem?_eq_none_iff, hk, Option.map_eq_none_iff]
      exact Nat.le_antisymm ((hiff _).mpr (Nat.le_refl _)) ((hiff _).mp (Nat.le_refl _))
    rw [length_map, hlen, h.length]
  case subset =>
    intro k E subset hE hsub
    obtain ⟨x, hx, rfl⟩ := hback hsub
    obtain ⟨h1, h2, -, h4⟩ := h.subset k E x hE hx
    exact ⟨h1, congrArg (uniquefy (· ≤ ·)) h2, nodup_uniquefy _, h4⟩
  case outputs =>
    intro k E subset hE hsub t ht
    obtain ⟨x, hx, rfl⟩ := hback hsub
    rw [mem_uniquefy] at ht
    rcases mem_append.mp ht with ht | ht
    · obtain ⟨hw, hr⟩ := h.outputs k E x hE hx t ht
      exact ⟨hw, .inr hr⟩
    · obtain ⟨ho, he⟩ := mem_filter.mp ht
      obtain ⟨⟨E', hE', hw⟩, -⟩ := (h.written t k).mp (of_decide_eq_true he)
      rw [hE, Option.some.injEq] at hE'
      exact ⟨hE' ▸ hw, .inl ho⟩
  case passed =>
    intro m E pre x post t hm hE hx hp
    refine (h.passed m E pre x post t hm hE hx hp).imp_right ?_
    rintro ⟨k, E', subset, hlt, hk', hw, hs', ht⟩
    obtain ⟨subset', h1, h2⟩ := hforth hs' (mem_append_left _ ht)
    exact ⟨k, E', subset', hlt, hk', hw, h1, h2⟩
  case model =>
    intro t ht hp
    cases he : s.tensorEpochs t with
    | notReady => exact absurd he (hready t)
    | alwaysReady => exact absurd hp ((h.unproduced t).mp he)
    | assigned k =>
      obtain ⟨⟨E, hE, hw⟩, -⟩ := (h.written t k).mp he
      obtain ⟨subset', h1, h2⟩ := hforth (getElem?_eq_getElem (hlt t k he))
        (mem_append_right _ (mem_filter.mpr ⟨ht, decide_eq_true he⟩))
      exact ⟨k, E, subset', hE, hw, h1, h2⟩

/-- It fails when a node is never ready. -/
theorem partition_eq_none (hall : ¬ ∀ i ∈ p.positions, i ∈ p.schedule.flatten) :
    p.partition = none := by
  have h := tracks_schedule (p := p)
  rw [partition]
  refine if_pos (any_eq_true.mpr ?_)
  by_contra hn
  refine hall fun i hi => ?_
  by_contra hni
  exact hn ⟨i, hi, decide_eq_true ((h.done i).mpr hni)⟩

theorem mem_positions_of_schedule {k : Nat} {E : List Nat} (hk : p.schedule[k]? = some E)
    (hi : i ∈ E) : i ∈ p.positions := tracks_schedule.mem E (mem_of_getElem? hk) i hi

theorem ready_of_schedule {pre post : List Nat} (h : p.schedule.flatten = pre ++ i :: post) :
    p.Ready pre i := by
  have := Batching.ready_of_batches h
  rw [nil_append] at this
  exact of_decide_eq_true this

theorem mem_inputsFrom {pre E : List Nat} {t : TensorIndex} : t ∈ p.inputsFrom pre E ↔
    ∃ c i post, E = c ++ i :: post ∧ p.Reads i t ∧ ∀ j ∈ pre ++ c ++ [i], ¬ p.Writes j t := by
  induction E generalizing pre with
  | nil => simp [inputsFrom]
  | cons a E ih =>
    have hread : t ∈ (p.info.node a).inputs.filter (fun t => decide (t ≠ kTfLiteOptionalTensor) &&
        !decide (∃ j ∈ pre ++ [a], p.Writes j t)) ↔
        p.Reads a t ∧ ∀ j ∈ pre ++ [a], ¬ p.Writes j t := by
      simp only [mem_filter, Bool.and_eq_true, Bool.not_eq_true', decide_eq_true_eq,
        decide_eq_false_iff_not, not_exists, not_and, Reads, GraphInfo.Reads]
      rw [← and_assoc, and_comm (a := t ∈ _)]
    rw [inputsFrom, mem_append, hread, ih]
    constructor
    · rintro (⟨hr, hn⟩ | ⟨c, i, post, rfl, hr, hn⟩)
      · exact ⟨[], a, E, rfl, hr, by rwa [append_nil]⟩
      · have hpre : pre ++ a :: c = pre ++ [a] ++ c := append_cons ..
        exact ⟨a :: c, i, post, rfl, hr, by rwa [hpre]⟩
    · rintro ⟨c, i, post, hE, hr, hn⟩
      cases c with
      | nil =>
        obtain ⟨rfl, rfl⟩ := List.cons.inj hE
        rw [append_nil] at hn
        exact .inl ⟨hr, hn⟩
      | cons b c =>
        obtain ⟨rfl, rfl⟩ := List.cons.inj hE
        have hpre : pre ++ a :: c = pre ++ [a] ++ c := append_cons ..
        exact .inr ⟨c, i, post, rfl, hr, by rwa [← hpre]⟩

end Partitioner

/-- At most one node of the plan produces the tensor. -/
def GraphInfo.OneProducer (info : GraphInfo) (t : TensorIndex) : Prop :=
  ∀ i < info.numExecutionNodes, ∀ j < info.numExecutionNodes, info.Writes i t → info.Writes j t →
    i = j

/-- The subsets hold the batches of positions, in an order that respects control edges
and, as far as the tensors with `T` go, data edges, and list the tensors with `T` that
cross their boundaries. -/
structure PartitionsPlan (info : GraphInfo) (nodesToPartition : List Int)
    (controlEdges : List ControlEdge) (T : TensorIndex → Prop) (subsets : List NodeSubset)
    (batches : List (List Nat)) : Prop where
  once : batches.flatten.Perm (List.range info.numExecutionNodes)
  nodes : List.Forall₂ (fun subset E =>
    subset.nodes = E.map fun i => (info.nodeIndex i : Int)) subsets batches
  type : ∀ subset ∈ subsets, ∀ node ∈ subset.nodes,
    subset.type = if node ∈ nodesToPartition then .partition else .nonPartition
  control : ∀ (pre : List Nat) (i : Nat) (post : List Nat), batches.flatten = pre ++ i :: post →
    ∀ e ∈ controlEdges, e.2 = (i : Int) → ∃ j ∈ pre, e.1 = (j : Int)
  producers : ∀ (pre : List Nat) (i : Nat) (post : List Nat), batches.flatten = pre ++ i :: post →
    ∀ t, T t → info.Reads i t → ∀ j < info.numExecutionNodes, info.Writes j t → j ∈ pre
  inputs : List.Forall₂ (fun subset E => ∀ t, T t → (t ∈ subset.inputTensors ↔
    (∃ i ∈ E, info.Reads i t) ∧ ¬ ∃ j ∈ E, info.Writes j t)) subsets batches
  outputs : List.Forall₂ (fun subset E => ∀ t, T t → (t ∈ subset.outputTensors ↔
    (∃ j ∈ E, info.Writes j t) ∧ (t ∈ info.outputs ∨
      ∃ i < info.numExecutionNodes, i ∉ E ∧ info.Reads i t))) subsets batches
  nodup : ∀ subset ∈ subsets, subset.inputTensors.Nodup ∧ subset.outputTensors.Nodup

theorem forall₂_flatten {batches : List (List Nat)} {f : Nat → Int}
    (h : List.Forall₂ (fun subset E => subset.nodes = E.map f) subsets batches) :
    subsets.flatMap NodeSubset.nodes = batches.flatten.map f := by
  induction h with
  | nil => rfl
  | cons he _ ih => rw [flatMap_cons, flatten_cons, map_append, he, ih]

namespace Partitioner

variable {p : Partitioner} {subsets : List NodeSubset} (h : p.Partitions subsets)

include h

theorem Partitions.perm : p.schedule.flatten.Perm p.positions := by
  have hmem (i : Nat) : i ∈ p.schedule.flatten ↔ i ∈ p.positions := by
    refine ⟨fun hi => ?_, h.all i⟩
    obtain ⟨E, hE, hi⟩ := mem_flatten.mp hi
    exact tracks_schedule.mem E hE i hi
  exact (perm_ext_iff_of_nodup tracks_schedule.nodup nodup_range).mpr hmem

theorem Partitions.forall₂ {R : NodeSubset → List Nat → Prop}
    (hR : ∀ (k : Nat) (E : List Nat) (subset : NodeSubset), p.schedule[k]? = some E →
      subsets[k]? = some subset → R subset E) : List.Forall₂ R subsets p.schedule := by
  refine forall₂_iff_get.mpr ⟨h.length, fun k h₁ h₂ => ?_⟩
  exact hR k _ _ (getElem?_eq_getElem h₂) (getElem?_eq_getElem h₁)

theorem Partitions.exists_batch {i : Nat} (hi : i < p.info.numExecutionNodes) :
    ∃ (k : Nat) (E : List Nat), p.schedule[k]? = some E ∧ i ∈ E := by
  obtain ⟨E, hE, hi⟩ := mem_flatten.mp (h.all i (mem_range.mpr hi))
  obtain ⟨k, hk⟩ := mem_iff_getElem?.mp hE
  exact ⟨k, E, hk, hi⟩

section
variable {t : TensorIndex} (ht : p.info.OneProducer t) {k : Nat} {E : List Nat}
  {subset : NodeSubset}

include ht

omit h in
theorem producer_mem {pre post : List Nat} {i j : Nat}
    (hs : p.schedule.flatten = pre ++ i :: post) (hr : p.Reads i t) (hj : j ∈ p.positions)
    (hw : p.Writes j t) : j ∈ pre := by
  obtain ⟨j', hj', hw'⟩ := (ready_of_schedule hs).1 t hr.2 hr.1 ⟨j, hj, hw⟩
  have hpos : j' ∈ p.positions := by
    have : j' ∈ p.schedule.flatten := by simp [hs, hj']
    obtain ⟨E, hE, hm⟩ := mem_flatten.mp this
    exact tracks_schedule.mem E hE j' hm
  rwa [ht j (mem_range.mp hj) j' (mem_range.mp hpos) hw hw']

theorem Partitions.mem_inputTensors (hk : p.schedule[k]? = some E)
    (hs : subsets[k]? = some subset) :
    t ∈ subset.inputTensors ↔ (∃ i ∈ E, p.Reads i t) ∧ ¬ ∃ j ∈ E, p.Writes j t := by
  rw [(h.subset k E subset hk hs).2.1, mem_uniquefy, mem_inputsFrom]
  constructor
  · rintro ⟨c, i, post, rfl, hr, hn⟩
    refine ⟨⟨i, by simp, hr⟩, ?_⟩
    rintro ⟨j, hj, hw⟩
    obtain ⟨A, B, hAB⟩ := append_of_mem (mem_of_getElem? hk)
    have hflat : p.schedule.flatten = (A.flatten ++ c) ++ i :: (post ++ B.flatten) := by
      simp [hAB]
    have hpos := tracks_schedule.mem _ (mem_of_getElem? hk) j hj
    have hpre := producer_mem ht hflat hr hpos hw
    have hpost : j ∈ i :: (post ++ B.flatten) := by
      have hnot : j ∉ c ++ [i] := fun hm => hn j (by simpa using hm) hw
      simp only [mem_append, mem_cons, not_mem_nil, or_false, not_or] at hnot hj ⊢
      exact .inr (.inl ((hj.resolve_left hnot.1).resolve_left hnot.2))
    have hnd := hflat ▸ tracks_schedule.nodup (p := p)
    exact (nodup_append.mp hnd).2.2 j hpre j hpost rfl
  · rintro ⟨⟨i, hi, hr⟩, hn⟩
    obtain ⟨c, post, rfl⟩ := append_of_mem hi
    refine ⟨c, i, post, rfl, hr, fun j hj hw => hn ⟨j, ?_, hw⟩⟩
    simp only [nil_append, mem_append, mem_singleton] at hj
    rcases hj with hj | rfl
    · exact mem_append_left _ hj
    · exact hi

theorem Partitions.mem_outputTensors (hk : p.schedule[k]? = some E)
    (hs : subsets[k]? = some subset) :
    t ∈ subset.outputTensors ↔ (∃ j ∈ E, p.Writes j t) ∧ (t ∈ p.info.outputs ∨
      ∃ i < p.info.numExecutionNodes, i ∉ E ∧ p.Reads i t) := by
  have hnd := tracks_schedule.nodup (p := p)
  have hpos {k : Nat} {E : List Nat} (hk : p.schedule[k]? = some E) {i : Nat} (hi : i ∈ E) :
      i < p.info.numExecutionNodes :=
    mem_range.mp (tracks_schedule.mem E (mem_of_getElem? hk) i hi)
  constructor
  · intro hm
    obtain ⟨hw, hr⟩ := h.outputs k E subset hk hs t hm
    refine ⟨hw, hr.imp_right ?_⟩
    rintro ⟨m, E', hne, hm, x, hx, hr⟩
    exact ⟨x, hpos hm hx, fun hxE => hne (getElem?_inj_of_nodup_flatten hnd hm hk hx hxE), hr⟩
  · rintro ⟨⟨w, hw, hwt⟩, hr⟩
    -- a subset that holds a producer is this one
    have hsame {k' : Nat} {E' : List Nat} {subset' : NodeSubset} (hk' : p.schedule[k']? = some E')
        (hw' : ∃ w' ∈ E', p.Writes w' t) (hs' : subsets[k']? = some subset')
        (hm : t ∈ subset'.outputTensors) : t ∈ subset.outputTensors := by
      obtain ⟨w', hw', hwt'⟩ := hw'
      obtain rfl := ht w (hpos hk hw) w' (hpos hk' hw') hwt hwt'
      obtain rfl := getElem?_inj_of_nodup_flatten hnd hk hk' hw hw'
      rw [hs, Option.some.injEq] at hs'
      exact hs' ▸ hm
    have hp : p.Produced t := ⟨w, mem_range.mpr (hpos hk hw), hwt⟩
    rcases hr with ho | ⟨i, hi, hiE, hr⟩
    · obtain ⟨k', E', subset', hk', hw', hs', hm⟩ := h.model t ho hp
      exact hsame hk' hw' hs' hm
    · obtain ⟨m, E', hm, hiE'⟩ := h.exists_batch hi
      obtain ⟨pre, post, rfl⟩ := append_of_mem hiE'
      rcases h.passed m _ pre i post t hm rfl hr hp with ⟨w', hw', hwt'⟩ | hrest
      · have hw'' : w' ∈ pre ++ i :: post := by
          rw [append_cons]
          exact mem_append_left _ hw'
        obtain rfl := ht w (hpos hk hw) w' (hpos hm hw'') hwt hwt'
        obtain rfl := getElem?_inj_of_nodup_flatten hnd hk hm hw hw''
        rw [hk, Option.some.injEq] at hm
        exact absurd (hm ▸ hiE') hiE
      · obtain ⟨k', E', subset', -, hk', hw', hs', hm⟩ := hrest
        exact hsame hk' hw' hs' hm

end

/-- The whole of what `Partition` guarantees. -/
theorem Partitions.partitionsPlan : PartitionsPlan p.info p.nodesToPartition p.controlEdges
    p.info.OneProducer subsets p.schedule where
  once := h.perm
  nodes := h.forall₂ fun k E subset hk hs => (h.subset k E subset hk hs).1
  type subset hm node hnode := by
    obtain ⟨k, hk⟩ := mem_iff_getElem?.mp hm
    have hlt := (List.getElem?_eq_some_iff.mp hk).1
    rw [h.length] at hlt
    obtain ⟨h1, -, -, h4⟩ := h.subset k _ subset (getElem?_eq_getElem hlt) hk
    rw [h1] at hnode
    obtain ⟨i, hi, rfl⟩ := mem_map.mp hnode
    exact h4 i hi
  control _ _ _ hs := (ready_of_schedule hs).2
  producers _ _ _ hs t ht hr j hj hw := producer_mem ht hs hr (mem_range.mpr hj) hw
  inputs := h.forall₂ fun _ _ _ hk hs _ ht => h.mem_inputTensors ht hk hs
  outputs := h.forall₂ fun _ _ _ hk hs _ ht => h.mem_outputTensors ht hk hs
  nodup subset hm := by
    obtain ⟨k, hk⟩ := mem_iff_getElem?.mp hm
    have hlt := (List.getElem?_eq_some_iff.mp hk).1
    rw [h.length] at hlt
    obtain ⟨-, h2, h3, -⟩ := h.subset k _ subset (getElem?_eq_getElem hlt) hk
    exact ⟨h2 ▸ nodup_uniquefy _, h3⟩

omit h in
/-- A partition that succeeds covers the plan. -/
theorem partitions_of_partition (h : p.partition = some subsets) : p.Partitions subsets := by
  by_cases hall : ∀ i ∈ p.positions, i ∈ p.schedule.flatten
  · obtain ⟨subsets', h', hp⟩ := partition_spec hall
    rw [h, Option.some.injEq] at h'
    exact h' ▸ hp
  · rw [partition_eq_none hall] at h
    cases h

end Partitioner

/-- The control edges the partitioner works with. -/
def GraphInfo.edges (info : GraphInfo) (greedily : Bool)
    (controlEdges : Option (List ControlEdge)) : List ControlEdge :=
  controlEdges.getD (if greedily then sideEffectEdges info else [])

theorem partitionGraph_eq_some_iff : partitionGraphIntoIndependentNodeSubsets info nodesToPartition
      greedily controlEdges disableNodeFusion = some subsets ↔
    validateNodesToPartition info nodesToPartition = true ∧
    validateControlEdges info (info.edges greedily controlEdges) = true ∧
    (Partitioner.make info nodesToPartition greedily (info.edges greedily controlEdges)
      disableNodeFusion).partition = some subsets := by
  rw [partitionGraphIntoIndependentNodeSubsets, ← GraphInfo.edges]
  split
  · next hv =>
    simp only [hv, true_and]
    split
    · next he => simp only [he, true_and]
    · next he => simp [he]
  · next hv => simp [hv]

theorem exists_partitionsPlan (h : partitionGraphIntoIndependentNodeSubsets info nodesToPartition
      greedily controlEdges disableNodeFusion = some subsets) : ∃ batches,
    PartitionsPlan info nodesToPartition (info.edges greedily controlEdges) info.OneProducer
      subsets batches := by
  have hp := (Partitioner.partitions_of_partition
    (partitionGraph_eq_some_iff.mp h).2.2).partitionsPlan
  refine ⟨_, { hp with control := fun pre i post hs e he => ?_ }⟩
  exact hp.control pre i post hs e (mem_uniquefy.mpr he)

/-- A subset holds nodes, all from the plan. -/
theorem partitionGraph_nodes
    (h : partitionGraphIntoIndependentNodeSubsets info nodesToPartition greedily controlEdges
      disableNodeFusion = some subsets)
    {subset : NodeSubset} (hs : subset ∈ subsets) : subset.nodes ≠ [] ∧
      ∀ node ∈ subset.nodes, ∃ i < info.numExecutionNodes, node = (info.nodeIndex i : Int) := by
  have hp := Partitioner.partitions_of_partition (partitionGraph_eq_some_iff.mp h).2.2
  obtain ⟨k, hlt, rfl⟩ := mem_iff_getElem.mp hs
  have hlt' := hp.length ▸ hlt
  have hE := getElem?_eq_getElem hlt'
  rw [(hp.subset k _ _ hE (getElem?_eq_getElem hlt)).1]
  refine ⟨fun hnil => ?_, fun node hnode => ?_⟩
  · exact Batching.ne_nil_of_mem_batches (getElem_mem hlt') (map_eq_nil_iff.mp hnil)
  · obtain ⟨i, hi, rfl⟩ := mem_map.mp hnode
    exact ⟨i, mem_range.mp (Partitioner.mem_positions_of_schedule hE hi), rfl⟩

/-- A plan whose nodes are its positions. -/
def GraphInfo.ofNodes (nodes : List Node) (outputs : List TensorIndex) : GraphInfo where
  numExecutionNodes := nodes.length
  numTotalNodes := nodes.length
  node i := nodes.getD i { inputs := [], outputs := [] }
  nodeIndex i := i
  outputs := outputs

/-- Two branches of a stateful node. -/
def diamond : GraphInfo := .ofNodes
  [{ inputs := [0], outputs := [1] }, { inputs := [1, -1], outputs := [2] },
    { inputs := [1], outputs := [3] }, { inputs := [2, 3], outputs := [4] }] [4]

/-- Tensor 1 is written twice, the second time before its only reader. -/
def twoProducers : GraphInfo := .ofNodes
  [{ inputs := [0], outputs := [1, 2] }, { inputs := [2], outputs := [3] },
    { inputs := [3], outputs := [4] }, { inputs := [4], outputs := [1] },
    { inputs := [1], outputs := [5] }] [5]

end LiteRt.Tflite
