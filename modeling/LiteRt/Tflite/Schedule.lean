import LiteRt.Lib.Batches
import LiteRt.Lib.ListIndex
import LiteRt.Tflite.Subgraph

/-!
# The schedule behind the epochs

The traversal is a schedule in batches: the epochs, counters and tensor lists only
record which positions the batches hold. `Tracks` says what the state records of a
list of batches, and one lemma for each loop says that it follows the schedule.
-/

namespace LiteRt.Tflite

open LiteRt.Lib List

/-- The node at `i` reads the tensor. -/
def GraphInfo.Reads (info : GraphInfo) (i : Nat) (t : TensorIndex) : Prop :=
  t ≠ kTfLiteOptionalTensor ∧ t ∈ (info.node i).inputs

/-- The node at `i` produces the tensor. -/
def GraphInfo.Writes (info : GraphInfo) (i : Nat) (t : TensorIndex) : Prop :=
  t ≠ kTfLiteOptionalTensor ∧ t ∈ (info.node i).outputs

instance (info : GraphInfo) (i : Nat) (t : TensorIndex) : Decidable (info.Reads i t) :=
  inferInstanceAs (Decidable (_ ∧ _))

instance (info : GraphInfo) (i : Nat) (t : TensorIndex) : Decidable (info.Writes i t) :=
  inferInstanceAs (Decidable (_ ∧ _))

namespace Partitioner

variable (p : Partitioner) {k : Nat} {E : List Nat}

abbrev Reads : Nat → TensorIndex → Prop := p.info.Reads

abbrev Writes : Nat → TensorIndex → Prop := p.info.Writes

def positions : List Nat := List.range p.info.numExecutionNodes

/-- Some node of the plan produces the tensor. -/
def Produced (t : TensorIndex) : Prop := ∃ j ∈ p.positions, p.Writes j t

instance (t : TensorIndex) : Decidable (p.Produced t) := inferInstanceAs (Decidable (∃ j ∈ _, _))

/-- All inputs and control dependencies of the node at `i` are done. -/
def Ready (done : List Nat) (i : Nat) : Prop :=
  (∀ t ∈ (p.info.node i).inputs, t ≠ kTfLiteOptionalTensor → p.Produced t →
    ∃ j ∈ done, p.Writes j t) ∧
  ∀ e ∈ p.controlEdges, e.2 = (i : Int) → ∃ j ∈ done, e.1 = (j : Int)

instance (done : List Nat) (i : Nat) : Decidable (p.Ready done i) :=
  inferInstanceAs (Decidable (_ ∧ _))

/-- The node at `i` is to be partitioned. -/
def isPartition (i : Nat) : Bool := decide ((p.info.nodeIndex i : Int) ∈ p.nodesToPartition)

/-- The traversal as a schedule of positions. -/
def batching : Batching Nat Bool where
  items := p.positions
  type := p.isPartition
  ready done i := decide (p.Ready done i)
  greedily := p.greedily
  fuse := !p.disableNodeFusion

theorem batching_monotone : p.batching.Monotone := by
  intro D D' i hD h
  obtain ⟨hin, hctl⟩ := of_decide_eq_true h
  refine decide_eq_true ⟨fun t ht ho hp => ?_, fun e he hi => ?_⟩
  · obtain ⟨j, hj, hw⟩ := hin t ht ho hp
    exact ⟨j, hD hj, hw⟩
  · obtain ⟨j, hj, hw⟩ := hctl e he hi
    exact ⟨j, hD hj, hw⟩

/-- The tensors nodes read from outside, in the order of the nodes. -/
def inputsFrom (pre : List Nat) : List Nat → List TensorIndex
  | [] => []
  | i :: is => ((p.info.node i).inputs.filter fun t => decide (t ≠ kTfLiteOptionalTensor) &&
      !decide (∃ j ∈ pre ++ [i], p.Writes j t)) ++ inputsFrom (pre ++ [i]) is

theorem inputsFrom_append (pre E : List Nat) (i : Nat) : p.inputsFrom pre (E ++ [i]) =
    p.inputsFrom pre E ++ (p.info.node i).inputs.filter fun t =>
      decide (t ≠ kTfLiteOptionalTensor) && !decide (∃ j ∈ pre ++ E ++ [i], p.Writes j t) := by
  induction E generalizing pre with
  | nil => simp [inputsFrom]
  | cons j E ih =>
    have hpre : pre ++ (j :: E) = pre ++ [j] ++ E := append_cons ..
    rw [cons_append, inputsFrom, inputsFrom, ih, hpre]
    exact (append_assoc ..).symm

/-! ## The effect of the loops over tensors and edges -/

theorem foldl_update {β : Type*} {κ : Type*} [DecidableEq κ] (l : List κ) (v : β) (f : κ → β)
    (t : κ) : l.foldl (fun f t => Function.update f t v) f t = if t ∈ l then v else f t := by
  induction l generalizing f with
  | nil => rfl
  | cons a l ih =>
    rw [foldl_cons, ih]
    by_cases hl : t ∈ l
    · simp [hl]
    · by_cases ha : t = a
      · simp [ha]
      · simp [hl, ha]

theorem foldl_updateCount (edges : List ControlEdge) (d : Int) (f : Int → Int) (x : Int) :
    edges.foldl (fun f e => Function.update f e.2 (f e.2 + d)) f x =
      f x + d * (edges.countP fun e => decide (e.2 = x) : Nat) := by
  induction edges generalizing f with
  | nil => simp
  | cons e edges ih =>
    rw [foldl_cons, ih, countP_cons]
    by_cases he : e.2 = x
    · subst he
      simp [Int.mul_add]
      omega
    · simp [he, Function.update_of_ne (Ne.symm he)]

/-- What reading `inputs` in `epoch` adds to the subset at `k`. -/
def readSubset (epoch : Nat) (epochs : TensorIndex → Epoch) (inputs : List TensorIndex) (k : Nat)
    (subset : NodeSubset) : NodeSubset :=
  { subset with
    inputTensors := subset.inputTensors ++ if k = epoch then inputs.filter fun t =>
      decide (t ≠ kTfLiteOptionalTensor) && !decide (epochs t = .assigned epoch) else []
    outputTensors := subset.outputTensors ++ if k = epoch then [] else inputs.filter fun t =>
      decide (t ≠ kTfLiteOptionalTensor) && decide (epochs t = .assigned k) }

theorem readSubset_append (epoch : Nat) (epochs : TensorIndex → Epoch) (l l' : List TensorIndex)
    (k : Nat) : readSubset epoch epochs l' k ∘ readSubset epoch epochs l k =
      readSubset epoch epochs (l ++ l') k := by
  funext subset
  by_cases hk : k = epoch <;> simp [readSubset, hk]

theorem readInput_spec (epoch : Nat) (s : PartitionState) (t : TensorIndex) :
    (readInput epoch s t).tensorEpochs = s.tensorEpochs ∧
    (readInput epoch s t).nodeEpochs = s.nodeEpochs ∧
    (readInput epoch s t).numIncomingControlEdges = s.numIncomingControlEdges ∧
    ∀ k, (readInput epoch s t).nodeSubsets[k]? =
      (s.nodeSubsets[k]?).map (readSubset epoch s.tensorEpochs [t] k) := by
  have hid (h : ∀ k subset, readSubset epoch s.tensorEpochs [t] k subset = subset) (k : Nat) :
      s.nodeSubsets[k]? = (s.nodeSubsets[k]?).map (readSubset epoch s.tensorEpochs [t] k) := by
    rw [show readSubset epoch s.tensorEpochs [t] k = id from funext (h k), Option.map_id]
    rfl
  by_cases ho : t = kTfLiteOptionalTensor
  · rw [readInput, if_pos ho]
    exact ⟨rfl, rfl, rfl, hid fun k subset => by simp [readSubset, ho]⟩
  · rw [readInput, if_neg ho]
    cases he : s.tensorEpochs t with
    | notReady =>
      refine ⟨rfl, rfl, rfl, fun k => ?_⟩
      rw [if_pos (by simp), getElem?_modify]
      refine congrArg (Option.map · _) (funext fun subset => ?_)
      by_cases hk : epoch = k
      · simp [readSubset, hk, ho, he]
      · simp [readSubset, hk, Ne.symm hk, he]
    | alwaysReady =>
      refine ⟨rfl, rfl, rfl, fun k => ?_⟩
      rw [if_pos (by simp), getElem?_modify]
      refine congrArg (Option.map · _) (funext fun subset => ?_)
      by_cases hk : epoch = k
      · simp [readSubset, hk, ho, he]
      · simp [readSubset, hk, Ne.symm hk, he]
    | assigned e =>
      by_cases hee : e = epoch
      · rw [if_neg (by simp [hee])]
        refine ⟨rfl, rfl, rfl, hid fun k subset => ?_⟩
        by_cases hk : k = epoch
        · simp [readSubset, hk, he, hee]
        · simp [readSubset, hk, he, hee, Ne.symm hk]
      · rw [if_pos (by simpa using hee)]
        refine ⟨rfl, rfl, rfl, fun k => ?_⟩
        rw [getElem?_modify, getElem?_modify, Option.map_eq_map, Option.map_eq_map, Option.map_map]
        refine congrArg (Option.map · _) (funext fun subset => ?_)
        by_cases hk : epoch = k
        · have hek : e ≠ k := fun h => hee (h.trans hk.symm)
          simp [readSubset, hk, ho, he, hek]
        · by_cases hek : e = k
          · simp [readSubset, hk, Ne.symm hk, ho, he, hek]
          · simp [readSubset, hk, Ne.symm hk, he, hek]

theorem foldl_readInput (epoch : Nat) (inputs : List TensorIndex) (s : PartitionState) :
    (inputs.foldl (readInput epoch) s).tensorEpochs = s.tensorEpochs ∧
    (inputs.foldl (readInput epoch) s).nodeEpochs = s.nodeEpochs ∧
    (inputs.foldl (readInput epoch) s).numIncomingControlEdges = s.numIncomingControlEdges ∧
    ∀ k, (inputs.foldl (readInput epoch) s).nodeSubsets[k]? =
      (s.nodeSubsets[k]?).map (readSubset epoch s.tensorEpochs inputs k) := by
  induction inputs generalizing s with
  | nil =>
    refine ⟨rfl, rfl, rfl, fun k => ?_⟩
    have hid : readSubset epoch s.tensorEpochs [] k = id := by
      funext subset
      simp [readSubset]
    rw [hid, Option.map_id]
    rfl
  | cons t inputs ih =>
    obtain ⟨g1, g2, g3, g4⟩ := readInput_spec epoch s t
    obtain ⟨h1, h2, h3, h4⟩ := ih (readInput epoch s t)
    refine ⟨h1.trans g1, h2.trans g2, h3.trans g3, fun k => ?_⟩
    rw [foldl_cons, h4, g4, g1, Option.map_map, readSubset_append]
    rfl

/-! ## What the state records -/

/-- The state after the batches `hist`, the last of which is the current subset. -/
structure Tracks (hist : List (List Nat)) (s : PartitionState) : Prop where
  mem : ∀ E ∈ hist, ∀ i ∈ E, i ∈ p.positions
  nodup : hist.flatten.Nodup
  length : s.nodeSubsets.length = hist.length
  subset : ∀ (k : Nat) (E : List Nat) (subset : NodeSubset), hist[k]? = some E → s.nodeSubsets[k]? = some subset →
    subset.nodes = E.map (fun i => (p.info.nodeIndex i : Int)) ∧
    subset.inputTensors = p.inputsFrom [] E ∧ (E = [] → subset.type = .unexplored) ∧
    ∀ i ∈ E, subset.type = p.nodeType (p.info.nodeIndex i)
  done : ∀ i, s.nodeEpochs i = .notReady ↔ i ∉ hist.flatten
  written : ∀ (t : TensorIndex) (k : Nat), s.tensorEpochs t = .assigned k ↔
    (∃ E, hist[k]? = some E ∧ ∃ i ∈ E, p.Writes i t) ∧
    ∀ (k' : Nat) (E' : List Nat), k < k' → hist[k']? = some E' → ∀ i ∈ E', ¬ p.Writes i t
  unwritten : ∀ t, s.tensorEpochs t = .notReady ↔ p.Produced t ∧ ∀ i ∈ hist.flatten, ¬ p.Writes i t
  unproduced : ∀ t, s.tensorEpochs t = .alwaysReady ↔ ¬ p.Produced t
  incoming : ∀ i : Int, s.numIncomingControlEdges i = (p.controlEdges.countP fun e =>
    decide (e.2 = i) && !decide (∃ j ∈ hist.flatten, e.1 = (j : Int)) : Nat)
  outputs : ∀ (k : Nat) (E : List Nat) (subset : NodeSubset), hist[k]? = some E → s.nodeSubsets[k]? = some subset →
    ∀ t ∈ subset.outputTensors, (∃ w ∈ E, p.Writes w t) ∧
      ∃ (m : Nat) (E' : List Nat), m ≠ k ∧ hist[m]? = some E' ∧ ∃ x ∈ E', p.Reads x t
  passed : ∀ (m : Nat) (E pre : List Nat) (x : Nat) (post : List Nat) (t : TensorIndex), hist[m]? = some E → E = pre ++ x :: post → p.Reads x t →
    p.Produced t → (∃ w ∈ pre ++ [x], p.Writes w t) ∨
      ∃ (k : Nat) (E' : List Nat) (subset : NodeSubset), k < m ∧ hist[k]? = some E' ∧ (∃ w ∈ E', p.Writes w t) ∧
        s.nodeSubsets[k]? = some subset ∧ t ∈ subset.outputTensors

theorem start_epochs (t : TensorIndex) :
    p.start.tensorEpochs t = if p.Produced t then .notReady else .alwaysReady := by
  suffices hsuff : ∀ (l : List Nat) (f : TensorIndex → Epoch), l.foldl (fun epochs i =>
      ((p.info.node i).outputs.filter (· ≠ kTfLiteOptionalTensor)).foldl (fun epochs t =>
        Function.update epochs t .notReady) epochs) f t =
      if ∃ j ∈ l, p.Writes j t then .notReady else f t from hsuff _ _
  intro l
  induction l with
  | nil => intro f; simp
  | cons i l ih =>
    intro f
    rw [foldl_cons, ih, foldl_update]
    by_cases hl : ∃ j ∈ l, p.Writes j t
    · have hl' : ∃ j ∈ i :: l, p.Writes j t := by
        obtain ⟨j, hj, hw⟩ := hl
        exact ⟨j, mem_cons_of_mem i hj, hw⟩
      rw [if_pos hl, if_pos hl']
    · have hiff : (∃ j ∈ i :: l, p.Writes j t) ↔
          t ∈ (p.info.node i).outputs.filter (· ≠ kTfLiteOptionalTensor) := by
        rw [exists_mem_cons_iff, or_iff_left hl, Writes, GraphInfo.Writes, mem_filter, decide_eq_true_eq,
          and_comm]
      rw [if_neg hl]
      simp only [hiff]

theorem Tracks.start : p.Tracks [] p.start where
  mem := by simp
  nodup := .nil
  length := rfl
  subset := by simp
  done := by simp [Partitioner.start]
  written t k := by
    rw [start_epochs]
    split <;> simp
  unwritten t := by
    rw [start_epochs]
    split <;> simp_all
  unproduced t := by
    rw [start_epochs]
    split <;> simp_all
  incoming i := by
    have h := foldl_updateCount p.controlEdges 1 (fun _ => 0) i
    simpa [Partitioner.start] using h
  outputs := by simp
  passed := by simp

variable {p} {hist : List (List Nat)} {s : PartitionState}

/-- A new, empty subset. -/
theorem Tracks.emplaceBack (h : p.Tracks hist s) :
    p.Tracks (hist ++ [[]]) s.emplaceBack := by
  have hflat : (hist ++ [[]]).flatten = hist.flatten := by simp
  have hold {k : Nat} {E : List Nat} (hk : hist[k]? = some E) : k < s.nodeSubsets.length := by
    rw [h.length]
    exact (List.getElem?_eq_some_iff.mp hk).1
  have hsub {k : Nat} {E : List Nat} (hk : hist[k]? = some E) :
      s.emplaceBack.nodeSubsets[k]? = s.nodeSubsets[k]? := getElem?_append_left (hold hk)
  constructor
  case mem =>
    intro E hE
    rcases mem_append.mp hE with hE | hE
    · exact h.mem E hE
    · rw [mem_singleton.mp hE]
      simp
  case nodup => exact hflat ▸ h.nodup
  case length => simp [PartitionState.emplaceBack, h.length]
  case subset =>
    intro k E subset hk hs
    rcases getElem?_snoc_eq_some.mp hk with hk | ⟨rfl, rfl⟩
    · exact h.subset k E subset hk (hsub hk ▸ hs)
    · rw [← h.length, PartitionState.emplaceBack, getElem?_concat_length, Option.some.injEq] at hs
      subst hs
      exact ⟨rfl, rfl, fun _ => rfl, by simp⟩
  case done => exact fun i => hflat ▸ h.done i
  case written =>
    intro t k
    refine (h.written t k).trans (and_congr ⟨?_, ?_⟩ ⟨?_, ?_⟩)
    · rintro ⟨E, hk, hw⟩
      exact ⟨E, getElem?_snoc_eq_some.mpr (.inl hk), hw⟩
    · rintro ⟨E, hk, hw⟩
      rcases getElem?_snoc_eq_some.mp hk with hk | ⟨-, rfl⟩
      · exact ⟨E, hk, hw⟩
      · simp at hw
    · intro hall k' E' hlt hk'
      rcases getElem?_snoc_eq_some.mp hk' with hk' | ⟨-, rfl⟩
      · exact hall k' E' hlt hk'
      · simp
    · exact fun hall k' E' hlt hk' => hall k' E' hlt (getElem?_snoc_eq_some.mpr (.inl hk'))
  case unwritten => exact fun t => hflat ▸ h.unwritten t
  case unproduced => exact h.unproduced
  case incoming => exact fun i => (h.incoming i).trans (by simp only [hflat])
  case outputs =>
    intro k E subset hk hs t ht
    rcases getElem?_snoc_eq_some.mp hk with hk | ⟨rfl, rfl⟩
    · obtain ⟨hw, m, E', hne, hm, hx⟩ := h.outputs k E subset hk (hsub hk ▸ hs) t ht
      exact ⟨hw, m, E', hne, getElem?_snoc_eq_some.mpr (.inl hm), hx⟩
    · rw [← h.length, PartitionState.emplaceBack, getElem?_concat_length, Option.some.injEq] at hs
      subst hs
      cases ht
  case passed =>
    intro m E pre x post t hm hE hx hp
    rcases getElem?_snoc_eq_some.mp hm with hm | ⟨-, rfl⟩
    · refine (h.passed m E pre x post t hm hE hx hp).imp_right ?_
      rintro ⟨k, E', subset, hlt, hk, hw, hs, ht⟩
      exact ⟨k, E', subset, hlt, getElem?_snoc_eq_some.mpr (.inl hk), hw, (hsub hk).trans hs, ht⟩
    · simp at hE

/-- The empty subset at the end is dropped. -/
theorem Tracks.popBack (h : p.Tracks (hist ++ [[]]) s) : p.Tracks hist s.popBack := by
  have hflat : (hist ++ [[]]).flatten = hist.flatten := by simp
  have hlen : s.nodeSubsets.length = hist.length + 1 := by simpa using h.length
  have hold {k : Nat} {E : List Nat} (hk : hist[k]? = some E) :
      (hist ++ [[]])[k]? = some E ∧ s.popBack.nodeSubsets[k]? = s.nodeSubsets[k]? := by
    have hlt := (List.getElem?_eq_some_iff.mp hk).1
    refine ⟨getElem?_snoc_eq_some.mpr (.inl hk), ?_⟩
    rw [PartitionState.popBack, getElem?_dropLast, if_pos (by omega)]
  constructor
  case mem => exact fun E hE => h.mem E (mem_append_left _ hE)
  case nodup => exact hflat ▸ h.nodup
  case length => simp [PartitionState.popBack, hlen]
  case subset =>
    exact fun k E subset hk hs => h.subset k E subset (hold hk).1 ((hold hk).2 ▸ hs)
  case done => exact fun i => hflat ▸ h.done i
  case written =>
    intro t k
    refine (h.written t k).trans (and_congr ⟨?_, ?_⟩ ⟨?_, ?_⟩)
    · rintro ⟨E, hk, hw⟩
      rcases getElem?_snoc_eq_some.mp hk with hk | ⟨-, rfl⟩
      · exact ⟨E, hk, hw⟩
      · simp at hw
    · rintro ⟨E, hk, hw⟩
      exact ⟨E, (hold hk).1, hw⟩
    · exact fun hall k' E' hlt hk' => hall k' E' hlt (hold hk').1
    · intro hall k' E' hlt hk'
      rcases getElem?_snoc_eq_some.mp hk' with hk' | ⟨-, rfl⟩
      · exact hall k' E' hlt hk'
      · simp
  case unwritten => exact fun t => hflat ▸ h.unwritten t
  case unproduced => exact h.unproduced
  case incoming => exact fun i => (h.incoming i).trans (by simp only [hflat])
  case outputs =>
    intro k E subset hk hs t ht
    obtain ⟨hw, m, E', hne, hm, x, hx, hr⟩ := h.outputs k E subset (hold hk).1 ((hold hk).2 ▸ hs) t ht
    rcases getElem?_snoc_eq_some.mp hm with hm | ⟨-, rfl⟩
    · exact ⟨hw, m, E', hne, hm, x, hx, hr⟩
    · cases hx
  case passed =>
    intro m E pre x post t hm hE hx hp
    refine (h.passed m E pre x post t (hold hm).1 hE hx hp).imp_right ?_
    rintro ⟨k, E', subset, hlt, hk, hw, hs, ht⟩
    rcases getElem?_snoc_eq_some.mp hk with hk | ⟨-, rfl⟩
    · exact ⟨k, E', subset, hlt, hk, hw, (hold hk).2.trans hs, ht⟩
    · simp at hw

/-- The tensor epochs once the node at `i` has joined the current epoch. -/
theorem assign_epochs (type : NodeSubsetType) (i : Nat) (t : TensorIndex) :
    (p.assign type s i).tensorEpochs t =
      if p.Writes i t then .assigned s.currentEpoch else s.tensorEpochs t := by
  have hiff : p.Writes i t ↔ t ∈ (p.info.node i).outputs.filter (· ≠ kTfLiteOptionalTensor) := by
    rw [Writes, GraphInfo.Writes, mem_filter, decide_eq_true_eq, and_comm]
  rw [assign]
  simp only [(foldl_readInput _ _ _).1, foldl_update, hiff]

theorem assign_nodeEpochs (type : NodeSubsetType) (i : Nat) :
    (p.assign type s i).nodeEpochs = Function.update s.nodeEpochs i (.assigned s.currentEpoch) :=
  (foldl_readInput _ _ _).2.1

theorem assign_incoming (type : NodeSubsetType) (i : Nat) (x : Int) :
    (p.assign type s i).numIncomingControlEdges x = s.numIncomingControlEdges x -
      (p.controlEdges.countP fun e => decide (e.1 = (i : Int)) && decide (e.2 = x) : Nat) := by
  rw [assign]
  simp only [(foldl_readInput _ _ _).2.2.1, Int.sub_eq_add_neg]
  rw [foldl_updateCount, countP_filter]
  simp only [Bool.and_comm (decide (_ = x))]
  omega

/-- What joining the current epoch adds to the subset at `k`. -/
theorem assign_subsets (type : NodeSubsetType) (i k : Nat) :
    (p.assign type s i).nodeSubsets[k]? = (s.nodeSubsets[k]?).map fun subset =>
      readSubset s.currentEpoch (p.assign type s i).tensorEpochs (p.info.node i).inputs k
        (if s.currentEpoch = k then { subset with
          type := type, nodes := subset.nodes ++ [(p.info.nodeIndex i : Int)] } else subset) := by
  have hr := foldl_readInput s.currentEpoch (p.info.node i).inputs { s with
    nodeEpochs := Function.update s.nodeEpochs i (.assigned s.currentEpoch)
    nodeSubsets := s.nodeSubsets.modify s.currentEpoch fun subset =>
      { subset with type := type, nodes := subset.nodes ++ [(p.info.nodeIndex i : Int)] }
    tensorEpochs := ((p.info.node i).outputs.filter (· ≠ kTfLiteOptionalTensor)).foldl
      (fun epochs t => Function.update epochs t (.assigned s.currentEpoch)) s.tensorEpochs }
  have hepochs : (p.assign type s i).tensorEpochs = _ := hr.1
  have hsubsets : (p.assign type s i).nodeSubsets[k]? = _ := hr.2.2.2 k
  rw [hsubsets, hepochs, getElem?_modify, Option.map_eq_map, Option.map_map]
  rfl

theorem length_assign (type : NodeSubsetType) (i : Nat) :
    (p.assign type s i).nodeSubsets.length = s.nodeSubsets.length := by
  have h (k : Nat) : (p.assign type s i).nodeSubsets.length ≤ k ↔ s.nodeSubsets.length ≤ k := by
    rw [← List.getElem?_eq_none_iff, ← List.getElem?_eq_none_iff, assign_subsets,
      Option.map_eq_none_iff]
  exact Nat.le_antisymm ((h _).mpr (Nat.le_refl _)) ((h _).mp (Nat.le_refl _))

/-! ## A node joins the current subset -/

/-- The node at `i` is ready, new, and of the type `type` of the nodes in `cur`. -/
structure Joins (p : Partitioner) (hist : List (List Nat)) (s : PartitionState) (cur : List Nat)
    (type : NodeSubsetType) (i : Nat) : Prop where
  tracks : p.Tracks (hist ++ [cur]) s
  mem : i ∈ p.positions
  new : i ∉ (hist ++ [cur]).flatten
  ready : ∀ t, p.Reads i t → p.Produced t → ∃ j ∈ (hist ++ [cur]).flatten, p.Writes j t
  type_eq : ∀ j ∈ cur ++ [i], type = p.nodeType (p.info.nodeIndex j)

theorem flatten_snoc (hist : List (List Nat)) (cur : List Nat) (i : Nat) :
    (hist ++ [cur ++ [i]]).flatten = (hist ++ [cur]).flatten ++ [i] := by simp

theorem getElem?_snoc_length (hist : List (List Nat)) (cur : List Nat) :
    (hist ++ [cur])[hist.length]? = some cur := by simp

theorem ne_length_of_getElem? (hk : hist[k]? = some E) :
    k ≠ hist.length := fun he => by
  rw [he, getElem?_eq_none (Nat.le_refl _)] at hk
  cases hk

/-- A batch is still there when the last one grows. -/
theorem exists_batch_snoc {cur : List Nat} (i : Nat) (hk : (hist ++ [cur])[k]? = some E) :
    ∃ E', (hist ++ [cur ++ [i]])[k]? = some E' ∧ E ⊆ E' := by
  rcases getElem?_snoc_eq_some.mp hk with hk | ⟨rfl, rfl⟩
  · exact ⟨E, getElem?_snoc_eq_some.mpr (.inl hk), List.Subset.refl _⟩
  · exact ⟨cur ++ [i], getElem?_snoc_length .., subset_append_left _ _⟩

namespace Joins

variable {cur : List Nat} {type : NodeSubsetType} {i : Nat} (h : Joins p hist s cur type i)
  {k : Nat} {subset' : NodeSubset} {E : List Nat}

include h

theorem epoch_eq : s.currentEpoch = hist.length := by
  rw [PartitionState.currentEpoch, h.tracks.length]
  simp

theorem epochs_eq (t : TensorIndex) : (p.assign type s i).tensorEpochs t =
    if p.Writes i t then .assigned hist.length else s.tensorEpochs t := by
  rw [assign_epochs, h.epoch_eq]

theorem current_iff (t : TensorIndex) :
    (p.assign type s i).tensorEpochs t = .assigned hist.length ↔
      ∃ j ∈ cur ++ [i], p.Writes j t := by
  rw [h.epochs_eq]
  by_cases hw : p.Writes i t
  · simp only [hw, ↓reduceIte, true_iff]
    exact ⟨i, by simp, hw⟩
  · rw [if_neg hw, h.tracks.written]
    constructor
    · rintro ⟨⟨E, hk, j, hj, hwj⟩, -⟩
      rw [getElem?_snoc_length, Option.some.injEq] at hk
      exact ⟨j, mem_append_left _ (hk ▸ hj), hwj⟩
    · rintro ⟨j, hj, hwj⟩
      refine ⟨⟨cur, getElem?_snoc_length .., j, ?_, hwj⟩, fun k' E' hlt hk' => ?_⟩
      · refine (mem_append.mp hj).resolve_right fun hji => hw ?_
        rwa [mem_singleton.mp hji] at hwj
      · have hk' := (List.getElem?_eq_some_iff.mp hk').1
        simp only [length_append, length_singleton] at hk'
        omega

theorem written (t : TensorIndex) (k : Nat) : (p.assign type s i).tensorEpochs t = .assigned k ↔
    (∃ E, (hist ++ [cur ++ [i]])[k]? = some E ∧ ∃ j ∈ E, p.Writes j t) ∧
    ∀ (k' : Nat) (E' : List Nat), k < k' → (hist ++ [cur ++ [i]])[k']? = some E' →
      ∀ j ∈ E', ¬ p.Writes j t := by
  by_cases hk : k = hist.length
  · rw [hk, h.current_iff]
    constructor
    · refine fun hw => ⟨⟨_, getElem?_snoc_length .., hw⟩, fun k' E' hlt hk' => ?_⟩
      have hk' := (List.getElem?_eq_some_iff.mp hk').1
      simp only [length_append, length_singleton] at hk'
      omega
    · rintro ⟨⟨E, hE, hw⟩, -⟩
      rw [getElem?_snoc_length, Option.some.injEq] at hE
      exact hE ▸ hw
  · have hfront (c : List Nat) (E : List Nat) :
        (hist ++ [c])[k]? = some E ↔ hist[k]? = some E := by
      rw [getElem?_snoc_eq_some, or_iff_left fun h => hk h.1]
    by_cases hw : p.Writes i t
    · rw [h.epochs_eq, if_pos hw]
      refine ⟨fun he => absurd (Epoch.assigned.inj he).symm hk, fun hr => ?_⟩
      obtain ⟨⟨E, hE, -⟩, hall⟩ := hr
      have hlt := (List.getElem?_eq_some_iff.mp ((hfront _ _).mp hE)).1
      exact absurd hw (hall hist.length _ hlt (getElem?_snoc_length ..) i (by simp))
    · rw [h.epochs_eq, if_neg hw, h.tracks.written]
      simp only [hfront]
      refine and_congr_right fun _ => ⟨fun hall k' E' hlt hk' j hj hwj => ?_,
        fun hall k' E' hlt hk' j hj hwj => ?_⟩
      · rcases getElem?_snoc_eq_some.mp hk' with hk' | ⟨rfl, rfl⟩
        · exact hall k' E' hlt (getElem?_snoc_eq_some.mpr (.inl hk')) j hj hwj
        · refine hall _ cur hlt (getElem?_snoc_length ..) j ?_ hwj
          refine (mem_append.mp hj).resolve_right fun hji => hw ?_
          rwa [mem_singleton.mp hji] at hwj
      · obtain ⟨E'', hk'', hsub⟩ := exists_batch_snoc i hk'
        exact hall k' E'' hlt hk'' j (hsub hj) hwj

theorem incoming (x : Int) : (p.assign type s i).numIncomingControlEdges x =
    (p.controlEdges.countP fun e => decide (e.2 = x) &&
      !decide (∃ j ∈ (hist ++ [cur ++ [i]]).flatten, e.1 = (j : Int)) : Nat) := by
  rw [assign_incoming, h.tracks.incoming]
  have hsplit := countP_eq_countP_filter_add p.controlEdges (fun e => decide (e.2 = x) &&
    !decide (∃ j ∈ (hist ++ [cur]).flatten, e.1 = (j : Int))) fun e => decide (e.1 = (i : Int))
  have hin : (p.controlEdges.filter fun e => decide (e.1 = (i : Int))).countP (fun e =>
      decide (e.2 = x) && !decide (∃ j ∈ (hist ++ [cur]).flatten, e.1 = (j : Int))) =
      p.controlEdges.countP fun e => decide (e.1 = (i : Int)) && decide (e.2 = x) := by
    rw [countP_filter]
    refine countP_congr fun e _ => ?_
    simp only [Bool.and_eq_true, Bool.not_eq_true', decide_eq_true_eq, decide_eq_false_iff_not]
    constructor
    · rintro ⟨⟨hx, -⟩, hi⟩
      exact ⟨hi, hx⟩
    · rintro ⟨hi, hx⟩
      refine ⟨⟨hx, ?_⟩, hi⟩
      rintro ⟨j, hj, hij⟩
      obtain rfl : i = j := Int.ofNat.inj (hi.symm.trans hij)
      exact h.new hj
  have hout : (p.controlEdges.filter fun e => !decide (e.1 = (i : Int))).countP (fun e =>
      decide (e.2 = x) && !decide (∃ j ∈ (hist ++ [cur]).flatten, e.1 = (j : Int))) =
      p.controlEdges.countP fun e => decide (e.2 = x) &&
        !decide (∃ j ∈ (hist ++ [cur ++ [i]]).flatten, e.1 = (j : Int)) := by
    rw [countP_filter]
    refine countP_congr fun e _ => ?_
    simp only [Bool.and_eq_true, Bool.not_eq_true', decide_eq_true_eq, decide_eq_false_iff_not,
      flatten_snoc, mem_append, mem_singleton, not_exists, not_and]
    constructor
    · rintro ⟨⟨hx, hall⟩, hi⟩
      refine ⟨hx, fun j hj => ?_⟩
      rcases hj with hj | rfl
      · exact hall j hj
      · exact hi
    · rintro ⟨hx, hall⟩
      exact ⟨⟨hx, fun j hj => hall j (.inl hj)⟩, hall i (.inr rfl)⟩
  rw [hin, hout] at hsplit
  omega

theorem exists_subset (hs : (p.assign type s i).nodeSubsets[k]? = some subset') :
    ∃ subset, s.nodeSubsets[k]? = some subset ∧
      subset' = readSubset hist.length (p.assign type s i).tensorEpochs (p.info.node i).inputs k
        (if hist.length = k then { subset with
          type := type, nodes := subset.nodes ++ [(p.info.nodeIndex i : Int)] } else subset) := by
  rw [assign_subsets, Option.map_eq_some_iff, h.epoch_eq] at hs
  obtain ⟨subset, hs, rfl⟩ := hs
  exact ⟨subset, hs, rfl⟩

theorem subset (hk : (hist ++ [cur ++ [i]])[k]? = some E)
    (hs : (p.assign type s i).nodeSubsets[k]? = some subset') :
    subset'.nodes = E.map (fun i => (p.info.nodeIndex i : Int)) ∧
    subset'.inputTensors = p.inputsFrom [] E ∧ (E = [] → subset'.type = .unexplored) ∧
    ∀ j ∈ E, subset'.type = p.nodeType (p.info.nodeIndex j) := by
  obtain ⟨subset, hs₀, rfl⟩ := h.exists_subset hs
  rcases getElem?_snoc_eq_some.mp hk with hk | ⟨rfl, rfl⟩
  · obtain ⟨h1, h2, h3, h4⟩ := h.tracks.subset k E subset (getElem?_snoc_eq_some.mpr (.inl hk)) hs₀
    have hne := ne_length_of_getElem? hk
    rw [if_neg (Ne.symm hne)]
    refine ⟨h1, ?_, h3, h4⟩
    rw [readSubset, if_neg hne, append_nil]
    exact h2
  · obtain ⟨h1, h2, -, -⟩ := h.tracks.subset _ cur subset (getElem?_snoc_length ..) hs₀
    rw [if_pos rfl]
    refine ⟨?_, ?_, by simp, h.type_eq⟩
    · rw [readSubset, map_append, h1]
      rfl
    · simp only [readSubset, ↓reduceIte, h2, inputsFrom_append, nil_append]
      refine congrArg _ (filter_congr fun t _ => ?_)
      rw [decide_eq_decide.mpr (h.current_iff t)]

theorem outputs (hk : (hist ++ [cur ++ [i]])[k]? = some E)
    (hs : (p.assign type s i).nodeSubsets[k]? = some subset') :
    ∀ t ∈ subset'.outputTensors, (∃ w ∈ E, p.Writes w t) ∧
      ∃ (m : Nat) (E' : List Nat), m ≠ k ∧ (hist ++ [cur ++ [i]])[m]? = some E' ∧
        ∃ x ∈ E', p.Reads x t := by
  obtain ⟨subset, hs₀, rfl⟩ := h.exists_subset hs
  intro t ht
  -- outputs that were there before
  have hbefore (E₀ : List Nat) (hE₀ : (hist ++ [cur])[k]? = some E₀)
      (ht : t ∈ subset.outputTensors) : (∃ w ∈ E, p.Writes w t) ∧
      ∃ (m : Nat) (E' : List Nat), m ≠ k ∧ (hist ++ [cur ++ [i]])[m]? = some E' ∧
        ∃ x ∈ E', p.Reads x t := by
    obtain ⟨⟨w, hw, hwt⟩, m, E', hne, hm, x, hx, hr⟩ := h.tracks.outputs k E₀ subset hE₀ hs₀ t ht
    obtain ⟨E₁, hE₁, hsub⟩ := exists_batch_snoc i hE₀
    rw [hk, Option.some.injEq] at hE₁
    obtain ⟨E₂, hE₂, hsub'⟩ := exists_batch_snoc i hm
    exact ⟨⟨w, hE₁ ▸ hsub hw, hwt⟩, m, E₂, hne, hE₂, x, hsub' hx, hr⟩
  rcases getElem?_snoc_eq_some.mp hk with hk' | ⟨rfl, rfl⟩
  · have hne := ne_length_of_getElem? hk'
    simp only [readSubset, if_neg (Ne.symm hne), if_neg hne, mem_append, mem_filter,
      Bool.and_eq_true, decide_eq_true_eq] at ht
    rcases ht with ht | ⟨hin, ho, he⟩
    · exact hbefore E (getElem?_snoc_eq_some.mpr (.inl hk')) ht
    · obtain ⟨⟨E', hE', hw⟩, -⟩ := (h.written t k).mp he
      rw [hk, Option.some.injEq] at hE'
      exact ⟨hE' ▸ hw, hist.length, _, hne.symm, getElem?_snoc_length .., i, by simp, ho, hin⟩
  · simp only [readSubset, ↓reduceIte, append_nil] at ht
    exact hbefore cur (getElem?_snoc_length ..) ht

theorem passed {m : Nat} {E pre post : List Nat} {x : Nat} {t : TensorIndex}
    (hm : (hist ++ [cur ++ [i]])[m]? = some E) (hE : E = pre ++ x :: post) (hx : p.Reads x t)
    (hp : p.Produced t) : (∃ w ∈ pre ++ [x], p.Writes w t) ∨
      ∃ (k : Nat) (E' : List Nat) (subset : NodeSubset), k < m ∧
        (hist ++ [cur ++ [i]])[k]? = some E' ∧ (∃ w ∈ E', p.Writes w t) ∧
        (p.assign type s i).nodeSubsets[k]? = some subset ∧ t ∈ subset.outputTensors := by
  -- what an earlier subset passes on stays an output of it
  have hbefore {E₀ : List Nat} (hE₀ : (hist ++ [cur])[m]? = some E₀) {post₀ : List Nat}
      (he : E₀ = pre ++ x :: post₀) : (∃ w ∈ pre ++ [x], p.Writes w t) ∨
      ∃ (k : Nat) (E' : List Nat) (subset : NodeSubset), k < m ∧
        (hist ++ [cur ++ [i]])[k]? = some E' ∧ (∃ w ∈ E', p.Writes w t) ∧
        (p.assign type s i).nodeSubsets[k]? = some subset ∧ t ∈ subset.outputTensors := by
    refine (h.tracks.passed m E₀ pre x post₀ t hE₀ he hx hp).imp_right ?_
    rintro ⟨k, E', subset, hlt, hk, ⟨w, hw, hwt⟩, hs, ht⟩
    obtain ⟨E₁, hE₁, hsub⟩ := exists_batch_snoc i hk
    refine ⟨k, E₁, _, hlt, hE₁, ⟨w, hsub hw, hwt⟩, by rw [assign_subsets, hs]; rfl, ?_⟩
    refine mem_append_left _ ?_
    split
    · exact ht
    · exact ht
  rcases getElem?_snoc_eq_some.mp hm with hm' | ⟨rfl, rfl⟩
  · exact hbefore (getElem?_snoc_eq_some.mpr (.inl hm')) hE
  · rcases eq_nil_or_concat post with rfl | ⟨post, y, rfl⟩
    · obtain ⟨rfl, hix⟩ := append_inj' hE rfl
      obtain rfl : i = x := head_eq_of_cons_eq hix
      by_cases hw : ∃ w ∈ cur ++ [i], p.Writes w t
      · exact .inl hw
      · -- the tensor comes from an earlier epoch
        have hwi : ¬ p.Writes i t := fun hwi => hw ⟨i, by simp, hwi⟩
        obtain ⟨j, hj, hwj⟩ := h.ready t hx hp
        cases he : s.tensorEpochs t with
        | notReady => exact absurd hwj (((h.tracks.unwritten t).mp he).2 j hj)
        | alwaysReady => exact absurd hp ((h.tracks.unproduced t).mp he)
        | assigned k =>
          have he' : (p.assign type s i).tensorEpochs t = .assigned k := by
            rw [h.epochs_eq, if_neg hwi, he]
          have hne : k ≠ hist.length := fun hk => hw ((h.current_iff t).mp (hk ▸ he'))
          obtain ⟨⟨E', hE', hw'⟩, -⟩ := (h.written t k).mp he'
          have hlt := (List.getElem?_eq_some_iff.mp hE').1
          rw [length_append, length_singleton] at hlt
          have hks : k < s.nodeSubsets.length := by
            rw [h.tracks.length, length_append, length_singleton]
            exact hlt
          refine .inr ⟨k, E', _, Nat.lt_of_le_of_ne (Nat.le_of_lt_succ hlt) hne, hE', hw',
            by rw [assign_subsets, getElem?_eq_getElem hks]; rfl, ?_⟩
          simp only [readSubset, h.epoch_eq, if_neg hne]
          refine mem_append_right _ (mem_filter.mpr ⟨hx.2, ?_⟩)
          rw [Bool.and_eq_true, decide_eq_true_eq, decide_eq_true_eq]
          exact ⟨hx.1, he'⟩
    · rw [concat_eq_append, ← cons_append, ← append_assoc] at hE
      exact hbefore (getElem?_snoc_length ..) (append_inj' hE rfl).1

theorem step : p.Tracks (hist ++ [cur ++ [i]]) (p.assign type s i) where
  mem E hE := by
    rcases mem_append.mp hE with hE | hE
    · exact h.tracks.mem E (mem_append_left _ hE)
    · rw [mem_singleton.mp hE]
      intro j hj
      rcases mem_append.mp hj with hj | hj
      · exact h.tracks.mem cur (by simp) j hj
      · exact mem_singleton.mp hj ▸ h.mem
  nodup := by
    rw [flatten_snoc, nodup_append]
    refine ⟨h.tracks.nodup, nodup_singleton i, fun a ha b hb hab => ?_⟩
    rw [hab, mem_singleton.mp hb] at ha
    exact h.new ha
  length := by rw [length_assign, h.tracks.length, length_append, length_append]; rfl
  subset _ _ _ := h.subset
  done j := by
    rw [assign_nodeEpochs, flatten_snoc, mem_append, mem_singleton]
    by_cases hj : j = i
    · simp [hj]
    · rw [Function.update_of_ne hj, h.tracks.done, or_iff_left hj]
  written := h.written
  unwritten t := by
    rw [h.epochs_eq, flatten_snoc]
    by_cases hw : p.Writes i t
    · rw [if_pos hw]
      exact ⟨fun he => (by cases he), fun hr => absurd hw (hr.2 i (by simp))⟩
    · rw [if_neg hw, h.tracks.unwritten]
      refine and_congr_right fun _ => ⟨fun hall j hj => ?_, fun hall j hj =>
        hall j (mem_append_left _ hj)⟩
      rcases mem_append.mp hj with hj | hj
      · exact hall j hj
      · exact mem_singleton.mp hj ▸ hw
  unproduced t := by
    rw [h.epochs_eq]
    by_cases hw : p.Writes i t
    · rw [if_pos hw]
      exact ⟨fun he => (by cases he), fun hr => absurd ⟨i, h.mem, hw⟩ hr⟩
    · rw [if_neg hw, h.tracks.unproduced]
  incoming := h.incoming
  outputs _ _ _ := h.outputs
  passed _ _ _ _ _ _ := h.passed

end Joins

/-! ## The loops -/

theorem nodeType_eq_iff (i j : Nat) : p.nodeType (p.info.nodeIndex i) =
    p.nodeType (p.info.nodeIndex j) ↔ p.isPartition i = p.isPartition j := by
  simp only [nodeType, isPartition]
  by_cases hi : (p.info.nodeIndex i : Int) ∈ p.nodesToPartition <;>
    by_cases hj : (p.info.nodeIndex j : Int) ∈ p.nodesToPartition <;> simp [hi, hj]

theorem nodeType_ne_unexplored (node : Int) : p.nodeType node ≠ .unexplored := by
  rw [nodeType]
  split <;> simp

theorem flatten_batches (hist : List (List Nat)) (cur : List Nat) :
    (hist ++ [cur]).flatten = hist.flatten ++ cur := by simp

section
variable {cur : List Nat} (h : p.Tracks (hist ++ [cur]) s)

include h

theorem Tracks.currentSubset : s.nodeSubsets[hist.length]? = some s.currentSubset ∧
    s.currentSubset.nodes = cur.map (fun i => (p.info.nodeIndex i : Int)) ∧
    (cur = [] → s.currentSubset.type = .unexplored) ∧
    ∀ i ∈ cur, s.currentSubset.type = p.nodeType (p.info.nodeIndex i) := by
  have hlen : s.nodeSubsets.length = hist.length + 1 := by simpa using h.length
  have hcur : s.nodeSubsets[hist.length]? = some s.currentSubset := by
    rw [PartitionState.currentSubset, getLast?_eq_getElem?, hlen, Nat.add_sub_cancel,
      getElem?_eq_getElem (by omega)]
    rfl
  obtain ⟨h1, -, h3, h4⟩ := h.subset _ cur _ (getElem?_snoc_length ..) hcur
  exact ⟨hcur, h1, h3, h4⟩

theorem Tracks.inputs_ready_iff (i : Nat) : ((p.info.node i).inputs.any fun t =>
    decide (t ≠ kTfLiteOptionalTensor) && decide (s.tensorEpochs t = .notReady)) = false ↔
    ∀ t ∈ (p.info.node i).inputs, t ≠ kTfLiteOptionalTensor → p.Produced t →
      ∃ j ∈ hist.flatten ++ cur, p.Writes j t := by
  rw [any_eq_false]
  refine forall_congr' fun t => imp_congr_right fun _ => ?_
  rw [Bool.and_eq_true, decide_eq_true_eq, decide_eq_true_eq, h.unwritten, flatten_batches]
  constructor
  · intro hn ho hp
    by_contra hw
    exact hn ⟨ho, hp, fun j hj hwj => hw ⟨j, hj, hwj⟩⟩
  · rintro hall ⟨ho, hp, hn⟩
    obtain ⟨j, hj, hw⟩ := hall ho hp
    exact hn j hj hw

theorem Tracks.incoming_eq_zero_iff (i : Nat) : s.numIncomingControlEdges i = 0 ↔
    ∀ e ∈ p.controlEdges, e.2 = (i : Int) → ∃ j ∈ hist.flatten ++ cur, e.1 = (j : Int) := by
  rw [h.incoming, flatten_batches, Int.natCast_eq_zero, countP_eq_zero]
  refine forall_congr' fun e => imp_congr_right fun _ => ?_
  rw [Bool.and_eq_true, Bool.not_eq_true', decide_eq_true_eq, decide_eq_false_iff_not, not_and,
    not_not]

/-- `UpdateNode` assigns the nodes that are eligible. -/
theorem Tracks.updateNode {i : Nat} (hi : i ∈ p.positions) :
    (p.batching.eligible hist.flatten cur i = true → ∃ s', p.updateNode s i = some s' ∧
      p.Tracks (hist ++ [cur ++ [i]]) s') ∧
    (p.batching.eligible hist.flatten cur i = false → p.updateNode s i = none) := by
  obtain ⟨-, hnodes, hnew, htypes⟩ := h.currentSubset
  have hdone : s.nodeEpochs i = .notReady ↔ i ∉ hist.flatten ++ cur := by
    rw [h.done, flatten_batches]
  have hfused : (p.disableNodeFusion && !s.currentSubset.nodes.isEmpty) = true ↔
      p.disableNodeFusion = true ∧ cur ≠ [] := by
    rw [hnodes, isEmpty_map, Bool.and_eq_true, Bool.not_eq_true', isEmpty_eq_false_iff]
  -- the type the subset has or gets
  have htype : (if s.currentSubset.type = .unexplored then p.nodeType (p.info.nodeIndex i)
      else s.currentSubset.type) = p.nodeType (p.info.nodeIndex i) ↔
      ∀ j, cur.head? = some j → p.isPartition i = p.isPartition j := by
    cases cur with
    | nil => simp [hnew rfl]
    | cons j cur =>
      have hj := htypes j (mem_cons_self ..)
      rw [if_neg (hj ▸ nodeType_ne_unexplored _), hj, eq_comm, nodeType_eq_iff]
      simp
  constructor
  · intro he
    obtain ⟨hnot, hr, ht⟩ := Batching.eligible_iff.mp he
    obtain ⟨hin, hctl⟩ := of_decide_eq_true hr
    have hty := htype.mpr fun j hj => (ht j hj).2
    refine ⟨p.assign (p.nodeType (p.info.nodeIndex i)) s i, ?_, Joins.step ⟨h, hi, ?_, ?_, ?_⟩⟩
    · have h1 : ¬ (p.disableNodeFusion && !s.currentSubset.nodes.isEmpty) = true := by
        rw [hfused]
        rintro ⟨hf, hne⟩
        obtain ⟨j, hj⟩ := Option.ne_none_iff_exists'.mp fun h => hne (head?_eq_none_iff.mp h)
        have := (ht j hj).1
        simp [batching, hf] at this
      simp only [Partitioner.updateNode, if_neg h1, hdone.mpr hnot, (h.inputs_ready_iff i).mpr hin,
        (h.incoming_eq_zero_iff i).mpr hctl, hty]
      simp
    · rwa [flatten_batches]
    · intro t ht hp
      rw [flatten_batches]
      exact hin t ht.2 ht.1 hp
    · intro j hj
      rcases mem_append.mp hj with hj | hj
      · obtain ⟨k, hk⟩ := Option.ne_none_iff_exists'.mp fun h =>
          ne_nil_of_mem hj (head?_eq_none_iff.mp h)
        rw [← htypes j hj, htypes k (mem_of_mem_head? hk), nodeType_eq_iff]
        exact (ht k hk).2
      · rw [mem_singleton.mp hj]
  · intro he
    by_contra hn
    rw [Partitioner.updateNode] at hn
    split at hn
    · exact hn rfl
    next h1 =>
    split at hn
    · exact hn rfl
    next h2 =>
    split at hn
    · exact hn rfl
    next h3 =>
    split at hn
    · exact hn rfl
    next h4 =>
      have h5 := not_not.mp fun h5 => hn (if_neg h5)
      have hr : p.Ready (hist.flatten ++ cur) i :=
        ⟨(h.inputs_ready_iff i).mp (Bool.eq_false_iff.mpr h3),
          (h.incoming_eq_zero_iff i).mp (not_not.mp h4)⟩
      have hel : p.batching.eligible hist.flatten cur i = true := by
        refine Batching.eligible_iff.mpr ⟨hdone.mp (not_not.mp h2), decide_eq_true hr,
          fun j hj => ⟨?_, htype.mp h5 j hj⟩⟩
        have hne : cur ≠ [] := ne_nil_of_mem (mem_of_mem_head? hj)
        have := fun hf => h1 (hfused.mpr ⟨hf, hne⟩)
        simpa [batching] using this
      rw [he] at hel
      cases hel

/-- One round over some positions follows one scan. -/
theorem Tracks.updateNodes {is : List Nat} (his : ∀ i ∈ is, i ∈ p.positions) (did : Bool) :
    (p.updateNodes is s did).2 = (p.batching.scan hist.flatten is cur did).2 ∧
    p.Tracks (hist ++ [(p.batching.scan hist.flatten is cur did).1]) (p.updateNodes is s did).1 := by
  induction is generalizing s cur did with
  | nil => exact ⟨rfl, h⟩
  | cons i is ih =>
    have his' : ∀ j ∈ is, j ∈ p.positions := fun j hj => his j (mem_cons_of_mem i hj)
    obtain ⟨hyes, hno⟩ := h.updateNode (his i (mem_cons_self ..))
    rw [Batching.scan, Partitioner.updateNodes]
    cases he : p.batching.eligible hist.flatten cur i with
    | true =>
      obtain ⟨s', hs', h'⟩ := hyes he
      rw [hs', if_pos rfl]
      exact ih h' his' true
    | false =>
      rw [hno he, if_neg Bool.false_ne_true]
      have hg : p.batching.greedily = p.greedily := rfl
      rw [hg]
      by_cases hs : (did && !p.greedily) = true
      · rw [hs]
        exact ⟨rfl, h⟩
      · rw [if_neg hs]
        simp only [hs]
        exact ih h his' did

theorem Tracks.buildLoop (n : Nat) :
    p.Tracks (hist ++ [p.batching.collect hist.flatten n cur]) (p.buildLoop n s) := by
  induction n generalizing s cur with
  | zero => exact h
  | succ n ih =>
    obtain ⟨h2, h'⟩ := h.updateNodes (fun _ => id) false
    rw [Batching.collect, Partitioner.buildLoop]
    have hr : (p.updateNodes (List.range p.info.numExecutionNodes) s false).2 =
        (p.batching.scan hist.flatten p.batching.items cur false).2 := h2
    simp only [hr]
    split
    · exact h'
    · exact ih h'

end

/-- `BuildNodeSubset` adds the next batch. -/
theorem Tracks.buildNodeSubset (h : p.Tracks hist s) :
    p.Tracks (hist ++ [p.batching.batch hist.flatten]) (p.buildNodeSubset s) := by
  have hlen : p.batching.items.length = p.info.numExecutionNodes := length_range
  rw [Batching.batch, hlen]
  exact h.emplaceBack.buildLoop _

theorem Tracks.buildNodeSubsets (h : p.Tracks hist s) (n : Nat) (hn : (p.batching.left
    hist.flatten).length < n) :
    p.Tracks (hist ++ p.batching.batches n hist.flatten) (p.buildNodeSubsets n s) := by
  induction n generalizing hist s with
  | zero => exact absurd hn (Nat.not_lt_zero _)
  | succ n ih =>
    have h' := h.buildNodeSubset
    have hiff : (p.buildNodeSubset s).currentSubset.nodes = [] ↔
        p.batching.batch hist.flatten = [] := by
      rw [h'.currentSubset.2.1, map_eq_nil_iff]
    rw [Partitioner.buildNodeSubsets]
    by_cases he : p.batching.batch hist.flatten = []
    · rw [if_pos (hiff.mpr he), Batching.batches_of_nil he, append_nil]
      rw [he] at h'
      exact h'.popBack
    · rw [if_neg fun hc => he (hiff.mp hc), Batching.batches_of_ne_nil he]
      have hlt := Batching.length_left_batch_lt he
      rw [← flatten_batches] at hlt ⊢
      have := ih h' (Nat.lt_of_lt_of_le hlt (Nat.le_of_lt_succ hn))
      rwa [append_assoc] at this

end Partitioner

end LiteRt.Tflite
