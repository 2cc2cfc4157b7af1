import LiteRt.Lib.Segments
import LiteRt.Plugin.Islands

/-!
# Islands that are runs in execution order

`GetPartitionsFromFlatListV2` cuts the op list into its maximal runs of one partition
index and keeps those of selected ops. Each island then stands in one piece, so the
blocks of the outlined root keep the order of the ops.
-/

namespace LiteRt.Plugin

open LiteRt.Lib LiteRt.Model List

/-- The op ends up in an island. -/
def Grouped (sel : List OpWithPartitionIndex) (op : OpId) : Prop :=
  partitionIndex sel op ≠ unselectedOpsPartitionIndex sel

instance (sel : List OpWithPartitionIndex) (op : OpId) : Decidable (Grouped sel op) :=
  inferInstanceAs (Decidable (_ ≠ _))

/-- Nothing of another partition index lies between the two ops. -/
def OneRun (sel : List OpWithPartitionIndex) (root : Subgraph) (a b : OpId) : Prop :=
  SameRun (partitionIndex sel) root.ops a b

def isGrouped (sel : List OpWithPartitionIndex) (s : List OpId) : Bool :=
  decide (∀ o ∈ s, Grouped sel o)

/-- The state of the loop once the runs `segs` have been seen. -/
def HasSeen (sel : List OpWithPartitionIndex) (segs : List (List OpId)) (s : RunState) : Prop :=
  (segs = [] ∧ s.partitions = [] ∧ s.currentPartition = []) ∨
  ∃ front last, segs = front ++ [last] ∧
    (∀ o ∈ last, partitionIndex sel o = s.currentPartitionIndex) ∧
    s.partitions = front.filter (isGrouped sel) ∧
    s.currentPartition =
      if s.currentPartitionIndex ≠ unselectedOpsPartitionIndex sel then last else []

section
variable {sel : List OpWithPartitionIndex} {s : RunState} {ops : List OpId}
  {segs : List (List OpId)} {u : UInt64} {op : OpId × UInt64}

theorem isGrouped_iff {s : List OpId} (hne : s ≠ []) {i : UInt64}
    (hi : ∀ o ∈ s, partitionIndex sel o = i) :
    isGrouped sel s = true ↔ i ≠ unselectedOpsPartitionIndex sel := by
  obtain ⟨o, ho⟩ := exists_mem_of_ne_nil s hne
  rw [isGrouped, decide_eq_true_eq]
  constructor
  · intro h
    rw [← hi o ho]
    exact h o ho
  · intro h o ho
    rw [Grouped, hi o ho]
    exact h

/-- The partitions when the loop ends, or when the next run begins. -/
theorem HasSeen.partitions (hsegs : Segments (partitionIndex sel) ops segs)
    (h : HasSeen sel segs s) :
    (if s.currentPartition ≠ [] then s.partitions ++ [s.currentPartition] else s.partitions) =
      segs.filter (isGrouped sel) := by
  obtain ⟨rfl, hp, hc⟩ | ⟨front, last, rfl, hlast, hp, hc⟩ := h
  · rw [hp, hc]
    rfl
  · have hne := hsegs.ne_nil last (by simp)
    have hg := isGrouped_iff hne hlast
    rw [filter_append, hp, hc]
    by_cases hi : s.currentPartitionIndex ≠ unselectedOpsPartitionIndex sel
    · rw [if_pos hi, if_pos hne, filter_cons_of_pos (hg.mpr hi), filter_nil]
    · rw [if_neg hi, if_neg (not_not.mpr rfl), filter_cons_of_neg fun h => hi (hg.mp h),
        filter_nil, append_nil]

theorem runStep_same (h : op.2 = s.currentPartitionIndex) :
    runStep u s op = { s with currentPartition :=
      if s.currentPartitionIndex ≠ u then s.currentPartition ++ [op.1]
      else s.currentPartition } := by
  simp only [runStep, h, ne_eq, not_true_eq_false, ↓reduceIte]
  split <;> rfl

theorem runStep_new (h : op.2 ≠ s.currentPartitionIndex) : runStep u s op =
      { partitions :=
          if s.currentPartition ≠ [] then s.partitions ++ [s.currentPartition] else s.partitions
        currentPartition := if op.2 ≠ u then [op.1] else []
        currentPartitionIndex := op.2 } := by
  simp only [runStep, ne_eq, h, not_false_eq_true, ↓reduceIte, nil_append]
  split <;> rfl

/-- One round of the loop. -/
theorem HasSeen.runStep {op : OpId} (hsegs : Segments (partitionIndex sel) ops segs)
    (h : HasSeen sel segs s) :
    ∃ segs', Segments (partitionIndex sel) (ops ++ [op]) segs' ∧
      HasSeen sel segs' (runStep (unselectedOpsPartitionIndex sel) s (op, partitionIndex sel op)) := by
  have hparts := h.partitions hsegs
  by_cases hi : partitionIndex sel op = s.currentPartitionIndex
  · -- the run goes on
    rw [runStep_same hi]
    obtain ⟨rfl, hp, hc⟩ | ⟨front, last, rfl, hlast, hp, hc⟩ := h
    · refine ⟨[[op]], hsegs.snoc_new (by simp), .inr ⟨[], [op], rfl, by simpa using hi, hp, ?_⟩⟩
      simp only [hc, nil_append]
    · have hlast' : ∀ o ∈ last ++ [op], partitionIndex sel o = s.currentPartitionIndex := by
        simpa only [mem_append, mem_singleton, or_imp, forall_and, forall_eq] using ⟨hlast, hi⟩
      refine ⟨front ++ [last ++ [op]], hsegs.snoc_last fun o ho => (hlast o ho).trans hi.symm,
        .inr ⟨front, last ++ [op], rfl, hlast', hp, ?_⟩⟩
      simp only [hc]
      split <;> rfl
  · -- a new run begins
    rw [runStep_new hi, hparts]
    refine ⟨segs ++ [[op]], hsegs.snoc_new fun last hlast o ho => ?_,
      .inr ⟨segs, [op], rfl, by simp, rfl, rfl⟩⟩
    obtain ⟨rfl, -, -⟩ | ⟨front, last', rfl, hlast', -, -⟩ := h
    · cases hlast
    · rw [getLast?_append, getLast?_singleton, Option.some_or] at hlast
      cases hlast
      rw [hlast' o ho]
      exact fun he => hi he.symm

/-- The islands of `GroupPartitionsV2`: the runs of grouped ops. -/
theorem groupPartitionsV2_spec (sel : List OpWithPartitionIndex) (root : Subgraph) :
    ∃ segs, Segments (partitionIndex sel) root.ops segs ∧
      groupPartitionsV2 sel root = segs.filter (isGrouped sel) := by
  suffices hsuff : ∀ (s : RunState), HasSeen sel [] s → ∀ ops : List OpId,
      ∃ segs, Segments (partitionIndex sel) ops segs ∧
        HasSeen sel segs ((ops.map fun op => (op, partitionIndex sel op)).foldl
          (Plugin.runStep (unselectedOpsPartitionIndex sel)) s) by
    rw [groupPartitionsV2, getPartitionsFromFlatListV2]
    cases hops : root.ops with
    | nil => exact ⟨[], .nil, rfl⟩
    | cons op ops =>
      obtain ⟨segs, hsegs, hseen⟩ :=
        hsuff { currentPartitionIndex := partitionIndex sel op } (.inl ⟨rfl, rfl, rfl⟩) (op :: ops)
      exact ⟨segs, hsegs, hseen.partitions hsegs⟩
  intro s hs ops
  induction ops using List.reverseRecOn with
  | nil => exact ⟨[], .nil, hs⟩
  | append_singleton ops op ih =>
    obtain ⟨segs, hsegs, hseen⟩ := ih
    rw [map_append, foldl_append]
    exact hseen.runStep hsegs

end

/-!
## The runs of a flat list

`GetPartitionsFromFlatListV2` marks the ops that are not selected with the largest index plus
one. That is no index of a selected op unless it wraps around to 0.
-/

/-- The partitions are the maximal runs of ops that are selected under one index, in execution
order, and hold exactly the selected ops. -/
structure MaximalRuns (sel : List OpWithPartitionIndex) (ops : List OpId)
    (partitions : List (List OpId)) : Prop where
  runs : ∃ segs, Segments (opToPartitionIndex sel) ops segs ∧
    partitions = segs.filter fun s => decide (∀ o ∈ s, opToPartitionIndex sel o ≠ none)
  selected : partitions.flatten = ops.filter fun o => decide (opToPartitionIndex sel o ≠ none)

section
variable {sel : List OpWithPartitionIndex} {o : OpId}

theorem maxPartitionIndex_spec (sel : List OpWithPartitionIndex) (start : UInt64) :
    ∃ m, sel.foldl (fun maxPartitionIndex op =>
        if maxPartitionIndex < op.2 then op.2 else maxPartitionIndex) start = m ∧
      start ≤ m ∧ (∀ p ∈ sel, p.2 ≤ m) ∧ (m = start ∨ ∃ p ∈ sel, p.2 = m) := by
  induction sel generalizing start with
  | nil => exact ⟨start, rfl, UInt64.le_refl _, by simp, .inl rfl⟩
  | cons p sel ih =>
    obtain ⟨m, hm, hle, hall, hfrom⟩ := ih (if start < p.2 then p.2 else start)
    refine ⟨m, hm, ?_, forall_mem_cons.2 ⟨?_, hall⟩, ?_⟩
    · split at hle
      · next hlt => exact UInt64.le_trans (UInt64.le_of_lt hlt) hle
      · exact hle
    · split at hle
      · exact hle
      · next hge => exact UInt64.le_trans (UInt64.not_lt.1 hge) hle
    · rcases hfrom with rfl | ⟨q, hq, rfl⟩
      · split
        · exact .inr ⟨p, mem_cons_self, rfl⟩
        · exact .inl rfl
      · exact .inr ⟨q, mem_cons_of_mem _ hq, rfl⟩

theorem mem_of_opToPartitionIndex {i : UInt64} (h : opToPartitionIndex sel o = some i) :
    (o, i) ∈ sel := by
  obtain ⟨p, hp, rfl⟩ := Option.map_eq_some_iff.1 h
  have hmem := mem_of_find?_eq_some hp
  have hfound := find?_some hp
  have hop : p.1 = o := of_decide_eq_true hfound
  rw [← hop]
  exact mem_reverse.1 hmem

/-- An op is selected under the mark of the unselected ones only when that has wrapped. -/
theorem exists_marked_iff (sel : List OpWithPartitionIndex) (ops : List OpId) :
    (∃ o ∈ ops, opToPartitionIndex sel o = some (unselectedOpsPartitionIndex sel)) ↔
      (∃ p ∈ sel, p.2 = 18446744073709551615) ∧ ∃ o ∈ ops, opToPartitionIndex sel o = some 0 := by
  obtain ⟨m, hm, -, hall, hfrom⟩ := maxPartitionIndex_spec sel 0
  have hu : unselectedOpsPartitionIndex sel = m + 1 := by
    unfold unselectedOpsPartitionIndex
    rw [hm]
  rw [hu]
  constructor
  · rintro ⟨o, ho, hindex⟩
    have hle : m + 1 ≤ m := hall _ (mem_of_opToPartitionIndex hindex)
    have hmax : m = 18446744073709551615 := by
      rw [UInt64.le_iff_toNat_le, UInt64.toNat_add] at hle
      have hlt := m.toNat_lt
      refine UInt64.toNat_inj.1 ?_
      show m.toNat = 18446744073709551615
      have hone : (1 : UInt64).toNat = 1 := rfl
      omega
    rw [hmax] at hindex hfrom
    refine ⟨hfrom.resolve_left (by decide), o, ho, hindex⟩
  · rintro ⟨⟨p, hp, hmax⟩, o, ho, hindex⟩
    have hle := hall p hp
    have hm' : m = 18446744073709551615 := by
      rw [hmax, UInt64.le_iff_toNat_le] at hle
      have hlt := m.toNat_lt
      refine UInt64.toNat_inj.1 ?_
      have hconst : (18446744073709551615 : UInt64).toNat = 18446744073709551615 := rfl
      omega
    rw [hm']
    exact ⟨o, ho, hindex⟩

theorem partitionIndex_eq (o : OpId) : partitionIndex sel o =
    (opToPartitionIndex sel o).getD (unselectedOpsPartitionIndex sel) := rfl

/-- Where no selected op has the mark, it stands for the unselected ones. -/
theorem listed_group_iff (h : opToPartitionIndex sel o ≠ some (unselectedOpsPartitionIndex sel)) :
    Grouped sel o ↔ opToPartitionIndex sel o ≠ none := by
  unfold Grouped
  rw [partitionIndex_eq]
  cases hindex : opToPartitionIndex sel o with
  | none => simp
  | some i =>
    rw [hindex] at h
    simpa using h

theorem partitionIndex_eq_iff {a b : OpId}
    (ha : opToPartitionIndex sel a ≠ some (unselectedOpsPartitionIndex sel))
    (hb : opToPartitionIndex sel b ≠ some (unselectedOpsPartitionIndex sel)) :
    partitionIndex sel a = partitionIndex sel b ↔
      opToPartitionIndex sel a = opToPartitionIndex sel b := by
  rw [partitionIndex_eq, partitionIndex_eq]
  cases hia : opToPartitionIndex sel a with
  | none =>
    cases hib : opToPartitionIndex sel b with
    | none => simp
    | some j =>
      rw [hib] at hb
      simpa using fun h => hb (congrArg some h.symm)
  | some i =>
    rw [hia] at ha
    cases hib : opToPartitionIndex sel b with
    | none => simpa using fun h => ha (congrArg some h)
    | some j => simp

theorem flatten_filter_segments {f : OpId → Option UInt64} {ops : List OpId}
    {segs : List (List OpId)} (h : Segments f ops segs) :
    (segs.filter fun s => decide (∀ o ∈ s, f o ≠ none)).flatten =
      ops.filter fun o => decide (f o ≠ none) := by
  rw [← h.flatten]
  have hconst := h.const
  clear h
  induction segs with
  | nil => rfl
  | cons s segs ih =>
    have ih' := ih fun s' hs' => hconst s' (mem_cons_of_mem s hs')
    have hs := hconst s mem_cons_self
    rw [flatten_cons, filter_append, filter_cons]
    split
    · next hall =>
      have hall := of_decide_eq_true hall
      rw [flatten_cons, ih', filter_eq_self.2 fun o ho => decide_eq_true (hall o ho)]
    · next hnot =>
      have hnil : s.filter (fun o => decide (f o ≠ none)) = [] := by
        refine filter_eq_nil_iff.2 fun o ho hsome => hnot (decide_eq_true fun x hx => ?_)
        rw [hs x hx o ho]
        exact of_decide_eq_true hsome
      rw [hnil, nil_append, ih']

end

/-- `GetPartitionsFromFlatListV2` returns the maximal runs, except where an index of all ones is
listed and an op of the subgraph is selected under 0. -/
theorem maximalRuns_iff (sel : List OpWithPartitionIndex) (subgraph : Subgraph) :
    MaximalRuns sel subgraph.ops (getPartitionsFromFlatListV2 sel subgraph) ↔
      ¬ ((∃ p ∈ sel, p.2 = 18446744073709551615) ∧
        ∃ o ∈ subgraph.ops, opToPartitionIndex sel o = some 0) := by
  rw [← exists_marked_iff]
  obtain ⟨segs, hsegs, hgroup⟩ := groupPartitionsV2_spec sel subgraph
  rw [groupPartitionsV2] at hgroup
  constructor
  · rintro ⟨-, hselected⟩ ⟨o, ho, hindex⟩
    have hmem : o ∈ (getPartitionsFromFlatListV2 sel subgraph).flatten := by
      rw [hselected, mem_filter]
      exact ⟨ho, decide_eq_true (by rw [hindex]; exact Option.some_ne_none _)⟩
    obtain ⟨s, hs, hos⟩ := mem_flatten.1 hmem
    rw [hgroup] at hs
    have hgrouped : Grouped sel o := of_decide_eq_true (mem_filter.1 hs).2 o hos
    refine hgrouped ?_
    rw [partitionIndex_eq, hindex]
    rfl
  · intro hnone
    have hmark : ∀ o ∈ subgraph.ops,
        opToPartitionIndex sel o ≠ some (unselectedOpsPartitionIndex sel) :=
      fun o ho hindex => hnone ⟨o, ho, hindex⟩
    have hmem : ∀ s ∈ segs, ∀ o ∈ s, o ∈ subgraph.ops := fun s hs o ho => by
      rw [← hsegs.flatten]
      exact mem_flatten_of_mem hs ho
    have hsegs' : Segments (opToPartitionIndex sel) subgraph.ops segs := by
      refine ⟨hsegs.flatten, hsegs.ne_nil, fun s hs a ha b hb => ?_, ?_⟩
      · exact (partitionIndex_eq_iff (hmark a (hmem s hs a ha)) (hmark b (hmem s hs b hb))).1
          (hsegs.const s hs a ha b hb)
      · refine isChain_iff_getElem.2 fun k hk a ha b hb heq => ?_
        refine isChain_iff_getElem.1 hsegs.change k hk a ha b hb ?_
        exact (partitionIndex_eq_iff (hmark a (hmem _ (getElem_mem _) a ha))
          (hmark b (hmem _ (getElem_mem _) b hb))).2 heq
    have hresult : getPartitionsFromFlatListV2 sel subgraph =
        segs.filter fun s => decide (∀ o ∈ s, opToPartitionIndex sel o ≠ none) := by
      rw [hgroup]
      refine filter_congr fun s hs => ?_
      unfold isGrouped
      rw [decide_eq_decide]
      exact forall_congr' fun o => imp_congr_right fun ho => listed_group_iff (hmark o (hmem s hs o ho))
    refine ⟨⟨segs, hsegs', hresult⟩, ?_⟩
    rw [hresult]
    exact flatten_filter_segments hsegs'

/-- Two ops under the least and the largest index: the first one is in no partition. -/
theorem largest_index_drops :
    getPartitionsFromFlatListV2 [(0, 0), (1, 18446744073709551615)] { ops := [0, 1] } = [[1]] ∧
    ¬ MaximalRuns [(0, 0), (1, 18446744073709551615)] [0, 1]
      (getPartitionsFromFlatListV2 [(0, 0), (1, 18446744073709551615)] { ops := [0, 1] }) := by
  refine ⟨by decide, ?_⟩
  rintro ⟨-, hselected⟩
  revert hselected
  decide

end LiteRt.Plugin
