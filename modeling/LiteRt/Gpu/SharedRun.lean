import LiteRt.Gpu.Assignments
import LiteRt.Lib.Sharing
import Mathlib.Data.List.AList

/-!
# Computing on shared objects

Tensors that are not in use at the same time are kept in one object. The nodes of a model
compute there what they compute with an object for each tensor, and so do tasks in any order.
-/

namespace LiteRt.Gpu

open LiteRt.Lib ObjectsAssignment List

/-- `std::map<ValueId, int2>`. -/
abbrev Usages := AList fun _ : Nat => Nat × Nat

namespace Usages

variable (usages : Usages)

/-- The keys in order. -/
def ids : List Nat := usages.keys.mergeSort

def usage (id : Nat) : Nat × Nat := (usages.lookup id).getD (0, 0)

def addUsage (id taskIndex : Nat) : Usages :=
  match usages.lookup id with
  | none => usages.insert id (taskIndex, taskIndex)
  | some usage => usages.insert id (usage.1, taskIndex)

def addUsages (functor : Nat → Bool) (taskIndex : Nat) (ids : List Nat) : Usages :=
  ids.foldl (fun usages id => if functor id then usages.addUsage id taskIndex else usages) usages

/-- A record for each tensor in the order of the ids. -/
def usageRecords (bufferSize : Nat → Nat) : List (TensorUsageRecord Nat) :=
  usages.ids.map fun id => ⟨bufferSize id, (usages.usage id).1, (usages.usage id).2⟩

/-- The shared buffer of a tensor, or else its own one. -/
def bufferOf (a : ObjectsAssignment Nat) (id : Nat) : Option Nat ⊕ Nat :=
  if id ∈ usages then .inl (a.objectIds.getD (usages.ids.idxOf id) none) else .inr id

end Usages

structure GpuNode where
  inputs : List Nat
  outputs : List Nat

structure GpuModel where
  inputIdsAndRefs : List (Nat × Nat)
  nodes : List GpuNode
  outputIdsAndRefs : List (Nat × Nat)

def totalSize (assignment : ObjectsAssignment Nat) : Nat :=
  assignment.objectSizes.foldl (fun total size => (total + size) % 2 ^ 64) 0

def bestGreedy (usageRecords : List (TensorUsageRecord Nat)) :
    Except Fault (Except Status (ObjectsAssignment Nat)) := do
  match ← greedyBySizeDistPriorityAssignment usageRecords with
  | .error e => return .error e
  | .ok assignment =>
    match ← greedyByBreadthAssignment usageRecords with
    | .error _ => return .ok assignment
    | .ok byBreadth =>
      return .ok (if totalSize byBreadth < totalSize assignment then byBreadth else assignment)

namespace GpuModel

variable (model : GpuModel) (functor : Nat → Bool)

def getUsages : Usages :=
  let usages := Usages.addUsages ∅ functor 0 (model.inputIdsAndRefs.map Prod.fst)
  let usages := model.nodes.zipIdx.foldl (fun usages p =>
    (usages.addUsages functor p.2 p.1.inputs).addUsages functor p.2 p.1.outputs) usages
  usages.addUsages functor model.nodes.length (model.outputIdsAndRefs.map Prod.fst)

/-- What the nodes compute in order. -/
def program {V : Type} (kernels : Nat → List V → Option (List V)) : List (Instr Nat V) :=
  model.nodes.mapIdx fun k node => ⟨node.inputs, node.outputs, kernels k⟩

/-- An input of the model, or a tensor that has its own buffer. -/
def Given (id : Nat) : Prop :=
  id ∈ model.inputIdsAndRefs.map Prod.fst ∨ functor id = false

/-- The tensors and tasks of `GetUsages`. -/
def events : List (Nat × Nat) :=
  ((model.inputIdsAndRefs.map Prod.fst).map (·, 0) ++
    (model.nodes.zipIdx.flatMap fun p : GpuNode × Nat => (p.1.inputs ++ p.1.outputs).map (·, p.2)) ++
    (model.outputIdsAndRefs.map Prod.fst).map (·, model.nodes.length)).filter fun p => functor p.1

end GpuModel

/-! ## Usages -/

namespace Usages

variable {usages : Usages} {events : List (Nat × Nat)} {id task other : Nat}

/-- The tensors are in use from the first to the last of their tasks. -/
structure Covers (usages : Usages) (events : List (Nat × Nat)) : Prop where
  last : ∀ id ∈ usages, (id, (usages.usage id).2) ∈ events
  covered : ∀ p ∈ events, p.1 ∈ usages ∧ (usages.usage p.1).1 ≤ p.2 ∧ p.2 ≤ (usages.usage p.1).2

theorem mem_addUsage : other ∈ usages.addUsage id task ↔ other = id ∨ other ∈ usages := by
  unfold addUsage
  split <;> exact AList.mem_insert _

theorem usage_addUsage : (usages.addUsage id task).usage other = if other = id then
    (if id ∈ usages then (usages.usage id).1 else task, task) else usages.usage other := by
  cases hu : usages.lookup id with
  | none =>
    rw [if_neg (AList.lookup_eq_none.mp hu), addUsage, hu]
    rcases eq_or_ne other id with rfl | he <;> simp [usage, *]
  | some u =>
    rw [if_pos (AList.lookup_isSome.mp (Option.isSome_of_eq_some hu)), addUsage, hu]
    rcases eq_or_ne other id with rfl | he <;> simp [usage, *]

theorem covers_foldl (h : events.Pairwise fun p q => p.2 ≤ q.2) :
    Covers (events.foldl (fun usages p => usages.addUsage p.1 p.2) ∅) events := by
  induction events using List.reverseRecOn with
  | nil => exact ⟨nofun, nofun⟩
  | append_singleton events p ih =>
    obtain ⟨h, -, hp⟩ := pairwise_append.mp h
    specialize ih h
    rw [foldl_append, foldl_cons, foldl_nil]
    set usages : Usages := events.foldl (fun usages p => usages.addUsage p.1 p.2) ∅
    have hle (q) (hq : q ∈ events) : q.2 ≤ p.2 := hp q hq p (mem_singleton_self p)
    constructor
    · intro id hid
      rw [usage_addUsage]
      split
      · next he => simp [he]
      · next he => exact mem_append_left _ (ih.last id ((mem_addUsage.mp hid).resolve_left he))
    · intro q hq
      rw [usage_addUsage, mem_addUsage]
      rcases mem_append.mp hq with hq | hq
      · obtain ⟨hm, hx, hy⟩ := ih.covered q hq
        refine ⟨.inr hm, ?_⟩
        split
        · next he =>
          rw [if_pos (he ▸ hm), ← he]
          exact ⟨hx, hle q hq⟩
        · exact ⟨hx, hy⟩
      · rw [mem_singleton.mp hq, if_pos rfl]
        refine ⟨.inl rfl, ?_, Nat.le_refl _⟩
        split
        · next hm =>
          have hlast := ih.last p.1 hm
          exact Nat.le_trans (ih.covered _ hlast).2.1 (hle _ hlast)
        · exact Nat.le_refl _

end Usages

namespace GpuModel

variable {model : GpuModel} {functor : Nat → Bool} {bufferSize : Nat → Nat} {id task : Nat}

theorem mem_events : (id, task) ∈ model.events functor ↔ functor id = true ∧
    ((id ∈ model.inputIdsAndRefs.map Prod.fst ∧ task = 0) ∨
      (∃ node, model.nodes[task]? = some node ∧ id ∈ node.inputs ++ node.outputs) ∨
      (id ∈ model.outputIdsAndRefs.map Prod.fst ∧ task = model.nodes.length)) := by
  have hpair (ids : List Nat) (k : Nat) : (id, task) ∈ ids.map (·, k) ↔ id ∈ ids ∧ task = k := by
    simp [eq_comm]
  have hnode : (∃ p ∈ model.nodes.zipIdx, id ∈ p.1.inputs ++ p.1.outputs ∧ task = p.2) ↔
      ∃ node, model.nodes[task]? = some node ∧ id ∈ node.inputs ++ node.outputs := by
    simp only [mem_zipIdx_iff_getElem?]
    constructor
    · rintro ⟨p, hp, hid, rfl⟩
      exact ⟨p.1, hp, hid⟩
    · rintro ⟨node, hp, hid⟩
      exact ⟨(node, task), hp, hid, rfl⟩
  rw [events, mem_filter, mem_append, mem_append, mem_flatMap, hpair, hpair, and_comm, or_assoc,
    ← hnode]
  simp only [hpair]

theorem covers_getUsages : (model.getUsages functor).Covers (model.events functor) := by
  have hzip : model.nodes.zipIdx.Pairwise fun p q => p.2 < q.2 :=
    pairwise_map.mp (zipIdx_map_snd 0 model.nodes ▸ pairwise_lt_range')
  have hsame (ids : List Nat) (task : Nat) :
      (ids.map (·, task)).Pairwise fun p q => p.2 ≤ q.2 :=
    pairwise_map.mpr (pairwise_of_forall fun _ _ => Nat.le_refl task)
  convert Usages.covers_foldl ?_ using 1
  · simp only [getUsages, events, Usages.addUsages, foldl_filter, foldl_append, foldl_flatMap,
      foldl_map]
  refine Pairwise.filter _ (pairwise_append.mpr ⟨pairwise_append.mpr ⟨hsame _ 0,
    pairwise_flatMap.mpr ⟨fun p _ => hsame _ p.2, hzip.imp ?_⟩, ?_⟩, hsame _ _, ?_⟩)
  all_goals
    simp only [mem_append, mem_map, mem_flatMap]
    grind [snd_lt_of_mem_zipIdx]

end GpuModel

/-! ## Shared buffers -/

theorem bestGreedy_valid {usageRecords : List (TensorUsageRecord Nat)}
    (horder : ∀ r ∈ usageRecords, r.firstTask ≤ r.lastTask)
    (hlt : ∀ r ∈ usageRecords, r.lastTask + 1 < 2 ^ 64) :
    AssignsSafely AtLeast usageRecords (bestGreedy usageRecords) := by
  obtain ⟨a, ha, hva⟩ := SizeDistance.valid horder hlt
  obtain ⟨b, hb, hvb⟩ := Breadth.valid horder hlt
  refine ⟨if totalSize b < totalSize a then b else a, ?_, ?_⟩
  · rw [bestGreedy, ha, hb]
    rfl
  · split
    · exact hvb
    · exact hva

theorem ObjectsAssignment.Holds.getD {a : ObjectsAssignment Nat} {object i : Nat}
    (h : a.Holds object i) : a.objectIds.getD i none = some object := by
  rw [getD_eq_getElem?_getD, show a.objectIds[i]? = _ from h, Option.getD_some]

namespace Usages

variable {usages : Usages} {bufferSize : Nat → Nat} {a : ObjectsAssignment Nat} {t w : Nat}

theorem getElem?_usageRecords (ht : t ∈ usages) : t ∈ usages.ids ∧
    (usages.usageRecords bufferSize)[usages.ids.idxOf t]? =
      some ⟨bufferSize t, (usages.usage t).1, (usages.usage t).2⟩ := by
  have hm : t ∈ usages.ids := (mergeSort_perm ..).mem_iff.mpr (AList.mem_keys.mp ht)
  exact ⟨hm, by simp [usageRecords, getElem?_idxOf hm]⟩

theorem exists_object (hv : Valid AtLeast (usages.usageRecords bufferSize) a) (ht : t ∈ usages) :
    ∃ object size, a.Holds object (usages.ids.idxOf t) ∧
      usages.bufferOf a t = .inl (some object) ∧ a.objectSizes[object]? = some size ∧
      bufferSize t ≤ size := by
  obtain ⟨-, hrec⟩ := @getElem?_usageRecords _ bufferSize _ ht
  obtain ⟨object, h⟩ := hv.assigned _ (List.getElem?_eq_some_iff.mp hrec).1
  obtain ⟨size, hsize, hle⟩ := hv.covered h hrec
  exact ⟨object, size, h, by rw [bufferOf, if_pos ht, h.getD], hsize, hle⟩

/-- Tensors in one buffer are not in use at the same time. -/
theorem eq_of_bufferOf_eq (hv : Valid AtLeast (usages.usageRecords bufferSize) a)
    (he : usages.bufferOf a t = usages.bufferOf a w)
    (htw : t ∈ usages → w ∈ usages → (usages.usage t).1 ≤ (usages.usage w).2 ∧
      (usages.usage w).1 ≤ (usages.usage t).2) : t = w := by
  by_cases ht : t ∈ usages <;> by_cases hw : w ∈ usages
  · obtain ⟨object, -, hot, hpt, -⟩ := exists_object hv ht
    obtain ⟨object', -, how, hpw, -⟩ := exists_object hv hw
    obtain ⟨hm, ht'⟩ := getElem?_usageRecords ht
    obtain rfl : object = object' := by simpa [hpt, hpw] using he
    by_contra hne
    exact hv.apart (fun hi => hne ((idxOf_inj hm).mp hi)) hot how ht'
      (getElem?_usageRecords hw).2 (htw ht hw)
  · simp [bufferOf, ht, hw] at he
  · simp [bufferOf, ht, hw] at he
  · simpa [bufferOf, ht, hw] using he

end Usages

namespace GpuModel

variable {model : GpuModel} {functor : Nat → Bool} {bufferSize : Nat → Nat} {id task : Nat}

/-- A tensor with a shared buffer is in use at its tasks, any other one all the time. -/
theorem inUse (h : functor id = true → (id, task) ∈ model.events functor)
    (ht : task ≤ model.nodes.length) : ((model.getUsages functor).usage id).1 ≤ task ∧
      task ≤ if id ∈ model.getUsages functor then ((model.getUsages functor).usage id).2
        else model.nodes.length := by
  split
  · next hm =>
    exact (covers_getUsages.covered _ (h (mem_events.mp (covers_getUsages.last id hm)).1)).2
  · next hm =>
    rw [Usages.usage, AList.lookup_eq_none.mpr hm]
    exact ⟨Nat.zero_le task, ht⟩

theorem mem_usageRecords {r : TensorUsageRecord Nat}
    (hr : r ∈ (model.getUsages functor).usageRecords bufferSize) :
    r.firstTask ≤ r.lastTask ∧ r.lastTask ≤ model.nodes.length := by
  obtain ⟨id, hid, rfl⟩ := mem_map.mp hr
  have hlast := covers_getUsages.last id (AList.mem_keys.mpr ((mergeSort_perm ..).mem_iff.mp hid))
  refine ⟨(covers_getUsages.covered _ hlast).2.1, ?_⟩
  obtain ⟨-, ⟨-, h⟩ | ⟨node, h, -⟩ | ⟨-, h⟩⟩ := mem_events.mp hlast
  · exact h.le.trans (Nat.zero_le _)
  · exact Nat.le_of_lt (List.getElem?_eq_some_iff.mp h).1
  · exact h.le

/-- The shared buffers are large enough, and the nodes compute the outputs of the model on them. -/
theorem bestGreedy_runsAt {V : Type} {kernels : Nat → List V → Option (List V)}
    (hlen : model.nodes.length < 2 ^ 31)
    (hs : Scoped (· ∈ model.outputIdsAndRefs.map Prod.fst) (model.Given functor)
      (model.program kernels))
    (hfull : ∀ i ∈ model.program kernels, i.Full) :
    ∃ a, bestGreedy ((model.getUsages functor).usageRecords bufferSize) = .ok (.ok a) ∧
      (∀ id ∈ model.getUsages functor, ∃ object size,
        (model.getUsages functor).bufferOf a id = .inl (some object) ∧
        a.objectSizes[object]? = some size ∧ bufferSize id ≤ size) ∧
      RunsAt (· ∈ model.outputIdsAndRefs.map Prod.fst) ((model.getUsages functor).bufferOf a)
        (model.Given functor) (model.program kernels) := by
  obtain ⟨a, ha, hv⟩ := bestGreedy_valid
    (fun r hr => (@mem_usageRecords model functor bufferSize r hr).1)
    fun r hr => Nat.lt_of_le_of_lt (Nat.succ_le_succ (mem_usageRecords hr).2) (by omega)
  refine ⟨a, ha, fun id hid => ?_, Spares.runsAt (spares_of_intervals
    (fun id => ((model.getUsages functor).usage id).1)
    (fun id => if id ∈ model.getUsages functor then ((model.getUsages functor).usage id).2
      else model.nodes.length) 0
    (fun t w hp htw hwt => Usages.eq_of_bufferOf_eq hv hp fun ht hw => ?_) (fun t ht => ?_)
    (fun j i hi t ht => ?_) (fun t ht => ?_) hs) hs hfull⟩
  · obtain ⟨object, size, -, h⟩ := Usages.exists_object hv hid
    exact ⟨object, size, h⟩
  · rw [if_pos ht] at hwt
    rw [if_pos hw] at htw
    exact ⟨htw, hwt⟩
  · refine (inUse (fun hf => mem_events.mpr ⟨hf, .inl ⟨ht.resolve_right ?_, rfl⟩⟩) (Nat.zero_le _)).1
    simp [hf]
  · rw [program, getElem?_mapIdx, Option.map_eq_some_iff] at hi
    obtain ⟨node, hnode, rfl⟩ := hi
    rw [Nat.zero_add]
    exact inUse (fun hf => mem_events.mpr ⟨hf, .inr (.inl ⟨node, hnode, mem_append.mpr ht⟩)⟩)
      (Nat.le_of_lt (List.getElem?_eq_some_iff.mp hnode).1)
  · rw [Nat.zero_add, program, length_mapIdx]
    exact (inUse (fun hf => mem_events.mpr ⟨hf, .inr (.inr ⟨ht, rfl⟩)⟩) (Nat.le_refl _)).2

end GpuModel

/-- Three nodes in a chain. -/
def threeNodes : GpuModel := ⟨[(0, 0)], [⟨[0], [1]⟩, ⟨[1], [2]⟩, ⟨[2], [3]⟩], [(3, 0)]⟩

theorem bestGreedy_runsAt_threeNodes : ∃ a, bestGreedy
    ((threeNodes.getUsages fun _ => true).usageRecords fun _ => 4) = .ok (.ok a) ∧
    (∀ id ∈ threeNodes.getUsages fun _ => true, ∃ object size,
      (threeNodes.getUsages fun _ => true).bufferOf a id = .inl (some object) ∧
      a.objectSizes[object]? = some size ∧ 4 ≤ size) ∧
    RunsAt (· ∈ [3]) ((threeNodes.getUsages fun _ => true).bufferOf a)
      (threeNodes.Given fun _ => true)
      (threeNodes.program fun k vs => some [k :: vs.flatten]) := by
  refine GpuModel.bestGreedy_runsAt (by decide) ?_ fun i hi vs ws hws => ?_
  · simp [GpuModel.program, Scoped, threeNodes, GpuModel.Given]
  · simp only [GpuModel.program, threeNodes, mapIdx_cons, mapIdx_nil, mem_cons, not_mem_nil,
      or_false] at hi
    obtain rfl | rfl | rfl := hi <;> simp [← Option.some.inj hws]

end LiteRt.Gpu
