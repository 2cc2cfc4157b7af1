import LiteRt.Tflite.ArenaRuns
import LiteRt.Tflite.Planner

/-!
# Runs of the arena planner

Batches of nodes are planned one behind the other; after a reset planning goes on behind the
node it was for. The list of active allocations shrinks in front of each batch and at each
reset. Nothing that is still in use may get lost from it, and what else it holds decides
where the next tensors go.
-/

namespace LiteRt.Tflite

open LiteRt.Lib GapScan SimpleMemoryArena ArenaAllocWithUsageInterval

/-- A planner and the next node to plan. -/
structure Planning where
  planner : ArenaPlanner
  next : Int

inductive PlanningCall where
  /-- Plans the batch from the next node to `lastNode`. -/
  | executeAllocations (tensors : PlannerTensors) (lastNode : Int)
  | resetAllocationsAfter (tensors : PlannerTensors) (node : Int)

namespace ArenaPlanner

/-- The tensor has bytes of the arena. -/
def Current (types : Nat → TfLiteAllocationType) (p : ArenaPlanner) (t : Nat)
    (alloc : ArenaAllocWithUsageInterval) : Prop :=
  types t = .arenaRw ∧ p.allocs[t]? = some alloc ∧ alloc.size ≠ 0

/-- Recalculates the active allocations instead of purging them. -/
def recalculate (offsets : OffsetSort) (node : Int) (p : ArenaPlanner) : ArenaPlanner :=
  { p with arena := p.arena.calculateActiveAllocs offsets p.allocs node }

end ArenaPlanner

open ArenaPlanner

namespace Planning

/-- The calls of the code; with `recalculates` the active allocations are recalculated where
the code purges them. -/
def step (offsets : OffsetSort) (order : TensorSort) (numExecutionNodes : Nat) (s : Planning)
    (call : PlanningCall × Bool) : Option Planning :=
  let recalculates := call.2
  match call.1 with
  | .executeAllocations tensors lastNode =>
    let shrink := fun p : ArenaPlanner =>
      if recalculates then (shrinkActive s.next p).recalculate offsets s.next
      else shrinkActive s.next p
    (s.planner.executeAllocations order shrink tensors numExecutionNodes s.next
      lastNode).toOption.map fun p => ⟨p, lastNode + 1⟩
  | .resetAllocationsAfter tensors node =>
    let p := s.planner.resetAllocationsAfter offsets tensors node
    some ⟨if recalculates then p.recalculate offsets node else p, min s.next (node + 1)⟩

/-- The calls as the code makes them. -/
def asCoded (calls : List (PlanningCall × Bool)) : List (PlanningCall × Bool) :=
  calls.map fun call => (call.1, false)

/-- The step drops no allocation that is still in use from the active ones, and the tensors it
allocates come in with their batch. -/
def Keeps (types : Nat → TfLiteAllocationType) (numExecutionNodes : Nat) (s : Planning) :
    PlanningCall → Prop
  | .executeAllocations tensors lastNode =>
    let p := s.planner.setTemporaries tensors numExecutionNodes s.next lastNode
    let allocated := p.tensorsAllocated tensors s.next lastNode
    tensors.allocationType = types ∧ s.next ≤ lastNode ∧
      (∀ t alloc, s.planner.Current types t alloc → p.allocNodeOf t = s.planner.allocNodeOf t ∧
          p.deallocNodeOf t = s.planner.deallocNodeOf t) ∧
      (∀ t ∈ allocated, types t = .arenaRw → s.next ≤ p.allocNodeOf t) ∧
      (s.next < s.planner.lastActiveNode → allocated ≠ [] →
        ∀ t alloc, s.planner.Current types t alloc → alloc.lastNode < s.next)
  | .resetAllocationsAfter tensors node =>
    tensors.allocationType = types ∧ -1 ≤ node ∧
      (node < s.planner.lastActiveNode → ∀ t alloc, s.planner.Current types t alloc →
        alloc.firstNode ≤ node → alloc.lastNode < node → alloc.lastNode < s.next)

/-- Recalculating finds the allocations that are in use and no others. -/
def Neutral (types : Nat → TfLiteAllocationType) (numExecutionNodes : Nat) (s : Planning) :
    PlanningCall → Prop
  | .executeAllocations tensors lastNode =>
    let p := s.planner.setTemporaries tensors numExecutionNodes s.next lastNode
    let allocated := p.tensorsAllocated tensors s.next lastNode
    (∀ t alloc, types t = .arenaRwPersistent → s.planner.allocs[t]? = some alloc →
      alloc.size ≠ 0 → s.next < alloc.firstNode) ∧
      allocated.Nodup ∧ ∀ t ∈ allocated, t < tensors.numTensors ∧
        (types t = .arenaRw → p.allocNodeOf t ≤ lastNode)
  | .resetAllocationsAfter _ node =>
    (∀ t alloc, types t = .arenaRwPersistent → s.planner.allocs[t]? = some alloc →
      alloc.size ≠ 0 → node < alloc.firstNode) ∧
      ∀ t alloc, s.planner.Current types t alloc → alloc.firstNode ≤ node →
        alloc.lastNode < node → alloc.lastNode < s.next

end Planning

/-! ## One allocation -/

namespace ArenaPlanner

variable {types : Nat → TfLiteAllocationType} {tensors : PlannerTensors} {p p' : ArenaPlanner}
  {t : Nat}

theorem allocateTensor_own (h : p.actualTensorId = []) :
    allocateTensor tensors p t = allocateOwner tensors p t := by
  unfold allocateTensor
  rw [h, List.lookup_nil]

def entryAt (p : ArenaPlanner) (tensors : PlannerTensors) (t : Nat) (offset : UInt64) :
    ArenaAllocWithUsageInterval :=
  ⟨offset, tensors.bytes t, t, p.allocNodeOf t, p.deallocNodeOf t⟩

def requestOf (p : ArenaPlanner) (tensors : PlannerTensors) (t : Nat) : AllocRequest :=
  ⟨p.tensorAlignment, tensors.bytes t, t, p.allocNodeOf t, p.deallocNodeOf t⟩

/-- The planner once the tensor was placed. -/
def placed (p : ArenaPlanner) (tensors : PlannerTensors) (t : Nat) (offset required : UInt64) :
    ArenaPlanner :=
  { p with
    arena := { p.arena with
      highWaterMark := max p.arena.highWaterMark required
      activeAllocs := upperInsert (fun alloc => alloc.offset.toNat) offset.toNat
        (p.entryAt tensors t offset) p.arena.activeAllocs }
    allocs := p.allocs.set t (p.entryAt tensors t offset) }

theorem allocateOwner_arenaRw (htype : tensors.allocationType t = .arenaRw)
    (hsize : tensors.bytes t ≠ 0) (h : allocateOwner tensors p t = .ok p') :
    ∃ offset required, p.arena.place (p.requestOf tensors t) = .ok (offset, required) ∧
      p' = p.placed tensors t offset required := by
  unfold allocateOwner at h
  rw [htype] at h
  dsimp only at h
  cases hstatus : (p.arena.allocate (p.requestOf tensors t) (p.allocOf t)).status with
  | error fault =>
    unfold requestOf at hstatus
    rw [hstatus] at h
    cases h
  | ok u =>
    obtain ⟨offset, required, hplace, hnew, harena⟩ := Ledger.allocate_ok hsize hstatus
    unfold requestOf at hstatus hnew harena
    rw [hstatus] at h
    cases h
    refine ⟨offset, required, hplace, ?_⟩
    rw [hnew, harena]
    rfl

theorem allocateOwner_persistent (htype : tensors.allocationType t = .arenaRwPersistent)
    (h : allocateOwner tensors p t = .ok p') :
    ∃ arena allocs, p' = { p with persistentArena := arena, allocs := allocs } ∧
      (allocs = p.allocs ∨ ∃ alloc, alloc.size ≠ 0 ∧ allocs = p.allocs.set t alloc) := by
  unfold allocateOwner at h
  rw [htype] at h
  dsimp only at h
  split at h
  · rename_i hsize
    have hne : tensors.bytes t ≠ 0 := by
      intro heq
      rw [hsize.1, heq] at hsize
      exact absurd hsize.2 (by decide)
    cases hstatus : (p.persistentArena.allocate ⟨p.tensorAlignment, tensors.bytes t, t,
        p.allocNodeOf t, 2147483647⟩ (p.allocOf t)).status with
    | error fault =>
      rw [hstatus] at h
      cases h
    | ok u =>
      obtain ⟨offset, required, -, hnew, -⟩ := Ledger.allocate_ok hne hstatus
      rw [hstatus] at h
      cases h
      refine ⟨_, _, rfl, .inr ⟨_, ?_, rfl⟩⟩
      rw [hnew]
      exact hne
  · cases h
    exact ⟨_, _, rfl, .inl rfl⟩

/-! ## Soundness -/

/-- Allocations of the arena that are in use together are apart; those in use from `next` on
are active. -/
structure Inv (types : Nat → TfLiteAllocationType) (next : Int) (p : ArenaPlanner) : Prop where
  unshared : p.actualTensorId = []
  entry : ∀ t alloc, p.Current types t alloc →
    alloc.tensor = t ∧ alloc.firstNode = p.allocNodeOf t ∧ alloc.lastNode = p.deallocNodeOf t
  apart : ∀ t u alloc other, t ≠ u → p.Current types t alloc → p.Current types u other →
    alloc.Meets other → alloc.Apart other
  sorted : Sorted p.arena.activeAllocs
  live : ∀ t alloc, p.Current types t alloc → alloc ∈ p.arena.activeAllocs ∨ alloc.lastNode < next

theorem Current.of_set {u : Nat} {alloc other : ArenaAllocWithUsageInterval}
    (hallocs : p'.allocs = p.allocs.set t alloc) (h : p'.Current types u other) :
    u = t ∧ other = alloc ∨ u ≠ t ∧ p.Current types u other := by
  obtain ⟨htype, hget, hsize⟩ := h
  rw [hallocs, List.getElem?_set] at hget
  split at hget
  · rename_i heq
    split at hget
    · cases hget
      exact .inl ⟨heq.symm, rfl⟩
    · cases hget
  · rename_i hne
    exact .inr ⟨Ne.symm hne, htype, hget, hsize⟩

theorem Inv.mono {next next' : Int} (h : p.Inv types next) (hle : next ≤ next') :
    p.Inv types next' :=
  { h with live := fun t alloc ht => (h.live t alloc ht).imp_right fun hlt => hlt.trans_le hle }

theorem Inv.allocate {next : Int} (h : p.Inv types next) (htypes : tensors.allocationType = types)
    (hsize : tensors.bytes t ≠ 0) (htype : types t = .arenaRw) (hnext : next ≤ p.allocNodeOf t)
    (hok : allocateOwner tensors p t = .ok p') : p'.Inv types next := by
  rw [← htypes] at htype
  obtain ⟨offset, required, hplace, rfl⟩ := allocateOwner_arenaRw htype hsize hok
  obtain ⟨-, -, hclear⟩ := place_eq_ok hsize h.sorted hplace
  have hmem : ∀ {a}, a ∈ upperInsert (fun alloc => alloc.offset.toNat) offset.toNat
      (p.entryAt tensors t offset) p.arena.activeAllocs ↔
      a = p.entryAt tensors t offset ∨ a ∈ p.arena.activeAllocs := mem_upperInsert
  have hnew : ∀ u other, p.Current types u other →
      (p.entryAt tensors t offset).Meets other → (p.entryAt tensors t offset).Apart other := by
    intro u other hother hmeets
    rcases h.live u other hother with hactive | hlast
    · exact (hclear other hactive ⟨hmeets.2, hmeets.1⟩).symm
    · have hmeets' : p.allocNodeOf t ≤ other.lastNode := hmeets.1
      omega
  refine ⟨h.unshared, ?_, ?_, ?_, ?_⟩
  · intro u alloc hu
    rcases Current.of_set (p := p) rfl hu with ⟨rfl, rfl⟩ | ⟨-, hu⟩
    · exact ⟨rfl, rfl, rfl⟩
    · exact h.entry u alloc hu
  · intro u v alloc other hne hu hv hmeets
    rcases Current.of_set (p := p) rfl hu with ⟨rfl, rfl⟩ | ⟨-, huold⟩
    · rcases Current.of_set (p := p) rfl hv with ⟨rfl, -⟩ | ⟨-, hvold⟩
      · exact absurd rfl hne
      · exact hnew v other hvold hmeets
    · rcases Current.of_set (p := p) rfl hv with ⟨rfl, rfl⟩ | ⟨-, hvold⟩
      · exact (hnew u alloc huold ⟨hmeets.2, hmeets.1⟩).symm
      · exact h.apart u v alloc other hne huold hvold hmeets
  · exact @upperInsert_sorted _ (fun a : ArenaAllocWithUsageInterval => a.offset.toNat)
      offset.toNat (p.entryAt tensors t offset) rfl _ h.sorted
  · intro u alloc hu
    rcases Current.of_set (p := p) rfl hu with ⟨rfl, rfl⟩ | ⟨-, hu⟩
    · exact .inl (hmem.2 (.inl rfl))
    · exact (h.live u alloc hu).imp_left fun hin => hmem.2 (.inr hin)

/-- A persistent tensor has no bytes of the arena. -/
theorem current_persistent {u : Nat} {alloc other : ArenaAllocWithUsageInterval} (htype : types t = .arenaRwPersistent)
    (hallocs : p'.allocs = p.allocs ∨ p'.allocs = p.allocs.set t alloc) :
    p'.Current types u other ↔ p.Current types u other := by
  unfold Current
  refine and_congr_right fun hu => ?_
  rcases hallocs with heq | heq
  · rw [heq]
  · have hne : t ≠ u := by
      rintro rfl
      rw [htype] at hu
      cases hu
    rw [heq, List.getElem?_set_ne hne]

theorem Inv.congr {next : Int} (h : p.Inv types next)
    (hcurrent : ∀ u alloc, p'.Current types u alloc ↔ p.Current types u alloc)
    (htables : ∀ u alloc, p.Current types u alloc →
      p'.allocNodeOf u = p.allocNodeOf u ∧ p'.deallocNodeOf u = p.deallocNodeOf u)
    (harena : p'.arena = p.arena) (hshare : p'.actualTensorId = p.actualTensorId) :
    p'.Inv types next where
  unshared := hshare.trans h.unshared
  entry u alloc hu := by
    have hold := (hcurrent u alloc).1 hu
    rw [(htables u alloc hold).1, (htables u alloc hold).2]
    exact h.entry u alloc hold
  apart u v alloc other hne hu hv :=
    h.apart u v alloc other hne ((hcurrent u alloc).1 hu) ((hcurrent v other).1 hv)
  sorted := by
    rw [harena]
    exact h.sorted
  live u alloc hu := by
    rw [harena]
    exact h.live u alloc ((hcurrent u alloc).1 hu)

theorem mem_tensorsAllocated {firstNode lastNode : Int}
    (h : t ∈ p.tensorsAllocated tensors firstNode lastNode) :
    tensors.allocationType t = .arenaRw ∧ tensors.bytes t ≠ 0 ∨
      tensors.allocationType t = .arenaRwPersistent := by
  have hfilter := (List.mem_filter.1 h).2
  split at hfilter
  · rename_i htype
    refine .inl ⟨htype, fun heq => ?_⟩
    rw [heq] at hfilter
    exact absurd (of_decide_eq_true hfilter) UInt64.not_lt_zero
  · rename_i htype
    exact .inr htype
  · cases hfilter

theorem Inv.allocateTensor {next : Int} (h : p.Inv types next)
    (htypes : tensors.allocationType = types)
    (hneeds : tensors.allocationType t = .arenaRw ∧ tensors.bytes t ≠ 0 ∨
      tensors.allocationType t = .arenaRwPersistent)
    (hnext : types t = .arenaRw → next ≤ p.allocNodeOf t)
    (hok : allocateTensor tensors p t = .ok p') :
    p'.Inv types next ∧ p'.allocNode = p.allocNode ∧ p'.deallocNode = p.deallocNode := by
  rw [allocateTensor_own h.unshared] at hok
  rcases hneeds with ⟨htype, hsize⟩ | htype
  · refine ⟨?_, ?_⟩
    · rw [htypes] at htype
      exact h.allocate htypes hsize htype (hnext htype) hok
    · obtain ⟨_, _, -, rfl⟩ := allocateOwner_arenaRw htype hsize hok
      exact ⟨rfl, rfl⟩
  · obtain ⟨arena, allocs, rfl, hallocs⟩ := allocateOwner_persistent htype hok
    rw [htypes] at htype
    refine ⟨h.congr (fun u alloc => ?_) (fun _ _ _ => ⟨rfl, rfl⟩) rfl rfl, rfl, rfl⟩
    rcases hallocs with heq | ⟨other, -, heq⟩
    · exact @ArenaPlanner.current_persistent _ _ _ t _ alloc _ htype (.inl heq)
    · exact current_persistent htype (.inr heq)

/-- A batch that starts with `next` keeps the invariant for `next`. -/
theorem Inv.allocateAll {next : Int} {order : TensorSort} {allocated : List Nat} {lastNode : Int}
    (h : p.Inv types next) (htypes : tensors.allocationType = types)
    (hneeds : ∀ t ∈ allocated, tensors.allocationType t = .arenaRw ∧ tensors.bytes t ≠ 0 ∨
      tensors.allocationType t = .arenaRwPersistent)
    (hnext : ∀ t ∈ allocated, types t = .arenaRw → next ≤ p.allocNodeOf t)
    (hok : p.allocateAll order tensors allocated lastNode = .ok p') :
    p'.Inv types next ∧ p'.lastActiveNode = lastNode := by
  have hloop : ∀ (l : List Nat) (q q' : ArenaPlanner), q.Inv types next →
      q.allocNode = p.allocNode → (∀ t ∈ l, t ∈ allocated) →
      l.foldlM (ArenaPlanner.allocateTensor tensors) q = .ok q' → q'.Inv types next := by
    intro l
    induction l with
    | nil =>
      intro q q' hq _ _ hok
      cases hok
      exact hq
    | cons t l ih =>
      intro q q' hq hnodes hsub hok
      rw [List.foldlM_cons] at hok
      have hin := hsub t List.mem_cons_self
      cases ht : ArenaPlanner.allocateTensor tensors q t with
      | error fault =>
        rw [ht] at hok
        cases hok
      | ok q₁ =>
        rw [ht, ok_bind] at hok
        have hnodeOf : q.allocNodeOf t = p.allocNodeOf t := by
          unfold allocNodeOf
          rw [hnodes]
        obtain ⟨hq₁, hnodes₁, -⟩ := hq.allocateTensor htypes (hneeds t hin)
          (fun htype => hnodeOf ▸ hnext t hin htype) ht
        exact ih q₁ q' hq₁ (hnodes₁.trans hnodes) (fun u hu => hsub u (List.mem_cons_of_mem _ hu))
          hok
  unfold ArenaPlanner.allocateAll at hok
  cases hrun : (order.sort (p.tensorCompare tensors) allocated).foldlM
      (ArenaPlanner.allocateTensor tensors) p with
  | error fault =>
    rw [hrun] at hok
    cases hok
  | ok q =>
    rw [hrun] at hok
    cases hok
    have hq := hloop _ p q h rfl (fun t ht => (order.perm _ _).mem_iff.1 ht) hrun
    exact ⟨hq.congr (fun _ _ => Iff.rfl) (fun _ _ _ => ⟨rfl, rfl⟩) rfl rfl, rfl⟩

/-! ### Temporaries -/

theorem setTemporary_arena (entry : Nat × Nat) :
    (p.setTemporary entry).arena = p.arena ∧ (p.setTemporary entry).allocs = p.allocs ∧
      (p.setTemporary entry).actualTensorId = p.actualTensorId ∧
      (p.setTemporary entry).lastActiveNode = p.lastActiveNode := by
  unfold setTemporary
  dsimp only
  split <;> exact ⟨rfl, rfl, rfl, rfl⟩

theorem setTemporaries_spec (numExecutionNodes : Nat) (firstNode lastNode : Int) :
    let p' := p.setTemporaries tensors numExecutionNodes firstNode lastNode
    p'.arena = p.arena ∧
      p'.allocs = p.allocs ++ List.replicate (tensors.numTensors - p.allocs.length) .unused ∧
      p'.actualTensorId = p.actualTensorId ∧ p'.lastActiveNode = p.lastActiveNode := by
  refine foldl_invariant (b := p.resize tensors.numTensors)
    (P := fun (_ : List (Nat × Nat)) (q : ArenaPlanner) => q.arena = p.arena ∧
      q.allocs = p.allocs ++ List.replicate (tensors.numTensors - p.allocs.length) .unused ∧
      q.actualTensorId = p.actualTensorId ∧ q.lastActiveNode = p.lastActiveNode)
    ⟨rfl, rfl, rfl, rfl⟩ ?_
  intro _ entry _ q _ hq
  obtain ⟨harena, hallocs, hshare, hlast⟩ := setTemporary_arena (p := q) entry
  rw [harena, hallocs, hshare, hlast]
  exact hq

/-- New tensors have no bytes yet. -/
theorem current_setTemporaries {numExecutionNodes : Nat} {firstNode lastNode : Int} {u : Nat}
    {alloc : ArenaAllocWithUsageInterval} :
    (p.setTemporaries tensors numExecutionNodes firstNode lastNode).Current types u alloc ↔
      p.Current types u alloc := by
  unfold Current
  rw [(setTemporaries_spec numExecutionNodes firstNode lastNode).2.1]
  refine and_congr_right fun _ => ?_
  rcases Nat.lt_or_ge u p.allocs.length with hlt | hle
  · rw [List.getElem?_append_left hlt]
  · rw [List.getElem?_append_right hle, List.getElem?_replicate, List.getElem?_eq_none hle]
    constructor
    · rintro ⟨hget, hsize⟩
      split at hget
      · cases hget
        exact absurd rfl hsize
      · cases hget
    · rintro ⟨hget, -⟩
      cases hget

theorem Inv.setTemporaries {next : Int} {numExecutionNodes : Nat} {lastNode : Int}
    (h : p.Inv types next)
    (htables : ∀ t alloc, p.Current types t alloc →
      (p.setTemporaries tensors numExecutionNodes next lastNode).allocNodeOf t = p.allocNodeOf t ∧
        (p.setTemporaries tensors numExecutionNodes next lastNode).deallocNodeOf t =
          p.deallocNodeOf t) :
    (p.setTemporaries tensors numExecutionNodes next lastNode).Inv types next := by
  obtain ⟨harena, -, hshare, -⟩ :=
    @ArenaPlanner.setTemporaries_spec tensors p numExecutionNodes next lastNode
  exact h.congr (fun u alloc => current_setTemporaries) htables harena hshare

/-! ### Shrinking -/

/-- What is in use from `next` on survives a purge for `next`. -/
theorem Inv.shrinkActive {next : Int} (h : p.Inv types next)
    (hclear : next < p.lastActiveNode → ∀ t alloc, p.Current types t alloc →
      alloc.lastNode < next) : (p.shrinkActive next).Inv types next := by
  unfold ArenaPlanner.shrinkActive
  split
  · rename_i hlt
    exact ⟨h.unshared, h.entry, h.apart, .nil, fun t alloc ht => .inr (hclear hlt t alloc ht)⟩
  · refine ⟨h.unshared, h.entry, h.apart, Ledger.sorted_filter h.sorted _, ?_⟩
    intro t alloc ht
    rcases h.live t alloc ht with hin | hlast
    · by_cases hlast : alloc.lastNode < next
      · exact .inr hlast
      · have htensor := (h.entry t alloc ht).1
        exact .inl (List.mem_filter.2 ⟨hin, decide_eq_true ⟨hlast, by omega⟩⟩)
    · exact .inr hlast

theorem Inv.recalculate {next next' node : Int} {offsets : OffsetSort} (h : p.Inv types next)
    (hfirst : ∀ t alloc, p.Current types t alloc → alloc.firstNode ≤ node)
    (hlast : ∀ t alloc, p.Current types t alloc → alloc.lastNode < node →
      alloc.lastNode < next') : (p.recalculate offsets node).Inv types next' := by
  refine ⟨h.unshared, h.entry, h.apart, offsets.sorted _, ?_⟩
  intro t alloc ht
  by_cases hnode : alloc.lastNode < node
  · exact .inr (hlast t alloc ht hnode)
  · refine .inl ((offsets.perm _).mem_iff.2 (List.mem_filter.2 ⟨List.mem_of_getElem? ht.2.1, ?_⟩))
    exact decide_eq_true ⟨hfirst t alloc ht, Int.not_lt.1 hnode⟩

/-! ### Resets -/

theorem resetAllocs_getElem? (node : Int) (t : Nat) :
    (p.resetAllocs tensors node)[t]? = p.allocs[t]?.map fun alloc =>
      if node < alloc.firstNode ∧ 0 < alloc.size ∧ tensors.allocationType t = .arenaRw then
        .unused
      else alloc := by
  unfold resetAllocs
  rw [List.getElem?_map, List.getElem?_zipIdx, Option.map_map, Nat.zero_add]
  rfl

/-- What starts behind the node has no bytes any more. -/
theorem current_resetAllocs {node : Int} {alloc : ArenaAllocWithUsageInterval}
    (htypes : tensors.allocationType = types) (hallocs : p'.allocs = p.resetAllocs tensors node) :
    p'.Current types t alloc ↔ p.Current types t alloc ∧ alloc.firstNode ≤ node := by
  unfold Current
  rw [hallocs, resetAllocs_getElem?, htypes]
  constructor
  · rintro ⟨htype, hget, hsize⟩
    obtain ⟨old, hold, heq⟩ := Option.map_eq_some_iff.1 hget
    split at heq
    · subst heq
      exact absurd rfl hsize
    · rename_i hkept
      subst heq
      refine ⟨⟨htype, hold, hsize⟩, Int.not_lt.1 fun hlt => hkept ⟨hlt, ?_, htype⟩⟩
      rw [UInt64.lt_iff_toNat_lt]
      exact pos_of_ne_zero hsize
  · rintro ⟨⟨htype, hget, hsize⟩, hle⟩
    refine ⟨htype, ?_, hsize⟩
    rw [hget, Option.map_some, if_neg fun h => Int.not_lt.2 hle h.1]

theorem Inv.resetAllocs {next node : Int} (h : p.Inv types next)
    (htypes : tensors.allocationType = types) :
    ({ p with allocs := p.resetAllocs tensors node } : ArenaPlanner).Inv types next := by
  have hcurrent : ∀ {t alloc}, ({ p with allocs := p.resetAllocs tensors node } :
      ArenaPlanner).Current types t alloc → p.Current types t alloc := fun ht =>
    ((current_resetAllocs htypes rfl).1 ht).1
  exact ⟨h.unshared, fun t alloc ht => h.entry t alloc (hcurrent ht),
    fun t u alloc other hne ht hu => h.apart t u alloc other hne (hcurrent ht) (hcurrent hu),
    h.sorted, fun t alloc ht => h.live t alloc (hcurrent ht)⟩

theorem Inv.resetAllocationsAfter {next node : Int} {offsets : OffsetSort} (h : p.Inv types next)
    (htypes : tensors.allocationType = types) (hactive : next - 1 ≤ p.lastActiveNode)
    (hkeeps : node < p.lastActiveNode → ∀ t alloc, p.Current types t alloc →
      alloc.firstNode ≤ node → alloc.lastNode < node → alloc.lastNode < next) :
    (p.resetAllocationsAfter offsets tensors node).Inv types (min next (node + 1)) := by
  have hreset := @Inv.resetAllocs _ _ _ _ node h htypes
  have hcurrent : ∀ {t alloc}, ({ p with allocs := p.resetAllocs tensors node } :
      ArenaPlanner).Current types t alloc → p.Current types t alloc ∧ alloc.firstNode ≤ node :=
    fun ht => (current_resetAllocs htypes rfl).1 ht
  unfold ArenaPlanner.resetAllocationsAfter
  dsimp only
  split
  · rename_i hlt
    have hall := @ArenaPlanner.Inv.recalculate _ _ _ (min next (node + 1)) node offsets hreset
        (fun t alloc ht => (hcurrent ht).2) fun t alloc ht hlast => by
        have hold := hcurrent ht
        have hnext := hkeeps hlt t alloc hold.1 hold.2 hlast
        omega
    exact ⟨hall.unshared, hall.entry, hall.apart, hall.sorted, hall.live⟩
  · rename_i hge
    have hnext : min next (node + 1) = next := by omega
    rw [hnext]
    refine ⟨hreset.unshared, hreset.entry, hreset.apart, Ledger.sorted_filter h.sorted _, ?_⟩
    intro t alloc ht
    refine (hreset.live t alloc ht).imp_left fun hin => List.mem_filter.2 ⟨hin, ?_⟩
    have htensor := (hreset.entry t alloc ht).1
    have hold := hcurrent ht
    exact decide_eq_true ⟨Int.not_lt.2 hold.2, by omega⟩

end ArenaPlanner

namespace Planning

variable {types : Nat → TfLiteAllocationType} {offsets : OffsetSort} {order : TensorSort}
  {numExecutionNodes : Nat} {s s' : Planning} {call : PlanningCall}

structure Sound (types : Nat → TfLiteAllocationType) (s : Planning) : Prop where
  inv : s.planner.Inv types s.next
  active : s.next - 1 ≤ s.planner.lastActiveNode

theorem executeAllocations_eq_ok {shrink : ArenaPlanner → ArenaPlanner} {p p' : ArenaPlanner}
    {tensors : PlannerTensors} {firstNode lastNode : Int}
    (h : p.executeAllocations order shrink tensors numExecutionNodes firstNode lastNode =
      .ok p') :
    let q := p.setTemporaries tensors numExecutionNodes firstNode lastNode
    let allocated := q.tensorsAllocated tensors firstNode lastNode
    (allocated = [] ∧ p' = { q with lastActiveNode := lastNode }) ∨
      (allocated ≠ [] ∧ (shrink q).allocateAll order tensors allocated lastNode = .ok p') := by
  unfold executeAllocations calculateAllocations at h
  split at h
  · cases h
  · dsimp only at h ⊢
    split at h
    · rename_i hnil
      cases h
      exact .inl ⟨hnil, rfl⟩
    · rename_i hne
      exact .inr ⟨hne, h⟩

/-- A batch keeps what is in use apart. -/
theorem Sound.execute {tensors : PlannerTensors} {lastNode : Int} (h : s.Sound types)
    (hkeeps : s.Keeps types numExecutionNodes (.executeAllocations tensors lastNode))
    {p' : ArenaPlanner} (hok : s.planner.executeAllocations order (shrinkActive s.next) tensors
      numExecutionNodes s.next lastNode = .ok p') : Sound types ⟨p', lastNode + 1⟩ := by
  obtain ⟨htypes, hle, htables, hnodes, hclear⟩ := hkeeps
  have hset := @ArenaPlanner.Inv.setTemporaries _ tensors _ _ numExecutionNodes lastNode h.inv
    htables
  obtain ⟨-, -, -, hlast⟩ := @ArenaPlanner.setTemporaries_spec tensors s.planner numExecutionNodes
      s.next lastNode
  rcases executeAllocations_eq_ok hok with ⟨-, rfl⟩ | ⟨hne, hall⟩
  · have hinv := hset.mono (Int.le_trans hle (Int.le_add_one (Int.le_refl lastNode)))
    exact ⟨⟨hinv.unshared, hinv.entry, hinv.apart, hinv.sorted, hinv.live⟩, by dsimp only; omega⟩
  · have hshrunk := hset.shrinkActive fun hlt t alloc ht =>
      hclear (hlast ▸ hlt) hne t alloc (current_setTemporaries.1 ht)
    have hnode : ∀ t, (shrinkActive s.next (s.planner.setTemporaries tensors numExecutionNodes
        s.next lastNode)).allocNodeOf t = (s.planner.setTemporaries tensors numExecutionNodes
        s.next lastNode).allocNodeOf t := by
      intro t
      unfold shrinkActive
      split <;> rfl
    obtain ⟨hinv, heq⟩ := hshrunk.allocateAll htypes (fun t ht => mem_tensorsAllocated ht)
      (fun t ht htype => (hnode t).symm ▸ hnodes t ht htype) hall
    refine ⟨hinv.mono (Int.le_trans hle (Int.le_add_one (Int.le_refl lastNode))), ?_⟩
    dsimp only
    omega

theorem Sound.step (h : s.Sound types) (hkeeps : s.Keeps types numExecutionNodes call)
    (hstep : s.step offsets order numExecutionNodes (call, false) = some s') :
    s'.Sound types := by
  cases call with
  | executeAllocations tensors lastNode =>
    unfold Planning.step at hstep
    dsimp only at hstep
    cases hok : s.planner.executeAllocations order (shrinkActive s.next) tensors
        numExecutionNodes s.next lastNode with
    | error fault =>
      simp only [Bool.false_eq_true, if_false] at hstep
      rw [hok] at hstep
      cases hstep
    | ok p' =>
      simp only [Bool.false_eq_true, if_false] at hstep
      rw [hok] at hstep
      cases hstep
      exact h.execute hkeeps hok
  | resetAllocationsAfter tensors node =>
    cases hstep
    obtain ⟨htypes, -, hlost⟩ := hkeeps
    refine ⟨h.inv.resetAllocationsAfter htypes h.active hlost, ?_⟩
    show min s.next (node + 1) - 1 ≤ node
    omega

theorem Sound.run {calls : List (PlanningCall × Bool)} (h : s.Sound types)
    (hrun : Run (fun s call => Keeps types numExecutionNodes s call.1)
      (Planning.step offsets order numExecutionNodes) s (asCoded calls) s') : s'.Sound types := by
  induction calls generalizing s with
  | nil =>
    cases hrun
    exact h
  | cons call calls ih =>
    cases hrun with
    | cons hkeeps hstep hrest => exact ih (h.step hkeeps hstep) hrest

end Planning

end LiteRt.Tflite
