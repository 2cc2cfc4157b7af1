import LiteRt.Tflite.PlannerNeutrality

/-!
# Incremental planning

`PlanAllocations` clears all allocations. From there on batches and resets keep what is in use
together apart and place it where recalculating would have placed it, as long as they keep and
find what is in use.
-/

namespace LiteRt.Tflite

open LiteRt.Lib SimpleMemoryArena ArenaAllocWithUsageInterval

namespace ArenaPlanner

variable {tensors : PlannerTensors} {p p' : ArenaPlanner} {n : Nat} {graph : PlannerGraph}
  {w w' : Walk}

/-- What `PlanAllocations` leaves of the allocations. -/
structure Cleared (numTensors : Nat) (p : ArenaPlanner) : Prop where
  active : p.arena.activeAllocs = []
  allocs : p.allocs = List.replicate numTensors .unused
  last : p.lastActiveNode = kLastActiveNodeUndefined

theorem Cleared.planAllocate {n node tensor : Nat} (h : p.Cleared n)
    (hok : p.planAllocate node tensor = .ok p') : p'.Cleared n := by
  unfold ArenaPlanner.planAllocate at hok
  split at hok
  · cases hok
    exact h
  · split at hok
    · cases hok
    · cases hok
      exact ⟨h.active, h.allocs, h.last⟩

theorem Cleared.planDeallocate {n node tensor : Nat} (h : p.Cleared n)
    (hok : p.planDeallocate node tensor = .ok p') : p'.Cleared n := by
  unfold ArenaPlanner.planDeallocate at hok
  split at hok
  · cases hok
    exact h
  · split at hok
    · cases hok
    · cases hok
      exact ⟨h.active, h.allocs, h.last⟩

theorem Cleared.planLasting {n tensor : Nat} (h : p.Cleared n)
    (hok : p.planLasting tensor = .ok p') : p'.Cleared n := by
  unfold ArenaPlanner.planLasting at hok
  cases hplan : ArenaPlanner.planAllocate { p with refcounts := increment p.refcounts tensor } 0
      tensor with
  | error fault =>
    rw [hplan] at hok
    cases hok
  | ok q =>
    rw [hplan] at hok
    cases hok
    have hcounted : ({ p with refcounts := increment p.refcounts tensor } :
        ArenaPlanner).Cleared n := ⟨h.active, h.allocs, h.last⟩
    have hq := hcounted.planAllocate hplan
    exact ⟨hq.active, hq.allocs, hq.last⟩

theorem Cleared.planVariable {tensor : TensorIndex} (h : p.Cleared n)
    (hok : p.planVariable tensor = .ok p') : p'.Cleared n := by
  unfold ArenaPlanner.planVariable at hok
  split at hok
  · cases hok
  · exact h.planLasting hok

/-- A loop whose body keeps the allocations cleared keeps them cleared. -/
theorem Cleared.foldlM {α : Type} {f : ArenaPlanner → α → Except Fault ArenaPlanner} {l : List α}
    (h : p.Cleared n)
    (hf : ∀ {p p' : ArenaPlanner} {a : α}, p.Cleared n → f p a = .ok p' → p'.Cleared n)
    (hok : l.foldlM f p = .ok p') : p'.Cleared n := by
  induction l generalizing p with
  | nil =>
    cases hok
    exact h
  | cons a l ih =>
    rw [List.foldlM_cons] at hok
    cases ha : f p a with
    | error fault =>
      rw [ha] at hok
      cases hok
    | ok q =>
      rw [ha, ok_bind] at hok
      exact ih (hf h ha) hok

theorem Cleared.identifyInPlaceTensors (h : p.Cleared n) :
    (identifyInPlaceTensors graph tensors p).Cleared n := by
  refine foldl_invariant (P := fun (_ : List PlannerNode) (q : ArenaPlanner) => q.Cleared n)
    ⟨h.active, h.allocs, h.last⟩ ?_
  intro _ node _ q _ hq
  unfold identifyInPlace
  cases node.outputs with
  | nil => exact hq
  | cons output _ =>
    dsimp only
    split
    · exact hq
    · split
      · exact hq
      · split
        · exact hq
        · exact ⟨hq.active, hq.allocs, hq.last⟩

theorem Cleared.release {n node tensor : Nat} (h : w.planner.Cleared n)
    (hok : w.release node tensor = .ok w') : w'.planner.Cleared n := by
  unfold Walk.release at hok
  dsimp only at hok
  split at hok
  · cases hplan : w.planner.planDeallocate node (w.planner.findSharedTensor tensor) with
    | error fault =>
      rw [hplan] at hok
      cases hok
    | ok q =>
      rw [hplan] at hok
      cases hok
      exact h.planDeallocate hplan
  · cases hok
    exact h

theorem Cleared.walk {node : PlannerNode × Nat} (h : w.planner.Cleared n)
    (hok : w.step node = .ok w') : w'.planner.Cleared n := by
  unfold Walk.step at hok
  cases hplan : (tensorIndices node.1.outputs).foldlM (fun (p : ArenaPlanner) tensor =>
      (p.insertTensor node.2 tensor).planAllocate node.2 tensor) w.planner with
  | error fault =>
    rw [hplan] at hok
    cases hok
  | ok q =>
    have hinsert : ∀ {p : ArenaPlanner} {t : Nat}, p.Cleared n →
        (p.insertTensor node.2 t).Cleared n := fun hp => ⟨hp.active, hp.allocs, hp.last⟩
    have hq : q.Cleared n := h.foldlM (fun hp hp' => (hinsert hp).planAllocate hp') hplan
    rw [hplan, ok_bind] at hok
    split at hok
    · cases hok
      exact hq
    · rcases foldlM_invariant (l := tensorIndices node.1.inputs) (b := (⟨w.refcounts, q⟩ : Walk))
        (f := Walk.release node.2) (P := fun (_ : List Nat) (w : Walk) => w.planner.Cleared n) hq
        (fun _ _ _ _ _ _ hw hw' => Cleared.release hw hw') with ⟨w'', hw, hcleared⟩ | hfault
      · rw [hw] at hok
        cases hok
        exact hcleared
      · obtain ⟨_, _, _, _, _, _, _, _, herror⟩ := hfault
        rw [herror] at hok
        cases hok

theorem planAllocations_cleared (hok : p.planAllocations graph tensors = .ok p') :
    p'.Cleared tensors.numTensors := by
  unfold planAllocations at hok
  dsimp only at hok
  generalize hp₀ : ({ p.resetAllocations tensors.numTensors with
    allocNode := List.replicate tensors.numTensors kNodeNotAssigned
    deallocNode := List.replicate tensors.numTensors kNodeNotAssigned
    nodesToTensors := List.replicate (max graph.nodes.length 1) []
    refcounts := (tensorIndices graph.outputs).foldl increment
      (List.replicate tensors.numTensors 0) } : ArenaPlanner) = p₀ at hok
  have h₀ : p₀.Cleared tensors.numTensors := by
    rw [← hp₀]
    exact ⟨rfl, rfl, rfl⟩
  cases hvariables : graph.variableTensors.foldlM planVariable p₀ with
  | error fault =>
    rw [hvariables] at hok
    cases hok
  | ok p₁ =>
    rw [hvariables, ok_bind] at hok
    have h₁ := h₀.foldlM Cleared.planVariable hvariables
    cases hinputs : (tensorIndices graph.inputs).foldlM planLasting p₁ with
    | error fault =>
      rw [hinputs] at hok
      cases hok
    | ok p₂ =>
      rw [hinputs, ok_bind] at hok
      have h₂ := h₁.foldlM Cleared.planLasting hinputs
      generalize hw : (Walk.mk _ _) = w at hok
      have hwalk : w.planner.Cleared tensors.numTensors := by
        rw [← hw]
        exact Cleared.identifyInPlaceTensors ⟨h₂.active, h₂.allocs, h₂.last⟩
      rcases foldlM_invariant (l := graph.nodes.zipIdx) (b := w) (f := Walk.step)
        (P := fun (_ : List (PlannerNode × Nat)) (w : Walk) =>
          w.planner.Cleared tensors.numTensors) hwalk
        (fun _ _ _ _ _ _ hw hw' => Cleared.walk hw hw') with ⟨w', hw', hcleared⟩ | hfault
      · rw [hw'] at hok
        cases hok
        exact hcleared
      · obtain ⟨_, _, _, _, _, _, _, _, herror⟩ := hfault
        rw [herror] at hok
        cases hok

end ArenaPlanner

namespace Planning

variable {types : Nat → TfLiteAllocationType} {planner : ArenaPlanner}

theorem exact_of_cleared {n : Nat} (h : planner.Cleared n)
    (hshare : planner.actualTensorId = []) : planner.Exact types 0 ∧
      ∀ t alloc, ¬ planner.Current types t alloc := by
  have hunused : ∀ (t : Nat) (alloc : ArenaAllocWithUsageInterval),
      planner.allocs[t]? = some alloc → alloc = .unused := by
    intro t alloc hget
    rw [h.allocs] at hget
    exact List.eq_of_mem_replicate (List.mem_of_getElem? hget)
  have hnone : ∀ t alloc, ¬ planner.Current types t alloc := by
    rintro t alloc ⟨-, hget, hsize⟩
    rw [hunused t alloc hget] at hsize
    exact hsize rfl
  refine ⟨{ unshared := hshare
            entry := fun t alloc ht => absurd ht (hnone t alloc)
            apart := fun t u alloc other _ ht => absurd ht (hnone t alloc)
            sorted := ?_
            live := fun t alloc ht => absurd ht (hnone t alloc)
            nonneg := Int.le_refl 0
            own := ?_
            nodup := ?_
            entries := fun t alloc hget => .inl (hunused t alloc hget) }, hnone⟩
  · rw [h.active]
    exact .nil
  · rw [h.active]
    exact nofun
  · rw [h.active]
    exact .nil

/-- Batches and resets that keep what is in use place what is in use together apart. If
recalculating finds what is in use and nothing else, it changes no allocation. -/
theorem incremental_sound (offsets : OffsetSort) (order : TensorSort)
    {bufferAlignment tensorAlignment : UInt64} {preserveAllTensors : Bool} {graph : PlannerGraph}
    {tensors : PlannerTensors}
    (hplan : (ArenaPlanner.new bufferAlignment tensorAlignment preserveAllTensors).planAllocations
      graph tensors = .ok planner) (hshare : planner.actualTensorId = [])
    (types : Nat → TfLiteAllocationType) (calls : List (PlanningCall × Bool)) {s : Planning} :
    (Run (fun s call => Keeps types graph.nodes.length s call.1)
        (Planning.step offsets order graph.nodes.length) ⟨planner, 0⟩ (asCoded calls) s →
      ∀ t u alloc other, t ≠ u → s.planner.Current types t alloc →
        s.planner.Current types u other → s.planner.allocNodeOf t ≤ s.planner.deallocNodeOf u →
        s.planner.allocNodeOf u ≤ s.planner.deallocNodeOf t → alloc.Apart other) ∧
    (Run (fun s call => Keeps types graph.nodes.length s call.1 ∧
          Neutral types graph.nodes.length s call.1)
        (Planning.step offsets order graph.nodes.length) ⟨planner, 0⟩ (asCoded calls) s →
      ∃ s', Run (fun _ _ => True) (Planning.step offsets order graph.nodes.length) ⟨planner, 0⟩
        calls s' ∧ s'.planner.allocs = s.planner.allocs) := by
  have hcleared := ArenaPlanner.planAllocations_cleared hplan
  obtain ⟨hexact, hnone⟩ := @Planning.exact_of_cleared types _ _ hcleared hshare
  have hactive : (0 : Int) - 1 ≤ planner.lastActiveNode := by
    rw [hcleared.last]
    decide
  constructor
  · intro hrun t u alloc other hne ht hu htu hut
    have hsound : Sound types s := Sound.run ⟨hexact.toInv, hactive⟩ hrun
    obtain ⟨-, hfirst, hlast⟩ := hsound.inv.entry t alloc ht
    obtain ⟨-, hfirst', hlast'⟩ := hsound.inv.entry u other hu
    refine hsound.inv.apart t u alloc other hne ht hu ⟨?_, ?_⟩
    · rw [hfirst, hlast']
      exact htu
    · rw [hfirst', hlast]
      exact hut
  · intro hrun
    have hmatched := Matched.refl (s := ⟨planner, 0⟩) hexact
      (fun t alloc ht => absurd ht (hnone t alloc)) hactive
    obtain ⟨s', hrun', hsame⟩ := hmatched.run hrun
    obtain ⟨l, rfl⟩ := hsame.same
    exact ⟨_, hrun', rfl⟩

/-! ### A chain of two nodes -/

def insertionOffsets : OffsetSort where
  sort allocs := allocs.insertionSort fun a b => a.offset.toNat ≤ b.offset.toNat
  perm allocs := List.perm_insertionSort _ allocs
  sorted allocs := by
    have : IsTrans ArenaAllocWithUsageInterval fun a b => a.offset.toNat ≤ b.offset.toNat :=
      ⟨fun _ _ _ => Nat.le_trans⟩
    have : Std.Total fun a b : ArenaAllocWithUsageInterval => a.offset.toNat ≤ b.offset.toNat :=
      ⟨fun _ _ => Nat.le_total _ _⟩
    exact List.pairwise_insertionSort _ allocs

def insertionOrder : TensorSort where
  sort less tensors := tensors.insertionSort fun a b => less a b = true
  perm _ tensors := List.perm_insertionSort _ tensors

def chainGraph (variableTensors : List TensorIndex) : PlannerGraph where
  inputs := [0]
  outputs := [2]
  variableTensors := variableTensors
  nodes := [⟨[0], [1], kTfLiteInplaceOpNone⟩, ⟨[1], [2], kTfLiteInplaceOpNone⟩]

def chainTensors : PlannerTensors where
  numTensors := 4
  bytes t := if t = 3 then 1024 else 64
  allocationType t := if t = 3 then .arenaRwPersistent else .arenaRw
  temporaries _ := []

def chainPlan (variableTensors : List TensorIndex) : Except Fault ArenaPlanner :=
  (ArenaPlanner.new 64 64 false).planAllocations (chainGraph variableTensors) chainTensors

theorem incremental_sound_chain : ∃ planner s, chainPlan [] = .ok planner ∧
    Run (fun s call => Keeps chainTensors.allocationType 2 s call.1)
      (Planning.step insertionOffsets insertionOrder 2) ⟨planner, 0⟩
      (asCoded [(.executeAllocations chainTensors 1, false)]) s ∧
    ∀ t u alloc other, t ≠ u → s.planner.Current chainTensors.allocationType t alloc →
      s.planner.Current chainTensors.allocationType u other →
      s.planner.allocNodeOf t ≤ s.planner.deallocNodeOf u →
      s.planner.allocNodeOf u ≤ s.planner.deallocNodeOf t → alloc.Apart other := by
  obtain ⟨planner, hplan⟩ : ∃ planner, chainPlan [] = .ok planner := ⟨_, rfl⟩
  have hshare : planner.actualTensorId = [] := by
    cases hplan
    rfl
  obtain ⟨-, hnone⟩ := @Planning.exact_of_cleared chainTensors.allocationType _ _
      (ArenaPlanner.planAllocations_cleared hplan) hshare
  obtain ⟨s, hrun⟩ : ∃ s, Run (fun s call => Keeps chainTensors.allocationType 2 s call.1)
      (Planning.step insertionOffsets insertionOrder 2) ⟨planner, 0⟩
      (asCoded [(.executeAllocations chainTensors 1, false)]) s := by
    cases hplan
    refine ⟨_, .single ⟨rfl, by decide, fun t alloc ht => absurd ht (hnone t alloc), by decide,
      fun _ _ t alloc ht => absurd ht (hnone t alloc)⟩ rfl⟩
  exact ⟨planner, s, hplan, hrun, (incremental_sound insertionOffsets insertionOrder hplan hshare
    chainTensors.allocationType [(.executeAllocations chainTensors 1, false)]).1 hrun⟩

/-- A reset for a node that was not planned yet makes the next batch forget the input of the
graph, and with a variable tensor it depends on how a reset shrinks the active allocations
where the next tensor goes. -/
theorem incremental_unsound :
    (∃ planner s, chainPlan [] = .ok planner ∧ planner.actualTensorId = [] ∧
      [(PlanningCall.executeAllocations chainTensors 0, false),
        (.resetAllocationsAfter chainTensors 2, false),
        (.executeAllocations chainTensors 1, false)].foldlM
          (Planning.step insertionOffsets insertionOrder 2) ⟨planner, 0⟩ = some s ∧
      s.planner.Current chainTensors.allocationType 0 ⟨0, 64, 0, 0, 2147483647⟩ ∧
      s.planner.Current chainTensors.allocationType 2 ⟨0, 64, 2, 1, 2147483647⟩ ∧
      s.planner.allocNodeOf 0 ≤ s.planner.deallocNodeOf 2 ∧
      s.planner.allocNodeOf 2 ≤ s.planner.deallocNodeOf 0 ∧
      ¬ Apart ⟨0, 64, 0, 0, 2147483647⟩ ⟨0, 64, 2, 1, 2147483647⟩) ∧
    ∃ planner s s', chainPlan [3] = .ok planner ∧ planner.actualTensorId = [] ∧
      [(PlanningCall.executeAllocations chainTensors 0, false),
        (.resetAllocationsAfter chainTensors 0, false),
        (.executeAllocations chainTensors 1, false)].foldlM
          (Planning.step insertionOffsets insertionOrder 2) ⟨planner, 0⟩ = some s ∧
      [(PlanningCall.executeAllocations chainTensors 0, false),
        (.resetAllocationsAfter chainTensors 0, true),
        (.executeAllocations chainTensors 1, false)].foldlM
          (Planning.step insertionOffsets insertionOrder 2) ⟨planner, 0⟩ = some s' ∧
      (s.planner.allocOf 2).offset = 128 ∧ (s'.planner.allocOf 2).offset = 1024 := by
  constructor
  · refine ⟨_, _, rfl, rfl, rfl, ⟨rfl, ?_, by decide⟩, ⟨rfl, ?_, by decide⟩, ?_, ?_, ?_⟩
    · decide
    · decide
    · decide
    · decide
    · unfold Apart stop
      decide
  · refine ⟨_, _, _, rfl, rfl, rfl, rfl, ?_, ?_⟩
    · decide
    · decide

end Planning

end LiteRt.Tflite
