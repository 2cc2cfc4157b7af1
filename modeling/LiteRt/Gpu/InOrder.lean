import LiteRt.Lib.Loops
import LiteRt.Gpu.ObjectPool

/-!
# Assignment in the order of the first tasks

Four greedy algorithms take the tensors one after the other and give each a free object or a
new one.
-/

namespace LiteRt.Gpu

open LiteRt.Lib ObjectsAssignment List

/-! ## One-dimensional sizes -/

/-- Objects in pool are ordered by size. -/
structure PoolRecord where
  objectSize : Nat
  objectId : Nat
  deriving DecidableEq, Repr

instance : LinearOrder PoolRecord :=
  LinearOrder.lift' (fun record => toLex (record.objectSize, record.objectId)) fun a b h => by
    cases a
    cases b
    simpa using h

def absDiffInElements (firstSize secondSize : Nat) : Nat :=
  if secondSize ≤ firstSize then firstSize - secondSize else secondSize - firstSize

/-- Whether the item is found at its `lower_bound`. -/
def foundSorted (item : Nat) (items : List Nat) : Bool :=
  decide ((items.dropWhile fun i => decide (i < item)).head? = some item)

abbrev UsageGraph := List (List Nat)

namespace GreedyInOrder

/-- The loop variables of `GreedyInOrderAssignment`. -/
structure State where
  assignment : ObjectsAssignment Nat
  lastAssignedTensor : List Nat
  pool : List PoolRecord
  objectsInUse : List QueueRecord
  deriving DecidableEq

def State.initial (numRecords : Nat) : State :=
  ⟨.empty numRecords, [], [], []⟩

/-- The object of the pool closest in size whose last tensor the graph lets `i` take over. -/
def bestReallocation (graph : UsageGraph) (lastAssignedTensor : List Nat) (i tensorSize : Nat)
    (pool : List PoolRecord) : Option PoolRecord :=
  (pool.foldl (fun (best : Option PoolRecord × Nat) record =>
    let sizeDiff := absDiffInElements record.objectSize tensorSize
    if best.1 = none ∨ sizeDiff < best.2 then
      if foundSorted i (graph.getD (lastAssignedTensor.getD record.objectId 0) []) then
        (some record, sizeDiff)
      else best
    else best) (none, 0)).1

/-- The smallest object of the pool that is not too small or the largest one that is, whichever
wastes less. -/
def bestFit (tensorSize : Nat) (pool : List PoolRecord) : Except Status (Option PoolRecord) :=
  if pool = [] then .ok none
  else
    let before := pool.takeWhile fun record => decide (record < ⟨tensorSize, 0⟩)
    let after := pool.dropWhile fun record => decide (record < ⟨tensorSize, 0⟩)
    let best := after.head?
    let sizeDiff := (best.map fun record => record.objectSize - tensorSize).getD 0
    let best :=
      match before.getLast? with
      | none => best
      | some record =>
        if best.isNone ∨ tensorSize - record.objectSize < sizeDiff then some record else best
    if best.isNone then
      .error (.internalError
        "No shared object is found in non-empty pool in GreedyInOrderAssignment.")
    else .ok best

/-- Returns the objects that are no longer in use to the pool. -/
def State.release (st : State) (firstTask : Nat) : State :=
  let released := releaseObjects (fun objectId pool =>
      insertSorted ⟨st.assignment.objectSizes.getD objectId 0, objectId⟩ pool)
    firstTask st.objectsInUse st.pool
  { st with objectsInUse := released.1, pool := released.2 }

def State.assign (st : State) (rec : TensorUsageWithIndex Nat) : Option PoolRecord → State
  | none =>
    { assignment := st.assignment.create rec.idx rec.usageRecord.tensorSize
      lastAssignedTensor := st.lastAssignedTensor ++ [rec.idx]
      pool := st.pool
      objectsInUse := insertSorted
        ⟨rec.usageRecord.lastTask, st.assignment.objectSizes.length⟩ st.objectsInUse }
  | some best =>
    { assignment := st.assignment.reuse rec.idx best.objectId
        (max (st.assignment.objectSizes.getD best.objectId 0) rec.usageRecord.tensorSize)
      lastAssignedTensor := st.lastAssignedTensor.set best.objectId rec.idx
      pool := eraseSorted best st.pool
      objectsInUse := insertSorted ⟨rec.usageRecord.lastTask, best.objectId⟩ st.objectsInUse }

/-- The body of the loop over the tensors. -/
def State.step (reallocationGraph : Option UsageGraph) (st : State)
    (rec : TensorUsageWithIndex Nat) : Except Status State := do
  let st := st.release rec.usageRecord.firstTask
  let best ← match reallocationGraph with
    | some graph =>
      .ok (bestReallocation graph st.lastAssignedTensor rec.idx rec.usageRecord.tensorSize st.pool)
    | none => bestFit rec.usageRecord.tensorSize st.pool
  return st.assign rec best

end GreedyInOrder

def greedyInOrderAssignment (usageRecords : List (TensorUsageRecord Nat))
    (reallocationGraph : Option UsageGraph) : Except Status (ObjectsAssignment Nat) := do
  let st ← (withIndex usageRecords).foldlM (GreedyInOrder.State.step reallocationGraph)
    (.initial usageRecords.length)
  return st.assignment

/-! ## Multidimensional sizes -/

/-- Sizes of two- and three-dimensional objects. -/
class ObjectSize (α : Type) where
  isCoveringObject : α → α → Bool
  absDiffInElements : α → α → Nat
  isCoveringObject_self : ∀ size, isCoveringObject size size = true

structure UInt2 where
  x : UInt32
  y : UInt32
  deriving DecidableEq, Repr

structure UInt3 where
  x : UInt32
  y : UInt32
  z : UInt32
  deriving DecidableEq, Repr

instance : ObjectSize UInt2 where
  isCoveringObject first second := decide (second.x ≤ first.x) && decide (second.y ≤ first.y)
  absDiffInElements first second :=
    Gpu.absDiffInElements (first.y * first.x).toNat (second.y * second.x).toNat
  isCoveringObject_self size := by simp

instance : ObjectSize UInt3 where
  isCoveringObject first second :=
    decide (second.x ≤ first.x) && decide (second.y ≤ first.y) && decide (second.z ≤ first.z)
  absDiffInElements first second :=
    Gpu.absDiffInElements (first.z * first.y * first.x).toNat (second.z * second.y * second.x).toNat
  isCoveringObject_self size := by simp

namespace Multidimensional

variable {α : Type} [ObjectSize α]

structure State (α : Type) where
  assignment : ObjectsAssignment α
  pool : List Nat
  objectsInUse : List QueueRecord

def State.initial (numRecords : Nat) : State α :=
  ⟨.empty numRecords, [], []⟩

/-- The object of the pool that covers the tensor and wastes least. -/
def bestCovering (objectSizes : List α) (tensorSize : α) (pool : List Nat) : Option Nat :=
  (pool.foldl (fun (best : Option Nat × Nat) object =>
    match objectSizes[object]? with
    | none => best
    | some sharedObjectSize =>
      if ObjectSize.isCoveringObject sharedObjectSize tensorSize then
        let sizeDiff := ObjectSize.absDiffInElements sharedObjectSize tensorSize
        if best.1 = none ∨ sizeDiff < best.2 then (some object, sizeDiff) else best
      else best) (none, 0)).1

def State.release (st : State α) (firstTask : Nat) : State α :=
  let released := releaseObjects (fun objectId pool => pool ++ [objectId]) firstTask
    st.objectsInUse st.pool
  { st with objectsInUse := released.1, pool := released.2 }

def State.assign (st : State α) (rec : TensorUsageWithIndex α) : Option Nat → State α
  | none =>
    { assignment := st.assignment.create rec.idx rec.usageRecord.tensorSize
      pool := st.pool
      objectsInUse := insertSorted
        ⟨rec.usageRecord.lastTask, st.assignment.objectSizes.length⟩ st.objectsInUse }
  | some best =>
    { assignment := st.assignment.place rec.idx best
      pool := st.pool.erase best
      objectsInUse := insertSorted ⟨rec.usageRecord.lastTask, best⟩ st.objectsInUse }

def State.step (st : State α) (rec : TensorUsageWithIndex α) : State α :=
  let st := st.release rec.usageRecord.firstTask
  st.assign rec (bestCovering st.assignment.objectSizes rec.usageRecord.tensorSize st.pool)

end Multidimensional

def greedyInOrderAssignmentMultidimensional {α : Type} [ObjectSize α]
    (usageRecords : List (TensorUsageRecord α)) : Except Status (ObjectsAssignment α) :=
  .ok ((withIndex usageRecords).foldl Multidimensional.State.step
    (.initial usageRecords.length)).assignment

/-! ## Equal sizes -/

namespace EqualityWithHash

variable {α : Type} [DecidableEq α]

/-- `pool` maps a size to the free objects of that size. -/
structure State (α : Type) where
  assignment : ObjectsAssignment α
  pool : List (α × List Nat)
  objectsInUse : List QueueRecord

def State.initial (numRecords : Nat) : State α :=
  ⟨.empty numRecords, [], []⟩

/-- `pool[size].push_back(object)`. -/
def push (size : α) (object : Nat) : List (α × List Nat) → List (α × List Nat)
  | [] => [(size, [object])]
  | entry :: rest =>
    if entry.1 = size then (entry.1, entry.2 ++ [object]) :: rest
    else entry :: push size object rest

/-- The last free object of a size, and the pool without it. -/
def pop (size : α) : List (α × List Nat) → Option (Nat × List (α × List Nat))
  | [] => none
  | entry :: rest =>
    if entry.1 = size then
      entry.2.getLast?.map fun object => (object, (entry.1, entry.2.dropLast) :: rest)
    else (pop size rest).map fun popped => (popped.1, entry :: popped.2)

def State.release (st : State α) (firstTask : Nat) : State α :=
  let released := releaseObjects (fun objectId pool =>
      match st.assignment.objectSizes[objectId]? with
      | none => pool
      | some size => push size objectId pool)
    firstTask st.objectsInUse st.pool
  { st with objectsInUse := released.1, pool := released.2 }

def State.assign (st : State α) (rec : TensorUsageWithIndex α) : State α :=
  match pop rec.usageRecord.tensorSize st.pool with
  | none =>
    { assignment := st.assignment.create rec.idx rec.usageRecord.tensorSize
      pool := st.pool
      objectsInUse := insertSorted
        ⟨rec.usageRecord.lastTask, st.assignment.objectSizes.length⟩ st.objectsInUse }
  | some popped =>
    { assignment := st.assignment.place rec.idx popped.1
      pool := popped.2
      objectsInUse := insertSorted ⟨rec.usageRecord.lastTask, popped.1⟩ st.objectsInUse }

def State.step (st : State α) (rec : TensorUsageWithIndex α) : State α :=
  (st.release rec.usageRecord.firstTask).assign rec

end EqualityWithHash

def equalityAssignmentWithHash {α : Type} [DecidableEq α]
    (usageRecords : List (TensorUsageRecord α)) : Except Status (ObjectsAssignment α) :=
  .ok ((withIndex usageRecords).foldl EqualityWithHash.State.step
    (.initial usageRecords.length)).assignment

namespace Equality

variable {α : Type} [DecidableEq α]

/-- An object can be deallocated after its task in `deallocTask`. -/
structure State (α : Type) where
  assignment : ObjectsAssignment α
  deallocTask : List Nat

def State.initial (numRecords : Nat) : State α :=
  ⟨.empty numRecords, []⟩

/-- The first object of the same size that was deallocated before. -/
def bestObject (st : State α) (rec : TensorUsageRecord α) : Option Nat :=
  (List.range st.assignment.objectSizes.length).find? fun obj =>
    decide (st.deallocTask.getD obj 0 < rec.firstTask) &&
      decide (st.assignment.objectSizes[obj]? = some rec.tensorSize)

def State.step (st : State α) (rec : TensorUsageWithIndex α) : State α :=
  match bestObject st rec.usageRecord with
  | none =>
    { assignment := st.assignment.create rec.idx rec.usageRecord.tensorSize
      deallocTask := st.deallocTask ++ [rec.usageRecord.lastTask] }
  | some best =>
    { assignment := st.assignment.place rec.idx best
      deallocTask := st.deallocTask.set best rec.usageRecord.lastTask }

end Equality

def equalityAssignment {α : Type} [DecidableEq α] (usageRecords : List (TensorUsageRecord α)) :
    Except Status (ObjectsAssignment α) :=
  .ok ((withIndex usageRecords).foldl Equality.State.step (.initial usageRecords.length)).assignment

/-! ## The loops -/

section
variable {α β : Type} {usageRecords : List (TensorUsageRecord α)} {P : Nat → β → Prop} {init : β}

/-- The loop over the tensors meets them with their indices. -/
theorem withIndex_split {done rest : List (TensorUsageWithIndex α)}
    {rec : TensorUsageWithIndex α} (h : withIndex usageRecords = done ++ rec :: rest) :
    rec.idx = done.length ∧ usageRecords[done.length]? = some rec.usageRecord := by
  have hget : (withIndex usageRecords)[done.length]? = some rec := by
    rw [h, getElem?_append_right (le_refl _), Nat.sub_self, getElem?_cons_zero]
  unfold withIndex at hget
  rw [getElem?_map, getElem?_zipIdx, Option.map_map] at hget
  obtain ⟨r, hr, rfl⟩ := Option.map_eq_some_iff.1 hget
  exact ⟨Nat.zero_add _, hr⟩

theorem withIndex_loop {f : β → TensorUsageWithIndex α → β} (h0 : P 0 init)
    (step : ∀ (i : Nat) (rec : TensorUsageRecord α) (st : β), usageRecords[i]? = some rec → P i st →
      P (i + 1) (f st ⟨rec, i⟩)) :
    P usageRecords.length ((withIndex usageRecords).foldl f init) := by
  have hlen : (withIndex usageRecords).length = usageRecords.length := by simp [withIndex]
  rw [← hlen]
  refine foldl_invariant (P := fun done st => P done.length st) h0 ?_
  intro done rec rest st heq hst
  obtain ⟨hidx, hrec⟩ := withIndex_split heq
  have hnext := step done.length rec.usageRecord st hrec hst
  rw [← hidx] at hnext
  rw [length_append, ← hidx]
  exact hnext

theorem withIndex_loopM {f : β → TensorUsageWithIndex α → Except Status β} (h0 : P 0 init)
    (step : ∀ (i : Nat) (rec : TensorUsageRecord α) (st : β), usageRecords[i]? = some rec → P i st →
      ∃ st', f st ⟨rec, i⟩ = .ok st' ∧ P (i + 1) st') :
    ∃ st, (withIndex usageRecords).foldlM f init = .ok st ∧ P usageRecords.length st := by
  have hlen : (withIndex usageRecords).length = usageRecords.length := by simp [withIndex]
  have hstep : ∀ {done rest : List (TensorUsageWithIndex α)} {rec : TensorUsageWithIndex α}
      {st : β}, withIndex usageRecords = done ++ rec :: rest → P done.length st →
      ∃ st', f st rec = .ok st' ∧ P (done ++ [rec]).length st' := by
    intro done rest rec st heq hst
    obtain ⟨hidx, hrec⟩ := withIndex_split heq
    rw [length_append, ← hidx]
    rw [← hidx] at hrec hst
    exact step rec.idx rec.usageRecord st hrec hst
  have hpreserved : ∀ done rec rest st st', withIndex usageRecords = done ++ rec :: rest →
      P done.length st → f st rec = .ok st' → P (done ++ [rec]).length st' := by
    intro done rec rest st st' heq hst hok
    obtain ⟨st'', hok', hnext⟩ := hstep heq hst
    rw [hok] at hok'
    cases hok'
    exact hnext
  rcases foldlM_invariant (P := fun done st => P done.length st) h0 hpreserved with
    hok | ⟨done, rec, rest, st, e, heq, hst, herror, -⟩
  · rwa [hlen] at hok
  · obtain ⟨st', hok, -⟩ := hstep heq hst
    rw [herror] at hok
    cases hok

end

/-! ## What the algorithms take from the pool -/

namespace GreedyInOrder

theorem mem_of_bestReallocation {graph : UsageGraph} {lastAssignedTensor : List Nat}
    {i tensorSize : Nat} {pool : List PoolRecord} {best : PoolRecord}
    (h : bestReallocation graph lastAssignedTensor i tensorSize pool = some best) :
    best ∈ pool ∧
      foundSorted i (graph.getD (lastAssignedTensor.getD best.objectId 0) []) = true := by
  unfold bestReallocation at h
  revert h
  refine foldl_invariant (P := fun _ (state : Option PoolRecord × Nat) => state.1 = some best →
    best ∈ pool ∧
      foundSorted i (graph.getD (lastAssignedTensor.getD best.objectId 0) []) = true) ?_ ?_
  · exact nofun
  · intro done record rest state heq hstate
    dsimp only
    split
    · split
      · rename_i hfound
        intro hbest
        cases hbest
        refine ⟨?_, hfound⟩
        rw [heq]
        exact mem_append_right _ mem_cons_self
      · exact hstate
    · exact hstate

theorem bestFit_ok (tensorSize : Nat) (pool : List PoolRecord) :
    ∃ best, bestFit tensorSize pool = .ok best ∧ ∀ record, best = some record → record ∈ pool := by
  have hsplit := takeWhile_append_dropWhile
    (p := fun record => decide (record < (⟨tensorSize, 0⟩ : PoolRecord))) (l := pool)
  have hafter : ∀ record, (pool.dropWhile fun record =>
      decide (record < (⟨tensorSize, 0⟩ : PoolRecord))).head? = some record → record ∈ pool := by
    intro record h
    rw [← hsplit]
    exact mem_append_right _ (mem_of_head? h)
  have hbefore : ∀ record, (pool.takeWhile fun record =>
      decide (record < (⟨tensorSize, 0⟩ : PoolRecord))).getLast? = some record →
      record ∈ pool := by
    intro record h
    rw [← hsplit]
    exact mem_append_left _ (mem_of_getLast? h)
  unfold bestFit
  by_cases hpool : pool = []
  · exact ⟨none, if_pos hpool, nofun⟩
  · rw [if_neg hpool]
    dsimp only
    generalize hb : (pool.takeWhile fun record =>
      decide (record < (⟨tensorSize, 0⟩ : PoolRecord))) = before at hsplit hbefore ⊢
    generalize ha : (pool.dropWhile fun record =>
      decide (record < (⟨tensorSize, 0⟩ : PoolRecord))) = after at hsplit hafter ⊢
    cases hlast : before.getLast? with
    | none =>
      have hnil : before = [] := getLast?_eq_none_iff.1 hlast
      dsimp only
      cases hhead : after.head? with
      | none =>
        rw [hnil, head?_eq_none_iff.1 hhead] at hsplit
        exact absurd hsplit.symm hpool
      | some record =>
        refine ⟨some record, if_neg nofun, fun record' heq => ?_⟩
        cases heq
        exact hafter record hhead
    | some record =>
      dsimp only
      split
      · refine ⟨some record, if_neg nofun, fun record' heq => ?_⟩
        cases heq
        exact hbefore record hlast
      · rename_i hnot
        cases hhead : after.head? with
        | none => exact absurd (.inl (by rw [hhead]; rfl)) hnot
        | some record' =>
          refine ⟨some record', if_neg nofun, fun record'' heq => ?_⟩
          cases heq
          exact hafter record' hhead

end GreedyInOrder

/-! ## Validity -/

namespace GreedyInOrder

variable {usageRecords : List (TensorUsageRecord Nat)} {graph : Option UsageGraph} {i : Nat}
  {st st' : State} {rec : TensorUsageRecord Nat}

/-- The pool is kept in the order of its records. -/
def State.Inv (usageRecords : List (TensorUsageRecord Nat)) (i : Nat) (st : State) : Prop :=
  Pooled (fun size tensorSize => tensorSize ≤ size) usageRecords i st.assignment st.objectsInUse
      (st.pool.map PoolRecord.objectId) ∧
    st.pool.Pairwise (· < ·)

theorem State.Inv.release (h : st.Inv usageRecords i) (horder : InTaskOrder usageRecords)
    (hrec : usageRecords[i]? = some rec) : (st.release rec.firstTask).Inv usageRecords i := by
  obtain ⟨hpooled, hsorted⟩ := h
  have hinsert : ∀ object (pool : List PoolRecord), pool.Pairwise (· < ·) →
      object ∉ pool.map PoolRecord.objectId → object < st.assignment.objectSizes.length →
      (insertSorted ⟨st.assignment.objectSizes.getD object 0, object⟩ pool).Pairwise (· < ·) ∧
        ((insertSorted ⟨st.assignment.objectSizes.getD object 0, object⟩ pool).map
          PoolRecord.objectId).Perm (object :: pool.map PoolRecord.objectId) := by
    intro object pool hpool hfresh _
    refine ⟨insertSorted_pairwise hpool, (insertSorted_perm fun hin => hfresh ?_).map _⟩
    exact mem_map.2 ⟨_, hin, rfl⟩
  obtain ⟨hpooled', hsorted', -⟩ := hpooled.releaseObjects horder hrec hinsert hsorted
  exact ⟨hpooled', hsorted'⟩

theorem State.Inv.assign (h : st.Inv usageRecords i) (horder : InTaskOrder usageRecords)
    (hrec : usageRecords[i]? = some rec) {best : Option PoolRecord}
    (hbest : ∀ record, best = some record → record ∈ st.pool) :
    (st.assign ⟨rec, i⟩ best).Inv usageRecords (i + 1) := by
  obtain ⟨hpooled, hsorted⟩ := h
  cases best with
  | none => exact ⟨hpooled.create hrec (le_refl _), hsorted⟩
  | some record =>
    have hperm := (eraseSorted_perm hsorted (hbest record rfl)).map PoolRecord.objectId
    refine ⟨hpooled.reuse horder hrec hperm (le_max_right _ _) ?_, eraseSorted_pairwise hsorted⟩
    intro x y hx hle
    rw [getD_eq_getElem?_getD, hx, Option.getD_some]
    exact hle.trans (le_max_left _ _)

/-- A step releases objects and takes one of the pool or a new one. With a graph, the last
tensor of the object it takes can be followed by this one. -/
theorem State.step_spec (reallocationGraph : Option UsageGraph) (st : State)
    (rec : TensorUsageWithIndex Nat) :
    ∃ best, st.step reallocationGraph rec =
        .ok ((st.release rec.usageRecord.firstTask).assign rec best) ∧
      ∀ record, best = some record → record ∈ (st.release rec.usageRecord.firstTask).pool ∧
          ∀ graph, reallocationGraph = some graph → foundSorted rec.idx
              (graph.getD (st.lastAssignedTensor.getD record.objectId 0) []) = true := by
  cases reallocationGraph with
  | none =>
    obtain ⟨best, hok, hmem⟩ := bestFit_ok rec.usageRecord.tensorSize
      (st.release rec.usageRecord.firstTask).pool
    refine ⟨best, ?_, fun record heq => ⟨hmem record heq, nofun⟩⟩
    unfold State.step
    dsimp only
    rw [hok]
    rfl
  | some graph =>
    refine ⟨_, rfl, fun record heq => ?_⟩
    obtain ⟨hin, hfound⟩ := mem_of_bestReallocation heq
    refine ⟨hin, fun graph' hgraph => ?_⟩
    cases hgraph
    exact hfound

theorem valid (horder : InTaskOrder usageRecords) (reallocationGraph : Option UsageGraph) :
    ∃ a, greedyInOrderAssignment usageRecords reallocationGraph = .ok a ∧
      Valid (fun size tensorSize => tensorSize ≤ size) usageRecords a := by
  have hstep : ∀ (i : Nat) (rec : TensorUsageRecord Nat) (st : State),
      usageRecords[i]? = some rec → st.Inv usageRecords i →
      ∃ st', st.step reallocationGraph ⟨rec, i⟩ = .ok st' ∧ st'.Inv usageRecords (i + 1) := by
    intro i rec st hrec hst
    obtain ⟨best, hok, hbest⟩ := State.step_spec reallocationGraph st ⟨rec, i⟩
    exact ⟨_, hok, (hst.release horder hrec).assign horder hrec fun r hr => (hbest r hr).1⟩
  have hinit : (State.initial usageRecords.length).Inv usageRecords 0 := ⟨pooled_empty, .nil⟩
  obtain ⟨st, hok, hpooled, -⟩ :=
    withIndex_loopM (P := fun i st => State.Inv usageRecords i st) hinit hstep
  refine ⟨st.assignment, ?_, hpooled.valid⟩
  unfold greedyInOrderAssignment
  rw [hok]
  rfl

end GreedyInOrder

namespace Multidimensional

variable {α : Type} [ObjectSize α] {usageRecords : List (TensorUsageRecord α)} {i : Nat}
  {st : State α} {rec : TensorUsageRecord α}

theorem bestCovering_spec {objectSizes : List α} {tensorSize : α} {pool : List Nat} {best : Nat}
    (h : bestCovering objectSizes tensorSize pool = some best) :
    best ∈ pool ∧ ∃ size, objectSizes[best]? = some size ∧
      ObjectSize.isCoveringObject size tensorSize = true := by
  unfold bestCovering at h
  revert h
  refine foldl_invariant (P := fun _ (state : Option Nat × Nat) => state.1 = some best →
    best ∈ pool ∧ ∃ size, objectSizes[best]? = some size ∧
      ObjectSize.isCoveringObject size tensorSize = true) nofun ?_
  intro done object rest state heq hstate
  dsimp only
  cases hsize : objectSizes[object]? with
  | none => exact hstate
  | some size =>
    dsimp only
    split
    · rename_i hcovers
      split
      · intro hbest
        cases hbest
        refine ⟨?_, size, hsize, hcovers⟩
        rw [heq]
        exact mem_append_right _ mem_cons_self
      · exact hstate
    · exact hstate

def State.Inv (usageRecords : List (TensorUsageRecord α)) (i : Nat) (st : State α) : Prop :=
  Pooled (fun size tensorSize => ObjectSize.isCoveringObject size tensorSize = true)
    usageRecords i st.assignment st.objectsInUse st.pool

theorem State.Inv.release (h : st.Inv usageRecords i) (horder : InTaskOrder usageRecords)
    (hrec : usageRecords[i]? = some rec) : (st.release rec.firstTask).Inv usageRecords i := by
  have hinsert : ∀ object (pool : List Nat), True → object ∉ id pool →
      object < st.assignment.objectSizes.length →
      True ∧ (id (pool ++ [object])).Perm (object :: id pool) :=
    fun object pool _ _ _ => ⟨trivial, perm_append_singleton _ _⟩
  exact (Pooled.releaseObjects horder hrec hinsert h trivial).1

theorem State.Inv.step (h : st.Inv usageRecords i) (horder : InTaskOrder usageRecords)
    (hrec : usageRecords[i]? = some rec) : (st.step ⟨rec, i⟩).Inv usageRecords (i + 1) := by
  have hpooled := h.release horder hrec
  unfold State.step
  dsimp only
  cases hbest : bestCovering (st.release rec.firstTask).assignment.objectSizes rec.tensorSize
      (st.release rec.firstTask).pool with
  | none => exact Pooled.create hpooled hrec (ObjectSize.isCoveringObject_self _)
  | some best =>
    obtain ⟨hin, size, hsize, hcovers⟩ := bestCovering_spec hbest
    exact Pooled.place hpooled horder hrec (perm_cons_erase hin) hsize hcovers

theorem valid (horder : InTaskOrder usageRecords) :
    ∃ a, greedyInOrderAssignmentMultidimensional usageRecords = .ok a ∧
      Valid (fun size tensorSize => ObjectSize.isCoveringObject size tensorSize = true)
        usageRecords a := by
  have hinit : (State.initial usageRecords.length).Inv usageRecords 0 := pooled_empty
  have hall : State.Inv usageRecords usageRecords.length
      ((withIndex usageRecords).foldl State.step (.initial usageRecords.length)) :=
    withIndex_loop (P := fun i (st : State α) => st.Inv usageRecords i) hinit
      fun i rec st hrec hst => hst.step horder hrec
  exact ⟨_, rfl, Pooled.valid hall⟩

end Multidimensional

namespace EqualityWithHash

variable {α : Type} [DecidableEq α] {usageRecords : List (TensorUsageRecord α)}
  {objectSizes : List α} {size : α} {pool : List (α × List Nat)} {i : Nat} {st : State α}
  {rec : TensorUsageRecord α}

def freeObjects (pool : List (α × List Nat)) : List Nat :=
  pool.flatMap Prod.snd

/-- The objects in the pool have the size they are found under. -/
def KeyedBySize (objectSizes : List α) (pool : List (α × List Nat)) : Prop :=
  ∀ entry ∈ pool, ∀ object ∈ entry.2, objectSizes[object]? = some entry.1

theorem push_spec {object : Nat} (h : KeyedBySize objectSizes pool)
    (hsize : objectSizes[object]? = some size) :
    KeyedBySize objectSizes (push size object pool) ∧
      (freeObjects (push size object pool)).Perm (object :: freeObjects pool) := by
  induction pool with
  | nil =>
    refine ⟨fun entry hentry other hother => ?_, .refl _⟩
    cases mem_singleton.1 hentry
    cases mem_singleton.1 hother
    exact hsize
  | cons entry rest ih =>
    have hrest : KeyedBySize objectSizes rest := fun e he => h e (mem_cons_of_mem _ he)
    have hentry := h entry mem_cons_self
    unfold push freeObjects
    split
    · rename_i heq
      refine ⟨fun e he other hother => ?_, ?_⟩
      · rcases mem_cons.1 he with rfl | he
        · rcases mem_append.1 hother with hother | hother
          · exact hentry other hother
          · cases mem_singleton.1 hother
            rw [hsize, heq]
        · exact hrest e he other hother
      · rw [flatMap_cons, flatMap_cons]
        exact (perm_append_singleton _ _).append_right _
    · obtain ⟨hkeyed, hperm⟩ := ih hrest
      refine ⟨fun e he => ?_, ?_⟩
      · rcases mem_cons.1 he with rfl | he
        · exact hentry
        · exact hkeyed e he
      · rw [flatMap_cons, flatMap_cons]
        exact (hperm.append_left _).trans perm_middle

theorem pop_spec {popped : Nat × List (α × List Nat)} (h : KeyedBySize objectSizes pool)
    (hpop : pop size pool = some popped) :
    KeyedBySize objectSizes popped.2 ∧ objectSizes[popped.1]? = some size ∧
      (freeObjects pool).Perm (popped.1 :: freeObjects popped.2) := by
  induction pool generalizing popped with
  | nil => cases hpop
  | cons entry rest ih =>
    have hrest : KeyedBySize objectSizes rest := fun e he => h e (mem_cons_of_mem _ he)
    have hentry := h entry mem_cons_self
    unfold pop at hpop
    split at hpop
    · rename_i heq
      obtain ⟨object, hlast, rfl⟩ := Option.map_eq_some_iff.1 hpop
      have hsplit := dropLast_append_getLast? object hlast
      refine ⟨fun e he other hother => ?_, ?_, ?_⟩
      · rcases mem_cons.1 he with rfl | he
        · exact hentry other (dropLast_subset _ hother)
        · exact hrest e he other hother
      · rw [hentry object (mem_of_getLast? hlast), heq]
      · unfold freeObjects
        have hlist : entry.2 ++ rest.flatMap Prod.snd =
            entry.2.dropLast ++ object :: rest.flatMap Prod.snd := by
          rw [← singleton_append, ← append_assoc, hsplit]
        rw [flatMap_cons, flatMap_cons, hlist]
        exact perm_middle
    · obtain ⟨popped', hpop', rfl⟩ := Option.map_eq_some_iff.1 hpop
      obtain ⟨hkeyed, hsize, hperm⟩ := ih hrest hpop'
      refine ⟨fun e he => ?_, hsize, ?_⟩
      · rcases mem_cons.1 he with rfl | he
        · exact hentry
        · exact hkeyed e he
      · unfold freeObjects at hperm ⊢
        rw [flatMap_cons, flatMap_cons]
        exact (hperm.append_left _).trans perm_middle

def State.Inv (usageRecords : List (TensorUsageRecord α)) (i : Nat) (st : State α) : Prop :=
  Pooled Eq usageRecords i st.assignment st.objectsInUse (freeObjects st.pool) ∧
    KeyedBySize st.assignment.objectSizes st.pool

theorem State.Inv.release (h : st.Inv usageRecords i) (horder : InTaskOrder usageRecords)
    (hrec : usageRecords[i]? = some rec) : (st.release rec.firstTask).Inv usageRecords i := by
  have hinsert : ∀ object pool, KeyedBySize st.assignment.objectSizes pool →
      object ∉ freeObjects pool → object < st.assignment.objectSizes.length →
      KeyedBySize st.assignment.objectSizes (match st.assignment.objectSizes[object]? with
        | none => pool
        | some size => push size object pool) ∧
      (freeObjects (match st.assignment.objectSizes[object]? with
        | none => pool
        | some size => push size object pool)).Perm (object :: freeObjects pool) := by
    intro object pool hkeyed _ hlt
    have hsize := getElem?_eq_getElem hlt
    rw [hsize]
    exact push_spec hkeyed hsize
  obtain ⟨hpooled, hkeyed, -⟩ := Pooled.releaseObjects horder hrec hinsert h.1 h.2
  exact ⟨hpooled, hkeyed⟩

theorem State.Inv.assign (h : st.Inv usageRecords i) (horder : InTaskOrder usageRecords)
    (hrec : usageRecords[i]? = some rec) : (st.assign ⟨rec, i⟩).Inv usageRecords (i + 1) := by
  obtain ⟨hpooled, hkeyed⟩ := h
  unfold State.assign
  cases hpop : pop rec.tensorSize st.pool with
  | none =>
    refine ⟨hpooled.create hrec rfl, fun entry hentry object hobject => ?_⟩
    have hsize := hkeyed entry hentry object hobject
    have hlt := (List.getElem?_eq_some_iff.1 hsize).1
    rw [← hsize]
    exact getElem?_append_left hlt
  | some popped =>
    obtain ⟨hkeyed', hsize, hperm⟩ := pop_spec hkeyed hpop
    exact ⟨hpooled.place horder hrec hperm hsize rfl, hkeyed'⟩

theorem valid (horder : InTaskOrder usageRecords) :
    ∃ a, equalityAssignmentWithHash usageRecords = .ok a ∧ Valid Eq usageRecords a := by
  have hinit : (State.initial usageRecords.length).Inv usageRecords 0 := ⟨pooled_empty, nofun⟩
  have hall : State.Inv usageRecords usageRecords.length
      ((withIndex usageRecords).foldl State.step (.initial usageRecords.length)) :=
    withIndex_loop (P := fun i (st : State α) => st.Inv usageRecords i) hinit
      fun i rec st hrec hst => (hst.release horder hrec).assign horder hrec
  exact ⟨_, rfl, hall.1.valid⟩

end EqualityWithHash

namespace Equality

variable {α : Type} [DecidableEq α] {usageRecords : List (TensorUsageRecord α)}

/-- The tensors of an object end with its deallocation task. -/
structure State.Inv (usageRecords : List (TensorUsageRecord α)) (i : Nat) (st : State α) :
    Prop where
  sound : Sound Eq usageRecords st.assignment
  assigned : ∀ j, j < i → j < usageRecords.length → ∃ object, st.assignment.Holds object j
  length : st.deallocTask.length = st.assignment.objectSizes.length
  ends : ∀ (object j : Nat) (rec : TensorUsageRecord α), st.assignment.Holds object j →
    usageRecords[j]? = some rec → rec.lastTask ≤ st.deallocTask.getD object 0

theorem State.Inv.step {i : Nat} {st : State α} {rec : TensorUsageRecord α}
    (h : st.Inv usageRecords i) (horder : InTaskOrder usageRecords)
    (hrec : usageRecords[i]? = some rec) : (st.step ⟨rec, i⟩).Inv usageRecords (i + 1) := by
  have hi := (List.getElem?_eq_some_iff.1 hrec).1
  have hassigned : ∀ (object : Nat) (sizes : List α) (j : Nat), j < i + 1 →
      j < usageRecords.length → ∃ other, (⟨st.assignment.objectIds.set i (some object), sizes⟩ :
        ObjectsAssignment α).Holds other j := by
    intro object sizes j hj hlt
    unfold Holds
    rcases Nat.lt_succ_iff_lt_or_eq.1 hj with hj | rfl
    · obtain ⟨other, hother⟩ := h.assigned j hj hlt
      refine ⟨other, ?_⟩
      rwa [getElem?_set_ne (by omega)]
    · rw [← h.sound.length] at hi
      exact ⟨object, getElem?_set_self hi⟩
  unfold State.step
  cases hbest : bestObject st rec with
  | none =>
    refine ⟨h.sound.create hrec rfl, hassigned _ _, ?_, fun object j rec' hj hrec' => ?_⟩
    · simp [ObjectsAssignment.create, h.length]
    · rcases holds_set hj with ⟨rfl, rfl⟩ | ⟨-, hj⟩
      · rw [hrec] at hrec'
        cases hrec'
        rw [getD_eq_getElem?_getD, ← h.length, getElem?_concat_length]
        exact le_refl _
      · have hlt := h.sound.object_lt hj
        rw [← h.length] at hlt
        rw [getD_eq_getElem?_getD, getElem?_append_left hlt, ← getD_eq_getElem?_getD]
        exact h.ends object j rec' hj hrec'
  | some best =>
    have hmem := mem_of_find?_eq_some hbest
    have hfits := find?_some hbest
    rw [mem_range] at hmem
    simp only [Bool.and_eq_true, decide_eq_true_eq] at hfits
    obtain ⟨htask, hsize⟩ := hfits
    refine ⟨h.sound.place hrec hsize rfl ?_, hassigned _ _, ?_, fun object j rec' hj hrec' => ?_⟩
    · intro j rec' hj hrec' hmeets
      have hend := h.ends best j rec' hj hrec'
      have hfirst := hmeets.1
      omega
    · rw [length_set]
      exact h.length
    · rw [getD_eq_getElem?_getD, getElem?_set]
      have hbestlt : best < st.deallocTask.length := by rwa [h.length]
      rcases holds_set hj with ⟨rfl, rfl⟩ | ⟨-, hj⟩
      · rw [hrec] at hrec'
        cases hrec'
        simp [hbestlt]
      · have hend := h.ends object j rec' hj hrec'
        by_cases heq : best = object
        · subst heq
          have hle := horder.2 rec (mem_of_getElem? hrec)
          rw [if_pos rfl, if_pos hbestlt, Option.getD_some]
          dsimp only
          omega
        · rw [if_neg heq, ← getD_eq_getElem?_getD]
          exact hend

theorem valid (horder : InTaskOrder usageRecords) :
    ∃ a, equalityAssignment usageRecords = .ok a ∧ Valid Eq usageRecords a := by
  have hinit : (State.initial usageRecords.length).Inv usageRecords 0 :=
    ⟨sound_empty, fun j hj => absurd hj (Nat.not_lt_zero j), rfl,
      fun object j rec hj => absurd hj (not_holds_empty _ _ _)⟩
  have hall : State.Inv usageRecords usageRecords.length
      ((withIndex usageRecords).foldl State.step (.initial usageRecords.length)) :=
    withIndex_loop (P := fun i (st : State α) => st.Inv usageRecords i) hinit
      fun i rec st hrec hst => hst.step horder hrec
  exact ⟨_, rfl, { hall.sound with assigned := fun i hi => hall.assigned i hi hi }⟩

end Equality

end LiteRt.Gpu
