import LiteRt.Lib.SortedVector
import LiteRt.Gpu.SharedObjects
import Mathlib.Data.Prod.Lex

/-!
# Objects in use and free objects

The algorithms that take the tensors in the order of their first tasks keep a queue of the
objects in use, ordered by their last tasks, and a pool of those that are free again. They
differ in how the pool is kept and which of its objects they take.
-/

namespace LiteRt.Gpu

open LiteRt.Lib List

/-- The top of the queue is the object whose last task comes first. -/
structure QueueRecord where
  lastTask : Nat
  objectId : Nat
  deriving DecidableEq, Repr

instance : LinearOrder QueueRecord :=
  LinearOrder.lift' (fun record => toLex (record.lastTask, record.objectId)) fun a b h => by
    cases a
    cases b
    simpa using h

/-- Adds to the pool all objects that are no longer in use at the time of the first task. -/
def releaseObjects {P : Type} (insert : Nat → P → P) (firstTask : Nat) :
    List QueueRecord → P → List QueueRecord × P
  | [], pool => ([], pool)
  | top :: rest, pool =>
    if top.lastTask < firstTask then
      releaseObjects insert firstTask rest (insert top.objectId pool)
    else (top :: rest, pool)

/-- The tensors are in the order of their first tasks. -/
def InTaskOrder {α : Type} (usageRecords : List (TensorUsageRecord α)) : Prop :=
  usageRecords.Pairwise (fun r s => r.firstTask ≤ s.firstTask) ∧
    ∀ rec ∈ usageRecords, rec.firstTask ≤ rec.lastTask

namespace ObjectsAssignment

variable {α : Type} {covers : α → α → Prop} {usageRecords : List (TensorUsageRecord α)}

/-- The tensors before `i` have objects, and each object is in use or free. The tensors of an
object in use end with its last task, those of a free one before any further tensor starts. -/
structure Pooled (covers : α → α → Prop) (usageRecords : List (TensorUsageRecord α)) (i : Nat)
    (a : ObjectsAssignment α) (inUse : List QueueRecord) (free : List Nat) : Prop where
  sound : Sound covers usageRecords a
  assigned : ∀ j : Nat, (∃ object, a.Holds object j) ↔ j < i ∧ j < usageRecords.length
  nodup : (inUse.map QueueRecord.objectId ++ free).Nodup
  lt : ∀ object ∈ inUse.map QueueRecord.objectId ++ free, object < a.objectSizes.length
  ends : ∀ q ∈ inUse, ∀ (j : Nat) (rec : TensorUsageRecord α), a.Holds q.objectId j →
    usageRecords[j]? = some rec → rec.lastTask ≤ q.lastTask
  ended : ∀ object ∈ free, ∀ (j k : Nat) (rec next : TensorUsageRecord α), a.Holds object j →
    usageRecords[j]? = some rec → i ≤ k → usageRecords[k]? = some next →
    rec.lastTask < next.firstTask

theorem pooled_empty : Pooled covers usageRecords 0 (empty usageRecords.length) [] [] where
  sound := sound_empty
  assigned j := by
    refine iff_of_false ?_ (by omega)
    rintro ⟨object, h⟩
    exact not_holds_empty _ _ _ h
  nodup := .nil
  lt := by simp
  ends := by simp
  ended := by simp

namespace Pooled

variable {i : Nat} {a : ObjectsAssignment α} {inUse : List QueueRecord} {free : List Nat}
  {rec : TensorUsageRecord α} {object : Nat} {rest : List Nat} {sizes : List α} {size : α}

theorem congr {inUse' : List QueueRecord} {free' : List Nat}
    (h : Pooled covers usageRecords i a inUse free) (hin : inUse'.Perm inUse)
    (hfree : free'.Perm free) : Pooled covers usageRecords i a inUse' free' where
  sound := h.sound
  assigned := h.assigned
  nodup := ((hin.map _).append hfree).nodup_iff.2 h.nodup
  lt object hobject := h.lt object (((hin.map _).append hfree).mem_iff.1 hobject)
  ends q hq := h.ends q (hin.mem_iff.1 hq)
  ended object hobject := h.ended object (hfree.mem_iff.1 hobject)

/-- An object whose last task is over is free. -/
theorem release {top : QueueRecord} (h : Pooled covers usageRecords i a (top :: inUse) free)
    (horder : InTaskOrder usageRecords) (hrec : usageRecords[i]? = some rec)
    (htop : top.lastTask < rec.firstTask) :
    Pooled covers usageRecords i a inUse (top.objectId :: free) where
  sound := h.sound
  assigned := h.assigned
  nodup := perm_middle.nodup_iff.2 h.nodup
  lt object hobject := h.lt object (perm_middle.mem_iff.1 hobject)
  ends q hq := h.ends q (mem_cons_of_mem _ hq)
  ended := by
    intro object hobject j k r next hj hr hk hnext
    rcases mem_cons.1 hobject with rfl | hobject
    · have hend := h.ends top mem_cons_self j r hj hr
      have hlater : rec.firstTask ≤ next.firstTask := by
        rcases hk.eq_or_lt with rfl | hk
        · rw [hrec] at hnext
          cases hnext
          exact le_refl _
        · obtain ⟨hi, rfl⟩ := List.getElem?_eq_some_iff.1 hrec
          obtain ⟨hk', rfl⟩ := List.getElem?_eq_some_iff.1 hnext
          exact pairwise_iff_getElem.1 horder.1 i k hi hk' hk
      omega
    · exact h.ended object hobject j k r next hj hr hk hnext

/-- All objects that are no longer in use become free, whatever the pool looks like. -/
theorem releaseObjects {P : Type} {insert : Nat → P → P} {ids : P → List Nat} {I : P → Prop}
    (horder : InTaskOrder usageRecords) (hrec : usageRecords[i]? = some rec)
    (hinsert : ∀ object pool, I pool → object ∉ ids pool → object < a.objectSizes.length →
      I (insert object pool) ∧ (ids (insert object pool)).Perm (object :: ids pool))
    {pool : P} (h : Pooled covers usageRecords i a inUse (ids pool)) (hI : I pool) :
    Pooled covers usageRecords i a (Gpu.releaseObjects insert rec.firstTask inUse pool).1
        (ids (Gpu.releaseObjects insert rec.firstTask inUse pool).2) ∧
      I (Gpu.releaseObjects insert rec.firstTask inUse pool).2 ∧
      ∃ before, inUse = before ++ (Gpu.releaseObjects insert rec.firstTask inUse pool).1 := by
  induction inUse generalizing pool with
  | nil => exact ⟨h, hI, [], rfl⟩
  | cons top rest ih =>
    unfold Gpu.releaseObjects
    split
    · rename_i htop
      have hfresh : top.objectId ∉ ids pool := fun hin =>
        (nodup_cons.1 h.nodup).1 (mem_append_right _ hin)
      have hlt := h.lt top.objectId mem_cons_self
      obtain ⟨hI', hperm⟩ := hinsert top.objectId pool hI hfresh hlt
      obtain ⟨hpooled, hI'', before, heq⟩ :=
        ih ((h.release horder hrec htop).congr (.refl _) hperm) hI'
      refine ⟨hpooled, hI'', top :: before, ?_⟩
      rw [cons_append, ← heq]
    · exact ⟨h, hI, [], rfl⟩

theorem assigned_set (h : Pooled covers usageRecords i a inUse free) (hi : i < usageRecords.length)
    (j : Nat) :
    (∃ other, (⟨a.objectIds.set i (some object), sizes⟩ : ObjectsAssignment α).Holds other j) ↔
      j < i + 1 ∧ j < usageRecords.length := by
  have hset : ∀ other, (⟨a.objectIds.set i (some object), sizes⟩ : ObjectsAssignment α).Holds
      other j ↔ j = i ∧ other = object ∨ j ≠ i ∧ a.Holds other j := by
    intro other
    refine ⟨holds_set, ?_⟩
    unfold Holds
    rintro (⟨rfl, rfl⟩ | ⟨hne, hj⟩)
    · rw [← h.sound.length] at hi
      exact getElem?_set_self hi
    · rwa [getElem?_set_ne (Ne.symm hne)]
  simp only [hset]
  by_cases hj : j = i
  · subst hj
    simp [hi]
  · have hj' : (∃ object, a.Holds object j) ↔ j < i + 1 ∧ j < usageRecords.length := by
      rw [h.assigned]
      omega
    simpa [hj] using hj'

/-- The object of the next tensor is in use to its last task; nothing else changes. -/
theorem assign (h : Pooled covers usageRecords i a inUse free) (hrec : usageRecords[i]? = some rec)
    (hsound : Sound covers usageRecords ⟨a.objectIds.set i (some object), sizes⟩)
    (hnodup : (inUse.map QueueRecord.objectId ++ object :: rest).Nodup)
    (hlt : ∀ other ∈ inUse.map QueueRecord.objectId ++ object :: rest, other < sizes.length)
    (hsub : ∀ other ∈ rest, other ∈ free)
    (hended : ∀ (j : Nat) (rec' : TensorUsageRecord α), a.Holds object j →
      usageRecords[j]? = some rec' → rec'.lastTask ≤ rec.lastTask) :
    Pooled covers usageRecords (i + 1) ⟨a.objectIds.set i (some object), sizes⟩
      (insertSorted ⟨rec.lastTask, object⟩ inUse) rest := by
  have hfresh : (⟨rec.lastTask, object⟩ : QueueRecord) ∉ inUse := by
    intro hin
    have hmem : object ∈ inUse.map QueueRecord.objectId := mem_map.2 ⟨_, hin, rfl⟩
    exact (nodup_append.1 hnodup).2.2 object hmem object mem_cons_self rfl
  have hperm := insertSorted_perm hfresh
  have hids : ((insertSorted ⟨rec.lastTask, object⟩ inUse).map QueueRecord.objectId ++ rest).Perm
      (inUse.map QueueRecord.objectId ++ object :: rest) :=
    ((hperm.map _).append_right _).trans perm_middle.symm
  refine ⟨hsound, h.assigned_set (List.getElem?_eq_some_iff.1 hrec).1,
    hids.nodup_iff.2 hnodup, fun other hother => hlt other (hids.mem_iff.1 hother), ?_, ?_⟩
  · intro q hq j rec' hj hrec'
    rcases mem_cons.1 (hperm.mem_iff.1 hq) with rfl | hq
    · rcases holds_set hj with ⟨rfl, -⟩ | ⟨-, hj⟩
      · rw [hrec] at hrec'
        cases hrec'
        exact le_refl _
      · exact hended j rec' hj hrec'
    · rcases holds_set hj with ⟨-, heq⟩ | ⟨-, hj⟩
      · have hmem : object ∈ inUse.map QueueRecord.objectId :=
          mem_map.2 ⟨q, hq, heq⟩
        exact absurd rfl ((nodup_append.1 hnodup).2.2 object hmem object mem_cons_self)
      · exact h.ends q hq j rec' hj hrec'
  · intro other hother j k rec' next hj hrec' hk hnext
    rcases holds_set hj with ⟨-, heq⟩ | ⟨-, hj⟩
    · rw [heq] at hother
      have hcons := (nodup_append.1 hnodup).2.1
      exact absurd hother (nodup_cons.1 hcons).1
    · exact h.ended other (hsub other hother) j k rec' next hj hrec' (by omega) hnext

theorem ended_self (h : Pooled covers usageRecords i a inUse free)
    (hrec : usageRecords[i]? = some rec) (hin : object ∈ free) {j : Nat}
    {rec' : TensorUsageRecord α} (hj : a.Holds object j) (hrec' : usageRecords[j]? = some rec') :
    rec'.lastTask < rec.firstTask :=
  h.ended object hin j i rec' rec hj hrec' (le_refl i) hrec

/-- The next tensor takes a free object. -/
theorem take (h : Pooled covers usageRecords i a inUse free) (horder : InTaskOrder usageRecords)
    (hrec : usageRecords[i]? = some rec) (hfree : free.Perm (object :: rest))
    (hsizes : sizes.length = a.objectSizes.length)
    (hsound : (∀ {j : Nat} {rec' : TensorUsageRecord α}, a.Holds object j →
      usageRecords[j]? = some rec' → ¬ rec.Meets rec') →
        Sound covers usageRecords ⟨a.objectIds.set i (some object), sizes⟩) :
    Pooled covers usageRecords (i + 1) ⟨a.objectIds.set i (some object), sizes⟩
      (insertSorted ⟨rec.lastTask, object⟩ inUse) rest := by
  have hin : object ∈ free := hfree.mem_iff.2 mem_cons_self
  have hids := hfree.append_left (inUse.map QueueRecord.objectId)
  refine h.assign hrec (hsound ?_) (hids.nodup_iff.1 h.nodup) ?_ ?_ ?_
  · intro j rec' hj hrec' hmeets
    exact absurd hmeets.1 (not_le.2 (h.ended_self hrec hin hj hrec'))
  · intro other hother
    rw [hsizes]
    exact h.lt other (hids.mem_iff.2 hother)
  · exact fun other hother => hfree.mem_iff.2 (mem_cons_of_mem _ hother)
  · intro j rec' hj hrec'
    have hended := h.ended_self hrec hin hj hrec'
    exact hended.le.trans (horder.2 rec (mem_of_getElem? hrec))

theorem place (h : Pooled covers usageRecords i a inUse free) (horder : InTaskOrder usageRecords)
    (hrec : usageRecords[i]? = some rec) (hfree : free.Perm (object :: rest))
    (hsize : a.objectSizes[object]? = some size) (hcovers : covers size rec.tensorSize) :
    Pooled covers usageRecords (i + 1) (a.place i object)
      (insertSorted ⟨rec.lastTask, object⟩ inUse) rest :=
  h.take horder hrec hfree rfl fun hapart => h.sound.place hrec hsize hcovers hapart

theorem reuse (h : Pooled covers usageRecords i a inUse free) (horder : InTaskOrder usageRecords)
    (hrec : usageRecords[i]? = some rec) (hfree : free.Perm (object :: rest))
    (hcovers : covers size rec.tensorSize)
    (hgrow : ∀ {x y : α}, a.objectSizes[object]? = some x → covers x y → covers size y) :
    Pooled covers usageRecords (i + 1) (a.reuse i object size)
      (insertSorted ⟨rec.lastTask, object⟩ inUse) rest := by
  have hlt := h.lt object (mem_append_right _ (hfree.mem_iff.2 mem_cons_self))
  exact h.take horder hrec hfree length_set fun hapart =>
    h.sound.reuse hrec hlt hcovers hgrow hapart

/-- The next tensor gets a new object. -/
theorem create (h : Pooled covers usageRecords i a inUse free) (hrec : usageRecords[i]? = some rec)
    (hcovers : covers rec.tensorSize rec.tensorSize) :
    Pooled covers usageRecords (i + 1) (a.create i rec.tensorSize)
      (insertSorted ⟨rec.lastTask, a.objectSizes.length⟩ inUse) free := by
  refine h.assign hrec (h.sound.create hrec hcovers) ?_ ?_ (fun _ hother => hother) ?_
  · refine perm_middle.nodup_iff.2 (nodup_cons.2 ⟨fun hin => ?_, h.nodup⟩)
    exact Nat.lt_irrefl _ (h.lt _ hin)
  · intro other hother
    rw [length_append, length_singleton]
    rcases mem_cons.1 (perm_middle.mem_iff.1 hother) with rfl | hother
    · exact Nat.lt_succ_self _
    · exact (h.lt other hother).trans (Nat.lt_succ_self _)
  · intro j rec' hj
    exact absurd (h.sound.object_lt hj) (Nat.lt_irrefl _)

theorem valid (h : Pooled covers usageRecords usageRecords.length a inUse free) :
    Valid covers usageRecords a :=
  { h.sound with assigned := fun i hi => (h.assigned i).2 ⟨hi, hi⟩ }

end Pooled

end ObjectsAssignment

end LiteRt.Gpu
