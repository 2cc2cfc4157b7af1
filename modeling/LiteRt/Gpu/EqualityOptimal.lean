import Mathlib.Combinatorics.Enumerative.DoubleCounting
import Mathlib.Order.Bounds.Basic
import LiteRt.Gpu.InOrder

/-!
# The number of objects of a size

Both equality assignments create an object only if all objects of the size are in use, so that
there are as many of them as there are tensors of the size in use at one task.
-/

namespace LiteRt.Gpu

open LiteRt.Lib ObjectsAssignment List

section
variable {α : Type} {usageRecords : List (TensorUsageRecord α)} {a : ObjectsAssignment α}
  {i object : Nat} {sizes : List α}

/-- The object holds one of the tensors before `i`, to whose last task it is in use. -/
def Busy (usageRecords : List (TensorUsageRecord α)) (i : Nat) (a : ObjectsAssignment α)
    (object lastTask : Nat) : Prop :=
  ∃ j r, j < i ∧ a.Holds object j ∧ usageRecords[j]? = some r ∧ r.lastTask = lastTask

/-- The tensors keep their objects when the next one gets its own. -/
theorem Busy.set {lastTask other : Nat} (h : Busy usageRecords i a object lastTask) :
    Busy usageRecords (i + 1) ⟨a.objectIds.set i (some other), sizes⟩ object lastTask := by
  obtain ⟨j, r, hj, hholds, hr, hlast⟩ := h
  refine ⟨j, r, Nat.lt_succ_of_lt hj, ?_, hr, hlast⟩
  unfold Holds
  rwa [getElem?_set_ne (by omega)]

theorem busy_set_self {rec : TensorUsageRecord α} (h : a.objectIds.length = usageRecords.length)
    (hrec : usageRecords[i]? = some rec) :
    Busy usageRecords (i + 1) ⟨a.objectIds.set i (some object), sizes⟩ object rec.lastTask := by
  refine ⟨i, rec, Nat.lt_succ_self i, ?_, hrec, rfl⟩
  have hi := (List.getElem?_eq_some_iff.1 hrec).1
  rw [← h] at hi
  exact getElem?_set_self hi

end

section
variable {α : Type} [DecidableEq α] {sizes : List α} {rec : TensorUsageRecord α}

/-- The number of tensors of a size that are in use at a task. -/
def liveAt (usageRecords : List (TensorUsageRecord α)) (size : α) (task : Nat) : Nat :=
  usageRecords.countP fun r =>
    decide (r.tensorSize = size ∧ r.firstTask ≤ task ∧ task ≤ r.lastTask)

theorem countP_eq_card {β : Type} (p : β → Bool) (l : List β) :
    l.countP p = ((Finset.range l.length).filter fun i => (l[i]?).any p).card := by
  induction l using List.reverseRecOn with
  | nil => rfl
  | append_singleton l b ih =>
    have hold : (Finset.range l.length).filter (fun i => ((l ++ [b])[i]?).any p) =
        (Finset.range l.length).filter fun i => (l[i]?).any p := by
      refine Finset.filter_congr fun i hi => ?_
      rw [getElem?_append_left (Finset.mem_range.1 hi)]
    have hlast : ((l ++ [b])[l.length]?).any p = p b := by
      rw [getElem?_concat_length]
      rfl
    rw [countP_append, length_append, length_singleton, Finset.range_add_one,
      Finset.filter_insert, hlast, hold, ih]
    cases hp : p b with
    | false => rw [if_neg (by decide), countP_singleton, hp, if_neg (by decide), Nat.add_zero]
    | true =>
      rw [if_pos rfl, countP_singleton, hp, if_pos rfl, Finset.card_insert_of_notMem]
      rw [Finset.mem_filter, Finset.mem_range]
      exact fun h => Nat.lt_irrefl _ h.1

variable {usageRecords : List (TensorUsageRecord α)} {a : ObjectsAssignment α} {size : α}
  {task i object : Nat}

/-- The tensors of a size that are in use at a task. -/
def liveTensors (usageRecords : List (TensorUsageRecord α)) (size : α) (task : Nat) :
    Finset Nat :=
  (Finset.range usageRecords.length).filter fun i => (usageRecords[i]?).any fun r =>
    decide (r.tensorSize = size ∧ r.firstTask ≤ task ∧ task ≤ r.lastTask)

theorem mem_liveTensors : i ∈ liveTensors usageRecords size task ↔
    ∃ r, usageRecords[i]? = some r ∧ r.tensorSize = size ∧ r.firstTask ≤ task ∧
      task ≤ r.lastTask := by
  unfold liveTensors
  rw [Finset.mem_filter, Finset.mem_range]
  cases hi : usageRecords[i]? with
  | none =>
    refine iff_of_false (fun h => by simp at h) ?_
    rintro ⟨r, hr, -⟩
    cases hr
  | some r =>
    have hlt := (List.getElem?_eq_some_iff.1 hi).1
    rw [Option.any_some, decide_eq_true_eq]
    constructor
    · exact fun h => ⟨r, rfl, h.2⟩
    · rintro ⟨r', hr, h⟩
      cases hr
      exact ⟨hlt, h⟩

def objectsOf (sizes : List α) (size : α) : Finset Nat :=
  (Finset.range sizes.length).filter fun object => (sizes[object]?).any (· == size)

theorem mem_objectsOf :
    object ∈ objectsOf sizes size ↔ sizes[object]? = some size := by
  unfold objectsOf
  rw [Finset.mem_filter, Finset.mem_range]
  cases hobject : sizes[object]? with
  | none => exact iff_of_false (fun h => by simp at h) fun h => by cases h
  | some x =>
    rw [Option.any_some, beq_iff_eq, Option.some_inj]
    exact and_iff_right (List.getElem?_eq_some_iff.1 hobject).1

theorem count_eq_card (sizes : List α) (size : α) :
    sizes.count size = (objectsOf sizes size).card :=
  countP_eq_card _ _

/-- Tensors in use at one task are in different objects. -/
theorem liveAt_le_count (h : Valid Eq usageRecords a) :
    liveAt usageRecords size task ≤ a.objectSizes.count size := by
  rw [count_eq_card, liveAt, countP_eq_card]
  refine Finset.card_le_card_of_forall_subsingleton (fun i object => a.Holds object i) ?_ ?_
  · intro i hi
    obtain ⟨r, hr, hsize, -⟩ := mem_liveTensors.1 hi
    obtain ⟨object, hobject⟩ := h.assigned i (List.getElem?_eq_some_iff.1 hr).1
    obtain ⟨x, hx, hcovers⟩ := h.covered hobject hr
    refine ⟨object, mem_objectsOf.2 ?_, hobject⟩
    rw [hx, hcovers, hsize]
  · rintro object - i ⟨hi, hiobject⟩ j ⟨hj, hjobject⟩
    obtain ⟨r, hr, -, hfirst, hlast⟩ := mem_liveTensors.1 hi
    obtain ⟨r', hr', -, hfirst', hlast'⟩ := mem_liveTensors.1 hj
    by_contra hne
    exact h.apart hne hiobject hjobject hr hr'
      ⟨Nat.le_trans hfirst hlast', Nat.le_trans hfirst' hlast⟩

/-- If all objects of the size are in use when a tensor starts, then there are more tensors of the
size in use than objects. -/
theorem count_lt_liveAt (horder : InTaskOrder usageRecords) (h : Sound Eq usageRecords a)
    (hrec : usageRecords[i]? = some rec)
    (hbusy : ∀ object, a.objectSizes[object]? = some rec.tensorSize →
      ∃ lastTask, rec.firstTask ≤ lastTask ∧ Busy usageRecords i a object lastTask) :
    a.objectSizes.count rec.tensorSize < liveAt usageRecords rec.tensorSize rec.firstTask := by
  have hi : i ∈ liveTensors usageRecords rec.tensorSize rec.firstTask :=
    mem_liveTensors.2 ⟨rec, hrec, rfl, le_refl _, horder.2 rec (mem_of_getElem? hrec)⟩
  have hle : (objectsOf a.objectSizes rec.tensorSize).card ≤
      ((liveTensors usageRecords rec.tensorSize rec.firstTask).erase i).card := by
    refine Finset.card_le_card_of_forall_subsingleton a.Holds ?_ ?_
    · intro object hobject
      have hsize := mem_objectsOf.1 hobject
      obtain ⟨lastTask, hlast, j, r, hj, hholds, hr, rfl⟩ := hbusy object hsize
      refine ⟨j, Finset.mem_erase.2 ⟨Nat.ne_of_lt hj, mem_liveTensors.2 ⟨r, hr, ?_, ?_, hlast⟩⟩,
        hholds⟩
      · obtain ⟨x, hx, hcovers⟩ := h.covered hholds hr
        rw [hsize] at hx
        cases hx
        exact hcovers.symm
      · obtain ⟨hlt, rfl⟩ := List.getElem?_eq_some_iff.1 hrec
        obtain ⟨hj', rfl⟩ := List.getElem?_eq_some_iff.1 hr
        exact pairwise_iff_getElem.1 horder.1 j i hj' hlt hj
    · rintro j - object ⟨-, hobject⟩ other ⟨-, hother⟩
      exact Option.some.inj (Option.some.inj (hobject.symm.trans hother))
  rw [Finset.card_erase_of_mem hi, ← count_eq_card] at hle
  rw [liveAt, countP_eq_card]
  have hpos := Finset.card_pos.2 ⟨i, hi⟩
  unfold liveTensors at hle hpos
  omega

/-- There are no more objects of a size than tensors in use at some task. -/
def Reached (usageRecords : List (TensorUsageRecord α)) (sizes : List α) : Prop :=
  ∀ size, ∃ task, sizes.count size ≤ liveAt usageRecords size task

theorem Reached.create (h : Reached usageRecords sizes)
    (hlt : sizes.count rec.tensorSize < liveAt usageRecords rec.tensorSize rec.firstTask) :
    Reached usageRecords (sizes ++ [rec.tensorSize]) := by
  intro size
  rw [count_append, count_singleton]
  by_cases hsize : rec.tensorSize = size
  · subst hsize
    refine ⟨rec.firstTask, ?_⟩
    rw [beq_self_eq_true, if_pos rfl]
    exact hlt
  · rw [if_neg (by simpa using hsize)]
    exact h size

end

/-! ## Without a hash -/

namespace Equality

variable {α : Type} [DecidableEq α] {usageRecords : List (TensorUsageRecord α)} {st : State α}
  {rec : TensorUsageRecord α}

/-- An object is in use to its deallocation task. -/
structure State.Optimal (usageRecords : List (TensorUsageRecord α)) (i : Nat) (st : State α) :
    Prop extends State.Inv usageRecords i st where
  busy : ∀ object, object < st.assignment.objectSizes.length →
    Busy usageRecords i st.assignment object (st.deallocTask.getD object 0)
  reached : Reached usageRecords st.assignment.objectSizes

theorem bestObject_none (h : bestObject st rec = none) {object : Nat}
    (hsize : st.assignment.objectSizes[object]? = some rec.tensorSize) :
    rec.firstTask ≤ st.deallocTask.getD object 0 := by
  have hlt := (List.getElem?_eq_some_iff.1 hsize).1
  have hno := find?_eq_none.1 h object (mem_range.2 hlt)
  rw [Bool.and_eq_true, decide_eq_true_eq, decide_eq_true_eq] at hno
  exact Nat.not_lt.1 fun htask => hno ⟨htask, hsize⟩

theorem State.Optimal.step {i : Nat} (h : st.Optimal usageRecords i)
    (horder : InTaskOrder usageRecords) (hrec : usageRecords[i]? = some rec) :
    (st.step ⟨rec, i⟩).Optimal usageRecords (i + 1) := by
  have hinv := h.toInv.step horder hrec
  refine { hinv with busy := ?_, reached := ?_ }
  · unfold State.step
    cases hbest : bestObject st rec with
    | none =>
      intro object hobject
      change object < (st.assignment.objectSizes ++ [rec.tensorSize]).length at hobject
      show Busy usageRecords (i + 1) ⟨st.assignment.objectIds.set i _, _⟩ object
        ((st.deallocTask ++ [rec.lastTask]).getD object 0)
      rw [length_append, length_singleton] at hobject
      rw [getD_eq_getElem?_getD]
      rcases Nat.lt_succ_iff_lt_or_eq.1 hobject with hlt | rfl
      · rw [getElem?_append_left (by rwa [h.length]), ← getD_eq_getElem?_getD]
        exact (h.busy object hlt).set
      · rw [← h.length, getElem?_concat_length, h.length]
        exact busy_set_self h.sound.length hrec
    | some best =>
      intro object hobject
      show Busy usageRecords (i + 1) ⟨st.assignment.objectIds.set i _, _⟩ object
        ((st.deallocTask.set best rec.lastTask).getD object 0)
      change object < st.assignment.objectSizes.length at hobject
      rw [getD_eq_getElem?_getD]
      by_cases heq : best = object
      · subst heq
        rw [getElem?_set_self (by rwa [h.length])]
        exact busy_set_self h.sound.length hrec
      · rw [getElem?_set_ne heq, ← getD_eq_getElem?_getD]
        exact (h.busy object hobject).set
  · unfold State.step
    cases hbest : bestObject st rec with
    | none =>
      refine h.reached.create (count_lt_liveAt horder h.sound hrec fun object hsize => ?_)
      exact ⟨_, bestObject_none hbest hsize, h.busy object (List.getElem?_eq_some_iff.1 hsize).1⟩
    | some best => exact h.reached

theorem reached (horder : InTaskOrder usageRecords) :
    ∃ a, equalityAssignment usageRecords = .ok a ∧ Valid Eq usageRecords a ∧
      Reached usageRecords a.objectSizes := by
  have hinit : (State.initial usageRecords.length).Optimal usageRecords 0 :=
    { sound := sound_empty
      assigned := fun j hj => absurd hj (Nat.not_lt_zero j)
      length := rfl
      ends := fun object j rec hj => absurd hj (not_holds_empty _ _ _)
      busy := fun object hobject => absurd hobject (Nat.not_lt_zero object)
      reached := fun _ => ⟨0, Nat.zero_le _⟩ }
  have hall : State.Optimal usageRecords usageRecords.length
      ((withIndex usageRecords).foldl State.step (.initial usageRecords.length)) :=
    withIndex_loop (P := fun i (st : State α) => st.Optimal usageRecords i) hinit
      fun i rec st hrec hst => hst.step horder hrec
  exact ⟨_, rfl, { hall.sound with assigned := fun i hi => hall.assigned i hi hi }, hall.reached⟩

end Equality

/-! ## With a hash -/

section
variable {P : Type} {insert : Nat → P → P} {ids : P → List Nat} {I : P → Prop} {firstTask : Nat}

/-- The objects that are released move to the pool, and those that stay are still in use. -/
theorem releaseObjects_spec {inUse : List QueueRecord} {pool : P}
    (hinsert : ∀ object ∈ inUse.map QueueRecord.objectId, ∀ pool, I pool →
      I (insert object pool) ∧ (ids (insert object pool)).Perm (object :: ids pool))
    (hI : I pool) (hsorted : inUse.Pairwise (· < ·)) :
    I (releaseObjects insert firstTask inUse pool).2 ∧
      ((releaseObjects insert firstTask inUse pool).1.map QueueRecord.objectId ++
        ids (releaseObjects insert firstTask inUse pool).2).Perm
          (inUse.map QueueRecord.objectId ++ ids pool) ∧
      (releaseObjects insert firstTask inUse pool).1 <:+ inUse ∧
      ∀ q ∈ (releaseObjects insert firstTask inUse pool).1, firstTask ≤ q.lastTask := by
  induction inUse generalizing pool with
  | nil => exact ⟨hI, List.Perm.refl _, suffix_refl _, fun q hq => absurd hq not_mem_nil⟩
  | cons top rest ih =>
    obtain ⟨hfirst, hrest⟩ := pairwise_cons.1 hsorted
    unfold releaseObjects
    split
    · obtain ⟨hI', hperm⟩ := hinsert top.objectId mem_cons_self pool hI
      obtain ⟨hI'', hperm', hsuffix, hlast⟩ := ih
        (fun object hobject => hinsert object (mem_cons_of_mem _ hobject)) hI' hrest
      refine ⟨hI'', ?_, hsuffix.trans (suffix_cons _ _), hlast⟩
      exact hperm'.trans ((hperm.append_left _).trans perm_middle)
    · next htop =>
      refine ⟨hI, List.Perm.refl _, suffix_refl _, fun q hq => ?_⟩
      rcases mem_cons.1 hq with rfl | hq
      · exact Nat.not_lt.1 htop
      · have hle := Prod.Lex.toLex_le_toLex.1 (le_of_lt (hfirst q hq))
        dsimp only at hle
        omega

end

namespace EqualityWithHash

variable {α : Type} [DecidableEq α] {usageRecords : List (TensorUsageRecord α)}
  {pool : List (α × List Nat)} {objectSizes : List α} {size : α} {object : Nat} {i : Nat}
  {st : State α} {rec : TensorUsageRecord α}

theorem mem_keys_push {key : α} (h : key ∈ (push size object pool).map Prod.fst) :
    key = size ∨ key ∈ pool.map Prod.fst := by
  induction pool with
  | nil => exact .inl (mem_singleton.1 h)
  | cons entry rest ih =>
    unfold push at h
    split at h
    · exact .inr h
    · rcases mem_cons.1 h with rfl | h
      · exact .inr mem_cons_self
      · exact (ih h).imp_right (mem_cons_of_mem _)

theorem nodup_push (h : (pool.map Prod.fst).Nodup) :
    ((push size object pool).map Prod.fst).Nodup := by
  induction pool with
  | nil => exact nodup_singleton _
  | cons entry rest ih =>
    obtain ⟨hfresh, hrest⟩ := nodup_cons.1 h
    unfold push
    split
    · exact h
    · next hne =>
      refine nodup_cons.2 ⟨fun hmem => ?_, ih hrest⟩
      exact (mem_keys_push hmem).elim hne hfresh

theorem keys_pop {popped : Nat × List (α × List Nat)} (h : pop size pool = some popped) :
    popped.2.map Prod.fst = pool.map Prod.fst := by
  induction pool generalizing popped with
  | nil => cases h
  | cons entry rest ih =>
    unfold pop at h
    split at h
    · obtain ⟨object, -, rfl⟩ := Option.map_eq_some_iff.1 h
      rfl
    · obtain ⟨popped', hpop, rfl⟩ := Option.map_eq_some_iff.1 h
      rw [map_cons, ih hpop, map_cons]

/-- No free object has the size. -/
theorem pop_none (hkeyed : KeyedBySize objectSizes pool) (hnodup : (pool.map Prod.fst).Nodup)
    (h : pop size pool = none) :
    ∀ object ∈ freeObjects pool, objectSizes[object]? ≠ some size := by
  induction pool with
  | nil => exact fun object hobject => absurd hobject not_mem_nil
  | cons entry rest ih =>
    have hrest : KeyedBySize objectSizes rest := fun e he => hkeyed e (mem_cons_of_mem _ he)
    obtain ⟨hfresh, hnodup'⟩ := nodup_cons.1 hnodup
    intro object hobject hsize
    have hmem : object ∈ entry.2 ++ freeObjects rest := hobject
    unfold pop at h
    split at h
    · next heq =>
      have hempty : entry.2 = [] := by
        rw [Option.map_eq_none_iff] at h
        exact getLast?_eq_none_iff.1 h
      rw [hempty, nil_append] at hmem
      -- the key of a later entry is another size
      obtain ⟨e, he, hobject'⟩ := mem_flatMap.1 hmem
      have hkey := hrest e he object hobject'
      rw [hsize] at hkey
      refine hfresh (mem_map.2 ⟨e, he, ?_⟩)
      rw [heq]
      exact (Option.some.inj hkey).symm
    · next hne =>
      rcases mem_append.1 hmem with hmem | hmem
      · have hkey := hkeyed entry mem_cons_self object hmem
        rw [hsize] at hkey
        exact hne (Option.some.inj hkey).symm
      · exact ih hrest hnodup' (Option.map_eq_none_iff.1 h) object hmem hsize

/-- Every object is in use, to its last task, or free. -/
structure State.Optimal (usageRecords : List (TensorUsageRecord α)) (i : Nat) (st : State α) :
    Prop where
  inv : st.Inv usageRecords i
  keys : (st.pool.map Prod.fst).Nodup
  sorted : st.objectsInUse.Pairwise (· < ·)
  busy : ∀ q ∈ st.objectsInUse, Busy usageRecords i st.assignment q.objectId q.lastTask
  all : ∀ object, object < st.assignment.objectSizes.length →
    object ∈ st.objectsInUse.map QueueRecord.objectId ++ freeObjects st.pool
  reached : Reached usageRecords st.assignment.objectSizes

/-- An object that is released goes to the pool under its size. -/
theorem release_eq (st : State α) (firstTask : Nat) : ∃ insert,
    (∀ object size, st.assignment.objectSizes[object]? = some size →
      ∀ pool, insert object pool = push size object pool) ∧
    st.release firstTask =
      { st with
        objectsInUse := (releaseObjects insert firstTask st.objectsInUse st.pool).1
        pool := (releaseObjects insert firstTask st.objectsInUse st.pool).2 } := by
  refine ⟨_, fun object size hsize pool => ?_, rfl⟩
  rw [hsize]

theorem State.Optimal.release (h : st.Optimal usageRecords i) (horder : InTaskOrder usageRecords)
    (hrec : usageRecords[i]? = some rec) :
    (st.release rec.firstTask).Optimal usageRecords i ∧
      ∀ q ∈ (st.release rec.firstTask).objectsInUse, rec.firstTask ≤ q.lastTask := by
  have hinv := h.inv.release horder hrec
  obtain ⟨insert, hpush, heq⟩ := release_eq st rec.firstTask
  have hinsert : ∀ object ∈ st.objectsInUse.map QueueRecord.objectId, ∀ pool,
      KeyedBySize st.assignment.objectSizes pool ∧ (pool.map Prod.fst).Nodup →
      (KeyedBySize st.assignment.objectSizes (insert object pool) ∧
        ((insert object pool).map Prod.fst).Nodup) ∧
      (freeObjects (insert object pool)).Perm (object :: freeObjects pool) := by
    rintro object hobject pool ⟨hkeyed, hnodup⟩
    have hsize := getElem?_eq_getElem (h.inv.1.lt object (mem_append_left _ hobject))
    rw [hpush object _ hsize]
    obtain ⟨hkeyed', hperm⟩ := push_spec hkeyed hsize
    exact ⟨⟨hkeyed', nodup_push hnodup⟩, hperm⟩
  obtain ⟨⟨-, hkeys⟩, hperm, hsuffix, hlast⟩ :=
    releaseObjects_spec hinsert ⟨h.inv.2, h.keys⟩ h.sorted
  rw [heq] at hinv ⊢
  exact ⟨{ inv := hinv
           keys := hkeys
           sorted := h.sorted.sublist hsuffix.sublist
           busy := fun q hq => h.busy q (hsuffix.subset hq)
           all := fun object hobject => hperm.mem_iff.2 (h.all object hobject)
           reached := h.reached }, hlast⟩

theorem State.Optimal.assign (h : st.Optimal usageRecords i) (horder : InTaskOrder usageRecords)
    (hrec : usageRecords[i]? = some rec)
    (hlast : ∀ q ∈ st.objectsInUse, rec.firstTask ≤ q.lastTask) :
    (st.assign ⟨rec, i⟩).Optimal usageRecords (i + 1) := by
  have hinv := h.inv.assign horder hrec
  unfold State.assign at hinv ⊢
  have hbusy : ∀ (object : Nat) (sizes : List α),
      ∀ q ∈ insertSorted ⟨rec.lastTask, object⟩ st.objectsInUse,
        Busy usageRecords (i + 1) ⟨st.assignment.objectIds.set i (some object), sizes⟩
          q.objectId q.lastTask := by
    intro object sizes q hq
    rcases mem_insertSorted.1 hq with rfl | hq
    · exact busy_set_self h.inv.1.sound.length hrec
    · exact (h.busy q hq).set
  have hinsert : ∀ (object : Nat), ∀ other ∈ object :: st.objectsInUse.map QueueRecord.objectId,
      other ∈ (insertSorted ⟨rec.lastTask, object⟩ st.objectsInUse).map QueueRecord.objectId := by
    intro object other hother
    rcases mem_cons.1 hother with rfl | hother
    · exact mem_map.2 ⟨_, mem_insertSorted.2 (.inl rfl), rfl⟩
    · obtain ⟨q, hq, rfl⟩ := mem_map.1 hother
      exact mem_map.2 ⟨q, mem_insertSorted.2 (.inr hq), rfl⟩
  cases hpop : pop rec.tensorSize st.pool with
  | none =>
    rw [hpop] at hinv
    refine ⟨hinv, h.keys, insertSorted_pairwise h.sorted, hbusy _ _, ?_, ?_⟩
    · intro object hobject
      change object < (st.assignment.objectSizes ++ [rec.tensorSize]).length at hobject
      rw [length_append, length_singleton] at hobject
      rcases Nat.lt_succ_iff_lt_or_eq.1 hobject with hlt | rfl
      · rcases mem_append.1 (h.all object hlt) with hin | hfree
        · exact mem_append_left _ (hinsert _ object (mem_cons_of_mem _ hin))
        · exact mem_append_right _ hfree
      · exact mem_append_left _ (hinsert _ _ mem_cons_self)
    · refine h.reached.create (count_lt_liveAt horder h.inv.1.sound hrec fun object hsize => ?_)
      -- an object of the size is not free, as none is in the pool
      have hnone := pop_none h.inv.2 h.keys hpop
      rcases mem_append.1 (h.all object (List.getElem?_eq_some_iff.1 hsize).1) with hin | hfree
      · obtain ⟨q, hq, rfl⟩ := mem_map.1 hin
        exact ⟨q.lastTask, hlast q hq, h.busy q hq⟩
      · exact absurd hsize (hnone object hfree)
  | some popped =>
    rw [hpop] at hinv
    obtain ⟨-, -, hperm⟩ := pop_spec h.inv.2 hpop
    refine ⟨hinv, (keys_pop hpop).symm ▸ h.keys, insertSorted_pairwise h.sorted, hbusy _ _, ?_,
      h.reached⟩
    intro object hobject
    rcases mem_append.1 (h.all object hobject) with hin | hfree
    · exact mem_append_left _ (hinsert _ object (mem_cons_of_mem _ hin))
    · rcases mem_cons.1 (hperm.mem_iff.1 hfree) with rfl | hfree
      · exact mem_append_left _ (hinsert _ _ mem_cons_self)
      · exact mem_append_right _ hfree

theorem reached (horder : InTaskOrder usageRecords) :
    ∃ a, equalityAssignmentWithHash usageRecords = .ok a ∧ Valid Eq usageRecords a ∧
      Reached usageRecords a.objectSizes := by
  have hinit : (State.initial usageRecords.length).Optimal usageRecords 0 :=
    { inv := ⟨pooled_empty, fun entry hentry => absurd hentry not_mem_nil⟩
      keys := nodup_nil
      sorted := List.Pairwise.nil
      busy := fun q hq => absurd hq not_mem_nil
      all := fun object hobject => absurd hobject (Nat.not_lt_zero object)
      reached := fun _ => ⟨0, Nat.zero_le _⟩ }
  have hall : State.Optimal usageRecords usageRecords.length
      ((withIndex usageRecords).foldl State.step (.initial usageRecords.length)) := by
    refine withIndex_loop (P := fun i (st : State α) => st.Optimal usageRecords i) hinit ?_
    intro i rec st hrec hst
    obtain ⟨hreleased, hlast⟩ := hst.release horder hrec
    exact hreleased.assign horder hrec hlast
  exact ⟨_, rfl, hall.inv.1.valid, hall.reached⟩

end EqualityWithHash

section
variable {α : Type} [DecidableEq α] {usageRecords : List (TensorUsageRecord α)}

theorem isGreatest_liveAt {a : ObjectsAssignment α} (h : Valid Eq usageRecords a)
    (hreached : Reached usageRecords a.objectSizes) (size : α) :
    IsGreatest (Set.range (liveAt usageRecords size)) (a.objectSizes.count size) := by
  obtain ⟨task, htask⟩ := hreached size
  refine ⟨⟨task, Nat.le_antisymm (liveAt_le_count h) htask⟩, ?_⟩
  rintro n ⟨task', rfl⟩
  exact liveAt_le_count h

/-- Both assignments make as many objects of a size as there are tensors of the size in use at the
task where most of them are. -/
theorem equality_optimal (horder : InTaskOrder usageRecords) :
    ∃ a b, equalityAssignment usageRecords = .ok a ∧
      equalityAssignmentWithHash usageRecords = .ok b ∧
      ∀ size, a.objectSizes.count size = b.objectSizes.count size ∧
        IsGreatest (Set.range (liveAt usageRecords size)) (a.objectSizes.count size) := by
  obtain ⟨a, ha, hvalid, hreached⟩ := Equality.reached horder
  obtain ⟨b, hb, hvalid', hreached'⟩ := EqualityWithHash.reached horder
  refine ⟨a, b, ha, hb, fun size => ?_⟩
  have hgreatest := isGreatest_liveAt hvalid hreached size
  exact ⟨hgreatest.unique (isGreatest_liveAt hvalid' hreached' size), hgreatest⟩

theorem equality_optimal_two :
    ∃ a b : ObjectsAssignment Nat,
      equalityAssignment [⟨4, 0, 1⟩, ⟨4, 1, 2⟩, ⟨4, 2, 3⟩] = .ok a ∧
      equalityAssignmentWithHash [⟨4, 0, 1⟩, ⟨4, 1, 2⟩, ⟨4, 2, 3⟩] = .ok b ∧
      ∀ size, a.objectSizes.count size = b.objectSizes.count size ∧
        IsGreatest (Set.range (liveAt [⟨4, 0, 1⟩, ⟨4, 1, 2⟩, ⟨4, 2, 3⟩] size))
          (a.objectSizes.count size) :=
  @equality_optimal Nat _ [⟨4, 0, 1⟩, ⟨4, 1, 2⟩, ⟨4, 2, 3⟩] ⟨by decide, by decide⟩

end

end LiteRt.Gpu
