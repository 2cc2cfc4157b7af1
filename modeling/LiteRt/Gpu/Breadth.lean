import LiteRt.Gpu.TaskProfiles

/-!
# Assignment by breadth

The tasks are taken by the sum of the sizes of their tensors, the tensors of a task by their
size. A tensor goes to the object of the best size among those whose schedules leave its usage
interval free.
-/

namespace LiteRt.Gpu

open LiteRt.Lib ObjectsAssignment List

/-- The records of the tensors of an object, by first task. -/
abbrev SharedObjectSchedule := List (TensorUsageRecord Nat)

structure TaskBreadthWithId where
  breadth : Nat
  taskId : Nat
  deriving DecidableEq, Repr

namespace Breadth

def taskBreadth (taskProfiles : List TaskProfile) : List TaskBreadthWithId :=
  taskProfiles.zipIdx.map fun p =>
    ⟨p.1.foldl (fun breadth info => (breadth + info.usageRecord.tensorSize) % 2 ^ 64) 0, p.2⟩

/-- `std::stable_sort` from the back, to a non-increasing order of breadth. -/
def sortByBreadth (tasks : List TaskBreadthWithId) : List TaskBreadthWithId :=
  (tasks.reverse.mergeSort fun a b => decide (a.breadth ≤ b.breadth)).reverse

def worseSize (tensorSize bestSize curSize : Nat) : Bool :=
  if bestSize < tensorSize then decide (curSize ≤ bestSize)
  else decide (curSize < tensorSize) || decide (bestSize ≤ curSize)

/-- Neither the first tensor that does not start before the record nor the one in front of it
has an intersecting usage interval. -/
def fits (schedule : SharedObjectSchedule) (rec : TensorUsageRecord Nat) : Bool :=
  let before := schedule.takeWhile fun r => decide (r.firstTask < rec.firstTask)
  let after := schedule.dropWhile fun r => decide (r.firstTask < rec.firstTask)
  (after.head?.all fun r => decide (rec.lastTask < r.firstTask)) &&
    before.getLast?.all fun r => decide (r.lastTask < rec.firstTask)

/-- `std::set::insert` by first task. -/
def insertRecord (schedule : SharedObjectSchedule) (rec : TensorUsageRecord Nat) :
    SharedObjectSchedule :=
  let before := schedule.takeWhile fun r => decide (r.firstTask < rec.firstTask)
  let after := schedule.dropWhile fun r => decide (r.firstTask < rec.firstTask)
  if after.head?.any fun r => decide (r.firstTask = rec.firstTask) then schedule
  else before ++ rec :: after

structure State where
  assignment : ObjectsAssignment Nat
  objSchedules : List SharedObjectSchedule
  deriving DecidableEq

/-- The object for a tensor; `none` is the number of objects. -/
def State.bestObject (st : State) (rec : TensorUsageRecord Nat) : Option Nat :=
  (List.range st.objSchedules.length).foldl (fun best objId =>
    if best.any fun bestObject => worseSize rec.tensorSize
        (st.assignment.objectSizes.getD bestObject 0) (st.assignment.objectSizes.getD objId 0)
    then best
    else if fits (st.objSchedules.getD objId []) rec then some objId
    else best) none

/-- The body of the loop over the tensors of a task. -/
def State.step (st : State) (info : TensorUsageWithIndex Nat) : State :=
  if (st.assignment.objectIds.getD info.idx none).isSome then st
  else
    match st.bestObject info.usageRecord with
    | none =>
      { assignment := st.assignment.create info.idx info.usageRecord.tensorSize
        objSchedules := st.objSchedules ++ [[info.usageRecord]] }
    | some best =>
      { assignment := st.assignment.reuse info.idx best
          (max (st.assignment.objectSizes.getD best 0) info.usageRecord.tensorSize)
        objSchedules := st.objSchedules.modify best fun schedule =>
          insertRecord schedule info.usageRecord }

end Breadth

/-- An error of the outer level is undefined behaviour. -/
def greedyByBreadthAssignment (usageRecords : List (TensorUsageRecord Nat)) :
    Except Fault (Except Status (ObjectsAssignment Nat)) := do
  let taskProfiles ← calculateTaskProfiles usageRecords
  let tasks := Breadth.sortByBreadth (Breadth.taskBreadth taskProfiles)
  let st := tasks.foldl (fun st task =>
    (taskProfiles.getD task.taskId []).foldl Breadth.State.step st)
    ⟨.empty usageRecords.length, []⟩
  return if st.assignment.objectIds.any Option.isNone then
    .error (.internalError "Error while calculating the assignment.")
  else .ok st.assignment

/-! ## Schedules -/

namespace Breadth

variable {schedule : SharedObjectSchedule} {rec : TensorUsageRecord Nat} {r : TensorUsageRecord Nat}
  {st : State}

/-- The usage intervals of a schedule come one after the other. -/
def Ordered (schedule : SharedObjectSchedule) : Prop :=
  schedule.Pairwise (fun r s => r.lastTask < s.firstTask) ∧ ∀ r ∈ schedule, r.firstTask ≤ r.lastTask

/-- The two neighbours of a record that fits tell of the whole schedule. -/
theorem fits_spec (h : Ordered schedule) (hfits : fits schedule rec = true) :
    (∀ r ∈ schedule.takeWhile fun r => decide (r.firstTask < rec.firstTask),
      r.lastTask < rec.firstTask) ∧
    ∀ r ∈ schedule.dropWhile fun r => decide (r.firstTask < rec.firstTask),
      rec.lastTask < r.firstTask := by
  have hsplit := takeWhile_append_dropWhile
    (p := fun r : TensorUsageRecord Nat => decide (r.firstTask < rec.firstTask)) (l := schedule)
  unfold fits at hfits
  generalize (schedule.takeWhile fun r => decide (r.firstTask < rec.firstTask)) = before
    at hsplit hfits ⊢
  generalize (schedule.dropWhile fun r => decide (r.firstTask < rec.firstTask)) = after
    at hsplit hfits ⊢
  subst hsplit
  rw [Bool.and_eq_true] at hfits
  obtain ⟨hafter, hbefore⟩ := hfits
  obtain ⟨hsorted, hle⟩ := h
  obtain ⟨hsortedBefore, hsortedAfter, -⟩ := pairwise_append.1 hsorted
  constructor
  · intro r hr
    rcases before.eq_nil_or_concat with rfl | ⟨init, last, rfl⟩
    · cases hr
    · rw [concat_eq_append] at hr hbefore hsortedBefore hle
      rw [getLast?_concat] at hbefore
      simp only [Option.all_some, decide_eq_true_eq] at hbefore
      rcases mem_append.1 hr with hr | hr
      · have hlt := (pairwise_append.1 hsortedBefore).2.2 r hr last (mem_singleton_self last)
        have hlast := hle last (by simp)
        omega
      · rwa [mem_singleton.1 hr]
  · intro r hr
    cases after with
    | nil => cases hr
    | cons head after =>
      simp only [head?_cons, Option.all_some, decide_eq_true_eq] at hafter
      rcases mem_cons.1 hr with rfl | hr
      · exact hafter
      · have hlt := (pairwise_cons.1 hsortedAfter).1 r hr
        have hhead := hle head (by simp)
        omega

theorem not_meets_of_fits (h : Ordered schedule) (hfits : fits schedule rec = true) :
    ∀ r ∈ schedule, ¬ rec.Meets r := by
  obtain ⟨hbefore, hafter⟩ := fits_spec h hfits
  intro r hr hmeets
  rw [← takeWhile_append_dropWhile
    (p := fun r : TensorUsageRecord Nat => decide (r.firstTask < rec.firstTask))
    (l := schedule)] at hr
  rcases mem_append.1 hr with hr | hr
  · exact absurd hmeets.1 (not_le.2 (hbefore r hr))
  · exact absurd hmeets.2 (not_le.2 (hafter r hr))

theorem insertRecord_spec (h : Ordered schedule) (horder : rec.firstTask ≤ rec.lastTask)
    (hfits : fits schedule rec = true) :
    Ordered (insertRecord schedule rec) ∧
      rec ∈ insertRecord schedule rec ∧ ∀ r ∈ schedule, r ∈ insertRecord schedule rec := by
  obtain ⟨hbefore, hafter⟩ := fits_spec h hfits
  have hsplit := takeWhile_append_dropWhile
    (p := fun r : TensorUsageRecord Nat => decide (r.firstTask < rec.firstTask)) (l := schedule)
  unfold insertRecord
  generalize (schedule.takeWhile fun r => decide (r.firstTask < rec.firstTask)) = before
    at hsplit hbefore ⊢
  generalize (schedule.dropWhile fun r => decide (r.firstTask < rec.firstTask)) = after
    at hsplit hafter ⊢
  subst hsplit
  have hnew : ¬ after.head?.any (fun r => decide (r.firstTask = rec.firstTask)) = true := by
    cases after with
    | nil => exact Bool.false_ne_true
    | cons head after =>
      have hlt := hafter head mem_cons_self
      simp only [head?_cons, Option.any_some, decide_eq_true_eq]
      omega
  dsimp only
  rw [if_neg hnew]
  obtain ⟨hsorted, hle⟩ := h
  obtain ⟨hsortedBefore, hsortedAfter, hacross⟩ := pairwise_append.1 hsorted
  refine ⟨⟨pairwise_append.2 ⟨hsortedBefore, pairwise_cons.2 ⟨hafter, hsortedAfter⟩,
    fun r hr s hs => ?_⟩, fun r hr => ?_⟩, by simp, fun r hr => ?_⟩
  · rcases mem_cons.1 hs with rfl | hs
    · exact hbefore r hr
    · exact hacross r hr s hs
  · rcases mem_append.1 hr with hr | hr
    · exact hle r (mem_append_left _ hr)
    · rcases mem_cons.1 hr with rfl | hr
      · exact horder
      · exact hle r (mem_append_right _ hr)
  · rcases mem_append.1 hr with hr | hr
    · exact mem_append_left _ hr
    · exact mem_append_right _ (mem_cons_of_mem _ hr)

/-! ## Validity -/

variable {usageRecords : List (TensorUsageRecord Nat)}

/-- The schedule of each object holds the records of its tensors; the tensors in `done` have
objects. -/
structure State.Inv (usageRecords : List (TensorUsageRecord Nat)) (done : List Nat)
    (st : State) : Prop where
  sound : Sound (fun size tensorSize => tensorSize ≤ size) usageRecords st.assignment
  length : st.objSchedules.length = st.assignment.objectSizes.length
  ordered : ∀ schedule ∈ st.objSchedules, Ordered schedule
  scheduled : ∀ (object j : Nat) (rec : TensorUsageRecord Nat), st.assignment.Holds object j →
    usageRecords[j]? = some rec → rec ∈ st.objSchedules.getD object []
  assigned : ∀ j ∈ done, ∃ object, st.assignment.Holds object j

theorem State.bestObject_spec {best : Nat} (h : st.bestObject rec = some best) :
    best < st.objSchedules.length ∧ fits (st.objSchedules.getD best []) rec = true := by
  unfold State.bestObject at h
  revert h
  refine foldl_invariant (P := fun _ (b : Option Nat) => b = some best →
    best < st.objSchedules.length ∧ fits (st.objSchedules.getD best []) rec = true) nofun ?_
  intro done objId rest b heq hb
  split
  · exact hb
  · split
    · rename_i hfits
      intro hbest
      cases hbest
      refine ⟨mem_range.1 ?_, hfits⟩
      rw [heq]
      exact mem_append_right _ mem_cons_self
    · exact hb

theorem State.Inv.step {done : List Nat} {info : TensorUsageWithIndex Nat}
    (h : st.Inv usageRecords done) (hrec : usageRecords[info.idx]? = some info.usageRecord)
    (horder : info.usageRecord.firstTask ≤ info.usageRecord.lastTask) :
    (st.step info).Inv usageRecords (done ++ [info.idx]) := by
  have hlt : info.idx < st.assignment.objectIds.length := by
    rw [h.sound.length]
    exact (List.getElem?_eq_some_iff.1 hrec).1
  have hassigned : ∀ (object : Nat) (sizes : List Nat), ∀ j ∈ done ++ [info.idx],
      ∃ other, (⟨st.assignment.objectIds.set info.idx (some object), sizes⟩ :
        ObjectsAssignment Nat).Holds other j := by
    intro object sizes j hj
    unfold Holds
    by_cases hidx : info.idx = j
    · subst hidx
      exact ⟨object, getElem?_set_self hlt⟩
    · have hdone : j ∈ done := by
        rcases mem_append.1 hj with hj | hj
        · exact hj
        · exact absurd (mem_singleton.1 hj).symm hidx
      obtain ⟨other, hother⟩ := h.assigned j hdone
      exact ⟨other, by rwa [getElem?_set_ne hidx]⟩
  unfold State.step
  by_cases hsome : (st.assignment.objectIds.getD info.idx none).isSome
  · rw [if_pos hsome]
    refine { h with assigned := fun j hj => ?_ }
    rcases mem_append.1 hj with hj | hj
    · exact h.assigned j hj
    · rw [mem_singleton.1 hj]
      obtain ⟨object, hobject⟩ := Option.isSome_iff_exists.1 hsome
      rw [getD_eq_getElem?_getD, getElem?_eq_getElem hlt, Option.getD_some] at hobject
      refine ⟨object, ?_⟩
      unfold Holds
      rw [getElem?_eq_getElem hlt, hobject]
  · rw [if_neg hsome]
    cases hbest : st.bestObject info.usageRecord with
    | none =>
      refine ⟨h.sound.create hrec (le_refl _), ?_, fun schedule hin => ?_,
        fun object j rec hj hrec' => ?_, hassigned _ _⟩
      · simp [ObjectsAssignment.create, h.length]
      · rcases mem_append.1 hin with hin | hin
        · exact h.ordered schedule hin
        · rw [mem_singleton.1 hin]
          refine ⟨pairwise_singleton _ _, fun r hr => ?_⟩
          rwa [mem_singleton.1 hr]
      · rw [getD_eq_getElem?_getD]
        rcases holds_set hj with ⟨rfl, rfl⟩ | ⟨-, hj⟩
        · rw [hrec] at hrec'
          cases hrec'
          rw [← h.length, getElem?_concat_length]
          exact mem_singleton_self _
        · have hobject := h.sound.object_lt hj
          rw [← h.length] at hobject
          rw [getElem?_append_left hobject, ← getD_eq_getElem?_getD]
          exact h.scheduled object j rec hj hrec'
    | some best =>
      obtain ⟨hbestlt, hfits⟩ := State.bestObject_spec hbest
      have hget : st.objSchedules[best]? = some (st.objSchedules.getD best []) := by
        rw [getD_eq_getElem?_getD, getElem?_eq_getElem hbestlt, Option.getD_some]
      have hordered := h.ordered _ (mem_of_getElem? hget)
      obtain ⟨hinserted, hmem, hkept⟩ := insertRecord_spec hordered horder hfits
      have hbestlt' : best < st.assignment.objectSizes.length := by rwa [← h.length]
      refine ⟨h.sound.reuse hrec hbestlt' (le_max_right _ _) ?_ ?_, ?_, fun schedule hin => ?_,
        fun object j rec hj hrec' => ?_, hassigned _ _⟩
      · intro x y hx hle
        rw [getD_eq_getElem?_getD, hx, Option.getD_some]
        exact hle.trans (le_max_left _ _)
      · intro j rec' hj hrec'
        exact not_meets_of_fits hordered hfits rec' (h.scheduled best j rec' hj hrec')
      · rw [length_modify]
        simp [ObjectsAssignment.reuse, h.length]
      · obtain ⟨o, ho⟩ := mem_iff_getElem?.1 hin
        rw [getElem?_modify] at ho
        obtain ⟨before, hbefore, rfl⟩ := Option.map_eq_some_iff.1 ho
        split
        · rename_i heq
          subst heq
          rw [hget] at hbefore
          cases hbefore
          exact hinserted
        · exact h.ordered _ (mem_of_getElem? hbefore)
      · rw [getD_eq_getElem?_getD, getElem?_modify]
        rcases holds_set hj with ⟨rfl, rfl⟩ | ⟨-, hj⟩
        · rw [hrec] at hrec'
          cases hrec'
          rw [hget]
          simpa using hmem
        · have hin := h.scheduled object j rec hj hrec'
          by_cases heq : best = object
          · subst heq
            rw [hget]
            simpa using hkept rec hin
          · rw [getD_eq_getElem?_getD] at hin
            simpa [heq] using hin

theorem mem_sortByBreadth (tasks : List TaskBreadthWithId) (task : TaskBreadthWithId) :
    task ∈ sortByBreadth tasks ↔ task ∈ tasks := by
  unfold sortByBreadth
  rw [mem_reverse, mem_mergeSort, mem_reverse]

theorem mem_taskBreadth {taskProfiles : List TaskProfile} {taskId : Nat}
    (h : taskId < taskProfiles.length) :
    ∃ task ∈ taskBreadth taskProfiles, task.taskId = taskId := by
  unfold taskBreadth
  refine ⟨_, mem_map.2 ⟨(taskProfiles[taskId], taskId), ?_, rfl⟩, rfl⟩
  exact mem_zipIdx_iff_getElem?.2 (getElem?_eq_getElem h)

theorem valid (horder : ∀ r ∈ usageRecords, r.firstTask ≤ r.lastTask)
    (hlt : ∀ r ∈ usageRecords, r.lastTask + 1 < 2 ^ 64) :
    ∃ a, greedyByBreadthAssignment usageRecords = .ok (.ok a) ∧
      Valid (fun size tensorSize => tensorSize ≤ size) usageRecords a := by
  obtain ⟨taskProfiles, hok, hprofiles⟩ := (calculateTaskProfiles_iff horder).1 hlt
  unfold greedyByBreadthAssignment
  rw [hok, ok_bind]
  dsimp only
  rw [← foldl_flatMap]
  have hinit : State.Inv usageRecords [] ⟨.empty usageRecords.length, []⟩ :=
    ⟨sound_empty, rfl, nofun, fun object j rec hj => absurd hj (not_holds_empty _ _ _), nofun⟩
  generalize htasks : (sortByBreadth (taskBreadth taskProfiles)).flatMap
    (fun task => taskProfiles.getD task.taskId []) = infos
  have hinfo : ∀ info ∈ infos, usageRecords[info.idx]? = some info.usageRecord := by
    intro info hin
    rw [← htasks] at hin
    obtain ⟨task, -, hin⟩ := mem_flatMap.1 hin
    rw [getD_eq_getElem?_getD] at hin
    cases hprofile : taskProfiles[task.taskId]? with
    | none =>
      rw [hprofile] at hin
      cases hin
    | some profile =>
      rw [hprofile] at hin
      exact ((hprofiles.mem_iff task.taskId info).1 ⟨profile, hprofile, hin⟩).1
  have hall : State.Inv usageRecords (infos.map fun info => info.idx)
      (infos.foldl State.step ⟨.empty usageRecords.length, []⟩) := by
    refine foldl_invariant (P := fun (done : List (TensorUsageWithIndex Nat)) st =>
      State.Inv usageRecords (done.map fun info => info.idx) st) hinit ?_
    intro done info rest st heq hst
    have hrec := hinfo info (by rw [heq]; exact mem_append_right _ mem_cons_self)
    rw [map_append]
    exact hst.step hrec (horder _ (mem_of_getElem? hrec))
  have hassigned : ∀ i, i < usageRecords.length → ∃ object,
      (infos.foldl State.step ⟨.empty usageRecords.length, []⟩).assignment.Holds object i := by
    intro i hi
    refine hall.assigned i (mem_map.2 ⟨⟨usageRecords[i], i⟩, ?_, rfl⟩)
    obtain ⟨profile, hprofile, hin⟩ := (hprofiles.mem_iff usageRecords[i].firstTask
      ⟨usageRecords[i], i⟩).2 ⟨getElem?_eq_getElem hi, le_refl _, horder _ (getElem_mem hi)⟩
    obtain ⟨task, htask, hid⟩ := mem_taskBreadth (List.getElem?_eq_some_iff.1 hprofile).1
    rw [← htasks]
    refine mem_flatMap.2 ⟨task, (mem_sortByBreadth _ _).2 htask, ?_⟩
    rw [hid, getD_eq_getElem?_getD, hprofile]
    exact hin
  have hnone : ¬ (infos.foldl State.step
      ⟨.empty usageRecords.length, []⟩).assignment.objectIds.any Option.isNone = true := by
    rw [any_eq_true]
    rintro ⟨id, hin, hnone⟩
    obtain ⟨i, hi⟩ := mem_iff_getElem?.1 hin
    have hi' := (List.getElem?_eq_some_iff.1 hi).1
    rw [hall.sound.length] at hi'
    obtain ⟨object, hobject⟩ := hassigned i hi'
    unfold Holds at hobject
    rw [hi, Option.some_inj] at hobject
    rw [hobject] at hnone
    cases hnone
  rw [if_neg hnone]
  exact ⟨_, rfl, { hall.sound with assigned := hassigned }⟩

theorem fault (horder : ∀ r ∈ usageRecords, r.firstTask ≤ r.lastTask) (hr : r ∈ usageRecords)
    (hlast : ¬ r.lastTask + 1 < 2 ^ 64) :
    greedyByBreadthAssignment usageRecords = .error .outOfBounds := by
  unfold greedyByBreadthAssignment
  rw [(calculateTaskProfiles_iff horder).2 ⟨r, hr, hlast⟩]
  rfl

end Breadth

end LiteRt.Gpu
