import LiteRt.Gpu.InOrder

/-!
# Task profiles

A task profile lists the tensors that exist in memory during a task, largest first. There is a
profile for each task up to the last one in use, unless their number wraps around.
-/

namespace LiteRt.Gpu

open LiteRt.Lib List

abbrev TaskProfile := List (TensorUsageWithIndex Nat)

/-- Undefined behaviour. -/
inductive Fault where
  /-- A write past the end of a vector. -/
  | outOfBounds
  deriving DecidableEq, Repr

def numTasks (usageRecords : List (TensorUsageRecord Nat)) : Nat :=
  usageRecords.foldl (fun numTasks rec => max numTasks ((rec.lastTask + 1) % 2 ^ 64)) 0

def addToProfile (rec : TensorUsageWithIndex Nat) (taskProfiles : List TaskProfile)
    (taskId : Nat) : Except Fault (List TaskProfile) :=
  if taskId < taskProfiles.length then .ok (taskProfiles.modify taskId (· ++ [rec]))
  else .error .outOfBounds

/-- Adds a record to the profile of every task between its first and its last one. -/
def addToProfiles (taskProfiles : List TaskProfile) (rec : TensorUsageWithIndex Nat) :
    Except Fault (List TaskProfile) :=
  (List.range' rec.usageRecord.firstTask
    (rec.usageRecord.lastTask + 1 - rec.usageRecord.firstTask)).foldlM (addToProfile rec)
      taskProfiles

def calculateTaskProfiles (usageRecords : List (TensorUsageRecord Nat)) :
    Except Fault (List TaskProfile) := do
  let taskProfiles ← (withIndex usageRecords).foldlM addToProfiles
    (List.replicate (numTasks usageRecords) [])
  return taskProfiles.map sortBySize

def InProfile (taskProfiles : List TaskProfile) (taskId : Nat)
    (rec : TensorUsageWithIndex Nat) : Prop :=
  ∃ profile, taskProfiles[taskId]? = some profile ∧ rec ∈ profile

section
variable {usageRecords : List (TensorUsageRecord Nat)} {taskProfiles : List TaskProfile}
  {rec rec' : TensorUsageWithIndex Nat} {taskId : Nat}

theorem inProfile_modify {task : Nat} (htask : task < taskProfiles.length) :
    InProfile (taskProfiles.modify task (· ++ [rec])) taskId rec' ↔
      InProfile taskProfiles taskId rec' ∨ taskId = task ∧ rec' = rec := by
  unfold InProfile
  rw [getElem?_modify]
  by_cases heq : task = taskId
  · subst heq
    simp [getElem?_eq_getElem htask]
  · have hne : ¬ taskId = task := fun h => heq h.symm
    simp [heq, hne]

/-- A loop over tasks within bounds adds the record to their profiles. -/
theorem addToProfile_loop (rec : TensorUsageWithIndex Nat) (tasks : List Nat)
    (taskProfiles : List TaskProfile) :
    (∃ taskProfiles', tasks.foldlM (addToProfile rec) taskProfiles = .ok taskProfiles' ∧
        taskProfiles'.length = taskProfiles.length ∧ (∀ task ∈ tasks, task < taskProfiles.length) ∧
        ∀ (taskId : Nat) (rec' : TensorUsageWithIndex Nat), InProfile taskProfiles' taskId rec' ↔
          InProfile taskProfiles taskId rec' ∨ taskId ∈ tasks ∧ rec' = rec) ∨
      tasks.foldlM (addToProfile rec) taskProfiles = .error .outOfBounds ∧
        ∃ task ∈ tasks, ¬ task < taskProfiles.length := by
  induction tasks generalizing taskProfiles with
  | nil => exact .inl ⟨taskProfiles, rfl, rfl, by simp, by simp⟩
  | cons task tasks ih =>
    rw [foldlM_cons]
    by_cases htask : task < taskProfiles.length
    · have hok : addToProfile rec taskProfiles task =
          .ok (taskProfiles.modify task (· ++ [rec])) := if_pos htask
      rw [hok, ok_bind]
      have hlen : (taskProfiles.modify task (· ++ [rec])).length = taskProfiles.length :=
        length_modify _ _ _
      rcases ih (taskProfiles.modify task (· ++ [rec])) with
        ⟨profiles, hok', hlen', hlt, hmem⟩ | ⟨herror, other, hother, hnot⟩
      · refine .inl ⟨profiles, hok', hlen'.trans hlen, ?_, fun taskId rec' => ?_⟩
        · intro other hother
          rcases mem_cons.1 hother with rfl | hother
          · exact htask
          · rw [← hlen]
            exact hlt other hother
        · rw [hmem, inProfile_modify htask, mem_cons, or_and_right, or_assoc]
      · rw [hlen] at hnot
        exact .inr ⟨herror, other, mem_cons_of_mem _ hother, hnot⟩
    · have herror : addToProfile rec taskProfiles task = .error .outOfBounds := if_neg htask
      rw [herror]
      exact .inr ⟨rfl, task, mem_cons_self, htask⟩

/-- All writes for a record are in bounds just if the last one is. -/
theorem addToProfiles_spec (horder : rec.usageRecord.firstTask ≤ rec.usageRecord.lastTask)
    (taskProfiles : List TaskProfile) :
    (∃ taskProfiles', addToProfiles taskProfiles rec = .ok taskProfiles' ∧
        taskProfiles'.length = taskProfiles.length ∧
        rec.usageRecord.lastTask < taskProfiles.length ∧
        ∀ (taskId : Nat) (rec' : TensorUsageWithIndex Nat), InProfile taskProfiles' taskId rec' ↔
          InProfile taskProfiles taskId rec' ∨
            (rec.usageRecord.firstTask ≤ taskId ∧ taskId ≤ rec.usageRecord.lastTask) ∧ rec' = rec) ∨
      addToProfiles taskProfiles rec = .error .outOfBounds ∧
        ¬ rec.usageRecord.lastTask < taskProfiles.length := by
  have hrange : ∀ task, task ∈ List.range' rec.usageRecord.firstTask
      (rec.usageRecord.lastTask + 1 - rec.usageRecord.firstTask) ↔
      rec.usageRecord.firstTask ≤ task ∧ task ≤ rec.usageRecord.lastTask := by
    intro task
    rw [mem_range'_1]
    omega
  unfold addToProfiles
  rcases addToProfile_loop rec (List.range' rec.usageRecord.firstTask
    (rec.usageRecord.lastTask + 1 - rec.usageRecord.firstTask)) taskProfiles with
    ⟨profiles, hok, hlen, hlt, hmem⟩ | ⟨herror, task, htask, hnot⟩
  · refine .inl ⟨profiles, hok, hlen, ?_, fun taskId rec' => ?_⟩
    · exact hlt _ ((hrange _).2 ⟨horder, le_refl _⟩)
    · rw [hmem, hrange]
  · refine .inr ⟨herror, fun hlt => hnot ?_⟩
    exact lt_of_le_of_lt ((hrange task).1 htask).2 hlt

theorem lt_numTasks {r : TensorUsageRecord Nat} (h : r ∈ usageRecords)
    (hlt : r.lastTask + 1 < 2 ^ 64) : r.lastTask < numTasks usageRecords := by
  have hall : ∀ r ∈ usageRecords, (r.lastTask + 1) % 2 ^ 64 ≤ numTasks usageRecords := by
    unfold numTasks
    refine foldl_invariant (P := fun (done : List (TensorUsageRecord Nat)) (n : Nat) =>
      ∀ r ∈ done, (r.lastTask + 1) % 2 ^ 64 ≤ n) (by simp) ?_
    intro done rec rest n _ hn r hr
    rcases mem_append.1 hr with hr | hr
    · exact (hn r hr).trans (le_max_left _ _)
    · rw [mem_singleton.1 hr]
      exact le_max_right _ _
  have hle := hall r h
  rw [Nat.mod_eq_of_lt hlt] at hle
  exact hle

theorem numTasks_lt (usageRecords : List (TensorUsageRecord Nat)) :
    numTasks usageRecords < 2 ^ 64 := by
  unfold numTasks
  refine foldl_invariant (P := fun _ (n : Nat) => n < 2 ^ 64) (by omega) ?_
  intro done rec rest n _ hn
  exact max_lt hn (Nat.mod_lt _ (by omega))

/-- What the task profiles are: each lists the tensors in use during its task, largest
first. -/
structure Profiles (usageRecords : List (TensorUsageRecord Nat))
    (taskProfiles : List TaskProfile) : Prop where
  mem_iff : ∀ (taskId : Nat) (rec : TensorUsageWithIndex Nat),
    InProfile taskProfiles taskId rec ↔ usageRecords[rec.idx]? = some rec.usageRecord ∧
      rec.usageRecord.firstTask ≤ taskId ∧ taskId ≤ rec.usageRecord.lastTask
  sorted : ∀ profile ∈ taskProfiles, profile.Pairwise fun first second =>
    second.usageRecord.tensorSize ≤ first.usageRecord.tensorSize

theorem inProfile_sort : InProfile (taskProfiles.map sortBySize) taskId rec ↔
    InProfile taskProfiles taskId rec := by
  unfold InProfile
  rw [getElem?_map]
  constructor
  · rintro ⟨profile, hprofile, hin⟩
    obtain ⟨before, hbefore, rfl⟩ := Option.map_eq_some_iff.1 hprofile
    exact ⟨before, hbefore, (mergeSort_perm _ _).mem_iff.1 hin⟩
  · rintro ⟨profile, hprofile, hin⟩
    exact ⟨_, by rw [hprofile]; rfl, (mergeSort_perm _ _).mem_iff.2 hin⟩

theorem sortBySize_pairwise (records : List (TensorUsageWithIndex Nat)) :
    (sortBySize records).Pairwise fun first second =>
      second.usageRecord.tensorSize ≤ first.usageRecord.tensorSize := by
  exact pairwise_mergeSort_decide (fun _ _ _ hab hbc => hbc.trans hab)
    (fun _ _ => Nat.le_total _ _) records

theorem mem_withIndex (rec : TensorUsageWithIndex Nat) :
    rec ∈ withIndex usageRecords ↔ usageRecords[rec.idx]? = some rec.usageRecord := by
  unfold withIndex
  rw [mem_map]
  constructor
  · rintro ⟨⟨r, i⟩, hin, rfl⟩
    exact mem_zipIdx_iff_getElem?.1 hin
  · intro h
    exact ⟨(rec.usageRecord, rec.idx), mem_zipIdx_iff_getElem?.2 h, rfl⟩

/-- The loop over the records adds each to the profiles of its tasks, as long as its last task
has one. -/
theorem calculateTaskProfiles_spec (horder : ∀ r ∈ usageRecords, r.firstTask ≤ r.lastTask) :
    (∃ taskProfiles, calculateTaskProfiles usageRecords = .ok taskProfiles ∧
        Profiles usageRecords taskProfiles ∧
        ∀ r ∈ usageRecords, r.lastTask < numTasks usageRecords) ∨
      calculateTaskProfiles usageRecords = .error .outOfBounds ∧
        ∃ r ∈ usageRecords, ¬ r.lastTask < numTasks usageRecords := by
  have horder' : ∀ rec ∈ withIndex usageRecords,
      rec.usageRecord.firstTask ≤ rec.usageRecord.lastTask := fun rec hin =>
    horder _ (mem_of_getElem? ((mem_withIndex rec).1 hin))
  have hloop : ∀ (l : List (TensorUsageWithIndex Nat)) (taskProfiles : List TaskProfile),
      (∀ rec ∈ l, rec.usageRecord.firstTask ≤ rec.usageRecord.lastTask) →
      (∃ taskProfiles', l.foldlM addToProfiles taskProfiles = .ok taskProfiles' ∧
        (∀ rec ∈ l, rec.usageRecord.lastTask < taskProfiles.length) ∧
        ∀ (taskId : Nat) (rec' : TensorUsageWithIndex Nat), InProfile taskProfiles' taskId rec' ↔
          InProfile taskProfiles taskId rec' ∨ rec' ∈ l ∧
            rec'.usageRecord.firstTask ≤ taskId ∧ taskId ≤ rec'.usageRecord.lastTask) ∨
      l.foldlM addToProfiles taskProfiles = .error .outOfBounds ∧
        ∃ rec ∈ l, ¬ rec.usageRecord.lastTask < taskProfiles.length := by
    intro l
    induction l with
    | nil => exact fun taskProfiles _ => .inl ⟨taskProfiles, rfl, by simp, by simp⟩
    | cons rec l ih =>
      intro taskProfiles hl
      rw [foldlM_cons]
      rcases addToProfiles_spec (hl rec mem_cons_self) taskProfiles with
        ⟨next, hok, hlen, hlt, hmem⟩ | ⟨herror, hnot⟩
      · rw [hok, ok_bind]
        rcases ih next fun r hr => hl r (mem_cons_of_mem _ hr) with
          ⟨profiles, hok', hlt', hmem'⟩ | ⟨herror, r, hr, hnot⟩
        · refine .inl ⟨profiles, hok', fun r hr => ?_, fun taskId rec' => ?_⟩
          · rcases mem_cons.1 hr with rfl | hr
            · exact hlt
            · rw [← hlen]
              exact hlt' r hr
          · rw [hmem', hmem, mem_cons]
            constructor
            · rintro ((hin | ⟨htask, rfl⟩) | ⟨hin, htask⟩)
              · exact .inl hin
              · exact .inr ⟨.inl rfl, htask⟩
              · exact .inr ⟨.inr hin, htask⟩
            · rintro (hin | ⟨rfl | hin, htask⟩)
              · exact .inl (.inl hin)
              · exact .inl (.inr ⟨htask, rfl⟩)
              · exact .inr ⟨hin, htask⟩
        · rw [hlen] at hnot
          exact .inr ⟨herror, r, mem_cons_of_mem _ hr, hnot⟩
      · rw [herror]
        exact .inr ⟨rfl, rec, mem_cons_self, hnot⟩
  unfold calculateTaskProfiles
  rcases hloop (withIndex usageRecords) (List.replicate (numTasks usageRecords) []) horder' with
    ⟨profiles, hok, hlt, hmem⟩ | ⟨herror, rec, hin, hnot⟩
  · rw [hok, ok_bind]
    refine .inl ⟨_, rfl, ⟨fun taskId rec => ?_, ?_⟩, fun r hr => ?_⟩
    · have hempty : ¬ InProfile (List.replicate (numTasks usageRecords) []) taskId rec := by
        rintro ⟨profile, hprofile, hin⟩
        rw [eq_of_mem_replicate (mem_of_getElem? hprofile)] at hin
        cases hin
      rw [inProfile_sort, hmem, or_iff_right hempty, mem_withIndex]
    · intro profile hprofile
      obtain ⟨before, -, rfl⟩ := mem_map.1 hprofile
      exact sortBySize_pairwise before
    · obtain ⟨i, hi⟩ := mem_iff_getElem?.1 hr
      have hin := hlt ⟨r, i⟩ ((mem_withIndex _).2 hi)
      rwa [length_replicate] at hin
  · rw [herror, error_bind]
    rw [length_replicate] at hnot
    exact .inr ⟨rfl, rec.usageRecord, mem_of_getElem? ((mem_withIndex rec).1 hin), hnot⟩

theorem calculateTaskProfiles_iff (horder : ∀ r ∈ usageRecords, r.firstTask ≤ r.lastTask) :
    ((∀ r ∈ usageRecords, r.lastTask + 1 < 2 ^ 64) →
      ∃ taskProfiles, calculateTaskProfiles usageRecords = .ok taskProfiles ∧
        Profiles usageRecords taskProfiles) ∧
      ((∃ r ∈ usageRecords, ¬ r.lastTask + 1 < 2 ^ 64) →
        calculateTaskProfiles usageRecords = .error .outOfBounds) := by
  constructor
  · intro hlt
    rcases calculateTaskProfiles_spec horder with ⟨profiles, hok, hprofiles, -⟩ | ⟨-, r, hr, hnot⟩
    · exact ⟨profiles, hok, hprofiles⟩
    · exact absurd (lt_numTasks hr (hlt r hr)) hnot
  · rintro ⟨r, hr, hnot⟩
    rcases calculateTaskProfiles_spec horder with ⟨-, -, -, hlt⟩ | ⟨herror, -⟩
    · have h1 := hlt r hr
      have h2 := numTasks_lt usageRecords
      omega
    · exact herror

end

end LiteRt.Gpu
