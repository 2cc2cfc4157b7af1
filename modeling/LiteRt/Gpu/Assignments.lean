import LiteRt.Gpu.Breadth
import Mathlib.Order.MinMax

/-!
# Assignment by positional maximum, distance and size

Tensors are taken by the position of their size among the positional maximums, then by the
distance of their usage interval to those of an object. For each tensor and object the distance
is kept up to date; it is `kNotAssigned` if the tensor must not go to the object.
-/

namespace LiteRt.Gpu

open ObjectsAssignment List

section

open LiteRt.Lib

def raiseMaximums : List Nat → TaskProfile → List Nat
  | positionalMax, [] => positionalMax
  | [], info :: profile => info.usageRecord.tensorSize :: raiseMaximums [] profile
  | size :: positionalMax, info :: profile =>
    max size info.usageRecord.tensorSize :: raiseMaximums positionalMax profile

def calculatePositionalMaximums (usageRecords : List (TensorUsageRecord Nat)) :
    Except Fault (List Nat) := do
  let taskProfiles ← calculateTaskProfiles usageRecords
  return taskProfiles.foldl raiseMaximums []

structure SizeDistPriorityInfo where
  position : Nat
  tensorSize : Nat
  dist : List Nat := []
  bestDist : Nat := kNotAssigned
  bestObject : Option Nat := none
  tensorUsageId : Nat
  deriving DecidableEq, Repr, Inhabited

namespace SizeDistPriorityInfo

/-- `operator>`. -/
def higher (info other : SizeDistPriorityInfo) : Bool :=
  decide (info.position < other.position) || (decide (info.position = other.position) &&
      (decide (info.bestDist < other.bestDist) ||
        (decide (info.bestDist = other.bestDist) && decide (other.tensorSize < info.tensorSize))))

def recalcBestDist (info : SizeDistPriorityInfo) : SizeDistPriorityInfo :=
  (List.range info.dist.length).foldl (fun info objId =>
    if info.dist.getD objId kNotAssigned < info.bestDist then
      { info with bestDist := info.dist.getD objId kNotAssigned, bestObject := some objId }
    else info) { info with bestDist := kNotAssigned }

end SizeDistPriorityInfo

namespace SizeDistance

structure State where
  assignment : ObjectsAssignment Nat
  priorityInfo : List SizeDistPriorityInfo

/-- The priority info of a record, at the rightmost positional maximum that is not smaller. -/
def initialInfo (positionalMax : List Nat) (rec : TensorUsageWithIndex Nat) :
    Except Status SizeDistPriorityInfo :=
  let pos := (positionalMax.takeWhile fun size =>
    decide (rec.usageRecord.tensorSize ≤ size)).length
  if pos = 0 then .error (.internalError "Variable pos must be positive.")
  else
    .ok { position := pos - 1, tensorSize := rec.usageRecord.tensorSize, tensorUsageId := rec.idx }

/-- The first unassigned tensor of the highest priority. -/
def State.bestInfoId (st : State) : Option Nat :=
  (List.range st.priorityInfo.length).foldl (fun best infoId =>
    let info := st.priorityInfo.getD infoId default
    if (st.assignment.objectIds.getD info.tensorUsageId none).isSome then best
    else if best.all fun best => info.higher (st.priorityInfo.getD best default) then some infoId
    else best) none

/-- The positive distance between the usage intervals, if there is one. -/
def distance (rec best : TensorUsageRecord Nat) : Nat :=
  if rec.lastTask < best.firstTask then best.firstTask - rec.lastTask
  else if best.lastTask < rec.firstTask then rec.firstTask - best.lastTask
  else kNotAssigned

/-- Reflects the assignment of `best` in the info of a tensor that is not assigned yet. -/
def updateInfo (usageRecords : List (TensorUsageRecord Nat)) (objectIds : List (Option Nat))
    (bestRec : TensorUsageRecord Nat) (bestObjId : Nat) (newObject : Bool)
    (info : SizeDistPriorityInfo) : SizeDistPriorityInfo :=
  if (objectIds.getD info.tensorUsageId none).isSome then info
  else if !newObject && decide (info.dist.getD bestObjId kNotAssigned = kNotAssigned) then info
  else
    let dist := distance (usageRecords.getD info.tensorUsageId default) bestRec
    let info :=
      if newObject then { info with dist := info.dist ++ [dist] }
      else if dist = kNotAssigned then
        let info := { info with dist := info.dist.set bestObjId kNotAssigned }
        if info.bestObject = some bestObjId then info.recalcBestDist else info
      else
        { info with
          dist := info.dist.set bestObjId (min (info.dist.getD bestObjId kNotAssigned) dist) }
    if dist < info.bestDist then { info with bestDist := dist, bestObject := some bestObjId }
    else info

/-- The body of the loop that assigns a tensor. -/
def State.step (usageRecords : List (TensorUsageRecord Nat)) (st : State) (_ : Nat) :
    Except Status State :=
  match st.bestInfoId with
  | none => .error (.internalError "Invalid value for variable best_info_id.")
  | some bestInfoId =>
    let info := st.priorityInfo.getD bestInfoId default
    let bestRecId := info.tensorUsageId
    let bestRec := usageRecords.getD bestRecId default
    let newObject := decide (info.bestDist = kNotAssigned)
    let bestObjId :=
      if newObject then st.assignment.objectSizes.length else info.bestObject.getD 0
    let assignment :=
      if newObject then st.assignment.create bestRecId bestRec.tensorSize
      else st.assignment.reuse bestRecId bestObjId
        (max (st.assignment.objectSizes.getD bestObjId 0) bestRec.tensorSize)
    .ok
      { assignment := assignment
        priorityInfo := st.priorityInfo.map
          (updateInfo usageRecords assignment.objectIds bestRec bestObjId newObject) }

end SizeDistance

/-- An error of the outer level is undefined behaviour. -/
def greedyBySizeDistPriorityAssignment (usageRecords : List (TensorUsageRecord Nat)) :
    Except Fault (Except Status (ObjectsAssignment Nat)) := do
  let positionalMax ← calculatePositionalMaximums usageRecords
  return do
    let priorityInfo ← (withIndex usageRecords).mapM (SizeDistance.initialInfo positionalMax)
    let st ← (List.range usageRecords.length).foldlM (SizeDistance.State.step usageRecords)
      ⟨.empty usageRecords.length, priorityInfo⟩
    return st.assignment

namespace SizeDistance

variable {usageRecords : List (TensorUsageRecord Nat)} {positionalMax : List Nat} {st : State}

/-! ## Positions -/

theorem raiseMaximums_head (positionalMax : List Nat) (profile : TaskProfile) :
    (∀ size, positionalMax.head? = some size →
      ∃ size', (raiseMaximums positionalMax profile).head? = some size' ∧ size ≤ size') ∧
    ∀ info, profile.head? = some info →
      ∃ size', (raiseMaximums positionalMax profile).head? = some size' ∧
        info.usageRecord.tensorSize ≤ size' := by
  cases profile with
  | nil =>
    cases positionalMax <;> exact ⟨fun size h => ⟨size, h, le_refl _⟩, nofun⟩
  | cons info profile =>
    cases positionalMax with
    | nil =>
      refine ⟨nofun, fun info' h => ⟨_, rfl, ?_⟩⟩
      cases h
      exact le_refl _
    | cons size positionalMax =>
      refine ⟨fun size' h => ⟨_, rfl, ?_⟩, fun info' h => ⟨_, rfl, ?_⟩⟩
      · cases h
        exact le_max_left _ _
      · cases h
        exact le_max_right _ _

theorem positionalMaximums_head {taskProfiles : List TaskProfile}
    (hprofiles : Profiles usageRecords taskProfiles)
    (horder : ∀ r ∈ usageRecords, r.firstTask ≤ r.lastTask) :
    ∀ r ∈ usageRecords, ∃ size, (taskProfiles.foldl raiseMaximums []).head? = some size ∧
      r.tensorSize ≤ size := by
  have hall : ∀ profile ∈ taskProfiles, ∀ info, profile.head? = some info →
      ∃ size, (taskProfiles.foldl raiseMaximums []).head? = some size ∧
        info.usageRecord.tensorSize ≤ size := by
    refine foldl_invariant (P := fun (done : List TaskProfile) (positionalMax : List Nat) =>
      ∀ profile ∈ done, ∀ info, profile.head? = some info →
        ∃ size, positionalMax.head? = some size ∧ info.usageRecord.tensorSize ≤ size) nofun ?_
    intro done profile rest positionalMax _ hdone profile' hin info hhead
    obtain ⟨hold, hnew⟩ := raiseMaximums_head positionalMax profile
    rcases mem_append.1 hin with hin | hin
    · obtain ⟨size, hsize, hle⟩ := hdone profile' hin info hhead
      obtain ⟨size', hsize', hle'⟩ := hold size hsize
      exact ⟨size', hsize', hle.trans hle'⟩
    · rw [mem_singleton.1 hin] at hhead
      exact hnew info hhead
  intro r hr
  obtain ⟨i, hi⟩ := mem_iff_getElem?.1 hr
  obtain ⟨profile, hprofile, hin⟩ :=
    (hprofiles.mem_iff r.firstTask ⟨r, i⟩).2 ⟨hi, le_refl _, horder r hr⟩
  have hmem := mem_of_getElem? hprofile
  have hsorted := hprofiles.sorted profile hmem
  cases profile with
  | nil => cases hin
  | cons head profile =>
    obtain ⟨size, hsize, hle⟩ := hall _ hmem head rfl
    refine ⟨size, hsize, le_trans ?_ hle⟩
    rcases mem_cons.1 hin with heq | hin
    · rw [← heq]
    · exact (pairwise_cons.1 hsorted).1 _ hin

theorem initialInfo_ok {rec : TensorUsageWithIndex Nat}
    (h : ∃ size, positionalMax.head? = some size ∧ rec.usageRecord.tensorSize ≤ size) :
    ∃ info, initialInfo positionalMax rec = .ok info ∧ info.tensorUsageId = rec.idx ∧
      info.dist = [] ∧ info.bestDist = kNotAssigned := by
  obtain ⟨size, hhead, hle⟩ := h
  have hpos : ¬ (positionalMax.takeWhile fun size =>
      decide (rec.usageRecord.tensorSize ≤ size)).length = 0 := by
    cases positionalMax with
    | nil => cases hhead
    | cons head positionalMax =>
      cases hhead
      simp [hle]
  unfold initialInfo
  dsimp only
  rw [if_neg hpos]
  exact ⟨_, rfl, rfl, rfl, rfl⟩

theorem mapM_initialInfo {recs : List (TensorUsageWithIndex Nat)}
    (h : ∀ rec ∈ recs, ∃ size, positionalMax.head? = some size ∧
      rec.usageRecord.tensorSize ≤ size) :
    ∃ infos, recs.mapM (initialInfo positionalMax) = .ok infos ∧
      infos.map SizeDistPriorityInfo.tensorUsageId = recs.map TensorUsageWithIndex.idx ∧
      ∀ info ∈ infos, info.dist = [] ∧ info.bestDist = kNotAssigned := by
  induction recs with
  | nil => exact ⟨[], rfl, rfl, nofun⟩
  | cons rec recs ih =>
    obtain ⟨info, hok, hid, hdist, hbest⟩ := initialInfo_ok (h rec mem_cons_self)
    obtain ⟨infos, hoks, hids, hall⟩ := ih fun r hr => h r (mem_cons_of_mem _ hr)
    refine ⟨info :: infos, ?_, ?_, fun info' hin => ?_⟩
    · rw [mapM_cons, hok, ok_bind, hoks, ok_bind]
      rfl
    · rw [map_cons, map_cons, hid, hids]
    · rcases mem_cons.1 hin with rfl | hin
      · exact ⟨hdist, hbest⟩
      · exact hall info' hin

/-! ## Distances -/

theorem not_meets_of_distance {rec best : TensorUsageRecord Nat}
    (h : distance rec best ≠ kNotAssigned) : ¬ rec.Meets best := by
  unfold distance at h
  rintro ⟨h1, h2⟩
  split at h
  · omega
  · split at h
    · omega
    · exact h rfl

/-- What an info knows of the objects: a tensor is apart from those of an object at a distance,
and the best object is at one. -/
structure Knows (a : ObjectsAssignment Nat) (usageRecords : List (TensorUsageRecord Nat))
    (rec : TensorUsageRecord Nat) (info : SizeDistPriorityInfo) : Prop where
  length : info.dist.length = a.objectSizes.length
  apart : ∀ object : Nat, info.dist.getD object kNotAssigned ≠ kNotAssigned →
    ∀ (j : Nat) (rec' : TensorUsageRecord Nat), a.Holds object j →
      usageRecords[j]? = some rec' → ¬ rec.Meets rec'
  bestDist_le : info.bestDist ≤ kNotAssigned
  best : info.bestDist ≠ kNotAssigned → ∃ object, info.bestObject = some object ∧
    info.dist.getD object kNotAssigned ≠ kNotAssigned

theorem getD_set (dist : List Nat) (i object d : Nat) :
    (dist.set i d).getD object kNotAssigned =
      if i = object ∧ i < dist.length then d else dist.getD object kNotAssigned := by
  rw [getD_eq_getElem?_getD, getElem?_set, getD_eq_getElem?_getD]
  by_cases hi : i = object
  · subst hi
    by_cases hlt : i < dist.length
    · simp [hlt]
    · simp [hlt]
  · simp [hi]

theorem lt_of_getD_ne {dist : List Nat} {object : Nat}
    (h : dist.getD object kNotAssigned ≠ kNotAssigned) : object < dist.length := by
  by_contra hlt
  rw [getD_eq_getElem?_getD, getElem?_eq_none (not_lt.1 hlt)] at h
  exact h rfl

theorem recalcBestDist_spec (info : SizeDistPriorityInfo) :
    info.recalcBestDist.dist = info.dist ∧ info.recalcBestDist.tensorUsageId = info.tensorUsageId ∧
      info.recalcBestDist.bestDist ≤ kNotAssigned ∧
      (info.recalcBestDist.bestDist ≠ kNotAssigned →
        ∃ object, info.recalcBestDist.bestObject = some object ∧
          info.dist.getD object kNotAssigned ≠ kNotAssigned) := by
  unfold SizeDistPriorityInfo.recalcBestDist
  refine foldl_invariant (P := fun _ (b : SizeDistPriorityInfo) => b.dist = info.dist ∧
    b.tensorUsageId = info.tensorUsageId ∧ b.bestDist ≤ kNotAssigned ∧
      (b.bestDist ≠ kNotAssigned → ∃ object, b.bestObject = some object ∧
        info.dist.getD object kNotAssigned ≠ kNotAssigned))
    ⟨rfl, rfl, le_refl _, fun h => absurd rfl h⟩ ?_
  rintro done objId rest b - ⟨hdist, hid, hle, hbest⟩
  split
  · rename_i hlt
    rw [hdist] at hlt
    refine ⟨hdist, hid, ?_, fun _ => ⟨objId, rfl, ?_⟩⟩
    · dsimp only
      rw [hdist]
      exact hlt.le.trans hle
    · exact (lt_of_lt_of_le hlt hle).ne
  · exact ⟨hdist, hid, hle, hbest⟩

section
variable {a a' : ObjectsAssignment Nat} {rec bestRec : TensorUsageRecord Nat}
  {info : SizeDistPriorityInfo} {bestRecId bestObjId : Nat}

/-- The object just assigned is the best one if it is closer than the best one so far. -/
theorem Knows.improve (h : Knows a usageRecords rec info) {dist : Nat}
    (hdist : dist ≠ kNotAssigned → info.dist.getD bestObjId kNotAssigned ≠ kNotAssigned) :
    Knows a usageRecords rec (if dist < info.bestDist then
      { info with bestDist := dist, bestObject := some bestObjId } else info) := by
  split
  · rename_i hlt
    have hne : dist ≠ kNotAssigned := (lt_of_lt_of_le hlt h.bestDist_le).ne
    exact ⟨h.length, h.apart, hlt.le.trans h.bestDist_le, fun _ => ⟨bestObjId, rfl, hdist hne⟩⟩
  · exact h

variable (hbestRec : usageRecords[bestRecId]? = some bestRec)
  (hholds : ∀ object j : Nat, a'.Holds object j →
    j = bestRecId ∧ object = bestObjId ∨ a.Holds object j)

include hholds in
/-- The objects that were not assigned to are as far away as before. -/
theorem Knows.apart_other (h : Knows a usageRecords rec info) {object : Nat}
    (hne : object ≠ bestObjId) (hdist : info.dist.getD object kNotAssigned ≠ kNotAssigned)
    (j : Nat) (rec' : TensorUsageRecord Nat) (hj : a'.Holds object j)
    (hrec' : usageRecords[j]? = some rec') : ¬ rec.Meets rec' :=
  h.apart object hdist j rec' ((hholds object j hj).resolve_left fun heq => hne heq.2) hrec'

include hbestRec hholds

/-- A new object is as far away as its only tensor. -/
theorem Knows.append (h : Knows a usageRecords rec info) (hid : bestObjId = a.objectSizes.length)
    (hlen : a'.objectSizes.length = a.objectSizes.length + 1)
    (hbound : ∀ object j : Nat, a.Holds object j → object < a.objectSizes.length) :
    Knows a' usageRecords rec { info with dist := info.dist ++ [distance rec bestRec] } ∧
      (info.dist ++ [distance rec bestRec]).getD bestObjId kNotAssigned = distance rec bestRec := by
  have hget : ∀ object, (info.dist ++ [distance rec bestRec]).getD object kNotAssigned =
      if object = bestObjId then distance rec bestRec
      else info.dist.getD object kNotAssigned := by
    intro object
    rw [getD_eq_getElem?_getD, getD_eq_getElem?_getD, getElem?_append, h.length]
    by_cases hobject : object = bestObjId
    · rw [if_neg (by omega), if_pos hobject, hobject, hid, Nat.sub_self]
      rfl
    · rw [if_neg hobject]
      split
      · rfl
      · rw [getElem?_eq_none (by rw [length_singleton]; omega),
          getElem?_eq_none (by rw [h.length]; omega)]
  refine ⟨⟨?_, fun object hdist j rec' hj hrec' => ?_, h.bestDist_le, fun hne => ?_⟩, ?_⟩
  · rw [length_append, h.length, hlen, length_singleton]
  · dsimp only at hdist
    rw [hget] at hdist
    by_cases hobject : object = bestObjId
    · rw [if_pos hobject] at hdist
      rcases hholds object j hj with ⟨rfl, -⟩ | hj
      · rw [hbestRec] at hrec'
        cases hrec'
        exact not_meets_of_distance hdist
      · exact absurd (hbound object j hj) (by omega)
    · rw [if_neg hobject] at hdist
      exact h.apart_other hholds hobject hdist j rec' hj hrec'
  · obtain ⟨object, hobject, hdist⟩ := h.best hne
    have hlt := lt_of_getD_ne hdist
    rw [h.length] at hlt
    refine ⟨object, hobject, ?_⟩
    dsimp only
    rwa [hget, if_neg (by omega)]
  · rw [hget, if_pos rfl]

/-- A tensor at a distance lowers the distance of its object. -/
theorem Knows.lower (h : Knows a usageRecords rec info)
    (hlen : a'.objectSizes.length = a.objectSizes.length)
    (hold : info.dist.getD bestObjId kNotAssigned ≠ kNotAssigned)
    (hnew : distance rec bestRec ≠ kNotAssigned) :
    Knows a' usageRecords rec
        { info with
          dist := info.dist.set bestObjId
            (min (info.dist.getD bestObjId kNotAssigned) (distance rec bestRec)) } ∧
      (info.dist.set bestObjId (min (info.dist.getD bestObjId kNotAssigned)
        (distance rec bestRec))).getD bestObjId kNotAssigned ≠ kNotAssigned := by
  have hget : ∀ object, (info.dist.set bestObjId
      (min (info.dist.getD bestObjId kNotAssigned) (distance rec bestRec))).getD object
        kNotAssigned ≠ kNotAssigned ↔ info.dist.getD object kNotAssigned ≠ kNotAssigned := by
    intro object
    rw [getD_set]
    split
    · rename_i heq
      rw [← heq.1]
      refine iff_of_true ?_ hold
      rcases min_choice (info.dist.getD bestObjId kNotAssigned) (distance rec bestRec) with
        hmin | hmin
      · rwa [hmin]
      · rwa [hmin]
    · rfl
  refine ⟨⟨?_, fun object hdist j rec' hj hrec' => ?_, h.bestDist_le, fun hne => ?_⟩,
    (hget bestObjId).2 hold⟩
  · rw [length_set, h.length, hlen]
  · rcases hholds object j hj with ⟨rfl, -⟩ | hj
    · rw [hbestRec] at hrec'
      cases hrec'
      exact not_meets_of_distance hnew
    · exact h.apart object ((hget object).1 hdist) j rec' hj hrec'
  · obtain ⟨object, hobject, hdist⟩ := h.best hne
    exact ⟨object, hobject, (hget object).2 hdist⟩

omit hbestRec in
/-- An object with a tensor at no distance is ruled out. -/
theorem Knows.block (h : Knows a usageRecords rec info)
    (hlen : a'.objectSizes.length = a.objectSizes.length)
    (hlt : bestObjId < info.dist.length) :
    Knows a' usageRecords rec (if info.bestObject = some bestObjId then
        ({ info with dist := info.dist.set bestObjId kNotAssigned } :
          SizeDistPriorityInfo).recalcBestDist
      else { info with dist := info.dist.set bestObjId kNotAssigned }) := by
  have hlength : (info.dist.set bestObjId kNotAssigned).length = a'.objectSizes.length := by
    rw [length_set, h.length, hlen]
  have hapart : ∀ object : Nat,
      (info.dist.set bestObjId kNotAssigned).getD object kNotAssigned ≠ kNotAssigned →
      ∀ (j : Nat) (rec' : TensorUsageRecord Nat), a'.Holds object j →
        usageRecords[j]? = some rec' → ¬ rec.Meets rec' := by
    intro object hdist
    rw [getD_set] at hdist
    split at hdist
    · exact absurd rfl hdist
    · rename_i hne
      exact h.apart_other hholds (fun heq => hne ⟨heq.symm, hlt⟩) hdist
  by_cases hbest : info.bestObject = some bestObjId
  · rw [if_pos hbest]
    obtain ⟨hdist, -, hle, hobject⟩ := recalcBestDist_spec
      { info with dist := info.dist.set bestObjId kNotAssigned }
    refine ⟨?_, ?_, hle, fun hne => ?_⟩
    · rw [hdist]
      exact hlength
    · rw [hdist]
      exact hapart
    · rw [hdist]
      exact hobject hne
  · rw [if_neg hbest]
    refine ⟨hlength, hapart, h.bestDist_le, fun hne => ?_⟩
    obtain ⟨object, hobject, hdist⟩ := h.best hne
    refine ⟨object, hobject, ?_⟩
    dsimp only
    rw [getD_set, if_neg]
    · exact hdist
    · rintro ⟨rfl, -⟩
      exact hbest hobject

/-- The info of a tensor that is still unassigned knows of the tensor just assigned. -/
theorem updateInfo_knows {newObject : Bool} (h : Knows a usageRecords rec info)
    (hrec : usageRecords.getD info.tensorUsageId default = rec)
    (hunassigned : (a'.objectIds.getD info.tensorUsageId none).isSome = false)
    (hnew : newObject = true → bestObjId = a.objectSizes.length ∧
      a'.objectSizes.length = a.objectSizes.length + 1)
    (hold : newObject = false → a'.objectSizes.length = a.objectSizes.length)
    (hbound : ∀ object j : Nat, a.Holds object j → object < a.objectSizes.length) :
    Knows a' usageRecords rec
      (updateInfo usageRecords a'.objectIds bestRec bestObjId newObject info) := by
  unfold updateInfo
  rw [if_neg (by rw [hunassigned]; exact Bool.false_ne_true), hrec]
  cases newObject with
  | true =>
    obtain ⟨hid, hlen⟩ := hnew rfl
    obtain ⟨hknows, hget⟩ := h.append hbestRec hholds hid hlen hbound
    simp only [Bool.not_true, Bool.false_and, Bool.false_eq_true, if_false, if_true]
    refine hknows.improve fun hne => ?_
    dsimp only
    rwa [hget]
  | false =>
    have hlen := hold rfl
    by_cases hskip : info.dist.getD bestObjId kNotAssigned = kNotAssigned
    · rw [if_pos (by rw [decide_eq_true hskip]; rfl)]
      refine ⟨h.length.trans hlen.symm, fun object hdist => ?_, h.bestDist_le, h.best⟩
      exact h.apart_other hholds (fun heq => hdist (heq ▸ hskip)) hdist
    · rw [if_neg (by rw [decide_eq_false hskip]; exact Bool.false_ne_true)]
      simp only [Bool.false_eq_true, if_false]
      by_cases hnone : distance rec bestRec = kNotAssigned
      · rw [if_pos hnone]
        exact (h.block hholds hlen (lt_of_getD_ne hskip)).improve fun hne => absurd hnone hne
      · rw [if_neg hnone]
        obtain ⟨hknows, hget⟩ := h.lower hbestRec hholds hlen hskip hnone
        exact hknows.improve fun _ => hget

end

/-! ## Validity -/

/-- After `it` steps the infos of the unassigned tensors know of the assigned ones. -/
structure State.Inv (usageRecords : List (TensorUsageRecord Nat)) (it : Nat) (st : State) :
    Prop where
  sound : Sound (fun size tensorSize => tensorSize ≤ size) usageRecords st.assignment
  ids : st.priorityInfo.map SizeDistPriorityInfo.tensorUsageId = List.range usageRecords.length
  knows : ∀ info ∈ st.priorityInfo, st.assignment.objectIds[info.tensorUsageId]? = some none →
    Knows st.assignment usageRecords (usageRecords.getD info.tensorUsageId default) info
  unassigned : st.assignment.objectIds.count none + it = usageRecords.length

theorem updateInfo_id (objectIds : List (Option Nat)) (bestRec : TensorUsageRecord Nat)
    (bestObjId : Nat) (newObject : Bool) (info : SizeDistPriorityInfo) :
    (updateInfo usageRecords objectIds bestRec bestObjId newObject info).tensorUsageId =
      info.tensorUsageId := by
  have hrecalc := fun dist => (recalcBestDist_spec { info with dist := dist }).2.1
  unfold updateInfo
  split
  · rfl
  · split
    · rfl
    · cases newObject with
      | true =>
        simp only [if_true]
        split <;> rfl
      | false =>
        simp only [Bool.false_eq_true, if_false]
        split
        · split <;> split <;> first | exact hrecalc _ | rfl
        · split <;> rfl

/-- Some tensor is found as long as one is unassigned, and it is unassigned. -/
theorem bestInfoId_spec :
    (∀ infoId, st.bestInfoId = some infoId → infoId < st.priorityInfo.length ∧
      (st.assignment.objectIds.getD
        (st.priorityInfo.getD infoId default).tensorUsageId none).isSome = false) ∧
    ((∃ infoId < st.priorityInfo.length, (st.assignment.objectIds.getD
      (st.priorityInfo.getD infoId default).tensorUsageId none).isSome = false) →
        st.bestInfoId ≠ none) := by
  unfold State.bestInfoId
  have hall := foldl_invariant (b := none) (l := List.range st.priorityInfo.length)
    (f := fun (best : Option Nat) infoId =>
      let info := st.priorityInfo.getD infoId default
      if (st.assignment.objectIds.getD info.tensorUsageId none).isSome then best
      else if best.all fun best => info.higher (st.priorityInfo.getD best default) then some infoId
      else best)
    (P := fun done (best : Option Nat) => (∀ infoId, best = some infoId → infoId ∈ done ∧
      (st.assignment.objectIds.getD
        (st.priorityInfo.getD infoId default).tensorUsageId none).isSome = false) ∧
      ((∃ infoId ∈ done, (st.assignment.objectIds.getD
        (st.priorityInfo.getD infoId default).tensorUsageId none).isSome = false) → best ≠ none))
    ⟨nofun, fun ⟨_, hin, _⟩ => absurd hin not_mem_nil⟩ ?_
  · simpa only [mem_range] using hall
  · intro done infoId rest best heq hbest
    obtain ⟨hsome, hnone⟩ := hbest
    dsimp only
    by_cases hassigned : (st.assignment.objectIds.getD
        (st.priorityInfo.getD infoId default).tensorUsageId none).isSome
    · rw [if_pos hassigned]
      refine ⟨fun id hid => ⟨mem_append_left _ (hsome id hid).1, (hsome id hid).2⟩, ?_⟩
      rintro ⟨id, hin, hid⟩
      rcases mem_append.1 hin with hin | hin
      · exact hnone ⟨id, hin, hid⟩
      · rw [mem_singleton.1 hin, hassigned] at hid
        cases hid
    · rw [if_neg hassigned]
      split
      · refine ⟨fun id hid => ?_, fun _ => nofun⟩
        cases hid
        exact ⟨mem_append_right _ (mem_singleton_self _), by simpa using hassigned⟩
      · rename_i hlower
        refine ⟨fun id hid => ⟨mem_append_left _ (hsome id hid).1, (hsome id hid).2⟩, ?_⟩
        rintro - rfl
        exact hlower rfl

theorem Holds.getD_isSome {a : ObjectsAssignment Nat} {i : Nat}
    (h : (a.objectIds.getD i none).isSome = false) (hi : i < a.objectIds.length) :
    a.objectIds[i]? = some none := by
  rw [getD_eq_getElem?_getD, getElem?_eq_getElem hi, Option.getD_some] at h
  rw [getElem?_eq_getElem hi, Option.some_inj]
  exact Option.isNone_iff_eq_none.1 (by rw [← Option.not_isSome, h]; rfl)

theorem State.Inv.step {it : Nat} (h : st.Inv usageRecords it) (hit : it < usageRecords.length)
    (k : Nat) :
    ∃ st', st.step usageRecords k = .ok st' ∧ st'.Inv usageRecords (it + 1) := by
  have hlen : st.priorityInfo.length = usageRecords.length := by
    have hids := congrArg List.length h.ids
    rwa [length_map, length_range] at hids
  have hid : ∀ infoId, infoId < st.priorityInfo.length →
      (st.priorityInfo.getD infoId default).tensorUsageId = infoId := by
    intro infoId hlt
    have hget := congrArg (fun l => l[infoId]?) h.ids
    have hlt' : infoId < usageRecords.length := by rwa [← hlen]
    simp only [getElem?_map, getElem?_eq_getElem hlt, Option.map_some,
      getElem?_range hlt', Option.some_inj] at hget
    rwa [getD_eq_getElem?_getD, getElem?_eq_getElem hlt, Option.getD_some]
  obtain ⟨hsome, hexists⟩ : _ ∧ (_ → st.bestInfoId ≠ none) := bestInfoId_spec
  obtain ⟨i, hi⟩ : ∃ i, st.assignment.objectIds[i]? = some none := by
    have hpos : 0 < st.assignment.objectIds.count none := by
      have := h.unassigned
      omega
    exact mem_iff_getElem?.1 (count_pos_iff.1 hpos)
  have hilt : i < st.priorityInfo.length := by
    rw [hlen, ← h.sound.length]
    exact (List.getElem?_eq_some_iff.1 hi).1
  have hne : st.bestInfoId ≠ none := by
    refine hexists ⟨i, hilt, ?_⟩
    rw [hid i hilt, getD_eq_getElem?_getD, hi]
    rfl
  cases hbest : st.bestInfoId with
  | none => exact absurd hbest hne
  | some best =>
    obtain ⟨hbestlt, hunassigned⟩ := hsome best hbest
    rw [hid best hbestlt] at hunassigned
    have hbestlt' : best < usageRecords.length := by rwa [← hlen]
    have hbestids : best < st.assignment.objectIds.length := by rwa [h.sound.length]
    have hfree := Holds.getD_isSome hunassigned hbestids
    have hrec : usageRecords[best]? = some (usageRecords.getD best default) := by
      rw [getD_eq_getElem?_getD, getElem?_eq_getElem hbestlt', Option.getD_some]
    generalize hinfo : st.priorityInfo.getD best default = info
    have hmem : info ∈ st.priorityInfo := by
      rw [← hinfo, getD_eq_getElem?_getD, getElem?_eq_getElem hbestlt, Option.getD_some]
      exact getElem_mem hbestlt
    have hinfoid : info.tensorUsageId = best := by
      rw [← hinfo]
      exact hid best hbestlt
    have hknows := h.knows info hmem (by rwa [hinfoid])
    rw [hinfoid] at hknows
    -- whichever object the tensor gets, the infos are updated in the same way
    have hfinish : ∀ (bestObjId : Nat) (newObject : Bool) (a' : ObjectsAssignment Nat),
        Sound (fun size tensorSize => tensorSize ≤ size) usageRecords a' →
        a'.objectIds = st.assignment.objectIds.set best (some bestObjId) →
        (newObject = true → bestObjId = st.assignment.objectSizes.length ∧
          a'.objectSizes.length = st.assignment.objectSizes.length + 1) →
        (newObject = false → a'.objectSizes.length = st.assignment.objectSizes.length) →
        State.Inv usageRecords (it + 1) ⟨a', st.priorityInfo.map (updateInfo usageRecords
          a'.objectIds (usageRecords.getD best default) bestObjId newObject)⟩ := by
      intro bestObjId newObject a' hsound hids hnew hold
      have hholds : ∀ object j : Nat, a'.Holds object j →
          j = best ∧ object = bestObjId ∨ st.assignment.Holds object j := by
        intro object j hj
        have hset : (⟨st.assignment.objectIds.set best (some bestObjId), a'.objectSizes⟩ :
            ObjectsAssignment Nat).Holds object j := by
          unfold Holds at hj ⊢
          rwa [hids] at hj
        exact (holds_set hset).imp id And.right
      refine ⟨hsound, ?_, fun info' hin hnone => ?_, ?_⟩
      · rw [List.map_map]
        refine Eq.trans (map_congr_left fun info' _ => ?_) h.ids
        exact updateInfo_id _ _ _ _ _
      · obtain ⟨before, hbefore, rfl⟩ := mem_map.1 hin
        rw [updateInfo_id] at hnone ⊢
        have hother : best ≠ before.tensorUsageId := by
          rintro rfl
          rw [hids, getElem?_set_self hbestids] at hnone
          cases hnone
        have hnone' : st.assignment.objectIds[before.tensorUsageId]? = some none := by
          rwa [hids, getElem?_set_ne hother] at hnone
        refine updateInfo_knows hrec hholds (h.knows before hbefore hnone') rfl ?_ hnew hold
          fun object j hj => h.sound.object_lt hj
        rw [getD_eq_getElem?_getD, hnone]
        rfl
      · have hgetElem : st.assignment.objectIds[best] = none := by
          rw [getElem?_eq_getElem hbestids, Option.some_inj] at hfree
          exact hfree
        have hpos : 0 < st.assignment.objectIds.count none :=
          count_pos_iff.2 (mem_of_getElem? hfree)
        have hcount := h.unassigned
        dsimp only
        rw [hids, count_set hbestids, hgetElem]
        simp only [BEq.rfl, if_true, Option.some_beq_none, Bool.false_eq_true, if_false]
        omega
    unfold State.step
    rw [hbest]
    dsimp only
    rw [hinfo, hinfoid]
    refine ⟨_, rfl, ?_⟩
    by_cases hnew : info.bestDist = kNotAssigned
    · simp only [hnew, decide_true, if_true]
      refine hfinish _ true _ (h.sound.create hrec (le_refl _)) rfl
        (fun _ => ⟨rfl, ?_⟩) (fun h => absurd h Bool.true_eq_false.mp)
      simp [ObjectsAssignment.create]
    · obtain ⟨object, hobject, hdist⟩ := hknows.best hnew
      have hlt := lt_of_getD_ne hdist
      rw [hknows.length] at hlt
      simp only [hnew, decide_false, Bool.false_eq_true, if_false, hobject, Option.getD_some]
      refine hfinish _ false _ (h.sound.reuse hrec hlt (le_max_right _ _) ?_ ?_) rfl
        (fun h => absurd h Bool.false_ne_true) fun _ => ?_
      · intro x y hx hle
        rw [getD_eq_getElem?_getD, hx, Option.getD_some]
        exact hle.trans (le_max_left _ _)
      · exact fun hj hrec' => hknows.apart object hdist _ _ hj hrec'
      · simp [ObjectsAssignment.reuse]

theorem valid (horder : ∀ r ∈ usageRecords, r.firstTask ≤ r.lastTask)
    (hlt : ∀ r ∈ usageRecords, r.lastTask + 1 < 2 ^ 64) :
    ∃ a, greedyBySizeDistPriorityAssignment usageRecords = .ok (.ok a) ∧
      Valid (fun size tensorSize => tensorSize ≤ size) usageRecords a := by
  obtain ⟨taskProfiles, hok, hprofiles⟩ := (calculateTaskProfiles_iff horder).1 hlt
  have hhead := positionalMaximums_head hprofiles horder
  obtain ⟨infos, hinfos, hids, hall⟩ := mapM_initialInfo fun rec hin =>
    hhead _ (mem_of_getElem? ((mem_withIndex rec).1 hin))
  have hinit : State.Inv usageRecords 0 ⟨.empty usageRecords.length, infos⟩ := by
    refine ⟨sound_empty, ?_, fun info hin _ => ?_, ?_⟩
    · rw [hids]
      unfold withIndex
      rw [List.map_map, range_eq_range']
      exact zipIdx_map_snd 0 usageRecords
    · obtain ⟨hdist, hbest⟩ := hall info hin
      refine ⟨by rw [hdist]; rfl, fun object _ j rec' hj => ?_, hbest.le, fun hne => ?_⟩
      · exact absurd hj (not_holds_empty _ _ _)
      · exact absurd hbest hne
    · simp [ObjectsAssignment.empty]
  have hrun : ∀ it, it ≤ usageRecords.length →
      ∃ st, (List.range it).foldlM (State.step usageRecords)
        ⟨.empty usageRecords.length, infos⟩ = .ok st ∧ st.Inv usageRecords it := by
    intro it
    induction it with
    | zero => exact fun _ => ⟨_, rfl, hinit⟩
    | succ it ih =>
      intro hit
      obtain ⟨st, hst, hinv⟩ := ih (by omega)
      obtain ⟨st', hst', hinv'⟩ := hinv.step (by omega) it
      refine ⟨st', ?_, hinv'⟩
      rw [range_succ, foldlM_append, hst, ok_bind, foldlM_cons, hst', ok_bind]
      rfl
  obtain ⟨st, hst, hinv⟩ := hrun _ (le_refl _)
  refine ⟨st.assignment, ?_, { hinv.sound with assigned := fun i hi => ?_ }⟩
  · unfold greedyBySizeDistPriorityAssignment calculatePositionalMaximums
    rw [hok, ok_bind]
    change Except.ok ((withIndex usageRecords).mapM
      (initialInfo (taskProfiles.foldl raiseMaximums [])) >>= fun priorityInfo => _) = _
    rw [hinfos, ok_bind, hst, ok_bind]
    rfl
  · have hzero : st.assignment.objectIds.count none = 0 := by
      have := hinv.unassigned
      omega
    have hlt' : i < st.assignment.objectIds.length := by rwa [hinv.sound.length]
    have hmem := getElem_mem hlt'
    cases hid : st.assignment.objectIds[i] with
    | none =>
      rw [hid] at hmem
      exact absurd hmem (count_eq_zero.1 hzero)
    | some object =>
      refine ⟨object, ?_⟩
      unfold Holds
      rw [getElem?_eq_getElem hlt', hid]

end SizeDistance

end

/-!
## All assignments are valid

The two algorithms that calculate task profiles need a task after the last one in use to be a
number; the others need nothing.
-/

/-- The object is large enough for the tensor. -/
def AtLeast (size tensorSize : Nat) : Prop := tensorSize ≤ size

def Covers {α : Type} [ObjectSize α] (size tensorSize : α) : Prop :=
  ObjectSize.isCoveringObject size tensorSize = true

/-- The algorithm returns a valid assignment. -/
def Assigns {α : Type} (covers : α → α → Prop) (usageRecords : List (TensorUsageRecord α))
    (result : Except Status (ObjectsAssignment α)) : Prop :=
  ∃ a, result = .ok a ∧ Valid covers usageRecords a

/-- The algorithm returns a valid assignment, without undefined behaviour. -/
def AssignsSafely {α : Type} (covers : α → α → Prop) (usageRecords : List (TensorUsageRecord α))
    (result : Except Fault (Except Status (ObjectsAssignment α))) : Prop :=
  ∃ a, result = .ok (.ok a) ∧ Valid covers usageRecords a

section
variable {α β : Type} [ObjectSize α] [DecidableEq β]
  {usageRecords : List (TensorUsageRecord Nat)} {shapeRecords : List (TensorUsageRecord α)}
  {keyRecords : List (TensorUsageRecord β)}

end

end LiteRt.Gpu
