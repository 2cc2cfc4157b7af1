import LiteRt.Lib.GapScan
import LiteRt.Lib.Loops
import LiteRt.Gpu.SharedObjects
import Mathlib.Algebra.BigOperators.Group.List.Basic
import Mathlib.Order.MinMax
import Mathlib.Algebra.Ring.Nat

/-!
# Offsets in one block of memory

Tensors are placed in the order of their sizes, each into the smallest gap between the
placed tensors whose usage intervals it meets, or behind all of them.
-/

namespace LiteRt.Gpu

open LiteRt.Lib GapScan List

structure OffsetsAssignment where
  offsets : List Nat
  totalSize : Nat
  deriving DecidableEq, Repr

/-! ## The algorithm -/

/-- The best gap so far and the end of the tensors passed. -/
structure Gap where
  bestDiff : Nat
  bestOffset : Nat
  prevOffset : Nat

def Gap.initial : Gap := ⟨kNotAssigned, kNotAssigned, 0⟩

/-- The loop variables of `GreedyBySizeAssignment`; `orderedAllocs` holds the placed tensors by
offset. -/
structure Placing where
  offsets : List Nat
  orderedAllocs : List Nat
  totalSize : Nat

section
variable (usageRecords : List (TensorUsageRecord Nat)) (align : Nat)

/-- The body of the loop over the placed tensors. -/
def Gap.scan (offsets : List Nat) (rec : TensorUsageRecord Nat) (gap : Gap) (allocatedId : Nat) :
    Gap :=
  let allocated := usageRecords[allocatedId]!
  if allocated.lastTask < rec.firstTask ∨ rec.lastTask < allocated.firstTask then gap
  else
    let curOffset := offsets[allocatedId]!
    let diff := curOffset - gap.prevOffset
    let fits := gap.prevOffset ≤ curOffset ∧ rec.tensorSize ≤ diff ∧ diff < gap.bestDiff
    { bestDiff := if fits then diff else gap.bestDiff
      bestOffset := if fits then gap.prevOffset else gap.bestOffset
      prevOffset := max gap.prevOffset
        (alignByN ((curOffset + allocated.tensorSize) % 2 ^ 64) align) }

def Placing.gap (st : Placing) (rec : TensorUsageRecord Nat) : Gap :=
  st.orderedAllocs.foldl (Gap.scan usageRecords align st.offsets rec) Gap.initial

/-- The sum that `prev_offset` is compared with. -/
def Placing.sizeBound (st : Placing) : Nat :=
  (st.totalSize + st.orderedAllocs.length * (align - 1) % 2 ^ 64) % 2 ^ 64

def Gap.offset (gap : Gap) : Nat :=
  if gap.bestOffset = kNotAssigned then gap.prevOffset else gap.bestOffset

/-- Places a tensor and inserts it in front of the tensors with larger offsets. -/
def Placing.place (st : Placing) (recWithIdx : TensorUsageWithIndex Nat) : Placing :=
  let bestOffset := (st.gap usageRecords align recWithIdx.usageRecord).offset
  { offsets := st.offsets.set recWithIdx.idx bestOffset
    orderedAllocs := upperInsert (fun id => st.offsets[id]!) bestOffset recWithIdx.idx
      st.orderedAllocs
    totalSize := max st.totalSize ((bestOffset + recWithIdx.usageRecord.tensorSize) % 2 ^ 64) }

/-- The body of the loop over the tensors. -/
def Placing.step (st : Placing) (recWithIdx : TensorUsageWithIndex Nat) : Except Status Placing :=
  if st.sizeBound align < (st.gap usageRecords align recWithIdx.usageRecord).prevOffset then
    .error (.internalError "Total size is wrong.")
  else
    .ok (st.place usageRecords align recWithIdx)

def Placing.initial : Placing :=
  ⟨List.replicate usageRecords.length 0, [], 0⟩

def greedyBySizeAssignment : Except Status OffsetsAssignment := do
  let st ← (sortBySize (withIndex usageRecords)).foldlM (Placing.step usageRecords align)
    (Placing.initial usageRecords)
  return ⟨st.offsets, st.totalSize⟩

end

/-! ## One tensor -/

section
variable {usageRecords : List (TensorUsageRecord Nat)} {align : Nat}

/-- The sum of the aligned sizes of some tensors. -/
def alignedTotal (usageRecords : List (TensorUsageRecord Nat)) (align : Nat) (ids : List Nat) :
    Nat :=
  (ids.map fun id => alignUp usageRecords[id]!.tensorSize align).sum

/-- The tensors `done` are placed apart from each other, at aligned offsets, in a block of
the total size. -/
structure Placing.Valid (usageRecords : List (TensorUsageRecord Nat)) (align : Nat)
    (done : List Nat) (st : Placing) : Prop where
  ids : st.orderedAllocs.Perm done
  length : st.offsets.length = usageRecords.length
  sorted : st.orderedAllocs.Pairwise fun i j => st.offsets[i]! ≤ st.offsets[j]!
  aligned : ∀ i ∈ done, align ∣ st.offsets[i]!
  apart : ∀ i ∈ done, ∀ j ∈ done, i ≠ j → usageRecords[i]!.Meets usageRecords[j]! →
    st.offsets[i]! + usageRecords[i]!.tensorSize ≤ st.offsets[j]! ∨
      st.offsets[j]! + usageRecords[j]!.tensorSize ≤ st.offsets[i]!
  reach : ∀ i ∈ done, st.offsets[i]! + alignUp usageRecords[i]!.tensorSize align
    ≤ alignedTotal usageRecords align done
  total_ge : ∀ i ∈ done, st.offsets[i]! + usageRecords[i]!.tensorSize ≤ st.totalSize
  total_eq : (done = [] ∧ st.totalSize = 0) ∨
    ∃ i ∈ done, st.totalSize = st.offsets[i]! + usageRecords[i]!.tensorSize

theorem Placing.valid_initial : (Placing.initial usageRecords).Valid usageRecords align [] where
  ids := .refl _
  length := length_replicate
  sorted := .nil
  aligned := by simp
  apart := by simp
  reach := by simp
  total_ge := by simp
  total_eq := .inl ⟨rfl, rfl⟩

/-- What holds of the best gap when some of the placed tensors are passed. -/
structure Gap.Valid (usageRecords : List (TensorUsageRecord Nat)) (align : Nat) (done : List Nat)
    (st : Placing) (rec : TensorUsageRecord Nat) (passed : List Nat) (gap : Gap) : Prop where
  scanned : Scanned (fun i => st.offsets[i]!)
    (fun i => st.offsets[i]! + usageRecords[i]!.tensorSize) (fun i => usageRecords[i]!.Meets rec)
    rec.tensorSize passed gap.prevOffset
    (if gap.bestOffset = kNotAssigned then none else some gap.bestOffset)
  prev_aligned : align ∣ gap.prevOffset
  prev_le : gap.prevOffset ≤ alignedTotal usageRecords align done
  prev_le_total : gap.prevOffset ≤ st.totalSize + (align - 1)
  best : gap.bestOffset ≠ kNotAssigned → align ∣ gap.bestOffset ∧ gap.bestOffset ≤ gap.prevOffset

theorem Gap.valid_initial {done : List Nat} {st : Placing} {rec : TensorUsageRecord Nat} :
    Gap.initial.Valid usageRecords align done st rec [] where
  scanned := scanned_nil
  prev_aligned := Nat.dvd_zero _
  prev_le := Nat.zero_le _
  prev_le_total := Nat.zero_le _
  best := fun h => absurd rfl h

variable {done : List Nat} {st : Placing} {rec : TensorUsageRecord Nat}

theorem Placing.Valid.aligned_end (hst : st.Valid usageRecords align done) (halign : 0 < align)
    (hsum : alignedTotal usageRecords align done < 2 ^ 64) {i : Nat} (hi : i ∈ done) :
    alignByN ((st.offsets[i]! + usageRecords[i]!.tensorSize) % 2 ^ 64) align
      = st.offsets[i]! + alignUp usageRecords[i]!.tensorSize align := by
  have hle := le_alignUp usageRecords[i]!.tensorSize align halign
  have hreach := hst.reach i hi
  rw [Nat.mod_eq_of_lt (by omega), alignByN, alignUp_add halign (hst.aligned i hi),
    Nat.mod_eq_of_lt (by omega)]

/-- A tensor in the way is passed; the gap in front of it may be taken. -/
theorem Gap.Valid.pass (hst : st.Valid usageRecords align done) (halign : 0 < align)
    {passed : List Nat} {i : Nat} (hi : i ∈ done)
    (hsorted : ∀ j ∈ passed, st.offsets[j]! ≤ st.offsets[i]!) {gap : Gap}
    (hgap : gap.Valid usageRecords align done st rec passed) {bestDiff best : Nat}
    (hbest : best = gap.bestOffset ∨
      best = gap.prevOffset ∧ gap.prevOffset + rec.tensorSize ≤ st.offsets[i]!) :
    Gap.Valid usageRecords align done st rec (passed ++ [i]) ⟨bestDiff, best, max gap.prevOffset
        (st.offsets[i]! + alignUp usageRecords[i]!.tensorSize align)⟩ := by
  have hup := le_alignUp usageRecords[i]!.tensorSize align halign
  have hup' := alignUp_le usageRecords[i]!.tensorSize align halign
  have htotal := hst.total_ge i hi
  have hprev := hgap.prev_le
  have hprev' := hgap.prev_le_total
  refine ⟨hgap.scanned.pass hsorted (le_max_left _ _) ?_ ?_, ?_, ?_, ?_, ?_⟩
  · exact (Nat.add_le_add_left hup _).trans (le_max_right _ _)
  · intro o ho
    rcases hbest with rfl | ⟨rfl, hle⟩
    · exact .inl ho
    · dsimp only at ho
      split at ho
      · cases ho
      · cases ho
        exact .inr ⟨le_refl _, hle⟩
  · show align ∣ max gap.prevOffset (st.offsets[i]! + alignUp usageRecords[i]!.tensorSize align)
    rcases max_choice gap.prevOffset
      (st.offsets[i]! + alignUp usageRecords[i]!.tensorSize align) with h | h
    · rw [h]
      exact hgap.prev_aligned
    · rw [h]
      exact Nat.dvd_add (hst.aligned i hi) (dvd_alignUp _ _)
  · exact max_le hprev (hst.reach i hi)
  · exact max_le hprev' (by omega)
  · intro hne
    rcases hbest with rfl | ⟨rfl, -⟩
    · exact ⟨(hgap.best hne).1, (hgap.best hne).2.trans (le_max_left _ _)⟩
    · exact ⟨hgap.prev_aligned, le_max_left _ _⟩

theorem Gap.Valid.scan (hst : st.Valid usageRecords align done) (halign : 0 < align)
    (hsum : alignedTotal usageRecords align done < 2 ^ 64) {passed rest : List Nat} {i : Nat}
    (hallocs : st.orderedAllocs = passed ++ i :: rest) {gap : Gap}
    (hgap : gap.Valid usageRecords align done st rec passed) :
    (gap.scan usageRecords align st.offsets rec i).Valid usageRecords align done st rec
      (passed ++ [i]) := by
  have hi : i ∈ done := by
    rw [← hst.ids.mem_iff, hallocs]
    exact mem_append_right _ mem_cons_self
  have hsorted : ∀ j ∈ passed, st.offsets[j]! ≤ st.offsets[i]! := by
    have h := hst.sorted
    rw [hallocs] at h
    exact fun j hj => (pairwise_append.1 h).2.2 j hj i mem_cons_self
  unfold Gap.scan
  by_cases hskip : usageRecords[i]!.lastTask < rec.firstTask ∨
      rec.lastTask < usageRecords[i]!.firstTask
  · rw [if_pos hskip]
    refine { hgap with scanned := hgap.scanned.skip fun hmeets => ?_ }
    obtain ⟨h1, h2⟩ := hmeets
    omega
  · rw [if_neg hskip]
    dsimp only
    rw [hst.aligned_end halign hsum hi]
    refine hgap.pass hst halign hi hsorted ?_
    split
    · exact .inr ⟨rfl, by omega⟩
    · exact .inl rfl

theorem Placing.Valid.gap (hst : st.Valid usageRecords align done) (halign : 0 < align)
    (hsum : alignedTotal usageRecords align done < 2 ^ 64) :
    (st.gap usageRecords align rec).Valid usageRecords align done st rec st.orderedAllocs :=
  foldl_invariant Gap.valid_initial fun _ _ _ _ hallocs hgap => hgap.scan hst halign hsum hallocs

/-- The offset that is chosen is aligned, lies in the reach of the placed tensors and is
clear of those whose usage intervals the tensor meets. -/
theorem Placing.Valid.offset (hst : st.Valid usageRecords align done) (halign : 0 < align)
    (hsum : alignedTotal usageRecords align done < 2 ^ 64) :
    align ∣ (st.gap usageRecords align rec).offset ∧
      (st.gap usageRecords align rec).offset ≤ alignedTotal usageRecords align done ∧
      ∀ i ∈ done, usageRecords[i]!.Meets rec →
        st.offsets[i]! + usageRecords[i]!.tensorSize ≤ (st.gap usageRecords align rec).offset ∨
          (st.gap usageRecords align rec).offset + rec.tensorSize ≤ st.offsets[i]! := by
  have hgap := @Placing.Valid.gap _ _ _ _ rec hst halign hsum
  unfold Gap.offset
  split
  · refine ⟨hgap.prev_aligned, hgap.prev_le, fun i hi hmeets => ?_⟩
    exact hgap.scanned.clear_end (le_refl _) i (hst.ids.mem_iff.2 hi) hmeets
  · rename_i hbest
    obtain ⟨haligned, hle⟩ := hgap.best hbest
    refine ⟨haligned, hle.trans hgap.prev_le, fun i hi hmeets => ?_⟩
    have hchosen := hgap.scanned.chosen
    rw [if_neg hbest] at hchosen
    exact (hchosen _ rfl).1 i (hst.ids.mem_iff.2 hi) hmeets

/-! ## The whole loop -/

theorem alignedTotal_append (ids : List Nat) (i : Nat) :
    alignedTotal usageRecords align (ids ++ [i])
      = alignedTotal usageRecords align ids + alignUp usageRecords[i]!.tensorSize align := by
  simp [alignedTotal]

theorem getElem!_set {α : Type} [Inhabited α] {l : List α} {i : Nat} (hi : i < l.length) (a : α)
    (j : Nat) : (l.set i a)[j]! = if j = i then a else l[j]! := by
  rw [getElem!_eq_getElem?_getD, getElem!_eq_getElem?_getD, getElem?_set]
  by_cases h : i = j
  · rw [if_pos h, if_pos hi, if_pos h.symm, Option.getD_some]
  · rw [if_neg h, if_neg (Ne.symm h)]

theorem Placing.Valid.place (hst : st.Valid usageRecords align done) (halign : 0 < align)
    {idx : Nat} (hlt : idx < usageRecords.length) (hnew : idx ∉ done)
    (hsum : alignedTotal usageRecords align (done ++ [idx]) < 2 ^ 64) :
    (st.place usageRecords align ⟨usageRecords[idx]!, idx⟩).Valid usageRecords align
      (done ++ [idx]) := by
  have hsum' := hsum
  rw [alignedTotal_append] at hsum'
  have hup := le_alignUp usageRecords[idx]!.tensorSize align halign
  obtain ⟨hdvd, hle, hclear⟩ := @Placing.Valid.offset _ _ _ _ usageRecords[idx]! hst halign
    (by omega)
  unfold Placing.place
  generalize ((st.gap usageRecords align usageRecords[idx]!).offset) = o at hdvd hle hclear
  dsimp only
  have hset : ∀ j, (st.offsets.set idx o)[j]! = if j = idx then o else st.offsets[j]! :=
    getElem!_set (by rwa [hst.length]) o
  have hold : ∀ j ∈ done, (st.offsets.set idx o)[j]! = st.offsets[j]! := fun j hj => by
    rw [hset, if_neg fun h => hnew (by rwa [← h])]
  have hself : (st.offsets.set idx o)[idx]! = o := by rw [hset, if_pos rfl]
  rw [Nat.mod_eq_of_lt (by omega)]
  have hmem : ∀ {P : Nat → Prop}, (∀ i ∈ done, P i) → P idx → ∀ i ∈ done ++ [idx], P i := by
    intro P hP hidx i hi
    rcases mem_append.1 hi with hi | hi
    · exact hP i hi
    · rwa [mem_singleton.1 hi]
  refine ⟨?_, ?_, ?_, ?_, ?_, ?_, ?_, ?_⟩
  · exact (upperInsert_perm _ _ _ _).trans ((hst.ids.cons idx).trans (perm_append_singleton idx done).symm)
  · rw [length_set, hst.length]
  · have hallocs : ∀ j ∈ st.orderedAllocs, st.offsets[j]! = (st.offsets.set idx o)[j]! :=
      fun j hj => (hold j (hst.ids.mem_iff.1 hj)).symm
    rw [upperInsert_congr hallocs]
    refine upperInsert_sorted hself (hst.sorted.imp_of_mem fun {i j} hi hj hle => ?_)
    rwa [← hallocs i hi, ← hallocs j hj]
  · refine hmem (fun i hi => ?_) ?_
    · rw [hold i hi]
      exact hst.aligned i hi
    · rwa [hself]
  · refine hmem (fun i hi => hmem (fun j hj => ?_) ?_) (hmem (fun j hj => ?_) ?_)
    · rw [hold i hi, hold j hj]
      exact hst.apart i hi j hj
    · intro _ hmeets
      rw [hold i hi, hself]
      exact hclear i hi hmeets
    · intro _ hmeets
      rw [hold j hj, hself]
      exact (hclear j hj hmeets.symm).symm
    · exact fun hne => absurd rfl hne
  · rw [alignedTotal_append]
    refine hmem (fun i hi => ?_) ?_
    · rw [hold i hi]
      exact (hst.reach i hi).trans (Nat.le_add_right _ _)
    · rw [hself]
      exact Nat.add_le_add_right hle _
  · refine hmem (fun i hi => ?_) ?_
    · rw [hold i hi]
      exact (hst.total_ge i hi).trans (le_max_left _ _)
    · rw [hself]
      exact le_max_right _ _
  · refine .inr ?_
    dsimp only
    rcases max_choice st.totalSize (o + usageRecords[idx]!.tensorSize) with h | h
    · rcases hst.total_eq with ⟨-, hzero⟩ | ⟨i, hi, heq⟩
      · have hle' := le_max_right st.totalSize (o + usageRecords[idx]!.tensorSize)
        refine ⟨idx, mem_append_right _ (mem_singleton_self idx), ?_⟩
        rw [h] at hle'
        rw [hself, h]
        omega
      · refine ⟨i, mem_append_left _ hi, ?_⟩
        rw [hold i hi, h, heq]
    · refine ⟨idx, mem_append_right _ (mem_singleton_self idx), ?_⟩
      rw [hself, h]

end

/-! ## The assignment -/

/-- Aligned offsets at which no two tensors in use together overlap, in a block that ends
with one of the tensors. -/
structure OffsetsAssignment.Sound (usageRecords : List (TensorUsageRecord Nat)) (align : Nat)
    (assignment : OffsetsAssignment) : Prop where
  length : assignment.offsets.length = usageRecords.length
  aligned : ∀ i < usageRecords.length, align ∣ assignment.offsets[i]!
  apart : ∀ i < usageRecords.length, ∀ j < usageRecords.length, i ≠ j →
    usageRecords[i]!.Meets usageRecords[j]! →
    assignment.offsets[i]! + usageRecords[i]!.tensorSize ≤ assignment.offsets[j]! ∨
      assignment.offsets[j]! + usageRecords[j]!.tensorSize ≤ assignment.offsets[i]!
  total_ge : ∀ i < usageRecords.length,
    assignment.offsets[i]! + usageRecords[i]!.tensorSize ≤ assignment.totalSize
  total_eq : (usageRecords = [] ∧ assignment.totalSize = 0) ∨ ∃ i < usageRecords.length,
      assignment.totalSize = assignment.offsets[i]! + usageRecords[i]!.tensorSize

section
variable (usageRecords : List (TensorUsageRecord Nat)) (align : Nat)

/-- No check of the total size fails: in the state before each tensor, the end of the tensors
it meets does not exceed the 64 bits of the sum it is compared with. -/
def SizeChecksPass : Prop :=
  ∀ before recWithIdx after, sortBySize (withIndex usageRecords) = before ++ recWithIdx :: after →
    let st := before.foldl (Placing.place usageRecords align) (Placing.initial usageRecords)
    (st.gap usageRecords align recWithIdx.usageRecord).prevOffset ≤ st.sizeBound align

variable {usageRecords align}

theorem idx_withIndex {α : Type} (records : List (TensorUsageRecord α)) :
    (withIndex records).map (·.idx) = List.range records.length := by
  rw [withIndex, List.map_map, range_eq_range']
  exact zipIdx_map_snd 0 records

theorem idx_sortBySize :
    ((sortBySize (withIndex usageRecords)).map (·.idx)).Perm (List.range usageRecords.length) := by
  rw [← idx_withIndex]
  exact (mergeSort_perm _ _).map _

theorem eq_of_mem_withIndex {α : Type} [Inhabited α] {records : List (TensorUsageRecord α)}
    {r : TensorUsageWithIndex α} (h : r ∈ withIndex records) :
    r = ⟨records[r.idx]!, r.idx⟩ ∧ r.idx < records.length := by
  obtain ⟨p, hp, rfl⟩ := mem_map.1 h
  obtain ⟨hlt, heq⟩ := List.getElem?_eq_some_iff.1 (mem_zipIdx_iff_getElem?.1 hp)
  refine ⟨?_, hlt⟩
  rw [getElem!_pos records p.2 hlt, heq]

theorem alignedTotal_range :
    alignedTotal usageRecords align (List.range usageRecords.length)
      = (usageRecords.map fun r => alignUp r.tensorSize align).sum := by
  unfold alignedTotal
  congr 1
  refine ext_getElem (by simp) fun i h1 h2 => ?_
  have hlt : i < usageRecords.length := by simpa using h2
  simp [hlt]

theorem alignedTotal_le {ids ids' : List Nat} (h : (ids ++ ids').Perm
    (List.range usageRecords.length)) :
    alignedTotal usageRecords align ids
      ≤ (usageRecords.map fun r => alignUp r.tensorSize align).sum := by
  rw [← alignedTotal_range]
  unfold alignedTotal
  rw [← (h.map _).sum_eq, map_append, sum_append_nat]
  exact Nat.le_add_right _ _

theorem Placing.step_eq_ok {st st' : Placing} {r : TensorUsageWithIndex Nat}
    (h : st.step usageRecords align r = .ok st') :
    (st.gap usageRecords align r.usageRecord).prevOffset ≤ st.sizeBound align ∧
      st' = st.place usageRecords align r := by
  unfold Placing.step at h
  split at h
  · cases h
  · rename_i hcheck
    cases h
    exact ⟨Nat.le_of_not_lt hcheck, rfl⟩

/-- A tensor whose check passes is placed, so the state stays valid up to the end of the loop
or to the first check that fails. -/
theorem greedyBySize_loop (halign : 0 < align)
    (hsum : (usageRecords.map fun r => alignUp r.tensorSize align).sum < 2 ^ 64) :
    (∃ st, (sortBySize (withIndex usageRecords)).foldlM (Placing.step usageRecords align)
        (Placing.initial usageRecords) = .ok st ∧
      st = (sortBySize (withIndex usageRecords)).foldl (Placing.place usageRecords align)
        (Placing.initial usageRecords) ∧
      st.Valid usageRecords align ((sortBySize (withIndex usageRecords)).map (·.idx))) ∨
    ∃ done r rest st e, sortBySize (withIndex usageRecords) = done ++ r :: rest ∧
      (st = done.foldl (Placing.place usageRecords align) (Placing.initial usageRecords) ∧
        st.Valid usageRecords align (done.map (·.idx))) ∧
      st.step usageRecords align r = .error e ∧
      (sortBySize (withIndex usageRecords)).foldlM (Placing.step usageRecords align)
        (Placing.initial usageRecords) = .error e := by
  refine @foldlM_invariant _ _ _ (fun done st =>
    st = done.foldl (Placing.place usageRecords align) (Placing.initial usageRecords) ∧
      st.Valid usageRecords align (done.map (·.idx))) _ _ _ ⟨rfl, Placing.valid_initial⟩ ?_
  rintro done r rest st st' hl ⟨rfl, hst⟩ hstep
  have hperm := @idx_sortBySize usageRecords
  have hmem : r ∈ withIndex usageRecords := by
    rw [← (mergeSort_perm _ _).mem_iff]
    show r ∈ sortBySize (withIndex usageRecords)
    rw [hl]
    exact mem_append_right _ mem_cons_self
  obtain ⟨hr, hlt⟩ := eq_of_mem_withIndex hmem
  rw [hl, map_append, map_cons] at hperm
  have hnew : r.idx ∉ done.map (·.idx) := by
    have hnodup := hperm.nodup_iff.2 nodup_range
    exact fun h => (nodup_append.1 hnodup).2.2 _ h _ mem_cons_self rfl
  have hsum' : alignedTotal usageRecords align (done.map (·.idx) ++ [r.idx]) < 2 ^ 64 := by
    refine Nat.lt_of_le_of_lt (@alignedTotal_le _ _ _ (rest.map (·.idx)) ?_) hsum
    rwa [append_assoc, singleton_append]
  obtain ⟨-, rfl⟩ := Placing.step_eq_ok hstep
  rw [foldl_append, map_append]
  refine ⟨rfl, ?_⟩
  have hplace := hst.place halign hlt hnew hsum'
  rwa [← hr] at hplace

theorem Placing.Valid.sound {st : Placing} {done : List Nat} (hst : st.Valid usageRecords align done)
    (hdone : done.Perm (List.range usageRecords.length)) :
    OffsetsAssignment.Sound usageRecords align ⟨st.offsets, st.totalSize⟩ := by
  have hmem : ∀ {i}, i < usageRecords.length → i ∈ done :=
    fun h => hdone.mem_iff.2 (mem_range.2 h)
  refine ⟨hst.length, fun i hi => hst.aligned i (hmem hi), fun i hi j hj =>
    hst.apart i (hmem hi) j (hmem hj), fun i hi => hst.total_ge i (hmem hi), ?_⟩
  rcases hst.total_eq with ⟨rfl, hzero⟩ | ⟨i, hi, heq⟩
  · rw [nil_perm, range_eq_nil] at hdone
    exact .inl ⟨length_eq_zero_iff.1 hdone, hzero⟩
  · exact .inr ⟨i, mem_range.1 (hdone.mem_iff.1 hi), heq⟩

theorem sizeChecksPass_of_ok {st : Placing}
    (h : (sortBySize (withIndex usageRecords)).foldlM (Placing.step usageRecords align)
      (Placing.initial usageRecords) = .ok st) : SizeChecksPass usageRecords align := by
  intro before r after hl
  rw [hl] at h
  obtain ⟨c, d, hc, hd⟩ := foldlM_ok_split h
  rw [← foldlM_eq_foldl (fun _ _ _ h => (Placing.step_eq_ok h).2) hc]
  exact (Placing.step_eq_ok hd).1

/-- Seven tensors of aligned size below 2^64 in all, for which the sum wraps at the last. -/
def wrappingRecords : List (TensorUsageRecord Nat) :=
  ⟨2 ^ 64 - 2048, 0, 0⟩ :: List.replicate 6 ⟨1, 0, 0⟩

end

end LiteRt.Gpu
