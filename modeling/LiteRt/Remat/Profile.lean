import LiteRt.Remat.Cloning

/-!
# Memory profiles

A profile is a running sum of what operations allocate and of what their predecessors
deallocate, corrected by deltas when a rematerialization is only simulated. It is the sum of
the sizes of the tensors in use, plus the deltas passed so far.
-/

namespace LiteRt.Remat

open LiteRt.Lib RematSpec List

structure MemSpec where
  opIndex : Nat := 0
  size : Int := 0
  deriving DecidableEq, Repr

namespace MemSpec

def bySize (a b : MemSpec) : Prop := a.size < b.size ∨ a.size = b.size ∧ a.opIndex < b.opIndex

instance (a b : MemSpec) : Decidable (bySize a b) :=
  inferInstanceAs (Decidable (_ ∨ _ ∧ _))

/-- `std::sort` of the deltas. -/
def sortByOpIndex (deltas : List MemSpec) : List MemSpec :=
  deltas.mergeSort fun a b => decide (a.opIndex < b.opIndex ∨ a.opIndex = b.opIndex ∧ a.size ≤ b.size)

end MemSpec

/-- First and last use of a tensor within a contiguous range of operations. -/
structure TensorUse where
  firstUse : Nat
  lastUse : Nat
  deriving DecidableEq, Repr

/-- A use in the source range: insertion only happens for the first one, the last one is
updated. The entries are kept in the order of the tensors. -/
def emplaceUse (ioperation : Nat) : List (Nat × TensorUse) → Nat → List (Nat × TensorUse)
  | [], itensor => [(itensor, ⟨ioperation, ioperation⟩)]
  | entry :: rest, itensor =>
    if entry.1 < itensor then entry :: emplaceUse ioperation rest itensor
    else if entry.1 = itensor then (entry.1, ⟨entry.2.firstUse, ioperation⟩) :: rest
    else (itensor, ⟨ioperation, ioperation⟩) :: entry :: rest

namespace Rematerializer

def sourceUses (s : Rematerializer) (remat : RematSpec) : List (Nat × TensorUse) :=
  (List.range' remat.begin remat.len).foldl (fun uses ioperation =>
    (s.operations.getD ioperation default).tensors.foldl (emplaceUse ioperation) uses) []

/-- The changes for one tensor of the source range. -/
def tensorDeltas (s : Rematerializer) (remat : RematSpec) (entry : Nat × TensorUse) :
    List MemSpec :=
  let tensor := s.tensors.getD entry.1 default
  let source := entry.2
  let sourceToTarget := fun i : Nat => i + (remat.insert - remat.begin)
  let addAlloc := fun pos : Nat => MemSpec.mk pos tensor.size
  let addDealloc := fun pos : Nat => MemSpec.mk (pos + 1) (-tensor.size)
  let delDealloc := fun pos : Nat => MemSpec.mk (pos + 1) tensor.size
  if tensor.firstUse < remat.begin then
    if tensor.lastUse < remat.insert then
      [delDealloc tensor.lastUse, addDealloc (sourceToTarget source.lastUse)]
    else []
  else
    [addAlloc (sourceToTarget source.firstUse),
      if tensor.lastUse < remat.insert then addDealloc (sourceToTarget source.lastUse)
      else
        addDealloc ((tensor.operations.reverse.dropWhile fun i =>
          decide (remat.insert ≤ i)).headD 0)]

def getDeltas (s : Rematerializer) (remat : RematSpec) : List MemSpec :=
  if remat.begin = remat.stop then []
  else MemSpec.sortByOpIndex ((s.sourceUses remat).flatMap (s.tensorDeltas remat))

end Rematerializer

/-- Applies the corrections at the front that are for the current operation. -/
def applyDeltas (opIndex : Nat) : Int → List MemSpec → Int × List MemSpec
  | size, [] => (size, [])
  | size, delta :: deltas =>
    if delta.opIndex = opIndex then applyDeltas opIndex (size + delta.size) deltas
    else (size, delta :: deltas)

namespace Rematerializer

/-- The specs of the next `n` operations. In the cloned portion all information comes from the
deltas, past it indices are converted back to the original sequence. -/
def mapMemFrom (s : Rematerializer) (remat : RematSpec) :
    Nat → MemSpec → List MemSpec → List MemSpec
  | 0, _, _ => []
  | n + 1, m, deltas =>
    let patch := remat.insert ≤ m.opIndex ∧ m.opIndex < remat.insert + remat.len
    let shift := if remat.insert + remat.len ≤ m.opIndex then remat.len else 0
    let operation := s.operations.getD (m.opIndex - shift) default
    let applied :=
      applyDeltas m.opIndex (m.size + if patch then 0 else operation.alloc) deltas
    ⟨m.opIndex, applied.1⟩ :: mapMemFrom s remat n
      ⟨m.opIndex + 1, applied.1 - if patch then 0 else operation.dealloc⟩ applied.2

def mapMem (s : Rematerializer) (remat : RematSpec) : List MemSpec :=
  s.mapMemFrom remat (s.operations.length + remat.len) {} (s.getDeltas remat)

def getMemProfile (s : Rematerializer) (remat : RematSpec) : List Int :=
  (s.mapMem remat).foldl (fun profile m => profile.set m.opIndex m.size)
    (List.replicate (s.operations.length + remat.len) 0)

def getPeakMemory (s : Rematerializer) (remat : RematSpec) : MemSpec :=
  (s.mapMem remat).foldl (fun peak m => if MemSpec.bySize m peak then peak else m) {}

end Rematerializer

/-! ## Tensors in use -/

/-- The size of a tensor whose first use, moved by `moved`, is before `i`. -/
def startedBefore (moved : Nat → Nat) (i : Nat) (tensor : Tensor) : Int :=
  if ∃ o ∈ tensor.operations.head?, moved o < i then tensor.size else 0

/-- The size of a tensor whose last use, moved by `moved`, is before `i`. -/
def endedBefore (moved : Nat → Nat) (i : Nat) (tensor : Tensor) : Int :=
  if ∃ o ∈ tensor.operations.getLast?, moved o < i then tensor.size else 0

/-- What is allocated for the tensors before operation `i`. -/
def allocatedBefore (s : Rematerializer) (remat : RematSpec) (i : Nat) : Int :=
  (s.tensors.map (startedBefore remat.shifted i)).sum -
    (s.tensors.map (endedBefore remat.shifted i)).sum

/-- What is in use during operation `i`. -/
def inUse (s : Rematerializer) (remat : RematSpec) (i : Nat) : Int :=
  (s.tensors.map (startedBefore remat.shifted (i + 1))).sum -
    (s.tensors.map (endedBefore remat.shifted i)).sum

def deltasBefore (i : Nat) (deltas : List MemSpec) : Int :=
  ((deltas.filter fun delta => decide (delta.opIndex < i)).map MemSpec.size).sum

/-- An operation after the insertion is inserted or an old one, moved. -/
theorem shifted_cases (remat : RematSpec) (i : Nat) :
    (remat.insert ≤ i ∧ i < remat.insert + remat.len) ∧ (∀ o, remat.shifted o ≠ i) ∨
      ¬ (remat.insert ≤ i ∧ i < remat.insert + remat.len) ∧
        remat.shifted (i - if remat.insert + remat.len ≤ i then remat.len else 0) = i := by
  unfold shifted
  by_cases hgap : remat.insert ≤ i ∧ i < remat.insert + remat.len
  · refine .inl ⟨hgap, fun o => ?_⟩
    split <;> omega
  · refine .inr ⟨hgap, ?_⟩
    split <;> split <;> omega

section
variable {s : Rematerializer} {remat : RematSpec} {i : Nat} {deltas : List MemSpec} {o : Nat}

theorem startedBefore_succ (i : Nat) (tensor : Tensor) (ho : remat.shifted o = i) :
    startedBefore remat.shifted (i + 1) tensor =
      startedBefore remat.shifted i tensor + firstAt o tensor := by
  subst ho
  unfold startedBefore firstAt
  cases tensor.operations.head? with
  | none => simp
  | some x =>
    simp only [Option.mem_def, Option.some_inj, exists_eq_left', Nat.lt_succ_iff_lt_or_eq,
      shifted_inj]
    by_cases hx : x = o
    · simp [hx]
    · simp [hx]

theorem endedBefore_succ (i : Nat) (tensor : Tensor) (ho : remat.shifted o = i) :
    endedBefore remat.shifted (i + 1) tensor =
      endedBefore remat.shifted i tensor + lastAt o tensor := by
  subst ho
  unfold endedBefore lastAt
  cases tensor.operations.getLast? with
  | none => simp
  | some x =>
    simp only [Option.mem_def, Option.some_inj, exists_eq_left', Nat.lt_succ_iff_lt_or_eq,
      shifted_inj]
    by_cases hx : x = o
    · simp [hx]
    · simp [hx]

/-- No tensor starts or ends at an inserted operation. -/
theorem before_succ_of_gap (h : ∀ o, remat.shifted o ≠ i) (tensor : Tensor) :
    startedBefore remat.shifted (i + 1) tensor = startedBefore remat.shifted i tensor ∧
      endedBefore remat.shifted (i + 1) tensor = endedBefore remat.shifted i tensor := by
  have hlt : ∀ o, remat.shifted o < i + 1 ↔ remat.shifted o < i := by
    intro o
    have := h o
    omega
  unfold startedBefore endedBefore
  simp only [hlt, and_self]

theorem allocated_at (h : s.Valid) (hv : remat.insert ≤ s.operations.length)
    (hi : i < s.operations.length + remat.len) :
    inUse s remat i = allocatedBefore s remat i +
      (if remat.insert ≤ i ∧ i < remat.insert + remat.len then 0 else
        (s.operations.getD (i - if remat.insert + remat.len ≤ i then remat.len else 0)
          default).alloc) ∧
    allocatedBefore s remat (i + 1) = inUse s remat i -
      (if remat.insert ≤ i ∧ i < remat.insert + remat.len then 0 else
        (s.operations.getD (i - if remat.insert + remat.len ≤ i then remat.len else 0)
          default).dealloc) := by
  unfold inUse allocatedBefore
  rcases shifted_cases remat i with ⟨hgap, hnone⟩ | ⟨hgap, hsome⟩
  · rw [if_pos hgap, if_pos hgap]
    have hstarted := funext fun tensor => (before_succ_of_gap hnone tensor).1
    have hended := funext fun tensor => (before_succ_of_gap hnone tensor).2
    rw [hstarted, hended, add_zero, sub_zero]
    exact ⟨rfl, rfl⟩
  · rw [if_neg hgap, if_neg hgap]
    have hlt : (i - if remat.insert + remat.len ≤ i then remat.len else 0) <
        s.operations.length := by
      split <;> omega
    have hget := getElem?_eq_getElem hlt
    rw [getD_eq_getElem?_getD, hget, Option.getD_some, h.alloc hget, h.dealloc hget]
    generalize hold : (i - if remat.insert + remat.len ≤ i then remat.len else 0) = o at hsome ⊢
    have hstarted : startedBefore remat.shifted (i + 1) = fun tensor =>
        startedBefore remat.shifted i tensor + firstAt o tensor :=
      funext fun tensor => startedBefore_succ i tensor hsome
    have hended : endedBefore remat.shifted (i + 1) = fun tensor =>
        endedBefore remat.shifted i tensor + lastAt o tensor :=
      funext fun tensor => endedBefore_succ i tensor hsome
    rw [hstarted, hended, sum_map_add, sum_map_add]
    omega

/-! ## Applying the deltas -/

theorem deltasBefore_cons (i : Nat) (delta : MemSpec) (deltas : List MemSpec) :
    deltasBefore i (delta :: deltas) =
      (if delta.opIndex < i then delta.size else 0) + deltasBefore i deltas := by
  unfold deltasBefore
  rw [filter_cons]
  by_cases h : delta.opIndex < i
  · simp [h]
  · simp [h]

theorem deltasBefore_eq_zero (h : ∀ delta ∈ deltas, i ≤ delta.opIndex) :
    deltasBefore i deltas = 0 := by
  unfold deltasBefore
  rw [filter_eq_nil_iff.2 fun delta hin => by simpa using h delta hin]
  rfl

/-- The deltas for later operations stay. -/
theorem applyDeltas_sorted {size : Int} (hsorted : deltas.Pairwise fun a b => a.opIndex ≤ b.opIndex)
    (hge : ∀ delta ∈ deltas, i ≤ delta.opIndex) :
    applyDeltas i size deltas = (size + deltasBefore (i + 1) deltas,
      deltas.filter fun delta => decide (i < delta.opIndex)) := by
  induction deltas generalizing size with
  | nil => simp [applyDeltas, deltasBefore]
  | cons delta deltas ih =>
    obtain ⟨hle, hsorted⟩ := pairwise_cons.1 hsorted
    have hge' : ∀ d ∈ deltas, i ≤ d.opIndex := fun d hd => hge d (mem_cons_of_mem _ hd)
    unfold applyDeltas
    by_cases heq : delta.opIndex = i
    · have hnot : ¬ i < delta.opIndex := by omega
      have hlt : delta.opIndex < i + 1 := by omega
      rw [if_pos heq, ih hsorted hge', deltasBefore_cons, if_pos hlt, filter_cons]
      simp only [hnot, decide_false, Bool.false_eq_true, if_false, add_assoc]
    · have hlt : i < delta.opIndex := lt_of_le_of_ne (hge delta mem_cons_self) (Ne.symm heq)
      have hafter : ∀ d ∈ delta :: deltas, i + 1 ≤ d.opIndex := by
        intro d hd
        rcases mem_cons.1 hd with rfl | hd
        · exact hlt
        · exact lt_of_lt_of_le hlt (hle d hd)
      rw [if_neg heq, deltasBefore_eq_zero hafter, add_zero, filter_eq_self.2]
      intro d hd
      exact decide_eq_true (hafter d hd)

/-- The deltas applied at `i` and those left are those left before. -/
theorem deltasBefore_succ (i : Nat) (deltas : List MemSpec) :
    deltasBefore (i + 1) deltas = deltasBefore i deltas +
      deltasBefore (i + 1) (deltas.filter fun delta => decide (i ≤ delta.opIndex)) := by
  induction deltas with
  | nil => rfl
  | cons delta deltas ih =>
    rw [deltasBefore_cons, deltasBefore_cons, ih, filter_cons]
    by_cases h : i ≤ delta.opIndex
    · have hnot : ¬ delta.opIndex < i := not_lt.2 h
      simp only [h, decide_true, if_true, deltasBefore_cons, hnot, if_false]
      omega
    · have hlt : delta.opIndex < i := not_le.1 h
      have hlt' : delta.opIndex < i + 1 := by omega
      simp only [h, decide_false, Bool.false_eq_true, if_false, hlt, hlt', if_true]
      omega

theorem mapMemFrom_eq (h : s.Valid) (hv : remat.insert ≤ s.operations.length)
    (hsorted : deltas.Pairwise fun a b => a.opIndex ≤ b.opIndex) (n i : Nat)
    (hn : i + n = s.operations.length + remat.len) :
    s.mapMemFrom remat n ⟨i, allocatedBefore s remat i + deltasBefore i deltas⟩
        (deltas.filter fun delta => decide (i ≤ delta.opIndex)) =
      (List.range' i n).map fun j => ⟨j, inUse s remat j + deltasBefore (j + 1) deltas⟩ := by
  induction n generalizing i with
  | zero => rfl
  | succ n ih =>
    obtain ⟨halloc, hdealloc⟩ := allocated_at h hv (i := i) (by omega)
    have hleft : ((deltas.filter fun delta => decide (i ≤ delta.opIndex)).filter
        fun delta => decide (i < delta.opIndex)) =
        deltas.filter fun delta => decide (i + 1 ≤ delta.opIndex) := by
      rw [filter_filter]
      refine filter_congr fun delta _ => ?_
      rw [Bool.eq_iff_iff]
      simp only [Bool.and_eq_true, decide_eq_true_eq]
      omega
    have happly : ∀ size, applyDeltas i size (deltas.filter fun delta =>
        decide (i ≤ delta.opIndex)) = (size + deltasBefore (i + 1)
          (deltas.filter fun delta => decide (i ≤ delta.opIndex)),
          deltas.filter fun delta => decide (i + 1 ≤ delta.opIndex)) := by
      intro size
      rw [applyDeltas_sorted (hsorted.filter _) fun delta hin => by
        simpa using (mem_filter.1 hin).2, hleft]
    have hsize : allocatedBefore s remat i + deltasBefore i deltas +
        (if remat.insert ≤ i ∧ i < remat.insert + remat.len then 0 else
          (s.operations.getD (i - if remat.insert + remat.len ≤ i then remat.len else 0)
            default).alloc) +
        deltasBefore (i + 1) (deltas.filter fun delta => decide (i ≤ delta.opIndex)) =
        inUse s remat i + deltasBefore (i + 1) deltas := by
      rw [halloc, deltasBefore_succ i deltas]
      omega
    unfold Rematerializer.mapMemFrom
    dsimp only
    rw [happly]
    dsimp only
    rw [hsize, range'_succ, map_cons, ← ih (i + 1) (by omega), hdealloc]
    congr 3
    exact add_sub_right_comm _ _ _

/-- The specs of all operations. -/
theorem mapMem_eq (h : s.Valid) (hv : remat.insert ≤ s.operations.length) :
    s.mapMem remat = (List.range (s.operations.length + remat.len)).map fun j =>
      ⟨j, inUse s remat j + deltasBefore (j + 1) (s.getDeltas remat)⟩ := by
  have hsorted : (s.getDeltas remat).Pairwise fun a b => a.opIndex ≤ b.opIndex := by
    unfold Rematerializer.getDeltas
    split
    · exact .nil
    · exact (pairwise_mergeSort_decide (by omega) (by omega) _).imp (by omega)
  have hstart : allocatedBefore s remat 0 + deltasBefore 0 (s.getDeltas remat) = 0 := by
    unfold allocatedBefore startedBefore endedBefore
    rw [deltasBefore_eq_zero fun _ _ => Nat.zero_le _]
    simp
  have hall : (s.getDeltas remat).filter (fun delta => decide (0 ≤ delta.opIndex)) =
      s.getDeltas remat := filter_eq_self.2 fun _ _ => by simp
  have heq := mapMemFrom_eq h hv hsorted (s.operations.length + remat.len) 0 (Nat.zero_add _)
  rw [hstart, hall, ← range_eq_range'] at heq
  exact heq

/-- Setting every entry once, in order. -/
theorem foldl_set_range (n : Nat) (g : Nat → Int) :
    (List.range n).foldl (fun profile j => profile.set j (g j)) (List.replicate n 0) =
      (List.range n).map g := by
  suffices h : ∀ k, k ≤ n → (List.range k).foldl (fun profile j => profile.set j (g j))
      (List.replicate n 0) = (List.range k).map g ++ List.replicate (n - k) 0 by
    rw [h n (le_refl n), Nat.sub_self, replicate_zero, append_nil]
  intro k
  induction k with
  | zero => exact fun _ => rfl
  | succ k ih =>
    intro hk
    have hrest : n - k = n - (k + 1) + 1 := by omega
    have hlen : ((List.range k).map g).length = k := by simp
    rw [range_succ, foldl_append, ih (by omega), foldl_cons, foldl_nil, hrest,
      replicate_succ, set_append_right _ _ hlen.le, hlen, Nat.sub_self, map_append,
      append_assoc]
    rfl

theorem getMemProfile_eq (h : s.Valid) (hv : remat.insert ≤ s.operations.length) :
    s.getMemProfile remat = (List.range (s.operations.length + remat.len)).map fun j =>
      inUse s remat j + deltasBefore (j + 1) (s.getDeltas remat) := by
  unfold Rematerializer.getMemProfile
  rw [mapMem_eq h hv, foldl_map]
  exact foldl_set_range _ _

/-! ## The current profile -/

/-- The tensor is in use during operation `i`. -/
def Tensor.UsedAt (i : Nat) (tensor : Tensor) : Prop :=
  tensor.operations ≠ [] ∧ tensor.firstUse ≤ i ∧ i ≤ tensor.lastUse

instance (i : Nat) (tensor : Tensor) : Decidable (tensor.UsedAt i) :=
  inferInstanceAs (Decidable (_ ∧ _ ∧ _))

theorem shifted_nil (o : Nat) : shifted {} o = o := by
  unfold shifted
  split <;> rfl

theorem startedBefore_eq {tensor : Tensor} (hsorted : tensor.operations.Pairwise (· < ·))
    (i : Nat) :
    startedBefore (shifted {}) (i + 1) tensor = endedBefore (shifted {}) i tensor +
        if tensor.UsedAt i then tensor.size else 0 := by
  unfold startedBefore endedBefore Tensor.UsedAt
  by_cases hne : tensor.operations = []
  · simp [hne]
  · obtain ⟨hhead, hlast, hle⟩ := firstUse_le_lastUse hsorted hne
    simp only [hhead, hlast, Option.mem_def, Option.some_inj, exists_eq_left', shifted_nil, hne,
      not_false_iff, ne_eq, true_and]
    split <;> split <;> split <;> omega

theorem sum_filter {l : List Tensor} (p : Tensor → Prop) [DecidablePred p] :
    (l.map fun tensor => if p tensor then tensor.size else 0).sum =
      ((l.filter fun tensor => decide (p tensor)).map Tensor.size).sum := by
  induction l with
  | nil => rfl
  | cons tensor l ih =>
    rw [map_cons, sum_cons, ih, filter_cons]
    by_cases h : p tensor
    · simp [h]
    · simp [h]

theorem inUse_nil (h : s.Valid) (i : Nat) :
    inUse s {} i =
      ((s.tensors.filter fun tensor => decide (tensor.UsedAt i)).map Tensor.size).sum := by
  have heq : s.tensors.map (startedBefore (shifted {}) (i + 1)) =
      s.tensors.map fun tensor => endedBefore (shifted {}) i tensor +
        if tensor.UsedAt i then tensor.size else 0 := by
    refine map_congr_left fun tensor hin => ?_
    obtain ⟨t, ht⟩ := mem_iff_getElem?.1 hin
    exact startedBefore_eq (h.tensor_sorted ht) i
  unfold inUse
  rw [heq, sum_map_add, sum_filter]
  omega

/-- Without a rematerialization the specs are what the tensors in use take. -/
theorem mapMem_nil (h : s.Valid) :
    s.mapMem {} = (List.range s.operations.length).map fun i => ⟨i, inUse s {} i⟩ := by
  rw [mapMem_eq h (Nat.zero_le _)]
  exact map_congr_left fun i _ => congrArg (MemSpec.mk i) (add_zero _)

theorem getMemProfile_nil (h : s.Valid) :
    s.getMemProfile {} = (List.range s.operations.length).map fun i =>
      ((s.tensors.filter fun tensor => decide (tensor.UsedAt i)).map Tensor.size).sum := by
  rw [getMemProfile_eq h (Nat.zero_le _)]
  refine map_congr_left fun i _ => ?_
  rw [← inUse_nil h]
  exact add_zero _

end

/-! ## Runs -/

inductive Edit where
  | addOperation (isStateful : Bool)
  | addTensor (size : Int)
  | addUse (ioperation itensor : Nat)
  | delUse (ioperation itensor : Nat)
  | remat (spec : RematSpec)
  deriving DecidableEq, Repr

namespace Edit

/-- The arguments are valid indices, a spec is valid for the operations there are. -/
def Allowed (s : Rematerializer) : Edit → Prop
  | addUse ioperation itensor | delUse ioperation itensor =>
    ioperation < s.operations.length ∧ itensor < s.tensors.length
  | remat spec => spec.Valid s.operations.length
  | _ => True

def step (s : Rematerializer) : Edit → Option Rematerializer
  | addOperation isStateful => some (s.addOperation isStateful)
  | addTensor size => some (s.addTensor size)
  | addUse ioperation itensor => some (s.addUse ioperation itensor)
  | delUse ioperation itensor => some (s.delUse ioperation itensor)
  | remat spec => some (s.remat spec)

end Edit

theorem Rematerializer.Valid.step {s s' : Rematerializer} {edit : Edit} (ha : Edit.Allowed s edit)
    (hs : Edit.step s edit = some s') (h : s.Valid) : s'.Valid := by
  cases edit with
  | addOperation isStateful =>
    cases hs
    exact h.addOperation isStateful
  | addTensor size =>
    cases hs
    exact h.addTensor size
  | addUse ioperation itensor =>
    cases hs
    exact h.addUse ha.1 ha.2
  | delUse ioperation itensor =>
    cases hs
    exact h.delUse ha.1 ha.2
  | remat spec =>
    cases hs
    exact h.remat ha

theorem valid_of_run {edits : List Edit} {s : Rematerializer}
    (run : Run Edit.Allowed Edit.step {} edits s) : s.Valid :=
  run.invariant (fun _ _ _ ha hs h => h.step ha hs) Rematerializer.valid_empty

end LiteRt.Remat
