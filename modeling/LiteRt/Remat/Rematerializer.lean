import LiteRt.Lib.Run
import LiteRt.Lib.SortedVector
import Mathlib.Algebra.BigOperators.Group.List.Basic
import Mathlib.Algebra.Group.Int.Defs
import Mathlib.Algebra.Group.Nat.Defs
import Mathlib.Data.Nat.Basic

/-!
# The rematerializer

Tensors know the operations that use them and operations the tensors they use, both as
vectors kept sorted and unique. What an operation allocates and deallocates is kept up to date
as first and last uses change.
-/

namespace LiteRt.Remat

open LiteRt.Lib List

variable {tensor : Tensor} {a : Nat} {l : List Nat} {s : Rematerializer} {o t : Nat}

structure Tensor where
  size : Int := 0
  operations : List Nat := []
  deriving DecidableEq, Repr, Inhabited

namespace Tensor

/-- `*operations.begin()`, of a tensor with uses. -/
def firstUse (tensor : Tensor) : Nat := tensor.operations.headD 0

/-- `*operations.rbegin()`, of a tensor with uses. -/
def lastUse (tensor : Tensor) : Nat := tensor.operations.getLastD 0

end Tensor

structure Operation where
  isStateful : Bool := false
  tensors : List Nat := []
  alloc : Int := 0
  dealloc : Int := 0
  deriving DecidableEq, Repr, Inhabited

structure Rematerializer where
  operations : List Operation := []
  tensors : List Tensor := []
  deriving DecidableEq, Repr

/-- The operations from `begin` up to `stop`, without it, are cloned before `insert`. -/
structure RematSpec where
  begin : Nat := 0
  stop : Nat := 0
  insert : Nat := 0
  deriving DecidableEq, Repr

namespace RematSpec

def len (remat : RematSpec) : Nat := remat.stop - remat.begin

/-- Whether the spec is valid for so many operations. -/
def Valid (remat : RematSpec) (numOperations : Nat) : Prop :=
  remat.begin ≤ remat.stop ∧ remat.stop ≤ remat.insert ∧ remat.insert ≤ numOperations

instance (remat : RematSpec) (numOperations : Nat) : Decidable (remat.Valid numOperations) :=
  inferInstanceAs (Decidable (_ ∧ _ ∧ _))

end RematSpec

/-! ## Uses -/

def addAlloc (operations : List Operation) (i : Nat) (size : Int) : List Operation :=
  operations.modify i fun operation => { operation with alloc := operation.alloc + size }

def addDealloc (operations : List Operation) (i : Nat) (size : Int) : List Operation :=
  operations.modify i fun operation => { operation with dealloc := operation.dealloc + size }

namespace Rematerializer

def addOperation (s : Rematerializer) (isStateful : Bool) : Rematerializer :=
  { s with operations := s.operations ++ [{ isStateful := isStateful }] }

def addTensor (s : Rematerializer) (size : Int) : Rematerializer :=
  { s with tensors := s.tensors ++ [{ size := size }] }

def delUse (s : Rematerializer) (ioperation itensor : Nat) : Rematerializer :=
  let tensor := s.tensors.getD itensor default
  let wasFirstUse := tensor.operations ≠ [] ∧ ioperation = tensor.firstUse
  let wasLastUse := tensor.operations ≠ [] ∧ ioperation = tensor.lastUse
  let rest : Tensor := { tensor with operations := eraseSorted ioperation tensor.operations }
  let operations := s.operations.modify ioperation fun operation =>
    { operation with tensors := eraseSorted itensor operation.tensors }
  let operations :=
    if wasFirstUse then
      let operations := addAlloc operations ioperation (-tensor.size)
      if ¬ wasLastUse then addAlloc operations rest.firstUse tensor.size else operations
    else operations
  let operations :=
    if wasLastUse then
      let operations := addDealloc operations ioperation (-tensor.size)
      if ¬ wasFirstUse then addDealloc operations rest.lastUse tensor.size else operations
    else operations
  { operations := operations
    tensors := s.tensors.modify itensor fun _ => rest }

def addUse (s : Rematerializer) (ioperation itensor : Nat) : Rematerializer :=
  let tensor := s.tensors.getD itensor default
  let willBeFirstUse := tensor.operations = [] ∨ ioperation < tensor.firstUse
  let willBeLastUse := tensor.operations = [] ∨ tensor.lastUse < ioperation
  let operations := s.operations
  let operations :=
    if willBeFirstUse then
      let operations := addAlloc operations ioperation tensor.size
      if ¬ willBeLastUse then addAlloc operations tensor.firstUse (-tensor.size) else operations
    else operations
  let operations :=
    if willBeLastUse then
      let operations := addDealloc operations ioperation tensor.size
      if ¬ willBeFirstUse then addDealloc operations tensor.lastUse (-tensor.size) else operations
    else operations
  { operations := operations.modify ioperation fun operation =>
      { operation with tensors := insertSorted itensor operation.tensors }
    tensors := s.tensors.modify itensor fun _ =>
      { tensor with operations := insertSorted ioperation tensor.operations } }

/-! ## Rematerialization -/

/-- Rewrites the operation indices from `remat.insert` on and inserts fresh operations. -/
def insertOperations (s : Rematerializer) (remat : RematSpec) : Rematerializer :=
  { operations := s.operations.take remat.insert ++ List.replicate remat.len {} ++
      s.operations.drop remat.insert
    tensors := s.tensors.map fun tensor => { tensor with
      operations := tensor.operations.map fun iop =>
        if remat.insert ≤ iop then iop + remat.len else iop } }

/-- Copies a use of the old region; a tensor created there gets a new tensor. -/
def copyUse (iopOld iopNew : Nat) (acc : Rematerializer × List (Nat × Nat)) (itensor : Nat) :
    Rematerializer × List (Nat × Nat) :=
  let tensor := acc.1.tensors.getD itensor default
  let acc :=
    if tensor.firstUse = iopOld then
      (acc.1.addTensor tensor.size, acc.2 ++ [(itensor, acc.1.tensors.length)])
    else acc
  (acc.1.addUse iopNew itensor, acc.2)

def copyOperation (remat : RematSpec) (acc : Rematerializer × List (Nat × Nat)) (k : Nat) :
    Rematerializer × List (Nat × Nat) :=
  (acc.1.operations.getD (remat.begin + k) default).tensors.foldl
    (copyUse (remat.begin + k) (remat.insert + k)) acc

/-- `std::sort` of pairs. -/
def sortPairs (newTensors : List (Nat × Nat)) : List (Nat × Nat) :=
  newTensors.mergeSort fun a b => decide (a.1 < b.1 ∨ a.1 = b.1 ∧ a.2 ≤ b.2)

/-- The new tensor for an old one, at the `lower_bound` of `(oldTensor, 0)`. -/
def lookupNewTensor (newTensors : List (Nat × Nat)) (oldTensor : Nat) : Option Nat :=
  match newTensors.dropWhile fun entry => decide (entry.1 < oldTensor) with
  | [] => none
  | entry :: _ => if entry.1 = oldTensor then some entry.2 else none

def moveUse (newTensors : List (Nat × Nat)) (iop : Nat) (s : Rematerializer) (oldTensor : Nat) :
    Rematerializer :=
  match lookupNewTensor newTensors oldTensor with
  | none => s
  | some newTensor => (s.delUse iop oldTensor).addUse iop newTensor

def moveUses (newTensors : List (Nat × Nat)) (s : Rematerializer) (iop : Nat) : Rematerializer :=
  (s.operations.getD iop default).tensors.foldl (moveUse newTensors iop) s

def remat (s : Rematerializer) (remat : RematSpec) : Rematerializer :=
  let copied := (List.range remat.len).foldl (copyOperation remat) (s.insertOperations remat, [])
  (List.range' remat.insert (copied.1.operations.length - remat.insert)).foldl
    (moveUses (sortPairs copied.2)) copied.1

end Rematerializer

/-! ## What a use changes -/

/-- The size a tensor has an operation allocate. -/
def firstAt (i : Nat) (tensor : Tensor) : Int :=
  if tensor.operations.head? = some i then tensor.size else 0

/-- The size a tensor has an operation deallocate. -/
def lastAt (i : Nat) (tensor : Tensor) : Int :=
  if tensor.operations.getLast? = some i then tensor.size else 0

theorem getElem?_addAlloc (operations : List Operation) (i j : Nat) (size : Int) :
    (addAlloc operations i size)[j]? = operations[j]?.map fun operation =>
      { operation with alloc := operation.alloc + if i = j then size else 0 } := by
  unfold addAlloc
  rw [getElem?_modify]
  by_cases h : i = j
  · simp [h]
  · simp [h]

theorem getElem?_addDealloc (operations : List Operation) (i j : Nat) (size : Int) :
    (addDealloc operations i size)[j]? = operations[j]?.map fun operation =>
      { operation with dealloc := operation.dealloc + if i = j then size else 0 } := by
  unfold addDealloc
  rw [getElem?_modify]
  by_cases h : i = j
  · simp [h]
  · simp [h]

/-- The use of tensor `t` by operation `o` comes or goes: each operation allocates and
deallocates as the first and the last use of the tensor tell. -/
structure ChangesUse (s s' : Rematerializer) (o t : Nat) (old new : Tensor)
    (uses : List Nat → List Nat) : Prop where
  size : new.size = old.size
  tensors : s'.tensors = s.tensors.modify t fun _ => new
  operations : ∀ j : Nat, s'.operations[j]? = s.operations[j]?.map fun operation =>
    { operation with
      tensors := if o = j then uses operation.tensors else operation.tensors
      alloc := operation.alloc + (firstAt j new - firstAt j old)
      dealloc := operation.dealloc + (lastAt j new - lastAt j old) }

theorem head?_insertSorted (a : Nat) (l : List Nat) :
    (insertSorted a l).head? = if l = [] ∨ a < l.headD 0 then some a else l.head? := by
  cases l with
  | nil => simp [insertSorted]
  | cons b l =>
    rw [insertSorted_cons]
    rcases Nat.lt_trichotomy b a with h | h | h
    · simp [h, Nat.lt_asymm h]
    · simp [h]
    · simp [h, Nat.lt_asymm h, Nat.ne_of_gt h]

theorem getLast?_insertSorted (hl : l.Pairwise (· < ·)) :
    (insertSorted a l).getLast? = if l = [] ∨ l.getLastD 0 < a then some a else l.getLast? := by
  rcases l.eq_nil_or_concat with rfl | ⟨init, b, rfl⟩
  · simp [insertSorted]
  · rw [concat_eq_append] at hl ⊢
    have hlast := (getLast?_eq_some_iff_greatest hl).1 getLast?_concat
    have hne : init ++ [b] ≠ [] := by simp
    rw [getLastD_concat]
    split
    · rename_i h
      have hlt : b < a := h.resolve_left hne
      refine (getLast?_eq_some_iff_greatest (insertSorted_pairwise hl)).2
        ⟨mem_insertSorted.2 (.inl rfl), fun x hx => ?_⟩
      rcases mem_insertSorted.1 hx with rfl | hx
      · exact le_refl _
      · exact (hlast.2 x hx).trans hlt.le
    · rename_i h
      have hle : a ≤ b := not_lt.1 fun hlt => h (.inr hlt)
      rw [getLast?_concat]
      refine (getLast?_eq_some_iff_greatest (insertSorted_pairwise hl)).2
        ⟨mem_insertSorted.2 (.inr hlast.1), fun x hx => ?_⟩
      rcases mem_insertSorted.1 hx with rfl | hx
      · exact hle
      · exact hlast.2 x hx

theorem firstUse_le_lastUse (hl : tensor.operations.Pairwise (· < ·))
    (hne : tensor.operations ≠ []) :
    tensor.operations.head? = some tensor.firstUse ∧
      tensor.operations.getLast? = some tensor.lastUse ∧ tensor.firstUse ≤ tensor.lastUse := by
  obtain ⟨size, operations⟩ := tensor
  cases operations with
  | nil => exact absurd rfl hne
  | cons b l =>
    have hlast : (b :: l).getLast? = some ((b :: l).getLastD 0) := by
      rw [getLast?_eq_some_getLast hne, getLastD_eq_getLast?, getLast?_eq_some_getLast hne]
      rfl
    exact ⟨rfl, hlast, ((head?_eq_some_iff_least hl).1 rfl).2 _
      ((getLast?_eq_some_iff_greatest hl).1 hlast).1⟩

theorem firstAt_insertSorted (hl : tensor.operations.Pairwise (· < ·)) (o j : Nat) :
    firstAt j { tensor with operations := insertSorted o tensor.operations } - firstAt j tensor =
      if tensor.operations = [] ∨ o < tensor.firstUse then
        (if o = j then tensor.size else 0) +
          if tensor.operations = [] ∨ tensor.lastUse < o then 0
          else if tensor.firstUse = j then -tensor.size else 0
      else 0 := by
  unfold firstAt
  rw [head?_insertSorted]
  by_cases hne : tensor.operations = []
  · simp [hne]
  · obtain ⟨hhead, -, hle⟩ := firstUse_le_lastUse hl hne
    have hD : tensor.operations.headD 0 = tensor.firstUse := rfl
    by_cases hlt : o < tensor.firstUse
    · have hlast : ¬ tensor.lastUse < o := not_lt.2 (hlt.le.trans hle)
      simp only [hne, hlt, hlast, hhead, hD, or_true, or_self, if_true, if_false, Option.some_inj]
      split <;> split <;> omega
    · simp only [hne, hlt, hD, or_self, if_false, sub_self]

theorem lastAt_insertSorted (hl : tensor.operations.Pairwise (· < ·)) (o j : Nat) :
    lastAt j { tensor with operations := insertSorted o tensor.operations } - lastAt j tensor =
      if tensor.operations = [] ∨ tensor.lastUse < o then
        (if o = j then tensor.size else 0) +
          if tensor.operations = [] ∨ o < tensor.firstUse then 0
          else if tensor.lastUse = j then -tensor.size else 0
      else 0 := by
  unfold lastAt
  rw [getLast?_insertSorted hl]
  by_cases hne : tensor.operations = []
  · simp [hne]
  · obtain ⟨-, hlast, hle⟩ := firstUse_le_lastUse hl hne
    have hD : tensor.operations.getLastD 0 = tensor.lastUse := rfl
    by_cases hlt : tensor.lastUse < o
    · have hfirst : ¬ o < tensor.firstUse := not_lt.2 (hle.trans hlt.le)
      simp only [hne, hlt, hfirst, hlast, hD, or_true, or_self, if_true, if_false, Option.some_inj]
      split <;> split <;> omega
    · simp only [hne, hlt, hD, or_self, if_false, sub_self]

theorem addUse_changes (ht : s.tensors[t]? = some tensor)
    (hl : tensor.operations.Pairwise (· < ·)) :
    ChangesUse s (s.addUse o t) o t tensor
      { tensor with operations := insertSorted o tensor.operations } (insertSorted t) := by
  have hget : s.tensors.getD t default = tensor := by
    rw [getD_eq_getElem?_getD, ht, Option.getD_some]
  refine ⟨rfl, by rw [← hget]; rfl, fun j => ?_⟩
  rw [firstAt_insertSorted hl, lastAt_insertSorted hl]
  unfold Rematerializer.addUse
  rw [hget]
  by_cases hfirst : tensor.operations = [] ∨ o < tensor.firstUse <;>
    by_cases hlast : tensor.operations = [] ∨ tensor.lastUse < o <;>
    simp only [hfirst, hlast, not_true, not_false_iff, if_true, if_false, getElem?_modify,
      getElem?_addAlloc, getElem?_addDealloc]
  all_goals
    cases s.operations[j]? with
    | none => rfl
    | some operation => by_cases h : o = j <;> simp [h, add_assoc]

theorem head?_eraseSorted (hl : l.Pairwise (· < ·)) (hne : l ≠ []) :
    a ≠ l.headD 0 → (eraseSorted a l).head? = l.head? := by
  intro ha
  cases l with
  | nil => exact absurd rfl hne
  | cons b l =>
    have hba : b ≠ a := Ne.symm ha
    rw [eraseSorted_cons, if_neg hba]
    split <;> rfl

theorem getLast?_eraseSorted (hl : l.Pairwise (· < ·)) (hne : l ≠ []) :
    a ≠ l.getLastD 0 → (eraseSorted a l).getLast? = l.getLast? := by
  intro ha
  have hlast : l.getLast? = some (l.getLastD 0) := by
    rw [getLast?_eq_some_getLast hne, getLastD_eq_getLast?, getLast?_eq_some_getLast hne]
    rfl
  obtain ⟨hmem, hge⟩ := (getLast?_eq_some_iff_greatest hl).1 hlast
  rw [hlast]
  exact (getLast?_eq_some_iff_greatest (eraseSorted_pairwise hl)).2
    ⟨(mem_eraseSorted hl).2 ⟨hmem, Ne.symm ha⟩, fun x hx => hge x ((mem_eraseSorted hl).1 hx).1⟩

/-- Erasing the only use leaves none. -/
theorem eraseSorted_eq_nil_iff {o : Nat} (hl : tensor.operations.Pairwise (· < ·))
    (hne : tensor.operations ≠ []) :
    eraseSorted o tensor.operations = [] ↔ o = tensor.firstUse ∧ o = tensor.lastUse := by
  obtain ⟨hhead, hlast, -⟩ := firstUse_le_lastUse hl hne
  obtain ⟨hfirst, hmin⟩ := (head?_eq_some_iff_least hl).1 hhead
  obtain ⟨hend, hmax⟩ := (getLast?_eq_some_iff_greatest hl).1 hlast
  rw [eq_nil_iff_forall_not_mem]
  constructor
  · intro h
    have hall : ∀ x ∈ tensor.operations, x = o := by
      intro x hx
      by_contra hxo
      exact h x ((mem_eraseSorted hl).2 ⟨hx, hxo⟩)
    exact ⟨(hall _ hfirst).symm, (hall _ hend).symm⟩
  · rintro ⟨ho, ho'⟩ x hx
    obtain ⟨hx, hxo⟩ := (mem_eraseSorted hl).1 hx
    have h1 := hmin x hx
    have h2 := hmax x hx
    omega

theorem firstAt_eraseSorted (hl : tensor.operations.Pairwise (· < ·)) (o j : Nat) :
    firstAt j { tensor with operations := eraseSorted o tensor.operations } - firstAt j tensor =
      if tensor.operations ≠ [] ∧ o = tensor.firstUse then
        (if o = j then -tensor.size else 0) +
          if tensor.operations ≠ [] ∧ o = tensor.lastUse then 0
          else if (eraseSorted o tensor.operations).headD 0 = j then tensor.size else 0
      else 0 := by
  unfold firstAt
  by_cases hne : tensor.operations = []
  · simp [hne, eraseSorted]
  · obtain ⟨hhead, -, -⟩ := firstUse_le_lastUse hl hne
    by_cases ho : o = tensor.firstUse
    · have hnil := eraseSorted_eq_nil_iff (o := o) hl hne
      have hown : tensor.operations ≠ [] ∧ o = tensor.firstUse := ⟨hne, ho⟩
      rw [if_pos hown]
      by_cases hlast : o = tensor.lastUse
      · have hboth : tensor.operations ≠ [] ∧ o = tensor.lastUse := ⟨hne, hlast⟩
        rw [if_pos hboth, hnil.2 ⟨ho, hlast⟩, hhead, ← ho]
        simp only [head?_nil, reduceCtorEq, if_false, Option.some_inj]
        split <;> omega
      · have hboth : ¬ (tensor.operations ≠ [] ∧ o = tensor.lastUse) := fun h => hlast h.2
        rw [if_neg hboth]
        cases herase : eraseSorted o tensor.operations with
        | nil => exact absurd (hnil.1 herase).2 hlast
        | cons b l =>
          rw [hhead, ← ho]
          simp only [head?_cons, headD_cons, Option.some_inj]
          split <;> split <;> omega
    · have hown : ¬ (tensor.operations ≠ [] ∧ o = tensor.firstUse) := fun h => ho h.2
      rw [head?_eraseSorted hl hne ho, if_neg hown, sub_self]

theorem lastAt_eraseSorted (hl : tensor.operations.Pairwise (· < ·)) (o j : Nat) :
    lastAt j { tensor with operations := eraseSorted o tensor.operations } - lastAt j tensor =
      if tensor.operations ≠ [] ∧ o = tensor.lastUse then
        (if o = j then -tensor.size else 0) +
          if tensor.operations ≠ [] ∧ o = tensor.firstUse then 0
          else if (eraseSorted o tensor.operations).getLastD 0 = j then tensor.size else 0
      else 0 := by
  unfold lastAt
  by_cases hne : tensor.operations = []
  · simp [hne, eraseSorted]
  · obtain ⟨-, hlast, -⟩ := firstUse_le_lastUse hl hne
    by_cases ho : o = tensor.lastUse
    · have hnil := eraseSorted_eq_nil_iff (o := o) hl hne
      have hown : tensor.operations ≠ [] ∧ o = tensor.lastUse := ⟨hne, ho⟩
      rw [if_pos hown]
      by_cases hfirst : o = tensor.firstUse
      · have hboth : tensor.operations ≠ [] ∧ o = tensor.firstUse := ⟨hne, hfirst⟩
        rw [if_pos hboth, hnil.2 ⟨hfirst, ho⟩, hlast, ← ho]
        simp only [getLast?_nil, reduceCtorEq, if_false, Option.some_inj]
        split <;> omega
      · have hboth : ¬ (tensor.operations ≠ [] ∧ o = tensor.firstUse) := fun h => hfirst h.2
        rw [if_neg hboth]
        have hrest : eraseSorted o tensor.operations ≠ [] := fun h => hfirst (hnil.1 h).1
        have hend : (eraseSorted o tensor.operations).getLast?
            = some ((eraseSorted o tensor.operations).getLastD 0) := by
          rw [getLastD_eq_getLast?, getLast?_eq_some_getLast hrest]
          rfl
        rw [hlast, ← ho, hend]
        simp only [Option.some_inj]
        split <;> split <;> omega
    · have hown : ¬ (tensor.operations ≠ [] ∧ o = tensor.lastUse) := fun h => ho h.2
      rw [getLast?_eraseSorted hl hne ho, if_neg hown, sub_self]

theorem delUse_changes (ht : s.tensors[t]? = some tensor)
    (hl : tensor.operations.Pairwise (· < ·)) :
    ChangesUse s (s.delUse o t) o t tensor
      { tensor with operations := eraseSorted o tensor.operations } (eraseSorted t) := by
  have hget : s.tensors.getD t default = tensor := by
    rw [getD_eq_getElem?_getD, ht, Option.getD_some]
  refine ⟨rfl, by rw [← hget]; rfl, fun j => ?_⟩
  rw [firstAt_eraseSorted hl, lastAt_eraseSorted hl]
  unfold Rematerializer.delUse
  rw [hget]
  have hclose : ∀ {f g : Operation → Operation}, (∀ operation, f operation = g operation) →
      s.operations[j]?.map f = s.operations[j]?.map g := fun h => by rw [funext h]
  dsimp only
  by_cases hfirst : tensor.operations ≠ [] ∧ o = tensor.firstUse <;>
    by_cases hlast : tensor.operations ≠ [] ∧ o = tensor.lastUse
  · simp only [if_pos hfirst, if_pos hlast, if_neg (not_not_intro hfirst),
      if_neg (not_not_intro hlast), getElem?_modify, getElem?_addAlloc, getElem?_addDealloc,
      Option.map_eq_map, Option.map_map]
    refine hclose fun operation => ?_
    by_cases h : o = j <;> simp [h]
  · simp only [if_pos hfirst, if_neg hlast, if_pos hlast, getElem?_modify, getElem?_addAlloc,
      Option.map_eq_map, Option.map_map]
    refine hclose fun operation => ?_
    by_cases h : o = j <;> simp [h, add_assoc, Tensor.firstUse]
  · simp only [if_neg hfirst, if_pos hlast, if_pos hfirst, getElem?_modify,
      getElem?_addDealloc, Option.map_eq_map, Option.map_map]
    refine hclose fun operation => ?_
    by_cases h : o = j <;> simp [h, add_assoc, Tensor.lastUse]
  · simp only [if_neg hfirst, if_neg hlast, getElem?_modify, Option.map_eq_map]
    refine hclose fun operation => ?_
    by_cases h : o = j <;> simp [h]

end LiteRt.Remat
