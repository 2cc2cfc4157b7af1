import Mathlib.Algebra.Group.Nat.Defs
import Mathlib.Data.List.Basic
import Mathlib.Data.Nat.Basic
import Mathlib.Order.Lattice

/-!
# Tensor usage records

A record holds the size of a tensor and the first and the last task that use it. Sizes and
tasks are `size_t`, so sums and products are taken modulo 2^64.
-/

namespace LiteRt.Gpu

/-- The tasks from the first to the last one use the tensor. -/
structure TensorUsageRecord (α : Type) where
  tensorSize : α
  firstTask : Nat
  lastTask : Nat
  deriving DecidableEq, Repr, Inhabited

namespace TensorUsageRecord

variable {α : Type}

/-- The usage intervals intersect. -/
def Meets (r s : TensorUsageRecord α) : Prop :=
  r.firstTask ≤ s.lastTask ∧ s.firstTask ≤ r.lastTask

instance (r s : TensorUsageRecord α) : Decidable (r.Meets s) :=
  inferInstanceAs (Decidable (_ ∧ _))

theorem Meets.symm {r s : TensorUsageRecord α} (h : r.Meets s) : s.Meets r :=
  ⟨h.2, h.1⟩

end TensorUsageRecord

/-- A usage record and its index before sorting. -/
structure TensorUsageWithIndex (α : Type) where
  usageRecord : TensorUsageRecord α
  idx : Nat
  deriving DecidableEq, Repr, Inhabited

def kNotAssigned : Nat := 2 ^ 64 - 1

inductive Status where
  | internalError (message : String)
  deriving DecidableEq, Repr

/-- The records with their indices. -/
def withIndex {α : Type} (usageRecords : List (TensorUsageRecord α)) :
    List (TensorUsageWithIndex α) :=
  usageRecords.zipIdx.map fun p => ⟨p.1, p.2⟩

/-- `std::stable_sort` by `CompareBySize`. -/
def sortBySize (records : List (TensorUsageWithIndex Nat)) : List (TensorUsageWithIndex Nat) :=
  records.mergeSort fun first second =>
    decide (second.usageRecord.tensorSize ≤ first.usageRecord.tensorSize)

/-! ## Alignment -/

def divideRoundUp (n div : Nat) : Nat :=
  if n % div = 0 then n / div else n / div + 1

def alignUp (number n : Nat) : Nat :=
  divideRoundUp number n * n

def alignByN (number n : Nat) : Nat :=
  alignUp number n % 2 ^ 64

theorem le_alignUp (number n : Nat) (hn : 0 < n) : number ≤ alignUp number n := by
  have h := Nat.div_add_mod number n
  unfold alignUp divideRoundUp
  split
  · rw [Nat.mul_comm]
    omega
  · have hlt := Nat.mod_lt number hn
    rw [Nat.add_mul, Nat.mul_comm]
    omega

theorem alignUp_le (number n : Nat) (hn : 0 < n) : alignUp number n ≤ number + (n - 1) := by
  have h := Nat.div_add_mod number n
  unfold alignUp divideRoundUp
  split
  · rw [Nat.mul_comm]
    omega
  · rw [Nat.add_mul, Nat.mul_comm]
    omega

theorem dvd_alignUp (number n : Nat) : n ∣ alignUp number n :=
  Nat.dvd_mul_left _ _

/-- An aligned offset moves the next multiple along. -/
theorem alignUp_add {o number n : Nat} (hn : 0 < n) (ho : n ∣ o) :
    alignUp (o + number) n = o + alignUp number n := by
  obtain ⟨q, rfl⟩ := ho
  unfold alignUp divideRoundUp
  rw [Nat.mul_add_mod, Nat.mul_add_div hn]
  split
  · rw [Nat.add_mul, Nat.mul_comm q]
  · rw [Nat.add_assoc, Nat.add_mul, Nat.mul_comm q]

/-!
## Shared objects

An assignment gives each tensor an object and each object a size. It is sound as long as an
object covers its tensors and their usage intervals are apart; it is built one tensor at a time.
-/

/-- `kNotAssigned`, which is no object id, is `none`. -/
structure ObjectsAssignment (α : Type) where
  objectIds : List (Option Nat)
  objectSizes : List α
  deriving DecidableEq, Repr

namespace ObjectsAssignment

variable {α : Type}

def empty (numRecords : Nat) : ObjectsAssignment α :=
  ⟨List.replicate numRecords none, []⟩

/-- Tensor `i` is in the object. -/
def Holds (a : ObjectsAssignment α) (object i : Nat) : Prop :=
  a.objectIds[i]? = some (some object)

/-- Gives tensor `i` an existing object. -/
def place (a : ObjectsAssignment α) (i object : Nat) : ObjectsAssignment α :=
  ⟨a.objectIds.set i (some object), a.objectSizes⟩

/-- Gives tensor `i` an existing object, of a new size. -/
def reuse (a : ObjectsAssignment α) (i object : Nat) (size : α) : ObjectsAssignment α :=
  ⟨a.objectIds.set i (some object), a.objectSizes.set object size⟩

/-- Gives tensor `i` a new object. -/
def create (a : ObjectsAssignment α) (i : Nat) (size : α) : ObjectsAssignment α :=
  ⟨a.objectIds.set i (some a.objectSizes.length), a.objectSizes ++ [size]⟩

theorem not_holds_empty (numRecords object i : Nat) :
    ¬ (empty numRecords : ObjectsAssignment α).Holds object i := by
  unfold Holds empty
  rw [List.getElem?_replicate]
  split <;> simp

theorem holds_set {a : ObjectsAssignment α} {i object j other : Nat} {sizes : List α}
    (h : (⟨a.objectIds.set i (some object), sizes⟩ : ObjectsAssignment α).Holds other j) :
    j = i ∧ other = object ∨ j ≠ i ∧ a.Holds other j := by
  unfold Holds at h ⊢
  rw [List.getElem?_set] at h
  split at h
  · rename_i hij
    split at h
    · simp only [Option.some_inj] at h
      exact .inl ⟨hij.symm, h.symm⟩
    · cases h
  · rename_i hij
    exact .inr ⟨Ne.symm hij, h⟩

/-- The objects that tensors are in cover them, and no object holds two tensors whose usage
intervals intersect. -/
structure Sound (covers : α → α → Prop) (usageRecords : List (TensorUsageRecord α))
    (a : ObjectsAssignment α) : Prop where
  length : a.objectIds.length = usageRecords.length
  covered : ∀ {object i : Nat} {rec : TensorUsageRecord α}, a.Holds object i →
    usageRecords[i]? = some rec →
    ∃ size : α, a.objectSizes[object]? = some size ∧ covers size rec.tensorSize
  apart : ∀ {object i j : Nat} {rec rec' : TensorUsageRecord α}, i ≠ j → a.Holds object i →
    a.Holds object j → usageRecords[i]? = some rec → usageRecords[j]? = some rec' →
    ¬ rec.Meets rec'

/-- Every tensor is in an object. -/
structure Valid (covers : α → α → Prop) (usageRecords : List (TensorUsageRecord α))
    (a : ObjectsAssignment α) : Prop extends Sound covers usageRecords a where
  assigned : ∀ i, i < usageRecords.length → ∃ object, a.Holds object i

section
variable {covers : α → α → Prop} {usageRecords : List (TensorUsageRecord α)}
  {a : ObjectsAssignment α} {rec : TensorUsageRecord α} {i object : Nat} {size : α}

theorem sound_empty : Sound covers usageRecords (empty usageRecords.length) where
  length := List.length_replicate
  covered h := absurd h (not_holds_empty _ _ _)
  apart _ h := absurd h (not_holds_empty _ _ _)

theorem Sound.object_lt (h : Sound covers usageRecords a) {object i : Nat}
    (hi : a.Holds object i) : object < a.objectSizes.length := by
  have hlt := (List.getElem?_eq_some_iff.1 hi).1
  rw [h.length] at hlt
  obtain ⟨size, hsize, -⟩ := h.covered hi (List.getElem?_eq_getElem hlt)
  exact (List.getElem?_eq_some_iff.1 hsize).1

/-- A tensor goes to an object whose tensors it is apart from. -/
theorem Sound.assign (h : Sound covers usageRecords a) {sizes : List α}
    (hrec : usageRecords[i]? = some rec) (hsize : sizes[object]? = some size)
    (hcovers : covers size rec.tensorSize)
    (hgrow : ∀ {other : Nat} {x y : α}, a.objectSizes[other]? = some x → covers x y →
      ∃ x' : α, sizes[other]? = some x' ∧ covers x' y)
    (hapart : ∀ {j : Nat} {rec' : TensorUsageRecord α}, a.Holds object j →
      usageRecords[j]? = some rec' → ¬ rec.Meets rec') :
    Sound covers usageRecords ⟨a.objectIds.set i (some object), sizes⟩ where
  length := by
    rw [← h.length]
    exact List.length_set
  covered := by
    intro other j rec' hj hrec'
    rcases holds_set hj with ⟨rfl, rfl⟩ | ⟨-, hj⟩
    · rw [hrec] at hrec'
      cases hrec'
      exact ⟨size, hsize, hcovers⟩
    · obtain ⟨x, hx, hxc⟩ := h.covered hj hrec'
      exact hgrow hx hxc
  apart := by
    intro other j k rec' rec'' hne hj hk hrec' hrec''
    rcases holds_set hj with ⟨rfl, rfl⟩ | ⟨-, hjold⟩
    · rcases holds_set hk with ⟨rfl, -⟩ | ⟨-, hkold⟩
      · exact absurd rfl hne
      · rw [hrec] at hrec'
        cases hrec'
        exact hapart hkold hrec''
    · rcases holds_set hk with ⟨rfl, rfl⟩ | ⟨-, hkold⟩
      · rw [hrec] at hrec''
        cases hrec''
        exact fun hmeets => hapart hjold hrec' hmeets.symm
      · exact h.apart hne hjold hkold hrec' hrec''

theorem Sound.place (h : Sound covers usageRecords a) (hrec : usageRecords[i]? = some rec)
    (hsize : a.objectSizes[object]? = some size) (hcovers : covers size rec.tensorSize)
    (hapart : ∀ {j : Nat} {rec' : TensorUsageRecord α}, a.Holds object j →
      usageRecords[j]? = some rec' → ¬ rec.Meets rec') :
    Sound covers usageRecords (a.place i object) :=
  h.assign hrec hsize hcovers (fun hx hxy => ⟨_, hx, hxy⟩) hapart

theorem Sound.reuse (h : Sound covers usageRecords a) (hrec : usageRecords[i]? = some rec)
    (hlt : object < a.objectSizes.length) (hcovers : covers size rec.tensorSize)
    (hgrow : ∀ {x y : α}, a.objectSizes[object]? = some x → covers x y → covers size y)
    (hapart : ∀ {j : Nat} {rec' : TensorUsageRecord α}, a.Holds object j →
      usageRecords[j]? = some rec' → ¬ rec.Meets rec') :
    Sound covers usageRecords (a.reuse i object size) := by
  refine h.assign hrec (List.getElem?_set_self hlt) hcovers ?_ hapart
  intro other x y hx hxy
  by_cases hother : object = other
  · subst hother
    exact ⟨size, List.getElem?_set_self hlt, hgrow hx hxy⟩
  · exact ⟨x, by rwa [List.getElem?_set_ne hother], hxy⟩

theorem Sound.create (h : Sound covers usageRecords a) {i : Nat}
    (hrec : usageRecords[i]? = some rec) (hcovers : covers rec.tensorSize rec.tensorSize) :
    Sound covers usageRecords (a.create i rec.tensorSize) := by
  refine h.assign hrec List.getElem?_concat_length hcovers ?_ ?_
  · intro other x y hx hxy
    have hlt := (List.getElem?_eq_some_iff.1 hx).1
    exact ⟨x, by rwa [List.getElem?_append_left hlt], hxy⟩
  · intro j rec' hj
    exact absurd (h.object_lt hj) (Nat.lt_irrefl _)

end

end ObjectsAssignment

end LiteRt.Gpu
