import Mathlib.Algebra.BigOperators.Group.List.Basic
import Mathlib.Algebra.Ring.Nat
import Mathlib.Data.List.Basic

/-!
# Concatenated tables

Tables are put one after the other. An index into one of them is shifted by the sizes of those
before it.
-/

namespace LiteRt.Lib

variable {α : Type*} {tables : List (List α)} {table : List α} {i j : Nat}

/-- The place of the first entry of a table. -/
def shiftOf (tables : List (List α)) (i : Nat) : Nat := ((tables.take i).map List.length).sum

@[simp] theorem shiftOf_zero (tables : List (List α)) : shiftOf tables 0 = 0 := rfl

@[simp] theorem shiftOf_succ (table : List α) (tables : List (List α)) (i : Nat) :
    shiftOf (table :: tables) (i + 1) = table.length + shiftOf tables i := by
  unfold shiftOf
  rw [List.take_succ_cons, List.map_cons, List.sum_cons]

theorem getElem?_flatten (h : tables[i]? = some table) (hj : j < table.length) :
    tables.flatten[shiftOf tables i + j]? = table[j]? := by
  induction tables generalizing i with
  | nil => cases h
  | cons first tables ih =>
    rw [List.flatten_cons]
    cases i with
    | zero =>
      rw [List.getElem?_cons_zero, Option.some.injEq] at h
      subst h
      rw [shiftOf_zero, Nat.zero_add, List.getElem?_append_left hj]
    | succ i =>
      rw [List.getElem?_cons_succ] at h
      rw [shiftOf_succ, Nat.add_assoc, List.getElem?_append_right (Nat.le_add_right _ _),
        Nat.add_sub_cancel_left]
      exact ih h

theorem shiftOf_add_le (h : tables[i]? = some table) :
    shiftOf tables i + table.length ≤ tables.flatten.length := by
  induction tables generalizing i with
  | nil => cases h
  | cons first tables ih =>
    rw [List.flatten_cons, List.length_append]
    cases i with
    | zero =>
      rw [List.getElem?_cons_zero, Option.some.injEq] at h
      subst h
      rw [shiftOf_zero]
      omega
    | succ i =>
      rw [List.getElem?_cons_succ] at h
      rw [shiftOf_succ]
      have := ih h
      omega

/-- An index refers to the same entry after the shift, in numbers below `word`: it lies in its
table, or outside of the concatenation as well. -/
def Lands (word : Nat) (tables : List (List α)) (i : Nat) (table : List α) (j : Nat) : Prop :=
  j < table.length ∨ tables.flatten.length ≤ (j + shiftOf tables i) % word

theorem lands_iff {word : Nat} (h : tables[i]? = some table)
    (hword : tables.flatten.length ≤ word) :
    tables.flatten[(j + shiftOf tables i) % word]? = table[j]? ↔ Lands word tables i table j := by
  unfold Lands
  by_cases hj : j < table.length
  · have hle := shiftOf_add_le h
    rw [Nat.mod_eq_of_lt (by omega), Nat.add_comm]
    exact iff_of_true (getElem?_flatten h hj) (.inl hj)
  · rw [List.getElem?_eq_none (Nat.not_lt.1 hj), List.getElem?_eq_none_iff, or_iff_right hj]

end LiteRt.Lib
