import Mathlib.Data.List.Basic

/-!
# Bytes written into a file

Writing replaces the bytes from a position on and lets the file grow at its end. A write of no
bytes does nothing.
-/

namespace LiteRt.Lib

open List

variable {α : Type*} {file bytes : List α} {zero : α} {pos q n : Nat}

/-- `n` elements from a position on. -/
def slice (file : List α) (pos n : Nat) : List α := (file.drop pos).take n

/-- A hole between the end and the position is filled with zeros. -/
def overwrite (zero : α) (file : List α) (pos : Nat) (bytes : List α) : List α :=
  match bytes with
  | [] => file
  | b :: bs =>
    file.take pos ++ List.replicate (pos - file.length) zero ++ (b :: bs) ++
      file.drop (pos + (b :: bs).length)

theorem overwrite_nil (zero : α) (file : List α) (pos : Nat) : overwrite zero file pos [] = file :=
  rfl

theorem overwrite_of_ne_nil (h : bytes ≠ []) : overwrite zero file pos bytes =
    file.take pos ++ List.replicate (pos - file.length) zero ++ bytes ++
      file.drop (pos + bytes.length) := by
  cases bytes with
  | nil => exact absurd rfl h
  | cons b bs => rfl

theorem length_overwrite (h : bytes ≠ []) :
    (overwrite zero file pos bytes).length = max file.length (pos + bytes.length) := by
  rw [overwrite_of_ne_nil h]
  simp only [length_append, length_take, length_replicate, length_drop]
  omega

theorem length_le_overwrite (zero : α) (file : List α) (pos : Nat) (bytes : List α) :
    file.length ≤ (overwrite zero file pos bytes).length := by
  by_cases h : bytes = []
  · subst h
    exact Nat.le_refl _
  · rw [length_overwrite h]
    exact Nat.le_max_left _ _

theorem slice_eq_drop_take (file : List α) (pos n : Nat) :
    slice file pos n = (file.take (pos + n)).drop pos := by
  unfold slice
  rw [drop_take, Nat.add_sub_cancel_left]

theorem slice_append_left (h : pos + n ≤ file.length) (more : List α) :
    slice (file ++ more) pos n = slice file pos n := by
  rw [slice_eq_drop_take, slice_eq_drop_take, take_append_of_le_length h]

/-- The front of an overwritten file, up to the written bytes. -/
theorem length_front (zero : α) (file : List α) (pos : Nat) :
    (file.take pos ++ List.replicate (pos - file.length) zero).length = pos := by
  rw [length_append, length_take, length_replicate]
  omega

/-- What was written is there. -/
theorem slice_overwrite (zero : α) (file : List α) (pos : Nat) (bytes : List α) :
    slice (overwrite zero file pos bytes) pos bytes.length = bytes := by
  by_cases h : bytes = []
  · subst h
    exact take_zero
  · have hfront := length_front zero file pos
    unfold slice
    rw [overwrite_of_ne_nil h, append_assoc, drop_left' hfront, take_left]

/-- What stands in front of the written bytes stays. -/
theorem slice_overwrite_before (hpos : q + n ≤ pos) (hlen : q + n ≤ file.length) :
    slice (overwrite zero file pos bytes) q n = slice file q n := by
  by_cases h : bytes = []
  · rw [h, overwrite_nil]
  · rw [overwrite_of_ne_nil h]
    have htake : q + n ≤ (file.take pos).length := by
      rw [length_take]
      omega
    rw [append_assoc, append_assoc, slice_append_left htake, slice_eq_drop_take,
      slice_eq_drop_take, take_take, Nat.min_eq_left hpos]

/-- What stands behind the written bytes stays. -/
theorem slice_overwrite_after (hpos : pos + bytes.length ≤ q) :
    slice (overwrite zero file pos bytes) q n = slice file q n := by
  by_cases h : bytes = []
  · rw [h, overwrite_nil]
  · have hfront := length_front zero file pos
    have hwritten : (file.take pos ++ List.replicate (pos - file.length) zero ++ bytes).length =
        pos + bytes.length := by
      rw [length_append, hfront]
    obtain ⟨k, rfl⟩ := Nat.exists_eq_add_of_le hpos
    have hdrop := @drop_length_add_append _
        (file.take pos ++ List.replicate (pos - file.length) zero ++ bytes)
        (file.drop (pos + bytes.length)) k
    rw [hwritten] at hdrop
    unfold slice
    rw [overwrite_of_ne_nil h, hdrop, drop_drop]

/-- A slice that is as long as it should be stays when bytes are written behind it. -/
theorem slice_overwrite_eq (hpos : q + n ≤ pos) {part : List α} (hpart : slice file q n = part)
    (hlen : part.length = n) : slice (overwrite zero file pos bytes) q n = part := by
  rcases Nat.eq_zero_or_pos n with rfl | hn
  · rw [length_eq_zero_iff.1 hlen]
    exact take_zero
  · have hfile : q + n ≤ file.length := by
      rw [← hpart] at hlen
      unfold slice at hlen
      rw [length_take, length_drop] at hlen
      omega
    rw [slice_overwrite_before hpos hfile, hpart]

end LiteRt.Lib
