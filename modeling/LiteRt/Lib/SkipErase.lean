import Mathlib.Algebra.BigOperators.Group.List.Basic
import Mathlib.Data.List.Basic
import Mathlib.Logic.Function.Iterate

/-!
# Erasing while iterating

A loop that erases the element at its index and still advances skips the element
that moves into its place. Of a run of adjacent matches it keeps every other
one, so each pass halves the longest run (`longestRun_skipErase`).
-/

namespace LiteRt.Lib

open List

variable {α : Type*} (p : α → Bool) {a : α} {l : List α}

/-- The loop over the indices, which looks at the current length. -/
def skipErase (l : List α) : List α :=
  (List.range l.length).foldl (fun l i =>
    match l[i]? with
    | some a => if p a then l.eraseIdx i else l
    | none => l) l

/-- The same by recursion: the element after an erased one stays. -/
def skipEraseRec : List α → List α
  | [] => []
  | [a] => if p a then [] else [a]
  | a :: b :: l => if p a then b :: skipEraseRec l else a :: skipEraseRec (b :: l)

def longestRun : List α → Nat
  | [] => 0
  | a :: l => max ((a :: l).takeWhile p).length (longestRun l)

theorem skipEraseRec_single (ha : p a) : skipEraseRec p [a] = [] := if_pos ha

theorem skipEraseRec_skip (b : α) (l : List α) (ha : p a) :
    skipEraseRec p (a :: b :: l) = b :: skipEraseRec p l := if_pos ha

theorem skipEraseRec_keep (l : List α) (ha : ¬ p a) :
    skipEraseRec p (a :: l) = a :: skipEraseRec p l := by
  cases l with
  | nil => exact if_neg ha
  | cons b l => exact if_neg ha

/-- Induction along the passes' recursion. -/
theorem skipErase_induction {motive : List α → Prop} (nil : motive [])
    (single : ∀ a, p a → motive [a])
    (skip : ∀ a b l, p a → motive l → motive (a :: b :: l))
    (keep : ∀ a l, ¬ p a → motive l → motive (a :: l)) : ∀ l, motive l
  | [] => nil
  | [a] => if ha : p a then single a ha else keep a [] ha nil
  | a :: b :: l =>
    if ha : p a then skip a b l ha (skipErase_induction nil single skip keep l)
    else keep a (b :: l) ha (skipErase_induction nil single skip keep (b :: l))

/-- Indices past the end change nothing. -/
theorem foldl_skipErase_of_length_le {k n : Nat} (h : l.length ≤ k) :
    (List.range' k n).foldl (fun l i =>
      match l[i]? with
      | some a => if p a then l.eraseIdx i else l
      | none => l) l = l := by
  induction n generalizing k with
  | zero => rfl
  | succ n ih =>
    rw [range'_succ, foldl_cons, getElem?_eq_none h]
    exact ih (Nat.le_succ_of_le h)

theorem skipErase_eq_skipEraseRec (l : List α) : skipErase p l = skipEraseRec p l := by
  have hgo (pre l : List α) (n : Nat) (hn : l.length ≤ n) :
      (List.range' pre.length n).foldl (fun l i =>
        match l[i]? with
        | some a => if p a then l.eraseIdx i else l
        | none => l) (pre ++ l) = pre ++ skipEraseRec p l := by
    induction l using skipErase_induction p generalizing pre n with
    | nil =>
      exact foldl_skipErase_of_length_le p (by simp)
    | single a ha =>
      obtain ⟨n, rfl⟩ : ∃ m, n = m + 1 := ⟨n - 1, by simp at hn; omega⟩
      rw [range'_succ, foldl_cons, skipEraseRec_single p ha]
      simp only [getElem?_concat_length, ha, ↓reduceIte]
      rw [eraseIdx_append_of_length_le (Nat.le_refl _)]
      simp only [Nat.sub_self, eraseIdx_cons_zero, append_nil]
      exact foldl_skipErase_of_length_le p (Nat.le_succ _)
    | skip a b l ha ih =>
      obtain ⟨n, rfl⟩ : ∃ m, n = m + 1 := ⟨n - 1, by simp at hn; omega⟩
      rw [range'_succ, foldl_cons, skipEraseRec_skip p b l ha]
      have hget : (pre ++ a :: b :: l)[pre.length]? = some a := by simp
      simp only [hget, ha, ↓reduceIte]
      rw [eraseIdx_append_of_length_le (Nat.le_refl _)]
      simp only [Nat.sub_self, eraseIdx_cons_zero]
      have := ih (pre ++ [b]) n (by simp at hn; omega)
      simpa using this
    | keep a l ha ih =>
      obtain ⟨n, rfl⟩ : ∃ m, n = m + 1 := ⟨n - 1, by simp at hn; omega⟩
      rw [range'_succ, foldl_cons, skipEraseRec_keep p l ha]
      have hget : (pre ++ a :: l)[pre.length]? = some a := by simp
      simp only [hget, ha]
      have := ih (pre ++ [a]) n (by simpa using hn)
      simpa [ha] using this
  have := hgo [] l l.length (Nat.le_refl _)
  simpa [skipErase, range_eq_range'] using this

theorem skipErase_sublist (l : List α) : (skipErase p l).Sublist l := by
  rw [skipErase_eq_skipEraseRec]
  induction l using skipErase_induction p with
  | nil => exact .slnil
  | single a ha => simp [skipEraseRec_single p ha]
  | skip a b l ha ih =>
    rw [skipEraseRec_skip p b l ha]
    exact (ih.cons_cons b).cons a
  | keep a l ha ih =>
    rw [skipEraseRec_keep p l ha]
    exact ih.cons_cons a

/-- Elements that do not match stay. -/
theorem filter_skipErase (l : List α) :
    (skipErase p l).filter (fun a => !p a) = l.filter fun a => !p a := by
  rw [skipErase_eq_skipEraseRec]
  induction l using skipErase_induction p with
  | nil => rfl
  | single a ha => simp [skipEraseRec_single p ha, ha]
  | skip a b l ha ih =>
    rw [skipEraseRec_skip p b l ha, filter_cons, ih, filter_cons, filter_cons]
    simp [ha]
  | keep a l ha ih => rw [skipEraseRec_keep p l ha, filter_cons, ih, filter_cons]

/-- Elements that do not match can be appended before or after the pass. -/
theorem skipErase_append {l l' : List α} (h : ∀ a ∈ l', p a = false) :
    skipErase p (l ++ l') = skipErase p l ++ l' := by
  have hid : skipEraseRec p l' = l' := by
    induction l' with
    | nil => rfl
    | cons a l' ih =>
      rw [skipEraseRec_keep p l' (by simp [h a (by simp)]), ih fun b hb => h b (by simp [hb])]
  rw [skipErase_eq_skipEraseRec, skipErase_eq_skipEraseRec]
  induction l using skipErase_induction p with
  | nil => exact hid
  | single a ha =>
    rw [skipEraseRec_single p ha]
    cases l' with
    | nil => exact skipEraseRec_single p ha
    | cons b l' =>
      rw [skipEraseRec_keep p l' (by simp [h b (by simp)])] at hid
      rw [singleton_append, skipEraseRec_skip p b l' ha, hid]
      rfl
  | skip a b l ha ih =>
    rw [cons_append, cons_append, skipEraseRec_skip p b _ ha, ih,
      skipEraseRec_skip p b l ha, cons_append]
  | keep a l ha ih =>
    rw [cons_append, skipEraseRec_keep p _ ha, ih, skipEraseRec_keep p l ha, cons_append]

theorem length_takeWhile_skipErase (l : List α) :
    ((skipErase p l).takeWhile p).length = (l.takeWhile p).length / 2 := by
  rw [skipErase_eq_skipEraseRec]
  induction l using skipErase_induction p with
  | nil => simp [skipEraseRec]
  | single a ha => simp [skipEraseRec_single p ha, ha]
  | skip a b l ha ih =>
    rw [skipEraseRec_skip p b l ha]
    by_cases hb : p b
    · simp only [takeWhile_cons_of_pos ha, takeWhile_cons_of_pos hb, length_cons, ih]
      omega
    · simp [ha, hb]
  | keep a l ha ih =>
    rw [skipEraseRec_keep p l ha]
    simp [ha]

theorem longestRun_skipErase (l : List α) : longestRun p (skipErase p l) = longestRun p l / 2 := by
  rw [skipErase_eq_skipEraseRec]
  induction l using skipErase_induction p with
  | nil => simp [skipEraseRec, longestRun]
  | single a ha => simp [skipEraseRec_single p ha, longestRun, ha]
  | skip a b l ha ih =>
    have htake := length_takeWhile_skipErase p l
    rw [skipErase_eq_skipEraseRec] at htake
    rw [skipEraseRec_skip p b l ha]
    by_cases hb : p b
    · simp only [longestRun, takeWhile_cons_of_pos ha, takeWhile_cons_of_pos hb,
        length_cons, ih, htake]
      omega
    · simp only [longestRun, takeWhile_cons_of_pos ha, takeWhile_cons_of_neg hb,
        length_cons, length_nil, ih]
      omega
  | keep a l ha ih =>
    rw [skipEraseRec_keep p l ha]
    simp only [longestRun, takeWhile_cons_of_neg ha, length_nil, ih]
    omega

theorem longestRun_eq_zero_iff : longestRun p l = 0 ↔ ∀ a ∈ l, p a = false := by
  induction l with
  | nil => simp [longestRun]
  | cons a l ih =>
    simp only [longestRun, mem_cons, forall_eq_or_imp, ← ih]
    by_cases ha : p a
    · simp [ha]
    · simp [ha]

theorem longestRun_iterate (n : Nat) (l : List α) :
    longestRun p ((skipErase p)^[n] l) = longestRun p l / 2 ^ n := by
  induction n generalizing l with
  | zero => simp
  | succ n ih =>
    rw [Function.iterate_succ_apply, ih, longestRun_skipErase, Nat.div_div_eq_div_mul, Nat.pow_succ,
      Nat.mul_comm]

/-- After `n` passes no match is left exactly when all runs are shorter than `2 ^ n`. -/
theorem forall_iterate_skipErase_iff {n : Nat} :
    (∀ a ∈ (skipErase p)^[n] l, p a = false) ↔ longestRun p l < 2 ^ n := by
  rw [← longestRun_eq_zero_iff, longestRun_iterate, Nat.div_eq_zero_iff]
  have := Nat.two_pow_pos n
  omega

theorem iterate_skipErase_sublist (n : Nat) (l : List α) : ((skipErase p)^[n] l).Sublist l := by
  induction n generalizing l with
  | zero => exact .refl l
  | succ n ih =>
    rw [Function.iterate_succ_apply]
    exact (ih _).trans (skipErase_sublist p l)

theorem filter_iterate_skipErase (n : Nat) (l : List α) :
    ((skipErase p)^[n] l).filter (fun a => !p a) = l.filter fun a => !p a := by
  induction n generalizing l with
  | zero => rfl
  | succ n ih => rw [Function.iterate_succ_apply, ih, filter_skipErase]

theorem count_iterate_skipErase [BEq α] [LawfulBEq α] (n : Nat) (l : List α) (ha : p a = false) :
    ((skipErase p)^[n] l).count a = l.count a := by
  have h (l : List α) : (l.filter fun a => !p a).count a = l.count a :=
    count_filter (by simp [ha])
  rw [← h, filter_iterate_skipErase, h]

end LiteRt.Lib
