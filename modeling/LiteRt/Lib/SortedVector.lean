import Mathlib.Data.List.Basic
import Mathlib.Order.Basic
import Mathlib.Order.Lattice

/-!
# Sorted vectors as sets

A vector kept strictly sorted is a set: `lower_bound` finds the place of an item, and only
there it is inserted or erased. The first and the last entry are its least and greatest member.
-/

namespace LiteRt.Lib

open List

variable {α : Type*} [LinearOrder α] {a b x : α} {l : List α}

/-- Inserts an item at its `lower_bound` unless it is found there. -/
def insertSorted (item : α) (items : List α) : List α :=
  let before := items.takeWhile fun i => decide (i < item)
  let after := items.dropWhile fun i => decide (i < item)
  if after.head? = some item then items else before ++ item :: after

/-- Erases an item if it is found at its `lower_bound`. -/
def eraseSorted (item : α) (items : List α) : List α :=
  let before := items.takeWhile fun i => decide (i < item)
  let after := items.dropWhile fun i => decide (i < item)
  if after.head? = some item then before ++ after.tail else items

theorem insertSorted_cons (a b : α) (l : List α) :
    insertSorted a (b :: l) =
      if b < a then b :: insertSorted a l else if b = a then b :: l else a :: b :: l := by
  unfold insertSorted
  by_cases h : b < a
  · simp only [h, takeWhile_cons, dropWhile_cons, decide_true, if_true]
    split <;> simp
  · simp [h]

theorem eraseSorted_cons (a b : α) (l : List α) :
    eraseSorted a (b :: l) =
      if b < a then b :: eraseSorted a l else if b = a then l else b :: l := by
  unfold eraseSorted
  by_cases h : b < a
  · simp only [h, takeWhile_cons, dropWhile_cons, decide_true, if_true]
    split <;> simp
  · simp [h]

theorem mem_insertSorted : x ∈ insertSorted a l ↔ x = a ∨ x ∈ l := by
  induction l with
  | nil => simp [insertSorted]
  | cons b l ih =>
    rw [insertSorted_cons]
    split
    · rw [mem_cons, ih, mem_cons]
      exact or_left_comm
    · split
      · rename_i heq
        rw [heq, mem_cons]
        exact ⟨.inr, fun h => h.elim .inl id⟩
      · exact mem_cons

theorem insertSorted_pairwise (h : l.Pairwise (· < ·)) : (insertSorted a l).Pairwise (· < ·) := by
  induction l with
  | nil => exact pairwise_singleton _ _
  | cons b l ih =>
    obtain ⟨hb, hl⟩ := pairwise_cons.1 h
    rw [insertSorted_cons]
    split
    · rename_i hlt
      refine pairwise_cons.2 ⟨fun x hx => ?_, ih hl⟩
      rcases mem_insertSorted.1 hx with rfl | hx
      · exact hlt
      · exact hb x hx
    · rename_i hnot
      split
      · exact h
      · rename_i hne
        have hab : a < b := lt_of_le_of_ne (not_lt.1 hnot) (Ne.symm hne)
        refine pairwise_cons.2 ⟨fun x hx => ?_, h⟩
        rcases mem_cons.1 hx with rfl | hx
        · exact hab
        · exact hab.trans (hb x hx)

theorem eraseSorted_subset : eraseSorted a l ⊆ l := by
  induction l with
  | nil => simp [eraseSorted]
  | cons b l ih =>
    rw [eraseSorted_cons]
    split
    · exact cons_subset_cons b ih
    · split
      · exact subset_cons_self b l
      · exact List.Subset.refl _

theorem mem_eraseSorted (h : l.Pairwise (· < ·)) : x ∈ eraseSorted a l ↔ x ∈ l ∧ x ≠ a := by
  induction l with
  | nil => simp [eraseSorted]
  | cons b l ih =>
    obtain ⟨hb, hl⟩ := pairwise_cons.1 h
    rw [eraseSorted_cons]
    split
    · rename_i hlt
      rw [mem_cons, ih hl, mem_cons]
      constructor
      · rintro (rfl | ⟨hx, hne⟩)
        · exact ⟨.inl rfl, hlt.ne⟩
        · exact ⟨.inr hx, hne⟩
      · rintro ⟨rfl | hx, hne⟩
        · exact .inl rfl
        · exact .inr ⟨hx, hne⟩
    · rename_i hnot
      split
      · rename_i heq
        subst heq
        rw [mem_cons]
        constructor
        · exact fun hx => ⟨.inr hx, (hb x hx).ne'⟩
        · rintro ⟨rfl | hx, hne⟩
          · exact absurd rfl hne
          · exact hx
      · rename_i hne
        have hab : a < b := lt_of_le_of_ne (not_lt.1 hnot) (Ne.symm hne)
        refine ⟨fun hx => ⟨hx, ?_⟩, fun hx => hx.1⟩
        rcases mem_cons.1 hx with rfl | hx
        · exact hab.ne'
        · exact (hab.trans (hb x hx)).ne'

theorem eraseSorted_pairwise (h : l.Pairwise (· < ·)) : (eraseSorted a l).Pairwise (· < ·) := by
  induction l with
  | nil => exact .nil
  | cons b l ih =>
    obtain ⟨hb, hl⟩ := pairwise_cons.1 h
    rw [eraseSorted_cons]
    split
    · exact pairwise_cons.2 ⟨fun x hx => hb x ((mem_eraseSorted hl).1 hx).1, ih hl⟩
    · split
      · exact hl
      · exact h

theorem insertSorted_perm (h : a ∉ l) : (insertSorted a l).Perm (a :: l) := by
  induction l with
  | nil => exact .refl _
  | cons b l ih =>
    have hba : b ≠ a := fun heq => h (heq ▸ mem_cons_self)
    rw [insertSorted_cons]
    split
    · exact ((ih fun hin => h (mem_cons_of_mem b hin)).cons b).trans (.swap a b l)
    · exact .refl _

theorem eraseSorted_perm (hl : l.Pairwise (· < ·)) (h : a ∈ l) :
    l.Perm (a :: eraseSorted a l) := by
  induction l with
  | nil => cases h
  | cons b l ih =>
    obtain ⟨hb, hl⟩ := pairwise_cons.1 hl
    rw [eraseSorted_cons]
    split
    · rename_i hlt
      have hin : a ∈ l := (mem_cons.1 h).resolve_left hlt.ne'
      exact ((ih hl hin).cons b).trans (.swap a b _)
    · rename_i hnot
      have hba : b = a := by
        rcases mem_cons.1 h with heq | hin
        · exact heq.symm
        · exact absurd (hb a hin) hnot
      rw [if_pos hba, hba]

/-! ## The ends -/

theorem head?_eq_some_iff_least (h : l.Pairwise (· < ·)) :
    l.head? = some a ↔ a ∈ l ∧ ∀ x ∈ l, a ≤ x := by
  cases l with
  | nil => simp
  | cons b l =>
    obtain ⟨hb, -⟩ := pairwise_cons.1 h
    rw [head?_cons, Option.some_inj]
    constructor
    · rintro rfl
      refine ⟨mem_cons_self, fun x hx => ?_⟩
      rcases mem_cons.1 hx with rfl | hx
      · exact le_refl _
      · exact (hb x hx).le
    · rintro ⟨ha, hle⟩
      rcases mem_cons.1 ha with rfl | ha
      · rfl
      · exact absurd (hle b mem_cons_self) (not_le.2 (hb a ha))

theorem getLast?_eq_some_iff_greatest (h : l.Pairwise (· < ·)) :
    l.getLast? = some a ↔ a ∈ l ∧ ∀ x ∈ l, x ≤ a := by
  rcases l.eq_nil_or_concat with rfl | ⟨init, b, rfl⟩
  · simp
  · rw [concat_eq_append] at h ⊢
    obtain ⟨-, -, hb⟩ := pairwise_append.1 h
    have hle : ∀ x ∈ init ++ [b], x ≤ b := by
      intro x hx
      rcases mem_append.1 hx with hx | hx
      · exact (hb x hx b (mem_singleton_self b)).le
      · exact (mem_singleton.1 hx).le
    rw [getLast?_concat, Option.some_inj]
    constructor
    · rintro rfl
      exact ⟨mem_append_right _ (mem_singleton_self b), hle⟩
    · rintro ⟨ha, hge⟩
      exact le_antisymm (hge b (mem_append_right _ (mem_singleton_self b))) (hle a ha)

/-- A sorted vector is known by its members. -/
theorem eq_of_mem_iff {l' : List α} (h : l.Pairwise (· < ·)) (h' : l'.Pairwise (· < ·))
    (hmem : ∀ x, x ∈ l ↔ x ∈ l') : l = l' := by
  have hperm : l.Perm l' :=
    (perm_ext_iff_of_nodup (h.imp ne_of_lt) (h'.imp ne_of_lt)).2 hmem
  exact hperm.eq_of_pairwise (fun a b _ _ hab hba => absurd hba hab.not_gt) h h'

theorem pairwise_mergeSort_decide {β : Type*} {r : β → β → Prop} [DecidableRel r]
    (htrans : ∀ a b c, r a b → r b c → r a c) (htotal : ∀ a b, r a b ∨ r b a) (l : List β) :
    (l.mergeSort fun a b => decide (r a b)).Pairwise r := by
  refine (pairwise_mergeSort ?_ ?_ l).imp of_decide_eq_true
  · intro a b c hab hbc
    exact decide_eq_true (htrans a b c (of_decide_eq_true hab) (of_decide_eq_true hbc))
  · intro a b
    simpa using htotal a b

end LiteRt.Lib
