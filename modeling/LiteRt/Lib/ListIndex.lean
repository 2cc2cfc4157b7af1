import Mathlib.Data.List.Nodup
import Mathlib.Data.List.NodupEquivFin
import Mathlib.Data.List.Perm.Basic
import Mathlib.Data.Nat.Find

/-!
# Lists by position

Lookups after an append or an erasure, and how often a value occurs around one
position.
-/

namespace LiteRt.Lib

open List

variable {α : Type*} {l : List α} {a : α} {i : Nat} {β : Type*} {b : α}

theorem getElem?_snoc_eq_some {a b : α} :
    (l ++ [a])[i]? = some b ↔ l[i]? = some b ∨ (i = l.length ∧ a = b) := by
  rcases Nat.lt_trichotomy i l.length with h | h | h
  · rw [getElem?_append_left h]
    simp [Nat.ne_of_lt h]
  · subst h
    simp
  · rw [getElem?_append_right (Nat.le_of_lt h), getElem?_eq_none (Nat.le_of_lt h),
      getElem?_eq_none (by simp; omega)]
    simp [Nat.ne_of_gt h]

/-- What holds of each element and those before it, for a list with one more in front. -/
theorem forall_split_cons {P : List α → α → Prop} :
    (∀ before b after, a :: l = before ++ b :: after → P before b) ↔
      P [] a ∧ ∀ before b after, l = before ++ b :: after → P (a :: before) b := by
  constructor
  · intro h
    refine ⟨h [] a l rfl, fun before b after heq => h (a :: before) b after ?_⟩
    rw [heq, cons_append]
  · rintro ⟨hhead, htail⟩ before b after heq
    cases before with
    | nil =>
      obtain ⟨rfl, -⟩ := List.cons.inj heq
      exact hhead
    | cons c before =>
      obtain ⟨rfl, hrest⟩ := List.cons.inj heq
      exact htail before b after hrest

theorem insertIdx_length_append (l₁ l₂ : List α) (a : α) :
    (l₁ ++ l₂).insertIdx l₁.length a = l₁ ++ a :: l₂ := by
  induction l₁ with
  | nil => rfl
  | cons b l₁ ih => simp [ih]

/-- Erasing one occurrence lowers the count of its value by one. -/
theorem count_eraseIdx_of_getElem? [BEq α] [LawfulBEq α] (h : l[i]? = some b) (a : α) :
    l.count a = (l.eraseIdx i).count a + if b == a then 1 else 0 := by
  obtain ⟨hi, rfl⟩ := List.getElem?_eq_some_iff.mp h
  rw [← (getElem_cons_eraseIdx_perm hi).count_eq, count_cons]

theorem countP_eraseIdx_of_getElem? (p : α → Bool) (h : l[i]? = some b) :
    l.countP p = (l.eraseIdx i).countP p + if p b then 1 else 0 := by
  obtain ⟨hi, rfl⟩ := List.getElem?_eq_some_iff.mp h
  rw [← (getElem_cons_eraseIdx_perm hi).countP_eq, countP_cons]

/-- Erasing a value that a filter drops. -/
theorem filter_eraseIdx_of_getElem? (p : α → Bool) (h : l[i]? = some b) (hb : p b = false) :
    (l.eraseIdx i).filter p = l.filter p := by
  induction l generalizing i with
  | nil => simp at h
  | cons a l ih =>
    cases i with
    | zero =>
      obtain rfl : a = b := by simpa using h
      simp [hb]
    | succ i => simp [filter_cons, ih (by simpa using h)]

/-- A value that occurs once stands at one position. -/
theorem getElem?_inj_of_count_le_one [DecidableEq α] (h : l.count a ≤ 1) {i j : Nat}
    (hi : l[i]? = some a) (hj : l[j]? = some a) : i = j := by
  induction l generalizing i j with
  | nil => simp at hi
  | cons b l ih =>
    by_cases hb : b = a
    · subst hb
      have hnot : b ∉ l := by
        rw [count_cons_self] at h
        exact count_eq_zero.mp (by omega)
      cases i with
      | zero =>
        cases j with
        | zero => rfl
        | succ j => exact absurd (mem_of_getElem? (by simpa using hj)) hnot
      | succ i => exact absurd (mem_of_getElem? (by simpa using hi)) hnot
    · rw [count_cons_of_ne hb] at h
      cases i with
      | zero => exact absurd (by simpa using hi) hb
      | succ i =>
        cases j with
        | zero => exact absurd (by simpa using hj) hb
        | succ j => exact congrArg (· + 1) (ih h (by simpa using hi) (by simpa using hj))

/-- How often a position is paired with one value. -/
theorem count_zipIdx_filter [DecidableEq α] [DecidableEq β] (l : List α) (a : α) (o o' : β)
    (i k : Nat) :
    (((l.zipIdx k).filter fun p => p.1 = a).map fun p => (o, p.2)).count (o', i) =
      if o' = o ∧ k ≤ i ∧ l[i - k]? = some a then 1 else 0 := by
  induction l generalizing k with
  | nil => simp
  | cons b l ih =>
    rw [zipIdx_cons, filter_cons]
    have hstep : (o' = o ∧ k ≤ i ∧ (b :: l)[i - k]? = some a) ↔
        (o' = o ∧ i = k ∧ b = a) ∨ (o' = o ∧ k + 1 ≤ i ∧ l[i - (k + 1)]? = some a) := by
      rcases Nat.lt_trichotomy i k with h | rfl | h
      · omega
      · simp
      · have h1 : i - k = (i - (k + 1)) + 1 := by omega
        rw [h1, getElem?_cons_succ]
        constructor
        · rintro ⟨h2, -, h3⟩
          exact .inr ⟨h2, h, h3⟩
        · rintro (⟨-, h2, -⟩ | ⟨h2, -, h3⟩)
          · omega
          · exact ⟨h2, by omega, h3⟩
    rw [if_congr hstep rfl rfl]
    by_cases hb : b = a
    · subst hb
      rw [if_pos (by simp), map_cons, count_cons, ih]
      by_cases ho : o' = o
      · subst ho
        by_cases hi : i = k
        · subst hi
          simp
        · simp [hi, Ne.symm hi]
      · simp [ho, Ne.symm ho]
    · rw [if_neg (by simpa using hb), ih]
      simp [hb]

/-- A predicate that is stronger than another one and holds as often is the same. -/
theorem forall_of_countP_le {p q : α → Bool} (h : ∀ a, p a → q a) (hc : l.countP q ≤ l.countP p) :
    ∀ a ∈ l, q a → p a := by
  intro a ha hq
  have hpq : (l.filter q).filter p = l.filter p := by
    rw [filter_filter]
    exact filter_congr fun b _ => by
      have := h b
      cases hp : p b <;> simp_all
  have hlen : ((l.filter q).filter p).length = (l.filter q).length := by
    rw [hpq]
    refine Nat.le_antisymm ?_ (by simpa only [← countP_eq_length_filter] using hc)
    rw [← hpq]
    exact length_filter_le _ _
  exact length_filter_eq_length_iff.mp hlen a (mem_filter.mpr ⟨ha, hq⟩)

/-- A list with a repeated element has a last position of it, after another one. -/
theorem exists_last_of_not_nodup [DecidableEq α] (h : ¬ l.Nodup) :
    ∃ (a : α) (j : Nat), 2 ≤ l.count a ∧ 0 < j ∧ l[j]? = some a ∧ ∀ k, l[k]? = some a → k ≤ j := by
  obtain ⟨a, hdup⟩ := exists_duplicate_iff_not_nodup.mpr h
  obtain ⟨m, n, hmn, -, hn⟩ := duplicate_iff_exists_distinct_get.mp hdup
  let P : Nat → Prop := fun k => l[k]? = some a
  have hn : P n := by simp [P, hn]
  have hP : P (Nat.findGreatest P l.length) := Nat.findGreatest_spec (Nat.le_of_lt n.isLt) hn
  have hle : ∀ k, P k → k ≤ Nat.findGreatest P l.length := fun k hk =>
    Nat.le_findGreatest (Nat.le_of_lt (List.getElem?_eq_some_iff.mp hk).1) hk
  exact ⟨a, _, duplicate_iff_two_le_count.mp hdup,
    Nat.lt_of_le_of_lt (Nat.zero_le m) (Nat.lt_of_lt_of_le hmn (hle n hn)), hP, hle⟩

/-- The elements at the positions `j, j + 1, …` that `p` keeps. -/
def keepIdx (p : Nat → Bool) : Nat → List α → List α
  | _, [] => []
  | j, a :: l => if p j then a :: keepIdx p (j + 1) l else keepIdx p (j + 1) l

theorem keepIdx_sublist (p : Nat → Bool) (j : Nat) (l : List α) : (keepIdx p j l).Sublist l := by
  induction l generalizing j with
  | nil => exact .slnil
  | cons a l ih =>
    rw [keepIdx]
    split
    · exact (ih _).cons_cons a
    · exact (ih _).cons a

theorem keepIdx_eq_self {p : Nat → Bool} (h : ∀ j, p j = true) (j : Nat) (l : List α) :
    keepIdx p j l = l := by
  induction l generalizing j with
  | nil => rfl
  | cons a l ih => rw [keepIdx, if_pos (h j), ih]

/-- A kept element moves to the front by the number of dropped ones before it. -/
theorem getElem?_keepIdx (p : Nat → Bool) {j d : Nat} (ha : l[d]? = some a)
    (hp : p (j + d) = true) :
    (keepIdx p j l)[(List.range' j d).countP p]? = some a := by
  induction l generalizing j d with
  | nil => simp at ha
  | cons b l ih =>
    cases d with
    | zero =>
      have hj : p j = true := hp
      simpa [keepIdx, hj] using ha
    | succ d =>
      have := ih (j := j + 1) (by simpa using ha) (by rwa [Nat.add_right_comm])
      rw [keepIdx, range'_succ, countP_cons]
      split <;> simpa using this

theorem mem_keepIdx (p : Nat → Bool) {j : Nat} :
    a ∈ keepIdx p j l ↔ ∃ d, l[d]? = some a ∧ p (j + d) = true := by
  induction l generalizing j with
  | nil => simp [keepIdx]
  | cons b l ih =>
    have hsucc : (∃ d, (b :: l)[d]? = some a ∧ p (j + d) = true) ↔
        (b = a ∧ p j = true) ∨ ∃ d, l[d]? = some a ∧ p (j + 1 + d) = true := by
      constructor
      · rintro ⟨_ | d, h1, h2⟩
        · exact .inl ⟨by simpa using h1, h2⟩
        · exact .inr ⟨d, by simpa using h1, by rwa [Nat.add_right_comm]⟩
      · rintro (⟨h1, h2⟩ | ⟨d, h1, h2⟩)
        · exact ⟨0, by simpa using h1, h2⟩
        · exact ⟨d + 1, by simpa using h1, by rwa [Nat.add_right_comm] at h2⟩
    rw [hsucc, ← ih, keepIdx]
    split
    · next hp => simp [hp, eq_comm]
    · next hp => simp [hp]

/-- Dropping other elements keeps the order of two first occurrences. -/
theorem idxOf_lt_of_filter [DecidableEq α] {q : β → Bool} {f : β → α} {l : List β} {a b : α}
    (hq : ∀ p ∈ l, f p = a ∨ f p = b → q p)
    (h : ((l.filter q).map f).idxOf a < ((l.filter q).map f).idxOf b) :
    (l.map f).idxOf a < (l.map f).idxOf b := by
  induction l with
  | nil => simp at h
  | cons p l ih =>
    have ih := ih fun p' hp' => hq p' (mem_cons_of_mem p hp')
    rw [map_cons]
    by_cases hpa : f p = a
    · by_cases hpb : f p = b
      · exact absurd h (by rw [← hpa, ← hpb]; exact Nat.lt_irrefl _)
      · rw [← hpa, idxOf_cons_self, idxOf_cons_ne _ hpb]
        exact Nat.succ_pos _
    · rw [idxOf_cons_ne _ hpa]
      by_cases hpb : f p = b
      · rw [filter_cons_of_pos (hq p (by simp) (.inr hpb)), map_cons, ← hpb, idxOf_cons_self] at h
        exact absurd h (Nat.not_lt_zero _)
      · rw [idxOf_cons_ne _ hpb]
        refine Nat.succ_lt_succ (ih ?_)
        cases hp : q p with
        | true =>
          rw [filter_cons_of_pos hp, map_cons, idxOf_cons_ne _ hpa, idxOf_cons_ne _ hpb] at h
          exact Nat.lt_of_succ_lt_succ h
        | false => rwa [filter_cons_of_neg (by simp [hp])] at h

/-! ## Names in pairs -/

theorem mem_zip_map (f : α → β) (h : a ∈ l) :
    (a, f a) ∈ l.zip (l.map f) := by
  obtain ⟨i, hi⟩ := mem_iff_getElem?.mp h
  exact mem_of_getElem? (getElem?_zip_eq_some.mpr ⟨hi, by rw [getElem?_map, hi, Option.map_some]⟩)

theorem mem_map_zip (f : α → β) (h : a ∈ l) :
    (f a, a) ∈ (l.map f).zip l := by
  obtain ⟨i, hi⟩ := mem_iff_getElem?.mp h
  exact mem_of_getElem? (getElem?_zip_eq_some.mpr ⟨by rw [getElem?_map, hi, Option.map_some], hi⟩)

/-- Lists without a common element: an element tells the position of its list. -/
theorem getElem?_inj_of_nodup_flatten {L : List (List α)} (h : L.flatten.Nodup) {k m : Nat}
    {E E' : List α} (hk : L[k]? = some E) (hm : L[m]? = some E') (ha : a ∈ E) (ha' : a ∈ E') :
    k = m := by
  obtain ⟨hlt, rfl⟩ := List.getElem?_eq_some_iff.mp hk
  obtain ⟨hlt', rfl⟩ := List.getElem?_eq_some_iff.mp hm
  have hpair := pairwise_iff_getElem.mp (nodup_flatten.mp h).2
  rcases Nat.lt_trichotomy k m with hkm | hkm | hkm
  · exact absurd ha' (disjoint_left.mp (hpair k m hlt hlt' hkm) ha)
  · exact hkm
  · exact absurd ha (disjoint_left.mp (hpair m k hlt' hlt hkm) ha')

end LiteRt.Lib
