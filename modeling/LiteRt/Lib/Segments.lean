import Mathlib.Data.List.Basic
import Mathlib.Data.List.Chain
import Mathlib.Data.List.Flatten
import Mathlib.Data.List.Nodup

/-!
# Runs of equal keys

A list cut into its maximal runs of equal keys. In a list without repetitions two
elements are in one run when nothing between them has another key.
-/

namespace LiteRt.Lib

open List

variable {α β : Type*}

structure Segments (f : α → β) (l : List α) (segs : List (List α)) : Prop where
  flatten : segs.flatten = l
  ne_nil : ∀ s ∈ segs, s ≠ []
  const : ∀ s ∈ segs, ∀ a ∈ s, ∀ b ∈ s, f a = f b
  change : segs.IsChain fun s s' => ∀ a ∈ s, ∀ b ∈ s', f a ≠ f b

/-- Everything from the one to the other has the same key. -/
def SameRun [DecidableEq α] (f : α → β) (l : List α) (a b : α) : Prop :=
  ∀ c ∈ l, min (l.idxOf a) (l.idxOf b) ≤ l.idxOf c → l.idxOf c ≤ max (l.idxOf a) (l.idxOf b) →
    f c = f a

namespace Segments

variable {f : α → β} {l : List α} {segs : List (List α)} {s : List α} {a b : α}

theorem nil : Segments f [] [] := ⟨rfl, by simp, by simp, .nil⟩

theorem snoc_new (h : Segments f l segs) (hnew : ∀ s, segs.getLast? = some s → ∀ b ∈ s, f b ≠ f a) :
    Segments f (l ++ [a]) (segs ++ [[a]]) where
  flatten := by rw [flatten_append, h.flatten, flatten_singleton]
  ne_nil s hs := by
    rcases mem_append.mp hs with hs | hs
    · exact h.ne_nil s hs
    · rw [mem_singleton.mp hs]
      exact cons_ne_nil _ _
  const s hs x hx y hy := by
    rcases mem_append.mp hs with hs | hs
    · exact h.const s hs x hx y hy
    · rw [mem_singleton.mp hs] at hx hy
      rw [mem_singleton.mp hx, mem_singleton.mp hy]
  change := by
    refine isChain_append.mpr ⟨h.change, isChain_singleton _, fun s hs s' hs' x hx y hy => ?_⟩
    rw [head?_cons, Option.mem_some_iff] at hs'
    rw [← hs', mem_singleton] at hy
    rw [hy]
    exact hnew s hs x hx

theorem snoc_last (h : Segments f l (segs ++ [s])) (hsame : ∀ b ∈ s, f b = f a) :
    Segments f (l ++ [a]) (segs ++ [s ++ [a]]) where
  flatten := by
    rw [← h.flatten]
    simp
  ne_nil s' hs' := by
    rcases mem_append.mp hs' with hs' | hs'
    · exact h.ne_nil s' (mem_append_left _ hs')
    · rw [mem_singleton.mp hs']
      simp
  const s' hs' x hx y hy := by
    rcases mem_append.mp hs' with hs' | hs'
    · exact h.const s' (mem_append_left _ hs') x hx y hy
    · rw [mem_singleton.mp hs'] at hx hy
      have hkey {z : α} (hz : z ∈ s ++ [a]) : f z = f a := by
        rcases mem_append.mp hz with hz | hz
        · exact hsame z hz
        · rw [mem_singleton.mp hz]
      rw [hkey hx, hkey hy]
  change := by
    have hc := isChain_append.mp h.change
    have hne : s ≠ [] := h.ne_nil s (by simp)
    refine isChain_append.mpr ⟨hc.1, isChain_singleton _, fun s₁ hs₁ s₂ hs₂ x hx y hy => ?_⟩
    rw [head?_cons, Option.mem_some_iff] at hs₂
    obtain ⟨z, hz⟩ := exists_mem_of_ne_nil s hne
    have hxz := hc.2.2 s₁ hs₁ s rfl x hx z hz
    rw [← hs₂] at hy
    rcases mem_append.mp hy with hy | hy
    · exact hc.2.2 s₁ hs₁ s rfl x hx y hy
    · rw [mem_singleton.mp hy, ← hsame z hz]
      exact hxz

section
variable [DecidableEq α] (h : Segments f l segs) (hnd : l.Nodup) {s' : List α}

include h

omit [DecidableEq α] in
theorem exists_segment (ha : a ∈ l) : ∃ s ∈ segs, a ∈ s := by
  rw [← h.flatten] at ha
  exact mem_flatten.mp ha

omit [DecidableEq α] in
theorem mem_of_segment (hs : s ∈ segs) (ha : a ∈ s) : a ∈ l :=
  h.flatten ▸ mem_flatten.mpr ⟨s, hs, ha⟩

include hnd

/-- Runs stand in the list one after the other. -/
theorem sorted : (∀ s ∈ segs, s.Pairwise fun a b => l.idxOf a < l.idxOf b) ∧
    segs.Pairwise fun s s' => ∀ a ∈ s, ∀ b ∈ s', l.idxOf a < l.idxOf b := by
  have hl : l.Pairwise fun a b => l.idxOf a < l.idxOf b := by
    refine pairwise_iff_getElem.mpr fun i j hi hj hij => ?_
    rwa [hnd.idxOf_getElem, hnd.idxOf_getElem]
  rw [← h.flatten] at hl
  rw [← h.flatten]
  exact pairwise_flatten.mp hl

/-- Of two different runs one stands in front. -/
theorem lt_or_lt (hs : s ∈ segs) (hs' : s' ∈ segs) (hne : s ≠ s') :
    (∀ a ∈ s, ∀ b ∈ s', l.idxOf a < l.idxOf b) ∨ ∀ a ∈ s, ∀ b ∈ s', l.idxOf b < l.idxOf a := by
  obtain ⟨l₁, l₂, rfl⟩ := append_of_mem hs
  obtain ⟨-, hpair⟩ := h.sorted hnd
  obtain ⟨-, h2, h3⟩ := pairwise_append.mp hpair
  rcases mem_append.mp hs' with hs' | hs'
  · exact .inr fun a ha b hb => h3 s' hs' s (by simp) b hb a ha
  · exact .inl (rel_of_pairwise_cons h2 ((mem_cons.mp hs').resolve_left hne.symm))

theorem sameRun_of_mem (hs : s ∈ segs) (ha : a ∈ s) (hb : b ∈ s) : SameRun f l a b := by
  intro c hc hmin hmax
  obtain ⟨s', hs', hcs⟩ := h.exists_segment hc
  by_cases he : s = s'
  · subst he
    exact h.const s hs c hcs a ha
  · rcases h.lt_or_lt hnd hs hs' he with hlt | hlt
    · have h1 := hlt a ha c hcs
      have h2 := hlt b hb c hcs
      omega
    · have h1 := hlt a ha c hcs
      have h2 := hlt b hb c hcs
      omega

/-- Behind a run another key comes before any later run. -/
theorem not_sameRun_of_lt {l₁ l₂ : List (List α)} (hsplit : segs = l₁ ++ s :: l₂) (hs' : s' ∈ l₂)
    (ha : a ∈ s) (hb : b ∈ s') : ¬ SameRun f l a b ∧ ¬ SameRun f l b a := by
  obtain ⟨-, hpair⟩ := h.sorted hnd
  obtain ⟨s₁, l₃, rfl⟩ := exists_cons_of_ne_nil (ne_nil_of_mem hs')
  have hs₁ : s₁ ∈ segs := by simp [hsplit]
  have hchange : ∀ x ∈ s, ∀ y ∈ s₁, f x ≠ f y := by
    have hc := h.change
    rw [hsplit] at hc
    exact (isChain_cons_cons.mp (isChain_append.mp hc).2.1).1
  rw [hsplit] at hpair
  obtain ⟨-, h2, -⟩ := pairwise_append.mp hpair
  have hab := rel_of_pairwise_cons h2 hs' a ha b hb
  -- an element of the next run that is not behind `b`
  obtain ⟨c, hc, hcb⟩ : ∃ c ∈ s₁, l.idxOf c ≤ l.idxOf b := by
    rcases mem_cons.mp hs' with rfl | hs'
    · exact ⟨b, hb, Nat.le_refl _⟩
    · obtain ⟨c, hc⟩ := exists_mem_of_ne_nil s₁ (h.ne_nil s₁ hs₁)
      exact ⟨c, hc, Nat.le_of_lt (rel_of_pairwise_cons (pairwise_cons.mp h2).2 hs' c hc b hb)⟩
  have hac := rel_of_pairwise_cons h2 (mem_cons_self (a := s₁)) a ha c hc
  have hcl := h.mem_of_segment hs₁ hc
  have hal := h.mem_of_segment (show s ∈ segs by simp [hsplit]) ha
  refine ⟨fun hrun => ?_, fun hrun => ?_⟩
  · exact hchange a ha c hc (hrun c hcl (by omega) (by omega)).symm
  · have h1 := hrun c hcl (by omega) (by omega)
    have h2 := hrun a hal (by omega) (by omega)
    exact hchange a ha c hc (h2.trans h1.symm)

/-- The runs are the classes. -/
theorem sameRun_iff (hs : s ∈ segs) (hs' : s' ∈ segs) (ha : a ∈ s) (hb : b ∈ s') :
    SameRun f l a b ↔ s = s' := by
  constructor
  · intro hrun
    by_contra hne
    obtain ⟨l₁, l₂, hsplit⟩ := append_of_mem hs
    rw [hsplit] at hs'
    rcases mem_append.mp hs' with hs' | hs'
    · obtain ⟨l₃, l₄, rfl⟩ := append_of_mem hs'
      have hsplit' : segs = l₃ ++ s' :: (l₄ ++ s :: l₂) := by simp [hsplit]
      exact (h.not_sameRun_of_lt hnd hsplit' (by simp) hb ha).2 hrun
    · exact (h.not_sameRun_of_lt hnd hsplit ((mem_cons.mp hs').resolve_left
        fun he => hne he.symm) ha hb).1 hrun
  · rintro rfl
    exact h.sameRun_of_mem hnd hs ha hb

end

end Segments

end LiteRt.Lib
