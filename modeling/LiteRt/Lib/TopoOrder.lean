import Mathlib.Data.List.Basic

/-!
# Topological orders

`Topological dep l`: no element of `l` depends on itself or on a later element.
Sublists keep the order, and a block spliced into a sorted list keeps it when the
edges between block and list point the right way.
-/

namespace LiteRt.Lib

open List

variable {α : Type*} {dep dep' : α → α → Prop} {l l₁ l₂ m : List α}

structure Topological (dep : α → α → Prop) (l : List α) : Prop where
  irrefl : ∀ a ∈ l, ¬ dep a a
  sorted : l.Pairwise fun a b => ¬ dep a b

namespace Topological

theorem sublist (h : Topological dep l) (hs : l₁.Sublist l) : Topological dep l₁ :=
  ⟨fun a ha => h.irrefl a (hs.subset ha), h.sorted.sublist hs⟩

theorem filter (h : Topological dep l) (p : α → Bool) : Topological dep (l.filter p) :=
  h.sublist filter_sublist

/-- Only the dependencies between elements of the list count. -/
theorem mono (h : Topological dep l) (hd : ∀ a ∈ l, ∀ b ∈ l, dep' a b → dep a b) :
    Topological dep' l :=
  ⟨fun a ha hda => h.irrefl a ha (hd a ha a ha hda),
    h.sorted.imp_of_mem fun ha hb hn hda => hn (hd _ ha _ hb hda)⟩

theorem append_iff : Topological dep (l₁ ++ l₂) ↔
    Topological dep l₁ ∧ Topological dep l₂ ∧ ∀ a ∈ l₁, ∀ b ∈ l₂, ¬ dep a b := by
  constructor
  · intro h
    obtain ⟨h1, h2, h3⟩ := pairwise_append.mp h.sorted
    exact ⟨h.sublist (sublist_append_left _ _), h.sublist (sublist_append_right _ _), h3⟩
  · rintro ⟨h1, h2, h3⟩
    refine ⟨fun a ha => ?_, pairwise_append.mpr ⟨h1.sorted, h2.sorted, h3⟩⟩
    rcases mem_append.mp ha with ha | ha
    · exact h1.irrefl a ha
    · exact h2.irrefl a ha

/-- A block between two parts of a sorted list. -/
theorem splice_iff (h : Topological dep (l₁ ++ l₂)) (hm : Topological dep m)
    (hout : ∀ a ∈ l₁, ∀ b ∈ m, ¬ dep a b) :
    Topological dep (l₁ ++ m ++ l₂) ↔ ∀ a ∈ m, ∀ b ∈ l₂, ¬ dep a b := by
  obtain ⟨h1, h2, h3⟩ := append_iff.mp h
  rw [append_iff, append_iff]
  constructor
  · rintro ⟨-, -, hx⟩ a ha b hb
    exact hx a (mem_append_right _ ha) b hb
  · intro hx
    refine ⟨⟨h1, hm, hout⟩, h2, fun a ha b hb => ?_⟩
    rcases mem_append.mp ha with ha | ha
    · exact h3 a ha b hb
    · exact hx a ha b hb

/-- Elements without dependencies do not count. -/
theorem filter_iff {p : α → Bool} (hdep : ∀ a ∈ l, ∀ b ∈ l, dep a b → p a ∧ p b) :
    Topological dep (l.filter p) ↔ Topological dep l := by
  refine ⟨fun h => ⟨fun a ha hda => ?_, ?_⟩, fun h => h.filter p⟩
  · exact h.irrefl a (mem_filter.mpr ⟨ha, (hdep a ha a ha hda).1⟩) hda
  · refine (pairwise_filter.mp h.sorted).imp_of_mem fun {a b} ha hb hn hda => ?_
    exact hn (hdep a ha b hb hda).1 (hdep a ha b hb hda).2 hda

/-- The order in terms of positions. -/
theorem iff_idxOf [DecidableEq α] (hnd : l.Nodup) : Topological dep l ↔
    ∀ a ∈ l, ∀ b ∈ l, dep a b → l.idxOf b < l.idxOf a := by
  constructor
  · intro h a ha b hb hda
    by_contra hle
    have hab : a ≠ b := fun he => h.irrefl a ha (he ▸ hda)
    have hne : l.idxOf a ≠ l.idxOf b := fun he => hab ((idxOf_inj ha).mp he)
    have hlt : l.idxOf a < l.idxOf b := by omega
    refine pairwise_iff_getElem.mp h.sorted _ _ (idxOf_lt_length_of_mem ha)
      (idxOf_lt_length_of_mem hb) hlt ?_
    rwa [getElem_idxOf, getElem_idxOf]
  · intro h
    refine ⟨fun a ha hda => Nat.lt_irrefl _ (h a ha a ha hda), ?_⟩
    refine pairwise_iff_getElem.mpr fun i j hi hj hij hda => ?_
    have := h _ (getElem_mem hi) _ (getElem_mem hj) hda
    rw [hnd.idxOf_getElem, hnd.idxOf_getElem] at this
    omega

end Topological

/-! ## Blocks -/

/-- The dependencies between different blocks, `φ` the element that stands for the block of
an element. -/
def Collapse (dep : α → α → Prop) (φ : α → α) (a b : α) : Prop :=
  a ≠ b ∧ ∃ x y, φ x = a ∧ φ y = b ∧ dep x y

theorem collapse_id (hirrefl : ∀ a, ¬ dep a a) (a b : α) : Collapse dep id a b ↔ dep a b := by
  constructor
  · rintro ⟨-, x, y, rfl, rfl, h⟩
    exact h
  · intro h
    exact ⟨fun he => hirrefl a (he ▸ h), a, b, rfl, rfl, h⟩

/-- Blocks of blocks. -/
theorem collapse_collapse (dep : α → α → Prop) (φ ψ : α → α) (a b : α) :
    Collapse (Collapse dep φ) ψ a b ↔ Collapse dep (ψ ∘ φ) a b := by
  constructor
  · rintro ⟨hne, -, -, rfl, rfl, -, x, y, rfl, rfl, h⟩
    exact ⟨hne, x, y, rfl, rfl, h⟩
  · rintro ⟨hne, x, y, rfl, rfl, h⟩
    exact ⟨hne, _, _, rfl, rfl, fun he => hne (congrArg ψ he), x, y, rfl, rfl, h⟩

end LiteRt.Lib
