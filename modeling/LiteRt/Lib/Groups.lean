import Mathlib.Data.List.Perm.Basic
import Mathlib.Data.Finite.Defs
import Mathlib.Data.Fintype.EquivFin
import Mathlib.Logic.Relation
import Mathlib.Order.WellFounded

/-!
# Groups in order

A list of groups respects a relation when the first of two related elements comes in an
earlier group than the second one, or in the same group. Joining neighbouring groups keeps
that. Where a finite relation has no cycle, induction along it is possible.
-/

namespace LiteRt.Lib

variable {α : Type*} {r : α → α → Prop}

def Respects (r : α → α → Prop) (groups : List (List α)) : Prop :=
  ∀ pre g post, groups = pre ++ g :: post → ∀ b ∈ g, ∀ a, r a b → a ∈ pre.flatten ++ g

/-- Joining neighbouring groups. -/
theorem Respects.join {blocks : List (List (List α))} (h : Respects r blocks.flatten) :
    Respects r (blocks.map List.flatten) := by
  intro pre' g' post' hsplit b hb a hr
  obtain ⟨pre, rest, rfl, rfl, hrest⟩ := List.map_eq_append_iff.mp hsplit
  obtain ⟨block, post, rfl, rfl, rfl⟩ := List.map_eq_cons_iff.mp hrest
  obtain ⟨g, hg, hbg⟩ := List.mem_flatten.mp hb
  obtain ⟨u, v, rfl⟩ := List.append_of_mem hg
  have ha := h (pre.flatten ++ u) g (v ++ post.flatten) (by simp) b hbg a hr
  simp only [List.flatten_append, List.mem_append, List.flatten_cons, List.flatten_flatten] at ha ⊢
  tauto

/-- Each element is in one of the groups in front, or in the group itself. -/
theorem respects_map {β : Type*} {f : β → List α} {l : List β} : Respects r (l.map f) ↔
    ∀ pre x post, l = pre ++ x :: post → ∀ b ∈ f x, ∀ a, r a b → ∃ y ∈ pre ++ [x], a ∈ f y := by
  have hmem (pre : List β) (x : β) (a : α) : a ∈ (pre.map f).flatten ++ f x ↔
      ∃ y ∈ pre ++ [x], a ∈ f y := by
    simp [or_and_right, exists_or]
  constructor
  · rintro h pre x post rfl b hb a hr
    exact (hmem pre x a).mp (h (pre.map f) (f x) (post.map f) (by simp) b hb a hr)
  · intro h pre' g' post' hsplit b hb a hr
    obtain ⟨pre, rest, rfl, rfl, hrest⟩ := List.map_eq_append_iff.mp hsplit
    obtain ⟨x, post, rfl, rfl, rfl⟩ := List.map_eq_cons_iff.mp hrest
    exact (hmem pre x a).mpr (h pre x post rfl b hb a hr)

/-- Induction along a relation without cycles on finitely many numbers. -/
theorem acyclic_induction {r : Nat → Nat → Prop} {n : Nat}
    (hlt : ∀ i j, r i j → i < n ∧ j < n) (hacyclic : ∀ i, ¬ Relation.TransGen r i i)
    {P : Nat → Prop} (hstep : ∀ j, j < n → (∀ i, r i j → P i) → P j) {j : Nat} (hj : j < n) :
    P j := by
  let before (i j : Fin n) : Prop := Relation.TransGen r i j
  have hcycle (i : Fin n) : ¬ Relation.TransGen r i i := hacyclic i
  have : IsTrans (Fin n) before := ⟨fun _ _ _ => Relation.TransGen.trans⟩
  have : Std.Irrefl before := ⟨fun i => hcycle i⟩
  have hwf : WellFounded before := Finite.wellFounded_of_trans_of_irrefl before
  have hall (j : Fin n) : P j := by
    induction j using hwf.induction with
    | _ j ih => exact hstep j j.isLt fun i hr => ih ⟨i, (hlt i j hr).1⟩ (.single hr)
  exact hall ⟨j, hj⟩

end LiteRt.Lib
