import Mathlib.Data.List.Forall2
import Mathlib.Data.List.NodupEquivFin
import Mathlib.Data.List.OfFn

/-!
# Subsequences up to a relation

A list embeds into another one if its elements are related to elements of the other one at
increasing places. If the first elements are related, matching them loses nothing.
-/

namespace LiteRt.Lib

variable {α β : Type*} {R : α → β → Prop} {a : α} {b : β} {l₁ : List α} {l₂ : List β}

open List

/-- The places, one after the other, to which the elements are assigned. -/
def Embeds (R : α → β → Prop) (l₁ : List α) (l₂ : List β) : Prop :=
  ∃ f : Fin l₁.length → Fin l₂.length, StrictMono f ∧ ∀ i, R (l₁.get i) (l₂.get (f i))

theorem embeds_iff : Embeds R l₁ l₂ ↔ SublistForall₂ R l₁ l₂ := by
  rw [sublistForall₂_iff]
  constructor
  · rintro ⟨f, hf, hrel⟩
    refine ⟨ofFn fun i => l₂.get (f i), forall₂_iff_get.2 ⟨by rw [length_ofFn], ?_⟩, ?_⟩
    · intro i hi hi'
      rw [get_ofFn]
      exact hrel ⟨i, hi⟩
    · refine sublist_iff_exists_fin_orderEmbedding_get_eq.2
        ⟨(Fin.castOrderIso length_ofFn).toOrderEmbedding.trans
          (OrderEmbedding.ofStrictMono f hf), fun i => ?_⟩
      rw [get_ofFn]
      rfl
  · rintro ⟨l, hrel, hsub⟩
    obtain ⟨hlen, hget⟩ := forall₂_iff_get.1 hrel
    obtain ⟨f, hf⟩ := sublist_iff_exists_fin_orderEmbedding_get_eq.1 hsub
    refine ⟨fun i => f (Fin.cast hlen i), fun i j hij => f.strictMono hij, fun i => ?_⟩
    rw [← hf]
    exact hget i.1 i.2 _

theorem embeds_nil (l₂ : List β) : Embeds R [] l₂ := embeds_iff.2 .nil

theorem Embeds.length_le (h : Embeds R l₁ l₂) : l₁.length ≤ l₂.length := by
  obtain ⟨l, hrel, hsub⟩ := sublistForall₂_iff.1 (embeds_iff.1 h)
  rw [hrel.length_eq]
  exact hsub.length_le

/-- Matching related first elements loses nothing. -/
theorem embeds_cons_of_rel (h : R a b) : Embeds R (a :: l₁) (b :: l₂) ↔ Embeds R l₁ l₂ := by
  rw [embeds_iff, embeds_iff]
  constructor
  · intro hemb
    cases hemb with
    | cons _ hrest => exact hrest
    | cons_right hrest =>
      obtain ⟨l, hrel, hsub⟩ := sublistForall₂_iff.1 hrest
      obtain ⟨c, l', -, hrel', rfl⟩ := forall₂_cons_left_iff.1 hrel
      exact sublistForall₂_iff.2 ⟨l', hrel', (sublist_cons_self c l').trans hsub⟩
  · exact .cons h

theorem embeds_cons_of_not_rel (h : ¬R a b) :
    Embeds R (a :: l₁) (b :: l₂) ↔ Embeds R (a :: l₁) l₂ := by
  rw [embeds_iff, embeds_iff]
  constructor
  · intro hemb
    cases hemb with
    | cons hab _ => exact absurd hab h
    | cons_right hrest => exact hrest
  · exact .cons_right

end LiteRt.Lib
