import Mathlib.Data.List.Basic

/-!
# Searching with a bad-character shift

A window over a text is moved by the distance of the last occurrence of the window's last
character before the end of the pattern. No place is skipped at which the pattern stands.
-/

namespace LiteRt.Lib

variable {α : Type*} [DecidableEq α] {text pattern : List α} {p q : Nat} {c : α} {q₁ q₂ : Nat}

/-- The pattern stands in the text from `p` on. -/
def StandsAt (text pattern : List α) (p : Nat) : Prop :=
  ∀ i < pattern.length, text[p + i]? = pattern[i]?

instance (text pattern : List α) : DecidablePred (StandsAt text pattern) :=
  fun p => inferInstanceAs (Decidable (∀ i < pattern.length, text[p + i]? = pattern[i]?))

/-- The distance of the last `c` from the end, the end itself apart. -/
def shift (pattern : List α) (c : α) : Nat :=
  (List.range (pattern.length - 1)).foldl
    (fun s i => if pattern[i]? = some c then pattern.length - i - 1 else s) pattern.length

omit [DecidableEq α] in
theorem StandsAt.le_length (h : StandsAt text pattern p) (hpos : 0 < pattern.length) :
    p + pattern.length ≤ text.length := by
  have hlast := h (pattern.length - 1) (by omega)
  have hsome : pattern[pattern.length - 1]? = some pattern[pattern.length - 1] :=
    List.getElem?_eq_getElem (by omega)
  rw [hsome] at hlast
  have hlt := (List.getElem?_eq_some_iff.1 hlast).1
  omega

/-- A fold over indices ends with the value of the last one that counts. -/
theorem shift_fold (n : Nat) :
    ∀ s : Nat, 0 < s → n < pattern.length → 0 < (List.range n).foldl
        (fun s i => if pattern[i]? = some c then pattern.length - i - 1 else s) s ∧
      ∀ i < n, pattern[i]? = some c → (List.range n).foldl
        (fun s i => if pattern[i]? = some c then pattern.length - i - 1 else s) s ≤
          pattern.length - i - 1 := by
  induction n with
  | zero => exact fun s hs _ => ⟨hs, fun i hi => absurd hi (Nat.not_lt_zero i)⟩
  | succ n ih =>
    intro s hs hn
    obtain ⟨hpos, hle⟩ := ih s hs (by omega)
    rw [List.range_succ, List.foldl_append, List.foldl_cons, List.foldl_nil]
    by_cases hc : pattern[n]? = some c
    · rw [if_pos hc]
      refine ⟨by omega, fun i hi _ => by omega⟩
    · rw [if_neg hc]
      refine ⟨hpos, fun i hi hic => ?_⟩
      obtain rfl | hlt := Nat.eq_or_lt_of_le (Nat.lt_succ_iff.1 hi)
      · exact absurd hic hc
      · exact hle i hlt hic

theorem shift_pos (hpos : 0 < pattern.length) (c : α) : 0 < shift pattern c :=
  (shift_fold (pattern.length - 1) pattern.length hpos (by omega)).1

theorem shift_le {i : Nat} (hi : i + 1 < pattern.length) (hc : pattern[i]? = some c) :
    shift pattern c ≤ pattern.length - i - 1 :=
  (shift_fold (pattern.length - 1) pattern.length (by omega) (by omega)).2 i (by omega) hc

theorem shift_le_length (pattern : List α) (c : α) : shift pattern c ≤ pattern.length := by
  unfold shift
  generalize pattern.length - 1 = n
  induction n with
  | zero => exact Nat.le_refl _
  | succ n ih =>
    rw [List.range_succ, List.foldl_append, List.foldl_cons, List.foldl_nil]
    split
    · omega
    · exact ih

theorem not_standsAt_between (hpos : 0 < pattern.length)
    (hc : text[p + (pattern.length - 1)]? = some c) (hpq : p < q)
    (hq : q < p + shift pattern c) : ¬StandsAt text pattern q := by
  intro hstands
  by_cases hfar : p + pattern.length ≤ q
  · have hle := shift_le_length pattern c
    omega
  · have hi : p + (pattern.length - 1) - q + 1 < pattern.length := by omega
    have hat := hstands (p + (pattern.length - 1) - q) (by omega)
    rw [show q + (p + (pattern.length - 1) - q) = p + (pattern.length - 1) by omega, hc] at hat
    have hle := shift_le hi hat.symm
    omega

/-- The window that ends at the index agrees, as far as it lies inside the text. -/
def Agrees (text pattern : List α) (e : Nat) : Prop :=
  ∀ i < pattern.length, i ≤ e → text[e - i]? = pattern[pattern.length - i - 1]?

instance (text pattern : List α) : DecidablePred (Agrees text pattern) :=
  fun e => inferInstanceAs (Decidable
    (∀ i < pattern.length, i ≤ e → text[e - i]? = pattern[pattern.length - i - 1]?))

omit [DecidableEq α] in
theorem agrees_iff (hpos : 0 < pattern.length) :
    Agrees text pattern (p + (pattern.length - 1)) ↔ StandsAt text pattern p := by
  constructor
  · intro h i hi
    have hat := h (pattern.length - 1 - i) (by omega) (by omega)
    rw [show p + (pattern.length - 1) - (pattern.length - 1 - i) = p + i by omega,
      show pattern.length - (pattern.length - 1 - i) - 1 = i by omega] at hat
    exact hat
  · intro h i hi _
    rw [← h (pattern.length - i - 1) (by omega)]
    congr 1
    omega

/-- The ends of the windows that the search looks at, from the first one on. -/
inductive Probed (text pattern : List α) (p : Nat) : Nat → Prop where
  | start : Probed text pattern p p
  | next {q : Nat} {c : α} : Probed text pattern p q → text[q]? = some c →
    ¬Agrees text pattern q → Probed text pattern p (q + shift pattern c)

theorem Probed.le (h : Probed text pattern p q) : p ≤ q := by
  induction h with
  | start => exact Nat.le_refl _
  | next _ _ _ ih => exact Nat.le_trans ih (Nat.le_add_right _ _)

/-- What is looked at from the next window on is looked at from this one. -/
theorem Probed.of_next (hc : text[p]? = some c) (hnot : ¬Agrees text pattern p)
    (h : Probed text pattern (p + shift pattern c) q) : Probed text pattern p q := by
  induction h with
  | start => exact .next .start hc hnot
  | next _ hc hnot ih => exact .next ih hc hnot

theorem Probed.cases_start (h : Probed text pattern p q) :
    q = p ∨ ∃ c, text[p]? = some c ∧ ¬Agrees text pattern p ∧
      Probed text pattern (p + shift pattern c) q := by
  induction h with
  | start => exact .inl rfl
  | next _ hc hnot ih =>
    obtain rfl | ⟨d, hd, hnot', hrest⟩ := ih
    · exact .inr ⟨_, hc, hnot, .start⟩
    · exact .inr ⟨d, hd, hnot', .next hrest hc hnot⟩

/-- Of two windows one comes first. -/
theorem Probed.linear (h₁ : Probed text pattern p q₁) (h₂ : Probed text pattern p q₂) :
    Probed text pattern q₁ q₂ ∨ Probed text pattern q₂ q₁ := by
  induction h₁ with
  | start => exact .inl h₂
  | next _ hc hnot ih =>
    obtain hbehind | hbefore := ih
    · obtain rfl | ⟨d, hd, _, hrest⟩ := hbehind.cases_start
      · exact .inr (.next .start hc hnot)
      · rw [hc, Option.some.injEq] at hd
        exact .inl (hd ▸ hrest)
    · exact .inr (.next hbefore hc hnot)

/-- The search looks at nothing behind a window that agrees. -/
theorem Probed.eq_of_agrees (h₁ : Probed text pattern p q₁) (h₂ : Probed text pattern p q₂)
    (hag₁ : Agrees text pattern q₁) (hag₂ : Agrees text pattern q₂) : q₁ = q₂ := by
  obtain h | h := h₁.linear h₂
  · obtain heq | ⟨_, _, hnot, _⟩ := h.cases_start
    · exact heq.symm
    · exact absurd hag₁ hnot
  · obtain heq | ⟨_, _, hnot, _⟩ := h.cases_start
    · exact heq
    · exact absurd hag₂ hnot

/-- No place before a window is skipped at which the pattern stands. -/
theorem Probed.not_standsAt (hpos : 0 < pattern.length)
    (h : Probed text pattern (p + (pattern.length - 1)) q) {r : Nat} (hpr : p ≤ r)
    (hrq : r + (pattern.length - 1) < q) : ¬StandsAt text pattern r := by
  have hstep : p + (pattern.length - 1) ≤ q ∧
      ∀ r, p ≤ r → r + (pattern.length - 1) < q → ¬StandsAt text pattern r := by
    clear hrq hpr
    induction h with
    | start => exact ⟨Nat.le_refl _, fun r hpr hrq => by omega⟩
    | @next q c _ hc hnot ih =>
      refine ⟨by omega, fun r hpr hrq => ?_⟩
      obtain ⟨b, rfl⟩ : ∃ b, q = b + (pattern.length - 1) :=
        ⟨q - (pattern.length - 1), by omega⟩
      obtain hlt | rfl | hgt := Nat.lt_trichotomy r b
      · exact ih.2 r hpr (by omega)
      · exact fun hstands => hnot ((agrees_iff hpos).2 hstands)
      · exact not_standsAt_between hpos hc hgt (by omega)
  exact hstep.2 r hpr hrq

/-- The windows end with one that agrees or with one behind the text. -/
theorem exists_probed_end (hpos : 0 < pattern.length) (p : Nat) :
    ∃ q, Probed text pattern p q ∧ (text.length ≤ q ∨ q < text.length ∧ Agrees text pattern q) := by
  generalize hn : text.length - p = n
  induction n using Nat.strongRecOn generalizing p with
  | ind n ih =>
    by_cases hlt : p < text.length
    · by_cases hag : Agrees text pattern p
      · exact ⟨p, .start, .inr ⟨hlt, hag⟩⟩
      · have hpos' := shift_pos hpos text[p]
        obtain ⟨q, hq, hend⟩ := ih (text.length - (p + shift pattern text[p])) (by omega) _ rfl
        exact ⟨q, hq.of_next (List.getElem?_eq_getElem hlt) hag, hend⟩
    · exact ⟨p, .start, .inl (by omega)⟩

/-- `good` holds of the last character of every window that is looked at and left. -/
def LeavesGood (text pattern : List α) (good : α → Prop) (p : Nat) : Prop :=
  ∀ q c, Probed text pattern p q → text[q]? = some c → ¬Agrees text pattern q → good c

theorem leavesGood_iff {good : α → Prop} (hc : text[p]? = some c) (hnot : ¬Agrees text pattern p) :
    LeavesGood text pattern good p ↔
      good c ∧ LeavesGood text pattern good (p + shift pattern c) := by
  constructor
  · intro h
    exact ⟨h p c .start hc hnot, fun q d hq => h q d (hq.of_next hc hnot)⟩
  · rintro ⟨hgood, hrest⟩ q d hq hd hnot'
    obtain rfl | ⟨c', hc', _, hq⟩ := hq.cases_start
    · rw [hc, Option.some.injEq] at hd
      exact hd ▸ hgood
    · rw [hc, Option.some.injEq] at hc'
      subst hc'
      exact hrest q d hq hd hnot'

end LiteRt.Lib
