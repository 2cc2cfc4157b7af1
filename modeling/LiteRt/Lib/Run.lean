import LiteRt.Lib.Loops

/-!
# Guarded runs of a partial step function

`Run guard step s as s'`: from `s` the actions `as` lead to `s'`, each taken in
a state that meets its guard. An invariant of the guarded step is an invariant
of every run, so it holds in every state a run leads to.
-/

namespace LiteRt.Lib

section

variable {S A : Type*} {guard : S → A → Prop} {step : S → A → Option S}

inductive Run (guard : S → A → Prop) (step : S → A → Option S) : S → List A → S → Prop where
  | nil (s : S) : Run guard step s [] s
  | cons {s s' s'' : S} {a : A} {as : List A} : guard s a → step s a = some s' →
      Run guard step s' as s'' → Run guard step s (a :: as) s''

namespace Run

variable {s s' : S} {as : List A}

theorem single {s s' : S} {a : A} (hg : guard s a) (hs : step s a = some s') :
    Run guard step s [a] s' := .cons hg hs (.nil s')

theorem trans {s s' s'' : S} {as bs : List A} (h1 : Run guard step s as s')
    (h2 : Run guard step s' bs s'') : Run guard step s (as ++ bs) s'' := by
  induction h1 with
  | nil => exact h2
  | cons hg hs _ ih => exact .cons hg hs (ih h2)

/-- What a guarded step preserves, a run preserves. -/
theorem invariant {P : S → Prop} (hstep : ∀ s a s', guard s a → step s a = some s' → P s → P s')
    (h : Run guard step s as s') (hP : P s) : P s' := by
  induction h with
  | nil => exact hP
  | cons hg hs _ ih => exact ih (hstep _ _ _ hg hs hP)

/-- Takes the actions one by one as long as the guard allows. -/
def replay (guard : S → A → Prop) [∀ s a, Decidable (guard s a)] (step : S → A → Option S) :
    S → List A → Option S
  | s, [] => some s
  | s, a :: as => if guard s a then (step s a).bind fun s' => replay guard step s' as else none

theorem of_replay [∀ s a, Decidable (guard s a)] (h : replay guard step s as = some s') :
    Run guard step s as s' := by
  induction as generalizing s with
  | nil =>
    cases h
    exact .nil _
  | cons a as ih =>
    unfold replay at h
    split at h
    · rename_i hg
      obtain ⟨s₁, hs, hr⟩ := Option.bind_eq_some_iff.1 h
      exact .cons hg hs (ih hr)
    · cases h

end Run

end

/-!
## Simulation along guarded runs

A step that may fail is guarded by a condition on the state before it. Where each guarded step
succeeds and follows an abstract step that cannot fail, so does every run of guarded steps.
-/

section

variable {ε σ τ α : Type*} {guard : σ → α → Prop} {step : σ → α → Except ε σ}

/-- Every action of a run is taken in a state that meets its guard. -/
def Guarded (guard : σ → α → Prop) (step : σ → α → Except ε σ) : σ → List α → Prop
  | _, [] => True
  | s, a :: as => guard s a ∧ ∀ s', step s a = .ok s' → Guarded guard step s' as

theorem Guarded.simulates {R : σ → τ → Prop} {abstractStep : τ → α → τ}
    (hstep : ∀ s t a, guard s a → R s t → ∃ s', step s a = .ok s' ∧ R s' (abstractStep t a))
    {s : σ} {t : τ} {as : List α} (h : Guarded guard step s as) (hR : R s t) :
    ∃ s', as.foldlM step s = .ok s' ∧ R s' (as.foldl abstractStep t) := by
  induction as generalizing s t with
  | nil => exact ⟨s, rfl, hR⟩
  | cons a as ih =>
    obtain ⟨hguard, hrest⟩ := h
    obtain ⟨s', hs, hR'⟩ := hstep s t a hguard hR
    obtain ⟨s'', hrun, hR''⟩ := ih (hrest s' hs) hR'
    refine ⟨s'', ?_, hR''⟩
    rw [List.foldlM_cons, hs]
    exact hrun

end

/-!
## Since the last time

`Since p q l`: something with `p` happens in the history `l`, and nothing with `q`
happens after it. The newest element is the last one.
-/

variable {α : Type*} {p q : α → Prop} {l l' : List α}

def Since (p q : α → Prop) (l : List α) : Prop :=
  ∃ before x after, l = before ++ x :: after ∧ p x ∧ ∀ y ∈ after, ¬ q y

namespace Since

variable {x : α}

/-- What goes on without `q` does not matter. -/
theorem append (h : Since p q l) (hl : ∀ y ∈ l', ¬ q y) : Since p q (l ++ l') := by
  obtain ⟨before, x, after, rfl, hp, hq⟩ := h
  refine ⟨before, x, after ++ l', by simp, hp, fun y hy => ?_⟩
  exact (List.mem_append.mp hy).elim (hq y) (hl y)

/-- It just happened. -/
theorem cons (hp : p x) (hl : ∀ y ∈ l', ¬ q y) : Since p q (l ++ x :: l') :=
  ⟨l, x, l', rfl, hp, hl⟩

theorem snoc (hp : p x) : Since p q (l ++ [x]) := cons hp (by simp)

theorem mono {q' : α → Prop} (h : Since p q l) (hq : ∀ y, q' y → q y) : Since p q' l := by
  obtain ⟨before, x, after, hl, hp, hn⟩ := h
  exact ⟨before, x, after, hl, hp, fun y hy hy' => hn y hy (hq y hy')⟩

theorem cons_iff : Since p q (x :: l) ↔ Since p q l ∨ p x ∧ ∀ y ∈ l, ¬ q y := by
  constructor
  · rintro ⟨before, y, after, hl, hp, hq⟩
    cases before with
    | nil =>
      obtain ⟨rfl, rfl⟩ := List.cons.inj hl
      exact .inr ⟨hp, hq⟩
    | cons z before =>
      obtain ⟨-, rfl⟩ := List.cons.inj hl
      exact .inl ⟨before, y, after, rfl, hp, hq⟩
  · rintro (⟨before, y, after, rfl, hp, hq⟩ | ⟨hp, hq⟩)
    · exact ⟨x :: before, y, after, rfl, hp, hq⟩
    · exact ⟨[], x, l, rfl, hp, hq⟩

theorem not_nil : ¬ Since p q [] := by
  rintro ⟨before, y, after, h, -⟩
  simp at h

instance decidable [DecidablePred p] [DecidablePred q] : ∀ l, Decidable (Since p q l)
  | [] => isFalse not_nil
  | _ :: l => @decidable_of_iff _ _ cons_iff.symm (@instDecidableOr _ _ (decidable l) _)

end Since

end LiteRt.Lib
