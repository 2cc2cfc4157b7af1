import Mathlib.Data.List.Nodup

/-!
# Outcomes of stateful computations

A computation that fails keeps the state it has reached. `Ends` is its weakest
precondition, with one postcondition for a result and one for a failure.
-/

namespace LiteRt.Lib

section

variable {ε σ α β : Type}

/-- From `s`, `x` ends in a state with `Q`, or fails in one with `E`. -/
def Ends (x : EStateM ε σ α) (s : σ) (Q : α → σ → Prop) (E : ε → σ → Prop) : Prop :=
  match x s with
  | .ok a s' => Q a s'
  | .error e s' => E e s'

/-- From `s`, `x` gives a result with `Q` if `D` holds, and fails otherwise. -/
def Decided (x : EStateM ε σ α) (s : σ) (D : Prop) (Q : α → σ → Prop) : Prop :=
  Ends x s (fun a s' => D ∧ Q a s') fun _ _ => ¬ D

/-- An `if` without `else`. -/
def onlyIf (c : Prop) [Decidable c] (x : EStateM ε σ PUnit) : EStateM ε σ PUnit :=
  if c then x else pure ⟨⟩

/-- The state in which `x` ends, with a result or a failure. -/
def after (x : EStateM ε σ α) (s : σ) : σ :=
  match x s with
  | .ok _ s' => s'
  | .error _ s' => s'

/-- The results of a computation for each element, added up. -/
def tally (f : α → EStateM ε σ Nat) : List α → EStateM ε σ Nat
  | [] => pure 0
  | a :: l => do
    let n ← f a
    let k ← tally f l
    pure (n + k)

/-- Whatever happens, `P` still holds. -/
def Keeps (x : EStateM ε σ α) (P : σ → Prop) : Prop :=
  ∀ s, P s → Ends x s (fun _ => P) fun _ => P

section
variable {x : EStateM ε σ α} {f : α → EStateM ε σ β} {s : σ} {Q : α → σ → Prop} {E : ε → σ → Prop}

theorem ends_pure {a : α} (h : Q a s) : Ends (pure a) s Q E := h

theorem ends_throw {e : ε} (h : E e s) : Ends (throw e) s Q E := h

theorem ends_get {f : σ → EStateM ε σ α} (h : Ends (f s) s Q E) :
    Ends (get >>= f) s Q E := h

theorem ends_modify {g : σ → σ} {Q : PUnit → σ → Prop} (h : Q ⟨⟩ (g s)) :
    Ends (modify g) s Q E := h

theorem ends_modify_bind {g : σ → σ} {f : PUnit → EStateM ε σ α} (h : Ends (f ⟨⟩) (g s) Q E) :
    Ends (modify g >>= f) s Q E := h

theorem ends_set_bind {s' : σ} {f : PUnit → EStateM ε σ α} (h : Ends (f ⟨⟩) s' Q E) :
    Ends (set s' >>= f) s Q E := h

theorem ends_onlyIf {c : Prop} [Decidable c] {x : EStateM ε σ PUnit} {Q : PUnit → σ → Prop}
    (ht : c → Ends x s Q E) (hf : ¬ c → Q ⟨⟩ s) : Ends (onlyIf c x) s Q E := by
  rw [onlyIf]
  split
  · next hc => exact ht hc
  · next hc => exact ends_pure (hf hc)

theorem Ends.bind {Q' : β → σ → Prop} (hx : Ends x s Q E)
    (hf : ∀ a s', Q a s' → Ends (f a) s' Q' E) : Ends (x >>= f) s Q' E := by
  revert hx
  show _ → match EStateM.bind x f s with
    | .ok a s' => Q' a s'
    | .error e s' => E e s'
  rw [Ends, EStateM.bind]
  cases x s with
  | ok a s' => exact hf a s'
  | error e s' => exact id

theorem ends_of_eq_ok {a : α} {s' : σ} (hx : x s = .ok a s') (h : Q a s') : Ends x s Q E := by
  rwa [Ends, hx]

/-- The first part of a run is known. -/
theorem Ends.bind_ok {a : α} {s' : σ} {Q : β → σ → Prop} (hx : x s = .ok a s')
    (hf : Ends (f a) s' Q E) : Ends (x >>= f) s Q E := by
  refine Ends.bind (Q := fun b t => b = a ∧ t = s') ?_ ?_
  · rw [Ends, hx]
    exact ⟨rfl, rfl⟩
  · rintro b t ⟨rfl, rfl⟩
    exact hf

theorem Ends.mono {Q' : α → σ → Prop} {E' : ε → σ → Prop} (hx : Ends x s Q E)
    (hpost : ∀ a s', Q a s' → Q' a s') (herr : ∀ e s', E e s' → E' e s') :
    Ends x s Q' E' := by
  revert hx
  rw [Ends, Ends]
  cases x s with
  | ok a s' => exact hpost a s'
  | error e s' => exact herr e s'

theorem Ends.and {Q' : α → σ → Prop} {E' : ε → σ → Prop} (hx : Ends x s Q E)
    (hx' : Ends x s Q' E') :
    Ends x s (fun a s' => Q a s' ∧ Q' a s') fun e s' => E e s' ∧ E' e s' := by
  revert hx hx'
  rw [Ends, Ends, Ends]
  cases x s with
  | ok a s' => exact And.intro
  | error e s' => exact And.intro

/-- Splits a run that ends well. -/
theorem bind_eq_ok {b : β} {s' : σ} : (x >>= f) s = .ok b s' ↔
    ∃ a s₁, x s = .ok a s₁ ∧ f a s₁ = .ok b s' := by
  show EStateM.bind x f s = .ok b s' ↔ _
  rw [EStateM.bind]
  cases x s with
  | ok a s₁ =>
    refine ⟨fun h => ⟨a, s₁, rfl, h⟩, ?_⟩
    rintro ⟨_, _, h, h'⟩
    cases h
    exact h'
  | error e s₁ => simp

theorem ends_iff : Ends x s Q E ↔
    (∀ a s', x s = .ok a s' → Q a s') ∧ ∀ e s', x s = .error e s' → E e s' := by
  rw [Ends]
  cases x s with
  | ok a s' => simp
  | error e s' => simp

/-- What a run promises holds exactly if `D` does, when that is so of each of its ends. -/
theorem ends_iff_of {D : Prop} (hx : Ends x s (fun a s' => Q a s' ↔ D) fun e s' => E e s' ↔ D) :
    Ends x s Q E ↔ D := by
  revert hx
  rw [Ends, Ends]
  cases x s with
  | ok a s' => exact id
  | error e s' => exact id

/-- A loop over different elements comes to each of them once. -/
theorem not_mem_done {l done rest : List α} {a : α} (hnodup : l.Nodup)
    (hsplit : l = done ++ a :: rest) : a ∉ done := by
  rw [hsplit, List.nodup_middle] at hnodup
  exact fun hmem => (List.nodup_cons.1 hnodup).1 (List.mem_append_left _ hmem)

/-- A loop ends well if every step may be taken, and else stops before the first that may not. -/
theorem forM_ends {f : β → EStateM ε σ PUnit} {pre : β → Prop} {P : List β → σ → Prop}
    {E : ε → Prop} {l : List β} {s : σ} (init : P [] s)
    (step : ∀ done b rest, l = done ++ b :: rest → ∀ s, P done s →
      Ends (f b) s (fun _ s' => pre b ∧ P (done ++ [b]) s') fun e s' => E e ∧ s' = s ∧ ¬pre b) :
    Ends (l.forM f) s (fun _ s' => (∀ b ∈ l, pre b) ∧ P l s') fun e s' => E e ∧
      ∃ done b rest, l = done ++ b :: rest ∧ (∀ a ∈ done, pre a) ∧ ¬pre b ∧ P done s' := by
  induction l generalizing P s with
  | nil => exact ends_pure ⟨fun _ hb => absurd hb List.not_mem_nil, init⟩
  | cons b l ih =>
    change Ends (f b >>= fun _ => l.forM f) s _ _
    refine Ends.bind (Q := fun _ s' => pre b ∧ P [b] s') ?_ ?_
    · refine (step [] b l rfl s init).mono (fun _ _ => id) ?_
      rintro e s' ⟨he, rfl, hb⟩
      exact ⟨he, [], b, l, rfl, fun _ ha => absurd ha List.not_mem_nil, hb, init⟩
    · rintro ⟨⟩ s' ⟨hb, hP⟩
      have hstep := fun done c rest hsplit =>
        step (b :: done) c rest (congrArg (b :: ·) hsplit)
      refine (@ih (fun done => P (b :: done)) s' hP hstep).mono ?_ ?_
      · rintro ⟨⟩ s'' ⟨hall, hP'⟩
        exact ⟨List.forall_mem_cons.2 ⟨hb, hall⟩, hP'⟩
      · rintro e s'' ⟨he, done, c, rest, rfl, hall, hc, hP'⟩
        exact ⟨he, b :: done, c, rest, rfl, List.forall_mem_cons.2 ⟨hb, hall⟩, hc, hP'⟩

/-- A loop whose steps never fail. -/
theorem forM_ok {f : β → EStateM ε σ PUnit} {P : List β → σ → Prop} {l : List β} {s : σ}
    (init : P [] s) (step : ∀ done b rest, l = done ++ b :: rest → ∀ s, P done s →
      Ends (f b) s (fun _ s' => P (done ++ [b]) s') fun _ _ => False) :
    Ends (l.forM f) s (fun _ s' => P l s') fun _ _ => False := by
  have hloop := @forM_ends ε σ β f (fun _ => True) P (fun _ => False) l s init
    fun done b rest hsplit s hP => (step done b rest hsplit s hP).mono
      (fun _ _ hstep => ⟨trivial, hstep⟩) fun _ _ hfalse => hfalse.elim
  exact hloop.mono (fun _ _ hend => hend.2) fun _ _ hfail => hfail.1

theorem Ends.after {P : σ → Prop} (hx : Ends x s (fun _ => P) fun _ => P) : P (after x s) := by
  revert hx
  rw [Ends, Lib.after]
  cases x s with
  | ok a s' => exact id
  | error e s' => exact id

theorem Ends.ok {a : α} {s' : σ} (hx : Ends x s Q E) (h : x s = .ok a s') : Q a s' := by
  rwa [Ends, h] at hx

theorem Ends.error {e : ε} {s' : σ} (hx : Ends x s Q E) (h : x s = .error e s') :
    E e s' := by
  rwa [Ends, h] at hx

end

section
variable {x : EStateM ε σ α} {f : α → EStateM ε σ β} {P : σ → Prop}

theorem keeps_pure (a : α) : Keeps (pure a : EStateM ε σ α) P := fun _ h => h

theorem keeps_throw (e : ε) : Keeps (throw e : EStateM ε σ α) P := fun _ h => h

theorem keeps_modify {g : σ → σ} (h : ∀ s, P s → P (g s)) :
    Keeps (modify g : EStateM ε σ PUnit) P := h

theorem Keeps.onlyIf {c : Prop} [Decidable c] {x : EStateM ε σ PUnit} (hx : Keeps x P) :
    Keeps (onlyIf c x) P := fun s hs => ends_onlyIf (fun _ => hx s hs) fun _ => hs

theorem Keeps.bind (hx : Keeps x P) (hf : ∀ a, Keeps (f a) P) : Keeps (x >>= f) P :=
  fun s hs => (hx s hs).bind fun a s' hs' => hf a s' hs'

theorem keeps_get {f : σ → EStateM ε σ β} (hf : ∀ s, P s → Ends (f s) s (fun _ => P) fun _ => P) :
    Keeps (get >>= f) P := hf

end

section
variable {f : α → EStateM ε σ Nat}

/-- A successful step keeps its successor's outcome, apart from the result. -/
theorem bind_ok_eq {x : EStateM ε σ α} {g : α → EStateM ε σ β} {a : α} {s s' : σ}
    (h : x s = .ok a s') : (x >>= g) s = g a s' := by
  show EStateM.bind x g s = g a s'
  rw [EStateM.bind, h]

theorem get_bind_eq {g : σ → EStateM ε σ β} {s : σ} : (get >>= g) s = g s s := rfl

/-- Each element's computation succeeds, and together they establish `P`. -/
theorem tally_ok {P : List α → σ → Prop} {l : List α} {s : σ} (init : P [] s)
    (step : ∀ pre a post, l = pre ++ a :: post → ∀ s, P pre s →
      ∃ n s', f a s = .ok n s' ∧ P (pre ++ [a]) s') :
    ∃ n s', tally f l s = .ok n s' ∧ P l s' := by
  induction l generalizing P s with
  | nil => exact ⟨0, s, rfl, init⟩
  | cons a l ih =>
    obtain ⟨n, s', ha, hP⟩ := step [] a l rfl s init
    obtain ⟨k, s'', hl, hP'⟩ := @ih (fun pre => P (a :: pre)) s' hP fun pre b post hsplit =>
      step (a :: pre) b post (congrArg (a :: ·) hsplit)
    refine ⟨n + k, s'', ?_, hP'⟩
    show (f a >>= fun n => tally f l >>= fun k => pure (n + k)) s = _
    rw [bind_ok_eq ha, bind_ok_eq hl]
    rfl

theorem tally_append (l l' : List α) : tally f (l ++ l') =
    (tally f l >>= fun n => tally f l' >>= fun k => pure (n + k)) := by
  induction l with
  | nil => simp only [List.nil_append, tally, pure_bind, Nat.zero_add, bind_pure]
  | cons a l ih =>
    simp only [List.cons_append, tally, ih, bind_assoc, pure_bind, Nat.add_assoc]

end

end

/-!
## Two computations side by side

`Alike R` relates two outcomes: the same result or the same failure, in states that are related.
Computations that give alike outcomes from related states do so one after the other as well.
-/

variable {ε σ τ α β : Type} {R : σ → τ → Prop}

def Alike (R : σ → τ → Prop) : EStateM.Result ε σ α → EStateM.Result ε τ α → Prop
  | .ok a s, .ok b t => a = b ∧ R s t
  | .error e s, .error f t => e = f ∧ R s t
  | _, _ => False

/-- The outcomes are alike from related states. -/
def InStep (R : σ → τ → Prop) (x : EStateM ε σ α) (y : EStateM ε τ α) : Prop :=
  ∀ s t, R s t → Alike R (x s) (y t)

section
variable {x : EStateM ε σ α} {y : EStateM ε τ α} {f : α → EStateM ε σ β} {g : α → EStateM ε τ β}

theorem inStep_pure (a : α) : InStep R (pure a : EStateM ε σ α) (pure a) := fun _ _ h => ⟨rfl, h⟩

theorem inStep_throw (e : ε) : InStep R (throw e : EStateM ε σ α) (throw e) :=
  fun _ _ h => ⟨rfl, h⟩

theorem inStep_modify {f : σ → σ} {g : τ → τ} (h : ∀ s t, R s t → R (f s) (g t)) :
    InStep R (modify f : EStateM ε σ PUnit) (modify g) := fun s t hst => ⟨rfl, h s t hst⟩

theorem inStep_get {f : σ → EStateM ε σ β} {g : τ → EStateM ε τ β}
    (h : ∀ s t, R s t → Alike R (f s s) (g t t)) : InStep R (get >>= f) (get >>= g) := h

theorem InStep.bind (hx : InStep R x y) (hf : ∀ a, InStep R (f a) (g a)) :
    InStep R (x >>= f) (y >>= g) := by
  intro s t h
  have hst := hx s t h
  change Alike R (EStateM.bind x f s) (EStateM.bind y g t)
  unfold EStateM.bind
  revert hst
  cases x s with
  | ok a s' =>
    cases y t with
    | ok b t' =>
      rintro ⟨rfl, hR⟩
      exact hf a s' t' hR
    | error e t' => exact False.elim
  | error e s' =>
    cases y t with
    | ok b t' => exact False.elim
    | error e' t' => exact id

/-- A branch that both take. -/
theorem InStep.ite {c : Prop} [Decidable c] {x' : EStateM ε σ α} {y' : EStateM ε τ α}
    (hx : InStep R x y) (hx' : InStep R x' y') :
    InStep R (if c then x else x') (if c then y else y') := by
  split
  · exact hx
  · exact hx'

end

end LiteRt.Lib
