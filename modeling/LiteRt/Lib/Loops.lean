import Mathlib.Data.List.Basic
import Mathlib.Data.List.Range

/-!
# Loops over a list

An invariant of a loop speaks of the elements already done, in their order.
-/

namespace LiteRt.Lib

open List

section

section
variable {ε α β : Type}

@[simp] theorem ok_bind (a : α) (f : α → Except ε β) : (Except.ok a >>= f) = f a :=
  rfl

@[simp] theorem error_bind (e : ε) (f : α → Except ε β) : (Except.error e >>= f) = .error e :=
  rfl

theorem bind_ok_iff {x : Except ε α} {f : α → Except ε β} {b : β} :
    (x >>= f) = .ok b ↔ ∃ a, x = .ok a ∧ f a = .ok b := by
  constructor
  · intro h
    cases x with
    | error e => cases h
    | ok a => exact ⟨a, rfl, h⟩
  · rintro ⟨a, rfl, h⟩
    exact h

end

variable {α β ε : Type*} {P : List α → β → Prop} {l : List α} {b : β}

theorem foldl_invariant {f : β → α → β} (init : P [] b)
    (step : ∀ done a rest b, l = done ++ a :: rest → P done b → P (done ++ [a]) (f b a)) :
    P l (l.foldl f b) := by
  suffices h : ∀ rest done b, l = done ++ rest → P done b → P l (rest.foldl f b) from
    h l [] b rfl init
  intro rest
  induction rest with
  | nil =>
    intro done b hl hb
    rw [append_nil] at hl
    rwa [hl]
  | cons a rest ih =>
    intro done b hl hb
    refine ih (done ++ [a]) (f b a) ?_ (step done a rest b hl hb)
    rw [hl, append_assoc, singleton_append]

/-- A loop over the numbers below a bound. -/
theorem foldl_range_invariant {β : Type*} {P : Nat → β → Prop} {n : Nat} {b : β}
    {f : β → Nat → β} (init : P 0 b) (step : ∀ i b, i < n → P i b → P (i + 1) (f b i)) :
    P n ((List.range n).foldl f b) := by
  induction n with
  | zero => exact init
  | succ n ih =>
    rw [range_succ, foldl_append, foldl_cons, foldl_nil]
    exact step n _ n.lt_succ_self (ih fun i b hi => step i b (Nat.lt_succ_of_lt hi))

/-- A loop that stops at the first error ends in a state of the invariant, or with an error
of its body in such a state. -/
theorem foldlM_invariant {f : β → α → Except ε β} (init : P [] b)
    (step : ∀ done a rest b b', l = done ++ a :: rest → P done b → f b a = .ok b' →
      P (done ++ [a]) b') :
    (∃ b', l.foldlM f b = .ok b' ∧ P l b') ∨
      ∃ done a rest b' e, l = done ++ a :: rest ∧ P done b' ∧ f b' a = .error e ∧
        l.foldlM f b = .error e := by
  suffices h : ∀ rest done b, l = done ++ rest → P done b →
      (∃ b', rest.foldlM f b = .ok b' ∧ P l b') ∨
        ∃ done a rest' b' e, l = done ++ a :: rest' ∧ P done b' ∧ f b' a = .error e ∧
          rest.foldlM f b = .error e from h l [] b rfl init
  intro rest
  induction rest with
  | nil =>
    intro done b hl hb
    rw [append_nil] at hl
    exact .inl ⟨b, rfl, by rwa [hl]⟩
  | cons a rest ih =>
    intro done b hl hb
    rw [foldlM_cons]
    cases hf : f b a with
    | error e => exact .inr ⟨done, a, rest, b, e, hl, hb, hf, rfl⟩
    | ok b' =>
      refine ih (done ++ [a]) b' ?_ (step done a rest b b' hl hb hf)
      rw [hl, append_assoc, singleton_append]

/-- A loop that ended without an error did every step without one. -/
theorem foldlM_ok_split {f : β → α → Except ε β} {before after : List α} {a : α} {b' : β}
    (h : (before ++ a :: after).foldlM f b = .ok b') :
    ∃ c d, before.foldlM f b = .ok c ∧ f c a = .ok d := by
  rw [foldlM_append] at h
  cases hc : before.foldlM f b with
  | error e =>
    rw [hc] at h
    cases h
  | ok c =>
    rw [hc] at h
    replace h : (f c a >>= fun d => after.foldlM f d) = .ok b' := h
    cases hd : f c a with
    | error e =>
      rw [hd] at h
      cases h
    | ok d => exact ⟨c, d, rfl, hd⟩

theorem foldlM_eq_foldl {f : β → α → Except ε β} {g : β → α → β}
    (hg : ∀ b a b', f b a = .ok b' → b' = g b a) {b' : β} (h : l.foldlM f b = .ok b') :
    b' = l.foldl g b := by
  induction l generalizing b with
  | nil =>
    cases h
    rfl
  | cons a l ih =>
    replace h : (f b a >>= fun d => l.foldlM f d) = .ok b' := h
    cases hd : f b a with
    | error e =>
      rw [hd] at h
      cases h
    | ok d =>
      rw [hd] at h
      rw [foldl_cons, ← hg b a d hd]
      exact ih h

/-! ## Loops that collect results -/

/-- A loop that may fail at each element collects given results when each element gives its
own. -/
theorem mapM_eq_some_map {f : α → Option β} {g : α → β} :
    l.mapM f = some (l.map g) ↔ ∀ a ∈ l, f a = some (g a) := by
  induction l with
  | nil => exact iff_of_true rfl (fun a ha => absurd ha not_mem_nil)
  | cons a l ih =>
    rw [forall_mem_cons, ← ih, mapM_cons, map_cons]
    cases f a with
    | none => exact iff_of_false (fun h => by cases h) (fun h => by cases h.1)
    | some b =>
      cases l.mapM f with
      | none => exact iff_of_false (fun h => by cases h) (fun h => by cases h.2)
      | some bs =>
        show some (b :: bs) = some (g a :: l.map g) ↔ _
        rw [Option.some_inj, Option.some_inj, Option.some_inj, List.cons.injEq]

/-! ## Loops that end with a break -/

section
variable {σ : Type*} {body : σ → σ × Bool} {s s' : σ}

/-- `while (true)` around a body that also tells whether it breaks. -/
inductive Breaks (body : σ → σ × Bool) : σ → σ → Prop where
  | last {s : σ} : (body s).2 = true → Breaks body s (body s).1
  | next {s s' : σ} : (body s).2 = false → Breaks body (body s).1 s' → Breaks body s s'

end

/-- A loop over a list whose body also tells whether it breaks. -/
def foldUntil {α β : Type*} (body : β → α → β × Bool) : List α → β → β
  | [], b => b
  | a :: l, b => if (body b a).2 then (body b a).1 else foldUntil body l (body b a).1

/-- The loop ends behind the list, or in a round that breaks. -/
theorem foldUntil_invariant {body : β → α → β × Bool} (init : P [] b)
    (step : ∀ done a rest b, l = done ++ a :: rest → P done b → (body b a).2 = false →
      P (done ++ [a]) (body b a).1) :
    P l (foldUntil body l b) ∨ ∃ done a rest b', l = done ++ a :: rest ∧ P done b' ∧
      (body b' a).2 = true ∧ foldUntil body l b = (body b' a).1 := by
  suffices h : ∀ rest done b, l = done ++ rest → P done b →
      P l (foldUntil body rest b) ∨ ∃ done a rest' b', l = done ++ a :: rest' ∧ P done b' ∧
        (body b' a).2 = true ∧ foldUntil body rest b = (body b' a).1 from h l [] b rfl init
  intro rest
  induction rest with
  | nil =>
    intro done b hl hb
    rw [append_nil] at hl
    exact .inl (by rwa [hl])
  | cons a rest ih =>
    intro done b hl hb
    cases hbreak : (body b a).2 with
    | true =>
      refine .inr ⟨done, a, rest, b, hl, hb, hbreak, ?_⟩
      rw [foldUntil, if_pos hbreak]
    | false =>
      rw [foldUntil, hbreak, if_neg Bool.false_ne_true]
      refine ih (done ++ [a]) _ ?_ (step done a rest b hl hb hbreak)
      rw [hl, append_assoc, singleton_append]

end

/-!
## Computations that index arrays

An index outside its array is a fault of its own. A computation without one is `checked`: an
ordinary one that may fail. Loops are checked when each round is, along an invariant of theirs.
-/

/-- An index outside its array, or a failure of the computation. -/
inductive IndexFault (ε : Type) where
  | outOfBounds
  | failed (e : ε)
  deriving DecidableEq, Repr

abbrev Checked (ε α : Type) := Except (IndexFault ε) α

variable {ε α β γ : Type}

/-- Indexes an array of a size. -/
def access (size : Nat) (index : Int) : Checked ε Unit :=
  if 0 ≤ index ∧ index < size then .ok () else .error .outOfBounds

/-- No index is outside its array. -/
def InBounds (x : Checked ε α) : Prop := x ≠ .error .outOfBounds

/-- A computation that does not index. -/
def checked (x : Except ε α) : Checked ε α :=
  match x with
  | .ok a => .ok a
  | .error e => .error (.failed e)

@[simp] theorem checked_ok (a : α) : (checked (.ok a) : Checked ε α) = .ok a := rfl

theorem inBounds_ok (a : α) : InBounds (.ok a : Checked ε α) := by
  rintro ⟨⟩

theorem inBounds_checked (x : Except ε α) : InBounds (checked x) := by
  cases x with
  | ok a => rintro ⟨⟩
  | error e => rintro ⟨⟩

theorem access_ok {size : Nat} {index : Int} (h : 0 ≤ index ∧ index < size) :
    (access size index : Checked ε Unit) = .ok () := if_pos h

theorem access_negative {size : Nat} {index : Int} (h : index < 0) :
    (access size index : Checked ε Unit) = .error .outOfBounds :=
  if_neg fun hindex => absurd hindex.1 (by omega)

theorem checked_bind {x : Except ε α} {f : α → Checked ε β} {g : α → Except ε β}
    (h : ∀ a, x = .ok a → f a = checked (g a)) :
    (checked x >>= f) = checked (x >>= g) := by
  cases x with
  | ok a => exact h a rfl
  | error e => rfl

/-- The first part of a computation is in bounds. -/
theorem InBounds.of_bind {x : Checked ε α} {f : α → Checked ε β} (h : InBounds (x >>= f)) :
    InBounds x := by
  rintro rfl
  exact h rfl

theorem InBounds.bind {x : Checked ε α} {f : α → Checked ε β} (h : InBounds x)
    (hf : ∀ a, x = .ok a → InBounds (f a)) : InBounds (x >>= f) := by
  cases x with
  | ok a => exact hf a rfl
  | error e =>
    rw [error_bind]
    rintro ⟨⟩
    exact h rfl

section
variable {f : β → α → Checked ε β} {Inv : β → Prop} {l : List α} {b : β}

/-- A loop that never fails. -/
theorem foldlM_eq_ok {g : β → α → β} (hinv : Inv b)
    (hstep : ∀ b, Inv b → ∀ a ∈ l, f b a = .ok (g b a) ∧ Inv (g b a)) :
    l.foldlM f b = .ok (l.foldl g b) ∧ Inv (l.foldl g b) := by
  induction l generalizing b with
  | nil => exact ⟨rfl, hinv⟩
  | cons a l ih =>
    obtain ⟨heq, hinv'⟩ := hstep b hinv a (mem_cons_self ..)
    rw [foldlM_cons, heq, ok_bind, foldl_cons]
    exact ih hinv' fun b hb a ha => hstep b hb a (mem_cons_of_mem _ ha)

/-- A loop that may fail. -/
theorem foldlM_eq_checked {g : β → α → Except ε β} (hinv : Inv b)
    (hstep : ∀ b, Inv b → ∀ a ∈ l, f b a = checked (g b a) ∧ ∀ b', g b a = .ok b' → Inv b') :
    l.foldlM f b = checked (l.foldlM g b) ∧ ∀ b', l.foldlM g b = .ok b' → Inv b' := by
  induction l generalizing b with
  | nil =>
    refine ⟨rfl, fun b' hb' => ?_⟩
    cases hb'
    exact hinv
  | cons a l ih =>
    obtain ⟨heq, hkeep⟩ := hstep b hinv a (mem_cons_self ..)
    have hrest := fun b' (hb' : g b a = .ok b') => ih (hkeep b' hb') fun b hb a ha =>
      hstep b hb a (mem_cons_of_mem _ ha)
    rw [foldlM_cons, foldlM_cons, heq]
    refine ⟨checked_bind fun b' hb' => (hrest b' hb').1, ?_⟩
    cases hg : g b a with
    | ok b' => exact (hrest b' hg).2
    | error e => exact fun b' hb' => by cases hb'

/-- A loop whose rounds do not fail does not fail, with its accesses checked or without. -/
theorem exists_foldlM {g : β → α → Except ε β} (hinv : Inv b)
    (hstep : ∀ b, Inv b → ∀ a ∈ l, ∃ b', f b a = .ok b' ∧ g b a = .ok b' ∧ Inv b') :
    ∃ b', l.foldlM f b = .ok b' ∧ l.foldlM g b = .ok b' ∧ Inv b' := by
  induction l generalizing b with
  | nil => exact ⟨b, rfl, rfl, hinv⟩
  | cons a l ih =>
    obtain ⟨b', hf, hg, hinv'⟩ := hstep b hinv a (mem_cons_self ..)
    rw [foldlM_cons, foldlM_cons, hf, hg, ok_bind, ok_bind]
    exact ih hinv' fun b hb a ha => hstep b hb a (mem_cons_of_mem _ ha)

theorem inBounds_foldlM (h : ∀ b, ∀ a ∈ l, InBounds (f b a)) : InBounds (l.foldlM f b) := by
  induction l generalizing b with
  | nil => exact inBounds_ok b
  | cons a l ih =>
    rw [foldlM_cons]
    exact (h b a (mem_cons_self ..)).bind fun b' _ =>
      ih fun b a ha => h b a (mem_cons_of_mem _ ha)

/-- One round that is out of bounds spoils a loop whose other rounds do not fail. -/
theorem foldlM_eq_outOfBounds (hinv : Inv b)
    (hstep : ∀ b, Inv b → ∀ a ∈ l, f b a = .error .outOfBounds ∨ ∃ b', f b a = .ok b' ∧ Inv b')
    {a : α} (ha : a ∈ l) (hbad : ∀ b, f b a = .error .outOfBounds) :
    l.foldlM f b = .error .outOfBounds := by
  induction l generalizing b with
  | nil => cases ha
  | cons a' l ih =>
    rw [foldlM_cons]
    obtain heq | ⟨b', heq, hinv'⟩ := hstep b hinv a' (mem_cons_self ..)
    · rw [heq, error_bind]
    · rw [heq, ok_bind]
      obtain rfl | ha := mem_cons.mp ha
      · rw [hbad] at heq
        cases heq
      · exact ih hinv' (fun b hb a ha => hstep b hb a (mem_cons_of_mem _ ha)) ha

end

end LiteRt.Lib
