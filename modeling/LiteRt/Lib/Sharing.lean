import LiteRt.Lib.Fusion

/-!
# Sharing places

Names that are not needed at the same time may be kept at one place. A run on the places
computes what the run on the names does, as long as no write hits a name that is still needed.
-/

namespace LiteRt.Lib

open List

section
variable {T L V : Type*} (outs : T → Prop)

/-- The names whose values a program still needs, `outs` those needed at its end. -/
def Needed : List (Instr T V) → T → Prop
  | [], t => outs t
  | i :: is, t => t ∈ i.reads ∨ t ∉ i.writes ∧ Needed is t

/-- What is read, and what is needed at the end, is among the names `D` or written before. -/
def Scoped : (T → Prop) → List (Instr T V) → Prop
  | D, [] => ∀ t, outs t → D t
  | D, i :: is => (∀ t ∈ i.reads, D t) ∧ Scoped (fun t => D t ∨ t ∈ i.writes) is

/-- No write hits the place of another name that is needed behind it. -/
def Spares (place : T → L) : List (Instr T V) → Prop
  | [] => True
  | i :: is => (∀ w ∈ i.writes, ∀ t, Needed outs is t → place t = place w → t = w) ∧
      Spares place is

/-- From the names in `given`, a run on the places leaves at those of `outs` what a run leaves. -/
def RunsAt [DecidableEq T] [DecidableEq L] (place : T → L) (given : T → Prop)
    (is : List (Instr T V)) : Prop :=
  ∀ (e f : Env T V) (e' : Env L V), exec is e = some f → (∀ t, given t → e' (place t) = e t) →
    ∃ f', exec (is.map (Instr.rename place)) e' = some f' ∧ ∀ t, outs t → f' (place t) = f t

end

section
variable {T L V : Type*} {outs D : T → Prop} {is : List (Instr T V)} {t : T} {place : T → L}

theorem Needed.scoped (h : Needed outs is t) (hs : Scoped outs D is) : D t := by
  induction is generalizing D with
  | nil => exact hs t h
  | cons i is ih =>
    rcases h with h | ⟨hw, h⟩
    · exact hs.1 t h
    · exact (ih h hs.2).resolve_right hw

theorem Needed.read (h : Needed outs is t) :
    outs t ∨ ∃ (j : Nat) (i : Instr T V), is[j]? = some i ∧ t ∈ i.reads := by
  induction is with
  | nil => exact .inl h
  | cons i is ih =>
    rcases h with h | ⟨-, h⟩
    · exact .inr ⟨0, i, rfl, h⟩
    · refine (ih h).imp_right fun hr => ?_
      obtain ⟨j, i', hi', hr⟩ := hr
      exact ⟨j + 1, i', hi', hr⟩

/-- Names share places if their intervals are apart, `k` the number of the first instruction. -/
theorem spares_of_intervals (first last : T → Nat) (k : Nat)
    (hapart : ∀ t w, place t = place w → first t ≤ last w → first w ≤ last t → t = w)
    (hD : ∀ t, D t → first t ≤ k)
    (huses : ∀ (j : Nat) i, is[j]? = some i → ∀ t, t ∈ i.reads ∨ t ∈ i.writes →
      first t ≤ k + j ∧ k + j ≤ last t)
    (houts : ∀ t, outs t → k + is.length ≤ last t) (hs : Scoped outs D is) :
    Spares outs place is := by
  induction is generalizing k D with
  | nil => trivial
  | cons i is ih =>
    have huses' (j : Nat) (i' : Instr T V) (hi' : is[j]? = some i') (t : T)
        (ht : t ∈ i'.reads ∨ t ∈ i'.writes) : first t ≤ k + 1 + j ∧ k + 1 + j ≤ last t := by
      have := huses (j + 1) i' hi' t ht
      omega
    have hlast (t : T) (ht : outs t) : k + 1 + is.length ≤ last t := by
      have := houts t ht
      rw [length_cons] at this
      omega
    have hfirst (t : T) (ht : D t ∨ t ∈ i.writes) : first t ≤ k :=
      ht.elim (hD t) fun hw => (huses 0 i rfl t (.inr hw)).1
    refine ⟨fun w hw t ht he => hapart t w he ?_ ?_,
      ih (k + 1) (fun t ht => Nat.le_succ_of_le (hfirst t ht)) huses' hlast hs.2⟩
    · exact Nat.le_trans (hfirst t (ht.scoped hs.2)) (huses 0 i rfl w (.inr hw)).2
    · have hw := (huses 0 i rfl w (.inr hw)).1
      rcases ht.read with ho | ⟨j, i', hi', hr⟩
      · have := hlast t ho
        omega
      · have := (huses' j i' hi' t (.inl hr)).2
        omega

variable [DecidableEq T] [DecidableEq L]

theorem Spares.runsAt (h : Spares outs place is) (hs : Scoped outs D is)
    (hfull : ∀ i ∈ is, i.Full) : RunsAt outs place D is := by
  intro e f e' hf he
  replace he (t : T) (ht : Needed outs is t) : e' (place t) = e t := he t (ht.scoped hs)
  clear hs
  induction is generalizing e e' with
  | nil =>
    cases hf
    exact ⟨e', rfl, he⟩
  | cons i is ih =>
    obtain ⟨hi, hfull⟩ := forall_mem_cons.mp hfull
    rw [exec_cons, Option.bind_eq_some_iff] at hf
    obtain ⟨e₁, hstep, hf⟩ := hf
    obtain ⟨vs, ws, hvs, hws, rfl⟩ := Instr.step_eq_some.mp hstep
    have hstep' : (i.rename place).step e' = some (e'.bind (i.writes.map place) ws) :=
      Instr.step_eq_some.mpr ⟨vs, ws, (Env.readAll_map fun t ht => he t (.inl ht)).trans hvs, hws, rfl⟩
    rw [map_cons, exec_cons, hstep', Option.bind_some]
    refine ih h.2 hfull _ _ hf fun t ht => ?_
    have hinj : ∀ w ∈ i.writes, place t = place w → t = w := fun w hw => h.1 w hw t ht
    by_cases hw : t ∈ i.writes
    · -- what was at the place of a new value does not matter
      exact (Env.bind_of_full (mem_map_of_mem hw) (by simpa using hi vs ws hws)).trans
        (Env.bind_map hinj (Function.update_self (place t) (e t) e') ws)
    · exact Env.bind_map hinj (he t (.inr ⟨hw, ht⟩)) ws

end

end LiteRt.Lib
