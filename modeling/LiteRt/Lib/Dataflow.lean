import Mathlib.Data.List.Basic
import Mathlib.Logic.Function.Basic

/-!
# Dataflow programs

Instructions that read named values and write named values, run in list order. An
instruction fails when a name it reads has no value.

`exec_rename` runs a program under renamed names: names may be merged or hidden as
long as no write hits the image of a tracked name by accident.
-/

namespace LiteRt.Lib

open Function List

/-- The values of the names defined so far. -/
abbrev Env (T V : Type*) := T → Option V

/-- The names an instruction reads and writes, and the values it writes. -/
structure Instr (T V : Type*) where
  reads : List T
  writes : List T
  run : List V → Option (List V)

section
variable {T V : Type*}

def Env.readAll (e : Env T V) : List T → Option (List V)
  | [] => some []
  | t :: ts => do
    let v ← e t
    let vs ← e.readAll ts
    pure (v :: vs)

variable [DecidableEq T]

def Env.bind (e : Env T V) (ts : List T) (vs : List V) : Env T V :=
  (ts.zip vs).foldl (fun e p => update e p.1 (some p.2)) e

def Instr.step (i : Instr T V) (e : Env T V) : Option (Env T V) :=
  (e.readAll i.reads).bind fun vs => (i.run vs).bind fun ws => some (e.bind i.writes ws)

def exec (is : List (Instr T V)) (e : Env T V) : Option (Env T V) :=
  is.foldlM (fun e i => i.step e) e

/-- A program with parameters and results. -/
structure Block (T V : Type*) where
  consts : Env T V
  inputs : List T
  instrs : List (Instr T V)
  outputs : List T

def Block.eval (b : Block T V) (args : List V) : Option (List V) :=
  (exec b.instrs (b.consts.bind b.inputs args)).bind fun e => e.readAll b.outputs

end

section
variable {T V : Type*} {e e' : Env T V} {ts : List T} {vs : List V} {t : T} {T' : Type*}
  {i : Instr T V}

/-! ## Reading -/

theorem Env.readAll_cons (t : T) (ts : List T) : e.readAll (t :: ts) =
    (e t).bind fun v => (e.readAll ts).bind fun vs => some (v :: vs) := rfl

theorem Env.readAll_eq_some (h : e.readAll ts = some vs) :
    vs.length = ts.length ∧ ∀ p ∈ ts.zip vs, e p.1 = some p.2 := by
  induction ts generalizing vs with
  | nil =>
    cases h
    simp
  | cons t ts ih =>
    rw [readAll_cons] at h
    simp only [Option.bind_eq_some_iff, Option.some.injEq] at h
    obtain ⟨v, hv, vs', hvs, rfl⟩ := h
    obtain ⟨hlen, hall⟩ := ih hvs
    refine ⟨by simp [hlen], fun p hp => ?_⟩
    rw [zip_cons_cons, mem_cons] at hp
    rcases hp with rfl | hp
    · exact hv
    · exact hall p hp

theorem Env.readAll_isSome (e : Env T V) (ts : List T) (h : ∀ t ∈ ts, ∃ v, e t = some v) :
    ∃ vs, e.readAll ts = some vs := by
  induction ts with
  | nil => exact ⟨[], rfl⟩
  | cons t ts ih =>
    obtain ⟨v, hv⟩ := h t (by simp)
    obtain ⟨vs, hvs⟩ := ih fun t' ht => h t' (mem_cons_of_mem t ht)
    exact ⟨v :: vs, by rw [readAll_cons, hv, Option.bind_some, hvs, Option.bind_some]⟩

theorem Env.readAll_eq_none (ht : t ∈ ts) (h : e t = none) : e.readAll ts = none := by
  induction ts with
  | nil => cases ht
  | cons t' ts ih =>
    rw [readAll_cons]
    rcases mem_cons.mp ht with rfl | ht
    · rw [h, Option.bind_none]
    · rw [ih ht]
      cases e t' <;> rfl

/-- Reading renamed names. -/
theorem Env.readAll_map {e' : Env T' V} {f : T → T'} (h : ∀ t ∈ ts, e' (f t) = e t) :
    e'.readAll (ts.map f) = e.readAll ts := by
  induction ts with
  | nil => rfl
  | cons t ts ih =>
    rw [map_cons, readAll_cons, readAll_cons, h t (by simp),
      ih fun t' ht => h t' (mem_cons_of_mem t ht)]

/-! ## Writing -/

variable [DecidableEq T]

@[simp] theorem Env.bind_nil_left (e : Env T V) (vs : List V) : e.bind [] vs = e := rfl

@[simp] theorem Env.bind_nil_right (e : Env T V) (ts : List T) : e.bind ts [] = e := by
  rw [bind, zip_nil_right]
  rfl

theorem Env.bind_cons (e : Env T V) (t : T) (ts : List T) (v : V) (vs : List V) :
    e.bind (t :: ts) (v :: vs) = Env.bind (update e t (some v)) ts vs := rfl

theorem Env.bind_of_not_mem (ht : t ∉ ts) (vs : List V) : e.bind ts vs t = e t := by
  induction ts generalizing e vs with
  | nil => rfl
  | cons t' ts ih =>
    cases vs with
    | nil => rw [bind_nil_right]
    | cons v vs =>
      rw [mem_cons, not_or] at ht
      rw [bind_cons, ih ht.2, update_of_ne ht.1]

/-- The values written to distinct names. -/
theorem Env.bind_of_mem {v : V} (hnd : ts.Nodup) (hm : (t, v) ∈ ts.zip vs) :
    e.bind ts vs t = some v := by
  induction ts generalizing e vs with
  | nil => cases hm
  | cons t' ts ih =>
    cases vs with
    | nil => cases hm
    | cons v' vs =>
      obtain ⟨hnew, hnd⟩ := nodup_cons.mp hnd
      rw [bind_cons]
      rw [zip_cons_cons, mem_cons] at hm
      rcases hm with hm | hm
      · cases hm
        rw [bind_of_not_mem hnew, update_self]
      · exact ih hnd hm

theorem Env.bind_congr (h : e' t = e t) (ts : List T) (vs : List V) :
    e'.bind ts vs t = e.bind ts vs t := by
  induction ts generalizing e e' vs with
  | nil => exact h
  | cons t' ts ih =>
    cases vs with
    | nil => rwa [bind_nil_right, bind_nil_right]
    | cons v vs =>
      rw [bind_cons, bind_cons]
      refine ih ?_ vs
      by_cases ht : t = t'
      · subst ht
        rw [update_self, update_self]
      · rw [update_of_ne ht, update_of_ne ht, h]

/-- Writing to renamed names. -/
theorem Env.bind_map [DecidableEq T'] {e' : Env T' V} {f : T → T'}
    (hinj : ∀ w ∈ ts, f t = f w → t = w) (h : e' (f t) = e t) (vs : List V) :
    e'.bind (ts.map f) vs (f t) = e.bind ts vs t := by
  induction ts generalizing e e' vs with
  | nil => exact h
  | cons w ts ih =>
    cases vs with
    | nil => rwa [bind_nil_right, bind_nil_right]
    | cons v vs =>
      rw [map_cons, bind_cons, bind_cons]
      refine ih (fun w' hw => hinj w' (mem_cons_of_mem w hw)) ?_ vs
      by_cases ht : t = w
      · subst ht
        rw [update_self, update_self]
      · rw [update_of_ne ht, update_of_ne fun he => ht (hinj w (by simp) he), h]

omit [DecidableEq T] in
/-- Passing the values of `ts` to the distinct names `ss`. -/
theorem Env.bind_readAll [DecidableEq T'] {e' : Env T' V} {ss : List T'} {s : T'}
    (h : e.readAll ts = some vs) (hnd : ss.Nodup) (hm : (t, s) ∈ ts.zip ss) :
    e'.bind ss vs s = e t := by
  obtain ⟨hlen, hall⟩ := readAll_eq_some h
  obtain ⟨i, hi⟩ := mem_iff_getElem?.mp hm
  obtain ⟨ht, hs⟩ := getElem?_zip_eq_some.mp hi
  obtain ⟨hlt, -⟩ := List.getElem?_eq_some_iff.mp ht
  have hv : vs[i]? = some vs[i] := getElem?_eq_getElem (hlen.symm ▸ hlt)
  rw [hall (t, vs[i]) (mem_of_getElem? (getElem?_zip_eq_some.mpr ⟨ht, hv⟩)),
    bind_of_mem hnd (mem_of_getElem? (getElem?_zip_eq_some.mpr ⟨hs, hv⟩))]

theorem Env.bind_isSome (hnd : t ∈ ts) (hlen : ts.length ≤ vs.length) :
    ∃ v, e.bind ts vs t = some v := by
  induction ts generalizing e vs with
  | nil => cases hnd
  | cons t' ts ih =>
    cases vs with
    | nil => simp at hlen
    | cons v vs =>
      rw [bind_cons]
      by_cases hm : t ∈ ts
      · exact ih hm (by simpa using hlen)
      · obtain rfl := (mem_cons.mp hnd).resolve_right hm
        rw [bind_of_not_mem hm, update_self]
        exact ⟨v, rfl⟩

/-- What has a value keeps having one. -/
theorem Env.bind_isSome_of_isSome (h : ∃ v, e t = some v) (ts : List T) (vs : List V) :
    ∃ v, e.bind ts vs t = some v := by
  induction ts generalizing e vs with
  | nil => exact h
  | cons t' ts ih =>
    cases vs with
    | nil => rwa [bind_nil_right]
    | cons v vs =>
      rw [bind_cons]
      refine ih ?_ vs
      by_cases ht : t = t'
      · subst ht
        exact ⟨v, update_self ..⟩
      · rwa [update_of_ne ht]

/-! ## Running -/

variable {is : List (Instr T V)} {f : Env T V}

theorem Instr.step_eq_some : i.step e = some f ↔
    ∃ vs ws, e.readAll i.reads = some vs ∧ i.run vs = some ws ∧ f = e.bind i.writes ws := by
  simp only [step, Option.bind_eq_some_iff, Option.some.injEq, eq_comm (a := f)]
  constructor
  · rintro ⟨vs, hvs, ws, hws, h⟩
    exact ⟨vs, ws, hvs, hws, h⟩
  · rintro ⟨vs, ws, hvs, hws, h⟩
    exact ⟨vs, hvs, ws, hws, h⟩

@[simp] theorem exec_nil (e : Env T V) : exec [] e = some e := rfl

theorem exec_cons (i : Instr T V) (is : List (Instr T V)) (e : Env T V) :
    exec (i :: is) e = (i.step e).bind (exec is) := foldlM_cons ..

theorem exec_append (is is' : List (Instr T V)) (e : Env T V) :
    exec (is ++ is') e = (exec is e).bind (exec is') := foldlM_append ..

/-- Names that are not written keep their values. -/
theorem exec_frame (h : exec is e = some f) (ht : ∀ i ∈ is, t ∉ i.writes) : f t = e t := by
  induction is generalizing e with
  | nil =>
    cases h
    rfl
  | cons i is ih =>
    rw [exec_cons, Option.bind_eq_some_iff] at h
    obtain ⟨e₁, hstep, h⟩ := h
    obtain ⟨vs, ws, -, -, rfl⟩ := Instr.step_eq_some.mp hstep
    rw [ih h fun j hj => ht j (mem_cons_of_mem i hj), Env.bind_of_not_mem (ht i (by simp))]

/-- An instruction that reads and writes nothing. -/
theorem Instr.step_idle (hr : i.reads = []) (hw : i.writes = []) (hrun : ∃ ws, i.run [] = some ws) :
    i.step e = some e := by
  obtain ⟨ws, hws⟩ := hrun
  exact step_eq_some.mpr ⟨[], ws, by rw [hr]; rfl, hws, by rw [hw, Env.bind_nil_left]⟩

theorem exec_filter {α : Type*} {l : List α} {p : α → Bool} {i : α → Instr T V}
    (h : ∀ a ∈ l, p a = false → ∀ e, (i a).step e = some e) (e : Env T V) :
    exec ((l.filter p).map i) e = exec (l.map i) e := by
  induction l generalizing e with
  | nil => rfl
  | cons a l ih =>
    have ih := ih fun b hb => h b (mem_cons_of_mem a hb)
    rw [map_cons, exec_cons]
    cases hp : p a with
    | true =>
      rw [filter_cons_of_pos hp, map_cons, exec_cons]
      exact Option.bind_congr fun e' _ => ih e'
    | false => rw [filter_cons_of_neg (by simp [hp]), h a (by simp) hp, Option.bind_some, ih]

/-- An instruction under other names. -/
def Instr.rename {T' : Type*} (ρ : T → T') (i : Instr T V) : Instr T' V where
  reads := i.reads.map ρ
  writes := i.writes.map ρ
  run := i.run

/-- A run under other names, `U` the names whose values are tracked. -/
theorem exec_rename [DecidableEq T'] (ρ : T → T') (U : T → Prop) {e' : Env T' V}
    (hreads : ∀ i ∈ is, ∀ t ∈ i.reads, U t)
    (hinj : ∀ i ∈ is, ∀ w ∈ i.writes, ∀ t, U t → ρ t = ρ w → t = w) (he : ∀ t, U t → e' (ρ t) = e t)
    (h : exec is e = some f) :
    ∃ f', exec (is.map (Instr.rename ρ)) e' = some f' ∧ ∀ t, U t → f' (ρ t) = f t := by
  induction is generalizing e e' with
  | nil =>
    cases h
    exact ⟨e', rfl, he⟩
  | cons i is ih =>
    rw [exec_cons, Option.bind_eq_some_iff] at h
    obtain ⟨e₁, hstep, h⟩ := h
    obtain ⟨vs, ws, hvs, hws, rfl⟩ := Instr.step_eq_some.mp hstep
    have hbind (t : T) (ht : U t) :
        e'.bind (i.writes.map ρ) ws (ρ t) = e.bind i.writes ws t :=
      Env.bind_map (fun w hw => hinj i (by simp) w hw t ht) (he t ht) ws
    obtain ⟨f', hf', hU⟩ := ih (fun j hj => hreads j (mem_cons_of_mem i hj))
      (fun j hj => hinj j (mem_cons_of_mem i hj)) hbind h
    refine ⟨f', ?_, hU⟩
    have hstep' : (i.rename ρ).step e' = some (e'.bind (i.writes.map ρ) ws) :=
      Instr.step_eq_some.mpr ⟨vs, ws,
        (Env.readAll_map fun t ht => he t (hreads i (by simp) t ht)).trans hvs, hws, rfl⟩
    rw [map_cons, exec_cons, hstep', Option.bind_some, hf']

/-! ## Programs that run -/

/-- An instruction that computes its results from any values. -/
def Instr.Total (i : Instr T V) : Prop :=
  ∀ vs, vs.length = i.reads.length → ∃ ws, i.run vs = some ws ∧ i.writes.length ≤ ws.length

/-- A program whose names are written before they are read runs, `D` the names with a
value at the start. -/
theorem exec_isSome (is : List (Instr T V)) {D : T → Prop} (hD : ∀ t, D t → ∃ v, e t = some v)
    (htotal : ∀ i ∈ is, i.Total)
    (hscoped : ∀ l₁ i l₂, is = l₁ ++ i :: l₂ → ∀ t ∈ i.reads, D t ∨ ∃ j ∈ l₁, t ∈ j.writes) :
    ∃ f, exec is e = some f ∧ ∀ t, (D t ∨ ∃ j ∈ is, t ∈ j.writes) → ∃ v, f t = some v := by
  induction is generalizing e D with
  | nil => exact ⟨e, rfl, fun t ht => hD t (by simpa using ht)⟩
  | cons i is ih =>
    obtain ⟨vs, hvs⟩ := Env.readAll_isSome e i.reads fun t ht =>
      hD t (by simpa using hscoped [] i is rfl t ht)
    obtain ⟨ws, hws, hlen⟩ := htotal i (by simp) vs (Env.readAll_eq_some hvs).1
    obtain ⟨f, hf, hall⟩ := ih (D := fun t => D t ∨ t ∈ i.writes) (e := e.bind i.writes ws)
      (fun t ht => ht.elim (fun h => Env.bind_isSome_of_isSome (hD t h) _ _)
        fun h => Env.bind_isSome h hlen)
      (fun j hj => htotal j (mem_cons_of_mem i hj))
      (fun l₁ j l₂ hsplit t ht => by
        have := hscoped (i :: l₁) j l₂ (by rw [hsplit]; rfl) t ht
        simp only [exists_mem_cons_iff] at this
        exact or_assoc.mpr this)
    refine ⟨f, ?_, fun t ht => hall t ?_⟩
    · rw [exec_cons, Instr.step_eq_some.mpr ⟨vs, ws, hvs, hws, rfl⟩, Option.bind_some, hf]
    · simp only [exists_mem_cons_iff] at ht
      exact or_assoc.mpr ht

/-- What a program writes has a value at the end. -/
theorem exec_isSome_of_mem_writes (h : exec is e = some f) (htotal : ∀ i ∈ is, i.Total)
    (ht : (∃ v, e t = some v) ∨ ∃ i ∈ is, t ∈ i.writes) : ∃ v, f t = some v := by
  induction is generalizing e with
  | nil =>
    cases h
    exact ht.resolve_right (by simp)
  | cons i is ih =>
    rw [exec_cons, Option.bind_eq_some_iff] at h
    obtain ⟨e₁, hstep, h⟩ := h
    obtain ⟨vs, ws, hvs, hws, rfl⟩ := Instr.step_eq_some.mp hstep
    refine ih h (fun j hj => htotal j (mem_cons_of_mem i hj)) ?_
    rw [exists_mem_cons_iff] at ht
    rcases ht with ht | ht | ht
    · exact .inl (Env.bind_isSome_of_isSome ht _ _)
    · obtain ⟨ws', hws', hlen⟩ := htotal i (by simp) vs (Env.readAll_eq_some hvs).1
      rw [hws] at hws'
      cases hws'
      exact .inl (Env.bind_isSome ht hlen)
    · exact .inr ht

/-- A name that never gets a value cannot be read. -/
theorem exec_eq_none (hi : i ∈ is) (ht : t ∈ i.reads) (he : e t = none)
    (hw : ∀ j ∈ is, t ∉ j.writes) : exec is e = none := by
  obtain ⟨l₁, l₂, rfl⟩ := append_of_mem hi
  rw [exec_append]
  cases h : exec l₁ e with
  | none => rfl
  | some e₁ =>
    have hnone : e₁ t = none := by
      rw [exec_frame h fun j hj => hw j (mem_append_left _ hj), he]
    rw [Option.bind_some, exec_cons, Instr.step, Env.readAll_eq_none ht hnone]
    rfl

end

end LiteRt.Lib
