import LiteRt.Lib.Dataflow

/-!
# Reordering and fusing instructions

A program that writes each name once, before it is read, is a system of equations: a run is
its solution, whatever the order. A group of its instructions can be run as one, on what the
group reads from outside, as long as what is read outside is passed on.
-/

namespace LiteRt.Lib

open List

section
variable {T V : Type*}

/-- The second writes nothing that the first reads or writes. -/
def Instr.Clear (i j : Instr T V) : Prop := ∀ t ∈ j.writes, t ∉ i.reads ∧ t ∉ i.writes

/-- Names are written once, and not after they are read. -/
structure Ordered (is : List (Instr T V)) : Prop where
  clear : is.Pairwise Instr.Clear
  self : ∀ i ∈ is, ∀ t ∈ i.writes, t ∉ i.reads

/-- Where it succeeds, the instruction has a value for every name it writes. -/
def Instr.Full (i : Instr T V) : Prop :=
  ∀ vs ws, i.run vs = some ws → i.writes.length ≤ ws.length

variable [DecidableEq T]

/-- `f` solves the equation of the instruction. -/
def Instr.SolvedBy (i : Instr T V) (f : Env T V) : Prop :=
  ∃ vs ws, f.readAll i.reads = some vs ∧ i.run vs = some ws ∧
    ∀ t ∈ i.writes, f t = Env.bind (fun _ => none) i.writes ws t

/-- `f` solves the equations of a program from `e`. -/
structure Solves (is : List (Instr T V)) (e f : Env T V) : Prop where
  instr : ∀ i ∈ is, i.SolvedBy f
  frame : ∀ t, (∀ i ∈ is, t ∉ i.writes) → f t = e t

/-- A group as one instruction, which sees `ins` and passes on `outs`. -/
def Instr.fuse (ins outs : List T) (group : List (Instr T V)) : Instr T V where
  reads := ins
  writes := outs
  run := (Block.mk (fun _ => none) ins group outs).eval

/-- `ins` are the names that the group reads from outside, `outs` names that it writes. -/
structure Cut (ins outs : List T) (group : List (Instr T V)) : Prop where
  mem_ins : ∀ t, t ∈ ins ↔ (∃ i ∈ group, t ∈ i.reads) ∧ ¬ ∃ j ∈ group, t ∈ j.writes
  written : ∀ t ∈ outs, ∃ j ∈ group, t ∈ j.writes
  nodup_ins : ins.Nodup
  nodup_outs : outs.Nodup

/-- An instruction that computes what a group does, with the same reads from outside. -/
structure Stands (i : Instr T V) (group : List (Instr T V)) : Prop where
  reads : ∀ t ∈ i.reads, (∃ j ∈ group, t ∈ j.reads) ∧ ¬ ∃ j ∈ group, t ∈ j.writes
  writes : ∀ t ∈ i.writes, ∃ j ∈ group, t ∈ j.writes
  full : i.Full
  solved : ∀ f : Env T V, (∀ j ∈ group, j.SolvedBy f) → i.SolvedBy f

end

section
variable {T V : Type*} {is group : List (Instr T V)} {i : Instr T V} {e e' f : Env T V} {t : T}
  {ts ins outs : List T} {vs : List V}

theorem ordered_cons : Ordered (i :: is) ↔
    (∀ j ∈ is, i.Clear j) ∧ (∀ t ∈ i.writes, t ∉ i.reads) ∧ Ordered is := by
  constructor
  · rintro ⟨hclear, hself⟩
    obtain ⟨hi, hclear⟩ := pairwise_cons.mp hclear
    exact ⟨hi, hself i (by simp), hclear, fun j hj => hself j (mem_cons_of_mem i hj)⟩
  · rintro ⟨hi, hself, h⟩
    exact ⟨pairwise_cons.mpr ⟨hi, h.clear⟩, forall_mem_cons.mpr ⟨hself, h.self⟩⟩

theorem Env.readAll_congr (h : ∀ t ∈ ts, e' t = e t) : e'.readAll ts = e.readAll ts := by
  simpa using readAll_map (f := id) h

variable [DecidableEq T]

/-- What is written to `t` does not depend on what the other names hold. -/
theorem Env.bind_of_full (ht : t ∈ ts) (hlen : ts.length ≤ vs.length) :
    e'.bind ts vs t = e.bind ts vs t := by
  induction ts generalizing e e' vs with
  | nil => cases ht
  | cons u ts ih =>
    cases vs with
    | nil => simp at hlen
    | cons v vs =>
      rw [bind_cons, bind_cons]
      by_cases hm : t ∈ ts
      · exact ih hm (by simpa using hlen)
      · obtain rfl := (mem_cons.mp ht).resolve_right hm
        exact bind_congr (by simp) ts vs

theorem Env.bind_readAll_self (h : e.readAll ts = some vs) (hnd : ts.Nodup) (ht : t ∈ ts) :
    e'.bind ts vs t = e t := by
  obtain ⟨k, hk, rfl⟩ := mem_iff_getElem.mp ht
  exact bind_readAll h hnd (mem_iff_getElem.mpr ⟨k, by simpa using hk, by simp⟩)

/-- A run less the instructions whose results the others do not read, `U` the names tracked. -/
theorem exec_unread {α : Type*} {l : List α} {p : α → Bool} {i : α → Instr T V} {U : T → Prop}
    (hreads : ∀ a ∈ l, p a = true → ∀ t ∈ (i a).reads, U t)
    (hwrites : ∀ a ∈ l, p a = false → ∀ t ∈ (i a).writes, ¬ U t) (he : ∀ t, U t → e' t = e t)
    (h : exec (l.map i) e = some f) :
    ∃ f', exec ((l.filter p).map i) e' = some f' ∧ ∀ t, U t → f' t = f t := by
  induction l generalizing e e' with
  | nil =>
    cases h
    exact ⟨e', rfl, he⟩
  | cons a l ih =>
    obtain ⟨ha, hreads⟩ := forall_mem_cons.mp hreads
    obtain ⟨hna, hwrites⟩ := forall_mem_cons.mp hwrites
    rw [map_cons, exec_cons, Option.bind_eq_some_iff] at h
    obtain ⟨e₁, hstep, h⟩ := h
    obtain ⟨vs, ws, hvs, hws, rfl⟩ := Instr.step_eq_some.mp hstep
    cases hp : p a with
    | true =>
      have hread := Env.readAll_congr fun t ht => he t (ha hp t ht)
      obtain ⟨f', hf', hU⟩ := ih hreads hwrites (fun t ht => Env.bind_congr (he t ht) _ ws) h
      refine ⟨f', ?_, hU⟩
      rw [filter_cons_of_pos hp, map_cons, exec_cons,
        Instr.step_eq_some.mpr ⟨vs, ws, hread.trans hvs, hws, rfl⟩, Option.bind_some, hf']
    | false =>
      rw [filter_cons_of_neg (by simp [hp])]
      refine ih hreads hwrites (fun t ht => ?_) h
      rw [he t ht, Env.bind_of_not_mem fun hw => hna hp t hw ht]

/-! ## Order -/

/-- The solution is what the program computes. -/
theorem exec_iff_solves (h : Ordered is) (hfull : ∀ i ∈ is, i.Full) :
    exec is e = some f ↔ Solves is e f := by
  induction is generalizing e with
  | nil =>
    rw [exec_nil, Option.some.injEq]
    exact ⟨fun he => ⟨by simp, fun _ _ => he ▸ rfl⟩,
      fun hs => funext fun t => (hs.frame t (by simp)).symm⟩
  | cons i is ih =>
    obtain ⟨hclear, hself, h⟩ := ordered_cons.mp h
    obtain ⟨hi, hfull⟩ := forall_mem_cons.mp hfull
    rw [exec_cons, Option.bind_eq_some_iff]
    constructor
    · rintro ⟨e₁, hstep, hrun⟩
      obtain ⟨vs, ws, hvs, hws, rfl⟩ := Instr.step_eq_some.mp hstep
      obtain ⟨hinstr, hframe⟩ := (ih h hfull).mp hrun
      refine ⟨forall_mem_cons.mpr ⟨⟨vs, ws, ?_, hws, fun t ht => ?_⟩, hinstr⟩, fun t ht => ?_⟩
      · refine (Env.readAll_congr fun t ht => ?_).trans hvs
        rw [hframe t fun j hj hw => (hclear j hj t hw).1 ht,
          Env.bind_of_not_mem fun hw => hself t hw ht]
      · rw [hframe t fun j hj hw => (hclear j hj t hw).2 ht]
        exact Env.bind_of_full ht (hi vs ws hws)
      · obtain ⟨hti, ht⟩ := forall_mem_cons.mp ht
        rw [hframe t ht, Env.bind_of_not_mem hti]
    · rintro ⟨hinstr, hframe⟩
      obtain ⟨⟨vs, ws, hvs, hws, hw⟩, hinstr⟩ := forall_mem_cons.mp hinstr
      refine ⟨_, Instr.step_eq_some.mpr ⟨vs, ws, ?_, hws, rfl⟩,
        (ih h hfull).mpr ⟨hinstr, fun t ht => ?_⟩⟩
      · refine (Env.readAll_congr fun t ht => (hframe t ?_).symm).trans hvs
        exact forall_mem_cons.mpr ⟨fun hw => hself t hw ht, fun j hj hw => (hclear j hj t hw).1 ht⟩
      · by_cases hti : t ∈ i.writes
        · exact (hw t hti).trans (Env.bind_of_full hti (hi vs ws hws))
        · rw [Env.bind_of_not_mem hti, hframe t (forall_mem_cons.mpr ⟨hti, ht⟩)]

/-! ## Groups -/

theorem Stands.refl (hself : ∀ t ∈ i.writes, t ∉ i.reads) (hfull : i.Full) : Stands i [i] where
  reads t ht := by simpa using ⟨ht, fun hw => hself t hw ht⟩
  writes t ht := ⟨i, by simp, ht⟩
  full := hfull
  solved f h := h i (by simp)

/-- A name that an instruction reads or writes has a value in a solution. -/
theorem Instr.SolvedBy.isSome (h : i.SolvedBy f) (hfull : i.Full) (ht : t ∈ i.reads ∨ t ∈ i.writes) :
    ∃ v, f t = some v := by
  obtain ⟨vs, ws, hvs, hws, hw⟩ := h
  rcases ht with ht | ht
  · by_contra hno
    rw [Env.readAll_eq_none ht (Option.eq_none_iff_forall_ne_some.mpr (not_exists.mp hno))] at hvs
    cases hvs
  · rw [hw t ht]
    exact Env.bind_isSome ht (hfull vs ws hws)

theorem Cut.stands (hc : Cut ins outs group) (hord : Ordered group) (hfull : ∀ i ∈ group, i.Full) :
    Stands (.fuse ins outs group) group where
  reads t := (hc.mem_ins t).mp
  writes := hc.written
  full vs ws hws := by
    obtain ⟨f, -, hf⟩ := Option.bind_eq_some_iff.mp hws
    exact Nat.le_of_eq (Env.readAll_eq_some hf).1.symm
  solved f h := by
    classical
    obtain ⟨vs, hvs⟩ := Env.readAll_isSome f ins fun t ht => by
      obtain ⟨⟨i, hi, hr⟩, -⟩ := (hc.mem_ins t).mp ht
      exact (h i hi).isSome (hfull i hi) (.inl hr)
    obtain ⟨ws, hws⟩ := Env.readAll_isSome f outs fun t ht => by
      obtain ⟨i, hi, hw⟩ := hc.written t ht
      exact (h i hi).isSome (hfull i hi) (.inr hw)
    set e₀ : Env T V := Env.bind (fun _ => none) ins vs
    -- the solution of the group, started on its inputs alone
    set f₀ : Env T V := fun t => if ∃ j ∈ group, t ∈ j.writes then f t else e₀ t
    have hread (i : Instr T V) (hi : i ∈ group) (t : T) (ht : t ∈ i.reads) : f₀ t = f t := by
      by_cases hw : ∃ j ∈ group, t ∈ j.writes
      · exact if_pos hw
      · refine (if_neg hw).trans ?_
        exact Env.bind_readAll_self hvs hc.nodup_ins ((hc.mem_ins t).mpr ⟨⟨i, hi, ht⟩, hw⟩)
    have hsolves : Solves group e₀ f₀ := by
      refine ⟨fun i hi => ?_, fun t ht => if_neg fun hw => ?_⟩
      · obtain ⟨vs, ws, hvs, hws, hw⟩ := h i hi
        exact ⟨vs, ws, (Env.readAll_congr (hread i hi)).trans hvs, hws, fun t ht =>
          (if_pos ⟨i, hi, ht⟩).trans (hw t ht)⟩
      · obtain ⟨j, hj, hw⟩ := hw
        exact ht j hj hw
    refine ⟨vs, ws, hvs, ?_, fun t ht => (Env.bind_readAll_self hws hc.nodup_outs ht).symm⟩
    have hrun : exec group e₀ = some f₀ := (exec_iff_solves hord hfull).mpr hsolves
    show (exec group e₀).bind (fun e => e.readAll outs) = some ws
    rw [hrun, Option.bind_some, ← hws]
    exact Env.readAll_congr fun t ht => if_pos (hc.written t ht)

variable {l : List (Instr T V × List (Instr T V))}

/-- Instructions in the place of groups keep the order of a program. -/
theorem Ordered.stands (h : Ordered (l.flatMap Prod.snd)) (hl : ∀ p ∈ l, Stands p.1 p.2) :
    Ordered (l.map Prod.fst) := by
  refine ⟨pairwise_map.mpr ((pairwise_flatMap.mp h.clear).2.imp_of_mem ?_), ?_⟩
  · intro p q hp hq hclear t ht
    obtain ⟨j, hj, ht⟩ := (hl q hq).writes t ht
    refine ⟨fun hr => ?_, fun hw => ?_⟩
    · obtain ⟨i, hi, hr⟩ := ((hl p hp).reads t hr).1
      exact (hclear i hi j hj t ht).1 hr
    · obtain ⟨i, hi, hw⟩ := (hl p hp).writes t hw
      exact (hclear i hi j hj t ht).2 hw
  · intro i hi t hw hr
    obtain ⟨p, hp, rfl⟩ := mem_map.mp hi
    exact ((hl p hp).reads t hr).2 ((hl p hp).writes t hw)

/-- No group keeps the name to itself. -/
def Shown (l : List (Instr T V × List (Instr T V))) (t : T) : Prop :=
  ∀ p ∈ l, (∃ j ∈ p.2, t ∈ j.writes) → t ∈ p.1.writes

/-- Reordering a program and running groups of it as one keeps what is shown, if all that
is read is. -/
theorem exec_stands (hl : ∀ p ∈ l, Stands p.1 p.2) (hperm : is.Perm (l.flatMap Prod.snd))
    (hord : Ordered is) (hord' : Ordered (l.flatMap Prod.snd)) (hfull : ∀ i ∈ is, i.Full)
    (hread : ∀ p ∈ l, ∀ t ∈ p.1.reads, Shown l t) (h : exec is e = some f) :
    ∃ g, exec (l.map Prod.fst) e = some g ∧ ∀ t, Shown l t → g t = f t := by
  classical
  have hs := (exec_iff_solves hord hfull).mp h
  set g : Env T V := fun t => if ∃ p ∈ l, t ∈ p.1.writes then f t else e t
  have hshown (t : T) (ht : Shown l t) : g t = f t := by
    by_cases hw : ∃ p ∈ l, t ∈ p.1.writes
    · exact if_pos hw
    · refine (if_neg hw).trans (hs.frame t fun i hi hit => hw ?_).symm
      obtain ⟨p, hp, hi⟩ := mem_flatMap.mp (hperm.mem_iff.mp hi)
      exact ⟨p, hp, ht p hp ⟨i, hi, hit⟩⟩
  have hfull' : ∀ i ∈ l.map Prod.fst, i.Full := forall_mem_map.mpr fun p hp => (hl p hp).full
  refine ⟨g, (exec_iff_solves (hord'.stands hl) hfull').mpr ⟨?_, fun t ht => ?_⟩, hshown⟩
  · refine forall_mem_map.mpr fun p hp => ?_
    obtain ⟨vs, ws, hvs, hws, hw⟩ := (hl p hp).solved f fun j hj =>
      hs.instr j (hperm.mem_iff.mpr (mem_flatMap.mpr ⟨p, hp, hj⟩))
    refine ⟨vs, ws, ?_, hws, fun t ht => (if_pos ⟨p, hp, ht⟩).trans (hw t ht)⟩
    exact (Env.readAll_congr fun t ht => hshown t (hread p hp t ht)).trans hvs
  · refine if_neg fun hw => ?_
    obtain ⟨p, hp, hw⟩ := hw
    exact ht p.1 (mem_map_of_mem hp) hw

end

end LiteRt.Lib
