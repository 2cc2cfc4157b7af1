import LiteRt.Lib.Broadcast
import Mathlib.Data.List.SplitBy

/-!
# Runs of axes

The axes of two arrays split into runs along which the same array is stretched, or none is. Axes
with one element belong to no run.
-/

namespace LiteRt.Lib

open List

/-- Which array is stretched along an axis. -/
inductive Stretch where
  | neither
  | first
  | second
  deriving DecidableEq, Repr

namespace Axis

def stretch (a : Axis) : Stretch :=
  if a.first = a.second then .neither else if a.first = 1 then .first else .second

section
variable {a : Axis}

theorem stretch_eq_neither : a.stretch = .neither ↔ a.first = a.second := by
  unfold stretch
  split
  · exact ⟨fun _ => ‹_›, fun _ => rfl⟩
  · rename_i hne
    refine ⟨fun h => ?_, fun h => absurd h hne⟩
    split at h <;> cases h

theorem stretch_of_first (hfirst : a.first = 1) (hsecond : a.second ≠ 1) : a.stretch = .first := by
  unfold stretch
  rw [if_neg fun h => hsecond (h.symm.trans hfirst), if_pos hfirst]

theorem stretch_of_second (hfirst : a.first ≠ 1) (hsecond : a.second = 1) :
    a.stretch = .second := by
  unfold stretch
  rw [if_neg (fun h => hfirst (h.trans hsecond)), if_neg hfirst]

theorem first_of_stretch (h : a.stretch = .first) : a.first = 1 := by
  unfold stretch at h
  split at h
  · cases h
  · split at h
    · assumption
    · cases h

theorem Compatible.second_of_stretch (hcompatible : a.Compatible) (h : a.stretch = .second) :
    a.second = 1 := by
  unfold stretch at h
  split at h
  · cases h
  · rename_i hne
    split at h
    · cases h
    · rename_i hfirst
      exact (hcompatible.resolve_left hne).resolve_left hfirst

/-- An axis with one element. -/
theorem extent_eq_one : a.extent = 1 ↔ a.first = 1 ∧ a.second = 1 := by
  unfold extent
  split
  · simp [*]
  · simp [*]

end

end Axis

/-- The runs, innermost first. -/
def runsOf (axes : List Axis) : List (List Axis) :=
  (axes.filter fun a => a.extent ≠ 1).splitBy fun a b => a.stretch = b.stretch

/-! ## Splitting from the left -/

section
variable {α : Type} {r : α → α → Bool} {l : List α} {runs : List (List α)} {run : List α} {a : α}

/-- What is related to the end of the last run belongs to it. -/
theorem splitBy_concat (h : l.splitBy r = runs ++ [run]) (ha : ∀ x ∈ run.getLast?, r x a = true) :
    (l ++ [a]).splitBy r = runs ++ [run ++ [a]] := by
  obtain ⟨hflatten, hnil, hchain, hbetween⟩ := splitBy_eq_iff.1 h
  have hrun : run ≠ [] := by
    rintro rfl
    exact hnil (mem_append_right _ mem_cons_self)
  refine splitBy_eq_iff.2 ⟨?_, ?_, ?_, ?_⟩
  · rw [hflatten]
    simp
  · intro hmem
    obtain hmem | hmem := mem_append.1 hmem
    · exact hnil (mem_append_left _ hmem)
    · rw [mem_singleton] at hmem
      simp at hmem
  · intro m hm
    obtain hm | hm := mem_append.1 hm
    · exact hchain m (mem_append_left _ hm)
    · rw [mem_singleton] at hm
      subst hm
      refine isChain_append.2 ⟨hchain run (mem_append_right _ mem_cons_self),
        isChain_singleton a, fun x hx y hy => ?_⟩
      obtain rfl : a = y := by simpa using hy
      exact ha x hx
  · rw [isChain_append] at hbetween ⊢
    obtain ⟨hruns, -, hlast⟩ := hbetween
    refine ⟨hruns, isChain_singleton _, fun x hx y hy => ?_⟩
    obtain rfl : run ++ [a] = y := by simpa using hy
    obtain ⟨hx', hne, hunrelated⟩ := hlast x hx run (by simp)
    refine ⟨hx', by simp, ?_⟩
    rwa [head_append_of_ne_nil hrun]

end

/-! ## The runs of some axes -/

section
variable {axes rest : List Axis} {runs : List (List Axis)} {run : List Axis} {a : Axis}

theorem flatten_runsOf (axes : List Axis) :
    (runsOf axes).flatten = axes.filter fun a => a.extent ≠ 1 := by
  unfold runsOf
  exact flatten_splitBy _ _

theorem runsOf_concat_unit (h : a.extent = 1) : runsOf (axes ++ [a]) = runsOf axes := by
  unfold runsOf
  rw [filter_append, filter_cons_of_neg (by simp [h]), filter_nil, append_nil]

/-- The axis that was last added to a run, if any. -/
def lastStretch (axes : List Axis) : Option Stretch :=
  (axes.filter fun a => a.extent ≠ 1).getLast?.map Axis.stretch

theorem lastStretch_concat_unit (h : a.extent = 1) :
    lastStretch (axes ++ [a]) = lastStretch axes := by
  unfold lastStretch
  rw [filter_append, filter_cons_of_neg (by simp [h]), filter_nil, append_nil]

theorem filter_concat (h : a.extent ≠ 1) : ((axes ++ [a]).filter fun a => a.extent ≠ 1) =
    (axes.filter fun a => a.extent ≠ 1) ++ [a] := by
  rw [filter_append, filter_cons_of_pos (by simp [h]), filter_nil]

theorem lastStretch_concat (h : a.extent ≠ 1) : lastStretch (axes ++ [a]) = some a.stretch := by
  unfold lastStretch
  rw [filter_concat h, getLast?_concat]
  rfl

/-- An axis starts a run where another array is stretched. -/
theorem runsOf_concat_new (h : a.extent ≠ 1) (hnew : lastStretch axes ≠ some a.stretch) :
    runsOf (axes ++ [a]) = runsOf axes ++ [[a]] := by
  unfold runsOf
  rw [filter_concat h]
  refine splitBy_append_cons [] fun x hx => decide_eq_false fun heq => hnew ?_
  unfold lastStretch
  rw [Option.mem_def.1 hx, ← heq]
  rfl

/-- Otherwise it belongs to the last run. -/
theorem runsOf_concat_same (h : a.extent ≠ 1) (hsame : lastStretch axes = some a.stretch) :
    ∃ runs run, runsOf axes = runs ++ [run] ∧ runsOf (axes ++ [a]) = runs ++ [run ++ [a]] := by
  have hne : runsOf axes ≠ [] := by
    unfold runsOf
    rw [Ne, splitBy_eq_nil]
    intro hnil
    unfold lastStretch at hsame
    rw [hnil] at hsame
    cases hsame
  refine ⟨(runsOf axes).dropLast, (runsOf axes).getLast hne, (dropLast_append_getLast hne).symm, ?_⟩
  have hsplit := (dropLast_append_getLast hne).symm
  unfold runsOf at hsplit ⊢
  rw [filter_concat h]
  refine splitBy_concat hsplit fun x hx => decide_eq_true ?_
  have hlast : x ∈ (axes.filter fun a => a.extent ≠ 1).getLast? := by
    have hfilter : (axes.filter fun a => a.extent ≠ 1) ≠ [] := by
      rwa [Ne, runsOf, splitBy_eq_nil] at hne
    have hrun := getLast_getLast_splitBy (fun a b : Axis => decide (a.stretch = b.stretch)) hfilter
    rw [← getLast_of_mem_getLast? hx, hrun]
    exact getLast_mem_getLast? hfilter
  unfold lastStretch at hsame
  rw [Option.mem_def.1 hlast] at hsame
  exact Option.some.inj hsame

/-! ### What the runs are -/

theorem mem_of_mem_runsOf (hrun : run ∈ runsOf axes) (ha : a ∈ run) : a ∈ axes ∧ a.extent ≠ 1 := by
  have hmem : a ∈ (runsOf axes).flatten := mem_flatten_of_mem hrun ha
  rw [flatten_runsOf] at hmem
  obtain ⟨hmem, hextent⟩ := mem_filter.1 hmem
  exact ⟨hmem, of_decide_eq_true hextent⟩

theorem ne_nil_of_mem_runsOf (hrun : run ∈ runsOf axes) : run ≠ [] :=
  ne_nil_of_mem_splitBy hrun

theorem stretch_of_mem_runsOf (hrun : run ∈ runsOf axes) (ha : a ∈ run) {b : Axis} (hb : b ∈ run) :
    a.stretch = b.stretch := by
  have hchain : run.IsChain fun a b => a.stretch = b.stretch := by
    have h := isChain_of_mem_splitBy hrun
    exact h.imp fun _ _ => of_decide_eq_true
  have hpairwise : run.Pairwise fun a b => a.stretch = b.stretch := by
    have htrans : IsTrans Axis fun a b => a.stretch = b.stretch := ⟨fun _ _ _ => Eq.trans⟩
    exact isChain_iff_pairwise.1 hchain
  have hsymm : Std.Symm fun a b : Axis => a.stretch = b.stretch := ⟨fun _ _ => Eq.symm⟩
  exact hpairwise.forall_of_forall (R := fun a b => a.stretch = b.stretch) (fun _ _ => rfl) ha hb

theorem oneKind_runsOf (hcompatible : ∀ a ∈ axes, a.Compatible) (hrun : run ∈ runsOf axes) :
    OneKind run := by
  obtain ⟨b, hb⟩ := exists_mem_of_ne_nil run (ne_nil_of_mem_runsOf hrun)
  have hstretch : ∀ a ∈ run, a.stretch = b.stretch := fun a ha =>
    stretch_of_mem_runsOf hrun ha hb
  cases hkind : b.stretch with
  | neither => exact .inl fun a ha => Axis.stretch_eq_neither.1 ((hstretch a ha).trans hkind)
  | first => exact .inr (.inl fun a ha => Axis.first_of_stretch ((hstretch a ha).trans hkind))
  | second =>
    exact .inr (.inr fun a ha => (hcompatible a (mem_of_mem_runsOf hrun ha).1).second_of_stretch
      ((hstretch a ha).trans hkind))

theorem OneKind.compatible (h : OneKind run) : (mergeAxes run).Compatible := by
  obtain h | h | h := h
  · exact .inl (inputSize_congr h)
  · exact .inr (.inl (inputSize_eq_one h))
  · exact .inr (.inr (inputSize_eq_one h))

theorem one_lt_outputSize (hne : run ≠ []) (h : ∀ a ∈ run, 1 < a.extent) : 1 < outputSize run := by
  cases run with
  | nil => exact absurd rfl hne
  | cons a run =>
    have hpos : 0 < outputSize run := by
      clear hne
      induction run with
      | nil => exact Nat.one_pos
      | cons b run ih =>
        rw [outputSize_cons]
        refine Nat.mul_pos (Nat.lt_trans Nat.one_pos (h b (mem_cons_of_mem _
          mem_cons_self))) (ih ?_)
        rw [forall_mem_cons] at h ⊢
        exact ⟨h.1, fun c hc => h.2 c (mem_cons_of_mem _ hc)⟩
    rw [outputSize_cons]
    exact Nat.lt_of_lt_of_le (h a mem_cons_self) (Nat.le_mul_of_pos_right _ hpos)

theorem outputSize_pos_iff : 0 < outputSize axes ↔ ∀ a ∈ axes, 0 < a.extent := by
  induction axes with
  | nil => simp
  | cons a axes ih =>
    rw [outputSize_cons, forall_mem_cons, ← ih]
    exact ⟨fun h => ⟨Nat.pos_of_mul_pos_right h, Nat.pos_of_mul_pos_left h⟩,
      fun h => Nat.mul_pos h.1 h.2⟩

theorem mergeAxes_runsOf (hcompatible : ∀ a ∈ axes, a.Compatible) (hpos : 0 < outputSize axes) :
    ∀ x ∈ (runsOf axes).map mergeAxes, x.Compatible ∧ 1 < x.extent := by
  intro x hx
  obtain ⟨run, hrun, rfl⟩ := mem_map.1 hx
  have hkind := oneKind_runsOf hcompatible hrun
  refine ⟨hkind.compatible, ?_⟩
  rw [outputSize_merge hkind]
  refine one_lt_outputSize (ne_nil_of_mem_runsOf hrun) fun a ha => ?_
  obtain ⟨hmem, hne⟩ := mem_of_mem_runsOf hrun ha
  have hextent := outputSize_pos_iff.1 hpos a hmem
  omega

/-! ### Visiting the runs -/

theorem visits_filter (axes : List Axis) (start : Visit) :
    visits (axes.filter fun a => a.extent ≠ 1) start = visits axes start := by
  have hsize : outputSize (axes.filter fun a => a.extent ≠ 1) = outputSize axes := by
    induction axes with
    | nil => rfl
    | cons a axes ih =>
      by_cases ha : a.extent = 1
      · rw [filter_cons_of_neg (by simp [ha]), ih, outputSize_cons, ha, Nat.one_mul]
      · rw [filter_cons_of_pos (by simp [ha]), outputSize_cons, ih, outputSize_cons]
  have hindex : ∀ side : Axis → Nat, (∀ a : Axis, a.extent = 1 → side a = 1) →
      ∀ o, broadcastIndex side (axes.filter fun a => a.extent ≠ 1) o =
        broadcastIndex side axes o := by
    intro side hside
    clear hsize
    induction axes with
    | nil => exact fun _ => rfl
    | cons a axes ih =>
      intro o
      by_cases ha : a.extent = 1
      · rw [filter_cons_of_neg (by simp [ha]), ih, broadcastIndex_unit (hside a ha) ha]
      · rw [filter_cons_of_pos (by simp [ha])]
        exact broadcastIndex_congr_right [a] ih o
  exact visits_congr hsize (hindex _ fun a ha => (Axis.extent_eq_one.1 ha).1)
    (hindex _ fun a ha => (Axis.extent_eq_one.1 ha).2)

theorem visits_runsOf (hcompatible : ∀ a ∈ axes, a.Compatible) (start : Visit) :
    visits ((runsOf axes).map mergeAxes) start = visits axes start := by
  rw [visits_merge fun run hrun => oneKind_runsOf hcompatible hrun, flatten_runsOf, visits_filter]

end

end LiteRt.Lib
