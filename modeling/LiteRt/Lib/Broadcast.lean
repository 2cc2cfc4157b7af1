import Mathlib.Algebra.BigOperators.Group.List.Basic
import Mathlib.Algebra.Group.Nat.Even
import Mathlib.Data.List.Basic
import Mathlib.Tactic.Ring

/-!
# Broadcasting of two arrays

The axes of two arrays, innermost first, and the place of the element that broadcasting takes
from each of them for a place in the output. Axes of one kind can be merged.
-/

namespace LiteRt.Lib

open List

/-- The extents of two arrays along an axis. -/
structure Axis where
  first : Nat
  second : Nat
  deriving DecidableEq, Repr

namespace Axis

variable {a : Axis}

/-- Equal extents, or one of them is stretched. -/
def Compatible (a : Axis) : Prop := a.first = a.second ∨ a.first = 1 ∨ a.second = 1

instance (a : Axis) : Decidable a.Compatible := inferInstanceAs (Decidable (_ ∨ _ ∨ _))

def extent (a : Axis) : Nat := if a.first = 1 then a.second else a.first

def swap (a : Axis) : Axis := ⟨a.second, a.first⟩

/-- Two axes as one. -/
def times (a b : Axis) : Axis := ⟨a.first * b.first, a.second * b.second⟩

/-- Neither array is stretched along two axes, or the same one is. -/
def SameKind (a b : Axis) : Prop :=
  a.first = a.second ∧ b.first = b.second ∨ a.first = 1 ∧ b.first = 1 ∨ a.second = 1 ∧ b.second = 1

theorem extent_of_eq (h : a.first = a.second) : a.extent = a.first := by
  unfold extent
  rw [h, ite_self]

theorem extent_of_first (h : a.first = 1) : a.extent = a.second :=
  if_pos h

theorem extent_of_second (h : a.second = 1) : a.extent = a.first := by
  unfold extent
  split
  · rename_i hfirst
    rw [h, hfirst]
  · rfl

theorem extent_swap (h : a.Compatible) : a.swap.extent = a.extent := by
  obtain heq | hfirst | hsecond := h
  · rw [extent_of_eq heq, extent_of_eq (a := a.swap) heq.symm]
    exact heq.symm
  · rw [extent_of_first hfirst, extent_of_second (a := a.swap) hfirst]
    rfl
  · rw [extent_of_second hsecond, extent_of_first (a := a.swap) hsecond]
    rfl

theorem extent_times {a b : Axis} (h : a.SameKind b) :
    (a.times b).extent = a.extent * b.extent := by
  obtain ⟨ha, hb⟩ | ⟨ha, hb⟩ | ⟨ha, hb⟩ := h
  · rw [extent_of_eq ha, extent_of_eq hb, extent_of_eq]
    · rfl
    · unfold times
      rw [ha, hb]
  · rw [extent_of_first ha, extent_of_first hb, extent_of_first]
    · rfl
    · unfold times
      rw [ha, hb]
  · rw [extent_of_second ha, extent_of_second hb, extent_of_second]
    · rfl
    · unfold times
      rw [ha, hb]

end Axis

def outputSize (axes : List Axis) : Nat := (axes.map Axis.extent).prod

/-- The number of elements of one array. -/
def inputSize (side : Axis → Nat) (axes : List Axis) : Nat := (axes.map side).prod

/-- The place in one array for a place in the output. -/
def broadcastIndex (side : Axis → Nat) : List Axis → Nat → Nat
  | [], _ => 0
  | a :: axes, o =>
    (if side a = 1 then 0 else o % a.extent) + side a * broadcastIndex side axes (o / a.extent)

section
variable {side : Axis → Nat} {axes xs ys : List Axis} {a b x : Axis}

@[simp] theorem outputSize_nil : outputSize [] = 1 := rfl

@[simp] theorem outputSize_cons (a : Axis) (axes : List Axis) :
    outputSize (a :: axes) = a.extent * outputSize axes := by
  unfold outputSize
  rw [map_cons, prod_cons]

theorem outputSize_append (xs ys : List Axis) :
    outputSize (xs ++ ys) = outputSize xs * outputSize ys := by
  unfold outputSize
  rw [map_append, prod_append]

@[simp] theorem inputSize_nil : inputSize side [] = 1 := rfl

@[simp] theorem inputSize_cons (a : Axis) (axes : List Axis) :
    inputSize side (a :: axes) = side a * inputSize side axes := by
  unfold inputSize
  rw [map_cons, prod_cons]

theorem inputSize_append (xs ys : List Axis) :
    inputSize side (xs ++ ys) = inputSize side xs * inputSize side ys := by
  unfold inputSize
  rw [map_append, prod_append]

/-! ## Places -/

theorem broadcastIndex_append (xs ys : List Axis) (o : Nat) :
    broadcastIndex side (xs ++ ys) o = broadcastIndex side xs o +
        inputSize side xs * broadcastIndex side ys (o / outputSize xs) := by
  induction xs generalizing o with
  | nil =>
    rw [nil_append, outputSize_nil, inputSize_nil, Nat.div_one, Nat.one_mul]
    exact (Nat.zero_add _).symm
  | cons a xs ih =>
    have hcons : broadcastIndex side (a :: xs ++ ys) o = (if side a = 1 then 0 else o % a.extent) +
          side a * broadcastIndex side (xs ++ ys) (o / a.extent) := rfl
    have hxs : broadcastIndex side (a :: xs) o = (if side a = 1 then 0 else o % a.extent) +
          side a * broadcastIndex side xs (o / a.extent) := rfl
    rw [hcons, ih, hxs, outputSize_cons, inputSize_cons, Nat.div_div_eq_div_mul]
    ring

/-- Whole turns of the output do not matter. -/
theorem broadcastIndex_add_mul (axes : List Axis) (n t : Nat) :
    broadcastIndex side axes (n * outputSize axes + t) = broadcastIndex side axes t := by
  induction axes generalizing t with
  | nil => rfl
  | cons a axes ih =>
    have hsplit : n * outputSize (a :: axes) + t = t + a.extent * (n * outputSize axes) := by
      rw [outputSize_cons]
      ring
    unfold broadcastIndex
    rw [hsplit, Nat.add_mul_mod_self_left]
    obtain hzero | hpos := Nat.eq_zero_or_pos a.extent
    · rw [hzero, Nat.zero_mul, Nat.add_zero]
    · rw [Nat.add_mul_div_left _ _ hpos, Nat.add_comm, Nat.add_comm (t / a.extent), ih,
        Nat.add_comm]

/-- What is inside is not seen from outside. -/
theorem broadcastIndex_congr_right (xs : List Axis)
    (h : ∀ o, broadcastIndex side ys o = broadcastIndex side axes o) (o : Nat) :
    broadcastIndex side (xs ++ ys) o = broadcastIndex side (xs ++ axes) o := by
  rw [broadcastIndex_append, broadcastIndex_append, h]

/-- An axis along which nothing moves. -/
theorem broadcastIndex_unit (h : side a = 1) (hextent : a.extent = 1) (o : Nat) :
    broadcastIndex side (a :: axes) o = broadcastIndex side axes o := by
  have hcons : broadcastIndex side (a :: axes) o = (if side a = 1 then 0 else o % a.extent) +
      side a * broadcastIndex side axes (o / a.extent) := rfl
  rw [hcons, if_pos h, h, hextent, Nat.div_one, Nat.one_mul, Nat.zero_add]

/-- One array is stretched along two axes or along none. -/
theorem broadcastIndex_merge (hside : side x = side a * side b)
    (hextent : x.extent = a.extent * b.extent)
    (h : side a = 1 ∧ side b = 1 ∨ side a = a.extent ∧ side b = b.extent) (o : Nat) :
    broadcastIndex side (a :: b :: axes) o = broadcastIndex side (x :: axes) o := by
  have hcons : broadcastIndex side (a :: b :: axes) o =
      (if side a = 1 then 0 else o % a.extent) + side a *
        ((if side b = 1 then 0 else o / a.extent % b.extent) +
          side b * broadcastIndex side axes (o / a.extent / b.extent)) := rfl
  have hx : broadcastIndex side (x :: axes) o = (if side x = 1 then 0 else o % x.extent) +
      side x * broadcastIndex side axes (o / x.extent) := rfl
  rw [hcons, hx, Nat.div_div_eq_div_mul, hextent]
  obtain ⟨ha, hb⟩ | ⟨ha, hb⟩ := h
  · rw [hside, ha, hb]
    simp
  · -- Without the case distinctions: a remainder modulo one is zero.
    have hmod : ∀ {n m : Nat}, (if n = 1 then 0 else m % n) = m % n := by
      intro n m
      split
      · rename_i hone
        rw [hone, Nat.mod_one]
      · rfl
    rw [ha, hb, hside, ha, hb, hmod, hmod, hmod, Nat.mod_mul]
    ring

theorem broadcastIndex_times_first (h : a.SameKind b) (o : Nat) :
    broadcastIndex Axis.first (a :: b :: axes) o =
      broadcastIndex Axis.first (a.times b :: axes) o := by
  refine broadcastIndex_merge rfl (Axis.extent_times h) ?_ o
  obtain ⟨ha, hb⟩ | ⟨ha, hb⟩ | ⟨ha, hb⟩ := h
  · exact .inr ⟨(Axis.extent_of_eq ha).symm, (Axis.extent_of_eq hb).symm⟩
  · exact .inl ⟨ha, hb⟩
  · exact .inr ⟨(Axis.extent_of_second ha).symm, (Axis.extent_of_second hb).symm⟩

theorem broadcastIndex_times_second (h : a.SameKind b) (o : Nat) :
    broadcastIndex Axis.second (a :: b :: axes) o =
      broadcastIndex Axis.second (a.times b :: axes) o := by
  refine broadcastIndex_merge rfl (Axis.extent_times h) ?_ o
  obtain ⟨ha, hb⟩ | ⟨ha, hb⟩ | ⟨ha, hb⟩ := h
  · exact .inr ⟨ha.symm.trans (Axis.extent_of_eq ha).symm,
      hb.symm.trans (Axis.extent_of_eq hb).symm⟩
  · exact .inr ⟨(Axis.extent_of_first ha).symm, (Axis.extent_of_first hb).symm⟩
  · exact .inl ⟨ha, hb⟩

end

/-! ## Places by indices -/

/-! ## Visiting the output in order -/

/-- An output place with the places in the two arrays. -/
structure Visit where
  output : Nat
  first : Nat
  second : Nat
  deriving DecidableEq, Repr

/-- All output places in order. -/
def visits (axes : List Axis) (start : Visit) : List Visit :=
  (List.range (outputSize axes)).map fun t =>
    ⟨start.output + t, start.first + broadcastIndex Axis.first axes t,
      start.second + broadcastIndex Axis.second axes t⟩

theorem range_mul (n m : Nat) : List.range (n * m) =
    (List.range n).flatMap fun c => (List.range m).map fun t => c * m + t := by
  induction n with
  | zero => simp
  | succ n ih =>
    rw [Nat.succ_mul, range_add, ih, range_succ, flatMap_append, flatMap_singleton]

section
variable {axes : List Axis} {x : Axis} {start : Visit}

theorem broadcastIndex_outer {side : Axis → Nat} {c t : Nat} (hc : c < x.extent)
    (ht : t < outputSize axes) :
    broadcastIndex side (axes ++ [x]) (c * outputSize axes + t) =
      broadcastIndex side axes t + (if side x = 1 then 0 else c) * inputSize side axes := by
  have hdiv : (c * outputSize axes + t) / outputSize axes = c := by
    rw [Nat.add_comm, Nat.mul_comm, Nat.add_mul_div_left _ _ (by omega), Nat.div_eq_of_lt ht,
      Nat.zero_add]
  have hone : broadcastIndex side [x] c = if side x = 1 then 0 else c := by
    have hcons : broadcastIndex side [x] c =
        (if side x = 1 then 0 else c % x.extent) + side x * 0 := rfl
    rw [hcons, Nat.mod_eq_of_lt hc, Nat.mul_zero, Nat.add_zero]
  rw [broadcastIndex_append, broadcastIndex_add_mul, hdiv, hone, Nat.mul_comm]

/-- An outer axis repeats what is inside, with the arrays moved on. -/
theorem visits_outer (axes : List Axis) (x : Axis) (start : Visit) :
    visits (axes ++ [x]) start = (List.range x.extent).flatMap fun c =>
      visits axes ⟨start.output + c * outputSize axes,
        start.first + (if x.first = 1 then 0 else c) * inputSize Axis.first axes,
        start.second + (if x.second = 1 then 0 else c) * inputSize Axis.second axes⟩ := by
  unfold visits
  have hsize : outputSize (axes ++ [x]) = x.extent * outputSize axes := by
    rw [outputSize_append, outputSize_cons, outputSize_nil, Nat.mul_one, Nat.mul_comm]
  rw [hsize, range_mul, map_flatMap]
  refine flatMap_congr fun c hc => ?_
  rw [map_map]
  refine map_congr_left fun t ht => ?_
  have hc := mem_range.1 hc
  have ht := mem_range.1 ht
  simp only [Function.comp_apply, broadcastIndex_outer hc ht, Visit.mk.injEq]
  refine ⟨?_, ?_, ?_⟩ <;> ring

/-- The same with the distances by which the arrays are moved on. -/
theorem visits_outer_steps {first second : Nat}
    (hfirst : x.first = 1 ∧ first = 0 ∨ x.first = x.extent ∧ first = inputSize Axis.first axes)
    (hsecond : x.second = 1 ∧ second = 0 ∨
      x.second = x.extent ∧ second = inputSize Axis.second axes) :
    visits (axes ++ [x]) start = (List.range x.extent).flatMap fun c =>
      visits axes ⟨start.output + c * outputSize axes, start.first + c * first,
        start.second + c * second⟩ := by
  have hstep : ∀ {side size step c : Nat}, side = 1 ∧ step = 0 ∨ side = x.extent ∧ step = size →
      c < x.extent → (if side = 1 then 0 else c) * size = c * step := by
    intro side size step c h hc
    obtain ⟨hone, hzero⟩ | ⟨hextent, rfl⟩ := h
    · rw [if_pos hone, hzero, Nat.zero_mul, Nat.mul_zero]
    · split
      · have hc0 : c = 0 := by omega
        rw [hc0]
      · rfl
  rw [visits_outer]
  refine flatMap_congr fun c hc => ?_
  have hc := mem_range.1 hc
  rw [hstep hfirst hc, hstep hsecond hc]

theorem visits_congr {axes axes' : List Axis} (hsize : outputSize axes = outputSize axes')
    (hfirst : ∀ o, broadcastIndex Axis.first axes o = broadcastIndex Axis.first axes' o)
    (hsecond : ∀ o, broadcastIndex Axis.second axes o = broadcastIndex Axis.second axes' o) :
    visits axes start = visits axes' start := by
  unfold visits
  rw [hsize]
  refine map_congr_left fun t _ => ?_
  rw [hfirst, hsecond]

end

/-! ## Merging runs of axes -/

def mergeAxes (axes : List Axis) : Axis := ⟨inputSize Axis.first axes, inputSize Axis.second axes⟩

/-- Neither array is stretched along any axis of a run, or the same one is. -/
def OneKind (axes : List Axis) : Prop :=
  (∀ a ∈ axes, a.first = a.second) ∨ (∀ a ∈ axes, a.first = 1) ∨ ∀ a ∈ axes, a.second = 1

section
variable {a : Axis} {axes rest : List Axis} {side side' : Axis → Nat}

theorem inputSize_eq_one {side : Axis → Nat} (h : ∀ a ∈ axes, side a = 1) :
    inputSize side axes = 1 := by
  induction axes with
  | nil => rfl
  | cons a axes ih =>
    rw [inputSize_cons, h a mem_cons_self, ih fun b hb => h b (mem_cons_of_mem _ hb)]

theorem inputSize_congr (h : ∀ a ∈ axes, side a = side' a) :
    inputSize side axes = inputSize side' axes := by
  unfold inputSize
  rw [map_congr_left h]

theorem OneKind.tail (h : OneKind (a :: axes)) : OneKind axes :=
  h.imp (fun h b hb => h b (mem_cons_of_mem _ hb)) fun h =>
    h.imp (fun h b hb => h b (mem_cons_of_mem _ hb)) fun h b hb =>
      h b (mem_cons_of_mem _ hb)

theorem OneKind.sameKind (h : OneKind (a :: axes)) : a.SameKind (mergeAxes axes) := by
  obtain h | h | h := h
  · exact .inl ⟨h a mem_cons_self, inputSize_congr fun b hb => h b (mem_cons_of_mem _ hb)⟩
  · exact .inr (.inl ⟨h a mem_cons_self, inputSize_eq_one fun b hb => h b (mem_cons_of_mem _ hb)⟩)
  · exact .inr (.inr ⟨h a mem_cons_self, inputSize_eq_one fun b hb => h b (mem_cons_of_mem _ hb)⟩)

theorem mergeAxes_cons (a : Axis) (axes : List Axis) :
    mergeAxes (a :: axes) = a.times (mergeAxes axes) := by
  unfold mergeAxes Axis.times
  rw [inputSize_cons, inputSize_cons]

theorem outputSize_merge (h : OneKind axes) : (mergeAxes axes).extent = outputSize axes := by
  induction axes with
  | nil => rfl
  | cons a axes ih =>
    rw [mergeAxes_cons, Axis.extent_times h.sameKind, ih h.tail, outputSize_cons]

theorem broadcastIndex_mergeAxes_first (h : OneKind axes) (o : Nat) :
    broadcastIndex Axis.first (axes ++ rest) o =
      broadcastIndex Axis.first (mergeAxes axes :: rest) o := by
  induction axes generalizing o with
  | nil => exact (broadcastIndex_unit rfl rfl o).symm
  | cons a axes ih =>
    rw [mergeAxes_cons, ← broadcastIndex_times_first h.sameKind]
    exact broadcastIndex_congr_right [a] (ih h.tail) o

theorem broadcastIndex_mergeAxes_second (h : OneKind axes) (o : Nat) :
    broadcastIndex Axis.second (axes ++ rest) o =
      broadcastIndex Axis.second (mergeAxes axes :: rest) o := by
  induction axes generalizing o with
  | nil => exact (broadcastIndex_unit rfl rfl o).symm
  | cons a axes ih =>
    rw [mergeAxes_cons, ← broadcastIndex_times_second h.sameKind]
    exact broadcastIndex_congr_right [a] (ih h.tail) o

theorem visits_merge {runs : List (List Axis)} (h : ∀ run ∈ runs, OneKind run) (start : Visit) :
    visits (runs.map mergeAxes) start = visits runs.flatten start := by
  have hsize : outputSize (runs.map mergeAxes) = outputSize runs.flatten := by
    induction runs with
    | nil => rfl
    | cons run runs ih =>
      rw [map_cons, outputSize_cons, flatten_cons, outputSize_append,
        outputSize_merge (h run mem_cons_self), ih fun r hr => h r (mem_cons_of_mem _ hr)]
  have hindex : (∀ o, broadcastIndex Axis.first (runs.map mergeAxes) o =
      broadcastIndex Axis.first runs.flatten o) ∧
      ∀ o, broadcastIndex Axis.second (runs.map mergeAxes) o =
        broadcastIndex Axis.second runs.flatten o := by
    clear hsize
    induction runs with
    | nil => exact ⟨fun _ => rfl, fun _ => rfl⟩
    | cons run runs ih =>
      obtain ⟨hfirst, hsecond⟩ := ih fun r hr => h r (mem_cons_of_mem _ hr)
      have hrun := h run mem_cons_self
      refine ⟨fun o => ?_, fun o => ?_⟩
      · rw [flatten_cons, broadcastIndex_mergeAxes_first hrun]
        exact broadcastIndex_congr_right [mergeAxes run] hfirst o
      · rw [flatten_cons, broadcastIndex_mergeAxes_second hrun]
        exact broadcastIndex_congr_right [mergeAxes run] hsecond o
  exact visits_congr hsize hindex.1 hindex.2

/-! ## Swapping the arrays -/

theorem outputSize_swap (h : ∀ a ∈ axes, a.Compatible) :
    outputSize (axes.map Axis.swap) = outputSize axes := by
  unfold outputSize
  rw [map_map]
  exact congrArg List.prod (map_congr_left fun a ha => Axis.extent_swap (h a ha))

theorem broadcastIndex_swap (hside : ∀ a, side a.swap = side' a) (h : ∀ a ∈ axes, a.Compatible)
    (o : Nat) :
    broadcastIndex side (axes.map Axis.swap) o = broadcastIndex side' axes o := by
  induction axes generalizing o with
  | nil => rfl
  | cons a axes ih =>
    rw [map_cons]
    unfold broadcastIndex
    rw [hside, Axis.extent_swap (h a mem_cons_self), ih fun b hb => h b (mem_cons_of_mem _ hb)]

theorem visits_swap (h : ∀ a ∈ axes, a.Compatible) :
    visits (axes.map Axis.swap) ⟨0, 0, 0⟩ =
      (visits axes ⟨0, 0, 0⟩).map fun v => ⟨v.output, v.second, v.first⟩ := by
  unfold visits
  rw [outputSize_swap h, map_map]
  refine map_congr_left fun t _ => ?_
  rw [@broadcastIndex_swap _ _ Axis.second (fun _ => rfl) h,
    @broadcastIndex_swap _ _ Axis.first (fun _ => rfl) h]
  rfl

end

end LiteRt.Lib
