import LiteRt.Lib.Broadcast
import LiteRt.Lib.Words
import Mathlib.Data.Int.Cast.Lemmas
import Mathlib.Data.Option.Basic

/-!
# Arithmetic of type `int`

An operation whose exact result is no `int` has none.
-/

namespace LiteRt.Kernels

def checkedInt (n : Int) : Option Int :=
  if -2147483648 ≤ n ∧ n < 2147483648 then some n else none

def mul32 (a b : Int) : Option Int := checkedInt (a * b)

def add32 (a b : Int) : Option Int := checkedInt (a + b)

theorem checkedInt_eq_some {n m : Int} :
    checkedInt n = some m ↔ (-2147483648 ≤ n ∧ n < 2147483648) ∧ n = m := by
  unfold checkedInt
  split
  next h => rw [Option.some_inj, and_iff_right h]
  next h => exact iff_of_false (fun h' => by cases h') fun h' => h h'.1

theorem checkedInt_isSome {n : Int} :
    (checkedInt n).isSome ↔ -2147483648 ≤ n ∧ n < 2147483648 := by
  unfold checkedInt
  split
  next h => exact iff_of_true rfl h
  next h => exact iff_of_false Bool.false_ne_true h

/-- A product that is not negative. -/
theorem mul32_natCast {a b : Nat} :
    mul32 a b = if a * b < 2 ^ 31 then some ((a * b : Nat) : Int) else none := by
  have hcast : (a : Int) * b = ((a * b : Nat) : Int) := (Nat.cast_mul a b).symm
  unfold mul32 checkedInt
  rw [hcast]
  by_cases h : a * b < 2 ^ 31
  · rw [if_pos h, if_pos (by omega)]
  · rw [if_neg h, if_neg (by omega)]

/-!
## Classifying a broadcast

`ProcessBroadcastShapes` scans two shapes from the right in five phases, each of which becomes
one loop of the fast kernels.
-/

open LiteRt.Lib

/-- The extents of a tensor, outermost first. -/
abbrev RuntimeShape := List Nat

def extendedShape (newShapeSize : Nat) (shape : RuntimeShape) : RuntimeShape :=
  List.replicate (newShapeSize - shape.length) 1 ++ shape

/-- The axes of two shapes from the right. -/
def axesOf (shape0 shape1 : RuntimeShape) : List Axis :=
  let dimsCount := max shape0.length shape1.length
  (List.zipWith Axis.mk (extendedShape dimsCount shape0) (extendedShape dimsCount shape1)).reverse

/-- A product of type `int`; overflow, which C++ leaves undefined, wraps. -/
def int32 (n : Int) : Int := n.bmod (2 ^ 32)

inductive BroadcastableOpCategory where
  | kNone
  | kNonBroadcast
  | kFirstInputBroadcastsFast
  | kSecondInputBroadcastsFast
  | kGenericBroadcast
  deriving DecidableEq, Repr

structure BroadcastShape where
  y0 : Int
  y1 : Int
  y2 : Int
  y3 : Int
  y4 : Int
  deriving DecidableEq, Repr

/-- The fields that the broadcasting kernels for quantized tensors read. -/
structure ArithmeticParams where
  broadcastCategory : BroadcastableOpCategory
  input1Offset : Int
  input2Offset : Int
  outputOffset : Int
  outputMultiplier : Int
  outputShift : Int
  leftShift : Nat
  input1Multiplier : Int
  input1Shift : Int
  input2Multiplier : Int
  input2Shift : Int
  quantizedActivationMin : Int
  quantizedActivationMax : Int
  broadcastShape : BroadcastShape
  deriving DecidableEq, Repr

/-- The loop that decides which input is broadcast first; `none` if no axis does. -/
def broadcastCategory : List Axis → Option BroadcastableOpCategory
  | [] => none
  | a :: axes =>
    if a.first = a.second then broadcastCategory axes
    else if a.first = 1 then some .kFirstInputBroadcastsFast
    else if a.second = 1 then some .kSecondInputBroadcastsFast
    else some .kGenericBroadcast

/-- A `while` loop over the axes that multiplies extents up; with the axes that are left. -/
def phase (included : Axis → Bool) (dim : Axis → Nat) : List Axis → Int → Int × List Axis
  | [], product => (product, [])
  | a :: axes, product =>
    if included a then phase included dim axes (int32 (product * dim a)) else (product, a :: axes)

/-- The five phases on axes with the input that is broadcast first in front. -/
def fivePhases (axes : List Axis) : BroadcastShape × List Axis :=
  let (y4, axes) := phase (fun a => a.first = a.second) Axis.second axes 1
  let (y3, axes) := phase (fun a => a.first = 1) Axis.second axes 1
  let (y2, axes) := phase (fun a => a.first = a.second) Axis.first axes 1
  let (y1, axes) := phase (fun a => a.second = 1) Axis.first axes 1
  let (y0, axes) := phase (fun a => a.first = a.second) Axis.second axes 1
  (⟨y0, y1, y2, y3, y4⟩, axes)

def processBroadcastShapes (shape0 shape1 : RuntimeShape) (params : ArithmeticParams) :
    Bool × ArithmeticParams :=
  let dimsCount := max shape0.length shape1.length
  if extendedShape dimsCount shape0 = extendedShape dimsCount shape1 then
    (false, { params with broadcastCategory := .kNonBroadcast })
  else
    match broadcastCategory (axesOf shape0 shape1) with
    | some .kFirstInputBroadcastsFast =>
      let (broadcastShape, rest) := fivePhases (axesOf shape0 shape1)
      (true, { params with
        broadcastCategory := if rest = [] then .kFirstInputBroadcastsFast else .kGenericBroadcast
        broadcastShape := broadcastShape })
    | some .kSecondInputBroadcastsFast =>
      let (broadcastShape, rest) := fivePhases ((axesOf shape0 shape1).map Axis.swap)
      (true, { params with
        broadcastCategory := if rest = [] then .kSecondInputBroadcastsFast else .kGenericBroadcast
        broadcastShape := broadcastShape })
    | some _ => (true, { params with broadcastCategory := .kGenericBroadcast })
    -- Unreachable, as the shapes differ.
    | none => (false, { params with broadcastCategory := .kNonBroadcast })

/-! ### What the phases are -/

/-- The axes of the five phases, innermost first, and the ones that are left. -/
structure Phases where
  equal4 : List Axis
  first3 : List Axis
  equal2 : List Axis
  second1 : List Axis
  equal0 : List Axis
  rest : List Axis

def phasesOf (axes : List Axis) : Phases :=
  let after4 := axes.dropWhile fun a => a.first = a.second
  let after3 := after4.dropWhile fun a => a.first = 1
  let after2 := after3.dropWhile fun a => a.first = a.second
  let after1 := after2.dropWhile fun a => a.second = 1
  { equal4 := axes.takeWhile fun a => a.first = a.second
    first3 := after4.takeWhile fun a => a.first = 1
    equal2 := after3.takeWhile fun a => a.first = a.second
    second1 := after2.takeWhile fun a => a.second = 1
    equal0 := after1.takeWhile fun a => a.first = a.second
    rest := after1.dropWhile fun a => a.first = a.second }

namespace Phases

def runs (p : Phases) : List (List Axis) := [p.equal4, p.first3, p.equal2, p.second1, p.equal0]

end Phases

section
variable {axes : List Axis}

theorem flatten_phasesOf (axes : List Axis) :
    (phasesOf axes).runs.flatten ++ (phasesOf axes).rest = axes := by
  unfold phasesOf Phases.runs
  simp only [List.flatten_cons, List.flatten_nil, List.append_nil, List.append_assoc,
    List.takeWhile_append_dropWhile]

theorem forall_takeWhile (p : Axis → Prop) [DecidablePred p] (axes : List Axis) :
    ∀ a ∈ axes.takeWhile fun a => p a, p a := by
  intro a ha
  have hall := List.all_takeWhile (l := axes) (p := fun a => decide (p a))
  exact of_decide_eq_true (List.all_eq_true.1 hall a ha)

theorem equal4_phasesOf : ∀ a ∈ (phasesOf axes).equal4, a.first = a.second :=
  forall_takeWhile (fun a => a.first = a.second) _

theorem first3_phasesOf : ∀ a ∈ (phasesOf axes).first3, a.first = 1 :=
  forall_takeWhile (fun a => a.first = 1) _

theorem equal2_phasesOf : ∀ a ∈ (phasesOf axes).equal2, a.first = a.second :=
  forall_takeWhile (fun a => a.first = a.second) _

theorem second1_phasesOf : ∀ a ∈ (phasesOf axes).second1, a.second = 1 :=
  forall_takeWhile (fun a => a.second = 1) _

theorem equal0_phasesOf : ∀ a ∈ (phasesOf axes).equal0, a.first = a.second :=
  forall_takeWhile (fun a => a.first = a.second) _

/-- Along no phase both inputs are broadcast in turn. -/
theorem oneKind_phasesOf : ∀ run ∈ (phasesOf axes).runs, OneKind run := by
  intro run hrun
  unfold Phases.runs at hrun
  simp only [List.mem_cons, List.not_mem_nil, or_false] at hrun
  obtain rfl | rfl | rfl | rfl | rfl := hrun
  · exact .inl equal4_phasesOf
  · exact .inr (.inl first3_phasesOf)
  · exact .inl equal2_phasesOf
  · exact .inr (.inr second1_phasesOf)
  · exact .inl equal0_phasesOf

end

/-! ### Products -/

theorem int32_of_lt {n : Nat} (h : n < 2147483648) : int32 n = n := by
  unfold int32
  rw [Int.bmod_eq_of_le] <;> omega

theorem int32_int32_mul (a b : Int) : int32 (int32 a * b) = int32 (a * b) := by
  unfold int32
  exact Int.bmod_mul_bmod

theorem phase_eq (included : Axis → Bool) (dim : Axis → Nat) (axes : List Axis) (product : Int) :
    phase included dim axes (int32 product) =
      (int32 (product * inputSize dim (axes.takeWhile included)), axes.dropWhile included) := by
  induction axes generalizing product with
  | nil =>
    unfold phase
    simp
  | cons a axes ih =>
    unfold phase
    cases ha : included a with
    | true =>
      rw [if_pos rfl, int32_int32_mul, ih, List.takeWhile_cons_of_pos ha,
        List.dropWhile_cons_of_pos ha, inputSize_cons, Nat.cast_mul, mul_assoc]
    | false =>
      have hnot : ¬included a = true := by
        rw [ha]
        exact Bool.false_ne_true
      rw [if_neg Bool.false_ne_true, List.takeWhile_cons_of_neg hnot,
        List.dropWhile_cons_of_neg hnot, inputSize_nil, Nat.cast_one, mul_one]

/-- The products of the five phases as numbers of type `int`. -/
theorem fivePhases_eq (axes : List Axis) : fivePhases axes =
    (⟨int32 (inputSize Axis.second (phasesOf axes).equal0),
      int32 (inputSize Axis.first (phasesOf axes).second1),
      int32 (inputSize Axis.first (phasesOf axes).equal2),
      int32 (inputSize Axis.second (phasesOf axes).first3),
      int32 (inputSize Axis.second (phasesOf axes).equal4)⟩, (phasesOf axes).rest) := by
  have hone : ∀ (included : Axis → Bool) (dim : Axis → Nat) (axes : List Axis),
      phase included dim axes 1 =
        (int32 (inputSize dim (axes.takeWhile included)), axes.dropWhile included) := by
    intro included dim axes
    have hphase := phase_eq included dim axes 1
    rw [one_mul] at hphase
    exact hphase
  unfold fivePhases phasesOf
  simp only [hone]

/-- The shapes differ only if some axis does. -/
theorem broadcastCategory_eq_none {axes : List Axis} :
    broadcastCategory axes = none ↔ ∀ a ∈ axes, a.first = a.second := by
  induction axes with
  | nil => simp [broadcastCategory]
  | cons a axes ih =>
    unfold broadcastCategory
    split
    · rename_i heq
      rw [ih, List.forall_mem_cons]
      exact ⟨fun h => ⟨heq, h⟩, And.right⟩
    · rename_i hne
      rw [List.forall_mem_cons]
      refine ⟨fun h => ?_, fun h => absurd h.1 hne⟩
      split at h
      · cases h
      · split at h <;> cases h

end LiteRt.Kernels
