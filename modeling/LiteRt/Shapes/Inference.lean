import LiteRt.Lib.ByteOrder
import LiteRt.Lib.Loops
import Mathlib.Data.List.GetD

/-!
# Shape inference

The shapes of an op's outputs are inferred from those of its inputs. A dimension that is not
known is -1.
-/

namespace LiteRt.Shapes

open LiteRt.Lib

abbrev Dims := List Int

/-- The errors of an inference, and the two ways in which it does not end with a status. -/
inductive Failure
  | invalidArgument
  | unsupported
  | shapeInferenceFailed
  | divisionByZero
  | outOfRange
  deriving DecidableEq, Repr

abbrev Infer := Except Failure

section
variable {ε α β : Type} {x : Except ε α} {f : α → Except ε β} {a : α} {b : β} {e : ε} {c : Prop}
  [Decidable c]

theorem pure_eq_ok {a' : α} : (pure a : Except ε α) = .ok a' ↔ a = a' :=
  ⟨Except.ok.inj, congrArg _⟩

theorem ite_error_eq_ok : (if c then .error e else x) = .ok a ↔ ¬c ∧ x = .ok a := by
  split
  next h => exact iff_of_false (fun h' => by cases h') fun h' => h'.1 h
  next h => exact (and_iff_right h).symm

end

def dimFromRight (shape : Dims) (i : Nat) : Int :=
  if i < shape.length then shape.getD (shape.length - 1 - i) 1 else 1

/-- The shape whose dimensions are computed from the right to the left. -/
def fromRight (dim : Nat → Infer Int) : Nat → Infer Dims
  | 0 => pure []
  | n + 1 => do
    let rest ← fromRight dim n
    let d ← dim n
    pure (d :: rest)

section
variable {dim : Nat → Infer Int} {shape : Dims} {d : Int} {i n : Nat}

@[simp] theorem dimFromRight_nil : dimFromRight [] i = 1 :=
  if_neg (Nat.not_lt_zero i)

theorem dimFromRight_of_le (h : shape.length ≤ i) : dimFromRight shape i = 1 := by
  unfold dimFromRight
  rw [if_neg (Nat.not_lt.2 h)]

theorem dimFromRight_cons_self : dimFromRight (d :: shape) shape.length = d := by
  unfold dimFromRight
  rw [if_pos (by rw [List.length_cons]; omega), List.length_cons, Nat.add_sub_cancel, Nat.sub_self]
  rfl

theorem dimFromRight_cons_of_lt (h : i < shape.length) :
    dimFromRight (d :: shape) i = dimFromRight shape i := by
  unfold dimFromRight
  have hsub : shape.length + 1 - 1 - i = shape.length - 1 - i + 1 := by omega
  rw [if_pos (by rw [List.length_cons]; omega), if_pos h, List.length_cons, hsub,
    List.getD_cons_succ]

/-- A dimension is one of the shape, or one. -/
theorem dimFromRight_mem (shape : Dims) (i : Nat) :
    dimFromRight shape i ∈ shape ∨ dimFromRight shape i = 1 := by
  unfold dimFromRight
  split
  · next h =>
    left
    rw [List.getD_eq_getElem _ _ (by omega : shape.length - 1 - i < shape.length)]
    exact List.getElem_mem _
  · exact .inr rfl

theorem exists_dimFromRight (h : d ∈ shape) : ∃ i < shape.length, dimFromRight shape i = d := by
  induction shape with
  | nil => cases h
  | cons x shape ih =>
    rcases List.mem_cons.1 h with rfl | h
    · exact ⟨shape.length, by rw [List.length_cons]; omega, dimFromRight_cons_self⟩
    · obtain ⟨i, hi, hd⟩ := ih h
      exact ⟨i, by rw [List.length_cons]; omega, by rw [dimFromRight_cons_of_lt hi, hd]⟩

theorem fromRight_eq_ok : fromRight dim n = .ok shape ↔
    shape.length = n ∧ ∀ i < n, dim i = .ok (dimFromRight shape i) := by
  induction n generalizing shape with
  | zero =>
    constructor
    · intro h
      cases h
      exact ⟨rfl, fun i hi => absurd hi (Nat.not_lt_zero i)⟩
    · rintro ⟨hlen, -⟩
      rw [List.length_eq_zero_iff.1 hlen]
      rfl
  | succ n ih =>
    constructor
    · intro h
      unfold fromRight at h
      cases hrest : fromRight dim n with
      | error e =>
        rw [hrest] at h
        cases h
      | ok rest =>
        obtain ⟨hlen, hdims⟩ := ih.1 hrest
        rw [hrest] at h
        cases hd : dim n with
        | error e =>
          change (dim n >>= fun d => pure (d :: rest)) = _ at h
          rw [hd] at h
          cases h
        | ok d =>
          change (dim n >>= fun d => pure (d :: rest)) = _ at h
          rw [hd] at h
          cases h
          refine ⟨congrArg (· + 1) hlen, fun i hi => ?_⟩
          by_cases he : i = n
          · rw [he, hd, ← hlen, dimFromRight_cons_self]
          · have hlt : i < rest.length := by omega
            rw [dimFromRight_cons_of_lt hlt]
            exact hdims i (by omega)
    · rintro ⟨hlen, hdims⟩
      cases shape with
      | nil => cases hlen
      | cons d rest =>
        have hlen' : rest.length = n := Nat.succ.inj hlen
        have hrest : fromRight dim n = .ok rest := ih.2 ⟨hlen', fun i hi => by
          rw [hdims i (by omega), dimFromRight_cons_of_lt (hlen' ▸ hi)]⟩
        have hd := hdims n (by omega)
        rw [← hlen', dimFromRight_cons_self, hlen'] at hd
        unfold fromRight
        rw [hrest]
        show (dim n >>= fun d => pure (d :: rest)) = _
        rw [hd]
        rfl

theorem fromRight_isOk : (∃ shape, fromRight dim n = .ok shape) ↔ ∀ i < n, ∃ d, dim i = .ok d := by
  constructor
  · rintro ⟨shape, h⟩ i hi
    exact ⟨_, (fromRight_eq_ok.1 h).2 i hi⟩
  · intro h
    induction n with
    | zero => exact ⟨[], rfl⟩
    | succ n ih =>
      obtain ⟨rest, hrest⟩ := ih fun i hi => h i (by omega)
      obtain ⟨d, hd⟩ := h n (by omega)
      refine ⟨d :: rest, ?_⟩
      unfold fromRight
      rw [hrest]
      show (dim n >>= fun d => pure (d :: rest)) = _
      rw [hd]
      rfl

theorem fromRight_eq_error {e : Failure} (h : fromRight dim n = .error e) :
    ∃ i < n, dim i = .error e := by
  induction n with
  | zero => cases h
  | succ n ih =>
    unfold fromRight at h
    cases hrest : fromRight dim n with
    | error e' =>
      rw [hrest] at h
      cases h
      obtain ⟨i, hi, he⟩ := ih hrest
      exact ⟨i, by omega, he⟩
    | ok rest =>
      rw [hrest] at h
      change (dim n >>= fun d => pure (d :: rest)) = _ at h
      cases hd : dim n with
      | error e' =>
        rw [hd] at h
        cases h
        exact ⟨n, by omega, hd⟩
      | ok d =>
        rw [hd] at h
        cases h

/-- The dimensions to the left of the shape need no bound when they are 1. -/
theorem fromRight_eq_ok_forall (hone : ∀ i, n ≤ i → dim i = .ok 1) :
    fromRight dim n = .ok shape ↔ shape.length = n ∧ ∀ i, dim i = .ok (dimFromRight shape i) := by
  rw [fromRight_eq_ok]
  refine and_congr_right fun hlen => ⟨fun h i => ?_, fun h i _ => h i⟩
  by_cases hi : i < n
  · exact h i hi
  · rw [hone i (Nat.not_lt.1 hi), dimFromRight_of_le (by omega)]

theorem exists_shape {f : Nat → Int} (hone : ∀ i, n ≤ i → f i = 1) :
    ∃ shape : Dims, shape.length = n ∧ ∀ i, dimFromRight shape i = f i := by
  obtain ⟨shape, h⟩ :=
    (@fromRight_isOk (fun i => .ok (f i)) n).2 fun i _ => ⟨_, rfl⟩
  obtain ⟨hlen, hdims⟩ := (fromRight_eq_ok_forall fun i hi => congrArg _ (hone i hi)).1 h
  exact ⟨shape, hlen, fun i => (Except.ok.inj (hdims i)).symm⟩

end

/-!
## Ops and their operands

What the inference of the output's shape reads of an op: its options and the types and contents of
its operands. An operand that is not constant has an empty buffer.
-/

inductive ElementType
  | int32
  | int64
  | other
  deriving DecidableEq, Repr

structure Operand where
  elementType : ElementType
  ranked : Bool
  buffer : List UInt8
  deriving DecidableEq, Repr

inductive Padding
  | same
  | valid
  | other
  deriving DecidableEq, Repr

structure Conv2DOptions where
  padding : Padding
  strideW : Int
  strideH : Int
  dilationWFactor : Int
  dilationHFactor : Int
  deriving DecidableEq, Repr

structure Pool2DOptions where
  padding : Padding
  strideW : Int
  strideH : Int
  filterWidth : Int
  filterHeight : Int
  deriving DecidableEq, Repr

inductive Options
  | reshape (newShape : List Int)
  | conv2D (options : Conv2DOptions)
  | pool2D (options : Pool2DOptions)
  | depthToSpace (blockSize : Int)
  | spaceToDepth (blockSize : Int)
  | reducer (keepDims : Bool)
  | other
  deriving DecidableEq, Repr

structure Op where
  inputs : List Operand
  numOutputs : Nat
  options : Options
  deriving DecidableEq, Repr

def Op.input (op : Op) (i : Nat) : Infer Operand :=
  (op.inputs[i]?).elim (.error .outOfRange) pure

/-- A number as `int32_t` and as `int64_t`. -/
abbrev int32 (n : Int) : Int := narrow 4 n

abbrev int64 (n : Int) : Int := narrow 8 n

/-- The quotient and the remainder of truncated division. -/
def quotient (n d : Int) : Infer Int :=
  if d = 0 then .error .divisionByZero else pure (n.tdiv d)

def remainder (n d : Int) : Infer Int :=
  if d = 0 then .error .divisionByZero else pure (n.tmod d)

end LiteRt.Shapes
