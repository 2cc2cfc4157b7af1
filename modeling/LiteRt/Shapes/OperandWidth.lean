import LiteRt.Shapes.Inference

/-!
# Constant operands of 32 and of 64 bits

The size of a slice, the axes of a reduction and the paddings of a pad are read by the length of
the buffer, the shape of a broadcast by the declared type. A length alone does not tell numbers of
eight bytes from twice as many of four.
-/

namespace LiteRt.Shapes

open LiteRt.Lib

def inferSlice (op : Op) : List Dims → Infer Dims
  | inputShape :: _ :: _ :: _ => do
    let sizeTensor ← op.input 2
    if 4 ≤ sizeTensor.buffer.length then
      if sizeTensor.buffer.length % 4 = 0 then pure (numbers 4 sizeTensor.buffer)
      else .error .shapeInferenceFailed
    else pure (List.replicate inputShape.length (-1))
  | _ => .error .shapeInferenceFailed

/-- An axis that is counted from the end if it is negative. -/
def normalizedAxis (rank : Nat) (axis : Int) : Int :=
  if axis < 0 then int32 (axis + rank) else axis

def reductionAxes (rank : Nat) (buffer : List UInt8) : Infer (List Int) :=
  if buffer.length % 4 = 0 then pure ((numbers 4 buffer).map (normalizedAxis rank))
  else if buffer.length % 8 = 0 then
    pure ((numbers 8 buffer).map fun axis => normalizedAxis rank (int32 axis))
  else .error .invalidArgument

/-- The dimensions from the `i`-th axis on without those of the axes. -/
def reducedFrom (axes : List Int) (keepDims : Bool) : Nat → Dims → Dims
  | _, [] => []
  | i, d :: shape =>
    (if (i : Int) ∈ axes then if keepDims then [1] else [] else [d]) ++
      reducedFrom axes keepDims (i + 1) shape

def inferGenericReduction (op : Op) (keepDims : Bool) : List Dims → Infer Dims
  | inputShape :: _ :: _ => do
    let axisTensor ← op.input 1
    if axisTensor.buffer.length < 4 then .error .unsupported
    else do
      let axes ← reductionAxes inputShape.length axisTensor.buffer
      pure (reducedFrom axes keepDims 0 inputShape)
  | _ => .error .invalidArgument

def Options.keepDims : Options → Bool
  | .reducer keepDims => keepDims
  | _ => false

def inferReduce (op : Op) (inputShapes : List Dims) : Infer Dims :=
  inferGenericReduction op op.options.keepDims inputShapes

def inferArgMinMax (op : Op) (inputShapes : List Dims) : Infer Dims :=
  inferGenericReduction op false inputShapes

def padDims : Dims → List Int → Dims
  | d :: shape, before :: after :: paddings =>
    (if d = -1 then d else int32 (d + int64 (before + after))) :: padDims shape paddings
  | shape, _ => shape

def inferPad (op : Op) : List Dims → Infer Dims
  | inputShape :: _ :: _ => do
    let paddingsTensor ← op.input 1
    let buf := paddingsTensor.buffer
    let numElements := inputShape.length * 2
    if buf.length < 4 then .error .unsupported
    else if buf.length = numElements * 4 then
      pure (padDims inputShape (readNumbers 4 numElements buf))
    else if buf.length = numElements * 8 then
      pure (padDims inputShape (readNumbers 8 numElements buf))
    else .error .invalidArgument
  | _ => .error .invalidArgument

def broadcastTarget (shapeTensor : Operand) : Infer Dims :=
  let buf := shapeTensor.buffer
  if shapeTensor.elementType = .int64 ∧ buf.length % 8 = 0 then pure ((numbers 8 buf).map int32)
  else if shapeTensor.elementType = .int32 ∧ buf.length % 4 = 0 then pure (numbers 4 buf)
  else .error .shapeInferenceFailed

def inferBroadcastTo (op : Op) : List Dims → Infer Dims
  | inputShape :: _ :: _ =>
    if op.numOutputs ≠ 1 then .error .shapeInferenceFailed
    else do
      let shapeTensor ← op.input 1
      if 4 ≤ shapeTensor.buffer.length then
        if ¬ shapeTensor.ranked then .error .shapeInferenceFailed
        else do
          let outShape ← broadcastTarget shapeTensor
          if outShape.length < inputShape.length then .error .shapeInferenceFailed
          else if ∀ i < inputShape.length, dimFromRight inputShape i = 1 ∨
              dimFromRight inputShape i = dimFromRight outShape i then pure outShape
          else .error .shapeInferenceFailed
      else .error .shapeInferenceFailed
  | _ => .error .shapeInferenceFailed

def int32Tensor (ranked : Bool) (values : List Int) : Operand :=
  ⟨.int32, ranked, numberBytes 4 values⟩

def int64Tensor (ranked : Bool) (values : List Int) : Operand :=
  ⟨.int64, ranked, numberBytes 8 values⟩

def Op.withInput (op : Op) (i : Nat) (operand : Operand) : Op :=
  { op with inputs := op.inputs.set i operand }

/-- An inference takes an operand of either width. -/
def WidthFree (infer : Op → List Dims → Infer Dims) (i : Nat) (op : Op) (inputShapes : List Dims)
    (ranked : Bool) (values : List Int) : Prop :=
  infer (op.withInput i (int32Tensor ranked values)) inputShapes =
    infer (op.withInput i (int64Tensor ranked values)) inputShapes

/-- The axes that the upper halves of the values stand for change nothing: each is among the axes
already, or the dimensions are kept and this one is 1. -/
def UpperHarmless (keepDims : Bool) (inputShape : Dims) (values : List Int) : Prop :=
  ∀ (i : Nat) (d : Int), inputShape[i]? = some d →
    (i : Int) ∈ values.map (fun v => normalizedAxis inputShape.length (v / 4294967296)) →
    (i : Int) ∈ values.map (normalizedAxis inputShape.length) ∨ keepDims = true ∧ d = 1

section
variable {op : Op} {inputShapes : List Dims} {inputShape : Dims} {values axes axes' : List Int}
  {ranked keepDims : Bool} {i : Nat} {operand : Operand}

theorem input_withInput (h : i < op.inputs.length) :
    (op.withInput i operand).input i = .ok operand := by
  unfold Op.input Op.withInput
  rw [List.getElem?_set_self h]
  rfl

theorem map_narrow (h : ∀ v ∈ values, FitsBytes 4 v) : values.map int32 = values :=
  (List.map_congr_left h).trans (List.map_id _)

theorem map_narrow_eight (h : ∀ v ∈ values, FitsBytes 4 v) : values.map int64 = values := by
  refine (List.map_congr_left fun v hv => ?_).trans (List.map_id _)
  obtain ⟨hlow, hhigh⟩ := (fitsBytes_iff v).1 (h v hv)
  change -(4294967296 / 2 : Int) ≤ v at hlow
  change v < (4294967296 + 1) / 2 at hhigh
  apply (fitsBytes_iff v).2
  show -(18446744073709551616 / 2 : Int) ≤ v ∧ v < (18446744073709551616 + 1) / 2
  omega

theorem upper_half {v : Int} (h : FitsBytes 4 v) :
    int32 (v / 4294967296) = v / 4294967296 := by
  obtain ⟨hlow, hhigh⟩ := (fitsBytes_iff v).1 h
  change -(4294967296 / 2 : Int) ≤ v at hlow
  change v < (4294967296 + 1) / 2 at hhigh
  have hcases : v / 4294967296 = 0 ∨ v / 4294967296 = -1 := by omega
  obtain h0 | h1 := hcases
  · rw [h0]
    rfl
  · rw [h1]
    rfl

theorem numbers_int32Tensor (h : ∀ v ∈ values, FitsBytes 4 v) :
    numbers 4 (numberBytes 4 values) = values := by
  rw [numbers_numberBytes (by decide)]
  exact map_narrow h

theorem numbers_int64Tensor (h : ∀ v ∈ values, FitsBytes 4 v) :
    numbers 4 (numberBytes 8 values) = values.flatMap fun v => [v, v / 4294967296] := by
  rw [numberBytes_eight, numbers_numberBytes (by decide)]
  refine map_narrow fun u hu => ?_
  obtain ⟨v, hv, hmem⟩ := List.mem_flatMap.1 hu
  rcases List.mem_cons.1 hmem with rfl | hmem
  · exact h u hv
  · rw [List.mem_singleton.1 hmem]
    exact upper_half (h v hv)

theorem reducedFrom_cons (d : Int) (shape : Dims) : reducedFrom axes keepDims i (d :: shape) =
    (if (i : Int) ∈ axes then if keepDims then [1] else [] else [d]) ++
      reducedFrom axes keepDims (i + 1) shape := rfl

theorem widthFree_of_short {infer : Op → List Dims → Infer Dims} {e : Infer Dims}
    (h : ∀ op, infer op inputShapes = e) : WidthFree infer i op inputShapes ranked values :=
  (h _).trans (h _).symm

theorem inferSlice_widthFree (hinputs : inputShapes.length = op.inputs.length)
    (hvalues : ∀ v ∈ values, FitsBytes 4 v) :
    WidthFree inferSlice 2 op inputShapes ranked values ↔ inputShapes.length < 3 ∨ values = [] := by
  match inputShapes with
  | [] | [_] | [_, _] =>
    refine iff_of_true (widthFree_of_short fun _ => rfl) (.inl ?_)
    simp only [List.length_cons, List.length_nil]
    omega
  | inputShape :: _ :: _ :: rest =>
    simp only [List.length_cons] at hinputs
    unfold WidthFree inferSlice
    rw [input_withInput (by omega), input_withInput (by omega)]
    simp only [ok_bind, int32Tensor, int64Tensor, length_numberBytes]
    cases values with
    | nil => exact iff_of_true rfl (.inr rfl)
    | cons v values =>
      have hpos : 0 < (v :: values).length := Nat.succ_pos _
      have h4 : 4 ≤ (v :: values).length * 4 := by omega
      have h8 : 4 ≤ (v :: values).length * 8 := by omega
      have hmod : (v :: values).length * 8 % 4 = 0 := by omega
      rw [if_pos h4, if_pos h8, if_pos (Nat.mul_mod_left _ 4), if_pos hmod,
        numbers_int32Tensor hvalues]
      refine iff_of_false (fun h => ?_) (by simp)
      have hlen := congrArg List.length (Except.ok.inj h)
      unfold numbers at hlen
      rw [length_readNumbers, length_numberBytes, List.length_cons] at hlen
      omega

/-- More axes leave at most as many dimensions. -/
theorem length_reducedFrom_le (hsub : ∀ a ∈ axes, a ∈ axes') (shape : Dims) :
    (reducedFrom axes' keepDims i shape).length ≤ (reducedFrom axes keepDims i shape).length := by
  induction shape generalizing i with
  | nil => exact Nat.le_refl _
  | cons d shape ih =>
    have ih' := @ih (i + 1)
    rw [reducedFrom_cons, reducedFrom_cons, List.length_append, List.length_append]
    by_cases hmem : (i : Int) ∈ axes
    · rw [if_pos hmem, if_pos (hsub _ hmem)]
      omega
    · rw [if_neg hmem]
      split
      · cases keepDims
        · show 0 + _ ≤ 1 + _
          omega
        · show 1 + _ ≤ 1 + _
          omega
      · show 1 + _ ≤ 1 + _
        omega

/-- More axes leave the same dimensions if those they reduce are kept as 1. -/
theorem reducedFrom_eq_iff (hsub : ∀ a ∈ axes, a ∈ axes') (shape : Dims) :
    reducedFrom axes keepDims i shape = reducedFrom axes' keepDims i shape ↔
      ∀ (j : Nat) (d : Int), shape[j]? = some d → ((i + j : Nat) : Int) ∈ axes' →
        ((i + j : Nat) : Int) ∈ axes ∨ keepDims = true ∧ d = 1 := by
  induction shape generalizing i with
  | nil => exact iff_of_true rfl fun j d hd => by cases hd
  | cons d shape ih =>
    have hsplit : (∀ (j : Nat) (e : Int), (d :: shape)[j]? = some e → ((i + j : Nat) : Int) ∈ axes' →
        ((i + j : Nat) : Int) ∈ axes ∨ keepDims = true ∧ e = 1) ↔
        ((i : Int) ∈ axes' → (i : Int) ∈ axes ∨ keepDims = true ∧ d = 1) ∧
          reducedFrom axes keepDims (i + 1) shape = reducedFrom axes' keepDims (i + 1) shape := by
      rw [ih]
      constructor
      · intro h
        refine ⟨h 0 d rfl, fun j e he => ?_⟩
        have hj := h (j + 1) e he
        rwa [show i + (j + 1) = i + 1 + j by omega] at hj
      · rintro ⟨hhead, htail⟩ j e he
        cases j with
        | zero =>
          cases he
          exact hhead
        | succ j =>
          have hj := htail j e he
          rwa [show i + 1 + j = i + (j + 1) by omega] at hj
    rw [hsplit, reducedFrom_cons, reducedFrom_cons]
    by_cases hmem : (i : Int) ∈ axes
    · rw [if_pos hmem, if_pos (hsub _ hmem), List.append_cancel_left_eq]
      exact ⟨fun h => ⟨fun _ => .inl hmem, h⟩, fun h => h.2⟩
    · rw [if_neg hmem]
      by_cases hmem' : (i : Int) ∈ axes'
      · rw [if_pos hmem']
        cases keepDims with
        | false =>
          refine iff_of_false (fun h => ?_) fun h => ?_
          · have hle := @length_reducedFrom_le axes axes' false (i + 1) hsub shape
            have hlen := congrArg List.length h
            change (reducedFrom axes false (i + 1) shape).length + 1 =
              (reducedFrom axes' false (i + 1) shape).length at hlen
            omega
          · obtain h' | ⟨h', -⟩ := h.1 hmem'
            · exact hmem h'
            · cases h'
        | true =>
          show d :: _ = 1 :: _ ↔ _
          rw [List.cons.injEq]
          refine and_congr_left fun _ => ?_
          constructor
          · intro hd _
            exact .inr ⟨rfl, hd⟩
          · intro h
            obtain h' | ⟨-, hd⟩ := h hmem'
            · exact absurd h' hmem
            · exact hd
      · rw [if_neg hmem', List.append_cancel_left_eq]
        exact ⟨fun h => ⟨fun h' => absurd h' hmem', h⟩, fun h => h.2⟩

theorem mem_map_halves {f : Int → Int} {a : Int} :
    a ∈ (values.flatMap fun v => [v, v / 4294967296]).map f ↔
      a ∈ values.map f ∨ a ∈ values.map fun v => f (v / 4294967296) := by
  simp only [List.mem_map, List.mem_flatMap, List.mem_cons, List.not_mem_nil, or_false]
  constructor
  · rintro ⟨u, ⟨v, hv, rfl | rfl⟩, rfl⟩
    · exact .inl ⟨u, hv, rfl⟩
    · exact .inr ⟨v, hv, rfl⟩
  · rintro (⟨v, hv, rfl⟩ | ⟨v, hv, rfl⟩)
    · exact ⟨v, ⟨v, hv, .inl rfl⟩, rfl⟩
    · exact ⟨_, ⟨v, hv, .inr rfl⟩, rfl⟩

theorem inferGenericReduction_widthFree (hinputs : inputShapes.length = op.inputs.length)
    (hvalues : ∀ v ∈ values, FitsBytes 4 v) :
    WidthFree (fun op => inferGenericReduction op keepDims) 1 op inputShapes ranked values ↔
      inputShapes.length < 2 ∨ UpperHarmless keepDims (inputShapes.headD []) values := by
  match inputShapes with
  | [] | [_] =>
    refine iff_of_true (widthFree_of_short fun _ => rfl) (.inl ?_)
    simp only [List.length_cons, List.length_nil]
    omega
  | inputShape :: axisShape :: rest =>
    simp only [List.length_cons] at hinputs
    have hshort : ¬ (inputShape :: axisShape :: rest).length < 2 := by
      simp only [List.length_cons]
      omega
    unfold WidthFree
    rw [or_iff_right hshort]
    simp only [inferGenericReduction]
    rw [input_withInput (by omega), input_withInput (by omega)]
    simp only [ok_bind, int32Tensor, int64Tensor, length_numberBytes, List.headD_cons]
    cases values with
    | nil =>
      refine iff_of_true rfl ?_
      rintro i d - hmem
      cases hmem
    | cons v values =>
      have hpos : 0 < (v :: values).length := Nat.succ_pos _
      have h4 : ¬ (v :: values).length * 4 < 4 := by omega
      have h8 : ¬ (v :: values).length * 8 < 4 := by omega
      have hmod : (v :: values).length * 8 % 4 = 0 := by omega
      rw [if_neg h4, if_neg h8]
      unfold reductionAxes
      rw [length_numberBytes, length_numberBytes, if_pos (Nat.mul_mod_left _ 4), if_pos hmod,
        numbers_int32Tensor hvalues, numbers_int64Tensor hvalues]
      show Except.ok (reducedFrom _ keepDims 0 inputShape) =
        Except.ok (reducedFrom _ keepDims 0 inputShape) ↔ _
      rw [Except.ok.injEq, reducedFrom_eq_iff]
      · refine forall₃_congr fun j d _ => ?_
        rw [Nat.zero_add, mem_map_halves]
        exact ⟨fun h hmem => h (.inr hmem), fun h hmem => hmem.elim .inl h⟩
      · exact fun a ha => mem_map_halves.2 (.inl ha)

theorem inferPad_widthFree (hinputs : inputShapes.length = op.inputs.length)
    (hvalues : ∀ v ∈ values, FitsBytes 4 v) :
    WidthFree inferPad 1 op inputShapes ranked values ↔
      inputShapes.length < 2 ∨ inputShapes.headD [] = [] ∨
        values.length ≠ (inputShapes.headD []).length ∧
          values.length ≠ 4 * (inputShapes.headD []).length := by
  match inputShapes with
  | [] | [_] =>
    refine iff_of_true (widthFree_of_short fun _ => rfl) (.inl ?_)
    simp only [List.length_cons, List.length_nil]
    omega
  | inputShape :: paddingsShape :: rest =>
    simp only [List.length_cons] at hinputs
    have hshort : ¬ (inputShape :: paddingsShape :: rest).length < 2 := by
      simp only [List.length_cons]
      omega
    unfold WidthFree
    rw [or_iff_right hshort]
    simp only [inferPad]
    rw [input_withInput (by omega), input_withInput (by omega)]
    simp only [ok_bind, int32Tensor, int64Tensor, length_numberBytes, List.headD_cons,
      ← List.length_eq_zero_iff]
    by_cases hempty : values.length = 0
    · have h4 : values.length * 4 < 4 := by omega
      have h8 : values.length * 8 < 4 := by omega
      rw [if_pos h4, if_pos h8]
      exact iff_of_true rfl (by omega)
    have h4 : ¬ values.length * 4 < 4 := by omega
    have h8 : ¬ values.length * 8 < 4 := by omega
    rw [if_neg h4, if_neg h8]
    by_cases hpairs : values.length = inputShape.length * 2
    · have hread4 := readNumbers_numberBytes 4 values
      have hread8 := readNumbers_numberBytes 8 values
      rw [hpairs] at hread4 hread8
      have hlen : ¬ values.length * 8 = inputShape.length * 2 * 4 := by omega
      rw [if_neg hlen, if_pos (congrArg (· * 4) hpairs), if_pos (congrArg (· * 8) hpairs), hread4,
        hread8, map_narrow hvalues, map_narrow_eight hvalues]
      exact iff_of_true rfl (by omega)
    -- the eight bytes of a number are two numbers of four, or the other way round
    have hlen4 : ¬ values.length * 4 = inputShape.length * 2 * 4 := by omega
    have hlen8 : ¬ values.length * 8 = inputShape.length * 2 * 8 := by omega
    rw [if_neg hlen4, if_neg hlen8]
    by_cases hone : values.length = inputShape.length
    · have hsame : ¬ values.length * 4 = inputShape.length * 2 * 8 := by omega
      have hhalf : values.length * 8 = inputShape.length * 2 * 4 := by omega
      rw [if_neg hsame, if_pos hhalf]
      exact iff_of_false (fun h => by cases h) (by omega)
    have hhalf : ¬ values.length * 8 = inputShape.length * 2 * 4 := by omega
    rw [if_neg hhalf]
    by_cases hfour : values.length * 4 = inputShape.length * 2 * 8
    · rw [if_pos hfour]
      exact iff_of_false (fun h => by cases h) (by omega)
    · rw [if_neg hfour]
      exact iff_of_true rfl (by omega)

theorem inferBroadcastTo_widthFree (hinputs : inputShapes.length = op.inputs.length)
    (hvalues : ∀ v ∈ values, FitsBytes 4 v) :
    WidthFree inferBroadcastTo 1 op inputShapes ranked values := by
  match inputShapes with
  | [] | [_] => exact widthFree_of_short fun _ => rfl
  | inputShape :: shapeShape :: rest =>
    simp only [List.length_cons] at hinputs
    have htarget : broadcastTarget (int64Tensor ranked values) =
        broadcastTarget (int32Tensor ranked values) := by
      unfold broadcastTarget int32Tensor int64Tensor
      simp only [length_numberBytes]
      have h4 : ¬ (ElementType.int32 = .int64 ∧ values.length * 4 % 8 = 0) :=
        fun h => by cases h.1
      rw [if_pos ⟨trivial, Nat.mul_mod_left _ 8⟩, if_neg h4,
        if_pos ⟨trivial, Nat.mul_mod_left _ 4⟩, numbers_int32Tensor hvalues,
        numbers_numberBytes (by decide), map_narrow_eight hvalues, map_narrow hvalues]
    have hempty : 4 ≤ (int64Tensor ranked values).buffer.length ↔
        4 ≤ (int32Tensor ranked values).buffer.length := by
      unfold int32Tensor int64Tensor
      simp only [length_numberBytes]
      omega
    unfold WidthFree inferBroadcastTo
    rw [input_withInput (by omega), input_withInput (by omega)]
    simp only [ok_bind, htarget, hempty]
    rfl

/-- A slice takes an operand of either width only if it is empty, a reduction if the upper halves
of its axes are harmless, and a pad if the number of paddings is not the half or the double of what
it expects. -/
theorem operand_width_iff (hinputs : inputShapes.length = op.inputs.length)
    (hvalues : ∀ v ∈ values, FitsBytes 4 v) :
    (WidthFree inferSlice 2 op inputShapes ranked values ↔
      inputShapes.length < 3 ∨ values = []) ∧
    (WidthFree inferReduce 1 op inputShapes ranked values ↔ inputShapes.length < 2 ∨
      UpperHarmless op.options.keepDims (inputShapes.headD []) values) ∧
    (WidthFree inferArgMinMax 1 op inputShapes ranked values ↔ inputShapes.length < 2 ∨
      UpperHarmless false (inputShapes.headD []) values) ∧
    (WidthFree inferPad 1 op inputShapes ranked values ↔
      inputShapes.length < 2 ∨ inputShapes.headD [] = [] ∨
        values.length ≠ (inputShapes.headD []).length ∧
          values.length ≠ 4 * (inputShapes.headD []).length) ∧
    WidthFree inferBroadcastTo 1 op inputShapes ranked values := by
  refine ⟨inferSlice_widthFree hinputs hvalues, ?_, ?_, inferPad_widthFree hinputs hvalues,
    inferBroadcastTo_widthFree hinputs hvalues⟩
  · exact inferGenericReduction_widthFree hinputs hvalues
  · exact inferGenericReduction_widthFree hinputs hvalues

end

def threeOperands : Op :=
  { inputs := [⟨.other, true, []⟩, ⟨.other, true, []⟩, ⟨.other, true, []⟩]
    numOutputs := 1
    options := .reducer true }

theorem operand_width_iff_ones :
    (WidthFree inferSlice 2 threeOperands [[2, 3], [1], [1]] true [1] ↔
      [[2, 3], [1], [1]].length < 3 ∨ [(1 : Int)] = []) ∧
    (WidthFree inferReduce 1 threeOperands [[2, 3], [1], [1]] true [1] ↔
      [[2, 3], [1], [1]].length < 2 ∨ UpperHarmless true [2, 3] [1]) ∧
    (WidthFree inferArgMinMax 1 threeOperands [[2, 3], [1], [1]] true [1] ↔
      [[2, 3], [1], [1]].length < 2 ∨ UpperHarmless false [2, 3] [1]) ∧
    (WidthFree inferPad 1 threeOperands [[2, 3], [1], [1]] true [1] ↔
      [[2, 3], [1], [1]].length < 2 ∨ ([2, 3] : Dims) = [] ∨ 1 ≠ 2 ∧ 1 ≠ 4 * 2) ∧
    WidthFree inferBroadcastTo 1 threeOperands [[2, 3], [1], [1]] true [1] :=
  operand_width_iff rfl (show ∀ v ∈ [(1 : Int)], FitsBytes 4 v by decide)

/-- The size of a slice of rank 1 is read as two sizes, and a reduction of the second axis reduces
the first axis as well. -/
theorem operand_width_matters :
    inferSlice (threeOperands.withInput 2 (int32Tensor true [1])) [[2], [1], [1]] = .ok [1] ∧
      inferSlice (threeOperands.withInput 2 (int64Tensor true [1])) [[2], [1], [1]] =
        .ok [1, 0] ∧
      inferReduce (threeOperands.withInput 1 (int32Tensor true [1])) [[2, 3], [1], [1]] =
        .ok [2, 1] ∧
      inferReduce (threeOperands.withInput 1 (int64Tensor true [1])) [[2, 3], [1], [1]] =
        .ok [1, 1] ∧
      ¬ ∀ (op : Op) (inputShapes : List Dims) (values : List Int),
        inputShapes.length = op.inputs.length → (∀ v ∈ values, FitsBytes 4 v) →
          WidthFree inferSlice 2 op inputShapes true values := by
  have h32 : inferSlice (threeOperands.withInput 2 (int32Tensor true [1])) [[2], [1], [1]] =
      .ok [1] := by decide
  have h64 : inferSlice (threeOperands.withInput 2 (int64Tensor true [1])) [[2], [1], [1]] =
      .ok [1, 0] := by decide
  refine ⟨h32, h64, by decide, by decide, fun h => ?_⟩
  have hsame : inferSlice _ _ = inferSlice _ _ :=
    h threeOperands [[2], [1], [1]] [1] rfl (by decide)
  rw [h32, h64] at hsame
  cases hsame

end LiteRt.Shapes
