import Mathlib.Algebra.BigOperators.Group.List.Basic
import Mathlib.Algebra.Ring.Int.Parity
import LiteRt.Shapes.Inference

/-!
# Divisions in shape inference

The divisors are products of dimensions, channels of a filter, strides and squares of block sizes.
A division by zero is an outcome of its own, so that each function says what its guards leave.
-/

namespace LiteRt.Shapes

open LiteRt.Lib

def computeOutputSize (padding : Padding) (imageSize filterSize stride dilationRate : Int) :
    Infer Int :=
  if imageSize = -1 then pure (-1)
  else
    let effectiveFilterSize := int32 ((filterSize - 1) * dilationRate + 1)
    match padding with
    | .same => quotient (int32 (imageSize + stride - 1)) stride
    | .valid => quotient (int32 (imageSize - effectiveFilterSize + stride)) stride
    | .other => pure (-1)

/-- The shape in the second input, or in the options of an op with one input. -/
def reshapeTarget (op : Op) : Infer Dims :=
  match op.inputs[1]? with
  | some shapeTensor =>
    if 4 ≤ shapeTensor.buffer.length then
      if shapeTensor.buffer.length % 4 ≠ 0 then .error .invalidArgument
      else pure (numbers 4 shapeTensor.buffer)
    else .error .shapeInferenceFailed
  | none =>
    match op.options with
    | .reshape newShape => if newShape = [] then .error .shapeInferenceFailed else pure newShape
    | _ => .error .shapeInferenceFailed

/-- The index of the dimension -1 and the product of the others. -/
def minusOneAndProduct : Dims → Nat → Option Nat → Int → Infer (Option Nat × Int)
  | [], _, minusOneIdx, newProduct => pure (minusOneIdx, newProduct)
  | d :: newShape, i, minusOneIdx, newProduct =>
    if d = -1 then
      if minusOneIdx.isSome then .error .shapeInferenceFailed
      else minusOneAndProduct newShape (i + 1) (some i) newProduct
    else minusOneAndProduct newShape (i + 1) minusOneIdx (int64 (newProduct * d))

/-- The product of the dimensions, unless one is unknown. -/
def inputVolume : Dims → Int → Option Int
  | [], inputProduct => some inputProduct
  | d :: shape, inputProduct =>
    if d = -1 then none else inputVolume shape (int64 (inputProduct * d))

def inferReshape (op : Op) : List Dims → Infer Dims
  | [] => .error .invalidArgument
  | inputShape :: _ => do
    let newShape ← reshapeTarget op
    let (minusOneIdx, newProduct) ← minusOneAndProduct newShape 0 none 1
    match minusOneIdx with
    | none => pure newShape
    | some k =>
      match inputVolume inputShape 1 with
      | none => pure (newShape.set k (-1))
      | some inputProduct => do
        let rest ← remainder inputProduct newProduct
        if rest ≠ 0 then .error .shapeInferenceFailed
        else do
          let d ← quotient inputProduct newProduct
          pure (newShape.set k (int32 d))

def inferConv2D (op : Op) : List Dims → Infer Dims
  | [batch, inputH, inputW, inputC] :: [outChannels, filterH, filterW, filterC] :: rest =>
    match op.options with
    | .conv2D o => do
      let channels ← remainder inputC filterC
      if channels ≠ 0 then .error .shapeInferenceFailed
      else if o.strideH ≤ 0 ∨ o.strideW ≤ 0 then .error .shapeInferenceFailed
      else if o.strideH > inputH ∨ o.strideW > inputW then .error .shapeInferenceFailed
      else if o.dilationHFactor ≤ 0 ∨ o.dilationWFactor ≤ 0 then .error .shapeInferenceFailed
      else if rest ≠ [] ∧ rest.head? ≠ some [outChannels] then .error .shapeInferenceFailed
      else do
        let effectiveFilterH := int32 ((filterH - 1) * o.dilationHFactor + 1)
        let effectiveFilterW := int32 ((filterW - 1) * o.dilationWFactor + 1)
        let outH ← computeOutputSize o.padding inputH filterH o.strideH o.dilationHFactor
        let outW ← computeOutputSize o.padding inputW filterW o.strideW o.dilationWFactor
        if o.padding = .valid ∧ (inputH < effectiveFilterH ∨ inputW < effectiveFilterW) then
          .error .shapeInferenceFailed
        else if outH ≤ 0 ∨ outW ≤ 0 then .error .shapeInferenceFailed
        else pure [batch, outH, outW, outChannels]
    | _ => .error .invalidArgument
  | _ => .error .invalidArgument

def inferPool2D (op : Op) : List Dims → Infer Dims
  | [batch, inputH, inputW, inputC] :: _ =>
    match op.options with
    | .pool2D o => do
      let outH ← computeOutputSize o.padding inputH o.filterHeight o.strideH 1
      let outW ← computeOutputSize o.padding inputW o.filterWidth o.strideW 1
      pure [batch, outH, outW, inputC]
    | _ => .error .invalidArgument
  | _ => .error .invalidArgument

/-- A dimension times a block size, unless it is unknown. -/
def scaledDim (d blockSize : Int) : Int := if d = -1 then d else int32 (d * blockSize)

/-- A dimension divided by a block size, unless it is unknown. -/
def blockedDim (d blockSize : Int) : Infer Int :=
  if d = -1 then pure d
  else do
    let rest ← remainder d blockSize
    if rest ≠ 0 then .error .shapeInferenceFailed else quotient d blockSize

def Options.depthToSpaceBlock : Options → Int
  | .depthToSpace blockSize => blockSize
  | _ => 0

def Options.spaceToDepthBlock : Options → Int
  | .spaceToDepth blockSize => blockSize
  | _ => 0

def inferDepthToSpace (op : Op) : List Dims → Infer Dims
  | [batch, height, width, depth] :: _ =>
    let blockSize := op.options.depthToSpaceBlock
    if blockSize ≤ 0 then .error .shapeInferenceFailed
    else do
      let outDepth ← blockedDim depth (int32 (blockSize * blockSize))
      pure [batch, scaledDim height blockSize, scaledDim width blockSize, outDepth]
  | _ => .error .shapeInferenceFailed

def inferSpaceToDepth (op : Op) : List Dims → Infer Dims
  | [batch, height, width, depth] :: _ =>
    let blockSize := op.options.spaceToDepthBlock
    if blockSize ≤ 0 then .error .shapeInferenceFailed
    else do
      let outHeight ← blockedDim height blockSize
      let outWidth ← blockedDim width blockSize
      pure [batch, outHeight, outWidth, scaledDim depth (int32 (blockSize * blockSize))]
  | _ => .error .shapeInferenceFailed

/-- The new shape that the inputs or the options of a reshape ask for. -/
def Requests (op : Op) (newShape : Dims) : Prop :=
  (∃ shapeTensor, op.inputs[1]? = some shapeTensor ∧ 4 ≤ shapeTensor.buffer.length ∧
    4 ∣ shapeTensor.buffer.length ∧ newShape = numbers 4 shapeTensor.buffer) ∨
  (op.inputs.length < 2 ∧ op.options = .reshape newShape ∧ newShape ≠ [])

/-- One dimension of the new shape is to be found, those of the input are known, and the product of
the others is zero. -/
def ReshapeByZero (op : Op) (inputShapes : List Dims) : Prop :=
  ∃ inputShape rest newShape, inputShapes = inputShape :: rest ∧ Requests op newShape ∧
    newShape.count (-1) = 1 ∧ -1 ∉ inputShape ∧
    (18446744073709551616 : Int) ∣ (newShape.filter (· ≠ -1)).prod

/-- The filter has no input channels. -/
def Conv2DByZero (op : Op) (inputShapes : List Dims) : Prop :=
  ∃ inputShape filterShape rest o, inputShapes = inputShape :: filterShape :: rest ∧
    op.options = .conv2D o ∧ inputShape.length = 4 ∧ filterShape.length = 4 ∧
    filterShape[3]? = some 0

/-- A stride is zero along a known dimension. -/
def Pool2DByZero (op : Op) (inputShapes : List Dims) : Prop :=
  ∃ batch inputH inputW inputC rest o,
    inputShapes = [batch, inputH, inputW, inputC] :: rest ∧ op.options = .pool2D o ∧
    o.padding ≠ .other ∧ (inputH ≠ -1 ∧ o.strideH = 0 ∨ inputW ≠ -1 ∧ o.strideW = 0)

/-- The square of the block size is zero in 32 bits. -/
def DepthToSpaceByZero (op : Op) (inputShapes : List Dims) : Prop :=
  ∃ batch height width depth rest blockSize,
    inputShapes = [batch, height, width, depth] :: rest ∧ op.options = .depthToSpace blockSize ∧
    0 < blockSize ∧ 65536 ∣ blockSize ∧ depth ≠ -1

section
variable {α β : Type} {op : Op} {inputShapes : List Dims} {x : Infer α} {f : α → Infer β}
  {n d stride : Int} {e : Failure}

theorem bind_eq_error : (x >>= f) = .error e ↔ x = .error e ∨ ∃ a, x = .ok a ∧ f a = .error e := by
  cases x with
  | error e' =>
    constructor
    · intro h
      cases h
      exact .inl rfl
    · rintro (h | ⟨a, h, -⟩)
      · cases h
        rfl
      · cases h
  | ok a =>
    constructor
    · intro h
      exact .inr ⟨a, rfl, h⟩
    · rintro (h | ⟨b, h, hf⟩)
      · cases h
      · cases h
        exact hf

theorem remainder_error : remainder n d = .error .divisionByZero ↔ d = 0 := by
  unfold remainder
  split
  · next h => exact iff_of_true rfl h
  · next h => exact iff_of_false (fun h => by cases h) h

theorem quotient_error : quotient n d = .error .divisionByZero ↔ d = 0 := by
  unfold quotient
  split
  · next h => exact iff_of_true rfl h
  · next h => exact iff_of_false (fun h => by cases h) h

theorem computeOutputSize_error {padding : Padding} {imageSize filterSize dilationRate : Int} :
    computeOutputSize padding imageSize filterSize stride dilationRate = .error .divisionByZero ↔
      imageSize ≠ -1 ∧ padding ≠ .other ∧ stride = 0 := by
  unfold computeOutputSize
  split
  · next h => exact iff_of_false (fun h => by cases h) fun h' => h'.1 h
  · next h =>
    cases padding with
    | same =>
      exact quotient_error.trans ⟨fun h' => ⟨h, by decide, h'⟩, fun h' => h'.2.2⟩
    | valid =>
      exact quotient_error.trans ⟨fun h' => ⟨h, by decide, h'⟩, fun h' => h'.2.2⟩
    | other => exact iff_of_false (fun h => by cases h) fun h' => h'.2.1 rfl

theorem computeOutputSize_isOk {padding : Padding} {imageSize filterSize dilationRate : Int}
    (h : ¬ (imageSize ≠ -1 ∧ padding ≠ .other ∧ stride = 0)) :
    ∃ size, computeOutputSize padding imageSize filterSize stride dilationRate = .ok size := by
  unfold computeOutputSize
  split
  · exact ⟨_, rfl⟩
  · next himage =>
    cases padding with
    | other => exact ⟨_, rfl⟩
    | same =>
      have hstride : stride ≠ 0 := fun h0 => h ⟨himage, by decide, h0⟩
      exact ⟨_, if_neg hstride⟩
    | valid =>
      have hstride : stride ≠ 0 := fun h0 => h ⟨himage, by decide, h0⟩
      exact ⟨_, if_neg hstride⟩

theorem blockedDim_error : blockedDim n d = .error .divisionByZero ↔ n ≠ -1 ∧ d = 0 := by
  unfold blockedDim
  split
  · next h => exact iff_of_false (fun h => by cases h) fun h' => h'.1 h
  · next h =>
    rw [bind_eq_error, remainder_error]
    constructor
    · rintro (hd | ⟨r, hr, hq⟩)
      · exact ⟨h, hd⟩
      · split at hq
        · cases hq
        · exact ⟨h, quotient_error.1 hq⟩
    · exact fun h' => .inl h'.2

theorem inferPool2D_error :
    inferPool2D op inputShapes = .error .divisionByZero ↔ Pool2DByZero op inputShapes := by
  unfold inferPool2D Pool2DByZero
  split
  · next batch inputH inputW inputC rest =>
    cases hopts : op.options with
    | pool2D o =>
      simp only [bind_eq_error, computeOutputSize_error]
      constructor
      · rintro (⟨h, hp, hs⟩ | ⟨_, _, ⟨h, hp, hs⟩ | ⟨_, _, hpure⟩⟩)
        · exact ⟨_, _, _, _, _, o, rfl, rfl, hp, .inl ⟨h, hs⟩⟩
        · exact ⟨_, _, _, _, _, o, rfl, rfl, hp, .inr ⟨h, hs⟩⟩
        · cases hpure
      · rintro ⟨_, _, _, _, _, _, hshape, hopt, hp, hzero⟩
        cases hshape
        cases hopt
        by_cases hh : inputH ≠ -1 ∧ o.padding ≠ .other ∧ o.strideH = 0
        · exact .inl hh
        · obtain ⟨h, hs⟩ | ⟨h, hs⟩ := hzero
          · exact absurd ⟨h, hp, hs⟩ hh
          · obtain ⟨outH, hsize⟩ := computeOutputSize_isOk hh
            exact .inr ⟨outH, hsize, .inl ⟨h, hp, hs⟩⟩
    | _ =>
      refine iff_of_false (fun h => by cases h) ?_
      rintro ⟨_, _, _, _, _, _, -, hopt, -⟩
      cases hopt
  · next hno =>
    refine iff_of_false (fun h => by cases h) ?_
    rintro ⟨_, _, _, _, _, _, hshape, -⟩
    exact hno _ _ _ _ _ hshape

theorem inferConv2D_error :
    inferConv2D op inputShapes = .error .divisionByZero ↔ Conv2DByZero op inputShapes := by
  unfold inferConv2D Conv2DByZero
  split
  · next batch inputH inputW inputC outChannels filterH filterW filterC rest =>
    cases hopts : op.options with
    | conv2D o =>
      have hiff : (∃ inputShape filterShape rest' o',
          [batch, inputH, inputW, inputC] :: [outChannels, filterH, filterW, filterC] :: rest =
            inputShape :: filterShape :: rest' ∧ Options.conv2D o = .conv2D o' ∧
          inputShape.length = 4 ∧ filterShape.length = 4 ∧ filterShape[3]? = some 0) ↔
          filterC = 0 := by
        constructor
        · rintro ⟨_, _, _, _, hshapes, -, -, -, hzero⟩
          cases hshapes
          exact Option.some.inj hzero
        · rintro rfl
          exact ⟨_, _, _, o, rfl, rfl, rfl, rfl, rfl⟩
      rw [hiff]
      constructor
      · intro h
        obtain h | ⟨channels, -, h⟩ := bind_eq_error.1 h
        · exact remainder_error.1 h
        · split at h
          · cases h
          split at h
          · cases h
          · next hstride =>
            -- the strides are positive from here on
            have hnot : ∀ {imageSize stride : Int}, ¬ stride ≤ 0 →
                ¬ (imageSize ≠ -1 ∧ o.padding ≠ .other ∧ stride = 0) := by
              rintro imageSize stride hpos ⟨-, -, rfl⟩
              exact hpos (Int.le_refl 0)
            rw [not_or] at hstride
            split at h
            · cases h
            split at h
            · cases h
            split at h
            · cases h
            obtain h | ⟨outH, -, h⟩ := bind_eq_error.1 h
            · exact absurd (computeOutputSize_error.1 h) (hnot hstride.1)
            obtain h | ⟨outW, -, h⟩ := bind_eq_error.1 h
            · exact absurd (computeOutputSize_error.1 h) (hnot hstride.2)
            split at h
            · cases h
            split at h <;> cases h
      · intro hzero
        exact bind_eq_error.2 (.inl (remainder_error.2 hzero))
    | _ =>
      refine iff_of_false (fun h => by cases h) ?_
      rintro ⟨_, _, _, _, -, hopt, -⟩
      cases hopt
  · next hno =>
    refine iff_of_false (fun h => by cases h) ?_
    rintro ⟨inputShape, filterShape, rest, _, hshapes, -, hinput, hfilter, -⟩
    obtain ⟨_, _, _, _, rfl⟩ := List.length_eq_four.1 hinput
    obtain ⟨_, _, _, _, rfl⟩ := List.length_eq_four.1 hfilter
    exact hno _ _ _ _ _ _ _ _ _ hshapes

theorem int32_square (n : Int) : int32 (n * n) = 0 ↔ 65536 ∣ n := by
  have hdvd : int32 (n * n) = 0 ↔ (4294967296 : Int) ∣ n * n :=
    (Int.dvd_iff_bmod_eq_zero ..).symm
  rw [hdvd, show (4294967296 : Int) = 65536 ^ 2 by decide, ← pow_two,
    Int.pow_dvd_pow_iff (by decide)]

theorem inferDepthToSpace_error :
    inferDepthToSpace op inputShapes = .error .divisionByZero ↔
      DepthToSpaceByZero op inputShapes := by
  unfold inferDepthToSpace DepthToSpaceByZero
  split
  · next batch height width depth rest =>
    cases hopts : op.options with
    | depthToSpace blockSize =>
      show (if blockSize ≤ 0 then _ else _) = _ ↔ _
      split
      · next hpos =>
        refine iff_of_false (fun h => by cases h) ?_
        rintro ⟨_, _, _, _, _, _, -, hopt, hpos', -⟩
        cases hopt
        omega
      · next hpos =>
        rw [bind_eq_error, blockedDim_error, int32_square]
        constructor
        · rintro (⟨hdepth, hdvd⟩ | ⟨_, _, hpure⟩)
          · exact ⟨_, _, _, _, _, _, rfl, rfl, by omega, hdvd, hdepth⟩
          · cases hpure
        · rintro ⟨_, _, _, _, _, _, hshapes, hopt, -, hdvd, hdepth⟩
          cases hshapes
          cases hopt
          exact .inl ⟨hdepth, hdvd⟩
    | _ =>
      refine iff_of_false (fun h => by cases h) ?_
      rintro ⟨_, _, _, _, _, _, -, hopt, -⟩
      cases hopt
  · next hno =>
    refine iff_of_false (fun h => by cases h) ?_
    rintro ⟨_, _, _, _, _, _, hshapes, -⟩
    exact hno _ _ _ _ _ hshapes

/-- The block size is checked before it divides. -/
theorem inferSpaceToDepth_error : inferSpaceToDepth op inputShapes ≠ .error .divisionByZero := by
  intro h
  unfold inferSpaceToDepth at h
  split at h
  · have hblocked : ∀ {n d : Int}, ¬ d ≤ 0 → blockedDim n d ≠ .error .divisionByZero := by
      intro n d hd herror
      have hzero := (blockedDim_error.1 herror).2
      omega
    change (if op.options.spaceToDepthBlock ≤ 0 then _ else _) = _ at h
    split at h
    · cases h
    · next hpos =>
      obtain h | ⟨_, _, h⟩ := bind_eq_error.1 h
      · exact hblocked hpos h
      obtain h | ⟨_, _, h⟩ := bind_eq_error.1 h
      · exact hblocked hpos h
      · cases h
  · cases h

theorem reshapeTarget_ok {newShape : Dims} :
    reshapeTarget op = .ok newShape ↔ Requests op newShape := by
  unfold reshapeTarget Requests
  cases hinput : op.inputs[1]? with
  | some shapeTensor =>
    have hlen : ¬ op.inputs.length < 2 := by
      have hlt := (List.getElem?_eq_some_iff.1 hinput).1
      omega
    show (if 4 ≤ shapeTensor.buffer.length then _ else _) = _ ↔ _
    constructor
    · intro h
      split at h
      · next h4 =>
        split at h
        · cases h
        · next hmod =>
          cases h
          exact .inl ⟨shapeTensor, rfl, h4, by omega, rfl⟩
      · cases h
    · rintro (⟨_, htensor, h4, hdvd, rfl⟩ | ⟨hlt, -⟩)
      · cases htensor
        rw [if_pos h4, if_neg (by omega)]
        rfl
      · exact absurd hlt hlen
  | none =>
    have hlen : op.inputs.length < 2 := by
      have hle := List.getElem?_eq_none_iff.1 hinput
      omega
    cases hopts : op.options with
    | reshape requested =>
      show (if requested = [] then _ else _) = _ ↔ _
      split
      · next hempty =>
        refine iff_of_false (fun h => by cases h) ?_
        rintro (⟨_, htensor, -⟩ | ⟨-, hopt, hne⟩)
        · cases htensor
        · cases hopt
          exact hne hempty
      · next hne =>
        constructor
        · intro h
          cases h
          exact .inr ⟨hlen, rfl, hne⟩
        · rintro (⟨_, htensor, -⟩ | ⟨-, hopt, -⟩)
          · cases htensor
          · cases hopt
            rfl
    | _ =>
      refine iff_of_false (fun h => by cases h) ?_
      rintro (⟨_, htensor, -⟩ | ⟨-, hopt, -⟩)
      · cases htensor
      · cases hopt

theorem reshapeTarget_error : reshapeTarget op ≠ .error .divisionByZero := by
  intro h
  unfold reshapeTarget at h
  split at h
  · split at h
    · split at h <;> cases h
    · cases h
  · split at h
    · split at h <;> cases h
    · cases h

/-- The loop ends with an index if there is one -1 in all, and with the product of the others. -/
theorem minusOneAndProduct_some {newShape : Dims} {i : Nat} {minusOneIdx : Option Nat}
    {p q : Int} (hp : FitsBytes 8 p) :
    (∃ k, minusOneAndProduct newShape i minusOneIdx p = .ok (some k, q)) ↔
      minusOneIdx.isSome.toNat + newShape.count (-1) = 1 ∧
        q = int64 (p * (newShape.filter (· ≠ -1)).prod) := by
  induction newShape generalizing i minusOneIdx p with
  | nil =>
    show (∃ k, Except.ok (minusOneIdx, p) = .ok (some k, q)) ↔ _ ∧ q = int64 (p * 1)
    rw [Int.mul_one, show int64 p = p from hp]
    cases minusOneIdx with
    | none =>
      refine iff_of_false ?_ fun h => absurd h.1 (by decide)
      rintro ⟨k, hk⟩
      cases hk
    | some k =>
      constructor
      · rintro ⟨k', hk⟩
        cases hk
        exact ⟨rfl, rfl⟩
      · rintro ⟨-, rfl⟩
        exact ⟨k, rfl⟩
  | cons d newShape ih =>
    unfold minusOneAndProduct
    by_cases hd : d = -1
    · rw [if_pos hd, hd, List.count_cons_self, List.filter_cons_of_neg (by decide)]
      cases minusOneIdx with
      | none =>
        show (∃ k, minusOneAndProduct newShape (i + 1) (some i) p = .ok (some k, q)) ↔ _
        rw [ih hp]
        show 1 + _ = 1 ∧ _ ↔ 0 + (_ + 1) = 1 ∧ _
        rw [Nat.zero_add, Nat.add_comm]
      | some k =>
        refine iff_of_false ?_ fun h => ?_
        · rintro ⟨k', hk⟩
          cases hk
        · have hcount := h.1
          change 1 + (_ + 1) = 1 at hcount
          omega
    · have hnarrow : int64 (int64 (p * d) * (newShape.filter (· ≠ -1)).prod) =
          int64 (p * d * (newShape.filter (· ≠ -1)).prod) := narrow_narrow_mul 8 _ _
      rw [if_neg hd, ih (fitsBytes_narrow 8 _), hnarrow, List.count_cons_of_ne hd,
        List.filter_cons_of_pos (by simpa using hd), List.prod_cons, Int.mul_assoc]

theorem minusOneAndProduct_error {newShape : Dims} {i : Nat} {minusOneIdx : Option Nat} {p : Int} :
    minusOneAndProduct newShape i minusOneIdx p ≠ .error .divisionByZero := by
  induction newShape generalizing i minusOneIdx p with
  | nil =>
    intro h
    cases h
  | cons d newShape ih =>
    unfold minusOneAndProduct
    split
    · split
      · intro h
        cases h
      · exact ih
    · exact ih

theorem inputVolume_isSome {shape : Dims} {p : Int} :
    (∃ volume, inputVolume shape p = some volume) ↔ -1 ∉ shape := by
  induction shape generalizing p with
  | nil => exact iff_of_true ⟨p, rfl⟩ (List.not_mem_nil)
  | cons d shape ih =>
    unfold inputVolume
    rw [List.mem_cons, not_or]
    split
    · next hd =>
      refine iff_of_false ?_ fun h => h.1 hd.symm
      rintro ⟨_, h⟩
      cases h
    · next hd =>
      rw [ih]
      exact ⟨fun h => ⟨fun h' => hd h'.symm, h⟩, fun h => h.2⟩

theorem int64_eq_zero : int64 n = 0 ↔ (18446744073709551616 : Int) ∣ n :=
  (Int.dvd_iff_bmod_eq_zero ..).symm

theorem fits_one : FitsBytes 8 1 := by decide

theorem inferReshape_error :
    inferReshape op inputShapes = .error .divisionByZero ↔ ReshapeByZero op inputShapes := by
  cases inputShapes with
  | nil =>
    refine iff_of_false (fun h => by cases h) ?_
    rintro ⟨_, _, _, hshapes, -⟩
    cases hshapes
  | cons inputShape rest =>
    unfold inferReshape ReshapeByZero
    constructor
    · intro h
      obtain h | ⟨newShape, hnew, h⟩ := bind_eq_error.1 h
      · exact absurd h reshapeTarget_error
      obtain h | ⟨⟨minusOneIdx, newProduct⟩, hscan, h⟩ := bind_eq_error.1 h
      · exact absurd h minusOneAndProduct_error
      cases minusOneIdx with
      | none => cases h
      | some k =>
        obtain ⟨hcount, hproduct⟩ := (minusOneAndProduct_some fits_one).1 ⟨k, hscan⟩
        cases hvolume : inputVolume inputShape 1 with
        | none =>
          simp only [hvolume] at h
          cases h
        | some inputProduct =>
          simp only [hvolume] at h
          have hzero : newProduct = 0 := by
            obtain h | ⟨_, _, h⟩ := bind_eq_error.1 h
            · exact remainder_error.1 h
            · split at h
              · cases h
              · obtain h | ⟨_, _, h⟩ := bind_eq_error.1 h
                · exact quotient_error.1 h
                · cases h
          rw [hzero, Int.one_mul] at hproduct
          rw [show none.isSome.toNat = 0 from rfl, Nat.zero_add] at hcount
          exact ⟨inputShape, rest, newShape, rfl, reshapeTarget_ok.1 hnew, hcount,
            inputVolume_isSome.1 ⟨_, hvolume⟩, int64_eq_zero.1 hproduct.symm⟩
    · rintro ⟨_, _, newShape, hshapes, hnew, hcount, hstatic, hdvd⟩
      cases hshapes
      obtain ⟨inputProduct, hvolume⟩ := (@inputVolume_isSome inputShape 1).2 hstatic
      have hproduct : (0 : Int) = int64 (1 * (newShape.filter (· ≠ -1)).prod) := by
        rw [Int.one_mul, int64_eq_zero.2 hdvd]
      obtain ⟨k, hscan⟩ := (@minusOneAndProduct_some newShape 0 none 1 0 fits_one).2
        ⟨by rw [hcount]; rfl, hproduct⟩
      rw [reshapeTarget_ok.2 hnew]
      show (minusOneAndProduct newShape 0 none 1 >>= _) = _
      rw [hscan]
      show (match inputVolume inputShape 1 with | none => _ | some inputProduct => _) = _
      rw [hvolume]
      rfl

end

/-- An op of one output, none of whose operands is constant. -/
def variableOp (numInputs : Nat) (options : Options) : Op :=
  ⟨List.replicate numInputs ⟨.other, true, []⟩, 1, options⟩

end LiteRt.Shapes
