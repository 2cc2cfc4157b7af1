import LiteRt.Shapes.Operators

/-!
# The ranks of inferred shapes

A type has room for eight dimensions, and most inferrers give no more dimensions than they get.
Packs, gathers and lookups add those of their inputs, and reshapes, broadcasts, slices and
transposed convolutions take as many as a constant has numbers.
-/

namespace LiteRt.Shapes

open LiteRt.Lib List

/-- The dimensions that a constant of 32-bit numbers stands for, if there is one. -/
def constantRank (op : BuiltinOp) (i : Nat) : Option Nat :=
  (op.inputs[i]?).bind fun tensor =>
    if 4 ≤ tensor.buffer.length then some (tensor.buffer.length / 4) else none

def reshapeRank (op : BuiltinOp) : Nat :=
  match op.inputs[1]?, op.options with
  | some shapeTensor, _ => shapeTensor.buffer.length / 4
  | none, .basic (.reshape newShape) => newShape.length
  | none, _ => 0

def broadcastRank (op : BuiltinOp) : Nat :=
  match op.inputs[1]? with
  | some shapeTensor =>
    shapeTensor.buffer.length / (if shapeTensor.elementType = .int64 then 8 else 4)
  | none => 0

def Inferrer.raisedRank (op : BuiltinOp) : Inferrer → List Dims → Option Nat
  | .pack, s0 :: _ => some (s0.length + 1)
  | .gather, inputShape :: indicesShape :: _ =>
    some (inputShape.length - 1 + indicesShape.length)
  | .gatherNd, inputShape :: indicesShape :: _ =>
    some (indicesShape.length - 1 + (inputShape.length - (indicesShape.getLastD 0).toNat))
  | .embeddingLookup, idsShape :: paramsShape :: _ =>
    some (idsShape.length + (paramsShape.length - 1))
  | .reshape, _ => some (reshapeRank op)
  | .broadcastTo, _ => some (broadcastRank op)
  | .slice, _ => constantRank op 2
  | .transposeConv, _ => constantRank op 0
  | .conv3DTranspose, _ => constantRank op 0
  | _, _ => none

/-! ### The rank of each inferred shape -/

section
variable {op : BuiltinOp} {inputShapes : List Dims} {inputShape shape : Dims} {n : Nat} {b : Nat}
  {rest : List Dims} {i : Nat} {inferrer : Inferrer} {outShape : Dims} {indicesShape : Dims}
  {operand : Operand} {shapes outputShapes : List Dims}

theorem length_numbers (w : Nat) (bytes : List UInt8) :
    (numbers w bytes).length = bytes.length / w :=
  length_readNumbers w _ bytes

theorem length_inferIdentity (h : inferIdentity op inputShapes = .ok shape) :
    shape ∈ inputShapes := by
  unfold inferIdentity at h
  rw [ite_error_eq_ok] at h
  cases inputShapes with
  | nil => cases h.2
  | cons s rest =>
    cases h.2
    exact mem_cons_self

theorem le_of_maxRank (h : ∀ a ∈ inputShapes, a.length ≤ b) : maxRank inputShapes ≤ b := by
  induction inputShapes with
  | nil => exact Nat.zero_le b
  | cons s rest ih =>
    obtain ⟨hs, hrest⟩ := forall_mem_cons.1 h
    exact max_le hs (ih hrest)

theorem length_inferElementwiseBinary (h : inferElementwiseBinary inputShapes = .ok shape) :
    shape.length = maxRank inputShapes := by
  unfold inferElementwiseBinary at h
  split at h
  · exact (fromRight_eq_ok.1 h).1
  · cases h

theorem length_inferSelect (h : inferSelect inputShapes = .ok shape) :
    shape.length = maxRank inputShapes := by
  unfold inferSelect at h
  split at h
  · exact (fromRight_eq_ok.1 h).1
  · cases h

theorem length_inferBatchMatmul (h : inferBatchMatmul op inputShapes = .ok shape) :
    shape.length = maxRank inputShapes := by
  unfold inferBatchMatmul at h
  split at h
  · rw [ite_error_eq_ok, ite_error_eq_ok] at h
    exact (fromRight_eq_ok.1 h.2.2).1
  · cases h

theorem length_inferFullyConnected (h : inferFullyConnected op inputShapes = .ok shape) :
    shape.length = 2 ∨ ∃ input ∈ inputShapes, shape.length = input.length := by
  unfold inferFullyConnected at h
  split at h
  · split at h
    · next input _ _ outputDim _ =>
      rw [ite_error_eq_ok] at h
      obtain ⟨hne, h⟩ := h
      split at h
      · cases h
        refine .inr ⟨input, mem_cons_self, ?_⟩
        have hpos := length_pos_iff.2 hne
        rw [length_append, length_dropLast, length_singleton]
        omega
      · cases h
        exact .inl rfl
    · cases h
  · cases h

theorem length_concatDims {axis i : Nat} (hlen : inputShape.length = outShape.length)
    (h : concatDims axis i outShape inputShape = .ok shape) : shape.length = outShape.length := by
  induction outShape generalizing i inputShape shape with
  | nil =>
    cases inputShape <;> cases h <;> rfl
  | cons out outShape ih =>
    cases inputShape with
    | nil => cases hlen
    | cons d inputShape =>
      rw [concatDims, bind_ok_iff] at h
      obtain ⟨o, -, h⟩ := h
      rw [bind_ok_iff] at h
      obtain ⟨rest, hrest, h⟩ := h
      cases h
      rw [length_cons, length_cons, ih (Nat.succ.inj hlen) hrest]

theorem length_foldlM_concatStep {axis : Nat}
    (h : inputShapes.foldlM (concatStep axis) outShape = .ok shape) :
    shape.length = outShape.length := by
  induction inputShapes generalizing outShape with
  | nil =>
    cases h
    rfl
  | cons s rest ih =>
    rw [foldlM_cons, bind_ok_iff] at h
    obtain ⟨out, hstep, hrest⟩ := h
    unfold concatStep at hstep
    rw [ite_error_eq_ok] at hstep
    rw [ih hrest, length_concatDims (not_not.1 hstep.1) hstep.2]

theorem length_inferConcatenation (h : inferConcatenation op inputShapes = .ok shape) :
    ∃ firstShape ∈ inputShapes, shape.length = firstShape.length := by
  unfold inferConcatenation at h
  split at h
  · cases h
  · next firstShape rest =>
    rw [ite_error_eq_ok] at h
    obtain ⟨-, h⟩ := h
    split at h
    · rw [ite_error_eq_ok] at h
      refine ⟨firstShape, mem_cons_self, ?_⟩
      rw [length_foldlM_concatStep h.2, length_set]
    · cases h

theorem length_inferPack {s0 : Dims} (h : inferPack op (s0 :: rest) = .ok shape) :
    shape.length = s0.length + 1 := by
  unfold inferPack at h
  simp only [ite_error_eq_ok] at h
  obtain ⟨haxis, -, h⟩ := h
  cases h
  rw [length_insertIdx_of_le_length]
  omega

theorem length_inferGather (h : inferGather op (inputShape :: indicesShape :: rest) = .ok shape) :
    shape.length = inputShape.length - 1 + indicesShape.length := by
  unfold inferGather at h
  simp only [ite_error_eq_ok] at h
  obtain ⟨haxis, h⟩ := h
  cases h
  rw [length_append, length_append, length_take, length_drop]
  omega

theorem length_inferGatherNd (h : inferGatherNd (inputShape :: indicesShape :: rest) = .ok shape) :
    shape.length = indicesShape.length - 1 +
      (inputShape.length - (indicesShape.getLastD 0).toNat) := by
  unfold inferGatherNd at h
  dsimp only at h
  split at h
  · cases h
  · next indexRank hlast =>
    rw [ite_error_eq_ok] at h
    cases h.2
    rw [length_append, length_dropLast, length_drop, getLastD_eq_getLast?, hlast]
    rfl

theorem length_inferEmbeddingLookup {idsShape paramsShape : Dims}
    (h : inferEmbeddingLookup (idsShape :: paramsShape :: rest) = .ok shape) :
    shape.length = idsShape.length + (paramsShape.length - 1) := by
  cases h
  rw [length_append, length_drop]

theorem length_reshapeTarget (h : reshapeTarget op.toOp = .ok shape) :
    shape.length = reshapeRank op := by
  unfold reshapeTarget at h
  unfold reshapeRank
  split at h
  · next shapeTensor hinput =>
    have hinput' : op.inputs[1]? = some shapeTensor := hinput
    rw [hinput']
    split at h
    · rw [ite_error_eq_ok] at h
      cases h.2
      exact length_numbers 4 _
    · cases h
  · next hinput =>
    have hinput' : op.inputs[1]? = none := hinput
    rw [hinput']
    unfold BuiltinOp.toOp at h
    dsimp only at h
    cases hoptions : op.options with
    | basic options =>
      rw [hoptions] at h
      cases options with
      | reshape newShape =>
        dsimp only at h
        rw [ite_error_eq_ok] at h
        cases h.2
        rfl
      | _ => cases h
    | _ =>
      rw [hoptions] at h
      cases h

theorem length_inferReshape (h : inferReshape op.toOp inputShapes = .ok shape) :
    shape.length = reshapeRank op := by
  unfold inferReshape at h
  split at h
  · cases h
  · rw [bind_ok_iff] at h
    obtain ⟨newShape, htarget, h⟩ := h
    rw [bind_ok_iff] at h
    obtain ⟨p, -, h⟩ := h
    rw [← length_reshapeTarget htarget]
    split at h
    split at h
    · cases h
      rfl
    · split at h
      · cases h
        exact length_set
      · rw [bind_ok_iff] at h
        obtain ⟨r, -, h⟩ := h
        rw [ite_error_eq_ok, bind_ok_iff] at h
        obtain ⟨-, d, -, h⟩ := h
        cases h
        exact length_set

theorem input_toOp (h : op.toOp.input i = .ok operand) :
    op.inputs[i]? = some operand := by
  unfold Op.input at h
  have hinputs : op.toOp.inputs = op.inputs := rfl
  rw [hinputs] at h
  cases hi : op.inputs[i]? with
  | none =>
    rw [hi] at h
    cases h
  | some operand' =>
    rw [hi] at h
    cases h
    rfl

theorem constantRank_of_input (h : op.toOp.input i = .ok operand) :
    constantRank op i =
      if 4 ≤ operand.buffer.length then some (operand.buffer.length / 4) else none := by
  unfold constantRank
  rw [input_toOp h]
  rfl

theorem length_broadcastTarget {shapeTensor : Operand}
    (h : broadcastTarget shapeTensor = .ok shape) :
    shape.length =
      shapeTensor.buffer.length / (if shapeTensor.elementType = .int64 then 8 else 4) := by
  unfold broadcastTarget at h
  dsimp only at h
  split at h
  · next h64 =>
    cases h
    rw [length_map, length_numbers, if_pos h64.1]
  · split at h
    · next h32 =>
      cases h
      have hne : shapeTensor.elementType ≠ .int64 := by
        rw [h32.1]
        exact fun h => by cases h
      rw [length_numbers, if_neg hne]
    · cases h

theorem length_inferBroadcastTo (h : inferBroadcastTo op.toOp inputShapes = .ok shape) :
    shape.length = broadcastRank op := by
  unfold inferBroadcastTo at h
  split at h
  · rw [ite_error_eq_ok, bind_ok_iff] at h
    obtain ⟨-, shapeTensor, hinput, h⟩ := h
    unfold broadcastRank
    rw [input_toOp hinput]
    split at h
    · rw [ite_error_eq_ok, bind_ok_iff] at h
      obtain ⟨-, outShape, htarget, h⟩ := h
      rw [ite_error_eq_ok] at h
      obtain ⟨-, h⟩ := h
      split at h
      · cases h
        exact length_broadcastTarget htarget
      · cases h
    · cases h
  · cases h

/-- A shape read from a constant, or one of the input's rank. -/
theorem length_inferSlice (h : inferSlice op.toOp inputShapes = .ok shape) :
    constantRank op 2 = some shape.length ∨
      constantRank op 2 = none ∧ ∃ input ∈ inputShapes, shape.length = input.length := by
  unfold inferSlice at h
  split at h
  · next inputShape _ _ _ =>
    rw [bind_ok_iff] at h
    obtain ⟨sizeTensor, hinput, h⟩ := h
    rw [constantRank_of_input hinput]
    split at h
    · next hsize =>
      rw [if_pos hsize]
      split at h
      · cases h
        exact .inl (congrArg some (length_numbers 4 _).symm)
      · cases h
    · next hsize =>
      rw [if_neg hsize]
      cases h
      exact .inr ⟨rfl, inputShape, mem_cons_self, length_replicate⟩
  · cases h

theorem length_setDim {d : Int} (h : setDim inputShape i d = .ok shape) :
    shape.length = inputShape.length := by
  unfold setDim at h
  split at h
  · cases h
    exact length_set
  · cases h

theorem length_inferTransposeConv (h : inferTransposeConv op inputShapes = .ok shape) :
    constantRank op 0 = some shape.length ∨
      constantRank op 0 = none ∧ ∃ input ∈ inputShapes, shape.length = input.length := by
  unfold inferTransposeConv at h
  split at h
  · next weightsShape inputShape _ =>
    rw [bind_ok_iff] at h
    obtain ⟨sizeTensor, hinput, h⟩ := h
    rw [constantRank_of_input hinput]
    split at h
    · next hsize =>
      rw [if_pos hsize]
      cases h
      exact .inl (congrArg some (length_numbers 4 _).symm)
    · next hsize =>
      rw [if_neg hsize]
      rw [bind_ok_iff] at h
      obtain ⟨outShape, hbatch, h⟩ := h
      have hlen : outShape.length = inputShape.length := by
        rw [length_setDim hbatch, length_replicate]
      refine .inr ⟨rfl, inputShape, mem_cons_of_mem _ (mem_cons_of_mem _ mem_cons_self), ?_⟩
      split at h
      · rw [length_setDim h, hlen]
      · cases h
        exact hlen
  · cases h

theorem length_inferConv3DTranspose (h : inferConv3DTranspose op inputShapes = .ok shape) :
    constantRank op 0 = some shape.length ∨
      constantRank op 0 = none ∧ ∃ input ∈ inputShapes, shape.length = input.length := by
  unfold inferConv3DTranspose at h
  split at h
  · next filterShape inputShape _ =>
    rw [bind_ok_iff] at h
    obtain ⟨sizeTensor, hinput, h⟩ := h
    rw [constantRank_of_input hinput]
    split at h
    · next hsize =>
      rw [if_pos hsize]
      cases h
      exact .inl (congrArg some (length_numbers 4 _).symm)
    · next hsize =>
      rw [if_neg hsize]
      refine .inr ⟨rfl, inputShape, mem_cons_of_mem _ (mem_cons_of_mem _ mem_cons_self), ?_⟩
      dsimp only at h
      split at h
      · rw [length_setDim h, length_set, length_replicate]
      · cases h
        rw [length_set, length_replicate]
  · cases h

theorem length_inferConv2D (h : inferConv2D op.toOp inputShapes = .ok shape) :
    shape.length = 4 := by
  unfold inferConv2D at h
  split at h
  · split at h
    · simp only [bind_ok_iff, ite_error_eq_ok, pure_eq_ok] at h
      obtain ⟨_, -, -, -, -, -, -, _, -, _, -, -, -, rfl⟩ := h
      rfl
    · cases h
  · cases h

theorem length_inferDepthwiseConv2D (h : inferDepthwiseConv2D op inputShapes = .ok shape) :
    shape.length = 4 := by
  unfold inferDepthwiseConv2D at h
  split at h
  · split at h
    · simp only [bind_ok_iff, ite_error_eq_ok, pure_eq_ok] at h
      obtain ⟨-, -, -, -, -, -, _, -, _, -, -, -, rfl⟩ := h
      rfl
    · cases h
  · cases h

theorem length_inferConv3D (h : inferConv3D op inputShapes = .ok shape) : shape.length = 5 := by
  unfold inferConv3D at h
  split at h
  · split at h
    · simp only [bind_ok_iff, ite_error_eq_ok, pure_eq_ok] at h
      obtain ⟨-, -, -, -, -, _, -, _, -, _, -, -, -, rfl⟩ := h
      rfl
    · cases h
  · cases h

theorem length_inferPool2D (h : inferPool2D op.toOp inputShapes = .ok shape) :
    shape.length = 4 := by
  unfold inferPool2D at h
  split at h
  · split at h
    · simp only [bind_ok_iff, pure_eq_ok] at h
      obtain ⟨_, -, _, -, rfl⟩ := h
      rfl
    · cases h
  · cases h

theorem length_inferDepthToSpace (h : inferDepthToSpace op.toOp inputShapes = .ok shape) :
    shape.length = 4 := by
  unfold inferDepthToSpace at h
  split at h
  · simp only [bind_ok_iff, ite_error_eq_ok, pure_eq_ok] at h
    obtain ⟨-, _, -, rfl⟩ := h
    rfl
  · cases h

theorem length_inferSpaceToDepth (h : inferSpaceToDepth op.toOp inputShapes = .ok shape) :
    shape.length = 4 := by
  unfold inferSpaceToDepth at h
  split at h
  · simp only [bind_ok_iff, ite_error_eq_ok, pure_eq_ok] at h
    obtain ⟨-, _, -, _, -, rfl⟩ := h
    rfl
  · cases h

theorem length_inferResizeOp (h : inferResizeOp op inputShapes = .ok shape) : shape.length = 4 := by
  unfold inferResizeOp at h
  split at h
  · rw [bind_ok_iff] at h
    obtain ⟨sizeTensor, -, h⟩ := h
    split at h
    · split at h
      · split at h <;> cases h <;> rfl
      · cases h
        rfl
    · cases h
  · cases h

theorem length_inferDynamicUpdateSlice (h : inferDynamicUpdateSlice inputShapes = .ok shape) :
    shape ∈ inputShapes := by
  unfold inferDynamicUpdateSlice at h
  split at h
  · simp only [ite_error_eq_ok, pure_eq_ok] at h
    obtain ⟨-, -, -, -, rfl⟩ := h
    exact mem_cons_self
  · cases h

theorem length_inferTranspose (h : inferTranspose op inputShapes = .ok shape) :
    ∃ input ∈ inputShapes, shape.length = input.length := by
  unfold inferTranspose at h
  split at h
  · next inputShape _ _ =>
    rw [bind_ok_iff] at h
    obtain ⟨permTensor, -, h⟩ := h
    refine ⟨inputShape, mem_cons_self, ?_⟩
    split at h
    · simp only [ite_error_eq_ok, pure_eq_ok] at h
      obtain ⟨hlen, -, rfl⟩ := h
      rw [length_map, not_not.1 hlen]
    · cases h
      exact length_replicate
  · cases h

theorem length_reducedFrom (axes : List Int) (keepDims : Bool) (i : Nat) (shape : Dims) :
    (reducedFrom axes keepDims i shape).length ≤ shape.length := by
  induction shape generalizing i with
  | nil => exact Nat.le_refl 0
  | cons d shape ih =>
    have hhead : (if (i : Int) ∈ axes then if keepDims then [1] else [] else [d]).length ≤ 1 := by
      split
      · split
        · exact Nat.le_refl 1
        · exact Nat.zero_le 1
      · exact Nat.le_refl 1
    rw [reducedFrom_cons, length_append, length_cons]
    have htail := ih (i + 1)
    omega

theorem length_inferGenericReduction {keepDims : Bool}
    (h : inferGenericReduction op.toOp keepDims inputShapes = .ok shape) :
    ∃ input ∈ inputShapes, shape.length ≤ input.length := by
  unfold inferGenericReduction at h
  split at h
  · next inputShape _ _ =>
    simp only [bind_ok_iff, ite_error_eq_ok, pure_eq_ok] at h
    obtain ⟨_, -, -, axes, -, rfl⟩ := h
    exact ⟨inputShape, mem_cons_self, length_reducedFrom _ _ _ _⟩
  · cases h

theorem length_padDims (shape : Dims) (paddings : List Int) :
    (padDims shape paddings).length = shape.length := by
  induction shape, paddings using padDims.induct with
  | case1 d shape before after paddings ih =>
    rw [padDims, length_cons, ih, length_cons]
  | case2 shape paddings h => rw [padDims.eq_2 _ _ h]

theorem length_inferPad (h : inferPad op.toOp inputShapes = .ok shape) :
    ∃ input ∈ inputShapes, shape.length = input.length := by
  unfold inferPad at h
  split at h
  · next inputShape _ _ =>
    rw [bind_ok_iff] at h
    obtain ⟨_, -, h⟩ := h
    refine ⟨inputShape, mem_cons_self, ?_⟩
    rw [ite_error_eq_ok] at h
    obtain ⟨-, h⟩ := h
    split at h
    · cases h
      exact length_padDims _ _
    · split at h
      · cases h
        exact length_padDims _ _
      · cases h
  · cases h

/-- The rank of an inferred shape that is not raised. -/
theorem Inferrer.length_le (hb : 5 ≤ b) (hinputs : ∀ a ∈ inputShapes, a.length ≤ b)
    (hraised : inferrer.raisedRank op inputShapes = none)
    (h : inferrer.shape op inputShapes = .ok shape) : shape.length ≤ b := by
  have hinput : (∃ input ∈ inputShapes, shape.length = input.length) → shape.length ≤ b := by
    rintro ⟨input, hmem, hlen⟩
    rw [hlen]
    exact hinputs input hmem
  cases inferrer with
  | identity => exact hinputs _ (length_inferIdentity h)
  | elementwiseBinary =>
    rw [length_inferElementwiseBinary h]
    exact le_of_maxRank hinputs
  | argMinMax =>
    obtain ⟨input, hmem, hlen⟩ := length_inferGenericReduction h
    exact hlen.trans (hinputs input hmem)
  | pool2D => exact (length_inferPool2D h).le.trans (by omega)
  | batchMatmul =>
    rw [length_inferBatchMatmul h]
    exact le_of_maxRank hinputs
  | broadcastTo => cases hraised
  | concatenation => exact hinput (length_inferConcatenation h)
  | conv2D => exact (length_inferConv2D h).le.trans (by omega)
  | conv3D => exact (length_inferConv3D h).le.trans hb
  | conv3DTranspose =>
    rcases length_inferConv3DTranspose h with hsome | ⟨-, hlen⟩
    · cases hsome.symm.trans hraised
    · exact hinput hlen
  | depthToSpace => exact (length_inferDepthToSpace h).le.trans (by omega)
  | depthwiseConv2D => exact (length_inferDepthwiseConv2D h).le.trans (by omega)
  | dynamicUpdateSlice => exact hinputs _ (length_inferDynamicUpdateSlice h)
  | embeddingLookup =>
    rcases inputShapes with - | ⟨ids, - | ⟨params, rest⟩⟩
    · cases h
    · cases h
    · cases hraised
  | fullyConnected =>
    rcases length_inferFullyConnected h with htwo | hlen
    · omega
    · exact hinput hlen
  | gather =>
    rcases inputShapes with - | ⟨input, - | ⟨indices, rest⟩⟩
    · cases h
    · cases h
    · cases hraised
  | gatherNd =>
    rcases inputShapes with - | ⟨input, - | ⟨indices, rest⟩⟩
    · cases h
    · cases h
    · cases hraised
  | reduce =>
    obtain ⟨input, hmem, hlen⟩ := length_inferGenericReduction h
    exact hlen.trans (hinputs input hmem)
  | pad => exact hinput (length_inferPad h)
  | pack =>
    rcases inputShapes with - | ⟨s0, rest⟩
    · cases h
    · cases hraised
  | reshape => cases hraised
  | resizeOp => exact (length_inferResizeOp h).le.trans (by omega)
  | select =>
    rw [length_inferSelect h]
    exact le_of_maxRank hinputs
  | slice =>
    rcases length_inferSlice h with hsome | ⟨-, hlen⟩
    · cases hsome.symm.trans hraised
    · exact hinput hlen
  | spaceToDepth => exact (length_inferSpaceToDepth h).le.trans (by omega)
  | transpose => exact hinput (length_inferTranspose h)
  | transposeConv =>
    rcases length_inferTransposeConv h with hsome | ⟨-, hlen⟩
    · cases hsome.symm.trans hraised
    · exact hinput hlen

/-- The rank of an inferred shape that may be raised. -/
theorem Inferrer.length_eq {r : Nat} (hraised : inferrer.raisedRank op inputShapes = some r)
    (h : inferrer.shape op inputShapes = .ok shape) : shape.length = r := by
  cases inferrer with
  | pack =>
    rcases inputShapes with - | ⟨s0, rest⟩
    · cases hraised
    · cases hraised
      exact length_inferPack h
  | gather =>
    rcases inputShapes with - | ⟨input, - | ⟨indices, rest⟩⟩
    · cases hraised
    · cases hraised
    · cases hraised
      have hgather : inferGather op (input :: indices :: rest) = .ok shape := h
      exact length_inferGather hgather
  | gatherNd =>
    rcases inputShapes with - | ⟨input, - | ⟨indices, rest⟩⟩
    · cases hraised
    · cases hraised
    · cases hraised
      have hgather : inferGatherNd (input :: indices :: rest) = .ok shape := h
      exact length_inferGatherNd hgather
  | embeddingLookup =>
    rcases inputShapes with - | ⟨ids, - | ⟨params, rest⟩⟩
    · cases hraised
    · cases hraised
    · cases hraised
      have hlookup : inferEmbeddingLookup (ids :: params :: rest) = .ok shape := h
      exact length_inferEmbeddingLookup hlookup
  | reshape =>
    cases hraised
    exact length_inferReshape h
  | broadcastTo =>
    cases hraised
    exact length_inferBroadcastTo h
  | slice =>
    rcases length_inferSlice h with hsome | ⟨hnone, -⟩
    · exact Option.some_inj.1 (hsome.symm.trans hraised)
    · cases hnone.symm.trans hraised
  | transposeConv =>
    rcases length_inferTransposeConv h with hsome | ⟨hnone, -⟩
    · exact Option.some_inj.1 (hsome.symm.trans hraised)
    · cases hnone.symm.trans hraised
  | conv3DTranspose =>
    rcases length_inferConv3DTranspose h with hsome | ⟨hnone, -⟩
    · exact Option.some_inj.1 (hsome.symm.trans hraised)
    · cases hnone.symm.trans hraised
  | _ => cases hraised

/-! ### All outputs of an op -/

/-- One inferred shape, and the others empty. -/
theorem first_infer_ok {shapes : List Dims}
    (h : (StandardInferrer.first inferrer).infer op inputShapes (List.replicate n []) =
      .ok shapes) :
    ∃ shape, inferrer.shape op inputShapes = .ok shape ∧
      shapes = shape :: List.replicate (n - 1) [] := by
  unfold StandardInferrer.infer at h
  rw [bind_ok_iff] at h
  obtain ⟨shape, hshape, h⟩ := h
  refine ⟨shape, hshape, ?_⟩
  cases n with
  | zero =>
    dsimp only [replicate_zero] at h
    split at h
    · exact (pure_eq_ok.1 h).symm
    · cases h
  | succ n => exact (pure_eq_ok.1 h).symm

theorem length_inferUnpack (hinputs : ∀ a ∈ inputShapes, a.length ≤ b)
    (h : inferUnpack op inputShapes outputShapes = .ok shapes) :
    ∀ shape ∈ shapes, shape.length ≤ b := by
  unfold inferUnpack at h
  split at h
  · cases h
  · next s0 rest =>
    simp only [ite_error_eq_ok, pure_eq_ok] at h
    obtain ⟨-, -, rfl⟩ := h
    intro shape hshape
    rw [eq_of_mem_replicate hshape]
    exact (length_eraseIdx_le _ _).trans (hinputs s0 mem_cons_self)

theorem length_inferTopKV2 (hinputs : ∀ a ∈ inputShapes, a.length ≤ b)
    (houtputs : ∀ a ∈ outputShapes, a = [])
    (h : inferTopKV2 op inputShapes outputShapes = .ok shapes) :
    ∀ shape ∈ shapes, shape.length ≤ b := by
  unfold inferTopKV2 at h
  split at h
  · next inputShape _ _ =>
    rw [bind_ok_iff] at h
    obtain ⟨_, -, h⟩ := h
    split at h
    · cases h
    · next lastDim hlast =>
      rw [bind_ok_iff] at h
      obtain ⟨k, -, h⟩ := h
      cases h
      intro shape hshape
      have hpos : inputShape ≠ [] := by
        rintro rfl
        cases hlast
      have hlen : (inputShape.dropLast ++ [k]).length ≤ b := by
        have hb := hinputs inputShape mem_cons_self
        have hlt := length_pos_iff.2 hpos
        rw [length_append, length_dropLast, length_singleton]
        omega
      rcases mem_or_eq_of_mem_set hshape with hshape | rfl
      · rcases mem_or_eq_of_mem_set hshape with hshape | rfl
        · rw [houtputs shape hshape]
          exact Nat.zero_le b
        · exact hlen
      · exact hlen
  · cases h

end

end LiteRt.Shapes
