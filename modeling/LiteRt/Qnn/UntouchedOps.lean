import LiteRt.Qnn.KvSwapped
import LiteRt.Qnn.Mask
import LiteRt.Qnn.MatMulConvert

/-!
# Builders leave the graph alone

New ops are built from copies, and only new tensors get into the pool.
-/

namespace LiteRt.Qnn

open LiteRt.Lib G2G

def KeepsOps {α : Type} (x : G2G α) : Prop := ∀ ops, Keeps x fun g => g.ops = ops

section
variable {α β : Type} {x : G2G α} {f : α → G2G β}

theorem KeepsOps.bind (hx : KeepsOps x) (hf : ∀ a, KeepsOps (f a)) : KeepsOps (x >>= f) :=
  fun ops => (hx ops).bind fun a => hf a ops

theorem keepsOps_pure (a : α) : KeepsOps (pure a) := fun _ => keeps_pure a

theorem keepsOps_throw (e : Failure) : KeepsOps (throw e : G2G α) := fun _ => keeps_throw e

theorem keepsOps_get {f : Graph → G2G α} (hf : ∀ g, KeepsOps (f g)) : KeepsOps (get >>= f) :=
  fun ops => keeps_get fun g hg => hf g ops g hg

theorem keepsOps_ite {c : Prop} [Decidable c] {x y : G2G α} (hx : KeepsOps x) (hy : KeepsOps y) :
    KeepsOps (if c then x else y) := by
  split
  · exact hx
  · exact hy

theorem KeepsOps.ops {g g' : Graph} {a : α} (h : KeepsOps x) (hrun : x g = .ok a g') :
    g'.ops = g.ops := by
  have hends := h g.ops g rfl
  rwa [Ends, hrun] at hends

theorem keepsOps_orUndefined (o : Option α) : KeepsOps (orUndefined o) := by
  cases o with
  | none => exact keepsOps_throw _
  | some a => exact keepsOps_pure a

end

theorem keepsOps_addTensor (tensor : TensorWrapper) : KeepsOps (addTensor tensor) :=
  fun _ _ hg => hg

theorem keepsOps_getTensor (t : Nat) : KeepsOps (getTensor t) :=
  keepsOps_get fun _ => keepsOps_orUndefined _

theorem keepsOps_createStaticTensor (quantParams : QuantizeParams) (dimensions : List Nat)
    (data : TensorData) : KeepsOps (createStaticTensor quantParams dimensions data) :=
  keepsOps_addTensor _

theorem keepsOps_cloneNativeTensorFrom (src : Nat) (dimensions : List Nat) :
    KeepsOps (cloneNativeTensorFrom src dimensions) :=
  (keepsOps_getTensor src).bind fun _ => keepsOps_addTensor _

theorem keepsOps_getInputTensor (op : OpWrapper) (i : Nat) : KeepsOps (getInputTensor op i) :=
  keepsOps_orUndefined _

theorem keepsOps_getOutputTensor (op : OpWrapper) (i : Nat) : KeepsOps (getOutputTensor op i) :=
  keepsOps_orUndefined _

theorem keepsOps_validateOpConfig (validate : Nat → OpWrapper → Bool) (op : OpWrapper) :
    KeepsOps (validateOpConfig validate op) :=
  fun _ _ hg => hg

theorem keepsOps_validateAll (validate : Nat → OpWrapper → Bool) (ops : List OpWrapper) :
    KeepsOps (validateAll validate ops) := by
  induction ops with
  | nil => exact keepsOps_pure true
  | cons op ops ih =>
    refine (keepsOps_validateOpConfig validate op).bind fun valid => ?_
    exact keepsOps_ite ih (keepsOps_pure false)

theorem keepsOps_isChain (ops : List OpWrapper) : KeepsOps (isChain ops) := by
  induction ops with
  | nil => exact keepsOps_pure true
  | cons op ops ih =>
    cases ops with
    | nil => exact keepsOps_pure true
    | cons nextOp ops =>
      refine KeepsOps.bind ?_ fun connected => keepsOps_ite ih (keepsOps_pure false)
      exact (keepsOps_getOutputTensor op 0).bind fun _ =>
        (keepsOps_getInputTensor nextOp 0).bind fun _ => keepsOps_pure _

theorem keepsOps_divideDimension (dimensions : List Nat) (i numHeads : Nat) :
    KeepsOps (divideDimension dimensions i numHeads) :=
  (keepsOps_orUndefined _).bind fun _ => keepsOps_ite (keepsOps_throw _) (keepsOps_pure _)

/-! ### Select ops -/

theorem keepsOps_createGemma3SelectOp (ops : List OpWrapper) (startIndex patternSize : Nat) :
    KeepsOps (createGemma3SelectOp ops startIndex patternSize) := by
  unfold createGemma3SelectOp
  refine (keepsOps_orUndefined _).bind fun firstOp => ?_
  refine (keepsOps_orUndefined _).bind fun lastOp => ?_
  refine (keepsOps_getInputTensor firstOp 0).bind fun patternInput => ?_
  refine (keepsOps_getOutputTensor lastOp 0).bind fun patternOutput => ?_
  refine (keepsOps_getTensor patternOutput).bind fun outputTensor => ?_
  refine (keepsOps_getTensor patternInput).bind fun inputTensor => ?_
  refine (keepsOps_createStaticTensor _ _ _).bind fun input1 => ?_
  refine (keepsOps_getInputTensor lastOp 1).bind fun mulStaticTensor => ?_
  refine (keepsOps_getTensor mulStaticTensor).bind fun staticTensor => ?_
  cases staticTensor.getInt16Data with
  | none => exact keepsOps_pure _
  | some staticTensorData =>
    exact (keepsOps_createStaticTensor _ _ _).bind fun input2 => keepsOps_pure _

theorem keepsOps_createGemma4SelectOp (ops : List OpWrapper) (startIndex patternSize : Nat) :
    KeepsOps (createGemma4SelectOp ops startIndex patternSize) := by
  unfold createGemma4SelectOp
  refine (keepsOps_orUndefined _).bind fun firstOp => ?_
  refine (keepsOps_orUndefined _).bind fun lastOp => ?_
  refine (keepsOps_orUndefined _).bind fun mulOp => ?_
  refine (keepsOps_getInputTensor firstOp 0).bind fun patternInput => ?_
  refine (keepsOps_getTensor patternInput).bind fun inputTensor => ?_
  refine (keepsOps_getOutputTensor lastOp 0).bind fun patternOutput => ?_
  refine (keepsOps_getTensor patternOutput).bind fun outputTensor => ?_
  refine (keepsOps_getInputTensor mulOp 1).bind fun mulStaticTensor => ?_
  refine (keepsOps_getTensor mulStaticTensor).bind fun staticTensor => ?_
  cases staticTensor.getFloatData with
  | none => exact keepsOps_pure _
  | some staticTensorData =>
    refine keepsOps_ite ?_ (keepsOps_pure _)
    exact (keepsOps_createStaticTensor _ _ _).bind fun input1 =>
      (keepsOps_createStaticTensor _ _ _).bind fun input2 => keepsOps_pure _

theorem keepsOps_createSelectOp (ops : List OpWrapper) (startIndex patternSize : Nat)
    (op2 op3 : OpWrapper) : KeepsOps (createSelectOp ops startIndex patternSize op2 op3) :=
  keepsOps_ite (keepsOps_createGemma4SelectOp ops startIndex patternSize)
    (keepsOps_ite (keepsOps_createGemma3SelectOp ops startIndex patternSize) (keepsOps_pure none))

/-! ### Heads of attention -/

theorem keepsOps_buildSplitOp (axisTensor input : Nat) (outputs : List Nat) (numSplits : Nat) :
    KeepsOps (buildSplitOp axisTensor input outputs numSplits) := by
  unfold buildSplitOp
  refine (keepsOps_getTensor axisTensor).bind fun axisTensor => ?_
  refine keepsOps_ite ?_ (keepsOps_pure [])
  refine (keepsOps_getTensor input).bind fun inputTensor => ?_
  cases axisTensor.getInt32Data with
  | none => exact keepsOps_pure []
  | some axisData =>
    refine (keepsOps_orUndefined _).bind fun dimension => ?_
    refine keepsOps_ite (keepsOps_throw _) ?_
    exact (keepsOps_createStaticTensor _ _ _).bind fun _ => keepsOps_pure _

theorem keepsOps_splitOutputs (tensor i numHeads n : Nat) :
    KeepsOps (splitOutputs tensor i numHeads n) := by
  induction n with
  | zero => exact keepsOps_pure []
  | succ n ih =>
    refine (keepsOps_getTensor tensor).bind fun input => ?_
    refine (keepsOps_divideDimension _ _ _).bind fun dimensions => ?_
    refine (keepsOps_cloneNativeTensorFrom _ _).bind fun output => ?_
    exact ih.bind fun outputs => keepsOps_pure _

theorem keepsOps_buildSingleSha (newOps : List OpWrapper) (shaInput maskInput : Nat)
    (mulOp matmulOp1 addOp softmaxOp matmulOp2 : OpWrapper) (numHeads : Nat) :
    KeepsOps (buildSingleSha newOps shaInput maskInput mulOp matmulOp1 addOp softmaxOp matmulOp2
      numHeads) := by
  unfold buildSingleSha
  refine (keepsOps_getOutputTensor mulOp 0).bind fun mulOut => ?_
  refine (keepsOps_getTensor shaInput).bind fun shaTensor => ?_
  refine (keepsOps_cloneNativeTensorFrom _ _).bind fun mulOutput => ?_
  refine (keepsOps_getOutputTensor matmulOp1 0).bind fun matmulOp1Output => ?_
  refine (keepsOps_getTensor matmulOp1Output).bind fun matmulTensor1 => ?_
  refine (keepsOps_divideDimension _ _ _).bind fun newMatmul1OutputDim => ?_
  refine (keepsOps_cloneNativeTensorFrom _ _).bind fun newMatmul1Output => ?_
  refine (keepsOps_getOutputTensor addOp 0).bind fun addOut => ?_
  refine (keepsOps_cloneNativeTensorFrom _ _).bind fun newAddOutput => ?_
  refine (keepsOps_getOutputTensor softmaxOp 0).bind fun softmaxOut => ?_
  refine (keepsOps_getTensor newAddOutput).bind fun addTensor => ?_
  refine (keepsOps_cloneNativeTensorFrom _ _).bind fun softmaxOutput => ?_
  refine (keepsOps_getOutputTensor matmulOp2 0).bind fun matmulOp2Out => ?_
  refine (keepsOps_getTensor matmulOp2Out).bind fun matmulTensor2 => ?_
  refine (keepsOps_divideDimension _ _ _).bind fun matmulOp2OutDim => ?_
  exact (keepsOps_cloneNativeTensorFrom _ _).bind fun newMatmul2Output => keepsOps_pure _

theorem keepsOps_buildShas (mulOp matmulOp1 addOp softmaxOp matmulOp2 : OpWrapper) (numHeads : Nat)
    (heads : List (Nat × Nat)) (newOps : List OpWrapper) :
    KeepsOps (buildShas mulOp matmulOp1 addOp softmaxOp matmulOp2 numHeads heads newOps) := by
  induction heads generalizing newOps with
  | nil => exact keepsOps_pure _
  | cons p heads ih =>
    refine (keepsOps_buildSingleSha _ _ _ _ _ _ _ _ _).bind fun sha => ?_
    exact (ih sha.2).bind fun shas => keepsOps_pure _

theorem keepsOps_mha2Sha (mulOp transposeOp1 matmulOp1 addOp softmaxOp matmulOp2 : OpWrapper)
    (patternInput patternOutput : Nat) : KeepsOps (mha2Sha mulOp transposeOp1 matmulOp1 addOp
      softmaxOp matmulOp2 patternInput patternOutput) := by
  unfold mha2Sha
  refine (keepsOps_getOutputTensor transposeOp1 0).bind fun transposeOut => ?_
  refine (keepsOps_getTensor transposeOut).bind fun transposeTensor => ?_
  refine (keepsOps_cloneNativeTensorFrom _ _).bind fun transposeOutput => ?_
  refine (keepsOps_getTensor patternInput).bind fun inputTensor => ?_
  refine (keepsOps_orUndefined _).bind fun numHeads => ?_
  refine (keepsOps_getOutputTensor _ 0).bind fun mhaInput => ?_
  refine (keepsOps_splitOutputs _ _ _ _).bind fun shaInputs => ?_
  refine (keepsOps_createStaticTensor _ _ _).bind fun splitAxis => ?_
  refine (keepsOps_buildSplitOp _ _ _ _).bind fun splitOp => ?_
  refine (keepsOps_getInputTensor addOp 1).bind fun maskInput => ?_
  refine (keepsOps_splitOutputs _ _ _ _).bind fun newMaskInputs => ?_
  refine (keepsOps_createStaticTensor _ _ _).bind fun maskSplitAxis => ?_
  refine (keepsOps_buildSplitOp _ _ _ _).bind fun maskSplitOp => ?_
  refine (keepsOps_buildShas _ _ _ _ _ _ _ _).bind fun shas => ?_
  refine (keepsOps_getTensor patternOutput).bind fun outputTensor => ?_
  exact (keepsOps_cloneNativeTensorFrom _ _).bind fun concatOutput => keepsOps_pure _

/-! ### Heads of attention over a cache -/

theorem keepsOps_allConnected (connections : List (OpWrapper × Nat × OpWrapper × Nat)) :
    KeepsOps (allConnected connections) := by
  induction connections with
  | nil => exact keepsOps_pure true
  | cons c connections ih =>
    refine (keepsOps_getOutputTensor _ _).bind fun output => ?_
    refine (keepsOps_getInputTensor _ _).bind fun input => ?_
    exact keepsOps_ite ih (keepsOps_pure false)

theorem keepsOps_eraseDimension (dimensions : List Nat) (i : Nat) :
    KeepsOps (eraseDimension dimensions i) :=
  keepsOps_ite (keepsOps_pure _) (keepsOps_throw _)

theorem keepsOps_cloneNativeTensors (src : Nat) (dimensions : List Nat) (n : Nat) :
    KeepsOps (cloneNativeTensors src dimensions n) := by
  induction n with
  | zero => exact keepsOps_pure []
  | succ n ih =>
    refine (keepsOps_cloneNativeTensorFrom src dimensions).bind fun output => ?_
    exact ih.bind fun outputs => keepsOps_pure _

theorem keepsOps_unpackTensor (newOps : List OpWrapper) (input unpackDims : Nat) :
    KeepsOps (unpackTensor newOps input unpackDims) := by
  refine (keepsOps_getTensor input).bind fun tensor => ?_
  refine (keepsOps_orUndefined _).bind fun numUnpack => ?_
  refine (keepsOps_eraseDimension _ _).bind fun inputDims => ?_
  exact (keepsOps_cloneNativeTensors _ _ _).bind fun outputs => keepsOps_pure _

theorem keepsOps_dropHeads (op : OpWrapper) : KeepsOps (dropHeads op) := by
  refine (keepsOps_getOutputTensor op 0).bind fun output => ?_
  refine (keepsOps_getTensor output).bind fun tensor => ?_
  exact (keepsOps_eraseDimension _ _).bind fun dimensions => keepsOps_pure _

theorem keepsOps_cloneForHead (op : OpWrapper) (n : Nat) : KeepsOps (cloneForHead op n) := by
  refine (keepsOps_dropHeads op).bind fun source => ?_
  exact (keepsOps_divideDimension _ _ _).bind fun dimensions => keepsOps_cloneNativeTensorFrom _ _

theorem keepsOps_sliceForHead (slice : OpWrapper) (input n : Nat) :
    KeepsOps (sliceForHead slice input n) := by
  unfold sliceForHead rangesForHead
  refine KeepsOps.bind ?_ fun ranges =>
    (keepsOps_cloneForHead slice n).bind fun output => keepsOps_pure _
  refine (keepsOps_orUndefined _).bind fun param => ?_
  refine (keepsOps_getTensor param).bind fun paramTensor => ?_
  refine (keepsOps_orUndefined _).bind fun paramData => ?_
  refine keepsOps_ite (keepsOps_throw _) ?_
  refine (keepsOps_orUndefined _).bind fun range => ?_
  exact keepsOps_ite (keepsOps_throw _) (keepsOps_createStaticTensor _ _ _)

theorem keepsOps_buildSingleShaByUnpackAxis1 (newOps : List OpWrapper) (n : Nat) (head : KvHead)
    (ops : KvAttention) : KeepsOps (buildSingleShaByUnpackAxis1 newOps n head ops) := by
  unfold buildSingleShaByUnpackAxis1
  refine (keepsOps_dropHeads _).bind fun mulSource => ?_
  refine (keepsOps_cloneNativeTensorFrom _ _).bind fun mulOutput => ?_
  refine (keepsOps_cloneForHead _ n).bind fun qKcacheOutput => ?_
  refine (keepsOps_cloneForHead _ n).bind fun qKsliceOutput => ?_
  refine (keepsOps_cloneForHead _ n).bind fun concatOutput => ?_
  refine (keepsOps_getOutputTensor _ 0).bind fun maskAddOut => ?_
  refine (keepsOps_getTensor maskAddOut).bind fun maskAddTensor => ?_
  refine keepsOps_ite (keepsOps_throw _) ?_
  refine (keepsOps_cloneNativeTensorFrom _ _).bind fun maskAddOutput => ?_
  refine (keepsOps_cloneForHead _ n).bind fun reshapeOutput => ?_
  refine (keepsOps_cloneForHead _ n).bind fun softmaxOutput => ?_
  refine (keepsOps_sliceForHead _ _ n).bind fun vcacheSlice => ?_
  refine (keepsOps_sliceForHead _ _ n).bind fun vsliceSlice => ?_
  refine (keepsOps_cloneForHead _ n).bind fun vcacheOutput => ?_
  refine (keepsOps_cloneForHead _ n).bind fun vsliceOutput => ?_
  exact (keepsOps_cloneForHead _ n).bind fun addOutput => keepsOps_pure _

theorem keepsOps_buildKvShas (heads : KvHeads) (ops : KvAttention) (n : Nat)
    (places : List (Nat × Nat)) (newOps : List OpWrapper) :
    KeepsOps (buildKvShas heads ops n places newOps) := by
  induction places generalizing newOps with
  | nil => exact keepsOps_pure _
  | cons p places ih =>
    refine (keepsOps_orUndefined _).bind fun scaleMulInput => ?_
    refine (keepsOps_orUndefined _).bind fun kCache => ?_
    refine (keepsOps_orUndefined _).bind fun kSlice => ?_
    refine (keepsOps_orUndefined _).bind fun vCache => ?_
    refine (keepsOps_orUndefined _).bind fun vSlice => ?_
    refine (keepsOps_buildSingleShaByUnpackAxis1 _ n _ ops).bind fun sha => ?_
    exact (ih sha.2).bind fun shas => keepsOps_pure _

theorem keepsOps_buildKvSwapped (ops : KvAttention) (lastOp : OpWrapper) :
    KeepsOps (buildKvSwapped ops lastOp) := by
  unfold buildKvSwapped
  refine (keepsOps_getInputTensor _ 1).bind fun kCacheInput => ?_
  refine (keepsOps_unpackTensor _ _ 1).bind fun kCache => ?_
  refine (keepsOps_getInputTensor _ 1).bind fun kSliceInput => ?_
  refine (keepsOps_unpackTensor _ _ 1).bind fun kSlice => ?_
  refine (keepsOps_getInputTensor _ 0).bind fun scaleMulIn => ?_
  refine (keepsOps_unpackTensor _ _ 1).bind fun scaleMul => ?_
  refine (keepsOps_getInputTensor _ 1).bind fun vCacheInput => ?_
  refine (keepsOps_unpackTensor _ _ 1).bind fun vCache => ?_
  refine (keepsOps_getInputTensor _ 1).bind fun vSliceInput => ?_
  refine (keepsOps_unpackTensor _ _ 1).bind fun vSlice => ?_
  refine keepsOps_ite (keepsOps_throw _) (keepsOps_ite ?_ (keepsOps_pure []))
  refine (keepsOps_buildKvShas _ ops _ _ _).bind fun shas => ?_
  exact (keepsOps_getOutputTensor lastOp 0).bind fun patternOutput => keepsOps_pure _

end LiteRt.Qnn
