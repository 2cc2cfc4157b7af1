import LiteRt.Qnn.UntouchedOps

/-!
# Rewrites that are not installed

A rewrite proposes ops for the place of its pattern, unless a precondition fails or the validator
rejects one of them. Where there is no proposal the ops are as before, with the exception of the
fusion for the prefill pattern, which swaps the outputs of other ops when it rolls back.
-/

namespace LiteRt.Qnn

open LiteRt.Lib G2G

variable {validate : Nat → OpWrapper → Bool} {g g₁ : Graph}

/-- The ops are proposed if the validator accepts all of them. -/
def proposeAll (validate : Nat → OpWrapper → Bool) (newOps : List OpWrapper) :
    G2G (Option (List OpWrapper)) := do
  if newOps.isEmpty then
    pure none
  else
    let valid ← validateAll validate newOps
    pure (if valid then some newOps else none)

/-- A matmul op with the outputs of the convert op, and the ops between them. -/
def proposeFusion (convert : Nat) (validate : Nat → OpWrapper → Bool) (startIndex : Nat) :
    G2G (Option (List OpWrapper)) := do
  let g ← get
  let matMul ← orUndefined g.ops[startIndex]?
  let convertOp ← orUndefined g.ops[startIndex + convert]?
  let output ← getOutputTensor matMul 0
  let input ← getInputTensor convertOp 0
  if output ≠ input then
    pure none
  else
    let fused := { matMul with outputs := convertOp.outputs }
    let valid ← validateOpConfig validate fused
    pure (if valid then some (fused :: (g.ops.drop (startIndex + 1)).take (convert - 1)) else none)

def proposeSelect (validate : Nat → OpWrapper → Bool) (startIndex patternSize : Nat) :
    G2G (Option (List OpWrapper)) := do
  let g ← get
  let op0 ← orUndefined g.ops[startIndex]?
  let op1 ← orUndefined g.ops[startIndex + 1]?
  let op2 ← orUndefined g.ops[startIndex + 2]?
  let op3 ← orUndefined g.ops[startIndex + 3]?
  let connected ← isChain [op0, op1, op2, op3]
  if !connected then
    pure none
  else if !isElementWiseNot op0 then
    pure none
  else
    let select ← createSelectOp g.ops startIndex patternSize op2 op3
    proposeAll validate select.toList

def proposeShas (validate : Nat → OpWrapper → Bool) (startIndex : Nat) :
    G2G (Option (List OpWrapper)) := do
  let g ← get
  let mulOp ← orUndefined g.ops[startIndex]?
  let transposeOp1 ← orUndefined g.ops[startIndex + 1]?
  let reshapeOp1 ← orUndefined g.ops[startIndex + 2]?
  let matmulOp1 ← orUndefined g.ops[startIndex + 3]?
  let addOp ← orUndefined g.ops[startIndex + 4]?
  let softmaxOp ← orUndefined g.ops[startIndex + 5]?
  let matmulOp2 ← orUndefined g.ops[startIndex + 6]?
  let reshapeOp2 ← orUndefined g.ops[startIndex + 7]?
  let transposeOp2 ← orUndefined g.ops[startIndex + 8]?
  let reshapeOp3 ← orUndefined g.ops[startIndex + 9]?
  let connected ← isChain [mulOp, transposeOp1, reshapeOp1, matmulOp1, addOp, softmaxOp,
    matmulOp2, reshapeOp2, transposeOp2, reshapeOp3]
  let isMatch := connected && isElementWiseMultiply mulOp && isElementWiseAdd addOp
  if !isMatch then
    pure none
  else
    let patternInput ← getInputTensor mulOp 0
    let patternOutput ← getOutputTensor reshapeOp3 0
    let newOps ← mha2Sha mulOp transposeOp1 matmulOp1 addOp softmaxOp matmulOp2 patternInput
      patternOutput
    proposeAll validate newOps

def proposeKvSwapped (validate : Nat → OpWrapper → Bool) (startIndex patternSize : Nat) :
    G2G (Option (List OpWrapper)) := do
  let g ← get
  match (g.ops.drop startIndex).take 17 with
  | [qScaleMul, qScaleReshape, qkCacheMatmul, qkSliceMatmul, qkConcat, preMaskReshape, maskAdd,
      postMaskReshape, softmax, qkvCacheSlice, qkvSliceSlice, qkvCacheMatmul, qkvSliceMatmul,
      qkvAdd, qkvReshape, qkvTranspose, oProjReshape] =>
    let connected ← allConnected [
      (qScaleMul, 0, qScaleReshape, 0), (qScaleReshape, 0, qkCacheMatmul, 0),
      (qScaleReshape, 0, qkSliceMatmul, 0), (qkCacheMatmul, 0, qkConcat, 0),
      (qkSliceMatmul, 0, qkConcat, 1), (qkConcat, 0, preMaskReshape, 0),
      (preMaskReshape, 0, maskAdd, 0), (maskAdd, 0, postMaskReshape, 0),
      (postMaskReshape, 0, softmax, 0), (softmax, 0, qkvCacheSlice, 0),
      (softmax, 0, qkvSliceSlice, 0), (qkvCacheSlice, 0, qkvCacheMatmul, 0),
      (qkvSliceSlice, 0, qkvSliceMatmul, 0), (qkvCacheMatmul, 0, qkvAdd, 0),
      (qkvSliceMatmul, 0, qkvAdd, 1), (qkvAdd, 0, qkvReshape, 0),
      (qkvReshape, 0, qkvTranspose, 0), (qkvTranspose, 0, oProjReshape, 0)]
    if !connected then
      pure none
    else
      let lastOp ← orUndefined g.ops[startIndex + patternSize - 1]?
      let newOps ← buildKvSwapped ⟨qScaleMul, qkCacheMatmul, qkSliceMatmul, qkConcat, maskAdd,
        postMaskReshape, softmax, qkvCacheSlice, qkvSliceSlice, qkvCacheMatmul, qkvSliceMatmul,
        qkvAdd⟩ lastOp
      proposeAll validate newOps
  | _ => throw .undefined

/-- A proposal takes the place of the pattern. -/
def install (startIndex patternSize : Nat) (skip : List OpWrapper → Nat) :
    Option (List OpWrapper) → G2G Nat
  | none => pure 1
  | some newOps => do
    modify fun g => { g with
      ops := g.ops.take startIndex ++ newOps ++ g.ops.drop (startIndex + patternSize) }
    pure (skip newOps)

theorem transformQuantizeInMask_eq (validate : Nat → OpWrapper → Bool) (p k : Nat) :
    transformQuantizeInMask validate p k =
      (proposeSelect validate p k >>= install p k fun _ => 1) := by
  unfold transformQuantizeInMask proposeSelect
  simp only [bind_assoc]
  refine bind_congr fun g => ?_
  refine bind_congr fun op0 => bind_congr fun op1 => bind_congr fun op2 => bind_congr fun op3 => ?_
  refine bind_congr fun connected => ?_
  cases connected with
  | false => rfl
  | true =>
    cases isElementWiseNot op0 with
    | false => rfl
    | true =>
      simp only [Bool.not_true, Bool.false_eq_true, if_false, bind_assoc]
      refine bind_congr fun select => ?_
      cases select with
      | none => rfl
      | some select =>
        simp only [proposeAll, Option.toList_some, List.isEmpty_cons, Bool.false_eq_true, if_false,
          validateAll, bind_assoc]
        refine bind_congr fun valid => ?_
        cases valid <;> rfl

theorem transformEmbeddingGemma_eq (validate : Nat → OpWrapper → Bool) (p k : Nat) :
    transformEmbeddingGemma validate p k =
      (proposeShas validate p >>= install p k List.length) := by
  unfold transformEmbeddingGemma proposeShas
  simp only [bind_assoc]
  refine bind_congr fun g => ?_
  refine bind_congr fun op0 => bind_congr fun op1 => bind_congr fun op2 => bind_congr fun op3 => ?_
  refine bind_congr fun op4 => bind_congr fun op5 => bind_congr fun op6 => bind_congr fun op7 => ?_
  refine bind_congr fun op8 => bind_congr fun op9 => bind_congr fun connected => ?_
  cases connected && isElementWiseMultiply op0 && isElementWiseAdd op4 with
  | false => rfl
  | true =>
    simp only [Bool.not_true, Bool.false_eq_true, if_false, bind_assoc]
    refine bind_congr fun input => bind_congr fun output => bind_congr fun newOps => ?_
    unfold proposeAll
    cases newOps.isEmpty with
    | true => rfl
    | false =>
      simp only [Bool.false_eq_true, if_false, bind_assoc]
      refine bind_congr fun valid => ?_
      cases valid <;> rfl

theorem optimizeKvSwappedFastVlmPrefill_eq (validate : Nat → OpWrapper → Bool) (p k : Nat) :
    optimizeKvSwappedFastVlmPrefill validate p k =
      (proposeKvSwapped validate p k >>= install p k List.length) := by
  unfold optimizeKvSwappedFastVlmPrefill proposeKvSwapped
  rw [bind_assoc]
  refine bind_congr fun g => ?_
  generalize (g.ops.drop p).take 17 = window
  split
  · simp only [bind_assoc]
    refine bind_congr fun connected => ?_
    cases connected with
    | false => rfl
    | true =>
      simp only [Bool.not_true, Bool.false_eq_true, if_false, bind_assoc]
      refine bind_congr fun lastOp => bind_congr fun newOps => ?_
      unfold proposeAll
      cases newOps.isEmpty with
      | true => rfl
      | false =>
        simp only [Bool.false_eq_true, if_false, bind_assoc]
        refine bind_congr fun valid => ?_
        cases valid <;> rfl
  · first
    | rfl
    | split
      · rename_i hother
        exact (hother _ _ _ _ _ _ _ _ _ _ _ _ _ _ _ _ _ rfl).elim
      · rfl

/-! ## Proposals do not touch the ops -/

theorem keepsOps_proposeAll (validate : Nat → OpWrapper → Bool) (newOps : List OpWrapper) :
    KeepsOps (proposeAll validate newOps) := by
  refine keepsOps_ite (keepsOps_pure none) ?_
  exact (keepsOps_validateAll validate newOps).bind fun valid => keepsOps_pure _

theorem keepsOps_proposeSelect (validate : Nat → OpWrapper → Bool) (p k : Nat) :
    KeepsOps (proposeSelect validate p k) := by
  refine keepsOps_get fun g => ?_
  refine (keepsOps_orUndefined _).bind fun op0 => ?_
  refine (keepsOps_orUndefined _).bind fun op1 => ?_
  refine (keepsOps_orUndefined _).bind fun op2 => ?_
  refine (keepsOps_orUndefined _).bind fun op3 => ?_
  refine (keepsOps_isChain _).bind fun connected => ?_
  refine keepsOps_ite (keepsOps_pure none) (keepsOps_ite (keepsOps_pure none) ?_)
  refine (keepsOps_createSelectOp _ _ _ _ _).bind fun select => ?_
  exact keepsOps_proposeAll validate _

theorem keepsOps_proposeShas (validate : Nat → OpWrapper → Bool) (p : Nat) :
    KeepsOps (proposeShas validate p) := by
  refine keepsOps_get fun g => ?_
  refine (keepsOps_orUndefined _).bind fun op0 => ?_
  refine (keepsOps_orUndefined _).bind fun op1 => ?_
  refine (keepsOps_orUndefined _).bind fun op2 => ?_
  refine (keepsOps_orUndefined _).bind fun op3 => ?_
  refine (keepsOps_orUndefined _).bind fun op4 => ?_
  refine (keepsOps_orUndefined _).bind fun op5 => ?_
  refine (keepsOps_orUndefined _).bind fun op6 => ?_
  refine (keepsOps_orUndefined _).bind fun op7 => ?_
  refine (keepsOps_orUndefined _).bind fun op8 => ?_
  refine (keepsOps_orUndefined _).bind fun op9 => ?_
  refine (keepsOps_isChain _).bind fun connected => ?_
  refine keepsOps_ite (keepsOps_pure none) ?_
  refine (keepsOps_getInputTensor _ 0).bind fun patternInput => ?_
  refine (keepsOps_getOutputTensor _ 0).bind fun patternOutput => ?_
  refine (keepsOps_mha2Sha _ _ _ _ _ _ _ _).bind fun newOps => ?_
  exact keepsOps_proposeAll validate newOps

theorem keepsOps_proposeKvSwapped (validate : Nat → OpWrapper → Bool) (p k : Nat) :
    KeepsOps (proposeKvSwapped validate p k) := by
  refine keepsOps_get fun g => ?_
  split
  · refine (keepsOps_allConnected _).bind fun connected => ?_
    refine keepsOps_ite (keepsOps_pure none) ?_
    refine (keepsOps_orUndefined _).bind fun lastOp => ?_
    refine (keepsOps_buildKvSwapped _ lastOp).bind fun newOps => ?_
    exact keepsOps_proposeAll validate newOps
  · exact keepsOps_throw _

/-- A rewrite without a proposal is over, with the ops that there were before. -/
theorem restored_of_install {x : G2G (Option (List OpWrapper))} (hx : KeepsOps x) {y : G2G Nat}
    {p k : Nat} {skip : List OpWrapper → Nat} (hy : y = (x >>= install p k skip))
    (h : x g = .ok none g₁) : ∃ skip' g', y g = .ok skip' g' ∧ g'.ops = g.ops := by
  rw [hy]
  exact ⟨1, g₁, bind_ok_eq h, hx.ops h⟩

/-! ## Fusions -/

/-- There is no fusion of ops that are not connected, or if the validator rejects it. -/
theorem proposeFusion_none {convert p : Nat}
    (h : proposeFusion convert validate p g = .ok none g₁) :
    ∃ matMul convertOp output input, g.ops[p]? = some matMul ∧
      g.ops[p + convert]? = some convertOp ∧ matMul.outputs[0]? = some output ∧
      convertOp.inputs[0]? = some input ∧
      (output = input → validate g.calls { matMul with outputs := convertOp.outputs } = false) := by
  unfold proposeFusion at h
  rw [get_bind_eq] at h
  cases hm : g.ops[p]? with
  | none =>
    rw [hm] at h
    cases h
  | some matMul =>
    cases hc : g.ops[p + convert]? with
    | none =>
      rw [hm, hc] at h
      cases h
    | some convertOp =>
      simp only [hm, hc, orUndefined, pure_bind, getOutputTensor, getInputTensor] at h
      cases hout : matMul.outputs[0]? with
      | none =>
        rw [hout] at h
        cases h
      | some output =>
        cases hin : convertOp.inputs[0]? with
        | none =>
          rw [hout, hin] at h
          cases h
        | some input =>
          refine ⟨matMul, convertOp, output, input, rfl, rfl, hout, hin, fun heq => ?_⟩
          simp only [hout, hin, pure_bind, if_neg (not_not.2 heq)] at h
          cases hv : validate g.calls { matMul with outputs := convertOp.outputs } with
          | false => rfl
          | true =>
            have hrun : validateOpConfig validate { matMul with outputs := convertOp.outputs } g =
                .ok true { g with calls := g.calls + 1 } := by
              rw [← hv]
              rfl
            rw [bind_ok_eq hrun] at h
            cases h

/-- A rejected fusion for the prefill pattern swaps outputs back with those of the second op. The
ops are as before if all three of them have the same outputs. -/
structure SwapsBack (validate : Nat → OpWrapper → Bool) (g : Graph) (p : Nat) : Prop where
  outputs : ∀ (matMul second convertOp : OpWrapper) (t : Nat), g.ops[p]? = some matMul →
    g.ops[p + 1]? = some second → g.ops[p + 2]? = some convertOp →
    matMul.outputs[0]? = some t → convertOp.inputs[0]? = some t →
    validate g.calls { matMul with outputs := convertOp.outputs } = false →
    matMul.outputs = second.outputs ∧ second.outputs = convertOp.outputs

theorem swapOutputs_back {a c b : OpWrapper} :
    swapOutputs (swapOutputs [a, c, b] 0 2) 0 1 = [a, c, b] ↔
      a.outputs = c.outputs ∧ c.outputs = b.outputs := by
  have hswapped : swapOutputs (swapOutputs [a, c, b] 0 2) 0 1 =
      [{ a with outputs := c.outputs }, { c with outputs := b.outputs },
        { b with outputs := a.outputs }] := rfl
  rw [hswapped]
  constructor
  · intro h
    simp only [List.cons.injEq, and_true] at h
    exact ⟨(congrArg OpWrapper.outputs h.1).symm, (congrArg OpWrapper.outputs h.2.1).symm⟩
  · rintro ⟨hac, hcb⟩
    cases a
    cases c
    cases b
    obtain rfl : _ = _ := hac
    obtain rfl : _ = _ := hcb
    rfl

/-- The rewrites, by the functions that make them. -/
inductive Rewrite
  | fuseMatMulConvertDecode
  | fuseMatMulConvertPrefill
  | transformQuantizeInMask (gemma4 : Bool)
  | transformEmbeddingGemma
  | optimizeKvSwappedFastVlmPrefill
  deriving DecidableEq, Repr

/-- Two matmul ops, and a convert op that reads what the first one writes. -/
def prefillGraph : Graph where
  ops := [{ opCode := .matMul, inputs := [0, 1], outputs := [2] },
    { opCode := .matMul, inputs := [0, 1], outputs := [3] },
    { opCode := .convert, inputs := [2], outputs := [4] }]
  pool := [{ type := .appWrite, dimensions := [1, 1] }, { type := .static, dimensions := [1, 1] },
    { type := .native, dimensions := [1, 1] }, { type := .appRead, dimensions := [1, 1] },
    { type := .appRead, dimensions := [1, 1] }]

namespace Rewrite

variable {g : Graph} {p : Nat}

def patternOps : Rewrite → List QnnOpCode
  | fuseMatMulConvertDecode => matMulConvertDecode
  | fuseMatMulConvertPrefill => matMulConvertPrefill
  | transformQuantizeInMask gemma4 => if gemma4 then gemma4Mask else gemma3Mask
  | transformEmbeddingGemma => embeddingGemma
  | optimizeKvSwappedFastVlmPrefill => kvSwappedFastVlmPrefill

def customTransform (validate : Nat → OpWrapper → Bool) : Rewrite → CustomTransform
  | fuseMatMulConvertDecode => Qnn.fuseMatMulConvertDecode validate
  | fuseMatMulConvertPrefill => Qnn.fuseMatMulConvertPrefill validate
  | transformQuantizeInMask _ => Qnn.transformQuantizeInMask validate
  | transformEmbeddingGemma => Qnn.transformEmbeddingGemma validate
  | optimizeKvSwappedFastVlmPrefill => Qnn.optimizeKvSwappedFastVlmPrefill validate

/-- The ops for the place of the pattern, if no precondition fails and the validator accepts
them. -/
def propose (validate : Nat → OpWrapper → Bool) (rewrite : Rewrite) (p : Nat) :
    G2G (Option (List OpWrapper)) :=
  match rewrite with
  | fuseMatMulConvertDecode => proposeFusion 1 validate p
  | fuseMatMulConvertPrefill => proposeFusion 2 validate p
  | transformQuantizeInMask _ => proposeSelect validate p rewrite.patternOps.length
  | transformEmbeddingGemma => proposeShas validate p
  | optimizeKvSwappedFastVlmPrefill => proposeKvSwapped validate p rewrite.patternOps.length

/-- Where there is no proposal, the function returns with the ops as they were. -/
def Restores (validate : Nat → OpWrapper → Bool) (rewrite : Rewrite) (g : Graph) (p : Nat) :
    Prop :=
  ∀ g₁, rewrite.propose validate p g = .ok none g₁ →
    ∃ skip g', rewrite.customTransform validate p rewrite.patternOps.length g = .ok skip g' ∧
      g'.ops = g.ops

theorem restores_decode (h : MatchedAt g.ops matMulConvertDecode p) :
    fuseMatMulConvertDecode.Restores validate g p := by
  intro g₁ hnone
  obtain ⟨matMul, convertOp, output, input, hm, hc, hout, hin, hreject⟩ :=
    proposeFusion_none hnone
  obtain ⟨pre, old, post, hops, rfl, hcodes⟩ := h.split
  obtain ⟨a, rest, rfl, -, hrest⟩ := List.map_eq_cons_iff.1 hcodes
  obtain ⟨b, rest, rfl, -, hrest⟩ := List.map_eq_cons_iff.1 hrest
  obtain rfl := List.map_eq_nil_iff.1 hrest
  have ha : g.ops[pre.length]? = some a := by
    rw [hops]
    exact getElem?_old (i := 0) (by simp)
  have hb : g.ops[pre.length + 1]? = some b := by
    rw [hops]
    exact getElem?_old (by simp)
  obtain rfl : matMul = a := Option.some.inj (hm.symm.trans ha)
  obtain rfl : convertOp = b := Option.some.inj (hc.symm.trans hb)
  have hrun := @fuseMatMulConvert_eq validate pre post g [matMul, convertOp] 1 1
    matMulConvertDecode.length matMul convertOp convertOp output input hops rfl rfl rfl hout hin
    Nat.one_pos
  refine ⟨1, _, hrun, ?_⟩
  by_cases heq : output = input
  · rw [if_neg (not_not.2 heq), hreject heq]
    exact hops.symm
  · rw [if_pos heq]

theorem restores_prefill_iff (h : MatchedAt g.ops matMulConvertPrefill p) :
    fuseMatMulConvertPrefill.Restores validate g p ↔ SwapsBack validate g p := by
  obtain ⟨pre, old, post, hops, rfl, hcodes⟩ := h.split
  obtain ⟨a, rest, rfl, -, hrest⟩ := List.map_eq_cons_iff.1 hcodes
  obtain ⟨c, rest, rfl, -, hrest⟩ := List.map_eq_cons_iff.1 hrest
  obtain ⟨b, rest, rfl, -, hrest⟩ := List.map_eq_cons_iff.1 hrest
  obtain rfl := List.map_eq_nil_iff.1 hrest
  have ha : g.ops[pre.length]? = some a := by
    rw [hops]
    exact getElem?_old (i := 0) (by simp)
  have hc : g.ops[pre.length + 1]? = some c := by
    rw [hops]
    exact getElem?_old (by simp)
  have hb : g.ops[pre.length + 2]? = some b := by
    rw [hops]
    exact getElem?_old (by simp)
  have hrun (output input : Nat) (hout : a.outputs[0]? = some output)
      (hin : b.inputs[0]? = some input) :=
    @fuseMatMulConvert_eq validate pre post g [a, c, b] 2 1 matMulConvertPrefill.length a b c
      output input hops rfl rfl rfl hout hin Nat.two_pos
  constructor
  · refine fun hrestores => ⟨fun matMul second convertOp t hm hs hv hout hin hreject => ?_⟩
    obtain rfl : a = matMul := Option.some.inj (ha.symm.trans hm)
    obtain rfl : c = second := Option.some.inj (hc.symm.trans hs)
    obtain rfl : b = convertOp := Option.some.inj (hb.symm.trans hv)
    have hnone : proposeFusion 2 validate pre.length g = .ok none { g with calls := g.calls + 1 } := by
      unfold proposeFusion
      rw [get_bind_eq]
      simp only [ha, hb, orUndefined, pure_bind, getOutputTensor, getInputTensor, hout, hin,
        if_neg (not_not.2 rfl)]
      have hcall : validateOpConfig validate { a with outputs := b.outputs } g =
          .ok false { g with calls := g.calls + 1 } := by
        rw [← hreject]
        rfl
      rw [bind_ok_eq hcall]
      rfl
    obtain ⟨skip, g', hrun', hsame⟩ := hrestores _ hnone
    cases hrun'.symm.trans (hrun t t hout hin)
    rw [if_neg (not_not.2 rfl), hreject] at hsame
    rw [hops] at hsame
    exact swapOutputs_back.1 (List.append_cancel_left (List.append_cancel_right hsame))
  · intro hback g₁ hnone
    obtain ⟨matMul, convertOp, output, input, hm, hv, hout, hin, hreject⟩ :=
      proposeFusion_none hnone
    obtain rfl : a = matMul := Option.some.inj (ha.symm.trans hm)
    obtain rfl : b = convertOp := Option.some.inj (hb.symm.trans hv)
    refine ⟨1, _, hrun output input hout hin, ?_⟩
    by_cases heq : output = input
    · subst heq
      have houtputs := hback.outputs a c b output ha hc hb hout hin (hreject rfl)
      rw [if_neg (not_not.2 rfl), hreject rfl]
      change pre ++ swapOutputs (swapOutputs [a, c, b] 0 2) 0 1 ++ post = g.ops
      rw [swapOutputs_back.2 houtputs, hops]
    · rw [if_pos heq]

/-- All rewrites but the fusion for the prefill pattern leave the ops as they were if they are not
installed, and that one exactly if its swaps are undone. -/
theorem restores_iff (rewrite : Rewrite) (validate : Nat → OpWrapper → Bool) {g : Graph} {p : Nat}
    (h : MatchedAt g.ops rewrite.patternOps p) :
    rewrite.Restores validate g p ↔
      (rewrite = fuseMatMulConvertPrefill → SwapsBack validate g p) := by
  cases rewrite with
  | fuseMatMulConvertDecode => exact iff_of_true (restores_decode h) (fun hne => nomatch hne)
  | fuseMatMulConvertPrefill =>
    rw [restores_prefill_iff h]
    exact ⟨fun hback _ => hback, fun hback => hback rfl⟩
  | transformQuantizeInMask gemma4 =>
    refine iff_of_true (fun g₁ hnone => ?_) (fun hne => nomatch hne)
    exact restored_of_install (keepsOps_proposeSelect validate p _)
      (transformQuantizeInMask_eq validate p _) hnone
  | transformEmbeddingGemma =>
    refine iff_of_true (fun g₁ hnone => ?_) (fun hne => nomatch hne)
    exact restored_of_install (keepsOps_proposeShas validate p)
      (transformEmbeddingGemma_eq validate p _) hnone
  | optimizeKvSwappedFastVlmPrefill =>
    refine iff_of_true (fun g₁ hnone => ?_) (fun hne => nomatch hne)
    exact restored_of_install (keepsOps_proposeKvSwapped validate p _)
      (optimizeKvSwappedFastVlmPrefill_eq validate p _) hnone

theorem restores_iff_prefillGraph :
    fuseMatMulConvertPrefill.Restores (fun _ _ => false) prefillGraph 0 ↔
      (fuseMatMulConvertPrefill = fuseMatMulConvertPrefill →
        SwapsBack (fun _ _ => false) prefillGraph 0) :=
  restores_iff fuseMatMulConvertPrefill (fun _ _ => false) ⟨by decide, by decide⟩

/-- The second op is left with the output of the convert op. -/
theorem prefill_not_restored : ¬ ∀ (rewrite : Rewrite) (validate : Nat → OpWrapper → Bool)
    (g : Graph) (p : Nat), MatchedAt g.ops rewrite.patternOps p →
      rewrite.Restores validate g p := by
  intro hall
  have hrestores := hall fuseMatMulConvertPrefill (fun _ _ => false) prefillGraph 0
    ⟨by decide, by decide⟩
  obtain ⟨skip, g', hrun, hsame⟩ := hrestores _ rfl
  cases hrun
  revert hsame
  decide

end Rewrite

end LiteRt.Qnn
