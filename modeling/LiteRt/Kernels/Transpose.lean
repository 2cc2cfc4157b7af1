import LiteRt.Lib.Loops
import LiteRt.Lib.MultiIndex
import Mathlib.Data.List.Perm.Subperm

/-!
# Transpose

Strides are set up from the last dimension down, and a recursion over the dimensions of the
output moves a place in the input and one in the output. An access out of range, or a stride
that is no `int`, is none.
-/

namespace LiteRt.Kernels.Transpose

open LiteRt.Lib List

/-- Of any of the types: only places matter. -/
structure Tensor (α : Type) where
  shape : List Nat
  data : List α
  filled : data.length = shape.prod

def kTransposeMaxDimensions : Nat := 6

def fromFront (dims : Nat) (p : Int) : Nat := (if p < 0 then p + dims else p).toNat

def newPermData (dims : Nat) : List Int → Option (List Nat)
  | [] => some []
  | p :: perm => do
    if -(dims : Int) ≤ p ∧ p < dims then
      let rest ← newPermData dims perm
      some (fromFront dims p :: rest)
    else none

/-- The shape of the output, none for an error. -/
def resizeOutputTensor (inputShape : List Nat) (perm : Tensor Int) : Option (List Nat) :=
  if perm.shape = [inputShape.length] then do
    let newPerm ← newPermData inputShape.length perm.data
    newPerm.mapM fun p => inputShape[p]?
  else none

def prepare (inputShape : List Nat) (perm : Tensor Int) : Option (List Nat) :=
  if inputShape.length ≤ kTransposeMaxDimensions then resizeOutputTensor inputShape perm else none

/-- A place of the input that is read and the place of the output that is written. -/
structure Copy where
  source : Nat
  target : Nat
  deriving DecidableEq, Repr

def fitsInt (n : Nat) : Option Nat := if n < 2 ^ 31 then some n else none

/-- The loop, from `n - 1` down. -/
def fillStrides (shape : List Nat) : Nat → List Nat → Option (List Nat)
  | 0, stride => some stride
  | i + 1, stride => do
    let next ← stride[i + 1]?
    let size ← shape[i + 1]?
    let product ← fitsInt (next * size)
    fillStrides shape i (stride.set i product)

def setupTransposeStrides (shape : List Nat) (dims : Nat) : Option (List Nat) :=
  let stride := List.replicate kTransposeMaxDimensions 0
  if 1 ≤ dims ∧ dims ≤ stride.length then fillStrides shape (dims - 1) (stride.set (dims - 1) 1)
  else none

/-- The rounds of a loop, after each of which the places move on. -/
def rounds (body : Nat → Nat → Option (List Copy)) (inputStep outputStep : Option Nat) :
    Nat → Nat → Nat → Option (List Copy)
  | 0, _, _ => some []
  | n + 1, source, target => do
    let copies ← body source target
    let s ← inputStep
    let t ← outputStep
    let rest ← rounds body inputStep outputStep n (source + s) (target + t)
    some (copies ++ rest)

/-- The output shape is given from `depth` on. -/
def transposeImpl (dims : Nat) (perm inputStride outputStride : List Nat) :
    List Nat → Nat → Nat → Nat → Option (List Copy)
  | [], _, _, _ => none
  | dimensionSize :: rest, depth, source, target =>
    if depth + 1 = dims then do
      let loopStride ← (perm[depth]?).bind fun p => inputStride[p]?
      rounds (fun source target => some [⟨source, target⟩]) (some loopStride) (some 1)
        dimensionSize source target
    else
      rounds (transposeImpl dims perm inputStride outputStride rest (depth + 1))
        ((perm[depth]?).bind fun p => inputStride[p]?) outputStride[depth]?
        dimensionSize source target

/-- The copies in their order. -/
def transpose (perm inputShape outputShape : List Nat) : Option (List Copy) := do
  let dims := inputShape.length
  let inputStride ← setupTransposeStrides inputShape dims
  let outputStride ← setupTransposeStrides outputShape dims
  transposeImpl dims perm inputStride outputStride outputShape 0 0 0

/-- The parameters are read as in `ResizeOutputTensor`, with nothing to reject. -/
def params (perm : List Int) : List Nat := perm.map (fromFront perm.length)

def eval (inputShape : List Nat) (perm : Tensor Int) (outputShape : List Nat) :
    Option (List Copy) :=
  transpose (params perm.data) inputShape outputShape

/-! ## Strides -/

/-- The strides but the last one are products of the sizes behind them. -/
def StridesFit (shape : List Nat) : Prop := ∀ k, 1 ≤ k → (shape.drop k).prod < 2 ^ 31

section
variable {shape stride stride' : List Nat} {n dims : Nat}

theorem fitsInt_eq (h : n < 2 ^ 31) : fitsInt n = some n := if_pos h

/-- One round: the product of the sizes from `i + 1` on. -/
theorem prod_drop_step {i : Nat} (hi : i + 1 < shape.length) :
    (shape.drop (i + 2)).prod * shape[i + 1] = (shape.drop (i + 1)).prod := by
  rw [drop_eq_getElem_cons hi, prod_cons, Nat.mul_comm]

/-- The entries from `n` on are set. -/
def StridesFrom (shape stride : List Nat) (n : Nat) : Prop :=
  ∀ i, n ≤ i → i < shape.length → stride[i]? = some (shape.drop (i + 1)).prod

theorem StridesFrom.set {i product : Nat} (h : StridesFrom shape stride (i + 1))
    (hi : i < stride.length) (hproduct : product = (shape.drop (i + 1)).prod) :
    StridesFrom shape (stride.set i product) i := by
  intro j hij hj
  obtain rfl | hlt := Nat.eq_or_lt_of_le hij
  · rw [getElem?_set_self hi, hproduct]
  · rw [getElem?_set_ne (by omega)]
    exact h j hlt hj

theorem fillStrides_of_fit (hn : n < shape.length) (hlen : shape.length ≤ stride.length)
    (h : StridesFrom shape stride n) (hfit : ∀ k, 1 ≤ k → k ≤ n → (shape.drop k).prod < 2 ^ 31) :
    ∃ stride', fillStrides shape n stride = some stride' ∧ StridesFrom shape stride' 0 := by
  induction n generalizing stride with
  | zero => exact ⟨stride, rfl, h⟩
  | succ i ih =>
    have hstep := prod_drop_step hn
    have hproduct := hfit (i + 1) (by omega) (Nat.le_refl _)
    simp only [fillStrides, h (i + 1) (Nat.le_refl _) hn, getElem?_eq_getElem hn,
      Option.bind_eq_bind, Option.bind_some, hstep, fitsInt_eq hproduct]
    exact ih (by omega) (by rw [length_set]; exact hlen) (h.set (by omega) rfl)
      fun k hk hkn => hfit k hk (by omega)

theorem fit_of_fillStrides (hn : n < shape.length) (hlen : shape.length ≤ stride.length)
    (h : StridesFrom shape stride n) (hrun : fillStrides shape n stride = some stride') :
    ∀ k, 1 ≤ k → k ≤ n → (shape.drop k).prod < 2 ^ 31 := by
  induction n generalizing stride with
  | zero =>
    intro k hk hk0
    omega
  | succ i ih =>
    have hstep := prod_drop_step hn
    simp only [fillStrides, h (i + 1) (Nat.le_refl _) hn, getElem?_eq_getElem hn,
      Option.bind_eq_bind, Option.bind_some, hstep] at hrun
    by_cases hproduct : (shape.drop (i + 1)).prod < 2 ^ 31
    · rw [fitsInt_eq hproduct, Option.bind_some] at hrun
      have hrest := ih (by omega) (by rw [length_set]; exact hlen) (h.set (by omega) rfl) hrun
      intro k hk hkn
      obtain rfl | hlt := Nat.eq_or_lt_of_le hkn
      · exact hproduct
      · exact hrest k hk (by omega)
    · rw [fitsInt, if_neg hproduct] at hrun
      cases hrun

/-- The array with its last entry set. -/
theorem stridesFrom_last (hpos : 1 ≤ shape.length) (hmax : shape.length ≤ kTransposeMaxDimensions) :
    StridesFrom shape ((List.replicate kTransposeMaxDimensions 0).set (shape.length - 1) 1)
      (shape.length - 1) := by
  intro i hi hlt
  obtain rfl : i = shape.length - 1 := by omega
  rw [getElem?_set_self (by rw [length_replicate]; omega), drop_eq_nil_of_le (by omega), prod_nil]

theorem setupTransposeStrides_of_fit (hpos : 1 ≤ shape.length)
    (hmax : shape.length ≤ kTransposeMaxDimensions) (hfit : StridesFit shape) :
    ∃ stride, setupTransposeStrides shape shape.length = some stride ∧
      StridesFrom shape stride 0 := by
  unfold setupTransposeStrides
  rw [if_pos ⟨hpos, by rw [length_replicate]; exact hmax⟩]
  exact fillStrides_of_fit (by omega) (by rw [length_set, length_replicate]; exact hmax)
    (stridesFrom_last hpos hmax) fun k hk _ => hfit k hk

theorem of_setupTransposeStrides (hrun : setupTransposeStrides shape shape.length = some stride) :
    1 ≤ shape.length ∧ StridesFit shape := by
  unfold setupTransposeStrides at hrun
  by_cases hrank : 1 ≤ shape.length ∧ shape.length ≤ kTransposeMaxDimensions
  · rw [if_pos ⟨hrank.1, by rw [length_replicate]; exact hrank.2⟩] at hrun
    refine ⟨hrank.1, fun k hk => ?_⟩
    by_cases hlt : k < shape.length
    · exact fit_of_fillStrides (by omega) (by rw [length_set, length_replicate]; exact hrank.2)
        (stridesFrom_last hrank.1 hrank.2) hrun k hk (by omega)
    · rw [drop_eq_nil_of_le (by omega), prod_nil]
      decide
  · rw [if_neg fun h => hrank ⟨h.1, by rw [length_replicate] at h; exact h.2⟩] at hrun
    cases hrun

end

/-!
## When a transposition is exact

The recursion copies each element of the output once, from the place that the strides of the
permuted axes give. This is the element with permuted indices if the entries of `perm` name each
axis once, which is not checked.
-/

section
variable {perm inputStride outputStride inputSteps : List Nat} {body : Nat → Nat → Option (List Copy)}
  {copies : Nat → Nat → List Copy} {dims : Nat}

theorem rounds_eq (h : ∀ source target, body source target = some (copies source target))
    (s t : Nat) (n : Nat) : ∀ source target : Nat, rounds body (some s) (some t) n source target =
        some ((List.range n).flatMap fun i => copies (source + i * s) (target + i * t)) := by
  induction n with
  | zero => exact fun _ _ => rfl
  | succ n ih =>
    intro source target
    have hmove : ∀ (a b i : Nat), a + b + i * b = a + (i + 1) * b := by
      intro a b i
      rw [Nat.add_one_mul]
      omega
    simp only [rounds, h, ih, Option.bind_eq_bind, Option.bind_some]
    rw [range_succ_eq_map, flatMap_cons, flatMap_map]
    simp only [hmove, Nat.zero_mul, Nat.add_zero]

/-- The copies of the rest of the dimensions: one for each of their indices, in order. -/
theorem transposeImpl_eq (rest : List Nat) :
    ∀ {depth : Nat} (source target : Nat), rest ≠ [] → depth + rest.length = dims →
      (∀ k, k < dims → ((perm[k]?).bind fun p => inputStride[p]?) = inputSteps[k]?) →
      inputSteps.length = dims →
      (∀ k, k < rest.length → outputStride[depth + k]? = (rowStrides rest)[k]?) →
      transposeImpl dims perm inputStride outputStride rest depth source target =
        some ((allIndices rest).map fun j =>
          ⟨source + offsetOf (inputSteps.drop depth) j, target + offsetOf (rowStrides rest) j⟩) := by
  induction rest with
  | nil => exact fun _ _ h => absurd rfl h
  | cons d rest ih =>
    intro depth source target _ hdims hin hlen hout
    rw [length_cons] at hdims
    have hdepth : depth < inputSteps.length := by omega
    have hstep : ((perm[depth]?).bind fun p => inputStride[p]?) = some inputSteps[depth] := by
      rw [hin depth (by omega), getElem?_eq_getElem hdepth]
    rw [drop_eq_getElem_cons hdepth, allIndices, map_flatMap]
    by_cases hlast : depth + 1 = dims
    · obtain rfl : rest = [] := eq_nil_of_length_eq_zero (by omega)
      simp only [transposeImpl, hlast, if_true, hstep, Option.bind_eq_bind, Option.bind_some]
      rw [@rounds_eq _ (fun source target => [⟨source, target⟩]) fun _ _ => rfl]
      congr 1
      refine flatMap_congr fun i _ => ?_
      simp only [allIndices, map_cons, map_nil, rowStrides, offsetOf_cons, prod_nil]
      rw [Nat.mul_comm i, Nat.mul_one, Nat.one_mul, drop_eq_nil_of_le (by omega)]
      rfl
    · have hne : rest ≠ [] := fun hnil => hlast (by rw [hnil, length_nil] at hdims; omega)
      have hbody := fun source target => @ih (depth + 1) source target hne (by omega) hin
        hlen fun k hk => by
          have hnext := hout (k + 1) (by rw [length_cons]; omega)
          rw [show depth + 1 + k = depth + (k + 1) by omega, hnext]
          rfl
      have htarget : outputStride[depth]? = some rest.prod := hout 0 (Nat.zero_lt_succ _)
      simp only [transposeImpl, hlast, if_false, hstep, htarget]
      rw [rounds_eq hbody]
      congr 1
      refine flatMap_congr fun i _ => ?_
      rw [map_map]
      refine map_congr_left fun j _ => ?_
      simp only [Function.comp_apply, rowStrides, offsetOf_cons, Copy.mk.injEq]
      constructor
      · rw [Nat.mul_comm inputSteps[depth] i]
        omega
      · rw [Nat.mul_comm rest.prod i]
        omega

end

/-! ### What is accepted -/

section
variable {inputShape outputShape : List Nat} {perm : Tensor Int} {newPerm : List Nat}

theorem newPermData_some {dims : Nat} {entries : List Int}
    (h : newPermData dims entries = some newPerm) :
    newPerm = entries.map (fromFront dims) ∧ ∀ p ∈ newPerm, p < dims := by
  induction entries generalizing newPerm with
  | nil =>
    cases h
    exact ⟨rfl, fun p hp => absurd hp not_mem_nil⟩
  | cons p entries ih =>
    simp only [newPermData] at h
    by_cases hp : -(dims : Int) ≤ p ∧ p < dims
    · rw [if_pos hp] at h
      obtain ⟨rest, hrest, heq⟩ := Option.bind_eq_some_iff.1 h
      obtain ⟨hmap, hlt⟩ := ih hrest
      obtain rfl := Option.some.inj heq
      refine ⟨by rw [map_cons, ← hmap], forall_mem_cons.2 ⟨?_, hlt⟩⟩
      unfold fromFront
      split <;> omega
    · rw [if_neg hp] at h
      cases h

/-- What the checks of a call promise. -/
structure Accepted (inputShape : List Nat) (perm : Tensor Int) (outputShape : List Nat) : Prop where
  rank : inputShape.length ≤ kTransposeMaxDimensions
  length : (params perm.data).length = inputShape.length
  lt : ∀ p ∈ params perm.data, p < inputShape.length
  output : outputShape = (params perm.data).map fun p => inputShape.getD p 0

theorem accepted_of_prepare (h : prepare inputShape perm = some outputShape) :
    Accepted inputShape perm outputShape := by
  unfold prepare at h
  by_cases hrank : inputShape.length ≤ kTransposeMaxDimensions
  · rw [if_pos hrank, resizeOutputTensor] at h
    by_cases hshape : perm.shape = [inputShape.length]
    · rw [if_pos hshape] at h
      obtain ⟨newPerm, hnew, hout⟩ := Option.bind_eq_some_iff.1 h
      obtain ⟨hmap, hlt⟩ := newPermData_some hnew
      have hlen : perm.data.length = inputShape.length := by
        rw [perm.filled, hshape, prod_singleton]
      have hparams : params perm.data = newPerm := by
        rw [hmap, params, hlen]
      have hsizes : (newPerm.mapM fun p => inputShape[p]?) =
          some (newPerm.map fun p => inputShape.getD p 0) :=
        mapM_eq_some_map.2 fun p hp => by
          rw [getD_eq_getElem _ _ (hlt p hp), getElem?_eq_getElem (hlt p hp)]
      rw [hsizes] at hout
      refine ⟨hrank, ?_, ?_, ?_⟩
      · rw [params, length_map, hlen]
      · rw [hparams]
        exact hlt
      · rw [hparams]
        exact (Option.some.inj hout).symm
    · rw [if_neg hshape] at h
      cases h
  · rw [if_neg hrank] at h
    cases h

theorem Accepted.permutation (h : Accepted inputShape perm outputShape)
    (hnodup : (params perm.data).Nodup) :
    (params perm.data).Perm (List.range inputShape.length) := by
  have hsub : params perm.data ⊆ List.range inputShape.length :=
    fun p hp => mem_range.2 (h.lt p hp)
  exact (subperm_of_subset hnodup hsub).perm_of_length_le (by rw [length_range, h.length])

/-! ### Exactness -/

/-- Each element of the output is written once, and read from the element of the input with
permuted indices. -/
structure Transposed (perm inputShape outputShape : List Nat) (copies : List Copy) : Prop where
  once : (copies.map Copy.target).Perm (List.range outputShape.prod)
  inside : ∀ c ∈ copies, c.source < inputShape.prod
  element : ∀ j i : List Nat, IndexWithin j outputShape → i.length = inputShape.length →
    Permutes perm j i →
      ⟨offsetOf (rowStrides inputShape) i, offsetOf (rowStrides outputShape) j⟩ ∈ copies

/-- A `perm` that is accepted names each axis once, and the call does what it stands for. -/
def Exact (inputShape : List Nat) (perm : Tensor Int) : Prop :=
  ∀ outputShape, prepare inputShape perm = some outputShape →
    (params perm.data).Perm (List.range inputShape.length) ∧
      ∃ copies, eval inputShape perm outputShape = some copies ∧
        Transposed (params perm.data) inputShape outputShape copies

theorem transposed_of_perm (hperm : newPerm.Perm (List.range inputShape.length))
    (hout : outputShape = newPerm.map fun p => inputShape.getD p 0) :
    Transposed newPerm inputShape outputShape ((allIndices outputShape).map fun j =>
      ⟨offsetOf (newPerm.map fun p => (rowStrides inputShape).getD p 0) j,
        offsetOf (rowStrides outputShape) j⟩) := by
  have hlen : newPerm.length = inputShape.length := by rw [hperm.length_eq, length_range]
  have hsource : ∀ j i : List Nat, IndexWithin j outputShape → i.length = inputShape.length →
      Permutes newPerm j i → offsetOf (newPerm.map fun p => (rowStrides inputShape).getD p 0) j =
        offsetOf (rowStrides inputShape) i := by
    intro j i hj hi h
    refine offsetOf_permuted (hi ▸ hperm) (by rw [length_rowStrides, hi]) ?_ h
    rw [hj.length_eq, hout, length_map, hlen, hi]
  refine ⟨?_, fun c hc => ?_, fun j i hj hi h => ?_⟩
  · rw [map_map]
    exact .of_eq (map_offsetOf_allIndices outputShape)
  · obtain ⟨j, hj, rfl⟩ := mem_map.1 hc
    have hj := mem_allIndices.1 hj
    have hwithin : IndexWithin (unpermute newPerm j) inputShape :=
      indexWithin_unpermute hperm (hout ▸ hj)
    have hpermutes := @permutes_unpermute _ j (hlen ▸ hperm)
      (by rw [hj.length_eq, hout, length_map])
    show offsetOf _ j < _
    rw [hsource j _ hj hwithin.length_eq hpermutes]
    exact offsetOf_lt hwithin
  · rw [← hsource j i hj hi h]
    exact mem_map_of_mem (mem_allIndices.2 hj)

theorem eval_eq (h : Accepted inputShape perm outputShape) (hpos : 1 ≤ inputShape.length)
    (hin : StridesFit inputShape) (hout : StridesFit outputShape) :
    eval inputShape perm outputShape = some ((allIndices outputShape).map fun j =>
      ⟨offsetOf ((params perm.data).map fun p => (rowStrides inputShape).getD p 0) j,
        offsetOf (rowStrides outputShape) j⟩) := by
  have hrank : outputShape.length = inputShape.length := by
    rw [h.output, length_map, h.length]
  obtain ⟨inputStride, hinput, hinputFrom⟩ := setupTransposeStrides_of_fit hpos h.rank hin
  obtain ⟨outputStride, houtput, houtputFrom⟩ :=
    setupTransposeStrides_of_fit (hrank ▸ hpos) (hrank ▸ h.rank) hout
  rw [hrank] at houtput
  have himpl := @transposeImpl_eq (params perm.data) inputStride outputStride
    ((params perm.data).map fun p => (rowStrides inputShape).getD p 0) inputShape.length
    outputShape 0 0 0 (by rintro rfl; exact absurd hrank (by simp; omega))
    (by rw [Nat.zero_add, hrank]) (fun k hk => ?_) (by rw [length_map, h.length])
    (fun k hk => ?_)
  · simp only [eval, transpose, hinput, houtput, Option.bind_eq_bind, Option.bind_some]
    rw [himpl]
    simp only [drop_zero, Nat.zero_add]
  · have hk : k < (params perm.data).length := by rw [h.length]; exact hk
    have hlt := h.lt _ (getElem_mem hk)
    rw [getElem?_map, getElem?_eq_getElem hk, Option.bind_some, Option.map_some,
      hinputFrom _ (Nat.zero_le _) hlt, getD_eq_getElem?_getD, getElem?_rowStrides hlt]
    rfl
  · rw [Nat.zero_add, houtputFrom k (Nat.zero_le _) hk, getElem?_rowStrides hk]

/-- The kernel is exact where the rank is positive, `perm` names no axis twice and the strides
are `int`s, and there only. -/
theorem transpose_exact_iff (inputShape : List Nat) (perm : Tensor Int) :
    Exact inputShape perm ↔ ∀ outputShape, prepare inputShape perm = some outputShape →
      1 ≤ inputShape.length ∧ (params perm.data).Nodup ∧ StridesFit inputShape ∧
        StridesFit outputShape := by
  constructor
  · intro h outputShape hprepare
    obtain ⟨hperm, copies, hrun, -⟩ := h outputShape hprepare
    have hrank : outputShape.length = inputShape.length := by
      have haccepted := accepted_of_prepare hprepare
      rw [haccepted.output, length_map, haccepted.length]
    obtain ⟨inputStride, hinput, hrest⟩ := Option.bind_eq_some_iff.1 hrun
    obtain ⟨outputStride, houtput, -⟩ := Option.bind_eq_some_iff.1 hrest
    rw [← hrank] at houtput
    exact ⟨(of_setupTransposeStrides hinput).1, hperm.nodup_iff.2 nodup_range,
      (of_setupTransposeStrides hinput).2, (of_setupTransposeStrides houtput).2⟩
  · intro h outputShape hprepare
    obtain ⟨hpos, hnodup, hin, hout⟩ := h outputShape hprepare
    have haccepted := accepted_of_prepare hprepare
    have hperm := haccepted.permutation hnodup
    exact ⟨hperm, _, eval_eq haccepted hpos hin hout, transposed_of_perm hperm haccepted.output⟩

/-- The first axis named twice: the last element is read behind the input. -/
theorem repeated_axis_not_exact : ¬Exact [2, 2] ⟨[2], [0, 0], rfl⟩ := by
  intro h
  obtain ⟨hperm, -⟩ := h [2, 2] (by decide)
  exact absurd (hperm.nodup_iff.2 nodup_range) (by decide)

end

end LiteRt.Kernels.Transpose
