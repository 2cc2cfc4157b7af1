import LiteRt.GpuFusion.Operations
import LiteRt.GpuGraph.Transformation
import Mathlib.Tactic.NormNum

/-!
# Pooling over a merged padding

The two pooling kernels differ from a kernel that counts the zeros of the padding as soon as one
window covers such a zero: an image of ones shows it for the average, and one of `-1` for the
maximum.
-/

namespace LiteRt.GpuFusion

open List

section

variable {K : Type}

/-! ## Folds of the kernels -/

section
variable [LinearOrder K] {width : Nat} {reads : Nat × Nat → Option K} {l : List (Nat × Nat)} {acc : K × Nat}
  {k : Nat × Nat} {v u : K}

theorem le_maxStep : acc.1 ≤ (maxStep width reads acc k).1 := by
  unfold maxStep
  split
  · split
    · next hlt => exact hlt.le
    · exact le_rfl
  · exact le_rfl

theorem le_maximum : acc.1 ≤ (l.foldl (maxStep width reads) acc).1 := by
  induction l generalizing acc with
  | nil => exact le_rfl
  | cons k l ih => exact le_maxStep.trans ih

theorem read_le_maxStep (hv : reads k = some v) : v ≤ (maxStep width reads acc k).1 := by
  unfold maxStep
  rw [hv]
  simp only
  split
  · exact le_rfl
  · next hle => exact not_lt.1 hle

theorem read_le_maximum (hk : k ∈ l) (hv : reads k = some v) :
    v ≤ (l.foldl (maxStep width reads) acc).1 := by
  induction l generalizing acc with
  | nil => cases hk
  | cons m l ih =>
    obtain rfl | hk := mem_cons.1 hk
    · exact (read_le_maxStep hv).trans le_maximum
    · exact ih hk

/-- What bounds the start and the reads bounds the maximum. -/
theorem maximum_le (hacc : acc.1 ≤ u) (hall : ∀ k ∈ l, ∀ v, reads k = some v → v ≤ u) :
    (l.foldl (maxStep width reads) acc).1 ≤ u := by
  induction l generalizing acc with
  | nil => exact hacc
  | cons m l ih =>
    refine ih ?_ fun k hk => hall k (mem_cons_of_mem _ hk)
    unfold maxStep
    split
    · next src hsrc =>
      split
      · exact hall m mem_cons_self src hsrc
      · exact hacc
    · exact hacc

end

section
variable [Field K] [LinearOrder K] [IsStrictOrderedRing K] {l : List K}

theorem sum_le_length (h : ∀ a ∈ l, a ≤ 1) : l.sum ≤ l.length := by
  induction l with
  | nil => simp
  | cons a l ih =>
    have ha := h a mem_cons_self
    have hl := ih fun b hb => h b (mem_cons_of_mem _ hb)
    rw [sum_cons, length_cons, Nat.cast_succ]
    linarith

theorem sum_lt_length (h : ∀ a ∈ l, a ≤ 1) (hzero : 0 ∈ l) : l.sum < l.length := by
  induction l with
  | nil => cases hzero
  | cons a l ih =>
    have htail : ∀ b ∈ l, b ≤ 1 := fun b hb => h b (mem_cons_of_mem _ hb)
    rw [sum_cons, length_cons, Nat.cast_succ]
    obtain hzero | hzero := mem_cons.1 hzero
    · have hl := sum_le_length htail
      linarith
    · have ha := h a mem_cons_self
      have hl := ih htail hzero
      linarith

theorem averagePool_lt (h : ∀ a ∈ l, a ≤ 1) (hzero : 0 ∈ l) :
    ∃ q, averagePool l = some q ∧ q < 1 := by
  have hlength : l.length ≠ 0 := length_pos_of_mem hzero |>.ne'
  refine ⟨l.sum / l.length, if_neg hlength, ?_⟩
  have hpos : (0 : K) < l.length := by exact_mod_cast Nat.pos_of_ne_zero hlength
  rw [div_lt_one hpos]
  exact sum_lt_length h hzero

theorem averagePool_one (h : ∀ a ∈ l, a = 1) {q : K} (hq : averagePool l = some q) : q = 1 := by
  unfold averagePool at hq
  split at hq
  · cases hq
  · next hlength =>
    have hsum : l.sum = l.length := by
      rw [eq_replicate_of_mem h]
      simp
    have hne : (l.length : K) ≠ 0 := by exact_mod_cast hlength
    rw [hsum, div_self hne, Option.some.injEq] at hq
    exact hq.symm

end

/-! ## Windows over the padding -/

def Image.const (shape : BHWC) (v : K) : Image K := ⟨shape, fun _ _ _ _ => v⟩

theorem const_read? {shape : BHWC} {u v : K} {n c : Nat} {y x : Int}
    (hv : (Image.const shape u).read? n y x c = some v) : v = u := by
  unfold Image.read? at hv
  split at hv
  · exact (Option.some.inj hv).symm
  · cases hv

section
variable [Field K] {pad : PadAttributes K} {attr : Pooling2DAttributes} {f : Image K} {n c y x : Nat}
  {k : Nat × Nat} {shape : BHWC}

/-- The node with the summed padding. -/
def Pooling2DAttributes.merged (attr : Pooling2DAttributes) (pad : PadAttributes K) :
    Pooling2DAttributes :=
  { attr with padding := pad.addTo attr.padding }

theorem readAt_merged (hn : n < f.shape.b) (hc : c < f.shape.c) :
    (attr.merged pad).readAt f n y x c k =
      if f.size.Contains (attr.row y k - pad.prepended.h) (attr.column x k - pad.prepended.w)
      then some (f.read n (attr.row y k - pad.prepended.h) (attr.column x k - pad.prepended.w) c)
      else none := by
  have hrow : (y : Int) * attr.strides.h + -(attr.padding.prepended.h + pad.prepended.h) + k.1 =
      attr.row y k - pad.prepended.h := by
    unfold Pooling2DAttributes.row
    ring
  have hcolumn : (x : Int) * attr.strides.w + -(attr.padding.prepended.w + pad.prepended.w) +
      k.2 = attr.column x k - pad.prepended.w := by
    unfold Pooling2DAttributes.column
    ring
  simp only [Pooling2DAttributes.readAt, Pooling2DAttributes.merged, PadAttributes.addTo, hrow,
    hcolumn, Image.read, Image.read?, hn, hc, and_true]
  split
  · rfl
  · rfl

theorem readAt_eval (h : pad.ZeroHW) (hn : n < f.shape.b) (hc : c < f.shape.c) :
    attr.readAt (pad.eval f) n y x c k =
      if (pad.padded f.size).Contains (attr.row y k) (attr.column x k) then
        some (f.read n (attr.row y k - pad.prepended.h) (attr.column x k - pad.prepended.w) c)
      else none :=
  read?_eval h hn hc

/-- A window that covers no zero of the padding reads the same pixels. -/
theorem readAt_eq (h : pad.ZeroHW) (hn : n < f.shape.b) (hc : c < f.shape.c)
    (havoid : (pad.padded f.size).Contains (attr.row y k) (attr.column x k) →
      f.size.Contains (attr.row y k - pad.prepended.h) (attr.column x k - pad.prepended.w)) :
    (attr.merged pad).readAt f n y x c k = attr.readAt (pad.eval f) n y x c k := by
  rw [readAt_merged hn hc, readAt_eval h hn hc]
  by_cases hin : f.size.Contains (attr.row y k - pad.prepended.h)
      (attr.column x k - pad.prepended.w)
  · rw [if_pos hin, if_pos (PadAttributes.contains_padded hin)]
  · rw [if_neg hin, if_neg fun hpad => hin (havoid hpad)]

theorem const_readAt {u v : K} (h : pad.ZeroHW) (hn : n < shape.b) (hc : c < shape.c)
    (hv : attr.readAt (pad.eval (.const shape u)) n y x c k = some v) :
    v = 0 ∨ v = u := by
  rw [readAt_eval h hn hc] at hv
  split at hv
  · rw [Option.some.injEq] at hv
    subst hv
    unfold Image.read
    cases hread : (Image.const shape u).read? n (attr.row y k - pad.prepended.h)
        (attr.column x k - pad.prepended.w) c with
    | none => exact .inl rfl
    | some w => exact .inr (const_read? hread)
  · cases hv

variable [LinearOrder K]

theorem shape_merged (h : pad.ZeroHW) (attr : Pooling2DAttributes) (f : Image K) :
    ((attr.merged pad).eval f).shape = (attr.eval (pad.eval f)).shape := by
  simp only [Pooling2DAttributes.eval, Pooling2DAttributes.merged, size_eval,
    windowPositions_padded, (shape_eval h f).1, (shape_eval h f).2]

theorem same_of_avoidsPadding (h : pad.ZeroHW) (havoid : attr.AvoidsPadding pad f.size) :
    ((attr.merged pad).eval f).Same (attr.eval (pad.eval f)) := by
  refine ⟨shape_merged h attr f, ?_⟩
  intro n hn y hy x hx c hc
  have hshape := shape_merged h attr f
  have hread : ∀ k ∈ kernelPositions attr.kernel,
      (attr.merged pad).readAt f n y x c k = attr.readAt (pad.eval f) n y x c k := by
    intro k hk
    refine readAt_eq h hn hc ?_
    rw [hshape] at hy hx
    exact havoid y hy x hx k hk
  have hlist := filterMap_congr hread
  have hfold : ∀ acc, ∀ k ∈ kernelPositions attr.kernel,
      maxStep attr.kernel.w ((attr.merged pad).readAt f n y x c) acc k =
        maxStep attr.kernel.w (attr.readAt (pad.eval f) n y x c) acc k := by
    intro acc k hk
    simp only [maxStep, hread k hk]
  cases htype : attr.type with
  | average =>
    simp only [Pooling2DAttributes.eval, Pooling2DAttributes.merged, htype] at hlist ⊢
    rw [hlist]
  | max =>
    have hmax := foldl_ext _ _ ((-10000 : K), 0) hfold
    simp only [Pooling2DAttributes.eval, Pooling2DAttributes.merged, htype] at hmax ⊢
    rw [hmax]

variable [IsStrictOrderedRing K]

/-- One zero of the padding in a window is enough. -/
theorem avoidsPadding_of_same (h : pad.ZeroHW) (hb : 0 < shape.b) (hc : 0 < shape.c)
    (hsame : ∀ f : Image K, f.shape = shape → ((attr.merged pad).eval f).Same (attr.eval (pad.eval
      f))) :
    attr.AvoidsPadding pad ⟨shape.h, shape.w⟩ := by
  intro y hy x hx k hk hin
  by_contra hout
  have hval : ∀ u : K, ((attr.merged pad).eval (.const shape u)).val 0 y x 0 =
      (attr.eval (pad.eval (.const shape u))).val 0 y x 0 := by
    intro u
    have hu := hsame (.const shape u) rfl
    refine hu.2 0 hb y ?_ x ?_ 0 hc
    · rw [hu.1]
      exact hy
    · rw [hu.1]
      exact hx
  have hzero : ∀ u : K, attr.readAt (pad.eval (.const shape u)) 0 y x 0 k = some 0 := by
    intro u
    have hread : (Image.const shape u).read 0 (attr.row y k - pad.prepended.h)
        (attr.column x k - pad.prepended.w) 0 = 0 := by
      rw [Image.read, Image.read?, if_neg fun hall => hout hall.1]
      rfl
    have hin' : (pad.padded (Image.const shape u).size).Contains (attr.row y k)
        (attr.column x k) := hin
    rw [readAt_eval h hb hc, if_pos hin', hread]
  cases htype : attr.type with
  | average =>
    have hone := congrArg Pooled.value (hval 1)
    simp only [Pooling2DAttributes.eval, Pooling2DAttributes.merged, htype] at hone
    have hle : ∀ a ∈ (kernelPositions attr.kernel).filterMap
        (attr.readAt (pad.eval (.const shape 1)) 0 y x 0), a ≤ (1 : K) := by
      intro a ha
      obtain ⟨m, _, hm⟩ := mem_filterMap.1 ha
      obtain rfl | rfl := const_readAt h hb hc hm
      · exact zero_le_one
      · exact le_rfl
    obtain ⟨q, hq, hlt⟩ := averagePool_lt hle (mem_filterMap.2 ⟨k, hk, hzero 1⟩)
    rw [hq] at hone
    refine hlt.ne (averagePool_one ?_ hone)
    intro a ha
    obtain ⟨m, _, hm⟩ := mem_filterMap.1 ha
    exact const_read? hm
  | max =>
    have hmax := congrArg Pooled.value (hval (-1))
    simp only [Pooling2DAttributes.eval, Pooling2DAttributes.merged, htype,
      Option.some.injEq] at hmax
    have hge : 0 ≤ ((kernelPositions attr.kernel).foldl (maxStep attr.kernel.w
        (attr.readAt (pad.eval (.const shape (-1))) 0 y x 0)) ((-10000 : K), 0)).1 :=
      read_le_maximum hk (hzero (-1))
    have hle : ((kernelPositions attr.kernel).foldl (maxStep attr.kernel.w
        ((attr.merged pad).readAt (.const shape (-1)) 0 y x 0)) ((-10000 : K), 0)).1 ≤ -1 := by
      refine maximum_le (by norm_num) ?_
      intro m _ v hv
      exact (const_read? hv).le
    have hbad : (0 : K) ≤ -1 := hge.trans (hmax ▸ hle)
    linarith

end

end

/-!
## The merge of a padding

The padding node is removed and its amounts are added to those of the operation behind it,
whichever operation that is.
-/

open LiteRt.Lib LiteRt.GpuGraph LiteRt.GpuGraph.GraphFloat32
variable {K Tn : Type}

inductive OperationType2D where
  | convolution2D
  | depthwiseConvolution
  | pooling2D
  deriving DecidableEq, Repr

def Operation2D.operation : Operation2D K → Operation K
  | convolution2D attr => .convolution2D attr
  | depthwiseConvolution attr => .depthwiseConvolution attr
  | pooling2D attr => .pooling2D attr

def Operation2D.type : Operation2D K → OperationType2D
  | convolution2D _ => .convolution2D
  | depthwiseConvolution _ => .depthwiseConvolution
  | pooling2D _ => .pooling2D

def Operation.as2D : Operation K → Option (Operation2D K)
  | .convolution2D attr => some (.convolution2D attr)
  | .depthwiseConvolution attr => some (.depthwiseConvolution attr)
  | .pooling2D attr => some (.pooling2D attr)
  | _ => none

/-- The types of the sequence are `PAD` and `type`. -/
def matchPadding (type : OperationType2D) : Option (Operation K) → Option (Operation K) →
    Option (PadAttributes K × Operation2D K)
  | some (.pad attr), some operation =>
    match operation.as2D with
    | some node => if node.type = type then some (attr, node) else none
    | none => none
  | _, _ => none

def PadAttributes.message (pad : PadAttributes K) : String :=
  "Added padding: prepended = \x7bh = " ++ toString pad.prepended.h ++ ", w = " ++
    toString pad.prepended.w ++ "\x7d, appended = \x7b h = " ++ toString pad.appended.h ++
    ", w = " ++ toString pad.appended.w ++ "\x7d"

def mergePaddingWith2DOperation (type : OperationType2D) (padNode opNode : NodeId) :
    GraphM (Operation K) Tn TransformResult := do
  let g ← get
  match matchPadding type (g.getNode padNode) (g.getNode opNode) with
  | none => pure ⟨.skipped, ""⟩
  | some (padAttr, node) =>
    if padAttr.type ≠ .zeros then pure ⟨.declined, "Only Zero padding is supported."⟩
    else if padAttr.appended.c ≠ 0 ∨ padAttr.prepended.c ≠ 0 ∨ padAttr.appended.b ≠ 0 ∨
        padAttr.prepended.b ≠ 0 then
      pure ⟨.declined, "Pad has non-zero padding on non HW axis."⟩
    else
      finishWith (removePrecedingNode padNode opNode)
        "Unable to remove Pad node with Operation node: " do
          setOperation opNode (node.addPadding padAttr).operation
          pure ⟨.applied, padAttr.message⟩

/-! ### What is left of the two nodes -/

theorem Operation2D.as2D_operation (node : Operation2D K) :
    node.operation.as2D = some node := by
  cases node with
  | convolution2D _ => rfl
  | depthwiseConvolution _ => rfl
  | pooling2D _ => rfl

theorem matchPadding_operation (padAttr : PadAttributes K) (node : Operation2D K) :
    matchPadding node.type (some (.pad padAttr)) (some node.operation) = some (padAttr, node) := by
  simp only [matchPadding, node.as2D_operation, if_true]

variable {g g' : GraphFloat32 (Operation K) Tn} {padNode opNode : NodeId}
  {padAttr : PadAttributes K} {node : Operation2D K} {r : TransformResult}

/-- The operation with the summed padding is left, and the padding was one of height and width. -/
theorem mergePadding_applied (h : g.Linked) (hpad : g.getNode padNode = some (.pad padAttr))
    (hop : g.getNode opNode = some node.operation)
    (hrun : mergePaddingWith2DOperation node.type padNode opNode g = .ok r g')
    (hr : r.status = .applied) :
    g'.getNode opNode = some (node.addPadding padAttr).operation ∧
      (padAttr.appended.b = 0 ∧ padAttr.prepended.b = 0) ∧
      (padAttr.appended.c = 0 ∧ padAttr.prepended.c = 0) := by
  change (match matchPadding node.type (g.getNode padNode) (g.getNode opNode) with
    | none => pure ⟨.skipped, ""⟩
    | some (padAttr, node) => _ : GraphM (Operation K) Tn TransformResult) g = _ at hrun
  rw [hpad, hop, matchPadding_operation] at hrun
  simp only at hrun
  split at hrun
  · cases hrun
    cases hr
  split at hrun
  · cases hrun
    cases hr
  · next hhw =>
    obtain ⟨g₁, hremoval, hset⟩ := finishWith_applied hrun hr
    cases hset
    have hne : opNode ≠ padNode := by
      rintro rfl
      rw [hpad] at hop
      cases node <;> cases hop
    have hold := removePrecedingNode_getNode h hremoval hne
    have hlive : g₁.getNode opNode ≠ none := by
      rw [hold, hop]
      simp
    rw [getNode_withOperation hlive, Function.update_self]
    refine ⟨rfl, ?_⟩
    omega

theorem Operation2D.operation_injective {node node' : Operation2D K}
    (h : node.operation = node'.operation) : node = node' := by
  have has := congrArg Operation.as2D h
  rwa [node.as2D_operation, node'.as2D_operation, Option.some.injEq] at has

theorem Image.Same.map {α β : Type} {f f' : Image α} (h : f.Same f') (m : α → β) :
    (f.map m).Same (f'.map m) :=
  ⟨h.1, fun n hn y hy x hx c hc => congrArg m (h.2 n hn y hy x hx c hc)⟩

variable [Field K] [LinearOrder K] [IsStrictOrderedRing K]

/-- Merging a padding of zeros is exact on all images of a shape if and only if the operation is
a convolution, or no window of the pooling covers a pixel of the padding. -/
theorem mergePadding_exact_iff (h : g.Linked) (hpad : g.getNode padNode = some (.pad padAttr))
    (hop : g.getNode opNode = some node.operation) (hzero : padAttr.constantValues = 0)
    (hrun : mergePaddingWith2DOperation node.type padNode opNode g = .ok r g')
    (hr : r.status = .applied) (shape : BHWC) :
    (∃ node' : Operation2D K, g'.getNode opNode = some node'.operation ∧ ∀ f : Image K, f.shape = shape →
      (node'.eval f).Same (node.eval (padAttr.eval f))) ↔ node.AvoidsPadding padAttr shape := by
  obtain ⟨hnode, hb, hc⟩ := mergePadding_applied h hpad hop hrun hr
  have hz : padAttr.ZeroHW := ⟨hb, hc, hzero⟩
  constructor
  · rintro ⟨node', hnode', hsame⟩
    rw [hnode, Option.some.injEq] at hnode'
    obtain rfl := Operation2D.operation_injective hnode'
    cases node with
    | convolution2D attr => trivial
    | depthwiseConvolution attr => trivial
    | pooling2D attr =>
      obtain hb | hb := Nat.eq_zero_or_pos shape.b
      · exact .inl hb
      obtain hc | hc := Nat.eq_zero_or_pos shape.c
      · exact .inr (.inl hc)
      exact .inr (.inr (avoidsPadding_of_same hz hb hc hsame))
  · intro havoid
    refine ⟨node.addPadding padAttr, hnode, fun f hf => ?_⟩
    cases node with
    | convolution2D attr => exact (same_convolution2D hz attr f).map _
    | depthwiseConvolution attr => exact (same_depthwiseConvolution hz attr f).map _
    | pooling2D attr =>
      obtain hb | hc | havoid := havoid
      · refine ⟨shape_merged hz attr f, fun n hn => absurd hn ?_⟩
        change ¬n < f.shape.b
        rw [hf, hb]
        exact Nat.not_lt_zero n
      · refine ⟨shape_merged hz attr f, fun n hn y hy x hx c hlt => absurd hlt ?_⟩
        change ¬c < f.shape.c
        rw [hf, hc]
        exact Nat.not_lt_zero c
      · subst hf
        exact same_of_avoidsPadding hz havoid

/-! ### A padding before a pooling -/

/-- Node 0 is the padding and node 1 the operation. -/
def paddedPair (padAttr : PadAttributes ℚ) (node : Operation2D ℚ) :
    GraphFloat32 (Operation ℚ) Unit :=
  ((reached chainOps).withOperation 0 (.pad padAttr)).withOperation 1 node.operation

theorem linked_paddedPair (padAttr : PadAttributes ℚ) (node : Operation2D ℚ) :
    (paddedPair padAttr node).Linked := by
  refine linked_withOperation (linked_withOperation (linked_reached chainOps) ?_) ?_
  · decide
  · rw [getNode_withOperation (by decide), Function.update_of_ne (by decide)]
    decide

/-- One row of zeros before the others. -/
def topRow : PadAttributes ℚ := ⟨.zeros, ⟨0, 1, 0, 0⟩, ⟨0, 0, 0, 0⟩, 0⟩

def maxOfTwo : Operation2D ℚ :=
  .pooling2D ⟨.max, ⟨1, 1⟩, ⟨2, 1⟩, ⟨⟨0, 0⟩, ⟨0, 0⟩⟩, false⟩

/-- One row of zeros after the others. -/
def bottomRow : PadAttributes ℚ := ⟨.zeros, ⟨0, 0, 0, 0⟩, ⟨0, 1, 0, 0⟩, 0⟩

def everyOther : Operation2D ℚ :=
  .pooling2D ⟨.average, ⟨2, 1⟩, ⟨1, 1⟩, ⟨⟨0, 0⟩, ⟨0, 0⟩⟩, false⟩

/-- A pooling that steps over the padding. -/
theorem everyOther_exact : ∃ r g', mergePaddingWith2DOperation .pooling2D 0 1
      (paddedPair bottomRow everyOther) = .ok r g' ∧
    ∃ node' : Operation2D ℚ, g'.getNode 1 = some node'.operation ∧ ∀ f : Image ℚ, f.shape = ⟨1, 1, 1, 1⟩ →
      (node'.eval f).Same (everyOther.eval (bottomRow.eval f)) := by
  have hpad : (paddedPair bottomRow everyOther).getNode 0 = some (.pad bottomRow) := rfl
  have hop : (paddedPair bottomRow everyOther).getNode 1 = some everyOther.operation := rfl
  obtain ⟨g', hrun⟩ : ∃ g', mergePaddingWith2DOperation .pooling2D 0 1
      (paddedPair bottomRow everyOther) = .ok ⟨.applied, bottomRow.message⟩ g' := ⟨_, rfl⟩
  have hlinked := linked_paddedPair bottomRow everyOther
  exact ⟨_, g', hrun, (mergePadding_exact_iff hlinked hpad hop rfl hrun rfl ⟨1, 1, 1, 1⟩).2
    (.inr (.inr (by decide)))⟩

/-- The maximum of `0` and `-1` is not that of `-1`. -/
theorem maxOfTwo_differs :
    ¬∀ (g g' : GraphFloat32 (Operation ℚ) Unit) (padNode opNode : NodeId)
        (padAttr : PadAttributes ℚ) (node : Operation2D ℚ) (r : TransformResult),
      g.Linked → g.getNode padNode = some (.pad padAttr) →
      g.getNode opNode = some node.operation → padAttr.constantValues = 0 →
      mergePaddingWith2DOperation node.type padNode opNode g = .ok r g' → r.status = .applied →
      ∃ node' : Operation2D ℚ, g'.getNode opNode = some node'.operation ∧ ∀ f : Image ℚ,
        (node'.eval f).Same (node.eval (padAttr.eval f)) := by
  intro h
  obtain ⟨node', hnode', hsame⟩ := h _ _ 0 1 topRow maxOfTwo _
    (linked_paddedPair topRow maxOfTwo) rfl rfl rfl rfl rfl
  have hmerged : node' = maxOfTwo.addPadding topRow :=
    Operation2D.operation_injective (Option.some.inj hnode').symm
  subst hmerged
  have hval := (hsame (.const ⟨1, 1, 1, 1⟩ (-1))).2 0 (by decide) 0 (by decide) 0 (by decide) 0
    (by decide)
  exact absurd hval (by decide +kernel)

end LiteRt.GpuFusion
