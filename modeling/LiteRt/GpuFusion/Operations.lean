import Mathlib.Algebra.BigOperators.Group.Finset.Basic
import Mathlib.Algebra.Order.Field.Basic
import Mathlib.Data.Finset.Range
import Mathlib.Tactic.Linarith
import Mathlib.Tactic.Ring

/-!
# Operations on images

The operations of the GPU graph that a padding or a constant is merged into, with exact
arithmetic for floating point. A read of an image outside its height and width gives zero.
-/

namespace LiteRt.GpuFusion

/-! ## Tensors -/

structure HW (α : Type) where
  h : α
  w : α
  deriving DecidableEq, Repr

def HW.Contains (size : HW Nat) (y x : Int) : Prop :=
  (0 ≤ y ∧ y < size.h) ∧ (0 ≤ x ∧ x < size.w)

instance (size : HW Nat) (y x : Int) : Decidable (size.Contains y x) :=
  inferInstanceAs (Decidable ((0 ≤ y ∧ y < size.h) ∧ (0 ≤ x ∧ x < size.w)))

structure BHWC where
  b : Nat
  h : Nat
  w : Nat
  c : Nat
  deriving DecidableEq, Repr

structure OHWI where
  o : Nat
  h : Nat
  w : Nat
  i : Nat
  deriving DecidableEq, Repr

def OHWI.linearIndex (s : OHWI) (o h w i : Nat) : Nat := ((o * s.h + h) * s.w + w) * s.i + i

def OHWI.dimensionsProduct (s : OHWI) : Nat := s.o * s.h * s.w * s.i

/-- What a node reads or writes. -/
structure Image (K : Type) where
  shape : BHWC
  val : Nat → Nat → Nat → Nat → K

namespace Image

variable {K : Type}

/-- Equal shapes, and equal values within them. -/
def Same (f g : Image K) : Prop :=
  f.shape = g.shape ∧ ∀ n < f.shape.b, ∀ y < f.shape.h, ∀ x < f.shape.w, ∀ c < f.shape.c,
    f.val n y x c = g.val n y x c

def size (f : Image K) : HW Nat := ⟨f.shape.h, f.shape.w⟩

/-- No value outside the image. -/
def read? (f : Image K) (n : Nat) (y x : Int) (c : Nat) : Option K :=
  if f.size.Contains y x ∧ n < f.shape.b ∧ c < f.shape.c then some (f.val n y.toNat x.toNat c)
  else none

/-- Zero outside the image. -/
def read [Zero K] (f : Image K) (n : Nat) (y x : Int) (c : Nat) : K := (f.read? n y x c).getD 0

end Image

/-- The weights of an operation, and its bias, which may be empty. -/
structure Filter (K : Type) where
  shape : OHWI
  data : List K
  bias : List K
  deriving DecidableEq, Repr

section
variable {K : Type} [Zero K]

def Filter.weightAt (f : Filter K) (o h w i : Nat) : K :=
  (f.data[f.shape.linearIndex o h w i]?).getD 0

def Filter.biasAt (f : Filter K) (channel : Nat) : K := (f.bias[channel]?).getD 0

end

/-! ## Attributes -/

structure Padding2D where
  prepended : HW Int
  appended : HW Int
  deriving DecidableEq, Repr

structure Convolution2DAttributes (K : Type) where
  strides : HW Nat
  dilations : HW Nat
  padding : Padding2D
  filter : Filter K
  groups : Nat
  deriving DecidableEq, Repr

abbrev DepthwiseConvolution2DAttributes (K : Type) := Convolution2DAttributes K

structure ConvolutionTransposedAttributes (K : Type) where
  stride : HW Nat
  adjacent : HW Nat
  padding : Padding2D
  filter : Filter K
  deriving DecidableEq, Repr

structure FullyConnectedAttributes (K : Type) where
  filter : Filter K
  deriving DecidableEq, Repr

inductive PoolingType where
  | average
  | max
  deriving DecidableEq, Repr

structure Pooling2DAttributes where
  type : PoolingType
  strides : HW Nat
  kernel : HW Nat
  padding : Padding2D
  outputIndices : Bool
  deriving DecidableEq, Repr

inductive PaddingContentType where
  | zeros
  | reflect
  | edge
  deriving DecidableEq, Repr

structure PadAttributes (K : Type) where
  type : PaddingContentType
  prepended : BHWC
  appended : BHWC
  constantValues : K
  deriving DecidableEq, Repr

inductive TensorOrScalar (K : Type) where
  | empty
  | hwc (data : List K)
  | linear (data : List K)
  | scalar (value : K)
  deriving DecidableEq, Repr

structure ElementwiseAttributes (K : Type) where
  param : TensorOrScalar K
  deriving DecidableEq, Repr

/-- The type of a node and its attributes. -/
inductive Operation (K : Type) where
  | pad (attr : PadAttributes K)
  | pooling2D (attr : Pooling2DAttributes)
  | convolution2D (attr : Convolution2DAttributes K)
  | depthwiseConvolution (attr : DepthwiseConvolution2DAttributes K)
  | convolutionTransposed (attr : ConvolutionTransposedAttributes K)
  | fullyConnected (attr : FullyConnectedAttributes K)
  | mul (attr : Option (ElementwiseAttributes K))
  | add (attr : Option (ElementwiseAttributes K))
  | other (type : String)
  deriving DecidableEq, Repr

instance (K : Type) : Inhabited (Operation K) := ⟨.other ""⟩

/-! ## Sizes -/

def calculateOutputSizeBeforeStrides (input kernel : Nat) (padding : Int) (dilation : Nat) :
    Int :=
  let dilatedKernel := ((kernel : Int) - 1) * dilation + 1
  input + padding - dilatedKernel + 1

/-- A window that does not fit has no position. -/
def stridedSize (size : Int) (stride : Nat) : Nat :=
  if 0 < size ∧ 0 < stride then (size.toNat + stride - 1) / stride else 0

def windowPositions (size : HW Nat) (kernel strides dilations : HW Nat) (padding : Padding2D) :
    HW Nat where
  h := stridedSize (calculateOutputSizeBeforeStrides size.h kernel.h
    (padding.prepended.h + padding.appended.h) dilations.h) strides.h
  w := stridedSize (calculateOutputSizeBeforeStrides size.w kernel.w
    (padding.prepended.w + padding.appended.w) dilations.w) strides.w

def OHWI.kernel (s : OHWI) : HW Nat := ⟨s.h, s.w⟩

/-! ## Results -/

section
variable {K : Type} [CommRing K]

/-- A zero-padded image if `constantValues` is zero. -/
def PadAttributes.eval (attr : PadAttributes K) (f : Image K) : Image K where
  shape :=
    { b := attr.appended.b + attr.prepended.b + f.shape.b
      h := attr.appended.h + attr.prepended.h + f.shape.h
      w := attr.appended.w + attr.prepended.w + f.shape.w
      c := attr.appended.c + attr.prepended.c + f.shape.c }
  val n y x c :=
    if attr.prepended.b ≤ n ∧ attr.prepended.c ≤ c then
      (f.read? (n - attr.prepended.b) (y - attr.prepended.h) (x - attr.prepended.w)
        (c - attr.prepended.c)).getD attr.constantValues
    else attr.constantValues

/-- The output channels of a group read the input channels of the group. -/
def Convolution2DAttributes.eval (attr : Convolution2DAttributes K) (f : Image K) : Image K where
  shape :=
    let positions := windowPositions f.size attr.filter.shape.kernel attr.strides attr.dilations
      attr.padding
    ⟨f.shape.b, positions.h, positions.w, attr.filter.shape.o⟩
  val n y x d :=
    let group := d / (attr.filter.shape.o / attr.groups)
    (∑ ky ∈ Finset.range attr.filter.shape.h, ∑ kx ∈ Finset.range attr.filter.shape.w,
      ∑ s ∈ Finset.range attr.filter.shape.i, attr.filter.weightAt d ky kx s *
        f.read n (y * attr.strides.h - attr.padding.prepended.h + ky * attr.dilations.h)
          (x * attr.strides.w - attr.padding.prepended.w + kx * attr.dilations.w)
          (group * attr.filter.shape.i + s)) + attr.filter.biasAt d

/-- Output channel `s * o + g` reads input channel `s` only. -/
def Convolution2DAttributes.evalDepthwise (attr : DepthwiseConvolution2DAttributes K)
    (f : Image K) : Image K where
  shape :=
    let positions := windowPositions f.size attr.filter.shape.kernel attr.strides attr.dilations
      attr.padding
    ⟨f.shape.b, positions.h, positions.w, attr.filter.shape.o * attr.filter.shape.i⟩
  val n y x d :=
    let g := d % attr.filter.shape.o
    let s := d / attr.filter.shape.o
    (∑ ky ∈ Finset.range attr.filter.shape.h, ∑ kx ∈ Finset.range attr.filter.shape.w,
      attr.filter.weightAt g ky kx s *
        f.read n (y * attr.strides.h - attr.padding.prepended.h + ky * attr.dilations.h)
          (x * attr.strides.w - attr.padding.prepended.w + kx * attr.dilations.w) s) +
      attr.filter.biasAt d

end

/-! ## Pooling -/

/-- A value, none where the kernel gives NaN, and the index of a maximum if asked for. -/
structure Pooled (K : Type) where
  value : Option K
  index : Option Nat
  deriving DecidableEq, Repr

def kernelPositions (kernel : HW Nat) : List (Nat × Nat) :=
  (List.range kernel.h).flatMap fun ky => (List.range kernel.w).map fun kx => (ky, kx)

section
variable {K : Type}

def Pooling2DAttributes.readAt (attr : Pooling2DAttributes) (f : Image K) (n y x c : Nat)
    (k : Nat × Nat) : Option K :=
  f.read? n (y * attr.strides.h + -attr.padding.prepended.h + k.1)
    (x * attr.strides.w + -attr.padding.prepended.w + k.2) c

/-- The larger value with its position; the first one if they are equal. -/
def maxStep [LT K] [DecidableLT K] (width : Nat) (reads : Nat × Nat → Option K)
    (acc : K × Nat) (k : Nat × Nat) : K × Nat :=
  match reads k with
  | some src => if acc.1 < src then (src, k.1 * width + k.2) else acc
  | none => acc

variable [Field K] [LinearOrder K]

def averagePool (reads : List K) : Option K :=
  if reads.length = 0 then none else some (reads.sum / reads.length)

def Pooling2DAttributes.eval (attr : Pooling2DAttributes) (f : Image K) : Image (Pooled K) where
  shape :=
    let positions := windowPositions f.size attr.kernel attr.strides ⟨1, 1⟩ attr.padding
    ⟨f.shape.b, positions.h, positions.w, f.shape.c⟩
  val n y x c :=
    match attr.type with
    | .average => ⟨averagePool ((kernelPositions attr.kernel).filterMap
        (attr.readAt f n y x c)), none⟩
    | .max =>
      let maximum := (kernelPositions attr.kernel).foldl
        (maxStep attr.kernel.w (attr.readAt f n y x c)) (-10000, 0)
      ⟨some maximum.1, if attr.outputIndices then some maximum.2 else none⟩

end

/-!
## Summed paddings

A padding that is merged into an operation becomes a part of the operation's own. For the
convolutions both read as zero. Pooling skips its own padding, but not the zeros of the other.
-/

variable {K : Type}

/-! ### The operations -/

/-- The operations the transformation is instantiated for. -/
inductive Operation2D (K : Type) where
  | convolution2D (attr : Convolution2DAttributes K)
  | depthwiseConvolution (attr : DepthwiseConvolution2DAttributes K)
  | pooling2D (attr : Pooling2DAttributes)
  deriving DecidableEq, Repr

def PadAttributes.addTo (pad : PadAttributes K) (padding : Padding2D) : Padding2D where
  appended :=
    { h := padding.appended.h + pad.appended.h
      w := padding.appended.w + pad.appended.w }
  prepended :=
    { h := padding.prepended.h + pad.prepended.h
      w := padding.prepended.w + pad.prepended.w }

def Operation2D.addPadding (pad : PadAttributes K) : Operation2D K → Operation2D K
  | convolution2D attr => .convolution2D { attr with padding := pad.addTo attr.padding }
  | depthwiseConvolution attr =>
    .depthwiseConvolution { attr with padding := pad.addTo attr.padding }
  | pooling2D attr => .pooling2D { attr with padding := pad.addTo attr.padding }

def Image.map {α β : Type} (g : α → β) (f : Image α) : Image β :=
  ⟨f.shape, fun n y x c => g (f.val n y x c)⟩

def Operation2D.eval [Field K] [LinearOrder K] (f : Image K) : Operation2D K → Image (Pooled K)
  | convolution2D attr => (attr.eval f).map fun v => ⟨some v, none⟩
  | depthwiseConvolution attr => (attr.evalDepthwise f).map fun v => ⟨some v, none⟩
  | pooling2D attr => attr.eval f

/-- Zeros before and after the rows and the columns, and nowhere else. -/
structure PadAttributes.ZeroHW [Zero K] (pad : PadAttributes K) : Prop where
  b : pad.appended.b = 0 ∧ pad.prepended.b = 0
  c : pad.appended.c = 0 ∧ pad.prepended.c = 0
  constantValues : pad.constantValues = 0

/-! ### Where the padding is read -/

def PadAttributes.padded (pad : PadAttributes K) (size : HW Nat) : HW Nat :=
  ⟨pad.appended.h + pad.prepended.h + size.h, pad.appended.w + pad.prepended.w + size.w⟩

/-- The row of a read of the padded image. -/
def Pooling2DAttributes.row (attr : Pooling2DAttributes) (y : Nat) (k : Nat × Nat) : Int :=
  y * attr.strides.h + -attr.padding.prepended.h + k.1

def Pooling2DAttributes.column (attr : Pooling2DAttributes) (x : Nat) (k : Nat × Nat) : Int :=
  x * attr.strides.w + -attr.padding.prepended.w + k.2

/-- No window of the padded image covers a pixel of the padding. -/
def Pooling2DAttributes.AvoidsPadding (attr : Pooling2DAttributes) (pad : PadAttributes K)
    (size : HW Nat) : Prop :=
  let positions := windowPositions (pad.padded size) attr.kernel attr.strides ⟨1, 1⟩ attr.padding
  ∀ y < positions.h, ∀ x < positions.w, ∀ k ∈ kernelPositions attr.kernel,
    (pad.padded size).Contains (attr.row y k) (attr.column x k) →
      size.Contains (attr.row y k - pad.prepended.h) (attr.column x k - pad.prepended.w)

instance (attr : Pooling2DAttributes) (pad : PadAttributes K) (size : HW Nat) :
    Decidable (attr.AvoidsPadding pad size) :=
  inferInstanceAs (Decidable (∀ y < (windowPositions (pad.padded size) attr.kernel attr.strides
      ⟨1, 1⟩ attr.padding).h, ∀ x < (windowPositions (pad.padded size) attr.kernel attr.strides
      ⟨1, 1⟩ attr.padding).w, ∀ k ∈ kernelPositions attr.kernel,
    (pad.padded size).Contains (attr.row y k) (attr.column x k) →
      size.Contains (attr.row y k - pad.prepended.h) (attr.column x k - pad.prepended.w)))

/-- Whether the zeros of the padding can be skipped. -/
def Operation2D.AvoidsPadding (pad : PadAttributes K) (shape : BHWC) : Operation2D K → Prop
  | convolution2D _ | depthwiseConvolution _ => True
  | pooling2D attr => shape.b = 0 ∨ shape.c = 0 ∨ attr.AvoidsPadding pad ⟨shape.h, shape.w⟩

theorem windowPositions_padded (pad : PadAttributes K) (size kernel strides dilations : HW Nat)
    (padding : Padding2D) :
    windowPositions (pad.padded size) kernel strides dilations padding =
      windowPositions size kernel strides dilations (pad.addTo padding) := by
  have hsize : ∀ a p s k d : Nat, ∀ q r : Int,
      calculateOutputSizeBeforeStrides (a + p + s) k (q + r) d =
        calculateOutputSizeBeforeStrides s k (q + p + (r + a)) d := by
    intro a p s k d q r
    simp only [calculateOutputSizeBeforeStrides, Nat.cast_add]
    ring
  simp only [windowPositions, PadAttributes.padded, PadAttributes.addTo, hsize]

theorem PadAttributes.contains_padded {pad : PadAttributes K} {size : HW Nat} {y x : Int}
    (h : size.Contains (y - pad.prepended.h) (x - pad.prepended.w)) :
    (pad.padded size).Contains y x := by
  unfold HW.Contains at h ⊢
  simp only [padded, Nat.cast_add]
  omega

theorem size_eval (pad : PadAttributes K) (f : Image K) :
    (pad.eval f).size = pad.padded f.size := rfl

section
variable [CommRing K] {pad : PadAttributes K} {f : Image K} {n c : Nat} {y x : Int}

theorem read?_eval (h : pad.ZeroHW) (hn : n < f.shape.b) (hc : c < f.shape.c) :
    (pad.eval f).read? n y x c =
      if (pad.padded f.size).Contains y x then
        some (f.read n (y - pad.prepended.h) (x - pad.prepended.w) c)
      else none := by
  obtain ⟨⟨hb₁, hb₂⟩, ⟨hc₁, hc₂⟩, hzero⟩ := h
  have hbatch : n < (pad.eval f).shape.b := by
    simpa [PadAttributes.eval, hb₁, hb₂] using hn
  have hchannel : c < (pad.eval f).shape.c := by
    simpa [PadAttributes.eval, hc₁, hc₂] using hc
  unfold Image.read?
  rw [size_eval]
  by_cases hin : (pad.padded f.size).Contains y x
  · rw [if_pos ⟨hin, hbatch, hchannel⟩, if_pos hin]
    have hy : (y.toNat : Int) = y := Int.toNat_of_nonneg hin.1.1
    have hx : (x.toNat : Int) = x := Int.toNat_of_nonneg hin.2.1
    simp [PadAttributes.eval, Image.read, hb₂, hc₂, hzero, hy, hx]
  · rw [if_neg fun hall => hin hall.1, if_neg hin]

/-- A padding of zeros reads as the positions outside do. -/
theorem read_eval (h : pad.ZeroHW) :
    (pad.eval f).read n y x c = f.read n (y - pad.prepended.h) (x - pad.prepended.w) c := by
  by_cases hnc : n < f.shape.b ∧ c < f.shape.c
  · rw [Image.read, read?_eval h hnc.1 hnc.2]
    by_cases hin : (pad.padded f.size).Contains y x
    · rw [if_pos hin, Option.getD_some]
    · have hout : ¬f.size.Contains (y - pad.prepended.h) (x - pad.prepended.w) :=
        fun hin' => hin (PadAttributes.contains_padded hin')
      rw [if_neg hin, Image.read, Image.read?, if_neg fun hall => hout hall.1]
  · obtain ⟨⟨hb₁, hb₂⟩, ⟨hc₁, hc₂⟩, -⟩ := h
    have hnc' : ¬(n < (pad.eval f).shape.b ∧ c < (pad.eval f).shape.c) := by
      simpa [PadAttributes.eval, hb₁, hb₂, hc₁, hc₂] using hnc
    rw [Image.read, Image.read?, if_neg fun hall => hnc' hall.2, Image.read, Image.read?,
      if_neg fun hall => hnc hall.2]

end

/-! ### Convolutions -/

section
variable [CommRing K] {pad : PadAttributes K}

theorem shape_eval (h : pad.ZeroHW) (f : Image K) :
    (pad.eval f).shape.b = f.shape.b ∧ (pad.eval f).shape.c = f.shape.c := by
  obtain ⟨⟨hb₁, hb₂⟩, ⟨hc₁, hc₂⟩, -⟩ := h
  simp [PadAttributes.eval, hb₁, hb₂, hc₁, hc₂]

/-- A tap at a position of the padded image is one of the image. -/
theorem tap_shift (y stride k dilation : Nat) (own : Int) (pad : Nat) :
    (y : Int) * stride - own + k * dilation - pad = y * stride - (own + pad) + k * dilation := by
  ring

theorem same_convolution2D (h : pad.ZeroHW) (attr : Convolution2DAttributes K) (f : Image K) :
    (Convolution2DAttributes.eval { attr with padding := pad.addTo attr.padding } f).Same
      (attr.eval (pad.eval f)) := by
  constructor
  · simp only [Convolution2DAttributes.eval, size_eval, windowPositions_padded, (shape_eval h f).1]
  · intro n _ y _ x _ d _
    simp only [Convolution2DAttributes.eval, read_eval h, tap_shift, PadAttributes.addTo]

theorem same_depthwiseConvolution (h : pad.ZeroHW) (attr : DepthwiseConvolution2DAttributes K)
    (f : Image K) :
    (Convolution2DAttributes.evalDepthwise { attr with padding := pad.addTo attr.padding } f).Same
      (attr.evalDepthwise (pad.eval f)) := by
  constructor
  · simp only [Convolution2DAttributes.evalDepthwise, size_eval, windowPositions_padded,
      (shape_eval h f).1]
  · intro n _ y _ x _ d _
    simp only [Convolution2DAttributes.evalDepthwise, read_eval h, tap_shift, PadAttributes.addTo]

end

end LiteRt.GpuFusion
