import LiteRt.GpuLayout.Phwc4

/-!
# Weights in blocks of four by four

The weights of four outputs and four inputs stand together. They come in one of two orders, and
each has a loop of its own.
-/

namespace LiteRt.GpuLayout

open LiteRt.Lib List

structure OHWI where
  o : Nat
  h : Nat
  w : Nat
  i : Nat
  deriving DecidableEq, Repr

structure IHWO where
  i : Nat
  h : Nat
  w : Nat
  o : Nat
  deriving DecidableEq, Repr

def OHWI.dimensionsProduct (shape : OHWI) : Nat := shape.o * shape.h * shape.w * shape.i

def OHWI.linearIndex (shape : OHWI) (o h w i : Nat) : Nat :=
  ((o * shape.h + h) * shape.w + w) * shape.i + i

def IHWO.dimensionsProduct (shape : IHWO) : Nat := shape.i * shape.h * shape.w * shape.o

def IHWO.linearIndex (shape : IHWO) (i h w o : Nat) : Nat :=
  ((i * shape.h + h) * shape.w + w) * shape.o + o

def kPhwo4i4ChannelsInPlane : Nat := 4

/-- `GetElementsSizeForPHWO4I4`, of either order. -/
def getElementsSizeForPHWO4I4 (o h w i : Nat) : Option Nat :=
  fitsInt (alignByN i kPhwo4i4ChannelsInPlane * alignByN o kPhwo4i4ChannelsInPlane * h * w)

variable {α : Type}

/-- The values that the loops store one after the other. -/
def valuesOfOHWI (zero : α) (input : List α) (shape : OHWI) (reverseSpace : Bool) :
    Option (List α) :=
  forEach (fun p => forEach (fun h => forEach (fun w => forEach (fun c => forEach (fun co =>
    forEach (fun ci => do
      if c * kPhwo4i4ChannelsInPlane + ci < shape.i ∧
          p * kPhwo4i4ChannelsInPlane + co < shape.o then
        let tensorO := p * kPhwo4i4ChannelsInPlane + co
        let tensorI := c * kPhwo4i4ChannelsInPlane + ci
        let inH := if reverseSpace then shape.h - 1 - h else h
        let inW := if reverseSpace then shape.w - 1 - w else w
        let value ← input[shape.linearIndex tensorO inH inW tensorI]?
        some [value]
      else
        some [zero]) kPhwo4i4ChannelsInPlane) kPhwo4i4ChannelsInPlane)
    (divideRoundUp shape.i kPhwo4i4ChannelsInPlane)) shape.w) shape.h)
    (divideRoundUp shape.o kPhwo4i4ChannelsInPlane)

def valuesOfIHWO (zero : α) (input : List α) (shape : IHWO) : Option (List α) :=
  let dstDepth := divideRoundUp shape.o 4
  let srcDepth := divideRoundUp shape.i 4
  forEach (fun f => forEach (fun y => forEach (fun x => forEach (fun ch => forEach (fun co =>
    forEach (fun ci => do
      let srcChannel := ch * 4 + ci
      let dstChannel := f * 4 + co
      if srcChannel < shape.i ∧ dstChannel < shape.o then
        let value ← input[shape.linearIndex srcChannel y x dstChannel]?
        some [value]
      else
        some [zero]) 4) 4) srcDepth) shape.w) shape.h) dstDepth

/-- `*output++ = value` -/
def storeInOrder (values out : List α) : Option (List α) :=
  storeAll (values.zipIdx.map fun v => ⟨v.2, v.1⟩) out

/-- What the two functions have in common. -/
def convertWeights (product o h w i : Nat) (values : Option (List α)) (input out : List α) :
    Except Failure (List α) := do
  if input.length ≠ product then
    .error (sizeMismatch "ConvertToPHWO4I4" "Input" input.length product)
  else
    let size ← orUndefined (getElementsSizeForPHWO4I4 o h w i)
    if out.length ≠ size then .error (sizeMismatch "ConvertToPHWO4I4" "Output" out.length size)
    else
      let values ← orUndefined values
      orUndefined (storeInOrder values out)

def convertOHWIToPHWO4I4 (zero : α) (input : List α) (shape : OHWI) (out : List α)
    (reverseSpace : Bool) : Except Failure (List α) :=
  convertWeights shape.dimensionsProduct shape.o shape.h shape.w shape.i
    (valuesOfOHWI zero input shape reverseSpace) input out

def convertIHWOToPHWO4I4 (zero : α) (input : List α) (shape : IHWO) (out : List α) :
    Except Failure (List α) :=
  convertWeights shape.dimensionsProduct shape.o shape.h shape.w shape.i
    (valuesOfIHWO zero input shape) input out

variable {zero : α} {shape : OHWI} {ohwi ihwo : List α}

def OHWI.toIHWO (shape : OHWI) : IHWO := ⟨shape.i, shape.h, shape.w, shape.o⟩

/-- The same weights in both orders. -/
structure SameWeights (shape : OHWI) (ohwi ihwo : List α) : Prop where
  ohwi_length : ohwi.length = shape.dimensionsProduct
  ihwo_length : ihwo.length = shape.toIHWO.dimensionsProduct
  weight : ∀ o < shape.o, ∀ h < shape.h, ∀ w < shape.w, ∀ i < shape.i,
    ohwi[shape.linearIndex o h w i]? = ihwo[shape.toIHWO.linearIndex i h w o]?

def blockValue (zero : α) (ohwi : List α) (shape : OHWI) (p h w c co ci : Nat) : α :=
  if c * 4 + ci < shape.i ∧ p * 4 + co < shape.o then
    ohwi.getD (shape.linearIndex (p * 4 + co) h w (c * 4 + ci)) zero
  else zero

def blockValues (zero : α) (ohwi : List α) (shape : OHWI) : List α :=
  (List.range (divideRoundUp shape.o 4)).flatMap fun p => (List.range shape.h).flatMap fun h =>
    (List.range shape.w).flatMap fun w => (List.range (divideRoundUp shape.i 4)).flatMap fun c =>
      (List.range 4).flatMap fun co => (List.range 4).flatMap fun ci =>
        [blockValue zero ohwi shape p h w c co ci]

theorem linearIndex_lt {o h w i : Nat} (ho : o < shape.o) (hh : h < shape.h) (hw : w < shape.w)
    (hi : i < shape.i) : shape.linearIndex o h w i < shape.dimensionsProduct :=
  digit_lt (digit_lt (digit_lt ho hh) hw) hi

theorem valuesOfOHWI_eq (hlen : ohwi.length = shape.dimensionsProduct) :
    valuesOfOHWI zero ohwi shape false = some (blockValues zero ohwi shape) := by
  refine forEach_eq fun p _ => forEach_eq fun h hh => forEach_eq fun w hw => forEach_eq fun c _ =>
    forEach_eq fun co _ => forEach_eq fun ci _ => ?_
  unfold blockValue kPhwo4i4ChannelsInPlane
  split
  · next hinside =>
    have hlt := linearIndex_lt hinside.2 hh hw hinside.1
    show (ohwi[shape.linearIndex (p * 4 + co) h w (c * 4 + ci)]? >>= _) = _
    rw [getElem?_eq_getElem (by omega), getD_eq_getElem _ _ (by omega)]
    rfl
  · rfl

theorem valuesOfIHWO_eq (hsame : SameWeights shape ohwi ihwo) :
    valuesOfIHWO zero ihwo shape.toIHWO = some (blockValues zero ohwi shape) := by
  refine forEach_eq fun p _ => forEach_eq fun h hh => forEach_eq fun w hw => forEach_eq fun c _ =>
    forEach_eq fun co _ => forEach_eq fun ci _ => ?_
  unfold blockValue
  show (if c * 4 + ci < shape.i ∧ p * 4 + co < shape.o then _ else _) = _
  split
  · next hinside =>
    have hlt := linearIndex_lt hinside.2 hh hw hinside.1
    rw [← hsame.ohwi_length] at hlt
    rw [← hsame.weight _ hinside.2 h hh w hw _ hinside.1, getElem?_eq_getElem hlt,
      getD_eq_getElem _ _ hlt]
    rfl
  · rfl

theorem length_blockValues (zero : α) (ohwi : List α) (shape : OHWI) :
    (blockValues zero ohwi shape).length =
      alignByN shape.i 4 * alignByN shape.o 4 * shape.h * shape.w := by
  unfold blockValues alignByN
  simp only [length_flatMap, length_singleton, map_const', sum_replicate_nat, length_range]
  ring

theorem storeInOrder_eq (zero : α) {values out : List α} (h : values.length = out.length) :
    storeInOrder values out = some values := by
  have hstores := @storeAll_eq α (values.zipIdx.map fun v => ⟨v.2, v.1⟩) out
    (fun q => values.getD q zero) (fun s hs => ?_) fun q hq => .inl ?_
  · unfold storeInOrder
    rw [hstores]
    refine congrArg some (ext_getElem (by simp [h]) fun q hq hq' => ?_)
    rw [getElem_map, getElem_range, getD_eq_getElem _ _ hq']
  · obtain ⟨v, hv, rfl⟩ := mem_map.1 hs
    have hget := mk_mem_zipIdx_iff_getElem?.1 hv
    obtain ⟨hlt, hvalue⟩ := List.getElem?_eq_some_iff.1 hget
    exact ⟨h ▸ hlt, (by rw [getD_eq_getElem _ _ hlt, hvalue])⟩
  · rw [← h] at hq
    rw [List.map_map]
    refine mem_map.2 ⟨(values[q], q), ?_, rfl⟩
    exact mk_mem_zipIdx_iff_getElem?.2 (getElem?_eq_getElem hq)

/-- Whichever way the values are found, they are the output. -/
theorem convertWeights_eq (zero : α) {product o h w i size : Nat} {input out values : List α}
    (hinput : input.length = product) (hsize : getElementsSizeForPHWO4I4 o h w i = some size)
    (hout : out.length = size) (hvalues : values.length = size) :
    convertWeights product o h w i (some values) input out = .ok values := by
  unfold convertWeights
  rw [if_neg (not_not.2 hinput), hsize]
  show (if out.length ≠ size then _ else _) = _
  rw [if_neg (not_not.2 hout)]
  show orUndefined (storeInOrder values out) = _
  rw [storeInOrder_eq zero (by omega)]
  rfl

/-! ## Nothing is lost -/

/-- A shape whose packed array an `int` can index. -/
structure PackedShape extends BHWC where
  fits : toBHWC.b * toBHWC.h * toBHWC.w * alignByN toBHWC.c kPhwc4ChannelsInPlane < 2 ^ 31

/-- A shape whose blocks an `int` can index. -/
structure BlockShape extends OHWI where
  fits : alignByN toOHWI.i 4 * alignByN toOHWI.o 4 * toOHWI.h * toOHWI.w < 2 ^ 31

/-- The place of an element in the packed array. -/
def phwc4Index (shape : BHWC) (b y x c : Nat) : Nat :=
  ((b * divideRoundUp shape.c 4 + c / 4) * (shape.h * shape.w) + y * shape.w + x) * 4 + c % 4

/-- Each place of the packed array is stored once, the elements where they belong and zeros
elsewhere. -/
structure Packs (zero : α) (shape : BHWC) (data : List α) (stores : List (Store α))
    (packed : List α) : Prop where
  once : (stores.map Store.position).Perm (List.range packed.length)
  element : ∀ b < shape.b, ∀ y < shape.h, ∀ x < shape.w, ∀ c < shape.c,
    packed[phwc4Index shape b y x c]? = data[shape.linearIndex b y x c]?
  padding : ∀ q < packed.length, (∀ b < shape.b, ∀ y < shape.h, ∀ x < shape.w, ∀ c < shape.c,
    q ≠ phwc4Index shape b y x c) → packed[q]? = some zero

theorem packedSize_of_shape (shape : BHWC) : shape.packedSize =
    shape.b * shape.h * shape.w * alignByN shape.c kPhwc4ChannelsInPlane := by
  unfold BHWC.packedSize BHWC.numPlanes BHWC.numPixels alignByN kPhwc4ChannelsInPlane
  ring

theorem PackedShape.elementsSize (shape : PackedShape) :
    getElementsSizeForPHWC4 shape.toBHWC = some shape.packedSize := by
  unfold getElementsSizeForPHWC4
  rw [packedSize_of_shape, fitsInt, if_pos shape.fits]

theorem PackedShape.packedSize_lt (shape : PackedShape) : shape.packedSize < 2 ^ 31 := by
  rw [packedSize_of_shape]
  exact shape.fits

section
variable {shape : BHWC} {data : List α} {b y x c : Nat} {places : List Nat} {out : List α}

theorem phwc4Index_eq (shape : BHWC) (b y x c : Nat) : phwc4Index shape b y x c =
    shape.packedPlace b (c / 4) (y * shape.w + x) (c % 4) := by
  unfold phwc4Index BHWC.packedPlace BHWC.numPlanes BHWC.numPixels
  rw [Nat.add_assoc]

theorem plane_lt (hc : c < shape.c) : c / 4 < shape.numPlanes := by
  rw [numPlanes_eq]
  split
  · omega
  · omega

theorem getElem?_packed_element (hdata : data.length = shape.dimensionsProduct) (hb : b < shape.b)
    (hy : y < shape.h) (hx : x < shape.w) (hc : c < shape.c) :
    (packed zero data shape)[phwc4Index shape b y x c]? = data[shape.linearIndex b y x c]? := by
  have hpixel : y * shape.w + x < shape.numPixels := digit_lt hy hx
  have hk : c % 4 < 4 := Nat.mod_lt _ (by decide)
  have hlinear : shape.place b (y * shape.w + x) c = shape.linearIndex b y x c := by
    unfold BHWC.place BHWC.linearIndex BHWC.numPixels
    ring
  have hlt := place_lt hb hpixel hc
  rw [phwc4Index_eq, getElem?_packed (packedPlace_lt hb (plane_lt hc) hpixel hk),
    packedValue_packedPlace (plane_lt hc) hpixel hk, Nat.div_add_mod', if_pos hc, hlinear]
  rw [hlinear, ← hdata] at hlt
  rw [getD_eq_getElem _ _ hlt, getElem?_eq_getElem hlt]

/-- A place that is of no element is of a channel behind the last one. -/
theorem getElem?_packed_padding {q : Nat} (hq : q < shape.packedSize)
    (h : ∀ b < shape.b, ∀ y < shape.h, ∀ x < shape.w, ∀ c < shape.c,
      q ≠ phwc4Index shape b y x c) : (packed zero data shape)[q]? = some zero := by
  rw [getElem?_packed hq]
  refine congrArg some (if_neg fun hc => ?_)
  have hw := shape.positive.2.2.1
  have hpixels := Nat.mod_lt (q / 4) (numPixels_pos shape)
  have hplane := Nat.mod_lt (q / 4 / shape.numPixels) (numPlanes_pos shape)
  have hb : q / 4 / shape.numPixels / shape.numPlanes < shape.b := by
    have hpacked : q < 4 * (shape.numPixels * (shape.numPlanes * shape.b)) := by
      rw [packedSize_eq] at hq
      calc
        q < shape.b * (shape.numPixels * shape.numPlanes * 4) := hq
        _ = 4 * (shape.numPixels * (shape.numPlanes * shape.b)) := by ring
    exact Nat.div_lt_of_lt_mul (Nat.div_lt_of_lt_mul (Nat.div_lt_of_lt_mul hpacked))
  refine h _ hb (q / 4 % shape.numPixels / shape.w) ?_ (q / 4 % shape.numPixels % shape.w)
    (Nat.mod_lt _ hw) _ hc ?_
  · exact Nat.div_lt_of_lt_mul (Nat.mul_comm shape.h shape.w ▸ hpixels)
  · rw [phwc4Index_eq, digit_div (Nat.mod_lt _ (by decide)), digit_mod (Nat.mod_lt _ (by decide)),
      Nat.div_add_mod', BHWC.packedPlace, Nat.div_add_mod', Nat.div_add_mod', Nat.div_add_mod']

/-- The stores of packing give the packed array, whatever was there. -/
theorem storeAll_places (hplaces : places.Perm (List.range shape.packedSize))
    (hout : out.length = shape.packedSize) :
    storeAll (places.map (storeAt zero data shape)) out = some (packed zero data shape) := by
  rw [storeAll_eq (f := packedValue zero data shape) ?_ ?_, hout]
  · rfl
  · intro s hs
    obtain ⟨q, hq, rfl⟩ := mem_map.1 hs
    rw [hout]
    exact ⟨mem_range.1 (hplaces.mem_iff.1 hq), rfl⟩
  · intro q hq
    rw [hout] at hq
    left
    rw [List.map_map]
    exact mem_map.2 ⟨q, hplaces.mem_iff.2 (mem_range.2 hq), rfl⟩

theorem storeAll_placesBack (hplaces : ∀ q, q ∈ places ↔ q < data.length)
    (hout : out.length = data.length) :
    storeAll (places.map (storeBack zero data)) out = some data := by
  rw [storeAll_eq (f := fun q => data.getD q zero) ?_ ?_, hout]
  · refine congrArg some (ext_getElem (by simp) fun q hq hq' => ?_)
    rw [getElem_map, getElem_range, getD_eq_getElem _ _ hq']
  · intro s hs
    obtain ⟨q, hq, rfl⟩ := mem_map.1 hs
    rw [hout]
    exact ⟨(hplaces q).1 hq, rfl⟩
  · intro q hq
    rw [hout] at hq
    left
    rw [List.map_map]
    exact mem_map.2 ⟨q, (hplaces q).2 hq, rfl⟩

end

/-- The layouts lose nothing: packed arrays are unpacked to what they were, and the blocks do not
depend on the order of the weights. -/
theorem layouts_lossless (zero : α) :
    (∀ (shape : PackedShape) (data out out' : List α),
      data.length = shape.dimensionsProduct →
      getElementsSizeForPHWC4 shape.toBHWC = some out.length →
      out'.length = shape.dimensionsProduct →
      ∃ stores packed, storesToPHWC4 zero data shape.toBHWC = some stores ∧
        convertToPHWC4 zero data shape.toBHWC out = .ok packed ∧
        convertFromPHWC4 packed shape.toBHWC out' = .ok data ∧
        Packs zero shape.toBHWC data stores packed) ∧
    ∀ (shape : BlockShape) (ohwi ihwo out : List α), SameWeights shape.toOHWI ohwi ihwo →
      getElementsSizeForPHWO4I4 shape.o shape.h shape.w shape.i = some out.length →
      ∃ blocks, convertOHWIToPHWO4I4 zero ohwi shape.toOHWI out false = .ok blocks ∧
        convertIHWOToPHWO4I4 zero ihwo shape.toOHWI.toIHWO out = .ok blocks := by
  constructor
  · intro shape data out out' hdata hout hout'
    rw [shape.elementsSize, Option.some.injEq] at hout
    obtain ⟨places, hplaces, hstores⟩ := @storesToPHWC4_eq α zero data _ hdata shape.packedSize_lt
    obtain ⟨placesBack, hback, hstoresBack⟩ :=
      @storesFromPHWC4_eq α zero data _ shape.packedSize_lt
    rw [← hdata] at hback
    refine ⟨_, packed zero data shape.toBHWC, hstores, ?_, ?_, ?_, ?_, ?_⟩
    · unfold convertToPHWC4
      rw [if_neg (not_not.2 hdata), shape.elementsSize]
      show (if out.length ≠ shape.packedSize then _ else _) = _
      rw [if_neg (not_not.2 hout.symm), hstores]
      show orUndefined (storeAll _ out) = _
      rw [storeAll_places hplaces hout.symm]
      rfl
    · unfold convertFromPHWC4
      rw [shape.elementsSize]
      show (if (packed zero data shape.toBHWC).length ≠ shape.packedSize then _ else _) = _
      rw [if_neg (not_not.2 (length_packed zero data shape.toBHWC)), if_neg (not_not.2 hout'),
        hstoresBack]
      show orUndefined (storeAll _ out') = _
      rw [storeAll_placesBack hback (hout'.trans hdata.symm)]
      rfl
    · rw [List.map_map, length_packed]
      have hid : Store.position ∘ storeAt zero data shape.toBHWC = id := rfl
      rwa [hid, map_id]
    · intro b hb y hy x hx c hc
      exact getElem?_packed_element hdata hb hy hx hc
    · intro q hq h
      rw [length_packed] at hq
      exact getElem?_packed_padding hq h
  · intro shape ohwi ihwo out hsame hout
    have hsize : out.length = alignByN shape.i 4 * alignByN shape.o 4 * shape.h * shape.w := by
      unfold getElementsSizeForPHWO4I4 at hout
      rw [fitsInt, kPhwo4i4ChannelsInPlane, if_pos shape.fits] at hout
      exact (Option.some.inj hout).symm
    have hlen : (blockValues zero ohwi shape.toOHWI).length = out.length := by
      rw [length_blockValues, hsize]
    refine ⟨blockValues zero ohwi shape.toOHWI, ?_, ?_⟩
    · unfold convertOHWIToPHWO4I4
      rw [valuesOfOHWI_eq hsame.ohwi_length]
      exact convertWeights_eq zero hsame.ohwi_length hout rfl hlen
    · unfold convertIHWOToPHWO4I4
      rw [valuesOfIHWO_eq hsame]
      exact convertWeights_eq zero hsame.ihwo_length hout rfl hlen

end LiteRt.GpuLayout
