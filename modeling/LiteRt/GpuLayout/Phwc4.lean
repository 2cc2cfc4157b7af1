import LiteRt.Lib.Broadcast
import LiteRt.Lib.Stores

/-!
# The layout with planes of four channels

A packed array has a plane for each four channels of each batch, with four numbers for each
pixel. Packing and unpacking copy the full planes and then what remains.
-/

namespace LiteRt.GpuLayout

open LiteRt.Lib List

variable {q : Nat}

section

inductive Failure where
  | invalidArgument (message : String)
  /-- An access outside an array, or an `int` that overflows. -/
  | undefined
  deriving DecidableEq, Repr

def divideRoundUp (n divisor : Nat) : Nat :=
  if n % divisor = 0 then n / divisor else n / divisor + 1

def alignByN (number n : Nat) : Nat := divideRoundUp number n * n

def fitsInt (n : Nat) : Option Nat := if n < 2 ^ 31 then some n else none

def orUndefined {β : Type} : Option β → Except Failure β
  | some b => .ok b
  | none => .error .undefined

def sizeMismatch (function which : String) (size expected : Nat) : Failure :=
  .invalidArgument (function ++ ": " ++ which ++ " data size does not match expected size: "
    ++ toString size ++ " != " ++ toString expected)

structure BHWC where
  b : Nat
  h : Nat
  w : Nat
  c : Nat
  positive : 0 < b ∧ 0 < h ∧ 0 < w ∧ 0 < c
  deriving DecidableEq, Repr

namespace BHWC

variable (shape : BHWC)

def dimensionsProduct : Nat := shape.b * shape.h * shape.w * shape.c

def linearIndex (b y x c : Nat) : Nat := ((b * shape.h + y) * shape.w + x) * shape.c + c

end BHWC

def kPhwc4ChannelsInPlane : Nat := 4

def getElementsSizeForPHWC4 (shape : BHWC) : Option Nat :=
  fitsInt (shape.b * shape.h * shape.w * alignByN shape.c kPhwc4ChannelsInPlane)

variable {α : Type}

/-- A loop over pixels that copies `count` numbers of each; `behind` is stored after them. -/
def copyPixels (input : List α) (count : Nat) (behind : Nat → List (Store α))
    (srcStep destStep numPixels src dest : Nat) : Option (List (Store α) × Nat × Nat) :=
  loopFrom (fun _ pointers => do
    let copied ← memcpy input pointers.1 pointers.2 count
    some (copied ++ behind (pointers.2 + count), pointers.1 + srcStep, pointers.2 + destStep))
    numPixels 0 (src, dest)

/-- The first loop of `ConvertToPHWC4`. -/
def fullPlanesTo (input : List α) (shape : BHWC) (numPixels numPlanes numFullPlanes : Nat) :
    Option (List (Store α)) :=
  forEach (fun b => do
    let dest ← fitsInt (b * numPixels * numPlanes * kPhwc4ChannelsInPlane)
    -- The pointer into the output runs through all planes.
    let (stores, _) ← loopFrom (fun p dest => do
      let src := shape.linearIndex b 0 0 (p * kPhwc4ChannelsInPlane)
      let (stores, _, dest) ← copyPixels input kPhwc4ChannelsInPlane (fun _ => []) shape.c
        kPhwc4ChannelsInPlane numPixels src dest
      some (stores, dest)) numFullPlanes 0 dest
    some stores) shape.b

/-- The second loop of `ConvertToPHWC4`. -/
def remainingTo (zero : α) (input : List α) (shape : BHWC)
    (numPixels numFullPlanes paddedSize remainingChannels : Nat) : Option (List (Store α)) :=
  forEach (fun b => do
    let src := shape.linearIndex b 0 0 (numFullPlanes * kPhwc4ChannelsInPlane)
    let batch ← fitsInt (b * paddedSize)
    let planes ← fitsInt (numPixels * numFullPlanes * kPhwc4ChannelsInPlane)
    let (stores, _) ← copyPixels input remainingChannels
      (fun dest => memset zero dest (4 - remainingChannels)) shape.c
      kPhwc4ChannelsInPlane numPixels src (batch + planes)
    some stores) shape.b

/-- The stores of `ConvertToPHWC4`. -/
def storesToPHWC4 (zero : α) (input : List α) (shape : BHWC) : Option (List (Store α)) := do
  if shape.c = 4 then
    memcpy input 0 0 shape.dimensionsProduct
  else
    let numPlanes := divideRoundUp shape.c kPhwc4ChannelsInPlane
    let numPixels ← fitsInt (shape.h * shape.w)
    let numFullPlanes := shape.c / kPhwc4ChannelsInPlane
    let full ← fullPlanesTo input shape numPixels numPlanes numFullPlanes
    let paddedSize ← fitsInt (numPixels * numPlanes * kPhwc4ChannelsInPlane)
    let remainingChannels := shape.c - numFullPlanes * kPhwc4ChannelsInPlane
    if remainingChannels = 0 then
      some full
    else
      let remaining ← remainingTo zero input shape numPixels numFullPlanes paddedSize
        remainingChannels
      some (full ++ remaining)

def convertToPHWC4 (zero : α) (input : List α) (shape : BHWC) (out : List α) :
    Except Failure (List α) := do
  if input.length ≠ shape.dimensionsProduct then
    .error (sizeMismatch "ConvertToPHWC4" "Input" input.length shape.dimensionsProduct)
  else
    let size ← orUndefined (getElementsSizeForPHWC4 shape)
    if out.length ≠ size then .error (sizeMismatch "ConvertToPHWC4" "Output" out.length size)
    else
      let stores ← orUndefined (storesToPHWC4 zero input shape)
      orUndefined (storeAll stores out)

/-- The first loop of `ConvertFromPHWC4`. -/
def fullPlanesFrom (input : List α) (shape : BHWC) (numPixels paddedSize numFullPlanes : Nat) :
    Option (List (Store α)) :=
  forEach (fun b => do
    let src ← fitsInt (b * paddedSize)
    -- The pointer into the input runs through all planes.
    let (stores, _) ← loopFrom (fun p src => do
      let dest := shape.linearIndex b 0 0 (p * kPhwc4ChannelsInPlane)
      let (stores, src, _) ← copyPixels input kPhwc4ChannelsInPlane (fun _ => [])
        kPhwc4ChannelsInPlane shape.c numPixels src dest
      some (stores, src)) numFullPlanes 0 src
    some stores) shape.b

/-- The second loop of `ConvertFromPHWC4`. -/
def remainingFrom (input : List α) (shape : BHWC)
    (numPixels numFullPlanes paddedSize remainingChannels : Nat) : Option (List (Store α)) :=
  forEach (fun b => do
    let batch ← fitsInt (b * paddedSize)
    let planes ← fitsInt (numPixels * numFullPlanes * kPhwc4ChannelsInPlane)
    let dest := shape.linearIndex b 0 0 (numFullPlanes * kPhwc4ChannelsInPlane)
    let (stores, _) ← copyPixels input remainingChannels (fun _ => []) kPhwc4ChannelsInPlane
      shape.c numPixels (batch + planes) dest
    some stores) shape.b

/-- The stores of `ConvertFromPHWC4`. -/
def storesFromPHWC4 (input : List α) (shape : BHWC) : Option (List (Store α)) := do
  if shape.c = 4 then
    memcpy input 0 0 shape.dimensionsProduct
  else
    let numPlanes := divideRoundUp shape.c kPhwc4ChannelsInPlane
    let numPixels ← fitsInt (shape.h * shape.w)
    let paddedSize ← fitsInt (numPixels * numPlanes * kPhwc4ChannelsInPlane)
    let numFullPlanes := shape.c / kPhwc4ChannelsInPlane
    let full ← fullPlanesFrom input shape numPixels paddedSize numFullPlanes
    let remainingChannels := shape.c - numFullPlanes * kPhwc4ChannelsInPlane
    if remainingChannels = 0 then
      some full
    else
      let remaining ← remainingFrom input shape numPixels numFullPlanes paddedSize remainingChannels
      some (full ++ remaining)

def convertFromPHWC4 (input : List α) (shape : BHWC) (out : List α) :
    Except Failure (List α) := do
  let size ← orUndefined (getElementsSizeForPHWC4 shape)
  if input.length ≠ size then .error (sizeMismatch "ConvertFromPHWC4" "Input" input.length size)
  else if out.length ≠ shape.dimensionsProduct then
    .error (sizeMismatch "ConvertFromPHWC4" "Output" out.length shape.dimensionsProduct)
  else
    let stores ← orUndefined (storesFromPHWC4 input shape)
    orUndefined (storeAll stores out)

end

/-!
## What packing stores where

Every store of the loops is at a place computed from its batch, plane, pixel and channel, and its
value depends on the place only.
-/

section

variable {α : Type} {zero : α} {input data : List α} {shape : BHWC} {a k K : Nat}

theorem digit_lt {a A k K : Nat} (ha : a < A) (hk : k < K) : a * K + k < A * K := by
  calc
    a * K + k < a * K + K := Nat.add_lt_add_left hk _
    _ = (a + 1) * K := by ring
    _ ≤ A * K := Nat.mul_le_mul_right K ha

theorem digit_div (hk : k < K) : (a * K + k) / K = a := by
  rw [Nat.mul_comm, Nat.mul_add_div (by omega), Nat.div_eq_of_lt hk, Nat.add_zero]

theorem digit_mod (hk : k < K) : (a * K + k) % K = k := by
  rw [Nat.mul_add_mod_of_lt hk]

namespace BHWC

variable (shape : BHWC)

def numPixels : Nat := shape.h * shape.w

def numPlanes : Nat := divideRoundUp shape.c 4

def packedSize : Nat := shape.b * shape.numPlanes * shape.numPixels * 4

/-- The place of a number of pixel `i` in the array. -/
def place (b i c : Nat) : Nat := (b * shape.numPixels + i) * shape.c + c

/-- The place of a number of pixel `i` in the packed array. -/
def packedPlace (b p i k : Nat) : Nat := ((b * shape.numPlanes + p) * shape.numPixels + i) * 4 + k

end BHWC

/-- What belongs at a place of the packed array. -/
def packedValue (zero : α) (data : List α) (shape : BHWC) (q : Nat) : α :=
  let c := q / 4 / shape.numPixels % shape.numPlanes * 4 + q % 4
  if c < shape.c then
    data.getD (shape.place (q / 4 / shape.numPixels / shape.numPlanes)
      (q / 4 % shape.numPixels) c) zero
  else zero

theorem packedPlace_lt {b p i k : Nat} (hb : b < shape.b) (hp : p < shape.numPlanes)
    (hi : i < shape.numPixels) (hk : k < 4) : shape.packedPlace b p i k < shape.packedSize :=
  digit_lt (digit_lt (digit_lt hb hp) hi) hk

theorem place_lt {b i c : Nat} (hb : b < shape.b) (hi : i < shape.numPixels) (hc : c < shape.c) :
    shape.place b i c < shape.dimensionsProduct := by
  have h := digit_lt (digit_lt hb hi) hc
  unfold BHWC.dimensionsProduct
  rwa [Nat.mul_assoc shape.b]

theorem packedValue_packedPlace {b p i k : Nat} (hp : p < shape.numPlanes)
    (hi : i < shape.numPixels) (hk : k < 4) :
    packedValue zero data shape (shape.packedPlace b p i k) =
      if p * 4 + k < shape.c then data.getD (shape.place b i (p * 4 + k)) zero else zero := by
  unfold packedValue BHWC.packedPlace
  rw [digit_mod hk, digit_div hk, digit_mod hi, digit_div hi, digit_mod hp, digit_div hp]

theorem numPlanes_eq (shape : BHWC) : shape.numPlanes =
    if shape.c - shape.c / 4 * 4 = 0 then shape.c / 4 else shape.c / 4 + 1 := by
  unfold BHWC.numPlanes divideRoundUp
  have hmod : shape.c % 4 = shape.c - shape.c / 4 * 4 := by omega
  rw [hmod]

theorem linearIndex_eq (shape : BHWC) (b i c k : Nat) :
    shape.linearIndex b 0 0 c + i * shape.c + k = shape.place b i (c + k) := by
  unfold BHWC.linearIndex BHWC.place BHWC.numPixels
  ring

theorem copyPixels_eq {count srcStep destStep n src dest : Nat} (behind : Nat → List (Store α))
    (zero : α) (h : ∀ i < n, src + i * srcStep + count ≤ input.length) :
    copyPixels input count behind srcStep destStep n src dest =
      some ((List.range n).flatMap fun i =>
        ((List.range count).map fun k => Store.mk (dest + i * destStep + k)
          (input.getD (src + i * srcStep + k) zero)) ++ behind (dest + i * destStep + count),
        src + n * srcStep, dest + n * destStep) := by
  refine loopFrom_zero_eq (g := fun i => (src + i * srcStep, dest + i * destStep)) (by simp)
    fun i hi => ?_
  rw [memcpy_eq (h i hi) zero]
  simp only [Nat.succ_mul, Nat.add_assoc]
  rfl

/-! ### Packing -/

def storeAt (zero : α) (data : List α) (shape : BHWC) (q : Nat) : Store α :=
  ⟨q, packedValue zero data shape q⟩

section
variable {b p i k : Nat} {n : Nat}

theorem fitsInt_eq (hfits : shape.packedSize < 2 ^ 31) (h : n ≤ shape.packedSize) :
    fitsInt n = some n := if_pos (by omega)

theorem numPixels_pos (shape : BHWC) : 0 < shape.numPixels :=
  Nat.mul_pos shape.positive.2.1 shape.positive.2.2.1

theorem numPlanes_pos (shape : BHWC) : 0 < shape.numPlanes := by
  have := shape.positive.2.2.2
  rw [numPlanes_eq]
  split
  · omega
  · omega

theorem packedSize_eq (shape : BHWC) :
    shape.packedSize = shape.b * (shape.numPixels * shape.numPlanes * 4) := by
  unfold BHWC.packedSize
  ring

theorem padded_le (shape : BHWC) : shape.numPixels * shape.numPlanes * 4 ≤ shape.packedSize := by
  rw [packedSize_eq]
  exact Nat.le_mul_of_pos_left _ shape.positive.1

theorem numPixels_le (shape : BHWC) : shape.numPixels ≤ shape.packedSize := by
  have hplanes := Nat.le_mul_of_pos_right shape.numPixels (numPlanes_pos shape)
  have := padded_le shape
  omega

theorem fullPlanes_le (shape : BHWC) :
    shape.numPixels * (shape.c / 4) * 4 ≤ shape.packedSize := by
  have hle : shape.c / 4 ≤ shape.numPlanes := by
    rw [numPlanes_eq]
    split
    · omega
    · omega
  have := Nat.mul_le_mul_right 4 (Nat.mul_le_mul_left shape.numPixels hle)
  have := padded_le shape
  omega

theorem batch_eq (shape : BHWC) (b : Nat) :
    b * (shape.numPixels * shape.numPlanes * 4) = shape.packedPlace b 0 0 0 := by
  unfold BHWC.packedPlace
  ring

theorem batch_le (hb : b < shape.b) : shape.packedPlace b 0 0 0 ≤ shape.packedSize :=
  Nat.le_of_lt (packedPlace_lt hb (numPlanes_pos shape) (numPixels_pos shape) (by decide))

theorem packedPlace_add (shape : BHWC) (b p i k : Nat) :
    shape.packedPlace b p 0 0 + i * 4 + k = shape.packedPlace b p i k := by
  unfold BHWC.packedPlace
  ring

theorem packedPlace_next (shape : BHWC) (b p : Nat) :
    shape.packedPlace b p 0 0 + shape.numPixels * 4 = shape.packedPlace b (p + 1) 0 0 := by
  unfold BHWC.packedPlace
  ring

theorem packedPlace_remaining (shape : BHWC) (b : Nat) :
    shape.packedPlace b 0 0 0 + shape.numPixels * (shape.c / 4) * 4 =
      shape.packedPlace b (shape.c / 4) 0 0 := by
  unfold BHWC.packedPlace
  ring

theorem remainingPlane_lt (hrest : shape.c - shape.c / 4 * 4 ≠ 0) :
    shape.c / 4 < shape.numPlanes := by
  rw [numPlanes_eq, if_neg hrest]
  omega

theorem fullPlane_lt (hp : p < shape.c / 4) : p < shape.numPlanes := by
  rw [numPlanes_eq]
  split
  · exact hp
  · omega

/-- A plane is packed: the numbers of its channels, and zeros behind them. -/
theorem copyPixels_to (hdata : data.length = shape.dimensionsProduct) (hb : b < shape.b)
    (hp : p < shape.numPlanes) (hpos : 0 < n) (hn : n ≤ 4) (hchannels : p * 4 + n ≤ shape.c)
    (hzeros : n = 4 ∨ p * 4 + n = shape.c) :
    ∃ src, copyPixels data n (fun dest => memset zero dest (4 - n)) shape.c 4 shape.numPixels
        (shape.linearIndex b 0 0 (p * 4)) (shape.packedPlace b p 0 0) =
      some (((List.range shape.numPixels).flatMap fun i => (List.range 4).map fun k =>
        storeAt zero data shape (shape.packedPlace b p i k)),
        src, shape.packedPlace b (p + 1) 0 0) := by
  have hbound : ∀ i < shape.numPixels,
      shape.linearIndex b 0 0 (p * 4) + i * shape.c + n ≤ data.length := by
    intro i hi
    have hlt := place_lt hb hi (c := p * 4 + (n - 1)) (by omega)
    rw [← linearIndex_eq, ← hdata] at hlt
    omega
  refine ⟨shape.linearIndex b 0 0 (p * 4) + shape.numPixels * shape.c, ?_⟩
  rw [copyPixels_eq _ zero hbound, packedPlace_next]
  refine congrArg (fun stores => some (stores, _, _)) (flatMap_congr fun i hi => ?_)
  rw [mem_range] at hi
  have hrange : List.range 4 = List.range n ++ (List.range (4 - n)).map (n + ·) := by
    rw [← range_add, Nat.add_sub_cancel' hn]
  rw [hrange, map_append, map_map]
  refine congrArg₂ (· ++ ·) (map_congr_left fun k hk => ?_) (map_congr_left fun k hk => ?_)
  · rw [mem_range] at hk
    rw [packedPlace_add, linearIndex_eq, storeAt, packedValue_packedPlace hp hi (by omega),
      if_pos (by omega)]
  · rw [mem_range] at hk
    rw [Nat.add_assoc _ _ k, packedPlace_add, Function.comp_apply, storeAt,
      packedValue_packedPlace hp hi (by omega), if_neg (by omega)]

theorem fullPlanesTo_eq (hdata : data.length = shape.dimensionsProduct)
    (hfits : shape.packedSize < 2 ^ 31) :
    fullPlanesTo data shape shape.numPixels shape.numPlanes (shape.c / 4) =
      some ((List.range shape.b).flatMap fun b => (List.range (shape.c / 4)).flatMap fun p =>
        (List.range shape.numPixels).flatMap fun i => (List.range 4).map fun k =>
          storeAt zero data shape (shape.packedPlace b p i k)) := by
  refine forEach_eq fun b hb => ?_
  have hstart : b * shape.numPixels * shape.numPlanes * kPhwc4ChannelsInPlane =
      shape.packedPlace b 0 0 0 := by
    rw [← batch_eq, kPhwc4ChannelsInPlane]
    ring
  rw [hstart, fitsInt_eq hfits (batch_le hb)]
  refine congrArg (Option.bind · _) (loopFrom_zero_eq (g := fun p => shape.packedPlace b p 0 0) rfl
    fun p hp => ?_)
  obtain ⟨src, hcopy⟩ := @copyPixels_to _ zero _ _ b p 4 hdata hb (fullPlane_lt hp) (by decide)
    (Nat.le_refl _) (by omega) (.inl rfl)
  show (copyPixels data 4 (fun dest => memset zero dest (4 - 4)) shape.c 4 _
    (shape.linearIndex b 0 0 (p * 4)) _ >>= _) = _
  rw [hcopy]
  rfl

theorem remainingTo_eq (hdata : data.length = shape.dimensionsProduct)
    (hfits : shape.packedSize < 2 ^ 31) (hrest : shape.c - shape.c / 4 * 4 ≠ 0) :
    remainingTo zero data shape shape.numPixels (shape.c / 4)
        (shape.numPixels * shape.numPlanes * 4) (shape.c - shape.c / 4 * 4) =
      some ((List.range shape.b).flatMap fun b => (List.range shape.numPixels).flatMap fun i =>
        (List.range 4).map fun k =>
          storeAt zero data shape (shape.packedPlace b (shape.c / 4) i k)) := by
  refine forEach_eq fun b hb => ?_
  obtain ⟨src, hcopy⟩ := @copyPixels_to _ zero _ _ b (shape.c / 4) (shape.c - shape.c / 4 * 4)
    hdata hb (remainingPlane_lt hrest) (by omega) (by omega) (by omega) (.inr (by omega))
  rw [batch_eq, fitsInt_eq hfits (batch_le hb), kPhwc4ChannelsInPlane,
    fitsInt_eq hfits (fullPlanes_le shape)]
  show (copyPixels _ _ _ _ _ _ _ (shape.packedPlace b 0 0 0 + _) >>= _) = _
  rw [packedPlace_remaining, hcopy]
  rfl

/-! ### Each place once -/

/-- The places that the loops store to, in their order. -/
def fullPlaces (shape : BHWC) : List Nat :=
  (List.range shape.b).flatMap fun b => (List.range (shape.c / 4)).flatMap fun p =>
    (List.range shape.numPixels).flatMap fun i => (List.range 4).map (shape.packedPlace b p i)

def remainingPlaces (shape : BHWC) : List Nat :=
  if shape.c - shape.c / 4 * 4 = 0 then []
  else (List.range shape.b).flatMap fun b => (List.range shape.numPixels).flatMap fun i =>
    (List.range 4).map (shape.packedPlace b (shape.c / 4) i)

theorem map_packedPlace (shape : BHWC) (b p : Nat) :
    ((List.range shape.numPixels).flatMap fun i => (List.range 4).map (shape.packedPlace b p i)) =
      (List.range (shape.numPixels * 4)).map fun t =>
        b * (shape.numPlanes * (shape.numPixels * 4)) + (p * (shape.numPixels * 4) + t) := by
  rw [range_mul, map_flatMap]
  refine flatMap_congr fun i _ => ?_
  rw [map_map]
  refine map_congr_left fun k _ => ?_
  rw [Function.comp_apply, BHWC.packedPlace]
  ring

/-- The planes of a batch fill the front of its block. -/
theorem planes_packedPlace (shape : BHWC) (b n : Nat) :
    ((List.range n).flatMap fun p => (List.range shape.numPixels).flatMap fun i =>
      (List.range 4).map (shape.packedPlace b p i)) =
      (List.range (n * (shape.numPixels * 4))).map fun t =>
        b * (shape.numPlanes * (shape.numPixels * 4)) + t := by
  rw [range_mul, map_flatMap]
  refine flatMap_congr fun p _ => ?_
  rw [map_packedPlace, map_map]
  rfl

theorem places_perm (shape : BHWC) :
    (fullPlaces shape ++ remainingPlaces shape).Perm (List.range shape.packedSize) := by
  have hsize : shape.packedSize = shape.b * (shape.numPlanes * (shape.numPixels * 4)) := by
    unfold BHWC.packedSize
    ring
  have hall : ((List.range shape.b).flatMap fun b => (List.range shape.numPlanes).flatMap fun p =>
      (List.range shape.numPixels).flatMap fun i => (List.range 4).map (shape.packedPlace b p i)) =
      List.range shape.packedSize := by
    rw [hsize, range_mul]
    exact flatMap_congr fun b _ => planes_packedPlace shape b shape.numPlanes
  have hplanes := numPlanes_eq shape
  rw [← hall]
  unfold fullPlaces remainingPlaces
  split
  · next hfull =>
    rw [if_pos hfull] at hplanes
    rw [hplanes, append_nil]
  · next hrest =>
    rw [if_neg hrest] at hplanes
    refine (flatMap_append_perm _ _ _).trans ?_
    rw [hplanes]
    refine List.Perm.of_eq (flatMap_congr fun b _ => ?_)
    rw [@range_succ (shape.c / 4), flatMap_append, flatMap_singleton]

/-- With four channels both arrays have the same places. -/
theorem packedValue_four (hfour : shape.c = 4) (q : Nat) :
    packedValue zero data shape q = data.getD q zero := by
  have hplanes : shape.numPlanes = 1 := by
    rw [numPlanes_eq, hfour]
    rfl
  have hq : shape.place (q / 4 / shape.numPixels) (q / 4 % shape.numPixels) (q % 4) = q := by
    rw [BHWC.place, hfour, Nat.div_add_mod', Nat.div_add_mod']
  unfold packedValue
  rw [hplanes, Nat.mod_one, Nat.div_one, Nat.zero_mul, Nat.zero_add]
  simp only [hq]
  exact if_pos (by omega)

theorem packedSize_four (hfour : shape.c = 4) : shape.packedSize = shape.dimensionsProduct := by
  have hplanes : shape.numPlanes = 1 := by
    rw [numPlanes_eq, hfour]
    rfl
  unfold BHWC.packedSize BHWC.dimensionsProduct
  rw [hplanes, hfour, BHWC.numPixels]
  ring

/-- Packing stores what belongs at each place, once. -/
theorem storesToPHWC4_eq (hdata : data.length = shape.dimensionsProduct)
    (hfits : shape.packedSize < 2 ^ 31) :
    ∃ places : List Nat, places.Perm (List.range shape.packedSize) ∧
      storesToPHWC4 zero data shape = some (places.map (storeAt zero data shape)) := by
  unfold storesToPHWC4
  by_cases hfour : shape.c = 4
  · refine ⟨List.range shape.packedSize, List.Perm.refl _, ?_⟩
    rw [if_pos hfour, memcpy_eq (by omega) zero, packedSize_four hfour]
    refine congrArg some (map_congr_left fun q _ => ?_)
    rw [Nat.zero_add, storeAt, packedValue_four hfour]
  · refine ⟨_, places_perm shape, ?_⟩
    have hpixels : fitsInt (shape.h * shape.w) = some shape.numPixels :=
      fitsInt_eq hfits (numPixels_le shape)
    have hpadded : fitsInt (shape.numPixels * shape.numPlanes * kPhwc4ChannelsInPlane) =
        some (shape.numPixels * shape.numPlanes * 4) := fitsInt_eq hfits (padded_le shape)
    rw [if_neg hfour, hpixels]
    show (fullPlanesTo data shape shape.numPixels shape.numPlanes (shape.c / 4) >>= _) = _
    rw [@fullPlanesTo_eq α zero _ _ hdata hfits]
    show (fitsInt (shape.numPixels * shape.numPlanes * kPhwc4ChannelsInPlane) >>= _) = _
    rw [hpadded]
    show (if shape.c - shape.c / 4 * 4 = 0 then _ else _) = _
    unfold fullPlaces remainingPlaces
    split
    · rw [append_nil]
      simp only [map_flatMap, map_map]
      rfl
    · next hrest =>
      show (remainingTo zero data shape shape.numPixels (shape.c / 4)
        (shape.numPixels * shape.numPlanes * 4) (shape.c - shape.c / 4 * 4) >>= _) = _
      rw [remainingTo_eq hdata hfits hrest]
      simp only [map_append, map_flatMap, map_map]
      rfl

end

end

/-!
## Unpacking what was packed

The loops of the two directions visit the same places with the arrays exchanged.
-/

variable {α : Type} {zero : α} {data : List α} {shape : BHWC}

def packed (zero : α) (data : List α) (shape : BHWC) : List α :=
  (List.range shape.packedSize).map (packedValue zero data shape)

theorem length_packed (zero : α) (data : List α) (shape : BHWC) :
    (packed zero data shape).length = shape.packedSize := by
  unfold packed
  rw [length_map, length_range]

theorem getElem?_packed (hq : q < shape.packedSize) :
    (packed zero data shape)[q]? = some (packedValue zero data shape q) := by
  unfold packed
  rw [getElem?_map, getElem?_range hq, Option.map_some]

theorem getD_packed (hq : q < shape.packedSize) :
    (packed zero data shape).getD q zero = packedValue zero data shape q := by
  rw [getD_eq_getElem?_getD, getElem?_packed hq, Option.getD_some]

def storeBack (zero : α) (data : List α) (q : Nat) : Store α := ⟨q, data.getD q zero⟩

section
variable {b p : Nat}

/-- A plane is unpacked. -/
theorem copyPixels_from {n : Nat} (hb : b < shape.b) (hp : p < shape.numPlanes) (hpos : 0 < n)
    (hn : n ≤ 4) (hchannels : p * 4 + n ≤ shape.c) :
    ∃ dest, copyPixels (packed zero data shape) n (fun _ => []) 4 shape.c shape.numPixels
        (shape.packedPlace b p 0 0) (shape.linearIndex b 0 0 (p * 4)) =
      some (((List.range shape.numPixels).flatMap fun i => (List.range n).map fun k =>
        storeBack zero data (shape.place b i (p * 4 + k))),
        shape.packedPlace b (p + 1) 0 0, dest) := by
  have hbound : ∀ i < shape.numPixels,
      shape.packedPlace b p 0 0 + i * 4 + n ≤ (packed zero data shape).length := by
    intro i hi
    have hlt := packedPlace_lt hb hp hi (k := n - 1) (by omega)
    rw [← packedPlace_add] at hlt
    rw [length_packed]
    omega
  refine ⟨shape.linearIndex b 0 0 (p * 4) + shape.numPixels * shape.c, ?_⟩
  rw [copyPixels_eq _ zero hbound, packedPlace_next]
  refine congrArg (fun stores => some (stores, _, _)) (flatMap_congr fun i hi => ?_)
  rw [append_nil]
  refine map_congr_left fun k hk => ?_
  rw [mem_range] at hi hk
  rw [packedPlace_add, linearIndex_eq, storeBack,
    getD_packed (packedPlace_lt hb hp hi (by omega)), packedValue_packedPlace hp hi (by omega), if_pos (by omega)]

theorem fullPlanesFrom_eq (hfits : shape.packedSize < 2 ^ 31) :
    fullPlanesFrom (packed zero data shape) shape shape.numPixels
        (shape.numPixels * shape.numPlanes * 4) (shape.c / 4) =
      some ((List.range shape.b).flatMap fun b => (List.range (shape.c / 4)).flatMap fun p =>
        (List.range shape.numPixels).flatMap fun i => (List.range 4).map fun k =>
          storeBack zero data (shape.place b i (p * 4 + k))) := by
  refine forEach_eq fun b hb => ?_
  rw [batch_eq, fitsInt_eq hfits (batch_le hb)]
  refine congrArg (Option.bind · _) (loopFrom_zero_eq (g := fun p => shape.packedPlace b p 0 0) rfl
    fun p hp => ?_)
  obtain ⟨dest, hcopy⟩ := @copyPixels_from _ zero data _ b p 4 hb (fullPlane_lt hp) (by decide)
    (Nat.le_refl _) (by omega)
  show (copyPixels _ 4 _ 4 shape.c _ _ (shape.linearIndex b 0 0 (p * 4)) >>= _) = _
  rw [hcopy]
  rfl

theorem remainingFrom_eq (hfits : shape.packedSize < 2 ^ 31)
    (hrest : shape.c - shape.c / 4 * 4 ≠ 0) :
    remainingFrom (packed zero data shape) shape shape.numPixels (shape.c / 4)
        (shape.numPixels * shape.numPlanes * 4) (shape.c - shape.c / 4 * 4) =
      some ((List.range shape.b).flatMap fun b => (List.range shape.numPixels).flatMap fun i =>
        (List.range (shape.c - shape.c / 4 * 4)).map fun k =>
          storeBack zero data (shape.place b i (shape.c / 4 * 4 + k))) := by
  refine forEach_eq fun b hb => ?_
  obtain ⟨dest, hcopy⟩ := @copyPixels_from _ zero data _ b (shape.c / 4)
    (shape.c - shape.c / 4 * 4) hb (remainingPlane_lt hrest) (by omega) (by omega) (by omega)
  rw [batch_eq, fitsInt_eq hfits (batch_le hb), kPhwc4ChannelsInPlane,
    fitsInt_eq hfits (fullPlanes_le shape)]
  show (copyPixels _ _ _ _ _ _ (shape.packedPlace b 0 0 0 + _) _ >>= _) = _
  rw [packedPlace_remaining, hcopy]
  rfl

end

/-- The places that the loops store back to, in their order. -/
def placesBack (shape : BHWC) : List Nat :=
  ((List.range shape.b).flatMap fun b => (List.range (shape.c / 4)).flatMap fun p =>
    (List.range shape.numPixels).flatMap fun i =>
      (List.range 4).map fun k => shape.place b i (p * 4 + k)) ++
  if shape.c - shape.c / 4 * 4 = 0 then []
  else (List.range shape.b).flatMap fun b => (List.range shape.numPixels).flatMap fun i =>
    (List.range (shape.c - shape.c / 4 * 4)).map fun k => shape.place b i (shape.c / 4 * 4 + k)

theorem exists_place (hq : q < shape.dimensionsProduct) :
    ∃ b < shape.b, ∃ i < shape.numPixels, ∃ c < shape.c, q = shape.place b i c := by
  have hc := shape.positive.2.2.2
  have hproduct : shape.dimensionsProduct = shape.b * shape.numPixels * shape.c := by
    unfold BHWC.dimensionsProduct BHWC.numPixels
    ring
  rw [hproduct] at hq
  refine ⟨q / shape.c / shape.numPixels, ?_, q / shape.c % shape.numPixels,
    Nat.mod_lt _ (numPixels_pos shape), q % shape.c, Nat.mod_lt _ hc, ?_⟩
  · have hrow := Nat.div_lt_of_lt_mul (Nat.mul_comm _ shape.c ▸ hq)
    exact Nat.div_lt_of_lt_mul (Nat.mul_comm _ shape.numPixels ▸ hrow)
  · rw [BHWC.place, Nat.div_add_mod', Nat.div_add_mod']

theorem mem_placesBack : q ∈ placesBack shape ↔ q < shape.dimensionsProduct := by
  have hremaining : q ∈ (if shape.c - shape.c / 4 * 4 = 0 then []
      else (List.range shape.b).flatMap fun b => (List.range shape.numPixels).flatMap fun i =>
        (List.range (shape.c - shape.c / 4 * 4)).map fun k =>
          shape.place b i (shape.c / 4 * 4 + k)) ↔
      ∃ b < shape.b, ∃ i < shape.numPixels, ∃ k < shape.c - shape.c / 4 * 4,
        shape.place b i (shape.c / 4 * 4 + k) = q := by
    split
    · next hfull =>
      rw [hfull]
      simp
    · simp only [mem_flatMap, mem_map, mem_range]
  unfold placesBack
  rw [mem_append, hremaining]
  simp only [mem_flatMap, mem_map, mem_range]
  constructor
  · rintro (⟨b, hb, p, hp, i, hi, k, hk, rfl⟩ | ⟨b, hb, i, hi, k, hk, rfl⟩)
    · exact place_lt hb hi (by omega)
    · exact place_lt hb hi (by omega)
  · intro hq
    obtain ⟨b, hb, i, hi, c, hc, rfl⟩ := exists_place hq
    by_cases hfull : c < shape.c / 4 * 4
    · refine .inl ⟨b, hb, c / 4, by omega, i, hi, c % 4, by omega, ?_⟩
      rw [Nat.div_add_mod']
    · refine .inr ⟨b, hb, i, hi, c - shape.c / 4 * 4, by omega, ?_⟩
      rw [Nat.add_sub_cancel' (by omega)]

/-- Unpacking stores each number back to its place. -/
theorem storesFromPHWC4_eq (hfits : shape.packedSize < 2 ^ 31) :
    ∃ places : List Nat, (∀ q, q ∈ places ↔ q < shape.dimensionsProduct) ∧
      storesFromPHWC4 (packed zero data shape) shape = some (places.map (storeBack zero data)) := by
  unfold storesFromPHWC4
  by_cases hfour : shape.c = 4
  · refine ⟨List.range shape.dimensionsProduct, fun q => mem_range, ?_⟩
    rw [if_pos hfour, memcpy_eq (by rw [length_packed, packedSize_four hfour, Nat.zero_add]) zero]
    refine congrArg some (map_congr_left fun q hq => ?_)
    rw [mem_range, ← packedSize_four hfour] at hq
    rw [Nat.zero_add, storeBack, getD_packed hq, packedValue_four hfour]
  · refine ⟨placesBack shape, fun q => mem_placesBack, ?_⟩
    have hpixels : fitsInt (shape.h * shape.w) = some shape.numPixels :=
      fitsInt_eq hfits (numPixels_le shape)
    have hpadded : fitsInt (shape.numPixels * shape.numPlanes * kPhwc4ChannelsInPlane) =
        some (shape.numPixels * shape.numPlanes * 4) := fitsInt_eq hfits (padded_le shape)
    rw [if_neg hfour, hpixels]
    show (fitsInt (shape.numPixels * shape.numPlanes * kPhwc4ChannelsInPlane) >>= _) = _
    rw [hpadded]
    show (fullPlanesFrom _ shape shape.numPixels (shape.numPixels * shape.numPlanes * 4)
      (shape.c / 4) >>= _) = _
    rw [@fullPlanesFrom_eq α zero _ _ hfits]
    show (if shape.c - shape.c / 4 * 4 = 0 then _ else _) = _
    unfold placesBack
    split
    · rw [append_nil]
      simp only [map_flatMap, map_map]
      rfl
    · next hrest =>
      show (remainingFrom _ shape shape.numPixels (shape.c / 4)
        (shape.numPixels * shape.numPlanes * 4) (shape.c - shape.c / 4 * 4) >>= _) = _
      rw [remainingFrom_eq hfits hrest]
      simp only [map_append, map_flatMap, map_map]
      rfl

end LiteRt.GpuLayout
