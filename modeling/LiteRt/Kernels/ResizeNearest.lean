import LiteRt.Kernels.BroadcastShapes
import LiteRt.Lib.Loops
import Mathlib.Tactic.Linarith

/-!
# The optimized nearest-neighbour resize

Without aligned corners and half pixel centers the kernel multiplies the index of an output
pixel with a scale of 16 fractional bits, rounded up. The product stays below the next multiple
as long as the error it has gathered is smaller than what is missing to it.
-/

namespace LiteRt.Kernels

/-- The sizes of the input and the output; both have the batches and the depth. -/
structure ResizeSizes where
  batches : Nat
  inputHeight : Nat
  inputWidth : Nat
  depth : Nat
  outputHeight : Nat
  outputWidth : Nat

/-- Sizes that `Prepare` admits: it compares none of them. -/
structure ResizeSizes.Admitted (s : ResizeSizes) : Prop where
  inputHeight : 0 < s.inputHeight ∧ s.inputHeight < 2 ^ 31
  inputWidth : 0 < s.inputWidth ∧ s.inputWidth < 2 ^ 31
  outputHeight : 0 < s.outputHeight ∧ s.outputHeight < 2 ^ 31
  outputWidth : 0 < s.outputWidth ∧ s.outputWidth < 2 ^ 31

/-- A `memcpy` of a pixel: the input row and column, and the offset in the input. -/
structure PixelCopy where
  inY : Int
  inX : Int
  offset : Int
  deriving DecidableEq, Repr

/-- `(input_size << 16) / output_size + 1`, where the shift drops the high bits. -/
def fixedPointScale (inputSize outputSize : Nat) : Int :=
  (int32 (inputSize * 65536)).tdiv outputSize + 1

/-- `std::min((y * scale) >> 16, input_size - 1)`. -/
def fixedPointIndex (inputSize outputSize y : Nat) : Option Int := do
  let product ← mul32 y (fixedPointScale inputSize outputSize)
  some (min (product >>> (16 : Nat)) (inputSize - 1))

/-- The copies by batch, row and column of the output. -/
def resizeNearestNeighbor (s : ResizeSizes) : Option (List (List (List PixelCopy))) := do
  let rowOffset ← mul32 s.inputWidth s.depth
  let batchOffset ← mul32 s.inputHeight rowOffset
  (List.range s.batches).mapM fun (b : Nat) =>
    (List.range s.outputHeight).mapM fun y => do
      let inY ← fixedPointIndex s.inputHeight s.outputHeight y
      let yOffset ← mul32 inY rowOffset
      (List.range s.outputWidth).mapM fun x => do
        let inX ← fixedPointIndex s.inputWidth s.outputWidth x
        let xOffset ← mul32 inX s.depth
        some ⟨inY, inX, b * batchOffset + yOffset + xOffset⟩

/-- The input index nearest to an output index. -/
def nearest (inputSize outputSize y : Nat) : Nat := y * inputSize / outputSize

def ResizeSizes.nearestPixel (s : ResizeSizes) (b y x : Nat) : PixelCopy :=
  let inY := nearest s.inputHeight s.outputHeight y
  let inX := nearest s.inputWidth s.outputWidth x
  { inY := inY
    inX := inX
    offset := ((b * s.inputHeight + inY) * s.inputWidth + inX) * s.depth }

def ResizeSizes.nearestPixels (s : ResizeSizes) : List (List (List PixelCopy)) :=
  (List.range s.batches).map fun b =>
    (List.range s.outputHeight).map fun y =>
      (List.range s.outputWidth).map fun x => s.nearestPixel b y x

/-- The bytes of a copy lie in the input. -/
def ResizeSizes.InInput (s : ResizeSizes) (c : PixelCopy) : Prop :=
  0 ≤ c.offset ∧ c.offset + s.depth ≤ (s.batches * s.inputHeight * s.inputWidth * s.depth : Nat)

/-- The gathered error of an index stays below what is missing to the next multiple of the
output size, or the next input index is behind the last one. -/
def ErrorFits (inputSize outputSize y : Nat) : Prop :=
  y * (outputSize - inputSize * 65536 % outputSize) <
      65536 * (outputSize - y * inputSize % outputSize) ∨
    nearest inputSize outputSize y = inputSize - 1

/-- The sizes of an axis along which the fixed-point scale is good enough. -/
def ScaleFits (inputSize outputSize : Nat) : Prop :=
  outputSize = 1 ∨
    (inputSize < 32768 ∧ (outputSize - 1) * (inputSize * 65536 / outputSize + 1) < 2 ^ 31 ∧
      ∀ y, y < outputSize → ErrorFits inputSize outputSize y)

/-! ### The index along an axis -/

section
variable {n m y : Nat}

theorem nearest_lt (hn : 0 < n) (hy : y < m) : nearest n m y < n := by
  unfold nearest
  rw [Nat.div_lt_iff_lt_mul (by omega), Nat.mul_comm n m]
  exact Nat.mul_lt_mul_of_pos_right hy hn

theorem scaled_product (hm : 0 < m) :
    m * (y * (n * 65536 / m + 1)) = (y * n) * 65536 + y * (m - n * 65536 % m) := by
  have hdiv := Nat.div_add_mod (n * 65536) m
  have hmod := Nat.mod_lt (n * 65536) hm
  obtain ⟨e, he⟩ : ∃ e, m = n * 65536 % m + e := ⟨m - n * 65536 % m, by omega⟩
  have hsub : m - n * 65536 % m = e := by omega
  rw [hsub]
  generalize n * 65536 / m = q at hdiv
  generalize n * 65536 % m = r at hdiv he
  calc m * (y * (q + 1)) = y * (m * q + m) := by ring
    _ = y * (m * q + (r + e)) := by rw [← he]
    _ = y * ((m * q + r) + e) := by rw [Nat.add_assoc]
    _ = y * (n * 65536 + e) := by rw [hdiv]
    _ = y * n * 65536 + y * e := by ring

/-- The index is the nearest one when the error fits. -/
theorem min_scaled_eq_iff (hn : 0 < n) (hy : y < m) :
    min (y * (n * 65536 / m + 1) / 65536) (n - 1) = nearest n m y ↔ ErrorFits n m y := by
  have hm : 0 < m := by omega
  have hprod := @scaled_product n m y hm
  have hlt := nearest_lt hn hy
  have hdiv := Nat.div_add_mod (y * n) m
  have hmod := Nat.mod_lt (y * n) hm
  unfold ErrorFits
  generalize y * (n * 65536 / m + 1) = p at hprod ⊢
  generalize y * (m - n * 65536 % m) = e at hprod ⊢
  have hk : nearest n m y = y * n / m := rfl
  rw [hk] at hlt ⊢
  generalize y * n / m = k at hdiv hlt ⊢
  obtain ⟨g, hg⟩ : ∃ g, m = y * n % m + g := ⟨m - y * n % m, by omega⟩
  have hsub : m - y * n % m = g := by omega
  rw [hsub]
  generalize y * n % m = t at hdiv hmod hg
  have hlow : k ≤ p / 65536 := by
    rw [Nat.le_div_iff_mul_le (by omega)]
    by_contra hlt'
    have : m * p < m * (k * 65536) := Nat.mul_lt_mul_of_pos_left (by omega) hm
    nlinarith
  have hhigh : p / 65536 = k ↔ e < 65536 * g := by
    have hdivlt : p / 65536 < k + 1 ↔ m * p < m * ((k + 1) * 65536) := by
      rw [Nat.div_lt_iff_lt_mul (by omega), Nat.mul_lt_mul_left hm]
    have hsum : m * ((k + 1) * 65536) = (y * n) * 65536 + 65536 * g := by
      calc m * ((k + 1) * 65536) = (m * k + m) * 65536 := by ring
        _ = (m * k + (t + g)) * 65536 := by rw [← hg]
        _ = (m * k + t) * 65536 + 65536 * g := by ring
        _ = (y * n) * 65536 + 65536 * g := by rw [hdiv]
    rw [hprod, hsum] at hdivlt
    omega
  rw [← hhigh]
  omega

/-- The scale of an input size whose shift keeps all bits. -/
theorem fixedPointScale_of_lt (h : n < 32768) :
    fixedPointScale n m = ((n * 65536 / m + 1 : Nat) : Int) := by
  have hint : int32 ((n : Int) * 65536) = ((n * 65536 : Nat) : Int) := by
    have hcast : (n : Int) * 65536 = ((n * 65536 : Nat) : Int) := by push_cast; ring
    rw [hcast, int32_of_lt (by omega)]
  unfold fixedPointScale
  rw [hint, Int.tdiv_eq_ediv_of_nonneg (by omega)]
  rfl

theorem fixedPointIndex_of_lt (hn : 0 < n) (h : n < 32768) :
    fixedPointIndex n m y =
      if y * (n * 65536 / m + 1) < 2 ^ 31 then
        some ((min (y * (n * 65536 / m + 1) / 65536) (n - 1) : Nat) : Int)
      else none := by
  unfold fixedPointIndex
  rw [fixedPointScale_of_lt h, mul32_natCast]
  by_cases hfit : y * (n * 65536 / m + 1) < 2 ^ 31
  · rw [if_pos hfit, if_pos hfit]
    show some (min (((y * (n * 65536 / m + 1) : Nat) : Int) >>> (16 : Nat)) ((n : Int) - 1)) = _
    rw [Int.shiftRight_eq_div_pow]
    congr 1
    omega
  · rw [if_neg hfit, if_neg hfit]
    rfl

theorem fixedPointIndex_ne_nearest (hm : 1 < m) {k : Nat}
    (hk : ((m - 1 : Nat) : Int) * fixedPointScale n m < 2 ^ 31 →
      (((m - 1 : Nat) : Int) * fixedPointScale n m) / 65536 ≤ k)
    (hle : (k + 1) * m ≤ (m - 1) * n) :
    fixedPointIndex n m (m - 1) ≠ some ((nearest n m (m - 1) : Nat) : Int) := by
  intro heq
  unfold fixedPointIndex mul32 checkedInt at heq
  split at heq
  next hrange =>
    rw [Option.bind_eq_bind, Option.bind_some, Option.some_inj, Int.shiftRight_eq_div_pow] at heq
    have hnear : k + 1 ≤ nearest n m (m - 1) := by
      unfold nearest
      rwa [Nat.le_div_iff_mul_le (by omega)]
    have hsmall := hk hrange.2
    omega
  next => cases heq

/-- The scale of an input size whose shift loses bits. -/
theorem fixedPointScale_wrapped (hn : 32768 ≤ n) (hn' : n < 65536) :
    fixedPointScale n m = 1 - ((65536 * (65536 - n) / m : Nat) : Int) := by
  have hint : int32 ((n : Int) * 65536) = -((65536 * (65536 - n) : Nat) : Int) := by
    unfold int32 Int.bmod
    dsimp only
    split <;> omega
  unfold fixedPointScale
  rw [hint, Int.neg_tdiv, Int.tdiv_eq_ediv_of_nonneg (by omega)]
  push_cast
  ring

/-- A shift that loses bits leaves a scale far too small. -/
theorem fixedPointIndex_large (hn : 32768 ≤ n) (hn' : n < 2 ^ 31) (hm : 1 < m) (hm' : m < 2 ^ 31) :
    fixedPointIndex n m (m - 1) ≠ some ((nearest n m (m - 1) : Nat) : Int) := by
  by_cases hhigh : 65536 ≤ n
  · refine @fixedPointIndex_ne_nearest n m hm 32767 (fun h => by omega) ?_
    calc (32767 + 1) * m ≤ (m - 1) * 65536 := by omega
      _ ≤ (m - 1) * n := Nat.mul_le_mul_left _ hhigh
  · have hscale := @fixedPointScale_wrapped n m hn (by omega)
    by_cases hzero : 65536 * (65536 - n) / m = 0
    · -- the scale is one, and the input longer than 32768
      have hlt : 65536 * (65536 - n) < m := by
        rcases Nat.div_eq_zero_iff.1 hzero with h | h <;> omega
      have hone : ((m - 1 : Nat) : Int) * fixedPointScale n m = ((m - 1 : Nat) : Int) := by
        rw [hscale, hzero]
        push_cast
        ring
      refine @fixedPointIndex_ne_nearest n m hm ((m - 1) / 65536) (fun _ => by omega) ?_
      have hk : (m - 1) / 65536 + 2 ≤ n := by omega
      have hkm : (m - 1) / 65536 + 2 ≤ m := by omega
      generalize (m - 1) / 65536 = k at hk hkm
      obtain ⟨m', rfl⟩ : ∃ m', m = m' + 1 := ⟨m - 1, by omega⟩
      calc (k + 1) * (m' + 1) ≤ m' * (k + 2) := by nlinarith
        _ ≤ (m' + 1 - 1) * n := Nat.mul_le_mul_left _ hk
    · -- the scale is not positive
      have hpos : 1 ≤ 65536 * (65536 - n) / m := Nat.one_le_iff_ne_zero.2 hzero
      have hnonpos : ((m - 1 : Nat) : Int) * fixedPointScale n m ≤ 0 := by
        rw [hscale]
        exact mul_nonpos_of_nonneg_of_nonpos (by omega) (by omega)
      refine @fixedPointIndex_ne_nearest n m hm 0 (fun _ => by omega) ?_
      calc (0 + 1) * m ≤ (m - 1) * 2 := by omega
        _ ≤ (m - 1) * n := Nat.mul_le_mul_left _ (by omega)

theorem fixedPointIndex_nearest_iff (hn : 0 < n) (hn' : n < 2 ^ 31) (hm : 0 < m)
    (hm' : m < 2 ^ 31) :
    (∀ y, y < m → fixedPointIndex n m y = some ((nearest n m y : Nat) : Int)) ↔ ScaleFits n m := by
  unfold ScaleFits
  by_cases hone : m = 1
  · refine iff_of_true (fun y hy => ?_) (.inl hone)
    have hy0 : y = 0 := by omega
    subst hy0
    have hmul : mul32 (0 : Nat) (fixedPointScale n m) = some 0 := by
      unfold mul32
      rw [Nat.cast_zero, zero_mul]
      rfl
    have hmin : min ((0 : Int) >>> (16 : Nat)) ((n : Int) - 1) = 0 := by
      rw [Int.shiftRight_eq_div_pow]
      omega
    unfold fixedPointIndex
    rw [hmul]
    show some (min ((0 : Int) >>> (16 : Nat)) ((n : Int) - 1)) = _
    unfold nearest
    rw [hmin, Nat.zero_mul, Nat.zero_div]
    rfl
  rw [or_iff_right hone]
  by_cases hlt : n < 32768
  · rw [and_iff_right hlt]
    constructor
    · intro h
      have hlast := h (m - 1) (by omega)
      rw [fixedPointIndex_of_lt hn hlt] at hlast
      refine ⟨?_, fun y hy => ?_⟩
      · by_contra hover
        rw [if_neg hover] at hlast
        cases hlast
      · have hy' := h y hy
        rw [fixedPointIndex_of_lt hn hlt] at hy'
        split at hy'
        · rw [Option.some_inj, Nat.cast_inj] at hy'
          exact (min_scaled_eq_iff hn hy).1 hy'
        · cases hy'
    · rintro ⟨hfit, herr⟩ y hy
      have hmono : y * (n * 65536 / m + 1) ≤ (m - 1) * (n * 65536 / m + 1) :=
        Nat.mul_le_mul_right _ (by omega)
      rw [fixedPointIndex_of_lt hn hlt, if_pos (by omega), (min_scaled_eq_iff hn hy).2 (herr y hy)]
  · refine iff_of_false (fun h => ?_) (fun h => hlt h.1)
    exact fixedPointIndex_large (by omega) hn' (by omega) hm' (h (m - 1) (by omega))

/-- Axes with at most 256 output indices gather no error that shows. -/
theorem scaleFits_of_le (hn : n < 32768) (hm : m ≤ 256) : ScaleFits n m := by
  rcases Nat.lt_or_ge 0 m with hpos | hzero
  · refine .inr ⟨hn, ?_, fun y hy => .inl ?_⟩
    · have hle : m * (n * 65536 / m) ≤ n * 65536 := Nat.mul_div_le _ _
      calc (m - 1) * (n * 65536 / m + 1) ≤ m * (n * 65536 / m + 1) :=
            Nat.mul_le_mul_right _ (by omega)
        _ = m * (n * 65536 / m) + m := by rw [Nat.mul_add, Nat.mul_one]
        _ < 2 ^ 31 := by omega
    · have hmod := Nat.mod_lt (y * n) hpos
      calc y * (m - n * 65536 % m) ≤ y * m := Nat.mul_le_mul_left _ (Nat.sub_le _ _)
        _ ≤ 255 * 256 := Nat.mul_le_mul (by omega) hm
        _ < 65536 * (m - y * n % m) := by omega
  · have hm0 : m = 0 := by omega
    exact .inr ⟨hn, by rw [hm0]; omega, fun y hy => by omega⟩

end

/-! ### The copies -/

section
variable {s : ResizeSizes} {b y x : Nat}

theorem ResizeSizes.Admitted.nearestPixel_inInput (hs : s.Admitted) (hb : b < s.batches)
    (hy : y < s.outputHeight) (hx : x < s.outputWidth) : s.InInput (s.nearestPixel b y x) := by
  have hinY := nearest_lt hs.inputHeight.1 hy
  have hinX := nearest_lt hs.inputWidth.1 hx
  unfold ResizeSizes.InInput ResizeSizes.nearestPixel
  dsimp only
  generalize nearest s.inputHeight s.outputHeight y = inY at hinY ⊢
  generalize nearest s.inputWidth s.outputWidth x = inX at hinX ⊢
  have hrow : b * s.inputHeight + inY + 1 ≤ s.batches * s.inputHeight :=
    calc b * s.inputHeight + inY + 1 ≤ (b + 1) * s.inputHeight := by
          rw [Nat.add_mul, Nat.one_mul]
          omega
      _ ≤ s.batches * s.inputHeight := Nat.mul_le_mul_right _ hb
  have hpixel : (b * s.inputHeight + inY) * s.inputWidth + inX + 1 ≤
      s.batches * s.inputHeight * s.inputWidth :=
    calc (b * s.inputHeight + inY) * s.inputWidth + inX + 1
        ≤ (b * s.inputHeight + inY + 1) * s.inputWidth := by
          rw [Nat.add_mul (b * s.inputHeight + inY), Nat.one_mul]
          omega
      _ ≤ s.batches * s.inputHeight * s.inputWidth := Nat.mul_le_mul_right _ hrow
  have hbytes := Nat.mul_le_mul_right s.depth hpixel
  rw [Nat.add_mul, Nat.one_mul] at hbytes
  push_cast at hbytes ⊢
  constructor
  · positivity
  · exact_mod_cast hbytes

/-- The copies are the nearest pixels when each index is the nearest one. -/
theorem copies_eq_iff (hs : s.Admitted)
    (hsize : s.inputHeight * (s.inputWidth * s.depth) < 2 ^ 31) (hb : 0 < s.batches) :
    resizeNearestNeighbor s = some s.nearestPixels ↔ (∀ y, y < s.outputHeight →
        fixedPointIndex s.inputHeight s.outputHeight y =
          some ((nearest s.inputHeight s.outputHeight y : Nat) : Int)) ∧
      ∀ x, x < s.outputWidth → fixedPointIndex s.inputWidth s.outputWidth x =
          some ((nearest s.inputWidth s.outputWidth x : Nat) : Int) := by
  have hrow : s.inputWidth * s.depth < 2 ^ 31 :=
    (Nat.le_mul_of_pos_left _ hs.inputHeight.1).trans_lt hsize
  unfold resizeNearestNeighbor ResizeSizes.nearestPixels
  rw [mul32_natCast, if_pos hrow, Option.bind_eq_bind, Option.bind_some, mul32_natCast,
    if_pos hsize, Option.bind_some, Lib.mapM_eq_some_map]
  simp only [List.mem_range, Lib.mapM_eq_some_map, Option.bind_eq_bind, Option.bind_eq_some_iff,
    ResizeSizes.nearestPixel, Option.some_inj, PixelCopy.mk.injEq]
  constructor
  · intro h
    refine ⟨fun y hy => ?_, fun x hx => ?_⟩
    · obtain ⟨inY, hinY, _, -, hrows⟩ := h 0 hb y hy
      obtain ⟨_, -, _, -, heq, -⟩ := hrows 0 hs.outputWidth.1
      exact hinY.trans (congrArg some heq)
    · obtain ⟨_, -, _, -, hrows⟩ := h 0 hb 0 hs.outputHeight.1
      obtain ⟨inX, hinX, _, -, -, heq, -⟩ := hrows x hx
      exact hinX.trans (congrArg some heq)
  · rintro ⟨hys, hxs⟩ b - y hy
    have hinY := nearest_lt hs.inputHeight.1 hy
    have hyOffset : mul32 (nearest s.inputHeight s.outputHeight y) (s.inputWidth * s.depth : Nat) =
        some ((nearest s.inputHeight s.outputHeight y * (s.inputWidth * s.depth) : Nat) : Int) := by
      rw [mul32_natCast, if_pos ((Nat.mul_le_mul_right _ hinY.le).trans_lt hsize)]
    refine ⟨_, hys y hy, _, hyOffset, fun x hx => ?_⟩
    have hinX := nearest_lt hs.inputWidth.1 hx
    have hxOffset : mul32 (nearest s.inputWidth s.outputWidth x) s.depth =
        some ((nearest s.inputWidth s.outputWidth x * s.depth : Nat) : Int) := by
      rw [mul32_natCast, if_pos ((Nat.mul_le_mul_right _ hinX.le).trans_lt hrow)]
    refine ⟨_, hxs x hx, _, hxOffset, rfl, rfl, ?_⟩
    push_cast
    ring

/-- The copies, and every offset they form, are those of the nearest pixels for the sizes whose
scales are good enough. -/
theorem resizeNearestNeighbor_nearest_iff (s : ResizeSizes) (hs : s.Admitted) :
    (resizeNearestNeighbor s = some s.nearestPixels ∧
        ∀ rows ∈ s.nearestPixels, ∀ row ∈ rows, ∀ c ∈ row, s.InInput c) ↔
      s.inputHeight * (s.inputWidth * s.depth) < 2 ^ 31 ∧
        (s.batches = 0 ∨
          ScaleFits s.inputHeight s.outputHeight ∧ ScaleFits s.inputWidth s.outputWidth) := by
  have hin : ∀ rows ∈ s.nearestPixels, ∀ row ∈ rows, ∀ c ∈ row, s.InInput c := by
    intro rows hrows row hrow c hc
    obtain ⟨b, hb, rfl⟩ := List.mem_map.1 hrows
    obtain ⟨y, hy, rfl⟩ := List.mem_map.1 hrow
    obtain ⟨x, hx, rfl⟩ := List.mem_map.1 hc
    exact hs.nearestPixel_inInput (List.mem_range.1 hb) (List.mem_range.1 hy)
      (List.mem_range.1 hx)
  rw [and_iff_left hin]
  by_cases hsize : s.inputHeight * (s.inputWidth * s.depth) < 2 ^ 31
  · rw [and_iff_right hsize]
    rcases Nat.eq_zero_or_pos s.batches with hzero | hpos
    · refine iff_of_true ?_ (.inl hzero)
      have hrow : s.inputWidth * s.depth < 2 ^ 31 :=
        (Nat.le_mul_of_pos_left _ hs.inputHeight.1).trans_lt hsize
      unfold resizeNearestNeighbor ResizeSizes.nearestPixels
      rw [mul32_natCast, if_pos hrow, Option.bind_eq_bind, Option.bind_some, mul32_natCast,
        if_pos hsize, Option.bind_some, hzero]
      rfl
    · rw [copies_eq_iff hs hsize hpos, or_iff_right hpos.ne',
        fixedPointIndex_nearest_iff hs.inputHeight.1 hs.inputHeight.2 hs.outputHeight.1
          hs.outputHeight.2,
        fixedPointIndex_nearest_iff hs.inputWidth.1 hs.inputWidth.2 hs.outputWidth.1
          hs.outputWidth.2]
  · -- an offset in the input overflows
    refine iff_of_false (fun h => ?_) (fun h => hsize h.1)
    unfold resizeNearestNeighbor at h
    rw [mul32_natCast] at h
    split at h
    · rw [Option.bind_eq_bind, Option.bind_some, mul32_natCast, if_neg hsize] at h
      cases h
    · cases h

/-- Two rows that become four. -/
theorem resizeNearestNeighbor_nearest_upscaled :
    let s : ResizeSizes := ⟨1, 2, 3, 1, 4, 2⟩
    s.Admitted ∧ resizeNearestNeighbor s = some s.nearestPixels :=
  have hs : (⟨1, 2, 3, 1, 4, 2⟩ : ResizeSizes).Admitted :=
    ⟨by decide, by decide, by decide, by decide⟩
  ⟨hs, ((resizeNearestNeighbor_nearest_iff _ hs).2
    ⟨by decide, .inr ⟨scaleFits_of_le (by decide) (by decide),
      scaleFits_of_le (by decide) (by decide)⟩⟩).1⟩

/-- 32768 input rows: the shift makes the scale negative, and the second output row is copied
from a row far before the input. -/
theorem resizeNearestNeighbor_before_input :
    let s : ResizeSizes := ⟨1, 32768, 1, 1, 2, 1⟩
    s.Admitted ∧ resizeNearestNeighbor s = some [[[⟨0, 0, 0⟩], [⟨-16384, 0, -16384⟩]]] ∧
      s.nearestPixels = [[[⟨0, 0, 0⟩], [⟨16384, 0, 16384⟩]]] ∧
      ¬s.InInput ⟨-16384, 0, -16384⟩ :=
  ⟨⟨by decide, by decide, by decide, by decide⟩, by decide, by decide, fun h => by
    have h0 := h.1
    dsimp only at h0
    omega⟩

end

end LiteRt.Kernels
