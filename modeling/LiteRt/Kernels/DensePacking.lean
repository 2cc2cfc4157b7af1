import LiteRt.Lib.SubByte
import Mathlib.Logic.Function.Basic

/-!
# Packed integers at run time

The kernels unpack four or two bits at a time, and pack them, with a loop over whole bytes and
code of its own for a byte that is not full. A buffer is what its pointer leads to.
-/

namespace LiteRt.Kernels

open LiteRt.Lib List

section

open Function

abbrev Buffer := Nat → Byte

/-- The lower four bits, shifted left first so that the sign is extended. -/
def lowerInt4 (byte : Byte) : Byte := (byte <<< 4).sshiftRight 4

def unpackDenseInt4IntoInt8 (srcBuffer : Buffer) (numElements : Nat) (dstBuffer : Buffer) :
    Buffer :=
  let unpacked := (List.range (numElements / 2)).foldl (fun dst i =>
    let byte := srcBuffer i
    let higher := byte.sshiftRight 4
    update (update dst (2 * i) (lowerInt4 byte)) (2 * i + 1) higher) dstBuffer
  if numElements % 2 ≠ 0 then
    update unpacked (numElements - 1) (lowerInt4 (srcBuffer (numElements / 2)))
  else unpacked

/-- The branch of `UnpackPackedIntToInt8` for four bits. -/
def unpackPackedInt4 (srcBuffer : Buffer) (numElements : Nat) (dstBuffer : Buffer)
    (unpackUnsigned : Bool) : Buffer :=
  let unpacked := (List.range (numElements / 2)).foldl (fun dst i =>
    let byte := srcBuffer i
    let lower := if unpackUnsigned then byte &&& 0x0F#8 else lowerInt4 byte
    let higher := if unpackUnsigned then byte.sshiftRight 4 &&& 0x0F#8 else byte.sshiftRight 4
    update (update dst (2 * i) lower) (2 * i + 1) higher) dstBuffer
  if numElements % 2 ≠ 0 then
    let byte := srcBuffer (numElements / 2)
    update unpacked (numElements - 1) (if unpackUnsigned then byte &&& 0x0F#8 else lowerInt4 byte)
  else unpacked

/-- One of the four values of a byte, from the branch for two bits. -/
def writeInt2s (byte : Byte) (unpackUnsigned : Bool) (dst : Buffer) (i : Nat) : Buffer :=
  if unpackUnsigned then
    update (update (update (update dst (4 * i) (byte &&& 0x03#8))
      (4 * i + 1) (byte.sshiftRight 2 &&& 0x03#8))
      (4 * i + 2) (byte.sshiftRight 4 &&& 0x03#8))
      (4 * i + 3) (byte.sshiftRight 6 &&& 0x03#8)
  else
    let val1 := (byte <<< 6).sshiftRight 6
    let val2 := (byte <<< 4 &&& 0xFF#8).sshiftRight 6
    let val3 := (byte <<< 2 &&& 0xFF#8).sshiftRight 6
    let val4 := byte.sshiftRight 6
    update (update (update (update dst (4 * i) val1) (4 * i + 1) val2) (4 * i + 2) val3)
      (4 * i + 3) val4

/-- The branch of `UnpackPackedIntToInt8` for two bits. -/
def unpackPackedInt2 (srcBuffer : Buffer) (numElements : Nat) (dstBuffer : Buffer)
    (unpackUnsigned : Bool) : Buffer :=
  let unpacked := (List.range (numElements / 4)).foldl
    (fun dst i => writeInt2s (srcBuffer i) unpackUnsigned dst i) dstBuffer
  let remainingElements := numElements % 4
  if remainingElements > 0 then
    let byte := srcBuffer (numElements / 4)
    (List.range remainingElements).foldl (fun dst i =>
      update dst (numElements - remainingElements + i)
        (if unpackUnsigned then byte.sshiftRight (2 * i) &&& 0x03#8
        else (byte <<< (6 - 2 * i) &&& 0xFF#8).sshiftRight 6)) unpacked
  else unpacked

def unpackPackedIntToInt8 (srcBuffer : Buffer) (numElements bitWidth : Nat) (dstBuffer : Buffer)
    (unpackUnsigned : Bool) : Buffer :=
  if bitWidth = 4 then unpackPackedInt4 srcBuffer numElements dstBuffer unpackUnsigned
  else if bitWidth = 2 then unpackPackedInt2 srcBuffer numElements dstBuffer unpackUnsigned
  else dstBuffer

def packInt8IntoDenseInt (srcBuffer : Buffer) (numElements bitWidth : Nat) (dstBuffer : Buffer) :
    Buffer :=
  if bitWidth = 4 then
    let packed := (List.range (numElements / 2)).foldl (fun dst i =>
      update dst i ((srcBuffer (2 * i) &&& 0x0F#8) ||| (srcBuffer (2 * i + 1) <<< 4))) dstBuffer
    if numElements % 2 ≠ 0 then
      update packed (numElements / 2) (srcBuffer (numElements - 1) &&& 0x0F#8)
    else packed
  else if bitWidth = 2 then
    let packed := (List.range (numElements / 4)).foldl (fun dst i =>
      update dst i ((srcBuffer (4 * i) &&& 0x03#8) ||| ((srcBuffer (4 * i + 1) &&& 0x03#8) <<< 2) |||
        ((srcBuffer (4 * i + 2) &&& 0x03#8) <<< 4) |||
        ((srcBuffer (4 * i + 3) &&& 0x03#8) <<< 6))) dstBuffer
    let remainingElements := numElements % 4
    if remainingElements > 0 then
      let packedVal := (List.range remainingElements).foldl (fun packedVal i => packedVal |||
        ((srcBuffer (numElements - remainingElements + i) &&& 0x03#8) <<< (i * 2))) 0
      update packed (numElements / 4) packedVal
    else packed
  else dstBuffer

/-! ## The loops over whole bytes -/

/-- A loop whose rounds write blocks of the same length, one after another. -/
theorem foldl_blocks {k m : Nat} {body : Buffer → Nat → Buffer} {g : Nat → Byte}
    (h : ∀ dst i x, body dst i x = if x / k = i then g x else dst x) (dst : Buffer) (x : Nat) :
    (List.range m).foldl body dst x = if x / k < m then g x else dst x := by
  refine foldl_range_invariant
    (P := fun i (buffer : Buffer) => buffer x = if x / k < i then g x else dst x) rfl ?_
  intro i buffer _ hbuffer
  rw [h, hbuffer]
  by_cases heq : x / k = i
  · rw [if_pos heq, if_pos (by omega)]
  · rw [if_neg heq]
    by_cases hlt : x / k < i
    · rw [if_pos hlt, if_pos (by omega)]
    · rw [if_neg hlt, if_neg (by omega)]

theorem foldl_update (g : Nat → Byte) (m : Nat) (dst : Buffer) (x : Nat) :
    (List.range m).foldl (fun dst i => update dst i (g i)) dst x = if x < m then g x else dst x := by
  have hbody : ∀ (dst : Buffer) i x, update dst i (g i) x = if x / 1 = i then g x else dst x := by
    intro dst i x
    rw [update_apply, Nat.div_one]
    by_cases hx : x = i
    · rw [if_pos hx, if_pos hx, hx]
    · rw [if_neg hx, if_neg hx]
  have hblocks := @foldl_blocks 1 m _ g hbody dst x
  rwa [Nat.div_one] at hblocks

/-! ## Packing -/

variable {src : Buffer} {n x : Nat}

theorem padded_of_lt (h : x < n) : padded src n x = src x := if_pos h

theorem padded_of_le (h : n ≤ x) : padded src n x = 0 := if_neg (Nat.not_lt.2 h)

theorem packFields_four (f : Nat → Byte) :
    packFields 4 f 2 = (f 0 &&& 0x0F#8) ||| (f 1 <<< 4) := by
  have hshift : ∀ b : Byte, (b &&& lowMask 4) <<< (1 * 4) = b <<< 4 := by decide
  have hlow : packFields 4 f 1 = f 0 &&& 0x0F#8 := by simp [packFields, lowMask]
  rw [packFields_succ, hshift, hlow]

theorem packFields_two (f : Nat → Byte) :
    packFields 2 f 4 = (f 0 &&& 0x03#8) ||| ((f 1 &&& 0x03#8) <<< 2) |||
      ((f 2 &&& 0x03#8) <<< 4) ||| ((f 3 &&& 0x03#8) <<< 6) := by
  have hlow : packFields 2 f 1 = f 0 &&& 0x03#8 := by simp [packFields, lowMask]
  rw [packFields_succ, packFields_succ, packFields_succ, hlow]
  rfl

theorem packInt8IntoDenseInt_four (src dst : Buffer) (n x : Nat) :
    packInt8IntoDenseInt src n 4 dst x =
      if x < bytesFor 4 n then packedByte 4 src n x else dst x := by
  have hbytes : bytesFor 4 n = (n + 1) / 2 := rfl
  have hbyte : packedByte 4 src n x =
      (padded src n (2 * x) &&& 0x0F#8) ||| (padded src n (2 * x + 1) <<< 4) := packFields_four _
  have hfull (hx : 2 * x + 1 < n) : packedByte 4 src n x =
      (src (2 * x) &&& 0x0F#8) ||| (src (2 * x + 1) <<< 4) := by
    rw [hbyte, padded_of_lt (by omega), padded_of_lt hx]
  have hlast (hx : 2 * x + 1 = n) : packedByte 4 src n x = src (n - 1) &&& 0x0F#8 := by
    have hindex : 2 * x = n - 1 := by omega
    rw [hbyte, padded_of_lt (by omega), padded_of_le (by omega), hindex]
    simp
  unfold packInt8IntoDenseInt
  rw [if_pos rfl, hbytes]
  by_cases hodd : n % 2 ≠ 0
  · rw [if_pos hodd, update_apply, foldl_update]
    by_cases hx : x = n / 2
    · rw [if_pos hx, if_pos (by omega), hlast (by omega)]
    · rw [if_neg hx]
      by_cases hlt : x < n / 2
      · rw [if_pos hlt, if_pos (by omega), hfull (by omega)]
      · rw [if_neg hlt, if_neg (by omega)]
  · rw [if_neg hodd, foldl_update]
    by_cases hlt : x < n / 2
    · rw [if_pos hlt, if_pos (by omega), hfull (by omega)]
    · rw [if_neg hlt, if_neg (by omega)]

theorem packInt8IntoDenseInt_two (src dst : Buffer) (n x : Nat) :
    packInt8IntoDenseInt src n 2 dst x =
      if x < bytesFor 2 n then packedByte 2 src n x else dst x := by
  have hbytes : bytesFor 2 n = (n + 3) / 4 := rfl
  have hbyte : packedByte 2 src n x = packFields 2 (fun j => padded src n (4 * x + j)) 4 := rfl
  have hfull (hx : 4 * x + 3 < n) : packedByte 2 src n x =
      (src (4 * x) &&& 0x03#8) ||| ((src (4 * x + 1) &&& 0x03#8) <<< 2) |||
        ((src (4 * x + 2) &&& 0x03#8) <<< 4) ||| ((src (4 * x + 3) &&& 0x03#8) <<< 6) := by
    rw [hbyte, packFields_two, padded_of_lt (by omega), padded_of_lt (by omega),
      padded_of_lt (by omega), padded_of_lt hx]
    rfl
  have hlast (hx : x = n / 4) : packedByte 2 src n x =
      packFields 2 (fun i => src (n - n % 4 + i)) (n % 4) := by
    have hcount : n % 4 + (4 - n % 4) = 4 := by omega
    have hadd := @packFields_add 2 (n % 4) (fun j => padded src n (4 * x + j)) (4 - n % 4)
      fun j hj => padded_of_le (by omega)
    rw [hcount] at hadd
    rw [hbyte, hadd]
    refine packFields_congr fun j hj => ?_
    have hindex : 4 * x + j = n - n % 4 + j := by omega
    rw [padded_of_lt (by omega), hindex]
  unfold packInt8IntoDenseInt
  rw [if_neg (by decide), if_pos rfl, hbytes]
  by_cases hrest : n % 4 > 0
  · simp only [if_pos hrest, update_apply]
    rw [foldl_update fun i => (src (4 * i) &&& 0x03#8) ||| ((src (4 * i + 1) &&& 0x03#8) <<< 2) |||
      ((src (4 * i + 2) &&& 0x03#8) <<< 4) ||| ((src (4 * i + 3) &&& 0x03#8) <<< 6)]
    by_cases hx : x = n / 4
    · rw [if_pos hx, if_pos (by omega), hlast hx]
      rfl
    · rw [if_neg hx]
      by_cases hlt : x < n / 4
      · rw [if_pos hlt, if_pos (by omega), hfull (by omega)]
      · rw [if_neg hlt, if_neg (by omega)]
  · simp only [if_neg hrest]
    rw [foldl_update fun i => (src (4 * i) &&& 0x03#8) ||| ((src (4 * i + 1) &&& 0x03#8) <<< 2) |||
      ((src (4 * i + 2) &&& 0x03#8) <<< 4) ||| ((src (4 * i + 3) &&& 0x03#8) <<< 6)]
    by_cases hlt : x < n / 4
    · rw [if_pos hlt, if_pos (by omega), hfull (by omega)]
    · rw [if_neg hlt, if_neg (by omega)]

/-- Exactly the bytes for the values are written. -/
theorem packInt8IntoDenseInt_eq {bitWidth : Nat} (hwidth : bitWidth = 2 ∨ bitWidth = 4)
    (src dst : Buffer) (n x : Nat) : packInt8IntoDenseInt src n bitWidth dst x =
      if x < bytesFor bitWidth n then packedByte bitWidth src n x else dst x := by
  obtain rfl | rfl := hwidth
  · exact packInt8IntoDenseInt_two src dst n x
  · exact packInt8IntoDenseInt_four src dst n x

/-! ## Unpacking -/

variable {dst : Buffer} {isUnsigned : Bool}

theorem lower_eq (isUnsigned : Bool) (byte : Byte) :
    (if isUnsigned then byte &&& 0x0F#8 else lowerInt4 byte) = extractField isUnsigned 4 byte 0 := by
  revert isUnsigned byte
  decide +kernel

theorem higher_eq (isUnsigned : Bool) (byte : Byte) :
    (if isUnsigned then byte.sshiftRight 4 &&& 0x0F#8 else byte.sshiftRight 4) =
      extractField isUnsigned 4 byte 4 := by
  revert isUnsigned byte
  decide +kernel

theorem int2_eq (isUnsigned : Bool) (byte : Byte) {i : Nat} (hi : i < 4) :
    (if isUnsigned then byte.sshiftRight (2 * i) &&& 0x03#8
      else (byte <<< (6 - 2 * i) &&& 0xFF#8).sshiftRight 6) =
      extractField isUnsigned 2 byte (i * 2) := by
  have hall : ∀ isUnsigned (byte : Byte), ∀ i < 4,
      (if isUnsigned = true then byte.sshiftRight (2 * i) &&& 0x03#8
        else (byte <<< (6 - 2 * i) &&& 0xFF#8).sshiftRight 6) =
        extractField isUnsigned 2 byte (i * 2) := by
    decide +kernel
  exact hall isUnsigned byte i hi

/-- Two values that are written behind each other. -/
theorem update_two (v : Nat → Byte) (dst : Buffer) (i x : Nat) :
    update (update dst (2 * i) (v 0)) (2 * i + 1) (v 1) x =
      if x / 2 = i then v (x % 2) else dst x := by
  simp only [update_apply]
  by_cases hx : x / 2 = i
  · obtain hmod | hmod := Nat.mod_two_eq_zero_or_one x
    · rw [if_pos hx, hmod, if_neg (by omega), if_pos (by omega)]
    · rw [if_pos hx, hmod, if_pos (by omega)]
  · rw [if_neg hx, if_neg (by omega), if_neg (by omega)]

/-- Four values that are written behind each other. -/
theorem update_four (v : Nat → Byte) (dst : Buffer) (i x : Nat) :
    update (update (update (update dst (4 * i) (v 0)) (4 * i + 1) (v 1)) (4 * i + 2) (v 2))
      (4 * i + 3) (v 3) x = if x / 4 = i then v (x % 4) else dst x := by
  simp only [update_apply]
  by_cases hx : x / 4 = i
  · have hlt : x % 4 < 4 := Nat.mod_lt x (by decide)
    obtain hmod | hmod | hmod | hmod : x % 4 = 0 ∨ x % 4 = 1 ∨ x % 4 = 2 ∨ x % 4 = 3 := by omega
    · rw [if_pos hx, hmod, if_neg (by omega), if_neg (by omega), if_neg (by omega),
        if_pos (by omega)]
    · rw [if_pos hx, hmod, if_neg (by omega), if_neg (by omega), if_pos (by omega)]
    · rw [if_pos hx, hmod, if_neg (by omega), if_pos (by omega)]
    · rw [if_pos hx, hmod, if_pos (by omega)]
  · rw [if_neg hx, if_neg (by omega), if_neg (by omega), if_neg (by omega), if_neg (by omega)]

theorem writeInt2s_eq (isUnsigned : Bool) (byte : Byte) (dst : Buffer) (i x : Nat) :
    writeInt2s byte isUnsigned dst i x =
      if x / 4 = i then extractField isUnsigned 2 byte (x % 4 * 2) else dst x := by
  have hends : ∀ byte : Byte, byte &&& 0x03#8 = extractField true 2 byte 0 ∧
      (byte <<< 6).sshiftRight 6 = extractField false 2 byte 0 ∧
      byte.sshiftRight 6 = extractField false 2 byte 6 := by decide +kernel
  obtain ⟨hunsigned, hfirst, hlast⟩ := hends byte
  rw [← update_four fun j => extractField isUnsigned 2 byte (j * 2)]
  unfold writeInt2s
  cases isUnsigned with
  | true =>
    rw [if_pos rfl, hunsigned]
    simp only [← int2_eq true byte (i := 1) (by decide), ← int2_eq true byte (i := 2) (by decide),
      ← int2_eq true byte (i := 3) (by decide)]
    rfl
  | false =>
    simp only [Bool.false_eq_true, if_false, hfirst, hlast,
      ← int2_eq false byte (i := 1) (by decide), ← int2_eq false byte (i := 2) (by decide)]

/-- The value of an element, from the byte that it is in. -/
def unpackedValue (isUnsigned : Bool) (bitWidth : Nat) (src : Buffer) (x : Nat) : Byte :=
  extractField isUnsigned bitWidth (src (x / (8 / bitWidth))) (x % (8 / bitWidth) * bitWidth)

theorem unpackPackedInt4_eq (isUnsigned : Bool) (src dst : Buffer) (n x : Nat) :
    unpackPackedInt4 src n dst isUnsigned x =
      if x < n then unpackedValue isUnsigned 4 src x else dst x := by
  have hbody : ∀ (dst : Buffer) i x, update (update dst (2 * i) (if isUnsigned then
        src i &&& 0x0F#8 else lowerInt4 (src i))) (2 * i + 1) (if isUnsigned then
        (src i).sshiftRight 4 &&& 0x0F#8 else (src i).sshiftRight 4) x =
      if x / 2 = i then unpackedValue isUnsigned 4 src x else dst x := by
    intro dst i x
    rw [lower_eq, higher_eq]
    have htwo := update_two (fun j => extractField isUnsigned 4 (src i) (j * 4)) dst i x
    refine Eq.trans htwo ?_
    by_cases hx : x / 2 = i
    · rw [if_pos hx, if_pos hx, ← hx]
      rfl
    · rw [if_neg hx, if_neg hx]
  have hloop := @foldl_blocks 2 (n / 2) _ (unpackedValue isUnsigned 4 src) hbody dst x
  have hlast (hx : x = n - 1) (hodd : n % 2 ≠ 0) :
      extractField isUnsigned 4 (src (n / 2)) 0 = unpackedValue isUnsigned 4 src x := by
    have hbyte : x / 2 = n / 2 := by omega
    have heven : x % 2 = 0 := by omega
    change _ = extractField isUnsigned 4 (src (x / 2)) (x % 2 * 4)
    rw [hbyte, heven]
  unfold unpackPackedInt4
  by_cases hodd : n % 2 ≠ 0
  · simp only [if_pos hodd, update_apply]
    rw [hloop, lower_eq]
    by_cases hx : x = n - 1
    · rw [if_pos hx, if_pos (by omega), hlast hx hodd]
    · rw [if_neg hx]
      by_cases hlt : x / 2 < n / 2
      · rw [if_pos hlt, if_pos (by omega)]
      · rw [if_neg hlt, if_neg (by omega)]
  · simp only [if_neg hodd]
    rw [hloop]
    by_cases hlt : x / 2 < n / 2
    · rw [if_pos hlt, if_pos (by omega)]
    · rw [if_neg hlt, if_neg (by omega)]

theorem unpackDenseInt4IntoInt8_eq (src dst : Buffer) (n x : Nat) :
    unpackDenseInt4IntoInt8 src n dst x =
      if x < n then unpackedValue false 4 src x else dst x :=
  unpackPackedInt4_eq false src dst n x

/-- The loop over the elements of a byte that is not full. -/
theorem foldl_updateFrom (g : Nat → Byte) (start m : Nat) (dst : Buffer) (x : Nat) :
    (List.range m).foldl (fun dst i => update dst (start + i) (g i)) dst x =
      if start ≤ x ∧ x < start + m then g (x - start) else dst x := by
  refine foldl_range_invariant (P := fun m (buffer : Buffer) =>
    buffer x = if start ≤ x ∧ x < start + m then g (x - start) else dst x) ?_ ?_
  · rw [if_neg (by omega)]
  · intro i buffer _ hbuffer
    rw [update_apply, hbuffer]
    by_cases hx : x = start + i
    · rw [if_pos hx, if_pos (by omega), hx, Nat.add_sub_cancel_left]
    · rw [if_neg hx]
      by_cases hlt : start ≤ x ∧ x < start + i
      · rw [if_pos hlt, if_pos (by omega)]
      · rw [if_neg hlt, if_neg (by omega)]

theorem unpackPackedInt2_eq (isUnsigned : Bool) (src dst : Buffer) (n x : Nat) :
    unpackPackedInt2 src n dst isUnsigned x =
      if x < n then unpackedValue isUnsigned 2 src x else dst x := by
  have hbody : ∀ (dst : Buffer) i x, writeInt2s (src i) isUnsigned dst i x =
      if x / 4 = i then unpackedValue isUnsigned 2 src x else dst x := by
    intro dst i x
    rw [writeInt2s_eq]
    by_cases hx : x / 4 = i
    · rw [if_pos hx, if_pos hx, ← hx]
      rfl
    · rw [if_neg hx, if_neg hx]
  have hloop := @foldl_blocks 4 (n / 4) _ (unpackedValue isUnsigned 2 src) hbody dst x
  unfold unpackPackedInt2
  by_cases hrest : n % 4 > 0
  · simp only [if_pos hrest]
    rw [foldl_updateFrom fun i => if isUnsigned then (src (n / 4)).sshiftRight (2 * i) &&& 0x03#8
      else (src (n / 4) <<< (6 - 2 * i) &&& 0xFF#8).sshiftRight 6, hloop]
    by_cases hlast : n - n % 4 ≤ x ∧ x < n - n % 4 + n % 4
    · have hindex : x - (n - n % 4) = x % 4 := by omega
      have hbyte : x / 4 = n / 4 := by omega
      have hfour : x - (n - n % 4) < 4 := by omega
      rw [if_pos hlast, int2_eq isUnsigned _ hfour, hindex, ← hbyte, if_pos (by omega)]
      rfl
    · rw [if_neg hlast]
      by_cases hlt : x / 4 < n / 4
      · rw [if_pos hlt, if_pos (by omega)]
      · rw [if_neg hlt, if_neg (by omega)]
  · simp only [if_neg hrest]
    rw [hloop]
    by_cases hlt : x / 4 < n / 4
    · rw [if_pos hlt, if_pos (by omega)]
    · rw [if_neg hlt, if_neg (by omega)]

theorem unpackPackedIntToInt8_eq {bitWidth : Nat} (hwidth : bitWidth = 2 ∨ bitWidth = 4)
    (isUnsigned : Bool) (src dst : Buffer) (n x : Nat) :
    unpackPackedIntToInt8 src n bitWidth dst isUnsigned x =
      if x < n then unpackedValue isUnsigned bitWidth src x else dst x := by
  unfold unpackPackedIntToInt8
  obtain rfl | rfl := hwidth
  · rw [if_neg (by decide), if_pos rfl]
    exact unpackPackedInt2_eq isUnsigned src dst n x
  · rw [if_pos rfl]
    exact unpackPackedInt4_eq isUnsigned src dst n x

theorem unpackedValue_packed {bitWidth : Nat} (hwidth : bitWidth = 2 ∨ bitWidth = 4)
    {isUnsigned : Bool} {values packed : Buffer} {n x : Nat} (hx : x < n)
    (hpacked : ∀ i < bytesFor bitWidth n, packed i = packedByte bitWidth values n i)
    (hfits : FieldFits isUnsigned bitWidth (values x)) :
    unpackedValue isUnsigned bitWidth packed x = values x := by
  have hbyte : x / (8 / bitWidth) < bytesFor bitWidth n := by
    unfold bytesFor
    obtain rfl | rfl := hwidth
    · change x / 4 < (n + 3) / 4
      omega
    · change x / 2 < (n + 1) / 2
      omega
  unfold unpackedValue
  rw [hpacked _ hbyte]
  exact extractField_packedByte hwidth hx hfits

end

/-!
## Packed integers in the converter

The converter packs the values chunk by chunk and gives each chunk to a callback, and unpacks
byte by byte until it has the values it was asked for. Its bytes are those of the kernels, so that
each side can read what the other one wrote.
-/

def kChunkSize : Nat := 1024 * 1024

/-- The values of a counter that grows by `step` while it is below `n`. -/
def counterValues (n step : Nat) : List Nat :=
  (List.range ((n + step - 1) / step)).map (· * step)

/-- The inner loop over the elements of a byte. -/
def packByte (bitWidth : Nat) (chunkBuffer : List Byte) (localIdx : Nat) : Byte :=
  (List.range (8 / bitWidth)).foldl (fun outByte j =>
    if h : localIdx + j < chunkBuffer.length then
      outByte ||| ((chunkBuffer[localIdx + j] &&& lowMask bitWidth) <<< (j * bitWidth))
    else outByte) 0

def packChunk (bitWidth : Nat) (chunkBuffer : List Byte) : List Byte :=
  (counterValues chunkBuffer.length (8 / bitWidth)).map (packByte bitWidth chunkBuffer)

variable {σ ε : Type*}

def streamPackLowBitValues8Bit (bitWidth : Nat) (values : List Byte)
    (applyChunk : σ → List Byte → Except ε σ) (state : σ) : Except ε σ :=
  (counterValues values.length kChunkSize).foldlM (fun state offset =>
    let chunkBuffer := (values.drop offset).take (min kChunkSize (values.length - offset))
    applyChunk state (packChunk bitWidth chunkBuffer)) state

/-- The elements of the range are the first words of the raw data of an `APInt`. -/
def streamPackLowBitValues (bitWidth : Nat) (values : List (BitVec 64))
    (applyChunk : σ → List Byte → Except ε σ) (state : σ) : Except ε σ :=
  if values = [] then .ok state
  else
    let chunkBuffer := (values.take kChunkSize).map (·.setWidth 8)
    match applyChunk state (packChunk bitWidth chunkBuffer) with
    | .error e => .error e
    | .ok state => streamPackLowBitValues bitWidth (values.drop kChunkSize) applyChunk state
termination_by values.length
decreasing_by
  have hpos := length_pos_of_ne_nil ‹_›
  rw [length_drop, kChunkSize]
  omega

/-- The loops of both unpackers. -/
def unpackDenseLowBit (extract : Byte → Nat → Byte) (srcBuffer : List Byte)
    (numElements bitWidth : Nat) : List Byte :=
  srcBuffer.foldl (fun unpacked value =>
    (List.range (8 / bitWidth)).foldl (fun unpacked i =>
      -- Once the break is taken, it is taken in every later round as well.
      if unpacked.length = numElements then unpacked
      else unpacked ++ [extract value (i * bitWidth)]) unpacked) []

def unpackDenseLowBitIntoInt8 (srcBuffer : List Byte) (numElements bitWidth : Nat) : List Byte :=
  let signBitShift := 8 - bitWidth
  unpackDenseLowBit (fun value bitOffset =>
    (((value >>> bitOffset) &&& lowMask bitWidth) <<< signBitShift).sshiftRight signBitShift)
    srcBuffer numElements bitWidth

def unpackDenseLowBitIntoUint8 (srcBuffer : List Byte) (numElements bitWidth : Nat) : List Byte :=
  unpackDenseLowBit (fun value bitOffset => (value >>> bitOffset) &&& lowMask bitWidth)
    srcBuffer numElements bitWidth

/-! ### The bytes of a chunk -/

variable {bitWidth : Nat}

theorem packByte_eq (bitWidth : Nat) (chunk : List Byte) (i : Nat) : packByte bitWidth chunk i =
    packFields bitWidth (fun j => chunk.getD (i + j) 0) (8 / bitWidth) := by
  unfold packByte packFields
  refine foldl_ext _ _ 0 fun out j _ => ?_
  by_cases h : i + j < chunk.length
  · simp [h]
  · simp [h]

theorem packChunk_eq (bitWidth : Nat) (chunk : List Byte) : packChunk bitWidth chunk =
    (List.range (bytesFor bitWidth chunk.length)).map
      (packedByte bitWidth (chunk.getD · 0) chunk.length) := by
  unfold packChunk counterValues
  rw [map_map]
  refine map_congr_left fun i _ => ?_
  change packByte bitWidth chunk (i * (8 / bitWidth)) = _
  rw [packByte_eq, Nat.mul_comm]
  refine packFields_congr fun j _ => ?_
  unfold padded
  split
  · rfl
  · rename_i hout
    rw [getD_eq_default _ _ (Nat.not_lt.1 hout)]

theorem length_packChunk (bitWidth : Nat) (chunk : List Byte) :
    (packChunk bitWidth chunk).length = bytesFor bitWidth chunk.length := by
  rw [packChunk_eq, length_map, length_range]

theorem getElem_packChunk {chunk : List Byte} {i : Nat} (hi : i < (packChunk bitWidth chunk).length) :
    (packChunk bitWidth chunk)[i] = packedByte bitWidth (chunk.getD · 0) chunk.length i := by
  simp only [packChunk_eq, getElem_map, getElem_range]

/-- Only the low bits matter. -/
theorem packChunk_congr {chunk chunk' : List Byte}
    (h : chunk.map (· &&& lowMask bitWidth) = chunk'.map (· &&& lowMask bitWidth)) :
    packChunk bitWidth chunk = packChunk bitWidth chunk' := by
  have hlength : chunk.length = chunk'.length := by
    simpa using congrArg List.length h
  have hmask : ∀ i, chunk.getD i 0 &&& lowMask bitWidth = chunk'.getD i 0 &&& lowMask bitWidth := by
    intro i
    have hi := congrArg (·[i]?) h
    simp only [getElem?_map] at hi
    simp only [getD_eq_getElem?_getD]
    by_cases hlt : i < chunk.length
    · have hlt' : i < chunk'.length := hlength ▸ hlt
      simpa [hlt, hlt'] using hi
    · have hge' : ¬i < chunk'.length := hlength ▸ hlt
      simp [hlt, hge']
  unfold packChunk
  rw [hlength]
  refine map_congr_left fun i _ => ?_
  rw [packByte_eq, packByte_eq]
  unfold packFields
  refine foldl_ext _ _ 0 fun out j _ => ?_
  rw [hmask]

theorem packChunk_nil (hpos : 0 < 8 / bitWidth) : packChunk bitWidth [] = [] := by
  have hnone : (0 + 8 / bitWidth - 1) / (8 / bitWidth) = 0 := Nat.div_eq_of_lt (by omega)
  unfold packChunk counterValues
  rw [length_nil, hnone]
  rfl

/-- Chunks that fill their bytes can be packed one by one. -/
theorem packChunk_append (hpos : 0 < 8 / bitWidth) {chunk rest : List Byte}
    (hfull : 8 / bitWidth ∣ chunk.length) :
    packChunk bitWidth (chunk ++ rest) = packChunk bitWidth chunk ++ packChunk bitWidth rest := by
  obtain ⟨m, hm⟩ := hfull
  have hcount : ∀ n, (8 / bitWidth * m + n + 8 / bitWidth - 1) / (8 / bitWidth) =
      m + (n + 8 / bitWidth - 1) / (8 / bitWidth) := by
    intro n
    have hassoc : 8 / bitWidth * m + n + 8 / bitWidth - 1 =
        8 / bitWidth * m + (n + 8 / bitWidth - 1) := by omega
    rw [hassoc, Nat.mul_add_div hpos]
  have hchunk : (8 / bitWidth * m + 8 / bitWidth - 1) / (8 / bitWidth) = m := by
    have hzero := hcount 0
    rw [Nat.add_zero, Nat.zero_add, Nat.div_eq_of_lt (Nat.sub_lt hpos Nat.one_pos)] at hzero
    exact hzero
  unfold packChunk counterValues
  rw [length_append, hm, hcount, hchunk, range_add, map_append, map_append]
  simp only [map_map]
  congr 1
  · refine map_congr_left fun i hi => ?_
    have him : i < m := mem_range.1 hi
    simp only [Function.comp_apply, packByte_eq]
    refine packFields_congr fun j hj => ?_
    have hlt : i * (8 / bitWidth) + j < chunk.length := by
      calc i * (8 / bitWidth) + j < (i + 1) * (8 / bitWidth) := by
            rw [Nat.succ_mul]
            omega
        _ ≤ m * (8 / bitWidth) := Nat.mul_le_mul_right _ him
        _ = chunk.length := by rw [hm, Nat.mul_comm]
    rw [getD_append _ _ _ _ hlt]
  · refine map_congr_left fun i _ => ?_
    simp only [Function.comp_apply, packByte_eq]
    refine packFields_congr fun j _ => ?_
    have hindex : (m + i) * (8 / bitWidth) + j = chunk.length + (i * (8 / bitWidth) + j) := by
      rw [hm, Nat.add_mul, Nat.mul_comm m, Nat.add_assoc]
    rw [hindex, getD_append_right _ _ _ _ (Nat.le_add_right _ _), Nat.add_sub_cancel_left]

/-! ### The chunks together -/

/-- The callback that keeps all chunks. -/
def collectChunk (ε : Type) (packed chunk : List Byte) : Except ε (List Byte) :=
  .ok (packed ++ chunk)

variable {ε : Type}

theorem dvd_kChunkSize (hwidth : bitWidth = 2 ∨ bitWidth = 4) : 8 / bitWidth ∣ kChunkSize := by
  obtain rfl | rfl := hwidth <;> decide

theorem elementsPerByte_pos (hwidth : bitWidth = 2 ∨ bitWidth = 4) : 0 < 8 / bitWidth := by
  obtain rfl | rfl := hwidth <;> decide

theorem streamPackLowBitValues8Bit_collect (hwidth : bitWidth = 2 ∨ bitWidth = 4)
    (values : List Byte) : streamPackLowBitValues8Bit bitWidth values (collectChunk ε) [] =
      .ok (packChunk bitWidth values) := by
  have hK : 0 < kChunkSize := by decide
  unfold streamPackLowBitValues8Bit collectChunk counterValues
  refine (foldlM_pure (m := Except ε)).trans ?_
  rw [foldl_map]
  refine congrArg Except.ok ?_
  -- So many chunks are the packed values up to the next offset.
  have hrun := @foldl_range_invariant (List Byte)
    (fun i packed => packed = packChunk bitWidth (values.take (i * kChunkSize)))
    ((values.length + kChunkSize - 1) / kChunkSize) []
    (fun packed i => packed ++ packChunk bitWidth ((values.drop (i * kChunkSize)).take
      (min kChunkSize (values.length - i * kChunkSize)))) ?_ ?_
  · have hall : values.length ≤ (values.length + kChunkSize - 1) / kChunkSize * kChunkSize := by
      have hmod := Nat.mod_lt (values.length + kChunkSize - 1) hK
      have hdiv := Nat.div_add_mod' (values.length + kChunkSize - 1) kChunkSize
      omega
    rw [hrun, take_of_length_le hall]
  · rw [Nat.zero_mul, take_zero, packChunk_nil (elementsPerByte_pos hwidth)]
  · intro i packed hi hpacked
    have hlt : i * kChunkSize < values.length := by
      have hle := Nat.mul_le_mul_right kChunkSize (Nat.succ_le_of_lt hi)
      have hround := Nat.div_mul_le_self (values.length + kChunkSize - 1) kChunkSize
      rw [Nat.succ_mul] at hle
      omega
    have hlength : (values.take (i * kChunkSize)).length = i * kChunkSize := by
      rw [length_take, Nat.min_eq_left (Nat.le_of_lt hlt)]
    have hchunk : (values.drop (i * kChunkSize)).take
        (min kChunkSize (values.length - i * kChunkSize)) =
          (values.drop (i * kChunkSize)).take kChunkSize := by
      rw [← length_drop, ← take_take, take_length]
    rw [hpacked, hchunk, ← packChunk_append (elementsPerByte_pos hwidth), ← take_add, Nat.succ_mul]
    rw [hlength]
    exact Nat.dvd_mul_left_of_dvd (dvd_kChunkSize hwidth) i

theorem streamPackLowBitValues_collect (hwidth : bitWidth = 2 ∨ bitWidth = 4)
    (values : List (BitVec 64)) (packed : List Byte) :
    streamPackLowBitValues bitWidth values (collectChunk ε) packed =
      .ok (packed ++ packChunk bitWidth (values.map (·.setWidth 8))) := by
  induction hn : values.length using Nat.strong_induction_on generalizing values packed with
  | _ n ih =>
    rw [streamPackLowBitValues]
    by_cases hempty : values = []
    · rw [if_pos hempty, hempty, map_nil, packChunk_nil (elementsPerByte_pos hwidth), append_nil]
    · rw [if_neg hempty]
      have hpos := length_pos_of_ne_nil hempty
      have hshorter : (values.drop kChunkSize).length < n := by
        rw [length_drop, kChunkSize]
        omega
      have hrest := ih _ hshorter (values.drop kChunkSize)
        (packed ++ packChunk bitWidth ((values.take kChunkSize).map (·.setWidth 8))) rfl
      refine hrest.trans (congrArg Except.ok ?_)
      rw [append_assoc]
      congr 1
      by_cases hlast : values.length ≤ kChunkSize
      · rw [take_of_length_le hlast, drop_eq_nil_of_le hlast, map_nil,
          packChunk_nil (elementsPerByte_pos hwidth), append_nil]
      · have hlength : ((values.take kChunkSize).map (·.setWidth 8)).length = kChunkSize := by
          rw [length_map, length_take]
          omega
        rw [← packChunk_append (elementsPerByte_pos hwidth), ← map_append, take_append_drop]
        rw [hlength]
        exact dvd_kChunkSize hwidth

/-! ### Unpacking -/

/-- The values that are asked for are taken out, as far as there are bytes. -/
theorem unpackDenseLowBit_eq (hpos : 0 < 8 / bitWidth) (extract : Byte → Nat → Byte)
    (src : List Byte) (num : Nat) : unpackDenseLowBit extract src num bitWidth =
      (List.range (min num (src.length * (8 / bitWidth)))).map fun x =>
        extract (src.getD (x / (8 / bitWidth)) 0) (x % (8 / bitWidth) * bitWidth) := by
  unfold unpackDenseLowBit
  refine foldl_invariant (P := fun done (unpacked : List Byte) => unpacked =
    (List.range (min num (done.length * (8 / bitWidth)))).map fun x =>
      extract (src.getD (x / (8 / bitWidth)) 0) (x % (8 / bitWidth) * bitWidth)) ?_ ?_
  · rw [length_nil, Nat.zero_mul, Nat.min_zero]
    rfl
  · intro done value rest unpacked hsrc hunpacked
    rw [length_append, length_singleton, Nat.succ_mul]
    refine foldl_range_invariant (P := fun i (unpacked : List Byte) => unpacked =
      (List.range (min num (done.length * (8 / bitWidth) + i))).map fun x =>
        extract (src.getD (x / (8 / bitWidth)) 0) (x % (8 / bitWidth) * bitWidth)) hunpacked ?_
    intro i unpacked hi hunpacked
    have hlength : unpacked.length = min num (done.length * (8 / bitWidth) + i) := by
      rw [hunpacked, length_map, length_range]
    by_cases hfull : unpacked.length = num
    · have hsame : min num (done.length * (8 / bitWidth) + (i + 1)) =
          min num (done.length * (8 / bitWidth) + i) := by omega
      rw [if_pos hfull, hsame, hunpacked]
    · have hnow : min num (done.length * (8 / bitWidth) + i) =
          done.length * (8 / bitWidth) + i := by omega
      have hnext : min num (done.length * (8 / bitWidth) + (i + 1)) =
          done.length * (8 / bitWidth) + i + 1 := by omega
      have hdiv : (done.length * (8 / bitWidth) + i) / (8 / bitWidth) = done.length := by
        rw [Nat.mul_comm, Nat.mul_add_div hpos, Nat.div_eq_of_lt hi, Nat.add_zero]
      have hmod : (done.length * (8 / bitWidth) + i) % (8 / bitWidth) = i := by
        rw [Nat.mul_comm, Nat.mul_add_mod, Nat.mod_eq_of_lt hi]
      have hvalue : src.getD done.length 0 = value := by
        rw [hsrc, getD_append_right _ _ _ _ (Nat.le_refl _), Nat.sub_self]
        rfl
      rw [if_neg hfull, hnext, range_succ, map_append, map_singleton, hdiv, hmod,
        hvalue, hunpacked, hnow]

theorem signExtended_eq (hwidth : bitWidth = 2 ∨ bitWidth = 4) (byte : Byte) {j : Nat}
    (hj : j < 8 / bitWidth) :
    (((byte >>> (j * bitWidth)) &&& lowMask bitWidth) <<< (8 - bitWidth)).sshiftRight
      (8 - bitWidth) = extractField false bitWidth byte (j * bitWidth) := by
  have htwo : ∀ (byte : Byte), ∀ j < 4, (((byte >>> (j * 2)) &&& lowMask 2) <<< 6).sshiftRight 6 =
      extractField false 2 byte (j * 2) := by decide +kernel
  have hfour : ∀ (byte : Byte), ∀ j < 2, (((byte >>> (j * 4)) &&& lowMask 4) <<< 4).sshiftRight 4 =
      extractField false 4 byte (j * 4) := by decide +kernel
  obtain rfl | rfl := hwidth
  · exact htwo byte j hj
  · exact hfour byte j hj

/-- The unpacker for values with a sign, or without one. -/
def unpackDenseLowBitInto (isUnsigned : Bool) (srcBuffer : List Byte)
    (numElements bitWidth : Nat) : List Byte :=
  if isUnsigned then unpackDenseLowBitIntoUint8 srcBuffer numElements bitWidth
  else unpackDenseLowBitIntoInt8 srcBuffer numElements bitWidth

theorem unpackDenseLowBitInto_eq (hwidth : bitWidth = 2 ∨ bitWidth = 4) (isUnsigned : Bool)
    {src : List Byte} {num : Nat} (hnum : num ≤ src.length * (8 / bitWidth)) :
    unpackDenseLowBitInto isUnsigned src num bitWidth =
      (List.range num).map (unpackedValue isUnsigned bitWidth (src.getD · 0)) := by
  have hpos := elementsPerByte_pos hwidth
  unfold unpackDenseLowBitInto
  cases isUnsigned with
  | true =>
    rw [if_pos rfl]
    unfold unpackDenseLowBitIntoUint8
    rw [unpackDenseLowBit_eq hpos, Nat.min_eq_left hnum]
    rfl
  | false =>
    rw [if_neg Bool.false_ne_true]
    unfold unpackDenseLowBitIntoInt8
    rw [unpackDenseLowBit_eq hpos, Nat.min_eq_left hnum]
    refine map_congr_left fun x _ => ?_
    exact signExtended_eq hwidth _ (Nat.mod_lt x hpos)

/-! ### Both sides -/

theorem le_bytesFor_mul (hwidth : bitWidth = 2 ∨ bitWidth = 4) (n : Nat) :
    n ≤ bytesFor bitWidth n * (8 / bitWidth) := by
  unfold bytesFor
  obtain rfl | rfl := hwidth
  · change n ≤ (n + 3) / 4 * 4
    omega
  · change n ≤ (n + 1) / 2 * 2
    omega

def Holds (buffer : Buffer) (bytes : List Byte) : Prop :=
  ∀ (i : Nat) (h : i < bytes.length), buffer i = bytes[i]

/-- The bytes that the converter gives to its callback are those that the kernels write, with
zeros behind the last value, and each unpacker takes the values out of them again. -/
theorem lowBitPacking_consistent {bitWidth : Nat} (hwidth : bitWidth = 2 ∨ bitWidth = 4)
    (isUnsigned : Bool) {values : List Byte}
    (hfits : ∀ value ∈ values, FieldFits isUnsigned bitWidth value) :
    ∃ bytes : List Byte, bytes.length = bytesFor bitWidth values.length ∧
      (∀ ε : Type, streamPackLowBitValues8Bit bitWidth values (collectChunk ε) [] = .ok bytes) ∧
      (∀ (ε : Type) (raws : List (BitVec 64)),
        raws.map (·.setWidth 8 &&& lowMask bitWidth) = values.map (· &&& lowMask bitWidth) →
        streamPackLowBitValues bitWidth raws (collectChunk ε) [] = .ok bytes) ∧
      (∀ src : Buffer, Holds src values → ∀ dst x,
        packInt8IntoDenseInt src values.length bitWidth dst x = bytes.getD x (dst x)) ∧
      (∀ bit, values.length * bitWidth ≤ bit → bit < bytes.length * 8 →
        (bytes.getD (bit / 8) 0).getLsbD (bit % 8) = false) ∧
      unpackDenseLowBitInto isUnsigned bytes values.length bitWidth = values ∧
      ∀ packed : Buffer, Holds packed bytes → ∀ dst x,
        unpackPackedIntToInt8 packed values.length bitWidth dst isUnsigned x =
          values.getD x (dst x) ∧
        (bitWidth = 4 → isUnsigned = false →
          unpackDenseInt4IntoInt8 packed values.length dst x = values.getD x (dst x)) := by
  have hpos := elementsPerByte_pos hwidth
  have hvalue : ∀ (packed : Buffer), Holds packed (packChunk bitWidth values) →
      ∀ x (hx : x < values.length), unpackedValue isUnsigned bitWidth packed x = values[x] := by
    intro packed hpacked x hx
    have hgetD : values.getD x 0 = values[x] := getD_eq_getElem _ _ hx
    have hbytes : ∀ i < bytesFor bitWidth values.length,
        packed i = packedByte bitWidth (values.getD · 0) values.length i := by
      intro i hi
      have hi' : i < (packChunk bitWidth values).length := by rwa [length_packChunk]
      rw [hpacked i hi', getElem_packChunk]
    have hfit : FieldFits isUnsigned bitWidth (values.getD x 0) := by
      rw [hgetD]
      exact hfits _ (getElem_mem hx)
    exact (unpackedValue_packed hwidth hx hbytes hfit).trans hgetD
  have hread : ∀ (packed : Buffer), Holds packed (packChunk bitWidth values) →
      ∀ (dst : Buffer) x, (if x < values.length then unpackedValue isUnsigned bitWidth packed x
        else dst x) = values.getD x (dst x) := by
    intro packed hpacked dst x
    by_cases hx : x < values.length
    · rw [if_pos hx, hvalue packed hpacked x hx, getD_eq_getElem _ _ hx]
    · rw [if_neg hx, getD_eq_default _ _ (Nat.not_lt.1 hx)]
  refine ⟨packChunk bitWidth values, length_packChunk bitWidth values,
    fun ε => streamPackLowBitValues8Bit_collect hwidth values, ?_, ?_, ?_, ?_, ?_⟩
  · intro ε raws hraws
    rw [streamPackLowBitValues_collect hwidth, nil_append]
    refine congrArg Except.ok (packChunk_congr ?_)
    rw [map_map]
    exact hraws
  · intro src hsrc dst x
    rw [packInt8IntoDenseInt_eq hwidth]
    by_cases hx : x < bytesFor bitWidth values.length
    · have hx' : x < (packChunk bitWidth values).length := by rwa [length_packChunk]
      rw [if_pos hx, getD_eq_getElem _ _ hx', getElem_packChunk]
      refine packFields_congr fun j _ => ?_
      unfold padded
      split
      · rename_i hlt
        exact (hsrc _ hlt).trans (getD_eq_getElem _ _ hlt).symm
      · rfl
    · have hx' : (packChunk bitWidth values).length ≤ x := by
        rw [length_packChunk]
        exact Nat.not_lt.1 hx
      rw [if_neg hx, getD_eq_default _ _ hx']
  · intro bit hbehind hbit
    have hbyte : bit / 8 < (packChunk bitWidth values).length :=
      Nat.div_lt_of_lt_mul (by rwa [Nat.mul_comm])
    rw [getD_eq_getElem _ _ hbyte, getElem_packChunk]
    refine getLsbD_packedByte_padding (by omega) (Nat.mod_lt _ (by decide)) ?_
    obtain rfl | rfl := hwidth
    · change values.length ≤ 4 * (bit / 8) + bit % 8 / 2
      omega
    · change values.length ≤ 2 * (bit / 8) + bit % 8 / 4
      omega
  · have hholds : Holds ((packChunk bitWidth values).getD · 0) (packChunk bitWidth values) :=
      fun i h => getD_eq_getElem _ _ h
    have hnum : values.length ≤ (packChunk bitWidth values).length * (8 / bitWidth) := by
      rw [length_packChunk]
      exact le_bytesFor_mul hwidth _
    rw [unpackDenseLowBitInto_eq hwidth isUnsigned hnum]
    refine ext_getElem (by simp) fun x hx hx' => ?_
    rw [getElem_map, getElem_range]
    exact hvalue _ hholds x hx'
  · intro packed hpacked dst x
    refine ⟨?_, ?_⟩
    · rw [unpackPackedIntToInt8_eq hwidth]
      exact hread packed hpacked dst x
    · rintro rfl rfl
      rw [unpackDenseInt4IntoInt8_eq]
      exact hread packed hpacked dst x

/-- Three values of two bits, the last of them in a byte that is not full. -/
theorem lowBitPacking_consistent_partial : ∃ bytes : List Byte, bytes.length = 1 ∧
    unpackDenseLowBitInto false bytes 3 2 = [1, -2, -1] := by
  obtain ⟨bytes, hlength, -, -, -, -, hunpack, -⟩ :=
    @lowBitPacking_consistent 2 (.inl rfl) false [1, -2, -1] (by decide)
  exact ⟨bytes, hlength, hunpack⟩

end LiteRt.Kernels
