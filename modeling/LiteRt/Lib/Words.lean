import Mathlib.Algebra.Group.Nat.Defs
import Mathlib.Data.List.Basic
import Mathlib.Data.List.GetD

/-!
# 32-bit words among bytes

A word takes four bytes, the lowest first. Bytes behind the end read as zero.
-/

namespace LiteRt.Lib

variable {n pos : Nat} {words : List Nat}

/-- The four bytes of a number modulo 2^32. -/
def wordBytes (n : Nat) : List UInt8 :=
  [UInt8.ofNat n, UInt8.ofNat (n / 256), UInt8.ofNat (n / 65536), UInt8.ofNat (n / 16777216)]

def byteAt (bytes : List UInt8) (pos : Nat) : Nat := (bytes.getD pos 0).toNat

def wordAt (bytes : List UInt8) (pos : Nat) : Nat :=
  byteAt bytes pos + 256 * byteAt bytes (pos + 1) + 65536 * byteAt bytes (pos + 2) +
    16777216 * byteAt bytes (pos + 3)

/-- The double word that starts at a position. -/
def doubleAt (bytes : List UInt8) (pos : Nat) : Nat :=
  wordAt bytes pos + 4294967296 * wordAt bytes (pos + 4)

def signed32 (n : Nat) : Int := if n < 2147483648 then n else n - 4294967296

theorem length_wordBytes (n : Nat) : (wordBytes n).length = 4 :=
  rfl

theorem byteAt_lt (bytes : List UInt8) (pos : Nat) : byteAt bytes pos < 256 :=
  UInt8.toNat_lt _

theorem wordAt_lt (bytes : List UInt8) (pos : Nat) : wordAt bytes pos < 4294967296 := by
  have h0 := byteAt_lt bytes pos
  have h1 := byteAt_lt bytes (pos + 1)
  have h2 := byteAt_lt bytes (pos + 2)
  have h3 := byteAt_lt bytes (pos + 3)
  unfold wordAt
  omega

theorem byteAt_append_right (front back : List UInt8) (pos : Nat) :
    byteAt (front ++ back) (front.length + pos) = byteAt back pos := by
  unfold byteAt
  rw [List.getD_append_right _ _ _ _ (Nat.le_add_right _ _), Nat.add_sub_cancel_left]

theorem wordAt_append_right (front back : List UInt8) (pos : Nat) :
    wordAt (front ++ back) (front.length + pos) = wordAt back pos := by
  unfold wordAt
  simp only [Nat.add_assoc, byteAt_append_right]

theorem wordAt_wordBytes (n : Nat) (back : List UInt8) :
    wordAt (wordBytes n ++ back) 0 = n % 4294967296 := by
  have h0 : byteAt (wordBytes n ++ back) 0 = n % 256 := UInt8.toNat_ofNat'
  have h1 : byteAt (wordBytes n ++ back) 1 = n / 256 % 256 := UInt8.toNat_ofNat'
  have h2 : byteAt (wordBytes n ++ back) 2 = n / 65536 % 256 := UInt8.toNat_ofNat'
  have h3 : byteAt (wordBytes n ++ back) 3 = n / 16777216 % 256 := UInt8.toNat_ofNat'
  unfold wordAt
  rw [h0, h1, h2, h3]
  omega

theorem length_flatMap_wordBytes (words : List Nat) :
    (words.flatMap wordBytes).length = 4 * words.length := by
  induction words with
  | nil => rfl
  | cons n words ih =>
    rw [List.flatMap_cons, List.length_append, ih, length_wordBytes, List.length_cons]
    omega

theorem wordAt_flatMap {i n : Nat} (h : words[i]? = some n) (back : List UInt8) :
    wordAt (words.flatMap wordBytes ++ back) (4 * i) = n % 4294967296 := by
  have hi := (List.getElem?_eq_some_iff.1 h).1
  have hsplit : words = words.take i ++ n :: words.drop (i + 1) := by
    rw [List.getElem?_eq_some_iff] at h
    obtain ⟨hlt, rfl⟩ := h
    rw [List.getElem_cons_drop, List.take_append_drop]
  have hlen : ((words.take i).flatMap wordBytes).length = 4 * i := by
    rw [length_flatMap_wordBytes, List.length_take, Nat.min_eq_left (Nat.le_of_lt hi)]
  have hword := wordAt_append_right ((words.take i).flatMap wordBytes)
    (wordBytes n ++ ((words.drop (i + 1)).flatMap wordBytes ++ back)) 0
  rw [hlen, Nat.add_zero, wordAt_wordBytes] at hword
  rw [hsplit]
  simpa [List.flatMap_append, List.append_assoc] using hword

/-- A byte among the first ones. -/
theorem byteAt_take (bytes : List UInt8) (h : pos < n) :
    byteAt (bytes.take n) pos = byteAt bytes pos := by
  unfold byteAt
  rw [List.getD_eq_getElem?_getD, List.getD_eq_getElem?_getD, List.getElem?_take_of_lt h]

theorem wordAt_take (bytes : List UInt8) (h : pos + 4 ≤ n) :
    wordAt (bytes.take n) pos = wordAt bytes pos := by
  unfold wordAt
  rw [byteAt_take _ (by omega), byteAt_take _ (by omega), byteAt_take _ (by omega),
    byteAt_take _ (by omega)]

theorem doubleAt_take (bytes : List UInt8) (h : pos + 8 ≤ n) :
    doubleAt (bytes.take n) pos = doubleAt bytes pos := by
  unfold doubleAt
  rw [wordAt_take _ (by omega), wordAt_take _ (by omega)]

theorem byteAt_eq_mod (bytes : List UInt8) (pos : Nat) :
    byteAt bytes pos = wordAt bytes pos % 256 := by
  have hlt := byteAt_lt bytes pos
  unfold wordAt
  omega

/-- A double word in a table of words. -/
theorem doubleAt_flatMap {i low high : Nat} (hlow : words[i]? = some low)
    (hhigh : words[i + 1]? = some high) (back : List UInt8) :
    doubleAt (words.flatMap wordBytes ++ back) (4 * i) =
      low % 4294967296 + 4294967296 * (high % 4294967296) := by
  have hnext := wordAt_flatMap hhigh back
  unfold doubleAt
  rw [wordAt_flatMap hlow, ← hnext]
  rfl

theorem signed32_eq {n : Nat} (h : n < 2147483648) : signed32 n = n :=
  if_pos h

end LiteRt.Lib
