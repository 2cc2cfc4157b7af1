import LiteRt.Lib.Loops
import LiteRt.Lib.Words
import Mathlib.Algebra.Ring.Nat

/-!
# String tensors

A buffer of strings holds their number, the offset of each string, the length of the whole
buffer, and then the strings themselves. All header fields are words of 32 bits.
-/

namespace LiteRt.Tflite

open LiteRt.Lib List

/-! ## Reading -/

def getStringCount (buffer : List UInt8) : Int := signed32 (wordAt buffer 0)

/-- The offset that stands at a position of the header. -/
def stringOffset (buffer : List UInt8) (i : Nat) : Int := signed32 (wordAt buffer (4 * (i + 1)))

/-- A pointer into a buffer and a `size_t` length. -/
structure StringRef where
  str : Int
  len : Nat
  deriving DecidableEq, Repr

def getString (buffer : List UInt8) (i : Nat) : StringRef where
  str := stringOffset buffer i
  len := ((stringOffset buffer (i + 1) - stringOffset buffer i) % 18446744073709551616).toNat

/-- The bytes of a reference that lies in the buffer. -/
def StringRef.bytes (ref : StringRef) (buffer : List UInt8) : Option (List UInt8) :=
  if 0 ≤ ref.str ∧ ref.str.toNat + ref.len ≤ buffer.length then
    some ((buffer.drop ref.str.toNat).take ref.len)
  else none

/-! ## Writing -/

def kDefaultMaxLength : Nat := 2147483647

structure SimpleDynamicBuffer where
  /-- Contents of the strings, not including headers. -/
  data : List UInt8
  /-- Offset of the starting index of each string in `data`. -/
  offset : List Nat
  maxLength : Nat
  deriving DecidableEq, Repr

/-- Why a call does not come back with a result: the vector cannot take a negative size, or
bytes are written behind the end of a buffer. -/
inductive Undefined where
  | lengthError
  | outOfBounds
  deriving DecidableEq, Repr

namespace SimpleDynamicBuffer

def new (maxLength : Nat) : SimpleDynamicBuffer := ⟨[], [0], maxLength⟩

def back (buf : SimpleDynamicBuffer) : Nat := buf.offset.getLastD 0

/-- `memcpy(data + pos, bytes, size)`. -/
def writeAt (data : List UInt8) (pos : Nat) (bytes : List UInt8) :
    Except Undefined (List UInt8) :=
  if bytes = [] then .ok data
  else if pos + bytes.length ≤ data.length then
    .ok (data.take pos ++ bytes ++ data.drop (pos + bytes.length))
  else .error .outOfBounds

/-- `data_.resize(size)`. -/
def resized (data : List UInt8) (size : Nat) : List UInt8 :=
  data.take size ++ List.replicate (size - data.length) 0

/-- Whether the string is added, and the buffer. -/
def addString (buf : SimpleDynamicBuffer) (str : List UInt8) :
    Except Undefined (Bool × SimpleDynamicBuffer) :=
  if buf.maxLength < str.length ∨ buf.maxLength - str.length ≤ buf.data.length then
    .ok (false, buf)
  else if str.length = 0 then .ok (true, { buf with offset := buf.offset ++ [buf.back] })
  else do
    let data ← writeAt (resized buf.data (buf.data.length + str.length)) buf.back str
    return (true, { buf with data := data, offset := buf.offset ++ [buf.back + str.length] })

/-- The strings with the separator between them. -/
def joined (strings : List (List UInt8)) (separator : List UInt8) : List UInt8 :=
  (strings.intersperse separator).flatten

/-- The `int` length of the joined strings. -/
def totalLen (strings : List (List UInt8)) (separator : List UInt8) : Int :=
  signed32 ((((strings.length : Int) - 1) * separator.length +
    (strings.map List.length).sum) % 4294967296).toNat

def addJoinedString (buf : SimpleDynamicBuffer) (strings : List (List UInt8))
    (separator : List UInt8) : Except Undefined SimpleDynamicBuffer :=
  let size := buf.data.length + totalLen strings separator
  if size < 0 then .error .lengthError
  else do
    let data ← writeAt (resized buf.data size.toNat) buf.back (joined strings separator)
    return { buf with
      data := data
      offset := buf.offset ++ [(buf.back + totalLen strings separator).toNat] }

/-- The number of bytes and the buffer; no memory of a negative size is found. -/
def writeToBuffer (buf : SimpleDynamicBuffer) : Except Undefined (Int × List UInt8) :=
  let numStrings := buf.offset.length - 1
  let bytes := signed32 ((buf.data.length + 4 * (numStrings + 2)) % 4294967296)
  if bytes < 0 then .ok (-1, [])
  else if buf.data.length + 4 * (numStrings + 2) = bytes then
    .ok (bytes, wordBytes numStrings ++
      (buf.offset.map fun offset => 4 * (numStrings + 2) + offset).flatMap wordBytes ++ buf.data)
  else .error .outOfBounds

end SimpleDynamicBuffer

open SimpleDynamicBuffer

/-! ## Sequences of calls -/

inductive StringCall where
  | addString (str : List UInt8)
  | addJoinedString (strings : List (List UInt8)) (separator : List UInt8)
  deriving DecidableEq, Repr

/-- Why a sequence of calls stopped. -/
inductive StringStop where
  | rejected
  | undefined (reason : Undefined)
  deriving DecidableEq, Repr

namespace StringCall

/-- The string that the call is to add. -/
def added : StringCall → List UInt8
  | addString str => str
  | addJoinedString strings separator => joined strings separator

/-- A call; one that returns an error ends the sequence. -/
def apply (buf : SimpleDynamicBuffer) : StringCall → Except StringStop SimpleDynamicBuffer
  | addString str =>
    match buf.addString str with
    | .error reason => .error (.undefined reason)
    | .ok result => if result.1 then .ok result.2 else .error .rejected
  | addJoinedString strings separator =>
    (buf.addJoinedString strings separator).mapError .undefined

def run (maxLength : Nat) (calls : List StringCall) : Except StringStop SimpleDynamicBuffer :=
  calls.foldlM apply (.new maxLength)

/-- The length of the joined strings does not go below zero. -/
def Joins : StringCall → Prop
  | addString _ => True
  | addJoinedString strings separator => strings = [] → 4294967296 ∣ separator.length

instance (call : StringCall) : Decidable call.Joins := by
  cases call <;> unfold Joins <;> infer_instance

/-- The sum of the lengths of the added strings. -/
def contentSize (calls : List StringCall) : Nat := (calls.map fun call => call.added.length).sum

/-- All strings and the header fit into the positive numbers of 32 bits. -/
def Fits (calls : List StringCall) : Prop :=
  contentSize calls + 4 * (calls.length + 2) < 2147483648

instance (calls : List StringCall) : Decidable (Fits calls) :=
  inferInstanceAs (Decidable (_ < _))

end StringCall

/-- The buffer of `bytes` bytes holds the strings: each is read back, and each offset is the
true position of its string. -/
structure HoldsStrings (strings : List (List UInt8)) (bytes : Int) (buffer : List UInt8) : Prop where
  count : getStringCount buffer = strings.length
  read : ∀ (i : Nat) (str : List UInt8), strings[i]? = some str →
    (getString buffer i).bytes buffer = some str
  offset : ∀ i ≤ strings.length, stringOffset buffer i =
    (4 * (strings.length + 2) + ((strings.take i).map List.length).sum : Nat)
  last : stringOffset buffer strings.length = bytes
  size : bytes = buffer.length

/-! ## The layout -/

section
variable {strings : List (List UInt8)} {str : List UInt8} {i : Nat}

/-- Where the `i`-th string starts among the contents. -/
def startOf (strings : List (List UInt8)) (i : Nat) : Nat :=
  ((strings.take i).map List.length).sum

theorem startOf_succ (h : strings[i]? = some str) :
    startOf strings (i + 1) = startOf strings i + str.length := by
  unfold startOf
  rw [take_add_one, h, map_append, sum_append]
  simp

theorem startOf_append_of_le (h : i ≤ strings.length) (more : List (List UInt8)) :
    startOf (strings ++ more) i = startOf strings i := by
  unfold startOf
  rw [take_append_of_le_length h]

theorem startOf_length : startOf strings strings.length = strings.flatten.length := by
  unfold startOf
  rw [take_length, length_flatten]

theorem startOf_le (i : Nat) : startOf strings i ≤ strings.flatten.length := by
  unfold startOf
  rw [← length_flatten]
  conv_rhs => rw [← take_append_drop i strings, flatten_append, length_append]
  exact Nat.le_add_right _ _

/-- The contents from the start of a string on. -/
theorem slice_flatten (h : strings[i]? = some str) :
    (strings.flatten.drop (startOf strings i)).take str.length = str := by
  obtain ⟨hlt, rfl⟩ := List.getElem?_eq_some_iff.1 h
  have hsplit : strings.flatten =
      (strings.take i).flatten ++ (strings[i] ++ (strings.drop (i + 1)).flatten) := by
    conv_lhs => rw [← take_append_drop i strings, ← getElem_cons_drop hlt]
    rw [flatten_append, flatten_cons]
  have hstart : startOf strings i = (strings.take i).flatten.length := by
    unfold startOf
    rw [length_flatten]
  rw [hsplit, hstart, drop_left, take_left]

/-- The offsets of the strings and the end of the last one. -/
def startsOf (strings : List (List UInt8)) : List Nat :=
  (List.range (strings.length + 1)).map (startOf strings)

theorem startsOf_append : startsOf (strings ++ [str]) =
    startsOf strings ++ [strings.flatten.length + str.length] := by
  unfold startsOf
  have hlast : startOf (strings ++ [str]) (strings.length + 1) =
      strings.flatten.length + str.length := by
    rw [@startOf_succ _ str _ (by simp), startOf_append_of_le (le_refl _), startOf_length]
  rw [length_append, length_singleton, range_succ, map_append, map_singleton, hlast]
  congr 1
  refine map_congr_left fun i hi => startOf_append_of_le ?_ _
  exact Nat.le_of_lt_succ (mem_range.1 hi)

end

namespace SimpleDynamicBuffer

variable {buf : SimpleDynamicBuffer} {strings : List (List UInt8)} {str : List UInt8}
  {separator : List UInt8}

/-- The buffer holds the contents and the starts of the strings. -/
structure Contains (buf : SimpleDynamicBuffer) (strings : List (List UInt8)) : Prop where
  data : buf.data = strings.flatten
  offset : buf.offset = startsOf strings

theorem Contains.back (h : buf.Contains strings) : buf.back = buf.data.length := by
  unfold SimpleDynamicBuffer.back
  rw [h.offset, h.data]
  unfold startsOf
  rw [range_succ, map_append, map_singleton, getLastD_concat, startOf_length]

theorem contains_new (maxLength : Nat) : (new maxLength).Contains [] :=
  ⟨rfl, rfl⟩

/-- Bytes written behind the contents of a vector that grew by their number. -/
theorem writeAt_resized (data str : List UInt8) :
    writeAt (resized data (data.length + str.length)) data.length str = .ok (data ++ str) := by
  unfold writeAt resized
  have hgrown : data.take (data.length + str.length) ++
      List.replicate (data.length + str.length - data.length) 0 =
      data ++ List.replicate str.length 0 := by
    rw [take_of_length_le (Nat.le_add_right _ _), Nat.add_sub_cancel_left]
  rw [hgrown]
  by_cases hnil : str = []
  · subst hnil
    simp
  · rw [if_neg hnil, if_pos (by simp)]
    have hdrop : (data ++ List.replicate str.length (0 : UInt8)).drop
        (data.length + str.length) = [] := drop_eq_nil_of_le (by simp)
    rw [take_left, hdrop, append_nil]

theorem Contains.append {buf' : SimpleDynamicBuffer} (h : buf.Contains strings)
    (hdata : buf'.data = buf.data ++ str)
    (hoffset : buf'.offset = buf.offset ++ [buf.data.length + str.length]) :
    buf'.Contains (strings ++ [str]) where
  data := by rw [hdata, h.data, flatten_append, flatten_singleton]
  offset := by rw [hoffset, h.offset, h.data, startsOf_append]

/-- A string is added or the buffer stays as it is. -/
theorem Contains.addString (h : buf.Contains strings) (str : List UInt8) :
    buf.addString str = .ok (false, buf) ∨
      ∃ buf', buf.addString str = .ok (true, buf') ∧ buf'.Contains (strings ++ [str]) := by
  unfold SimpleDynamicBuffer.addString
  split
  · exact .inl rfl
  · split
    · rename_i hlen
      have hnil : str = [] := length_eq_zero_iff.1 hlen
      subst hnil
      refine .inr ⟨_, rfl, h.append ?_ ?_⟩
      · exact (append_nil _).symm
      · rw [h.back]
        rfl
    · rw [h.back, writeAt_resized]
      exact .inr ⟨_, rfl, h.append rfl rfl⟩

theorem length_joined (separator : List UInt8) (str : List UInt8) (strings : List (List UInt8)) :
    (joined (str :: strings) separator).length =
      strings.length * separator.length + ((str :: strings).map List.length).sum := by
  unfold joined
  induction strings generalizing str with
  | nil => simp
  | cons next strings ih =>
    rw [intersperse_cons_cons, flatten_cons, flatten_cons, length_append,
      length_append, ih next, map_cons (l := next :: strings), sum_cons,
      length_cons, Nat.succ_mul]
    omega

/-- The length is right as long as it is small. -/
theorem totalLen_eq (hjoins : strings = [] → 4294967296 ∣ separator.length)
    (hsize : (joined strings separator).length < 2147483648) :
    totalLen strings separator = (joined strings separator).length := by
  unfold totalLen
  cases strings with
  | nil =>
    obtain ⟨k, hk⟩ := hjoins rfl
    have hzero : (((([] : List (List UInt8)).length : Int) - 1) * separator.length +
        (([] : List (List UInt8)).map List.length).sum) % 4294967296 = 0 := by
      rw [hk, length_nil, map_nil, sum_nil]
      omega
    rw [hzero]
    rfl
  | cons str strings =>
    rw [length_joined] at hsize ⊢
    have hlen : ((((str :: strings).length : Int) - 1) * separator.length +
        (((str :: strings).map List.length).sum : Nat)) =
        (strings.length * separator.length + ((str :: strings).map List.length).sum : Nat) := by
      simp
    rw [hlen]
    generalize strings.length * separator.length + ((str :: strings).map List.length).sum = n at *
    rw [Int.emod_eq_of_lt (by omega) (by omega), Int.toNat_natCast]
    exact signed32_eq hsize

theorem Contains.addJoinedString {joins : List (List UInt8)} (h : buf.Contains strings)
    (hjoins : joins = [] → 4294967296 ∣ separator.length)
    (hsize : (joined joins separator).length < 2147483648) :
    ∃ buf', buf.addJoinedString joins separator = .ok buf' ∧
      buf'.Contains (strings ++ [joined joins separator]) := by
  unfold SimpleDynamicBuffer.addJoinedString
  have htotal := totalLen_eq hjoins hsize
  have hsum : (buf.data.length : Int) + totalLen joins separator =
      (buf.data.length + (joined joins separator).length : Nat) := by
    rw [htotal]
    rfl
  have hback : ((buf.back : Int) + totalLen joins separator).toNat =
      buf.data.length + (joined joins separator).length := by
    rw [h.back, hsum, Int.toNat_natCast]
  dsimp only
  rw [hsum, if_neg (by omega), Int.toNat_natCast, hback, h.back, writeAt_resized]
  exact ⟨_, rfl, h.append rfl rfl⟩

end SimpleDynamicBuffer

/-!
## String tensors are read back

The written buffer is a table of words with the contents behind it. It holds the added strings
as long as every call grows the contents by the length of its string and the whole buffer
fits into 32 bits; the code checks neither where strings are joined, and it never counts the
header.
-/

namespace SimpleDynamicBuffer

variable {buf : SimpleDynamicBuffer} {strings : List (List UInt8)} {i : Nat}

/-- The header of the written buffer. -/
def words (buf : SimpleDynamicBuffer) : List Nat :=
  (buf.offset.length - 1) ::
    buf.offset.map fun offset => 4 * (buf.offset.length - 1 + 2) + offset

def written (buf : SimpleDynamicBuffer) : List UInt8 := buf.words.flatMap wordBytes ++ buf.data

/-- The number of bytes of the contents and the header. -/
def size (buf : SimpleDynamicBuffer) : Nat := buf.data.length + 4 * (buf.offset.length - 1 + 2)

theorem writeToBuffer_def (buf : SimpleDynamicBuffer) : buf.writeToBuffer =
    if signed32 (buf.size % 4294967296) < 0 then .ok (-1, [])
    else if (buf.size : Int) = signed32 (buf.size % 4294967296) then
      .ok (signed32 (buf.size % 4294967296), buf.written)
    else .error .outOfBounds :=
  rfl

theorem writeToBuffer_eq (h : buf.size < 2147483648) :
    buf.writeToBuffer = .ok ((buf.size : Int), buf.written) := by
  have hsigned : signed32 (buf.size % 4294967296) = buf.size := by
    rw [Nat.mod_eq_of_lt (by omega)]
    exact signed32_eq h
  rw [writeToBuffer_def, hsigned, if_neg (by omega), if_pos rfl]

/-- A buffer of as many bytes as announced holds everything. -/
theorem writeToBuffer_ok {bytes : Int} {buffer : List UInt8}
    (h : buf.writeToBuffer = .ok (bytes, buffer)) (hbytes : bytes = buffer.length) :
    buf.size < 2147483648 ∧ buffer = buf.written := by
  have hsigned : signed32 (buf.size % 4294967296) < 2147483648 := by
    unfold signed32
    split <;> omega
  rw [writeToBuffer_def] at h
  split at h
  · cases h
    simp at hbytes
  · split at h
    · rename_i hsize
      cases h
      exact ⟨by omega, rfl⟩
    · cases h

theorem stringOffset_written {offset : Nat} (h : buf.offset[i]? = some offset) :
    stringOffset buf.written i =
      signed32 ((4 * (buf.offset.length - 1 + 2) + offset) % 4294967296) := by
  have hword : buf.words[i + 1]? = some (4 * (buf.offset.length - 1 + 2) + offset) := by
    unfold words
    rw [getElem?_cons_succ, getElem?_map, h, Option.map_some]
  unfold stringOffset written
  rw [wordAt_flatMap hword]

theorem getStringCount_written :
    getStringCount buf.written = signed32 ((buf.offset.length - 1) % 4294967296) := by
  have hword : buf.words[0]? = some (buf.offset.length - 1) := rfl
  have hcount := wordAt_flatMap hword buf.data
  rw [Nat.mul_zero] at hcount
  unfold getStringCount written
  rw [hcount]

namespace Contains

variable {str : List UInt8}

theorem length_offset (h : buf.Contains strings) : buf.offset.length = strings.length + 1 := by
  rw [h.offset]
  unfold startsOf
  rw [length_map, length_range]

theorem size_eq (h : buf.Contains strings) :
    buf.size = strings.flatten.length + 4 * (strings.length + 2) := by
  unfold SimpleDynamicBuffer.size
  rw [h.length_offset, h.data, Nat.add_sub_cancel]

theorem length_written (h : buf.Contains strings) : buf.written.length = buf.size := by
  unfold written words SimpleDynamicBuffer.size
  rw [length_append, length_flatMap_wordBytes, length_cons, length_map, h.length_offset]
  omega

theorem stringOffset_eq (h : buf.Contains strings) (hsize : buf.size < 2147483648)
    (hi : i ≤ strings.length) :
    stringOffset buf.written i = (4 * (strings.length + 2) + startOf strings i : Nat) := by
  have hoffset : buf.offset[i]? = some (startOf strings i) := by
    rw [h.offset]
    unfold startsOf
    rw [getElem?_map, getElem?_range (by omega), Option.map_some]
  have hle := @startOf_le strings i
  rw [h.size_eq] at hsize
  rw [stringOffset_written hoffset, h.length_offset, Nat.add_sub_cancel,
    Nat.mod_eq_of_lt (by omega), signed32_eq (by omega)]

theorem getString_eq (h : buf.Contains strings) (hsize : buf.size < 2147483648)
    (hi : strings[i]? = some str) :
    getString buf.written i =
      ⟨(4 * (strings.length + 2) + startOf strings i : Nat), str.length⟩ := by
  have hlt := (List.getElem?_eq_some_iff.1 hi).1
  have hnext := h.stringOffset_eq hsize (i := i + 1) hlt
  have hle := @startOf_le strings (i + 1)
  rw [startOf_succ hi] at hnext hle
  rw [h.size_eq] at hsize
  have hlen : (((4 * (strings.length + 2) + (startOf strings i + str.length) : Nat) : Int) -
      (4 * (strings.length + 2) + startOf strings i : Nat)) % 18446744073709551616 =
      str.length := by
    omega
  unfold getString
  rw [hnext, h.stringOffset_eq (by rwa [h.size_eq]) (Nat.le_of_lt hlt), hlen, Int.toNat_natCast]

theorem bytes_getString (h : buf.Contains strings) (hsize : buf.size < 2147483648)
    (hi : strings[i]? = some str) :
    (getString buf.written i).bytes buf.written = some str := by
  have hheader : (buf.words.flatMap wordBytes).length = 4 * (strings.length + 2) := by
    unfold words
    rw [length_flatMap_wordBytes, length_cons, length_map, h.length_offset]
  have hle := @startOf_le strings (i + 1)
  rw [startOf_succ hi] at hle
  have hdrop : buf.written.drop (4 * (strings.length + 2) + startOf strings i) =
      strings.flatten.drop (startOf strings i) := by
    unfold written
    rw [← hheader, drop_length_add_append, h.data]
  rw [h.getString_eq hsize hi]
  unfold StringRef.bytes
  dsimp only
  rw [h.length_written, h.size_eq, Int.toNat_natCast, if_pos ⟨by omega, by omega⟩, hdrop,
    slice_flatten hi]

theorem holdsStrings (h : buf.Contains strings) (hsize : buf.size < 2147483648) :
    HoldsStrings strings buf.size buf.written where
  count := by
    rw [h.size_eq] at hsize
    rw [getStringCount_written, h.length_offset, Nat.add_sub_cancel,
      Nat.mod_eq_of_lt (by omega), signed32_eq (by omega)]
  read _ _ hi := h.bytes_getString hsize hi
  offset _ hi := h.stringOffset_eq hsize hi
  last := by
    rw [h.stringOffset_eq hsize (le_refl _), h.size_eq, startOf_length, Nat.add_comm]
  size := by rw [h.length_written]

end Contains

end SimpleDynamicBuffer

namespace StringCall

variable {calls : List StringCall} {buf : SimpleDynamicBuffer} {call : StringCall}

theorem contentSize_eq (calls : List StringCall) :
    contentSize calls = (calls.map added).flatten.length := by
  unfold contentSize
  rw [length_flatten, List.map_map]
  rfl

theorem length_added_le (h : call ∈ calls) :
    call.added.length ≤ contentSize calls := by
  obtain ⟨i, hi⟩ := mem_iff_getElem?.1 h
  have hstr : (calls.map added)[i]? = some call.added := by
    rw [getElem?_map, hi, Option.map_some]
  have hle := @startOf_le (calls.map added) (i + 1)
  rw [startOf_succ hstr, ← contentSize_eq] at hle
  omega

/-- Calls that grow the contents by the lengths of their strings add these strings. -/
theorem contains_of_joins {strings : List (List UInt8)} (h : buf.Contains strings)
    (hcalls : ∀ call ∈ calls, call.Joins ∧ call.added.length < 2147483648) :
    calls.foldlM apply buf = .error .rejected ∨
      ∃ buf', calls.foldlM apply buf = .ok buf' ∧ buf'.Contains (strings ++ calls.map added) := by
  induction calls generalizing buf strings with
  | nil => exact .inr ⟨buf, rfl, by rwa [map_nil, append_nil]⟩
  | cons call calls ih =>
    obtain ⟨hjoins, hsize⟩ := hcalls call mem_cons_self
    have hrest : ∀ later ∈ calls, later.Joins ∧ later.added.length < 2147483648 :=
      fun later hlater => hcalls later (mem_cons_of_mem _ hlater)
    have hcall : apply buf call = .error .rejected ∨
        ∃ buf', apply buf call = .ok buf' ∧ buf'.Contains (strings ++ [call.added]) := by
      cases call with
      | addString str =>
        obtain hadd | ⟨buf', hadd, hcontains⟩ := h.addString str
        · refine .inl ?_
          unfold apply
          simp only [hadd]
          rfl
        · refine .inr ⟨buf', ?_, hcontains⟩
          unfold apply
          simp only [hadd]
          rfl
      | addJoinedString joins separator =>
        obtain ⟨buf', hadd, hcontains⟩ := h.addJoinedString hjoins hsize
        refine .inr ⟨buf', ?_, hcontains⟩
        unfold apply
        simp only [hadd]
        rfl
    rw [foldlM_cons]
    obtain hcall | ⟨buf', hcall, hcontains⟩ := hcall
    · rw [hcall]
      exact .inl rfl
    · rw [hcall, ok_bind, map_cons, ← singleton_append, ← append_assoc]
      exact ih hcontains hrest

/-- One offset for each call, the last where the contents end; a joined string moves it by
the length that the code computes. -/
structure Tracks (calls : List StringCall) (buf : SimpleDynamicBuffer) : Prop where
  length : buf.offset.length = calls.length + 1
  back : buf.back = buf.data.length
  joined : ∀ (k : Nat) (joins : List (List UInt8)) (separator : List UInt8),
    calls[k]? = some (addJoinedString joins separator) →
    (buf.offset.getD (k + 1) 0 : Int) = buf.offset.getD k 0 + totalLen joins separator

theorem tracks_new (maxLength : Nat) : Tracks [] (new maxLength) where
  length := rfl
  back := rfl
  joined k _ _ hk := by cases hk

/-- One more offset behind contents that grew to it. -/
theorem Tracks.push {buf' : SimpleDynamicBuffer} {last : Nat} (h : Tracks calls buf)
    (hoffset : buf'.offset = buf.offset ++ [last]) (hdata : buf'.data.length = last)
    (hjoined : ∀ (joins : List (List UInt8)) (separator : List UInt8), call =
      addJoinedString joins separator →
    (last : Int) = buf.back + totalLen joins separator) :
    Tracks (calls ++ [call]) buf' where
  length := by rw [hoffset, length_append, length_append, h.length]; rfl
  back := by
    unfold SimpleDynamicBuffer.back
    rw [hoffset, getLastD_concat, hdata]
  joined k joins separator hk := by
    have hlen := h.length
    have hold : ∀ i ≤ calls.length, buf'.offset.getD i 0 = buf.offset.getD i 0 := by
      intro i hi
      rw [hoffset, getD_append _ _ _ _ (by omega)]
    obtain hlt | heq | hgt := Nat.lt_trichotomy k calls.length
    · rw [getElem?_append_left hlt] at hk
      rw [hold k (by omega), hold (k + 1) hlt]
      exact h.joined k joins separator hk
    · subst heq
      rw [getElem?_concat_length] at hk
      have hback : buf.offset.getD calls.length 0 = buf.back := by
        unfold SimpleDynamicBuffer.back
        rw [getLastD_eq_getLast?, getLast?_eq_getElem?, hlen, Nat.add_sub_cancel,
          getD_eq_getElem?_getD]
      have hlast : buf'.offset.getD (calls.length + 1) 0 = last := by
        rw [hoffset, ← hlen, getD_append_right _ _ _ _ (le_refl _), Nat.sub_self]
        rfl
      rw [hold _ (le_refl _), hback, hlast]
      exact hjoined joins separator (Option.some.inj hk)
    · rw [getElem?_eq_none (by simp; omega)] at hk
      cases hk

end StringCall

theorem SimpleDynamicBuffer.length_writeAt {data bytes data' : List UInt8} {pos : Nat}
    (h : writeAt data pos bytes = .ok data') : data'.length = data.length := by
  unfold SimpleDynamicBuffer.writeAt at h
  split at h
  · cases h
    rfl
  · split at h
    · cases h
      simp only [length_append, length_take, length_drop]
      omega
    · cases h

theorem SimpleDynamicBuffer.length_resized (data : List UInt8) (size : Nat) :
    (resized data size).length = size := by
  unfold SimpleDynamicBuffer.resized
  rw [length_append, length_take, length_replicate]
  omega

namespace StringCall

variable {calls : List StringCall} {buf buf' : SimpleDynamicBuffer}

theorem Tracks.addString {str : List UInt8} (h : Tracks calls buf)
    (hadd : buf.addString str = .ok (true, buf')) : Tracks (calls ++ [.addString str]) buf' := by
  have hjoined : ∀ (last : Nat) (joins : List (List UInt8)) (separator : List UInt8),
      StringCall.addString str = .addJoinedString joins separator →
      (last : Int) = buf.back + totalLen joins separator := by
    intro last joins separator hcall
    cases hcall
  unfold SimpleDynamicBuffer.addString at hadd
  split at hadd
  · cases hadd
  · split at hadd
    · cases hadd
      exact h.push rfl h.back.symm (hjoined _)
    · cases hwrite : writeAt (resized buf.data (buf.data.length + str.length)) buf.back str with
      | error e =>
        rw [hwrite] at hadd
        cases hadd
      | ok data =>
        rw [hwrite] at hadd
        cases hadd
        refine h.push rfl ?_ (hjoined _)
        change data.length = _
        rw [length_writeAt hwrite, length_resized, h.back]

theorem Tracks.addJoinedString {joins : List (List UInt8)} {separator : List UInt8}
    (h : Tracks calls buf) (hadd : buf.addJoinedString joins separator = .ok buf') :
    Tracks (calls ++ [.addJoinedString joins separator]) buf' := by
  unfold SimpleDynamicBuffer.addJoinedString at hadd
  dsimp only at hadd
  split at hadd
  · cases hadd
  · rename_i hsize
    cases hwrite : writeAt (resized buf.data
      (buf.data.length + totalLen joins separator).toNat) buf.back
      (SimpleDynamicBuffer.joined joins separator) with
    | error e =>
      rw [hwrite] at hadd
      cases hadd
    | ok data =>
      rw [hwrite] at hadd
      cases hadd
      refine h.push rfl ?_ ?_
      · change data.length = _
        rw [length_writeAt hwrite, length_resized, h.back]
      · intro joins' separator' hcall
        cases hcall
        rw [h.back]
        exact Int.toNat_of_nonneg (by omega)

theorem Tracks.apply {call : StringCall} (h : Tracks calls buf)
    (hcall : apply buf call = .ok buf') : Tracks (calls ++ [call]) buf' := by
  cases call with
  | addString str =>
    unfold StringCall.apply at hcall
    cases hadd : buf.addString str with
    | error e =>
      simp only [hadd] at hcall
      cases hcall
    | ok result =>
      obtain ⟨added, buf''⟩ := result
      cases added with
      | false =>
        simp only [hadd] at hcall
        cases hcall
      | true =>
        simp only [hadd] at hcall
        cases hcall
        exact h.addString hadd
  | addJoinedString joins separator =>
    unfold StringCall.apply at hcall
    cases hadd : buf.addJoinedString joins separator with
    | error e =>
      simp only [hadd] at hcall
      cases hcall
    | ok buf'' =>
      simp only [hadd] at hcall
      cases hcall
      exact h.addJoinedString hadd

theorem tracks_run {maxLength : Nat} (h : run maxLength calls = .ok buf) : Tracks calls buf := by
  have hrun := foldlM_invariant (P := fun (done : List StringCall) (b : SimpleDynamicBuffer) =>
    Tracks done b) (f := apply) (l := calls) (tracks_new maxLength)
    (fun done call rest b b' _ hb hcall => hb.apply hcall)
  unfold run at h
  obtain ⟨buf'', hok, htracks⟩ | ⟨_, _, _, _, _, _, _, _, herror⟩ := hrun
  · rw [hok] at h
    cases h
    exact htracks
  · rw [herror] at h
    cases h

/-- What is read back is what the calls tracked: so the contents have their true size, and
no joined string moved the end without adding bytes. -/
theorem Tracks.of_holdsStrings (h : Tracks calls buf) (hsize : buf.size < 2147483648)
    (hholds : HoldsStrings (calls.map added) buf.size buf.written) :
    (∀ call ∈ calls, call.Joins) ∧ Fits calls := by
  have hcount : buf.offset.length - 1 = calls.length := by
    rw [h.length, Nat.add_sub_cancel]
  have hfits : Fits calls := by
    have hlast := hholds.offset _ (le_refl _)
    rw [hholds.last, take_length, length_map, ← length_flatten, ← contentSize_eq] at hlast
    unfold Fits
    omega
  refine ⟨?_, hfits⟩
  intro call hmem
  cases call with
  | addString str => trivial
  | addJoinedString joins separator =>
    intro hnil
    subst hnil
    obtain ⟨k, hk⟩ := mem_iff_getElem?.1 hmem
    have hlt := (List.getElem?_eq_some_iff.1 hk).1
    have hoffset : ∀ i ≤ calls.length,
        signed32 ((4 * (calls.length + 2) + buf.offset.getD i 0) % 4294967296) =
          (4 * (calls.length + 2) + startOf (calls.map added) i : Nat) := by
      intro i hi
      have hget : buf.offset[i]? = some (buf.offset.getD i 0) := by
        have hlen : i < buf.offset.length := by
          rw [h.length]
          omega
        rw [getD_eq_getElem _ _ hlen, getElem?_eq_getElem hlen]
      have htrue := hholds.offset i (by rwa [length_map])
      rw [stringOffset_written hget, hcount, length_map] at htrue
      exact htrue
    have hstart : startOf (calls.map added) (k + 1) = startOf (calls.map added) k := by
      rw [@startOf_succ _ [] _ (by rw [getElem?_map, hk]; rfl)]
      rfl
    have h1 := hoffset k (Nat.le_of_lt hlt)
    have h2 := hoffset (k + 1) hlt
    have htotal := h.joined k [] separator hk
    rw [hstart] at h2
    unfold SimpleDynamicBuffer.totalLen at htotal
    rw [length_nil, map_nil, sum_nil] at htotal
    unfold signed32 at h1 h2 htotal
    split at h1 <;> split at h2 <;> split at htotal <;> omega

/-- The written buffer holds the added strings exactly if no list without strings shrinks the
contents and the whole buffer fits into 32 bits; a string that is not added changes nothing. -/
theorem string_codec (maxLength : Nat) (calls : List StringCall)
    (hok : run maxLength calls ≠ .error .rejected) :
    ((∃ buf bytes buffer, run maxLength calls = .ok buf ∧
        buf.writeToBuffer = .ok (bytes, buffer) ∧
        HoldsStrings (calls.map added) bytes buffer) ↔
      (∀ call ∈ calls, call.Joins) ∧ Fits calls) ∧
    ∀ (buf buf' : SimpleDynamicBuffer) (str : List UInt8),
      buf.addString str = .ok (false, buf') → buf' = buf := by
  refine ⟨⟨?_, ?_⟩, ?_⟩
  · rintro ⟨buf, bytes, buffer, hrun, hwrite, hholds⟩
    obtain ⟨hsize, hbuffer⟩ := writeToBuffer_ok hwrite hholds.size
    rw [writeToBuffer_eq hsize] at hwrite
    cases hwrite
    exact (tracks_run hrun).of_holdsStrings hsize hholds
  · rintro ⟨hjoins, hfits⟩
    unfold Fits at hfits
    have hcalls : ∀ call ∈ calls, call.Joins ∧ call.added.length < 2147483648 := by
      intro call hcall
      have hle := length_added_le hcall
      exact ⟨hjoins call hcall, by omega⟩
    obtain hrejected | ⟨buf, hrun, hcontains⟩ :=
      contains_of_joins (contains_new maxLength) hcalls
    · exact absurd hrejected hok
    · rw [nil_append] at hcontains
      have hsize : buf.size < 2147483648 := by
        rw [hcontains.size_eq, ← contentSize_eq, length_map]
        exact hfits
      exact ⟨buf, buf.size, buf.written, hrun, writeToBuffer_eq hsize,
        hcontains.holdsStrings hsize⟩
  · intro buf buf' str h
    unfold SimpleDynamicBuffer.addString at h
    split at h
    · cases h
      rfl
    · split at h
      · cases h
      · cases hwrite : writeAt
          (resized buf.data (buf.data.length + str.length)) buf.back str with
        | error e =>
          rw [hwrite] at h
          cases h
        | ok data =>
          rw [hwrite] at h
          cases h

/-- A string, then a join of two: the buffer holds both. -/
theorem string_codec_two :
    ∃ buf bytes buffer,
      run kDefaultMaxLength [addString [97, 98], addJoinedString [[99], [100]] [32]] = .ok buf ∧
      buf.writeToBuffer = .ok (bytes, buffer) ∧
      HoldsStrings [[97, 98], [99, 32, 100]] bytes buffer := by
  have hok : run kDefaultMaxLength [addString [97, 98], addJoinedString [[99], [100]] [32]] ≠
      .error .rejected := by
    decide
  exact (string_codec kDefaultMaxLength _ hok).1.2 (by decide)

/-- A join of no strings takes the last byte of the string before it away. -/
theorem empty_join_shrinks :
    ∃ buf bytes buffer,
      run kDefaultMaxLength [addString [97, 98], addJoinedString [] [32]] = .ok buf ∧
      buf.writeToBuffer = .ok (bytes, buffer) ∧
      ¬HoldsStrings [[97, 98], []] bytes buffer := by
  refine ⟨⟨[97], [0, 2, 1], 2147483647⟩, 17,
    [2, 0, 0, 0, 16, 0, 0, 0, 18, 0, 0, 0, 17, 0, 0, 0, 97], rfl, rfl, ?_⟩
  intro h
  have hread := h.read 0 [97, 98] rfl
  exact absurd hread (by decide)

end StringCall

end LiteRt.Tflite
