import LiteRt.Tflite.StringCodec

/-!
# The check of a string tensor's buffer

The offsets between the first and the last are compared with the end of the header and the
end of the buffer, but not with each other: the pointer they are compared with stays at the
first offset.
-/

namespace LiteRt.Tflite

open LiteRt.Lib

def kMaxNumString : Nat := 1073741821

def nameOrEmptyString (str : Option String) : String := str.getD ""

def verifyStringTensorBuffer (tensorName : Option String) (buffer : List UInt8) :
    Except String Unit :=
  let name := nameOrEmptyString tensorName
  let bufferSize := buffer.length % 4294967296
  if bufferSize < 4 then .error s!"String tensor {name} is invalid (empty)"
  else
    let numStrings := wordAt buffer 0
    if kMaxNumString < numStrings then
      .error s!"String tensor {name} has invalid num of string set: {signed32 numStrings}"
    else
      let headerOffsets := (numStrings + 2) * 4
      if bufferSize < headerOffsets then
        .error (s!"String tensor {name} buffer requires at least {signed32 headerOffsets} " ++
          s!"bytes, but is allocated with {signed32 bufferSize} bytes")
      else if wordAt buffer 4 ≠ headerOffsets then
        .error s!"String tensor {name} buffer initial offset must be: {signed32 headerOffsets}"
      else
        -- `prev_ptr` is the end of the header in every turn.
        match (List.range' 1 numStrings).find? fun i =>
            stringOffset buffer i < signed32 headerOffsets ∨
              signed32 bufferSize < stringOffset buffer i with
        | some i => .error s!"String tensor {name} buffer is invalid: index {i}"
        | none =>
          if wordAt buffer (4 * (numStrings + 1)) ≠ bufferSize then
            .error s!"String tensor {name} buffer last offset must be {signed32 bufferSize}"
          else .ok ()

/-- What an accepted buffer is known to satisfy. -/
structure AcceptedStrings (buffer : List UInt8) : Prop where
  size : 4 ≤ buffer.length % 4294967296
  count : wordAt buffer 0 ≤ kMaxNumString
  header : (wordAt buffer 0 + 2) * 4 ≤ buffer.length % 4294967296
  first : wordAt buffer 4 = (wordAt buffer 0 + 2) * 4
  within : ∀ i, 1 ≤ i → i ≤ wordAt buffer 0 →
    signed32 ((wordAt buffer 0 + 2) * 4) ≤ stringOffset buffer i ∧
      stringOffset buffer i ≤ signed32 (buffer.length % 4294967296)
  last : wordAt buffer (4 * (wordAt buffer 0 + 1)) = buffer.length % 4294967296

theorem verifyStringTensorBuffer_iff {tensorName : Option String} {buffer : List UInt8} :
    verifyStringTensorBuffer tensorName buffer = .ok () ↔ AcceptedStrings buffer := by
  unfold verifyStringTensorBuffer
  dsimp only
  constructor
  · intro h
    split at h
    · cases h
    · rename_i hsize
      split at h
      · cases h
      · rename_i hcount
        split at h
        · cases h
        · rename_i hheader
          split at h
          · cases h
          · rename_i hfirst
            split at h
            · cases h
            · rename_i hfind
              split at h
              · cases h
              · rename_i hlast
                refine ⟨by omega, by omega, by omega, not_not.1 hfirst, ?_, not_not.1 hlast⟩
                intro i hi hle
                have hin := List.find?_eq_none.1 hfind i (List.mem_range'_1.2 ⟨hi, by omega⟩)
                simp only [decide_eq_true_eq, not_or] at hin
                exact ⟨Int.not_lt.1 hin.1, Int.not_lt.1 hin.2⟩
  · intro h
    have hfind : ((List.range' 1 (wordAt buffer 0)).find? fun i =>
        stringOffset buffer i < signed32 ((wordAt buffer 0 + 2) * 4) ∨
          signed32 (buffer.length % 4294967296) < stringOffset buffer i) = none := by
      rw [List.find?_eq_none]
      intro i hi
      obtain ⟨hi, hlt⟩ := List.mem_range'_1.1 hi
      have hin := h.within i hi (by omega)
      simp only [decide_eq_true_eq, not_or]
      exact ⟨Int.not_lt.2 hin.1, Int.not_lt.2 hin.2⟩
    rw [if_neg (Nat.not_lt.2 h.size), if_neg (Nat.not_lt.2 h.count),
      if_neg (Nat.not_lt.2 h.header), if_neg (not_not.2 h.first), hfind]
    exact if_neg (not_not.2 h.last)

/-- The offsets around a string do not decrease, and the string lies in the buffer behind the
header. -/
structure ReadsSafely (buffer : List UInt8) (i : Nat) : Prop where
  mono : stringOffset buffer i ≤ stringOffset buffer (i + 1)
  header : 4 * (getStringCount buffer + 2) ≤ (getString buffer i).str
  inside : (getString buffer i).str + (getString buffer i).len ≤ buffer.length

namespace AcceptedStrings

variable {buffer : List UInt8}

theorem getStringCount_eq (h : AcceptedStrings buffer) :
    getStringCount buffer = wordAt buffer 0 := by
  have hcount := h.count
  unfold kMaxNumString at hcount
  exact signed32_eq (by omega)

theorem first_eq (h : AcceptedStrings buffer) :
    stringOffset buffer 0 = signed32 ((wordAt buffer 0 + 2) * 4) := by
  unfold stringOffset
  rw [Nat.zero_add, Nat.mul_one, h.first]

theorem last_eq (h : AcceptedStrings buffer) :
    stringOffset buffer (wordAt buffer 0) = signed32 (buffer.length % 4294967296) := by
  unfold stringOffset
  rw [h.last]

/-- With strings and a header below 2^31, the buffer is below 2^31 as well. -/
theorem size_lt (h : AcceptedStrings buffer) (hheader : (wordAt buffer 0 + 2) * 4 < 2147483648)
    (hpos : 1 ≤ wordAt buffer 0) : buffer.length % 4294967296 < 2147483648 := by
  have hin := h.within 1 (le_refl _) hpos
  rw [signed32_eq hheader] at hin
  have hsize : signed32 (buffer.length % 4294967296) < 2147483648 ∧
      (2147483648 ≤ buffer.length % 4294967296 → signed32 (buffer.length % 4294967296) < 0) := by
    unfold signed32
    split <;> omega
  omega

/-- An offset that does not decrease gives a string in the buffer. -/
theorem readsSafely (h : AcceptedStrings buffer)
    (hheader : (wordAt buffer 0 + 2) * 4 < 2147483648) {i : Nat} (hi : i < wordAt buffer 0)
    (hmono : stringOffset buffer i ≤ stringOffset buffer (i + 1)) : ReadsSafely buffer i := by
  have hsize := h.size_lt hheader (by omega)
  have hnext := h.within (i + 1) (by omega) hi
  have hstart : ((wordAt buffer 0 + 2) * 4 : Nat) ≤ stringOffset buffer i := by
    rcases Nat.eq_zero_or_pos i with rfl | hpos
    · have hfirst := h.first_eq
      rw [signed32_eq hheader] at hfirst
      exact Int.le_of_eq hfirst.symm
    · have hin := h.within i hpos (by omega)
      rw [signed32_eq hheader] at hin
      exact hin.1
  rw [signed32_eq hsize] at hnext
  refine ⟨hmono, ?_, ?_⟩
  · rw [h.getStringCount_eq]
    change _ ≤ stringOffset buffer i
    omega
  · change stringOffset buffer i +
      (((stringOffset buffer (i + 1) - stringOffset buffer i) % 18446744073709551616).toNat : Int)
      ≤ buffer.length
    omega

/-- The header is below 2^31, and the offsets between the first and the last do not decrease. -/
structure InOrder (buffer : List UInt8) : Prop where
  header : (wordAt buffer 0 + 2) * 4 < 2147483648
  mono : ∀ i, 1 ≤ i → i + 1 < wordAt buffer 0 → stringOffset buffer i ≤ stringOffset buffer (i + 1)

theorem inOrder_of_readsSafely (h : AcceptedStrings buffer)
    (hsafe : ∀ i : Nat, (i : Int) < getStringCount buffer → ReadsSafely buffer i) :
    InOrder buffer := by
  rw [h.getStringCount_eq] at hsafe
  have hcount := h.count
  unfold kMaxNumString at hcount
  refine ⟨?_, fun i _ hlt => (hsafe i (by omega)).mono⟩
  rcases Nat.eq_zero_or_pos (wordAt buffer 0) with hzero | hpos
  · omega
  · have hstart := (hsafe 0 (by omega)).header
    change _ ≤ stringOffset buffer 0 at hstart
    rw [h.getStringCount_eq, h.first_eq] at hstart
    unfold signed32 at hstart
    split at hstart <;> omega

theorem InOrder.readsSafely (hord : InOrder buffer) (h : AcceptedStrings buffer) {i : Nat}
    (hi : (i : Int) < getStringCount buffer) : ReadsSafely buffer i := by
  rw [h.getStringCount_eq] at hi
  have hlt : i < wordAt buffer 0 := by omega
  have hsize := h.size_lt hord.header (by omega)
  refine h.readsSafely hord.header hlt ?_
  by_cases hlast : i + 1 = wordAt buffer 0
  · rw [hlast, h.last_eq, signed32_eq hsize]
    rcases Nat.eq_zero_or_pos i with rfl | hpos
    · rw [h.first_eq, signed32_eq hord.header]
      have hheader := h.header
      omega
    · have hin := (h.within i hpos (by omega)).2
      rwa [signed32_eq hsize] at hin
  · rcases Nat.eq_zero_or_pos i with rfl | hpos
    · rw [h.first_eq]
      exact (h.within 1 (le_refl _) (by omega)).1
    · exact hord.mono i hpos (by omega)

end AcceptedStrings

/-! ## Written buffers are accepted -/

namespace SimpleDynamicBuffer

variable {buf : SimpleDynamicBuffer} {strings : List (List UInt8)}

theorem Contains.wordAt_offset (h : buf.Contains strings) (hsize : buf.size < 2147483648)
    {i : Nat} (hi : i ≤ strings.length) :
    wordAt buf.written (4 * (i + 1)) = 4 * (strings.length + 2) + startOf strings i := by
  have hsigned := h.stringOffset_eq hsize hi
  have hlt := wordAt_lt buf.written (4 * (i + 1))
  have hle := @startOf_le strings i
  rw [h.size_eq] at hsize
  unfold stringOffset signed32 at hsigned
  split at hsigned <;> omega

theorem Contains.wordAt_count (h : buf.Contains strings) (hsize : buf.size < 2147483648) :
    wordAt buf.written 0 = strings.length := by
  have hcount := (h.holdsStrings hsize).count
  have hlt := wordAt_lt buf.written 0
  rw [h.size_eq] at hsize
  unfold getStringCount signed32 at hcount
  split at hcount <;> omega

theorem startOf_zero (strings : List (List UInt8)) : startOf strings 0 = 0 :=
  rfl

theorem Contains.accepted (h : buf.Contains strings) (hsize : buf.size < 2147483648) :
    AcceptedStrings buf.written := by
  have hcount := h.wordAt_count hsize
  have hlen : buf.written.length % 4294967296 = strings.flatten.length +
      4 * (strings.length + 2) := by
    rw [h.length_written, Nat.mod_eq_of_lt (by omega), h.size_eq]
  have hfit := hsize
  rw [h.size_eq] at hfit
  constructor
  · omega
  · rw [hcount]
    unfold kMaxNumString
    omega
  · omega
  · have hfirst := h.wordAt_offset hsize (Nat.zero_le _)
    rw [startOf_zero] at hfirst
    change wordAt buf.written 4 = _ at hfirst
    omega
  · intro i _ hi
    rw [hcount] at hi
    have hle := @startOf_le strings i
    rw [h.stringOffset_eq hsize hi, hcount, hlen, signed32_eq (by omega), signed32_eq (by omega)]
    omega
  · rw [hcount, h.wordAt_offset hsize (le_refl _), startOf_length, hlen]
    omega

theorem addString_maxLength {buf' : SimpleDynamicBuffer} {str : List UInt8} {added : Bool}
    (h : buf.addString str = .ok (added, buf')) : buf'.maxLength = buf.maxLength := by
  unfold SimpleDynamicBuffer.addString at h
  split at h
  · cases h
    rfl
  · split at h
    · cases h
      rfl
    · cases hwrite : writeAt (resized buf.data (buf.data.length + str.length)) buf.back str with
      | error e =>
        rw [hwrite] at h
        cases h
      | ok data =>
        rw [hwrite] at h
        cases h
        rfl

/-- Strings below the limit are all added. -/
theorem Contains.addStrings {more : List (List UInt8)} (h : buf.Contains strings)
    (hlimit : strings.flatten.length + more.flatten.length < buf.maxLength) :
    ∃ buf', (more.map StringCall.addString).foldlM StringCall.apply buf = .ok buf' ∧
      buf'.Contains (strings ++ more) := by
  induction more generalizing buf strings with
  | nil => exact ⟨buf, rfl, by rwa [List.append_nil]⟩
  | cons str more ih =>
    rw [List.flatten_cons, List.length_append] at hlimit
    obtain hrejected | ⟨buf', hadd, hcontains⟩ := h.addString str
    · unfold SimpleDynamicBuffer.addString at hrejected
      rw [h.data, if_neg (by omega)] at hrejected
      split at hrejected
      · cases hrejected
      · rw [← h.data, h.back, writeAt_resized] at hrejected
        cases hrejected
    · have hcall : StringCall.apply buf (.addString str) = .ok buf' := by
        unfold StringCall.apply
        simp only [hadd]
        rfl
      rw [List.map_cons, List.foldlM_cons, hcall, ok_bind, ← List.singleton_append (l := more),
        ← List.append_assoc]
      refine ih hcontains ?_
      rw [addString_maxLength hadd, List.flatten_append, List.flatten_singleton, List.length_append]
      omega

end SimpleDynamicBuffer

theorem written_accepted (tensorName : Option String) {strings : List (List UInt8)}
    (hfits : StringCall.Fits (strings.map .addString)) :
    ∃ buf bytes buffer, StringCall.run kDefaultMaxLength (strings.map .addString) = .ok buf ∧
      buf.writeToBuffer = .ok (bytes, buffer) ∧
      verifyStringTensorBuffer tensorName buffer = .ok () := by
  have hadded : (strings.map StringCall.addString).map StringCall.added = strings := by
    rw [List.map_map]
    exact List.map_id strings
  unfold StringCall.Fits at hfits
  rw [StringCall.contentSize_eq, hadded, List.length_map] at hfits
  obtain ⟨buf, hrun, hcontains⟩ := @SimpleDynamicBuffer.Contains.addStrings _ _ strings
      (SimpleDynamicBuffer.contains_new kDefaultMaxLength) (by
      change 0 + strings.flatten.length < 2147483647
      omega)
  rw [List.nil_append] at hcontains
  have hsize : buf.size < 2147483648 := by rwa [hcontains.size_eq]
  exact ⟨buf, buf.size, buf.written, hrun, SimpleDynamicBuffer.writeToBuffer_eq hsize,
    verifyStringTensorBuffer_iff.2 (hcontains.accepted hsize)⟩

/-- An accepted buffer is read safely exactly if its header ends below 2^31 and its inner
offsets do not decrease; written buffers of strings that fit are accepted. -/
theorem verified_strings (tensorName : Option String) (buffer : List UInt8)
    (strings : List (List UInt8)) :
    (verifyStringTensorBuffer tensorName buffer = .ok () →
      ((∀ i : Nat, (i : Int) < getStringCount buffer → ReadsSafely buffer i) ↔
        AcceptedStrings.InOrder buffer)) ∧
    (StringCall.Fits (strings.map .addString) →
      ∃ buf bytes buffer,
        StringCall.run kDefaultMaxLength (strings.map .addString) = .ok buf ∧
        buf.writeToBuffer = .ok (bytes, buffer) ∧
        verifyStringTensorBuffer tensorName buffer = .ok ()) := by
  refine ⟨?_, fun hfits => written_accepted tensorName hfits⟩
  intro hok
  have h := verifyStringTensorBuffer_iff.1 hok
  exact ⟨h.inOrder_of_readsSafely, fun hord i hi => hord.readsSafely h hi⟩

/-- Three strings whose second offset is behind the third. -/
def crossedOffsets : List UInt8 :=
  [20, 24, 22, 24].foldl (fun bytes offset => bytes ++ wordBytes offset) (wordBytes 3) ++
    [97, 98, 99, 100]

theorem crossedOffsets_accepted :
    verifyStringTensorBuffer none crossedOffsets = .ok () ∧
      (1 : Int) < getStringCount crossedOffsets ∧ ¬ReadsSafely crossedOffsets 1 := by
  refine ⟨by decide +kernel, by decide, ?_⟩
  intro h
  exact absurd h.mono (by decide)

/-- Strings in order: the claim's condition on a buffer of two. -/
theorem verified_strings_two :
    (∀ i : Nat, (i : Int) < getStringCount
        (wordBytes 2 ++ wordBytes 16 ++ wordBytes 17 ++ wordBytes 18 ++ [97, 98]) →
      ReadsSafely (wordBytes 2 ++ wordBytes 16 ++ wordBytes 17 ++ wordBytes 18 ++ [97, 98]) i) ∧
    ∃ buf bytes buffer,
      StringCall.run kDefaultMaxLength ([[97], [98]].map .addString) = .ok buf ∧
      buf.writeToBuffer = .ok (bytes, buffer) ∧
      verifyStringTensorBuffer none buffer = .ok () := by
  refine ⟨((verified_strings none _ []).1 (by decide +kernel)).2 ⟨by decide, ?_⟩,
    (verified_strings none [] [[97], [98]]).2 (by decide)⟩
  intro i hi hlt
  have hcount : wordAt (wordBytes 2 ++ wordBytes 16 ++ wordBytes 17 ++ wordBytes 18 ++ [97, 98]) 0
      = 2 := by
    decide
  rw [hcount] at hlt
  omega

end LiteRt.Tflite
