import LiteRt.Lib.ByteOrder
import LiteRt.Lib.Loops

/-!
# The header of a JPEG image

An image is a list of segments, each with its length. The parser skips them up to the frame
and reads or replaces six of its bytes.
-/

namespace LiteRt.Jpeg

open LiteRt.Lib

inductive Failure (ε : Type) where
  | status (e : ε)
  /-- A byte outside the image, or an `int` that overflows. -/
  | undefined
  /-- The rounds allowed for the loop were not enough. -/
  | endless
  deriving DecidableEq, Repr

structure JpegHeader where
  height : Int
  width : Int
  channels : Int
  bitsPerSample : Int
  deriving DecidableEq, Repr

/-- The value of a `char`, which is signed on some platforms only. -/
def charValue (charSigned : Bool) (b : UInt8) : Int :=
  if charSigned = true ∧ 128 ≤ b.toNat then b.toNat - 256 else b.toNat

/-- `static_cast<char>` -/
def asChar (value : Int) : UInt8 := UInt8.ofInt value

def asWord (value : Int) : List UInt8 := [asChar (value >>> (8 : Nat)), asChar value]

def headerError : String := "Error trying to parse JPEG header."

def ensureReadStatus {α : Type} : Except (Failure Unit) α → Except (Failure String) α
  | .ok a => .ok a
  | .error (.status _) => .error (.status headerError)
  | .error .undefined => .error .undefined
  | .error .endless => .error .endless

/-- Whether a function gives its result, or an error status. -/
def attempt {α : Type} : Except (Failure Unit) α → Except (Failure String) (Option α)
  | .ok a => .ok (some a)
  | .error (.status _) => .ok none
  | .error .undefined => .error .undefined
  | .error .endless => .error .endless

section
variable (data : List UInt8)

def hasData (offset minDataSize : Nat) : Prop := (offset : Int) ≤ data.length - minDataSize

instance (offset minDataSize : Nat) : Decidable (hasData data offset minDataSize) :=
  inferInstanceAs (Decidable (_ ≤ _))

def skipBytes (offset bytes : Nat) : Except (Failure Unit) Nat :=
  if ¬hasData data offset bytes then .error (.status ())
  else .ok (offset + bytes)

def readByte (offset : Nat) : Except (Failure Unit) (UInt8 × Nat) := do
  if ¬hasData data offset 1 then
    .error (.status ())
  else
    match data[offset]? with
    | none => .error .undefined
    | some result =>
      let offset ← skipBytes data offset 1
      return (result, offset)

def readWordAt (readOffset : Int) : Except (Failure Unit) Nat :=
  if readOffset < 0 then .error (.status ())
  else if 2 ^ 31 ≤ readOffset + 2 then .error .undefined
  else if data.length < readOffset + 2 then .error (.status ())
  else
    match data[readOffset.toNat]?, data[readOffset.toNat + 1]? with
    | some msb, some lsb => .ok (msb.toNat * 256 + lsb.toNat)
    | _, _ => .error .undefined

def readWord (offset : Nat) : Except (Failure Unit) (Nat × Nat) := do
  let result ← readWordAt data offset
  let offset ← skipBytes data offset 2
  return (result, offset)

def skipCurrentMarker (offset : Nat) : Except (Failure Unit) Nat := do
  let (fullMarkerLen, offset) ← readWord data offset
  if fullMarkerLen ≤ 2 then .error (.status ())
  else skipBytes data offset (fullMarkerLen - 2)

def isJpegImage : Except (Failure String) Bool := do
  match ← attempt (readWordAt data 0) with
  | none => return false
  | some soiMarkerId =>
    match ← attempt (readWordAt data (data.length - 2)) with
    | none => return false
    | some eoiMarkerId => return soiMarkerId == 0xFFD8 && eoiMarkerId == 0xFFD9

/-- `JFIF` and a NUL -/
def jfifIdString : List UInt8 := [0x4A, 0x46, 0x49, 0x46, 0]

def jfifIdStringStartOffset : Nat := 6

/-- The identifier as far as it is there. -/
def isJfifImage : Except (Failure String) Bool := do
  match ← attempt (readWordAt data 2) with
  | none => return false
  | some appMarkerId =>
    if appMarkerId ≠ 0xFFE0 then return false
    else if data.length ≤ jfifIdStringStartOffset + jfifIdString.length then return false
    else if data.length < jfifIdStringStartOffset + jfifIdString.length then .error .undefined
    else return (data.drop jfifIdStringStartOffset).take jfifIdString.length == jfifIdString

/-- The constructor of the parser, as far as its methods check it. -/
def checkImageBuffer : Except (Failure String) Unit := do
  if ¬(← isJpegImage data) then .error (.status "Not a valid JPEG image.")
  else if ¬(← isJfifImage data) then .error (.status "Image is not in JFIF format.")
  else return ()

def isStartOfFrameMarkerId (markerId : Nat) : Prop := 0xFFC0 ≤ markerId ∧ markerId < 0xFFCF

instance (markerId : Nat) : Decidable (isStartOfFrameMarkerId markerId) :=
  inferInstanceAs (Decidable (_ ∧ _))

/-- The loop of `MoveToStartOfFrameMarker`. -/
def moveFrom : Nat → Nat → Except (Failure String) Nat
  | 0, _ => .error .endless
  | rounds + 1, offset => do
    if hasData data offset 4 then
      let (currMarkerId, offset) ← ensureReadStatus (readWord data offset)
      if isStartOfFrameMarkerId currMarkerId then return offset
      else if currMarkerId = 0xFFDA then .error (.status headerError)
      else
        let offset ← ensureReadStatus (skipCurrentMarker data offset)
        moveFrom rounds offset
    else
      return offset

def moveToStartOfFrameMarker : Except (Failure String) Nat := do
  let offset ← ensureReadStatus (skipBytes data 0 4)
  let offset ← ensureReadStatus (skipCurrentMarker data offset)
  moveFrom data (data.length + 1) offset

def readJpegHeader (charSigned : Bool) : Except (Failure String) JpegHeader := do
  checkImageBuffer data
  let offset ← moveToStartOfFrameMarker data
  let offset ← ensureReadStatus (skipBytes data offset 2)
  let (precision, offset) ← ensureReadStatus (readByte data offset)
  let (height, offset) ← ensureReadStatus (readWord data offset)
  let (width, offset) ← ensureReadStatus (readWord data offset)
  let (numOfComponents, _) ← ensureReadStatus (readByte data offset)
  if charValue charSigned numOfComponents ≠ 1 ∧ charValue charSigned numOfComponents ≠ 3 then
    .error (.status ("A JFIF image without App14 marker doesn't support a number of "
      ++ "components = " ++ toString (charValue charSigned numOfComponents)))
  else
    return ⟨height, width, charValue charSigned numOfComponents, charValue charSigned precision⟩

/-- The six bytes of the frame that `ApplyHeaderToImage` writes. -/
def headerBytes (newHeader : JpegHeader) : List UInt8 :=
  asChar newHeader.bitsPerSample :: asWord newHeader.height ++ asWord newHeader.width ++
    [asChar newHeader.channels]

/-- `ApplyHeaderToImage` -/
def buildImageWithNewHeader (newHeader : JpegHeader) : Except (Failure String) (List UInt8) := do
  checkImageBuffer data
  let offset ← moveToStartOfFrameMarker data
  let offset ← ensureReadStatus (skipBytes data offset 2)
  if ¬hasData data offset 6 then
    .error (.status "Invalid SOF marker, image buffer ends before end of marker")
  else
    let writeTo := data.take offset ++ headerBytes newHeader
    let offset ← ensureReadStatus (skipBytes data offset 6)
    if hasData data offset 1 then return writeTo ++ data.drop offset
    else return writeTo

end

/-!
## What each step of the header parser does

On an image that an `int` can index the parser only reads bytes that are there, and its loop
ends: every round leaves a segment behind.
-/

/-- Offsets into the image, and two past it, are values of an `int`. -/
def Addressable (data : List UInt8) : Prop := data.length + 2 < 2 ^ 31

/-- A result with `Q`, or an error status. -/
def Returns {ε α : Type} (x : Except (Failure ε) α) (Q : α → Prop) : Prop :=
  match x with
  | .ok a => Q a
  | .error e => ∃ message, e = .status message

section
variable {ε α β : Type} {x : Except (Failure ε) α} {f : α → Except (Failure ε) β} {Q : α → Prop}

theorem Returns.bind {R : β → Prop} (hx : Returns x Q) (hf : ∀ a, Q a → Returns (f a) R) :
    Returns (x >>= f) R := by
  cases x with
  | ok a => exact hf a hx
  | error e => exact hx

theorem Returns.defined (hx : Returns x Q) :
    x ≠ .error .undefined ∧ x ≠ .error .endless := by
  cases x with
  | ok a => exact ⟨(fun h => nomatch h), (fun h => nomatch h)⟩
  | error e =>
    obtain ⟨message, rfl⟩ := hx
    exact ⟨(fun h => nomatch h), (fun h => nomatch h)⟩

@[simp] theorem ensureReadStatus_ok (a : α) : ensureReadStatus (.ok a) = .ok a := rfl

theorem ensureReadStatus_ite (c : Prop) [Decidable c] (a : α) :
    ensureReadStatus (if c then .ok a else .error (.status ())) =
      if c then .ok a else .error (.status headerError) := by
  split
  · rfl
  · rfl

/-- A step that succeeds under a condition. -/
theorem returns_step {c : Prop} [Decidable c] {a : α} {f : α → Except (Failure String) β}
    {R : β → Prop} (h : c → Returns (f a) R) :
    Returns (ensureReadStatus (if c then .ok a else .error (.status ())) >>= f) R := by
  split
  · next hc => exact h hc
  · exact ⟨_, rfl⟩

end

section
variable {data : List UInt8} {k n : Nat}

theorem hasData_iff : hasData data k n ↔ k + n ≤ data.length := by
  unfold hasData
  omega

theorem skipBytes_eq (data : List UInt8) (k n : Nat) : skipBytes data k n =
    if k + n ≤ data.length then .ok (k + n) else .error (.status ()) := by
  unfold skipBytes
  by_cases h : k + n ≤ data.length
  · rw [if_pos h, if_neg (not_not.2 (hasData_iff.2 h))]
  · rw [if_neg h, if_pos fun hdata => h (hasData_iff.1 hdata)]

theorem readByte_eq (data : List UInt8) (k : Nat) : readByte data k =
    if k + 1 ≤ data.length then .ok (data.getD k 0, k + 1) else .error (.status ()) := by
  unfold readByte
  rw [skipBytes_eq]
  by_cases h : k + 1 ≤ data.length
  · rw [if_neg (not_not.2 (hasData_iff.2 h)), List.getD_eq_getElem?_getD,
      List.getElem?_eq_getElem h]
    simp only [if_pos h]
    rfl
  · rw [if_pos fun hdata => h (hasData_iff.1 hdata), if_neg h]

theorem readWordAt_eq (haddr : Addressable data) (hk : k ≤ data.length) : readWordAt data k =
    if k + 2 ≤ data.length then .ok (beAt data k) else .error (.status ()) := by
  unfold Addressable at haddr
  unfold readWordAt
  rw [if_neg (by omega), if_neg (by omega)]
  by_cases h : k + 2 ≤ data.length
  · rw [if_pos h, if_neg (by omega), Int.toNat_natCast, List.getElem?_eq_getElem (by omega),
      List.getElem?_eq_getElem (by omega)]
    unfold beAt
    rw [List.getD_eq_getElem?_getD, List.getD_eq_getElem?_getD,
      List.getElem?_eq_getElem (by omega), List.getElem?_eq_getElem (by omega)]
    rfl
  · rw [if_neg h, if_pos (by omega)]

theorem readWord_eq (haddr : Addressable data) (hk : k ≤ data.length) : readWord data k =
    if k + 2 ≤ data.length then .ok (beAt data k, k + 2) else .error (.status ()) := by
  unfold readWord
  rw [readWordAt_eq haddr hk, skipBytes_eq]
  split
  · rfl
  · rfl

theorem skipCurrentMarker_eq (haddr : Addressable data) (hk : k ≤ data.length) :
    skipCurrentMarker data k =
      if 2 < beAt data k ∧ k + beAt data k ≤ data.length then .ok (k + beAt data k)
      else .error (.status ()) := by
  unfold skipCurrentMarker
  rw [readWord_eq haddr hk]
  by_cases h : k + 2 ≤ data.length
  · rw [if_pos h, ok_bind]
    show (if beAt data k ≤ 2 then _ else skipBytes data (k + 2) (beAt data k - 2)) = _
    by_cases hlen : 2 < beAt data k
    · rw [if_neg (by omega), skipBytes_eq]
      have hsum : k + 2 + (beAt data k - 2) = k + beAt data k := by omega
      rw [hsum]
      by_cases hend : k + beAt data k ≤ data.length
      · rw [if_pos hend, if_pos ⟨hlen, hend⟩]
      · rw [if_neg hend, if_neg fun hand => hend hand.2]
    · rw [if_pos (by omega), if_neg fun hand => hlen hand.1]
  · rw [if_neg h, if_neg (by omega)]
    rfl

/-- One round of the loop. -/
theorem moveFrom_succ (haddr : Addressable data) (hk : k ≤ data.length) (rounds : Nat) :
    moveFrom data (rounds + 1) k =
      if k + 4 ≤ data.length then
        if isStartOfFrameMarkerId (beAt data k) then .ok (k + 2)
        else if beAt data k = 0xFFDA then .error (.status headerError)
        else if 2 < beAt data (k + 2) ∧ k + 2 + beAt data (k + 2) ≤ data.length then
          moveFrom data rounds (k + 2 + beAt data (k + 2))
        else .error (.status headerError)
      else .ok k := by
  rw [moveFrom]
  by_cases h : k + 4 ≤ data.length
  · rw [if_pos (hasData_iff.2 h), if_pos h, readWord_eq haddr hk, if_pos (by omega)]
    simp only [ensureReadStatus_ok, ok_bind]
    split
    · rfl
    split
    · rfl
    rw [skipCurrentMarker_eq haddr (by omega), ensureReadStatus_ite]
    split
    · rfl
    · rfl
  · rw [if_neg (fun hdata => h (hasData_iff.1 hdata)), if_neg h]
    rfl

/-- The loop moves forward and stays in the image. -/
theorem moveFrom_returns (haddr : Addressable data) (rounds : Nat) :
    ∀ {k : Nat}, k ≤ data.length → data.length < k + rounds →
      Returns (moveFrom data rounds k) fun m => k ≤ m ∧ m ≤ data.length := by
  induction rounds with
  | zero =>
    intro k hk hrounds
    omega
  | succ rounds ih =>
    intro k hk hrounds
    rw [moveFrom_succ haddr hk]
    split
    · next h =>
      split
      · exact ⟨by omega, by omega⟩
      split
      · exact ⟨_, rfl⟩
      split
      · next hskip =>
        have hnext := ih (k := k + 2 + beAt data (k + 2)) hskip.2 (by omega)
        revert hnext
        unfold Returns
        cases moveFrom data rounds (k + 2 + beAt data (k + 2)) with
        | ok m => exact fun hm => ⟨by omega, hm.2⟩
        | error e => exact id
      · exact ⟨_, rfl⟩
    · exact ⟨Nat.le_refl _, hk⟩

theorem moveToStartOfFrameMarker_eq (haddr : Addressable data) : moveToStartOfFrameMarker data =
    if 4 ≤ data.length ∧ 2 < beAt data 4 ∧ 4 + beAt data 4 ≤ data.length then
      moveFrom data (data.length + 1) (4 + beAt data 4)
    else .error (.status headerError) := by
  unfold moveToStartOfFrameMarker
  rw [skipBytes_eq, Nat.zero_add]
  by_cases h : 4 ≤ data.length
  · rw [if_pos h]
    simp only [ensureReadStatus_ok, ok_bind, h, true_and]
    rw [skipCurrentMarker_eq haddr h, ensureReadStatus_ite]
    split
    · rfl
    · rfl
  · rw [if_neg h, if_neg fun hand => h hand.1]
    rfl

theorem moveToStartOfFrameMarker_returns (haddr : Addressable data) :
    Returns (moveToStartOfFrameMarker data) fun m => m ≤ data.length := by
  rw [moveToStartOfFrameMarker_eq haddr]
  split
  · next h =>
    have hloop := moveFrom_returns haddr (data.length + 1) h.2.2 (by omega)
    revert hloop
    unfold Returns
    cases moveFrom data (data.length + 1) (4 + beAt data 4) with
    | ok m => exact And.right
    | error e => exact id
  · exact ⟨_, rfl⟩

end

/-!
## What the header parser returns

Reading and rewriting succeed at the frame marker that the loop has found, if the six bytes after
its length are there.
-/

variable {data : List UInt8} {m : Nat}

/-- What the constructor of the parser asks for. -/
structure Marked (data : List UInt8) : Prop where
  soi : beAt data 0 = 0xFFD8
  eoi : beAt data (data.length - 2) = 0xFFD9
  app0 : beAt data 2 = 0xFFE0
  identified : (data.drop jfifIdStringStartOffset).take jfifIdString.length = jfifIdString
  follows : jfifIdStringStartOffset + jfifIdString.length < data.length

theorem attempt_ite {α : Type} (c : Prop) [Decidable c] (a : α) :
    attempt (if c then .ok a else .error (.status ())) = .ok (if c then some a else none) := by
  split
  · rfl
  · rfl

theorem isJpegImage_eq (haddr : Addressable data) : isJpegImage data =
    .ok (decide (2 ≤ data.length ∧ beAt data 0 = 0xFFD8 ∧
      beAt data (data.length - 2) = 0xFFD9)) := by
  unfold isJpegImage
  have hfirst : readWordAt data 0 = _ := @readWordAt_eq data 0 haddr (Nat.zero_le _)
  rw [hfirst, attempt_ite, ok_bind]
  by_cases h : 2 ≤ data.length
  · have hlast := readWordAt_eq haddr (Nat.sub_le data.length 2)
    rw [Int.ofNat_sub h, if_pos (by omega)] at hlast
    rw [if_pos (by omega)]
    show (attempt (readWordAt data ((data.length : Int) - (2 : Nat))) >>= _) = _
    rw [hlast]
    simp only [attempt, ok_bind, h, true_and]
    show Except.ok (decide _ && decide _) = _
    rw [← Bool.decide_and]
  · rw [if_neg (by omega), decide_eq_false fun hand => h hand.1]
    rfl

theorem isJfifImage_eq (haddr : Addressable data) (h : 2 ≤ data.length) : isJfifImage data =
    .ok (decide (4 ≤ data.length ∧ beAt data 2 = 0xFFE0 ∧
      jfifIdStringStartOffset + jfifIdString.length < data.length ∧
        (data.drop jfifIdStringStartOffset).take jfifIdString.length = jfifIdString)) := by
  unfold isJfifImage
  have hword : readWordAt data 2 = _ := readWordAt_eq haddr h
  rw [hword, attempt_ite, ok_bind]
  by_cases hlen : 4 ≤ data.length
  · rw [if_pos (by omega)]
    simp only [hlen, true_and]
    by_cases happ : beAt data 2 = 0xFFE0
    · rw [if_neg (not_not.2 happ)]
      simp only [happ, true_and]
      by_cases hid : data.length ≤ jfifIdStringStartOffset + jfifIdString.length
      · rw [if_pos hid, decide_eq_false fun hand => absurd hand.1 (Nat.not_lt.2 hid)]
        rfl
      · rw [if_neg hid, if_neg fun hlt => hid (Nat.le_of_lt hlt)]
        simp only [Nat.not_le.1 hid, true_and]
        rw [beq_eq_decide]
        rfl
    · rw [if_pos happ, decide_eq_false fun hand => happ hand.1]
      rfl
  · rw [if_neg (by omega), decide_eq_false fun hand => hlen hand.1]
    rfl

theorem checkImageBuffer_returns (haddr : Addressable data) :
    Returns (checkImageBuffer data) fun _ => Marked data := by
  unfold checkImageBuffer
  rw [isJpegImage_eq haddr, ok_bind]
  split
  · exact ⟨_, rfl⟩
  · next hjpeg =>
    rw [not_not, decide_eq_true_eq] at hjpeg
    rw [isJfifImage_eq haddr hjpeg.1, ok_bind]
    split
    · exact ⟨_, rfl⟩
    · next hjfif =>
      rw [not_not, decide_eq_true_eq] at hjfif
      exact ⟨hjpeg.2.1, hjpeg.2.2, hjfif.2.1, hjfif.2.2.2, hjfif.2.2.1⟩

theorem Marked.checkImageBuffer (hmarked : Marked data) (haddr : Addressable data) :
    checkImageBuffer data = .ok () := by
  have hlen : 11 < data.length := hmarked.follows
  unfold Jpeg.checkImageBuffer
  rw [isJpegImage_eq haddr, ok_bind,
    if_neg (not_not.2 (decide_eq_true ⟨by omega, hmarked.soi, hmarked.eoi⟩)),
    isJfifImage_eq haddr (by omega), ok_bind,
    if_neg (not_not.2 (decide_eq_true
      ⟨by omega, hmarked.app0, hmarked.follows, hmarked.identified⟩))]
  rfl

/-- What is read after the frame marker. -/
def fieldsAt (charSigned : Bool) (data : List UInt8) (m : Nat) :
    Except (Failure String) JpegHeader :=
  let components := charValue charSigned (data.getD (m + 7) 0)
  if components ≠ 1 ∧ components ≠ 3 then
    .error (.status ("A JFIF image without App14 marker doesn't support a number of "
      ++ "components = " ++ toString components))
  else
    .ok ⟨beAt data (m + 3), beAt data (m + 5), components,
      charValue charSigned (data.getD (m + 2) 0)⟩

/-- The fields follow the marker and its length. -/
theorem readJpegHeader_eq (haddr : Addressable data) (charSigned : Bool)
    (hmarked : Marked data) (hmove : moveToStartOfFrameMarker data = .ok m)
    (hm : m + 8 ≤ data.length) : readJpegHeader data charSigned = fieldsAt charSigned data m := by
  unfold readJpegHeader
  rw [hmarked.checkImageBuffer haddr, hmove, ok_bind, ok_bind, skipBytes_eq, if_pos (by omega)]
  simp only [ensureReadStatus_ok, ok_bind]
  rw [readByte_eq, if_pos (by omega)]
  simp only [ensureReadStatus_ok, ok_bind]
  rw [readWord_eq haddr (by omega), if_pos (by omega)]
  simp only [ensureReadStatus_ok, ok_bind]
  rw [readWord_eq haddr (by omega), if_pos (by omega)]
  simp only [ensureReadStatus_ok, ok_bind]
  rw [readByte_eq, if_pos (by omega)]
  rfl

theorem readJpegHeader_returns (haddr : Addressable data) (charSigned : Bool) :
    Returns (readJpegHeader data charSigned) fun _ => True := by
  unfold readJpegHeader
  refine (checkImageBuffer_returns haddr).bind fun _ _ => ?_
  refine (moveToStartOfFrameMarker_returns haddr).bind fun m hm => ?_
  rw [skipBytes_eq]
  refine returns_step fun hskip => ?_
  rw [readByte_eq]
  refine returns_step fun hprecision => ?_
  show Returns (ensureReadStatus (readWord data (m + 2 + 1)) >>= _) _
  rw [readWord_eq haddr hprecision]
  refine returns_step fun hheight => ?_
  show Returns (ensureReadStatus (readWord data (m + 2 + 1 + 2)) >>= _) _
  rw [readWord_eq haddr hheight]
  refine returns_step fun hwidth => ?_
  show Returns (ensureReadStatus (readByte data (m + 2 + 1 + 2 + 2)) >>= _) _
  rw [readByte_eq]
  refine returns_step fun _ => ?_
  show Returns (if _ then _ else _) _
  split
  · exact ⟨_, rfl⟩
  · trivial

theorem buildImageWithNewHeader_returns (haddr : Addressable data) (newHeader : JpegHeader) :
    Returns (buildImageWithNewHeader data newHeader) fun built =>
      Marked data ∧ ∃ m, moveToStartOfFrameMarker data = .ok m ∧ m + 8 ≤ data.length ∧
        built = data.take (m + 2) ++ headerBytes newHeader ++ data.drop (m + 8) := by
  unfold buildImageWithNewHeader
  refine (checkImageBuffer_returns haddr).bind fun _ hmarked => ?_
  cases hmove : moveToStartOfFrameMarker data with
  | error e =>
    have hreturns := moveToStartOfFrameMarker_returns haddr
    rw [hmove] at hreturns
    exact hreturns
  | ok m =>
    rw [ok_bind, skipBytes_eq]
    refine returns_step fun hskip => ?_
    split
    · exact ⟨_, rfl⟩
    rw [skipBytes_eq]
    refine returns_step fun hsix => ?_
    split
    · exact ⟨hmarked, m, rfl, hsix, rfl⟩
    · next hend =>
      have hdrop : data.drop (m + 8) = [] := by
        rw [hasData_iff] at hend
        exact List.drop_eq_nil_of_le (by omega)
      refine ⟨hmarked, m, rfl, hsix, ?_⟩
      rw [hdrop, List.append_nil]

theorem buildImageWithNewHeader_eq (haddr : Addressable data) (newHeader : JpegHeader)
    (hmarked : Marked data) (hmove : moveToStartOfFrameMarker data = .ok m)
    (hm : m + 8 ≤ data.length) : buildImageWithNewHeader data newHeader =
      .ok (data.take (m + 2) ++ headerBytes newHeader ++ data.drop (m + 8)) := by
  unfold buildImageWithNewHeader
  rw [hmarked.checkImageBuffer haddr, hmove, ok_bind, ok_bind, skipBytes_eq, if_pos (by omega)]
  simp only [ensureReadStatus_ok, ok_bind]
  have hsix : hasData data (m + 2) 6 := hasData_iff.2 hm
  rw [if_neg (not_not.2 hsix), skipBytes_eq, if_pos hm]
  simp only [ensureReadStatus_ok, ok_bind]
  split
  · rfl
  · next hend =>
    have hdrop : data.drop (m + 8) = [] := by
      rw [hasData_iff] at hend
      exact List.drop_eq_nil_of_le (by omega)
    rw [hdrop, List.append_nil]
    rfl

end LiteRt.Jpeg
