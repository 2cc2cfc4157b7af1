import LiteRt.Jpeg.HeaderParser

/-!
# Images in JFIF format

An image is SOI, APP0, marker segments, the segment of the frame and the rest up to EOI.
-/

namespace LiteRt.Jpeg

open LiteRt.Lib List

/-- A marker with its segment. The length counts its own two bytes. -/
structure Segment where
  id : UInt8
  payload : List UInt8
  fits : payload.length + 2 < 2 ^ 16

def Segment.bytes (s : Segment) : List UInt8 :=
  [0xFF, s.id] ++ beBytes (s.payload.length + 2) ++ s.payload

/-- SOF0 to SOF15. The three ids between them are of Huffman tables, extensions and arithmetic
conditioning. -/
def IsFrameId (id : UInt8) : Prop :=
  0xC0 ≤ id.toNat ∧ id.toNat ≤ 0xCF ∧ id ≠ 0xC4 ∧ id ≠ 0xC8 ∧ id ≠ 0xCC

structure Layout where
  /-- What APP0 holds after its identifier. -/
  app0 : List UInt8
  app0_fits : (jfifIdString ++ app0).length + 2 < 2 ^ 16
  segments : List Segment
  segments_other : ∀ s ∈ segments, ¬IsFrameId s.id
  frameId : UInt8
  isFrame : IsFrameId frameId
  precision : UInt8
  height : UInt16
  width : UInt16
  components : UInt8
  /-- What the frame says of each component. -/
  parameters : List UInt8
  parameters_fit : 6 + parameters.length + 2 < 2 ^ 16
  scans : List UInt8

namespace Layout

variable (image : Layout)

def app0Segment : Segment := ⟨0xE0, jfifIdString ++ image.app0, image.app0_fits⟩

def beforeFrame : List UInt8 :=
  [0xFF, 0xD8] ++ image.app0Segment.bytes ++ image.segments.flatMap Segment.bytes

/-- All in front of the six bytes of the frame. -/
def before : List UInt8 :=
  image.beforeFrame ++ ([0xFF, image.frameId] ++ beBytes (6 + image.parameters.length + 2))

def fields : List UInt8 :=
  image.precision :: beBytes image.height.toNat ++ beBytes image.width.toNat ++ [image.components]

/-- All after the six bytes of the frame. -/
def after : List UInt8 := image.parameters ++ (image.scans ++ [0xFF, 0xD9])

/-- The image with six bytes in the place of its own. -/
def withFields (six : List UInt8) : List UInt8 := image.before ++ (six ++ image.after)

def bytes : List UInt8 := image.withFields image.fields

def header : JpegHeader :=
  ⟨image.height.toNat, image.width.toNat, image.components.toNat, image.precision.toNat⟩

end Layout

/-- An image that an `int` can index. -/
structure JfifImage extends Layout where
  fits : Addressable toLayout.bytes

/-- Sizes of two bytes and a number of components that the reader supports. -/
structure JpegHeader.Supported (header : JpegHeader) : Prop where
  height : 0 ≤ header.height ∧ header.height < 2 ^ 16
  width : 0 ≤ header.width ∧ header.width < 2 ^ 16
  channels : header.channels = 1 ∨ header.channels = 3

/-- The fields of the frame are read, and those of a new header replace them. -/
def Exact (charSigned : Bool) (image : JfifImage) (bitsPerSample : Int) : Prop :=
  (image.components = 1 ∨ image.components = 3 →
    readJpegHeader image.bytes charSigned = .ok image.header) ∧
  ∀ newHeader : JpegHeader, newHeader.bitsPerSample = bitsPerSample → newHeader.Supported →
    ∃ six, six.length = 6 ∧
      buildImageWithNewHeader image.bytes newHeader = .ok (image.withFields six) ∧
      readJpegHeader (image.withFields six) charSigned = .ok newHeader

/-- A value of a `char`. -/
def FitsChar (charSigned : Bool) (value : Int) : Prop :=
  if charSigned = true then -128 ≤ value ∧ value < 128 else 0 ≤ value ∧ value < 256

/-- A segment that the parser skips. -/
structure Skipped (s : Segment) : Prop where
  nonempty : s.payload ≠ []
  notFrame : ¬(0xC0 ≤ s.id.toNat ∧ s.id.toNat < 0xCF)
  notScan : s.id ≠ 0xDA

/-- The segments in front of the frame are skipped, its own is not, and the bits of a sample are
a `char`. -/
structure Recognised (charSigned : Bool) (image : JfifImage) (bitsPerSample : Int) : Prop where
  segments : ∀ s ∈ image.segments, Skipped s
  frame : image.frameId ≠ 0xCF
  precision : image.components = 1 ∨ image.components = 3 →
    FitsChar charSigned image.precision.toNat
  bits : FitsChar charSigned bitsPerSample

/-! ## Characters and words -/

theorem toNat_asChar (value : Int) : (asChar value).toNat = (value % 256).toNat := by
  unfold asChar UInt8.ofInt
  rw [UInt8.toNat_ofNat']
  omega

theorem asChar_natCast (n : Nat) : asChar n = UInt8.ofNat n := by
  rw [← UInt8.toNat_inj, toNat_asChar, UInt8.toNat_ofNat']
  omega

theorem charValue_asChar_iff (charSigned : Bool) (value : Int) :
    charValue charSigned (asChar value) = value ↔ FitsChar charSigned value := by
  unfold charValue FitsChar
  rw [toNat_asChar]
  cases charSigned with
  | true =>
    simp only [true_and, if_true]
    split
    · omega
    · omega
  | false =>
    rw [if_neg (by simp), if_neg (by simp)]
    omega

theorem charValue_eq_iff (charSigned : Bool) (b : UInt8) :
    charValue charSigned b = b.toNat ↔ FitsChar charSigned b.toNat := by
  have hb := b.toNat_lt
  unfold charValue FitsChar
  cases charSigned with
  | true =>
    simp only [true_and, if_true]
    split
    · omega
    · omega
  | false =>
    rw [if_neg (by simp), if_neg (by simp)]
    omega

theorem asWord_eq {value : Int} (h : 0 ≤ value ∧ value < 2 ^ 16) :
    asWord value = beBytes value.toNat := by
  obtain ⟨n, rfl⟩ := Int.eq_ofNat_of_zero_le h.1
  have hshift : (n : Int) >>> (8 : Nat) = (n / 256 : Nat) := by
    rw [Int.shiftRight_eq_div_pow]
    rfl
  unfold asWord beBytes
  rw [hshift, Int.toNat_natCast, asChar_natCast, asChar_natCast]

/-!
## When an image is read and rewritten exactly

Ids of frames are recognised by an interval, which holds three ids that are not of frames and
misses the last one that is.
-/

variable {charSigned : Bool} {bitsPerSample : Int}

/-! ### Segments -/

section
variable {s : Segment} {data pre rest : List UInt8} {rounds m : Nat} {segments : List Segment}

theorem length_segment (s : Segment) : s.bytes.length = s.payload.length + 4 := by
  unfold Segment.bytes
  rw [length_append, length_append, length_beBytes]
  exact Nat.add_comm _ _

theorem beAt_id (s : Segment) (pre rest : List UInt8) :
    beAt (pre ++ (s.bytes ++ rest)) pre.length = 0xFF00 + s.id.toNat := by
  have hfront := beAt_length_append pre (s.bytes ++ rest) 0
  rw [Nat.add_zero] at hfront
  rw [hfront]
  show 255 * 256 + s.id.toNat = _
  omega

theorem beAt_length (s : Segment) (pre rest : List UInt8) :
    beAt (pre ++ (s.bytes ++ rest)) (pre.length + 2) = s.payload.length + 2 := by
  have hsplit : pre ++ (s.bytes ++ rest) = (pre ++ [0xFF, s.id]) ++
      (beBytes (s.payload.length + 2) ++ (s.payload ++ rest)) := by
    unfold Segment.bytes
    simp only [append_assoc]
  have hlen : pre.length + 2 = (pre ++ [0xFF, s.id]).length + 0 := by
    rw [length_append]
    rfl
  rw [hsplit, hlen, beAt_length_append, beAt_beBytes s.fits]

/-- What a round of the loop does at a segment. -/
theorem moveFrom_segment (haddr : Addressable data) (hdata : data = pre ++ (s.bytes ++ rest))
    (rounds : Nat) :
    moveFrom data (rounds + 1) pre.length =
      if 0xC0 ≤ s.id.toNat ∧ s.id.toNat < 0xCF then .ok (pre.length + 2)
      else if s.id = 0xDA then .error (.status headerError)
      else if s.payload ≠ [] then moveFrom data rounds (pre ++ s.bytes).length
      else .error (.status headerError) := by
  have hlen : data.length = pre.length + (s.payload.length + 4 + rest.length) := by
    rw [hdata, length_append, length_append, length_segment]
  have hid : beAt data pre.length = 0xFF00 + s.id.toNat := by
    rw [hdata, beAt_id]
  have hfull : beAt data (pre.length + 2) = s.payload.length + 2 := by
    rw [hdata, beAt_length]
  have hscan : s.id = 0xDA ↔ 0xFF00 + s.id.toNat = 0xFFDA := by
    rw [← UInt8.toNat_inj]
    show s.id.toNat = 218 ↔ _
    omega
  have hempty : s.payload ≠ [] ↔ 2 < s.payload.length + 2 := by
    rw [← length_pos_iff]
    omega
  have hframe : (0xC0 ≤ s.id.toNat ∧ s.id.toNat < 0xCF) ↔
      isStartOfFrameMarkerId (0xFF00 + s.id.toNat) := by
    unfold isStartOfFrameMarkerId
    omega
  have hnext : (pre ++ s.bytes).length = pre.length + 2 + (s.payload.length + 2) := by
    rw [length_append, length_segment]
    omega
  rw [moveFrom_succ haddr (by omega), if_pos (by omega), hid, hfull, hnext]
  simp only [hframe, hscan, hempty]
  split
  · rfl
  split
  · rfl
  by_cases hskip : 2 < s.payload.length + 2
  · rw [if_pos ⟨hskip, by omega⟩, if_pos hskip]
  · rw [if_neg fun h => hskip h.1, if_neg hskip]

theorem Skipped.moveFrom (hs : Skipped s) (haddr : Addressable data)
    (hdata : data = pre ++ (s.bytes ++ rest)) (rounds : Nat) :
    moveFrom data (rounds + 1) pre.length = moveFrom data rounds (pre ++ s.bytes).length := by
  rw [moveFrom_segment haddr hdata, if_neg hs.notFrame, if_neg hs.notScan, if_pos hs.nonempty]

theorem length_le_flatMap (segments : List Segment) :
    segments.length ≤ (segments.flatMap Segment.bytes).length := by
  induction segments with
  | nil => exact Nat.le_refl _
  | cons s segments ih =>
    rw [flatMap_cons, length_append, length_segment, length_cons]
    omega

/-- The segments that the loop skips are left behind. -/
theorem moveFrom_skipped (hskipped : ∀ s ∈ segments, Skipped s) (haddr : Addressable data) :
    ∀ {pre : List UInt8}, data = pre ++ (segments.flatMap Segment.bytes ++ rest) →
      moveFrom data (segments.length + rounds) pre.length =
        moveFrom data rounds (pre ++ segments.flatMap Segment.bytes).length := by
  induction segments with
  | nil =>
    intro pre hdata
    rw [flatMap_nil, append_nil, length_nil, Nat.zero_add]
  | cons s segments ih =>
    intro pre hdata
    obtain ⟨hs, hrest⟩ := forall_mem_cons.1 hskipped
    have hrounds : (s :: segments).length + rounds = segments.length + rounds + 1 := by
      rw [length_cons]
      omega
    rw [flatMap_cons, append_assoc] at hdata
    rw [hrounds, hs.moveFrom haddr hdata, flatMap_cons, ← append_assoc]
    exact ih hrest (by rw [hdata, append_assoc])

/-- The loop skips all segments, or it has taken one of them for the frame. -/
theorem skipped_or_of_moveFrom (haddr : Addressable data) :
    ∀ {pre : List UInt8}, data = pre ++ (segments.flatMap Segment.bytes ++ rest) →
      moveFrom data (segments.length + rounds) pre.length = .ok m →
        (∀ s ∈ segments, Skipped s) ∨ m + 2 ≤ (pre ++ segments.flatMap Segment.bytes).length := by
  induction segments with
  | nil => exact fun _ _ => .inl fun _ h => absurd h not_mem_nil
  | cons s segments ih =>
    intro pre hdata hrun
    have hrounds : (s :: segments).length + rounds = segments.length + rounds + 1 := by
      rw [length_cons]
      omega
    rw [flatMap_cons, append_assoc] at hdata
    rw [hrounds, moveFrom_segment haddr hdata] at hrun
    rw [flatMap_cons, ← append_assoc]
    split at hrun
    · right
      cases hrun
      rw [length_append, length_append, length_segment]
      omega
    · next hframe =>
      split at hrun
      · cases hrun
      · next hscan =>
        split at hrun
        · next hempty =>
          refine (ih (by rw [hdata, append_assoc]) hrun).imp_left fun hskipped => ?_
          exact forall_mem_cons.2 ⟨⟨hempty, hframe, hscan⟩, hskipped⟩
        · cases hrun

end

/-! ### Images -/

section
variable {image : Layout} {six : List UInt8} {m : Nat}

/-- The segments in front of the frame start here. -/
def Layout.front (image : Layout) : List UInt8 := [0xFF, 0xD8] ++ image.app0Segment.bytes

/-- The segment of the frame, with six bytes in the place of its own. -/
def Layout.frameSegment (image : Layout) (six : List UInt8) (hsix : six.length = 6) : Segment :=
  ⟨image.frameId, six ++ image.parameters, by
    rw [length_append, hsix]
    exact image.parameters_fit⟩

theorem withFields_eq (image : Layout) (hsix : six.length = 6) : image.withFields six =
    image.beforeFrame ++ ((image.frameSegment six hsix).bytes ++ (image.scans ++ [0xFF, 0xD9])) := by
  unfold Layout.withFields Layout.before Layout.after Segment.bytes Layout.frameSegment
  rw [length_append, hsix]
  simp only [append_assoc]

theorem withFields_front (image : Layout) (hsix : six.length = 6) : image.withFields six =
    image.front ++ (image.segments.flatMap Segment.bytes ++
      ((image.frameSegment six hsix).bytes ++ (image.scans ++ [0xFF, 0xD9]))) := by
  rw [withFields_eq image hsix, ← append_assoc image.front]
  rfl

theorem withFields_app0 (image : Layout) (six : List UInt8) : ∃ rest, image.withFields six =
    [0xFF, 0xD8] ++ (image.app0Segment.bytes ++ rest) := by
  unfold Layout.withFields Layout.before Layout.beforeFrame
  rw [append_assoc, append_assoc, append_assoc]
  exact ⟨_, rfl⟩

theorem length_before (image : Layout) : image.before.length = image.beforeFrame.length + 4 := by
  unfold Layout.before
  rw [length_append, length_append, length_beBytes]
  rfl

theorem length_withFields (image : Layout) (hsix : six.length = 6) :
    (image.withFields six).length = image.before.length + 6 + image.after.length := by
  unfold Layout.withFields
  rw [length_append, length_append, hsix, Nat.add_assoc]

theorem two_le_after (image : Layout) : 2 ≤ image.after.length := by
  unfold Layout.after
  rw [length_append, length_append]
  show 2 ≤ _ + (_ + 2)
  omega

theorem JfifImage.addressable (image : JfifImage) (hsix : six.length = 6) :
    Addressable (image.withFields six) := by
  have hfits := image.fits
  unfold Addressable Layout.bytes at *
  rw [length_withFields image.toLayout rfl] at hfits
  rwa [length_withFields image.toLayout hsix]

theorem marked_withFields (image : Layout) (hsix : six.length = 6) :
    Marked (image.withFields six) := by
  obtain ⟨rest, happ0⟩ := withFields_app0 image six
  have hlen := length_withFields image hsix
  have hfollows : 11 < (image.withFields six).length := by
    have := two_le_after image
    have hfront : image.beforeFrame.length = image.front.length +
        (image.segments.flatMap Segment.bytes).length := length_append
    have happ : image.front.length = 2 + (5 + image.app0.length + 4) := by
      unfold Layout.front
      rw [length_append, length_segment]
      show 2 + ((jfifIdString ++ image.app0).length + 4) = _
      rw [length_append]
      rfl
    rw [length_before] at hlen
    omega
  refine ⟨?_, ?_, ?_, ?_, hfollows⟩
  · rw [happ0]
    show (0xFF : UInt8).toNat * 256 + (0xD8 : UInt8).toNat = 0xFFD8
    decide
  · have hsplit : image.withFields six =
        (image.before ++ (six ++ (image.parameters ++ image.scans))) ++ [0xFF, 0xD9] := by
      unfold Layout.withFields Layout.after
      simp only [append_assoc]
    have hend : (image.withFields six).length - 2 =
        (image.before ++ (six ++ (image.parameters ++ image.scans))).length + 0 := by
      rw [hsplit, @length_append _ _ [0xFF, 0xD9]]
      rfl
    rw [hend, hsplit, beAt_length_append]
    decide
  · rw [happ0]
    exact beAt_id image.app0Segment [0xFF, 0xD8] rest
  · rw [happ0]
    rfl

/-- The loop starts after APP0. -/
theorem move_withFields (haddr : Addressable (image.withFields six)) (hsix : six.length = 6) :
    ∃ rounds, (image.withFields six).length = image.segments.length + rounds ∧
      moveToStartOfFrameMarker (image.withFields six) =
        moveFrom (image.withFields six) (image.segments.length + (rounds + 1))
          image.front.length := by
  obtain ⟨rest, happ0⟩ := withFields_app0 image six
  have happ0 : beAt (image.withFields six) 4 = image.app0Segment.payload.length + 2 := by
    rw [happ0]
    exact beAt_length image.app0Segment [0xFF, 0xD8] rest
  have hfront : image.front.length = 4 + (image.app0Segment.payload.length + 2) := by
    unfold Layout.front
    rw [length_append, length_segment]
    show 2 + _ = _
    omega
  have hpos : 0 < image.app0Segment.payload.length := Nat.succ_pos _
  have hlen := length_withFields image hsix
  have hsegments := length_le_flatMap image.segments
  have hbefore : image.beforeFrame.length = image.front.length +
      (image.segments.flatMap Segment.bytes).length := length_append
  rw [length_before] at hlen
  have hrounds : (image.withFields six).length = image.segments.length +
      ((image.withFields six).length - image.segments.length) := by omega
  refine ⟨(image.withFields six).length - image.segments.length, hrounds, ?_⟩
  rw [moveToStartOfFrameMarker_eq haddr, happ0, if_pos ⟨by omega, by omega, by omega⟩, hfront,
    ← Nat.add_assoc image.segments.length, ← hrounds]

/-- The parser finds the frame when nothing in front of it looks like one. -/
theorem move_eq (haddr : Addressable (image.withFields six)) (hsix : six.length = 6)
    (hsegments : ∀ s ∈ image.segments, Skipped s) (hframe : image.frameId ≠ 0xCF) :
    moveToStartOfFrameMarker (image.withFields six) = .ok (image.beforeFrame.length + 2) := by
  obtain ⟨rounds, -, hmove⟩ := move_withFields haddr hsix
  have hid : 0xC0 ≤ image.frameId.toNat ∧ image.frameId.toNat < 0xCF := by
    have hne : image.frameId.toNat ≠ 0xCF := fun h => hframe (UInt8.toNat_inj.1 h)
    have := image.isFrame.1
    have := image.isFrame.2.1
    omega
  rw [hmove, moveFrom_skipped hsegments haddr (withFields_front image hsix)]
  show moveFrom _ _ image.beforeFrame.length = _
  rw [moveFrom_segment haddr (withFields_eq image hsix)]
  exact if_pos hid

/-- Where the parser stops, if not at the frame. -/
theorem found_or_elsewhere (haddr : Addressable (image.withFields six)) (hsix : six.length = 6)
    (hmove : moveToStartOfFrameMarker (image.withFields six) = .ok m) :
    ((∀ s ∈ image.segments, Skipped s) ∧ image.frameId ≠ 0xCF) ∨
      m + 4 < image.before.length ∨ image.before.length + 6 ≤ m := by
  obtain ⟨rounds, hrounds, heq⟩ := move_withFields haddr hsix
  rw [heq] at hmove
  rcases skipped_or_of_moveFrom haddr (withFields_front image hsix) hmove with hskipped | hearly
  · by_cases hframe : image.frameId = 0xCF
    · right
      right
      have hskip : Skipped (image.frameSegment six hsix) := by
        refine ⟨?_, ?_, ?_⟩
        · rw [← length_pos_iff]
          show 0 < (six ++ image.parameters).length
          rw [length_append]
          omega
        · show ¬(_ ≤ image.frameId.toNat ∧ image.frameId.toNat < _)
          rw [hframe]
          decide
        · show image.frameId ≠ _
          rw [hframe]
          decide
      rw [moveFrom_skipped hskipped haddr (withFields_front image hsix)] at hmove
      change moveFrom _ _ image.beforeFrame.length = _ at hmove
      rw [hskip.moveFrom haddr (withFields_eq image hsix)] at hmove
      have hlen : (image.beforeFrame ++ (image.frameSegment six hsix).bytes).length =
          image.before.length + 6 + image.parameters.length := by
        rw [length_append, length_segment, length_before]
        show _ + ((six ++ image.parameters).length + 4) = _
        rw [length_append, hsix]
        omega
      have hend := length_withFields image hsix
      have hafter : image.after.length = image.parameters.length + (image.scans.length + 2) := by
        unfold Layout.after
        rw [length_append, length_append]
        rfl
      have hsegments := length_le_flatMap image.segments
      have hbefore : image.beforeFrame.length = image.front.length +
          (image.segments.flatMap Segment.bytes).length := length_append
      have hbounds := length_before image
      have hloop := moveFrom_returns haddr rounds (k := (image.beforeFrame ++
        (image.frameSegment six hsix).bytes).length) (by omega) (by omega)
      rw [hmove] at hloop
      have := hloop.1
      omega
    · exact .inl ⟨hskipped, hframe⟩
  · right
    left
    change m + 2 ≤ image.beforeFrame.length at hearly
    rw [length_before]
    omega

/-! ### Fields -/

def fieldBytes (precision : UInt8) (height width : Nat) (components : UInt8) : List UInt8 :=
  precision :: beBytes height ++ beBytes width ++ [components]

theorem headerBytes_eq {header : JpegHeader} (h : header.Supported) : headerBytes header =
    fieldBytes (asChar header.bitsPerSample) header.height.toNat header.width.toNat
      (asChar header.channels) := by
  unfold headerBytes fieldBytes
  rw [asWord_eq h.height, asWord_eq h.width]

theorem fieldsAt_withFields (charSigned : Bool) (image : Layout) (precision components : UInt8)
    {height width : Nat} (hheight : height < 2 ^ 16) (hwidth : width < 2 ^ 16) :
    fieldsAt charSigned (image.withFields (fieldBytes precision height width components))
        (image.beforeFrame.length + 2) =
      let count := charValue charSigned components
      if count ≠ 1 ∧ count ≠ 3 then
        .error (.status ("A JFIF image without App14 marker doesn't support a number of "
          ++ "components = " ++ toString count))
      else .ok ⟨height, width, count, charValue charSigned precision⟩ := by
  have hstart : image.beforeFrame.length + 2 + 2 = image.before.length := (length_before image).symm
  have hprecision : (image.withFields (fieldBytes precision height width components)).getD
      (image.beforeFrame.length + 2 + 2) 0 = precision := by
    rw [hstart]
    exact getD_length_append image.before _ 0
  have hcount : (image.withFields (fieldBytes precision height width components)).getD
      (image.beforeFrame.length + 2 + 7) 0 = components := by
    rw [← Nat.add_assoc _ 2 5, hstart]
    exact getD_length_append image.before _ 5
  have hh : beAt (image.withFields (fieldBytes precision height width components))
      (image.beforeFrame.length + 2 + 3) = height := by
    rw [← Nat.add_assoc _ 2 1, hstart]
    refine (beAt_length_append image.before _ 1).trans ?_
    exact beAt_beBytes hheight (beBytes width ++ [components] ++ image.after)
  have hw : beAt (image.withFields (fieldBytes precision height width components))
      (image.beforeFrame.length + 2 + 5) = width := by
    rw [← Nat.add_assoc _ 2 3, hstart]
    refine (beAt_length_append image.before _ 3).trans ?_
    exact beAt_beBytes hwidth ([components] ++ image.after)
  unfold fieldsAt
  rw [hprecision, hcount, hh, hw]

end

end LiteRt.Jpeg
