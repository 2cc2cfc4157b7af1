import LiteRt.Jpeg.JfifExact

/-!
# Headers read back

Where the parser finds the frame, it reads the fields that are there, and a rebuilt image has
those of the new header. Where it stops elsewhere, some header is written over other bytes.
-/

namespace LiteRt.Jpeg

open LiteRt.Lib List

variable {charSigned : Bool} {image : JfifImage} {bitsPerSample : Int}

/-- The parser stops at the frame. -/
def Found (image : Layout) : Prop := (∀ s ∈ image.segments, Skipped s) ∧ image.frameId ≠ 0xCF

theorem length_fields (image : Layout) : image.fields.length = 6 := rfl

theorem charValue_components {components : UInt8} (h : components = 1 ∨ components = 3) :
    charValue charSigned components = components.toNat ∧
      (charValue charSigned components = 1 ∨ charValue charSigned components = 3) := by
  rcases h with rfl | rfl
  · cases charSigned with
    | true => decide
    | false => decide
  · cases charSigned with
    | true => decide
    | false => decide

theorem read_found (hfound : Found image.toLayout) (precision components : UInt8)
    {height width : Nat} (hheight : height < 2 ^ 16) (hwidth : width < 2 ^ 16)
    (hcomponents : components = 1 ∨ components = 3) :
    readJpegHeader (image.withFields (fieldBytes precision height width components)) charSigned =
      .ok ⟨height, width, components.toNat, charValue charSigned precision⟩ := by
  have haddr := @JfifImage.addressable (fieldBytes precision height width components) image rfl
  have hlen := @length_withFields (fieldBytes precision height width components) image.toLayout rfl
  rw [length_before] at hlen
  rw [readJpegHeader_eq haddr charSigned (marked_withFields image.toLayout rfl)
    (move_eq haddr rfl hfound.1 hfound.2) (by omega),
    fieldsAt_withFields charSigned image.toLayout precision components hheight hwidth]
  obtain ⟨hcount, hsupported⟩ := @charValue_components charSigned components hcomponents
  show (if _ then _ else _) = _
  rw [if_neg (by omega), hcount]

/-- A rebuilt image has the new header, up to the sample bits that a `char` holds. -/
theorem read_rebuilt (hfound : Found image.toLayout) {newHeader : JpegHeader}
    (hsupported : newHeader.Supported) :
    readJpegHeader (image.withFields (headerBytes newHeader)) charSigned =
      .ok ⟨newHeader.height, newHeader.width, newHeader.channels,
        charValue charSigned (asChar newHeader.bitsPerSample)⟩ := by
  obtain ⟨hheight, hwidth, hchannels⟩ := hsupported
  have hcomponents : (asChar newHeader.channels = 1 ∨ asChar newHeader.channels = 3) ∧
      ((asChar newHeader.channels).toNat : Int) = newHeader.channels := by
    rcases hchannels with h | h
    · rw [h]
      decide
    · rw [h]
      decide
  rw [headerBytes_eq ⟨hheight, hwidth, hchannels⟩, read_found hfound _ _ (by omega) (by omega)
    hcomponents.1, hcomponents.2, Int.toNat_of_nonneg hheight.1, Int.toNat_of_nonneg hwidth.1]

theorem build_found (hfound : Found image.toLayout) (newHeader : JpegHeader) :
    buildImageWithNewHeader image.bytes newHeader =
      .ok (image.withFields (headerBytes newHeader)) := by
  have hlen := length_withFields image.toLayout (length_fields image.toLayout)
  rw [length_before] at hlen
  have hbefore := length_before image.toLayout
  have hm : image.beforeFrame.length + 2 + 8 ≤ image.bytes.length := by
    have := two_le_after image.toLayout
    show _ ≤ (image.withFields image.fields).length
    omega
  rw [buildImageWithNewHeader_eq image.fits newHeader
    (marked_withFields image.toLayout (length_fields image.toLayout))
    (move_eq image.fits (length_fields image.toLayout) hfound.1 hfound.2) hm]
  have htake : image.bytes.take (image.beforeFrame.length + 2 + 2) = image.before :=
    take_left' (length_before image.toLayout)
  have hdrop : image.bytes.drop (image.beforeFrame.length + 2 + 8) = image.after := by
    show (image.before ++ (image.fields ++ image.after)).drop _ = _
    rw [← append_assoc]
    refine drop_left' ?_
    rw [length_append, length_fields, hbefore]
  rw [htake, hdrop, append_assoc]
  rfl

/-- Outside the six bytes an image does not depend on them. -/
theorem getElem?_withFields (image : Layout) {six six' : List UInt8} {i : Nat}
    (hsix : six.length = 6) (hsix' : six'.length = 6)
    (h : i < image.before.length ∨ image.before.length + 6 ≤ i) :
    (image.withFields six)[i]? = (image.withFields six')[i]? := by
  unfold Layout.withFields
  rcases h with h | h
  · rw [getElem?_append_left h, getElem?_append_left h]
  · rw [getElem?_append_right (by omega), getElem?_append_right (by omega),
      getElem?_append_right (by omega), getElem?_append_right (by omega), hsix, hsix']

theorem exists_header_changing (bitsPerSample : Int) (b : UInt8) :
    ∃ newHeader : JpegHeader, newHeader.bitsPerSample = bitsPerSample ∧ newHeader.Supported ∧
      (headerBytes newHeader)[2]? ≠ some b := by
  have hzero : (0 : Int) ≤ 0 ∧ (0 : Int) < 2 ^ 16 := by decide
  have hone : (0 : Int) ≤ 1 ∧ (1 : Int) < 2 ^ 16 := by decide
  by_cases hb : b = 0
  · subst hb
    refine ⟨⟨1, 0, 1, bitsPerSample⟩, rfl, ⟨hone, hzero, .inl rfl⟩, fun h => ?_⟩
    have hbyte : asChar 1 = 0 := Option.some.inj h
    exact absurd hbyte (by decide)
  · refine ⟨⟨0, 0, 1, bitsPerSample⟩, rfl, ⟨hzero, hzero, .inl rfl⟩, fun h => ?_⟩
    exact hb (Option.some.inj h).symm

/-- Rewriting leaves the other bytes alone for every header only at the frame. -/
theorem found_of_exact (hexact : Exact charSigned image bitsPerSample) :
    Found image.toLayout := by
  have hsix := length_fields image.toLayout
  obtain ⟨h0, hbits0, hsupported0, -⟩ := exists_header_changing bitsPerSample 0
  obtain ⟨six0, -, hbuild0, -⟩ := hexact.2 h0 hbits0 hsupported0
  have hreturns := buildImageWithNewHeader_returns image.fits h0
  rw [hbuild0] at hreturns
  obtain ⟨hmarked, m, hmove, hm, -⟩ := hreturns
  rcases found_or_elsewhere image.fits hsix hmove with hfound | helsewhere
  · exact hfound
  exfalso
  have hlt : m + 4 < image.bytes.length := by omega
  obtain ⟨newHeader, hbits, hsupported, hchange⟩ :=
    exists_header_changing bitsPerSample image.bytes[m + 4]
  obtain ⟨six, hlen, hbuild, -⟩ := hexact.2 newHeader hbits hsupported
  rw [buildImageWithNewHeader_eq image.fits newHeader hmarked hmove hm] at hbuild
  have hsame : (image.withFields six)[m + 4]? = image.bytes[m + 4]? :=
    getElem?_withFields image.toLayout hlen hsix (by omega)
  have htake : (image.bytes.take (m + 2)).length = m + 2 := by
    rw [length_take]
    omega
  have hsecond : 4 - 2 < (headerBytes newHeader).length := by
    show 2 < 6
    decide
  rw [← Except.ok.inj hbuild, append_assoc, getElem?_append_right (by omega), htake,
    Nat.add_sub_add_left, getElem?_append_left hsecond,
    getElem?_eq_getElem hlt] at hsame
  exact hchange hsame

/-- A grey image of 16 by 16 with the usual Huffman table in front of its frame. -/
def huffmanTableFirst : JfifImage where
  app0 := [1, 1, 0, 0, 1, 0, 1, 0, 0]
  app0_fits := by decide
  segments := [⟨0xC4, [0x00, 0, 1, 5, 1, 1, 1, 1, 1, 1, 0, 0, 0, 0, 0, 0, 0,
    0, 1, 2, 3, 4, 5, 6, 7, 8, 9, 10, 11], by decide⟩]
  segments_other := by
    intro s hs
    rw [mem_singleton.1 hs]
    exact fun hframe => hframe.2.2.1 rfl
  frameId := 0xC0
  isFrame := ⟨by decide, by decide, by decide, by decide, by decide⟩
  precision := 8
  height := 16
  width := 16
  components := 1
  parameters := [1, 0x11, 0]
  parameters_fit := by decide
  scans := [0xFF, 0xDA, 0, 8, 1, 1, 0x00, 0, 0x3F, 0, 0x2B]
  fits := by
    unfold Addressable
    decide

end LiteRt.Jpeg
