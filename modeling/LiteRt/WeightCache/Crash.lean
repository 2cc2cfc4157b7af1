import LiteRt.WeightCache.Provider

/-!
# Stopping at any write

After each step the header points to a list that describes everything that was appended. The
next step writes over that list while the header still points to it; only the size of the
file shows that the list is gone, so it matters whether the file has grown.
-/

namespace LiteRt.WeightCache

open LiteRt.Lib InsertOrderMap

section

variable {buffer : Buffer} {bound : Nat} {entry : Entry}

/-- A key and the bytes that were appended under it. -/
abbrev Entry := PackIdentifier × List UInt8

/-- Where the data of all buffers starts. -/
def kBaseOffset : Nat := align XNNPackCacheHeader.sizeof kMinAlignment

theorem kBaseOffset_eq : kBaseOffset = 128 :=
  rfl

theorem le_align (pos : Nat) : pos ≤ align pos kMinAlignment :=
  Nat.le_add_right _ _

theorem align_mod (pos : Nat) : align pos kMinAlignment % 128 = 0 := by
  unfold align kMinAlignment
  dsimp only
  split <;> omega

theorem align_of_mod {pos : Nat} (h : pos % 128 = 0) : align pos kMinAlignment = pos := by
  unfold align kMinAlignment
  dsimp only
  rw [if_pos h, Nat.add_zero]

/-! ## Loading a content -/

/-- Loading a content is refused or yields, for each key, the bytes first appended under it. -/
def Recovers (lib : Libraries) (entries : List Entry) (content : List UInt8) : Prop :=
  ∀ p : MMapWeightCacheProvider, p.content = content → Ends (load lib) p
      (fun _ p' => ∀ key loc, p'.cacheKeyToOffset.find? key = some loc →
        ∃ data, find? entries key = some data ∧
          slice content (p'.mmapBufferBaseOffset + loc.offset) loc.size = data)
      (fun e _ => e = .failed)

variable {lib : Libraries} {content : List UInt8} {entries : List Entry}

/-- The buffer is where the entry's bytes are, in front of `bound`. -/
structure Holds (content : List UInt8) (bound : Nat) (buffer : Buffer) (entry : Entry) : Prop where
  id : buffer.id = entry.1
  size : buffer.size = entry.2.length
  aligned : buffer.offset % 128 = 0
  inside : kBaseOffset + buffer.offset + buffer.size ≤ bound
  bytes : slice content (kBaseOffset + buffer.offset) buffer.size = entry.2

theorem Holds.overwrite {bound pos : Nat} (h : Holds content bound buffer entry)
    (hpos : bound ≤ pos) (bytes : List UInt8) {bound' : Nat} (hbound : bound ≤ bound') :
    Holds (overwrite 0 content pos bytes) bound' buffer entry where
  id := h.id
  size := h.size
  aligned := h.aligned
  inside := Nat.le_trans h.inside hbound
  bytes := slice_overwrite_eq (Nat.le_trans h.inside hpos) h.bytes h.size.symm

/-- The header is written in front of all buffers. -/
theorem Holds.overwriteHeader (h : Holds content bound buffer entry) (header : XNNPackCacheHeader) :
    Holds (Lib.overwrite 0 content 0 header.bytes) bound buffer entry where
  id := h.id
  size := h.size
  aligned := h.aligned
  inside := h.inside
  bytes := by
    rw [slice_overwrite_after, h.bytes]
    rw [XNNPackCacheHeader.length_bytes, kBaseOffset_eq, XNNPackCacheHeader.sizeof]
    omega

theorem find?_keysOf (buffers : List Buffer)
    (keys : InsertOrderMap PackIdentifier BufferLocation) (key : PackIdentifier) :
    (keysOf buffers keys).find? key =
      (keys.find? key).or ((buffers.find? fun b => b.id = key).map fun b => ⟨b.offset, b.size⟩) := by
  induction buffers generalizing keys with
  | nil => exact (Option.or_none).symm
  | cons b buffers ih =>
    change (keysOf buffers (keys.emplace b.id ⟨b.offset, b.size⟩)).find? key = _
    rw [ih, find?_emplace, List.find?_cons]
    cases hkey : keys.find? key with
    | some loc => simp
    | none =>
      by_cases hid : b.id = key
      · simp [hid]
      · simp [hid, Ne.symm hid]

/-- Buffers in the order of the entries find the same entry for a key. -/
theorem find?_of_holds {buffers : List Buffer}
    (h : List.Forall₂ (Holds content bound) buffers entries) {key : PackIdentifier}
    (hfind : buffers.find? (fun b => b.id = key) = some buffer) :
    ∃ data, find? entries key = some data ∧ Holds content bound buffer (key, data) := by
  induction h with
  | nil => cases hfind
  | @cons b entry buffers entries hb hrest ih =>
    rw [List.find?_cons] at hfind
    by_cases hid : b.id = key
    · simp only [hid, decide_true, Option.some.injEq] at hfind
      subst hfind
      refine ⟨entry.2, ?_, ?_⟩
      · rw [find?_cons, if_pos (hb.id.symm.trans hid)]
      · rw [← hid, hb.id]
        exact hb
    · simp only [hid, decide_false] at hfind
      obtain ⟨data, hdata, hholds⟩ := ih hfind
      refine ⟨data, ?_, hholds⟩
      rw [find?_cons, if_neg fun hkey => hid (hb.id.trans hkey)]
      exact hdata

theorem recovers_of_not_loadable (h : ¬Loadable lib content) : Recovers lib entries content := by
  rintro p rfl
  exact load_ends.mono (fun _ _ hok => absurd hok.1 h) fun _ _ herror => herror.1

/-- A list that ends in front of the end of the file is not accepted. -/
theorem recovers_of_longer (h : (XNNPackCacheHeader.read content).bufferListOffset +
      (XNNPackCacheHeader.read content).bufferListSize < content.length) :
    Recovers lib entries content := by
  refine recovers_of_not_loadable fun hload => ?_
  have hsize := hload.listSize
  omega

/-- A content whose list is the packed one of the first entries. -/
theorem recovers_of_list {list : BufferList} {kept : List Entry} (hlist : listOf lib content = list)
    (hbase : list.baseOffset = kBaseOffset) (hkept : ∃ rest, entries = kept ++ rest)
    (h : List.Forall₂ (Holds content bound) list.buffers kept) :
    Recovers lib entries content := by
  rintro p rfl
  refine load_ends.mono ?_ fun _ _ herror => herror.1
  rintro ⟨⟩ p' ⟨_, hfrom⟩ key loc hfind
  rw [hfrom.keys, hlist, find?_keysOf] at hfind
  obtain ⟨buffer, hbuffer, hloc⟩ := Option.map_eq_some_iff.1 hfind
  obtain ⟨data, hdata, hholds⟩ := find?_of_holds h hbuffer
  obtain ⟨rest, rfl⟩ := hkept
  refine ⟨data, ?_, ?_⟩
  · have hmem : key ∈ kept.map Prod.fst :=
      List.mem_map_of_mem (f := Prod.fst) (mem_of_find? hdata)
    rw [find?_append hmem, hdata]
  · rw [hfrom.base, hlist, hbase, ← hloc]
    exact hholds.bytes

theorem Recovers.append (h : Recovers lib entries content) (more : List Entry) :
    Recovers lib (entries ++ more) content := by
  intro p hp
  refine (h p hp).mono ?_ fun _ _ => id
  intro _ p' hall key loc hfind
  obtain ⟨data, hdata, hbytes⟩ := hall key loc hfind
  have hmem : key ∈ entries.map Prod.fst :=
    List.mem_map_of_mem (f := Prod.fst) (mem_of_find? hdata)
  exact ⟨data, by rw [find?_append hmem, hdata], hbytes⟩

end

/-!
## Addresses of buffers

After a step, each buffer of the list has an address in a mapping that shows all its bytes.
The next step starts where the last one ended, so an offset that already has an address can
come up again only there.
-/

theorem find?_addressesOf (mapping base : Nat) (buffers : List Buffer)
    (addresses : InsertOrderMap Nat Address) (offset : Nat) :
    (addressesOf mapping base buffers addresses).find? offset = (addresses.find? offset).or
        ((buffers.find? fun b => b.offset = offset).map fun b => ⟨mapping, base + b.offset⟩) := by
  induction buffers generalizing addresses with
  | nil => exact (Option.or_none).symm
  | cons b buffers ih =>
    change (addressesOf mapping base buffers
      (addresses.emplace b.offset ⟨mapping, base + b.offset⟩)).find? offset = _
    rw [ih, find?_emplace, List.find?_cons]
    cases haddress : addresses.find? offset with
    | some address => simp
    | none =>
      by_cases hoffset : b.offset = offset
      · simp [hoffset]
      · simp [hoffset, Ne.symm hoffset]

section
variable {mapping base offset : Nat} {buffers : List Buffer}
  {addresses : InsertOrderMap Nat Address} {address : Address}

/-- An offset that had an address keeps it. -/
theorem find?_addressesOf_of_some (h : addresses.find? offset = some address) :
    (addressesOf mapping base buffers addresses).find? offset = some address := by
  rw [find?_addressesOf, h, Option.some_or]

/-- A buffer of the list has an address; a new one is in the mapping. -/
theorem exists_address {b : Buffer} (hb : b ∈ buffers) :
    (∃ address, addresses.find? b.offset = some address ∧
      (addressesOf mapping base buffers addresses).find? b.offset = some address) ∨
      addresses.find? b.offset = none ∧
      (addressesOf mapping base buffers addresses).find? b.offset =
        some ⟨mapping, base + b.offset⟩ := by
  rw [find?_addressesOf]
  cases haddress : addresses.find? b.offset with
  | some address => exact .inl ⟨address, rfl, rfl⟩
  | none =>
    refine .inr ⟨rfl, ?_⟩
    cases hfind : buffers.find? fun b' => decide (b'.offset = b.offset) with
    | none => exact absurd (List.find?_eq_none.1 hfind b hb) (by simp)
    | some b' =>
      have hoffset : b'.offset = b.offset := by simpa using List.find?_some hfind
      rw [Option.none_or, Option.map_some, hoffset]

theorem address_of_find? (h : (addressesOf mapping base buffers addresses).find? offset =
    some address) :
    addresses.find? offset = some address ∨
      address = ⟨mapping, base + offset⟩ ∧ ∃ b ∈ buffers, b.offset = offset := by
  rw [find?_addressesOf] at h
  cases haddress : addresses.find? offset with
  | some old =>
    rw [haddress, Option.some_or] at h
    exact .inl h
  | none =>
    rw [haddress, Option.none_or] at h
    obtain ⟨b, hb, rfl⟩ := Option.map_eq_some_iff.1 h
    have hoffset : b.offset = offset := by simpa using List.find?_some hb
    exact .inr ⟨by rw [hoffset], b, List.mem_of_find?_eq_some hb, hoffset⟩

end

/-- The buffer has an address in a mapping that shows all of it. -/
def Covered (handles : List MMapHandle) (addresses : InsertOrderMap Nat Address)
    (buffer : Buffer) : Prop :=
  ∃ (address : Address) (handle : MMapHandle), addresses.find? buffer.offset = some address ∧
    address.pos = kBaseOffset + buffer.offset ∧ handle ∈ handles ∧
    handle.mapping = address.mapping ∧ handle.Shows address.pos buffer.size

/-- The mappings and addresses up to a place in the file at which the list starts. -/
structure Mapped (front : List MMapHandle) (last : MMapHandle)
    (addresses : InsertOrderMap Nat Address) (bound : Nat) : Prop where
  header : ((front ++ [last]).headD .unmapped).Shows 0 XNNPackCacheHeader.sizeof
  offset : last.offset ≤ bound
  pos : ∀ (offset : Nat) (address : Address), addresses.find? offset = some address →
    address.pos = kBaseOffset + offset ∧ address.pos ≤ bound
  /-- What is right at the end is in the last mapping. -/
  boundary : ∀ (offset : Nat) (address : Address), addresses.find? offset = some address →
    address.pos = bound → address.mapping = last.mapping

section
variable {front : List MMapHandle} {last segment : MMapHandle}
  {addresses : InsertOrderMap Nat Address} {bound bound' : Nat} {buffers : List Buffer} {b : Buffer}

/-- Adding the addresses of a list in the last mapping keeps what is known of the others. -/
theorem Mapped.listed {front' : List MMapHandle} (h : Mapped front last addresses bound)
    (hheader : ((front' ++ [segment]).headD .unmapped).Shows 0 XNNPackCacheHeader.sizeof)
    (hoffset : segment.offset ≤ bound) (hbound : bound < bound')
    (hbuffers : ∀ b ∈ buffers, kBaseOffset + b.offset ≤ bound') :
    Mapped front' segment (addressesOf segment.mapping kBaseOffset buffers addresses) bound' where
  header := hheader
  offset := Nat.le_trans hoffset (Nat.le_of_lt hbound)
  pos offset address hfind := by
    obtain hold | ⟨rfl, b, hb, rfl⟩ := address_of_find? hfind
    · obtain ⟨hpos, hle⟩ := h.pos offset address hold
      exact ⟨hpos, Nat.le_trans hle (Nat.le_of_lt hbound)⟩
    · exact ⟨rfl, hbuffers b hb⟩
  boundary offset address hfind hpos := by
    obtain hold | ⟨rfl, _⟩ := address_of_find? hfind
    · have hle := (h.pos offset address hold).2
      omega
    · rfl

theorem Covered.grown (hb : Covered (front ++ [last]) addresses b)
    (hend : kBaseOffset + b.offset + b.size ≤ last.offset + segment.size)
    (hmapping : segment.mapping = last.mapping) (hoffset : segment.offset = last.offset) :
    Covered (front ++ [segment]) (addressesOf segment.mapping kBaseOffset buffers addresses) b := by
  obtain ⟨address, handle, hfind, hpos, hmem, hhandle, hshows⟩ := hb
  obtain hfront | hlast := List.mem_append.1 hmem
  · exact ⟨address, handle, find?_addressesOf_of_some hfind, hpos,
      List.mem_append_left _ hfront, hhandle, hshows⟩
  · cases List.mem_singleton.1 hlast
    refine ⟨address, segment, find?_addressesOf_of_some hfind, hpos,
      List.mem_append_right _ List.mem_cons_self, hmapping.trans hhandle, ?_, ?_⟩
    · rw [hoffset]
      exact hshows.1
    · rw [hoffset, hpos]
      exact hend

theorem Covered.added {handles : List MMapHandle} (hb : Covered handles addresses b) :
    Covered (handles ++ [segment])
      (addressesOf segment.mapping kBaseOffset buffers addresses) b := by
  obtain ⟨address, handle, hfind, hpos, hmem, hhandle, hshows⟩ := hb
  exact ⟨address, handle, find?_addressesOf_of_some hfind, hpos, List.mem_append_left _ hmem,
    hhandle, hshows⟩

/-- A buffer of the step is in the last mapping, which has grown. -/
theorem Mapped.covered_grown (h : Mapped front last addresses bound) (hmem : b ∈ buffers)
    (hb : bound ≤ kBaseOffset + b.offset)
    (hend : kBaseOffset + b.offset + b.size ≤ last.offset + segment.size)
    (hmapping : segment.mapping = last.mapping) (hoffset : segment.offset = last.offset) :
    Covered (front ++ [segment]) (addressesOf segment.mapping kBaseOffset buffers addresses) b := by
  have hstart := Nat.le_trans h.offset hb
  obtain ⟨address, hold, hfind⟩ | ⟨_, hfind⟩ := @exists_address segment.mapping kBaseOffset _
      addresses _ hmem
  · obtain ⟨hpos, hle⟩ := h.pos _ _ hold
    refine ⟨address, segment, hfind, hpos, List.mem_append_right _ List.mem_cons_self, ?_, ?_, ?_⟩
    · rw [hmapping, h.boundary _ _ hold (by omega)]
    · rw [hoffset, hpos]
      exact hstart
    · rw [hoffset, hpos]
      exact hend
  · refine ⟨_, segment, hfind, rfl, List.mem_append_right _ List.mem_cons_self, rfl, ?_, ?_⟩
    · rw [hoffset]
      exact hstart
    · rw [hoffset]
      exact hend

/-- A buffer of the step is in a mapping that was added, or an address of the last one is used
for it. -/
theorem Mapped.covered_added (h : Mapped front last addresses bound) (hmem : b ∈ buffers)
    (hb : bound ≤ kBaseOffset + b.offset) (hoffset : segment.offset = bound)
    (hend : kBaseOffset + b.offset + b.size ≤ segment.offset + segment.size)
    (hfits : kBaseOffset + b.offset = bound → addresses.contains b.offset = true →
      kBaseOffset + b.offset + b.size ≤ last.offset + last.size) :
    Covered (front ++ [last] ++ [segment])
      (addressesOf segment.mapping kBaseOffset buffers addresses) b := by
  obtain ⟨address, hold, hfind⟩ | ⟨_, hfind⟩ := @exists_address segment.mapping kBaseOffset _
      addresses _ hmem
  · obtain ⟨hpos, hle⟩ := h.pos _ _ hold
    have heq : kBaseOffset + b.offset = bound := by omega
    have hcontains : addresses.contains b.offset = true := by
      rw [contains_iff]
      exact List.mem_map_of_mem (f := Prod.fst) (mem_of_find? hold)
    refine ⟨address, last, hfind, hpos,
      List.mem_append_left _ (List.mem_append_right _ List.mem_cons_self), ?_, ?_, ?_⟩
    · rw [h.boundary _ _ hold (hpos.trans heq)]
    · rw [hpos, heq]
      exact h.offset
    · rw [hpos]
      exact hfits heq hcontains
  · refine ⟨_, segment, hfind, rfl, List.mem_append_right _ List.mem_cons_self, rfl, ?_, ?_⟩
    · rw [hoffset]
      exact hb
    · exact hend

end

end LiteRt.WeightCache
