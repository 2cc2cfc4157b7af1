import LiteRt.WeightCache.Crash

/-!
# Runs of the builder

Between two steps the file is complete: the header points to the list of everything that was
appended. In a step nothing has been written yet, or the list that the header still points to
is overwritten.
-/

namespace LiteRt.WeightCache

open LiteRt.Lib

variable {lib : Libraries} {s : Build} {entries : List Entry}

theorem forall₂_mem {α β : Type} {R : α → β → Prop} {l : List α} {l' : List β}
    (h : List.Forall₂ R l l') {a : α} (ha : a ∈ l) : ∃ b ∈ l', R a b := by
  induction h with
  | nil => cases ha
  | @cons x y l l' hxy hrest ih =>
    obtain rfl | hmem := List.mem_cons.1 ha
    · exact ⟨y, List.mem_cons_self, hxy⟩
    · obtain ⟨b, hb, hr⟩ := ih hmem
      exact ⟨b, List.mem_cons_of_mem _ hb, hr⟩

/-! ## The file after a write -/

namespace FileDescriptor

variable {fd : FileDescriptor} {bytes : List UInt8}

theorem content_write (fd : FileDescriptor) (bytes : List UInt8) :
    (fd.write bytes).content = overwrite 0 fd.content fd.pos bytes := by
  cases bytes <;> rfl

theorem pos_write (fd : FileDescriptor) (bytes : List UInt8) :
    (fd.write bytes).pos = fd.pos + bytes.length := by
  cases bytes <;> rfl

theorem past_write (h : bytes ≠ []) :
    (fd.write bytes).past = fd.past ++ [overwrite 0 fd.content fd.pos bytes] := by
  cases bytes with
  | nil => exact absurd rfl h
  | cons b bs => rfl

end FileDescriptor

def Build.content (s : Build) : List UInt8 := s.fd.content

def Build.header (s : Build) : XNNPackCacheHeader := XNNPackCacheHeader.read s.content

/-- Where the list ends that the header points to. -/
def Build.listEnd (s : Build) : Nat := s.header.bufferListOffset + s.header.bufferListSize

/-- The end of the data: the position in a step, and the list after it. -/
def Build.dataEnd (s : Build) : Nat :=
  if s.builder.isBuildStep then s.fd.pos else s.header.bufferListOffset

/-- The header points to a complete list of the first entries. -/
structure Complete (lib : Libraries) (s : Build) (entries : List Entry) : Prop where
  length : s.content.length = s.listEnd
  pos : s.builder.isBuildStep = true → s.fd.pos = s.header.bufferListOffset
  list : ∃ (list : BufferList) (kept rest : List Entry), listOf lib s.content = list ∧
    list.Fits ∧ list.baseOffset = kBaseOffset ∧ entries = kept ++ rest ∧
    List.Forall₂ (Holds s.content s.header.bufferListOffset) list.buffers kept ∧
    lib.verify (bufferListBytes s.content s.header) = true ∧
    (s.builder.isBuildStep = false → list = s.builder.schema)

/-- The step has moved behind the start of the list that the header points to. -/
structure Underway (s : Build) : Prop where
  step : s.builder.isBuildStep = true
  pos : s.header.bufferListOffset < s.fd.pos

structure Invariant (lib : Libraries) (s : Build) (entries : List Entry) : Prop where
  isStarted : s.builder.isStarted = true
  firstWriteDone : s.builder.firstWriteDone = true
  baseOffset : s.builder.schema.baseOffset = kBaseOffset
  version : s.header.version = XNNPackCacheHeader.kVersion
  stale : s.header.stale = 0
  listAligned : s.header.bufferListOffset % 128 = 0
  listOffset : kBaseOffset ≤ s.header.bufferListOffset
  listSize : 0 < s.header.bufferListSize
  length : s.listEnd ≤ s.content.length
  step : s.builder.isBuildStep = true → s.builder.buildSegmentStart = s.header.bufferListOffset ∧
      s.header.bufferListOffset ≤ s.fd.pos
  reach : s.content.length ≤ max s.listEnd s.dataEnd
  holds : List.Forall₂ (Holds s.content s.dataEnd) s.builder.schema.buffers entries
  state : Complete lib s entries ∨ Underway s

namespace Invariant

theorem header_le (h : Invariant lib s entries) :
    XNNPackCacheHeader.sizeof ≤ s.content.length := by
  have hoffset := h.listOffset
  have hlen := h.length
  unfold Build.listEnd at hlen
  rw [kBaseOffset_eq] at hoffset
  unfold XNNPackCacheHeader.sizeof
  omega

theorem complete (h : Invariant lib s entries) (hidle : s.builder.isBuildStep = false) :
    Complete lib s entries := by
  obtain hcomplete | hunderway := h.state
  · exact hcomplete
  · rw [hunderway.step] at hidle
    cases hidle

theorem recovers (h : Invariant lib s entries) (hgrown : Underway s → s.listEnd < s.content.length) :
    Recovers lib entries s.content := by
  obtain hcomplete | hunderway := h.state
  · obtain ⟨list, kept, rest, hlist, _, hbase, hentries, hholds, _⟩ := hcomplete.list
    exact recovers_of_list hlist hbase ⟨rest, hentries⟩ hholds
  · exact recovers_of_longer (hgrown hunderway)

end Invariant

/-! ## Starting a step -/

theorem reloadSchema_ends {header : XNNPackCacheHeader} {E : Stop → Build → Prop}
    (hsize : header.bufferListSize ≠ 0) (hoffset : header.bufferListOffset < s.content.length)
    (hverify : lib.verify (bufferListBytes s.content header) = true) :
    Ends (reloadSchema lib header) s (fun _ s' => s' = ⟨{ s.builder with
        schema := lib.unpack (bufferListBytes s.content header) }, s.fd⟩) E := by
  have hshort : ¬s.fd.content.length ≤ header.bufferListOffset := Nat.not_le.2 hoffset
  refine ends_get ?_
  rw [if_neg hsize, if_neg hshort, if_neg]
  · exact ends_modify rfl
  · intro hfalse
    exact Bool.false_ne_true (hfalse.symm.trans hverify)

def Build.inStep (s : Build) : Build where
  builder := { s.builder with
    isBuildStep := true
    buildSegmentSize := 0
    buildSegmentStart := s.header.bufferListOffset }
  fd := s.fd.setPos s.header.bufferListOffset

theorem Invariant.inStep (h : Invariant lib s entries) (hstep : s.builder.isBuildStep = false) :
    Invariant lib s.inStep entries where
  isStarted := h.isStarted
  firstWriteDone := h.firstWriteDone
  baseOffset := h.baseOffset
  version := h.version
  stale := h.stale
  listAligned := h.listAligned
  listOffset := h.listOffset
  listSize := h.listSize
  length := h.length
  step _ := ⟨rfl, Nat.le_refl _⟩
  reach := Nat.le_trans (Nat.le_of_eq (h.complete hstep).length) (Nat.le_max_left _ _)
  holds := by
    have hholds := h.holds
    unfold Build.dataEnd at hholds ⊢
    rw [hstep] at hholds
    exact hholds
  state := by
    have hcomplete := h.complete hstep
    obtain ⟨list, kept, rest, hlist, hfits, hbase, hentries, hholds, hverify, _⟩ := hcomplete.list
    refine .inl ⟨hcomplete.length, fun _ => rfl, list, kept, rest, hlist, hfits, hbase,
      hentries, hholds, hverify, ?_⟩
    intro hfalse
    cases hfalse

theorem startBuildStep_ends (h : Invariant lib s entries) {E : Stop → Build → Prop}
    (hfailed : s.builder.isBuildStep = true → E .failed s) :
    Ends (startBuildStep lib) s (fun _ s' => s.builder.isBuildStep = false ∧ s' = s.inStep) E := by
  refine ends_get ?_
  rw [if_neg (by rw [h.isStarted]; decide)]
  cases hstep : s.builder.isBuildStep with
  | true =>
    rw [if_pos rfl]
    exact ends_throw (hfailed hstep)
  | false =>
    rw [if_neg (by decide)]
    obtain ⟨list, kept, rest, hlist, _, _, _, _, hverify, hschema⟩ := (h.complete hstep).list
    have hoffset : s.header.bufferListOffset < s.content.length := by
      have hlen := h.length
      have hsize := h.listSize
      unfold Build.listEnd at hlen
      omega
    have hheader : ¬s.fd.content.length < XNNPackCacheHeader.sizeof := Nat.not_lt.2 h.header_le
    refine ends_modify_bind ?_
    rw [if_neg hheader]
    refine ends_modify_bind ?_
    refine Ends.bind (reloadSchema_ends (Nat.pos_iff_ne_zero.1 h.listSize) hoffset hverify) ?_
    rintro ⟨⟩ _ rfl
    refine ends_modify_bind (ends_modify ⟨rfl, ?_⟩)
    have hunpack : lib.unpack (bufferListBytes s.content s.header) = s.builder.schema := by
      rw [← hschema hstep, ← hlist]
      rfl
    unfold Build.inStep
    congr 1
    change WeightCacheBuilder.mk (lib.unpack (bufferListBytes s.content s.header)) _ _ _ _ _ _ = _
    rw [hunpack]
    rfl

/-! ## Appending -/

theorem Invariant.reserved (h : Invariant lib s entries) (capacity : Nat) :
    Invariant lib ⟨{ s.builder with capacity := capacity }, s.fd⟩ entries where
  isStarted := h.isStarted
  firstWriteDone := h.firstWriteDone
  baseOffset := h.baseOffset
  version := h.version
  stale := h.stale
  listAligned := h.listAligned
  listOffset := h.listOffset
  listSize := h.listSize
  length := h.length
  step := h.step
  reach := h.reach
  holds := h.holds
  state := h.state.imp (fun hc => ⟨hc.length, hc.pos, hc.list⟩) fun hu => ⟨hu.step, hu.pos⟩

theorem append_unstarted (lib : Libraries) (hstep : s.builder.isBuildStep = false)
    (packId : PackIdentifier) (data : List UInt8) (fingerprintId : Int) :
    append lib packId data fingerprintId s = .error .aborted s := by
  change (if s.builder.isBuildStep = false then _ else _ : BuildM BufferLocation) s = _
  rw [if_pos hstep]
  rfl

/-- The state after an append that was not aborted. -/
def Build.appended (s : Build) (packId : PackIdentifier) (data : List UInt8)
    (fingerprints : List UInt64) : Build where
  builder := { s.builder with
    schema :=
      { fingerprints := fingerprints
        buffers := s.builder.schema.buffers ++
          [⟨packId, align s.fd.pos kMinAlignment - kBaseOffset, data.length⟩]
        baseOffset := s.builder.schema.baseOffset } }
  fd := (s.fd.setPos (align s.fd.pos kMinAlignment)).write data

theorem append_ends (h : Invariant lib s entries) (hstep : s.builder.isBuildStep = true)
    (hpos : align s.fd.pos kMinAlignment < 2 ^ 64) (packId : PackIdentifier) (data : List UInt8)
    (fingerprintId : Int) :
    Ends (append lib packId data fingerprintId) s
      (fun loc s' => loc = ⟨align s.fd.pos kMinAlignment - kBaseOffset, data.length⟩ ∧
        ∃ fingerprint, lib.getFingerprint fingerprintId = some fingerprint ∧
          s' = s.appended packId data
            (if fingerprint ∈ s.builder.schema.fingerprints then s.builder.schema.fingerprints
              else s.builder.schema.fingerprints ++ [fingerprint]))
      (fun e s' => e = .aborted ∧ s'.fd.content = s.fd.content ∧ s'.fd.past = s.fd.past ∧
        (fingerprintId = 0 ∨ lib.getFingerprint fingerprintId = none)) := by
  have hle := Nat.le_trans (Nat.le_trans h.listOffset (h.step hstep).2) (le_align s.fd.pos)
  have hloc : (align s.fd.pos kMinAlignment + 2 ^ 64 - s.builder.schema.baseOffset) % 2 ^ 64 =
      align s.fd.pos kMinAlignment - kBaseOffset := by
    rw [h.baseOffset, kBaseOffset_eq]
    rw [kBaseOffset_eq] at hle
    omega
  refine ends_get ?_
  rw [if_neg (by rw [hstep]; decide)]
  refine ends_modify_bind (ends_modify_bind ?_)
  by_cases hid : fingerprintId = 0
  · rw [if_pos hid]
    exact ends_throw ⟨rfl, rfl, rfl, .inl hid⟩
  · rw [if_neg hid]
    cases hfingerprint : lib.getFingerprint fingerprintId with
    | none => exact ends_throw ⟨rfl, rfl, rfl, .inr rfl⟩
    | some fingerprint =>
      refine ends_modify_bind (ends_modify_bind ⟨?_, fingerprint, rfl, ?_⟩)
      · rw [hloc]
      · rw [hloc]
        rfl

section
variable {packId : PackIdentifier} {data : List UInt8} {fingerprints : List UInt64}

theorem content_appended : (s.appended packId data fingerprints).content =
    overwrite 0 s.content (align s.fd.pos kMinAlignment) data :=
  FileDescriptor.content_write _ _

theorem pos_appended : (s.appended packId data fingerprints).fd.pos =
    align s.fd.pos kMinAlignment + data.length :=
  FileDescriptor.pos_write _ _

theorem past_appended {c : List UInt8} (hc : c ∈ (s.appended packId data fingerprints).fd.past) :
    c ∈ s.fd.past ∨ c = (s.appended packId data fingerprints).content := by
  by_cases hnil : data = []
  · subst hnil
    exact .inl hc
  · rw [content_appended]
    change c ∈ ((s.fd.setPos (align s.fd.pos kMinAlignment)).write data).past at hc
    rw [FileDescriptor.past_write hnil] at hc
    exact (List.mem_append.1 hc).imp id fun h => List.mem_singleton.1 h

theorem Invariant.pos_le_align (h : Invariant lib s entries) (hstep : s.builder.isBuildStep = true) :
    kBaseOffset ≤ align s.fd.pos kMinAlignment :=
  Nat.le_trans (Nat.le_trans h.listOffset (h.step hstep).2) (le_align s.fd.pos)

theorem Invariant.header_appended (h : Invariant lib s entries)
    (hstep : s.builder.isBuildStep = true) :
    (s.appended packId data fingerprints).header = s.header := by
  unfold Build.header
  rw [content_appended]
  refine XNNPackCacheHeader.read_overwrite ?_ h.header_le
  exact Nat.le_trans (by decide) (h.pos_le_align hstep)

theorem Invariant.holds_appended (h : Invariant lib s entries)
    (hstep : s.builder.isBuildStep = true) :
    List.Forall₂ (Holds (s.appended packId data fingerprints).content
        (s.appended packId data fingerprints).dataEnd)
      (s.appended packId data fingerprints).builder.schema.buffers
      (entries ++ [(packId, data)]) := by
  have hbase := h.pos_le_align hstep
  have hend : (s.appended packId data fingerprints).dataEnd =
      align s.fd.pos kMinAlignment + data.length := by
    unfold Build.dataEnd
    rw [pos_appended]
    exact if_pos hstep
  have hbound : s.dataEnd = s.fd.pos := if_pos hstep
  have hle := le_align s.fd.pos
  rw [hend, content_appended]
  refine List.rel_append ?_ (.cons ?_ .nil)
  · refine h.holds.imp fun _ _ hb => hb.overwrite ?_ data ?_
    · rw [hbound]
      exact hle
    · rw [hbound]
      exact Nat.le_trans hle (Nat.le_add_right _ _)
  · have hadd : kBaseOffset + (align s.fd.pos kMinAlignment - kBaseOffset) =
        align s.fd.pos kMinAlignment := Nat.add_sub_cancel' hbase
    refine ⟨rfl, rfl, ?_, ?_, ?_⟩
    · have hmod := align_mod s.fd.pos
      change (align s.fd.pos kMinAlignment - kBaseOffset) % 128 = 0
      rw [kBaseOffset_eq] at hbase ⊢
      omega
    · change kBaseOffset + (align s.fd.pos kMinAlignment - kBaseOffset) + data.length ≤ _
      exact Nat.le_of_eq (congrArg (· + data.length) hadd)
    · change slice _ (kBaseOffset + (align s.fd.pos kMinAlignment - kBaseOffset)) _ = _
      rw [hadd]
      exact slice_overwrite _ _ _ _

theorem Invariant.listEnd_appended (h : Invariant lib s entries)
    (hstep : s.builder.isBuildStep = true) :
    (s.appended packId data fingerprints).listEnd = s.listEnd := by
  unfold Build.listEnd
  rw [h.header_appended hstep]

theorem Invariant.state_appended (h : Invariant lib s entries)
    (hstep : s.builder.isBuildStep = true) :
    Complete lib (s.appended packId data fingerprints) (entries ++ [(packId, data)]) ∨
      Underway (s.appended packId data fingerprints) := by
  have hheader := @Invariant.header_appended _ _ _ packId data fingerprints h hstep
  have hle := le_align s.fd.pos
  obtain hcomplete | hunderway := h.state
  · have hpos : align s.fd.pos kMinAlignment = s.header.bufferListOffset := by
      rw [hcomplete.pos hstep]
      exact align_of_mod h.listAligned
    by_cases hnil : data = []
    · -- Nothing is written: the list is still there.
      subst hnil
      obtain ⟨list, kept, rest, hlist, hfits, hbase, hentries, hholds, hverify, _⟩ :=
        hcomplete.list
      refine .inl ⟨hcomplete.length, fun _ => hpos, list, kept, rest ++ [(packId, [])], hlist,
        hfits, hbase, ?_, hholds, hverify, ?_⟩
      · rw [hentries, List.append_assoc]
      · intro hfalse
        exact absurd (hstep.symm.trans hfalse) (by decide)
    · have hlen := List.length_pos_of_ne_nil hnil
      refine .inr ⟨hstep, ?_⟩
      rw [hheader, pos_appended]
      omega
  · have hpos := hunderway.pos
    refine .inr ⟨hstep, ?_⟩
    rw [hheader, pos_appended]
    omega

theorem Invariant.appended (h : Invariant lib s entries) (hstep : s.builder.isBuildStep = true) :
    Invariant lib (s.appended packId data fingerprints) (entries ++ [(packId, data)]) := by
  have hheader := @Invariant.header_appended _ _ _ packId data fingerprints h hstep
  obtain ⟨hstart, hoff⟩ := h.step hstep
  have hle := le_align s.fd.pos
  constructor
  · exact h.isStarted
  · exact h.firstWriteDone
  · exact h.baseOffset
  · rw [hheader]
    exact h.version
  · rw [hheader]
    exact h.stale
  · rw [hheader]
    exact h.listAligned
  · rw [hheader]
    exact h.listOffset
  · rw [hheader]
    exact h.listSize
  · unfold Build.listEnd
    rw [hheader, content_appended]
    exact Nat.le_trans h.length (length_le_overwrite _ _ _ _)
  · intro _
    refine ⟨?_, ?_⟩
    · rw [hheader]
      exact hstart
    · rw [hheader, pos_appended]
      omega
  · have hreach := h.reach
    have hend : s.dataEnd = s.fd.pos := if_pos hstep
    have hnext : (s.appended packId data fingerprints).dataEnd =
        align s.fd.pos kMinAlignment + data.length :=
      (if_pos hstep).trans pos_appended
    rw [h.listEnd_appended hstep, hnext, content_appended]
    by_cases hnil : data = []
    · subst hnil
      rw [overwrite_nil]
      omega
    · rw [length_overwrite hnil]
      omega
  · exact h.holds_appended hstep
  · exact h.state_appended hstep

end

/-! ## Stopping a step -/

/-- Where the list of a step goes. -/
def Build.layoutOffset (s : Build) : Nat := align s.fd.pos kMinAlignment

/-- The header that points to the list of the step. -/
def Build.newHeader (lib : Libraries) (s : Build) : XNNPackCacheHeader :=
  ⟨XNNPackCacheHeader.kVersion, s.layoutOffset, (lib.pack s.builder.schema).length, 0⟩

/-- The content once the list is written. -/
def Build.listed (lib : Libraries) (s : Build) : List UInt8 :=
  overwrite 0 s.content s.layoutOffset (lib.pack s.builder.schema)

/-- The state after a step that has written something. -/
def Build.stopped (lib : Libraries) (s : Build) : Build where
  builder := { s.builder with
    buildSegmentSize := s.layoutOffset + (lib.pack s.builder.schema).length -
      s.builder.buildSegmentStart
    firstWriteDone := true
    isBuildStep := false }
  fd := (((s.fd.setPos s.layoutOffset).write (lib.pack s.builder.schema)).setPos 0).write
    (s.newHeader lib).bytes

theorem stopBuildStep_eq (lib : Libraries) (hstep : s.builder.isBuildStep = true)
    (hstarted : s.builder.isStarted = true) :
    stopBuildStep lib s =
      if s.fd.pos = s.builder.buildSegmentStart ∧ s.builder.firstWriteDone then .ok () s
      else .ok () (s.stopped lib) := by
  change (if s.builder.isBuildStep = false then _ else _ : BuildM Unit) s = _
  rw [if_neg (by rw [hstep]; decide), if_neg (by rw [hstarted]; decide)]
  by_cases hpos : s.fd.pos = s.builder.buildSegmentStart ∧ s.builder.firstWriteDone
  · rw [if_pos hpos, if_pos hpos]
    rfl
  · rw [if_neg hpos, if_neg hpos]
    rfl

theorem stopBuildStep_failed (lib : Libraries) (hstep : s.builder.isBuildStep = false) :
    stopBuildStep lib s = .error .failed s := by
  change (if s.builder.isBuildStep = false then _ else _ : BuildM Unit) s = _
  rw [if_pos hstep]
  rfl

theorem bytes_ne_nil (header : XNNPackCacheHeader) : header.bytes ≠ [] := by
  intro h
  have hlen := XNNPackCacheHeader.length_bytes header
  rw [h] at hlen
  cases hlen

theorem content_stopped (lib : Libraries) (s : Build) :
    (s.stopped lib).content = overwrite 0 (s.listed lib) 0 (s.newHeader lib).bytes := by
  unfold Build.content Build.stopped
  rw [FileDescriptor.content_write]
  change overwrite 0 (FileDescriptor.write _ _).content 0 _ = _
  rw [FileDescriptor.content_write]
  rfl

theorem past_stopped (hpack : lib.pack s.builder.schema ≠ []) :
    (s.stopped lib).fd.past = s.fd.past ++ [s.listed lib] ++ [(s.stopped lib).content] := by
  have hcontent := content_stopped lib s
  rw [hcontent]
  unfold Build.stopped
  rw [FileDescriptor.past_write (bytes_ne_nil _)]
  change (FileDescriptor.write _ _).past ++ [overwrite 0 (FileDescriptor.write _ _).content 0 _] = _
  rw [FileDescriptor.past_write hpack, FileDescriptor.content_write]
  rfl

/-- What `stopped` needs of the state before it. -/
structure Stoppable (lib : Libraries) (s : Build) (entries : List Entry) : Prop where
  isStarted : s.builder.isStarted = true
  baseOffset : s.builder.schema.baseOffset = kBaseOffset
  length : XNNPackCacheHeader.sizeof ≤ s.content.length
  pos : XNNPackCacheHeader.sizeof ≤ s.fd.pos
  reach : s.content.length ≤ s.layoutOffset + (lib.pack s.builder.schema).length
  holds : List.Forall₂ (Holds s.content s.fd.pos) s.builder.schema.buffers entries

theorem header_listed (h : XNNPackCacheHeader.sizeof ≤ s.content.length)
    (hpos : XNNPackCacheHeader.sizeof ≤ s.fd.pos) :
    XNNPackCacheHeader.read (s.listed lib) = s.header :=
  XNNPackCacheHeader.read_overwrite (Nat.le_trans hpos (le_align _)) h

theorem Invariant.stoppable (h : Invariant lib s entries) (hunderway : Underway s)
    (hreach : s.content.length ≤ s.layoutOffset + (lib.pack s.builder.schema).length) :
    Stoppable lib s entries where
  isStarted := h.isStarted
  baseOffset := h.baseOffset
  length := h.header_le
  pos := by
    have hoffset := h.listOffset
    have hpos := hunderway.pos
    rw [kBaseOffset_eq] at hoffset
    unfold XNNPackCacheHeader.sizeof
    omega
  reach := hreach
  holds := by
    have hholds := h.holds
    unfold Build.dataEnd at hholds
    rwa [if_pos hunderway.step] at hholds

theorem header_stopped (lib : Libraries) (s : Build)
    (hlimit : s.layoutOffset + (lib.pack s.builder.schema).length < 2 ^ 64) :
    (s.stopped lib).header = s.newHeader lib := by
  have hfits : (s.newHeader lib).Fits := by
    constructor
    · exact (by decide : XNNPackCacheHeader.kVersion < 2 ^ 64)
    · exact Nat.lt_of_le_of_lt (Nat.le_add_right _ _) hlimit
    · exact Nat.lt_of_le_of_lt (Nat.le_add_left _ _) hlimit
    · exact (by decide : 0 < 256)
  unfold Build.header
  rw [content_stopped]
  exact XNNPackCacheHeader.read_overwrite_bytes hfits _

section
variable (hlib : lib.Faithful)

include hlib

theorem pack_ne_nil (list : BufferList) : lib.pack list ≠ [] :=
  List.ne_nil_of_length_pos (hlib.pack_pos list)

theorem invariant_stopped (h : Stoppable lib s entries)
    (hlimit : s.layoutOffset + (lib.pack s.builder.schema).length < 2 ^ 64) :
    Invariant lib (s.stopped lib) entries := by
  have hpack := pack_ne_nil hlib s.builder.schema
  have hpackPos := hlib.pack_pos s.builder.schema
  have hle : s.fd.pos ≤ s.layoutOffset := le_align _
  have hbase : kBaseOffset ≤ s.layoutOffset := by
    have hmod := align_mod s.fd.pos
    have hpos := h.pos
    unfold Build.layoutOffset at hle ⊢
    rw [kBaseOffset_eq]
    unfold XNNPackCacheHeader.sizeof at hpos
    omega
  have hheader := header_stopped lib s hlimit
  have hlisted : (s.listed lib).length = s.layoutOffset + (lib.pack s.builder.schema).length := by
    have hreach := h.reach
    unfold Build.listed
    rw [length_overwrite hpack]
    omega
  have hcontent : (s.stopped lib).content.length =
      s.layoutOffset + (lib.pack s.builder.schema).length := by
    have hbytes := XNNPackCacheHeader.length_bytes (s.newHeader lib)
    rw [content_stopped, length_overwrite (bytes_ne_nil _), hlisted, hbytes]
    rw [kBaseOffset_eq] at hbase
    unfold XNNPackCacheHeader.sizeof
    omega
  have hend : (s.stopped lib).listEnd = s.layoutOffset + (lib.pack s.builder.schema).length := by
    unfold Build.listEnd
    rw [hheader]
    rfl
  have hholds : List.Forall₂ (Holds (s.stopped lib).content s.layoutOffset)
      s.builder.schema.buffers entries := by
    rw [content_stopped]
    refine h.holds.imp fun _ _ hb => Holds.overwriteHeader ?_ _
    exact hb.overwrite hle _ hle
  have hlistBytes : bufferListBytes (s.stopped lib).content (s.stopped lib).header =
      lib.pack s.builder.schema := by
    rw [hheader, content_stopped]
    unfold bufferListBytes
    rw [slice_overwrite_after]
    · exact slice_overwrite _ _ _ _
    · rw [XNNPackCacheHeader.length_bytes]
      exact Nat.le_trans (by decide) hbase
  have hschema : s.builder.schema.Fits := by
    constructor
    · rw [h.baseOffset]
      decide
    · intro buffer hbuffer
      obtain ⟨entry, _, hb⟩ := forall₂_mem h.holds hbuffer
      have hinside := hb.inside
      omega
  constructor
  · exact h.isStarted
  · rfl
  · exact h.baseOffset
  · rw [hheader]
    rfl
  · rw [hheader]
    rfl
  · rw [hheader]
    exact align_mod _
  · rw [hheader]
    exact hbase
  · rw [hheader]
    exact hpackPos
  · exact Nat.le_of_eq (by rw [hend, hcontent])
  · intro hfalse
    cases hfalse
  · rw [hend, hcontent]
    exact Nat.le_max_left _ _
  · have hdataEnd : (s.stopped lib).dataEnd = s.layoutOffset := by
      unfold Build.dataEnd
      rw [hheader]
      rfl
    rw [hdataEnd]
    exact hholds
  · refine .inl ⟨hcontent.trans hend.symm, fun hfalse => (by cases hfalse),
      s.builder.schema, entries, [], ?_, hschema, h.baseOffset, (List.append_nil _).symm, ?_, ?_,
      fun _ => rfl⟩
    · unfold listOf
      change lib.unpack (bufferListBytes (s.stopped lib).content (s.stopped lib).header) = _
      rw [hlistBytes, hlib.unpack_pack _ hschema]
    · rw [hheader]
      exact hholds
    · rw [hlistBytes, hlib.verify_pack _ hschema]

/-- A step stops with the header on a new list, or nothing was written in it. -/
theorem stopBuildStep_ends (h : Invariant lib s entries) {E : Stop → Build → Prop}
    (hfailed : s.builder.isBuildStep = false → E .failed s)
    (hreach : Underway s → s.content.length ≤ s.layoutOffset + (lib.pack s.builder.schema).length)
    (hlimit : s.layoutOffset + (lib.pack s.builder.schema).length < 2 ^ 64) :
    Ends (stopBuildStep lib) s (fun _ s' => (s' = s ∧ Complete lib s entries) ∨
        Underway s ∧ s' = s.stopped lib ∧ Invariant lib s' entries) E := by
  cases hstep : s.builder.isBuildStep with
  | false =>
    rw [Ends, stopBuildStep_failed lib hstep]
    exact hfailed hstep
  | true =>
    have hstart := (h.step hstep).1
    have heq := stopBuildStep_eq lib hstep h.isStarted
    obtain hcomplete | hunderway := h.state
    · have hpos : s.fd.pos = s.builder.buildSegmentStart := by
        rw [hstart]
        exact hcomplete.pos hstep
      rw [if_pos ⟨hpos, h.firstWriteDone⟩] at heq
      exact ends_of_eq_ok heq (.inl ⟨rfl, hcomplete⟩)
    · have hpos : s.fd.pos ≠ s.builder.buildSegmentStart := by
        rw [hstart]
        exact Nat.ne_of_gt hunderway.pos
      rw [if_neg fun hboth => hpos hboth.1] at heq
      exact ends_of_eq_ok heq (.inr ⟨hunderway, rfl,
          invariant_stopped hlib (h.stoppable hunderway (hreach hunderway)) hlimit⟩)

end

/-! ## Starting a file -/

/-- The header that `Start` writes. -/
def invalidHeader : XNNPackCacheHeader :=
  ⟨XNNPackCacheHeader.kInvalidHeader, XNNPackCacheHeader.sizeof, 0, 0⟩

theorem read_invalidHeader : XNNPackCacheHeader.read invalidHeader.bytes = invalidHeader := by
  decide +kernel

/-- The state in which `Start` stops its first step. -/
def beforeFirstStop (fd : FileDescriptor) : Build where
  builder :=
    { schema := ⟨[], [], kBaseOffset⟩
      capacity := 0
      buildSegmentSize := 0
      buildSegmentStart := XNNPackCacheHeader.sizeof
      firstWriteDone := false
      isBuildStep := true
      isStarted := true }
  fd := ⟨invalidHeader.bytes, XNNPackCacheHeader.sizeof, fd.past ++ [[]] ++ [invalidHeader.bytes]⟩

/-- The state before the first step. -/
def headerWritten (fd : FileDescriptor) : Build where
  builder := { WeightCacheBuilder.new with
    isStarted := true
    schema := ⟨[], [], kBaseOffset⟩ }
  fd := (beforeFirstStop fd).fd

theorem write_invalidHeader (past : List (List UInt8)) :
    FileDescriptor.write ⟨[], 0, past⟩ invalidHeader.bytes =
      ⟨invalidHeader.bytes, XNNPackCacheHeader.sizeof, past ++ [invalidHeader.bytes]⟩ := by
  have hcontent : overwrite 0 [] 0 invalidHeader.bytes = invalidHeader.bytes := by
    rw [overwrite_of_ne_nil (bytes_ne_nil _), List.take_nil, List.length_nil, Nat.sub_zero,
      List.replicate_zero, List.nil_append, List.nil_append, List.drop_nil, List.append_nil]
  have hwrite : FileDescriptor.write ⟨[], 0, past⟩ invalidHeader.bytes =
      ⟨overwrite 0 [] 0 invalidHeader.bytes, 0 + invalidHeader.bytes.length,
        past ++ [overwrite 0 [] 0 invalidHeader.bytes]⟩ := rfl
  rw [hwrite, hcontent, Nat.zero_add, XNNPackCacheHeader.length_bytes]

theorem startBuildStep_headerWritten (fd : FileDescriptor) {E : Stop → Build → Prop} :
    Ends (startBuildStep lib) (headerWritten fd) (fun _ s' => s' = beforeFirstStop fd) E := by
  have hlen : ¬(headerWritten fd).fd.content.length < XNNPackCacheHeader.sizeof :=
    Nat.not_lt.2 (Nat.le_of_eq (XNNPackCacheHeader.length_bytes _).symm)
  have hread : XNNPackCacheHeader.read (headerWritten fd).fd.content = invalidHeader :=
    read_invalidHeader
  refine ends_get ?_
  rw [if_neg (by intro h; cases h), if_neg (by intro h; cases h)]
  refine ends_modify_bind ?_
  rw [if_neg hlen]
  refine ends_modify_bind ?_
  rw [hread]
  -- The invalid header announces no list.
  exact ends_modify_bind (ends_modify rfl)

section
variable {f : PUnit → BuildM Unit} {Q : Unit → Build → Prop} {E : Stop → Build → Prop}

theorem ends_modifyBuilder_bind {g : WeightCacheBuilder → WeightCacheBuilder}
    (h : Ends (f ⟨⟩) ⟨g s.builder, s.fd⟩ Q E) : Ends (modifyBuilder g >>= f) s Q E :=
  h

theorem ends_modifyFile_bind {g : FileDescriptor → FileDescriptor}
    (h : Ends (f ⟨⟩) ⟨s.builder, g s.fd⟩ Q E) : Ends (modifyFile g >>= f) s Q E :=
  h

end

theorem start_ends (fd : FileDescriptor) {E : Stop → Build → Prop} :
    Ends (start lib) ⟨.new, fd⟩ (fun _ s' => s' = (beforeFirstStop fd).stopped lib) E := by
  have hstate : (⟨{ WeightCacheBuilder.new with isStarted := true, schema := ⟨[], [], kBaseOffset⟩ },
      FileDescriptor.write ⟨[], 0, fd.past ++ [[]]⟩ invalidHeader.bytes⟩ : Build) =
      headerWritten fd := by
    rw [write_invalidHeader]
    rfl
  -- With the new builder in place, `refine` would run the whole body.
  generalize hnew : WeightCacheBuilder.new = builder at hstate ⊢
  refine ends_get ?_
  rw [if_neg (by rw [← hnew]; exact Bool.false_ne_true)]
  refine ends_modifyBuilder_bind ?_
  refine ends_modifyFile_bind ?_
  refine ends_modifyFile_bind ?_
  refine ends_modifyBuilder_bind ?_
  have hschema : builder.schema = ⟨[], [], 0⟩ := by
    rw [← hnew]
    rfl
  rw [hschema]
  change Ends (startBuildStep lib >>= fun _ => stopBuildStep lib)
    ⟨{ builder with isStarted := true, schema := ⟨[], [], kBaseOffset⟩ },
      FileDescriptor.write ⟨[], 0, fd.past ++ [[]]⟩ invalidHeader.bytes⟩ _ _
  rw [hstate]
  refine (startBuildStep_headerWritten fd).bind ?_
  rintro ⟨⟩ _ rfl
  have hstop := stopBuildStep_eq lib (s := beforeFirstStop fd) rfl rfl
  rw [if_neg] at hstop
  · exact ends_of_eq_ok hstop rfl
  · rintro ⟨_, hdone⟩
    cases hdone

theorem start_eq (lib : Libraries) (fd : FileDescriptor) :
    start lib ⟨.new, fd⟩ = .ok () ((beforeFirstStop fd).stopped lib) := by
  have hends := ends_iff.1 (@start_ends lib fd (fun _ _ => False))
  cases hstart : start lib ⟨.new, fd⟩ with
  | ok a s' =>
    rw [hends.1 a s' hstart]
  | error e s' => exact (hends.2 e s' hstart).elim

theorem stoppable_first (lib : Libraries) (fd : FileDescriptor) :
    Stoppable lib (beforeFirstStop fd) [] where
  isStarted := rfl
  baseOffset := rfl
  length := Nat.le_of_eq (XNNPackCacheHeader.length_bytes _).symm
  pos := Nat.le_refl _
  reach := by
    change invalidHeader.bytes.length ≤ _
    rw [XNNPackCacheHeader.length_bytes]
    exact Nat.le_trans (le_align _) (Nat.le_add_right _ _)
  holds := .nil

end LiteRt.WeightCache
