import LiteRt.WeightCache.CrashConsistency
import LiteRt.WeightCache.ProviderSteps

/-!
# Runs of the provider

A build on an empty file and any number of build steps. When no step is active, every key
that was inserted is found and its address shows the bytes of its first insertion, and a new
provider finds the same in the file. This needs that a step that inserts a key writes a byte,
and that the last mapping grows to the new end of the file; when a mapping is added instead,
no bytes may start at an offset whose address is at the end of the one before.
-/

namespace LiteRt.WeightCache

open LiteRt.Lib InsertOrderMap List

/-- The list has at least the fingerprints and buffers of another. -/
structure BufferList.Within (list list' : BufferList) : Prop where
  fingerprints : list.fingerprints <+: list'.fingerprints
  buffers : list.buffers <+: list'.buffers
  baseOffset : list.baseOffset = list'.baseOffset

/-- A list with more in it is not packed into less. -/
def Libraries.Growing (lib : Libraries) : Prop :=
  ∀ list list' : BufferList, list.Within list' → (lib.pack list).length ≤ (lib.pack list').length

/-! ## Runs -/

inductive ProviderOp where
  | startBuildStep
  | reserveSpace (size : Nat)
  | lookUpOrInsert (cacheKey : PackIdentifier) (data : List UInt8) (fingerprintId : Int)
  /-- With whether the system can resize a mapping. -/
  | stopBuildStep (canResize : Bool)
  deriving DecidableEq, Repr

/-- A provider, the first insertion of each key so far, how many of them the last stopped step
has saved, and whether a step is active. -/
structure ProviderRun where
  provider : MMapWeightCacheProvider
  inserted : List Entry
  saved : Nat
  active : Bool
  deriving DecidableEq, Repr

namespace ProviderRun

def after {α : Type} (r : ProviderRun) (x : ProviderM α)
    (next : MMapWeightCacheProvider → ProviderRun) : Option ProviderRun :=
  match x r.provider with
  | .ok _ p => some (next p)
  | .error .failed p => some { r with provider := p }
  | .error .aborted _ => none

/-- Calls come in steps: a start, insertions, and a stop. -/
def step (lib : Libraries) (misses : CacheMissHandler) (r : ProviderRun) :
    ProviderOp → Option ProviderRun
  | .startBuildStep =>
    if r.active then none
    else r.after (MMapWeightCacheProvider.startBuildStep lib) fun p => { r with
      provider := p
      active := true }
  | .reserveSpace size =>
    if r.active then r.after (WeightCache.reserveSpace misses size) fun p => { r with provider := p }
    else none
  | .lookUpOrInsert cacheKey data fingerprintId =>
    if r.active then
      r.after (WeightCache.lookUpOrInsert lib misses cacheKey data fingerprintId) fun p => { r with
        provider := p
        inserted := emplace r.inserted cacheKey data }
    else none
  | .stopBuildStep canResize =>
    if r.active then
      r.after (MMapWeightCacheProvider.stopBuildStep lib canResize) fun p => { r with
        provider := p
        saved := r.inserted.length
        active := false }
    else none

/-- A new provider after `StartBuild`. -/
def started (lib : Libraries) (fd : FileDescriptor) : ProviderRun where
  provider := Lib.after (MMapWeightCacheProvider.startBuild lib) (.new fd)
  inserted := []
  saved := 0
  active := false

/-- Where a call writes to can be said in a signed number of 64 bits. -/
def OffsetsFit (lib : Libraries) (r : ProviderRun) : ProviderOp → Prop
  | .lookUpOrInsert cacheKey data fingerprintId =>
    WeightCache.OffsetsFit lib r.provider.build (.append cacheKey data fingerprintId)
  | .stopBuildStep _ => WeightCache.OffsetsFit lib r.provider.build .stopBuildStep
  | _ => True

/-- The position has moved since the step started. -/
def Written (r : ProviderRun) : Prop :=
  r.provider.build.fd.pos ≠ r.provider.build.builder.buildSegmentStart

/-- Where the list of the step will end. -/
def layoutEnd (lib : Libraries) (r : ProviderRun) : Nat :=
  r.provider.build.layoutOffset + (lib.pack r.provider.build.builder.schema).length

/-- A resized mapping reaches to the end of the list. -/
def ResizesEnough (lib : Libraries) (r : ProviderRun) : Prop :=
  ∀ last ∈ r.provider.mmapHandles.getLast?, r.layoutEnd lib ≤ last.offset +
    resizedSize last.size (r.layoutEnd lib - r.provider.build.builder.buildSegmentStart)

/-- A buffer at the start of the step whose offset has an address fits into the last mapping. -/
def ReusesEnough (r : ProviderRun) : Prop :=
  ∀ last ∈ r.provider.mmapHandles.getLast?, ∀ b ∈ r.provider.build.builder.schema.buffers,
    kBaseOffset + b.offset = r.provider.build.builder.buildSegmentStart →
      r.provider.offsetToAddr.contains b.offset = true →
        kBaseOffset + b.offset + b.size ≤ last.offset + last.size

/-- A step that inserts a key writes a byte, and what it writes gets mapped. -/
def StopsMapped (lib : Libraries) (r : ProviderRun) : ProviderOp → Prop
  | .stopBuildStep canResize =>
    (r.saved = r.inserted.length ∨ r.Written) ∧
      (r.Written → if canResize then r.ResizesEnough lib else r.ReusesEnough)
  | _ => True

/-- Steps start when none is active, and the other calls are made in a step. -/
def InPhase (r : ProviderRun) : ProviderOp → Prop
  | .startBuildStep => r.active = false
  | _ => r.active = true

end ProviderRun

def ProviderOp.Fingerprinted (lib : Libraries) : ProviderOp → Prop
  | .lookUpOrInsert _ _ fingerprintId =>
    fingerprintId ≠ 0 ∧ lib.getFingerprint fingerprintId ≠ none
  | _ => True

/-! ## The invariant -/

structure Remembers (lib : Libraries) (r : ProviderRun) : Prop where
  build : Invariant lib r.provider.build r.inserted
  savedLe : r.saved ≤ r.inserted.length
  building : r.active = true → r.provider.build.builder.isBuildStep = true
  idle : r.active = false → r.saved = r.inserted.length ∧ ¬Underway r.provider.build
  checked : ∀ fingerprint ∈ r.provider.build.builder.schema.fingerprints,
    lib.checkFingerprint fingerprint = true
  described : ¬Underway r.provider.build → ∃ (list : BufferList) (rest : List Buffer),
    Described lib r.provider.build list (r.inserted.take r.saved) ∧
      r.provider.build.builder.schema.buffers = list.buffers ++ rest
  segmentSize : r.provider.build.builder.isBuildStep = true →
    r.provider.build.builder.buildSegmentSize = 0
  packed : ∃ list : BufferList, r.provider.build.header.bufferListSize = (lib.pack list).length ∧
      list.Within r.provider.build.builder.schema
  keys : ∀ key, r.provider.cacheKeyToOffset.find? key =
    (r.provider.build.builder.schema.buffers.find? fun b => b.id = key).map
      fun b => ⟨b.offset, b.size⟩
  /-- What is not saved yet is behind the start of the step. -/
  fresh : ∀ b ∈ r.provider.build.builder.schema.buffers.drop r.saved,
    r.provider.build.header.bufferListOffset ≤ kBaseOffset + b.offset
  unmapped : r.provider.mmapHandles = [] → r.provider.offsetToAddr = [] ∧ r.saved = 0
  mapped : r.provider.mmapHandles ≠ [] → ∃ (front : List MMapHandle) (last : MMapHandle),
    r.provider.mmapHandles = front ++ [last] ∧
      Mapped front last r.provider.offsetToAddr r.provider.build.header.bufferListOffset ∧
      ∀ b ∈ r.provider.build.builder.schema.buffers.take r.saved,
        Covered r.provider.mmapHandles r.provider.offsetToAddr b

section
variable {lib : Libraries} {misses : CacheMissHandler} {r r' : ProviderRun}

theorem Remembers.after {α : Type} {x : ProviderM α}
    {next : MMapWeightCacheProvider → ProviderRun} {P : Prop}
    (h : Ends x r.provider (fun _ p => Remembers lib (next p)) fun e _ => e = .aborted ∧ P) :
    (∀ r', r.after x next = some r' → Remembers lib r') ∧ (r.after x next = none → P) := by
  unfold ProviderRun.after
  rw [Ends] at h
  split at h
  · rename_i hok
    rw [hok]
    refine ⟨fun r' hr => ?_, fun hnone => (by cases hnone)⟩
    cases hr
    exact h
  · rename_i herror
    obtain ⟨rfl, hP⟩ := h
    rw [herror]
    exact ⟨fun r' hr => (by cases hr), fun _ => hP⟩

/-! ### When no step is active -/

/-- The file describes all insertions, and its list is the one of the builder. -/
theorem Remembers.described_idle (h : Remembers lib r) (hidle : r.active = false) :
    ∃ list : BufferList, Described lib r.provider.build list r.inserted ∧
      r.provider.build.builder.schema.buffers = list.buffers := by
  obtain ⟨hsaved, hunderway⟩ := h.idle hidle
  obtain ⟨list, rest, hdescribed, hbuffers⟩ := h.described hunderway
  rw [hsaved, take_length] at hdescribed
  refine ⟨list, hdescribed, ?_⟩
  have hlength := h.build.holds.length_eq
  rw [hbuffers, length_append, hdescribed.holds.length_eq] at hlength
  rw [hbuffers, eq_nil_of_length_eq_zero (by omega : rest.length = 0), append_nil]

theorem Remembers.serves_idle (h : Remembers lib r) (hidle : r.active = false) :
    Serves r.provider r.provider.build.builder.schema.buffers where
  keys := h.keys
  covered b hb := by
    have hlength := h.build.holds.length_eq
    obtain ⟨hsaved, _⟩ := h.idle hidle
    by_cases hhandles : r.provider.mmapHandles = []
    · have hzero := (h.unmapped hhandles).2
      have hnil : r.provider.build.builder.schema.buffers = [] :=
        eq_nil_of_length_eq_zero (by omega)
      rw [hnil] at hb
      cases hb
    · obtain ⟨_, _, _, _, hcovered⟩ := h.mapped hhandles
      refine hcovered b ?_
      rwa [take_of_length_le (by omega)]

theorem Remembers.answers (h : Remembers lib r) (hidle : r.active = false) :
    Answers r.provider r.inserted := by
  obtain ⟨list, hdescribed, hbuffers⟩ := h.described_idle hidle
  refine @Serves.answers _ _ _ r.provider.build.header.bufferListOffset (h.serves_idle hidle) ?_
  rw [hbuffers]
  exact hdescribed.holds

/-- A new provider finds the same in the file. -/
theorem Remembers.reloads (h : Remembers lib r) (hidle : r.active = false) {fd : FileDescriptor}
    (hfd : fd.content = r.provider.content) :
    Ends (load lib) (.new fd) (fun _ p => Answers p r.inserted ∧
        ∀ key, p.cacheKeyToOffset.find? key = r.provider.cacheKeyToOffset.find? key)
      fun _ _ => False := by
  obtain ⟨list, hdescribed, hbuffers⟩ := h.described_idle hidle
  refine (hdescribed.load h.build (p := .new fd) hfd).mono ?_ fun _ _ => id
  intro _ p hload
  have hserves := LoadedFrom.serves hdescribed (p := .new fd) hfd rfl hload
  have hcontent : p.content = r.provider.build.content := by
    unfold MMapWeightCacheProvider.content
    rw [hload.build]
    exact hfd
  refine ⟨@Serves.answers _ _ _ r.provider.build.header.bufferListOffset hserves ?_, fun key => ?_⟩
  · rw [hcontent]
    exact hdescribed.holds
  · rw [hserves.keys, h.keys, hbuffers]

/-! ### Starting a step and reserving -/

theorem Remembers.start (h : Remembers lib r) (hidle : r.active = false) :
    Ends (MMapWeightCacheProvider.startBuildStep lib) r.provider (fun _ p => Remembers lib { r with
        provider := p
        active := true })
      fun e _ => e = .aborted ∧ False := by
  have hunderway := (h.idle hidle).2
  refine ends_get (ends_check (fun hfalse => ?_) fun _ => ?_)
  · rw [h.build.isStarted] at hfalse
    cases hfalse
  · cases hstep : r.provider.build.builder.isBuildStep with
    | true =>
      rw [if_pos rfl]
      exact ends_pure ⟨h.build, h.savedLe, fun _ => hstep, fun hfalse => (by cases hfalse), h.checked,
        h.described, h.segmentSize, h.packed, h.keys, h.fresh, h.unmapped, h.mapped⟩
    | false =>
      rw [if_neg Bool.false_ne_true]
      refine ends_onBuilder ((startBuildStep_ends h.build (E := fun _ _ => False) ?_).mono ?_
        fun _ _ => False.elim)
      · intro htrue
        exact Bool.false_ne_true (hstep.symm.trans htrue)
      · rintro _ _ ⟨_, rfl⟩
        obtain ⟨list, rest, hdescribed, hbuffers⟩ := h.described hunderway
        exact ⟨h.build.inStep hstep, h.savedLe, fun _ => rfl, fun hfalse => (by cases hfalse), h.checked,
          fun _ => ⟨list, rest, ⟨hdescribed.length, hdescribed.isListed, hdescribed.baseOffset,
            hdescribed.verify, hdescribed.fingerprints, hdescribed.holds⟩, hbuffers⟩,
          fun _ => rfl, h.packed, h.keys, h.fresh, h.unmapped, h.mapped⟩

theorem Remembers.reserve (h : Remembers lib r) (hactive : r.active = true) (size : Nat) :
    Ends (reserveSpace misses size) r.provider
      (fun _ p => Remembers lib { r with provider := p }) fun e _ => e = .aborted ∧ False := by
  refine ends_get ?_
  rw [if_pos (h.building hactive)]
  refine ends_onBuilder (ends_modify ?_)
  have hunderway : ∀ {capacity : Nat}, ¬Underway
      ⟨{ r.provider.build.builder with capacity := capacity }, r.provider.build.fd⟩ →
      ¬Underway r.provider.build := fun hnot hunderway => hnot ⟨hunderway.step, hunderway.pos⟩
  refine ⟨h.build.reserved _, h.savedLe, h.building, fun hfalse => ?_, h.checked, fun hnot => ?_,
    h.segmentSize, h.packed, h.keys, h.fresh, h.unmapped, h.mapped⟩
  · rw [hactive] at hfalse
    cases hfalse
  · obtain ⟨list, rest, hdescribed, hbuffers⟩ := h.described (hunderway hnot)
    exact ⟨list, rest, ⟨hdescribed.length, hdescribed.isListed, hdescribed.baseOffset,
      hdescribed.verify, hdescribed.fingerprints, hdescribed.holds⟩, hbuffers⟩

/-! ### Inserting -/

/-- A key is known exactly if it was inserted. -/
theorem Remembers.find?_key_eq_none (h : Remembers lib r) {key : PackIdentifier} :
    r.provider.cacheKeyToOffset.find? key = none ↔ find? r.inserted key = none := by
  rw [h.keys, Option.map_eq_none_iff]
  constructor
  · intro hnone
    cases hdata : find? r.inserted key with
    | none => rfl
    | some data =>
      obtain ⟨buffer, hbuffer⟩ := find?_buffer_of_find? h.build.holds hdata
      rw [hbuffer] at hnone
      cases hnone
  · intro hnone
    cases hbuffer : r.provider.build.builder.schema.buffers.find? fun b => decide (b.id = key) with
    | none => rfl
    | some buffer =>
      obtain ⟨data, hdata, _⟩ := find?_of_holds h.build.holds hbuffer
      rw [hdata] at hnone
      cases hnone

/-- The state after an insertion. -/
theorem Remembers.appended (h : Remembers lib r) (hactive : r.active = true)
    {key : PackIdentifier} {data : List UInt8} {fingerprint : UInt64} {fingerprints : List UInt64}
    (hchecked : lib.checkFingerprint fingerprint = true)
    (hfingerprints : fingerprints =
      if fingerprint ∈ r.provider.build.builder.schema.fingerprints then
        r.provider.build.builder.schema.fingerprints
      else r.provider.build.builder.schema.fingerprints ++ [fingerprint])
    {p : MMapWeightCacheProvider} (hp : p = { r.provider with
      build := r.provider.build.appended key data fingerprints
      cacheKeyToOffset := r.provider.cacheKeyToOffset.emplace key
        ⟨align r.provider.build.fd.pos kMinAlignment - kBaseOffset, data.length⟩ }) :
    Remembers lib ⟨p, r.inserted ++ [(key, data)], r.saved, true⟩ := by
  have hstep := h.building hactive
  have hheader := @Invariant.header_appended _ _ _ key data fingerprints h.build hstep
  have htake : (r.inserted ++ [(key, data)]).take r.saved = r.inserted.take r.saved :=
    take_append_of_le_length h.savedLe
  have hbuffers : r.saved ≤ r.provider.build.builder.schema.buffers.length := by
    rw [h.build.holds.length_eq]
    exact h.savedLe
  subst hp
  refine ⟨h.build.appended hstep, ?_, fun _ => hstep, fun hfalse => (by cases hfalse), ?_, ?_,
    h.segmentSize, ?_, ?_, ?_, h.unmapped, fun hhandles => ?_⟩
  · rw [length_append]
    exact Nat.le_trans h.savedLe (Nat.le_add_right _ _)
  · intro f hf
    change f ∈ fingerprints at hf
    rw [hfingerprints] at hf
    split at hf
    · exact h.checked f hf
    · obtain hold | hnew := mem_append.1 hf
      · exact h.checked f hold
      · rw [mem_singleton.1 hnew]
        exact hchecked
  · intro hunderway
    have hpos := (h.build.step hstep).2
    have hle := le_align r.provider.build.fd.pos
    have hmoved : ¬r.provider.build.header.bufferListOffset <
        align r.provider.build.fd.pos kMinAlignment + data.length := by
      intro hlt
      refine hunderway ⟨hstep, ?_⟩
      rw [hheader, pos_appended]
      exact hlt
    -- Nothing was written: the list is still at the end of the file.
    have hdata : data = [] := eq_nil_of_length_eq_zero (by omega)
    obtain ⟨list, rest, hdescribed, hrest⟩ := h.described fun hu => by
      have hupos := hu.pos
      omega
    subst hdata
    rw [htake]
    refine ⟨list, rest ++ [⟨key, align r.provider.build.fd.pos kMinAlignment - kBaseOffset, 0⟩],
      ⟨hdescribed.length, hdescribed.isListed, hdescribed.baseOffset, hdescribed.verify,
        hdescribed.fingerprints, hdescribed.holds⟩, ?_⟩
    change r.provider.build.builder.schema.buffers ++ [_] = _
    rw [hrest, append_assoc]
    rfl
  · obtain ⟨list, hsize, hwithin⟩ := h.packed
    rw [hheader]
    refine ⟨list, hsize, ?_, hwithin.buffers.trans (prefix_append _ _), hwithin.baseOffset⟩
    change list.fingerprints <+: fingerprints
    rw [hfingerprints]
    split
    · exact hwithin.fingerprints
    · exact hwithin.fingerprints.trans (prefix_append _ _)
  · intro key'
    change find? (emplace _ _ _) key' =
      ((r.provider.build.builder.schema.buffers ++ [_]).find? _).map _
    rw [find?_emplace, h.keys, find?_append, find?_singleton]
    cases hfind : r.provider.build.builder.schema.buffers.find? fun b => decide (b.id = key') with
    | some buffer => simp
    | none =>
      by_cases hkey : key = key'
      · simp [hkey]
      · simp [hkey, Ne.symm hkey]
  · intro b hb
    rw [hheader]
    have hdrop := @drop_append_of_le_length _ _
        [⟨key, align r.provider.build.fd.pos kMinAlignment - kBaseOffset, data.length⟩] _ hbuffers
    have hmem : b ∈ r.provider.build.builder.schema.buffers.drop r.saved ++
        [⟨key, align r.provider.build.fd.pos kMinAlignment - kBaseOffset, data.length⟩] := by
      rw [← hdrop]
      exact hb
    obtain hold | hnew := mem_append.1 hmem
    · exact h.fresh b hold
    · have hpos := (h.build.step hstep).2
      have hle := le_align r.provider.build.fd.pos
      rw [mem_singleton.1 hnew]
      dsimp only
      omega
  · obtain ⟨front, last, hlast, hmapped, hcovered⟩ := h.mapped hhandles
    rw [hheader]
    refine ⟨front, last, hlast, hmapped, fun b hb => hcovered b ?_⟩
    have htakeBuffers := @take_append_of_le_length _ _
        [⟨key, align r.provider.build.fd.pos kMinAlignment - kBaseOffset, data.length⟩] _ hbuffers
    rw [← htakeBuffers]
    exact hb

theorem Remembers.insert (hlib : lib.Faithful) (h : Remembers lib r) (hactive : r.active = true)
    {key : PackIdentifier} {data : List UInt8} {fingerprintId : Int}
    (hfits : r.OffsetsFit lib (.lookUpOrInsert key data fingerprintId)) :
    Ends (lookUpOrInsert lib misses key data fingerprintId) r.provider
      (fun _ p => Remembers lib { r with
        provider := p
        inserted := emplace r.inserted key data })
      fun e _ => e = .aborted ∧ (fingerprintId = 0 ∨ lib.getFingerprint fingerprintId = none) := by
  have hstep := h.building hactive
  have hlimit : align r.provider.build.fd.pos kMinAlignment + data.length < 2 ^ 63 := hfits
  refine ends_get ?_
  cases hkey : r.provider.cacheKeyToOffset.find? key with
  | some location =>
    refine ends_pure ?_
    cases hdata : find? r.inserted key with
    | none =>
      rw [h.find?_key_eq_none.2 hdata] at hkey
      cases hkey
    | some old =>
      rw [emplace_of_find?_some hdata]
      exact h
  | none =>
    rw [emplace_of_find?_none (h.find?_key_eq_none.1 hkey), if_pos hstep]
    have hbuilder : Ends (onBuilder (append lib key data fingerprintId)) r.provider
        (fun location p =>
          location = ⟨align r.provider.build.fd.pos kMinAlignment - kBaseOffset, data.length⟩ ∧
            ∃ fingerprint, lib.getFingerprint fingerprintId = some fingerprint ∧
              p = { r.provider with
                build := r.provider.build.appended key data
                  (if fingerprint ∈ r.provider.build.builder.schema.fingerprints then
                    r.provider.build.builder.schema.fingerprints
                  else r.provider.build.builder.schema.fingerprints ++ [fingerprint]) })
        (fun e _ => e = .aborted ∧
          (fingerprintId = 0 ∨ lib.getFingerprint fingerprintId = none)) := by
      refine ends_onBuilder ((append_ends h.build hstep (by omega) key data fingerprintId).mono ?_
        fun _ _ hfailed => ⟨hfailed.1, hfailed.2.2.2⟩)
      rintro location build ⟨rfl, fingerprint, hfingerprint, rfl⟩
      exact ⟨rfl, fingerprint, hfingerprint, rfl⟩
    refine hbuilder.bind ?_
    rintro location p ⟨hlocation, fingerprint, hfingerprint, hp⟩
    beta_reduce
    rw [if_neg]
    · refine ends_modify_bind (ends_pure ?_)
      rw [hactive, hlocation, hp]
      exact h.appended hactive (hlib.checkFingerprint _ _ hfingerprint) rfl rfl
    · intro hinvalid
      rw [hlocation] at hinvalid
      unfold BufferLocation.invalid at hinvalid
      rw [BufferLocation.mk.injEq] at hinvalid
      omega

/-! ### Stopping a step -/

/-- After a load of a file that describes all insertions. -/
theorem remembers_loaded {p p' : MMapWeightCacheProvider} {entries : List Entry}
    {list : BufferList} (hbuild : Invariant lib p.build entries)
    (hunderway : ¬Underway p.build)
    (hchecked : ∀ fingerprint ∈ p.build.builder.schema.fingerprints,
      lib.checkFingerprint fingerprint = true)
    (hsegment : p.build.builder.isBuildStep = true → p.build.builder.buildSegmentSize = 0)
    (hpacked : ∃ list : BufferList, p.build.header.bufferListSize = (lib.pack list).length ∧
      list.Within p.build.builder.schema)
    (hdescribed : Described lib p.build list entries)
    (hbuffers : p.build.builder.schema.buffers = list.buffers)
    (haddresses : p.offsetToAddr = []) (hload : LoadedFrom lib p p') :
    Remembers lib ⟨p', entries, entries.length, false⟩ := by
  have hserves := LoadedFrom.serves hdescribed rfl haddresses hload
  have hmapped := LoadedFrom.mapped hdescribed rfl haddresses hload hbuild
  have hhandles := hload.handles
  have hlength := hbuild.holds.length_eq
  obtain ⟨build, keys, handles, base, addresses, minOffset, mappings⟩ := p'
  obtain rfl : build = p.build := hload.build
  refine ⟨hbuild, Nat.le_refl _, fun hfalse => (by cases hfalse), fun _ => ⟨rfl, hunderway⟩,
    hchecked, fun _ => ⟨list, [], ?_, ?_⟩, hsegment, hpacked, ?_, ?_, ?_, fun _ => ?_⟩
  · rw [take_length]
    exact hdescribed
  · rw [append_nil]
    exact hbuffers
  · intro key
    change _ = (p.build.builder.schema.buffers.find? _).map _
    rw [hbuffers]
    exact hserves.keys key
  · intro b hb
    change b ∈ p.build.builder.schema.buffers.drop entries.length at hb
    rw [drop_eq_nil_of_le (Nat.le_of_eq hlength)] at hb
    cases hb
  · intro hnil
    rw [hhandles] at hnil
    cases hnil
  · refine ⟨[], _, hhandles, hmapped, fun b hb => hserves.covered b ?_⟩
    rw [← hbuffers]
    exact mem_of_mem_take hb

/-- The state once the mappings show the list of a step. -/
theorem remembers_mapped {p : MMapWeightCacheProvider} {entries : List Entry}
    (hbuild : Invariant lib p.build entries) (hidle : p.build.builder.isBuildStep = false)
    (hchecked : ∀ fingerprint ∈ p.build.builder.schema.fingerprints,
      lib.checkFingerprint fingerprint = true)
    (hpacked : p.build.header.bufferListSize = (lib.pack p.build.builder.schema).length)
    (hkeys : ∀ key, p.cacheKeyToOffset.find? key =
      (p.build.builder.schema.buffers.find? fun b => b.id = key).map fun b => ⟨b.offset, b.size⟩)
    {front : List MMapHandle} {last : MMapHandle} (hhandles : p.mmapHandles = front ++ [last])
    (hmapped : Mapped front last p.offsetToAddr p.build.header.bufferListOffset)
    (hcovered : ∀ b ∈ p.build.builder.schema.buffers, Covered (front ++ [last]) p.offsetToAddr b) :
    Remembers lib ⟨p, entries, entries.length, false⟩ := by
  have hlength := hbuild.holds.length_eq
  refine ⟨hbuild, Nat.le_refl _, fun hfalse => (by cases hfalse), fun _ => ⟨rfl, ?_⟩,
    hchecked, fun _ => ⟨p.build.builder.schema, [], ?_, (append_nil _).symm⟩, ?_,
    ⟨p.build.builder.schema, hpacked, prefix_refl _, prefix_refl _, rfl⟩, hkeys, ?_, ?_,
    fun _ => ⟨front, last, hhandles, hmapped, ?_⟩⟩
  · intro hunderway
    exact Bool.false_ne_true (hidle.symm.trans hunderway.step)
  · rw [take_length]
    exact hbuild.described hidle hchecked
  · intro htrue
    exact absurd (hidle.symm.trans htrue) Bool.false_ne_true
  · intro b hb
    change b ∈ p.build.builder.schema.buffers.drop entries.length at hb
    rw [drop_eq_nil_of_le (Nat.le_of_eq hlength)] at hb
    cases hb
  · intro hnil
    change p.mmapHandles = [] at hnil
    rw [hhandles] at hnil
    exact absurd hnil (by simp)
  · intro b hb
    change Covered p.mmapHandles _ _
    rw [hhandles]
    exact hcovered b (mem_of_mem_take hb)

/-- A step in which nothing was written. -/
theorem Remembers.stop_unwritten (h : Remembers lib r) (hactive : r.active = true)
    (hunderway : ¬Underway r.provider.build) (hsaved : r.saved = r.inserted.length)
    (canResize : Bool) :
    Ends (loadLastBuildStep lib canResize) r.provider
      (fun _ p => Remembers lib ⟨p, r.inserted, r.inserted.length, false⟩)
      fun e _ => e = .aborted ∧ False := by
  refine ends_get ?_
  by_cases hhandles : r.provider.mmapHandles = []
  · obtain ⟨list, rest, hdescribed, hbuffers⟩ := h.described hunderway
    rw [hsaved, take_length] at hdescribed
    have hlength := h.build.holds.length_eq
    rw [hbuffers, length_append, hdescribed.holds.length_eq] at hlength
    rw [eq_nil_of_length_eq_zero (by omega : rest.length = 0), append_nil] at hbuffers
    rw [if_pos hhandles]
    refine (hdescribed.load h.build rfl).mono ?_ fun _ _ herror => herror
    exact fun _ p hload => remembers_loaded h.build hunderway h.checked h.segmentSize h.packed
      hdescribed hbuffers (h.unmapped hhandles).1 hload
  · rw [if_neg hhandles, if_pos (h.segmentSize (h.building hactive))]
    refine ends_pure ⟨h.build, Nat.le_refl _, fun hfalse => (by cases hfalse),
      fun _ => ⟨rfl, hunderway⟩, h.checked, ?_, h.segmentSize, h.packed, h.keys, ?_, ?_, ?_⟩
    · rw [← hsaved]
      exact h.described
    · rw [← hsaved]
      exact h.fresh
    · exact fun hnil => absurd hnil hhandles
    · rw [← hsaved]
      exact h.mapped

/-- The provider once the builder has written the list of the step. -/
def ProviderRun.stopped (lib : Libraries) (r : ProviderRun) : MMapWeightCacheProvider :=
  { r.provider with build := r.provider.build.stopped lib }

section
variable (hunderway : Underway r.provider.build)
  (hnext : Invariant lib (r.provider.build.stopped lib) r.inserted)
  (hlimit : r.layoutEnd lib < 2 ^ 64)

theorem ends_before_list (hnext : Invariant lib (r.provider.build.stopped lib) r.inserted)
    (hlimit : r.layoutEnd lib < 2 ^ 64) {b : Buffer}
    (hb : b ∈ r.provider.build.builder.schema.buffers) :
    kBaseOffset + b.offset + b.size ≤ r.provider.build.layoutOffset := by
  have hheader := header_stopped lib r.provider.build hlimit
  have hholds := hnext.holds
  have hend : (r.provider.build.stopped lib).dataEnd = r.provider.build.layoutOffset := by
    unfold Build.dataEnd
    rw [hheader]
    rfl
  rw [hend] at hholds
  obtain ⟨entry, _, hinside⟩ := forall₂_mem hholds hb
  exact hinside.inside

theorem shows_header {front : List MMapHandle} {last segment : MMapHandle}
    (h : ((front ++ [last]).headD .unmapped).Shows 0 XNNPackCacheHeader.sizeof)
    (hoffset : segment.offset = last.offset)
    (hend : XNNPackCacheHeader.sizeof ≤ last.offset + segment.size) :
    ((front ++ [segment]).headD .unmapped).Shows 0 XNNPackCacheHeader.sizeof := by
  cases front with
  | nil =>
    have hlast : last.Shows 0 XNNPackCacheHeader.sizeof := h
    change segment.Shows 0 XNNPackCacheHeader.sizeof
    refine ⟨?_, ?_⟩
    · rw [hoffset]
      exact hlast.1
    · rw [hoffset, Nat.zero_add]
      exact hend
  | cons first front => exact h

include hunderway hnext hlimit

/-- The last mapping is resized. -/
theorem Remembers.stop_grown (h : Remembers lib r) (hhandles : r.provider.mmapHandles ≠ [])
    (hsize : (r.stopped lib).build.builder.buildSegmentSize ≠ 0)
    (hresizes : r.ResizesEnough lib) :
    Ends (loadLastBuildStep lib true) (r.stopped lib)
      (fun _ p => Remembers lib ⟨p, r.inserted, r.inserted.length, false⟩)
      fun e _ => e = .aborted ∧ False := by
  obtain ⟨front, last, hlast, hmapped, hcovered⟩ := h.mapped hhandles
  have hheader := header_stopped lib r.provider.build hlimit
  have hdescribed := hnext.described rfl h.checked
  have hbefore : ∀ b ∈ r.provider.build.builder.schema.buffers,
      kBaseOffset + b.offset + b.size ≤ r.provider.build.layoutOffset :=
    fun _ hb => ends_before_list hnext hlimit hb
  have hpos := hunderway.pos
  have hle : r.provider.build.fd.pos ≤ r.provider.build.layoutOffset := le_align _
  have hlength := hnext.header_le
  have hreach := hresizes last (by rw [hlast]; simp)
  have hend := hnext.length
  generalize hsegment : ({ last with
    size := resizedSize last.size (r.stopped lib).build.builder.buildSegmentSize } :
      MMapHandle) = segment
  have hoffset : segment.offset = last.offset := by rw [← hsegment]
  have hmapping : segment.mapping = last.mapping := by rw [← hsegment]
  have hsegmentEnd : r.layoutEnd lib ≤ last.offset + segment.size := by
    rw [← hsegment]
    exact hreach
  have hlayout : r.provider.build.layoutOffset ≤ last.offset + segment.size :=
    Nat.le_trans (Nat.le_add_right _ _) hsegmentEnd
  have hcontent : XNNPackCacheHeader.sizeof ≤ last.offset + segment.size := by
    have hbase := h.build.listOffset
    rw [kBaseOffset_eq] at hbase
    unfold XNNPackCacheHeader.sizeof
    omega
  have hshows : segment.Shows (r.stopped lib).build.header.bufferListOffset
      (r.stopped lib).build.header.bufferListSize := by
    change segment.Shows (r.provider.build.stopped lib).header.bufferListOffset
      (r.provider.build.stopped lib).header.bufferListSize
    rw [hheader]
    refine ⟨?_, ?_⟩
    · rw [hoffset]
      exact Nat.le_trans hmapped.offset (Nat.le_trans (Nat.le_of_lt hpos) hle)
    · rw [hoffset]
      exact hsegmentEnd
  refine (@loadLastBuildStep_grown _ (r.stopped lib) r.provider.build.builder.schema _ _ _ hlast
      hsize hmapped.header hlength hend hdescribed.verify hdescribed.isListed _ hsegment.symm
      hshows).mono ?_ fun _ _ herror => herror
  rintro _ _ rfl
  rw [h.build.baseOffset]
  refine remembers_mapped hnext rfl h.checked ?_ h.keys rfl ?_ fun b hb => ?_
  · change (r.provider.build.stopped lib).header.bufferListSize = _
    rw [hheader]
    rfl
  · change Mapped front segment _ (r.provider.build.stopped lib).header.bufferListOffset
    rw [hheader]
    refine hmapped.listed (shows_header hmapped.header hoffset hcontent) ?_
      (Nat.lt_of_lt_of_le hpos hle)
      fun b hb => Nat.le_trans (Nat.le_add_right _ _) (hbefore b hb)
    rw [hoffset]
    exact hmapped.offset
  · have hbEnd := Nat.le_trans (hbefore b hb) hlayout
    have hsplit : b ∈ r.provider.build.builder.schema.buffers.take r.saved ++
        r.provider.build.builder.schema.buffers.drop r.saved := by
      rw [take_append_drop]
      exact hb
    obtain hold | hnew := mem_append.1 hsplit
    · have hcov := hcovered b hold
      rw [hlast] at hcov
      exact hcov.grown hbEnd hmapping hoffset
    · exact hmapped.covered_grown (mem_of_mem_drop hnew) (h.fresh b hnew) hbEnd hmapping hoffset

theorem Remembers.stop_added (h : Remembers lib r) (hhandles : r.provider.mmapHandles ≠ [])
    (hsize : (r.stopped lib).build.builder.buildSegmentSize ≠ 0)
    (hreuses : r.ReusesEnough) :
    Ends (loadLastBuildStep lib false) (r.stopped lib)
      (fun _ p => Remembers lib ⟨p, r.inserted, r.inserted.length, false⟩)
      fun e _ => e = .aborted ∧ False := by
  obtain ⟨front, last, hlast, hmapped, hcovered⟩ := h.mapped hhandles
  have hheader := header_stopped lib r.provider.build hlimit
  have hdescribed := hnext.described rfl h.checked
  have hbefore : ∀ b ∈ r.provider.build.builder.schema.buffers,
      kBaseOffset + b.offset + b.size ≤ r.provider.build.layoutOffset :=
    fun _ hb => ends_before_list hnext hlimit hb
  have hpos := hunderway.pos
  have hle : r.provider.build.fd.pos ≤ r.provider.build.layoutOffset := le_align _
  have hlength := hnext.header_le
  have hfits := hreuses last (by rw [hlast]; simp)
  have hend := hnext.length
  have hstart := (h.build.step hunderway.step).1
  have hcontentEnd : r.layoutEnd lib ≤ (r.provider.build.stopped lib).content.length := by
    unfold Build.listEnd at hend
    rw [hheader] at hend
    exact hend
  have hlayout : r.provider.build.layoutOffset ≤ r.layoutEnd lib := Nat.le_add_right _ _
  generalize hsegment : (⟨r.provider.mappings, r.provider.build.builder.buildSegmentStart,
    (r.provider.build.stopped lib).content.length -
      r.provider.build.builder.buildSegmentStart⟩ : MMapHandle) = segment
  have hoffset : segment.offset = r.provider.build.header.bufferListOffset := by
    rw [← hsegment]
    exact hstart
  have hsegmentEnd : segment.offset + segment.size =
      (r.provider.build.stopped lib).content.length := by
    rw [← hsegment]
    dsimp only
    omega
  have hshows : segment.Shows (r.stopped lib).build.header.bufferListOffset
      (r.stopped lib).build.header.bufferListSize := by
    change segment.Shows (r.provider.build.stopped lib).header.bufferListOffset
      (r.provider.build.stopped lib).header.bufferListSize
    refine ⟨?_, ?_⟩
    · rw [hoffset, hheader]
      exact Nat.le_trans (Nat.le_of_lt hpos) hle
    · rw [hsegmentEnd]
      exact hend
  have hstartLt : (r.stopped lib).build.builder.buildSegmentStart < (r.stopped lib).content.length := by
    change r.provider.build.builder.buildSegmentStart <
      (r.provider.build.stopped lib).content.length
    omega
  refine (@loadLastBuildStep_added _ (r.stopped lib) r.provider.build.builder.schema _ _ _ hlast
      hsize hmapped.header hlength hend hdescribed.verify hdescribed.isListed _ hstartLt
      hsegment.symm hshows).mono ?_ fun _ _ herror => herror
  rintro _ _ rfl
  rw [h.build.baseOffset]
  refine remembers_mapped hnext rfl h.checked ?_ h.keys rfl ?_ fun b hb => ?_
  · change (r.provider.build.stopped lib).header.bufferListSize = _
    rw [hheader]
    rfl
  · change Mapped (front ++ [last]) segment _ (r.provider.build.stopped lib).header.bufferListOffset
    rw [hheader]
    refine hmapped.listed ?_ (Nat.le_of_eq hoffset) (Nat.lt_of_lt_of_le hpos hle)
      fun b hb => Nat.le_trans (Nat.le_add_right _ _) (hbefore b hb)
    have hfirst := hmapped.header
    cases front with
    | nil => exact hfirst
    | cons first front => exact hfirst
  · have hbEnd : kBaseOffset + b.offset + b.size ≤ segment.offset + segment.size := by
      have hb' := hbefore b hb
      omega
    have hfitsAt := hfits b hb
    have hsplit : b ∈ r.provider.build.builder.schema.buffers.take r.saved ++
        r.provider.build.builder.schema.buffers.drop r.saved := by
      rw [take_append_drop]
      exact hb
    obtain hold | hnew := mem_append.1 hsplit
    · have hcov := hcovered b hold
      rw [hlast] at hcov
      exact hcov.added
    · refine hmapped.covered_added (mem_of_mem_drop hnew) (h.fresh b hnew) hoffset hbEnd ?_
      intro hat hknown
      exact hfitsAt (hat.trans hstart.symm) hknown

end

theorem Remembers.stop (hlib : lib.Faithful) (hgrowing : lib.Growing) (h : Remembers lib r)
    (hactive : r.active = true) {canResize : Bool}
    (hfits : r.OffsetsFit lib (.stopBuildStep canResize))
    (hmapped : r.StopsMapped lib (.stopBuildStep canResize)) :
    Ends (MMapWeightCacheProvider.stopBuildStep lib canResize) r.provider
      (fun _ p => Remembers lib { r with
        provider := p
        saved := r.inserted.length
        active := false })
      fun e _ => e = .aborted ∧ False := by
  have hstep := h.building hactive
  have hlimit : r.layoutEnd lib < 2 ^ 63 := hfits
  obtain ⟨hwritten, hmaps⟩ := hmapped
  have hreach : Underway r.provider.build → r.provider.build.content.length ≤ r.layoutEnd lib := by
    intro hunderway
    obtain ⟨list, hsize, hwithin⟩ := h.packed
    have hpack := hgrowing _ _ hwithin
    have hcontent := h.build.reach
    have hend : r.provider.build.dataEnd = r.provider.build.fd.pos := if_pos hstep
    have hle : r.provider.build.fd.pos ≤ r.provider.build.layoutOffset := le_align _
    have hpos := hunderway.pos
    unfold Build.listEnd at hcontent
    unfold ProviderRun.layoutEnd
    omega
  have hbuilder : Ends (onBuilder (stopBuildStep lib)) r.provider
      (fun _ p => (p = r.provider ∧ Complete lib r.provider.build r.inserted) ∨
        Underway r.provider.build ∧ p = r.stopped lib ∧ Invariant lib p.build r.inserted)
      fun e _ => e = .aborted ∧ False := by
    refine ends_onBuilder ((stopBuildStep_ends hlib h.build (E := fun _ _ => False) ?_ hreach
      (by change r.layoutEnd lib < 2 ^ 64; omega)).mono ?_ fun _ _ => False.elim)
    · intro hfalse
      exact Bool.false_ne_true (hfalse.symm.trans hstep)
    · rintro _ build (⟨rfl, hcomplete⟩ | ⟨hunderway, rfl, hnext⟩)
      · exact .inl ⟨rfl, hcomplete⟩
      · exact .inr ⟨hunderway, rfl, hnext⟩
  have hstart := (h.build.step hstep).1
  refine hbuilder.bind ?_
  rintro _ p (⟨rfl, hcomplete⟩ | ⟨hunderway, rfl, hnext⟩)
  · have hpos := hcomplete.pos hstep
    refine h.stop_unwritten hactive ?_ ?_ canResize
    · intro hunderway
      have hlt := hunderway.pos
      omega
    · exact hwritten.resolve_right fun hmoved => hmoved (hpos.trans hstart.symm)
  · have hpos := hunderway.pos
    have hmoved : r.Written := by
      intro heq
      omega
    have hsize : (r.stopped lib).build.builder.buildSegmentSize ≠ 0 := by
      change r.layoutEnd lib - r.provider.build.builder.buildSegmentStart ≠ 0
      have hle : r.provider.build.fd.pos ≤ r.provider.build.layoutOffset := le_align _
      have hpack := hlib.pack_pos r.provider.build.builder.schema
      unfold ProviderRun.layoutEnd
      omega
    by_cases hhandles : r.provider.mmapHandles = []
    · refine ends_get ?_
      have hnil : (r.stopped lib).mmapHandles = [] := hhandles
      rw [if_pos hnil]
      have hdescribed := hnext.described rfl h.checked
      have hheader := header_stopped lib r.provider.build (by
        change r.layoutEnd lib < 2 ^ 64
        omega)
      refine (hdescribed.load hnext (p := r.stopped lib) rfl).mono ?_ fun _ _ herror => herror
      intro _ p hload
      refine remembers_loaded hnext (fun hu => ?_) h.checked (fun hu => ?_) ⟨_, ?_,
        prefix_refl _, prefix_refl _, rfl⟩ hdescribed rfl (h.unmapped hhandles).1 hload
      · cases hu.step
      · cases hu
      · change (r.provider.build.stopped lib).header.bufferListSize = _
        rw [hheader]
        rfl
    · have hmaps' := hmaps hmoved
      cases canResize with
      | true => exact h.stop_grown hunderway hnext (by omega) hhandles hsize hmaps'
      | false => exact h.stop_added hunderway hnext (by omega) hhandles hsize hmaps'

/-! ## All runs -/

/-- A call keeps the invariant and aborts only if the fingerprint of an insertion is unknown. -/
theorem Remembers.step (hlib : lib.Faithful) (hgrowing : lib.Growing) (h : Remembers lib r)
    {op : ProviderOp} (hfits : r.OffsetsFit lib op) (hmapped : r.StopsMapped lib op) :
    (∀ r', r.step lib misses op = some r' → Remembers lib r') ∧
      (r.InPhase op → op.Fingerprinted lib → r.step lib misses op ≠ none) := by
  cases op with
  | startBuildStep =>
    unfold ProviderRun.step
    dsimp only
    by_cases hactive : r.active = true
    · rw [if_pos hactive]
      refine ⟨fun r' hr => (by cases hr), fun hphase => ?_⟩
      exact absurd (hactive.symm.trans hphase) (by decide)
    · rw [if_neg hactive]
      have hafter := Remembers.after (h.start (Bool.eq_false_iff.2 hactive))
      exact ⟨hafter.1, fun _ _ => hafter.2⟩
  | reserveSpace size =>
    unfold ProviderRun.step
    dsimp only
    by_cases hactive : r.active = true
    · rw [if_pos hactive]
      have hafter := Remembers.after (@Remembers.reserve _ misses _ h hactive size)
      exact ⟨hafter.1, fun _ _ => hafter.2⟩
    · rw [if_neg hactive]
      exact ⟨fun r' hr => (by cases hr), fun hphase => absurd hphase hactive⟩
  | lookUpOrInsert key data fingerprintId =>
    unfold ProviderRun.step
    dsimp only
    by_cases hactive : r.active = true
    · rw [if_pos hactive]
      have hafter := Remembers.after (@Remembers.insert _ misses _ hlib h hactive _ _ _ hfits)
      refine ⟨hafter.1, fun _ hknown hnone => ?_⟩
      obtain hzero | hunknown := hafter.2 hnone
      · exact hknown.1 hzero
      · exact hknown.2 hunknown
    · rw [if_neg hactive]
      exact ⟨fun r' hr => (by cases hr), fun hphase => absurd hphase hactive⟩
  | stopBuildStep canResize =>
    unfold ProviderRun.step
    dsimp only
    by_cases hactive : r.active = true
    · rw [if_pos hactive]
      have hafter := Remembers.after (h.stop hlib hgrowing hactive hfits hmapped)
      exact ⟨hafter.1, fun _ _ => hafter.2⟩
    · rw [if_neg hactive]
      exact ⟨fun r' hr => (by cases hr), fun hphase => absurd hphase hactive⟩

theorem started_eq (lib : Libraries) (fd : FileDescriptor) : ProviderRun.started lib fd =
    ⟨{ MMapWeightCacheProvider.new fd with build := (beforeFirstStop fd).stopped lib }, [], 0,
      false⟩ := by
  have hstart : MMapWeightCacheProvider.startBuild lib (.new fd) = .ok ()
      { MMapWeightCacheProvider.new fd with build := (beforeFirstStop fd).stopped lib } := by
    unfold MMapWeightCacheProvider.startBuild onBuilder MMapWeightCacheProvider.new
    simp only [start_eq]
  unfold ProviderRun.started Lib.after
  rw [hstart]

theorem Remembers.started (hlib : lib.Faithful) {fd : FileDescriptor}
    (hfits : OffsetsFit lib (beforeFirstStop fd) .stopBuildStep) :
    Remembers lib (.started lib fd) := by
  have hlimit : (beforeFirstStop fd).layoutOffset +
      (lib.pack (beforeFirstStop fd).builder.schema).length < 2 ^ 63 := hfits
  have hinv := invariant_stopped hlib (stoppable_first lib fd) (by omega)
  have hheader := header_stopped lib (beforeFirstStop fd) (by omega)
  have hnone : ∀ fingerprint ∈ ((beforeFirstStop fd).stopped lib).builder.schema.fingerprints,
      lib.checkFingerprint fingerprint = true := fun _ hf => by cases hf
  rw [started_eq]
  refine ⟨hinv, Nat.le_refl _, fun hfalse => (by cases hfalse), fun _ => ⟨rfl, fun hu => ?_⟩,
    hnone, fun _ => ⟨_, [], hinv.described rfl hnone, rfl⟩, fun hfalse => (by cases hfalse),
    ⟨_, ?_, prefix_refl _, prefix_refl _, rfl⟩, fun _ => rfl, fun _ hb => ?_,
    fun _ => ⟨rfl, rfl⟩, fun hne => absurd rfl hne⟩
  · cases hu.step
  · change ((beforeFirstStop fd).stopped lib).header.bufferListSize = _
    rw [hheader]
    rfl
  · cases hb

end

/-- Whenever no step is active, every key that was inserted is answered with the bytes of its
first insertion, and a new provider that loads the file answers the same. No call aborts but
an insertion whose fingerprint is not known. -/
theorem stored_is_returned {lib : Libraries} (hlib : lib.Faithful) (hgrowing : lib.Growing)
    {misses : CacheMissHandler} {fd : FileDescriptor}
    (hfits : OffsetsFit lib (beforeFirstStop fd) .stopBuildStep)
    {ops : List ProviderOp} {r : ProviderRun}
    (hrun : Run (fun (r : ProviderRun) op => r.OffsetsFit lib op ∧ r.StopsMapped lib op)
      (ProviderRun.step lib misses) (.started lib fd) ops r) :
    (r.active = false → Answers r.provider r.inserted ∧
      ∀ fd' : FileDescriptor, fd'.content = r.provider.content →
        Ends (load lib) (.new fd')
          (fun _ p => Answers p r.inserted ∧
            ∀ key, p.cacheKeyToOffset.find? key = r.provider.cacheKeyToOffset.find? key)
          fun _ _ => False) ∧
      ∀ op, r.OffsetsFit lib op → r.StopsMapped lib op → r.InPhase op → op.Fingerprinted lib →
        r.step lib misses op ≠ none := by
  have hremembers := hrun.invariant (P := Remembers lib)
    (fun _ _ r' hallowed hstep h => (h.step hlib hgrowing hallowed.1 hallowed.2).1 r' hstep)
    (Remembers.started hlib hfits)
  refine ⟨fun hidle => ⟨hremembers.answers hidle, fun _ hfd => hremembers.reloads hidle hfd⟩, ?_⟩
  exact fun op hfits hmapped => (hremembers.step hlib hgrowing hfits hmapped).2

/-! ## Examples -/

theorem length_tableNumbers (list : BufferList) : (tableNumbers list).length =
    2 * list.fingerprints.length + 1 + 5 * list.buffers.length := by
  unfold tableNumbers
  have hfingerprints : (list.fingerprints.flatMap fun fingerprint =>
      [1, fingerprint.toNat]).length = 2 * list.fingerprints.length := by
    simp [length_flatMap, Nat.mul_comm]
  have hbuffers : (list.buffers.flatMap bufferNumbers).length = 5 * list.buffers.length := by
    simp [length_flatMap, bufferNumbers, Nat.mul_comm]
  rw [length_append, length_cons, hfingerprints, hbuffers]
  omega

theorem wordLibraries_growing : wordLibraries.Growing := by
  intro list list' hwithin
  have hfingerprints := hwithin.fingerprints.length_le
  have hbuffers := hwithin.buffers.length_le
  have hlength : ∀ list : BufferList, (packWords list).length =
      8 * ((tableNumbers list).length + 1) := by
    intro list
    unfold packWords packNumbers
    rw [length_flatMap_wordBytes]
    simp [length_flatMap]
    omega
  change (packWords list).length ≤ (packWords list').length
  rw [hlength, hlength, length_tableNumbers, length_tableNumbers]
  omega

/-- Outside of steps nothing is kept. -/
def noMisses : CacheMissHandler where
  reserve _ := pure ()
  append _ _ _ := throw .aborted

namespace ProviderRun

instance (lib : Libraries) (r : ProviderRun) (op : ProviderOp) : Decidable (r.OffsetsFit lib op) :=
  match op with
  | .lookUpOrInsert cacheKey data fingerprintId => inferInstanceAs
      (Decidable (WeightCache.OffsetsFit lib r.provider.build (.append cacheKey data fingerprintId)))
  | .stopBuildStep _ =>
    inferInstanceAs (Decidable (WeightCache.OffsetsFit lib r.provider.build .stopBuildStep))
  | .startBuildStep => isTrue trivial
  | .reserveSpace _ => isTrue trivial

instance (r : ProviderRun) : Decidable r.Written :=
  inferInstanceAs (Decidable (_ ≠ _))

instance (lib : Libraries) (r : ProviderRun) : Decidable (r.ResizesEnough lib) :=
  inferInstanceAs (Decidable (∀ last ∈ r.provider.mmapHandles.getLast?, r.layoutEnd lib ≤
    last.offset +
      resizedSize last.size (r.layoutEnd lib - r.provider.build.builder.buildSegmentStart)))

instance (r : ProviderRun) : Decidable r.ReusesEnough :=
  inferInstanceAs (Decidable (∀ last ∈ r.provider.mmapHandles.getLast?,
    ∀ b ∈ r.provider.build.builder.schema.buffers,
      kBaseOffset + b.offset = r.provider.build.builder.buildSegmentStart →
        r.provider.offsetToAddr.contains b.offset = true →
          kBaseOffset + b.offset + b.size ≤ last.offset + last.size))

instance (lib : Libraries) (r : ProviderRun) (op : ProviderOp) : Decidable (r.StopsMapped lib op) :=
  match op with
  | .stopBuildStep canResize => inferInstanceAs
      (Decidable ((r.saved = r.inserted.length ∨ r.Written) ∧
        (r.Written → if canResize then r.ResizesEnough lib else r.ReusesEnough)))
  | .startBuildStep => isTrue trivial
  | .reserveSpace _ => isTrue trivial
  | .lookUpOrInsert _ _ _ => isTrue trivial

end ProviderRun

/-- An empty step, one with a repeated key and an empty buffer, and two more: the mapping grows
in the first of them, and a mapping is added in the second. -/
def mappedSteps : List ProviderOp :=
  [.startBuildStep, .stopBuildStep true,
    .startBuildStep, .reserveSpace 8, .lookUpOrInsert ⟨1, 0, 0⟩ [1, 2, 3] 1,
    .lookUpOrInsert ⟨2, 0, 0⟩ [] 1, .lookUpOrInsert ⟨1, 0, 0⟩ [4] 1, .stopBuildStep true,
    .startBuildStep, .lookUpOrInsert ⟨3, 0, 0⟩ [5, 6] 1, .stopBuildStep true,
    .startBuildStep, .lookUpOrInsert ⟨4, 0, 0⟩ (List.replicate 300 7) 1, .stopBuildStep false]

theorem stored_is_returned_four :
    ∃ r : ProviderRun, r.inserted.length = 4 ∧ r.provider.mmapHandles.length = 2 ∧
      Answers r.provider r.inserted := by
  have hrun : ((Run.replay (fun (r : ProviderRun) op =>
      r.OffsetsFit wordLibraries op ∧ r.StopsMapped wordLibraries op)
      (ProviderRun.step wordLibraries noMisses) (.started wordLibraries ⟨[], 0, []⟩)
      mappedSteps).any fun r =>
        r.inserted.length = 4 ∧ r.provider.mmapHandles.length = 2 ∧ r.active = false) = true := by
    decide +kernel
  obtain ⟨r, hr, hlengths⟩ := (Option.any_eq_true _ _).1 hrun
  obtain ⟨hinserted, hhandles, hidle⟩ := of_decide_eq_true hlengths
  exact ⟨r, hinserted, hhandles, ((stored_is_returned wordLibraries_faithful wordLibraries_growing
    (by decide +kernel) (Run.of_replay hr)).1 hidle).1⟩

/-- The first step inserts only an empty buffer, the second one some bytes. -/
def emptyFirstSteps : List ProviderOp :=
  [.startBuildStep, .lookUpOrInsert ⟨1, 0, 0⟩ [] 1, .stopBuildStep true,
    .startBuildStep, .lookUpOrInsert ⟨2, 0, 0⟩ [1] 1, .stopBuildStep true]

/-- The stop of the first step writes nothing, and the load that follows forgets the key. -/
theorem empty_insertion_forgotten :
    ∃ r : ProviderRun, Run (fun (r : ProviderRun) op => r.OffsetsFit wordLibraries op)
      (ProviderRun.step wordLibraries noMisses) (.started wordLibraries ⟨[], 0, []⟩)
      emptyFirstSteps r ∧
      r.active = false ∧ r.provider.build.builder.isBuildStep = false ∧
      ¬Answers r.provider r.inserted := by
  have hrun : ((Run.replay (fun (r : ProviderRun) op => r.OffsetsFit wordLibraries op)
      (ProviderRun.step wordLibraries noMisses) (.started wordLibraries ⟨[], 0, []⟩)
      emptyFirstSteps).any fun r =>
        r.active = false ∧ r.provider.build.builder.isBuildStep = false ∧
          find? r.inserted ⟨1, 0, 0⟩ = some [] ∧
          r.provider.cacheKeyToOffset.find? ⟨1, 0, 0⟩ = none) = true := by
    decide +kernel
  obtain ⟨r, hr, hlost⟩ := (Option.any_eq_true _ _).1 hrun
  obtain ⟨hidle, hstep, hinserted, hnone⟩ := of_decide_eq_true hlost
  refine ⟨r, Run.of_replay hr, hidle, hstep, fun hanswers => ?_⟩
  obtain ⟨offset, _, _, hlookUp, _⟩ := hanswers _ _ hinserted
  rw [lookUp_eq, hnone] at hlookUp
  cases hlookUp

end LiteRt.WeightCache
