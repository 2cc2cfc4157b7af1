import LiteRt.WeightCache.BuilderRuns

/-!
# Operations of the provider

What a load, a lookup and the end of a build step do to a provider whose builder keeps its
invariant.
-/

namespace LiteRt.WeightCache

open LiteRt.Lib

variable {lib : Libraries} {s : Build} {p p' : MMapWeightCacheProvider}
  {entries : List Entry} {list : BufferList}

/-! ## Answers -/

/-- Each key is found at an offset whose address is mapped, aligned and shows its bytes. -/
def Answers (p : MMapWeightCacheProvider) (entries : List Entry) : Prop :=
  ∀ (key : PackIdentifier) (data : List UInt8), InsertOrderMap.find? entries key = some data →
    ∃ (offset : Nat) (address : Address) (handle : MMapHandle),
      lookUp key p = .ok (some offset) p ∧ offsetToAddr offset p = .ok address p ∧
      handle ∈ p.mmapHandles ∧ handle.mapping = address.mapping ∧
      handle.Shows address.pos data.length ∧
      slice p.content address.pos data.length = data ∧ address.pos % kMinAlignment = 0

/-- The keys of a list of buffers, all of which have an address. -/
structure Serves (p : MMapWeightCacheProvider) (buffers : List Buffer) : Prop where
  keys : ∀ key, p.cacheKeyToOffset.find? key =
    (buffers.find? fun b => b.id = key).map fun b => ⟨b.offset, b.size⟩
  covered : ∀ b ∈ buffers, Covered p.mmapHandles p.offsetToAddr b

theorem lookUp_eq (key : PackIdentifier) :
    lookUp key p = .ok ((p.cacheKeyToOffset.find? key).map BufferLocation.offset) p :=
  rfl

theorem offsetToAddr_eq {offset : Nat} {address : Address}
    (h : p.offsetToAddr.find? offset = some address) :
    offsetToAddr offset p = .ok address p := by
  refine bind_eq_ok.2 ⟨p, p, rfl, ?_⟩
  rw [h]
  rfl

theorem find?_buffer_of_find? {content : List UInt8} {bound : Nat} {buffers : List Buffer}
    (h : List.Forall₂ (Holds content bound) buffers entries) {key : PackIdentifier}
    {data : List UInt8} (hfind : InsertOrderMap.find? entries key = some data) :
    ∃ buffer, buffers.find? (fun b => b.id = key) = some buffer := by
  cases hbuffer : buffers.find? fun b => decide (b.id = key) with
  | some buffer => exact ⟨buffer, rfl⟩
  | none =>
    exfalso
    obtain ⟨b, hb, hholds⟩ : ∃ b ∈ buffers, Holds content bound b (key, data) :=
      forall₂_mem h.flip (InsertOrderMap.mem_of_find? hfind)
    exact absurd (List.find?_eq_none.1 hbuffer b hb) (by simp [hholds.id])

theorem Serves.answers {buffers : List Buffer} {bound : Nat} (h : Serves p buffers)
    (hholds : List.Forall₂ (Holds p.content bound) buffers entries) : Answers p entries := by
  intro key data hdata
  obtain ⟨buffer, hbuffer⟩ := find?_buffer_of_find? hholds hdata
  obtain ⟨data', hdata', hb⟩ := find?_of_holds hholds hbuffer
  cases hdata.symm.trans hdata'
  obtain ⟨address, handle, hfind, hpos, hmem, hmapping, hshows⟩ :=
    h.covered buffer (List.mem_of_find?_eq_some hbuffer)
  have hsize : buffer.size = data.length := hb.size
  have hkey := h.keys key
  rw [hbuffer] at hkey
  refine ⟨buffer.offset, address, handle, ?_, offsetToAddr_eq hfind, hmem, hmapping, ?_, ?_, ?_⟩
  · rw [lookUp_eq, hkey]
    rfl
  · rw [← hsize]
    exact hshows
  · have hbytes : slice p.content (kBaseOffset + buffer.offset) buffer.size = data := hb.bytes
    rw [hpos, ← hsize]
    exact hbytes
  · have haligned := hb.aligned
    rw [hpos, kBaseOffset_eq]
    unfold kMinAlignment
    omega

/-! ## Loading a file with a complete list -/

/-- The header points to a list of the entries at the end of the file. -/
structure Described (lib : Libraries) (s : Build) (list : BufferList) (entries : List Entry) :
    Prop where
  length : s.content.length = s.listEnd
  isListed : listOf lib s.content = list
  baseOffset : list.baseOffset = kBaseOffset
  verify : lib.verify (bufferListBytes s.content s.header) = true
  fingerprints : ∀ fingerprint ∈ list.fingerprints, lib.checkFingerprint fingerprint = true
  holds : List.Forall₂ (Holds s.content s.header.bufferListOffset) list.buffers entries

/-- Between two steps. -/
theorem Invariant.described (h : Invariant lib s entries) (hidle : s.builder.isBuildStep = false)
    (hchecked : ∀ fingerprint ∈ s.builder.schema.fingerprints,
      lib.checkFingerprint fingerprint = true) : Described lib s s.builder.schema entries := by
  have hcomplete := h.complete hidle
  obtain ⟨list, kept, rest, hlist, _, hbase, hentries, hholds, hverify, hschema⟩ := hcomplete.list
  rw [hschema hidle] at hlist
  have hall := h.holds
  rw [Build.dataEnd, if_neg (by rw [hidle]; exact Bool.false_ne_true)] at hall
  exact ⟨hcomplete.length, hlist, h.baseOffset, hverify, hchecked, hall⟩

theorem Described.loadable {all : List Entry} (h : Described lib s list entries)
    (hinv : Invariant lib s all) : Loadable lib s.content := by
  have hlength : s.content.length = s.header.bufferListOffset + s.header.bufferListSize := h.length
  have hsize := hinv.listSize
  have hoffset := hinv.listOffset
  constructor
  · exact hinv.header_le
  · exact hinv.version
  · exact hinv.stale
  · change s.header.bufferListOffset < _
    omega
  · change s.header.bufferListSize = _ - s.header.bufferListOffset
    omega
  · exact h.verify
  · rw [h.isListed, List.all_eq_true]
    exact h.fingerprints
  · rw [h.isListed, h.baseOffset]
    omega
  · intro buffer hbuffer
    rw [h.isListed] at hbuffer
    obtain ⟨entry, _, hb⟩ := forall₂_mem h.holds hbuffer
    have hinside := hb.inside
    rw [h.isListed, h.baseOffset]
    constructor <;> omega

theorem Described.load {all : List Entry} (h : Described lib s list entries)
    (hinv : Invariant lib s all) (hp : p.content = s.content)
    {E : Stop → MMapWeightCacheProvider → Prop} :
    Ends (load lib) p (fun _ p' => LoadedFrom lib p p') E := by
  refine load_ends.mono (fun _ _ hload => hload.2) ?_
  rintro _ _ ⟨_, hnot⟩
  rw [hp] at hnot
  exact absurd (h.loadable hinv) hnot

section
variable (h : Described lib s list entries) (hp : p.content = s.content)
  (haddresses : p.offsetToAddr = []) (hload : LoadedFrom lib p p')

include h hp haddresses hload

theorem LoadedFrom.mapped {all : List Entry} (hinv : Invariant lib s all) :
    Mapped [] ⟨p.mappings, 0, p.content.length⟩ p'.offsetToAddr s.header.bufferListOffset where
  header := by
    have hheader := hinv.header_le
    rw [← hp] at hheader
    exact ⟨Nat.le_refl _, by simpa using hheader⟩
  offset := Nat.zero_le _
  pos offset address hfind := by
    rw [hload.addresses, haddresses, hp, h.isListed, h.baseOffset] at hfind
    obtain hold | ⟨rfl, b, hb, rfl⟩ := address_of_find? hfind
    · cases hold
    · obtain ⟨entry, _, hholds⟩ := forall₂_mem h.holds hb
      exact ⟨rfl, Nat.le_trans (Nat.le_add_right _ _) hholds.inside⟩
  boundary offset address hfind _ := by
    rw [hload.addresses, haddresses, hp, h.isListed, h.baseOffset] at hfind
    obtain hold | ⟨rfl, _⟩ := address_of_find? hfind
    · cases hold
    · rfl

theorem LoadedFrom.serves : Serves p' list.buffers where
  keys key := by
    rw [hload.keys, hp, h.isListed, find?_keysOf]
    rfl
  covered b hb := by
    have hlength : s.content.length = s.header.bufferListOffset + s.header.bufferListSize :=
      h.length
    obtain ⟨entry, _, hholds⟩ := forall₂_mem h.holds hb
    have hinside := hholds.inside
    rw [hload.handles, hload.addresses, haddresses, hp, h.isListed, h.baseOffset]
    obtain ⟨_, hold, _⟩ | ⟨_, hfind⟩ := @exists_address p.mappings kBaseOffset _ [] _ hb
    · cases hold
    · refine ⟨_, _, hfind, rfl, List.mem_cons_self, rfl, Nat.zero_le _, ?_⟩
      dsimp only
      omega

end

/-! ## The end of a step -/

section
variable {α : Type} {Q : α → MMapWeightCacheProvider → Prop}
  {E : Stop → MMapWeightCacheProvider → Prop}

theorem ends_onBuilder {x : BuildM α}
    (h : Ends x p.build (fun a build => Q a { p with build := build })
      fun e build => E e { p with build := build }) : Ends (onBuilder x) p Q E := by
  rw [Ends] at h ⊢
  unfold onBuilder
  split at h
  · rename_i hok
    rw [hok]
    exact h
  · rename_i herror
    rw [herror]
    exact h

theorem ends_readThrough {f : Unit → ProviderM α} {handle : MMapHandle} {pos n : Nat}
    (hshows : handle.Shows pos n) (hend : pos + n ≤ p.content.length) (h : Ends (f ()) p Q E) :
    Ends (readThrough handle pos n >>= f) p Q E := by
  have hread : readThrough handle pos n p = .ok () p := by
    change (if handle.Shows pos n ∧ pos + n ≤ p.content.length then pure () else throw .aborted :
      ProviderM Unit) p = _
    rw [if_pos ⟨hshows, hend⟩]
    rfl
  exact Ends.bind_ok hread h

theorem ends_onFailure {x : ProviderM α}
    {f : MMapWeightCacheProvider → MMapWeightCacheProvider} (h : Ends x p Q fun _ _ => False) :
    Ends (onFailure x f) p Q E := by
  rw [Ends] at h ⊢
  unfold onFailure
  split at h
  · rename_i hok
    rw [hok]
    exact h
  · exact h.elim

end

theorem loadLastList_ends {front : List MMapHandle} {segment : MMapHandle}
    {E : Stop → MMapWeightCacheProvider → Prop} {header : XNNPackCacheHeader}
    (hhandles : p.mmapHandles = front ++ [segment])
    (hshows : segment.Shows header.bufferListOffset header.bufferListSize)
    (hend : header.bufferListOffset + header.bufferListSize ≤ p.content.length)
    (hverify : lib.verify (bufferListBytes p.content header) = true)
    (hlist : lib.unpack (bufferListBytes p.content header) = list) :
    Ends (loadLastList lib header) p (fun _ p' => p' = { p with
        offsetToAddr := addressesOf segment.mapping list.baseOffset list.buffers p.offsetToAddr })
      E := by
  have hsegment : p.mmapHandles.getLastD .unmapped = segment := by
    rw [hhandles]
    simp
  refine ends_get ?_
  rw [hsegment]
  refine ends_readThrough hshows hend (ends_check ?_ fun _ => ends_modify ?_)
  · intro hfalse
    exact absurd (hfalse.symm.trans hverify) Bool.false_ne_true
  · rw [hlist]
    rfl

section
variable {front : List MMapHandle} {last : MMapHandle} {E : Stop → MMapWeightCacheProvider → Prop}
  (hhandles : p.mmapHandles = front ++ [last])
  (hsize : p.build.builder.buildSegmentSize ≠ 0)
  (hheader : ((front ++ [last]).headD .unmapped).Shows 0 XNNPackCacheHeader.sizeof)
  (hlength : XNNPackCacheHeader.sizeof ≤ p.content.length)
  (hend : p.build.header.bufferListOffset + p.build.header.bufferListSize ≤ p.content.length)
  (hverify : lib.verify (bufferListBytes p.content p.build.header) = true)
  (hlist : lib.unpack (bufferListBytes p.content p.build.header) = list)

include hhandles hsize hheader hlength hend hverify hlist

theorem loadLastBuildStep_grown {segment : MMapHandle} (hsegment : segment =
      { last with size := resizedSize last.size p.build.builder.buildSegmentSize })
    (hshows : segment.Shows p.build.header.bufferListOffset p.build.header.bufferListSize) :
    Ends (loadLastBuildStep lib true) p (fun _ p' => p' = { p with
        mmapHandles := front ++ [segment]
        offsetToAddr :=
          addressesOf segment.mapping list.baseOffset list.buffers p.offsetToAddr }) E := by
  have hlast : p.mmapHandles.getLastD .unmapped = last := by
    rw [hhandles]
    simp
  have hdrop : p.mmapHandles.dropLast = front := by
    rw [hhandles, List.dropLast_concat]
  have hmap : mapLastBuildStep true p = .ok () { p with mmapHandles := front ++ [segment] } := by
    have hstep : mapLastBuildStep true p = .ok () { p with
        mmapHandles := p.mmapHandles.dropLast ++ [{ p.mmapHandles.getLastD .unmapped with
            size := resizedSize (p.mmapHandles.getLastD .unmapped).size
              p.build.builder.buildSegmentSize }] } := rfl
    rw [hstep, hlast, hdrop, hsegment]
  refine ends_get ?_
  rw [if_neg (by rw [hhandles]; simp), if_neg hsize, hhandles]
  refine ends_readThrough hheader (by omega) (Ends.bind_ok hmap ?_)
  refine (loadLastList_ends (p := { p with mmapHandles := front ++ [segment] }) rfl hshows hend
    hverify hlist).mono ?_ fun _ _ h => h
  rintro _ _ rfl
  rfl

theorem loadLastBuildStep_added {segment : MMapHandle}
    (hstart : p.build.builder.buildSegmentStart < p.content.length)
    (hsegment : segment = ⟨p.mappings, p.build.builder.buildSegmentStart,
      p.content.length - p.build.builder.buildSegmentStart⟩)
    (hshows : segment.Shows p.build.header.bufferListOffset p.build.header.bufferListSize) :
    Ends (loadLastBuildStep lib false) p (fun _ p' => p' = { p with
        mmapHandles := front ++ [last] ++ [segment]
        mappings := p.mappings + 1
        offsetToAddr :=
          addressesOf segment.mapping list.baseOffset list.buffers p.offsetToAddr }) E := by
  have hmap : Ends (mapLastBuildStep false) p (fun _ p' => p' = { p with
        mmapHandles := front ++ [last] ++ [segment]
        mappings := p.mappings + 1 }) E := by
    refine ends_get (ends_onFailure (ends_get (ends_check ?_ fun _ => ends_modify ?_)))
    · intro hfalse
      exact of_decide_eq_false hfalse hstart
    · rw [hhandles, hsegment]
  refine ends_get ?_
  rw [if_neg (by rw [hhandles]; simp), if_neg hsize, hhandles]
  refine ends_readThrough hheader (by omega) (hmap.bind ?_)
  rintro _ _ rfl
  refine (loadLastList_ends (p := { p with
    mmapHandles := front ++ [last] ++ [segment], mappings := p.mappings + 1 }) rfl hshows hend
    hverify hlist).mono ?_ fun _ _ h => h
  rintro _ _ rfl
  rfl

end

end LiteRt.WeightCache

namespace LiteRt.WeightCache.Intervals

open LiteRt.Lib

variable {lib : Libraries} {s s' : Build}

/-!
## The flag for build steps

What each call of the builder does to its flag, and that the provider's part of a call leaves the
builder alone.
-/

/-- The file has not changed. -/
structure SameFile (s s' : Build) : Prop where
  content : s'.content = s.content
  past : s'.fd.past = s.fd.past

instance (s s' : Build) : Decidable (SameFile s s') :=
  decidable_of_iff (s'.content = s.content ∧ s'.fd.past = s.fd.past)
    ⟨fun h => ⟨h.1, h.2⟩, fun h => ⟨h.content, h.past⟩⟩

/-- There is no list, or one that can be read. -/
def ListReadable (lib : Libraries) (content : List UInt8) (header : XNNPackCacheHeader) : Prop :=
  header.bufferListSize = 0 ∨ header.bufferListOffset < content.length ∧
    lib.verify (bufferListBytes content header) = true

def Readable (lib : Libraries) (s : Build) : Prop :=
  XNNPackCacheHeader.sizeof ≤ s.content.length ∧ ListReadable lib s.content s.header

instance (lib : Libraries) (s : Build) : Decidable (Readable lib s) :=
  inferInstanceAs (Decidable (_ ∧ (_ ∨ _)))

/-- The position is where the step started, in a file that has a list already. -/
def Unmoved (s : Build) : Prop :=
  s.fd.pos = s.builder.buildSegmentStart ∧ s.builder.firstWriteDone = true

instance (s : Build) : Decidable (Unmoved s) := inferInstanceAs (Decidable (_ ∧ _))

/-! ### Calls of the builder -/

/-- A builder that was not started has not written anything. -/
def Fresh (s : Build) : Prop := s.builder.isStarted = false → s.builder.firstWriteDone = false

/-- The builder has this flag and is started or not. -/
structure Becomes (isBuildStep isStarted : Bool) (s : Build) : Prop where
  isBuildStep : s.builder.isBuildStep = isBuildStep
  isStarted : s.builder.isStarted = isStarted
  fresh : Fresh s

theorem SameFile.refl (s : Build) : SameFile s s := ⟨rfl, rfl⟩

theorem Fresh.becomes (h : Fresh s) : Becomes s.builder.isBuildStep s.builder.isStarted s :=
  ⟨rfl, rfl, h⟩

theorem reloadSchema_flag (lib : Libraries) (header : XNNPackCacheHeader) (s : Build) :
    Ends (reloadSchema lib header) s (fun _ s' => ListReadable lib s.content header ∧
        ∃ schema, s' = ⟨{ s.builder with schema := schema }, s.fd⟩)
      (fun e s' => e = .failed ∧ ¬ListReadable lib s.content header ∧ s' = s) := by
  refine ends_get ?_
  split
  · rename_i hsize
    exact ends_pure ⟨.inl hsize, s.builder.schema, rfl⟩
  · rename_i hsize
    split
    · rename_i hoffset
      refine ends_throw ⟨rfl, fun hlist => ?_, rfl⟩
      obtain hzero | ⟨hlt, -⟩ := hlist
      · exact hsize hzero
      · exact Nat.not_lt.2 hoffset hlt
    · rename_i hoffset
      split
      · rename_i hverify
        refine ends_throw ⟨rfl, fun hlist => ?_, rfl⟩
        obtain hzero | ⟨-, htrue⟩ := hlist
        · exact hsize hzero
        · exact Bool.false_ne_true (hverify.symm.trans htrue)
      · rename_i hverify
        exact ends_modify ⟨.inr ⟨Nat.not_le.1 hoffset, eq_true_of_ne_false hverify⟩, _, rfl⟩

theorem startBuildStep_flag (lib : Libraries) (h : Fresh s) :
    Ends (startBuildStep lib) s
      (fun _ s' => (s.builder.isStarted = true ∧ s.builder.isBuildStep = false ∧ Readable lib s) ∧
        Becomes true true s' ∧ s'.builder.firstWriteDone = s.builder.firstWriteDone ∧
        SameFile s s')
      (fun e s' => e = .failed ∧
        ¬(s.builder.isStarted = true ∧ s.builder.isBuildStep = false ∧ Readable lib s) ∧
        Becomes (s.builder.isBuildStep || s.builder.isStarted) s.builder.isStarted s' ∧
        SameFile s s') := by
  have hfresh : ∀ s' : Build, s'.builder.isStarted = true → Fresh s' := by
    intro s' htrue hfalse
    rw [hfalse] at htrue
    cases htrue
  refine ends_get ?_
  cases hstarted : s.builder.isStarted with
  | false =>
    refine ends_throw ⟨rfl, fun hall => Bool.false_ne_true hall.1, ?_, .refl s⟩
    rw [Bool.or_false, ← hstarted]
    exact h.becomes
  | true =>
    cases hstep : s.builder.isBuildStep with
    | true =>
      exact ends_throw ⟨rfl, fun hall => Bool.false_ne_true hall.2.1.symm,
        ⟨hstep, hstarted, hfresh s hstarted⟩, .refl s⟩
    | false =>
      refine ends_modify_bind ?_
      split
      · rename_i hshort
        refine ends_throw ⟨rfl, fun hall => Nat.not_lt.2 hall.2.2.1 hshort,
          ⟨rfl, hstarted, hfresh _ hstarted⟩, ⟨rfl, rfl⟩⟩
      · rename_i hlong
        refine ends_modify_bind (Ends.bind ((reloadSchema_flag lib s.header _).mono
          (fun _ _ hok => hok) ?_) ?_)
        · rintro e s' ⟨rfl, hnot, rfl⟩
          exact ⟨rfl, fun hall => hnot hall.2.2.2, ⟨rfl, hstarted, hfresh _ hstarted⟩, ⟨rfl, rfl⟩⟩
        · rintro ⟨⟩ s' ⟨hlist, schema, rfl⟩
          exact ends_modify_bind (ends_modify ⟨⟨rfl, rfl, Nat.not_lt.1 hlong, hlist⟩,
            ⟨rfl, hstarted, hfresh _ hstarted⟩, rfl, ⟨rfl, rfl⟩⟩)

theorem startBuildStep_decided (lib : Libraries) (h : Fresh s) : Decided (startBuildStep lib) s
    (s.builder.isStarted = true ∧ s.builder.isBuildStep = false ∧ Readable lib s)
    fun _ _ => True :=
  (startBuildStep_flag lib h).mono (fun _ _ hs => ⟨hs.1, trivial⟩) fun _ _ hs => hs.2.1

theorem stopBuildStep_unstarted (lib : Libraries) (hstarted : s.builder.isStarted = false) :
    stopBuildStep lib s = .error .failed s := by
  change (if s.builder.isBuildStep = false then _ else _ : BuildM Unit) s = _
  rw [hstarted]
  split <;> rfl

/-- The flag is cleared, unless nothing was written. -/
theorem stopBuildStep_flag (lib : Libraries) (h : Fresh s) :
    Ends (stopBuildStep lib) s
      (fun _ => Becomes (s.builder.isBuildStep && (!s.builder.isStarted || decide (Unmoved s)))
        s.builder.isStarted)
      (fun _ s' => s' = s ∧ (s.builder.isBuildStep = false ∨ s.builder.isStarted = false)) := by
  cases hstep : s.builder.isBuildStep with
  | false =>
    rw [Ends, stopBuildStep_failed lib hstep]
    exact ⟨rfl, .inl rfl⟩
  | true =>
    cases hstarted : s.builder.isStarted with
    | false =>
      rw [Ends, stopBuildStep_unstarted lib hstarted]
      exact ⟨rfl, .inr rfl⟩
    | true =>
      have heq : stopBuildStep lib s = if Unmoved s then .ok () s else .ok () (s.stopped lib) :=
        stopBuildStep_eq lib hstep hstarted
      by_cases hunmoved : Unmoved s
      · rw [if_pos hunmoved] at heq
        refine ends_of_eq_ok heq ?_
        rw [decide_eq_true hunmoved]
        exact ⟨hstep, hstarted, h⟩
      · rw [if_neg hunmoved] at heq
        refine ends_of_eq_ok heq ?_
        rw [decide_eq_false hunmoved]
        exact ⟨rfl, hstarted, fun hfalse => Bool.noConfusion (hstarted.symm.trans hfalse)⟩

theorem startBuildStep_becomes (lib : Libraries) (h : Fresh s) :
    Ends (startBuildStep lib) s
      (fun _ => Becomes (s.builder.isBuildStep || s.builder.isStarted) s.builder.isStarted)
      fun _ => Becomes (s.builder.isBuildStep || s.builder.isStarted) s.builder.isStarted := by
  refine (startBuildStep_flag lib h).mono ?_ fun _ _ hfailed => hfailed.2.2.1
  rintro _ s' ⟨⟨hstarted, -, -⟩, hbecomes, -⟩
  rw [hstarted, Bool.or_true]
  exact hbecomes

theorem stopBuildStep_becomes (lib : Libraries) (h : Fresh s) :
    Ends (stopBuildStep lib) s
      (fun _ => Becomes (s.builder.isBuildStep && (!s.builder.isStarted || decide (Unmoved s)))
        s.builder.isStarted)
      fun _ => Becomes (s.builder.isBuildStep && (!s.builder.isStarted || decide (Unmoved s)))
        s.builder.isStarted := by
  refine (stopBuildStep_flag lib h).mono (fun _ _ hs => hs) ?_
  rintro _ s' ⟨rfl, hor⟩
  have hflag : (s'.builder.isBuildStep && (!s'.builder.isStarted || decide (Unmoved s'))) =
      s'.builder.isBuildStep := by
    obtain hfalse | hfalse := hor
    · rw [hfalse, Bool.false_and]
    · rw [hfalse, Bool.not_false, Bool.true_or, Bool.and_true]
  rw [hflag]
  exact h.becomes

theorem firstStep_flag (lib : Libraries) (hstarted : s.builder.isStarted = true)
    (hdone : s.builder.firstWriteDone = false) (hreadable : Readable lib s) :
    Ends (startBuildStep lib >>= fun _ => stopBuildStep lib) s
      (fun _ s' => Becomes s.builder.isBuildStep true s')
      (fun e s' => e = .failed ∧ Becomes s.builder.isBuildStep true s') := by
  refine Ends.bind ((startBuildStep_flag lib fun _ => hdone).mono (fun _ _ hok => hok) ?_) ?_
  · rintro e s' ⟨rfl, hnot, hbecomes, -⟩
    refine ⟨rfl, ?_⟩
    rw [hstarted, Bool.or_true] at hbecomes
    cases hstep : s.builder.isBuildStep with
    | true => exact hbecomes
    | false => exact absurd ⟨hstarted, hstep, hreadable⟩ hnot
  · rintro ⟨⟩ s' ⟨⟨-, hstep, -⟩, hbecomes, hkept, -⟩
    refine (stopBuildStep_flag lib hbecomes.fresh).mono ?_ ?_
    · intro _ s'' hstop
      have hmoved : ¬Unmoved s' := by
        rintro ⟨-, htrue⟩
        rw [hkept, hdone] at htrue
        cases htrue
      rw [decide_eq_false hmoved, hbecomes.isBuildStep, hbecomes.isStarted] at hstop
      rw [hstep]
      exact hstop
    · rintro e s'' ⟨-, hor⟩
      rw [hbecomes.isBuildStep, hbecomes.isStarted] at hor
      simp at hor

theorem start_flag (lib : Libraries) (h : Fresh s) :
    Ends (start lib) s (fun _ s' => Becomes s.builder.isBuildStep true s')
      (fun e s' => e = .failed ∧ Becomes s.builder.isBuildStep true s') := by
  refine ends_get ?_
  cases hstarted : s.builder.isStarted with
  | true =>
    rw [if_pos rfl]
    exact ends_throw ⟨rfl, rfl, hstarted, h⟩
  | false =>
    rw [if_neg Bool.false_ne_true]
    refine ends_modifyBuilder_bind ?_
    refine ends_modifyFile_bind ?_
    refine ends_modifyFile_bind ?_
    refine ends_modifyBuilder_bind ?_
    refine firstStep_flag lib rfl (h hstarted) ⟨?_, .inl ?_⟩
    · change _ ≤ (FileDescriptor.write ⟨[], 0, s.fd.past ++ [[]]⟩
        invalidHeader.bytes).content.length
      rw [write_invalidHeader]
      exact Nat.le_of_eq (XNNPackCacheHeader.length_bytes _).symm
    · change (XNNPackCacheHeader.read (FileDescriptor.write ⟨[], 0, s.fd.past ++ [[]]⟩
        invalidHeader.bytes).content).bufferListSize = 0
      rw [write_invalidHeader, read_invalidHeader]
      rfl

theorem append_flag (lib : Libraries) (packId : PackIdentifier) (data : List UInt8)
    (fingerprintId : Int) {isBuildStep isStarted : Bool} :
    Keeps (append lib packId data fingerprintId) (Becomes isBuildStep isStarted) := by
  refine keeps_get fun s₁ h => ?_
  split
  · exact ends_throw h
  · refine ends_modify_bind (ends_modify_bind ?_)
    split
    · exact ends_throw ⟨h.isBuildStep, h.isStarted, h.fresh⟩
    · cases lib.getFingerprint fingerprintId with
      | none => exact ends_throw ⟨h.isBuildStep, h.isStarted, h.fresh⟩
      | some fingerprint =>
        refine ends_modify_bind (ends_modify_bind (ends_pure ?_))
        exact ⟨h.isBuildStep, h.isStarted, h.fresh⟩

/-! ### Calls of the provider -/

theorem keeps_check {P : MMapWeightCacheProvider → Prop} (b : Bool) : Keeps (check b) P := by
  cases b with
  | false => exact keeps_throw _
  | true => exact keeps_pure _

theorem keeps_onFailure {x : ProviderM Unit} {P : MMapWeightCacheProvider → Prop}
    {f : MMapWeightCacheProvider → MMapWeightCacheProvider} (hx : Keeps x P)
    (hf : ∀ p, P p → P (f p)) : Keeps (onFailure x f) P := by
  intro p hp
  have hends := hx p hp
  rw [Ends] at hends ⊢
  unfold onFailure
  cases hresult : x p with
  | ok a p' =>
    rw [hresult] at hends
    exact hends
  | error e p' =>
    rw [hresult] at hends
    cases e with
    | failed => exact hf p' hends
    | aborted => exact hends

section
variable {build : Build}

theorem keeps_mapFile (offset : Nat) : Keeps (mapFile offset) fun p => p.build = build :=
  keeps_get fun p hp => (keeps_check _).bind (fun _ _ hp' => hp') p hp

theorem keeps_loadBuffer (size mapping : Nat) (buffer : Buffer) :
    Keeps (loadBuffer size mapping buffer) fun p => p.build = build :=
  keeps_get fun p hp =>
    (keeps_check _).bind (fun _ => (keeps_check _).bind fun _ _ hp' => hp') p hp

theorem keeps_loadBuffers (size mapping : Nat) (buffers : List Buffer) :
    Keeps (buffers.forM (loadBuffer size mapping)) fun p => p.build = build := by
  induction buffers with
  | nil => exact keeps_pure _
  | cons buffer buffers ih => exact (keeps_loadBuffer size mapping buffer).bind fun _ => ih

theorem keeps_loadMapped (lib : Libraries) : Keeps (loadMapped lib) fun p => p.build = build := by
  refine (keeps_mapFile 0).bind fun _ => keeps_get fun p hp => ?_
  refine Keeps.bind (keeps_check _) (fun _ => ?_) p hp
  refine Keeps.bind (keeps_check _) fun _ => ?_
  refine Keeps.bind (keeps_check _) fun _ => ?_
  refine Keeps.bind (keeps_check _) fun _ => ?_
  refine Keeps.bind (keeps_check _) fun _ => ?_
  refine Keeps.bind (keeps_check _) fun _ => ?_
  refine Keeps.bind (keeps_check _) fun _ => ?_
  refine Keeps.bind (keeps_modify fun _ hp' => hp') fun _ => ?_
  refine Keeps.bind (keeps_check _) fun _ => ?_
  exact Keeps.bind (keeps_loadBuffers _ _ _) fun _ => keeps_modify fun _ hp' => hp'

theorem keeps_load (lib : Libraries) : Keeps (load lib) fun p => p.build = build :=
  Keeps.bind (keeps_modify fun _ hp => hp) fun _ =>
    keeps_onFailure (keeps_loadMapped lib) fun _ hp => hp

theorem keeps_readThrough (handle : MMapHandle) (pos n : Nat) :
    Keeps (readThrough handle pos n) fun p => p.build = build := by
  refine keeps_get fun p hp => ?_
  split
  · exact ends_pure hp
  · exact ends_throw hp

theorem keeps_mapLastBuildStep (canResize : Bool) :
    Keeps (mapLastBuildStep canResize) fun p => p.build = build := by
  refine keeps_get fun p hp => ?_
  dsimp only
  split
  · exact ends_modify hp
  · refine keeps_onFailure (keeps_mapFile _) ?_ p hp
    exact fun _ hp' => hp'

theorem keeps_loadLastList (lib : Libraries) (header : XNNPackCacheHeader) :
    Keeps (loadLastList lib header) fun p => p.build = build := by
  refine keeps_get fun p hp => ?_
  dsimp only
  refine Keeps.bind (keeps_readThrough _ _ _) (fun _ => ?_) p hp
  exact Keeps.bind (keeps_check _) fun _ => keeps_modify fun _ hp' => hp'

theorem keeps_loadLastBuildStep (lib : Libraries) (canResize : Bool) :
    Keeps (loadLastBuildStep lib canResize) fun p => p.build = build := by
  refine keeps_get fun p hp => ?_
  split
  · exact keeps_load lib p hp
  · split
    · exact ends_pure hp
    · refine Keeps.bind (keeps_readThrough _ _ _) (fun _ => ?_) p hp
      exact Keeps.bind (keeps_mapLastBuildStep _) fun _ => keeps_loadLastList lib _

end

end LiteRt.WeightCache.Intervals
