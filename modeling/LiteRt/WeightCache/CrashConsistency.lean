import LiteRt.Lib.Run
import LiteRt.WeightCache.BuilderRuns

/-!
# What is loaded after a crash

A process that stops between two writes leaves the content after the last one. In a run in
which each append lets the file end behind the list of the header, every such content is
rejected or yields what was appended. Data that fits into the list it overwrites can instead
be taken for a list.
-/

namespace LiteRt.WeightCache

open LiteRt.Lib

/-- No bytes are appended, or the file then ends behind the list that its header points to. -/
def Grows (s : Build) (data : List UInt8) : Prop :=
  data = [] ∨ s.listEnd < max s.content.length (align s.fd.pos kMinAlignment + data.length)

/-- Once data was written in a step, it reaches behind the end of the list of the header. -/
structure CrashSafe (lib : Libraries) (s : Build) (entries : List Entry) : Prop where
  invariant : Invariant lib s entries
  outgrown : Underway s → s.listEnd < s.content.length

section
variable {lib : Libraries} {s : Build} {entries : List Entry}

theorem CrashSafe.recovers (h : CrashSafe lib s entries) : Recovers lib entries s.content :=
  h.invariant.recovers h.outgrown

theorem CrashSafe.inStep (h : CrashSafe lib s entries) (hidle : s.builder.isBuildStep = false) :
    CrashSafe lib s.inStep entries :=
  ⟨h.invariant.inStep hidle, fun hunderway => absurd hunderway.pos (Nat.lt_irrefl _)⟩

theorem CrashSafe.appended (h : CrashSafe lib s entries) (hstep : s.builder.isBuildStep = true)
    {packId : PackIdentifier} {data : List UInt8} {fingerprints : List UInt64}
    (hgrows : Grows s data) :
    CrashSafe lib (s.appended packId data fingerprints) (entries ++ [(packId, data)]) := by
  have hend := @Invariant.listEnd_appended _ _ _ packId data fingerprints h.invariant hstep
  refine ⟨h.invariant.appended hstep, fun hunderway => ?_⟩
  rw [hend, content_appended]
  by_cases hnil : data = []
  · -- Only the position may have moved.
    subst hnil
    have hpos := hunderway.pos
    have hheader := @Invariant.header_appended _ _ _ packId [] fingerprints h.invariant hstep
    rw [hheader, pos_appended] at hpos
    refine h.outgrown ⟨hstep, ?_⟩
    by_cases hstart : s.fd.pos = s.header.bufferListOffset
    · have halign := align_of_mod h.invariant.listAligned
      rw [hstart, halign] at hpos
      exact absurd hpos (Nat.lt_irrefl _)
    · have hle := (h.invariant.step hstep).2
      omega
  · rw [length_overwrite hnil]
    exact hgrows.resolve_left hnil

theorem CrashSafe.stopped (h : Invariant lib (s.stopped lib) entries) :
    CrashSafe lib (s.stopped lib) entries :=
  ⟨h, fun hunderway => by cases hunderway.step⟩

/-- Data behind the end of the list is not in front of the end of the file. -/
theorem CrashSafe.reach (h : CrashSafe lib s entries) (hunderway : Underway s) :
    s.content.length ≤ s.layoutOffset + (lib.pack s.builder.schema).length := by
  have hreach := h.invariant.reach
  have hlength := h.outgrown hunderway
  have hend : s.dataEnd = s.fd.pos := if_pos hunderway.step
  have hle := le_align s.fd.pos
  unfold Build.layoutOffset
  omega

end

inductive BuildOp where
  | startBuildStep
  | append (packId : PackIdentifier) (data : List UInt8) (fingerprintId : Int)
  | stopBuildStep
  | reserve (size : Nat)
  deriving DecidableEq, Repr

/-- A builder, what was appended so far, and whether the process was aborted. -/
structure BuilderRun where
  build : Build
  appended : List Entry
  aborted : Bool
  deriving DecidableEq, Repr

namespace BuilderRun

/-- After a call, with what it appends if it succeeds. -/
def after {α : Type} (r : BuilderRun) (x : BuildM α) (more : List Entry) : BuilderRun :=
  match x r.build with
  | .ok _ build => ⟨build, r.appended ++ more, false⟩
  | .error .failed build => ⟨build, r.appended, false⟩
  | .error .aborted build => ⟨build, r.appended, true⟩

def step (lib : Libraries) (r : BuilderRun) (op : BuildOp) : Option BuilderRun :=
  if r.aborted then none
  else match op with
    | .startBuildStep => some (r.after (startBuildStep lib) [])
    | .append packId data fingerprintId =>
      some (r.after (append lib packId data fingerprintId) [(packId, data)])
    | .stopBuildStep => some (r.after (stopBuildStep lib) [])
    | .reserve size => some (r.after (WeightCache.reserve size) [])

/-- A new builder after `Start`. -/
def started (lib : Libraries) (fd : FileDescriptor) : BuilderRun :=
  after ⟨⟨.new, fd⟩, [], false⟩ (start lib) []

end BuilderRun

/-- Where a call writes to can be said in a signed number of 64 bits. -/
def OffsetsFit (lib : Libraries) (s : Build) : BuildOp → Prop
  | .append _ data _ => align s.fd.pos kMinAlignment + data.length < 2 ^ 63
  | .stopBuildStep => s.layoutOffset + (lib.pack s.builder.schema).length < 2 ^ 63
  | _ => True

/-- An append in a step lets the file end behind the list of the header. -/
def OutgrowsList (s : Build) : BuildOp → Prop
  | .append _ data _ => s.builder.isBuildStep = true → Grows s data
  | _ => True

instance (lib : Libraries) (s : Build) (op : BuildOp) : Decidable (OffsetsFit lib s op) :=
  match op with
  | .append _ data _ =>
    inferInstanceAs (Decidable (align s.fd.pos kMinAlignment + data.length < 2 ^ 63))
  | .stopBuildStep =>
    inferInstanceAs (Decidable (s.layoutOffset + (lib.pack s.builder.schema).length < 2 ^ 63))
  | .startBuildStep => isTrue trivial
  | .reserve _ => isTrue trivial

instance (s : Build) (op : BuildOp) : Decidable (OutgrowsList s op) :=
  match op with
  | .append _ data _ => inferInstanceAs (Decidable (s.builder.isBuildStep = true → data = [] ∨
      s.listEnd < max s.content.length (align s.fd.pos kMinAlignment + data.length)))
  | .startBuildStep => isTrue trivial
  | .stopBuildStep => isTrue trivial
  | .reserve _ => isTrue trivial

/-- The file is what some process could have left, and the call succeeds or fails on it. -/
structure Recoverable (lib : Libraries) (r : BuilderRun) : Prop where
  past : ∀ content ∈ r.build.fd.past, Recovers lib r.appended content
  state : r.aborted = false → CrashSafe lib r.build r.appended

section
variable {lib : Libraries} {r : BuilderRun} {more : List Entry}

/-- A call that ends with an invariant for what it appends. -/
theorem Recoverable.after {α : Type} {x : BuildM α} (h : Ends x r.build
      (fun _ s' => (∀ content ∈ s'.fd.past, Recovers lib (r.appended ++ more) content) ∧
        CrashSafe lib s' (r.appended ++ more))
      (fun e s' => (∀ content ∈ s'.fd.past, Recovers lib r.appended content) ∧
        (e = .failed → CrashSafe lib s' r.appended))) :
    Recoverable lib (r.after x more) := by
  unfold BuilderRun.after
  rw [Ends] at h
  split at h
  · rename_i hok
    rw [hok]
    exact ⟨h.1, fun _ => h.2⟩
  · rename_i e s' herror
    rw [herror]
    cases e with
    | failed => exact ⟨h.1, fun _ => h.2 rfl⟩
    | aborted => exact ⟨h.1, fun hfalse => by cases hfalse⟩

theorem Recoverable.append (h : Recoverable lib r) (haborted : r.aborted = false)
    {packId : PackIdentifier} {data : List UInt8} {fingerprintId : Int}
    (hfits : OffsetsFit lib r.build (.append packId data fingerprintId))
    (hgrows : OutgrowsList r.build (.append packId data fingerprintId)) :
    Recoverable lib
      (r.after (WeightCache.append lib packId data fingerprintId) [(packId, data)]) := by
  have hsafe := h.state haborted
  refine .after ?_
  cases hstep : r.build.builder.isBuildStep with
  | false =>
    rw [Ends, append_unstarted lib hstep]
    exact ⟨h.past, fun he => by cases he⟩
  | true =>
    unfold OffsetsFit at hfits
    refine (append_ends hsafe.invariant hstep (by omega) packId data fingerprintId).mono ?_ ?_
    · rintro _ _ ⟨_, fingerprint, _, rfl⟩
      have hnext := @CrashSafe.appended _ _ _ hsafe hstep packId _
        (if fingerprint ∈ r.build.builder.schema.fingerprints
          then r.build.builder.schema.fingerprints
          else r.build.builder.schema.fingerprints ++ [fingerprint]) (hgrows hstep)
      refine ⟨fun content hcontent => ?_, hnext⟩
      obtain hold | rfl := past_appended hcontent
      · exact (h.past content hold).append _
      · exact hnext.recovers
    · rintro _ s' ⟨rfl, _, hpast, _⟩
      rw [hpast]
      exact ⟨h.past, fun he => by cases he⟩

theorem Recoverable.stop (hlib : lib.Faithful) (h : Recoverable lib r)
    (haborted : r.aborted = false) (hfits : OffsetsFit lib r.build .stopBuildStep) :
    Recoverable lib (r.after (stopBuildStep lib) []) := by
  have hsafe := h.state haborted
  unfold OffsetsFit at hfits
  refine .after ?_
  rw [List.append_nil]
  refine (stopBuildStep_ends hlib hsafe.invariant (E := fun e s' => s' = r.build) (fun _ => rfl)
    hsafe.reach
    (by omega)).mono ?_ ?_
  · rintro _ _ (⟨rfl, _⟩ | ⟨hunderway, rfl, hnext⟩)
    · exact ⟨h.past, hsafe⟩
    · refine ⟨fun content hcontent => ?_, .stopped hnext⟩
      rw [past_stopped (pack_ne_nil hlib _), List.mem_append, List.mem_append,
        List.mem_singleton, List.mem_singleton] at hcontent
      obtain (hold | rfl) | rfl := hcontent
      · exact h.past content hold
      · -- The list is written, and the header still points to the old one.
        refine recovers_of_longer ?_
        rw [header_listed hsafe.invariant.header_le
          (hsafe.invariant.stoppable hunderway (hsafe.reach hunderway)).pos]
        exact Nat.lt_of_lt_of_le (hsafe.outgrown hunderway) (length_le_overwrite _ _ _ _)
      · exact (CrashSafe.stopped hnext).recovers
  · rintro _ _ rfl
    exact ⟨h.past, fun _ => hsafe⟩

theorem Recoverable.step (hlib : lib.Faithful) (h : Recoverable lib r) {op : BuildOp}
    {r' : BuilderRun} (hfits : OffsetsFit lib r.build op) (hgrows : OutgrowsList r.build op)
    (hstep : r.step lib op = some r') : Recoverable lib r' := by
  unfold BuilderRun.step at hstep
  cases haborted : r.aborted with
  | true =>
    rw [haborted, if_pos rfl] at hstep
    cases hstep
  | false =>
    have hsafe := h.state haborted
    rw [haborted, if_neg (by decide)] at hstep
    cases op with
    | startBuildStep =>
      cases hstep
      refine .after ?_
      rw [List.append_nil]
      refine (startBuildStep_ends hsafe.invariant (E := fun _ s' => s' = r.build)
        fun _ => rfl).mono ?_ ?_
      · rintro _ _ ⟨hidle, rfl⟩
        exact ⟨h.past, hsafe.inStep hidle⟩
      · rintro _ _ rfl
        exact ⟨h.past, fun _ => hsafe⟩
    | append packId data fingerprintId =>
      cases hstep
      exact h.append haborted hfits hgrows
    | stopBuildStep =>
      cases hstep
      exact h.stop hlib haborted hfits
    | reserve size =>
      cases hstep
      refine .after ?_
      rw [List.append_nil]
      exact ends_modify ⟨h.past, hsafe.invariant.reserved _,
        fun hunderway => hsafe.outgrown ⟨hunderway.step, hunderway.pos⟩⟩

/-- An invalid header is not loaded. -/
theorem recovers_of_version {content : List UInt8} {entries : List Entry}
    (h : (XNNPackCacheHeader.read content).version ≠ XNNPackCacheHeader.kVersion) :
    Recovers lib entries content :=
  recovers_of_not_loadable fun hload => h hload.version

theorem header_beforeFirstStop (fd : FileDescriptor) :
    (beforeFirstStop fd).header = invalidHeader :=
  read_invalidHeader

theorem Recoverable.started (hlib : lib.Faithful) {fd : FileDescriptor} (hpast : fd.past = [])
    (hfits : OffsetsFit lib (beforeFirstStop fd) .stopBuildStep) :
    Recoverable lib (.started lib fd) := by
  unfold OffsetsFit at hfits
  have hinvalid : invalidHeader.version ≠ XNNPackCacheHeader.kVersion := by decide
  have hsafe := CrashSafe.stopped (invariant_stopped hlib (stoppable_first lib fd) (by omega))
  have hstarted : BuilderRun.started lib fd = ⟨(beforeFirstStop fd).stopped lib, [], false⟩ := by
    unfold BuilderRun.started BuilderRun.after
    rw [start_eq]
    rfl
  rw [hstarted]
  refine ⟨fun content hcontent => ?_, fun _ => hsafe⟩
  have hfirst : (beforeFirstStop fd).fd.past = [[], invalidHeader.bytes] := by
    change fd.past ++ [[]] ++ [invalidHeader.bytes] = _
    rw [hpast]
    rfl
  rw [past_stopped (pack_ne_nil hlib _), hfirst, List.mem_append, List.mem_append,
    List.mem_cons, List.mem_singleton, List.mem_singleton, List.mem_singleton] at hcontent
  obtain ((rfl | rfl) | rfl) | rfl := hcontent
  · exact recovers_of_not_loadable fun hload => absurd hload.size (by decide)
  · refine recovers_of_version ?_
    rw [read_invalidHeader]
    exact hinvalid
  · refine recovers_of_version ?_
    rw [header_listed (stoppable_first lib fd).length (stoppable_first lib fd).pos,
      header_beforeFirstStop]
    exact hinvalid
  · exact hsafe.recovers

end

/-- After a run in which each append lets the file end behind the list of the header, every
content the file has had is rejected or yields what was appended. -/
theorem crash_consistent {lib : Libraries} (hlib : lib.Faithful) {fd : FileDescriptor}
    (hpast : fd.past = []) (hfits : OffsetsFit lib (beforeFirstStop fd) .stopBuildStep)
    {ops : List BuildOp} {r : BuilderRun}
    (hrun : Run (fun (r : BuilderRun) op => OffsetsFit lib r.build op ∧ OutgrowsList r.build op)
      (BuilderRun.step lib) (.started lib fd) ops r) :
    ∀ content ∈ r.build.fd.past, Recovers lib r.appended content := by
  have hrecoverable := hrun.invariant (P := Recoverable lib)
    (fun _ _ _ hallowed hstep h => h.step hlib hallowed.1 hallowed.2 hstep)
    (Recoverable.started hlib hpast hfits)
  exact hrecoverable.past

/-- Two steps, each with an append that is longer than the list before it. -/
def growingSteps : List BuildOp :=
  [.startBuildStep, .append ⟨1, 0, 0⟩ (List.replicate 20 1) 1, .stopBuildStep,
    .startBuildStep, .append ⟨2, 0, 0⟩ (List.replicate 80 2) 1, .stopBuildStep]

theorem crash_consistent_two :
    ∃ r : BuilderRun, r.appended.length = 2 ∧ r.build.fd.past.length = 10 ∧
      ∀ content ∈ r.build.fd.past, Recovers wordLibraries r.appended content := by
  have hrun : ((Run.replay (fun (r : BuilderRun) op =>
      OffsetsFit wordLibraries r.build op ∧ OutgrowsList r.build op)
      (BuilderRun.step wordLibraries) (.started wordLibraries ⟨[], 0, []⟩) growingSteps).any
        fun r => r.appended.length = 2 ∧ r.build.fd.past.length = 10) = true := by
    decide +kernel
  obtain ⟨r, hr, hlengths⟩ := (Option.any_eq_true _ _).1 hrun
  obtain ⟨happended, hpast⟩ := of_decide_eq_true hlengths
  exact ⟨r, happended, hpast,
    crash_consistent wordLibraries_faithful rfl (by decide +kernel) (Run.of_replay hr)⟩

/-- The second step appends a list that says that the first buffer has one byte less. -/
def misleadingSteps : List BuildOp :=
  [.startBuildStep, .append ⟨1, 0, 0⟩ (List.replicate 20 1) 1, .stopBuildStep,
    .startBuildStep, .append ⟨2, 0, 0⟩ (packWords ⟨[1], [⟨⟨1, 0, 0⟩, 0, 19⟩], kBaseOffset⟩) 1]

/-- A content from which the key yields bytes that were not appended under it. -/
def misread (lib : Libraries) (entries : List Entry) (key : PackIdentifier)
    (content : List UInt8) : Bool :=
  match load lib (.new ⟨content, 0, []⟩) with
  | .ok _ p => (p.cacheKeyToOffset.find? key).any fun loc =>
      decide (InsertOrderMap.find? entries key ≠
        some (slice content (p.mmapBufferBaseOffset + loc.offset) loc.size))
  | .error _ _ => false

theorem not_recovers_of_misread {lib : Libraries} {entries : List Entry} {key : PackIdentifier}
    {content : List UInt8} (h : misread lib entries key content = true) :
    ¬Recovers lib entries content := by
  intro hrecovers
  have hends := hrecovers (.new ⟨content, 0, []⟩) rfl
  unfold misread at h
  rw [Ends] at hends
  split at h
  · rename_i a p hok
    rw [hok] at hends
    obtain ⟨loc, hloc, hne⟩ := (Option.any_eq_true _ _).1 h
    obtain ⟨data, hdata, hbytes⟩ := hends key loc hloc
    refine of_decide_eq_true hne ?_
    rw [hdata, hbytes]
  · cases h

theorem overwritten_list_accepted :
    ∃ (r : BuilderRun) (content : List UInt8),
      Run (fun r op => OffsetsFit wordLibraries r.build op) (BuilderRun.step wordLibraries)
        (.started wordLibraries ⟨[], 0, []⟩) misleadingSteps r ∧
      content ∈ r.build.fd.past ∧ ¬Recovers wordLibraries r.appended content := by
  have hrun : ((Run.replay (fun (r : BuilderRun) op => OffsetsFit wordLibraries r.build op)
      (BuilderRun.step wordLibraries) (.started wordLibraries ⟨[], 0, []⟩) misleadingSteps).any
        fun r => r.build.fd.past.any (misread wordLibraries r.appended ⟨1, 0, 0⟩)) = true := by
    decide +kernel
  obtain ⟨r, hr, hpast⟩ := (Option.any_eq_true _ _).1 hrun
  obtain ⟨content, hcontent, hmisread⟩ := List.any_eq_true.1 hpast
  exact ⟨r, content, Run.of_replay hr, hcontent, not_recovers_of_misread hmisread⟩

end LiteRt.WeightCache
