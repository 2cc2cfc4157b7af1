import LiteRt.WeightCache.RequestRuns

/-!
# What a failed load leaves behind

A file whose first buffer is valid leaves a key and an address when it is rejected, and the
addresses of an earlier file are never removed. Everything else a provider answers is as if the
file had been empty.
-/

namespace LiteRt.WeightCache

open LiteRt.Lib

variable {lib : Libraries} {p p' : MMapWeightCacheProvider} {c c' : Cache}

/-- A load that fails keeps no key, and no address in the mapping of the file. -/
def LeavesNoTrace (lib : Libraries) (fd : FileDescriptor) (c : Cache) : Prop :=
  ∀ c', Cache.load lib fd c = .error .failed c' → c'.provider.cacheKeyToOffset = [] ∧
    ∀ entry ∈ c'.provider.offsetToAddr, entry.2.mapping ≠ c.provider.mappings

/-- Nothing is loaded, and no build was started. -/
def Inactive (c : Cache) : Prop :=
  c.builder.isStarted = false ∧ c.provider.mmapHandles = []

/-- The number of the next mapping is taken. -/
def skipMapping (c : Cache) : Cache :=
  { c with provider := { c.provider with mappings := c.provider.mappings + 1 } }

/-- With a file that is not valid, a provider that starts to build answers as with an empty file.
Only the file that is rejected has taken a number. -/
def AnswersAsEmpty (lib : Libraries) (fd : FileDescriptor) (c : Cache) : Prop :=
  fd.content ≠ [] → ¬Loadable lib fd.content → Inactive c → ∀ requests,
    replies lib (.loadOrStartBuild fd :: requests) c =
      replies lib (.startBuild ⟨[], 0, fd.past⟩ :: requests) (skipMapping c)

/-- Once it is released and another file is loaded, a provider has keys of that file only, and
addresses in its mapping or in memory. -/
def ForgetsEarlier (lib : Libraries) (fd : FileDescriptor) (c : Cache) : Prop :=
  let c' := after (do Cache.release; Cache.load lib fd) c
  (∀ key location, c'.provider.cacheKeyToOffset.find? key = some location →
    ∃ b ∈ (listOf lib fd.content).buffers, b.id = key ∧ location = ⟨b.offset, b.size⟩) ∧
  ∀ entry ∈ c'.provider.offsetToAddr, entry.2.mapping = c.provider.mappings ∨
    ∃ b ∈ c'.misses, b.ptr = entry.2

/-- Where a load leaves nothing behind: a list that is rejected is rejected with its first buffer,
an inactive provider has no keys yet, and there are only addresses in memory. -/
structure NothingLoaded (lib : Libraries) (fd : FileDescriptor) (c : Cache) : Prop where
  first : Listed lib fd.content → ¬Loadable lib fd.content →
    ∀ b ∈ (listOf lib fd.content).buffers.head?, ¬Inside lib fd.content b
  keys : fd.content ≠ [] → ¬Loadable lib fd.content → Inactive c → c.provider.cacheKeyToOffset = []
  addresses : ∀ entry ∈ c.provider.offsetToAddr, ∃ b ∈ c.misses, b.ptr = entry.2

/-! ## Loads of a provider that is not building -/

/-- The provider with another file. -/
def opened (fd : FileDescriptor) (c : Cache) : Cache :=
  { c with provider := { c.provider with build := { c.provider.build with fd := fd } } }

theorem openFile_eq (hidle : c.isBuilding = false) (fd : FileDescriptor) :
    Cache.openFile fd c = .ok () (opened fd c) := by
  unfold Cache.openFile
  rw [get_bind_eq, if_neg (by rw [hidle]; decide)]
  rfl

theorem startBuild_eq (hidle : c.isBuilding = false) (fd : FileDescriptor) :
    Cache.startBuild lib fd c = onProvider (onBuilder (start lib)) (opened fd c) :=
  bind_ok_eq (openFile_eq hidle fd)

theorem load_eq (hidle : c.isBuilding = false) (fd : FileDescriptor) :
    Cache.load lib fd c = onProvider (load lib) (opened fd c) :=
  bind_ok_eq (openFile_eq hidle fd)

theorem keysOf_ne_nil {buffers : List Buffer} (h : buffers ≠ []) : keysOf buffers [] ≠ [] := by
  cases buffers with
  | nil => exact absurd rfl h
  | cons buffer buffers =>
    intro hnil
    have hfind := find?_keysOf (buffer :: buffers) [] buffer.id
    rw [hnil, List.find?_cons_of_pos (by simp)] at hfind
    cases hfind

theorem accepted_eq_nil {content : List UInt8} : accepted lib content = [] ↔
    (Listed lib content → ∀ b ∈ (listOf lib content).buffers.head?, ¬Inside lib content b) := by
  unfold accepted
  split
  · rename_i hlisted
    cases (listOf lib content).buffers with
    | nil => simp
    | cons buffer buffers =>
      rw [List.takeWhile_cons]
      by_cases hinside : Inside lib content buffer
      · simp [hinside, hlisted]
      · simp [hinside]
  · rename_i hnot
    exact iff_of_true rfl fun hlisted => absurd hlisted hnot

theorem accepted_subset (lib : Libraries) (content : List UInt8) :
    accepted lib content ⊆ (listOf lib content).buffers := by
  unfold accepted
  split
  · exact fun _ h => (List.takeWhile_sublist _).subset h
  · exact List.nil_subset _

/-- A load succeeds with a valid file, and fails with another one. -/
theorem load_cases (lib : Libraries) (hidle : c.isBuilding = false) (fd : FileDescriptor) :
    (Loadable lib fd.content ∧ ∃ p', Cache.load lib fd c = .ok () { c with provider := p' } ∧
      LoadedFrom lib (opened fd c).provider p') ∨
    (¬Loadable lib fd.content ∧ ∃ p',
      Cache.load lib fd c = .error .failed { c with provider := p' } ∧
        Recorded lib (opened fd c).provider p' ∧ p'.mmapHandles = []) := by
  have hload := @load_fails lib (opened fd c).provider
  rw [load_eq hidle]
  unfold onProvider
  rw [Ends] at hload
  cases hresult : load lib (opened fd c).provider with
  | ok a p' =>
    rw [hresult] at hload
    exact .inl ⟨hload.1, p', rfl, hload.2⟩
  | error e p' =>
    rw [hresult] at hload
    obtain ⟨rfl, hnot, hrecorded, hhandles⟩ := hload
    exact .inr ⟨hnot, p', rfl, hrecorded, hhandles⟩

/-! ## The three properties -/

theorem leavesNoTrace_iff (hnumbered : Numbered c) (hidle : c.isBuilding = false)
    (fd : FileDescriptor) : LeavesNoTrace lib fd c ↔
      (¬Loadable lib fd.content → accepted lib fd.content = []) := by
  obtain ⟨hloadable, p', hload, -⟩ | ⟨hnot, p', hload, hrecorded, -⟩ := load_cases lib hidle fd
  · refine iff_of_true (fun c' hfailed => ?_) fun hnot => absurd hloadable hnot
    rw [hload] at hfailed
    cases hfailed
  · constructor
    · intro htrace _
      by_contra hne
      exact keysOf_ne_nil hne (hrecorded.keys.symm.trans (htrace _ hload).1)
    · intro haccepted c' hfailed
      have hnil : accepted lib (opened fd c).provider.content = [] := haccepted hnot
      cases hload.symm.trans hfailed
      refine ⟨by rw [hrecorded.keys, hnil]; rfl, fun entry hentry heq => ?_⟩
      have hold : entry ∈ c.provider.offsetToAddr := by
        rw [hrecorded.addresses, hnil] at hentry
        exact hentry
      exact Nat.lt_irrefl _ (heq ▸ hnumbered.provider.addresses entry hold)

def released (c : Cache) : Cache :=
  { c with provider := { c.provider with
    build := { c.provider.build with
      builder := { WeightCacheBuilder.new with isBuildStep := c.builder.isBuildStep } }
    cacheKeyToOffset := []
    mmapHandles := []
    mmapBufferBaseOffset := 0 } }

theorem release_eq (c : Cache) : Cache.release c = .ok () (released c) := rfl

theorem forgetsEarlier_iff (hnumbered : Numbered c) (hidle : c.isBuilding = false)
    (fd : FileDescriptor) : ForgetsEarlier lib fd c ↔
      ∀ entry ∈ c.provider.offsetToAddr, ∃ b ∈ c.misses, b.ptr = entry.2 := by
  have hload : ∃ p' buffers, after (do Cache.release; Cache.load lib fd) c =
      { c with provider := p' } ∧ buffers ⊆ (listOf lib fd.content).buffers ∧
      p'.cacheKeyToOffset = keysOf buffers [] ∧
      p'.offsetToAddr = addressesOf c.provider.mappings (listOf lib fd.content).baseOffset buffers
        c.provider.offsetToAddr := by
    unfold after
    rw [bind_ok_eq (release_eq c)]
    obtain ⟨-, p', heq, hfrom⟩ | ⟨-, p', heq, hrecorded, -⟩ :=
      load_cases lib (show (released c).isBuilding = false from hidle) fd
    · rw [heq]
      exact ⟨p', _, rfl, fun _ h => h, hfrom.keys, hfrom.addresses⟩
    · rw [heq]
      exact ⟨p', _, rfl, accepted_subset lib _, hrecorded.keys, hrecorded.addresses⟩
  obtain ⟨p', buffers, hafter, hsubset, hkeys, haddresses⟩ := hload
  unfold ForgetsEarlier
  rw [hafter]
  dsimp only
  rw [hkeys, haddresses]
  constructor
  · rintro ⟨-, hall⟩ entry hentry
    refine (hall entry (subset_addressesOf _ _ _ _ hentry)).resolve_left fun heq => ?_
    exact Nat.lt_irrefl _ (heq ▸ hnumbered.provider.addresses entry hentry)
  · intro hmemory
    refine ⟨fun key location hfind => ?_, fun entry hentry => ?_⟩
    · rw [find?_keysOf] at hfind
      obtain ⟨b, hb, rfl⟩ := Option.map_eq_some_iff.1 hfind
      exact ⟨b, hsubset (List.mem_of_find?_eq_some hb), by simpa using List.find?_some hb, rfl⟩
    · rcases mem_addressesOf hentry with hold | hnew
      · exact .inr (hmemory entry hold)
      · exact .inl hnew

/-! ## Building after a failed load -/

/-- `Start` truncates the file before it reads it. -/
theorem start_truncates (hstarted : c.builder.isStarted = false) (fd : FileDescriptor) :
    start lib ⟨c.builder, fd⟩ = start lib ⟨c.builder, ⟨[], 0, fd.past⟩⟩ := by
  unfold start
  rw [get_bind_eq, get_bind_eq]
  dsimp only
  rw [hstarted]
  rfl

theorem startBuildStep_fails (lib : Libraries) (s : Build) :
    Ends (startBuildStep lib) s (fun _ _ => True) fun e _ => e = .failed := by
  refine ends_get ?_
  split
  · exact ends_throw rfl
  · split
    · exact ends_throw rfl
    · refine ends_modify_bind ?_
      split
      · exact ends_throw rfl
      · refine ends_modify_bind (Ends.bind ((Intervals.reloadSchema_flag lib _ _).mono
          (fun _ _ _ => trivial) fun _ _ h => h.1) fun _ _ _ => ?_)
        exact ends_modify_bind (ends_modify trivial)

theorem stopBuildStep_fails (lib : Libraries) (s : Build) :
    Ends (stopBuildStep lib) s (fun _ _ => True) fun e _ => e = .failed := by
  rw [Ends]
  cases hstep : s.builder.isBuildStep with
  | false => rw [stopBuildStep_failed lib hstep]
  | true =>
    cases hstarted : s.builder.isStarted with
    | false => rw [Intervals.stopBuildStep_unstarted lib hstarted]
    | true =>
      rw [stopBuildStep_eq lib hstep hstarted]
      by_cases hunmoved : s.fd.pos = s.builder.buildSegmentStart ∧ s.builder.firstWriteDone
      · rw [if_pos hunmoved]
        trivial
      · rw [if_neg hunmoved]
        trivial

/-- `Start` does not abort the process. -/
theorem start_fails (lib : Libraries) (s : Build) :
    Ends (start lib) s (fun _ _ => True) fun e _ => e = .failed := by
  refine ends_get ?_
  split
  · exact ends_throw rfl
  · refine ends_modifyBuilder_bind ?_
    refine ends_modifyFile_bind ?_
    refine ends_modifyFile_bind ?_
    refine ends_modifyBuilder_bind ?_
    exact (startBuildStep_fails lib _).bind fun _ s' _ => stopBuildStep_fails lib s'

theorem map_apply {σ α β : Type} (f : α → β) (x : EStateM Stop σ α) (s : σ) :
    (f <$> x) s = match x s with
      | .ok a s' => .ok (f a) s'
      | .error e s' => .error e s' := by
  change EStateM.map f x s = _
  unfold EStateM.map
  cases x s <;> rfl

/-- The provider with another builder and file. -/
def withBuild (build : Build) (c : Cache) : Cache :=
  { c with provider := { c.provider with build := build } }

theorem onBuilder_apply {α : Type} (x : BuildM α) (c : Cache) :
    onProvider (onBuilder x) c = match x c.provider.build with
      | .ok a build => .ok a (withBuild build c)
      | .error e build => .error e (withBuild build c) := by
  unfold onProvider onBuilder
  cases x c.provider.build <;> rfl

theorem startBuild_reply (lib : Libraries) (hidle : c.isBuilding = false) (fd : FileDescriptor) :
    (Request.startBuild fd).reply lib c =
      (if Intervals.succeeds (start lib) ⟨c.builder, fd⟩ then .done else .failed,
        withBuild (after (start lib) ⟨c.builder, fd⟩) c) := by
  have hstart := start_fails lib ⟨c.builder, fd⟩
  have hrun : (Request.startBuild fd).run lib c = match start lib ⟨c.builder, fd⟩ with
      | .ok _ build => .ok .done (withBuild build c)
      | .error e build => .error e (withBuild build c) := by
    refine (map_apply _ _ c).trans ?_
    rw [startBuild_eq hidle, onBuilder_apply]
    have hopened : (opened fd c).provider.build = ⟨c.builder, fd⟩ := rfl
    rw [hopened]
    cases start lib ⟨c.builder, fd⟩ <;> rfl
  unfold Request.reply Intervals.succeeds after
  rw [hrun]
  rw [Ends] at hstart
  cases hresult : start lib ⟨c.builder, fd⟩ with
  | ok a build => rfl
  | error e build =>
    rw [hresult] at hstart
    cases hstart
    rfl

theorem loadOrStartBuild_reply {fd : FileDescriptor} (hcontent : fd.content ≠ [])
    (hload : Cache.load lib fd c = .error .failed c') :
    (Request.loadOrStartBuild fd).reply lib c = (Request.startBuild fd).reply lib c' := by
  have heq : Cache.loadOrStartBuild lib fd c = Cache.startBuild lib fd c' := by
    unfold Cache.loadOrStartBuild
    rw [if_neg hcontent, hload]
  have hrun : (Request.loadOrStartBuild fd).run lib c = (Request.startBuild fd).run lib c' := by
    refine (map_apply _ _ c).trans (Eq.trans ?_ (map_apply _ _ c').symm)
    rw [heq]
  unfold Request.reply
  rw [hrun]

theorem replies_lookUp (lib : Libraries) (key : PackIdentifier) (c : Cache) :
    replies lib [.lookUp key] c =
      [.offset ((c.provider.cacheKeyToOffset.find? key).map BufferLocation.offset)] := by
  unfold replies
  dsimp only
  have hreply : (Request.lookUp key).reply lib c =
      (.offset ((c.provider.cacheKeyToOffset.find? key).map BufferLocation.offset), c) := rfl
  rw [hreply, if_neg (by simp)]
  rfl

theorem answersAsEmpty_iff (hidle : c.isBuilding = false) (fd : FileDescriptor)
    (haccepted : ¬Loadable lib fd.content → accepted lib fd.content = []) :
    AnswersAsEmpty lib fd c ↔ (fd.content ≠ [] → ¬Loadable lib fd.content → Inactive c →
      c.provider.cacheKeyToOffset = []) := by
  unfold AnswersAsEmpty
  refine forall_congr' fun hcontent => forall_congr' fun hnot => forall_congr' fun hinactive => ?_
  obtain ⟨hloadable, -⟩ | ⟨-, p', hload, hrecorded, hhandles⟩ := load_cases lib hidle fd
  · exact absurd hloadable hnot
  have hnil : accepted lib (opened fd c).provider.content = [] := haccepted hnot
  have hbuild : p'.build = ⟨c.builder, fd⟩ := hrecorded.build
  have hidle' : ({ c with provider := p' } : Cache).isBuilding = false := by
    unfold Cache.isBuilding Cache.builder
    rw [hbuild]
    exact hidle
  have hbuilder : ({ c with provider := p' } : Cache).builder = c.builder := by
    unfold Cache.builder
    rw [hbuild]
    rfl
  have hleft := startBuild_reply lib hidle' fd
  rw [hbuilder, ← loadOrStartBuild_reply hcontent hload] at hleft
  have hright := startBuild_reply lib (show (skipMapping c).isBuilding = false from hidle)
    ⟨[], 0, fd.past⟩
  have hfirst := @start_truncates lib c hinactive.1 fd
  have hsame : Intervals.succeeds (start lib) ⟨c.builder, fd⟩ =
      Intervals.succeeds (start lib) ⟨c.builder, ⟨[], 0, fd.past⟩⟩ := by
    unfold Intervals.succeeds
    rw [hfirst]
  have hafter : after (start lib) ⟨c.builder, fd⟩ =
      after (start lib) ⟨c.builder, ⟨[], 0, fd.past⟩⟩ := by
    unfold after
    rw [hfirst]
  change _ = ((if Intervals.succeeds (start lib) ⟨c.builder, ⟨[], 0, fd.past⟩⟩ then Answer.done
    else .failed), withBuild (after (start lib) ⟨c.builder, ⟨[], 0, fd.past⟩⟩) _) at hright
  rw [← hsame, ← hafter] at hright
  obtain ⟨answer, hanswer, heq⟩ : ∃ answer : Answer, answer ≠ .aborted ∧
      (if Intervals.succeeds (start lib) ⟨c.builder, fd⟩ then Answer.done else .failed) = answer :=
    ⟨_, by split <;> decide, rfl⟩
  rw [heq] at hleft hright
  have hrest : ∀ requests, (replies lib (.loadOrStartBuild fd :: requests) c =
      replies lib (.startBuild ⟨[], 0, fd.past⟩ :: requests) (skipMapping c)) ↔
      replies lib requests
          (withBuild (after (start lib) ⟨c.builder, fd⟩) { c with provider := p' }) =
        replies lib requests (withBuild (after (start lib) ⟨c.builder, fd⟩) (skipMapping c)) := by
    intro requests
    conv_lhs => unfold replies
    dsimp only
    rw [hleft, hright, if_neg hanswer, if_neg hanswer, List.cons_eq_cons, and_iff_right rfl]
  simp only [hrest]
  constructor
  · intro hall
    -- A key that was there is forgotten by the load only.
    by_contra hne
    obtain ⟨⟨key, location⟩, hmem⟩ := List.exists_mem_of_ne_nil _ hne
    obtain ⟨location', hfind⟩ : ∃ location', c.provider.cacheKeyToOffset.find? key =
        some location' := InsertOrderMap.isSome_find? (List.mem_map_of_mem (f := Prod.fst) hmem)
    have hlookUp := hall [.lookUp key]
    rw [replies_lookUp, replies_lookUp] at hlookUp
    change [Answer.offset ((p'.cacheKeyToOffset.find? key).map BufferLocation.offset)] =
      [.offset ((c.provider.cacheKeyToOffset.find? key).map BufferLocation.offset)] at hlookUp
    rw [hrecorded.keys, hnil, hfind] at hlookUp
    cases hlookUp
  · intro hkeys requests
    refine replies_same lib requests ⟨⟨c.provider.mmapBufferBaseOffset, ?_⟩, rfl⟩
    have hkeys' : p'.cacheKeyToOffset = c.provider.cacheKeyToOffset := by
      rw [hrecorded.keys, hnil, hkeys]
      rfl
    have haddresses : p'.offsetToAddr = c.provider.offsetToAddr := by
      rw [hrecorded.addresses, hnil]
      rfl
    have hmin : p'.minOffset = c.provider.minOffset := hrecorded.minOffset
    have hmappings : p'.mappings = c.provider.mappings + 1 := by
      have hcount := hrecorded.mappings
      rwa [if_neg (show (opened fd c).provider.content ≠ [] by exact hcontent)] at hcount
    have hhandles' : p'.mmapHandles = c.provider.mmapHandles := by rw [hhandles, hinactive.2]
    unfold withBuild skipMapping
    dsimp only
    rw [hkeys', haddresses, hmin, hmappings, hhandles']

/-- The second buffer of the list is behind the end of the file. -/
def rejectedList : BufferList := ⟨[1], [⟨⟨1, 2, 3⟩, 0, 1⟩, ⟨⟨1, 2, 4⟩, 5000, 1⟩], 128⟩

def rejectedFile : FileDescriptor where
  content := XNNPackCacheHeader.bytes
      ⟨XNNPackCacheHeader.kVersion, 256, (packWords rejectedList).length, 0⟩ ++
    List.replicate 224 0 ++ packWords rejectedList
  pos := 0
  past := []

end LiteRt.WeightCache
