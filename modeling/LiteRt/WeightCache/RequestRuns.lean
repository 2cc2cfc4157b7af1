import LiteRt.WeightCache.RejectedLoads

/-!
# Runs of requests

The numbers of mappings and of memory grow, and an answer does not depend on the base offset.
-/

namespace LiteRt.WeightCache

open LiteRt.Lib

variable {lib : Libraries} {p p' : MMapWeightCacheProvider} {c c' : Cache} {α : Type}
  {x : ProviderM α}

/-! ## Numbers of mappings -/

/-- Every address is in a mapping or in memory that was there before. -/
structure ProviderNumbered (n : Nat) (p : MMapWeightCacheProvider) : Prop where
  le : n ≤ p.mappings
  addresses : ∀ entry ∈ p.offsetToAddr, entry.2.mapping < p.mappings
  handles : ∀ handle ∈ p.mmapHandles, handle.mapping < p.mappings

/-- So are the buffers of the handler. -/
structure Numbered (c : Cache) : Prop where
  provider : ProviderNumbered 0 c.provider
  buffers : ∀ b ∈ c.misses, b.ptr.mapping < c.provider.mappings

theorem mem_addressesOf {mapping base : Nat} {buffers : List Buffer}
    {addresses : InsertOrderMap Nat Address} {entry : Nat × Address}
    (h : entry ∈ addressesOf mapping base buffers addresses) :
    entry ∈ addresses ∨ entry.2.mapping = mapping := by
  induction buffers generalizing addresses with
  | nil => exact .inl h
  | cons buffer buffers ih =>
    rcases ih h with hold | hnew
    · rcases InsertOrderMap.mem_emplace hold with hold | rfl
      · exact .inl hold
      · exact .inr rfl
    · exact .inr hnew

/-- Nothing is removed. -/
theorem subset_addressesOf (mapping base : Nat) (buffers : List Buffer)
    (addresses : InsertOrderMap Nat Address) :
    addresses ⊆ addressesOf mapping base buffers addresses := by
  induction buffers generalizing addresses with
  | nil => exact fun _ h => h
  | cons buffer buffers ih =>
    exact fun entry h => ih _ (InsertOrderMap.subset_emplace addresses _ _ h)

section
variable {n : Nat}

theorem ProviderNumbered.mono {m : Nat} (h : ProviderNumbered n p) (hle : m ≤ n) :
    ProviderNumbered m p := ⟨Nat.le_trans hle h.le, h.addresses, h.handles⟩

/-- The list of handles has changed. -/
theorem ProviderNumbered.remapped {handles : List MMapHandle} (h : ProviderNumbered n p)
    (hhandles : ∀ handle ∈ handles, handle.mapping < p.mappings) :
    ProviderNumbered n { p with mmapHandles := handles } := ⟨h.le, h.addresses, hhandles⟩

theorem mapFile_numbered (offset : Nat) (h : ProviderNumbered n p) :
    Ends (mapFile offset) p (fun _ => ProviderNumbered (n + 1)) fun _ => ProviderNumbered n := by
  refine ends_get (ends_check (fun _ => h) fun _ => ends_modify ⟨?_, ?_, ?_⟩)
  · exact Nat.succ_le_succ h.le
  · exact fun entry hentry => Nat.lt_succ_of_lt (h.addresses entry hentry)
  · intro handle hhandle
    rcases List.mem_append.1 hhandle with hhandle | hhandle
    · exact Nat.lt_succ_of_lt (h.handles handle hhandle)
    · rw [List.mem_singleton.1 hhandle]
      exact Nat.lt_succ_self _

/-- The addresses of a list in a mapping that was there. -/
theorem ProviderNumbered.listed {mapping : Nat} (h : ProviderNumbered n p)
    (hmapping : mapping < p.mappings) (base : Nat) (buffers : List Buffer) :
    ProviderNumbered n { p with
      offsetToAddr := addressesOf mapping base buffers p.offsetToAddr } := by
  refine ⟨h.le, fun entry hentry => ?_, h.handles⟩
  rcases mem_addressesOf hentry with hold | hnew
  · exact h.addresses entry hold
  · rw [hnew]
    exact hmapping

theorem accepted_nil (lib : Libraries) : accepted lib [] = [] :=
  if_neg fun h => absurd h.size (by decide)

theorem load_numbered (lib : Libraries) : Keeps (load lib) (ProviderNumbered n) := by
  intro p hp
  refine load_fails.mono ?_ ?_
  · rintro ⟨⟩ p' ⟨-, hload⟩
    refine ⟨?_, fun entry hentry => ?_, fun handle hhandle => ?_⟩
    · rw [hload.mappings]
      exact Nat.le_succ_of_le hp.le
    · rw [hload.addresses] at hentry
      rw [hload.mappings]
      rcases mem_addressesOf hentry with hold | hnew
      · exact Nat.lt_succ_of_lt (hp.addresses entry hold)
      · exact Nat.lt_succ_of_le (Nat.le_of_eq hnew)
    · rw [hload.handles] at hhandle
      rw [hload.mappings, List.mem_singleton.1 hhandle]
      exact Nat.lt_succ_self _
  · rintro e p' ⟨-, -, hrecorded, hhandles⟩
    have hle : p.mappings ≤ p'.mappings := hrecorded.mappings ▸ Nat.le_add_right _ _
    refine ⟨Nat.le_trans hp.le hle, fun entry hentry => ?_, ?_⟩
    · rw [hrecorded.addresses] at hentry
      rcases mem_addressesOf hentry with hold | hnew
      · exact Nat.lt_of_lt_of_le (hp.addresses entry hold) hle
      · rw [hrecorded.mappings]
        split
        · rename_i hempty
          rw [hempty, accepted_nil] at hentry
          exact hp.addresses entry hentry
        · exact Nat.lt_succ_of_le (Nat.le_of_eq hnew)
    · rw [hhandles]
      exact fun handle hhandle => nomatch hhandle

theorem keeps_readThrough_numbered (handle : MMapHandle) (pos k : Nat) :
    Keeps (readThrough handle pos k) (ProviderNumbered n) := by
  refine keeps_get fun p hp => ?_
  split
  · exact ends_pure hp
  · exact ends_throw hp

/-- The last mapping, or one that maps nothing. -/
theorem ProviderNumbered.last (h : ProviderNumbered n p) (hpos : 0 < n) :
    (p.mmapHandles.getLastD .unmapped).mapping < p.mappings := by
  cases hhandles : p.mmapHandles using List.reverseRecOn with
  | nil => exact Nat.lt_of_lt_of_le hpos h.le
  | append_singleton front last =>
    rw [List.getLastD_concat]
    exact h.handles last (hhandles ▸ List.mem_append_right _ List.mem_cons_self)

theorem mapLastBuildStep_numbered (canResize : Bool) (hpos : 0 < n) :
    Keeps (mapLastBuildStep canResize) (ProviderNumbered n) := by
  refine keeps_get fun p hp => ?_
  dsimp only
  split
  · refine ends_modify (hp.remapped fun handle hhandle => ?_)
    rcases List.mem_append.1 hhandle with hhandle | hhandle
    · exact hp.handles handle (List.dropLast_subset _ hhandle)
    · rw [List.mem_singleton.1 hhandle]
      exact hp.last hpos
  · refine Intervals.keeps_onFailure (fun p' hp' => ?_) (fun p' hp' => ?_) p hp
    · exact (mapFile_numbered _ hp').mono (fun _ _ h => h.mono (Nat.le_succ n)) fun _ _ h => h
    · refine hp'.remapped fun handle hhandle => ?_
      rcases List.mem_append.1 hhandle with hhandle | hhandle
      · exact hp'.handles handle hhandle
      · rw [List.mem_singleton.1 hhandle]
        exact Nat.lt_of_lt_of_le hpos hp'.le

theorem loadLastList_numbered (lib : Libraries) (header : XNNPackCacheHeader) (hpos : 0 < n) :
    Keeps (loadLastList lib header) (ProviderNumbered n) := by
  refine keeps_get fun p hp => ?_
  dsimp only
  have hread : Ends (readThrough (p.mmapHandles.getLastD .unmapped) header.bufferListOffset
      header.bufferListSize) p (fun _ p' => p' = p) fun _ p' => p' = p := by
    refine ends_get ?_
    split
    · exact ends_pure rfl
    · exact ends_throw rfl
  refine Ends.bind (hread.mono (fun _ _ h => h) fun _ _ h => h ▸ hp) ?_
  rintro ⟨⟩ _ rfl
  refine ends_check (fun _ => hp) fun _ => ends_modify ?_
  exact hp.listed (hp.last hpos) _ _

theorem loadLastBuildStep_numbered (lib : Libraries) (canResize : Bool) :
    Keeps (loadLastBuildStep lib canResize) (ProviderNumbered n) := by
  refine keeps_get fun p hp => ?_
  split
  · exact load_numbered lib p hp
  · rename_i hhandles
    split
    · exact ends_pure hp
    · -- There is a mapping, so their count is positive from here on.
      have hpos : 0 < p.mappings := by
        obtain ⟨handle, hhandle⟩ := List.exists_mem_of_ne_nil _ hhandles
        exact Nat.lt_of_le_of_lt (Nat.zero_le _) (hp.handles handle hhandle)
      have hself : ProviderNumbered p.mappings p := ⟨Nat.le_refl _, hp.addresses, hp.handles⟩
      refine Ends.mono (Keeps.bind (keeps_readThrough_numbered _ _ _) (fun _ =>
        Keeps.bind (mapLastBuildStep_numbered canResize hpos) fun _ =>
          loadLastList_numbered lib _ hpos) p hself) ?_ ?_
      · exact fun _ _ h => h.mono hp.le
      · exact fun _ _ h => h.mono hp.le

end

/-! ## Requests keep the numbers -/

theorem onBuilder_numbered {n : Nat} (x : BuildM α) :
    Keeps (onBuilder x) (ProviderNumbered n) := by
  intro p h
  refine ends_onBuilder ?_
  rw [Ends]
  cases x p.build with
  | ok a build => exact ⟨h.le, h.addresses, h.handles⟩
  | error e build => exact ⟨h.le, h.addresses, h.handles⟩

theorem numbered_onProvider (hx : ∀ n, Keeps x (ProviderNumbered n)) :
    Keeps (onProvider x) Numbered := by
  intro c h
  have hself : ProviderNumbered c.provider.mappings c.provider :=
    ⟨Nat.le_refl _, h.provider.addresses, h.provider.handles⟩
  have hkept : ∀ p, ProviderNumbered c.provider.mappings p →
      Numbered { c with provider := p } := fun p hp =>
    ⟨hp.mono (Nat.zero_le _), fun b hb => Nat.lt_of_lt_of_le (h.buffers b hb) hp.le⟩
  exact Intervals.ends_onProvider ((hx _ _ hself).mono (fun _ p hp => hkept p hp)
    fun _ p hp => hkept p hp)

theorem numbered_onBuilder (x : BuildM α) :
    Keeps (onProvider (onBuilder x)) Numbered :=
  numbered_onProvider fun _ => onBuilder_numbered x

theorem numbered_openFile (fd : FileDescriptor) : Keeps (Cache.openFile fd) Numbered := by
  refine keeps_get fun c h => ?_
  split
  · exact ends_throw h
  · exact ends_modify ⟨⟨Nat.zero_le _, h.provider.addresses, h.provider.handles⟩, h.buffers⟩

theorem numbered_startBuild (lib : Libraries) (fd : FileDescriptor) :
    Keeps (Cache.startBuild lib fd) Numbered :=
  (numbered_openFile fd).bind fun _ => numbered_onBuilder _

theorem numbered_load (lib : Libraries) (fd : FileDescriptor) :
    Keeps (Cache.load lib fd) Numbered :=
  (numbered_openFile fd).bind fun _ => numbered_onProvider fun _ => load_numbered lib

theorem numbered_loadOrStartBuild (lib : Libraries) (fd : FileDescriptor) :
    Keeps (Cache.loadOrStartBuild lib fd) Numbered := by
  intro c h
  have hload := numbered_load lib fd c h
  rw [Ends] at hload
  by_cases hempty : fd.content = []
  · have heq : Cache.loadOrStartBuild lib fd c = Cache.startBuild lib fd c := if_pos hempty
    rw [Ends, heq]
    exact numbered_startBuild lib fd c h
  · rw [Ends, Cache.loadOrStartBuild, if_neg hempty]
    cases hresult : Cache.load lib fd c with
    | ok a c' =>
      rw [hresult] at hload
      exact hload
    | error e c' =>
      rw [hresult] at hload
      cases e with
      | failed => exact numbered_startBuild lib fd c' hload
      | aborted => exact hload

theorem numbered_reserveMiss (size : Nat) : Keeps (Cache.reserveMiss size) Numbered := by
  refine keeps_modify fun c h => ⟨⟨Nat.zero_le _, ?_, ?_⟩, ?_⟩
  · exact fun entry hentry => Nat.lt_succ_of_lt (h.provider.addresses entry hentry)
  · exact fun handle hhandle => Nat.lt_succ_of_lt (h.provider.handles handle hhandle)
  · exact Intervals.forall_reserve (P := fun b => b.ptr.mapping < c.provider.mappings + 1)
      (fun b hb => Nat.lt_succ_of_lt (h.buffers b hb)) fun _ => Nat.lt_succ_self _

theorem numbered_appendMiss (ptr : Address) (data : List UInt8) :
    Keeps (Cache.appendMiss ptr data) Numbered := by
  refine keeps_get fun c h => ?_
  obtain ⟨hbuffers, -, b, hb, -, haddresses⟩ :=
    @Intervals.forall_append c.handler ptr c.allocated data c.provider.offsetToAddr
      (fun b => b.ptr.mapping < c.provider.mappings + 1)
      (fun b hb => Nat.lt_succ_of_lt (h.buffers b hb)) (fun _ => Nat.lt_succ_self _) fun _ hb => hb
  refine ⟨⟨Nat.zero_le _, fun entry hentry => ?_, fun handle hhandle => ?_⟩, hbuffers⟩
  · change entry ∈ (c.handler.append ptr data c.allocated c.provider.offsetToAddr).2.2 at hentry
    rw [haddresses] at hentry
    rcases InsertOrderMap.mem_emplace hentry with hold | rfl
    · exact Nat.lt_succ_of_lt (h.provider.addresses entry hold)
    · exact hb
  · exact Nat.lt_succ_of_lt (h.provider.handles handle hhandle)

theorem numbered_lookUpOrInsert (lib : Libraries) (cacheKey : PackIdentifier) (ptr : Address)
    (data : List UInt8) (fingerprintId : Int) :
    Keeps (Cache.lookUpOrInsert lib cacheKey ptr data fingerprintId) Numbered := by
  refine keeps_get fun c h => ?_
  split
  · exact ends_pure h
  · have hemplace (location : BufferLocation) : Keeps (modify fun c =>
        { c with provider := { c.provider with
          cacheKeyToOffset := c.provider.cacheKeyToOffset.emplace cacheKey location } } :
        CacheM PUnit) Numbered := keeps_modify fun c' h' =>
      ⟨⟨Nat.zero_le _, h'.provider.addresses, h'.provider.handles⟩, h'.buffers⟩
    dsimp only
    split
    · refine Keeps.bind (keeps_get fun c' h' => ?_) (fun location => ?_) c h
      · split
        · exact ends_pure h'
        · exact numbered_onBuilder _ c' h'
      · split
        · exact keeps_throw _
        · exact (hemplace location).bind fun _ => keeps_pure _
    · refine (numbered_appendMiss ptr data).bind (fun location => ?_) c h
      split
      · exact keeps_throw _
      · exact (hemplace location).bind fun _ => keeps_pure _

/-- A read of the provider. -/
theorem keeps_map {σ α β : Type} {x : EStateM Stop σ α} {P : σ → Prop} (f : α → β)
    (h : Keeps x P) : Keeps (f <$> x) P := by
  rw [← bind_pure_comp]
  exact h.bind fun _ => keeps_pure _

theorem Request.run_numbered (lib : Libraries) (request : Request) :
    Keeps (request.run lib) Numbered := by
  cases request with
  | startBuild fd => exact keeps_map _ (numbered_startBuild lib fd)
  | load fd => exact keeps_map _ (numbered_load lib fd)
  | loadOrStartBuild fd => exact keeps_map _ (numbered_loadOrStartBuild lib fd)
  | startBuildStep =>
    refine keeps_map _ (numbered_onProvider fun n => keeps_get fun p hp => ?_)
    refine ends_check (fun _ => hp) fun _ => ?_
    split
    · exact ends_pure hp
    · exact onBuilder_numbered _ p hp
  | stopBuildStep canResize =>
    exact keeps_map _ (numbered_onProvider fun _ => (onBuilder_numbered _).bind
      fun _ => loadLastBuildStep_numbered lib canResize)
  | stopBuild => exact keeps_map _ (numbered_onBuilder _)
  | release =>
    refine keeps_map _ (Keeps.bind (numbered_onBuilder _) fun _ => keeps_modify fun c h => ?_)
    exact ⟨⟨Nat.zero_le _, h.provider.addresses, fun _ hmem => nomatch hmem⟩, h.buffers⟩
  | reserveSpace size =>
    refine keeps_map _ (keeps_get fun c h => ?_)
    split
    · exact numbered_onBuilder _ c h
    · exact numbered_reserveMiss size c h
  | lookUp cacheKey => exact keeps_map _ (numbered_onProvider fun _ => keeps_get fun _ hp => hp)
  | lookUpOrInsert cacheKey ptr data fingerprintId =>
    exact keeps_map _ (numbered_lookUpOrInsert lib cacheKey ptr data fingerprintId)
  | offsetToAddr offset =>
    refine keeps_map _ (numbered_onProvider fun _ => keeps_get fun p hp => ?_)
    split
    · exact ends_pure hp
    · exact ends_throw hp

theorem Request.reply_snd (lib : Libraries) (request : Request) (c : Cache) :
    (request.reply lib c).2 = after (request.run lib) c := by
  unfold Request.reply after
  cases request.run lib c with
  | ok answer c' => rfl
  | error e c' => cases e <;> rfl

theorem Reached.numbered (h : Reached lib c) : Numbered c := by
  obtain ⟨fd, requests, hrun⟩ := h
  refine hrun.invariant (P := Numbered) ?_ ?_
  · rintro c₁ request c₂ - hstep h₁
    unfold Request.step at hstep
    dsimp only at hstep
    split at hstep
    · cases hstep
    · cases hstep
      rw [Request.reply_snd]
      exact (request.run_numbered lib c₁ h₁).after
  · exact ⟨⟨Nat.zero_le _, List.forall_mem_nil _, List.forall_mem_nil _⟩, List.forall_mem_nil _⟩

/-! ## The base offset is not read -/

/-- The providers differ in the base offset at most. -/
def SameButBase (p p' : MMapWeightCacheProvider) : Prop :=
  ∃ base, p' = { p with mmapBufferBaseOffset := base }

def Same (c c' : Cache) : Prop := SameButBase c.provider c'.provider ∧ c'.misses = c.misses

theorem inStep_onProvider (h : InStep SameButBase x x) :
    InStep Same (onProvider x) (onProvider x) := by
  rintro c c' ⟨hprovider, hmisses⟩
  have hp := h _ _ hprovider
  revert hp
  unfold onProvider
  cases x c.provider with
  | ok a p =>
    cases x c'.provider with
    | ok a' p' => exact fun hp => ⟨hp.1, hp.2, hmisses⟩
    | error e p' => exact False.elim
  | error e p =>
    cases x c'.provider with
    | ok a p' => exact False.elim
    | error e' p' => exact fun hp => ⟨hp.1, hp.2, hmisses⟩

theorem inStep_onBuilder (x : BuildM α) :
    InStep SameButBase (onBuilder x) (onBuilder x) := by
  rintro p _ ⟨base, rfl⟩
  unfold onBuilder
  dsimp only
  cases x p.build with
  | ok a build => exact ⟨rfl, base, rfl⟩
  | error e build => exact ⟨rfl, base, rfl⟩

theorem inStep_check (b : Bool) : InStep SameButBase (check b) (check b) := by
  cases b with
  | false => exact inStep_throw _
  | true => exact inStep_pure _

/-- `Load` resets the base offset. -/
theorem inStep_load (lib : Libraries) : InStep SameButBase (load lib) (load lib) := by
  rintro p _ ⟨base, rfl⟩
  have heq : load lib { p with mmapBufferBaseOffset := base } = load lib p := rfl
  rw [heq]
  cases load lib p with
  | ok a p' => exact ⟨rfl, p'.mmapBufferBaseOffset, rfl⟩
  | error e p' => exact ⟨rfl, p'.mmapBufferBaseOffset, rfl⟩

theorem inStep_onFailure {x : ProviderM Unit}
    {f : MMapWeightCacheProvider → MMapWeightCacheProvider} (hx : InStep SameButBase x x)
    (hf : ∀ p p', SameButBase p p' → SameButBase (f p) (f p')) :
    InStep SameButBase (onFailure x f) (onFailure x f) := by
  intro p p' h
  have hp := hx p p' h
  revert hp
  unfold onFailure
  cases x p with
  | ok a q =>
    cases x p' with
    | ok a' q' => exact id
    | error e' q' => exact False.elim
  | error e q =>
    cases x p' with
    | ok a' q' => exact False.elim
    | error e' q' =>
      rintro ⟨rfl, hq⟩
      cases e with
      | failed => exact ⟨rfl, hf q q' hq⟩
      | aborted => exact ⟨rfl, hq⟩

theorem inStep_mapFile (offset : Nat) : InStep SameButBase (mapFile offset) (mapFile offset) := by
  refine inStep_get ?_
  rintro p _ ⟨base, rfl⟩
  refine InStep.bind (inStep_check _) (fun _ => inStep_modify ?_) p _ ⟨base, rfl⟩
  rintro q _ ⟨base', rfl⟩
  exact ⟨base', rfl⟩

theorem inStep_readThrough (handle : MMapHandle) (pos n : Nat) :
    InStep SameButBase (readThrough handle pos n) (readThrough handle pos n) := by
  refine inStep_get ?_
  rintro p _ ⟨base, rfl⟩
  exact InStep.ite (inStep_pure _) (inStep_throw _) p _ ⟨base, rfl⟩

theorem inStep_mapLastBuildStep (canResize : Bool) :
    InStep SameButBase (mapLastBuildStep canResize) (mapLastBuildStep canResize) := by
  refine inStep_get ?_
  rintro p _ ⟨base, rfl⟩
  refine InStep.ite (inStep_modify ?_) (inStep_onFailure (inStep_mapFile _) ?_) p _ ⟨base, rfl⟩
  · rintro q _ ⟨base', rfl⟩
    exact ⟨base', rfl⟩
  · rintro q _ ⟨base', rfl⟩
    exact ⟨base', rfl⟩

theorem inStep_loadLastList (lib : Libraries) (header : XNNPackCacheHeader) :
    InStep SameButBase (loadLastList lib header) (loadLastList lib header) := by
  refine inStep_get ?_
  rintro p _ ⟨base, rfl⟩
  refine InStep.bind (inStep_readThrough _ _ _) (fun _ => InStep.bind (inStep_check _) fun _ =>
    inStep_modify ?_) p _ ⟨base, rfl⟩
  rintro q _ ⟨base', rfl⟩
  exact ⟨base', rfl⟩

theorem inStep_loadLastBuildStep (lib : Libraries) (canResize : Bool) :
    InStep SameButBase (loadLastBuildStep lib canResize) (loadLastBuildStep lib canResize) := by
  refine inStep_get ?_
  rintro p _ ⟨base, rfl⟩
  exact InStep.ite (inStep_load lib) (InStep.ite (inStep_pure _)
    (InStep.bind (inStep_readThrough _ _ _) fun _ =>
      InStep.bind (inStep_mapLastBuildStep canResize) fun _ => inStep_loadLastList lib _))
    p _ ⟨base, rfl⟩

/-! ## Requests do not read it -/

/-- The rest of a provider is the same. -/
theorem Same.eq (h : Same c c') :
    ∃ base, c' = { c with provider := { c.provider with mmapBufferBaseOffset := base } } := by
  obtain ⟨⟨base, hprovider⟩, hmisses⟩ := h
  refine ⟨base, ?_⟩
  cases c'
  cases hprovider
  cases hmisses
  rfl

theorem inStep_openFile (fd : FileDescriptor) :
    InStep Same (Cache.openFile fd) (Cache.openFile fd) := by
  refine inStep_get fun c c' h => ?_
  obtain ⟨base, rfl⟩ := h.eq
  refine InStep.ite (inStep_throw _) (inStep_modify ?_) c _ h
  rintro c₁ _ ⟨⟨base', hprovider⟩, hmisses⟩
  exact ⟨⟨base', by rw [hprovider]⟩, hmisses⟩

theorem inStep_startBuild (lib : Libraries) (fd : FileDescriptor) :
    InStep Same (Cache.startBuild lib fd) (Cache.startBuild lib fd) :=
  (inStep_openFile fd).bind fun _ => inStep_onProvider (inStep_onBuilder _)

theorem inStep_cacheLoad (lib : Libraries) (fd : FileDescriptor) :
    InStep Same (Cache.load lib fd) (Cache.load lib fd) :=
  (inStep_openFile fd).bind fun _ => inStep_onProvider (inStep_load lib)

theorem inStep_loadOrStartBuild (lib : Libraries) (fd : FileDescriptor) :
    InStep Same (Cache.loadOrStartBuild lib fd) (Cache.loadOrStartBuild lib fd) := by
  intro c c' h
  have hload := inStep_cacheLoad lib fd c c' h
  unfold Cache.loadOrStartBuild
  by_cases hempty : fd.content = []
  · rw [if_pos hempty, if_pos hempty]
    exact inStep_startBuild lib fd c c' h
  · rw [if_neg hempty, if_neg hempty]
    revert hload
    cases Cache.load lib fd c with
    | ok a c₁ =>
      cases Cache.load lib fd c' with
      | ok a' c₁' => exact id
      | error e' c₁' => exact False.elim
    | error e c₁ =>
      cases Cache.load lib fd c' with
      | ok a' c₁' => exact False.elim
      | error e' c₁' =>
        rintro ⟨rfl, h₁⟩
        cases e with
        | failed => exact inStep_startBuild lib fd c₁ c₁' h₁
        | aborted => exact ⟨rfl, h₁⟩

theorem inStep_append (lib : Libraries) (packId : PackIdentifier) (data : List UInt8)
    (fingerprintId : Int) : InStep Same (Cache.append lib packId data fingerprintId)
      (Cache.append lib packId data fingerprintId) := by
  refine inStep_get fun c c' h => ?_
  obtain ⟨base, rfl⟩ := h.eq
  exact InStep.ite (inStep_pure _) (inStep_onProvider (inStep_onBuilder _)) c _ h

theorem inStep_appendMiss (ptr : Address) (data : List UInt8) :
    InStep Same (Cache.appendMiss ptr data) (Cache.appendMiss ptr data) := by
  refine inStep_get fun c c' h => ?_
  obtain ⟨base, rfl⟩ := h.eq
  exact ⟨rfl, ⟨base, rfl⟩, rfl⟩

theorem inStep_lookUpOrInsert (lib : Libraries) (cacheKey : PackIdentifier) (ptr : Address)
    (data : List UInt8) (fingerprintId : Int) :
    InStep Same (Cache.lookUpOrInsert lib cacheKey ptr data fingerprintId)
      (Cache.lookUpOrInsert lib cacheKey ptr data fingerprintId) := by
  refine inStep_get fun c c' h => ?_
  obtain ⟨base, rfl⟩ := h.eq
  cases hfind : c.provider.cacheKeyToOffset.find? cacheKey with
  | some location => exact ⟨rfl, h⟩
  | none =>
    refine InStep.ite ((inStep_append lib cacheKey data fingerprintId).bind fun location => ?_)
      ((inStep_appendMiss ptr data).bind fun location => ?_) c _ h
    -- both places are recorded in the same way
    all_goals
      refine InStep.ite (inStep_throw _) (InStep.bind (inStep_modify fun c c' h => ?_) fun _ =>
        inStep_pure _)
      obtain ⟨base, rfl⟩ := h.eq
      exact ⟨⟨base, rfl⟩, rfl⟩

theorem inStep_map {α β : Type} {x : CacheM α} (f : α → β) (h : InStep Same x x) :
    InStep Same (f <$> x) (f <$> x) := by
  rw [← bind_pure_comp]
  exact h.bind fun _ => inStep_pure _

theorem inStep_stopBuild : InStep Same Cache.stopBuild Cache.stopBuild :=
  inStep_onProvider (inStep_onBuilder _)

theorem Request.run_inStep (lib : Libraries) (request : Request) :
    InStep Same (request.run lib) (request.run lib) := by
  cases request with
  | startBuild fd => exact inStep_map _ (inStep_startBuild lib fd)
  | load fd => exact inStep_map _ (inStep_cacheLoad lib fd)
  | loadOrStartBuild fd => exact inStep_map _ (inStep_loadOrStartBuild lib fd)
  | startBuildStep =>
    refine inStep_map _ (inStep_onProvider (inStep_get ?_))
    rintro p _ ⟨base, rfl⟩
    exact InStep.bind (inStep_check _) (fun _ => InStep.ite (inStep_pure _) (inStep_onBuilder _))
      p _ ⟨base, rfl⟩
  | stopBuildStep canResize =>
    exact inStep_map _ (inStep_onProvider ((inStep_onBuilder _).bind
      fun _ => inStep_loadLastBuildStep lib canResize))
  | stopBuild => exact inStep_map _ inStep_stopBuild
  | release =>
    refine inStep_map _ (inStep_stopBuild.bind fun _ => inStep_modify fun c c' h => ?_)
    obtain ⟨base, rfl⟩ := h.eq
    exact ⟨⟨0, rfl⟩, rfl⟩
  | reserveSpace size =>
    refine inStep_map _ (inStep_get fun c c' h => ?_)
    obtain ⟨base, rfl⟩ := h.eq
    refine InStep.ite (inStep_onProvider (inStep_onBuilder _)) (inStep_modify fun c₁ c₁' h₁ => ?_)
      c _ h
    obtain ⟨base', rfl⟩ := h₁.eq
    exact ⟨⟨base', rfl⟩, rfl⟩
  | lookUp cacheKey =>
    refine inStep_map _ (inStep_onProvider (inStep_get ?_))
    rintro p _ ⟨base, rfl⟩
    exact ⟨rfl, base, rfl⟩
  | lookUpOrInsert cacheKey ptr data fingerprintId =>
    exact inStep_map _ (inStep_lookUpOrInsert lib cacheKey ptr data fingerprintId)
  | offsetToAddr offset =>
    refine inStep_map _ (inStep_onProvider (inStep_get ?_))
    rintro p _ ⟨base, rfl⟩
    dsimp only
    cases p.offsetToAddr.find? offset with
    | some address => exact ⟨rfl, base, rfl⟩
    | none => exact ⟨rfl, base, rfl⟩

theorem Request.reply_same (lib : Libraries) (request : Request) (h : Same c c') :
    (request.reply lib c).1 = (request.reply lib c').1 ∧
      Same (request.reply lib c).2 (request.reply lib c').2 := by
  have hrun := request.run_inStep lib c c' h
  revert hrun
  unfold Request.reply
  cases request.run lib c with
  | ok answer c₁ =>
    cases request.run lib c' with
    | ok answer' c₁' => exact id
    | error e' c₁' => exact False.elim
  | error e c₁ =>
    cases request.run lib c' with
    | ok answer' c₁' => exact False.elim
    | error e' c₁' =>
      rintro ⟨rfl, h₁⟩
      cases e <;> exact ⟨rfl, h₁⟩

/-- Providers that differ in the base offset at most give the same answers from then on. -/
theorem replies_same (lib : Libraries) (requests : List Request) (h : Same c c') :
    replies lib requests c = replies lib requests c' := by
  induction requests generalizing c c' with
  | nil => rfl
  | cons request requests ih =>
    obtain ⟨hanswer, hsame⟩ := request.reply_same lib h
    unfold replies
    dsimp only
    rw [hanswer, ih hsame]

end LiteRt.WeightCache
