import LiteRt.WeightCache.BuildIntervals

/-!
# What a load that fails has recorded

The buffers are checked one by one, and each is recorded before the next one is checked. The
mapping is removed at the end, but not the keys and the addresses.
-/

namespace LiteRt.WeightCache

open LiteRt.Lib

variable {lib : Libraries} {p p' : MMapWeightCacheProvider}

instance (size base : Nat) (buffer : Buffer) : Decidable (EndsInside size base buffer) :=
  inferInstanceAs (Decidable (_ ∧ _))

/-- The checks of `Load` before those of the buffers. -/
structure Listed (lib : Libraries) (content : List UInt8) : Prop where
  size : XNNPackCacheHeader.sizeof ≤ content.length
  version : (XNNPackCacheHeader.read content).version = XNNPackCacheHeader.kVersion
  stale : (XNNPackCacheHeader.read content).stale = 0
  offset : (XNNPackCacheHeader.read content).bufferListOffset < content.length
  listSize : (XNNPackCacheHeader.read content).bufferListSize =
    content.length - (XNNPackCacheHeader.read content).bufferListOffset
  verify : lib.verify (bufferListBytes content (XNNPackCacheHeader.read content)) = true
  fingerprints : (listOf lib content).fingerprints.all lib.checkFingerprint = true
  baseOffset : (listOf lib content).baseOffset ≤ content.length

instance (lib : Libraries) (content : List UInt8) : Decidable (Listed lib content) :=
  let header := XNNPackCacheHeader.read content
  decidable_of_iff (XNNPackCacheHeader.sizeof ≤ content.length ∧
      header.version = XNNPackCacheHeader.kVersion ∧ header.stale = 0 ∧
      header.bufferListOffset < content.length ∧
      header.bufferListSize = content.length - header.bufferListOffset ∧
      lib.verify (bufferListBytes content header) = true ∧
      (listOf lib content).fingerprints.all lib.checkFingerprint = true ∧
      (listOf lib content).baseOffset ≤ content.length)
    ⟨fun ⟨h₁, h₂, h₃, h₄, h₅, h₆, h₇, h₈⟩ => ⟨h₁, h₂, h₃, h₄, h₅, h₆, h₇, h₈⟩, fun h =>
      ⟨h.size, h.version, h.stale, h.offset, h.listSize, h.verify, h.fingerprints, h.baseOffset⟩⟩

/-- The buffer of the list ends inside of the file. -/
def Inside (lib : Libraries) (content : List UInt8) (buffer : Buffer) : Prop :=
  EndsInside content.length (listOf lib content).baseOffset buffer

instance (lib : Libraries) (content : List UInt8) (buffer : Buffer) :
    Decidable (Inside lib content buffer) :=
  inferInstanceAs (Decidable (EndsInside _ _ _))

/-- The buffers in front of the first one that is not inside, if they are checked. -/
def accepted (lib : Libraries) (content : List UInt8) : List Buffer :=
  if Listed lib content then
    (listOf lib content).buffers.takeWhile fun buffer => Inside lib content buffer
  else []

/-- What a load that failed has changed besides the mappings. -/
structure Recorded (lib : Libraries) (p p' : MMapWeightCacheProvider) : Prop where
  build : p'.build = p.build
  keys : p'.cacheKeyToOffset = keysOf (accepted lib p.content) []
  addresses : p'.offsetToAddr = addressesOf p.mappings (listOf lib p.content).baseOffset
    (accepted lib p.content) p.offsetToAddr
  minOffset : p'.minOffset = p.minOffset
  mappings : p'.mappings = p.mappings + if p.content = [] then 0 else 1

theorem loadBuffer_ends (size mapping : Nat) (buffer : Buffer) :
    Ends (loadBuffer size mapping buffer) p
      (fun _ p' => EndsInside size p.mmapBufferBaseOffset buffer ∧ p' = { p with
        cacheKeyToOffset := p.cacheKeyToOffset.emplace buffer.id ⟨buffer.offset, buffer.size⟩
        offsetToAddr := p.offsetToAddr.emplace buffer.offset
          ⟨mapping, p.mmapBufferBaseOffset + buffer.offset⟩ })
      (fun e p' => e = .failed ∧ ¬EndsInside size p.mmapBufferBaseOffset buffer ∧ p' = p) := by
  refine ends_get (ends_check ?_ fun h₁ => ends_check ?_ fun h₂ => ends_modify ?_)
  · exact fun h => ⟨rfl, fun hinside => of_decide_eq_false h hinside.1, rfl⟩
  · exact fun h => ⟨rfl, fun hinside => of_decide_eq_false h hinside.2, rfl⟩
  · exact ⟨⟨of_decide_eq_true h₁, of_decide_eq_true h₂⟩, rfl⟩

/-- The buffers in front of the first one that is not inside are recorded. -/
theorem loadBuffers_fails (size mapping base : Nat) (buffers : List Buffer)
    (hbase : p.mmapBufferBaseOffset = base) :
    Ends (buffers.forM (loadBuffer size mapping)) p (fun _ _ => True)
      (fun e p' => e = .failed ∧ p' = { p with
        cacheKeyToOffset := keysOf (buffers.takeWhile fun buffer => EndsInside size base buffer)
          p.cacheKeyToOffset
        offsetToAddr := addressesOf mapping base
          (buffers.takeWhile fun buffer => EndsInside size base buffer) p.offsetToAddr }) := by
  subst hbase
  induction buffers generalizing p with
  | nil => exact ends_pure trivial
  | cons buffer buffers ih =>
    refine Ends.bind ((loadBuffer_ends size mapping buffer).mono (fun _ _ h => h) ?_) ?_
    · rintro e _ ⟨rfl, hnot, rfl⟩
      rw [List.takeWhile_cons, decide_eq_false hnot]
      exact ⟨rfl, rfl⟩
    · rintro ⟨⟩ _ ⟨hinside, rfl⟩
      refine (ih.mono (fun _ _ _ => trivial) ?_)
      rintro e _ ⟨rfl, rfl⟩
      rw [List.takeWhile_cons, decide_eq_true hinside]
      exact ⟨rfl, rfl⟩

/-- Whatever check fails, the buffers that were accepted stay recorded. -/
theorem loadMapped_fails (hkeys : p.cacheKeyToOffset = []) :
    Ends (loadMapped lib) p (fun _ _ => True) fun e p' => e = .failed ∧ Recorded lib p p' := by
  have hnone : ∀ p' : MMapWeightCacheProvider, p'.build = p.build → p'.cacheKeyToOffset = [] →
      p'.offsetToAddr = p.offsetToAddr → p'.minOffset = p.minOffset →
      p'.mappings = p.mappings + (if p.content = [] then 0 else 1) → ¬Listed lib p.content →
      Recorded lib p p' := by
    intro p' hbuild hkeys' haddresses hmin hmappings hnot
    have haccepted : accepted lib p.content = [] := if_neg hnot
    refine ⟨hbuild, ?_, ?_, hmin, hmappings⟩
    · rw [haccepted]
      exact hkeys'
    · rw [haccepted]
      exact haddresses
  have hmap : Ends (mapFile 0) p (fun _ p' => p.content ≠ [] ∧ p' = { p with
        mmapHandles := p.mmapHandles ++ [⟨p.mappings, 0, p.content.length - 0⟩]
        mappings := p.mappings + 1 })
      (fun e p' => e = .failed ∧ Recorded lib p p') := by
    refine ends_get (ends_check ?_ fun h => ends_modify ⟨?_, rfl⟩)
    · intro h
      have hempty : p.content = [] := by
        by_contra hne
        exact of_decide_eq_false h (List.length_pos_iff.2 hne)
      refine ⟨rfl, hnone p rfl hkeys rfl rfl (by rw [if_pos hempty]; rfl) fun hlisted => ?_⟩
      exact of_decide_eq_false h (Nat.lt_of_lt_of_le (by decide) hlisted.size)
    · exact List.ne_nil_of_length_pos (of_decide_eq_true h)
  refine hmap.bind ?_
  rintro ⟨⟩ _ ⟨hne, rfl⟩
  have hearly : ∀ p' : MMapWeightCacheProvider, p'.build = p.build →
      p'.cacheKeyToOffset = p.cacheKeyToOffset → p'.offsetToAddr = p.offsetToAddr →
      p'.minOffset = p.minOffset → p'.mappings = p.mappings + 1 → ¬Listed lib p.content →
      Recorded lib p p' :=
    fun p' hbuild hkeys' haddresses hmin hmappings hnot =>
      hnone p' hbuild (hkeys'.trans hkeys) haddresses hmin (by rw [if_neg hne, hmappings]) hnot
  refine ends_get ?_
  refine ends_check (fun h => ⟨rfl, hearly _ rfl rfl rfl rfl rfl fun hlisted =>
    of_decide_eq_false h hlisted.size⟩) fun h₁ => ?_
  refine ends_check (fun h => ⟨rfl, hearly _ rfl rfl rfl rfl rfl fun hlisted =>
    of_decide_eq_false h hlisted.version⟩) fun h₂ => ?_
  refine ends_check (fun h => ⟨rfl, hearly _ rfl rfl rfl rfl rfl fun hlisted =>
    of_decide_eq_false h hlisted.stale⟩) fun h₃ => ?_
  refine ends_check (fun h => ⟨rfl, hearly _ rfl rfl rfl rfl rfl fun hlisted =>
    of_decide_eq_false h hlisted.offset⟩) fun h₄ => ?_
  refine ends_check (fun h => ⟨rfl, hearly _ rfl rfl rfl rfl rfl fun hlisted =>
    of_decide_eq_false h hlisted.listSize⟩) fun h₅ => ?_
  refine ends_check (fun h => ⟨rfl, hearly _ rfl rfl rfl rfl rfl fun hlisted =>
    Bool.false_ne_true (h.symm.trans hlisted.verify)⟩) fun h₆ => ?_
  refine ends_check (fun h => ⟨rfl, hearly _ rfl rfl rfl rfl rfl fun hlisted =>
    Bool.false_ne_true (h.symm.trans hlisted.fingerprints)⟩) fun h₇ => ?_
  refine ends_modify_bind ?_
  refine ends_check (fun h => ⟨rfl, hearly _ rfl rfl rfl rfl rfl fun hlisted =>
    of_decide_eq_false h hlisted.baseOffset⟩) fun h₈ => ?_
  have hlisted : Listed lib p.content :=
    ⟨of_decide_eq_true h₁, of_decide_eq_true h₂, of_decide_eq_true h₃, of_decide_eq_true h₄,
      of_decide_eq_true h₅, h₆, h₇, of_decide_eq_true h₈⟩
  have haccepted : accepted lib p.content =
      (listOf lib p.content).buffers.takeWhile fun buffer => Inside lib p.content buffer :=
    if_pos hlisted
  refine Ends.bind ((loadBuffers_fails _ _ _ _ rfl).mono (fun _ _ h => h) ?_) fun _ _ _ =>
    ends_modify trivial
  rintro e _ ⟨rfl, rfl⟩
  refine ⟨rfl, rfl, ?_, ?_, rfl, by rw [if_neg hne]⟩
  · rw [haccepted, ← hkeys]
    rfl
  · rw [haccepted]
    rfl

theorem load_fails : Ends (load lib) p (fun _ p' => Loadable lib p.content ∧ LoadedFrom lib p p')
    fun e p' => e = .failed ∧ ¬Loadable lib p.content ∧ Recorded lib p p' ∧
      p'.mmapHandles = [] := by
  have hrecorded : Ends (load lib) p (fun _ _ => True) fun _ p' =>
      Recorded lib p p' ∧ p'.mmapHandles = [] := by
    refine ends_modify_bind ?_
    have hmapped := @loadMapped_fails lib ({ p with
      mmapBufferBaseOffset := 0, cacheKeyToOffset := [], mmapHandles := [] }) rfl
    rw [Ends] at hmapped ⊢
    unfold onFailure
    split at hmapped
    · rename_i hok
      rw [hok]
      trivial
    · rename_i e p' herror
      obtain ⟨rfl, hrecorded⟩ := hmapped
      rw [herror]
      exact ⟨⟨hrecorded.build, hrecorded.keys, hrecorded.addresses, hrecorded.minOffset,
        hrecorded.mappings⟩, rfl⟩
  exact (load_ends.and hrecorded).mono (fun _ _ h => h.1) fun _ _ h => ⟨h.1.1, h.1.2, h.2⟩

/-! ## Requests -/

/-- What a delegate asks of the provider. -/
inductive Request where
  | startBuild (fd : FileDescriptor)
  | load (fd : FileDescriptor)
  | loadOrStartBuild (fd : FileDescriptor)
  | startBuildStep
  | stopBuildStep (canResize : Bool)
  | stopBuild
  | release
  | reserveSpace (size : Nat)
  | lookUp (cacheKey : PackIdentifier)
  | lookUpOrInsert (cacheKey : PackIdentifier) (ptr : Address) (data : List UInt8)
    (fingerprintId : Int)
  | offsetToAddr (offset : Nat)
  deriving DecidableEq, Repr

inductive Answer where
  | done
  | offset (offset : Option Nat)
  | address (address : Address)
  | failed
  | aborted
  deriving DecidableEq, Repr

def Request.run (lib : Libraries) : Request → CacheM Answer
  | .startBuild fd => (fun _ => .done) <$> Cache.startBuild lib fd
  | .load fd => (fun _ => .done) <$> Cache.load lib fd
  | .loadOrStartBuild fd => (fun _ => .done) <$> Cache.loadOrStartBuild lib fd
  | .startBuildStep => (fun _ => .done) <$> Cache.startBuildStep lib
  | .stopBuildStep canResize => (fun _ => .done) <$> Cache.stopBuildStep lib canResize
  | .stopBuild => (fun _ => .done) <$> Cache.stopBuild
  | .release => (fun _ => .done) <$> Cache.release
  | .reserveSpace size => (fun _ => .done) <$> Cache.reserveSpace size
  | .lookUp cacheKey => Answer.offset <$> onProvider (WeightCache.lookUp cacheKey)
  | .lookUpOrInsert cacheKey ptr data fingerprintId =>
    (fun offset => Answer.offset (some offset)) <$>
      Cache.lookUpOrInsert lib cacheKey ptr data fingerprintId
  | .offsetToAddr offset => Answer.address <$> onProvider (WeightCache.offsetToAddr offset)

/-- The answer, and the provider after it. -/
def Request.reply (lib : Libraries) (request : Request) (c : Cache) : Answer × Cache :=
  match request.run lib c with
  | .ok answer c' => (answer, c')
  | .error .failed c' => (.failed, c')
  | .error .aborted c' => (.aborted, c')

/-- The answers until the process aborts. -/
def replies (lib : Libraries) : List Request → Cache → List Answer
  | [], _ => []
  | request :: requests, c =>
    let reply := request.reply lib c
    reply.1 :: if reply.1 = .aborted then [] else replies lib requests reply.2

def Request.step (lib : Libraries) (c : Cache) (request : Request) : Option Cache :=
  let reply := request.reply lib c
  if reply.1 = .aborted then none else some reply.2

/-- A provider that requests have led to. -/
def Reached (lib : Libraries) (c : Cache) : Prop :=
  ∃ fd requests, Run (fun _ _ => True) (Request.step lib) (.new fd) requests c

end LiteRt.WeightCache
