import LiteRt.Lib.InsertOrderMap
import LiteRt.WeightCache.Builder
import Mathlib.Algebra.Ring.Int.Defs
import Mathlib.Data.List.Forall2

/-!
# The weight cache provider

The provider keeps where the buffer of each key is and the mappings through which the file is
read. A mapping shows what the file holds now; an address in it is a place in the file.
-/

namespace LiteRt.WeightCache

open LiteRt.Lib

structure MMapHandle where
  /-- Which of all mappings so far this is. -/
  mapping : Nat
  offset : Nat
  size : Nat
  deriving DecidableEq, Repr

/-- A place in the file, seen through a mapping. -/
structure Address where
  mapping : Nat
  pos : Nat
  deriving DecidableEq, Repr

structure MMapWeightCacheProvider where
  build : Build
  cacheKeyToOffset : InsertOrderMap PackIdentifier BufferLocation
  mmapHandles : List MMapHandle
  mmapBufferBaseOffset : Nat
  offsetToAddr : InsertOrderMap Nat Address
  /-- Where the offsets of cache misses start. -/
  minOffset : Nat
  /-- How many mappings were made. -/
  mappings : Nat
  deriving DecidableEq, Repr

abbrev ProviderM (α : Type) := EStateM Stop MMapWeightCacheProvider α

namespace MMapWeightCacheProvider

def content (p : MMapWeightCacheProvider) : List UInt8 := p.build.fd.content

/-- A provider with a file that was opened. -/
def new (fd : FileDescriptor) : MMapWeightCacheProvider :=
  ⟨⟨.new, fd⟩, [], [], 0, [], 0, 0⟩

end MMapWeightCacheProvider

def onBuilder {α : Type} (x : BuildM α) : ProviderM α := fun p =>
  match x p.build with
  | .ok a build => .ok a { p with build := build }
  | .error e build => .error e { p with build := build }

/-- `ScopeGuard`: a change that happens when the call returns false. -/
def onFailure {α : Type} (x : ProviderM α)
    (f : MMapWeightCacheProvider → MMapWeightCacheProvider) : ProviderM α := fun p =>
  match x p with
  | .error .failed p' => .error .failed (f p')
  | result => result

def check (c : Bool) : ProviderM Unit := if c then pure () else throw .failed

/-- `Map` of a new handle at the end of the vector: the file from an offset on. -/
def mapFile (offset : Nat) : ProviderM Unit := do
  let p ← get
  check (decide (offset < p.content.length))
  modify fun p => { p with
    mmapHandles := p.mmapHandles ++ [⟨p.mappings, offset, p.content.length - offset⟩]
    mappings := p.mappings + 1 }

/-- The entry of a buffer, from a mapping of the whole file. -/
def loadBuffer (size mapping : Nat) (buffer : Buffer) : ProviderM Unit := do
  let p ← get
  check (decide (buffer.offset ≤ size - p.mmapBufferBaseOffset))
  check (decide (buffer.size < size - p.mmapBufferBaseOffset - buffer.offset))
  modify fun p => { p with
    cacheKeyToOffset := p.cacheKeyToOffset.emplace buffer.id ⟨buffer.offset, buffer.size⟩
    offsetToAddr := p.offsetToAddr.emplace buffer.offset
      ⟨mapping, p.mmapBufferBaseOffset + buffer.offset⟩ }

/-- `Load` after the members were reset. -/
def loadMapped (lib : Libraries) : ProviderM Unit := do
  mapFile 0
  let p ← get
  let size := p.content.length
  check (decide (XNNPackCacheHeader.sizeof ≤ size))
  let header := XNNPackCacheHeader.read p.content
  check (decide (header.version = XNNPackCacheHeader.kVersion))
  check (decide (header.stale = 0))
  check (decide (header.bufferListOffset < size))
  check (decide (header.bufferListSize = size - header.bufferListOffset))
  check (lib.verify (bufferListBytes p.content header))
  let bufferList := lib.unpack (bufferListBytes p.content header)
  check (bufferList.fingerprints.all lib.checkFingerprint)
  modify fun p => { p with mmapBufferBaseOffset := bufferList.baseOffset }
  check (decide (bufferList.baseOffset ≤ size))
  bufferList.buffers.forM (loadBuffer size (p.mappings - 1))
  modify fun p => { p with
    minOffset := bufferList.buffers.foldl (fun offset buffer => max offset buffer.offset) 0 + 1 }

def load (lib : Libraries) : ProviderM Unit := do
  modify fun p => { p with mmapBufferBaseOffset := 0, cacheKeyToOffset := [], mmapHandles := [] }
  onFailure (loadMapped lib) fun p => { p with mmapHandles := [] }

/-! ## Build steps -/

def MMapHandle.unmapped : MMapHandle := ⟨0, 0, 0⟩

/-- The size that `Resize` is called with; the old size goes through an `int`. -/
def resizedSize (mmapSize lastBuildStepSize : Nat) : Nat :=
  ((signed32 (mmapSize % 2 ^ 32) + lastBuildStepSize) % 2 ^ 64).toNat

/-- The mapping shows these bytes of the file. -/
def MMapHandle.Shows (handle : MMapHandle) (pos n : Nat) : Prop :=
  handle.offset ≤ pos ∧ pos + n ≤ handle.offset + handle.size

instance (handle : MMapHandle) (pos n : Nat) : Decidable (handle.Shows pos n) :=
  inferInstanceAs (Decidable (_ ∧ _))

/-- Reads outside of a mapping or behind the end of the file abort the process. -/
def readThrough (handle : MMapHandle) (pos n : Nat) : ProviderM Unit := do
  let p ← get
  if handle.Shows pos n ∧ pos + n ≤ p.content.length then pure () else throw .aborted

/-- Whether `Resize` succeeds is up to the system. -/
def mapLastBuildStep (canResize : Bool) : ProviderM Unit := do
  let p ← get
  let last := p.mmapHandles.getLastD .unmapped
  if canResize then
    modify fun p => { p with
      mmapHandles := p.mmapHandles.dropLast ++
        [{ last with size := resizedSize last.size p.build.builder.buildSegmentSize }] }
  else
    onFailure (mapFile p.build.builder.buildSegmentStart) fun p => { p with
      mmapHandles := p.mmapHandles ++ [.unmapped] }

/-- Reads the list through the last mapping and adds the offsets that have no address. -/
def loadLastList (lib : Libraries) (header : XNNPackCacheHeader) : ProviderM Unit := do
  let p ← get
  let segment := p.mmapHandles.getLastD .unmapped
  readThrough segment header.bufferListOffset header.bufferListSize
  check (lib.verify (bufferListBytes p.content header))
  let bufferList := lib.unpack (bufferListBytes p.content header)
  modify fun p => { p with
    offsetToAddr := bufferList.buffers.foldl (fun addresses buffer =>
      addresses.emplace buffer.offset ⟨segment.mapping, bufferList.baseOffset + buffer.offset⟩)
      p.offsetToAddr }

def loadLastBuildStep (lib : Libraries) (canResize : Bool) : ProviderM Unit := do
  let p ← get
  if p.mmapHandles = [] then load lib
  else if p.build.builder.buildSegmentSize = 0 then pure ()
  else do
    readThrough (p.mmapHandles.headD .unmapped) 0 XNNPackCacheHeader.sizeof
    mapLastBuildStep canResize
    loadLastList lib (XNNPackCacheHeader.read p.content)

namespace MMapWeightCacheProvider

def startBuild (lib : Libraries) : ProviderM Unit := onBuilder (start lib)

def startBuildStep (lib : Libraries) : ProviderM Unit := do
  let p ← get
  check p.build.builder.isStarted
  if p.build.builder.isBuildStep then pure () else onBuilder (WeightCache.startBuildStep lib)

def stopBuildStep (lib : Libraries) (canResize : Bool) : ProviderM Unit := do
  onBuilder (WeightCache.stopBuildStep lib)
  loadLastBuildStep lib canResize

end MMapWeightCacheProvider

/-! ## Lookups -/

/-- What happens outside of build steps. -/
structure CacheMissHandler where
  reserve : Nat → ProviderM Unit
  append : PackIdentifier → List UInt8 → Int → ProviderM BufferLocation

def BufferLocation.invalid : BufferLocation := ⟨2 ^ 64 - 1, 2 ^ 64 - 1⟩

/-- `none` stands for `SIZE_MAX`. -/
def lookUp (cacheKey : PackIdentifier) : ProviderM (Option Nat) := do
  let p ← get
  return (p.cacheKeyToOffset.find? cacheKey).map BufferLocation.offset

def reserveSpace (misses : CacheMissHandler) (size : Nat) : ProviderM Unit := do
  let p ← get
  if p.build.builder.isBuildStep then onBuilder (reserve size) else misses.reserve size

def lookUpOrInsert (lib : Libraries) (misses : CacheMissHandler) (cacheKey : PackIdentifier)
    (data : List UInt8) (fingerprintId : Int) : ProviderM Nat := do
  let p ← get
  match p.cacheKeyToOffset.find? cacheKey with
  | some location => return location.offset
  | none => do
    let location ← if p.build.builder.isBuildStep then
        onBuilder (append lib cacheKey data fingerprintId)
      else misses.append cacheKey data fingerprintId
    if location = .invalid then throw .aborted
    else do
      modify fun p => { p with cacheKeyToOffset := p.cacheKeyToOffset.emplace cacheKey location }
      return location.offset

def offsetToAddr (offset : Nat) : ProviderM Address := do
  let p ← get
  match p.offsetToAddr.find? offset with
  | some address => return address
  | none => throw .aborted

/-!
## What a loaded file yields

A load that succeeds read a header of the current version whose buffer list ends where the
file does, and the entries of that list.
-/

variable {lib : Libraries} {p p' : MMapWeightCacheProvider}

section
variable {α : Type} {f : Unit → ProviderM α} {Q : α → MMapWeightCacheProvider → Prop}
  {E : Stop → MMapWeightCacheProvider → Prop} {c : Bool}

theorem ends_check (hfail : c = false → E .failed p) (h : c = true → Ends (f ()) p Q E) :
    Ends (check c >>= f) p Q E := by
  cases c with
  | false => exact hfail rfl
  | true => exact h rfl

end

/-- The keys of a list, the first buffer of each. -/
def keysOf (buffers : List Buffer) (keys : InsertOrderMap PackIdentifier BufferLocation) :
    InsertOrderMap PackIdentifier BufferLocation :=
  buffers.foldl (fun keys buffer => keys.emplace buffer.id ⟨buffer.offset, buffer.size⟩) keys

def addressesOf (mapping base : Nat) (buffers : List Buffer)
    (addresses : InsertOrderMap Nat Address) : InsertOrderMap Nat Address :=
  buffers.foldl (fun addresses buffer =>
    addresses.emplace buffer.offset ⟨mapping, base + buffer.offset⟩) addresses

/-- The buffer ends in front of the end of the mapping. -/
def EndsInside (size base : Nat) (buffer : Buffer) : Prop :=
  buffer.offset ≤ size - base ∧ buffer.size < size - base - buffer.offset

theorem loadBuffers_ends (size mapping : Nat) (buffers : List Buffer) :
    Ends (buffers.forM (loadBuffer size mapping)) p
      (fun _ p' => (∀ buffer ∈ buffers, EndsInside size p.mmapBufferBaseOffset buffer) ∧
        p' = { p with
          cacheKeyToOffset := keysOf buffers p.cacheKeyToOffset
          offsetToAddr := addressesOf mapping p.mmapBufferBaseOffset buffers p.offsetToAddr })
      (fun e _ => e = .failed ∧ ¬∀ buffer ∈ buffers,
        EndsInside size p.mmapBufferBaseOffset buffer) := by
  induction buffers generalizing p with
  | nil => exact ends_pure ⟨(fun _ h => by cases h), rfl⟩
  | cons buffer buffers ih =>
    have hhead : Ends (loadBuffer size mapping buffer) p
        (fun _ p' => EndsInside size p.mmapBufferBaseOffset buffer ∧ p' = { p with
          cacheKeyToOffset := p.cacheKeyToOffset.emplace buffer.id ⟨buffer.offset, buffer.size⟩
          offsetToAddr := p.offsetToAddr.emplace buffer.offset
            ⟨mapping, p.mmapBufferBaseOffset + buffer.offset⟩ })
        (fun e _ => e = .failed ∧ ¬∀ b ∈ buffer :: buffers,
          EndsInside size p.mmapBufferBaseOffset b) := by
      refine ends_get (ends_check ?_ fun h₁ => ends_check ?_ fun h₂ =>
        ends_modify ⟨⟨of_decide_eq_true h₁, of_decide_eq_true h₂⟩, rfl⟩)
      · intro h
        exact ⟨rfl, fun hall => of_decide_eq_false h (hall buffer List.mem_cons_self).1⟩
      · intro h
        exact ⟨rfl, fun hall => of_decide_eq_false h (hall buffer List.mem_cons_self).2⟩
    refine hhead.bind ?_
    rintro ⟨⟩ _ ⟨hbuffer, rfl⟩
    refine ih.mono ?_ ?_
    · rintro ⟨⟩ _ ⟨hall, rfl⟩
      exact ⟨List.forall_mem_cons.2 ⟨hbuffer, hall⟩, rfl⟩
    · rintro e _ ⟨he, hnot⟩
      exact ⟨he, fun hall => hnot fun b hb => hall b (List.mem_cons_of_mem _ hb)⟩

def listOf (lib : Libraries) (content : List UInt8) : BufferList :=
  lib.unpack (bufferListBytes content (XNNPackCacheHeader.read content))

/-- The checks of `Load`. -/
structure Loadable (lib : Libraries) (content : List UInt8) : Prop where
  size : XNNPackCacheHeader.sizeof ≤ content.length
  version : (XNNPackCacheHeader.read content).version = XNNPackCacheHeader.kVersion
  stale : (XNNPackCacheHeader.read content).stale = 0
  offset : (XNNPackCacheHeader.read content).bufferListOffset < content.length
  listSize : (XNNPackCacheHeader.read content).bufferListSize =
    content.length - (XNNPackCacheHeader.read content).bufferListOffset
  verify : lib.verify (bufferListBytes content (XNNPackCacheHeader.read content)) = true
  fingerprints : (listOf lib content).fingerprints.all lib.checkFingerprint = true
  baseOffset : (listOf lib content).baseOffset ≤ content.length
  buffers : ∀ buffer ∈ (listOf lib content).buffers,
    EndsInside content.length (listOf lib content).baseOffset buffer

/-- The provider after a load. -/
structure LoadedFrom (lib : Libraries) (p p' : MMapWeightCacheProvider) : Prop where
  build : p'.build = p.build
  keys : p'.cacheKeyToOffset = keysOf (listOf lib p.content).buffers []
  handles : p'.mmapHandles = [⟨p.mappings, 0, p.content.length⟩]
  base : p'.mmapBufferBaseOffset = (listOf lib p.content).baseOffset
  addresses : p'.offsetToAddr = addressesOf p.mappings (listOf lib p.content).baseOffset
    (listOf lib p.content).buffers p.offsetToAddr
  mappings : p'.mappings = p.mappings + 1

theorem loadMapped_ends (hhandles : p.mmapHandles = []) (hkeys : p.cacheKeyToOffset = []) :
    Ends (loadMapped lib) p (fun _ p' => Loadable lib p.content ∧ LoadedFrom lib p p')
      (fun e _ => e = .failed ∧ ¬Loadable lib p.content) := by
  have hmap : Ends (mapFile 0) p (fun _ p' => p' = { p with
        mmapHandles := p.mmapHandles ++ [⟨p.mappings, 0, p.content.length - 0⟩]
        mappings := p.mappings + 1 })
      (fun e _ => e = .failed ∧ ¬Loadable lib p.content) := by
    refine ends_get (ends_check ?_ fun _ => ends_modify rfl)
    intro h
    refine ⟨rfl, fun hload => of_decide_eq_false h ?_⟩
    exact Nat.lt_of_lt_of_le (by decide) hload.size
  refine hmap.bind ?_
  rintro ⟨⟩ _ rfl
  refine ends_get ?_
  refine ends_check (fun h => ⟨rfl, fun hload => of_decide_eq_false h hload.size⟩) fun h₁ => ?_
  refine ends_check (fun h => ⟨rfl, fun hload => of_decide_eq_false h hload.version⟩) fun h₂ => ?_
  refine ends_check (fun h => ⟨rfl, fun hload => of_decide_eq_false h hload.stale⟩) fun h₃ => ?_
  refine ends_check (fun h => ⟨rfl, fun hload => of_decide_eq_false h hload.offset⟩) fun h₄ => ?_
  refine ends_check (fun h => ⟨rfl, fun hload => of_decide_eq_false h hload.listSize⟩) fun h₅ => ?_
  refine ends_check (fun h => ⟨rfl, fun hload => Bool.false_ne_true (h.symm.trans hload.verify)⟩)
    fun h₆ => ?_
  refine ends_check
    (fun h => ⟨rfl, fun hload => Bool.false_ne_true (h.symm.trans hload.fingerprints)⟩)
    fun h₇ => ?_
  refine ends_modify_bind ?_
  refine ends_check (fun h => ⟨rfl, fun hload => of_decide_eq_false h hload.baseOffset⟩)
    fun h₈ => ?_
  refine Ends.bind ((loadBuffers_ends _ _ _).mono (fun _ _ h => h) ?_) ?_
  · rintro e _ ⟨he, hnot⟩
    exact ⟨he, fun hload => hnot hload.buffers⟩
  · rintro ⟨⟩ _ ⟨hall, rfl⟩
    refine ends_modify ⟨?_, ?_⟩
    · exact ⟨of_decide_eq_true h₁, of_decide_eq_true h₂, of_decide_eq_true h₃,
        of_decide_eq_true h₄, of_decide_eq_true h₅, h₆, h₇, of_decide_eq_true h₈, hall⟩
    · refine ⟨rfl, ?_, ?_, rfl, ?_, rfl⟩
      · change keysOf _ p.cacheKeyToOffset = _
        rw [hkeys]
        rfl
      · change p.mmapHandles ++ _ = _
        rw [hhandles]
        rfl
      · rfl

/-- `Load` succeeds exactly if the checks hold. -/
theorem load_ends : Ends (load lib) p (fun _ p' => Loadable lib p.content ∧ LoadedFrom lib p p')
    (fun e _ => e = .failed ∧ ¬Loadable lib p.content) := by
  refine ends_modify_bind ?_
  have hmapped := @loadMapped_ends lib ({ p with
    mmapBufferBaseOffset := 0, cacheKeyToOffset := [], mmapHandles := [] }) rfl rfl
  rw [Ends] at hmapped ⊢
  unfold onFailure
  split at hmapped
  · rename_i a p' hok
    rw [hok]
    obtain ⟨hload, hfrom⟩ := hmapped
    exact ⟨hload, hfrom.build, hfrom.keys, hfrom.handles, hfrom.base, hfrom.addresses,
      hfrom.mappings⟩
  · rename_i e p' herror
    obtain ⟨rfl, hnot⟩ := hmapped
    rw [herror]
    exact ⟨rfl, hnot⟩

end LiteRt.WeightCache
