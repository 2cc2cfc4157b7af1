import LiteRt.Lib.Run
import LiteRt.WeightCache.Provider
import Mathlib.Data.List.Pairwise

/-!
# Offsets of cache misses

When nothing is being built, packed data is kept in memory. Its offsets are counted from a first
one on that is larger than those of the file. A reserved buffer that was not used is replaced, and
the new one gets an offset as if it were behind it.
-/

namespace LiteRt.WeightCache.Misses

open LiteRt.Lib

/-- A buffer in memory that nothing else is in. -/
structure Buffer where
  /-- What the memory holds. -/
  data : List UInt8
  loc : BufferLocation
  ptr : Address
  used : Bool
  deriving DecidableEq, Repr

structure CacheMissHandler where
  /-- The last one is the first of the list. -/
  buffers : List Buffer
  minOffset : Nat
  deriving DecidableEq, Repr

namespace CacheMissHandler

/-- The allocated memory is at `ptr` and holds zeros. -/
def reserve (handler : CacheMissHandler) (size : Nat) (ptr : Address) : CacheMissHandler :=
  let buffer : Buffer :=
    ⟨List.replicate size 0, ⟨handler.minOffset + handler.buffers.length, size⟩, ptr, false⟩
  match handler.buffers with
  | [] => { handler with buffers := [buffer] }
  | last :: rest =>
    if last.used then { handler with buffers := buffer :: last :: rest }
    else { handler with buffers := buffer :: rest }

/-- The last buffer at the address is used, for the data that is in it. -/
def useAt (ptr : Address) (data : List UInt8) : List Buffer → Option (Buffer × List Buffer)
  | [] => none
  | buffer :: rest =>
    if buffer.ptr = ptr then
      let buffer := { buffer with data := data, used := true }
      some (buffer, buffer :: rest)
    else
      match useAt ptr data rest with
      | none => none
      | some found => some (found.1, buffer :: found.2)

/-- The caller's pointer leads to `data`. If it is none of a reserved buffer, the data is copied
to memory that is allocated at `fresh`. -/
def append (handler : CacheMissHandler) (ptr : Address) (data : List UInt8) (fresh : Address)
    (offsetToAddr : InsertOrderMap Nat Address) :
    BufferLocation × CacheMissHandler × InsertOrderMap Nat Address :=
  match useAt ptr data handler.buffers with
  | some found =>
    (found.1.loc, { handler with buffers := found.2 },
      offsetToAddr.emplace found.1.loc.offset found.1.ptr)
  | none =>
    let reserved := handler.reserve data.length fresh
    match useAt fresh data reserved.buffers with
    | some found =>
      (found.1.loc, { reserved with buffers := found.2 },
        offsetToAddr.emplace found.1.loc.offset found.1.ptr)
    | none => (.invalid, reserved, offsetToAddr)

end CacheMissHandler

/-! ## Runs -/

inductive Op where
  | reserve (size : Nat) (ptr : Address)
  | append (ptr : Address) (data : List UInt8) (fresh : Address)
  /-- The buffers that a build step adds, with their addresses in the file. -/
  | buildStep (entries : List (Nat × Address))
  deriving DecidableEq, Repr

/-- The handler, the addresses, what was appended under which offset, and whether each of these
offsets was new. -/
structure State where
  handler : CacheMissHandler
  offsetToAddr : InsertOrderMap Nat Address
  appended : List (Nat × List UInt8)
  allNew : Bool
  deriving DecidableEq, Repr

/-- After a load, with the smallest offset for misses. -/
def State.loaded (minOffset : Nat) (addresses : InsertOrderMap Nat Address) : State :=
  ⟨⟨[], minOffset⟩, addresses, [], true⟩

def addEntries (entries : List (Nat × Address)) (addresses : InsertOrderMap Nat Address) :
    InsertOrderMap Nat Address :=
  entries.foldl (fun addresses entry => addresses.emplace entry.1 entry.2) addresses

def step (s : State) : Op → Option State
  | .reserve size ptr => some { s with handler := s.handler.reserve size ptr }
  | .append ptr data fresh =>
    let result := s.handler.append ptr data fresh s.offsetToAddr
    some {
      handler := result.2.1
      offsetToAddr := result.2.2
      appended := s.appended ++ [(result.1.offset, data)]
      allNew := s.allNew && !s.offsetToAddr.contains result.1.offset }
  | .buildStep entries => some { s with offsetToAddr := addEntries entries s.offsetToAddr }

/-- Allocated memory is not in use already, neither by a buffer nor by a mapping. -/
def State.IsFree (s : State) (ptr : Address) : Prop :=
  (∀ b ∈ s.handler.buffers, b.ptr ≠ ptr) ∧ ∀ entry ∈ s.offsetToAddr, entry.2 ≠ ptr

/-- What the system grants. -/
def Possible (s : State) : Op → Prop
  | .reserve _ ptr => s.IsFree ptr
  | .append _ _ fresh => s.IsFree fresh
  | .buildStep entries => ∀ entry ∈ entries, ∀ b ∈ s.handler.buffers, b.ptr ≠ entry.2

/-- The offsets that were appended lead to memory that holds the data. -/
def State.Resolved (s : State) : Prop :=
  ∀ p ∈ s.appended, ∃ b ∈ s.handler.buffers, s.offsetToAddr.find? p.1 = some b.ptr ∧ b.data = p.2

/-! ## When an offset is new -/

def CacheMissHandler.offsets (handler : CacheMissHandler) : List Nat :=
  handler.buffers.map fun b => b.loc.offset

/-- The last buffer has replaced another one: its offset is ahead of its place. -/
def Ahead (minOffset : Nat) : List Nat → Prop
  | [] => False
  | offset :: rest => offset = minOffset + rest.length + 1

instance (minOffset : Nat) : ∀ offsets, Decidable (Ahead minOffset offsets)
  | [] => isFalse id
  | _ :: _ => inferInstanceAs (Decidable (_ = _))

/-- Something that is not in the handler's memory has the offset. -/
def State.FileHas (s : State) (offset : Nat) : Prop :=
  ∃ ptr, s.offsetToAddr.find? offset = some ptr ∧ ∀ b ∈ s.handler.buffers, b.ptr ≠ ptr

/-- The last buffer waits, and it has not taken its place at once while the one before it has
replaced another. -/
def State.Waits (s : State) (ptr : Address) : Prop :=
  match s.handler.buffers with
  | [] => False
  | last :: _ => last.ptr = ptr ∧ last.used = false ∧
    (Ahead s.handler.minOffset s.handler.offsets.tail →
      Ahead s.handler.minOffset s.handler.offsets) ∧ ¬ s.FileHas last.loc.offset

/-- The data is in none of the buffers, and the last one waits or has not replaced another. -/
def State.Unreserved (s : State) (ptr : Address) : Prop :=
  (∀ b ∈ s.handler.buffers, b.ptr ≠ ptr) ∧ (Ahead s.handler.minOffset s.handler.offsets →
      ∃ b ∈ s.handler.buffers.head?, b.used = false) ∧
    ¬ s.FileHas (s.handler.minOffset + s.handler.buffers.length)

/-- Where `Append` gives out a new offset. -/
def Meets (s : State) : Op → Prop
  | .append ptr _ _ => s.Waits ptr ∨ s.Unreserved ptr
  | _ => True

/-- Each offset is the place of its buffer, or one ahead. -/
def Placed (minOffset : Nat) : List Nat → Prop
  | [] => True
  | offset :: rest => (offset = minOffset + rest.length ∨ offset = minOffset + rest.length + 1) ∧
    Placed minOffset rest

structure Handled (s : State) : Prop where
  placed : Placed s.handler.minOffset s.handler.offsets
  /-- Only the last buffer may wait. -/
  used : ∀ b ∈ s.handler.buffers.tail, b.used = true
  distinct : s.handler.buffers.Pairwise fun b b' => b.ptr ≠ b'.ptr
  mapped : ∀ b ∈ s.handler.buffers, b.used = true → s.offsetToAddr.find? b.loc.offset ≠ none
  /-- Memory is found through the offset of its buffer only. -/
  keys : ∀ (offset : Nat) (b : Buffer), b ∈ s.handler.buffers →
    s.offsetToAddr.find? offset = some b.ptr → b.used = true ∧ b.loc.offset = offset

section
variable {minOffset offset : Nat} {offsets : List Nat} {s : State}

/-- An offset is below the next one, unless it is the last one and ahead. -/
theorem Placed.le (h : Placed minOffset offsets) (hmem : offset ∈ offsets) :
    offset ≤ minOffset + offsets.length ∧
      (offset = minOffset + offsets.length → Ahead minOffset offsets) := by
  induction offsets with
  | nil => cases hmem
  | cons last rest ih =>
    obtain ⟨hlast, hrest⟩ := h
    rw [List.length_cons]
    rcases List.mem_cons.1 hmem with rfl | hmem
    · exact ⟨by omega, fun heq => heq⟩
    · obtain ⟨hle, -⟩ := ih hrest hmem
      exact ⟨by omega, by omega⟩

/-- The next offset is taken exactly if the last one is ahead. -/
theorem Placed.mem_iff (h : Placed minOffset offsets) :
    minOffset + offsets.length ∈ offsets ↔ Ahead minOffset offsets := by
  refine ⟨fun hmem => (h.le hmem).2 rfl, fun hahead => ?_⟩
  cases offsets with
  | nil => exact hahead.elim
  | cons last rest =>
    rw [List.length_cons, ← Nat.add_assoc, ← (show last = minOffset + rest.length + 1 from hahead)]
    exact List.mem_cons_self ..

theorem find?_addEntries (entries : List (Nat × Address)) (addresses : InsertOrderMap Nat Address)
    (offset : Nat) : (addEntries entries addresses).find? offset =
      (addresses.find? offset).or (InsertOrderMap.find? entries offset) := by
  induction entries generalizing addresses with
  | nil => exact (Option.or_none).symm
  | cons entry entries ih =>
    change (addEntries entries (addresses.emplace entry.1 entry.2)).find? offset = _
    rw [ih, InsertOrderMap.find?_emplace, InsertOrderMap.find?_cons]
    cases haddress : addresses.find? offset with
    | some address => simp
    | none =>
      by_cases hoffset : entry.1 = offset
      · simp [hoffset]
      · simp [hoffset, Ne.symm hoffset]

/-- An offset is new if neither a used buffer nor the file has it. -/
theorem Handled.find?_eq_none (h : Handled s) :
    s.offsetToAddr.find? offset = none ↔
      (∀ b ∈ s.handler.buffers, b.used = true → b.loc.offset ≠ offset) ∧ ¬ s.FileHas offset := by
  constructor
  · intro hnone
    refine ⟨fun b hb hused heq => h.mapped b hb hused (heq ▸ hnone), fun ⟨ptr, hfind, _⟩ => ?_⟩
    rw [hnone] at hfind
    cases hfind
  · rintro ⟨hbuffers, hfile⟩
    cases hfind : s.offsetToAddr.find? offset with
    | none => rfl
    | some ptr =>
      refine absurd ⟨ptr, hfind, fun b hb heq => ?_⟩ hfile
      obtain ⟨hused, hoffset⟩ := h.keys offset b hb (heq ▸ hfind)
      exact hbuffers b hb hused hoffset

end

/-! ## Using a buffer -/

section
variable {ptr : Address} {data : List UInt8} {buffers : List Buffer} {found : Buffer × List Buffer}

theorem useAt_eq_none :
    CacheMissHandler.useAt ptr data buffers = none ↔ ∀ b ∈ buffers, b.ptr ≠ ptr := by
  induction buffers with
  | nil => exact iff_of_true rfl (List.forall_mem_nil _)
  | cons b rest ih =>
    unfold CacheMissHandler.useAt
    rw [List.forall_mem_cons, ← ih]
    by_cases hptr : b.ptr = ptr
    · rw [if_pos hptr]
      exact iff_of_false (by simp) fun hand => hand.1 hptr
    · rw [if_neg hptr, and_iff_right hptr]
      cases CacheMissHandler.useAt ptr data rest <;> simp

/-- One buffer is changed, the last one at the address. -/
theorem useAt_eq_some (h : CacheMissHandler.useAt ptr data buffers = some found) :
    ∃ before b after, buffers = before ++ b :: after ∧ (∀ b' ∈ before, b'.ptr ≠ ptr) ∧
      b.ptr = ptr ∧ found.1 = { b with data := data, used := true } ∧
      found.2 = before ++ { b with data := data, used := true } :: after := by
  induction buffers generalizing found with
  | nil => cases h
  | cons b rest ih =>
    unfold CacheMissHandler.useAt at h
    by_cases hptr : b.ptr = ptr
    · rw [if_pos hptr] at h
      cases h
      exact ⟨[], b, rest, rfl, List.forall_mem_nil _, hptr, rfl, rfl⟩
    · rw [if_neg hptr] at h
      cases hrest : CacheMissHandler.useAt ptr data rest with
      | none =>
        rw [hrest] at h
        cases h
      | some found' =>
        rw [hrest] at h
        cases h
        obtain ⟨before, b', after, rfl, hbefore, hb', hfirst, hsecond⟩ := ih hrest
        refine ⟨b :: before, b', after, rfl, ?_, hb', hfirst, ?_⟩
        · exact List.forall_mem_cons.2 ⟨hptr, hbefore⟩
        · rw [hsecond]
          rfl

end

end LiteRt.WeightCache.Misses

namespace LiteRt.WeightCache

open LiteRt.Lib

/-!
## The provider with its handler for cache misses

The memory of the handler is counted among the mappings. A builder that is moved from another one
keeps its own flag for build steps.
-/

/-- `Reset`: all members of a new builder are moved, but not the flag. -/
def resetBuilder : BuildM Unit :=
  modifyBuilder fun b => { WeightCacheBuilder.new with isBuildStep := b.isBuildStep }

structure Cache where
  provider : MMapWeightCacheProvider
  /-- The buffers of the handler, which starts at the provider's smallest offset for misses. -/
  misses : List Misses.Buffer
  deriving DecidableEq, Repr

abbrev CacheM (α : Type) := EStateM Stop Cache α

/-- An operation of the provider that leaves the handler alone. -/
def onProvider {α : Type} (x : ProviderM α) : CacheM α := fun c =>
  match x c.provider with
  | .ok a provider => .ok a { c with provider := provider }
  | .error e provider => .error e { c with provider := provider }

namespace Cache

def builder (c : Cache) : WeightCacheBuilder := c.provider.build.builder

def isBuilding (c : Cache) : Bool := c.builder.isBuildStep

def handler (c : Cache) : Misses.CacheMissHandler := ⟨c.misses, c.provider.minOffset⟩

/-- Where memory is allocated next. -/
def allocated (c : Cache) : Address := ⟨c.provider.mappings, 0⟩

def reserveMiss (size : Nat) : CacheM Unit :=
  modify fun c => {
    provider := { c.provider with mappings := c.provider.mappings + 1 }
    misses := (c.handler.reserve size c.allocated).buffers }

def appendMiss (ptr : Address) (data : List UInt8) : CacheM BufferLocation := do
  let c ← get
  let result := c.handler.append ptr data c.allocated c.provider.offsetToAddr
  set {
    provider := { c.provider with
      offsetToAddr := result.2.2
      mappings := c.provider.mappings + 1 }
    misses := result.2.1.buffers : Cache }
  pure result.1

def reserveSpace (size : Nat) : CacheM Unit := do
  let c ← get
  if c.isBuilding then onProvider (onBuilder (reserve size)) else reserveMiss size

/-- The builder's `Append`: no position can be set in a file that is not open. -/
def append (lib : Libraries) (packId : PackIdentifier) (data : List UInt8)
    (fingerprintId : Int) : CacheM BufferLocation := do
  let c ← get
  if c.isBuilding ∧ c.builder.isStarted = false then pure .invalid
  else onProvider (onBuilder (WeightCache.append lib packId data fingerprintId))

/-- The caller's pointer leads to the data. -/
def lookUpOrInsert (lib : Libraries) (cacheKey : PackIdentifier) (ptr : Address)
    (data : List UInt8) (fingerprintId : Int) : CacheM Nat := do
  let c ← get
  match c.provider.cacheKeyToOffset.find? cacheKey with
  | some location => pure location.offset
  | none => do
    let location ← if c.isBuilding then
        append lib cacheKey data fingerprintId
      else appendMiss ptr data
    if location = .invalid then throw .aborted
    else do
      modify fun c => { c with provider := { c.provider with
        cacheKeyToOffset := c.provider.cacheKeyToOffset.emplace cacheKey location } }
      pure location.offset

/-! ### Build steps and files -/

def startBuildStep (lib : Libraries) : CacheM Unit :=
  onProvider (MMapWeightCacheProvider.startBuildStep lib)

def stopBuildStep (lib : Libraries) (canResize : Bool) : CacheM Unit :=
  onProvider (MMapWeightCacheProvider.stopBuildStep lib canResize)

def stopBuild : CacheM Unit := onProvider (onBuilder resetBuilder)

/-- The addresses and the handler stay. -/
def release : CacheM Unit := do
  onProvider (onBuilder resetBuilder)
  modify fun c => { c with provider := { c.provider with
    cacheKeyToOffset := []
    mmapHandles := []
    mmapBufferBaseOffset := 0 } }

/-- `SetFilePath`, which aborts while something is built, and the descriptor of the file. -/
def openFile (fd : FileDescriptor) : CacheM Unit := do
  let c ← get
  if c.isBuilding then throw .aborted
  else modify fun c => { c with provider := { c.provider with
    build := { c.provider.build with fd := fd } } }

def startBuild (lib : Libraries) (fd : FileDescriptor) : CacheM Unit := do
  openFile fd
  onProvider (MMapWeightCacheProvider.startBuild lib)

def load (lib : Libraries) (fd : FileDescriptor) : CacheM Unit := do
  openFile fd
  onProvider (WeightCache.load lib)

def loadOrStartBuild (lib : Libraries) (fd : FileDescriptor) : CacheM Unit := fun c =>
  if fd.content = [] then startBuild lib fd c
  else
    match load lib fd c with
    | .error .failed c' => startBuild lib fd c'
    | result => result

def new (fd : FileDescriptor) : Cache := ⟨.new fd, []⟩

end Cache

end LiteRt.WeightCache
