import LiteRt.Lib.Outcome
import LiteRt.Lib.Overwrite
import LiteRt.Lib.Words

/-!
# The cache file

A file descriptor with its position, and the header at the front of the file. Reading,
writing and moving succeed; what the file held after each write is kept.
-/

namespace LiteRt.WeightCache

open LiteRt.Lib

variable {list : BufferList}

structure FileDescriptor where
  content : List UInt8
  pos : Nat
  /-- The content after each write so far. -/
  past : List (List UInt8)
  deriving DecidableEq, Repr

namespace FileDescriptor

/-- An open file that was just truncated to nothing. -/
def truncated : FileDescriptor := ⟨[], 0, [[]]⟩

def setPos (fd : FileDescriptor) (pos : Nat) : FileDescriptor := { fd with pos := pos }

/-- The loop around `write` does not start for no bytes. -/
def write (fd : FileDescriptor) (bytes : List UInt8) : FileDescriptor :=
  match bytes with
  | [] => fd
  | b :: bs =>
    let content := overwrite 0 fd.content fd.pos (b :: bs)
    ⟨content, fd.pos + (b :: bs).length, fd.past ++ [content]⟩

end FileDescriptor

structure XNNPackCacheHeader where
  version : Nat
  bufferListOffset : Nat
  bufferListSize : Nat
  stale : Nat
  deriving DecidableEq, Repr

namespace XNNPackCacheHeader

variable {header : XNNPackCacheHeader}

def kInvalidHeader : Nat := 0

def kVersion : Nat := 4

/-- `sizeof(XNNPackCacheHeader)`, with the padding at its end. -/
def sizeof : Nat := 32

/-- The header in memory: three numbers of 64 bits, a byte and the padding. -/
def bytes (header : XNNPackCacheHeader) : List UInt8 :=
  [header.version, header.version / 4294967296, header.bufferListOffset,
    header.bufferListOffset / 4294967296, header.bufferListSize,
    header.bufferListSize / 4294967296, header.stale % 256, 0].flatMap wordBytes

def read (content : List UInt8) : XNNPackCacheHeader where
  version := doubleAt content 0
  bufferListOffset := doubleAt content 8
  bufferListSize := doubleAt content 16
  stale := byteAt content 24

/-- The fields have the widths of the struct. -/
structure Fits (header : XNNPackCacheHeader) : Prop where
  version : header.version < 2 ^ 64
  bufferListOffset : header.bufferListOffset < 2 ^ 64
  bufferListSize : header.bufferListSize < 2 ^ 64
  stale : header.stale < 256

theorem length_bytes (header : XNNPackCacheHeader) : header.bytes.length = sizeof :=
  length_flatMap_wordBytes _

theorem read_bytes (h : header.Fits) (back : List UInt8) :
    read (header.bytes ++ back) = header := by
  obtain ⟨version, bufferListOffset, bufferListSize, stale⟩ := header
  have hversion := h.version
  have hoffset := h.bufferListOffset
  have hsize := h.bufferListSize
  have hstale := h.stale
  have hword : wordAt ((bytes ⟨version, bufferListOffset, bufferListSize, stale⟩) ++ back) 24 =
      stale % 256 % 4294967296 :=
    wordAt_flatMap (i := 6) rfl back
  unfold read
  congr 1
  · exact (doubleAt_flatMap (i := 0) rfl rfl back).trans (by dsimp only at *; omega)
  · exact (doubleAt_flatMap (i := 2) rfl rfl back).trans (by dsimp only at *; omega)
  · exact (doubleAt_flatMap (i := 4) rfl rfl back).trans (by dsimp only at *; omega)
  · rw [byteAt_eq_mod, hword]
    dsimp only at *
    omega

/-- The header is read from the first bytes only. -/
theorem read_congr {content content' : List UInt8}
    (h : slice content 0 sizeof = slice content' 0 sizeof) : read content = read content' := by
  have htake : content.take 32 = content'.take 32 := h
  unfold read
  rw [← doubleAt_take content (n := 32) (by omega), ← doubleAt_take content' (n := 32) (by omega),
    ← doubleAt_take content (n := 32) (by omega), ← doubleAt_take content' (n := 32) (by omega),
    ← doubleAt_take content (n := 32) (by omega), ← doubleAt_take content' (n := 32) (by omega),
    ← byteAt_take content (n := 32) (by omega), ← byteAt_take content' (n := 32) (by omega),
    htake]

/-- Bytes written behind the header do not change it. -/
theorem read_overwrite {content written : List UInt8} {pos : Nat} (hpos : sizeof ≤ pos)
    (hlen : sizeof ≤ content.length) : read (overwrite 0 content pos written) = read content :=
  read_congr (slice_overwrite_before (by omega) (by omega))

theorem read_overwrite_bytes (h : header.Fits) (content : List UInt8) :
    read (overwrite 0 content 0 header.bytes) = header := by
  have hne : header.bytes ≠ [] := by
    intro hnil
    have hlen := length_bytes header
    rw [hnil] at hlen
    cases hlen
  rw [overwrite_of_ne_nil hne, List.take_zero, Nat.zero_sub, List.replicate_zero,
    List.nil_append, List.nil_append]
  exact read_bytes h _

end XNNPackCacheHeader

/-!
## Building the weight cache

A build step appends buffers from the place of the buffer list on, writes a new list behind
them, and then the header that points to it. The flatbuffer library and the fingerprints of
XNNPack are parameters.
-/

def kMinAlignment : Nat := 128

def align (offset alignment : Nat) : Nat :=
  let misalign := offset % alignment
  offset + if misalign = 0 then 0 else alignment - misalign

structure PackIdentifier where
  packAlgorithmId : UInt64
  weightsId : UInt64
  biasId : UInt64
  deriving DecidableEq, Repr

structure BufferLocation where
  offset : Nat
  size : Nat
  deriving DecidableEq, Repr

structure Buffer where
  id : PackIdentifier
  offset : Nat
  size : Nat
  deriving DecidableEq, Repr

structure BufferList where
  fingerprints : List UInt64
  buffers : List Buffer
  baseOffset : Nat
  deriving DecidableEq, Repr

/-- The numbers fit into the fields of the tables. -/
structure BufferList.Fits (list : BufferList) : Prop where
  baseOffset : list.baseOffset < 2 ^ 64
  buffers : ∀ buffer ∈ list.buffers, buffer.offset < 2 ^ 64 ∧ buffer.size < 2 ^ 64

/-- What the cache uses of other libraries. -/
structure Libraries where
  pack : BufferList → List UInt8
  /-- `VerifyBufferListBuffer`. -/
  verify : List UInt8 → Bool
  /-- `GetBufferList` and reading all its fields. -/
  unpack : List UInt8 → BufferList
  getFingerprint : Int → Option UInt64
  checkFingerprint : UInt64 → Bool

/-- A packed list is not empty, passes the verifier and is unpacked to itself; a fingerprint
that XNNPack gives out is the one it checks for. -/
structure Libraries.Faithful (lib : Libraries) : Prop where
  pack_pos : ∀ list, 0 < (lib.pack list).length
  verify_pack : ∀ list, list.Fits → lib.verify (lib.pack list) = true
  unpack_pack : ∀ list, list.Fits → lib.unpack (lib.pack list) = list
  checkFingerprint : ∀ id fingerprint, lib.getFingerprint id = some fingerprint →
    lib.checkFingerprint fingerprint = true

structure WeightCacheBuilder where
  schema : BufferList
  capacity : Nat
  buildSegmentSize : Nat
  buildSegmentStart : Nat
  firstWriteDone : Bool
  isBuildStep : Bool
  /-- Whether the file descriptor is valid. -/
  isStarted : Bool
  deriving DecidableEq, Repr

def WeightCacheBuilder.new : WeightCacheBuilder := ⟨⟨[], [], 0⟩, 0, 0, 0, false, false, false⟩

/-- A call returns false, or the process aborts. -/
inductive Stop where
  | failed
  | aborted
  deriving DecidableEq, Repr

/-- A builder and the file it writes to. -/
structure Build where
  builder : WeightCacheBuilder
  fd : FileDescriptor
  deriving DecidableEq, Repr

abbrev BuildM (α : Type) := EStateM Stop Build α

def modifyBuilder (f : WeightCacheBuilder → WeightCacheBuilder) : BuildM Unit :=
  modify fun s => { s with builder := f s.builder }

def modifyFile (f : FileDescriptor → FileDescriptor) : BuildM Unit :=
  modify fun s => { s with fd := f s.fd }

def bufferListBytes (content : List UInt8) (header : XNNPackCacheHeader) : List UInt8 :=
  slice content header.bufferListOffset header.bufferListSize

def reloadSchema (lib : Libraries) (header : XNNPackCacheHeader) : BuildM Unit := do
  let s ← get
  if header.bufferListSize = 0 then pure ()
  else if s.fd.content.length ≤ header.bufferListOffset then throw .failed
  else if lib.verify (bufferListBytes s.fd.content header) = false then throw .failed
  else modifyBuilder fun b => { b with
    schema := lib.unpack (bufferListBytes s.fd.content header) }

def startBuildStep (lib : Libraries) : BuildM Unit := do
  let s ← get
  if s.builder.isStarted = false then throw .failed
  else if s.builder.isBuildStep then throw .failed
  else do
    modifyBuilder fun b => { b with isBuildStep := true }
    if s.fd.content.length < XNNPackCacheHeader.sizeof then throw .failed
    else do
      let header := XNNPackCacheHeader.read s.fd.content
      modifyFile fun fd => fd.setPos XNNPackCacheHeader.sizeof
      reloadSchema lib header
      modifyBuilder fun b => { b with
        buildSegmentSize := 0
        buildSegmentStart := header.bufferListOffset }
      modifyFile fun fd => fd.setPos header.bufferListOffset

def append (lib : Libraries) (packId : PackIdentifier) (data : List UInt8)
    (fingerprintId : Int) : BuildM BufferLocation := do
  let s ← get
  if s.builder.isBuildStep = false then throw .aborted
  else do
    let offset := align s.fd.pos kMinAlignment
    modifyFile fun fd => fd.setPos offset
    let loc : BufferLocation :=
      ⟨(offset + 2 ^ 64 - s.builder.schema.baseOffset) % 2 ^ 64, data.length⟩
    modifyBuilder fun b => { b with
      schema := { b.schema with
        buffers := b.schema.buffers ++ [⟨packId, loc.offset, loc.size⟩] } }
    if fingerprintId = 0 then throw .aborted
    else
      match lib.getFingerprint fingerprintId with
      | none => throw .aborted
      | some fingerprint => do
        modifyBuilder fun b => { b with
          schema := { b.schema with
            fingerprints :=
              if fingerprint ∈ b.schema.fingerprints then b.schema.fingerprints
              else b.schema.fingerprints ++ [fingerprint] } }
        modifyFile fun fd => fd.write data
        return loc

def stopBuildStep (lib : Libraries) : BuildM Unit := do
  let s ← get
  if s.builder.isBuildStep = false then throw .failed
  else if s.builder.isStarted = false then throw .failed
  -- Nothing was written; the step stays active.
  else if s.fd.pos = s.builder.buildSegmentStart ∧ s.builder.firstWriteDone then pure ()
  else do
    let packed := lib.pack s.builder.schema
    let layoutOffset := align s.fd.pos kMinAlignment
    modifyFile fun fd => fd.setPos layoutOffset
    modifyFile fun fd => fd.write packed
    modifyBuilder fun b => { b with
      buildSegmentSize := layoutOffset + packed.length - s.builder.buildSegmentStart }
    modifyFile fun fd => fd.setPos 0
    modifyFile fun fd => fd.write
      (XNNPackCacheHeader.bytes ⟨XNNPackCacheHeader.kVersion, layoutOffset, packed.length, 0⟩)
    modifyBuilder fun b => { b with firstWriteDone := true, isBuildStep := false }

def start (lib : Libraries) : BuildM Unit := do
  let s ← get
  if s.builder.isStarted then throw .failed
  else do
    modifyBuilder fun b => { b with isStarted := true }
    modifyFile fun fd => { fd with content := [], pos := 0, past := fd.past ++ [[]] }
    modifyFile fun fd => fd.write (XNNPackCacheHeader.bytes
      ⟨XNNPackCacheHeader.kInvalidHeader, XNNPackCacheHeader.sizeof, 0, 0⟩)
    modifyBuilder fun b => { b with
      schema := { b.schema with baseOffset := align XNNPackCacheHeader.sizeof kMinAlignment } }
    startBuildStep lib
    stopBuildStep lib

/-- Space for data that is packed in place. -/
def reserve (size : Nat) : BuildM Unit :=
  modifyBuilder fun b => { b with capacity := max b.capacity size }

/-!
## Buffer lists as numbers of 64 bits

Libraries with a plain packing: the base offset, each fingerprint behind a one, a zero, and
five numbers for each buffer. The verifier accepts exactly the packed lists.
-/

/-! ### Numbers -/

def packNumbers (numbers : List Nat) : List UInt8 :=
  (numbers.flatMap fun n => [n, n / 4294967296]).flatMap wordBytes

def unpackNumbers : List UInt8 → List Nat
  | b₀ :: b₁ :: b₂ :: b₃ :: b₄ :: b₅ :: b₆ :: b₇ :: bytes =>
    doubleAt [b₀, b₁, b₂, b₃, b₄, b₅, b₆, b₇] 0 :: unpackNumbers bytes
  | _ => []

theorem unpackNumbers_packNumbers {numbers : List Nat}
    (h : ∀ n ∈ numbers, n < 18446744073709551616) :
    unpackNumbers (packNumbers numbers) = numbers := by
  induction numbers with
  | nil => rfl
  | cons n numbers ih =>
    have hn := h n List.mem_cons_self
    have hdouble : doubleAt ([n, n / 4294967296].flatMap wordBytes) 0 = n := by
      have hread := @doubleAt_flatMap [n, n / 4294967296] 0 _ _ rfl rfl []
      rw [List.append_nil] at hread
      exact hread.trans (by omega)
    have hcons : unpackNumbers (packNumbers (n :: numbers)) =
        doubleAt ([n, n / 4294967296].flatMap wordBytes) 0 ::
          unpackNumbers (packNumbers numbers) := rfl
    rw [hcons, hdouble, ih fun m hm => h m (List.mem_cons_of_mem _ hm)]

/-! ### Lists -/

def bufferNumbers (buffer : Buffer) : List Nat :=
  [buffer.id.packAlgorithmId.toNat, buffer.id.weightsId.toNat, buffer.id.biasId.toNat,
    buffer.offset, buffer.size]

def tableNumbers (list : BufferList) : List Nat :=
  list.fingerprints.flatMap (fun fingerprint => [1, fingerprint.toNat]) ++
    0 :: list.buffers.flatMap bufferNumbers

def readBuffers : List Nat → List Buffer
  | algorithm :: weights :: bias :: offset :: size :: numbers =>
    ⟨⟨.ofNat algorithm, .ofNat weights, .ofNat bias⟩, offset, size⟩ :: readBuffers numbers
  | _ => []

def readTables : List Nat → List UInt64 × List Buffer
  | tag :: fingerprint :: numbers =>
    if tag = 0 then ([], readBuffers (fingerprint :: numbers))
    else (.ofNat fingerprint :: (readTables numbers).1, (readTables numbers).2)
  | _ => ([], [])

theorem readBuffers_bufferNumbers (buffers : List Buffer) :
    readBuffers (buffers.flatMap bufferNumbers) = buffers := by
  induction buffers with
  | nil => rfl
  | cons buffer buffers ih =>
    have hcons : readBuffers ((buffer :: buffers).flatMap bufferNumbers) =
        ⟨⟨.ofNat buffer.id.packAlgorithmId.toNat, .ofNat buffer.id.weightsId.toNat,
          .ofNat buffer.id.biasId.toNat⟩, buffer.offset, buffer.size⟩ ::
          readBuffers (buffers.flatMap bufferNumbers) := rfl
    rw [hcons, ih, UInt64.ofNat_toNat, UInt64.ofNat_toNat, UInt64.ofNat_toNat]

theorem readTables_tableNumbers (list : BufferList) :
    readTables (tableNumbers list) = (list.fingerprints, list.buffers) := by
  obtain ⟨fingerprints, buffers, baseOffset⟩ := list
  induction fingerprints with
  | nil =>
    cases buffers with
    | nil => rfl
    | cons buffer buffers =>
      exact congrArg _ (readBuffers_bufferNumbers (buffer :: buffers))
  | cons fingerprint fingerprints ih =>
    have hcons : readTables (tableNumbers ⟨fingerprint :: fingerprints, buffers, baseOffset⟩) =
        (.ofNat fingerprint.toNat ::
            (readTables (tableNumbers ⟨fingerprints, buffers, baseOffset⟩)).1,
          (readTables (tableNumbers ⟨fingerprints, buffers, baseOffset⟩)).2) := rfl
    rw [hcons, ih, UInt64.ofNat_toNat]

/-! ### The libraries -/

def packWords (list : BufferList) : List UInt8 :=
  packNumbers (list.baseOffset :: tableNumbers list)

def unpackWords (bytes : List UInt8) : BufferList :=
  match unpackNumbers bytes with
  | [] => ⟨[], [], 0⟩
  | baseOffset :: numbers => ⟨(readTables numbers).1, (readTables numbers).2, baseOffset⟩

theorem tableNumbers_lt (h : list.Fits) {n : Nat} (hn : n ∈ tableNumbers list) :
    n < 18446744073709551616 := by
  unfold tableNumbers at hn
  simp only [List.mem_append, List.mem_flatMap, List.mem_cons, List.not_mem_nil, or_false] at hn
  obtain ⟨fingerprint, _, rfl | rfl⟩ | rfl | ⟨buffer, hbuffer, hn⟩ := hn
  · decide
  · exact fingerprint.toNat_lt
  · decide
  · obtain ⟨hoffset, hsize⟩ := h.buffers buffer hbuffer
    unfold bufferNumbers at hn
    simp only [List.mem_cons, List.not_mem_nil, or_false] at hn
    obtain rfl | rfl | rfl | rfl | rfl := hn
    · exact UInt64.toNat_lt _
    · exact UInt64.toNat_lt _
    · exact UInt64.toNat_lt _
    · exact hoffset
    · exact hsize

theorem unpackWords_packWords (h : list.Fits) :
    unpackWords (packWords list) = list := by
  unfold unpackWords packWords
  rw [unpackNumbers_packNumbers]
  · dsimp only
    rw [readTables_tableNumbers]
  · exact List.forall_mem_cons.2 ⟨h.baseOffset, fun n hn => tableNumbers_lt h hn⟩

/-- Every operation has its identifier as its fingerprint. -/
def wordLibraries : Libraries where
  pack := packWords
  verify bytes := decide (packWords (unpackWords bytes) = bytes)
  unpack := unpackWords
  getFingerprint id := some (.ofInt id)
  checkFingerprint _ := true

theorem wordLibraries_faithful : wordLibraries.Faithful where
  pack_pos list := by
    change 0 < (packNumbers _).length
    unfold packNumbers
    rw [length_flatMap_wordBytes]
    exact Nat.mul_pos (by decide) (Nat.succ_pos _)
  verify_pack list h := by
    change decide (packWords (unpackWords (packWords list)) = packWords list) = true
    rw [unpackWords_packWords h, decide_eq_true_iff]
  unpack_pack list h := unpackWords_packWords h
  checkFingerprint _ _ _ := rfl

end LiteRt.WeightCache
