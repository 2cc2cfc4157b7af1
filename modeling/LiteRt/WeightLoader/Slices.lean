import Mathlib.Data.UInt
import Mathlib.Tactic.Common

/-!
# Slices of external weights

The offset and the length of a slice come from the model's metadata. Mapping a file subtracts
before it compares; reading one, and mapping one on Windows, adds, and the sum may wrap.
-/

namespace LiteRt.WeightLoader

variable {size offset length : UInt64}

structure WeightInfo where
  offset : UInt64
  length : UInt64

/-- A region of a scoped file. -/
structure ScopedWeightSection where
  offset : UInt64
  length : UInt64

inductive StatusCode where
  | internal
  | invalidArgument
  deriving DecidableEq, Repr

/-- A status, or the exception a vector throws that is longer than any may be. -/
inductive Failure where
  | status (code : StatusCode) (message : String)
  | lengthError
  deriving DecidableEq, Repr

structure CpuMapping where
  base : UInt64
  length : UInt64
  pageOffset : UInt64
  data : UInt64
  dataLength : UInt64

/-- What the functions ask the operating system. -/
structure Os where
  windows : Bool
  opens : String → Bool
  strerror : String
  /-- `fstat` or `GetFileSizeEx`, `none` when it fails. -/
  fileSize : String → Option UInt64
  /-- The position at the end of a stream, negative when it cannot be told. -/
  tellgEnd : String → Int
  /-- The page size, or the allocation granularity. -/
  pageSize : UInt64
  createsMapping : String → Bool
  /-- The address a length from an offset is mapped to. -/
  mapView : String → UInt64 → UInt64 → Option UInt64
  /-- A number of bytes from a position of a stream. -/
  read : String → Int → Nat → Option (List UInt8)

structure MmapParams where
  pageOffset : UInt64
  mapOffset : UInt64
  mapLength : UInt64

section
variable (os : Os)

def internal {α : Type} (message : String) : Except Failure α := .error (.status .internal message)

def invalidArgument {α : Type} (message : String) : Except Failure α :=
  .error (.status .invalidArgument message)

def outOfRange (path : String) : Failure :=
  .status .invalidArgument ("External weight slice out of range for " ++ path)

def getMmapParams (absoluteOffset length : UInt64) : MmapParams where
  pageOffset := absoluteOffset % os.pageSize
  mapOffset := absoluteOffset - absoluteOffset % os.pageSize
  mapLength := absoluteOffset % os.pageSize + length

def cpuMapping (info : WeightInfo) (params : MmapParams) (base : UInt64) : CpuMapping where
  base := base
  length := params.mapLength
  pageOffset := params.pageOffset
  data := base + params.pageOffset
  dataLength := info.length

/-- `MapFileSliceFromPath` but on Windows. -/
def mapFileSlicePosix (info : WeightInfo) (path : String) : Except Failure CpuMapping :=
  if !os.opens path then internal (s!"Failed to open {path}: " ++ os.strerror)
  else
    match os.fileSize path with
    | none => internal (s!"Failed to stat {path}: " ++ os.strerror)
    | some fileSize =>
      if info.offset > fileSize ∨ info.length > fileSize - info.offset then
        .error (outOfRange path)
      else
        let params := getMmapParams os info.offset info.length
        match os.mapView path params.mapLength params.mapOffset with
        | none => internal (s!"mmap failed for {path}: " ++ os.strerror)
        | some base => .ok (cpuMapping info params base)

def mapFileSliceWindows (info : WeightInfo) (path : String) : Except Failure CpuMapping :=
  if !os.opens path then internal s!"Failed to open {path}"
  else
    match os.fileSize path with
    | none => .error (outOfRange path)
    | some fileSize =>
      if fileSize < info.offset + info.length then .error (outOfRange path)
      else
        let params := getMmapParams os info.offset info.length
        if !os.createsMapping path then internal "CreateFileMappingA failed on Windows"
        else
          match os.mapView path params.mapLength params.mapOffset with
          | none => internal "MapViewOfFile failed on Windows"
          | some base => .ok (cpuMapping info params base)

def mapFileSliceFromPath (info : WeightInfo) (path : String) : Except Failure CpuMapping :=
  if os.windows then mapFileSliceWindows os info path else mapFileSlicePosix os info path

def readFileSliceFromPath (info : WeightInfo) (path : String) : Except Failure (List UInt8) :=
  if !os.opens path then internal s!"Failed to open {path}"
  else if os.tellgEnd path < 0 then internal s!"Failed to determine size of {path}"
  else if UInt64.ofNat (os.tellgEnd path).toNat < info.offset + info.length then
    .error (outOfRange path)
  else if 2 ^ 63 ≤ info.length.toNat then .error .lengthError
  else
    match os.read path info.offset.toInt64.toInt info.length.toNat with
    | none => internal s!"Failed to read {info.length.toNat} bytes from {path}"
    | some data => .ok data

/-- The offset in the file of a slice of a section. -/
def validateScopedSlice (info : WeightInfo) (region : ScopedWeightSection) :
    Except Failure UInt64 :=
  if region.length < info.offset then
    invalidArgument "External weight offset exceeds scoped section length"
  else if info.length > region.length - info.offset then
    invalidArgument "External weight slice out of range for scoped section"
  else .ok (region.offset + info.offset)

end

/-! ### Which slices are accepted -/

def WeightInfo.sliceEnd (info : WeightInfo) : Nat := info.offset.toNat + info.length.toNat

/-- A slice is accepted by a function that does not call it out of range. -/
def Accepts {α : Type} (path : String) (r : Except Failure α) : Prop :=
  r ≠ .error (outOfRange path)

/-- A file of a size that opens and can be measured. -/
structure FileOfSize (os : Os) (path : String) (size : Nat) : Prop where
  opens : os.opens path = true
  fileSize : os.fileSize path = some (UInt64.ofNat size)
  tellgEnd : os.tellgEnd path = size
  lt : size < 2 ^ 63

/-- The comparison that subtracts is the one over the integers. -/
theorem subtracts_iff :
    ¬(offset > size ∨ length > size - offset) ↔ offset.toNat + length.toNat ≤ size.toNat := by
  rw [gt_iff_lt, gt_iff_lt, UInt64.lt_iff_toNat_lt, UInt64.lt_iff_toNat_lt]
  by_cases hle : offset ≤ size
  · rw [UInt64.toNat_sub_of_le size offset hle]
    rw [UInt64.le_iff_toNat_le] at hle
    omega
  · rw [UInt64.le_iff_toNat_le] at hle
    omega

/-- The comparison that adds is the one over the integers unless the sum wraps. -/
theorem adds_iff :
    ¬size < offset + length ↔ (offset.toNat + length.toNat) % 2 ^ 64 ≤ size.toNat := by
  rw [UInt64.lt_iff_toNat_lt, UInt64.toNat_add]
  omega

theorem internal_ne_outOfRange {α : Type} {message path : String} :
    Accepts path (internal message : Except Failure α) := by
  intro h
  cases h

theorem accepts_ite_iff {α : Type} {path : String} {out fits : Prop} [Decidable out]
    {rest : Except Failure α} (hrange : ¬out ↔ fits) (hrest : Accepts path rest) :
    Accepts path (if out then .error (outOfRange path) else rest) ↔ fits := by
  by_cases hout : out
  · rw [if_pos hout]
    exact iff_of_false (fun hacc => hacc rfl) (fun hle => hrange.2 hle hout)
  · rw [if_neg hout]
    exact iff_of_true hrest (hrange.1 hout)

section
variable {os : Os} {path : String} {size : Nat} {info : WeightInfo}

theorem FileOfSize.toNat_size (h : FileOfSize os path size) :
    (UInt64.ofNat size).toNat = size := by
  have hlt := h.lt
  rw [UInt64.toNat_ofNat']
  omega

theorem accepts_mapPosix_iff (h : FileOfSize os path size) :
    Accepts path (mapFileSlicePosix os info path) ↔ info.sliceEnd ≤ size := by
  have hrange := @subtracts_iff (UInt64.ofNat size) info.offset info.length
  rw [h.toNat_size] at hrange
  unfold mapFileSlicePosix
  rw [if_neg (by rw [h.opens]; decide), h.fileSize]
  dsimp only
  refine accepts_ite_iff hrange ?_
  split
  · exact internal_ne_outOfRange
  · exact fun heq => by cases heq

theorem accepts_mapWindows_iff (h : FileOfSize os path size) :
    Accepts path (mapFileSliceWindows os info path) ↔ info.sliceEnd % 2 ^ 64 ≤ size := by
  have hrange := @adds_iff (UInt64.ofNat size) info.offset info.length
  rw [h.toNat_size] at hrange
  unfold mapFileSliceWindows
  rw [if_neg (by rw [h.opens]; decide), h.fileSize]
  dsimp only
  refine accepts_ite_iff hrange ?_
  split
  · exact internal_ne_outOfRange
  · split
    · exact internal_ne_outOfRange
    · exact fun heq => by cases heq

theorem accepts_read_iff (h : FileOfSize os path size) :
    Accepts path (readFileSliceFromPath os info path) ↔ info.sliceEnd % 2 ^ 64 ≤ size := by
  have hrange := @adds_iff (UInt64.ofNat size) info.offset info.length
  rw [h.toNat_size] at hrange
  unfold readFileSliceFromPath
  rw [if_neg (by rw [h.opens]; decide), if_neg (by rw [h.tellgEnd]; omega), h.tellgEnd,
    Int.toNat_natCast]
  refine accepts_ite_iff hrange ?_
  split
  · exact fun heq => by cases heq
  · split
    · exact internal_ne_outOfRange
    · exact fun heq => by cases heq

end

theorem validateScopedSlice_ok_iff {info : WeightInfo} {region : ScopedWeightSection}
    {absoluteOffset : UInt64} :
    validateScopedSlice info region = .ok absoluteOffset ↔
      info.sliceEnd ≤ region.length.toNat ∧ absoluteOffset = region.offset + info.offset := by
  have hrange := @subtracts_iff region.length info.offset info.length
  unfold validateScopedSlice
  by_cases hoff : region.length < info.offset
  · rw [if_pos hoff]
    refine iff_of_false (fun h => by cases h) (fun h => ?_)
    exact hrange.2 h.1 (.inl hoff)
  · rw [if_neg hoff]
    by_cases hlen : info.length > region.length - info.offset
    · rw [if_pos hlen]
      refine iff_of_false (fun h => by cases h) (fun h => ?_)
      exact hrange.2 h.1 (.inr hlen)
    · rw [if_neg hlen, Except.ok.injEq, eq_comm]
      have hle := hrange.1 (fun h => h.elim hoff hlen)
      exact (and_iff_right hle).symm

def tenBytes : Os where
  windows := false
  opens _ := true
  strerror := ""
  fileSize _ := some 10
  tellgEnd _ := 10
  pageSize := 4096
  createsMapping _ := true
  mapView _ _ offset := some offset
  read _ offset length := some ((List.replicate 10 0).drop offset.toNat |>.take length)

theorem tenBytes_fileOfSize (path : String) : FileOfSize tenBytes path 10 where
  opens := rfl
  fileSize := rfl
  tellgEnd := rfl
  lt := by omega

end LiteRt.WeightLoader
