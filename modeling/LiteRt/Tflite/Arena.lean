import LiteRt.Lib.GapScan
import LiteRt.Lib.Run
import Mathlib.Algebra.Group.Nat.Defs
import Mathlib.Data.Nat.Basic
import Mathlib.Order.Lattice

/-!
# The memory arena

An allocation is placed in the smallest gap between the active allocations whose node
intervals meet its own, or behind all of them. Offsets and sizes are `size_t`; a sum or a
difference that would wrap halts as `wrapped`, which no operation of the arena does.
-/

namespace LiteRt.Tflite

open LiteRt.Lib GapScan

/-! ## Sizes -/

/-- Why an operation stopped: a failed `TF_LITE_ENSURE`, or arithmetic that wraps. -/
inductive Fault where
  | ensure
  | wrapped
  deriving DecidableEq, Repr

/-- `std::numeric_limits<size_t>::max()`. -/
def sizeMax : UInt64 := 0xFFFFFFFFFFFFFFFF

def plus (lhs rhs : UInt64) : Except Fault UInt64 :=
  if lhs.toNat + rhs.toNat < 2 ^ 64 then .ok (lhs + rhs) else .error .wrapped

def minus (lhs rhs : UInt64) : Except Fault UInt64 :=
  if rhs ≤ lhs then .ok (lhs - rhs) else .error .wrapped

/-- `TF_LITE_ENSURE` of `CheckedAdd`. -/
def checkedAdd (lhs rhs : UInt64) : Except Fault UInt64 := do
  let room ← minus sizeMax rhs
  if room < lhs then .error .ensure else plus lhs rhs

/-- `TF_LITE_ENSURE` of `CheckedAlignTo`. -/
def checkedAlignTo (alignment offset : UInt64) : Except Fault UInt64 :=
  if alignment = 0 then .error .ensure
  else
    let remainder := offset % alignment
    if remainder = 0 then .ok offset
    else do
      let padding ← minus alignment remainder
      checkedAdd offset padding

theorem toNat_sizeMax : sizeMax.toNat = 18446744073709551615 := by
  decide

theorem minus_eq {lhs rhs : UInt64} (h : rhs ≤ lhs) : minus lhs rhs = .ok (lhs - rhs) :=
  if_pos h

/-- The check keeps the sum from wrapping. -/
theorem checkedAdd_eq (lhs rhs : UInt64) :
    checkedAdd lhs rhs =
      if lhs.toNat + rhs.toNat < 2 ^ 64 then .ok (lhs + rhs) else .error .ensure := by
  have hlt := rhs.toNat_lt
  have hrhs : rhs ≤ sizeMax := by
    rw [UInt64.le_iff_toNat_le, toNat_sizeMax]
    omega
  have hroom : (sizeMax - rhs).toNat = 18446744073709551615 - rhs.toNat := by
    rw [UInt64.toNat_sub_of_le _ _ hrhs, toNat_sizeMax]
  unfold checkedAdd plus
  rw [minus_eq hrhs, ok_bind]
  by_cases h : lhs.toNat + rhs.toNat < 2 ^ 64
  · rw [if_neg (by rw [UInt64.lt_iff_toNat_lt, hroom]; omega), if_pos h, if_pos h]
  · rw [if_pos (by rw [UInt64.lt_iff_toNat_lt, hroom]; omega), if_neg h]

theorem checkedAdd_ne_wrapped (lhs rhs : UInt64) : checkedAdd lhs rhs ≠ .error .wrapped := by
  rw [checkedAdd_eq]
  split <;> simp

theorem checkedAdd_eq_ok {lhs rhs sum : UInt64} (h : checkedAdd lhs rhs = .ok sum) :
    sum.toNat = lhs.toNat + rhs.toNat := by
  rw [checkedAdd_eq] at h
  split at h
  · rename_i hlt
    cases h
    rw [UInt64.toNat_add, Nat.mod_eq_of_lt hlt]
  · cases h

theorem pos_of_ne_zero {a : UInt64} (h : a ≠ 0) : 0 < a.toNat := by
  refine Nat.pos_of_ne_zero fun h0 => h ?_
  rw [← UInt64.toNat_inj, h0]
  rfl

theorem checkedAlignTo_ne_wrapped (alignment offset : UInt64) :
    checkedAlignTo alignment offset ≠ .error .wrapped := by
  unfold checkedAlignTo
  split
  · simp
  · rename_i h
    dsimp only
    split
    · simp
    · rw [minus_eq, ok_bind]
      · exact checkedAdd_ne_wrapped _ _
      · rw [UInt64.le_iff_toNat_le, UInt64.toNat_mod]
        exact Nat.le_of_lt (Nat.mod_lt _ (pos_of_ne_zero h))

theorem checkedAlignTo_eq_ok {alignment offset aligned : UInt64}
    (h : checkedAlignTo alignment offset = .ok aligned) :
    alignment.toNat ∣ aligned.toNat ∧ offset.toNat ≤ aligned.toNat := by
  unfold checkedAlignTo at h
  split at h
  · cases h
  · rename_i hne
    have hpos := pos_of_ne_zero hne
    have hle : offset % alignment ≤ alignment := by
      rw [UInt64.le_iff_toNat_le, UInt64.toNat_mod]
      exact Nat.le_of_lt (Nat.mod_lt _ hpos)
    have hdiv := Nat.div_add_mod offset.toNat alignment.toNat
    dsimp only at h
    split at h
    · rename_i hmod
      cases h
      rw [← UInt64.toNat_inj, UInt64.toNat_mod] at hmod
      exact ⟨Nat.dvd_of_mod_eq_zero hmod, Nat.le_refl _⟩
    · rw [minus_eq hle, ok_bind] at h
      have hsum := checkedAdd_eq_ok h
      rw [UInt64.toNat_sub_of_le _ _ hle, UInt64.toNat_mod] at hsum
      have hlt := Nat.mod_lt offset.toNat hpos
      refine ⟨⟨offset.toNat / alignment.toNat + 1, ?_⟩, by omega⟩
      rw [Nat.mul_add, Nat.mul_one]
      omega

/-! ## The arena -/

/-- The tensor is allocated before `firstNode` and deallocated after `lastNode`. -/
structure ArenaAllocWithUsageInterval where
  offset : UInt64
  size : UInt64
  tensor : Int
  firstNode : Int
  lastNode : Int
  deriving DecidableEq, Repr

namespace ArenaAllocWithUsageInterval

/-- `reset`. -/
def unused : ArenaAllocWithUsageInterval := ⟨0, 0, -1, -1, -1⟩

/-- The end of the bytes of the allocation. -/
def stop (alloc : ArenaAllocWithUsageInterval) : Nat := alloc.offset.toNat + alloc.size.toNat

/-- The node intervals intersect. -/
def Meets (a b : ArenaAllocWithUsageInterval) : Prop :=
  a.firstNode ≤ b.lastNode ∧ b.firstNode ≤ a.lastNode

/-- The byte ranges are disjoint. -/
def Apart (a b : ArenaAllocWithUsageInterval) : Prop :=
  a.stop ≤ b.offset.toNat ∨ b.stop ≤ a.offset.toNat

theorem Apart.symm {a b : ArenaAllocWithUsageInterval} (h : a.Apart b) : b.Apart a :=
  Or.symm h

/-- `operator<` never holds from a later to an earlier entry. -/
def Sorted (allocs : List ArenaAllocWithUsageInterval) : Prop :=
  allocs.Pairwise fun a b => a.offset.toNat ≤ b.offset.toNat

end ArenaAllocWithUsageInterval

open ArenaAllocWithUsageInterval

/-- `std::sort` by `operator<`; nothing is said of the order of equal offsets. -/
structure OffsetSort where
  sort : List ArenaAllocWithUsageInterval → List ArenaAllocWithUsageInterval
  perm : ∀ allocs, (sort allocs).Perm allocs
  sorted : ∀ allocs, Sorted (sort allocs)

/-- The arena; `bufferAlignment` is the alignment of its underlying buffer. -/
structure SimpleMemoryArena where
  bufferAlignment : UInt64
  highWaterMark : UInt64
  activeAllocs : List ArenaAllocWithUsageInterval
  deriving DecidableEq, Repr

/-- The arguments of `Allocate`. -/
structure AllocRequest where
  alignment : UInt64
  size : UInt64
  tensor : Int
  firstNode : Int
  lastNode : Int

namespace SimpleMemoryArena

def new (bufferAlignment : UInt64) : SimpleMemoryArena := ⟨bufferAlignment, 0, []⟩

/-- Entries whose tensor is -1 are erased, whether just marked or not. -/
def purgeAfter (arena : SimpleMemoryArena) (node : Int) : SimpleMemoryArena :=
  { arena with
    activeAllocs := arena.activeAllocs.filter fun alloc =>
      decide (¬ node < alloc.firstNode ∧ alloc.tensor ≠ -1) }

def purgeActiveAllocs (arena : SimpleMemoryArena) (node : Int) : SimpleMemoryArena :=
  { arena with
    activeAllocs := arena.activeAllocs.filter fun alloc =>
      decide (¬ alloc.lastNode < node ∧ alloc.tensor ≠ -1) }

def calculateActiveAllocs (sorting : OffsetSort) (arena : SimpleMemoryArena)
    (allocs : List ArenaAllocWithUsageInterval) (node : Int) : SimpleMemoryArena :=
  { arena with
    activeAllocs := sorting.sort (allocs.filter fun alloc =>
      decide (alloc.firstNode ≤ node ∧ node ≤ alloc.lastNode)) }

def resetAllocs (arena : SimpleMemoryArena) : SimpleMemoryArena :=
  { arena with activeAllocs := [] }

def clearPlan (arena : SimpleMemoryArena) : SimpleMemoryArena :=
  { arena with highWaterMark := 0, activeAllocs := [] }

/-! ### Allocate -/

def kOffsetNotAssigned : UInt64 := sizeMax

/-- The best gap so far and the end of the allocations passed. -/
structure BestFit where
  bestOffset : UInt64
  bestOffsetFit : UInt64
  currentOffset : UInt64

/-- The gap in front of `alloc`, at `alignedCurrentOffset`, is taken if it is smaller. -/
def BestFit.take (best : BestFit) (alignedCurrentOffset alignedCurrentEnd : UInt64)
    (alloc : ArenaAllocWithUsageInterval) : Except Fault BestFit :=
  if alignedCurrentEnd ≤ alloc.offset then do
    let gap ← minus alloc.offset alignedCurrentOffset
    if gap < best.bestOffsetFit then do
      let fit ← minus alloc.offset best.currentOffset
      return { best with bestOffset := alignedCurrentOffset, bestOffsetFit := fit }
    else return best
  else return best

/-- The loop over the active allocations. -/
def BestFit.scan (req : AllocRequest) :
    List ArenaAllocWithUsageInterval → BestFit → Except Fault BestFit
  | [], best => .ok best
  | alloc :: allocs, best =>
    if alloc.lastNode < req.firstNode ∨ req.lastNode < alloc.firstNode then
      scan req allocs best
    else do
      let alignedCurrentOffset ← checkedAlignTo req.alignment best.currentOffset
      let alignedCurrentEnd ← checkedAdd alignedCurrentOffset req.size
      let best ← best.take alignedCurrentOffset alignedCurrentEnd alloc
      let allocEnd ← checkedAdd alloc.offset alloc.size
      let best := { best with currentOffset := max best.currentOffset allocEnd }
      if best.bestOffsetFit = 0 then return best else scan req allocs best

/-- The offset of a new allocation and the buffer size it requires. -/
def place (arena : SimpleMemoryArena) (req : AllocRequest) : Except Fault (UInt64 × UInt64) := do
  let best ← BestFit.scan req arena.activeAllocs ⟨kOffsetNotAssigned, kOffsetNotAssigned, 0⟩
  let bestOffset ←
    if best.bestOffset = kOffsetNotAssigned then checkedAlignTo req.alignment best.currentOffset
    else .ok best.bestOffset
  let requiredBufferSize ← checkedAdd bestOffset req.size
  return (bestOffset, requiredBufferSize)

/-- What `Allocate` leaves behind. -/
structure Allocated where
  arena : SimpleMemoryArena
  newAlloc : ArenaAllocWithUsageInterval
  status : Except Fault Unit

def allocate (arena : SimpleMemoryArena) (req : AllocRequest)
    (newAlloc : ArenaAllocWithUsageInterval) : Allocated :=
  if req.alignment = 0 ∨ arena.bufferAlignment < req.alignment then
    ⟨arena, newAlloc, .error .ensure⟩
  else
    let newAlloc : ArenaAllocWithUsageInterval :=
      ⟨newAlloc.offset, req.size, req.tensor, req.firstNode, req.lastNode⟩
    if req.size = 0 then ⟨arena, { newAlloc with offset := 0 }, .ok ()⟩
    else
      match arena.place req with
      | .error fault => ⟨arena, newAlloc, .error fault⟩
      | .ok (bestOffset, requiredBufferSize) =>
        let newAlloc := { newAlloc with offset := bestOffset }
        ⟨{ arena with
            highWaterMark := max arena.highWaterMark requiredBufferSize
            activeAllocs := upperInsert (fun alloc => alloc.offset.toNat) bestOffset.toNat
              newAlloc arena.activeAllocs }, newAlloc, .ok ()⟩

/-! ### No wrapping -/

theorem take_eq {best : BestFit} {alignedCurrentOffset alignedCurrentEnd : UInt64}
    {alloc : ArenaAllocWithUsageInterval}
    (hcur : best.currentOffset ≤ alignedCurrentOffset)
    (hend : alignedCurrentOffset ≤ alignedCurrentEnd) :
    best.take alignedCurrentOffset alignedCurrentEnd alloc = .ok
      (if alignedCurrentEnd ≤ alloc.offset ∧
          alloc.offset - alignedCurrentOffset < best.bestOffsetFit then
        { best with
          bestOffset := alignedCurrentOffset
          bestOffsetFit := alloc.offset - best.currentOffset }
      else best) := by
  unfold BestFit.take
  by_cases hle : alignedCurrentEnd ≤ alloc.offset
  · have haligned := UInt64.le_trans hend hle
    rw [if_pos hle, minus_eq haligned, ok_bind]
    by_cases hlt : alloc.offset - alignedCurrentOffset < best.bestOffsetFit
    · rw [if_pos hlt, if_pos ⟨hle, hlt⟩, minus_eq (UInt64.le_trans hcur haligned), ok_bind]
      rfl
    · rw [if_neg hlt, if_neg fun h => hlt h.2]
      rfl
  · rw [if_neg hle, if_neg fun h => hle h.1]
    rfl

theorem toNat_max (a b : UInt64) : (max a b).toNat = max a.toNat b.toNat := by
  show (if a ≤ b then b else a).toNat = _
  split
  · rename_i h
    exact (Nat.max_eq_right (UInt64.le_iff_toNat_le.1 h)).symm
  · rename_i h
    rw [UInt64.le_iff_toNat_le] at h
    exact (Nat.max_eq_left (Nat.le_of_not_le h)).symm

/-- What passing an allocation in the way does to the best gap. -/
structure BestFit.Passes (req : AllocRequest) (alloc : ArenaAllocWithUsageInterval)
    (best best' : BestFit) : Prop where
  current : best'.currentOffset.toNat = max best.currentOffset.toNat alloc.stop
  chosen : (best'.bestOffset = best.bestOffset ∧ best'.bestOffsetFit = best.bestOffsetFit) ∨
    (req.alignment.toNat ∣ best'.bestOffset.toNat ∧
      best.currentOffset.toNat ≤ best'.bestOffset.toNat ∧
      best'.bestOffset.toNat + req.size.toNat ≤ alloc.offset.toNat)

/-- An allocation in the way is passed, or a check stops the search. -/
theorem scan_meets (req : AllocRequest) (alloc : ArenaAllocWithUsageInterval)
    (allocs : List ArenaAllocWithUsageInterval) (best : BestFit)
    (h : ¬ (alloc.lastNode < req.firstNode ∨ req.lastNode < alloc.firstNode)) :
    BestFit.scan req (alloc :: allocs) best = .error .ensure ∨
      ∃ best', best.Passes req alloc best' ∧ BestFit.scan req (alloc :: allocs) best =
        if best'.bestOffsetFit = 0 then .ok best' else BestFit.scan req allocs best' := by
  rw [BestFit.scan, if_neg h]
  cases haligned : checkedAlignTo req.alignment best.currentOffset with
  | error fault =>
    cases fault with
    | ensure => exact .inl rfl
    | wrapped => exact absurd haligned (checkedAlignTo_ne_wrapped _ _)
  | ok aligned =>
    obtain ⟨hdvd, hcur⟩ := checkedAlignTo_eq_ok haligned
    rw [ok_bind]
    cases hend : checkedAdd aligned req.size with
    | error fault =>
      cases fault with
      | ensure => exact .inl rfl
      | wrapped => exact absurd hend (checkedAdd_ne_wrapped _ _)
    | ok alignedEnd =>
      have hsum := checkedAdd_eq_ok hend
      have hle : aligned ≤ alignedEnd := by
        rw [UInt64.le_iff_toNat_le]
        omega
      rw [ok_bind, take_eq (UInt64.le_iff_toNat_le.2 hcur) hle, ok_bind]
      cases hstop : checkedAdd alloc.offset alloc.size with
      | error fault =>
        cases fault with
        | ensure => exact .inl rfl
        | wrapped => exact absurd hstop (checkedAdd_ne_wrapped _ _)
      | ok allocEnd =>
        refine .inr ⟨_, ⟨?_, ?_⟩, rfl⟩
        · dsimp only
          split <;> exact (toNat_max _ _).trans (by rw [checkedAdd_eq_ok hstop]; rfl)
        · dsimp only
          split
          · rename_i hfit
            have hgap := UInt64.le_iff_toNat_le.1 hfit.1
            refine .inr ⟨hdvd, hcur, ?_⟩
            show aligned.toNat + req.size.toNat ≤ alloc.offset.toNat
            omega
          · exact .inl ⟨rfl, rfl⟩

theorem scan_ne_wrapped (req : AllocRequest) (allocs : List ArenaAllocWithUsageInterval)
    (best : BestFit) : BestFit.scan req allocs best ≠ .error .wrapped := by
  induction allocs generalizing best with
  | nil => simp [BestFit.scan]
  | cons alloc allocs ih =>
    by_cases h : alloc.lastNode < req.firstNode ∨ req.lastNode < alloc.firstNode
    · rw [BestFit.scan, if_pos h]
      exact ih best
    · rcases scan_meets req alloc allocs best h with heq | ⟨best', -, heq⟩
      · rw [heq]
        simp
      · rw [heq]
        split
        · simp
        · exact ih best'

theorem required_ne_wrapped (bestOffset size : UInt64) :
    (do let required ← checkedAdd bestOffset size; return (bestOffset, required) :
      Except Fault (UInt64 × UInt64)) ≠ .error .wrapped := by
  cases hadd : checkedAdd bestOffset size with
  | error fault =>
    rw [error_bind]
    intro h
    cases h
    exact checkedAdd_ne_wrapped _ _ hadd
  | ok stop => simp

theorem required_eq_ok {bestOffset size offset required : UInt64}
    (h : (do let required ← checkedAdd bestOffset size; return (bestOffset, required) :
      Except Fault (UInt64 × UInt64)) = .ok (offset, required)) :
    offset = bestOffset ∧ required.toNat = bestOffset.toNat + size.toNat := by
  cases hadd : checkedAdd bestOffset size with
  | error fault =>
    rw [hadd] at h
    cases h
  | ok stop =>
    rw [hadd] at h
    cases h
    exact ⟨rfl, checkedAdd_eq_ok hadd⟩

theorem place_ne_wrapped (arena : SimpleMemoryArena) (req : AllocRequest) :
    arena.place req ≠ .error .wrapped := by
  unfold place
  cases hscan : BestFit.scan req arena.activeAllocs ⟨kOffsetNotAssigned, kOffsetNotAssigned, 0⟩ with
  | error fault =>
    rw [error_bind]
    intro h
    cases h
    exact scan_ne_wrapped _ _ _ hscan
  | ok best =>
    rw [ok_bind]
    split
    · cases haligned : checkedAlignTo req.alignment best.currentOffset with
      | error fault =>
        rw [error_bind]
        intro h
        cases h
        exact checkedAlignTo_ne_wrapped _ _ haligned
      | ok aligned => exact required_ne_wrapped aligned req.size
    · exact required_ne_wrapped best.bestOffset req.size

/-! ### The chosen offset -/

/-- The scan of the active allocations, as a search for a gap; a gap counts as chosen once
its offset is assigned. -/
structure BestFit.Valid (req : AllocRequest) (passed : List ArenaAllocWithUsageInterval)
    (best : BestFit) : Prop where
  scanned : Scanned (fun a => a.offset.toNat) stop
    (fun a => a.firstNode ≤ req.lastNode ∧ req.firstNode ≤ a.lastNode) req.size.toNat passed
    best.currentOffset.toNat
    (if best.bestOffset = kOffsetNotAssigned then none else some best.bestOffset.toNat)
  dvd : best.bestOffset ≠ kOffsetNotAssigned → req.alignment.toNat ∣ best.bestOffset.toNat
  fit : best.bestOffset = kOffsetNotAssigned → best.bestOffsetFit = kOffsetNotAssigned

theorem BestFit.valid_initial (req : AllocRequest) :
    BestFit.Valid req [] ⟨kOffsetNotAssigned, kOffsetNotAssigned, 0⟩ where
  scanned := scanned_nil
  dvd := fun h => absurd rfl h
  fit := fun _ => rfl

theorem BestFit.Valid.passes {req : AllocRequest} {passed : List ArenaAllocWithUsageInterval}
    {alloc : ArenaAllocWithUsageInterval} {best best' : BestFit} (h : best.Valid req passed)
    (hsize : req.size ≠ 0) (hsorted : ∀ a ∈ passed, a.offset.toNat ≤ alloc.offset.toNat)
    (hpass : best.Passes req alloc best') : best'.Valid req (passed ++ [alloc]) := by
  obtain ⟨hcur, hchosen⟩ := hpass
  have hpos := pos_of_ne_zero hsize
  have hlt := alloc.offset.toNat_lt
  have hassigned : ¬ (best'.bestOffset = best.bestOffset ∧
      best'.bestOffsetFit = best.bestOffsetFit) → best'.bestOffset ≠ kOffsetNotAssigned := by
    intro hnot heq
    rcases hchosen with hsame | ⟨-, -, hle⟩
    · exact hnot hsame
    · rw [heq, show kOffsetNotAssigned.toNat = 18446744073709551615 from toNat_sizeMax] at hle
      omega
  refine ⟨h.scanned.pass hsorted ?_ ?_ ?_, ?_, ?_⟩
  · rw [hcur]
    exact le_max_left _ _
  · rw [hcur]
    exact le_max_right _ _
  · intro o ho
    rcases hchosen with ⟨hsame, -⟩ | ⟨-, hge, hle⟩
    · rw [hsame] at ho
      exact .inl ho
    · split at ho
      · cases ho
      · cases ho
        exact .inr ⟨hge, hle⟩
  · intro hne
    rcases hchosen with ⟨hsame, -⟩ | ⟨hdvd, -, -⟩
    · rw [hsame] at hne ⊢
      exact h.dvd hne
    · exact hdvd
  · intro heq
    by_contra hne
    refine hassigned (fun hsame => hne ?_) heq
    rw [hsame.2]
    exact h.fit (by rw [← hsame.1, heq])

/-- The gap that the scan ends with is clear of all allocations in the way, also of those
behind a gap that fits exactly. -/
theorem scan_clear {req : AllocRequest} (hsize : req.size ≠ 0)
    {passed allocs : List ArenaAllocWithUsageInterval} {best best' : BestFit}
    (hsorted : Sorted (passed ++ allocs)) (h : best.Valid req passed)
    (hscan : BestFit.scan req allocs best = .ok best') :
    (best'.bestOffset ≠ kOffsetNotAssigned → req.alignment.toNat ∣ best'.bestOffset.toNat ∧
      Clear (fun a => a.offset.toNat) stop
        (fun a => a.firstNode ≤ req.lastNode ∧ req.firstNode ≤ a.lastNode) (passed ++ allocs)
        best'.bestOffset.toNat req.size.toNat) ∧
    (best'.bestOffset = kOffsetNotAssigned → ∀ o, best'.currentOffset.toNat ≤ o →
      Clear (fun a => a.offset.toNat) stop
        (fun a => a.firstNode ≤ req.lastNode ∧ req.firstNode ≤ a.lastNode) (passed ++ allocs)
        o req.size.toNat) := by
  induction allocs generalizing passed best with
  | nil =>
    cases hscan
    rw [List.append_nil]
    refine ⟨fun hne => ⟨h.dvd hne, ?_⟩, fun _ o ho => h.scanned.clear_end ho⟩
    have hchosen := h.scanned.chosen
    rw [if_neg hne] at hchosen
    exact (hchosen _ rfl).1
  | cons alloc allocs ih =>
    have happend : passed ++ alloc :: allocs = passed ++ [alloc] ++ allocs := by simp
    have hbefore : ∀ a ∈ passed, ∀ b ∈ alloc :: allocs, a.offset.toNat ≤ b.offset.toNat :=
      (List.pairwise_append.1 hsorted).2.2
    by_cases hskip : alloc.lastNode < req.firstNode ∨ req.lastNode < alloc.firstNode
    · rw [BestFit.scan, if_pos hskip] at hscan
      rw [happend] at hsorted ⊢
      refine ih hsorted { h with scanned := h.scanned.skip fun hmeets => ?_ } hscan
      obtain ⟨h1, h2⟩ := hmeets
      omega
    · rcases scan_meets req alloc allocs best hskip with heq | ⟨next, hpass, heq⟩
      · rw [heq] at hscan
        cases hscan
      · have hnext := h.passes hsize (fun a ha => hbefore a ha alloc List.mem_cons_self) hpass
        rw [heq] at hscan
        rw [happend] at hsorted ⊢
        split at hscan
        · rename_i hzero
          cases hscan
          have hne : best'.bestOffset ≠ kOffsetNotAssigned := by
            intro heq
            rw [hnext.fit heq] at hzero
            exact absurd hzero (by decide)
          refine ⟨fun _ => ⟨hnext.dvd hne, ?_⟩, fun heq => absurd heq hne⟩
          refine hnext.scanned.clear_best (List.pairwise_append.1 hsorted).2.2 ?_
          rw [if_neg hne]
          rfl
        · exact ih hsorted hnext hscan

/-- A new allocation is aligned, apart from the active allocations in its way, and ends at
the required buffer size. -/
theorem place_eq_ok {arena : SimpleMemoryArena} {req : AllocRequest} {offset required : UInt64}
    (hsize : req.size ≠ 0) (hsorted : Sorted arena.activeAllocs)
    (h : arena.place req = .ok (offset, required)) :
    req.alignment.toNat ∣ offset.toNat ∧ required.toNat = offset.toNat + req.size.toNat ∧
      Clear (fun a => a.offset.toNat) stop
        (fun a => a.firstNode ≤ req.lastNode ∧ req.firstNode ≤ a.lastNode) arena.activeAllocs
        offset.toNat req.size.toNat := by
  unfold place at h
  cases hscan : BestFit.scan req arena.activeAllocs ⟨kOffsetNotAssigned, kOffsetNotAssigned, 0⟩ with
  | error fault =>
    rw [hscan] at h
    cases h
  | ok best =>
    obtain ⟨hchosen, hend⟩ := @scan_clear req hsize [] _ _ _ hsorted (BestFit.valid_initial req)
        hscan
    rw [hscan, ok_bind] at h
    by_cases hassigned : best.bestOffset = kOffsetNotAssigned
    · rw [if_pos hassigned] at h
      cases haligned : checkedAlignTo req.alignment best.currentOffset with
      | error fault =>
        rw [haligned] at h
        cases h
      | ok aligned =>
        obtain ⟨hdvd, hle⟩ := checkedAlignTo_eq_ok haligned
        rw [haligned, ok_bind] at h
        obtain ⟨rfl, hrequired⟩ := required_eq_ok h
        exact ⟨hdvd, hrequired, hend hassigned _ hle⟩
    · rw [if_neg hassigned, ok_bind] at h
      obtain ⟨rfl, hrequired⟩ := required_eq_ok h
      exact ⟨(hchosen hassigned).1, hrequired, (hchosen hassigned).2⟩

end SimpleMemoryArena

end LiteRt.Tflite
