import LiteRt.Tflite.Arena
import Mathlib.Data.List.Perm.Subperm

/-!
# Runs of the arena

A planner goes through the nodes of a graph: what it allocates starts no earlier than the node
it purged for, and it recalculates the active allocations from those it has not given up. Then
no two allocations it keeps overlap while both are in use.
-/

namespace LiteRt.Tflite

open LiteRt.Lib GapScan SimpleMemoryArena ArenaAllocWithUsageInterval List

/-- A non-empty allocation and the alignment it was asked for. -/
structure Placed where
  alloc : ArenaAllocWithUsageInterval
  alignment : UInt64
  deriving DecidableEq, Repr

/-- An arena, the allocations its planner keeps, the other entries it was handed, and the node
up to which it was purged. -/
structure Ledger where
  arena : SimpleMemoryArena
  kept : List Placed
  foreign : List ArenaAllocWithUsageInterval
  purged : Option Int

inductive ArenaCall where
  | allocate (req : AllocRequest) (newAlloc : ArenaAllocWithUsageInterval)
  | purgeActiveAllocs (node : Int)
  | purgeAfter (node : Int)
  /-- `allocs` holds what is kept of the arena and `others`. -/
  | calculateActiveAllocs (allocs : List ArenaAllocWithUsageInterval) (node : Int)
      (own : List Placed) (others : List ArenaAllocWithUsageInterval)
  | resetAllocs

namespace Ledger

variable {s : Ledger} {req : AllocRequest} {arena : SimpleMemoryArena}
  {allocs others : List ArenaAllocWithUsageInterval} {own : List Placed}

def new (bufferAlignment : UInt64) : Ledger := ⟨.new bufferAlignment, [], [], none⟩

/-- The calls, and what the planner gives up with them. -/
def step (sorting : OffsetSort) (s : Ledger) : ArenaCall → Option Ledger
  | .allocate req newAlloc =>
    let result := s.arena.allocate req newAlloc
    some { s with
      arena := result.arena
      kept := if result.status = .ok () ∧ req.size ≠ 0 then
          ⟨result.newAlloc, req.alignment⟩ :: s.kept else s.kept }
  | .purgeActiveAllocs node =>
    some { s with
      arena := s.arena.purgeActiveAllocs node
      purged := some (max (s.purged.getD node) node) }
  | .purgeAfter node =>
    some { s with
      arena := s.arena.purgeAfter node
      kept := s.kept.filter fun p => decide (p.alloc.firstNode ≤ node) }
  | .calculateActiveAllocs allocs node own others =>
    some ⟨s.arena.calculateActiveAllocs sorting allocs node, own, others, some node⟩
  | .resetAllocs => some ⟨s.arena.resetAllocs, [], [], none⟩

def Disciplined (s : Ledger) : ArenaCall → Prop
  | .allocate req _ => req.tensor ≠ -1 ∧ ∀ node ∈ s.purged, node ≤ req.firstNode
  | .calculateActiveAllocs allocs node own others =>
    own.Subperm s.kept ∧ (∀ p ∈ own, p.alloc.firstNode ≤ node) ∧
      allocs.Perm (own.map (·.alloc) ++ others)
  | _ => True

/-- Kept allocations are active or end before the node purged for; those whose node intervals
meet are apart. -/
structure Valid (s : Ledger) : Prop where
  sorted : Sorted s.arena.activeAllocs
  active : ∃ (own : List Placed) (others : List ArenaAllocWithUsageInterval), s.arena.activeAllocs.Perm
    (own.map (·.alloc) ++ others) ∧ own.Subperm s.kept ∧ ∀ a ∈ others, a ∈ s.foreign
  live : ∀ p ∈ s.kept, p.alloc ∈ s.arena.activeAllocs ∨ ∃ node ∈ s.purged, p.alloc.lastNode < node
  apart : s.kept.Pairwise fun p q => p.alloc.Meets q.alloc → p.alloc.Apart q.alloc
  placed : ∀ p ∈ s.kept, p.alloc.tensor ≠ -1 ∧
    p.alignment.toNat ∣ p.alloc.offset.toNat ∧ p.alloc.stop ≤ s.arena.highWaterMark.toNat

theorem valid_new (bufferAlignment : UInt64) : (new bufferAlignment).Valid where
  sorted := .nil
  active := ⟨[], [], .refl _, .refl _, by simp⟩
  live := by simp [new]
  apart := .nil
  placed := by simp [new]

/-! ## Purging -/

theorem sorted_filter {allocs : List ArenaAllocWithUsageInterval} (h : Sorted allocs)
    (p : ArenaAllocWithUsageInterval → Bool) : Sorted (allocs.filter p) :=
  h.sublist filter_sublist

theorem active_filter (h : allocs.Perm (own.map (·.alloc) ++ others))
    (p : ArenaAllocWithUsageInterval → Bool) :
    (allocs.filter p).Perm ((own.filter fun q => p q.alloc).map (·.alloc) ++ others.filter p) := by
  have hfilter := h.filter p
  rwa [filter_append, filter_map] at hfilter

theorem Valid.purgeActiveAllocs (h : s.Valid) (node : Int) :
    Valid { s with
      arena := s.arena.purgeActiveAllocs node
      purged := some (max (s.purged.getD node) node) } := by
  obtain ⟨own, others, hperm, hsub, hforeign⟩ := h.active
  refine ⟨sorted_filter h.sorted _, ⟨_, _, active_filter hperm _, ?_, ?_⟩, ?_, h.apart, h.placed⟩
  · exact filter_sublist.subperm.trans hsub
  · exact fun a ha => hforeign a (mem_of_mem_filter ha)
  · intro p hp
    rcases h.live p hp with hactive | ⟨floor, hfloor, hlt⟩
    · by_cases hlast : p.alloc.lastNode < node
      · exact .inr ⟨_, rfl, lt_of_lt_of_le hlast (le_max_right _ _)⟩
      · refine .inl (mem_filter.2 ⟨hactive, decide_eq_true ⟨hlast, (h.placed p hp).1⟩⟩)
    · refine .inr ⟨_, rfl, lt_of_lt_of_le hlt ?_⟩
      rw [Option.mem_def.1 hfloor]
      exact le_max_left _ _

theorem Valid.purgeAfter (h : s.Valid) (node : Int) :
    Valid { s with
      arena := s.arena.purgeAfter node
      kept := s.kept.filter fun p => decide (p.alloc.firstNode ≤ node) } := by
  obtain ⟨own, others, hperm, hsub, hforeign⟩ := h.active
  have hmem : ∀ p ∈ s.kept.filter fun p => decide (p.alloc.firstNode ≤ node),
      p ∈ s.kept ∧ p.alloc.firstNode ≤ node := by
    intro p hp
    obtain ⟨hp, hle⟩ := mem_filter.1 hp
    exact ⟨hp, of_decide_eq_true hle⟩
  refine ⟨sorted_filter h.sorted _, ⟨_, _, active_filter hperm _, ?_, ?_⟩, ?_,
    h.apart.sublist filter_sublist, fun p hp => h.placed p (hmem p hp).1⟩
  · have hfilter : (own.filter fun p => decide (¬ node < p.alloc.firstNode ∧ p.alloc.tensor ≠ -1))
        = own.filter fun p => decide (p.alloc.firstNode ≤ node) := by
      refine filter_congr fun p hp => ?_
      have htensor := (h.placed p (hsub.subset hp)).1
      rw [decide_eq_decide]
      exact ⟨fun h => not_lt.1 h.1, fun h => ⟨not_lt.2 h, htensor⟩⟩
    rw [hfilter]
    exact hsub.filter _
  · exact fun a ha => hforeign a (mem_of_mem_filter ha)
  · intro p hp
    obtain ⟨hp, hle⟩ := hmem p hp
    rcases h.live p hp with hactive | hpurged
    · exact .inl (mem_filter.2 ⟨hactive, decide_eq_true ⟨not_lt.2 hle, (h.placed p hp).1⟩⟩)
    · exact .inr hpurged

/-! ## Recalculating -/

theorem pairwise_of_subperm {own kept : List Placed} (hsub : own.Subperm kept)
    (h : kept.Pairwise fun p q => p.alloc.Meets q.alloc → p.alloc.Apart q.alloc) :
    own.Pairwise fun p q => p.alloc.Meets q.alloc → p.alloc.Apart q.alloc := by
  obtain ⟨l, hperm, hl⟩ := hsub
  refine (hperm.pairwise_iff fun {p q} hpq hmeets => ?_).1 (h.sublist hl)
  exact (hpq ⟨hmeets.2, hmeets.1⟩).symm

theorem Valid.calculateActiveAllocs (sorting : OffsetSort) (h : s.Valid) {node : Int}
    (hsub : own.Subperm s.kept) (hnode : ∀ p ∈ own, p.alloc.firstNode ≤ node)
    (hperm : allocs.Perm (own.map (·.alloc) ++ others)) :
    Valid ⟨s.arena.calculateActiveAllocs sorting allocs node, own, others, some node⟩ := by
  refine ⟨sorting.sorted _, ⟨_, _, (sorting.perm _).trans (active_filter hperm _), ?_, ?_⟩, ?_,
    pairwise_of_subperm hsub h.apart, fun p hp => h.placed p (hsub.subset hp)⟩
  · exact filter_sublist.subperm
  · exact fun a ha => mem_of_mem_filter ha
  · intro p hp
    by_cases hlast : node ≤ p.alloc.lastNode
    · refine .inl ((sorting.perm _).mem_iff.2 (mem_filter.2 ⟨?_, ?_⟩))
      · exact hperm.mem_iff.2 (mem_append_left _ (mem_map_of_mem hp))
      · exact decide_eq_true ⟨hnode p hp, hlast⟩
    · exact .inr ⟨node, rfl, not_le.1 hlast⟩

/-! ## Allocating -/

theorem allocate_error {newAlloc : ArenaAllocWithUsageInterval} {fault : Fault}
    (h : (arena.allocate req newAlloc).status = .error fault) :
    (arena.allocate req newAlloc).arena = arena := by
  unfold SimpleMemoryArena.allocate at h ⊢
  split
  · rfl
  · rename_i halign
    rw [if_neg halign] at h
    dsimp only at h ⊢
    split
    · rfl
    · rename_i hsize
      rw [if_neg hsize] at h
      cases hplace : arena.place req with
      | error fault => rfl
      | ok r =>
        rw [hplace] at h
        cases h

theorem allocate_ne_wrapped (arena : SimpleMemoryArena) (req : AllocRequest)
    (newAlloc : ArenaAllocWithUsageInterval) :
    (arena.allocate req newAlloc).status ≠ .error .wrapped := by
  unfold SimpleMemoryArena.allocate
  split
  · simp
  · dsimp only
    split
    · simp
    · cases hplace : arena.place req with
      | error fault =>
        intro h
        cases h
        exact place_ne_wrapped _ _ hplace
      | ok r => simp

/-- A non-empty allocation that succeeds is inserted where it was placed. -/
theorem allocate_ok {newAlloc : ArenaAllocWithUsageInterval} (hsize : req.size ≠ 0)
    (h : (arena.allocate req newAlloc).status = .ok ()) :
    ∃ offset required, arena.place req = .ok (offset, required) ∧
      (arena.allocate req newAlloc).newAlloc
        = ⟨offset, req.size, req.tensor, req.firstNode, req.lastNode⟩ ∧
      (arena.allocate req newAlloc).arena = { arena with
        highWaterMark := max arena.highWaterMark required
        activeAllocs := upperInsert (fun alloc => alloc.offset.toNat) offset.toNat
          ⟨offset, req.size, req.tensor, req.firstNode, req.lastNode⟩ arena.activeAllocs } := by
  unfold SimpleMemoryArena.allocate at h ⊢
  by_cases halign : req.alignment = 0 ∨ arena.bufferAlignment < req.alignment
  · rw [if_pos halign] at h
    cases h
  · rw [if_neg halign] at h ⊢
    dsimp only at h ⊢
    rw [if_neg hsize] at h ⊢
    cases hplace : arena.place req with
    | error fault =>
      rw [hplace] at h
      cases h
    | ok r => exact ⟨r.1, r.2, rfl, rfl, rfl⟩

theorem allocate_empty {newAlloc : ArenaAllocWithUsageInterval} (hsize : req.size = 0) :
    (arena.allocate req newAlloc).arena = arena := by
  unfold SimpleMemoryArena.allocate
  split
  · rfl
  · rfl

theorem Valid.allocate (h : s.Valid) {newAlloc : ArenaAllocWithUsageInterval}
    (htensor : req.tensor ≠ -1) (hpurged : ∀ node ∈ s.purged, node ≤ req.firstNode) :
    Valid { s with
      arena := (s.arena.allocate req newAlloc).arena
      kept := if (s.arena.allocate req newAlloc).status = .ok () ∧ req.size ≠ 0 then
          ⟨(s.arena.allocate req newAlloc).newAlloc, req.alignment⟩ :: s.kept else s.kept } := by
  by_cases hok : (s.arena.allocate req newAlloc).status = .ok () ∧ req.size ≠ 0
  · obtain ⟨offset, required, hplace, hnew, harena⟩ := allocate_ok hok.2 hok.1
    obtain ⟨hdvd, hrequired, hclear⟩ := place_eq_ok hok.2 h.sorted hplace
    obtain ⟨own, others, hperm, hsub, hforeign⟩ := h.active
    rw [if_pos hok, hnew, harena]
    have hsorted := @upperInsert_sorted _ (fun a : ArenaAllocWithUsageInterval => a.offset.toNat)
      offset.toNat ⟨offset, req.size, req.tensor, req.firstNode, req.lastNode⟩ rfl _ h.sorted
    have hinsert := upperInsert_perm (fun alloc => alloc.offset.toNat) offset.toNat
      (⟨offset, req.size, req.tensor, req.firstNode, req.lastNode⟩ : ArenaAllocWithUsageInterval)
      s.arena.activeAllocs
    refine ⟨hsorted, ⟨⟨⟨offset, req.size, req.tensor, req.firstNode, req.lastNode⟩, req.alignment⟩ :: own,
      others, hinsert.trans (hperm.cons _), (subperm_cons _).2 hsub, hforeign⟩, ?_, ?_, ?_⟩
    · intro p hp
      rcases mem_cons.1 hp with rfl | hp
      · exact .inl (hinsert.mem_iff.2 mem_cons_self)
      · rcases h.live p hp with hactive | hlast
        · exact .inl (hinsert.mem_iff.2 (mem_cons_of_mem _ hactive))
        · exact .inr hlast
    · refine pairwise_cons.2 ⟨fun p hp hmeets => ?_, h.apart⟩
      rcases h.live p hp with hactive | ⟨node, hnode, hlt⟩
      · exact (hclear p.alloc hactive ⟨hmeets.2, hmeets.1⟩).symm
      · have hle := hpurged node hnode
        have hmeets' : req.firstNode ≤ p.alloc.lastNode := hmeets.1
        omega
    · intro p hp
      rw [toNat_max]
      rcases mem_cons.1 hp with rfl | hp
      · refine ⟨htensor, hdvd, ?_⟩
        rw [hrequired]
        exact le_max_right _ _
      · obtain ⟨ht, hd, hle⟩ := h.placed p hp
        exact ⟨ht, hd, hle.trans (le_max_left _ _)⟩
  · rw [if_neg hok]
    have harena : (s.arena.allocate req newAlloc).arena = s.arena := by
      by_cases hsize : req.size = 0
      · exact allocate_empty hsize
      · cases hstatus : (s.arena.allocate req newAlloc).status with
        | error fault => exact allocate_error hstatus
        | ok u => exact absurd ⟨hstatus, hsize⟩ hok
    rw [harena]
    exact h

/-! ## Runs -/

theorem Valid.step (sorting : OffsetSort) {s s' : Ledger} {call : ArenaCall}
    (hd : s.Disciplined call) (hs : s.step sorting call = some s') (h : s.Valid) : s'.Valid := by
  cases call with
  | allocate req newAlloc =>
    cases hs
    exact h.allocate hd.1 hd.2
  | purgeActiveAllocs node =>
    cases hs
    exact h.purgeActiveAllocs node
  | purgeAfter node =>
    cases hs
    exact h.purgeAfter node
  | calculateActiveAllocs allocs node own others =>
    cases hs
    exact h.calculateActiveAllocs sorting hd.1 hd.2.1 hd.2.2
  | resetAllocs =>
    cases hs
    exact ⟨.nil, ⟨[], [], .refl _, .refl _, by simp⟩, by simp, .nil, by simp⟩

/-- In every state of a disciplined run the active allocations are sorted, kept allocations in
use together are apart, aligned and below the high water mark, and no `Allocate` wraps or
leaves a trace when it fails. -/
theorem run_sound (sorting : OffsetSort) (bufferAlignment : UInt64) {calls : List ArenaCall}
    {s : Ledger} (run : Run Disciplined (step sorting) (new bufferAlignment) calls s) :
    Sorted s.arena.activeAllocs ∧
      (∃ (own : List Placed) (others : List ArenaAllocWithUsageInterval),
        s.arena.activeAllocs.Perm (own.map (·.alloc) ++ others) ∧ own.Subperm s.kept ∧
          (∀ a ∈ others, a ∈ s.foreign) ∧
          own.Pairwise fun p q => p.alloc.Meets q.alloc → p.alloc.Apart q.alloc) ∧
      (s.kept.Pairwise fun p q => p.alloc.Meets q.alloc → p.alloc.Apart q.alloc) ∧
      (∀ p ∈ s.kept, p.alignment.toNat ∣ p.alloc.offset.toNat ∧
        p.alloc.stop ≤ s.arena.highWaterMark.toNat) ∧
      ∀ req newAlloc, (s.arena.allocate req newAlloc).status ≠ .error .wrapped ∧
        ∀ fault, (s.arena.allocate req newAlloc).status = .error fault →
          (s.arena.allocate req newAlloc).arena = s.arena := by
  have h : s.Valid := run.invariant (fun _ _ _ hd hs h => h.step sorting hd hs)
    (valid_new bufferAlignment)
  obtain ⟨own, others, hperm, hsub, hforeign⟩ := h.active
  refine ⟨h.sorted, ⟨own, others, hperm, hsub, hforeign, pairwise_of_subperm hsub h.apart⟩,
    h.apart, fun p hp => (h.placed p hp).2, fun req newAlloc => ?_⟩
  exact ⟨allocate_ne_wrapped _ _ _, fun _ => allocate_error⟩

/-- Sorting by insertion. -/
def mergeOffsets : OffsetSort where
  sort allocs := allocs.mergeSort fun a b => decide (a.offset.toNat ≤ b.offset.toNat)
  perm allocs := mergeSort_perm allocs _
  sorted allocs := by
    have h := @pairwise_mergeSort _ (fun a b : ArenaAllocWithUsageInterval =>
      decide (a.offset.toNat ≤ b.offset.toNat))
      (fun a b c hab hbc => decide_eq_true ((of_decide_eq_true hab).trans (of_decide_eq_true hbc)))
      (fun a b => by simpa using Nat.le_total a.offset.toNat b.offset.toNat) allocs
    exact h.imp of_decide_eq_true

/-- Two allocations, a purge, and a return to the node of the first one. -/
theorem run_sound_twoAllocs : ∃ s, Run Disciplined (step mergeOffsets) (new 64)
    [.allocate ⟨64, 100, 0, 0, 2⟩ .unused, .allocate ⟨64, 10, 1, 1, 3⟩ .unused,
      .purgeActiveAllocs 3,
      .calculateActiveAllocs [⟨0, 100, 0, 0, 2⟩] 0 [⟨⟨0, 100, 0, 0, 2⟩, 64⟩] []] s ∧
    Sorted s.arena.activeAllocs := by
  obtain ⟨s, hrun⟩ : ∃ s, Run Disciplined (step mergeOffsets) (new 64)
      [.allocate ⟨64, 100, 0, 0, 2⟩ .unused, .allocate ⟨64, 10, 1, 1, 3⟩ .unused,
        .purgeActiveAllocs 3,
        .calculateActiveAllocs [⟨0, 100, 0, 0, 2⟩] 0 [⟨⟨0, 100, 0, 0, 2⟩, 64⟩] []] s := by
    refine ⟨_, .cons ⟨by decide, by simp [new]⟩ rfl <| .cons ⟨by decide, by simp [new]⟩ rfl <|
      .cons trivial rfl <| .cons ⟨?_, by decide, by decide⟩ rfl (.nil _)⟩
    decide
  exact ⟨s, hrun, (run_sound mergeOffsets 64 hrun).1⟩

end Ledger

end LiteRt.Tflite
