import Mathlib.Data.List.Pairwise
import LiteRt.Tflite.Arena

/-!
# Best fit in the arena

The scan compares the aligned gap with the best so far but keeps the gap with the padding in front
of it, so that a later and larger gap can replace a tighter one.
-/

namespace LiteRt.Tflite

open LiteRt.Lib GapScan

/-- The space in front of an allocation in the way, behind those before it. -/
structure Gap where
  start : Nat
  stop : Nat
  deriving DecidableEq, Repr

def alignUp (alignment n : Nat) : Nat :=
  if n % alignment = 0 then n else n + (alignment - n % alignment)

namespace Gap

/-- The offset of a request in the gap. -/
def place (req : AllocRequest) (g : Gap) : Nat := alignUp req.alignment.toNat g.start

def usable (req : AllocRequest) (g : Gap) : Nat := g.stop - g.place req

def space (g : Gap) : Nat := g.stop - g.start

def Fits (req : AllocRequest) (g : Gap) : Prop := g.place req + req.size.toNat ≤ g.stop

instance (req : AllocRequest) (g : Gap) : Decidable (g.Fits req) :=
  inferInstanceAs (Decidable (_ ≤ _))

end Gap

def liveGaps (req : AllocRequest) : List ArenaAllocWithUsageInterval → Nat → List Gap
  | [], _ => []
  | alloc :: allocs, cur =>
    if alloc.lastNode < req.firstNode ∨ req.lastNode < alloc.firstNode then
      liveGaps req allocs cur
    else ⟨cur, alloc.offset.toNat⟩ :: liveGaps req allocs (max cur alloc.stop)

def liveEnd (req : AllocRequest) : List ArenaAllocWithUsageInterval → Nat → Nat
  | [], cur => cur
  | alloc :: allocs, cur =>
    if alloc.lastNode < req.firstNode ∨ req.lastNode < alloc.firstNode then
      liveEnd req allocs cur
    else liveEnd req allocs (max cur alloc.stop)

def fittingGaps (req : AllocRequest) (allocs : List ArenaAllocWithUsageInterval) (cur : Nat) :
    List Gap :=
  (liveGaps req allocs cur).filter fun g => g.Fits req

/-- The offset is in a gap that fits and has the least usable space, or at the end if none fits. -/
def BestFitting (req : AllocRequest) (allocs : List ArenaAllocWithUsageInterval) (offset : Nat) :
    Prop :=
  (fittingGaps req allocs 0 = [] ∧ offset = alignUp req.alignment.toNat (liveEnd req allocs 0)) ∨
    ∃ g ∈ fittingGaps req allocs 0, offset = g.place req ∧
      ∀ g' ∈ fittingGaps req allocs 0, g.usable req ≤ g'.usable req

section
variable {req : AllocRequest} {allocs : List ArenaAllocWithUsageInterval} {g g' : Gap}
  {cur alignment n : Nat}

theorem le_alignUp (alignment n : Nat) : n ≤ alignUp alignment n := by
  unfold alignUp
  split
  · exact Nat.le_refl n
  · exact Nat.le_add_right n _

theorem checkedAlignTo_eq_alignUp {alignment offset aligned : UInt64}
    (h : checkedAlignTo alignment offset = .ok aligned) :
    aligned.toNat = alignUp alignment.toNat offset.toNat := by
  unfold checkedAlignTo at h
  split at h
  · cases h
  · next hne =>
    have hpos := pos_of_ne_zero hne
    have hle : offset % alignment ≤ alignment := by
      rw [UInt64.le_iff_toNat_le, UInt64.toNat_mod]
      exact Nat.le_of_lt (Nat.mod_lt _ hpos)
    unfold alignUp
    dsimp only at h
    split at h
    · next hmod =>
      cases h
      rw [← UInt64.toNat_inj, UInt64.toNat_mod] at hmod
      exact (if_pos hmod).symm
    · next hmod =>
      rw [← UInt64.toNat_inj, UInt64.toNat_mod] at hmod
      rw [minus_eq hle, ok_bind] at h
      have hpad : ¬ offset.toNat % alignment.toNat = 0 := hmod
      rw [if_neg hpad, checkedAdd_eq_ok h, UInt64.toNat_sub_of_le _ _ hle, UInt64.toNat_mod]

theorem Gap.start_le_place : g.start ≤ g.place req :=
  le_alignUp _ _

theorem Gap.usable_le_space : g.usable req ≤ g.space :=
  Nat.sub_le_sub_left start_le_place _

theorem le_liveEnd : cur ≤ liveEnd req allocs cur := by
  induction allocs generalizing cur with
  | nil => exact Nat.le_refl cur
  | cons alloc allocs ih =>
    unfold liveEnd
    split
    · exact ih
    · exact Nat.le_trans (Nat.le_max_left _ _) ih

theorem liveGaps_bounds (h : g ∈ liveGaps req allocs cur) :
    cur ≤ g.start ∧ g.stop ≤ liveEnd req allocs cur ∧ g.stop < 2 ^ 64 := by
  induction allocs generalizing cur with
  | nil => cases h
  | cons alloc allocs ih =>
    unfold liveGaps at h
    unfold liveEnd
    split at h
    · next hskip =>
      rw [if_pos hskip]
      exact ih h
    · next hskip =>
      rw [if_neg hskip]
      rcases List.mem_cons.1 h with rfl | h
      · have hstop : alloc.offset.toNat ≤ alloc.stop := Nat.le_add_right _ _
        exact ⟨Nat.le_refl _, Nat.le_trans hstop
          (Nat.le_trans (Nat.le_max_right cur _) le_liveEnd), alloc.offset.toNat_lt⟩
      · obtain ⟨hstart, hrest⟩ := ih h
        exact ⟨Nat.le_trans (Nat.le_max_left _ _) hstart, hrest⟩

/-- A gap ends before the next one starts. -/
theorem liveGaps_pairwise : (liveGaps req allocs cur).Pairwise fun g g' => g.stop ≤ g'.start := by
  induction allocs generalizing cur with
  | nil => exact List.Pairwise.nil
  | cons alloc allocs ih =>
    unfold liveGaps
    split
    · exact ih
    · refine List.pairwise_cons.2 ⟨fun g hg => ?_, ih⟩
      exact Nat.le_trans (Nat.le_trans (Nat.le_add_right _ _) (Nat.le_max_right _ _))
        (liveGaps_bounds hg).1

theorem fittingGaps_pairwise :
    (fittingGaps req allocs cur).Pairwise fun g g' => g.stop ≤ g'.start :=
  liveGaps_pairwise.filter _

theorem mem_fittingGaps : g ∈ fittingGaps req allocs cur ↔
    g ∈ liveGaps req allocs cur ∧ g.Fits req := by
  unfold fittingGaps
  rw [List.mem_filter, decide_eq_true_eq]

/-- A gap that fits is known by its offset. -/
theorem eq_of_place_eq (hsize : 0 < req.size.toNat) (hg : g ∈ fittingGaps req allocs cur)
    (hg' : g' ∈ fittingGaps req allocs cur) (h : g.place req = g'.place req) : g = g' := by
  have hpair : (fittingGaps req allocs cur).Pairwise
      fun a b => a.place req = b.place req → a = b := by
    refine List.Pairwise.imp_of_mem ?_ fittingGaps_pairwise
    intro a b ha _ hab hplace
    have hfits : a.place req + req.size.toNat ≤ a.stop := (mem_fittingGaps.1 ha).2
    have hstart := @Gap.start_le_place req b
    omega
  have hsymm : Std.Symm fun a b : Gap => a.place req = b.place req → a = b :=
    ⟨fun a b hab hba => (hab hba.symm).symm⟩
  exact hpair.forall_of_forall (fun a _ _ => rfl) hg hg' h

/-- The best gap so far, as the loop keeps it. -/
def Represents (req : AllocRequest) (best : SimpleMemoryArena.BestFit) : Option Gap → Prop
  | none => best.bestOffset = SimpleMemoryArena.kOffsetNotAssigned ∧
    best.bestOffsetFit = SimpleMemoryArena.kOffsetNotAssigned
  | some g => best.bestOffset.toNat = g.place req ∧ best.bestOffsetFit.toNat = g.space ∧
    g.Fits req ∧ g.stop < 2 ^ 64

open SimpleMemoryArena in
/-- An allocation in the way is passed: the gap in front of it is taken if it fits and is less than
the bound. -/
theorem scan_meets_eq {alloc : ArenaAllocWithUsageInterval} {best best' : BestFit}
    (h : ¬ (alloc.lastNode < req.firstNode ∨ req.lastNode < alloc.firstNode))
    (hscan : BestFit.scan req (alloc :: allocs) best = .ok best') :
    ∃ next : BestFit, next.currentOffset.toNat = max best.currentOffset.toNat alloc.stop ∧
      (if Gap.Fits req ⟨best.currentOffset.toNat, alloc.offset.toNat⟩ ∧
          Gap.usable req ⟨best.currentOffset.toNat, alloc.offset.toNat⟩ < best.bestOffsetFit.toNat
        then Represents req next (some ⟨best.currentOffset.toNat, alloc.offset.toNat⟩)
        else next.bestOffset = best.bestOffset ∧ next.bestOffsetFit = best.bestOffsetFit) ∧
      (if next.bestOffsetFit = 0 then .ok next else BestFit.scan req allocs next) = .ok best' := by
  rw [BestFit.scan, if_neg h] at hscan
  cases haligned : checkedAlignTo req.alignment best.currentOffset with
  | error fault =>
    rw [haligned] at hscan
    cases hscan
  | ok aligned =>
    have hplace : aligned.toNat = Gap.place req ⟨best.currentOffset.toNat, alloc.offset.toNat⟩ :=
      checkedAlignTo_eq_alignUp haligned
    obtain ⟨-, hcur⟩ := checkedAlignTo_eq_ok haligned
    rw [haligned, ok_bind] at hscan
    cases hend : checkedAdd aligned req.size with
    | error fault =>
      rw [hend] at hscan
      cases hscan
    | ok alignedEnd =>
      have hsum := checkedAdd_eq_ok hend
      have hle : aligned ≤ alignedEnd := by
        rw [UInt64.le_iff_toNat_le]
        omega
      rw [hend, ok_bind, take_eq (UInt64.le_iff_toNat_le.2 hcur) hle, ok_bind] at hscan
      cases hstop : checkedAdd alloc.offset alloc.size with
      | error fault =>
        rw [hstop] at hscan
        cases hscan
      | ok allocEnd =>
        rw [hstop, ok_bind] at hscan
        have hfits : alignedEnd ≤ alloc.offset ↔
            Gap.Fits req ⟨best.currentOffset.toNat, alloc.offset.toNat⟩ := by
          rw [UInt64.le_iff_toNat_le, hsum, hplace]
          exact Iff.rfl
        have hless : alignedEnd ≤ alloc.offset → (alloc.offset - aligned < best.bestOffsetFit ↔
            Gap.usable req ⟨best.currentOffset.toNat, alloc.offset.toNat⟩ <
              best.bestOffsetFit.toNat) := by
          intro hle'
          rw [UInt64.lt_iff_toNat_lt, UInt64.toNat_sub_of_le _ _ (UInt64.le_trans hle hle'), hplace]
          exact Iff.rfl
        refine ⟨_, ?_, ?_, hscan⟩
        · dsimp only
          split <;> exact (toNat_max _ _).trans (by rw [checkedAdd_eq_ok hstop]; rfl)
        · dsimp only
          by_cases hfit : alignedEnd ≤ alloc.offset
          · by_cases hlt : alloc.offset - aligned < best.bestOffsetFit
            · rw [if_pos ⟨hfits.1 hfit, (hless hfit).1 hlt⟩, if_pos ⟨hfit, hlt⟩]
              refine ⟨hplace, ?_, hfits.1 hfit, alloc.offset.toNat_lt⟩
              exact UInt64.toNat_sub_of_le _ _
                (UInt64.le_trans (UInt64.le_iff_toNat_le.2 hcur) (UInt64.le_trans hle hfit))
            · rw [if_neg fun h' => hlt ((hless hfit).2 h'.2), if_neg fun h' => hlt h'.2]
              exact ⟨rfl, rfl⟩
          · rw [if_neg fun h' => hfit (hfits.2 h'.1), if_neg fun h' => hfit h'.1]
            exact ⟨rfl, rfl⟩

open SimpleMemoryArena in
/-- A gap that was taken has room for the request, so that the loop never ends early. -/
theorem represents_ne_zero (hsize : 0 < req.size.toNat) {best : BestFit} {b : Option Gap}
    (h : Represents req best b) : best.bestOffsetFit ≠ 0 := by
  intro hzero
  cases b with
  | none =>
    rw [h.2] at hzero
    exact absurd hzero (by decide)
  | some g =>
    obtain ⟨-, hspace, hfits, -⟩ := h
    have hplace := @Gap.start_le_place req g
    rw [hzero] at hspace
    unfold Gap.Fits at hfits
    change 0 = g.stop - g.start at hspace
    omega

theorem fittingGaps_skip {alloc : ArenaAllocWithUsageInterval}
    (h : alloc.lastNode < req.firstNode ∨ req.lastNode < alloc.firstNode) :
    fittingGaps req (alloc :: allocs) cur = fittingGaps req allocs cur :=
  congrArg (List.filter _) (if_pos h)

theorem fittingGaps_meets {alloc : ArenaAllocWithUsageInterval}
    (h : ¬ (alloc.lastNode < req.firstNode ∨ req.lastNode < alloc.firstNode)) :
    fittingGaps req (alloc :: allocs) cur =
      if Gap.Fits req ⟨cur, alloc.offset.toNat⟩ then
        ⟨cur, alloc.offset.toNat⟩ :: fittingGaps req allocs (max cur alloc.stop)
      else fittingGaps req allocs (max cur alloc.stop) := by
  unfold fittingGaps
  rw [liveGaps, if_neg h, List.filter_cons]
  simp only [decide_eq_true_eq]

open SimpleMemoryArena in
theorem Represents.congr {best next : BestFit} {b : Option Gap} (h : Represents req best b)
    (hsame : next.bestOffset = best.bestOffset ∧ next.bestOffsetFit = best.bestOffsetFit) :
    Represents req next b := by
  cases b with
  | none => exact ⟨hsame.1.trans h.1, hsame.2.trans h.2⟩
  | some g => exact ⟨hsame.1 ▸ h.1, hsame.2 ▸ h.2.1, h.2.2⟩

open SimpleMemoryArena in
/-- The loop picks among the gaps that fit. -/
theorem scan_pick (hsize : 0 < req.size.toNat) {best best' : BestFit} {b : Option Gap}
    (hb : Represents req best b) (hscan : BestFit.scan req allocs best = .ok best') :
    Represents req best' (pick (Gap.usable req) Gap.space
      (fittingGaps req allocs best.currentOffset.toNat) b best.bestOffsetFit.toNat) ∧
      best'.currentOffset.toNat = liveEnd req allocs best.currentOffset.toNat := by
  induction allocs generalizing best b with
  | nil =>
    cases hscan
    exact ⟨hb, rfl⟩
  | cons alloc allocs ih =>
    unfold liveEnd
    by_cases hskip : alloc.lastNode < req.firstNode ∨ req.lastNode < alloc.firstNode
    · rw [BestFit.scan, if_pos hskip] at hscan
      rw [fittingGaps_skip hskip, if_pos hskip]
      exact ih hb hscan
    · obtain ⟨next, hcur, htaken, hnext⟩ := scan_meets_eq hskip hscan
      rw [fittingGaps_meets hskip, if_neg hskip, ← hcur]
      split at htaken
      · next htake =>
        rw [if_neg (represents_ne_zero hsize htaken)] at hnext
        rw [if_pos htake.1, pick, if_pos htake.2, ← htaken.2.1]
        exact ih htaken hnext
      · next htake =>
        have hb' := hb.congr htaken
        rw [if_neg (represents_ne_zero hsize hb')] at hnext
        rw [← htaken.2]
        split
        · next hfits =>
          rw [pick, htaken.2, if_neg fun h => htake ⟨hfits, h⟩, ← htaken.2]
          exact ih hb' hnext
        · exact ih hb' hnext

open SimpleMemoryArena in
/-- The offset of a placed request: behind the live allocations if no gap fits, otherwise in the gap
that the search ends with. -/
theorem place_pick (hsize : 0 < req.size.toNat) {arena : SimpleMemoryArena}
    {offset required : UInt64} (h : arena.place req = .ok (offset, required)) :
    (fittingGaps req arena.activeAllocs 0 = [] ∧
      offset.toNat = alignUp req.alignment.toNat (liveEnd req arena.activeAllocs 0)) ∨
    ∃ g gaps k, fittingGaps req arena.activeAllocs 0 = g :: gaps ∧
      k ∈ pick (Gap.usable req) Gap.space gaps (some g) g.space ∧
      offset.toNat = k.place req := by
  unfold place at h
  cases hscan : BestFit.scan req arena.activeAllocs ⟨kOffsetNotAssigned, kOffsetNotAssigned, 0⟩ with
  | error fault =>
    rw [hscan] at h
    cases h
  | ok best =>
    obtain ⟨hpick, hcur⟩ := @scan_pick req _ hsize _ _ none ⟨rfl, rfl⟩ hscan
    change best.currentOffset.toNat = liveEnd req arena.activeAllocs 0 at hcur
    change Represents req best (pick (Gap.usable req) Gap.space
      (fittingGaps req arena.activeAllocs 0) none kOffsetNotAssigned.toNat) at hpick
    rw [hscan, ok_bind] at h
    -- what the end of the search says of the offset
    have hend : best.bestOffset = kOffsetNotAssigned →
        offset.toNat = alignUp req.alignment.toNat (liveEnd req arena.activeAllocs 0) ∧
          offset.toNat + req.size.toNat < 2 ^ 64 := by
      intro hassigned
      rw [if_pos hassigned] at h
      cases haligned : checkedAlignTo req.alignment best.currentOffset with
      | error fault =>
        rw [haligned] at h
        cases h
      | ok aligned =>
        rw [haligned, ok_bind] at h
        obtain ⟨rfl, hrequired⟩ := required_eq_ok h
        have hlt := required.toNat_lt
        exact ⟨(checkedAlignTo_eq_alignUp haligned).trans (by rw [hcur]), by omega⟩
    cases hgaps : fittingGaps req arena.activeAllocs 0 with
    | nil =>
      rw [hgaps] at hpick
      exact .inl ⟨rfl, (hend hpick.1).1⟩
    | cons g gaps =>
      right
      rw [hgaps, pick] at hpick
      have hmem : g ∈ fittingGaps req arena.activeAllocs 0 := by
        rw [hgaps]
        exact List.mem_cons_self
      have hpair := @fittingGaps_pairwise req arena.activeAllocs 0
      rw [hgaps] at hpair
      split at hpick
      · obtain ⟨k, hk⟩ := @exists_pick Gap (Gap.usable req) Gap.space gaps g g.space
        rw [hk] at hpick
        refine ⟨g, gaps, k, rfl, hk, ?_⟩
        have hassigned : best.bestOffset ≠ kOffsetNotAssigned := by
          intro heq
          obtain ⟨hplace, -, hfits, hstop⟩ := hpick
          rw [heq, show kOffsetNotAssigned.toNat = 18446744073709551615 from toNat_sizeMax]
            at hplace
          unfold Gap.Fits at hfits
          omega
        rw [if_neg hassigned, ok_bind] at h
        obtain ⟨rfl, -⟩ := required_eq_ok h
        exact hpick.1
      · next hwide =>
        -- a gap of all addresses is the only one, and leaves no room behind it
        exfalso
        obtain ⟨-, hstop, hlt⟩ := liveGaps_bounds (mem_fittingGaps.1 hmem).1
        rw [show kOffsetNotAssigned.toNat = 18446744073709551615 from toNat_sizeMax] at hwide
        unfold Gap.usable at hwide
        have hnil : gaps = [] := by
          refine List.eq_nil_iff_forall_not_mem.2 fun g' hg' => ?_
          have hstart := (List.pairwise_cons.1 hpair).1 g' hg'
          have hmem' : g' ∈ fittingGaps req arena.activeAllocs 0 := by
            rw [hgaps]
            exact List.mem_cons_of_mem _ hg'
          obtain ⟨-, -, hlt'⟩ := liveGaps_bounds (mem_fittingGaps.1 hmem').1
          have hfits' : g'.place req + req.size.toNat ≤ g'.stop := (mem_fittingGaps.1 hmem').2
          have hle := @Gap.start_le_place req g'
          omega
        rw [hnil] at hpick
        obtain ⟨hoffset, hroom⟩ := hend hpick.1
        have hle := le_alignUp req.alignment.toNat (liveEnd req arena.activeAllocs 0)
        omega

theorem place_bestFitting_iff (hsize : 0 < req.size.toNat) {arena : SimpleMemoryArena}
    {offset required : UInt64} (h : arena.place req = .ok (offset, required)) :
    BestFitting req arena.activeAllocs offset.toNat ↔ fittingGaps req arena.activeAllocs 0 = [] ∨
        Tight (Gap.usable req) Gap.space (fittingGaps req arena.activeAllocs 0) := by
  unfold BestFitting
  obtain ⟨hnone, hoffset⟩ | ⟨g, gaps, k, hgaps, hk, hoffset⟩ := place_pick hsize h
  · exact iff_of_true (.inl ⟨hnone, hoffset⟩) (.inl hnone)
  · have hsome : fittingGaps req arena.activeAllocs 0 ≠ [] := by
      rw [hgaps]
      exact List.cons_ne_nil g gaps
    have hmem : k ∈ fittingGaps req arena.activeAllocs 0 := hgaps ▸ pick_mem hk
    have hleast := pick_least_iff (fun g => @Gap.usable_le_space req g) hk
    rw [← hgaps] at hleast
    rw [or_iff_right hsome, or_iff_right fun h' => hsome h'.1, ← hleast]
    constructor
    · rintro ⟨k', hk', hplace, hall⟩
      rw [eq_of_place_eq hsize hmem hk' (hoffset.symm.trans hplace)]
      exact hall
    · exact fun hall => ⟨k, hmem, hoffset, hall⟩

/-- An allocation that takes place is a best fit if no gap fits, or if one of least usable space has
no more space with its padding than any fitting gap behind it can be used for. -/
theorem allocate_bestFitting_iff {arena : SimpleMemoryArena} {newAlloc : ArenaAllocWithUsageInterval}
    (h : (arena.allocate req newAlloc).status = .ok ()) :
    (req.size = 0 ∨ BestFitting req arena.activeAllocs
      (arena.allocate req newAlloc).newAlloc.offset.toNat) ↔
    req.size = 0 ∨ fittingGaps req arena.activeAllocs 0 = [] ∨
      Tight (Gap.usable req) Gap.space (fittingGaps req arena.activeAllocs 0) := by
  by_cases hsize : req.size = 0
  · exact iff_of_true (.inl hsize) (.inl hsize)
  · rw [or_iff_right hsize, or_iff_right hsize]
    unfold SimpleMemoryArena.allocate at h ⊢
    split at h
    · cases h
    · next hensure =>
      rw [if_neg hensure]
      dsimp only at h ⊢
      rw [if_neg hsize]
      cases hplace : arena.place req with
      | error fault =>
        rw [hplace] at h
        cases h
      | ok placed => exact place_bestFitting_iff (pos_of_ne_zero hsize) hplace

end

/-- Four allocations, the second and the third of which leave padding behind them; the third lives
at node 0 only. -/
def paddedArena : SimpleMemoryArena :=
  [(⟨1, 1, 0, 0, 9⟩ : AllocRequest), ⟨32, 16, 1, 0, 9⟩, ⟨4, 29, 2, 0, 0⟩, ⟨1, 40, 3, 0, 9⟩].foldl
    (fun arena req => (arena.allocate req .unused).arena) (.new 64)

theorem allocate_bestFitting_iff_first :
    ((⟨16, 40, 4, 5, 6⟩ : AllocRequest).size = 0 ∨ BestFitting ⟨16, 40, 4, 5, 6⟩
      paddedArena.activeAllocs
      (paddedArena.allocate ⟨16, 40, 4, 5, 6⟩ .unused).newAlloc.offset.toNat) ↔
    (⟨16, 40, 4, 5, 6⟩ : AllocRequest).size = 0 ∨
      fittingGaps ⟨16, 40, 4, 5, 6⟩ paddedArena.activeAllocs 0 = [] ∨
      Tight (Gap.usable ⟨16, 40, 4, 5, 6⟩) Gap.space
        (fittingGaps ⟨16, 40, 4, 5, 6⟩ paddedArena.activeAllocs 0) :=
  allocate_bestFitting_iff (by decide +kernel)

/-- Eight bytes go to offset 48, into 29 bytes, although the 16 usable bytes at offset 16 fit. -/
theorem allocate_not_bestFitting :
    fittingGaps ⟨16, 8, 4, 5, 6⟩ paddedArena.activeAllocs 0 = [⟨1, 32⟩, ⟨48, 77⟩] ∧
      (paddedArena.allocate ⟨16, 8, 4, 5, 6⟩ .unused).newAlloc.offset = 48 ∧
      ¬ BestFitting ⟨16, 8, 4, 5, 6⟩ paddedArena.activeAllocs
        (paddedArena.allocate ⟨16, 8, 4, 5, 6⟩ .unused).newAlloc.offset.toNat := by
  have hgaps : fittingGaps ⟨16, 8, 4, 5, 6⟩ paddedArena.activeAllocs 0 = [⟨1, 32⟩, ⟨48, 77⟩] := by
    decide +kernel
  have hoffset : (paddedArena.allocate ⟨16, 8, 4, 5, 6⟩ .unused).newAlloc.offset = 48 := by
    decide +kernel
  refine ⟨hgaps, hoffset, ?_⟩
  unfold BestFitting
  rw [hgaps, hoffset]
  rintro (⟨hnil, -⟩ | ⟨g, hg, hplace, hall⟩)
  · cases hnil
  · have hfirst := hall ⟨1, 32⟩ List.mem_cons_self
    simp only [List.mem_cons, List.not_mem_nil, or_false] at hg
    rcases hg with rfl | rfl
    · exact absurd hplace (by decide)
    · exact absurd hfirst (by decide)

end LiteRt.Tflite
