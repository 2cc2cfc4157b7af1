import LiteRt.Remat.FindBestRemat

/-!
# What FindBestRemat finds

The search over one length finds the best block of that length, whatever it leaves out. The
search over lengths ends with the first one that has a block to offer, and where no savings
are asked for, with the first one.
-/

namespace LiteRt.Remat

open LiteRt.Lib Rematerializer List

section
variable {s : Rematerializer} {minSavings : Int} {len : Nat}

/-- Operations without state up to the peak, and the place behind it where their outputs are
needed first. -/
structure Block (s : Rematerializer) (len : Nat) (remat : RematSpec) : Prop where
  stop : remat.stop = remat.begin + len
  before : remat.stop ≤ (s.getPeakMemory {}).opIndex
  stateless : ∀ o, remat.begin ≤ o → o < remat.stop →
    (s.operations.getD o default).isStateful = false
  insert : remat.insert = s.findBestRematPoint remat.begin remat.stop (s.getPeakMemory {}).opIndex
  possible : remat.insert ≠ s.operations.length

/-- A block that lowers the peak, and by as much as is asked for. -/
structure Improves (s : Rematerializer) (minSavings : Int) (len : Nat) (remat : RematSpec) :
    Prop extends Block s len remat where
  lowers : 0 < savings s remat
  saves : minSavings ≤ savings s remat

theorem findBestRematPoint_bounds (s : Rematerializer) (begin stop peakLoc : Nat) :
    s.findBestRematPoint begin stop peakLoc = s.operations.length ∨
      peakLoc < s.findBestRematPoint begin stop peakLoc ∧
        s.findBestRematPoint begin stop peakLoc < s.operations.length := by
  unfold Rematerializer.findBestRematPoint
  refine foldl_invariant (P := fun _ best => best = s.operations.length ∨
    peakLoc < best ∧ best < s.operations.length) (.inl rfl) fun _ o _ best _ hbest => ?_
  refine foldl_invariant (P := fun _ best => best = s.operations.length ∨
    peakLoc < best ∧ best < s.operations.length) hbest fun _ t _ best _ hbest => ?_
  dsimp only
  split
  · cases hfind : (s.tensors.getD t default).operations.find? fun ioperation =>
        decide (peakLoc < ioperation) && decide (ioperation < best) with
    | none => exact hbest
    | some ioperation =>
      have hin := find?_some hfind
      simp only [Bool.and_eq_true, decide_eq_true_eq] at hin
      exact .inr ⟨hin.1, by
        show ioperation < s.operations.length
        omega⟩
  · exact hbest

theorem Block.bounds {remat : RematSpec} (h : Block s len remat) :
    (s.getPeakMemory {}).opIndex < remat.insert ∧ remat.insert < s.operations.length := by
  have hpoint := findBestRematPoint_bounds s remat.begin remat.stop (s.getPeakMemory {}).opIndex
  rw [← h.insert] at hpoint
  exact hpoint.resolve_left h.possible

theorem Block.begin_le_stop {remat : RematSpec} (h : Block s len remat) :
    remat.begin ≤ remat.stop := by
  rw [h.stop]
  exact Nat.le_add_right _ _

theorem Block.valid {remat : RematSpec} (h : Block s len remat) :
    remat.Valid s.operations.length :=
  ⟨h.begin_le_stop, h.before.trans h.bounds.1.le, h.bounds.2.le⟩

theorem Block.len_eq {remat : RematSpec} (h : Block s len remat) : remat.len = len := by
  rw [RematSpec.len, h.stop, Nat.add_sub_cancel_left]

theorem Block.savings_le {remat : RematSpec} (hblock : Block s len remat) (h : s.Valid)
    (hsize : ∀ t, 0 ≤ sizeAt s t) : savings s remat ≤
      s.maxSavings remat.begin remat.stop (s.getPeakMemory {}).opIndex :=
  savings_le_maxSavings h hsize hblock.begin_le_stop hblock.before hblock.bounds.1
    hblock.bounds.2.le

/-! ## Blocks of one length -/

theorem any_isStateful {begin : Nat} :
    (!((s.operations.drop begin).take len).any Operation.isStateful) = true ↔
      ∀ o, begin ≤ o → o < begin + len → (s.operations.getD o default).isStateful = false := by
  have hget (o : Nat) (ho : o < s.operations.length) :
      s.operations.getD o default = s.operations[o] := by
    rw [getD_eq_getElem?_getD, getElem?_eq_getElem ho, Option.getD_some]
  rw [Bool.not_eq_true', any_eq_false]
  constructor
  · intro hall o hle hlt
    by_cases ho : o < s.operations.length
    · have hin : s.operations[o] ∈ (s.operations.drop begin).take len := by
        refine mem_iff_getElem?.mpr ⟨o - begin, ?_⟩
        rw [getElem?_take_of_lt (by omega), getElem?_drop, Nat.add_sub_cancel' hle]
        exact getElem?_eq_getElem ho
      rw [hget o ho]
      exact Bool.eq_false_of_not_eq_true (hall _ hin)
    · rw [getD_eq_getElem?_getD, getElem?_eq_none (not_lt.mp ho)]
      rfl
  · intro hall operation hin
    obtain ⟨k, hk⟩ := mem_iff_getElem?.mp hin
    have hlen : k < len := by
      by_contra hge
      rw [getElem?_eq_none (by rw [length_take]; omega)] at hk
      cases hk
    rw [getElem?_take_of_lt hlen, getElem?_drop] at hk
    obtain ⟨ho, rfl⟩ := List.getElem?_eq_some_iff.mp hk
    have hstateless := hall (begin + k) (Nat.le_add_right _ _) (by omega)
    rw [hget _ ho] at hstateless
    exact Bool.not_eq_true _ ▸ hstateless

theorem mem_preScreen {peakLoc : Nat} {block : Int × Nat × Nat} :
    block ∈ s.preScreen minSavings peakLoc len ↔
      (block.2.2 ≤ peakLoc ∧ block.2.2 = block.2.1 + len ∧
        (∀ o, block.2.1 ≤ o → o < block.2.2 → (s.operations.getD o default).isStateful = false)) ∧
        block.1 = s.maxSavings block.2.1 block.2.2 peakLoc ∧ minSavings ≤ block.1 := by
  obtain ⟨bound, begin, stop⟩ := block
  unfold Rematerializer.preScreen
  rw [mem_filter, decide_eq_true_eq, mem_map]
  constructor
  · rintro ⟨⟨b, hb, heq⟩, hle⟩
    obtain ⟨hrange, hstateless⟩ := mem_filter.mp hb
    rw [mem_range] at hrange
    cases heq
    exact ⟨⟨by dsimp only; omega, rfl, any_isStateful.mp hstateless⟩, rfl, hle⟩
  · rintro ⟨⟨hstop, heq, hstateless⟩, hbound, hle⟩
    dsimp only at hstop heq hstateless hbound hle
    subst heq hbound
    exact ⟨⟨begin, mem_filter.mpr ⟨mem_range.mpr (by omega),
      any_isStateful.mpr hstateless⟩, rfl⟩, hle⟩

/-- The block as it is re-inserted. -/
def specOf (s : Rematerializer) (block : Int × Nat × Nat) : RematSpec :=
  ⟨block.2.1, block.2.2, s.findBestRematPoint block.2.1 block.2.2 (s.getPeakMemory {}).opIndex⟩

theorem block_specOf {block : Int × Nat × Nat}
    (hin : block ∈ s.preScreen minSavings (s.getPeakMemory {}).opIndex len)
    (hpossible : (specOf s block).insert ≠ s.operations.length) :
    Block s len (specOf s block) := by
  obtain ⟨⟨hbefore, hstop, hstateless⟩, -⟩ := mem_preScreen.mp hin
  exact ⟨hstop, hbefore, hstateless, rfl, hpossible⟩

/-- Where the search starts, and what it has found. -/
def Known (s : Rematerializer) (minSavings : Int) (len : Nat) (best : Int × RematSpec) : Prop :=
  best = ((s.getPeakMemory {}).size, {}) ∨
    Improves s minSavings len best.2 ∧ best.1 = (s.getPeakMemory best.2).size

theorem Known.le_peak {best : Int × RematSpec} (h : Known s minSavings len best) :
    best.1 ≤ (s.getPeakMemory {}).size := by
  obtain rfl | ⟨himproves, heq⟩ := h
  · exact le_refl _
  · have := himproves.lowers
    unfold savings at this
    omega

def better (s : Rematerializer) (minSavings : Int) (best : Int × RematSpec) (remat : RematSpec) :
    Int × RematSpec :=
  if (s.getPeakMemory remat).size < best.1 ∧
      (s.getPeakMemory remat).size + minSavings ≤ (s.getPeakMemory {}).size then
    ((s.getPeakMemory remat).size, remat)
  else best

theorem tryBlock_impossible {best : Int × RematSpec} {block : Int × Nat × Nat}
    (h : (specOf s block).insert = s.operations.length) :
    s.tryBlock minSavings (s.getPeakMemory {}) best block = (best, false) := if_pos h

theorem tryBlock_possible {best : Int × RematSpec} {block : Int × Nat × Nat}
    (h : (specOf s block).insert ≠ s.operations.length) :
    s.tryBlock minSavings (s.getPeakMemory {}) best block =
      (better s minSavings best (specOf s block),
        decide (block.1 + (better s minSavings best (specOf s block)).1 ≤
          (s.getPeakMemory {}).size)) := if_neg h

theorem Known.better {best : Int × RematSpec} (h : Known s minSavings len best)
    {remat : RematSpec} (hblock : Block s len remat) :
    Known s minSavings len (better s minSavings best remat) := by
  have hle := h.le_peak
  unfold Remat.better
  split
  · next hless =>
    refine .inr ⟨⟨hblock, ?_, ?_⟩, rfl⟩
    · show 0 < (s.getPeakMemory {}).size - (s.getPeakMemory remat).size
      omega
    · show minSavings ≤ (s.getPeakMemory {}).size - (s.getPeakMemory remat).size
      omega
  · exact h

theorem better_le (best : Int × RematSpec) (remat : RematSpec) :
    (better s minSavings best remat).1 ≤ best.1 ∧ (minSavings ≤ savings s remat →
      (better s minSavings best remat).1 ≤ (s.getPeakMemory remat).size) := by
  unfold better savings
  split
  · next hless => exact ⟨hless.1.le, fun _ => le_refl _⟩
  · next hless => exact ⟨le_refl _, fun hsaves => not_lt.mp fun hlt => hless ⟨hlt, by omega⟩⟩

theorem pairwise_sortBlocks (blocks : List (Int × Nat × Nat)) :
    (sortBlocks blocks).reverse.Pairwise fun a b => b.1 ≤ a.1 := by
  have hsorted := pairwise_mergeSort_decide (r := fun a b : Int × Nat × Nat =>
    a.1 < b.1 ∨ a.1 = b.1 ∧ (a.2.1 < b.2.1 ∨ a.2.1 = b.2.1 ∧ a.2.2 ≤ b.2.2))
    (by omega) (by omega) blocks
  exact pairwise_reverse.mpr (hsorted.imp (by omega))

/-- As good as the blocks of a list, as far as they may be re-inserted and save enough. -/
def AsGood (s : Rematerializer) (minSavings : Int) (blocks : List (Int × Nat × Nat))
    (size : Int) : Prop :=
  ∀ block ∈ blocks, (specOf s block).insert ≠ s.operations.length →
    minSavings ≤ savings s (specOf s block) → size ≤ (s.getPeakMemory (specOf s block)).size

theorem AsGood.tryBlock {done : List (Int × Nat × Nat)} {best : Int × RematSpec}
    (h : AsGood s minSavings done best.1) (block : Int × Nat × Nat) :
    AsGood s minSavings (done ++ [block])
      (s.tryBlock minSavings (s.getPeakMemory {}) best block).1.1 := by
  intro block' hin hpossible' hsaves'
  by_cases hpossible : (specOf s block).insert = s.operations.length
  · rw [tryBlock_impossible hpossible]
    obtain hin | hin := mem_append.mp hin
    · exact h block' hin hpossible' hsaves'
    · rw [mem_singleton] at hin
      exact absurd (hin ▸ hpossible) hpossible'
  · rw [tryBlock_possible hpossible]
    have hless := @better_le s minSavings best (specOf s block)
    obtain hin | hin := mem_append.mp hin
    · exact hless.1.trans (h block' hin hpossible' hsaves')
    · rw [mem_singleton] at hin
      exact hin ▸ hless.2 (hin ▸ hsaves')

theorem Known.tryBlock {best : Int × RematSpec} (h : Known s minSavings len best)
    {block : Int × Nat × Nat}
    (hin : block ∈ s.preScreen minSavings (s.getPeakMemory {}).opIndex len) :
    Known s minSavings len (s.tryBlock minSavings (s.getPeakMemory {}) best block).1 := by
  by_cases hpossible : (specOf s block).insert = s.operations.length
  · rw [tryBlock_impossible hpossible]
    exact h
  · rw [tryBlock_possible hpossible]
    exact h.better (block_specOf hin hpossible)

/-- The blocks that a break leaves out promise no more than what is saved. -/
theorem AsGood.break (h : s.Valid) (hsize : ∀ t, 0 ≤ sizeAt s t)
    {best : Int × RematSpec} {block block' : Int × Nat × Nat}
    (hin' : block' ∈ s.preScreen minSavings (s.getPeakMemory {}).opIndex len)
    (hle : block'.1 ≤ block.1)
    (hbreak : (s.tryBlock minSavings (s.getPeakMemory {}) best block).2 = true)
    (hpossible' : (specOf s block').insert ≠ s.operations.length) :
    (s.tryBlock minSavings (s.getPeakMemory {}) best block).1.1 ≤
      (s.getPeakMemory (specOf s block')).size := by
  have hsavings := (block_specOf hin' hpossible').savings_le h hsize
  have hpromise := (mem_preScreen.mp hin').2.1
  by_cases hpossible : (specOf s block).insert = s.operations.length
  · rw [tryBlock_impossible hpossible] at hbreak
    cases hbreak
  · rw [tryBlock_possible hpossible] at hbreak ⊢
    have henough := of_decide_eq_true hbreak
    have hbound : savings s (specOf s block') ≤ block'.1 := hpromise ▸ hsavings
    unfold savings at hbound
    show (better s minSavings best (specOf s block)).1 ≤ _
    omega

/-- The search over the blocks of a length ends with one that is as good as any. -/
theorem tryLength_known (h : s.Valid) (hsize : ∀ t, 0 ≤ sizeAt s t) {best : Int × RematSpec}
    (hknown : Known s minSavings len best) :
    Known s minSavings len (s.tryLength minSavings (s.getPeakMemory {}) best len).1 ∧
      ∀ other, Block s len other → minSavings ≤ savings s other →
        (s.tryLength minSavings (s.getPeakMemory {}) best len).1.1 ≤
          (s.getPeakMemory other).size := by
  set blocks := (sortBlocks (s.preScreen minSavings (s.getPeakMemory {}).opIndex len)).reverse
    with hblocks
  have hmem {block : Int × Nat × Nat} : block ∈ blocks ↔
      block ∈ s.preScreen minSavings (s.getPeakMemory {}).opIndex len := by
    rw [hblocks, mem_reverse, sortBlocks, mem_mergeSort]
  have hall : Known s minSavings len (foldUntil (s.tryBlock minSavings (s.getPeakMemory {}))
      blocks best) ∧ AsGood s minSavings blocks
        (foldUntil (s.tryBlock minSavings (s.getPeakMemory {})) blocks best).1 := by
    obtain hend | ⟨done, block, rest, best', hsplit, ⟨hknown', hgood⟩, hbreak, heq⟩ :=
      @foldUntil_invariant _ _
        (fun done best => Known s minSavings len best ∧ AsGood s minSavings done best.1)
        blocks best (s.tryBlock minSavings (s.getPeakMemory {}))
        ⟨hknown, fun block hin => by cases hin⟩
        fun done block rest best' hsplit hbest _ =>
          ⟨hbest.1.tryBlock (hmem.mp (hsplit ▸ by simp)), hbest.2.tryBlock block⟩
    · exact hend
    · rw [heq]
      refine ⟨hknown'.tryBlock (hmem.mp (hsplit ▸ by simp)),
        fun block' hin' hpossible' hsaves' => ?_⟩
      have hin := hin'
      rw [hsplit, ← singleton_append, ← append_assoc] at hin
      obtain hdone | hrest := mem_append.mp hin
      · exact hgood.tryBlock block block' hdone hpossible' hsaves'
      · have hsorted := pairwise_sortBlocks
          (s.preScreen minSavings (s.getPeakMemory {}).opIndex len)
        rw [← hblocks, hsplit] at hsorted
        have hle := (pairwise_cons.mp (pairwise_append.mp hsorted).2.1).1 block' hrest
        exact AsGood.break h hsize (hmem.mp hin') hle hbreak hpossible'
  refine ⟨hall.1, fun other hother hsaves => ?_⟩
  have hspec : specOf s (s.maxSavings other.begin other.stop (s.getPeakMemory {}).opIndex,
      other.begin, other.stop) = other := by
    unfold specOf
    rw [← hother.insert]
  have hin : (s.maxSavings other.begin other.stop (s.getPeakMemory {}).opIndex,
      other.begin, other.stop) ∈ blocks :=
    hmem.mpr (mem_preScreen.mpr ⟨⟨hother.before, hother.stop, hother.stateless⟩, rfl,
      hsaves.trans (hother.savings_le h hsize)⟩)
  have hle := hall.2 _ hin
  rw [hspec] at hle
  exact hle hother.possible hsaves

/-! ## Lengths -/

/-- The best block of a length, and the peak with it. -/
structure Found (s : Rematerializer) (minSavings : Int) (len : Nat) (best : Int × RematSpec) :
    Prop where
  improves : Improves s minSavings len best.2
  size : best.1 = (s.getPeakMemory best.2).size
  best : ∀ other, Block s len other → minSavings ≤ savings s other →
    savings s other ≤ savings s best.2

theorem tryLength_cases (h : s.Valid) (hsize : ∀ t, 0 ≤ sizeAt s t) :
    (s.tryLength minSavings (s.getPeakMemory {}) ((s.getPeakMemory {}).size, {}) len).1 =
        ((s.getPeakMemory {}).size, {}) ∧ (∀ remat, ¬ Improves s minSavings len remat) ∨
      Found s minSavings len
        (s.tryLength minSavings (s.getPeakMemory {}) ((s.getPeakMemory {}).size, {}) len).1 := by
  obtain ⟨hknown, hgood⟩ := @tryLength_known s minSavings len h hsize
    ((s.getPeakMemory {}).size, {}) (.inl rfl)
  obtain heq | ⟨himproves, heq⟩ := hknown
  · refine .inl ⟨heq, fun remat himproves => ?_⟩
    have hle := hgood remat himproves.toBlock himproves.saves
    have hlowers := himproves.lowers
    rw [heq] at hle
    unfold savings at hlowers
    dsimp only at hle
    omega
  · refine .inr ⟨himproves, heq, fun other hother hsaves => ?_⟩
    have hle := hgood other hother hsaves
    unfold savings
    omega

/-- The search ends with the first length that has a block to offer. Where no savings are asked
for, it ends with the first length. -/
theorem findBestRemat_cases (h : s.Valid) (hsize : ∀ t, 0 ≤ sizeAt s t)
    (hmin : 0 ≤ minSavings) (beginLen endLen : Nat) :
    (s.findBestRemat minSavings beginLen endLen = ((s.getPeakMemory {}).size, {}) ∧
      ∀ len, beginLen ≤ len → len < endLen → (minSavings = 0 → len = beginLen) →
        ∀ remat, ¬ Improves s minSavings len remat) ∨
      ∃ len, (beginLen ≤ len ∧ len < endLen) ∧ (minSavings = 0 → len = beginLen) ∧
        Found s minSavings len (s.findBestRemat minSavings beginLen endLen) ∧
        ∀ len', beginLen ≤ len' → len' < len → ∀ remat, ¬ Improves s minSavings len' remat := by
  have hmem {len : Nat} : len ∈ List.range' beginLen (endLen - beginLen) ↔
      beginLen ≤ len ∧ len < endLen := by
    rw [mem_range'_1]
    omega
  have hstep (done : List Nat) (len : Nat) (rest : List Nat) (best : Int × RematSpec)
      (_ : List.range' beginLen (endLen - beginLen) = done ++ len :: rest)
      (hbest : best = ((s.getPeakMemory {}).size, {}) ∧ (done ≠ [] → minSavings ≠ 0) ∧
        ∀ len ∈ done, ∀ remat, ¬ Improves s minSavings len remat)
      (hgo : (s.tryLength minSavings (s.getPeakMemory {}) best len).2 = false) :
      (s.tryLength minSavings (s.getPeakMemory {}) best len).1 =
          ((s.getPeakMemory {}).size, {}) ∧ (done ++ [len] ≠ [] → minSavings ≠ 0) ∧
        ∀ len' ∈ done ++ [len], ∀ remat, ¬ Improves s minSavings len' remat := by
    obtain ⟨rfl, -, hnone⟩ := hbest
    have hless : ¬ minSavings +
        (s.tryLength minSavings (s.getPeakMemory {}) ((s.getPeakMemory {}).size, {}) len).1.1 ≤
          (s.getPeakMemory {}).size := of_decide_eq_false hgo
    obtain ⟨heq, hlen⟩ | hfound := @tryLength_cases s minSavings len h hsize
    · refine ⟨heq, fun _ hzero => hless ?_, fun len' hin => ?_⟩
      · rw [heq, hzero, zero_add]
      · obtain hin | hin := mem_append.mp hin
        · exact hnone len' hin
        · rw [mem_singleton] at hin
          exact hin ▸ hlen
    · refine absurd ?_ hless
      have hsaves := hfound.improves.saves
      rw [hfound.size]
      unfold savings at hsaves
      omega
  obtain ⟨heq, hzero, hnone⟩ | ⟨done, len, rest, best, hsplit, ⟨rfl, hzero, hnone⟩, hbreak, heq⟩ :=
    foldUntil_invariant ⟨rfl, fun hne => absurd rfl hne, fun len hin => by cases hin⟩ hstep
  · exact .inl ⟨heq, fun len hle hlt _ => hnone len (hmem.mpr ⟨hle, hlt⟩)⟩
  · have hin : beginLen ≤ len ∧ len < endLen := hmem.mp (hsplit ▸ by simp)
    -- the lengths in front of this one
    have hbefore (len' : Nat) (hle : beginLen ≤ len') (hlt : len' < len) : len' ∈ done := by
      have hin' := hmem.mpr ⟨hle, hlt.trans hin.2⟩
      rw [hsplit] at hin'
      refine (mem_append.mp hin').resolve_right fun hin' => ?_
      have hsorted := @pairwise_lt_range' beginLen (endLen - beginLen) 1 Nat.one_pos
      rw [hsplit] at hsorted
      have hrest := (pairwise_cons.mp (pairwise_append.mp hsorted).2.1).1
      obtain rfl | hin' := mem_cons.mp hin'
      · exact absurd hlt (lt_irrefl _)
      · exact absurd (hrest len' hin') (not_lt.mpr hlt.le)
    have hfirst (hm : minSavings = 0) : len = beginLen := by
      by_contra hne
      have hdone := hbefore beginLen (le_refl _) (lt_of_le_of_ne hin.1 (Ne.symm hne))
      exact hzero (ne_nil_of_mem hdone) hm
    rw [findBestRemat, heq]
    have henough : minSavings +
        (s.tryLength minSavings (s.getPeakMemory {}) ((s.getPeakMemory {}).size, {}) len).1.1 ≤
          (s.getPeakMemory {}).size := of_decide_eq_true hbreak
    obtain ⟨hstart, hlen⟩ | hfound := @tryLength_cases s minSavings len h hsize
    · refine .inl ⟨hstart, fun len' _ _ hlen' => ?_⟩
      have hm : minSavings = 0 := by
        rw [hstart] at henough
        dsimp only at henough
        omega
      rw [hlen' hm, ← hfirst hm]
      exact hlen
    · exact .inr ⟨len, hin, hfirst, hfound, fun len' hle hlt => hnone len' (hbefore len' hle hlt)⟩

/-! ## The best block of all -/

/-- A block of a length in the range that saves as much as is asked for. -/
structure Qualifies (s : Rematerializer) (minSavings : Int) (beginLen endLen : Nat)
    (remat : RematSpec) : Prop where
  block : Block s remat.len remat
  length : beginLen ≤ remat.len ∧ remat.len < endLen
  saves : minSavings ≤ savings s remat

/-- The best spec there is, a shorter block before a longer one; the trivial one if there is
none. -/
def IsBest (s : Rematerializer) (minSavings : Int) (beginLen endLen : Nat) (remat : RematSpec) :
    Prop :=
  remat = {} ∧ (∀ other, ¬ Qualifies s minSavings beginLen endLen other) ∨
    Qualifies s minSavings beginLen endLen remat ∧
      ∀ other, Qualifies s minSavings beginLen endLen other → savings s other ≤ savings s remat ∧
          (savings s other = savings s remat → remat.len ≤ other.len)

/-- One of the shortest blocks there are lowers the peak by the most; where no savings are asked
for, it has the first length. -/
def ShortestIsBest (s : Rematerializer) (minSavings : Int) (beginLen endLen : Nat)
    (remat : RematSpec) : Prop :=
  Qualifies s minSavings beginLen endLen remat ∧ 0 < savings s remat ∧
    (minSavings = 0 → remat.len = beginLen) ∧
    ∀ other, Qualifies s minSavings beginLen endLen other →
      savings s other ≤ savings s remat ∧ remat.len ≤ other.len

theorem Found.qualifies {beginLen endLen : Nat} {best : Int × RematSpec}
    (h : Found s minSavings len best) (hlen : beginLen ≤ len ∧ len < endLen) :
    Qualifies s minSavings beginLen endLen best.2 := by
  have heq := h.improves.toBlock.len_eq
  refine ⟨?_, heq.symm ▸ hlen, h.improves.saves⟩
  rw [heq]
  exact h.improves.toBlock

theorem Qualifies.improves {beginLen endLen : Nat} {remat : RematSpec}
    (h : Qualifies s minSavings beginLen endLen remat) (hlowers : 0 < savings s remat) :
    Improves s minSavings remat.len remat := ⟨h.block, hlowers, h.saves⟩

theorem not_qualifies_trivial {beginLen endLen : Nat} :
    ¬ Qualifies s minSavings beginLen endLen {} := fun h =>
  absurd h.block.bounds.1 (Nat.not_lt_zero _)

theorem shortestIsBest_of_isBest (h : s.Valid) (hsize : ∀ t, 0 ≤ sizeAt s t)
    (hmin : 0 ≤ minSavings) {beginLen endLen : Nat}
    (hbest : IsBest s minSavings beginLen endLen (s.findBestRemat minSavings beginLen endLen).2) :
    (∀ remat, ¬ Qualifies s minSavings beginLen endLen remat) ∨
      ∃ remat, ShortestIsBest s minSavings beginLen endLen remat := by
  obtain ⟨_, hnone⟩ | ⟨hqualifies, hbest⟩ := hbest
  · exact .inl hnone
  obtain ⟨heq, _⟩ | ⟨len, hlen, hfirst, hfound, hshorter⟩ :=
    findBestRemat_cases h hsize hmin beginLen endLen
  · rw [heq] at hqualifies
    exact absurd hqualifies not_qualifies_trivial
  · have hlength := hfound.improves.toBlock.len_eq
    refine .inr ⟨_, hqualifies, hfound.improves.lowers, fun hm => hlength.trans (hfirst hm),
      fun other hother => ⟨(hbest other hother).1, ?_⟩⟩
    rw [hlength]
    by_contra hlt
    rw [not_le] at hlt
    have hnot := hshorter other.len hother.length.1 hlt other
    by_cases hlowers : 0 < savings s other
    · exact hnot (hother.improves hlowers)
    · have hsaves := hother.saves
      have hm := hfirst (by omega)
      have := hother.length.1
      omega

theorem isBest_of_shortestIsBest (h : s.Valid) (hsize : ∀ t, 0 ≤ sizeAt s t)
    (hmin : 0 ≤ minSavings) {beginLen endLen : Nat}
    (hshortest : (∀ remat, ¬ Qualifies s minSavings beginLen endLen remat) ∨
      ∃ remat, ShortestIsBest s minSavings beginLen endLen remat) :
    IsBest s minSavings beginLen endLen (s.findBestRemat minSavings beginLen endLen).2 := by
  obtain ⟨heq, hvisited⟩ | ⟨len, hlen, hfirst, hfound, hshorter⟩ :=
    findBestRemat_cases h hsize hmin beginLen endLen
  · refine .inl ⟨by rw [heq], ?_⟩
    obtain hnone | ⟨remat, hqualifies, hlowers, hfirst, _⟩ := hshortest
    · exact hnone
    · exact absurd (hqualifies.improves hlowers)
        (hvisited remat.len hqualifies.length.1 hqualifies.length.2 hfirst remat)
  · have hqualifies' := hfound.qualifies hlen
    obtain hnone | ⟨remat, hqualifies, hlowers, _, hall⟩ := hshortest
    · exact absurd hqualifies' (hnone _)
    have hlength := hfound.improves.toBlock.len_eq
    have hle : remat.len ≤ len := hlength ▸ (hall _ hqualifies').2
    have hge : len ≤ remat.len := by
      by_contra hlt
      exact hshorter remat.len hqualifies.length.1 (not_le.mp hlt) remat
        (hqualifies.improves hlowers)
    have hlen' : remat.len = len := le_antisymm hle hge
    have hsavings := hfound.best remat (hlen' ▸ hqualifies.block) hqualifies.saves
    refine .inr ⟨hqualifies', fun other hother =>
      ⟨(hall other hother).1.trans hsavings, fun _ => ?_⟩⟩
    rw [hlength, ← hlen']
    exact (hall other hother).2

theorem sizeAt_nonneg (hsize : ∀ tensor ∈ s.tensors, 0 ≤ tensor.size) (t : Nat) :
    0 ≤ sizeAt s t := by
  unfold sizeAt
  rw [getD_eq_getElem?_getD]
  cases ht : s.tensors[t]? with
  | none => exact le_refl 0
  | some tensor => exact hsize tensor (mem_of_getElem? ht)

end

/-- The first operation makes one tensor and the second another one from it; the fourth uses the
latter again, behind an operation that needs much memory. -/
def chained : Rematerializer where
  operations := [⟨false, [0], 4, 0⟩, ⟨false, [0, 1], 5, 4⟩, ⟨false, [2], 100, 100⟩,
    ⟨false, [1], 0, 5⟩]
  tensors := [⟨4, [0, 1]⟩, ⟨5, [1, 3]⟩, ⟨100, [2]⟩]

theorem run_chained : Run Edit.Allowed Edit.step {} [.addOperation false, .addOperation false,
    .addOperation false, .addOperation false, .addTensor 4, .addTensor 5, .addTensor 100,
    .addUse 0 0, .addUse 1 0, .addUse 1 1, .addUse 3 1, .addUse 2 2] chained :=
  .cons trivial rfl (.cons trivial rfl (.cons trivial rfl (.cons trivial rfl (.cons trivial rfl
    (.cons trivial rfl (.cons trivial rfl (.cons ⟨by decide, by decide⟩ rfl
      (.cons ⟨by decide, by decide⟩ rfl (.cons ⟨by decide, by decide⟩ rfl
        (.cons ⟨by decide, by decide⟩ rfl (.cons ⟨by decide, by decide⟩ rfl (.nil _))))))))))))

theorem valid_chained : chained.Valid := valid_of_run run_chained

theorem sizeAt_chained (t : Nat) : 0 ≤ sizeAt chained t :=
  sizeAt_nonneg (by decide) t

theorem peak_chained : chained.getPeakMemory {} = ⟨2, 105⟩ := by
  rw [getPeakMemory_eq valid_chained (Nat.zero_le _)]
  decide

/-- The second operation alone saves one byte. -/
theorem peak_short : chained.getPeakMemory ⟨1, 2, 3⟩ = ⟨2, 104⟩ := by
  rw [getPeakMemory_eq valid_chained (by decide)]
  decide

/-- Both operations save five bytes. -/
theorem peak_long : chained.getPeakMemory ⟨0, 2, 3⟩ = ⟨2, 100⟩ := by
  rw [getPeakMemory_eq valid_chained (by decide)]
  decide

theorem block_chained {begin len : Nat} (hstop : begin + len ≤ 2)
    (hpoint : chained.findBestRematPoint begin (begin + len) 2 = 3) :
    Block chained len ⟨begin, begin + len, 3⟩ where
  stop := rfl
  before := by
    rw [peak_chained]
    exact hstop
  stateless := by
    intro o _ ho
    have hall : ∀ o < 2, (chained.operations.getD o default).isStateful = false := by decide
    exact hall o (ho.trans_le hstop)
  insert := by
    rw [peak_chained]
    exact hpoint.symm
  possible := by
    show 3 ≠ 4
    decide

theorem qualifies_short {endLen : Nat} (hend : 1 < endLen) :
    Qualifies chained 1 1 endLen ⟨1, 2, 3⟩ := by
  refine ⟨@block_chained 1 1 (by decide) (by decide), ⟨by decide, hend⟩, ?_⟩
  rw [savings, peak_chained, peak_short]
  decide

/-- The output of the first operation is not needed behind the peak. -/
theorem eq_of_block_one {remat : RematSpec} (h : Block chained 1 remat) :
    remat = ⟨1, 2, 3⟩ := by
  obtain ⟨begin, stop, insert⟩ := remat
  have hstop : stop = begin + 1 := h.stop
  have hbefore : stop ≤ (chained.getPeakMemory {}).opIndex := h.before
  have hinsert : insert =
      chained.findBestRematPoint begin stop (chained.getPeakMemory {}).opIndex := h.insert
  rw [peak_chained] at hbefore hinsert
  dsimp only at hbefore hinsert
  subst hstop
  obtain rfl | rfl : begin = 0 ∨ begin = 1 := by omega
  · obtain rfl : insert = 4 := hinsert
    exact absurd rfl h.possible
  · obtain rfl : insert = 3 := hinsert
    rfl

theorem Qualifies.eq_short {endLen : Nat} {remat : RematSpec}
    (h : Qualifies chained 1 1 endLen remat) (hlen : remat.len ≤ 1) : remat = ⟨1, 2, 3⟩ := by
  have hone : remat.len = 1 := le_antisymm hlen h.length.1
  exact eq_of_block_one (hone ▸ h.block)

end LiteRt.Remat
