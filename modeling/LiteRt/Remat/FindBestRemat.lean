import LiteRt.Remat.Simulation
import Mathlib.Algebra.Order.BigOperators.Group.List
import Mathlib.Algebra.Order.Ring.Int

/-!
# Finding the best rematerialization

Blocks are tried length by length. Of one length, those whose outputs promise the largest
savings come first, and the loop over them ends when the promise is no larger than what was
saved already. The promise bounds the savings, so nothing better is lost there.
-/

namespace LiteRt.Remat

open LiteRt.Lib List

namespace Rematerializer

/-- The sizes of the outputs of a block that are alive after the peak. -/
def maxSavings (s : Rematerializer) (begin stop peakLoc : Nat) : Int :=
  (List.range' begin (stop - begin)).foldl (fun savings ioperation =>
    (s.operations.getD ioperation default).tensors.foldl (fun savings itensor =>
      let tensor := s.tensors.getD itensor default
      if tensor.firstUse = ioperation ∧ peakLoc < tensor.lastUse then savings + tensor.size
      else savings) savings) 0

/-- The earliest dependence behind the peak on an output of a block. -/
def findBestRematPoint (s : Rematerializer) (begin stop peakLoc : Nat) : Nat :=
  (List.range' begin (stop - begin)).foldl (fun best ioperation =>
    (s.operations.getD ioperation default).tensors.foldl (fun best itensor =>
      let tensor := s.tensors.getD itensor default
      if begin ≤ tensor.firstUse ∧ tensor.firstUse < stop ∧ peakLoc < tensor.lastUse then
        (tensor.operations.find? fun ioperation =>
          decide (peakLoc < ioperation) && decide (ioperation < best)).getD best
      else best) best) s.operations.length

/-- The blocks of a length that are worth trying, each with what it promises. -/
def preScreen (s : Rematerializer) (minSavings : Int) (peakLoc len : Nat) :
    List (Int × Nat × Nat) :=
  (((List.range (peakLoc + 1 - len)).filter fun begin =>
      !((s.operations.drop begin).take len).any Operation.isStateful).map fun begin =>
    (s.maxSavings begin (begin + len) peakLoc, begin, begin + len)).filter fun block =>
      decide (minSavings ≤ block.1)

/-- `std::sort` of the blocks. -/
def sortBlocks (blocks : List (Int × Nat × Nat)) : List (Int × Nat × Nat) :=
  blocks.mergeSort fun a b => decide (a.1 < b.1 ∨ a.1 = b.1 ∧
    (a.2.1 < b.2.1 ∨ a.2.1 = b.2.1 ∧ a.2.2 ≤ b.2.2))

/-- Tries a block, and tells whether the others of its length may be left out. -/
def tryBlock (s : Rematerializer) (minSavings : Int) (peak : MemSpec) (best : Int × RematSpec)
    (block : Int × Nat × Nat) : (Int × RematSpec) × Bool :=
  let insertBefore := s.findBestRematPoint block.2.1 block.2.2 peak.opIndex
  if insertBefore = s.operations.length then (best, false)
  else
    let thisRemat : RematSpec := ⟨block.2.1, block.2.2, insertBefore⟩
    let newPeak := s.getPeakMemory thisRemat
    let best :=
      if newPeak.size < best.1 ∧ newPeak.size + minSavings ≤ peak.size then
        (newPeak.size, thisRemat)
      else best
    (best, decide (block.1 + best.1 ≤ peak.size))

/-- Tries the blocks of a length from the back, and tells whether longer ones are left out. -/
def tryLength (s : Rematerializer) (minSavings : Int) (peak : MemSpec) (best : Int × RematSpec)
    (len : Nat) : (Int × RematSpec) × Bool :=
  let best := foldUntil (s.tryBlock minSavings peak)
    (sortBlocks (s.preScreen minSavings peak.opIndex len)).reverse best
  (best, decide (minSavings + best.1 ≤ peak.size))

def findBestRemat (s : Rematerializer) (minSavings : Int) (beginLen endLen : Nat) :
    Int × RematSpec :=
  let peak := s.getPeakMemory {}
  foldUntil (s.tryLength minSavings peak) (List.range' beginLen (endLen - beginLen)) (peak.size, {})

end Rematerializer

/-! ## The peak -/

section
variable {s : Rematerializer} {remat : RematSpec} {begin stop peakLoc t : Nat} {o : Nat}

theorem foldl_peak (l : List MemSpec) (init : MemSpec) {peak : MemSpec}
    (hpeak : peak = l.foldl (fun peak m => if MemSpec.bySize m peak then peak else m) init) :
    (peak = init ∨ peak ∈ l) ∧ init.size ≤ peak.size ∧ ∀ m ∈ l, m.size ≤ peak.size := by
  induction l generalizing init with
  | nil => exact ⟨.inl hpeak, hpeak ▸ le_refl _, fun m hm => by cases hm⟩
  | cons m l ih =>
    rw [foldl_cons] at hpeak
    obtain ⟨hmem, hinit, hall⟩ := ih _ hpeak
    by_cases hm : MemSpec.bySize m init
    · rw [if_pos hm] at hmem hinit
      refine ⟨hmem.imp_right (mem_cons_of_mem m), hinit, fun m' hm' => ?_⟩
      obtain rfl | hm' := mem_cons.mp hm'
      · exact le_trans (hm.elim le_of_lt fun h => h.1.le) hinit
      · exact hall m' hm'
    · rw [if_neg hm] at hmem hinit
      have hle : init.size ≤ m.size := not_lt.mp fun hlt => hm (.inl hlt)
      refine ⟨.inr (hmem.elim (fun h => h ▸ mem_cons_self) (mem_cons_of_mem m)),
        hle.trans hinit, fun m' hm' => ?_⟩
      obtain rfl | hm' := mem_cons.mp hm'
      · exact hinit
      · exact hall m' hm'

theorem getPeakMemory_mem (s : Rematerializer) (remat : RematSpec) :
    s.getPeakMemory remat = {} ∨ s.getPeakMemory remat ∈ s.mapMem remat :=
  (foldl_peak (s.mapMem remat) {} rfl).1

theorem getPeakMemory_nonneg (s : Rematerializer) (remat : RematSpec) :
    0 ≤ (s.getPeakMemory remat).size := (foldl_peak (s.mapMem remat) {} rfl).2.1

theorem le_getPeakMemory {m : MemSpec} (hm : m ∈ s.mapMem remat) :
    m.size ≤ (s.getPeakMemory remat).size := (foldl_peak (s.mapMem remat) {} rfl).2.2 m hm

/-- The peak, with the deltas of a tensor where they are. -/
theorem getPeakMemory_eq (h : s.Valid) (hv : remat.insert ≤ s.operations.length) :
    s.getPeakMemory remat = ((List.range (s.operations.length + remat.len)).map fun j =>
      ⟨j, inUse s remat j + ((s.sourceUses remat).map fun entry =>
        deltasBefore (j + 1) (s.tensorDeltas remat entry)).sum⟩).foldl
          (fun peak m => if MemSpec.bySize m peak then peak else m) {} := by
  unfold Rematerializer.getPeakMemory
  rw [mapMem_eq h hv]
  simp only [deltasBefore_getDeltas]

/-! ## The promise of a block -/

theorem foldl_sum {α : Type} (f : α → Int) (l : List α) (init : Int) :
    l.foldl (fun savings a => savings + f a) init = init + (l.map f).sum := by
  induction l generalizing init with
  | nil => exact (add_zero init).symm
  | cons a l ih => rw [foldl_cons, ih, map_cons, sum_cons, add_assoc]

open Classical in
/-- What a tensor adds to the promise of a block that starts it. -/
noncomputable def promised (s : Rematerializer) (begin stop peakLoc t : Nat) : Int :=
  if CreatedIn s ⟨begin, stop, 0⟩ t then
    if peakLoc < (s.tensors.getD t default).lastUse then sizeAt s t else 0
  else 0

theorem promised_of_created (h : CreatedIn s ⟨begin, stop, 0⟩ t) :
    promised s begin stop peakLoc t =
      if peakLoc < (s.tensors.getD t default).lastUse then sizeAt s t else 0 := if_pos h

theorem promised_of_not_created (h : ¬ CreatedIn s ⟨begin, stop, 0⟩ t) :
    promised s begin stop peakLoc t = 0 := if_neg h

/-- The outputs of an operation are tensors it is the first to use. -/
theorem sum_outputs (h : s.Valid) (ho : o < s.operations.length) (peakLoc : Nat) :
    ((s.operations.getD o default).tensors.map fun t =>
        if (s.tensors.getD t default).firstUse = o ∧
          peakLoc < (s.tensors.getD t default).lastUse then sizeAt s t else 0).sum =
      ((List.range s.tensors.length).map (promised s o (o + 1) peakLoc)).sum := by
  have hpart : ∀ t ∈ (s.operations.getD o default).tensors,
      (if (s.tensors.getD t default).firstUse = o ∧
        peakLoc < (s.tensors.getD t default).lastUse then sizeAt s t else 0) =
        promised s o (o + 1) peakLoc t := fun t ht => by
    have hcreated : CreatedIn s ⟨o, o + 1, 0⟩ t ↔ (s.tensors.getD t default).firstUse = o := by
      refine ⟨?_, fun hfirst => ⟨o, (mem_tensors_iff h ho).mp ht, hfirst, le_refl o,
        Nat.lt_succ_self o⟩⟩
      rintro ⟨x, _, rfl, hle, hlt⟩
      exact le_antisymm (Nat.le_of_lt_succ hlt) hle
    by_cases hfirst : (s.tensors.getD t default).firstUse = o
    · rw [promised_of_created (hcreated.mpr hfirst)]
      exact if_congr (and_iff_right hfirst) rfl rfl
    · rw [promised_of_not_created fun hc => hfirst (hcreated.mp hc)]
      exact if_neg fun hand => hfirst hand.1
  rw [map_congr_left hpart]
  refine sum_map_eq_sum_range ((sorted_tensors h ho).imp fun hlt => Nat.ne_of_lt hlt)
    (fun t ht => ((mem_tensors_iff h ho).mp ht).tensor_lt) fun t _ hnot => ?_
  have hcreated : ¬ CreatedIn s ⟨o, o + 1, 0⟩ t := by
    rintro ⟨x, hx, _, hle, hlt⟩
    obtain rfl : x = o := le_antisymm (Nat.le_of_lt_succ hlt) hle
    exact hnot ((mem_tensors_iff h ho).mpr hx)
  exact promised_of_not_created hcreated

/-- A block is a shorter block and an operation. -/
theorem promised_succ (begin n peakLoc t : Nat) :
    promised s begin (begin + (n + 1)) peakLoc t = promised s begin (begin + n) peakLoc t +
        promised s (begin + n) (begin + n + 1) peakLoc t := by
  have hcreated : CreatedIn s ⟨begin, begin + (n + 1), 0⟩ t ↔
      CreatedIn s ⟨begin, begin + n, 0⟩ t ∨ CreatedIn s ⟨begin + n, begin + n + 1, 0⟩ t := by
    constructor
    · rintro ⟨x, hx, hfirst, hle, hlt⟩
      by_cases hn : x < begin + n
      · exact .inl ⟨x, hx, hfirst, hle, hn⟩
      · exact .inr ⟨x, hx, hfirst, not_lt.mp hn, hlt⟩
    · rintro (⟨x, hx, hfirst, hle, hlt⟩ | ⟨x, hx, hfirst, hle, hlt⟩)
      · exact ⟨x, hx, hfirst, hle, Nat.lt_succ_of_lt hlt⟩
      · exact ⟨x, hx, hfirst, (Nat.le_add_right begin n).trans hle, hlt⟩
  have hdisjoint : CreatedIn s ⟨begin, begin + n, 0⟩ t →
      ¬ CreatedIn s ⟨begin + n, begin + n + 1, 0⟩ t := by
    rintro ⟨x, _, rfl, _, hlt⟩ ⟨y, _, rfl, hle, _⟩
    exact absurd hlt (not_lt.mpr hle)
  by_cases hleft : CreatedIn s ⟨begin, begin + n, 0⟩ t
  · rw [promised_of_created (hcreated.mpr (.inl hleft)), promised_of_created hleft,
      promised_of_not_created (hdisjoint hleft), add_zero]
  · rw [promised_of_not_created hleft, zero_add]
    by_cases hright : CreatedIn s ⟨begin + n, begin + n + 1, 0⟩ t
    · rw [promised_of_created (hcreated.mpr (.inr hright)), promised_of_created hright]
    · rw [promised_of_not_created hright,
        promised_of_not_created fun hc => (hcreated.mp hc).elim hleft hright]

theorem maxSavings_eq (h : s.Valid) {begin n peakLoc : Nat}
    (hstop : begin + n ≤ s.operations.length) : s.maxSavings begin (begin + n) peakLoc =
      ((List.range s.tensors.length).map (promised s begin (begin + n) peakLoc)).sum := by
  have hinner (init : Int) (o : Nat) :
      (s.operations.getD o default).tensors.foldl (fun savings t =>
        if (s.tensors.getD t default).firstUse = o ∧
          peakLoc < (s.tensors.getD t default).lastUse then
            savings + (s.tensors.getD t default).size else savings) init =
        init + ((s.operations.getD o default).tensors.map fun t =>
          if (s.tensors.getD t default).firstUse = o ∧
            peakLoc < (s.tensors.getD t default).lastUse then sizeAt s t else 0).sum := by
    rw [← foldl_sum]
    refine foldl_ext _ _ _ fun savings t _ => ?_
    unfold sizeAt
    split
    · rfl
    · exact (add_zero savings).symm
  have houter : s.maxSavings begin (begin + n) peakLoc =
      ((List.range' begin n).map fun o => ((s.operations.getD o default).tensors.map fun t =>
        if (s.tensors.getD t default).firstUse = o ∧
          peakLoc < (s.tensors.getD t default).lastUse then sizeAt s t else 0).sum).sum := by
    unfold Rematerializer.maxSavings
    rw [Nat.add_sub_cancel_left]
    simp only [hinner]
    rw [foldl_sum, zero_add]
  rw [houter]
  clear houter
  induction n with
  | zero =>
    refine (sum_eq_zero fun x hx => ?_).symm
    obtain ⟨t, _, rfl⟩ := mem_map.mp hx
    have hcreated : ¬ CreatedIn s ⟨begin, begin + 0, 0⟩ t := by
      rintro ⟨x, _, _, hle, hlt⟩
      exact absurd hlt (not_lt.mpr hle)
    exact promised_of_not_created hcreated
  | succ n ih =>
    rw [range'_1_concat, map_append, sum_append, ih (by omega), map_singleton,
      sum_singleton, sum_outputs h (by omega), ← sum_map_add]
    exact congrArg List.sum (map_congr_left fun t _ => (promised_succ begin n peakLoc t).symm)

theorem promised_nonneg (hsize : ∀ t, 0 ≤ sizeAt s t) (begin stop peakLoc t : Nat) :
    0 ≤ promised s begin stop peakLoc t := by
  by_cases hcreated : CreatedIn s ⟨begin, stop, 0⟩ t
  · rw [promised_of_created hcreated]
    split
    · exact hsize t
    · exact le_refl 0
  · rw [promised_of_not_created hcreated]

theorem held_nonneg (uses : Nat → Prop) (i : Nat) : 0 ≤ held uses i := by
  unfold held ind
  by_cases hend : (∃ o, uses o) ∧ ∀ o, uses o → o < i
  · obtain ⟨o, ho⟩ := hend.1
    have hstart : ∃ o, uses o ∧ o ≤ i := ⟨o, ho, (hend.2 o ho).le⟩
    rw [if_pos hend, if_pos hstart]
    decide
  · rw [if_neg hend]
    split
    · omega
    · omega

/-- Between two of its uses a tensor is in use. -/
theorem one_le_held {uses : Nat → Prop} {a b i : Nat} (ha : uses a) (hb : uses b) (hai : a ≤ i)
    (hib : i ≤ b) : 1 ≤ held uses i := by
  have hstart : ∃ o, uses o ∧ o ≤ i := ⟨a, ha, hai⟩
  have hend : ¬ ((∃ o, uses o) ∧ ∀ o, uses o → o < i) := fun hend =>
    absurd (hend.2 b hb) (not_lt.mpr hib)
  unfold held ind
  rw [if_pos hstart, if_neg hend]
  exact le_refl _

theorem heldAfter_nonneg (t i : Nat) : 0 ≤ heldAfter s remat t i := by
  unfold heldAfter
  split
  · exact add_nonneg (held_nonneg _ i) (held_nonneg _ i)
  · exact held_nonneg _ i

/-- What is in use at the peak and is not promised is still in use. -/
theorem one_le_heldAfter (h : s.Valid) {t i : Nat} (hi : i < remat.insert) (hu : s.Uses o t)
    (hfirst : (s.tensors.getD t default).firstUse ≤ i)
    (hlast : i ≤ (s.tensors.getD t default).lastUse)
    (hkept : CreatedIn s remat t → (s.tensors.getD t default).lastUse ≤ i) :
    1 ≤ heldAfter s remat t i := by
  obtain ⟨⟨hua, hub⟩, -, -⟩ := firstUse_lastUse h hu
  have hafter {x : Nat} (hx : s.Uses x t) : UsesAfter s remat (remat.shifted x) t :=
    .inl ⟨x, hx, rfl⟩
  have hshift := @RematSpec.shifted_of_lt remat _ (hfirst.trans_lt hi)
  unfold heldAfter
  by_cases hcreated : CreatedIn s remat t
  · have hend : (s.tensors.getD t default).lastUse = i := le_antisymm (hkept hcreated) hlast
    have hlate := @RematSpec.shifted_of_lt remat _ (hend.trans_lt hi)
    rw [if_pos hcreated]
    have hearly : 1 ≤ held (fun o => UsesAfter s remat o t ∧ o < remat.insert) i :=
      one_le_held ⟨hshift ▸ hafter hua, hfirst.trans_lt hi⟩
        ⟨hlate ▸ hafter hub, hend.trans_lt hi⟩ hfirst hlast
    have := held_nonneg (fun o => UsesAfter s remat o t ∧ remat.insert ≤ o) i
    omega
  · rw [if_neg hcreated]
    refine one_le_held (hshift ▸ hafter hua) (hafter hub) hfirst (hlast.trans ?_)
    unfold RematSpec.shifted
    split <;> omega

theorem size_held_le (h : s.Valid) (hsize : ∀ t, 0 ≤ sizeAt s t) {i : Nat}
    (hi : i < remat.insert) (t : Nat) :
    sizeAt s t * held (MovedUsesOf s {} t) i ≤
      sizeAt s t * heldAfter s remat t i + promised s remat.begin remat.stop i t := by
  have hnonneg := promised_nonneg hsize remat.begin remat.stop i t
  have hafter := mul_nonneg (hsize t) (@heldAfter_nonneg s remat t i)
  by_cases hused : ∃ o, s.Uses o t
  · obtain ⟨o, hu⟩ := hused
    rw [held_movedUses h hu, shifted_nil, shifted_nil, ind, ind]
    by_cases hin : (s.tensors.getD t default).firstUse ≤ i ∧ i ≤ (s.tensors.getD t default).lastUse
    · rw [if_pos hin.1, if_neg (by omega), sub_zero, mul_one]
      by_cases hlost : CreatedIn s ⟨remat.begin, remat.stop, 0⟩ t ∧
          i < (s.tensors.getD t default).lastUse
      · rw [promised_of_created hlost.1, if_pos hlost.2]
        omega
      · have hone := one_le_heldAfter h hi hu hin.1 hin.2 fun hcreated =>
          not_lt.mp fun hlt => hlost ⟨hcreated, hlt⟩
        have := mul_le_mul_of_nonneg_left hone (hsize t)
        omega
    · have hzero : ((if (s.tensors.getD t default).firstUse ≤ i then 1 else 0) -
          if (s.tensors.getD t default).lastUse + 1 ≤ i then 1 else 0 : Int) ≤ 0 := by
        split <;> split <;> omega
      have := mul_nonpos_of_nonneg_of_nonpos (hsize t) hzero
      omega
  · have hnone : ∀ o, ¬ MovedUsesOf s {} t o := by
      rintro o ⟨x, hx, -⟩
      exact hused ⟨x, hx⟩
    rw [held_none hnone, mul_zero]
    omega

def savings (s : Rematerializer) (remat : RematSpec) : Int :=
  (s.getPeakMemory {}).size - (s.getPeakMemory remat).size

/-- A block saves no more than it promises. -/
theorem savings_le_maxSavings (h : s.Valid) (hsize : ∀ t, 0 ≤ sizeAt s t)
    (hblock : remat.begin ≤ remat.stop) (hstop : remat.stop ≤ (s.getPeakMemory {}).opIndex)
    (hpeak : (s.getPeakMemory {}).opIndex < remat.insert)
    (hinsert : remat.insert ≤ s.operations.length) :
    savings s remat ≤ s.maxSavings remat.begin remat.stop (s.getPeakMemory {}).opIndex := by
  obtain ⟨n, hn⟩ := Nat.exists_eq_add_of_le hblock
  have hpromise := @maxSavings_eq s h remat.begin n (s.getPeakMemory {}).opIndex (by omega)
  rw [← hn] at hpromise
  rw [hpromise, savings]
  obtain hnil | hmem := getPeakMemory_mem s {}
  · have hnew := getPeakMemory_nonneg s remat
    have hsum : 0 ≤ ((List.range s.tensors.length).map (promised s remat.begin remat.stop
        (s.getPeakMemory {}).opIndex)).sum := sum_nonneg fun x hx => by
      obtain ⟨t, _, rfl⟩ := mem_map.mp hx
      exact promised_nonneg hsize _ _ _ t
    have hzero : (s.getPeakMemory {}).size = 0 := by rw [hnil]
    omega
  · rw [mapMem_nil h] at hmem
    obtain ⟨i, hi, heq⟩ := mem_map.mp hmem
    rw [mem_range] at hi
    rw [← heq] at hpeak ⊢
    dsimp only at hpeak ⊢
    have hnew : inUse s remat i + deltasBefore (i + 1) (s.getDeltas remat) ≤
        (s.getPeakMemory remat).size := by
      have hin : (⟨i, inUse s remat i + deltasBefore (i + 1) (s.getDeltas remat)⟩ : MemSpec) ∈
          s.mapMem remat := by
        rw [mapMem_eq h hinsert]
        exact mem_map.mpr ⟨i, mem_range.mpr (by omega), rfl⟩
      exact le_getPeakMemory hin
    have hv : remat.Valid s.operations.length := by
      rw [← heq] at hstop
      exact ⟨hblock, (show remat.stop ≤ i from hstop).trans hpeak.le, hinsert⟩
    rw [predicted_eq h hv] at hnew
    have hsum : inUse s {} i ≤
        ((List.range s.tensors.length).map fun t => sizeAt s t * heldAfter s remat t i).sum +
          ((List.range s.tensors.length).map (promised s remat.begin remat.stop i)).sum := by
      rw [inUse_eq h, ← sum_map_add]
      exact sum_le_sum fun t _ => size_held_le h hsize hpeak t
    omega

end

end LiteRt.Remat
