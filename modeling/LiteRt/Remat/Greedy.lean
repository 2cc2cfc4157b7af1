import LiteRt.Remat.BestRemat

/-!
# The greedy algorithm

Block lengths double from round to round. Within a round the best block is cloned until none is
found, each lowers the peak, so a round ends. The bound of the next round is computed in this
one, and is the first number of type `int` to overflow.
-/

namespace LiteRt.Remat

open LiteRt.Lib

inductive Fault where
  | overflow
  | outOfFuel
  deriving DecidableEq, Repr

/-- A result of type `int`, where overflow is undefined. -/
def checkInt (i : Int) : Except Fault Int :=
  if -2 ^ 31 ≤ i ∧ i < 2 ^ 31 then .ok i else .error .overflow

/-- The arguments of the algorithm. -/
structure Limits where
  maxCost : Int32
  maxBlockLength : Int32
  minSavings : Int
  deriving DecidableEq

/-- The schedule, the specs given to `ApplyRemat` so far, and how many operations they clone.
As operations are, they are counted by `Nat`. -/
structure Greedy where
  rematerializer : Rematerializer
  applied : List RematSpec := []
  cost : Nat := 0
  deriving DecidableEq, Repr

namespace Greedy

/-- `Remat` and `ApplyRemat`. -/
def apply (g : Greedy) (remat : RematSpec) : Greedy where
  rematerializer := g.rematerializer.remat remat
  applied := g.applied ++ [remat]
  cost := g.cost + remat.len

end Greedy

namespace Limits

def Affords (limits : Limits) (cost : Nat) : Prop :=
  limits.maxCost.toInt < 0 ∨ cost ≤ limits.maxCost.toInt

instance (limits : Limits) (cost : Nat) : Decidable (limits.Affords cost) :=
  inferInstanceAs (Decidable (_ ∨ _))

/-- The longest block that may still be cloned. -/
def longest (limits : Limits) (cost : Nat) : Except Fault Int :=
  if limits.maxCost.toInt < 0 then .ok limits.maxBlockLength.toInt
  else do
    let left ← checkInt (limits.maxCost.toInt - cost)
    return min limits.maxBlockLength.toInt left

def endLen (limits : Limits) (minBlockLength : Int) (cost : Nat) : Except Fault Int := do
  let longest ← limits.longest cost
  let stop ← checkInt (1 + longest)
  let double ← checkInt (2 * minBlockLength)
  return min stop double

/-- The inner loop: clones the best block of a range of lengths, until none is found. -/
def cloneBlocks (limits : Limits) (minBlockLength : Int) : Nat → Greedy → Except Fault Greedy
  | 0, _ => .error .outOfFuel
  | fuel + 1, g =>
    if limits.Affords g.cost then do
      let stop ← limits.endLen minBlockLength g.cost
      let remat := (g.rematerializer.findBestRemat limits.minSavings minBlockLength.toNat
        stop.toNat).2
      if remat.begin = remat.stop then return g
      else limits.cloneBlocks minBlockLength fuel (g.apply remat)
    else return g

/-- The outer loop. -/
def doubleLengths (limits : Limits) : Nat → Int → Greedy → Except Fault Greedy
  | 0, _, _ => .error .outOfFuel
  | fuel + 1, minBlockLength, g =>
    if minBlockLength ≤ limits.maxBlockLength.toInt ∧ limits.Affords g.cost then do
      let g ← limits.cloneBlocks minBlockLength fuel g
      let minBlockLength ← checkInt (minBlockLength * 2)
      limits.doubleLengths fuel minBlockLength g
    else return g

end Limits

def Rematerializer.runGreedyAlgorithm (s : Rematerializer) (limits : Limits) (fuel : Nat) :
    Except Fault Greedy :=
  limits.doubleLengths fuel 1 { rematerializer := s }

/-! ## Cloning a block -/

section
variable {s : Rematerializer} {limits : Limits} {remat : RematSpec} {i : Int} {cost : Nat}

theorem getPeakMemory_remat (h : s.Valid) (hv : remat.Valid s.operations.length) :
    (s.remat remat).getPeakMemory {} = s.getPeakMemory remat := by
  unfold Rematerializer.getPeakMemory
  rw [mapMem_remat h hv]

/-- Clones have the sizes of their tensors. -/
theorem sizes_remat (h : s.Valid) (hv : remat.Valid s.operations.length)
    (hsize : ∀ tensor ∈ s.tensors, 0 ≤ tensor.size) :
    ∀ tensor ∈ (s.remat remat).tensors, 0 ≤ tensor.size := by
  intro tensor htensor
  obtain ⟨clones, hr⟩ := remat_rematerialized h hv
  have hin := List.mem_map_of_mem (f := Tensor.size) htensor
  rw [hr.sizes] at hin
  obtain hold | hclone := List.mem_append.mp hin
  · obtain ⟨old, hold, heq⟩ := List.mem_map.mp hold
    exact heq ▸ hsize old hold
  · obtain ⟨clone, -, heq⟩ := List.mem_map.mp hclone
    exact heq ▸ sizeAt_nonneg hsize clone.1

/-- What the limits ask of a rematerialization. -/
structure Respects (limits : Limits) (s : Rematerializer) (remat : RematSpec) : Prop where
  valid : remat.Valid s.operations.length
  lowers : ((s.remat remat).getPeakMemory {}).size < (s.getPeakMemory {}).size
  saves : ((s.remat remat).getPeakMemory {}).size + limits.minSavings ≤ (s.getPeakMemory {}).size
  stateless : ∀ o, remat.begin ≤ o → o < remat.stop →
    (s.operations.getD o default).isStateful = false
  length : remat.len ≤ limits.maxBlockLength.toInt

theorem respects_findBestRemat (h : s.Valid) (hsize : ∀ tensor ∈ s.tensors, 0 ≤ tensor.size)
    (hmin : 0 ≤ limits.minSavings) {beginLen endLen : Nat}
    (hend : endLen ≤ 1 + limits.maxBlockLength.toInt)
    (hremat : (s.findBestRemat limits.minSavings beginLen endLen).2 = remat)
    (hne : remat.begin ≠ remat.stop) : Respects limits s remat ∧ remat.len < endLen := by
  obtain ⟨heq, _⟩ | ⟨len, hlen, _, hfound, _⟩ :=
    findBestRemat_cases h (sizeAt_nonneg hsize) hmin beginLen endLen
  · rw [heq] at hremat
    exact absurd (hremat ▸ rfl) hne
  · have himproves := hfound.improves
    rw [hremat] at himproves
    have hv := himproves.toBlock.valid
    have hlowers := himproves.lowers
    have hsaves := himproves.saves
    have hlength := himproves.toBlock.len_eq
    unfold savings at hlowers hsaves
    rw [← getPeakMemory_remat h hv] at hlowers hsaves
    refine ⟨⟨hv, by omega, by omega, fun o hle hlt => ?_, by omega⟩, by omega⟩
    exact himproves.toBlock.stateless o hle hlt

/-! ## The bound of a round -/

theorem checkInt_ok (h : -2 ^ 31 ≤ i ∧ i < 2 ^ 31) : checkInt i = .ok i := if_pos h

theorem checkInt_overflow (h : 2 ^ 31 ≤ i) : checkInt i = .error .overflow :=
  if_neg fun hin => absurd hin.2 (not_lt.mpr h)

theorem longest_ok (h : limits.Affords cost) : ∃ longest,
    limits.longest cost = .ok longest ∧ -2 ^ 31 ≤ longest ∧ longest ≤ limits.maxBlockLength.toInt ∧
        (limits.maxCost.toInt < 0 ∨ cost + longest ≤ limits.maxCost.toInt) := by
  have hlow := limits.maxBlockLength.le_toInt
  have hhigh := limits.maxCost.toInt_lt
  unfold Limits.longest
  split
  · next hunlimited => exact ⟨_, rfl, hlow, le_refl _, .inl hunlimited⟩
  · next hlimited =>
    have hcost := h.resolve_left hlimited
    rw [checkInt_ok (by omega)]
    refine ⟨_, rfl, ?_, min_le_left _ _, .inr ?_⟩
    · exact le_min hlow (by omega)
    · have := min_le_right limits.maxBlockLength.toInt (limits.maxCost.toInt - cost)
      omega

theorem endLen_cases {minBlockLength : Int} (h : limits.Affords cost) (hpos : 0 < minBlockLength)
    (hle : minBlockLength ≤ limits.maxBlockLength.toInt) :
    (∃ stop, limits.endLen minBlockLength cost = .ok stop ∧ stop ≤ 1 + limits.maxBlockLength.toInt ∧
        (limits.maxCost.toInt < 0 ∨ cost + stop ≤ 1 + limits.maxCost.toInt)) ∨
      limits.endLen minBlockLength cost = .error .overflow ∧
        2 ^ 30 ≤ limits.maxBlockLength.toInt := by
  obtain ⟨longest, hlongest, hlow, hlength, hcost⟩ := longest_ok h
  unfold Limits.endLen
  rw [hlongest]
  by_cases hstop : 1 + longest < 2 ^ 31
  · by_cases hdouble : 2 * minBlockLength < 2 ^ 31
    · have hleft := min_le_left (1 + longest) (2 * minBlockLength)
      refine .inl ⟨min (1 + longest) (2 * minBlockLength), ?_, by omega, by omega⟩
      show (checkInt (1 + longest) >>= fun stop => checkInt (2 * minBlockLength) >>=
        fun double => pure (min stop double)) = .ok (min (1 + longest) (2 * minBlockLength))
      rw [checkInt_ok (by omega), checkInt_ok (by omega)]
      rfl
    · refine .inr ⟨?_, by omega⟩
      show (checkInt (1 + longest) >>= fun stop => checkInt (2 * minBlockLength) >>=
        fun double => pure (min stop double)) = .error .overflow
      rw [checkInt_ok (by omega), checkInt_overflow (by omega)]
      rfl
  · refine .inr ⟨?_, by omega⟩
    show (checkInt (1 + longest) >>= fun stop => checkInt (2 * minBlockLength) >>=
      fun double => pure (min stop double)) = .error .overflow
    rw [checkInt_overflow (by omega)]
    rfl

/-! ## Runs -/

/-- What the loops have done: each spec respects the limits where it was applied. -/
structure Progress (limits : Limits) (s : Rematerializer) (g : Greedy) : Prop where
  run : Run (Respects limits) (fun s remat => some (s.remat remat)) s g.applied g.rematerializer
  cost : g.cost = (g.applied.map RematSpec.len).sum
  affords : limits.Affords g.cost
  valid : g.rematerializer.Valid
  sizes : ∀ tensor ∈ g.rematerializer.tensors, 0 ≤ tensor.size

def Greedy.peak (g : Greedy) : Int := (g.rematerializer.getPeakMemory {}).size

section
variable {g : Greedy} {minBlockLength : Int} {fuel : Nat}

theorem Progress.start (h : s.Valid) (hsize : ∀ tensor ∈ s.tensors, 0 ≤ tensor.size) :
    Progress limits s { rematerializer := s } where
  run := .nil s
  cost := rfl
  affords := by
    show _ < _ ∨ ((0 : Nat) : Int) ≤ _
    omega
  valid := h
  sizes := hsize

theorem Progress.apply (h : Progress limits s g)
    (hrespects : Respects limits g.rematerializer remat)
    (haffords : limits.Affords (g.cost + remat.len)) : Progress limits s (g.apply remat) where
  run := h.run.trans (.single hrespects rfl)
  cost := by
    show g.cost + remat.len = ((g.applied ++ [remat]).map RematSpec.len).sum
    rw [List.map_append, List.sum_append, ← h.cost]
    rfl
  affords := haffords
  valid := h.valid.remat hrespects.valid
  sizes := sizes_remat h.valid hrespects.valid h.sizes

theorem cloneBlocks_succ {stop : Int} (haffords : limits.Affords g.cost)
    (hstop : limits.endLen minBlockLength g.cost = .ok stop)
    (hremat : (g.rematerializer.findBestRemat limits.minSavings minBlockLength.toNat
      stop.toNat).2 = remat) :
    limits.cloneBlocks minBlockLength (fuel + 1) g =
      if remat.begin = remat.stop then .ok g
      else limits.cloneBlocks minBlockLength fuel (g.apply remat) := by
  rw [Limits.cloneBlocks, if_pos haffords, hstop, ← hremat]
  rfl

/-- The inner loop ends, as each block it clones lowers the peak. -/
theorem cloneBlocks_cases (hmin : 0 ≤ limits.minSavings) (hpos : 0 < minBlockLength)
    (hle : minBlockLength ≤ limits.maxBlockLength.toInt) (h : Progress limits s g)
    (hfuel : g.peak.toNat < fuel) :
    (∃ g', limits.cloneBlocks minBlockLength fuel g = .ok g' ∧ Progress limits s g' ∧
      g'.peak ≤ g.peak) ∨
      limits.cloneBlocks minBlockLength fuel g = .error .overflow ∧
        2 ^ 30 ≤ limits.maxBlockLength.toInt := by
  induction fuel generalizing g with
  | zero => exact absurd hfuel (Nat.not_lt_zero _)
  | succ fuel ih =>
    obtain ⟨stop, hstop, hlength, hcost⟩ | ⟨herror, hbig⟩ := endLen_cases h.affords hpos hle
    · cases hremat : (g.rematerializer.findBestRemat limits.minSavings minBlockLength.toNat
        stop.toNat).2 with
      | mk begin stop' insert =>
        rw [cloneBlocks_succ h.affords hstop hremat]
        by_cases heq : begin = stop'
        · exact .inl ⟨g, if_pos heq, h, le_refl _⟩
        · obtain ⟨hrespects, hlt⟩ :=
            respects_findBestRemat h.valid h.sizes hmin (by omega) hremat heq
          rw [if_neg heq]
          have hlowers : (g.apply ⟨begin, stop', insert⟩).peak < g.peak := hrespects.lowers
          have hnonneg : 0 ≤ (g.apply ⟨begin, stop', insert⟩).peak := getPeakMemory_nonneg _ _
          have haffords : limits.Affords (g.cost + RematSpec.len ⟨begin, stop', insert⟩) := by
            unfold Limits.Affords
            omega
          obtain ⟨g', hok, hprogress, hpeak⟩ | herror :=
            ih (h.apply hrespects haffords) (by omega)
          · exact .inl ⟨g', hok, hprogress, hpeak.trans hlowers.le⟩
          · exact .inr herror
    · refine .inr ⟨?_, hbig⟩
      rw [Limits.cloneBlocks, if_pos h.affords, herror]
      rfl

theorem doubleLengths_succ (hmin : 0 ≤ limits.minSavings) (hpos : 0 < minBlockLength)
    (hle : minBlockLength ≤ limits.maxBlockLength.toInt) (h : Progress limits s g)
    (hfuel : g.peak.toNat < fuel) :
    (∃ g', Progress limits s g' ∧ g'.peak ≤ g.peak ∧
      limits.doubleLengths (fuel + 1) minBlockLength g = checkInt (minBlockLength * 2) >>=
        fun minBlockLength => limits.doubleLengths fuel minBlockLength g') ∨
      limits.doubleLengths (fuel + 1) minBlockLength g = .error .overflow ∧
        2 ^ 30 ≤ limits.maxBlockLength.toInt := by
  rw [Limits.doubleLengths, if_pos ⟨hle, h.affords⟩]
  obtain ⟨g', hok, hprogress, hpeak⟩ | ⟨herror, hbig⟩ := cloneBlocks_cases hmin hpos hle h hfuel
  · rw [hok]
    exact .inl ⟨g', hprogress, hpeak, rfl⟩
  · rw [herror]
    exact .inr ⟨rfl, hbig⟩

theorem doubleLengths_done (h : limits.maxBlockLength.toInt < minBlockLength) :
    limits.doubleLengths (fuel + 1) minBlockLength g = .ok g :=
  if_neg fun hgo => absurd hgo.1 (not_le.mpr h)

/-- The outer loop ends, or doubles the largest power of two of type `int`. -/
theorem doubleLengths_cases (hmin : 0 ≤ limits.minSavings) {k j : Nat} (hj : j + k = 30)
    (h : Progress limits s g) (hfuel : k + g.peak.toNat + 1 < fuel) :
    (∃ g', limits.doubleLengths fuel (2 ^ j) g = .ok g' ∧ Progress limits s g' ∧
      limits.maxBlockLength.toInt < 2 ^ 30) ∨
      limits.doubleLengths fuel (2 ^ j) g = .error .overflow ∧
        2 ^ 30 ≤ limits.maxBlockLength.toInt := by
  induction k generalizing j fuel g with
  | zero =>
    obtain rfl : j = 30 := hj
    obtain ⟨fuel, rfl⟩ := Nat.exists_eq_add_of_le' (Nat.one_le_of_lt hfuel)
    by_cases hle : (2 : Int) ^ 30 ≤ limits.maxBlockLength.toInt
    · obtain ⟨g', -, -, heq⟩ | herror :=
        @doubleLengths_succ s limits g _ fuel hmin (by decide) hle h (by omega)
      · refine .inr ⟨?_, hle⟩
        rw [heq, checkInt_overflow (by decide)]
        rfl
      · exact .inr herror
    · exact .inl ⟨g, doubleLengths_done (not_le.mp hle), h, not_le.mp hle⟩
  | succ k ih =>
    obtain ⟨fuel, rfl⟩ := Nat.exists_eq_add_of_le' (Nat.one_le_of_lt hfuel)
    have hpos : (0 : Int) < 2 ^ j := Int.pow_pos (by decide)
    have hpow : (2 : Int) ^ j * 2 ≤ 2 ^ 30 := by
      rw [← pow_succ]
      exact pow_le_pow_right₀ (by decide) (by omega)
    by_cases hle : (2 : Int) ^ j ≤ limits.maxBlockLength.toInt
    · obtain ⟨g', hprogress, hpeak, heq⟩ | herror :=
        @doubleLengths_succ s limits g _ fuel hmin hpos hle h (by omega)
      · rw [heq, checkInt_ok (by omega), ← pow_succ]
        exact ih (by omega) hprogress (by omega)
      · exact .inr herror
    · exact .inl ⟨g, doubleLengths_done (not_le.mp hle), h, by omega⟩

/-- The algorithm respects its limits throughout. -/
structure KeepsLimits (limits : Limits) (s : Rematerializer) (g : Greedy) : Prop where
  run : Run (Respects limits) (fun s remat => some (s.remat remat)) s g.applied g.rematerializer
  cost : 0 ≤ limits.maxCost.toInt → ((g.applied.map RematSpec.len).sum : Nat) ≤ limits.maxCost.toInt

theorem Progress.keepsLimits (h : Progress limits s g) : KeepsLimits limits s g where
  run := h.run
  cost := by
    intro hlimited
    rw [← h.cost]
    exact h.affords.resolve_left (not_lt.mpr hlimited)

theorem runGreedyAlgorithm_cases (h : s.Valid) (hsize : ∀ tensor ∈ s.tensors, 0 ≤ tensor.size)
    (hmin : 0 ≤ limits.minSavings) (hfuel : 31 + (s.getPeakMemory {}).size.toNat < fuel) :
    (∃ g, s.runGreedyAlgorithm limits fuel = .ok g ∧ Progress limits s g ∧
      limits.maxBlockLength.toInt < 2 ^ 30) ∨
      s.runGreedyAlgorithm limits fuel = .error .overflow ∧ 2 ^ 30 ≤ limits.maxBlockLength.toInt :=
  @doubleLengths_cases s limits _ fuel hmin 30 0 rfl (.start h hsize) (by
    show 30 + (s.getPeakMemory {}).size.toNat + 1 < fuel
    omega)

end

end

end LiteRt.Remat
