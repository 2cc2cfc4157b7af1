import LiteRt.Tflite.PlannerRuns

/-!
# Purging or recalculating

Instead of purging the active allocations the planner may recalculate them from the table of
all allocations. In front of a batch both leave the allocations that are still in use, in the
order of their offsets, so no offset depends on the choice.
-/

namespace LiteRt.Tflite

open LiteRt.Lib GapScan SimpleMemoryArena ArenaAllocWithUsageInterval List

namespace ArenaPlanner

variable {types : Nat → TfLiteAllocationType} {tensors : PlannerTensors} {p p' : ArenaPlanner}
  {t : Nat} {next : Int} {l l' : List ArenaAllocWithUsageInterval}

def withActive (p : ArenaPlanner) (l : List ArenaAllocWithUsageInterval) : ArenaPlanner :=
  { p with arena := { p.arena with activeAllocs := l } }

/-- Besides what is in use, only allocations that ended and unused entries are active. -/
structure Exact (types : Nat → TfLiteAllocationType) (next : Int) (p : ArenaPlanner) : Prop
    extends Inv types next p where
  nonneg : 0 ≤ next
  own : ∀ a ∈ p.arena.activeAllocs, (∃ t, p.Current types t a) ∨ a.lastNode < next ∨ a.tensor = -1
  nodup : (p.arena.activeAllocs.filter fun a =>
    decide (next ≤ a.lastNode ∧ a.tensor ≠ -1)).Nodup
  entries : ∀ t alloc, p.allocs[t]? = some alloc → alloc = .unused ∨
    alloc.size ≠ 0 ∧ (types t = .arenaRw ∨ types t = .arenaRwPersistent)

def StartsBefore (types : Nat → TfLiteAllocationType) (bound : Int) (p : ArenaPlanner) : Prop :=
  ∀ t alloc, p.Current types t alloc → alloc.firstNode < bound

/-- The allocations that are in use from `next` on, in the order of their offsets. -/
structure InUse (types : Nat → TfLiteAllocationType) (next : Int) (p : ArenaPlanner)
    (l : List ArenaAllocWithUsageInterval) : Prop where
  sorted : Sorted l
  nodup : l.Nodup
  mem : ∀ a, a ∈ l ↔ (∃ t, p.Current types t a) ∧ next ≤ a.lastNode

/-- They meet at `next`, so no two of them have one offset. -/
theorem InUse.unique (h : p.Inv types next) (hstarts : p.StartsBefore types next)
    (hl : p.InUse types next l) (hl' : p.InUse types next l') : l = l' := by
  have hperm : l.Perm l' := (perm_ext_iff_of_nodup hl.nodup hl'.nodup).2 fun a => by
    rw [hl.mem, hl'.mem]
  refine hperm.eq_of_pairwise (fun a b ha hb hab hba => ?_) hl.sorted hl'.sorted
  obtain ⟨⟨t, ht⟩, hat⟩ := (hl.mem a).1 ha
  obtain ⟨⟨u, hu⟩, hbt⟩ := (hl'.mem b).1 hb
  by_cases heq : t = u
  · subst heq
    have hget := ht.2.1.symm.trans hu.2.1
    cases hget
    rfl
  · have hfirst := hstarts t a ht
    have hfirst' := hstarts u b hu
    have hmeets : a.Meets b := ⟨by omega, by omega⟩
    have hpos := pos_of_ne_zero ht.2.2
    have hpos' := pos_of_ne_zero hu.2.2
    have hapart := h.apart t u a b heq ht hu hmeets
    unfold Apart stop at hapart
    omega

theorem InUse.exact (h : p.Exact types next) (hl : p.InUse types next l) :
    (p.withActive l).Exact types next where
  unshared := h.unshared
  entry := h.entry
  apart := h.apart
  sorted := hl.sorted
  live t alloc ht := by
    by_cases hlast : alloc.lastNode < next
    · exact .inr hlast
    · exact .inl ((hl.mem alloc).2 ⟨⟨t, ht⟩, Int.not_lt.1 hlast⟩)
  nonneg := h.nonneg
  own a ha := .inl ((hl.mem a).1 ha).1
  nodup := hl.nodup.filter _
  entries := h.entries

theorem Exact.purge (h : p.Exact types next) :
    p.InUse types next (p.arena.purgeActiveAllocs next).activeAllocs where
  sorted := Ledger.sorted_filter h.sorted _
  nodup := by
    have hfilter : (p.arena.purgeActiveAllocs next).activeAllocs =
        p.arena.activeAllocs.filter fun a => decide (next ≤ a.lastNode ∧ a.tensor ≠ -1) := by
      refine filter_congr fun a _ => ?_
      rw [decide_eq_decide, Int.not_lt]
    rw [hfilter]
    exact h.nodup
  mem a := by
    constructor
    · intro ha
      obtain ⟨hin, hkept⟩ := mem_filter.1 ha
      obtain ⟨hlast, htensor⟩ := of_decide_eq_true hkept
      rcases h.own a hin with hcurrent | hended | hunused
      · exact ⟨hcurrent, Int.not_lt.1 hlast⟩
      · exact absurd hended hlast
      · exact absurd hunused htensor
    · rintro ⟨⟨t, ht⟩, hlast⟩
      have htensor := (h.entry t a ht).1
      rcases h.live t a ht with hin | hended
      · exact mem_filter.2 ⟨hin, decide_eq_true ⟨Int.not_lt.2 hlast, by omega⟩⟩
      · exact absurd hended (Int.not_lt.2 hlast)

/-- Entries that know their place in the table are distinct. -/
theorem nodup_filter {keep : ArenaAllocWithUsageInterval → Bool}
    (h : ∀ (t : Nat) (a : ArenaAllocWithUsageInterval), l[t]? = some a → keep a = true →
      a.tensor = t) : (l.filter keep).Nodup := by
  unfold List.Nodup
  rw [pairwise_filter, pairwise_iff_getElem]
  intro i j hi hj hij hki hkj heq
  have hti := h i _ (getElem?_eq_getElem hi) hki
  have htj := h j _ (getElem?_eq_getElem hj) hkj
  rw [heq, htj] at hti
  omega

theorem Exact.recalculate {offsets : OffsetSort} (h : p.Exact types next)
    (hstarts : p.StartsBefore types next)
    (hpersistent : ∀ t alloc, types t = .arenaRwPersistent → p.allocs[t]? = some alloc →
      alloc.size ≠ 0 → next < alloc.firstNode) :
    p.InUse types next (p.recalculate offsets next).arena.activeAllocs := by
  have hcurrent : ∀ t a, p.allocs[t]? = some a → a.firstNode ≤ next → next ≤ a.lastNode →
      p.Current types t a := by
    intro t a hget hfirst hlast
    rcases h.entries t a hget with rfl | ⟨hsize, htype | htype⟩
    · have hnonneg := h.nonneg
      exact absurd (show next ≤ -1 from hlast) (by omega)
    · exact ⟨htype, hget, hsize⟩
    · exact absurd (hpersistent t a htype hget hsize) (by omega)
  have hperm := offsets.perm (p.allocs.filter fun alloc =>
    decide (alloc.firstNode ≤ next ∧ next ≤ alloc.lastNode))
  refine ⟨offsets.sorted _, hperm.nodup_iff.2 (nodup_filter fun t a hget hkeep => ?_), fun a => ?_⟩
  · obtain ⟨hfirst, hlast⟩ := of_decide_eq_true hkeep
    exact (h.entry t a (hcurrent t a hget hfirst hlast)).1
  · show a ∈ offsets.sort _ ↔ _
    rw [hperm.mem_iff, mem_filter]
    constructor
    · rintro ⟨hin, hkeep⟩
      obtain ⟨hfirst, hlast⟩ := of_decide_eq_true hkeep
      obtain ⟨t, hget⟩ := mem_iff_getElem?.1 hin
      exact ⟨⟨t, hcurrent t a hget hfirst hlast⟩, hlast⟩
    · rintro ⟨⟨t, ht⟩, hlast⟩
      have hfirst := hstarts t a ht
      exact ⟨mem_of_getElem? ht.2.1, decide_eq_true ⟨by omega, hlast⟩⟩

/-! ### A batch -/

theorem setTemporary_withActive (entry : Nat × Nat) :
    (p.withActive l).setTemporary entry = (p.setTemporary entry).withActive l := by
  cases h : p.preserveAllTensors <;> simp [setTemporary, withActive, insertTensor, h]

theorem setTemporaries_withActive (numExecutionNodes : Nat) (firstNode lastNode : Int) :
    (p.withActive l).setTemporaries tensors numExecutionNodes firstNode lastNode =
      (p.setTemporaries tensors numExecutionNodes firstNode lastNode).withActive l := by
  have hloop : ∀ (entries : List (Nat × Nat)) (q : ArenaPlanner),
      entries.foldl setTemporary (q.withActive l) =
        (entries.foldl setTemporary q).withActive l := by
    intro entries
    induction entries with
    | nil => exact fun q => rfl
    | cons entry entries ih =>
      intro q
      rw [foldl_cons, foldl_cons, setTemporary_withActive]
      exact ih _
  exact hloop _ (p.resize tensors.numTensors)

theorem Exact.setTemporaries {numExecutionNodes : Nat} {lastNode : Int} (h : p.Exact types next)
    (htables : ∀ t alloc, p.Current types t alloc →
      (p.setTemporaries tensors numExecutionNodes next lastNode).allocNodeOf t = p.allocNodeOf t ∧
        (p.setTemporaries tensors numExecutionNodes next lastNode).deallocNodeOf t =
          p.deallocNodeOf t) :
    (p.setTemporaries tensors numExecutionNodes next lastNode).Exact types next := by
  obtain ⟨harena, hallocs, -, -⟩ :=
    @ArenaPlanner.setTemporaries_spec tensors p numExecutionNodes next lastNode
  refine { h.toInv.setTemporaries htables with
    nonneg := h.nonneg, own := ?_, nodup := ?_, entries := ?_ }
  · rw [harena]
    exact fun a ha => (h.own a ha).imp_left (Exists.imp fun t => current_setTemporaries.2)
  · rw [harena]
    exact h.nodup
  · intro t alloc hget
    rw [hallocs] at hget
    rcases Nat.lt_or_ge t p.allocs.length with hlt | hle
    · rw [getElem?_append_left hlt] at hget
      exact h.entries t alloc hget
    · rw [getElem?_append_right hle] at hget
      exact .inl (eq_of_mem_replicate (mem_of_getElem? hget))

/-- A tensor that had no bytes gets some. -/
theorem Exact.allocateTensor {bound : Int} (h : p.Exact types next)
    (hstarts : p.StartsBefore types bound) (htypes : tensors.allocationType = types)
    (hneeds : tensors.allocationType t = .arenaRw ∧ tensors.bytes t ≠ 0 ∨
      tensors.allocationType t = .arenaRwPersistent)
    (hnext : types t = .arenaRw → next ≤ p.allocNodeOf t)
    (hbound : types t = .arenaRw → p.allocNodeOf t < bound) (hlt : t < p.allocs.length)
    (hnew : ∀ alloc, ¬ p.Current types t alloc)
    (hok : ArenaPlanner.allocateTensor tensors p t = .ok p') :
    p'.Exact types next ∧ p'.StartsBefore types bound ∧ p'.allocs.length = p.allocs.length ∧
      ∀ u alloc, p'.Current types u alloc → u = t ∨ p.Current types u alloc := by
  obtain ⟨hinv, -, -⟩ := h.toInv.allocateTensor htypes hneeds hnext hok
  rw [allocateTensor_own h.unshared] at hok
  rcases hneeds with ⟨htype, hsize⟩ | htype
  · obtain ⟨offset, required, -, rfl⟩ := allocateOwner_arenaRw htype hsize hok
    rw [htypes] at htype
    have hself : (p.placed tensors t offset required).Current types t
        (p.entryAt tensors t offset) := ⟨htype, getElem?_set_self hlt, hsize⟩
    have hold : ∀ {u alloc}, p.Current types u alloc →
        (p.placed tensors t offset required).Current types u alloc := by
      intro u alloc hu
      have hne : t ≠ u := by
        rintro rfl
        exact hnew alloc hu
      exact ⟨hu.1, (getElem?_set_ne hne).trans hu.2.1, hu.2.2⟩
    refine ⟨{ hinv with nonneg := h.nonneg, own := ?_, nodup := ?_, entries := ?_ }, ?_,
      length_set, ?_⟩
    · intro a ha
      rcases mem_upperInsert.1 ha with rfl | ha
      · exact .inl ⟨t, hself⟩
      · exact (h.own a ha).imp_left (Exists.imp fun u => hold)
    · have hperm := (upperInsert_perm (fun alloc => alloc.offset.toNat) offset.toNat
        (p.entryAt tensors t offset) p.arena.activeAllocs).filter
          fun a => decide (next ≤ a.lastNode ∧ a.tensor ≠ -1)
      refine hperm.nodup_iff.2 ?_
      rw [filter_cons]
      split
      · rename_i hkept
        refine nodup_cons.2 ⟨fun hin => ?_, h.nodup⟩
        obtain ⟨hlast, htensor⟩ := of_decide_eq_true hkept
        rcases h.own _ (mem_of_mem_filter hin) with ⟨u, hu⟩ | hended | hunused
        · have hut : (t : Int) = u := (h.entry u _ hu).1
          cases Int.ofNat_inj.1 hut
          exact hnew _ hu
        · exact absurd hended (Int.not_lt.2 hlast)
        · exact absurd hunused htensor
      · exact h.nodup
    · intro u alloc hget
      replace hget : (p.allocs.set t (p.entryAt tensors t offset))[u]? = some alloc := hget
      rw [getElem?_set] at hget
      split at hget
      · rename_i heq
        cases hget
        exact .inr ⟨hsize, .inl (heq ▸ htype)⟩
      · exact h.entries u alloc hget
    · intro u alloc hu
      rcases Current.of_set (p := p) rfl hu with ⟨rfl, rfl⟩ | ⟨-, hu⟩
      · exact hbound htype
      · exact hstarts u alloc hu
    · intro u alloc hu
      exact (Current.of_set (p := p) rfl hu).imp And.left And.right
  · obtain ⟨arena, allocs, rfl, hallocs⟩ := allocateOwner_persistent htype hok
    rw [htypes] at htype
    have hcurrent : ∀ u alloc, ({ p with persistentArena := arena, allocs := allocs } :
        ArenaPlanner).Current types u alloc ↔ p.Current types u alloc := by
      intro u alloc
      rcases hallocs with heq | ⟨other, -, heq⟩
      · exact @ArenaPlanner.current_persistent _ _ _ t _ alloc _ htype (.inl heq)
      · exact current_persistent htype (.inr heq)
    refine ⟨{ hinv with nonneg := h.nonneg, own := ?_, nodup := h.nodup, entries := ?_ },
      fun u alloc hu => hstarts u alloc ((hcurrent u alloc).1 hu), ?_,
      fun u alloc hu => .inr ((hcurrent u alloc).1 hu)⟩
    · exact fun a ha => (h.own a ha).imp_left (Exists.imp fun u => (hcurrent u a).2)
    · intro u alloc hget
      rcases hallocs with rfl | ⟨other, hother, rfl⟩
      · exact h.entries u alloc hget
      · rw [getElem?_set] at hget
        split at hget
        · rename_i heq
          cases hget
          exact .inr ⟨hother, .inr (heq ▸ htype)⟩
        · exact h.entries u alloc hget
    · rcases hallocs with rfl | ⟨other, -, rfl⟩
      · rfl
      · exact length_set

/-- The tensors of a batch are new ones, and each comes once. -/
theorem Exact.allocateAll {order : TensorSort} {allocated : List Nat} {lastNode bound : Int}
    (h : p.Exact types next) (hstarts : p.StartsBefore types bound)
    (htypes : tensors.allocationType = types)
    (hneeds : ∀ t ∈ allocated, tensors.allocationType t = .arenaRw ∧ tensors.bytes t ≠ 0 ∨
      tensors.allocationType t = .arenaRwPersistent)
    (hnext : ∀ t ∈ allocated, types t = .arenaRw → next ≤ p.allocNodeOf t)
    (hbound : ∀ t ∈ allocated, types t = .arenaRw → p.allocNodeOf t < bound)
    (hlt : ∀ t ∈ allocated, t < p.allocs.length) (hnodup : allocated.Nodup)
    (hnew : ∀ t ∈ allocated, ∀ alloc, ¬ p.Current types t alloc)
    (hok : p.allocateAll order tensors allocated lastNode = .ok p') :
    p'.Exact types next ∧ p'.StartsBefore types bound := by
  have hloop : ∀ (l : List Nat) (q q' : ArenaPlanner), q.Exact types next →
      q.StartsBefore types bound → q.allocNode = p.allocNode →
      q.allocs.length = p.allocs.length → (∀ t ∈ l, t ∈ allocated) → l.Nodup →
      (∀ t ∈ l, ∀ alloc, ¬ q.Current types t alloc) →
      l.foldlM (ArenaPlanner.allocateTensor tensors) q = .ok q' →
      q'.Exact types next ∧ q'.StartsBefore types bound := by
    intro l
    induction l with
    | nil =>
      intro q q' hq hbefore _ _ _ _ _ hok
      cases hok
      exact ⟨hq, hbefore⟩
    | cons t l ih =>
      intro q q' hq hbefore hnodes hlen hsub hdistinct hfresh hok
      rw [foldlM_cons] at hok
      have hin := hsub t mem_cons_self
      cases ht : ArenaPlanner.allocateTensor tensors q t with
      | error fault =>
        rw [ht] at hok
        cases hok
      | ok q₁ =>
        rw [ht, ok_bind] at hok
        have hnodeOf : q.allocNodeOf t = p.allocNodeOf t := by
          unfold allocNodeOf
          rw [hnodes]
        have hlater : ∀ htype, next ≤ q.allocNodeOf t := fun htype =>
          hnodeOf ▸ hnext t hin htype
        obtain ⟨hq₁, hbefore₁, hlen₁, hcurrent⟩ := hq.allocateTensor hbefore htypes
          (hneeds t hin) hlater (fun htype => hnodeOf ▸ hbound t hin htype)
          (hlen ▸ hlt t hin) (hfresh t mem_cons_self) ht
        obtain ⟨-, hnodes₁, -⟩ := hq.toInv.allocateTensor htypes (hneeds t hin) hlater ht
        obtain ⟨hnotin, hrest⟩ := nodup_cons.1 hdistinct
        refine ih q₁ q' hq₁ hbefore₁ (hnodes₁.trans hnodes) (hlen₁.trans hlen)
          (fun u hu => hsub u (mem_cons_of_mem _ hu)) hrest (fun u hu alloc hcur => ?_) hok
        rcases hcurrent u alloc hcur with rfl | hold
        · exact hnotin hu
        · exact hfresh u (mem_cons_of_mem _ hu) alloc hold
  unfold ArenaPlanner.allocateAll at hok
  cases hrun : (order.sort (p.tensorCompare tensors) allocated).foldlM
      (ArenaPlanner.allocateTensor tensors) p with
  | error fault =>
    rw [hrun] at hok
    cases hok
  | ok q =>
    rw [hrun] at hok
    cases hok
    have hperm := order.perm (p.tensorCompare tensors) allocated
    obtain ⟨hq, hbefore⟩ := hloop _ p q h hstarts rfl rfl (fun t ht => hperm.mem_iff.1 ht)
      (hperm.nodup_iff.2 hnodup) (fun t ht => hnew t (hperm.mem_iff.1 ht)) hrun
    exact ⟨{ hq.congr (fun _ _ => Iff.rfl) (fun _ _ _ => ⟨rfl, rfl⟩) rfl rfl with
      nonneg := hq.nonneg, own := hq.own, nodup := hq.nodup, entries := hq.entries }, hbefore⟩

/-! ### Shrinking in front of a batch -/

/-- The planner of `shrinkActive` apart from the active allocations. -/
def restarted (next : Int) (p : ArenaPlanner) : ArenaPlanner :=
  if next < p.lastActiveNode then { p with lastActiveNode := next } else p

/-- What is in use is left by clearing, purging and recalculating. -/
theorem Exact.shrink {offsets : OffsetSort} (h : p.Exact types next)
    (hstarts : p.StartsBefore types next)
    (hclear : next < p.lastActiveNode → ∀ t alloc, p.Current types t alloc → alloc.lastNode < next)
    (hpersistent : ∀ t alloc, types t = .arenaRwPersistent → p.allocs[t]? = some alloc →
      alloc.size ≠ 0 → next < alloc.firstNode) (recalculates : Bool) :
    ∃ l, p.InUse types next l ∧ (if recalculates then (p.shrinkActive next).recalculate offsets next
        else p.shrinkActive next) = (p.restarted next).withActive l := by
  cases recalculates with
  | true =>
    refine ⟨_, @Exact.recalculate _ _ _ offsets h hstarts hpersistent, ?_⟩
    unfold shrinkActive restarted
    by_cases hlt : next < p.lastActiveNode
    · simp only [if_true, if_pos hlt]
      rfl
    · simp only [if_true, if_neg hlt]
      rfl
  | false =>
    by_cases hlt : next < p.lastActiveNode
    · refine ⟨[], ⟨.nil, .nil, fun a => ?_⟩, ?_⟩
      · refine iff_of_false not_mem_nil ?_
        rintro ⟨⟨t, ht⟩, hlast⟩
        exact absurd (hclear hlt t a ht) (Int.not_lt.2 hlast)
      · unfold shrinkActive restarted
        simp only [Bool.false_eq_true, if_false, if_pos hlt]
        rfl
    · refine ⟨_, h.purge, ?_⟩
      unfold shrinkActive restarted
      simp only [Bool.false_eq_true, if_false, if_neg hlt]
      rfl

/-! ### Resets -/

theorem Exact.resetAllocs {node : Int} (h : p.Exact types next)
    (htypes : tensors.allocationType = types) :
    ∀ t alloc, (p.resetAllocs tensors node)[t]? = some alloc → alloc = .unused ∨
      alloc.size ≠ 0 ∧ p.allocs[t]? = some alloc ∧
        (types t = .arenaRw ∧ alloc.firstNode ≤ node ∨ types t = .arenaRwPersistent) := by
  intro t alloc hget
  rw [resetAllocs_getElem?, htypes] at hget
  obtain ⟨old, hold, heq⟩ := Option.map_eq_some_iff.1 hget
  split at heq
  · exact .inl heq.symm
  · rename_i hkept
    subst heq
    refine (h.entries t old hold).imp_right fun hentry => ⟨hentry.1, hold, ?_⟩
    refine hentry.2.imp_left fun htype => ⟨htype, Int.not_lt.1 fun hlt => hkept ⟨hlt, ?_, htype⟩⟩
    rw [UInt64.lt_iff_toNat_lt]
    exact pos_of_ne_zero hentry.1

/-- Recalculating for a node finds what is in use there, and nothing else. -/
theorem Exact.recalculateAt {offsets : OffsetSort} {node : Int} (h : p.Exact types next)
    (htypes : tensors.allocationType = types) (hnode : -1 ≤ node)
    (hpersistent : ∀ t alloc, types t = .arenaRwPersistent → p.allocs[t]? = some alloc →
      alloc.size ≠ 0 → node < alloc.firstNode)
    (hkeeps : ∀ t alloc, p.Current types t alloc → alloc.firstNode ≤ node →
      alloc.lastNode < node → alloc.lastNode < next) :
    (({ p with allocs := p.resetAllocs tensors node } : ArenaPlanner).recalculate offsets
      node).Exact types (min next (node + 1)) := by
  have hcurrent : ∀ {t alloc}, ({ p with allocs := p.resetAllocs tensors node } :
      ArenaPlanner).Current types t alloc → p.Current types t alloc ∧ alloc.firstNode ≤ node :=
    fun ht => (current_resetAllocs htypes rfl).1 ht
  have hentries := @Exact.resetAllocs _ _ _ _ node h htypes
  have hinv := @Inv.recalculate _ _ _ (min next (node + 1)) node offsets
    (@Inv.resetAllocs _ _ _ _ node h.toInv htypes) (fun t alloc ht => (hcurrent ht).2)
    fun t alloc ht hlast => by
      have hold := hcurrent ht
      have hnext := hkeeps t alloc hold.1 hold.2 hlast
      omega
  have hperm := offsets.perm ((p.resetAllocs tensors node).filter fun alloc =>
    decide (alloc.firstNode ≤ node ∧ node ≤ alloc.lastNode))
  have hfound : ∀ t a, (p.resetAllocs tensors node)[t]? = some a → a.firstNode ≤ node →
      a.tensor ≠ -1 → ({ p with allocs := p.resetAllocs tensors node } :
        ArenaPlanner).Current types t a := by
    intro t a hget hfirst htensor
    rcases hentries t a hget with rfl | ⟨hsize, hold, ⟨htype, -⟩ | htype⟩
    · exact absurd rfl htensor
    · exact ⟨htype, hget, hsize⟩
    · exact absurd (hpersistent t a htype hold hsize) (Int.not_lt.2 hfirst)
  have hnonneg := h.nonneg
  refine { hinv with nonneg := by omega, own := ?_, nodup := ?_, entries := ?_ }
  · intro a ha
    obtain ⟨hin, hkeep⟩ := mem_filter.1 (hperm.mem_iff.1 ha)
    obtain ⟨t, hget⟩ := mem_iff_getElem?.1 hin
    by_cases htensor : a.tensor = -1
    · exact .inr (.inr htensor)
    · exact .inl ⟨t, hfound t a hget (of_decide_eq_true hkeep).1 htensor⟩
  · refine (hperm.filter _).nodup_iff.2 ?_
    rw [filter_filter]
    refine nodup_filter fun t a hget hkeep => ?_
    rw [Bool.and_eq_true, decide_eq_true_eq, decide_eq_true_eq] at hkeep
    have hcur := hfound t a hget hkeep.2.1 hkeep.1.2
    exact (h.entry t a (hcurrent hcur).1).1
  · intro t alloc hget
    refine (hentries t alloc hget).imp_right fun hentry => ⟨hentry.1, ?_⟩
    exact hentry.2.2.imp_left And.left

theorem Exact.purgeAfter {node : Int} (h : p.Exact types next)
    (htypes : tensors.allocationType = types) (hinv : (({ p with
      allocs := p.resetAllocs tensors node
      arena := p.arena.purgeAfter node
      lastActiveNode := node } : ArenaPlanner)).Inv types next) :
    ({ p with
      allocs := p.resetAllocs tensors node
      arena := p.arena.purgeAfter node
      lastActiveNode := node } : ArenaPlanner).Exact types next := by
  refine { hinv with nonneg := h.nonneg, own := ?_, nodup := ?_, entries := ?_ }
  · intro a ha
    obtain ⟨hin, hkeep⟩ := mem_filter.1 ha
    refine (h.own a hin).imp_left (Exists.imp fun t ht => ?_)
    have hfirst := Int.not_lt.1 (of_decide_eq_true hkeep).1
    exact (current_resetAllocs htypes rfl).2 ⟨ht, hfirst⟩
  · exact h.nodup.sublist (filter_sublist.filter _)
  · intro t alloc hget
    refine (h.resetAllocs htypes t alloc hget).imp_right fun hentry => ⟨hentry.1, ?_⟩
    exact hentry.2.2.imp_left And.left

end ArenaPlanner

namespace ArenaPlanner

variable {types : Nat → TfLiteAllocationType} {tensors : PlannerTensors} {p p' : ArenaPlanner}
  {next next' : Int} {l : List ArenaAllocWithUsageInterval}

theorem Exact.mono (h : p.Exact types next) (hle : next ≤ next') : p.Exact types next' := by
  refine { h.toInv.mono hle with
    nonneg := h.nonneg.trans hle, own := ?_, nodup := ?_, entries := h.entries }
  · exact fun a ha => (h.own a ha).imp_right (Or.imp_left fun hlt => hlt.trans_le hle)
  · refine h.nodup.sublist (monotone_filter_right _ fun a ha => ?_)
    obtain ⟨hlast, htensor⟩ := of_decide_eq_true ha
    exact decide_eq_true ⟨hle.trans hlast, htensor⟩

theorem resetAllocationsAfter_withActive {offsets : OffsetSort} {node : Int}
    (recalculates : Bool) : ∃ l', (if recalculates then
        ((p.withActive l).resetAllocationsAfter offsets tensors node).recalculate offsets node
      else (p.withActive l).resetAllocationsAfter offsets tensors node) =
      (p.resetAllocationsAfter offsets tensors node).withActive l' := by
  unfold ArenaPlanner.resetAllocationsAfter
  dsimp only
  cases recalculates with
  | true =>
    rw [if_pos rfl]
    by_cases hlt : node < p.lastActiveNode
    · rw [if_pos hlt, if_pos (show node < (p.withActive l).lastActiveNode from hlt)]
      exact ⟨_, rfl⟩
    · rw [if_neg hlt, if_neg (show ¬ node < (p.withActive l).lastActiveNode from hlt)]
      exact ⟨_, rfl⟩
  | false =>
    rw [if_neg Bool.false_ne_true]
    by_cases hlt : node < p.lastActiveNode
    · rw [if_pos hlt, if_pos (show node < (p.withActive l).lastActiveNode from hlt)]
      exact ⟨_, rfl⟩
    · rw [if_neg hlt, if_neg (show ¬ node < (p.withActive l).lastActiveNode from hlt)]
      exact ⟨_, rfl⟩

/-- The last active node does not matter. -/
theorem Exact.withLast (h : p.Exact types next) (node : Int) :
    ({ p with lastActiveNode := node } : ArenaPlanner).Exact types next :=
  { h.toInv.congr (fun _ _ => Iff.rfl) (fun _ _ _ => ⟨rfl, rfl⟩) rfl rfl with
    nonneg := h.nonneg, own := h.own, nodup := h.nodup, entries := h.entries }

/-- A reset purges only where there is nothing to bring back. -/
theorem Exact.resetAllocationsAfter {offsets : OffsetSort} {node : Int} (h : p.Exact types next)
    (htypes : tensors.allocationType = types) (hactive : next - 1 ≤ p.lastActiveNode)
    (hnode : -1 ≤ node)
    (hpersistent : ∀ t alloc, types t = .arenaRwPersistent → p.allocs[t]? = some alloc →
      alloc.size ≠ 0 → node < alloc.firstNode)
    (hkeeps : ∀ t alloc, p.Current types t alloc → alloc.firstNode ≤ node →
      alloc.lastNode < node → alloc.lastNode < next) (recalculates : Bool) :
    (if recalculates then (p.resetAllocationsAfter offsets tensors node).recalculate offsets node
      else p.resetAllocationsAfter offsets tensors node).Exact types (min next (node + 1)) := by
  have hcalculated :=
      (@ArenaPlanner.Exact.recalculateAt _ _ _ _ offsets _ h htypes hnode hpersistent
      hkeeps).withLast node
  have hinv := @Inv.resetAllocationsAfter _ _ _ _ _ offsets h.toInv htypes hactive fun _ => hkeeps
  unfold ArenaPlanner.resetAllocationsAfter at hinv ⊢
  dsimp only at hinv ⊢
  cases recalculates with
  | true =>
    rw [if_pos rfl]
    by_cases hlt : node < p.lastActiveNode
    · rw [if_pos hlt]
      exact hcalculated
    · rw [if_neg hlt]
      exact hcalculated
  | false =>
    rw [if_neg Bool.false_ne_true]
    by_cases hlt : node < p.lastActiveNode
    · rw [if_pos hlt]
      exact hcalculated
    · have hnext : min next (node + 1) = next := by omega
      rw [if_neg hlt, hnext] at hinv ⊢
      exact h.purgeAfter htypes hinv

end ArenaPlanner

namespace ArenaPlanner

variable {types : Nat → TfLiteAllocationType} {tensors : PlannerTensors} {p p' q : ArenaPlanner}
  {next lastNode : Int} {l : List ArenaAllocWithUsageInterval}

/-- The tensors of a batch come in with it, and each comes once. -/
structure Fresh (types : Nat → TfLiteAllocationType) (tensors : PlannerTensors)
    (next lastNode : Int) (p : ArenaPlanner) (allocated : List Nat) : Prop where
  nodup : allocated.Nodup
  valid : ∀ t ∈ allocated, t < p.allocs.length
  starts : ∀ t ∈ allocated, types t = .arenaRw →
    next ≤ p.allocNodeOf t ∧ p.allocNodeOf t < lastNode + 1
  needs : ∀ t ∈ allocated, tensors.allocationType t = .arenaRw ∧ tensors.bytes t ≠ 0 ∨
    tensors.allocationType t = .arenaRwPersistent

theorem restarted_withActive (next : Int) (p : ArenaPlanner)
    (l l' : List ArenaAllocWithUsageInterval) :
    ((p.withActive l).restarted next).withActive l' = (p.restarted next).withActive l' := by
  unfold restarted
  by_cases hlt : next < p.lastActiveNode
  · rw [if_pos hlt, if_pos (show next < (p.withActive l).lastActiveNode from hlt)]
    rfl
  · rw [if_neg hlt, if_neg (show ¬ next < (p.withActive l).lastActiveNode from hlt)]
    rfl

theorem Exact.restarted (h : p.Exact types next) : (p.restarted next).Exact types next := by
  unfold ArenaPlanner.restarted
  split
  · exact h.withLast next
  · exact h

/-- Behind the shrinking nothing depends on how it was done. -/
theorem Exact.calculate {order : TensorSort} {offsets : OffsetSort} (hq : q.Exact types next)
    (hq' : (q.withActive l).Exact types next) (hbefore : q.StartsBefore types next)
    (hclear : next < q.lastActiveNode → q.tensorsAllocated tensors next lastNode ≠ [] →
      ∀ t alloc, q.Current types t alloc → alloc.lastNode < next)
    (hpersistent : ∀ t alloc, types t = .arenaRwPersistent → q.allocs[t]? = some alloc →
      alloc.size ≠ 0 → next < alloc.firstNode) (htypes : tensors.allocationType = types)
    (hfresh : q.Fresh types tensors next lastNode (q.tensorsAllocated tensors next lastNode))
    (hle : next ≤ lastNode)
    (hok : q.calculateAllocations order (shrinkActive next) tensors next lastNode = .ok p')
    (recalculates : Bool) :
    ∃ p'', (q.withActive l).calculateAllocations order (fun p : ArenaPlanner =>
        if recalculates then (shrinkActive next p).recalculate offsets next
        else shrinkActive next p) tensors next lastNode = .ok p'' ∧
      (∃ l', p'' = p'.withActive l') ∧ p'.Exact types (lastNode + 1) ∧
      p''.Exact types (lastNode + 1) ∧ p'.StartsBefore types (lastNode + 1) ∧
      p'.lastActiveNode = lastNode := by
  have hsucc : next ≤ lastNode + 1 := Int.le_trans hle (Int.le_add_one (Int.le_refl lastNode))
  have hsame : (q.withActive l).tensorsAllocated tensors next lastNode =
      q.tensorsAllocated tensors next lastNode := rfl
  unfold calculateAllocations at hok ⊢
  dsimp only at hok ⊢
  rw [hsame]
  by_cases hnil : q.tensorsAllocated tensors next lastNode = []
  · rw [if_pos hnil] at hok ⊢
    cases hok
    exact ⟨_, rfl, ⟨l, rfl⟩, (hq.mono hsucc).withLast lastNode, (hq'.mono hsucc).withLast lastNode,
      fun t alloc ht => (hbefore t alloc ht).trans_le hsucc, rfl⟩
  · rw [if_neg hnil] at hok ⊢
    have hlost := fun hlt => hclear hlt hnil
    obtain ⟨l₁, hl₁, hshrunk⟩ := @ArenaPlanner.Exact.shrink _ _ _ offsets hq hbefore hlost
        hpersistent false
    obtain ⟨l₂, hl₂, hshrunk'⟩ :=
      @ArenaPlanner.Exact.shrink _ _ _ offsets hq' hbefore hlost hpersistent recalculates
    -- both lists are the allocations in use
    have heq : l₁ = l₂ := InUse.unique hq.toInv hbefore hl₁ ⟨hl₂.sorted, hl₂.nodup, hl₂.mem⟩
    subst heq
    rw [if_neg Bool.false_ne_true] at hshrunk
    rw [hshrunk', restarted_withActive]
    rw [hshrunk] at hok
    refine ⟨p', hok, ⟨p'.arena.activeAllocs, rfl⟩, ?_⟩
    have hcurrent : ∀ t alloc, (q.restarted next).Current types t alloc ↔
        q.Current types t alloc := by
      intro t alloc
      unfold ArenaPlanner.restarted
      split <;> exact Iff.rfl
    have hnode : ∀ t, (q.restarted next).allocNodeOf t = q.allocNodeOf t := by
      intro t
      unfold ArenaPlanner.restarted
      split <;> rfl
    have hlen : (q.restarted next).allocs.length = q.allocs.length := by
      unfold ArenaPlanner.restarted
      split <;> rfl
    have hnew : ∀ t ∈ q.tensorsAllocated tensors next lastNode, ∀ alloc,
        ¬ (q.restarted next).Current types t alloc := by
      intro t ht alloc hcur
      have hold := (hcurrent t alloc).1 hcur
      have hfirst := hbefore t alloc hold
      have hlater := (hfresh.starts t ht hold.1).1
      have hentry := (hq.entry t alloc hold).2.1
      omega
    have hinUse : (q.restarted next).InUse types next l₁ :=
      ⟨hl₁.sorted, hl₁.nodup, fun a => (hl₁.mem a).trans
        (and_congr_left fun _ => exists_congr fun t => (hcurrent t a).symm)⟩
    have hstart := hinUse.exact hq.restarted
    obtain ⟨hexact, hbound⟩ := @ArenaPlanner.Exact.allocateAll _ _ _ _ _ _ _ _ (lastNode + 1) hstart
        (fun t alloc ht => (hbefore t alloc ((hcurrent t alloc).1 ht)).trans_le hsucc) htypes
        hfresh.needs (fun t ht htype => (hnode t).symm ▸ (hfresh.starts t ht htype).1)
        (fun t ht htype => (hnode t).symm ▸ (hfresh.starts t ht htype).2)
        (fun t ht => hlen.symm ▸ hfresh.valid t ht) hfresh.nodup hnew hok
    have hlast : p'.lastActiveNode = lastNode :=
      (hstart.toInv.allocateAll htypes hfresh.needs
        (fun t ht htype => (hnode t).symm ▸ (hfresh.starts t ht htype).1) hok).2
    exact ⟨hexact.mono hsucc, hexact.mono hsucc, hbound, hlast⟩

end ArenaPlanner

open ArenaPlanner

namespace Planning

variable {types : Nat → TfLiteAllocationType} {offsets : OffsetSort} {order : TensorSort}
  {numExecutionNodes : Nat} {s s' s₁ : Planning} {call : PlanningCall}

/-- Two planners that differ in no more than what else they hold active. -/
structure Matched (types : Nat → TfLiteAllocationType) (s s' : Planning) : Prop where
  same : ∃ l, s' = ⟨s.planner.withActive l, s.next⟩
  left : s.planner.Exact types s.next
  right : s'.planner.Exact types s.next
  starts : s.planner.StartsBefore types s.next
  active : s.next - 1 ≤ s.planner.lastActiveNode

theorem Matched.refl (h : s.planner.Exact types s.next)
    (hstarts : s.planner.StartsBefore types s.next)
    (hactive : s.next - 1 ≤ s.planner.lastActiveNode) : Matched types s s :=
  ⟨⟨s.planner.arena.activeAllocs, rfl⟩, h, h, hstarts, hactive⟩

/-- A batch ends in one state, whether it purged or recalculated. -/
theorem Matched.execute {tensors : PlannerTensors} {lastNode : Int} (h : Matched types s s')
    (hkeeps : s.Keeps types numExecutionNodes (.executeAllocations tensors lastNode))
    (hneutral : s.Neutral types numExecutionNodes (.executeAllocations tensors lastNode))
    {p' : ArenaPlanner} (hok : s.planner.executeAllocations order (shrinkActive s.next) tensors
      numExecutionNodes s.next lastNode = .ok p') (recalculates : Bool) :
    ∃ p'', s'.planner.executeAllocations order (fun p : ArenaPlanner =>
        if recalculates then (shrinkActive s.next p).recalculate offsets s.next
        else shrinkActive s.next p) tensors numExecutionNodes s.next lastNode = .ok p'' ∧
      Matched types ⟨p', lastNode + 1⟩ ⟨p'', lastNode + 1⟩ := by
  obtain ⟨⟨l, rfl⟩, hleft, hright, hstarts, hactive⟩ := h
  obtain ⟨htypes, hle, htables, hnodes, hclear⟩ := hkeeps
  obtain ⟨hpersistent, hdistinct, hends⟩ := hneutral
  have hsucc : s.next ≤ lastNode + 1 := Int.le_trans hle (Int.le_add_one (Int.le_refl lastNode))
  have hlen : ¬ tensors.numTensors < s.planner.allocs.length := by
    intro hlt
    unfold executeAllocations at hok
    rw [if_pos hlt] at hok
    cases hok
  have hexact := @ArenaPlanner.Exact.setTemporaries _ tensors _ _ numExecutionNodes lastNode hleft
    htables
  have hexact' : ((s.planner.setTemporaries tensors numExecutionNodes s.next
      lastNode).withActive l).Exact types s.next := by
    rw [← setTemporaries_withActive]
    refine @ArenaPlanner.Exact.setTemporaries _ tensors _ _ _ _ hright fun t alloc ht => ?_
    rw [setTemporaries_withActive]
    exact htables t alloc ht
  obtain ⟨-, hallocs, -, hlast⟩ := @ArenaPlanner.setTemporaries_spec tensors s.planner
      numExecutionNodes s.next lastNode
  have hbefore : (s.planner.setTemporaries tensors numExecutionNodes s.next
      lastNode).StartsBefore types s.next :=
    fun t alloc ht => hstarts t alloc (current_setTemporaries.1 ht)
  have hcalculate : s.planner.executeAllocations order (shrinkActive s.next) tensors
      numExecutionNodes s.next lastNode = (s.planner.setTemporaries tensors numExecutionNodes
        s.next lastNode).calculateAllocations order (shrinkActive s.next) tensors s.next
          lastNode := if_neg hlen
  rw [hcalculate] at hok
  have hgrown : (s.planner.setTemporaries tensors numExecutionNodes s.next
      lastNode).allocs.length = tensors.numTensors := by
    rw [hallocs, length_append, length_replicate]
    omega
  have hforeign : ∀ t alloc, types t = .arenaRwPersistent → (s.planner.setTemporaries tensors
      numExecutionNodes s.next lastNode).allocs[t]? = some alloc → alloc.size ≠ 0 →
      s.next < alloc.firstNode := by
    intro t alloc htype hget hsize
    rw [hallocs] at hget
    rcases Nat.lt_or_ge t s.planner.allocs.length with hlt | hge
    · rw [getElem?_append_left hlt] at hget
      exact hpersistent t alloc htype hget hsize
    · rw [getElem?_append_right hge] at hget
      have hunused := eq_of_mem_replicate (mem_of_getElem? hget)
      rw [hunused] at hsize
      exact absurd rfl hsize
  obtain ⟨p'', hok', hsame, hexact₁, hexact₂, hbound, hnode⟩ := @ArenaPlanner.Exact.calculate _ _ _
      _ _ _ _ _ offsets hexact hexact' hbefore
      (fun hlt hne t alloc ht => hclear (hlast ▸ hlt) hne t alloc (current_setTemporaries.1 ht))
      hforeign htypes ⟨hdistinct, fun t ht => hgrown ▸ (hends t ht).1,
      fun t ht htype => ⟨hnodes t ht htype, Int.lt_add_one_of_le ((hends t ht).2 htype)⟩,
      fun t ht => mem_tensorsAllocated ht⟩ hle hok recalculates
  refine ⟨p'', ?_, hsame.imp fun l' heq => ?_, hexact₁, hexact₂, hbound, ?_⟩
  · rw [← hok', ← setTemporaries_withActive]
    exact if_neg hlen
  · rw [heq]
  · show lastNode + 1 - 1 ≤ p'.lastActiveNode
    omega

theorem Matched.step (h : Matched types s s') (hkeeps : s.Keeps types numExecutionNodes call)
    (hneutral : s.Neutral types numExecutionNodes call)
    (hstep : s.step offsets order numExecutionNodes (call, false) = some s₁)
    (recalculates : Bool) :
    ∃ s₂, s'.step offsets order numExecutionNodes (call, recalculates) = some s₂ ∧
      Matched types s₁ s₂ := by
  cases call with
  | executeAllocations tensors lastNode =>
    unfold Planning.step at hstep ⊢
    simp only [Bool.false_eq_true, if_false] at hstep
    dsimp only at hstep ⊢
    cases hok : s.planner.executeAllocations order (shrinkActive s.next) tensors
        numExecutionNodes s.next lastNode with
    | error fault =>
      rw [hok] at hstep
      cases hstep
    | ok p' =>
      rw [hok] at hstep
      cases hstep
      have hnext : s'.next = s.next := by
        obtain ⟨l, rfl⟩ := h.same
        rfl
      obtain ⟨p'', hok', hmatched⟩ := h.execute hkeeps hneutral hok recalculates
      rw [hnext, hok']
      exact ⟨_, rfl, hmatched⟩
  | resetAllocationsAfter tensors node =>
    cases hstep
    refine ⟨_, rfl, ?_⟩
    obtain ⟨⟨l, rfl⟩, hleft, hright, hstarts, hactive⟩ := h
    obtain ⟨htypes, hnode, -⟩ := hkeeps
    obtain ⟨hpersistent, hended⟩ := hneutral
    obtain ⟨l', hsame⟩ := @ArenaPlanner.resetAllocationsAfter_withActive tensors s.planner l offsets
        node recalculates
    refine ⟨⟨l', ?_⟩, ?_, ?_, fun t alloc ht => ?_, ?_⟩
    · exact congrArg (fun p => Planning.mk p (min s.next (node + 1))) hsame
    · exact hleft.resetAllocationsAfter htypes hactive hnode hpersistent hended false
    · exact hright.resetAllocationsAfter htypes hactive hnode hpersistent hended recalculates
    · have hold := (current_resetAllocs (p := s.planner) htypes rfl).1 ht
      have hfirst := hstarts t alloc hold.1
      exact lt_min hfirst (Int.lt_add_one_of_le hold.2)
    · show min s.next (node + 1) - 1 ≤ node
      omega

/-- A run of the code and one that recalculates at will pass through matching states. -/
theorem Matched.run {calls : List (PlanningCall × Bool)} (h : Matched types s s')
    (hrun : Run (fun s call => Keeps types numExecutionNodes s call.1 ∧
      Neutral types numExecutionNodes s call.1) (Planning.step offsets order numExecutionNodes) s
        (asCoded calls) s₁) :
    ∃ s₂, Run (fun _ _ => True) (Planning.step offsets order numExecutionNodes) s' calls s₂ ∧
      Matched types s₁ s₂ := by
  induction calls generalizing s s' with
  | nil =>
    cases hrun
    exact ⟨s', .nil s', h⟩
  | cons call calls ih =>
    cases hrun with
    | cons hguard hstep hrest =>
      obtain ⟨s₂, hstep', hmatched⟩ := h.step hguard.1 hguard.2 hstep call.2
      obtain ⟨s₃, hrun', hmatched'⟩ := ih hmatched hrest
      exact ⟨s₃, .cons trivial hstep' hrun', hmatched'⟩

end Planning

end LiteRt.Tflite
