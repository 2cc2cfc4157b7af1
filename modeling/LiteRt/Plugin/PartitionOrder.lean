import LiteRt.Plugin.DisjointSets
import LiteRt.Plugin.ExecutionRuns
import Mathlib.Combinatorics.SimpleGraph.Connectivity.Connected

/-!
# When partitioning keeps the op list in order

Both strategies outline disjoint islands one after the other. The root stays in order
when every block ends behind the blocks it reads from, no freed op is outlined, and no
constant output becomes a result of two dispatch ops. Islands that are runs always end
in order; connected islands need not.
-/

namespace LiteRt.Plugin

open LiteRt.Lib LiteRt.Model List

/-- Partitioning goes through and leaves the op list in order, for every iteration
order of the hash maps. -/
def KeepsExecutable (strategy : PartitionStrategy) (g : Ir) (root : Subgraph)
    (sel : List OpWithPartitionIndex) : Prop :=
  ∀ order mgr, ∃ r, partitionSubgraph strategy order mgr g root sel = some r ∧ r.2.1.Executable r.1

/-- The condition for islands that are runs in execution order. -/
structure RunsInOrder (g : Ir) (root : Subgraph) (sel : List OpWithPartitionIndex) : Prop where
  dead : ∀ d ∈ root.ops, Grouped sel d → isOpDead (g.op d) → ∀ s ∈ root.ops, Grouped sel s →
    root.ops.idxOf s < root.ops.idxOf d → OneRun sel root s d
  constants : ∀ t ∈ root.outputs, isConstant (g.tensor t) → ∀ a ∈ root.ops, Grouped sel a →
    t ∈ (g.op a).inputs → ∀ b ∈ root.ops, Grouped sel b → t ∈ (g.op b).inputs → OneRun sel root a b

/-- The op of the island of `a` that the plugin lists last, `a` itself when it is in none. -/
def LastListed (g : Ir) (sel : List OpWithPartitionIndex) (a b : OpId) : Prop :=
  Linked g sel a b ∧ ∀ c, Linked g sel a c → (sel.map Prod.fst).idxOf c ≤ (sel.map Prod.fst).idxOf b

/-- The condition for connected islands. -/
structure ClassesInOrder (g : Ir) (root : Subgraph) (sel : List OpWithPartitionIndex) : Prop where
  dead : ∀ d ∈ sel.map Prod.fst, isOpDead (g.op d) → ∀ s ∈ sel.map Prod.fst, s = d
  constants : ∀ t ∈ root.outputs, isConstant (g.tensor t) → ∀ a ∈ sel.map Prod.fst,
    t ∈ (g.op a).inputs → ∀ b ∈ sel.map Prod.fst, t ∈ (g.op b).inputs → Linked g sel a b
  edges : ∀ a ∈ root.ops, ∀ b, g.DependsOn a b → ¬ Linked g sel a b →
    ∀ a' b', LastListed g sel a a' → LastListed g sel b b' → root.ops.idxOf b' < root.ops.idxOf a'

/-- Islands as the classes of a relation on the ops with `p`. -/
structure IslandClasses (p : OpId → Prop) (Same : OpId → OpId → Prop)
    (islands : List (List OpId)) : Prop where
  mem : ∀ I ∈ islands, ∀ a ∈ I, p a
  cover : ∀ a, p a → ∃ I ∈ islands, a ∈ I
  same_iff : ∀ I ∈ islands, ∀ J ∈ islands, ∀ a ∈ I, ∀ b ∈ J, Same a b ↔ I = J

theorem IslandClasses.constants_iff {p : OpId → Prop} {Same : OpId → OpId → Prop}
    {root : Subgraph} {islands : List (List OpId)} (h : IslandClasses p Same islands)
    (hislands : Islands root islands) {g : Ir} :
    (islands.Pairwise fun I J => ∀ t ∈ root.outputs, isConstant (g.tensor t) →
        readBy g I t → ¬ readBy g J t) ↔
      ∀ t ∈ root.outputs, isConstant (g.tensor t) → ∀ a, p a → t ∈ (g.op a).inputs →
        ∀ b, p b → t ∈ (g.op b).inputs → Same a b := by
  constructor
  · intro hpair t ht hc a ha hta b hb htb
    obtain ⟨I, hI, haI⟩ := h.cover a ha
    obtain ⟨J, hJ, hbJ⟩ := h.cover b hb
    refine (h.same_iff I hI J hJ a haI b hbJ).mpr ?_
    have : Std.Symm fun I J : List OpId => ∀ t ∈ root.outputs, isConstant (g.tensor t) →
        readBy g I t → ¬ readBy g J t := ⟨fun I J h t ht hc hJ hI => h t ht hc hI hJ⟩
    by_contra hne
    exact hpair.forall hI hJ hne t ht hc ⟨a, haI, hta⟩ ⟨b, hbJ, htb⟩
  · intro hall
    refine hislands.disjoint.imp_of_mem fun {I J} hI hJ hdisj t ht hc => ?_
    rintro ⟨a, ha, hta⟩ ⟨b, hb, htb⟩
    have hs := hall t ht hc a (h.mem I hI a ha) hta b (h.mem J hJ b hb) htb
    obtain rfl := (h.same_iff I hI J hJ a ha b hb).mp hs
    exact hdisj a ha ha

/-! ## Runs in execution order -/

section
variable {g : Ir} {root : Subgraph} {sel : List OpWithPartitionIndex} {segs : List (List OpId)}
  (hsegs : Segments (partitionIndex sel) root.ops segs) (hnd : root.ops.Nodup)

include hsegs hnd

theorem islands_runs : Islands root (segs.filter (isGrouped sel)) := by
  obtain ⟨hin, hacross⟩ := hsegs.sorted hnd
  constructor
  · intro I hI
    refine (hin I (mem_of_mem_filter hI)).imp fun hlt he => ?_
    rw [he] at hlt
    exact Nat.lt_irrefl _ hlt
  · exact fun I hI => hsegs.ne_nil I (mem_of_mem_filter hI)
  · exact fun I hI o ho => hsegs.mem_of_segment (mem_of_mem_filter hI) ho
  · exact (hacross.filter _).imp fun hlt o ho ho' => Nat.lt_irrefl _ (hlt o ho o ho')

omit hnd in
theorem grouped_iff {s : List OpId} (hs : s ∈ segs) {a : OpId} (ha : a ∈ s) :
    isGrouped sel s = true ↔ Grouped sel a :=
  isGrouped_iff (hsegs.ne_nil s hs) fun o ho => hsegs.const s hs o ho a ha

theorem islandClasses_runs : IslandClasses (fun a => a ∈ root.ops ∧ Grouped sel a)
    (OneRun sel root) (segs.filter (isGrouped sel)) where
  mem I hI a ha := by
    obtain ⟨hs, hg⟩ := mem_filter.mp hI
    exact ⟨hsegs.mem_of_segment hs ha, (grouped_iff hsegs hs ha).mp hg⟩
  cover a ha := by
    obtain ⟨s, hs, has⟩ := hsegs.exists_segment ha.1
    exact ⟨s, mem_filter.mpr ⟨hs, (grouped_iff hsegs hs has).mpr ha.2⟩, has⟩
  same_iff I hI J hJ _ ha _ hb := hsegs.sameRun_iff hnd (mem_of_mem_filter hI)
    (mem_of_mem_filter hJ) ha hb

/-- A run ends within itself, so blocks keep the order of their ops. -/
theorem blockEnd_lt_of_runs {a b : OpId} (ha : a ∈ root.ops) (hb : b ∈ root.ops)
    (hlt : root.ops.idxOf b < root.ops.idxOf a)
    (hne : blockEnd (segs.filter (isGrouped sel)) a ≠ blockEnd (segs.filter (isGrouped sel)) b) :
    root.ops.idxOf (blockEnd (segs.filter (isGrouped sel)) b) <
      root.ops.idxOf (blockEnd (segs.filter (isGrouped sel)) a) := by
  have hislands := islands_runs hsegs hnd
  -- the end of an op's block lies in the run of the op
  have hend {x : OpId} {s : List OpId} (hs : s ∈ segs) (hx : x ∈ s) :
      (isGrouped sel s = true → ∃ hne, blockEnd (segs.filter (isGrouped sel)) x = s.getLast hne) ∧
      (isGrouped sel s = false → blockEnd (segs.filter (isGrouped sel)) x = x) := by
    refine ⟨fun hg => ⟨hsegs.ne_nil s hs, ?_⟩, fun hg => ?_⟩
    · exact blockEnd_of_mem hislands.disjoint (mem_filter.mpr ⟨hs, hg⟩) _ hx
    · refine blockEnd_of_forall_not_mem fun I hI hxI => ?_
      obtain ⟨hI, hgI⟩ := mem_filter.mp hI
      rw [(grouped_iff hsegs hI hxI), ← grouped_iff hsegs hs hx, hg] at hgI
      cases hgI
  have hmem {x : OpId} {s : List OpId} (hs : s ∈ segs) (hx : x ∈ s) :
      blockEnd (segs.filter (isGrouped sel)) x ∈ s := by
    cases hg : isGrouped sel s with
    | true =>
      obtain ⟨hne, he⟩ := (hend hs hx).1 hg
      rw [he]
      exact getLast_mem hne
    | false => rwa [(hend hs hx).2 hg]
  obtain ⟨s, hs, has⟩ := hsegs.exists_segment ha
  obtain ⟨s', hs', hbs⟩ := hsegs.exists_segment hb
  by_cases he : s = s'
  · subst he
    cases hg : isGrouped sel s with
    | true =>
      obtain ⟨_, hea⟩ := (hend hs has).1 hg
      obtain ⟨_, heb⟩ := (hend hs hbs).1 hg
      exact absurd (hea.trans heb.symm) hne
    | false =>
      rw [(hend hs has).2 hg, (hend hs hbs).2 hg]
      exact hlt
  · rcases hsegs.lt_or_lt hnd hs hs' he with h | h
    · exact absurd (h a has b hbs) (Nat.lt_asymm hlt)
    · exact h _ (hmem hs has) _ (hmem hs' hbs)

/-- An island after the first one has no dead op. -/
theorem dead_runs_iff : (∀ I ∈ (segs.filter (isGrouped sel)).tail, ∀ o ∈ I, ¬ isOpDead (g.op o)) ↔
    ∀ d ∈ root.ops, Grouped sel d → isOpDead (g.op d) → ∀ s ∈ root.ops, Grouped sel s →
      root.ops.idxOf s < root.ops.idxOf d → OneRun sel root s d := by
  have hcls := islandClasses_runs hsegs hnd
  have hpair : (segs.filter (isGrouped sel)).Pairwise fun s s' => ∀ a ∈ s, ∀ b ∈ s',
      root.ops.idxOf a < root.ops.idxOf b := (hsegs.sorted hnd).2.filter _
  constructor
  · intro hall d hd hgd hdead s hs hgs hlt
    obtain ⟨D, hD, hdD⟩ := hcls.cover d ⟨hd, hgd⟩
    obtain ⟨S, hS, hsS⟩ := hcls.cover s ⟨hs, hgs⟩
    refine (hcls.same_iff S hS D hD s hsS d hdD).mpr ?_
    by_contra hne
    cases hislands : segs.filter (isGrouped sel) with
    | nil =>
      rw [hislands] at hD
      cases hD
    | cons H rest =>
      rw [hislands] at hD hS hpair hall
      rcases mem_cons.mp hD with rfl | hD
      · have := rel_of_pairwise_cons hpair ((mem_cons.mp hS).resolve_left hne) d hdD s hsS
        exact Nat.lt_asymm hlt this
      · exact hall D hD d hdD hdead
  · intro hall I hI o ho hdead
    cases hislands : segs.filter (isGrouped sel) with
    | nil =>
      rw [hislands] at hI
      cases hI
    | cons H rest =>
      have hH : H ∈ segs.filter (isGrouped sel) := by simp [hislands]
      have hIm : I ∈ segs.filter (isGrouped sel) := mem_of_mem_tail hI
      rw [hislands, tail_cons] at hI
      obtain ⟨x, hx⟩ := exists_mem_of_ne_nil H (hsegs.ne_nil H (mem_of_mem_filter hH))
      rw [hislands] at hpair
      have hbefore := rel_of_pairwise_cons hpair hI
      obtain ⟨hxr, hxg⟩ := hcls.mem H hH x hx
      obtain ⟨hor, hog⟩ := hcls.mem I hIm o ho
      have hrun := hall o hor hog hdead x hxr hxg (hbefore x hx o ho)
      obtain rfl := (hcls.same_iff H hH I hIm x hx o ho).mp hrun
      exact Nat.lt_irrefl _ (hbefore x hx x hx)

end

section
variable {g : Ir} {root : Subgraph} (hr : WellFormedRoot g root)

include hr

/-- An op reads from ops in front of it. -/
theorem idxOf_lt_of_dependsOn (hex : root.Executable g) {a b : OpId} (ha : a ∈ root.ops)
    (hd : g.DependsOn a b) : b ∈ root.ops ∧ root.ops.idxOf b < root.ops.idxOf a := by
  have hb : b ∈ root.ops := by
    obtain ⟨t, ht, hd⟩ := hd
    exact hr.wf.definers t (hr.wf.operands a ha t ht) b hd
  have htopo := ((executable_iff hr.wf fun t ht _ => hr.inputs_undefined t ht).mp hex).1
  exact ⟨hb, (Topological.iff_idxOf hr.wf.ops_nodup).mp htopo a ha b hb
    ((hr.dataDep_iff ha).mpr hd)⟩

theorem keepsExecutable_default_iff (hex : root.Executable g) (sel : List OpWithPartitionIndex) :
    KeepsExecutable .default g root sel ↔ RunsInOrder g root sel := by
  obtain ⟨segs, hsegs, hislands⟩ := groupPartitionsV2_spec sel root
  have hnd := hr.wf.ops_nodup
  have hrun (mgr : Option ManagerId) :=
    outlineIslands_executable_iff hr hex (islands_runs hsegs hnd) mgr
  have hcls := islandClasses_runs hsegs hnd
  have hedges : ∀ a ∈ root.ops, ∀ b, g.DependsOn a b →
      blockEnd (segs.filter (isGrouped sel)) a ≠ blockEnd (segs.filter (isGrouped sel)) b →
      root.ops.idxOf (blockEnd (segs.filter (isGrouped sel)) b) <
        root.ops.idxOf (blockEnd (segs.filter (isGrouped sel)) a) := by
    intro a ha b hd hne
    obtain ⟨hb, hlt⟩ := idxOf_lt_of_dependsOn hr hex ha hd
    exact blockEnd_lt_of_runs hsegs hnd ha hb hlt hne
  have hconst := hcls.constants_iff (islands_runs hsegs hnd) (g := g)
  constructor
  · intro h
    obtain ⟨r, hpart, hexr⟩ :=
      h ⟨fun l => l, fun l => l, fun _ => .refl _, fun _ => .refl _⟩ none
    simp only [partitionSubgraph, hislands] at hpart
    obtain ⟨hdead, hpair, -⟩ := (hrun none).mp ⟨r, hpart, hexr⟩
    refine ⟨(dead_runs_iff hsegs hnd).mp hdead, fun t ht hc a ha hga hta b hb hgb htb => ?_⟩
    exact hconst.mp hpair t ht hc a ⟨ha, hga⟩ hta b ⟨hb, hgb⟩ htb
  · intro h order mgr
    simp only [partitionSubgraph, hislands]
    refine (hrun mgr).mpr ⟨(dead_runs_iff hsegs hnd).mpr h.dead, hconst.mpr ?_, hedges⟩
    exact fun t ht hc a ha hta b hb htb => h.constants t ht hc a ha.1 ha.2 hta b hb.1 hb.2 htb

end

/-! ## Connected islands -/

section
variable {g : Ir} {sel : List OpWithPartitionIndex}

theorem linked_of_not_mem {a b : OpId} (h : Linked g sel a b) (ha : a ∉ sel.map Prod.fst) :
    a = b := by
  refine eqvGen_isolated (S := (· ∉ sel.map Prod.fst)) (fun x y hxy => ?_) h (.inl ha)
  obtain ⟨⟨i, hx, hy⟩, -⟩ := hxy
  exact ⟨not_not.mpr (mem_map_of_mem (f := Prod.fst) hx),
    not_not.mpr (mem_map_of_mem (f := Prod.fst) hy)⟩

theorem linked_of_dead {root : Subgraph} (hwf : root.WellFormed g) {d b : OpId}
    (hd : d ∈ root.ops) (hdead : isOpDead (g.op d)) (h : Linked g sel d b) : d = b := by
  obtain ⟨hin, hout⟩ := isOpDead_iff.mp hdead
  refine eqvGen_isolated (S := (· = d)) (fun x y hxy => ?_) h (.inl rfl)
  obtain ⟨-, t, ht, hdef⟩ := hxy
  constructor
  · rintro rfl
    rw [← (hwf.edges x hd).mem_outputs_iff, hout] at hdef
    cases hdef
  · rintro rfl
    rw [hin] at ht
    cases ht

section
variable {islands : List (List OpId)} (hclass : ∀ I ∈ islands, IsLinkedClass g sel I)
  (hcover : ∀ a ∈ sel.map Prod.fst, ∃ I ∈ islands, a ∈ I)
  (hdisj : islands.Pairwise fun I J => ∀ o ∈ I, o ∉ J)

include hclass hcover hdisj

omit hcover in
theorem islands_linked {root : Subgraph} (hsel : ∀ p ∈ sel, p.1 ∈ root.ops) :
    Islands root islands where
  nodup I hI := (hclass I hI).sorted.imp fun hlt he => by
    rw [he] at hlt
    exact Nat.lt_irrefl _ hlt
  ne_nil I hI := (hclass I hI).ne_nil
  subset I hI o ho := by
    obtain ⟨p, hp, rfl⟩ := mem_map.mp ((hclass I hI).selected o ho)
    exact hsel p hp
  disjoint := hdisj

theorem islandClasses_linked :
    IslandClasses (· ∈ sel.map Prod.fst) (Linked g sel) islands where
  mem I hI := (hclass I hI).selected
  cover := hcover
  same_iff I hI J hJ a ha b hb := by
    rw [← (hclass I hI).mem_iff a ha b]
    exact ⟨fun hbI => eq_of_mem_islands hdisj hI hJ hbI hb, fun he => he ▸ hb⟩

theorem lastListed_iff (a b : OpId) : LastListed g sel a b ↔ blockEnd islands a = b := by
  by_cases ha : a ∈ sel.map Prod.fst
  · obtain ⟨I, hI, haI⟩ := hcover a ha
    have hc := hclass I hI
    rw [blockEnd_of_mem hdisj hI hc.ne_nil haI]
    have hlast := getLast_mem hc.ne_nil
    have hmax : ∀ c ∈ I, (sel.map Prod.fst).idxOf c ≤
        (sel.map Prod.fst).idxOf (I.getLast hc.ne_nil) := by
      intro c hcI
      have hs := hc.sorted
      rw [← dropLast_append_getLast hc.ne_nil] at hcI hs
      rcases mem_append.mp hcI with hcI | hcI
      · exact Nat.le_of_lt ((pairwise_append.mp hs).2.2 c hcI _ (by simp))
      · rw [mem_singleton.mp hcI]
    constructor
    · rintro ⟨hb, hmaxb⟩
      have hbI := (hc.mem_iff a haI b).mpr hb
      have h1 := hmaxb _ ((hc.mem_iff a haI _).mp hlast)
      exact (idxOf_inj (hc.selected _ hlast)).mp (Nat.le_antisymm h1 (hmax b hbI))
    · rintro rfl
      exact ⟨(hc.mem_iff a haI _).mp hlast, fun c hc' => hmax c ((hc.mem_iff a haI c).mpr hc')⟩
  · rw [blockEnd_of_forall_not_mem fun I hI haI => ha ((hclass I hI).selected a haI)]
    constructor
    · exact fun h => linked_of_not_mem h.1 ha
    · rintro rfl
      exact ⟨.refl _, fun c hc => by rw [linked_of_not_mem hc ha]⟩

theorem blockEnd_eq_iff (a b : OpId) :
    blockEnd islands a = blockEnd islands b ↔ Linked g sel a b := by
  have hl := lastListed_iff hclass hcover hdisj
  constructor
  · intro he
    have ha := ((hl a _).mpr rfl).1
    rw [he] at ha
    exact ha.trans _ _ _ ((hl b _).mpr rfl).1.symm
  · intro hab
    rw [← hl]
    obtain ⟨hb, hmax⟩ := (hl b _).mpr rfl
    exact ⟨hab.trans _ _ _ hb, fun c hc => hmax c (hab.symm.trans _ _ _ hc)⟩

end

end

section
variable {g : Ir} {root : Subgraph} (hr : WellFormedRoot g root) {sel : List OpWithPartitionIndex}
  (hone : OneIndex sel) (hsel : ∀ p ∈ sel, p.1 ∈ root.ops)

include hr hone hsel

/-- For some iteration order a dead op is outlined last. -/
theorem dead_linked_iff : (∀ order islands, groupPartitions order g sel = some islands →
      ∀ I ∈ islands.tail, ∀ o ∈ I, ¬ isOpDead (g.op o)) ↔
    ∀ d ∈ sel.map Prod.fst, isOpDead (g.op d) → ∀ s ∈ sel.map Prod.fst, s = d := by
  constructor
  · intro hall d hd hdead s hs
    obtain ⟨⟨d, i⟩, hdi, rfl⟩ := mem_map.mp hd
    obtain ⟨islands, he, hlast⟩ := groupPartitions_lastOrder hr.wf hone hsel hdi
      fun b hb => (linked_of_dead hr.wf (hsel _ hdi) hdead hb).symm
    obtain ⟨islands', he', -, hcover, -⟩ := groupPartitions_spec hr.wf hone hsel (lastOrder i d)
    rw [he] at he'
    cases he'
    obtain ⟨I, hI, hsI⟩ := hcover s hs
    by_contra hne
    cases islands with
    | nil => cases hI
    | cons H rest =>
      have hd' : [d] ∈ rest := by
        cases rest with
        | nil =>
          rw [getLast?_singleton, Option.some.injEq] at hlast
          rw [mem_singleton.mp hI, hlast] at hsI
          exact absurd (mem_singleton.mp hsI) hne
        | cons J rest =>
          rw [getLast?_cons_cons] at hlast
          exact mem_of_getLast? hlast
      exact hall _ _ he [d] hd' d (by simp) hdead
  · intro hall order islands he I hI o ho hdead
    obtain ⟨islands', he', hclass, hcover, hdisj⟩ := groupPartitions_spec hr.wf hone hsel order
    rw [he] at he'
    cases he'
    cases islands with
    | nil => cases hI
    | cons H rest =>
      obtain ⟨x, hx⟩ := exists_mem_of_ne_nil H (hclass H (by simp)).ne_nil
      have hIc := hclass I (mem_cons_of_mem H hI)
      obtain rfl := hall o (hIc.selected o ho) hdead x ((hclass H (by simp)).selected x hx)
      exact rel_of_pairwise_cons hdisj hI x hx ho

theorem keepsExecutable_weaklyConnected_iff (hex : root.Executable g) :
    KeepsExecutable .weaklyConnected g root sel ↔ ClassesInOrder g root sel := by
  have hspec := groupPartitions_spec hr.wf hone hsel
  have hrun {islands : List (List OpId)} (hclass : ∀ I ∈ islands, IsLinkedClass g sel I)
      (hcover : ∀ a ∈ sel.map Prod.fst, ∃ I ∈ islands, a ∈ I)
      (hdisj : islands.Pairwise fun I J => ∀ o ∈ I, o ∉ J) (mgr : Option ManagerId) :=
    outlineIslands_executable_iff hr hex (islands_linked hclass hdisj hsel) mgr
  have hdeadiff := dead_linked_iff hr hone hsel
  constructor
  · intro h
    have hall (order : HashOrder) (islands : List (List OpId))
        (he : groupPartitions order g sel = some islands) : ∃ s,
        outlineIslands none g root islands = some s ∧ s.2.1.Executable s.1 := by
      obtain ⟨r, hr, hexr⟩ := h order none
      simp only [partitionSubgraph, he] at hr
      exact ⟨r, hr, hexr⟩
    obtain ⟨islands, he, hclass, hcover, hdisj⟩ :=
      hspec ⟨fun l => l, fun l => l, fun _ => .refl _, fun _ => .refl _⟩
    obtain ⟨-, hpair, hedges⟩ := (hrun hclass hcover hdisj none).mp (hall _ _ he)
    refine ⟨hdeadiff.mp fun order islands he => ?_, ?_, fun a ha b hd hn a' b' ha' hb' => ?_⟩
    · obtain ⟨islands', he', hclass, hcover, hdisj⟩ := hspec order
      rw [he] at he'
      cases he'
      exact ((hrun hclass hcover hdisj none).mp (hall _ _ he)).1
    · exact (islandClasses_linked hclass hcover hdisj).constants_iff
        (islands_linked hclass hdisj hsel) |>.mp hpair
    · rw [lastListed_iff hclass hcover hdisj] at ha' hb'
      rw [← ha', ← hb']
      exact hedges a ha b hd fun he => hn ((blockEnd_eq_iff hclass hcover hdisj a b).mp he)
  · intro h order mgr
    obtain ⟨islands, he, hclass, hcover, hdisj⟩ := hspec order
    have hl := lastListed_iff hclass hcover hdisj
    simp only [partitionSubgraph, he]
    refine (hrun hclass hcover hdisj mgr).mpr ⟨hdeadiff.mpr h.dead order islands he, ?_, ?_⟩
    · exact (islandClasses_linked hclass hcover hdisj).constants_iff
        (islands_linked hclass hdisj hsel) |>.mpr h.constants
    · intro a ha b hd hne
      exact h.edges a ha b hd (fun hab => hne ((blockEnd_eq_iff hclass hcover hdisj a b).mpr hab))
        _ _ ((hl a _).mpr rfl) ((hl b _).mpr rfl)

end

/-! ## Both strategies -/

/-- The last op reads the results of the other two. -/
def triangle : Ir :=
  .ofOps [{ inputs := [0], outputs := [1] }, { inputs := [1], outputs := [2] },
    { inputs := [1, 2], outputs := [3] }] 4 fun _ => {}

def triangleRoot : Subgraph where
  tensors := List.range 4
  ops := List.range 3
  inputs := [0]
  outputs := [3]
  bufferManager := some 0

theorem triangle_wellFormedRoot : WellFormedRoot triangle triangleRoot where
  closed := Ir.ofOps_closed (by decide) (by decide)
  wf := Subgraph.ofOps_wellFormed (by decide) rfl rfl (by decide) (by decide) (by decide)
  alloc := ⟨fun _ => mem_range.mp, fun _ => mem_range.mp⟩
  inputs_undefined t ht := by
    rw [mem_singleton.mp ht]
    rfl
  constants_undefined t _ hc := by simp [triangle, isConstant, Ir.ofOps] at hc

theorem triangle_executable : triangleRoot.Executable triangle := by
  have htopo : triangle.TopoOrder triangleRoot.ops := ⟨by decide, by decide⟩
  refine (executable_iff triangle_wellFormedRoot.wf fun t ht _ =>
    triangle_wellFormedRoot.inputs_undefined t ht).mpr ⟨?_, by decide⟩
  exact htopo.mono fun a _ b _ hd => hd.2.imp fun t ht => ⟨ht.1, ht.2.2⟩

/-- The listed ops, with an edge between an op and a user of one of its outputs. -/
def useGraph (g : Ir) (ops : List OpId) : SimpleGraph { o // o ∈ ops } where
  Adj a b := a ≠ b ∧ (g.DependsOn b a ∨ g.DependsOn a b)
  symm := ⟨fun _ _ h => ⟨h.1.symm, h.2.symm⟩⟩
  loopless := ⟨fun _ h => h.1 rfl⟩

/-- The list holds the ops of a component, each once. -/
structure Lists {g : Ir} {ops : List OpId} (I : List OpId)
    (C : (useGraph g ops).ConnectedComponent) : Prop where
  nodup : I.Nodup
  mem_iff : ∀ o, o ∈ I ↔ ∃ h : o ∈ ops, (useGraph g ops).connectedComponentMk ⟨o, h⟩ = C

section
variable {g : Ir} {ops : List OpId}

theorem eqvGen_of_reachable {a b : { o // o ∈ ops }} (h : (useGraph g ops).Reachable a b) :
    Relation.EqvGen (Adjacent g ops) a b := by
  rw [SimpleGraph.reachable_iff_reflTransGen] at h
  induction h with
  | refl => exact .refl _
  | tail _ hadj ih =>
    next b c _ =>
    refine ih.trans _ _ _ ?_
    rcases hadj.2 with hdep | hdep
    · exact .rel _ _ ⟨b.2, c.2, hdep⟩
    · exact .symm _ _ (.rel _ _ ⟨c.2, b.2, hdep⟩)

theorem reachable_of_eqvGen {a b : OpId} (h : Relation.EqvGen (Adjacent g ops) a b)
    (ha : a ∈ ops) (hb : b ∈ ops) : (useGraph g ops).Reachable ⟨a, ha⟩ ⟨b, hb⟩ := by
  suffices hsuff : (a ∈ ops ↔ b ∈ ops) ∧
      ∀ ha hb, (useGraph g ops).Reachable ⟨a, ha⟩ ⟨b, hb⟩ from hsuff.2 ha hb
  clear ha hb
  induction h with
  | rel x y hxy =>
    obtain ⟨hx, hy, hdep⟩ := hxy
    refine ⟨iff_of_true hx hy, fun hx hy => ?_⟩
    by_cases he : x = y
    · subst he
      exact .refl _
    · refine SimpleGraph.Adj.reachable ⟨fun h => he ?_, .inl hdep⟩
      exact congrArg Subtype.val h
  | refl x => exact ⟨.rfl, fun _ _ => .refl _⟩
  | symm x y _ ih => exact ⟨ih.1.symm, fun hy hx => (ih.2 hx hy).symm⟩
  | trans x y z _ _ ih1 ih2 =>
    refine ⟨ih1.1.trans ih2.1, fun hx hz => ?_⟩
    have hy := ih1.1.mp hx
    exact (ih1.2 hx hy).trans (ih2.2 hy hz)

/-- The ops that are linked with an op under its index are those of its component. -/
theorem mem_component_iff {sel : List OpWithPartitionIndex} (hone : OneIndex sel) {i : UInt64}
    {a : OpId} (ha : a ∈ listedUnder sel i) (b : OpId) :
    Linked g sel a b ↔ ∃ h : b ∈ listedUnder sel i,
      (useGraph g (listedUnder sel i)).connectedComponentMk ⟨b, h⟩ =
        (useGraph g (listedUnder sel i)).connectedComponentMk ⟨a, ha⟩ := by
  rw [linked_iff hone ha]
  constructor
  · rintro ⟨hb, h⟩
    exact ⟨hb, SimpleGraph.ConnectedComponent.eq.2 (reachable_of_eqvGen h ha hb).symm⟩
  · rintro ⟨hb, h⟩
    exact ⟨hb, eqvGen_of_reachable (SimpleGraph.ConnectedComponent.eq.1 h).symm⟩

end

/-- The buckets are the components of the graphs of all indices, and each selected op is in exactly
one of them. -/
theorem groupPartitions_components {g : Ir} {root : Subgraph} (hwf : root.WellFormed g)
    {sel : List OpWithPartitionIndex} (hdistinct : (sel.map Prod.fst).Nodup)
    (hsel : ∀ p ∈ sel, p.1 ∈ root.ops) (order : HashOrder) :
    ∃ buckets, groupPartitions order g sel = some buckets ∧
      (∀ I ∈ buckets, ∃ i, ∃ C : (useGraph g (listedUnder sel i)).ConnectedComponent, Lists I C) ∧
      (∀ i, ∀ C : (useGraph g (listedUnder sel i)).ConnectedComponent,
        ∃ I ∈ buckets, Lists I C) ∧
      (buckets.Pairwise fun I J => ∀ o ∈ I, o ∉ J) ∧
      ∀ p ∈ sel, ∃! I, I ∈ buckets ∧ p.1 ∈ I := by
  have hone : OneIndex sel := fun p hp q hq he =>
    congrArg Prod.snd (inj_on_of_nodup_map hdistinct hp hq he)
  obtain ⟨buckets, hrun, hclass, hcover, hdisj⟩ := groupPartitions_spec hwf hone hsel order
  have hlists {I : List OpId} (hI : I ∈ buckets) {i : UInt64} {a : OpId} (haI : a ∈ I)
      (ha : a ∈ listedUnder sel i) :
      Lists I ((useGraph g (listedUnder sel i)).connectedComponentMk ⟨a, ha⟩) := by
    have hc := hclass I hI
    refine ⟨hc.sorted.imp fun hlt he => ?_, fun o => ?_⟩
    · rw [he] at hlt
      exact Nat.lt_irrefl _ hlt
    · rw [hc.mem_iff a haI, mem_component_iff hone ha]
  refine ⟨buckets, hrun, fun I hI => ?_, fun i C => ?_, hdisj, fun p hp => ?_⟩
  · obtain ⟨a, haI⟩ := exists_mem_of_ne_nil I (hclass I hI).ne_nil
    obtain ⟨⟨a', i⟩, hm, rfl⟩ := mem_map.mp ((hclass I hI).selected a haI)
    exact ⟨i, _, hlists hI haI (mem_listedUnder.mpr hm)⟩
  · induction C using SimpleGraph.ConnectedComponent.ind with
    | h v =>
      obtain ⟨a, ha⟩ := v
      obtain ⟨I, hI, haI⟩ := hcover a
        (mem_map_of_mem (f := Prod.fst) (mem_listedUnder.mp ha))
      exact ⟨I, hI, hlists hI haI ha⟩
  · obtain ⟨I, hI, hpI⟩ := hcover p.1 (mem_map_of_mem (f := Prod.fst) hp)
    refine ⟨I, ⟨hI, hpI⟩, fun J hJ => ?_⟩
    have hsymm : Std.Symm fun I J : List OpId => ∀ o ∈ I, o ∉ J :=
      ⟨fun _ _ hxy o hy hx => hxy o hx hy⟩
    by_contra hne
    exact hdisj.forall hJ.1 hI hne p.1 hJ.2 hpI

def insertionOrder : HashOrder where
  partitionMap := id
  invertMap := id
  partitionMap_perm _ := .refl _
  invertMap_perm _ := .refl _

/-- The first and the last op have one index, and the op between them has another one. -/
theorem groupPartitions_components_triangle :
    ∃ buckets, groupPartitions insertionOrder triangle [(0, 7), (1, 3), (2, 7)] = some buckets ∧
      (∀ I ∈ buckets, ∃ i, ∃ C : (useGraph triangle
        (listedUnder [(0, 7), (1, 3), (2, 7)] i)).ConnectedComponent, Lists I C) ∧
      (∀ i, ∀ C : (useGraph triangle
        (listedUnder [(0, 7), (1, 3), (2, 7)] i)).ConnectedComponent, ∃ I ∈ buckets, Lists I C) ∧
      (buckets.Pairwise fun I J => ∀ o ∈ I, o ∉ J) ∧
      ∀ p ∈ ([(0, 7), (1, 3), (2, 7)] : List OpWithPartitionIndex),
        ∃! I, I ∈ buckets ∧ p.1 ∈ I :=
  groupPartitions_components triangle_wellFormedRoot.wf (by decide) (by decide) insertionOrder

end LiteRt.Plugin
