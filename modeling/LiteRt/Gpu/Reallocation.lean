import LiteRt.Gpu.InOrder
import Mathlib.Data.List.GetD
import Mathlib.Data.List.Nodup
import Mathlib.Logic.Relation

/-!
# The reallocation graph

When tasks may run in any order that the dependencies between the tensors allow, a tensor can
take over the memory of another one if it is computed from every tensor that the other one is
used for. `ReallocationGraph` finds these pairs: it searches the dependencies once from each
child of a tensor and counts the visits.
-/

namespace LiteRt.Gpu

open LiteRt.Lib List

section

open Relation

/-- The variables of `BFS`. -/
structure Bfs where
  queue : List Nat
  isVisited : List Bool
  numVisits : List Nat
  deriving DecidableEq, Repr

namespace Bfs

/-- The body of the loop over the children of a vertex. -/
def discover (st : Bfs) (toVertex : Nat) : Bfs :=
  if st.isVisited.getD toVertex true then st
  else
    { queue := st.queue ++ [toVertex]
      isVisited := st.isVisited.set toVertex true
      numVisits := st.numVisits.modify toVertex (· + 1) }

/-- The body of the loop over the queue. -/
def round (depsGraph : UsageGraph) (st : Bfs) : Bfs :=
  match st.queue with
  | [] => st
  | fromVertex :: rest => (depsGraph.getD fromVertex []).foldl discover { st with queue := rest }

def initial (start : Nat) (depsGraph : UsageGraph) (numVisits : List Nat) : Bfs :=
  ⟨[start], (List.replicate depsGraph.length false).set start true, numVisits⟩

/-- No vertex enters the queue twice, so there are at most as many rounds as vertices. -/
def run (start : Nat) (depsGraph : UsageGraph) (numVisits : List Nat) : Bfs :=
  (round depsGraph)^[depsGraph.length] (initial start depsGraph numVisits)

end Bfs

def bfs (start : Nat) (depsGraph : UsageGraph) (numVisits : List Nat) : List Nat :=
  (Bfs.run start depsGraph numVisits).numVisits

/-- How many of the children a vertex was reached from. -/
def numVisits (depsGraph : UsageGraph) (children : List Nat) : List Nat :=
  children.foldl (fun numVisits child => bfs child depsGraph numVisits)
    (List.replicate depsGraph.length 0)

def addEdge (graph : UsageGraph) (root vertex : Nat) : UsageGraph :=
  (graph.modify root (· ++ [vertex])).modify vertex (· ++ [root])

/-- Whether `ReallocationGraph` adds an edge from the root. -/
def reallocates (depsGraph : UsageGraph) (root vertex : Nat) : Bool :=
  let children := depsGraph.getD root []
  !children.isEmpty && (numVisits depsGraph children).getD vertex 0 == children.length

def addEdgesOf (depsGraph : UsageGraph) (graph : UsageGraph) (root : Nat) : UsageGraph :=
  (List.range depsGraph.length).foldl (fun graph vertex =>
    if reallocates depsGraph root vertex then addEdge graph root vertex else graph) graph

def reallocationGraph (depsGraph : UsageGraph) : UsageGraph :=
  ((List.range depsGraph.length).foldl (addEdgesOf depsGraph)
    (List.replicate depsGraph.length [])).map fun adjacent =>
      adjacent.mergeSort fun a b => decide (a ≤ b)

/-- `y` is computed from `x`. -/
def Edge (depsGraph : UsageGraph) (x y : Nat) : Prop :=
  y ∈ depsGraph.getD x []

def TopologicallyNumbered (depsGraph : UsageGraph) : Prop :=
  ∀ x y, Edge depsGraph x y → x < y ∧ y < depsGraph.length

theorem topologicallyNumbered_iff (depsGraph : UsageGraph) :
    TopologicallyNumbered depsGraph ↔ ∀ x < depsGraph.length, ∀ y ∈ depsGraph.getD x [],
      x < y ∧ y < depsGraph.length := by
  refine ⟨fun h x _ y hy => h x y hy, fun h x y hedge => h x ?_ y hedge⟩
  by_contra hlt
  unfold Edge at hedge
  rw [getD_eq_default _ _ (Nat.not_lt.1 hlt)] at hedge
  cases hedge

instance (depsGraph : UsageGraph) : Decidable (TopologicallyNumbered depsGraph) :=
  decidable_of_iff' _ (topologicallyNumbered_iff depsGraph)

/-- `y` is computed, directly or not, from everything that is computed from `x`. -/
def Follows (depsGraph : UsageGraph) (x y : Nat) : Prop :=
  depsGraph.getD x [] ≠ [] ∧ ∀ child ∈ depsGraph.getD x [], TransGen (Edge depsGraph) child y

/-! ## One search -/

section
variable {depsGraph : UsageGraph} {start u v w : Nat} {numVisits₀ todo : List Nat} {st : Bfs}

namespace Bfs

def Visited (st : Bfs) (v : Nat) : Prop :=
  st.isVisited[v]? = some true

instance (st : Bfs) (v : Nat) : Decidable (st.Visited v) :=
  inferInstanceAs (Decidable (_ = _))

/-- Bounds the rounds to come. -/
def remaining (st : Bfs) : Nat :=
  st.queue.length + st.isVisited.count false

/-- The visited vertices are reached from the start. An edge from a visited vertex leads to a
visited one, except that the vertices of the queue are to be searched yet and the edges from
`u` to `todo` are being searched. -/
structure Inv (depsGraph : UsageGraph) (start : Nat) (numVisits₀ : List Nat) (u : Nat)
    (todo : List Nat) (st : Bfs) : Prop where
  lengthVisited : st.isVisited.length = depsGraph.length
  lengthVisits : st.numVisits.length = depsGraph.length
  visitedStart : st.Visited start
  queued : ∀ v ∈ st.queue, st.Visited v
  reached : ∀ v, st.Visited v → ReflTransGen (Edge depsGraph) start v
  closed : ∀ v w, st.Visited v → Edge depsGraph v w → v ∈ st.queue ∨ st.Visited w ∨ v = u ∧ w ∈ todo
  counted : ∀ v, v < depsGraph.length → st.numVisits.getD v 0 =
    numVisits₀.getD v 0 + if st.Visited v ∧ v ≠ start then 1 else 0

theorem Inv.initial (hstart : start < depsGraph.length)
    (hlen : numVisits₀.length = depsGraph.length) :
    Inv depsGraph start numVisits₀ u [] (initial start depsGraph numVisits₀) := by
  have hvisited : ∀ v, (Bfs.initial start depsGraph numVisits₀).Visited v ↔ v = start := by
    intro v
    unfold Visited Bfs.initial
    rw [getElem?_set]
    split
    · rename_i heq
      simp [heq, heq ▸ hstart]
    · rename_i hne
      simp [getElem?_replicate, Ne.symm hne]
  refine ⟨?_, hlen, (hvisited start).2 rfl, ?_, ?_, ?_, ?_⟩
  · simp [Bfs.initial]
  · intro v hv
    exact (hvisited v).2 (mem_singleton.1 hv)
  · intro v hv
    rw [(hvisited v).1 hv]
  · intro v w hv _
    rw [(hvisited v).1 hv]
    exact .inl mem_cons_self
  · intro v _
    rw [if_neg, Nat.add_zero]
    · rfl
    · rintro ⟨hv, hne⟩
      exact hne ((hvisited v).1 hv)

theorem visited_discover (hw : w < st.isVisited.length) :
    (st.discover w).Visited v ↔ st.Visited v ∨ v = w := by
  unfold discover Visited
  split
  · rename_i hvisited
    rw [getD_eq_getElem _ _ hw] at hvisited
    refine ⟨.inl, ?_⟩
    rintro (hv | rfl)
    · exact hv
    · rw [getElem?_eq_getElem hw, hvisited]
  · dsimp only
    rw [getElem?_set]
    split
    · rename_i heq
      simp [← heq, hw]
    · rename_i hne
      simp [Ne.symm hne]

theorem remaining_discover (hw : w < st.isVisited.length) :
    (st.discover w).remaining = st.remaining := by
  unfold discover
  split
  · rfl
  · rename_i hnot
    rw [getD_eq_getElem _ _ hw, Bool.not_eq_true] at hnot
    have hcount : 0 < st.isVisited.count false :=
      count_pos_iff.2 (hnot ▸ getElem_mem hw)
    unfold remaining
    dsimp only
    rw [count_set hw, hnot]
    simp
    omega

theorem Inv.discover (htopo : TopologicallyNumbered depsGraph)
    (h : Inv depsGraph start numVisits₀ u (w :: todo) st) (hu : st.Visited u)
    (hedge : Edge depsGraph u w) : Inv depsGraph start numVisits₀ u todo (st.discover w) := by
  have hlt : w < depsGraph.length := (htopo u w hedge).2
  have hw : w < st.isVisited.length := by rwa [h.lengthVisited]
  have hvisited := fun v => @Bfs.visited_discover v _ st hw
  have hqueue : ∀ v ∈ st.queue, v ∈ (st.discover w).queue := by
    intro v hv
    unfold Bfs.discover
    split
    · exact hv
    · exact mem_append_left _ hv
  refine ⟨?_, ?_, (hvisited start).2 (.inl h.visitedStart), ?_, ?_, ?_, ?_⟩
  · unfold Bfs.discover
    split <;> simp [h.lengthVisited]
  · unfold Bfs.discover
    split <;> simp [h.lengthVisits]
  · intro v hv
    refine (hvisited v).2 ?_
    unfold Bfs.discover at hv
    split at hv
    · exact .inl (h.queued v hv)
    · rcases mem_append.1 hv with hv | hv
      · exact .inl (h.queued v hv)
      · exact .inr (mem_singleton.1 hv)
  · intro v hv
    rcases (hvisited v).1 hv with hv | rfl
    · exact h.reached v hv
    · exact (h.reached u hu).tail hedge
  · intro v x hv hx
    rcases (hvisited v).1 hv with hv' | rfl
    · rcases h.closed v x hv' hx with hin | hin | ⟨rfl, hin⟩
      · exact .inl (hqueue v hin)
      · exact .inr (.inl ((hvisited x).2 (.inl hin)))
      · rcases mem_cons.1 hin with rfl | hin
        · exact .inr (.inl ((hvisited x).2 (.inr rfl)))
        · exact .inr (.inr ⟨rfl, hin⟩)
    · by_cases hold : st.Visited v
      · rcases h.closed v x hold hx with hin | hin | ⟨rfl, hin⟩
        · exact .inl (hqueue v hin)
        · exact .inr (.inl ((hvisited x).2 (.inl hin)))
        · exact absurd (htopo v v hedge).1 (lt_irrefl v)
      · left
        unfold Bfs.discover
        rw [if_neg]
        · exact mem_append_right _ mem_cons_self
        · intro hnot
          rw [getD_eq_getElem _ _ hw] at hnot
          exact hold (List.getElem?_eq_some_iff.2 ⟨hw, hnot⟩)
  · intro v hv
    have hcount := h.counted v hv
    simp only [hvisited v]
    unfold Bfs.discover
    split
    · rename_i hold
      rw [getD_eq_getElem _ _ hw] at hold
      have hold : st.Visited w := List.getElem?_eq_some_iff.2 ⟨hw, hold⟩
      rw [hcount]
      congr 1
      refine if_congr ?_ rfl rfl
      refine and_congr_left fun _ => ⟨.inl, ?_⟩
      rintro (hin | rfl)
      · exact hin
      · exact hold
    · rename_i hold
      have hnot : ¬ st.Visited w := by
        intro hin
        rw [getD_eq_getElem _ _ hw] at hold
        exact hold (List.getElem?_eq_some_iff.1 hin).2
      have hne : w ≠ start := by
        rintro rfl
        exact hnot h.visitedStart
      have hvis : v < st.numVisits.length := by rwa [h.lengthVisits]
      dsimp only
      rw [getD_eq_getElem?_getD, getElem?_modify, getElem?_eq_getElem hvis]
      rw [getD_eq_getElem _ _ hvis] at hcount
      by_cases heq : w = v
      · subst heq
        simp [hcount, hnot, hne]
      · simp [heq, Ne.symm heq, hcount]

theorem Inv.discoverAll (htopo : TopologicallyNumbered depsGraph)
    (h : Inv depsGraph start numVisits₀ u todo st) (hu : st.Visited u)
    (hedges : ∀ w ∈ todo, Edge depsGraph u w) :
    Inv depsGraph start numVisits₀ u [] (todo.foldl Bfs.discover st) ∧
      (todo.foldl Bfs.discover st).remaining = st.remaining := by
  induction todo generalizing st with
  | nil => exact ⟨h, rfl⟩
  | cons w todo ih =>
    have hedge := hedges w mem_cons_self
    have hw : w < st.isVisited.length := by
      rw [h.lengthVisited]
      exact (htopo u w hedge).2
    have hnext := h.discover htopo hu hedge
    obtain ⟨hinv, hremaining⟩ := ih hnext ((visited_discover hw).2 (.inl hu))
      fun x hx => hedges x (mem_cons_of_mem _ hx)
    refine ⟨hinv, ?_⟩
    rw [foldl_cons, hremaining]
    exact remaining_discover hw

/-- A round searches one vertex of the queue, if there is one. -/
theorem Inv.round (htopo : TopologicallyNumbered depsGraph)
    (h : Inv depsGraph start numVisits₀ u [] st) :
    ∃ u', Inv depsGraph start numVisits₀ u' [] (st.round depsGraph) ∧
      (st.queue = [] ∧ st.round depsGraph = st ∨
        (st.round depsGraph).remaining + 1 = st.remaining) := by
  unfold Bfs.round
  split
  · rename_i hqueue
    exact ⟨u, h, .inl ⟨hqueue, rfl⟩⟩
  · rename_i fromVertex rest hqueue
    have hfrom : st.Visited fromVertex := by
      refine h.queued fromVertex ?_
      rw [hqueue]
      exact mem_cons_self
    have hinv : Inv depsGraph start numVisits₀ fromVertex (depsGraph.getD fromVertex [])
        { st with queue := rest } := by
      refine ⟨h.lengthVisited, h.lengthVisits, h.visitedStart, fun v hv => ?_, h.reached, ?_, h.counted⟩
      · refine h.queued v ?_
        rw [hqueue]
        exact mem_cons_of_mem _ hv
      · intro v w hv hedge
        rcases h.closed v w hv hedge with hin | hin | ⟨-, hin⟩
        · rw [hqueue] at hin
          rcases mem_cons.1 hin with rfl | hin
          · exact .inr (.inr ⟨rfl, hedge⟩)
          · exact .inl hin
        · exact .inr (.inl hin)
        · cases hin
    obtain ⟨hall, hremaining⟩ := hinv.discoverAll htopo hfrom fun w hw => hw
    refine ⟨fromVertex, hall, .inr ?_⟩
    rw [hremaining]
    simp only [remaining, hqueue, length_cons]
    omega

/-- Enough rounds empty the queue. -/
theorem Inv.rounds (htopo : TopologicallyNumbered depsGraph) {n : Nat}
    (h : Inv depsGraph start numVisits₀ u [] st) (hn : st.remaining ≤ n) :
    ∃ u', Inv depsGraph start numVisits₀ u' [] ((Bfs.round depsGraph)^[n] st) ∧
      ((Bfs.round depsGraph)^[n] st).queue = [] := by
  induction n generalizing st u with
  | zero =>
    refine ⟨u, h, eq_nil_of_length_eq_zero ?_⟩
    unfold remaining at hn
    rw [Function.iterate_zero, id_eq]
    omega
  | succ n ih =>
    rw [Function.iterate_succ_apply]
    obtain ⟨u', hround, hstuck | hless⟩ := h.round htopo
    · obtain ⟨hqueue, heq⟩ := hstuck
      have hfix : (Bfs.round depsGraph)^[n] st = st := Function.iterate_fixed heq n
      rw [heq, hfix]
      exact ⟨u, h, hqueue⟩
    · exact ih hround (by omega)

end Bfs

theorem Edge.lt_of_reaches (htopo : TopologicallyNumbered depsGraph)
    (h : TransGen (Edge depsGraph) u v) : u < v ∧ v < depsGraph.length := by
  induction h with
  | single hedge => exact htopo _ _ hedge
  | tail _ hedge ih =>
    have hnext := htopo _ _ hedge
    exact ⟨ih.1.trans hnext.1, hnext.2⟩

/-- A search counts a visit of every vertex that a non-empty path leads to. -/
theorem bfs_spec (htopo : TopologicallyNumbered depsGraph) (hstart : start < depsGraph.length)
    (hlen : numVisits₀.length = depsGraph.length) :
    (bfs start depsGraph numVisits₀).length = depsGraph.length ∧ ∀ v, v < depsGraph.length →
        (TransGen (Edge depsGraph) start v →
          (bfs start depsGraph numVisits₀).getD v 0 = numVisits₀.getD v 0 + 1) ∧
        (¬ TransGen (Edge depsGraph) start v →
          (bfs start depsGraph numVisits₀).getD v 0 = numVisits₀.getD v 0) := by
  have hremaining : (Bfs.initial start depsGraph numVisits₀).remaining ≤ depsGraph.length := by
    unfold Bfs.remaining Bfs.initial
    have hlt : start < (List.replicate depsGraph.length false).length := by simpa using hstart
    rw [count_set hlt]
    simp
    omega
  obtain ⟨u, hinv, hqueue⟩ := (Bfs.Inv.initial (u := 0) hstart hlen).rounds htopo hremaining
  -- with an empty queue the visited vertices are closed under the edges
  have hclosed : ∀ v, ReflTransGen (Edge depsGraph) start v →
      (Bfs.run start depsGraph numVisits₀).Visited v := by
    intro v hv
    induction hv with
    | refl => exact hinv.visitedStart
    | tail _ hedge ih =>
      rcases hinv.closed _ _ ih hedge with hin | hin | ⟨-, hin⟩
      · rw [hqueue] at hin
        cases hin
      · exact hin
      · cases hin
  refine ⟨hinv.lengthVisits, fun v hv => ⟨fun hreach => ?_, fun hreach => ?_⟩⟩
  · have hne : v ≠ start := (Edge.lt_of_reaches htopo hreach).1.ne'
    have hcount := hinv.counted v hv
    rwa [if_pos ⟨hclosed v hreach.to_reflTransGen, hne⟩] at hcount
  · have hcount := hinv.counted v hv
    rwa [if_neg, Nat.add_zero] at hcount
    rintro ⟨hvisited, hne⟩
    rcases reflTransGen_iff_eq_or_transGen.1 (hinv.reached v hvisited) with heq | hpath
    · exact hne heq
    · exact hreach hpath

end

/-! ## The graph -/

section
variable {depsGraph : UsageGraph} {x y : Nat} {graph : UsageGraph}

theorem Follows.lt (htopo : TopologicallyNumbered depsGraph) (h : Follows depsGraph x y) :
    x < y ∧ y < depsGraph.length := by
  obtain ⟨child, hchild⟩ := exists_mem_of_ne_nil _ h.1
  have hpath := Edge.lt_of_reaches htopo (h.2 child hchild)
  exact ⟨(htopo x child hchild).1.trans hpath.1, hpath.2⟩

theorem Follows.trans {z : Nat} (hxy : Follows depsGraph x y) (hyz : Follows depsGraph y z) :
    Follows depsGraph x z := by
  refine ⟨hxy.1, fun child hchild => ?_⟩
  obtain ⟨next, hnext⟩ := exists_mem_of_ne_nil _ hyz.1
  exact ((hxy.2 child hchild).tail hnext).trans (hyz.2 next hnext)

/-- A vertex was visited once for each of the children if all of them lead to it. -/
theorem numVisits_spec (htopo : TopologicallyNumbered depsGraph) {children : List Nat}
    (hchildren : ∀ child ∈ children, child < depsGraph.length) (hy : y < depsGraph.length) :
    (numVisits depsGraph children).getD y 0 = children.length ↔
      ∀ child ∈ children, TransGen (Edge depsGraph) child y := by
  have hinv : (numVisits depsGraph children).length = depsGraph.length ∧
      (numVisits depsGraph children).getD y 0 ≤ children.length ∧
      ((numVisits depsGraph children).getD y 0 = children.length ↔
        ∀ child ∈ children, TransGen (Edge depsGraph) child y) := by
    refine foldl_invariant (P := fun (done : List Nat) (visits : List Nat) =>
      visits.length = depsGraph.length ∧ visits.getD y 0 ≤ done.length ∧
        (visits.getD y 0 = done.length ↔ ∀ child ∈ done, TransGen (Edge depsGraph) child y)) ?_ ?_
    · refine ⟨length_replicate, ?_, ?_⟩
      · rw [getD_replicate _ hy]
        exact Nat.zero_le _
      · rw [getD_replicate _ hy]
        exact iff_of_true rfl (by simp)
    · rintro done child rest visits rfl ⟨hlen, hle, hiff⟩
      have hstart : child < depsGraph.length := hchildren child (by simp)
      obtain ⟨hlen', hspec⟩ := bfs_spec htopo hstart hlen
      obtain ⟨hone, hzero⟩ := hspec y hy
      rw [length_append, length_singleton, forall_mem_append, forall_mem_singleton, ← hiff]
      refine ⟨hlen', ?_⟩
      by_cases hpath : TransGen (Edge depsGraph) child y
      · rw [hone hpath]
        exact ⟨by omega, by simp [hpath]⟩
      · rw [hzero hpath]
        refine ⟨by omega, iff_of_false (by omega) ?_⟩
        exact fun h => hpath h.2
  exact hinv.2.2

theorem reallocates_iff (htopo : TopologicallyNumbered depsGraph) (hy : y < depsGraph.length) :
    reallocates depsGraph x y = true ↔ Follows depsGraph x y := by
  unfold reallocates Follows
  dsimp only
  rw [Bool.and_eq_true, beq_iff_eq,
    numVisits_spec htopo (fun child hchild => (htopo x child hchild).2) hy]
  simp

theorem count_modify {i v : Nat} (hi : i < graph.length) :
    ((graph.modify i (· ++ [v])).getD x []).count y =
      (graph.getD x []).count y + if x = i ∧ y = v then 1 else 0 := by
  rw [getD_eq_getElem?_getD, getD_eq_getElem?_getD, getElem?_modify]
  by_cases hx : i = x
  · subst hx
    rw [getElem?_eq_getElem hi, Option.map_eq_map, Option.map_some, Option.getD_some,
      Option.getD_some, if_pos rfl, count_append, count_singleton]
    have hvalue : (v == y) = true ↔ i = i ∧ y = v :=
      ⟨fun h => ⟨rfl, (beq_iff_eq.1 h).symm⟩, fun h => beq_iff_eq.2 h.2.symm⟩
    rw [if_congr hvalue rfl rfl]
  · simp [hx, Ne.symm hx]

theorem count_addEdge {root vertex : Nat} (hroot : root < graph.length)
    (hvertex : vertex < graph.length) :
    ((addEdge graph root vertex).getD x []).count y = (graph.getD x []).count y +
      (if x = root ∧ y = vertex then 1 else 0) + if y = root ∧ x = vertex then 1 else 0 := by
  have hcomm : y = root ∧ x = vertex ↔ x = vertex ∧ y = root := and_comm
  unfold addEdge
  rw [count_modify (by simpa using hvertex), count_modify hroot, if_congr hcomm rfl rfl]

theorem ite_lt_succ {n : Nat} (p : Prop) [Decidable p] :
    (if x < n + 1 ∧ p then 1 else 0) =
      (if x < n ∧ p then 1 else 0) + if x = n ∧ p then 1 else 0 := by
  rcases lt_trichotomy x n with hx | rfl | hx
  · simp [hx, Nat.lt_succ_of_lt hx, hx.ne]
  · simp
  · simp [hx.ne', hx.not_gt, Nat.not_lt_of_le (Nat.succ_le_of_lt hx)]

theorem addEdgesOf_spec {root : Nat} (hlen : graph.length = depsGraph.length)
    (hroot : root < depsGraph.length) :
    (addEdgesOf depsGraph graph root).length = depsGraph.length ∧
      ∀ x y, ((addEdgesOf depsGraph graph root).getD x []).count y = (graph.getD x []).count y +
        (if y < depsGraph.length ∧ x = root ∧ reallocates depsGraph x y then 1 else 0) +
        if x < depsGraph.length ∧ y = root ∧ reallocates depsGraph y x then 1 else 0 := by
  unfold addEdgesOf
  refine foldl_range_invariant (P := fun (n : Nat) (graph' : UsageGraph) =>
    graph'.length = depsGraph.length ∧
      ∀ x y, (graph'.getD x []).count y = (graph.getD x []).count y +
        (if y < n ∧ x = root ∧ reallocates depsGraph x y then 1 else 0) +
        if x < n ∧ y = root ∧ reallocates depsGraph y x then 1 else 0) ⟨hlen, by simp⟩ ?_
  intro vertex graph' hvertex ⟨hlen', hcount⟩
  by_cases hadds : reallocates depsGraph root vertex = true
  · have hadded : ∀ x y, (y = vertex ∧ x = root ∧ reallocates depsGraph x y = true) ↔
        (x = root ∧ y = vertex) := by
      intro x y
      refine ⟨fun h => ⟨h.2.1, h.1⟩, ?_⟩
      rintro ⟨rfl, rfl⟩
      exact ⟨rfl, rfl, hadds⟩
    rw [if_pos hadds]
    refine ⟨by simp [addEdge, hlen'], fun x y => ?_⟩
    rw [count_addEdge (hlen' ▸ hroot) (hlen' ▸ hvertex), hcount, ite_lt_succ, ite_lt_succ,
      if_congr (hadded x y) rfl rfl, if_congr (hadded y x) rfl rfl]
    omega
  · have hadded : ∀ x y, ¬ (y = vertex ∧ x = root ∧ reallocates depsGraph x y = true) := by
      rintro x y ⟨rfl, rfl, h⟩
      exact hadds h
    rw [if_neg hadds]
    refine ⟨hlen', fun x y => ?_⟩
    rw [hcount, ite_lt_succ, ite_lt_succ, if_neg (hadded x y), if_neg (hadded y x)]
    omega

theorem getD_map_mergeSort (graph : UsageGraph) (x : Nat) :
    (graph.map fun adjacent => adjacent.mergeSort fun a b => decide (a ≤ b)).getD x [] =
      (graph.getD x []).mergeSort fun a b => decide (a ≤ b) := by
  rw [getD_eq_getElem?_getD, getElem?_map, getD_eq_getElem?_getD]
  cases graph[x]? <;> simp

/-- Each pair is added once. -/
theorem count_reallocationGraph :
    (reallocationGraph depsGraph).length = depsGraph.length ∧
      ∀ x y, ((reallocationGraph depsGraph).getD x []).count y =
        (if x < depsGraph.length ∧ y < depsGraph.length ∧ reallocates depsGraph x y
          then 1 else 0) +
        if y < depsGraph.length ∧ x < depsGraph.length ∧ reallocates depsGraph y x
          then 1 else 0 := by
  have hinv := foldl_range_invariant (n := depsGraph.length)
    (b := List.replicate depsGraph.length []) (f := addEdgesOf depsGraph)
    (P := fun (n : Nat) (graph : UsageGraph) => graph.length = depsGraph.length ∧
      ∀ x y, (graph.getD x []).count y =
        (if x < n ∧ y < depsGraph.length ∧ reallocates depsGraph x y then 1 else 0) +
        if y < n ∧ x < depsGraph.length ∧ reallocates depsGraph y x then 1 else 0) ?_ ?_
  · obtain ⟨hlen, hcount⟩ := hinv
    refine ⟨by simp [reallocationGraph, hlen], fun x y => ?_⟩
    unfold reallocationGraph
    rw [getD_map_mergeSort, (mergeSort_perm _ _).count_eq]
    exact hcount x y
  · refine ⟨length_replicate, fun x y => ?_⟩
    have hnil : (List.replicate depsGraph.length ([] : List Nat)).getD x [] = [] := by
      rw [getD_eq_getElem?_getD, getElem?_replicate]
      split <;> rfl
    rw [hnil]
    simp
  · intro root graph hroot ⟨hlen, hcount⟩
    obtain ⟨hlen', hcount'⟩ := addEdgesOf_spec hlen hroot
    have hswap : ∀ x y, (y < depsGraph.length ∧ x = root ∧ reallocates depsGraph x y = true) ↔
        (x = root ∧ y < depsGraph.length ∧ reallocates depsGraph x y = true) :=
      fun x y => and_left_comm
    refine ⟨hlen', fun x y => ?_⟩
    rw [hcount', hcount, ite_lt_succ, ite_lt_succ, if_congr (hswap x y) rfl rfl,
      if_congr (hswap y x) rfl rfl]
    omega

theorem reallocates_iff_of_lt (htopo : TopologicallyNumbered depsGraph) :
    (x < depsGraph.length ∧ y < depsGraph.length ∧ reallocates depsGraph x y = true) ↔
      Follows depsGraph x y := by
  constructor
  · rintro ⟨-, hy, h⟩
    exact (reallocates_iff htopo hy).1 h
  · intro h
    have hlt := h.lt htopo
    exact ⟨hlt.1.trans hlt.2, hlt.2, (reallocates_iff htopo hlt.2).2 h⟩

/-- Two tensors are adjacent if one of them can take over the memory of the other one. -/
theorem mem_reallocationGraph (htopo : TopologicallyNumbered depsGraph) :
    y ∈ (reallocationGraph depsGraph).getD x [] ↔
      Follows depsGraph x y ∨ Follows depsGraph y x := by
  rw [← count_pos_iff, count_reallocationGraph.2, ← reallocates_iff_of_lt htopo,
    ← reallocates_iff_of_lt htopo]
  split <;> split <;> simp [*]

theorem pairwise_reallocationGraph (htopo : TopologicallyNumbered depsGraph) (x : Nat) :
    ((reallocationGraph depsGraph).getD x []).Pairwise (· < ·) := by
  have hnodup : ((reallocationGraph depsGraph).getD x []).Nodup := by
    refine nodup_iff_count_le_one.2 fun y => ?_
    rw [count_reallocationGraph.2]
    split
    · rename_i hxy
      rw [if_neg]
      intro hyx
      have hlt := ((reallocates_iff_of_lt htopo).1 hxy).lt htopo
      have hgt := ((reallocates_iff_of_lt htopo).1 hyx).lt htopo
      exact lt_asymm hlt.1 hgt.1
    · split <;> decide
  have hsorted : ((reallocationGraph depsGraph).getD x []).Pairwise (· ≤ ·) := by
    unfold reallocationGraph
    rw [getD_map_mergeSort]
    exact pairwise_mergeSort_decide (r := (· ≤ ·)) (fun _ _ _ => le_trans) Nat.le_total _
  exact (hsorted.and hnodup).imp fun h => lt_of_le_of_ne h.1 h.2

end

end

/-!
## Reuse under parallel execution

With the reallocation graph `GreedyInOrderAssignment` lets a tensor take over an object if it
may follow the last tensor of the object. It then follows all its tensors.
-/

open ObjectsAssignment GreedyInOrder

/-- The tensors are computed at their times, each after those it is computed from. -/
def TopologicalOrder {T : Type} [Preorder T] (depsGraph : UsageGraph) (time : Nat → T) : Prop :=
  ∀ x y, Edge depsGraph x y → time x < time y

/-- Tensor `x` was computed, and it or a tensor computed from it was not computed before. -/
def LiveAt {T : Type} [Preorder T] (depsGraph : UsageGraph) (time : Nat → T) (x : Nat) (t : T) :
    Prop :=
  time x ≤ t ∧ ∃ z, (z = x ∨ Edge depsGraph x z) ∧ t ≤ time z

section
variable {depsGraph : UsageGraph} {x y : Nat}

theorem Follows.not_live {T : Type} [Preorder T] {time : Nat → T} (h : Follows depsGraph x y)
    (horder : TopologicalOrder depsGraph time) (t : T) :
    ¬ (LiveAt depsGraph time x t ∧ LiveAt depsGraph time y t) := by
  rintro ⟨⟨-, z, hz, htz⟩, hyt, -⟩
  have hpath : ∀ u v, Relation.TransGen (Edge depsGraph) u v → time u < time v := by
    intro u v huv
    induction huv with
    | single hedge => exact horder _ _ hedge
    | tail _ hedge ih => exact ih.trans (horder _ _ hedge)
  have hzy : time z < time y := by
    rcases hz with rfl | hedge
    · obtain ⟨child, hchild⟩ := exists_mem_of_ne_nil _ h.1
      exact (horder z child hchild).trans (hpath child y (h.2 child hchild))
    · exact hpath z y (h.2 z hedge)
  exact lt_irrefl t (htz.trans_lt (hzy.trans_le hyt))

theorem mem_of_foundSorted {item : Nat} {items : List Nat} (h : foundSorted item items = true) :
    item ∈ items := by
  unfold foundSorted at h
  exact dropWhile_subset _ (mem_of_head? (of_decide_eq_true h))

end

section
variable {depsGraph : UsageGraph} {i : Nat} {st : State} {rec : TensorUsageWithIndex Nat}

/-- The last tensor of an object follows its other tensors, which follow one another. -/
structure Chained (depsGraph : UsageGraph) (i : Nat) (st : State) : Prop where
  length : st.lastAssignedTensor.length = st.assignment.objectSizes.length
  pool : ∀ record ∈ st.pool, record.objectId < st.assignment.objectSizes.length
  inUse : ∀ record ∈ st.objectsInUse, record.objectId < st.assignment.objectSizes.length
  before : ∀ object j, st.assignment.Holds object j → j < i
  last_lt : ∀ last ∈ st.lastAssignedTensor, last < i
  last : ∀ object j, st.assignment.Holds object j →
    ∃ last, st.lastAssignedTensor[object]? = some last ∧ (j = last ∨ Follows depsGraph j last)
  chain : ∀ object j k, st.assignment.Holds object j → st.assignment.Holds object k → j < k →
    Follows depsGraph j k

theorem releaseObjects_lt {n firstTask : Nat} {queue : List QueueRecord}
    {pool : List PoolRecord} {objectSizes : List Nat} (hqueue : ∀ q ∈ queue, q.objectId < n)
    (hpool : ∀ record ∈ pool, record.objectId < n) :
    (∀ q ∈ (releaseObjects (fun objectId pool =>
        insertSorted ⟨objectSizes.getD objectId 0, objectId⟩ pool) firstTask queue pool).1,
      q.objectId < n) ∧
    ∀ record ∈ (releaseObjects (fun objectId pool =>
        insertSorted ⟨objectSizes.getD objectId 0, objectId⟩ pool) firstTask queue pool).2,
      record.objectId < n := by
  induction queue generalizing pool with
  | nil => exact ⟨hqueue, hpool⟩
  | cons top rest ih =>
    unfold releaseObjects
    split
    · refine ih (fun q hq => hqueue q (mem_cons_of_mem _ hq)) fun record hrecord => ?_
      rcases mem_insertSorted.1 hrecord with rfl | hrecord
      · exact hqueue top mem_cons_self
      · exact hpool record hrecord
    · exact ⟨hqueue, hpool⟩

theorem Chained.release (h : Chained depsGraph i st) (firstTask : Nat) :
    Chained depsGraph i (st.release firstTask) := by
  obtain ⟨hinUse, hpool⟩ := @releaseObjects_lt _ firstTask _ _ st.assignment.objectSizes h.inUse
      h.pool
  exact ⟨h.length, hpool, hinUse, h.before, h.last_lt, h.last, h.chain⟩

theorem Chained.create (h : Chained depsGraph i st) (hidx : rec.idx = i) :
    Chained depsGraph (i + 1) (st.assign rec none) := by
  subst hidx
  have hlen : (st.assign rec none).assignment.objectSizes.length =
      st.assignment.objectSizes.length + 1 := length_append
  have hold : ∀ {j : Nat}, ¬ st.assignment.Holds st.assignment.objectSizes.length j := by
    intro j hj
    obtain ⟨last, hlast, -⟩ := h.last _ _ hj
    have hlt := (List.getElem?_eq_some_iff.1 hlast).1
    rw [h.length] at hlt
    exact lt_irrefl _ hlt
  refine ⟨?_, ?_, ?_, ?_, ?_, ?_, ?_⟩
  · rw [hlen, ← h.length]
    exact length_append
  · intro record hrecord
    rw [hlen]
    exact Nat.lt_succ_of_lt (h.pool record hrecord)
  · intro q hq
    rw [hlen]
    rcases mem_insertSorted.1 hq with rfl | hq
    · exact Nat.lt_succ_self _
    · exact Nat.lt_succ_of_lt (h.inUse q hq)
  · intro object j hj
    rcases holds_set hj with ⟨rfl, -⟩ | ⟨-, hj⟩
    · exact Nat.lt_succ_self _
    · exact Nat.lt_succ_of_lt (h.before object j hj)
  · intro last hlast
    rcases mem_append.1 hlast with hlast | hlast
    · exact Nat.lt_succ_of_lt (h.last_lt last hlast)
    · exact mem_singleton.1 hlast ▸ Nat.lt_succ_self _
  · intro object j hj
    rcases holds_set hj with ⟨rfl, rfl⟩ | ⟨-, hj⟩
    · refine ⟨rec.idx, ?_, .inl rfl⟩
      rw [← h.length]
      exact getElem?_concat_length
    · obtain ⟨last, hlast, hfollows⟩ := h.last object j hj
      have hlt := (List.getElem?_eq_some_iff.1 hlast).1
      exact ⟨last, (getElem?_append_left hlt).trans hlast, hfollows⟩
  · intro object j k hj hk hjk
    rcases holds_set hj with ⟨rfl, rfl⟩ | ⟨-, hjold⟩
    · rcases holds_set hk with ⟨rfl, -⟩ | ⟨-, hkold⟩
      · exact absurd hjk (lt_irrefl _)
      · exact absurd hkold hold
    · rcases holds_set hk with ⟨rfl, rfl⟩ | ⟨-, hkold⟩
      · exact absurd hjold hold
      · exact h.chain object j k hjold hkold hjk

/-- A tensor takes over an object whose last tensor it follows. -/
theorem Chained.reuse (h : Chained depsGraph i st) (hidx : rec.idx = i) {best : PoolRecord}
    (hbest : best ∈ st.pool) (hlast : ∀ last,
      st.lastAssignedTensor[best.objectId]? = some last → Follows depsGraph last i) :
    Chained depsGraph (i + 1) (st.assign rec (some best)) := by
  subst hidx
  have hlen : (st.assign rec (some best)).assignment.objectSizes.length =
      st.assignment.objectSizes.length := length_set
  have hobject : best.objectId < st.lastAssignedTensor.length := by
    rw [h.length]
    exact h.pool best hbest
  have hfollows : ∀ {j : Nat}, st.assignment.Holds best.objectId j →
      Follows depsGraph j rec.idx := by
    intro j hj
    obtain ⟨last, hget, rfl | hj⟩ := h.last _ _ hj
    · exact hlast j hget
    · exact hj.trans (hlast last hget)
  refine ⟨?_, ?_, ?_, ?_, ?_, ?_, ?_⟩
  · rw [hlen, ← h.length]
    exact length_set
  · intro record hrecord
    rw [hlen]
    exact h.pool record (eraseSorted_subset hrecord)
  · intro q hq
    rw [hlen]
    rcases mem_insertSorted.1 hq with rfl | hq
    · exact h.pool best hbest
    · exact h.inUse q hq
  · intro object j hj
    rcases holds_set hj with ⟨rfl, -⟩ | ⟨-, hj⟩
    · exact Nat.lt_succ_self _
    · exact Nat.lt_succ_of_lt (h.before object j hj)
  · intro last hin
    rcases mem_or_eq_of_mem_set hin with hin | rfl
    · exact Nat.lt_succ_of_lt (h.last_lt last hin)
    · exact Nat.lt_succ_self _
  · intro object j hj
    rcases holds_set hj with ⟨rfl, rfl⟩ | ⟨-, hj⟩
    · exact ⟨rec.idx, getElem?_set_self hobject, .inl rfl⟩
    · by_cases heq : best.objectId = object
      · subst heq
        exact ⟨rec.idx, getElem?_set_self hobject, .inr (hfollows hj)⟩
      · obtain ⟨last, hget, hj⟩ := h.last object j hj
        exact ⟨last, (getElem?_set_ne heq).trans hget, hj⟩
  · intro object j k hj hk hjk
    rcases holds_set hj with ⟨rfl, rfl⟩ | ⟨-, hjold⟩
    · rcases holds_set hk with ⟨rfl, -⟩ | ⟨-, hkold⟩
      · exact absurd hjk (lt_irrefl _)
      · exact absurd hjk (h.before _ k hkold).not_gt
    · rcases holds_set hk with ⟨rfl, rfl⟩ | ⟨-, hkold⟩
      · exact hfollows hjold
      · exact h.chain object j k hjold hkold hjk

theorem Chained.step (htopo : TopologicallyNumbered depsGraph) (h : Chained depsGraph i st)
    (hidx : rec.idx = i) :
    ∃ st', st.step (some (reallocationGraph depsGraph)) rec = .ok st' ∧
      Chained depsGraph (i + 1) st' := by
  obtain ⟨best, hok, hbest⟩ := State.step_spec (some (reallocationGraph depsGraph)) st rec
  refine ⟨_, hok, ?_⟩
  have hreleased := h.release rec.usageRecord.firstTask
  cases best with
  | none => exact hreleased.create hidx
  | some record =>
    obtain ⟨hin, hgraph⟩ := hbest record rfl
    refine hreleased.reuse hidx hin fun last hlast => ?_
    have hmem := mem_of_foundSorted (hgraph _ rfl)
    replace hlast : st.lastAssignedTensor[record.objectId]? = some last := hlast
    have hget : st.lastAssignedTensor.getD record.objectId 0 = last := by
      rw [getD_eq_getElem?_getD, hlast, Option.getD_some]
    rw [hget, mem_reallocationGraph htopo, hidx] at hmem
    refine hmem.resolve_right fun hfollows => ?_
    exact lt_asymm (hfollows.lt htopo).1 (h.last_lt last (mem_of_getElem? hlast))

end

/-- Two tensors of one object follow one another, so they are not live at the same time,
whatever the order of the tasks. The tasks of the usage records do not matter. -/
theorem reallocation_sound {depsGraph : UsageGraph} (htopo : TopologicallyNumbered depsGraph)
    (usageRecords : List (TensorUsageRecord Nat)) :
    (reallocationGraph depsGraph).length = depsGraph.length ∧
    (∀ x, ((reallocationGraph depsGraph).getD x []).Pairwise (· < ·)) ∧
    (∀ x y, y ∈ (reallocationGraph depsGraph).getD x [] ↔
      x ∈ (reallocationGraph depsGraph).getD y []) ∧
    (∀ x y, y ∈ (reallocationGraph depsGraph).getD x [] ↔
      Follows depsGraph x y ∨ Follows depsGraph y x) ∧
    ∃ a, greedyInOrderAssignment usageRecords (some (reallocationGraph depsGraph)) = .ok a ∧
      ∀ object x y, x ≠ y → a.Holds object x → a.Holds object y →
        y ∈ (reallocationGraph depsGraph).getD x [] ∧
        ∀ {T : Type} [Preorder T] (time : Nat → T), TopologicalOrder depsGraph time →
          ∀ t, ¬ (LiveAt depsGraph time x t ∧ LiveAt depsGraph time y t) := by
  have hinit : Chained depsGraph 0 (.initial usageRecords.length) :=
    ⟨rfl, nofun, nofun, fun _ _ h => absurd h (not_holds_empty _ _ _), nofun,
      fun _ _ h => absurd h (not_holds_empty _ _ _),
      fun _ _ _ h => absurd h (not_holds_empty _ _ _)⟩
  obtain ⟨st, hok, hchained⟩ := @withIndex_loopM _ _ usageRecords
      (fun i st => Chained depsGraph i st) _ _ hinit
    fun i rec st _ hst => @Chained.step _ _ _ ⟨rec, i⟩ htopo hst rfl
  have hrun : greedyInOrderAssignment usageRecords (some (reallocationGraph depsGraph)) =
      .ok st.assignment := by
    unfold greedyInOrderAssignment
    rw [hok]
    rfl
  have hadjacent : ∀ x y, y ∈ (reallocationGraph depsGraph).getD x [] ↔
      Follows depsGraph x y ∨ Follows depsGraph y x := fun x y => mem_reallocationGraph htopo
  refine ⟨count_reallocationGraph.1, pairwise_reallocationGraph htopo, fun x y => ?_, hadjacent,
    st.assignment, hrun, fun object x y hne hx hy => ?_⟩
  · rw [hadjacent, hadjacent]
    exact or_comm
  · rcases Nat.lt_or_gt_of_ne hne with hlt | hlt
    · have hfollows := hchained.chain object x y hx hy hlt
      exact ⟨(hadjacent x y).2 (.inl hfollows), fun time horder => hfollows.not_live horder⟩
    · have hfollows := hchained.chain object y x hy hx hlt
      exact ⟨(hadjacent x y).2 (.inr hfollows), fun time horder t h =>
        hfollows.not_live horder t h.symm⟩

/-- In a chain of three tensors the last one takes over the object of the first. -/
theorem reallocation_sound_chain :
    2 ∈ (reallocationGraph [[1], [2], []]).getD 0 [] ∧
    ∃ a, greedyInOrderAssignment [⟨8, 0, 1⟩, ⟨8, 1, 2⟩, ⟨8, 2, 2⟩]
        (some (reallocationGraph [[1], [2], []])) = .ok a ∧
      ∀ object x y, x ≠ y → a.Holds object x → a.Holds object y →
        y ∈ (reallocationGraph [[1], [2], []]).getD x [] ∧
        ∀ {T : Type} [Preorder T] (time : Nat → T), TopologicalOrder [[1], [2], []] time →
          ∀ t, ¬ (LiveAt [[1], [2], []] time x t ∧ LiveAt [[1], [2], []] time y t) := by
  obtain ⟨-, -, -, hadjacent, hassignment⟩ := @reallocation_sound [[1], [2], []] (by decide)
      [⟨8, 0, 1⟩, ⟨8, 1, 2⟩, ⟨8, 2, 2⟩]
  refine ⟨(hadjacent 0 2).2 (.inl ⟨by decide, fun child hchild => ?_⟩), hassignment⟩
  cases mem_singleton.1 hchild
  exact .single (mem_singleton.2 rfl)

end LiteRt.Gpu
