import LiteRt.Plugin.Partition

/-!
# Weakly connected islands

What `DisjointSets` computes: the islands are the classes of ops that are selected
under one index and connected by edges among them, each listed in the order of the
plugin's list.
-/

namespace LiteRt.Plugin

open LiteRt.Lib LiteRt.Model InsertOrderMap

variable {sel : List OpWithPartitionIndex} {map : ParentOf} {root : OpId → OpId} {i : UInt64}

/-! ## The operations -/

section
variable {map : ParentOf} {root : OpId → OpId}

theorem getBucket_spec (h : ParentMap map root) {op : OpId} (hop : op ∈ map.map Prod.fst) :
    ∃ map', getBucket map.length map op = some (map', root op) ∧ ParentMap map' root ∧
      map'.map Prod.fst = map.map Prod.fst := by
  obtain ⟨height, hlt, hstep, -⟩ := h.exists_height
  suffices hsuff : ∀ n, height op < n → ∃ map', getBucket n map op = some (map', root op) ∧
      ParentMap map' root ∧ map'.map Prod.fst = map.map Prod.fst from hsuff _ (hlt op hop)
  intro n hn
  induction n generalizing op with
  | zero => exact absurd hn (Nat.not_lt_zero _)
  | succ n ih =>
    obtain ⟨parent, hparent⟩ := isSome_find? hop
    obtain ⟨hpm, hpr⟩ := h.parent op parent hparent
    by_cases he : op = parent
    · refine ⟨map, ?_, h, rfl⟩
      rw [← he] at hparent
      simp only [getBucket, hparent, Option.bind_eq_bind, Option.bind_some, ne_eq,
        not_true_eq_false, ↓reduceIte, h.root_of_self op hparent]
      rfl
    · have hlt' := hstep op parent hparent fun h => he h.symm
      obtain ⟨map', hg, h', hkeys⟩ := ih hpm (by omega)
      have hop' : op ∈ map'.map Prod.fst := hkeys ▸ hop
      refine ⟨map'.insertOrAssign op (root op), ?_, h'.compress hop',
        (ParentMap.keys_assign hop' _).trans hkeys⟩
      simp only [getBucket, hparent, Option.bind_eq_bind, Option.bind_some, ne_eq, he,
        not_false_eq_true, ↓reduceIte, hg, hpr]
      rfl

/-- `Insert` puts the class of `op` below that of `parent`. -/
theorem insert_spec (h : ParentMap map root) {op parent : OpId} (hop : op ∈ map.map Prod.fst)
    (hparent : parent ∈ map.map Prod.fst) : ∃ map' root', insert map op parent = some map' ∧
      ParentMap map' root' ∧ map'.map Prod.fst = map.map Prod.fst ∧
      ∀ k, root' k = if root k = root op then root parent else root k := by
  obtain ⟨map₁, hg₁, h₁, hkeys₁⟩ := getBucket_spec h hparent
  obtain ⟨map₂, hg₂, h₂, hkeys₂⟩ := getBucket_spec h₁ (hkeys₁ ▸ hop)
  by_cases he : root op = root parent
  · refine ⟨map₂, root, ?_, h₂, hkeys₂.trans hkeys₁, fun k => ?_⟩
    · simp only [insert, hg₁, hg₂, Option.bind_eq_bind, Option.bind_some, he, ↓reduceIte]
      rfl
    · split
      · next hk => rw [hk, he]
      · rfl
  · have hop₂ : root op ∈ map₂.map Prod.fst := by
      rw [hkeys₂, hkeys₁]
      exact h.root_mem hop
    have hpar₂ : root parent ∈ map₂.map Prod.fst := by
      rw [hkeys₂, hkeys₁]
      exact h.root_mem hparent
    refine ⟨_, _, ?_, h₂.link hop₂ hpar₂ (h.root_root hop) (h.root_root hparent) he,
      (ParentMap.keys_assign hop₂ _).trans (hkeys₂.trans hkeys₁), fun k => rfl⟩
    simp only [insert, hg₁, hg₂, Option.bind_eq_bind, Option.bind_some, he, ↓reduceIte]
    rfl

end

/-! ## One partition -/

/-- The pairs of an op and a user the loops of `GetPartitionsFromFlatList` visit. -/
def useEdges (g : Ir) (ops : List OpId) : List (OpId × OpId) :=
  ops.flatMap fun op => (g.op op).outputs.flatMap fun output =>
    (g.tensor output).users.map fun user => (op, user.1)

theorem foldlM_flatMap {α β σ : Type*} (l : List α) (f : α → List β) (step : σ → β → Option σ)
    (s : σ) : (l.flatMap f).foldlM step s = l.foldlM (fun s a => (f a).foldlM step s) s := by
  induction l generalizing s with
  | nil => rfl
  | cons a l ih =>
    rw [List.flatMap_cons, List.foldlM_append, List.foldlM_cons]
    exact Option.bind_congr fun s' _ => ih s'

/-- The loops as one loop over the edges. -/
theorem disjointSets_eq (g : Ir) (ops : List OpId) : disjointSets g ops =
    (useEdges g ops).foldlM (fun (map : ParentOf) e =>
      if map.contains e.2 then insert map e.1 e.2 else some map)
      (ops.foldl (fun map op => insertOrAssign map op op) []) := by
  rw [disjointSets, useEdges, foldlM_flatMap]
  congr 1
  funext map op
  rw [foldlM_flatMap]
  congr 1
  funext map output
  rw [List.foldlM_map]
  rfl

/-- Linking along all edges whose ends are listed. -/
theorem linkEdges_spec {keys : List OpId} {es : List (OpId × OpId)} {R : OpId → OpId → Prop}
    (h : ParentMap map root) (hkeys : map.map Prod.fst = keys) (hes : ∀ e ∈ es, e.1 ∈ keys)
    (hR : ∀ a b, R a b → a ∈ keys ∧ b ∈ keys)
    (hclass : ∀ k k', k ∈ keys → k' ∈ keys → (root k = root k' ↔ Relation.EqvGen R k k')) :
    ∃ map' root', es.foldlM (fun (map : ParentOf) e =>
        if map.contains e.2 then insert map e.1 e.2 else some map) map = some map' ∧
      ParentMap map' root' ∧ map'.map Prod.fst = keys ∧
      ∀ k k', k ∈ keys → k' ∈ keys → (root' k = root' k' ↔
        Relation.EqvGen (fun a b => R a b ∨ ((a, b) ∈ es ∧ b ∈ keys)) k k') := by
  induction es generalizing map root R with
  | nil =>
    refine ⟨map, root, rfl, h, hkeys, fun k k' hk hk' => ?_⟩
    simpa using hclass k k' hk hk'
  | cons e es ih =>
    obtain ⟨x, y⟩ := e
    have hx : x ∈ keys := hes (x, y) (by simp)
    have hes' : ∀ e ∈ es, e.1 ∈ keys := fun e he => hes e (List.mem_cons_of_mem _ he)
    rw [List.foldlM_cons]
    by_cases hy : y ∈ keys
    · obtain ⟨map₁, root₁, hi, h₁, hkeys₁, hroot₁⟩ := insert_spec h (hkeys ▸ hx) (hkeys ▸ hy)
      obtain ⟨map', root', hf, h', hkeys', hclass'⟩ := ih h₁ (hkeys₁.trans hkeys) hes'
        (R := fun a b => R a b ∨ (a = x ∧ b = y))
        (fun a b hab => hab.elim (hR a b) fun ⟨ha, hb⟩ => ⟨ha ▸ hx, hb ▸ hy⟩)
        (fun k k' hk hk' => eqvGen_link (S := (· ∈ keys)) hclass hx hy hroot₁ hR hk hk')
      refine ⟨map', root', ?_, h', hkeys', fun k k' hk hk' => ?_⟩
      · rw [if_pos (contains_iff.mpr (hkeys ▸ hy)), hi]
        exact hf
      · have hrel : (fun a b => (R a b ∨ (a = x ∧ b = y)) ∨ ((a, b) ∈ es ∧ b ∈ keys)) =
            fun a b => R a b ∨ ((a, b) ∈ (x, y) :: es ∧ b ∈ keys) := by
          funext a b
          rw [List.mem_cons, Prod.mk.injEq, or_assoc, or_and_right]
          refine propext (or_congr_right (or_congr_left ⟨fun hab => ⟨hab, hab.2 ▸ hy⟩, And.left⟩))
        rw [hclass' k k' hk hk', hrel]
    · obtain ⟨map', root', hf, h', hkeys', hclass'⟩ := ih h hkeys hes' hR hclass
      refine ⟨map', root', ?_, h', hkeys', fun k k' hk hk' => ?_⟩
      · rw [if_neg (fun hc => hy (hkeys ▸ contains_iff.mp hc))]
        exact hf
      · have hrel : (fun a b => R a b ∨ ((a, b) ∈ es ∧ b ∈ keys)) =
            fun a b => R a b ∨ ((a, b) ∈ (x, y) :: es ∧ b ∈ keys) := by
          funext a b
          rw [List.mem_cons, Prod.mk.injEq, or_and_right]
          refine propext (or_congr_right ⟨.inr, fun hab => hab.resolve_left fun hab => ?_⟩)
          exact hy (hab.1.2 ▸ hab.2)
        rw [hclass' k k' hk hk', hrel]

/-- Both ops are listed and `b` reads a result of `a`. -/
def Adjacent (g : Ir) (ops : List OpId) (a b : OpId) : Prop :=
  a ∈ ops ∧ b ∈ ops ∧ g.DependsOn b a

section
variable {g : Ir} {root : Subgraph} (hwf : root.WellFormed g) {ops : List OpId}
  (hops : ∀ o ∈ ops, o ∈ root.ops)

include hwf hops

theorem mem_useEdges {a b : OpId} : (a, b) ∈ useEdges g ops ∧ b ∈ ops ↔ Adjacent g ops a b := by
  simp only [useEdges, List.mem_flatMap, List.mem_map, Prod.mk.injEq, Adjacent, Ir.DependsOn]
  constructor
  · rintro ⟨⟨o, ho, t, ht, u, hu, rfl, rfl⟩, hb⟩
    exact ⟨ho, hb, t, (hwf.edges _ (hops _ hb)).mem_inputs_iff.mpr ⟨u.2, hu⟩,
      (hwf.edges _ (hops _ ho)).mem_outputs_iff.mp ht⟩
  · rintro ⟨ha, hb, t, ht, hd⟩
    obtain ⟨i, hi⟩ := (hwf.edges _ (hops _ hb)).mem_inputs_iff.mp ht
    exact ⟨⟨a, ha, t, (hwf.edges _ (hops _ ha)).mem_outputs_iff.mpr hd, (b, i), hi, rfl, rfl⟩, hb⟩

/-- The classes of one partition. -/
theorem disjointSets_spec : ∃ map rootOf, disjointSets g ops = some map ∧
    ParentMap map rootOf ∧ (∀ k, k ∈ map.map Prod.fst ↔ k ∈ ops) ∧
    ((map.map Prod.fst).Pairwise fun a b => ops.idxOf a < ops.idxOf b) ∧
    ∀ a b, a ∈ ops → b ∈ ops → (rootOf a = rootOf b ↔ Relation.EqvGen (Adjacent g ops) a b) := by
  obtain ⟨hnd, hself, hmem, hpair⟩ := foldl_insertOrAssign_self ops
  have hends : ∀ e ∈ useEdges g ops, e.1 ∈ (ops.foldl (fun map op =>
      insertOrAssign map op op) []).map Prod.fst := by
    intro e he
    rw [hmem]
    simp only [useEdges, List.mem_flatMap, List.mem_map] at he
    obtain ⟨o, ho, t, -, u, -, rfl⟩ := he
    exact ho
  obtain ⟨map, rootOf, he, h, hkeys, hclass⟩ := linkEdges_spec (R := fun _ _ => False)
    (ParentMap.singletons hnd hself) rfl hends (fun _ _ => False.elim)
    (fun k k' _ _ => eqvGen_empty.symm)
  rw [← disjointSets_eq] at he
  refine ⟨map, rootOf, he, h, fun k => by rw [hkeys, hmem], hkeys ▸ hpair, fun a b ha hb => ?_⟩
  rw [hclass a b ((hmem a).mpr ha) ((hmem b).mpr hb)]
  have hrel : (fun a b => False ∨ ((a, b) ∈ useEdges g ops ∧ b ∈
      (ops.foldl (fun map op => insertOrAssign map op op) []).map Prod.fst)) =
      Adjacent g ops := by
    funext a b
    rw [false_or, hmem]
    exact propext (mem_useEdges hwf hops)
  rw [hrel]

end

theorem getBuckets_spec (order : HashOrder) (h : ParentMap map root) :
    getBuckets order map = some ((order.invertMap
      (group ((map.map Prod.fst).map fun k => (root k, k)))).map Prod.snd) := by
  suffices hsuff : ∀ (l : List OpId) (map' : ParentOf) (inv : InsertOrderMap OpId (List OpId)),
      ParentMap map' root → (∀ k ∈ l, k ∈ map'.map Prod.fst) → ∃ map'', l.foldlM
        (fun (p : ParentOf × InsertOrderMap OpId (List OpId)) op =>
          (getBucket p.1.length p.1 op).bind fun r => some (r.1, p.2.pushBack r.2 op))
          (map', inv) =
        some (map'', (l.map fun k => (root k, k)).foldl (fun m p => m.pushBack p.1 p.2) inv) by
    obtain ⟨map'', he⟩ := hsuff (map.map Prod.fst) map [] h fun _ => id
    have hfold : getBuckets order map = ((map.map Prod.fst).foldlM
        (fun (p : ParentOf × InsertOrderMap OpId (List OpId)) op =>
          (getBucket p.1.length p.1 op).bind fun r => some (r.1, p.2.pushBack r.2 op))
          (map, [])).bind fun r => some ((order.invertMap r.2).map Prod.snd) := rfl
    rw [hfold, he]
    rfl
  intro l
  induction l with
  | nil => exact fun map' inv _ _ => ⟨map', rfl⟩
  | cons k l ih =>
    intro map' inv h' hl
    obtain ⟨map₁, hg, h₁, hkeys⟩ := getBucket_spec h' (hl k (by simp))
    obtain ⟨map'', he⟩ := ih map₁ (inv.pushBack (root k) k) h₁
      fun k' hk' => hkeys ▸ hl k' (List.mem_cons_of_mem k hk')
    refine ⟨map'', ?_⟩
    rw [List.foldlM_cons]
    simp only [hg, Option.bind_eq_bind, Option.bind_some]
    exact he

/-! ## All partitions -/

/-- An island of the ops listed in `ops`. -/
structure IsClass (g : Ir) (ops I : List OpId) : Prop where
  ne_nil : I ≠ []
  sorted : I.Pairwise fun a b => ops.idxOf a < ops.idxOf b
  subset : ∀ a ∈ I, a ∈ ops
  mem_iff : ∀ a ∈ I, ∀ b, b ∈ I ↔ b ∈ ops ∧ Relation.EqvGen (Adjacent g ops) a b

section
variable {g : Ir} {root : Subgraph} (hwf : root.WellFormed g)

include hwf

/-- The islands of one partition. -/
theorem buckets_spec (order : HashOrder) {ops : List OpId} (hops : ∀ o ∈ ops, o ∈ root.ops) :
    ∃ inv, (disjointSets g ops).bind (getBuckets order) =
        some ((order.invertMap inv).map Prod.snd) ∧
      (∀ e ∈ inv, IsClass g ops e.2) ∧ (∀ a ∈ ops, ∃ e ∈ inv, a ∈ e.2) ∧
      inv.Pairwise fun e e' => ∀ o ∈ e.2, o ∉ e'.2 := by
  obtain ⟨map, rootOf, he, h, hmem, hpair, hclass⟩ := disjointSets_spec hwf hops
  refine ⟨_, by rw [he, Option.bind_some, getBuckets_spec order h], fun e hm => ?_,
    fun a ha => ?_, ?_⟩
  · obtain ⟨r, vs⟩ := e
    obtain ⟨hr, rfl⟩ := mem_group.mp hm
    have hmemI (b : OpId) : b ∈ (((map.map Prod.fst).map fun k => (rootOf k, k)).filter
        fun p => p.1 = r).map Prod.snd ↔ b ∈ ops ∧ rootOf b = r := by
      simp only [List.mem_map, List.mem_filter, decide_eq_true_eq, ← hmem]
      constructor
      · rintro ⟨_, ⟨⟨k, hk, rfl⟩, hr⟩, rfl⟩
        exact ⟨hk, hr⟩
      · rintro ⟨hk, hr⟩
        exact ⟨_, ⟨⟨b, hk, rfl⟩, hr⟩, rfl⟩
    constructor
    · obtain ⟨k, hk, rfl⟩ : ∃ k ∈ map.map Prod.fst, rootOf k = r := by
        simpa only [List.map_map, List.mem_map, Function.comp_apply, exists_exists_and_eq_and]
          using hr
      exact List.ne_nil_of_mem ((hmemI k).mpr ⟨(hmem k).mp hk, rfl⟩)
    · rw [List.pairwise_map]
      refine List.Pairwise.filter _ ?_
      rw [List.pairwise_map]
      exact hpair
    · exact fun a ha => ((hmemI a).mp ha).1
    · intro a ha b
      obtain ⟨ha, hra⟩ := (hmemI a).mp ha
      rw [hmemI]
      refine and_congr_right fun hb => ?_
      rw [← hclass a b ha hb, hra, eq_comm]
  · refine ⟨(rootOf a, _), mem_group.mpr ⟨?_, rfl⟩, ?_⟩
    · rw [List.map_map]
      exact List.mem_map_of_mem (f := rootOf) ((hmem a).mpr ha)
    · exact List.mem_map.mpr ⟨(rootOf a, a), List.mem_filter.mpr
        ⟨List.mem_map_of_mem (f := fun k => (rootOf k, k)) ((hmem a).mpr ha), by simp⟩, rfl⟩
  · have hnd := nodup_keys_group ((map.map Prod.fst).map fun k => (rootOf k, k))
    refine (List.pairwise_map.mp hnd).imp_of_mem fun {e e'} hm hm' hne o ho ho' => hne ?_
    obtain ⟨r, vs⟩ := e
    obtain ⟨r', vs'⟩ := e'
    obtain ⟨-, rfl⟩ := mem_group.mp hm
    obtain ⟨-, rfl⟩ := mem_group.mp hm'
    simp only [List.mem_map, List.mem_filter, decide_eq_true_eq] at ho ho'
    obtain ⟨_, ⟨⟨k, -, rfl⟩, hr⟩, rfl⟩ := ho
    obtain ⟨_, ⟨⟨k', -, rfl⟩, hr'⟩, he⟩ := ho'
    obtain rfl : k' = k := he
    exact hr.symm.trans hr'

end

/-- The plugin lists an op under one index only. -/
def OneIndex (sel : List OpWithPartitionIndex) : Prop :=
  ∀ p ∈ sel, ∀ q ∈ sel, p.1 = q.1 → p.2 = q.2

/-- Two ops the plugin lists under the same index. -/
def SameIndex (sel : List OpWithPartitionIndex) (a b : OpId) : Prop :=
  ∃ i, (a, i) ∈ sel ∧ (b, i) ∈ sel

/-- Connected by edges between ops listed under the same index. -/
def Linked (g : Ir) (sel : List OpWithPartitionIndex) : OpId → OpId → Prop :=
  Relation.EqvGen fun a b => SameIndex sel a b ∧ g.DependsOn b a

def listedUnder (sel : List OpWithPartitionIndex) (i : UInt64) : List OpId :=
  (sel.filter fun p => p.2 = i).map Prod.fst

theorem mem_listedUnder {o : OpId} :
    o ∈ listedUnder sel i ↔ (o, i) ∈ sel := by
  simp only [listedUnder, List.mem_map, List.mem_filter, decide_eq_true_eq]
  constructor
  · rintro ⟨⟨o', i'⟩, ⟨hm, rfl⟩, rfl⟩
    exact hm
  · exact fun hm => ⟨(o, i), ⟨hm, rfl⟩, rfl⟩

theorem mem_partitionMap {e : UInt64 × List OpId} :
    e ∈ group (sel.map Prod.swap) ↔ e.1 ∈ sel.map Prod.snd ∧ e.2 = listedUnder sel e.1 := by
  obtain ⟨i, ops⟩ := e
  rw [mem_group, List.filter_map, List.map_map, List.map_map]
  rfl

section
variable {g : Ir} {sel : List OpWithPartitionIndex} (hone : OneIndex sel) {i : UInt64}

include hone

/-- Links stay within the ops listed under one index. -/
theorem linked_iff {a : OpId} (ha : a ∈ listedUnder sel i) (b : OpId) :
    Linked g sel a b ↔
      b ∈ listedUnder sel i ∧ Relation.EqvGen (Adjacent g (listedUnder sel i)) a b := by
  have hstep {x y : OpId} (hxy : SameIndex sel x y) :
      x ∈ listedUnder sel i ↔ y ∈ listedUnder sel i := by
    obtain ⟨j, hx, hy⟩ := hxy
    rw [mem_listedUnder, mem_listedUnder]
    constructor
    · intro h
      obtain rfl : i = j := hone _ h _ hx rfl
      exact hy
    · intro h
      obtain rfl : i = j := hone _ h _ hy rfl
      exact hx
  constructor
  · intro h
    suffices hsuff : (a ∈ listedUnder sel i ↔ b ∈ listedUnder sel i) ∧
        (a ∈ listedUnder sel i → Relation.EqvGen (Adjacent g (listedUnder sel i)) a b) from
      ⟨hsuff.1.mp ha, hsuff.2 ha⟩
    clear ha
    induction h with
    | rel x y hxy =>
      exact ⟨hstep hxy.1, fun hx => .rel _ _ ⟨hx, (hstep hxy.1).mp hx, hxy.2⟩⟩
    | refl x => exact ⟨.rfl, fun _ => .refl x⟩
    | symm x y _ ih => exact ⟨ih.1.symm, fun hy => (ih.2 (ih.1.mpr hy)).symm⟩
    | trans x y z _ _ ih1 ih2 =>
      exact ⟨ih1.1.trans ih2.1, fun hx => (ih1.2 hx).trans _ _ _ (ih2.2 (ih1.1.mp hx))⟩
  · rintro ⟨-, h⟩
    exact h.mono fun x y hxy =>
      ⟨⟨i, mem_listedUnder.mp hxy.1, mem_listedUnder.mp hxy.2.1⟩, hxy.2.2⟩

/-- The order among ops of one index is that of the whole list. -/
theorem idxOf_listedUnder {a b : OpId} (ha : a ∈ listedUnder sel i) (hb : b ∈ listedUnder sel i)
    (hlt : (listedUnder sel i).idxOf a < (listedUnder sel i).idxOf b) :
    (sel.map Prod.fst).idxOf a < (sel.map Prod.fst).idxOf b := by
  rw [mem_listedUnder] at ha hb
  refine idxOf_lt_of_filter (fun p hp h => ?_) hlt
  rw [decide_eq_true_eq]
  exact h.elim (fun h => hone p hp _ ha h) fun h => hone p hp _ hb h

end

/-- An island of connected ops that the plugin lists under one index. -/
structure IsLinkedClass (g : Ir) (sel : List OpWithPartitionIndex) (I : List OpId) : Prop where
  ne_nil : I ≠ []
  sorted : I.Pairwise fun a b => (sel.map Prod.fst).idxOf a < (sel.map Prod.fst).idxOf b
  selected : ∀ a ∈ I, a ∈ sel.map Prod.fst
  mem_iff : ∀ a ∈ I, ∀ b, b ∈ I ↔ Linked g sel a b

section
variable {g : Ir} {root : Subgraph} (hwf : root.WellFormed g) {sel : List OpWithPartitionIndex}
  (hone : OneIndex sel) (hsel : ∀ p ∈ sel, p.1 ∈ root.ops)

include hwf hone hsel

theorem bucketsOfPartitions_spec (order : HashOrder) {es : List (UInt64 × List OpId)}
    (hes : ∀ e ∈ es, e ∈ group (sel.map Prod.swap))
    (hnd : (es.map Prod.fst).Nodup) : ∃ islands,
    es.foldlM (fun allBuckets entry => do
      let map ← disjointSets g entry.2
      let buckets ← getBuckets order map
      pure (allBuckets ++ buckets)) [] = some islands ∧
    (∀ I ∈ islands, IsLinkedClass g sel I ∧ ∃ e ∈ es, ∀ a ∈ I, a ∈ e.2) ∧
    (∀ e ∈ es, ∀ a ∈ e.2, ∃ I ∈ islands, a ∈ I) ∧
    (islands.Pairwise fun I J => ∀ o ∈ I, o ∉ J) ∧
    ∀ e, es.getLast? = some e → ∀ a ∈ e.2, ∃ front inv,
      islands = front ++ (order.invertMap inv).map Prod.snd ∧
      ∃ p ∈ inv, a ∈ p.2 ∧ IsLinkedClass g sel p.2 := by
  induction es using List.reverseRecOn with
  | nil => exact ⟨[], rfl, by simp, by simp, .nil, by simp⟩
  | append_singleton es e ih =>
    obtain ⟨islands, hf, hclass, hcover, hdisj, -⟩ :=
      ih (fun e' he' => hes e' (List.mem_append_left _ he'))
        (hnd.sublist ((List.sublist_append_left es [e]).map _))
    obtain ⟨hei, heops⟩ := mem_partitionMap.mp (hes e (by simp))
    have hops : ∀ o ∈ e.2, o ∈ root.ops := fun o ho => by
      rw [heops, mem_listedUnder] at ho
      exact hsel _ ho
    obtain ⟨inv, hinv, hcls, hcov, hinvdisj⟩ := buckets_spec hwf order hops
    have hperm : ((order.invertMap inv).map Prod.snd).Perm (inv.map Prod.snd) :=
      (order.invertMap_perm inv).map _
    have hnew {p : OpId × List OpId} (hp : p ∈ inv) : IsLinkedClass g sel p.2 := by
      have hc := hcls p hp
      rw [heops] at hc
      refine ⟨hc.ne_nil, hc.sorted.imp_of_mem fun ha hb hlt => ?_, fun a ha => ?_, fun a ha b => ?_⟩
      · exact idxOf_listedUnder hone (hc.subset _ ha) (hc.subset _ hb) hlt
      · exact List.mem_map_of_mem (f := Prod.fst) (mem_listedUnder.mp (hc.subset a ha))
      · rw [hc.mem_iff a ha, linked_iff hone (hc.subset a ha)]
    have hmem {I : List OpId} (hI : I ∈ (order.invertMap inv).map Prod.snd) :
        ∃ p ∈ inv, p.2 = I := List.mem_map.mp (hperm.subset hI)
    refine ⟨islands ++ (order.invertMap inv).map Prod.snd, ?_, fun I hI => ?_, fun e' he' a ha => ?_,
      List.pairwise_append.mpr ⟨hdisj, ?_, fun I hI J hJ o hoI hoJ => ?_⟩, fun e' he' a ha => ?_⟩
    · rw [List.foldlM_append, hf]
      rw [Option.bind_eq_some_iff] at hinv
      obtain ⟨map, hmap, hbuckets⟩ := hinv
      simp only [Option.bind_eq_bind, Option.bind_some, List.foldlM_cons, hmap, hbuckets]
      rfl
    · rcases List.mem_append.mp hI with hI | hI
      · obtain ⟨hc, e', he', hsub⟩ := hclass I hI
        exact ⟨hc, e', List.mem_append_left _ he', hsub⟩
      · obtain ⟨p, hp, rfl⟩ := hmem hI
        exact ⟨hnew hp, e, by simp, (hcls p hp).subset⟩
    · rcases List.mem_append.mp he' with he' | he'
      · obtain ⟨I, hI, haI⟩ := hcover e' he' a ha
        exact ⟨I, List.mem_append_left _ hI, haI⟩
      · rw [List.mem_singleton.mp he'] at ha
        obtain ⟨p, hp, hap⟩ := hcov a ha
        exact ⟨p.2, List.mem_append_right _ (hperm.symm.subset (List.mem_map_of_mem hp)), hap⟩
    · have hsymm : ∀ {x y : List OpId}, (∀ o ∈ x, o ∉ y) → ∀ o ∈ y, o ∉ x :=
        fun h o hy hx => h o hx hy
      exact hperm.symm.pairwise (List.pairwise_map.mpr hinvdisj) hsymm
    · obtain ⟨-, e', he', hsub⟩ := hclass I hI
      obtain ⟨p, hp, rfl⟩ := hmem hJ
      have h1 := hsub o hoI
      have h2 := (hcls p hp).subset o hoJ
      obtain ⟨-, heops'⟩ := mem_partitionMap.mp (hes e' (List.mem_append_left _ he'))
      rw [heops', mem_listedUnder] at h1
      rw [heops, mem_listedUnder] at h2
      have he := hone _ h1 _ h2 rfl
      rw [List.map_append, List.nodup_append] at hnd
      exact hnd.2.2 e'.1 (List.mem_map_of_mem he') e.1 (by simp) he
    · rw [List.getLast?_append, List.getLast?_singleton, Option.some_or] at he'
      cases he'
      obtain ⟨p, hp, hap⟩ := hcov a ha
      exact ⟨islands, inv, rfl, p, hp, hap, hnew hp⟩

/-- The islands of `GroupPartitions`: the classes of linked ops. -/
theorem groupPartitions_spec (order : HashOrder) : ∃ islands,
    groupPartitions order g sel = some islands ∧ (∀ I ∈ islands, IsLinkedClass g sel I) ∧
    (∀ a ∈ sel.map Prod.fst, ∃ I ∈ islands, a ∈ I) ∧
    islands.Pairwise fun I J => ∀ o ∈ I, o ∉ J := by
  have hperm := order.partitionMap_perm (group (sel.map Prod.swap))
  obtain ⟨islands, he, hclass, hcover, hdisj, -⟩ := bucketsOfPartitions_spec hwf hone hsel order
    (fun e hm => hperm.subset hm)
    ((hperm.map Prod.fst).nodup_iff.mpr (nodup_keys_group _))
  refine ⟨islands, he, fun I hI => (hclass I hI).1, fun a ha => ?_, hdisj⟩
  obtain ⟨⟨a', i⟩, hm, rfl⟩ := List.mem_map.mp ha
  refine hcover (i, listedUnder sel i) (hperm.symm.subset (mem_partitionMap.mpr
    ⟨List.mem_map_of_mem (f := Prod.snd) hm, rfl⟩)) a' (mem_listedUnder.mpr hm)

end

/-- A hash order in which the island `[d]` of the partition `i` comes last. -/
def lastOrder (i : UInt64) (d : OpId) : HashOrder where
  partitionMap l := l.filter (fun e => e.1 ≠ i) ++ l.filter fun e => e.1 = i
  invertMap l := l.filter (fun e => e.2 ≠ [d]) ++ l.filter fun e => e.2 = [d]
  partitionMap_perm l := by
    refine (List.perm_append_comm).trans ?_
    simpa using List.filter_append_perm (fun e : UInt64 × List OpId => decide (e.1 = i)) l
  invertMap_perm l := by
    refine (List.perm_append_comm).trans ?_
    simpa using List.filter_append_perm (fun e : OpId × List OpId => decide (e.2 = [d])) l

theorem getLast?_append_filter {α : Type*} {l l' : List α} {p : α → Bool} (h : ∃ a ∈ l', p a) :
    ∃ a ∈ l', p a ∧ (l ++ l'.filter p).getLast? = some a := by
  have hne : l'.filter p ≠ [] := by
    obtain ⟨a, ha, hp⟩ := h
    exact List.ne_nil_of_mem (List.mem_filter.mpr ⟨ha, hp⟩)
  obtain ⟨hm, hp⟩ := List.mem_filter.mp (List.getLast_mem hne)
  exact ⟨_, hm, hp, by
    rw [List.getLast?_append, List.getLast?_eq_some_getLast hne, Option.some_or]⟩

theorem groupPartitions_lastOrder {g : Ir} {root : Subgraph} (hwf : root.WellFormed g)
    (hone : OneIndex sel) (hsel : ∀ p ∈ sel, p.1 ∈ root.ops) {d : OpId} (hd : (d, i) ∈ sel)
    (hlinked : ∀ b, Linked g sel d b → b = d) :
    ∃ islands, groupPartitions (lastOrder i d) g sel = some islands ∧
      islands.getLast? = some [d] := by
  set order := lastOrder i d with horder
  have hperm := order.partitionMap_perm (group (sel.map Prod.swap))
  obtain ⟨islands, he, -, -, -, hlast⟩ := bucketsOfPartitions_spec hwf hone hsel order
    (fun e hm => hperm.subset hm)
    ((hperm.map Prod.fst).nodup_iff.mpr (nodup_keys_group _))
  refine ⟨islands, he, ?_⟩
  have hentry : (i, listedUnder sel i) ∈ group (sel.map Prod.swap) :=
    mem_partitionMap.mpr ⟨List.mem_map_of_mem (f := Prod.snd) hd, rfl⟩
  obtain ⟨e, hm, hei, hel⟩ := getLast?_append_filter
    (l := (group (sel.map Prod.swap)).filter fun e => e.1 ≠ i)
    (p := fun e : UInt64 × List OpId => decide (e.1 = i)) ⟨_, hentry, by simp⟩
  have hdm : d ∈ e.2 := by
    rw [(mem_partitionMap.mp hm).2, of_decide_eq_true hei, mem_listedUnder]
    exact hd
  obtain ⟨front, inv, hislands, p, hp, hdp, hcls⟩ := hlast e hel d hdm
  have hpd : p.2 = [d] := by
    have hall : ∀ b ∈ p.2, b = d := fun b hb => hlinked b ((hcls.mem_iff d hdp b).mp hb)
    have hnd : p.2.Nodup := hcls.sorted.imp fun hlt he => by
      rw [he] at hlt
      exact Nat.lt_irrefl _ hlt
    exact List.perm_singleton.mp
      ((List.perm_ext_iff_of_nodup hnd (List.nodup_singleton d)).mpr fun b =>
        ⟨fun hb => List.mem_singleton.mpr (hall b hb), fun hb => List.mem_singleton.mp hb ▸ hdp⟩)
  obtain ⟨q, -, hqd, hql⟩ := getLast?_append_filter (l := inv.filter fun e => e.2 ≠ [d])
    (p := fun e : OpId × List OpId => decide (e.2 = [d])) ⟨p, hp, by simp [hpd]⟩
  have hql' : (order.invertMap inv).getLast? = some q := hql
  rw [hislands, List.getLast?_append, List.getLast?_map, hql', Option.map_some,
    of_decide_eq_true hqd, Option.some_or]

end LiteRt.Plugin
