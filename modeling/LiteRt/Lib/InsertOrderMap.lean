import Mathlib.Data.Finset.Card
import Mathlib.Data.Finset.Dedup
import Mathlib.Data.List.Induction
import Mathlib.Data.List.Nodup
import Mathlib.Logic.Relation

/-!
# Insertion-ordered maps

A map as the list of its pairs in the order in which their keys were first
inserted. Assigning to a key keeps its place.
-/

namespace LiteRt.Lib

abbrev InsertOrderMap (K V : Type*) := List (K × V)

namespace InsertOrderMap

variable {K V : Type*} [DecidableEq K]

def find? (m : InsertOrderMap K V) (k : K) : Option V :=
  (List.find? (fun p => p.1 = k) m).map Prod.snd

def contains (m : InsertOrderMap K V) (k : K) : Bool := k ∈ m.map Prod.fst

def insertOrAssign (m : InsertOrderMap K V) (k : K) (v : V) : InsertOrderMap K V :=
  if contains m k then m.map fun p => if p.1 = k then (k, v) else p else m ++ [(k, v)]

theorem contains_iff {m : InsertOrderMap K V} {k : K} :
    contains m k = true ↔ k ∈ m.map Prod.fst := by simp only [contains, decide_eq_true_eq]

@[simp] theorem find?_nil (k : K) : find? ([] : InsertOrderMap K V) k = none := rfl

theorem find?_cons (p : K × V) (m : InsertOrderMap K V) (k : K) :
    find? (p :: m) k = if p.1 = k then some p.2 else find? m k := by
  simp only [find?, List.find?_cons]
  by_cases h : p.1 = k <;> simp [h]

theorem find?_eq_none {m : InsertOrderMap K V} {k : K} :
    find? m k = none ↔ k ∉ m.map Prod.fst := by
  simp only [find?, Option.map_eq_none_iff, List.find?_eq_none, decide_eq_true_eq, List.mem_map,
    not_exists, not_and]

theorem mem_of_find? {m : InsertOrderMap K V} {k : K} {v : V} (h : find? m k = some v) :
    (k, v) ∈ m := by
  simp only [find?, Option.map_eq_some_iff] at h
  obtain ⟨⟨k', v'⟩, hf, rfl⟩ := h
  have hk : k' = k := by simpa using List.find?_some hf
  exact hk ▸ List.mem_of_find?_eq_some hf

theorem isSome_find? {m : InsertOrderMap K V} {k : K} (h : k ∈ m.map Prod.fst) :
    ∃ v, find? m k = some v :=
  Option.ne_none_iff_exists'.mp fun hn => find?_eq_none.mp hn h

/-- With one pair for each key, a pair is what its key finds. -/
theorem find?_of_mem {m : InsertOrderMap K V} (hnd : (m.map Prod.fst).Nodup) {k : K} {v : V}
    (h : (k, v) ∈ m) : find? m k = some v := by
  induction m with
  | nil => simp at h
  | cons p m ih =>
    rw [List.map_cons, List.nodup_cons] at hnd
    rw [find?_cons]
    rcases List.mem_cons.mp h with rfl | h
    · simp
    · rw [if_neg, ih hnd.2 h]
      exact fun he => hnd.1 (List.mem_map.mpr ⟨(k, v), h, he.symm⟩)

theorem keys_insertOrAssign (m : InsertOrderMap K V) (k : K) (v : V) :
    (insertOrAssign m k v).map Prod.fst =
      if contains m k then m.map Prod.fst else m.map Prod.fst ++ [k] := by
  unfold insertOrAssign
  split
  · rw [List.map_map]
    refine List.map_congr_left fun p _ => ?_
    by_cases h : p.1 = k <;> simp [h]
  · simp

theorem mem_keys_insertOrAssign {m : InsertOrderMap K V} {k k' : K} {v : V} :
    k' ∈ (insertOrAssign m k v).map Prod.fst ↔ k' = k ∨ k' ∈ m.map Prod.fst := by
  rw [keys_insertOrAssign]
  split
  · next h =>
    have h := contains_iff.mp h
    exact ⟨.inr, fun h' => h'.elim (fun he => he ▸ h) id⟩
  · simp [or_comm]

theorem nodup_keys_insertOrAssign {m : InsertOrderMap K V} (h : (m.map Prod.fst).Nodup) (k : K)
    (v : V) : ((insertOrAssign m k v).map Prod.fst).Nodup := by
  rw [keys_insertOrAssign]
  split
  · exact h
  · next hc =>
    refine List.nodup_append.mpr ⟨h, List.nodup_singleton _, ?_⟩
    rintro a ha b hb rfl
    exact hc (contains_iff.mpr (List.mem_singleton.mp hb ▸ ha))

theorem find?_insertOrAssign (m : InsertOrderMap K V) (k k' : K) (v : V) :
    find? (insertOrAssign m k v) k' = if k' = k then some v else find? m k' := by
  unfold insertOrAssign
  split
  · next hc =>
    have hc := contains_iff.mp hc
    clear * - hc
    induction m with
    | nil => simp at hc
    | cons p m ih =>
      rw [List.map_cons, find?_cons, find?_cons]
      by_cases hp : p.1 = k
      · by_cases hk : k' = k
        · subst hk
          simp [hp]
        · rw [if_pos hp, if_neg (fun h => hk h.symm), if_neg hk, hp, if_neg (fun h => hk h.symm)]
          by_cases hm : k ∈ m.map Prod.fst
          · rw [ih hm, if_neg hk]
          · congr 1
            conv_rhs => rw [← List.map_id m]
            refine List.map_congr_left fun q hq => if_neg fun he => ?_
            exact hm (List.mem_map.mpr ⟨q, hq, he⟩)
      · have hm : k ∈ m.map Prod.fst := by
          rw [List.map_cons, List.mem_cons] at hc
          exact hc.resolve_left fun h => hp h.symm
        rw [if_neg hp, ih hm]
        by_cases hk : k' = k
        · subst hk
          simp [hp]
        · simp [hk]
  · next hc =>
    have hc : k ∉ m.map Prod.fst := fun h => hc (contains_iff.mpr h)
    clear * - hc
    induction m with
    | nil => simp [find?_cons, eq_comm]
    | cons p m ih =>
      rw [List.map_cons, List.mem_cons, not_or] at hc
      rw [List.cons_append, find?_cons, find?_cons, ih hc.2]
      by_cases hp : p.1 = k'
      · have : k' ≠ k := fun h => hc.1 (hp.trans h).symm
        simp [hp, this]
      · simp [hp]

/-- Assigning fresh keys one after the other appends them. -/
theorem insertOrAssign_of_not_contains {m : InsertOrderMap K V} {k : K}
    (h : k ∉ m.map Prod.fst) (v : V) : insertOrAssign m k v = m ++ [(k, v)] :=
  if_neg fun hc => h (contains_iff.mp hc)

/-- Keys keep their values when pairs are appended. -/
theorem find?_append {m : InsertOrderMap K V} {k : K} (h : k ∈ m.map Prod.fst)
    (m' : InsertOrderMap K V) : find? (m ++ m') k = find? m k := by
  obtain ⟨v, hv⟩ := isSome_find? h
  rw [hv]
  simp only [find?, Option.map_eq_some_iff] at hv ⊢
  obtain ⟨p, hp, rfl⟩ := hv
  exact ⟨p, by rw [List.find?_append, hp, Option.some_or], rfl⟩

/-- `emplace`: a key that is there keeps its value. -/
def emplace (m : InsertOrderMap K V) (k : K) (v : V) : InsertOrderMap K V :=
  if contains m k then m else m ++ [(k, v)]

theorem find?_emplace (m : InsertOrderMap K V) (k k' : K) (v : V) :
    find? (emplace m k v) k' =
      if find? m k' = none ∧ k' = k then some v else find? m k' := by
  unfold emplace
  by_cases hk : k ∈ m.map Prod.fst
  · rw [if_pos (contains_iff.2 hk), if_neg]
    rintro ⟨hnone, rfl⟩
    exact find?_eq_none.1 hnone hk
  · rw [if_neg fun hc => hk (contains_iff.1 hc)]
    by_cases hk' : k' ∈ m.map Prod.fst
    · rw [find?_append hk', if_neg]
      exact fun h => find?_eq_none.1 h.1 hk'
    · have hnone := find?_eq_none.2 hk'
      have hfirst : find? (m ++ [(k, v)]) k' = find? [(k, v)] k' := by
        simp only [find?, Option.map_eq_none_iff] at hnone
        simp only [find?, List.find?_append, hnone, Option.none_or]
      rw [hfirst, find?_cons, find?_nil, hnone]
      by_cases heq : k = k'
      · rw [if_pos heq, if_pos ⟨rfl, heq.symm⟩]
      · rw [if_neg heq, if_neg fun h => heq h.2.symm]

theorem emplace_of_find?_some {m : InsertOrderMap K V} {k : K} {v : V} (h : find? m k = some v)
    (v' : V) : emplace m k v' = m :=
  if_pos (contains_iff.2 (List.mem_map_of_mem (f := Prod.fst) (mem_of_find? h)))

theorem emplace_of_find?_none {m : InsertOrderMap K V} {k : K} (h : find? m k = none) (v : V) :
    emplace m k v = m ++ [(k, v)] :=
  if_neg fun hc => find?_eq_none.1 h (contains_iff.1 hc)

theorem mem_emplace {m : InsertOrderMap K V} {k : K} {v : V} {p : K × V} (h : p ∈ emplace m k v) :
    p ∈ m ∨ p = (k, v) := by
  unfold emplace at h
  split at h
  · exact .inl h
  · rcases List.mem_append.1 h with h | h
    · exact .inl h
    · exact .inr (List.mem_singleton.1 h)

theorem subset_emplace (m : InsertOrderMap K V) (k : K) (v : V) : m ⊆ emplace m k v := by
  intro p h
  unfold emplace
  split
  · exact h
  · exact List.mem_append_left _ h

/-- Assigning many keys lists them by first occurrence. -/
theorem foldl_insertOrAssign_self (l : List K) :
    let m := l.foldl (fun m k => insertOrAssign m k k) ([] : InsertOrderMap K K)
    (m.map Prod.fst).Nodup ∧ (∀ p ∈ m, p.1 = p.2) ∧ (∀ k, k ∈ m.map Prod.fst ↔ k ∈ l) ∧
      (m.map Prod.fst).Pairwise fun a b => l.idxOf a < l.idxOf b := by
  induction l using List.reverseRecOn with
  | nil => exact ⟨.nil, by simp, by simp, .nil⟩
  | append_singleton l k ih =>
    obtain ⟨hnd, hself, hmem, hpair⟩ := ih
    simp only [List.foldl_append, List.foldl_cons, List.foldl_nil]
    set m := l.foldl (fun m k => insertOrAssign m k k) ([] : InsertOrderMap K K)
    have hidx {a : K} (ha : a ∈ l) : (l ++ [k]).idxOf a = l.idxOf a := List.idxOf_append_of_mem ha
    refine ⟨nodup_keys_insertOrAssign hnd k k, fun p hp => ?_, fun k' => ?_, ?_⟩
    · have hf := find?_of_mem (nodup_keys_insertOrAssign hnd k k) hp
      rw [find?_insertOrAssign] at hf
      split at hf
      · next he => exact he.trans (Option.some.inj hf)
      · exact hself p (mem_of_find? hf)
    · rw [mem_keys_insertOrAssign, hmem, List.mem_append, List.mem_singleton, or_comm]
    · have hpair' : (m.map Prod.fst).Pairwise fun a b => (l ++ [k]).idxOf a < (l ++ [k]).idxOf b := by
        refine hpair.imp_of_mem fun {a b} ha hb hlt => ?_
        rwa [hidx ((hmem a).mp ha), hidx ((hmem b).mp hb)]
      rw [keys_insertOrAssign]
      split
      · exact hpair'
      · next hc =>
        have hk : k ∉ l := fun hk => hc (contains_iff.mpr ((hmem k).mpr hk))
        refine List.pairwise_append.mpr ⟨hpair', List.pairwise_singleton _ _, fun a ha b hb => ?_⟩
        rw [List.mem_singleton.mp hb, hidx ((hmem a).mp ha), List.idxOf_append_of_notMem hk]
        exact Nat.lt_of_lt_of_le (List.idxOf_lt_length_of_mem ((hmem a).mp ha)) (Nat.le_add_right ..)

/-! ## Grouping -/

/-- `m[k].push_back(v)`. -/
def pushBack (m : InsertOrderMap K (List V)) (k : K) (v : V) : InsertOrderMap K (List V) :=
  insertOrAssign m k ((find? m k).getD [] ++ [v])

/-- The values of each key in order. -/
def group (l : List (K × V)) : InsertOrderMap K (List V) :=
  l.foldl (fun m p => pushBack m p.1 p.2) []

theorem group_append_singleton (l : List (K × V)) (p : K × V) :
    group (l ++ [p]) = pushBack (group l) p.1 p.2 := by
  rw [group, List.foldl_append]
  rfl

theorem nodup_keys_group (l : List (K × V)) : ((group l).map Prod.fst).Nodup := by
  induction l using List.reverseRecOn with
  | nil => exact .nil
  | append_singleton l p ih =>
    rw [group_append_singleton]
    exact nodup_keys_insertOrAssign ih _ _

theorem find?_group (l : List (K × V)) (k : K) : find? (group l) k =
    if k ∈ l.map Prod.fst then some ((l.filter fun p => p.1 = k).map Prod.snd) else none := by
  induction l using List.reverseRecOn with
  | nil => rfl
  | append_singleton l p ih =>
    rw [group_append_singleton, pushBack, find?_insertOrAssign]
    by_cases hk : k = p.1
    · subst hk
      rw [if_pos rfl, if_pos (by simp), ih, List.filter_append, List.map_append]
      split
      · simp
      · next hm =>
        have hnil : l.filter (fun q => q.1 = p.1) = [] := List.filter_eq_nil_iff.mpr
          fun q hq => by simpa using fun he => hm (List.mem_map.mpr ⟨q, hq, he⟩)
        simp [hnil]
    · have hk' : p.1 ≠ k := fun h => hk h.symm
      have hm : k ∈ (l ++ [p]).map Prod.fst ↔ k ∈ l.map Prod.fst := by
        rw [List.map_append, List.mem_append]
        exact or_iff_left (by simpa using hk)
      rw [if_neg hk, ih]
      simp only [hm, List.filter_append, hk', decide_false, List.filter_nil, List.append_nil,
        List.filter_cons, Bool.false_eq_true, ↓reduceIte]

/-- The groups are the keys with their values. -/
theorem mem_group {l : List (K × V)} {k : K} {vs : List V} : (k, vs) ∈ group l ↔
    k ∈ l.map Prod.fst ∧ vs = (l.filter fun p => p.1 = k).map Prod.snd := by
  have hf := find?_group l k
  constructor
  · intro hm
    rw [find?_of_mem (nodup_keys_group l) hm] at hf
    split at hf
    · next hk => exact ⟨hk, Option.some.inj hf⟩
    · cases hf
  · rintro ⟨hk, rfl⟩
    rw [if_pos hk] at hf
    exact mem_of_find? hf

end InsertOrderMap

/-!
## Disjoint sets as parent maps

Each key has a parent, a root is its own. `root` says which root each key leads to, and
a rank that falls towards the root bounds the way there. Redirecting a key to its root
keeps the roots; linking one root below another joins two classes.
-/

variable {K : Type*} [DecidableEq K]

structure ParentMap (m : InsertOrderMap K K) (root : K → K) : Prop where
  nodup : (m.map Prod.fst).Nodup
  parent : ∀ k p, m.find? k = some p → p ∈ m.map Prod.fst ∧ root p = root k
  root_parent : ∀ k ∈ m.map Prod.fst, m.find? (root k) = some (root k)
  root_of_self : ∀ k, m.find? k = some k → root k = k
  rank : ∃ rank : K → Nat, ∀ k p, m.find? k = some p → p ≠ k → rank p < rank k

namespace ParentMap

open InsertOrderMap

variable {m : InsertOrderMap K K} {root : K → K}

/-- Every key alone in its class. -/
theorem singletons (hnd : (m.map Prod.fst).Nodup) (hself : ∀ p ∈ m, p.1 = p.2) :
    ParentMap m id where
  nodup := hnd
  parent k p hp := by
    have hm := mem_of_find? hp
    obtain rfl : k = p := hself _ hm
    exact ⟨List.mem_map_of_mem hm, rfl⟩
  root_parent k hk := by
    obtain ⟨⟨k', p⟩, hm, rfl⟩ := List.mem_map.mp hk
    obtain rfl : k' = p := hself _ hm
    exact find?_of_mem hnd hm
  root_of_self _ _ := rfl
  rank := ⟨fun _ => 0, fun k p hp hne => absurd (hself _ (mem_of_find? hp)).symm hne⟩

variable (h : ParentMap m root)

include h

theorem root_mem {k : K} (hk : k ∈ m.map Prod.fst) : root k ∈ m.map Prod.fst :=
  List.mem_map_of_mem (mem_of_find? (h.root_parent k hk))

theorem root_root {k : K} (hk : k ∈ m.map Prod.fst) : root (root k) = root k :=
  h.root_of_self _ (h.root_parent k hk)

/-- The way to the root gets shorter at each step. -/
theorem exists_height : ∃ height : K → Nat, (∀ k ∈ m.map Prod.fst, height k < m.length) ∧
    (∀ k p, m.find? k = some p → p ≠ k → height p < height k) ∧
    ∀ k ∈ m.map Prod.fst, root k ≠ k → height (root k) < height k := by
  obtain ⟨rank, hrank⟩ := h.rank
  let below (k : K) : Finset K := (m.map Prod.fst).toFinset.filter fun k' => rank k' < rank k
  have hlt {k k' : K} (hk' : k' ∈ m.map Prod.fst) (hr : rank k' < rank k) :
      (below k').card < (below k).card := by
    refine Finset.card_lt_card ⟨fun a ha => ?_, fun hsub => ?_⟩
    · rw [Finset.mem_filter] at ha ⊢
      exact ⟨ha.1, ha.2.trans hr⟩
    · have hm : k' ∈ below k' := hsub (Finset.mem_filter.mpr ⟨List.mem_toFinset.mpr hk', hr⟩)
      exact Nat.lt_irrefl _ (Finset.mem_filter.mp hm).2
  have hstep (k p : K) (hp : m.find? k = some p) (hne : p ≠ k) :
      (below p).card < (below k).card := hlt (h.parent k p hp).1 (hrank k p hp hne)
  refine ⟨fun k => (below k).card, fun k hk => ?_, hstep, fun k hk => ?_⟩
  · have hss : below k ⊂ (m.map Prod.fst).toFinset :=
      ⟨Finset.filter_subset _ _, fun hsub =>
        Nat.lt_irrefl _ (Finset.mem_filter.mp (hsub (List.mem_toFinset.mpr hk))).2⟩
    refine Nat.lt_of_lt_of_le (Finset.card_lt_card hss) ?_
    exact (List.toFinset_card_le _).trans_eq (List.length_map ..)
  · induction hn : (below k).card using Nat.strongRecOn generalizing k with
    | ind n ih =>
      intro hne
      obtain ⟨p, hp⟩ := isSome_find? hk
      have hpk : p ≠ k := by
        rintro rfl
        exact hne (h.root_of_self _ hp)
      obtain ⟨hpm, hpr⟩ := h.parent k p hp
      have hlt := hstep k p hp hpk
      by_cases hrp : root p = p
      · rw [← hpr, hrp]
        exact hlt
      · rw [← hpr]
        exact Nat.lt_trans (ih _ (hn ▸ hlt) p hpm rfl hrp) hlt

omit h in
theorem keys_assign {k : K} (hk : k ∈ m.map Prod.fst) (v : K) :
    (m.insertOrAssign k v).map Prod.fst = m.map Prod.fst := by
  rw [keys_insertOrAssign, if_pos (contains_iff.mpr hk)]

/-- Redirecting a key to its root. -/
theorem compress {k : K} (hk : k ∈ m.map Prod.fst) :
    ParentMap (m.insertOrAssign k (root k)) root := by
  have hkeys := keys_assign hk (root k)
  obtain ⟨height, -, hheight, hroot⟩ := h.exists_height
  constructor
  case nodup => exact hkeys ▸ h.nodup
  case parent =>
    intro k' p hp
    rw [find?_insertOrAssign] at hp
    rw [hkeys]
    split at hp
    · next he =>
      cases hp
      exact ⟨h.root_mem hk, by rw [he, h.root_root hk]⟩
    · exact h.parent k' p hp
  case root_parent =>
    intro k' hk'
    rw [find?_insertOrAssign]
    split
    · next he => rw [← he, h.root_root (hkeys ▸ hk')]
    · exact h.root_parent k' (hkeys ▸ hk')
  case root_of_self =>
    intro k' hk'
    rw [find?_insertOrAssign] at hk'
    split at hk'
    · next he =>
      rw [he] at hk' ⊢
      exact Option.some.inj hk'
    · exact h.root_of_self k' hk'
  case rank =>
    refine ⟨height, fun k' p hp hne => ?_⟩
    rw [find?_insertOrAssign] at hp
    split at hp
    · next he =>
      cases hp
      rw [he] at hne ⊢
      exact hroot k hk hne
    · exact hheight k' p hp hne

/-- Linking the root `a` below the root `b`. -/
theorem link {a b : K} (ha : a ∈ m.map Prod.fst) (hb : b ∈ m.map Prod.fst) (hra : root a = a)
    (hrb : root b = b) (hne : a ≠ b) :
    ParentMap (m.insertOrAssign a b) fun k => if root k = a then b else root k := by
  have hkeys := keys_assign ha b
  obtain ⟨rank, hrank⟩ := h.rank
  constructor
  case nodup => exact hkeys ▸ h.nodup
  case parent =>
    intro k p hp
    rw [find?_insertOrAssign] at hp
    rw [hkeys]
    split at hp
    · next he =>
      cases hp
      refine ⟨hb, ?_⟩
      rw [he, hrb, hra, if_pos rfl, if_neg hne.symm]
    · obtain ⟨hm, hr⟩ := h.parent k p hp
      exact ⟨hm, by rw [hr]⟩
  case root_parent =>
    intro k hk
    split
    · rw [find?_insertOrAssign, if_neg hne.symm, ← hrb]
      exact h.root_parent b hb
    · next hka =>
      rw [find?_insertOrAssign, if_neg hka]
      exact h.root_parent k (hkeys ▸ hk)
  case root_of_self =>
    intro k hk
    rw [find?_insertOrAssign] at hk
    split at hk
    · next he => exact absurd (he ▸ Option.some.inj hk) hne.symm
    · next hka =>
      have := h.root_of_self k hk
      rw [this, if_neg hka]
  case rank =>
    refine ⟨fun k => if root k = a then rank k + rank b + 1 else rank k, fun k p hp hpk => ?_⟩
    rw [find?_insertOrAssign] at hp
    split at hp
    · next he =>
      cases hp
      simp only [he, hra, hrb, ↓reduceIte, hne.symm]
      exact Nat.lt_succ_of_le (Nat.le_add_left ..)
    · simp only [(h.parent k p hp).2]
      have := hrank k p hp hpk
      split <;> omega

end ParentMap

/-! ### Classes -/

omit [DecidableEq K] in
theorem eqvGen_empty {a b : K} : Relation.EqvGen (fun _ _ : K => False) a b ↔ a = b := by
  refine ⟨fun h => ?_, fun h => h ▸ .refl a⟩
  induction h with
  | rel _ _ hf => exact hf.elim
  | refl _ => rfl
  | symm _ _ _ ih => exact ih.symm
  | trans _ _ _ _ _ ih1 ih2 => exact ih1.trans ih2

omit [DecidableEq K] in
/-- What no edge touches is a class of its own. -/
theorem eqvGen_isolated {R : K → K → Prop} {S : K → Prop} (h : ∀ x y, R x y → ¬ S x ∧ ¬ S y)
    {a b : K} (hab : Relation.EqvGen R a b) : S a ∨ S b → a = b := by
  induction hab with
  | rel x y hxy => exact fun hs => (hs.elim (h x y hxy).1 (h x y hxy).2).elim
  | refl _ => exact fun _ => rfl
  | symm _ _ _ ih => exact fun hs => (ih hs.symm).symm
  | trans x y z _ _ ih1 ih2 =>
    rintro (hs | hs)
    · obtain rfl := ih1 (.inl hs)
      exact ih2 (.inl hs)
    · obtain rfl := ih2 (.inr hs)
      exact ih1 (.inr hs)

/-- Linking along the edge from `x` to `y` joins their classes. -/
theorem eqvGen_link {R : K → K → Prop} {root : K → K} {S : K → Prop}
    (h : ∀ k k', S k → S k' → (root k = root k' ↔ Relation.EqvGen R k k')) {x y : K} (hx : S x)
    (hy : S y) {root' : K → K}
    (hroot' : ∀ k, root' k = if root k = root x then root y else root k)
    (hS : ∀ k k', R k k' → S k ∧ S k') {k k' : K} (hk : S k) (hk' : S k') :
    root' k = root' k' ↔ Relation.EqvGen (fun a b => R a b ∨ (a = x ∧ b = y)) k k' := by
  have hmono {a b : K} (hab : Relation.EqvGen R a b) :
      Relation.EqvGen (fun a b => R a b ∨ (a = x ∧ b = y)) a b :=
    hab.mono fun _ _ => .inl
  have hxy : Relation.EqvGen (fun a b => R a b ∨ (a = x ∧ b = y)) x y := .rel _ _ (.inr ⟨rfl, rfl⟩)
  constructor
  · intro he
    rw [hroot', hroot'] at he
    split at he <;> split at he
    · next h1 h2 => exact hmono ((h k k' hk hk').mp (h1.trans h2.symm))
    · next h1 h2 =>
      exact (hmono ((h k x hk hx).mp h1)).trans _ _ _
        (hxy.trans _ _ _ (hmono ((h y k' hy hk').mp he)))
    · next h1 h2 =>
      exact (hmono ((h k y hk hy).mp he)).trans _ _ _
        ((hxy.symm _ _).trans _ _ _ (hmono ((h x k' hx hk').mp h2.symm)))
    · exact hmono ((h k k' hk hk').mp he)
  · intro he
    clear hk hk'
    induction he with
    | rel a b hab =>
      rw [hroot', hroot']
      rcases hab with hab | ⟨rfl, rfl⟩
      · obtain ⟨ha, hb⟩ := hS a b hab
        rw [(h a b ha hb).mpr (.rel _ _ hab)]
      · rw [if_pos rfl]
        split <;> rfl
    | refl a => rfl
    | symm a b _ ih => exact ih.symm
    | trans a b c _ _ ih1 ih2 => exact ih1.trans ih2

end LiteRt.Lib
