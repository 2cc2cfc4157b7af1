import LiteRt.Remat.Bookkeeping
import Mathlib.Data.List.Nodup

/-!
# Uses after a rematerialization

The inserted operations use what the cloned ones use. A tensor created in the cloned range gets
a new tensor, which takes over all uses from the insertion on.
-/

namespace LiteRt.Remat

open LiteRt.Lib RematSpec List

namespace Rematerializer

/-- Operation `o` uses tensor `t`. -/
def Uses (s : Rematerializer) (o t : Nat) : Prop :=
  ∃ tensor : Tensor, s.tensors[t]? = some tensor ∧ o ∈ tensor.operations

/-- A valid state with the operations and tensors of another one, but for uses. -/
structure Keeps (s s' : Rematerializer) : Prop where
  valid : s'.Valid
  operations : s'.operations.length = s.operations.length
  sizes : s'.tensors.map Tensor.size = s.tensors.map Tensor.size

end Rematerializer

open Rematerializer

variable {s s' : Rematerializer}

theorem Rematerializer.Keeps.refl (h : s.Valid) : Keeps s s := ⟨h, rfl, rfl⟩

theorem Rematerializer.Keeps.trans {s'' : Rematerializer} (h : Keeps s s') (h' : Keeps s' s'') :
    Keeps s s'' :=
  ⟨h'.valid, h'.operations.trans h.operations, h'.sizes.trans h.sizes⟩

theorem Rematerializer.Keeps.tensors (h : Keeps s s') : s'.tensors.length = s.tensors.length := by
  have hlen := congrArg List.length h.sizes
  rwa [length_map, length_map] at hlen

theorem Rematerializer.Uses.tensor_lt {o t : Nat} (h : s.Uses o t) : t < s.tensors.length := by
  obtain ⟨tensor, ht, -⟩ := h
  exact (List.getElem?_eq_some_iff.1 ht).1

theorem Rematerializer.Uses.operation_lt {o t : Nat} (hu : s.Uses o t) (h : s.Valid) :
    o < s.operations.length := by
  obtain ⟨tensor, ht, ho⟩ := hu
  exact h.operation_lt ht o ho

theorem uses_iff {o t : Nat} {tensor : Tensor} (ht : s.tensors[t]? = some tensor) :
    s.Uses o t ↔ o ∈ tensor.operations := by
  constructor
  · rintro ⟨tensor', ht', ho⟩
    rw [ht] at ht'
    cases ht'
    exact ho
  · exact fun ho => ⟨tensor, ht, ho⟩

/-- The tensors in an operation's own list are those it uses. -/
theorem mem_tensors_iff (h : s.Valid) {o t : Nat} (ho : o < s.operations.length) :
    t ∈ (s.operations.getD o default).tensors ↔ s.Uses o t := by
  have hget : s.operations[o]? = some (s.operations.getD o default) := by
    rw [getD_eq_getElem?_getD, getElem?_eq_getElem ho, Option.getD_some]
  constructor
  · intro hmem
    have ht := getElem?_eq_getElem (h.tensor_lt hget t hmem)
    exact ⟨_, ht, (h.mem_iff hget ht).1 hmem⟩
  · rintro ⟨tensor, ht, hmem⟩
    exact (h.mem_iff hget ht).2 hmem

theorem sorted_tensors (h : s.Valid) {o : Nat} (ho : o < s.operations.length) :
    (s.operations.getD o default).tensors.Pairwise (· < ·) := by
  refine h.operation_sorted (o := o) ?_
  rw [getD_eq_getElem?_getD, getElem?_eq_getElem ho, Option.getD_some]

/-! ## What one use changes -/

theorem ChangesUse.sizes {o t : Nat} {old new : Tensor} {uses : List Nat → List Nat}
    (hc : ChangesUse s s' o t old new uses) (ht : s.tensors[t]? = some old) :
    s'.tensors.map Tensor.size = s.tensors.map Tensor.size := by
  rw [hc.tensors]
  refine ext_getElem? fun u => ?_
  rw [getElem?_map, getElem?_map, getElem?_modify]
  by_cases htu : t = u
  · subst htu
    rw [ht]
    simp [hc.size]
  · simp [htu]

theorem ChangesUse.uses_iff {o t : Nat} {old new : Tensor} {uses : List Nat → List Nat}
    (hc : ChangesUse s s' o t old new uses) (ht : s.tensors[t]? = some old) {x u : Nat} :
    s'.Uses x u ↔ if u = t then x ∈ new.operations else s.Uses x u := by
  have hget : s'.tensors[u]? = if u = t then some new else s.tensors[u]? := by
    rw [hc.tensors, getElem?_modify]
    by_cases htu : t = u
    · subst htu
      rw [ht, if_pos rfl]
      simp
    · rw [if_neg (Ne.symm htu)]
      simp [htu]
  unfold Rematerializer.Uses
  rw [hget]
  split <;> simp

theorem addUse_keeps (h : s.Valid) {o t : Nat} (ho : o < s.operations.length)
    (ht : t < s.tensors.length) :
    Keeps s (s.addUse o t) ∧ ∀ x u : Nat, (s.addUse o t).Uses x u ↔ s.Uses x u ∨ x = o ∧ u = t := by
  have hget : s.tensors[t]? = some s.tensors[t] := getElem?_eq_getElem ht
  have hc := addUse_changes (o := o) hget (h.tensor_sorted hget)
  refine ⟨⟨h.addUse ho ht, hc.length_operations, hc.sizes hget⟩, fun x u => ?_⟩
  rw [hc.uses_iff hget]
  split
  · rename_i hu
    subst hu
    rw [mem_insertSorted, Remat.uses_iff hget, and_iff_left rfl]
    exact or_comm
  · rename_i hu
    exact (or_iff_left fun hx => hu hx.2).symm

theorem delUse_keeps (h : s.Valid) {o t : Nat} (ho : o < s.operations.length)
    (ht : t < s.tensors.length) :
    Keeps s (s.delUse o t) ∧
      ∀ x u : Nat, (s.delUse o t).Uses x u ↔ s.Uses x u ∧ ¬ (x = o ∧ u = t) := by
  have hget : s.tensors[t]? = some s.tensors[t] := getElem?_eq_getElem ht
  have hsorted := h.tensor_sorted hget
  have hc := delUse_changes (o := o) hget hsorted
  refine ⟨⟨h.delUse ho ht, hc.length_operations, hc.sizes hget⟩, fun x u => ?_⟩
  rw [hc.uses_iff hget]
  split
  · rename_i hu
    subst hu
    rw [mem_eraseSorted hsorted, Remat.uses_iff hget, and_iff_left rfl]
  · rename_i hu
    exact (and_iff_left fun hx => hu hx.2).symm

/-! ## Copying the old region -/

/-- Below a bound, two valid states see the same first use if they see the same uses. -/
theorem firstUse_congr (h : s.Valid) (h' : s'.Valid) {t o bound : Nat}
    (huses : ∀ x, x < bound → (s'.Uses x t ↔ s.Uses x t)) (ho : o < bound) (hu : s.Uses o t) :
    (s'.tensors.getD t default).firstUse = (s.tensors.getD t default).firstUse := by
  have hu' : s'.Uses o t := (huses o ho).2 hu
  have hget : s.tensors[t]? = some (s.tensors.getD t default) := by
    rw [getD_eq_getElem?_getD, getElem?_eq_getElem hu.tensor_lt, Option.getD_some]
  have hget' : s'.tensors[t]? = some (s'.tensors.getD t default) := by
    rw [getD_eq_getElem?_getD, getElem?_eq_getElem hu'.tensor_lt, Option.getD_some]
  rw [uses_iff hget] at hu
  rw [uses_iff hget'] at hu'
  have hsorted := h.tensor_sorted hget
  have hsorted' := h'.tensor_sorted hget'
  obtain ⟨hmem, hmin⟩ := (head?_eq_some_iff_least hsorted).1
    (firstUse_le_lastUse hsorted (ne_nil_of_mem hu)).1
  obtain ⟨hmem', hmin'⟩ := (head?_eq_some_iff_least hsorted').1
    (firstUse_le_lastUse hsorted' (ne_nil_of_mem hu')).1
  have hle := hmin o hu
  have hle' := hmin' o hu'
  refine le_antisymm (hmin' _ ?_) (hmin _ ?_)
  · exact (uses_iff hget').1 ((huses _ (by omega)).2 ((uses_iff hget).2 hmem))
  · exact (uses_iff hget).1 ((huses _ (by omega)).1 ((uses_iff hget').2 hmem'))

/-- `done` lists the uses that were copied: operation `begin + k` uses `t`. -/
structure Copied (s : Rematerializer) (remat : RematSpec) (done : List (Nat × Nat))
    (acc : Rematerializer × List (Nat × Nat)) : Prop where
  valid : acc.1.Valid
  operations : acc.1.operations.length = s.operations.length
  sizes : acc.1.tensors.map Tensor.size = s.tensors.map Tensor.size ++
    acc.2.map fun clone => (s.tensors.getD clone.1 default).size
  numbers : acc.2.map Prod.snd = List.range' s.tensors.length acc.2.length
  nodup : (acc.2.map Prod.fst).Nodup
  cloned : ∀ t : Nat, t ∈ acc.2.map Prod.fst ↔
    ∃ k : Nat, (k, t) ∈ done ∧ (s.tensors.getD t default).firstUse = remat.begin + k
  uses : ∀ o t : Nat, acc.1.Uses o t ↔ s.Uses o t ∨ ∃ k : Nat, (k, t) ∈ done ∧ o = remat.insert + k

namespace Copied
variable {remat : RematSpec} {done : List (Nat × Nat)} {acc : Rematerializer × List (Nat × Nat)}

theorem nil (h : s.Valid) : Copied s remat [] (s, []) where
  valid := h
  operations := rfl
  sizes := (append_nil _).symm
  numbers := rfl
  nodup := .nil
  cloned := by simp
  uses := by simp

theorem tensors (h : Copied s remat done acc) :
    acc.1.tensors.length = s.tensors.length + acc.2.length := by
  have hlen := congrArg List.length h.sizes
  rwa [length_map, length_append, length_map, length_map] at hlen

/-- Operations before the insertion use what they used. -/
theorem uses_before (h : Copied s remat done acc) {o t : Nat} (ho : o < remat.insert) :
    acc.1.Uses o t ↔ s.Uses o t := by
  rw [h.uses]
  refine or_iff_left ?_
  rintro ⟨k, -, rfl⟩
  omega

theorem addTensor {size : Int} (o t : Nat) :
    (acc.1.addTensor size).Uses o t ↔ acc.1.Uses o t := by
  constructor
  · rintro ⟨tensor, ht, ho⟩
    rcases getElem?_concat_eq_some ht with ht | ⟨-, rfl⟩
    · exact ⟨tensor, ht, ho⟩
    · cases ho
  · rintro ⟨tensor, ht, ho⟩
    refine ⟨tensor, ?_, ho⟩
    have hlt := (List.getElem?_eq_some_iff.1 ht).1
    unfold Rematerializer.addTensor
    rw [getElem?_append_left hlt, ht]

theorem size_eq (h : Copied s remat done acc) {t : Nat} (ht : t < s.tensors.length) :
    (acc.1.tensors.getD t default).size = (s.tensors.getD t default).size := by
  have hget := congrArg (fun l => l[t]?) h.sizes
  have hlt : t < (s.tensors.map Tensor.size).length := by rwa [length_map]
  have hlt' : t < acc.1.tensors.length := by
    rw [h.tensors]
    omega
  simp only [getElem?_append_left hlt, getElem?_map, getElem?_eq_getElem ht,
    getElem?_eq_getElem hlt', Option.map_some, Option.some_inj] at hget
  rw [getD_eq_getElem?_getD, getD_eq_getElem?_getD, getElem?_eq_getElem ht,
    getElem?_eq_getElem hlt', Option.getD_some, Option.getD_some]
  exact hget

theorem step (h : Copied s remat done acc) (hs : s.Valid) {k t : Nat}
    (hu : s.Uses (remat.begin + k) t) (hk : remat.begin + k < remat.insert)
    (hins : remat.insert + k < s.operations.length) (hfresh : (k, t) ∉ done) :
    Copied s remat (done ++ [(k, t)]) (copyUse (remat.begin + k) (remat.insert + k) acc t) := by
  have hfirst : (acc.1.tensors.getD t default).firstUse = (s.tensors.getD t default).firstUse :=
    firstUse_congr hs h.valid (fun x hx => h.uses_before hx) hk hu
  have hmem : ∀ {k' t' : Nat}, (k', t') ∈ done ++ [(k, t)] ↔ (k', t') ∈ done ∨ k' = k ∧ t' = t := by
    intro k' t'
    rw [mem_append, mem_singleton, Prod.mk.injEq]
  have hcopied : ∀ o t' : Nat, acc.1.Uses o t' ∨ o = remat.insert + k ∧ t' = t ↔
      s.Uses o t' ∨ ∃ k' : Nat, (k', t') ∈ done ++ [(k, t)] ∧ o = remat.insert + k' := by
    intro o t'
    rw [h.uses]
    constructor
    · rintro ((hu' | ⟨k', hk', rfl⟩) | ⟨rfl, rfl⟩)
      · exact .inl hu'
      · exact .inr ⟨k', hmem.2 (.inl hk'), rfl⟩
      · exact .inr ⟨k, hmem.2 (.inr ⟨rfl, rfl⟩), rfl⟩
    · rintro (hu' | ⟨k', hk', rfl⟩)
      · exact .inl (.inl hu')
      · rcases hmem.1 hk' with hk' | ⟨rfl, rfl⟩
        · exact .inl (.inr ⟨k', hk', rfl⟩)
        · exact .inr ⟨rfl, rfl⟩
  have htlt : t < acc.1.tensors.length := by
    rw [h.tensors]
    exact lt_of_lt_of_le hu.tensor_lt (Nat.le_add_right _ _)
  unfold copyUse
  dsimp only
  rw [hfirst]
  by_cases hown : (s.tensors.getD t default).firstUse = remat.begin + k
  · rw [if_pos hown]
    have htlt' : t < (acc.1.addTensor (acc.1.tensors.getD t default).size).tensors.length := by
      simp only [Rematerializer.addTensor, length_append]
      omega
    have hins' : remat.insert + k <
        (acc.1.addTensor (acc.1.tensors.getD t default).size).operations.length := by
      rw [← h.operations] at hins
      exact hins
    obtain ⟨hkeeps, huses⟩ := addUse_keeps (h.valid.addTensor _) hins' htlt'
    constructor
    · exact hkeeps.valid
    · exact hkeeps.operations.trans h.operations
    · rw [hkeeps.sizes]
      simp only [Rematerializer.addTensor, map_append, map_cons, map_nil, h.sizes,
        h.size_eq hu.tensor_lt, append_assoc]
    · rw [map_append, h.numbers, h.tensors, length_append, length_singleton, range'_concat]
      simp
    · rw [map_append]
      refine nodup_append.2 ⟨h.nodup, pairwise_singleton _ _, fun x hx y hy hxy => ?_⟩
      subst hxy
      cases mem_singleton.1 hy
      obtain ⟨k', hk', heq⟩ := (h.cloned t).1 hx
      have hkk : k' = k := by omega
      subst hkk
      exact hfresh hk'
    · intro t'
      rw [map_append, mem_append, h.cloned, map_singleton, mem_singleton]
      constructor
      · rintro (⟨k', hk', heq⟩ | rfl)
        · exact ⟨k', hmem.2 (.inl hk'), heq⟩
        · exact ⟨k, hmem.2 (.inr ⟨rfl, rfl⟩), hown⟩
      · rintro ⟨k', hk', heq⟩
        rcases hmem.1 hk' with hk' | ⟨-, rfl⟩
        · exact .inl ⟨k', hk', heq⟩
        · exact .inr rfl
    · intro o t'
      rw [huses, addTensor, hcopied]
  · rw [if_neg hown]
    have hins' : remat.insert + k < acc.1.operations.length := by rwa [h.operations]
    obtain ⟨hkeeps, huses⟩ := addUse_keeps h.valid hins' htlt
    constructor
    · exact hkeeps.valid
    · exact hkeeps.operations.trans h.operations
    · rw [hkeeps.sizes, h.sizes]
    · exact h.numbers
    · exact h.nodup
    · intro t'
      rw [h.cloned]
      constructor
      · rintro ⟨k', hk', heq⟩
        exact ⟨k', hmem.2 (.inl hk'), heq⟩
      · rintro ⟨k', hk', heq⟩
        rcases hmem.1 hk' with hk' | ⟨rfl, rfl⟩
        · exact ⟨k', hk', heq⟩
        · exact absurd heq hown
    · intro o t'
      rw [huses, hcopied]

/-- The uses of the operations of the old region. -/
def pairs (s : Rematerializer) (remat : RematSpec) (n : Nat) : List (Nat × Nat) :=
  (List.range n).flatMap fun k =>
    (s.operations.getD (remat.begin + k) default).tensors.map fun t => (k, t)

theorem mem_pairs (hs : s.Valid) {n : Nat} (hn : remat.begin + n ≤ s.operations.length)
    {k t : Nat} : (k, t) ∈ pairs s remat n ↔ k < n ∧ s.Uses (remat.begin + k) t := by
  have hmem : ∀ k' : Nat, (k, t) ∈ ((s.operations.getD (remat.begin + k') default).tensors.map
      fun t => (k', t)) ↔ k' = k ∧ t ∈ (s.operations.getD (remat.begin + k') default).tensors := by
    intro k'
    rw [mem_map]
    constructor
    · rintro ⟨t', ht', heq⟩
      cases heq
      exact ⟨rfl, ht'⟩
    · rintro ⟨rfl, ht⟩
      exact ⟨t, ht, rfl⟩
  unfold pairs
  rw [mem_flatMap]
  constructor
  · rintro ⟨k', hk', hin⟩
    obtain ⟨rfl, ht⟩ := (hmem k').1 hin
    have hlt := mem_range.1 hk'
    exact ⟨hlt, (mem_tensors_iff hs (by omega)).1 ht⟩
  · rintro ⟨hlt, hu⟩
    exact ⟨k, mem_range.2 hlt, (hmem k).2 ⟨rfl, (mem_tensors_iff hs (by omega)).2 hu⟩⟩

/-- Copying an operation of the old region copies its uses. -/
theorem copyOperation (hs : s.Valid) {n : Nat} (h : Copied s remat (pairs s remat n) acc)
    (hn : remat.begin + n < remat.insert) (hins : remat.insert + n < s.operations.length) :
    Copied s remat (pairs s remat (n + 1)) (copyOperation remat acc n) := by
  have hlt : remat.begin + n < s.operations.length := by omega
  have hlist : (acc.1.operations.getD (remat.begin + n) default).tensors
      = (s.operations.getD (remat.begin + n) default).tensors := by
    have hlt' : remat.begin + n < acc.1.operations.length := by rwa [h.operations]
    refine eq_of_mem_iff (sorted_tensors h.valid hlt') (sorted_tensors hs hlt) fun t => ?_
    rw [mem_tensors_iff h.valid hlt', mem_tensors_iff hs hlt, h.uses_before hn]
  have hnodup := (sorted_tensors hs hlt).imp (S := (· ≠ ·)) fun hab => Nat.ne_of_lt hab
  have hpairs : pairs s remat (n + 1) = pairs s remat n ++
      (s.operations.getD (remat.begin + n) default).tensors.map fun t => (n, t) := by
    simp [pairs, range_succ]
  rw [hpairs]
  unfold Rematerializer.copyOperation
  rw [hlist]
  refine foldl_invariant (P := fun done acc => Copied s remat (pairs s remat n ++
    done.map fun t => (n, t)) acc) ?_ ?_
  · rw [map_nil, append_nil]
    exact h
  · intro done t rest acc' heq hdone
    have hmem : t ∈ (s.operations.getD (remat.begin + n) default).tensors := by
      rw [heq]
      exact mem_append_right _ mem_cons_self
    have hfresh : (n, t) ∉ pairs s remat n ++ done.map fun t => (n, t) := by
      intro hin
      rcases mem_append.1 hin with hin | hin
      · exact Nat.lt_irrefl n ((mem_pairs hs hlt.le).1 hin).1
      · obtain ⟨t', ht', heq'⟩ := mem_map.1 hin
        cases heq'
        rw [heq] at hnodup
        exact (pairwise_append.1 hnodup).2.2 t ht' t mem_cons_self rfl
    have hstep := hdone.step hs ((mem_tensors_iff hs hlt).1 hmem) hn hins hfresh
    rwa [append_assoc, ← map_singleton (f := fun t => (n, t)), ← map_append] at hstep

/-- After the copy loop everything the old region uses was copied. -/
theorem all (hs : s.Valid) (hv : remat.begin ≤ remat.stop ∧ remat.stop ≤ remat.insert)
    (hins : remat.insert + remat.len ≤ s.operations.length) :
    Copied s remat (pairs s remat remat.len)
      ((List.range remat.len).foldl (Rematerializer.copyOperation remat) (s, [])) := by
  have hlen : remat.begin + remat.len ≤ remat.insert := by
    unfold RematSpec.len
    omega
  suffices h : ∀ n, n ≤ remat.len → Copied s remat (pairs s remat n)
      ((List.range n).foldl (Rematerializer.copyOperation remat) (s, [])) from h _ (le_refl _)
  intro n
  induction n with
  | zero => exact fun _ => nil hs
  | succ n ih =>
    intro hn
    rw [range_succ, foldl_append, foldl_cons, foldl_nil]
    exact copyOperation hs (ih (by omega)) (by omega) (by omega)

end Copied

/-! ## Moving uses to the new tensors -/

theorem lookupNewTensor_eq_some {newTensors : List (Nat × Nat)}
    (hsorted : newTensors.Pairwise fun a b => a.1 ≤ b.1)
    (hnodup : (newTensors.map Prod.fst).Nodup) {old new : Nat} :
    lookupNewTensor newTensors old = some new ↔ (old, new) ∈ newTensors := by
  induction newTensors with
  | nil => simp [lookupNewTensor]
  | cons entry rest ih =>
    obtain ⟨hle, hsorted⟩ := pairwise_cons.1 hsorted
    obtain ⟨hne, hnodup⟩ := pairwise_cons.1 (map_cons ▸ hnodup)
    by_cases hlt : entry.1 < old
    · have hskip : lookupNewTensor (entry :: rest) old = lookupNewTensor rest old := by
        simp [lookupNewTensor, hlt]
      rw [hskip, ih hsorted hnodup, mem_cons, or_iff_right]
      rintro rfl
      exact Nat.lt_irrefl _ hlt
    · have hstop : lookupNewTensor (entry :: rest) old =
          if entry.1 = old then some entry.2 else none := by
        simp [lookupNewTensor, hlt]
      rw [hstop, mem_cons]
      split
      · rename_i heq
        subst heq
        rw [Option.some_inj]
        constructor
        · rintro rfl
          exact .inl rfl
        · rintro (heq | hmem)
          · rw [← heq]
          · exact absurd rfl (hne _ (mem_map.2 ⟨_, hmem, rfl⟩))
      · rename_i hne'
        refine iff_of_false nofun ?_
        rintro (rfl | hmem)
        · exact hne' rfl
        · have hge := hle _ hmem
          omega

theorem lookup_sortPairs {newTensors : List (Nat × Nat)}
    (hnodup : (newTensors.map Prod.fst).Nodup) {old new : Nat} :
    lookupNewTensor (sortPairs newTensors) old = some new ↔ (old, new) ∈ newTensors := by
  have hperm : (sortPairs newTensors).Perm newTensors := mergeSort_perm _ _
  have hsorted : (sortPairs newTensors).Pairwise fun a b => a.1 ≤ b.1 := by
    exact (pairwise_mergeSort_decide (by omega) (by omega) newTensors).imp (by omega)
  rw [lookupNewTensor_eq_some hsorted ((hperm.map Prod.fst).nodup_iff.2 hnodup), hperm.mem_iff]

section
variable {newTensors : List (Nat × Nat)}

/-- In operation `iop` the uses of the tensors in `done` were replaced. -/
structure MovedUses (s : Rematerializer) (newTensors : List (Nat × Nat)) (iop : Nat)
    (done : List Nat) (s' : Rematerializer) : Prop where
  keeps : Keeps s s'
  others : ∀ o t : Nat, o ≠ iop → (s'.Uses o t ↔ s.Uses o t)
  uses : ∀ t : Nat, s'.Uses iop t ↔ s.Uses iop t ∧ t ∉ done ∨
    ∃ old ∈ done, (lookupNewTensor newTensors old).getD old = t

theorem MovedUses.step {iop t : Nat} {done : List Nat} (h : MovedUses s newTensors iop done s')
    (hu : s.Uses iop t) (hop : iop < s.operations.length) (hfresh : t ∉ done)
    (hnew : ∀ old new : Nat, lookupNewTensor newTensors old = some new →
      new < s.tensors.length ∧ lookupNewTensor newTensors new = none) :
    MovedUses s newTensors iop (done ++ [t]) (moveUse newTensors iop s' t) := by
  have hmem : ∀ old : Nat, old ∈ done ++ [t] ↔ old ∈ done ∨ old = t := by
    intro old
    rw [mem_append, mem_singleton]
  have hrename : ∀ u : Nat, (∃ old ∈ done ++ [t], (lookupNewTensor newTensors old).getD old = u) ↔
      (∃ old ∈ done, (lookupNewTensor newTensors old).getD old = u) ∨
        (lookupNewTensor newTensors t).getD t = u := by
    intro u
    constructor
    · rintro ⟨old, hold, heq⟩
      rcases (hmem old).1 hold with hold | rfl
      · exact .inl ⟨old, hold, heq⟩
      · exact .inr heq
    · rintro (⟨old, hold, heq⟩ | heq)
      · exact ⟨old, (hmem old).2 (.inl hold), heq⟩
      · exact ⟨t, (hmem t).2 (.inr rfl), heq⟩
  unfold moveUse
  cases hlookup : lookupNewTensor newTensors t with
  | none =>
    refine ⟨h.keeps, h.others, fun u => ?_⟩
    rw [h.uses, hrename, hlookup, Option.getD_none, hmem]
    by_cases hut : u = t
    · subst hut
      exact iff_of_true (.inl ⟨hu, hfresh⟩) (.inr (.inr rfl))
    · rw [or_iff_left hut, or_iff_left (a := ∃ old ∈ done, _) (Ne.symm hut)]
  | some new =>
    obtain ⟨hnewlt, hlast⟩ := hnew t new hlookup
    have hop' : iop < s'.operations.length := by rwa [h.keeps.operations]
    have htlt : t < s'.tensors.length := by
      rw [h.keeps.tensors]
      exact hu.tensor_lt
    obtain ⟨hdel, hdelUses⟩ := delUse_keeps h.keeps.valid hop' htlt
    have hop'' : iop < (s'.delUse iop t).operations.length := by rwa [hdel.operations]
    have hnewlt' : new < (s'.delUse iop t).tensors.length := by
      rwa [hdel.tensors, h.keeps.tensors]
    obtain ⟨hadd, haddUses⟩ := addUse_keeps hdel.valid hop'' hnewlt'
    refine ⟨(h.keeps.trans hdel).trans hadd, fun o u ho => ?_, fun u => ?_⟩
    · rw [haddUses, hdelUses, h.others o u ho, or_iff_left fun hx => ho hx.1,
        and_iff_left fun hx => ho hx.1]
    · rw [haddUses, hdelUses, h.uses, hrename, hlookup, Option.getD_some, hmem]
      -- no earlier replacement brought this tensor in: it has a replacement itself
      have hkept : ∀ old ∈ done, (lookupNewTensor newTensors old).getD old ≠ t := by
        intro old hold heq
        cases hold' : lookupNewTensor newTensors old with
        | none =>
          rw [hold', Option.getD_none] at heq
          rw [heq] at hold
          exact hfresh hold
        | some old' =>
          rw [hold', Option.getD_some] at heq
          have hnone := (hnew old old' hold').2
          rw [heq, hlookup] at hnone
          cases hnone
      constructor
      · rintro (⟨⟨hx, hdone⟩ | hx, hne⟩ | ⟨-, rfl⟩)
        · exact .inl ⟨hx, fun hin => hin.elim hdone fun heq => hne ⟨rfl, heq⟩⟩
        · exact .inr (.inl hx)
        · exact .inr (.inr rfl)
      · rintro (⟨hx, hdone⟩ | ⟨old, hold, heq⟩ | rfl)
        · exact .inl ⟨.inl ⟨hx, fun hin => hdone (.inl hin)⟩, fun heq => hdone (.inr heq.2)⟩
        · exact .inl ⟨.inr ⟨old, hold, heq⟩, fun hx => hkept old hold (heq.trans hx.2)⟩
        · exact .inr ⟨rfl, rfl⟩

theorem moveUses_spec (h : s.Valid) {iop : Nat} (hop : iop < s.operations.length)
    (hnew : ∀ old new : Nat, lookupNewTensor newTensors old = some new →
      new < s.tensors.length ∧ lookupNewTensor newTensors new = none) :
    Keeps s (moveUses newTensors s iop) ∧
      (∀ o t : Nat, o ≠ iop → ((moveUses newTensors s iop).Uses o t ↔ s.Uses o t)) ∧
      ∀ t : Nat, (moveUses newTensors s iop).Uses iop t ↔
        ∃ old, s.Uses iop old ∧ (lookupNewTensor newTensors old).getD old = t := by
  have hnodup := (sorted_tensors h hop).imp (S := (· ≠ ·)) fun hab => Nat.ne_of_lt hab
  have hall : MovedUses s newTensors iop (s.operations.getD iop default).tensors
      (moveUses newTensors s iop) := by
    unfold moveUses
    refine foldl_invariant (P := MovedUses s newTensors iop) ?_ ?_
    · exact ⟨.refl h, fun o t _ => Iff.rfl, by simp⟩
    · intro done t rest s' heq hdone
      refine hdone.step ((mem_tensors_iff h hop).1 ?_) hop (fun hin => ?_) hnew
      · rw [heq]
        exact mem_append_right _ mem_cons_self
      · rw [heq] at hnodup
        exact (pairwise_append.1 hnodup).2.2 t hin t mem_cons_self rfl
  refine ⟨hall.keeps, hall.others, fun t => ?_⟩
  rw [hall.uses]
  constructor
  · rintro (⟨hx, hnot⟩ | ⟨old, hold, heq⟩)
    · exact absurd ((mem_tensors_iff h hop).2 hx) hnot
    · exact ⟨old, (mem_tensors_iff h hop).1 hold, heq⟩
  · rintro ⟨old, hold, heq⟩
    exact .inr ⟨old, (mem_tensors_iff h hop).2 hold, heq⟩

/-- From the insertion on, all operations refer to the new tensors. -/
theorem moveUses_all (h : s.Valid) {first : Nat}
    (hnew : ∀ old new : Nat, lookupNewTensor newTensors old = some new →
      new < s.tensors.length ∧ lookupNewTensor newTensors new = none) (n : Nat)
    (hn : first + n ≤ s.operations.length) :
    Keeps s ((List.range' first n).foldl (moveUses newTensors) s) ∧
      ∀ o t : Nat, ((List.range' first n).foldl (moveUses newTensors) s).Uses o t ↔
        if first ≤ o ∧ o < first + n then
          ∃ old, s.Uses o old ∧ (lookupNewTensor newTensors old).getD old = t
        else s.Uses o t := by
  induction n with
  | zero =>
    refine ⟨.refl h, fun o t => ?_⟩
    rw [if_neg (by omega)]
    rfl
  | succ n ih =>
    obtain ⟨hkeeps, huses⟩ := ih (by omega)
    rw [range'_1_concat, foldl_append, foldl_cons, foldl_nil]
    have hop : first + n < ((List.range' first n).foldl (moveUses newTensors) s).operations.length
        := by
      rw [hkeeps.operations]
      omega
    have hnew' : ∀ old new : Nat, lookupNewTensor newTensors old = some new →
        new < ((List.range' first n).foldl (moveUses newTensors) s).tensors.length ∧
          lookupNewTensor newTensors new = none := by
      rw [hkeeps.tensors]
      exact hnew
    obtain ⟨hmove, hothers, hown⟩ := moveUses_spec hkeeps.valid hop hnew'
    refine ⟨hkeeps.trans hmove, fun o t => ?_⟩
    by_cases ho : o = first + n
    · subst ho
      rw [hown, if_pos ⟨Nat.le_add_right _ _, by omega⟩]
      refine exists_congr fun old => and_congr_left fun _ => ?_
      rw [huses, if_neg (by omega)]
    · rw [hothers o t ho, huses]
      by_cases hin : first ≤ o ∧ o < first + n
      · rw [if_pos hin, if_pos ⟨hin.1, by omega⟩]
      · rw [if_neg hin, if_neg (by omega)]

end

/-! ## The clones -/

/-- Distinct tensors below `n` with their clones, numbered from `n` on. -/
structure Clones (n : Nat) (clones : List (Nat × Nat)) : Prop where
  numbers : clones.map Prod.snd = List.range' n clones.length
  nodup : (clones.map Prod.fst).Nodup
  old_lt : ∀ t ∈ clones.map Prod.fst, t < n

namespace Clones
variable {n t old clone : Nat} {clones : List (Nat × Nat)}

theorem new_mem (h : Clones n clones) (hin : (t, clone) ∈ clones) :
    n ≤ clone ∧ clone < n + clones.length := by
  have hsnd : clone ∈ clones.map Prod.snd := mem_map.2 ⟨_, hin, rfl⟩
  rwa [h.numbers, mem_range'_1] at hsnd

theorem lookup (h : Clones n clones) :
    lookupNewTensor (sortPairs clones) t = some clone ↔ (t, clone) ∈ clones :=
  lookup_sortPairs h.nodup

theorem lookup_eq_none (h : Clones n clones) (ht : t ∉ clones.map Prod.fst) :
    lookupNewTensor (sortPairs clones) t = none := by
  refine Option.eq_none_iff_forall_ne_some.2 fun new hin => ht ?_
  exact mem_map.2 ⟨_, h.lookup.1 hin, rfl⟩

theorem inj (h : Clones n clones) (hin : (t, clone) ∈ clones) (hin' : (old, clone) ∈ clones) :
    old = t := by
  have hnodup : (clones.map Prod.snd).Nodup := by
    rw [h.numbers]
    exact nodup_range'
  have heq := inj_on_of_nodup_map hnodup hin' hin rfl
  rw [Prod.mk.injEq] at heq
  exact heq.1

/-- The tensor that uses of an old one refer to from the insertion on. -/
theorem renamed_cases (h : Clones n clones) (old : Nat) :
    (lookupNewTensor (sortPairs clones) old).getD old = old ∧ old ∉ clones.map Prod.fst ∨
      (old, (lookupNewTensor (sortPairs clones) old).getD old) ∈ clones := by
  cases hl : lookupNewTensor (sortPairs clones) old with
  | none =>
    refine .inl ⟨rfl, fun hmem => ?_⟩
    obtain ⟨⟨_, new⟩, hin, rfl⟩ := mem_map.1 hmem
    rw [h.lookup.2 hin] at hl
    cases hl
  | some new => exact .inr (h.lookup.1 hl)

theorem renamed_kept (h : Clones n clones) (ht : t < n) (hnot : t ∉ clones.map Prod.fst) :
    (lookupNewTensor (sortPairs clones) old).getD old = t ↔ old = t := by
  constructor
  · intro heq
    rcases h.renamed_cases old with ⟨hold, -⟩ | hin
    · rw [← hold, heq]
    · rw [heq] at hin
      exact absurd (h.new_mem hin).1 (not_le.2 ht)
  · rintro rfl
    rw [h.lookup_eq_none hnot, Option.getD_none]

theorem renamed_early (h : Clones n clones) (ht : t ∈ clones.map Prod.fst) :
    (lookupNewTensor (sortPairs clones) old).getD old ≠ t := by
  intro heq
  rcases h.renamed_cases old with ⟨hold, hnot⟩ | hin
  · rw [← hold, heq] at hnot
    exact hnot ht
  · rw [heq] at hin
    exact absurd (h.new_mem hin).1 (not_le.2 (h.old_lt t ht))

theorem renamed_late (h : Clones n clones) (hin : (t, clone) ∈ clones) (hold : old < n) :
    (lookupNewTensor (sortPairs clones) old).getD old = clone ↔ old = t := by
  constructor
  · intro heq
    rcases h.renamed_cases old with ⟨hsame, -⟩ | hin'
    · rw [hsame] at heq
      exact absurd (h.new_mem hin).1 (by omega)
    · rw [heq] at hin'
      exact h.inj hin hin'
  · rintro rfl
    rw [h.lookup.2 hin, Option.getD_some]

end Clones

/-! ## The whole rematerialization -/

theorem length_insertOperations {remat : RematSpec} (h : remat.insert ≤ s.operations.length) :
    (s.insertOperations remat).operations.length = s.operations.length + remat.len := by
  simp only [Rematerializer.insertOperations, length_append, length_take,
    length_replicate, length_drop]
  omega

theorem sizes_insertOperations (s : Rematerializer) (remat : RematSpec) :
    (s.insertOperations remat).tensors.map Tensor.size = s.tensors.map Tensor.size := by
  unfold Rematerializer.insertOperations
  rw [List.map_map]
  rfl

theorem getD_insertOperations (s : Rematerializer) (remat : RematSpec) (t : Nat) :
    ((s.insertOperations remat).tensors.getD t default).size = (s.tensors.getD t default).size := by
  unfold Rematerializer.insertOperations
  rw [getD_eq_getElem?_getD, getD_eq_getElem?_getD, getElem?_map]
  cases s.tensors[t]? <;> rfl

theorem uses_insertOperations {remat : RematSpec} {o t : Nat} :
    (s.insertOperations remat).Uses o t ↔ ∃ x, s.Uses x t ∧ o = remat.shifted x := by
  have hget : (s.insertOperations remat).tensors[t]? = s.tensors[t]?.map fun tensor =>
      { tensor with operations := tensor.operations.map remat.shifted } := by
    unfold Rematerializer.insertOperations
    rw [getElem?_map]
    rfl
  constructor
  · rintro ⟨tensor, ht, ho⟩
    rw [hget] at ht
    obtain ⟨before, hbefore, rfl⟩ := Option.map_eq_some_iff.1 ht
    obtain ⟨x, hx, rfl⟩ := mem_map.1 ho
    exact ⟨x, ⟨before, hbefore, hx⟩, rfl⟩
  · rintro ⟨x, ⟨before, hbefore, hx⟩, rfl⟩
    refine ⟨_, by rw [hget, hbefore, Option.map_some], mem_map.2 ⟨x, hx, rfl⟩⟩

theorem firstUse_insertOperations {remat : RematSpec} {o t : Nat} (hu : s.Uses o t) :
    ((s.insertOperations remat).tensors.getD t default).firstUse =
      remat.shifted (s.tensors.getD t default).firstUse := by
  obtain ⟨tensor, ht, ho⟩ := hu
  have hget : (s.insertOperations remat).tensors[t]? =
      some { tensor with operations := tensor.operations.map remat.shifted } := by
    unfold Rematerializer.insertOperations
    rw [getElem?_map, ht]
    rfl
  rw [getD_eq_getElem?_getD, getD_eq_getElem?_getD, hget, ht, Option.getD_some, Option.getD_some]
  obtain ⟨size, operations⟩ := tensor
  cases operations with
  | nil => cases ho
  | cons b l => rfl

theorem RematSpec.shifted_of_lt {remat : RematSpec} {x : Nat} (h : x < remat.insert) :
    remat.shifted x = x := by
  rw [shifted, if_neg (not_le.2 h)]

theorem RematSpec.shifted_eq_iff {remat : RematSpec} {x y : Nat} (h : y < remat.insert) :
    remat.shifted x = y ↔ x = y := by
  unfold RematSpec.shifted
  split <;> omega

/-- Operation `o` after the insertion uses `t`, before any use is moved: it used it before or
is the copy of one in the old region that does. -/
def UsesAfter (s : Rematerializer) (remat : RematSpec) (o t : Nat) : Prop :=
  (∃ x, s.Uses x t ∧ o = remat.shifted x) ∨
    ∃ x, s.Uses x t ∧ (remat.begin ≤ x ∧ x < remat.stop) ∧ o = x + (remat.insert - remat.begin)

theorem UsesAfter.tensor_lt {remat : RematSpec} {o t : Nat} (h : UsesAfter s remat o t) :
    t < s.tensors.length := by
  rcases h with ⟨x, hx, -⟩ | ⟨x, hx, -⟩ <;> exact hx.tensor_lt

/-- The tensor was first used in the old region. -/
def CreatedIn (s : Rematerializer) (remat : RematSpec) (t : Nat) : Prop :=
  ∃ o, s.Uses o t ∧ (s.tensors.getD t default).firstUse = o ∧ remat.begin ≤ o ∧ o < remat.stop

/-- Tensors created in the old region get a clone. The clone has the uses from the insertion
on, the tensor itself those before. -/
structure Rematerialized (s : Rematerializer) (remat : RematSpec) (clones : List (Nat × Nat))
    (s' : Rematerializer) : Prop where
  valid : s'.Valid
  operations : s'.operations.length = s.operations.length + remat.len
  sizes : s'.tensors.map Tensor.size = s.tensors.map Tensor.size ++
    clones.map fun clone => (s.tensors.getD clone.1 default).size
  numbered : Clones s.tensors.length clones
  cloned : ∀ t : Nat, t ∈ clones.map Prod.fst ↔ CreatedIn s remat t
  kept : ∀ o t : Nat, t < s.tensors.length → t ∉ clones.map Prod.fst →
    (s'.Uses o t ↔ UsesAfter s remat o t)
  early : ∀ o t : Nat, t ∈ clones.map Prod.fst →
    (s'.Uses o t ↔ UsesAfter s remat o t ∧ o < remat.insert)
  late : ∀ o t clone : Nat, (t, clone) ∈ clones →
    (s'.Uses o clone ↔ UsesAfter s remat o t ∧ remat.insert ≤ o)

section
variable {remat : RematSpec} {acc : Rematerializer × List (Nat × Nat)}

/-- What the copy loop did, in terms of the state before the insertion. -/
theorem Copied.created (h : s.Valid) (hv : remat.Valid s.operations.length)
    (hcopied : Copied (s.insertOperations remat) remat
      (pairs (s.insertOperations remat) remat remat.len) acc) :
    (∀ t : Nat, t ∈ acc.2.map Prod.fst ↔ CreatedIn s remat t) ∧
      ∀ o t : Nat, acc.1.Uses o t ↔ UsesAfter s remat o t := by
  obtain ⟨hbegin, hstop, hinsert⟩ := hv
  have hlen : remat.begin + remat.len = remat.stop := by
    unfold RematSpec.len
    omega
  have hmem : ∀ k t : Nat, (k, t) ∈ pairs (s.insertOperations remat) remat remat.len ↔
      k < remat.len ∧ s.Uses (remat.begin + k) t := by
    intro k t
    rw [mem_pairs (h.insertOperations hinsert) (by rw [length_insertOperations hinsert]; omega)]
    refine and_congr_right fun hk => ?_
    rw [uses_insertOperations]
    constructor
    · rintro ⟨x, hx, heq⟩
      rwa [← (shifted_eq_iff (by omega)).1 heq.symm]
    · exact fun hu => ⟨_, hu, (shifted_of_lt (by omega)).symm⟩
  refine ⟨fun t => ?_, fun o t => ?_⟩
  · rw [hcopied.cloned]
    constructor
    · rintro ⟨k, hk, heq⟩
      obtain ⟨hlt, hu⟩ := (hmem k t).1 hk
      rw [firstUse_insertOperations hu, shifted_eq_iff (by omega)] at heq
      exact ⟨_, hu, heq, by omega, by omega⟩
    · rintro ⟨o, hu, heq, hge, hlt⟩
      have hk : remat.begin + (o - remat.begin) = o := by omega
      refine ⟨o - remat.begin, (hmem _ _).2 ⟨by omega, by rwa [hk]⟩, ?_⟩
      rw [firstUse_insertOperations hu, heq, shifted_of_lt (by omega), hk]
  · rw [hcopied.uses, uses_insertOperations]
    refine or_congr_right ⟨?_, ?_⟩
    · rintro ⟨k, hk, rfl⟩
      obtain ⟨hlt, hu⟩ := (hmem k t).1 hk
      exact ⟨_, hu, ⟨by omega, by omega⟩, by omega⟩
    · rintro ⟨x, hu, ⟨hge, hlt⟩, rfl⟩
      refine ⟨x - remat.begin, (hmem _ _).2 ⟨by omega, ?_⟩, by omega⟩
      rwa [Nat.add_sub_cancel' hge]

/-- What the move loop makes of a copied state. -/
theorem moveUses_rematerialized (hclones : Clones s.tensors.length acc.2) (hvalid : acc.1.Valid)
    (htensors : acc.1.tensors.length = s.tensors.length + acc.2.length)
    (hinsert : remat.insert ≤ acc.1.operations.length)
    (huses : ∀ o t : Nat, acc.1.Uses o t ↔ UsesAfter s remat o t) :
    Keeps acc.1 ((List.range' remat.insert (acc.1.operations.length - remat.insert)).foldl
        (moveUses (sortPairs acc.2)) acc.1) ∧
      ∀ o t : Nat, ((List.range' remat.insert (acc.1.operations.length - remat.insert)).foldl
        (moveUses (sortPairs acc.2)) acc.1).Uses o t ↔
        if remat.insert ≤ o then
          ∃ old, UsesAfter s remat o old ∧ (lookupNewTensor (sortPairs acc.2) old).getD old = t
        else UsesAfter s remat o t := by
  have hnew : ∀ old new : Nat, lookupNewTensor (sortPairs acc.2) old = some new →
      new < acc.1.tensors.length ∧ lookupNewTensor (sortPairs acc.2) new = none := by
    intro old new hin
    obtain ⟨hge, hlt⟩ := hclones.new_mem (hclones.lookup.1 hin)
    refine ⟨by rwa [htensors], hclones.lookup_eq_none fun hmem => ?_⟩
    have := hclones.old_lt new hmem
    omega
  have hlast : remat.insert + (acc.1.operations.length - remat.insert)
      = acc.1.operations.length := by omega
  obtain ⟨hkeeps, hmoved⟩ := moveUses_all hvalid hnew
    (acc.1.operations.length - remat.insert) hlast.le
  refine ⟨hkeeps, fun o t => ?_⟩
  rw [hmoved, hlast]
  by_cases ho : remat.insert ≤ o
  · rw [if_pos ho]
    by_cases hlt : o < acc.1.operations.length
    · simp only [if_pos (And.intro ho hlt), huses]
    · rw [if_neg fun hin => hlt hin.2]
      refine iff_of_false (fun hu => hlt (hu.operation_lt hvalid)) ?_
      rintro ⟨old, hu, -⟩
      exact hlt (((huses o old).2 hu).operation_lt hvalid)
  · rw [if_neg ho, if_neg fun hin => ho hin.1, huses]

end

theorem remat_rematerialized (h : s.Valid) {remat : RematSpec}
    (hv : remat.Valid s.operations.length) :
    ∃ clones, Rematerialized s remat clones (s.remat remat) := by
  have hvalid := h.insertOperations hv.2.2
  have hlength := length_insertOperations hv.2.2
  have hnumTensors : (s.insertOperations remat).tensors.length = s.tensors.length :=
    length_map _
  have hins : remat.insert + remat.len ≤ (s.insertOperations remat).operations.length := by
    rw [hlength]
    exact Nat.add_le_add_right hv.2.2 _
  have hcopied := Copied.all hvalid ⟨hv.1, hv.2.1⟩ hins
  have hremat : s.remat remat = (List.range' remat.insert
      (((List.range remat.len).foldl (Rematerializer.copyOperation remat)
        (s.insertOperations remat, [])).1.operations.length - remat.insert)).foldl
      (moveUses (sortPairs ((List.range remat.len).foldl (Rematerializer.copyOperation remat)
        (s.insertOperations remat, [])).2))
      ((List.range remat.len).foldl (Rematerializer.copyOperation remat)
        (s.insertOperations remat, [])).1 := rfl
  generalize (List.range remat.len).foldl (Rematerializer.copyOperation remat)
    (s.insertOperations remat, []) = acc at hcopied hremat
  obtain ⟨hcloned, huses⟩ := hcopied.created h hv
  have hclones : Clones s.tensors.length acc.2 := by
    refine ⟨by rw [hcopied.numbers, hnumTensors], hcopied.nodup, fun t ht => ?_⟩
    obtain ⟨o, hu, -⟩ := (hcloned t).1 ht
    exact hu.tensor_lt
  have htensors := hcopied.tensors
  rw [hnumTensors] at htensors
  have hinsert : remat.insert ≤ acc.1.operations.length := by
    rw [hcopied.operations]
    exact le_trans (Nat.le_add_right _ _) hins
  obtain ⟨hkeeps, hfinal⟩ :=
    moveUses_rematerialized hclones hcopied.valid htensors hinsert huses
  rw [← hremat] at hkeeps hfinal
  refine ⟨acc.2, hkeeps.valid, ?_, ?_, hclones, hcloned, ?_, ?_, ?_⟩
  · rw [hkeeps.operations, hcopied.operations, hlength]
  · rw [hkeeps.sizes, hcopied.sizes, sizes_insertOperations]
    simp only [getD_insertOperations]
  · intro o t ht hnot
    rw [hfinal]
    split
    · simp only [hclones.renamed_kept ht hnot, exists_eq_right]
    · rfl
  · intro o t ht
    rw [hfinal]
    split
    · rename_i ho
      refine iff_of_false ?_ fun hx => absurd hx.2 (not_lt.2 ho)
      rintro ⟨old, -, heq⟩
      exact hclones.renamed_early ht heq
    · rename_i ho
      exact (and_iff_left (not_le.1 ho)).symm
  · intro o t clone hin
    rw [hfinal]
    split
    · rename_i ho
      rw [and_iff_left ho]
      constructor
      · rintro ⟨old, hu, heq⟩
        rwa [← (hclones.renamed_late hin hu.tensor_lt).1 heq]
      · intro hu
        exact ⟨t, hu, (hclones.renamed_late hin hu.tensor_lt).2 rfl⟩
    · rename_i ho
      refine iff_of_false (fun hu => ?_) fun hx => ho hx.2
      exact absurd (hclones.new_mem hin).1 (not_le.2 hu.tensor_lt)

theorem Rematerializer.Valid.remat (h : s.Valid) {remat : RematSpec}
    (hv : remat.Valid s.operations.length) : (s.remat remat).Valid := by
  obtain ⟨clones, hr⟩ := remat_rematerialized h hv
  exact hr.valid

end LiteRt.Remat
