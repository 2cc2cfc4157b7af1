import LiteRt.Remat.Profile
import Mathlib.Algebra.BigOperators.Group.Finset.Basic
import Mathlib.Tactic.Ring

/-!
# Simulated rematerializations

The profile predicted for a rematerialization is the profile after it: for each tensor, the
deltas make up the difference between its uses moved by the insertion and its uses, and those
of its clone, afterwards.
-/

namespace LiteRt.Remat

open LiteRt.Lib RematSpec List

variable {o t : Nat} {entries : List (Nat × TensorUse)} {s' : Rematerializer}
  {clones : List (Nat × Nat)} {l : List Nat} {uses : Nat → Prop}

/-! ## Sums over tensors -/

/-- A sum over some numbers below `n` is the sum over all of them, if the others add nothing. -/
theorem sum_map_eq_sum_range {n : Nat} {f : Nat → Int} (hnodup : l.Nodup) (hlt : ∀ x ∈ l, x < n)
    (hzero : ∀ x, x < n → x ∉ l → f x = 0) :
    (l.map f).sum = ((List.range n).map f).sum := by
  rw [← sum_toFinset f hnodup, ← sum_toFinset f nodup_range]
  refine Finset.sum_subset (fun x hx => ?_) fun x hx hnot => ?_
  · exact mem_toFinset.2 (mem_range.2 (hlt x (mem_toFinset.1 hx)))
  · exact hzero x (mem_range.1 (mem_toFinset.1 hx)) fun hin =>
      hnot (mem_toFinset.2 hin)

theorem sum_map_getD (l : List Tensor) (f : Tensor → Int) :
    (l.map f).sum = ((List.range l.length).map fun t => f (l.getD t default)).sum := by
  congr 1
  refine ext_getElem (by simp) fun t h _ => ?_
  rw [length_map] at h
  simp [getD_eq_getElem?_getD, getElem?_eq_getElem h]

/-- One if the condition holds. -/
def ind (p : Prop) [Decidable p] : Int := if p then 1 else 0

open Classical in
/-- One if a tensor with such uses is in use during operation `i`. -/
noncomputable def held (uses : Nat → Prop) (i : Nat) : Int :=
  ind (∃ o, uses o ∧ o ≤ i) - ind ((∃ o, uses o) ∧ ∀ o, uses o → o < i)

theorem held_eq {a b : Nat} (ha : uses a) (hb : uses b) (hmin : ∀ o, uses o → a ≤ o)
    (hmax : ∀ o, uses o → o ≤ b) (i : Nat) :
    held uses i = ind (a ≤ i) - ind (b + 1 ≤ i) := by
  have hstart : (∃ o, uses o ∧ o ≤ i) ↔ a ≤ i := by
    constructor
    · rintro ⟨o, ho, hle⟩
      exact (hmin o ho).trans hle
    · exact fun hle => ⟨a, ha, hle⟩
  have hend : ((∃ o, uses o) ∧ ∀ o, uses o → o < i) ↔ b + 1 ≤ i := by
    constructor
    · exact fun hall => hall.2 b hb
    · exact fun hlt => ⟨⟨b, hb⟩, fun o ho => lt_of_le_of_lt (hmax o ho) hlt⟩
  unfold held ind
  simp only [hstart, hend]

theorem held_none (h : ∀ o, ¬ uses o) (i : Nat) : held uses i = 0 := by
  unfold held ind
  simp [h]

variable {s : Rematerializer} {remat : RematSpec}

def sizeAt (s : Rematerializer) (t : Nat) : Int := (s.tensors.getD t default).size

theorem firstUse_lastUse (h : s.Valid) (hu : s.Uses o t) :
    (s.Uses (s.tensors.getD t default).firstUse t ∧ s.Uses (s.tensors.getD t default).lastUse t) ∧
      (∀ x, s.Uses x t → (s.tensors.getD t default).firstUse ≤ x) ∧
      ∀ x, s.Uses x t → x ≤ (s.tensors.getD t default).lastUse := by
  have hget : s.tensors[t]? = some (s.tensors.getD t default) := by
    rw [getD_eq_getElem?_getD, getElem?_eq_getElem hu.tensor_lt, Option.getD_some]
  have hsorted := h.tensor_sorted hget
  simp only [uses_iff hget] at hu ⊢
  obtain ⟨hhead, hlast, -⟩ := firstUse_le_lastUse hsorted (ne_nil_of_mem hu)
  obtain ⟨hfirst, hmin⟩ := (head?_eq_some_iff_least hsorted).1 hhead
  obtain ⟨hend, hmax⟩ := (getLast?_eq_some_iff_greatest hsorted).1 hlast
  exact ⟨⟨hfirst, hend⟩, hmin, hmax⟩

theorem shifted_mono {x y : Nat} (h : x ≤ y) : remat.shifted x ≤ remat.shifted y := by
  unfold shifted
  split <;> split <;> omega

def MovedUsesOf (s : Rematerializer) (remat : RematSpec) (t o : Nat) : Prop :=
  ∃ x, s.Uses x t ∧ o = remat.shifted x

theorem held_movedUses (h : s.Valid) (hu : s.Uses o t) (i : Nat) :
    held (MovedUsesOf s remat t) i = ind (remat.shifted (s.tensors.getD t default).firstUse ≤ i) -
        ind (remat.shifted (s.tensors.getD t default).lastUse + 1 ≤ i) := by
  obtain ⟨⟨hfirst, hlast⟩, hmin, hmax⟩ := firstUse_lastUse h hu
  refine held_eq ⟨_, hfirst, rfl⟩ ⟨_, hlast, rfl⟩ ?_ ?_ i
  · rintro _ ⟨x, hx, rfl⟩
    exact shifted_mono (hmin x hx)
  · rintro _ ⟨x, hx, rfl⟩
    exact shifted_mono (hmax x hx)

theorem inUse_eq (h : s.Valid) (i : Nat) :
    inUse s remat i = ((List.range s.tensors.length).map fun t =>
        sizeAt s t * held (MovedUsesOf s remat t) i).sum := by
  have hpart : ∀ t ∈ List.range s.tensors.length,
      startedBefore remat.shifted (i + 1) (s.tensors.getD t default) =
        endedBefore remat.shifted i (s.tensors.getD t default) +
          sizeAt s t * held (MovedUsesOf s remat t) i := by
    intro t ht
    rw [mem_range] at ht
    have hget : s.tensors[t]? = some (s.tensors.getD t default) := by
      rw [getD_eq_getElem?_getD, getElem?_eq_getElem ht, Option.getD_some]
    have hsorted := h.tensor_sorted hget
    by_cases hne : (s.tensors.getD t default).operations = []
    · have hnone : ∀ o, ¬ MovedUsesOf s remat t o := by
        rintro o ⟨x, hx, -⟩
        rw [uses_iff hget, hne] at hx
        cases hx
      rw [held_none hnone, mul_zero, add_zero]
      unfold startedBefore endedBefore
      rw [hne]
      simp
    · obtain ⟨x, hx⟩ := exists_mem_of_ne_nil _ hne
      obtain ⟨hhead, hlast, hle⟩ := firstUse_le_lastUse hsorted hne
      rw [held_movedUses h ((uses_iff hget).2 hx)]
      have hmono : remat.shifted _ ≤ remat.shifted _ := shifted_mono hle
      unfold startedBefore endedBefore sizeAt ind
      simp only [hhead, hlast, Option.mem_def, Option.some_inj, exists_eq_left',
        Nat.lt_succ_iff, Nat.succ_le_iff]
      split <;> split <;> simp
  unfold inUse
  rw [sum_map_getD, sum_map_getD s.tensors (endedBefore _ _), map_congr_left hpart, sum_map_add]
  omega

/-! ## The source range -/

/-- Entries for the uses in `done`, in the order of the tensors. -/
structure SourceUses (done : List (Nat × Nat)) (entries : List (Nat × TensorUse)) : Prop where
  sorted : entries.Pairwise fun a b => a.1 < b.1
  first : ∀ {t : Nat} {use : TensorUse}, (t, use) ∈ entries → (use.firstUse, t) ∈ done
  last : ∀ {t : Nat} {use : TensorUse}, (t, use) ∈ entries → (use.lastUse, t) ∈ done
  between : ∀ {o t : Nat} {use : TensorUse}, (t, use) ∈ entries → (o, t) ∈ done →
    use.firstUse ≤ o ∧ o ≤ use.lastUse
  covers : ∀ {o t : Nat}, (o, t) ∈ done → ∃ use, (t, use) ∈ entries

/-- A use changes only the entry of its tensor. -/
theorem mem_emplaceUse {o t u : Nat} {use : TensorUse}
    (hsorted : entries.Pairwise fun a b => a.1 < b.1) :
    (u, use) ∈ emplaceUse o entries t ↔ u ≠ t ∧ (u, use) ∈ entries ∨
      u = t ∧ ((∃ old, (t, old) ∈ entries ∧ use = ⟨old.firstUse, o⟩) ∨
        (∀ old, (t, old) ∉ entries) ∧ use = ⟨o, o⟩) := by
  induction entries with
  | nil => simp [emplaceUse]
  | cons entry rest ih =>
    obtain ⟨hlt, hsorted'⟩ := pairwise_cons.1 hsorted
    obtain ⟨v, old⟩ := entry
    have hrest : ∀ {x : TensorUse}, (v, x) ∉ rest := fun hin => Nat.lt_irrefl v (hlt _ hin)
    unfold emplaceUse
    by_cases h1 : v < t
    · have hvt : v ≠ t := Nat.ne_of_lt h1
      rw [if_pos h1, mem_cons, ih hsorted']
      simp only [mem_cons, Prod.mk.injEq, hvt.symm, false_and, false_or]
      by_cases hut : u = t
      · subst hut
        simp [hvt.symm]
      · simp [hut]
    · rw [if_neg h1]
      by_cases h2 : v = t
      · subst h2
        rw [if_pos rfl, mem_cons]
        by_cases huv : u = v
        · subst huv
          simp [hrest]
        · simp [huv]
      · have hnot : ∀ x, (t, x) ∉ (v, old) :: rest := by
          intro x hin
          rcases mem_cons.1 hin with heq | hin
          · exact h2 (congrArg Prod.fst heq).symm
          · have := hlt _ hin
            simp only at this
            omega
        rw [if_neg h2, mem_cons (a := (u, use)) (b := (t, ⟨o, o⟩))]
        constructor
        · rintro (heq | hin)
          · cases heq
            exact .inr ⟨rfl, .inr ⟨hnot, rfl⟩⟩
          · refine .inl ⟨fun heq => hnot use (heq ▸ hin), hin⟩
        · rintro (⟨-, hin⟩ | ⟨rfl, ⟨x, hin, -⟩ | ⟨-, rfl⟩⟩)
          · exact .inr hin
          · exact absurd hin (hnot x)
          · exact .inl rfl

theorem emplaceUse_sorted (hsorted : entries.Pairwise fun a b => a.1 < b.1) :
    (emplaceUse o entries t).Pairwise fun a b => a.1 < b.1 := by
  induction entries with
  | nil => exact pairwise_singleton _ _
  | cons entry rest ih =>
    obtain ⟨hlt, hrest⟩ := pairwise_cons.1 hsorted
    unfold emplaceUse
    split
    · rename_i h1
      refine pairwise_cons.2 ⟨?_, ih hrest⟩
      rintro ⟨u, use⟩ hin
      rcases (mem_emplaceUse hrest).1 hin with ⟨-, hin⟩ | ⟨rfl, -⟩
      · exact hlt _ hin
      · exact h1
    · rename_i h1
      split
      · exact pairwise_cons.2 ⟨hlt, hrest⟩
      · rename_i h2
        have hte : t < entry.1 := by omega
        refine pairwise_cons.2 ⟨fun e hin => ?_, hsorted⟩
        rcases mem_cons.1 hin with rfl | hin
        · exact hte
        · exact hte.trans (hlt e hin)

theorem SourceUses.step {done : List (Nat × Nat)} (h : SourceUses done entries)
    (hle : ∀ x ∈ done, x.1 ≤ o) :
    SourceUses (done ++ [(o, t)]) (emplaceUse o entries t) := by
  have hmem : ∀ {x u : Nat}, (x, u) ∈ done ++ [(o, t)] ↔ (x, u) ∈ done ∨ x = o ∧ u = t := by
    intro x u
    rw [mem_append, mem_singleton, Prod.mk.injEq]
  refine ⟨emplaceUse_sorted h.sorted, ?_, ?_, ?_, ?_⟩
  · intro u use hin
    rw [hmem]
    rcases (mem_emplaceUse h.sorted).1 hin with ⟨-, hin⟩ | ⟨rfl, ⟨old, hold, rfl⟩ | ⟨-, rfl⟩⟩
    · exact .inl (h.first hin)
    · have hfirst := h.first hold
      exact .inl hfirst
    · exact .inr ⟨rfl, rfl⟩
  · intro u use hin
    rw [hmem]
    rcases (mem_emplaceUse h.sorted).1 hin with ⟨-, hin⟩ | ⟨rfl, ⟨old, hin, rfl⟩ | ⟨-, rfl⟩⟩
    · exact .inl (h.last hin)
    · exact .inr ⟨rfl, rfl⟩
    · exact .inr ⟨rfl, rfl⟩
  · intro x u use hin hx
    rw [hmem] at hx
    rcases (mem_emplaceUse h.sorted).1 hin with ⟨hne, hin⟩ | ⟨rfl, ⟨old, hold, rfl⟩ | ⟨hnone, rfl⟩⟩
    · exact h.between hin (hx.resolve_right fun heq => hne heq.2)
    · rcases hx with hx | ⟨rfl, -⟩
      · exact ⟨(h.between hold hx).1, hle _ hx⟩
      · exact ⟨hle _ (h.first hold), le_refl _⟩
    · rcases hx with hx | ⟨rfl, -⟩
      · obtain ⟨use, hin⟩ := h.covers hx
        exact absurd hin (hnone use)
      · exact ⟨le_refl _, le_refl _⟩
  · intro x u hx
    by_cases hut : u = t
    · subst hut
      by_cases hold : ∃ old, (u, old) ∈ entries
      · obtain ⟨old, hold⟩ := hold
        exact ⟨_, (mem_emplaceUse h.sorted).2 (.inr ⟨rfl, .inl ⟨old, hold, rfl⟩⟩)⟩
      · exact ⟨_, (mem_emplaceUse h.sorted).2
          (.inr ⟨rfl, .inr ⟨fun old hin => hold ⟨old, hin⟩, rfl⟩⟩)⟩
    · rw [hmem] at hx
      obtain ⟨use, hin⟩ := h.covers (hx.resolve_right fun heq => hut heq.2)
      exact ⟨use, (mem_emplaceUse h.sorted).2 (.inl ⟨hut, hin⟩)⟩

def rangeUses (s : Rematerializer) (remat : RematSpec) : List (Nat × Nat) :=
  (List.range' remat.begin remat.len).flatMap fun o =>
    (s.operations.getD o default).tensors.map fun t => (o, t)

theorem mem_rangeUses (h : s.Valid) (hv : remat.Valid s.operations.length) :
    (o, t) ∈ rangeUses s remat ↔ s.Uses o t ∧ remat.begin ≤ o ∧ o < remat.stop := by
  have hlen : remat.begin + remat.len = remat.stop := Nat.add_sub_cancel' hv.1
  have hlt : ∀ x, x < remat.stop → x < s.operations.length :=
    fun x hx => lt_of_lt_of_le hx (hv.2.1.trans hv.2.2)
  unfold rangeUses
  simp only [mem_flatMap, mem_range'_1, hlen, mem_map, Prod.mk.injEq]
  constructor
  · rintro ⟨o, ho, t, ht, rfl, rfl⟩
    exact ⟨(mem_tensors_iff h (hlt o ho.2)).1 ht, ho⟩
  · rintro ⟨hu, ho⟩
    exact ⟨o, ho, t, (mem_tensors_iff h (hlt o ho.2)).2 hu, rfl, rfl⟩

theorem sourceUses_spec (s : Rematerializer) (remat : RematSpec) :
    SourceUses (rangeUses s remat) (s.sourceUses remat) := by
  have hflat : s.sourceUses remat =
      (rangeUses s remat).foldl (fun entries use => emplaceUse use.1 entries use.2) [] := by
    unfold Rematerializer.sourceUses rangeUses
    rw [foldl_flatMap]
    simp only [foldl_map]
  have hsorted : (rangeUses s remat).Pairwise fun a b => a.1 ≤ b.1 := by
    refine pairwise_flatMap.2 ⟨fun o _ => ?_, ?_⟩
    · refine pairwise_map.2 (pairwise_of_forall fun _ _ => le_refl _)
    · have hlt : (List.range' remat.begin remat.len).Pairwise (· < ·) := pairwise_lt_range'
      refine hlt.imp fun {a b} hab x hx y hy => ?_
      obtain ⟨t, -, rfl⟩ := mem_map.1 hx
      obtain ⟨u, -, rfl⟩ := mem_map.1 hy
      exact hab.le
  rw [hflat]
  refine foldl_invariant (P := SourceUses) ?_ fun done use rest entries heq hdone => ?_
  · constructor <;> simp
  · refine hdone.step fun x hx => ?_
    rw [heq] at hsorted
    exact (pairwise_append.1 hsorted).2.2 x hx use mem_cons_self

/-! ## The deltas of a tensor -/

theorem deltasBefore_append (i : Nat) (deltas deltas' : List MemSpec) :
    deltasBefore i (deltas ++ deltas') = deltasBefore i deltas + deltasBefore i deltas' := by
  unfold deltasBefore
  rw [filter_append, map_append, sum_append]

theorem deltasBefore_getDeltas (i : Nat) :
    deltasBefore i (s.getDeltas remat) =
      ((s.sourceUses remat).map fun entry => deltasBefore i (s.tensorDeltas remat entry)).sum := by
  have hperm : deltasBefore i (s.getDeltas remat) =
      deltasBefore i ((s.sourceUses remat).flatMap (s.tensorDeltas remat)) := by
    unfold Rematerializer.getDeltas
    split
    · rename_i heq
      have hlen : remat.len = 0 := by rw [len, heq, Nat.sub_self]
      unfold Rematerializer.sourceUses
      rw [hlen]
      rfl
    · exact (((mergeSort_perm _ _).filter _).map _).sum_eq
  rw [hperm]
  induction s.sourceUses remat with
  | nil => rfl
  | cons entry entries ih =>
    rw [flatMap_cons, deltasBefore_append, ih, map_cons, sum_cons]

theorem deltasBefore_one (i pos : Nat) (size : Int) :
    deltasBefore (i + 1) [⟨pos, size⟩] = size * ind (pos ≤ i) := by
  rw [deltasBefore_cons]
  unfold ind
  simp only [Nat.lt_succ_iff, deltasBefore, filter_nil, map_nil, sum_nil, add_zero,
    mul_ite, mul_one, mul_zero]

theorem deltasBefore_two (i pos pos' : Nat) (size size' : Int) :
    deltasBefore (i + 1) [⟨pos, size⟩, ⟨pos', size'⟩] =
      size * ind (pos ≤ i) + size' * ind (pos' ≤ i) := by
  rw [← deltasBefore_one, ← deltasBefore_one, ← deltasBefore_append, singleton_append]

/-- From the end of a sorted vector, the first item below a bound is the greatest one. -/
theorem headD_dropWhile (hsorted : l.Pairwise (· > ·)) {bound x : Nat} (hx : x ∈ l)
    (hlt : x < bound) :
    ((l.dropWhile fun i => decide (bound ≤ i)).headD 0 ∈ l ∧
      (l.dropWhile fun i => decide (bound ≤ i)).headD 0 < bound) ∧
      ∀ y ∈ l, y < bound → y ≤ (l.dropWhile fun i => decide (bound ≤ i)).headD 0 := by
  induction l with
  | nil => cases hx
  | cons a l ih =>
    obtain ⟨hgt, hsorted⟩ := pairwise_cons.1 hsorted
    by_cases ha : bound ≤ a
    · have hskip : (a :: l).dropWhile (fun i => decide (bound ≤ i)) =
          l.dropWhile fun i => decide (bound ≤ i) := by simp [ha]
      have hxl : x ∈ l := (mem_cons.1 hx).resolve_left (by omega)
      obtain ⟨⟨hmem, hbound⟩, hmax⟩ := ih hsorted hxl
      rw [hskip]
      refine ⟨⟨mem_cons_of_mem a hmem, hbound⟩, fun y hy hyb => ?_⟩
      exact hmax y ((mem_cons.1 hy).resolve_left (by omega)) hyb
    · have hstop : (a :: l).dropWhile (fun i => decide (bound ≤ i)) = a :: l := by simp [ha]
      rw [hstop, headD_cons]
      refine ⟨⟨mem_cons_self, not_le.1 ha⟩, fun y hy _ => ?_⟩
      rcases mem_cons.1 hy with rfl | hy
      · exact le_refl _
      · exact (hgt y hy).le

open Classical in
/-- One for each operation in which the tensor or its clone is in use afterwards. -/
noncomputable def heldAfter (s : Rematerializer) (remat : RematSpec) (t i : Nat) : Int :=
  if CreatedIn s remat t then
    held (fun o => UsesAfter s remat o t ∧ o < remat.insert) i +
      held (fun o => UsesAfter s remat o t ∧ remat.insert ≤ o) i
  else held (fun o => UsesAfter s remat o t) i

/-- A tensor with no use in the source range only moves. -/
theorem heldAfter_of_unused {t : Nat}
    (h : ∀ o, s.Uses o t → ¬ (remat.begin ≤ o ∧ o < remat.stop)) (i : Nat) :
    heldAfter s remat t i = held (MovedUsesOf s remat t) i := by
  have hnot : ¬ CreatedIn s remat t := by
    rintro ⟨o, hu, -, hin⟩
    exact h o hu hin
  have huses : (fun o => UsesAfter s remat o t) = MovedUsesOf s remat t := by
    funext o
    refine propext (or_iff_left ?_)
    rintro ⟨x, hx, hin, -⟩
    exact h x hx hin
  unfold heldAfter
  rw [if_neg hnot, huses]

section
variable (h : s.Valid) (hv : remat.Valid s.operations.length) {t : Nat} {use : TensorUse}
  (hin : (t, use) ∈ s.sourceUses remat)
include h hv hin

theorem source_use :
    (s.Uses use.firstUse t ∧ remat.begin ≤ use.firstUse ∧ use.firstUse < remat.stop) ∧
      (s.Uses use.lastUse t ∧ remat.begin ≤ use.lastUse ∧ use.lastUse < remat.stop) ∧
      ∀ o, s.Uses o t → remat.begin ≤ o → o < remat.stop →
        use.firstUse ≤ o ∧ o ≤ use.lastUse := by
  have hspec := sourceUses_spec s remat
  refine ⟨(mem_rangeUses h hv).1 (hspec.first hin), (mem_rangeUses h hv).1 (hspec.last hin),
    fun o hu hge hlt => hspec.between hin ((mem_rangeUses h hv).2 ⟨hu, hge, hlt⟩)⟩

/-- A tensor created before the source range lives on to its last use in the inserted one. -/
theorem heldAfter_of_created_before
    (hcreated : (s.tensors.getD t default).firstUse < remat.begin) (i : Nat) :
    heldAfter s remat t i = ind ((s.tensors.getD t default).firstUse ≤ i) -
      if (s.tensors.getD t default).lastUse < remat.insert then
        ind (use.lastUse + (remat.insert - remat.begin) + 1 ≤ i)
      else ind (remat.shifted (s.tensors.getD t default).lastUse + 1 ≤ i) := by
  obtain ⟨hbegin, hstop, -⟩ := id hv
  obtain ⟨-, ⟨hlastUse, hlge, hllt⟩, hbetween⟩ := source_use h hv hin
  obtain ⟨⟨hfirst, hlast⟩, hmin, hmax⟩ := firstUse_lastUse h hlastUse
  have hnot : ¬ CreatedIn s remat t := by
    rintro ⟨o, -, heq, hge, -⟩
    omega
  have hstart : UsesAfter s remat (s.tensors.getD t default).firstUse t :=
    .inl ⟨_, hfirst, (shifted_of_lt (by omega)).symm⟩
  have hle : ∀ o, UsesAfter s remat o t → (s.tensors.getD t default).firstUse ≤ o := by
    rintro o (⟨x, hx, rfl⟩ | ⟨x, hx, -, rfl⟩)
    · have := hmin x hx
      unfold shifted
      split <;> omega
    · have := hmin x hx
      omega
  unfold heldAfter
  rw [if_neg hnot]
  split
  · rename_i hlt
    refine held_eq ?_ ?_ hle ?_ i
    · exact hstart
    · exact .inr ⟨_, hlastUse, ⟨hlge, hllt⟩, rfl⟩
    rintro o (⟨x, hx, rfl⟩ | ⟨x, hx, ⟨hge, hlt'⟩, rfl⟩)
    · have := hmax x hx
      rw [shifted_of_lt (by omega)]
      omega
    · have := (hbetween x hx hge hlt').2
      omega
  · rename_i hge
    refine held_eq ?_ ?_ hle ?_ i
    · exact hstart
    · exact .inl ⟨_, hlast, rfl⟩
    rintro o (⟨x, hx, rfl⟩ | ⟨x, hx, ⟨hge', hlt'⟩, rfl⟩)
    · exact shifted_mono (hmax x hx)
    · unfold shifted len
      split <;> omega

/-- A tensor created in the source range lives on as itself and as its clone. -/
theorem heldAfter_of_created_in
    (hcreated : ¬ (s.tensors.getD t default).firstUse < remat.begin) (i : Nat) :
    heldAfter s remat t i = ind ((s.tensors.getD t default).firstUse ≤ i) +
      ind (use.firstUse + (remat.insert - remat.begin) ≤ i) -
      ind (remat.shifted (s.tensors.getD t default).lastUse + 1 ≤ i) -
      if (s.tensors.getD t default).lastUse < remat.insert then
        ind (use.lastUse + (remat.insert - remat.begin) + 1 ≤ i)
      else ind (((s.tensors.getD t default).operations.reverse.dropWhile fun i =>
        decide (remat.insert ≤ i)).headD 0 + 1 ≤ i) := by
  obtain ⟨hbegin, hstop, -⟩ := id hv
  obtain ⟨⟨hfirstUse, hfge, hflt⟩, ⟨hlastUse, hlge, hllt⟩, hbetween⟩ := source_use h hv hin
  obtain ⟨⟨hfirst, hlast⟩, hmin, hmax⟩ := firstUse_lastUse h hlastUse
  have hfe : use.firstUse = (s.tensors.getD t default).firstUse := by
    have h1 := hmin _ hfirstUse
    have h2 := (hbetween _ hfirst (by omega) (by omega)).1
    omega
  have hin' : CreatedIn s remat t := ⟨_, hfirst, rfl, by omega, by omega⟩
  have hget : s.tensors[t]? = some (s.tensors.getD t default) := by
    rw [getD_eq_getElem?_getD, getElem?_eq_getElem hlastUse.tensor_lt, Option.getD_some]
  -- uses before the insertion are those there were
  have hearly : ∀ o, (UsesAfter s remat o t ∧ o < remat.insert) ↔
      s.Uses o t ∧ o < remat.insert := by
    intro o
    constructor
    · rintro ⟨⟨x, hx, rfl⟩ | ⟨x, hx, ⟨hge, hlt⟩, rfl⟩, ho⟩
      · have hx' := (shifted_eq_iff ho).1 rfl
        rw [← hx']
        exact ⟨hx, by omega⟩
      · omega
    · rintro ⟨hu, ho⟩
      exact ⟨.inl ⟨o, hu, (shifted_of_lt ho).symm⟩, ho⟩
  have hheldEarly : held (fun o => UsesAfter s remat o t ∧ o < remat.insert) i =
      ind ((s.tensors.getD t default).firstUse ≤ i) -
        if (s.tensors.getD t default).lastUse < remat.insert then
          ind ((s.tensors.getD t default).lastUse + 1 ≤ i)
        else ind (((s.tensors.getD t default).operations.reverse.dropWhile fun i =>
          decide (remat.insert ≤ i)).headD 0 + 1 ≤ i) := by
    simp only [hearly]
    split
    · rename_i hlt
      exact held_eq ⟨hfirst, by omega⟩ ⟨hlast, hlt⟩ (fun o ho => hmin o ho.1)
        (fun o ho => hmax o ho.1) i
    · have hsorted := pairwise_reverse.2 (h.tensor_sorted hget)
      have hmem := mem_reverse.2 ((uses_iff hget).1 hfirst)
      have hbelow : (s.tensors.getD t default).firstUse < remat.insert := by omega
      obtain ⟨⟨hlb, hlt⟩, hgreatest⟩ := headD_dropWhile hsorted hmem hbelow
      refine held_eq ⟨hfirst, hbelow⟩ ⟨(uses_iff hget).2 (mem_reverse.1 hlb), hlt⟩
        (fun o ho => hmin o ho.1) (fun o ho => ?_) i
      exact hgreatest o (mem_reverse.2 ((uses_iff hget).1 ho.1)) ho.2
  have hheldLate : held (fun o => UsesAfter s remat o t ∧ remat.insert ≤ o) i =
      ind (use.firstUse + (remat.insert - remat.begin) ≤ i) -
        if (s.tensors.getD t default).lastUse < remat.insert then
          ind (use.lastUse + (remat.insert - remat.begin) + 1 ≤ i)
        else ind (remat.shifted (s.tensors.getD t default).lastUse + 1 ≤ i) := by
    have hstart : ∀ o, UsesAfter s remat o t ∧ remat.insert ≤ o →
        use.firstUse + (remat.insert - remat.begin) ≤ o := by
      rintro o ⟨⟨x, hx, rfl⟩ | ⟨x, hx, ⟨hge, hlt⟩, rfl⟩, ho⟩
      · unfold shifted len at ho ⊢
        split at ho <;> split <;> omega
      · have := (hbetween x hx hge hlt).1
        omega
    split
    · rename_i hlt
      refine held_eq ?_ ?_ hstart ?_ i
      · exact ⟨.inr ⟨_, hfirstUse, ⟨hfge, hflt⟩, rfl⟩, by omega⟩
      · exact ⟨.inr ⟨_, hlastUse, ⟨hlge, hllt⟩, rfl⟩, by omega⟩
      rintro o ⟨⟨x, hx, rfl⟩ | ⟨x, hx, ⟨hge, hlt'⟩, rfl⟩, ho⟩
      · have := hmax x hx
        rw [shifted_of_lt (by omega)] at ho
        omega
      · have := (hbetween x hx hge hlt').2
        omega
    · rename_i hge
      refine held_eq ?_ ?_ hstart ?_ i
      · exact ⟨.inr ⟨_, hfirstUse, ⟨hfge, hflt⟩, rfl⟩, by omega⟩
      · refine ⟨.inl ⟨_, hlast, rfl⟩, ?_⟩
        unfold shifted
        split <;> omega
      rintro o ⟨⟨x, hx, rfl⟩ | ⟨x, hx, ⟨hge', hlt'⟩, rfl⟩, ho⟩
      · exact shifted_mono (hmax x hx)
      · unfold shifted len
        split <;> omega
  unfold heldAfter
  rw [if_pos hin', hheldEarly, hheldLate]
  split
  · rename_i hlt
    rw [shifted_of_lt hlt]
    omega
  · omega

theorem deltasBefore_tensorDeltas (i : Nat) :
    deltasBefore (i + 1) (s.tensorDeltas remat (t, use)) =
      sizeAt s t * heldAfter s remat t i - sizeAt s t * held (MovedUsesOf s remat t) i := by
  obtain ⟨-, hstop, -⟩ := id hv
  obtain ⟨-, ⟨hlastUse, hlge, hllt⟩, -⟩ := source_use h hv hin
  rw [held_movedUses h hlastUse]
  unfold Rematerializer.tensorDeltas
  dsimp only
  by_cases hcreated : (s.tensors.getD t default).firstUse < remat.begin
  · rw [if_pos hcreated, heldAfter_of_created_before h hv hin hcreated]
    have hfirst : remat.shifted (s.tensors.getD t default).firstUse =
        (s.tensors.getD t default).firstUse := shifted_of_lt (by omega)
    rw [hfirst]
    split
    · rename_i hlt
      rw [deltasBefore_two, shifted_of_lt hlt]
      unfold sizeAt
      ring
    · rw [deltasBefore_eq_zero fun _ hin => absurd hin not_mem_nil]
      ring
  · rw [if_neg hcreated, heldAfter_of_created_in h hv hin hcreated]
    have hfirst : remat.shifted (s.tensors.getD t default).firstUse =
        (s.tensors.getD t default).firstUse := by
      have := (firstUse_lastUse h hlastUse).2.1 _ hlastUse
      exact shifted_of_lt (by omega)
    rw [hfirst]
    split
    · rw [deltasBefore_two]
      unfold sizeAt
      ring
    · rw [deltasBefore_two]
      unfold sizeAt
      ring

end

/-! ## Simulation -/

/-- What is predicted to be in use during operation `i`. -/
theorem predicted_eq (h : s.Valid) (hv : remat.Valid s.operations.length) (i : Nat) :
    inUse s remat i + deltasBefore (i + 1) (s.getDeltas remat) =
      ((List.range s.tensors.length).map fun t => sizeAt s t * heldAfter s remat t i).sum := by
  have hspec := sourceUses_spec s remat
  have hentries : deltasBefore (i + 1) (s.getDeltas remat) =
      (((s.sourceUses remat).map Prod.fst).map fun t =>
        sizeAt s t * heldAfter s remat t i - sizeAt s t * held (MovedUsesOf s remat t) i).sum := by
    rw [deltasBefore_getDeltas, List.map_map]
    congr 1
    exact map_congr_left fun entry hin => deltasBefore_tensorDeltas h hv hin i
  have hnodup : ((s.sourceUses remat).map Prod.fst).Nodup :=
    (pairwise_map.2 hspec.sorted).imp fun hab => Nat.ne_of_lt hab
  have hlt : ∀ t ∈ (s.sourceUses remat).map Prod.fst, t < s.tensors.length := by
    intro t ht
    obtain ⟨⟨t, use⟩, hin, rfl⟩ := mem_map.1 ht
    exact ((mem_rangeUses h hv).1 (hspec.first hin)).1.tensor_lt
  have hzero : ∀ t, t < s.tensors.length → t ∉ (s.sourceUses remat).map Prod.fst →
      sizeAt s t * heldAfter s remat t i - sizeAt s t * held (MovedUsesOf s remat t) i = 0 := by
    intro t _ hnot
    have hunused : ∀ o, s.Uses o t → ¬ (remat.begin ≤ o ∧ o < remat.stop) := by
      intro o hu hin
      obtain ⟨use, hin⟩ := hspec.covers ((mem_rangeUses h hv).2 ⟨hu, hin⟩)
      exact hnot (mem_map.2 ⟨_, hin, rfl⟩)
    rw [heldAfter_of_unused hunused, sub_self]
  rw [hentries, sum_map_eq_sum_range hnodup hlt hzero, inUse_eq h, ← sum_map_add]
  congr 1
  refine map_congr_left fun t _ => ?_
  omega

theorem sizeAt_of_lt (hr : Rematerialized s remat clones s') {t : Nat} (ht : t < s.tensors.length) :
    sizeAt s' t = sizeAt s t := by
  have hget := congrArg (fun l => l[t]?.getD 0) hr.sizes
  have hlt : t < (s.tensors.map Tensor.size).length := by rwa [length_map]
  have hold := getElem?_eq_getElem ht
  simp only [getElem?_append_left hlt, getElem?_map, hold, Option.map_some,
    Option.getD_some] at hget
  unfold sizeAt
  rw [getD_eq_getElem?_getD, getD_eq_getElem?_getD, hold, Option.getD_some, ← hget]
  cases s'.tensors[t]? <;> rfl

theorem sizeAt_clone (hr : Rematerialized s remat clones s') {clone : Nat × Nat}
    (hin : clone ∈ clones) :
    sizeAt s' clone.2 = sizeAt s clone.1 := by
  obtain ⟨k, hk⟩ := mem_iff_getElem?.1 hin
  have hnumber : clone.2 = s.tensors.length + k := by
    have hget := congrArg (fun l => l[k]?) hr.numbered.numbers
    have hlt := (List.getElem?_eq_some_iff.1 hk).1
    simp only [getElem?_map, hk, Option.map_some, getElem?_range' hlt, one_mul,
      Option.some_inj] at hget
    exact hget
  have hget := congrArg (fun l => l[clone.2]?.getD 0) hr.sizes
  have hle : (s.tensors.map Tensor.size).length ≤ clone.2 := by
    rw [length_map, hnumber]
    exact Nat.le_add_right _ _
  have hsub : clone.2 - (s.tensors.map Tensor.size).length = k := by
    rw [length_map, hnumber, Nat.add_sub_cancel_left]
  simp only [getElem?_append_right hle, hsub, getElem?_map, hk, Option.map_some,
    Option.getD_some] at hget
  unfold sizeAt
  rw [← hget, getD_eq_getElem?_getD]
  cases s'.tensors[clone.2]? <;> rfl

/-- What is in use during operation `i` afterwards. -/
theorem inUse_rematerialized (hr : Rematerialized s remat clones s') (i : Nat) :
    inUse s' {} i =
      ((List.range s.tensors.length).map fun t => sizeAt s t * heldAfter s remat t i).sum := by
  have huses : ∀ t, MovedUsesOf s' {} t = fun o => s'.Uses o t := by
    intro t
    funext o
    unfold MovedUsesOf
    simp only [shifted_nil, exists_eq_right']
  have hlength : s'.tensors.length = s.tensors.length + clones.length := by
    have hlen := congrArg List.length hr.sizes
    rwa [length_map, length_append, length_map, length_map] at hlen
  have hrange : List.range s'.tensors.length =
      List.range s.tensors.length ++ clones.map Prod.snd := by
    rw [hlength, range_add, hr.numbered.numbers, range'_eq_map_range]
  classical
  let late := fun t => if t ∈ clones.map Prod.fst then
    sizeAt s t * held (fun o => UsesAfter s remat o t ∧ remat.insert ≤ o) i else 0
  have hlate : ((clones.map Prod.snd).map fun t =>
      sizeAt s' t * held (MovedUsesOf s' {} t) i).sum =
      ((List.range s.tensors.length).map late).sum := by
    have hzero : ∀ t, t < s.tensors.length → t ∉ clones.map Prod.fst → late t = 0 :=
      fun t _ hnot => if_neg hnot
    rw [← sum_map_eq_sum_range hr.numbered.nodup hr.numbered.old_lt hzero, List.map_map,
      List.map_map]
    congr 1
    refine map_congr_left fun clone hin => ?_
    have hmem : clone.1 ∈ clones.map Prod.fst := mem_map.2 ⟨clone, hin, rfl⟩
    simp only [Function.comp_apply, late, if_pos hmem, sizeAt_clone hr hin, huses]
    congr 2
    funext o
    exact propext (hr.late o clone.1 clone.2 hin)
  rw [inUse_eq hr.valid, hrange, map_append, sum_append, hlate, ← sum_map_add]
  congr 1
  refine map_congr_left fun t ht => ?_
  rw [mem_range] at ht
  unfold heldAfter
  rw [sizeAt_of_lt hr ht, huses]
  by_cases hmem : t ∈ clones.map Prod.fst
  · have hearly : (fun o => s'.Uses o t) = fun o => UsesAfter s remat o t ∧ o < remat.insert :=
      funext fun o => propext (hr.early o t hmem)
    simp only [late, if_pos hmem, if_pos ((hr.cloned t).1 hmem), hearly]
    ring
  · have hkept : (fun o => s'.Uses o t) = fun o => UsesAfter s remat o t :=
      funext fun o => propext (hr.kept o t ht hmem)
    simp only [late, if_neg hmem, if_neg fun hin => hmem ((hr.cloned t).2 hin), hkept, add_zero]

/-- The predicted specs are those after the rematerialization. -/
theorem mapMem_remat (h : s.Valid) (hv : remat.Valid s.operations.length) :
    s.mapMem remat = (s.remat remat).mapMem {} := by
  obtain ⟨clones, hr⟩ := remat_rematerialized h hv
  rw [mapMem_eq h hv.2.2, mapMem_nil hr.valid, hr.operations]
  refine map_congr_left fun i _ => ?_
  rw [predicted_eq h hv, inUse_rematerialized hr]

end LiteRt.Remat
