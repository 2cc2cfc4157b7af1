import LiteRt.Remat.Rematerializer
import Mathlib.Algebra.Ring.Int.Defs

/-!
# Bookkeeping of uses

Each step of the rematerializer keeps the two directions of the use relation consistent and
the alloc and dealloc sizes equal to the sums they stand for.
-/

namespace LiteRt.Remat

open LiteRt.Lib List

variable {s : Rematerializer} {remat : RematSpec} {o t : Nat} {tensor : Tensor} {l : List Tensor}
  {old new : Tensor} {uses : List Nat → List Nat} {α : Type} {i : Nat} {j : Nat}

namespace Rematerializer

/-- Both directions of the use relation agree, and each operation allocates the tensors it is
the first use of and deallocates those it is the last use of. -/
structure Valid (s : Rematerializer) : Prop where
  tensor_sorted : ∀ {t : Nat} {tensor : Tensor}, s.tensors[t]? = some tensor →
    tensor.operations.Pairwise (· < ·)
  operation_sorted : ∀ {o : Nat} {operation : Operation}, s.operations[o]? = some operation →
    operation.tensors.Pairwise (· < ·)
  mem_iff : ∀ {o t : Nat} {operation : Operation} {tensor : Tensor},
    s.operations[o]? = some operation → s.tensors[t]? = some tensor →
    (t ∈ operation.tensors ↔ o ∈ tensor.operations)
  operation_lt : ∀ {t : Nat} {tensor : Tensor}, s.tensors[t]? = some tensor →
    ∀ o ∈ tensor.operations, o < s.operations.length
  tensor_lt : ∀ {o : Nat} {operation : Operation}, s.operations[o]? = some operation →
    ∀ t ∈ operation.tensors, t < s.tensors.length
  alloc : ∀ {o : Nat} {operation : Operation}, s.operations[o]? = some operation →
    operation.alloc = (s.tensors.map (firstAt o)).sum
  dealloc : ∀ {o : Nat} {operation : Operation}, s.operations[o]? = some operation →
    operation.dealloc = (s.tensors.map (lastAt o)).sum

theorem valid_empty : Valid {} := by
  constructor <;> simp

end Rematerializer

open Rematerializer

/-! ## Uses -/

theorem sum_map_modify {t : Nat} {old : Tensor} (h : l[t]? = some old) (g : Tensor → Int)
    (new : Tensor) :
    ((l.modify t fun _ => new).map g).sum = (l.map g).sum + (g new - g old) := by
  induction l generalizing t with
  | nil => simp at h
  | cons a l ih =>
    cases t with
    | zero =>
      rw [getElem?_cons_zero, Option.some_inj] at h
      subst h
      simp only [modify_zero_cons, map_cons, sum_cons]
      omega
    | succ t =>
      rw [getElem?_cons_succ] at h
      simp only [modify_succ_cons, map_cons, sum_cons, ih h]
      omega

theorem getElem?_modify_const {t u : Nat} {old new tensor : Tensor} (h : l[t]? = some old)
    (hu : (l.modify t fun _ => new)[u]? = some tensor) :
    (u = t ∧ tensor = new) ∨ (u ≠ t ∧ l[u]? = some tensor) := by
  rw [getElem?_modify] at hu
  by_cases ht : t = u
  · subst ht
    rw [h] at hu
    simp only [if_true, Option.map_eq_map, Option.map_some, Option.some_inj] at hu
    exact .inl ⟨rfl, hu.symm⟩
  · simp only [ht, if_false, Option.map_eq_map, Option.map_id'] at hu
    exact .inr ⟨Ne.symm ht, hu⟩

theorem ChangesUse.length_operations {s s' : Rematerializer}
    (hc : ChangesUse s s' o t old new uses) :
    s'.operations.length = s.operations.length := by
  refine le_antisymm (not_lt.1 fun hlt => ?_) (not_lt.1 fun hlt => ?_)
  · have hsome := hc.operations s.operations.length
    rw [getElem?_eq_none (le_refl _), getElem?_eq_getElem hlt] at hsome
    cases hsome
  · have hsome := hc.operations s'.operations.length
    rw [getElem?_eq_none (le_refl _), getElem?_eq_getElem hlt] at hsome
    cases hsome

/-- What a use changes keeps the books right, if the use comes or goes in both directions. -/
theorem ChangesUse.valid {s s' : Rematerializer} (hc : ChangesUse s s' o t old new uses)
    (h : s.Valid) (ht : s.tensors[t]? = some old) (ho : o < s.operations.length)
    (hsorted : new.operations.Pairwise (· < ·))
    (hsame : ∀ x, x ≠ o → (x ∈ new.operations ↔ x ∈ old.operations))
    (huses : ∀ l : List Nat, l.Pairwise (· < ·) → (uses l).Pairwise (· < ·) ∧
      (t ∈ uses l ↔ o ∈ new.operations) ∧ ∀ x, x ≠ t → (x ∈ uses l ↔ x ∈ l)) :
    s'.Valid := by
  have hop : ∀ {j : Nat} {operation : Operation}, s'.operations[j]? = some operation →
      ∃ before, s.operations[j]? = some before ∧
        operation.tensors = (if o = j then uses before.tensors else before.tensors) ∧
        operation.alloc = before.alloc + (firstAt j new - firstAt j old) ∧
        operation.dealloc = before.dealloc + (lastAt j new - lastAt j old) := by
    intro j operation hj
    rw [hc.operations] at hj
    obtain ⟨before, hbefore, rfl⟩ := Option.map_eq_some_iff.1 hj
    exact ⟨before, hbefore, rfl, rfl, rfl⟩
  have htensor : ∀ {u : Nat} {tensor : Tensor}, s'.tensors[u]? = some tensor →
      (u = t ∧ tensor = new) ∨ (u ≠ t ∧ s.tensors[u]? = some tensor) := by
    intro u tensor hu
    rw [hc.tensors] at hu
    exact getElem?_modify_const ht hu
  have hlenT : s'.tensors.length = s.tensors.length := by
    rw [hc.tensors, length_modify]
  have htlt : t < s.tensors.length := (List.getElem?_eq_some_iff.1 ht).1
  constructor
  · intro u tensor hu
    rcases htensor hu with ⟨rfl, rfl⟩ | ⟨-, hu⟩
    · exact hsorted
    · exact h.tensor_sorted hu
  · intro j operation hj
    obtain ⟨before, hbefore, htensors, -, -⟩ := hop hj
    rw [htensors]
    split
    · exact (huses _ (h.operation_sorted hbefore)).1
    · exact h.operation_sorted hbefore
  · intro j u operation tensor hj hu
    obtain ⟨before, hbefore, htensors, -, -⟩ := hop hj
    rw [htensors]
    rcases htensor hu with ⟨rfl, rfl⟩ | ⟨hne, hu⟩
    · split
      · rename_i hoj
        subst hoj
        exact (huses _ (h.operation_sorted hbefore)).2.1
      · rename_i hoj
        exact (h.mem_iff hbefore ht).trans (hsame j (Ne.symm hoj)).symm
    · split
      · exact ((huses _ (h.operation_sorted hbefore)).2.2 u hne).trans (h.mem_iff hbefore hu)
      · exact h.mem_iff hbefore hu
  · intro u tensor hu x hx
    rw [hc.length_operations]
    rcases htensor hu with ⟨rfl, rfl⟩ | ⟨-, hu⟩
    · by_cases hxo : x = o
      · rw [hxo]
        exact ho
      · exact h.operation_lt ht x ((hsame x hxo).1 hx)
    · exact h.operation_lt hu x hx
  · intro j operation hj x hx
    obtain ⟨before, hbefore, htensors, -, -⟩ := hop hj
    rw [hlenT]
    rw [htensors] at hx
    by_cases hxt : x = t
    · rw [hxt]
      exact htlt
    · split at hx
      · exact h.tensor_lt hbefore x (((huses _ (h.operation_sorted hbefore)).2.2 x hxt).1 hx)
      · exact h.tensor_lt hbefore x hx
  · intro j operation hj
    obtain ⟨before, hbefore, -, halloc, -⟩ := hop hj
    rw [halloc, hc.tensors, sum_map_modify ht, h.alloc hbefore]
  · intro j operation hj
    obtain ⟨before, hbefore, -, -, hdealloc⟩ := hop hj
    rw [hdealloc, hc.tensors, sum_map_modify ht, h.dealloc hbefore]

theorem Rematerializer.Valid.addUse (h : s.Valid) (ho : o < s.operations.length)
    (ht : t < s.tensors.length) : (s.addUse o t).Valid := by
  have hget : s.tensors[t]? = some s.tensors[t] := getElem?_eq_getElem ht
  have hsorted := h.tensor_sorted hget
  refine (addUse_changes hget hsorted).valid h hget ho (insertSorted_pairwise hsorted)
    (fun x hx => ?_) fun l hl => ⟨insertSorted_pairwise hl, ?_, fun x hx => ?_⟩
  · rw [mem_insertSorted, or_iff_right hx]
  · exact iff_of_true (mem_insertSorted.2 (.inl rfl)) (mem_insertSorted.2 (.inl rfl))
  · rw [mem_insertSorted, or_iff_right hx]

theorem Rematerializer.Valid.delUse (h : s.Valid) (ho : o < s.operations.length)
    (ht : t < s.tensors.length) : (s.delUse o t).Valid := by
  have hget : s.tensors[t]? = some s.tensors[t] := getElem?_eq_getElem ht
  have hsorted := h.tensor_sorted hget
  refine (delUse_changes hget hsorted).valid h hget ho (eraseSorted_pairwise hsorted)
    (fun x hx => ?_) fun l hl => ⟨eraseSorted_pairwise hl, ?_, fun x hx => ?_⟩
  · rw [mem_eraseSorted hsorted, and_iff_left hx]
  · refine iff_of_false (fun hmem => ?_) fun hmem => ?_
    · exact ((mem_eraseSorted hl).1 hmem).2 rfl
    · exact ((mem_eraseSorted hsorted).1 hmem).2 rfl
  · rw [mem_eraseSorted hl, and_iff_left hx]

/-! ## New operations and tensors -/

theorem getElem?_append_eq_some {l l' : List α} {a : α} (h : (l ++ l')[i]? = some a) :
    l[i]? = some a ∨ l.length ≤ i ∧ l'[i - l.length]? = some a := by
  rw [getElem?_append] at h
  split at h
  · exact .inl h
  · rename_i hlt
    exact .inr ⟨not_lt.1 hlt, h⟩

theorem getElem?_concat_eq_some {l : List α} {a b : α} (h : (l ++ [b])[i]? = some a) :
    l[i]? = some a ∨ i = l.length ∧ a = b := by
  rcases getElem?_append_eq_some h with h | ⟨hle, h⟩
  · exact .inl h
  · rw [getElem?_singleton] at h
    split at h
    · rename_i hzero
      exact .inr ⟨by omega, (Option.some_inj.1 h).symm⟩
    · cases h

theorem firstAt_eq_zero {o : Nat} (h : o ∉ tensor.operations) :
    firstAt o tensor = 0 := by
  unfold firstAt
  exact if_neg fun hhead => h (mem_of_head? hhead)

theorem lastAt_eq_zero {o : Nat} (h : o ∉ tensor.operations) :
    lastAt o tensor = 0 := by
  unfold lastAt
  exact if_neg fun hlast => h (mem_of_getLast? hlast)

theorem sum_map_eq_zero {g : Tensor → Int} (h : ∀ x ∈ l, g x = 0) :
    (l.map g).sum = 0 := by
  induction l with
  | nil => rfl
  | cons a l ih =>
    rw [map_cons, sum_cons, h a mem_cons_self, ih fun x hx => h x (mem_cons_of_mem a hx), add_zero]

theorem Rematerializer.Valid.addOperation (h : s.Valid) (isStateful : Bool) :
    (s.addOperation isStateful).Valid := by
  have hop : ∀ {j : Nat} {operation : Operation},
      (s.addOperation isStateful).operations[j]? = some operation →
      s.operations[j]? = some operation ∨
        j = s.operations.length ∧ operation = { isStateful := isStateful } := by
    intro j operation hj
    exact getElem?_concat_eq_some hj
  have hfresh : ∀ tensor ∈ s.tensors, s.operations.length ∉ tensor.operations := by
    intro tensor hmem hlen
    obtain ⟨t, ht⟩ := mem_iff_getElem?.1 hmem
    exact Nat.lt_irrefl _ (h.operation_lt ht _ hlen)
  constructor
  · exact h.tensor_sorted
  · intro o operation ho
    rcases hop ho with ho | ⟨-, rfl⟩
    · exact h.operation_sorted ho
    · exact .nil
  · intro o t operation tensor ho ht
    rcases hop ho with ho | ⟨rfl, rfl⟩
    · exact h.mem_iff ho ht
    · exact iff_of_false not_mem_nil (hfresh tensor (mem_of_getElem? ht))
  · intro t tensor ht o ho
    have hlt := h.operation_lt ht o ho
    simp only [Rematerializer.addOperation, length_append, length_singleton]
    omega
  · intro o operation ho t ht
    rcases hop ho with ho | ⟨-, rfl⟩
    · exact h.tensor_lt ho t ht
    · cases ht
  · intro o operation ho
    rcases hop ho with ho | ⟨rfl, rfl⟩
    · exact h.alloc ho
    · exact (sum_map_eq_zero fun tensor hx => firstAt_eq_zero (hfresh tensor hx)).symm
  · intro o operation ho
    rcases hop ho with ho | ⟨rfl, rfl⟩
    · exact h.dealloc ho
    · exact (sum_map_eq_zero fun tensor hx => lastAt_eq_zero (hfresh tensor hx)).symm

theorem Rematerializer.Valid.addTensor (h : s.Valid) (size : Int) :
    (s.addTensor size).Valid := by
  have htensor : ∀ {u : Nat} {tensor : Tensor}, (s.addTensor size).tensors[u]? = some tensor →
      s.tensors[u]? = some tensor ∨ u = s.tensors.length ∧ tensor = { size := size } := by
    intro u tensor hu
    exact getElem?_concat_eq_some hu
  constructor
  · intro t tensor ht
    rcases htensor ht with ht | ⟨-, rfl⟩
    · exact h.tensor_sorted ht
    · exact .nil
  · exact h.operation_sorted
  · intro o t operation tensor ho ht
    rcases htensor ht with ht | ⟨rfl, rfl⟩
    · exact h.mem_iff ho ht
    · exact iff_of_false (fun hmem => Nat.lt_irrefl _ (h.tensor_lt ho _ hmem)) not_mem_nil
  · intro t tensor ht o ho
    rcases htensor ht with ht | ⟨-, rfl⟩
    · exact h.operation_lt ht o ho
    · cases ho
  · intro o operation ho t ht
    have hlt := h.tensor_lt ho t ht
    simp only [Rematerializer.addTensor, length_append, length_singleton]
    omega
  · intro o operation ho
    simp only [Rematerializer.addTensor, map_append, sum_append, h.alloc ho]
    simp [firstAt]
  · intro o operation ho
    simp only [Rematerializer.addTensor, map_append, sum_append, h.dealloc ho]
    simp [lastAt]

/-! ## Inserted operations -/

namespace RematSpec

variable {remat : RematSpec} {o o' : Nat}

/-- Where an operation is after the insertion. -/
def shifted (remat : RematSpec) (o : Nat) : Nat :=
  if remat.insert ≤ o then o + remat.len else o

theorem shifted_lt_shifted (h : o < o') :
    remat.shifted o < remat.shifted o' := by
  unfold shifted
  split <;> split <;> omega

theorem shifted_inj :
    remat.shifted o = remat.shifted o' ↔ o = o' := by
  unfold shifted
  split <;> split <;> omega

end RematSpec

theorem getElem?_insertOperations (hinsert : remat.insert ≤ s.operations.length)
    {operation : Operation} (h : (s.insertOperations remat).operations[j]? = some operation) :
    (∃ o, j = remat.shifted o ∧ s.operations[o]? = some operation) ∨
      (remat.insert ≤ j ∧ j < remat.insert + remat.len) ∧ operation = {} := by
  have hlen : (s.operations.take remat.insert).length = remat.insert := by
    rw [length_take]
    exact min_eq_left hinsert
  unfold Rematerializer.insertOperations at h
  rw [append_assoc] at h
  rcases getElem?_append_eq_some h with h | ⟨hle, h⟩
  · have hlt := (List.getElem?_eq_some_iff.1 h).1
    rw [hlen] at hlt
    rw [getElem?_take_of_lt hlt] at h
    exact .inl ⟨j, by rw [RematSpec.shifted, if_neg (not_le.2 hlt)], h⟩
  · rw [hlen] at hle h
    rcases getElem?_append_eq_some h with h | ⟨hle', h⟩
    · obtain ⟨hlt, heq⟩ := List.getElem?_eq_some_iff.1 h
      rw [length_replicate] at hlt
      rw [getElem_replicate] at heq
      exact .inr ⟨⟨hle, by omega⟩, heq.symm⟩
    · rw [length_replicate] at hle' h
      rw [getElem?_drop] at h
      refine .inl ⟨_, ?_, h⟩
      rw [RematSpec.shifted, if_pos (Nat.le_add_right _ _)]
      omega

theorem head?_map_shifted (o : Nat) :
    firstAt (remat.shifted o) { tensor with operations := tensor.operations.map remat.shifted } =
      firstAt o tensor := by
  simp [firstAt, RematSpec.shifted_inj]

theorem getLast?_map_shifted (o : Nat) :
    lastAt (remat.shifted o) { tensor with operations := tensor.operations.map remat.shifted } =
      lastAt o tensor := by
  simp [lastAt, RematSpec.shifted_inj]

theorem mem_map_shifted {l : List Nat} {o : Nat} :
    remat.shifted o ∈ l.map remat.shifted ↔ o ∈ l :=
  mem_map_of_injective fun _ _ => RematSpec.shifted_inj.1

theorem not_mem_map_shifted {l : List Nat} (h : remat.insert ≤ j ∧ j < remat.insert + remat.len) :
    j ∉ l.map remat.shifted := by
  rw [mem_map]
  rintro ⟨o, -, heq⟩
  unfold RematSpec.shifted at heq
  split at heq <;> omega

theorem Rematerializer.Valid.insertOperations (h : s.Valid)
    (hinsert : remat.insert ≤ s.operations.length) :
    (s.insertOperations remat).Valid := by
  have htensor : ∀ {t : Nat} {tensor : Tensor},
      (s.insertOperations remat).tensors[t]? = some tensor →
      ∃ before, s.tensors[t]? = some before ∧
        tensor = { before with operations := before.operations.map remat.shifted } := by
    intro t tensor ht
    unfold Rematerializer.insertOperations at ht
    rw [getElem?_map] at ht
    obtain ⟨before, hbefore, rfl⟩ := Option.map_eq_some_iff.1 ht
    exact ⟨before, hbefore, rfl⟩
  have hsum : ∀ g : Tensor → Int, ((s.insertOperations remat).tensors.map g).sum
      = (s.tensors.map fun tensor =>
          g { tensor with operations := tensor.operations.map remat.shifted }).sum := by
    intro g
    unfold Rematerializer.insertOperations
    rw [List.map_map]
    rfl
  constructor
  · intro t tensor ht
    obtain ⟨before, hbefore, rfl⟩ := htensor ht
    exact (h.tensor_sorted hbefore).map _ fun a b => RematSpec.shifted_lt_shifted
  · intro o operation ho
    rcases getElem?_insertOperations hinsert ho with ⟨o, rfl, hold⟩ | ⟨-, rfl⟩
    · exact h.operation_sorted hold
    · exact .nil
  · intro o t operation tensor ho ht
    obtain ⟨before, hbefore, rfl⟩ := htensor ht
    rcases getElem?_insertOperations hinsert ho with ⟨o, rfl, hold⟩ | ⟨hgap, rfl⟩
    · exact (h.mem_iff hold hbefore).trans mem_map_shifted.symm
    · exact iff_of_false not_mem_nil (not_mem_map_shifted hgap)
  · intro t tensor ht o ho
    obtain ⟨before, hbefore, rfl⟩ := htensor ht
    obtain ⟨o, hmem, rfl⟩ := mem_map.1 ho
    have hlt := h.operation_lt hbefore o hmem
    simp only [Rematerializer.insertOperations, length_append, length_take,
      length_replicate, length_drop, RematSpec.shifted]
    split <;> omega
  · intro o operation ho t ht
    have hlen : (s.insertOperations remat).tensors.length = s.tensors.length :=
      length_map _
    rw [hlen]
    rcases getElem?_insertOperations hinsert ho with ⟨o, rfl, hold⟩ | ⟨-, rfl⟩
    · exact h.tensor_lt hold t ht
    · cases ht
  · intro o operation ho
    rw [hsum]
    rcases getElem?_insertOperations hinsert ho with ⟨o, rfl, hold⟩ | ⟨hgap, rfl⟩
    · simp only [head?_map_shifted]
      exact h.alloc hold
    · exact (sum_map_eq_zero fun tensor _ => firstAt_eq_zero (not_mem_map_shifted hgap)).symm
  · intro o operation ho
    rw [hsum]
    rcases getElem?_insertOperations hinsert ho with ⟨o, rfl, hold⟩ | ⟨hgap, rfl⟩
    · simp only [getLast?_map_shifted]
      exact h.dealloc hold
    · exact (sum_map_eq_zero fun tensor _ => lastAt_eq_zero (not_mem_map_shifted hgap)).symm

end LiteRt.Remat
