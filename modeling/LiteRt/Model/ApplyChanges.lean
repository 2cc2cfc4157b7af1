import Mathlib.Data.List.Induction
import Mathlib.Data.List.TakeWhile
import LiteRt.Model.BuilderRuns

/-!
# Applying a rewrite

After `ApplyChanges` the graph is well-formed again. Its op list is the old one
with all new ops in front of the first erased op, so it is a topological order
exactly when the operands of the new ops are ready there.
-/

namespace LiteRt.Model

open LiteRt.Lib List

/-! ## Dropping the erased ops -/

section
variable {g : Ir} {es : List OpId} {o : OpId} {t : TensorId}

theorem foldlM_drop (h : ∀ e ∈ es, g.WellFormedAt e) :
    es.foldlM drop g = some (es.foldl Ir.eraseEdges g) := by
  induction es generalizing g with
  | nil => rfl
  | cons e es ih =>
    rw [foldlM_cons, drop_eq (h e (by simp))]
    exact ih fun e' hm => (h e' (mem_cons_of_mem e hm)).eraseEdges e

theorem wellFormedAt_foldl_eraseEdges (h : g.WellFormedAt o) (es : List OpId) :
    (es.foldl Ir.eraseEdges g).WellFormedAt o := by
  induction es generalizing g with
  | nil => exact h
  | cons e es ih => exact ih (h.eraseEdges e)

theorem op_foldl_eraseEdges_of_not_mem (h : o ∉ es) :
    (es.foldl Ir.eraseEdges g).op o = g.op o := by
  induction es generalizing g with
  | nil => rfl
  | cons e es ih =>
    rw [mem_cons, not_or] at h
    rw [foldl_cons, ih h.2, op_eraseEdges_ne h.1]

theorem op_foldl_eraseEdges_of_mem (h : o ∈ es) :
    ((es.foldl Ir.eraseEdges g).op o).inputs = [] ∧
      ((es.foldl Ir.eraseEdges g).op o).outputs = [] := by
  induction es using List.reverseRecOn with
  | nil => simp at h
  | append_singleton es e ih =>
    rw [foldl_append, foldl_cons, foldl_nil]
    by_cases he : o = e
    · subst he
      simp
    · rw [op_eraseEdges_ne he]
      exact ih ((mem_append.mp h).resolve_right (by simpa using he))

theorem users_foldl_eraseEdges : ((es.foldl Ir.eraseEdges g).tensor t).users =
    (g.tensor t).users.filter fun u => u.1 ∉ es := by
  induction es generalizing g with
  | nil => simp
  | cons e es ih =>
    rw [foldl_cons, ih, users_eraseEdges, filter_filter]
    refine filter_congr fun u _ => ?_
    simp [Bool.and_comm]

theorem definingOp_foldl_eraseEdges :
    ((es.foldl Ir.eraseEdges g).tensor t).definingOp = some o ↔
      (g.tensor t).definingOp = some o ∧ o ∉ es := by
  induction es generalizing g with
  | nil => simp
  | cons e es ih =>
    rw [foldl_cons, ih, definingOp_eraseEdges, mem_cons, not_or]
    by_cases he : (g.tensor t).definingOp = some e
    · rw [if_pos he, he]
      simp only [reduceCtorEq, false_and, Option.some.injEq, false_iff, not_and]
      exact fun h hne => absurd h.symm hne
    · rw [if_neg he]
      refine ⟨fun ⟨h1, h2⟩ => ⟨h1, fun h => he (h ▸ h1), h2⟩, fun ⟨h1, _, h2⟩ => ⟨h1, h2⟩⟩

theorem sameData_foldl_eraseEdges (es : List OpId) (g : Ir) (t : TensorId) :
    (g.tensor t).SameData ((es.foldl Ir.eraseEdges g).tensor t) := by
  induction es generalizing g with
  | nil => exact ⟨rfl, rfl, rfl⟩
  | cons e es ih =>
    refine Tensor.SameData.trans ?_ (ih _)
    simp only [Ir.eraseEdges]
    split <;> exact ⟨rfl, rfl, rfl⟩

theorem alloc_foldl_eraseEdges : (es.foldl Ir.eraseEdges g).alloc = g.alloc := by
  induction es generalizing g with
  | nil => rfl
  | cons e es ih => exact ih

end

/-! ## Reconnecting -/

theorem foldl_pushUse (ios : List TensorId) (o : OpId) (l : List (TensorId × Nat)) (g : Ir) :
    (l.foldl (fun g (t, i) =>
        if t ∈ ios then g.modifyTensor t fun x => { x with users := x.users ++ [(o, i)] }
        else g) g) =
      { g with tensor := fun t => { g.tensor t with users := (g.tensor t).users ++
          if t ∈ ios then (l.filter fun p => p.1 = t).map fun p => (o, p.2) else [] } } := by
  induction l generalizing g with
  | nil => simp
  | cons p l ih =>
    obtain ⟨t, i⟩ := p
    rw [foldl_cons, ih]
    refine Ir.ext' (fun t' => ?_) (fun o' => ?_) ?_
    · by_cases ht : t ∈ ios
      · by_cases he : t' = t
        · subst he
          simp [ht]
        · simp [ht, Ir.tensor_modifyTensor, he, Ne.symm he]
      · by_cases he : t' = t
        · subst he
          simp [ht]
        · simp [ht, Ne.symm he]
    · simp only
      split <;> rfl
    · simp only
      split <;> rfl

theorem tensor_reconnectInputs (ios : List TensorId) (g : Ir) (o : OpId) (t : TensorId) :
    (reconnectInputs ios g o).tensor t = { g.tensor t with users := (g.tensor t).users ++
      if t ∈ ios then ((g.op o).inputs.zipIdx.filter fun p => p.1 = t).map fun p => (o, p.2)
      else [] } := by
  rw [reconnectInputs, foldl_pushUse]

@[simp] theorem op_reconnectInputs (ios : List TensorId) (g : Ir) (o : OpId) :
    (reconnectInputs ios g o).op = g.op := by
  rw [reconnectInputs, foldl_pushUse]

theorem foldl_setDefiningOp (ios : List TensorId) (o : OpId) (l : List (TensorId × Nat)) (g : Ir) :
    let g' := l.foldl (fun g (t, i) =>
      if t ∈ ios then g.modifyTensor t fun x => x.setDefiningOp o i else g) g
    g'.op = g.op ∧ g'.alloc = g.alloc ∧
      (∀ t, (t ∈ ios → ∀ p ∈ l, p.1 ≠ t) → g'.tensor t = g.tensor t) ∧
      ∀ t j, t ∈ ios → (t, j) ∈ l → (∀ p ∈ l, p.1 = t → p.2 = j) →
        g'.tensor t = (g.tensor t).setDefiningOp o j := by
  induction l using List.reverseRecOn with
  | nil => simp
  | append_singleton l p ih =>
    obtain ⟨t, i⟩ := p
    obtain ⟨hO, hA, hno, hyes⟩ := ih
    simp only [foldl_append, foldl_cons, foldl_nil]
    by_cases ht : t ∈ ios
    · simp only [ht, ↓reduceIte, Ir.op_modifyTensor, Ir.alloc_modifyTensor]
      refine ⟨hO, hA, fun t' h => ?_, fun t' j ht' hj huniq => ?_⟩
      · have hne : t' ≠ t := fun he => h (he ▸ ht) (t, i) (by simp) he.symm
        rw [Ir.tensor_modifyTensor_ne hne]
        exact hno t' fun hm p hp => h hm p (mem_append_left _ hp)
      · by_cases he : t' = t
        · subst he
          obtain rfl : i = j := huniq (t', i) (by simp) rfl
          rw [Ir.tensor_modifyTensor_self]
          by_cases hin : ∃ p ∈ l, p.1 = t'
          · obtain ⟨⟨t'', j⟩, hp, rfl⟩ := hin
            obtain rfl : j = i := huniq (t'', j) (mem_append_left _ hp) rfl
            rw [hyes t'' j ht hp fun p hp => huniq p (mem_append_left _ hp)]
            rfl
          · rw [hno t' fun _ p hp he => hin ⟨p, hp, he⟩]
        · rw [Ir.tensor_modifyTensor_ne he]
          have hj : (t', j) ∈ l := (mem_append.mp hj).resolve_right (by simp [he])
          exact hyes t' j ht' hj fun p hp => huniq p (mem_append_left _ hp)
    · simp only [ht, ↓reduceIte]
      refine ⟨hO, hA, fun t' h => ?_, fun t' j ht' hj huniq => ?_⟩
      · exact hno t' fun hm p hp => h hm p (mem_append_left _ hp)
      · have hne : t' ≠ t := fun he => ht (he ▸ ht')
        have hj : (t', j) ∈ l := (mem_append.mp hj).resolve_right (by simp [hne])
        exact hyes t' j ht' hj fun p hp => huniq p (mem_append_left _ hp)

section
variable {sub : Subgraph} {g : Ir} {o : OpId} {t : TensorId}

@[simp] theorem op_reconnect : (reconnect sub g o).op = g.op := by
  rw [reconnect, reconnectOutputs, (foldl_setDefiningOp _ _ _ _).1, op_reconnectInputs]

/-- Reconnecting an op adds one record for each operand from the builder inputs. -/
theorem count_users_reconnect (o' : OpId) (i : Nat) :
    ((reconnect sub g o).tensor t).users.count (o', i) = (g.tensor t).users.count (o', i) +
      if o' = o ∧ t ∈ sub.inputs ∧ (g.op o).inputs[i]? = some t then 1 else 0 := by
  have husers : ((reconnect sub g o).tensor t).users =
      ((reconnectInputs sub.inputs g o).tensor t).users := by
    rw [reconnect, reconnectOutputs]
    generalize ((reconnectInputs sub.inputs g o).op o).outputs.zipIdx = l
    generalize reconnectInputs sub.inputs g o = h
    induction l generalizing h with
    | nil => rfl
    | cons p l ih =>
      rw [foldl_cons, ih]
      by_cases hp : p.1 ∈ sub.outputs
      · simp only [hp, ↓reduceIte, Ir.tensor_modifyTensor]
        split <;> rfl
      · simp only [hp, ↓reduceIte]
  rw [husers, tensor_reconnectInputs, count_append]
  congr 1
  by_cases ht : t ∈ sub.inputs
  · rw [if_pos ht, count_zipIdx_filter]
    simp [ht]
  · simp [ht]

/-- Reconnecting an op leaves the definition of other tensors alone. -/
theorem def_reconnect_of_not_mem (h : t ∈ sub.outputs → t ∉ (g.op o).outputs) :
    ((reconnect sub g o).tensor t).definingOp = (g.tensor t).definingOp ∧
      ((reconnect sub g o).tensor t).definingOpOutInd = (g.tensor t).definingOpOutInd := by
  rw [reconnect, reconnectOutputs, (foldl_setDefiningOp _ _ _ _).2.2.1 t, tensor_reconnectInputs]
  · exact ⟨rfl, rfl⟩
  · intro hm p hp he
    rw [op_reconnectInputs] at hp
    exact h hm (he ▸ fst_mem_of_mem_zipIdx hp)

theorem def_reconnect_of_mem {j : Nat} (ht : t ∈ sub.outputs) (hj : (g.op o).outputs[j]? = some t)
    (huniq : ∀ j', (g.op o).outputs[j']? = some t → j' = j) :
    ((reconnect sub g o).tensor t).definingOp = some o ∧
      ((reconnect sub g o).tensor t).definingOpOutInd = j := by
  rw [reconnect, reconnectOutputs, (foldl_setDefiningOp _ _ _ _).2.2.2 t j ht]
  · exact ⟨rfl, rfl⟩
  · rw [op_reconnectInputs]
    exact mk_mem_zipIdx_iff_getElem?.mpr hj
  · rintro ⟨t', j'⟩ hp rfl
    rw [op_reconnectInputs] at hp
    exact huniq j' (mk_mem_zipIdx_iff_getElem?.mp hp)

variable {ops : List OpId}

@[simp] theorem op_foldl_reconnect : (ops.foldl (reconnect sub) g).op = g.op := by
  induction ops generalizing g with
  | nil => rfl
  | cons o ops ih => rw [foldl_cons, ih, op_reconnect]

theorem count_users_foldl_reconnect (hnd : ops.Nodup) (o : OpId) (i : Nat) :
    ((ops.foldl (reconnect sub) g).tensor t).users.count (o, i) = (g.tensor t).users.count (o, i) +
        if o ∈ ops ∧ t ∈ sub.inputs ∧ (g.op o).inputs[i]? = some t then 1 else 0 := by
  induction ops generalizing g with
  | nil => simp
  | cons o' ops ih =>
    obtain ⟨hnew, hnd⟩ := nodup_cons.mp hnd
    rw [foldl_cons, ih hnd, count_users_reconnect, op_reconnect]
    by_cases ho : o = o'
    · subst ho
      simp [hnew]
    · simp [ho]

theorem def_foldl_reconnect_of_not_mem (h : t ∈ sub.outputs → ∀ o ∈ ops, t ∉ (g.op o).outputs) :
    ((ops.foldl (reconnect sub) g).tensor t).definingOp = (g.tensor t).definingOp ∧
      ((ops.foldl (reconnect sub) g).tensor t).definingOpOutInd =
        (g.tensor t).definingOpOutInd := by
  induction ops generalizing g with
  | nil => exact ⟨rfl, rfl⟩
  | cons o ops ih =>
    have hfirst := def_reconnect_of_not_mem (g := g) (o := o) fun hm => h hm o (by simp)
    rw [foldl_cons, ← hfirst.1, ← hfirst.2]
    refine ih fun hm o' ho' => ?_
    rw [op_reconnect]
    exact h hm o' (mem_cons_of_mem o ho')

/-- A tensor that one op lists once as a result is defined there. -/
theorem def_foldl_reconnect_of_mem {j : Nat} (hnd : ops.Nodup) (ht : t ∈ sub.outputs)
    (ho : o ∈ ops) (hj : (g.op o).outputs[j]? = some t)
    (huniq : ∀ o' ∈ ops, ∀ j', (g.op o').outputs[j']? = some t → o' = o ∧ j' = j) :
    ((ops.foldl (reconnect sub) g).tensor t).definingOp = some o ∧
      ((ops.foldl (reconnect sub) g).tensor t).definingOpOutInd = j := by
  induction ops generalizing g with
  | nil => simp at ho
  | cons o' ops ih =>
    obtain ⟨hnew, hnd⟩ := nodup_cons.mp hnd
    rw [foldl_cons]
    rcases mem_cons.mp ho with rfl | ho
    · have hfirst := def_reconnect_of_mem ht hj fun j' hj' => (huniq o (by simp) j' hj').2
      rw [← hfirst.1]
      have hnot : ∀ o' ∈ ops, t ∉ ((reconnect sub g o).op o').outputs := by
        intro o' ho' hm
        rw [op_reconnect] at hm
        obtain ⟨j', hj'⟩ := mem_iff_getElem?.mp hm
        exact hnew ((huniq o' (mem_cons_of_mem o ho') j' hj').1 ▸ ho')
      have hrest := def_foldl_reconnect_of_not_mem fun (_ : t ∈ sub.outputs) => hnot
      exact ⟨hrest.1, hrest.2.trans hfirst.2⟩
    · refine ih hnd ho (by rwa [op_reconnect]) fun o'' ho'' j' hj' => ?_
      rw [op_reconnect] at hj'
      exact huniq o'' (mem_cons_of_mem o' ho'') j' hj'

end

/-! ## Where the new ops go -/

theorem spliceIndex_eq (es ops : List OpId) : spliceIndex es ops = ops.findIdx (· ∈ es) := by
  have hinner (es' : List OpId) (k index : Nat) :
      es'.foldl (fun index e => if ops[k]? = some e then min index k else index) index =
        if ∃ e ∈ es', ops[k]? = some e then min index k else index := by
    induction es' generalizing index with
    | nil => simp
    | cons e es' ih =>
      rw [foldl_cons, ih]
      by_cases he : ops[k]? = some e
      · simp [he]
      · simp [he]
  set p := ops.findIdx (· ∈ es) with hp
  have hle : p ≤ ops.length := findIdx_le_length
  have hpre (k : Nat) (hk : k ≤ ops.length) :
      (List.range k).foldl (fun index originalOpIndex =>
        es.foldl (fun index opToErase =>
          if ops[originalOpIndex]? = some opToErase then min index originalOpIndex else index)
          index) ops.length = if p < k then p else ops.length := by
    induction k with
    | zero => simp
    | succ k ih =>
      have hlt : k < ops.length := hk
      rw [range_succ, foldl_append, foldl_cons, foldl_nil,
        ih (Nat.le_of_lt hlt), hinner, getElem?_eq_getElem hlt]
      simp only [Option.some.injEq, exists_eq_right']
      rcases Nat.lt_trichotomy p k with h | h | h
      · rw [if_pos h, if_pos (show p < k + 1 by omega)]
        split <;> omega
      · -- the scan stands at the first erased op
        have hat : ops[k] ∈ es := by
          have := findIdx_getElem (p := fun o => decide (o ∈ es)) (w := hp ▸ h ▸ hlt)
          simpa only [← hp, h, decide_eq_true_eq] using this
        rw [if_pos hat, if_neg (show ¬ p < k by omega), if_pos (show p < k + 1 by omega)]
        omega
      · have hnot : ops[k] ∉ es := by
          have := not_of_lt_findIdx (hp ▸ h)
          simpa using this
        rw [if_neg hnot, if_neg (show ¬ p < k by omega), if_neg (show ¬ p < k + 1 by omega)]
  rw [spliceIndex, hpre ops.length (Nat.le_refl _)]
  split <;> omega

end LiteRt.Model
