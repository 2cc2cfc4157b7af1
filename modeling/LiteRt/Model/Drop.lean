import LiteRt.Model.WellFormed

/-!
# Disconnecting an operand

`DisconnectInput` renumbers the later records of the op in a loop over the
later operands, and every round renumbers all records of that operand's tensor.
A tensor at one later position is renumbered once; one at several positions is
renumbered several times. So the graph stays well-formed exactly when the
later operands are distinct.
-/

namespace LiteRt.Model

open LiteRt.Lib List

variable {o : OpId} {g : Ir} {n : Nat}

theorem slideUse_eq_iff {o ou : OpId} {ind i a : Nat} :
    slideUse o ind (ou, a) = (o, i) ↔
      ou = o ∧ if i < ind then a = i else a = i + 1 ∨ (i = ind ∧ a = i) := by
  unfold slideUse
  split <;> simp only [Prod.mk.injEq] <;> split <;> grind

/-- Sliding once moves the records past `ind` one position down. -/
theorem count_map_slideUse (users : List (OpId × Nat)) (o : OpId) (ind i : Nat) :
    (users.map (slideUse o ind)).count (o, i) =
      if i < ind then users.count (o, i)
      else users.count (o, i + 1) + if i = ind then users.count (o, i) else 0 := by
  induction users with
  | nil => simp
  | cons u users ih =>
    obtain ⟨ou, a⟩ := u
    rw [map_cons, count_cons, ih]
    simp only [count_cons, beq_iff_eq, slideUse_eq_iff, Prod.mk.injEq]
    grind

/-- Records of other ops do not slide. -/
theorem count_map_slideUse_iterate_ne (users : List (OpId × Nat)) {o o' : OpId} (ho : o' ≠ o)
    (ind i n : Nat) : (users.map (slideUse o ind)^[n]).count (o', i) = users.count (o', i) := by
  induction users with
  | nil => rfl
  | cons u users ih =>
    rw [map_cons, count_cons, count_cons, ih]
    by_cases hu : u.1 = o
    · have h1 : ¬ ((slideUse o ind)^[n] u == (o', i)) = true := by
        simp only [beq_iff_eq]
        intro h
        have := slideUse_iterate_fst o ind n u
        rw [h] at this
        exact ho (this.trans hu)
      have h2 : ¬ (u == (o', i)) = true := by
        simp only [beq_iff_eq]
        rintro rfl
        exact ho hu
      rw [if_neg h1, if_neg h2]
    · rw [slideUse_iterate_of_ne n hu]

theorem filter_map_slideUse_iterate (users : List (OpId × Nat)) (o : OpId) (ind n : Nat) :
    ((users.map (slideUse o ind)^[n]).filter fun u => u.1 ≠ o) = users.filter fun u => u.1 ≠ o := by
  induction users with
  | nil => rfl
  | cons u users ih =>
    rw [map_cons, filter_cons, filter_cons, ih, slideUse_iterate_fst]
    by_cases hu : u.1 = o
    · simp [hu]
    · rw [slideUse_iterate_of_ne n hu]

/-- The operand's own record does not slide, so the search's index still names it. -/
theorem getElem?_map_slideUse {users : List (OpId × Nat)} {ind u : Nat} (n : Nat)
    (hu : users[u]? = some (o, ind)) :
    (users.map (slideUse o ind)^[n])[u]? = some (o, ind) := by
  rw [getElem?_map, hu, Option.map_some, slideUse_iterate_of_le n (Nat.le_refl ind)]

section
variable {g g' : Ir} {o : OpId} {ind : Nat} {input : TensorId}

/-- On a well-formed graph the search for the use record succeeds. -/
theorem disconnectInput_isSome (h : g.WellFormed) (hi : (g.op o).inputs[ind]? = some input) :
    ∃ g', disconnectInput g o ind = some (g', input) := by
  obtain ⟨g', _, he, -⟩ := disconnectInput_spec hi (h.mem_users hi)
  exact ⟨g', he⟩

theorem disconnectInput_wellFormed (h : g.WellFormed)
    (hg : disconnectInput g o ind = some (g', input))
    (hi : (g.op o).inputs[ind]? = some input)
    (hnd : ((g.op o).inputs.drop (ind + 1)).Nodup) : g'.WellFormed := by
  obtain ⟨g'', u, he, hu, -, hT, hO⟩ := disconnectInput_spec hi (h.mem_users hi)
  obtain rfl : g'' = g' := by rw [he] at hg; exact (Prod.mk.inj (Option.some.inj hg)).1
  have hout (o' : OpId) : (g''.op o').outputs = (g.op o').outputs := by
    rw [hO]
    split
    · next ho => rw [ho]
    · rfl
  refine .of_counts (fun t o' i => ?_) (fun o' j t hj => ?_) fun t o' hd => ?_
  · have hc := h.uses_count t
    set n := ((g.op o).inputs.drop (ind + 1)).count t with hn
    have hslid : ∀ i, ((g.tensor t).users.map (slideUse o ind)^[n]).count (o', i) =
        (g''.tensor t).users.count (o', i) +
          if t = input ∧ (o, ind) = (o', i) then 1 else 0 := by
      intro i
      rw [hT]
      by_cases ht : t = input
      · subst ht
        rw [count_eraseIdx_of_getElem? (getElem?_map_slideUse n hu)]
        simp [hn]
      · simp [ht, hn]
    by_cases ho : o' = o
    · subst ho
      have hin : (g''.op o').inputs = (g.op o').inputs.eraseIdx ind := by rw [hO, if_pos rfl]
      have hs := hslid i
      rw [hin, getElem?_eraseIdx]
      -- distinct later operands: the records of `t` slide at most once
      have hn1 : n = 0 ∨ n = 1 := by have := nodup_iff_count_le_one.mp hnd t; omega
      rcases hn1 with h0 | h1
      · have hno : ∀ k, ind < k → (g.op o').inputs[k]? ≠ some t := by
          intro k hk he
          have : t ∈ (g.op o').inputs.drop (ind + 1) := by
            refine mem_iff_getElem?.mpr ⟨k - (ind + 1), ?_⟩
            rw [getElem?_drop, show ind + 1 + (k - (ind + 1)) = k by omega, he]
          rw [h0, eq_comm, count_eq_zero] at hn
          exact hn this
        rw [h0, Function.iterate_zero, map_id, hc] at hs
        by_cases hlt : i < ind
        · rw [if_pos hlt]
          simp only [Prod.mk.injEq, Nat.ne_of_gt hlt, and_false, ↓reduceIte, Nat.add_zero] at hs
          exact hs.symm
        · rw [if_neg hlt, if_neg (hno (i + 1) (by omega))]
          by_cases hie : i = ind
          · subst hie
            by_cases ht : t = input
            · subst ht
              simp only [hi, ↓reduceIte, and_self] at hs
              omega
            · simp only [hi, Option.some.injEq, Ne.symm ht, ↓reduceIte, ht, false_and,
                Nat.add_zero] at hs
              exact hs.symm
          · rw [if_neg (hno i (by omega))] at hs
            omega
      · rw [h1, Function.iterate_one, count_map_slideUse] at hs
        simp only [hc] at hs
        by_cases hlt : i < ind
        · simp only [hlt, ↓reduceIte, Prod.mk.injEq, Nat.ne_of_gt hlt, and_false,
            Nat.add_zero] at hs
          rw [if_pos hlt]
          exact hs.symm
        · simp only [hlt, ↓reduceIte] at hs
          rw [if_neg hlt]
          by_cases hie : i = ind
          · subst hie
            by_cases ht : t = input
            · subst ht
              simp only [hi, ↓reduceIte, and_self] at hs
              omega
            · simp only [hi, ↓reduceIte, Option.some.injEq, Ne.symm ht, Nat.add_zero, ht,
                false_and] at hs
              exact hs.symm
          · simp only [hie, ↓reduceIte, Prod.mk.injEq, Ne.symm hie, and_false, Nat.add_zero] at hs
            exact hs.symm
    · have hs := hslid i
      rw [count_map_slideUse_iterate_ne _ ho] at hs
      simp only [Prod.mk.injEq, Ne.symm ho, false_and, and_false, ↓reduceIte, Nat.add_zero] at hs
      rw [← hs, hc, hO, if_neg ho]
  · rw [hout] at hj
    rw [hT]
    exact h.def_sound o' j t hj
  · rw [hT] at hd ⊢
    rw [hout]
    exact h.def_complete t o' hd

/-- A tensor at two later positions ends with a record that names no operand. -/
theorem not_wellFormed_disconnectInput (h : g.WellFormed)
    (hg : disconnectInput g o ind = some (g', input))
    (hi : (g.op o).inputs[ind]? = some input)
    (hnd : ¬ ((g.op o).inputs.drop (ind + 1)).Nodup) : ¬ g'.WellFormed := by
  intro h'
  obtain ⟨g'', u, he, hu, -, hT, hO⟩ := disconnectInput_spec hi (h.mem_users hi)
  obtain rfl : g'' = g' := by rw [he] at hg; exact (Prod.mk.inj (Option.some.inj hg)).1
  obtain ⟨t, j, hn, hj, htj, hlast⟩ := exists_last_of_not_nodup hnd
  rw [getElem?_drop] at htj
  -- the last of the operands that are `t` now stands at `ind + j`, its record below that
  have hpos : (g''.op o).inputs[ind + j]? = some t := by
    rw [hO, if_pos rfl, getElem?_eraseIdx, if_neg (by omega), ← htj]
    congr 1
    omega
  have hmem := h'.mem_users hpos
  rw [hT] at hmem
  have hmem : (o, ind + j) ∈ (g.tensor t).users.map
      (slideUse o ind)^[((g.op o).inputs.drop (ind + 1)).count t] := by
    by_cases ht : t = input
    · simp only [ht, ↓reduceIte] at hmem ⊢
      exact mem_of_mem_eraseIdx hmem
    · simpa only [ht, ↓reduceIte] using hmem
  obtain ⟨⟨o', a⟩, ha, he⟩ := mem_map.mp hmem
  obtain rfl : o = o' := by
    have := congrArg Prod.fst he
    rwa [slideUse_iterate_fst, eq_comm] at this
  by_cases hle : a ≤ ind
  · rw [slideUse_iterate_of_le _ hle] at he
    simp only [Prod.mk.injEq, true_and] at he
    omega
  · rw [slideUse_iterate_of_lt _ (by omega)] at he
    simp only [Prod.mk.injEq, true_and] at he
    have := hlast (a - (ind + 1)) (by
      rw [getElem?_drop, show ind + 1 + (a - (ind + 1)) = a by omega]
      exact h.use_sound t o a ha)
    omega

theorem disconnectInput_wellFormed_iff (h : g.WellFormed)
    (hg : disconnectInput g o ind = some (g', input))
    (hi : (g.op o).inputs[ind]? = some input) :
    g'.WellFormed ↔ ((g.op o).inputs.drop (ind + 1)).Nodup :=
  ⟨fun h' => by_contra fun hnd => not_wellFormed_disconnectInput h hg hi hnd h',
    disconnectInput_wellFormed h hg hi⟩

end

/-!
## Dropping an op

`Drop` takes the operands off from the front. With a tensor at several operand
positions the intermediate graphs are not well-formed: its records slide too
far. They never slide below the front, so the front operand always finds a
record (`DropInv`), and no record of the op is left at the end: `drop` removes
exactly the edges of its op (`drop_eq`).
-/

/-- The graph without the edges of `o`. -/
def Ir.eraseEdges (g : Ir) (o : OpId) : Ir where
  tensor t :=
    let x := { g.tensor t with users := (g.tensor t).users.filter fun u => u.1 ≠ o }
    if (g.tensor t).definingOp = some o then x.clearDefiningOp else x
  op o' := if o' = o then { g.op o with inputs := [], outputs := [] } else g.op o'
  alloc := g.alloc

/-- The invariant of the first loop of `Drop`, from the graph `g₀`: only the
operands of `o` and its records change, a tensor has a record of `o` for each
remaining operand it is, and at least as many of them below any bound. -/
structure DropInv (g₀ : Ir) (o : OpId) (g : Ir) : Prop where
  alloc : g.alloc = g₀.alloc
  op_ne : ∀ o', o' ≠ o → g.op o' = g₀.op o'
  op_self : g.op o = { g₀.op o with inputs := (g.op o).inputs }
  tensor : ∀ t, g.tensor t = { g₀.tensor t with users := (g.tensor t).users }
  others : ∀ t, ((g.tensor t).users.filter fun u => u.1 ≠ o) =
    (g₀.tensor t).users.filter fun u => u.1 ≠ o
  below : ∀ t k, ((g.op o).inputs.take k).count t ≤
    (g.tensor t).users.countP fun u => u.1 = o ∧ u.2 < k
  total : ∀ t, ((g.tensor t).users.countP fun u => u.1 = o) = (g.op o).inputs.count t

/-- At a well-formed op the records below a bound are the operands below it. -/
theorem Ir.WellFormedAt.countP_lt (h : g.WellFormedAt o) (t : TensorId) (k : Nat) :
    ((g.tensor t).users.countP fun u => u.1 = o ∧ u.2 < k) = ((g.op o).inputs.take k).count t := by
  induction k with
  | zero => simp
  | succ k ih =>
    have hsplit : ((g.tensor t).users.countP fun u => u.1 = o ∧ u.2 < k + 1) =
        ((g.tensor t).users.countP fun u => u.1 = o ∧ u.2 < k) +
          (g.tensor t).users.count (o, k) := by
      induction (g.tensor t).users with
      | nil => rfl
      | cons u us ihu =>
        obtain ⟨ou, a⟩ := u
        simp only [countP_cons, count_cons, ihu, decide_eq_true_eq, beq_iff_eq, Prod.mk.injEq]
        grind
    rw [hsplit, ih, h.uses_count, take_add_one]
    cases he : (g.op o).inputs[k]? with
    | none => simp
    | some t' => simp [count_singleton]

theorem DropInv.init (h : g.WellFormedAt o) : DropInv g o g where
  alloc := rfl
  op_ne _ _ := rfl
  op_self := rfl
  tensor _ := rfl
  others _ := rfl
  below t k := Nat.le_of_eq (h.countP_lt t k).symm
  total t := by
    rw [← take_length (l := (g.op o).inputs), ← h.countP_lt]
    refine countP_congr fun u hu => ?_
    have hlt : u.1 = o → u.2 < (g.op o).inputs.length := by
      rintro rfl
      exact (List.getElem?_eq_some_iff.mp (h.use_sound hu)).1
    simpa using hlt

/-- One round of the first loop. -/
theorem DropInv.step {g₀ g : Ir} (h : DropInv g₀ o g) {input : TensorId} {rest : List TensorId}
    (hin : (g.op o).inputs = input :: rest) :
    ∃ g', disconnectInput g o 0 = some (g', input) ∧ DropInv g₀ o g' ∧ (g'.op o).inputs = rest := by
  have hmem : (o, 0) ∈ (g.tensor input).users := by
    have hb := h.below input 1
    simp only [hin, take_succ_cons, take_zero, count_singleton_self] at hb
    obtain ⟨⟨o', a⟩, hu, hp⟩ := countP_pos_iff.mp hb
    simp only [decide_eq_true_eq, Nat.lt_one_iff] at hp
    obtain ⟨rfl, rfl⟩ := hp
    exact hu
  obtain ⟨g', u, he, hu, ha, hT, hO⟩ := disconnectInput_spec (by simp [hin]) hmem
  simp only [hin, Nat.zero_add, drop_succ_cons, drop_zero] at hT hO
  have hin' : (g'.op o).inputs = rest := by rw [hO, if_pos rfl]; rfl
  refine ⟨g', he, ?_, hin'⟩
  -- what a property of the records loses when the record of the front goes
  have hcount (p : OpId × Nat → Bool) (t : TensorId) :
      ((g.tensor t).users.map (slideUse o 0)^[rest.count t]).countP p =
        (g'.tensor t).users.countP p + if t = input ∧ p (o, 0) then 1 else 0 := by
    rw [hT]
    by_cases ht : t = input
    · subst ht
      rw [countP_eraseIdx_of_getElem? p (getElem?_map_slideUse _ hu)]
      simp
    · simp [ht]
  refine ⟨ha.trans h.alloc, fun o' ho => ?_, ?_, fun t => ?_, fun t => ?_, fun t k => ?_,
    fun t => ?_⟩
  · rw [hO, if_neg ho, h.op_ne o' ho]
  · rw [hin', hO, if_pos rfl, h.op_self]
    rfl
  · rw [hT, h.tensor]
  · rw [← h.others t, ← filter_map_slideUse_iterate (g.tensor t).users o 0 (rest.count t), hT]
    by_cases ht : t = input
    · subst ht
      simp only [↓reduceIte]
      exact filter_eraseIdx_of_getElem? _ (getElem?_map_slideUse _ hu) (by simp)
    · rw [if_neg ht]
  · rw [hin']
    by_cases hk : t ∈ rest ∧ 0 < k
    · have hn : 0 < rest.count t := count_pos_iff.mpr hk.1
      have hb := h.below t (k + 1)
      rw [hin, take_succ_cons, count_cons] at hb
      -- a record below `k + 1` is below `k` after a slide
      have hmono : ((g.tensor t).users.countP fun u => u.1 = o ∧ u.2 < k + 1) ≤
          ((g.tensor t).users.map (slideUse o 0)^[rest.count t]).countP
            fun u => u.1 = o ∧ u.2 < k := by
        rw [countP_map]
        refine countP_mono_left fun v _ hv => ?_
        obtain ⟨ov, a⟩ := v
        simp only [decide_eq_true_eq, Function.comp_apply] at hv ⊢
        obtain ⟨rfl, hlt⟩ := hv
        rcases Nat.eq_zero_or_pos a with rfl | ha
        · rw [slideUse_iterate_of_le _ (Nat.le_refl 0)]
          exact ⟨rfl, hk.2⟩
        · rw [slideUse_iterate_of_lt _ ha]
          exact ⟨rfl, by simp only; omega⟩
      have hc := hcount (fun u => u.1 = o ∧ u.2 < k) t
      simp only [hk.2, and_self, decide_true, and_true] at hc
      simp only [beq_iff_eq, eq_comm (a := input)] at hb
      omega
    · have h0 : (rest.take k).count t = 0 := by
        rcases Nat.eq_zero_or_pos k with rfl | hpos
        · simp
        · exact count_eq_zero.mpr fun hm => hk ⟨mem_of_mem_take hm, hpos⟩
      omega
  · have hc := hcount (fun u => u.1 = o) t
    have ht := h.total t
    rw [hin, count_cons] at ht
    rw [countP_map] at hc
    simp only [Function.comp_def, slideUse_iterate_fst, decide_true, and_true] at hc
    rw [hin']
    simp only [beq_iff_eq, eq_comm (a := input)] at ht
    omega

/-- The first loop of `Drop` runs through, to a graph without operands of `o`. -/
theorem dropInputs_spec {g₀ : Ir} (h : DropInv g₀ o g) (hn : (g.op o).inputs.length = n) :
    ∃ g', dropInputs o n g = some g' ∧ DropInv g₀ o g' ∧ (g'.op o).inputs = [] := by
  induction n generalizing g with
  | zero => exact ⟨g, rfl, h, length_eq_zero_iff.mp hn⟩
  | succ n ih =>
    cases hin : (g.op o).inputs with
    | nil => simp [hin] at hn
    | cons input rest =>
      obtain ⟨g₁, he, h₁, hin₁⟩ := h.step hin
      obtain ⟨g', hg', h', hin'⟩ := ih h₁ (by rw [hin₁]; simpa [hin] using hn)
      refine ⟨g', ?_, h', hin'⟩
      rw [dropInputs, if_neg (by simp [hin]), he]
      exact hg'

/-- The second loop of `Drop` clears the definition of every result. -/
theorem dropOutputs_spec (hn : (g.op o).outputs.length = n) :
    ∃ g', dropOutputs o n g = some g' ∧ g'.alloc = g.alloc ∧ (∀ t, g'.tensor t =
        if t ∈ (g.op o).outputs then (g.tensor t).clearDefiningOp else g.tensor t) ∧
      ∀ o', g'.op o' = if o' = o then { g.op o with outputs := [] } else g.op o' := by
  induction n generalizing g with
  | zero =>
    have hnil := length_eq_zero_iff.mp hn
    refine ⟨g, rfl, rfl, fun t => by simp [hnil], fun o' => ?_⟩
    split
    · next ho => rw [ho, ← hnil]
    · rfl
  | succ n ih =>
    cases hout : (g.op o).outputs with
    | nil => simp [hout] at hn
    | cons output rest =>
      have hfirst : (g.op o).outputs[0]? = some output := by simp [hout]
      obtain ⟨g₁, he, ha, hT, hO⟩ := disconnectOutput_spec hfirst
      have hout₁ : (g₁.op o).outputs = rest := by rw [hO, if_pos rfl, hout]; rfl
      obtain ⟨g', hg', ha', hT', hO'⟩ := ih (g := g₁) (by rw [hout₁]; simpa [hout] using hn)
      refine ⟨g', ?_, ha'.trans ha, fun t => ?_, fun o' => ?_⟩
      · rw [dropOutputs, if_neg (by simp [hout]), he]
        exact hg'
      · simp only [hT', hout₁, hT, mem_cons]
        by_cases h1 : t = output <;> by_cases h2 : t ∈ rest <;>
          simp [h1, h2, Tensor.clearDefiningOp]
      · rw [hO']
        simp only [hO, ↓reduceIte]
        split <;> rfl

/-- **`Drop` removes exactly the edges of its op**, and none of its `ABSL_DCHECK`s fails. -/
theorem drop_eq (h : g.WellFormedAt o) :
    drop g o = some (g.eraseEdges o) := by
  obtain ⟨g₁, he₁, h₁, hin₁⟩ := dropInputs_spec (DropInv.init h) rfl
  obtain ⟨g₂, he₂, ha, hT, hO⟩ := dropOutputs_spec (g := g₁) (o := o) rfl
  have hout : (g₁.op o).outputs = (g.op o).outputs := by rw [h₁.op_self]
  rw [drop, he₁, Option.bind_some, he₂]
  congr 1
  refine Ir.ext' (fun t => ?_) (fun o' => ?_) (ha.trans h₁.alloc)
  · have husers : (g₁.tensor t).users = (g.tensor t).users.filter fun u => u.1 ≠ o := by
      rw [← h₁.others, eq_comm, filter_eq_self]
      intro u hu
      have := h₁.total t
      rw [hin₁, count_nil, countP_eq_zero] at this
      simpa using this u hu
    have hmem : t ∈ (g₁.op o).outputs ↔ (g.tensor t).definingOp = some o := by
      rw [hout, h.mem_outputs_iff]
    rw [hT, h₁.tensor, husers]
    simp only [Ir.eraseEdges, hmem]
  · rw [hO]
    simp only [Ir.eraseEdges]
    split
    · rw [h₁.op_self, hin₁]
    · next ho => exact h₁.op_ne o' ho

section
variable {g : Ir} {o o' : OpId} {t : TensorId}

@[simp] theorem users_eraseEdges : ((g.eraseEdges o).tensor t).users =
    (g.tensor t).users.filter fun u => u.1 ≠ o := by
  simp only [Ir.eraseEdges]
  split <;> rfl

theorem op_eraseEdges_ne (h : o' ≠ o) : (g.eraseEdges o).op o' = g.op o' := if_neg h

@[simp] theorem inputs_eraseEdges_self : ((g.eraseEdges o).op o).inputs = [] := by
  simp [Ir.eraseEdges]

@[simp] theorem outputs_eraseEdges_self : ((g.eraseEdges o).op o).outputs = [] := by
  simp [Ir.eraseEdges]

theorem definingOp_eraseEdges : ((g.eraseEdges o).tensor t).definingOp =
    if (g.tensor t).definingOp = some o then none else (g.tensor t).definingOp := by
  simp only [Ir.eraseEdges]
  split <;> rfl

theorem Ir.WellFormedAt.eraseEdges (h : g.WellFormedAt o') (o : OpId) :
    (g.eraseEdges o).WellFormedAt o' := by
  by_cases ho : o' = o
  · subst ho
    refine ⟨fun t i => ?_, fun j t hj => ?_, fun t hd => ?_⟩
    · rw [users_eraseEdges, count_eq_zero.mpr (by simp)]
      simp
    · simp at hj
    · rw [definingOp_eraseEdges] at hd
      split at hd
      · cases hd
      · next hne => exact absurd hd hne
  · have hop := op_eraseEdges_ne (g := g) ho
    refine ⟨fun t i => ?_, fun j t hj => ?_, fun t hd => ?_⟩
    · rw [users_eraseEdges, count_filter (by simpa using ho), h.uses_count, hop]
    · rw [hop] at hj
      obtain ⟨hd, hi⟩ := h.def_sound j t hj
      have hne : ¬ (g.tensor t).definingOp = some o := by simpa [hd] using ho
      simp only [Ir.eraseEdges, hne, ↓reduceIte]
      exact ⟨hd, hi⟩
    · by_cases hdo : (g.tensor t).definingOp = some o
      · simp [Ir.eraseEdges, hdo, Tensor.clearDefiningOp] at hd
      · rw [hop]
        simp only [Ir.eraseEdges, hdo, ↓reduceIte] at hd ⊢
        exact h.def_complete t hd

end

theorem Ir.WellFormed.eraseEdges (h : g.WellFormed) (o : OpId) :
    (g.eraseEdges o).WellFormed :=
  Ir.wellFormed_iff_forall.mpr fun o' => (h.at o').eraseEdges o

end LiteRt.Model
