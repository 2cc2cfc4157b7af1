import LiteRt.Plugin.Inline

/-!
# The edge loops of inlining

Restoring the edges of the clones, moving uses from one tensor to another, and
clearing tensors. The two loops that reconnect the main subgraph are both runs of
`moveUse` over a list of moves fixed beforehand.
-/

namespace LiteRt.Plugin

open LiteRt.Lib LiteRt.Model List

/-- A fold whose steps all find what they look up. -/
theorem foldlM_find? {K V σ : Type*} [DecidableEq K] {m : InsertOrderMap K V} {f : K → V}
    {l : List K} (h : ∀ k ∈ l, m.find? k = some (f k)) (step : σ → V → σ) (s : σ) :
    l.foldlM (fun s k => (m.find? k).map (step s)) s = some ((l.map f).foldl step s) := by
  induction l generalizing s with
  | nil => rfl
  | cons k l ih =>
    rw [foldlM_cons, h k (by simp), Option.map_some, Option.bind_eq_bind, Option.bind_some,
      ih fun k' hk' => h k' (mem_cons_of_mem k hk')]
    rfl

theorem foldlM_congr {α σ : Type*} {l : List α} {f f' : σ → α → Option σ}
    (h : ∀ a ∈ l, ∀ s, f s a = f' s a) (s : σ) : l.foldlM f s = l.foldlM f' s := by
  induction l generalizing s with
  | nil => rfl
  | cons a l ih =>
    rw [foldlM_cons, foldlM_cons, h a (by simp)]
    exact Option.bind_congr fun s' _ => ih (fun b hb => h b (mem_cons_of_mem a hb)) s'

/-! ## Restoring -/

theorem foldl_pushOutput (ts : List TensorId) (o : OpId) (g : Ir) :
    ts.foldl (fun h c => pushOutput h c o) g =
      g.modifyOp o fun op => { op with outputs := op.outputs ++ ts } := by
  induction ts generalizing g with
  | nil =>
    refine Ir.ext' (fun _ => rfl) (fun o' => ?_) rfl
    rw [foldl_nil, Ir.op_modifyOp, append_nil]
    split <;> rfl
  | cons t ts ih =>
    rw [foldl_cons, ih]
    refine Ir.ext' (fun _ => rfl) (fun o' => ?_) rfl
    simp only [pushOutput, Ir.op_modifyOp]
    split
    · simp
    · rfl

section
variable {opMap : OpMap} {tensorMap : TensorMap} {g : Ir} {d co : OpId} {ct : TensorId → TensorId}

theorem restoreOp_spec (ho : opMap.find? d = some co)
    (hin : ∀ t ∈ (g.op d).inputs, tensorMap.find? t = some (ct t))
    (hout : ∀ t ∈ (g.op d).outputs, tensorMap.find? t = some (ct t))
    (hempty : (g.op co).inputs = [] ∧ (g.op co).outputs = []) :
    ∃ g', restoreOp opMap tensorMap g d = some g' ∧ g'.alloc = g.alloc ∧
      (∀ t, g'.tensor t = { g.tensor t with users := (g.tensor t).users ++
        (((((g.op d).inputs.map ct).zipIdx).filter fun p => p.1 = t).map fun p => (co, p.2)) }) ∧
      ∀ o, g'.op o = if o = co then
        { g.op o with inputs := (g.op d).inputs.map ct, outputs := (g.op d).outputs.map ct }
        else g.op o := by
  have he : restoreOp opMap tensorMap g d =
      some ((((g.op d).inputs.map ct).foldl (fun h c => attachInput h c co) g).modifyOp co
        fun op => { op with outputs := op.outputs ++ (g.op d).outputs.map ct }) := by
    rw [restoreOp, ho]
    simp only [Option.bind_eq_bind, Option.bind_some]
    rw [foldlM_find? hin (fun h c => attachInput h c co) g, Option.bind_some,
      foldlM_find? hout (fun h c => pushOutput h c co), foldl_pushOutput]
  rw [foldl_attachInput] at he
  refine ⟨_, he, rfl, fun t => ?_, fun o => ?_⟩
  · simp [hempty.1]
  · rw [Ir.op_modifyOp]
    by_cases h : o = co
    · subst h
      simp [hempty.1, hempty.2]
    · simp [h]

/-- The third loop. -/
theorem restoreOps_spec {co : OpId → OpId} {ds : List OpId} (hnd : ds.Nodup)
    (ho : ∀ d ∈ ds, opMap.find? d = some (co d))
    (hin : ∀ d ∈ ds, ∀ t ∈ (g.op d).inputs, tensorMap.find? t = some (ct t))
    (hout : ∀ d ∈ ds, ∀ t ∈ (g.op d).outputs, tensorMap.find? t = some (ct t))
    (hempty : ∀ d ∈ ds, (g.op (co d)).inputs = [] ∧ (g.op (co d)).outputs = [])
    (hfresh : ∀ d ∈ ds, ∀ d' ∈ ds, d' ≠ co d)
    (hinj : ∀ d ∈ ds, ∀ d' ∈ ds, co d = co d' → d = d') :
    ∃ g', ds.foldlM (restoreOp opMap tensorMap) g = some g' ∧ g'.alloc = g.alloc ∧
      (∀ t, ∃ us, g'.tensor t = { g.tensor t with users := (g.tensor t).users ++ us } ∧
        (∀ u ∈ us, ∃ d ∈ ds, u.1 = co d) ∧
        ∀ d ∈ ds, ∀ i, us.count (co d, i) =
          if ((g.op d).inputs.map ct)[i]? = some t then 1 else 0) ∧
      (∀ o, (∀ d ∈ ds, o ≠ co d) → g'.op o = g.op o) ∧
      ∀ d ∈ ds, g'.op (co d) = { g.op (co d) with
        inputs := (g.op d).inputs.map ct, outputs := (g.op d).outputs.map ct } := by
  induction ds generalizing g with
  | nil => exact ⟨g, rfl, rfl, fun t => ⟨[], by simp⟩, fun _ _ => rfl, by simp⟩
  | cons d ds ih =>
    obtain ⟨hd, hnd⟩ := nodup_cons.mp hnd
    have hself : d ∈ d :: ds := by simp
    have hrest (d' : OpId) (h : d' ∈ ds) : d' ∈ d :: ds := mem_cons_of_mem d h
    obtain ⟨g₁, he₁, ha₁, hT₁, hO₁⟩ := restoreOp_spec (ho d hself) (hin d hself) (hout d hself)
      (hempty d hself)
    -- the originals and the later clones are not touched
    have hsame (d' : OpId) (h : d' ∈ ds) : g₁.op d' = g.op d' := by
      rw [hO₁, if_neg (hfresh d hself d' (hrest d' h))]
    have hlater (d' : OpId) (h : d' ∈ ds) : g₁.op (co d') = g.op (co d') := by
      rw [hO₁, if_neg]
      intro he
      exact hd (hinj d' (hrest d' h) d hself he ▸ h)
    obtain ⟨g', he, ha, hT, hO, hC⟩ := ih (g := g₁) hnd (fun d' h => ho d' (hrest d' h))
      (fun d' h => by rw [hsame d' h]; exact hin d' (hrest d' h))
      (fun d' h => by rw [hsame d' h]; exact hout d' (hrest d' h))
      (fun d' h => by rw [hlater d' h]; exact hempty d' (hrest d' h))
      (fun d' h d'' h' => hfresh d' (hrest d' h) d'' (hrest d'' h'))
      (fun d' h d'' h' => hinj d' (hrest d' h) d'' (hrest d'' h'))
    refine ⟨g', ?_, ha.trans ha₁, fun t => ?_, fun o h => ?_, fun d' h => ?_⟩
    · rw [foldlM_cons, he₁]
      exact he
    · obtain ⟨us, hus, hmem, hcount⟩ := hT t
      refine ⟨(((((g.op d).inputs.map ct).zipIdx).filter fun p => p.1 = t).map
        fun p => (co d, p.2)) ++ us, ?_, fun u hu => ?_, fun d' h i => ?_⟩
      · rw [hus, hT₁, append_assoc]
      · rcases mem_append.mp hu with hu | hu
        · obtain ⟨p, -, rfl⟩ := mem_map.mp hu
          exact ⟨d, hself, rfl⟩
        · obtain ⟨d', h, he⟩ := hmem u hu
          exact ⟨d', hrest d' h, he⟩
      · rw [count_append, count_zipIdx_filter]
        rcases mem_cons.mp h with rfl | h
        · have hzero : us.count (co d', i) = 0 := count_eq_zero.mpr fun hu => by
            obtain ⟨d'', h'', he⟩ := hmem _ hu
            exact hd (hinj d' hself d'' (hrest d'' h'') he ▸ h'')
          simp [hzero]
        · have hne : co d' ≠ co d := fun he => hd (hinj d' (hrest d' h) d hself he ▸ h)
          rw [if_neg fun h' => hne h'.1, hcount d' h, hsame d' h, Nat.zero_add]
    · rw [hO o fun d' h' => h d' (hrest d' h'), hO₁, if_neg (h d hself)]
    · rcases mem_cons.mp h with rfl | h
      · rw [hO (co d') fun d'' h'' he => hd (hinj d' hself d'' (hrest d'' h'') he ▸ h''), hO₁,
          if_pos rfl]
      · rw [hC d' h, hsame d' h, hlater d' h]

end

/-! ## Moving uses -/

/-- The tensor that becomes the operand, and the use. -/
abbrev Move := TensorId × (OpId × Nat)

def moves (f : List (OpId × Nat) → List (OpId × Nat)) (g : Ir) (ms : List Move) : Option Ir :=
  ms.foldlM (fun h m => moveUse f h m.1 m.2) g

section
variable {f : List (OpId × Nat) → List (OpId × Nat)} {g g' : Ir} {t : TensorId}
  {q : OpId × Nat → Prop} {ms : List Move}

theorem moves_append (g : Ir) (ms ms' : List Move) :
    moves f g (ms ++ ms') = (moves f g ms).bind fun h => moves f h ms' := foldlM_append ..

theorem moveUse_spec {u : OpId × Nat} (h : u.2 < (g.op u.1).inputs.length) :
    ∃ g', moveUse f g t u = some g' ∧ g'.alloc = g.alloc ∧ (∀ t', g'.tensor t' = if t' = t then
        { g.tensor t' with users := f (g.tensor t').users ++ [u] } else g.tensor t') ∧
      ∀ o, g'.op o = if o = u.1 then { g.op o with inputs := (g.op o).inputs.set u.2 t }
        else g.op o := by
  refine ⟨_, if_pos h, rfl, fun t' => ?_, fun o => rfl⟩
  rw [Ir.tensor_modifyTensor]
  rfl

/-- Passes over a tensor's records leave those appended by moves. -/
theorem iterate_append (hf : ∀ us l, (∀ u ∈ l, q u) → f (us ++ l) = f us ++ l) (n : Nat)
    (us : List (OpId × Nat)) {l : List (OpId × Nat)} (hl : ∀ u ∈ l, q u) :
    f^[n] (us ++ l) = f^[n] us ++ l := by
  induction n generalizing us with
  | zero => rfl
  | succ n ih => rw [Function.iterate_succ_apply, hf us l hl, ih, Function.iterate_succ_apply]

/-- What a list of moves of distinct uses changes. -/
theorem moves_spec (ms : List Move) (hf : ∀ us l, (∀ u ∈ l, q u) → f (us ++ l) = f us ++ l)
    (hq : ∀ m ∈ ms, q m.2) (hnd : (ms.map Prod.snd).Nodup)
    (hlt : ∀ m ∈ ms, m.2.2 < (g.op m.2.1).inputs.length) :
    ∃ g', moves f g ms = some g' ∧ g'.alloc = g.alloc ∧ (∀ t, g'.tensor t = { g.tensor t with
        users := f^[ms.countP fun m => m.1 = t] (g.tensor t).users ++
          (ms.filter fun m => m.1 = t).map Prod.snd }) ∧
      ∀ o, ∃ ins, g'.op o = { g.op o with inputs := ins } ∧ ins.length = (g.op o).inputs.length ∧
        (∀ m ∈ ms, m.2.1 = o → ins[m.2.2]? = some m.1) ∧
        ∀ i, (o, i) ∉ ms.map Prod.snd → ins[i]? = (g.op o).inputs[i]? := by
  induction ms generalizing g with
  | nil => exact ⟨g, rfl, rfl, fun t => by simp, fun o => ⟨_, rfl, rfl, by simp, fun _ _ => rfl⟩⟩
  | cons m ms ih =>
    rw [map_cons, nodup_cons] at hnd
    obtain ⟨g₁, he₁, ha₁, hT₁, hO₁⟩ := moveUse_spec (f := f) (t := m.1) (hlt m (by simp))
    have hlen (o : OpId) : (g₁.op o).inputs.length = (g.op o).inputs.length := by
      rw [hO₁]
      split <;> simp
    obtain ⟨g', he, ha, hT, hO⟩ := ih (g := g₁) (fun m' h => hq m' (mem_cons_of_mem m h)) hnd.2
      fun m' h => by rw [hlen]; exact hlt m' (mem_cons_of_mem m h)
    refine ⟨g', ?_, ha.trans ha₁, fun t => ?_, fun o => ?_⟩
    · rw [moves, foldlM_cons, he₁]
      exact he
    · rw [hT, hT₁]
      by_cases ht : t = m.1
      · subst ht
        simp only [↓reduceIte, countP_cons_of_pos (p := fun m' : Move => m'.1 = m.1)
          (l := ms) (a := m) (by simp), filter_cons_of_pos (p := fun m' : Move => m'.1 = m.1)
          (l := ms) (a := m) (by simp), map_cons, Function.iterate_succ_apply]
        rw [iterate_append hf _ _ (by simpa using hq m (by simp))]
        simp
      · rw [if_neg ht, countP_cons_of_neg (by simpa using Ne.symm ht),
          filter_cons_of_neg (by simpa using Ne.symm ht)]
    · obtain ⟨ins, hins, hl, hmem, hno⟩ := hO o
      refine ⟨ins, ?_, hl.trans (hlen o), fun m' h ho => ?_, fun i hi => ?_⟩
      · rw [hins, hO₁]
        split <;> rfl
      · rcases mem_cons.mp h with rfl | h
        · rw [hno m'.2.2 (by subst ho; exact hnd.1), hO₁, if_pos ho.symm]
          subst ho
          exact getElem?_set_self (hlt m' (by simp))
        · exact hmem m' h ho
      · rw [map_cons, mem_cons, not_or] at hi
        rw [hno i hi.2, hO₁]
        split
        · next ho =>
          subst ho
          rw [getElem?_set_ne]
          intro he
          exact hi.1 (by rw [← he])
        · rfl

/-- A use that moves, moves once. -/
theorem count_movedTo (hnd : (ms.map Prod.snd).Nodup) (t : TensorId) (u : OpId × Nat) :
    ((ms.filter fun m => m.1 = t).map Prod.snd).count u =
      if (t, u) ∈ ms then 1 else 0 := by
  have hsub : ((ms.filter fun m => m.1 = t).map Prod.snd).Nodup :=
    hnd.sublist (filter_sublist.map Prod.snd)
  have hmem : u ∈ (ms.filter fun m => m.1 = t).map Prod.snd ↔ (t, u) ∈ ms := by
    simp only [mem_map, mem_filter, decide_eq_true_eq]
    constructor
    · rintro ⟨m, ⟨hm, rfl⟩, rfl⟩
      exact hm
    · exact fun hm => ⟨(t, u), ⟨hm, rfl⟩, rfl⟩
  by_cases h : (t, u) ∈ ms
  · rw [if_pos h, count_eq_one_of_mem hsub (hmem.mpr h)]
  · rw [if_neg h, count_eq_zero.mpr fun hu => h (hmem.mp hu)]

/-- A tensor no use moves to keeps all its data. -/
theorem moves_frame (h : moves f g ms = some g') (ht : t ∉ ms.map Prod.fst) :
    g'.tensor t = g.tensor t := by
  induction ms generalizing g with
  | nil =>
    cases h
    rfl
  | cons m ms ih =>
    rw [map_cons, mem_cons, not_or] at ht
    rw [moves, foldlM_cons, Option.bind_eq_bind, Option.bind_eq_some_iff] at h
    obtain ⟨g₁, hm, h⟩ := h
    rw [ih h ht.2]
    unfold moveUse at hm
    split at hm
    · cases hm
      exact Ir.tensor_modifyTensor_ne ht.1
    · cases hm

end

/-! ## Clearing -/

/-- A tensor without edges. -/
def cleared (x : Tensor) : Tensor := { x.clearDefiningOp with users := [] }

theorem foldl_clearTensor (ts : List TensorId) (g : Ir) :
    ts.foldl clearTensor g =
      { g with tensor := fun t => if t ∈ ts then cleared (g.tensor t) else g.tensor t } := by
  induction ts generalizing g with
  | nil =>
    refine Ir.ext' (fun t => ?_) (fun _ => rfl) rfl
    simp
  | cons t ts ih =>
    rw [foldl_cons, ih]
    refine Ir.ext' (fun t' => ?_) (fun _ => rfl) rfl
    simp only [clearTensor, Ir.tensor_modifyTensor, mem_cons]
    by_cases h : t' = t
    · subst h
      by_cases h' : t' ∈ ts
      · simp [h', cleared, Tensor.clearDefiningOp]
      · simp [h', cleared]
    · simp [h]

/-! ## The reconnecting loops as moves -/

section
variable {opMap : OpMap} {tensorMap : TensorMap} {co : OpId → OpId} {ct : TensorId → TensorId}
  {us : TensorId → List (OpId × Nat)} {ps : List (TensorId × TensorId)}

/-- The moves of the fourth loop, `us` the records of the decomposition inputs. -/
def connectMoves (co : OpId → OpId) (us : TensorId → List (OpId × Nat))
    (ps : List (TensorId × TensorId)) : List Move :=
  ps.flatMap fun p => (us p.2).map fun u => (p.1, (co u.1, u.2))

theorem connectInputs_eq {dest : OpId}
    (ho : ∀ p ∈ ps, ∀ u ∈ us p.2, opMap.find? u.1 = some (co u.1))
    (hsep : ∀ p ∈ ps, ∀ p' ∈ ps, p.2 ≠ p'.1) {g : Ir}
    (hus : ∀ p ∈ ps, (g.tensor p.2).users = us p.2) :
    ps.foldlM (connectInput opMap dest) g =
      moves (skipErase fun v => v.1 = dest) g (connectMoves co us ps) := by
  induction ps generalizing g with
  | nil => rfl
  | cons p ps ih =>
    have hone : connectInput opMap dest g p = moves (skipErase fun v => v.1 = dest) g
        ((us p.2).map fun u => (p.1, (co u.1, u.2))) := by
      rw [connectInput, hus p (by simp), moves, foldlM_map]
      refine foldlM_congr (fun u hu h => ?_) g
      rw [ho p (by simp) u hu]
      rfl
    rw [foldlM_cons, hone, connectMoves, flatMap_cons, moves_append]
    refine Option.bind_congr fun g₁ hg₁ => ?_
    refine ih (fun p' h => ho p' (mem_cons_of_mem p h))
      (fun p' h p'' h' => hsep p' (mem_cons_of_mem p h) p'' (mem_cons_of_mem p h'))
      fun p' h => ?_
    rw [moves_frame hg₁, hus p' (mem_cons_of_mem p h)]
    intro hm
    simp only [map_map, mem_map, Function.comp_apply] at hm
    obtain ⟨u, -, he⟩ := hm
    exact hsep p' (mem_cons_of_mem p h) p (by simp) he.symm

/-- The moves of the sixth loop, `us` the records of the composite's results. -/
def rerouteMoves (ct : TensorId → TensorId) (us : TensorId → List (OpId × Nat))
    (ps : List (TensorId × TensorId)) : List Move :=
  ps.flatMap fun p => (us p.1).map fun u => (ct p.2, u)

/-- What the sixth loop makes of the outputs of the main subgraph. -/
def rerouteOutputList (ct : TensorId → TensorId) (ps : List (TensorId × TensorId))
    (outputs : List TensorId) : List TensorId :=
  ps.foldl (fun os p => os.map fun t => if t = p.1 then ct p.2 else t) outputs

theorem rerouteOutputs_eq (ht : ∀ p ∈ ps, tensorMap.find? p.2 = some (ct p.2))
    (hsep : ∀ p ∈ ps, ∀ p' ∈ ps, p.1 ≠ ct p'.2) {g : Ir}
    (hus : ∀ p ∈ ps, (g.tensor p.1).users = us p.1) (main : Subgraph) :
    ps.foldlM (rerouteOutput tensorMap) (g, main) =
      (moves id g (rerouteMoves ct us ps)).map fun g' =>
        (g', { main with outputs := rerouteOutputList ct ps main.outputs }) := by
  induction ps generalizing g main with
  | nil => rfl
  | cons p ps ih =>
    have hone : rerouteOutput tensorMap (g, main) p =
        (moves id g ((us p.1).map fun u => (ct p.2, u))).map fun g' =>
          (g', { main with outputs := main.outputs.map fun t => if t = p.1 then ct p.2 else t }) := by
      rw [rerouteOutput, ht p (by simp)]
      simp only [Option.bind_eq_bind, Option.bind_some, hus p (by simp), moves, foldlM_map,
        Option.map_eq_bind]
      rfl
    rw [foldlM_cons, hone, rerouteMoves, flatMap_cons, moves_append, Option.bind_eq_bind,
      Option.bind_map, Option.map_bind]
    refine Option.bind_congr fun g₁ hg₁ => ?_
    refine ih (fun p' h => ht p' (mem_cons_of_mem p h))
      (fun p' h p'' h' => hsep p' (mem_cons_of_mem p h) p'' (mem_cons_of_mem p h'))
      (fun p' h => ?_) _
    rw [moves_frame hg₁, hus p' (mem_cons_of_mem p h)]
    intro hm
    simp only [map_map, mem_map, Function.comp_apply] at hm
    obtain ⟨u, -, he⟩ := hm
    exact hsep p' (mem_cons_of_mem p h) p (by simp) he.symm

end

end LiteRt.Plugin
