import LiteRt.Plugin.SliceClone

/-!
# What outlining does

The clones of a whole partition, and the dispatch op in the root: its operands are
what the partition reads and neither defines nor finds constant, its results what
the partition defines and somebody else needs.
-/

namespace LiteRt.Plugin

open LiteRt.Lib LiteRt.Model List

variable {root : Subgraph} {d : OpId} {m : TensorMap}

/-- What the ops of `P` read. -/
def readBy (g : Ir) (P : List OpId) (t : TensorId) : Prop := ∃ o ∈ P, t ∈ (g.op o).inputs

/-- What the ops of `P` define. -/
def definedBy (g : Ir) (P : List OpId) (t : TensorId) : Prop := ∃ o ∈ P, t ∈ (g.op o).outputs

instance (g : Ir) (P : List OpId) (t : TensorId) : Decidable (readBy g P t) :=
  inferInstanceAs (Decidable (∃ o ∈ P, t ∈ (g.op o).inputs))

instance (g : Ir) (P : List OpId) (t : TensorId) : Decidable (definedBy g P t) :=
  inferInstanceAs (Decidable (∃ o ∈ P, t ∈ (g.op o).outputs))

/-! ## The clones of a partition -/

section
variable {g₀ g : Ir} {seen made : TensorId → Prop} {s : Slicer} (hc : g₀.Closed)
  (h : Slicing g₀ seen made g s)

include h

/-- Registering the inputs of the root. The last part is about distinct inputs the map
does not know yet. -/
theorem registerInputs_spec {ts : List TensorId} (used : List TensorId)
    (hts : ∀ t ∈ ts, t < g₀.alloc.nextTensor ∧ ¬ made t) : ∃ g' s',
    ts.foldl (registerInput used) (g, s) = (g', s') ∧
    Slicing g₀ (fun t => seen t ∨ t ∈ ts ∧ t ∈ used) made g' s' ∧
    g'.op = g.op ∧ g'.alloc.nextOp = g.alloc.nextOp ∧
    s'.slice.ops = s.slice.ops ∧ s'.slice.outputs = s.slice.outputs ∧
    s'.slice.inputs.length = s.slice.inputs.length + (ts.filter (· ∈ used)).length ∧
    ((ts.filter (· ∈ used)).Nodup → (∀ t ∈ ts, t ∈ used → ¬ seen t) → ∃ added,
      s'.tensorMap = s.tensorMap ++ added ∧ added.map Prod.fst = ts.filter (· ∈ used) ∧
      s'.slice.inputs = s.slice.inputs ++ added.map Prod.snd) := by
  induction ts generalizing g s seen with
  | nil =>
    exact ⟨g, s, rfl, h.congr (by simp) fun _ => .rfl, rfl, rfl, rfl, rfl, rfl,
      fun _ _ => ⟨[], by simp, by simp, by simp⟩⟩
  | cons t ts ih =>
    have hts' : ∀ t' ∈ ts, t' < g₀.alloc.nextTensor ∧ ¬ made t' :=
      fun t' ht' => hts t' (mem_cons_of_mem t ht')
    by_cases hu : t ∈ used
    · obtain ⟨g₁, he₁, hO₁, hno₁, h₁⟩ := h.insert (hts t (by simp)).1 (hts t (by simp)).2 s.slice
        { s.slice with
          tensors := s.slice.tensors ++ [g.alloc.nextTensor]
          inputs := s.slice.inputs ++ [g.alloc.nextTensor] }
      obtain ⟨g', s', he, h', hO, hno, hops, hout, hlen, hnew⟩ := ih h₁ hts'
      rw [filter_cons_of_pos (by simpa using hu)]
      refine ⟨g', s', ?_, h'.congr (fun t' => ?_) fun _ => .rfl, hO.trans hO₁, hno.trans hno₁,
        hops, hout, ?_, fun hnd hfresh => ?_⟩
      · rw [foldl_cons, registerInput, if_pos hu, he₁]
        exact he
      · rw [mem_cons]
        grind
      · rw [hlen, length_append, length_cons, length_cons, length_nil]
        omega
      · obtain ⟨htnew, hnd⟩ := nodup_cons.mp hnd
        have hmap : s.tensorMap.insertOrAssign t g.alloc.nextTensor =
            s.tensorMap ++ [(t, g.alloc.nextTensor)] :=
          InsertOrderMap.insertOrAssign_of_not_contains
            (fun hk => hfresh t (by simp) hu ((h.keys t).mp hk)) _
        obtain ⟨added, happ, hkeys, hin⟩ := hnew hnd fun t' ht' hu' hs => hs.elim
          (hfresh t' (mem_cons_of_mem t ht') hu') fun he => htnew
            (mem_filter.mpr ⟨he ▸ ht', by simpa using hu⟩)
        refine ⟨(t, g.alloc.nextTensor) :: added, ?_, ?_, ?_⟩
        · rw [happ, hmap, append_assoc]
          rfl
        · rw [map_cons, hkeys]
        · rw [hin, append_assoc]
          rfl
    · obtain ⟨g', s', he, h', hO, hno, hops, hout, hlen, hnew⟩ := ih h hts'
      rw [filter_cons_of_neg (by simpa using hu)]
      refine ⟨g', s', ?_, h'.congr (fun t' => ?_) fun _ => .rfl, hO, hno, hops, hout, hlen,
        fun hnd hfresh => ?_⟩
      · rw [foldl_cons, registerInput, if_neg hu]
        exact he
      · rw [mem_cons]
        grind
      · exact hnew hnd fun t' ht' => hfresh t' (mem_cons_of_mem t ht')

include hc

/-- Cloning one op. The last part is about results the map does not know yet. -/
theorem cloneInto_spec {o : OpId} (ho : o < g₀.alloc.nextOp) (hnd : (g₀.op o).outputs.Nodup)
    (hnew : ∀ t ∈ (g₀.op o).outputs, ¬ made t) : ∃ g' s',
    cloneInto (g, s) o = some (g', s') ∧
    Slicing g₀ (fun t => seen t ∨ t ∈ (g₀.op o).inputs ∨ t ∈ (g₀.op o).outputs)
      (fun t => made t ∨ t ∈ (g₀.op o).outputs) g' s' ∧
    (∀ o' < g.alloc.nextOp, g'.op o' = g.op o') ∧ g'.alloc.nextOp = g.alloc.nextOp + 1 ∧
    s'.slice.ops = s.slice.ops ++ [g.alloc.nextOp] ∧ s'.slice.outputs = s.slice.outputs ∧
    ((∀ t ∈ (g₀.op o).outputs, ¬ seen t ∧ t ∉ (g₀.op o).inputs) → ∃ added,
      s'.tensorMap = s.tensorMap ++ added ∧
      g'.op g.alloc.nextOp =
        { attrs := (g₀.op o).attrs
          inputs := (g₀.op o).inputs.map s'.counterpart
          outputs := (g₀.op o).outputs.map s'.counterpart } ∧
      (∀ p ∈ added, ¬ seen p.1) ∧
      s'.slice.inputs = s.slice.inputs ++ (added.filter fun p =>
          !isConstant (g₀.tensor p.1) && !decide (p.1 ∈ (g₀.op o).outputs)).map Prod.snd) := by
  have hfresh : g₀.alloc.nextOp ≤ g.alloc.nextOp := h.nextOp
  obtain ⟨g₁, he₁, hO₁, hno₁, h₁⟩ := h.newOp ho s.slice
    { s.slice with ops := s.slice.ops ++ [g.alloc.nextOp] }
  have hlt₁ : g.alloc.nextOp < g₁.alloc.nextOp := hno₁ ▸ Nat.lt_succ_self _
  obtain ⟨g₂, s₂, added₂, he₂, h₂, hO₂, hno₂, hmap₂, hadd₂, hin₂, hops₂, hout₂⟩ :=
    cloneInputs_spec h₁ (fun t ht => hc.operand o t ht) hfresh hlt₁
  obtain ⟨g₃, s₃, outs, he₃, h₃, hO₃, hno₃, hin₃, hops₃, hout₃, happ₃⟩ :=
    cloneOutputs_spec h₂ (fun t ht => hc.result o t ht) hnd hnew hfresh (hno₂ ▸ hlt₁)
  refine ⟨g₃, s₃, ?_, h₃.congr (fun t => (or_assoc ..).symm) fun _ => .rfl, fun o' ho' => ?_,
    by rw [hno₃, hno₂, hno₁], by rw [hops₃, hops₂], by rw [hout₃, hout₂], fun hnew => ?_⟩
  · have hop : g₁.op o = g₀.op o := by
      rw [hO₁, if_neg (Nat.ne_of_lt (Nat.lt_of_lt_of_le ho hfresh)), h.op o ho]
    simp only [cloneInto, he₁, hop, he₂]
    exact he₃
  · rw [hO₃, if_neg (Nat.ne_of_lt ho'), hO₂, if_neg (Nat.ne_of_lt ho'), hO₁,
      if_neg (Nat.ne_of_lt ho')]
  · obtain ⟨added₃, hmap₃, hkeys₃, houts⟩ := happ₃ fun t ht hs =>
      hs.elim (hnew t ht).1 (hnew t ht).2
    have hkey {t : TensorId} (ht : t ∈ (g₀.op o).inputs) : t ∈ s₂.tensorMap.map Prod.fst :=
      (h₂.keys t).mpr (.inr ht)
    refine ⟨added₂ ++ added₃, by rw [hmap₃, hmap₂, append_assoc], ?_, fun p hp => ?_, ?_⟩
    · rw [hO₃, if_pos rfl, hO₂, if_pos rfl, hO₁, if_pos rfl, houts]
      simp only [nil_append]
      rw [map_congr_left fun t ht => (Slicer.counterpart_append hmap₃ (hkey ht)).symm]
    · rcases mem_append.mp hp with hp | hp
      · exact (hadd₂ p hp).2
      · exact (hnew p.1 (hkeys₃ ▸ mem_map_of_mem hp)).1
    · rw [hin₃, hin₂, filter_append]
      have hnil : (added₃.filter fun p =>
          !isConstant (g₀.tensor p.1) && !decide (p.1 ∈ (g₀.op o).outputs)) = [] := by
        refine filter_eq_nil_iff.mpr fun p hp => ?_
        simp [show p.1 ∈ (g₀.op o).outputs from hkeys₃ ▸ mem_map_of_mem hp]
      rw [hnil, append_nil]
      congr 2
      refine filter_congr fun p hp => ?_
      have : p.1 ∉ (g₀.op o).outputs := fun hm => (hnew p.1 hm).2 (hadd₂ p hp).1
      simp [this]

/-- Cloning a partition. The last part is about a partition in topological order. -/
theorem clonePartition_spec {P : List OpId} (hP : ∀ o ∈ P, o < g₀.alloc.nextOp)
    (hnd : (P.flatMap fun o => (g₀.op o).outputs).Nodup) (hnew : ∀ t, definedBy g₀ P t → ¬ made t) :
    ∃ g' s', P.foldlM cloneInto (g, s) = some (g', s') ∧
    Slicing g₀ (fun t => seen t ∨ readBy g₀ P t ∨ definedBy g₀ P t)
      (fun t => made t ∨ definedBy g₀ P t) g' s' ∧
    (∀ o' < g.alloc.nextOp, g'.op o' = g.op o') ∧
    s'.slice.ops = s.slice.ops ++ List.range' g.alloc.nextOp P.length ∧
    s'.slice.outputs = s.slice.outputs ∧
    ((∀ l₁ o l₂, P = l₁ ++ o :: l₂ →
      ∀ t ∈ (g₀.op o).outputs, ¬ seen t ∧ ∀ o' ∈ l₁ ++ [o], t ∉ (g₀.op o').inputs) → ∃ added,
      s'.tensorMap = s.tensorMap ++ added ∧
      (∀ p ∈ P.zipIdx g.alloc.nextOp, g'.op p.2 =
        { attrs := (g₀.op p.1).attrs
          inputs := (g₀.op p.1).inputs.map s'.counterpart
          outputs := (g₀.op p.1).outputs.map s'.counterpart }) ∧
      (∀ p ∈ added, ¬ seen p.1) ∧
      s'.slice.inputs = s.slice.inputs ++
        (added.filter fun p => !isConstant (g₀.tensor p.1) && !decide (definedBy g₀ P p.1)).map
          Prod.snd) := by
  induction P generalizing g s seen made with
  | nil =>
    refine ⟨g, s, rfl, h.congr (by simp [readBy, definedBy]) (by simp [definedBy]), fun _ _ => rfl,
      by simp, rfl, fun _ => ⟨[], by simp, by simp, by simp, by simp⟩⟩
  | cons o P ih =>
    rw [flatMap_cons, nodup_append] at hnd
    obtain ⟨hndo, hndP, hdisj⟩ := hnd
    have hnotin {t : TensorId} (ht : t ∈ (g₀.op o).outputs) : ¬ definedBy g₀ P t :=
      fun ⟨o', ho', ht'⟩ => hdisj t ht t (mem_flatMap.mpr ⟨o', ho', ht'⟩) rfl
    obtain ⟨g₁, s₁, he₁, h₁, hO₁, hno₁, hops₁, hout₁, htopo₁⟩ := cloneInto_spec hc h
      (hP o (by simp)) hndo fun t ht => hnew t ⟨o, by simp, ht⟩
    obtain ⟨g', s', he, h', hO, hops, hout, htopo⟩ := ih h₁
      (fun o' ho' => hP o' (mem_cons_of_mem o ho')) hndP
      (fun t ht hm => hm.elim (hnew t (ht.imp fun o' ho' => ⟨mem_cons_of_mem o ho'.1, ho'.2⟩))
        fun hm => hnotin hm ht)
    refine ⟨g', s', ?_, h'.congr (fun t => ?_) (fun t => ?_), fun o' ho' => ?_, ?_,
      hout.trans hout₁, fun horder => ?_⟩
    · rw [foldlM_cons, he₁]
      exact he
    · simp only [readBy, definedBy, exists_mem_cons_iff]
      grind
    · simp only [definedBy, exists_mem_cons_iff, or_assoc]
    · rw [hO o' (hno₁ ▸ Nat.lt_succ_of_lt ho'), hO₁ o' ho']
    · rw [hops, hops₁, hno₁, append_assoc, length_cons, range'_succ]
      rfl
    · obtain ⟨added₁, hmap₁, hop₁, hadd₁, hin₁⟩ := htopo₁ fun t ht =>
        have := horder [] o P rfl t ht
        ⟨this.1, this.2 o (by simp)⟩
      -- the rest of the partition defines nothing the map knows by now
      have hrest {t : TensorId} (hs : seen t ∨ t ∈ (g₀.op o).inputs ∨ t ∈ (g₀.op o).outputs) :
          ¬ definedBy g₀ P t := by
        rintro ⟨o', ho', ht⟩
        obtain ⟨l₁, l₂, rfl⟩ := append_of_mem ho'
        have := horder (o :: l₁) o' l₂ rfl t ht
        rcases hs with hs | hs | hs
        · exact this.1 hs
        · exact this.2 o (by simp) hs
        · exact hnotin hs ⟨o', ho', ht⟩
      obtain ⟨added, hmap, hop, hadd, hin⟩ := htopo fun l₁ o' l₂ hsplit t ht =>
        ⟨fun hs => hrest hs ⟨o', by simp [hsplit], ht⟩, fun o'' ho'' =>
          (horder (o :: l₁) o' l₂ (by rw [hsplit]; rfl) t ht).2 o'' (by
            rw [cons_append]
            exact mem_cons_of_mem o ho'')⟩
      have hkey {t : TensorId} (ht : t ∈ (g₀.op o).inputs ∨ t ∈ (g₀.op o).outputs) :
          s'.counterpart t = s₁.counterpart t :=
        Slicer.counterpart_append hmap ((h₁.keys t).mpr (.inr ht))
      refine ⟨added₁ ++ added, by rw [hmap, hmap₁, append_assoc], fun p hp => ?_,
        fun p hp => ?_, ?_⟩
      · rw [zipIdx_cons, mem_cons] at hp
        rcases hp with rfl | hp
        · rw [hO _ (hno₁ ▸ Nat.lt_succ_self _), hop₁]
          simp only
          rw [map_congr_left fun t ht => hkey (.inl ht), map_congr_left fun t ht => hkey (.inr ht)]
        · exact hop p (hno₁ ▸ hp)
      · rcases mem_append.mp hp with hp | hp
        · exact hadd₁ p hp
        · exact fun hs => hadd p hp (.inl hs)
      · rw [hin, hin₁, filter_append, map_append, append_assoc]
        congr 3
        · refine filter_congr fun p hp => ?_
          have hP := hrest ((h₁.keys p.1).mp (mem_map_of_mem (hmap₁ ▸ mem_append_right _ hp)))
          congr 2
          rw [decide_eq_decide, definedBy, exists_mem_cons_iff]
          exact ⟨.inl, fun hd => hd.resolve_right hP⟩
        · refine filter_congr fun p hp => ?_
          have hout : p.1 ∉ (g₀.op o).outputs := fun hm => hadd p hp (.inr (.inr hm))
          congr 2
          rw [decide_eq_decide, definedBy, definedBy, exists_mem_cons_iff]
          exact ⟨.inr, fun hd => hd.resolve_left hout⟩

end

/-! ## Connecting the dispatch op -/

/-- An entry of the tensor map that becomes an operand of the dispatch op. -/
def isDispatchInput (g : Ir) (e : TensorId × TensorId) : Bool :=
  (g.tensor e.2).definingOp = none ∧ !isConstant (g.tensor e.2)

/-- An entry of the tensor map that becomes a result of the dispatch op. -/
def isDispatchOutput (g : Ir) (root : Subgraph) (e : TensorId × TensorId) : Bool :=
  !isDispatchInput g e &&
    (((g.tensor e.1).users ≠ [] ∧ !isConstant (g.tensor e.1)) ∨ e.1 ∈ root.outputs)

theorem rerouteTensor_eq (root : Subgraph) (d : OpId) (g : Ir) (slice : Subgraph)
    (e : TensorId × TensorId) : rerouteTensor root d (g, slice) e =
      if isDispatchInput g e then some (attachInput g e.1 d, slice)
      else if isDispatchOutput g root e then
        (attachOutput g e.1 d).map fun g =>
          (g, { slice with outputs := slice.outputs ++ [e.2] })
      else some (g, slice) := by
  by_cases hin : isDispatchInput g e
  · rw [if_pos hin]
    simp only [isDispatchInput, decide_eq_true_eq] at hin
    rw [rerouteTensor, if_pos hin]
  · rw [if_neg hin]
    simp only [isDispatchOutput, hin, Bool.not_false, Bool.true_and, decide_eq_true_eq]
    simp only [isDispatchInput, decide_eq_true_eq] at hin
    rw [rerouteTensor, if_neg hin]

/-- The graph `g'` is `g` with the entries of `m` attached to `d`. -/
structure Rerouted (root : Subgraph) (d : OpId) (m : TensorMap) (g g' : Ir) : Prop where
  alloc : g'.alloc = g.alloc
  op_ne : ∀ o, o ≠ d → g'.op o = g.op o
  op_self : g'.op d = { g.op d with
    inputs := (g.op d).inputs ++ (m.filter (isDispatchInput g)).map Prod.fst
    outputs := (g.op d).outputs ++ (m.filter (isDispatchOutput g root)).map Prod.fst }
  data : ∀ t, (g.tensor t).SameData (g'.tensor t)
  definer : ∀ t, (g'.tensor t).definingOp =
    if t ∈ (m.filter (isDispatchOutput g root)).map Prod.fst then some d
    else (g.tensor t).definingOp
  users : ∀ t, ∀ u ∈ (g'.tensor t).users, u ∈ (g.tensor t).users ∨
    u.1 = d ∧ t ∈ (m.filter (isDispatchInput g)).map Prod.fst
  wellFormedAt : ∀ o, g.WellFormedAt o → g'.WellFormedAt o

section
variable {root : Subgraph} {d k : OpId} {c : TensorId} {m : TensorMap} {g g₁ g' : Ir}

/-- Entries that do not have `k` are judged alike in graphs that differ there only. -/
theorem filter_of_tensor_eq (root : Subgraph) (hm : ∀ e ∈ m, e.1 ≠ k ∧ e.2 ≠ k)
    (hT : ∀ t, t ≠ k → g₁.tensor t = g.tensor t) :
    m.filter (isDispatchInput g₁) = m.filter (isDispatchInput g) ∧
    m.filter (isDispatchOutput g₁ root) = m.filter (isDispatchOutput g root) := by
  refine ⟨filter_congr fun e he => ?_, filter_congr fun e he => ?_⟩
  · simp only [isDispatchInput, hT _ (hm e he).2]
  · simp only [isDispatchOutput, isDispatchInput, hT _ (hm e he).1, hT _ (hm e he).2]

/-- An entry that becomes an operand. -/
theorem Rerouted.cons_input (hr : Rerouted root d m (attachInput g k d) g')
    (hm : ∀ e ∈ m, e.1 ≠ k ∧ e.2 ≠ k) (hin : isDispatchInput g (k, c)) :
    Rerouted root d ((k, c) :: m) g g' := by
  have hout : isDispatchOutput g root (k, c) = false := by simp [isDispatchOutput, hin]
  have hT : ∀ t, t ≠ k → (attachInput g k d).tensor t = g.tensor t := fun t ht => by
    rw [tensor_attachInput, if_neg ht]
  obtain ⟨hf, hf'⟩ := filter_of_tensor_eq root hm hT
  constructor
  case alloc => exact hr.alloc
  case op_ne =>
    intro o ho
    rw [hr.op_ne o ho, op_attachInput, if_neg ho]
  case op_self =>
    rw [hr.op_self, hf, hf', op_attachInput, if_pos rfl, filter_cons_of_pos hin,
      filter_cons_of_neg (by simp [hout])]
    simp
  case data =>
    intro t
    have hd := hr.data t
    rw [tensor_attachInput] at hd
    split at hd
    · exact ⟨hd.buffer, hd.type, hd.qparams⟩
    · exact hd
  case definer =>
    intro t
    rw [hr.definer, hf', tensor_attachInput, filter_cons_of_neg (by simp [hout])]
    split
    · rfl
    · split <;> rfl
  case users =>
    intro t u hu
    rw [filter_cons_of_pos hin, map_cons, mem_cons]
    rcases hr.users t u hu with hu | ⟨hu, ht⟩
    · rw [tensor_attachInput] at hu
      split at hu
      · next ht =>
        rcases mem_append.mp hu with hu | hu
        · exact .inl hu
        · exact .inr ⟨by rw [mem_singleton.mp hu], .inl ht⟩
      · exact .inl hu
    · exact .inr ⟨hu, .inr (hf ▸ ht)⟩
  case wellFormedAt => exact fun o ho => hr.wellFormedAt o (ho.attachInput k d)

/-- An entry that becomes a result. -/
theorem Rerouted.cons_output (hr : Rerouted root d m g₁ g') (hm : ∀ e ∈ m, e.1 ≠ k ∧ e.2 ≠ k)
    (hout : isDispatchOutput g root (k, c)) (hund : (g.tensor k).definingOp = none)
    (hattach : attachOutput g k d = some g₁) : Rerouted root d ((k, c) :: m) g g' := by
  obtain ⟨_, hattach', ha, hT, hO⟩ := attachOutput_spec d hund
  obtain rfl := Option.some.inj (hattach.symm.trans hattach')
  have hin : ¬isDispatchInput g (k, c) := fun hin => by simp [isDispatchOutput, hin] at hout
  have hT' : ∀ t, t ≠ k → g₁.tensor t = g.tensor t := fun t ht => by rw [hT, if_neg ht]
  obtain ⟨hf, hf'⟩ := filter_of_tensor_eq root hm hT'
  have hnotout : k ∉ (m.filter (isDispatchOutput g root)).map Prod.fst := by
    intro hmem
    obtain ⟨e, he, hek⟩ := mem_map.mp hmem
    exact (hm e (mem_of_mem_filter he)).1 hek
  constructor
  case alloc => exact hr.alloc.trans ha
  case op_ne =>
    intro o ho
    rw [hr.op_ne o ho, hO, if_neg ho]
  case op_self =>
    rw [hr.op_self, hf, hf', hO, if_pos rfl, filter_cons_of_neg hin, filter_cons_of_pos hout]
    simp
  case data =>
    intro t
    have hd := hr.data t
    rw [hT] at hd
    split at hd
    · exact ⟨hd.buffer, hd.type, hd.qparams⟩
    · exact hd
  case definer =>
    intro t
    simp only [hr.definer, hf', hT, filter_cons_of_pos hout, map_cons, mem_cons]
    by_cases ht : t = k
    · subst ht
      simp [hnotout, Tensor.setDefiningOp]
    · simp only [ht, ↓reduceIte, false_or]
  case users =>
    intro t u hu
    rw [filter_cons_of_neg hin]
    rcases hr.users t u hu with hu | ⟨hu, ht⟩
    · rw [hT] at hu
      split at hu
      · exact .inl hu
      · exact .inl hu
    · exact .inr ⟨hu, hf ▸ ht⟩
  case wellFormedAt => exact fun o ho => hr.wellFormedAt o (ho.attachOutput hattach)

/-- An entry that is left alone. -/
theorem Rerouted.cons_neither (hr : Rerouted root d m g g') (hin : ¬isDispatchInput g (k, c))
    (hout : ¬isDispatchOutput g root (k, c)) : Rerouted root d ((k, c) :: m) g g' where
  alloc := hr.alloc
  op_ne := hr.op_ne
  op_self := by
    rw [filter_cons_of_neg hin, filter_cons_of_neg hout]
    exact hr.op_self
  data := hr.data
  definer := by
    rw [filter_cons_of_neg hout]
    exact hr.definer
  users := by
    rw [filter_cons_of_neg hin]
    exact hr.users
  wellFormedAt := hr.wellFormedAt

end

theorem reroute_spec {g : Ir} (hnd : (m.map Prod.fst).Nodup) (hsep : ∀ e ∈ m, ∀ e' ∈ m, e.2 ≠ e'.1)
    (hund : ∀ e ∈ m, isDispatchOutput g root e → (g.tensor e.1).definingOp = none)
    (slice : Subgraph) : ∃ g',
    m.foldlM (rerouteTensor root d) (g, slice) = some (g', { slice with
      outputs := slice.outputs ++ (m.filter (isDispatchOutput g root)).map Prod.snd }) ∧
    Rerouted root d m g g' := by
  induction m generalizing g slice with
  | nil =>
    refine ⟨g, by simp, rfl, fun _ _ => rfl, by simp, fun _ => ⟨rfl, rfl, rfl⟩, by simp,
      fun _ _ => .inl, fun _ => id⟩
  | cons e m ih =>
    obtain ⟨k, c⟩ := e
    rw [map_cons, nodup_cons] at hnd
    obtain ⟨hk, hnd⟩ := hnd
    have hkeys : ∀ e ∈ m, e.1 ≠ k ∧ e.2 ≠ k := fun e he =>
      ⟨fun h => hk (mem_map.mpr ⟨e, he, h⟩), hsep e (mem_cons_of_mem _ he) (k, c) mem_cons_self⟩
    -- the entries after this one, in a graph that differs at its tensor only
    have hrest {g₁ : Ir} (hT : ∀ t, t ≠ k → g₁.tensor t = g.tensor t) (slice : Subgraph) :
        ∃ g', m.foldlM (rerouteTensor root d) (g₁, slice) = some (g', { slice with
          outputs := slice.outputs ++ (m.filter (isDispatchOutput g root)).map Prod.snd }) ∧
        Rerouted root d m g₁ g' := by
      rw [← (filter_of_tensor_eq root hkeys hT).2]
      refine ih hnd (fun e he e' he' => hsep e (mem_cons_of_mem _ he) e'
        (mem_cons_of_mem _ he')) (fun e he ho => ?_) slice
      simp only [isDispatchOutput, isDispatchInput, hT _ (hkeys e he).1, hT _ (hkeys e he).2] at ho
      rw [hT _ (hkeys e he).1]
      exact hund e (mem_cons_of_mem _ he) ho
    rw [foldlM_cons, rerouteTensor_eq]
    by_cases hin : isDispatchInput g (k, c)
    · have hout : isDispatchOutput g root (k, c) = false := by simp [isDispatchOutput, hin]
      have hT : ∀ t, t ≠ k → (attachInput g k d).tensor t = g.tensor t := fun t ht => by
        rw [tensor_attachInput, if_neg ht]
      obtain ⟨g', he, hr⟩ := hrest hT slice
      refine ⟨g', ?_, hr.cons_input hkeys hin⟩
      rw [if_pos hin, filter_cons_of_neg (by simp [hout])]
      exact he
    · by_cases hout : isDispatchOutput g root (k, c)
      · have hnone := hund (k, c) mem_cons_self hout
        obtain ⟨g₁, hattach, -, hT, -⟩ := attachOutput_spec d hnone
        have hT' : ∀ t, t ≠ k → g₁.tensor t = g.tensor t := fun t ht => by rw [hT, if_neg ht]
        obtain ⟨g', he, hr⟩ := hrest hT' { slice with outputs := slice.outputs ++ [c] }
        refine ⟨g', ?_, hr.cons_output hkeys hout hnone hattach⟩
        rw [if_neg hin, if_pos hout, hattach, filter_cons_of_pos hout]
        simp only [Option.map_some, Option.bind_eq_bind, Option.bind_some, he,
          map_cons, append_assoc, singleton_append]
      · have hT : ∀ t, t ≠ k → g.tensor t = g.tensor t := fun _ _ => rfl
        obtain ⟨g', he, hr⟩ := hrest hT slice
        refine ⟨g', ?_, hr.cons_neither hin hout⟩
        rw [if_neg hin, if_neg hout, filter_cons_of_neg hout]
        exact he

/-- A result of the dispatch op that is defined already. -/
theorem reroute_eq_none {g : Ir} (hnd : (m.map Prod.fst).Nodup)
    (hsep : ∀ e ∈ m, ∀ e' ∈ m, e.2 ≠ e'.1) {e : TensorId × TensorId} (he : e ∈ m)
    (hout : isDispatchOutput g root e) (hdef : (g.tensor e.1).definingOp ≠ none)
    (slice : Subgraph) :
    m.foldlM (rerouteTensor root d) (g, slice) = none := by
  induction m generalizing g slice with
  | nil => cases he
  | cons e' m ih =>
    rw [map_cons, nodup_cons] at hnd
    rw [foldlM_cons]
    rcases mem_cons.mp he with rfl | he'
    · have hin : ¬ isDispatchInput g e := by
        simp only [isDispatchOutput, Bool.and_eq_true, Bool.not_eq_true'] at hout
        simp [hout.1]
      rw [rerouteTensor_eq, if_neg hin, if_pos hout, attachOutput, if_neg hdef]
      rfl
    · cases hstep : rerouteTensor root d (g, slice) e' with
      | none => rfl
      | some p =>
        obtain ⟨g₁, slice₁⟩ := p
        have hT (t : TensorId) (ht : t ≠ e'.1) : g₁.tensor t = g.tensor t := by
          rw [rerouteTensor_eq] at hstep
          split at hstep
          · cases hstep
            rw [tensor_attachInput, if_neg ht]
          · split at hstep
            · rw [Option.map_eq_some_iff] at hstep
              obtain ⟨g₂, ha, hg⟩ := hstep
              cases hg
              by_cases hund : (g.tensor e'.1).definingOp = none
              · obtain ⟨g₃, ha', -, hT, -⟩ := attachOutput_spec d hund
                rw [ha'] at ha
                cases ha
                rw [hT, if_neg ht]
              · rw [attachOutput, if_neg hund] at ha
                cases ha
            · cases hstep
              rfl
        have h1 : e.1 ≠ e'.1 := fun h => hnd.1 (h ▸ mem_map_of_mem he')
        have h2 : e.2 ≠ e'.1 := hsep e he e' (by simp)
        refine ih hnd.2 (fun a ha b hb => hsep a (mem_cons_of_mem _ ha) b
          (mem_cons_of_mem _ hb)) he' ?_ (hT e.1 h1 ▸ hdef) slice₁
        simpa only [isDispatchOutput, isDispatchInput, hT _ h1, hT _ h2] using hout

end LiteRt.Plugin
