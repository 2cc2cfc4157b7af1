import LiteRt.GpuGraph.ExactCopy

/-!
# Copies are exact

Before a node is linked its copy has no links, so none of the mutators refuses; afterwards it has
the links of the original in their order. The order of consumers is that of the plan.
-/

namespace LiteRt.GpuGraph

open LiteRt.Lib GraphFloat32 Function List

variable {Op Tn : Type} {g c c' : GraphFloat32 Op Tn} {n : NodeId} {v : ValueId}

/-! ## Runs with contents -/

theorem getValue_withTensor (g : GraphFloat32 Op Tn) (v : ValueId) (t : Tn) {w : ValueId}
    (hw : g.getValue w ≠ none) : (g.withTensor v t).getValue w ≠ none := by
  unfold getValue withTensor at *
  by_cases h : v = w
  · subst h
    cases hv : g.values[v]? with
    | none => simp [hv] at hw
    | some d => simp [hv]
  · simpa [getElem?_modify_ne _ _ h] using hw

theorem links_withTensor (g : GraphFloat32 Op Tn) (v : ValueId) (t : Tn) :
    (g.withTensor v t).links = g.links :=
  Links.ext
    (funext fun w => g.values_modify_view (·.producer) none (fun a => { a with value := some t })
      (fun _ => rfl) v w)
    (funext fun w => g.values_modify_view (·.consumers) [] (fun a => { a with value := some t })
      (fun _ => rfl) v w)
    rfl rfl

theorem linked_withTensor (h : g.Linked) (v : ValueId) (t : Tn) : (g.withTensor v t).Linked where
  links := links_withTensor g v t ▸ h.links
  live := by
    intro m w hlink
    rw [links_withTensor] at hlink
    obtain ⟨hm, hw⟩ := h.live m w hlink
    exact ⟨hm, getValue_withTensor g v t hw⟩
  plan := h.plan

section
variable [Inhabited Op] [Inhabited Tn]

theorem Edit.linked (h : g.Linked) (e : Edit Op Tn) : (e.apply g).Linked := by
  cases e with
  | mutator op =>
    refine Ends.after ((op.run_ends h).mono (fun _ _ hends => hends.1) ?_)
    rintro _ _ ⟨rfl, _⟩
    exact h
  | operation id op =>
    show (if _ then _ else _ : GraphFloat32 Op Tn).Linked
    split
    · next hlive => exact linked_withOperation h (Option.isSome_iff_ne_none.1 hlive)
    · exact h
  | tensor id t =>
    show (if _ then _ else _ : GraphFloat32 Op Tn).Linked
    split
    · exact linked_withTensor h id t
    · exact h

/-- The links are right after every run. -/
theorem linked_edited (edits : List (Edit Op Tn)) :
    (edited edits (GraphFloat32.empty : GraphFloat32 Op Tn)).Linked := by
  unfold edited
  induction edits using List.reverseRecOn with
  | nil => exact linked_empty
  | append_singleton edits e ih =>
    rw [foldl_append, foldl_cons, foldl_nil]
    exact e.linked ih

end

/-! ## The number of values -/

section
variable {k : Nat}

theorem keeps_lookupNode (P : GraphFloat32 Op Tn → Prop) : Keeps (lookupNode n) P :=
  keeps_get fun g hg => by
    split
    · exact ends_throw hg
    split
    · exact ends_throw hg
    · exact ends_pure hg

theorem keeps_lookupValue (P : GraphFloat32 Op Tn → Prop) : Keeps (lookupValue v) P :=
  keeps_get fun g hg => by
    split
    · exact ends_throw hg
    split
    · exact ends_throw hg
    · exact ends_pure hg

theorem length_modify_values (g : GraphFloat32 Op Tn) (v : ValueId)
    (f : ValueDef Tn → ValueDef Tn) : (g.values.modify v f).length = g.values.length :=
  length_modify ..

theorem keeps_eraseFromProducer :
    Keeps (eraseFromProducer v) fun c : GraphFloat32 Op Tn => c.values.length = k :=
  keeps_get fun g hg => by
    split
    · refine ends_get (Ends.bind (Q := fun _ c => c.values.length = k) ?_ fun _ _ hc => ?_)
      · unfold erase
        split
        · exact ends_pure hg
        · exact ends_throw hg
      · exact ends_modify hc
    · exact ends_pure hg

theorem keeps_setProducer :
    Keeps (setProducer n v) fun c : GraphFloat32 Op Tn => c.values.length = k := by
  refine (keeps_lookupValue _).bind fun _ => (keeps_lookupNode _).bind fun _ =>
    keeps_get fun g hg => ?_
  split
  · exact ends_throw hg
  split
  · exact ends_throw hg
  refine (keeps_eraseFromProducer g hg).bind fun _ c hc => ends_modify_bind (ends_modify ?_)
  exact (length_modify_values c v _).trans hc

theorem keeps_addConsumer :
    Keeps (addConsumer n v) fun c : GraphFloat32 Op Tn => c.values.length = k := by
  refine (keeps_lookupValue _).bind fun _ => (keeps_lookupNode _).bind fun _ =>
    keeps_get fun g hg => ?_
  split
  · exact ends_throw hg
  split
  · exact ends_throw hg
  exact ends_modify_bind (ends_modify ((length_modify_values _ v _).trans hg))

end

/-! ## The copy without links -/

/-- The copy has the nodes and values of the original, whatever their links. -/
structure SameContents (g c : GraphFloat32 Op Tn) : Prop where
  getNode : c.getNode = g.getNode
  getValue : c.getValue = g.getValue
  executionPlan : c.executionPlan = g.executionPlan
  nodes : c.nodes.length = g.nodes.length
  values : c.values.length = g.values.length
  known : ∀ v, v ∈ c.knownGraphOutputs ↔ v ∈ g.knownGraphOutputs ∧ g.getValue v ≠ none

theorem SameContents.relinks {L : Links NodeId ValueId} (h : SameContents g c)
    (hrel : Relinks c c' L) (hlen : c'.values.length = c.values.length) : SameContents g c' where
  getNode := hrel.getNode.trans h.getNode
  getValue := hrel.getValue.trans h.getValue
  executionPlan := hrel.executionPlan.trans h.executionPlan
  nodes := hrel.nodes.trans h.nodes
  values := hlen.trans h.values
  known := by
    intro v
    rw [hrel.known]
    exact h.known v

/-- The copy after its first values. -/
def copiedValues (g : GraphFloat32 Op Tn) (k : Nat) : GraphFloat32 Op Tn where
  values := (g.values.take k).map fun d => ⟨none, [], d.value⟩
  nodes := []
  executionPlan := []
  knownGraphOutputs := (List.range k).filter fun id =>
    (g.getValue id).isSome ∧ id ∈ g.knownGraphOutputs

theorem copyValue_eq {k : Nat} (hk : k < g.values.length) :
    copyValue g k (copiedValues g k) = .ok () (copiedValues g (k + 1)) := by
  have hget : g.values[k]? = some g.values[k] := getElem?_eq_getElem hk
  have hvalue : g.getValue k = g.values[k].value := by
    unfold getValue
    rw [hget]
  have hvalues : (g.values.take (k + 1)).map (fun d => ValueDef.mk none [] d.value) =
      (g.values.take k).map (fun d => ValueDef.mk none [] d.value) ++
        [ValueDef.mk none [] g.values[k].value] := by
    rw [take_add_one, hget, map_append]
    rfl
  have hlen : ((g.values.take k).map (fun d => ValueDef.mk none [] d.value) ++
      [ValueDef.mk none [] g.values[k].value]).length - 1 = k := by
    rw [length_append, length_map, length_take]
    simp [Nat.le_of_lt hk]
  unfold copyValue
  rw [hget]
  unfold copiedValues
  rw [hvalues, range_succ, filter_append, filter_singleton, hvalue]
  by_cases hknown : g.values[k].value.isSome ∧ k ∈ g.knownGraphOutputs
  · show (if _ then addKnownGraphOutput (_ - 1) else _ : GraphM Op Tn Unit) _ = _
    rw [if_pos hknown, decide_eq_true hknown]
    show EStateM.Result.ok () _ = _
    rw [hlen]
    rfl
  · show (if _ then addKnownGraphOutput (_ - 1) else _ : GraphM Op Tn Unit) _ = _
    rw [if_neg hknown, decide_eq_false hknown]
    show EStateM.Result.ok () _ = _
    rw [cond_false, append_nil]

theorem copyValues_eq {k : Nat} (hk : k ≤ g.values.length) :
    (List.range k).forM (copyValue g) GraphFloat32.empty = .ok () (copiedValues g k) := by
  induction k with
  | zero => rfl
  | succ k ih =>
    rw [range_succ]
    show (forM (List.range k ++ [k]) (copyValue g) : GraphM Op Tn Unit) _ = _
    rw [forM_append]
    refine (bind_ok_eq (ih (by omega))).trans ?_
    show (copyValue g k >>= fun _ => pure ()) _ = _
    rw [bind_ok_eq (copyValue_eq hk)]
    rfl

/-- The nodes of `done` are there. -/
structure CopiedNodes (g : GraphFloat32 Op Tn) (done : List NodeId) (c : GraphFloat32 Op Tn) :
    Prop where
  values : c.values = (copiedValues g g.values.length).values
  known : c.knownGraphOutputs = (copiedValues g g.values.length).knownGraphOutputs
  executionPlan : c.executionPlan = done
  node : ∀ id < c.nodes.length,
    c.nodes[id]? = some ⟨[], [], if id ∈ done then g.getNode id else none⟩
  bound : c.nodes.length ≤ g.nodes.length
  present : ∀ id ∈ done, id < c.nodes.length

theorem length_placeNode (nodes : List (NodeDef Op)) (id : Nat) (d : NodeDef Op) :
    (placeNode nodes id d).length = max nodes.length (id + 1) := by
  unfold placeNode
  rw [length_set, length_append, length_replicate]
  omega

theorem getElem?_placeNode (nodes : List (NodeDef Op)) (id : Nat) (d : NodeDef Op) {m : Nat}
    (hm : m < max nodes.length (id + 1)) : (placeNode nodes id d)[m]? =
      if m = id then some d else if m < nodes.length then nodes[m]? else some ⟨[], [], none⟩ := by
  unfold placeNode
  by_cases h : m = id
  · subst h
    rw [if_pos rfl, getElem?_set_self]
    rw [length_append, length_replicate]
    omega
  · rw [if_neg h, getElem?_set_ne (Ne.symm h)]
    split
    · next hlt => exact getElem?_append_left hlt
    · next hge =>
      rw [getElem?_append_right (by omega), getElem?_replicate, if_pos (by omega)]

theorem copyNodes_ends (h : g.Linked) :
    Ends (g.executionPlan.forM (copyNode g)) (copiedValues g g.values.length)
      (fun _ c => CopiedNodes g g.executionPlan c) fun _ _ => False := by
  refine forM_ok (P := fun done c => CopiedNodes g done c) ?_ ?_
  · exact ⟨rfl, rfl, rfl, fun id hid => absurd hid (Nat.not_lt_zero id), Nat.zero_le _,
      fun id hid => absurd hid not_mem_nil⟩
  · intro done id rest hsplit c hc
    have hid : id < g.nodes.length := by
      have hmem : id ∈ g.executionPlan := by
        rw [hsplit]
        exact mem_append_right _ mem_cons_self
      exact mem_range.1 (h.plan.mem_iff.1 hmem)
    have hget : g.nodes[id]? = some g.nodes[id] := getElem?_eq_getElem hid
    have hnode : g.getNode id = g.nodes[id].node := by
      unfold getNode
      rw [hget]
    unfold copyNode
    rw [hget]
    refine ends_modify ⟨hc.values, hc.known, congrArg (· ++ [id]) hc.executionPlan, ?_, ?_, ?_⟩
    · intro m hm
      rw [length_placeNode] at hm
      rw [getElem?_placeNode _ _ _ hm]
      by_cases heq : m = id
      · subst heq
        rw [if_pos rfl, if_pos (by simp), hnode]
      · rw [if_neg heq]
        have hmem : m ∈ done ++ [id] ↔ m ∈ done := by simp [heq]
        simp only [hmem]
        split
        · next hlt => exact hc.node m hlt
        · next hge => rw [if_neg fun hdone => hge (hc.present m hdone)]
    · rw [length_placeNode]
      exact Nat.max_le.2 ⟨hc.bound, hid⟩
    · intro m hm
      rw [length_placeNode]
      rcases mem_append.1 hm with hold | hnew
      · exact Nat.lt_of_lt_of_le (hc.present m hold) (Nat.le_max_left _ _)
      · rw [mem_singleton.1 hnew]
        exact Nat.lt_of_lt_of_le (Nat.lt_succ_self id) (Nat.le_max_right _ _)

theorem getElem?_copiedValues (g : GraphFloat32 Op Tn) (v : ValueId) :
    (copiedValues g g.values.length).values[v]? =
      g.values[v]?.map fun d => ⟨none, [], d.value⟩ := by
  unfold copiedValues
  rw [take_length, getElem?_map]

theorem known_copiedValues :
    v ∈ (copiedValues g g.values.length).knownGraphOutputs ↔
      v ∈ g.knownGraphOutputs ∧ g.getValue v ≠ none := by
  unfold copiedValues
  simp only [mem_filter, mem_range, decide_eq_true_eq, Option.isSome_iff_ne_none]
  exact ⟨fun h => ⟨h.2.2, h.2.1⟩, fun h => ⟨lt_of_getValue h.2, h.2, h.1⟩⟩

namespace CopiedNodes

variable (hc : CopiedNodes g g.executionPlan c) (h : g.Linked)
include hc h

theorem length_nodes : c.nodes.length = g.nodes.length := by
  refine Nat.le_antisymm hc.bound (Nat.le_of_not_lt fun hlt => ?_)
  have hmem : c.nodes.length ∈ g.executionPlan := h.plan.mem_iff.2 (mem_range.2 hlt)
  exact Nat.lt_irrefl _ (hc.present _ hmem)

theorem node_eq (n : NodeId) :
    c.nodes[n]? = if n < g.nodes.length then some ⟨[], [], g.getNode n⟩ else none := by
  have hlen := hc.length_nodes h
  split
  · next hlt =>
    rw [hc.node n (hlen ▸ hlt), if_pos (h.plan.mem_iff.2 (mem_range.2 hlt))]
  · next hge => exact getElem?_eq_none (hlen ▸ Nat.le_of_not_lt hge)

theorem sameContents : SameContents g c where
  getNode := by
    funext n
    by_cases hlt : n < g.nodes.length
    · unfold getNode
      rw [hc.node_eq h, if_pos hlt]
      rfl
    · have hnone : g.getNode n = none := by
        unfold getNode
        rw [getElem?_eq_none (Nat.le_of_not_lt hlt)]
      rw [hnone]
      unfold getNode
      rw [hc.node_eq h, if_neg hlt]
  getValue := by
    funext v
    unfold getValue
    rw [hc.values, getElem?_copiedValues]
    cases g.values[v]? <;> rfl
  executionPlan := hc.executionPlan
  nodes := hc.length_nodes h
  values := by
    rw [hc.values]
    simp [copiedValues]
  known := by
    intro v
    rw [hc.known]
    exact known_copiedValues

theorem links_eq : c.links = Links.empty := by
  refine Links.ext ?_ ?_ ?_ ?_ <;> funext x
  · show c.findProducer x = none
    unfold findProducer
    rw [hc.values, getElem?_copiedValues]
    cases g.values[x]? <;> rfl
  · show c.findConsumers x = []
    unfold findConsumers
    rw [hc.values, getElem?_copiedValues]
    cases g.values[x]? <;> rfl
  · show c.findInputs x = []
    unfold findInputs
    rw [hc.node_eq h]
    split_ifs <;> rfl
  · show c.findOutputs x = []
    unfold findOutputs
    rw [hc.node_eq h]
    split_ifs <;> rfl

theorem linked : c.Linked where
  links := by
    rw [hc.links_eq h]
    exact Links.valid_empty
  live := by
    intro n v hlink
    rw [hc.links_eq h] at hlink
    simp [Links.empty] at hlink
  plan := by
    rw [hc.executionPlan, hc.length_nodes h]
    exact h.plan

end CopiedNodes

/-! ## Linking the copy -/

/-- The copy has these links of its nodes so far. -/
structure Wired (g : GraphFloat32 Op Tn) (ins outs : NodeId → List ValueId)
    (c : GraphFloat32 Op Tn) : Prop where
  linked : c.Linked
  contents : SameContents g c
  inputs : c.findInputs = ins
  outputs : c.findOutputs = outs

section
variable {ins outs : NodeId → List ValueId}

theorem Wired.unlinked (hw : Wired g ins outs c) (hnode : g.getNode n ≠ none)
    (hvalue : g.getValue v ≠ none) (hin : v ∉ ins n) (hout : v ∉ outs n) : Unlinked c n v where
  node := by rwa [hw.contents.getNode]
  value := by rwa [hw.contents.getValue]
  input := by rwa [hw.inputs]
  producer := by
    intro hp
    refine hout ?_
    rw [← hw.outputs]
    exact hw.linked.mem_outputs.2 hp

theorem Wired.setProducer (hw : Wired g ins outs c) (h : g.Linked) (hv : v ∈ g.findOutputs n)
    (hin : v ∉ ins n) (hout : ∀ m, v ∉ outs m) :
    Ends (setProducer n v) c (fun _ c' => Wired g ins (update outs n (outs n ++ [v])) c')
      fun _ _ => False := by
  obtain ⟨hnode, hvalue⟩ := h.live_output hv
  have hpre := hw.unlinked hnode hvalue hin (hout n)
  refine ((setProducer_ends hw.linked n v).and (keeps_setProducer c rfl)).mono ?_
    fun _ _ hend => absurd hpre hend.1.2
  rintro ⟨⟩ c' ⟨⟨_, hrel⟩, hlen⟩
  refine ⟨hrel.linked_setProducer hw.linked hpre, hw.contents.relinks hrel hlen, ?_, ?_⟩
  · exact (congrArg Links.inputs hrel.links).trans hw.inputs
  · refine (congrArg Links.outputs hrel.links).trans (funext fun m => ?_)
    have herase : (c.findOutputs m).erase v = outs m := by
      rw [hw.outputs, erase_of_not_mem (hout m)]
    show (if m = n then (c.findOutputs m).erase v ++ [v] else (c.findOutputs m).erase v) = _
    rw [herase]
    by_cases hm : m = n
    · subst hm
      rw [if_pos rfl, update_self]
    · rw [if_neg hm, update_of_ne hm]

theorem Wired.addConsumer (hw : Wired g ins outs c) (h : g.Linked) (hv : v ∈ g.findInputs n)
    (hin : v ∉ ins n) (hout : v ∉ outs n) :
    Ends (addConsumer n v) c (fun _ c' => Wired g (update ins n (ins n ++ [v])) outs c')
      fun _ _ => False := by
  obtain ⟨hnode, hvalue⟩ := h.live_input hv
  have hpre := hw.unlinked hnode hvalue hin hout
  refine ((addConsumer_ends hw.linked n v).and (keeps_addConsumer c rfl)).mono ?_
    fun _ _ hend => absurd hpre hend.1.2
  rintro ⟨⟩ c' ⟨⟨_, hrel⟩, hlen⟩
  refine ⟨hrel.linked_addConsumer hw.linked hpre, hw.contents.relinks hrel hlen, ?_, ?_⟩
  · refine (congrArg Links.inputs hrel.links).trans ?_
    show update c.findInputs n (c.findInputs n ++ [v]) = _
    rw [hw.inputs]
  · exact (congrArg Links.outputs hrel.links).trans hw.outputs

theorem Wired.setProducers (hw : Wired g ins outs c) (h : g.Linked) (hins : ins n = [])
    (houts : ∀ m, outs m = [] ∨ m ≠ n ∧ outs m = g.findOutputs m) (hn : outs n = []) :
    Ends ((g.findOutputs n).forM fun output => GpuGraph.setProducer n output) c
      (fun _ c' => Wired g ins (update outs n (g.findOutputs n)) c')
      fun _ _ => False := by
  refine forM_ok (P := fun done c' => Wired g ins (update outs n done) c') ?_ ?_
  · rwa [← hn, update_eq_self]
  · intro done v rest hsplit c' hc'
    have hv : v ∈ g.findOutputs n := by
      rw [hsplit]
      exact mem_append_right _ mem_cons_self
    have hdone : v ∉ done := not_mem_done (h.links.outputs_nodup n) hsplit
    have hother : ∀ m, v ∉ update outs n done m := by
      intro m
      by_cases hm : m = n
      · subst hm
        rwa [update_self]
      · rw [update_of_ne hm]
        rcases houts m with hnil | ⟨_, heq⟩
        · rw [hnil]
          exact not_mem_nil
        · rw [heq]
          intro hmem
          have hp := h.mem_outputs.1 hmem
          rw [h.mem_outputs.1 hv, Option.some.injEq] at hp
          exact hm hp.symm
    have hstep := hc'.setProducer h hv (hins ▸ not_mem_nil) hother
    rwa [update_self, update_idem] at hstep

theorem Wired.addConsumers (hw : Wired g ins outs c) (h : g.Linked) (hins : ins n = [])
    (houts : outs n = g.findOutputs n) :
    Ends ((g.findInputs n).forM fun input => GpuGraph.addConsumer n input) c
      (fun _ c' => Wired g (update ins n (g.findInputs n)) outs c')
      fun _ _ => False := by
  refine forM_ok (P := fun done c' => Wired g (update ins n done) outs c') ?_ ?_
  · rwa [← hins, update_eq_self]
  · intro done v rest hsplit c' hc'
    have hv : v ∈ g.findInputs n := by
      rw [hsplit]
      exact mem_append_right _ mem_cons_self
    have hdone : v ∉ done := not_mem_done (h.links.inputs_nodup n) hsplit
    have hout : v ∉ outs n := by
      rw [houts, h.mem_outputs]
      exact h.separate hv
    have hin : v ∉ update ins n done n := by rwa [update_self]
    have hstep := hc'.addConsumer h hv hin hout
    rwa [update_self, update_idem] at hstep

end

/-- The lists of the nodes that are linked already. -/
def listed (lists : NodeId → List ValueId) (done : List NodeId) (n : NodeId) : List ValueId :=
  if n ∈ done then lists n else []

theorem update_listed (lists : NodeId → List ValueId) (done : List NodeId) (n : NodeId) :
    update (listed lists done) n (lists n) = listed lists (done ++ [n]) := by
  funext m
  by_cases hm : m = n
  · subst hm
    simp [listed]
  · simp [listed, hm]

/-- A deleted node has no lists. -/
theorem listed_dead {lists : NodeId → List ValueId} (hn : lists n = []) (done : List NodeId) :
    listed lists (done ++ [n]) = listed lists done := by
  rw [← update_listed, hn]
  refine update_eq_iff.2 ⟨?_, fun _ _ => rfl⟩
  unfold listed
  rw [hn, ite_self]

theorem wireNode_ends (h : g.Linked) {done : List NodeId} (hn : n < g.nodes.length)
    (hdone : n ∉ done)
    (hw : Wired g (listed g.findInputs done) (listed g.findOutputs done) c) :
    Ends (wireNode g n) c (fun _ c' => Wired g (listed g.findInputs (done ++ [n]))
        (listed g.findOutputs (done ++ [n])) c') fun _ _ => False := by
  have hget : g.nodes[n]? = some g.nodes[n] := getElem?_eq_getElem hn
  have hnode : g.getNode n = g.nodes[n].node := by
    unfold getNode
    rw [hget]
  have hinputs : g.findInputs n = g.nodes[n].inputs := by
    unfold findInputs
    rw [hget]
  have houtputs : g.findOutputs n = g.nodes[n].outputs := by
    unfold findOutputs
    rw [hget]
  have hnil : ∀ lists : NodeId → List ValueId, listed lists done n = [] := fun _ => if_neg hdone
  unfold wireNode
  rw [hget]
  show Ends (if g.nodes[n].node.isSome then _ else _) c _ _
  rw [← hnode, ← hinputs, ← houtputs]
  by_cases hlive : (g.getNode n).isSome
  · rw [if_pos hlive]
    have hother : ∀ m, listed g.findOutputs done m = [] ∨
        m ≠ n ∧ listed g.findOutputs done m = g.findOutputs m := by
      intro m
      by_cases hm : m ∈ done
      · exact .inr ⟨fun heq => hdone (heq ▸ hm), if_pos hm⟩
      · exact .inl (if_neg hm)
    refine Ends.bind (hw.setProducers h (hnil _) hother (hnil _)) ?_
    rintro ⟨⟩ c₁ hw₁
    rw [update_listed] at hw₁
    have hlist : listed g.findOutputs (done ++ [n]) n = g.findOutputs n := if_pos (by simp)
    have hends := hw₁.addConsumers h (hnil _) hlist
    rwa [update_listed] at hends
  · rw [if_neg hlive]
    have hdead : g.getNode n = none := by simpa using hlive
    refine ends_pure ?_
    rwa [listed_dead (h.findInputs_dead hdead), listed_dead (h.findOutputs_dead hdead)]

theorem wireNodes_ends (h : g.Linked) (hc : CopiedNodes g g.executionPlan c) :
    Ends (g.executionPlan.forM (wireNode g)) c
      (fun _ c' => Wired g g.findInputs g.findOutputs c') fun _ _ => False := by
  have hempty := hc.links_eq h
  have hloop : Ends (g.executionPlan.forM (wireNode g)) c
      (fun _ c' => Wired g (listed g.findInputs g.executionPlan)
        (listed g.findOutputs g.executionPlan) c') fun _ _ => False := by
    refine forM_ok
      (P := fun done c' => Wired g (listed g.findInputs done) (listed g.findOutputs done) c') ?_ ?_
    · refine ⟨hc.linked h, hc.sameContents h, ?_, ?_⟩
      · refine (congrArg Links.inputs hempty).trans (funext fun m => ?_)
        exact (if_neg not_mem_nil).symm
      · refine (congrArg Links.outputs hempty).trans (funext fun m => ?_)
        exact (if_neg not_mem_nil).symm
    · intro done n rest hsplit c' hc'
      have hmem : n ∈ g.executionPlan := by
        rw [hsplit]
        exact mem_append_right _ mem_cons_self
      have hdone : n ∉ done := not_mem_done (h.plan.nodup_iff.2 nodup_range) hsplit
      exact wireNode_ends h (mem_range.1 (h.plan.mem_iff.1 hmem)) hdone hc'
  have hall : ∀ lists : NodeId → List ValueId,
      (∀ m, g.nodes.length ≤ m → lists m = []) → listed lists g.executionPlan = lists := by
    intro lists hout
    funext m
    unfold listed
    split
    · rfl
    · next hm =>
      have hle : g.nodes.length ≤ m := Nat.le_of_not_lt fun hlt =>
        hm (h.plan.mem_iff.2 (mem_range.2 hlt))
      exact (hout m hle).symm
  have hdead : ∀ m, g.nodes.length ≤ m → g.getNode m = none := fun m hle => by
    unfold getNode
    rw [getElem?_eq_none hle]
  rwa [hall g.findInputs fun m hle => h.findInputs_dead (hdead m hle),
    hall g.findOutputs fun m hle => h.findOutputs_dead (hdead m hle)] at hloop

/-! ## The answers -/

theorem mem_filterValues {predicate : ValueDef Tn → Tn → Bool} {p : ValueId × Tn}
    (hp : p ∈ g.filterValues predicate) : g.getValue p.1 = some p.2 := by
  unfold filterValues at hp
  obtain ⟨id, -, hid⟩ := mem_filterMap.1 hp
  unfold getValue
  cases hd : g.values[id]? with
  | none => simp [hd] at hid
  | some d =>
    cases ht : d.value with
    | none => simp [hd, ht] at hid
    | some t =>
      simp only [hd, ht, Option.bind_eq_bind, Option.bind_some] at hid
      split at hid
      · obtain rfl := Option.some.inj hid
        simp [hd, ht]
      · cases hid

namespace Wired

variable (hw : Wired g g.findInputs g.findOutputs c) (h : g.Linked)
include hw h

theorem findProducer_eq : c.findProducer = g.findProducer := by
  funext v
  refine Option.ext fun n => ?_
  rw [← hw.linked.mem_outputs, hw.outputs, h.mem_outputs]

theorem mem_findConsumers (v : ValueId) : n ∈ c.findConsumers v ↔ n ∈ g.findConsumers v := by
  rw [← hw.linked.mem_inputs, hw.inputs, h.mem_inputs]

theorem isEmpty_findConsumers (v : ValueId) :
    (c.findConsumers v).isEmpty = (g.findConsumers v).isEmpty := by
  have hiff : ∀ {n}, n ∈ c.findConsumers v ↔ n ∈ g.findConsumers v := hw.mem_findConsumers h v
  rw [Bool.eq_iff_iff, List.isEmpty_iff, List.isEmpty_iff, eq_nil_iff_forall_not_mem,
    eq_nil_iff_forall_not_mem]
  exact ⟨fun hnone n => mt hiff.2 (hnone n), fun hnone n => mt hiff.1 (hnone n)⟩

/-- The fields of a value that a filter looks at. -/
theorem fields {d d' : ValueDef Tn} (hd : g.values[v]? = some d) (hd' : c.values[v]? = some d') :
    d'.producer = d.producer ∧ d'.consumers.isEmpty = d.consumers.isEmpty ∧ d'.value = d.value := by
  refine ⟨?_, ?_, ?_⟩
  · have hproducer := congrFun (hw.findProducer_eq h) v
    unfold findProducer at hproducer
    rwa [hd, hd'] at hproducer
  · have hconsumers := hw.isEmpty_findConsumers h v
    unfold findConsumers at hconsumers
    rwa [hd, hd'] at hconsumers
  · have hvalue := congrFun hw.contents.getValue v
    unfold getValue at hvalue
    rwa [hd, hd'] at hvalue

theorem filterValues_eq {predicate : ValueDef Tn → Tn → Bool}
    (hpred : ∀ d d' : ValueDef Tn, d'.producer = d.producer →
      d'.consumers.isEmpty = d.consumers.isEmpty → ∀ t, predicate d' t = predicate d t) :
    c.filterValues predicate = g.filterValues predicate := by
  unfold filterValues
  rw [hw.contents.values]
  refine filterMap_congr fun id hid => ?_
  have hlt := mem_range.1 hid
  have hd := getElem?_eq_getElem hlt
  have hd' := getElem?_eq_getElem (hw.contents.values.symm ▸ hlt : id < c.values.length)
  obtain ⟨hproducer, hconsumers, hvalue⟩ := hw.fields h hd hd'
  rw [hd, hd']
  simp only [Option.bind_eq_bind, Option.bind_some, hvalue, hpred _ _ hproducer hconsumers]

theorem isGraphInput_eq (v : ValueId) : c.isGraphInput v = g.isGraphInput v := by
  unfold GraphFloat32.isGraphInput
  by_cases hlt : v < g.values.length
  · have hd := getElem?_eq_getElem hlt
    have hd' := getElem?_eq_getElem (hw.contents.values.symm ▸ hlt : v < c.values.length)
    rw [hd, hd']
    exact congrArg Option.isNone (hw.fields h hd hd').1
  · rw [getElem?_eq_none (Nat.le_of_not_lt hlt),
      getElem?_eq_none (hw.contents.values.symm ▸ Nat.le_of_not_lt hlt)]

/-- A deleted value that was a known output has no consumer. -/
theorem isGraphOutput_eq (v : ValueId) : c.isGraphOutput v = g.isGraphOutput v := by
  unfold isGraphOutput
  rw [hw.contents.values, hw.isEmpty_findConsumers h]
  split
  · rfl
  by_cases hlive : g.getValue v = none
  · have hnone : g.findConsumers v = [] := eq_nil_iff_forall_not_mem.2 fun n hn =>
      (h.live_input (h.mem_inputs.2 hn)).2 hlive
    rw [hnone, isEmpty_nil, Bool.or_true, Bool.or_true]
  · have hknown : v ∈ c.knownGraphOutputs ↔ v ∈ g.knownGraphOutputs :=
      (hw.contents.known v).trans (and_iff_left hlive)
    simp only [hknown]

theorem outputs_eq : c.outputs = g.outputs := by
  unfold GraphFloat32.outputs
  rw [hw.filterValues_eq h fun _ _ _ hconsumers _ => hconsumers,
    hw.filterValues_eq h fun _ _ _ hconsumers _ => congrArg (!·) hconsumers]
  refine congrArg _ (filter_congr fun p hp => ?_)
  have hlive : g.getValue p.1 ≠ none := by
    rw [mem_filterValues hp]
    exact Option.some_ne_none _
  have hknown : p.1 ∈ c.knownGraphOutputs ↔ p.1 ∈ g.knownGraphOutputs :=
    (hw.contents.known p.1).trans (and_iff_left hlive)
  simp only [hknown]

theorem sameAnswers (isVariableInput : Tn → Bool) : SameAnswers isVariableInput g c where
  executionPlan := hw.contents.executionPlan
  nodes := by
    unfold allNodes
    rw [hw.contents.executionPlan, hw.contents.getNode]
  values := hw.filterValues_eq h fun _ _ _ _ _ => rfl
  inputs := hw.filterValues_eq h fun _ _ hproducer _ _ => congrArg Option.isNone hproducer
  variableInputs := hw.filterValues_eq h fun _ _ _ _ _ => rfl
  outputs := hw.outputs_eq h
  getNode := congrFun hw.contents.getNode
  getValue := congrFun hw.contents.getValue
  findProducer := congrFun (hw.findProducer_eq h)
  findInputs := congrFun hw.inputs
  findOutputs := congrFun hw.outputs
  isGraphInput := hw.isGraphInput_eq h
  isGraphOutput := hw.isGraphOutput_eq h
  findConsumers v _ := hw.mem_findConsumers h v

end Wired

/-- The copy of a linked graph has its lists of inputs and outputs. -/
theorem makeExactCopy_ends (h : g.Linked) (other : GraphFloat32 Op Tn) :
    Ends (makeExactCopy g) other (fun _ c => Wired g g.findInputs g.findOutputs c)
      fun _ _ => False := by
  unfold makeExactCopy
  refine ends_set_bind ?_
  refine Ends.bind_ok (copyValues_eq (Nat.le_refl _)) ?_
  exact (copyNodes_ends h).bind fun _ c hc => wireNodes_ends h hc

/-! ## Later changes -/

section
variable [Inhabited Op] [Inhabited Tn]

/-- Each graph is what its own edits make of it. -/
theorem foldl_eitherEdit (later : List (EitherEdit Op Tn)) (both : Pair Op Tn) :
    later.foldl EitherEdit.apply both =
      ⟨edited (later.filterMap EitherEdit.onOriginal) both.original,
        edited (later.filterMap EitherEdit.onCopy) both.copy⟩ := by
  induction later generalizing both with
  | nil => rfl
  | cons e later ih =>
    rw [foldl_cons, ih]
    cases e <;> rfl

/-- The copy of a graph that edits have made answers as it does, and stays as it is when the
original is edited, as does the original when the copy is. -/
theorem exact_copy (edits : List (Edit Op Tn)) (other : GraphFloat32 Op Tn)
    (isVariableInput : Tn → Bool) :
    ∃ c, makeExactCopy (edited edits GraphFloat32.empty) other = .ok () c ∧
      SameAnswers isVariableInput (edited edits GraphFloat32.empty) c ∧
      ∀ later : List (EitherEdit Op Tn),
        later.foldl EitherEdit.apply ⟨edited edits GraphFloat32.empty, c⟩ =
          ⟨edited (later.filterMap EitherEdit.onOriginal) (edited edits GraphFloat32.empty),
            edited (later.filterMap EitherEdit.onCopy) c⟩ := by
  have h := linked_edited edits
  have hends := makeExactCopy_ends h other
  cases hcopy : makeExactCopy (edited edits GraphFloat32.empty) other with
  | error e c => exact (hends.error hcopy).elim
  | ok u c =>
    exact ⟨c, rfl, (hends.ok hcopy).sameAnswers h isVariableInput, fun later =>
      foldl_eitherEdit later _⟩

end

end LiteRt.GpuGraph
