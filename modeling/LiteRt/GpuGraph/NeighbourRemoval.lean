import LiteRt.GpuGraph.RemovalEdits

/-!
# Removing a node before or after another

Both helpers check the links they are about to cut, and only then edit. An edit that is refused
leaves the graph alone exactly if it is the first.
-/

namespace LiteRt.GpuGraph

open LiteRt.Lib GraphFloat32 Function List

section

variable {Op Tn : Type} {g g' : GraphFloat32 Op Tn} {n k : NodeId} {v : ValueId}

theorem deleteNode_live {E : Stop → GraphFloat32 Op Tn → Prop} (h : g.Linked)
    (hn : g.getNode n ≠ none) : Ends (deleteNode n) g (fun _ g' => NodeDeleted g g' n) E :=
  (deleteNode_ends h n).mono (fun _ _ hend => hend.2) fun _ _ hr => absurd hn hr.2

theorem deleteNode_dead (h : g.Linked) (hn : g.getNode n = none) :
    Ends (deleteNode n) g (fun _ _ => False) (Unchanged g) :=
  (deleteNode_ends h n).mono (fun _ _ hend => absurd hn hend.1) fun _ _ hr => hr.1

/-! ## The preceding node -/

/-- Every end of the removal agrees with `Safe`, and the other nodes stay. -/
theorem removePrecedingNode_ends (h : g.Linked) (toRemove toKeep : NodeId) :
    Ends (removePrecedingNode toRemove toKeep) g
      (fun _ g' => (True ↔ (Removal.precedingNode toRemove toKeep).Safe g) ∧
        ∀ m, m ≠ toRemove → g'.getNode m = g.getNode m)
      fun e g' => Unchanged g e g' ↔ (Removal.precedingNode toRemove toKeep).Safe g := by
  refine ends_get ?_
  by_cases hother : ∃ output ∈ g.findOutputs toRemove, g.HasOtherConsumers toKeep output
  · rw [if_pos hother]
    exact ends_throw ⟨fun _ => .inl hother, fun _ => ⟨rfl, _, rfl⟩⟩
  rw [if_neg hother]
  by_cases hn : g.getNode toRemove = none
  · have hsafe : (Removal.precedingNode toRemove toKeep).Safe g := by
      refine .inr (.inl ?_)
      rw [h.findInputs_dead hn]
      exact fun _ hv => absurd hv not_mem_nil
    rw [h.findInputs_dead hn]
    refine Ends.bind_ok rfl (ends_get ?_)
    rw [h.findOutputs_dead hn]
    exact (deleteNode_dead h hn).mono (fun _ _ => False.elim)
      fun _ _ hsame => iff_of_true hsame hsafe
  have hnodup : (g.findInputs toRemove).Nodup := h.links.inputs_nodup toRemove
  refine Ends.bind ((addConsumers_ends h hnodup).mono (fun _ _ => id) ?_) ?_
  · rintro e g₁ ⟨hstatus, done, v, rest, hsplit, hdone, hv, hreads⟩
    cases done with
    | nil =>
      -- The first input is refused.
      refine iff_of_true ⟨hreads.start rfl, hstatus⟩ (.inr (.inr ⟨v, ?_, hv⟩))
      rw [hsplit]
      rfl
    | cons w done =>
      refine iff_of_false ?_ ?_
      · rintro ⟨rfl, _⟩
        simpa using hreads.inputs
      · rintro (hor | hall | ⟨u, hu, hnot⟩)
        · exact hother hor
        · exact hv (hall v (by simp [hsplit]))
        · rw [hsplit] at hu
          obtain rfl : w = u := Option.some.inj hu
          exact hnot (hdone w mem_cons_self)
  · rintro ⟨⟩ g₁ ⟨hall, hreads⟩
    have hsafe : (Removal.precedingNode toRemove toKeep).Safe g := .inr (.inl hall)
    refine ends_get ?_
    refine (deleteValues_ends hreads.linked (hreads.linked.links.outputs_nodup toRemove)
      fun v hv => (hreads.linked.live_output hv).2).bind ?_
    rintro ⟨⟩ g₂ hdel
    refine (deleteNode_live hdel.linked ?_).mono (fun _ _ hnode => ?_) fun _ _ => id
    · rwa [hdel.getNode, hreads.getNode]
    · refine ⟨iff_of_true trivial hsafe, fun m hm => ?_⟩
      rw [hnode.getNode, update_of_ne hm, hdel.getNode, hreads.getNode]

/-! ## The following node -/

theorem checkProducer_ends (k : NodeId) (v : ValueId) :
    Ends (checkProducer k v) g (fun _ g' => g' = g ∧ g.findProducer v = some k)
      fun e g' => g' = g ∧ g.findProducer v ≠ some k ∧
        ((∃ status, e = .error status) ↔ g.findProducer v ≠ none) := by
  refine ends_get ?_
  cases hp : g.findProducer v with
  | none => exact ends_throw ⟨rfl, by simp, by simp⟩
  | some p =>
    by_cases hpk : p = k
    · change Ends (if p ≠ k then fail _ _ else pure ()) g _ _
      rw [if_neg (not_not.2 hpk)]
      exact ends_pure ⟨rfl, congrArg some hpk⟩
    · change Ends (if p ≠ k then fail _ _ else pure ()) g _ _
      rw [if_pos hpk]
      exact ends_throw ⟨rfl, by simpa using hpk, by simp⟩

theorem checkProducers_ends (l : List ValueId) :
    Ends (l.forM fun input => checkProducer k input) g
      (fun _ g' => g' = g ∧ ∀ v ∈ l, g.findProducer v = some k)
      fun e g' => g' = g ∧ ∃ v, l.find? (fun input => g.findProducer input ≠ some k) = some v ∧
        ((∃ status, e = .error status) ↔ g.findProducer v ≠ none) := by
  induction l with
  | nil => exact ends_pure ⟨rfl, fun _ hv => absurd hv not_mem_nil⟩
  | cons v l ih =>
    refine Ends.bind ((checkProducer_ends k v).mono (fun _ _ => id) ?_) ?_
    · rintro e g' ⟨rfl, hp, hstatus⟩
      exact ⟨rfl, v, find?_cons_of_pos (by simpa using hp), hstatus⟩
    · rintro ⟨⟩ g' ⟨rfl, hp⟩
      refine ih.mono ?_ ?_
      · rintro ⟨⟩ g' ⟨rfl, hall⟩
        exact ⟨rfl, forall_mem_cons.2 ⟨hp, hall⟩⟩
      · rintro e g' ⟨rfl, w, hfind, hstatus⟩
        refine ⟨rfl, w, ?_, hstatus⟩
        rw [find?_cons_of_neg (by simp [hp]), hfind]

/-- Every end of the removal agrees with `Safe`, and the other nodes stay. -/
theorem removeFollowingNode_ends (h : g.Linked) (toRemove toKeep : NodeId) :
    Ends (removeFollowingNode toRemove toKeep) g
      (fun _ g' => (True ↔ (Removal.followingNode toRemove toKeep).Safe g) ∧
        ∀ m, m ≠ toRemove → g'.getNode m = g.getNode m)
      fun e g' => Unchanged g e g' ↔ (Removal.followingNode toRemove toKeep).Safe g := by
  refine ends_get ?_
  refine Ends.bind ((checkProducers_ends (g.findInputs toRemove)).mono (fun _ _ => id) ?_) ?_
  · rintro e g' ⟨hg, v, hfind, hstatus⟩
    simp only [Removal.Safe]
    rw [hfind]
    exact ⟨fun hsame => hstatus.1 hsame.2, fun hp => ⟨hg, hstatus.2 hp⟩⟩
  rintro ⟨⟩ g' ⟨hg, hproducer⟩
  obtain rfl : g = g' := hg.symm
  have hfind : (g.findInputs toRemove).find?
      (fun input => g.findProducer input ≠ some toKeep) = none :=
    find?_eq_none.2 fun v hv => by simp [hproducer v hv]
  have hsafe : (Removal.followingNode toRemove toKeep).Safe g ↔
      (∀ output ∈ g.findOutputs toRemove, Unlinked g toKeep output) ∨ (g.findInputs toRemove = [] ∧
          FirstOrNone (Unlinked g toKeep) (g.findOutputs toRemove)) := by
    simp only [Removal.Safe]
    rw [hfind]
  rw [hsafe]
  have hnodup : (g.findInputs toRemove).Nodup := h.links.inputs_nodup toRemove
  refine (deleteValues_ends h hnodup fun v hv => (h.live_input hv).2).bind ?_
  rintro ⟨⟩ g₁ hdel
  -- The deleted values were read by `toRemove` and written by `toKeep`.
  have houtput : ∀ v ∈ g.findOutputs toRemove, v ∉ g.findInputs toRemove :=
    fun v hv hin => h.separate hin (h.mem_outputs.1 hv)
  have houtputs : g₁.findOutputs toRemove = g.findOutputs toRemove := hdel.outputs _ houtput
  have hinputs : g₁.findInputs toKeep = g.findInputs toKeep :=
    hdel.inputs _ fun v hv hin => h.separate hv (hproducer v hin)
  have hunlinked : ∀ v ∈ g.findOutputs toRemove, (Unlinked g₁ toKeep v ↔ Unlinked g toKeep v) := by
    intro v hv
    have hnot := houtput v hv
    have hvalue : g₁.getValue v = g.getValue v := by
      rw [hdel.getValue, if_neg hnot]
    constructor
    · intro hpre
      exact ⟨hdel.getNode ▸ hpre.node, hvalue ▸ hpre.value, hinputs ▸ hpre.input,
        hdel.producer v hnot ▸ hpre.producer⟩
    · intro hpre
      refine ⟨hdel.getNode ▸ hpre.node, hvalue ▸ hpre.value, hinputs ▸ hpre.input, ?_⟩
      rw [hdel.producer v hnot]
      exact hpre.producer
  refine ends_get ?_
  rw [houtputs]
  have hnodup' : (g.findOutputs toRemove).Nodup := h.links.outputs_nodup toRemove
  refine Ends.bind ((setProducers_ends hdel.linked hnodup').mono (fun _ _ => id) ?_) ?_
  · rintro e g₂ ⟨hstatus, done, v, rest, hsplit, hdone, hv, hwrites⟩
    have hmem : ∀ w ∈ done ++ [v], w ∈ g.findOutputs toRemove := by
      intro w hw
      rw [hsplit, append_cons]
      exact mem_append_left _ hw
    have hv' : ¬Unlinked g toKeep v := by
      rwa [← hunlinked v (hmem v (by simp))]
    have hnotall : ¬∀ output ∈ g.findOutputs toRemove, Unlinked g toKeep output :=
      fun hall => hv' (hall v (hmem v (by simp)))
    cases hins : g.findInputs toRemove with
    | cons u us =>
      refine iff_of_false ?_ (by simpa using hnotall)
      rintro ⟨hsame, _⟩
      have hu : u ∈ g.findInputs toRemove := hins ▸ mem_cons_self
      refine (h.live_input hu).2 ?_
      rw [← hsame, hwrites.getValue, hdel.getValue, if_pos hu]
    | nil =>
      have hg₁ := hdel.start hins
      subst hg₁
      cases done with
      | nil =>
        refine iff_of_true ⟨hwrites.start rfl, hstatus⟩ (.inr ⟨rfl, .inr ⟨v, ?_, hv'⟩⟩)
        rw [hsplit]
        rfl
      | cons w done =>
        have hw := hdone w mem_cons_self
        refine iff_of_false ?_ ?_
        · rintro ⟨rfl, _⟩
          refine hw.producer ?_
          rw [hwrites.producer, if_pos mem_cons_self]
        · rintro (hall | ⟨_, hall | ⟨u, hu, hnot⟩⟩)
          · exact hnotall hall
          · exact hnotall hall
          · rw [hsplit] at hu
            obtain rfl : w = u := Option.some.inj hu
            exact hnot hw
  · rintro ⟨⟩ g₂ ⟨hall, hwrites⟩
    have hall' : ∀ output ∈ g.findOutputs toRemove, Unlinked g toKeep output :=
      fun v hv => (hunlinked v hv).1 (hall v hv)
    by_cases hn : g.getNode toRemove = none
    · have hg₁ := hdel.start (h.findInputs_dead hn)
      have hg₂ := hwrites.start (h.findOutputs_dead hn)
      subst hg₁ hg₂
      exact (deleteNode_dead h hn).mono (fun _ _ => False.elim)
        fun _ _ hsame => iff_of_true hsame (.inl hall')
    · refine (deleteNode_live hwrites.linked ?_).mono (fun _ _ hnode => ?_) fun _ _ => id
      · rwa [hwrites.getNode, hdel.getNode]
      · refine ⟨iff_of_true trivial (.inl hall'), fun m hm => ?_⟩
        rw [hnode.getNode, update_of_ne hm, hwrites.getNode, hdel.getNode]

end

/-!
## Taking out a node with one input and one output

With the input kept, the consumers of the output are moved to it one after the other. With the
output kept, the producer of the input writes it instead, after its other outputs.
-/

variable {Op Tn : Type} {g g' : GraphFloat32 Op Tn} {n k : NodeId} {x y v : ValueId}

section
variable {α : Type*} [DecidableEq α] {l : List α} {a b : α}

theorem replace_eq_map (h : l.Nodup) (a b : α) :
    l.replace a b = l.map fun c => if c = a then b else c := by
  induction l with
  | nil => rfl
  | cons c l ih =>
    obtain ⟨hc, hl⟩ := nodup_cons.1 h
    by_cases hca : c = a
    · subst hca
      have hrest : (l.map fun d => if d = c then b else d) = l := by
        refine (map_congr_left fun d hd => ?_).trans (map_id l)
        exact if_neg (ne_of_mem_of_not_mem hd hc)
      rw [replace_cons_self, map_cons, if_pos rfl, hrest]
    · have hbeq : (c == a) = false := beq_eq_false_iff_ne.2 hca
      have hbeq' : (a == c) = false := beq_eq_false_iff_ne.2 (Ne.symm hca)
      simp only [replace_cons, hbeq', map_cons, if_neg hca, ih hl]

theorem map_replace_of_not_mem (h : a ∉ l) : (l.map fun c => if c = a then b else c) = l :=
  (map_congr_left fun _ hc => if_neg (ne_of_mem_of_not_mem hc h)).trans (map_id l)

/-- What leaves a list and is added at its end has been the last. -/
theorem erase_concat_eq_map_iff (h : l.Nodup) (ha : a ∈ l) (hb : b ∉ l) :
    l.erase a ++ [b] = (l.map fun c => if c = a then b else c) ↔ l.getLast? = some a := by
  constructor
  · intro heq
    have hlast := congrArg List.getLast? heq
    rw [getLast?_concat, getLast?_map] at hlast
    cases hl : l.getLast? with
    | none => simp [hl] at hlast
    | some c =>
      rw [hl, Option.map_some, Option.some.injEq] at hlast
      by_cases hca : c = a
      · rw [hca]
      · rw [if_neg hca] at hlast
        exact absurd (mem_of_getLast? hl) (hlast ▸ hb)
  · intro hlast
    obtain ⟨l', rfl⟩ := getLast?_eq_some_iff.1 hlast
    have ha' : a ∉ l' := by
      rw [nodup_append_comm] at h
      exact (nodup_cons.1 h).1
    rw [map_append, map_replace_of_not_mem ha', erase_append_right _ ha']
    simp

end

theorem forall_singletons {l l' : List ValueId} (hl : l = [x]) (hl' : l' = [y])
    {P : ValueId → ValueId → Prop} : (∀ a b, l = [a] → l' = [b] → P a b) ↔ P x y := by
  constructor
  · intro h
    exact h x y hl hl'
  · rintro h a b ha hb
    obtain rfl : x = a := singleton_inj.1 (hl.symm.trans ha)
    obtain rfl : y = b := singleton_inj.1 (hl'.symm.trans hb)
    exact h

/-! ### The graph without the node -/

/-- `n` reads `x` only and writes `y` only. -/
structure Simple (g : GraphFloat32 Op Tn) (n : NodeId) (x y : ValueId) : Prop where
  linked : g.Linked
  input : g.findInputs n = [x]
  output : g.findOutputs n = [y]

namespace Simple

theorem mem_input (h : Simple g n x y) : x ∈ g.findInputs n := h.input ▸ mem_singleton_self x

theorem mem_output (h : Simple g n x y) : y ∈ g.findOutputs n :=
  h.output ▸ mem_singleton_self y

theorem producer_output (h : Simple g n x y) : g.findProducer y = some n :=
  h.linked.mem_outputs.1 h.mem_output

theorem producer_input (h : Simple g n x y) : g.findProducer x ≠ some n :=
  h.linked.separate h.mem_input

theorem ne (h : Simple g n x y) : x ≠ y := by
  rintro rfl
  exact h.producer_input h.producer_output

theorem live (h : Simple g n x y) : g.getNode n ≠ none := (h.linked.live_input h.mem_input).1

/-- The node reads none of the consumers' values. -/
theorem ne_of_consumer (h : Simple g n x y) (hk : k ∈ g.findConsumers y) : k ≠ n := by
  rintro rfl
  exact h.linked.separate (h.linked.mem_inputs.2 hk) h.producer_output

theorem not_mem_outputs (h : Simple g n x y) (hk : k ≠ n) : y ∉ g.findOutputs k := by
  rw [h.linked.mem_outputs, h.producer_output]
  exact fun heq => hk (Option.some.inj heq).symm

end Simple

namespace NodeDeleted

theorem findInputs (h : NodeDeleted g g' n) (hk : k ≠ n) : g'.findInputs k = g.findInputs k := by
  have hinputs : g'.findInputs = _ := congrArg Links.inputs h.links
  rw [hinputs]
  exact update_of_ne hk _ _

theorem findOutputs (h : NodeDeleted g g' n) (hk : k ≠ n) :
    g'.findOutputs k = g.findOutputs k := by
  have houtputs : g'.findOutputs = _ := congrArg Links.outputs h.links
  rw [houtputs]
  exact update_of_ne hk _ _

theorem findProducer (h : NodeDeleted g g' n) (hv : g.findProducer v ≠ some n) :
    g'.findProducer v = g.findProducer v := by
  have hproducer : g'.findProducer = _ := congrArg Links.producer h.links
  rw [hproducer]
  exact if_neg hv

theorem findProducer_none (h : NodeDeleted g g' n) (hv : g.findProducer v = some n) :
    g'.findProducer v = none := by
  have hproducer : g'.findProducer = _ := congrArg Links.producer h.links
  rw [hproducer]
  exact if_pos hv

theorem findConsumers (h : NodeDeleted g g' n) (hv : n ∉ g.findConsumers v) :
    g'.findConsumers v = g.findConsumers v := by
  have hconsumers : g'.findConsumers = _ := congrArg Links.consumers h.links
  rw [hconsumers]
  exact erase_of_not_mem hv

theorem getNode_of_ne (h : NodeDeleted g g' n) (hk : k ≠ n) : g'.getNode k = g.getNode k := by
  rw [h.getNode, update_of_ne hk]

theorem getNode_self (h : NodeDeleted g g' n) : g'.getNode n = none := by
  rw [h.getNode, update_self]

end NodeDeleted

namespace ValueDeleted

theorem findInputs (h : ValueDeleted g g' v) (k : NodeId) :
    g'.findInputs k = (g.findInputs k).erase v := by
  have hinputs : g'.findInputs = _ := congrArg Links.inputs h.links
  rw [hinputs]
  rfl

theorem findOutputs (h : ValueDeleted g g' v) (k : NodeId) :
    g'.findOutputs k = (g.findOutputs k).erase v := by
  have houtputs : g'.findOutputs = _ := congrArg Links.outputs h.links
  rw [houtputs]
  rfl

theorem findConsumers (h : ValueDeleted g g' v) (hx : x ≠ v) :
    g'.findConsumers x = g.findConsumers x := by
  have hconsumers : g'.findConsumers = _ := congrArg Links.consumers h.links
  rw [hconsumers]
  exact update_of_ne hx _ _

theorem getValue_of_ne (h : ValueDeleted g g' v) (hx : x ≠ v) :
    g'.getValue x = g.getValue x := by
  rw [h.getValue, update_of_ne hx]

theorem getValue_self (h : ValueDeleted g g' v) : g'.getValue v = none := by
  rw [h.getValue, update_self]

end ValueDeleted

theorem deleteValue_live {E : Stop → GraphFloat32 Op Tn → Prop} (h : g.Linked)
    (hv : g.getValue v ≠ none) : Ends (deleteValue v) g (fun _ g' => ValueDeleted g g' v) E :=
  (deleteValue_ends h v).mono (fun _ _ hend => hend.2) fun _ _ hr => absurd hv hr.2

/-- A graph without the node is another one. -/
theorem not_unchanged {e : Stop} (h : g.getNode n ≠ none) (hnone : g'.getNode n = none) :
    ¬Unchanged g e g' := by
  rintro ⟨rfl, _⟩
  exact h hnone

/-! ### Moving the consumers -/

/-- The nodes of `done` read `new` in the place of `old`. -/
structure Replaced (g g' : GraphFloat32 Op Tn) (old new : ValueId) (done : List NodeId) :
    Prop where
  linked : g'.Linked
  inputs : ∀ k, g'.findInputs k =
    if k ∈ done then (g.findInputs k).replace old new else g.findInputs k
  outputs : g'.findOutputs = g.findOutputs
  producer : g'.findProducer = g.findProducer
  getNode : g'.getNode = g.getNode
  getValue : g'.getValue = g.getValue

theorem Replaced.unlinked_iff {old new : ValueId} {done : List NodeId}
    (hrep : Replaced g g' old new done) (hk : k ∉ done) :
    Unlinked g' k new ↔ Unlinked g k new := by
  have hinputs : g'.findInputs k = g.findInputs k := by
    rw [hrep.inputs, if_neg hk]
  constructor
  · intro h
    exact ⟨hrep.getNode ▸ h.node, hrep.getValue ▸ h.value, hinputs ▸ h.input,
      hrep.producer ▸ h.producer⟩
  · intro h
    refine ⟨hrep.getNode ▸ h.node, hrep.getValue ▸ h.value, ?_, hrep.producer ▸ h.producer⟩
    rw [hinputs]
    exact h.input

theorem replaceInputs_ends {old new : ValueId} {l : List NodeId} (h : g.Linked)
    (hnodup : l.Nodup) (hold : ∀ k ∈ l, old ∈ g.findInputs k) :
    Ends (l.forM fun k => replaceInput k old new) g
      (fun _ g' => (∀ k ∈ l, Unlinked g k new) ∧ Replaced g g' old new l)
      fun e g' => (∃ status, e = .error status) ∧ ∃ done k rest, l = done ++ k :: rest ∧
        (∀ m ∈ done, Unlinked g m new) ∧ ¬Unlinked g k new ∧ Replaced g g' old new done := by
  refine forM_ends (P := fun done g' => Replaced g g' old new done) ?_ ?_
  · exact ⟨h, fun k => (if_neg not_mem_nil).symm, rfl, rfl, rfl, rfl⟩
  · intro done k rest hsplit g₁ hrep
    have hk : k ∉ done := not_mem_done hnodup hsplit
    have hin : old ∈ g₁.findInputs k := by
      rw [hrep.inputs, if_neg hk]
      exact hold k (hsplit ▸ mem_append_right _ mem_cons_self)
    rw [← hrep.unlinked_iff hk]
    refine (replaceInput_ends hrep.linked k old new).mono ?_
      fun _ _ hr => ⟨hr.1.2, hr.1.1, fun hpre => hr.2 ⟨hin, hpre⟩⟩
    rintro ⟨⟩ g₂ ⟨⟨_, hpre⟩, hrel⟩
    have hlinks := hrel.links
    refine ⟨hpre, hrel.linked_replaceInput hrep.linked hin hpre, ?_,
      (congrArg Links.outputs hlinks).trans hrep.outputs,
      (congrArg Links.producer hlinks).trans hrep.producer,
      hrel.getNode.trans hrep.getNode, hrel.getValue.trans hrep.getValue⟩
    intro m
    have hinputs : g₂.findInputs = _ := congrArg Links.inputs hlinks
    rw [hinputs]
    change update g₁.findInputs k ((g₁.findInputs k).replace old new) m = _
    by_cases hm : m = k
    · subst hm
      rw [update_self, hrep.inputs, if_neg hk, if_pos (by simp)]
    · rw [update_of_ne hm, hrep.inputs]
      simp [hm]

end LiteRt.GpuGraph
