import LiteRt.GpuGraph.Graph

/-!
# What the mutators do

On a linked graph a mutator either reports a status and changes nothing, or does one operation
on the links. Nothing is erased that is not there.
-/

namespace LiteRt.GpuGraph

open LiteRt.Lib GraphFloat32 List

variable {Op Tn : Type} {g g' : GraphFloat32 Op Tn} {n : NodeId} {v : ValueId}
  {E : Stop → GraphFloat32 Op Tn → Prop} {l : List ValueId}

namespace GraphFloat32

/-- The graph whose value is no longer listed by its producer. -/
def withoutOutput (g : GraphFloat32 Op Tn) (v : ValueId) : GraphFloat32 Op Tn :=
  match g.findProducer v with
  | some producer => g.setOutputs producer ((g.findOutputs producer).erase v)
  | none => g

/-- Only the outputs of nodes are other ones. -/
structure SameButOutputs (g g' : GraphFloat32 Op Tn) : Prop where
  producer : g'.findProducer = g.findProducer
  consumers : g'.findConsumers = g.findConsumers
  inputs : g'.findInputs = g.findInputs
  getNode : g'.getNode = g.getNode
  getValue : g'.getValue = g.getValue
  executionPlan : g'.executionPlan = g.executionPlan
  nodes : g'.nodes.length = g.nodes.length
  values : g'.values.length = g.values.length
  known : g'.knownGraphOutputs = g.knownGraphOutputs

theorem sameButOutputs_withoutOutput (g : GraphFloat32 Op Tn) (v : ValueId) :
    SameButOutputs g (g.withoutOutput v) := by
  unfold withoutOutput
  split
  · refine ⟨rfl, rfl, g.findInputs_setOutputs _ _, g.getNode_setOutputs _ _, rfl, rfl, ?_, rfl,
      rfl⟩
    exact length_modify _ _ _
  · exact ⟨rfl, rfl, rfl, rfl, rfl, rfl, rfl, rfl, rfl⟩

theorem Linked.findOutputs_withoutOutput (h : g.Linked) (v : ValueId) :
    (g.withoutOutput v).findOutputs = fun n => (g.findOutputs n).erase v := by
  unfold withoutOutput
  split
  · rename_i producer hproducer
    have hout := h.mem_outputs.2 hproducer
    rw [g.findOutputs_setOutputs (lt_of_getNode (h.live_output hout).1)]
    funext m
    by_cases hm : m = producer
    · subst hm
      rw [Function.update_self]
    · have hnot : v ∉ g.findOutputs m := by
        rw [h.mem_outputs, hproducer, Option.some.injEq]
        exact Ne.symm hm
      rw [Function.update_of_ne hm, erase_of_not_mem hnot]
  · rename_i hnone
    funext m
    have hnot : v ∉ g.findOutputs m := by
      rw [h.mem_outputs, hnone]
      simp
    rw [erase_of_not_mem hnot]

end GraphFloat32

theorem eraseFromProducer_eq (h : g.Linked) (v : ValueId) :
    eraseFromProducer v g = .ok () (g.withoutOutput v) := by
  change (match g.findProducer v with
    | some producer => eraseOutput producer v
    | none => pure () : GraphM Op Tn Unit) g = _
  unfold withoutOutput
  cases hproducer : g.findProducer v with
  | some producer => exact eraseOutput_eq (h.mem_outputs.2 hproducer)
  | none => rfl

/-- A live node and a live value with no link between them. -/
structure Unlinked (g : GraphFloat32 Op Tn) (n : NodeId) (v : ValueId) : Prop where
  node : g.getNode n ≠ none
  value : g.getValue v ≠ none
  input : v ∉ g.findInputs n
  producer : g.findProducer v ≠ some n

theorem setProducer_ends (h : g.Linked) (n : NodeId) (v : ValueId) :
    Ends (setProducer n v) g (fun _ g' => Unlinked g n v ∧ Relinks g g' (g.links.setProducer n v))
      (Refused g (Unlinked g n v)) := by
  refine ends_lookupValue (·.value) fun hv => ends_lookupNode (·.node) fun hn => ends_get ?_
  by_cases hp : g.findProducer v = some n
  · rw [if_pos hp]
    exact ends_fail fun hpre => hpre.producer hp
  rw [if_neg hp]
  by_cases hin : g.isInput n v = true
  · rw [if_pos hin]
    exact ends_fail fun hpre => hpre.input ((isInput_iff h).1 hin)
  rw [if_neg hin]
  have hsame := g.sameButOutputs_withoutOutput v
  refine Ends.bind_ok (eraseFromProducer_eq h v) (ends_modify_bind (ends_modify ?_))
  refine ⟨⟨hn, hv, fun hmem => hin ((isInput_iff h).2 hmem), hp⟩, ?_⟩
  have hlt : n < ((g.withoutOutput v).setProducerOf v (some n)).nodes.length := by
    change n < (g.withoutOutput v).nodes.length
    rw [hsame.nodes]
    exact lt_of_getNode hn
  have hvlt : v < (g.withoutOutput v).values.length := by
    rw [hsame.values]
    exact lt_of_getValue hv
  have houtputs : ((g.withoutOutput v).setProducerOf v (some n)).findOutputs =
      fun m => (g.findOutputs m).erase v :=
    h.findOutputs_withoutOutput v
  constructor
  · refine Links.ext ?_ ?_ ?_ ?_
    · change ((g.withoutOutput v).setProducerOf v (some n)).findProducer = _
      rw [findProducer_setProducerOf _ hvlt, hsame.producer]
      rfl
    · change ((g.withoutOutput v).setProducerOf v (some n)).findConsumers = _
      rw [findConsumers_setProducerOf, hsame.consumers]
      rfl
    · change (GraphFloat32.setOutputs _ n _).findInputs = _
      rw [findInputs_setOutputs]
      exact hsame.inputs
    · change (GraphFloat32.setOutputs _ n _).findOutputs = _
      rw [findOutputs_setOutputs _ hlt, houtputs]
      funext m
      by_cases hm : m = n
      · subst hm
        simp [Links.setProducer, GraphFloat32.links]
      · simp [Links.setProducer, GraphFloat32.links, hm]
  · rw [getNode_setOutputs]
    exact hsame.getNode
  · change ((g.withoutOutput v).setProducerOf v (some n)).getValue = _
    rw [getValue_setProducerOf, hsame.getValue]
  · exact hsame.executionPlan
  · change (List.modify _ _ _).length = _
    rw [length_modify]
    exact hsame.nodes
  · exact hsame.known

theorem removeProducer_ends (h : g.Linked) (v : ValueId) :
    Ends (removeProducer v) g (fun _ g' => Relinks g g' (g.links.removeProducer v))
      (Refused g (g.findProducer v ≠ none)) := by
  have hlive : g.findProducer v ≠ none → g.getValue v ≠ none := by
    intro hp
    obtain ⟨n, hn⟩ := Option.ne_none_iff_exists'.1 hp
    exact (h.live_output (h.mem_outputs.2 hn)).2
  refine ends_lookupValue hlive fun hv => ends_get ?_
  by_cases hp : g.findProducer v = none
  · rw [if_pos hp]
    exact ends_fail fun hpre => hpre hp
  rw [if_neg hp]
  have hsame := g.sameButOutputs_withoutOutput v
  refine Ends.bind_ok (eraseFromProducer_eq h v) (ends_modify ?_)
  have hvlt : v < (g.withoutOutput v).values.length := by
    rw [hsame.values]
    exact lt_of_getValue hv
  constructor
  · refine Links.ext ?_ ?_ ?_ ?_
    · change ((g.withoutOutput v).setProducerOf v none).findProducer = _
      rw [findProducer_setProducerOf _ hvlt, hsame.producer]
      rfl
    · change ((g.withoutOutput v).setProducerOf v none).findConsumers = _
      rw [findConsumers_setProducerOf, hsame.consumers]
      rfl
    · exact hsame.inputs
    · exact h.findOutputs_withoutOutput v
  · exact hsame.getNode
  · rw [getValue_setProducerOf, hsame.getValue]
  · exact hsame.executionPlan
  · exact hsame.nodes
  · exact hsame.known

theorem addConsumer_ends (h : g.Linked) (n : NodeId) (v : ValueId) :
    Ends (addConsumer n v) g (fun _ g' => Unlinked g n v ∧ Relinks g g' (g.links.addConsumer n v))
      (Refused g (Unlinked g n v)) := by
  refine ends_lookupValue (·.value) fun hv => ends_lookupNode (·.node) fun hn => ends_get ?_
  by_cases hp : g.findProducer v = some n
  · rw [if_pos hp]
    exact ends_fail fun hpre => hpre.producer hp
  rw [if_neg hp]
  by_cases hin : g.isInput n v = true
  · rw [if_pos hin]
    exact ends_fail fun hpre => hpre.input ((isInput_iff h).1 hin)
  rw [if_neg hin]
  refine ends_modify_bind (ends_modify ?_)
  refine ⟨⟨hn, hv, fun hmem => hin ((isInput_iff h).2 hmem), hp⟩, ?_⟩
  constructor
  · refine Links.ext (findProducer_setConsumers _ v _) ?_ ?_ ?_
    · exact findConsumers_setConsumers (g.setInputs n (g.findInputs n ++ [v])) (lt_of_getValue hv) _
    · exact g.findInputs_setInputs (lt_of_getNode hn) _
    · exact g.findOutputs_setInputs n _
  · exact g.getNode_setInputs n _
  · exact getValue_setConsumers (g.setInputs n (g.findInputs n ++ [v])) v _
  · rfl
  · exact length_modify _ _ _
  · rfl

theorem removeConsumer_ends (h : g.Linked) (n : NodeId) (v : ValueId) :
    Ends (removeConsumer n v) g
      (fun _ g' => v ∈ g.findInputs n ∧ Relinks g g' (g.links.removeConsumer n v))
      (Refused g (v ∈ g.findInputs n)) := by
  refine ends_lookupValue (fun hpre => (h.live_input hpre).2) fun hv =>
    ends_lookupNode (fun hpre => (h.live_input hpre).1) fun hn => ends_get ?_
  by_cases hin : g.isInput n v = true
  · rw [if_neg (not_not.2 hin)]
    have hmem := (isInput_iff h).1 hin
    refine Ends.bind_ok (eraseInput_eq hmem) ?_
    have hconsumer : n ∈ (g.setInputs n ((g.findInputs n).erase v)).findConsumers v :=
      h.mem_inputs.1 hmem
    refine ends_of_eq_ok (eraseConsumer_eq hconsumer) ⟨hmem, ?_⟩
    constructor
    · refine Links.ext (findProducer_setConsumers _ v _) ?_ ?_ ?_
      · exact findConsumers_setConsumers _ (lt_of_getValue hv) _
      · exact g.findInputs_setInputs (lt_of_getNode hn) _
      · exact g.findOutputs_setInputs n _
    · exact g.getNode_setInputs n _
    · exact getValue_setConsumers _ v _
    · rfl
    · exact length_modify _ _ _
    · rfl
  · rw [if_pos hin]
    exact ends_fail fun hpre => hin ((isInput_iff h).2 hpre)

theorem replaceInput_ends (h : g.Linked) (n : NodeId) (old new : ValueId) :
    Ends (replaceInput n old new) g (fun _ g' => (old ∈ g.findInputs n ∧ Unlinked g n new) ∧
        Relinks g g' (g.links.replaceInput n old new))
      (Refused g (old ∈ g.findInputs n ∧ Unlinked g n new)) := by
  refine ends_lookupValue (fun hpre => (h.live_input hpre.1).2) fun hold =>
    ends_lookupValue (fun hpre => hpre.2.value) fun hnew =>
    ends_lookupNode (fun hpre => hpre.2.node) fun hn => ends_get ?_
  by_cases hin : g.isInput n old = true
  swap
  · rw [if_pos hin]
    exact ends_fail fun hpre => hin ((isInput_iff h).2 hpre.1)
  rw [if_neg (not_not.2 hin)]
  by_cases hin' : g.isInput n new = true
  · rw [if_pos hin']
    exact ends_fail fun hpre => hpre.2.input ((isInput_iff h).1 hin')
  rw [if_neg hin']
  by_cases hp : g.findProducer new = some n
  · rw [if_pos hp]
    exact ends_fail fun hpre => hpre.2.producer hp
  rw [if_neg hp]
  have hmem := (isInput_iff h).1 hin
  have hnot : new ∉ g.findInputs n := fun hmem' => hin' ((isInput_iff h).2 hmem')
  have hne : old ≠ new := fun heq => hnot (heq ▸ hmem)
  refine ends_modify_bind (ends_modify_bind ?_)
  have hconsumers : ((g.setInputs n ((g.findInputs n).replace old new)).setConsumers new
      (g.findConsumers new ++ [n])).findConsumers =
      Function.update g.findConsumers new (g.findConsumers new ++ [n]) :=
    findConsumers_setConsumers _ (lt_of_getValue hnew) _
  have hconsumer : n ∈ ((g.setInputs n ((g.findInputs n).replace old new)).setConsumers new
      (g.findConsumers new ++ [n])).findConsumers old := by
    rw [hconsumers, Function.update_of_ne hne]
    exact h.mem_inputs.1 hmem
  refine ends_of_eq_ok (eraseConsumer_eq hconsumer) ⟨⟨hmem, hn, hnew, hnot, hp⟩, ?_⟩
  have hlt : old < ((g.setInputs n ((g.findInputs n).replace old new)).setConsumers new
      (g.findConsumers new ++ [n])).values.length := by
    change old < (List.modify _ _ _).length
    rw [length_modify]
    exact lt_of_getValue hold
  constructor
  · refine Links.ext ?_ ?_ ?_ ?_
    · exact (findProducer_setConsumers _ old _).trans (findProducer_setConsumers _ new _)
    · have hsame : (g.setInputs n ((g.findInputs n).replace old new)).findConsumers new =
          g.findConsumers new := rfl
      change (GraphFloat32.setConsumers _ old _).findConsumers = _
      rw [hsame, findConsumers_setConsumers _ hlt, hconsumers]
      funext w
      by_cases hw : w = new
      · subst hw
        simp [Links.replaceInput, GraphFloat32.links, Ne.symm hne]
      · by_cases hw' : w = old
        · subst hw'
          simp [Links.replaceInput, GraphFloat32.links, hne]
        · simp [Links.replaceInput, GraphFloat32.links, hw, hw']
    · exact g.findInputs_setInputs (lt_of_getNode hn) _
    · exact g.findOutputs_setInputs n _
  · exact g.getNode_setInputs n _
  · exact (getValue_setConsumers _ old _).trans (getValue_setConsumers _ new _)
  · rfl
  · exact length_modify _ _ _
  · rfl

/-! ## Deletions -/

/-- Only fields of values other than the tensors are other ones. -/
structure SameNodes (g g' : GraphFloat32 Op Tn) : Prop where
  nodes : g'.nodes = g.nodes
  getValue : g'.getValue = g.getValue
  executionPlan : g'.executionPlan = g.executionPlan
  values : g'.values.length = g.values.length
  known : g'.knownGraphOutputs = g.knownGraphOutputs

theorem SameNodes.trans {g₁ g₂ g₃ : GraphFloat32 Op Tn} (h : SameNodes g₁ g₂)
    (h' : SameNodes g₂ g₃) : SameNodes g₁ g₃ :=
  ⟨h'.nodes.trans h.nodes, h'.getValue.trans h.getValue,
    h'.executionPlan.trans h.executionPlan, h'.values.trans h.values, h'.known.trans h.known⟩

theorem sameNodes_setConsumers (g : GraphFloat32 Op Tn) (v : ValueId) (l : List NodeId) :
    SameNodes g (g.setConsumers v l) :=
  ⟨rfl, g.getValue_setConsumers v l, rfl, length_modify _ _ _, rfl⟩

theorem sameNodes_setProducerOf (g : GraphFloat32 Op Tn) (v : ValueId) (p : Option NodeId) :
    SameNodes g (g.setProducerOf v p) :=
  ⟨rfl, g.getValue_setProducerOf v p, rfl, length_modify _ _ _, rfl⟩

theorem eraseConsumers_ends (hnodup : l.Nodup) (hmem : ∀ v ∈ l, n ∈ g.findConsumers v)
    (hlt : ∀ v ∈ l, v < g.values.length) :
    Ends (l.forM fun v => eraseConsumer v n) g
      (fun _ g' => SameNodes g g' ∧ g'.findProducer = g.findProducer ∧ ∀ v, g'.findConsumers v =
          if v ∈ l then (g.findConsumers v).erase n else g.findConsumers v) E := by
  induction l generalizing g with
  | nil => exact ends_pure ⟨⟨rfl, rfl, rfl, rfl, rfl⟩, rfl, fun v => by simp⟩
  | cons v l ih =>
    obtain ⟨hv, hl⟩ := nodup_cons.1 hnodup
    have hvlt := hlt v mem_cons_self
    have hconsumers := g.findConsumers_setConsumers hvlt ((g.findConsumers v).erase n)
    refine Ends.bind_ok (eraseConsumer_eq (hmem v mem_cons_self)) ?_
    refine (ih hl ?_ ?_).mono ?_ fun _ _ => id
    · intro w hw
      have hne : w ≠ v := fun heq => hv (heq ▸ hw)
      rw [hconsumers, Function.update_of_ne hne]
      exact hmem w (mem_cons_of_mem _ hw)
    · intro w hw
      rw [(sameNodes_setConsumers g v _).values]
      exact hlt w (mem_cons_of_mem _ hw)
    · rintro ⟨⟩ g' ⟨hsame, hproducer, hother⟩
      refine ⟨(sameNodes_setConsumers g v _).trans hsame,
        hproducer.trans (g.findProducer_setConsumers v _), ?_⟩
      intro w
      rw [hother, hconsumers]
      by_cases hw : w = v
      · subst hw
        simp [hv]
      · simp [hw]

theorem clearProducers_ends (hlt : ∀ v ∈ l, v < g.values.length) :
    Ends (l.forM fun v => modify fun g => g.setProducerOf v none : GraphM Op Tn Unit) g
      (fun _ g' => SameNodes g g' ∧ g'.findConsumers = g.findConsumers ∧
        ∀ v, g'.findProducer v = if v ∈ l then none else g.findProducer v) E := by
  induction l generalizing g with
  | nil => exact ends_pure ⟨⟨rfl, rfl, rfl, rfl, rfl⟩, rfl, fun v => by simp⟩
  | cons v l ih =>
    have hproducer := g.findProducer_setProducerOf (hlt v mem_cons_self) none
    refine ends_modify_bind ((ih ?_).mono ?_ fun _ _ => id)
    · intro w hw
      rw [(sameNodes_setProducerOf g v none).values]
      exact hlt w (mem_cons_of_mem _ hw)
    · rintro ⟨⟩ g' ⟨hsame, hconsumers, hother⟩
      refine ⟨(sameNodes_setProducerOf g v none).trans hsame,
        hconsumers.trans (g.findConsumers_setProducerOf v none), ?_⟩
      intro w
      rw [hother, hproducer]
      by_cases hw : w = v
      · subst hw
        simp
      · simp [hw]

/-- Only inputs are other ones. -/
structure SameButInputs (g g' : GraphFloat32 Op Tn) : Prop where
  values : g'.values = g.values
  outputs : g'.findOutputs = g.findOutputs
  getNode : g'.getNode = g.getNode
  executionPlan : g'.executionPlan = g.executionPlan
  nodes : g'.nodes.length = g.nodes.length
  known : g'.knownGraphOutputs = g.knownGraphOutputs

theorem eraseInputs_ends {l : List NodeId} (hnodup : l.Nodup) (hmem : ∀ n ∈ l, v ∈ g.findInputs n)
    (hlt : ∀ n ∈ l, n < g.nodes.length) :
    Ends (l.forM fun n => eraseInput n v) g (fun _ g' => SameButInputs g g' ∧
        ∀ n, g'.findInputs n = if n ∈ l then (g.findInputs n).erase v else g.findInputs n) E := by
  induction l generalizing g with
  | nil => exact ends_pure ⟨⟨rfl, rfl, rfl, rfl, rfl, rfl⟩, fun n => by simp⟩
  | cons n l ih =>
    obtain ⟨hn, hl⟩ := nodup_cons.1 hnodup
    have hinputs := g.findInputs_setInputs (hlt n mem_cons_self) ((g.findInputs n).erase v)
    have hlen : (g.setInputs n ((g.findInputs n).erase v)).nodes.length = g.nodes.length :=
      length_modify _ _ _
    refine Ends.bind_ok (eraseInput_eq (hmem n mem_cons_self)) ?_
    refine (ih hl ?_ ?_).mono ?_ fun _ _ => id
    · intro m hm
      have hne : m ≠ n := fun heq => hn (heq ▸ hm)
      rw [hinputs, Function.update_of_ne hne]
      exact hmem m (mem_cons_of_mem _ hm)
    · intro m hm
      rw [hlen]
      exact hlt m (mem_cons_of_mem _ hm)
    · rintro ⟨⟩ g' ⟨hsame, hother⟩
      refine ⟨⟨hsame.values, hsame.outputs.trans (g.findOutputs_setInputs n _),
        hsame.getNode.trans (g.getNode_setInputs n _), hsame.executionPlan,
        hsame.nodes.trans hlen, hsame.known⟩, ?_⟩
      intro m
      rw [hother, hinputs]
      by_cases hm : m = n
      · subst hm
        simp [hn]
      · simp [hm]

/-- The node is deleted and so are its links. -/
structure NodeDeleted (g g' : GraphFloat32 Op Tn) (n : NodeId) : Prop where
  links : g'.links = g.links.deleteNode n
  getNode : g'.getNode = Function.update g.getNode n none
  getValue : g'.getValue = g.getValue
  executionPlan : g'.executionPlan = g.executionPlan
  nodes : g'.nodes.length = g.nodes.length
  known : g'.knownGraphOutputs = g.knownGraphOutputs

theorem deleteNode_ends (h : g.Linked) (n : NodeId) :
    Ends (deleteNode n) g (fun _ g' => g.getNode n ≠ none ∧ NodeDeleted g g' n)
      (Refused g (g.getNode n ≠ none)) := by
  refine ends_lookupNode id fun hn => ends_get ?_
  have hconsumer : ∀ v ∈ g.findInputs n, n ∈ g.findConsumers v := fun v => h.mem_inputs.1
  have hinlt : ∀ v ∈ g.findInputs n, v < g.values.length :=
    fun v hv => lt_of_getValue (h.live_input hv).2
  refine (eraseConsumers_ends (h.links.inputs_nodup n) hconsumer hinlt).bind ?_
  rintro ⟨⟩ g₁ ⟨hsame₁, hproducer₁, hconsumers₁⟩
  have houtlt : ∀ v ∈ g.findOutputs n, v < g₁.values.length := by
    intro v hv
    rw [hsame₁.values]
    exact lt_of_getValue (h.live_output hv).2
  refine (clearProducers_ends houtlt).bind ?_
  rintro ⟨⟩ g₂ ⟨hsame₂, hconsumers₂, hproducer₂⟩
  refine ends_modify ⟨hn, ?_⟩
  have hsame := hsame₁.trans hsame₂
  have hlt : n < g₂.nodes.length := by
    rw [hsame.nodes]
    exact lt_of_getNode hn
  have hlt' : n < (g₂.setInputs n []).nodes.length := by
    change n < (List.modify _ _ _).length
    rwa [length_modify]
  have hinputs : g₂.findInputs = g.findInputs := by
    unfold findInputs
    rw [hsame.nodes]
  have houtputs : g₂.findOutputs = g.findOutputs := by
    unfold findOutputs
    rw [hsame.nodes]
  have hnode : g₂.getNode = g.getNode := by
    unfold getNode
    rw [hsame.nodes]
  constructor
  · refine Links.ext ?_ ?_ ?_ ?_
    · funext v
      change g₂.findProducer v = _
      rw [hproducer₂, hproducer₁]
      simp only [h.mem_outputs]
      rfl
    · funext v
      change g₂.findConsumers v = _
      rw [hconsumers₂, hconsumers₁]
      split
      · rfl
      · rename_i hv
        have hnot : n ∉ g.findConsumers v := fun hmem => hv (h.mem_inputs.2 hmem)
        exact (erase_of_not_mem hnot).symm
    · change (((g₂.setInputs n []).setOutputs n []).resetNode n).findInputs = _
      rw [findInputs_resetNode, findInputs_setOutputs, findInputs_setInputs _ hlt, hinputs]
      rfl
    · change (((g₂.setInputs n []).setOutputs n []).resetNode n).findOutputs = _
      rw [findOutputs_resetNode, findOutputs_setOutputs _ hlt', findOutputs_setInputs, houtputs]
      rfl
  · rw [getNode_resetNode, getNode_setOutputs, getNode_setInputs, hnode]
  · exact hsame.getValue
  · exact hsame.executionPlan
  · change (List.modify (List.modify (List.modify _ _ _) _ _) _ _).length = _
    rw [length_modify, length_modify, length_modify, hsame.nodes]
  · exact hsame.known

/-- The value is deleted and so are its links. -/
structure ValueDeleted (g g' : GraphFloat32 Op Tn) (v : ValueId) : Prop where
  links : g'.links = g.links.deleteValue v
  getNode : g'.getNode = g.getNode
  getValue : g'.getValue = Function.update g.getValue v none
  executionPlan : g'.executionPlan = g.executionPlan
  nodes : g'.nodes.length = g.nodes.length
  known : g'.knownGraphOutputs = g.knownGraphOutputs

theorem deleteValue_ends (h : g.Linked) (v : ValueId) :
    Ends (deleteValue v) g (fun _ g' => g.getValue v ≠ none ∧ ValueDeleted g g' v)
      (Refused g (g.getValue v ≠ none)) := by
  refine ends_lookupValue id fun hv => ends_get ?_
  refine Ends.bind_ok (eraseFromProducer_eq h v) ?_
  have hsame₁ := g.sameButOutputs_withoutOutput v
  have hin : ∀ n ∈ g.findConsumers v, v ∈ (g.withoutOutput v).findInputs n := by
    intro n hn
    rw [hsame₁.inputs]
    exact h.mem_inputs.2 hn
  have hlt : ∀ n ∈ g.findConsumers v, n < (g.withoutOutput v).nodes.length := by
    intro n hn
    rw [hsame₁.nodes]
    exact lt_of_getNode (h.live_input (h.mem_inputs.2 hn)).1
  refine (eraseInputs_ends (h.links.consumers_nodup v) hin hlt).bind ?_
  rintro ⟨⟩ g₂ ⟨hsame₂, hinputs₂⟩
  refine ends_modify ⟨hv, ?_⟩
  have hvlt : v < g₂.values.length := by
    rw [hsame₂.values, hsame₁.values]
    exact lt_of_getValue hv
  have hvlt' : v < (g₂.setProducerOf v none).values.length := by
    change v < (List.modify _ _ _).length
    rwa [length_modify]
  have hproducer : g₂.findProducer = g.findProducer := by
    rw [← hsame₁.producer]
    unfold findProducer
    rw [hsame₂.values]
  have hconsumers : g₂.findConsumers = g.findConsumers := by
    rw [← hsame₁.consumers]
    unfold findConsumers
    rw [hsame₂.values]
  have hvalue : g₂.getValue = g.getValue := by
    rw [← hsame₁.getValue]
    unfold getValue
    rw [hsame₂.values]
  constructor
  · refine Links.ext ?_ ?_ ?_ ?_
    · change (((g₂.setProducerOf v none).setConsumers v []).resetValue v).findProducer = _
      rw [findProducer_resetValue, findProducer_setConsumers, findProducer_setProducerOf _ hvlt,
        hproducer]
      rfl
    · change (((g₂.setProducerOf v none).setConsumers v []).resetValue v).findConsumers = _
      rw [findConsumers_resetValue, findConsumers_setConsumers _ hvlt',
        findConsumers_setProducerOf, hconsumers]
      rfl
    · funext n
      change g₂.findInputs n = _
      rw [hinputs₂, hsame₁.inputs]
      split
      · rfl
      · rename_i hn
        have hnot : v ∉ g.findInputs n := fun hmem => hn (h.mem_inputs.1 hmem)
        exact (erase_of_not_mem hnot).symm
    · change g₂.findOutputs = _
      rw [hsame₂.outputs, h.findOutputs_withoutOutput]
      rfl
  · exact hsame₂.getNode.trans hsame₁.getNode
  · rw [getValue_resetValue, getValue_setConsumers, getValue_setProducerOf, hvalue]
  · exact hsame₂.executionPlan.trans hsame₁.executionPlan
  · exact hsame₂.nodes.trans hsame₁.nodes
  · exact hsame₂.known.trans hsame₁.known

end LiteRt.GpuGraph
