import LiteRt.GpuGraph.NeighbourRemoval

/-!
# Keeping the input

The consumers of the output read the input instead, unless one of them has a link to it already.
The input itself goes when it has no producer and the output no consumers.
-/

namespace LiteRt.GpuGraph

open LiteRt.Lib GraphFloat32

variable {Op Tn : Type} {g g' g₁ g₂ g₃ g₄ : GraphFloat32 Op Tn} {n k : NodeId} {x y v : ValueId}

/-- The node is deleted, its consumers are moved and its output is deleted. -/
theorem Simple.bypassed_input (h : Simple g n x y) (hnode : NodeDeleted g g₁ n)
    (hrep : Replaced g₁ g₂ y x (g.findConsumers y)) (hvalue : ValueDeleted g₂ g₃ y) :
    Bypassed g g₃ n y x where
  getNode m hm := by rw [hvalue.getNode, hrep.getNode, hnode.getNode_of_ne hm]
  inputs m hm := by
    have hmap : g₂.findInputs m = (g.findInputs m).map fun v => if v = y then x else v := by
      rw [hrep.inputs, hnode.findInputs hm]
      split
      · exact replace_eq_map (h.linked.links.inputs_nodup m) y x
      · rename_i hnot
        exact (map_replace_of_not_mem fun hy => hnot (h.linked.mem_inputs.1 hy)).symm
    rw [hvalue.findInputs, hmap, List.erase_of_not_mem]
    intro hy
    obtain ⟨v, _, hv⟩ := List.mem_map.1 hy
    by_cases hvy : v = y
    · rw [if_pos hvy] at hv
      exact h.ne hv
    · rw [if_neg hvy] at hv
      exact hvy hv
  outputs m hm := by
    have hy := h.not_mem_outputs hm
    rw [hvalue.findOutputs, hrep.outputs, hnode.findOutputs hm, map_replace_of_not_mem hy,
      List.erase_of_not_mem hy]
  graphOutputs v _ hv := by
    rw [hvalue.getValue_of_ne hv, hrep.getValue, hnode.getValue]

/-- Deleting the input too is right exactly if nothing else reads it. -/
theorem Simple.bypassed_both_iff (h : Simple g n x y) (hby : Bypassed g g₃ n y x)
    (hvalue : ValueDeleted g₃ g₄ x) (hproducer : g.findProducer x = none)
    (hunread : g.findConsumers y = []) :
    Bypassed g g₄ n y x ↔ g.findConsumers x = [n] ∧ x ∉ g.knownGraphOutputs := by
  have hinput : ∀ m, m ≠ n → g₃.findInputs m = g.findInputs m := by
    intro m hm
    have hy : y ∉ g.findInputs m := by
      rw [h.linked.mem_inputs, hunread]
      exact List.not_mem_nil
    rw [hby.inputs m hm, map_replace_of_not_mem hy]
  have hlive := (h.linked.live_input h.mem_input).2
  constructor
  · intro hboth
    constructor
    · have honly : ∀ m ∈ g.findConsumers x, m = n := by
        intro m hm
        by_contra hne
        have hx : x ∈ g₄.findInputs m := by
          rw [hboth.inputs m hne, ← hby.inputs m hne, hinput m hne]
          exact h.linked.mem_inputs.2 hm
        rw [hvalue.findInputs, hinput m hne] at hx
        exact (h.linked.links.inputs_nodup m).not_mem_erase hx
      have hn := h.linked.mem_inputs.1 h.mem_input
      refine List.perm_singleton.1 ((List.perm_ext_iff_of_nodup
        (h.linked.links.consumers_nodup x) (List.nodup_singleton n)).2 fun m => ?_)
      rw [List.mem_singleton]
      exact ⟨honly m, fun heq => heq ▸ hn⟩
    · intro hknown
      have hout : g.isGraphOutput x = true := by
        unfold isGraphOutput
        rw [if_neg (Nat.not_le.2 (lt_of_getValue hlive))]
        simp [hknown]
      refine hlive ?_
      rw [← hboth.graphOutputs x hout h.ne, hvalue.getValue_self]
  · rintro ⟨hconsumers, hknown⟩
    refine ⟨?_, ?_, ?_, ?_⟩
    · intro m hm
      rw [hvalue.getNode, hby.getNode m hm]
    · intro m hm
      have hx : x ∉ g.findInputs m := by
        rw [h.linked.mem_inputs, hconsumers, List.mem_singleton]
        exact hm
      rw [hvalue.findInputs, ← hby.inputs m hm, hinput m hm, List.erase_of_not_mem hx]
    · intro m hm
      have hx : x ∉ g.findOutputs m := by
        rw [h.linked.mem_outputs, hproducer]
        simp
      have hold := hby.outputs m hm
      rw [map_replace_of_not_mem (h.not_mem_outputs hm)] at hold ⊢
      rw [hvalue.findOutputs, hold, List.erase_of_not_mem hx]
    · intro v hv hvy
      have hvx : v ≠ x := by
        rintro rfl
        simp [isGraphOutput, hknown, hconsumers] at hv
      rw [hvalue.getValue_of_ne hvx, hby.graphOutputs v hv hvy]

/-- Every end of the removal agrees with `Safe`. -/
theorem removeSimpleNodeKeepInput_ends (h : g.Linked) (n : NodeId) :
    Ends (removeSimpleNodeKeepInput n) g (fun _ g' => (Removal.simpleNodeKeepInput n).Meaning g g' ↔
        (Removal.simpleNodeKeepInput n).Safe g)
      fun e g' => Unchanged g e g' ↔ (Removal.simpleNodeKeepInput n).Safe g := by
  refine ends_get ?_
  split
  swap
  · rename_i hnot
    exact ends_throw (iff_of_true ⟨rfl, _, rfl⟩ fun x y hx hy => (hnot x y hx hy).elim)
  rename_i x y hx hy
  have hsimple : Simple g n x y := ⟨h, hx, hy⟩
  have hmeaning : ∀ g' : GraphFloat32 Op Tn,
      (Removal.simpleNodeKeepInput n).Meaning g g' ↔ Bypassed g g' n y x :=
    fun g' => forall_singletons hx hy
  have hsafe : (Removal.simpleNodeKeepInput n).Safe g ↔
      (∀ consumer ∈ g.findConsumers y, Unlinked g consumer x) ∧
      (g.findProducer x = none → g.findConsumers y = [] →
        g.findConsumers x = [n] ∧ x ∉ g.knownGraphOutputs) :=
    forall_singletons hx hy
  simp only [hmeaning, hsafe]
  refine (deleteNode_live h hsimple.live).bind ?_
  rintro ⟨⟩ g₁ hnode
  have hlinked := hnode.linked h
  have hread : ∀ m ∈ g.findConsumers y, y ∈ g₁.findInputs m := by
    intro m hm
    rw [hnode.findInputs (hsimple.ne_of_consumer hm)]
    exact h.mem_inputs.2 hm
  have hunlinked : ∀ m ∈ g.findConsumers y, (Unlinked g₁ m x ↔ Unlinked g m x) := by
    intro m hm
    have hmn := hsimple.ne_of_consumer hm
    have hproducer := hnode.findProducer hsimple.producer_input
    constructor
    · intro hpre
      exact ⟨hnode.getNode_of_ne hmn ▸ hpre.node, hnode.getValue ▸ hpre.value,
        hnode.findInputs hmn ▸ hpre.input, hproducer ▸ hpre.producer⟩
    · intro hpre
      refine ⟨?_, hnode.getValue ▸ hpre.value, ?_, ?_⟩
      · rw [hnode.getNode_of_ne hmn]
        exact hpre.node
      · rw [hnode.findInputs hmn]
        exact hpre.input
      · rw [hproducer]
        exact hpre.producer
  have hnodup : (g.findConsumers y).Nodup := h.links.consumers_nodup y
  refine Ends.bind ((replaceInputs_ends hlinked hnodup hread).mono (fun _ _ => id) ?_) ?_
  · -- The node is gone when a consumer is refused.
    rintro e g₂ ⟨_, done, m, rest, hsplit, _, hm, hrep⟩
    refine iff_of_false (not_unchanged hsimple.live ?_) ?_
    · rw [hrep.getNode, hnode.getNode_self]
    · rintro ⟨hall, _⟩
      have hmem : m ∈ g.findConsumers y := hsplit ▸ List.mem_append_right _ List.mem_cons_self
      exact hm ((hunlinked m hmem).2 (hall m hmem))
  rintro ⟨⟩ g₂ ⟨hall, hrep⟩
  have hlive : g₂.getValue y ≠ none := by
    rw [hrep.getValue, hnode.getValue]
    exact (h.live_output hsimple.mem_output).2
  refine (deleteValue_live hrep.linked hlive).bind ?_
  rintro ⟨⟩ g₃ hvalue
  have hby := hsimple.bypassed_input hnode hrep hvalue
  have hall' : ∀ consumer ∈ g.findConsumers y, Unlinked g consumer x :=
    fun m hm => (hunlinked m hm).1 (hall m hm)
  refine ends_onlyIf ?_ ?_
  · rintro ⟨hproducer, hunread⟩
    have hlive' : g₃.getValue x ≠ none := by
      rw [hvalue.getValue_of_ne hsimple.ne, hrep.getValue, hnode.getValue]
      exact (h.live_input hsimple.mem_input).2
    refine (deleteValue_live (hvalue.linked hrep.linked) hlive').mono ?_ fun _ _ => id
    rintro ⟨⟩ g₄ hboth
    rw [hsimple.bypassed_both_iff hby hboth hproducer hunread]
    exact ⟨fun hcond => ⟨hall', fun _ _ => hcond⟩, fun hcond => hcond.2 hproducer hunread⟩
  · intro hnot
    exact iff_of_true hby ⟨hall', fun hproducer hunread => (hnot ⟨hproducer, hunread⟩).elim⟩

/-!
## Keeping the output

The producer of the input writes the output in its stead, but after its other outputs. The output
itself goes when the input had no producer and nothing reads it.
-/

/-- The producer of `x` writes `y` after its other outputs. -/
structure HandedOver (g g' : GraphFloat32 Op Tn) (x y : ValueId) : Prop where
  linked : g'.Linked
  inputs : g'.findInputs = g.findInputs
  consumers : g'.findConsumers = g.findConsumers
  outputs : ∀ k, g'.findOutputs k =
    if g.findProducer x = some k then (g.findOutputs k).erase x ++ [y] else g.findOutputs k
  getNode : g'.getNode = g.getNode
  getValue : g'.getValue = g.getValue

theorem handOver_ends (h : g.Linked) (hy : g.getValue y ≠ none)
    (hunmade : g.findProducer y = none) :
    Ends (handOver (g.findProducer x) x y) g
      (fun _ g' => (∀ p, g.findProducer x = some p → y ∉ g.findInputs p) ∧ HandedOver g g' x y)
      fun _ g' => g'.getNode = g.getNode ∧ ∃ p, g.findProducer x = some p ∧ y ∈ g.findInputs p := by
  cases hp : g.findProducer x with
  | none =>
    refine ends_pure ⟨by simp, h, rfl, rfl, fun k => ?_, rfl, rfl⟩
    rw [hp]
    simp
  | some p =>
    have hmem : x ∈ g.findOutputs p := h.mem_outputs.2 hp
    have hmade : ∀ k, y ∉ g.findOutputs k := by
      intro k
      rw [h.mem_outputs, hunmade]
      simp
    have hpair : g.findProducer x ≠ none := by
      rw [hp]
      simp
    refine Ends.bind ((removeProducer_ends h x).mono (fun _ _ => id) ?_) ?_
    · exact fun _ _ hr => absurd hpair hr.2
    rintro ⟨⟩ g₁ hrel
    have hlinked : g₁.Linked :=
      hrel.linked h (h.links.removeProducer x) (liveLinks_removeProducer h x)
    have hinputs₁ : g₁.findInputs = g.findInputs := congrArg Links.inputs hrel.links
    have houtputs₁ : g₁.findOutputs = fun k => (g.findOutputs k).erase x :=
      congrArg Links.outputs hrel.links
    have hproducer₁ : g₁.findProducer = Function.update g.findProducer x none :=
      congrArg Links.producer hrel.links
    have hconsumers₁ : g₁.findConsumers = g.findConsumers := congrArg Links.consumers hrel.links
    have hxy : x ≠ y := by
      rintro rfl
      exact hmade p hmem
    have hyp : g₁.findProducer y = none := by
      rw [hproducer₁, Function.update_of_ne (Ne.symm hxy), hunmade]
    refine (setProducer_ends hlinked p y).mono ?_ ?_
    · rintro ⟨⟩ g₂ ⟨hpre, hrel'⟩
      have houtputs₂ : g₂.findOutputs = _ := congrArg Links.outputs hrel'.links
      refine ⟨?_, hrel'.linked_setProducer hlinked hpre,
        (congrArg Links.inputs hrel'.links).trans hinputs₁,
        (congrArg Links.consumers hrel'.links).trans hconsumers₁, ?_,
        hrel'.getNode.trans hrel.getNode, hrel'.getValue.trans hrel.getValue⟩
      · rintro q hq
        obtain rfl : p = q := Option.some.inj hq
        exact hinputs₁ ▸ hpre.input
      · intro k
        have hyk : y ∉ (g.findOutputs k).erase x := fun hy => hmade k (List.mem_of_mem_erase hy)
        rw [houtputs₂, hp]
        change (if k = p then (g₁.findOutputs k).erase y ++ [y] else
          (g₁.findOutputs k).erase y) = _
        simp only [houtputs₁, List.erase_of_not_mem hyk, Option.some.injEq]
        by_cases hk : k = p
        · rw [if_pos hk, if_pos hk.symm]
        · have hx : x ∉ g.findOutputs k := by
            rw [h.mem_outputs, hp]
            exact fun heq => hk (Option.some.inj heq).symm
          rw [if_neg hk, if_neg (Ne.symm hk), List.erase_of_not_mem hx]
    · rintro e g₂ ⟨⟨rfl, _⟩, hnot⟩
      refine ⟨hrel.getNode, p, rfl, ?_⟩
      by_contra hin
      refine hnot ⟨?_, ?_, ?_, ?_⟩
      · rw [hrel.getNode]
        exact (h.live_output hmem).1
      · rwa [hrel.getValue]
      · rwa [hinputs₁]
      · rw [hyp]
        simp

/-- The node and its input are gone, and the producer of the input writes the output. -/
theorem Simple.bypassed_output_iff (h : Simple g n x y) (hnode : NodeDeleted g g₁ n)
    (hhand : HandedOver g₁ g₂ x y) (hvalue : ValueDeleted g₂ g₃ x)
    (honly : g.findConsumers x = [n]) :
    Bypassed g g₃ n x y ↔ ∀ p, g.findProducer x = some p → (g.findOutputs p).getLast? = some x := by
  have hproducer := hnode.findProducer h.producer_input
  have hunread : ∀ m, m ≠ n → x ∉ g.findInputs m := by
    intro m hm
    rw [h.linked.mem_inputs, honly, List.mem_singleton]
    exact hm
  -- Only the outputs of the producer are different lists.
  have hmoved : ∀ p, g.findProducer x = some p →
      g₃.findOutputs p = (g.findOutputs p).erase x ++ [y] := by
    intro p hp
    have hpn : p ≠ n := by
      rintro rfl
      exact h.producer_input hp
    have hx : x ∉ (g.findOutputs p).erase x ++ [y] := by
      rw [List.mem_append, List.mem_singleton]
      rintro (hx | hx)
      · exact (h.linked.links.outputs_nodup p).not_mem_erase hx
      · exact h.ne hx
    rw [hvalue.findOutputs, hhand.outputs, hproducer, if_pos hp, hnode.findOutputs hpn,
      List.erase_of_not_mem hx]
  have hkept : ∀ m, m ≠ n → g.findProducer x ≠ some m →
      g₃.findOutputs m = (g.findOutputs m).map fun v => if v = x then y else v := by
    intro m hm hp
    have hx : x ∉ g.findOutputs m := by rwa [h.linked.mem_outputs]
    rw [hvalue.findOutputs, hhand.outputs, hproducer, if_neg hp, hnode.findOutputs hm,
      List.erase_of_not_mem hx, map_replace_of_not_mem hx]
  have hmap : ∀ p, g.findProducer x = some p →
      (g₃.findOutputs p = ((g.findOutputs p).map fun v => if v = x then y else v) ↔
        (g.findOutputs p).getLast? = some x) := by
    intro p hp
    have hpn : p ≠ n := by
      rintro rfl
      exact h.producer_input hp
    rw [hmoved p hp]
    exact erase_concat_eq_map_iff (h.linked.links.outputs_nodup p)
      (h.linked.mem_outputs.2 hp) (h.not_mem_outputs hpn)
  constructor
  · intro hby p hp
    have hpn : p ≠ n := by
      rintro rfl
      exact h.producer_input hp
    exact (hmap p hp).1 (hby.outputs p hpn)
  · intro hlast
    refine ⟨?_, ?_, ?_, ?_⟩
    · intro m hm
      rw [hvalue.getNode, hhand.getNode, hnode.getNode_of_ne hm]
    · intro m hm
      rw [hvalue.findInputs, hhand.inputs, hnode.findInputs hm,
        map_replace_of_not_mem (hunread m hm), List.erase_of_not_mem (hunread m hm)]
    · intro m hm
      by_cases hp : g.findProducer x = some m
      · exact (hmap m hp).2 (hlast m hp)
      · exact hkept m hm hp
    · intro v _ hv
      rw [hvalue.getValue_of_ne hv, hhand.getValue, hnode.getValue]

/-- Every end of the removal agrees with `Safe`. -/
theorem removeSimpleNodeKeepOutput_ends (h : g.Linked) (n : NodeId) :
    Ends (removeSimpleNodeKeepOutput n) g
      (fun _ g' => (Removal.simpleNodeKeepOutput n).Meaning g g' ↔
        (Removal.simpleNodeKeepOutput n).Safe g)
      fun e g' => Unchanged g e g' ↔ (Removal.simpleNodeKeepOutput n).Safe g := by
  refine ends_get ?_
  split
  swap
  · rename_i hnot
    exact ends_throw (iff_of_true ⟨rfl, _, rfl⟩ fun x y hx hy => (hnot x y hx hy).elim)
  rename_i x y hx hy
  have hsimple : Simple g n x y := ⟨h, hx, hy⟩
  have hmeaning : ∀ g' : GraphFloat32 Op Tn,
      (Removal.simpleNodeKeepOutput n).Meaning g g' ↔ Bypassed g g' n x y :=
    fun g' => forall_singletons hx hy
  have hsafe : (Removal.simpleNodeKeepOutput n).Safe g ↔ (g.findConsumers x = [n] →
        (∀ p, g.findProducer x = some p →
          y ∉ g.findInputs p ∧ (g.findOutputs p).getLast? = some x) ∧
        (g.findProducer x = none → g.findConsumers y ≠ [])) :=
    forall_singletons hx hy
  simp only [hmeaning, hsafe]
  by_cases hlength : (g.findConsumers x).length = 1
  swap
  · rw [if_pos hlength]
    refine ends_throw (iff_of_true ⟨rfl, _, rfl⟩ fun honly => absurd ?_ hlength)
    rw [honly]
    rfl
  rw [if_neg (not_not.2 hlength)]
  have honly : g.findConsumers x = [n] := by
    obtain ⟨m, hm⟩ := List.length_eq_one_iff.1 hlength
    have hn := h.mem_inputs.1 hsimple.mem_input
    rw [hm, List.mem_singleton] at hn
    rw [hm, hn]
  simp only [honly, forall_const]
  refine (deleteNode_live h hsimple.live).bind ?_
  rintro ⟨⟩ g₁ hnode
  have hproducer := hnode.findProducer hsimple.producer_input
  have hy₁ : g₁.getValue y ≠ none := by
    rw [hnode.getValue]
    exact (h.live_output hsimple.mem_output).2
  have hinputs : ∀ p, g.findProducer x = some p → g₁.findInputs p = g.findInputs p := by
    intro p hp
    refine hnode.findInputs ?_
    rintro rfl
    exact hsimple.producer_input hp
  rw [← hproducer]
  refine Ends.bind ((handOver_ends (hnode.linked h) hy₁
    (hnode.findProducer_none hsimple.producer_output)).mono (fun _ _ => id) ?_) ?_
  · -- The node is gone when the producer reads the output.
    rintro e g₂ ⟨hsame, p, hp, hin⟩
    refine iff_of_false (not_unchanged hsimple.live ?_) ?_
    · rw [hsame, hnode.getNode_self]
    · rintro ⟨hsafe, _⟩
      rw [hproducer] at hp
      rw [hinputs p hp] at hin
      exact (hsafe p (hproducer.trans hp)).1 hin
  rintro ⟨⟩ g₂ ⟨hfree, hhand⟩
  have hlive : g₂.getValue x ≠ none := by
    rw [hhand.getValue, hnode.getValue]
    exact (h.live_input hsimple.mem_input).2
  refine (deleteValue_live hhand.linked hlive).bind ?_
  rintro ⟨⟩ g₃ hvalue
  have hby := hsimple.bypassed_output_iff hnode hhand hvalue honly
  have hconsumers : g₃.findConsumers y = g.findConsumers y := by
    have hn : n ∉ g.findConsumers y := fun hn => hsimple.ne_of_consumer hn rfl
    rw [hvalue.findConsumers (Ne.symm hsimple.ne), hhand.consumers, hnode.findConsumers hn]
  have hfree' : ∀ p, g₁.findProducer x = some p → y ∉ g.findInputs p := by
    intro p hp
    rw [← hinputs p (hproducer ▸ hp)]
    exact hfree p hp
  refine ends_get ?_
  rw [hconsumers]
  refine ends_onlyIf ?_ ?_
  · -- The kept value goes as well, and it was a graph output.
    rintro ⟨hnone, hunread⟩
    have hlive' : g₃.getValue y ≠ none := by
      rwa [hvalue.getValue_of_ne (Ne.symm hsimple.ne), hhand.getValue]
    refine (deleteValue_live (hvalue.linked hhand.linked) hlive').mono ?_ fun _ _ => id
    rintro ⟨⟩ g₄ hgone
    refine iff_of_false ?_ fun hsafe => hsafe.2 hnone hunread
    intro hbad
    have hy := (h.live_output hsimple.mem_output).2
    have hout : g.isGraphOutput y = true := by
      unfold isGraphOutput
      rw [if_neg (Nat.not_le.2 (lt_of_getValue hy))]
      simp [hunread]
    refine hy ?_
    rw [← hbad.graphOutputs y hout (Ne.symm hsimple.ne), hgone.getValue_self]
  · intro hnot
    rw [hby, ← hproducer]
    constructor
    · intro hlast
      exact ⟨fun p hp => ⟨hfree' p hp, hlast p hp⟩, fun hnone hunread => hnot ⟨hnone, hunread⟩⟩
    · rintro ⟨hsafe, _⟩ p hp
      exact (hsafe p hp).2

/-! ### Every removal -/

/-- A removal keeps its promise exactly on the graphs it is safe on. -/
theorem removal_sound_iff (h : g.Linked) (r : Removal) : r.Sound g ↔ r.Safe g := by
  refine ends_iff_of ?_
  cases r with
  | precedingNode toRemove toKeep =>
    exact (removePrecedingNode_ends h toRemove toKeep).mono (fun _ _ => And.left) fun _ _ => id
  | followingNode toRemove toKeep =>
    exact (removeFollowingNode_ends h toRemove toKeep).mono (fun _ _ => And.left) fun _ _ => id
  | simpleNodeKeepInput n => exact removeSimpleNodeKeepInput_ends h n
  | simpleNodeKeepOutput n => exact removeSimpleNodeKeepOutput_ends h n

/-- Node 0 writes value 1 from value 0, and node 1 writes value 2 from value 1. -/
def chainOps : List GraphOp :=
  [.newNode, .newNode, .newValue, .newValue, .newValue, .addConsumer 0 0, .setProducer 0 1,
    .addConsumer 1 1, .setProducer 1 2]

theorem chain_sound :
    (Removal.simpleNodeKeepInput 0).Sound (reached chainOps : GraphFloat32 Unit Unit) := by
  refine (removal_sound_iff (linked_reached chainOps) _).2 ?_
  refine (forall_singletons (x := 0) (y := 1) (by decide) (by decide)).2 ⟨?_, fun _ => ?_⟩
  · intro consumer hconsumer
    have hread : (reached chainOps : GraphFloat32 Unit Unit).findConsumers 1 = [1] := by decide
    rw [hread, List.mem_singleton] at hconsumer
    subst hconsumer
    exact ⟨by decide, by decide, by decide, by decide⟩
  · exact fun hunread => absurd hunread (by decide)

/-- Node 1 reads both the input and the output of node 0. -/
def diamondOps : List GraphOp := chainOps ++ [.addConsumer 1 0]

/-- Node 0 is deleted before its consumer is refused. -/
theorem diamond_broken :
    ¬∀ g : GraphFloat32 Unit Unit, g.Linked → ∀ r : Removal, r.Sound g := by
  intro h
  have hsound := h (reached diamondOps) (linked_reached diamondOps) (.simpleNodeKeepInput 0)
  obtain ⟨hok, herror⟩ := ends_iff.1 hsound
  cases hrun : removeSimpleNodeKeepInput 0 (reached diamondOps : GraphFloat32 Unit Unit) with
  | ok a g' =>
    have hafter : after (removeSimpleNodeKeepInput 0) (reached diamondOps) = g' := by
      rw [after, hrun]
    have hread := (hok a g' hrun 0 1 (by decide) (by decide)).inputs 1 (by decide)
    rw [← hafter] at hread
    exact absurd hread (by decide)
  | error e g' =>
    have hafter : after (removeSimpleNodeKeepInput 0) (reached diamondOps) = g' := by
      rw [after, hrun]
    have hsame := congrArg (fun g => g.getNode 0) (herror e g' hrun).1
    rw [← hafter] at hsame
    exact absurd hsame (by decide)

end LiteRt.GpuGraph
