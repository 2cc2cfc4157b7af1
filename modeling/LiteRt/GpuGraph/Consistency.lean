import LiteRt.GpuGraph.Mutators
import Mathlib.Data.List.Induction

/-!
# Runs of the mutators

The links stay right in every run. A known graph output is a pointer that deleting its value
does not take away, so runs that delete one leave it behind.
-/

namespace LiteRt.GpuGraph

open LiteRt.Lib GraphFloat32 Function

variable {Op Tn : Type} {g g' : GraphFloat32 Op Tn} {n : NodeId} {v : ValueId} {β : Type}

/-- What every graph should satisfy. -/
structure Consistent (g : GraphFloat32 Op Tn) : Prop where
  producer : ∀ (v : ValueId) (n : NodeId), g.getValue v ≠ none →
    (g.findProducer v = some n ↔ (g.findOutputs n).count v = 1)
  consumers : ∀ (v : ValueId) (n : NodeId), g.getValue v ≠ none →
    (n ∈ g.findConsumers v ↔ (g.findInputs n).count v = 1)
  separate : ∀ (v : ValueId) (n : NodeId), g.findProducer v = some n → n ∉ g.findConsumers v
  nodeRefs : ∀ (n : NodeId) (v : ValueId), v ∈ g.findInputs n ∨ v ∈ g.findOutputs n →
    g.getNode n ≠ none ∧ g.getValue v ≠ none
  valueRefs : ∀ (v : ValueId) (n : NodeId), g.findProducer v = some n ∨ n ∈ g.findConsumers v →
    g.getNode n ≠ none ∧ g.getValue v ≠ none
  known : ∀ v ∈ g.knownGraphOutputs, g.getValue v ≠ none
  plan : ∀ n : NodeId, g.executionPlan.count n = if n < g.nodes.length then 1 else 0

theorem count_eq_one_iff {l : List Nat} {a : Nat} (h : l.Nodup) : l.count a = 1 ↔ a ∈ l :=
  ⟨fun hcount => List.count_pos_iff.1 (hcount ▸ Nat.one_pos), List.count_eq_one_of_mem h⟩

def KnownLive (g : GraphFloat32 Op Tn) : Prop :=
  ∀ v ∈ g.knownGraphOutputs, g.getValue v ≠ none

theorem consistent_of_linked (h : g.Linked) (hknown : KnownLive g) : Consistent g where
  producer v n _ := by
    exact h.mem_outputs.symm.trans (count_eq_one_iff (h.links.outputs_nodup n)).symm
  consumers v n _ := by
    exact h.mem_inputs.symm.trans (count_eq_one_iff (h.links.inputs_nodup n)).symm
  separate v n := h.links.separate n v
  nodeRefs := h.live
  valueRefs v n hlink := h.live n v (hlink.elim (fun hp => .inr (h.mem_outputs.2 hp))
    fun hc => .inl (h.mem_inputs.2 hc))
  known := hknown
  plan n := by
    rw [h.plan.count_eq]
    split
    · rename_i hn
      exact List.count_eq_one_of_mem List.nodup_range (List.mem_range.2 hn)
    · rename_i hn
      exact List.count_eq_zero_of_not_mem fun hmem => hn (List.mem_range.1 hmem)

/-! ## New nodes and values -/

theorem linked_empty : (GraphFloat32.empty : GraphFloat32 Op Tn).Linked where
  links := by
    have hlinks : (GraphFloat32.empty : GraphFloat32 Op Tn).links = Links.empty :=
      Links.ext rfl rfl rfl rfl
    rw [hlinks]
    exact Links.valid_empty
  live n v hlink := by
    obtain hin | hout := hlink
    · cases hin
    · cases hout
  plan := List.Perm.refl _

/-- The links and the known outputs stay, and nothing is deleted. -/
structure Grows (g g' : GraphFloat32 Op Tn) : Prop where
  links : g'.links = g.links
  getNode : ∀ n, g.getNode n ≠ none → g'.getNode n ≠ none
  getValue : ∀ v, g.getValue v ≠ none → g'.getValue v ≠ none
  known : g'.knownGraphOutputs = g.knownGraphOutputs

theorem Grows.linked (hgrow : Grows g g') (h : g.Linked)
    (hplan : g'.executionPlan.Perm (List.range g'.nodes.length)) : g'.Linked where
  links := by
    rw [hgrow.links]
    exact h.links
  live n v := by
    rw [hgrow.links]
    intro hlink
    obtain ⟨hn, hv⟩ := h.live n v hlink
    exact ⟨hgrow.getNode n hn, hgrow.getValue v hv⟩
  plan := hplan

theorem Grows.knownLive (hgrow : Grows g g') (h : KnownLive g) : KnownLive g' := by
  intro v hv
  rw [hgrow.known] at hv
  exact hgrow.getValue v (h v hv)

theorem getElem?_concat {α : Type} (l : List α) (a : α) (i : Nat) :
    (l ++ [a])[i]? = if i = l.length then some a else l[i]? := by
  by_cases hi : i = l.length
  · rw [if_pos hi, hi, List.getElem?_concat_length]
  · rw [if_neg hi]
    by_cases hlt : i < l.length
    · exact List.getElem?_append_left hlt
    · have hlen : (l ++ [a]).length = l.length + 1 := List.length_append
      rw [List.getElem?_eq_none (by omega), List.getElem?_eq_none (by omega)]

/-- A field that is empty in a new node does not show it. -/
theorem nodes_concat_view (g : GraphFloat32 Op Tn) (a : NodeDef Op) (p : NodeDef Op → β) (d : β)
    (h : p a = d) (n : NodeId) :
    (match (g.nodes ++ [a])[n]? with
      | some b => p b
      | none => d) = match g.nodes[n]? with
      | some b => p b
      | none => d := by
  rw [getElem?_concat]
  by_cases hn : n = g.nodes.length
  · rw [if_pos hn, hn, List.getElem?_eq_none (Nat.le_refl _)]
    exact h
  · rw [if_neg hn]

theorem values_concat_view (g : GraphFloat32 Op Tn) (a : ValueDef Tn) (p : ValueDef Tn → β) (d : β)
    (h : p a = d) (v : ValueId) :
    (match (g.values ++ [a])[v]? with
      | some b => p b
      | none => d) = match g.values[v]? with
      | some b => p b
      | none => d := by
  rw [getElem?_concat]
  by_cases hv : v = g.values.length
  · rw [if_pos hv, hv, List.getElem?_eq_none (Nat.le_refl _)]
    exact h
  · rw [if_neg hv]

/-- The end of an operation: the links are right, and known outputs are kept alive under a
condition. -/
def EndsLinked {α : Type} (g : GraphFloat32 Op Tn) (cond : Prop) (_ : α)
    (g' : GraphFloat32 Op Tn) : Prop :=
  g'.Linked ∧ (KnownLive g → cond → KnownLive g')

section
variable [Inhabited Op] {cond : Prop} {E : Stop → GraphFloat32 Op Tn → Prop}

theorem grows_addNode (g : GraphFloat32 Op Tn) (plan : List NodeId) :
    Grows g { g with nodes := g.nodes ++ [⟨[], [], some default⟩], executionPlan := plan } where
  links := by
    have hinputs : findInputs { g with
        nodes := g.nodes ++ [⟨[], [], some default⟩], executionPlan := plan } = g.findInputs :=
      funext fun n => nodes_concat_view g ⟨[], [], some default⟩ (fun d => d.inputs) [] rfl n
    have houtputs : findOutputs { g with
        nodes := g.nodes ++ [⟨[], [], some default⟩], executionPlan := plan } = g.findOutputs :=
      funext fun n => nodes_concat_view g ⟨[], [], some default⟩ (fun d => d.outputs) [] rfl n
    exact Links.ext rfl rfl hinputs houtputs
  getNode n hn := by
    unfold getNode
    rw [getElem?_concat, if_neg (Nat.ne_of_lt (lt_of_getNode hn))]
    exact hn
  getValue _ hv := hv
  known := rfl

theorem addNode_ends (h : g.Linked) {plan : NodeId → List NodeId}
    (hplan : (plan g.nodes.length).Perm (g.nodes.length :: g.executionPlan)) :
    Ends (addNode plan) g (EndsLinked g cond) E := by
  have hgrow := grows_addNode g (plan g.nodes.length)
  refine ends_get ?_
  have hlinked := hgrow.linked h (by
    refine hplan.trans ?_
    rw [List.length_append, List.length_singleton, List.range_succ]
    exact (h.plan.cons _).trans (List.perm_append_singleton _ _).symm)
  exact ⟨hlinked, fun hknown _ => hgrow.knownLive hknown⟩

theorem newNode_ends (h : g.Linked) :
    Ends newNode g (EndsLinked g cond) E :=
  ends_get (addNode_ends h (List.perm_append_singleton _ _))

theorem insertNodeAfter_ends (h : g.Linked) (id : NodeId) :
    Ends (insertNodeAfter id) g (EndsLinked g cond) (Refused g (id < g.nodes.length)) := by
  refine ends_get ?_
  by_cases hle : g.nodes.length ≤ id
  · rw [if_pos hle]
    exact ends_fail (Nat.not_lt.2 hle)
  rw [if_neg hle]
  by_cases hidx : g.executionPlan.idxOf id = g.executionPlan.length
  · have hmem : id ∈ g.executionPlan := h.plan.mem_iff.2 (List.mem_range.2 (Nat.not_le.1 hle))
    exact absurd hidx (Nat.ne_of_lt (List.idxOf_lt_length_of_mem hmem))
  simp only [if_neg hidx]
  have hlen := List.idxOf_le_length (a := id) (l := g.executionPlan)
  exact addNode_ends h (List.perm_insertIdx _ _ (by omega))

end

section
variable [Inhabited Tn]

theorem grows_newValue (g : GraphFloat32 Op Tn) :
    Grows g { g with values := g.values ++ [⟨none, [], some default⟩] } where
  links := by
    have hproducer : findProducer { g with values := g.values ++ [⟨none, [], some default⟩] } =
        g.findProducer :=
      funext fun v => values_concat_view g ⟨none, [], some default⟩ (fun d => d.producer) none rfl v
    have hconsumers : findConsumers { g with values := g.values ++ [⟨none, [], some default⟩] } =
        g.findConsumers :=
      funext fun v => values_concat_view g ⟨none, [], some default⟩ (fun d => d.consumers) [] rfl v
    exact Links.ext hproducer hconsumers rfl rfl
  getNode _ hn := hn
  getValue v hv := by
    unfold getValue
    rw [getElem?_concat, if_neg (Nat.ne_of_lt (lt_of_getValue hv))]
    exact hv
  known := rfl

theorem newValue_ends {E : Stop → GraphFloat32 Op Tn → Prop} {cond : Prop} (h : g.Linked) :
    Ends newValue g (EndsLinked g cond) E := by
  have hgrow := grows_newValue g
  exact ⟨hgrow.linked h h.plan, fun hknown _ => hgrow.knownLive hknown⟩

end

/-! ## One operation -/

theorem GraphFloat32.Relinks.knownLive {L : Links NodeId ValueId} (hrel : Relinks g g' L)
    (h : KnownLive g) : KnownLive g' := by
  intro v hv
  rw [hrel.known] at hv
  rw [hrel.getValue]
  exact h v hv

inductive GraphOp where
  | newNode
  | insertNodeAfter (id : NodeId)
  | newValue
  | addKnownGraphOutput (id : ValueId)
  | setProducer (producer : NodeId) (value : ValueId)
  | removeProducer (value : ValueId)
  | addConsumer (consumer : NodeId) (value : ValueId)
  | replaceInput (node : NodeId) (oldValue newValue : ValueId)
  | removeConsumer (consumer : NodeId) (value : ValueId)
  | deleteNode (id : NodeId)
  | deleteValue (id : ValueId)
  deriving DecidableEq, Repr

section
variable [Inhabited Op] [Inhabited Tn]

/-- A known output is added through the pointer to a live value. -/
def GraphOp.run : GraphOp → GraphM Op Tn Unit
  | newNode => do
    let _ ← GpuGraph.newNode
  | insertNodeAfter id => do
    let _ ← GpuGraph.insertNodeAfter id
  | newValue => do
    let _ ← GpuGraph.newValue
  | addKnownGraphOutput id => do
    let g ← get
    if g.getValue id = none then pure () else GpuGraph.addKnownGraphOutput id
  | setProducer producer value => GpuGraph.setProducer producer value
  | removeProducer value => GpuGraph.removeProducer value
  | addConsumer consumer value => GpuGraph.addConsumer consumer value
  | replaceInput node old new => GpuGraph.replaceInput node old new
  | removeConsumer consumer value => GpuGraph.removeConsumer consumer value
  | deleteNode id => GpuGraph.deleteNode id
  | deleteValue id => GpuGraph.deleteValue id

end

/-- The operation deletes no known output. -/
def GraphOp.KeepsKnown (g : GraphFloat32 Op Tn) : GraphOp → Prop
  | deleteValue id => id ∉ g.knownGraphOutputs
  | _ => True

theorem liveLinks_setProducer (h : g.Linked) (hn : g.getNode n ≠ none) (hv : g.getValue v ≠ none) :
    g.LiveLinks (g.links.setProducer n v) := by
  rintro m w (hin | hout)
  · exact h.live_input hin
  · simp only [Links.setProducer] at hout
    split at hout
    · rename_i hm
      obtain hold | hnew := List.mem_append.1 hout
      · exact h.live_output (List.mem_of_mem_erase hold)
      · rw [hm, List.mem_singleton.1 hnew]
        exact ⟨hn, hv⟩
    · exact h.live_output (List.mem_of_mem_erase hout)

theorem liveLinks_removeProducer (h : g.Linked) (v : ValueId) :
    g.LiveLinks (g.links.removeProducer v) := by
  rintro m w (hin | hout)
  · exact h.live_input hin
  · exact h.live_output (List.mem_of_mem_erase hout)

theorem liveLinks_addConsumer (h : g.Linked) (hn : g.getNode n ≠ none) (hv : g.getValue v ≠ none) :
    g.LiveLinks (g.links.addConsumer n v) := by
  rintro m w (hin | hout)
  · by_cases hm : m = n
    · subst hm
      simp only [Links.addConsumer, update_self, List.mem_append, List.mem_singleton] at hin
      obtain hold | rfl := hin
      · exact h.live_input hold
      · exact ⟨hn, hv⟩
    · simp only [Links.addConsumer, update_of_ne hm] at hin
      exact h.live_input hin
  · exact h.live_output hout

theorem liveLinks_removeConsumer (h : g.Linked) (n : NodeId) (v : ValueId) :
    g.LiveLinks (g.links.removeConsumer n v) := by
  rintro m w (hin | hout)
  · by_cases hm : m = n
    · subst hm
      simp only [Links.removeConsumer, update_self] at hin
      exact h.live_input (List.mem_of_mem_erase hin)
    · simp only [Links.removeConsumer, update_of_ne hm] at hin
      exact h.live_input hin
  · exact h.live_output hout

theorem liveLinks_replaceInput (h : g.Linked) {old new : ValueId} (hn : g.getNode n ≠ none)
    (hnew : g.getValue new ≠ none) (hold : old ∈ g.findInputs n) :
    g.LiveLinks (g.links.replaceInput n old new) := by
  rintro m w (hin | hout)
  · by_cases hm : m = n
    · subst hm
      simp only [Links.replaceInput, update_self] at hin
      obtain rfl | ⟨_, hmem⟩ := (mem_replace (h.links.inputs_nodup m) hold).1 hin
      · exact ⟨hn, hnew⟩
      · exact h.live_input hmem
    · simp only [Links.replaceInput, update_of_ne hm] at hin
      exact h.live_input hin
  · exact h.live_output hout

theorem NodeDeleted.linked (hdel : NodeDeleted g g' n) (h : g.Linked) :
    g'.Linked where
  links := by
    rw [hdel.links]
    exact h.links.deleteNode n
  live := by
    intro m w
    rw [hdel.links, hdel.getNode, hdel.getValue]
    intro hlink
    by_cases hm : m = n
    · subst hm
      simp [Links.deleteNode] at hlink
    · simp only [Links.deleteNode, update_of_ne hm] at hlink
      rw [update_of_ne hm]
      exact h.live m w hlink
  plan := by
    rw [hdel.executionPlan, hdel.nodes]
    exact h.plan

theorem ValueDeleted.linked (hdel : ValueDeleted g g' v) (h : g.Linked) :
    g'.Linked where
  links := by
    rw [hdel.links]
    exact h.links.deleteValue v
  live := by
    intro m w
    rw [hdel.links, hdel.getNode, hdel.getValue]
    intro hlink
    have hne : w ≠ v := by
      rintro rfl
      obtain hin | hout := hlink
      · exact (h.links.inputs_nodup m).not_mem_erase hin
      · exact (h.links.outputs_nodup m).not_mem_erase hout
    rw [update_of_ne hne]
    exact h.live m w (hlink.imp List.mem_of_mem_erase List.mem_of_mem_erase)
  plan := by
    rw [hdel.executionPlan, hdel.nodes]
    exact h.plan

section
variable [Inhabited Op] [Inhabited Tn]

/-- Every operation keeps the links right, and fails without a change. -/
theorem GraphOp.run_ends (h : g.Linked) (op : GraphOp) :
    Ends op.run g (EndsLinked g (op.KeepsKnown g)) (Unchanged g) := by
  cases op with
  | newNode => exact (newNode_ends h).bind fun _ _ hends => hends
  | insertNodeAfter id =>
    have hends : Ends (GpuGraph.insertNodeAfter id) g (EndsLinked g True) (Unchanged g) :=
      (insertNodeAfter_ends h id).mono (fun _ _ h => h) fun _ _ => And.left
    exact hends.bind fun _ _ h => h
  | newValue => exact (newValue_ends h).bind fun _ _ hends => hends
  | addKnownGraphOutput id =>
    refine ends_get ?_
    by_cases hid : g.getValue id = none
    · rw [if_pos hid]
      exact ⟨h, fun hknown _ => hknown⟩
    · rw [if_neg hid]
      refine ⟨⟨h.links, h.live, h.plan⟩, fun hknown _ v hv => ?_⟩
      obtain hold | hnew := List.mem_append.1 hv
      · exact hknown v hold
      · rw [List.mem_singleton.1 hnew]
        exact hid
  | setProducer n v =>
    refine (setProducer_ends h n v).mono ?_ fun _ _ => And.left
    rintro ⟨⟩ g' ⟨hpre, hrel⟩
    have hnot : n ∉ g.links.consumers v := fun hmem => hpre.input (h.mem_inputs.2 hmem)
    exact ⟨hrel.linked h (h.links.setProducer hnot) (liveLinks_setProducer h hpre.node hpre.value),
      fun hknown _ => hrel.knownLive hknown⟩
  | removeProducer v =>
    refine (removeProducer_ends h v).mono ?_ fun _ _ => And.left
    rintro ⟨⟩ g' hrel
    exact ⟨hrel.linked h (h.links.removeProducer v) (liveLinks_removeProducer h v),
      fun hknown _ => hrel.knownLive hknown⟩
  | addConsumer n v =>
    refine (addConsumer_ends h n v).mono ?_ fun _ _ => And.left
    rintro ⟨⟩ g' ⟨hpre, hrel⟩
    have hnot : n ∉ g.links.consumers v := fun hmem => hpre.input (h.mem_inputs.2 hmem)
    exact ⟨hrel.linked h (h.links.addConsumer hnot hpre.producer)
      (liveLinks_addConsumer h hpre.node hpre.value),
      fun hknown _ => hrel.knownLive hknown⟩
  | replaceInput n old new =>
    refine (replaceInput_ends h n old new).mono ?_ fun _ _ => And.left
    rintro ⟨⟩ g' ⟨⟨hold, hpre⟩, hrel⟩
    exact ⟨hrel.linked h (h.links.replaceInput hold hpre.input hpre.producer)
      (liveLinks_replaceInput h hpre.node hpre.value hold),
      fun hknown _ => hrel.knownLive hknown⟩
  | removeConsumer n v =>
    refine (removeConsumer_ends h n v).mono ?_ fun _ _ => And.left
    rintro ⟨⟩ g' ⟨_, hrel⟩
    exact ⟨hrel.linked h (h.links.removeConsumer n v) (liveLinks_removeConsumer h n v),
      fun hknown _ => hrel.knownLive hknown⟩
  | deleteNode n =>
    refine (deleteNode_ends h n).mono ?_ fun _ _ => And.left
    rintro ⟨⟩ g' ⟨_, hdel⟩
    refine ⟨hdel.linked h, fun hknown _ v hv => ?_⟩
    rw [hdel.known] at hv
    rw [hdel.getValue]
    exact hknown v hv
  | deleteValue v =>
    refine (deleteValue_ends h v).mono ?_ fun _ _ => And.left
    rintro ⟨⟩ g' ⟨_, hdel⟩
    refine ⟨hdel.linked h, fun hknown hkeeps w hw => ?_⟩
    rw [hdel.known] at hw
    have hne : w ≠ v := fun heq => hkeeps (heq ▸ hw)
    rw [hdel.getValue, update_of_ne hne]
    exact hknown w hw

/-! ## Runs -/

/-- The graph after the operations, each ending as it may. -/
def reached (ops : List GraphOp) : GraphFloat32 Op Tn :=
  ops.foldl (fun g op => after op.run g) GraphFloat32.empty

theorem reached_concat (ops : List GraphOp) (op : GraphOp) :
    (reached (ops ++ [op]) : GraphFloat32 Op Tn) = after op.run (reached ops) := by
  unfold reached
  rw [List.foldl_append, List.foldl_cons, List.foldl_nil]

/-- The links are right after every run. -/
theorem linked_reached (ops : List GraphOp) : (reached ops : GraphFloat32 Op Tn).Linked := by
  induction ops using List.reverseRecOn with
  | nil => exact linked_empty
  | append_singleton ops op ih =>
    rw [reached_concat]
    refine Ends.after ((op.run_ends ih).mono (fun _ _ hends => hends.1) ?_)
    rintro _ _ ⟨rfl, _⟩
    exact ih

/-- Known outputs stay alive as long as none of them is deleted. -/
theorem knownLive_reached {ops : List GraphOp}
    (hkeeps : ∀ done v rest, ops = done ++ .deleteValue v :: rest →
      v ∉ (reached done : GraphFloat32 Op Tn).knownGraphOutputs) :
    KnownLive (reached ops : GraphFloat32 Op Tn) := by
  induction ops using List.reverseRecOn with
  | nil =>
    intro v hv
    cases hv
  | append_singleton ops op ih =>
    have hknown := ih fun done v rest hops => hkeeps done v (rest ++ [op]) (by
      rw [hops, List.append_assoc, List.cons_append])
    have hop : op.KeepsKnown (reached ops : GraphFloat32 Op Tn) := by
      cases op with
      | deleteValue v => exact hkeeps ops v [] rfl
      | _ => trivial
    rw [reached_concat]
    refine Ends.after ((op.run_ends (linked_reached ops)).mono
      (fun _ _ hends => hends.2 hknown hop) ?_)
    rintro _ _ ⟨rfl, _⟩
    exact hknown

/-- Before and after the operation the graph is consistent, and an error changes nothing. -/
def StaysConsistent (g : GraphFloat32 Op Tn) (op : GraphOp) : Prop :=
  Consistent g ∧ Ends op.run g (fun _ g' => Consistent g') (Unchanged g)

/-- Every operation of a run goes from a consistent graph to one exactly if no known graph
output is deleted. -/
theorem graph_consistent_iff (ops : List GraphOp) :
    (∀ done op rest, ops = done ++ op :: rest →
      StaysConsistent (reached done : GraphFloat32 Op Tn) op) ↔
    ∀ done v rest, ops = done ++ .deleteValue v :: rest →
      v ∉ (reached done : GraphFloat32 Op Tn).knownGraphOutputs := by
  constructor
  · intro hcons done v rest hops hmem
    obtain ⟨hbefore, hafter⟩ := hcons done _ rest hops
    have hends := hafter.and (deleteValue_ends (linked_reached done) v)
    obtain ⟨hok, herror⟩ := ends_iff.1 hends
    cases hrun : (GraphOp.deleteValue v).run (reached done : GraphFloat32 Op Tn) with
    | ok a g' =>
      obtain ⟨hcons', _, hdel⟩ := hok a g' hrun
      refine hcons'.known v ?_ ?_
      · rwa [hdel.known]
      · rw [hdel.getValue, update_self]
    | error e g' => exact (herror e g' hrun).2.2 (hbefore.known v hmem)
  · intro hkeeps done op rest hops
    have hlinked := @linked_reached Op Tn _ _ done
    have hknown : KnownLive (reached done : GraphFloat32 Op Tn) :=
      knownLive_reached fun before v after hdone => hkeeps before v (after ++ op :: rest) (by
        rw [hops, hdone, List.append_assoc, List.cons_append])
    have hop : op.KeepsKnown (reached done : GraphFloat32 Op Tn) := by
      cases op with
      | deleteValue v => exact hkeeps done v rest hops
      | _ => trivial
    refine ⟨consistent_of_linked hlinked hknown, (op.run_ends hlinked).mono ?_ fun _ _ => id⟩
    exact fun _ _ hends => consistent_of_linked hends.1 (hends.2 hknown hop)

end

/-- A deleted value is still a known output. -/
theorem deleted_known_output :
    ¬∀ ops : List GraphOp, Consistent (reached ops : GraphFloat32 Unit Unit) := by
  intro h
  have hcons := h [.newValue, .addKnownGraphOutput 0, .deleteValue 0]
  exact hcons.known 0 (by decide) (by decide)

end LiteRt.GpuGraph
