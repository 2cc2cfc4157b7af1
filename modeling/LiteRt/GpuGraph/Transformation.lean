import LiteRt.GpuGraph.KeepNode

/-!
# Transformations of the graph

A transformation looks at a sequence of nodes and says what it did. It changes the attributes of
a node in place and removes a neighbour with one of the helpers.
-/

namespace LiteRt.GpuGraph

open LiteRt.Lib GraphFloat32

variable {Op Tn : Type} {g g' : GraphFloat32 Op Tn} {n k : NodeId} {op : Op}

inductive TransformStatus where
  | skipped
  | declined
  | applied
  | invalid
  deriving DecidableEq, Repr

structure TransformResult where
  status : TransformStatus
  message : String
  deriving DecidableEq, Repr

def GraphFloat32.withOperation (g : GraphFloat32 Op Tn) (id : NodeId) (op : Op) :
    GraphFloat32 Op Tn :=
  { g with nodes := g.nodes.modify id fun n => { n with node := some op } }

/-- The operation of a node is assigned through its pointer. -/
def setOperation (id : NodeId) (op : Op) : GraphM Op Tn Unit :=
  modify fun g => g.withOperation id op

def statusOf (x : GraphM Op Tn Unit) : GraphM Op Tn (Option Status) := fun g =>
  match x g with
  | .ok _ g' => .ok none g'
  | .error (.error status) g' => .ok (some status) g'
  | .error .undefined g' => .error .undefined g'

/-- After the removal of a neighbour the attributes are those of `op`; an error is reported with
the given text. -/
def finishWith (removal : GraphM Op Tn Unit) (invalid : String)
    (applied : GraphM Op Tn TransformResult) : GraphM Op Tn TransformResult := do
  let status ← statusOf removal
  match status with
  | some status => pure ⟨.invalid, invalid ++ status.message⟩
  | none => applied

theorem finishWith_applied {removal : GraphM Op Tn Unit} {invalid : String}
    {applied : GraphM Op Tn TransformResult} {r : TransformResult}
    (hrun : finishWith removal invalid applied g = .ok r g') (hr : r.status = .applied) :
    ∃ g₁, removal g = .ok () g₁ ∧ applied g₁ = .ok r g' := by
  obtain ⟨status, g₁, hstatus, hrest⟩ := bind_eq_ok.1 hrun
  unfold statusOf at hstatus
  cases hremoval : removal g with
  | ok a g₂ =>
    rw [hremoval] at hstatus
    cases hstatus
    exact ⟨_, rfl, hrest⟩
  | error e g₂ =>
    rw [hremoval] at hstatus
    cases e with
    | undefined => cases hstatus
    | error status =>
      cases hstatus
      cases hrest
      cases hr

theorem getNode_withOperation (hn : g.getNode n ≠ none) :
    (g.withOperation n op).getNode = Function.update g.getNode n (some op) := by
  funext m
  by_cases hm : m = n
  · subst hm
    simp [getNode, withOperation, List.getElem?_eq_getElem (lt_of_getNode hn)]
  · simp [getNode, withOperation, List.getElem?_modify_ne _ _ (Ne.symm hm), hm]

theorem links_withOperation (g : GraphFloat32 Op Tn) (n : NodeId) (op : Op) :
    (g.withOperation n op).links = g.links :=
  Links.ext rfl rfl
    (funext fun m => g.nodes_modify_view (·.inputs) [] (fun a => { a with node := some op })
      (fun _ => rfl) n m)
    (funext fun m => g.nodes_modify_view (·.outputs) [] (fun a => { a with node := some op })
      (fun _ => rfl) n m)

theorem removePrecedingNode_getNode (h : g.Linked)
    (hrun : removePrecedingNode n k g = .ok () g') {m : NodeId} (hm : m ≠ n) :
    g'.getNode m = g.getNode m :=
  ((removePrecedingNode_ends h n k).ok hrun).2 m hm

/-- Assigning an operation to a live node leaves the graph consistent. -/
theorem linked_withOperation (h : g.Linked) (hn : g.getNode n ≠ none) :
    (g.withOperation n op).Linked := by
  have hlinks := links_withOperation g n op
  refine ⟨hlinks ▸ h.links, ?_, ?_⟩
  · intro m v hlink
    rw [hlinks] at hlink
    have hlive := h.live m v hlink
    refine ⟨?_, hlive.2⟩
    rw [getNode_withOperation hn]
    by_cases hm : m = n
    · rw [hm, Function.update_self]
      simp
    · rw [Function.update_of_ne hm]
      exact hlive.1
  · change g.executionPlan.Perm (List.range (List.modify _ _ _).length)
    rw [List.length_modify]
    exact h.plan

end LiteRt.GpuGraph
