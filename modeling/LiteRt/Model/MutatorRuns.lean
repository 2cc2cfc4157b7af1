import LiteRt.Lib.Run
import LiteRt.Model.FromOps

/-!
# Runs of graph mutators

From a well-formed graph every in-range mutator applies. Attaching and dropping
keep the graph well-formed; disconnecting keeps it so exactly when there is at
most one later record to renumber per tensor (`DisconnectInput`), or no later
result (`DisconnectOutput`).
-/

namespace LiteRt.Model

section

open LiteRt.Lib

inductive Mutator where
  | attachInput (t : TensorId) (o : OpId)
  | attachOutput (t : TensorId) (o : OpId)
  | disconnectInput (o : OpId) (inputInd : Nat)
  | disconnectOutput (o : OpId) (outputInd : Nat)
  | drop (o : OpId)
  deriving DecidableEq, Repr

namespace Mutator

def apply (g : Ir) : Mutator → Option Ir
  | .attachInput t o => some (LiteRt.Model.attachInput g t o)
  | .attachOutput t o => LiteRt.Model.attachOutput g t o
  | .disconnectInput o i => (LiteRt.Model.disconnectInput g o i).map Prod.fst
  | .disconnectOutput o i => (LiteRt.Model.disconnectOutput g o i).map Prod.fst
  | .drop o => LiteRt.Model.drop g o

/-- The tensor to attach is undefined, the index to disconnect in range. -/
def InRange (g : Ir) : Mutator → Prop
  | .attachOutput t _ => (g.tensor t).definingOp = none
  | .disconnectInput o i => i < (g.op o).inputs.length
  | .disconnectOutput o i => i < (g.op o).outputs.length
  | _ => True

/-- The code leaves no record to renumber behind: the operands after the removed
one are distinct, the removed result is the last. -/
def Renumbers (g : Ir) : Mutator → Prop
  | .disconnectInput o i => ((g.op o).inputs.drop (i + 1)).Nodup
  | .disconnectOutput o i => (g.op o).outputs.length = i + 1
  | _ => True

instance (g : Ir) : DecidablePred (InRange g)
  | .attachInput .. => .isTrue trivial
  | .attachOutput t _ => inferInstanceAs (Decidable ((g.tensor t).definingOp = none))
  | .disconnectInput o i => inferInstanceAs (Decidable (i < (g.op o).inputs.length))
  | .disconnectOutput o i => inferInstanceAs (Decidable (i < (g.op o).outputs.length))
  | .drop _ => .isTrue trivial

instance (g : Ir) : DecidablePred (Renumbers g)
  | .attachInput .. => .isTrue trivial
  | .attachOutput .. => .isTrue trivial
  | .disconnectInput o i => inferInstanceAs (Decidable ((g.op o).inputs.drop (i + 1)).Nodup)
  | .disconnectOutput o i => inferInstanceAs (Decidable ((g.op o).outputs.length = i + 1))
  | .drop _ => .isTrue trivial

/-- One mutator: it applies, and the result is well-formed exactly when nothing
was left to renumber. -/
theorem apply_wellFormed_iff {g : Ir} (h : g.WellFormed) {m : Mutator} (hm : m.InRange g) :
    ∃ g', m.apply g = some g' ∧ (g'.WellFormed ↔ m.Renumbers g) := by
  cases m with
  | attachInput t o =>
    exact ⟨_, rfl, iff_of_true (attachInput_wellFormed h t o) trivial⟩
  | attachOutput t o =>
    have he : LiteRt.Model.attachOutput g t o = some _ := if_pos hm
    exact ⟨_, he, iff_of_true (attachOutput_wellFormed h he) trivial⟩
  | disconnectInput o i =>
    have hi := List.getElem?_eq_getElem (show i < (g.op o).inputs.length from hm)
    obtain ⟨g', he⟩ := disconnectInput_isSome h hi
    exact ⟨g', by rw [apply, he]; rfl, disconnectInput_wellFormed_iff h he hi⟩
  | disconnectOutput o i =>
    have hi := List.getElem?_eq_getElem (show i < (g.op o).outputs.length from hm)
    obtain ⟨g', he, -⟩ := disconnectOutput_spec hi
    exact ⟨g', by rw [apply, he]; rfl, disconnectOutput_wellFormed_iff h he⟩
  | drop o =>
    exact ⟨_, drop_eq (h.at o), iff_of_true (h.eraseEdges o) trivial⟩

end Mutator

/-- A graph without edges. -/
def Ir.empty : Ir where
  tensor _ := {}
  op _ := {}
  alloc := {}

theorem Ir.empty_wellFormed : Ir.empty.WellFormed :=
  .of_counts (by simp [Ir.empty]) (by simp [Ir.empty]) (by simp [Ir.empty])

/-- **Use-def consistency over runs.** In every state a run of in-range mutators
reaches, when each step leaves nothing to renumber, the graph is well-formed,
every in-range mutator applies, and it keeps the graph well-formed exactly when
it leaves nothing to renumber itself. -/
theorem mutators_wellFormed {g g' : Ir} {ms : List Mutator}
    (hrun : Run (fun g m => Mutator.InRange g m ∧ Mutator.Renumbers g m) Mutator.apply g ms g')
    (h : g.WellFormed) :
    g'.WellFormed ∧ ∀ m : Mutator, m.InRange g' →
      ∃ g'', m.apply g' = some g'' ∧ (g''.WellFormed ↔ m.Renumbers g') := by
  have h' : g'.WellFormed := by
    refine hrun.invariant (P := Ir.WellFormed) (fun s m s' hm hs hwf => ?_) h
    obtain ⟨s'', he, hiff⟩ := Mutator.apply_wellFormed_iff hwf hm.1
    obtain rfl : s'' = s' := by rw [he] at hs; exact Option.some.inj hs
    exact hiff.mpr hm.2
  exact ⟨h', fun m hm => Mutator.apply_wellFormed_iff h' hm⟩

/-- An op with one tensor as both operands, its last operand disconnected, then dropped. -/
theorem mutators_wellFormed_repeated_operand :
    ∃ g', Run (fun g m => Mutator.InRange g m ∧ Mutator.Renumbers g m) Mutator.apply Ir.empty
        [.attachInput 0 0, .attachInput 0 0, .disconnectInput 0 0, .drop 0] g' ∧
      g'.WellFormed := by
  obtain ⟨g', hrun⟩ : ∃ g', Run (fun g m => Mutator.InRange g m ∧ Mutator.Renumbers g m)
      Mutator.apply Ir.empty
      [.attachInput 0 0, .attachInput 0 0, .disconnectInput 0 0, .drop 0] g' :=
    ⟨_, .cons (by decide) rfl (.cons (by decide) rfl (.cons (by decide) rfl
      (.cons (by decide) rfl (.nil _))))⟩
  exact ⟨g', hrun, (mutators_wellFormed hrun Ir.empty_wellFormed).1⟩

/-- Removing the first of two results leaves the second one's index stale, and
removing an operand before two occurrences of one tensor slides their records
past each other. -/
theorem disconnect_not_wellFormed :
    Ir.empty.WellFormed ∧
    (∃ g', Run Mutator.InRange Mutator.apply Ir.empty
        [.attachOutput 0 0, .attachOutput 1 0, .disconnectOutput 0 0] g' ∧ ¬ g'.WellFormed) ∧
    ∃ g', Run Mutator.InRange Mutator.apply Ir.empty
        [.attachInput 0 0, .attachInput 1 0, .attachInput 1 0, .disconnectInput 0 0] g' ∧
      ¬ g'.WellFormed := by
  refine ⟨Ir.empty_wellFormed, ⟨_, .cons (by decide) rfl (.cons (by decide) rfl
    (.cons (by decide) rfl (.nil _))), fun h => ?_⟩, _, .cons (by decide) rfl
    (.cons (by decide) rfl (.cons (by decide) rfl (.cons (by decide) rfl (.nil _)))), fun h => ?_⟩
  · exact absurd (h.def_sound 0 0 1 (by decide)).2 (by decide)
  · exact absurd (h.use_once 0 1 1 (by decide)) (by decide)

end

/-!
## Runs of `Drop`

The two loops of `Drop` without a bound on their rounds: each round has to find what it
disconnects. On a well-formed graph both end, and only the edges of the op are gone.
-/

/-- A loop that disconnects the first of `operands` as long as there are any. -/
inductive Drains (operands : Ir → List TensorId) (disconnect : Ir → Option (Ir × TensorId)) :
    Ir → Ir → Prop where
  | done {g : Ir} : operands g = [] → Drains operands disconnect g g
  | step {g g' g'' : Ir} {t : TensorId} : operands g ≠ [] → disconnect g = some (g', t) →
      Drains operands disconnect g' g'' → Drains operands disconnect g g''

section
variable {o : OpId} {n : Nat} {g g' : Ir}

theorem drains_of_dropInputs (h : dropInputs o n g = some g') (hend : (g'.op o).inputs = []) :
    Drains (fun g => (g.op o).inputs) (fun g => disconnectInput g o 0) g g' := by
  induction n generalizing g with
  | zero =>
    obtain rfl : g = g' := Option.some.inj h
    exact .done hend
  | succ n ih =>
    unfold dropInputs at h
    split at h
    · next hnil =>
      obtain rfl : g = g' := Option.some.inj h
      exact .done hnil
    · next hne =>
      obtain ⟨p, hp, hr⟩ := Option.bind_eq_some_iff.1 h
      exact .step hne hp (ih hr)

theorem drains_of_dropOutputs (h : dropOutputs o n g = some g') (hend : (g'.op o).outputs = []) :
    Drains (fun g => (g.op o).outputs) (fun g => disconnectOutput g o 0) g g' := by
  induction n generalizing g with
  | zero =>
    obtain rfl : g = g' := Option.some.inj h
    exact .done hend
  | succ n ih =>
    unfold dropOutputs at h
    split at h
    · next hnil =>
      obtain rfl : g = g' := Option.some.inj h
      exact .done hnil
    · next hne =>
      obtain ⟨p, hp, hr⟩ := Option.bind_eq_some_iff.1 h
      exact .step hne hp (ih hr)

end

/-- `Drop` ends, finds a use record for operand 0 in every round, and removes the edges of its
op and no others. -/
theorem drop_runs {g : Ir} (h : g.WellFormed) (o : OpId) :
    ∃ g₁ g₂, Drains (fun g => (g.op o).inputs) (fun g => disconnectInput g o 0) g g₁ ∧
      Drains (fun g => (g.op o).outputs) (fun g => disconnectOutput g o 0) g₁ g₂ ∧
      drop g o = some g₂ ∧
      (g₂.op o).inputs = [] ∧ (g₂.op o).outputs = [] ∧
      (∀ t i, (o, i) ∉ (g₂.tensor t).users) ∧
      (∀ t ∈ (g.op o).outputs, (g₂.tensor t).definingOp = none) ∧
      (∀ t, t ∉ (g.op o).outputs → (g₂.tensor t).definingOp = (g.tensor t).definingOp) ∧
      (∀ o', o' ≠ o → g₂.op o' = g.op o') ∧
      ∀ t, ((g₂.tensor t).users.filter fun u => u.1 ≠ o) =
        (g.tensor t).users.filter fun u => u.1 ≠ o := by
  obtain ⟨g₁, he₁, -, hin⟩ := dropInputs_spec (DropInv.init (h.at o)) rfl
  obtain ⟨g₂, he₂, -, -, hO⟩ := @dropOutputs_spec o g₁ _ rfl
  have hout : (g₂.op o).outputs = [] := by rw [hO, if_pos rfl]
  have hdrop : drop g o = some g₂ := by
    unfold drop
    rw [he₁]
    exact he₂
  obtain rfl : g₂ = g.eraseEdges o := Option.some.inj (hdrop.symm.trans (drop_eq (h.at o)))
  refine ⟨g₁, _, drains_of_dropInputs he₁ hin, drains_of_dropOutputs he₂ hout, hdrop,
    inputs_eraseEdges_self, hout, fun t i hm => ?_, fun t ht => ?_, fun t ht => ?_,
    fun o' ho => op_eraseEdges_ne ho, fun t => ?_⟩
  · rw [users_eraseEdges] at hm
    exact of_decide_eq_true (List.mem_filter.1 hm).2 rfl
  · rw [definingOp_eraseEdges, if_pos ((h.at o).mem_outputs_iff.1 ht)]
  · rw [definingOp_eraseEdges, if_neg fun hd => ht ((h.at o).mem_outputs_iff.2 hd)]
  · rw [users_eraseEdges, List.filter_filter]
    refine List.filter_congr fun u _ => ?_
    rw [Bool.and_self]

/-- An op that reads one tensor at four of its positions, with another reader of it. -/
def fourTimes : Ir :=
  .ofOps [{ inputs := [0, 1, 0, 0, 0], outputs := [2] }, { inputs := [0, 2], outputs := [3] }] 4
    fun _ => {}

theorem drop_runs_fourTimes : ∃ g, drop fourTimes 0 = some g ∧ (g.op 0).inputs = [] ∧
    g.op 1 = fourTimes.op 1 := by
  obtain ⟨-, g, -, -, hdrop, hin, -, -, -, -, hop, -⟩ :=
    drop_runs (g := fourTimes) (Ir.ofOps_wellFormed (by decide)) 0
  exact ⟨g, hdrop, hin, hop 1 (by decide)⟩

end LiteRt.Model
