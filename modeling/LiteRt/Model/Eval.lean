import LiteRt.Lib.Dataflow
import LiteRt.Model.Dce

/-!
# Evaluating a subgraph

An op is a deterministic function of its attributes and operand values. A graph is
read through the operand and result lists of its ops and the input and output lists
of its subgraphs, never through the back pointers of tensors.
-/

namespace LiteRt.Model

open LiteRt.Lib

/-- What ops compute and what constants hold. -/
structure Semantics (V : Type) where
  op : OpAttrs → List V → Nat → V
  const : TensorType → Quantization → List UInt8 → V

/-- The ops that stand for a call, with what they call. -/
abbrev Calls (V : Type) := OpId → Option (List V → Option (List V))

def noCalls {V : Type} : Calls V := fun _ => none

section
variable {V : Type} (S : Semantics V) (g : Ir) (calls : Calls V)

def opInstr (o : OpId) : Instr TensorId V where
  reads := (g.op o).inputs
  writes := (g.op o).outputs
  run :=
    match calls o with
    | some f => f
    | none => fun vs =>
      some ((List.range (g.op o).outputs.length).map (S.op (g.op o).attrs vs))

def constants : Env TensorId V := fun t =>
  if isConstant (g.tensor t) then
    some (S.const (g.tensor t).type (g.tensor t).qparams (g.tensor t).weights.buffer)
  else none

def Subgraph.block (sg : Subgraph) : Block TensorId V where
  consts := constants S g
  inputs := sg.inputs
  instrs := sg.ops.map (opInstr S g calls)
  outputs := sg.outputs

/-- The values of the outputs of a subgraph, if all of them have one. -/
def evalSubgraph (sg : Subgraph) (args : List V) : Option (List V) :=
  (sg.block S g calls).eval args

end

/-- What no op defines is an input or a constant. -/
def Subgraph.Grounded (g : Ir) (sg : Subgraph) : Prop :=
  ∀ t, (t ∈ sg.outputs ∨ ∃ o ∈ sg.ops, t ∈ (g.op o).inputs) →
    (g.tensor t).definingOp = none → t ∈ sg.inputs ∨ isConstant (g.tensor t)

theorem Subgraph.Grounded.of_forall {g : Ir} {sg : Subgraph}
    (h : ∀ t ∈ sg.outputs ++ sg.ops.flatMap fun o => (g.op o).inputs,
      (g.tensor t).definingOp = none → t ∈ sg.inputs ∨ isConstant (g.tensor t)) :
    sg.Grounded g := fun t ht => h t <| List.mem_append.mpr (ht.imp_right List.mem_flatMap.mpr)

section
variable {V : Type} {S : Semantics V} {g h : Ir} {calls : Calls V} {sg : Subgraph} {t : TensorId}
  {o : OpId}

theorem isConstant_of_sameData {x y : Tensor} (hd : x.SameData y) :
    isConstant y = isConstant x := by
  rw [isConstant, hd.buffer, hd.type, ← isConstant]

theorem constants_of_sameData {t t' : TensorId} (hd : (g.tensor t).SameData (h.tensor t')) :
    constants S h t' = constants S g t := by
  rw [constants, isConstant_of_sameData hd, hd.buffer, hd.type, hd.qparams, ← constants]

theorem constants_isSome (ht : isConstant (g.tensor t)) :
    ∃ v, constants S g t = some v := ⟨_, if_pos ht⟩

theorem opInstr_total (hc : calls o = none) : (opInstr S g calls o).Total := by
  intro vs _
  refine ⟨_, by simp only [opInstr, hc]; rfl, by simp [opInstr]⟩

/-- An op without operands and results has no effect. -/
theorem opInstr_idle (hc : calls o = none) (hd : isOpDead (g.op o)) (e : Env TensorId V) :
    (opInstr S g calls o).step e = some e := by
  obtain ⟨hin, hout⟩ := isOpDead_iff.mp hd
  exact Instr.step_idle hin hout ⟨_, by simp only [opInstr, hc]; rfl⟩

/-- Operands are available when the op list is in topological order. -/
theorem Subgraph.Grounded.scoped (hg : sg.Grounded g) (hwf : sg.WellFormed g)
    (htopo : g.TopoOrder sg.ops) {l₁ : List (Instr TensorId V)} {i : Instr TensorId V}
    {l₂ : List (Instr TensorId V)} (hsplit : sg.ops.map (opInstr S g calls) = l₁ ++ i :: l₂)
    (ht : t ∈ i.reads) :
    (t ∈ sg.inputs ∨ isConstant (g.tensor t)) ∨ ∃ j ∈ l₁, t ∈ j.writes := by
  obtain ⟨os₁, os, hops, rfl, hos⟩ := List.map_eq_append_iff.mp hsplit
  obtain ⟨o, os₂, rfl, rfl, rfl⟩ := List.map_eq_cons_iff.mp hos
  have ho : o ∈ sg.ops := by simp [hops]
  have ht : t ∈ (g.op o).inputs := ht
  cases hd : (g.tensor t).definingOp with
  | none => exact .inl (hg t (.inr ⟨o, ho, ht⟩) hd)
  | some o' =>
    have ho' := hwf.definers t (hwf.operands o ho t ht) o' hd
    have hdep : g.DependsOn o o' := ⟨t, ht, hd⟩
    rw [hops] at htopo ho'
    have hmem : o' ∈ os₁ := by
      rcases List.mem_append.mp ho' with h | h
      · exact h
      · rcases List.mem_cons.mp h with rfl | h
        · exact absurd hdep (htopo.irrefl o' (by simp))
        · exact absurd hdep ((List.pairwise_cons.mp
            (List.pairwise_append.mp htopo.sorted).2.1).1 o' h)
    refine .inr ⟨_, List.mem_map_of_mem hmem, ?_⟩
    exact (hwf.edges o' (hops ▸ List.mem_append_left _ hmem)).mem_outputs_iff.mpr hd

/-- A grounded subgraph in topological order has values for its outputs. -/
theorem evalSubgraph_isSome (hg : sg.Grounded g) (hwf : sg.WellFormed g)
    (htopo : g.TopoOrder sg.ops) (htotal : ∀ o ∈ sg.ops, (opInstr S g calls o).Total)
    {args : List V} (hargs : args.length = sg.inputs.length) :
    ∃ vs, evalSubgraph S g calls sg args = some vs ∧ vs.length = sg.outputs.length := by
  obtain ⟨f, hf, hall⟩ := exec_isSome (sg.ops.map (opInstr S g calls))
    (D := fun t => t ∈ sg.inputs ∨ isConstant (g.tensor t))
    (e := (constants S g).bind sg.inputs args)
    (fun t ht => ht.elim (fun h => Env.bind_isSome h (Nat.le_of_eq hargs.symm))
      fun h => Env.bind_isSome_of_isSome (constants_isSome h) _ _)
    (List.forall_mem_map.mpr htotal)
    (fun l₁ i l₂ hsplit t ht => hg.scoped hwf htopo hsplit ht)
  obtain ⟨vs, hvs⟩ := Env.readAll_isSome f sg.outputs fun t ht => by
    refine hall t ?_
    cases hd : (g.tensor t).definingOp with
    | none => exact .inl (hg t (.inl ht) hd)
    | some o =>
      have ho := hwf.definers t (hwf.ios t (.inr ht)) o hd
      exact .inr ⟨_, List.mem_map_of_mem ho, (hwf.edges o ho).mem_outputs_iff.mpr hd⟩
  refine ⟨vs, ?_, (Env.readAll_eq_some hvs).1⟩
  simp only [evalSubgraph, Block.eval, Subgraph.block, hf, Option.bind_some, hvs]

end

end LiteRt.Model
