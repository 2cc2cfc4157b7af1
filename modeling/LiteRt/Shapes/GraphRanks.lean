import LiteRt.Shapes.Consistency
import LiteRt.Shapes.RankBound

/-!
# The ranks in a graph

The type of a tensor is made without a check of the number of dimensions. A run stays within the
layouts as long as no op that raises the rank has a result of more than eight dimensions to write.
-/

namespace LiteRt.Shapes

open LiteRt.Lib ShapeInferenceEngine

section
variable {T E : Type} {tensors : T → Operand} {types types' types₁ : Types T E}
  {op : GraphOp T OpCode BuiltinOptions} {shapes inputShapes : List Dims} {shape : Dims} {t : T}
  {subgraphs : List (List (GraphOp T OpCode BuiltinOptions))}

/-! ## Inferred shapes -/

theorem length_inputShapes {inputs : List (Option T)}
    (h : inputs.mapM (inputShape types) = .ok inputShapes) :
    ∀ a ∈ inputShapes, a.length ≤ tensorMaxRank := by
  induction inputs generalizing inputShapes with
  | nil =>
    cases h
    exact fun a ha => absurd ha List.not_mem_nil
  | cons input inputs ih =>
    rw [List.mapM_cons, bind_ok_iff] at h
    obtain ⟨first, hfirst, h⟩ := h
    rw [bind_ok_iff] at h
    obtain ⟨rest, hrest, h⟩ := h
    cases h
    refine List.forall_mem_cons.2 ⟨?_, ih hrest⟩
    unfold inputShape at hfirst
    split at hfirst
    · cases hfirst
      exact Nat.zero_le _
    · split at hfirst
      · next layout _ =>
        cases hfirst
        exact layout.rank_le
      · cases hfirst

theorem outputShapes_eq_ok : (standardEngine tensors).outputShapes types op = .ok shapes ↔
    ∃ inputShapes inferrer, op.inputs.mapM (inputShape types) = .ok inputShapes ∧
      standardInferrer op.opCode = some inferrer ∧
      inferrer.infer (op.builtin tensors) inputShapes (List.replicate op.outputs.length []) =
        .ok shapes := by
  unfold ShapeInferenceEngine.outputShapes
  rw [bind_ok_iff]
  refine exists_congr fun inputShapes => ?_
  rw [exists_and_left]
  refine and_congr_right fun _ => ?_
  unfold ShapeInferenceEngine.inferShapesOf standardEngine
  dsimp only
  cases standardInferrer op.opCode with
  | none => exact iff_of_false (fun h => by cases h) (fun h => by obtain ⟨_, h, -⟩ := h; cases h)
  | some inferrer =>
    dsimp only [Option.map_some]
    constructor
    · intro h
      refine ⟨inferrer, rfl, ?_⟩
      cases hinfer : inferrer.infer (op.builtin tensors) inputShapes
          (List.replicate op.outputs.length []) with
      | error e =>
        rw [hinfer] at h
        cases h
      | ok shapes' =>
        rw [hinfer] at h
        cases h
        rfl
    · rintro ⟨_, heq, h⟩
      cases heq
      rw [h]
      rfl

theorem outputShapes_ne_overrun :
    (standardEngine tensors).outputShapes types op ≠ .error .overrun := by
  have hinputs : ∀ inputs : List (Option T), inputs.mapM (inputShape types) ≠ .error .overrun := by
    intro inputs
    induction inputs with
    | nil => exact fun h => by cases h
    | cons input inputs ih =>
      rw [List.mapM_cons]
      have hinput : inputShape types input ≠ .error .overrun := by
        unfold inputShape
        split
        · exact fun h => by cases h
        · split <;> exact fun h => by cases h
      cases hfirst : inputShape types input with
      | error e =>
        intro h
        cases h
        exact hinput hfirst
      | ok first =>
        cases hrest : inputs.mapM (inputShape types) with
        | error e =>
          intro h
          cases h
          exact ih hrest
        | ok rest => exact fun h => by cases h
  unfold ShapeInferenceEngine.outputShapes
  cases hmap : op.inputs.mapM (inputShape types) with
  | error e =>
    intro h
    cases h
    exact hinputs _ hmap
  | ok inputShapes =>
    show (standardEngine tensors).inferShapesOf op inputShapes _ ≠ _
    unfold ShapeInferenceEngine.inferShapesOf
    split
    · exact fun h => by cases h
    · next inferrer _ =>
      cases inferrer op inputShapes (List.replicate op.outputs.length []) <;>
        exact fun h => by cases h

/-- A shape of more dimensions than a layout has room for is that of the first output. -/
theorem raised_of_lt {p : T × Dims}
    (h : (standardEngine tensors).outputShapes types op = .ok shapes)
    (hp : p ∈ writes op.outputs shapes) (hlt : tensorMaxRank < p.2.length) :
    ∃ inputShapes inferrer shape rest, op.inputs.mapM (inputShape types) = .ok inputShapes ∧
      standardInferrer op.opCode = some (.first inferrer) ∧
      inferrer.shape (op.builtin tensors) inputShapes = .ok shape ∧
      inferrer.raisedRank (op.builtin tensors) inputShapes = some p.2.length ∧
      op.outputs.head? = some (some p.1) ∧ writes op.outputs shapes = p :: rest := by
  obtain ⟨inputShapes, inferrer, hinputs, hinferrer, hinfer⟩ := outputShapes_eq_ok.1 h
  have hranks := length_inputShapes hinputs
  have hmem : p.2 ∈ shapes := by
    obtain ⟨q, hq, hqp⟩ := List.mem_filterMap.1 hp
    obtain ⟨t, -, rfl⟩ := Option.map_eq_some_iff.1 hqp
    exact (List.of_mem_zip hq).2
  cases inferrer with
  | unpack => exact absurd (length_inferUnpack hranks hinfer p.2 hmem) (Nat.not_le.2 hlt)
  | topKV2 =>
    have hempty : ∀ a ∈ List.replicate op.outputs.length ([] : Dims), a = [] := fun a ha =>
      List.eq_of_mem_replicate ha
    exact absurd (length_inferTopKV2 hranks hempty hinfer p.2 hmem) (Nat.not_le.2 hlt)
  | first inferrer =>
    obtain ⟨shape, hshape, rfl⟩ := first_infer_ok hinfer
    have hothers : ∀ outputs : List (Option T), ∀ q ∈ writes outputs
        (List.replicate (op.outputs.length - 1) []), q.2 = [] := by
      intro outputs q hq
      obtain ⟨q', hq', hqq⟩ := List.mem_filterMap.1 hq
      obtain ⟨t, -, rfl⟩ := Option.map_eq_some_iff.1 hqq
      exact List.eq_of_mem_replicate (List.of_mem_zip hq').2
    have hnot : ∀ outputs : List (Option T), p ∉ writes outputs
        (List.replicate (op.outputs.length - 1) []) := by
      intro outputs hq
      rw [hothers outputs p hq] at hlt
      exact absurd hlt (Nat.not_lt_zero _)
    rcases houtputs : op.outputs with - | ⟨- | t, outputs⟩
    · rw [houtputs] at hp
      cases hp
    · rw [houtputs] at hp
      rw [houtputs] at hnot
      exact absurd hp (hnot outputs)
    · rw [houtputs] at hp hnot
      have hpt : p = (t, shape) := by
        rcases List.mem_cons.1 hp with hp | hp
        · exact hp
        · exact absurd hp (hnot outputs)
      subst hpt
      refine ⟨inputShapes, inferrer, shape, _, hinputs, hinferrer, hshape, ?_, rfl, rfl⟩
      rcases hraised : inferrer.raisedRank (op.builtin tensors) inputShapes with - | r
      · exact absurd (Inferrer.length_le (by decide) hranks hraised hshape) (Nat.not_le.2 hlt)
      · rw [Inferrer.length_eq hraised hshape]

/-! ## Ranks that fit -/

/-- An op that raises the rank, and whose result is written to its first output, raises it to
`tensorMaxRank` at most. A ranked constant is compared before it is written. -/
def RankFits (tensors : T → Operand) (types : Types T E)
    (op : GraphOp T OpCode BuiltinOptions) : Prop :=
  ∀ inputShapes inferrer shape r t, op.inputs.mapM (inputShape types) = .ok inputShapes →
    standardInferrer op.opCode = some (.first inferrer) →
    inferrer.shape (op.builtin tensors) inputShapes = .ok shape →
    inferrer.raisedRank (op.builtin tensors) inputShapes = some r →
    op.outputs.head? = some (some t) → (types t).elementType ≠ none →
    (tensors t).buffer = [] ∨ (types t).dimensions = none → r ≤ tensorMaxRank

variable [DecidableEq T]

/-- A run over the subgraphs comes to an op with these types. -/
def Reached (tensors : T → Operand) (subgraphs : List (List (GraphOp T OpCode BuiltinOptions)))
    (types : Types T E) (op : GraphOp T OpCode BuiltinOptions) (types₁ : Types T E) : Prop :=
  ∃ before after, subgraphs.flatten = before ++ op :: after ∧
    (standardEngine tensors).inferSubgraphShapes false before types = (types₁, .ok ())

/-- Instead of writing a result of more dimensions than a layout has room for, the inference of
the op returns an error. -/
def RanksChecked (tensors : T → Operand) (types : Types T E)
    (op : GraphOp T OpCode BuiltinOptions) : Prop :=
  ∀ shapes, (standardEngine tensors).outputShapes types op = .ok shapes →
    ∀ p ∈ writes op.outputs shapes, (types p.1).elementType ≠ none → tensorMaxRank < p.2.length →
      ∃ types' stop, (standardEngine tensors).inferOpShapes false op types =
        (types', .error stop) ∧ stop.IsStatus

theorem dimensionsAfter_nil (types : Types T E) (t : T) :
    dimensionsAfter types [] t = (types t).dimensions := by
  unfold dimensionsAfter
  cases (types t).elementType <;> rfl

theorem inferOpShapes_eq (h : (standardEngine tensors).outputShapes types op = .ok shapes) :
    (standardEngine tensors).inferOpShapes false op types =
      (standardEngine tensors).updateOutputs false (writes op.outputs shapes) types := by
  unfold ShapeInferenceEngine.inferOpShapes
  rw [h]

/-- The first output of an op whose rank is raised is written first, and has to fit. -/
theorem rankFits_of_checked (hchecked : RanksChecked tensors types op) :
    RankFits tensors types op := by
  intro inputShapes inferrer shape r t hinputs hinferrer hshape hraised hhead he hfree
  by_contra hlt
  rw [Nat.not_le] at hlt
  obtain ⟨outputs, houtputs⟩ : ∃ outputs, op.outputs = some t :: outputs := by
    cases hop : op.outputs with
    | nil =>
      rw [hop] at hhead
      cases hhead
    | cons output outputs =>
      rw [hop] at hhead
      cases hhead
      exact ⟨outputs, rfl⟩
  have hok : (standardEngine tensors).outputShapes types op =
      .ok (shape :: List.replicate outputs.length []) := by
    refine outputShapes_eq_ok.2 ⟨inputShapes, _, hinputs, hinferrer, ?_⟩
    unfold StandardInferrer.infer
    dsimp only
    rw [houtputs, hshape]
    rfl
  have hlen := Inferrer.length_eq hraised hshape
  have hwrites : writes op.outputs (shape :: List.replicate outputs.length []) =
      (t, shape) :: writes outputs (List.replicate outputs.length []) := by
    rw [houtputs]
    rfl
  obtain ⟨types', stop, hrun, hstatus⟩ := hchecked _ hok (t, shape)
    (by rw [hwrites]; exact List.mem_cons_self) he (by rwa [hlen])
  rw [inferOpShapes_eq hok, hwrites, updateOutputs] at hrun
  rcases @updateOutput_settles _ _ _ _ _ (standardEngine tensors) _ _ _ (Settled.refl types)
    (t, shape) with ⟨⟨hw, d, hd, -⟩, -⟩ | ⟨-, -, herr⟩ | ⟨-, hfits, -⟩
  · rw [dimensionsAfter_nil] at hd
    rcases hfree with hempty | hnone
    · exact hw hempty
    · cases hnone.symm.trans hd
  · rw [herr] at hrun
    cases hrun
    exact hstatus
  · exact hfits ⟨he, by rwa [hlen]⟩

/-- A shape without room is a raised one, and the constant that it is for does not have it. -/
theorem ranksChecked_of_fits (hfits : RankFits tensors types op) :
    RanksChecked tensors types op := by
  intro shapes hok p hp he hlt
  obtain ⟨inputShapes, inferrer, shape, rest, hinputs, hinferrer, hshape, hraised, hhead, hwrites⟩
    := raised_of_lt hok hp hlt
  have hconstant : Rejects (standardEngine tensors) types [] p := by
    have hnot : ¬((tensors p.1).buffer = [] ∨ (types p.1).dimensions = none) := fun hfree =>
      absurd (hfits _ _ _ _ _ hinputs hinferrer hshape hraised hhead he hfree) (Nat.not_le.2 hlt)
    rw [not_or] at hnot
    obtain ⟨d, hd⟩ := Option.ne_none_iff_exists'.1 hnot.2
    refine ⟨hnot.1, d, by rw [dimensionsAfter_nil, hd], ?_⟩
    intro heq
    cases htype : types p.1 with
    | ranked e layout =>
      rw [htype, heq] at hd
      have hdims : layout.dimensions = p.2 := Option.some.inj hd
      rw [← hdims] at hlt
      exact absurd layout.rank_le (Nat.not_le.2 hlt)
    | unranked e =>
      rw [htype] at hd
      cases hd
  rw [inferOpShapes_eq hok, hwrites, updateOutputs]
  rcases @updateOutput_settles _ _ _ _ _ (standardEngine tensors) _ _ _ (Settled.refl types) p with
    ⟨-, herr⟩ | ⟨hno, -⟩ | ⟨hno, -⟩
  · rw [herr]
    exact ⟨_, _, rfl, by decide, by decide⟩
  · exact absurd hconstant hno
  · exact absurd hconstant hno

theorem ranksChecked_iff : RanksChecked tensors types op ↔ RankFits tensors types op :=
  ⟨rankFits_of_checked, ranksChecked_of_fits⟩

/-! ## Runs -/

/-- A write past a layout is one that has not been checked. -/
theorem inferOpShapes_ne_overrun (h : RanksChecked tensors types op) :
    (standardEngine tensors).inferOpShapes false op types ≠ (types', .error .overrun) := by
  intro hrun
  have hrun' := hrun
  unfold ShapeInferenceEngine.inferOpShapes at hrun
  split at hrun
  · next stop hstop =>
    cases hrun
    exact outputShapes_ne_overrun hstop
  · next shapes hok =>
    rcases @updateOutputs_cases _ _ _ _ _ (standardEngine tensors) _ _ (writes op.outputs shapes) _
      (Settled.refl types) clean_nil with
      ⟨_, hrest, -⟩ | ⟨mid, p, after, cur, hsplit, -, -, ⟨-, herr⟩ | ⟨-, ⟨he, hlt⟩, -⟩⟩
    · rw [hrest] at hrun
      cases hrun
    · rw [herr] at hrun
      cases hrun
    · have hp : p ∈ writes op.outputs shapes := by
        rw [hsplit]
        exact List.mem_append_right _ List.mem_cons_self
      obtain ⟨_, stop, hother, hstatus⟩ := h shapes hok p hp he hlt
      rw [hrun'] at hother
      cases hother
      exact hstatus

/-- A validation writes nothing. -/
theorem inferOpShapes_true_ne_overrun :
    (standardEngine tensors).inferOpShapes true op types ≠ (types', .error .overrun) := by
  intro hrun
  unfold ShapeInferenceEngine.inferOpShapes at hrun
  split at hrun
  · next stop hstop =>
    cases hrun
    exact outputShapes_ne_overrun hstop
  · next shapes hok =>
    generalize writes op.outputs shapes = ws at hrun
    induction ws with
    | nil => cases hrun
    | cons w ws ih =>
      rw [updateOutputs, updateOutput_true] at hrun
      rcases validateOutput_cases (types w.1) w.2 with hok' | herr
      · rw [hok'] at hrun
        exact ih hrun
      · rw [herr] at hrun
        cases hrun

/-- A run that fails does so at an op it comes to. -/
theorem inferSubgraphShapes_error {C O : Type} {engine : ShapeInferenceEngine T C O}
    {validationOnly : Bool} {ops : List (GraphOp T C O)} {op : GraphOp T C O} {stop : Stop}
    (h : engine.inferSubgraphShapes validationOnly ops types = (types', .error (op, stop))) :
    ∃ before after types₁, ops = before ++ op :: after ∧
      engine.inferSubgraphShapes validationOnly before types = (types₁, .ok ()) ∧
      engine.inferOpShapes validationOnly op types₁ = (types', .error stop) := by
  induction ops generalizing types with
  | nil => cases h
  | cons op₁ ops ih =>
    rw [inferSubgraphShapes] at h
    rcases hrun : engine.inferOpShapes validationOnly op₁ types with ⟨types₂, stop₁ | u⟩
    · rw [hrun] at h
      cases h
      exact ⟨[], ops, types, rfl, rfl, hrun⟩
    · rw [hrun] at h
      obtain ⟨before, after, types₁, rfl, hbefore, hop⟩ := ih h
      refine ⟨op₁ :: before, after, types₁, rfl, ?_, hop⟩
      rw [inferSubgraphShapes, hrun]
      exact hbefore

/-- The ranks of all results that are written are checked, and no layout is overrun, exactly when
the ranks fit at every op a run comes to. -/
theorem inferShapes_ranks_iff (tensors : T → Operand) (types : Types T E)
    (subgraphs : List (List (GraphOp T OpCode BuiltinOptions))) :
    ((∀ op types₁, Reached tensors subgraphs types op types₁ → RanksChecked tensors types₁ op) ∧
        ∀ validationOnly types' op,
          (standardEngine tensors).inferShapes validationOnly subgraphs types ≠
            (types', .error (op, .overrun))) ↔
      ∀ op types₁, Reached tensors subgraphs types op types₁ → RankFits tensors types₁ op := by
  have hsteps : (∀ op types₁, Reached tensors subgraphs types op types₁ →
      RanksChecked tensors types₁ op) ↔
      ∀ op types₁, Reached tensors subgraphs types op types₁ → RankFits tensors types₁ op :=
    forall_congr' fun op => forall_congr' fun types₁ => imp_congr_right fun _ => ranksChecked_iff
  rw [← hsteps]
  refine and_iff_left_of_imp fun hchecked validationOnly types' op hrun => ?_
  rw [inferShapes_eq] at hrun
  obtain ⟨before, after, types₁, hsplit, hbefore, hop⟩ := inferSubgraphShapes_error hrun
  cases validationOnly with
  | true => exact inferOpShapes_true_ne_overrun hop
  | false =>
    exact inferOpShapes_ne_overrun (hchecked op types₁ ⟨before, after, hsplit, hbefore⟩) hop

end

/-- A pack of one tensor of eight dimensions. -/
def packFull : GraphOp Nat OpCode BuiltinOptions where
  opCode := .pack
  inputs := [some 0]
  outputs := [some 1]
  options := .pack 0

def packTensors : Nat → Operand := fun _ => ⟨.other, true, []⟩

def packTypes : Types Nat ElementType := fun _ =>
  .ranked (some .other) ⟨List.replicate 8 1, none, by decide⟩

/-- The ninth dimension is written past the layout. -/
theorem packFull_overrun :
    (standardEngine packTensors).inferShapes false [[packFull]] packTypes =
      (packTypes, .error (packFull, .overrun)) ∧
    ¬RanksChecked packTensors packTypes packFull := by
  have hop : (standardEngine packTensors).inferOpShapes false packFull packTypes =
      (packTypes, .error .overrun) := rfl
  refine ⟨rfl, fun hchecked => ?_⟩
  obtain ⟨_, _, hrun, hstatus⟩ := hchecked [List.replicate 9 1] rfl (1, List.replicate 9 1)
    List.mem_cons_self (Option.some_ne_none _) (by decide)
  rw [hop] at hrun
  cases hrun
  exact hstatus

end LiteRt.Shapes
