import LiteRt.Shapes.Operators

/-!
# Inferring the shapes of a graph again

In a topologically ordered graph an op reads what only earlier ops write, so that the shapes
inferred for its outputs are the same when the whole graph has been run.
-/

namespace LiteRt.Shapes

open LiteRt.Lib ShapeInferenceEngine List

section
variable {T C O E : Type}

/-! ## Graphs -/

def GraphOp.inputTensors (op : GraphOp T C O) : List T := op.inputs.filterMap id

def GraphOp.outputTensors (op : GraphOp T C O) : List T := op.outputs.filterMap id

/-- The tensors that are an output of one of the ops. -/
def written (ops : List (GraphOp T C O)) : List T := ops.flatMap GraphOp.outputTensors

/-- Each tensor is an output once at most, and no op reads an output of its own or of a later
op. -/
structure TopologicallyOrdered (ops : List (GraphOp T C O)) : Prop where
  nodup : (written ops).Nodup
  ordered : ∀ before op after, ops = before ++ op :: after →
    List.Disjoint op.inputTensors (written (op :: after))

/-- Subgraphs that are topologically ordered and have tensors of their own. -/
structure Ordered (subgraphs : List (List (GraphOp T C O))) : Prop where
  ordered : ∀ ops ∈ subgraphs, TopologicallyOrdered ops
  own : subgraphs.Pairwise fun a b => ∀ op ∈ a, ∀ op' ∈ b,
    List.Disjoint (op.inputTensors ++ op.outputTensors) (op'.inputTensors ++ op'.outputTensors)

/-- The dimensions of a type, if it has any, agree with a shape where both are known. -/
def Agrees (type : TensorType E) (shape : Dims) : Prop :=
  ∀ d, type.dimensions = some d →
    d.length = shape.length ∧ ∀ q ∈ d.zip shape, q.1 = -1 ∨ q.2 = -1 ∨ q.1 = q.2

/-- The outputs without an element type, which no update reaches, agree with the shapes
inferred for them. -/
def UntypedAgree (engine : ShapeInferenceEngine T C O) (types : Types T E)
    (op : GraphOp T C O) : Prop :=
  ∀ shapes, engine.outputShapes types op = .ok shapes → ∀ p ∈ writes op.outputs shapes,
    (types p.1).elementType = none → Agrees (types p.1) p.2

section
variable {engine : ShapeInferenceEngine T C O} {types types' : Types T E} {op : GraphOp T C O}
  {ops ops' before after : List (GraphOp T C O)} {t : T} {shape : Dims} {ws : List (T × Dims)}
  {types₁ : Types T E} {subgraphs : List (List (GraphOp T C O))} {validationOnly : Bool}

theorem written_append : written (ops ++ ops') = written ops ++ written ops' :=
  flatMap_append

theorem written_cons : written (op :: ops) = op.outputTensors ++ written ops :=
  flatMap_cons

theorem mem_written : t ∈ written ops ↔ ∃ op ∈ ops, t ∈ op.outputTensors := mem_flatMap

/-- The tensors of the writes are the first outputs that are there. -/
theorem map_fst_writes (outputs : List (Option T)) (shapes : List Dims) :
    ((writes outputs shapes).map Prod.fst).Sublist (outputs.filterMap id) := by
  induction outputs generalizing shapes with
  | nil => exact nil_sublist _
  | cons output outputs ih =>
    cases shapes with
    | nil => exact nil_sublist _
    | cons shape shapes =>
      cases output with
      | none => exact ih shapes
      | some t => exact (ih shapes).cons_cons t

theorem mapM_inputShape_congr {inputs : List (Option T)}
    (h : ∀ t ∈ inputs.filterMap id, types t = types' t) :
    inputs.mapM (inputShape types) = inputs.mapM (inputShape types') := by
  induction inputs with
  | nil => rfl
  | cons input inputs ih =>
    have hinput : inputShape types input = inputShape types' input := by
      cases input with
      | none => rfl
      | some t =>
        unfold inputShape
        dsimp only
        rw [h t mem_cons_self]
    have hrest : inputs.mapM (inputShape types) = inputs.mapM (inputShape types') :=
      ih fun t ht => h t (by
        cases input with
        | none => exact ht
        | some u => exact mem_cons_of_mem u ht)
    rw [mapM_cons, mapM_cons, hinput, hrest]

/-- The inferred shapes depend on the types of the inputs only. -/
theorem outputShapes_congr (h : ∀ t ∈ op.inputTensors, types t = types' t) :
    engine.outputShapes types op = engine.outputShapes types' op := by
  unfold outputShapes
  rw [mapM_inputShape_congr h]

/-- Two graphs without common tensors after one another. -/
theorem TopologicallyOrdered.append (h : TopologicallyOrdered ops) (h' : TopologicallyOrdered ops')
    (hown : ∀ op ∈ ops, ∀ op' ∈ ops', List.Disjoint (op.inputTensors ++ op.outputTensors)
        (op'.inputTensors ++ op'.outputTensors)) :
    TopologicallyOrdered (ops ++ ops') where
  nodup := by
    rw [written_append, nodup_append]
    refine ⟨h.nodup, h'.nodup, ?_⟩
    rintro t ht _ ht' rfl
    obtain ⟨op, hop, hmem⟩ := mem_written.1 ht
    obtain ⟨op', hop', hmem'⟩ := mem_written.1 ht'
    exact hown op hop op' hop' (mem_append_right _ hmem) (mem_append_right _ hmem')
  ordered := by
    intro before op after heq
    rcases append_eq_append_iff.1 heq with ⟨as, rfl, rfl⟩ | ⟨bs, rfl, hbs⟩
    · exact h'.ordered as op after rfl
    · cases bs with
      | nil => exact h'.ordered [] op after hbs.symm
      | cons _ bs =>
        obtain ⟨rfl, rfl⟩ := List.cons.inj hbs
        intro t ht hlater
        have hsplit : t ∈ written ((op :: bs) ++ ops') := hlater
        rw [written_append, mem_append] at hsplit
        rcases hsplit with hlater | hlater
        · exact h.ordered before op bs rfl ht hlater
        · obtain ⟨op', hop', hmem'⟩ := mem_written.1 hlater
          exact hown op (mem_append_right _ mem_cons_self) op' hop'
            (mem_append_left _ ht) (mem_append_right _ hmem')

/-- The ops of all subgraphs are topologically ordered when those of each one are. -/
theorem Ordered.flatten (h : Ordered subgraphs) :
    TopologicallyOrdered subgraphs.flatten := by
  induction subgraphs with
  | nil => exact ⟨nodup_nil, fun before op after heq => by cases before <;> cases heq⟩
  | cons ops subgraphs ih =>
    obtain ⟨hops, hrest⟩ := forall_mem_cons.1 h.ordered
    obtain ⟨hown, hownrest⟩ := pairwise_cons.1 h.own
    refine hops.append (ih ⟨hrest, hownrest⟩) fun op hop op' hop' => ?_
    obtain ⟨ops', hmem, hop'⟩ := mem_flatten.1 hop'
    exact hown ops' hmem op hop op' hop'

/-! ## Validation -/

theorem validateOutput_ok (type : TensorType E) (shape : Dims) :
    validateOutput type shape = .ok () ↔ Agrees type shape := by
  unfold Agrees
  cases type with
  | unranked _ => exact iff_of_true rfl fun d hd => by cases hd
  | ranked e layout =>
    have hmem : (∀ d, (TensorType.ranked e layout).dimensions = some d →
        d.length = shape.length ∧ ∀ q ∈ d.zip shape, q.1 = -1 ∨ q.2 = -1 ∨ q.1 = q.2) ↔
        layout.dimensions.length = shape.length ∧
          ∀ q ∈ layout.dimensions.zip shape, q.1 = -1 ∨ q.2 = -1 ∨ q.1 = q.2 := by
      constructor
      · exact fun h => h _ rfl
      · rintro h d hd
        cases hd
        exact h
    rw [hmem]
    unfold validateOutput
    dsimp only
    by_cases hlen : layout.dimensions.length = shape.length
    · rw [if_neg (not_not.2 hlen), and_iff_right hlen]
      have hany : (layout.dimensions.zip shape).any (fun d => dimensionMismatch d.1 d.2) = true ↔
          ¬∀ q ∈ layout.dimensions.zip shape, q.1 = -1 ∨ q.2 = -1 ∨ q.1 = q.2 := by
        simp only [any_eq_true, dimensionMismatch, Bool.and_eq_true, decide_eq_true_eq,
          not_forall, not_or, exists_prop, and_assoc]
      by_cases hall : ∀ q ∈ layout.dimensions.zip shape, q.1 = -1 ∨ q.2 = -1 ∨ q.1 = q.2
      · rw [if_neg fun h => hany.1 h hall]
        exact iff_of_true rfl hall
      · rw [if_pos (hany.2 hall)]
        exact iff_of_false (fun h => by cases h) hall
    · rw [if_pos hlen]
      exact iff_of_false (fun h => by cases h) fun h => hlen h.1

theorem validateOutput_cases (type : TensorType E) (shape : Dims) :
    validateOutput type shape = .ok () ∨
      validateOutput type shape = .error (.failure .shapeInferenceFailed) := by
  cases type with
  | unranked _ => exact .inl rfl
  | ranked e layout =>
    unfold validateOutput
    dsimp only
    split
    · exact .inr rfl
    · split
      · exact .inr rfl
      · exact .inl rfl

variable [DecidableEq T]

theorem updateOutput_true (t : T) (shape : Dims) :
    engine.updateOutput true types t shape =
      (validateOutput (types t) shape).map fun _ => types := by
  unfold updateOutput
  rw [if_pos rfl]
  cases validateOutput (types t) shape <;> rfl

theorem updateOutputs_true_fst (ws : List (T × Dims)) :
    (engine.updateOutputs true ws types).1 = types := by
  induction ws with
  | nil => rfl
  | cons w ws ih =>
    rw [updateOutputs, updateOutput_true]
    cases validateOutput (types w.1) w.2 with
    | error stop => rfl
    | ok => exact ih

theorem updateOutputs_true_ok (ws : List (T × Dims)) :
    engine.updateOutputs true ws types = (types, .ok ()) ↔ ∀ p ∈ ws, Agrees (types p.1) p.2 := by
  induction ws with
  | nil => exact iff_of_true rfl fun p hp => absurd hp not_mem_nil
  | cons w ws ih =>
    rw [forall_mem_cons, ← validateOutput_ok, ← ih, updateOutputs, updateOutput_true]
    rcases hw : validateOutput (types w.1) w.2 with stop | u
    · exact iff_of_false (fun h => by cases h) fun h => by cases h.1
    · exact (and_iff_right rfl).symm

/-- A validation changes nothing. -/
theorem inferOpShapes_true_fst : (engine.inferOpShapes true op types).1 = types := by
  unfold inferOpShapes
  split
  · rfl
  · exact updateOutputs_true_fst _

theorem inferSubgraphShapes_true_fst : (engine.inferSubgraphShapes true ops types).1 = types := by
  induction ops with
  | nil => rfl
  | cons op ops ih =>
    have hop := @inferOpShapes_true_fst _ _ _ _ engine types op _
    rw [inferSubgraphShapes]
    rcases hrun : engine.inferOpShapes true op types with ⟨types', stop | u⟩
    · rw [hrun] at hop
      exact hop
    · rw [hrun] at hop
      cases hop
      exact ih

/-- A validation of the whole graph passes when that of each op does. -/
theorem inferSubgraphShapes_true_ok :
    engine.inferSubgraphShapes true ops types = (types, .ok ()) ↔
      ∀ op ∈ ops, engine.inferOpShapes true op types = (types, .ok ()) := by
  induction ops with
  | nil => exact iff_of_true rfl fun op hop => absurd hop not_mem_nil
  | cons op ops ih =>
    have hop := @inferOpShapes_true_fst _ _ _ _ engine types op _
    rw [forall_mem_cons, ← ih, inferSubgraphShapes]
    rcases hrun : engine.inferOpShapes true op types with ⟨types', stop | u⟩
    · exact iff_of_false (fun h => by cases h) fun h => by cases h.1
    · rw [hrun] at hop
      cases hop
      exact (and_iff_right rfl).symm

/-! ## One op -/

theorem inferOpShapes_ok (h : engine.inferOpShapes false op types = (types', .ok ())) :
    ∃ shapes, engine.outputShapes types op = .ok shapes ∧
      Settled types types' (writes op.outputs shapes) ∧
      Clean engine types (writes op.outputs shapes) := by
  unfold inferOpShapes at h
  split at h
  · cases h
  · next shapes hshapes =>
    rcases @updateOutputs_cases _ _ _ _ _ engine _ _ (writes op.outputs shapes) _
      (Settled.refl types) clean_nil with
      ⟨types₁, hok, hsettled, hclean⟩ | ⟨_, _, _, _, _, _, _, ⟨-, herr⟩ | ⟨-, -, herr⟩⟩
    · rw [hok] at h
      cases h
      exact ⟨shapes, hshapes, hsettled, hclean⟩
    · rw [herr] at h
      cases h
    · rw [herr] at h
      cases h

theorem lastShape_eq_none (h : t ∉ ws.map Prod.fst) :
    lastShape t ws = none := by
  induction ws with
  | nil => rfl
  | cons w ws ih =>
    rw [map_cons, mem_cons, not_or] at h
    rw [lastShape, ih h.2, if_neg (Ne.symm h.1), Option.or_none]

/-- Among writes to distinct tensors each one is the last. -/
theorem lastShape_of_mem (hnodup : (ws.map Prod.fst).Nodup) (h : (t, shape) ∈ ws) :
    lastShape t ws = some shape := by
  induction ws with
  | nil => cases h
  | cons w ws ih =>
    rw [map_cons, nodup_cons] at hnodup
    rcases mem_cons.1 h with rfl | hmem
    · rw [lastShape, lastShape_eq_none hnodup.1, if_pos rfl, Option.none_or]
    · rw [lastShape, ih hnodup.2 hmem, Option.some_or]

/-- The tensors that are no output keep their types. -/
theorem inferOpShapes_frame (h : engine.inferOpShapes false op types = (types', .ok ()))
    (ht : t ∉ op.outputTensors) : types' t = types t := by
  obtain ⟨shapes, -, hsettled, -⟩ := inferOpShapes_ok h
  exact (hsettled t).1 (.inr (lastShape_eq_none fun hmem =>
    ht ((map_fst_writes _ _).subset hmem)))

theorem inferSubgraphShapes_frame
    (h : engine.inferSubgraphShapes false ops types = (types', .ok ())) (ht : t ∉ written ops) :
    types' t = types t := by
  induction ops generalizing types with
  | nil =>
    cases h
    rfl
  | cons op ops ih =>
    rw [written_cons, mem_append, not_or] at ht
    rw [inferSubgraphShapes] at h
    rcases hrun : engine.inferOpShapes false op types with ⟨types₁, stop | u⟩
    · rw [hrun] at h
      cases h
    · rw [hrun] at h
      rw [ih h ht.2, inferOpShapes_frame hrun ht.1]

theorem inferSubgraphShapes_append {types'' : Types T E}
    (h : engine.inferSubgraphShapes validationOnly ops types = (types', .ok ())) :
    engine.inferSubgraphShapes validationOnly (ops ++ ops') types = (types'', .ok ()) ↔
      engine.inferSubgraphShapes validationOnly ops' types' = (types'', .ok ()) := by
  induction ops generalizing types with
  | nil =>
    cases h
    rfl
  | cons op ops ih =>
    rw [inferSubgraphShapes] at h
    rw [cons_append, inferSubgraphShapes]
    rcases hrun : engine.inferOpShapes validationOnly op types with ⟨types₁, stop | u⟩
    · rw [hrun] at h
      cases h
    · rw [hrun] at h
      exact ih h

/-- A run over a graph that ends well has ended well in between. -/
theorem inferSubgraphShapes_prefix
    (h : engine.inferSubgraphShapes validationOnly (ops ++ ops') types = (types', .ok ())) :
    ∃ types₁, engine.inferSubgraphShapes validationOnly ops types = (types₁, .ok ()) := by
  induction ops generalizing types with
  | nil => exact ⟨types, rfl⟩
  | cons op ops ih =>
    rw [cons_append, inferSubgraphShapes] at h
    rw [inferSubgraphShapes]
    rcases hrun : engine.inferOpShapes validationOnly op types with ⟨types₁, stop | u⟩
    · rw [hrun] at h
      cases h
    · rw [hrun] at h
      exact ih h

/-! ## An op after the run -/

/-- A write that the type of its tensor has already. -/
def Settles (engine : ShapeInferenceEngine T C O) (types : Types T E) (p : T × Dims) : Prop :=
  ((types p.1).elementType = none ∧
      (engine.weights p.1 ≠ [] → ∀ d, (types p.1).dimensions = some d → d = p.2)) ∨
    ∃ e h, types p.1 = .ranked (some e) ⟨p.2, none, h⟩

theorem updateOutputs_settled (h : ∀ p ∈ ws, Settles engine types p) :
    engine.updateOutputs false ws types = (types, .ok ()) := by
  induction ws with
  | nil => rfl
  | cons p ws ih =>
    obtain ⟨hp, hws⟩ := forall_mem_cons.1 h
    obtain ⟨t, shape⟩ := p
    have hconstant : ¬(engine.weights t ≠ [] ∧ ∃ d, (types t).dimensions = some d ∧ d ≠ shape) := by
      rintro ⟨hw, d, hd, hne⟩
      rcases hp with ⟨-, hfits⟩ | ⟨e, hrank, htype⟩
      · exact hne (hfits hw d hd)
      · dsimp only at htype
        rw [htype] at hd
        cases hd
        exact hne rfl
    have hupdated : updatedType (types t) shape = .ok (types t) := by
      unfold updatedType
      rcases hp with ⟨he, -⟩ | ⟨e, hrank, htype⟩
      · dsimp only at he
        rw [he]
        rfl
      · dsimp only at htype
        rw [htype]
        exact dif_pos hrank
    have hstep : engine.updateOutput false types t shape = .ok types := by
      unfold updateOutput
      rw [if_neg Bool.false_ne_true, hupdated]
      by_cases hw : engine.weights t ≠ []
      · rcases checkConstant_cases (types t) shape with ⟨hex, -⟩ | ⟨-, hok⟩
        · exact absurd ⟨hw, hex⟩ hconstant
        · rw [if_pos hw, hok]
          exact congrArg _ (Function.update_eq_self t types)
      · rw [if_neg hw]
        exact congrArg _ (Function.update_eq_self t types)
    rw [updateOutputs, hstep]
    exact ih hws

/-- The writes of an op with distinct outputs are there when the op has been inferred. -/
theorem Settled.settles (h : Settled types types' ws) (hclean : Clean engine types ws)
    (hnodup : (ws.map Prod.fst).Nodup) {p : T × Dims} (hp : p ∈ ws) : Settles engine types' p := by
  obtain ⟨t, shape⟩ := p
  have hlast := lastShape_of_mem hnodup hp
  rcases he : (types t).elementType with - | e
  · refine .inl ⟨by rw [h.elementType, he], fun hw d hd => ?_⟩
    dsimp only at hw hd ⊢
    obtain ⟨b, a, rfl⟩ := append_of_mem hp
    have hnot := (hclean b _ a rfl).1
    rw [(h t).1 (.inl he)] at hd
    by_contra hne
    refine hnot ⟨hw, d, ?_, hne⟩
    unfold dimensionsAfter
    dsimp only
    rw [he, hd]
  · exact .inr ⟨e, (h t).2 e shape he hlast⟩

theorem agrees_self {e : E} {h : shape.length ≤ tensorMaxRank} :
    Agrees (.ranked (some e) ⟨shape, none, h⟩) shape := by
  intro d hd
  cases hd
  refine ⟨rfl, fun q hq => .inr (.inr ?_)⟩
  rw [zip_eq_zipWith, zipWith_self, mem_map] at hq
  obtain ⟨x, -, rfl⟩ := hq
  rfl

/-- An op in a graph that has been run: the same shapes are inferred for it, and its outputs have
them already. An output without an element type has the type it had when the op was inferred. -/
theorem outputShapes_again (hordered : TopologicallyOrdered (before ++ op :: after))
    (hrun : engine.inferSubgraphShapes false (before ++ op :: after) types = (types', .ok ()))
    (hbefore : engine.inferSubgraphShapes false before types = (types₁, .ok ())) :
    ∃ shapes, engine.outputShapes types₁ op = .ok shapes ∧
      engine.outputShapes types' op = .ok shapes ∧
      ∀ p ∈ writes op.outputs shapes, Settles engine types' p ∧
        (types' p.1).elementType = (types₁ p.1).elementType ∧
        ((types₁ p.1).elementType = none → types' p.1 = types₁ p.1) := by
  have hrest := (inferSubgraphShapes_append hbefore).1 hrun
  have hnodup := hordered.nodup
  rw [written_append, written_cons] at hnodup
  have hops := nodup_append.1 (nodup_append.1 hnodup).2.1
  -- the inputs are not written any more
  have hinputs : ∀ t ∈ op.inputTensors, types₁ t = types' t := fun t ht =>
    (inferSubgraphShapes_frame hrest (hordered.ordered before op after rfl ht)).symm
  rw [inferSubgraphShapes] at hrest
  rcases hop : engine.inferOpShapes false op types₁ with ⟨types₂, stop | u⟩
  · rw [hop] at hrest
    cases hrest
  · rw [hop] at hrest
    obtain ⟨shapes, hshapes, hsettled, hclean⟩ := inferOpShapes_ok hop
    refine ⟨shapes, hshapes, by rw [← outputShapes_congr hinputs, hshapes], fun p hp => ?_⟩
    -- nor are the outputs
    have houtput : types' p.1 = types₂ p.1 := inferSubgraphShapes_frame hrest fun hlater =>
      hops.2.2 p.1 ((map_fst_writes _ _).subset (mem_map_of_mem hp)) p.1 hlater rfl
    have hsettles := hsettled.settles hclean ((map_fst_writes _ _).nodup hops.1) hp
    unfold Settles at hsettles ⊢
    rw [houtput]
    exact ⟨hsettles, hsettled.elementType p.1, fun hnone => (hsettled p.1).1 (.inl hnone)⟩

/-- An update of the op finds its own result. -/
theorem inferOpShapes_again (hordered : TopologicallyOrdered (before ++ op :: after))
    (hrun : engine.inferSubgraphShapes false (before ++ op :: after) types = (types', .ok ()))
    (hbefore : engine.inferSubgraphShapes false before types = (types₁, .ok ())) :
    engine.inferOpShapes false op types' = (types', .ok ()) := by
  obtain ⟨shapes, -, hshapes, houtputs⟩ := outputShapes_again hordered hrun hbefore
  unfold inferOpShapes
  rw [hshapes]
  exact updateOutputs_settled fun p hp => (houtputs p hp).1

/-- A validation of the op passes when its outputs without an element type agreed with the shapes
inferred for them. -/
theorem validateOp_again (hordered : TopologicallyOrdered (before ++ op :: after))
    (hrun : engine.inferSubgraphShapes false (before ++ op :: after) types = (types', .ok ()))
    (hbefore : engine.inferSubgraphShapes false before types = (types₁, .ok ())) :
    engine.inferOpShapes true op types' = (types', .ok ()) ↔ UntypedAgree engine types₁ op := by
  obtain ⟨shapes, hshapes₁, hshapes, houtputs⟩ := outputShapes_again hordered hrun hbefore
  unfold inferOpShapes
  rw [hshapes]
  show engine.updateOutputs true (writes op.outputs shapes) types' = (types', .ok ()) ↔ _
  rw [updateOutputs_true_ok]
  constructor
  · intro h shapes' hshapes' p hp hnone
    rw [hshapes₁] at hshapes'
    cases hshapes'
    rw [← (houtputs p hp).2.2 hnone]
    exact h p hp
  · intro h p hp
    obtain ⟨hsettles, helement, hkeeps⟩ := houtputs p hp
    rcases hsettles with ⟨hnone, -⟩ | ⟨e, hrank, htype⟩
    · rw [helement] at hnone
      rw [hkeeps hnone]
      exact h shapes hshapes₁ p hp hnone
    · rw [htype]
      exact agrees_self

/-- An update of each op that changes nothing makes a run that changes nothing. -/
theorem inferSubgraphShapes_of_forall
    (h : ∀ op ∈ ops, engine.inferOpShapes false op types = (types, .ok ())) :
    engine.inferSubgraphShapes false ops types = (types, .ok ()) := by
  induction ops with
  | nil => rfl
  | cons op ops ih =>
    obtain ⟨hop, hops⟩ := forall_mem_cons.1 h
    rw [inferSubgraphShapes, hop]
    exact ih hops

/-! ## The model -/

/-- The run over the subgraphs is one over all their ops. -/
theorem inferShapes_eq (validationOnly : Bool) (subgraphs : List (List (GraphOp T C O))) :
    engine.inferShapes validationOnly subgraphs types =
      engine.inferSubgraphShapes validationOnly subgraphs.flatten types := by
  induction subgraphs generalizing types with
  | nil => rfl
  | cons ops subgraphs ih =>
    rw [inferShapes, flatten_cons]
    induction ops generalizing types with
    | nil => exact ih
    | cons op ops ihops =>
      rw [cons_append, inferSubgraphShapes, inferSubgraphShapes]
      rcases engine.inferOpShapes validationOnly op types with ⟨types₁, stop | u⟩
      · rfl
      · exact ihops

/-- An inference that fails with a status changes no type. -/
def AtomicOn (engine : ShapeInferenceEngine T C O) (op : GraphOp T C O) (types : Types T E) :
    Prop :=
  ∀ validationOnly types' stop, engine.inferOpShapes validationOnly op types =
    (types', .error stop) → stop.IsStatus → types' = types

/-- After a run over ordered subgraphs the validation passes, and another run changes nothing. -/
def ConsistentOn (engine : ShapeInferenceEngine T C O) (subgraphs : List (List (GraphOp T C O)))
    (types : Types T E) : Prop :=
  Ordered subgraphs → ∀ types', engine.inferShapes false subgraphs types = (types', .ok ()) →
    engine.inferShapes true subgraphs types' = (types', .ok ()) ∧
      engine.inferShapes false subgraphs types' = (types', .ok ())

/-- At every op a run comes to, the outputs without an element type agree with the shapes inferred
for them. -/
def UntypedAgreeAlong (engine : ShapeInferenceEngine T C O)
    (subgraphs : List (List (GraphOp T C O))) (types : Types T E) : Prop :=
  ∀ before op after types₁, subgraphs.flatten = before ++ op :: after →
    engine.inferSubgraphShapes false before types = (types₁, .ok ()) → UntypedAgree engine types₁ op

theorem atomicOn_iff : AtomicOn engine op types ↔
    ∀ shapes, engine.outputShapes types op = .ok shapes →
      AtomicWrites engine types (writes op.outputs shapes) := by
  unfold AtomicOn
  constructor
  · intro h shapes hshapes
    rw [← updateOutputs_atomic_iff]
    intro types' stop hrun
    refine h false types' stop ?_
    unfold inferOpShapes
    rwa [hshapes]
  · intro h validationOnly types' stop hrun hstatus
    cases validationOnly with
    | true =>
      have hfst := @inferOpShapes_true_fst _ _ _ _ engine types op _
      rwa [hrun] at hfst
    | false =>
      unfold inferOpShapes at hrun
      rcases hshapes : engine.outputShapes types op with stop' | shapes
      · rw [hshapes] at hrun
        cases hrun
        rfl
      · rw [hshapes] at hrun
        exact updateOutputs_atomic_iff.2 (h shapes hshapes) types' stop hrun hstatus

theorem consistentOn_iff :
    ConsistentOn engine subgraphs types ↔
      (Ordered subgraphs → ∀ types', engine.inferShapes false subgraphs types = (types', .ok ()) →
        UntypedAgreeAlong engine subgraphs types) := by
  unfold ConsistentOn UntypedAgreeAlong
  refine forall_congr' fun hordered => forall_congr' fun types' => forall_congr' fun hrun => ?_
  have htopological := hordered.flatten
  rw [inferShapes_eq] at hrun
  rw [inferShapes_eq, inferShapes_eq]
  generalize subgraphs.flatten = ops at htopological hrun ⊢
  have hagain : engine.inferSubgraphShapes false ops types' = (types', .ok ()) := by
    refine inferSubgraphShapes_of_forall fun op hop => ?_
    obtain ⟨before, after, rfl⟩ := append_of_mem hop
    obtain ⟨types₁, hbefore⟩ := inferSubgraphShapes_prefix hrun
    exact inferOpShapes_again htopological hrun hbefore
  rw [and_iff_left hagain, inferSubgraphShapes_true_ok]
  constructor
  · rintro h before op after types₁ rfl hbefore
    exact (validateOp_again htopological hrun hbefore).1 (h op (mem_append_right _ mem_cons_self))
  · intro h op hop
    obtain ⟨before, after, rfl⟩ := append_of_mem hop
    obtain ⟨types₁, hbefore⟩ := inferSubgraphShapes_prefix hrun
    exact (validateOp_again htopological hrun hbefore).2 (h before op after types₁ rfl hbefore)

/-- What an inference of an op and a run over a model leave behind. -/
theorem inferShapes_consistent_iff (engine : ShapeInferenceEngine T C O) (types : Types T E)
    (op : GraphOp T C O) (subgraphs : List (List (GraphOp T C O))) :
    (AtomicOn engine op types ∧ (engine.inferOpShapes true op types).1 = types ∧
        (engine.inferShapes true subgraphs types).1 = types ∧
        ConsistentOn engine subgraphs types) ↔
      (∀ shapes, engine.outputShapes types op = .ok shapes →
          AtomicWrites engine types (writes op.outputs shapes)) ∧
        (Ordered subgraphs → ∀ types', engine.inferShapes false subgraphs types = (types', .ok ()) →
          UntypedAgreeAlong engine subgraphs types) := by
  have hvalidates : (engine.inferShapes true subgraphs types).1 = types := by
    rw [inferShapes_eq, inferSubgraphShapes_true_fst]
  rw [and_iff_right inferOpShapes_true_fst, and_iff_right hvalidates, atomicOn_iff,
    consistentOn_iff]

end

/-- An unpack whose second output is a constant of another shape. -/
def unpackToConstant : GraphOp Nat OpCode BuiltinOptions where
  opCode := .unpack
  inputs := [some 0]
  outputs := [some 1, some 2]
  options := .unpack 0 2

def unpackTensors : Nat → Operand
  | 2 => ⟨.other, true, numberBytes 4 [0, 0, 0, 0]⟩
  | _ => ⟨.other, true, []⟩

def unpackTypes : Types Nat ElementType
  | 0 => .ranked (some .other) ⟨[2, 3], none, by decide⟩
  | 1 => .ranked (some .other) ⟨[-1], none, by decide⟩
  | _ => .ranked (some .other) ⟨[4], none, by decide⟩

/-- The constant is found out when the first output has its new type. -/
theorem unpackToConstant_not_atomic :
    (((standardEngine unpackTensors).inferOpShapes false unpackToConstant unpackTypes).2 =
        .error (.failure .shapeInferenceFailed) ∧
      unpackTypes 1 = .ranked (some .other) ⟨[-1], none, by decide⟩ ∧
      ((standardEngine unpackTensors).inferOpShapes false unpackToConstant unpackTypes).1 1 =
        .ranked (some .other) ⟨[3], none, by decide⟩) ∧
    ¬AtomicOn (standardEngine unpackTensors) unpackToConstant unpackTypes := by
  have hrun : ((standardEngine unpackTensors).inferOpShapes false unpackToConstant unpackTypes).2 =
      .error (.failure .shapeInferenceFailed) := by
    decide +kernel
  have htype : ((standardEngine unpackTensors).inferOpShapes false unpackToConstant
      unpackTypes).1 1 = .ranked (some .other) ⟨[3], none, by decide⟩ := by
    decide +kernel
  refine ⟨⟨hrun, rfl, htype⟩, fun hatomic => ?_⟩
  have hsame : ((standardEngine unpackTensors).inferOpShapes false unpackToConstant
      unpackTypes).1 = unpackTypes :=
    hatomic false _ _ (Prod.ext rfl hrun) ⟨by decide, by decide⟩
  rw [hsame] at htype
  cases htype

end

end LiteRt.Shapes
