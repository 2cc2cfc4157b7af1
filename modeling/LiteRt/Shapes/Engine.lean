import LiteRt.Shapes.Inference
import Mathlib.Data.List.Nodup
import Mathlib.Logic.Function.Basic
import Mathlib.Tactic.Common

/-!
# The shape inference engine

The engine runs over the ops of a graph, asks the inferrer registered for the op code for the
shapes of the outputs, and compares them with the types of the output tensors or writes them
there. The code of an op, its options and the weights of the tensors stay as they are; only the
types of the tensors are state.
-/

namespace LiteRt.Shapes

open List

/-! ## Types of tensors -/

def tensorMaxRank : Nat := 8

/-- A layout, whose array has room for `tensorMaxRank` dimensions. -/
structure Layout where
  dimensions : Dims
  strides : Option (List Nat)
  rank_le : dimensions.length ≤ tensorMaxRank
  deriving DecidableEq

/-- The type of a tensor over the element types `E`; `none` is `kLiteRtElementTypeNone`. -/
inductive TensorType (E : Type)
  | ranked (elementType : Option E) (layout : Layout)
  | unranked (elementType : Option E)
  deriving DecidableEq

/-- How an inference ends that does not return `kLiteRtStatusOk`. -/
inductive Stop
  | failure (f : Failure)
  | unsupportedOpShapeInferer
  | overrun
  deriving DecidableEq, Repr

/-- The ends that are a status; the others are undefined behaviour or an exception. -/
def Stop.IsStatus : Stop → Prop
  | .failure f => f ≠ .divisionByZero ∧ f ≠ .outOfRange
  | .unsupportedOpShapeInferer => True
  | .overrun => False

section
variable {E : Type}

def TensorType.elementType : TensorType E → Option E
  | .ranked elementType _ => elementType
  | .unranked elementType => elementType

def TensorType.dimensions : TensorType E → Option Dims
  | .ranked _ layout => some layout.dimensions
  | .unranked _ => none

/-- The array of the layout is written without a check of its length. -/
def makeRankedTensorType (elementType : E) (dims : Dims) : Except Stop (TensorType E) :=
  if h : dims.length ≤ tensorMaxRank then pure (.ranked (some elementType) ⟨dims, none, h⟩)
  else .error .overrun

end

/-! ## The engine -/

/-- An op over the tensors `T`, the op codes `C` and the options `O`. -/
structure GraphOp (T C O : Type) where
  opCode : C
  inputs : List (Option T)
  outputs : List (Option T)
  options : O
  deriving DecidableEq, Repr

abbrev OpShapeInferrer (T C O : Type) := GraphOp T C O → List Dims → List Dims → Infer (List Dims)

structure ShapeInferenceEngine (T C O : Type) where
  registry : C → Option (OpShapeInferrer T C O)
  /-- The content of the buffer of a tensor, empty for one that is not constant. -/
  weights : T → List UInt8

abbrev Types (T E : Type) := T → TensorType E

section
variable {T C O E : Type}

def inputShape (types : Types T E) : Option T → Except Stop Dims
  | none => pure []
  | some tensor =>
    match types tensor with
    | .ranked _ layout => pure layout.dimensions
    | .unranked _ => .error (.failure .unsupported)

/-- The stateless overload of `InferOpShapes`. -/
def ShapeInferenceEngine.inferShapesOf (engine : ShapeInferenceEngine T C O) (op : GraphOp T C O)
    (inputShapes outputShapes : List Dims) : Except Stop (List Dims) :=
  match engine.registry op.opCode with
  | none => .error .unsupportedOpShapeInferer
  | some inferrer => (inferrer op inputShapes outputShapes).mapError .failure

def ShapeInferenceEngine.outputShapes (engine : ShapeInferenceEngine T C O) (types : Types T E)
    (op : GraphOp T C O) : Except Stop (List Dims) := do
  let inputShapes ← op.inputs.mapM (inputShape types)
  engine.inferShapesOf op inputShapes (List.replicate op.outputs.length [])

/-- The outputs that are there, with their shapes. -/
def writes (outputs : List (Option T)) (shapes : List Dims) : List (T × Dims) :=
  (outputs.zip shapes).filterMap fun p => p.1.map fun tensor => (tensor, p.2)

def dimensionMismatch (existing inferred : Int) : Bool :=
  existing ≠ -1 && inferred ≠ -1 && existing ≠ inferred

/-- The comparison of `validation_only`. -/
def validateOutput (type : TensorType E) (shape : Dims) : Except Stop Unit :=
  match type with
  | .ranked _ layout =>
    if layout.dimensions.length ≠ shape.length then .error (.failure .shapeInferenceFailed)
    else if (layout.dimensions.zip shape).any fun d => dimensionMismatch d.1 d.2 then
      .error (.failure .shapeInferenceFailed)
    else pure ()
  | .unranked _ => pure ()

/-- The shape of a constant tensor must not change. -/
def checkConstant (type : TensorType E) (shape : Dims) : Except Stop Unit :=
  match type with
  | .ranked _ layout =>
    if layout.dimensions.length ≠ shape.length then .error (.failure .shapeInferenceFailed)
    else if (layout.dimensions.zip shape).any fun d => d.1 ≠ d.2 then
      .error (.failure .shapeInferenceFailed)
    else pure ()
  | .unranked _ => pure ()

/-- The type after the update; a tensor without an element type keeps its own. -/
def updatedType (type : TensorType E) (shape : Dims) : Except Stop (TensorType E) :=
  match type.elementType with
  | none => pure type
  | some elementType => makeRankedTensorType elementType shape

variable [DecidableEq T]

/-- The body of the loop over the outputs. -/
def ShapeInferenceEngine.updateOutput (engine : ShapeInferenceEngine T C O) (validationOnly : Bool)
    (types : Types T E) (tensor : T) (shape : Dims) : Except Stop (Types T E) :=
  if validationOnly then do
    validateOutput (types tensor) shape
    pure types
  else do
    if engine.weights tensor ≠ [] then checkConstant (types tensor) shape
    let type ← updatedType (types tensor) shape
    pure (Function.update types tensor type)

/-- The loop over the outputs; what an output was given stays when a later one fails. -/
def ShapeInferenceEngine.updateOutputs (engine : ShapeInferenceEngine T C O)
    (validationOnly : Bool) : List (T × Dims) → Types T E → Types T E × Except Stop Unit
  | [], types => (types, pure ())
  | (tensor, shape) :: rest, types =>
    match engine.updateOutput validationOnly types tensor shape with
    | .error stop => (types, .error stop)
    | .ok types' => engine.updateOutputs validationOnly rest types'

def ShapeInferenceEngine.inferOpShapes (engine : ShapeInferenceEngine T C O)
    (validationOnly : Bool) (op : GraphOp T C O) (types : Types T E) :
    Types T E × Except Stop Unit :=
  match engine.outputShapes types op with
  | .error stop => (types, .error stop)
  | .ok shapes => engine.updateOutputs validationOnly (writes op.outputs shapes) types

/-- An error comes with the op that failed. -/
def ShapeInferenceEngine.inferSubgraphShapes (engine : ShapeInferenceEngine T C O)
    (validationOnly : Bool) :
    List (GraphOp T C O) → Types T E → Types T E × Except (GraphOp T C O × Stop) Unit
  | [], types => (types, pure ())
  | op :: ops, types =>
    match engine.inferOpShapes validationOnly op types with
    | (types', .error stop) => (types', .error (op, stop))
    | (types', .ok ()) => engine.inferSubgraphShapes validationOnly ops types'

/-- The subgraphs of the model one after the other. -/
def ShapeInferenceEngine.inferShapes (engine : ShapeInferenceEngine T C O) (validationOnly : Bool) :
    List (List (GraphOp T C O)) → Types T E → Types T E × Except (GraphOp T C O × Stop) Unit
  | [], types => (types, pure ())
  | ops :: subgraphs, types =>
    match engine.inferSubgraphShapes validationOnly ops types with
    | (types', .error e) => (types', .error e)
    | (types', .ok ()) => engine.inferShapes validationOnly subgraphs types'

end

/-!
## When an inference leaves no trace, and when it agrees with itself

The outputs of an op are written one by one, and a constant output is checked when its turn
comes. What the earlier outputs were given then stays.
-/

section
variable {T C O E : Type}

def TensorType.strides : TensorType E → Option (List Nat)
  | .ranked _ layout => layout.strides
  | .unranked _ => none

/-! ### What the writes leave behind -/

variable [DecidableEq T]

def lastShape (t : T) : List (T × Dims) → Option Dims
  | [] => none
  | (u, shape) :: rest => (lastShape t rest).or (if u = t then some shape else none)

def dimensionsAfter (types : Types T E) (ws : List (T × Dims)) (t : T) : Option Dims :=
  match (types t).elementType, lastShape t ws with
  | some _, some shape => some shape
  | _, _ => (types t).dimensions

/-- The types after the writes: a tensor with an element type has the shape written last. -/
def Settled (types types' : Types T E) (ws : List (T × Dims)) : Prop :=
  ∀ t, ((types t).elementType = none ∨ lastShape t ws = none → types' t = types t) ∧
    ∀ e shape, (types t).elementType = some e → lastShape t ws = some shape →
      ∃ h, types' t = .ranked (some e) ⟨shape, none, h⟩

/-- A constant output whose dimensions are others than the inferred ones. -/
def Rejects (engine : ShapeInferenceEngine T C O) (types : Types T E) (before : List (T × Dims))
    (p : T × Dims) : Prop :=
  engine.weights p.1 ≠ [] ∧ ∃ d, dimensionsAfter types before p.1 = some d ∧ d ≠ p.2

/-- A shape written to a layout without room for it. -/
def Overruns (types : Types T E) (p : T × Dims) : Prop :=
  (types p.1).elementType ≠ none ∧ tensorMaxRank < p.2.length

/-- Writes of which none stops the loop. -/
def Clean (engine : ShapeInferenceEngine T C O) (types : Types T E) (ws : List (T × Dims)) : Prop :=
  ∀ before p after, ws = before ++ p :: after → ¬Rejects engine types before p ∧ ¬Overruns types p

/-- Writes that give each tensor the type it has. -/
def Keeps (types : Types T E) (ws : List (T × Dims)) : Prop :=
  ∀ t shape, lastShape t ws = some shape → (types t).elementType = none ∨
    (types t).dimensions = some shape ∧ (types t).strides = none

/-- Before the first constant output that does not fit, no type changes. -/
def AtomicWrites (engine : ShapeInferenceEngine T C O) (types : Types T E)
    (ws : List (T × Dims)) : Prop :=
  ∀ before p after, ws = before ++ p :: after → Clean engine types before →
    Rejects engine types before p → Keeps types before

section
variable {engine : ShapeInferenceEngine T C O} {types types' cur : Types T E} {t : T}
  {shape : Dims} {ws before : List (T × Dims)} {p : T × Dims}

theorem lastShape_append (ws ws' : List (T × Dims)) :
    lastShape t (ws ++ ws') = (lastShape t ws').or (lastShape t ws) := by
  induction ws with
  | nil => rw [nil_append, lastShape, Option.or_none]
  | cons w ws ih => rw [cons_append, lastShape, ih, lastShape, Option.or_assoc]

theorem Settled.refl (types : Types T E) : Settled types types [] :=
  fun _ => ⟨fun _ => rfl, fun _ _ _ h => by cases h⟩

theorem Settled.elementType (h : Settled types types' ws) (t : T) :
    (types' t).elementType = (types t).elementType := by
  rcases he : (types t).elementType with - | e
  · rw [(h t).1 (.inl he), he]
  · rcases hs : lastShape t ws with - | shape
    · rw [(h t).1 (.inr hs), he]
    · obtain ⟨_, heq⟩ := (h t).2 e shape he hs
      rw [heq]
      rfl

theorem Settled.dimensions (h : Settled types types' ws) (t : T) :
    (types' t).dimensions = dimensionsAfter types ws t := by
  unfold dimensionsAfter
  rcases he : (types t).elementType with - | e
  · rw [(h t).1 (.inl he)]
  · rcases hs : lastShape t ws with - | shape
    · rw [(h t).1 (.inr hs)]
    · obtain ⟨_, heq⟩ := (h t).2 e shape he hs
      rw [heq]
      rfl

/-- The types are the ones before exactly when the writes keep them. -/
theorem Settled.eq_iff (h : Settled types types' ws) : types' = types ↔ Keeps types ws := by
  constructor
  · rintro rfl t shape hs
    rcases he : (types' t).elementType with - | e
    · exact .inl rfl
    · obtain ⟨_, heq⟩ := (h t).2 e shape he hs
      rw [heq]
      exact .inr ⟨rfl, rfl⟩
  · intro hkeeps
    funext t
    rcases hs : lastShape t ws with - | shape
    · exact (h t).1 (.inr hs)
    · rcases hkeeps t shape hs with he | ⟨hd, hst⟩
      · exact (h t).1 (.inl he)
      · rcases he : (types t).elementType with - | e
        · exact (h t).1 (.inl he)
        · obtain ⟨_, heq⟩ := (h t).2 e shape he hs
          rw [heq]
          cases htype : types t with
          | unranked _ =>
            rw [htype] at hd
            cases hd
          | ranked e' layout =>
            rw [htype] at hd hst he
            obtain ⟨dims, strides, hrank⟩ := layout
            cases hd
            cases hst
            cases he
            rfl

/-! ### One output -/

theorem zip_any_ne {a b : Dims} (h : a.length = b.length) :
    (a.zip b).any (fun d => d.1 ≠ d.2) = true ↔ a ≠ b := by
  induction a generalizing b with
  | nil =>
    cases b with
    | nil => exact iff_of_false (fun h => by cases h) (fun h => h rfl)
    | cons y b => cases h
  | cons x a ih =>
    cases b with
    | nil => cases h
    | cons y b =>
      rw [zip_cons_cons, any_cons, Bool.or_eq_true, ih (Nat.succ.inj h), decide_eq_true_eq]
      show x ≠ y ∨ a ≠ b ↔ ¬x :: a = y :: b
      rw [List.cons.injEq, not_and_or]

/-- A constant output passes when it is not ranked, or has the inferred dimensions. -/
theorem checkConstant_cases (type : TensorType E) (shape : Dims) :
    ((∃ d, type.dimensions = some d ∧ d ≠ shape) ∧
        checkConstant type shape = .error (.failure .shapeInferenceFailed)) ∨
      (¬∃ d, type.dimensions = some d ∧ d ≠ shape) ∧ checkConstant type shape = .ok () := by
  cases type with
  | unranked _ =>
    refine .inr ⟨?_, rfl⟩
    rintro ⟨d, hd, -⟩
    cases hd
  | ranked e layout =>
    unfold checkConstant
    dsimp only
    by_cases hlen : layout.dimensions.length = shape.length
    · rw [if_neg (not_not.2 hlen)]
      by_cases heq : layout.dimensions = shape
      · refine .inr ⟨?_, if_neg fun h => (zip_any_ne hlen).1 h heq⟩
        rintro ⟨d, hd, hne⟩
        cases hd
        exact hne heq
      · exact .inl ⟨⟨_, rfl, heq⟩, if_pos ((zip_any_ne hlen).2 heq)⟩
    · rw [if_pos hlen]
      exact .inl ⟨⟨_, rfl, fun heq => hlen (congrArg _ heq)⟩, rfl⟩

theorem updatedType_cases (type : TensorType E) (shape : Dims) :
    (type.elementType = none ∧ updatedType type shape = .ok type) ∨
      (type.elementType ≠ none ∧ tensorMaxRank < shape.length ∧
        updatedType type shape = .error .overrun) ∨
      ∃ e h, type.elementType = some e ∧
        updatedType type shape = .ok (.ranked (some e) ⟨shape, none, h⟩) := by
  unfold updatedType
  rcases he : type.elementType with - | e
  · exact .inl ⟨rfl, rfl⟩
  · unfold makeRankedTensorType
    dsimp only
    by_cases hlen : shape.length ≤ tensorMaxRank
    · rw [dif_pos hlen]
      exact .inr (.inr ⟨e, hlen, rfl, rfl⟩)
    · rw [dif_neg hlen]
      exact .inr (.inl ⟨Option.some_ne_none e, Nat.lt_of_not_le hlen, rfl⟩)

/-- A write more. -/
theorem Settled.snoc (h : Settled types cur before) {type : TensorType E}
    (htype : ((cur t).elementType = none ∧ type = cur t) ∨
      ∃ e h, (cur t).elementType = some e ∧ type = .ranked (some e) ⟨shape, none, h⟩) :
    Settled types (Function.update cur t type) (before ++ [(t, shape)]) := by
  intro u
  have hlast : lastShape u [(t, shape)] = if t = u then some shape else none := rfl
  rw [lastShape_append, hlast]
  by_cases hu : u = t
  · subst hu
    rw [if_pos rfl, Function.update_self, Option.some_or]
    rw [h.elementType u] at htype
    rcases htype with ⟨he, rfl⟩ | ⟨e, hrank, he, rfl⟩
    · refine ⟨fun _ => (h u).1 (.inl he), fun e' s he' _ => ?_⟩
      rw [he] at he'
      cases he'
    · refine ⟨fun hor => ?_, fun e' s he' hs => ?_⟩
      · rcases hor with hnone | hnone
        · rw [he] at hnone
          cases hnone
        · cases hnone
      · rw [he] at he'
        cases he'
        cases hs
        exact ⟨hrank, rfl⟩
  · rw [if_neg (Ne.symm hu), Option.none_or, Function.update_of_ne hu]
    exact h u

theorem updateOutput_settles (h : Settled types cur before) (p : T × Dims) :
    (Rejects engine types before p ∧ engine.updateOutput false cur p.1 p.2 =
        .error (.failure .shapeInferenceFailed)) ∨
      (¬Rejects engine types before p ∧ Overruns types p ∧
        engine.updateOutput false cur p.1 p.2 = .error .overrun) ∨
      (¬Rejects engine types before p ∧ ¬Overruns types p ∧
        ∃ cur', engine.updateOutput false cur p.1 p.2 = .ok cur' ∧
          Settled types cur' (before ++ [p])) := by
  obtain ⟨t, shape⟩ := p
  have hrejects : Rejects engine types before (t, shape) ↔
      engine.weights t ≠ [] ∧ ∃ d, (cur t).dimensions = some d ∧ d ≠ shape := by
    unfold Rejects
    rw [h.dimensions]
  have hoverruns : Overruns types (t, shape) ↔
      (cur t).elementType ≠ none ∧ tensorMaxRank < shape.length := by
    unfold Overruns
    rw [h.elementType]
  -- what follows when the constant passes
  have hpass : ¬Rejects engine types before (t, shape) → engine.updateOutput false cur t shape = (do
        let type ← updatedType (cur t) shape
        pure (Function.update cur t type)) := by
    intro hnot
    rw [hrejects, not_and] at hnot
    unfold ShapeInferenceEngine.updateOutput
    rw [if_neg Bool.false_ne_true]
    by_cases hw : engine.weights t ≠ []
    · rcases checkConstant_cases (cur t) shape with ⟨hex, -⟩ | ⟨-, hok⟩
      · exact absurd hex (hnot hw)
      · rw [if_pos hw, hok]
        rfl
    · rw [if_neg hw]
  by_cases hr : Rejects engine types before (t, shape)
  · refine .inl ⟨hr, ?_⟩
    obtain ⟨hw, hex⟩ := hrejects.1 hr
    unfold ShapeInferenceEngine.updateOutput
    rcases checkConstant_cases (cur t) shape with ⟨-, herr⟩ | ⟨hno, -⟩
    · rw [if_neg Bool.false_ne_true, if_pos hw, herr]
      rfl
    · exact absurd hex hno
  · refine .inr ?_
    dsimp only
    rw [hpass hr]
    rcases updatedType_cases (cur t) shape with ⟨he, hok⟩ | ⟨he, hlen, herr⟩ | ⟨e, hrank, he, hok⟩
    · refine .inr ⟨hr, fun ho => (hoverruns.1 ho).1 he, _, ?_, h.snoc (.inl ⟨he, rfl⟩)⟩
      rw [hok]
      rfl
    · exact .inl ⟨hr, hoverruns.2 ⟨he, hlen⟩, by rw [herr]; rfl⟩
    · refine .inr ⟨hr, fun ho => Nat.not_le.2 (hoverruns.1 ho).2 hrank, _, ?_,
        h.snoc (.inr ⟨e, hrank, he, rfl⟩)⟩
      rw [hok]
      rfl

/-! ### The outputs of an op -/

theorem clean_append_singleton :
    Clean engine types (ws ++ [p]) ↔
      Clean engine types ws ∧ ¬Rejects engine types ws p ∧ ¬Overruns types p := by
  constructor
  · intro h
    exact ⟨fun b q a heq => h b q (a ++ [p]) (by rw [heq, append_assoc, cons_append]),
      h ws p [] rfl⟩
  · rintro ⟨hws, hp⟩ b q a heq
    rcases eq_nil_or_concat a with rfl | ⟨a', r, rfl⟩
    · obtain ⟨rfl, hpq⟩ := append_inj' heq rfl
      cases hpq
      exact hp
    · rw [concat_eq_append, ← cons_append, ← append_assoc] at heq
      exact hws b q a' (append_inj' heq rfl).1

theorem clean_nil : Clean engine types [] := by
  intro b q a heq
  cases b <;> cases heq

/-- The loop passes over writes that do not stop it. -/
theorem updateOutputs_clean (rest : List (T × Dims)) (h : Settled types cur before)
    (hclean : Clean engine types (before ++ ws)) :
    ∃ cur', Settled types cur' (before ++ ws) ∧
      engine.updateOutputs false (ws ++ rest) cur = engine.updateOutputs false rest cur' := by
  induction ws generalizing before cur with
  | nil =>
    rw [append_nil]
    exact ⟨cur, h, rfl⟩
  | cons p ws ih =>
    obtain ⟨hnot, hfits⟩ := hclean before p ws rfl
    rcases @updateOutput_settles _ _ _ _ _ engine _ _ _ h p with
      ⟨hr, -⟩ | ⟨-, ho, -⟩ | ⟨-, -, cur₁, hok, hsettled⟩
    · exact absurd hr hnot
    · exact absurd ho hfits
    · rw [append_cons] at hclean
      obtain ⟨cur', hsettled', hrun⟩ := ih hsettled hclean
      refine ⟨cur', by rwa [append_cons], ?_⟩
      rw [← hrun, cons_append, ShapeInferenceEngine.updateOutputs, hok]

/-- A loop that stops does so at the first write that makes it. -/
theorem updateOutputs_cases (h : Settled types cur before) (hclean : Clean engine types before) :
    (∃ types', engine.updateOutputs false ws cur = (types', .ok ()) ∧
        Settled types types' (before ++ ws) ∧ Clean engine types (before ++ ws)) ∨
      ∃ mid p after types', ws = mid ++ p :: after ∧ Settled types types' (before ++ mid) ∧
        Clean engine types (before ++ mid) ∧
        ((Rejects engine types (before ++ mid) p ∧ engine.updateOutputs false ws cur =
            (types', .error (.failure .shapeInferenceFailed))) ∨
          ¬Rejects engine types (before ++ mid) p ∧ Overruns types p ∧
            engine.updateOutputs false ws cur = (types', .error .overrun)) := by
  induction ws generalizing before cur with
  | nil =>
    rw [append_nil]
    exact .inl ⟨cur, rfl, h, hclean⟩
  | cons p ws ih =>
    rcases @updateOutput_settles _ _ _ _ _ engine _ _ _ h p with
      ⟨hr, herr⟩ | ⟨hnot, ho, herr⟩ | ⟨hnot, hfits, cur₁, hok, hsettled⟩
    · refine .inr ⟨[], p, ws, cur, rfl, by rwa [append_nil], by rwa [append_nil],
        .inl ⟨by rwa [append_nil], ?_⟩⟩
      rw [ShapeInferenceEngine.updateOutputs, herr]
    · refine .inr ⟨[], p, ws, cur, rfl, by rwa [append_nil], by rwa [append_nil],
        .inr ⟨by rwa [append_nil], ho, ?_⟩⟩
      rw [ShapeInferenceEngine.updateOutputs, herr]
    · have hstep : engine.updateOutputs false (p :: ws) cur = engine.updateOutputs false ws cur₁ := by
        rw [ShapeInferenceEngine.updateOutputs, hok]
      rw [hstep, append_cons]
      rcases ih hsettled (clean_append_singleton.2 ⟨hclean, hnot, hfits⟩) with
        hok' | ⟨mid, q, after, types', hsplit, hrest⟩
      · exact .inl hok'
      · rw [← append_cons] at hrest
        exact .inr ⟨p :: mid, q, after, types', by rw [hsplit, cons_append], hrest⟩

/-- A failed loop leaves the types as they were exactly when nothing changes before the first
constant output that does not fit. -/
theorem updateOutputs_atomic_iff :
    (∀ types' stop, engine.updateOutputs false ws types = (types', .error stop) → stop.IsStatus →
      types' = types) ↔ AtomicWrites engine types ws := by
  constructor
  · rintro hatomic before p after rfl hclean hr
    have hclean' : Clean engine types ([] ++ before) := hclean
    obtain ⟨cur, hsettled, hrun⟩ :=
      updateOutputs_clean (p :: after) (Settled.refl types) hclean'
    rw [nil_append] at hsettled
    rcases @updateOutput_settles _ _ _ _ _ engine _ _ _ hsettled p with
      ⟨-, herr⟩ | ⟨hnot, -⟩ | ⟨hnot, -⟩
    · rw [ShapeInferenceEngine.updateOutputs, herr] at hrun
      exact hsettled.eq_iff.1 (hatomic _ _ hrun ⟨by decide, by decide⟩)
    · exact absurd hr hnot
    · exact absurd hr hnot
  · intro hatomic types' stop hrun hstatus
    rcases @updateOutputs_cases _ _ _ _ _ engine _ _ ws _ (Settled.refl types) clean_nil with
      ⟨_, hok, -⟩ | ⟨mid, p, after, cur, hsplit, hsettled, hclean, ⟨hr, herr⟩ | ⟨-, -, herr⟩⟩
    · rw [hok] at hrun
      cases hrun
    · rw [herr] at hrun
      cases hrun
      exact hsettled.eq_iff.2 (hatomic mid p after hsplit hclean hr)
    · rw [herr] at hrun
      cases hrun
      exact absurd hstatus id

end

end

end LiteRt.Shapes
