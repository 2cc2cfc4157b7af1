import LiteRt.Lib.ListIndex
import LiteRt.Lib.Loops

/-!
# The verifier's check of a graph

`VerifySubGraphConsistency` goes over the operators once. The inputs of an operator must be
known already, its outputs must not be. An index that no tensor has is an index like any other.
The marker of an optional tensor is skipped among the inputs but not among the outputs.
-/

namespace LiteRt.Tflite.Verifier

open List

variable {model : Model} {subgraph : SubGraph} {i : Int}

structure Buffer where
  data : Option (List UInt8)

structure Tensor where
  buffer : Nat
  isVariable : Bool

structure OperatorCode where
  builtinCode : Int
  deprecatedBuiltinCode : Int

structure Model where
  operatorCodes : Option (List OperatorCode)
  buffers : Option (List (Option Buffer))

/-- An operator that `VerifyOperators` let pass: it has both lists. -/
structure Operator where
  opcodeIndex : Nat
  inputs : List Int
  outputs : List Int

structure SubGraph where
  tensors : Option (List Tensor)
  inputs : Option (List Int)
  operators : Option (List Operator)

def kTfLiteOptionalTensor : Int := -1

def getBuiltinCode (opCode : OperatorCode) : Int :=
  max opCode.builtinCode opCode.deprecatedBuiltinCode

def isConstantTensor (tensor : Tensor) (model : Model) : Bool :=
  if tensor.buffer = 0 then false
  else
    match model.buffers with
    | none => false
    | some buffers =>
      match buffers[tensor.buffer]? with
      | some (some buffer) => buffer.data.isSome
      | _ => false

/-- The sets that are filled before the operators are looked at. -/
structure KnownTensors where
  constantTensors : List Int
  variableTensors : List Int
  subgraphInputTensors : List Int

/-- The indices of the tensors that satisfy a predicate. -/
def indicesOf (tensors : List Tensor) (p : Tensor → Bool) : List Int :=
  ((List.range tensors.length).filter fun i => (tensors[i]?).any p).map Int.ofNat

def knownTensors (model : Model) (subgraph : SubGraph) : KnownTensors where
  constantTensors := indicesOf (subgraph.tensors.getD []) (isConstantTensor · model)
  variableTensors := indicesOf (subgraph.tensors.getD []) fun tensor =>
    !isConstantTensor tensor model && tensor.isVariable
  subgraphInputTensors := subgraph.inputs.getD []

section
variable (enumNameBuiltinOperator : Int → String) (model : Model) (known : KnownTensors)
  (opIdx : Nat) (builtinCode : Int)

def inputError (inputIdx : Int) : String :=
  s!"Input tensor {inputIdx} to op {opIdx} ({enumNameBuiltinOperator builtinCode}) " ++
    "is not produced"

def outputError (outputIdx : Int) (what : String) : String :=
  s!"Output tensor {outputIdx} to op {opIdx} ({enumNameBuiltinOperator builtinCode}) is " ++ what

/-- The loop over the inputs of an operator. -/
def checkInputs (outputTensors : List Int) : List Int → Except String Unit
  | [] => .ok ()
  | inputIdx :: rest =>
    if inputIdx = kTfLiteOptionalTensor then checkInputs outputTensors rest
    else if inputIdx ∉ known.constantTensors ∧ inputIdx ∉ known.variableTensors ∧
        inputIdx ∉ known.subgraphInputTensors ∧ inputIdx ∉ outputTensors then
      .error (inputError enumNameBuiltinOperator opIdx builtinCode inputIdx)
    else checkInputs outputTensors rest

/-- The loop over the outputs of an operator, with the set it fills. -/
def checkOutputs (outputTensors : List Int) : List Int → Except String (List Int)
  | [] => .ok outputTensors
  | outputIdx :: rest =>
    let error := fun what =>
      Except.error (outputError enumNameBuiltinOperator opIdx builtinCode outputIdx what)
    if outputIdx ∈ known.constantTensors then error "a constant"
    else if outputIdx ∈ known.variableTensors then error "a variable"
    else if outputIdx ∈ known.subgraphInputTensors then error "a subgraph input"
    else if outputIdx ∈ outputTensors then
      error "an output from another op. There is a cycle in the graph"
    else checkOutputs (outputIdx :: outputTensors) rest

/-- The loop over the operators. -/
def checkOperators (opIdx : Nat) (outputTensors : List Int) :
    List Operator → Except String Unit
  | [] => .ok ()
  | op :: rest =>
    match (model.operatorCodes.getD [])[op.opcodeIndex]? with
    | none => .error s!"Operator {op.opcodeIndex} does not exist in model op codes"
    | some opcode => do
      let builtinCode := getBuiltinCode opcode
      checkInputs enumNameBuiltinOperator known opIdx builtinCode outputTensors op.inputs
      let outputTensors ←
        checkOutputs enumNameBuiltinOperator known opIdx builtinCode outputTensors op.outputs
      checkOperators (opIdx + 1) outputTensors rest

/-- Without an error the function returns true. -/
def verifySubGraphConsistency (subgraph : SubGraph) : Except String Unit :=
  checkOperators enumNameBuiltinOperator model (knownTensors model subgraph) 0 []
    (subgraph.operators.getD [])

end

/-! ### What a consistent graph is -/

section
variable (model : Model) (subgraph : SubGraph)

/-- The indices of the tensors with data. -/
def IsConstant (i : Int) : Prop :=
  ∃ n tensor, i = Int.ofNat n ∧ (subgraph.tensors.getD [])[n]? = some tensor ∧
    isConstantTensor tensor model = true

def IsVariable (i : Int) : Prop :=
  ∃ n tensor, i = Int.ofNat n ∧ (subgraph.tensors.getD [])[n]? = some tensor ∧
    tensor.isVariable = true

/-- An index that needs no operator to produce it. -/
def Provided (i : Int) : Prop :=
  IsConstant model subgraph i ∨ IsVariable subgraph i ∨ i ∈ subgraph.inputs.getD []

def outputsOf (ops : List Operator) : List Int := ops.flatMap Operator.outputs

structure Consistent : Prop where
  opcodes : ∀ op ∈ subgraph.operators.getD [], op.opcodeIndex < (model.operatorCodes.getD []).length
  inputsProduced : ∀ before op after, subgraph.operators.getD [] = before ++ op :: after →
    ∀ i ∈ op.inputs, i = kTfLiteOptionalTensor ∨ Provided model subgraph i ∨ i ∈ outputsOf before
  outputsFree : ∀ i ∈ outputsOf (subgraph.operators.getD []), i ≠ kTfLiteOptionalTensor →
    ¬Provided model subgraph i
  outputsOnce : ((outputsOf (subgraph.operators.getD [])).filter (· ≠ kTfLiteOptionalTensor)).Nodup

/-- Every tensor an operator names is one of the subgraph. -/
def InRange : Prop :=
  ∀ op ∈ subgraph.operators.getD [], ∀ i ∈ op.inputs ++ op.outputs,
    i ≠ kTfLiteOptionalTensor → i < (subgraph.tensors.getD []).length

/-- The marker is an output once at most, and none where it is listed as a subgraph input. -/
def MarkerOnce : Prop :=
  (outputsOf (subgraph.operators.getD [])).count kTfLiteOptionalTensor ≤ 1 ∧
    (kTfLiteOptionalTensor ∈ subgraph.inputs.getD [] →
      kTfLiteOptionalTensor ∉ outputsOf (subgraph.operators.getD []))

end

/-! ### What the loops accept -/

/-- An index in one of the sets. -/
def KnownTensors.Mem (known : KnownTensors) (i : Int) : Prop :=
  i ∈ known.constantTensors ∨ i ∈ known.variableTensors ∨ i ∈ known.subgraphInputTensors

theorem mem_indicesOf {tensors : List Tensor} {p : Tensor → Bool} :
    i ∈ indicesOf tensors p ↔
      ∃ n tensor, i = Int.ofNat n ∧ tensors[n]? = some tensor ∧ p tensor = true := by
  unfold indicesOf
  rw [mem_map]
  constructor
  · rintro ⟨n, hn, rfl⟩
    obtain ⟨tensor, htensor, hp⟩ := (Option.any_eq_true _ _).1 (mem_filter.1 hn).2
    exact ⟨n, tensor, rfl, htensor, hp⟩
  · rintro ⟨n, tensor, rfl, htensor, hp⟩
    have hlt := (List.getElem?_eq_some_iff.1 htensor).1
    refine ⟨n, mem_filter.2 ⟨mem_range.2 hlt, ?_⟩, rfl⟩
    exact (Option.any_eq_true _ _).2 ⟨tensor, htensor, hp⟩

theorem mem_knownTensors :
    (knownTensors model subgraph).Mem i ↔ Provided model subgraph i := by
  unfold KnownTensors.Mem knownTensors Provided IsConstant IsVariable
  rw [mem_indicesOf, mem_indicesOf]
  constructor
  · rintro (h | ⟨n, tensor, rfl, htensor, hp⟩ | h)
    · exact .inl h
    · rw [Bool.and_eq_true] at hp
      exact .inr (.inl ⟨n, tensor, rfl, htensor, hp.2⟩)
    · exact .inr (.inr h)
  · rintro (h | ⟨n, tensor, rfl, htensor, hvar⟩ | h)
    · exact .inl h
    · -- a variable with data is in the set of the constants
      by_cases hc : isConstantTensor tensor model = true
      · exact .inl ⟨n, tensor, rfl, htensor, hc⟩
      · exact .inr (.inl ⟨n, tensor, rfl, htensor, by simp [hc, hvar]⟩)
    · exact .inr (.inr h)

theorem optional_not_tensor (h : Provided model subgraph kTfLiteOptionalTensor) :
    kTfLiteOptionalTensor ∈ subgraph.inputs.getD [] := by
  have hne : ∀ n : Nat, kTfLiteOptionalTensor ≠ Int.ofNat n := fun n hn => by
    rw [Int.ofNat_eq_natCast] at hn
    unfold kTfLiteOptionalTensor at hn
    omega
  rcases h with ⟨n, tensor, hn, -⟩ | ⟨n, tensor, hn, -⟩ | h
  · exact absurd hn (hne n)
  · exact absurd hn (hne n)
  · exact h

section
variable {name : Int → String} {model : Model} {known : KnownTensors} {opIdx : Nat}
  {builtinCode : Int} {outputTensors : List Int}

theorem checkInputs_cons {i : Int} {rest : List Int} :
    checkInputs name known opIdx builtinCode outputTensors (i :: rest) =
      if i = kTfLiteOptionalTensor then
        checkInputs name known opIdx builtinCode outputTensors rest
      else if i ∉ known.constantTensors ∧ i ∉ known.variableTensors ∧
          i ∉ known.subgraphInputTensors ∧ i ∉ outputTensors then
        .error (inputError name opIdx builtinCode i)
      else checkInputs name known opIdx builtinCode outputTensors rest :=
  rfl

theorem checkInputs_ok {outputTensors inputs : List Int} :
    checkInputs name known opIdx builtinCode outputTensors inputs = .ok () ↔
      ∀ i ∈ inputs, i = kTfLiteOptionalTensor ∨ known.Mem i ∨ i ∈ outputTensors := by
  induction inputs with
  | nil => exact iff_of_true rfl (fun i hi => absurd hi not_mem_nil)
  | cons i rest ih =>
    rw [forall_mem_cons, ← ih, checkInputs_cons]
    by_cases hopt : i = kTfLiteOptionalTensor
    · rw [if_pos hopt, and_iff_right (.inl hopt)]
    rw [if_neg hopt]
    by_cases hmem : known.Mem i ∨ i ∈ outputTensors
    · rw [if_neg, and_iff_right (.inr hmem)]
      rintro ⟨hc, hv, hs, ho⟩
      rcases hmem with (h | h | h) | h
      · exact hc h
      · exact hv h
      · exact hs h
      · exact ho h
    · rw [if_pos ⟨fun h => hmem (.inl (.inl h)), fun h => hmem (.inl (.inr (.inl h))),
        fun h => hmem (.inl (.inr (.inr h))), fun h => hmem (.inr h)⟩]
      refine iff_of_false (fun h => by cases h) (fun h => ?_)
      rcases h.1 with h | h
      · exact hopt h
      · exact hmem h

theorem checkOutputs_ok {outputTensors outputs r : List Int} :
    checkOutputs name known opIdx builtinCode outputTensors outputs = .ok r ↔
      (∀ o ∈ outputs, ¬known.Mem o ∧ o ∉ outputTensors) ∧ outputs.Nodup ∧
        r = outputs.reverse ++ outputTensors := by
  induction outputs generalizing outputTensors with
  | nil =>
    show Except.ok outputTensors = .ok r ↔ _
    rw [Except.ok.injEq, eq_comm, and_iff_right (fun o ho => absurd ho not_mem_nil),
      and_iff_right nodup_nil]
    rfl
  | cons o rest ih =>
    unfold checkOutputs
    dsimp only
    by_cases hmem : known.Mem o ∨ o ∈ outputTensors
    · -- one of the four checks fails
      have hright : ¬((∀ o' ∈ o :: rest, ¬known.Mem o' ∧ o' ∉ outputTensors) ∧
          (o :: rest).Nodup ∧ r = (o :: rest).reverse ++ outputTensors) := by
        rintro ⟨hfree, -⟩
        obtain ⟨hk, ho⟩ := hfree o mem_cons_self
        exact hmem.elim hk ho
      refine iff_of_false ?_ hright
      split_ifs with hc hv hs ho
      all_goals first | exact fun h => by cases h | skip
      rcases hmem with (h | h | h) | h
      · exact absurd h hc
      · exact absurd h hv
      · exact absurd h hs
      · exact absurd h ho
    · rw [if_neg fun h => hmem (.inl (.inl h)), if_neg fun h => hmem (.inl (.inr (.inl h))),
        if_neg fun h => hmem (.inl (.inr (.inr h))), if_neg fun h => hmem (.inr h), ih]
      have hk : ¬known.Mem o := fun h => hmem (.inl h)
      have ho : o ∉ outputTensors := fun h => hmem (.inr h)
      rw [forall_mem_cons,
        and_iff_right (show ¬known.Mem o ∧ o ∉ outputTensors from ⟨hk, ho⟩), nodup_cons, reverse_cons,
        append_assoc, singleton_append]
      constructor
      · rintro ⟨hfree, hnodup, rfl⟩
        refine ⟨fun o' ho' => ⟨(hfree o' ho').1, fun h => ?_⟩, ⟨fun hmem' => ?_, hnodup⟩, rfl⟩
        · exact (hfree o' ho').2 (mem_cons_of_mem o h)
        · exact (hfree o hmem').2 mem_cons_self
      · rintro ⟨hfree, ⟨hnot, hnodup⟩, rfl⟩
        refine ⟨fun o' ho' => ⟨(hfree o' ho').1, fun h => ?_⟩, hnodup, rfl⟩
        rcases mem_cons.1 h with rfl | h
        · exact hnot ho'
        · exact (hfree o' ho').2 h

/-- What is accepted with some outputs seen already. -/
structure Accepted (model : Model) (known : KnownTensors) (outputTensors : List Int)
    (ops : List Operator) : Prop where
  opcodes : ∀ op ∈ ops, op.opcodeIndex < (model.operatorCodes.getD []).length
  inputs : ∀ before op after, ops = before ++ op :: after → ∀ i ∈ op.inputs,
    i = kTfLiteOptionalTensor ∨ known.Mem i ∨ i ∈ outputTensors ∨ i ∈ outputsOf before
  outputs : ∀ o ∈ outputsOf ops, ¬known.Mem o ∧ o ∉ outputTensors
  nodup : (outputsOf ops).Nodup

theorem accepted_nil : Accepted model known outputTensors [] where
  opcodes op h := absurd h not_mem_nil
  inputs before op after h := by
    cases before with
    | nil => cases h
    | cons b before => cases h
  outputs o h := absurd h not_mem_nil
  nodup := nodup_nil

theorem accepted_cons {op : Operator} {rest : List Operator} :
    Accepted model known outputTensors (op :: rest) ↔
      op.opcodeIndex < (model.operatorCodes.getD []).length ∧
      (∀ i ∈ op.inputs, i = kTfLiteOptionalTensor ∨ known.Mem i ∨ i ∈ outputTensors) ∧
      ((∀ o ∈ op.outputs, ¬known.Mem o ∧ o ∉ outputTensors) ∧ op.outputs.Nodup) ∧
      Accepted model known (op.outputs.reverse ++ outputTensors) rest := by
  have hcons : ∀ ops, outputsOf (op :: ops) = op.outputs ++ outputsOf ops := fun _ => rfl
  have hinputs : (∀ before op' after, op :: rest = before ++ op' :: after → ∀ i ∈ op'.inputs,
      i = kTfLiteOptionalTensor ∨ known.Mem i ∨ i ∈ outputTensors ∨ i ∈ outputsOf before) ↔
      (∀ i ∈ op.inputs, i = kTfLiteOptionalTensor ∨ known.Mem i ∨ i ∈ outputTensors) ∧
      ∀ before op' after, rest = before ++ op' :: after → ∀ i ∈ op'.inputs,
        i = kTfLiteOptionalTensor ∨ known.Mem i ∨ i ∈ op.outputs.reverse ++ outputTensors ∨
          i ∈ outputsOf before := by
    have hnil : ∀ i, i ∉ outputsOf [] := fun i => not_mem_nil
    refine Lib.forall_split_cons.trans (and_congr ?_ ?_)
    · simp only [hnil, or_false]
    · simp only [hcons, mem_append, mem_reverse, or_assoc, or_left_comm]
  constructor
  · intro h
    have hout := h.outputs
    have hnodup := h.nodup
    rw [hcons] at hout hnodup
    obtain ⟨hnodupOp, hnodupRest, hdisj⟩ := nodup_append'.1 hnodup
    obtain ⟨hop, hrest⟩ := hinputs.1 h.inputs
    refine ⟨h.opcodes op mem_cons_self, hop, ⟨fun o ho => hout o (mem_append_left _ ho), hnodupOp⟩,
      fun op' hop' => h.opcodes op' (mem_cons_of_mem op hop'), hrest, fun o ho => ?_, hnodupRest⟩
    refine ⟨(hout o (mem_append_right _ ho)).1, fun hmem => ?_⟩
    rcases mem_append.1 hmem with hmem | hmem
    · exact hdisj (mem_reverse.1 hmem) ho
    · exact (hout o (mem_append_right _ ho)).2 hmem
  · rintro ⟨hcode, hop, ⟨hout, hnodup⟩, hrest⟩
    refine ⟨forall_mem_cons.2 ⟨hcode, hrest.opcodes⟩, hinputs.2 ⟨hop, hrest.inputs⟩, ?_, ?_⟩
    · intro o ho
      rw [hcons] at ho
      rcases mem_append.1 ho with ho | ho
      · exact hout o ho
      · exact ⟨(hrest.outputs o ho).1, fun hmem => (hrest.outputs o ho).2 (mem_append_right _ hmem)⟩
    · rw [hcons]
      refine nodup_append'.2 ⟨hnodup, hrest.nodup, fun o ho ho' => ?_⟩
      exact (hrest.outputs o ho').2 (mem_append_left _ (mem_reverse.2 ho))

theorem checkOperators_ok {ops : List Operator} :
    checkOperators name model known opIdx outputTensors ops = .ok () ↔
      Accepted model known outputTensors ops := by
  induction ops generalizing opIdx outputTensors with
  | nil => exact iff_of_true rfl accepted_nil
  | cons op rest ih =>
    rw [accepted_cons]
    unfold checkOperators
    cases hcode : (model.operatorCodes.getD [])[op.opcodeIndex]? with
    | none =>
      refine iff_of_false (fun h => by cases h) (fun h => ?_)
      rw [List.getElem?_eq_none_iff] at hcode
      exact absurd h.1 (Nat.not_lt.2 hcode)
    | some opcode =>
      have hlt := (List.getElem?_eq_some_iff.1 hcode).1
      rw [and_iff_right hlt, 
        ← @checkInputs_ok name known opIdx (getBuiltinCode opcode) outputTensors op.inputs]
      dsimp only
      cases hin : checkInputs name known opIdx (getBuiltinCode opcode) outputTensors op.inputs with
      | error msg => exact iff_of_false (fun h => by cases h) (fun h => by cases h.1)
      | ok u =>
        rw [Lib.ok_bind, and_iff_right rfl]
        cases hout : checkOutputs name known opIdx (getBuiltinCode opcode) outputTensors
            op.outputs with
        | error msg =>
          refine iff_of_false (fun h => by cases h) (fun h => ?_)
          rw [checkOutputs_ok.2 ⟨h.1.1, h.1.2, rfl⟩] at hout
          cases hout
        | ok r =>
          obtain ⟨hfree, hnodup, rfl⟩ := checkOutputs_ok.1 hout
          rw [Lib.ok_bind, and_iff_right ⟨hfree, hnodup⟩, ih]

end

/-! ### The verdict -/

theorem Accepted.consistent
    (h : Accepted model (knownTensors model subgraph) [] (subgraph.operators.getD [])) :
    Consistent model subgraph where
  opcodes := h.opcodes
  inputsProduced before op after heq i hi := by
    rcases h.inputs before op after heq i hi with h | h | h | h
    · exact .inl h
    · exact .inr (.inl (mem_knownTensors.1 h))
    · exact absurd h not_mem_nil
    · exact .inr (.inr h)
  outputsFree i hi _ := fun hp => (h.outputs i hi).1 (mem_knownTensors.2 hp)
  outputsOnce := h.nodup.filter _

/-- What is consistent is accepted where the marker is no ordinary output twice. -/
theorem Consistent.accepted (h : Consistent model subgraph) (hmarker : MarkerOnce subgraph) :
    Accepted model (knownTensors model subgraph) [] (subgraph.operators.getD []) where
  opcodes := h.opcodes
  inputs before op after heq i hi := by
    rcases h.inputsProduced before op after heq i hi with h | h | h
    · exact .inl h
    · exact .inr (.inl (mem_knownTensors.2 h))
    · exact .inr (.inr (.inr h))
  outputs o ho := by
    refine ⟨fun hp => ?_, not_mem_nil⟩
    have hprovided := mem_knownTensors.1 hp
    by_cases hopt : o = kTfLiteOptionalTensor
    · rw [hopt] at ho hprovided
      exact hmarker.2 (optional_not_tensor hprovided) ho
    · exact h.outputsFree o ho hopt hprovided
  nodup := by
    rw [nodup_iff_count_le_one]
    intro o
    by_cases hopt : o = kTfLiteOptionalTensor
    · rw [hopt]
      exact hmarker.1
    · rw [← count_filter (p := (· ≠ kTfLiteOptionalTensor)) (decide_eq_true hopt)]
      exact nodup_iff_count_le_one.1 h.outputsOnce o

/-- The verifier accepts the consistent graphs, whatever tensors their indices name. -/
theorem verifySubGraphConsistency_ok_iff (enumNameBuiltinOperator : Int → String) (model : Model)
    (subgraph : SubGraph) (hmarker : MarkerOnce subgraph) :
    verifySubGraphConsistency enumNameBuiltinOperator model subgraph = .ok () ↔
      Consistent model subgraph := by
  unfold verifySubGraphConsistency
  rw [checkOperators_ok]
  exact ⟨fun h => h.consistent, fun h => h.accepted hmarker⟩

/-- One operator of one input and one output, among no tensors. -/
def oneOperator (input output : Int) : SubGraph where
  tensors := none
  inputs := some [input]
  operators := some [{ opcodeIndex := 0, inputs := [input], outputs := [output] }]

def oneOperatorCode : Model where
  operatorCodes := some [{ builtinCode := 0, deprecatedBuiltinCode := 0 }]
  buffers := none

theorem verifySubGraphConsistency_oneOperator :
    MarkerOnce (oneOperator 0 1) ∧ Consistent oneOperatorCode (oneOperator 0 1) :=
  have hmarker : MarkerOnce (oneOperator 0 1) := ⟨by decide, by decide⟩
  ⟨hmarker, (verifySubGraphConsistency_ok_iff (fun _ => "ADD") oneOperatorCode
    (oneOperator 0 1) hmarker).1 rfl⟩

/-- An operator that writes a tensor that does not exist is accepted. -/
theorem verifySubGraphConsistency_accepts_outOfRange :
    ¬∀ (enumNameBuiltinOperator : Int → String) (model : Model) (subgraph : SubGraph),
      verifySubGraphConsistency enumNameBuiltinOperator model subgraph = .ok () ↔
        Consistent model subgraph ∧ InRange subgraph := by
  intro h
  have hrange := ((h (fun _ => "ADD") oneOperatorCode (oneOperator 0 1)).1 rfl).2
  have hlt := hrange { opcodeIndex := 0, inputs := [0], outputs := [1] } mem_cons_self 1
    (by decide) (by decide)
  exact absurd hlt (by decide)

end LiteRt.Tflite.Verifier
