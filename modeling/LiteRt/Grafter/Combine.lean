import LiteRt.Lib.Concatenation
import LiteRt.Lib.Loops

/-!
# Combining models

The tables of several models are put one after the other, and the indices into them shifted.
Tables without indices are copied by reflection, which keeps what they contain.
-/

namespace LiteRt.Grafter

open List

section

structure OperatorCode where
  deprecatedBuiltinCode : Int := 0
  customCode : Option (List UInt8) := none
  version : Int := 1
  builtinCode : Int := 0
  deriving DecidableEq, Repr

structure Buffer where
  data : Option (List UInt8) := none
  offset : Nat := 0
  size : Nat := 0
  deriving DecidableEq, Repr

/-- `T` stands for the tables that are copied as they are. -/
structure Operator (T : Type) where
  opcodeIndex : Nat := 0
  inputs : Option (List Int) := none
  outputs : Option (List Int) := none
  builtinOptionsType : Nat := 0
  builtinOptions : Option T := none
  customOptions : Option (List UInt8) := none
  customOptionsFormat : Nat := 0
  mutatingVariableInputs : Option (List Bool) := none
  intermediates : Option (List Int) := none
  largeCustomOptionsOffset : Nat := 0
  largeCustomOptionsSize : Nat := 0
  builtinOptions2Type : Nat := 0
  builtinOptions2 : Option T := none
  debugMetadataIndex : Int := -1
  deriving DecidableEq, Repr

structure Tensor (T : Type) where
  shape : Option (List Int) := none
  type : Int := 0
  buffer : Nat := 0
  name : Option (List UInt8) := none
  quantization : Option T := none
  isVariable : Bool := false
  sparsity : Option T := none
  shapeSignature : Option (List Int) := none
  hasRank : Bool := false
  variantTensors : Option (List T) := none
  externalBuffer : Nat := 0
  deriving DecidableEq, Repr

structure SubGraph (T : Type) where
  tensors : Option (List (Tensor T)) := none
  inputs : Option (List Int) := none
  outputs : Option (List Int) := none
  operators : Option (List (Operator T)) := none
  name : Option (List UInt8) := none
  debugMetadataIndex : Int := -1
  deriving DecidableEq, Repr

structure Metadata where
  name : Option (List UInt8) := none
  buffer : Nat := 0
  deriving DecidableEq, Repr

structure Model (T : Type) where
  version : Nat := 0
  operatorCodes : Option (List OperatorCode) := none
  subgraphs : Option (List (SubGraph T)) := none
  description : Option (List UInt8) := none
  buffers : Option (List Buffer) := none
  metadataBuffer : Option (List Int) := none
  metadata : Option (List Metadata) := none
  signatureDefs : Option (List T) := none
  externalBufferGroups : Option (List T) := none
  externalBuffers : Option (List T) := none
  deriving DecidableEq, Repr

inductive Failure
  | status
  /-- A null pointer or the end of a vector is read, or the builder is full. -/
  | fault
  deriving DecidableEq, Repr

variable {T α : Type}

def deref : Option α → Except Failure α
  | some a => .ok a
  | none => .error .fault

/-- A builder holds less than 2³¹ bytes. -/
def createVector (l : List α) : Except Failure (List α) :=
  if l.length < 2 ^ 31 then .ok l else .error .fault

/-- An `uint` and an offset. -/
def addUint (n offset : Nat) : Nat := (n + offset) % 2 ^ 32

def operatorCodes (models : List (Model T)) : Except Failure (List OperatorCode) := do
  let tables ← models.mapM fun model => deref model.operatorCodes
  createVector tables.flatten

def buffers (models : List (Model T)) : Except Failure (List Buffer) := do
  let tables ← models.mapM fun model => deref model.buffers
  createVector tables.flatten

def adjustOp (operatorCodeOffset : Nat) (op : Operator T) : Operator T where
  opcodeIndex := addUint op.opcodeIndex operatorCodeOffset
  inputs := op.inputs
  outputs := op.outputs
  builtinOptionsType := op.builtinOptionsType
  builtinOptions := op.builtinOptions
  customOptions := op.customOptions
  customOptionsFormat := op.customOptionsFormat
  mutatingVariableInputs := op.mutatingVariableInputs
  intermediates := op.intermediates

def adjustOps (graph : SubGraph T) (operatorCodeOffset : Nat) :
    Except Failure (List (Operator T)) := do
  let operators ← deref graph.operators
  createVector (operators.map (adjustOp operatorCodeOffset))

def adjustTensor (bufferOffset : Nat) (i : Tensor T) : Except Failure (Tensor T) := do
  let shape ← deref i.shape
  let name ← deref i.name
  .ok {
    shape := some shape
    type := i.type
    buffer := addUint i.buffer bufferOffset
    name := some name
    quantization := i.quantization
    isVariable := i.isVariable
    sparsity := i.sparsity
    shapeSignature := if i.shapeSignature = some [] then none else i.shapeSignature }

def adjustTensors (graph : SubGraph T) (bufferOffset : Nat) :
    Except Failure (List (Tensor T)) := do
  let origTensors ← deref graph.tensors
  let tensors ← origTensors.mapM (adjustTensor bufferOffset)
  createVector tensors

def adjustSubGraph (graph : SubGraph T) (bufferOffset operatorCodeOffset : Nat)
    (name : List UInt8) : Except Failure (SubGraph T) := do
  let tensors ← adjustTensors graph bufferOffset
  let ops ← adjustOps graph operatorCodeOffset
  .ok {
    tensors := some tensors
    inputs := graph.inputs
    outputs := graph.outputs
    operators := some ops
    name := some name }

/-- The loop, with the offsets of the next model. -/
def subGraphsFrom (subgraphNames : List (List UInt8)) :
    List (Model T) → Nat → Nat → Nat → Except Failure (List (SubGraph T))
  | [], _, _, _ => .ok []
  | model :: models, bufferOffset, operatorCodeOffset, subgraphIndex => do
    let graphs ← deref model.subgraphs
    match graphs with
    | [orig] =>
      let name ← deref subgraphNames[subgraphIndex]?
      let graph ← adjustSubGraph orig bufferOffset operatorCodeOffset name
      let buffers ← deref model.buffers
      let codes ← deref model.operatorCodes
      let rest ← subGraphsFrom subgraphNames models (bufferOffset + buffers.length)
        (operatorCodeOffset + codes.length) (subgraphIndex + 1)
      .ok (graph :: rest)
    | _ => .error .status

def subGraphs (models : List (Model T)) (subgraphNames : List (List UInt8)) :
    Except Failure (List (SubGraph T)) := do
  let graphs ← subGraphsFrom subgraphNames models 0 0 0
  createVector graphs

/-- The offset is passed and not used. -/
def adjustMetadata (metadata : Metadata) (_bufferOffset : Nat) : Metadata where
  name := metadata.name
  buffer := metadata.buffer

/-- The entries of one model, with the offset before and after them. -/
def metadataOf (model : Model T) : List Metadata → Nat → Except Failure (List Metadata × Nat)
  | [], bufferOffset => .ok ([], bufferOffset)
  | entry :: entries, bufferOffset => do
    let buffers ← deref model.buffers
    let (rest, bufferOffset') ← metadataOf model entries (bufferOffset + buffers.length)
    .ok (adjustMetadata entry bufferOffset :: rest, bufferOffset')

def metadatasFrom : List (Model T) → Nat → Except Failure (List Metadata)
  | [], _ => .ok []
  | model :: models, bufferOffset => do
    let (entries, bufferOffset') ← metadataOf model (model.metadata.getD []) bufferOffset
    let rest ← metadatasFrom models bufferOffset'
    .ok (entries ++ rest)

def metadatas (models : List (Model T)) : Except Failure (List Metadata) := do
  let entries ← metadatasFrom models 0
  createVector entries

def combineModels (models : List (Model T)) (subgraphNames : List (List UInt8)) :
    Except Failure (Model T) :=
  if models.length < 2 then .error .status
  else do
    let codes ← operatorCodes models
    let subgraphs ← subGraphs models subgraphNames
    let buffers ← buffers models
    let metadata ← metadatas models
    let first ← deref models[0]?
    let signatureDefs ← createVector (first.signatureDefs.getD [])
    let description ← deref first.description
    .ok {
      version := 3
      operatorCodes := some codes
      subgraphs := some subgraphs
      description := some description
      buffers := some buffers
      metadata := some metadata
      signatureDefs := some signatureDefs }

end

/-!
## What a combination keeps

Every index of a subgraph is shifted by the tables before it, those of the metadata entries are
not. Fields that newer schemas have added are not copied.
-/

open LiteRt.Lib
variable {T α β : Type}

/-! ### What is read of a model -/

def Model.codes (model : Model T) : List OperatorCode := model.operatorCodes.getD []

def Model.bufferTable (model : Model T) : List Buffer := model.buffers.getD []

def Model.graphs (model : Model T) : List (SubGraph T) := model.subgraphs.getD []

def Model.entries (model : Model T) : List Metadata := model.metadata.getD []

/-- An operator with its code and one with the same code and the same other fields. -/
structure SameOperator (own combined : Model T) (op op' : Operator T) : Prop where
  code : combined.codes[op'.opcodeIndex]? = own.codes[op.opcodeIndex]?
  fields : { op' with opcodeIndex := op.opcodeIndex } = op

structure SameTensor (own combined : Model T) (t t' : Tensor T) : Prop where
  buffer : combined.bufferTable[t'.buffer]? = own.bufferTable[t.buffer]?
  fields : { t' with buffer := t.buffer } = t

/-- The name of a subgraph is given with the call. -/
structure SameSubGraph (own combined : Model T) (graph graph' : SubGraph T) : Prop where
  tensors : List.Forall₂ (SameTensor own combined) (graph.tensors.getD []) (graph'.tensors.getD [])
  operators : List.Forall₂ (SameOperator own combined) (graph.operators.getD [])
    (graph'.operators.getD [])
  inputs : graph'.inputs = graph.inputs
  outputs : graph'.outputs = graph.outputs
  debugMetadataIndex : graph'.debugMetadataIndex = graph.debugMetadataIndex

/-- An entry of a model and one of the combined model with the same name and content. -/
structure SameEntry (combined : Model T) (p : Model T × Metadata) (entry' : Metadata) : Prop where
  name : entry'.name = p.2.name
  content : combined.bufferTable[entry'.buffer]? = p.1.bufferTable[p.2.buffer]?

/-- The entries of all models in order, each with its model. -/
def allEntries (models : List (Model T)) : List (Model T × Metadata) :=
  models.flatMap fun model => model.entries.map fun entry => (model, entry)

structure Faithful (models : List (Model T)) (combined : Model T) : Prop where
  subgraphs : ∀ (i : Nat) (own : Model T), models[i]? = some own →
    ∃ graph graph', own.subgraphs = some [graph] ∧ combined.graphs[i]? = some graph' ∧
      SameSubGraph own combined graph graph'
  metadata : List.Forall₂ (SameEntry combined) (allEntries models) combined.entries

/-! ### What is lost -/

/-- The fields of an operator that are not copied have their defaults. -/
structure Operator.Plain (op : Operator T) : Prop where
  largeCustomOptionsOffset : op.largeCustomOptionsOffset = 0
  largeCustomOptionsSize : op.largeCustomOptionsSize = 0
  builtinOptions2Type : op.builtinOptions2Type = 0
  builtinOptions2 : op.builtinOptions2 = none
  debugMetadataIndex : op.debugMetadataIndex = -1

/-- The fields of a tensor that are not copied have their defaults. -/
structure Tensor.Plain (t : Tensor T) : Prop where
  shapeSignature : t.shapeSignature ≠ some []
  hasRank : t.hasRank = false
  variantTensors : t.variantTensors = none
  externalBuffer : t.externalBuffer = 0

def codeTables (models : List (Model T)) : List (List OperatorCode) := models.map Model.codes

def bufferTables (models : List (Model T)) : List (List Buffer) := models.map Model.bufferTable

/-- The subgraph of the `i`-th model has no field that is lost and no index without an entry that
has one after the shift. -/
structure SubGraph.Kept (models : List (Model T)) (i : Nat) (own : Model T) (graph : SubGraph T) :
    Prop where
  operators : ∀ op ∈ graph.operators.getD [],
    op.Plain ∧ Lands (2 ^ 32) (codeTables models) i own.codes op.opcodeIndex
  tensors : ∀ t ∈ graph.tensors.getD [],
    t.Plain ∧ Lands (2 ^ 32) (bufferTables models) i own.bufferTable t.buffer
  debugMetadataIndex : graph.debugMetadataIndex = -1

/-- The models whose combination is faithful. -/
structure Kept (models : List (Model T)) : Prop where
  subgraphs : ∀ (i : Nat) (own : Model T), models[i]? = some own → ∀ graph,
    own.subgraphs = some [graph] → graph.Kept models i own
  /-- The buffer with the same index in all tables, put one after the other, is the same. -/
  metadata : ∀ own ∈ models, ∀ entry ∈ own.entries,
    (bufferTables models).flatten[entry.buffer]? = own.bufferTable[entry.buffer]?

/-! ### The loops -/

theorem deref_eq_ok {o : Option α} {a : α} : deref o = .ok a ↔ o = some a := by
  cases o with
  | none => exact iff_of_false (fun h => nomatch h) fun h => nomatch h
  | some b =>
    show Except.ok b = .ok a ↔ _
    rw [Except.ok.injEq, Option.some.injEq]

theorem createVector_eq_ok {l l' : List α} :
    createVector l = .ok l' ↔ l.length < 2 ^ 31 ∧ l' = l := by
  unfold createVector
  split
  · next h => rw [Except.ok.injEq, and_iff_right h, eq_comm]
  · next h => exact iff_of_false (fun h => nomatch h) fun h' => h h'.1

theorem mapM_eq_ok {f : α → Except Failure β} {l : List α} {l' : List β} :
    l.mapM f = .ok l' ↔ List.Forall₂ (fun a b => f a = .ok b) l l' := by
  induction l generalizing l' with
  | nil =>
    rw [mapM_nil, forall₂_nil_left_iff, eq_comm]
    exact ⟨fun h => Except.ok.inj h, fun h => congrArg Except.ok h⟩
  | cons a l ih =>
    rw [mapM_cons, bind_ok_iff, forall₂_cons_left_iff]
    simp only [bind_ok_iff, ih]
    constructor
    · rintro ⟨b, hb, bs, hbs, hl'⟩
      exact ⟨b, bs, hb, hbs, (Except.ok.inj hl').symm⟩
    · rintro ⟨b, bs, hb, hbs, rfl⟩
      exact ⟨b, hb, bs, hbs, rfl⟩

theorem map_of_mapM {f : α → Except Failure β} {g : α → β} {l : List α} {l' : List β}
    (hg : ∀ a b, f a = .ok b → b = g a) (h : l.mapM f = .ok l') : l' = l.map g := by
  have hall := mapM_eq_ok.1 h
  clear h
  induction hall with
  | nil => rfl
  | cons hf _ ih => rw [map_cons, ← ih, hg _ _ hf]

theorem tables_of_mapM {f : Model T → Option (List α)} {models : List (Model T)}
    {tables : List (List α)} (h : (models.mapM fun model => deref (f model)) = .ok tables) :
    tables = models.map fun model => (f model).getD [] :=
  map_of_mapM (fun model table hf => by rw [deref_eq_ok.1 hf, Option.getD_some]) h

theorem operatorCodes_ok {models : List (Model T)} {l : List OperatorCode}
    (h : operatorCodes models = .ok l) :
    l = (codeTables models).flatten ∧ (codeTables models).flatten.length < 2 ^ 31 := by
  obtain ⟨tables, htables, h⟩ := bind_ok_iff.1 h
  obtain ⟨hlen, rfl⟩ := createVector_eq_ok.1 h
  obtain rfl := tables_of_mapM htables
  exact ⟨rfl, hlen⟩

theorem buffers_ok {models : List (Model T)} {l : List Buffer} (h : buffers models = .ok l) :
    l = (bufferTables models).flatten ∧ (bufferTables models).flatten.length < 2 ^ 31 := by
  obtain ⟨tables, htables, h⟩ := bind_ok_iff.1 h
  obtain ⟨hlen, rfl⟩ := createVector_eq_ok.1 h
  obtain rfl := tables_of_mapM htables
  exact ⟨rfl, hlen⟩

/-- Each model has one subgraph, which is adjusted by the sizes of the tables before it. -/
theorem subGraphsFrom_ok {names : List (List UInt8)} {models : List (Model T)} :
    ∀ {b c n : Nat} {graphs : List (SubGraph T)}, subGraphsFrom names models b c n = .ok graphs →
      ∀ (i : Nat) (own : Model T), models[i]? = some own →
        ∃ graph name graph', own.subgraphs = some [graph] ∧ graphs[i]? = some graph' ∧
          adjustSubGraph graph (b + shiftOf (bufferTables models) i)
            (c + shiftOf (codeTables models) i) name = .ok graph' := by
  induction models with
  | nil => exact fun _ _ _ h => nomatch h
  | cons model models ih =>
    intro b c n graphs h i own hown
    rw [subGraphsFrom] at h
    obtain ⟨origs, horigs, h⟩ := bind_ok_iff.1 h
    split at h
    · next orig =>
      obtain ⟨name, -, h⟩ := bind_ok_iff.1 h
      obtain ⟨graph', hgraph, h⟩ := bind_ok_iff.1 h
      obtain ⟨buffers, hbuffers, h⟩ := bind_ok_iff.1 h
      obtain ⟨codes, hcodes, h⟩ := bind_ok_iff.1 h
      obtain ⟨rest, hrest, h⟩ := bind_ok_iff.1 h
      obtain rfl := Except.ok.inj h
      cases i with
      | zero =>
        obtain rfl := Option.some.inj hown
        exact ⟨orig, name, graph', deref_eq_ok.1 horigs, rfl, hgraph⟩
      | succ i =>
        have hb : model.bufferTable = buffers := by
          rw [Model.bufferTable, deref_eq_ok.1 hbuffers, Option.getD_some]
        have hc : model.codes = codes := by
          rw [Model.codes, deref_eq_ok.1 hcodes, Option.getD_some]
        obtain ⟨graph, name, graph', hsub, hget, hadjust⟩ := ih hrest i own hown
        refine ⟨graph, name, graph', hsub, hget, ?_⟩
        rw [bufferTables, codeTables, map_cons, map_cons, shiftOf_succ, shiftOf_succ, hb,
          hc, ← Nat.add_assoc, ← Nat.add_assoc]
        exact hadjust
    · cases h

theorem metadataOf_ok {model : Model T} {entries : List Metadata} :
    ∀ {b : Nat} {r : List Metadata × Nat}, metadataOf model entries b = .ok r → r.1 = entries := by
  induction entries with
  | nil =>
    intro b r h
    obtain rfl := Except.ok.inj h
    rfl
  | cons entry entries ih =>
    intro b r h
    obtain ⟨buffers, -, h⟩ := bind_ok_iff.1 h
    obtain ⟨rest, hrest, h⟩ := bind_ok_iff.1 h
    obtain rfl := Except.ok.inj h
    exact congrArg _ (ih hrest)

theorem metadatasFrom_ok {models : List (Model T)} :
    ∀ {b : Nat} {l : List Metadata}, metadatasFrom models b = .ok l →
      l = models.flatMap Model.entries := by
  induction models with
  | nil =>
    intro b l h
    exact (Except.ok.inj h).symm
  | cons model models ih =>
    intro b l h
    obtain ⟨entries, hentries, h⟩ := bind_ok_iff.1 h
    obtain ⟨rest, hrest, h⟩ := bind_ok_iff.1 h
    obtain rfl := Except.ok.inj h
    rw [flatMap_cons, ← ih hrest, metadataOf_ok hentries]
    rfl

/-! ### One subgraph -/

def shiftTensor (bufferOffset : Nat) (t : Tensor T) : Tensor T where
  shape := t.shape
  type := t.type
  buffer := addUint t.buffer bufferOffset
  name := t.name
  quantization := t.quantization
  isVariable := t.isVariable
  sparsity := t.sparsity
  shapeSignature := if t.shapeSignature = some [] then none else t.shapeSignature

theorem adjustTensor_ok {b : Nat} {t t' : Tensor T} (h : adjustTensor b t = .ok t') :
    t' = shiftTensor b t := by
  obtain ⟨shape, hshape, h⟩ := bind_ok_iff.1 h
  obtain ⟨name, hname, h⟩ := bind_ok_iff.1 h
  obtain rfl := Except.ok.inj h
  rw [shiftTensor, deref_eq_ok.1 hshape, deref_eq_ok.1 hname]

theorem adjustSubGraph_ok {graph graph' : SubGraph T} {b c : Nat} {name : List UInt8}
    (h : adjustSubGraph graph b c name = .ok graph') :
    graph' = { tensors := some ((graph.tensors.getD []).map (shiftTensor b))
               inputs := graph.inputs
               outputs := graph.outputs
               operators := some ((graph.operators.getD []).map (adjustOp c))
               name := some name } := by
  obtain ⟨tensors, htensors, h⟩ := bind_ok_iff.1 h
  obtain ⟨ops, hops, h⟩ := bind_ok_iff.1 h
  obtain rfl := Except.ok.inj h
  obtain ⟨origTensors, horig, htensors⟩ := bind_ok_iff.1 htensors
  obtain ⟨adjusted, hadjusted, htensors⟩ := bind_ok_iff.1 htensors
  obtain ⟨operators, hoperators, hops⟩ := bind_ok_iff.1 hops
  obtain ⟨-, rfl⟩ := createVector_eq_ok.1 htensors
  obtain ⟨-, rfl⟩ := createVector_eq_ok.1 hops
  have hmap := map_of_mapM (fun _ _ => adjustTensor_ok) hadjusted
  rw [deref_eq_ok.1 horig, deref_eq_ok.1 hoperators, Option.getD_some, Option.getD_some, hmap]

section
variable {models : List (Model T)} {own combined : Model T} {i : Nat}

theorem sameOperator_iff (hown : models[i]? = some own)
    (hcodes : combined.codes = (codeTables models).flatten)
    (hsize : (codeTables models).flatten.length < 2 ^ 31) (op : Operator T) :
    SameOperator own combined op (adjustOp (shiftOf (codeTables models) i) op) ↔
      op.Plain ∧ Lands (2 ^ 32) (codeTables models) i own.codes op.opcodeIndex := by
  have htable : (codeTables models)[i]? = some own.codes := by
    rw [codeTables, getElem?_map, hown, Option.map_some]
  have hlands := @lands_iff _ _ _ _ op.opcodeIndex (2 ^ 32) htable (by omega)
  rw [← hlands, ← hcodes]
  obtain ⟨_, _, _, _, _, _, _, _, _, _, _, _, _, _⟩ := op
  constructor
  · rintro ⟨hcode, hfields⟩
    simp only [adjustOp, Operator.mk.injEq] at hfields
    obtain ⟨-, -, -, -, -, -, -, -, -, h₁, h₂, h₃, h₄, h₅⟩ := hfields
    exact ⟨⟨h₁.symm, h₂.symm, h₃.symm, h₄.symm, h₅.symm⟩, hcode⟩
  · rintro ⟨⟨rfl, rfl, rfl, rfl, rfl⟩, hcode⟩
    exact ⟨hcode, rfl⟩

theorem sameTensor_iff (hown : models[i]? = some own)
    (hbuffers : combined.bufferTable = (bufferTables models).flatten)
    (hsize : (bufferTables models).flatten.length < 2 ^ 31) (t : Tensor T) :
    SameTensor own combined t (shiftTensor (shiftOf (bufferTables models) i) t) ↔
      t.Plain ∧ Lands (2 ^ 32) (bufferTables models) i own.bufferTable t.buffer := by
  have htable : (bufferTables models)[i]? = some own.bufferTable := by
    rw [bufferTables, getElem?_map, hown, Option.map_some]
  have hlands := @lands_iff _ _ _ _ t.buffer (2 ^ 32) htable (by omega)
  rw [← hlands, ← hbuffers]
  obtain ⟨_, _, _, _, _, _, _, shapeSignature, _, _, _⟩ := t
  constructor
  · rintro ⟨hbuffer, hfields⟩
    simp only [shiftTensor, Tensor.mk.injEq] at hfields
    obtain ⟨-, -, -, -, -, -, -, h₁, h₂, h₃, h₄⟩ := hfields
    refine ⟨⟨fun hempty => ?_, h₂.symm, h₃.symm, h₄.symm⟩, hbuffer⟩
    replace hempty : shapeSignature = some [] := hempty
    rw [if_pos hempty, hempty] at h₁
    cases h₁
  · rintro ⟨⟨hsignature, rfl, rfl, rfl⟩, hbuffer⟩
    replace hsignature : shapeSignature ≠ some [] := hsignature
    refine ⟨hbuffer, ?_⟩
    simp only [shiftTensor, if_neg hsignature]

theorem sameSubGraph_iff (hown : models[i]? = some own)
    (hcodes : combined.codes = (codeTables models).flatten)
    (hbuffers : combined.bufferTable = (bufferTables models).flatten)
    (hcodesSize : (codeTables models).flatten.length < 2 ^ 31)
    (hbuffersSize : (bufferTables models).flatten.length < 2 ^ 31) {graph graph' : SubGraph T}
    {name : List UInt8}
    (hadjust : adjustSubGraph graph (shiftOf (bufferTables models) i)
      (shiftOf (codeTables models) i) name = .ok graph') :
    SameSubGraph own combined graph graph' ↔ graph.Kept models i own := by
  obtain rfl := adjustSubGraph_ok hadjust
  have htensors : List.Forall₂ (SameTensor own combined) (graph.tensors.getD [])
        ((graph.tensors.getD []).map (shiftTensor (shiftOf (bufferTables models) i))) ↔
      ∀ t ∈ graph.tensors.getD [],
        t.Plain ∧ Lands (2 ^ 32) (bufferTables models) i own.bufferTable t.buffer := by
    rw [forall₂_map_right_iff, forall₂_same]
    exact forall₂_congr fun t _ => sameTensor_iff hown hbuffers hbuffersSize t
  have hoperators : List.Forall₂ (SameOperator own combined) (graph.operators.getD [])
        ((graph.operators.getD []).map (adjustOp (shiftOf (codeTables models) i))) ↔
      ∀ op ∈ graph.operators.getD [],
        op.Plain ∧ Lands (2 ^ 32) (codeTables models) i own.codes op.opcodeIndex := by
    rw [forall₂_map_right_iff, forall₂_same]
    exact forall₂_congr fun op _ => sameOperator_iff hown hcodes hcodesSize op
  constructor
  · intro h
    exact ⟨hoperators.1 h.operators, htensors.1 h.tensors, h.debugMetadataIndex.symm⟩
  · intro h
    exact ⟨htensors.2 h.tensors, hoperators.2 h.operators, rfl, rfl, h.debugMetadataIndex.symm⟩

/-! ### The whole combination -/

theorem sameEntries_iff (hbuffers : combined.bufferTable = (bufferTables models).flatten) :
    List.Forall₂ (SameEntry combined) (allEntries models) (models.flatMap Model.entries) ↔
      ∀ own ∈ models, ∀ entry ∈ own.entries,
        (bufferTables models).flatten[entry.buffer]? = own.bufferTable[entry.buffer]? := by
  have hentries : models.flatMap Model.entries = (allEntries models).map Prod.snd := by
    unfold allEntries
    rw [map_flatMap]
    exact flatMap_congr fun model _ => by rw [map_map]; exact (map_id _).symm
  rw [hentries, forall₂_map_right_iff, forall₂_same]
  constructor
  · intro h own hown entry hentry
    have hmem : (own, entry) ∈ allEntries models :=
      mem_flatMap.2 ⟨own, hown, mem_map.2 ⟨entry, hentry, rfl⟩⟩
    exact hbuffers ▸ (h _ hmem).content
  · intro h p hp
    obtain ⟨own, hown, hp⟩ := mem_flatMap.1 hp
    obtain ⟨entry, hentry, rfl⟩ := mem_map.1 hp
    exact ⟨rfl, hbuffers ▸ h own hown entry hentry⟩

end

/-- A combination is faithful just if nothing in the models is lost and the metadata entries find
their buffers without a shift. -/
theorem combineModels_faithful_iff {models : List (Model T)} {names : List (List UInt8)}
    {combined : Model T} (h : combineModels models names = .ok combined) :
    Faithful models combined ↔ Kept models := by
  unfold combineModels at h
  split at h
  · cases h
  obtain ⟨codes, hcodes, h⟩ := bind_ok_iff.1 h
  obtain ⟨graphs, hgraphs, h⟩ := bind_ok_iff.1 h
  obtain ⟨buffers, hbuffers, h⟩ := bind_ok_iff.1 h
  obtain ⟨entries, hentries, h⟩ := bind_ok_iff.1 h
  obtain ⟨first, -, h⟩ := bind_ok_iff.1 h
  obtain ⟨signatureDefs, -, h⟩ := bind_ok_iff.1 h
  obtain ⟨description, -, h⟩ := bind_ok_iff.1 h
  obtain rfl := Except.ok.inj h
  obtain ⟨rfl, hcodesSize⟩ := operatorCodes_ok hcodes
  obtain ⟨rfl, hbuffersSize⟩ := buffers_ok hbuffers
  obtain ⟨graphs', hfrom, hgraphs⟩ := bind_ok_iff.1 hgraphs
  obtain ⟨-, rfl⟩ := createVector_eq_ok.1 hgraphs
  obtain ⟨entries', hfromEntries, hentries⟩ := bind_ok_iff.1 hentries
  obtain ⟨-, rfl⟩ := createVector_eq_ok.1 hentries
  obtain rfl := metadatasFrom_ok hfromEntries
  have hadjusted := subGraphsFrom_ok hfrom
  simp only [Nat.zero_add] at hadjusted
  constructor
  · intro hfaithful
    refine ⟨fun i own hown graph hgraph => ?_, (sameEntries_iff rfl).1 hfaithful.metadata⟩
    obtain ⟨orig, name, graph', horig, hget, hadjust⟩ := hadjusted i own hown
    obtain ⟨graph₂, graph₂', hgraph₂, hget₂, hsame⟩ := hfaithful.subgraphs i own hown
    rw [hgraph, Option.some.injEq, List.cons.injEq] at hgraph₂
    rw [hgraph, Option.some.injEq, List.cons.injEq] at horig
    obtain rfl := hgraph₂.1
    obtain rfl := horig.1
    obtain rfl : graph' = graph₂' := Option.some.inj (hget.symm.trans hget₂)
    exact (sameSubGraph_iff hown rfl rfl hcodesSize hbuffersSize hadjust).1 hsame
  · intro hkept
    refine ⟨fun i own hown => ?_, (sameEntries_iff rfl).2 hkept.metadata⟩
    obtain ⟨graph, name, graph', hgraph, hget, hadjust⟩ := hadjusted i own hown
    exact ⟨graph, graph', hgraph, hget,
      (sameSubGraph_iff hown rfl rfl hcodesSize hbuffersSize hadjust).2
        (hkept.subgraphs i own hown graph hgraph)⟩

/-! ### Two models -/

/-- A model with one buffer of its own, to which its metadata refers. -/
def withMetadata (content : List UInt8) : Model Unit where
  operatorCodes := some []
  subgraphs := some [{ tensors := some [], operators := some [] }]
  description := some []
  buffers := some [{}, { data := some content }]
  metadata := some [{ name := some [109], buffer := 1 }]

/-- The entry of the second model finds the buffer of the first. -/
theorem metadata_not_shifted : ∃ combined,
    combineModels [withMetadata [1], withMetadata [2]] [[97], [98]] = .ok combined ∧
      ¬Faithful [withMetadata [1], withMetadata [2]] combined := by
  refine ⟨_, rfl, fun h => ?_⟩
  have hrest := (forall₂_cons.1 h.metadata).2
  have hcontent := (forall₂_cons.1 hrest).1.content
  have hbuffer : some { data := some [1] } = (some { data := some [2] } : Option Buffer) :=
    hcontent
  exact absurd hbuffer (by decide)

/-- Models with the same buffers are combined faithfully. -/
theorem same_buffers_faithful : ∃ combined,
    combineModels [withMetadata [1], withMetadata [1]] [[97], [98]] = .ok combined ∧
      Faithful [withMetadata [1], withMetadata [1]] combined := by
  have hrun : combineModels [withMetadata [1], withMetadata [1]] [[97], [98]] = .ok _ := rfl
  refine ⟨_, hrun, (combineModels_faithful_iff hrun).2 ⟨fun i own hown graph hgraph => ?_, ?_⟩⟩
  · have hmem := mem_of_getElem? hown
    obtain rfl : own = withMetadata [1] := by
      obtain h | hmem := mem_cons.1 hmem
      · exact h
      · exact mem_singleton.1 hmem
    obtain ⟨rfl, -⟩ := List.cons.inj (Option.some.inj hgraph)
    exact ⟨fun op hop => absurd hop not_mem_nil, fun t ht => absurd ht not_mem_nil, rfl⟩
  · decide

end LiteRt.Grafter
