import LiteRt.Lib.Groups
import LiteRt.MagicNumbers.Update

/-!
# What an update visits

Which places are visited, and in which order, does not depend on the numbers. The walk through
the composites lists the visits; an update performs them one after the other.
-/

namespace LiteRt.MagicNumbers

open LiteRt.Lib List

section

inductive Visit
  /-- The dimensions of the tensors of a subgraph. -/
  | tensors (s : Nat)
  /-- The elements of `w` bytes of a region. -/
  | param (r : Region) (w : Nat)
  /-- The attributes of an op of a subgraph. -/
  | attributes (s i : Nat)
  deriving DecidableEq, Repr

/-- The elements of the types that are replaced have this many bytes. -/
def TensorType.width : TensorType → Option Nat
  | .int32 => some 4
  | .int64 => some 8
  | .other => none

/-- The lists of all elements, one behind the other. -/
def gather {α β : Type} (f : α → Except Failure (List β)) : List α → Except Failure (List β)
  | [] => .ok []
  | a :: l =>
    match f a with
    | .error e => .error e
    | .ok la =>
      match gather f l with
      | .error e => .error e
      | .ok ll => .ok (la ++ ll)

variable (m : Model)

def paramVisits (s : Nat) (tensor : Tensor) : Except Failure (List Visit) :=
  match m.fbModel.subgraphs[s]? with
  | none => .error .undefined
  | some tflSubgraph =>
    match tflSubgraph.tensors[tensor.tensorIndex]? with
    | none => .error .undefined
    | some paramTensor =>
      match m.fbModel.buffers[paramTensor.buffer]? with
      | none => .error .undefined
      | some buffer =>
        match regionOf m.fbModel paramTensor.buffer buffer, paramTensor.type.width with
        | some r, some w => .ok [.param r w]
        | _, _ => .ok []

def opVisits (decomposition : Nat → Except Failure (List Visit)) (s : Nat) (subgraph : Subgraph)
    (i : Nat) (op : Op) : Except Failure (List Visit) :=
  if op.opCode = .shloComposite then
    match getDecompositionSubgraphIndex m op with
    | .error e => .error e
    | .ok d =>
      match decomposition d with
      | .error e => .error e
      | .ok l => .ok (l ++ if isOpRequiredToUpdateCompositeAttributes op then
          [.attributes s i] else [])
  else
    match getInputIndexOfMagicNumber op.opCode with
    | none => .ok []
    | some magicParamIndex =>
      match op.inputs[magicParamIndex]? with
      | none => .error .status
      | some t =>
        match subgraph.tensors[t]? with
        | none => .error .undefined
        | some tensor => paramVisits m s tensor

def subgraphVisits : Nat → Nat → Except Failure (List Visit)
  | 0, _ => .error .depth
  | depth + 1, s =>
    match m.subgraphs[s]? with
    | none => .error .undefined
    | some subgraph =>
      match gather (fun p => opVisits m (subgraphVisits depth) s subgraph p.2 p.1)
          subgraph.ops.zipIdx with
      | .error e => .error e
      | .ok l => .ok (.tensors s :: l)

def visits (depth : Nat) (config : Config) : Except Failure (List Visit) :=
  gather (fun signature =>
    match m.fbModel.subgraphs[signature.subgraph]? with
    | none => .error .undefined
    | some _ =>
      if config.selects signature then
        subgraphVisits m depth signature.subgraph
      else
        .ok []) m.signatures

/-- One visit of an update. -/
def perform (mutateInts : Int → Int → List UInt8 → Nat × List UInt8) (config : Config) :
    Visit → Update Nat
  | .tensors s =>
    match m.subgraphs[s]? with
    | none => throw .undefined
    | some subgraph =>
      tally (fun p => updateMagicNumberInDimensions m config s p.2 p.1) subgraph.tensors.zipIdx
  | .param r w => updateMagicNumber w config r
  | .attributes s i => updateMagicNumberInCompositeAttributes mutateInts m config s i

section
variable {α β : Type} {f : α → Except Failure (List β)} {l : List α} {lb : List β}

theorem gather_cons {a : α} (h : gather f (a :: l) = .ok lb) :
    ∃ la ll, f a = .ok la ∧ gather f l = .ok ll ∧ lb = la ++ ll := by
  rw [gather] at h
  cases ha : f a with
  | error e =>
    rw [ha] at h
    cases h
  | ok la =>
    cases hl : gather f l with
    | error e =>
      rw [ha, hl] at h
      cases h
    | ok ll =>
      rw [ha, hl] at h
      exact ⟨la, ll, rfl, rfl, (Except.ok.inj h).symm⟩

theorem gather_ok (h : ∀ a ∈ l, ∃ la, f a = .ok la) : ∃ lb, gather f l = .ok lb := by
  induction l with
  | nil => exact ⟨[], rfl⟩
  | cons a l ih =>
    obtain ⟨la, ha⟩ := h a (mem_cons_self ..)
    obtain ⟨ll, hl⟩ := ih fun b hb => h b (mem_cons_of_mem a hb)
    exact ⟨la ++ ll, by rw [gather, ha, hl]⟩

theorem mem_gather (h : gather f l = .ok lb) (x : β) :
    x ∈ lb ↔ ∃ a ∈ l, ∃ la, f a = .ok la ∧ x ∈ la := by
  induction l generalizing lb with
  | nil =>
    cases h
    simp
  | cons a l ih =>
    obtain ⟨la, ll, ha, hl, rfl⟩ := gather_cons h
    rw [mem_append, ih hl]
    simp only [mem_cons, exists_eq_or_imp, ha, Except.ok.injEq, exists_eq_left']

theorem ok_of_gather (h : gather f l = .ok lb) : ∀ a ∈ l, ∃ la, f a = .ok la := by
  induction l generalizing lb with
  | nil => exact fun _ ha => absurd ha not_mem_nil
  | cons a l ih =>
    obtain ⟨la, ll, ha, hl, rfl⟩ := gather_cons h
    intro b hb
    rcases mem_cons.1 hb with rfl | hb
    · exact ⟨la, ha⟩
    · exact ih hl b hb

/-- Sums that are taken over the lists of all elements. -/
theorem tally_gather {g : α → Update Nat} {p : β → Update Nat} (h : gather f l = .ok lb)
    (hg : ∀ a ∈ l, ∀ la, f a = .ok la → g a = tally p la) : tally g l = tally p lb := by
  induction l generalizing lb with
  | nil =>
    cases h
    rfl
  | cons a l ih =>
    obtain ⟨la, ll, ha, hl, rfl⟩ := gather_cons h
    rw [tally_append, tally, hg a (mem_cons_self ..) la ha,
      ih hl fun b hb => hg b (mem_cons_of_mem a hb)]

end

section
variable {m} {mutateInts : Int → Int → List UInt8 → Nat × List UInt8} {config : Config}
  {l : List Visit}

theorem tally_singleton {α : Type} (f : α → Update Nat) (a : α) : tally f [a] = f a := by
  simp only [tally, pure_bind, Nat.add_zero, bind_pure]

theorem updateMagicNumberInParam_eq {s : Nat} {tensor : Tensor}
    (h : paramVisits m s tensor = .ok l) :
    updateMagicNumberInParam m config s tensor = tally (perform m mutateInts config) l := by
  unfold paramVisits at h
  unfold updateMagicNumberInParam
  cases hsub : m.fbModel.subgraphs[s]? with
  | none => rw [hsub] at h; cases h
  | some tflSubgraph =>
    simp only [hsub] at h ⊢
    cases htensor : tflSubgraph.tensors[tensor.tensorIndex]? with
    | none => rw [htensor] at h; cases h
    | some paramTensor =>
      simp only [htensor] at h ⊢
      cases hbuffer : m.fbModel.buffers[paramTensor.buffer]? with
      | none => rw [hbuffer] at h; cases h
      | some buffer =>
        simp only [hbuffer] at h ⊢
        cases hregion : regionOf m.fbModel paramTensor.buffer buffer with
        | none =>
          rw [hregion] at h
          cases h
          rfl
        | some r =>
          cases htype : paramTensor.type <;> rw [hregion, htype] at h <;> cases h
          · exact (tally_singleton _ _).symm
          · exact (tally_singleton _ _).symm
          · rfl

theorem updateOp_eq {decomposition : Nat → Update Nat}
    {decompositionVisits : Nat → Except Failure (List Visit)} {s i : Nat} {subgraph : Subgraph}
    {op : Op} (h : opVisits m decompositionVisits s subgraph i op = .ok l)
    (hd : ∀ d ld, decompositionVisits d = .ok ld → decomposition d =
      tally (perform m mutateInts config) ld) :
    updateOp mutateInts m config decomposition s subgraph i op =
      tally (perform m mutateInts config) l := by
  unfold opVisits at h
  unfold updateOp
  by_cases hcode : op.opCode = .shloComposite
  · rw [if_pos hcode] at h ⊢
    cases hindex : getDecompositionSubgraphIndex m op with
    | error e => rw [hindex] at h; cases h
    | ok d =>
      simp only [hindex] at h ⊢
      cases hl : decompositionVisits d with
      | error e => rw [hl] at h; cases h
      | ok ld =>
        rw [hl] at h
        cases h
        rw [hd d ld hl, tally_append]
        cases isOpRequiredToUpdateCompositeAttributes op with
        | false => simp only [Bool.false_eq_true, if_false, tally, pure_bind, Nat.add_zero, bind_pure]
        | true =>
          simp only [if_true, tally_singleton]
          rfl
  · rw [if_neg hcode] at h ⊢
    cases hinput : getInputIndexOfMagicNumber op.opCode with
    | none => rw [hinput] at h; cases h; rfl
    | some magicParamIndex =>
      simp only [hinput] at h ⊢
      cases hplace : op.inputs[magicParamIndex]? with
      | none => rw [hplace] at h; cases h
      | some t =>
        simp only [hplace] at h ⊢
        cases htensor : subgraph.tensors[t]? with
        | none => rw [htensor] at h; cases h
        | some tensor =>
          simp only [htensor] at h ⊢
          exact updateMagicNumberInParam_eq h

theorem subgraphVisits_ok {depth s : Nat} (h : subgraphVisits m (depth + 1) s = .ok l) :
    ∃ (subgraph : Subgraph) (lops : List Visit), m.subgraphs[s]? = some subgraph ∧
      gather (fun p => opVisits m (subgraphVisits m depth) s subgraph p.2 p.1)
        subgraph.ops.zipIdx = .ok lops ∧ l = .tensors s :: lops := by
  unfold subgraphVisits at h
  cases hsub : m.subgraphs[s]? with
  | none => rw [hsub] at h; cases h
  | some subgraph =>
    simp only [hsub] at h
    cases hops : gather (fun p => opVisits m (subgraphVisits m depth) s subgraph p.2 p.1)
        subgraph.ops.zipIdx with
    | error e => rw [hops] at h; cases h
    | ok lops =>
      rw [hops] at h
      cases h
      exact ⟨subgraph, lops, rfl, hops, rfl⟩

theorem replaceMagicNumberInSubgraph_eq {depth s : Nat} (h : subgraphVisits m depth s = .ok l) :
    replaceMagicNumberInSubgraph mutateInts m config depth s =
      tally (perform m mutateInts config) l := by
  induction depth generalizing s l with
  | zero => cases h
  | succ depth ih =>
    obtain ⟨subgraph, lops, hsub, hops, rfl⟩ := subgraphVisits_ok h
    unfold replaceMagicNumberInSubgraph
    simp only [hsub]
    have hl : tally (fun p => updateOp mutateInts m config
        (replaceMagicNumberInSubgraph mutateInts m config depth) s subgraph p.2 p.1)
        subgraph.ops.zipIdx = tally (perform m mutateInts config) lops :=
      tally_gather hops fun p _ la hp => updateOp_eq hp fun d ld hd => ih hd
    have htensors : perform m mutateInts config (.tensors s) =
        tally (fun p => updateMagicNumberInDimensions m config s p.2 p.1)
          subgraph.tensors.zipIdx := by
      simp only [perform, hsub]
    rw [hl, tally, htensors]

/-- With one configuration, an update performs the visits of the signatures it selects. -/
theorem updateMagicNumbersInModel_eq {depth : Nat} (h : visits m depth config = .ok l) :
    updateMagicNumbersInModel mutateInts m depth [config] =
      tally (perform m mutateInts config) l := by
  refine tally_gather h fun signature _ la hsig => ?_
  cases hsub : m.fbModel.subgraphs[signature.subgraph]? with
  | none => simp only [hsub] at hsig; cases hsig
  | some tflSubgraph =>
    simp only [hsub] at hsig ⊢
    rw [tally_singleton]
    by_cases hsel : config.selects signature
    · rw [if_pos hsel] at hsig ⊢
      exact replaceMagicNumberInSubgraph_eq hsig
    · rw [if_neg hsel] at hsig ⊢
      cases hsig
      rfl

end

end

/-!
## What can be reached

A subgraph is reached from a signature through composites. The visits of an update are those
of the reached subgraphs, and they are finitely many if no composite stands for itself.
-/

open Relation

/-- An op of subgraph `s` stands for subgraph `d`. -/
def Decomposes (m : Model) (s d : Nat) : Prop :=
  ∃ subgraph op, m.subgraphs[s]? = some subgraph ∧ op ∈ subgraph.ops ∧
    op.opCode = .shloComposite ∧ getDecompositionSubgraphIndex m op = .ok d

/-- The subgraph is reached from a signature that the configuration selects. -/
def Reachable (m : Model) (config : Config) (s : Nat) : Prop :=
  ∃ signature ∈ m.signatures, config.selects signature ∧
    ReflTransGen (Decomposes m) signature.subgraph s

/-- The data of a tensor: its region and the bytes of an element. -/
inductive TensorData (m : Model) (s : Nat) (tensor : Tensor) (r : Region) (w : Nat) : Prop
  | intro (tflSubgraph : TflSubgraph) (paramTensor : TflTensor) (buffer : Buffer)
    (foundSubgraph : m.fbModel.subgraphs[s]? = some tflSubgraph)
    (foundTensor : tflSubgraph.tensors[tensor.tensorIndex]? = some paramTensor)
    (foundBuffer : m.fbModel.buffers[paramTensor.buffer]? = some buffer)
    (region : regionOf m.fbModel paramTensor.buffer buffer = some r)
    (width : paramTensor.type.width = some w)

def ParamTensor (m : Model) (s : Nat) (tensor : Tensor) : Prop :=
  ∃ (subgraph : Subgraph) (op : Op) (magicParamIndex t : Nat),
    m.subgraphs[s]? = some subgraph ∧ op ∈ subgraph.ops ∧
      getInputIndexOfMagicNumber op.opCode = some magicParamIndex ∧
      op.inputs[magicParamIndex]? = some t ∧ subgraph.tensors[t]? = some tensor

def ShapeParam (m : Model) (s : Nat) (r : Region) (w : Nat) : Prop :=
  ∃ tensor, ParamTensor m s tensor ∧ TensorData m s tensor r w

/-- Places that hold dimensions or parameters. -/
def Own (m : Model) (s : Nat) : Visit → Prop
  | .tensors s' => s' = s
  | .param r w => ShapeParam m s r w
  | .attributes _ _ => False

def Visit.IsNumbers : Visit → Prop
  | .tensors _ => True
  | .param _ _ => True
  | .attributes _ _ => False

section
variable {m : Model} {config : Config} {l : List Visit} {x : Visit}
  {decomposition : Nat → Except Failure (List Visit)} {s i : Nat} {subgraph : Subgraph} {op : Op}

theorem mem_paramVisits {s : Nat} {tensor : Tensor} (h : paramVisits m s tensor = .ok l)
    (x : Visit) :
    x ∈ l ↔ ∃ r w, x = .param r w ∧ TensorData m s tensor r w := by
  unfold paramVisits at h
  cases hsub : m.fbModel.subgraphs[s]? with
  | none => rw [hsub] at h; cases h
  | some tflSubgraph =>
    simp only [hsub] at h
    cases htensor : tflSubgraph.tensors[tensor.tensorIndex]? with
    | none => rw [htensor] at h; cases h
    | some paramTensor =>
      simp only [htensor] at h
      cases hbuffer : m.fbModel.buffers[paramTensor.buffer]? with
      | none => rw [hbuffer] at h; cases h
      | some buffer =>
        simp only [hbuffer] at h
        have hdata {r : Region} {w : Nat} (hd : TensorData m s tensor r w) :
            regionOf m.fbModel paramTensor.buffer buffer = some r ∧
              paramTensor.type.width = some w := by
          obtain ⟨tflSubgraph', paramTensor', buffer', h1, h2, h3, h4, h5⟩ := hd
          rw [hsub] at h1
          cases h1
          rw [htensor] at h2
          cases h2
          rw [hbuffer] at h3
          cases h3
          exact ⟨h4, h5⟩
        cases hregion : regionOf m.fbModel paramTensor.buffer buffer with
        | none =>
          rw [hregion] at h
          cases h
          refine ⟨fun hx => absurd hx not_mem_nil, ?_⟩
          rintro ⟨r, w, -, hd⟩
          have := (hdata hd).1
          rw [hregion] at this
          cases this
        | some r =>
          cases hwidth : paramTensor.type.width with
          | none =>
            rw [hregion, hwidth] at h
            cases h
            refine ⟨fun hx => absurd hx not_mem_nil, ?_⟩
            rintro ⟨r', w, -, hd⟩
            have := (hdata hd).2
            rw [hwidth] at this
            cases this
          | some w =>
            rw [hregion, hwidth] at h
            cases h
            rw [mem_singleton]
            constructor
            · rintro rfl
              exact ⟨r, w, rfl, tflSubgraph, paramTensor, buffer, hsub, htensor, hbuffer,
                hregion, hwidth⟩
            · rintro ⟨r', w', rfl, hd⟩
              obtain ⟨h4, h5⟩ := hdata hd
              rw [hregion] at h4
              rw [hwidth] at h5
              cases h4
              cases h5
              rfl

theorem mem_opVisits (hx : x.IsNumbers) (h : opVisits m decomposition s subgraph i op = .ok l) :
    x ∈ l ↔ (∃ d ld, op.opCode = .shloComposite ∧ getDecompositionSubgraphIndex m op = .ok d ∧
        decomposition d = .ok ld ∧ x ∈ ld) ∨
      ∃ magicParamIndex t tensor r w, getInputIndexOfMagicNumber op.opCode = some magicParamIndex ∧
        op.inputs[magicParamIndex]? = some t ∧ subgraph.tensors[t]? = some tensor ∧
        x = .param r w ∧ TensorData m s tensor r w := by
  unfold opVisits at h
  by_cases hcode : op.opCode = .shloComposite
  · have hinput : getInputIndexOfMagicNumber op.opCode = none := by rw [hcode]; rfl
    rw [if_pos hcode] at h
    cases hindex : getDecompositionSubgraphIndex m op with
    | error e => rw [hindex] at h; cases h
    | ok d =>
      simp only [hindex] at h
      cases hl : decomposition d with
      | error e => rw [hl] at h; cases h
      | ok ld =>
        rw [hl] at h
        cases h
        have hnot : x ∉ (if isOpRequiredToUpdateCompositeAttributes op then
            [Visit.attributes s i] else []) := by
          intro hmem
          split at hmem
          · rw [mem_singleton.1 hmem] at hx
            exact hx
          · exact not_mem_nil hmem
        rw [mem_append, or_iff_left hnot]
        constructor
        · exact fun hmem => .inl ⟨d, ld, hcode, rfl, hl, hmem⟩
        · rintro (⟨d', ld', -, hd', hl', hmem⟩ | ⟨j, t, tensor, r, w, hj, -⟩)
          · cases hd'
            rw [hl] at hl'
            cases hl'
            exact hmem
          · rw [hinput] at hj
            cases hj
  · have hleft : ¬ ∃ d ld, op.opCode = .shloComposite ∧
        getDecompositionSubgraphIndex m op = .ok d ∧ decomposition d = .ok ld ∧ x ∈ ld := by
      rintro ⟨d, ld, hc, -⟩
      exact hcode hc
    rw [if_neg hcode] at h
    rw [or_iff_right hleft]
    cases hinput : getInputIndexOfMagicNumber op.opCode with
    | none =>
      rw [hinput] at h
      cases h
      simp
    | some magicParamIndex =>
      simp only [hinput] at h
      cases hplace : op.inputs[magicParamIndex]? with
      | none => rw [hplace] at h; cases h
      | some t =>
        simp only [hplace] at h
        cases htensor : subgraph.tensors[t]? with
        | none => rw [htensor] at h; cases h
        | some tensor =>
          simp only [htensor] at h
          rw [mem_paramVisits h]
          constructor
          · rintro ⟨r, w, hxp, hd⟩
            exact ⟨magicParamIndex, t, tensor, r, w, rfl, hplace, htensor, hxp, hd⟩
          · rintro ⟨j, t', tensor', r, w, hj, ht', htensor', hxp, hd⟩
            cases hj
            rw [hplace] at ht'
            cases ht'
            rw [htensor] at htensor'
            cases htensor'
            exact ⟨r, w, hxp, hd⟩

theorem mem_subgraphVisits {depth s : Nat} (hx : x.IsNumbers)
    (h : subgraphVisits m depth s = .ok l) :
    x ∈ l ↔ ∃ s', ReflTransGen (Decomposes m) s s' ∧ Own m s' x := by
  induction depth generalizing s l with
  | zero => cases h
  | succ depth ih =>
    obtain ⟨subgraph, lops, hsub, hops, rfl⟩ := subgraphVisits_ok h
    have hop (op : Op) (hop : op ∈ subgraph.ops) :
        ∃ i lop, (op, i) ∈ subgraph.ops.zipIdx ∧
          opVisits m (subgraphVisits m depth) s subgraph i op = .ok lop := by
      obtain ⟨i, hi⟩ := getElem?_of_mem hop
      have hmem := (@mem_zipIdx_iff_getElem? _ (op, i) _).2 hi
      obtain ⟨lop, hlop⟩ := ok_of_gather hops (op, i) hmem
      exact ⟨i, lop, hmem, hlop⟩
    rw [mem_cons, mem_gather hops]
    constructor
    · rintro (rfl | ⟨p, hp, lop, hlop, hmem⟩)
      · exact ⟨s, .refl, rfl⟩
      · have hpop : p.1 ∈ subgraph.ops := fst_mem_of_mem_zipIdx hp
        rcases (mem_opVisits hx hlop).1 hmem with ⟨d, ld, hcode, hd, hld, hmem'⟩ |
          ⟨j, t, tensor, r, w, hj, ht, htensor, rfl, hdata⟩
        · obtain ⟨s', hs', hown⟩ := (ih hld).1 hmem'
          exact ⟨s', .head ⟨subgraph, p.1, hsub, hpop, hcode, hd⟩ hs', hown⟩
        · exact ⟨s, .refl, tensor, ⟨subgraph, p.1, j, t, hsub, hpop, hj, ht, htensor⟩, hdata⟩
    · rintro ⟨s', hs', hown⟩
      rcases ReflTransGen.cases_head hs' with rfl | ⟨d, hd, hs'⟩
      · cases x with
        | tensors s' => exact .inl (congrArg Visit.tensors hown)
        | attributes s' i => exact hx.elim
        | param r w =>
          obtain ⟨tensor, ⟨subgraph', op, j, t, hsub', hopm, hj, ht, htensor⟩, hdata⟩ := hown
          rw [hsub] at hsub'
          cases hsub'
          obtain ⟨i, lop, hmem, hlop⟩ := hop op hopm
          exact .inr ⟨(op, i), hmem, lop, hlop, (mem_opVisits hx hlop).2
            (.inr ⟨j, t, tensor, r, w, hj, ht, htensor, rfl, hdata⟩)⟩
      · obtain ⟨subgraph', op, hsub', hopm, hcode, hindex⟩ := hd
        rw [hsub] at hsub'
        cases hsub'
        obtain ⟨i, lop, hmem, hlop⟩ := hop op hopm
        have hlop' := hlop
        unfold opVisits at hlop'
        rw [if_pos hcode, hindex] at hlop'
        cases hld : subgraphVisits m depth d with
        | error e => simp only [hld] at hlop'; cases hlop'
        | ok ld =>
          exact .inr ⟨(op, i), hmem, lop, hlop, (mem_opVisits hx hlop).2
            (.inl ⟨d, ld, hcode, hindex, hld, (ih hld).2 ⟨s', hs', hown⟩⟩)⟩

/-- Attributes are visited at ops that exist. -/
theorem op_of_mem_opVisits {s' i' : Nat} (h : opVisits m decomposition s subgraph i op = .ok l)
    (hmem : .attributes s' i' ∈ l) :
    (s' = s ∧ i' = i) ∨ ∃ d ld, decomposition d = .ok ld ∧ .attributes s' i' ∈ ld := by
  unfold opVisits at h
  split at h
  · split at h
    · cases h
    · next d _ =>
      split at h
      · cases h
      · next ld hld =>
        cases h
        rcases mem_append.1 hmem with hmem | hmem
        · exact .inr ⟨d, ld, hld, hmem⟩
        · split at hmem
          · obtain ⟨hs, hi⟩ := Visit.attributes.inj (mem_singleton.1 hmem)
            exact .inl ⟨hs, hi⟩
          · exact absurd hmem not_mem_nil
  · split at h
    · cases h
      exact absurd hmem not_mem_nil
    · split at h
      · cases h
      · split at h
        · cases h
        · obtain ⟨r, w, hx, -⟩ := (mem_paramVisits h _).1 hmem
          cases hx

theorem op_of_mem_subgraphVisits {depth s s' i : Nat} (h : subgraphVisits m depth s = .ok l)
    (hmem : .attributes s' i ∈ l) :
    ∃ subgraph : Subgraph, m.subgraphs[s']? = some subgraph ∧ i < subgraph.ops.length := by
  induction depth generalizing s l with
  | zero => cases h
  | succ depth ih =>
    obtain ⟨subgraph, lops, hsub, hops, rfl⟩ := subgraphVisits_ok h
    rcases mem_cons.1 hmem with hmem | hmem
    · cases hmem
    · obtain ⟨p, hp, lop, hlop, hmem⟩ := (mem_gather hops _).1 hmem
      rcases op_of_mem_opVisits hlop hmem with ⟨rfl, rfl⟩ | ⟨d, ld, hld, hmem⟩
      · exact ⟨subgraph, hsub, (List.getElem?_eq_some_iff.1 (mem_zipIdx_iff_getElem?.1 hp)).1⟩
      · exact ih hld hmem

theorem op_of_mem_visits {depth s i : Nat} (h : visits m depth config = .ok l)
    (hmem : .attributes s i ∈ l) :
    ∃ subgraph : Subgraph, m.subgraphs[s]? = some subgraph ∧ i < subgraph.ops.length := by
  unfold visits at h
  obtain ⟨signature, -, la, hla, hmem⟩ := (mem_gather h _).1 hmem
  cases hsub : m.fbModel.subgraphs[signature.subgraph]? with
  | none => rw [hsub] at hla; cases hla
  | some tflSubgraph =>
    simp only [hsub] at hla
    split at hla
    · exact op_of_mem_subgraphVisits hla hmem
    · cases hla
      exact absurd hmem not_mem_nil

/-- The visits of an update are those of the reachable subgraphs. -/
theorem mem_visits {depth : Nat} (hx : x.IsNumbers) (h : visits m depth config = .ok l) :
    x ∈ l ↔ ∃ s, Reachable m config s ∧ Own m s x := by
  unfold visits at h
  rw [mem_gather h]
  constructor
  · rintro ⟨signature, hsig, la, hla, hmem⟩
    cases hsub : m.fbModel.subgraphs[signature.subgraph]? with
    | none => rw [hsub] at hla; cases hla
    | some tflSubgraph =>
      simp only [hsub] at hla
      by_cases hsel : config.selects signature
      · rw [if_pos hsel] at hla
        obtain ⟨s, hs, hown⟩ := (mem_subgraphVisits hx hla).1 hmem
        exact ⟨s, ⟨signature, hsig, hsel, hs⟩, hown⟩
      · rw [if_neg hsel] at hla
        cases hla
        exact absurd hmem not_mem_nil
  · rintro ⟨s, ⟨signature, hsig, hsel, hs⟩, hown⟩
    obtain ⟨la, hla⟩ := ok_of_gather h signature hsig
    refine ⟨signature, hsig, la, hla, ?_⟩
    cases hsub : m.fbModel.subgraphs[signature.subgraph]? with
    | none => rw [hsub] at hla; cases hla
    | some tflSubgraph =>
      simp only [hsub] at hla
      rw [if_pos hsel] at hla
      exact (mem_subgraphVisits hx hla).2 ⟨s, hs, hown⟩

end

/-- What a model looks like after it was loaded from a flatbuffer. -/
structure Loaded (m : Model) : Prop where
  tensors : ∀ (s : Nat) (subgraph : Subgraph), m.subgraphs[s]? = some subgraph →
    ∃ tflSubgraph : TflSubgraph, m.fbModel.subgraphs[s]? = some tflSubgraph ∧
      tflSubgraph.tensors.length = subgraph.tensors.length ∧
      tflSubgraph.numOperators = subgraph.ops.length
  tensorIndex : ∀ (s : Nat) (subgraph : Subgraph), m.subgraphs[s]? = some subgraph →
    ∀ (t : Nat) (tensor : Tensor), subgraph.tensors[t]? = some tensor → tensor.tensorIndex = t
  inputs : ∀ subgraph ∈ m.subgraphs, ∀ op ∈ subgraph.ops, ∀ t ∈ op.inputs,
    t < subgraph.tensors.length
  buffers : ∀ tflSubgraph ∈ m.fbModel.subgraphs, ∀ tensor ∈ tflSubgraph.tensors,
    tensor.buffer < m.fbModel.buffers.length
  signatures : ∀ signature ∈ m.signatures, signature.subgraph < m.subgraphs.length

/-- The walk comes to an end: the ops that are reached have what it looks for. -/
structure Walkable (m : Model) (config : Config) : Prop where
  operand : ∀ (s : Nat) (subgraph : Subgraph), Reachable m config s →
    m.subgraphs[s]? = some subgraph → ∀ op ∈ subgraph.ops, ∀ magicParamIndex,
      getInputIndexOfMagicNumber op.opCode = some magicParamIndex →
      magicParamIndex < op.inputs.length
  decomposition : ∀ (s : Nat) (subgraph : Subgraph), Reachable m config s →
    m.subgraphs[s]? = some subgraph → ∀ op ∈ subgraph.ops, op.opCode = .shloComposite →
      ∃ d, getDecompositionSubgraphIndex m op = .ok d
  acyclic : ∀ s, Reachable m config s → ¬ TransGen (Decomposes m) s s

section
variable {m : Model} {config : Config} {op : Op} {s : Nat} {subgraph : Subgraph}

theorem Reachable.decomposes {s d : Nat} (h : Reachable m config s) (hd : Decomposes m s d) :
    Reachable m config d := by
  obtain ⟨signature, hsig, hsel, hs⟩ := h
  exact ⟨signature, hsig, hsel, hs.tail hd⟩

theorem lt_of_getDecompositionSubgraphIndex {d : Nat}
    (h : getDecompositionSubgraphIndex m op = .ok d) : d < m.subgraphs.length := by
  unfold getDecompositionSubgraphIndex at h
  split at h
  · cases h
  · split at h
    · next hin =>
      cases h
      omega
    · cases h

theorem exists_depth {α : Type} {P : α → Nat → Prop} (l : List α)
    (h : ∀ a ∈ l, ∃ depth₀, ∀ depth ≥ depth₀, P a depth) :
    ∃ depth₀, ∀ a ∈ l, ∀ depth ≥ depth₀, P a depth := by
  induction l with
  | nil => exact ⟨0, fun _ ha => absurd ha not_mem_nil⟩
  | cons a l ih =>
    obtain ⟨depth₁, h₁⟩ := h a (mem_cons_self ..)
    obtain ⟨depth₂, h₂⟩ := ih fun b hb => h b (mem_cons_of_mem a hb)
    refine ⟨max depth₁ depth₂, fun b hb depth hdepth => ?_⟩
    rcases mem_cons.1 hb with rfl | hb
    · exact h₁ depth (by omega)
    · exact h₂ b hb depth (by omega)

theorem exists_paramVisits (hloaded : Loaded m) (hsub : m.subgraphs[s]? = some subgraph) {t : Nat}
    {tensor : Tensor} (htensor : subgraph.tensors[t]? = some tensor) :
    ∃ l, paramVisits m s tensor = .ok l := by
  obtain ⟨tflSubgraph, htfl, hlen, -⟩ := hloaded.tensors s subgraph hsub
  have ht : tensor.tensorIndex < tflSubgraph.tensors.length := by
    rw [hloaded.tensorIndex s subgraph hsub t tensor htensor, hlen]
    exact (List.getElem?_eq_some_iff.1 htensor).1
  have hbuffer := hloaded.buffers tflSubgraph (mem_of_getElem? htfl) _ (getElem_mem ht)
  unfold paramVisits
  simp only [htfl, getElem?_eq_getElem ht, getElem?_eq_getElem hbuffer]
  split
  · exact ⟨_, rfl⟩
  · exact ⟨_, rfl⟩

theorem exists_opVisits (hloaded : Loaded m) (hwalk : Walkable m config)
    {decomposition : Nat → Except Failure (List Visit)} {s i : Nat} (hs : Reachable m config s)
    (hsub : m.subgraphs[s]? = some subgraph) (hop : op ∈ subgraph.ops)
    (hd : ∀ d, Decomposes m s d → ∃ l, decomposition d = .ok l) :
    ∃ l, opVisits m decomposition s subgraph i op = .ok l := by
  unfold opVisits
  by_cases hcode : op.opCode = .shloComposite
  · obtain ⟨d, hindex⟩ := hwalk.decomposition s subgraph hs hsub op hop hcode
    obtain ⟨l, hl⟩ := hd d ⟨subgraph, op, hsub, hop, hcode, hindex⟩
    rw [if_pos hcode, hindex]
    simp only [hl]
    exact ⟨_, rfl⟩
  · rw [if_neg hcode]
    cases hinput : getInputIndexOfMagicNumber op.opCode with
    | none => exact ⟨[], rfl⟩
    | some magicParamIndex =>
      have hlt := hwalk.operand s subgraph hs hsub op hop _ hinput
      have ht := hloaded.inputs subgraph (mem_of_getElem? hsub) op hop _ (getElem_mem hlt)
      simp only [getElem?_eq_getElem hlt, getElem?_eq_getElem ht]
      exact exists_paramVisits hloaded hsub (getElem?_eq_getElem ht)

theorem exists_subgraphVisits (hloaded : Loaded m) (hwalk : Walkable m config)
    (hs : Reachable m config s) (hlt : s < m.subgraphs.length) :
    ∃ depth₀, ∀ depth ≥ depth₀, ∃ l, subgraphVisits m depth s = .ok l := by
  let r (d s : Nat) : Prop := Reachable m config s ∧ Decomposes m s d
  have hrlt (d s : Nat) (h : r d s) : d < m.subgraphs.length ∧ s < m.subgraphs.length := by
    obtain ⟨-, subgraph, op, hsub, -, -, hindex⟩ := h
    exact ⟨lt_of_getDecompositionSubgraphIndex hindex, (List.getElem?_eq_some_iff.1 hsub).1⟩
  have hracyclic (s : Nat) : ¬ TransGen r s s := by
    intro h
    have hreach : Reachable m config s := by
      cases h with
      | single h => exact h.1
      | tail _ h => exact h.1
    have hswap : TransGen (Function.swap (Decomposes m)) s s :=
      h.lift id fun _ _ h => h.2
    exact hwalk.acyclic s hreach (transGen_swap.1 hswap)
  refine acyclic_induction hrlt hracyclic (P := fun s => Reachable m config s →
    ∃ depth₀, ∀ depth ≥ depth₀, ∃ l, subgraphVisits m depth s = .ok l) ?_ hlt hs
  intro s hlt ih hs
  have hsub : m.subgraphs[s]? = some m.subgraphs[s] := getElem?_eq_getElem hlt
  -- The depth that the composites of this subgraph need.
  obtain ⟨depth₀, hdepth⟩ := exists_depth m.subgraphs[s].ops (P := fun op depth =>
      ∀ d, op.opCode = .shloComposite → getDecompositionSubgraphIndex m op = .ok d →
        ∃ l, subgraphVisits m depth d = .ok l) fun op hop => by
    by_cases hd : ∃ d, op.opCode = .shloComposite ∧ getDecompositionSubgraphIndex m op = .ok d
    · obtain ⟨d, hcode, hindex⟩ := hd
      have hdec : Decomposes m s d := ⟨_, op, hsub, hop, hcode, hindex⟩
      obtain ⟨depth₁, h₁⟩ := ih d ⟨hs, hdec⟩ (hs.decomposes hdec)
      refine ⟨depth₁, fun depth hdepth d' _ hindex' => ?_⟩
      rw [hindex] at hindex'
      cases hindex'
      exact h₁ depth hdepth
    · exact ⟨0, fun depth _ d hcode hindex => absurd ⟨d, hcode, hindex⟩ hd⟩
  refine ⟨depth₀ + 1, fun depth hle => ?_⟩
  obtain ⟨depth', rfl⟩ : ∃ depth', depth = depth' + 1 := ⟨depth - 1, by omega⟩
  have hops : ∀ p ∈ m.subgraphs[s].ops.zipIdx,
      ∃ l, opVisits m (subgraphVisits m depth') s m.subgraphs[s] p.2 p.1 = .ok l := fun p hp =>
    exists_opVisits hloaded hwalk hs hsub (fst_mem_of_mem_zipIdx hp) fun d hdec => by
      obtain ⟨subgraph, op, hsub', hop, hcode, hindex⟩ := hdec
      rw [hsub] at hsub'
      cases hsub'
      exact hdepth op hop depth' (by omega) d hcode hindex
  obtain ⟨l, hl⟩ := gather_ok hops
  unfold subgraphVisits
  simp only [hsub, hl]
  exact ⟨_, rfl⟩

/-- Deep enough walks end. -/
theorem exists_visits (hloaded : Loaded m) (hwalk : Walkable m config) :
    ∃ depth₀, ∀ depth ≥ depth₀, ∃ l, visits m depth config = .ok l := by
  obtain ⟨depth₀, hdepth⟩ := exists_depth m.signatures (P := fun signature depth =>
      config.selects signature → ∃ l, subgraphVisits m depth signature.subgraph = .ok l)
    fun signature hsig => by
      by_cases hsel : config.selects signature
      · obtain ⟨depth₁, h₁⟩ := exists_subgraphVisits hloaded hwalk
          ⟨signature, hsig, hsel, .refl⟩ (hloaded.signatures signature hsig)
        exact ⟨depth₁, fun depth hdepth _ => h₁ depth hdepth⟩
      · exact ⟨0, fun _ _ h => absurd h hsel⟩
  refine ⟨depth₀, fun depth hle => gather_ok fun signature hsig => ?_⟩
  have hlt := hloaded.signatures signature hsig
  obtain ⟨tflSubgraph, htfl, -⟩ :=
    hloaded.tensors _ _ (getElem?_eq_getElem hlt)
  simp only [htfl]
  by_cases hsel : config.selects signature
  · rw [if_pos hsel]
    exact hdepth signature hsig depth hle hsel
  · rw [if_neg hsel]
    exact ⟨[], rfl⟩

end

end LiteRt.MagicNumbers
