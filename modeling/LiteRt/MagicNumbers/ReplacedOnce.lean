import LiteRt.MagicNumbers.Reachable
import LiteRt.MagicNumbers.Regions

/-!
# Replaced exactly once

A place that is visited twice is replaced twice, and a replaced number may be a multiple of the
magic number again. Where that makes no difference, and all numbers fit, an update replaces
each place that can be reached exactly once.
-/

namespace LiteRt.MagicNumbers

open LiteRt.Lib List

variable {m : Model} {config : Config} {s : Nat}

/-- Every number that can be reached has been replaced once, and nothing else has changed. -/
structure ReplacedOnce (m : Model) (config : Config) (c c' : Contents) : Prop where
  dimensions : ∀ s t, Reachable m config s → m.ranked s t →
    c'.dimensions s t = (c.dimensions s t).map config.replaced
  otherDimensions : ∀ s t, ¬ (Reachable m config s ∧ m.ranked s t) →
    c'.dimensions s t = c.dimensions s t
  agree : ∀ s t, m.ranked s t → c'.shape s t = c'.dimensions s t
  element : ∀ s r w, Reachable m config s → ShapeParam m s r w → ∀ i, i < c.size r / w →
    c'.element r w i = config.replaced (c.element r w i)
  size : ∀ r, c'.size r = c.size r
  otherData : ∀ r, c.InBounds r →
    (∀ s r' w, Reachable m config s → ShapeParam m s r' w → r'.Apart r) →
    c'.load r 0 (c.size r) = c.load r 0 (c.size r)

/-- Replacing the number once more makes no difference. -/
def Config.Settled (config : Config) (n : Int) : Prop :=
  config.replaced (config.replaced n) = config.replaced n

/-- The two visits are to different places, or the second one makes no difference. -/
def Compatible (m : Model) (config : Config) (c : Contents) : Visit → Visit → Prop
  | .tensors s, .tensors s' => s = s' →
    ∀ t, m.ranked s t → ∀ n ∈ c.dimensions s t, config.Settled n
  | .param r w, .param r' w' => r.Apart r' ∨
    (r' = r ∧ w' = w ∧ ∀ i, i < c.size r / w → config.Settled (c.element r w i))
  | _, _ => True

/-- The numbers can be replaced, and no visit undoes what an earlier one did. -/
structure Updatable (m : Model) (config : Config) (c : Contents) : Prop extends
    Walkable m config where
  agree : ∀ s t, m.ranked s t → c.shape s t = c.dimensions s t
  dimension : ∀ s t, Reachable m config s → m.ranked s t → ∀ n ∈ c.dimensions s t,
    config.Replaceable 4 n
  param : ∀ s r w, Reachable m config s → ShapeParam m s r w → Replaceable config c r w
  once : ∀ depth l, visits m depth config = .ok l → l.Pairwise (Compatible m config c)

/-- What has happened after some visits. -/
structure Progress (m : Model) (config : Config) (done : List Visit) (c c' : Contents) :
    Prop where
  dimensions : ∀ s t, Visit.tensors s ∈ done → m.ranked s t →
    c'.dimensions s t = (c.dimensions s t).map config.replaced
  otherDimensions : ∀ s t, ¬ (Visit.tensors s ∈ done ∧ m.ranked s t) →
    c'.dimensions s t = c.dimensions s t
  agree : ∀ s t, m.ranked s t → c'.shape s t = c'.dimensions s t
  size : ∀ r, c'.size r = c.size r
  length : ∀ r, (c'.memory r).length = (c.memory r).length
  element : ∀ r w, Visit.param r w ∈ done → ∀ i, i < c.size r / w →
    c'.element r w i = config.replaced (c.element r w i)
  apart : ∀ r, c.InBounds r → (∀ r' w, Visit.param r' w ∈ done → r'.Apart r) →
    ∀ pos n, pos + n ≤ c.size r → c'.load r pos n = c.load r pos n

section
variable {done : List Visit} {c c' c'' : Contents} {r : Region} {w : Nat}

theorem Progress.init (h : ∀ s t, m.ranked s t → c.shape s t = c.dimensions s t) :
    Progress m config [] c c where
  dimensions _ _ h := absurd h not_mem_nil
  otherDimensions _ _ _ := rfl
  agree := h
  size _ := rfl
  length _ := rfl
  element _ _ h := absurd h not_mem_nil
  apart _ _ _ _ _ _ := rfl

theorem Progress.inBounds (h : Progress m config done c c') (hin : c.InBounds r) :
    c'.InBounds r := by
  unfold Contents.InBounds
  rw [h.size, h.length]
  exact hin

theorem SameData.memory (h : SameData c c') (r : Region) : c'.memory r = c.memory r := by
  cases r with
  | data b => exact congrFun h.data b
  | appended offset size => exact h.allocation

theorem SameData.size (h : SameData c c') (r : Region) : c'.size r = c.size r := by
  cases r with
  | data b => exact congrArg List.length (congrFun h.data b)
  | appended offset size => rfl

theorem SameData.load (h : SameData c c') (r : Region) (pos n : Nat) :
    c'.load r pos n = c.load r pos n := by
  unfold Contents.load
  rw [h.memory]

/-- A settled or affected-once number, after its first visit or before it. -/
theorem Config.Replaceable.again {n : Int} (h : config.Replaceable w n) (hs : config.Settled n) :
    config.Replaceable w (config.replaced n) :=
  ⟨h.replacedFits, by rw [hs]; exact h.replacedFits⟩

/-- A visit of the attributes changes neither dimensions nor data. -/
theorem Progress.attributes (h : Progress m config done c c') (hdim : c''.dimensions = c'.dimensions)
    (hshape : c''.shape = c'.shape) (hdata : SameData c' c'') (s i : Nat) :
    Progress m config (done ++ [.attributes s i]) c c'' where
  dimensions s' t hmem hr := by
    rw [hdim]
    refine h.dimensions s' t ?_ hr
    simpa using hmem
  otherDimensions s' t hnot := by
    rw [hdim]
    refine h.otherDimensions s' t fun hand => hnot ⟨?_, hand.2⟩
    exact mem_append_left _ hand.1
  agree s' t hr := by
    rw [hdim, hshape]
    exact h.agree s' t hr
  size r := (hdata.size r).trans (h.size r)
  length r := by rw [hdata.memory, h.length]
  element r w hmem i hi := by
    unfold Contents.element
    rw [hdata.load]
    refine h.element r w ?_ i hi
    simpa using hmem
  apart r hin hnot pos n hpos := by
    rw [hdata.load]
    exact h.apart r hin (fun r' w hmem => hnot r' w (mem_append_left _ hmem)) pos n hpos

theorem Region.Apart.size_eq_zero (h : r.Apart r) (c : Contents) : c.size r = 0 := by
  cases r with
  | data b => exact absurd rfl h
  | appended offset size =>
    show size = 0
    rcases h with h | h
    · omega
    · omega

theorem Progress.currentDimensions (h : Progress m config done c c') {s t : Nat} (hr : m.ranked s t)
    (hdone : ∀ v ∈ done, Compatible m config c v (.tensors s)) :
    c'.dimensions s t = c.dimensions s t ∨
      (c'.dimensions s t = (c.dimensions s t).map config.replaced ∧
        ∀ n ∈ c.dimensions s t, config.Settled n) := by
  by_cases hmem : Visit.tensors s ∈ done
  · exact .inr ⟨h.dimensions s t hmem hr, hdone _ hmem rfl t hr⟩
  · exact .inl (h.otherDimensions s t fun hand => hmem hand.1)

theorem Progress.currentElement (h : Progress m config done c c') {w i : Nat} (hin : c.InBounds r)
    (hi : i < c.size r / w) (hdone : ∀ v ∈ done, Compatible m config c v (.param r w)) :
    c'.element r w i = c.element r w i ∨ (c'.element r w i = config.replaced (c.element r w i) ∧
        config.Settled (c.element r w i)) := by
  by_cases hmem : Visit.param r w ∈ done
  · rcases hdone _ hmem with hself | ⟨-, -, hsettled⟩
    · rw [hself.size_eq_zero c, Nat.zero_div] at hi
      exact absurd hi (Nat.not_lt_zero i)
    · exact .inr ⟨h.element r w hmem i hi, hsettled i hi⟩
  · have hapart (r' : Region) (w' : Nat) (hmem' : Visit.param r' w' ∈ done) : r'.Apart r := by
      rcases hdone _ hmem' with hap | ⟨rfl, rfl, -⟩
      · exact hap
      · exact absurd hmem' hmem
    left
    unfold Contents.element
    rw [h.apart r hin hapart _ _ (element_inside hi)]

theorem Progress.tensors (h : Progress m config done c c') {s : Nat}
    (hdone : ∀ v ∈ done, Compatible m config c v (.tensors s))
    (hdim : ∀ s' t', c''.dimensions s' t' = if s' = s ∧ m.ranked s' t' then
      (c'.dimensions s' t').map config.replaced else c'.dimensions s' t')
    (hshape : ∀ s' t', c''.shape s' t' = if s' = s ∧ m.ranked s' t' then
      (c'.shape s' t').map config.replaced else c'.shape s' t')
    (hdata : SameData c' c'') : Progress m config (done ++ [.tensors s]) c c'' where
  dimensions s' t hmem hr := by
    rw [hdim]
    by_cases hs : s' = s
    · subst hs
      rw [if_pos ⟨rfl, hr⟩]
      rcases h.currentDimensions hr hdone with heq | ⟨heq, hsettled⟩
      · rw [heq]
      · rw [heq, List.map_map]
        exact map_congr_left hsettled
    · rw [if_neg fun hand => hs hand.1]
      rcases mem_append.1 hmem with hmem | hmem
      · exact h.dimensions s' t hmem hr
      · exact absurd (Visit.tensors.inj (mem_singleton.1 hmem)) hs
  otherDimensions s' t hnot := by
    have hnew : ¬ (s' = s ∧ m.ranked s' t) := by
      rintro ⟨rfl, hr⟩
      exact hnot ⟨mem_append_right _ (mem_singleton.2 rfl), hr⟩
    rw [hdim, if_neg hnew]
    exact h.otherDimensions s' t fun hand => hnot ⟨mem_append_left _ hand.1, hand.2⟩
  agree s' t hr := by rw [hdim, hshape, h.agree s' t hr]
  size r := (hdata.size r).trans (h.size r)
  length r := by rw [hdata.memory, h.length]
  element r w hmem i hi := by
    unfold Contents.element
    rw [hdata.load]
    refine h.element r w ?_ i hi
    simpa using hmem
  apart r hin hnot pos n hpos := by
    rw [hdata.load]
    exact h.apart r hin (fun r' w hmem => hnot r' w (mem_append_left _ hmem)) pos n hpos

/-- A visit of the elements of a region. -/
theorem Progress.param (h : Progress m config done c c')
    (hbounds : ∀ r' w', Visit.param r' w' ∈ done → c.InBounds r') (hin : c.InBounds r)
    (hdone : ∀ v ∈ done, Compatible m config c v (.param r w))
    (hstep : Rewritten config.replaced r w (List.range (c'.size r / w)) c' c'') :
    Progress m config (done ++ [.param r w]) c c'' where
  dimensions s t hmem hr := by
    rw [hstep.dimensions]
    refine h.dimensions s t ?_ hr
    simpa using hmem
  otherDimensions s t hnot := by
    rw [hstep.dimensions]
    exact h.otherDimensions s t fun hand => hnot ⟨mem_append_left _ hand.1, hand.2⟩
  agree s t hr := by
    rw [hstep.dimensions, hstep.shape]
    exact h.agree s t hr
  size r' := (hstep.size r').trans (h.size r')
  length r' := (hstep.length r').trans (h.length r')
  element r' w' hmem i hi := by
    by_cases hsame : r' = r ∧ w' = w
    · obtain ⟨rfl, rfl⟩ := hsame
      have hi' : i < c'.size r' / w' := by
        rw [h.size]
        exact hi
      rw [hstep.element i hi', if_pos (mem_range.2 hi')]
      rcases h.currentElement hin hi hdone with heq | ⟨heq, hsettled⟩
      · rw [heq]
      · rw [heq]
        exact hsettled
    · have hold : Visit.param r' w' ∈ done := by
        rcases mem_append.1 hmem with hmem | hmem
        · exact hmem
        · obtain ⟨hr, hw⟩ := Visit.param.inj (mem_singleton.1 hmem)
          exact absurd ⟨hr, hw⟩ hsame
      have hapart : r'.Apart r := by
        rcases hdone _ hold with hap | ⟨rfl, rfl, -⟩
        · exact hap
        · exact absurd ⟨rfl, rfl⟩ hsame
      have hin' := h.inBounds (hbounds r' w' hold)
      have hsize : w' * i + w' ≤ c'.size r' := by
        rw [h.size]
        exact element_inside hi
      have hload := hstep.apart r' hapart.symm hin' _ _ hsize
      rw [← h.element r' w' hold i hi]
      unfold Contents.element
      rw [hload]
  apart r' hin' hnot pos n hpos := by
    have hapart : r.Apart r' := hnot r w (mem_append_right _ (mem_singleton.2 rfl))
    rw [hstep.apart r' hapart (h.inBounds hin') pos n (by rw [h.size]; exact hpos)]
    exact h.apart r' hin' (fun r₁ w₁ hmem => hnot r₁ w₁ (mem_append_left _ hmem)) pos n hpos

end

section
variable {mutateInts : Int → Int → List UInt8 → Nat × List UInt8} {done : List Visit}
  {c c' : Contents} {s : Nat} {subgraph : Subgraph}

/-- A table after all tensors of a subgraph have been visited. -/
theorem TableRewritten.all {f : Int → Int} {table table' : Nat → Nat → List Int}
    (hsub : m.subgraphs[s]? = some subgraph)
    (h : TableRewritten m f s subgraph.tensors.zipIdx.length table table') (s' t : Nat) :
    table' s' t = if s' = s ∧ m.ranked s' t then (table s' t).map f else table s' t := by
  have hiff : (s' = s ∧ t < subgraph.tensors.zipIdx.length ∧ m.ranked s t = true) ↔
      (s' = s ∧ m.ranked s' t = true) := by
    constructor
    · rintro ⟨rfl, -, hr⟩
      exact ⟨rfl, hr⟩
    · rintro ⟨rfl, hr⟩
      refine ⟨rfl, ?_, hr⟩
      unfold Model.ranked at hr
      simp only [hsub] at hr
      rw [length_zipIdx]
      by_contra hle
      rw [getElem?_eq_none (Nat.le_of_not_lt hle)] at hr
      exact Bool.false_ne_true hr
  rw [h s' t]
  simp only [hiff]

theorem perform_tensors_ok (hloaded : Loaded m) (hc : config.Valid) (h : Updatable m config c)
    (hs : Reachable m config s) (hlt : s < m.subgraphs.length)
    (hprogress : Progress m config done c c')
    (hdone : ∀ v ∈ done, Compatible m config c v (.tensors s)) :
    ∃ n c'', perform m mutateInts config (.tensors s) c' = .ok n c'' ∧
      Progress m config (done ++ [.tensors s]) c c'' := by
  have hsub := getElem?_eq_getElem hlt
  obtain ⟨tflSubgraph, htfl, hlen, -⟩ := hloaded.tensors s _ hsub
  have hresizable (t : Nat) (hr : m.ranked s t) : Resizable config c' s t := by
    refine ⟨hprogress.agree s t hr, fun n hn => ?_⟩
    rcases hprogress.currentDimensions hr hdone with heq | ⟨heq, hsettled⟩
    · rw [heq] at hn
      exact h.dimension s t hs hr n hn
    · rw [heq] at hn
      obtain ⟨n₀, hn₀, rfl⟩ := mem_map.1 hn
      exact (h.dimension s t hs hr n₀ hn₀).again (hsettled n₀ hn₀)
  obtain ⟨n, c'', hrun, hstep⟩ := updateTensors_ok hc
    ⟨hsub, htfl, hlen, hloaded.tensorIndex s _ hsub⟩ hresizable
  refine ⟨n, c'', ?_, hprogress.tensors hdone (fun s' t' => ?_) (fun s' t' => ?_) hstep.sameData⟩
  · simp only [perform, hsub]
    exact hrun
  · exact hstep.dimensions.all hsub s' t'
  · exact hstep.shape.all hsub s' t'

theorem perform_param_ok (hc : config.Valid) (h : Updatable m config c) {r : Region} {w : Nat}
    (hs : Reachable m config s) (hparam : ShapeParam m s r w)
    (hprogress : Progress m config done c c')
    (hbounds : ∀ r' w', Visit.param r' w' ∈ done → c.InBounds r')
    (hdone : ∀ v ∈ done, Compatible m config c v (.param r w)) :
    ∃ n c'', perform m mutateInts config (.param r w) c' = .ok n c'' ∧
      Progress m config (done ++ [.param r w]) c c'' := by
  have hrep := h.param s r w hs hparam
  have hrep' : Replaceable config c' r w := by
    refine ⟨hrep.width, hrep.magicFits, ?_, hprogress.inBounds hrep.inBounds, fun i hi => ?_⟩
    · rw [hprogress.size]
      exact hrep.whole
    · rw [hprogress.size] at hi
      rcases hprogress.currentElement hrep.inBounds hi hdone with heq | ⟨heq, hsettled⟩
      · rw [heq]
        exact hrep.element i hi
      · rw [heq]
        exact (hrep.element i hi).again hsettled
  obtain ⟨n, c'', hrun, hstep⟩ := updateMagicNumber_ok hc hrep'
  exact ⟨n, c'', hrun, hprogress.param hbounds hrep.inBounds hdone hstep⟩

theorem perform_attributes_ok (hloaded : Loaded m) {s i : Nat}
    (hsub : m.subgraphs[s]? = some subgraph) (hi : i < subgraph.ops.length)
    (hprogress : Progress m config done c c') :
    ∃ n c'', perform m mutateInts config (.attributes s i) c' = .ok n c'' ∧
      Progress m config (done ++ [.attributes s i]) c c'' := by
  obtain ⟨tflSubgraph, htfl, -, hops⟩ := hloaded.tensors s subgraph hsub
  rw [← hops] at hi
  unfold perform updateMagicNumberInCompositeAttributes
  simp only [htfl, if_pos hi]
  rw [get_bind_eq]
  split
  · exact ⟨0, c', rfl, hprogress.attributes rfl rfl (.refl c') s i⟩
  · refine ⟨_, _, rfl, ?_⟩
    refine hprogress.attributes ?_ ?_ ⟨?_, ?_⟩ s i
    all_goals rfl

/-- An update whose visits make no difference when they come again replaces each number once. -/
theorem updateMagicNumbersInModel_once
    (mutateInts : Int → Int → List UInt8 → Nat × List UInt8) (hloaded : Loaded m)
    (hc : config.Valid) (h : Updatable m config c) :
    ∃ depth₀, ∀ depth ≥ depth₀, ∃ n c',
      updateMagicNumbersInModel mutateInts m depth [config] c = .ok n c' ∧
        ReplacedOnce m config c c' := by
  obtain ⟨depth₀, hdepth⟩ := exists_visits hloaded h.toWalkable
  refine ⟨depth₀, fun depth hle => ?_⟩
  obtain ⟨l, hl⟩ := hdepth depth hle
  have honce := h.once depth l hl
  have hown {x : Visit} (hx : x.IsNumbers) (hmem : x ∈ l) := (mem_visits hx hl).1 hmem
  have hbounds (r : Region) (w : Nat) (hmem : Visit.param r w ∈ l) : c.InBounds r := by
    obtain ⟨s, hs, hparam⟩ := @hown (.param r w) trivial hmem
    exact (h.param s r w hs hparam).inBounds
  rw [updateMagicNumbersInModel_eq hl]
  obtain ⟨n, c', hrun, hprogress⟩ := @tally_ok _ _ _ (perform m mutateInts config)
    (fun done => Progress m config done c) l c (Progress.init h.agree)
    fun pre v post hsplit c' hprogress => by
      have hv : v ∈ l := by rw [hsplit]; simp
      have hpre (v' : Visit) (hmem : v' ∈ pre) : v' ∈ l := by
        rw [hsplit]
        exact mem_append_left _ hmem
      have hdone : ∀ v' ∈ pre, Compatible m config c v' v := by
        rw [hsplit] at honce
        exact fun v' hmem => (pairwise_append.1 honce).2.2 v' hmem v (mem_cons_self ..)
      cases v with
      | tensors s =>
        obtain ⟨s', hs, heq⟩ := @hown (.tensors s) trivial hv
        obtain rfl : s = s' := heq
        have hlt : s < m.subgraphs.length := by
          obtain ⟨signature, hsig, -, hpath⟩ := hs
          rcases Relation.ReflTransGen.cases_tail hpath with rfl |
            ⟨s', -, subgraph, op, -, -, -, hindex⟩
          · exact hloaded.signatures signature hsig
          · exact lt_of_getDecompositionSubgraphIndex hindex
        exact perform_tensors_ok hloaded hc h hs hlt hprogress hdone
      | param r w =>
        obtain ⟨s, hs, hparam⟩ := @hown (.param r w) trivial hv
        exact perform_param_ok hc h hs hparam hprogress
          (fun r' w' hmem => hbounds r' w' (hpre _ hmem)) hdone
      | attributes s i =>
        obtain ⟨subgraph, hsub, hi⟩ := op_of_mem_visits hl hv
        exact perform_attributes_ok hloaded hsub hi hprogress
  have htensors (s : Nat) : Visit.tensors s ∈ l ↔ Reachable m config s := by
    rw [@mem_visits _ _ _ (.tensors s) _ trivial hl]
    constructor
    · rintro ⟨s', hs, heq⟩
      exact heq ▸ hs
    · exact fun hs => ⟨s, hs, rfl⟩
  have hparams (r : Region) (w : Nat) :
      Visit.param r w ∈ l ↔ ∃ s, Reachable m config s ∧ ShapeParam m s r w :=
    @mem_visits _ _ _ (.param r w) _ trivial hl
  refine ⟨n, c', hrun, fun s t hs hr => ?_, fun s t hnot => ?_, hprogress.agree,
    fun s r w hs hparam i hi => ?_, hprogress.size, fun r hin hapart => ?_⟩
  · exact hprogress.dimensions s t ((htensors s).2 hs) hr
  · exact hprogress.otherDimensions s t fun hand => hnot ⟨(htensors s).1 hand.1, hand.2⟩
  · exact hprogress.element r w ((hparams r w).2 ⟨s, hs, hparam⟩) i hi
  · refine hprogress.apart r hin (fun r' w hmem => ?_) 0 _ (Nat.le_of_eq (Nat.zero_add _))
    obtain ⟨s, hs, hparam⟩ := (hparams r' w).1 hmem
    exact hapart s r' w hs hparam

end

/-- Two composites that stand for one subgraph with a reshape op. -/
def shared : Model where
  subgraphs := [
    { tensors := []
      ops := List.replicate 2 {
        opCode := .shloComposite
        inputs := []
        compositeOptions := some { name := "c", decompositionSubgraphIndex := 1 } } },
    { tensors := [{ tensorIndex := 0, ranked := true }, { tensorIndex := 1, ranked := true }]
      ops := [{ opCode := .tflReshape, inputs := [0, 1] }] }]
  signatures := [{ key := [], subgraph := 0 }]
  fbModel := {
    subgraphs := [
      { tensors := [], numOperators := 2 },
      { tensors := [{ type := .other, buffer := 0 }, { type := .int32, buffer := 1 }]
        numOperators := 1 }]
    buffers := [{ hasData := false }, { hasData := true }]
    hasAllocation := false }

/-- The first tensor has one dimension, which is also the shape parameter. -/
def sharedContents (n : UInt8) : Contents where
  dimensions s t := if s = 1 then if t = 0 then [n.toNat] else [1] else []
  shape s t := if s = 1 then if t = 0 then [n.toNat] else [1] else []
  data b := if b = 1 then [n, 0, 0, 0] else []
  allocation := []
  compositeAttributes _ _ := []
  tflCompositeAttributes _ _ := []

theorem shared_place {subgraph : Subgraph} (h : shared.subgraphs[s]? = some subgraph) :
    s = 0 ∨ s = 1 := by
  have hlt : s < 2 := (List.getElem?_eq_some_iff.1 h).1
  omega

theorem shared_loaded : Loaded shared := by
  refine ⟨fun s subgraph hsub => ?_, fun s subgraph hsub t tensor htensor => ?_, by decide,
    by decide, by decide⟩
  · obtain rfl | rfl := shared_place hsub
    · cases hsub
      exact ⟨_, rfl, rfl, rfl⟩
    · cases hsub
      exact ⟨_, rfl, rfl, rfl⟩
  · obtain rfl | rfl := shared_place hsub
    · cases hsub
      cases htensor
    · cases hsub
      have hlt : t < 2 := (List.getElem?_eq_some_iff.1 htensor).1
      obtain rfl | rfl : t = 0 ∨ t = 1 := by omega
      · cases htensor
        rfl
      · cases htensor
        rfl

/-- With 2 replaced by 4, the subgraph that both composites stand for has 8 instead of 2. -/
theorem shared_replaced_twice :
    let config : Config := { magicNumber := 2, targetNumber := 4 }
    Loaded shared ∧ config.Valid ∧
      (∀ s t, shared.ranked s t → (sharedContents 2).shape s t = (sharedContents 2).dimensions s t) ∧
      ∀ depth mutateInts, ∃ c',
        updateMagicNumbersInModel mutateInts shared (depth + 2) [config] (sharedContents 2) =
          .ok 4 c' ∧
        c'.dimensions 1 0 = [8] ∧ ¬ ReplacedOnce shared config (sharedContents 2) c' := by
  refine ⟨shared_loaded, ⟨by decide, by decide, by decide, by decide⟩, fun _ _ _ => rfl,
    fun depth mutateInts => ⟨_, rfl, rfl, fun h => ?_⟩⟩
  have hreach : Reachable shared { magicNumber := 2, targetNumber := 4 } 1 :=
    ⟨_, mem_singleton.2 rfl, rfl,
      .single ⟨_, _, rfl, mem_cons_self .., rfl, rfl⟩⟩
  have hdim := h.dimensions 1 0 hreach rfl
  revert hdim
  decide

theorem shared_reachable {config : Config} (h : Reachable shared config s) :
    s = 0 ∨ s = 1 := by
  obtain ⟨signature, hsig, -, hpath⟩ := h
  rw [mem_singleton.1 hsig] at hpath
  rcases Relation.ReflTransGen.cases_tail hpath with rfl | ⟨s', -, subgraph, op, -, -, -, hindex⟩
  · exact .inl rfl
  · have hlt : s < 2 := lt_of_getDecompositionSubgraphIndex hindex
    omega

theorem shared_decomposes {s d : Nat} (h : Decomposes shared s d) : s = 0 ∧ d = 1 := by
  obtain ⟨subgraph, op, hsub, hop, hcode, hindex⟩ := h
  obtain rfl | rfl := shared_place hsub
  · cases hsub
    rw [eq_of_mem_replicate hop] at hindex
    cases hindex
    exact ⟨rfl, rfl⟩
  · cases hsub
    rw [mem_singleton.1 hop] at hcode
    cases hcode

theorem shared_walkable (config : Config) : Walkable shared config := by
  refine ⟨fun s subgraph _ hsub op hop j hj => ?_, fun s subgraph _ hsub op hop hcode => ?_,
    fun s _ hcycle => ?_⟩
  · obtain rfl | rfl := shared_place hsub
    · cases hsub
      rw [eq_of_mem_replicate hop] at hj
      cases hj
    · cases hsub
      rw [mem_singleton.1 hop] at hj ⊢
      cases hj
      decide
  · obtain rfl | rfl := shared_place hsub
    · cases hsub
      rw [eq_of_mem_replicate hop]
      exact ⟨1, rfl⟩
    · cases hsub
      rw [mem_singleton.1 hop] at hcode
      cases hcode
  · obtain ⟨d, hd, -⟩ := Relation.TransGen.head'_iff.1 hcycle
    obtain ⟨s', -, hs'⟩ := Relation.TransGen.tail'_iff.1 hcycle
    have h0 := (shared_decomposes hd).1
    have h1 := (shared_decomposes hs').2
    omega

theorem shared_param {r : Region} {w : Nat} (h : ShapeParam shared s r w) :
    r = .data 1 ∧ w = 4 := by
  obtain ⟨tensor, ⟨subgraph, op, j, t, hsub, hop, hj, ht, htensor⟩,
    tflSubgraph, paramTensor, buffer, htfl, hparam, hbuffer, hregion, hwidth⟩ := h
  obtain rfl | rfl := shared_place hsub
  · cases hsub
    rw [eq_of_mem_replicate hop] at hj
    cases hj
  · cases hsub
    rw [mem_singleton.1 hop] at hj ht
    cases hj
    cases ht
    cases htensor
    cases htfl
    cases hparam
    cases hbuffer
    cases hregion
    cases hwidth
    exact ⟨rfl, rfl⟩

theorem shared_dimension {t : Nat} {n : Int} (h : n ∈ (sharedContents 7).dimensions 1 t) :
    n = 7 ∨ n = 1 := by
  have h' : n ∈ if t = 0 then [(7 : Int)] else [1] := h
  split at h'
  · exact .inl (mem_singleton.1 h')
  · exact .inr (mem_singleton.1 h')

/-- With 7 replaced by 4, it makes no difference that the subgraph is visited twice. -/
theorem shared_updatable :
    Updatable shared { magicNumber := 7, targetNumber := 4 } (sharedContents 7) where
  toWalkable := shared_walkable _
  agree _ _ _ := rfl
  dimension s t hs hr n hn := by
    rcases shared_reachable hs with rfl | rfl
    · exact absurd hn not_mem_nil
    · rcases shared_dimension hn with rfl | rfl
      · exact ⟨by decide, by decide⟩
      · exact ⟨by decide, by decide⟩
  param s r w _ hparam := by
    obtain ⟨rfl, rfl⟩ := shared_param hparam
    refine ⟨.inl rfl, by decide, by decide, Nat.le_refl 4, fun i hi => ?_⟩
    obtain rfl : i = 0 := Nat.lt_one_iff.1 hi
    exact ⟨by decide, by decide⟩
  once depth l hl := by
    have htensors : Compatible shared { magicNumber := 7, targetNumber := 4 } (sharedContents 7)
        (.tensors 1) (.tensors 1) := fun _ t _ n hn => by
      rcases shared_dimension hn with rfl | rfl
      · rfl
      · rfl
    have hparam : Compatible shared { magicNumber := 7, targetNumber := 4 } (sharedContents 7)
        (.param (.data 1) 4) (.param (.data 1) 4) := .inr ⟨rfl, rfl, fun i hi => by
      obtain rfl : i = 0 := Nat.lt_one_iff.1 hi
      rfl⟩
    rcases depth with _ | _ | depth
    · cases hl
    · cases hl
    · obtain rfl : l = [.tensors 0, .tensors 1, .param (.data 1) 4, .tensors 1,
          .param (.data 1) 4] := (Except.ok.inj hl).symm
      simp [Compatible] at htensors hparam ⊢
      exact ⟨htensors, hparam⟩

theorem updateMagicNumbersInModel_once_shared :
    ∃ depth₀, ∀ depth ≥ depth₀, ∃ n c',
      updateMagicNumbersInModel (fun _ _ bytes => (0, bytes)) shared depth
        [{ magicNumber := 7, targetNumber := 4 }] (sharedContents 7) = .ok n c' ∧
      ReplacedOnce shared { magicNumber := 7, targetNumber := 4 } (sharedContents 7) c' :=
  updateMagicNumbersInModel_once _ shared_loaded ⟨by decide, by decide, by decide, by decide⟩
    shared_updatable

end LiteRt.MagicNumbers
