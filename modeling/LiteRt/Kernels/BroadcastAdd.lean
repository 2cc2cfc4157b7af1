import LiteRt.Kernels.BroadcastDims
import Mathlib.Logic.Function.Iterate

/-!
# Adding along compressed dimensions

`BroadcastAddRecursiveDimensions` for plain and for quantized elements. What is recorded is which
elements of the inputs are added for which place in the output.
-/

namespace LiteRt.Kernels

open LiteRt.Lib List

/-- The offsets, and the additions so far. -/
structure AddState where
  input1 : Nat
  input2 : Nat
  output : Nat
  written : List Visit
  deriving DecidableEq, Repr

def AddState.visit (s : AddState) : Visit := ⟨s.output, s.input1, s.input2⟩

/-- The loop along a dimension. What is inside gets copies of the input offsets. -/
def addAlong (level : StrideLevel) (inner : AddState → AddState) : AddState → AddState :=
  (fun s => { inner s with
    input1 := size64 (s.input1 + level.first)
    input2 := size64 (s.input2 + level.second) })^[level.extent]

/-- The dimensions up to some one, outermost first. -/
def broadcastAddRecursiveDimensions (innermost : StrideLevel → AddState → AddState) :
    List StrideLevel → AddState → AddState
  | [], s => s
  | [level], s => innermost level s
  | level :: inner, s => addAlong level (broadcastAddRecursiveDimensions innermost inner) s

/-- Dimension zero for plain elements: one of the inputs is broadcast along it, or neither. -/
def addPlain (level : StrideLevel) (s : AddState) : AddState :=
  let output := size64 (s.output + level.extent)
  if level.first = 0 then
    { written := s.written ++ (List.range level.extent).map fun c =>
        ⟨size64 (s.output + c), s.input1, size64 (s.input2 + c)⟩
      input1 := s.input1
      input2 := size64 (s.input2 + level.extent)
      output := output }
  else if level.second = 0 then
    { written := s.written ++ (List.range level.extent).map fun c =>
        ⟨size64 (s.output + c), size64 (s.input1 + c), s.input2⟩
      input1 := size64 (s.input1 + level.extent)
      input2 := s.input2
      output := output }
  else
    { written := s.written ++ (List.range level.extent).map fun c =>
        ⟨size64 (s.output + c), size64 (s.input1 + c), size64 (s.input2 + c)⟩
      input1 := size64 (s.input1 + level.extent)
      input2 := size64 (s.input2 + level.extent)
      output := output }

def addQuantizedElements (level : StrideLevel) : AddState → AddState :=
  addAlong level fun s => { s with
    written := s.written ++ [s.visit]
    output := size64 (s.output + 1) }

/-- The additions of `BroadcastAdd6DSlow`. -/
def broadcastAdd (innermost : StrideLevel → AddState → AddState) (dims : BroadcastDims) :
    List Visit :=
  (broadcastAddRecursiveDimensions innermost dims.levels.reverse ⟨0, 0, 0, []⟩).written

/-! ## What the recursion visits -/

/-- The offsets are of type `size_t`. -/
structure AddState.Bounded (s : AddState) : Prop where
  input1 : s.input1 < 2 ^ 64
  input2 : s.input2 < 2 ^ 64
  output : s.output < 2 ^ 64

/-- The additions along some dimensions. -/
structure Adds (levels : List StrideLevel) (s s' : AddState) : Prop where
  written : s'.written = s.written ++ stridedVisits (2 ^ 64) levels s.visit
  output : s'.output = size64 (s.output + steps levels)

section
variable {levels : List StrideLevel} {level : StrideLevel} {s : AddState}

theorem size64_lt (n : Nat) : size64 n < 2 ^ 64 := Nat.mod_lt _ (by decide)

theorem size64_add (n m : Nat) : size64 (size64 n + m) = size64 (n + m) := by
  unfold size64
  exact Nat.mod_add_mod n (2 ^ 64) m

theorem size64_of_lt {n : Nat} (h : n < 2 ^ 64) : size64 n = n := Nat.mod_eq_of_lt h

theorem addAlong_adds {inner : AddState → AddState}
    (hinner : ∀ s : AddState, s.Bounded → Adds levels s (inner s)) (hs : s.Bounded) :
    Adds (levels ++ [level]) s (addAlong level inner s) := by
  unfold addAlong
  generalize hround : (fun s : AddState => ({ inner s with
    input1 := size64 (s.input1 + level.first)
    input2 := size64 (s.input2 + level.second) } : AddState)) = round
  have hsteps : ∀ m, (round^[m] s).input1 = size64 (s.input1 + m * level.first) ∧
      (round^[m] s).input2 = size64 (s.input2 + m * level.second) ∧
      (round^[m] s).output = size64 (s.output + m * steps levels) ∧
      (round^[m] s).written = s.written ++ (List.range m).flatMap fun c =>
        stridedVisits (2 ^ 64) levels ⟨s.output + c * steps levels, s.input1 + c * level.first,
          s.input2 + c * level.second⟩ := by
    intro m
    induction m with
    | zero =>
      simp [size64_of_lt hs.input1, size64_of_lt hs.input2, size64_of_lt hs.output]
    | succ m ih =>
      rw [Function.iterate_succ_apply']
      generalize round^[m] s = r at ih ⊢
      obtain ⟨hinput1, hinput2, houtput, hwritten⟩ := ih
      have hadds := hinner r ⟨hinput1 ▸ size64_lt _, hinput2 ▸ size64_lt _, houtput ▸ size64_lt _⟩
      rw [← hround]
      refine ⟨?_, ?_, ?_, ?_⟩
      · show size64 (r.input1 + level.first) = _
        rw [hinput1, size64_add, Nat.succ_mul, Nat.add_assoc]
      · show size64 (r.input2 + level.second) = _
        rw [hinput2, size64_add, Nat.succ_mul, Nat.add_assoc]
      · rw [hadds.output, houtput, size64_add, Nat.succ_mul, Nat.add_assoc]
      · have hvisit : r.visit = ⟨(s.output + m * steps levels) % 2 ^ 64,
            (s.input1 + m * level.first) % 2 ^ 64, (s.input2 + m * level.second) % 2 ^ 64⟩ := by
          unfold AddState.visit
          rw [hinput1, hinput2, houtput]
          rfl
        have hvisits := @stridedVisits_mod (2 ^ 64) levels
            ⟨s.output + m * steps levels, s.input1 + m * level.first, s.input2 + m * level.second⟩
        rw [hadds.written, hvisit, hvisits, hwritten, range_succ, flatMap_append,
          flatMap_singleton, append_assoc]
  obtain ⟨-, -, houtput, hwritten⟩ := hsteps level.extent
  refine ⟨?_, ?_⟩
  · rw [hwritten, stridedVisits_outer]
    rfl
  · rw [houtput, steps_append, steps_cons, steps_nil, Nat.mul_one, Nat.mul_comm]

theorem recursive_adds {innermost : StrideLevel → AddState → AddState}
    (hinnermost : ∀ s : AddState, s.Bounded → Adds [level] s (innermost level s))
    (levels : List StrideLevel) (hs : s.Bounded) :
    Adds (level :: levels) s
      (broadcastAddRecursiveDimensions innermost (level :: levels).reverse s) := by
  induction levels using List.reverseRecOn generalizing s with
  | nil => exact hinnermost s hs
  | append_singleton levels outer ih =>
    have hreverse : (level :: (levels ++ [outer])).reverse = outer :: (level :: levels).reverse := by
      simp
    have hne : (level :: levels).reverse ≠ [] := by simp
    have houter := @addAlong_adds _ outer _ _ (fun s hs => ih (s := s) hs) hs
    rw [hreverse]
    unfold broadcastAddRecursiveDimensions
    split
    · rename_i heq
      cases heq
    · rename_i heq
      obtain ⟨-, hnil⟩ := List.cons.inj heq
      exact absurd hnil hne
    · rename_i heq
      obtain ⟨rfl, rfl⟩ := List.cons.inj heq
      exact houter

theorem addQuantizedElements_adds (hs : s.Bounded) :
    Adds [level] s (addQuantizedElements level s) := by
  refine @addAlong_adds [] _ _ _ (fun s hs => ⟨?_, rfl⟩) hs
  show s.written ++ [s.visit] = s.written ++ [⟨(s.output + 0) % 2 ^ 64, (s.input1 + 0) % 2 ^ 64,
    (s.input2 + 0) % 2 ^ 64⟩]
  rw [Nat.add_zero, Nat.add_zero, Nat.add_zero, Nat.mod_eq_of_lt hs.input1,
    Nat.mod_eq_of_lt hs.input2, Nat.mod_eq_of_lt hs.output]
  rfl

theorem addPlain_adds (hfirst : level.first = 0 ∨ level.first = 1)
    (hsecond : level.second = 0 ∨ level.second = 1) (hboth : level.first = 1 ∨ level.second = 1)
    (hs : s.Bounded) : Adds [level] s (addPlain level s) := by
  have hsteps : steps [level] = level.extent := by
    rw [steps_cons, steps_nil, Nat.mul_one]
  have hplace : ∀ (stride : StrideLevel → Nat) {c : Nat}, c < level.extent →
      stridedPlace stride [level] c = c * stride level := by
    intro stride c hc
    rw [stridedPlace_cons, Nat.mod_eq_of_lt hc]
    rfl
  have hvisits : stridedVisits (2 ^ 64) [level] s.visit = (List.range level.extent).map fun c =>
      ⟨size64 (s.output + c), size64 (s.input1 + c * level.first),
        size64 (s.input2 + c * level.second)⟩ := by
    unfold stridedVisits
    rw [hsteps]
    refine map_congr_left fun c hc => ?_
    rw [hplace _ (mem_range.1 hc), hplace _ (mem_range.1 hc)]
    rfl
  unfold addPlain
  dsimp only
  split
  · rename_i hzero
    obtain hone := hboth.resolve_left (by omega)
    refine ⟨?_, by rw [hsteps]⟩
    rw [hvisits, hzero, hone]
    simp only [Nat.mul_zero, Nat.mul_one, Nat.add_zero, size64_of_lt hs.input1]
  · rename_i hne
    have hone := hfirst.resolve_left hne
    split
    · rename_i hzero
      refine ⟨?_, by rw [hsteps]⟩
      rw [hvisits, hzero, hone]
      simp only [Nat.mul_zero, Nat.mul_one, Nat.add_zero, size64_of_lt hs.input2]
    · rename_i hne
      refine ⟨?_, by rw [hsteps]⟩
      rw [hvisits, hone, hsecond.resolve_left hne]
      simp only [Nat.mul_one]

end

/-! ## The strides that fit -/

/-- Where several elements of an input follow each other along an axis, the elements inside it are
few enough for their number to be an `int`. -/
def StridesFit : Nat → Nat → List Axis → Prop
  | _, _, [] => True
  | first, second, a :: axes =>
    (a.first ≠ 1 → first < 2 ^ 31) ∧ (a.second ≠ 1 → second < 2 ^ 31) ∧
      StridesFit (first * a.first) (second * a.second) axes

instance : (first second : Nat) → (axes : List Axis) → Decidable (StridesFit first second axes)
  | _, _, [] => inferInstanceAs (Decidable True)
  | first, second, a :: axes =>
    have := instDecidableStridesFit (first * a.first) (second * a.second) axes
    inferInstanceAs (Decidable ((a.first ≠ 1 → first < 2 ^ 31) ∧ (a.second ≠ 1 → second < 2 ^ 31) ∧
      StridesFit (first * a.first) (second * a.second) axes))

/-- Every output place and every run is a `size_t`, and before each run the strides are `int`s. -/
structure CompressionFits (axes : List Axis) : Prop where
  output : outputSize axes ≤ 2 ^ 64
  runs : ∀ run ∈ runsOf axes, outputSize run < 2 ^ 64
  strides : StridesFit 1 1 ((runsOf axes).map mergeAxes)

def compressedAxis (a : Axis) : CompressedDim := ⟨size64 a.first, size64 a.second, size64 a.extent⟩

section
variable {axes : List Axis} {a : Axis}

theorem toSize_int32 {n : Nat} (h : n ≤ 2 ^ 63) : toSize (int32 n) = n ↔ n < 2 ^ 31 := by
  unfold toSize int32 Int.bmod
  dsimp only
  split <;> omega

theorem toSize_lt (n : Int) : toSize n < 2 ^ 64 := by
  unfold toSize
  omega

/-- One stride, for an axis of which the sizes are known to fit. -/
theorem first_stride_iff (ha : a.Compatible) (hextent : 1 < a.extent) (hfits : a.extent < 2 ^ 64)
    {first : Nat} (hfirst : first * a.extent ≤ 2 ^ 64) :
    (if size64 a.first ≠ size64 a.second ∧ size64 a.first = 1 then 0 else toSize (int32 first)) =
      (if a.first = 1 then 0 else first) ↔ (a.first ≠ 1 → first < 2 ^ 31) := by
  have hpos : 0 < a.extent := Nat.lt_trans Nat.one_pos hextent
  rw [size64_of_lt (Nat.lt_of_le_of_lt (ha.first_le hpos) hfits),
    size64_of_lt (Nat.lt_of_le_of_lt (ha.second_le hpos) hfits)]
  by_cases hone : a.first = 1
  · have hne : a.first ≠ a.second := by
      rw [← Axis.extent_of_first hone, hone]
      omega
    rw [if_pos ⟨hne, hone⟩, if_pos hone]
    exact iff_of_true rfl fun h => absurd hone h
  · have hle : first * 2 ≤ first * a.extent := Nat.mul_le_mul_left _ hextent
    rw [if_neg fun h => hone h.2, if_neg hone, toSize_int32 (by omega)]
    exact ⟨fun h _ => h, fun h => h hone⟩

theorem second_stride_iff (ha : a.Compatible) (hextent : 1 < a.extent) (hfits : a.extent < 2 ^ 64)
    {second : Nat} (hsecond : second * a.extent ≤ 2 ^ 64) :
    (if size64 a.first ≠ size64 a.second ∧ size64 a.first ≠ 1 then 0
        else toSize (int32 second)) =
      (if a.second = 1 then 0 else second) ↔ (a.second ≠ 1 → second < 2 ^ 31) := by
  have hpos : 0 < a.extent := Nat.lt_trans Nat.one_pos hextent
  rw [size64_of_lt (Nat.lt_of_le_of_lt (ha.first_le hpos) hfits),
    size64_of_lt (Nat.lt_of_le_of_lt (ha.second_le hpos) hfits)]
  by_cases hone : a.second = 1
  · have hfirst : a.first ≠ 1 := by
      rw [← Axis.extent_of_second hone]
      omega
    have hne : a.first ≠ a.second := fun h => hfirst (h.trans hone)
    rw [if_pos ⟨hne, hfirst⟩, if_pos hone]
    exact iff_of_true rfl fun h => absurd hone h
  · have hnot : ¬(a.first ≠ a.second ∧ a.first ≠ 1) := fun h =>
      (ha.resolve_left h.1).elim h.2 hone
    have hle : second * 2 ≤ second * a.extent := Nat.mul_le_mul_left _ hextent
    rw [if_neg hnot, if_neg hone, toSize_int32 (by omega)]
    exact ⟨fun h _ => h, fun h => h hone⟩

/-- The computed strides are those of broadcasting exactly when everything fits. -/
theorem strideLevels_eq_iff (haxes : ∀ a ∈ axes, a.Compatible ∧ 1 < a.extent) {first second : Nat}
    (hfirst : first * outputSize axes ≤ 2 ^ 64) (hsecond : second * outputSize axes ≤ 2 ^ 64) :
    strideLevels (axes.map compressedAxis) (int32 first) (int32 second) =
        broadcastLevels first second axes ↔
      (∀ a ∈ axes, a.extent < 2 ^ 64) ∧ StridesFit first second axes := by
  induction axes generalizing first second with
  | nil => exact iff_of_true rfl ⟨fun a ha => absurd ha not_mem_nil, trivial⟩
  | cons a axes ih =>
    rw [forall_mem_cons] at haxes
    obtain ⟨⟨ha, hextent⟩, haxes⟩ := haxes
    have hpos : 0 < a.extent := Nat.lt_trans Nat.one_pos hextent
    have hrestPos : 0 < outputSize axes :=
      outputSize_pos_iff.2 fun b hb => Nat.lt_trans Nat.one_pos (haxes b hb).2
    rw [outputSize_cons, ← Nat.mul_assoc] at hfirst hsecond
    have hfirstHere := Nat.le_trans (Nat.le_mul_of_pos_right _ hrestPos) hfirst
    have hsecondHere := Nat.le_trans (Nat.le_mul_of_pos_right _ hrestPos) hsecond
    have hrest := @ih haxes (first * a.first) (second * a.second)
      (Nat.le_trans (Nat.mul_le_mul_right _ (Nat.mul_le_mul_left _ (ha.first_le hpos))) hfirst)
      (Nat.le_trans (Nat.mul_le_mul_right _ (Nat.mul_le_mul_left _ (ha.second_le hpos))) hsecond)
    rw [map_cons, broadcastLevels_cons, forall_mem_cons]
    unfold strideLevels StridesFit compressedAxis
    dsimp only
    rw [List.cons.injEq, StrideLevel.mk.injEq]
    by_cases hfits : a.extent < 2 ^ 64
    · rw [first_stride_iff ha hextent hfits hfirstHere,
        second_stride_iff ha hextent hfits hsecondHere, size64_of_lt hfits,
        size64_of_lt (Nat.lt_of_le_of_lt (ha.first_le hpos) hfits),
        size64_of_lt (Nat.lt_of_le_of_lt (ha.second_le hpos) hfits), int32_int32_mul,
        int32_int32_mul, ← Nat.cast_mul, ← Nat.cast_mul]
      unfold compressedAxis at hrest
      rw [hrest]
      exact ⟨fun ⟨⟨_, h1, h2⟩, h3, h4⟩ => ⟨⟨hfits, h3⟩, h1, h2, h4⟩,
        fun ⟨⟨_, h3⟩, h1, h2, h4⟩ => ⟨⟨rfl, h1, h2⟩, h3, h4⟩⟩
    · refine iff_of_false (fun h => hfits ?_) fun h => hfits h.1.1
      exact h.1.1 ▸ size64_lt _

theorem strideLevels_append (xs ys : List CompressedDim) (input1Stride input2Stride : Int) :
    ∃ input1Stride' input2Stride', strideLevels (xs ++ ys) input1Stride input2Stride =
      strideLevels xs input1Stride input2Stride ++ strideLevels ys input1Stride' input2Stride' := by
  induction xs generalizing input1Stride input2Stride with
  | nil => exact ⟨input1Stride, input2Stride, rfl⟩
  | cons d xs ih =>
    obtain ⟨input1Stride', input2Stride', h⟩ :=
      ih (int32 (input1Stride * d.input1)) (int32 (input2Stride * d.input2))
    refine ⟨input1Stride', input2Stride', ?_⟩
    rw [cons_append]
    show _ :: strideLevels (xs ++ ys) _ _ = (_ :: strideLevels xs _ _) ++ _
    rw [h, cons_append]

theorem map_extent_strideLevels (dims : List CompressedDim) (input1Stride input2Stride : Int) :
    (strideLevels dims input1Stride input2Stride).map StrideLevel.extent =
      dims.map CompressedDim.output := by
  induction dims generalizing input1Stride input2Stride with
  | nil => rfl
  | cons d dims ih =>
    unfold strideLevels
    rw [map_cons, map_cons, ih]

theorem strideLevels_lt (dims : List CompressedDim) (input1Stride input2Stride : Int) :
    ∀ x ∈ strideLevels dims input1Stride input2Stride, x.first < 2 ^ 64 ∧ x.second < 2 ^ 64 := by
  induction dims generalizing input1Stride input2Stride with
  | nil => exact fun x hx => absurd hx not_mem_nil
  | cons d dims ih =>
    unfold strideLevels
    refine forall_mem_cons.2 ⟨⟨?_, ?_⟩, ih _ _⟩
    · dsimp only
      split
      · decide
      · exact toSize_lt _
    · dsimp only
      split
      · decide
      · exact toSize_lt _

theorem map_compressedRun (hcompatible : ∀ a ∈ axes, a.Compatible) :
    (runsOf axes).map compressedRun = ((runsOf axes).map mergeAxes).map compressedAxis := by
  rw [map_map]
  refine map_congr_left fun run hrun => ?_
  show compressedRun run = compressedAxis (mergeAxes run)
  unfold compressedAxis
  rw [outputSize_merge (oneKind_runsOf hcompatible hrun)]
  rfl

/-! ## The whole operation -/

/-- Both recursions visit what the levels say. -/
theorem broadcastAdd_levels {dims : List CompressedDim} {num : Nat}
    {innermost : StrideLevel → AddState → AddState}
    (h : innermost = addPlain ∨ innermost = addQuantizedElements) :
    broadcastAdd innermost ⟨num, strideLevels (padded dims) 1 1⟩ =
      stridedVisits (2 ^ 64) (strideLevels dims 1 1) ⟨0, 0, 0⟩ := by
  have hzero : AddState.Bounded ⟨0, 0, 0, []⟩ := ⟨by decide, by decide, by decide⟩
  have hpadding : stridedVisits (2 ^ 64) (strideLevels (padded dims) 1 1) ⟨0, 0, 0⟩ =
      stridedVisits (2 ^ 64) (strideLevels dims 1 1) ⟨0, 0, 0⟩ := by
    obtain ⟨_, _, happend⟩ := strideLevels_append dims
      (List.replicate (kMaxBroadcastDim - dims.length) ⟨1, 1, 1⟩) 1 1
    unfold padded
    rw [happend]
    refine stridedVisits_append_unit _ fun x hx => ?_
    have hmem := mem_map_of_mem (f := StrideLevel.extent) hx
    rw [map_extent_strideLevels, map_replicate] at hmem
    exact eq_of_mem_replicate hmem
  have hlevels : ∃ d rest, padded dims = d :: rest := by
    unfold padded
    cases dims with
    | nil => exact ⟨_, _, rfl⟩
    | cons d rest => exact ⟨d, _, rfl⟩
  obtain ⟨d, rest, hcons⟩ := hlevels
  rw [← hpadding, hcons]
  unfold broadcastAdd strideLevels
  refine (recursive_adds (fun s hs => ?_) _ hzero).written
  have hone : toSize 1 = 1 := by decide
  obtain rfl | rfl := h
  · refine addPlain_adds ?_ ?_ ?_ hs
    all_goals
      dsimp only
      rw [hone]
      split <;> simp [*]
  · exact addQuantizedElements_adds hs

end

/-- Compressing is exact: it fails for an empty output only; otherwise there are few enough
dimensions and every place of the output is written once, in order, with the elements that
broadcasting assigns to it. -/
structure CompressionExact (input1Shape input2Shape : RuntimeShape) : Prop where
  empty : reduceDimensionsForBroadcast input1Shape input2Shape = none ↔
    outputSize (axesOf input1Shape input2Shape) = 0
  dims : ∀ dims, reduceDimensionsForBroadcast input1Shape input2Shape = some dims →
    dims.numCompressedDims ≤ kMaxBroadcastDim
  plain : ∀ dims, reduceDimensionsForBroadcast input1Shape input2Shape = some dims →
    broadcastAdd addPlain dims = visits (axesOf input1Shape input2Shape) ⟨0, 0, 0⟩
  quantized : ∀ dims, reduceDimensionsForBroadcast input1Shape input2Shape = some dims →
    broadcastAdd addQuantizedElements dims = visits (axesOf input1Shape input2Shape) ⟨0, 0, 0⟩

section
variable {input1Shape input2Shape : RuntimeShape}

theorem reduceDimensionsForBroadcast_eq_none
    (hcompatible : ∀ a ∈ axesOf input1Shape input2Shape, a.Compatible) :
    reduceDimensionsForBroadcast input1Shape input2Shape = none ↔
      outputSize (axesOf input1Shape input2Shape) = 0 := by
  rw [← compressShapes_eq_none hcompatible]
  unfold reduceDimensionsForBroadcast
  split
  · exact iff_of_true rfl ‹_›
  · rename_i s hs
    rw [hs]
    exact iff_of_false (Option.some_ne_none _) (Option.some_ne_none _)

/-- The additions are those of broadcasting exactly when everything fits. -/
theorem broadcastAdd_eq_visits_iff (h1 : input1Shape.length ≤ kMaxBroadcastDim)
    (h2 : input2Shape.length ≤ kMaxBroadcastDim)
    (hcompatible : ∀ a ∈ axesOf input1Shape input2Shape, a.Compatible) {dims : BroadcastDims}
    (hdims : reduceDimensionsForBroadcast input1Shape input2Shape = some dims)
    {innermost : StrideLevel → AddState → AddState}
    (hinnermost : innermost = addPlain ∨ innermost = addQuantizedElements) :
    dims.numCompressedDims ≤ kMaxBroadcastDim ∧
      (broadcastAdd innermost dims = visits (axesOf input1Shape input2Shape) ⟨0, 0, 0⟩ ↔
        CompressionFits (axesOf input1Shape input2Shape)) := by
  have hpos : 0 < outputSize (axesOf input1Shape input2Shape) := by
    refine Nat.pos_of_ne_zero fun hzero => ?_
    rw [(reduceDimensionsForBroadcast_eq_none hcompatible).2 hzero] at hdims
    cases hdims
  unfold reduceDimensionsForBroadcast at hdims
  split at hdims
  · cases hdims
  · rename_i s hs
    obtain ⟨hlength, hpadded⟩ := compressShapes_padded h1 h2 hcompatible hs
    rw [← Option.some.inj hdims, hpadded, broadcastAdd_levels hinnermost,
      map_compressedRun hcompatible]
    refine ⟨max_le hlength (by decide), ?_⟩
    generalize axesOf input1Shape input2Shape = axes at *
    have haxes := mergeAxes_runsOf hcompatible hpos
    have hkind : ∀ run ∈ runsOf axes, OneKind run := fun run => oneKind_runsOf hcompatible
    have hsize : outputSize ((runsOf axes).map mergeAxes) = outputSize axes := by
      have hvisits := congrArg List.length (visits_runsOf hcompatible ⟨0, 0, 0⟩)
      unfold visits at hvisits
      rwa [length_map, length_map, length_range, length_range] at hvisits
    have hlevels := @strideLevels_eq_iff _ haxes 1 1
    have hvisits := @stridedVisits_eq_visits_iff _ (2 ^ 64) (by decide)
        (strideLevels (((runsOf axes).map mergeAxes).map compressedAxis) 1 1)
        (by rw [map_extent_strideLevels, map_map]; rfl) (strideLevels_lt _ _ _) haxes
    rw [visits_runsOf hcompatible, hsize] at hvisits
    rw [Nat.one_mul, hsize] at hlevels
    have hruns : (∀ a ∈ (runsOf axes).map mergeAxes, a.extent < 2 ^ 64) ↔
        ∀ run ∈ runsOf axes, outputSize run < 2 ^ 64 := by
      rw [forall_mem_map]
      exact forall₂_congr fun run hrun => by rw [outputSize_merge (hkind run hrun)]
    rw [hvisits]
    constructor
    · rintro ⟨houtput, heq⟩
      obtain ⟨hextents, hstrides⟩ := (hlevels houtput houtput).1 heq
      exact ⟨houtput, hruns.1 hextents, hstrides⟩
    · intro h
      exact ⟨h.output, (hlevels h.output h.output).2 ⟨hruns.2 h.runs, h.strides⟩⟩

end

/-- Compressing the dimensions is exact for an empty output and where all sizes fit. -/
theorem compression_exact_iff (input1Shape input2Shape : RuntimeShape)
    (h1 : input1Shape.length ≤ kMaxBroadcastDim) (h2 : input2Shape.length ≤ kMaxBroadcastDim)
    (hcompatible : ∀ a ∈ axesOf input1Shape input2Shape, a.Compatible) :
    CompressionExact input1Shape input2Shape ↔
      (0 < outputSize (axesOf input1Shape input2Shape) →
        CompressionFits (axesOf input1Shape input2Shape)) := by
  have hnone := reduceDimensionsForBroadcast_eq_none hcompatible
  constructor
  · intro h hpos
    cases hdims : reduceDimensionsForBroadcast input1Shape input2Shape with
    | none => exact absurd (hnone.1 hdims) hpos.ne'
    | some dims =>
      exact (broadcastAdd_eq_visits_iff h1 h2 hcompatible hdims (.inl rfl)).2.1 (h.plain dims hdims)
  · intro h
    have hfits : ∀ dims, reduceDimensionsForBroadcast input1Shape input2Shape = some dims →
        CompressionFits (axesOf input1Shape input2Shape) := fun dims hdims =>
      h (Nat.pos_of_ne_zero fun hzero => by
        rw [hnone.2 hzero] at hdims
        cases hdims)
    exact {
      empty := hnone
      dims := fun dims hdims =>
        (broadcastAdd_eq_visits_iff h1 h2 hcompatible hdims (.inl rfl)).1
      plain := fun dims hdims =>
        (broadcastAdd_eq_visits_iff h1 h2 hcompatible hdims (.inl rfl)).2.2 (hfits dims hdims)
      quantized := fun dims hdims =>
        (broadcastAdd_eq_visits_iff h1 h2 hcompatible hdims (.inr rfl)).2.2 (hfits dims hdims) }

/-- A row along a column of rows. -/
theorem compression_exact_column : CompressionExact [2, 3] [3] ↔
    (0 < outputSize (axesOf [2, 3] [3]) → CompressionFits (axesOf [2, 3] [3])) :=
  compression_exact_iff [2, 3] [3] (by decide) (by decide) (by decide)

/-- Rows of 2^31 elements: the stride from one to the next is not an `int`. -/
theorem compression_overflows :
    (∀ a ∈ axesOf [2, 65536, 32768] [65536, 32768], a.Compatible) ∧
      ¬CompressionExact [2, 65536, 32768] [65536, 32768] := by
  have hcompatible : ∀ a ∈ axesOf [2, 65536, 32768] [65536, 32768], a.Compatible := by decide
  refine ⟨hcompatible, fun h => ?_⟩
  have hstrides : ¬StridesFit 1 1 ((runsOf (axesOf [2, 65536, 32768] [65536, 32768])).map
      mergeAxes) := by decide
  have hpos : outputSize (axesOf [2, 65536, 32768] [65536, 32768]) ≠ 0 := by decide
  cases hdims : reduceDimensionsForBroadcast [2, 65536, 32768] [65536, 32768] with
  | none => exact hpos ((reduceDimensionsForBroadcast_eq_none hcompatible).1 hdims)
  | some dims =>
    have hfits := (broadcastAdd_eq_visits_iff (by decide) (by decide) hcompatible hdims
      (.inl rfl)).2.1 (h.plain dims hdims)
    exact hstrides hfits.strides

end LiteRt.Kernels
