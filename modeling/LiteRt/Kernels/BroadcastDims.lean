import LiteRt.Kernels.BroadcastShapes
import LiteRt.Lib.AxisRuns
import LiteRt.Lib.Strides

/-!
# Compressing the dimensions of a broadcast

`ReduceDimensionsForBroadcast` merges adjacent dimensions of two shapes, from the right, as long
as the same input is broadcast along them. Sizes have type `size_t`, strides pass through `int`.
-/

namespace LiteRt.Kernels

open LiteRt.Lib Axis List

def kMaxBroadcastDim : Nat := 6

/-- A number of type `size_t`. -/
def size64 (n : Nat) : Nat := n % 2 ^ 64

/-- An `int` as a number of type `size_t`. -/
def toSize (n : Int) : Nat := (n % 2 ^ 64).toNat

/-! ## The loops over the shapes -/

/-- The entries of the three compressed shapes at one index. -/
structure CompressedDim where
  input1 : Nat
  input2 : Nat
  output : Nat
  deriving DecidableEq, Repr

/-- The variables of the loops. Of the compressed shapes there are the first `num_compressed_dims`
entries, the last one in front. -/
structure Compression where
  dims : List CompressedDim
  broadcastInput1 : Bool
  broadcastInput2 : Bool
  firstNonunit : Bool
  deriving DecidableEq, Repr

/-- `num_compressed_dims++`. -/
def Compression.push (s : Compression) : Compression := { s with dims := ⟨1, 1, 1⟩ :: s.dims }

/-- Multiplies the entries at `num_compressed_dims - 1`. -/
def Compression.scale (s : Compression) (input1 input2 output : Nat) : Compression :=
  { s with dims := match s.dims with
    | [] => []
    | d :: dims => ⟨size64 (d.input1 * input1), size64 (d.input2 * input2),
        size64 (d.output * output)⟩ :: dims }

/-- A round of the loop over the common dimensions. -/
def compressDim (s : Compression) (input1Dim input2Dim : Nat) : Compression :=
  if input1Dim = 1 ∧ input2Dim = 1 then s
  else if input1Dim = 1 then
    let s := if s.broadcastInput1 then s
      else { s.push with broadcastInput1 := true, broadcastInput2 := false }
    { s.scale 1 input2Dim input2Dim with firstNonunit := false }
  else if input2Dim = 1 then
    let s := if s.broadcastInput2 then s
      else { s.push with broadcastInput1 := false, broadcastInput2 := true }
    { s.scale input1Dim 1 input1Dim with firstNonunit := false }
  else
    let s := if s.broadcastInput1 || s.broadcastInput2 || s.firstNonunit then
      { s.push with broadcastInput1 := false, broadcastInput2 := false } else s
    { s.scale input1Dim input1Dim input1Dim with firstNonunit := false }

def compressCommon : List Axis → Compression → Option Compression
  | [], s => some s
  | a :: axes, s =>
    if a.first = 0 ∨ a.second = 0 then none
    else compressCommon axes (compressDim s a.first a.second)

/-- The loop over the dimensions that only one shape has. -/
def compressLeading (scale : Compression → Nat → Compression) :
    List Nat → Compression → Option Compression
  | [], s => some s
  | dim :: dims, s => if dim = 0 then none else compressLeading scale dims (scale s dim)

def compressShapes (input1Shape input2Shape : RuntimeShape) : Option Compression :=
  match compressCommon (List.zipWith mk input1Shape.reverse input2Shape.reverse)
      ⟨[], false, false, true⟩ with
  | none => none
  | some s =>
    if input2Shape.length < input1Shape.length then
      compressLeading (fun s dim => s.scale dim 1 dim)
        (input1Shape.take (input1Shape.length - input2Shape.length))
        (if s.broadcastInput2 then s else s.push)
    else if input1Shape.length < input2Shape.length then
      compressLeading (fun s dim => s.scale 1 dim dim)
        (input2Shape.take (input2Shape.length - input1Shape.length))
        (if s.broadcastInput1 then s else s.push)
    else some s

/-! ## The strides -/

/-- The strides and the output shape at one index, from the two loops over the compressed
shapes. -/
def strideLevels : List CompressedDim → Int → Int → List StrideLevel
  | [], _, _ => []
  | d :: dims, input1Stride, input2Stride =>
    { extent := d.output
      first := if d.input1 ≠ d.input2 ∧ d.input1 = 1 then 0 else toSize input1Stride
      second := if d.input1 ≠ d.input2 ∧ d.input1 ≠ 1 then 0 else toSize input2Stride } ::
      strideLevels dims (int32 (input1Stride * d.input1)) (int32 (input2Stride * d.input2))

/-- The shapes with ones up to the maximal number of dimensions. -/
def padded (dims : List CompressedDim) : List CompressedDim :=
  dims ++ List.replicate (kMaxBroadcastDim - dims.length) ⟨1, 1, 1⟩

structure BroadcastDims where
  numCompressedDims : Nat
  /-- For each dimension, innermost first. -/
  levels : List StrideLevel
  deriving DecidableEq, Repr

/-- `none` stands for the result `false`. -/
def reduceDimensionsForBroadcast (input1Shape input2Shape : RuntimeShape) :
    Option BroadcastDims :=
  match compressShapes input1Shape input2Shape with
  | none => none
  | some s =>
    some ⟨max s.dims.length 1, strideLevels (padded s.dims.reverse) 1 1⟩

/-! ## What the loops compute -/

def compressedRun (run : List Axis) : CompressedDim :=
  ⟨size64 (inputSize first run), size64 (inputSize second run), size64 (outputSize run)⟩

theorem compressedRun_nil : compressedRun [] = ⟨1, 1, 1⟩ := rfl

/-- The compressed shapes, and which input the last dimension with several elements broadcasts. -/
structure Compression.Describes (s : Compression) (axes : List Axis) : Prop where
  dims : s.dims.reverse = (runsOf axes).map compressedRun
  broadcastInput1 : s.broadcastInput1 = decide (lastStretch axes = some .first)
  broadcastInput2 : s.broadcastInput2 = decide (lastStretch axes = some .second)
  firstNonunit : s.firstNonunit = decide (lastStretch axes = none)

section
variable {s : Compression} {axes : List Axis} {runs : List (List Axis)} {run : List Axis} {a : Axis}

theorem size64_mul (n m : Nat) : size64 (size64 n * m) = size64 (n * m) := by
  unfold size64
  exact Nat.mod_mul_mod n m (2 ^ 64)

/-- The last entries after an axis of their kind. -/
theorem Compression.scale_dims (h : s.dims.reverse = runs.map compressedRun ++ [compressedRun run]) :
    (s.scale a.first a.second a.extent).dims.reverse =
      runs.map compressedRun ++ [compressedRun (run ++ [a])] := by
  have hdims : s.dims = compressedRun run :: (runs.map compressedRun).reverse := by
    rw [← reverse_reverse s.dims, h, reverse_append]
    rfl
  have hrun : compressedRun (run ++ [a]) =
      ⟨size64 ((compressedRun run).input1 * a.first), size64 ((compressedRun run).input2 * a.second),
        size64 ((compressedRun run).output * a.extent)⟩ := by
    unfold compressedRun
    dsimp only
    rw [size64_mul, size64_mul, size64_mul, inputSize_append, inputSize_append, outputSize_append]
    simp
  unfold Compression.scale
  rw [hdims, hrun]
  simp

theorem Compression.push_dims (h : s.dims.reverse = runs.map compressedRun) :
    s.push.dims.reverse = runs.map compressedRun ++ [compressedRun []] := by
  unfold Compression.push
  rw [reverse_cons, h, compressedRun_nil]

/-- The entries that an axis is multiplied to. -/
theorem Compression.Describes.next (h : s.Describes axes) (ha : a.extent ≠ 1) :
    ∃ runs run, runsOf (axes ++ [a]) = runs ++ [run ++ [a]] ∧
      (if lastStretch axes = some a.stretch then s else s.push).dims.reverse =
        runs.map compressedRun ++ [compressedRun run] := by
  split
  · rename_i hsame
    obtain ⟨runs, run, hruns, hnext⟩ := runsOf_concat_same ha hsame
    refine ⟨runs, run, hnext, ?_⟩
    rw [h.dims, hruns, map_append]
    rfl
  · rename_i hnew
    exact ⟨runsOf axes, [], runsOf_concat_new ha hnew, Compression.push_dims h.dims⟩

theorem Compression.Describes.concat (h : s.Describes axes) (ha : a.extent ≠ 1) {s' : Compression}
    (hdims : s'.dims =
      ((if lastStretch axes = some a.stretch then s else s.push).scale a.first a.second
        a.extent).dims)
    (h1 : s'.broadcastInput1 = decide (a.stretch = .first))
    (h2 : s'.broadcastInput2 = decide (a.stretch = .second)) (hunit : s'.firstNonunit = false) :
    s'.Describes (axes ++ [a]) := by
  obtain ⟨runs, run, hruns, hopen⟩ := h.next ha
  refine ⟨?_, ?_, ?_, ?_⟩
  · rw [hdims, Compression.scale_dims hopen, hruns, map_append]
    rfl
  · rw [h1, lastStretch_concat ha]
    simp
  · rw [h2, lastStretch_concat ha]
    simp
  · rw [hunit, lastStretch_concat ha]
    simp

theorem Compression.Describes.compressDim (h : s.Describes axes) (ha : a.Compatible) :
    (compressDim s a.first a.second).Describes (axes ++ [a]) := by
  unfold Kernels.compressDim
  split
  · rename_i hunit
    have hextent := extent_eq_one.2 hunit
    refine ⟨?_, ?_, ?_, ?_⟩
    · rw [runsOf_concat_unit hextent, h.dims]
    · rw [lastStretch_concat_unit hextent, h.broadcastInput1]
    · rw [lastStretch_concat_unit hextent, h.broadcastInput2]
    · rw [lastStretch_concat_unit hextent, h.firstNonunit]
  · rename_i hunit
    have hextent : a.extent ≠ 1 := fun h => hunit (extent_eq_one.1 h)
    split
    · rename_i hfirst
      have hstretch := stretch_of_first hfirst fun hsecond => hunit ⟨hfirst, hsecond⟩
      refine h.concat hextent ?_ ?_ ?_ rfl
      · rw [h.broadcastInput1, hstretch, hfirst, extent_of_first hfirst]
        by_cases hlast : lastStretch axes = some .first <;> simp [hlast, Compression.scale]
      · rw [hstretch]
        by_cases hlast : s.broadcastInput1 <;> simp [hlast, Compression.scale]
      · rw [hstretch, h.broadcastInput1]
        by_cases hlast : lastStretch axes = some .first
        · simp [hlast, Compression.scale, h.broadcastInput2]
        · simp [hlast, Compression.scale]
    · rename_i hfirst
      split
      · rename_i hsecond
        have hstretch := stretch_of_second hfirst hsecond
        refine h.concat hextent ?_ ?_ ?_ rfl
        · rw [h.broadcastInput2, hstretch, hsecond, extent_of_second hsecond]
          by_cases hlast : lastStretch axes = some .second <;> simp [hlast, Compression.scale]
        · rw [hstretch, h.broadcastInput2]
          by_cases hlast : lastStretch axes = some .second
          · simp [hlast, Compression.scale, h.broadcastInput1]
          · simp [hlast, Compression.scale]
        · rw [hstretch]
          by_cases hlast : s.broadcastInput2 <;> simp [hlast, Compression.scale]
      · rename_i hsecond
        have heq := (ha.resolve_right fun h => h.elim hfirst hsecond)
        have hstretch := stretch_eq_neither.2 heq
        have hstart : (s.broadcastInput1 || s.broadcastInput2 || s.firstNonunit) =
            decide (lastStretch axes ≠ some .neither) := by
          rw [h.broadcastInput1, h.broadcastInput2, h.firstNonunit]
          cases lastStretch axes with
          | none => rfl
          | some stretch => cases stretch <;> rfl
        refine h.concat hextent ?_ ?_ ?_ rfl
        · rw [hstart, hstretch, ← heq, extent_of_eq heq]
          by_cases hlast : lastStretch axes = some .neither <;> simp [hlast, Compression.scale]
        · rw [hstart, hstretch]
          by_cases hlast : lastStretch axes = some .neither
          · simp [hlast, Compression.scale, h.broadcastInput1]
          · simp [hlast, Compression.scale]
        · rw [hstart, hstretch]
          by_cases hlast : lastStretch axes = some .neither
          · simp [hlast, Compression.scale, h.broadcastInput2]
          · simp [hlast, Compression.scale]

theorem compressCommon_describes {rest : List Axis} (h : s.Describes axes)
    (hcompatible : ∀ a ∈ rest, a.Compatible) {s' : Compression}
    (hs' : compressCommon rest s = some s') : s'.Describes (axes ++ rest) := by
  induction rest generalizing s axes with
  | nil =>
    unfold compressCommon at hs'
    rw [append_nil, ← Option.some.inj hs']
    exact h
  | cons a rest ih =>
    unfold compressCommon at hs'
    split at hs'
    · cases hs'
    · rw [forall_mem_cons] at hcompatible
      have hnext := ih (h.compressDim hcompatible.1) hcompatible.2 hs'
      rwa [append_assoc] at hnext

theorem compressCommon_eq_none {rest : List Axis} :
    compressCommon rest s = none ↔ ∃ a ∈ rest, a.first = 0 ∨ a.second = 0 := by
  induction rest generalizing s with
  | nil => simp [compressCommon]
  | cons a rest ih =>
    unfold compressCommon
    split
    · rename_i hzero
      exact ⟨fun _ => ⟨a, mem_cons_self, hzero⟩, fun _ => rfl⟩
    · rename_i hzero
      rw [ih]
      simp [hzero]

/-! ### The dimensions of one shape only -/

theorem compressLeading_eq_none {scale : Compression → Nat → Compression} {dims : List Nat} :
    compressLeading scale dims s = none ↔ 0 ∈ dims := by
  induction dims generalizing s with
  | nil => simp [compressLeading]
  | cons dim dims ih =>
    unfold compressLeading
    split
    · rename_i hzero
      simp [hzero]
    · rename_i hzero
      rw [ih, mem_cons]
      exact ⟨.inr, fun h => h.resolve_left fun h => hzero h.symm⟩

/-- They all are multiplied to the last entries. -/
theorem compressLeading_dims {axis : Nat → Axis} {scale : Compression → Nat → Compression}
    (hscale : ∀ s dim, scale s dim = s.scale (axis dim).first (axis dim).second (axis dim).extent)
    {dims : List Nat} (h : s.dims.reverse = runs.map compressedRun ++ [compressedRun run])
    {s' : Compression} (hs' : compressLeading scale dims s = some s') :
    s'.dims.reverse = runs.map compressedRun ++ [compressedRun (run ++ dims.map axis)] := by
  induction dims generalizing s run with
  | nil =>
    unfold compressLeading at hs'
    rw [map_nil, append_nil, ← Option.some.inj hs']
    exact h
  | cons dim dims ih =>
    unfold compressLeading at hs'
    split at hs'
    · cases hs'
    · rw [hscale] at hs'
      have hnext := ih (Compression.scale_dims h) hs'
      rwa [append_assoc] at hnext

/-- Axes of one kind after those that are there. -/
theorem runsOf_append_same {stretch : Stretch} {rest : List Axis}
    (hrest : ∀ a ∈ rest, a.extent ≠ 1 → a.stretch = stretch)
    (hopen : if lastStretch axes = some stretch then runsOf axes = runs ++ [run]
      else runsOf axes = runs ∧ run = []) :
    (rest.filter fun a => a.extent ≠ 1) = [] ∧ runsOf (axes ++ rest) = runsOf axes ∧
        lastStretch (axes ++ rest) = lastStretch axes ∨
      lastStretch (axes ++ rest) = some stretch ∧
        runsOf (axes ++ rest) = runs ++ [run ++ rest.filter fun a => a.extent ≠ 1] := by
  induction rest using List.reverseRecOn with
  | nil =>
    rw [append_nil]
    exact .inl ⟨rfl, rfl, rfl⟩
  | append_singleton rest a ih =>
    rw [← append_assoc]
    have hrec := ih fun b hb => hrest b (mem_append_left _ hb)
    by_cases ha : a.extent = 1
    · have hfilter : ((rest ++ [a]).filter fun a => a.extent ≠ 1) =
          rest.filter fun a => a.extent ≠ 1 := by
        rw [filter_append, filter_cons_of_neg (by simp [ha]), filter_nil, append_nil]
      rw [hfilter, runsOf_concat_unit ha, lastStretch_concat_unit ha]
      exact hrec
    · have hstretch : a.stretch = stretch := hrest a (mem_append_right _ mem_cons_self) ha
      rw [filter_concat ha, lastStretch_concat ha, hstretch]
      refine .inr ⟨rfl, ?_⟩
      obtain ⟨hnil, hruns, hlast⟩ | ⟨hlast, hruns⟩ := hrec
      · rw [hnil, nil_append]
        split at hopen
        · rename_i hsame
          rw [← hstretch] at hsame
          obtain ⟨runs', run', hruns', hnext⟩ :=
            @runsOf_concat_same (axes ++ rest) _ ha (hlast.trans hsame)
          rw [hruns, hopen] at hruns'
          obtain ⟨rfl, hrun⟩ := append_inj' hruns' rfl
          rw [hnext, singleton_inj.1 hrun]
        · rename_i hnew
          rw [← hstretch, ← hlast] at hnew
          rw [runsOf_concat_new ha hnew, hruns, hopen.1, hopen.2, nil_append]
      · obtain ⟨runs', run', hruns', hnext⟩ :=
          @runsOf_concat_same (axes ++ rest) _ ha (hlast.trans (congrArg some hstretch.symm))
        rw [hruns] at hruns'
        obtain ⟨rfl, hrun⟩ := append_inj' hruns' rfl
        rw [hnext, ← singleton_inj.1 hrun, append_assoc]

theorem compressedRun_filter (rest : List Axis) :
    compressedRun (run ++ rest.filter fun a => a.extent ≠ 1) = compressedRun (run ++ rest) := by
  have hsize : ∀ side : Axis → Nat, (∀ a : Axis, a.extent = 1 → side a = 1) →
      ((rest.filter fun a => a.extent ≠ 1).map side).prod = (rest.map side).prod := by
    intro side hside
    induction rest with
    | nil => rfl
    | cons a rest ih =>
      by_cases ha : a.extent = 1
      · rw [filter_cons_of_neg (by simp [ha]), ih, map_cons, prod_cons, hside a ha, Nat.one_mul]
      · rw [filter_cons_of_pos (by simp [ha]), map_cons, prod_cons, ih, map_cons, prod_cons]
  have hfirst := hsize first fun a ha => (extent_eq_one.1 ha).1
  have hsecond := hsize second fun a ha => (extent_eq_one.1 ha).2
  have houtput := hsize extent fun a ha => ha
  unfold compressedRun
  rw [inputSize_append, inputSize_append, outputSize_append, inputSize_append, inputSize_append,
    outputSize_append]
  unfold inputSize outputSize
  rw [hfirst, hsecond, houtput]

theorem compressedRun_perm {xs ys : List Axis} (h : xs.Perm ys) :
    compressedRun (run ++ xs) = compressedRun (run ++ ys) := by
  unfold compressedRun inputSize outputSize
  rw [((h.append_left run).map first).prod_eq, ((h.append_left run).map second).prod_eq,
    ((h.append_left run).map extent).prod_eq]

theorem padded_unit {dims : List CompressedDim} (h : dims.length < kMaxBroadcastDim) :
    padded (dims ++ [⟨1, 1, 1⟩]) = padded dims := by
  have hlength : kMaxBroadcastDim - dims.length =
      kMaxBroadcastDim - (dims ++ [(⟨1, 1, 1⟩ : CompressedDim)]).length + 1 := by
    rw [length_append, length_singleton]
    omega
  unfold padded
  rw [hlength, replicate_succ, append_assoc]
  rfl

theorem length_runsOf (axes : List Axis) : (runsOf axes).length ≤ axes.length := by
  have hflatten : (runsOf axes).length ≤ (runsOf axes).flatten.length := by
    have hne : ∀ run ∈ runsOf axes, run ≠ [] := fun _ => ne_nil_of_mem_runsOf
    generalize runsOf axes = runs at hne
    induction runs with
    | nil => exact Nat.le_refl 0
    | cons run runs ih =>
      rw [forall_mem_cons] at hne
      have hrun := length_pos_of_ne_nil hne.1
      have hruns := ih hne.2
      rw [flatten_cons, length_append, length_cons]
      omega
  rw [flatten_runsOf] at hflatten
  exact hflatten.trans (length_filter_le _ _)

/-- The compressed shapes after the dimensions of one shape. -/
theorem compressLeading_padded {stretch : Stretch} {axis : Nat → Axis}
    {scale : Compression → Nat → Compression}
    (hscale : ∀ s dim, scale s dim = s.scale (axis dim).first (axis dim).second (axis dim).extent)
    (haxis : ∀ dim, (axis dim).extent ≠ 1 → (axis dim).stretch = stretch)
    (h : s.Describes axes) {dims : List Nat} (hdims : dims ≠ [])
    (hlength : axes.length + dims.length ≤ kMaxBroadcastDim) {s' : Compression}
    (hs' : compressLeading scale dims (if lastStretch axes = some stretch then s else s.push) =
      some s') :
    s'.dims.length ≤ kMaxBroadcastDim ∧ padded s'.dims.reverse =
        padded ((runsOf (axes ++ dims.reverse.map axis)).map compressedRun) := by
  have hpos := length_pos_of_ne_nil hdims
  have hruns := length_runsOf axes
  obtain ⟨runs, run, hopen, hstart⟩ : ∃ runs run,
      (if lastStretch axes = some stretch then runsOf axes = runs ++ [run]
        else runsOf axes = runs ∧ run = []) ∧
      (if lastStretch axes = some stretch then s else s.push).dims.reverse =
        runs.map compressedRun ++ [compressedRun run] := by
    split
    · rename_i hsame
      have hne : runsOf axes ≠ [] := by
        unfold runsOf
        rw [Ne, splitBy_eq_nil]
        intro hnil
        unfold lastStretch at hsame
        rw [hnil] at hsame
        cases hsame
      refine ⟨(runsOf axes).dropLast, (runsOf axes).getLast hne,
        (dropLast_append_getLast hne).symm, ?_⟩
      conv_lhs => rw [h.dims, ← dropLast_append_getLast hne, map_append]
      rfl
    · exact ⟨runsOf axes, [], ⟨rfl, rfl⟩, Compression.push_dims h.dims⟩
  have hrunsLength : runs.length ≤ axes.length := by
    split at hopen
    · rw [hopen, length_append] at hruns
      omega
    · rwa [hopen.1] at hruns
  have hfinal := compressLeading_dims hscale hstart hs'
  have hperm : compressedRun (run ++ dims.map axis) =
      compressedRun (run ++ dims.reverse.map axis) :=
    compressedRun_perm ((reverse_perm dims).symm.map axis)
  refine ⟨?_, ?_⟩
  · have hlen := congrArg List.length hfinal
    rw [length_reverse, length_append, length_map, length_singleton] at hlen
    omega
  · rw [hfinal, hperm, ← compressedRun_filter]
    have hrest : ∀ a ∈ dims.reverse.map axis, a.extent ≠ 1 → a.stretch = stretch := by
      intro a ha hne
      obtain ⟨dim, -, rfl⟩ := mem_map.1 ha
      exact haxis dim hne
    obtain ⟨hnil, hsame, -⟩ | ⟨-, hnext⟩ := runsOf_append_same hrest hopen
    · rw [hnil, hsame, append_nil]
      split at hopen
      · rw [hopen, map_append]
        rfl
      · rw [hopen.1, hopen.2, compressedRun_nil]
        refine padded_unit ?_
        rw [length_map]
        omega
    · rw [hnext, map_append]
      rfl

end

/-! ### The whole function -/

theorem zipWith_replicate (xs ys : List Nat) :
    List.zipWith mk (xs ++ List.replicate (max xs.length ys.length - xs.length) 1)
        (ys ++ List.replicate (max xs.length ys.length - ys.length) 1) =
      List.zipWith mk xs ys ++ (xs.drop ys.length).map (mk · 1) ++
        (ys.drop xs.length).map (mk 1) := by
  induction xs generalizing ys with
  | nil =>
    induction ys with
    | nil => rfl
    | cons y ys ih =>
      simp only [length_nil, length_cons, Nat.zero_max, Nat.sub_zero, Nat.sub_self,
        nil_append, replicate_succ, replicate_zero, append_nil,
        zipWith_cons_cons, zipWith_nil_left, drop_nil, map_nil,
        drop_zero, map_cons, List.cons.injEq, true_and] at ih ⊢
      exact ih
  | cons x xs ih =>
    cases ys with
    | nil =>
      clear ih
      induction xs with
      | nil => rfl
      | cons x' xs ih =>
        simp only [length_nil, length_cons, Nat.max_zero, Nat.sub_zero, Nat.sub_self,
          nil_append, replicate_succ, replicate_zero, append_nil,
          zipWith_cons_cons, zipWith_nil_right, drop_nil, map_nil,
          drop_zero, map_cons, List.cons.injEq, true_and] at ih ⊢
        exact ih
    | cons y ys =>
      have hmax : max (x :: xs).length (y :: ys).length = max xs.length ys.length + 1 :=
        Nat.succ_max_succ _ _
      have hrec := ih ys
      rw [hmax, length_cons, length_cons, Nat.add_sub_add_right, Nat.add_sub_add_right,
        cons_append, cons_append, zipWith_cons_cons, hrec, zipWith_cons_cons,
        drop_succ_cons, drop_succ_cons, cons_append, cons_append]

/-- The common axes and those of the longer shape. -/
theorem axesOf_eq (shape0 shape1 : RuntimeShape) : axesOf shape0 shape1 =
    List.zipWith mk shape0.reverse shape1.reverse ++
      (shape0.take (shape0.length - shape1.length)).reverse.map (mk · 1) ++
      (shape1.take (shape1.length - shape0.length)).reverse.map (mk 1) := by
  have hzip := zipWith_replicate shape0.reverse shape1.reverse
  rw [length_reverse, length_reverse, drop_reverse, drop_reverse] at hzip
  unfold axesOf extendedShape
  dsimp only
  rw [reverse_zipWith (by simp only [length_append, length_replicate]; omega),
    reverse_append, reverse_append, reverse_replicate, reverse_replicate, hzip]

theorem describes_nil : Compression.Describes ⟨[], false, false, true⟩ [] := ⟨rfl, rfl, rfl, rfl⟩

/-- The result is `false` for an empty output only. -/
theorem compressShapes_eq_none {shape0 shape1 : RuntimeShape}
    (hcompatible : ∀ a ∈ axesOf shape0 shape1, a.Compatible) :
    compressShapes shape0 shape1 = none ↔ outputSize (axesOf shape0 shape1) = 0 := by
  have hempty : ∀ a ∈ axesOf shape0 shape1, (a.first = 0 ∨ a.second = 0) ↔ a.extent = 0 := by
    intro a ha
    obtain h | h | h := hcompatible a ha
    · rw [extent_of_eq h, h, or_self]
    · rw [extent_of_first h, h]
      simp
    · rw [extent_of_second h, h]
      simp
  have hsize : outputSize (axesOf shape0 shape1) = 0 ↔
      ∃ a ∈ axesOf shape0 shape1, a.first = 0 ∨ a.second = 0 := by
    rw [← Nat.le_zero, ← Nat.not_lt, outputSize_pos_iff]
    constructor
    · intro h
      by_contra hnone
      refine h fun a ha => Nat.pos_of_ne_zero fun hzero => hnone ⟨a, ha, (hempty a ha).2 hzero⟩
    · rintro ⟨a, ha, hzero⟩ h
      exact absurd ((hempty a ha).1 hzero) (h a ha).ne'
  rw [hsize, axesOf_eq]
  unfold compressShapes
  split
  · rename_i hnone
    obtain ⟨a, ha, hzero⟩ := compressCommon_eq_none.1 hnone
    exact iff_of_true rfl ⟨a, mem_append_left _ (mem_append_left _ ha), hzero⟩
  · rename_i s hs
    have hcommon : ¬∃ a ∈ List.zipWith mk shape0.reverse shape1.reverse,
        a.first = 0 ∨ a.second = 0 := by
      rw [← compressCommon_eq_none (s := ⟨[], false, false, true⟩), hs]
      exact Option.some_ne_none s
    have hrest : (∃ a ∈ List.zipWith mk shape0.reverse shape1.reverse ++
          (shape0.take (shape0.length - shape1.length)).reverse.map (mk · 1) ++
          (shape1.take (shape1.length - shape0.length)).reverse.map (mk 1),
          a.first = 0 ∨ a.second = 0) ↔
        0 ∈ shape0.take (shape0.length - shape1.length) ∨
          0 ∈ shape1.take (shape1.length - shape0.length) := by
      constructor
      · rintro ⟨a, ha, hzero⟩
        obtain ha | ha := mem_append.1 ha
        · obtain ha | ha := mem_append.1 ha
          · exact absurd ⟨a, ha, hzero⟩ hcommon
          · obtain ⟨dim, hdim, rfl⟩ := mem_map.1 ha
            obtain rfl : dim = 0 := hzero.resolve_right one_ne_zero
            exact .inl (mem_reverse.1 hdim)
        · obtain ⟨dim, hdim, rfl⟩ := mem_map.1 ha
          obtain rfl : dim = 0 := hzero.resolve_left one_ne_zero
          exact .inr (mem_reverse.1 hdim)
      · rintro (h | h)
        · exact ⟨⟨0, 1⟩, mem_append_left _ (mem_append_right _
            (mem_map_of_mem (f := (mk · 1)) (mem_reverse.2 h))), .inl rfl⟩
        · exact ⟨⟨1, 0⟩, mem_append_right _ (mem_map_of_mem (mem_reverse.2 h)), .inr rfl⟩
    rw [hrest]
    split
    · rename_i hlt
      rw [compressLeading_eq_none, Nat.sub_eq_zero_of_le hlt.le]
      simp
    · rename_i hle
      split
      · rename_i hlt
        rw [compressLeading_eq_none, Nat.sub_eq_zero_of_le hlt.le]
        simp
      · rename_i hge
        rw [Nat.sub_eq_zero_of_le (Nat.le_of_not_lt hle),
          Nat.sub_eq_zero_of_le (Nat.le_of_not_lt hge)]
        simp

theorem compressShapes_padded {shape0 shape1 : RuntimeShape}
    (h0 : shape0.length ≤ kMaxBroadcastDim) (h1 : shape1.length ≤ kMaxBroadcastDim)
    (hcompatible : ∀ a ∈ axesOf shape0 shape1, a.Compatible) {s : Compression}
    (hs : compressShapes shape0 shape1 = some s) :
    s.dims.length ≤ kMaxBroadcastDim ∧ padded s.dims.reverse =
      padded ((runsOf (axesOf shape0 shape1)).map compressedRun) := by
  rw [axesOf_eq] at hcompatible ⊢
  unfold compressShapes at hs
  split at hs
  · cases hs
  · rename_i common hcommon
    have hdescribes := compressCommon_describes describes_nil (fun a ha =>
      hcompatible a (mem_append_left _ (mem_append_left _ ha))) hcommon
    rw [nil_append] at hdescribes
    have hlength : (List.zipWith mk shape0.reverse shape1.reverse).length =
        min shape0.length shape1.length := by
      rw [length_zipWith, length_reverse, length_reverse]
    split at hs
    · rename_i hlt
      rw [hdescribes.broadcastInput2] at hs
      simp only [decide_eq_true_eq] at hs
      rw [Nat.sub_eq_zero_of_le hlt.le, take_zero, reverse_nil, map_nil, append_nil]
      refine @compressLeading_padded _ _ .second (mk · 1) _ ?_ ?_ hdescribes _ ?_ ?_ _ hs
      · intro s dim
        rw [extent_of_second rfl]
      · intro dim hne
        refine stretch_of_second (fun hone => hne ?_) rfl
        exact extent_eq_one.2 ⟨hone, rfl⟩
      · intro hnil
        have h := congrArg List.length hnil
        rw [length_take, length_nil] at h
        omega
      · rw [hlength, length_take]
        omega
    · rename_i hle
      rw [Nat.sub_eq_zero_of_le (Nat.le_of_not_lt hle), take_zero, reverse_nil, map_nil, append_nil]
      split at hs
      · rename_i hlt
        rw [hdescribes.broadcastInput1] at hs
        simp only [decide_eq_true_eq] at hs
        refine @compressLeading_padded _ _ .first (mk 1) _ ?_ ?_ hdescribes _ ?_ ?_ _ hs
        · intro s dim
          rw [extent_of_first rfl]
        · intro dim hne
          refine stretch_of_first rfl (fun hone => hne ?_)
          exact extent_eq_one.2 ⟨rfl, hone⟩
        · intro hnil
          have h := congrArg List.length hnil
          rw [length_take, length_nil] at h
          omega
        · rw [hlength, length_take]
          omega
      · rename_i hge
        rw [Nat.sub_eq_zero_of_le (Nat.le_of_not_lt hge), take_zero, reverse_nil,
          map_nil, append_nil, ← Option.some.inj hs]
        have hruns := length_runsOf (List.zipWith mk shape0.reverse shape1.reverse)
        refine ⟨?_, by rw [hdescribes.dims]⟩
        rw [← length_reverse, hdescribes.dims, length_map]
        omega

end LiteRt.Kernels
