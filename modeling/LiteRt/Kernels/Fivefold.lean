import LiteRt.Kernels.BroadcastShapes
import Mathlib.Logic.Function.Iterate

/-!
# The five-fold broadcast kernel

`BroadcastAddFivefold` runs five nested loops over the extents that `ProcessBroadcastShapes` has
found. Writes are recorded in order, with the place in the output.
-/

namespace LiteRt.Kernels

open LiteRt.Lib Axis List

/-! ## Adding two quantized elements -/

/-- `MultiplyByQuantizedMultiplierSmallerThanOneExp`. -/
abbrev Multiply := Int → Int → Int → Int

def scaledInput (multiply : Multiply) (leftShift : Nat) (offset multiplier shift : Int)
    (data : UInt8) : Int :=
  let val := int32 (offset + data.toNat)
  let shifted := int32 (val * 2 ^ leftShift)
  multiply shifted multiplier shift

/-- The sum, scaled to the output and clamped. -/
def quantizedSum (multiply : Multiply) (params : ArithmeticParams)
    (scaledInput1 scaledInput2 : Int) : UInt8 :=
  let rawSum := int32 (scaledInput1 + scaledInput2)
  let rawOutput :=
    int32 (multiply rawSum params.outputMultiplier params.outputShift + params.outputOffset)
  UInt8.ofInt (min params.quantizedActivationMax (max params.quantizedActivationMin rawOutput))

/-- What the body of the innermost loop stores. -/
def addQuantized (multiply : Multiply) (params : ArithmeticParams) (input1 input2 : UInt8) :
    UInt8 :=
  quantizedSum multiply params
    (scaledInput multiply params.leftShift params.input1Offset params.input1Multiplier
      params.input1Shift input1)
    (scaledInput multiply params.leftShift params.input2Offset params.input2Multiplier
      params.input2Shift input2)

/-! ## The loops -/

/-- The pointers as places in the tensors, and what was written. -/
structure Cursor where
  input1 : Nat
  input2 : Nat
  input2Reset : Nat
  output : Nat
  written : List (Nat × UInt8)

/-- The tensors that are read. -/
structure Inputs where
  multiply : Multiply
  params : ArithmeticParams
  input1Data : Nat → UInt8
  input2Data : Nat → UInt8

def addElementwise (t : Inputs) (size : Nat) (c : Cursor) : List (Nat × UInt8) :=
  (List.range size).map fun i => (c.output + i,
    addQuantized t.multiply t.params (t.input1Data (c.input1 + i)) (t.input2Data (c.input2 + i)))

/-- The first input is scaled once. -/
def addScalarBroadcast (t : Inputs) (size : Nat) (c : Cursor) : List (Nat × UInt8) :=
  let scaledInput1 := scaledInput t.multiply t.params.leftShift t.params.input1Offset
    t.params.input1Multiplier t.params.input1Shift (t.input1Data c.input1)
  (List.range size).map fun i => (c.output + i, quantizedSum t.multiply t.params scaledInput1
    (scaledInput t.multiply t.params.leftShift t.params.input2Offset t.params.input2Multiplier
      t.params.input2Shift (t.input2Data (c.input2 + i))))

/-- `for (int i = 0; i < n; ++i)`. -/
def loop {σ : Type} (n : Int) (body : σ → σ) (s : σ) : σ := body^[n.toNat] s

/-- The loops over `y3` and below, for `y4 > 1`. -/
def elementwiseLoop (t : Inputs) (y3 y4 : Int) (c : Cursor) : Cursor :=
  let c := loop y3 (fun c => { c with
    written := c.written ++ addElementwise t y4.toNat c
    input2 := c.input2 + y4.toNat
    output := c.output + y4.toNat }) c
  { c with input1 := c.input1 + y4.toNat }

/-- The same where `y4` is taken to be one. -/
def scalarLoop (t : Inputs) (y3 : Int) (c : Cursor) : Cursor :=
  { c with
    written := c.written ++ addScalarBroadcast t y3.toNat c
    input2 := c.input2 + y3.toNat
    output := c.output + y3.toNat
    input1 := c.input1 + 1 }

/-- The three outer loops; `input2_data_ptr` is declared anew in each outermost round. -/
def outerLoops (y0 y1 y2 : Int) (uninitialized : Nat) (body : Cursor → Cursor) (c : Cursor) :
    Cursor :=
  loop y0 (fun c =>
    let c := { c with input2 := uninitialized }
    let c := loop y1 (fun c =>
      let c := { c with input2 := c.input2Reset }
      loop y2 body c) c
    { c with input2Reset := c.input2 }) c

def fivefoldLoops (t : Inputs) (uninitialized : Nat) : Cursor :=
  let y := t.params.broadcastShape
  outerLoops y.y0 y.y1 y.y2 uninitialized
    (if 1 < y.y4 then elementwiseLoop t y.y3 y.y4 else scalarLoop t y.y3) ⟨0, 0, 0, 0, []⟩

/-- The parameters with those of the inputs swapped. -/
def ArithmeticParams.switched (params : ArithmeticParams) : ArithmeticParams :=
  { params with
    input1Offset := params.input2Offset
    input1Multiplier := params.input2Multiplier
    input1Shift := params.input2Shift
    input2Offset := params.input1Offset
    input2Multiplier := params.input1Multiplier
    input2Shift := params.input1Shift }

/-- What is written, in order. -/
def broadcastAddFivefold (multiply : Multiply) (unswitchedParams : ArithmeticParams)
    (unswitchedInput1Data unswitchedInput2Data : Nat → UInt8) (uninitialized : Nat) :
    List (Nat × UInt8) :=
  let useUnswitched := unswitchedParams.broadcastCategory = .kFirstInputBroadcastsFast
  let t : Inputs :=
    { multiply := multiply
      params := if useUnswitched then unswitchedParams else unswitchedParams.switched
      input1Data := if useUnswitched then unswitchedInput1Data else unswitchedInput2Data
      input2Data := if useUnswitched then unswitchedInput2Data else unswitchedInput1Data }
  (fivefoldLoops t uninitialized).written

/-! ## What the loops write -/

/-- The value for a visit. -/
def Inputs.entry (t : Inputs) (v : Visit) : Nat × UInt8 :=
  (v.output, addQuantized t.multiply t.params (t.input1Data v.first) (t.input2Data v.second))

def Cursor.visit (c : Cursor) : Visit := ⟨c.output, c.input1, c.input2⟩

/-- The cursor after the visits of some axes, with the inputs moved on. -/
structure Advances (t : Inputs) (axes : List Axis) (input1 input2 : Nat) (c c' : Cursor) :
    Prop where
  output : c'.output = c.output + outputSize axes
  input1 : c'.input1 = c.input1 + input1
  input2 : c'.input2 = c.input2 + input2
  input2Reset : c'.input2Reset = c.input2Reset
  written : c'.written = c.written ++ (visits axes c.visit).map t.entry

section
variable {t : Inputs} {axes : List Axis} {input1 input2 : Nat} {body : Cursor → Cursor} {n1 : Nat}

/-- A loop along an axis. -/
theorem Advances.iterate (hbody : ∀ c, Advances t axes input1 input2 c (body c)) {x : Axis}
    (hfirst : x.first = 1 ∧ input1 = 0 ∨ x.first = x.extent ∧ input1 = inputSize first axes)
    (hsecond : x.second = 1 ∧ input2 = 0 ∨ x.second = x.extent ∧ input2 = inputSize second axes)
    (c : Cursor) :
    Advances t (axes ++ [x]) (x.extent * input1) (x.extent * input2) c (body^[x.extent] c) := by
  have hsteps : ∀ m, (body^[m] c).output = c.output + m * outputSize axes ∧
      (body^[m] c).input1 = c.input1 + m * input1 ∧
      (body^[m] c).input2 = c.input2 + m * input2 ∧
      (body^[m] c).input2Reset = c.input2Reset ∧
      (body^[m] c).written = c.written ++ ((List.range m).flatMap fun i =>
        visits axes ⟨c.output + i * outputSize axes, c.input1 + i * input1,
          c.input2 + i * input2⟩).map t.entry := by
    intro m
    induction m with
    | zero => simp
    | succ m ih =>
      obtain ⟨houtput, hinput1, hinput2, hreset, hwritten⟩ := ih
      have hnext := hbody (body^[m] c)
      have hvisit : (body^[m] c).visit = ⟨c.output + m * outputSize axes, c.input1 + m * input1,
          c.input2 + m * input2⟩ := by
        unfold Cursor.visit
        rw [houtput, hinput1, hinput2]
      rw [Function.iterate_succ_apply']
      refine ⟨?_, ?_, ?_, ?_, ?_⟩
      · rw [hnext.output, houtput, Nat.succ_mul, Nat.add_assoc]
      · rw [hnext.input1, hinput1, Nat.succ_mul, Nat.add_assoc]
      · rw [hnext.input2, hinput2, Nat.succ_mul, Nat.add_assoc]
      · rw [hnext.input2Reset, hreset]
      · rw [hnext.written, hwritten, hvisit, range_succ, flatMap_append,
          flatMap_singleton, map_append, append_assoc]
  obtain ⟨houtput, hinput1, hinput2, hreset, hwritten⟩ := hsteps x.extent
  refine ⟨?_, hinput1, hinput2, hreset, ?_⟩
  · rw [houtput, outputSize_append, outputSize_cons, outputSize_nil, Nat.mul_one, Nat.mul_comm]
  · rw [hwritten, visits_outer_steps hfirst hsecond]
    rfl

/-! ### The inner loops -/

theorem visits_cons_nil (x : Axis) (start : Visit) : visits [x] start =
    (List.range x.extent).map fun i => ⟨start.output + i,
      start.first + (if x.first = 1 then 0 else i),
      start.second + (if x.second = 1 then 0 else i)⟩ := by
  unfold visits
  rw [outputSize_cons, outputSize_nil, Nat.mul_one]
  refine map_congr_left fun i hi => ?_
  unfold broadcastIndex broadcastIndex
  rw [Nat.mod_eq_of_lt (mem_range.1 hi), Nat.mul_zero, Nat.mul_zero, Nat.add_zero, Nat.add_zero]

theorem elementwise_advances (y4 : Nat) (c : Cursor) :
    Advances t [⟨y4, y4⟩] 0 y4 c { c with
      written := c.written ++ addElementwise t y4 c
      input2 := c.input2 + y4
      output := c.output + y4 } := by
  have hextent : (⟨y4, y4⟩ : Axis).extent = y4 := extent_of_eq rfl
  refine ⟨?_, rfl, rfl, rfl, ?_⟩
  · rw [outputSize_cons, outputSize_nil, hextent, Nat.mul_one]
  · rw [visits_cons_nil, hextent, map_map]
    refine congrArg _ (map_congr_left fun i hi => ?_)
    have hif : (if y4 = 1 then 0 else i) = i := by
      have hlt := mem_range.1 hi
      split <;> omega
    simp only [Function.comp_apply, hif]
    rfl

/-- The loop over `y3` with the elementwise addition. -/
theorem elementwiseLoop_advances (y3 y4 : Int) (c : Cursor) :
    Advances t [⟨y4.toNat, y4.toNat⟩, ⟨1, y3.toNat⟩]
      (inputSize first [⟨y4.toNat, y4.toNat⟩, ⟨1, y3.toNat⟩])
      (inputSize second [⟨y4.toNat, y4.toNat⟩, ⟨1, y3.toNat⟩]) c
      (elementwiseLoop t y3 y4 c) := by
  have hloop := Advances.iterate (elementwise_advances (t := t) y4.toNat) (x := ⟨1, y3.toNat⟩)
    (.inl ⟨rfl, rfl⟩) (.inr ⟨rfl, (Nat.mul_one _).symm⟩) c
  have hextent : (⟨1, y3.toNat⟩ : Axis).extent = y3.toNat := rfl
  rw [hextent] at hloop
  refine ⟨hloop.output, ?_, ?_, hloop.input2Reset, hloop.written⟩
  · have hinput1 := hloop.input1
    rw [Nat.mul_zero, Nat.add_zero] at hinput1
    rw [inputSize_cons, inputSize_cons, inputSize_nil, Nat.mul_one, Nat.mul_one]
    exact congrArg (· + y4.toNat) hinput1
  · rw [inputSize_cons, inputSize_cons, inputSize_nil, Nat.mul_one, Nat.mul_comm]
    exact hloop.input2

/-- The loop over `y3` with the scalar. -/
theorem scalarLoop_advances (y3 : Int) (c : Cursor) :
    Advances t [⟨1, 1⟩, ⟨1, y3.toNat⟩] (inputSize first [⟨1, 1⟩, ⟨1, y3.toNat⟩])
      (inputSize second [⟨1, 1⟩, ⟨1, y3.toNat⟩]) c (scalarLoop t y3 c) := by
  have hextent : (⟨1, y3.toNat⟩ : Axis).extent = y3.toNat := rfl
  have hunit : visits [⟨1, 1⟩, ⟨1, y3.toNat⟩] c.visit = visits [⟨1, y3.toNat⟩] c.visit :=
    visits_congr (by rw [outputSize_cons]; exact Nat.one_mul _)
      (broadcastIndex_unit rfl rfl) (broadcastIndex_unit rfl rfl)
  refine ⟨?_, rfl, ?_, rfl, ?_⟩
  · rw [outputSize_cons, outputSize_cons, outputSize_nil, hextent, Nat.mul_one]
    exact congrArg _ (Nat.one_mul _).symm
  · rw [inputSize_cons, inputSize_cons, inputSize_nil, Nat.mul_one]
    exact congrArg _ (Nat.one_mul _).symm
  · rw [hunit, visits_cons_nil, hextent, map_map]
    refine congrArg _ (map_congr_left fun i hi => ?_)
    have hif : (if y3.toNat = 1 then 0 else i) = i := by
      have hlt := mem_range.1 hi
      split <;> omega
    simp only [Function.comp_apply, hif]
    rfl

/-! ### The outer loops -/

/-- A loop that starts the second input anew in each round. -/
theorem iterate_reset
    (hbody : ∀ c, Advances t axes (inputSize first axes) (inputSize second axes) c (body c))
    (n : Nat) (c : Cursor) :
    let c' := (fun c => body { c with input2 := c.input2Reset })^[n] c
    c'.output = c.output + outputSize (axes ++ [⟨n, 1⟩]) ∧
      c'.input1 = c.input1 + inputSize first (axes ++ [⟨n, 1⟩]) ∧
      (0 < n → c'.input2 = c.input2Reset + inputSize second (axes ++ [⟨n, 1⟩])) ∧
      c'.input2Reset = c.input2Reset ∧
      c'.written = c.written ++
        (visits (axes ++ [⟨n, 1⟩]) ⟨c.output, c.input1, c.input2Reset⟩).map t.entry := by
  intro c'
  have hsteps : ∀ m, let c' := (fun c => body { c with input2 := c.input2Reset })^[m] c
      c'.output = c.output + m * outputSize axes ∧ c'.input1 = c.input1 + m * inputSize first axes ∧
        (0 < m → c'.input2 = c.input2Reset + inputSize second axes) ∧
        c'.input2Reset = c.input2Reset ∧
        c'.written = c.written ++ ((List.range m).flatMap fun i =>
          visits axes ⟨c.output + i * outputSize axes, c.input1 + i * inputSize first axes,
            c.input2Reset⟩).map t.entry := by
    intro m
    induction m with
    | zero => simp
    | succ m ih =>
      dsimp only at ih ⊢
      obtain ⟨houtput, hinput1, hinput2, hreset, hwritten⟩ := ih
      rw [Function.iterate_succ_apply']
      generalize (fun c => body { c with input2 := c.input2Reset })^[m] c = s at *
      have hnext := hbody { s with input2 := s.input2Reset }
      have hvisit : Cursor.visit { s with input2 := s.input2Reset } =
          ⟨c.output + m * outputSize axes, c.input1 + m * inputSize first axes, c.input2Reset⟩ := by
        unfold Cursor.visit
        rw [houtput, hinput1, hreset]
      refine ⟨?_, ?_, fun _ => ?_, ?_, ?_⟩
      · rw [hnext.output, houtput, Nat.succ_mul, Nat.add_assoc]
      · rw [hnext.input1, hinput1, Nat.succ_mul, Nat.add_assoc]
      · rw [hnext.input2, hreset]
      · rw [hnext.input2Reset, hreset]
      · have hnextWritten : (body { s with input2 := s.input2Reset }).written =
            s.written ++ (visits axes _).map t.entry := hnext.written
        rw [hnextWritten, hvisit, hwritten, range_succ, flatMap_append,
          flatMap_singleton, map_append, append_assoc]
  obtain ⟨houtput, hinput1, hinput2, hreset, hwritten⟩ := hsteps n
  have hextent : (⟨n, 1⟩ : Axis).extent = n := extent_of_second rfl
  refine ⟨?_, ?_, ?_, hreset, ?_⟩
  · rw [outputSize_append, outputSize_cons, outputSize_nil, hextent, Nat.mul_one, Nat.mul_comm]
    exact houtput
  · rw [inputSize_append, inputSize_cons, inputSize_nil, Nat.mul_one, Nat.mul_comm]
    exact hinput1
  · rw [inputSize_append, inputSize_cons, inputSize_nil, Nat.mul_one, Nat.mul_one]
    exact hinput2
  · rw [visits_outer_steps (.inr ⟨hextent.symm, rfl⟩) (.inl ⟨rfl, rfl⟩), hextent]
    simp only [Nat.mul_zero, Nat.add_zero]
    exact hwritten

/-- The outermost loop moves the second input on once the loop inside has run through it. -/
theorem iterate_outer
    (hbody : ∀ c, Advances t axes (inputSize first axes) (inputSize second axes) c (body c))
    (hn1 : 0 < n1) (uninitialized n : Nat) (c : Cursor) :
    ((fun c =>
      let c := (fun c => body { c with input2 := c.input2Reset })^[n1]
        { c with input2 := uninitialized }
      { c with input2Reset := c.input2 })^[n] c).written = c.written ++
        (visits (axes ++ [⟨n1, 1⟩] ++ [⟨n, n⟩])
          ⟨c.output, c.input1, c.input2Reset⟩).map t.entry := by
  generalize houter : (fun c : Cursor =>
    let c := (fun c => body { c with input2 := c.input2Reset })^[n1]
      { c with input2 := uninitialized }
    ({ c with input2Reset := c.input2 } : Cursor)) = outer
  have hround : ∀ c, (outer c).output = c.output + outputSize (axes ++ [⟨n1, 1⟩]) ∧
      (outer c).input1 = c.input1 + inputSize first (axes ++ [⟨n1, 1⟩]) ∧
      (outer c).input2Reset = c.input2Reset + inputSize second (axes ++ [⟨n1, 1⟩]) ∧
      (outer c).written = c.written ++ (visits (axes ++ [⟨n1, 1⟩])
        ⟨c.output, c.input1, c.input2Reset⟩).map t.entry := by
    intro c
    obtain ⟨houtput, hinput1, hinput2, _, hwritten⟩ :=
      iterate_reset hbody n1 { c with input2 := uninitialized }
    rw [← houter]
    exact ⟨houtput, hinput1, hinput2 hn1, hwritten⟩
  have hsteps : ∀ m, (outer^[m] c).output = c.output + m * outputSize (axes ++ [⟨n1, 1⟩]) ∧
      (outer^[m] c).input1 = c.input1 + m * inputSize first (axes ++ [⟨n1, 1⟩]) ∧
      (outer^[m] c).input2Reset = c.input2Reset + m * inputSize second (axes ++ [⟨n1, 1⟩]) ∧
      (outer^[m] c).written = c.written ++ ((List.range m).flatMap fun i =>
        visits (axes ++ [⟨n1, 1⟩]) ⟨c.output + i * outputSize (axes ++ [⟨n1, 1⟩]),
          c.input1 + i * inputSize first (axes ++ [⟨n1, 1⟩]),
          c.input2Reset + i * inputSize second (axes ++ [⟨n1, 1⟩])⟩).map t.entry := by
    intro m
    induction m with
    | zero => simp
    | succ m ih =>
      obtain ⟨houtput, hinput1, hreset, hwritten⟩ := ih
      obtain ⟨hnextOutput, hnextInput1, hnextReset, hnextWritten⟩ := hround (outer^[m] c)
      rw [Function.iterate_succ_apply']
      refine ⟨?_, ?_, ?_, ?_⟩
      · rw [hnextOutput, houtput, Nat.succ_mul, Nat.add_assoc]
      · rw [hnextInput1, hinput1, Nat.succ_mul, Nat.add_assoc]
      · rw [hnextReset, hreset, Nat.succ_mul, Nat.add_assoc]
      · rw [hnextWritten, hwritten, houtput, hinput1, hreset, range_succ,
          flatMap_append, flatMap_singleton, map_append, append_assoc]
  have hextent : (⟨n, n⟩ : Axis).extent = n := extent_of_eq rfl
  rw [visits_outer_steps (.inr ⟨hextent.symm, rfl⟩) (.inr ⟨hextent.symm, rfl⟩), hextent]
  exact (hsteps n).2.2.2

/-- If the second outermost loop is empty, nothing is written. -/
theorem iterate_outer_zero (body : Cursor → Cursor) (hn1 : n1 = 0) (uninitialized n : Nat)
    (c : Cursor) :
    ((fun c =>
      let c := (fun c => body { c with input2 := c.input2Reset })^[n1]
        { c with input2 := uninitialized }
      ({ c with input2Reset := c.input2 } : Cursor))^[n] c).written = c.written := by
  subst hn1
  induction n with
  | zero => rfl
  | succ n ih =>
    rw [Function.iterate_succ_apply']
    exact ih

/-- All loops visit the five extents in order. -/
theorem outerLoops_written
    (hbody : ∀ c, Advances t axes (inputSize first axes) (inputSize second axes) c (body c))
    (y0 y1 y2 : Int) (uninitialized : Nat) :
    (outerLoops y0 y1 y2 uninitialized body ⟨0, 0, 0, 0, []⟩).written =
      (visits (axes ++ [⟨y2.toNat, y2.toNat⟩] ++ [⟨y1.toNat, 1⟩] ++ [⟨y0.toNat, y0.toNat⟩])
        ⟨0, 0, 0⟩).map t.entry := by
  have hextent : (⟨y2.toNat, y2.toNat⟩ : Axis).extent = y2.toNat := extent_of_eq rfl
  have hinner : ∀ c, Advances t (axes ++ [⟨y2.toNat, y2.toNat⟩])
      (inputSize first (axes ++ [⟨y2.toNat, y2.toNat⟩]))
      (inputSize second (axes ++ [⟨y2.toNat, y2.toNat⟩])) c (body^[y2.toNat] c) := by
    intro c
    have hiterate := Advances.iterate hbody (x := ⟨y2.toNat, y2.toNat⟩)
      (.inr ⟨hextent.symm, rfl⟩) (.inr ⟨hextent.symm, rfl⟩) c
    rw [hextent, Nat.mul_comm, Nat.mul_comm y2.toNat] at hiterate
    rw [inputSize_append, inputSize_append, inputSize_cons, inputSize_cons, inputSize_nil,
      inputSize_nil, Nat.mul_one]
    exact hiterate
  obtain hzero | hpos := Nat.eq_zero_or_pos y1.toNat
  · have hempty : outputSize (axes ++ [⟨y2.toNat, y2.toNat⟩] ++ [⟨y1.toNat, 1⟩] ++
        [⟨y0.toNat, y0.toNat⟩]) = 0 := by
      rw [outputSize_append, outputSize_append, outputSize_cons, outputSize_nil,
        extent_of_second rfl, hzero]
      simp
    unfold visits
    rw [hempty]
    exact iterate_outer_zero body^[y2.toNat] hzero uninitialized y0.toNat ⟨0, 0, 0, 0, []⟩
  · exact iterate_outer hinner hpos uninitialized y0.toNat ⟨0, 0, 0, 0, []⟩

end

/-- The innermost extent that the kernel works with. -/
def innermost (y4 : Int) : Nat := if 1 < y4 then y4.toNat else 1

theorem fivefoldLoops_written (t : Inputs) (uninitialized : Nat) :
    (fivefoldLoops t uninitialized).written =
      (visits [⟨innermost t.params.broadcastShape.y4, innermost t.params.broadcastShape.y4⟩,
        ⟨1, t.params.broadcastShape.y3.toNat⟩,
        ⟨t.params.broadcastShape.y2.toNat, t.params.broadcastShape.y2.toNat⟩,
        ⟨t.params.broadcastShape.y1.toNat, 1⟩,
        ⟨t.params.broadcastShape.y0.toNat, t.params.broadcastShape.y0.toNat⟩]
        ⟨0, 0, 0⟩).map t.entry := by
  unfold fivefoldLoops innermost
  dsimp only
  by_cases hy4 : 1 < t.params.broadcastShape.y4
  · rw [if_pos hy4, if_pos hy4]
    exact outerLoops_written (elementwiseLoop_advances _ _) _ _ _ uninitialized
  · rw [if_neg hy4, if_neg hy4]
    exact outerLoops_written (scalarLoop_advances _) _ _ _ uninitialized

/-! ## The whole kernel -/

/-- Every element of the output once, with the sum of the elements that broadcasting assigns. -/
def broadcastSums (multiply : Multiply) (params : ArithmeticParams)
    (input1Data input2Data : Nat → UInt8) (axes : List Axis) : List (Nat × UInt8) :=
  (List.range (outputSize axes)).map fun o =>
    (o, addQuantized multiply params (input1Data (broadcastIndex first axes o))
      (input2Data (broadcastIndex second axes o)))

/-- Of an output with elements, each phase has an extent of type `int`; of one without, another
phase than the innermost one has no elements. -/
structure FitsFivefold (axes : List Axis) : Prop where
  extents : 0 < outputSize axes → ∀ run ∈ (phasesOf axes).runs, outputSize run < 2147483648
  empty : outputSize axes = 0 → ∃ run ∈ (phasesOf axes).runs.tail, outputSize run = 0

/-- The five extents as numbers of type `int`. -/
def fivefoldAxes (y : BroadcastShape) : List Axis :=
  [⟨innermost y.y4, innermost y.y4⟩, ⟨1, y.y3.toNat⟩, ⟨y.y2.toNat, y.y2.toNat⟩, ⟨y.y1.toNat, 1⟩,
    ⟨y.y0.toNat, y.y0.toNat⟩]

section
variable {axes : List Axis} {run : List Axis}

theorem outputSize_equal (h : ∀ a ∈ run, a.first = a.second) :
    mergeAxes run = ⟨outputSize run, outputSize run⟩ := by
  have hfirst : inputSize first run = outputSize run :=
    inputSize_congr fun a ha => (extent_of_eq (h a ha)).symm
  have hsecond : inputSize second run = outputSize run :=
    inputSize_congr fun a ha => (h a ha).symm.trans (extent_of_eq (h a ha)).symm
  unfold mergeAxes
  rw [hfirst, hsecond]

theorem outputSize_first (h : ∀ a ∈ run, a.first = 1) :
    mergeAxes run = ⟨1, outputSize run⟩ := by
  have hsecond : inputSize second run = outputSize run :=
    inputSize_congr fun a ha => (extent_of_first (h a ha)).symm
  unfold mergeAxes
  rw [inputSize_eq_one h, hsecond]

theorem outputSize_second (h : ∀ a ∈ run, a.second = 1) :
    mergeAxes run = ⟨outputSize run, 1⟩ := by
  have hfirst : inputSize first run = outputSize run :=
    inputSize_congr fun a ha => (extent_of_second (h a ha)).symm
  unfold mergeAxes
  rw [inputSize_eq_one h, hfirst]

theorem map_mergeAxes_phasesOf (axes : List Axis) : (phasesOf axes).runs.map mergeAxes =
    [⟨outputSize (phasesOf axes).equal4, outputSize (phasesOf axes).equal4⟩,
      ⟨1, outputSize (phasesOf axes).first3⟩,
      ⟨outputSize (phasesOf axes).equal2, outputSize (phasesOf axes).equal2⟩,
      ⟨outputSize (phasesOf axes).second1, 1⟩,
      ⟨outputSize (phasesOf axes).equal0, outputSize (phasesOf axes).equal0⟩] := by
  unfold Phases.runs
  rw [map_cons, map_cons, map_cons, map_cons, map_cons, map_nil,
    outputSize_equal equal4_phasesOf, outputSize_first first3_phasesOf,
    outputSize_equal equal2_phasesOf, outputSize_second second1_phasesOf,
    outputSize_equal equal0_phasesOf]

theorem fivePhases_extents (axes : List Axis) : (fivePhases axes).1 =
    ⟨int32 (outputSize (phasesOf axes).equal0), int32 (outputSize (phasesOf axes).second1),
      int32 (outputSize (phasesOf axes).equal2), int32 (outputSize (phasesOf axes).first3),
      int32 (outputSize (phasesOf axes).equal4)⟩ := by
  have h4 := congrArg second (outputSize_equal (@equal4_phasesOf axes))
  have h3 := congrArg second (outputSize_first (@first3_phasesOf axes))
  have h2 := congrArg first (outputSize_equal (@equal2_phasesOf axes))
  have h1 := congrArg first (outputSize_second (@second1_phasesOf axes))
  have h0 := congrArg second (outputSize_equal (@equal0_phasesOf axes))
  unfold mergeAxes at h4 h3 h2 h1 h0
  dsimp only at h4 h3 h2 h1 h0
  rw [fivePhases_eq, h4, h3, h2, h1, h0]

theorem innermost_of_pos {n : Nat} (hpos : 0 < n) (h : n < 2147483648) :
    innermost (int32 n) = n := by
  unfold innermost
  rw [int32_of_lt h]
  split <;> omega

theorem visits_fivefoldAxes (hrest : (phasesOf axes).rest = []) (hfits : FitsFivefold axes) :
    visits (fivefoldAxes (fivePhases axes).1) ⟨0, 0, 0⟩ = visits axes ⟨0, 0, 0⟩ := by
  have hflatten := flatten_phasesOf axes
  rw [hrest, append_nil] at hflatten
  have hmerge := visits_merge (@oneKind_phasesOf axes) ⟨0, 0, 0⟩
  rw [hflatten, map_mergeAxes_phasesOf] at hmerge
  have hsize : outputSize axes = outputSize (phasesOf axes).equal4 *
      (outputSize (phasesOf axes).first3 * (outputSize (phasesOf axes).equal2 *
        (outputSize (phasesOf axes).second1 * outputSize (phasesOf axes).equal0))) := by
    conv_lhs => rw [← hflatten]
    unfold Phases.runs
    simp only [flatten_cons, flatten_nil, append_nil, outputSize_append]
  rw [fivePhases_extents]
  obtain hzero | hpos := Nat.eq_zero_or_pos (outputSize axes)
  · have hempty : ∀ {l : List Axis}, outputSize l = 0 → visits l ⟨0, 0, 0⟩ = [] := by
      intro l hl
      unfold visits
      rw [hl]
      rfl
    rw [hempty hzero]
    refine hempty ?_
    obtain ⟨run, hrun, hrunZero⟩ := hfits.empty hzero
    have hint : int32 (outputSize run) = 0 := by
      rw [hrunZero]
      rfl
    unfold Phases.runs at hrun
    unfold fivefoldAxes
    simp only [tail_cons, mem_cons, not_mem_nil, or_false] at hrun
    simp only [outputSize_cons, outputSize_nil, extent]
    obtain rfl | rfl | rfl | rfl := hrun <;> rw [hint] <;> simp
  · have hlt := hfits.extents hpos
    unfold Phases.runs at hlt
    simp only [mem_cons, not_mem_nil, or_false, forall_eq_or_imp, forall_eq] at hlt
    obtain ⟨h4, h3, h2, h1, h0⟩ := hlt
    rw [← hmerge]
    unfold fivefoldAxes
    dsimp only
    have hpos4 : 0 < outputSize (phasesOf axes).equal4 := by
      rw [hsize] at hpos
      exact Nat.pos_of_mul_pos_right hpos
    rw [innermost_of_pos hpos4 h4, int32_of_lt h3, int32_of_lt h2, int32_of_lt h1, int32_of_lt h0]
    rfl

end

/-! ## Swapped inputs -/

theorem addQuantized_switched (multiply : Multiply) (params : ArithmeticParams)
    (input1 input2 : UInt8) :
    addQuantized multiply params.switched input1 input2 =
      addQuantized multiply params input2 input1 := by
  unfold addQuantized quantizedSum ArithmeticParams.switched
  dsimp only
  rw [Int.add_comm (scaledInput _ _ _ _ _ _)]

section
variable {multiply : Multiply} {params : ArithmeticParams} {input1Data input2Data : Nat → UInt8}
  {uninitialized : Nat} {axes : List Axis}

theorem broadcastAddFivefold_first
    (hcategory : params.broadcastCategory = .kFirstInputBroadcastsFast)
    (hshape : params.broadcastShape = (fivePhases axes).1) (hrest : (fivePhases axes).2 = [])
    (hfits : FitsFivefold axes) :
    broadcastAddFivefold multiply params input1Data input2Data uninitialized =
      broadcastSums multiply params input1Data input2Data axes := by
  rw [fivePhases_eq] at hrest
  have hvisits := visits_fivefoldAxes hrest hfits
  rw [← hshape] at hvisits
  unfold broadcastAddFivefold
  simp only [hcategory, if_true, fivefoldLoops_written]
  unfold fivefoldAxes at hvisits
  rw [hvisits]
  unfold visits broadcastSums
  rw [map_map]
  refine map_congr_left fun o _ => ?_
  unfold Inputs.entry
  simp only [Function.comp_apply, Nat.zero_add]

/-- The inputs are taken the other way round, each with its own parameters. -/
theorem broadcastAddFivefold_second
    (hcategory : params.broadcastCategory = .kSecondInputBroadcastsFast)
    (hcompatible : ∀ a ∈ axes, a.Compatible)
    (hshape : params.broadcastShape = (fivePhases (axes.map swap)).1)
    (hrest : (fivePhases (axes.map swap)).2 = []) (hfits : FitsFivefold (axes.map swap)) :
    broadcastAddFivefold multiply params input1Data input2Data uninitialized =
      broadcastSums multiply params input1Data input2Data axes := by
  rw [fivePhases_eq] at hrest
  have hvisits := visits_fivefoldAxes hrest hfits
  have hswitched : params.switched.broadcastShape = params.broadcastShape := rfl
  rw [← hshape, visits_swap hcompatible] at hvisits
  unfold broadcastAddFivefold
  simp only [hcategory, reduceCtorEq, if_false, fivefoldLoops_written]
  unfold fivefoldAxes at hvisits
  rw [hswitched, hvisits]
  unfold visits broadcastSums
  rw [map_map, map_map]
  refine map_congr_left fun o _ => ?_
  unfold Inputs.entry
  simp only [Function.comp_apply, Nat.zero_add, addQuantized_switched]

end

/-! ## The classification -/

section
variable {shape0 shape1 : RuntimeShape} {params : ArithmeticParams}

theorem length_extendedShape {n : Nat} {shape : RuntimeShape} (h : shape.length ≤ n) :
    (extendedShape n shape).length = n := by
  unfold extendedShape
  rw [length_append, length_replicate]
  omega

theorem extendedShape_eq_of_axes (h : ∀ a ∈ axesOf shape0 shape1, a.first = a.second) :
    extendedShape (max shape0.length shape1.length) shape0 =
      extendedShape (max shape0.length shape1.length) shape1 := by
  have hlength0 := length_extendedShape (Nat.le_max_left shape0.length shape1.length)
  have hlength1 := length_extendedShape (Nat.le_max_right shape0.length shape1.length)
  unfold axesOf at h
  simp only [mem_reverse] at h
  generalize extendedShape (max shape0.length shape1.length) shape0 = xs at *
  generalize extendedShape (max shape0.length shape1.length) shape1 = ys at *
  refine ext_getElem (hlength0.trans hlength1.symm) fun i hx hy => ?_
  have hi : i < (List.zipWith mk xs ys).length := by
    rw [length_zipWith]
    omega
  have haxis := h _ (getElem_mem hi)
  rwa [getElem_zipWith] at haxis

/-- What is selected, with the axes that the extents of the five loops come from. -/
theorem processBroadcastShapes_first
    (h : (processBroadcastShapes shape0 shape1 params).2.broadcastCategory
      = .kFirstInputBroadcastsFast) :
    (processBroadcastShapes shape0 shape1 params).2 = { params with
      broadcastCategory := .kFirstInputBroadcastsFast
      broadcastShape := (fivePhases (axesOf shape0 shape1)).1 } ∧
      (fivePhases (axesOf shape0 shape1)).2 = [] := by
  unfold processBroadcastShapes at h ⊢
  dsimp only at h ⊢
  split at h
  · cases h
  · rename_i hne
    rw [if_neg hne]
    split at h
    · dsimp only at h
      split at h
      · rename_i hrest
        rw [if_pos hrest]
        exact ⟨rfl, hrest⟩
      · cases h
    · dsimp only at h
      split at h <;> cases h
    · cases h
    · cases h

theorem processBroadcastShapes_second
    (h : (processBroadcastShapes shape0 shape1 params).2.broadcastCategory
      = .kSecondInputBroadcastsFast) :
    (processBroadcastShapes shape0 shape1 params).2 = { params with
      broadcastCategory := .kSecondInputBroadcastsFast
      broadcastShape := (fivePhases ((axesOf shape0 shape1).map swap)).1 } ∧
      (fivePhases ((axesOf shape0 shape1).map swap)).2 = [] := by
  unfold processBroadcastShapes at h ⊢
  dsimp only at h ⊢
  split at h
  · cases h
  · rename_i hne
    rw [if_neg hne]
    split at h
    · dsimp only at h
      split at h <;> cases h
    · dsimp only at h
      split at h
      · rename_i hrest
        rw [if_pos hrest]
        exact ⟨rfl, hrest⟩
      · cases h
    · cases h
    · cases h

theorem processBroadcastShapes_nonBroadcast :
    ((processBroadcastShapes shape0 shape1 params).1 = false ∧
      (processBroadcastShapes shape0 shape1 params).2.broadcastCategory = .kNonBroadcast) ↔
    extendedShape (max shape0.length shape1.length) shape0 =
      extendedShape (max shape0.length shape1.length) shape1 := by
  constructor
  · rintro ⟨hfalse, -⟩
    by_contra hne
    unfold processBroadcastShapes at hfalse
    dsimp only at hfalse
    rw [if_neg hne] at hfalse
    split at hfalse
    · cases hfalse
    · cases hfalse
    · cases hfalse
    · rename_i hnone
      exact hne (extendedShape_eq_of_axes (broadcastCategory_eq_none.1 hnone))
  · intro heq
    unfold processBroadcastShapes
    dsimp only
    rw [if_pos heq]
    exact ⟨rfl, rfl⟩

end

/-- The classification and the five loops agree with broadcasting element by element. -/
theorem fivefold_broadcasts (multiply : Multiply) (shape0 shape1 : RuntimeShape)
    (params : ArithmeticParams) (input1Data input2Data : Nat → UInt8) (uninitialized : Nat)
    (hcompatible : ∀ a ∈ axesOf shape0 shape1, a.Compatible) :
    (((processBroadcastShapes shape0 shape1 params).1 = false ∧
        (processBroadcastShapes shape0 shape1 params).2.broadcastCategory = .kNonBroadcast) ↔
      extendedShape (max shape0.length shape1.length) shape0 =
        extendedShape (max shape0.length shape1.length) shape1) ∧
    ((processBroadcastShapes shape0 shape1 params).2.broadcastCategory =
        .kFirstInputBroadcastsFast →
      FitsFivefold (axesOf shape0 shape1) →
      broadcastAddFivefold multiply (processBroadcastShapes shape0 shape1 params).2 input1Data
          input2Data uninitialized =
        broadcastSums multiply params input1Data input2Data (axesOf shape0 shape1)) ∧
    ((processBroadcastShapes shape0 shape1 params).2.broadcastCategory =
        .kSecondInputBroadcastsFast →
      FitsFivefold ((axesOf shape0 shape1).map swap) →
      broadcastAddFivefold multiply (processBroadcastShapes shape0 shape1 params).2 input1Data
          input2Data uninitialized =
        broadcastSums multiply params input1Data input2Data (axesOf shape0 shape1)) := by
  refine ⟨processBroadcastShapes_nonBroadcast, fun hcategory hfits => ?_,
    fun hcategory hfits => ?_⟩
  · obtain ⟨hparams, hrest⟩ := processBroadcastShapes_first hcategory
    rw [hparams]
    exact broadcastAddFivefold_first rfl rfl hrest hfits
  · obtain ⟨hparams, hrest⟩ := processBroadcastShapes_second hcategory
    rw [hparams]
    exact broadcastAddFivefold_second rfl hcompatible rfl hrest hfits

/-- Both inputs with offset and scale of their own. -/
def twoScales : ArithmeticParams where
  broadcastCategory := .kNone
  input1Offset := -1
  input2Offset := 0
  outputOffset := 0
  outputMultiplier := 1
  outputShift := 0
  leftShift := 0
  input1Multiplier := 2
  input1Shift := 0
  input2Multiplier := 3
  input2Shift := 0
  quantizedActivationMin := 0
  quantizedActivationMax := 255
  broadcastShape := ⟨1, 1, 1, 1, 1⟩

/-- Two rows and one row: the second input is broadcast. -/
theorem fivefold_broadcasts_row :
    broadcastAddFivefold (fun x multiplier _ => x * multiplier)
        (processBroadcastShapes [2, 3] [1, 3] twoScales).2 UInt8.ofNat (fun i => 10 + .ofNat i) 7 =
      broadcastSums (fun x multiplier _ => x * multiplier) twoScales UInt8.ofNat
        (fun i => 10 + .ofNat i) (axesOf [2, 3] [1, 3]) :=
  (fivefold_broadcasts _ [2, 3] [1, 3] twoScales _ _ 7 (by decide)).2.2 (by decide)
    ⟨by decide, by decide⟩

/-- A vector and a matrix of one row count as one shape. -/
theorem row_is_nonBroadcast :
    (∀ a ∈ axesOf [3] [1, 3], a.Compatible) ∧
      (processBroadcastShapes [3] [1, 3] twoScales).1 = false ∧
      (processBroadcastShapes [3] [1, 3] twoScales).2.broadcastCategory = .kNonBroadcast ∧
      ([3] : RuntimeShape) ≠ [1, 3] := by
  decide

end LiteRt.Kernels
