import LiteRt.Kernels.StridedSlice

/-!
# The effective axes of a strided slice

Which subscripts the masks stand for, and that the two loops over the effective axes resolve them.
-/

namespace LiteRt.Kernels

open LiteRt.Lib List

/-! ## Subscripts -/

/-- What the ellipsis mask and the new axis mask say at an index. -/
def StridedSliceMasks.kindAt (masks : StridedSliceMasks) (i : Nat) : EffectiveKind :=
  if masks.ellipsisMask.testBit i then .ellipsis
  else if masks.newAxisMask.testBit i then .newAxis
  else .given

/-- The subscript at an index. The begin mask makes the index of a shrunk axis zero. -/
def subscriptAt (masks : StridedSliceMasks) (i : Nat) (entry : SliceEntry) : Subscript :=
  match masks.kindAt i with
  | .ellipsis => .ellipsis
  | .newAxis => .newAxis
  | .given =>
    if masks.shrinkAxisMask.testBit i then
      .index (if masks.beginMask.testBit i then 0 else entry.begin)
    else
      .slice (if masks.beginMask.testBit i then none else some entry.begin)
        (if masks.endMask.testBit i then none else some entry.stop) entry.stride

def subscriptsFrom (masks : StridedSliceMasks) : Nat → List SliceEntry → List Subscript
  | _, [] => []
  | i, entry :: entries => subscriptAt masks i entry :: subscriptsFrom masks (i + 1) entries

abbrev subscripts (masks : StridedSliceMasks) (entries : List SliceEntry) : List Subscript :=
  subscriptsFrom masks 0 entries

/-- How many of the `n` indexes from `i` on are of some kind. -/
def occurrences (masks : StridedSliceMasks) (kind : EffectiveKind) : Nat → Nat → Nat
  | _, 0 => 0
  | i, n + 1 => (if masks.kindAt i = kind then 1 else 0) + occurrences masks kind (i + 1) n

/-- The axis for an index that is neither an ellipsis nor a new axis. -/
def givenAxis (masks : StridedSliceMasks) (i : Nat) (entry : SliceEntry) (dim : Nat) : SliceAxis where
  startIndex := entry.begin
  stopIndex := entry.stop
  stride := entry.stride
  beginMask := masks.beginMask.testBit i
  endMask := masks.endMask.testBit i
  shrinkAxis := masks.shrinkAxisMask.testBit i
  dim := dim

def newAxis : SliceAxis := ⟨0, 1, 1, false, false, false, 1⟩

/-- The axes, index by index; `none` if there are too many indexes. -/
def resolveFrom (masks : StridedSliceMasks) :
    Nat → List SliceEntry → RuntimeShape → Option (List SliceAxis)
  | _, [], shape => some (shape.map wholeAxis)
  | i, entry :: entries, shape =>
    match masks.kindAt i with
    | .ellipsis =>
      let remaining := shape.length - occurrences masks .given (i + 1) entries.length
      (resolveFrom masks (i + 1) entries (shape.drop remaining)).map
        ((shape.take remaining).map wholeAxis ++ ·)
    | .newAxis => (resolveFrom masks (i + 1) entries shape).map (newAxis :: ·)
    | .given =>
      match shape with
      | [] => none
      | dim :: shape =>
        (resolveFrom masks (i + 1) entries shape).map (givenAxis masks i entry dim :: ·)

/-! ## The two loops -/

section
variable {masks : StridedSliceMasks} {entries : List SliceEntry} {shape : RuntimeShape}

/-- The kind where there is no ellipsis. -/
def StridedSliceMasks.plainKind (masks : StridedSliceMasks) (i : Nat) : EffectiveKind :=
  if masks.newAxisMask.testBit i then .newAxis else .given

theorem kindAt_of_not_ellipsis {i : Nat} (h : masks.ellipsisMask.testBit i = false) :
    masks.kindAt i = masks.plainKind i := by
  unfold StridedSliceMasks.kindAt StridedSliceMasks.plainKind
  rw [if_neg (by rw [h]; exact Bool.false_ne_true)]

theorem occurrences_succ (kind : EffectiveKind) (i n : Nat) :
    occurrences masks kind i (n + 1) =
      (if masks.kindAt i = kind then 1 else 0) + occurrences masks kind (i + 1) n := rfl

theorem occurrences_append (kind : EffectiveKind) (i n m : Nat) :
    occurrences masks kind i (n + m) =
      occurrences masks kind i n + occurrences masks kind (i + n) m := by
  induction n generalizing i with
  | zero => simp [occurrences]
  | succ n ih =>
    rw [Nat.add_right_comm, occurrences_succ, occurrences_succ, ih, ← Nat.add_assoc,
      Nat.add_assoc i 1 n, Nat.add_comm 1 n]

theorem numAddAxis_eq_occurrences (n : Nat) :
    numAddAxis masks n = occurrences masks .newAxis 0 n := by
  have hrange : ∀ n i, ((List.range' i n).filter fun i =>
      !masks.ellipsisMask.testBit i && masks.newAxisMask.testBit i).length =
        occurrences masks .newAxis i n := by
    intro n
    induction n with
    | zero => exact fun _ => rfl
    | succ n ih =>
      intro i
      unfold occurrences StridedSliceMasks.kindAt
      rw [range'_succ, filter_cons, ← ih]
      cases masks.ellipsisMask.testBit i <;> cases masks.newAxisMask.testBit i <;>
        simp [Nat.add_comm]
  unfold numAddAxis
  rw [range_eq_range', hrange]

/-- Without an ellipsis every index stands for an axis of the input or for a new one. -/
theorem occurrences_plain {n i : Nat} (h : ∀ j < n, masks.ellipsisMask.testBit (i + j) = false) :
    occurrences masks .given i n + occurrences masks .newAxis i n = n := by
  induction n generalizing i with
  | zero => rfl
  | succ n ih =>
    have hrest := ih (i := i + 1) fun j hj => by
      rw [Nat.add_assoc, Nat.add_comm 1]
      exact h (j + 1) (Nat.succ_lt_succ hj)
    have hhere := kindAt_of_not_ellipsis (h 0 n.succ_pos)
    rw [Nat.add_zero] at hhere
    rw [occurrences_succ, occurrences_succ, hhere]
    unfold StridedSliceMasks.plainKind
    split <;> simp <;> omega

/-! ### The masks -/

/-- The loop over indexes that are no ellipsis. -/
theorem expandMasks_plain {beginCount inputDims effectiveDims : Nat} (n : Nat) {rounds : Nat}
    {s : MaskState} (hrounds : n ≤ rounds) (hdims : s.i + n ≤ effectiveDims)
    (hplain : ∀ j < n, masks.ellipsisMask.testBit (s.i + j) = false)
    (hexpanded : s.expandedEllipsis ≤ s.i) :
    expandMasks masks beginCount inputDims effectiveDims rounds s =
      expandMasks masks beginCount inputDims effectiveDims (rounds - n)
        { s with
          i := s.i + n
          kinds := s.kinds ++ (List.range' (s.i - s.expandedEllipsis) n).map masks.plainKind } := by
  induction n generalizing rounds s with
  | zero => simp
  | succ n ih =>
    obtain ⟨rounds, rfl⟩ := Nat.exists_eq_add_of_le' (Nat.le_trans (Nat.succ_pos n) hrounds)
    have hhere := hplain 0 n.succ_pos
    rw [Nat.add_zero] at hhere
    have hrest := @ih rounds
      { s with
        i := s.i + 1
        kinds := s.kinds ++ [masks.plainKind (s.i - s.expandedEllipsis)] }
      (by omega) (by dsimp only; omega)
      (fun j hj => by
        have h := hplain (j + 1) (Nat.succ_lt_succ hj)
        rwa [Nat.add_comm j 1, ← Nat.add_assoc] at h)
      (by dsimp only; omega)
    conv_lhs => unfold expandMasks
    rw [if_pos (by omega), if_neg (by rw [hhere]; exact Bool.false_ne_true)]
    refine hrest.trans ?_
    dsimp only
    have hsub : s.i + 1 - s.expandedEllipsis = s.i - s.expandedEllipsis + 1 := by omega
    rw [hsub, range'_succ, map_cons, append_assoc, singleton_append,
      Nat.add_sub_add_right, Nat.add_right_comm, Nat.add_assoc]

theorem expandMasks_done {beginCount inputDims effectiveDims rounds : Nat} {s : MaskState}
    (h : effectiveDims ≤ s.i) :
    expandMasks masks beginCount inputDims effectiveDims rounds s = s := by
  unfold expandMasks
  split
  · rfl
  · rw [if_neg (by omega)]

/-! ### The axes -/

/-- Trailing axes without an index. -/
theorem buildAxes_whole {start expanded n i addedEllipsis addedAxises : Nat}
    (hi : entries.length + expanded ≤ i) (hadded : addedAxises ≤ i)
    (hn : (shape.drop (i - addedAxises)).length = n) :
    buildAxes masks entries shape start expanded (List.replicate n .given) i addedEllipsis
      addedAxises = some ((shape.drop (i - addedAxises)).map wholeAxis) := by
  induction n generalizing i with
  | zero =>
    rw [length_eq_zero_iff.1 hn]
    rfl
  | succ n ih =>
    have hlt : i - addedAxises < shape.length := by
      rw [length_drop] at hn
      omega
    have hsub : i + 1 - addedAxises = i - addedAxises + 1 := by omega
    have hrest := ih (i := i + 1) (by omega) (by omega) (by
      rw [length_drop] at hn ⊢
      omega)
    rw [hsub] at hrest
    rw [replicate_succ]
    unfold buildAxes
    rw [if_pos hi, getElem?_eq_getElem hlt, hrest, drop_eq_getElem_cons hlt]
    rfl

section
variable {start expanded i addedEllipsis addedAxises : Nat} {kinds : List EffectiveKind}

theorem buildAxes_ellipsis :
    buildAxes masks entries shape start expanded (.ellipsis :: kinds) i addedEllipsis addedAxises =
      (shape[i - addedAxises]?).bind fun dim =>
        (buildAxes masks entries shape start expanded kinds (i + 1) (i - start) addedAxises).map
          (wholeAxis dim :: ·) := by
  conv_lhs => unfold buildAxes
  cases shape[i - addedAxises]? with
  | none => rfl
  | some dim =>
    cases buildAxes masks entries shape start expanded kinds (i + 1) (i - start) addedAxises <;> rfl

theorem buildAxes_newAxis :
    buildAxes masks entries shape start expanded (.newAxis :: kinds) i addedEllipsis addedAxises =
      (buildAxes masks entries shape start expanded kinds (i + 1) addedEllipsis
        (addedAxises + 1)).map (newAxis :: ·) := by
  conv_lhs => unfold buildAxes
  cases buildAxes masks entries shape start expanded kinds (i + 1) addedEllipsis
    (addedAxises + 1) <;> rfl

theorem buildAxes_given {k : Nat} {entry : SliceEntry} (hentry : entries[k]? = some entry)
    (hi : i = k + addedEllipsis) (hexpanded : addedEllipsis ≤ expanded) :
    buildAxes masks entries shape start expanded (.given :: kinds) i addedEllipsis addedAxises =
      (shape[i - addedAxises]?).bind fun dim =>
        (buildAxes masks entries shape start expanded kinds (i + 1) addedEllipsis
          addedAxises).map (givenAxis masks k entry dim :: ·) := by
  have hlt : k < entries.length := (List.getElem?_eq_some_iff.1 hentry).1
  have hsub : i - addedEllipsis = k := by omega
  conv_lhs => unfold buildAxes
  rw [if_neg (by omega), hsub]
  dsimp only
  rw [hentry]
  cases shape[i - addedAxises]? with
  | none => rfl
  | some dim =>
    cases buildAxes masks entries shape start expanded kinds (i + 1) addedEllipsis
      addedAxises <;> rfl

theorem buildAxes_replicate {m : Nat} (hadded : addedAxises ≤ i)
    (hm : m < (shape.drop (i - addedAxises)).length) :
    buildAxes masks entries shape start expanded (List.replicate (m + 1) .ellipsis ++ kinds) i
        addedEllipsis addedAxises =
      (buildAxes masks entries shape start expanded kinds (i + m + 1) (i + m - start)
        addedAxises).map (((shape.drop (i - addedAxises)).take (m + 1)).map wholeAxis ++ ·) := by
  rw [length_drop] at hm
  have hlt : i - addedAxises < shape.length := by omega
  rw [replicate_succ, cons_append, buildAxes_ellipsis, getElem?_eq_getElem hlt,
    drop_eq_getElem_cons hlt, take_succ_cons, map_cons]
  have hsub : i + 1 - addedAxises = i - addedAxises + 1 := by omega
  induction m generalizing i addedEllipsis with
  | zero => rfl
  | succ m ih =>
    have hlt' : i + 1 - addedAxises < shape.length := by omega
    have hrest := @ih (i + 1) (i - start) (by omega) (by omega) hlt' (by omega)
    rw [← getElem?_eq_getElem hlt', ← buildAxes_ellipsis, ← cons_append, ← replicate_succ] at hrest
    have hcount : i + 1 + m = i + (m + 1) := by omega
    rw [hrest, hcount, ← hsub, drop_eq_getElem_cons hlt', take_succ_cons, map_cons]
    cases buildAxes masks entries shape start expanded kinds (i + (m + 1) + 1) (i + (m + 1) - start)
      addedAxises <;> rfl

end

/-- An index that is no ellipsis stands for one axis, which the loop builds first. -/
theorem resolveFrom_plain {start expanded k i addedEllipsis addedAxises : Nat} {entry : SliceEntry}
    {rest : List SliceEntry} {axes : List SliceAxis}
    (hplain : masks.ellipsisMask.testBit k = false) (hrest : entries.drop k = entry :: rest)
    (hi : i = k + addedEllipsis) (hexpanded : addedEllipsis ≤ expanded) (hadded : addedAxises ≤ i)
    (haxes : resolveFrom masks k (entry :: rest) (shape.drop (i - addedAxises)) = some axes) :
    ∃ axis axes' addedAxises', axes = axis :: axes' ∧ addedAxises' ≤ i + 1 ∧
      addedAxises' ≤ addedAxises + 1 ∧
      resolveFrom masks (k + 1) rest (shape.drop (i + 1 - addedAxises')) = some axes' ∧
      (shape.drop (i - addedAxises)).length = (shape.drop (i + 1 - addedAxises')).length +
        (if masks.kindAt k = .given then 1 else 0) ∧
      ∀ kinds, buildAxes masks entries shape start expanded kinds (i + 1) addedEllipsis
        addedAxises' = some axes' →
          buildAxes masks entries shape start expanded (masks.plainKind k :: kinds) i addedEllipsis
            addedAxises = some (axis :: axes') := by
  have hkind := kindAt_of_not_ellipsis hplain
  have hentry : entries[k]? = some entry := by
    rw [← head?_drop, hrest]
    rfl
  unfold resolveFrom at haxes
  rw [hkind] at haxes ⊢
  cases hplainKind : masks.plainKind k with
  | ellipsis =>
    unfold StridedSliceMasks.plainKind at hplainKind
    split at hplainKind <;> cases hplainKind
  | newAxis =>
    rw [hplainKind] at haxes
    obtain ⟨axes', haxes', rfl⟩ := Option.map_eq_some_iff.1 haxes
    have hsub : i + 1 - (addedAxises + 1) = i - addedAxises := by omega
    refine ⟨newAxis, axes', addedAxises + 1, rfl, by omega, Nat.le_refl _, by rwa [hsub], ?_,
      fun kinds hkinds => ?_⟩
    · rw [hsub, if_neg (by decide), Nat.add_zero]
    · rw [buildAxes_newAxis, hkinds]
      rfl
  | given =>
    rw [hplainKind] at haxes
    dsimp only at haxes
    split at haxes
    · cases haxes
    · rename_i dim shape' hshape
      obtain ⟨axes', haxes', rfl⟩ := Option.map_eq_some_iff.1 haxes
      have hdim : shape[i - addedAxises]? = some dim := by
        rw [← head?_drop, hshape]
        rfl
      have hdrop : shape.drop (i + 1 - addedAxises) = shape' := by
        have hsub : i + 1 - addedAxises = i - addedAxises + 1 := by omega
        rw [hsub, ← tail_drop, hshape]
        rfl
      refine ⟨givenAxis masks k entry dim, axes', addedAxises, rfl, by omega, by omega,
        by rwa [hdrop], ?_, fun kinds hkinds => ?_⟩
      · rw [hshape, hdrop, if_pos rfl]
        rfl
      · rw [buildAxes_given hentry hi hexpanded, hdim, hkinds]
        rfl

theorem drop_succ_eq {entry : SliceEntry} {rest : List SliceEntry} {k : Nat}
    (h : entries.drop k = entry :: rest) : entries.drop (k + 1) = rest := by
  rw [← tail_drop, h]
  rfl

/-- The indexes after the ellipsis, or all of them without one, and the axes that are left. -/
theorem buildAxes_plain {start expanded : Nat} (rest : List SliceEntry) {k i addedAxises : Nat}
    {axes : List SliceAxis} (hrest : entries.drop k = rest)
    (hplain : ∀ j < rest.length, masks.ellipsisMask.testBit (k + j) = false)
    (hi : i = k + expanded) (hadded : addedAxises ≤ i)
    (haxes : resolveFrom masks k rest (shape.drop (i - addedAxises)) = some axes) :
    buildAxes masks entries shape start expanded ((List.range' k rest.length).map masks.plainKind ++
        List.replicate ((shape.drop (i - addedAxises)).length -
          occurrences masks .given k rest.length) .given) i expanded addedAxises = some axes := by
  induction rest generalizing k i addedAxises axes with
  | nil =>
    unfold resolveFrom at haxes
    rw [← haxes]
    have hlength := drop_eq_nil_iff.1 hrest
    exact buildAxes_whole (by omega) hadded rfl
  | cons entry rest ih =>
    have hhere := hplain 0 (Nat.succ_pos _)
    have hplain' : ∀ j < rest.length, masks.ellipsisMask.testBit (k + 1 + j) = false := by
      intro j hj
      rw [Nat.add_assoc, Nat.add_comm 1]
      exact hplain (j + 1) (Nat.succ_lt_succ hj)
    obtain ⟨axis, axes', addedAxises', rfl, hadded', -, haxes', hlength, hbuild⟩ :=
      @resolveFrom_plain masks entries shape start expanded k i expanded addedAxises entry rest axes
        hhere hrest hi (Nat.le_refl _) hadded haxes
    have hrec := @ih (k + 1) (i + 1) addedAxises' axes' (drop_succ_eq hrest) hplain' (by omega)
      hadded' haxes'
    rw [length_cons, range'_succ, map_cons, cons_append, occurrences_succ,
      hlength, Nat.sub_add_eq, Nat.add_sub_cancel]
    exact hbuild _ hrec

/-- The indexes before the ellipsis, the ellipsis and what is after it. -/
theorem buildAxes_resolves {e n : Nat} (hellipsis : masks.ellipsisMask.testBit e)
    (hsingle : ∀ i, masks.ellipsisMask.testBit i → i = e) (rest : List SliceEntry)
    {k addedAxises m : Nat} {axes : List SliceAxis} (he : e = k + n) (hrest : entries.drop k = rest)
    (hlt : e < entries.length) (hadded : addedAxises ≤ k)
    (hm : m = (shape.drop (k - addedAxises)).length - occurrences masks .given k n -
      occurrences masks .given (e + 1) (entries.length - (e + 1)))
    (hexpands : m = 0 → e + 1 = entries.length)
    (haxes : resolveFrom masks k rest (shape.drop (k - addedAxises)) = some axes) :
    buildAxes masks entries shape e (m - 1) ((List.range' k n).map masks.plainKind ++
        List.replicate m .ellipsis ++
        (List.range' (e + 1) (entries.length - (e + 1))).map masks.plainKind) k 0 addedAxises =
      some axes := by
  have hlength : rest.length = entries.length - k := by rw [← hrest, length_drop]
  have hother : ∀ i, i ≠ e → masks.ellipsisMask.testBit i = false := fun i hne =>
    Bool.eq_false_iff.2 fun h => hne (hsingle i h)
  induction n generalizing k rest addedAxises axes with
  | zero =>
    obtain rfl : e = k := he
    cases rest with
    | nil =>
      rw [length_nil] at hlength
      omega
    | cons entry rest =>
      rw [length_cons] at hlength
      have hkind : masks.kindAt e = .ellipsis := if_pos hellipsis
      have hcount : entries.length - (e + 1) = rest.length := by omega
      have hnext : entries.drop (e + 1) = rest := by
        rw [← tail_drop, hrest]
        rfl
      unfold resolveFrom at haxes
      rw [hkind] at haxes
      dsimp only at haxes
      have hzero : occurrences masks .given e 0 = 0 := rfl
      rw [hcount] at hm ⊢
      rw [hzero, Nat.sub_zero] at hm
      rw [← hm] at haxes
      obtain ⟨axes', haxes', rfl⟩ := Option.map_eq_some_iff.1 haxes
      rw [range'_zero, map_nil, nil_append]
      cases hmcase : m with
      | zero =>
        have hnil : rest = [] := length_eq_zero_iff.1 (by have := hexpands hmcase; omega)
        subst hnil
        rw [length_nil] at hm
        have hshape : shape.drop (e - addedAxises) = [] := by
          refine length_eq_zero_iff.1 ?_
          rw [hmcase] at hm
          have hocc : occurrences masks .given (e + 1) 0 = 0 := rfl
          omega
        unfold resolveFrom at haxes'
        rw [hshape] at haxes' ⊢
        rw [← Option.some.inj haxes']
        simp [buildAxes]
      | succ m' =>
        have hlt' : m' < (shape.drop (e - addedAxises)).length := by omega
        have hdrop : shape.drop (e + m' + 1 - addedAxises) =
            (shape.drop (e - addedAxises)).drop m := by
          rw [drop_drop]
          congr 1
          omega
        rw [← hdrop] at haxes'
        have hafter := @buildAxes_plain _ _ _ e m' rest _ (e + m' + 1) _ _ hnext
            (fun j _ => hother _ (by omega)) (by omega) (by omega) haxes'
        have hnone : (shape.drop (e + m' + 1 - addedAxises)).length -
            occurrences masks .given (e + 1) rest.length = 0 := by
          rw [hdrop, length_drop]
          omega
        rw [hnone, replicate_zero, append_nil] at hafter
        have hexpanded : e + m' - e = m' := by omega
        rw [Nat.add_sub_cancel, buildAxes_replicate hadded hlt', hexpanded, hafter]
        rfl
  | succ n ih =>
    cases rest with
    | nil =>
      rw [length_nil] at hlength
      omega
    | cons entry rest =>
      rw [length_cons] at hlength
      obtain ⟨axis, axes', addedAxises', rfl, hadded', -, haxes', hdropped, hbuild⟩ :=
        @resolveFrom_plain masks entries shape e (m - 1) k k 0 addedAxises entry rest axes
          (hother k (by omega)) hrest (Nat.add_zero k).symm (Nat.zero_le _) hadded haxes
      rw [occurrences_succ, hdropped, Nat.sub_add_eq, Nat.add_sub_cancel] at hm
      rw [range'_succ, map_cons, cons_append, cons_append]
      exact hbuild _ (ih rest (by omega) (drop_succ_eq hrest) hadded' hm haxes' (by omega))

/-! ## Both loops -/

/-- The masks have at most one ellipsis, and bits of indexes only; an ellipsis that stands for no
axis comes last. -/
structure MasksFit (masks : StridedSliceMasks) (beginCount inputDims : Nat) : Prop where
  ellipsis : ∀ i, masks.ellipsisMask.testBit i → i < beginCount
  newAxis : ∀ i, masks.newAxisMask.testBit i → i < beginCount
  single : ∀ i j, masks.ellipsisMask.testBit i → masks.ellipsisMask.testBit j → i = j
  expands : ∀ e, masks.ellipsisMask.testBit e →
    e + 1 = beginCount ∨ occurrences masks .given 0 beginCount < inputDims

theorem occurrences_le_of_resolve {rest : List SliceEntry} {k : Nat} {axes : List SliceAxis}
    (h : resolveFrom masks k rest shape = some axes) :
    occurrences masks .given k rest.length ≤ shape.length := by
  induction rest generalizing k shape axes with
  | nil => exact Nat.zero_le _
  | cons entry rest ih =>
    unfold resolveFrom at h
    rw [length_cons, occurrences_succ]
    split at h
    · rename_i hkind
      obtain ⟨_, h, -⟩ := Option.map_eq_some_iff.1 h
      have hrec := ih h
      rw [length_drop] at hrec
      rw [hkind, if_neg (by simp)]
      omega
    · rename_i hkind
      obtain ⟨_, h, -⟩ := Option.map_eq_some_iff.1 h
      rw [hkind, if_neg (by simp), Nat.zero_add]
      exact ih h
    · rename_i hkind
      split at h
      · cases h
      · obtain ⟨_, h, -⟩ := Option.map_eq_some_iff.1 h
        rw [hkind, if_pos rfl, length_cons, Nat.add_comm]
        exact Nat.succ_le_succ (ih h)

/-- The loops compute the axes that the subscripts stand for. -/
theorem buildStridedSliceParams_eq {axes : List SliceAxis}
    (hfit : MasksFit masks entries.length shape.length)
    (haxes : resolveFrom masks 0 entries shape = some axes) :
    buildStridedSliceParams masks entries shape = some axes := by
  have hle := occurrences_le_of_resolve haxes
  unfold buildStridedSliceParams
  dsimp only
  rw [numAddAxis_eq_occurrences]
  by_cases hellipsis : ∃ e, masks.ellipsisMask.testBit e
  · obtain ⟨e, he⟩ := hellipsis
    have hsingle : ∀ i, masks.ellipsisMask.testBit i → i = e := fun i hi => hfit.single i e hi he
    have hother : ∀ i, i ≠ e → masks.ellipsisMask.testBit i = false := fun i hne =>
      Bool.eq_false_iff.2 fun h => hne (hsingle i h)
    have hlt := hfit.ellipsis e he
    have hkind : masks.kindAt e = .ellipsis := if_pos he
    obtain ⟨post, hpost⟩ : ∃ post, entries.length = e + (1 + post) :=
      ⟨entries.length - (e + 1), by omega⟩
    have hgiven : occurrences masks .given 0 entries.length =
        occurrences masks .given 0 e + occurrences masks .given (e + 1) post := by
      rw [hpost, occurrences_append, Nat.zero_add, Nat.add_comm 1 post, occurrences_succ, hkind,
        if_neg (by simp), Nat.zero_add]
    have hadds : occurrences masks .newAxis 0 entries.length =
        occurrences masks .newAxis 0 e + occurrences masks .newAxis (e + 1) post := by
      rw [hpost, occurrences_append, Nat.zero_add, Nat.add_comm 1 post, occurrences_succ, hkind,
        if_neg (by simp), Nat.zero_add]
    have hbefore := @occurrences_plain masks e 0 fun j hj =>
      hother _ (by omega)
    have hafter := @occurrences_plain masks post (e + 1) fun j _ =>
      hother _ (by omega)
    have hexpands := hfit.expands e he
    have hresolves := @buildAxes_resolves _ _ _ _ e he hsingle entries _ 0
        (shape.length - occurrences masks .given 0 e - occurrences masks .given (e + 1) post) _
        (Nat.zero_add e).symm rfl hlt (Nat.le_refl 0)
        (by rw [Nat.sub_zero, drop_zero, hpost, Nat.add_sub_add_left, Nat.add_sub_cancel_left])
        (by omega) haxes
    have hcount : entries.length - (e + 1) = post := by omega
    rw [hcount] at hresolves
    generalize hm : shape.length - occurrences masks .given 0 e -
      occurrences masks .given (e + 1) post = m at hresolves
    have heff : shape.length + occurrences masks .newAxis 0 entries.length = e + (m + post) := by
      omega
    rw [heff, expandMasks_plain e (by omega) (by dsimp only; omega) (fun j hj => hother _ (by
      dsimp only; omega)) (Nat.zero_le _)]
    dsimp only
    rw [Nat.zero_add, nil_append, Nat.sub_zero, Nat.add_sub_cancel_left]
    cases m with
    | zero =>
      have hnil : post = 0 := by omega
      subst hnil
      rw [expandMasks_done (by dsimp only; omega)]
      rw [replicate_zero, append_nil, range'_zero, map_nil, append_nil] at hresolves
      exact hresolves
    | succ m =>
      have hend : max (e + 1) (min (e + 1 + numAddAxis masks entries.length + shape.length -
          entries.length) (e + (m + 1 + post))) = e + (m + 1) := by
        rw [numAddAxis_eq_occurrences]
        omega
      have hrounds : m + 1 + post = m + post + 1 := by omega
      conv_lhs =>
        rw [hrounds]
        unfold expandMasks
      rw [if_pos (by dsimp only; omega), if_pos he]
      dsimp only
      rw [← hrounds, hend, Nat.add_sub_cancel_left, Nat.add_sub_cancel,
        expandMasks_plain post (by omega) (by dsimp only; omega)
          (fun j _ => hother _ (by dsimp only; omega)) (by dsimp only; omega),
        expandMasks_done (by dsimp only; omega)]
      dsimp only
      have hfrom : e + (m + 1) - m = e + 1 := by omega
      rw [hfrom]
      exact hresolves
  · have hnone : ∀ i, masks.ellipsisMask.testBit i = false := fun i =>
      Bool.eq_false_iff.2 fun h => hellipsis ⟨i, h⟩
    have hcounts := @occurrences_plain masks entries.length 0 fun j _ =>
      hnone _
    obtain ⟨rest, hrest⟩ := Nat.exists_eq_add_of_le hle
    have heff : shape.length + occurrences masks .newAxis 0 entries.length =
        entries.length + rest := by omega
    have hwhole : (List.range' entries.length rest).map masks.plainKind =
        List.replicate rest .given := by
      refine eq_replicate_iff.2 ⟨by rw [length_map, length_range'], fun kind hkind => ?_⟩
      obtain ⟨i, hi, rfl⟩ := mem_map.1 hkind
      have hge := (mem_range'_1.1 hi).1
      have hbit : masks.newAxisMask.testBit i = false :=
        Bool.eq_false_iff.2 fun h => Nat.not_lt.2 hge (hfit.newAxis i h)
      unfold StridedSliceMasks.plainKind
      rw [if_neg (by rw [hbit]; exact Bool.false_ne_true)]
    have hplain := @buildAxes_plain _ _ _ (entries.length + rest) 0 entries _ _ 0 _ rfl
        (fun j _ => hnone _) rfl (Nat.le_refl 0) haxes
    rw [heff, expandMasks_plain (entries.length + rest) (Nat.le_refl _) (by dsimp only; omega)
      (fun j _ => hnone _) (Nat.zero_le _), expandMasks_done (by dsimp only; omega)]
    dsimp only
    rw [Nat.zero_sub, nil_append, ← range'_append_1, map_append, Nat.zero_add, hwhole]
    rw [Nat.sub_zero, drop_zero, hrest, Nat.add_sub_cancel_left] at hplain
    exact hplain

end

end LiteRt.Kernels
