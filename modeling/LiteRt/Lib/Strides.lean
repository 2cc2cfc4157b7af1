import LiteRt.Lib.Broadcast

/-!
# Loop nests with strides

Nested loops, innermost first, each of which moves two arrays on by a distance of its own. Places
are numbers modulo a word size.
-/

namespace LiteRt.Lib

open List

/-- A loop and the distances by which a round of it moves the arrays on. -/
structure StrideLevel where
  extent : Nat
  first : Nat
  second : Nat
  deriving DecidableEq, Repr

/-- The number of rounds of the innermost loop. -/
def steps (levels : List StrideLevel) : Nat := (levels.map StrideLevel.extent).prod

/-- How far one array has been moved on after some rounds of the innermost loop. -/
def stridedPlace (stride : StrideLevel → Nat) : List StrideLevel → Nat → Nat
  | [], _ => 0
  | x :: levels, t => t % x.extent * stride x + stridedPlace stride levels (t / x.extent)

/-- What the loops visit, as words. -/
def stridedVisits (word : Nat) (levels : List StrideLevel) (start : Visit) : List Visit :=
  (List.range (steps levels)).map fun t =>
    ⟨(start.output + t) % word, (start.first + stridedPlace StrideLevel.first levels t) % word,
      (start.second + stridedPlace StrideLevel.second levels t) % word⟩

section
variable {stride : StrideLevel → Nat} {levels xs ys : List StrideLevel} {x : StrideLevel}
  {word : Nat} {start : Visit}

@[simp] theorem steps_nil : steps [] = 1 := rfl

@[simp] theorem steps_cons (x : StrideLevel) (levels : List StrideLevel) :
    steps (x :: levels) = x.extent * steps levels := by
  unfold steps
  rw [map_cons, prod_cons]

theorem steps_append (xs ys : List StrideLevel) : steps (xs ++ ys) = steps xs * steps ys := by
  unfold steps
  rw [map_append, prod_append]

theorem stridedPlace_cons (x : StrideLevel) (levels : List StrideLevel) (t : Nat) :
    stridedPlace stride (x :: levels) t =
      t % x.extent * stride x + stridedPlace stride levels (t / x.extent) := rfl

theorem stridedPlace_append (xs ys : List StrideLevel) (t : Nat) :
    stridedPlace stride (xs ++ ys) t =
      stridedPlace stride xs t + stridedPlace stride ys (t / steps xs) := by
  induction xs generalizing t with
  | nil =>
    rw [nil_append, steps_nil, Nat.div_one]
    exact (Nat.zero_add _).symm
  | cons x xs ih =>
    rw [cons_append, stridedPlace_cons, stridedPlace_cons, ih, steps_cons,
      Nat.div_div_eq_div_mul, Nat.add_assoc]

/-- Whole rounds of all loops do not matter. -/
theorem stridedPlace_add_mul (levels : List StrideLevel) (n t : Nat) :
    stridedPlace stride levels (n * steps levels + t) = stridedPlace stride levels t := by
  induction levels generalizing t with
  | nil => rfl
  | cons x levels ih =>
    have hsplit : n * steps (x :: levels) + t = t + x.extent * (n * steps levels) := by
      rw [steps_cons]
      ring
    rw [stridedPlace_cons, stridedPlace_cons, hsplit, Nat.add_mul_mod_self_left]
    obtain hzero | hpos := Nat.eq_zero_or_pos x.extent
    · rw [hzero, Nat.zero_mul, Nat.add_zero]
    · rw [Nat.add_mul_div_left _ _ hpos, Nat.add_comm (t / x.extent), ih]

theorem stridedPlace_zero (levels : List StrideLevel) : stridedPlace stride levels 0 = 0 := by
  induction levels with
  | nil => rfl
  | cons x levels ih => rw [stridedPlace_cons, Nat.zero_mod, Nat.zero_mul, Nat.zero_div, ih]

/-- Loops with one round move nothing. -/
theorem stridedPlace_unit (h : ∀ x ∈ levels, x.extent = 1) (t : Nat) :
    stridedPlace stride levels t = 0 := by
  induction levels generalizing t with
  | nil => rfl
  | cons x levels ih =>
    rw [stridedPlace_cons, h x mem_cons_self, Nat.mod_one, Nat.zero_mul,
      ih fun y hy => h y (mem_cons_of_mem _ hy)]

theorem steps_unit (h : ∀ x ∈ levels, x.extent = 1) : steps levels = 1 := by
  induction levels with
  | nil => rfl
  | cons x levels ih =>
    rw [steps_cons, h x mem_cons_self, ih fun y hy => h y (mem_cons_of_mem _ hy)]

theorem stridedVisits_append_unit (xs : List StrideLevel) (h : ∀ x ∈ ys, x.extent = 1) :
    stridedVisits word (xs ++ ys) start = stridedVisits word xs start := by
  unfold stridedVisits
  rw [steps_append, steps_unit h, Nat.mul_one]
  refine map_congr_left fun t _ => ?_
  rw [stridedPlace_append, stridedPlace_append, stridedPlace_unit h, stridedPlace_unit h,
    Nat.add_zero, Nat.add_zero]

/-- Once the loops inside are through, a loop moves the arrays on by its distance. -/
theorem stridedPlace_steps (hpos : 0 < steps xs) (hx : 1 < x.extent) :
    stridedPlace stride (xs ++ x :: ys) (steps xs) = stride x := by
  have hround := @stridedPlace_add_mul stride xs 1 0
  rw [Nat.one_mul, Nat.add_zero, stridedPlace_zero] at hround
  rw [stridedPlace_append, hround, Nat.div_self hpos, stridedPlace_cons, Nat.mod_eq_of_lt hx,
    Nat.div_eq_of_lt hx, stridedPlace_zero]
  omega

/-- An outer loop repeats what is inside, with the arrays moved on. -/
theorem stridedVisits_outer (levels : List StrideLevel) (x : StrideLevel) (start : Visit) :
    stridedVisits word (levels ++ [x]) start = (List.range x.extent).flatMap fun c =>
      stridedVisits word levels ⟨start.output + c * steps levels, start.first + c * x.first,
        start.second + c * x.second⟩ := by
  unfold stridedVisits
  have hsize : steps (levels ++ [x]) = x.extent * steps levels := by
    rw [steps_append, steps_cons, steps_nil, Nat.mul_one, Nat.mul_comm]
  rw [hsize, range_mul, map_flatMap]
  refine flatMap_congr fun c hc => ?_
  rw [map_map]
  refine map_congr_left fun t ht => ?_
  have hc := mem_range.1 hc
  have ht := mem_range.1 ht
  have hplace : ∀ stride : StrideLevel → Nat,
      stridedPlace stride (levels ++ [x]) (c * steps levels + t) =
        c * stride x + stridedPlace stride levels t := by
    intro stride
    have hdiv : (c * steps levels + t) / steps levels = c := by
      rw [Nat.add_comm, Nat.mul_comm, Nat.add_mul_div_left _ _ (by omega), Nat.div_eq_of_lt ht,
        Nat.zero_add]
    rw [stridedPlace_append, stridedPlace_add_mul, hdiv, stridedPlace_cons, Nat.mod_eq_of_lt hc,
      Nat.add_comm]
    rfl
  simp only [Function.comp_apply, hplace, Nat.add_assoc]

theorem stridedVisits_mod (levels : List StrideLevel) (start : Visit) :
    stridedVisits word levels ⟨start.output % word, start.first % word, start.second % word⟩ =
      stridedVisits word levels start := by
  unfold stridedVisits
  simp only [Nat.mod_add_mod]

end

/-! ## The strides of broadcasting -/

/-- The loops along some axes inside which the arrays have `first` and `second` elements. -/
def broadcastLevels : Nat → Nat → List Axis → List StrideLevel
  | _, _, [] => []
  | first, second, a :: axes =>
    ⟨a.extent, if a.first = 1 then 0 else first, if a.second = 1 then 0 else second⟩ ::
      broadcastLevels (first * a.first) (second * a.second) axes

section
variable {axes xs ys : List Axis} {a : Axis} {word : Nat} {side : Axis → Nat}

theorem broadcastLevels_cons (first second : Nat) (a : Axis) (axes : List Axis) :
    broadcastLevels first second (a :: axes) =
      ⟨a.extent, if a.first = 1 then 0 else first, if a.second = 1 then 0 else second⟩ ::
        broadcastLevels (first * a.first) (second * a.second) axes := rfl

theorem steps_broadcastLevels (first second : Nat) (axes : List Axis) :
    steps (broadcastLevels first second axes) = outputSize axes := by
  induction axes generalizing first second with
  | nil => rfl
  | cons a axes ih =>
    rw [broadcastLevels_cons, steps_cons, ih, outputSize_cons]

theorem stridedPlace_broadcastLevels_first (first second : Nat) (axes : List Axis) (t : Nat) :
    stridedPlace StrideLevel.first (broadcastLevels first second axes) t =
      first * broadcastIndex Axis.first axes t := by
  induction axes generalizing first second t with
  | nil => rfl
  | cons a axes ih =>
    have hcons : broadcastIndex Axis.first (a :: axes) t =
        (if a.first = 1 then 0 else t % a.extent) +
          a.first * broadcastIndex Axis.first axes (t / a.extent) := rfl
    rw [broadcastLevels_cons, stridedPlace_cons, ih, hcons]
    dsimp only
    by_cases ha : a.first = 1
    · rw [if_pos ha, if_pos ha]
      ring
    · rw [if_neg ha, if_neg ha]
      ring

theorem stridedPlace_broadcastLevels_second (first second : Nat) (axes : List Axis) (t : Nat) :
    stridedPlace StrideLevel.second (broadcastLevels first second axes) t =
      second * broadcastIndex Axis.second axes t := by
  induction axes generalizing first second t with
  | nil => rfl
  | cons a axes ih =>
    have hcons : broadcastIndex Axis.second (a :: axes) t =
        (if a.second = 1 then 0 else t % a.extent) +
          a.second * broadcastIndex Axis.second axes (t / a.extent) := rfl
    rw [broadcastLevels_cons, stridedPlace_cons, ih, hcons]
    dsimp only
    by_cases ha : a.second = 1
    · rw [if_pos ha, if_pos ha]
      ring
    · rw [if_neg ha, if_neg ha]
      ring

/-! ### Bounds -/

theorem Axis.Compatible.first_le {a : Axis} (h : a.Compatible) (hpos : 0 < a.extent) :
    a.first ≤ a.extent := by
  obtain h | h | h := h
  · exact (Axis.extent_of_eq h).ge
  · omega
  · exact (Axis.extent_of_second h).ge

theorem Axis.Compatible.second_le {a : Axis} (h : a.Compatible) (hpos : 0 < a.extent) :
    a.second ≤ a.extent := by
  obtain h | h | h := h
  · exact h.ge.trans (Axis.extent_of_eq h).ge
  · exact (Axis.extent_of_first h).ge
  · omega

/-- An array has no more elements than the output. -/
theorem inputSize_le (h : ∀ a ∈ axes, side a ≤ a.extent) :
    inputSize side axes ≤ outputSize axes := by
  induction axes with
  | nil => exact Nat.le_refl 1
  | cons a axes ih =>
    rw [inputSize_cons, outputSize_cons]
    exact Nat.mul_le_mul (h a mem_cons_self) (ih fun b hb => h b (mem_cons_of_mem _ hb))

/-- The place is one in the array. -/
theorem broadcastIndex_lt (h : ∀ a ∈ axes, side a = 1 ∨ side a = a.extent) {t : Nat}
    (ht : t < outputSize axes) :
    broadcastIndex side axes t < inputSize side axes := by
  induction axes generalizing t with
  | nil => exact Nat.one_pos
  | cons a axes ih =>
    rw [outputSize_cons] at ht
    have hpos : 0 < a.extent := Nat.pos_of_mul_pos_right (Nat.lt_of_le_of_lt (Nat.zero_le t) ht)
    have hrest := ih (fun b hb => h b (mem_cons_of_mem _ hb)) (Nat.div_lt_of_lt_mul ht)
    have hdigit : (if side a = 1 then 0 else t % a.extent) < side a := by
      split
      · omega
      · have hside := (h a mem_cons_self).resolve_left ‹_›
        rw [hside]
        exact Nat.mod_lt _ hpos
    have hcons : broadcastIndex side (a :: axes) t = (if side a = 1 then 0 else t % a.extent) +
        side a * broadcastIndex side axes (t / a.extent) := rfl
    rw [hcons, inputSize_cons]
    calc (if side a = 1 then 0 else t % a.extent) + side a * broadcastIndex side axes (t / a.extent)
      _ < side a + side a * broadcastIndex side axes (t / a.extent) := by omega
      _ = side a * (broadcastIndex side axes (t / a.extent) + 1) := by ring
      _ ≤ side a * inputSize side axes := Nat.mul_le_mul_left _ hrest

/-! ### Loops that broadcast -/

theorem map_extent_broadcastLevels (first second : Nat) (axes : List Axis) :
    (broadcastLevels first second axes).map StrideLevel.extent = axes.map Axis.extent := by
  induction axes generalizing first second with
  | nil => rfl
  | cons a axes ih => rw [broadcastLevels_cons, map_cons, map_cons, ih]

/-- Loops that go to the same places have the same distances. -/
theorem levels_eq_of_places {levels levels' : List StrideLevel}
    (hextents : levels.map StrideLevel.extent = levels'.map StrideLevel.extent)
    (hrounds : ∀ x ∈ levels, 1 < x.extent) (hstrides : ∀ x ∈ levels, x.first < word ∧ x.second < word)
    (hplaces : ∀ t < steps levels,
      stridedPlace StrideLevel.first levels t % word = stridedPlace StrideLevel.first levels' t ∧
        stridedPlace StrideLevel.second levels t % word =
          stridedPlace StrideLevel.second levels' t) :
    levels = levels' := by
  have hlength : levels.length = levels'.length := by
    have h := congrArg List.length hextents
    rwa [length_map, length_map] at h
  refine ext_getElem hlength fun d hd hd' => ?_
  have hsplit : levels = levels.take d ++ levels[d] :: levels.drop (d + 1) := by
    rw [getElem_cons_drop, take_append_drop]
  have hsplit' : levels' = levels'.take d ++ levels'[d] :: levels'.drop (d + 1) := by
    rw [getElem_cons_drop, take_append_drop]
  have hextent : levels[d].extent = levels'[d].extent := by
    have h := getElem_of_eq hextents (i := d) (by rwa [length_map])
    rwa [getElem_map, getElem_map] at h
  have hinner : steps (levels.take d) = steps (levels'.take d) := by
    unfold steps
    rw [map_take, map_take, hextents]
  have hpositive : ∀ xs : List StrideLevel, (∀ x ∈ xs, 1 < x.extent) → 0 < steps xs := by
    intro xs h
    induction xs with
    | nil => exact Nat.one_pos
    | cons x xs ih =>
      rw [steps_cons]
      exact Nat.mul_pos (Nat.lt_trans Nat.zero_lt_one (h x mem_cons_self))
        (ih fun y hy => h y (mem_cons_of_mem _ hy))
  have hround : 1 < levels[d].extent := hrounds _ (getElem_mem hd)
  have hpos : 0 < steps (levels.take d) :=
    hpositive _ fun x hx => hrounds x (mem_of_mem_take hx)
  have hrest : 0 < steps (levels.drop (d + 1)) :=
    hpositive _ fun x hx => hrounds x (mem_of_mem_drop hx)
  have hlt : steps (levels.take d) < steps levels := by
    conv_rhs => rw [hsplit, steps_append, steps_cons]
    exact lt_mul_of_one_lt_right hpos (Nat.lt_of_lt_of_le hround (Nat.le_mul_of_pos_right _ hrest))
  have hstride : ∀ stride : StrideLevel → Nat,
      stridedPlace stride levels (steps (levels.take d)) = stride levels[d] := by
    intro stride
    have h := @stridedPlace_steps stride _ (levels.drop (d + 1)) _ hpos hround
    rwa [← hsplit] at h
  have hstride' : ∀ stride : StrideLevel → Nat,
      stridedPlace stride levels' (steps (levels.take d)) = stride levels'[d] := by
    intro stride
    rw [hextent] at hround
    rw [hinner] at hpos ⊢
    have h := @stridedPlace_steps stride _ (levels'.drop (d + 1)) _ hpos hround
    rwa [← hsplit'] at h
  obtain ⟨hfirst, hsecond⟩ := hplaces _ hlt
  obtain ⟨hfirstLt, hsecondLt⟩ := hstrides _ (getElem_mem hd)
  rw [hstride, hstride', Nat.mod_eq_of_lt hfirstLt] at hfirst
  rw [hstride, hstride', Nat.mod_eq_of_lt hsecondLt] at hsecond
  calc levels[d]
    _ = ⟨levels[d].extent, levels[d].first, levels[d].second⟩ := rfl
    _ = levels'[d] := by rw [hextent, hfirst, hsecond]

theorem prod_mod_eq {l : List Nat} (hpos : 0 < l.prod)
    (h : (l.map (· % word)).prod = l.prod) : ∀ n ∈ l, n % word = n := by
  have hle : ∀ l : List Nat, (l.map (· % word)).prod ≤ l.prod := by
    intro l
    induction l with
    | nil => exact Nat.le_refl 1
    | cons n l ih =>
      rw [map_cons, prod_cons, prod_cons]
      exact Nat.mul_le_mul (Nat.mod_le _ _) ih
  induction l with
  | nil => intro n hn; cases hn
  | cons n l ih =>
    rw [prod_cons] at hpos
    rw [map_cons, prod_cons, prod_cons] at h
    have hn : 0 < n := Nat.pos_of_mul_pos_right hpos
    have hl : 0 < l.prod := Nat.pos_of_mul_pos_left hpos
    have hhead : n % word = n := by
      refine Nat.le_antisymm (Nat.mod_le _ _) (Nat.le_of_not_lt fun hlt => ?_)
      have hstrict : n % word * (l.map (· % word)).prod < n * l.prod :=
        calc n % word * (l.map (· % word)).prod
          _ ≤ n % word * l.prod := Nat.mul_le_mul_left _ (hle l)
          _ < n * l.prod := Nat.mul_lt_mul_of_pos_right hlt hl
      exact absurd h hstrict.ne
    rw [hhead] at h
    exact forall_mem_cons.2 ⟨hhead, ih hl (Nat.eq_of_mul_eq_mul_left hn h)⟩

/-- Loops over words visit what the axes say exactly when the output has a place for each word
that is reached and the distances are those of broadcasting. -/
theorem stridedVisits_eq_visits_iff (hword : 0 < word) {levels : List StrideLevel}
    (hextents : levels.map StrideLevel.extent = axes.map fun a => a.extent % word)
    (hstrides : ∀ x ∈ levels, x.first < word ∧ x.second < word)
    (haxes : ∀ a ∈ axes, a.Compatible ∧ 1 < a.extent) :
    stridedVisits word levels ⟨0, 0, 0⟩ = visits axes ⟨0, 0, 0⟩ ↔
      outputSize axes ≤ word ∧ levels = broadcastLevels 1 1 axes := by
  have hpos : 0 < outputSize axes := by
    clear hextents
    induction axes with
    | nil => exact Nat.one_pos
    | cons a axes ih =>
      rw [outputSize_cons]
      exact Nat.mul_pos (Nat.lt_trans Nat.zero_lt_one (haxes a mem_cons_self).2)
        (ih fun b hb => haxes b (mem_cons_of_mem _ hb))
  have hfirst : ∀ t, broadcastIndex Axis.first axes t =
      stridedPlace StrideLevel.first (broadcastLevels 1 1 axes) t := fun t => by
    rw [stridedPlace_broadcastLevels_first, Nat.one_mul]
  have hsecond : ∀ t, broadcastIndex Axis.second axes t =
      stridedPlace StrideLevel.second (broadcastLevels 1 1 axes) t := fun t => by
    rw [stridedPlace_broadcastLevels_second, Nat.one_mul]
  constructor
  · intro h
    have hsteps : steps levels = outputSize axes := by
      have hlength := congrArg List.length h
      unfold stridedVisits visits at hlength
      rwa [length_map, length_map, length_range, length_range] at hlength
    have hvisit : ∀ t < outputSize axes, t % word = t ∧
        stridedPlace StrideLevel.first levels t % word = broadcastIndex Axis.first axes t ∧
        stridedPlace StrideLevel.second levels t % word = broadcastIndex Axis.second axes t := by
      intro t ht
      unfold stridedVisits visits at h
      rw [hsteps] at h
      have hat := map_inj_left.1 h t (mem_range.2 ht)
      simp only [Nat.zero_add, Visit.mk.injEq] at hat
      exact hat
    have hsize : outputSize axes ≤ word := by
      refine Nat.le_of_not_lt fun hlt => ?_
      have hself := (hvisit word hlt).1
      rw [Nat.mod_self] at hself
      omega
    have hmod : ∀ a ∈ axes, a.extent % word = a.extent := by
      have hprod : ((axes.map Axis.extent).map (· % word)).prod = (axes.map Axis.extent).prod := by
        unfold steps at hsteps
        rw [hextents] at hsteps
        rw [map_map]
        exact hsteps
      intro a ha
      exact prod_mod_eq hpos hprod _ (mem_map_of_mem ha)
    have hextents' : levels.map StrideLevel.extent =
        (broadcastLevels 1 1 axes).map StrideLevel.extent := by
      rw [hextents, map_extent_broadcastLevels]
      exact map_congr_left hmod
    refine ⟨hsize, levels_eq_of_places hextents' (fun x hx => ?_) hstrides fun t ht => ?_⟩
    · have hmem : x.extent ∈ axes.map Axis.extent := by
        rw [← map_extent_broadcastLevels 1 1, ← hextents']
        exact mem_map_of_mem hx
      obtain ⟨a, ha, hxa⟩ := mem_map.1 hmem
      rw [← hxa]
      exact (haxes a ha).2
    · rw [← hfirst, ← hsecond]
      exact (hvisit t (hsteps ▸ ht)).2
  · rintro ⟨hsize, rfl⟩
    unfold stridedVisits visits
    rw [steps_broadcastLevels]
    refine map_congr_left fun t ht => ?_
    have ht := mem_range.1 ht
    have hside : ∀ side : Axis → Nat, (∀ a ∈ axes, side a = 1 ∨ side a = a.extent) →
        broadcastIndex side axes t % word = broadcastIndex side axes t := by
      intro side h
      have hle : ∀ a ∈ axes, side a ≤ a.extent := fun a ha => by
        have hround := (haxes a ha).2
        obtain hone | hextent := h a ha <;> omega
      exact Nat.mod_eq_of_lt (Nat.lt_of_lt_of_le (broadcastIndex_lt h ht)
        ((inputSize_le hle).trans hsize))
    rw [← hfirst, ← hsecond, Nat.zero_add, Nat.zero_add, Nat.zero_add,
      Nat.mod_eq_of_lt (Nat.lt_of_lt_of_le ht hsize), hside, hside]
    · intro a ha
      obtain h | h | h := (haxes a ha).1
      · exact .inr (h.symm.trans (Axis.extent_of_eq h).symm)
      · exact .inr (Axis.extent_of_first h).symm
      · exact .inl h
    · intro a ha
      obtain h | h | h := (haxes a ha).1
      · exact .inr (Axis.extent_of_eq h).symm
      · exact .inl h
      · exact .inr (Axis.extent_of_second h).symm

end

end LiteRt.Lib
