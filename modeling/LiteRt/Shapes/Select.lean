import LiteRt.Shapes.Inference

/-!
# Broadcasting of two and of three shapes

`InferElementwiseBinary` and `InferSelect` compute the dimensions of the output one at a time,
from the right. Without a zero both take the one dimension that is not 1, but the running maximum
of `InferSelect` takes a zero for a 1 until a larger dimension comes.
-/

namespace LiteRt.Shapes

open List

def maxRank (shapes : List Dims) : Nat := (shapes.map List.length).foldr max 0

/-- The dimension of the output of a binary op. -/
def binaryDim (d1 d2 : Int) : Infer Int :=
  if d1 = -1 ∨ d2 = -1 then pure (-1)
  else if d1 = d2 then pure d1
  else if d1 = 1 then pure d2
  else if d2 = 1 then pure d1
  else .error .shapeInferenceFailed

def inferElementwiseBinary : List Dims → Infer Dims
  | [s1, s2] =>
    fromRight (fun i => binaryDim (dimFromRight s1 i) (dimFromRight s2 i)) (maxRank [s1, s2])
  | _ => .error .shapeInferenceFailed

/-- A step of the loop over the dimensions at a position. -/
def selectStep (outDim dim : Int) : Infer Int :=
  if dim ≠ 1 ∧ outDim ≠ 1 ∧ dim ≠ outDim then .error .invalidArgument
  else if dim > outDim then pure dim else pure outDim

def selectDim (dims : List Int) : Infer Int :=
  if -1 ∈ dims then pure (-1) else dims.foldlM selectStep 1

def inferSelect : List Dims → Infer Dims
  | [s1, s2, s3] =>
    fromRight (fun i => selectDim [dimFromRight s1 i, dimFromRight s2 i, dimFromRight s3 i])
      (maxRank [s1, s2, s3])
  | _ => .error .invalidArgument

/-- Every dimension is 1 or the common one. -/
def Joins (dims : List Int) (r : Int) : Prop :=
  (∀ d ∈ dims, d = 1 ∨ d = r) ∧ (r = 1 ∨ r ∈ dims)

/-- A dimension above 1 stands in front of one that is neither 1 nor equal to it. -/
def Clashes (dims : List Int) : Prop :=
  ∃ d e, [d, e].Sublist dims ∧ 1 < d ∧ e ≠ 1 ∧ e ≠ d

section
variable {dims dims' : List Int} {x y out d r : Int}

theorem Joins.perm (h : dims.Perm dims') : Joins dims r ↔ Joins dims' r := by
  unfold Joins
  simp only [h.mem_iff]

theorem joins_one_cons : Joins (1 :: dims) r ↔ Joins dims r := by
  unfold Joins
  simp only [mem_cons, forall_eq_or_imp, true_or, true_and]
  tauto

/-- The first two dimensions can be joined before the others. -/
theorem joins_cons_cons :
    (∃ t, Joins [x, y] t ∧ Joins (t :: dims) r) ↔ Joins (x :: y :: dims) r := by
  unfold Joins
  simp only [mem_cons, not_mem_nil, or_false, forall_eq_or_imp, forall_eq]
  constructor
  · rintro ⟨t, ⟨⟨hx, hy⟩, ht⟩, ⟨htr, hall⟩, hr⟩
    refine ⟨⟨?_, ?_, hall⟩, ?_⟩ <;> grind
  · rintro ⟨⟨hx, hy, hall⟩, hr⟩
    by_cases hone : x = 1 ∧ y = 1
    · exact ⟨1, ⟨⟨.inl hone.1, .inl hone.2⟩, .inl rfl⟩, ⟨.inl rfl, hall⟩, by grind⟩
    · exact ⟨r, ⟨⟨hx, hy⟩, by grind⟩, ⟨.inr rfl, hall⟩, .inr (.inl rfl)⟩

theorem joins_pair (h : Joins [x, y] r) : r = x ∨ r = y := by
  unfold Joins at h
  simp only [mem_cons, not_mem_nil, or_false, forall_eq_or_imp, forall_eq] at h
  omega

theorem Clashes.not_joins (h : Clashes dims) : ¬ Joins dims r := by
  rintro ⟨hall, -⟩
  obtain ⟨d, e, hsub, hd, he, hne⟩ := h
  have hd' := hall d (hsub.subset (mem_cons_self ..))
  have he' := hall e (hsub.subset (mem_cons_of_mem _ (mem_cons_self ..)))
  omega

theorem not_clashes_iff :
    ¬ Clashes dims ↔ dims.Pairwise fun d e => 1 < d → e = 1 ∨ e = d := by
  rw [pairwise_iff_forall_sublist]
  unfold Clashes
  constructor
  · intro h d e hsub hd
    by_contra hne
    exact h ⟨d, e, hsub, hd, fun he => hne (.inl he), fun he => hne (.inr he)⟩
  · rintro h ⟨d, e, hsub, hd, he, hne⟩
    exact (h hsub hd).elim he hne

theorem binaryDim_ok (hx : 0 ≤ x) (hy : 0 ≤ y) : binaryDim x y = .ok r ↔ Joins [x, y] r := by
  unfold binaryDim Joins
  simp only [mem_cons, not_mem_nil, or_false, forall_eq_or_imp, forall_eq]
  rw [if_neg (by omega)]
  split
  · show Except.ok _ = _ ↔ _
    rw [Except.ok.injEq]
    omega
  split
  · show Except.ok _ = _ ↔ _
    rw [Except.ok.injEq]
    omega
  split
  · show Except.ok _ = _ ↔ _
    rw [Except.ok.injEq]
    omega
  · exact ⟨fun h => (by cases h), fun h => (by omega)⟩

/-- Zero stands for 1 as long as no dimension is above 1. -/
theorem selectStep_ok (hout : 1 ≤ out) : selectStep out d = .ok r ↔
    (1 < out → d = 1 ∨ d = out) ∧ r = max out d := by
  unfold selectStep
  split
  · exact ⟨fun h => (by cases h), fun h => (by omega)⟩
  split
  · show Except.ok _ = _ ↔ _
    rw [Except.ok.injEq]
    omega
  · show Except.ok _ = _ ↔ _
    rw [Except.ok.injEq]
    omega

theorem selectStep_joins (hout : 1 ≤ out) (hd : 1 ≤ d) :
    selectStep out d = .ok r ↔ Joins [out, d] r := by
  rw [selectStep_ok hout]
  unfold Joins
  simp only [mem_cons, not_mem_nil, or_false, forall_eq_or_imp, forall_eq]
  omega

theorem foldlM_selectStep_cons : (d :: dims).foldlM selectStep out = .ok r ↔
    ∃ t, selectStep out d = .ok t ∧ dims.foldlM selectStep t = .ok r := by
  rw [foldlM_cons]
  cases selectStep out d with
  | error e =>
    constructor
    · intro h
      cases h
    · rintro ⟨t, ht, -⟩
      cases ht
  | ok t =>
    constructor
    · intro h
      exact ⟨t, rfl, h⟩
    · rintro ⟨t, ht, hr⟩
      cases ht
      exact hr

theorem foldlM_selectStep_joins (hout : 1 ≤ out) (hdims : ∀ d ∈ dims, 1 ≤ d) :
    dims.foldlM selectStep out = .ok r ↔ Joins (out :: dims) r := by
  induction dims generalizing out with
  | nil =>
    show Except.ok out = _ ↔ _
    rw [Except.ok.injEq]
    unfold Joins
    simp only [mem_cons, not_mem_nil, or_false, forall_eq]
    omega
  | cons d dims ih =>
    have hd := hdims d (mem_cons_self ..)
    rw [foldlM_selectStep_cons, ← joins_cons_cons]
    refine exists_congr fun t => ?_
    rw [selectStep_joins hout hd]
    refine and_congr_right fun ht => ih ?_ fun e he => hdims e (mem_cons_of_mem _ he)
    obtain rfl | rfl := joins_pair ht
    · exact hout
    · exact hd

/-- The loop ends without an error if no two dimensions clash, and its result is at least 1. -/
theorem foldlM_selectStep_isOk (hout : 1 ≤ out) :
    (∃ r, dims.foldlM selectStep out = .ok r) ↔
      (out :: dims).Pairwise fun d e => 1 < d → e = 1 ∨ e = d := by
  induction dims generalizing out with
  | nil => exact ⟨fun _ => pairwise_singleton _ _, fun _ => ⟨out, rfl⟩⟩
  | cons d dims ih =>
    simp only [foldlM_selectStep_cons, selectStep_ok hout]
    have hmax : 1 ≤ max out d := by omega
    have ih' := ih hmax
    rw [pairwise_cons] at ih'
    rw [pairwise_cons, pairwise_cons]
    constructor
    · rintro ⟨r, t, ⟨hd, rfl⟩, hr⟩
      obtain ⟨hall, hpair⟩ := ih'.1 ⟨r, hr⟩
      refine ⟨?_, ?_, hpair⟩
      · rw [forall_mem_cons]
        refine ⟨hd, fun e he hlt => ?_⟩
        have := hall e he
        omega
      · intro e he hlt
        have := hall e he
        omega
    · rintro ⟨hout', hd, hpair⟩
      rw [forall_mem_cons] at hout'
      obtain ⟨r, hr⟩ := ih'.2 ⟨fun e he hlt => by
        have h1 := hout'.2 e he
        have h2 := hd e he
        omega, hpair⟩
      exact ⟨r, _, ⟨hout'.1, rfl⟩, hr⟩

theorem foldlM_selectStep_pos (hout : 1 ≤ out) (h : dims.foldlM selectStep out = .ok r) :
    1 ≤ r := by
  induction dims generalizing out with
  | nil =>
    cases h
    exact hout
  | cons d dims ih =>
    obtain ⟨t, ht, hr⟩ := foldlM_selectStep_cons.1 h
    have ht' := ((selectStep_ok hout).1 ht).2
    exact ih (by omega) hr

theorem foldlM_selectStep_error {e : Failure} (h : dims.foldlM selectStep out = .error e) :
    e = .invalidArgument := by
  induction dims generalizing out with
  | nil => cases h
  | cons d dims ih =>
    rw [foldlM_cons] at h
    cases hd : selectStep out d with
    | error e' =>
      rw [hd] at h
      cases h
      unfold selectStep at hd
      split at hd
      · cases hd
        rfl
      · split at hd <;> cases hd
    | ok t =>
      rw [hd] at h
      exact ih h

end

/-- No dimension is unknown. -/
def Static (shape : Dims) : Prop := ∀ d ∈ shape, 0 ≤ d

instance (shape : Dims) : Decidable (Static shape) :=
  inferInstanceAs (Decidable (∀ d ∈ shape, 0 ≤ d))

/-- The dimensions of the shapes at a position. -/
abbrev dimsAt (shapes : List Dims) (i : Nat) : List Int := shapes.map (dimFromRight · i)

section
variable {shapes shapes' : List Dims} {a b c s : Dims} {i : Nat}

theorem Static.dim (h : Static a) (i : Nat) : 0 ≤ dimFromRight a i := by
  obtain hmem | hone := dimFromRight_mem a i
  · exact h _ hmem
  · omega

theorem le_maxRank (h : a ∈ shapes) : a.length ≤ maxRank shapes := by
  induction shapes with
  | nil => cases h
  | cons x shapes ih =>
    show a.length ≤ max x.length (maxRank shapes)
    rcases mem_cons.1 h with rfl | h
    · exact Nat.le_max_left _ _
    · exact Nat.le_trans (ih h) (Nat.le_max_right _ _)

theorem maxRank_perm (h : shapes.Perm shapes') : maxRank shapes = maxRank shapes' :=
  (h.map List.length).foldr_eq' (fun x _ y _ z => by omega) 0

theorem dimsAt_of_le (h : maxRank shapes ≤ i) : ∀ d ∈ dimsAt shapes i, d = 1 := by
  rw [forall_mem_map]
  intro a ha
  exact dimFromRight_of_le (Nat.le_trans (le_maxRank ha) h)

theorem dimsAt_nonneg (h : ∀ a ∈ shapes, Static a) : ∀ d ∈ dimsAt shapes i, 0 ≤ d := by
  rw [forall_mem_map]
  intro a ha
  exact (h a ha).dim i

theorem dimsAt_pos (h : ∀ a ∈ shapes, Static a) (hz : ∀ a ∈ shapes, 0 ∉ a) :
    ∀ d ∈ dimsAt shapes i, 1 ≤ d := by
  rw [forall_mem_map]
  intro a ha
  have hdim := (h a ha).dim i
  rcases dimFromRight_mem a i with hmem | hone
  · have hne : dimFromRight a i ≠ 0 := fun h0 => hz a ha (h0 ▸ hmem)
    omega
  · omega

theorem inferElementwiseBinary_ok (ha : Static a) (hb : Static b) :
    inferElementwiseBinary [a, b] = .ok s ↔
      s.length = maxRank [a, b] ∧ ∀ i, Joins (dimsAt [a, b] i) (dimFromRight s i) := by
  unfold inferElementwiseBinary
  rw [fromRight_eq_ok_forall]
  · exact and_congr_right fun _ => forall_congr' fun i => binaryDim_ok (ha.dim i) (hb.dim i)
  · intro i hi
    have hone := dimsAt_of_le hi
    have ha1 : dimFromRight a i = 1 := hone _ (mem_cons_self ..)
    have hb1 : dimFromRight b i = 1 := hone _ (mem_cons_of_mem _ (mem_cons_self ..))
    rw [ha1, hb1]
    rfl

theorem Joins.static (ha : Static a) (hb : Static b)
    (h : ∀ i, Joins (dimsAt [a, b] i) (dimFromRight s i)) : Static s := by
  intro d hd
  obtain ⟨i, -, rfl⟩ := exists_dimFromRight hd
  obtain hs | hs := joins_pair (h i)
  · exact hs ▸ ha.dim i
  · exact hs ▸ hb.dim i

/-- Broadcasting two shapes and then the third joins the dimensions of the three. -/
theorem binary_binary_ok (ha : Static a) (hb : Static b) (hc : Static c) :
    (∃ t, inferElementwiseBinary [a, b] = .ok t ∧ inferElementwiseBinary [t, c] = .ok s) ↔
      s.length = maxRank [a, b, c] ∧ ∀ i, Joins (dimsAt [a, b, c] i) (dimFromRight s i) := by
  have hrank : ∀ t : Dims, t.length = maxRank [a, b] → maxRank [t, c] = maxRank [a, b, c] := by
    intro t ht
    show max t.length (max c.length 0) = max a.length (max b.length (max c.length 0))
    rw [ht]
    show max (max a.length (max b.length 0)) (max c.length 0) = _
    omega
  constructor
  · rintro ⟨t, htab, htc⟩
    obtain ⟨htlen, ht⟩ := (inferElementwiseBinary_ok ha hb).1 htab
    obtain ⟨hslen, hs⟩ := (inferElementwiseBinary_ok (Joins.static ha hb ht) hc).1 htc
    exact ⟨hslen.trans (hrank t htlen), fun i => joins_cons_cons.1 ⟨_, ht i, hs i⟩⟩
  · rintro ⟨hslen, hs⟩
    choose f hab hfc using fun i => joins_cons_cons.2 (hs i)
    obtain ⟨t, htlen, ht⟩ := @exists_shape (maxRank [a, b]) f fun i hi => by
      have hone := dimsAt_of_le hi
      obtain hf | hf := joins_pair (hab i)
      · exact hf.trans (hone _ (mem_cons_self ..))
      · exact hf.trans (hone _ (mem_cons_of_mem _ (mem_cons_self ..)))
    have htab : ∀ i, Joins (dimsAt [a, b] i) (dimFromRight t i) := fun i => ht i ▸ hab i
    refine ⟨t, (inferElementwiseBinary_ok ha hb).2 ⟨htlen, htab⟩, ?_⟩
    refine (inferElementwiseBinary_ok (Joins.static ha hb htab) hc).2 ⟨?_, fun i => ?_⟩
    · rw [hslen, hrank t htlen]
    · have hjoin := hfc i
      rw [← ht i] at hjoin
      exact hjoin

theorem inferSelect_eq (h : shapes.length = 3) :
    inferSelect shapes = fromRight (fun i => selectDim (dimsAt shapes i)) (maxRank shapes) := by
  obtain ⟨a, b, c, rfl⟩ := length_eq_three.1 h
  rfl

theorem selectDim_eq {dims : List Int} (h : ∀ d ∈ dims, 0 ≤ d) :
    selectDim dims = dims.foldlM selectStep 1 :=
  if_neg fun hmem => by have := h _ hmem; omega

theorem foldlM_selectStep_isOk_one {dims : List Int} :
    (∃ r, dims.foldlM selectStep 1 = .ok r) ↔ ¬ Clashes dims := by
  rw [foldlM_selectStep_isOk (Int.le_refl 1), not_clashes_iff, pairwise_cons]
  exact ⟨fun h => h.2, fun h => ⟨fun e _ hlt => by omega, h⟩⟩

theorem inferSelect_ok (hlen : shapes.length = 3) (hs : ∀ a ∈ shapes, Static a) :
    inferSelect shapes = .ok s ↔ s.length = maxRank shapes ∧
        ∀ i, (dimsAt shapes i).foldlM selectStep 1 = .ok (dimFromRight s i) := by
  rw [inferSelect_eq hlen, fromRight_eq_ok_forall]
  · refine and_congr_right fun _ => forall_congr' fun i => ?_
    rw [selectDim_eq (dimsAt_nonneg hs)]
  · intro i hi
    have hone := dimsAt_of_le hi
    rw [selectDim_eq (dimsAt_nonneg hs), foldlM_selectStep_joins (Int.le_refl 1)]
    · refine ⟨fun d hd => .inl ?_, .inl rfl⟩
      rcases mem_cons.1 hd with hd | hd
      · exact hd
      · exact hone d hd
    · exact fun d hd => Int.le_of_eq (hone d hd).symm

theorem inferSelect_joins (hlen : shapes.length = 3) (hs : ∀ a ∈ shapes, Static a)
    (hz : ∀ a ∈ shapes, 0 ∉ a) : inferSelect shapes = .ok s ↔
      s.length = maxRank shapes ∧ ∀ i, Joins (dimsAt shapes i) (dimFromRight s i) := by
  rw [inferSelect_ok hlen hs]
  refine and_congr_right fun _ => forall_congr' fun i => ?_
  rw [foldlM_selectStep_joins (Int.le_refl 1) (dimsAt_pos hs hz), joins_one_cons]

/-- It succeeds if no dimensions clash at any position. -/
theorem inferSelect_isOk (hlen : shapes.length = 3) (hs : ∀ a ∈ shapes, Static a) :
    (∃ s, inferSelect shapes = .ok s) ↔ ∀ i, ¬ Clashes (dimsAt shapes i) := by
  simp only [← foldlM_selectStep_isOk_one]
  constructor
  · rintro ⟨s, h⟩ i
    exact ⟨_, ((inferSelect_ok hlen hs).1 h).2 i⟩
  · intro h
    rw [inferSelect_eq hlen, fromRight_isOk]
    intro i _
    rw [selectDim_eq (dimsAt_nonneg hs)]
    exact h i

theorem inferSelect_error (hlen : shapes.length = 3) {e : Failure}
    (h : inferSelect shapes = .error e) : e = .invalidArgument := by
  rw [inferSelect_eq hlen] at h
  obtain ⟨i, -, he⟩ := fromRight_eq_error h
  unfold selectDim at he
  split at he
  · cases he
  · exact foldlM_selectStep_error he

/-- Two inferences that succeed with the same shapes are equal. -/
theorem inferSelect_congr (h : shapes.length = 3) (h' : shapes'.length = 3)
    (hok : ∀ s, inferSelect shapes = .ok s ↔ inferSelect shapes' = .ok s) :
    inferSelect shapes = inferSelect shapes' := by
  cases he : inferSelect shapes with
  | ok s => exact ((hok s).1 he).symm
  | error e =>
    cases he' : inferSelect shapes' with
    | ok s =>
      have := (hok s).2 he'
      rw [he] at this
      cases this
    | error e' => rw [inferSelect_error h he, inferSelect_error h' he']

/-- A zero is kept by the binary ops and lost by a select op that succeeds. -/
theorem zero_not_mem_of_agree (hlen : shapes.length = 3) (hs : ∀ a ∈ shapes, Static a)
    (hsel : inferSelect shapes = .ok s) (hjoin : ∀ i, Joins (dimsAt shapes i) (dimFromRight s i)) :
    ∀ a ∈ shapes, 0 ∉ a := by
  intro a ha hzero
  obtain ⟨i, -, hi⟩ := exists_dimFromRight hzero
  have hpos := foldlM_selectStep_pos (Int.le_refl 1) (((inferSelect_ok hlen hs).1 hsel).2 i)
  obtain h1 | hr := (hjoin i).1 _ (mem_map_of_mem ha)
  · rw [hi] at h1
    cases h1
  · rw [hi] at hr
    omega

/-- The select op agrees with the binary ops, in every order of the shapes, if there is no zero or
if it fails in every order. -/
theorem inferSelect_agrees_iff (ha : Static a) (hb : Static b) (hc : Static c) :
    ((∀ s, inferSelect [a, b, c] = .ok s ↔
        ∃ t, inferElementwiseBinary [a, b] = .ok t ∧ inferElementwiseBinary [t, c] = .ok s) ∧
      ∀ shapes, shapes.Perm [a, b, c] → inferSelect shapes = inferSelect [a, b, c]) ↔
      (0 ∉ a ∧ 0 ∉ b ∧ 0 ∉ c) ∨
        ∀ shapes, shapes.Perm [a, b, c] → ∃ i, Clashes (dimsAt shapes i) := by
  have hstatic : ∀ x ∈ [a, b, c], Static x := by
    simp only [mem_cons, not_mem_nil, or_false, forall_eq_or_imp, forall_eq]
    exact ⟨ha, hb, hc⟩
  have hzero : (∀ x ∈ [a, b, c], 0 ∉ x) ↔ 0 ∉ a ∧ 0 ∉ b ∧ 0 ∉ c := by
    simp only [mem_cons, not_mem_nil, or_false, forall_eq_or_imp, forall_eq]
  simp only [binary_binary_ok ha hb hc, ← hzero]
  have hfails : ∀ shapes : List Dims, shapes.Perm [a, b, c] →
      ((∃ s, inferSelect shapes = .ok s) ↔ ¬ ∃ i, Clashes (dimsAt shapes i)) := by
    intro shapes hperm
    rw [inferSelect_isOk hperm.length_eq fun x hx => hstatic x (hperm.mem_iff.1 hx), not_exists]
  constructor
  · rintro ⟨hagree, horder⟩
    rw [or_iff_not_imp_left]
    intro hz shapes hperm
    by_contra hclash
    obtain ⟨s, hsel⟩ := (hfails shapes hperm).2 hclash
    rw [horder shapes hperm] at hsel
    exact hz (zero_not_mem_of_agree rfl hstatic hsel ((hagree s).1 hsel).2)
  · rintro (hz | hclash)
    · refine ⟨fun s => inferSelect_joins rfl hstatic hz, fun shapes hperm => ?_⟩
      refine inferSelect_congr hperm.length_eq rfl fun s => ?_
      rw [inferSelect_joins rfl hstatic hz, inferSelect_joins hperm.length_eq
        (fun x hx => hstatic x (hperm.mem_iff.1 hx)) fun x hx => hz x (hperm.mem_iff.1 hx),
        maxRank_perm hperm]
      exact and_congr_right fun _ => forall_congr' fun i => Joins.perm (hperm.map _)
    · have hnone : ∀ shapes : List Dims, shapes.Perm [a, b, c] →
          ∀ s, inferSelect shapes ≠ .ok s := fun shapes hperm s h =>
        (hfails shapes hperm).1 ⟨s, h⟩ (hclash shapes hperm)
      refine ⟨fun s => iff_of_false (hnone _ (List.Perm.refl _) s) ?_, fun shapes hperm => ?_⟩
      · rintro ⟨-, hjoin⟩
        obtain ⟨i, hi⟩ := hclash _ (List.Perm.refl _)
        exact hi.not_joins (hjoin i)
      · exact inferSelect_congr hperm.length_eq rfl fun s =>
          iff_of_false (hnone shapes hperm s) (hnone _ (List.Perm.refl _) s)

/-- Shapes of three ranks. -/
theorem inferSelect_agrees_iff_large :
    ((∀ s, inferSelect [[2, 1], [3], []] = .ok s ↔
        ∃ t, inferElementwiseBinary [[2, 1], [3]] = .ok t ∧
          inferElementwiseBinary [t, []] = .ok s) ∧
      ∀ shapes, shapes.Perm [[2, 1], [3], []] →
        inferSelect shapes = inferSelect [[2, 1], [3], []]) ↔
      (0 ∉ [(2 : Int), 1] ∧ 0 ∉ [(3 : Int)] ∧ 0 ∉ ([] : List Int)) ∨
        ∀ shapes, shapes.Perm [[2, 1], [3], []] → ∃ i, Clashes (dimsAt shapes i) :=
  inferSelect_agrees_iff (by decide) (by decide) (by decide)

/-- A shape without elements is broadcast to one with an element. -/
theorem inferSelect_loses_zero :
    inferSelect [[0], [1], [1]] = .ok [1] ∧
      inferElementwiseBinary [[0], [1]] = .ok [0] ∧
      ¬ ∀ a b c : Dims, Static a → Static b → Static c → ∀ s, inferSelect [a, b, c] = .ok s ↔
        ∃ t, inferElementwiseBinary [a, b] = .ok t ∧ inferElementwiseBinary [t, c] = .ok s := by
  refine ⟨rfl, rfl, fun h => ?_⟩
  obtain ⟨t, htab, htc⟩ := (h [0] [1] [1] (by decide) (by decide) (by decide) [1]).1 rfl
  cases htab
  cases htc

end

end LiteRt.Shapes
