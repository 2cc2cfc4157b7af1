import LiteRt.MagicNumbers.Update
import Mathlib.Algebra.Order.Ring.Int

/-!
# The numbers that are replaced

A value is affected if it is a multiple of the magic number other than zero. As long as the
numbers and their products fit, the code's division finds exactly these and the number it
writes is the factor times the target number.
-/

namespace LiteRt.MagicNumbers

open LiteRt.Lib List

variable {config : Config} {c : Contents} {m : Model} {tflSubgraph : TflSubgraph}

/-- The value is `k * magicNumber` for some `k` other than zero. -/
def Affected (magicNumber value : Int) : Prop := value ≠ 0 ∧ magicNumber ∣ value

instance (magicNumber value : Int) : Decidable (Affected magicNumber value) :=
  inferInstanceAs (Decidable (_ ∧ _))

/-- What a value should become: `k * targetNumber` for `k * magicNumber`. -/
def Config.replaced (config : Config) (value : Int) : Int :=
  if Affected config.magicNumber value then
    value / config.magicNumber * config.targetNumber
  else
    value

/-- The magic number is not zero, the target number is positive, both have 64 bits. -/
structure Config.Valid (config : Config) : Prop where
  nonzero : config.magicNumber ≠ 0
  positive : 0 < config.targetNumber
  magicFits : FitsBytes 8 config.magicNumber
  targetFits : FitsBytes 8 config.targetNumber

/-- A value of `w` bytes that can be replaced by one of `w` bytes. -/
structure Config.Replaceable (config : Config) (w : Nat) (value : Int) : Prop where
  fits : FitsBytes w value
  replacedFits : FitsBytes w (config.replaced value)

section
variable {m t v k : Int}

theorem fitsBytes_four_iff (n : Int) : FitsBytes 4 n ↔ -2147483648 ≤ n ∧ n < 2147483648 := by
  rw [fitsBytes_iff]
  show -(4294967296 / 2 : Int) ≤ n ∧ n < (4294967296 + 1) / 2 ↔ _
  omega

theorem fitsBytes_eight_iff (n : Int) : FitsBytes 8 n ↔
    -9223372036854775808 ≤ n ∧ n < 9223372036854775808 := by
  rw [fitsBytes_iff]
  show -(18446744073709551616 / 2 : Int) ≤ n ∧ n < (18446744073709551616 + 1) / 2 ↔ _
  omega

theorem fitsBytes_eight_of_four {n : Int} (h : FitsBytes 4 n) : FitsBytes 8 n := by
  rw [fitsBytes_four_iff] at h
  rw [fitsBytes_eight_iff]
  omega

theorem Affected.factor (h : Affected m v) : v / m ≠ 0 ∧ v / m * m = v := by
  obtain ⟨hv, k, rfl⟩ := h
  have hm : m ≠ 0 := fun h0 => hv (by rw [h0, Int.zero_mul])
  have hk : k ≠ 0 := fun h0 => hv (by rw [h0, Int.mul_zero])
  rw [Int.mul_ediv_cancel_left k hm]
  exact ⟨hk, Int.mul_comm k m⟩

theorem getMagicNumberFactor_eq (v m : Int) :
    getMagicNumberFactor v m = if Affected m v then v / m else 0 := by
  unfold getMagicNumberFactor
  by_cases hd : m ∣ v
  · have hq : v.tdiv m = v / m := Int.tdiv_eq_ediv_of_dvd hd
    rw [hq, if_pos (Int.ediv_mul_cancel hd)]
    by_cases hv : v = 0
    · subst hv
      rw [if_neg fun h => h.1 rfl, Int.zero_ediv]
    · rw [if_pos ⟨hv, hd⟩]
  · have hne : v.tdiv m * m ≠ v := fun h => hd ⟨v.tdiv m, by rw [Int.mul_comm]; exact h.symm⟩
    rw [if_neg hne, if_neg fun h => hd h.2]

theorem natAbs_tdiv_le (v m : Int) : (v.tdiv m).natAbs ≤ v.natAbs := by
  rw [Int.natAbs_tdiv]
  exact Nat.div_le_self _ _

/-- Only the smallest value divided by -1 is too large, and that is an affected value. -/
theorem fitsBytes_tdiv (hv : FitsBytes 8 v)
    (hfits : Affected m v → FitsBytes 8 (t * (v / m))) (ht : 0 < t) :
    FitsBytes 8 (v.tdiv m) := by
  have habs := natAbs_tdiv_le v m
  rw [fitsBytes_eight_iff] at hv ⊢
  by_contra hlarge
  have hq : v.tdiv m = 9223372036854775808 := by omega
  have hone : m.natAbs = 1 := by
    have hdiv : v.natAbs / m.natAbs = 9223372036854775808 := by
      have habsq := congrArg Int.natAbs hq
      rw [Int.natAbs_tdiv] at habsq
      exact habsq
    have hmul := Nat.div_mul_le_self v.natAbs m.natAbs
    rw [hdiv] at hmul
    have hpos : m.natAbs ≠ 0 := fun h0 => by
      rw [h0, Nat.div_zero] at hdiv
      omega
    omega
  have hdvd : m ∣ v := Int.natAbs_dvd.1 (by rw [hone]; exact Int.one_dvd v)
  have hq' : v / m = 9223372036854775808 := (Int.tdiv_eq_ediv_of_dvd hdvd).symm.trans hq
  have hne : v ≠ 0 := fun h0 => by
    rw [h0, Int.zero_ediv] at hq'
    omega
  have hprod := hfits ⟨hne, hdvd⟩
  rw [hq', fitsBytes_eight_iff] at hprod
  omega

theorem replacement_eq (hm : m ≠ 0) (hdiv : FitsBytes 8 (v.tdiv m))
    (hfits : Affected m v → FitsBytes 8 (t * (v / m))) :
    replacement m t v = .ok (if Affected m v then some (t * (v / m)) else none) := by
  unfold replacement
  rw [if_neg (not_or.2 ⟨hm, not_not.2 hdiv⟩), getMagicNumberFactor_eq]
  by_cases ha : Affected m v
  · rw [if_pos ha, if_pos ha, if_neg ha.factor.1, if_pos (hfits ha)]
  · rw [if_neg ha, if_neg ha]
    rfl

end

namespace Config

variable {config : Config} {v : Int}

theorem replaced_of_affected (h : Affected config.magicNumber v) :
    config.replaced v = config.targetNumber * (v / config.magicNumber) := by
  rw [replaced, if_pos h, Int.mul_comm]

theorem replaced_of_not_affected (h : ¬ Affected config.magicNumber v) : config.replaced v = v :=
  if_neg h

theorem replacement_dimension (hc : config.Valid) (hv : config.Replaceable 4 v) :
    replacement config.magicNumber config.targetNumber v =
      .ok (if Affected config.magicNumber v then some (config.replaced v) else none) := by
  have hfits (ha : Affected config.magicNumber v) :
      FitsBytes 8 (config.targetNumber * (v / config.magicNumber)) := by
    rw [← replaced_of_affected ha]
    exact fitsBytes_eight_of_four hv.replacedFits
  have hdiv := fitsBytes_tdiv (fitsBytes_eight_of_four hv.fits) hfits hc.positive
  rw [replacement_eq hc.nonzero hdiv hfits]
  by_cases ha : Affected config.magicNumber v
  · rw [if_pos ha, if_pos ha, replaced_of_affected ha]
  · rw [if_neg ha, if_neg ha]

/-- An element of four bytes: the narrowed target number leads to the same bytes. -/
theorem replacement_int32 (hc : config.Valid) (hm : FitsBytes 4 config.magicNumber)
    (hv : config.Replaceable 4 v) :
    ∃ n, narrow 4 n = config.replaced v ∧
      replacement (narrow 4 config.magicNumber) (narrow 4 config.targetNumber) v =
        .ok (if Affected config.magicNumber v then some n else none) := by
  have hbound (q : Int) (hq : q.natAbs ≤ v.natAbs) :
      FitsBytes 8 (narrow 4 config.targetNumber * q) := by
    have ht := (fitsBytes_four_iff _).1 (fitsBytes_narrow 4 config.targetNumber)
    have hfits := (fitsBytes_four_iff _).1 hv.fits
    have hmul : (narrow 4 config.targetNumber * q).natAbs ≤ 2147483648 * 2147483648 := by
      rw [Int.natAbs_mul]
      exact Nat.mul_le_mul (by omega) (by omega)
    rw [fitsBytes_eight_iff]
    omega
  have hdiv : FitsBytes 8 (v.tdiv config.magicNumber) := by
    have habs := natAbs_tdiv_le v config.magicNumber
    have hfits := (fitsBytes_four_iff _).1 hv.fits
    rw [fitsBytes_eight_iff]
    omega
  refine ⟨if Affected config.magicNumber v then
    narrow 4 config.targetNumber * (v / config.magicNumber) else v, ?_, ?_⟩
  · by_cases ha : Affected config.magicNumber v
    · rw [if_pos ha, narrow_narrow_mul, ← replaced_of_affected ha]
      exact hv.replacedFits
    · rw [if_neg ha, replaced_of_not_affected ha]
      exact hv.fits
  · have hm' : narrow 4 config.magicNumber = config.magicNumber := hm
    rw [hm', replacement_eq hc.nonzero hdiv fun ha => hbound _ ?_]
    · by_cases ha : Affected config.magicNumber v
      · rw [if_pos ha, if_pos ha, if_pos ha]
      · rw [if_neg ha, if_neg ha]
    · rw [← Int.tdiv_eq_ediv_of_dvd ha.2]
      exact natAbs_tdiv_le v _

theorem replacement_int64 (hc : config.Valid) (hv : config.Replaceable 8 v) :
    ∃ n, narrow 8 n = config.replaced v ∧
      replacement (narrow 8 config.magicNumber) (narrow 8 config.targetNumber) v =
        .ok (if Affected config.magicNumber v then some n else none) := by
  have hfits (ha : Affected config.magicNumber v) :
      FitsBytes 8 (config.targetNumber * (v / config.magicNumber)) := by
    rw [← replaced_of_affected ha]
    exact hv.replacedFits
  have hm : narrow 8 config.magicNumber = config.magicNumber := hc.magicFits
  have ht : narrow 8 config.targetNumber = config.targetNumber := hc.targetFits
  refine ⟨config.replaced v, hv.replacedFits, ?_⟩
  rw [hm, ht, replacement_eq hc.nonzero (fitsBytes_tdiv hv.fits hfits hc.positive) hfits]
  by_cases ha : Affected config.magicNumber v
  · rw [if_pos ha, if_pos ha, replaced_of_affected ha]
  · rw [if_neg ha, if_neg ha]

/-- An element of four or eight bytes. -/
theorem replacement_element {w : Nat} (hc : config.Valid) (hw : w = 4 ∨ w = 8)
    (hm : FitsBytes w config.magicNumber) (hv : config.Replaceable w v) :
    ∃ n, narrow w n = config.replaced v ∧
      replacement (narrow w config.magicNumber) (narrow w config.targetNumber) v =
        .ok (if Affected config.magicNumber v then some n else none) := by
  rcases hw with rfl | rfl
  · exact replacement_int32 hc hm hv
  · exact replacement_int64 hc hv

end Config

/-!
## The dimensions of a subgraph

A tensor's dimensions are replaced in the model and in the flatbuffer, one after the other.
-/

/-- The tensor at a place of a subgraph has a rank. -/
def Model.ranked (m : Model) (s t : Nat) : Bool :=
  match m.subgraphs[s]? with
  | none => false
  | some subgraph =>
    match subgraph.tensors[t]? with
    | none => false
    | some tensor => tensor.ranked

/-- The data of the buffers is the same. -/
structure SameData (c c' : Contents) : Prop where
  data : c'.data = c.data
  allocation : c'.allocation = c.allocation

theorem SameData.refl (c : Contents) : SameData c c := ⟨rfl, rfl⟩

theorem SameData.trans {c c' c'' : Contents} (h : SameData c c') (h' : SameData c' c'') :
    SameData c c'' := ⟨h'.data.trans h.data, h'.allocation.trans h.allocation⟩

/-- The numbers of two tables, apart from one list and from those in `done` of that list. -/
structure ListRewritten (f : Int → Int) (s t : Nat) (done : List Nat)
    (table table' : Nat → Nat → List Int) : Prop where
  same : ∀ i, i ∉ done → (table' s t)[i]? = (table s t)[i]?
  done : ∀ i, i ∈ done → (table' s t)[i]? = ((table s t)[i]?).map f
  other : ∀ s' t', ¬ (s' = s ∧ t' = t) → table' s' t' = table s' t'

section
variable {f : Int → Int} {s t : Nat} {done : List Nat} {table table' : Nat → Nat → List Int}
  {i : Nat}

theorem ListRewritten.refl (f : Int → Int) (s t : Nat) (table : Nat → Nat → List Int) :
    ListRewritten f s t [] table table :=
  ⟨fun _ _ => rfl, fun _ h => absurd h not_mem_nil, fun _ _ _ => rfl⟩

theorem ListRewritten.keep (h : ListRewritten f s t done table table') (hi : i ∉ done)
    (hf : ((table s t)[i]?).map f = (table s t)[i]?) :
    ListRewritten f s t (done ++ [i]) table table' := by
  refine ⟨fun j hj => h.same j fun hmem => hj (mem_append_left _ hmem), fun j hj => ?_, h.other⟩
  rcases mem_append.1 hj with hmem | hmem
  · exact h.done j hmem
  · rw [mem_singleton.1 hmem, h.same i hi, hf]

theorem ListRewritten.set (h : ListRewritten f s t done table table') (hi : i < (table' s t).length)
    {n : Int} (hn : ((table s t)[i]?).map f = some n) :
    ListRewritten f s t (done ++ [i]) table (Function.update table' s
      (Function.update (table' s) t ((table' s t).set i n))) := by
  refine ⟨fun j hj => ?_, fun j hj => ?_, fun s' t' hne => ?_⟩
  · have hji : i ≠ j := fun heq => hj (heq ▸ mem_append_right _ (mem_singleton.2 rfl))
    rw [Function.update_self, Function.update_self, getElem?_set_ne hji]
    exact h.same j fun hmem => hj (mem_append_left _ hmem)
  · rw [Function.update_self, Function.update_self]
    by_cases hji : i = j
    · subst hji
      rw [getElem?_set_self hi, hn]
    · rw [getElem?_set_ne hji]
      exact h.done j ((mem_append.1 hj).resolve_right fun hmem =>
        hji (mem_singleton.1 hmem).symm)
  · rw [← h.other s' t' hne]
    by_cases hs : s' = s
    · subst hs
      rw [Function.update_self, Function.update_of_ne fun ht => hne ⟨rfl, ht⟩]
    · rw [Function.update_of_ne hs]

theorem ListRewritten.length_eq (h : ListRewritten f s t done table table') :
    (table' s t).length = (table s t).length := by
  have hiff (i : Nat) : (table' s t).length ≤ i ↔ (table s t).length ≤ i := by
    rw [← List.getElem?_eq_none_iff, ← List.getElem?_eq_none_iff]
    by_cases hi : i ∈ done
    · rw [h.done i hi, Option.map_eq_none_iff]
    · rw [h.same i hi]
  have h1 := hiff (table' s t).length
  have h2 := hiff (table s t).length
  omega

theorem ListRewritten.eq_map (h : ListRewritten f s t (List.range (table s t).length) table table') :
    table' s t = (table s t).map f := by
  refine ext_getElem? fun i => ?_
  rw [getElem?_map]
  by_cases hi : i ∈ List.range (table s t).length
  · exact h.done i hi
  · have hlen : (table s t).length ≤ i := Nat.le_of_not_lt fun hlt => hi (mem_range.2 hlt)
    rw [h.same i hi, getElem?_eq_none hlen]
    rfl

end

/-- Dimensions that can be replaced, and are the same in the flatbuffer. -/
structure Resizable (config : Config) (c : Contents) (s t : Nat) : Prop where
  agree : c.shape s t = c.dimensions s t
  dimension : ∀ n ∈ c.dimensions s t, config.Replaceable 4 n

theorem updateDimension_eq {s t i : Nat} {o : Option Int}
    (h : replacement config.magicNumber config.targetNumber ((c.dimensions s t).getD i 0) = .ok o)
    (hi : i < (c.shape s t).length) :
    ∃ k, updateDimension config s t t i c = .ok k (o.elim c fun n =>
      (c.setDimension s t i (narrow 4 n)).mutateShape s t i (narrow 4 n)) := by
  unfold updateDimension
  rw [get_bind_eq, h]
  cases o with
  | none => exact ⟨0, rfl⟩
  | some n =>
    refine ⟨1, ?_⟩
    simp only [if_pos hi]
    rfl

/-- What is left after the dimensions in `done` have been visited. -/
structure TensorRewritten (f : Int → Int) (s t : Nat) (done : List Nat) (c c' : Contents) :
    Prop where
  dimensions : ListRewritten f s t done c.dimensions c'.dimensions
  shape : ListRewritten f s t done c.shape c'.shape
  sameData : SameData c c'

theorem updateMagicNumberInDimensions_ok {s t : Nat} {tensor : Tensor} (hc : config.Valid)
    (hranked : tensor.ranked) (hindex : tensor.tensorIndex = t)
    (hsub : m.fbModel.subgraphs[s]? = some tflSubgraph) (ht : t < tflSubgraph.tensors.length)
    (h : Resizable config c s t) :
    ∃ n c', updateMagicNumberInDimensions m config s t tensor c = .ok n c' ∧
      TensorRewritten config.replaced s t (List.range (c.dimensions s t).length) c c' := by
  unfold updateMagicNumberInDimensions
  rw [if_pos hranked, hsub]
  simp only [hindex, if_pos ht]
  rw [get_bind_eq]
  refine @tally_ok _ _ _ _ (fun done => TensorRewritten config.replaced s t done c) _ _
    ⟨.refl _ _ _ _, .refl _ _ _ _, .refl _⟩ fun pre i post hsplit c' hc' => ?_
  have hi : i < (c.dimensions s t).length := mem_range.1 (by rw [hsplit]; simp)
  have hnew : i ∉ pre := fun hmem => by
    have hnodup := @nodup_range (c.dimensions s t).length
    rw [hsplit] at hnodup
    exact (nodup_append.1 hnodup).2.2 i hmem i (mem_cons_self ..) rfl
  have hvalue : (c'.dimensions s t).getD i 0 = (c.dimensions s t)[i] := by
    rw [getD_eq_getElem?_getD, hc'.dimensions.same i hnew, getElem?_eq_getElem hi]
    rfl
  have hrep := h.dimension _ (getElem_mem hi)
  have hreplacement := config.replacement_dimension hc hrep
  rw [← hvalue] at hreplacement
  have hshape : i < (c'.shape s t).length := by
    rw [hc'.shape.length_eq, h.agree]
    exact hi
  obtain ⟨k, hk⟩ := updateDimension_eq hreplacement hshape
  refine ⟨k, _, hk, ?_⟩
  have hget : (c.dimensions s t)[i]? = some (c.dimensions s t)[i] := getElem?_eq_getElem hi
  by_cases ha : Affected config.magicNumber (c.dimensions s t)[i]
  · have hn : ((c.dimensions s t)[i]?).map config.replaced =
        some (narrow 4 (config.replaced (c.dimensions s t)[i])) := by
      rw [hget]
      exact congrArg some hrep.replacedFits.symm
    have hdim : i < (c'.dimensions s t).length := by
      rw [hc'.dimensions.length_eq]
      exact hi
    rw [hvalue, if_pos ha]
    exact ⟨hc'.dimensions.set hdim hn, hc'.shape.set hshape (by rw [h.agree]; exact hn),
      hc'.sameData.trans ⟨rfl, rfl⟩⟩
  · have hf : ((c.dimensions s t)[i]?).map config.replaced = (c.dimensions s t)[i]? := by
      rw [hget]
      exact congrArg some (config.replaced_of_not_affected ha)
    rw [hvalue, if_neg ha]
    exact ⟨hc'.dimensions.keep hnew hf, hc'.shape.keep hnew (by rw [h.agree]; exact hf),
      hc'.sameData⟩

/-- Of a subgraph's first `n` tensors, the ranked ones have been replaced in a table. -/
def TableRewritten (m : Model) (f : Int → Int) (s n : Nat)
    (table table' : Nat → Nat → List Int) : Prop :=
  ∀ s' t', table' s' t' =
    if s' = s ∧ t' < n ∧ m.ranked s t' then (table s' t').map f else table s' t'

section
variable {m : Model} {f : Int → Int} {s n : Nat} {table table' table'' : Nat → Nat → List Int}

theorem TableRewritten.zero (m : Model) (f : Int → Int) (s : Nat)
    (table : Nat → Nat → List Int) : TableRewritten m f s 0 table table :=
  fun _ t' => (if_neg fun h => absurd h.2.1 (Nat.not_lt_zero t')).symm

/-- The next tensor is not ranked. -/
theorem TableRewritten.skip (h : TableRewritten m f s n table table')
    (hn : m.ranked s n = false) : TableRewritten m f s (n + 1) table table' := by
  intro s' t'
  have hiff : (s' = s ∧ t' < n + 1 ∧ m.ranked s t' = true) ↔
      (s' = s ∧ t' < n ∧ m.ranked s t' = true) := by
    constructor
    · rintro ⟨hs, hlt, hr⟩
      have hne : t' ≠ n := fun heq => by
        rw [heq, hn] at hr
        exact Bool.false_ne_true hr
      exact ⟨hs, by omega, hr⟩
    · rintro ⟨hs, hlt, hr⟩
      exact ⟨hs, by omega, hr⟩
  rw [h s' t']
  simp only [hiff]

theorem TableRewritten.next (h : TableRewritten m f s n table table') (hn : m.ranked s n)
    (hstep : ListRewritten f s n (List.range (table' s n).length) table' table'') :
    TableRewritten m f s (n + 1) table table'' := by
  intro s' t'
  by_cases hst : s' = s ∧ t' = n
  · obtain ⟨rfl, rfl⟩ := hst
    rw [hstep.eq_map, h, if_neg fun hlt => absurd hlt.2.1 (Nat.lt_irrefl _),
      if_pos ⟨rfl, Nat.lt_succ_self _, hn⟩]
  · have hiff : (s' = s ∧ t' < n + 1 ∧ m.ranked s t' = true) ↔
        (s' = s ∧ t' < n ∧ m.ranked s t' = true) := by
      constructor
      · rintro ⟨hs, hlt, hr⟩
        have hne : t' ≠ n := fun heq => hst ⟨hs, heq⟩
        exact ⟨hs, by omega, hr⟩
      · rintro ⟨hs, hlt, hr⟩
        exact ⟨hs, by omega, hr⟩
    rw [hstep.other s' t' hst, h s' t']
    simp only [hiff]

end

/-- The tensors of a subgraph in the model and in the flatbuffer. -/
structure LoadedTensors (m : Model) (s : Nat) (subgraph : Subgraph) (tflSubgraph : TflSubgraph) :
    Prop where
  found : m.subgraphs[s]? = some subgraph
  foundTfl : m.fbModel.subgraphs[s]? = some tflSubgraph
  length : tflSubgraph.tensors.length = subgraph.tensors.length
  tensorIndex : ∀ (t : Nat) (tensor : Tensor), subgraph.tensors[t]? = some tensor →
    tensor.tensorIndex = t

theorem getElem?_of_zipIdx_split {α : Type} {l : List α} {pre post : List (α × Nat)} {p : α × Nat}
    (h : l.zipIdx = pre ++ p :: post) : l[pre.length]? = some p.1 ∧ p.2 = pre.length := by
  have hget : (l.zipIdx)[pre.length]? = some p := by
    rw [h, getElem?_append_right (Nat.le_refl _), Nat.sub_self]
    rfl
  rw [getElem?_zipIdx] at hget
  obtain ⟨a, ha, rfl⟩ := Option.map_eq_some_iff.1 hget
  exact ⟨ha, Nat.zero_add _⟩

/-- What is left after a subgraph's first `n` tensors have been visited. -/
structure SubgraphRewritten (m : Model) (f : Int → Int) (s n : Nat) (c c' : Contents) : Prop where
  dimensions : TableRewritten m f s n c.dimensions c'.dimensions
  shape : TableRewritten m f s n c.shape c'.shape
  sameData : SameData c c'

/-- One pass over the tensors of a subgraph. -/
theorem updateTensors_ok {s : Nat} {subgraph : Subgraph} (hc : config.Valid)
    (hloaded : LoadedTensors m s subgraph tflSubgraph)
    (h : ∀ t, m.ranked s t → Resizable config c s t) :
    ∃ n c', tally (fun p => updateMagicNumberInDimensions m config s p.2 p.1)
        subgraph.tensors.zipIdx c = .ok n c' ∧
      SubgraphRewritten m config.replaced s subgraph.tensors.zipIdx.length c c' := by
  refine @tally_ok _ _ _ _ (fun pre => SubgraphRewritten m config.replaced s pre.length c) _ _
    ⟨.zero _ _ _ _, .zero _ _ _ _, .refl _⟩ fun pre p post hsplit c' hc' => ?_
  obtain ⟨htensor, hp⟩ := getElem?_of_zipIdx_split hsplit
  have hranked : m.ranked s pre.length = p.1.ranked := by
    unfold Model.ranked
    simp only [hloaded.found, htensor]
  rw [length_append, length_singleton]
  by_cases hr : p.1.ranked
  · have ht : p.2 < tflSubgraph.tensors.length := by
      rw [hloaded.length, hp]
      exact (List.getElem?_eq_some_iff.1 htensor).1
    have hrm : m.ranked s pre.length := by rw [hranked]; exact hr
    have hdim : c'.dimensions s pre.length = c.dimensions s pre.length :=
      (hc'.dimensions s _).trans (if_neg fun hlt => absurd hlt.2.1 (Nat.lt_irrefl _))
    have hshape : c'.shape s pre.length = c.shape s pre.length :=
      (hc'.shape s _).trans (if_neg fun hlt => absurd hlt.2.1 (Nat.lt_irrefl _))
    have hsize : Resizable config c' s p.2 := by
      rw [hp]
      have h0 := h _ hrm
      exact ⟨by rw [hdim, hshape]; exact h0.agree, by rw [hdim]; exact h0.dimension⟩
    have hidx : p.1.tensorIndex = p.2 := by rw [hp]; exact hloaded.tensorIndex _ _ htensor
    obtain ⟨k, c'', hrun, hstep⟩ :=
      updateMagicNumberInDimensions_ok hc hr hidx hloaded.foundTfl ht hsize
    refine ⟨k, c'', hrun, ?_, ?_, hc'.sameData.trans hstep.sameData⟩
    · have hd := hstep.dimensions
      rw [hp] at hd
      exact hc'.dimensions.next hrm hd
    · have hd := hstep.shape
      rw [← hsize.agree, hp] at hd
      exact hc'.shape.next hrm hd
  · have hrm : m.ranked s pre.length = false := by
      rw [hranked]
      exact Bool.eq_false_iff.2 hr
    refine ⟨0, c', ?_, hc'.dimensions.skip hrm, hc'.shape.skip hrm, hc'.sameData⟩
    unfold updateMagicNumberInDimensions
    rw [if_neg hr]
    rfl

end LiteRt.MagicNumbers
