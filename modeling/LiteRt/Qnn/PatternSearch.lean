import LiteRt.Lib.BadCharacter
import Mathlib.Algebra.Group.Nat.Defs
import Mathlib.Data.List.Induction

/-!
# The table of the pattern search

The table has an entry for each op code but the unknown one, which a default op carries. The
search looks up the code of the last op of each window that it leaves.
-/

namespace LiteRt.Qnn.PatternSearch

open LiteRt.Lib List

variable {e : Nat} {n : Nat} {fuel : Nat}

/-- The place of `kUnknown` in the enumeration. -/
def kQnnOpCodeSize : Nat := 151

/-- The codes an op can carry, the last one unknown. -/
abbrev OpCode := Fin (kQnnOpCodeSize + 1)

def kUnknown : OpCode := Fin.last kQnnOpCodeSize

/-- None for an access out of range. -/
def fillBadMatchTable (patternOps : List OpCode) : List Nat → List Nat → Option (List Nat)
  | [], table => some table
  | i :: is, table => do
    let code ← patternOps[i]?
    if code.val < table.length then
      fillBadMatchTable patternOps is (table.set code.val (patternOps.length - i - 1))
    else none

def createBadMatchTable (patternOps : List OpCode) : Option (List Nat) :=
  fillBadMatchTable patternOps (List.range (patternOps.length - 1))
    (List.replicate kQnnOpCodeSize patternOps.length)

/-- The ops are compared from the last one of the window on. -/
def comparePattern (ops patternOps : List OpCode) (endIndex : Nat) :
    List Nat → Option Bool
  | [] => some true
  | i :: is => do
    let op ← if i ≤ endIndex then ops[endIndex - i]? else none
    let code ← patternOps[patternOps.length - i - 1]?
    if op = code then comparePattern ops patternOps endIndex is else some false

/-- An index as the `int` it is returned as. -/
def asInt (index : Nat) : Int := Int.bmod index (2 ^ 32)

def findPattern (ops patternOps : List OpCode) (table : List Nat) :
    Nat → Nat → Option Int
  | 0, _ => none
  | fuel + 1, endIndex =>
    match ops[endIndex]? with
    | none => some (-1)
    | some op => do
      let foundPattern ← comparePattern ops patternOps endIndex (List.range patternOps.length)
      if foundPattern then some (asInt (endIndex - (patternOps.length - 1)))
      else do
        let skip ← table[op.val]?
        findPattern ops patternOps table fuel ((endIndex + skip) % 2 ^ 64)

def firstEnd (startIndex : Nat) (patternOps : List OpCode) : Nat :=
  (startIndex + (patternOps.length - 1)) % 2 ^ 64

/-- A search with its table, in as many rounds as there are ops. -/
def getPatternStartIndex (startIndex : Nat) (ops patternOps : List OpCode) : Option Int := do
  let table ← createBadMatchTable patternOps
  findPattern ops patternOps table (ops.length + 1) (firstEnd startIndex patternOps)

/-! ## What a search should give -/

/-- The pattern stands at `p` and nowhere from `startIndex` on before it. -/
def FirstPlace (startIndex : Nat) (ops patternOps : List OpCode) (p : Nat) : Prop :=
  startIndex ≤ p ∧ StandsAt ops patternOps p ∧
    ∀ q, startIndex ≤ q → q < p → ¬StandsAt ops patternOps q

/-- No access is out of range, and the result is the first place, or `-1` if there is none. -/
def SearchExact (startIndex : Nat) (ops patternOps : List OpCode) : Prop :=
  ∃ r, getPatternStartIndex startIndex ops patternOps = some r ∧
    ((∃ p : Nat, r = p ∧ FirstPlace startIndex ops patternOps p) ∨
      r = -1 ∧ ∀ q, startIndex ≤ q → ¬StandsAt ops patternOps q)

/-- No unknown op is looked up: neither one of the pattern but its last, nor the last of a window
that the search leaves. -/
def LookupsKnown (startIndex : Nat) (ops patternOps : List OpCode) : Prop :=
  (∀ i, i + 1 < patternOps.length → patternOps[i]? ≠ some kUnknown) ∧
    LeavesGood ops patternOps (· ≠ kUnknown) (firstEnd startIndex patternOps)

/-- The numbers of the search stay in their types: the first place is an `int`, and where the first
window ends behind 2⁶⁴ no window of the wrapped search agrees with the pattern, unless its place
is `-1` as an `int`. -/
def NumbersFit (startIndex : Nat) (ops patternOps : List OpCode) : Prop :=
  if startIndex + (patternOps.length - 1) < 2 ^ 64 then
    ∀ p, FirstPlace startIndex ops patternOps p → p < 2 ^ 31
  else ∀ e, Probed ops patternOps (firstEnd startIndex patternOps) e → e < ops.length →
    Agrees ops patternOps e → patternOps.length - 1 ≤ e ∧ asInt (e - (patternOps.length - 1)) = -1

/-! ## The table -/

variable {ops patternOps : List OpCode} {table : List Nat} {startIndex p : Nat}

theorem ne_kUnknown_iff {code : OpCode} : code ≠ kUnknown ↔ code.val < kQnnOpCodeSize := by
  unfold kUnknown
  rw [ne_eq, Fin.ext_iff, Fin.val_last]
  omega

/-- The table with the entries of the first `n` ops of the pattern. -/
theorem fillBadMatchTable_eq (hn : n ≤ patternOps.length)
    (hknown : ∀ i < n, patternOps[i]? ≠ some kUnknown) (rest : List Nat) :
    fillBadMatchTable patternOps (List.range n ++ rest)
        (List.replicate kQnnOpCodeSize patternOps.length) =
      fillBadMatchTable patternOps rest (List.ofFn fun c : Fin kQnnOpCodeSize =>
        (List.range n).foldl (fun s i => if patternOps[i]? = some c.castSucc then
          patternOps.length - i - 1 else s) patternOps.length) := by
  induction n generalizing rest with
  | zero =>
    have hofFn : List.replicate kQnnOpCodeSize patternOps.length =
        List.ofFn fun _ : Fin kQnnOpCodeSize => patternOps.length :=
      ext_getElem (by rw [length_replicate, length_ofFn]) fun i hi _ => by
        rw [getElem_replicate, List.getElem_ofFn]
    rw [range_zero, nil_append, hofFn]
    rfl
  | succ n ih =>
    rw [range_succ, append_assoc, singleton_append, ih (by omega) fun i hi => hknown i (by omega)]
    have hlt : n < patternOps.length := by omega
    have hcode : patternOps[n]? = some patternOps[n] := getElem?_eq_getElem hlt
    have hval : (patternOps[n]).val < kQnnOpCodeSize :=
      ne_kUnknown_iff.1 fun heq => hknown n (by omega) (heq ▸ hcode)
    simp only [fillBadMatchTable, hcode, Option.bind_eq_bind, Option.bind_some, length_ofFn,
      hval, if_true]
    congr 1
    refine ext_getElem (by simp) fun i hi _ => ?_
    rw [getElem_set]
    simp only [List.getElem_ofFn, foldl_append, foldl_cons, foldl_nil, hcode, Option.some.injEq]
    simp only [Fin.ext_iff, Fin.val_castSucc]

/-- The table of a pattern of known ops. -/
def shiftTable (patternOps : List OpCode) : List Nat :=
  List.ofFn fun c : Fin kQnnOpCodeSize => shift patternOps c.castSucc

theorem createBadMatchTable_eq (hpos : 0 < patternOps.length)
    (hknown : ∀ i, i + 1 < patternOps.length → patternOps[i]? ≠ some kUnknown) :
    createBadMatchTable patternOps = some (shiftTable patternOps) := by
  have hfill := fillBadMatchTable_eq (Nat.sub_le patternOps.length 1)
    (fun i hi => hknown i (by omega)) []
  rw [append_nil] at hfill
  exact hfill

/-- An unknown op in the table's part of the pattern. -/
theorem createBadMatchTable_none {i : Nat} (hi : i + 1 < patternOps.length)
    (hunknown : patternOps[i]? = some kUnknown) : createBadMatchTable patternOps = none := by
  have hfill : ∀ (l table : List Nat), table.length = kQnnOpCodeSize → i ∈ l →
      (∀ j ∈ l, j < patternOps.length) → fillBadMatchTable patternOps l table = none := by
    intro l
    induction l with
    | nil => exact fun _ _ hmem => absurd hmem not_mem_nil
    | cons j l ih =>
      intro table hlen hmem hall
      have hjlt := hall j mem_cons_self
      have hj : patternOps[j]? = some patternOps[j] := getElem?_eq_getElem hjlt
      simp only [fillBadMatchTable, hj, Option.bind_eq_bind, Option.bind_some]
      split
      · next hlt =>
        refine ih _ (by rw [length_set, hlen]) ?_ fun m hm =>
          hall m (mem_cons_of_mem _ hm)
        obtain rfl | hmem := mem_cons.1 hmem
        · rw [hunknown, Option.some.injEq] at hj
          rw [hlen, ← hj] at hlt
          exact absurd rfl (ne_kUnknown_iff.2 hlt)
        · exact hmem
      · rfl
  refine hfill _ _ (length_replicate ..) (mem_range.2 (by omega)) fun j hj => ?_
  have := mem_range.1 hj
  omega

/-! ## The search -/

/-- The comparison from the `n`-th op before the end on. -/
theorem comparePattern_drop (he : e < ops.length) (hn : n ≤ patternOps.length) :
    comparePattern ops patternOps e ((List.range patternOps.length).drop n) =
      if ∀ i < patternOps.length, n ≤ i → i ≤ e →
          ops[e - i]? = patternOps[patternOps.length - i - 1]? then
        if n = patternOps.length ∨ patternOps.length ≤ e + 1 then some true else none
      else some false := by
  generalize hk : patternOps.length - n = k
  induction k generalizing n with
  | zero =>
    have hnil : (List.range patternOps.length).drop n = [] :=
      drop_eq_nil_of_le (by rw [length_range]; omega)
    rw [hnil, comparePattern, if_pos fun i hi hin => by omega, if_pos (.inl (by omega))]
  | succ k ih =>
    have hlt : n < (List.range patternOps.length).length := by
      rw [length_range]
      omega
    have hcode : patternOps[patternOps.length - n - 1]? =
        some patternOps[patternOps.length - n - 1] := getElem?_eq_getElem (by omega)
    rw [drop_eq_getElem_cons hlt, getElem_range]
    by_cases hne : n ≤ e
    · have hop : ops[e - n]? = some ops[e - n] := getElem?_eq_getElem (by omega)
      simp only [comparePattern, hne, if_true, hop, hcode, Option.bind_eq_bind, Option.bind_some]
      by_cases heq : ops[e - n] = patternOps[patternOps.length - n - 1]
      · rw [if_pos heq, ih (by omega) (by omega)]
        have hfrom : (∀ i < patternOps.length, n + 1 ≤ i → i ≤ e →
            ops[e - i]? = patternOps[patternOps.length - i - 1]?) ↔
            ∀ i < patternOps.length, n ≤ i → i ≤ e →
              ops[e - i]? = patternOps[patternOps.length - i - 1]? := by
          constructor
          · intro h i hi hni hie
            obtain rfl | hlt := Nat.eq_or_lt_of_le hni
            · rw [hop, hcode, heq]
            · exact h i hi hlt hie
          · exact fun h i hi hni => h i hi (by omega)
        have hend : (n + 1 = patternOps.length ∨ patternOps.length ≤ e + 1) ↔
            (n = patternOps.length ∨ patternOps.length ≤ e + 1) := by omega
        simp only [hfrom, hend]
      · rw [if_neg heq, if_neg]
        intro h
        have hat := h n (by omega) (Nat.le_refl n) hne
        rw [hop, hcode, Option.some.injEq] at hat
        exact heq hat
    · rw [if_pos fun i _ hni hie => by omega, if_neg (by omega)]
      simp only [comparePattern, hne, if_false, Option.bind_eq_bind, Option.bind_none]

theorem comparePattern_eq (hpos : 0 < patternOps.length) (he : e < ops.length) :
    comparePattern ops patternOps e (List.range patternOps.length) =
      if Agrees ops patternOps e then
        if patternOps.length ≤ e + 1 then some true else none
      else some false := by
  have hdrop := comparePattern_drop he (Nat.zero_le patternOps.length)
  rw [drop_zero] at hdrop
  rw [hdrop]
  by_cases hag : Agrees ops patternOps e
  · rw [if_pos hag, if_pos fun i hi _ hie => hag i hi hie]
    by_cases hle : patternOps.length ≤ e + 1
    · rw [if_pos hle, if_pos (.inr hle)]
    · rw [if_neg hle, if_neg (by omega)]
  · rw [if_neg hag, if_neg fun h => hag fun i hi hie => h i hi (Nat.zero_le i) hie]

theorem shiftTable_get (code : OpCode) :
    (shiftTable patternOps)[code.val]? =
      if code = kUnknown then none else some (shift patternOps code) := by
  unfold shiftTable
  by_cases hunknown : code = kUnknown
  · rw [if_pos hunknown, getElem?_eq_none]
    rw [length_ofFn]
    exact Nat.not_lt.1 fun hlt => ne_kUnknown_iff.2 hlt hunknown
  · have hlt := ne_kUnknown_iff.1 hunknown
    rw [if_neg hunknown, getElem?_eq_getElem (by rw [length_ofFn]; exact hlt), List.getElem_ofFn]
    rfl

theorem asInt_eq_iff {x : Nat} (hx : x < 2 ^ 64) : asInt x = x ↔ x < 2 ^ 31 := by
  unfold asInt
  rw [Int.bmod_def]
  split <;> omega

/-- Where the first window does not wrap, the window that agrees is the first place. -/
theorem firstPlace_of_probed (hpos : 0 < patternOps.length) {q : Nat}
    (hin : startIndex + (patternOps.length - 1) < 2 ^ 64)
    (hq : Probed ops patternOps (firstEnd startIndex patternOps) q)
    (hag : Agrees ops patternOps q) :
    FirstPlace startIndex ops patternOps (q - (patternOps.length - 1)) := by
  rw [firstEnd, Nat.mod_eq_of_lt hin] at hq
  have hle := hq.le
  have hend : q - (patternOps.length - 1) + (patternOps.length - 1) = q := by omega
  refine ⟨by omega, (agrees_iff hpos).1 (by rw [hend]; exact hag), fun p hp hpq => ?_⟩
  exact hq.not_standsAt hpos hp (by omega)

theorem FirstPlace.unique {p q : Nat} (hp : FirstPlace startIndex ops patternOps p)
    (hq : FirstPlace startIndex ops patternOps q) : p = q := by
  obtain hlt | heq | hgt := Nat.lt_trichotomy p q
  · exact absurd hp.2.1 (hq.2.2 p hp.1 hlt)
  · exact heq
  · exact absurd hq.2.1 (hp.2.2 q hq.1 hgt)

variable (hpos : 0 < patternOps.length) (hsize : ops.length + patternOps.length ≤ 2 ^ 64)

include hpos hsize

/-- One round of the search. -/
theorem findPattern_succ (fuel : Nat) {op : OpCode} (hop : ops[e]? = some op) :
    findPattern ops patternOps (shiftTable patternOps) (fuel + 1) e =
      if Agrees ops patternOps e then
        if patternOps.length ≤ e + 1 then some (asInt (e - (patternOps.length - 1))) else none
      else if op = kUnknown then none
      else findPattern ops patternOps (shiftTable patternOps) fuel (e + shift patternOps op) := by
  have he : e < ops.length := (List.getElem?_eq_some_iff.1 hop).1
  have hnowrap : (e + shift patternOps op) % 2 ^ 64 = e + shift patternOps op :=
    Nat.mod_eq_of_lt (by have := shift_le_length patternOps op; omega)
  simp only [findPattern, hop, comparePattern_eq hpos he, shiftTable_get]
  split_ifs
  all_goals
    first
    | rfl
    | exact congrArg (findPattern ops patternOps (shiftTable patternOps) fuel) hnowrap

/-- What a search that returns has met. -/
theorem findPattern_some :
    ∀ {e : Nat} {r : Int}, findPattern ops patternOps (shiftTable patternOps) fuel e = some r →
      LeavesGood ops patternOps (· ≠ kUnknown) e ∧
        ((r = -1 ∧ ∀ q, Probed ops patternOps e q → q < ops.length → ¬Agrees ops patternOps q) ∨
          ∃ q, Probed ops patternOps e q ∧ q < ops.length ∧ Agrees ops patternOps q ∧
            patternOps.length ≤ q + 1 ∧ r = asInt (q - (patternOps.length - 1))) := by
  induction fuel with
  | zero => exact fun h => nomatch h
  | succ fuel ih =>
    intro e r h
    by_cases he : e < ops.length
    · have hop : ops[e]? = some ops[e] := getElem?_eq_getElem he
      rw [findPattern_succ hpos hsize fuel hop] at h
      split_ifs at h with hag hin hunknown
      · -- The window agrees: nothing is left.
        refine ⟨fun q c hq hc hnot => ?_, .inr ⟨e, .start, he, hag, hin, ?_⟩⟩
        · obtain rfl | ⟨_, _, hnot', _⟩ := hq.cases_start
          · exact absurd hag hnot
          · exact absurd hag hnot'
        · exact (Option.some.inj h).symm
      · obtain ⟨hgood, hend⟩ := ih h
        refine ⟨(leavesGood_iff hop hag).2 ⟨hunknown, hgood⟩, ?_⟩
        obtain ⟨rfl, hnone⟩ | ⟨q, hq, hfound⟩ := hend
        · refine .inl ⟨rfl, fun q hq hlt => ?_⟩
          obtain rfl | ⟨c, hc, _, hrest⟩ := hq.cases_start
          · exact hag
          · rw [hop, Option.some.injEq] at hc
            exact hnone q (hc ▸ hrest) hlt
        · exact .inr ⟨q, hq.of_next hop hag, hfound⟩
    · have hop : ops[e]? = none := getElem?_eq_none (by omega)
      simp only [findPattern, hop, Option.some.injEq] at h
      have hend : ∀ q, Probed ops patternOps e q → q = e := by
        intro q hq
        obtain heq | ⟨c, hc, _⟩ := hq.cases_start
        · exact heq
        · rw [hop] at hc
          cases hc
      refine ⟨fun q c hq hc _ => ?_, .inl ⟨h.symm, fun q hq hlt => ?_⟩⟩
      · rw [hend q hq, hop] at hc
        cases hc
      · rw [hend q hq] at hlt
        exact absurd hlt he

/-- A search that leaves known ops only returns. -/
theorem findPattern_total :
    ∀ {e : Nat}, ops.length - e < fuel → LeavesGood ops patternOps (· ≠ kUnknown) e →
      (∀ q, Probed ops patternOps e q → q < ops.length → Agrees ops patternOps q →
        patternOps.length ≤ q + 1) →
      ∃ r, findPattern ops patternOps (shiftTable patternOps) fuel e = some r := by
  induction fuel with
  | zero => exact fun h => absurd h (Nat.not_lt_zero _)
  | succ fuel ih =>
    intro e hfuel hgood hin
    by_cases he : e < ops.length
    · have hop : ops[e]? = some ops[e] := getElem?_eq_getElem he
      rw [findPattern_succ hpos hsize fuel hop]
      by_cases hag : Agrees ops patternOps e
      · rw [if_pos hag, if_pos (hin e .start he hag)]
        exact ⟨_, rfl⟩
      · obtain ⟨hknown, hrest⟩ := (leavesGood_iff hop hag).1 hgood
        rw [if_neg hag, if_neg hknown]
        have hshift := shift_pos hpos ops[e]
        exact ih (by omega) hrest fun q hq => hin q (hq.of_next hop hag)
    · have hop : ops[e]? = none := getElem?_eq_none (by omega)
      exact ⟨-1, by simp only [findPattern, hop]⟩

/-- Where no window agrees, the pattern stands nowhere from the start index on. -/
theorem not_standsAt_of_none (startIndex : Nat)
    (hnone : ∀ q, Probed ops patternOps (firstEnd startIndex patternOps) q → q < ops.length →
      ¬Agrees ops patternOps q) (p : Nat) (hp : startIndex ≤ p) : ¬StandsAt ops patternOps p := by
  intro hstands
  have hlen := hstands.le_length hpos
  have hin : startIndex + (patternOps.length - 1) < 2 ^ 64 := by omega
  rw [firstEnd, Nat.mod_eq_of_lt hin] at hnone
  obtain ⟨q, hq, hbehind | ⟨hlt, hag⟩⟩ :=
    @exists_probed_end _ _ ops _ hpos (startIndex + (patternOps.length - 1))
  · exact hq.not_standsAt hpos hp (by omega) hstands
  · exact hnone q hq hlt hag

/-- The search is exact just where it looks up known ops only and its numbers fit. -/
theorem getPatternStartIndex_exact_iff :
    SearchExact startIndex ops patternOps ↔
      LookupsKnown startIndex ops patternOps ∧ NumbersFit startIndex ops patternOps := by
  -- A place from the start index on lies inside the list, so its first window does not wrap.
  have hinside : ∀ p, startIndex ≤ p → StandsAt ops patternOps p →
      startIndex + (patternOps.length - 1) < 2 ^ 64 := by
    intro p hp hstands
    have := hstands.le_length hpos
    omega
  constructor
  · rintro ⟨r, hr, hexact⟩
    obtain ⟨table, htable, hfind⟩ := Option.bind_eq_some_iff.1 hr
    have hknown : ∀ i, i + 1 < patternOps.length → patternOps[i]? ≠ some kUnknown := by
      intro i hi hunknown
      rw [createBadMatchTable_none hi hunknown] at htable
      cases htable
    rw [createBadMatchTable_eq hpos hknown, Option.some.injEq] at htable
    subst htable
    obtain ⟨hgood, hend⟩ := findPattern_some hpos hsize hfind
    refine ⟨⟨hknown, hgood⟩, ?_⟩
    unfold NumbersFit
    split
    · next hin =>
      intro p hp
      obtain ⟨-, hnone⟩ | ⟨q, hq, hlt, hag, -, hr⟩ := hend
      · exact absurd hp.2.1 (not_standsAt_of_none hpos hsize startIndex hnone p hp.1)
      · have hplace := firstPlace_of_probed hpos hin hq hag
        obtain ⟨p', hp', hfirst⟩ | ⟨-, hnone⟩ := hexact
        · rw [hr, hplace.unique hp, hfirst.unique hp] at hp'
          have hlen := hp.2.1.le_length hpos
          exact (asInt_eq_iff (by omega)).1 hp'
        · exact absurd hp.2.1 (hnone p hp.1)
    · next hwrap =>
      intro e he hlt hag
      obtain ⟨p, -, hfirst⟩ | ⟨hminus, -⟩ := hexact
      · exact absurd (hinside p hfirst.1 hfirst.2.1) hwrap
      · obtain ⟨-, hnone⟩ | ⟨q, hq, -, hagq, hle, hr⟩ := hend
        · exact absurd hag (hnone e he hlt)
        · obtain rfl := hq.eq_of_agrees he hagq hag
          exact ⟨by omega, hr ▸ hminus⟩
  · rintro ⟨⟨hknown, hgood⟩, hfit⟩
    unfold NumbersFit at hfit
    have hwhole : ∀ q, Probed ops patternOps (firstEnd startIndex patternOps) q →
        q < ops.length → Agrees ops patternOps q → patternOps.length ≤ q + 1 := by
      intro q hq hlt hag
      split at hfit
      · next hin =>
        have hle := hq.le
        rw [firstEnd, Nat.mod_eq_of_lt hin] at hle
        omega
      · have := (hfit q hq hlt hag).1
        omega
    obtain ⟨r, hr⟩ := findPattern_total hpos hsize (Nat.lt_add_one_of_le (Nat.sub_le ops.length _)) hgood
      hwhole
    refine ⟨r, ?_, ?_⟩
    · unfold getPatternStartIndex
      rw [createBadMatchTable_eq hpos hknown]
      exact hr
    obtain ⟨-, ⟨rfl, hnone⟩ | ⟨q, hq, hlt, hag, hle, hplaced⟩⟩ := findPattern_some hpos hsize hr
    · exact .inr ⟨rfl, not_standsAt_of_none hpos hsize startIndex hnone⟩
    · split at hfit
      · next hin =>
        have hplace := firstPlace_of_probed hpos hin hq hag
        exact .inl ⟨_, hplaced.trans ((asInt_eq_iff (by omega)).2 (hfit _ hplace)), hplace⟩
      · next hwrap =>
        exact .inr ⟨hplaced.trans (hfit q hq hlt hag).2, fun p hp hstands => hwrap (hinside p hp hstands)⟩

omit hpos hsize

/-- An unknown op before the pattern is looked up behind the table. -/
theorem unknown_before_pattern :
    ¬SearchExact 0 [kUnknown, 3] [3] := by
  rintro ⟨r, hr, -⟩
  have hnone : getPatternStartIndex 0 [kUnknown, 3] [3] = none := by decide +kernel
  rw [hnone] at hr
  cases hr

/-- An unknown op that no window ends with, and a pattern whose first code is repeated. -/
theorem repeated_codes_exact :
    LookupsKnown 0 [kUnknown, 5, 3, 3, 4] [3, 4] ∧ NumbersFit 0 [kUnknown, 5, 3, 3, 4] [3, 4] :=
  (getPatternStartIndex_exact_iff (by decide) (by decide)).1
    ⟨3, by decide +kernel, .inl ⟨3, rfl, Nat.zero_le 3, by decide, fun q _ hq => by
      have hnot : ∀ q < 3, ¬StandsAt [kUnknown, 5, 3, 3, 4] [3, 4] q := by decide
      exact hnot q hq⟩⟩

end LiteRt.Qnn.PatternSearch
