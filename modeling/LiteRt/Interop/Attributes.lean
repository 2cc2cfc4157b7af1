import LiteRt.Lib.Loops
import Mathlib.Data.List.AList
import Mathlib.Data.List.Dedup
import Mathlib.Data.Nat.GCD.Basic

/-!
# Attribute maps

Two maps are reconciled into one that should cover both, key by key. Sizes, alignments and
paddings of buffers are numbers with a rule of their own, every other value is compared.
-/

namespace LiteRt.Interop

open LiteRt.Lib List

inductive AttrMapType
  | unknown
  | buffer
  | sync
  deriving DecidableEq, Repr

/-- A `Variant`, of which the first is the empty one. A string may be a null pointer. -/
inductive Value
  | invalid
  | int (i : Int)
  | sizeT (s : Nat)
  | string (c : Option (List UInt8))
  | bool (b : Bool)
  deriving DecidableEq, Repr

abbrev Container := AList fun _ : Nat => Value

def kTfLiteBufferAttrKeyAlignment : Nat := 2
def kTfLiteBufferAttrKeyPadding : Nat := 3
def kTfLiteBufferAttrKeySize : Nat := 5

/-- What must not happen. -/
inductive Fault
  | divisionByZero
  /-- A product is no `size_t`. -/
  | wraps
  /-- A null pointer or the end of a map is read. -/
  | missing
  deriving DecidableEq, Repr

def gcd (x y : Nat) : Nat :=
  if _h : y = 0 then x else gcd y (x % y)
termination_by y
decreasing_by exact Nat.mod_lt _ (Nat.pos_of_ne_zero _h)

def lcm (x y : Nat) : Except Fault Nat :=
  if gcd x y = 0 then .error .divisionByZero
  else if x / gcd x y * y < 2 ^ 64 then .ok (x / gcd x y * y)
  else .error .wraps

def checkMultiples (l r : Nat) : Except Fault Bool :=
  if r = 0 then .error .divisionByZero else .ok (l % r = 0)

def checkSize (l r : Nat) : Bool := r ≤ l

def Value.getSizeT : Value → Except Fault Nat
  | .sizeT s => .ok s
  | .invalid | .int _ | .string _ | .bool _ => .error .missing

/-- `operator==`, which hands strings to `strcmp` if their pointers differ. -/
def Value.same : Value → Value → Except Fault Bool
  | .invalid, .invalid => .ok true
  | .int i, .int i' => .ok (i = i')
  | .sizeT s, .sizeT s' => .ok (s = s')
  | .string none, .string none => .ok true
  | .string (some c), .string (some c') => .ok (c = c')
  | .string none, .string (some _) | .string (some _), .string none => .error .missing
  | .bool b, .bool b' => .ok (b = b')
  | _, _ => .ok false

/-- The value for two that both maps have, none for a conflict. -/
def reconcileValues (type : AttrMapType) (k : Nat) (l r : Value) : Except Fault (Option Value) :=
  if type = .buffer ∧ k = kTfLiteBufferAttrKeySize then do
    let ls ← l.getSizeT
    let rs ← r.getSizeT
    .ok (some (.sizeT (max ls rs)))
  else if type = .buffer ∧
      (k = kTfLiteBufferAttrKeyAlignment ∨ k = kTfLiteBufferAttrKeyPadding) then do
    let ls ← l.getSizeT
    let rs ← r.getSizeT
    let m ← lcm ls rs
    .ok (some (.sizeT m))
  else do
    let equal ← l.same r
    .ok (if equal then some l else none)

/-- `GetPtr` gives the address of the value, which is never null: an empty value is present. -/
def reconcileKey (type : AttrMapType) (k : Nat) :
    Option Value → Option Value → Except Fault (Option Value)
  | none, none => .error .missing
  | none, some r => .ok (some r)
  | some l, none => .ok (some l)
  | some l, some r => reconcileValues type k l r

/-- What the loop has reached. -/
structure Reconciled where
  ret : Bool := true
  merged : Container
  conflict : Container

def reconcileKeys (type : AttrMapType) (lhs rhs : Container) :
    List Nat → Reconciled → Except Fault Reconciled
  | [], s => .ok s
  | k :: ks, s => do
    let value ← reconcileKey type k (lhs.lookup k) (rhs.lookup k)
    match value with
    | some v => reconcileKeys type lhs rhs ks { s with merged := s.merged.insert k v }
    | none => reconcileKeys type lhs rhs ks { s with
        ret := false
        conflict := ((rhs.lookup k).map fun r => s.conflict.insert k r).getD s.conflict }

/-- The keys of either map, each once. -/
def allKeys (lhs rhs : Container) : List Nat := (lhs.keys ++ rhs.keys).dedup

def reconcileGeneralAttributeKeys (type : AttrMapType) (lhs rhs merged conflict : Container) :
    Except Fault Reconciled :=
  reconcileKeys type lhs rhs (allKeys lhs rhs) { merged, conflict }

def coverValues (type : AttrMapType) (k : Nat) (l r : Value) : Except Fault Bool :=
  if type = .buffer ∧ (k = kTfLiteBufferAttrKeySize ∨ k = kTfLiteBufferAttrKeyPadding) then do
    let ls ← l.getSizeT
    let rs ← r.getSizeT
    .ok (checkSize ls rs)
  else if type = .buffer ∧ k = kTfLiteBufferAttrKeyAlignment then do
    let ls ← l.getSizeT
    let rs ← r.getSizeT
    checkMultiples ls rs
  else l.same r

def coverKey (type : AttrMapType) (k : Nat) : Option Value → Option Value → Except Fault Bool
  | _, none => .ok true
  | none, some _ => .ok false
  | some l, some r => coverValues type k l r

/-- The verdict so far and the conflicts. -/
structure Covered where
  ret : Bool := true
  conflict : Container

def coverKeys (type : AttrMapType) (lhs rhs : Container) :
    List Nat → Covered → Except Fault Covered
  | [], s => .ok s
  | k :: ks, s => do
    let covered ← coverKey type k (lhs.lookup k) (rhs.lookup k)
    if covered then
      coverKeys type lhs rhs ks s
    else
      coverKeys type lhs rhs ks
        ⟨false, ((rhs.lookup k).map fun r => s.conflict.insert k r).getD s.conflict⟩

def checkGeneralAttributeKeysCoverage (type : AttrMapType) (lhs rhs conflict : Container) :
    Except Fault Covered :=
  coverKeys type lhs rhs (allKeys lhs rhs) { conflict }

/-! ## Numbers -/

theorem gcd_eq (x y : Nat) : gcd x y = Nat.gcd x y := by
  induction y using Nat.strongRecOn generalizing x with
  | ind y ih =>
    rw [gcd]
    split
    · next hy => rw [hy, Nat.gcd_zero_right]
    · next hy => rw [ih (x % y) (Nat.mod_lt _ (Nat.pos_of_ne_zero hy)), Nat.gcd_comm y,
        ← Nat.gcd_rec, Nat.gcd_comm]

theorem lcm_eq_ok {x y m : Nat} :
    lcm x y = .ok m ↔ (x ≠ 0 ∨ y ≠ 0) ∧ Nat.lcm x y < 2 ^ 64 ∧ m = Nat.lcm x y := by
  have hquotient : x / Nat.gcd x y * y = Nat.lcm x y := by
    rw [Nat.lcm_eq_mul_div, Nat.div_mul_right_comm (Nat.gcd_dvd_left x y)]
  unfold lcm
  rw [gcd_eq, hquotient]
  by_cases hzero : Nat.gcd x y = 0
  · rw [if_pos hzero]
    have hboth := Nat.gcd_eq_zero_iff.1 hzero
    exact iff_of_false (fun h => by cases h) fun h => by omega
  · rw [if_neg hzero]
    have hsome : x ≠ 0 ∨ y ≠ 0 := by
      by_contra hnone
      exact hzero (Nat.gcd_eq_zero_iff.2 (by omega))
    by_cases hfits : Nat.lcm x y < 2 ^ 64
    · rw [if_pos hfits, Except.ok.injEq, eq_comm]
      exact ⟨fun h => ⟨hsome, hfits, h⟩, fun h => h.2.2⟩
    · rw [if_neg hfits]
      exact iff_of_false (fun h => by cases h) fun h => hfits h.2.1

theorem mem_allKeys {lhs rhs : Container} {k : Nat} :
    k ∈ allKeys lhs rhs ↔ k ∈ lhs ∨ k ∈ rhs := by
  unfold allKeys
  rw [mem_dedup, mem_append]
  rfl

/-!
## Reconciliation and coverage key by key

Both loops are described by what they do at each key of either map.
-/

variable {type : AttrMapType} {lhs rhs merged conflict : Container} {ks : List Nat} {k : Nat}

/-- What reconciling gives for a key. -/
def entry (type : AttrMapType) (lhs rhs : Container) (k : Nat) : Except Fault (Option Value) :=
  reconcileKey type k (lhs.lookup k) (rhs.lookup k)

/-- Whether `lhs` covers `rhs` at a key. -/
def coversAt (type : AttrMapType) (lhs rhs : Container) (k : Nat) : Except Fault Bool :=
  coverKey type k (lhs.lookup k) (rhs.lookup k)

/-! ### The loops -/

theorem reconcileKeys_ok {s s' : Reconciled} (hnodup : ks.Nodup)
    (h : reconcileKeys type lhs rhs ks s = .ok s') :
    (∀ k ∈ ks, ∃ v, entry type lhs rhs k = .ok v ∧ s'.merged.lookup k = v.or (s.merged.lookup k)) ∧
    (∀ k ∉ ks, s'.merged.lookup k = s.merged.lookup k) ∧
    (s'.ret = true ↔ s.ret = true ∧ ∀ k ∈ ks, entry type lhs rhs k ≠ .ok none) := by
  induction ks generalizing s with
  | nil =>
    cases h
    exact ⟨fun k hk => absurd hk not_mem_nil, fun _ _ => rfl,
      ⟨fun h => ⟨h, fun k hk => absurd hk not_mem_nil⟩, fun h => h.1⟩⟩
  | cons k ks ih =>
    obtain ⟨hk, hnodup⟩ := nodup_cons.1 hnodup
    cases he : entry type lhs rhs k with
    | error e =>
      unfold entry at he
      rw [reconcileKeys, he] at h
      cases h
    | ok v =>
      have he' := he
      unfold entry at he'
      rw [reconcileKeys, he'] at h
      cases v with
      | some v =>
        obtain ⟨hmerged, hrest, hret⟩ := ih hnodup h
        refine ⟨fun j hj => ?_, fun j hj => ?_, ?_⟩
        · obtain rfl | hj := mem_cons.1 hj
          · exact ⟨some v, he, by rw [hrest _ hk, AList.lookup_insert]; rfl⟩
          · obtain ⟨w, hw, hlookup⟩ := hmerged j hj
            have hne : j ≠ k := fun heq => hk (heq ▸ hj)
            exact ⟨w, hw, by rw [hlookup, AList.lookup_insert_ne hne]⟩
        · rw [mem_cons, not_or] at hj
          rw [hrest j hj.2, AList.lookup_insert_ne hj.1]
        · rw [hret, forall_mem_cons, he]
          exact and_congr_right fun _ => ⟨fun hall => ⟨fun h => (nomatch h), hall⟩, fun h => h.2⟩
      | none =>
        obtain ⟨hmerged, hrest, hret⟩ := ih hnodup h
        refine ⟨fun j hj => ?_, fun j hj => ?_, ?_⟩
        · obtain rfl | hj := mem_cons.1 hj
          · exact ⟨none, he, hrest _ hk⟩
          · exact hmerged j hj
        · rw [mem_cons, not_or] at hj
          exact hrest j hj.2
        · rw [hret, forall_mem_cons, he]
          exact iff_of_false (fun h => Bool.false_ne_true h.1) fun h => h.2.1 rfl

theorem reconcileKeys_total {s : Reconciled} (h : ∀ k ∈ ks, ∃ v, entry type lhs rhs k = .ok v) :
    ∃ s', reconcileKeys type lhs rhs ks s = .ok s' := by
  induction ks generalizing s with
  | nil => exact ⟨s, rfl⟩
  | cons k ks ih =>
    obtain ⟨⟨v, hv⟩, hrest⟩ := forall_mem_cons.1 h
    unfold entry at hv
    rw [reconcileKeys, hv]
    cases v with
    | some v => exact ih hrest
    | none => exact ih hrest

theorem coverKeys_ok {s s' : Covered} (h : coverKeys type lhs rhs ks s = .ok s') :
    (∀ k ∈ ks, ∃ b, coversAt type lhs rhs k = .ok b) ∧
    (s'.ret = true ↔ s.ret = true ∧ ∀ k ∈ ks, coversAt type lhs rhs k = .ok true) := by
  induction ks generalizing s with
  | nil =>
    cases h
    exact ⟨fun k hk => absurd hk not_mem_nil,
      ⟨fun h => ⟨h, fun k hk => absurd hk not_mem_nil⟩, fun h => h.1⟩⟩
  | cons k ks ih =>
    cases hc : coversAt type lhs rhs k with
    | error e =>
      unfold coversAt at hc
      rw [coverKeys, hc] at h
      cases h
    | ok b =>
      have hc' := hc
      unfold coversAt at hc'
      rw [coverKeys, hc'] at h
      cases b with
      | true =>
        obtain ⟨hall, hret⟩ := ih h
        refine ⟨forall_mem_cons.2 ⟨⟨true, hc⟩, hall⟩, ?_⟩
        rw [hret, forall_mem_cons, hc]
        exact and_congr_right fun _ => (and_iff_right rfl).symm
      | false =>
        obtain ⟨hall, hret⟩ := ih h
        refine ⟨forall_mem_cons.2 ⟨⟨false, hc⟩, hall⟩, ?_⟩
        rw [hret, forall_mem_cons, hc]
        exact iff_of_false (fun h => Bool.false_ne_true h.1) fun h => by cases h.2.1

theorem coverKeys_total {s : Covered} (h : ∀ k ∈ ks, ∃ b, coversAt type lhs rhs k = .ok b) :
    ∃ s', coverKeys type lhs rhs ks s = .ok s' := by
  induction ks generalizing s with
  | nil => exact ⟨s, rfl⟩
  | cons k ks ih =>
    obtain ⟨⟨b, hb⟩, hrest⟩ := forall_mem_cons.1 h
    unfold coversAt at hb
    rw [coverKeys, hb]
    cases b with
    | true => exact ih hrest
    | false => exact ih hrest

/-! ### Two values of a key -/

/-- The keys with a rule of their own. -/
def IsNumber (type : AttrMapType) (k : Nat) : Prop :=
  type = .buffer ∧ (k = kTfLiteBufferAttrKeySize ∨ k = kTfLiteBufferAttrKeyAlignment ∨
    k = kTfLiteBufferAttrKeyPadding)

/-- The number that two numbers are reconciled to. -/
def joined (k a b : Nat) : Nat := if k = kTfLiteBufferAttrKeySize then max a b else Nat.lcm a b

def CoversNumber (k a b : Nat) : Prop := if k = kTfLiteBufferAttrKeyAlignment then b ∣ a else b ≤ a

instance (k a b : Nat) : Decidable (CoversNumber k a b) :=
  inferInstanceAs (Decidable (if k = kTfLiteBufferAttrKeyAlignment then b ∣ a else b ≤ a))

variable {l r v : Value}

theorem getSizeT_eq_ok {n : Nat} : v.getSizeT = .ok n ↔ v = .sizeT n := by
  cases v with
  | sizeT s =>
    show Except.ok s = .ok n ↔ _
    rw [Except.ok.injEq, Value.sizeT.injEq]
  | invalid | int | string | bool => exact iff_of_false (fun h => nomatch h) fun h => nomatch h

theorem reconcileValues_number (hk : IsNumber type k) {v : Option Value} :
    reconcileValues type k l r = .ok v ↔ ∃ a b, l = .sizeT a ∧ r = .sizeT b ∧
      (k ≠ kTfLiteBufferAttrKeySize → (a ≠ 0 ∨ b ≠ 0) ∧ Nat.lcm a b < 2 ^ 64) ∧
      v = some (.sizeT (joined k a b)) := by
  obtain ⟨htype, hkey⟩ := hk
  unfold reconcileValues joined
  by_cases hsize : k = kTfLiteBufferAttrKeySize
  · rw [if_pos ⟨htype, hsize⟩]
    simp only [bind_ok_iff, getSizeT_eq_ok, Except.ok.injEq, if_pos hsize]
    constructor
    · rintro ⟨a, ha, b, hb, rfl⟩
      exact ⟨a, b, ha, hb, fun h => absurd hsize h, rfl⟩
    · rintro ⟨a, b, ha, hb, -, rfl⟩
      exact ⟨a, ha, b, hb, rfl⟩
  · rw [if_neg fun h => hsize h.2, if_pos ⟨htype, hkey.resolve_left hsize⟩]
    simp only [bind_ok_iff, getSizeT_eq_ok, Except.ok.injEq, lcm_eq_ok, if_neg hsize]
    constructor
    · rintro ⟨a, ha, b, hb, m, ⟨hne, hfits, rfl⟩, rfl⟩
      exact ⟨a, b, ha, hb, fun _ => ⟨hne, hfits⟩, rfl⟩
    · rintro ⟨a, b, ha, hb, hboth, rfl⟩
      exact ⟨a, ha, b, hb, _, ⟨(hboth hsize).1, (hboth hsize).2, rfl⟩, rfl⟩

theorem coverValues_number (hk : IsNumber type k) {c : Bool} :
    coverValues type k l r = .ok c ↔ ∃ a b, l = .sizeT a ∧ r = .sizeT b ∧
      (k = kTfLiteBufferAttrKeyAlignment → b ≠ 0) ∧ c = decide (CoversNumber k a b) := by
  obtain ⟨htype, hkey⟩ := hk
  unfold coverValues CoversNumber
  by_cases halign : k = kTfLiteBufferAttrKeyAlignment
  · have hother : ¬(type = .buffer ∧
        (k = kTfLiteBufferAttrKeySize ∨ k = kTfLiteBufferAttrKeyPadding)) := by
      rw [halign]
      exact fun h => absurd h.2 (by decide)
    rw [if_neg hother, if_pos ⟨htype, halign⟩]
    simp only [bind_ok_iff, getSizeT_eq_ok, checkMultiples, if_pos halign]
    constructor
    · rintro ⟨a, ha, b, hb, h⟩
      split at h
      · cases h
      · next hb0 =>
        cases h
        exact ⟨a, b, ha, hb, fun _ => hb0, decide_eq_decide.2 Nat.dvd_iff_mod_eq_zero.symm⟩
    · rintro ⟨a, b, ha, hb, hb0, rfl⟩
      refine ⟨a, ha, b, hb, ?_⟩
      rw [if_neg (hb0 halign), Except.ok.injEq]
      exact decide_eq_decide.2 Nat.dvd_iff_mod_eq_zero.symm
  · have hother : k = kTfLiteBufferAttrKeySize ∨ k = kTfLiteBufferAttrKeyPadding := by
      obtain h | h | h := hkey
      · exact .inl h
      · exact absurd h halign
      · exact .inr h
    rw [if_pos ⟨htype, hother⟩]
    simp only [bind_ok_iff, getSizeT_eq_ok, checkSize, Except.ok.injEq, if_neg halign]
    constructor
    · rintro ⟨a, ha, b, hb, rfl⟩
      exact ⟨a, b, ha, hb, fun h => absurd h halign, rfl⟩
    · rintro ⟨a, b, ha, hb, -, rfl⟩
      exact ⟨a, ha, b, hb, rfl⟩

def NullWithText (l r : Value) : Prop :=
  ∃ c, (l = .string none ∧ r = .string (some c)) ∨ (l = .string (some c) ∧ r = .string none)

theorem same_eq_ok {b : Bool} : l.same r = .ok b ↔ ¬NullWithText l r ∧ b = decide (l = r) := by
  cases l with
  | string c =>
    cases r with
    | string c' => cases c <;> cases c' <;> simp [Value.same, NullWithText, eq_comm]
    | invalid | int | sizeT | bool => simp [Value.same, NullWithText, eq_comm]
  | invalid | int | sizeT | bool => cases r <;> simp [Value.same, NullWithText, eq_comm]

theorem reconcileValues_other (hk : ¬IsNumber type k) {v : Option Value} :
    reconcileValues type k l r = .ok v ↔
      ¬NullWithText l r ∧ v = if l = r then some l else none := by
  have hsize : ¬(type = .buffer ∧ k = kTfLiteBufferAttrKeySize) := fun h => hk ⟨h.1, .inl h.2⟩
  have hother : ¬(type = .buffer ∧
      (k = kTfLiteBufferAttrKeyAlignment ∨ k = kTfLiteBufferAttrKeyPadding)) :=
    fun h => hk ⟨h.1, .inr h.2⟩
  unfold reconcileValues
  rw [if_neg hsize, if_neg hother]
  simp only [bind_ok_iff, same_eq_ok, Except.ok.injEq]
  constructor
  · rintro ⟨b, ⟨hnull, rfl⟩, rfl⟩
    exact ⟨hnull, by simp only [decide_eq_true_eq]⟩
  · rintro ⟨hnull, rfl⟩
    exact ⟨_, ⟨hnull, rfl⟩, by simp only [decide_eq_true_eq]⟩

theorem coverValues_other (hk : ¬IsNumber type k) {c : Bool} :
    coverValues type k l r = .ok c ↔ ¬NullWithText l r ∧ c = decide (l = r) := by
  have hsize : ¬(type = .buffer ∧
      (k = kTfLiteBufferAttrKeySize ∨ k = kTfLiteBufferAttrKeyPadding)) := by
    rintro ⟨htype, h | h⟩
    · exact hk ⟨htype, .inl h⟩
    · exact hk ⟨htype, .inr (.inr h)⟩
  have hother : ¬(type = .buffer ∧ k = kTfLiteBufferAttrKeyAlignment) :=
    fun h => hk ⟨h.1, .inr (.inl h.2)⟩
  unfold coverValues
  rw [if_neg hsize, if_neg hother]
  exact same_eq_ok

end LiteRt.Interop
