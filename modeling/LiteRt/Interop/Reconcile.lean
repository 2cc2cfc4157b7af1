import LiteRt.Interop.Attributes

/-!
# Reconciliation as a join

The merged map should be the least one that covers both maps. Which maps it is for is said in
terms of their values.
-/

namespace LiteRt.Interop

section

variable {type : AttrMapType} {lhs rhs merged conflict : Container} {k : Nat} {l r v : Value}
  {a b : Nat}

/-! ## Both loops as a whole -/

theorem entry_of_both (hl : lhs.lookup k = some l) (hr : rhs.lookup k = some r) :
    entry type lhs rhs k = reconcileValues type k l r := by
  rw [entry, hl, hr]
  rfl

theorem mem_of_lookup (h : lhs.lookup k = some v) : k ∈ lhs :=
  AList.lookup_isSome.1 (by rw [h]; rfl)

theorem exists_lookup (h : k ∈ lhs) : ∃ v, lhs.lookup k = some v :=
  Option.isSome_iff_exists.1 (AList.lookup_isSome.2 h)

theorem lookup_none (h : k ∉ lhs) : lhs.lookup k = none := AList.lookup_eq_none.2 h

theorem reconcile_defined_iff :
    (∃ s, reconcileGeneralAttributeKeys type lhs rhs merged conflict = .ok s) ↔
      ∀ k l r, lhs.lookup k = some l → rhs.lookup k = some r →
        ∃ v, reconcileValues type k l r = .ok v := by
  constructor
  · rintro ⟨s, hs⟩ k l r hl hr
    obtain ⟨v, hv, -⟩ := (reconcileKeys_ok (List.nodup_dedup _) hs).1 k
      (mem_allKeys.2 (.inl (mem_of_lookup hl)))
    exact ⟨v, (entry_of_both hl hr).symm.trans hv⟩
  · intro h
    refine reconcileKeys_total fun k hk => ?_
    cases hl : lhs.lookup k with
    | none =>
      cases hr : rhs.lookup k with
      | none =>
        obtain hmem | hmem := mem_allKeys.1 hk
        · exact absurd hl (by obtain ⟨v, hv⟩ := exists_lookup hmem; rw [hv]; exact nofun)
        · exact absurd hr (by obtain ⟨v, hv⟩ := exists_lookup hmem; rw [hv]; exact nofun)
      | some r => exact ⟨some r, by rw [entry, hl, hr]; rfl⟩
    | some l =>
      cases hr : rhs.lookup k with
      | none => exact ⟨some l, by rw [entry, hl, hr]; rfl⟩
      | some r =>
        rw [entry_of_both hl hr]
        exact h k l r hl hr

theorem check_defined_iff :
    (∃ s, checkGeneralAttributeKeysCoverage type lhs rhs conflict = .ok s) ↔
      ∀ k l r, lhs.lookup k = some l → rhs.lookup k = some r →
        ∃ c, coverValues type k l r = .ok c := by
  constructor
  · rintro ⟨s, hs⟩ k l r hl hr
    obtain ⟨c, hc⟩ := (coverKeys_ok hs).1 k (mem_allKeys.2 (.inl (mem_of_lookup hl)))
    rw [coversAt, hl, hr] at hc
    exact ⟨c, hc⟩
  · intro h
    refine coverKeys_total fun k _ => ?_
    unfold coversAt
    cases hr : rhs.lookup k with
    | none => exact ⟨true, by cases lhs.lookup k <;> rfl⟩
    | some r =>
      cases hl : lhs.lookup k with
      | none => exact ⟨false, rfl⟩
      | some l => exact h k l r hl hr

/-- The maps are covered without a fault. -/
def Covers (type : AttrMapType) (lhs rhs conflict : Container) : Prop :=
  ∃ s, checkGeneralAttributeKeysCoverage type lhs rhs conflict = .ok s ∧ s.ret = true

theorem covers_iff : Covers type lhs rhs conflict ↔ ∀ k r, rhs.lookup k = some r →
      ∃ l, lhs.lookup k = some l ∧ coverValues type k l r = .ok true := by
  constructor
  · rintro ⟨s, hs, hret⟩ k r hr
    have hc := (((coverKeys_ok hs).2.1 hret).2 k (mem_allKeys.2 (.inr (mem_of_lookup hr))))
    rw [coversAt, hr] at hc
    cases hl : lhs.lookup k with
    | none =>
      rw [hl] at hc
      cases hc
    | some l =>
      rw [hl] at hc
      exact ⟨l, rfl, hc⟩
  · intro h
    have hall : ∀ k, coversAt type lhs rhs k = .ok true := by
      intro k
      unfold coversAt
      cases hr : rhs.lookup k with
      | none => cases lhs.lookup k <;> rfl
      | some r =>
        obtain ⟨l, hl, hc⟩ := h k r hr
        rw [hl]
        exact hc
    obtain ⟨s, hs⟩ := @coverKeys_total _ _ _ (allKeys lhs rhs) { conflict }
      fun k _ => ⟨true, hall k⟩
    exact ⟨s, hs, (coverKeys_ok hs).2.2 ⟨rfl, fun k _ => hall k⟩⟩

/-! ## The claim about a pair of maps -/

/-- What makes reconciling two maps their join. -/
structure Join (type : AttrMapType) (lhs rhs : Container) : Prop where
  /-- No fault occurs. -/
  reconciled : ∀ merged conflict,
    ∃ s, reconcileGeneralAttributeKeys type lhs rhs merged conflict = .ok s
  checked : ∀ conflict, ∃ s, checkGeneralAttributeKeysCoverage type lhs rhs conflict = .ok s
  /-- What is merged covers both. -/
  covers : ∀ merged conflict conflict' s,
    reconcileGeneralAttributeKeys type lhs rhs merged conflict = .ok s → s.ret = true →
      Covers type s.merged lhs conflict' ∧ Covers type s.merged rhs conflict'
  /-- One map covers another one if reconciling them succeeds and adds no value to it. -/
  exact : ∀ s s', reconcileGeneralAttributeKeys type lhs rhs ∅ ∅ = .ok s →
    checkGeneralAttributeKeysCoverage type lhs rhs ∅ = .ok s' → (s'.ret = true ↔ s.ret = true ∧
        ∀ k v, s.merged.lookup k = some v → v ≠ .invalid → lhs.lookup k = some v)
  symmetric : ∀ merged conflict s,
    reconcileGeneralAttributeKeys type lhs rhs merged conflict = .ok s →
      ∃ s', reconcileGeneralAttributeKeys type rhs lhs merged conflict = .ok s' ∧
        s'.ret = s.ret ∧ ∀ k, s'.merged.lookup k = s.merged.lookup k

/-! ## The maps for which it holds -/

/-- Two values of a key can be reconciled and compared. -/
structure Mergeable (type : AttrMapType) (k : Nat) (l r : Value) : Prop where
  number : IsNumber type k → ∃ a b, l = .sizeT a ∧ r = .sizeT b ∧
    (k ≠ kTfLiteBufferAttrKeySize → (a ≠ 0 ∨ b ≠ 0) ∧ Nat.lcm a b < 2 ^ 64) ∧
    (k = kTfLiteBufferAttrKeyAlignment → b ≠ 0)
  other : ¬IsNumber type k → ¬NullWithText l r

/-- The values of the other keys that both maps have are equal. -/
def Agree (type : AttrMapType) (lhs rhs : Container) : Prop :=
  ∀ k l r, ¬IsNumber type k → lhs.lookup k = some l → rhs.lookup k = some r → l = r

/-- Reconciling a number with another one leaves it as it is. -/
def Stays (k a b : Nat) : Prop := if k = kTfLiteBufferAttrKeySize then b ≤ a else b ∣ a

/-- A relation holds for each number that both maps have. -/
def ForNumbers (type : AttrMapType) (lhs rhs : Container) (R : Nat → Nat → Nat → Prop) : Prop :=
  ∀ k a b, IsNumber type k → lhs.lookup k = some (.sizeT a) → rhs.lookup k = some (.sizeT b) →
    R k a b

structure Reconcilable (type : AttrMapType) (lhs rhs : Container) : Prop where
  mergeable : ∀ k l r, lhs.lookup k = some l → rhs.lookup k = some r → Mergeable type k l r
  /-- Every number is one, and no alignment is zero. -/
  numbers : Agree type lhs rhs → ∀ k v, IsNumber type k →
    lhs.lookup k = some v ∨ rhs.lookup k = some v →
      ∃ n, v = .sizeT n ∧ (k = kTfLiteBufferAttrKeyAlignment → n ≠ 0)
  /-- No padding that both maps have is zero. -/
  paddings : Agree type lhs rhs → ForNumbers type lhs rhs fun k a b =>
    k = kTfLiteBufferAttrKeyPadding → a ≠ 0 ∧ b ≠ 0
  /-- If the other keys are in favour of `lhs`, its padding is a multiple. -/
  divides : Agree type lhs rhs → (∀ k ∈ rhs, k ∈ lhs) → ForNumbers type lhs rhs CoversNumber →
    ForNumbers type lhs rhs Stays
  /-- An empty value is not all that `lhs` lacks. -/
  present : Agree type lhs rhs → ForNumbers type lhs rhs Stays →
    (∀ k v, rhs.lookup k = some v → k ∉ lhs → v = .invalid) → ∀ k ∈ rhs, k ∈ lhs

theorem joined_eq_left : joined k a b = a ↔ Stays k a b := by
  unfold joined Stays
  split
  · omega
  · exact Nat.lcm_eq_left_iff_dvd

theorem joined_comm (k a b : Nat) : joined k a b = joined k b a := by
  unfold joined
  rw [max_comm, Nat.lcm_comm]

/-- What two numbers are reconciled to covers them, paddings of zero apart. -/
theorem coversNumber_joined (hpadding : k = kTfLiteBufferAttrKeyPadding → a ≠ 0 ∧ b ≠ 0)
    (hk : IsNumber type k) : CoversNumber k (joined k a b) a := by
  unfold CoversNumber joined
  obtain ⟨-, rfl | rfl | rfl⟩ := hk
  · exact Nat.le_max_left a b
  · exact Nat.dvd_lcm_left a b
  · obtain ⟨ha, hb⟩ := hpadding rfl
    exact Nat.le_of_dvd (Nat.lcm_pos (by omega) (by omega)) (Nat.dvd_lcm_left a b)

theorem Stays.coversNumber (h : Stays k a b) (hk : IsNumber type k)
    (hpadding : k = kTfLiteBufferAttrKeyPadding → a ≠ 0 ∧ b ≠ 0) : CoversNumber k a b := by
  obtain ⟨-, rfl | rfl | rfl⟩ := hk
  · exact h
  · exact h
  · exact Nat.le_of_dvd (by have := (hpadding rfl).1; omega) h

theorem not_nullWithText_self (v : Value) : ¬NullWithText v v := by
  rintro ⟨c, ⟨rfl, h⟩ | ⟨rfl, h⟩⟩
  · cases h
  · cases h

section
variable {s : Reconciled}

/-! ## What has been merged -/

theorem ret_iff (hs : reconcileGeneralAttributeKeys type lhs rhs merged conflict = .ok s) :
    s.ret = true ↔ Agree type lhs rhs := by
  have hdefined := reconcile_defined_iff.1 ⟨s, hs⟩
  have hret := (reconcileKeys_ok (List.nodup_dedup _) hs).2.2
  constructor
  · intro htrue k l r hk hl hr
    have hne := (hret.1 htrue).2 k (mem_allKeys.2 (.inl (mem_of_lookup hl)))
    obtain ⟨v, hv⟩ := hdefined k l r hl hr
    rw [entry_of_both hl hr, hv] at hne
    by_contra hlr
    rw [((reconcileValues_other hk).1 hv).2, if_neg hlr] at hne
    exact hne rfl
  · intro hagree
    refine hret.2 ⟨rfl, fun k _ hnone => ?_⟩
    cases hl : lhs.lookup k with
    | none =>
      rw [entry, hl] at hnone
      cases hr : rhs.lookup k <;> (rw [hr] at hnone; cases hnone)
    | some l =>
      cases hr : rhs.lookup k with
      | none =>
        rw [entry, hl, hr] at hnone
        cases hnone
      | some r =>
        rw [entry_of_both hl hr] at hnone
        by_cases hk : IsNumber type k
        · obtain ⟨a, b, -, -, -, h⟩ := (reconcileValues_number hk).1 hnone
          cases h
        · have h := ((reconcileValues_other hk).1 hnone).2
          rw [if_pos (hagree k l r hk hl hr)] at h
          cases h

theorem merged_of_entry (hs : reconcileGeneralAttributeKeys type lhs rhs merged conflict = .ok s)
    (hk : k ∈ lhs ∨ k ∈ rhs) (h : entry type lhs rhs k = .ok (some v)) :
    s.merged.lookup k = some v := by
  obtain ⟨w, hw, hlookup⟩ :=
    (reconcileKeys_ok (List.nodup_dedup _) hs).1 k (mem_allKeys.2 hk)
  obtain rfl : some v = w := Except.ok.inj (h.symm.trans hw)
  exact hlookup

theorem merged_left (hs : reconcileGeneralAttributeKeys type lhs rhs merged conflict = .ok s)
    (hl : lhs.lookup k = some l) (hr : rhs.lookup k = none) : s.merged.lookup k = some l :=
  merged_of_entry hs (.inl (mem_of_lookup hl)) (by rw [entry, hl, hr]; rfl)

theorem merged_right (hs : reconcileGeneralAttributeKeys type lhs rhs merged conflict = .ok s)
    (hl : lhs.lookup k = none) (hr : rhs.lookup k = some r) : s.merged.lookup k = some r :=
  merged_of_entry hs (.inr (mem_of_lookup hr)) (by rw [entry, hl, hr]; rfl)

theorem merged_number (hs : reconcileGeneralAttributeKeys type lhs rhs merged conflict = .ok s)
    (hk : IsNumber type k) {a b : Nat} (hl : lhs.lookup k = some (.sizeT a))
    (hr : rhs.lookup k = some (.sizeT b)) :
    s.merged.lookup k = some (.sizeT (joined k a b)) := by
  obtain ⟨v, hv⟩ := reconcile_defined_iff.1 ⟨s, hs⟩ k _ _ hl hr
  obtain ⟨a', b', ha, hb, -, rfl⟩ := (reconcileValues_number hk).1 hv
  cases ha
  cases hb
  exact merged_of_entry hs (.inl (mem_of_lookup hl)) ((entry_of_both hl hr).trans hv)

theorem merged_other (hs : reconcileGeneralAttributeKeys type lhs rhs merged conflict = .ok s)
    (hagree : Agree type lhs rhs) (hk : ¬IsNumber type k) (hl : lhs.lookup k = some l)
    (hr : rhs.lookup k = some r) : s.merged.lookup k = some l := by
  obtain ⟨v, hv⟩ := reconcile_defined_iff.1 ⟨s, hs⟩ k l r hl hr
  have h := ((reconcileValues_other hk).1 hv).2
  rw [if_pos (hagree k l r hk hl hr)] at h
  subst h
  exact merged_of_entry hs (.inl (mem_of_lookup hl)) ((entry_of_both hl hr).trans hv)

theorem merged_neither (hs : reconcileGeneralAttributeKeys type lhs rhs merged conflict = .ok s)
    (hl : k ∉ lhs) (hr : k ∉ rhs) : s.merged.lookup k = merged.lookup k :=
  (reconcileKeys_ok (List.nodup_dedup _) hs).2.1 k fun hk =>
    (mem_allKeys.1 hk).elim hl hr

end

end

/-!
## When reconciling gives the join

The rules of reconciliation and coverage agree on sizes and alignments. A padding is merged as a
multiple but covered by any larger number, and an empty value counts as present.
-/

variable {type : AttrMapType} {lhs rhs merged conflict : Container} {k : Nat} {l r v : Value}
  {s : Reconciled}

/-! ### The order of the arguments -/

theorem nullWithText_comm : NullWithText l r ↔ NullWithText r l :=
  exists_congr fun _ => or_comm.trans (or_congr and_comm and_comm)

theorem reconcileValues_comm {v : Option Value} (h : reconcileValues type k l r = .ok v) :
    reconcileValues type k r l = .ok v := by
  by_cases hk : IsNumber type k
  · obtain ⟨a, b, rfl, rfl, hboth, rfl⟩ := (reconcileValues_number hk).1 h
    refine (reconcileValues_number hk).2 ⟨b, a, rfl, rfl, fun hsize => ?_, ?_⟩
    · exact ⟨(hboth hsize).1.symm, Nat.lcm_comm a b ▸ (hboth hsize).2⟩
    · rw [joined_comm]
  · obtain ⟨hnull, rfl⟩ := (reconcileValues_other hk).1 h
    refine (reconcileValues_other hk).2 ⟨fun hn => hnull (nullWithText_comm.1 hn), ?_⟩
    by_cases hlr : l = r
    · rw [if_pos hlr, if_pos hlr.symm, hlr]
    · rw [if_neg hlr, if_neg (Ne.symm hlr)]

theorem entry_comm {v : Option Value} (h : entry type lhs rhs k = .ok v) :
    entry type rhs lhs k = .ok v := by
  cases hl : lhs.lookup k with
  | none =>
    rw [entry, hl] at h
    cases hr : rhs.lookup k <;> rw [hr] at h
    · cases h
    · rw [entry, hl, hr]
      exact h
  | some l =>
    cases hr : rhs.lookup k with
    | none =>
      rw [entry, hl, hr] at h
      rw [entry, hl, hr]
      exact h
    | some r =>
      rw [entry_of_both hl hr] at h
      rw [entry_of_both hr hl]
      exact reconcileValues_comm h

theorem agree_comm (h : Agree type lhs rhs) : Agree type rhs lhs :=
  fun k l r hk hl hr => (h k r l hk hr hl).symm

theorem reconcile_symmetric
    (hs : reconcileGeneralAttributeKeys type lhs rhs merged conflict = .ok s) :
    ∃ s', reconcileGeneralAttributeKeys type rhs lhs merged conflict = .ok s' ∧
      s'.ret = s.ret ∧ ∀ k, s'.merged.lookup k = s.merged.lookup k := by
  have hdefined := reconcile_defined_iff.1 ⟨s, hs⟩
  obtain ⟨s', hs'⟩ := (@reconcile_defined_iff type rhs lhs merged conflict).2 fun k r l hr hl =>
      (hdefined k l r hl hr).imp fun _ => reconcileValues_comm
  refine ⟨s', hs', ?_, fun k => ?_⟩
  · rw [Bool.eq_iff_iff, ret_iff hs', ret_iff hs]
    exact ⟨agree_comm, agree_comm⟩
  · by_cases hk : k ∈ allKeys lhs rhs
    · have hk' : k ∈ allKeys rhs lhs := mem_allKeys.2 (mem_allKeys.1 hk).symm
      obtain ⟨v, hv, hlookup⟩ := (reconcileKeys_ok (List.nodup_dedup _) hs).1 k hk
      obtain ⟨v', hv', hlookup'⟩ := (reconcileKeys_ok (List.nodup_dedup _) hs').1 k hk'
      obtain rfl : v = v' := Except.ok.inj ((entry_comm hv).symm.trans hv')
      rw [hlookup, hlookup']
    · have hmem := fun h => hk (mem_allKeys.2 h)
      rw [merged_neither hs (fun h => hmem (.inl h)) fun h => hmem (.inr h),
        merged_neither hs' (fun h => hmem (.inr h)) fun h => hmem (.inl h)]

/-! ### What the maps must fulfil -/

/-- The two loops go through at a key. -/
theorem mergeable_iff : Mergeable type k l r ↔
    (∃ v, reconcileValues type k l r = .ok v) ∧ ∃ c, coverValues type k l r = .ok c := by
  constructor
  · intro h
    by_cases hk : IsNumber type k
    · obtain ⟨a, b, hl, hr, hboth, halign⟩ := h.number hk
      exact ⟨⟨_, (reconcileValues_number hk).2 ⟨a, b, hl, hr, hboth, rfl⟩⟩,
        ⟨_, (coverValues_number hk).2 ⟨a, b, hl, hr, halign, rfl⟩⟩⟩
    · exact ⟨⟨_, (reconcileValues_other hk).2 ⟨h.other hk, rfl⟩⟩,
        ⟨_, (coverValues_other hk).2 ⟨h.other hk, rfl⟩⟩⟩
  · rintro ⟨⟨v, hv⟩, c, hc⟩
    refine ⟨fun hk => ?_, fun hk => ((reconcileValues_other hk).1 hv).1⟩
    obtain ⟨a, b, hl, hr, hboth, -⟩ := (reconcileValues_number hk).1 hv
    obtain ⟨a', b', -, hr', halign, -⟩ := (coverValues_number hk).1 hc
    rw [hr] at hr'
    cases hr'
    exact ⟨a, b, hl, hr, hboth, halign⟩

theorem number_of_covered (hk : IsNumber type k) (h : coverValues type k l v = .ok true) :
    ∃ n, v = .sizeT n ∧ (k = kTfLiteBufferAttrKeyAlignment → n ≠ 0) := by
  obtain ⟨-, n, -, hn, halign, -⟩ := (coverValues_number hk).1 h
  exact ⟨n, hn, halign⟩

theorem coversNumber_of_covered (hk : IsNumber type k) {a b : Nat}
    (h : coverValues type k (.sizeT a) (.sizeT b) = .ok true) : CoversNumber k a b := by
  obtain ⟨a', b', ha, hb, -, hc⟩ := (coverValues_number hk).1 h
  cases ha
  cases hb
  exact of_decide_eq_true hc.symm

/-- Two maps without a fault and without a conflict, of which one has what the other one has. -/
theorem covers_of_numbers (hmergeable : ∀ k l r, lhs.lookup k = some l → rhs.lookup k = some r →
      Mergeable type k l r) (hagree : Agree type lhs rhs) (hkeys : ∀ k ∈ rhs, k ∈ lhs)
    (hnumbers : ForNumbers type lhs rhs CoversNumber) : Covers type lhs rhs conflict := by
  refine covers_iff.2 fun k r hr => ?_
  obtain ⟨l, hl⟩ := exists_lookup (hkeys k (mem_of_lookup hr))
  refine ⟨l, hl, ?_⟩
  have h := hmergeable k l r hl hr
  by_cases hk : IsNumber type k
  · obtain ⟨a, b, rfl, rfl, -, halign⟩ := h.number hk
    exact (coverValues_number hk).2
      ⟨a, b, rfl, rfl, halign, (decide_eq_true (hnumbers k a b hk hl hr)).symm⟩
  · exact (coverValues_other hk).2 ⟨h.other hk, (decide_eq_true (hagree k l r hk hl hr)).symm⟩

theorem forNumbers_of_covers (h : Covers type lhs rhs conflict) :
    ForNumbers type lhs rhs CoversNumber := by
  intro k a b hk hl hr
  obtain ⟨l, hl', hc⟩ := covers_iff.1 h k _ hr
  rw [hl] at hl'
  cases hl'
  exact coversNumber_of_covered hk hc

theorem agree_of_covers (h : Covers type lhs rhs conflict) : Agree type lhs rhs := by
  intro k l r hk hl hr
  obtain ⟨l', hl', hc⟩ := covers_iff.1 h k r hr
  rw [hl] at hl'
  cases hl'
  exact of_decide_eq_true ((coverValues_other hk).1 hc).2.symm

theorem keys_of_covers (h : Covers type lhs rhs conflict) : ∀ k ∈ rhs, k ∈ lhs := by
  intro k hk
  obtain ⟨r, hr⟩ := exists_lookup hk
  obtain ⟨l, hl, -⟩ := covers_iff.1 h k r hr
  exact mem_of_lookup hl

theorem covers_merged (hs : reconcileGeneralAttributeKeys type lhs rhs merged conflict = .ok s)
    (hagree : Agree type lhs rhs)
    (hnumbers : ∀ k v, IsNumber type k → lhs.lookup k = some v →
      ∃ n, v = .sizeT n ∧ (k = kTfLiteBufferAttrKeyAlignment → n ≠ 0))
    (hpaddings : ForNumbers type lhs rhs fun k a b =>
      k = kTfLiteBufferAttrKeyPadding → a ≠ 0 ∧ b ≠ 0) (conflict' : Container) :
    Covers type s.merged lhs conflict' := by
  refine covers_iff.2 fun k l hl => ?_
  by_cases hk : IsNumber type k
  · obtain ⟨n, rfl, halign⟩ := hnumbers k l hk hl
    cases hr : rhs.lookup k with
    | none =>
      refine ⟨_, merged_left hs hl hr, (coverValues_number hk).2 ⟨n, n, rfl, rfl, halign, ?_⟩⟩
      refine (decide_eq_true ?_).symm
      unfold CoversNumber
      split
      · exact Nat.dvd_refl n
      · exact Nat.le_refl n
    | some r =>
      obtain ⟨v, hv⟩ := reconcile_defined_iff.1 ⟨s, hs⟩ k _ _ hl hr
      obtain ⟨a, b, ha, rfl, -, -⟩ := (reconcileValues_number hk).1 hv
      cases ha
      refine ⟨_, merged_number hs hk hl hr,
        (coverValues_number hk).2 ⟨joined k n b, n, rfl, rfl, halign, ?_⟩⟩
      exact (decide_eq_true (coversNumber_joined (hpaddings k n b hk hl hr) hk)).symm
  · have hself : coverValues type k l l = .ok true :=
      (coverValues_other hk).2 ⟨not_nullWithText_self l, (decide_eq_true rfl).symm⟩
    cases hr : rhs.lookup k with
    | none => exact ⟨l, merged_left hs hl hr, hself⟩
    | some r => exact ⟨l, merged_other hs hagree hk hl hr, hself⟩

theorem Covers.congr {lhs' : Container} (h : Covers type lhs rhs conflict)
    (hlookup : ∀ k, lhs'.lookup k = lhs.lookup k) : Covers type lhs' rhs conflict := by
  refine covers_iff.2 fun k r hr => ?_
  rw [hlookup]
  exact covers_iff.1 h k r hr

/-- A merged map that adds no value to the first one. -/
theorem forNumbers_stays (hs : reconcileGeneralAttributeKeys type lhs rhs merged conflict = .ok s)
    (hsame : ∀ k v, s.merged.lookup k = some v → v ≠ .invalid → lhs.lookup k = some v) :
    ForNumbers type lhs rhs Stays := by
  intro k a b hk hl hr
  have hsame := hsame k _ (merged_number hs hk hl hr) nofun
  rw [hl, Option.some.injEq, Value.sizeT.injEq] at hsame
  exact joined_eq_left.1 hsame.symm

theorem merged_same (hs : reconcileGeneralAttributeKeys type lhs rhs ∅ conflict = .ok s)
    (hagree : Agree type lhs rhs) (hstays : ForNumbers type lhs rhs Stays)
    (hempty : ∀ k v, rhs.lookup k = some v → k ∉ lhs → v = .invalid) (k : Nat) (v : Value)
    (hv : s.merged.lookup k = some v) (hne : v ≠ .invalid) : lhs.lookup k = some v := by
  cases hl : lhs.lookup k with
  | none =>
    cases hr : rhs.lookup k with
    | none =>
      rw [merged_neither hs (AList.lookup_eq_none.1 hl) (AList.lookup_eq_none.1 hr)] at hv
      cases hv
    | some r =>
      rw [merged_right hs hl hr, Option.some.injEq] at hv
      exact absurd (hempty k v (hv ▸ hr) (AList.lookup_eq_none.1 hl)) hne
  | some l =>
    cases hr : rhs.lookup k with
    | none => rw [← merged_left hs hl hr, hv]
    | some r =>
      by_cases hk : IsNumber type k
      · obtain ⟨w, hw⟩ := reconcile_defined_iff.1 ⟨s, hs⟩ k _ _ hl hr
        obtain ⟨a, b, rfl, rfl, -, -⟩ := (reconcileValues_number hk).1 hw
        rw [merged_number hs hk hl hr, joined_eq_left.2 (hstays k a b hk hl hr)] at hv
        exact hv
      · rw [← merged_other hs hagree hk hl hr, hv]

/-- Reconciling is the join just for the maps that are reconcilable. -/
theorem reconcile_join_iff (type : AttrMapType) (lhs rhs : Container) :
    Join type lhs rhs ↔ Reconcilable type lhs rhs := by
  constructor
  · intro h
    obtain ⟨s, hs⟩ := h.reconciled ∅ ∅
    obtain ⟨s', hs'⟩ := h.checked ∅
    have hmergeable : ∀ k l r, lhs.lookup k = some l → rhs.lookup k = some r →
        Mergeable type k l r := fun k l r hl hr =>
      mergeable_iff.2 ⟨reconcile_defined_iff.1 ⟨s, hs⟩ k l r hl hr,
        check_defined_iff.1 ⟨s', hs'⟩ k l r hl hr⟩
    have hcovers := fun hagree => h.covers ∅ ∅ ∅ s hs ((ret_iff hs).2 hagree)
    have hexact := h.exact s s' hs hs'
    refine ⟨hmergeable, fun hagree k v hk hv => ?_, fun hagree k a b hk hl hr hpad => ?_,
      fun hagree hkeys hnumbers => ?_, fun hagree hstays hempty => ?_⟩
    · obtain hv | hv := hv
      · obtain ⟨m, -, hc⟩ := covers_iff.1 (hcovers hagree).1 k v hv
        exact number_of_covered hk hc
      · obtain ⟨m, -, hc⟩ := covers_iff.1 (hcovers hagree).2 k v hv
        exact number_of_covered hk hc
    · -- The least common multiple of zero and a number is zero, which covers zero only.
      have hmerged := merged_number hs hk hl hr
      have hleft := forNumbers_of_covers (hcovers hagree).1 k _ _ hk hmerged hl
      have hright := forNumbers_of_covers (hcovers hagree).2 k _ _ hk hmerged hr
      obtain ⟨a', b', ha, hb, hboth, -⟩ := (hmergeable k _ _ hl hr).number hk
      cases ha
      cases hb
      subst hpad
      have hsome := (hboth (by decide)).1
      replace hleft : a ≤ Nat.lcm a b := hleft
      replace hright : b ≤ Nat.lcm a b := hright
      constructor
      · rintro rfl
        rw [Nat.lcm_zero_left] at hright
        omega
      · rintro rfl
        rw [Nat.lcm_zero_right] at hleft
        omega
    · have hall : Covers type lhs rhs ∅ := covers_of_numbers hmergeable hagree hkeys hnumbers
      obtain ⟨t, ht, hret⟩ := hall
      obtain rfl : s' = t := Except.ok.inj (hs'.symm.trans ht)
      exact forNumbers_stays hs (hexact.1 hret).2
    · have hret := hexact.2 ⟨(ret_iff hs).2 hagree, merged_same hs hagree hstays hempty⟩
      exact keys_of_covers ⟨s', hs', hret⟩
  · intro h
    refine ⟨fun merged conflict => ?_, fun conflict => ?_, fun merged conflict conflict' s hs hret => ?_,
      fun s s' hs hs' => ?_, fun merged conflict s hs => reconcile_symmetric hs⟩
    · exact reconcile_defined_iff.2 fun k l r hl hr => (mergeable_iff.1 (h.mergeable k l r hl hr)).1
    · exact check_defined_iff.2 fun k l r hl hr => (mergeable_iff.1 (h.mergeable k l r hl hr)).2
    · have hagree := (ret_iff hs).1 hret
      obtain ⟨s', hs', -, hlookup⟩ := reconcile_symmetric hs
      refine ⟨covers_merged hs hagree (fun k v hk hv => h.numbers hagree k v hk (.inl hv))
        (h.paddings hagree) conflict', ?_⟩
      refine (covers_merged hs' (agree_comm hagree)
        (fun k v hk hv => h.numbers hagree k v hk (.inr hv)) (fun k b a hk hr hl hpad => ?_)
        conflict').congr fun k => (hlookup k).symm
      exact (h.paddings hagree k a b hk hl hr hpad).symm
    · have hcovers : s'.ret = true ↔ Covers type lhs rhs ∅ := by
        constructor
        · exact fun hret => ⟨s', hs', hret⟩
        · rintro ⟨t, ht, hret⟩
          obtain rfl : s' = t := Except.ok.inj (hs'.symm.trans ht)
          exact hret
      rw [hcovers, ret_iff hs]
      constructor
      · intro hall
        have hagree := agree_of_covers hall
        have hkeys := keys_of_covers hall
        refine ⟨hagree, merged_same hs hagree
          (h.divides hagree hkeys (forNumbers_of_covers hall)) fun k v hv hk => ?_⟩
        exact absurd (hkeys k (mem_of_lookup hv)) hk
      · rintro ⟨hagree, hsame⟩
        have hstays := forNumbers_stays hs hsame
        have hkeys := h.present hagree hstays fun k v hv hk => by
          by_contra hne
          have hmem := hsame k v (merged_right hs (lookup_none hk) hv) hne
          exact hk (mem_of_lookup hmem)
        exact covers_of_numbers h.mergeable hagree hkeys fun k a b hk hl hr =>
          (hstays k a b hk hl hr).coversNumber hk (h.paddings hagree k a b hk hl hr)

/-- Paddings of 12 and 8: the first covers the second, but they are reconciled to 24. -/
theorem padding_not_join :
    ¬Join .buffer (AList.insert kTfLiteBufferAttrKeyPadding (.sizeT 12) ∅)
      (AList.insert kTfLiteBufferAttrKeyPadding (.sizeT 8) ∅) := by
  intro h
  obtain ⟨s, hs⟩ := h.reconciled ∅ ∅
  obtain ⟨s', hs'⟩ := h.checked ∅
  have hk : IsNumber .buffer kTfLiteBufferAttrKeyPadding := ⟨rfl, .inr (.inr rfl)⟩
  have hcovers : s'.ret = true := by
    refine (coverKeys_ok hs').2.2 ⟨rfl, fun k hkeys => ?_⟩
    have hmem : k = kTfLiteBufferAttrKeyPadding := by
      obtain hmem | hmem := mem_allKeys.1 hkeys
      · exact (AList.mem_insert _).1 hmem |>.resolve_right (AList.notMem_empty k)
      · exact (AList.mem_insert _).1 hmem |>.resolve_right (AList.notMem_empty k)
    subst hmem
    exact (coverValues_number hk).2 ⟨12, 8, rfl, rfl, by decide, by decide⟩
  have hstays := forNumbers_stays hs ((h.exact s s' hs hs').1 hcovers).2 _ 12 8 hk
    (AList.lookup_insert _) (AList.lookup_insert _)
  have hdvd : 8 ∣ 12 := hstays
  exact absurd hdvd (by decide)

end LiteRt.Interop
