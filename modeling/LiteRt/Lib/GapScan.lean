import Mathlib.Data.List.Basic

/-!
# Looking for a gap between placed items

Items lie at `lo` and end at `hi`; some of them are in the way of a new item. The placed
items are scanned in the order of `lo` with a running end `cur`, and any gap in front of an
item in the way may be chosen. Items in the way may overlap each other.
-/

namespace LiteRt.Lib.GapScan

open List

variable {ι : Type} {lo hi : ι → Nat} {near : ι → Prop} {items : List ι} {size cur o : Nat}
  {best : Option Nat} {key : ι → Nat} {k : Nat}

/-- No item in the way meets the `size` cells from `o` on. -/
def Clear (lo hi : ι → Nat) (near : ι → Prop) (items : List ι) (o size : Nat) : Prop :=
  ∀ i ∈ items, near i → hi i ≤ o ∨ o + size ≤ lo i

/-- A scan that has passed `items`: all of them in the way end at `cur`, and the chosen gap
lies in front of one of them. -/
structure Scanned (lo hi : ι → Nat) (near : ι → Prop) (size : Nat) (items : List ι) (cur : Nat)
    (best : Option Nat) : Prop where
  passed : ∀ i ∈ items, near i → hi i ≤ cur
  chosen : ∀ o ∈ best, Clear lo hi near items o size ∧ ∃ j ∈ items, o + size ≤ lo j

theorem scanned_nil : Scanned lo hi near size [] cur none where
  passed := by simp
  chosen := by simp

theorem Scanned.skip {i : ι} (h : Scanned lo hi near size items cur best) (hi' : ¬ near i) :
    Scanned lo hi near size (items ++ [i]) cur best where
  passed := by
    intro j hj hnear
    rcases mem_append.1 hj with hj | hj
    · exact h.passed j hj hnear
    · rw [mem_singleton.1 hj] at hnear
      exact absurd hnear hi'
  chosen := by
    intro o ho
    obtain ⟨hclear, j, hj, hle⟩ := h.chosen o ho
    refine ⟨fun k hk hnear => ?_, j, mem_append_left _ hj, hle⟩
    rcases mem_append.1 hk with hk | hk
    · exact hclear k hk hnear
    · rw [mem_singleton.1 hk] at hnear
      exact absurd hnear hi'

/-- An item in the way moves the end; the gap in front of it starts at the old end. -/
theorem Scanned.pass {i : ι} {cur' : Nat} {best' : Option Nat}
    (h : Scanned lo hi near size items cur best) (hlo : ∀ j ∈ items, lo j ≤ lo i)
    (hcur : cur ≤ cur') (hend : hi i ≤ cur')
    (hbest : ∀ o ∈ best', o ∈ best ∨ cur ≤ o ∧ o + size ≤ lo i) :
    Scanned lo hi near size (items ++ [i]) cur' best' where
  passed := by
    intro j hj hnear
    rcases mem_append.1 hj with hj | hj
    · exact Nat.le_trans (h.passed j hj hnear) hcur
    · rwa [mem_singleton.1 hj]
  chosen := by
    intro o ho
    rcases hbest o ho with ho | ⟨hge, hle⟩
    · obtain ⟨hclear, j, hj, hle⟩ := h.chosen o ho
      refine ⟨fun k hk hnear => ?_, j, mem_append_left _ hj, hle⟩
      rcases mem_append.1 hk with hk | hk
      · exact hclear k hk hnear
      · rw [mem_singleton.1 hk]
        exact .inr (Nat.le_trans hle (hlo j hj))
    · refine ⟨fun k hk hnear => ?_, i, mem_append_right _ (mem_singleton_self i), hle⟩
      rcases mem_append.1 hk with hk | hk
      · exact .inl (Nat.le_trans (h.passed k hk hnear) hge)
      · rw [mem_singleton.1 hk]
        exact .inr hle

theorem Scanned.clear_best {rest : List ι} (h : Scanned lo hi near size items cur best)
    (hsorted : ∀ j ∈ items, ∀ i ∈ rest, lo j ≤ lo i) (ho : o ∈ best) :
    Clear lo hi near (items ++ rest) o size := by
  intro i hi' hnear
  obtain ⟨hclear, j, hj, hle⟩ := h.chosen o ho
  rcases mem_append.1 hi' with hi' | hi'
  · exact hclear i hi' hnear
  · exact .inr (Nat.le_trans hle (hsorted j hj i hi'))

theorem Scanned.clear_end (h : Scanned lo hi near size items cur best) (ho : cur ≤ o) :
    Clear lo hi near items o size :=
  fun i hi' hnear => .inl (Nat.le_trans (h.passed i hi' hnear) ho)

/-! ## The tightest gap -/

/-- The last item whose size is less than the bound that the one before it has set. -/
def pick (size bound : ι → Nat) : List ι → Option ι → Nat → Option ι
  | [], best, _ => best
  | i :: items, best, fit =>
    if size i < fit then pick size bound items (some i) (bound i)
    else pick size bound items best fit

/-- An item of least size is bounded by the sizes of all items behind it. -/
def Tight (size bound : ι → Nat) (items : List ι) : Prop :=
  ∃ k rest, (k :: rest) <:+ items ∧ (∀ i ∈ items, size k ≤ size i) ∧ ∀ j ∈ rest, bound k ≤ size j

section
variable {length bound : ι → Nat} {i j k : ι} {fit : Nat}

theorem tight_singleton : Tight length bound [i] :=
  ⟨i, [], suffix_refl _, fun _ hj => mem_singleton.1 hj ▸ Nat.le_refl _,
    fun _ hj => absurd hj not_mem_nil⟩

/-- An item that is less than the bound replaces the one before it. -/
theorem tight_cons_of_lt (h : length i < bound j) :
    Tight length bound (j :: i :: items) ↔
      Tight length bound (i :: items) ∧ ∃ m ∈ i :: items, length m ≤ length j ∧
        ∀ x ∈ i :: items, length m ≤ length x := by
  constructor
  · rintro ⟨m, rest, hsuffix, hleast, hrest⟩
    rcases suffix_cons_iff.1 hsuffix with heq | hsuffix
    · cases heq
      exact absurd (hrest i mem_cons_self) (Nat.not_le_of_lt h)
    · have hleast' : ∀ x ∈ i :: items, length m ≤ length x :=
        fun x hx => hleast x (mem_cons_of_mem _ hx)
      exact ⟨⟨m, rest, hsuffix, hleast', hrest⟩, m, hsuffix.subset mem_cons_self,
        hleast j mem_cons_self, hleast'⟩
  · rintro ⟨⟨k, rest, hsuffix, hleast, hrest⟩, m, hm, hmj, -⟩
    refine ⟨k, rest, suffix_cons_iff.2 (.inr hsuffix), ?_, hrest⟩
    rw [forall_mem_cons]
    exact ⟨Nat.le_trans (hleast m hm) hmj, hleast⟩

/-- An item that is not less than the bound changes nothing. -/
theorem tight_cons_of_le (hbound : ∀ i, length i ≤ bound i) (h : bound j ≤ length i) :
    Tight length bound (j :: i :: items) ↔ Tight length bound (j :: items) := by
  constructor
  · rintro ⟨k, rest, hsuffix, hleast, hrest⟩
    have hleast' : ∀ x ∈ j :: items, length k ≤ length x := by
      intro x hx
      refine hleast x ?_
      rcases mem_cons.1 hx with rfl | hx
      · exact mem_cons_self
      · exact mem_cons_of_mem _ (mem_cons_of_mem _ hx)
    rcases suffix_cons_iff.1 hsuffix with heq | hsuffix
    · cases heq
      exact ⟨j, items, suffix_refl _, hleast', fun x hx => hrest x (mem_cons_of_mem _ hx)⟩
    rcases suffix_cons_iff.1 hsuffix with heq | hsuffix
    · cases heq
      -- the three sizes are equal, so that the first item is as good
      have hkj := hleast' j mem_cons_self
      have hj := hbound j
      refine ⟨j, items, suffix_refl _, fun x hx => ?_, fun x hx => ?_⟩
      · have := hleast' x hx
        omega
      · have := hrest x hx
        have := hbound i
        omega
    · exact ⟨k, rest, suffix_cons_iff.2 (.inr hsuffix), hleast', hrest⟩
  · rintro ⟨k, rest, hsuffix, hleast, hrest⟩
    have hj := hbound j
    have hkj := hleast j mem_cons_self
    have hleast' : ∀ x ∈ j :: i :: items, length k ≤ length x := by
      rw [forall_mem_cons, forall_mem_cons]
      exact ⟨hkj, by omega, fun x hx => hleast x (mem_cons_of_mem _ hx)⟩
    rcases suffix_cons_iff.1 hsuffix with heq | hsuffix
    · cases heq
      refine ⟨j, i :: items, suffix_refl _, hleast', ?_⟩
      rw [forall_mem_cons]
      exact ⟨h, hrest⟩
    · exact ⟨k, rest, (hsuffix.trans (suffix_cons _ _)).trans (suffix_cons _ _), hleast', hrest⟩

theorem pick_mem (h : k ∈ pick length bound items (some j) fit) : k ∈ j :: items := by
  induction items generalizing j fit with
  | nil =>
    cases h
    exact mem_cons_self
  | cons i items ih =>
    unfold pick at h
    split at h
    · exact mem_cons_of_mem _ (ih h)
    · rcases mem_cons.1 (ih h) with rfl | hk
      · exact mem_cons_self
      · exact mem_cons_of_mem _ (mem_cons_of_mem _ hk)

theorem exists_pick (items : List ι) (j : ι) (fit : Nat) :
    ∃ k, pick length bound items (some j) fit = some k := by
  induction items generalizing j fit with
  | nil => exact ⟨j, rfl⟩
  | cons i items ih =>
    unfold pick
    split
    · exact ih i _
    · exact ih j _

/-- What the search ends with is of least size exactly if some item of least size is bounded. -/
theorem pick_least_iff (hbound : ∀ i, length i ≤ bound i)
    (h : k ∈ pick length bound items (some j) (bound j)) :
    (∀ x ∈ j :: items, length k ≤ length x) ↔ Tight length bound (j :: items) := by
  induction items generalizing j with
  | nil =>
    cases h
    exact iff_of_true (fun x hx => mem_singleton.1 hx ▸ Nat.le_refl _) tight_singleton
  | cons i items ih =>
    unfold pick at h
    split at h
    · next hlt =>
      rw [tight_cons_of_lt hlt, ← ih h]
      constructor
      · intro hleast
        rw [forall_mem_cons] at hleast
        exact ⟨hleast.2, k, pick_mem h, hleast⟩
      · rintro ⟨hleast, m, hm, hmj, -⟩
        rw [forall_mem_cons]
        exact ⟨Nat.le_trans (hleast m hm) hmj, hleast⟩
    · next hle =>
      rw [tight_cons_of_le hbound (Nat.not_lt.1 hle), ← ih h]
      have hj := hbound j
      rw [forall_mem_cons, forall_mem_cons, forall_mem_cons]
      refine ⟨fun h' => ⟨h'.1, h'.2.2⟩, fun h' => ⟨h'.1, ?_, h'.2⟩⟩
      have hk := h'.1
      omega

end

/-! ## Keeping the order -/

/-- `upper_bound` and insertion: `x` goes behind the items with keys up to `k`. -/
def upperInsert (key : ι → Nat) (k : Nat) (x : ι) (items : List ι) : List ι :=
  items.takeWhile (fun i => decide (key i ≤ k)) ++
    x :: items.dropWhile (fun i => decide (key i ≤ k))

theorem upperInsert_perm (key : ι → Nat) (k : Nat) (x : ι) (items : List ι) :
    (upperInsert key k x items).Perm (x :: items) := by
  unfold upperInsert
  refine perm_middle.trans (List.Perm.cons x ?_)
  rw [takeWhile_append_dropWhile]

theorem mem_upperInsert {x i : ι} :
    i ∈ upperInsert key k x items ↔ i = x ∨ i ∈ items := by
  rw [(upperInsert_perm key k x items).mem_iff, mem_cons]

theorem upperInsert_cons (key : ι → Nat) (k : Nat) (x i : ι) (items : List ι) :
    upperInsert key k x (i :: items) =
      if key i ≤ k then i :: upperInsert key k x items else x :: i :: items := by
  by_cases h : key i ≤ k
  · simp [upperInsert, h]
  · simp [upperInsert, h]

/-- The keys stay sorted when `x` comes in with the key `k`. -/
theorem upperInsert_sorted {x : ι} (hx : key x = k) :
    ∀ {items : List ι}, items.Pairwise (fun i j => key i ≤ key j) →
      (upperInsert key k x items).Pairwise fun i j => key i ≤ key j
  | [], _ => pairwise_singleton _ _
  | i :: items, h => by
    obtain ⟨hi, hrest⟩ := pairwise_cons.1 h
    rw [upperInsert_cons]
    split
    · rename_i hle
      refine pairwise_cons.2 ⟨fun j hj => ?_, upperInsert_sorted hx hrest⟩
      rcases mem_upperInsert.1 hj with rfl | hj
      · rwa [hx]
      · exact hi j hj
    · rename_i hlt
      refine pairwise_cons.2 ⟨fun j hj => ?_, h⟩
      rcases mem_cons.1 hj with rfl | hj
      · omega
      · have := hi j hj
        omega

theorem upperInsert_congr {key key' : ι → Nat} {x : ι} {items : List ι}
    (h : ∀ i ∈ items, key i = key' i) :
    upperInsert key k x items = upperInsert key' k x items := by
  induction items with
  | nil => rfl
  | cons i items ih =>
    rw [upperInsert_cons, upperInsert_cons, h i mem_cons_self,
      ih fun j hj => h j (mem_cons_of_mem i hj)]

end LiteRt.Lib.GapScan
