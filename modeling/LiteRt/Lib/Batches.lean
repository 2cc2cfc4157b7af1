import Mathlib.Data.List.Basic
import Mathlib.Data.List.Chain
import Mathlib.Data.List.Induction
import Mathlib.Data.List.Nodup
import Mathlib.Logic.Relation

/-!
# Scheduling in batches of one type

Items are scanned in a fixed order, over and over, and those that are ready join the
current batch when they have the type of its first item. A batch ends when nothing
joins any more, or with the run of items a scan finds first when it is not greedy.
-/

namespace LiteRt.Lib

open List

structure Batching (α τ : Type*) where
  items : List α
  type : α → τ
  ready : List α → α → Bool
  greedily : Bool
  fuse : Bool

namespace Batching

variable {α τ : Type*} [DecidableEq α] [DecidableEq τ] (b : Batching α τ)

/-- The item may join the current batch. -/
def eligible (done cur : List α) (i : α) : Bool :=
  decide (i ∉ done ++ cur) && b.ready (done ++ cur) i &&
    cur.head?.all fun j => b.fuse && decide (b.type i = b.type j)

/-- One scan: the batch, whether something joined, and whether the batch ends early. -/
def scan (done : List α) : List α → List α → Bool → List α × Bool × Bool
  | [], cur, did => (cur, did, false)
  | i :: is, cur, did =>
    if b.eligible done cur i then scan done is (cur ++ [i]) true
    else if did && !b.greedily then (cur, did, true)
    else scan done is cur did

def collect (done : List α) : Nat → List α → List α
  | 0, cur => cur
  | n + 1, cur =>
    let r := b.scan done b.items cur false
    if r.2.2 || !r.2.1 then r.1 else collect done n r.1

def batch (done : List α) : List α := b.collect done (b.items.length + 1) []

/-- The batches after `done`, until one is empty. -/
def batches : Nat → List α → List (List α)
  | 0, _ => []
  | n + 1, done =>
    if b.batch done = [] then [] else b.batch done :: batches n (done ++ b.batch done)

/-- The batch grows by single eligible items. -/
def Grows (done : List α) : List α → List α → Prop :=
  Relation.ReflTransGen fun cur cur' =>
    ∃ i ∈ b.items, b.eligible done cur i = true ∧ cur' = cur ++ [i]

/-- More done items leave an item ready. -/
def Monotone : Prop := ∀ D D' i, D ⊆ D' → b.ready D i = true → b.ready D' i = true

/-- The items still to be scheduled. -/
def left (D : List α) : List α := b.items.filter (· ∉ D)

section
variable {b} {done cur cur' : List α} {i : α} {n : Nat} {is : List α} {did : Bool}
  {pre post : List α} {E : List α}

theorem eligible_iff : b.eligible done cur i = true ↔ i ∉ done ++ cur ∧
    b.ready (done ++ cur) i = true ∧ ∀ j, cur.head? = some j → b.fuse = true ∧ b.type i = b.type j := by
  rw [eligible, Bool.and_eq_true, Bool.and_eq_true, decide_eq_true_eq, and_assoc]
  refine and_congr_right fun _ => and_congr_right fun _ => ?_
  cases cur <;> simp

theorem eligible_nil : b.eligible done [] i = true ↔ i ∉ done ∧ b.ready done i = true := by
  rw [eligible_iff, append_nil]
  simp

/-! ## Scans -/

theorem Grows.isPrefix (h : b.Grows done cur cur') : cur <+: cur' := by
  induction h with
  | refl => exact prefix_refl _
  | tail _ hs ih =>
    obtain ⟨i, -, -, rfl⟩ := hs
    exact ih.trans (prefix_append _ _)

theorem scan_grows (his : is ⊆ b.items) :
    b.Grows done cur (b.scan done is cur did).1 := by
  induction is generalizing cur did with
  | nil => exact .refl
  | cons i is ih =>
    have his' : is ⊆ b.items := fun j hj => his (mem_cons_of_mem i hj)
    rw [scan]
    split
    · next he => exact .head ⟨i, his (mem_cons_self ..), he, rfl⟩ (ih his')
    · split
      · exact .refl
      · exact ih his'

/-- A scan without effect has found nothing eligible. -/
theorem scan_idle (h : (b.scan done is cur did).2.1 = false) :
    did = false ∧ (b.scan done is cur did).1 = cur ∧ ∀ i ∈ is, b.eligible done cur i = false := by
  induction is generalizing cur did with
  | nil => exact ⟨h, rfl, by simp⟩
  | cons i is ih =>
    rw [scan] at h ⊢
    split at h
    · next he => exact absurd (ih h).1 (by simp)
    · next he =>
      rw [if_neg he]
      split at h
      · next hs =>
        obtain rfl : did = false := h
        simp at hs
      · next hs =>
        obtain ⟨hd, hc, hall⟩ := ih h
        rw [if_neg hs]
        exact ⟨hd, hc, forall_mem_cons.mpr ⟨by simpa using he, hall⟩⟩

theorem scan_extends : cur <+: (b.scan done is cur did).1 := by
  induction is generalizing cur did with
  | nil => exact prefix_refl _
  | cons i is ih =>
    rw [scan]
    split
    · exact (prefix_append _ _).trans ih
    · split
      · exact prefix_refl _
      · exact ih

/-- The first item that joins was eligible from the start. -/
theorem scan_first (h : (b.scan done is cur false).2.1 = true) :
    ∃ i ∈ is, b.eligible done cur i = true ∧ cur ++ [i] <+: (b.scan done is cur false).1 := by
  induction is with
  | nil => cases h
  | cons i is ih =>
    rw [scan] at h ⊢
    split at h
    · next he =>
      rw [if_pos he]
      exact ⟨i, mem_cons_self .., he, scan_extends⟩
    · next he =>
      rw [Bool.false_and, if_neg Bool.false_ne_true] at h ⊢
      rw [if_neg he]
      obtain ⟨j, hj, hej, hpre⟩ := ih h
      exact ⟨j, mem_cons_of_mem i hj, hej, hpre⟩

theorem scan_stop (hg : b.greedily = true) :
    (b.scan done is cur did).2.2 = false := by
  induction is generalizing cur did with
  | nil => rfl
  | cons i is ih =>
    rw [scan]
    split
    · exact ih
    · rw [hg, Bool.not_true, Bool.and_false, if_neg Bool.false_ne_true]
      exact ih

/-! ## Batches -/

omit [DecidableEq τ] in
theorem mem_left {D : List α} : i ∈ b.left D ↔ i ∈ b.items ∧ i ∉ D := by
  simp [left]

omit [DecidableEq τ] in
theorem length_left_lt {D D' : List α} (hsub : D ⊆ D') (hi : i ∈ b.items) (hD : i ∉ D)
    (hD' : i ∈ D') : (b.left D').length < (b.left D).length := by
  have hl : b.left D' = (b.left D).filter (· ∉ D') := by
    rw [left, left, filter_filter]
    refine filter_congr fun j _ => ?_
    rw [← Bool.decide_and]
    exact decide_eq_decide.mpr ⟨fun h => ⟨h, fun hj => h (hsub hj)⟩, And.left⟩
  rw [hl]
  exact length_filter_lt_length_iff_exists.mpr ⟨i, mem_left.mpr ⟨hi, hD⟩, by simpa using hD'⟩

theorem collect_grows (n : Nat) : b.Grows done cur (b.collect done n cur) := by
  induction n generalizing cur with
  | zero => exact .refl
  | succ n ih =>
    rw [collect]
    split
    · exact scan_grows (List.Subset.refl _)
    · exact (scan_grows (List.Subset.refl _)).trans ih

/-- Scanning goes on until nothing is eligible. -/
theorem collect_closed (hg : b.greedily = true) (hn : (b.left (done ++ cur)).length < n) :
    ∀ i ∈ b.items, b.eligible done (b.collect done n cur) i = false := by
  induction n generalizing cur with
  | zero => exact absurd hn (Nat.not_lt_zero _)
  | succ n ih =>
    rw [collect, scan_stop hg, Bool.false_or]
    cases hd : (b.scan done b.items cur false).2.1 with
    | false =>
      obtain ⟨-, hc, hall⟩ := scan_idle hd
      rw [Bool.not_false, if_pos rfl, hc]
      exact hall
    | true =>
      rw [Bool.not_true, if_neg Bool.false_ne_true]
      obtain ⟨i, hi, he, hpre⟩ := scan_first hd
      refine ih (Nat.lt_of_lt_of_le (length_left_lt ?_ hi (eligible_iff.mp he).1 ?_)
        (Nat.le_of_lt_succ hn))
      · exact fun j hj => mem_append.mpr ((mem_append.mp hj).imp_right
          fun hj => scan_extends.subset hj)
      · exact mem_append_right _ (hpre.subset (by simp))

theorem batch_grows : b.Grows done [] (b.batch done) := collect_grows _

omit [DecidableEq τ] in
theorem length_left_le (D : List α) : (b.left D).length ≤ b.items.length :=
  length_filter_le _ _

/-- A batch is empty only when nothing is ready. -/
theorem batch_eq_nil (h : b.batch done = []) : ∀ i ∈ b.items, i ∉ done → b.ready done i = false := by
  intro i hi hD
  rw [batch, collect] at h
  have hidle : (b.scan done b.items [] false).2.1 = false := by
    by_contra hd
    rw [Bool.not_eq_false] at hd
    obtain ⟨j, -, -, hpre⟩ := scan_first hd
    have hne : (b.scan done b.items [] false).1 ≠ [] := fun he => by
      rw [he] at hpre
      exact absurd (prefix_nil.mp hpre) (by simp)
    split at h
    · exact hne h
    · have hgrows : b.Grows done (b.scan done b.items [] false).1
          (b.collect done b.items.length (b.scan done b.items [] false).1) := collect_grows _
      have hlen := hgrows.isPrefix.length_le
      rw [h] at hlen
      exact hne (length_eq_zero_iff.mp (Nat.le_zero.mp hlen))
  have := (scan_idle hidle).2.2 i hi
  by_contra hr
  rw [Bool.not_eq_false] at hr
  rw [eligible_nil.mpr ⟨hD, hr⟩] at this
  cases this

theorem scan_head? :
    (b.scan done is [] false).1.head? = is.find? (b.eligible done []) := by
  induction is with
  | nil => rfl
  | cons i is ih =>
    rw [scan, find?_cons]
    cases he : b.eligible done [] i with
    | true =>
      have hprefix : [] ++ [i] <+: (b.scan done is ([] ++ [i]) true).1 := scan_extends
      obtain ⟨post, hpost⟩ := hprefix
      rw [if_pos rfl, ← hpost]
      rfl
    | false => exact ih

/-- A batch starts with the first ready item. -/
theorem batch_head? : (b.batch done).head? = b.items.find? (b.eligible done []) := by
  rw [← scan_head?, batch, collect]
  split
  · rfl
  · next hs =>
    have hd : (b.scan done b.items [] false).2.1 = true := by
      by_contra hd
      rw [Bool.not_eq_true] at hd
      simp [hd] at hs
    obtain ⟨i, -, -, post, hpost⟩ := scan_first hd
    have hgrows : b.Grows done (b.scan done b.items [] false).1
        (b.collect done b.items.length (b.scan done b.items [] false).1) := collect_grows _
    obtain ⟨post', hpost'⟩ := hgrows.isPrefix
    rw [← hpost', ← hpost]
    rfl

/-- What holds of a batch along its growth. -/
theorem Grows.induction {P : List α → Prop} (h : b.Grows done [] cur) (h0 : P [])
    (hs : ∀ cur i, P cur → i ∈ b.items → b.eligible done cur i = true → P (cur ++ [i])) : P cur := by
  induction h with
  | refl => exact h0
  | tail _ hstep ih =>
    obtain ⟨i, hi, he, rfl⟩ := hstep
    exact hs _ i ih hi he

theorem Grows.nodup (h : b.Grows done [] cur) :
    cur.Nodup ∧ ∀ i ∈ cur, i ∈ b.items ∧ i ∉ done := by
  refine h.induction (P := fun cur => cur.Nodup ∧ ∀ i ∈ cur, i ∈ b.items ∧ i ∉ done)
    ⟨.nil, by simp⟩ fun cur i ih hi he => ?_
  have hnot := (eligible_iff.mp he).1
  rw [mem_append, not_or] at hnot
  refine ⟨ih.1.append (nodup_singleton i) fun j hj hji => ?_, fun j hj => ?_⟩
  · rw [mem_singleton.mp hji] at hj
    exact hnot.2 hj
  · rcases mem_append.mp hj with hj | hj
    · exact ih.2 j hj
    · rw [mem_singleton.mp hj]
      exact ⟨hi, hnot.1⟩

/-- All items of a batch have the type of its first one. -/
theorem Grows.type_eq (h : b.Grows done [] cur) : ∀ i ∈ cur, ∀ j ∈ cur, b.type i = b.type j := by
  refine h.induction (P := fun cur => ∀ i ∈ cur, ∀ j ∈ cur, b.type i = b.type j) (by simp)
    fun cur i ih _ he => ?_
  have htype : ∀ j ∈ cur, b.type i = b.type j := by
    cases cur with
    | nil => simp
    | cons k cur =>
      have hk := ((eligible_iff.mp he).2.2 k rfl).2
      exact fun j hj => hk.trans (ih k (mem_cons_self ..) j hj)
  have hmem {j : α} (hj : j ∈ cur ++ [i]) : j ∈ cur ∨ j = i := by simpa using hj
  intro x hx y hy
  rcases hmem hx with hx | hx
  · rcases hmem hy with hy | hy
    · exact ih x hx y hy
    · rw [hy]
      exact (htype x hx).symm
  · rw [hx]
    rcases hmem hy with hy | hy
    · exact htype y hy
    · rw [hy]

theorem Grows.ready (h : b.Grows done [] cur) (hcur : cur = pre ++ i :: post) :
    b.ready (done ++ pre) i = true := by
  revert pre post i
  refine h.induction (P := fun cur => ∀ {i pre post}, cur = pre ++ i :: post →
    b.ready (done ++ pre) i = true) (by simp) fun cur j ih _ he i pre post hcur => ?_
  rcases eq_nil_or_concat post with rfl | ⟨post, k, rfl⟩
  · obtain ⟨rfl, hij⟩ := append_inj' hcur rfl
    obtain rfl : j = i := head_eq_of_cons_eq hij
    exact (eligible_iff.mp he).2.1
  · rw [concat_eq_append, ← cons_append, ← append_assoc] at hcur
    exact ih (append_inj' hcur rfl).1

/-- At the end of a greedy batch nothing of its type is ready. -/
theorem batch_closed (hg : b.greedily = true) (hf : b.fuse = true) {j : α} (hj : j ∈ b.batch done)
    (hi : i ∈ b.items) (hnot : i ∉ done ++ b.batch done) (ht : b.type i = b.type j) :
    b.ready (done ++ b.batch done) i = false := by
  have hclosed : b.eligible done (b.collect done (b.items.length + 1) []) i = false :=
    collect_closed hg (Nat.lt_succ_of_le (length_left_le _)) i hi
  by_contra hr
  rw [Bool.not_eq_false] at hr
  have he : b.eligible done (b.batch done) i = true := by
    refine eligible_iff.mpr ⟨hnot, hr, fun k hk => ⟨hf, ?_⟩⟩
    exact ht.trans (batch_grows.type_eq j hj k (mem_of_mem_head? hk))
  rw [batch] at he
  rw [hclosed] at he
  cases he

theorem mem_batch_of_ready (hm : b.Monotone) (hg : b.greedily = true) (hf : b.fuse = true) {j : α}
    (hj : j ∈ b.batch done) (hi : i ∈ b.items) (hD : i ∉ done) (ht : b.type i = b.type j)
    (hr : b.ready done i = true) : i ∈ b.batch done := by
  by_contra hn
  have hnot : i ∉ done ++ b.batch done := fun h => (mem_append.mp h).elim hD hn
  have := batch_closed hg hf hj hi hnot ht
  rw [hm _ _ i (subset_append_left _ _) hr] at this
  cases this

/-! ## The whole schedule -/

theorem batches_of_nil (h : b.batch done = []) : b.batches n done = [] := by
  cases n with
  | zero => rfl
  | succ n => rw [batches, if_pos h]

theorem batches_of_ne_nil (h : b.batch done ≠ []) :
    b.batches (n + 1) done = b.batch done :: b.batches n (done ++ b.batch done) := by
  rw [batches, if_neg h]

/-- A batch leaves fewer items. -/
theorem length_left_batch_lt (h : b.batch done ≠ []) :
    (b.left (done ++ b.batch done)).length < (b.left done).length := by
  obtain ⟨i, hi⟩ := exists_mem_of_ne_nil _ h
  obtain ⟨hm, hn⟩ := batch_grows.nodup.2 i hi
  exact length_left_lt (subset_append_left _ _) hm hn (mem_append_right _ hi)

/-- The schedule ends when nothing is ready. -/
theorem batches_closed (hn : (b.left done).length < n) :
    ∀ i ∈ b.items, i ∉ done ++ (b.batches n done).flatten →
      b.ready (done ++ (b.batches n done).flatten) i = false := by
  induction n generalizing done with
  | zero => exact absurd hn (Nat.not_lt_zero _)
  | succ n ih =>
    by_cases h : b.batch done = []
    · rw [batches_of_nil h, flatten_nil, append_nil]
      exact batch_eq_nil h
    · rw [batches_of_ne_nil h, flatten_cons, ← append_assoc]
      exact ih (Nat.lt_of_lt_of_le (length_left_batch_lt h) (Nat.le_of_lt_succ hn))

theorem ne_nil_of_mem_batches (h : E ∈ b.batches n done) : E ≠ [] := by
  induction n generalizing done with
  | zero => cases h
  | succ n ih =>
    by_cases he : b.batch done = []
    · rw [batches_of_nil he] at h
      cases h
    · rw [batches_of_ne_nil he] at h
      rcases mem_cons.mp h with rfl | h
      · exact he
      · exact ih h

theorem type_eq_of_mem_batches (h : E ∈ b.batches n done) :
    ∀ i ∈ E, ∀ j ∈ E, b.type i = b.type j := by
  induction n generalizing done with
  | zero => cases h
  | succ n ih =>
    by_cases he : b.batch done = []
    · rw [batches_of_nil he] at h
      cases h
    · rw [batches_of_ne_nil he] at h
      rcases mem_cons.mp h with rfl | h
      · exact batch_grows.type_eq
      · exact ih h

/-- Each item of the schedule is ready after those in front of it. -/
theorem ready_of_batches (h : (b.batches n done).flatten = pre ++ i :: post) :
    b.ready (done ++ pre) i = true := by
  induction n generalizing done pre with
  | zero => simp [batches] at h
  | succ n ih =>
    by_cases he : b.batch done = []
    · rw [batches_of_nil he] at h
      simp at h
    · rw [batches_of_ne_nil he, flatten_cons, append_eq_append_iff] at h
      obtain ⟨c, rfl, hc⟩ | ⟨c, hc, hc'⟩ := h
      · rw [← append_assoc]
        exact ih hc
      · cases c with
        | nil =>
          rw [append_nil] at hc
          rw [← hc, ← append_nil (done ++ _)]
          exact ih hc'.symm
        | cons j c =>
          obtain rfl : i = j := head_eq_of_cons_eq hc'
          exact batch_grows.ready hc

/-- Items in an order in which each is ready after those in front of it are all scheduled. -/
theorem subset_batches (hm : b.Monotone) (hn : (b.left done).length < n) {l : List α}
    (hl : l ⊆ b.items)
    (hready : ∀ pre i post, l = pre ++ i :: post → b.ready (done ++ pre) i = true) :
    l ⊆ done ++ (b.batches n done).flatten := by
  suffices hsuff : ∀ pre post, l = pre ++ post → pre ⊆ done ++ (b.batches n done).flatten from
    hsuff l [] (append_nil l).symm
  intro pre
  induction pre using List.reverseRecOn with
  | nil => simp
  | append_singleton pre i ih =>
    intro post hpre
    rw [append_assoc, singleton_append] at hpre
    have hsub := ih _ hpre
    refine append_subset.mpr ⟨hsub, cons_subset.mpr ⟨?_, nil_subset _⟩⟩
    by_contra hnot
    have := batches_closed hn i (hl (by simp [hpre])) hnot
    rw [hm _ _ i (append_subset.mpr ⟨subset_append_left _ _, hsub⟩)
      (hready pre i post hpre)] at this
    cases this

end

/-! ## Other types -/

section
variable {b : Batching α Bool} {t : α → Bool} {done done' : List α}

/-- Nothing without the new type `true` is ready. -/
def Settled (b : Batching α Bool) (t : α → Bool) (C : List α) : Prop :=
  ∀ i ∈ b.items, i ∉ C → t i = false → b.ready C i = false

/-- The same items with other types. -/
abbrev retype (b : Batching α Bool) (t : α → Bool) : Batching α Bool := { b with type := t }

omit [DecidableEq α] in
theorem Monotone.congr (hm : b.Monotone) (hsame : ∀ i, i ∈ done ↔ i ∈ done') (i : α) :
    b.ready done i = b.ready done' i :=
  Bool.eq_iff_iff.mpr ⟨hm _ _ i fun j hj => (hsame j).mp hj, hm _ _ i fun j hj => (hsame j).mpr hj⟩

/-- A scan only looks at what is eligible next to a part of its result. -/
theorem scan_congr {E is cur : List α} {did : Bool}
    (h : ∀ c, c <+: E → ∀ i ∈ is, (b.retype t).eligible done' c i = b.eligible done c i)
    (hE : (b.scan done is cur did).1 <+: E) :
    (b.retype t).scan done' is cur did = b.scan done is cur did := by
  induction is generalizing cur did with
  | nil => rfl
  | cons i is ih =>
    have hcur := h cur (scan_extends.trans hE) i (mem_cons_self ..)
    have ih' (cur : List α) (did : Bool) :=
      @ih cur did fun c hc j hj => h c hc j (mem_cons_of_mem i hj)
    rw [scan] at hE ⊢
    rw [scan, hcur]
    split
    · next he =>
      rw [if_pos he] at hE
      exact ih' _ _ hE
    · next he =>
      rw [if_neg he] at hE
      split
      · rfl
      · next hs =>
        rw [if_neg hs] at hE
        exact ih' _ _ hE

theorem collect_congr {E cur : List α} {n : Nat}
    (h : ∀ c, c <+: E → ∀ i ∈ b.items, (b.retype t).eligible done' c i = b.eligible done c i)
    (hE : b.collect done n cur <+: E) : (b.retype t).collect done' n cur = b.collect done n cur := by
  induction n generalizing cur with
  | zero => rfl
  | succ n ih =>
    have hpre : (b.scan done b.items cur false).1 <+: b.collect done (n + 1) cur := by
      rw [collect]
      split
      · exact prefix_refl _
      · exact (collect_grows n).isPrefix
    have hscan := scan_congr h (hpre.trans hE)
    rw [collect] at hE ⊢
    rw [collect, hscan]
    split
    · rfl
    · next hs =>
      rw [if_neg hs] at hE
      exact ih hE

/-- Items without the new type that join are settled where the batch starts. -/
theorem Grows.subset_settled {C S : List α} (hm : b.Monotone) (h : b.Grows done [] C)
    (ht : ∀ i ∈ C, t i = false) (hS : b.Settled t S) (hD : done ⊆ S) : C ⊆ S := by
  revert ht
  refine h.induction (P := fun c => (∀ i ∈ c, t i = false) → c ⊆ S) (fun _ => by simp)
    fun c i ih hi he ht => ?_
  have hc := ih fun j hj => ht j (mem_append_left _ hj)
  refine append_subset.mpr ⟨hc, cons_subset.mpr ⟨?_, nil_subset _⟩⟩
  by_contra hn
  have := hS i hi hn (ht i (by simp))
  rw [hm _ _ i (append_subset.mpr ⟨hD, hc⟩) (eligible_iff.mp he).2.1] at this
  cases this

section
variable (hm : b.Monotone) (hg : b.greedily = true) (hf : b.fuse = true)
  (hsub : ∀ i, t i = true → b.type i = true)

include hm hg hf hsub

/-- A batch whose items all keep their type stays the same batch. -/
theorem batch_retype (hsame : ∀ i, i ∈ done ↔ i ∈ done') (hsel : ∀ i ∈ b.batch done, t i = true) :
    (b.retype t).batch done' = b.batch done := by
  refine collect_congr (E := b.batch done) (fun c hc i hi => ?_) (prefix_refl _)
  have hsame' (j : α) : j ∈ done' ++ c ↔ j ∈ done ++ c := by
    rw [mem_append, mem_append, hsame]
  have hready := hm.congr hsame' i
  rw [Bool.eq_iff_iff, eligible_iff, eligible_iff, hsame' i]
  refine and_congr_right fun hnot => ?_
  rw [show (b.retype t).ready (done' ++ c) i = b.ready (done' ++ c) i from rfl, hready]
  refine and_congr_right fun hr => forall_congr' fun k => imp_congr_right fun hk => ?_
  have hkE : k ∈ b.batch done := hc.subset (mem_of_mem_head? hk)
  refine and_congr_right fun _ => ⟨fun ht => ?_, fun ht => ?_⟩
  · rw [hsub i (ht.trans (hsel k hkE)), hsub k (hsel k hkE)]
  · have hiE : i ∈ b.batch done := by
      by_contra hn
      have hnot' : i ∉ done ++ b.batch done := fun h =>
        (mem_append.mp h).elim (fun h => hnot (mem_append_left _ h)) hn
      have hsubset : done ++ c ⊆ done ++ b.batch done := fun j hj =>
        mem_append.mpr ((mem_append.mp hj).imp_right fun hj => hc.subset hj)
      have := batch_closed hg hf hkE hi hnot' ht
      rw [hm _ _ i hsubset hr] at this
      cases this
    exact (hsel i hiE).trans (hsel k hkE).symm

/-- Dropping chosen batches to another type leaves the other ones as they are. -/
theorem batches_retype (n : Nat) (hn : (b.left done).length < n)
    (hconst : ∀ E ∈ b.batches n done, ∀ i ∈ E, ∀ j ∈ E, t i = t j) {n' : Nat}
    (hn' : (b.left done').length < n') :
    ((∀ i, i ∈ done ↔ i ∈ done') → ((b.retype t).batches n' done').filter (fun E => E.all t) =
      (b.batches n done).filter fun E => E.all t) ∧
    (done ⊆ done' → b.Settled t done' → (∀ S, done ⊆ S → b.Settled t S → done' ⊆ S) →
      (∃ k, ∀ i ∈ b.items, i ∉ done → b.type i = k → b.ready done i = false) →
      ((b.retype t).batches n' done').filter (fun E => E.all t) =
        (b.batches n done).filter fun E => E.all t) := by
  induction n generalizing done done' n' with
  | zero => exact absurd hn (Nat.not_lt_zero _)
  | succ n ih =>
    by_cases hE : b.batch done = []
    · have hidle := batch_eq_nil hE
      have hA (h : ∀ i, i ∈ done ↔ i ∈ done') : ((b.retype t).batches n' done').filter
          (fun E => E.all t) = (b.batches (n + 1) done).filter fun E => E.all t := by
        have hE' := batch_retype hm hg hf hsub h (by simp [hE])
        rw [batches_of_nil hE, batches_of_nil (hE'.trans hE)]
      refine ⟨hA, fun hsubset _ hmin _ => hA fun i => ⟨fun hi => hsubset hi, fun hi => ?_⟩⟩
      exact hmin done (List.Subset.refl _) (fun j hj hn _ => hidle j hj hn) hi
    · obtain ⟨n', rfl⟩ := Nat.exists_eq_succ_of_ne_zero (Nat.ne_of_gt (Nat.zero_lt_of_lt hn'))
      have hn₁ : (b.left (done ++ b.batch done)).length < n :=
        Nat.lt_of_lt_of_le (length_left_batch_lt hE) (Nat.le_of_lt_succ hn)
      rw [batches_of_ne_nil hE] at hconst ⊢
      have hconst₁ := fun F hF => hconst F (mem_cons_of_mem _ hF)
      obtain ⟨j, hj⟩ := Option.ne_none_iff_exists'.mp fun h => hE (head?_eq_none_iff.mp h)
      have hjE := mem_of_mem_head? hj
      have hjt : ∀ i ∈ b.batch done, t i = t j := fun i hi =>
        hconst _ (mem_cons_self ..) i hi j hjE
      obtain ⟨hjd, hjr⟩ := eligible_nil.mp (find?_some (batch_head?.symm.trans hj))
      cases htj : t j with
      | true =>
        -- the batch stays
        have hall : ∀ i ∈ b.batch done, t i = true := fun i hi => (hjt i hi).trans htj
        have hA (h : ∀ i, i ∈ done ↔ i ∈ done') : ((b.retype t).batches (n' + 1) done').filter
            (fun E => E.all t) = (b.batch done :: b.batches n (done ++ b.batch done)).filter
              fun E => E.all t := by
          have hE' := batch_retype hm hg hf hsub h hall
          have hne : (b.retype t).batch done' ≠ [] := fun h => hE (hE'.symm.trans h)
          have hn₁' := Nat.lt_of_lt_of_le (length_left_batch_lt hne) (Nat.le_of_lt_succ hn')
          rw [hE'] at hn₁'
          rw [batches_of_ne_nil hne, hE', filter_cons, filter_cons,
            (ih hn₁ hconst₁ hn₁').1 fun i => by rw [mem_append, mem_append, h]]
        refine ⟨hA, fun hsubset _ hmin hlast => hA fun i => ⟨fun hi => hsubset hi, fun hi => ?_⟩⟩
        refine hmin done (List.Subset.refl _) (fun i hi hn hti => ?_) hi
        by_contra hr
        rw [Bool.not_eq_false] at hr
        obtain ⟨k, hk⟩ := hlast
        have hjk : b.type j ≠ k := fun h => by
          have := hk j (batch_grows.nodup.2 j hjE).1 hjd h
          rw [hjr] at this
          cases this
        have hik : b.type i ≠ k := fun h => by
          have := hk i hi hn h
          rw [hr] at this
          cases this
        have hij : b.type i = b.type j := by
          cases hi' : b.type i <;> cases hj' : b.type j <;> simp_all
        have := hall i (mem_batch_of_ready hm hg hf hjE hi hn hij hr)
        rw [hti] at this
        cases this
      | false =>
        -- the batch is dropped
        have hall : ∀ i ∈ b.batch done, t i = false := fun i hi => (hjt i hi).trans htj
        have hdrop : ∀ F : List α, j ∈ F → F.all t = false := fun F hF => by
          rw [all_eq_false]
          exact ⟨j, hF, by simp [htj]⟩
        have hlast₁ : ∃ k, ∀ i ∈ b.items, i ∉ done ++ b.batch done → b.type i = k →
            b.ready (done ++ b.batch done) i = false :=
          ⟨b.type j, fun i hi hn ht => batch_closed hg hf hjE hi hn ht⟩
        rw [filter_cons_of_neg (by simp [hdrop _ hjE])]
        constructor
        · intro h
          have hhead : ((b.retype t).batch done').head? = some j := by
            have he : (b.retype t).eligible done' [] = b.eligible done [] := funext fun i => by
              rw [Bool.eq_iff_iff, eligible_nil, eligible_nil, h, hm.congr h i]
            rw [batch_head?, ← hj, batch_head?, he]
          have hjF := mem_of_mem_head? hhead
          have hne : (b.retype t).batch done' ≠ [] := ne_nil_of_mem hjF
          have hn₁' := Nat.lt_of_lt_of_le (length_left_batch_lt hne) (Nat.le_of_lt_succ hn')
          have hF : ∀ i ∈ (b.retype t).batch done', t i = false := fun i hi =>
            (batch_grows.type_eq i hi j hjF).trans htj
          have hS : b.Settled t (done' ++ (b.retype t).batch done') := fun i hi hn hti =>
            batch_closed (b := b.retype t) hg hf hjF hi hn (hti.trans htj.symm)
          have hD : done ⊆ done' ++ (b.retype t).batch done' := fun i hi =>
            mem_append_left _ ((h i).mp hi)
          rw [batches_of_ne_nil hne, filter_cons_of_neg (by simp [hdrop _ hjF])]
          refine (ih hn₁ hconst₁ hn₁').2 ?_ hS (fun S hSD hSS => ?_) hlast₁
          · exact append_subset.mpr ⟨hD, batch_grows.subset_settled hm hall hS hD⟩
          · have hD' : done' ⊆ S := fun i hi => hSD (mem_append_left _ ((h i).mpr hi))
            exact append_subset.mpr
              ⟨hD', Grows.subset_settled (b := b.retype t) hm batch_grows hF hSS hD'⟩
        · intro hsubset hS hmin _
          refine (ih hn₁ hconst₁ hn').2 ?_ hS (fun S hSD hSS => ?_) hlast₁
          · exact append_subset.mpr ⟨hsubset, batch_grows.subset_settled hm hall hS hsubset⟩
          · exact hmin S (fun i hi => hSD (mem_append_left _ hi)) hSS

end

end

end Batching

/-!
## Batches of items that are ready in their order

A scan that is not greedy breaks off after the first run it finds. When each item is ready as
soon as the items in front of it are done, the batches are the maximal runs of one type.
-/

namespace Batching

variable {α τ : Type*} [DecidableEq α] [DecidableEq τ] {b : Batching α τ}
  {done cur rest : List α} {i j : α}

/-- Each item is ready after those in front of it. -/
def InOrder (b : Batching α τ) : Prop :=
  ∀ (pre : List α) (i : α) (post : List α), b.items = pre ++ i :: post → b.ready pre i = true

theorem not_eligible (h : i ∈ done ++ cur) : b.eligible done cur i = false := by
  by_contra he
  exact (eligible_iff.mp (Bool.not_eq_false _ ▸ he)).1 h

/-- Nothing joins from items that are done. -/
theorem scan_done {is : List α} (h : ∀ i ∈ is, i ∈ done ++ cur) :
    b.scan done (is ++ rest) cur false = b.scan done rest cur false := by
  induction is with
  | nil => rfl
  | cons i is ih =>
    obtain ⟨hi, his⟩ := forall_mem_cons.mp h
    rw [cons_append, scan, not_eligible hi, if_neg Bool.false_ne_true, Bool.false_and,
      if_neg Bool.false_ne_true]
    exact ih his

theorem collect_done {n : Nat} (h : ∀ i ∈ b.items, i ∈ done ++ cur) :
    b.collect done n cur = cur := by
  cases n with
  | zero => rfl
  | succ n =>
    have hscan : b.scan done (b.items ++ []) cur false = b.scan done [] cur false := scan_done h
    rw [append_nil] at hscan
    rw [collect, hscan]
    rfl

section
variable (hnd : b.items.Nodup) (hready : b.InOrder) (hf : b.fuse = true) (hg : b.greedily = false)

include hnd hready hf

theorem eligible_inOrder (hcur : cur.head? = some j) (hitems : b.items = done ++ cur ++ i :: rest) :
    b.eligible done cur i = decide (b.type i = b.type j) := by
  have hnot : i ∉ done ++ cur := fun hi => by
    rw [hitems] at hnd
    exact (nodup_append.mp hnd).2.2 i hi i (mem_cons_self ..) rfl
  rw [Bool.eq_iff_iff, eligible_iff, decide_eq_true_eq]
  refine ⟨fun h => (h.2.2 j hcur).2, fun ht => ⟨hnot, hready _ _ _ hitems, fun k hk => ?_⟩⟩
  rw [hcur, Option.some.injEq] at hk
  exact ⟨hf, hk ▸ ht⟩

include hg

/-- A scan takes the items up to the next one of another type. -/
theorem scan_inOrder (hcur : cur.head? = some j) (hitems : b.items = done ++ cur ++ rest) :
    (b.scan done rest cur true).1 = cur ++ rest.takeWhile (fun i => decide (b.type i = b.type j)) ∧
    (b.scan done rest cur true).2.1 = true ∧
    ((b.scan done rest cur true).2.2 = false →
      rest.dropWhile (fun i => decide (b.type i = b.type j)) = []) := by
  induction rest generalizing cur with
  | nil => exact ⟨(append_nil _).symm, rfl, fun _ => rfl⟩
  | cons i rest ih =>
    rw [scan, eligible_inOrder hnd hready hf hcur hitems, takeWhile_cons, dropWhile_cons]
    by_cases ht : b.type i = b.type j
    · have hcur' : (cur ++ [i]).head? = some j := by rw [head?_append, hcur]; rfl
      have hitems' : b.items = done ++ (cur ++ [i]) ++ rest := by
        rw [hitems, append_cons, append_assoc done cur [i]]
      obtain ⟨h1, h2, h3⟩ := ih hcur' hitems'
      simp only [ht, decide_true, if_true]
      refine ⟨?_, h2, h3⟩
      rw [h1, append_assoc]
      rfl
    · simp only [ht, decide_false, hg]
      exact ⟨(append_nil _).symm, rfl, fun h => absurd h Bool.true_eq_false.mp⟩

/-- The next batch is the next run. -/
theorem batch_inOrder (hitems : b.items = done ++ i :: rest) :
    b.batch done = i :: rest.takeWhile fun j => decide (b.type j = b.type i) := by
  have helig : b.eligible done [] i = true := by
    refine eligible_nil.mpr ⟨fun hi => ?_, hready _ _ _ hitems⟩
    rw [hitems] at hnd
    exact (nodup_append.mp hnd).2.2 i hi i (mem_cons_self ..) rfl
  have hscan : b.scan done b.items [] false = b.scan done rest [i] true := by
    rw [hitems, scan_done fun j hj => by rwa [append_nil], scan, helig, if_pos rfl]
    rfl
  have hitems' : b.items = done ++ [i] ++ rest := by
    rw [hitems, ← append_cons]
  obtain ⟨h1, h2, h3⟩ := @scan_inOrder _ _ _ _ b done [i] rest i hnd hready hf hg rfl hitems'
  rw [batch, collect, hscan, h2, h1, Bool.not_true, Bool.or_false]
  split
  · rfl
  · next hend =>
    -- the run reaches the end of the items
    have hdrop := h3 (Bool.eq_false_iff.mpr hend)
    refine collect_done fun j hj => ?_
    have htake := takeWhile_append_dropWhile
      (p := fun j => decide (b.type j = b.type i)) (l := rest)
    rw [hdrop, append_nil] at htake
    rw [htake, ← append_assoc, ← hitems']
    exact hj

/-- The batches are the maximal runs of one type. -/
theorem batches_inOrder {n : Nat} (hn : rest.length < n) (hitems : b.items = done ++ rest) :
    (b.batches n done).flatten = rest ∧
    (b.batches n done).IsChain fun E F => ∀ i ∈ E, ∀ j ∈ F, b.type i ≠ b.type j := by
  induction n generalizing done rest with
  | zero => exact absurd hn (Nat.not_lt_zero _)
  | succ n ih =>
    cases rest with
    | nil =>
      have hnil : b.batch done = [] := collect_done fun i hi => by
        rwa [hitems, append_nil, ← append_nil done] at hi
      rw [batches_of_nil hnil]
      exact ⟨rfl, .nil⟩
    | cons i is =>
      have hbatch := batch_inOrder hnd hready hf hg hitems
      set run := is.takeWhile fun j => decide (b.type j = b.type i) with hrun
      set after := is.dropWhile fun j => decide (b.type j = b.type i) with hafter
      have hsplit : run ++ after = is := takeWhile_append_dropWhile
      have hne : b.batch done ≠ [] := by
        rw [hbatch]
        exact cons_ne_nil _ _
      have hlen : after.length < n := by
        have := congrArg List.length hsplit
        rw [length_append] at this
        rw [length_cons] at hn
        omega
      have hitems' : b.items = done ++ b.batch done ++ after := by
        rw [hitems, hbatch, append_assoc, cons_append, hsplit]
      obtain ⟨hflat, hchain⟩ := ih hlen hitems'
      rw [batches_of_ne_nil hne, flatten_cons, hflat]
      refine ⟨by rw [hbatch, cons_append, hsplit], hchain.cons fun F hF => ?_⟩
      -- the next batch starts with the first item of another type
      have hF' := mem_of_mem_head? hF
      intro x hx y hy
      have hxi : b.type x = b.type i := by
        refine batch_grows.type_eq x hx i ?_
        rw [hbatch]
        exact mem_cons_self ..
      cases hrest : after with
      | nil =>
        rw [hrest] at hflat
        exact absurd (flatten_eq_nil_iff.mp hflat F hF') (ne_nil_of_mem_batches hF')
      | cons k ks =>
        obtain ⟨G, hG⟩ : ∃ G, b.batches n (done ++ b.batch done) = F :: G := by
          cases hb : b.batches n (done ++ b.batch done) with
          | nil =>
            rw [hb] at hF
            cases hF
          | cons F' G =>
            rw [hb] at hF
            obtain rfl : F' = F := Option.some.inj hF
            exact ⟨G, rfl⟩
        have hk : k ∈ F := by
          rw [hG, flatten_cons, hrest] at hflat
          obtain ⟨z, zs, rfl⟩ := exists_cons_of_ne_nil (ne_nil_of_mem_batches hF')
          rw [cons_append, List.cons.injEq] at hflat
          rw [← hflat.1]
          exact mem_cons_self ..
        have hki : b.type k ≠ b.type i := by
          have := head?_dropWhile_not (p := fun j => decide (b.type j = b.type i)) (l := is)
          rw [← hafter, hrest] at this
          simpa using this
        rw [hxi, type_eq_of_mem_batches hF' y hy k hk]
        exact fun h => hki h.symm

end

end Batching

end LiteRt.Lib
