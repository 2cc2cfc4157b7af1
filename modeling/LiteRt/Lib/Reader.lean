import Mathlib.Data.List.Basic

/-!
# Readers of a sized buffer

A reader is handed a pointer into a buffer and the number of cells it may still read, and
moves both. Looking at the cell under a pointer that has left the buffer is an overrun; a
reader that gives up instead calls its input malformed.
-/

namespace LiteRt.Lib

/-- A pointer into a buffer, as the cells from it on, and the size still to be read. -/
structure Cursor (β : Type) where
  data : List β
  size : Nat
  deriving DecidableEq, Repr

/-- Why a reader stopped. -/
inductive Halt where
  | malformed
  | overrun
  deriving DecidableEq, Repr

abbrev Reader (β α : Type) := StateT (Cursor β) (Except Halt) α

/-- The cursor at the start of a buffer of just the given size. -/
def Cursor.whole {β : Type} (cells : List β) : Cursor β := ⟨cells, cells.length⟩

variable {α β γ : Type}

namespace Reader

def malformed : Reader β α := fun _ => .error .malformed

/-- Gives up unless the whole buffer has been read. -/
def endOfData : Reader β Unit :=
  fun cursor => if cursor.size = 0 then .ok ((), cursor) else .error .malformed

/-- Reads `count` values one after the other. -/
def times (p : Reader β α) : Nat → Reader β (List α)
  | 0 => pure []
  | count + 1 => do
    let value ← p
    let values ← times p count
    return value :: values

/-! ## Reading what was written -/

/-- `p` reads `a` off the cells `xs`, whatever follows them. -/
def Parses (p : Reader β α) (xs : List β) (a : α) : Prop :=
  ∀ rest, p (Cursor.whole (xs ++ rest)) = .ok (a, Cursor.whole rest)

theorem parses_pure (a : α) : Parses (pure a : Reader β α) [] a :=
  fun _ => rfl

theorem Parses.bind {p : Reader β α} {f : α → Reader β γ} {xs ys : List β} {a : α} {b : γ}
    (hp : Parses p xs a) (hf : Parses (f a) ys b) : Parses (p >>= f) (xs ++ ys) b := by
  intro rest
  have h := hp (ys ++ rest)
  rw [← List.append_assoc] at h
  show (p (Cursor.whole (xs ++ ys ++ rest)) >>= fun r => f r.1 r.2) = _
  rw [h]
  exact hf rest

theorem Parses.map {p : Reader β α} {xs : List β} {a : α} (hp : Parses p xs a) (f : α → γ) :
    Parses (p >>= fun a => pure (f a)) xs (f a) := by
  have h : Parses (p >>= fun a => pure (f a)) (xs ++ []) (f a) := hp.bind (parses_pure (f a))
  rwa [List.append_nil] at h

theorem Parses.endOfData {p : Reader β α} {xs : List β} {a : α} (hp : Parses p xs a) :
    (do let a ← p; endOfData; return a : Reader β α) (Cursor.whole xs)
      = .ok (a, Cursor.whole []) := by
  have h := hp []
  rw [List.append_nil] at h
  show (p (Cursor.whole xs) >>= fun r => (Reader.endOfData r.2 >>= fun r' => pure (r.1, r'.2))) = _
  rw [h]
  rfl

theorem Parses.times {p : Reader β α} {f : α → List β} :
    ∀ {as : List α}, (∀ a ∈ as, Parses p (f a) a) →
      Parses (Reader.times p as.length) (as.flatMap f) as
  | [], _ => parses_pure []
  | a :: as, h => by
    have hhead := h a List.mem_cons_self
    have htail : Parses (Reader.times p as.length) (as.flatMap f) as :=
      Parses.times fun b hb => h b (List.mem_cons_of_mem a hb)
    exact hhead.bind (htail.map (a :: ·))

/-! ## Staying in the buffer -/

/-- A reader that stays in a buffer of the given size, and whose values satisfy `Q`. -/
def Safe (p : Reader β α) (Q : α → Prop) : Prop :=
  ∀ xs, p (Cursor.whole xs) ≠ .error .overrun ∧
    ∀ a c, p (Cursor.whole xs) = .ok (a, c) → Q a ∧ ∃ ys, ys <:+ xs ∧ c = Cursor.whole ys

theorem safe_pure {Q : α → Prop} {a : α} (h : Q a) : Safe (pure a : Reader β α) Q := by
  intro xs
  constructor
  · intro hover
    cases hover
  · intro b c hb
    cases hb
    exact ⟨h, xs, List.suffix_refl xs, rfl⟩

theorem safe_malformed {Q : α → Prop} : Safe (malformed : Reader β α) Q := by
  intro xs
  constructor
  · intro hover
    cases hover
  · intro b c hb
    cases hb

theorem Safe.bind {p : Reader β α} {f : α → Reader β γ} {Q : α → Prop} {R : γ → Prop}
    (hp : Safe p Q) (hf : ∀ a, Q a → Safe (f a) R) : Safe (p >>= f) R := by
  intro xs
  show (p (Cursor.whole xs) >>= fun r => f r.1 r.2) ≠ _ ∧
    ∀ b c, (p (Cursor.whole xs) >>= fun r => f r.1 r.2) = .ok (b, c) → _
  obtain ⟨hover, hok⟩ := hp xs
  cases h : p (Cursor.whole xs) with
  | error e =>
    constructor
    · intro he
      exact hover (h.trans (congrArg Except.error (Except.error.inj he)))
    · intro b c hb
      cases hb
  | ok r =>
    obtain ⟨hq, ys, hys, hc⟩ := hok r.1 r.2 h
    obtain ⟨hover', hok'⟩ := hf r.1 hq ys
    rw [← hc] at hover' hok'
    refine ⟨hover', fun b c hb => ?_⟩
    obtain ⟨hr, zs, hzs, hc'⟩ := hok' b c hb
    exact ⟨hr, zs, hzs.trans hys, hc'⟩

theorem Safe.mono {p : Reader β α} {Q R : α → Prop} (hp : Safe p Q) (h : ∀ a, Q a → R a) :
    Safe p R := by
  intro xs
  refine ⟨(hp xs).1, fun a c hc => ?_⟩
  obtain ⟨hq, hys⟩ := (hp xs).2 a c hc
  exact ⟨h a hq, hys⟩

/-- A loop that reads a known number of values stops at the first one that is missing. -/
theorem Safe.times {p : Reader β α} {Q : α → Prop} (hp : Safe p Q) :
    ∀ count, Safe (Reader.times p count) fun as => as.length = count ∧ ∀ a ∈ as, Q a
  | 0 => safe_pure ⟨rfl, fun _ h => by cases h⟩
  | count + 1 => by
    refine hp.bind fun a ha => (Safe.times hp count).bind fun as has => safe_pure ?_
    refine ⟨by simp [has.1], fun b hb => ?_⟩
    rcases List.mem_cons.1 hb with rfl | hb
    · exact ha
    · exact has.2 b hb

theorem safe_endOfData : Safe (endOfData : Reader β Unit) fun _ => True := by
  intro xs
  cases xs with
  | nil => exact @safe_pure Unit β (fun _ => True) () trivial []
  | cons x xs => exact safe_malformed (x :: xs)

/-! ## Reading everything -/

/-- A reader that succeeds on the whole of its input only. -/
def Exhausts (p : Reader β α) : Prop :=
  ∀ c a c', p c = .ok (a, c') → c'.size = 0

theorem exhausts_malformed : Exhausts (malformed : Reader β α) := by
  intro c a c' h
  cases h

theorem Exhausts.bind {p : Reader β α} {f : α → Reader β γ} (hf : ∀ a, Exhausts (f a)) :
    Exhausts (p >>= f) := by
  intro c b c' h
  replace h : (p c >>= fun r => f r.1 r.2) = .ok (b, c') := h
  cases hp : p c with
  | error e =>
    rw [hp] at h
    cases h
  | ok r =>
    rw [hp] at h
    exact hf r.1 r.2 b c' h

theorem exhausts_endOfData (a : α) :
    Exhausts (do endOfData; return a : Reader β α) := by
  intro c b c' h
  replace h : (endOfData c >>= fun r => pure (a, r.2)) = .ok (b, c') := h
  unfold endOfData at h
  split at h
  · rename_i hsize
    cases h
    exact hsize
  · cases h

end Reader

end LiteRt.Lib
