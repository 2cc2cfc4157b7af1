import LiteRt.Lib.Loops
import Mathlib.Data.List.GetD

/-!
# Stores into an array

Loops copy ranges between arrays with pointers that move on. What they do is a list of stores.
A store outside the array, or a read outside the source, is none.
-/

namespace LiteRt.Lib

open List

structure Store (α : Type) where
  position : Nat
  value : α
  deriving DecidableEq, Repr

variable {α β σ : Type}

def storeAll : List (Store α) → List α → Option (List α)
  | [], out => some out
  | s :: stores, out =>
    if s.position < out.length then storeAll stores (out.set s.position s.value) else none

def memcpy (input : List α) (src dest n : Nat) : Option (List (Store α)) :=
  (List.range n).mapM fun k => (input[src + k]?).map (Store.mk (dest + k))

def memset (value : α) (dest n : Nat) : List (Store α) :=
  (List.range n).map fun k => ⟨dest + k, value⟩

/-- The rounds of a loop from `i` on, each of which moves the state on. -/
def loopFrom (body : Nat → σ → Option (List β × σ)) : Nat → Nat → σ → Option (List β × σ)
  | 0, _, s => some ([], s)
  | n + 1, i, s => do
    let (first, s) ← body i s
    let (rest, s) ← loopFrom body n (i + 1) s
    some (first ++ rest, s)

/-- A loop whose rounds share no state. -/
def forEach (body : Nat → Option (List β)) (n : Nat) : Option (List β) := do
  let rounds ← (List.range n).mapM body
  some rounds.flatten

theorem memcpy_eq {input : List α} {src n : Nat} (h : src + n ≤ input.length) (zero : α)
    (dest : Nat) : memcpy input src dest n =
      some ((List.range n).map fun k => ⟨dest + k, input.getD (src + k) zero⟩) := by
  refine mapM_eq_some_map.2 fun k hk => ?_
  have hlt : src + k < input.length := by
    have := mem_range.1 hk
    omega
  rw [getElem?_eq_getElem hlt, getD_eq_getElem _ _ hlt]
  rfl

theorem forEach_eq {body : Nat → Option (List β)} {f : Nat → List β} {n : Nat}
    (h : ∀ i < n, body i = some (f i)) : forEach body n = some ((List.range n).flatMap f) := by
  unfold forEach
  rw [mapM_eq_some_map.2 fun i hi => h i (mem_range.1 hi)]
  rfl

theorem loopFrom_eq {body : Nat → σ → Option (List β × σ)} {f : Nat → List β} {g : Nat → σ}
    (n i : Nat) (h : ∀ j, i ≤ j → j < i + n → body j (g j) = some (f j, g (j + 1))) :
    loopFrom body n i (g i) = some ((List.range' i n).flatMap f, g (i + n)) := by
  induction n generalizing i with
  | zero => rfl
  | succ n ih =>
    have hrest := ih (i + 1) fun j hj hlt => h j (by omega) (by omega)
    have hend : i + 1 + n = i + (n + 1) := by omega
    rw [hend] at hrest
    rw [loopFrom, h i (Nat.le_refl _) (by omega), range'_succ, flatMap_cons]
    show (loopFrom body n (i + 1) (g (i + 1)) >>= _) = _
    rw [hrest]
    rfl

theorem loopFrom_zero_eq {body : Nat → σ → Option (List β × σ)} {f : Nat → List β}
    {g : Nat → σ} {n : Nat} {s : σ} (hs : s = g 0)
    (h : ∀ j < n, body j (g j) = some (f j, g (j + 1))) :
    loopFrom body n 0 s = some ((List.range n).flatMap f, g n) := by
  have hrun := loopFrom_eq n 0 fun j _ hlt => h j (by omega)
  rw [Nat.zero_add, ← range_eq_range'] at hrun
  rw [hs, hrun]

/-- The order of stores does not matter if each position has one value, nor what was there
before if every position is stored. -/
theorem storeAll_eq {stores : List (Store α)} {out : List α} {f : Nat → α}
    (hvalue : ∀ s ∈ stores, s.position < out.length ∧ s.value = f s.position)
    (hcover : ∀ q < out.length, q ∈ stores.map Store.position ∨ out[q]? = some (f q)) :
    storeAll stores out = some ((List.range out.length).map f) := by
  induction stores generalizing out with
  | nil =>
    rw [storeAll]
    refine congrArg some (ext_getElem? fun q => ?_)
    by_cases hq : q < out.length
    · have hmem := (hcover q hq).resolve_left not_mem_nil
      rw [hmem, getElem?_map, getElem?_range hq]
      rfl
    · rw [getElem?_eq_none (by omega), getElem?_eq_none (by simpa using hq)]
  | cons s stores ih =>
    obtain ⟨⟨hlt, hs⟩, hrest⟩ := forall_mem_cons.1 hvalue
    have hlen : (out.set s.position s.value).length = out.length := length_set
    rw [storeAll, if_pos hlt, ← hlen]
    refine ih (fun t ht => ?_) fun q hq => ?_
    · rw [hlen]
      exact hrest t ht
    · rw [hlen] at hq
      by_cases hsame : s.position = q
      · right
        rw [← hsame, getElem?_set_self hlt, hs]
      · rw [getElem?_set_ne hsame]
        refine (hcover q hq).imp_left fun hmem => ?_
        rw [map_cons, mem_cons] at hmem
        exact hmem.resolve_left fun h => hsame h.symm

end LiteRt.Lib
