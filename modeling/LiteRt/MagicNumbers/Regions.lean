import LiteRt.MagicNumbers.Numbers

/-!
# The elements of a region

One pass over a region replaces each of its elements and leaves every region apart from it as
it was.
-/

namespace LiteRt.MagicNumbers

open LiteRt.Lib

variable {w : Nat} {r : Region} {c : Contents}

/-- Two regions without a common byte. -/
def Region.Apart : Region → Region → Prop
  | .data b, .data b' => b ≠ b'
  | .appended offset size, .appended offset' size' =>
    offset + size ≤ offset' ∨ offset' + size' ≤ offset
  | .data _, .appended _ _ => True
  | .appended _ _, .data _ => True

theorem Region.Apart.symm {r r' : Region} (h : r.Apart r') : r'.Apart r := by
  cases r with
  | data b =>
    cases r' with
    | data b' => exact Ne.symm h
    | appended offset' size' => trivial
  | appended offset size =>
    cases r' with
    | data b' => trivial
    | appended offset' size' => exact Or.symm h

/-- The region lies in what was loaded. -/
def Contents.InBounds (c : Contents) (r : Region) : Prop :=
  r.start + c.size r ≤ (c.memory r).length

section
variable {c : Contents} {r r' : Region} {pos n : Nat} {bytes : List UInt8} {pos' : Nat}

theorem length_overwrite_of_le {zero : UInt8} {file : List UInt8}
    (h : pos + bytes.length ≤ file.length) :
    (overwrite zero file pos bytes).length = file.length := by
  by_cases hb : bytes = []
  · rw [hb, overwrite_nil]
  · rw [length_overwrite hb]
    omega

theorem length_memory_store (h : r.start + pos + bytes.length ≤ (c.memory r).length)
    (r' : Region) : ((c.store r pos bytes).memory r').length = (c.memory r').length := by
  cases r with
  | data b =>
    cases r' with
    | data b' =>
      show (Function.update c.data b _ b').length = (c.data b').length
      by_cases hb : b' = b
      · subst hb
        have hlen : 0 + pos + bytes.length ≤ (c.data b').length := h
        rw [Function.update_self, length_overwrite_of_le (by omega)]
      · rw [Function.update_of_ne hb]
    | appended offset' size' => rfl
  | appended offset size =>
    cases r' with
    | data b' => rfl
    | appended offset' size' => exact length_overwrite_of_le h

theorem size_store (h : r.start + pos + bytes.length ≤ (c.memory r).length) (r' : Region) :
    (c.store r pos bytes).size r' = c.size r' := by
  cases r' with
  | data b' => exact @length_memory_store _ _ _ _ h (.data b')
  | appended offset' size' => rfl

theorem load_store_self : (c.store r pos bytes).load r pos bytes.length = bytes := by
  cases r with
  | data b =>
    show slice (Function.update c.data b _ b) (0 + pos) bytes.length = bytes
    rw [Function.update_self, Nat.zero_add, slice_overwrite]
  | appended offset size => exact slice_overwrite _ _ _ _

theorem load_store_other (hin : r.start + pos' + n ≤ (c.memory r).length)
    (h : pos' + n ≤ pos ∨ pos + bytes.length ≤ pos') :
    (c.store r pos bytes).load r pos' n = c.load r pos' n := by
  have hslice (file : List UInt8) (start : Nat) (hfile : start + pos' + n ≤ file.length) :
      slice (overwrite 0 file (start + pos) bytes) (start + pos') n =
        slice file (start + pos') n := by
    rcases h with h | h
    · exact slice_overwrite_before (by omega) hfile
    · exact slice_overwrite_after (by omega)
  cases r with
  | data b =>
    have h0 := hslice (c.data b) 0 hin
    rw [Nat.zero_add, Nat.zero_add] at h0
    show slice (Function.update c.data b _ b) (0 + pos') n = slice (c.data b) (0 + pos') n
    rw [Function.update_self, Nat.zero_add, h0]
  | appended offset size => exact hslice c.allocation offset hin

theorem load_store_apart (hapart : r.Apart r') (hin : c.InBounds r')
    (hstore : pos + bytes.length ≤ c.size r) (hload : pos' + n ≤ c.size r') :
    (c.store r pos bytes).load r' pos' n = c.load r' pos' n := by
  cases r with
  | data b =>
    cases r' with
    | data b' =>
      show slice (Function.update c.data b _ b') (0 + pos') n = slice (c.data b') (0 + pos') n
      rw [Function.update_of_ne (Ne.symm hapart)]
    | appended offset' size' => rfl
  | appended offset size =>
    cases r' with
    | data b' => rfl
    | appended offset' size' =>
      have hin' : offset' + size' ≤ c.allocation.length := hin
      have hstore' : pos + bytes.length ≤ size := hstore
      have hload' : pos' + n ≤ size' := hload
      show slice (overwrite 0 c.allocation (offset + pos) bytes) (offset' + pos') n =
        slice c.allocation (offset' + pos') n
      rcases hapart with h | h
      · exact slice_overwrite_after (by omega)
      · exact slice_overwrite_before (by omega) (by omega)

end

/-- An element of a region lies in it, and apart from the others. -/
theorem element_inside {w i size : Nat} (hi : i < size / w) : w * i + w ≤ size := by
  have hmul : w * (i + 1) ≤ w * (size / w) := Nat.mul_le_mul_left w hi
  have hdiv := Nat.mul_div_le size w
  rw [Nat.mul_succ] at hmul
  omega

theorem element_apart {w i j : Nat} (h : i ≠ j) : w * i + w ≤ w * j ∨ w * j + w ≤ w * i := by
  have hmul {a b : Nat} (hab : a < b) : w * a + w ≤ w * b := by
    have := Nat.mul_le_mul_left w hab
    rwa [Nat.mul_succ] at this
  rcases Nat.lt_or_gt_of_ne h with h | h
  · exact .inl (hmul h)
  · exact .inr (hmul h)

/-- Of the elements of a region, those in `done` have been replaced; nothing else has changed. -/
structure Rewritten (f : Int → Int) (r : Region) (w : Nat) (done : List Nat)
    (c c' : Contents) : Prop where
  dimensions : c'.dimensions = c.dimensions
  shape : c'.shape = c.shape
  size : ∀ r', c'.size r' = c.size r'
  length : ∀ r', (c'.memory r').length = (c.memory r').length
  element : ∀ i, i < c.size r / w → c'.element r w i =
    if i ∈ done then f (c.element r w i) else c.element r w i
  apart : ∀ r', r.Apart r' → c.InBounds r' → ∀ pos n, pos + n ≤ c.size r' →
    c'.load r' pos n = c.load r' pos n

section
variable {f : Int → Int} {r : Region} {w : Nat} {done : List Nat} {c c' : Contents} {i : Nat}

theorem Rewritten.refl (f : Int → Int) (r : Region) (w : Nat) (c : Contents) :
    Rewritten f r w [] c c where
  dimensions := rfl
  shape := rfl
  size _ := rfl
  length _ := rfl
  element _ _ := (if_neg List.not_mem_nil).symm
  apart _ _ _ _ _ _ := rfl

theorem Rewritten.inBounds (h : Rewritten f r w done c c') {r' : Region} (hin : c.InBounds r') :
    c'.InBounds r' := by
  unfold Contents.InBounds
  rw [h.size, h.length]
  exact hin

/-- The next element was replaced by itself. -/
theorem Rewritten.keep (h : Rewritten f r w done c c')
    (hf : f (c.element r w i) = c.element r w i) :
    Rewritten f r w (done ++ [i]) c c' where
  dimensions := h.dimensions
  shape := h.shape
  size := h.size
  length := h.length
  element j hj := by
    rw [h.element j hj]
    by_cases hji : j = i
    · subst hji
      rw [hf, ite_self, ite_self]
    · have hiff : j ∈ done ++ [i] ↔ j ∈ done := by
        rw [List.mem_append, List.mem_singleton]
        exact ⟨fun h => h.resolve_right hji, .inl⟩
      simp only [hiff]
  apart := h.apart

/-- The next element was written. -/
theorem Rewritten.store (h : Rewritten f r w done c c') (hin : c.InBounds r) {n : Int}
    (hi : i < c.size r / w) (hn : narrow w n = f (c.element r w i)) :
    Rewritten f r w (done ++ [i]) c (c'.store r (w * i) (signedBytes w n)) := by
  have hlen := length_signedBytes w n
  have hin' := h.inBounds hin
  have hinside := element_inside hi
  unfold Contents.InBounds at hin'
  rw [h.size] at hin'
  have hstore : r.start + w * i + (signedBytes w n).length ≤ (c'.memory r).length := by omega
  refine ⟨h.dimensions ▸ ?_, h.shape ▸ ?_, fun r' => ?_, fun r' => ?_, fun j hj => ?_,
    fun r' hapart hr' pos k hpos => ?_⟩
  · cases r <;> rfl
  · cases r <;> rfl
  · rw [size_store hstore, h.size]
  · rw [length_memory_store hstore, h.length]
  · by_cases hji : j = i
    · subst hji
      have hload := @load_store_self c' r (w * j) (signedBytes w n)
      rw [hlen] at hload
      unfold Contents.element at hn ⊢
      rw [hload, signed_signedBytes, hn, if_pos (by simp)]
    · have hiff : j ∈ done ++ [i] ↔ j ∈ done := by
        rw [List.mem_append, List.mem_singleton]
        exact ⟨fun h => h.resolve_right hji, .inl⟩
      have hjinside := element_inside hj
      have hload := @load_store_other c' r (w * i) w (signedBytes w n) (w * j) (by omega)
        (by rw [hlen]; exact element_apart hji)
      have hsame : (c'.store r (w * i) (signedBytes w n)).element r w j = c'.element r w j := by
        unfold Contents.element
        rw [hload]
      rw [hsame, h.element j hj]
      simp only [hiff]
  · have hsize : w * i + (signedBytes w n).length ≤ c'.size r := by
      rw [h.size]
      omega
    rw [load_store_apart hapart (h.inBounds hr') hsize (by rw [h.size]; exact hpos),
      h.apart r' hapart hr' pos k hpos]

end

/-- A region whose elements of `w` bytes can be replaced. -/
structure Replaceable (config : Config) (c : Contents) (r : Region) (w : Nat) : Prop where
  width : w = 4 ∨ w = 8
  magicFits : FitsBytes w config.magicNumber
  whole : w ∣ c.size r
  inBounds : c.InBounds r
  element : ∀ i, i < c.size r / w → config.Replaceable w (c.element r w i)

theorem updateElement_eq {m t : Int} {i : Nat} {o : Option Int}
    (h : replacement m t (c.element r w i) = .ok o) :
    ∃ n, updateElement w m t r i c =
      .ok n (o.elim c fun x => c.store r (w * i) (signedBytes w x)) := by
  unfold updateElement
  rw [get_bind_eq, h]
  cases o with
  | none => exact ⟨0, rfl⟩
  | some x => exact ⟨1, rfl⟩

/-- One pass over a region. -/
theorem updateMagicNumber_ok {config : Config} (hc : config.Valid) (h : Replaceable config c r w) :
    ∃ n c', updateMagicNumber w config r c = .ok n c' ∧
      Rewritten config.replaced r w (List.range (c.size r / w)) c c' := by
  unfold updateMagicNumber
  rw [get_bind_eq, if_pos ⟨h.whole, h.inBounds⟩]
  refine @tally_ok _ _ _ _ (fun done => Rewritten config.replaced r w done c) _ _
    (Rewritten.refl _ _ _ _) fun pre i post hsplit s hs => ?_
  have hi : i < c.size r / w := List.mem_range.1 (by rw [hsplit]; simp)
  have hnew : i ∉ pre := fun hmem => by
    have hnodup := @List.nodup_range (c.size r / w)
    rw [hsplit] at hnodup
    exact (List.nodup_append.1 hnodup).2.2 i hmem i (List.mem_cons_self ..) rfl
  have helem : s.element r w i = c.element r w i := by rw [hs.element i hi, if_neg hnew]
  obtain ⟨x, hx, hrep⟩ := config.replacement_element hc h.width h.magicFits (h.element i hi)
  rw [← helem] at hrep
  obtain ⟨n, hn⟩ := updateElement_eq hrep
  refine ⟨n, _, hn, ?_⟩
  by_cases ha : Affected config.magicNumber (s.element r w i)
  · rw [if_pos ha]
    exact hs.store h.inBounds hi hx
  · rw [if_neg ha]
    rw [helem] at ha
    exact hs.keep (config.replaced_of_not_affected ha)

end LiteRt.MagicNumbers
