import Mathlib.Data.List.Nodup
import Mathlib.Logic.Function.Basic

/-!
# Links that both ends know

A value has at most one producer and a list of consumers; a node lists its inputs and its
outputs. `Valid` says that the two ends agree and that nothing is listed twice. Each operation
changes both ends.
-/

namespace LiteRt.Lib

open Function List

section
variable {α : Type*} [DecidableEq α] {l : List α} {a b c : α}

theorem mem_replace (h : l.Nodup) (ha : a ∈ l) : c ∈ l.replace a b ↔ c = b ∨ (c ≠ a ∧ c ∈ l) := by
  induction l with
  | nil => cases ha
  | cons d l ih =>
    obtain ⟨hd, hl⟩ := nodup_cons.1 h
    by_cases heq : d = a
    · subst heq
      rw [replace_cons_self]
      simp only [mem_cons]
      constructor
      · rintro (hc | hc)
        · exact .inl hc
        · exact .inr ⟨fun hcd => hd (hcd ▸ hc), .inr hc⟩
      · rintro (hc | ⟨hne, hc | hc⟩)
        · exact .inl hc
        · exact absurd hc hne
        · exact .inr hc
    · have ha' : a ∈ l := (mem_cons.1 ha).resolve_left (Ne.symm heq)
      have hbeq : (a == d) = false := beq_eq_false_iff_ne.2 (Ne.symm heq)
      simp only [replace_cons, hbeq, mem_cons, ih hl ha']
      constructor
      · rintro (rfl | hc | ⟨hne, hc⟩)
        · exact .inr ⟨heq, .inl rfl⟩
        · exact .inl hc
        · exact .inr ⟨hne, .inr hc⟩
      · rintro (hc | ⟨hne, hc | hc⟩)
        · exact .inr (.inl hc)
        · exact .inl hc
        · exact .inr (.inr ⟨hne, hc⟩)

theorem nodup_replace (h : l.Nodup) (hb : b ∉ l) : (l.replace a b).Nodup := by
  induction l with
  | nil => exact h
  | cons d l ih =>
    obtain ⟨hd, hl⟩ := nodup_cons.1 h
    obtain ⟨hbd, hbl⟩ := not_or.1 fun hmem => hb (mem_cons.2 hmem)
    by_cases heq : d = a
    · subst heq
      rw [replace_cons_self]
      exact nodup_cons.2 ⟨hbl, hl⟩
    · have hbeq : (a == d) = false := beq_eq_false_iff_ne.2 (Ne.symm heq)
      simp only [replace_cons, hbeq]
      refine nodup_cons.2 ⟨?_, ih hl hbl⟩
      by_cases ha : a ∈ l
      · rw [mem_replace hl ha]
        rintro (hdb | ⟨_, hmem⟩)
        · exact hbd hdb.symm
        · exact hd hmem
      · rwa [replace_of_not_mem ha]

end

/-- What values know of nodes and nodes of values. -/
@[ext]
structure Links (ν β : Type*) where
  producer : β → Option ν
  consumers : β → List ν
  inputs : ν → List β
  outputs : ν → List β

namespace Links

variable {ν β : Type*} {L : Links ν β} {n m : ν} {v w : β}

structure Valid (L : Links ν β) : Prop where
  outputs : ∀ (n : ν) (v : β), v ∈ L.outputs n ↔ L.producer v = some n
  inputs : ∀ (n : ν) (v : β), v ∈ L.inputs n ↔ n ∈ L.consumers v
  outputs_nodup : ∀ n, (L.outputs n).Nodup
  inputs_nodup : ∀ n, (L.inputs n).Nodup
  consumers_nodup : ∀ v, (L.consumers v).Nodup
  /-- No node reads what it writes. -/
  separate : ∀ (n : ν) (v : β), L.producer v = some n → n ∉ L.consumers v

def empty : Links ν β := ⟨fun _ => none, fun _ => [], fun _ => [], fun _ => []⟩

theorem valid_empty : (empty : Links ν β).Valid where
  outputs n v := by simp [empty]
  inputs n v := by simp [empty]
  outputs_nodup _ := nodup_nil
  inputs_nodup _ := nodup_nil
  consumers_nodup _ := nodup_nil
  separate n v h := by cases h

section
variable [DecidableEq ν] [DecidableEq β]

def removeProducer (L : Links ν β) (v : β) : Links ν β where
  producer := update L.producer v none
  consumers := L.consumers
  inputs := L.inputs
  outputs n := (L.outputs n).erase v

def setProducer (L : Links ν β) (n : ν) (v : β) : Links ν β where
  producer := update L.producer v (some n)
  consumers := L.consumers
  inputs := L.inputs
  outputs m := if m = n then (L.outputs m).erase v ++ [v] else (L.outputs m).erase v

def addConsumer (L : Links ν β) (n : ν) (v : β) : Links ν β where
  producer := L.producer
  consumers := update L.consumers v (L.consumers v ++ [n])
  inputs := update L.inputs n (L.inputs n ++ [v])
  outputs := L.outputs

def removeConsumer (L : Links ν β) (n : ν) (v : β) : Links ν β where
  producer := L.producer
  consumers := update L.consumers v ((L.consumers v).erase n)
  inputs := update L.inputs n ((L.inputs n).erase v)
  outputs := L.outputs

/-- `new` takes the place of `old` among the inputs. -/
def replaceInput (L : Links ν β) (n : ν) (old new : β) : Links ν β where
  producer := L.producer
  consumers w :=
    if w = new then L.consumers w ++ [n]
    else if w = old then (L.consumers w).erase n
    else L.consumers w
  inputs := update L.inputs n ((L.inputs n).replace old new)
  outputs := L.outputs

def deleteNode (L : Links ν β) (n : ν) : Links ν β where
  producer v := if L.producer v = some n then none else L.producer v
  consumers v := (L.consumers v).erase n
  inputs := update L.inputs n []
  outputs := update L.outputs n []

def deleteValue (L : Links ν β) (v : β) : Links ν β where
  producer := update L.producer v none
  consumers := update L.consumers v []
  inputs n := (L.inputs n).erase v
  outputs n := (L.outputs n).erase v

namespace Valid

omit [DecidableEq ν] in
theorem removeProducer (h : L.Valid) (v : β) : (L.removeProducer v).Valid where
  outputs n w := by
    have hout := h.outputs n w
    have herase := (h.outputs_nodup n).mem_erase_iff (a := w) (b := v)
    by_cases hw : w = v
    · subst hw
      simp [Links.removeProducer, herase]
    · simp [Links.removeProducer, herase, hw, hout]
  inputs := h.inputs
  outputs_nodup n := (h.outputs_nodup n).erase v
  inputs_nodup := h.inputs_nodup
  consumers_nodup := h.consumers_nodup
  separate n w hw := by
    by_cases hv : w = v
    · simp [Links.removeProducer, hv] at hw
    · refine h.separate n w ?_
      simpa [Links.removeProducer, hv] using hw

theorem setProducer (h : L.Valid) (hn : n ∉ L.consumers v) : (L.setProducer n v).Valid where
  outputs m w := by
    have hout := h.outputs m w
    have herase := (h.outputs_nodup m).mem_erase_iff (a := w) (b := v)
    by_cases hw : w = v <;> by_cases hm : m = n
    · simp [Links.setProducer, hw, hm]
    · subst hw
      simp [Links.setProducer, herase, hm, Ne.symm hm]
    · simp [Links.setProducer, hw, ← hm, herase, hout]
    · simp [Links.setProducer, herase, hw, hm, hout]
  inputs := h.inputs
  outputs_nodup m := by
    have hnodup := (h.outputs_nodup m).erase v
    have hv : v ∉ (L.outputs m).erase v := (h.outputs_nodup m).not_mem_erase
    simp only [Links.setProducer]
    split
    · exact nodup_append'.2 ⟨hnodup, nodup_singleton v, by simpa using hv⟩
    · exact hnodup
  inputs_nodup := h.inputs_nodup
  consumers_nodup := h.consumers_nodup
  separate m w hw := by
    by_cases hv : w = v
    · subst hv
      simp only [Links.setProducer, update_self, Option.some.injEq] at hw
      rwa [← hw]
    · refine h.separate m w ?_
      simpa [Links.setProducer, hv] using hw

theorem addConsumer (h : L.Valid) (hn : n ∉ L.consumers v) (hp : L.producer v ≠ some n) :
    (L.addConsumer n v).Valid where
  outputs := h.outputs
  inputs m w := by
    have hin := h.inputs m w
    by_cases hw : w = v <;> by_cases hm : m = n <;>
      simp [Links.addConsumer, hw, hm] <;> simp_all
  outputs_nodup := h.outputs_nodup
  inputs_nodup m := by
    have hv : v ∉ L.inputs n := fun hmem => hn ((h.inputs n v).1 hmem)
    by_cases hm : m = n
    · subst hm
      simp only [Links.addConsumer, update_self]
      exact nodup_append'.2 ⟨h.inputs_nodup m, nodup_singleton v, by simpa using hv⟩
    · simpa [Links.addConsumer, hm] using h.inputs_nodup m
  consumers_nodup w := by
    by_cases hw : w = v
    · subst hw
      simp only [Links.addConsumer, update_self]
      exact nodup_append'.2 ⟨h.consumers_nodup w, nodup_singleton n, by simpa using hn⟩
    · simpa [Links.addConsumer, hw] using h.consumers_nodup w
  separate m w hw := by
    have hsep := h.separate m w hw
    by_cases hv : w = v
    · subst hv
      have hne : m ≠ n := by
        rintro rfl
        exact hp hw
      simp [Links.addConsumer, hsep, hne]
    · simpa [Links.addConsumer, hv] using hsep

theorem removeConsumer (h : L.Valid) (n : ν) (v : β) : (L.removeConsumer n v).Valid where
  outputs := h.outputs
  inputs m w := by
    have hin := h.inputs m w
    have hnode := (h.inputs_nodup m).mem_erase_iff (a := w) (b := v)
    have hvalue := (h.consumers_nodup w).mem_erase_iff (a := m) (b := n)
    by_cases hw : w = v <;> by_cases hm : m = n
    · subst hw hm
      simp [Links.removeConsumer, hnode, hvalue]
    · subst hw
      simp [Links.removeConsumer, hvalue, hm, hin]
    · subst hm
      simp [Links.removeConsumer, hnode, hw, hin]
    · simp [Links.removeConsumer, hw, hm, hin]
  outputs_nodup := h.outputs_nodup
  inputs_nodup m := by
    by_cases hm : m = n
    · subst hm
      simpa [Links.removeConsumer] using (h.inputs_nodup m).erase v
    · simpa [Links.removeConsumer, hm] using h.inputs_nodup m
  consumers_nodup w := by
    by_cases hw : w = v
    · subst hw
      simpa [Links.removeConsumer] using (h.consumers_nodup w).erase n
    · simpa [Links.removeConsumer, hw] using h.consumers_nodup w
  separate m w hw := by
    have hsep := h.separate m w hw
    by_cases hv : w = v
    · subst hv
      simpa [Links.removeConsumer] using fun hmem => hsep (mem_of_mem_erase hmem)
    · simpa [Links.removeConsumer, hv] using hsep

theorem replaceInput {old new : β} (h : L.Valid) (hold : old ∈ L.inputs n)
    (hnew : new ∉ L.inputs n) (hp : L.producer new ≠ some n) :
    (L.replaceInput n old new).Valid where
  outputs := h.outputs
  inputs m w := by
    have hin := h.inputs m w
    have hvalue := (h.consumers_nodup w).mem_erase_iff (a := m) (b := n)
    have hne : old ≠ new := fun heq => hnew (heq ▸ hold)
    by_cases hm : m = n
    · subst hm
      simp only [Links.replaceInput, update_self, mem_replace (h.inputs_nodup m) hold]
      by_cases hw : w = new
      · simp [hw]
      · by_cases hw' : w = old
        · subst hw'
          simp [hw, hvalue]
        · simp [hw, hw', hin]
    · by_cases hw : w = new
      · subst hw
        simp [Links.replaceInput, hm, hin]
      · by_cases hw' : w = old
        · subst hw'
          simp [Links.replaceInput, hw, hm, hvalue, hin]
        · simp [Links.replaceInput, hw, hw', hm, hin]
  outputs_nodup := h.outputs_nodup
  inputs_nodup m := by
    by_cases hm : m = n
    · subst hm
      simpa [Links.replaceInput] using nodup_replace (h.inputs_nodup m) hnew
    · simpa [Links.replaceInput, hm] using h.inputs_nodup m
  consumers_nodup w := by
    have hn : n ∉ L.consumers new := fun hmem => hnew ((h.inputs n new).2 hmem)
    by_cases hw : w = new
    · subst hw
      simp only [Links.replaceInput, if_true]
      exact nodup_append'.2 ⟨h.consumers_nodup w, nodup_singleton n, by simpa using hn⟩
    · by_cases hw' : w = old
      · subst hw'
        simpa [Links.replaceInput, hw] using (h.consumers_nodup w).erase n
      · simpa [Links.replaceInput, hw, hw'] using h.consumers_nodup w
  separate m w hw := by
    have hsep := h.separate m w hw
    by_cases hnew' : w = new
    · subst hnew'
      have hne : m ≠ n := by
        rintro rfl
        exact hp hw
      simp [Links.replaceInput, hsep, hne]
    · by_cases hold' : w = old
      · subst hold'
        simpa [Links.replaceInput, hnew'] using fun hmem => hsep (mem_of_mem_erase hmem)
      · simpa [Links.replaceInput, hnew', hold'] using hsep

omit [DecidableEq β] in
theorem deleteNode (h : L.Valid) (n : ν) : (L.deleteNode n).Valid where
  outputs m w := by
    have hout := h.outputs m w
    by_cases hm : m = n
    · subst hm
      simp [Links.deleteNode]
    · by_cases hp : L.producer w = some n
      · simp [Links.deleteNode, hm, hout, hp, Ne.symm hm]
      · simp [Links.deleteNode, hm, hout, hp]
  inputs m w := by
    have hin := h.inputs m w
    have hvalue := (h.consumers_nodup w).mem_erase_iff (a := m) (b := n)
    by_cases hm : m = n
    · subst hm
      simp [Links.deleteNode, hvalue]
    · simp [Links.deleteNode, hm, hin, hvalue]
  outputs_nodup m := by
    by_cases hm : m = n
    · subst hm
      simp [Links.deleteNode]
    · simpa [Links.deleteNode, hm] using h.outputs_nodup m
  inputs_nodup m := by
    by_cases hm : m = n
    · subst hm
      simp [Links.deleteNode]
    · simpa [Links.deleteNode, hm] using h.inputs_nodup m
  consumers_nodup w := (h.consumers_nodup w).erase n
  separate m w hw := by
    by_cases hp : L.producer w = some n
    · simp [Links.deleteNode, hp] at hw
    · have hsep := h.separate m w (by simpa [Links.deleteNode, hp] using hw)
      exact fun hmem => hsep (mem_of_mem_erase hmem)

omit [DecidableEq ν] in
theorem deleteValue (h : L.Valid) (v : β) : (L.deleteValue v).Valid where
  outputs m w := by
    have hout := h.outputs m w
    have herase := (h.outputs_nodup m).mem_erase_iff (a := w) (b := v)
    by_cases hw : w = v
    · subst hw
      simp [Links.deleteValue, herase]
    · simp [Links.deleteValue, herase, hw, hout]
  inputs m w := by
    have hin := h.inputs m w
    have herase := (h.inputs_nodup m).mem_erase_iff (a := w) (b := v)
    by_cases hw : w = v
    · subst hw
      simp [Links.deleteValue, herase]
    · simp [Links.deleteValue, herase, hw, hin]
  outputs_nodup m := (h.outputs_nodup m).erase v
  inputs_nodup m := (h.inputs_nodup m).erase v
  consumers_nodup w := by
    by_cases hw : w = v
    · subst hw
      simp [Links.deleteValue]
    · simpa [Links.deleteValue, hw] using h.consumers_nodup w
  separate m w hw := by
    by_cases hv : w = v
    · simp [Links.deleteValue, hv] at hw
    · have hsep := h.separate m w (by simpa [Links.deleteValue, hv] using hw)
      simpa [Links.deleteValue, hv] using hsep

end Valid

end

end Links

end LiteRt.Lib
