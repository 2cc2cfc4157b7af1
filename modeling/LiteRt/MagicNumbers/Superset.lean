import LiteRt.Lib.Subsequence
import LiteRt.MagicNumbers.Update

/-!
# Verification against a test signature

A signature is a superset of a test signature if the ops of the test subgraph occur among
its ops in their order. One pass decides this.
-/

namespace LiteRt.MagicNumbers

open LiteRt.Lib

/-- What is read of a subgraph. The ops of a flatbuffer are fewer than 2³¹. -/
structure VerifiedSubgraph (Op : Type) where
  numTensors : Nat
  numInputs : Nat
  numOutputs : Nat
  ops : List Op
  fits : ops.length < 2 ^ 31

variable {Op : Type} (verifyOpSame : Op → Op → Bool)

/-- The index of the test subgraph and the budget as the loop leaves them. -/
def verifyOps (ops1 ops2 : List Op) (i1 i2 : Nat) (maxMismatchesAllowed : Int) :
    Except Failure (Nat × Int) :=
  if _h : i1 < ops1.length ∧ i2 < ops2.length ∧ 0 ≤ maxMismatchesAllowed then
    match ops1[i1]?, ops2[i2]? with
    | some op1, some op2 =>
      if verifyOpSame op1 op2 then verifyOps ops1 ops2 (i1 + 1) (i2 + 1) maxMismatchesAllowed
      else verifyOps ops1 ops2 (i1 + 1) i2 (maxMismatchesAllowed - 1)
    | _, _ => .error .undefined
  else .ok (i2, maxMismatchesAllowed)
termination_by ops1.length - i1

def verifySubgraphSuperset (subgraph1 subgraph2 : VerifiedSubgraph Op) : Except Failure Unit :=
  if ¬subgraph2.numTensors ≤ subgraph1.numTensors then .error .status
  else if subgraph1.numInputs ≠ subgraph2.numInputs then .error .status
  else if subgraph1.numOutputs ≠ subgraph2.numOutputs then .error .status
  else if ¬subgraph2.ops.length ≤ subgraph1.ops.length then .error .status
  else if subgraph2.ops = [] then .error .status
  else do
    let (i2, maxMismatchesAllowed) ← verifyOps verifyOpSame subgraph1.ops subgraph2.ops 0 0
      (narrow 4 (subgraph1.ops.length - subgraph2.ops.length : Nat))
    if i2 = subgraph2.ops.length ∧ 0 ≤ maxMismatchesAllowed then .ok ()
    else .error .status

/-- An op of the test subgraph and one of the subgraph that compare equal. -/
def Same (op2 op1 : Op) : Prop := verifyOpSame op1 op2 = true

variable {verifyOpSame} {ops1 ops2 : List Op} {i1 i2 : Nat}

theorem verifyOps_spec (n : Nat) :
    ∀ {i1 i2 : Nat}, ops1.length - i1 = n → i1 ≤ ops1.length → i2 ≤ ops2.length →
      ∃ j k, verifyOps verifyOpSame ops1 ops2 i1 i2
          ((ops1.length - i1 : Nat) - (ops2.length - i2 : Nat) : Int) = .ok (j, k) ∧
        (j = ops2.length ∧ 0 ≤ k ↔ Embeds (Same verifyOpSame) (ops2.drop i2) (ops1.drop i1)) := by
  induction n with
  | zero =>
    intro i1 i2 hn hi1 hi2
    rw [verifyOps, dif_neg (by omega)]
    refine ⟨_, _, rfl, ?_⟩
    have hnil : ops1.drop i1 = [] := List.drop_eq_nil_of_le (by omega)
    rw [hnil]
    constructor
    · rintro ⟨rfl, -⟩
      rw [List.drop_length]
      exact embeds_nil []
    · intro hemb
      have hlen := hemb.length_le
      rw [List.length_drop, List.length_nil] at hlen
      omega
  | succ n ih =>
    intro i1 i2 hn hi1 hi2
    by_cases hend : i2 = ops2.length
    · rw [verifyOps, dif_neg (by omega), hend, List.drop_length]
      exact ⟨_, _, rfl, ⟨fun _ => embeds_nil _, fun _ => ⟨rfl, by omega⟩⟩⟩
    by_cases hbudget : ops2.length - i2 ≤ ops1.length - i1
    · have hlt1 : i1 < ops1.length := by omega
      have hlt2 : i2 < ops2.length := by omega
      rw [verifyOps, dif_pos ⟨hlt1, hlt2, by omega⟩, List.getElem?_eq_getElem hlt1,
        List.getElem?_eq_getElem hlt2, List.drop_eq_getElem_cons hlt1,
        List.drop_eq_getElem_cons hlt2]
      by_cases hsame : verifyOpSame ops1[i1] ops2[i2] = true
      · have hstep : ((ops1.length - i1 : Nat) - (ops2.length - i2 : Nat) : Int) =
            (ops1.length - (i1 + 1) : Nat) - (ops2.length - (i2 + 1) : Nat) := by omega
        simp only [hsame, if_true, hstep]
        rw [embeds_cons_of_rel (R := Same verifyOpSame) hsame]
        exact ih (by omega) (by omega) (by omega)
      · have hstep : ((ops1.length - i1 : Nat) - (ops2.length - i2 : Nat) : Int) - 1 =
            (ops1.length - (i1 + 1) : Nat) - (ops2.length - i2 : Nat) := by omega
        simp only [hsame, hstep]
        rw [embeds_cons_of_not_rel (R := Same verifyOpSame) hsame, ← List.drop_eq_getElem_cons hlt2]
        exact ih (by omega) (by omega) hi2
    · -- Fewer ops are left than test ops.
      rw [verifyOps, dif_neg (by omega)]
      refine ⟨_, _, rfl, ⟨fun h => absurd h.1 hend, fun hemb => ?_⟩⟩
      have hlen := hemb.length_le
      rw [List.length_drop, List.length_drop] at hlen
      omega

/-- The verification succeeds for the supersequences only, and reads no op that is not there. -/
theorem verifySubgraphSuperset_ok_iff (subgraph1 subgraph2 : VerifiedSubgraph Op)
    (hinputs : subgraph1.numInputs = subgraph2.numInputs)
    (houtputs : subgraph1.numOutputs = subgraph2.numOutputs) (hops : subgraph2.ops ≠ []) :
    (verifySubgraphSuperset verifyOpSame subgraph1 subgraph2 = .ok () ↔
      subgraph2.numTensors ≤ subgraph1.numTensors ∧
        ∃ f : Fin subgraph2.ops.length → Fin subgraph1.ops.length, StrictMono f ∧
          ∀ i, verifyOpSame (subgraph1.ops.get (f i)) (subgraph2.ops.get i) = true) ∧
      verifySubgraphSuperset verifyOpSame subgraph1 subgraph2 ≠ .error .undefined := by
  unfold verifySubgraphSuperset
  by_cases htensors : subgraph2.numTensors ≤ subgraph1.numTensors
  · by_cases hlen : subgraph2.ops.length ≤ subgraph1.ops.length
    · obtain ⟨j, k, hrun, hiff⟩ := @verifyOps_spec _ verifyOpSame subgraph1.ops
        subgraph2.ops _ _ _ rfl (Nat.zero_le _) (Nat.zero_le _)
      have hbudget : narrow 4 (subgraph1.ops.length - subgraph2.ops.length : Nat) =
          ((subgraph1.ops.length - 0 : Nat) - (subgraph2.ops.length - 0 : Nat) : Int) := by
        have hfits : FitsBytes 4 ((subgraph1.ops.length - subgraph2.ops.length : Nat) : Int) := by
          have := subgraph1.fits
          rw [fitsBytes_iff]
          show -(4294967296 / 2 : Int) ≤ _ ∧ _ < (4294967296 + 1) / 2
          omega
        rw [hfits]
        omega
      rw [if_neg (not_not.2 htensors), if_neg (not_not.2 hinputs), if_neg (not_not.2 houtputs),
        if_neg (not_not.2 hlen), if_neg hops, hbudget, hrun]
      rw [List.drop_zero, List.drop_zero] at hiff
      show ((if j = subgraph2.ops.length ∧ 0 ≤ k then _ else _) = _ ↔ _) ∧
        (if j = subgraph2.ops.length ∧ 0 ≤ k then _ else _) ≠ _
      by_cases hsuccess : j = subgraph2.ops.length ∧ 0 ≤ k
      · rw [if_pos hsuccess]
        exact ⟨iff_of_true rfl ⟨htensors, hiff.1 hsuccess⟩, fun h => nomatch h⟩
      · rw [if_neg hsuccess]
        exact ⟨iff_of_false (fun h => nomatch h) fun h => hsuccess (hiff.2 h.2),
          fun h => nomatch h⟩
    · rw [if_neg (not_not.2 htensors), if_neg (not_not.2 hinputs), if_neg (not_not.2 houtputs),
        if_pos hlen]
      refine ⟨iff_of_false (fun h => nomatch h) fun h => hlen ?_, fun h => nomatch h⟩
      exact Embeds.length_le (R := Same verifyOpSame) h.2
  · rw [if_pos htensors]
    exact ⟨iff_of_false (fun h => nomatch h) fun h => htensors h.1, fun h => nomatch h⟩

/-- The test ops are the second and the third op. -/
theorem superset_of_three :
    verifySubgraphSuperset (fun a b : Nat => a == b) ⟨5, 1, 1, [7, 4, 7], by decide⟩
      ⟨4, 1, 1, [4, 7], by decide⟩ = .ok () :=
  (verifySubgraphSuperset_ok_iff ⟨5, 1, 1, [7, 4, 7], by decide⟩ ⟨4, 1, 1, [4, 7], by decide⟩
    rfl rfl (List.cons_ne_nil _ _)).1.2 ⟨by decide, Fin.succ, Fin.strictMono_succ, by decide⟩

end LiteRt.MagicNumbers
