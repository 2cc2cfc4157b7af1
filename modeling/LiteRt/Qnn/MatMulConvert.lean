import LiteRt.Qnn.Transform

/-!
# Fusing a convert op into a matmul op

The matmul op takes over the outputs of the convert op, which is erased if the validator accepts
that. In the prefill pattern another matmul op is between them.
-/

namespace LiteRt.Qnn

open LiteRt.Lib G2G

/-- `convert` and `rollback` are the ops that are named with the first matmul op when outputs are
swapped and swapped back. -/
def fuseMatMulConvert (convert rollback : Nat) (validate : Nat → OpWrapper → Bool) :
    CustomTransform := fun startIndex _ => do
  let g ← get
  let matMul ← orUndefined g.ops[startIndex]?
  let convertOp ← orUndefined g.ops[startIndex + convert]?
  let output ← getOutputTensor matMul 0
  let input ← getInputTensor convertOp 0
  if output ≠ input then
    pure 1
  else
    let swapped := swapOutputs g.ops startIndex (startIndex + convert)
    let fused ← orUndefined swapped[startIndex]?
    let valid ← validateOpConfig validate fused
    if valid then
      modify fun g => { g with ops := swapped.eraseIdx (startIndex + convert) }
    else
      modify fun g => { g with ops := swapOutputs swapped startIndex (startIndex + rollback) }
    pure 1

def fuseMatMulConvertDecode (validate : Nat → OpWrapper → Bool) : CustomTransform :=
  fuseMatMulConvert 1 1 validate

def fuseMatMulConvertPrefill (validate : Nat → OpWrapper → Bool) : CustomTransform :=
  fuseMatMulConvert 2 1 validate

def matMulConvertDecode : List QnnOpCode := [.matMul, .convert]

def matMulConvertPrefill : List QnnOpCode := [.matMul, .matMul, .convert]

section
variable {validate : Nat → OpWrapper → Bool} {pre post : List OpWrapper} {g : Graph}
  {old : List OpWrapper} {i j : Nat} {a b : OpWrapper}

theorem swapOutputs_append (hi : old[i]? = some a) (hj : old[j]? = some b) :
    swapOutputs (pre ++ old ++ post) (pre.length + i) (pre.length + j) =
      pre ++ swapOutputs old i j ++ post := by
  have hilt := (List.getElem?_eq_some_iff.1 hi).1
  have hjlt := (List.getElem?_eq_some_iff.1 hj).1
  unfold swapOutputs
  rw [getElem?_old hilt, getElem?_old hjlt, hi, hj]
  simp only [List.append_assoc]
  rw [List.set_append_right _ _ (Nat.le_add_right _ _), List.set_append_right _ _
    (Nat.le_add_right _ _), Nat.add_sub_cancel_left, Nat.add_sub_cancel_left,
    List.set_append_left _ _ hilt, List.set_append_left _ _ (by rw [List.length_set]; exact hjlt)]

theorem length_swapOutputs (ops : List OpWrapper) (i j : Nat) :
    (swapOutputs ops i j).length = ops.length := by
  unfold swapOutputs
  split
  · rw [List.length_set, List.length_set]
  · rfl

theorem getElem?_swapOutputs (hi : old[i]? = some a) (hj : old[j]? = some b) (hij : i ≠ j) :
    (swapOutputs old i j)[i]? = some { a with outputs := b.outputs } := by
  have hilt := (List.getElem?_eq_some_iff.1 hi).1
  unfold swapOutputs
  rw [hi, hj]
  simp only []
  rw [List.getElem?_set_ne (Ne.symm hij), List.getElem?_set_self hilt]

theorem eraseIdx_old {i : Nat} (hi : i < old.length) :
    (pre ++ old ++ post).eraseIdx (pre.length + i) = pre ++ old.eraseIdx i ++ post := by
  rw [List.append_assoc, List.eraseIdx_append_of_length_le (Nat.le_add_right _ _),
    Nat.add_sub_cancel_left, List.eraseIdx_append_of_lt_length hi, List.append_assoc]

/-- What a fusion does to the ops that were matched. -/
theorem fuseMatMulConvert_eq {convert rollback k : Nat} {matMul convertOp other : OpWrapper}
    {output input : Nat} (hops : g.ops = pre ++ old ++ post) (hm : old[0]? = some matMul)
    (hc : old[convert]? = some convertOp) (hr : old[rollback]? = some other)
    (hout : matMul.outputs[0]? = some output) (hin : convertOp.inputs[0]? = some input)
    (hpos : 0 < convert) :
    fuseMatMulConvert convert rollback validate pre.length k g = .ok 1
      (if output ≠ input then g else
        if validate g.calls { matMul with outputs := convertOp.outputs } then
          { g with
            ops := pre ++ (swapOutputs old 0 convert).eraseIdx convert ++ post
            calls := g.calls + 1 }
        else
          { g with
            ops := pre ++ swapOutputs (swapOutputs old 0 convert) 0 rollback ++ post
            calls := g.calls + 1 }) := by
  have hmlt := (List.getElem?_eq_some_iff.1 hm).1
  have hclt := (List.getElem?_eq_some_iff.1 hc).1
  have hrlt := (List.getElem?_eq_some_iff.1 hr).1
  have hget0 : g.ops[pre.length]? = some matMul := by
    rw [hops, ← hm]
    exact getElem?_old hmlt
  have hgetc : g.ops[pre.length + convert]? = some convertOp := by
    rw [hops, getElem?_old hclt, hc]
  have hswap : swapOutputs g.ops pre.length (pre.length + convert) =
      pre ++ swapOutputs old 0 convert ++ post := by
    rw [hops]
    exact swapOutputs_append hm hc
  have hfused := getElem?_swapOutputs hm hc (Nat.ne_of_lt hpos)
  have hlen := length_swapOutputs old 0 convert
  have hmlt' : 0 < (swapOutputs old 0 convert).length := by omega
  have hgetf : (pre ++ swapOutputs old 0 convert ++ post)[pre.length]? =
      some { matMul with outputs := convertOp.outputs } := by
    rw [← hfused]
    exact getElem?_old hmlt'
  have hrlt' : rollback < (swapOutputs old 0 convert).length := by omega
  have hrollback : swapOutputs (pre ++ swapOutputs old 0 convert ++ post) pre.length
      (pre.length + rollback) = pre ++ swapOutputs (swapOutputs old 0 convert) 0 rollback ++ post :=
    swapOutputs_append hfused (List.getElem?_eq_getElem hrlt')
  have herase : (pre ++ swapOutputs old 0 convert ++ post).eraseIdx (pre.length + convert) =
      pre ++ (swapOutputs old 0 convert).eraseIdx convert ++ post := eraseIdx_old (by omega)
  unfold fuseMatMulConvert
  rw [get_bind_eq]
  simp only [getOutputTensor, getInputTensor, hget0, hgetc, hout, hin, orUndefined, pure_bind]
  by_cases hne : output = input
  · rw [if_neg (not_not.2 hne), if_neg (not_not.2 hne)]
    simp only [hswap, hgetf, pure_bind, hrollback, herase]
    cases hv : validate g.calls { matMul with outputs := convertOp.outputs } with
    | true =>
      have hrun : validateOpConfig validate { matMul with outputs := convertOp.outputs } g =
          .ok true { g with calls := g.calls + 1 } := by
        rw [← hv]
        rfl
      rw [bind_ok_eq hrun]
      rfl
    | false =>
      have hrun : validateOpConfig validate { matMul with outputs := convertOp.outputs } g =
          .ok false { g with calls := g.calls + 1 } := by
        rw [← hv]
        rfl
      rw [bind_ok_eq hrun]
      rfl
  · rw [if_pos hne, if_pos hne]
    rfl

end

end LiteRt.Qnn
