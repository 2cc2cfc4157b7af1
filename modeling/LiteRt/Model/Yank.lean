import Mathlib.Data.List.Dedup
import Mathlib.Data.List.Sort
import LiteRt.Lib.ListIndex
import LiteRt.Model.Ir

/-!
# Moving subgraphs out of a model

`TransferSubgraphTo` renumbers the decomposition indices of all composite ops
with a scan over the sorted index list, then the allocator moves the subgraphs.
The allocator deduplicates the list, the scan does not: it stops matching at the
first index that occurs twice. `hit` says which indices the scan still sees.
-/

namespace LiteRt.Model

open LiteRt.Lib List

variable {indices : List Nat} {rest : List Nat} {d : Nat} {j i : Nat} {newInds : List Int}
  {o : OpId} {m : LiteRtModel} {s : SubgraphId} {ir : Ir} {ops : List OpId}

/-- Address of a `LiteRtSubgraphT`. -/
abbrev SubgraphId := Nat

/-- An operator code of the TFLite code table. -/
structure TflOpCode where
  deprecatedBuiltinCode : Int := 0
  builtinCode : Int := 0
  customCode : String := ""
  version : Int := 1
  deriving DecidableEq, Repr

structure LiteRtModel where
  ir : Ir
  subgraph : SubgraphId → Subgraph
  subgraphs : List SubgraphId
  tflOpCodes : List TflOpCode := []
  bufferManager : ManagerId := 0

def kLiteRtOpCodeShloComposite : Nat := 206

def Op.decomposition (op : Op) : Option Int :=
  if op.attrs.opCode = kLiteRtOpCodeShloComposite then
    match op.attrs.tflOptions2 with
    | .stableHLOComposite _ ind _ _ => some ind
    | _ => none
  else none

def Op.setDecomposition (op : Op) (ind : Int) : Op :=
  match op.attrs.tflOptions2 with
  | .stableHLOComposite name _ attributes version =>
    { op with attrs :=
      { op.attrs with tflOptions2 := .stableHLOComposite name ind attributes version } }
  | _ => op

/-- The scan of `TransferSubgraphTo` over the subgraph positions from `j` on, with
the rest of the sorted indices; `-1` marks a removed position. -/
def newIndsFrom (indices : List Nat) (numRemoved : Nat) (j : Nat) : Nat → List Int
  | 0 => []
  | n + 1 =>
    match indices with
    | [] => ((j : Int) - numRemoved) :: newIndsFrom [] numRemoved (j + 1) n
    | i :: rest =>
      if i = j then -1 :: newIndsFrom rest (numRemoved + 1) (j + 1) n
      else ((j : Int) - numRemoved) :: newIndsFrom (i :: rest) numRemoved (j + 1) n

/-- The callback `TransferSubgraphTo` runs on every op. -/
def renumberDecomposition (newInds : List Int) (ir : Ir) (o : OpId) : Ir :=
  match (ir.op o).decomposition with
  | none => ir
  | some decompInd =>
    if decompInd = -1 then ir
    else ir.modifyOp o fun op => op.setDecomposition (newInds.getD decompInd.toNat 0)

/-- `IrAllocator::TransferFrom` with indices: what is taken, in ascending order
without duplicates, and what stays. -/
def transferIndices (elements : List SubgraphId) (indices : List Nat) :
    List SubgraphId × List SubgraphId :=
  let inds := (indices.insertionSort (· ≤ ·)).dedup
  (inds.filterMap (elements[·]?), keepIdx (fun j => j ∉ inds) 0 elements)

/-- `TransferSubgraphTo`: the model left and the subgraphs moved to `dest`. -/
def transferSubgraphTo (m : LiteRtModel) (dest : List SubgraphId) (indices : List Nat) :
    LiteRtModel × List SubgraphId :=
  if indices = [] then (m, dest)
  else
    let sorted := indices.insertionSort (· ≤ ·)
    let newInds := newIndsFrom sorted 0 0 m.subgraphs.length
    let ops := m.subgraphs.flatMap fun s => (m.subgraph s).ops
    let ir := ops.foldl (renumberDecomposition newInds) m.ir
    let (moved, left) := transferIndices m.subgraphs sorted
    ({ m with ir := ir, subgraphs := left }, dest ++ moved)

/-- `Yank`: the model left and the model of the moved subgraphs. -/
def yank (m : LiteRtModel) (indices : List Nat) : LiteRtModel × LiteRtModel :=
  let (m', yanked) := transferSubgraphTo m [] indices
  (m', { m' with subgraphs := yanked, tflOpCodes := m.tflOpCodes,
                 bufferManager := m.bufferManager })

/-! ## The scan -/

/-- The scan sees `i` in the list: no smaller index occurs twice. -/
def hit (indices : List Nat) (i : Nat) : Bool :=
  i ∈ indices ∧ ∀ v ∈ indices, v < i → indices.count v < 2

/-- Once the scan has passed an index it keeps its count. -/
theorem getElem?_newIndsFrom_stalled {i numRemoved : Nat} {n j d : Nat} (hi : i < j) (hd : d < n) :
    (newIndsFrom (i :: rest) numRemoved j n)[d]? = some (((j + d : Nat) : Int) - numRemoved) := by
  induction n generalizing j d with
  | zero => omega
  | succ n ih =>
    rw [newIndsFrom]
    simp only [show ¬ i = j by omega, ↓reduceIte]
    cases d with
    | zero => simp
    | succ d =>
      rw [getElem?_cons_succ, ih (by omega) (by omega), Nat.add_right_comm, Nat.add_assoc]

/-- Past an index that occurs once, the rest of the list decides. -/
theorem hit_cons (hj : j ∉ rest) (hi : j < i) :
    hit (j :: rest) i = hit rest i := by
  simp only [hit, mem_cons, decide_eq_decide, Nat.ne_of_gt hi, false_or]
  refine and_congr_right fun _ => ⟨fun h v hv hlt => ?_, fun h v hv hlt => ?_⟩
  · have := h v (.inr hv) hlt
    rwa [count_cons_of_ne (fun he : j = v => hj (he ▸ hv))] at this
  · rcases hv with rfl | hv
    · rw [count_cons_self, count_eq_zero.mpr hj]
      omega
    · rw [count_cons_of_ne (fun he : j = v => hj (he ▸ hv))]
      exact h v hv hlt

/-- Past an index that occurs twice, nothing is hit. -/
theorem hit_cons_cons (hi : j < i) :
    hit (j :: j :: rest) i = false := by
  simp only [hit, decide_eq_false_iff_not, not_and, not_forall]
  exact fun _ => ⟨j, by simp, hi, by simp⟩

theorem hit_of_forall_ge (h : ∀ x ∈ indices, j ≤ x) (hi : i < j) : hit indices i = false := by
  simp only [hit, decide_eq_false_iff_not, not_and]
  intro hm
  have := h i hm
  omega

theorem hit_cons_self {j : Nat} (h : ∀ x ∈ rest, j ≤ x) :
    hit (j :: rest) j = true := by
  simp only [hit, mem_cons, true_or, true_and, decide_eq_true_eq]
  rintro v (rfl | hv) hlt
  · omega
  · have := h v hv; omega

/-- What the scan writes at a position: `-1` on a hit, else the position less the
hits before it. -/
theorem getElem?_newIndsFrom (numRemoved : Nat) {n j d : Nat} (hs : indices.Pairwise (· ≤ ·))
    (hge : ∀ x ∈ indices, j ≤ x) (hd : d < n) :
    (newIndsFrom indices numRemoved j n)[d]? = some (if hit indices (j + d) then -1
        else ((j + d : Nat) : Int) - numRemoved - ((List.range' j d).countP (hit indices) : Nat)) := by
  induction n generalizing indices numRemoved j d with
  | zero => omega
  | succ n ih =>
    cases indices with
    | nil =>
      rw [newIndsFrom]
      cases d with
      | zero => simp [hit]
      | succ d =>
        have hnil : hit [] = fun _ => false := by funext; simp [hit]
        rw [getElem?_cons_succ, ih _ .nil (by simp) (by omega), hnil]
        simp [Nat.add_right_comm, Nat.add_assoc]
    | cons i rest =>
      obtain ⟨hhead, hs'⟩ := pairwise_cons.mp hs
      rw [newIndsFrom]
      by_cases hij : i = j
      · subst hij
        simp only [↓reduceIte]
        cases d with
        | zero => simp [hit_cons_self hhead]
        | succ d =>
          rw [getElem?_cons_succ, range'_succ, countP_cons,
            if_pos (hit_cons_self hhead), show i + (d + 1) = i + 1 + d by omega]
          by_cases hdup : i ∈ rest
          · -- the next index is `i` again: the scan stalls
            obtain ⟨i', rest', rfl⟩ := exists_cons_of_ne_nil (ne_nil_of_mem hdup)
            obtain rfl : i' = i := by
              have h1 := hhead i' (by simp)
              rcases mem_cons.mp hdup with h2 | h2
              · exact h2.symm
              · have := (pairwise_cons.mp hs').1 i h2
                omega
            rw [getElem?_newIndsFrom_stalled (by omega) (by omega), hit_cons_cons (by omega)]
            have h0 : (List.range' (i' + 1) d).countP (hit (i' :: i' :: rest')) = 0 := by
              rw [countP_eq_zero]
              intro k hk
              rw [hit_cons_cons (by have := mem_range'_1.mp hk; omega)]
              simp
            rw [h0]
            simp
            omega
          · have hge' : ∀ x ∈ rest, i + 1 ≤ x := fun x hx => by
              have h1 := hhead x hx
              have h2 : x ≠ i := fun he => hdup (he ▸ hx)
              omega
            rw [ih _ hs' hge' (by omega), hit_cons hdup (by omega)]
            have hc : (List.range' (i + 1) d).countP (hit (i :: rest)) =
                (List.range' (i + 1) d).countP (hit rest) :=
              countP_congr fun k hk => by
                rw [hit_cons hdup (by have := mem_range'_1.mp hk; omega)]
            rw [hc]
            split
            · rfl
            · congr 1
              push_cast
              omega
      · have hge' : ∀ x ∈ i :: rest, j + 1 ≤ x := by
          have hi := hge i (by simp)
          intro x hx
          rcases mem_cons.mp hx with rfl | hx
          · omega
          · have := hhead x hx
            omega
        simp only [hij, ↓reduceIte]
        have hj : hit (i :: rest) j = false := hit_of_forall_ge hge' (by omega)
        cases d with
        | zero => simp [hj]
        | succ d =>
          rw [getElem?_cons_succ, ih _ hs hge' (by omega), range'_succ,
            countP_cons, hj, show j + (d + 1) = j + 1 + d by omega]
          simp

/-! ## Renumbering -/

@[simp] theorem decomposition_setDecomposition {op : Op} {ind : Int} (d : Int)
    (h : op.decomposition = some d) : (op.setDecomposition ind).decomposition = some ind := by
  unfold Op.decomposition at h
  split at h
  · next hc =>
    cases ho : op.attrs.tflOptions2 with
    | stableHLOComposite name d attributes version =>
      simp [Op.setDecomposition, Op.decomposition, ho, hc]
    | none => simp [ho] at h
    | other _ => simp [ho] at h
  · cases h

theorem op_renumberDecomposition_ne {o o' : OpId} (h : o' ≠ o) :
    (renumberDecomposition newInds ir o).op o' = ir.op o' := by
  unfold renumberDecomposition
  split
  · rfl
  · split
    · rfl
    · exact Ir.op_modifyOp_ne h

theorem op_renumberDecomposition_congr {ir ir' : Ir} (h : ir.op o = ir'.op o) :
    (renumberDecomposition newInds ir o).op o = (renumberDecomposition newInds ir' o).op o := by
  unfold renumberDecomposition
  rw [h]
  split
  · exact h
  · split
    · exact h
    · rw [Ir.op_modifyOp_self, Ir.op_modifyOp_self, h]

theorem op_foldl_renumberDecomposition (hnd : ops.Nodup) (ir : Ir) (o : OpId) :
    (ops.foldl (renumberDecomposition newInds) ir).op o =
      if o ∈ ops then (renumberDecomposition newInds ir o).op o else ir.op o := by
  induction ops generalizing ir with
  | nil => simp
  | cons o' ops ih =>
    obtain ⟨hnew, hnd⟩ := nodup_cons.mp hnd
    rw [foldl_cons, ih hnd]
    by_cases ho : o = o'
    · subst ho
      simp [hnew]
    · by_cases hm : o ∈ ops
      · simp [hm, op_renumberDecomposition_congr (op_renumberDecomposition_ne ho)]
      · simp [hm, ho, op_renumberDecomposition_ne ho]

/-- The decomposition index an op ends with. -/
theorem decomposition_foldl_renumber (newInds : List Int) (hnd : ops.Nodup) (ho : o ∈ ops)
    (hd : (ir.op o).decomposition = some (d : Int)) :
    ((ops.foldl (renumberDecomposition newInds) ir).op o).decomposition =
      some (newInds.getD d 0) := by
  rw [op_foldl_renumberDecomposition hnd, if_pos ho]
  have hne : ¬ (d : Int) = -1 := by omega
  simp only [renumberDecomposition, hd, hne, ↓reduceIte, Ir.op_modifyOp_self, Int.toNat_natCast]
  exact decomposition_setDecomposition _ hd

/-! ## Yank -/

/-- What holds of the parts of a model because its allocators own them, and of the
decomposition indices because they are subgraph indices. -/
structure LiteRtModel.Valid (m : LiteRtModel) : Prop where
  subgraphs_nodup : m.subgraphs.Nodup
  ops_nodup : (m.subgraphs.flatMap fun s => (m.subgraph s).ops).Nodup
  decomposition : ∀ s ∈ m.subgraphs, ∀ o ∈ (m.subgraph s).ops, ∀ d,
    (m.ir.op o).decomposition = some d → d = -1 ∨ ∃ n : Nat, d = n ∧ n < m.subgraphs.length

/-- What a split along `indices` is to be: `left` has the subgraphs that are not
listed in their order, `yanked` the listed ones, and the composite ops left refer
to the same subgraphs as before, unless their decomposition is listed. -/
structure YankSpec (m : LiteRtModel) (indices : List Nat) (left yanked : LiteRtModel) : Prop where
  left_order : left.subgraphs.Sublist m.subgraphs
  mem_left : ∀ (i : Nat) s, m.subgraphs[i]? = some s → (s ∈ left.subgraphs ↔ i ∉ indices)
  yanked_nodup : yanked.subgraphs.Nodup
  mem_yanked : ∀ s, s ∈ yanked.subgraphs ↔ ∃ i ∈ indices, m.subgraphs[i]? = some s
  references : ∀ s ∈ left.subgraphs, ∀ o ∈ (m.subgraph s).ops, ∀ d : Nat,
    (m.ir.op o).decomposition = some (d : Int) → d ∉ indices →
      ∃ d' : Nat, (left.ir.op o).decomposition = some (d' : Int) ∧
        left.subgraphs[d']? = m.subgraphs[d]?

/-- The index list does not derail the scan before a decomposition that stays: no
listed index below it lies above an index listed twice. -/
def LiteRtModel.ScanReaches (m : LiteRtModel) (indices : List Nat) : Prop :=
  ∀ i ∉ indices, ∀ s, m.subgraphs[i]? = some s → ∀ o ∈ (m.subgraph s).ops, ∀ d : Nat,
    (m.ir.op o).decomposition = some (d : Int) → d ∉ indices →
      ∀ u ∈ indices, u < d → ∀ v ∈ indices, v < u → indices.count v < 2

theorem yank_subgraphs (m : LiteRtModel) (indices : List Nat) :
    (yank m indices).1.subgraphs = keepIdx (fun j => j ∉ indices) 0 m.subgraphs ∧
      (yank m indices).2.subgraphs =
        ((indices.insertionSort (· ≤ ·)).insertionSort (· ≤ ·)).dedup.filterMap
          (m.subgraphs[·]?) := by
  by_cases hnil : indices = []
  · subst hnil
    simp [yank, transferSubgraphTo, keepIdx_eq_self]
  · simp [yank, transferSubgraphTo, hnil, transferIndices, mem_insertionSort]

theorem mem_left_iff :
    s ∈ (yank m indices).1.subgraphs ↔ ∃ i, m.subgraphs[i]? = some s ∧ i ∉ indices := by
  rw [(yank_subgraphs m indices).1, mem_keepIdx]
  simp

/-- Where a subgraph that stays ends up. -/
theorem getElem?_left (hs : m.subgraphs[d]? = some s) (hd : d ∉ indices) :
    (yank m indices).1.subgraphs[(List.range' 0 d).countP (fun j => j ∉ indices)]? = some s := by
  rw [(yank_subgraphs m indices).1]
  exact getElem?_keepIdx _ hs (by simpa using hd)

theorem hit_perm {l l' : List Nat} (h : l.Perm l') : hit l = hit l' := by
  funext i
  simp only [hit, h.mem_iff, h.count_eq]

/-- What a decomposition index that stays is rewritten to. -/
theorem decomposition_left (hm : m.Valid) (hs : s ∈ m.subgraphs) (ho : o ∈ (m.subgraph s).ops)
    (hdec : (m.ir.op o).decomposition = some (d : Int)) (hd : d ∉ indices) :
    ((yank m indices).1.ir.op o).decomposition =
      some ((d : Int) - ((List.range' 0 d).countP (hit indices) : Nat)) := by
  by_cases hnil : indices = []
  · subst hnil
    have h0 : hit [] = fun _ => false := by funext; simp [hit]
    simpa [yank, transferSubgraphTo, h0] using hdec
  · obtain hneg | ⟨n, hn, hlt⟩ := hm.decomposition s hs o ho d hdec
    · omega
    have hdlt : d < m.subgraphs.length := by omega
    have hmem : o ∈ m.subgraphs.flatMap fun s => (m.subgraph s).ops :=
      mem_flatMap.mpr ⟨s, hs, ho⟩
    have hperm : (indices.insertionSort (· ≤ ·)).Perm indices := perm_insertionSort _ _
    have hnew := getElem?_newIndsFrom 0 (pairwise_insertionSort (· ≤ ·) indices)
      (fun x _ => Nat.zero_le x) hdlt
    have hmiss : hit indices d = false := by simp [hit, hd]
    rw [hit_perm hperm, Nat.zero_add, hmiss] at hnew
    have := decomposition_foldl_renumber
      (newIndsFrom (indices.insertionSort (· ≤ ·)) 0 0 m.subgraphs.length) hm.ops_nodup hmem hdec
    rw [getD_eq_getElem?_getD, hnew] at this
    simpa [yank, transferSubgraphTo, hnil] using this

theorem countP_not_mem (indices : List Nat) (d : Nat) :
    (List.range' 0 d).countP (fun j => j ∉ indices) +
      (List.range' 0 d).countP (fun j => j ∈ indices) = d := by
  have := length_eq_countP_add_countP (fun j => decide (j ∈ indices)) (l := List.range' 0 d)
  simp only [length_range', decide_not] at this ⊢
  simp only [decide_eq_true_eq] at this
  omega

/-- The scan hits all listed indices below `d` when it counts as many. -/
theorem countP_hit_eq_iff :
    (List.range' 0 d).countP (hit indices) = (List.range' 0 d).countP (fun j => j ∈ indices) ↔
      ∀ u ∈ indices, u < d → ∀ v ∈ indices, v < u → indices.count v < 2 := by
  have himp : ∀ u, hit indices u → decide (u ∈ indices) := fun u hu => by
    simp only [hit, decide_eq_true_eq] at hu
    simpa using hu.1
  constructor
  · intro hc u hu hud
    have := forall_of_countP_le himp (Nat.le_of_eq hc.symm) u
      (mem_range'_1.mpr ⟨Nat.zero_le _, by omega⟩) (by simpa using hu)
    simp only [hit, decide_eq_true_eq] at this
    exact this.2
  · intro h
    refine countP_congr fun u hu => ⟨himp u, fun hm => ?_⟩
    have hm : u ∈ indices := by simpa using hm
    have hud : u < d := by have := mem_range'_1.mp hu; omega
    simpa [hit, hm] using h u hm hud

/-- **Yank.** The split along a list of indices in range is as intended exactly
when repeated indices do not derail the scan below a decomposition that stays. -/
theorem yank_spec_iff {m : LiteRtModel} (hm : m.Valid) {indices : List Nat}
    (_hin : ∀ i ∈ indices, i < m.subgraphs.length) :
    YankSpec m indices (yank m indices).1 (yank m indices).2 ↔ m.ScanReaches indices := by
  have hsub : (yank m indices).1.subgraphs.Sublist m.subgraphs := by
    rw [(yank_subgraphs m indices).1]
    exact keepIdx_sublist _ _ _
  constructor
  · intro h i hi s hs o ho d hdec hd
    have hsm : s ∈ m.subgraphs := mem_of_getElem? hs
    obtain hneg | ⟨n, hn, hlt⟩ := hm.decomposition s hsm o ho d hdec
    · omega
    have hdlt : d < m.subgraphs.length := by omega
    obtain ⟨d', hd', hl⟩ := h.references s (mem_left_iff.mpr ⟨i, hs, hi⟩) o ho d hdec hd
    rw [decomposition_left hm hsm ho hdec hd] at hd'
    have hget := getElem?_left (getElem?_eq_getElem hdlt) hd
    rw [getElem?_eq_getElem hdlt] at hl
    -- no subgraph stands at two positions, so the two positions are one
    have hpos := (getElem?_inj (List.getElem?_eq_some_iff.mp hl).1
      (hm.subgraphs_nodup.sublist hsub)).mp (hl.trans hget.symm)
    have hsplit := countP_not_mem indices d
    have hd' := Option.some.inj hd'
    exact countP_hit_eq_iff.mp (by omega)
  · intro h
    constructor
    · exact hsub
    · intro i s hs
      rw [mem_left_iff]
      refine ⟨fun ⟨j, hj, hnot⟩ => ?_, fun hi => ⟨i, hs, hi⟩⟩
      have hij := (getElem?_inj (List.getElem?_eq_some_iff.mp hs).1 hm.subgraphs_nodup).mp
        (hs.trans hj.symm)
      rwa [hij]
    · rw [(yank_subgraphs m indices).2]
      refine (nodup_dedup _).filterMap fun i j s hi hj => ?_
      exact (getElem?_inj (List.getElem?_eq_some_iff.mp hi).1 hm.subgraphs_nodup).mp
        ((Option.mem_def.mp hi).trans (Option.mem_def.mp hj).symm)
    · intro s
      rw [(yank_subgraphs m indices).2]
      simp [mem_insertionSort]
    · intro s hs o ho d hdec hd
      obtain ⟨i, hsi, hi⟩ := mem_left_iff.mp hs
      have hsm : s ∈ m.subgraphs := mem_of_getElem? hsi
      obtain hneg | ⟨n, hn, hlt⟩ := hm.decomposition s hsm o ho d hdec
      · omega
      have hdlt : d < m.subgraphs.length := by omega
      have hc := countP_hit_eq_iff.mpr (h i hi s hsi o ho d hdec hd)
      have hsplit := countP_not_mem indices d
      refine ⟨_, ?_, (getElem?_left (getElem?_eq_getElem hdlt) hd).trans
        (getElem?_eq_getElem hdlt).symm⟩
      rw [decomposition_left hm hsm ho hdec hd, hc]
      congr 1
      omega

/-- Four subgraphs; the op of the first one is an `npu_call` of the last one. -/
def npuCallModel : LiteRtModel where
  ir :=
    { tensor := fun _ => {}
      op := fun o => if o = 0 then
          { attrs :=
            { opCode := kLiteRtOpCodeShloComposite
              tflOptions2 := .stableHLOComposite "npu_call" 3 [] 1 } }
        else {}
      alloc := {} }
  subgraph s := if s = 0 then { ops := [0] } else {}
  subgraphs := [0, 1, 2, 3]

theorem npuCallModel_valid : npuCallModel.Valid where
  subgraphs_nodup := by decide
  ops_nodup := by decide
  decomposition := by
    intro s _ o ho d hd
    obtain rfl : s = 0 := by
      by_contra hs
      simp [npuCallModel, hs] at ho
    obtain rfl : o = 0 := by simpa [npuCallModel] using ho
    exact .inr ⟨3, Option.some.inj (hd.symm.trans (by decide)), by decide⟩

/-- A repetition after all other indices is harmless. -/
theorem yank_spec_iff_repeated_last :
    YankSpec npuCallModel [2, 1, 2] (yank npuCallModel [2, 1, 2]).1
      (yank npuCallModel [2, 1, 2]).2 := by
  refine (yank_spec_iff npuCallModel_valid (by decide)).mpr ?_
  intro i _ s _ o _ d _ _ u hu _ v hv hvu
  simp only [mem_cons, not_mem_nil, or_false] at hu hv
  obtain rfl : v = 1 := by omega
  decide

/-- A repetition before another index shifts the reference past the end of the list. -/
theorem yank_repeated_first_not_spec :
    npuCallModel.Valid ∧ (∀ i ∈ [1, 1, 2], i < npuCallModel.subgraphs.length) ∧
      ¬ YankSpec npuCallModel [1, 1, 2] (yank npuCallModel [1, 1, 2]).1
        (yank npuCallModel [1, 1, 2]).2 := by
  refine ⟨npuCallModel_valid, by decide, fun h => ?_⟩
  obtain ⟨d', hd', hl⟩ := h.references 0 (by decide) 0 (by decide) 3 (by decide) (by decide)
  obtain rfl : d' = 2 := by
    have := Option.some.inj (hd'.symm.trans (show _ = some (2 : Int) by decide))
    omega
  exact absurd hl (by decide)

end LiteRt.Model
