import LiteRt.Lib.Run
import LiteRt.Tflite.Kernels
import LiteRt.Tflite.Schedule

/-!
# Shapes that change while a graph runs

Preparation stops at each op with dynamic outputs and goes on when the next op is
invoked. Every op in front of the cursors is prepared for the shapes of its inputs and
has been placed with the sizes of its outputs.
-/

namespace LiteRt.Tflite

open LiteRt.Lib Subgraph

/-! ## Kernels that give shapes to their outputs -/

/-- Kernels change the shapes of their own outputs only, and of dynamic ones only when they
are invoked. -/
structure ShapeKernels (env : Env) : Prop where
  prepare : ∀ (s : Subgraph) (n : Nat), ∀ call ∈ (env.opPrepare s n).1,
    call.tensor ≠ kTfLiteOptionalTensor ∧ call.tensor ∈ (s.node n).outputs
  invoke : ∀ (s : Subgraph) (i : Nat), ∀ call ∈ (env.opInvoke s i).1,
    s.info.Writes i call.tensor ∧ (s.tensors call.tensor).allocationType = .dynamic

/-- Every node comes after the nodes that produce its inputs. -/
def GraphInfo.Topological (info : GraphInfo) : Prop :=
  ∀ i < info.numExecutionNodes, ∀ j < info.numExecutionNodes, ∀ t, info.Reads i t →
    info.Writes j t → j < i

/-- No other node of the plan produces the tensor. -/
def GraphInfo.OnlyProducer (info : GraphInfo) (i : Nat) (t : TensorIndex) : Prop :=
  ∀ j < info.numExecutionNodes, info.Writes j t → j = i

instance (info : GraphInfo) : Decidable info.Topological :=
  decidable_of_iff (∀ i < info.numExecutionNodes, ∀ j < info.numExecutionNodes,
      ∀ t ∈ (info.node i).inputs, info.Reads i t → info.Writes j t → j < i)
    ⟨fun h i hi j hj t hr => h i hi j hj t hr.2 hr, fun h i hi j hj t _ => h i hi j hj t⟩

/-! ## What the trace says about a node -/

namespace Subgraph

/-- The node at `i` was prepared after its inputs got their shapes. -/
def PreparedForInputs (g s : Subgraph) (i : Nat) : Prop :=
  Since (· = .prepare (g.info.nodeIndex i)) (fun e => ∃ t, g.info.Reads i t ∧ e = .dims t) s.trace

/-- Takes back what `ExecuteAllocations` did for the node at `i`; `T` holds of its outputs
whose size counts. -/
inductive Uncovers (i : Nat) (T : TensorIndex → Prop) : Event → Prop where
  | planAllocations : Uncovers i T (.planner .planAllocations)
  | resetAllocations : Uncovers i T (.planner .resetAllocations)
  | resetAllocationsAfter {j : Nat} : j < i → Uncovers i T (.planner (.resetAllocationsAfter j))
  | bytes {t : TensorIndex} : T t → Uncovers i T (.bytes t)

instance (i : Nat) (T : TensorIndex → Prop) [DecidablePred T] : DecidablePred (Uncovers i T)
  | .planner .planAllocations => isTrue .planAllocations
  | .planner .resetAllocations => isTrue .resetAllocations
  | .planner (.resetAllocationsAfter j) => decidable_of_iff (j < i)
      ⟨.resetAllocationsAfter, fun h => by cases h; assumption⟩
  | .bytes t => decidable_of_iff (T t) ⟨.bytes, fun h => by cases h; assumption⟩
  | .planner (.executeAllocations _ _) => isFalse (by rintro ⟨⟩)
  | .executionPlan => isFalse (by rintro ⟨⟩)
  | .prepare _ => isFalse (by rintro ⟨⟩)
  | .invoke _ => isFalse (by rintro ⟨⟩)
  | .dims _ => isFalse (by rintro ⟨⟩)

/-- Places what the node at `i` needs. -/
def Covers (i : Nat) : Event → Bool
  | .planner (.executeAllocations first last) => decide (first ≤ i) && decide (i ≤ last)
  | _ => false

/-- `ExecuteAllocations` has covered the node at `i`, with the sizes of those of its outputs
with `T` that are not dynamic. -/
def CoveredByPlan (g s : Subgraph) (T : Nat → TensorIndex → Prop) (i : Nat) : Prop :=
  Since (fun e => Covers i e)
    (Uncovers i fun t => g.info.Writes i t ∧ T i t ∧ (s.tensors t).allocationType ≠ .dynamic)
    s.trace

instance (g s : Subgraph) (T : Nat → TensorIndex → Prop) [∀ i, DecidablePred (T i)] (i : Nat) :
    Decidable (g.CoveredByPlan s T i) :=
  inferInstanceAs (Decidable (Since _ _ _))

end Subgraph

section
variable {g s s' : Subgraph} {T : Nat → TensorIndex → Prop} {i : Nat} {events : List Event}

theorem Subgraph.PreparedForInputs.append (h : g.PreparedForInputs s i)
    (htrace : s'.trace = s.trace ++ events)
    (hev : ∀ t, .dims t ∈ events → ¬ g.info.Reads i t) : g.PreparedForInputs s' i := by
  rw [PreparedForInputs, htrace]
  refine Since.append h ?_
  rintro e he ⟨t, hr, rfl⟩
  exact hev t he hr

theorem Subgraph.CoveredByPlan.append (h : g.CoveredByPlan s T i)
    (htrace : s'.trace = s.trace ++ events)
    (hdyn : ∀ t, (s.tensors t).allocationType = .dynamic → (s'.tensors t).allocationType = .dynamic)
    (hev : ∀ e ∈ events, ¬ Uncovers i
      (fun t => g.info.Writes i t ∧ T i t ∧ (s.tensors t).allocationType ≠ .dynamic) e) :
    g.CoveredByPlan s' T i := by
  rw [CoveredByPlan, htrace]
  refine Since.mono (Since.append h hev) fun e he => ?_
  cases he with
  | planAllocations => exact .planAllocations
  | resetAllocations => exact .resetAllocations
  | resetAllocationsAfter hj => exact .resetAllocationsAfter hj
  | bytes ht => exact .bytes ⟨ht.1, ht.2.1, fun hd => ht.2.2 (hdyn _ hd)⟩

end

/-! ## The cursors -/

/-- The cursors are at `toPrepare` and `toPlan`. The nodes in front of `ready` are prepared,
and those in front of `placed` are placed. -/
structure Coherent (g : Subgraph) (toPrepare toPlan placed ready : Nat) (s : Subgraph) : Prop where
  graph : SameGraph g s
  toPrepare : s.nextExecutionPlanIndexToPrepare = toPrepare
  toPlan : s.nextExecutionPlanIndexToPlanAllocation = toPlan
  planner : placed = 0 ∨ s.hasMemoryPlanner = true
  le : placed ≤ ready
  prepared : ∀ i < ready, i < g.info.numExecutionNodes → g.PreparedForInputs s i
  covered : ∀ i < placed, i < g.info.numExecutionNodes → g.CoveredByPlan s g.info.OnlyProducer i

section
variable {env : Env} {g s : Subgraph} {toPrepare toPlan placed ready : Nat} {next k : Nat}
  {t : TensorIndex} {s' : Subgraph}

/-- The graph in the state of another subgraph. -/
theorem SameGraph.writes_iff (h : SameGraph g s) {i : Nat} :
    s.info.Writes i t ↔ g.info.Writes i t := by
  rw [GraphInfo.Writes, GraphInfo.Writes]
  simp only [Subgraph.info, h.executionPlan, h.node]

/-- Events that neither give a shape nor take a placement back. -/
theorem Coherent.log (h : Coherent g toPrepare toPlan placed ready s) {e : Event} (hdims : ∀ t, e ≠ .dims t)
    (hcov : ∀ i < placed, ∀ T, ¬ Uncovers i T e) : Coherent g toPrepare toPlan placed ready (s.log e) where
  graph := h.graph
  toPrepare := h.toPrepare
  toPlan := h.toPlan
  planner := h.planner
  le := h.le
  prepared i hi hn := (h.prepared i hi hn).append rfl fun t he _ =>
    hdims t (List.mem_singleton.mp he).symm
  covered i hi hn := (h.covered i hi hn).append rfl (fun _ hd => hd) fun e' he => by
    rw [List.mem_singleton.mp he]
    exact hcov i hi _

/-- Kernel calls on tensors of which no node in front of `ready` reads one that gets another
shape, and no node in front of `placed` produces one that is not dynamic. -/
theorem Coherent.reshaped (h : Coherent g toPrepare toPlan placed ready s) {T : TensorIndex → Prop}
    (hs : Reshaped T s s')
    (hdims : ∀ t, s'.tensorResizedSinceOpInvoke = true → T t →
      ∀ i < ready, i < g.info.numExecutionNodes → ¬ g.info.Reads i t)
    (hcov : ∀ t, T t → ∀ i < placed, g.info.Writes i t → g.info.OnlyProducer i t →
      (s.tensors t).allocationType = .dynamic) :
    Coherent g toPrepare toPlan placed ready s' := by
  obtain ⟨events, htrace, hev⟩ := hs.trace
  constructor
  case graph => exact h.graph.trans hs.graph
  case toPrepare => exact hs.toPrepare.trans h.toPrepare
  case toPlan => exact hs.toPlan.trans h.toPlan
  case planner => exact h.planner.imp_right hs.planner.trans
  case le => exact h.le
  case prepared =>
    intro i hi hn
    refine (h.prepared i hi hn).append htrace fun t he => ?_
    obtain ⟨u, hu, he⟩ := hev _ he
    rcases he with he | ⟨he, hflag⟩
    · cases he
    · cases he
      exact hdims _ hflag hu i hi hn
  case covered =>
    intro i hi hn
    refine (h.covered i hi hn).append htrace hs.dynamic fun e he hu => ?_
    obtain ⟨t, ht, he⟩ := hev e he
    rcases he with rfl | ⟨rfl, -⟩
    · cases hu with
      | bytes hw => exact hw.2.2 (hcov t ht i hi hw.1 hw.2.1)
    · cases hu

variable (htop : g.info.Topological)

include htop

/-- A node does not read what a node at or behind it produces. -/
theorem GraphInfo.Topological.not_reads {i k : Nat} (hle : i ≤ k)
    (hk : k < g.info.numExecutionNodes) (hw : g.info.Writes k t) : ¬ g.info.Reads i t :=
  fun hr => Nat.not_lt_of_le hle (htop i (Nat.lt_of_le_of_lt hle hk) k hk t hr hw)

theorem Coherent.opPrepare (hker : ShapeKernels env) {k : Nat} (hk : k < g.info.numExecutionNodes)
    (h : Coherent g toPrepare toPlan placed k s) : Ends (opPrepare env (g.info.nodeIndex k)) s
      (fun _ => Coherent g toPrepare toPlan placed (k + 1)) fun _ _ => True := by
  have hlog := h.log (e := .prepare (g.info.nodeIndex k)) (by simp) fun i _ T he => by cases he
  have hnext : Coherent g toPrepare toPlan placed (k + 1) (s.log (.prepare (g.info.nodeIndex k))) :=
    { hlog with
      le := Nat.le_succ_of_le h.le
      prepared := fun i hi hn => by
        rcases Nat.lt_succ_iff_lt_or_eq.mp hi with hi | rfl
        · exact hlog.prepared i hi hn
        · exact Since.snoc rfl }
  refine ends_modify_bind (ends_get ?_)
  set s₁ := s.log (.prepare (g.info.nodeIndex k))
  have hcalls : ∀ call ∈ (env.opPrepare s₁ (g.info.nodeIndex k)).1,
      g.info.Writes k call.tensor := fun call hcall => by
    obtain ⟨hne, hm⟩ := hker.prepare s₁ _ call hcall
    rw [hnext.graph.node] at hm
    exact ⟨hne, hm⟩
  have hdone (s₂ : Subgraph) (h₂ : Reshaped (g.info.Writes k) s₁ s₂) : Coherent g toPrepare toPlan placed (k + 1) s₂ :=
    hnext.reshaped h₂ (fun t _ hw i hi _ => htop.not_reads (Nat.le_of_lt_succ hi) hk hw)
      fun t hw i hi _ honly => absurd (honly k hk hw) (by have := h.le; omega)
  refine Ends.bind (Q := fun _ => Coherent g toPrepare toPlan placed (k + 1)) (ends_status ?_) fun _ _ h => h
  exact (keeps_runKernelCalls hcalls s₁ (.refl s₁)).mono (fun _ => hdone) fun _ => hdone

omit htop in
/-- Behind the end of the plan there is nothing to prepare. -/
theorem Coherent.extend (h : Coherent g toPrepare toPlan placed ready s) (hn : g.info.numExecutionNodes ≤ ready)
    {ready' : Nat} (hle : ready ≤ ready') : Coherent g toPrepare toPlan placed ready' s :=
  { h with
    le := h.le.trans hle
    prepared := fun i _ hi => h.prepared i (Nat.lt_of_lt_of_le hi hn) hi }

/-- Preparing the nodes from `k` on, up to the last one that is prepared. -/
theorem Coherent.prepareOps (hker : ShapeKernels env) {nodes : List Nat} {k last : Nat}
    (hnodes : g.executionPlan.drop k = nodes) (h : Coherent g toPrepare toPlan placed k s) :
    Ends (prepareOps env nodes k last) s
      (fun last' s' => Coherent g toPrepare toPlan placed (max k (last' + 1)) s' ∧
        (last' = last ∨ k ≤ last') ∧ (k < g.info.numExecutionNodes → k ≤ last'))
      fun _ _ => True := by
  induction nodes generalizing k last s with
  | nil =>
    have hn : g.info.numExecutionNodes ≤ k := List.drop_eq_nil_iff.mp hnodes
    exact ends_pure ⟨h.extend hn (Nat.le_max_left ..), .inl rfl, fun hk => by omega⟩
  | cons node nodes ih =>
    have hk : k < g.info.numExecutionNodes := by
      by_contra hn
      rw [List.drop_eq_nil_iff.mpr (Nat.le_of_not_lt hn)] at hnodes
      cases hnodes
    obtain ⟨hnode, hrest⟩ := List.cons.inj ((List.drop_eq_getElem_cons hk).symm.trans hnodes)
    have hindex : g.info.nodeIndex k = node := by
      rw [info_nodeIndex, ← hnode, List.getD_eq_getElem?_getD, List.getElem?_eq_getElem hk]
      rfl
    rw [← hindex]
    refine Ends.bind (h.opPrepare htop hker hk) fun _ s₁ h₁ => ?_
    refine Ends.bind (Q := fun _ => Coherent g toPrepare toPlan placed (k + 1))
      (ends_onlyIf (fun _ => ends_throw trivial) fun _ => h₁) fun _ s₂ h₂ => ends_get ?_
    split
    · have hmax : max k (k + 1) = k + 1 := Nat.max_eq_right (Nat.le_succ k)
      refine ends_modify_bind (ends_pure ⟨?_, .inr (Nat.le_refl k), fun _ => Nat.le_refl k⟩)
      rw [hmax]
      exact { h₂ with }
    · refine (ih hrest h₂).mono (fun last' s' h' => ?_) fun _ _ => id
      obtain ⟨hc, hlast, -⟩ := h'
      have hle : k ≤ last' := by omega
      have hmax : max (k + 1) (last' + 1) = max k (last' + 1) := by omega
      exact ⟨hmax ▸ hc, .inr hle, fun _ => hle⟩

omit htop in
/-- A planner call that takes no placement in front of `placed` back. -/
theorem Coherent.callPlanner (h : Coherent g toPrepare toPlan placed ready s) {call : PlannerCall}
    (hcov : ∀ i < placed, ∀ T, ¬ Uncovers i T (.planner call)) :
    Ends (callPlanner env call) s (fun _ => Coherent g toPrepare toPlan placed ready)
      fun _ => Coherent g toPrepare toPlan placed ready := by
  have hlog := h.log (e := .planner call) (by simp) hcov
  refine ends_modify_bind (ends_get ?_)
  split
  · exact ends_throw hlog
  · exact ends_modify { hlog with }

omit htop in
/-- What has been prepared is placed. -/
theorem Coherent.executeAllocations {last : Nat} (h : Coherent g toPrepare toPlan placed ready s)
    (hplanner : s.hasMemoryPlanner = true) (hready : last < ready) :
    Ends (LiteRt.Tflite.callPlanner env (.executeAllocations placed last)) s
      (fun _ => Coherent g toPrepare toPlan (last + 1) ready) fun _ _ => True := by
  have hlog := h.log (e := .planner (.executeAllocations placed last)) (by simp)
    fun i _ T he => by cases he
  have hplaced : Coherent g toPrepare toPlan (last + 1) ready
      (s.log (.planner (.executeAllocations placed last))) :=
    { hlog with
      planner := .inr hplanner
      le := hready
      covered := fun i hi hn => by
        by_cases hlt : i < placed
        · exact hlog.covered i hlt hn
        · exact Since.snoc (by
            simpa [Covers] using ⟨Nat.le_of_not_lt hlt, Nat.le_of_lt_succ hi⟩) }
  refine ends_modify_bind (ends_get ?_)
  split
  · exact ends_throw trivial
  · exact ends_modify { hplaced with }

theorem Coherent.prepareOpsStartingAt (hker : ShapeKernels env)
    (h : Coherent g toPrepare toPlan placed placed s)
    (hplaced : placed < g.info.numExecutionNodes ∨ placed = 0) :
    Ends (prepareOpsStartingAt env placed g.executionPlan 0) s
      (fun last s' => Coherent g toPrepare toPlan placed (last + 1) s' ∧ placed ≤ last)
      fun _ _ => True := by
  refine Ends.bind (Q := fun _ => Coherent g toPrepare toPlan placed placed)
    (ends_onlyIf (fun _ => ends_modify { h with }) fun _ => h) fun _ s₁ h₁ => ?_
  refine (h₁.prepareOps htop hker rfl).mono (fun last s' h' => ?_) fun _ _ => id
  obtain ⟨hc, -, hle⟩ := h'
  have hlast : placed ≤ last := by
    rcases hplaced with hlt | h0
    · exact hle hlt
    · omega
  rw [Nat.max_eq_right (Nat.le_succ_of_le hlast)] at hc
  exact ⟨hc, hlast⟩

/-- `PrepareOpsAndTensors` goes on from the cursors. -/
theorem Coherent.prepareOpsAndTensors (hker : ShapeKernels env)
    (hpre : g.preDelegationExecutionPlan = []) {next : Nat} (h : Coherent g next next next next s)
    (hnext : next < g.info.numExecutionNodes ∨ next = 0) :
    Ends (prepareOpsAndTensors env) s (fun _ s' => ∃ next', Coherent g next' next' next' next' s' ∧
      next < next') fun _ _ => True := by
  have hplan := h.graph.executionPlan
  have horiginal : ¬ s.prepareOriginalPlan env = true := by
    simp [Subgraph.prepareOriginalPlan, h.graph.preDelegationExecutionPlan, hpre]
  refine ends_get (Ends.bind (Q := fun _ s' => s' = s) (ends_onlyIf (absurd · horiginal)
    fun _ => rfl) fun _ s₁ hs₁ => ?_)
  subst hs₁
  rw [h.toPrepare, h.toPlan, hplan]
  have hkeep : Ends (LiteRt.Tflite.prepareOpsStartingAt env next g.executionPlan 0) s₁
      (fun _ s' => s₁.hasMemoryPlanner = true → s'.hasMemoryPlanner = true) fun _ _ => True := by
    by_cases hm : s₁.hasMemoryPlanner = true
    · exact (keeps_prepareOpsStartingAt_stable stable_hasMemoryPlanner _ _ _ s₁ hm).mono
        (fun _ _ h _ => h) fun _ _ _ => trivial
    · exact (h.prepareOpsStartingAt htop hker hnext).mono (fun _ _ _ h => absurd h hm) fun _ _ => id
  refine Ends.bind ((h.prepareOpsStartingAt htop hker hnext).and hkeep |>.mono (fun _ _ => id)
    fun _ _ _ => trivial) fun last s₂ h₂ => ?_
  obtain ⟨⟨h₂, hle⟩, hm₂⟩ := h₂
  refine ends_modify_bind (Ends.bind (Q := fun _ s' => Coherent g (last + 1) next next
    (last + 1) s' ∧ s'.hasMemoryPlanner = true) (ends_onlyIf (fun hno => ?_) fun hyes => ?_)
    fun _ s₃ h₃ => ?_)
  · -- a planner is missing at the first preparation only
    obtain rfl : next = 0 := h.planner.resolve_right (by simpa using hno)
    have h₃ : Coherent g (last + 1) 0 0 (last + 1) { s₂ with
        nextExecutionPlanIndexToPrepare := last + 1, hasMemoryPlanner := true } :=
      { h₂ with toPrepare := rfl, planner := .inl rfl }
    have hcall := (@callPlanner env _ _ _ _ _ _ h₃ .planAllocations
      (fun i hi => absurd hi (Nat.not_lt_zero i))).and
        (keeps_callPlanner_stable stable_hasMemoryPlanner _ _ rfl)
    exact ends_modify_bind (Ends.bind (ends_status (hcall.mono (fun _ _ => id) fun _ _ => id))
      fun _ s' h' => ends_pure h')
  · exact ⟨{ h₂ with toPrepare := rfl }, hm₂ (by simpa using hyes)⟩
  · refine Ends.bind (h₃.1.executeAllocations h₃.2 (Nat.lt_succ_self last)) fun _ s₄ h₄ => ?_
    exact ends_modify ⟨last + 1, { h₄ with toPlan := rfl }, Nat.lt_succ_of_le hle⟩

/-! ## `Invoke` -/

omit htop in
/-- The node at `k` is invoked after it was prepared and placed. -/
theorem Coherent.beforeInvoke (hker : ShapeKernels env) (htop : g.info.Topological)
    (hpre : g.preDelegationExecutionPlan = []) (h : Coherent g next next next next s)
    (hk : k < g.info.numExecutionNodes) (hle : k ≤ next) :
    Ends (beforeInvoke env k) s (fun _ s' => ∃ next', Coherent g next' next' next' next' s' ∧
      k < next' ∧ s'.tensorResizedSinceOpInvoke = false) fun _ _ => True := by
  have hprepared : Ends (onlyIf (k = s.nextExecutionPlanIndexToPrepare) do
      LiteRt.Tflite.prepareOpsAndTensors env
      let s ← get
      ensure (decide (k ≤ s.nextExecutionPlanIndexToPrepare))) s
      (fun _ s' => ∃ next', Coherent g next' next' next' next' s' ∧ k < next')
      fun _ _ => True := by
    rw [h.toPrepare]
    refine ends_onlyIf (fun heq => ?_) fun hne => ⟨next, h, by omega⟩
    subst heq
    refine Ends.bind (h.prepareOpsAndTensors htop hker hpre (.inl hk)) fun _ s₁ h₁ => ?_
    exact ends_get (ends_ensure (fun _ => h₁) fun _ => trivial)
  refine ends_get (Ends.bind hprepared fun _ s₁ h₁ => ends_get ?_)
  refine Ends.bind (Q := fun _ s' => s' = s₁) (ends_ensure (fun _ => rfl) fun _ => trivial)
    fun _ s₂ hs₂ => ?_
  subst hs₂
  obtain ⟨next', h₁, hlt⟩ := h₁
  exact ends_modify ⟨next', { h₁ with }, hlt, rfl⟩

omit htop in
/-- Fewer nodes are prepared and placed. -/
theorem Coherent.shrink (h : Coherent g toPrepare toPlan placed ready s) {k : Nat} (hk : k ≤ placed) :
    Coherent g toPrepare toPlan k k s :=
  { h with
    planner := h.planner.imp_left fun h0 => by omega
    le := Nat.le_refl k
    prepared := fun i hi => h.prepared i (by have := h.le; omega)
    covered := fun i hi => h.covered i (by omega) }

/-- The cursors go back to the node behind a dynamic output that was resized. -/
theorem Coherent.afterInvoke (h : Coherent g next next next next s)
    (hk : k < g.info.numExecutionNodes) (hlt : k < next)
    (hs : Reshaped (fun t => g.info.Writes k t ∧ (s.tensors t).allocationType = .dynamic) s s') :
    Ends (afterInvoke env k) s' (fun _ s'' => ∃ next', Coherent g next' next' next' next' s'' ∧
      k < next') fun _ _ => True := by
  have hcov : ∀ t, (g.info.Writes k t ∧ (s.tensors t).allocationType = .dynamic) → ∀ i < next,
      g.info.Writes i t → g.info.OnlyProducer i t → (s.tensors t).allocationType = .dynamic :=
    fun t ht _ _ _ _ => ht.2
  refine ends_get (ends_onlyIf (fun hresized => ?_) fun hnot => ?_)
  · have hback : Coherent g next next (k + 1) (k + 1) s' :=
      (h.shrink hlt).reshaped hs
        (fun t _ ht i hi _ => htop.not_reads (Nat.le_of_lt_succ hi) hk ht.1)
        fun t ht i hi => hcov t ht i (by omega)
    rw [hback.toPlan]
    refine ends_modify_bind (ends_onlyIf (fun hlt' => ?_) fun hge => ?_)
    · refine ends_modify_bind (ends_onlyIf (fun _ => ?_) fun _ => ?_)
      · have hstart : Coherent g (k + 1) (k + 1) (k + 1) (k + 1)
            { s' with
              nextExecutionPlanIndexToPrepare := k + 1
              nextExecutionPlanIndexToPlanAllocation := k + 1 } :=
          { hback with toPrepare := rfl, toPlan := rfl }
        refine (hstart.callPlanner fun i hi T he => ?_).mono
          (fun _ _ h' => ⟨k + 1, h', Nat.lt_succ_self k⟩) fun _ _ _ => trivial
        cases he with
        | resetAllocationsAfter hj => omega
      · exact ⟨k + 1, { hback with toPrepare := rfl, toPlan := rfl }, Nat.lt_succ_self k⟩
    · obtain rfl : next = k + 1 := by omega
      exact ⟨k + 1, { hback with toPrepare := rfl }, Nat.lt_succ_self k⟩
  · refine ⟨next, h.reshaped hs (fun t hflag ht => absurd ?_ hnot) hcov, hlt⟩
    obtain ⟨hne, hm⟩ := (h.graph.trans hs.graph).writes_iff.mpr ht.1
    rw [Bool.and_eq_true, hasDynamicTensor, List.any_eq_true]
    exact ⟨hflag, t, hm, by simpa using ⟨hne, hs.dynamic t ht.2⟩⟩

/-- A round of the loop keeps what is in front of the cursors prepared and placed. -/
theorem Coherent.invokeNode (hker : ShapeKernels env) (hpre : g.preDelegationExecutionPlan = [])
    (h : Coherent g next next next next s) (hk : k < g.info.numExecutionNodes) (hle : k ≤ next) :
    Ends (invokeNode env k) s
      (fun _ s' => ∃ next', Coherent g next' next' next' next' s' ∧ k < next')
      fun _ _ => True := by
  refine Ends.bind (h.beforeInvoke hker htop hpre hk hle) fun _ s₁ h₁ => ?_
  obtain ⟨next', h₁, hlt, -⟩ := h₁
  have h₂ : Coherent g next' next' next' next' (s₁.log (.invoke k)) :=
    h₁.log (by simp) fun i _ T he => by cases he
  set s₂ := s₁.log (.invoke k)
  have hinvoke : Ends (opInvoke env k) s₁ (fun _ => Reshaped (fun t => g.info.Writes k t ∧
      (s₂.tensors t).allocationType = .dynamic) s₂) fun _ _ => True := by
    refine ends_modify_bind (ends_get (Ends.bind (ends_status ?_) fun _ _ h => ends_pure h))
    refine keeps_runKernelCalls (fun call hcall => ?_) s₂ (.refl s₂)
    obtain ⟨hw, hd⟩ := hker.invoke s₂ k call hcall
    exact ⟨h₂.graph.writes_iff.mp hw, hd⟩
  refine Ends.bind hinvoke fun _ s₃ h₃ => ?_
  refine Ends.bind (Q := fun _ s' => s' = s₃) (ends_onlyIf (fun _ => ends_throw trivial)
    fun _ => rfl) fun _ s₄ h₄ => ?_
  subst h₄
  exact h₂.afterInvoke htop hk hlt h₃

theorem Coherent.invokeNodes (hker : ShapeKernels env) (hpre : g.preDelegationExecutionPlan = [])
    {next k n : Nat} (h : Coherent g next next next next s) (hle : k ≤ next)
    (hn : k + n ≤ g.info.numExecutionNodes) : Ends (invokeNodes env n k) s
      (fun _ s' => ∃ next', Coherent g next' next' next' next' s' ∧ k + n ≤ next')
      fun _ _ => True := by
  induction n generalizing k next s with
  | zero => exact ends_pure ⟨next, h, hle⟩
  | succ n ih =>
    refine Ends.bind (h.invokeNode htop hker hpre (by omega) hle) fun _ s₁ h₁ => ?_
    obtain ⟨next', h₁, hlt⟩ := h₁
    refine (ih h₁ hlt (by omega)).mono (fun _ _ h' => ?_) fun _ _ => id
    obtain ⟨next'', h', hle'⟩ := h'
    exact ⟨next'', h', by omega⟩

end

/-! ## Runs -/

/-- `n` calls of `Invoke`. -/
def invokeTimes (env : Env) : Nat → SubgraphM Unit
  | 0 => pure ()
  | n + 1 => do
    invokeImpl env
    invokeTimes env n

/-- After `AllocateTensors` and `n` calls of `Invoke`, the next call up to the point where
it invokes the node at `k`. -/
def invokeUpTo (env : Env) (rounds n k : Nat) : SubgraphM Unit := do
  allocateTensors env rounds
  invokeTimes env n
  let s ← get
  ensure s.consistent
  ensure (s.state ≠ .uninvokable)
  ensure (decide (k < s.executionPlan.length))
  invokeNodes env k 0
  beforeInvoke env k

/-- No delegate has been applied, and memory is to be allocated. -/
structure Subgraph.Undelegated (s : Subgraph) : Prop where
  preDelegationExecutionPlan : s.preDelegationExecutionPlan = []
  delegatesUndone : s.delegatesUndone = false
  state : s.state = .uninvokable

theorem planFree_undelegated : PlanFree Subgraph.Undelegated := fun _ _ hpre _ hundone hstate h =>
  ⟨hpre.trans h.preDelegationExecutionPlan, hundone.trans h.delegatesUndone,
    hstate.elim (·.trans h.state) id⟩

theorem keeps_redoAllDelegates_undelegated (env : Env) (depth : Nat) :
    Keeps (redoAllDelegates env depth) Subgraph.Undelegated := by
  cases depth with
  | zero => exact keeps_get fun s hs => keeps_ensure _ _ s hs
  | succ depth =>
    exact keeps_get fun s hs =>
      ends_onlyIf (fun h => by simp [hs.delegatesUndone] at h) fun _ => hs

theorem keeps_inlineCompositeNodes_undelegated (env : Env) (depth rounds : Nat) :
    Keeps (inlineCompositeNodes env (redoAllDelegates env depth) rounds) Subgraph.Undelegated := by
  induction rounds with
  | zero => exact keeps_get fun s hs => keeps_ensure _ _ s hs
  | succ rounds ih =>
    refine keeps_get fun s hs => ends_onlyIf (fun _ => ?_) fun _ => hs
    refine Keeps.bind ?_ (fun _ => keeps_get fun s' hs' => (Keeps.bind
      (keeps_inlineNodes planFree_undelegated _ _ _) fun _ =>
        (keeps_redoAllDelegates_undelegated env depth).bind fun _ => ih) s' hs') s hs
    exact keeps_get fun s hs => ends_onlyIf (fun h => absurd hs.preDelegationExecutionPlan h)
      fun _ => hs

section
variable {env : Env} {s s' : Subgraph}

/-- What `AllocateTensors` does without delegates: it allocates some graph from the start. -/
theorem allocateTensors_undelegated {rounds : Nat} (hs : s.Undelegated)
    (h : allocateTensors env rounds s = .ok () s') :
    ∃ g : Subgraph, g.Undelegated ∧ allocate env g = .ok () s' := by
  obtain ⟨_, s₁, hensure, h⟩ := bind_eq_ok.mp (show (ensure s.consistent >>= fun _ => _) s = _ from h)
  obtain ⟨_, s₂, hredo, h⟩ := bind_eq_ok.mp h
  obtain ⟨_, s₃, hinline, h⟩ := bind_eq_ok.mp h
  have h₁ := (keeps_ensure _ _ s hs).ok hensure
  have h₂ := (keeps_redoAllDelegates_undelegated env 1 s₁ h₁).ok hredo
  have hkeep : Keeps (do
      let s ← get
      onlyIf (s.shloCompositeInlining && !s.isDelegationSkippable && !s.isFullyDelegated)
        (inlineCompositeNodes env (redoAllDelegates env 1) rounds)) Subgraph.Undelegated :=
    keeps_get fun s hs =>
      (Keeps.onlyIf (keeps_inlineCompositeNodes_undelegated env 1 rounds)) s hs
  exact ⟨s₃, (hkeep s₂ h₂).ok hinline, h⟩

/-- The subgraph from which allocation starts over. -/
def Subgraph.resetCursors (s : Subgraph) : Subgraph :=
  { s with
    nextExecutionPlanIndexToPrepare := 0
    nextExecutionPlanIndexToPlanAllocation := 0
    nextOriginalExecutionPlanIndexToPrepare := 0 }

theorem allocate_eq_ok (hs : s.state = .uninvokable) (h : allocate env s = .ok () s') :
    ∃ s₁ s₂, onlyIf (s.hasMemoryPlanner = true) (callPlanner env .resetAllocations) s.resetCursors =
      .ok () s₁ ∧ prepareOpsAndTensors env s₁ = .ok () s₂ ∧
        s' = { s₂ with state := .invokable } := by
  have hrealloc : (decide (s.state ≠ .uninvokable) && !s.hasDynamicTensor s.inputs) = false := by
    simp [hs]
  obtain ⟨_, _, hget, h⟩ := bind_eq_ok.mp h
  cases hget
  simp only [hrealloc, Bool.false_eq_true, ↓reduceIte] at h
  obtain ⟨_, _, hcursors, h⟩ := bind_eq_ok.mp h
  cases hcursors
  obtain ⟨_, s₁, hreset, h⟩ := bind_eq_ok.mp h
  obtain ⟨_, s₂, hprepare, h⟩ := bind_eq_ok.mp h
  cases h
  exact ⟨s₁, s₂, hreset, hprepare, rfl⟩

theorem allocate_sameGraph (hs : s.state = .uninvokable) (h : allocate env s = .ok () s') :
    SameGraph { s with state := .invokable } s' := by
  obtain ⟨s₁, s₂, hreset, hprepare, rfl⟩ := allocate_eq_ok hs h
  have h₁ : SameGraph s s₁ :=
    ((Keeps.onlyIf (keeps_callPlanner_stable (stable_sameGraph s) _)) s.resetCursors rfl).ok hreset
  exact ((keeps_prepareOpsAndTensors_stable (stable_sameGraph s) s₁ h₁).ok hprepare).setState _

/-- Allocation prepares and places the nodes up to the first dynamic one. -/
theorem allocate_coherent (hker : ShapeKernels env) (hs : s.Undelegated)
    (htop : s.info.Topological) (h : allocate env s = .ok () s') :
    ∃ next, Coherent { s with state := .invokable } next next next next s' := by
  obtain ⟨s₁, s₂, hreset, hprepare, rfl⟩ := allocate_eq_ok hs.state h
  have hstart : Coherent s 0 0 0 0 s.resetCursors :=
    { graph := rfl
      toPrepare := rfl
      toPlan := rfl
      planner := .inl rfl
      le := Nat.le_refl 0
      prepared := fun i hi => absurd hi (Nat.not_lt_zero i)
      covered := fun i hi => absurd hi (Nat.not_lt_zero i) }
  have h₁ : Coherent s 0 0 0 0 s₁ := by
    refine Ends.ok (Q := fun _ => Coherent s 0 0 0 0) (E := fun _ _ => True)
      (ends_onlyIf (fun _ => ?_) fun _ => hstart) hreset
    exact (hstart.callPlanner fun i hi => absurd hi (Nat.not_lt_zero i)).mono (fun _ _ => id)
      fun _ _ _ => trivial
  obtain ⟨next, h₂, -⟩ := (h₁.prepareOpsAndTensors htop hker hs.preDelegationExecutionPlan
    (.inr rfl)).ok hprepare
  exact ⟨next, { h₂ with graph := h₂.graph.setState _ }⟩

theorem keeps_invokeTimes_stable {P : Subgraph → Prop} (hP : Stable P) (n : Nat) :
    Keeps (invokeTimes env n) P := by
  induction n with
  | zero => exact keeps_pure _
  | succ n ih => exact (keeps_invokeImpl_stable hP).bind fun _ => ih

/-- Calls of `Invoke` keep what is in front of the cursors prepared and placed. -/
theorem Coherent.invokeTimes (hker : ShapeKernels env) {g : Subgraph} (htop : g.info.Topological)
    (hpre : g.preDelegationExecutionPlan = []) {next : Nat} (h : Coherent g next next next next s)
    (n : Nat) : Ends (invokeTimes env n) s
      (fun _ s' => ∃ next', Coherent g next' next' next' next' s') fun _ _ => True := by
  induction n generalizing next s with
  | zero => exact ends_pure ⟨next, h⟩
  | succ n ih =>
    have hinvoke : Ends (invokeImpl env) s
        (fun _ s' => ∃ next', Coherent g next' next' next' next' s') fun _ _ => True := by
      refine ends_get (Ends.bind (Q := fun _ s' => s' = s) (ends_ensure (fun _ => rfl) fun _ =>
        trivial) fun _ s₁ h₁ => ?_)
      subst h₁
      refine Ends.bind (Q := fun _ s' => s' = s₁) (ends_ensure (fun _ => rfl) fun _ => trivial)
        fun _ s₂ h₂ => ?_
      subst h₂
      refine (h.invokeNodes htop hker hpre (Nat.zero_le _) ?_).mono (fun _ _ h' => ?_) fun _ _ => id
      · rw [Nat.zero_add, h.graph.executionPlan]
        exact Nat.le_refl _
      · exact h'.imp fun _ => And.left
    refine Ends.bind hinvoke fun _ s₁ h₁ => ?_
    obtain ⟨next', h₁⟩ := h₁
    exact ih h₁

/-- Whenever a node is invoked, it was prepared after the last change of the shapes of its
inputs, and placed after the placements were last taken back and with the sizes of those of
its outputs that no other node produces. -/
theorem invokeUpTo_prepared_covered (hker : ShapeKernels env) (hs : s.Undelegated)
    {rounds n k : Nat} (h : invokeUpTo env rounds n k s = .ok () s') (htop : s'.info.Topological) :
    s'.PreparedForInputs s' k ∧ s'.CoveredByPlan s' s'.info.OnlyProducer k := by
  obtain ⟨_, s₁, hallocate, h⟩ := bind_eq_ok.mp h
  obtain ⟨_, s₂, hinvokes, h⟩ := bind_eq_ok.mp h
  obtain ⟨_, _, hget, h⟩ := bind_eq_ok.mp h
  cases hget
  obtain ⟨_, s₃, hconsistent, h⟩ := bind_eq_ok.mp h
  obtain ⟨_, s₄, hstate, h⟩ := bind_eq_ok.mp h
  obtain ⟨_, s₅, hindex, h⟩ := bind_eq_ok.mp h
  obtain ⟨_, s₆, hnodes, hbefore⟩ := bind_eq_ok.mp h
  obtain rfl := (ends_ensure (s := s₂) (Q := fun _ s' => s₂ = s') (E := fun _ _ => True)
    (fun _ => rfl) fun _ => trivial).ok hconsistent
  obtain rfl := (ends_ensure (s := s₂) (Q := fun _ s' => s₂ = s') (E := fun _ _ => True)
    (fun _ => rfl) fun _ => trivial).ok hstate
  obtain ⟨hk, rfl⟩ := (ends_ensure (s := s₂) (Q := fun _ s' => k < s₂.executionPlan.length ∧
    s₂ = s') (E := fun _ _ => True) (fun hk => ⟨of_decide_eq_true hk, rfl⟩)
      fun _ => trivial).ok hindex
  -- the graph that was allocated stays
  obtain ⟨g, hg, hallocate⟩ := allocateTensors_undelegated hs hallocate
  have hg₁ := allocate_sameGraph hg.state hallocate
  set g' : Subgraph := { g with state := .invokable }
  have hstable := stable_sameGraph g'
  have hg₂ := (keeps_invokeTimes_stable hstable n s₁ hg₁).ok hinvokes
  have hg₃ := (keeps_invokeNodes_stable hstable k 0 s₂ hg₂).ok hnodes
  have hinfo := ((keeps_beforeInvoke_stable hstable k s₆ hg₃).ok hbefore).info
  have htop' : g'.info.Topological := by rwa [hinfo] at htop
  have hlen : k < g'.info.numExecutionNodes := by rwa [hg₂.executionPlan] at hk
  have hpre : g'.preDelegationExecutionPlan = [] := hg.preDelegationExecutionPlan
  -- and so do the cursors
  obtain ⟨next₁, h₁⟩ := allocate_coherent hker hg htop' hallocate
  obtain ⟨next₂, h₂⟩ := (h₁.invokeTimes hker htop' hpre n).ok hinvokes
  obtain ⟨next₃, h₃, hle⟩ := (h₂.invokeNodes htop' hker hpre (Nat.zero_le _)
    (by rw [Nat.zero_add]; exact Nat.le_of_lt hlen)).ok hnodes
  obtain ⟨next₄, h₄, hlt, -⟩ := (h₃.beforeInvoke hker htop' hpre hlen (by omega)).ok hbefore
  rw [PreparedForInputs, CoveredByPlan, hinfo]
  exact ⟨h₄.prepared k hlt hlen, h₄.covered k hlt hlen⟩

end

/-! ## Small graphs -/

/-- Kernels that always do the same, as far as it is about their own outputs. -/
def Env.ofKernels (prepare invoke : Nat → List KernelCall) : Env where
  opInit _ _ := true
  opPrepare s n := ((prepare n).filter fun call =>
    decide (call.tensor ≠ kTfLiteOptionalTensor ∧ call.tensor ∈ (s.node n).outputs), .ok)
  opInvoke s i := ((invoke i).filter fun call =>
    decide (s.info.Writes i call.tensor ∧ (s.tensors call.tensor).allocationType = .dynamic), .ok)
  planner _ _ := some fun _ => true
  delegate _ := { prepare := fun _ => .done .ok }
  subgraphs := []

theorem shapeKernels_ofKernels (prepare invoke : Nat → List KernelCall) :
    ShapeKernels (.ofKernels prepare invoke) where
  prepare _ _ _ hcall := of_decide_eq_true (List.mem_filter.mp hcall).2
  invoke _ _ _ hcall := of_decide_eq_true (List.mem_filter.mp hcall).2

/-- A dynamic output and the op that reads it. -/
def dynamicChain : Subgraph := .ofNodes
  [{ inputs := [0], outputs := [1] }, { inputs := [1, -1], outputs := [2] }]

/-- The dynamic output of `dynamicChain` has its shape when it is invoked. -/
def dynamicKernels : Env := .ofKernels
  (fun n => if n = 0 then [.setTensorToDynamic 1] else [.resizeTensor 2 [2]])
  fun i => if i = 0 then [.resizeTensor 1 [2]] else []

theorem dynamicChain_prepared_covered : ∃ s', invokeUpTo dynamicKernels 0 2 1 dynamicChain =
      .ok () s' ∧ s'.PreparedForInputs s' 1 ∧ s'.CoveredByPlan s' s'.info.OnlyProducer 1 := by
  refine ⟨_, rfl, ?_⟩
  exact @invokeUpTo_prepared_covered dynamicKernels dynamicChain _ (shapeKernels_ofKernels _ _)
    ⟨rfl, rfl, rfl⟩ 0 2 _ rfl (by decide)

/-- Tensor 1 is produced in front of a dynamic output and behind it. -/
def twoWriters : Subgraph := .ofNodes
  [{ inputs := [0], outputs := [1] }, { inputs := [0], outputs := [2] },
    { inputs := [2], outputs := [1] }]

/-- The second producer of tensor 1 gives it another size. -/
def twoWritersKernels : Env := .ofKernels
  (fun n => if n = 0 then [.resizeTensor 1 [2]] else if n = 1 then [.setTensorToDynamic 2]
    else [.resizeTensor 1 [3]])
  fun i => if i = 1 then [.resizeTensor 2 [2]] else []

/-- The first producer is invoked again without a placement for the new size. -/
theorem twoWriters_not_covered : ∃ s', invokeUpTo twoWritersKernels 0 1 0 twoWriters = .ok () s' ∧
    ShapeKernels twoWritersKernels ∧ twoWriters.Undelegated ∧ s'.info.Topological ∧
      ¬ s'.CoveredByPlan s' (fun _ _ => True) 0 := by
  refine ⟨_, rfl, shapeKernels_ofKernels _ _, ⟨rfl, rfl, rfl⟩, by decide, ?_⟩
  decide

end LiteRt.Tflite
