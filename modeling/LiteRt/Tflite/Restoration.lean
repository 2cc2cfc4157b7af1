import LiteRt.Lib.Run
import LiteRt.Tflite.NodeSubsets
import LiteRt.Tflite.Kernels

/-!
# What a failed delegate leaves behind

A failed `ModifyGraphWithDelegate` should change nothing, or remove all delegates. Two exits
do neither: the one for an unmet hint comes after nodes were replaced, and redoing delegates
stops at the first one that fails.
-/

namespace LiteRt.Tflite

open LiteRt.Lib Subgraph

/-! ## The records of the delegation -/

/-- `s'` has the nodes of `s`, its plans and the records of its delegates. -/
structure Unchanged (s s' : Subgraph) : Prop where
  executionPlan : s'.executionPlan = s.executionPlan
  nodesAndRegistration : s'.nodesAndRegistration = s.nodesAndRegistration
  preDelegationExecutionPlan : s'.preDelegationExecutionPlan = s.preDelegationExecutionPlan
  delegatesApplied : s'.delegatesApplied = s.delegatesApplied
  delegatesUndone : s'.delegatesUndone = s.delegatesUndone

theorem Unchanged.refl (s : Subgraph) : Unchanged s s := ⟨rfl, rfl, rfl, rfl, rfl⟩

theorem Unchanged.trans {s s' s'' : Subgraph} (h : Unchanged s s') (h' : Unchanged s' s'') :
    Unchanged s s'' where
  executionPlan := h'.executionPlan.trans h.executionPlan
  nodesAndRegistration := h'.nodesAndRegistration.trans h.nodesAndRegistration
  preDelegationExecutionPlan := h'.preDelegationExecutionPlan.trans h.preDelegationExecutionPlan
  delegatesApplied := h'.delegatesApplied.trans h.delegatesApplied
  delegatesUndone := h'.delegatesUndone.trans h.delegatesUndone

theorem SameGraph.unchanged {s s' : Subgraph} (h : SameGraph s s') : Unchanged s s' where
  executionPlan := h.executionPlan
  nodesAndRegistration := h.nodesAndRegistration
  preDelegationExecutionPlan := h.preDelegationExecutionPlan
  delegatesApplied := h.apply Subgraph.delegatesApplied
  delegatesUndone := h.apply Subgraph.delegatesUndone

/-- What depends on the records only. -/
def OfRecords (P : Subgraph → Prop) : Prop := ∀ s s', Unchanged s s' → P s → P s'

theorem OfRecords.stable {P : Subgraph → Prop} (hP : OfRecords P) : Stable P :=
  fun s s' hg _ h => hP s s' (SameGraph.unchanged hg) h

theorem ofRecords_unchanged (g : Subgraph) : OfRecords (Unchanged g) := fun _ _ h h' => h'.trans h

/-- A call that does nothing while no delegate is undone. -/
def Idle (redo : SubgraphM Unit) : Prop := ∀ s, s.delegatesUndone = false → redo s = .ok () s

theorem idle_redoAllDelegates (env : Env) (depth : Nat) : Idle (redoAllDelegates env depth) := by
  intro s hs
  cases depth with
  | zero =>
    show ensure (!s.delegatesUndone) s = _
    rw [hs]
    rfl
  | succ depth =>
    show onlyIf (s.delegatesUndone = true) _ s = _
    rw [hs]
    rfl

section
variable {env : Env} {redo : SubgraphM Unit} {P : Subgraph → Prop} (hP : OfRecords P)

include hP

theorem keeps_modify_records {f : Subgraph → Subgraph} (hf : ∀ s, Unchanged s (f s)) :
    Keeps (modify f : SubgraphM Unit) P := keeps_modify fun s hs => hP s (f s) (hf s) hs

theorem keeps_allocate : Keeps (allocate env) P := by
  refine keeps_get fun s hs => ?_
  dsimp only
  split
  · exact ends_pure hs
  · exact ((keeps_modify_records hP fun _ => by exact ⟨rfl, rfl, rfl, rfl, rfl⟩).bind fun _ =>
      .bind (.onlyIf (keeps_callPlanner_stable hP.stable _)) fun _ =>
        (keeps_prepareOpsAndTensors_stable hP.stable).bind fun _ =>
          keeps_modify_records hP fun _ => by exact ⟨rfl, rfl, rfl, rfl, rfl⟩) s hs

theorem keeps_prepareAllOps : Keeps (prepareAllOps env) P :=
  keeps_get fun s hs => ((keeps_prepareOpsStartingAt_stable hP.stable _ _ _).bind fun _ =>
    keeps_pure _) s hs

variable (hredo : Idle redo) (hundone : ∀ s, P s → s.delegatesUndone = false)

include hredo hundone

theorem keeps_ensureMemoryAllocations : Keeps (ensureMemoryAllocations env redo) P := by
  have hidle : Keeps redo P := fun s hs => by
    rw [Ends, hredo s (hundone s hs)]
    exact hs
  refine keeps_get fun s hs => Keeps.bind (.onlyIf ?_) (fun _ => ?_) s hs
  · exact (keeps_modify_records hP fun _ => by exact ⟨rfl, rfl, rfl, rfl, rfl⟩).bind fun _ =>
      keeps_callPlanner_stable hP.stable _
  · refine Keeps.bind (keeps_get fun s hs => ?_) fun _ => keeps_get fun s hs =>
      keeps_ensure _ P s hs
    exact ((keeps_ensure _ P).bind fun _ => hidle.bind fun _ => (keeps_pure _).bind fun _ =>
      keeps_allocate hP) s hs

theorem keeps_verifyForDelegation (delegate : Delegate) :
    Keeps (verifyForDelegation env redo delegate) P := by
  refine keeps_get fun s hs => ?_
  split
  · exact keeps_modify_records hP (fun _ => by exact ⟨rfl, rfl, rfl, rfl, rfl⟩) s hs
  · refine Keeps.onlyIf ((keeps_prepareAllOps hP).bind fun _ => ?_) s hs
    exact keeps_get fun s hs => Keeps.onlyIf
      ((keeps_ensureMemoryAllocations hP hredo hundone).bind fun _ => keeps_throw _) s hs

end

/-! ## Undoing -/

namespace Subgraph

variable (s : Subgraph)

theorem foldl_updateNode {f : Subgraph → Nat → Subgraph} (hf : ∀ s n,
    ∃ nodes, f s n = { s with nodesAndRegistration := nodes }) (plan : List Nat) :
    ∃ nodes, plan.foldl f s = { s with nodesAndRegistration := nodes } := by
  induction plan generalizing s with
  | nil => exact ⟨s.nodesAndRegistration, rfl⟩
  | cons n plan ih =>
    obtain ⟨nodes, hn⟩ := hf s n
    obtain ⟨nodes', hn'⟩ := ih (f s n)
    exact ⟨nodes', by rw [List.foldl_cons, hn', hn]⟩

/-- Undoing goes back to the saved plan. -/
theorem undoAllDelegates_eq : ∃ nodes, s.undoAllDelegates = { s with
    executionPlan := s.preDelegationExecutionPlan
    preDelegationExecutionPlan := []
    nodesAndRegistration := nodes
    isDelegationSkippable := false
    state := .uninvokable
    delegatesUndone := true
    trace := s.trace ++ [.executionPlan] } := by
  obtain ⟨nodes, hclean⟩ : ∃ nodes, s.cleanupDelegateNodes =
      { s with nodesAndRegistration := nodes } := by
    refine s.foldl_updateNode (fun s n => ?_) s.executionPlan
    split
    · exact ⟨_, rfl⟩
    · exact ⟨s.nodesAndRegistration, rfl⟩
  obtain ⟨nodes', hfp16⟩ : ∃ nodes', s.cleanupDelegateNodes.restoreExecutionPlan.restoreFp16 =
      { s.cleanupDelegateNodes.restoreExecutionPlan with nodesAndRegistration := nodes' } :=
    foldl_updateNode _ (fun _ _ => ⟨_, rfl⟩) _
  exact ⟨_, by rw [undoAllDelegates, truncateNodes, hfp16, restoreExecutionPlan, hclean]; rfl⟩

/-- The plan that undoing leaves: the saved one, or the plan itself where none is saved. -/
def undelegatedPlan : List Nat :=
  if s.preDelegationExecutionPlan = [] then s.executionPlan else s.preDelegationExecutionPlan

end Subgraph

/-- What undoing does to the records. -/
theorem ends_undoAllDelegates {s : Subgraph} {Q : Subgraph → Prop} {E : TfLiteStatus → Subgraph → Prop}
    (hno : s.preDelegationExecutionPlan = [] → Q s)
    (hundo : s.preDelegationExecutionPlan ≠ [] → ∀ s',
      s'.executionPlan = s.preDelegationExecutionPlan → s'.preDelegationExecutionPlan = [] →
      s'.delegatesApplied = s.delegatesApplied → s'.delegatesUndone = true → Q s') :
    Ends undoAllDelegates s (fun _ => Q) E := by
  refine ends_get (ends_onlyIf (fun hp => ends_modify ?_) fun hp => hno (not_not.mp hp))
  obtain ⟨nodes, hs⟩ := s.undoAllDelegates_eq
  rw [hs]
  exact hundo hp _ rfl rfl rfl rfl

/-- The undelegated plan is `p`, and undoing gets back to it. -/
structure Recorded (p : List Nat) (s : Subgraph) : Prop where
  executionPlan : s.delegatesApplied = [] ∨ s.delegatesUndone = true → s.executionPlan = p
  saved : s.preDelegationExecutionPlan = p ∨
    s.preDelegationExecutionPlan = [] ∧ (s.delegatesApplied = [] ∨ s.delegatesUndone = true)
  empty : p = [] → s.executionPlan = []

/-- A delegate is being applied to a subgraph whose undelegated plan is `p`. -/
structure Applying (p : List Nat) (s : Subgraph) : Prop where
  saved : s.preDelegationExecutionPlan = p
  undone : s.delegatesUndone = false
  empty : p = [] → s.executionPlan = []

/-- No delegate is applied, and the plan is `p`. -/
structure Removed (p : List Nat) (s : Subgraph) : Prop where
  executionPlan : s.executionPlan = p
  delegatesApplied : s.delegatesApplied = []

/-- All delegates have just been removed. -/
structure Restored (p : List Nat) (s : Subgraph) : Prop extends Removed p s where
  saved : s.preDelegationExecutionPlan = []
  undone : s.delegatesUndone = false

section
variable {p : List Nat} {s s' : Subgraph}

theorem Recorded.undelegatedPlan (h : Recorded p s) : s.undelegatedPlan = p := by
  rw [Subgraph.undelegatedPlan]
  split
  · next hpre =>
    rcases h.saved with hp | ⟨-, hor⟩
    · exact (h.empty (hp.symm.trans hpre)).trans (hpre.symm.trans hp)
    · exact h.executionPlan hor
  · next hpre => exact h.saved.resolve_right fun hp => hpre hp.1

theorem Applying.undelegatedPlan (h : Applying p s) : s.undelegatedPlan = p := by
  rw [Subgraph.undelegatedPlan]
  split
  · next hpre => exact (h.empty (h.saved.symm.trans hpre)).trans (hpre.symm.trans h.saved)
  · exact h.saved

theorem Restored.recorded (h : Restored p s) : Recorded p s where
  executionPlan _ := h.executionPlan
  saved := .inr ⟨h.saved, .inl h.delegatesApplied⟩
  empty hp := h.executionPlan.trans hp

theorem Recorded.unchanged (h : Recorded p s) (hs : Unchanged s s') : Recorded p s' where
  executionPlan := by
    rw [hs.executionPlan, hs.delegatesApplied, hs.delegatesUndone]
    exact h.executionPlan
  saved := by
    rw [hs.preDelegationExecutionPlan, hs.delegatesApplied, hs.delegatesUndone]
    exact h.saved
  empty := by
    rw [hs.executionPlan]
    exact h.empty

theorem ofRecords_recorded : OfRecords (Recorded p) := fun _ _ hs h => h.unchanged hs

theorem ofRecords_applying : OfRecords (Applying p) := fun _ _ hs h =>
  { saved := hs.preDelegationExecutionPlan.trans h.saved
    undone := hs.delegatesUndone.trans h.undone
    empty := fun hp => hs.executionPlan.trans (h.empty hp) }

theorem ofRecords_restored : OfRecords (Restored p) := fun _ _ hs h =>
  { executionPlan := hs.executionPlan.trans h.executionPlan
    delegatesApplied := hs.delegatesApplied.trans h.delegatesApplied
    saved := hs.preDelegationExecutionPlan.trans h.saved
    undone := hs.delegatesUndone.trans h.undone }

end

section
variable {env : Env} {redo : SubgraphM Unit} {p : List Nat} {s : Subgraph} {x : SubgraphM Unit}

theorem removeAllDelegatesWith_restored (hredo : Idle redo) (hs : s.undelegatedPlan = p) :
    Ends (removeAllDelegatesWith env redo) s (fun _ => Restored p) fun _ => Restored p := by
  have hundo : Ends undoAllDelegates s
      (fun _ s' => s'.executionPlan = p ∧ s'.preDelegationExecutionPlan = []) fun _ => Restored p := by
    rw [Subgraph.undelegatedPlan] at hs
    refine ends_undoAllDelegates (fun hp => ?_) fun hp s' hplan hpre _ _ => ?_
    · rw [if_pos hp] at hs
      exact ⟨hs, hp⟩
    · rw [if_neg hp] at hs
      exact ⟨hplan.trans hs, hpre⟩
  refine hundo.bind fun _ s₁ h₁ => ends_modify_bind ?_
  exact keeps_ensureMemoryAllocations ofRecords_restored hredo (fun _ h => h.undone) _
    ⟨⟨h₁.1, rfl⟩, h₁.2, rfl⟩

theorem ends_resetDelegationIfNotOk (hredo : Idle redo) {Q : Unit → Subgraph → Prop}
    (hok : ∀ s', status x s = .ok .ok s' → Q () s')
    (herr : ∀ c s', status x s = .ok c s' → c ≠ .ok → s'.undelegatedPlan = p) :
    Ends (resetDelegationIfNotOk env redo x) s Q fun _ => Restored p := by
  have hstatus : Ends (status x) s (fun c s' => status x s = .ok c s') fun _ => Restored p := by
    refine ends_iff.mpr ⟨fun _ _ h => h, fun e s' h => ?_⟩
    rw [status] at h
    split at h <;> cases h
  refine hstatus.bind fun c s' h' => ends_onlyIf (fun hc => ?_) fun hc => ?_
  · exact (removeAllDelegatesWith_restored hredo (herr c s' h' hc)).bind fun _ _ h => ends_throw h
  · obtain rfl := not_not.mp hc
    exact hok s' h'

theorem ends_reset_keeps (hredo : Idle redo) (hx : Keeps x (Applying p)) (hs : Applying p s) :
    Ends (resetDelegationIfNotOk env redo x) s (fun _ => Applying p) fun _ => Restored p := by
  have hx' := (Keeps.status hx) s hs
  exact ends_resetDelegationIfNotOk hredo (fun _ h => hx'.ok h) fun _ _ h _ =>
    Applying.undelegatedPlan (hx'.ok h)

end

/-! ## Applying a delegate -/

/-- The subgraph that a delegate with the hint is prepared on. -/
def Subgraph.hinted (s : Subgraph) : Subgraph :=
  { s with
    state := if s.state = .invokableAndImmutable then .uninvokable else s.state
    preDelegationExecutionPlan :=
      if s.delegatesApplied = [] then s.executionPlan else s.preDelegationExecutionPlan }

/-- A delegate that hints at it leaves no node undelegated. -/
def HintMet (env : Env) (delegate : DelegateId) (s : Subgraph) : Prop :=
  (env.delegate delegate).hintFullyDelegatedToSingleDelegate = true →
    ∀ s', status (delegatePrepare env delegate) s.hinted = .ok .ok s' → s'.isFullyDelegated = true

/-- Or it replaces no node. -/
def HintHarmless (env : Env) (delegate : DelegateId) (s : Subgraph) : Prop :=
  (env.delegate delegate).hintFullyDelegatedToSingleDelegate = true →
    ∀ s', status (delegatePrepare env delegate) s.hinted = .ok .ok s' → s'.isFullyDelegated = true ∨
      s'.executionPlan = s.executionPlan ∧
        (s.delegatesApplied ≠ [] → s'.nodesAndRegistration = s.nodesAndRegistration)

/-- Step 1 ends well. -/
def Verifies (env : Env) (redo : SubgraphM Unit) (delegate : DelegateId) (s : Subgraph) : Prop :=
  ∀ e s', verifyForDelegation env redo (env.delegate delegate) s ≠ .error e s'

section
variable {env : Env} {redo : SubgraphM Unit} {p : List Nat} {s : Subgraph} {delegate : DelegateId}

theorem keeps_replaceNodeSubsets_nil (nodesToReplace : List Int) :
    Keeps (replaceNodeSubsetsWithDelegateKernels env nodesToReplace delegate)
      fun s => s.executionPlan = [] := by
  rw [replaceNodeSubsetsWithDelegateKernels]
  split
  · exact keeps_pure _
  · refine keeps_get fun s hs => ?_
    split
    · exact ends_throw hs
    · next subsets h =>
      have hnil : subsets = [] := by
        refine List.eq_nil_iff_forall_not_mem.mpr fun subset hsub => ?_
        obtain ⟨hne, hnodes⟩ := partitionGraph_nodes h hsub
        obtain ⟨node, hnode⟩ := List.exists_mem_of_ne_nil _ hne
        obtain ⟨i, hi, -⟩ := hnodes node hnode
        rw [info_numExecutionNodes, hs] at hi
        exact Nat.not_lt_zero i hi
      subst hnil
      exact ends_modify_bind (ends_pure rfl)

theorem keeps_delegatePrepare_nil : Keeps (delegatePrepare env delegate)
    fun s => s.executionPlan = [] := by
  have hrun (program : DelegateProgram) : Keeps (runDelegate env delegate program)
      fun s => s.executionPlan = [] := by
    induction program with
    | done status => exact .onlyIf (keeps_throw _)
    | replaceNodeSubsets nodes next ih =>
      exact (Keeps.status (keeps_replaceNodeSubsets_nil nodes)).bind fun callStatus =>
        keeps_get fun s hs => ih callStatus s s hs
    | setNodeInputs node inputs next ih =>
      refine Keeps.bind (keeps_modify fun _ hs => ?_) fun _ => keeps_get fun s hs => ih s s hs
      exact hs
  exact keeps_get fun s hs => hrun _ s hs

/-- The exit for an unmet hint. -/
structure HintUnmet (env : Env) (delegate : DelegateId) (s s' : Subgraph) : Prop where
  hint : (env.delegate delegate).hintFullyDelegatedToSingleDelegate = true
  prepared : status (delegatePrepare env delegate) s.hinted = .ok .ok s'
  undelegated : s'.isFullyDelegated = false

theorem planFree_saved : PlanFree fun s => s.preDelegationExecutionPlan = p ∧
    s.delegatesUndone = false := fun _ _ hp _ hu _ h => ⟨hp.trans h.1, hu.trans h.2⟩

theorem keeps_delegatePrepare : Keeps (delegatePrepare env delegate) (Applying p) := by
  intro s hs
  have hrecords : Keeps (delegatePrepare env delegate) fun s => s.preDelegationExecutionPlan = p ∧
      s.delegatesUndone = false :=
    keeps_get fun s hs => keeps_runDelegate planFree_saved _ _ s hs
  by_cases hp : p = []
  · exact ((hrecords s ⟨hs.saved, hs.undone⟩).and (keeps_delegatePrepare_nil s (hs.empty hp))).mono
      (fun _ _ h => ⟨h.1.1, h.1.2, fun _ => h.2⟩) fun _ _ h => ⟨h.1.1, h.1.2, fun _ => h.2⟩
  · exact (hrecords s ⟨hs.saved, hs.undone⟩).mono
      (fun _ _ h => ⟨h.1, h.2, fun hp' => absurd hp' hp⟩) fun _ _ h =>
        ⟨h.1, h.2, fun hp' => absurd hp' hp⟩

/-- Step 3 ends with the delegate in place, or without any delegate. -/
theorem settleDelegation_applying (hredo : Idle redo) (hs : Applying p s) (delegate : Delegate)
    (state : State) : Ends (settleDelegation env redo delegate state) s (fun _ => Applying p)
      fun _ => Restored p := by
  have hensure : Keeps (ensureMemoryAllocations env redo) (Applying p) :=
    keeps_ensureMemoryAllocations ofRecords_applying hredo fun _ h => h.undone
  have hstate (s : Subgraph) (hs : Applying p s) (state : State) :
      Applying p { s with state := state } := ⟨hs.saved, hs.undone, hs.empty⟩
  rw [settleDelegation]
  split
  · refine Ends.bind (Q := fun _ => Applying p) (ends_onlyIf (fun _ => ?_) fun _ => hs)
      fun _ s₁ h₁ => ends_modify (hstate s₁ h₁ _)
    exact ends_modify_bind (ends_reset_keeps hredo hensure (hstate s hs _))
  · split
    · refine (ends_reset_keeps hredo (keeps_prepareAllOps ofRecords_applying) hs).bind
        fun _ s₁ h₁ => ends_get (Ends.bind (Q := fun _ => Applying p)
          (ends_onlyIf (fun _ => ?_) fun _ => h₁) fun _ s₂ h₂ => ?_)
      · exact (removeAllDelegatesWith_restored hredo h₁.undelegatedPlan).bind
          fun _ _ h => ends_throw h
      · exact (ends_reset_keeps hredo hensure h₂).bind fun _ s₃ h₃ => ends_modify (hstate s₃ h₃ _)
    · exact ends_onlyIf (fun _ => ends_reset_keeps hredo hensure hs) fun _ => hs

/-- The plan is saved for the first delegate. -/
theorem Recorded.applying (h : Recorded p s) (hundone : s.delegatesUndone = false) : Applying p
    { s with preDelegationExecutionPlan :=
      if s.delegatesApplied = [] then s.executionPlan else s.preDelegationExecutionPlan } where
  saved := by
    dsimp only
    split
    · next ha => exact h.executionPlan (.inl ha)
    · next ha => exact h.saved.resolve_right fun hor => hor.2.elim ha (by simp [hundone])
  undone := hundone
  empty := h.empty

/-- Step 2 ends with the delegate in place, without any delegate, or at the hint. -/
theorem applyDelegate_applying (hredo : Idle redo) (h : Recorded p s)
    (hundone : s.delegatesUndone = false) : Ends (applyDelegate env redo delegate) s
      (fun _ => Applying p) fun _ s' => Restored p s' ∨
        (env.delegate delegate).hintFullyDelegatedToSingleDelegate = true ∧
          status (delegatePrepare env delegate) { s with preDelegationExecutionPlan :=
            if s.delegatesApplied = [] then s.executionPlan else s.preDelegationExecutionPlan } =
              .ok .ok s' ∧ s'.isFullyDelegated = false := by
  refine ends_modify_bind ?_
  have hs := h.applying hundone
  set s₁ : Subgraph := { s with preDelegationExecutionPlan :=
    if s.delegatesApplied = [] then s.executionPlan else s.preDelegationExecutionPlan }
  have hkeeps : Keeps (delegatePrepare env delegate) (Applying p) := keeps_delegatePrepare
  have hprepare := Keeps.status hkeeps s₁ hs
  have hreset : Ends (resetDelegationIfNotOk env redo (delegatePrepare env delegate)) s₁
      (fun _ s' => Applying p s' ∧ status (delegatePrepare env delegate) s₁ = .ok .ok s')
      fun _ => Restored p :=
    ends_resetDelegationIfNotOk hredo (fun _ h => ⟨hprepare.ok h, h⟩) fun _ _ h _ =>
      Applying.undelegatedPlan (hprepare.ok h)
  refine (hreset.mono (fun _ _ => id) fun _ _ => .inl).bind fun _ s₂ h₂ =>
    ends_get (ends_onlyIf (fun hc => ends_throw (.inr ?_)) fun _ => h₂.1)
  rw [Bool.and_eq_true, Bool.not_eq_true'] at hc
  exact ⟨hc.1, h₂.2, hc.2⟩

theorem verifyForDelegation_hint
    (hint : (env.delegate delegate).hintFullyDelegatedToSingleDelegate = true) :
    verifyForDelegation env redo (env.delegate delegate) s = .ok () { s with
      state := if s.state = .invokableAndImmutable then .uninvokable else s.state } := by
  show (if s.state = .invokableAndImmutable then _ else _ : SubgraphM Unit) s = _
  split
  · rfl
  · rw [hint, Bool.not_true, Bool.and_false]
    rfl

/-- How one delegate that is not undone is applied. -/
theorem modifyGraphWithDelegateImpl_recorded (hredo : Idle redo) (h : Recorded p s)
    (hundone : s.delegatesUndone = false) :
    Ends (modifyGraphWithDelegateImpl env redo (some delegate)) s
      (fun _ s' => Recorded p s' ∧ s'.delegatesUndone = false) fun _ s' => Restored p s' ∨
        Unchanged s s' ∧ ¬ Verifies env redo delegate s ∨ HintUnmet env delegate s s' := by
  have hidle : Ends redo s (fun _ s' => s' = s) fun _ _ => False := by
    rw [Ends, hredo s hundone]
  refine Ends.bind (hidle.mono (fun _ _ => id) fun _ _ => False.elim) fun _ s₁ h₁ => ends_get ?_
  subst h₁
  have hverify : Ends (verifyForDelegation env redo (env.delegate delegate)) s₁
      (fun _ s' => Unchanged s₁ s' ∧ verifyForDelegation env redo (env.delegate delegate) s₁ =
        .ok () s') fun _ s' => Unchanged s₁ s' ∧ ¬ Verifies env redo delegate s₁ := by
    have hkeeps : Keeps (verifyForDelegation env redo (env.delegate delegate)) (Unchanged s₁) :=
      keeps_verifyForDelegation (ofRecords_unchanged s₁) hredo
        (fun s hs => hs.delegatesUndone.trans hundone) _
    replace hkeeps := hkeeps s₁ (.refl s₁)
    exact ends_iff.mpr ⟨fun _ s' h => ⟨hkeeps.ok h, h⟩, fun e s' h =>
      ⟨hkeeps.error h, fun hv => hv e s' h⟩⟩
  refine Ends.bind (hverify.mono (fun _ _ => id) fun _ _ h => .inr (.inl h)) fun _ s₂ h₂ => ?_
  have happly := @applyDelegate_applying env redo p s₂ delegate hredo (h.unchanged h₂.1)
    (h₂.1.delegatesUndone.trans hundone)
  refine Ends.bind (happly.mono (fun _ _ => id) fun _ s' h' => ?_) fun _ s₃ h₃ => ?_
  · refine h'.imp_right fun hunmet => .inr ?_
    obtain ⟨hint, hprepared, hnot⟩ := hunmet
    refine ⟨hint, ?_, hnot⟩
    obtain rfl : { s₁ with state := if s₁.state = .invokableAndImmutable then .uninvokable
        else s₁.state } = s₂ := by
      have hok := h₂.2
      rw [verifyForDelegation_hint hint] at hok
      cases hok
      rfl
    exact hprepared
  · refine Ends.bind ((settleDelegation_applying hredo h₃ _ _).mono (fun _ _ => id) fun _ _ => .inl)
      fun _ s₄ h₄ => ends_modify ⟨{ executionPlan := ?_, saved := .inl h₄.saved, empty := h₄.empty },
        h₄.undone⟩
    rintro (ha | hu)
    · simp at ha
    · rw [h₄.undone] at hu
      cases hu

/-- What an unmet hint leaves where it replaced no node. -/
theorem HintUnmet.recorded {s' : Subgraph} (h : HintUnmet env delegate s s')
    (hharmless : HintHarmless env delegate s) (hs : Recorded p s)
    (hundone : s.delegatesUndone = false) :
    Recorded p s' ∧ (Unchanged s s' ∨ s'.delegatesApplied = []) := by
  obtain ⟨hplan, hnodes⟩ := (hharmless h.hint s' h.prepared).resolve_left (by simp [h.undelegated])
  have hfields : PlanFree fun s'' => s''.preDelegationExecutionPlan =
      s.hinted.preDelegationExecutionPlan ∧ s''.delegatesApplied = s.delegatesApplied ∧
      s''.delegatesUndone = s.delegatesUndone := fun _ _ hp ha hu _ h =>
    ⟨hp.trans h.1, ha.trans h.2.1, hu.trans h.2.2⟩
  have hkeeps := keeps_get fun s hs =>
    @keeps_runDelegate env _ hfields delegate ((env.delegate delegate).prepare s) s hs
  obtain ⟨hpre, happlied, hundone'⟩ := (Keeps.status hkeeps s.hinted ⟨rfl, rfl, rfl⟩).ok h.prepared
  have hsaved := (hs.applying hundone).saved
  refine ⟨⟨fun hor => hplan.trans (hs.executionPlan ?_), .inl (hpre.trans hsaved),
    fun hp => hplan.trans (hs.empty hp)⟩, ?_⟩
  · rwa [happlied, hundone'] at hor
  · by_cases ha : s.delegatesApplied = []
    · exact .inr (happlied.trans ha)
    · refine .inl ⟨hplan, hnodes ha, ?_, happlied, hundone'⟩
      rw [hpre, Subgraph.hinted, if_neg ha]

theorem HintMet.not_unmet (h : HintMet env delegate s) (s' : Subgraph) :
    ¬ HintUnmet env delegate s s' := fun hu => by
  have := h hu.hint s' hu.prepared
  rw [hu.undelegated] at this
  cases this

/-! ## Redoing delegates -/

/-- Where a redone delegate is not the first one, it must not fail without a reset. -/
structure Reapplies (env : Env) (redo : SubgraphM Unit) (delegate : DelegateId) (s : Subgraph) :
    Prop where
  hint : HintHarmless env delegate s
  later : s.delegatesApplied ≠ [] → HintMet env delegate s ∧ Verifies env redo delegate s

/-- So do all of them, one after the other. -/
def ReappliesAll (env : Env) (redo : SubgraphM Unit) : List DelegateId → Subgraph → Prop
  | [], _ => True
  | delegate :: delegates, s => Reapplies env redo delegate s ∧
      ∀ s', modifyGraphWithDelegateImpl env redo (some delegate) s = .ok () s' →
        ReappliesAll env redo delegates s'

/-- Delegates that are undone can be redone. -/
def Redoable (env : Env) (s : Subgraph) : Prop := s.delegatesUndone = true →
  ReappliesAll env (redoAllDelegates env 0) s.delegatesApplied
    { s with delegatesUndone := false, delegatesApplied := [] }

theorem Reapplies.ends (hredo : Idle redo) (hre : Reapplies env redo delegate s)
    (h : Recorded p s) (hundone : s.delegatesUndone = false) :
    Ends (modifyGraphWithDelegateImpl env redo (some delegate)) s
      (fun _ s' => Recorded p s' ∧ s'.delegatesUndone = false)
      fun _ s' => Recorded p s' ∧ s'.delegatesApplied = [] := by
  refine (modifyGraphWithDelegateImpl_recorded hredo h hundone).mono (fun _ _ => id)
    fun _ s' h' => ?_
  rcases h' with h' | ⟨hs', hverify⟩ | hunmet
  · exact ⟨h'.recorded, h'.delegatesApplied⟩
  · -- only the first delegate may fail to be verified
    have ha : s.delegatesApplied = [] := by
      by_contra ha
      exact hverify (hre.later ha).2
    exact ⟨h.unchanged hs', hs'.delegatesApplied.trans ha⟩
  · obtain ⟨h', hor⟩ := hunmet.recorded hre.hint h hundone
    have ha : s.delegatesApplied = [] := by
      by_contra ha
      exact (hre.later ha).1.not_unmet s' hunmet
    exact ⟨h', hor.elim (fun hs' => hs'.delegatesApplied.trans ha) id⟩

theorem ReappliesAll.ends (hredo : Idle redo) {delegates : List DelegateId}
    (hre : ReappliesAll env redo delegates s) (h : Recorded p s)
    (hundone : s.delegatesUndone = false) : Ends (modifyGraphWithDelegates env redo delegates) s
      (fun _ s' => Recorded p s' ∧ s'.delegatesUndone = false)
      fun _ s' => Recorded p s' ∧ s'.delegatesApplied = [] := by
  induction delegates generalizing s with
  | nil => exact ends_pure ⟨h, hundone⟩
  | cons delegate delegates ih =>
    have hstep := hre.1.ends hredo h hundone
    have hstep' : Ends (modifyGraphWithDelegateImpl env redo (some delegate)) s
        (fun _ s' => (Recorded p s' ∧ s'.delegatesUndone = false) ∧
          ReappliesAll env redo delegates s')
        fun _ s' => Recorded p s' ∧ s'.delegatesApplied = [] :=
      ends_iff.mpr ⟨fun _ s' h => ⟨hstep.ok h, hre.2 s' h⟩, fun _ _ h => hstep.error h⟩
    exact hstep'.bind fun _ s' h' => ih h'.2 h'.1.1 h'.1.2

theorem Redoable.ends (hre : Redoable env s) (h : Recorded p s) :
    Ends (redoAllDelegates env 1) s (fun _ s' => Recorded p s' ∧ s'.delegatesUndone = false)
      fun _ s' => Recorded p s' ∧ s'.delegatesApplied = [] := by
  refine ends_get (ends_onlyIf (fun hu => ends_modify_bind ?_) fun hu => ?_)
  · refine (hre hu).ends (idle_redoAllDelegates env 0) ?_ rfl
    exact { executionPlan := fun _ => h.executionPlan (.inr hu)
            saved := h.saved.imp_right fun hp => ⟨hp.1, .inl rfl⟩
            empty := h.empty }
  · exact ⟨h, by simpa using hu⟩

end

/-! ## Runs of calls -/

def inlineRound (env : Env) (composites : List Nat) : SubgraphM Unit := do
  undoAllDelegates
  let s ← get
  inlineNodes env composites s.executionPlan.length 0

/-- In every round of inlining the delegates can be redone. -/
def InliningRedoable (env : Env) : Nat → Subgraph → Prop
  | 0, _ => True
  | rounds + 1, s => s.compositeNodes ≠ [] →
    ∀ s₁, inlineRound env s.compositeNodes s = .ok () s₁ → Redoable env s₁ ∧
      ∀ s₂, redoAllDelegates env 1 s₁ = .ok () s₂ → InliningRedoable env rounds s₂

/-- `AllocateTensors` inlines composite nodes. -/
def Subgraph.inlines (s : Subgraph) (env : Env) : Bool :=
  match redoAllDelegates env 1 s with
  | .ok _ s' => s'.shloCompositeInlining && !s'.isDelegationSkippable && !s'.isFullyDelegated
  | .error _ _ => false

/-- The call does not fail at a hint after nodes were replaced, nor between delegates that
are being redone. -/
def Call.Restores (env : Env) (rounds : Nat) (s : Subgraph) : Call → Prop
  | .allocateTensors => Redoable env s ∧ (s.inlines env = true →
      ∀ s', redoAllDelegates env 1 s = .ok () s' → InliningRedoable env rounds s')
  | .modifyGraphWithDelegate (some delegate) => Redoable env s ∧
      ∀ s', redoAllDelegates env 1 s = .ok () s' → HintHarmless env delegate s' ∧
        (s.delegatesUndone = true → Reapplies env (redoAllDelegates env 1) delegate s')
  | _ => True

/-- A subgraph, and the plan that it has without delegates: only inlining changes that. -/
structure Planned where
  subgraph : Subgraph
  plan : List Nat

/-- The state that a call leads to, whether it fails or not. -/
def Planned.step (env : Env) (rounds : Nat) (s : Planned) (call : Call) : Option Planned :=
  let s' := after (call.run env rounds) s.subgraph
  some { subgraph := s', plan :=
    if call = .allocateTensors ∧ s.subgraph.inlines env = true then s'.undelegatedPlan else s.plan }

section
variable {env : Env} {p : List Nat} {s : Subgraph} {rounds : Nat}

theorem Recorded.undo (h : Recorded p s) {Q : Subgraph → Prop} {E : TfLiteStatus → Subgraph → Prop}
    (hno : s.preDelegationExecutionPlan = [] → Q s)
    (hundo : ∀ s', s'.executionPlan = p → s'.preDelegationExecutionPlan = [] →
      s'.delegatesUndone = true → Q s') : Ends undoAllDelegates s (fun _ => Q) E := by
  refine ends_undoAllDelegates hno fun hp s' hplan hpre _ hu => hundo s' ?_ hpre hu
  exact hplan.trans (h.saved.resolve_right fun hor => hp hor.1)

theorem Recorded.resizeInputTensor (h : Recorded p s) (t : TensorIndex) (dims : List Int) :
    Ends (resizeInputTensor t dims) s (fun _ => Recorded p) fun _ => Recorded p := by
  refine ends_get ?_
  dsimp only
  refine (keeps_ensure _ _ s h).bind fun _ s₁ h₁ => (keeps_ensure _ _ s₁ h₁).bind fun _ s₂ h₂ => ?_
  split
  · exact ends_pure h₂
  · refine Ends.bind (Q := fun _ => Recorded p) (ends_onlyIf (fun _ => ?_) fun _ => h₂)
      fun _ s₃ h₃ => ends_modify_bind ?_
    · exact h₂.undo (fun _ => h₂) fun s' hplan hpre hu =>
        ⟨fun _ => hplan, .inr ⟨hpre, .inr hu⟩, hplan.trans⟩
    · have h₄ : Recorded p { s₃ with state := .uninvokable } :=
        ⟨h₃.executionPlan, h₃.saved, h₃.empty⟩
      have hdone (s' : Subgraph) (h' : Reshaped (fun _ => True) { s₃ with state := .uninvokable } s') :
          Recorded p s' := h₄.unchanged h'.graph.unchanged
      exact (keeps_resizeTensorImpl trivial dims _ (.refl _)).mono (fun _ => hdone) fun _ => hdone

/-- A round of inlining starts from the plan without delegates, and changes it. -/
theorem Recorded.inlineRound (h : Recorded p s) (hcomp : s.compositeNodes ≠ []) :
    Ends (inlineRound env s.compositeNodes) s (fun _ s' => ∃ p', Recorded p' s')
      fun _ s' => ∃ p', Recorded p' s' := by
  have hne : p ≠ [] := fun hp => hcomp (by rw [compositeNodes, h.empty hp]; rfl)
  let Undelegated (s : Subgraph) := s.preDelegationExecutionPlan = [] ∧
    (s.delegatesApplied = [] ∨ s.delegatesUndone = true)
  have hfree : PlanFree Undelegated := fun _ _ hp ha hu _ h => by
    dsimp only [Undelegated]
    rwa [hp, ha, hu]
  have hrecorded (s' : Subgraph) (h' : Undelegated s') : ∃ p', Recorded p' s' :=
    ⟨s'.executionPlan, fun _ => rfl, .inr h', id⟩
  refine Ends.bind (Q := fun _ => Undelegated) (h.undo (fun hpre => ?_) fun s' _ hpre hu =>
    ⟨hpre, .inr hu⟩) fun _ s₁ h₁ => ?_
  · exact h.saved.resolve_left fun hp => hne (hp.symm.trans hpre)
  · exact ends_get ((keeps_inlineNodes hfree _ _ _ s₁ h₁).mono (fun _ => hrecorded)
      fun _ => hrecorded)

theorem inlineRound_bind (composites : List Nat) (x : SubgraphM Unit) :
    (do undoAllDelegates
        let s ← get
        inlineNodes env composites s.executionPlan.length 0
        x) = (do Tflite.inlineRound env composites; x) := by
  simp only [Tflite.inlineRound, bind_assoc]

theorem Recorded.inlineCompositeNodes (h : Recorded p s) (hin : InliningRedoable env rounds s) :
    Ends (inlineCompositeNodes env (redoAllDelegates env 1) rounds) s
      (fun _ s' => ∃ p', Recorded p' s') fun _ s' => ∃ p', Recorded p' s' := by
  induction rounds generalizing p s with
  | zero => exact ends_get (keeps_ensure _ _ s ⟨p, h⟩)
  | succ rounds ih =>
    refine ends_get (ends_onlyIf (fun hcomp => ?_) fun _ => ⟨p, h⟩)
    rw [inlineRound_bind]
    have hround := @Recorded.inlineRound env p s h hcomp
    have hround' : Ends (Tflite.inlineRound env s.compositeNodes) s
        (fun _ s' => (∃ p', Recorded p' s') ∧ Tflite.inlineRound env s.compositeNodes s = .ok () s')
        fun _ s' => ∃ p', Recorded p' s' :=
      ends_iff.mpr ⟨fun _ s' h => ⟨hround.ok h, h⟩, fun _ _ h => hround.error h⟩
    refine hround'.bind fun _ s₁ h₁ => ?_
    obtain ⟨⟨p₁, h₁⟩, hs₁⟩ := h₁
    obtain ⟨hre, hin⟩ := hin hcomp s₁ hs₁
    have hredo := hre.ends h₁
    have hredo' : Ends (redoAllDelegates env 1) s₁
        (fun _ s' => Recorded p₁ s' ∧ InliningRedoable env rounds s')
        fun _ s' => ∃ p', Recorded p' s' :=
      ends_iff.mpr ⟨fun _ s' h => ⟨(hredo.ok h).1, hin s' h⟩, fun _ _ h => ⟨p₁, (hredo.error h).1⟩⟩
    exact hredo'.bind fun _ s₂ h₂ => ih h₂.1 h₂.2

theorem Recorded.allocateTensors (h : Recorded p s)
    (hsafe : Call.Restores env rounds s .allocateTensors) : Ends (allocateTensors env rounds) s
      (fun _ s' => if s.inlines env = true then ∃ p', Recorded p' s' else Recorded p s')
      fun _ s' => if s.inlines env = true then ∃ p', Recorded p' s' else Recorded p s' := by
  have hweaken (s' : Subgraph) (h' : Recorded p s') :
      if s.inlines env = true then ∃ p', Recorded p' s' else Recorded p s' := by
    split
    · exact ⟨p, h'⟩
    · exact h'
  have hrecords : OfRecords fun s' =>
      if s.inlines env = true then ∃ p', Recorded p' s' else Recorded p s' := fun s₁ s₂ hs h => by
    dsimp only at h ⊢
    split at h
    · next hin =>
      rw [if_pos hin]
      exact h.imp fun p' h => h.unchanged hs
    · next hin =>
      rw [if_neg hin]
      exact h.unchanged hs
  have hredo := hsafe.1.ends h
  have hredo' : Ends (redoAllDelegates env 1) s
      (fun _ s' => Recorded p s' ∧ redoAllDelegates env 1 s = .ok () s')
      fun _ s' => if s.inlines env = true then ∃ p', Recorded p' s' else Recorded p s' :=
    ends_iff.mpr ⟨fun _ s' h => ⟨(hredo.ok h).1, h⟩, fun _ _ h => hweaken _ (hredo.error h).1⟩
  refine ends_get (Ends.bind (Q := fun _ s' => s' = s)
    (ends_ensure (fun _ => rfl) fun _ => hweaken s h) fun _ s₁ h₁ => ?_)
  subst h₁
  refine hredo'.bind fun _ s₂ h₂ => ?_
  refine Ends.bind ?_ fun _ s₃ h₃ => keeps_allocate hrecords s₃ h₃
  refine ends_get (ends_onlyIf (fun hin => ?_) fun _ => hweaken s₂ h₂.1)
  have hinlines : s₁.inlines env = true := by rwa [inlines, h₂.2]
  have := h₂.1.inlineCompositeNodes (hsafe.2 hinlines s₂ h₂.2)
  simpa only [if_pos hinlines] using this

theorem modifyGraphWithDelegateImpl_redone {redo : SubgraphM Unit} {s s' : Subgraph}
    {delegate : DelegateId} (h : redo s = .ok () s') (h' : redo s' = .ok () s') :
    modifyGraphWithDelegateImpl env redo (some delegate) s =
      modifyGraphWithDelegateImpl env redo (some delegate) s' := by
  show EStateM.bind redo _ s = EStateM.bind redo _ s'
  rw [EStateM.bind, EStateM.bind, h, h']

/-- What `ModifyGraphWithDelegate` leaves behind. -/
theorem Recorded.modifyGraphWithDelegate (h : Recorded p s) {delegate : Option DelegateId}
    (hsafe : Call.Restores env rounds s (.modifyGraphWithDelegate delegate)) :
    Ends (modifyGraphWithDelegate env delegate) s (fun _ => Recorded p) fun _ s' =>
      Recorded p s' ∧ (Unchanged s s' ∨ s'.delegatesApplied = []) := by
  cases delegate with
  | none => exact ends_throw ⟨h, .inl (.refl s)⟩
  | some delegate =>
    obtain ⟨hre, hmodify⟩ := hsafe
    have hredo := hre.ends h
    have hidle := idle_redoAllDelegates env 1
    cases hr : redoAllDelegates env 1 s with
    | error e s' =>
      have hs : Tflite.modifyGraphWithDelegate env (some delegate) s = .error e s' := by
        show EStateM.bind (redoAllDelegates env 1) _ s = _
        rw [EStateM.bind, hr]
      rw [Ends, hs]
      exact ⟨(hredo.error hr).1, .inr (hredo.error hr).2⟩
    | ok _ s' =>
      obtain ⟨h', hundone⟩ := hredo.ok hr
      rw [Ends, Tflite.modifyGraphWithDelegate,
        modifyGraphWithDelegateImpl_redone hr (hidle s' hundone), ← Ends]
      obtain ⟨hhint, hre'⟩ := hmodify s' hr
      by_cases hu : s.delegatesUndone = true
      · exact ((hre' hu).ends hidle h' hundone).mono (fun _ _ h => h.1) fun _ _ h => ⟨h.1, .inr h.2⟩
      · obtain rfl : s' = s := by
          rw [hidle s (by simpa using hu)] at hr
          cases hr
          rfl
        refine (modifyGraphWithDelegateImpl_recorded hidle h' hundone).mono (fun _ _ h => h.1)
          fun _ s'' h'' => ?_
        rcases h'' with h'' | ⟨hs'', -⟩ | hunmet
        · exact ⟨h''.recorded, .inr h''.delegatesApplied⟩
        · exact ⟨h'.unchanged hs'', .inl hs''⟩
        · exact hunmet.recorded hhint h' hundone

theorem Recorded.removeAllDelegates (h : Recorded p s) :
    Ends (removeAllDelegates env) s (fun _ => Restored p) fun _ => Restored p :=
  removeAllDelegatesWith_restored (idle_redoAllDelegates env 1) h.undelegatedPlan

/-- Every call keeps the records of the delegation. -/
theorem Recorded.step {s s' : Planned} {call : Call} (h : Recorded s.plan s.subgraph)
    (hsafe : call.Restores env rounds s.subgraph) (hs : s.step env rounds call = some s') :
    Recorded s'.plan s'.subgraph := by
  cases hs
  cases call with
  | allocateTensors =>
    have h' := (h.allocateTensors hsafe).after
    dsimp only [Call.run]
    by_cases hin : s.subgraph.inlines env = true
    · rw [if_pos hin] at h'
      obtain ⟨p', h'⟩ := h'
      rw [if_pos ⟨rfl, hin⟩, h'.undelegatedPlan]
      exact h'
    · rw [if_neg hin] at h'
      rwa [if_neg fun hc => hin hc.2]
  | resizeInputTensor t dims => exact (h.resizeInputTensor t dims).after
  | modifyGraphWithDelegate delegate =>
    exact ((h.modifyGraphWithDelegate hsafe).mono (fun _ _ => id) fun _ _ h => h.1).after
  | removeAllDelegates =>
    exact (h.removeAllDelegates.mono (fun _ _ h => h.recorded) fun _ _ h => h.recorded).after
  | invoke => exact (keeps_invokeImpl_stable ofRecords_recorded.stable _ h).after

/-- In a run of calls, a failed `ModifyGraphWithDelegate` changes nothing or removes all
delegates, and removing all delegates always gets back to the undelegated plan. -/
theorem modifyGraphWithDelegate_restores {s₀ : Subgraph} (hs₀ : s₀.delegatesApplied = [])
    (hsaved : s₀.preDelegationExecutionPlan = []) {calls : List Call} {s : Planned}
    (run : Run (fun s call => call.Restores env rounds s.subgraph) (Planned.step env rounds)
      ⟨s₀, s₀.executionPlan⟩ calls s) :
    (∀ delegate, Call.Restores env rounds s.subgraph (.modifyGraphWithDelegate delegate) →
      ∀ e s', modifyGraphWithDelegate env delegate s.subgraph = .error e s' →
        Unchanged s.subgraph s' ∨ Removed s.plan s') ∧
    Removed s.plan (after (removeAllDelegates env) s.subgraph) := by
  have h : Recorded s.plan s.subgraph := by
    refine run.invariant (P := fun s => Recorded s.plan s.subgraph)
      (fun s call s' hsafe hs h => h.step hsafe hs) ?_
    exact ⟨fun _ => rfl, .inr ⟨hsaved, .inl hs₀⟩, id⟩
  refine ⟨fun delegate hsafe e s' herr => ?_, ?_⟩
  · obtain ⟨h', hor⟩ := (h.modifyGraphWithDelegate hsafe).error herr
    exact hor.imp_right fun ha => ⟨h'.executionPlan (.inl ha), ha⟩
  · exact (h.removeAllDelegates.mono (fun _ _ h => h.toRemoved) fun _ _ h => h.toRemoved).after

end

def twoOps : Subgraph := .ofNodes
  [{ inputs := [0], outputs := [1] }, { inputs := [1], outputs := [2] }]

/-- The second delegate fails after it has replaced a node. -/
def failingSecond : Env := .ofDelegates [.replacing [0],
  { prepare := fun _ => .replaceNodeSubsets [1] fun _ _ => .done .error }]

theorem failingSecond_restores : ∃ s, Planned.step failingSecond 0 ⟨twoOps, [0, 1]⟩
      (.modifyGraphWithDelegate (some 0)) = some s ∧ s.subgraph.executionPlan = [2, 1] ∧
    (∀ e s', modifyGraphWithDelegate failingSecond (some 1) s.subgraph = .error e s' →
      Unchanged s.subgraph s' ∨ Removed s.plan s') ∧
    Removed s.plan (after (removeAllDelegates failingSecond) s.subgraph) := by
  have hsafe (d : DelegateId) (s : Subgraph) (hs : s.delegatesUndone = false)
      (hd : (failingSecond.delegate d).hintFullyDelegatedToSingleDelegate = false) :
      Call.Restores failingSecond 0 s (.modifyGraphWithDelegate (some d)) := by
    refine ⟨fun hu => absurd hu (by simp [hs]), fun s' hs' => ⟨fun hint => ?_, fun hu => ?_⟩⟩
    · exact absurd hint (by simp [hd])
    · exact absurd hu (by simp [hs])
  refine ⟨_, rfl, rfl, ?_⟩
  have h := @modifyGraphWithDelegate_restores failingSecond 0 twoOps rfl rfl _ _
    (.single (hsafe 0 _ rfl rfl) rfl)
  exact ⟨h.1 (some 1) (hsafe 1 _ rfl rfl), h.2⟩

/-- The first delegate hints that it takes all nodes, and replaces one. -/
def unmetHint : Env := .ofDelegates
  [{ Delegate.replacing [0] with hintFullyDelegatedToSingleDelegate := true },
    { allowDynamicTensors := true, prepare := fun _ => .done .ok }]

/-- Its kernel stays in the plan, and the next delegate saves that plan. -/
theorem unmetHint_not_restored : ∃ s' s'',
    modifyGraphWithDelegate unmetHint (some 0) twoOps = .error .applicationError s' ∧
    ¬ Unchanged twoOps s' ∧ ¬ Removed [0, 1] s' ∧
    modifyGraphWithDelegate unmetHint (some 1) s' = .ok () s'' ∧
    ¬ Removed [0, 1] (after (removeAllDelegates unmetHint) s'') := by
  refine ⟨_, _, rfl, fun h => ?_, fun h => ?_, rfl, fun h => ?_⟩
  · exact absurd h.executionPlan (by decide)
  · exact absurd h.executionPlan (by decide)
  · exact absurd h.executionPlan (by decide)

end LiteRt.Tflite
