import LiteRt.Lib.Outcome

/-!
# Locking a tensor buffer

A flag says whether the buffer is locked. Some types lock a backend as well; for these the
calls that the backend has carried out are kept in the state.
-/

namespace LiteRt.TensorBuffer

open LiteRt.Lib

/-- The OpenCL, WebGPU and Vulkan memory objects. -/
inductive GpuMemory
  | buffer
  | bufferFp16
  | texture
  | textureFp16
  | imageBuffer
  | imageBufferFp16
  | bufferPacked
  deriving DecidableEq, Repr

inductive MetalMemory
  | buffer
  | bufferFp16
  | bufferPacked
  | texture
  | textureFp16
  deriving DecidableEq, Repr

inductive BufferType
  | unknown
  | hostMemory
  | ahwb
  | ion
  | dmaBuf
  | fastRpc
  | glBuffer
  | glTexture
  | openCl (memory : GpuMemory)
  | webGpu (memory : GpuMemory)
  | metal (memory : MetalMemory)
  | vulkan (memory : GpuMemory)
  /-- A number from 100 to 199. -/
  | userCustom (i : Fin 100)
  /-- Any other number. -/
  | reserved (value : Int)
  deriving DecidableEq, Repr

/-- What the library is built with. -/
structure Support where
  ahwb : Bool
  openCl : Bool
  openGl : Bool

inductive Call
  | lock
  | unlock
  deriving DecidableEq, Repr

/-- How what a call asks for ends. -/
structure Outcomes where
  /-- Waiting for the event, if one is attached. -/
  wait : Option Bool := none
  /-- Fetching the backing memory. -/
  fetch : Bool := true
  /-- The backend's own lock or unlock. -/
  backend : Bool := true
  deriving DecidableEq, Repr

inductive Failure
  | status
  /-- The process is aborted. -/
  | abort
  deriving DecidableEq, Repr

structure State where
  isLocked : Bool := false
  /-- The successful calls of the backend, the first one first. -/
  backendCalls : List Call := []
  deriving DecidableEq, Repr

def orReturn (success : Bool) : EStateM Failure State Unit :=
  if success then pure () else throw .status

def orAbort (success : Bool) : EStateM Failure State Unit :=
  if success then pure () else throw .abort

def callBackend (call : Call) (success : Bool) : EStateM Failure State Unit := do
  orReturn success
  modify fun s => { s with backendCalls := s.backendCalls ++ [call] }

/-- The `switch` of `Lock`. -/
def lockMemory (support : Support) (o : Outcomes) : BufferType → EStateM Failure State Unit
  | .hostMemory | .ion | .dmaBuf | .fastRpc => orAbort o.fetch
  | .ahwb =>
    if support.ahwb then do
      orAbort o.fetch
      callBackend .lock o.backend
    else throw .status
  | .openCl _ =>
    if support.openCl then do
      orAbort o.fetch
      callBackend .lock o.backend
    else throw .status
  | .glBuffer =>
    if support.openGl then do
      orReturn o.fetch
      callBackend .lock o.backend
    else throw .status
  | .webGpu _ | .metal _ | .vulkan _ | .userCustom _ => do
    orReturn o.fetch
    callBackend .lock o.backend
  | .glTexture | .unknown | .reserved _ => throw .status

def lock (support : Support) (bufferType : BufferType) (o : Outcomes) :
    EStateM Failure State Unit := do
  orReturn !(← get).isLocked
  modify fun s => { s with isLocked := true }
  -- Only AHWB hands the event to its backend.
  orReturn (bufferType = .ahwb || o.wait.getD true)
  lockMemory support o bufferType

/-- The `switch` of `Unlock`. -/
def unlockMemory (support : Support) (o : Outcomes) : BufferType → EStateM Failure State Unit
  | .ahwb => if support.ahwb then callBackend .unlock o.backend else pure ()
  | .openCl _ =>
    if support.openCl then do
      orReturn o.fetch
      callBackend .unlock o.backend
    else throw .status
  | .glBuffer =>
    if support.openGl then do
      orReturn o.fetch
      callBackend .unlock o.backend
    else throw .status
  | .webGpu _ | .metal _ | .vulkan _ | .userCustom _ => do
    orReturn o.fetch
    callBackend .unlock o.backend
  | .hostMemory | .ion | .dmaBuf | .fastRpc | .glTexture | .unknown | .reserved _ => pure ()

def unlock (support : Support) (bufferType : BufferType) (o : Outcomes) :
    EStateM Failure State Unit := do
  orReturn (← get).isLocked
  modify fun s => { s with isLocked := false }
  unlockMemory support o bufferType

def runCall (support : Support) (bufferType : BufferType) (o : Outcomes) :
    Call → EStateM Failure State Unit
  | .lock => lock support bufferType o
  | .unlock => unlock support bufferType o

/-! ## What a call does -/

/-- What `is_locked_` is after a call that passes it. -/
def Call.flag : Call → Bool
  | .lock => true
  | .unlock => false

def BufferType.hasBackend (support : Support) : BufferType → Bool
  | .ahwb => support.ahwb
  | .glBuffer | .openCl _ | .webGpu _ | .metal _ | .vulkan _ | .userCustom _ => true
  | .hostMemory | .ion | .dmaBuf | .fastRpc | .glTexture | .unknown | .reserved _ => false

/-- The `switch` of `Lock` returns no error: a fetch that aborts does not return. -/
def LockGoesThrough (support : Support) (o : Outcomes) : BufferType → Prop
  | .hostMemory | .ion | .dmaBuf | .fastRpc => True
  | .ahwb => support.ahwb = true ∧ (o.fetch = true → o.backend = true)
  | .openCl _ => support.openCl = true ∧ (o.fetch = true → o.backend = true)
  | .glBuffer => support.openGl = true ∧ o.fetch = true ∧ o.backend = true
  | .webGpu _ | .metal _ | .vulkan _ | .userCustom _ => o.fetch = true ∧ o.backend = true
  | .glTexture | .unknown | .reserved _ => False

def UnlockGoesThrough (support : Support) (o : Outcomes) : BufferType → Prop
  | .ahwb => support.ahwb = true → o.backend = true
  | .openCl _ => support.openCl = true ∧ o.fetch = true ∧ o.backend = true
  | .glBuffer => support.openGl = true ∧ o.fetch = true ∧ o.backend = true
  | .webGpu _ | .metal _ | .vulkan _ | .userCustom _ => o.fetch = true ∧ o.backend = true
  | .hostMemory | .ion | .dmaBuf | .fastRpc | .glTexture | .unknown | .reserved _ => True

/-- Waiting succeeds where the call waits, the build supports the type, and fetching and the
backend succeed where they are asked. -/
def Call.GoesThrough (support : Support) (bufferType : BufferType) (o : Outcomes) : Call → Prop
  | .lock => (bufferType ≠ .ahwb → o.wait ≠ some false) ∧ LockGoesThrough support o bufferType
  | .unlock => UnlockGoesThrough support o bufferType

/-- The state after a call that succeeds. -/
def State.served (s : State) (support : Support) (bufferType : BufferType) (call : Call) : State where
  isLocked := call.flag
  backendCalls :=
    if bufferType.hasBackend support then s.backendCalls ++ [call] else s.backendCalls

section
variable {support : Support} {bufferType : BufferType} {o : Outcomes} {s : State} {call : Call}

theorem callBackend_eq (call : Call) (success : Bool) (s : State) :
    callBackend call success s =
      if success then .ok () { s with backendCalls := s.backendCalls ++ [call] }
      else .error .status s := by
  cases success <;> rfl

theorem orReturn_bind (success : Bool) (f : Unit → EStateM Failure State Unit) (s : State) :
    (orReturn success >>= f) s = if success then f () s else .error .status s := by
  cases success <;> rfl

theorem orAbort_eq (success : Bool) (s : State) :
    orAbort success s = if success then .ok () s else .error .abort s := by
  cases success <;> rfl

/-- The switches ask for the memory and the backend in one of these ways. -/
theorem fetch_callBackend_eq (fetch backend : Bool) (call : Call) (s : State) :
    (orReturn fetch >>= fun _ => callBackend call backend) s =
      if fetch && backend then .ok () { s with backendCalls := s.backendCalls ++ [call] }
      else .error .status s := by
  cases fetch <;> cases backend <;> rfl

theorem abort_callBackend_eq (fetch backend : Bool) (call : Call) (s : State) :
    (orAbort fetch >>= fun _ => callBackend call backend) s =
      if fetch then
        if backend then .ok () { s with backendCalls := s.backendCalls ++ [call] }
        else .error .status s
      else .error .abort s := by
  cases fetch <;> cases backend <;> rfl

theorem lockMemory_through (h : LockGoesThrough support o bufferType)
    (hflag : s.isLocked = true) : lockMemory support o bufferType s = .error .abort s ∨
      lockMemory support o bufferType s = .ok () (s.served support bufferType .lock) := by
  obtain ⟨isLocked, backendCalls⟩ := s
  obtain rfl : isLocked = true := hflag
  cases bufferType with
  | hostMemory | ion | dmaBuf | fastRpc =>
    simp only [lockMemory, orAbort_eq]
    split
    · exact .inr rfl
    · exact .inl rfl
  | ahwb | openCl =>
    simp only [lockMemory, h.1, if_true, abort_callBackend_eq, State.served, BufferType.hasBackend]
    split
    · next hfetch =>
      rw [h.2 hfetch]
      exact .inr rfl
    · exact .inl rfl
  | glBuffer =>
    simp only [lockMemory, h.1, h.2.1, h.2.2]
    exact .inr rfl
  | webGpu | metal | vulkan | userCustom =>
    simp only [lockMemory, h.1, h.2, fetch_callBackend_eq]
    exact .inr rfl
  | glTexture | unknown | reserved => exact h.elim

theorem lockMemory_status (h : ¬LockGoesThrough support o bufferType) :
    lockMemory support o bufferType s = .error .status s := by
  cases bufferType with
  | hostMemory | ion | dmaBuf | fastRpc => exact absurd trivial h
  | ahwb | openCl =>
    simp only [lockMemory]
    split
    · next hsupport =>
      have hfails : ¬(o.fetch = true → o.backend = true) := fun hgoes => h ⟨hsupport, hgoes⟩
      rw [abort_callBackend_eq, if_pos (Classical.not_imp.1 hfails).1,
        if_neg (Classical.not_imp.1 hfails).2]
    · rfl
  | glBuffer =>
    simp only [lockMemory]
    split
    · next hsupport =>
      rw [fetch_callBackend_eq, if_neg fun hboth => h ⟨hsupport, Bool.and_eq_true_iff.1 hboth⟩]
    · rfl
  | webGpu | metal | vulkan | userCustom =>
    simp only [lockMemory]
    rw [fetch_callBackend_eq, if_neg fun hboth => h (Bool.and_eq_true_iff.1 hboth)]
  | glTexture | unknown | reserved => rfl

theorem unlockMemory_through (h : UnlockGoesThrough support o bufferType)
    (hflag : s.isLocked = false) :
    unlockMemory support o bufferType s = .ok () (s.served support bufferType .unlock) := by
  obtain ⟨isLocked, backendCalls⟩ := s
  obtain rfl : isLocked = false := hflag
  cases bufferType with
  | ahwb =>
    by_cases hsupport : support.ahwb = true
    · have hbackend := h hsupport
      simp only [unlockMemory, State.served, BufferType.hasBackend, hsupport, hbackend, if_true,
        callBackend_eq]
      rfl
    · simp only [unlockMemory, State.served, BufferType.hasBackend, hsupport]
      rfl
  | openCl | glBuffer =>
    simp only [unlockMemory, h.1, h.2.1, h.2.2, if_true, fetch_callBackend_eq]
    rfl
  | webGpu | metal | vulkan | userCustom =>
    simp only [unlockMemory, h.1, h.2, fetch_callBackend_eq]
    rfl
  | hostMemory | ion | dmaBuf | fastRpc | glTexture | unknown | reserved => rfl

theorem unlockMemory_status (h : ¬UnlockGoesThrough support o bufferType) :
    unlockMemory support o bufferType s = .error .status s := by
  cases bufferType with
  | ahwb =>
    have hfails := Classical.not_imp.1 h
    simp only [unlockMemory]
    rw [if_pos hfails.1, callBackend_eq, if_neg hfails.2]
  | openCl | glBuffer =>
    simp only [unlockMemory]
    split
    · next hsupport =>
      rw [fetch_callBackend_eq, if_neg fun hboth => h ⟨hsupport, Bool.and_eq_true_iff.1 hboth⟩]
    · rfl
  | webGpu | metal | vulkan | userCustom =>
    simp only [unlockMemory]
    rw [fetch_callBackend_eq, if_neg fun hboth => h (Bool.and_eq_true_iff.1 hboth)]
  | hostMemory | ion | dmaBuf | fastRpc | glTexture | unknown | reserved => exact absurd trivial h

/-! ## The three ways a call ends -/

theorem runCall_refused (h : s.isLocked = call.flag) :
    runCall support bufferType o call s = .error .status s := by
  obtain ⟨isLocked, backendCalls⟩ := s
  obtain rfl : isLocked = call.flag := h
  cases call <;> rfl

/-- After the flag is set, `Lock` waits and goes on with its `switch`. -/
theorem lock_eq (h : s.isLocked = false) :
    lock support bufferType o s =
      if bufferType = .ahwb || o.wait.getD true then
        lockMemory support o bufferType { s with isLocked := true }
      else .error .status { s with isLocked := true } := by
  obtain ⟨isLocked, backendCalls⟩ := s
  obtain rfl : isLocked = false := h
  exact orReturn_bind _ _ _

theorem unlock_eq (h : s.isLocked = true) :
    unlock support bufferType o s =
      unlockMemory support o bufferType { s with isLocked := false } := by
  obtain ⟨isLocked, backendCalls⟩ := s
  obtain rfl : isLocked = true := h
  rfl

/-- The wait of a `Lock` that goes on. -/
theorem wait_iff : (decide (bufferType = .ahwb) || o.wait.getD true) = true ↔
    (bufferType ≠ .ahwb → o.wait ≠ some false) := by
  obtain ⟨wait, fetch, backend⟩ := o
  rcases wait with _ | _ | _ <;> simp

theorem runCall_through (hflag : s.isLocked ≠ call.flag)
    (h : call.GoesThrough support bufferType o) :
    runCall support bufferType o call s = .error .abort { s with isLocked := call.flag } ∨
      runCall support bufferType o call s = .ok () (s.served support bufferType call) := by
  cases call with
  | lock =>
    show lock support bufferType o s = _ ∨ lock support bufferType o s = _
    rw [lock_eq (Bool.eq_false_iff.2 hflag), if_pos (wait_iff.2 h.1)]
    exact lockMemory_through (s := { s with isLocked := true }) h.2 rfl
  | unlock =>
    right
    show unlock support bufferType o s = _
    rw [unlock_eq (eq_true_of_ne_false hflag)]
    exact unlockMemory_through h rfl

theorem runCall_status (hflag : s.isLocked ≠ call.flag)
    (h : ¬call.GoesThrough support bufferType o) :
    runCall support bufferType o call s = .error .status { s with isLocked := call.flag } := by
  cases call with
  | lock =>
    show lock support bufferType o s = _
    rw [lock_eq (Bool.eq_false_iff.2 hflag)]
    split
    · next hwait => exact lockMemory_status fun hgoes => h ⟨wait_iff.1 hwait, hgoes⟩
    · rfl
  | unlock =>
    show unlock support bufferType o s = _
    rw [unlock_eq (eq_true_of_ne_false hflag)]
    exact unlockMemory_status h

end

/-!
## Sequences of locks and unlocks

A buffer is held from a lock that succeeds to the next unlock that succeeds. A run is failure
safe as long as the flag and the backend agree with this at every call.
-/

structure Request where
  call : Call
  outcomes : Outcomes := {}
  deriving DecidableEq, Repr

structure Step where
  before : State
  request : Request
  /-- None for a call that succeeds. -/
  failure : Option Failure
  after : State
  deriving DecidableEq, Repr

/-- The steps of the requests, up to one that aborts the process. -/
def steps (support : Support) (bufferType : BufferType) : State → List Request → List Step
  | _, [] => []
  | s, request :: requests =>
    match runCall support bufferType request.outcomes request.call s with
    | .ok _ s' => ⟨s, request, none, s'⟩ :: steps support bufferType s' requests
    | .error .status s' => ⟨s, request, some .status, s'⟩ :: steps support bufferType s' requests
    | .error .abort s' => [⟨s, request, some .abort, s'⟩]

/-- Whether the buffer is held after the step, by what the calls have returned. -/
def Step.held (held : Bool) (step : Step) : Bool :=
  if step.failure = none then step.request.call.flag else held

/-- Locks and unlocks alternate, a lock being the first. -/
def Alternates (calls : List Call) : Prop :=
  ∀ i < calls.length, calls[i]? = some (if i % 2 = 0 then .lock else .unlock)

/-- What a step must not do, on a buffer that is held or not. -/
structure Step.Safe (held : Bool) (step : Step) : Prop where
  /-- A lock succeeds on a buffer that is not held only, an unlock on one that is. -/
  succeeds : step.failure = none → held ≠ step.request.call.flag
  /-- An error leaves the lock state as it was. -/
  unchanged : step.failure = some .status → step.after = step.before
  /-- The flag refuses a lock only as long as the buffer is held. -/
  refused : step.request.call = .lock → step.before.isLocked = true → held = true
  alternates : Alternates step.after.backendCalls

def SafeRun : Bool → List Step → Prop
  | _, [] => True
  | held, step :: rest => step.Safe held ∧ SafeRun (step.held held) rest

/-- A request that the flag does not refuse goes through. -/
def Step.Unimpeded (support : Support) (bufferType : BufferType) (step : Step) : Prop :=
  step.before.isLocked ≠ step.request.call.flag →
    step.request.call.GoesThrough support bufferType step.request.outcomes

variable {support : Support} {bufferType : BufferType}

theorem alternates_append {calls : List Call} {call : Call} (h : Alternates calls)
    (hcall : call = if calls.length % 2 = 0 then .lock else .unlock) :
    Alternates (calls ++ [call]) := by
  intro i hi
  rw [List.length_append, List.length_singleton] at hi
  by_cases hlt : i < calls.length
  · rw [List.getElem?_append_left hlt]
    exact h i hlt
  · obtain rfl : i = calls.length := by omega
    rw [List.getElem?_append_right (Nat.le_refl _), Nat.sub_self, hcall]
    rfl

/-- The flag says whether the buffer is held, and so does the backend, if there is one. -/
structure Agrees (support : Support) (bufferType : BufferType) (held : Bool) (s : State) : Prop where
  flag : s.isLocked = held
  alternates : Alternates s.backendCalls
  backend : bufferType.hasBackend support = true → (s.backendCalls.length % 2 = 1 ↔ held = true)

theorem agrees_init (support : Support) (bufferType : BufferType) :
    Agrees support bufferType false {} :=
  ⟨rfl, fun _ hi => absurd hi (Nat.not_lt_zero _), fun _ => by decide⟩

theorem Agrees.served {held : Bool} {s : State} {call : Call}
    (h : Agrees support bufferType held s) (hcall : held ≠ call.flag) :
    Agrees support bufferType call.flag (s.served support bufferType call) := by
  by_cases hbackend : bufferType.hasBackend support = true
  · have hcalls : (s.served support bufferType call).backendCalls = s.backendCalls ++ [call] :=
      if_pos hbackend
    have hparity := h.backend hbackend
    cases call with
    | lock =>
      have heven : s.backendCalls.length % 2 = 0 :=
        (Nat.mod_two_eq_zero_or_one _).resolve_right fun hodd => hcall (hparity.1 hodd)
      refine ⟨rfl, ?_, fun _ => iff_of_true ?_ rfl⟩
      · rw [hcalls]
        exact alternates_append h.alternates (if_pos heven).symm
      · rw [hcalls, List.length_append, List.length_singleton]
        omega
    | unlock =>
      have hodd : s.backendCalls.length % 2 = 1 := hparity.2 (eq_true_of_ne_false hcall)
      refine ⟨rfl, ?_, fun _ => iff_of_false ?_ Bool.false_ne_true⟩
      · rw [hcalls]
        exact alternates_append h.alternates (if_neg (by omega)).symm
      · rw [hcalls, List.length_append, List.length_singleton]
        omega
  · have hcalls : (s.served support bufferType call).backendCalls = s.backendCalls :=
      if_neg hbackend
    refine ⟨rfl, ?_, fun hb => absurd hb hbackend⟩
    rw [hcalls]
    exact h.alternates

/-- From a state that agrees, the run is safe as long as its requests go through, and no longer. -/
theorem safeRun_steps_iff (requests : List Request) :
    ∀ {held : Bool} {s : State}, Agrees support bufferType held s →
      (SafeRun held (steps support bufferType s requests) ↔
        ∀ step ∈ steps support bufferType s requests, step.Unimpeded support bufferType) := by
  induction requests with
  | nil => exact fun _ => iff_of_true trivial fun _ hmem => absurd hmem List.not_mem_nil
  | cons request requests ih =>
    intro held s h
    have hrefused : request.call = .lock → s.isLocked = true → held = true :=
      fun _ hlocked => h.flag ▸ hlocked
    by_cases hflag : s.isLocked = request.call.flag
    · -- The flag refuses the call.
      rw [steps, runCall_refused hflag, List.forall_mem_cons]
      have hsafe : Step.Safe held ⟨s, request, some .status, s⟩ :=
        ⟨fun hnone => (nomatch hnone), fun _ => rfl, hrefused, h.alternates⟩
      exact and_congr (iff_of_true hsafe fun hne => absurd hflag hne) (ih h)
    by_cases hgoes : request.call.GoesThrough support bufferType request.outcomes
    · obtain habort | hok := runCall_through hflag hgoes
      · rw [steps, habort, List.forall_mem_cons]
        have hsafe : Step.Safe held
            ⟨s, request, some .abort, { s with isLocked := request.call.flag }⟩ :=
          ⟨fun hnone => (nomatch hnone), fun hstatus => (nomatch hstatus), hrefused, h.alternates⟩
        exact and_congr (iff_of_true hsafe fun _ => hgoes)
          (iff_of_true trivial fun _ hmem => absurd hmem List.not_mem_nil)
      · rw [steps, hok, List.forall_mem_cons]
        have hne : held ≠ request.call.flag := h.flag ▸ hflag
        have hserved := h.served hne
        have hsafe : Step.Safe held ⟨s, request, none, s.served support bufferType request.call⟩ :=
          ⟨fun _ => hne, fun hsome => (nomatch hsome), hrefused, hserved.alternates⟩
        exact and_congr (iff_of_true hsafe fun _ => hgoes) (ih hserved)
    · -- An error that changes the flag.
      rw [steps, runCall_status hflag hgoes, List.forall_mem_cons]
      refine iff_of_false (fun hrun => ?_) fun hall => hgoes (hall.1 hflag)
      have hsame := congrArg State.isLocked (hrun.1.unchanged rfl)
      exact hflag hsame.symm

/-- A run of locks and unlocks is failure safe just if every request that the flag does not
refuse goes through. -/
theorem lock_unlock_safe_iff (support : Support) (bufferType : BufferType)
    (requests : List Request) :
    SafeRun false (steps support bufferType {} requests) ↔
      ∀ step ∈ steps support bufferType {} requests, step.Unimpeded support bufferType :=
  safeRun_steps_iff requests (agrees_init support bufferType)

/-- A lock whose wait fails has set the flag, so the next lock is refused. -/
theorem failed_wait_keeps_flag :
    ¬SafeRun false (steps ⟨true, true, true⟩ .hostMemory {}
      [⟨.lock, { wait := some false }⟩, ⟨.lock, {}⟩]) := by
  intro hrun
  exact absurd (hrun.1.unchanged rfl) (by decide)

end LiteRt.TensorBuffer
