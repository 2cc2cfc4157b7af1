import LiteRt.WeightCache.ProviderSteps
import LiteRt.WeightCache.MissHandler

/-!
# When something is being built

A build step is open from a `StartBuildStep` that succeeds to the next call that ends it. The flag
of the builder is to tell this, and outside of it nothing is to be written to the file.
-/

namespace LiteRt.WeightCache.Intervals

open LiteRt.Lib

/-- The calls of a builder, and those of the provider it belongs to. -/
inductive Call where
  | start
  | startBuildStep
  | append (packId : PackIdentifier) (data : List UInt8) (fingerprintId : Int)
  | stopBuildStep
  | reset
  | providerStartBuildStep
  | providerStopBuildStep (canResize : Bool)
  | release
  | load
  | reserveSpace (size : Nat)
  | lookUpOrInsert (cacheKey : PackIdentifier) (ptr : Address) (data : List UInt8)
    (fingerprintId : Int)
  deriving DecidableEq, Repr

namespace Call

/-- The call without its result. -/
def run (lib : Libraries) : Call → CacheM Unit
  | .start => onProvider (MMapWeightCacheProvider.startBuild lib)
  | .startBuildStep => onProvider (onBuilder (WeightCache.startBuildStep lib))
  | .append packId data fingerprintId => do
    let _ ← Cache.append lib packId data fingerprintId
  | .stopBuildStep => onProvider (onBuilder (WeightCache.stopBuildStep lib))
  | .reset => onProvider (onBuilder resetBuilder)
  | .providerStartBuildStep => Cache.startBuildStep lib
  | .providerStopBuildStep canResize => Cache.stopBuildStep lib canResize
  | .release => Cache.release
  | .load => onProvider (WeightCache.load lib)
  | .reserveSpace size => Cache.reserveSpace size
  | .lookUpOrInsert cacheKey ptr data fingerprintId => do
    let _ ← Cache.lookUpOrInsert lib cacheKey ptr data fingerprintId

/-- Whether a build step is open after the call. -/
def opens (isOpen succeeded : Bool) : Call → Bool
  | .startBuildStep | .providerStartBuildStep => isOpen || succeeded
  | .stopBuildStep | .providerStopBuildStep _ | .reset | .release => false
  | _ => isOpen

/-- Nothing is allocated that is larger than half of the memory. -/
def Possible : Call → Prop
  | .append _ data _ | .lookUpOrInsert _ _ data _ => data.length < 2 ^ 63
  | .reserveSpace size => size < 2 ^ 63
  | _ => True

end Call

/-- What the handler does with data, and the addresses after it. -/
def appended (c : Cache) (ptr : Address) (data : List UInt8) :
    BufferLocation × Misses.CacheMissHandler × InsertOrderMap Nat Address :=
  c.handler.append ptr data c.allocated c.provider.offsetToAddr

/-- A key that is known leaves all as it is. Another one goes to the handler, and its offset has an
address. -/
def Inserted (c : Cache) (cacheKey : PackIdentifier) (ptr : Address) (data : List UInt8) :
    EStateM.Result Stop Cache Nat → Prop
  | .ok offset c' =>
    (∀ location ∈ c.provider.cacheKeyToOffset.find? cacheKey, offset = location.offset ∧ c' = c) ∧
    (c.provider.cacheKeyToOffset.find? cacheKey = none → c'.provider.build = c.provider.build ∧
        c'.handler = (appended c ptr data).2.1 ∧ offset = (appended c ptr data).1.offset ∧
        c'.provider.offsetToAddr.find? offset ≠ none)
  | .error _ _ => False

instance (c : Cache) (cacheKey : PackIdentifier) (ptr : Address) (data : List UInt8) :
    ∀ result, Decidable (Inserted c cacheKey ptr data result)
  | .ok _ _ => inferInstanceAs (Decidable (_ ∧ _))
  | .error _ _ => isFalse id

/-- What a call does outside of build steps: only `Start` writes to the file. -/
def Call.Handled (lib : Libraries) (c : Cache) : Call → Prop
  | .start => True
  | .lookUpOrInsert cacheKey ptr data fingerprintId =>
    Inserted c cacheKey ptr data (Cache.lookUpOrInsert lib cacheKey ptr data fingerprintId c)
  | call => SameFile c.provider.build (after (call.run lib) c).provider.build

instance (lib : Libraries) (c : Cache) : ∀ call : Call, Decidable (call.Handled lib c)
  | .start => isTrue trivial
  | .lookUpOrInsert cacheKey ptr data fingerprintId =>
    inferInstanceAs (Decidable (Inserted c cacheKey ptr data
      (Cache.lookUpOrInsert lib cacheKey ptr data fingerprintId c)))
  | .startBuildStep | .append .. | .stopBuildStep | .reset | .providerStartBuildStep
  | .providerStopBuildStep _ | .release | .load | .reserveSpace _ =>
    inferInstanceAs (Decidable (SameFile _ _))

/-- The call returns true. -/
def succeeds {σ α : Type} (x : EStateM Stop σ α) (s : σ) : Bool :=
  match x s with
  | .ok _ _ => true
  | .error _ _ => false

/-- The process goes on. -/
def returns {σ α : Type} (x : EStateM Stop σ α) (s : σ) : Bool :=
  match x s with
  | .error .aborted _ => false
  | _ => true

/-- The provider with its builder, and what was observed of it. -/
structure State where
  cache : Cache
  running : Bool
  isOpen : Bool
  /-- `IsBuilding` has told after each call whether a step is open. -/
  agrees : Bool
  /-- Each call outside of build steps was handled. -/
  handled : Bool
  deriving DecidableEq, Repr

def State.new (fd : FileDescriptor) : State := ⟨.new fd, true, false, true, true⟩

def step (lib : Libraries) (s : State) (call : Call) : Option State :=
  if s.running = false then none
  else
    let cache := after (call.run lib) s.cache
    let isOpen := call.opens s.isOpen (succeeds (call.run lib) s.cache)
    some {
      cache := cache
      running := returns (call.run lib) s.cache
      isOpen := isOpen
      agrees := s.agrees && cache.isBuilding == isOpen
      handled := s.handled && (s.isOpen || decide (call.Handled lib s.cache)) }

/-! ## Where the flag tells what is open -/

/-- A step starts on a file that can be read, something was written before it ends, and nothing is
reset in it. -/
def Meets (lib : Libraries) (c : Cache) : Call → Prop
  | .startBuildStep | .providerStartBuildStep =>
    c.builder.isStarted = true → c.isBuilding = false → Readable lib c.provider.build
  | .stopBuildStep | .providerStopBuildStep _ =>
    c.isBuilding = true → ¬Unmoved c.provider.build
  | .reset | .release => c.isBuilding = false
  | _ => True

variable {lib : Libraries} {s s' : Build} {c c' : Cache}

/-! ## The handler outside of build steps -/

section
variable {handler : Misses.CacheMissHandler} {size : Nat} {ptr fresh : Address} {data : List UInt8}
  {addresses : InsertOrderMap Nat Address} {P : Misses.Buffer → Prop}

/-- What holds of the buffers and of the new one holds after a reservation. -/
theorem forall_reserve (h : ∀ b ∈ handler.buffers, P b)
    (hnew : ∀ offset, P ⟨List.replicate size 0, ⟨offset, size⟩, ptr, false⟩) :
    ∀ b ∈ (handler.reserve size ptr).buffers, P b := by
  intro b hb
  unfold Misses.CacheMissHandler.reserve at hb
  dsimp only at hb
  split at hb
  · cases List.mem_singleton.1 hb
    exact hnew _
  · rename_i last rest hbuffers
    rw [hbuffers] at h
    split at hb
    · rcases List.mem_cons.1 hb with rfl | hb
      · exact hnew _
      · exact h b hb
    · rcases List.mem_cons.1 hb with rfl | hb
      · exact hnew _
      · exact h b (List.mem_cons_of_mem _ hb)

/-- What does not depend on the data and on the use of a buffer holds after it is used. -/
theorem forall_useAt {buffers : List Misses.Buffer} {found : Misses.Buffer × List Misses.Buffer}
    (hfound : Misses.CacheMissHandler.useAt ptr data buffers = some found)
    (h : ∀ b ∈ buffers, P b) (huse : ∀ b, P b → P { b with data := data, used := true }) :
    P found.1 ∧ ∀ b ∈ found.2, P b := by
  obtain ⟨before, b, after, rfl, -, -, hfirst, hsecond⟩ := Misses.useAt_eq_some hfound
  have hb : P found.1 := hfirst ▸ huse b (h b (by simp))
  refine ⟨hb, fun b' hb' => ?_⟩
  rw [hsecond] at hb'
  rcases List.mem_append.1 hb' with hb' | hb'
  · exact h b' (List.mem_append_left _ hb')
  · rcases List.mem_cons.1 hb' with rfl | hb'
    · exact hfirst ▸ hb
    · exact h b' (List.mem_append_right _ (List.mem_cons_of_mem _ hb'))

/-- The memory that was just reserved is found. -/
theorem useAt_reserve (data : List UInt8) : Misses.CacheMissHandler.useAt fresh data
    (handler.reserve size fresh).buffers ≠ none := by
  intro hnone
  have hall := Misses.useAt_eq_none.1 hnone
  unfold Misses.CacheMissHandler.reserve at hall
  dsimp only at hall
  split at hall
  · exact hall _ (List.mem_cons_self ..) rfl
  · split at hall <;> exact hall _ (List.mem_cons_self ..) rfl

/-- The data is in one of the buffers, and its offset gets an address. -/
theorem forall_append (h : ∀ b ∈ handler.buffers, P b)
    (hnew : ∀ offset, P ⟨List.replicate data.length 0, ⟨offset, data.length⟩, fresh, false⟩)
    (huse : ∀ b, P b → P { b with data := data, used := true }) :
    (∀ b ∈ (handler.append ptr data fresh addresses).2.1.buffers, P b) ∧
      (handler.append ptr data fresh addresses).2.1.minOffset = handler.minOffset ∧
      ∃ b, P b ∧ (handler.append ptr data fresh addresses).1 = b.loc ∧
        (handler.append ptr data fresh addresses).2.2 = addresses.emplace b.loc.offset b.ptr := by
  unfold Misses.CacheMissHandler.append
  cases hptr : Misses.CacheMissHandler.useAt ptr data handler.buffers with
  | some found =>
    obtain ⟨hfirst, hall⟩ := forall_useAt hptr h huse
    exact ⟨hall, rfl, found.1, hfirst, rfl, rfl⟩
  | none =>
    dsimp only
    cases hfresh : Misses.CacheMissHandler.useAt fresh data
        (handler.reserve data.length fresh).buffers with
    | some found =>
      obtain ⟨hfirst, hall⟩ := forall_useAt hfresh (forall_reserve h hnew) huse
      refine ⟨hall, ?_, found.1, hfirst, rfl, rfl⟩
      unfold Misses.CacheMissHandler.reserve
      dsimp only
      split
      · rfl
      · split <;> rfl
    | none => exact absurd hfresh (useAt_reserve data)

end

/-- No buffer is larger than half of the memory. -/
def Small (buffers : List Misses.Buffer) : Prop := ∀ b ∈ buffers, b.loc.size < 2 ^ 63

/-- The cache after a key went to the handler. -/
def missed (c : Cache) (cacheKey : PackIdentifier) (ptr : Address) (data : List UInt8) : Cache where
  provider := { c.provider with
    cacheKeyToOffset := c.provider.cacheKeyToOffset.emplace cacheKey (appended c ptr data).1
    offsetToAddr := (appended c ptr data).2.2
    mappings := c.provider.mappings + 1 }
  misses := (appended c ptr data).2.1.buffers

section
variable {cacheKey : PackIdentifier} {ptr : Address} {data : List UInt8} {fingerprintId : Int}

theorem lookUpOrInsert_known {location : BufferLocation}
    (h : c.provider.cacheKeyToOffset.find? cacheKey = some location) :
    Cache.lookUpOrInsert lib cacheKey ptr data fingerprintId c = .ok location.offset c := by
  unfold Cache.lookUpOrInsert
  rw [get_bind_eq, h]
  rfl

theorem lookUpOrInsert_missed (h : c.provider.cacheKeyToOffset.find? cacheKey = none)
    (hflag : c.isBuilding = false) (hvalid : (appended c ptr data).1 ≠ .invalid) :
    Cache.lookUpOrInsert lib cacheKey ptr data fingerprintId c =
      .ok (appended c ptr data).1.offset (missed c cacheKey ptr data) := by
  have hmiss : Cache.appendMiss ptr data c = .ok (appended c ptr data).1
      { provider := { c.provider with
          offsetToAddr := (appended c ptr data).2.2
          mappings := c.provider.mappings + 1 }
        misses := (appended c ptr data).2.1.buffers : Cache } := rfl
  unfold Cache.lookUpOrInsert
  rw [get_bind_eq, h]
  dsimp only
  rw [hflag, if_neg Bool.false_ne_true, bind_ok_eq hmiss, if_neg hvalid]
  rfl

theorem appended_small (ptr : Address) (hsmall : Small c.misses) (hdata : data.length < 2 ^ 63) :
    (appended c ptr data).1 ≠ .invalid ∧ Small (appended c ptr data).2.1.buffers ∧
      (appended c ptr data).2.1.minOffset = c.provider.minOffset ∧
      ∃ ptr', (appended c ptr data).2.2 =
        c.provider.offsetToAddr.emplace (appended c ptr data).1.offset ptr' := by
  obtain ⟨hbuffers, hmin, b, hsize, hloc, haddresses⟩ :=
    @forall_append c.handler ptr c.allocated data c.provider.offsetToAddr
      (fun b => b.loc.size < 2 ^ 63) hsmall (fun _ => hdata) fun _ hb => hb
  refine ⟨fun heq => ?_, hbuffers, hmin, b.ptr, ?_⟩
  · unfold appended at heq
    rw [← hloc, heq] at hsize
    exact absurd hsize (by decide)
  · unfold appended
    rw [haddresses, hloc]

/-- A lookup outside of build steps. -/
theorem lookUpOrInsert_outside (hflag : c.isBuilding = false) (hsmall : Small c.misses)
    (hdata : data.length < 2 ^ 63) :
    Inserted c cacheKey ptr data (Cache.lookUpOrInsert lib cacheKey ptr data fingerprintId c) := by
  cases hfind : c.provider.cacheKeyToOffset.find? cacheKey with
  | some location =>
    rw [lookUpOrInsert_known hfind]
    refine ⟨fun location' hlocation => ?_, fun hnone => ?_⟩
    · cases hfind.symm.trans hlocation
      exact ⟨rfl, rfl⟩
    · rw [hfind] at hnone
      cases hnone
  | none =>
    obtain ⟨hvalid, -, hmin, ptr', haddresses⟩ := appended_small ptr hsmall hdata
    rw [lookUpOrInsert_missed hfind hflag hvalid]
    refine ⟨fun location hlocation => ?_, fun _ => ⟨rfl, ?_, rfl, ?_⟩⟩
    · rw [hfind] at hlocation
      cases hlocation
    · change (⟨_, c.provider.minOffset⟩ : Misses.CacheMissHandler) = _
      rw [← hmin]
      rfl
    · change (appended c ptr data).2.2.find? _ ≠ none
      rw [haddresses, InsertOrderMap.find?_emplace]
      split
      · exact Option.some_ne_none _
      · rename_i hold
        exact fun hnone => hold ⟨hnone, rfl⟩

end

/-! ## Calls -/

def Call.flag (c : Cache) : Call → Bool
  | .startBuildStep | .providerStartBuildStep => c.isBuilding || c.builder.isStarted
  | .stopBuildStep | .providerStopBuildStep _ =>
    c.isBuilding && (!c.builder.isStarted || decide (Unmoved c.provider.build))
  | _ => c.isBuilding

def Call.isStarted (c : Cache) : Call → Bool
  | .start => true
  | .reset | .release => false
  | _ => c.builder.isStarted

section
variable {α : Type} {Q : α → Cache → Prop} {E : Stop → Cache → Prop}

theorem ends_onProvider {x : ProviderM α}
    (h : Ends x c.provider (fun a p => Q a { c with provider := p })
      fun e p => E e { c with provider := p }) : Ends (onProvider x) c Q E := by
  rw [Ends] at h ⊢
  unfold onProvider
  cases hx : x c.provider with
  | ok a p =>
    rw [hx] at h
    exact h
  | error e p =>
    rw [hx] at h
    exact h

end

/-- What holds of the build of the cache, and the buffers of the handler stay small. -/
def After (isBuildStep isStarted : Bool) (c : Cache) : Prop :=
  Becomes isBuildStep isStarted c.provider.build ∧ Small c.misses

/-- A call of the builder leaves the handler alone. -/
theorem onBuilder_flag {α : Type} {x : BuildM α} {isBuildStep isStarted : Bool}
    (h : Ends x c.provider.build (fun _ => Becomes isBuildStep isStarted)
      fun _ => Becomes isBuildStep isStarted) (hsmall : Small c.misses) :
    Ends (onProvider (onBuilder x)) c (fun _ => After isBuildStep isStarted)
      fun _ => After isBuildStep isStarted :=
  ends_onProvider (ends_onBuilder (h.mono (fun _ _ hs => ⟨hs, hsmall⟩) fun _ _ hs => ⟨hs, hsmall⟩))

theorem resetBuilder_flag (s : Build) :
    Ends resetBuilder s (fun _ => Becomes s.builder.isBuildStep false)
      fun _ => Becomes s.builder.isBuildStep false :=
  ends_modify ⟨rfl, rfl, fun _ => rfl⟩

/-- The builder's part of a call is followed by one that leaves it alone. -/
theorem keeps_after {x : ProviderM Unit} {isBuildStep isStarted : Bool}
    (hx : ∀ build, Keeps x fun p => p.build = build) :
    Keeps (onProvider x) (After isBuildStep isStarted) := by
  rintro c' ⟨hbecomes, hsmall⟩
  refine ends_onProvider ((hx c'.provider.build c'.provider rfl).mono ?_ ?_)
  · intro _ p hp
    exact ⟨hp ▸ hbecomes, hsmall⟩
  · intro _ p hp
    exact ⟨hp ▸ hbecomes, hsmall⟩

theorem appendOpen_flag (lib : Libraries) (packId : PackIdentifier) (data : List UInt8)
    (fingerprintId : Int) {isBuildStep isStarted : Bool} :
    Keeps (Cache.append lib packId data fingerprintId) (After isBuildStep isStarted) := by
  refine keeps_get fun c' hc' => ?_
  split
  · exact ends_pure hc'
  · exact onBuilder_flag (append_flag lib packId data fingerprintId _ hc'.1) hc'.2

theorem onProvider_bind {α β : Type} (x : ProviderM α) (f : α → ProviderM β) :
    onProvider (x >>= f) = onProvider x >>= fun a => onProvider (f a) := by
  funext c'
  change onProvider (EStateM.bind x f) c' = EStateM.bind (onProvider x) _ c'
  unfold EStateM.bind onProvider
  dsimp only
  cases x c'.provider <;> rfl

theorem appendMiss_flag (ptr : Address) {data : List UInt8} (hdata : data.length < 2 ^ 63)
    {isBuildStep isStarted : Bool} :
    Keeps (Cache.appendMiss ptr data) (After isBuildStep isStarted) :=
  keeps_get fun _ hc' => ⟨hc'.1, (appended_small ptr hc'.2 hdata).2.1⟩

theorem lookUpOrInsert_flag (lib : Libraries) (cacheKey : PackIdentifier) (ptr : Address)
    {data : List UInt8} (fingerprintId : Int) (hdata : data.length < 2 ^ 63)
    {isBuildStep isStarted : Bool} :
    Keeps (Cache.lookUpOrInsert lib cacheKey ptr data fingerprintId)
      (After isBuildStep isStarted) := by
  refine keeps_get fun c' hc' => ?_
  split
  · exact ends_pure hc'
  · dsimp only
    split
    · refine (appendOpen_flag lib cacheKey data fingerprintId).bind (fun location => ?_) c' hc'
      split
      · exact keeps_throw _
      · exact Keeps.bind (keeps_modify fun _ hc => hc) fun _ => keeps_pure _
    · refine (appendMiss_flag ptr hdata).bind (fun location => ?_) c' hc'
      split
      · exact keeps_throw _
      · exact Keeps.bind (keeps_modify fun _ hc => hc) fun _ => keeps_pure _

theorem Call.run_flag (lib : Libraries) (call : Call) (hfresh : Fresh c.provider.build)
    (hsmall : Small c.misses) (hpossible : call.Possible) :
    After (call.flag c) (call.isStarted c) (after (call.run lib) c) := by
  have hkept : After c.isBuilding c.builder.isStarted c := ⟨hfresh.becomes, hsmall⟩
  refine Ends.after ?_
  cases call with
  | start =>
    refine onBuilder_flag ?_ hsmall
    exact (start_flag lib hfresh).mono (fun _ _ hs => hs) fun _ _ hs => hs.2
  | startBuildStep => exact onBuilder_flag (startBuildStep_becomes lib hfresh) hsmall
  | append packId data fingerprintId =>
    exact (appendOpen_flag lib packId data fingerprintId c hkept).bind fun _ _ hs => hs
  | stopBuildStep => exact onBuilder_flag (stopBuildStep_becomes lib hfresh) hsmall
  | reset => exact onBuilder_flag (resetBuilder_flag _) hsmall
  | providerStartBuildStep =>
    refine ends_onProvider (ends_get (ends_check ?_ fun hstarted => ?_))
    · intro hstarted
      change After (c.isBuilding || c.builder.isStarted) c.builder.isStarted c
      rw [show c.builder.isStarted = false from hstarted, Bool.or_false, ← hstarted]
      exact hkept
    · split
      · rename_i hflag
        change After (c.isBuilding || c.builder.isStarted) c.builder.isStarted c
        rw [show c.isBuilding = true from hflag, Bool.true_or, ← hflag]
        exact hkept
      · exact ends_onBuilder ((startBuildStep_becomes lib hfresh).mono
          (fun _ _ hs => ⟨hs, hsmall⟩) fun _ _ hs => ⟨hs, hsmall⟩)
  | providerStopBuildStep canResize =>
    have hstop := onBuilder_flag (stopBuildStep_becomes lib hfresh) hsmall
    have hrun : Call.run lib (.providerStopBuildStep canResize) =
        onProvider (onBuilder (WeightCache.stopBuildStep lib)) >>=
          fun _ => onProvider (loadLastBuildStep lib canResize) := onProvider_bind _ _
    rw [hrun]
    exact hstop.bind fun _ => keeps_after fun _ => keeps_loadLastBuildStep lib canResize
  | release => exact (onBuilder_flag (resetBuilder_flag _) hsmall).bind fun _ _ hs => hs
  | load => exact keeps_after (fun _ => keeps_load lib) c hkept
  | reserveSpace size =>
    refine ends_get ?_
    split
    · refine onBuilder_flag (ends_modify ?_) hsmall
      exact ⟨rfl, rfl, hfresh⟩
    · exact ends_modify ⟨hkept.1, forall_reserve hsmall fun _ => hpossible⟩
  | lookUpOrInsert cacheKey ptr data fingerprintId =>
    exact (lookUpOrInsert_flag lib cacheKey ptr fingerprintId hpossible c hkept).bind
      fun _ _ hs => hs

/-- A step is open after a call that was to start it. -/
theorem succeeds_iff {σ α : Type} {x : EStateM Stop σ α} {s : σ} {D : Prop}
    {Q : α → σ → Prop} (h : Decided x s D Q) : succeeds x s = true ↔ D := by
  revert h
  unfold Decided Ends succeeds
  cases x s with
  | ok a s' => exact fun h => iff_of_true rfl h.1
  | error e s' => exact fun h => iff_of_false Bool.false_ne_true h

theorem startBuildStep_succeeds (lib : Libraries) (hfresh : Fresh c.provider.build)
    (hflag : c.isBuilding = false) :
    succeeds (Call.startBuildStep.run lib) c = true ↔
      c.builder.isStarted = true ∧ Readable lib c.provider.build := by
  have hdecided := startBuildStep_decided lib hfresh
  refine (succeeds_iff (Q := fun _ _ => True) (ends_onProvider (ends_onBuilder (hdecided.mono
    (fun _ _ hs => hs) fun _ _ hs => hs)))).trans ?_
  exact and_congr_right' (and_iff_right hflag)

theorem providerStartBuildStep_succeeds (lib : Libraries) (hfresh : Fresh c.provider.build)
    (hflag : c.isBuilding = false) :
    succeeds (Call.providerStartBuildStep.run lib) c = true ↔
      c.builder.isStarted = true ∧ Readable lib c.provider.build := by
  have hdecided := startBuildStep_decided lib hfresh
  refine succeeds_iff (Q := fun _ _ => True) (ends_onProvider (ends_get (ends_check ?_ ?_)))
  · intro hfalse hand
    exact Bool.false_ne_true (hfalse.symm.trans hand.1)
  · intro hstarted
    rw [if_neg (by rw [show c.provider.build.builder.isBuildStep = false from hflag]; decide)]
    refine ends_onBuilder (hdecided.mono ?_ ?_)
    · rintro _ _ ⟨⟨h₁, -, h₂⟩, -⟩
      exact ⟨⟨h₁, h₂⟩, trivial⟩
    · rintro _ _ hnot ⟨h₁, h₂⟩
      exact hnot ⟨h₁, hflag, h₂⟩

theorem opened_iff {flag isStarted succeeded : Bool} {P : Prop}
    (h : flag = false → (succeeded = true ↔ isStarted = true ∧ P)) :
    (flag || isStarted) = (flag || succeeded) ↔ (isStarted = true → flag = false → P) := by
  cases flag with
  | true => simp
  | false =>
    rw [Bool.false_or, Bool.false_or, Bool.eq_iff_iff, h rfl]
    constructor
    · exact fun hiff hstarted _ => (hiff.1 hstarted).2
    · exact fun himp => ⟨fun hstarted => ⟨hstarted, himp hstarted rfl⟩, And.left⟩

theorem closed_iff {flag isStarted : Bool} {P : Prop} [Decidable P]
    (h : flag = true → isStarted = true) :
    (flag && (!isStarted || decide P)) = false ↔ (flag = true → ¬P) := by
  cases flag with
  | false => simp
  | true =>
    rw [h rfl]
    simp

/-- The flag tells what is open after a call exactly if the call meets the condition. -/
theorem Call.agrees_iff (lib : Libraries) (call : Call) {isOpen : Bool}
    (hfresh : Fresh c.provider.build) (hopen : c.isBuilding = isOpen)
    (hstarted : isOpen = true → c.builder.isStarted = true) :
    call.flag c = call.opens isOpen (succeeds (call.run lib) c) ↔ Meets lib c call := by
  subst hopen
  cases call with
  | startBuildStep => exact opened_iff (startBuildStep_succeeds lib hfresh)
  | providerStartBuildStep => exact opened_iff (providerStartBuildStep_succeeds lib hfresh)
  | stopBuildStep => exact closed_iff hstarted
  | providerStopBuildStep canResize => exact closed_iff hstarted
  | reset => exact Iff.rfl
  | release => exact Iff.rfl
  | start => exact iff_of_true rfl trivial
  | append packId data fingerprintId => exact iff_of_true rfl trivial
  | load => exact iff_of_true rfl trivial
  | reserveSpace size => exact iff_of_true rfl trivial
  | lookUpOrInsert cacheKey ptr data fingerprintId => exact iff_of_true rfl trivial

/-- The file is the same after the call, whether it returns true or not. -/
def Spares {α : Type} (x : CacheM α) (c : Cache) : Prop :=
  Ends x c (fun _ c' => SameFile c.provider.build c'.provider.build)
    fun _ c' => SameFile c.provider.build c'.provider.build

theorem spares_onBuilder {α : Type} {x : BuildM α}
    (h : Ends x c.provider.build (fun _ => SameFile c.provider.build)
      fun _ => SameFile c.provider.build) : Spares (onProvider (onBuilder x)) c :=
  ends_onProvider (ends_onBuilder h)

/-- Outside of build steps, calls are handled. -/
theorem Call.handled (lib : Libraries) (call : Call) (hflag : c.isBuilding = false)
    (hsmall : Small c.misses) (hfresh : Fresh c.provider.build) (hpossible : call.Possible) :
    call.Handled lib c := by
  have hsame := SameFile.refl c.provider.build
  have hstart : Ends (WeightCache.startBuildStep lib) c.provider.build
      (fun _ => SameFile c.provider.build) fun _ => SameFile c.provider.build :=
    (startBuildStep_flag lib hfresh).mono (fun _ _ hs => hs.2.2.2) fun _ _ hs => hs.2.2.2
  have hstop : Ends (WeightCache.stopBuildStep lib) c.provider.build (fun _ _ => False)
      fun _ => SameFile c.provider.build := by
    rw [Ends, stopBuildStep_failed lib hflag]
    exact hsame
  have hreset : Ends resetBuilder c.provider.build (fun _ => SameFile c.provider.build)
      fun _ => SameFile c.provider.build := ends_modify ⟨rfl, rfl⟩
  have hspares : ∀ call' : Call, Spares (call'.run lib) c →
      SameFile c.provider.build (after (call'.run lib) c).provider.build :=
    fun _ h => Ends.after (P := fun c' : Cache => SameFile c.provider.build c'.provider.build) h
  cases call with
  | start => trivial
  | startBuildStep => exact hspares _ (spares_onBuilder hstart)
  | append packId data fingerprintId =>
    refine hspares _ (Ends.bind (ends_get ?_) fun _ _ hs => hs)
    rw [if_neg fun hand => Bool.false_ne_true (hflag.symm.trans hand.1)]
    refine spares_onBuilder ?_
    rw [Ends, append_unstarted lib hflag]
    exact hsame
  | stopBuildStep =>
    exact hspares _ (spares_onBuilder (hstop.mono (fun _ _ hs => hs.elim) fun _ _ hs => hs))
  | reset => exact hspares _ (spares_onBuilder hreset)
  | providerStartBuildStep =>
    refine hspares _ (ends_onProvider (ends_get (ends_check (fun _ => hsame) fun _ => ?_)))
    split
    · exact hsame
    · exact ends_onBuilder hstart
  | providerStopBuildStep canResize =>
    refine hspares _ (ends_onProvider (Ends.bind (Q := fun _ _ => False) ?_ fun _ _ => False.elim))
    exact ends_onBuilder hstop
  | release => exact hspares _ ((spares_onBuilder hreset).bind fun _ _ hs => hs)
  | load =>
    refine hspares _ (ends_onProvider ((keeps_load lib c.provider rfl).mono ?_ ?_))
    · rintro _ p (hp : p.build = _)
      exact hp ▸ hsame
    · rintro _ p (hp : p.build = _)
      exact hp ▸ hsame
  | reserveSpace size =>
    refine hspares _ (ends_get ?_)
    rw [if_neg (by rw [hflag]; decide)]
    exact hsame
  | lookUpOrInsert cacheKey ptr data fingerprintId =>
    exact lookUpOrInsert_outside hflag hsmall hpossible

/-! ## Runs -/

structure Tracks (s : State) : Prop where
  fresh : Fresh s.cache.provider.build
  small : Small s.cache.misses
  flag : s.agrees = true → s.cache.isBuilding = s.isOpen
  /-- Only a builder that was started has an open step. -/
  isStarted : s.agrees = true → s.isOpen = true → s.cache.builder.isStarted = true
  handled : s.agrees = true → s.handled = true

theorem tracks_new (fd : FileDescriptor) : Tracks (.new fd) :=
  ⟨fun _ => rfl, List.forall_mem_nil _, fun _ => rfl, fun _ => Bool.noConfusion, fun _ => rfl⟩

theorem Call.isStarted_of_opens (lib : Libraries) (call : Call) {isOpen : Bool}
    (hfresh : Fresh c.provider.build) (hopen : c.isBuilding = isOpen)
    (hstarted : isOpen = true → c.builder.isStarted = true)
    (h : call.opens isOpen (succeeds (call.run lib) c) = true) : call.isStarted c = true := by
  subst hopen
  have hsucceeds : ∀ succeeded : Bool, (c.isBuilding || succeeded) = true →
      (c.isBuilding = false → (succeeded = true ↔
        c.builder.isStarted = true ∧ Readable lib c.provider.build)) →
      c.builder.isStarted = true := by
    intro succeeded hor hiff
    cases hflag : c.isBuilding with
    | true => exact hstarted hflag
    | false =>
      rw [hflag, Bool.false_or] at hor
      exact ((hiff hflag).1 hor).1
  cases call with
  | startBuildStep => exact hsucceeds _ h (startBuildStep_succeeds lib hfresh)
  | providerStartBuildStep => exact hsucceeds _ h (providerStartBuildStep_succeeds lib hfresh)
  | stopBuildStep => cases h
  | providerStopBuildStep canResize => cases h
  | reset => cases h
  | release => cases h
  | start => rfl
  | append packId data fingerprintId => exact hstarted h
  | load => exact hstarted h
  | reserveSpace size => exact hstarted h
  | lookUpOrInsert cacheKey ptr data fingerprintId => exact hstarted h

variable {state state' : State} {call : Call}

theorem step_eq_some (h : step lib state call = some state') :
    state'.cache = after (call.run lib) state.cache ∧
      state'.isOpen = call.opens state.isOpen (succeeds (call.run lib) state.cache) ∧
      state'.agrees = (state.agrees && state'.cache.isBuilding == state'.isOpen) ∧
      state'.handled =
        (state.handled && (state.isOpen || decide (call.Handled lib state.cache))) := by
  unfold step at h
  split at h
  · cases h
  · cases h
    exact ⟨rfl, rfl, rfl, rfl⟩

/-- The flag has agreed so far after a call exactly if it had before and the call meets the
condition. -/
theorem Tracks.agrees_iff (h : Tracks state) (hpossible : call.Possible)
    (hs : step lib state call = some state') :
    state'.agrees = true ↔ state.agrees = true ∧ Meets lib state.cache call := by
  obtain ⟨hcache, hopen, hagrees, -⟩ := step_eq_some hs
  have hflag := (Call.run_flag lib call h.fresh h.small hpossible).1.isBuildStep
  rw [hagrees, Bool.and_eq_true, beq_iff_eq, hopen]
  refine and_congr_right fun hbefore => ?_
  rw [← Call.agrees_iff lib call h.fresh (h.flag hbefore) (h.isStarted hbefore), ← hflag, ← hcache]
  exact Iff.rfl

theorem Tracks.step (h : Tracks state) (hpossible : call.Possible)
    (hs : step lib state call = some state') : Tracks state' := by
  obtain ⟨hcache, hopen, hagrees, hhandled⟩ := step_eq_some hs
  obtain ⟨hbecomes, hsmall⟩ := Call.run_flag lib call h.fresh h.small hpossible
  rw [← hcache] at hbecomes hsmall
  have hbefore : state'.agrees = true → state.agrees = true :=
    fun hafter => ((h.agrees_iff hpossible hs).1 hafter).1
  refine ⟨hbecomes.fresh, hsmall, fun hafter => ?_, fun hafter hopen' => ?_, fun hafter => ?_⟩
  · rw [hagrees, Bool.and_eq_true, beq_iff_eq] at hafter
    exact hafter.2
  · rw [hopen] at hopen'
    have hstarted := Call.isStarted_of_opens lib call h.fresh (h.flag (hbefore hafter))
      (h.isStarted (hbefore hafter)) hopen'
    exact hbecomes.isStarted.trans hstarted
  · rw [hhandled, h.handled (hbefore hafter), Bool.true_and, Bool.or_eq_true, decide_eq_true_iff]
    cases hidle : state.isOpen with
    | true => exact .inl rfl
    | false =>
      refine .inr (Call.handled lib call ?_ h.small h.fresh hpossible)
      rw [h.flag (hbefore hafter), hidle]

/-- If the flag has agreed at the end of a run, each of its calls has met the condition. -/
theorem Tracks.run_meets {calls : List Call} (h : Tracks state)
    (hrun : Run (fun _ call => call.Possible) (Intervals.step lib) state calls state')
    (hagrees : state'.agrees = true) :
    state.agrees = true ∧
      Run (fun s call => call.Possible ∧ Meets lib s.cache call) (Intervals.step lib) state calls
        state' := by
  induction hrun with
  | nil s => exact ⟨hagrees, .nil s⟩
  | cons hp hs hrest ih =>
    obtain ⟨hbefore, hmeets⟩ := ih (h.step hp hs) hagrees
    obtain ⟨hbefore, hcall⟩ := (h.agrees_iff hp hs).1 hbefore
    exact ⟨hbefore, .cons ⟨hp, hcall⟩ hs hmeets⟩

instance : ∀ call : Call, Decidable call.Possible
  | .append _ data _ => inferInstanceAs (Decidable (data.length < 2 ^ 63))
  | .lookUpOrInsert _ _ data _ => inferInstanceAs (Decidable (data.length < 2 ^ 63))
  | .reserveSpace size => inferInstanceAs (Decidable (size < 2 ^ 63))
  | .start | .startBuildStep | .stopBuildStep | .reset | .providerStartBuildStep
  | .providerStopBuildStep _ | .release | .load => isTrue trivial

/-- A key is inserted outside of a step, and another one in it. -/
def insertedTwice : List Call :=
  [.start, .lookUpOrInsert ⟨1, 2, 3⟩ ⟨9, 0⟩ [7] 1, .providerStartBuildStep,
    .lookUpOrInsert ⟨1, 2, 4⟩ ⟨8, 0⟩ [7] 1, .providerStopBuildStep true]

def emptyStep : List Call :=
  [.start, .providerStartBuildStep, .providerStopBuildStep true,
    .lookUpOrInsert ⟨1, 2, 3⟩ ⟨9, 0⟩ [7] 1]

end LiteRt.WeightCache.Intervals
