import LiteRt.Lib.Run
import LiteRt.Lib.Words

/-!
# The buffer of profile events

`BeginEvent` returns the index of the entry it writes as a handle, and for an event that the
full buffer drops the index that would come next. `EndEvent` reads a handle as an index modulo
the capacity.
-/

namespace LiteRt.Profiling

open List

variable {s : Session} {log : Log} {n : Nat} {f : ProfileEvent → ProfileEvent} {k : Nat}
  {l : List ProfileEvent} {handle : Nat}

inductive EventType where
  | default
  | operatorInvokeEvent
  | delegateOperatorInvokeEvent
  | delegateProfiledOperatorInvokeEvent
  | generalRuntimeInstrumentationEvent
  | telemetryEvent
  | telemetryReportSettings
  | telemetryDelegateEvent
  | telemetryDelegateReportSettings
  deriving DecidableEq, Repr

structure MemoryUsage where
  memFootprintKb : Int
  totalAllocatedBytes : Int
  inUseAllocatedBytes : Int
  privateFootprintBytes : Int
  deriving DecidableEq, Repr

/-- Zero is `kValueNotSet`. -/
def MemoryUsage.notSet : MemoryUsage := ⟨0, 0, 0, 0⟩

structure ProfileEvent where
  tag : String
  beginTimestampUs : UInt64
  elapsedTime : UInt64
  beginMemUsage : MemoryUsage
  endMemUsage : MemoryUsage
  /-- An entry never written has the type zero, which is none of the types. -/
  eventType : Option EventType
  eventMetadata : Int
  extraEventMetadata : Int
  deriving DecidableEq, Repr

def ProfileEvent.fresh : ProfileEvent where
  tag := ""
  beginTimestampUs := 0
  elapsedTime := 0
  beginMemUsage := .notSet
  endMemUsage := .notSet
  eventType := none
  eventMetadata := 0
  extraEventMetadata := 0

/-- The arguments of `BeginEvent`, and what the clock and the memory statistics say. -/
structure BeginCall where
  tag : String
  eventType : EventType
  eventMetadata1 : Int
  eventMetadata2 : Int
  nowMicros : UInt64
  memoryUsage : MemoryUsage

structure EndCall where
  eventMetadata1 : Option Int
  eventMetadata2 : Option Int
  nowMicros : UInt64
  memoryUsage : MemoryUsage

structure AddCall where
  tag : String
  eventType : EventType
  elapsedTime : UInt64
  eventMetadata1 : Int
  eventMetadata2 : Int

/-- What `BeginEvent` writes to an entry. -/
def ProfileEvent.begun (entry : ProfileEvent) (call : BeginCall) : ProfileEvent :=
  { entry with
    tag := call.tag
    eventType := some call.eventType
    eventMetadata := call.eventMetadata1
    extraEventMetadata := call.eventMetadata2
    beginTimestampUs := call.nowMicros
    elapsedTime := 0
    beginMemUsage :=
      if call.eventType ≠ .operatorInvokeEvent then call.memoryUsage else entry.beginMemUsage }

/-- What `EndEvent` writes to an entry. -/
def ProfileEvent.ended (entry : ProfileEvent) (call : EndCall) : ProfileEvent :=
  { entry with
    elapsedTime := call.nowMicros - entry.beginTimestampUs
    endMemUsage :=
      if entry.eventType ≠ some .operatorInvokeEvent then call.memoryUsage else entry.endMemUsage
    eventMetadata := call.eventMetadata1.getD entry.eventMetadata
    extraEventMetadata := call.eventMetadata2.getD entry.extraEventMetadata }

/-- What `AddEvent` writes to an entry. -/
def ProfileEvent.added (entry : ProfileEvent) (call : AddCall) : ProfileEvent :=
  { entry with
    tag := call.tag
    eventType := some call.eventType
    eventMetadata := call.eventMetadata1
    extraEventMetadata := call.eventMetadata2
    beginTimestampUs := 0
    elapsedTime := call.elapsedTime }

structure ProfileBuffer where
  enabled : Bool
  currentIndex : Nat
  eventBuffer : List ProfileEvent
  allowDynamicExpansion : Bool
  deriving DecidableEq, Repr

/-- What is undefined behaviour in the source. -/
inductive Fault where
  | moduloZero
  | outOfBounds
  deriving DecidableEq, Repr

def kInvalidEventHandle : Nat := 4294967294

/-- An `int` stored in a `uint32_t`. -/
def toUint32 (i : Int) : Nat := (i % 4294967296).toNat

/-- Writes to `event_buffer_[index]`. -/
def writeAt (events : List ProfileEvent) (index : Int) (f : ProfileEvent → ProfileEvent) :
    Except Fault (List ProfileEvent) :=
  if 0 ≤ index ∧ index.toNat < events.length then .ok (events.modify index.toNat f)
  else .error .outOfBounds

/-- `resize` of the vector. -/
def resize (events : List ProfileEvent) (n : Nat) : List ProfileEvent :=
  events.take n ++ List.replicate (n - events.length) .fresh

namespace ProfileBuffer

def new (maxNumEntries : Nat) (enabled allowDynamicExpansion : Bool) : ProfileBuffer where
  enabled := enabled
  currentIndex := 0
  eventBuffer := List.replicate maxNumEntries .fresh
  allowDynamicExpansion := allowDynamicExpansion

/-- What `GetNextEntryIndex` returns: the index, and whether the event is dropped. -/
structure NextEntry where
  index : Int
  full : Bool
  eventBuffer : List ProfileEvent

def getNextEntryIndex (b : ProfileBuffer) : Except Fault NextEntry :=
  if b.eventBuffer.length = 0 then .error .moduloZero
  else
    let index := Lib.signed32 (b.currentIndex % b.eventBuffer.length)
    if b.currentIndex = 0 ∨ index ≠ 0 then .ok ⟨index, false, b.eventBuffer⟩
    else if !b.allowDynamicExpansion then .ok ⟨Lib.signed32 b.currentIndex, true, b.eventBuffer⟩
    else
      -- the product is one of `uint32_t`
      .ok ⟨Lib.signed32 b.currentIndex, false,
        resize b.eventBuffer (b.currentIndex * 2 % 4294967296)⟩

def setEnabled (b : ProfileBuffer) (enabled : Bool) : ProfileBuffer := { b with enabled }

/-- The handle and the buffer. -/
def beginEvent (b : ProfileBuffer) (call : BeginCall) : Except Fault (Nat × ProfileBuffer) :=
  if !b.enabled then .ok (kInvalidEventHandle, b)
  else do
    let next ← b.getNextEntryIndex
    if next.full then return (toUint32 next.index, b)
    let events ← writeAt next.eventBuffer next.index (·.begun call)
    return (toUint32 next.index,
      { b with eventBuffer := events, currentIndex := (b.currentIndex + 1) % 4294967296 })

def endEvent (b : ProfileBuffer) (eventHandle : Nat) (call : EndCall) :
    Except Fault ProfileBuffer :=
  if !b.enabled ∨ eventHandle = kInvalidEventHandle ∨ eventHandle > b.currentIndex then .ok b
  else
    let maxSize := b.eventBuffer.length % 4294967296
    if b.currentIndex > (maxSize + eventHandle) % 4294967296 then .ok b
    else if maxSize = 0 then .error .moduloZero
    else do
      let events ← writeAt b.eventBuffer (Lib.signed32 (eventHandle % maxSize)) (·.ended call)
      return { b with eventBuffer := events }

def addEvent (b : ProfileBuffer) (call : AddCall) : Except Fault ProfileBuffer :=
  if !b.enabled then .ok b
  else do
    let next ← b.getNextEntryIndex
    if next.full then return b
    let events ← writeAt next.eventBuffer next.index (·.added call)
    return { b with eventBuffer := events, currentIndex := (b.currentIndex + 1) % 4294967296 }

def size (b : ProfileBuffer) : Nat :=
  if b.currentIndex ≥ b.eventBuffer.length then b.eventBuffer.length else b.currentIndex

/-- `At`, where `none` is the null pointer. -/
def get? (b : ProfileBuffer) (index : Nat) : Option ProfileEvent :=
  if index ≥ b.size then none
  else
    let maxSize := b.eventBuffer.length % 4294967296
    let start := if b.currentIndex > maxSize then b.currentIndex % maxSize else maxSize
    b.eventBuffer[(index + start) % maxSize]?

end ProfileBuffer

/-!
## A profile as a log

What a profile is for: the events are logged in the order they are recorded, and ending one
changes the entry that its beginning made. The buffer follows the log as long as no event that
it dropped is ended.
-/

/-- The calls of a session. An event is ended with the handle that one of the calls of
`BeginEvent` returned, named by its number. -/
inductive Op where
  | setEnabled (enabled : Bool)
  | beginEvent (call : BeginCall)
  | addEvent (call : AddCall)
  | endEvent (begun : Nat) (call : EndCall)

/-! ### The log -/

structure Log where
  enabled : Bool
  /-- `none` is a log that expands. -/
  capacity : Option Nat
  events : List ProfileEvent
  /-- For each call of `BeginEvent` the entry it made. -/
  created : List (Option Nat)

namespace Log

def Full (log : Log) : Prop := ∃ n, log.capacity = some n ∧ n ≤ log.events.length

instance (log : Log) : Decidable log.Full :=
  decidable_of_iff (log.capacity.any fun n => decide (n ≤ log.events.length)) <| by
    unfold Full
    rw [Option.any_eq_true]
    simp only [decide_eq_true_eq]

def step (log : Log) : Op → Log
  | .setEnabled enabled => { log with enabled }
  | .beginEvent call =>
    if log.enabled = true ∧ ¬log.Full then
      { log with
        events := log.events ++ [ProfileEvent.fresh.begun call]
        created := log.created ++ [some log.events.length] }
    else { log with created := log.created ++ [none] }
  | .addEvent call =>
    if log.enabled = true ∧ ¬log.Full then
      { log with events := log.events ++ [ProfileEvent.fresh.added call] }
    else log
  | .endEvent begun call =>
    match log.created[begun]? with
    | some (some k) =>
      if log.enabled = true then { log with events := log.events.modify k (·.ended call) } else log
    | _ => log

end Log

/-! ### The buffer in a session -/

/-- A buffer and the handles it has returned. -/
structure Session where
  buffer : ProfileBuffer
  handles : List Nat
  deriving DecidableEq, Repr

namespace Session

def step (s : Session) : Op → Except Fault Session
  | .setEnabled enabled => .ok { s with buffer := s.buffer.setEnabled enabled }
  | .beginEvent call => do
    let r ← s.buffer.beginEvent call
    return ⟨r.2, s.handles ++ [r.1]⟩
  | .addEvent call => do
    let b ← s.buffer.addEvent call
    return { s with buffer := b }
  | .endEvent begun call =>
    match s.handles[begun]? with
    | none => .ok s
    | some handle => do
      let b ← s.buffer.endEvent handle call
      return { s with buffer := b }

/-- The events in the order of `At`. -/
def retained (s : Session) : List (Option ProfileEvent) :=
  (List.range s.buffer.size).map s.buffer.get?

end Session

def Session.new (capacity : Nat) (enabled expands : Bool) : Session where
  buffer := .new capacity enabled expands
  handles := []

def Log.new (capacity : Nat) (enabled expands : Bool) : Log where
  enabled := enabled
  capacity := if expands then none else some capacity
  events := []
  created := []

/-- An entry may be taken, or the event dropped. -/
def ProfileBuffer.CanRecord (b : ProfileBuffer) : Prop :=
  b.enabled = true → 0 < b.eventBuffer.length ∧ (b.currentIndex < 2147483648 ∨
      (b.allowDynamicExpansion = false ∧ b.currentIndex = b.eventBuffer.length))

/-- The condition on the state before a call: an event is ended with a handle that is not the
one of a dropped event. -/
def Session.Admits (s : Session) : Op → Prop
  | .setEnabled _ => True
  | .beginEvent _ => s.buffer.CanRecord
  | .addEvent _ => s.buffer.CanRecord
  | .endEvent begun _ => ∀ handle, s.handles[begun]? = some handle → s.buffer.enabled = true →
      handle ≠ kInvalidEventHandle →
      handle ≠ s.buffer.currentIndex ∧ s.buffer.eventBuffer.length + handle < 4294967296

/-! ### The simulation -/

/-- A handle names the entry its event made, or the end of the full buffer. -/
def HandleOf (log : Log) (handle : Nat) : Option Nat → Prop
  | some k => handle = k ∧ k < log.events.length
  | none => handle = kInvalidEventHandle ∨
      (log.Full ∧ handle = log.events.length)

/-- The entries of a log are the first of the buffer. -/
structure Follows (s : Session) (log : Log) : Prop where
  enabled : s.buffer.enabled = log.enabled
  current : s.buffer.currentIndex = log.events.length
  bound : log.events.length ≤ 2147483648
  entries : ∃ n, s.buffer.eventBuffer = log.events ++ List.replicate n ProfileEvent.fresh
  size : s.buffer.eventBuffer.length < 4294967296
  capacity : log.capacity =
    if s.buffer.allowDynamicExpansion then none else some s.buffer.eventBuffer.length
  handles : List.Forall₂ (HandleOf log) s.handles log.created

theorem follows_new (capacity : Nat) (hcap : capacity < 4294967296) (enabled expands : Bool) :
    Follows (.new capacity enabled expands) (.new capacity enabled expands) where
  enabled := rfl
  current := rfl
  bound := Nat.zero_le _
  entries := ⟨capacity, rfl⟩
  size := by
    show (List.replicate capacity ProfileEvent.fresh).length < 4294967296
    rwa [length_replicate]
  capacity := by
    show _ = if expands then none else some (List.replicate capacity ProfileEvent.fresh).length
    rw [length_replicate]
    rfl
  handles := .nil

namespace Follows

variable {s : Session} {log : Log}

theorem length_le (h : Follows s log) : log.events.length ≤ s.buffer.eventBuffer.length := by
  obtain ⟨n, hn⟩ := h.entries
  rw [hn, length_append]
  omega

theorem full_iff (h : Follows s log) :
    log.Full ↔ s.buffer.allowDynamicExpansion = false ∧
      s.buffer.currentIndex = s.buffer.eventBuffer.length := by
  have hle := h.length_le
  unfold Log.Full
  rw [h.capacity, h.current]
  cases s.buffer.allowDynamicExpansion with
  | true => simp
  | false =>
    rw [if_neg Bool.false_ne_true]
    constructor
    · rintro ⟨n, hn, hfull⟩
      cases hn
      exact ⟨rfl, by omega⟩
    · rintro ⟨-, heq⟩
      exact ⟨_, rfl, heq.ge⟩

end Follows

/-- A write behind the entries of a list that has fresh ones left appends. -/
theorem modify_append_replicate (hn : 0 < n) :
    (l ++ List.replicate n ProfileEvent.fresh).modify l.length f =
      l ++ [f .fresh] ++ List.replicate (n - 1) ProfileEvent.fresh := by
  induction l with
  | nil =>
    obtain ⟨m, rfl⟩ : ∃ m, n = m + 1 := ⟨n - 1, by omega⟩
    rfl
  | cons e l ih =>
    show (e :: (l ++ List.replicate n .fresh)).modify (l.length + 1) f = _
    rw [modify_succ_cons, ih]
    rfl

/-- A write among the entries leaves the fresh ones. -/
theorem modify_append_left {l r : List ProfileEvent} (hk : k < l.length) :
    (l ++ r).modify k f = l.modify k f ++ r := by
  induction l generalizing k with
  | nil => exact absurd hk (Nat.not_lt_zero k)
  | cons e l ih =>
    cases k with
    | zero => rfl
    | succ k =>
      show (e :: (l ++ r)).modify (k + 1) f = _
      rw [modify_succ_cons, ih (Nat.lt_of_succ_lt_succ hk)]
      rfl

theorem signed32_of_lt (h : n < 2147483648) : Lib.signed32 n = n := if_pos h

theorem toUint32_natCast (h : n < 4294967296) : toUint32 (n : Int) = n := by
  unfold toUint32
  omega

/-! ### The next entry -/

section
variable {b : ProfileBuffer}

/-- A buffer with room offers the entry behind those in use. -/
theorem getNextEntryIndex_free (hroom : b.currentIndex < b.eventBuffer.length)
    (hlt : b.currentIndex < 2147483648) :
    b.getNextEntryIndex = .ok ⟨b.currentIndex, false, b.eventBuffer⟩ := by
  unfold ProfileBuffer.getNextEntryIndex
  rw [if_neg (by omega)]
  dsimp only
  rw [Nat.mod_eq_of_lt hroom, signed32_of_lt hlt, if_pos (by omega)]

/-- Where all entries are in use the remainder is zero, which is taken for no entry left. -/
theorem getNextEntryIndex_used (hpos : 0 < b.eventBuffer.length)
    (hused : b.currentIndex = b.eventBuffer.length) :
    b.getNextEntryIndex =
      if !b.allowDynamicExpansion then .ok ⟨Lib.signed32 b.currentIndex, true, b.eventBuffer⟩
      else .ok ⟨Lib.signed32 b.currentIndex, false,
        resize b.eventBuffer (b.currentIndex * 2 % 4294967296)⟩ := by
  have hzero : ¬(b.currentIndex = 0 ∨ Lib.signed32 0 ≠ 0) := by
    rintro (h0 | h0)
    · omega
    · exact h0 rfl
  unfold ProfileBuffer.getNextEntryIndex
  rw [if_neg (by omega)]
  dsimp only
  rw [hused, Nat.mod_self, ← hused, if_neg hzero]

theorem resize_double (l : List ProfileEvent) :
    resize l (2 * l.length) = l ++ List.replicate l.length .fresh := by
  unfold resize
  rw [take_of_length_le (by omega), Nat.two_mul, Nat.add_sub_cancel]

end

/-- The entry an enabled buffer offers that is not full: its index is the number of the
events, and the entries stay. -/
theorem Follows.getNextEntryIndex (h : Follows s log) (henabled : s.buffer.enabled = true)
    (hcan : s.buffer.CanRecord) :
    (log.Full ∧ ∃ index, toUint32 index = log.events.length ∧
        s.buffer.getNextEntryIndex = .ok ⟨index, true, s.buffer.eventBuffer⟩) ∨
      (¬log.Full ∧ log.events.length < 2147483648 ∧ ∃ n, 0 < n ∧
        log.events.length + n < 4294967296 ∧
        (s.buffer.allowDynamicExpansion = false →
          s.buffer.eventBuffer.length = log.events.length + n) ∧
        s.buffer.getNextEntryIndex =
          .ok ⟨log.events.length, false, log.events ++ List.replicate n .fresh⟩) := by
  obtain ⟨hpos, hroom⟩ := hcan henabled
  obtain ⟨n, hn⟩ := h.entries
  have hcur := h.current
  have hsize := h.size
  have hbound := h.bound
  have hlen : s.buffer.eventBuffer.length = log.events.length + n := by
    rw [hn, length_append, length_replicate]
  by_cases hn0 : n = 0
  · have hused := getNextEntryIndex_used hpos (by omega)
    have hbuffer : s.buffer.eventBuffer = log.events := by
      rw [hn, hn0, replicate_zero, append_nil]
    cases hallow : s.buffer.allowDynamicExpansion with
    | false =>
      rw [hallow, Bool.not_false, if_pos rfl] at hused
      refine .inl ⟨h.full_iff.2 ⟨hallow, by omega⟩, Lib.signed32 s.buffer.currentIndex, ?_, hused⟩
      rw [hcur]
      unfold toUint32 Lib.signed32
      split <;> omega
    | true =>
      rw [hallow, Bool.not_true, if_neg Bool.false_ne_true] at hused
      have hlt : s.buffer.currentIndex < 2147483648 := by
        rcases hroom with hlt | hfull
        · exact hlt
        · exact absurd (hallow.symm.trans hfull.1) Bool.true_eq_false.mp
      have hnot : ¬log.Full := fun hfull =>
        absurd (hallow.symm.trans (h.full_iff.1 hfull).1) Bool.true_eq_false.mp
      have hdouble : s.buffer.currentIndex * 2 % 4294967296 = 2 * log.events.length := by omega
      refine .inr ⟨hnot, by omega, log.events.length, by omega, by omega,
        fun hf => Bool.noConfusion hf, ?_⟩
      rw [hused, hdouble, hbuffer, resize_double, hcur, signed32_of_lt (by omega)]
  · have hlt : s.buffer.currentIndex < 2147483648 := by
      rcases hroom with hlt | hfull
      · exact hlt
      · omega
    have hnot : ¬log.Full := fun hfull => by
      have := (h.full_iff.1 hfull).2
      omega
    refine .inr ⟨hnot, by omega, n, by omega, by omega, fun _ => hlen, ?_⟩
    rw [getNextEntryIndex_free (by omega) hlt, hcur, hn]

theorem writeAt_next (hn : 0 < n) :
    writeAt (l ++ List.replicate n .fresh) l.length f =
      .ok (l ++ [f .fresh] ++ List.replicate (n - 1) ProfileEvent.fresh) := by
  have hindex : 0 ≤ (l.length : Int) ∧
      (l.length : Int).toNat < (l ++ List.replicate n ProfileEvent.fresh).length := by
    rw [length_append, length_replicate]
    omega
  unfold writeAt
  rw [if_pos hindex, Int.toNat_natCast, modify_append_replicate hn]

theorem HandleOf.mono {log log' : Log} {o : Option Nat} (h : HandleOf log handle o)
    (hfull : ¬log.Full) (hlen : log.events.length ≤ log'.events.length) :
    HandleOf log' handle o := by
  cases o with
  | some k => exact ⟨h.1, Nat.lt_of_lt_of_le h.2 hlen⟩
  | none => exact .inl (h.resolve_right fun hf => hfull hf.1)

/-- A recorded event goes behind the others, in the buffer as in the log. -/
theorem Follows.record (h : Follows s log) (hlt : log.events.length < 2147483648) (hn : 0 < n)
    (hsum : log.events.length + n < 4294967296)
    (hfix : s.buffer.allowDynamicExpansion = false → s.buffer.eventBuffer.length =
      log.events.length + n)
    (e : ProfileEvent) {handles : List Nat} {created : List (Option Nat)}
    (hhandles : List.Forall₂ (HandleOf { log with events := log.events ++ [e] }) handles created) :
    Follows
      { buffer := { s.buffer with
          eventBuffer := log.events ++ [e] ++ List.replicate (n - 1) .fresh
          currentIndex := (s.buffer.currentIndex + 1) % 4294967296 }
        handles := handles }
      { log with
        events := log.events ++ [e]
        created := created } := by
  have hlen : (log.events ++ [e] ++ List.replicate (n - 1) ProfileEvent.fresh).length =
      log.events.length + n := by
    rw [length_append, length_append, length_singleton, length_replicate]
    omega
  have hcur := h.current
  have hone : (log.events ++ [e]).length = log.events.length + 1 := length_append
  refine ⟨h.enabled, ?_, ?_, ⟨n - 1, rfl⟩, ?_, ?_, hhandles⟩
  · show (s.buffer.currentIndex + 1) % 4294967296 = (log.events ++ [e]).length
    omega
  · show (log.events ++ [e]).length ≤ 2147483648
    omega
  · show (log.events ++ [e] ++ List.replicate (n - 1) ProfileEvent.fresh).length < 4294967296
    omega
  · show log.capacity = if s.buffer.allowDynamicExpansion then none else
      some (log.events ++ [e] ++ List.replicate (n - 1) ProfileEvent.fresh).length
    rw [h.capacity, hlen]
    split
    · rfl
    · rw [hfix (by simpa using ‹¬s.buffer.allowDynamicExpansion = true›)]

theorem Follows.setEnabled (h : Follows s log) (enabled : Bool) :
    Follows { s with buffer := s.buffer.setEnabled enabled } { log with enabled } :=
  { h with enabled := rfl }

/-- `BeginEvent` keeps the buffer with the log, and its handle names the entry made. -/
theorem Follows.beginEvent (h : Follows s log) (call : BeginCall) (hcan : s.buffer.CanRecord) :
    ∃ s', s.step (.beginEvent call) = .ok s' ∧ Follows s' (log.step (.beginEvent call)) := by
  have hnot : ∀ {handle}, HandleOf log handle none →
      Follows ⟨s.buffer, s.handles ++ [handle]⟩ { log with created := log.created ++ [none] } :=
    fun hh => { h with handles := rel_append h.handles (.cons hh .nil) }
  unfold Session.step Log.step ProfileBuffer.beginEvent
  dsimp only
  by_cases henabled : s.buffer.enabled = true
  · rw [if_neg (show ¬(!s.buffer.enabled) = true by rw [henabled]; decide)]
    rcases h.getNextEntryIndex henabled hcan with
      ⟨hfull, index, hindex, hnext⟩ | ⟨hfull, hlt, n, hn, hsum, hfix, hnext⟩
    · rw [hnext, if_neg fun hc => hc.2 hfull]
      exact ⟨_, rfl, hnot (.inr ⟨hfull, hindex⟩)⟩
    · rw [hnext, if_pos ⟨h.enabled.symm.trans henabled, hfull⟩, Lib.ok_bind]
      dsimp only
      rw [if_neg Bool.false_ne_true, writeAt_next hn, toUint32_natCast (by omega)]
      refine ⟨_, rfl, h.record hlt hn hsum hfix _ (rel_append ?_ (.cons ?_ .nil))⟩
      · refine h.handles.imp fun handle o ho => ho.mono hfull ?_
        exact length_append.symm ▸ Nat.le_add_right _ _
      · exact ⟨rfl, length_append.symm ▸ Nat.lt_succ_self _⟩
  · have hoff : (!s.buffer.enabled) = true := by simpa using henabled
    rw [if_pos hoff, if_neg fun hc => henabled (h.enabled.trans hc.1)]
    exact ⟨_, rfl, hnot (.inl rfl)⟩

/-- `AddEvent` keeps the buffer with the log. -/
theorem Follows.addEvent (h : Follows s log) (call : AddCall) (hcan : s.buffer.CanRecord) :
    ∃ s', s.step (.addEvent call) = .ok s' ∧ Follows s' (log.step (.addEvent call)) := by
  unfold Session.step Log.step ProfileBuffer.addEvent
  dsimp only
  by_cases henabled : s.buffer.enabled = true
  · rw [if_neg (show ¬(!s.buffer.enabled) = true by rw [henabled]; decide)]
    rcases h.getNextEntryIndex henabled hcan with
      ⟨hfull, index, hindex, hnext⟩ | ⟨hfull, hlt, n, hn, hsum, hfix, hnext⟩
    · rw [hnext, if_neg fun hc => hc.2 hfull]
      exact ⟨_, rfl, h⟩
    · rw [hnext, if_pos ⟨h.enabled.symm.trans henabled, hfull⟩, Lib.ok_bind]
      dsimp only
      rw [if_neg Bool.false_ne_true, writeAt_next hn]
      refine ⟨_, rfl, h.record hlt hn hsum hfix _ ?_⟩
      refine h.handles.imp fun handle o ho => ho.mono hfull ?_
      exact length_append.symm ▸ Nat.le_add_right _ _
  · have hoff : (!s.buffer.enabled) = true := by simpa using henabled
    rw [if_pos hoff, if_neg fun hc => henabled (h.enabled.trans hc.1)]
    exact ⟨_, rfl, h⟩

theorem writeAt_entry {l r : List ProfileEvent} (hk : k < l.length) :
    writeAt (l ++ r) k f = .ok (l.modify k f ++ r) := by
  have hindex : 0 ≤ (k : Int) ∧ (k : Int).toNat < (l ++ r).length := by
    rw [length_append]
    omega
  unfold writeAt
  rw [if_pos hindex, Int.toNat_natCast, modify_append_left hk]

/-- A change of one entry, in the buffer as in the log. -/
theorem Follows.modify (h : Follows s log)
    (hn : s.buffer.eventBuffer = log.events ++ List.replicate n .fresh) (k : Nat)
    (f : ProfileEvent → ProfileEvent) :
    Follows
      { s with
        buffer :=
          { s.buffer with eventBuffer := log.events.modify k f ++ List.replicate n .fresh } }
      { log with events := log.events.modify k f } := by
  have hmod : (log.events.modify k f).length = log.events.length := length_modify f _ k
  have hlen : (log.events.modify k f ++ List.replicate n ProfileEvent.fresh).length =
      s.buffer.eventBuffer.length := by
    rw [hn, length_append, length_append, hmod]
  refine ⟨h.enabled, h.current.trans hmod.symm, hmod.trans_le h.bound, ⟨n, rfl⟩,
    hlen.trans_lt h.size, ?_, h.handles.imp fun handle o ho => ?_⟩
  · show log.capacity = if s.buffer.allowDynamicExpansion then none else
      some (log.events.modify k f ++ List.replicate n ProfileEvent.fresh).length
    rw [hlen]
    exact h.capacity
  · unfold HandleOf Log.Full at ho ⊢
    dsimp only
    rwa [hmod]

/-- The entry a handle names is the one `EndEvent` writes to. -/
theorem Follows.endEvent_entry (h : Follows s log) (call : EndCall) (hk : k < log.events.length)
    (henabled : s.buffer.enabled = true) (hsum : s.buffer.eventBuffer.length + k < 4294967296) :
    ∃ n, s.buffer.eventBuffer = log.events ++ List.replicate n .fresh ∧
      s.buffer.endEvent k call = .ok
        { s.buffer with
          eventBuffer := log.events.modify k (·.ended call) ++ List.replicate n .fresh } := by
  obtain ⟨n, hn⟩ := h.entries
  have hcur := h.current
  have hbound := h.bound
  have hle := h.length_le
  have hmax : s.buffer.eventBuffer.length % 4294967296 = s.buffer.eventBuffer.length :=
    Nat.mod_eq_of_lt h.size
  have hearly : ¬((!s.buffer.enabled) = true ∨ k = kInvalidEventHandle ∨
      k > s.buffer.currentIndex) := by
    rw [henabled]
    unfold kInvalidEventHandle
    rintro (hoff | hk' | hk')
    · exact Bool.noConfusion hoff
    · omega
    · omega
  refine ⟨n, hn, ?_⟩
  unfold ProfileBuffer.endEvent
  rw [if_neg hearly]
  dsimp only
  rw [hmax, Nat.mod_eq_of_lt hsum, if_neg (by omega), if_neg (by omega),
    Nat.mod_eq_of_lt (show k < s.buffer.eventBuffer.length by omega),
    signed32_of_lt (by omega)]
  nth_rewrite 1 [hn]
  rw [writeAt_entry hk]
  rfl

/-- An event that made no entry ends without a change. -/
theorem Follows.endEvent_dropped (h : Follows s log) (call : EndCall)
    (hdropped : HandleOf log handle none)
    (hnot : s.buffer.enabled = true → handle ≠ kInvalidEventHandle →
      handle ≠ s.buffer.currentIndex) :
    s.buffer.endEvent handle call = .ok s.buffer := by
  unfold ProfileBuffer.endEvent
  rw [if_pos]
  by_cases henabled : s.buffer.enabled = true
  · rcases hdropped with hinv | ⟨-, heq⟩
    · exact .inr (.inl hinv)
    · by_cases hinv : handle = kInvalidEventHandle
      · exact .inr (.inl hinv)
      · exact absurd (heq.trans h.current.symm) (hnot henabled hinv)
  · exact .inl (by simpa using henabled)

/-- `EndEvent` keeps the buffer with the log. -/
theorem Follows.endEvent (h : Follows s log) (begun : Nat) (call : EndCall)
    (hadmits : s.Admits (.endEvent begun call)) :
    ∃ s', s.step (.endEvent begun call) = .ok s' ∧
      Follows s' (log.step (.endEvent begun call)) := by
  have hhandles := forall₂_iff_get.1 h.handles
  unfold Session.step Log.step
  dsimp only
  cases hhandle : s.handles[begun]? with
  | none =>
    have hcreated : log.created[begun]? = none := by
      rw [List.getElem?_eq_none_iff] at hhandle ⊢
      omega
    rw [hcreated]
    exact ⟨s, rfl, h⟩
  | some handle =>
    obtain ⟨hlt, hget⟩ := List.getElem?_eq_some_iff.1 hhandle
    have hlt' : begun < log.created.length := hhandles.1 ▸ hlt
    have hrel := hhandles.2 begun hlt hlt'
    rw [get_eq_getElem, get_eq_getElem, hget] at hrel
    rw [getElem?_eq_getElem hlt']
    dsimp only
    cases hcreated : log.created[begun] with
    | none =>
      rw [hcreated] at hrel
      rw [h.endEvent_dropped call hrel fun hon hinv => (hadmits handle hhandle hon hinv).1]
      exact ⟨s, rfl, h⟩
    | some k =>
      rw [hcreated] at hrel
      obtain ⟨rfl, hk⟩ := hrel
      dsimp only
      have hbound := h.bound
      by_cases henabled : s.buffer.enabled = true
      · have hinv : handle ≠ kInvalidEventHandle := by
          unfold kInvalidEventHandle
          omega
        obtain ⟨n, hn, hend⟩ := h.endEvent_entry call hk henabled
          (hadmits handle hhandle henabled hinv).2
        rw [hend, if_pos (h.enabled.symm.trans henabled)]
        exact ⟨_, rfl, h.modify hn handle (·.ended call)⟩
      · have hoff : s.buffer.endEvent handle call = .ok s.buffer := by
          unfold ProfileBuffer.endEvent
          rw [if_pos (.inl (by simpa using henabled))]
        rw [hoff, if_neg fun hon => henabled (h.enabled.trans hon)]
        exact ⟨s, rfl, h⟩

theorem Follows.step (op : Op) (hadmits : s.Admits op) (h : Follows s log) :
    ∃ s', s.step op = .ok s' ∧ Follows s' (log.step op) := by
  cases op with
  | setEnabled enabled => exact ⟨_, rfl, h.setEnabled enabled⟩
  | beginEvent call => exact h.beginEvent call hadmits
  | addEvent call => exact h.addEvent call hadmits
  | endEvent begun call => exact h.endEvent begun call hadmits

/-- `Size` and `At` enumerate the log. -/
theorem Follows.retained (h : Follows s log) :
    s.retained = log.events.map some := by
  obtain ⟨n, hn⟩ := h.entries
  have hcur := h.current
  have hle := h.length_le
  have hmax : s.buffer.eventBuffer.length % 4294967296 = s.buffer.eventBuffer.length :=
    Nat.mod_eq_of_lt h.size
  have hsize : s.buffer.size = log.events.length := by
    unfold ProfileBuffer.size
    split <;> omega
  have hget : ∀ i, i < log.events.length → s.buffer.get? i = log.events[i]? := by
    intro i hi
    unfold ProfileBuffer.get?
    rw [if_neg (by omega)]
    dsimp only
    rw [hmax, if_neg (by omega), Nat.add_mod_right, Nat.mod_eq_of_lt (by omega), hn,
      getElem?_append_left hi]
  unfold Session.retained
  rw [hsize]
  refine ext_getElem? fun i => ?_
  by_cases hi : i < log.events.length
  · rw [getElem?_map, getElem?_map, getElem?_range hi, Option.map_some, hget i hi,
      getElem?_eq_getElem hi]
    rfl
  · rw [getElem?_eq_none (by rw [length_map, length_range]; omega),
      getElem?_eq_none (by rw [length_map]; omega)]

/-- In a run that ends no dropped event the buffer shows the log of the run. -/
theorem run_retained_eq_log (capacity : Nat) (hcap : capacity < 4294967296)
    (enabled expands : Bool) (ops : List Op)
    (hops : Lib.Guarded Session.Admits Session.step (.new capacity enabled expands) ops) :
    ∃ s, ops.foldlM Session.step (.new capacity enabled expands) = .ok s ∧
      s.retained = (ops.foldl Log.step (.new capacity enabled expands)).events.map some := by
  obtain ⟨s, hrun, hfollows⟩ := hops.simulates (R := Follows)
    (fun _ _ op hadmits h => h.step op hadmits) (follows_new capacity hcap enabled expands)
  exact ⟨s, hrun, hfollows.retained⟩

/-- An event of a node that takes no time. -/
def someBegin : BeginCall where
  tag := "node"
  eventType := .default
  eventMetadata1 := 0
  eventMetadata2 := 0
  nowMicros := 0
  memoryUsage := .notSet

def someEnd : EndCall where
  eventMetadata1 := some 1
  eventMetadata2 := none
  nowMicros := 0
  memoryUsage := .notSet

theorem run_retained_beginEnd :
    Lib.Guarded Session.Admits Session.step (.new 1 true false)
      [.beginEvent someBegin, .endEvent 0 someEnd] ∧
    ∃ s, [Op.beginEvent someBegin, .endEvent 0 someEnd].foldlM Session.step (.new 1 true false) =
      .ok s ∧ s.retained = [some ((ProfileEvent.fresh.begun someBegin).ended someEnd)] := by
  have hguard : Lib.Guarded Session.Admits Session.step (.new 1 true false)
      [.beginEvent someBegin, .endEvent 0 someEnd] := by
    refine ⟨fun _ => ⟨by decide, .inl (by decide)⟩, fun s' hs => ?_⟩
    cases hs
    refine ⟨fun handle hhandle _ _ => ?_, fun _ _ => trivial⟩
    cases hhandle
    exact ⟨by decide, by decide⟩
  exact ⟨hguard, run_retained_eq_log 1 (by decide) true false _ hguard⟩

/-- The end of an event that a buffer of one entry dropped changes the entry. -/
theorem run_endDropped_changes_entry :
    ¬∀ (capacity : Nat) (enabled expands : Bool) (ops : List Op), capacity < 4294967296 →
      ∃ s, ops.foldlM Session.step (.new capacity enabled expands) = .ok s ∧
        s.retained = (ops.foldl Log.step (.new capacity enabled expands)).events.map some := by
  intro h
  obtain ⟨s, hrun, hretained⟩ := h 1 true false
    [.beginEvent someBegin, .beginEvent someBegin, .endEvent 1 someEnd] (by decide)
  have hs : s.retained = [some ((ProfileEvent.fresh.begun someBegin).ended someEnd)] := by
    cases hrun
    decide
  rw [hs] at hretained
  exact absurd hretained (by decide)

end LiteRt.Profiling
