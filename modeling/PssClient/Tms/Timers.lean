import Mathlib.Data.List.Range
import PssClient.Timer.Manager

/-!
# Timers and their ids

The delayed calls of `TMS` and what `framework.cpp` puts before them, in the steps that threads
can come between: the sections under `m_ttmutex`, each `call_once`, each read of `mCallback`, each
`Put`. Which timer `timer_run` executes next, and when the last pointer to one goes away, is left
open here.

* `TimerService` — the calls, their timers, the map of ids, the places of the schedule thread and of
  the thread in `Close_Timer`, and what has happened.
* `addTimer` / `addTimerLoop` / `closeTimerId` — under their names in `framework.cpp`; a call that
  makes a timer goes on with `push` and `insert`.
* `schedule` — `Timer::operator()` with the callback that `AddMessage` gives the timer.
* `close` — the rest of `Close_Timer`.

The counter of the ids is unbounded here: where `int` would overflow the behaviour is undefined.
-/

namespace PssClient

open Machine

/-- What a call asks for. -/
inductive Kind
  /-- A message that is put at once. -/
  | message
  | once (millisecond : Int)
  | loop (delayseconds millisecond : Int)
  deriving DecidableEq

/-- Where a call is. -/
inductive Stage
  /-- `timer_index` has been counted. -/
  | allocated
  /-- The timer is in the manager. -/
  | added
  /-- The call has returned; whether the message or timer was accepted. -/
  | returned (value : Int) (accepted : Bool)
  deriving DecidableEq

/-- A call of `AddMessage` or `AddMessage_loop`, with the id of its timer. It is `-1` for a call
without a timer. -/
structure Call where
  logicId : Nat
  kind : Kind
  timerIndex : Int := -1
  stage : Stage
  deriving DecidableEq

/-- Where the schedule thread is in `operator()`. -/
inductive SchedulePc
  | idle
  -- before `call_once`, or before the test of `mCallback`
  | entered (call : Nat)
  -- `mCallback` has been tested and is read again to be called
  | calling (call : Nat)
  -- in the callback, before `Put`
  | putting (call : Nat)
  -- in the callback of a one-shot timer, before the section that erases its index
  | erasing (call : Nat)
  | leaving (call : Nat)
  -- an empty function has been called
  | terminated
  deriving DecidableEq

/-- Where the thread that holds `m_ttmutex` is in `Close_Timer`: the id, the calls that had returned
it by then, and the call whose timer has been found. -/
inductive ClosePc
  | idle
  | expired (timerId : Int) (returners : List Nat) (call : Nat)
  | lock (timerId : Int) (returners : List Nat) (call : Nat)
  -- it has a `shared_ptr`
  | cancel (timerId : Int) (returners : List Nat) (call : Nat)
  | erase (timerId : Int) (returners : List Nat) (call : Nat)
  deriving DecidableEq

/-- What is recorded of a run. The results are about the order of these events and about the calls
that they name. -/
inductive TimerEvent
  /-- The message of a call is put. -/
  | put (logicId call : Nat)
  /-- An empty callback is called. -/
  | empty (call : Nat)
  /-- `Close_Timer` cancels a timer. -/
  | cancelled (timerId : Int) (returners : List Nat) (call : Nat)
  /-- `Close_Timer` returns true for it. -/
  | closed (call : Nat)
  deriving DecidableEq

structure TimerService where
  mapLogicList : Nat → Bool
  mNTimerIndex : Nat := 0
  -- the ids, with the call whose timer the weak pointer is for
  mMapTimeridList : Int → Option Nat := fun _ => none
  -- the calls in the order of their beginning, and the timers that exist
  calls : Nat → Option Call := fun _ => none
  count : Nat := 0
  timers : Nat → Option Timer := fun _ => none
  schedule : SchedulePc := .idle
  closer : ClosePc := .idle
  now : Int := 0
  trace : List TimerEvent := []

/-- The timer that the schedule thread executes. -/
def SchedulePc.executing : SchedulePc → Option Nat
  | .entered call | .calling call | .putting call | .erasing call | .leaving call => some call
  | _ => none

/-- What the closing thread has found. -/
def ClosePc.target : ClosePc → Option (Int × List Nat × Nat)
  | .expired timerId returners call | .lock timerId returners call
  | .cancel timerId returners call | .erase timerId returners call =>
    some (timerId, returners, call)
  | .idle => none

/-- The timer that it has a `shared_ptr` to. -/
def ClosePc.holds : ClosePc → Option Nat
  | .cancel _ _ call | .erase _ _ call => some call
  | _ => none

/-- The conversion of a worker id from `int` to `uint32`. -/
def toUint32 (n : Int) : Nat := (n % 4294967296).toNat

/-- What the manager makes; it counts in nanoseconds. -/
def Kind.timer (now : Int) : Kind → Option Timer
  | .message => none
  | .once millisecond => some (TimerMgr.onceTimer (milliseconds millisecond) now)
  | .loop delayseconds millisecond =>
    some (TimerMgr.loopTimer delayseconds (milliseconds millisecond) now)

def Call.value (call : Call) : Option Int :=
  match call.stage with
  | .returned value _ => some value
  | _ => none

namespace TimerService

/-- Note a new call. -/
def begin (call : Call) (s : TimerService) : TimerService :=
  { s with calls := Function.update s.calls s.count (some call), count := s.count + 1 }

/-- A call goes on. -/
def setCall (c : Nat) (call : Call) (s : TimerService) : TimerService :=
  { s with calls := Function.update s.calls c (some call) }

def setTimer (c : Nat) (timer : Option Timer) (s : TimerService) : TimerService :=
  { s with timers := Function.update s.timers c timer }

/-! ## Adding -/

/-- `AddMessage` without a delay, and its `bool` as an `int`. -/
def addMessage (logicId : Nat) (s : TimerService) : TimerService :=
  if s.mapLogicList logicId then
    { begin ⟨logicId, .message, -1, .returned 1 true⟩ s with
      trace := s.trace ++ [.put logicId s.count] }
  else begin ⟨logicId, .message, -1, .returned 0 false⟩ s

/-- `AddMessage` with a delay, or `AddMessage_loop`, up to the first section under `m_ttmutex`. -/
def addMessageTimer (logicId : Nat) (kind : Kind) (s : TimerService) : Option TimerService :=
  if s.mapLogicList logicId then
    if s.closer = .idle then
      some { begin ⟨logicId, kind, s.mNTimerIndex, .allocated⟩ s with
        mNTimerIndex := s.mNTimerIndex + 1 }
    else none
  else some (begin ⟨logicId, kind, -1, .returned (-1) false⟩ s)

/-- The timer is made and pushed. The schedule thread has `mtx_queue` while it executes one. -/
def push (c : Nat) (s : TimerService) : Option TimerService :=
  (s.calls c).bind fun call =>
    if call.stage = .allocated ∧ s.schedule.executing = none then
      some (setTimer c (call.kind.timer s.now) (setCall c { call with stage := .added } s))
    else none

/-- The second section under `m_ttmutex`, and the return. -/
def insert (c : Nat) (s : TimerService) : Option TimerService :=
  (s.calls c).bind fun call =>
    if call.stage = .added ∧ s.closer = .idle then
      some { setCall c { call with stage := .returned call.timerIndex true } s with
        mMapTimeridList := Function.update s.mMapTimeridList call.timerIndex (some c) }
    else none

def addTimer (workThreadId timeInterval : Int) (s : TimerService) : Option TimerService :=
  if timeInterval = 0 then some (addMessage (toUint32 workThreadId) s)
  else addMessageTimer (toUint32 workThreadId) (.once timeInterval) s

def addTimerLoop (workThreadId beginDelay timeInterval : Int) (s : TimerService) :
    Option TimerService :=
  if timeInterval = 0 then
    some (begin ⟨toUint32 workThreadId, .loop beginDelay timeInterval, -1, .returned (-1) false⟩ s)
  else addMessageTimer (toUint32 workThreadId) (.loop beginDelay timeInterval) s

/-! ## Executing -/

/-- `timer_run` comes to `operator()` of a timer. -/
def execute (c : Nat) (s : TimerService) : Option TimerService :=
  if s.schedule = .idle ∧ (s.timers c).isSome = true then some { s with schedule := .entered c }
  else none

/-- `operator()` from its beginning to the callback. -/
def enter (c : Nat) (timer : Timer) (s : TimerService) : TimerService :=
  match timer.mTimerType with
  | .once =>
    { setTimer c (some timer.beforeCallback) s with
      schedule := if timer.calls then .putting c else .leaving c }
  | .loop => { s with schedule := if timer.mCallback then .calling c else .leaving c }

/-- The callback up to `Put`. Only a one-shot timer erases its index. -/
def put (c : Nat) (call : Call) (s : TimerService) : TimerService :=
  { s with
    trace := s.trace ++ [.put call.logicId c]
    schedule := match call.kind with
      | .once _ => .erasing c
      | _ => .leaving c }

/-- A step of the schedule thread in `operator()`. -/
def stepSchedule (s : TimerService) : Option TimerService :=
  match s.schedule with
  | .entered c => (s.timers c).map fun timer => enter c timer s
  | .calling c =>
    (s.timers c).map fun timer =>
      if timer.mCallback then { s with schedule := .putting c }
      else { s with schedule := .terminated, trace := s.trace ++ [.empty c] }
  | .putting c => (s.calls c).map fun call => put c call s
  | .erasing c =>
    if s.closer = .idle then
      (s.calls c).map fun call =>
        { s with
          mMapTimeridList := Function.update s.mMapTimeridList call.timerIndex none
          schedule := .leaving c }
    else none
  | .leaving c =>
    (s.timers c).map fun timer =>
      { setTimer c (some (timer.afterCallback s.now)) s with schedule := .idle }
  | .idle | .terminated => none

/-- The last `shared_ptr` to a timer goes away. -/
def destroy (c : Nat) (s : TimerService) : Option TimerService :=
  if s.schedule.executing = some c ∨ s.closer.holds = some c then none
  else some (setTimer c none s)

/-! ## Closing -/

/-- The calls that have returned a value. -/
def returners (value : Int) (s : TimerService) : List Nat :=
  (List.range s.count).filter fun c => decide ((s.calls c).bind Call.value = some value)

/-- `Close_Timer` takes `m_ttmutex` and looks for the id. -/
def closeTimerId (timerId : Int) (s : TimerService) : Option TimerService :=
  if s.closer = .idle then
    match s.mMapTimeridList timerId with
    | some c => some { s with closer := .expired timerId (s.returners timerId) c }
    -- it returns false
    | none => some s
  else none

/-- A further step of it. -/
def close (s : TimerService) : Option TimerService :=
  match s.closer with
  | .idle => none
  | .expired timerId returners c =>
    match s.timers c with
    | some _ => some { s with closer := .lock timerId returners c }
    | none => some { s with closer := .idle, trace := s.trace ++ [.closed c] }
  | .lock timerId returners c =>
    match s.timers c with
    | some _ => some { s with closer := .cancel timerId returners c }
    | none => some { s with closer := .erase timerId returners c }
  | .cancel timerId returners c =>
    (s.timers c).map fun timer =>
      { setTimer c (some timer.cancel) s with
        closer := .erase timerId returners c
        trace := s.trace ++ [.cancelled timerId returners c] }
  | .erase timerId _ c =>
    some { s with
      mMapTimeridList := Function.update s.mMapTimeridList timerId none
      closer := .idle
      trace := s.trace ++ [.closed c] }

/-! ## Steps -/

/-- What can happen next: a call of the library begins, or goes on by one section, the schedule
thread takes a step or the timer manager destroys a timer, or `Close_Timer` begins or goes on. -/
inductive Action
  | addTimer (workThreadId timeInterval : Int)
  | addTimerLoop (workThreadId beginDelay timeInterval : Int)
  /-- The steps of the call that makes a timer. -/
  | push (call : Nat)
  | insert (call : Nat)
  | execute (call : Nat)
  | schedule
  | destroy (call : Nat)
  | closeTimerId (timerId : Int)
  | close
  | tick (d : Nat)
  deriving DecidableEq

def step (s : TimerService) : Action → Option TimerService
  | .addTimer workThreadId timeInterval => addTimer workThreadId timeInterval s
  | .addTimerLoop workThreadId beginDelay timeInterval =>
    addTimerLoop workThreadId beginDelay timeInterval s
  | .push c => push c s
  | .insert c => insert c s
  | .execute c => execute c s
  | .schedule => stepSchedule s
  | .destroy c => destroy c s
  | .closeTimerId timerId => closeTimerId timerId s
  | .close => close s
  | .tick d => some { s with now := s.now + d }

/-- The service with its workers, before any call. -/
def initial (mapLogicList : Nat → Bool) : TimerService := { mapLogicList := mapLogicList }

end TimerService

end PssClient
