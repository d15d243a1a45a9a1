import Mathlib.Algebra.Order.Group.Int
import Mathlib.Logic.Function.Basic
import PssClient.Lib.BinaryHeap
import PssClient.Lib.Run

/-!
# The timer manager

`TimerMgr` of `TimerManager.hpp`: a priority queue of timers, one thread in `schedule`, and any
number of threads in `addTimer` and `addTimer_loop`. These push under `mtx_queue` and then set
`timer_wakeup_state` and notify without any lock; the schedule thread holds `mtx` outside its waits.

* `Timer` — its times and callback, with `getLeftTime`, `cancel` and the two halves of `operator()`.
* `TimerMgr` / `Pc` — the manager's fields and the place of the schedule thread in `timer_run`.
* `sched` — one step of the schedule thread: a section under `mtx_queue`, an access to a shared
  field, or the start of a wait. The section that executes a timer is cut at the callback, which
  may take time and add timers itself.
* `step` — this, the steps of the producers, the end of a wait, the clock, `cancel` and `Close`.

Times are nanoseconds of the steady clock. They are unbounded here; the comparison of two timers and
the time left are computed in 64 bits by the source, and `Int64` has the manager with that
arithmetic and says when it is this one.
-/

namespace PssClient

inductive TimerType
  | once
  | loop
  deriving DecidableEq

inductive TimerState
  | addTimer
  | executeTimer
  deriving DecidableEq

/-- What `wait_for` returns; `timer_run` does not look at it. -/
inductive CvStatus
  | noTimeout
  | timeout
  deriving DecidableEq

/-- What a 64-bit count holds of a number. -/
def toInt64 (n : Int) : Int := n.bmod 18446744073709551616

def seconds (n : Int) : Int := n * 1000000000

/-- The conversion of `std::chrono::milliseconds` to a count of nanoseconds. -/
def milliseconds (n : Int) : Int := toInt64 (n * 1000000)

/-- `timer_default_wait`. -/
def timerDefaultWait : Int := 300

/-- `Timer`, as far as the manager looks at it. Times and durations are counts of nanoseconds of the
steady clock, but for the begin delay. -/
structure Timer where
  mStartTime : Int
  mLastTime : Int
  -- in seconds
  mDelayTime : Int
  mTimerType : TimerType
  -- whether the callback is not null
  mCallback : Bool := true
  mExecuteOnceFlag : Bool := false

namespace Timer

/-- When the timer expires, and its place in the queue. -/
def due (t : Timer) : Int := t.mStartTime + t.mLastTime

/-- `CompareTimer`. -/
def compareTimer (left right : Timer) : Bool :=
  decide (0 < (left.mStartTime - right.mStartTime) + (left.mLastTime - right.mLastTime))

/-- The queue is ordered by the time of expiry. -/
theorem compareTimer_iff (left right : Timer) :
    compareTimer left right = true ↔ right.due < left.due := by
  unfold compareTimer due
  rw [decide_eq_true_iff]
  omega

/-- `getLeftTime`. The delay counts the first time only. -/
def getLeftTime (now : Int) (t : Timer) : Int × Timer :=
  (t.mLastTime - (now - t.mStartTime) + seconds t.mDelayTime, { t with mDelayTime := 0 })

/-- `cancel`: under the same flag as the one run of a one-shot timer. -/
def cancel (t : Timer) : Timer :=
  if t.mExecuteOnceFlag then t else { t with mExecuteOnceFlag := true, mCallback := false }

/-- Whether `operator()` calls the callback. -/
def calls (t : Timer) : Bool :=
  match t.mTimerType with
  | .once => !t.mExecuteOnceFlag && t.mCallback
  | .loop => t.mCallback

/-- `operator()` up to the callback. A one-shot timer gives its callback away. -/
def beforeCallback (t : Timer) : Timer :=
  match t.mTimerType with
  | .once =>
    if t.mExecuteOnceFlag then t else { t with mExecuteOnceFlag := true, mCallback := false }
  | .loop => t

/-- The rest of `operator()`. -/
def afterCallback (now : Int) (t : Timer) : Timer :=
  match t.mTimerType with
  | .once => t
  | .loop => { t with mStartTime := now }

end Timer

/-- Where the call that adds a timer is. -/
inductive Producer
  | absent
  /-- The timer has been made, and the clock read for it. -/
  | constructed
  /-- It is in the queue. -/
  | pushed
  /-- `timer_wakeup_state` has been set. -/
  | marked
  /-- `notify_one` has been called. -/
  | notified
  deriving DecidableEq

/-- The timer has been put into the queue. -/
def Producer.Added : Producer → Prop
  | .pushed | .marked | .notified => True
  | _ => False

/-- It has, and the notify is still to come. -/
def Producer.InFlight : Producer → Prop
  | .pushed | .marked => True
  | _ => False

/-- Where the schedule thread is: before the step named. -/
inductive Pc
  | schedule
  -- the condition of the loop in `schedule`
  | loop
  | lock
  | testEmpty
  | waitEmpty
  | blockedEmpty (wakeAt : Int)
  | testRun
  | testEmptyAgain
  | readTop
  | getLeftTime (tmp : Nat)
  | waitTop (tmp : Nat) (timerWait : Int)
  | blockedTop (tmp : Nat) (wakeAt : Int)
  -- the test of `timer_wakeup_state`
  | woken (tmp : Nat) (status : CvStatus)
  | testRunAgain (tmp : Nat)
  | pop (tmp : Nat)
  -- in the callback, if there is one, under `mtx_queue`
  | running (tmp : Nat) (called : Bool)
  | overwrite
  | stopped
  deriving DecidableEq

/-- The timer that has been read with `top()` and not been executed yet. -/
def Pc.held : Pc → Option Nat
  | .getLeftTime tmp | .waitTop tmp _ | .blockedTop tmp _ | .woken tmp _ | .testRunAgain tmp
  | .pop tmp => some tmp
  | _ => none

/-- The timer that is executed next. -/
def Pc.popping : Pc → Option Nat
  | .pop tmp => some tmp
  | _ => none

theorem Pc.popping_eq {pc : Pc} {tmp : Nat} : pc.popping = some tmp ↔ pc = .pop tmp := by
  cases pc <;> simp [popping]

/-- The timer that is being executed. -/
def Pc.executing : Pc → Option Nat
  | .running tmp _ => some tmp
  | _ => none

/-- The schedule thread does not hold `mtx`. -/
def Pc.mtxFree : Pc → Bool
  | .schedule | .loop | .lock | .blockedEmpty _ | .blockedTop _ _ | .stopped => true
  | _ => false

/-- A call of a timer's callback: when, and when the timer expired. -/
structure Exec where
  timer : Nat
  time : Int
  due : Int

/-- `TimerMgr`, with all the timers ever made, numbered in the order of their making. -/
structure TimerMgr where
  timers : Nat → Timer := fun _ => ⟨0, 0, 0, .once, false, false⟩
  count : Nat := 0
  mTimers : Array Nat := #[]
  timerRun : Bool := false
  timerWakeupState : TimerState := .executeTimer
  producer : Nat → Producer := fun _ => .absent
  pc : Pc := .schedule
  now : Int := 0
  -- what each `pop()` removed and the timer then executed, and the calls of callbacks
  pops : List (Nat × Nat) := []
  execs : List Exec := []
  -- the timers notified since the schedule thread last looked at the queue, and the time that
  -- `getLeftTime` last read
  notified : List Nat := []
  leftTimeAt : Int := 0

namespace TimerMgr

/-- The order of the queue. -/
def due (s : TimerMgr) (i : Nat) : Int := (s.timers i).due

/-! ## The producers -/

/-- `make_shared<Timer>`. -/
def construct (t : Timer) (s : TimerMgr) : TimerMgr :=
  { s with
    timers := Function.update s.timers s.count t
    count := s.count + 1
    producer := Function.update s.producer s.count .constructed }

/-- The section under `mtx_queue`. -/
def push (i : Nat) (s : TimerMgr) : TimerMgr :=
  { s with
    mTimers := BinaryHeap.push s.due s.mTimers i
    producer := Function.update s.producer i .pushed }

/-- `timer_wakeup_state = TIMER_STATE_ADD_TIMER`. -/
def mark (i : Nat) (s : TimerMgr) : TimerMgr :=
  { s with
    timerWakeupState := .addTimer
    producer := Function.update s.producer i .marked }

/-- A wait ends. -/
def wake (status : CvStatus) (s : TimerMgr) : TimerMgr :=
  match s.pc with
  | .blockedEmpty _ => { s with pc := .testRun }
  | .blockedTop tmp _ => { s with pc := .woken tmp status }
  | _ => s

/-- `notify_one`. -/
def notify (i : Nat) (s : TimerMgr) : TimerMgr :=
  wake .noTimeout { s with
    notified := i :: s.notified
    producer := Function.update s.producer i .notified }

/-- What `addTimer` makes. -/
def onceTimer (timeout now : Int) : Timer := ⟨now, timeout, 0, .once, true, false⟩

/-- What `addTimer_loop` makes. -/
def loopTimer (delayseconds timeout now : Int) : Timer :=
  ⟨now, timeout, delayseconds, .loop, true, false⟩

/-- A whole call of `addTimer` or `addTimer_loop`, out of a callback. -/
def addInCallback (t : Timer) (s : TimerMgr) : TimerMgr :=
  notify s.count (mark s.count (push s.count (construct t s)))

/-- `Close`, under `mtx`. -/
def close (s : TimerMgr) : TimerMgr :=
  wake .noTimeout { s with timerRun := false, timerWakeupState := .addTimer }

/-! ## The schedule thread -/

/-- The section under `mtx_queue` up to the callback. -/
def popStep (tmp top : Nat) (s : TimerMgr) : TimerMgr :=
  { s with
    mTimers := BinaryHeap.pop s.due s.mTimers
    timers := Function.update s.timers tmp (s.timers tmp).beforeCallback
    pops := s.pops ++ [(top, tmp)]
    execs := if (s.timers tmp).calls then s.execs ++ [⟨tmp, s.now, s.due tmp⟩] else s.execs
    pc := .running tmp (s.timers tmp).calls }

/-- The callback is over. -/
def finish (tmp : Nat) (s : TimerMgr) : TimerMgr :=
  { s with
    timers := Function.update s.timers tmp ((s.timers tmp).afterCallback s.now)
    pc := .overwrite }

/-- The rest of the section. A loop timer goes back into the queue. -/
def runningStep (tmp : Nat) (s : TimerMgr) : TimerMgr :=
  if (s.timers tmp).mTimerType = .loop ∧ (s.timers tmp).mCallback = true then
    { finish tmp s with mTimers := BinaryHeap.push (finish tmp s).due s.mTimers tmp }
  else finish tmp s

/-- `schedule` and `timer_run`. -/
def sched (s : TimerMgr) : Option TimerMgr :=
  match s.pc with
  | .schedule => some { s with timerRun := true, pc := .loop }
  | .loop => some { s with pc := if s.timerRun then .lock else .stopped }
  | .lock => some { s with pc := .testEmpty }
  | .testEmpty =>
    some { s with pc := if s.mTimers.isEmpty then .waitEmpty else .testRun, notified := [] }
  | .waitEmpty => some { s with pc := .blockedEmpty (s.now + seconds timerDefaultWait) }
  | .blockedEmpty _ => none
  | .testRun => some { s with pc := if s.timerRun then .testEmptyAgain else .stopped }
  | .testEmptyAgain => some { s with pc := if s.mTimers.isEmpty then .loop else .readTop }
  | .readTop => s.mTimers[0]?.map fun tmp => { s with pc := .getLeftTime tmp, notified := [] }
  | .getLeftTime tmp =>
    some { s with
      timers := Function.update s.timers tmp ((s.timers tmp).getLeftTime s.now).2
      leftTimeAt := s.now
      pc :=
        if 0 < ((s.timers tmp).getLeftTime s.now).1 then
          .waitTop tmp ((s.timers tmp).getLeftTime s.now).1
        else .testRunAgain tmp }
  | .waitTop tmp timerWait => some { s with pc := .blockedTop tmp (s.now + timerWait) }
  | .blockedTop _ _ => none
  | .woken tmp _ =>
    some { s with pc := if s.timerWakeupState = .addTimer then .loop else .testRunAgain tmp }
  | .testRunAgain tmp => some { s with pc := if s.timerRun then .pop tmp else .stopped }
  | .pop tmp => s.mTimers[0]?.map fun top => popStep tmp top s
  | .running tmp _ => some (runningStep tmp s)
  | .overwrite => some { s with timerWakeupState := .executeTimer, pc := .loop }
  | .stopped => none

/-! ## Steps -/

/-- What can happen next: a thread begins a call that adds a timer or takes the next step of one,
the callback that is running makes such a call, a timer is cancelled, or the schedule thread or the
clock goes on. -/
inductive Action
  /-- A call of `addTimer` begins. -/
  | addTimer (timeout : Int)
  | addTimerLoop (delayseconds timeout : Int)
  /-- The steps of the call that has made a timer. -/
  | push (i : Nat)
  | mark (i : Nat)
  | notify (i : Nat)
  /-- The callback that is running calls `addTimer`. -/
  | callbackAddTimer (timeout : Int)
  | callbackAddTimerLoop (delayseconds timeout : Int)
  | cancel (i : Nat)
  | close
  | sched
  /-- The time of a wait has passed. -/
  | waitTimeout
  | tick (d : Nat)
  deriving DecidableEq

/-- The timer that an action makes. -/
def Action.timer (now : Int) : Action → Option Timer
  | .addTimer timeout | .callbackAddTimer timeout => some (onceTimer timeout now)
  | .addTimerLoop delayseconds timeout | .callbackAddTimerLoop delayseconds timeout =>
    some (loopTimer delayseconds timeout now)
  | _ => none

/-- A wait ends by itself. -/
def waitTimeout (s : TimerMgr) : Option TimerMgr :=
  match s.pc with
  | .blockedEmpty wakeAt => if wakeAt ≤ s.now then some (wake .timeout s) else none
  | .blockedTop _ wakeAt => if wakeAt ≤ s.now then some (wake .timeout s) else none
  | _ => none

/-- A callback adds a timer. -/
def callbackAdd (t : Timer) (s : TimerMgr) : Option TimerMgr :=
  match s.pc with
  | .running _ true => some (addInCallback t s)
  | _ => none

def step (s : TimerMgr) : Action → Option TimerMgr
  | .addTimer timeout => some (construct (onceTimer timeout s.now) s)
  | .addTimerLoop delayseconds timeout => some (construct (loopTimer delayseconds timeout s.now) s)
  -- the schedule thread holds `mtx_queue` during a callback
  | .push i =>
    if s.producer i = .constructed ∧ s.pc.executing = none then some (push i s) else none
  | .mark i => if s.producer i = .pushed then some (mark i s) else none
  | .notify i => if s.producer i = .marked then some (notify i s) else none
  | .callbackAddTimer timeout => callbackAdd (onceTimer timeout s.now) s
  | .callbackAddTimerLoop delayseconds timeout =>
    callbackAdd (loopTimer delayseconds timeout s.now) s
  | .cancel i =>
    if i < s.count then
      some { s with timers := Function.update s.timers i (s.timers i).cancel }
    else none
  | .close => if s.pc.mtxFree then some (close s) else none
  | .sched => sched s
  | .waitTimeout => waitTimeout s
  | .tick d => some { s with now := s.now + d }

/-- Before `schedule` is called. -/
def initial (now : Int) : TimerMgr := { now := now }

end TimerMgr

end PssClient
