import PssClient.Tms.Timers
import PssClient.Timer.Int64
import PssClient.Timer.Spin

/-!
# Who makes loop timers

`load_module`, `add_timer` and `add_timer_loop` down to the timer manager. `add_timer_loop` rejects
an interval of zero; `CClient_Manager::run` gives the interval of `timer_check` to `AddMessage_loop`
as it is, and nobody rejects a negative one, or one that becomes negative when it is converted to a
64-bit count of nanoseconds.

* `Framework` — what these calls look at, and the timer manager.
* `run` / `addTimer` / `addTimerLoop` — the calls with what they return. A call that makes a timer
  goes on with the steps of `addTimer` or `addTimer_loop` of the manager.
* `IntervalsPositive` — the condition: the intervals of the loop timers made are positive counts.
  The other half of it is `InRange`: no 64-bit count that the manager computes overflows.
* `cannot_spin` — the result, and `spins` three runs with an interval that is not positive.
-/

namespace PssClient

open Machine

/-- `CClient_Manager` as far as `load_module` and the timers go: the workers are a set of ids here,
and each call that adds a timer is a call of the timer manager with the durations that it has
computed. -/
structure Framework where
  isInit : Bool := false
  timerCheckSeconds : Int := 30000
  -- the workers
  mapLogicList : Nat → Bool := fun _ => false
  mNTimerIndex : Nat := 0
  mgr : TimerMgr

namespace Framework

/-- `CreateLogic`. -/
def createLogic (logicId : Nat) (f : Framework) : Bool × Framework :=
  if f.mapLogicList logicId then (false, f)
  else (true, { f with mapLogicList := Function.update f.mapLogicList logicId true })

/-- `AddMessage` without a delay; the message goes to the worker. -/
def addMessage (logicId : Nat) (f : Framework) : Bool := f.mapLogicList logicId

/-- `AddMessage` with a delay, and `AddMessage_loop`, with the timer that is made. -/
def addMessageTimer (logicId : Nat) (timer : Int → Timer) (f : Framework) : Int × Framework :=
  if f.mapLogicList logicId then
    (f.mNTimerIndex, { f with
      mNTimerIndex := f.mNTimerIndex + 1
      mgr := TimerMgr.construct (timer f.mgr.now) f.mgr })
  else (-1, f)

def addMessageDelayed (logicId : Nat) (millisecond : Int) : Framework → Int × Framework :=
  addMessageTimer logicId (TimerMgr.onceTimer (milliseconds millisecond))

def addMessageLoop (logicId : Nat) (delayseconds millisecond : Int) : Framework → Int × Framework :=
  addMessageTimer logicId (TimerMgr.loopTimer delayseconds (milliseconds millisecond))

/-- The conversion of `std::chrono::seconds` to `std::chrono::milliseconds`. -/
def secondsToMilliseconds (n : Int) : Int := toInt64 (n * 1000)

/-- `CClient_Manager::run`, without the I/O thread. -/
def run (ioContextCount timerCheckSeconds : Int) (f : Framework) : Framework :=
  if f.isInit then f
  else
    let created := (List.range ioContextCount.toNat).foldl (fun f id => (f.createLogic id).2) f
    let counted := { created with timerCheckSeconds := timerCheckSeconds }
    { (counted.addMessageLoop 0 0 (secondsToMilliseconds timerCheckSeconds)).2 with isInit := true }

def loadModule (threadCount timerCheckSeconds : Int) (f : Framework) : Int × Framework :=
  (0, f.run threadCount timerCheckSeconds)

def addTimer (workThreadId timeInterval : Int) (f : Framework) : Int × Framework :=
  if timeInterval = 0 then (if f.addMessage (toUint32 workThreadId) then 1 else 0, f)
  else f.addMessageDelayed (toUint32 workThreadId) timeInterval

def addTimerLoop (workThreadId beginDelay timeInterval : Int) (f : Framework) : Int × Framework :=
  if timeInterval = 0 then (-1, f)
  else f.addMessageLoop (toUint32 workThreadId) beginDelay timeInterval

/-- A call of `load_module` or of one of the two functions that add a timer, with any arguments that
their types allow, or a step in the timer manager that it leads to. -/
inductive Action
  | loadModule (threadCount timerCheckSeconds : Int32)
  | addTimer (workThreadId timeInterval : Int)
  | addTimerLoop (workThreadId beginDelay timeInterval : Int)
  /-- A step in the timer manager. -/
  | mgr (a : TimerMgr.Action)

/-- The callbacks of the manager's timers put messages to the workers, and make no timers. -/
def step (f : Framework) : Action → Option Framework
  | .loadModule threadCount timerCheckSeconds =>
    some (f.loadModule threadCount.toInt timerCheckSeconds.toInt).2
  | .addTimer workThreadId timeInterval => some (f.addTimer workThreadId timeInterval).2
  | .addTimerLoop workThreadId beginDelay timeInterval =>
    some (f.addTimerLoop workThreadId beginDelay timeInterval).2
  | .mgr a =>
    if (a.timer f.mgr.now).isNone then
      (TimerMgr.step64 f.mgr a).map fun s => { f with mgr := s }
    else none

def initial (now : Int) : Framework := { mgr := TimerMgr.initial now }

/-- Where `load_module` or `add_timer_loop` makes a loop timer, its interval is positive, as the
count of nanoseconds that it is converted to. -/
def IntervalsPositive (f : Framework) : Action → Prop
  | .loadModule threadCount timerCheckSeconds =>
    f.isInit = false → 0 < threadCount.toInt ∨ f.mapLogicList 0 = true →
      0 < timerCheckSeconds.toInt
  | .addTimerLoop workThreadId _ timeInterval =>
    f.mapLogicList (toUint32 workThreadId) = true →
      timeInterval = 0 ∨ 0 < milliseconds timeInterval
  | _ => True

/-- No 64-bit count that the manager computes overflows. -/
def InRange (f : Framework) : Action → Prop
  | .mgr a => f.mgr.InRange a
  | _ => True

instance (f : Framework) (a : Action) : Decidable (IntervalsPositive f a) := by
  unfold IntervalsPositive
  split <;> infer_instance

instance (f : Framework) (a : Action) : Decidable (InRange f a) := by
  unfold InRange
  split <;> infer_instance

end Framework

/-! ## The intervals of the timers -/

namespace TimerMgr

/-- An action that makes no timer changes no type and no interval. -/
theorem interval_step {s s' : TimerMgr} {a : Action} (ha : a.timer s.now = none)
    (hstep : step s a = some s') (i : Nat) :
    (s'.timers i).mTimerType = (s.timers i).mTimerType ∧
      (s'.timers i).mLastTime = (s.timers i).mLastTime := by
  have hupdate : ∀ {j t}, (s.timers j).Alike t →
      (Function.update s.timers j t i).mTimerType = (s.timers i).mTimerType ∧
        (Function.update s.timers j t i).mLastTime = (s.timers i).mLastTime := fun halike =>
    ⟨(alike_update halike i).mTimerType, (alike_update halike i).mLastTime⟩
  cases does_of_step hstep with
  | addTimer | addTimerLoop | callbackAddTimer | callbackAddTimerLoop => cases ha
  | notify j =>
    rw [notify, timers_wake]
    exact ⟨rfl, rfl⟩
  | cancel j => exact hupdate (Timer.alike_cancel _)
  | close =>
    rw [close, timers_wake]
    exact ⟨rfl, rfl⟩
  | push | mark | timeoutEmpty | timeoutTop | tick => exact ⟨rfl, rfl⟩
  | sched hs =>
    cases goes_of_sched hs with
    | left tmp | expired tmp => exact hupdate (Timer.alike_getLeftTime s.now _)
    | pop tmp top => exact hupdate (Timer.alike_beforeCallback _)
    | requeue tmp | finished tmp =>
      obtain ⟨htype, hlast, -⟩ := finish_timer tmp s i
      exact ⟨htype, hlast⟩
    | _ => exact ⟨rfl, rfl⟩

/-- Every loop timer has a positive interval, those that have not been pushed yet included. The
calls make sure of it where they refuse an interval, and it is what keeps `timer_run` from calling
one again. -/
structure Regular (s : TimerMgr) : Prop where
  fresh : Fresh s
  wf : Wf s
  positive : ∀ i, (s.timers i).mTimerType = .loop → 0 < (s.timers i).mLastTime

theorem regular_initial (now : Int) : Regular (initial now) where
  fresh := fun _ _ => rfl
  wf := wf_initial now
  positive := fun _ h => by cases h

theorem regular_construct {s : TimerMgr} {t : Timer} (h : Regular s)
    (ht : t.mTimerType = .loop → 0 < t.mLastTime) : Regular (construct t s) where
  fresh := fresh_construct h.fresh t
  wf := wf_quiet h.wf (quiet_construct h.fresh t)
  positive := by
    intro i htype
    have hself : (construct t s).timers = Function.update s.timers s.count t := rfl
    rw [hself] at htype ⊢
    by_cases hi : i = s.count
    · subst hi
      rw [Function.update_self] at htype ⊢
      exact ht htype
    · rw [Function.update_of_ne hi] at htype ⊢
      exact h.positive i htype

theorem regular_step {s s' : TimerMgr} {a : Action} (h : Regular s) (ha : a.timer s.now = none)
    (hstep : step s a = some s') : Regular s' where
  fresh := fresh_step h.fresh hstep
  wf := wf_step h.fresh h.wf hstep
  positive := by
    intro i htype
    obtain ⟨hsame, hlast⟩ := interval_step ha hstep i
    rw [hlast]
    exact h.positive i (hsame ▸ htype)

end TimerMgr

namespace Framework

open TimerMgr (Regular Still NoWait)

theorem regular_addMessageTimer {f : Framework} {logicId : Nat} {timer : Int → Timer}
    (h : Regular f.mgr) (ht : f.mapLogicList logicId = true → ∀ now,
      (timer now).mTimerType = .loop → 0 < (timer now).mLastTime) :
    Regular (f.addMessageTimer logicId timer).2.mgr := by
  unfold addMessageTimer
  split
  case isTrue hworker => exact TimerMgr.regular_construct h (ht hworker _)
  case isFalse => exact h

/-- The workers after those of a list have been created. -/
theorem foldl_createLogic (ids : List Nat) (f : Framework) :
    (ids.foldl (fun f id => (f.createLogic id).2) f).mgr = f.mgr ∧
      ∀ id, (ids.foldl (fun f id => (f.createLogic id).2) f).mapLogicList id = true →
        id ∈ ids ∨ f.mapLogicList id = true := by
  induction ids generalizing f with
  | nil => exact ⟨rfl, fun _ => .inr⟩
  | cons first ids ih =>
    obtain ⟨hmgr, hworkers⟩ := ih (f.createLogic first).2
    refine ⟨hmgr.trans ?_, fun id hid => ?_⟩
    · unfold createLogic
      split <;> rfl
    · rcases hworkers id hid with hlater | hnow
      · exact .inl (List.mem_cons_of_mem first hlater)
      · unfold createLogic at hnow
        split at hnow
        · exact .inr hnow
        · by_cases heq : id = first
          · exact .inl (heq ▸ List.mem_cons_self)
          · exact .inr ((Function.update_of_ne heq ..).symm.trans hnow)

/-- The interval of `timer_check` is an `int`, and no conversion of it overflows. -/
theorem milliseconds_checkSeconds {n : Int} (hpos : 0 < n) (hlt : n < 2147483648) :
    0 < milliseconds (secondsToMilliseconds n) := by
  have hms : secondsToMilliseconds n = n * 1000 :=
    toInt64_of_isInt64 ⟨by omega, by omega⟩
  have hns : milliseconds (n * 1000) = n * 1000 * 1000000 :=
    toInt64_of_isInt64 ⟨by omega, by omega⟩
  rw [hms, hns]
  omega

theorem regular_run {f : Framework} {threadCount timerCheckSeconds : Int32} (h : Regular f.mgr)
    (hG : IntervalsPositive f (.loadModule threadCount timerCheckSeconds)) :
    Regular (f.run threadCount.toInt timerCheckSeconds.toInt).mgr := by
  unfold run
  split
  case isTrue => exact h
  case isFalse hinit =>
    obtain ⟨hmgr, hworkers⟩ := foldl_createLogic (List.range threadCount.toInt.toNat) f
    apply regular_addMessageTimer (by rw [← hmgr] at h; exact h)
    intro hzero now _
    have hworker : 0 < threadCount.toInt ∨ f.mapLogicList 0 = true := by
      refine (hworkers 0 hzero).imp_left fun hmem => ?_
      have hlt := List.mem_range.mp hmem
      omega
    exact milliseconds_checkSeconds (hG (eq_false_of_ne_true hinit) hworker)
      timerCheckSeconds.toInt_lt

theorem regular_step {f f' : Framework} {a : Action} (h : Regular f.mgr)
    (hG : IntervalsPositive f a ∧ InRange f a) (hstep : step f a = some f') : Regular f'.mgr := by
  obtain ⟨hpositive, hrange⟩ := hG
  cases a with
  | loadModule threadCount timerCheckSeconds =>
    cases hstep
    exact regular_run h hpositive
  | addTimer workThreadId timeInterval =>
    cases hstep
    show Regular (f.addTimer workThreadId timeInterval).2.mgr
    unfold addTimer
    split
    · exact h
    · exact regular_addMessageTimer h fun _ _ htype => by cases htype
  | addTimerLoop workThreadId beginDelay timeInterval =>
    cases hstep
    show Regular (f.addTimerLoop workThreadId beginDelay timeInterval).2.mgr
    unfold addTimerLoop
    split
    case isTrue => exact h
    case isFalse hne =>
      apply regular_addMessageTimer h
      intro hworker now _
      exact (hpositive hworker).resolve_left hne
  | mgr a =>
    obtain ⟨ha, hs⟩ := Option.ite_none_right_eq_some.mp hstep
    rw [TimerMgr.step64_eq f.mgr a hrange] at hs
    obtain ⟨s, hs', rfl⟩ := Option.map_eq_some_iff.mp hs
    exact TimerMgr.regular_step h (Option.isNone_iff_eq_none.mp ha) hs'

/-! ## The result -/

/-- **A loop timer cannot spin.** In every run of calls in which the loop timers made have positive
intervals and no 64-bit count overflows: from the beginning of a call of `timer_run` on, with the
clock standing still, no timer added and no wait, no more callbacks are called than there are timers
in the queue, and the schedule thread comes to a wait, or stops, in a bounded number of steps. -/
theorem cannot_spin (now : Int) (as : List Action) (f : Framework) (bs : List TimerMgr.Action)
    (t : TimerMgr)
    (hG : Meets step (fun f a => IntervalsPositive f a ∧ InRange f a) (initial now) as)
    (hreached : Machine.run step (initial now) as = some f) (hpc : f.mgr.pc = .loop)
    (hstill : ∀ b ∈ bs, Still b)
    (hnowait : Meets TimerMgr.step64 (fun s b => NoWait s b ∧ s.InRange b) f.mgr bs)
    (hrun : Machine.run TimerMgr.step64 f.mgr bs = some t) :
    ∃ ran, t.execs = f.mgr.execs ++ ran ∧ ran.length ≤ f.mgr.mTimers.size ∧
      bs.count .sched ≤ 22 * f.mgr.mTimers.size + 11 := by
  have h : Regular f.mgr := invariant_of_meets (fun f => Regular f.mgr)
    (fun _ _ _ h hG hs => regular_step h hG hs) (TimerMgr.regular_initial now) hG hreached
  obtain ⟨hnowait, hrun⟩ := TimerMgr.run64 hnowait hrun
  exact TimerMgr.turn_bounded h.fresh h.wf (fun i _ => h.positive i) hpc hstill hnowait hrun

/-- The steps that add the timer of a number. -/
def added (i : Nat) : List Action := [.mgr (.push i), .mgr (.mark i), .mgr (.notify i)]

/-- `timer_check` every five seconds, and the time has come. -/
def everyFive : List Action :=
  .loadModule 1 5 :: added 0 ++ [.mgr .sched, .mgr (.tick 5000000000)]

theorem cannot_spin_everyFive :
    ∃ f t, Machine.run step (initial 0) everyFive = some f ∧ f.mgr.mTimers.size = 1 ∧
      Machine.run TimerMgr.step64 f.mgr (List.replicate 18 .sched) = some t ∧
      t.pc = .waitTop 0 (seconds 5) ∧
      ∃ ran, t.execs = f.mgr.execs ++ ran ∧ ran.length ≤ 1 := by
  have hstate : ∃ f t, Machine.run step (initial 0) everyFive = some f ∧
      f.mgr.mTimers.size = 1 ∧ f.mgr.pc = .loop ∧
      Meets TimerMgr.step64 (fun s b => NoWait s b ∧ s.InRange b) f.mgr
        (List.replicate 18 .sched) ∧
      Machine.run TimerMgr.step64 f.mgr (List.replicate 18 .sched) = some t ∧
      t.pc = .waitTop 0 (seconds 5) := ⟨_, _, rfl, rfl, rfl, by decide +kernel, rfl, rfl⟩
  obtain ⟨f, t, hreached, hsize, hpc, hnowait, hrun, hwait⟩ := hstate
  obtain ⟨ran, hexecs, hle, -⟩ := cannot_spin 0 everyFive f (List.replicate 18 .sched) t
    (by decide +kernel) hreached hpc (by decide) hnowait hrun
  exact ⟨f, t, hreached, hsize, hrun, hwait, ran, hexecs, hsize ▸ hle⟩

/-- `load_module(1, 0)`; `add_timer_loop` with an interval of minus five milliseconds, and with the
greatest one that there is. -/
def everyZero : List Action := .loadModule 1 0 :: added 0 ++ [.mgr .sched]

def everyMinusFive : List Action :=
  .loadModule 1 30 :: added 0 ++ .addTimerLoop 0 0 (-5) :: added 1 ++ [.mgr .sched]

def everyMax : List Action :=
  .loadModule 1 30 :: added 0 ++ .addTimerLoop 0 0 9223372036854775807 :: added 1
    ++ [.mgr .sched]

/-- A run of calls and then of the schedule thread alone, with more callbacks than there are timers
in the queue. -/
theorem spins_of_run {as : List Action} {n size : Nat} {called : List Nat}
    (h : ((Machine.run step (initial 0) as).bind fun f =>
      (Machine.run TimerMgr.step64 f.mgr (List.replicate n .sched)).map fun t =>
        (f.mgr.pc, f.mgr.mTimers.size, f.mgr.execs.map Exec.timer,
          decide (Meets TimerMgr.step64 NoWait f.mgr (List.replicate n .sched)),
          t.execs.map Exec.timer)) = some (.loop, size, [], true, called))
    (hlt : size < called.length) :
    ∃ f t, Machine.run step (initial 0) as = some f ∧ f.mgr.pc = .loop ∧
      f.mgr.mTimers.size = size ∧ Meets TimerMgr.step64 NoWait f.mgr (List.replicate n .sched) ∧
      Machine.run TimerMgr.step64 f.mgr (List.replicate n .sched) = some t ∧
      t.execs.map Exec.timer = called ∧
      ¬ ∃ ran, t.execs = f.mgr.execs ++ ran ∧ ran.length ≤ f.mgr.mTimers.size := by
  obtain ⟨f, hreached, h⟩ := Option.bind_eq_some_iff.mp h
  obtain ⟨t, hrun, h⟩ := Option.map_eq_some_iff.mp h
  simp only [Prod.mk.injEq, decide_eq_true_eq, List.map_eq_nil_iff] at h
  obtain ⟨hpc, hsize, hnone, hnowait, hcalled⟩ := h
  refine ⟨f, t, hreached, hpc, hsize, hnowait, hrun, hcalled, ?_⟩
  rintro ⟨ran, hexecs, hle⟩
  rw [← hcalled, List.length_map, hexecs, hnone, List.nil_append] at hlt
  omega

/-- With one timer in the queue two callbacks are called one after the other, with two timers three.
The greatest interval is converted to a count of minus one million nanoseconds. -/
theorem spins :
    (∃ f t, Machine.run step (initial 0) everyZero = some f ∧ f.mgr.pc = .loop ∧
      f.mgr.mTimers.size = 1 ∧
      Meets TimerMgr.step64 NoWait f.mgr (List.replicate 22 .sched) ∧
      Machine.run TimerMgr.step64 f.mgr (List.replicate 22 .sched) = some t ∧
      t.execs.map Exec.timer = [0, 0] ∧
      ¬ ∃ ran, t.execs = f.mgr.execs ++ ran ∧ ran.length ≤ f.mgr.mTimers.size) ∧
    (∃ f t, Machine.run step (initial 0) everyMinusFive = some f ∧ f.mgr.pc = .loop ∧
      f.mgr.mTimers.size = 2 ∧
      Meets TimerMgr.step64 NoWait f.mgr (List.replicate 33 .sched) ∧
      Machine.run TimerMgr.step64 f.mgr (List.replicate 33 .sched) = some t ∧
      t.execs.map Exec.timer = [1, 1, 1] ∧
      ¬ ∃ ran, t.execs = f.mgr.execs ++ ran ∧ ran.length ≤ f.mgr.mTimers.size) ∧
    ∃ f t, Machine.run step (initial 0) everyMax = some f ∧ f.mgr.pc = .loop ∧
      f.mgr.mTimers.size = 2 ∧
      Meets TimerMgr.step64 NoWait f.mgr (List.replicate 33 .sched) ∧
      Machine.run TimerMgr.step64 f.mgr (List.replicate 33 .sched) = some t ∧
      t.execs.map Exec.timer = [1, 1, 1] ∧
      ¬ ∃ ran, t.execs = f.mgr.execs ++ ran ∧ ran.length ≤ f.mgr.mTimers.size :=
  ⟨spins_of_run (by decide +kernel) (by decide), spins_of_run (by decide +kernel) (by decide),
    spins_of_run (by decide +kernel) (by decide)⟩

end Framework

end PssClient
