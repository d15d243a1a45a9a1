import PssClient.System.Settles
import PssClient.Timer.Fired

/-!
# From `add_timer` to the call

The delayed calls of `TMS`, the schedule thread and the workers together. The callback that
`AddMessage` and `AddMessage_loop` give their timer puts the message of the call into the queue of
its worker, and the worker calls it.

* `Timed` / `step` — the timer manager in all its steps, the workers, and the worker that each timer
  is for. Out of a callback the schedule thread goes on when this has put its message.
* `Kept` — the invariant: for each worker, what it has called, what it has to call and what is being
  put are together what has been executed for it.
* `mgr_run` — the manager's part of a run is one of the manager alone.
* `timers_called` — the result for every run.
-/

namespace PssClient

open Machine Tms

/-- What is put for a worker: the function of a timer, or of a call without a delay. -/
inductive Timed.Message
  | timer (i : Nat)
  | other (func : Nat)
  deriving DecidableEq

/-- The timer manager together with the workers. The callback of a timer puts a message for the
worker that the call has named. -/
structure Timed where
  mgr : TimerMgr
  tms : Tms Timed.Message
  -- the worker that the callback of a timer puts its message for
  logicId : Nat → Nat := fun _ => 0
  -- the callback that is running has put it
  hasPut : Bool := false
  -- the calls of `m_func`, each with its worker
  called : List (Nat × Timed.Message) := []

namespace Timed

/-- `AddMessage` with a delay, and `AddMessage_loop`, up to the making of the timer. Without a
worker they return -1. -/
def addMessageTimer (logicId : Nat) (timer : Int → Timer) (s : Timed) : Timed :=
  if (s.tms.mapLogicList logicId).isSome then
    { s with
      mgr := TimerMgr.construct (timer s.mgr.now) s.mgr
      logicId := Function.update s.logicId s.mgr.count logicId }
  else s

def addMessageDelayed (logicId : Nat) (millisecond : Int) : Timed → Timed :=
  addMessageTimer logicId (TimerMgr.onceTimer (milliseconds millisecond))

def addMessageLoop (logicId : Nat) (delayseconds millisecond : Int) : Timed → Timed :=
  addMessageTimer logicId (TimerMgr.loopTimer delayseconds (milliseconds millisecond))

/-- The timer whose callback is running and has still to put. -/
def toPut (s : Timed) : Option Nat :=
  match s.mgr.pc with
  | .running tmp true => if s.hasPut then none else some tmp
  | _ => none

/-- `Put`, in the callback. -/
def put (s : Timed) : Option Timed :=
  s.toPut.map fun tmp =>
    { s with tms := s.tms.addMessage (s.logicId tmp) (.timer tmp), hasPut := true }

def sched (s : Timed) : Option Timed :=
  if s.toPut = none then
    (TimerMgr.sched s.mgr).map fun mgr => { s with mgr := mgr, hasPut := false }
  else none

/-- A worker calls its message. -/
def call (logicId : Nat) (s : Timed) : Option Timed :=
  (s.tms.call logicId).map fun r =>
    { s with tms := r.2, called := s.called ++ [(logicId, r.1)] }

/-- The steps of a call that has made its timer, `cancel`, `Close`, the end of a wait, and the
clock. The callbacks of `TMS` add no timers. -/
def others : TimerMgr.Action → Bool
  | .push _ | .mark _ | .notify _ | .cancel _ | .close | .waitTimeout | .tick _ => true
  | .addTimer _ | .addTimerLoop _ _ | .callbackAddTimer _ | .callbackAddTimerLoop _ _ | .sched =>
    false

/-- What can happen next: a call of the library, a step of the timer manager, the message of the
callback that is running, or a step of a worker. -/
inductive Action
  | addMessage (logicId func : Nat)
  | addMessageDelayed (logicId : Nat) (millisecond : Int)
  | addMessageLoop (logicId : Nat) (delayseconds millisecond : Int)
  | timer (a : TimerMgr.Action)
  | sched
  | put
  | pop (logicId : Nat)
  | call (logicId : Nat)
  | finish (logicId : Nat)
  deriving DecidableEq

def step (s : Timed) : Action → Option Timed
  | .addMessage logicId func => some { s with tms := s.tms.addMessage logicId (.other func) }
  | .addMessageDelayed logicId millisecond => some (addMessageDelayed logicId millisecond s)
  | .addMessageLoop logicId delayseconds millisecond =>
    some (addMessageLoop logicId delayseconds millisecond s)
  | .timer a =>
    if others a = true then (TimerMgr.step s.mgr a).map fun mgr => { s with mgr := mgr } else none
  | .sched => sched s
  | .put => put s
  | .pop logicId => (s.tms.pop logicId).map fun tms => { s with tms := tms }
  | .call logicId => call logicId s
  | .finish logicId => (s.tms.finish logicId).map fun tms => { s with tms := tms }

/-- `load_module` has returned, and nothing has been asked for. -/
def loaded (threadCount : Nat) (now : Int) : Timed where
  mgr := TimerMgr.initial now
  tms := Tms.loadModule threadCount

end Timed

/-! ## What the other steps leave alone -/

namespace TimerMgr

/-- A wait ends, or nothing happens. -/
theorem wake_cases (status : CvStatus) (s : TimerMgr) :
    wake status s = s ∨
      s.pc.executing = none ∧ ∃ pc : Pc, wake status s = { s with pc := pc } ∧
        pc.executing = none := by
  unfold wake
  split
  case h_1 wakeAt hpc => exact .inr ⟨by rw [hpc]; rfl, _, rfl, rfl⟩
  case h_2 tmp wakeAt hpc => exact .inr ⟨by rw [hpc]; rfl, _, rfl, rfl⟩
  case h_3 => exact .inl rfl

/-- Between two states no timer has been made or executed, and the schedule thread is as far with
the one that it executes. -/
structure Aside (s s' : TimerMgr) : Prop where
  count : s'.count = s.count
  execs : s'.execs = s.execs
  pc : s'.pc = s.pc ∨ s.pc.executing = none ∧ s'.pc.executing = none

theorem Aside.wake {s : TimerMgr} (s' : TimerMgr) (h : Aside s s') (hpc : s'.pc = s.pc)
    (status : CvStatus) : Aside s (wake status s') := by
  rcases wake_cases status s' with hsame | ⟨hidle, pc, heq, hnew⟩
  · rw [hsame]
    exact h
  · rw [heq]
    exact ⟨h.count, h.execs, .inr ⟨hpc ▸ hidle, hnew⟩⟩

theorem aside_others {s s' : TimerMgr} {a : Action} (ha : Timed.others a = true)
    (hstep : step s a = some s') : Aside s s' := by
  cases does_of_step hstep with
  | push | mark | cancel | tick => exact ⟨rfl, rfl, .inl rfl⟩
  | notify i =>
    exact Aside.wake (s := s) { s with notified := i :: s.notified, producer := _ }
      ⟨rfl, rfl, .inl rfl⟩ rfl _
  | close =>
    exact Aside.wake (s := s) { s with timerRun := false, timerWakeupState := .addTimer }
      ⟨rfl, rfl, .inl rfl⟩ rfl _
  | timeoutEmpty wakeAt hpc | timeoutTop tmp wakeAt hpc =>
    exact ⟨rfl, rfl, .inr ⟨by rw [hpc]; rfl, rfl⟩⟩
  | addTimer | addTimerLoop | callbackAddTimer | callbackAddTimerLoop | sched => cases ha

/-- A step of the schedule thread executes nothing, or begins an execution. -/
theorem sched_begins {s s' : TimerMgr} (h : sched s = some s') :
    s'.count = s.count ∧ s'.pc.executing = none ∧ s'.execs = s.execs ∨
      ∃ tmp top, s.pc = .pop tmp ∧ s' = popStep tmp top s := by
  cases goes_of_sched h with
  | pop tmp top hpc => exact .inr ⟨tmp, top, hpc, rfl⟩
  | _ => exact .inl ⟨rfl, rfl, rfl⟩

end TimerMgr

namespace Timed

/-! ## What is called for the timers -/

def timerOf : Message → Option Nat
  | .timer i => some i
  | .other _ => none

/-- The timers among the messages. -/
def timersOf (msgs : List Message) : List Nat := msgs.filterMap timerOf

/-- The timers whose functions a worker has called. -/
def timersCalled (logicId : Nat) (s : Timed) : List Nat :=
  timersOf ((s.called.filter fun c => decide (c.1 = logicId)).map Prod.snd)

/-- Those of some timers that are for a worker. -/
def forWorker (logicId : Nat) (s : Timed) (timers : List Nat) : List Nat :=
  timers.filter fun i => decide (s.logicId i = logicId)

/-- The timers whose functions it has still to call, and the one that is being put. -/
def timersLeft (logicId : Nat) (s : Timed) : List Nat :=
  timersOf (s.tms.pending logicId) ++ forWorker logicId s s.toPut.toList

/-- The executions of timers that are for it. -/
def timersExecuted (logicId : Nat) (s : Timed) : List Nat :=
  forWorker logicId s (s.mgr.execs.map Exec.timer)

theorem timersOf_append (msgs msgs' : List Message) :
    timersOf (msgs ++ msgs') = timersOf msgs ++ timersOf msgs' := List.filterMap_append

theorem forWorker_append (logicId : Nat) (s : Timed) (timers timers' : List Nat) :
    forWorker logicId s (timers ++ timers') = forWorker logicId s timers
      ++ forWorker logicId s timers' := List.filter_append ..

theorem forWorker_self (s : Timed) (i : Nat) : forWorker (s.logicId i) s [i] = [i] :=
  List.filter_cons_of_pos (decide_eq_true rfl)

theorem forWorker_of_ne {logicId : Nat} {s : Timed} {i : Nat} (h : s.logicId i ≠ logicId) :
    forWorker logicId s [i] = [] := List.filter_cons_of_neg (by simpa using h)

theorem toPut_of_idle {s : Timed} (h : s.mgr.pc.executing = none) : s.toPut = none := by
  unfold toPut
  split
  case h_1 tmp hpc =>
    rw [hpc] at h
    cases h
  case h_2 => rfl

theorem executing_of_toPut {s : Timed} {tmp : Nat} (h : s.toPut = some tmp) :
    s.mgr.pc = .running tmp true ∧ s.hasPut = false := by
  unfold toPut at h
  split at h
  case h_1 tmp' hpc =>
    split at h
    case isTrue => cases h
    case isFalse hput =>
      obtain rfl := Option.some.inj h
      exact ⟨hpc, Bool.eq_false_iff.mpr hput⟩
  case h_2 => cases h

theorem toPut_of_aside {s s' : Timed} (h : TimerMgr.Aside s.mgr s'.mgr)
    (hput : s'.hasPut = s.hasPut) : s'.toPut = s.toPut := by
  rcases h.pc with hsame | ⟨hidle, hidle'⟩
  · unfold toPut
    rw [hsame, hput]
  · rw [toPut_of_idle hidle, toPut_of_idle hidle']

/-- The callback puts once. -/
theorem put_spec {s s' : Timed} (hs : put s = some s') :
    ∃ tmp, s.toPut = some tmp ∧ s.mgr.pc = .running tmp true ∧ s'.toPut = none ∧
      s' = { s with tms := s.tms.addMessage (s.logicId tmp) (.timer tmp), hasPut := true } := by
  obtain ⟨tmp, hput, rfl⟩ := Option.map_eq_some_iff.mp hs
  obtain ⟨hpc, -⟩ := executing_of_toPut hput
  refine ⟨tmp, hput, hpc, ?_, rfl⟩
  unfold toPut
  rw [hpc]
  rfl

/-! ## The invariant -/

/-- The invariant of the timers and the workers. Each timer belongs to a worker that exists, and for
each worker the functions called and those in its queue are together what the manager has executed
for it, in that order. -/
structure Kept (n : Nat) (s : Timed) : Prop where
  fresh : TimerMgr.Fresh s.mgr
  wf : TimerMgr.Wf s.mgr
  fired : TimerMgr.Fired s.mgr
  count : s.tms.logicThreadCount = n
  workers : ∀ id, (s.tms.mapLogicList id).isSome = true ↔ id < n
  assigned : ∀ i < s.mgr.count, s.logicId i < n
  calls : ∀ w, timersCalled w s ++ timersLeft w s = timersExecuted w s

theorem kept_loaded (n : Nat) (now : Int) : Kept n (loaded n now) where
  fresh := fun _ _ => rfl
  wf := TimerMgr.wf_initial now
  fired := TimerMgr.fired_initial now
  count := (loadModule_eq n).1
  workers := fun id => by
    show ((loadModule n : Tms Message).mapLogicList id).isSome = true ↔ id < n
    rw [(loadModule_eq n).2 id]
    by_cases hid : id < n <;> simp [hid]
  assigned := fun i hi => absurd hi (Nat.not_lt_zero i)
  calls := fun w => by
    have hpending : (loaded n now).tms.pending w = [] := pending_loadModule n w
    rw [timersLeft, hpending]
    rfl

theorem Kept.lt_count {n : Nat} {s : Timed} (h : Kept n s) {i : Nat}
    (hi : (s.mgr.producer i).Added) : i < s.mgr.count := by
  by_contra hge
  rw [h.fresh i (Nat.le_of_not_lt hge)] at hi
  exact hi

/-- The workers have moved on, and nothing has been called. -/
theorem Kept.same {n : Nat} {s : Timed} {tms : Tms Message} (h : Kept n s)
    (hsame : SameWorkers s.tms tms)
    (hleft : ∀ w, timersOf (tms.pending w) = timersOf (s.tms.pending w)) :
    Kept n { s with tms := tms } :=
  { h with
    count := hsame.count.trans h.count
    workers := fun id => by rw [hsame.workers id, h.workers id]
    calls := fun w => by
      refine Eq.trans ?_ (h.calls w)
      show timersCalled w s ++ (timersOf (tms.pending w) ++ forWorker w s s.toPut.toList)
        = timersCalled w s ++ (timersOf (s.tms.pending w) ++ forWorker w s s.toPut.toList)
      rw [hleft w] }

/-- The manager has moved on, and has executed nothing. -/
theorem Kept.aside {n : Nat} {s : Timed} {mgr : TimerMgr} {a : TimerMgr.Action} (h : Kept n s)
    (hs : TimerMgr.step s.mgr a = some mgr) (hasideMgr : TimerMgr.Aside s.mgr mgr) :
    Kept n { s with mgr := mgr } where
  fresh := TimerMgr.fresh_step h.fresh hs
  wf := TimerMgr.wf_step h.fresh h.wf hs
  fired := TimerMgr.fired_step h.fresh h.wf h.fired hs
  count := h.count
  workers := h.workers
  assigned := fun i hi => h.assigned i (hasideMgr.count ▸ hi)
  calls := fun w => by
    have hput : toPut { s with mgr := mgr } = s.toPut := toPut_of_aside hasideMgr rfl
    have hleft : timersLeft w { s with mgr := mgr } = timersLeft w s := by
      rw [timersLeft, hput]
      rfl
    have hexecuted : timersExecuted w { s with mgr := mgr } = timersExecuted w s := by
      rw [timersExecuted, hasideMgr.execs]
      rfl
    rw [hleft, hexecuted]
    exact h.calls w

theorem kept_addMessage {n : Nat} {s : Timed} (h : Kept n s) (logicId func : Nat) :
    Kept n { s with tms := s.tms.addMessage logicId (.other func) } := by
  by_cases hworker : (s.tms.mapLogicList logicId).isSome = true
  · obtain ⟨hsame, hself, hothers⟩ := addMessage_spec hworker (.other func)
    apply h.same hsame
    intro w
    by_cases hw : w = logicId
    · rw [hw, hself, timersOf_append]
      exact List.append_nil _
    · rw [hothers w hw]
  · rw [addMessage_none (by simpa using hworker)]
    exact h

/-- A timer is made for a worker that exists. -/
theorem kept_addMessageTimer {n : Nat} {s : Timed} (h : Kept n s) (logicId : Nat)
    (timer : Int → Timer) : Kept n (addMessageTimer logicId timer s) := by
  unfold addMessageTimer
  split
  case isFalse => exact h
  case isTrue hworker =>
    have hquiet := TimerMgr.quiet_construct h.fresh (timer s.mgr.now)
    -- the timers that have been executed have their workers already
    have hkeep : ∀ w timers, (∀ i ∈ timers, (s.mgr.producer i).Added) →
        forWorker w { s with
          mgr := TimerMgr.construct (timer s.mgr.now) s.mgr
          logicId := Function.update s.logicId s.mgr.count logicId } timers
          = forWorker w s timers := by
      intro w timers hadded
      apply List.filter_congr
      intro i hi
      have hne : i ≠ s.mgr.count := TimerMgr.ne_count_of_added h.fresh (hadded i hi)
      show decide (Function.update s.logicId s.mgr.count logicId i = w) = _
      rw [Function.update_of_ne hne]
    refine
      { fresh := TimerMgr.fresh_construct h.fresh _
        wf := TimerMgr.wf_quiet h.wf hquiet
        fired := h.fired.alike rfl (fun i => (hquiet.added i).mpr)
          fun i hi => ⟨(hquiet.timers i hi).mTimerType, (hquiet.timers i hi).mCallback⟩
        count := h.count
        workers := h.workers
        assigned := fun i hi => ?_
        calls := fun w => ?_ }
    · show Function.update s.logicId s.mgr.count logicId i < n
      by_cases heq : i = s.mgr.count
      · rw [heq, Function.update_self]
        exact (h.workers logicId).mp hworker
      · rw [Function.update_of_ne heq]
        have hlt : i < s.mgr.count + 1 := hi
        exact h.assigned i (by omega)
    · have hput : ∀ i ∈ s.toPut.toList, (s.mgr.producer i).Added := by
        intro i hi
        obtain ⟨hpc, -⟩ := executing_of_toPut (Option.mem_toList.mp hi)
        exact h.wf.executing i (by rw [hpc]; rfl)
      have hleft := hkeep w s.toPut.toList hput
      have hexecuted := hkeep w (s.mgr.execs.map Exec.timer) h.fired.added
      have hcalls := h.calls w
      rw [timersLeft, timersExecuted, ← hleft, ← hexecuted] at hcalls
      exact hcalls

/-- **The schedule thread goes on.** It calls a callback, and then its timer is the one whose
message is to be put with its worker, or it calls none and nothing is to be put. -/
theorem kept_sched {n : Nat} {s s' : Timed} (h : Kept n s) (hs : sched s = some s') :
    Kept n s' := by
  obtain ⟨hnone, hs⟩ := Option.ite_none_right_eq_some.mp hs
  obtain ⟨mgr, hmgr, rfl⟩ := Option.map_eq_some_iff.mp hs
  have hstep : TimerMgr.step s.mgr .sched = some mgr := hmgr
  -- no timer is added
  have hcount : mgr.count = s.mgr.count := by
    rcases TimerMgr.sched_begins hmgr with ⟨hcount, -⟩ | ⟨tmp, top, -, rfl⟩
    · exact hcount
    · rfl
  refine
    { fresh := TimerMgr.fresh_step h.fresh hstep
      wf := TimerMgr.wf_step h.fresh h.wf hstep
      fired := TimerMgr.fired_step h.fresh h.wf h.fired hstep
      count := h.count
      workers := h.workers
      assigned := fun i hi => h.assigned i (hcount ▸ hi)
      calls := fun w => ?_ }
  have hcalls := h.calls w
  rw [timersLeft, hnone] at hcalls
  rcases TimerMgr.sched_begins hmgr with ⟨-, hidle, hexecs⟩ | ⟨tmp, top, hpc, rfl⟩
  · have hput : toPut { s with mgr := mgr, hasPut := false } = none := toPut_of_idle hidle
    rw [timersLeft, timersExecuted, hput, hexecs]
    exact hcalls
  · cases htimer : (s.mgr.timers tmp).calls with
    -- the callback has been let go, and the timer is dropped
    | false =>
      have hput : toPut { s with mgr := TimerMgr.popStep tmp top s.mgr, hasPut := false }
          = none := by
        unfold toPut TimerMgr.popStep
        rw [htimer]
      have hexecs : (TimerMgr.popStep tmp top s.mgr).execs = s.mgr.execs :=
        if_neg (by rw [htimer]; decide)
      rw [timersLeft, timersExecuted, hput, hexecs]
      exact hcalls
    | true =>
      have hput : toPut { s with mgr := TimerMgr.popStep tmp top s.mgr, hasPut := false }
          = some tmp := by
        unfold toPut TimerMgr.popStep
        rw [htimer]
        rfl
      have hexecs : (TimerMgr.popStep tmp top s.mgr).execs
          = s.mgr.execs ++ [⟨tmp, s.mgr.now, s.mgr.due tmp⟩] := if_pos htimer
      -- before, nothing was to be put, so that the execution is the last
      have hbefore : timersCalled w s ++ timersOf (s.tms.pending w) = timersExecuted w s := by
        rw [← hcalls]
        exact congrArg _ (List.append_nil _).symm
      rw [timersLeft, timersExecuted, hput, hexecs, List.map_append]
      show timersCalled w s ++ (timersOf (s.tms.pending w) ++ forWorker w s [tmp])
        = forWorker w s (s.mgr.execs.map Exec.timer ++ [tmp])
      rw [forWorker_append, ← List.append_assoc]
      exact congrArg (· ++ forWorker w s [tmp]) hbefore

theorem kept_put {n : Nat} {s s' : Timed} (h : Kept n s) (hs : put s = some s') : Kept n s' := by
  obtain ⟨tmp, hput, hpc, hdone, rfl⟩ := put_spec hs
  have hlt : s.logicId tmp < n :=
    h.assigned tmp (h.lt_count (h.wf.executing tmp (by rw [hpc]; rfl)))
  obtain ⟨hsame, hself, hothers⟩ := addMessage_spec ((h.workers _).mpr hlt) (.timer tmp)
  refine
    { h with
      count := hsame.count.trans h.count
      workers := fun id => by rw [hsame.workers id, h.workers id]
      calls := fun w => ?_ }
  have hcalls := h.calls w
  rw [timersLeft, hput] at hcalls
  rw [timersLeft, hdone]
  refine Eq.trans ?_ hcalls
  show timersCalled w s ++ (timersOf ((s.tms.addMessage (s.logicId tmp) (.timer tmp)).pending w)
    ++ []) = timersCalled w s ++ (timersOf (s.tms.pending w) ++ forWorker w s [tmp])
  rw [List.append_nil]
  by_cases hw : w = s.logicId tmp
  · subst hw
    rw [hself, timersOf_append, forWorker_self]
    rfl
  · rw [hothers w hw, forWorker_of_ne (Ne.symm hw), List.append_nil]

theorem kept_call {n : Nat} {s s' : Timed} {logicId : Nat} (h : Kept n s)
    (hs : call logicId s = some s') : Kept n s' := by
  obtain ⟨⟨msg, tms⟩, hcall, rfl⟩ := Option.map_eq_some_iff.mp hs
  obtain ⟨hsame, hself, hothers⟩ := call_spec hcall
  refine
    { h with
      count := hsame.count.trans h.count
      workers := fun id => by rw [hsame.workers id, h.workers id]
      calls := fun w => ?_ }
  refine Eq.trans ?_ (h.calls w)
  show timersOf (((s.called ++ [(logicId, msg)]).filter fun c => decide (c.1 = w)).map Prod.snd)
      ++ (timersOf (tms.pending w) ++ forWorker w s s.toPut.toList)
    = timersCalled w s ++ (timersOf (s.tms.pending w) ++ forWorker w s s.toPut.toList)
  rw [List.filter_append, List.map_append, timersOf_append]
  by_cases hw : logicId = w
  · subst hw
    have hthis : [(logicId, msg)].filter (fun c => decide (c.1 = logicId)) = [(logicId, msg)] :=
      List.filter_cons_of_pos (decide_eq_true rfl)
    have hfront : timersOf (s.tms.pending logicId)
        = timersOf [msg] ++ timersOf (tms.pending logicId) := by
      rw [hself, ← timersOf_append, List.singleton_append]
    rw [hthis, hfront, List.append_assoc, List.append_assoc]
    rfl
  · have hnone : [(logicId, msg)].filter (fun c => decide (c.1 = w)) = [] :=
      List.filter_cons_of_neg (by simpa using hw)
    rw [hnone, hothers w (Ne.symm hw)]
    exact congrArg (· ++ _) (List.append_nil (timersCalled w s))

theorem kept_step {n : Nat} {s s' : Timed} {a : Action} (h : Kept n s)
    (hs : step s a = some s') : Kept n s' := by
  cases a with
  | addMessage logicId func => exact Option.some.inj hs ▸ kept_addMessage h logicId func
  | addMessageDelayed | addMessageLoop =>
    exact Option.some.inj hs ▸ kept_addMessageTimer h _ _
  | timer a =>
    obtain ⟨hothers, hs⟩ := Option.ite_none_right_eq_some.mp hs
    obtain ⟨mgr, hmgr, rfl⟩ := Option.map_eq_some_iff.mp hs
    exact h.aside hmgr (TimerMgr.aside_others hothers hmgr)
  | sched => exact kept_sched h hs
  | put => exact kept_put h hs
  | pop logicId =>
    obtain ⟨tms, hpop, rfl⟩ := Option.map_eq_some_iff.mp hs
    obtain ⟨hsame, hpending⟩ := pop_spec hpop
    exact h.same hsame fun w => by rw [hpending w]
  | call logicId => exact kept_call h hs
  | finish logicId =>
    obtain ⟨tms, hfinish, rfl⟩ := Option.map_eq_some_iff.mp hs
    obtain ⟨hsame, hpending⟩ := finish_spec hfinish
    exact h.same hsame fun w => by rw [hpending w]

theorem kept_run {n : Nat} {now : Int} {as : List Action} {s : Timed}
    (hrun : run step (loaded n now) as = some s) : Kept n s :=
  invariant_of_run (Kept n) (fun _ _ _ => kept_step) (kept_loaded n now) hrun

/-! ## Every run -/

/-- The step of the manager that a step is, if it is one. -/
def Action.mgr (s : Timed) : Action → Option TimerMgr.Action
  | .addMessageDelayed logicId millisecond =>
    if (s.tms.mapLogicList logicId).isSome then
      some (.addTimer (milliseconds millisecond))
    else none
  | .addMessageLoop logicId delayseconds millisecond =>
    if (s.tms.mapLogicList logicId).isSome then
      some (.addTimerLoop delayseconds (milliseconds millisecond))
    else none
  | .timer a => some a
  | .sched => some .sched
  | .addMessage _ _ | .put | .pop _ | .call _ | .finish _ => none

/-- A step of the whole is at most one of the manager. The projection of a run to the manager is
therefore a run of the manager alone, and what is proved of that holds here. -/
theorem mgr_of_step (s : Timed) (a : Action) (s' : Timed) (hs : step s a = some s') :
    (a.mgr s).elim (s'.mgr = s.mgr) fun b => TimerMgr.step s.mgr b = some s'.mgr := by
  cases a with
  | addMessage => exact Option.some.inj hs ▸ rfl
  | addMessageDelayed logicId millisecond =>
    obtain rfl := Option.some.inj hs
    by_cases hworker : (s.tms.mapLogicList logicId).isSome = true
    · simp only [Action.mgr, addMessageDelayed, addMessageTimer, hworker, if_true]
      rfl
    · simp only [Action.mgr, addMessageDelayed, addMessageTimer, hworker]
      rfl
  | addMessageLoop logicId delayseconds millisecond =>
    obtain rfl := Option.some.inj hs
    by_cases hworker : (s.tms.mapLogicList logicId).isSome = true
    · simp only [Action.mgr, addMessageLoop, addMessageTimer, hworker, if_true]
      rfl
    · simp only [Action.mgr, addMessageLoop, addMessageTimer, hworker]
      rfl
  | timer a =>
    obtain ⟨-, hs⟩ := Option.ite_none_right_eq_some.mp hs
    obtain ⟨mgr, hmgr, rfl⟩ := Option.map_eq_some_iff.mp hs
    exact hmgr
  | sched =>
    obtain ⟨-, hs⟩ := Option.ite_none_right_eq_some.mp hs
    obtain ⟨mgr, hmgr, rfl⟩ := Option.map_eq_some_iff.mp hs
    exact hmgr
  | put | pop | call | finish =>
    obtain ⟨_, -, rfl⟩ := Option.map_eq_some_iff.mp hs
    rfl

/-- What the manager does is a run of its own, and what it meets there is what it meets here. -/
theorem mgr_run {G : TimerMgr → TimerMgr.Action → Prop} {s t : Timed} {as : List Action}
    (hG : Meets step (fun s a => ∀ b ∈ a.mgr s, G s.mgr b) s as) (hrun : run step s as = some t) :
    ∃ bs, Meets TimerMgr.step G s.mgr bs ∧ run TimerMgr.step s.mgr bs = some t.mgr :=
  run_part Timed.mgr (fun s a => a.mgr s) mgr_of_step hG hrun

/-- The manager is in a state that it reaches alone. -/
theorem mgr_reached {n : Nat} {now : Int} {as : List Action} {s : Timed}
    (hrun : run step (loaded n now) as = some s) :
    ∃ bs, run TimerMgr.step (TimerMgr.initial now) bs = some s.mgr := by
  have hG : Meets step (fun s a => ∀ b ∈ a.mgr s, True) (loaded n now) as :=
    (meets_of_forall (fun _ _ => trivial) _).mono fun _ _ _ _ _ => trivial
  obtain ⟨bs, -, hbs⟩ := mgr_run (G := fun _ _ => True) hG hrun
  exact ⟨bs, hbs⟩

/-- Two timers of one worker, the second one first; its function has been called when the first
one's callback has still to put. -/
def secondFirst : List Action :=
  [.addMessageDelayed 0 9, .timer (.push 0), .timer (.mark 0), .timer (.notify 0),
    .addMessageDelayed 0 5, .timer (.push 1), .timer (.mark 1), .timer (.notify 1),
    .timer (.tick 20000000)] ++ List.replicate 10 .sched ++ [.put] ++ List.replicate 2 .sched
    ++ [.pop 0, .call 0] ++ List.replicate 9 .sched

end Timed

end PssClient
