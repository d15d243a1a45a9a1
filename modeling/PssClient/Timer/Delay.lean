import PssClient.Timer.Early

/-!
# The begin delay

`getLeftTime` counts the begin delay of a timer once: it returns the time left with it and clears
it. Whoever calls it again before the timer runs gets the time without the delay. `timer_run` calls
it whenever it looks at the queue, and `nearLeftTime` calls it for any other thread.

* `Recorded` — the manager with `nearLeftTime`, and a record of what `getLeftTime` has returned.
* `deadline` — start time, interval and begin delay of a timer that has not run yet; later without
  the delay.
* `ReadInTime` — the condition: before a timer may first run its delay is not found cleared, and the
  mark of a producer is seen.
* `FirstCall` — nobody finds the delay of a timer cleared.
* `honoured_of_run`, `agree_run` — what the two conditions are worth, with unbounded times. The
  result, with the 64-bit counts, is in `BeginDelay`.
-/

namespace PssClient

open Machine

namespace TimerMgr

/-- `nearLeftTime`. -/
def nearLeftTime (s : TimerMgr) : Int × TimerMgr :=
  match s.mTimers[0]? with
  | none => (0, s)
  | some top =>
    (if ((s.timers top).getLeftTime s.now).1 < 0 then 0 else ((s.timers top).getLeftTime s.now).1,
      { s with timers := Function.update s.timers top ((s.timers top).getLeftTime s.now).2 })

end TimerMgr

/-- A call of `getLeftTime`: the time at which it puts the end of the time left, and where that
is. -/
structure Reading where
  reported : Int
  deadline : Int

/-- The manager and what has been asked of it. -/
structure Recorded where
  mgr : TimerMgr
  -- the begin delay of each timer until it has run, and when it may first run
  begun : Nat → Int := fun _ => 0
  first : Nat → Int := fun _ => 0
  reports : List Reading := []

namespace Recorded

def deadline (w : Recorded) (i : Nat) : Int := w.mgr.due i + seconds (w.begun i)

/-- A timer has been made. -/
def made (t : Timer) (w : Recorded) : Recorded :=
  { w with
    begun := Function.update w.begun w.mgr.count t.mDelayTime
    first := Function.update w.first w.mgr.count (t.due + seconds t.mDelayTime) }

/-- `getLeftTime` of a timer has been called. -/
def read (i : Nat) (w : Recorded) : Recorded :=
  { w with reports := w.reports ++
      [⟨w.mgr.now + ((w.mgr.timers i).getLeftTime w.mgr.now).1, w.deadline i⟩] }

/-- A timer has run. -/
def ran (i : Nat) (w : Recorded) : Recorded := { w with begun := Function.update w.begun i 0 }

/-- What there is to record of an action of the manager. -/
def record (a : TimerMgr.Action) (w : Recorded) : Recorded :=
  match a.timer w.mgr.now with
  | some t => w.made t
  | none =>
    match a, w.mgr.pc with
    | .sched, .getLeftTime tmp => w.read tmp
    | .sched, .running tmp _ => w.ran tmp
    | _, _ => w

/-- What can happen next: a step of the manager, or a call of `nearLeftTime` from outside, which
clears the begin delay of the timer on top as well. -/
inductive Action
  | mgr (a : TimerMgr.Action)
  | nearLeftTime
  deriving DecidableEq

def step (w : Recorded) : Action → Option Recorded
  | .mgr a => (TimerMgr.step w.mgr a).map fun s => { w.record a with mgr := s }
  -- under `mtx`
  | .nearLeftTime =>
    if w.mgr.pc.mtxFree then
      match w.mgr.mTimers[0]? with
      | none => some w
      | some top => some { w.read top with mgr := w.mgr.nearLeftTime.2 }
    else none

def initial (now : Int) : Recorded := { mgr := TimerMgr.initial now }

/-- The begin delay of a timer is still there, or there was none. -/
def Unread (w : Recorded) (i : Nat) : Prop := (w.mgr.timers i).mDelayTime = w.begun i

/-- Before a timer may first run, `timer_run` calls its `getLeftTime` with no less of the begin
delay left than there was, and when it tests `timer_wakeup_state` after a notify has ended the wait
for the timer, it finds the mark of a producer. -/
def ReadInTime (w : Recorded) : Action → Prop
  | .mgr .sched =>
    match w.mgr.pc with
    | .getLeftTime tmp =>
      w.mgr.now < w.first tmp → w.begun tmp ≤ (w.mgr.timers tmp).mDelayTime
    | .woken tmp .noTimeout => w.mgr.now < w.first tmp → w.mgr.timerWakeupState = .addTimer
    | _ => True
  | _ => True

/-- Whoever calls `getLeftTime` of a timer is the first since it has been made or has run, or it has
no begin delay. -/
def FirstCall (w : Recorded) : Action → Prop
  | .mgr .sched =>
    match w.mgr.pc with
    | .getLeftTime tmp => w.Unread tmp
    | _ => True
  | .nearLeftTime => ∀ top ∈ w.mgr.mTimers[0]?, w.Unread top
  | _ => True

instance (w : Recorded) (i : Nat) : Decidable (w.Unread i) :=
  inferInstanceAs (Decidable (_ = _))

instance (w : Recorded) (a : Action) : Decidable (ReadInTime w a) := by
  unfold ReadInTime
  split
  · split <;> infer_instance
  · infer_instance

instance (w : Recorded) (a : Action) : Decidable (FirstCall w a) := by
  unfold FirstCall
  split
  · split <;> infer_instance
  · infer_instance
  · infer_instance

end Recorded

/-! ## The order of the queue after a step -/

namespace TimerMgr

theorem due_update_of_alike {s s' : TimerMgr} {i : Nat} {t : Timer}
    (h : s'.timers = Function.update s.timers i t) (halike : (s.timers i).Alike t) :
    s'.due = s.due := by
  funext j
  unfold due
  rw [h]
  exact (alike_update halike j).due

theorem due_wake (status : CvStatus) (s : TimerMgr) : (wake status s).due = s.due := by
  obtain ⟨pc, heq, -, -⟩ := wake_eq status s
  rw [heq]
  rfl

theorem due_construct (t : Timer) (s : TimerMgr) :
    (construct t s).due = Function.update s.due s.count t.due := by
  funext j
  show (Function.update s.timers s.count t j).due = _
  by_cases hj : j = s.count
  · subst hj
    rw [Function.update_self, Function.update_self]
  · rw [Function.update_of_ne hj, Function.update_of_ne hj]
    rfl

/-- The end of an execution gives a timer a new time. -/
theorem due_running {s : TimerMgr} (tmp : Nat) {i : Nat} (hi : i ≠ tmp) :
    (runningStep tmp s).due i = s.due i := by
  have hfinish : (finish tmp s).due i = s.due i := by
    show (Function.update s.timers tmp _ i).due = _
    rw [Function.update_of_ne hi]
    rfl
  unfold runningStep
  split <;> exact hfinish

theorem due_sched {s s' : TimerMgr} (hs : sched s = some s') :
    s.pc.executing = none ∧ s'.due = s.due ∨
      ∃ tmp called, s.pc = .running tmp called ∧ s' = runningStep tmp s := by
  cases goes_of_sched hs with
  | left tmp hpc | expired tmp hpc =>
    exact .inl ⟨by rw [hpc]; rfl, due_update_of_alike rfl (Timer.alike_getLeftTime s.now _)⟩
  | pop tmp top hpc => exact .inl ⟨by rw [hpc]; rfl, due_popStep tmp top s⟩
  | requeue tmp called hpc hloop => exact .inr ⟨tmp, called, hpc, (if_pos hloop).symm⟩
  | finished tmp called hpc hnone => exact .inr ⟨tmp, called, hpc, (if_neg hnone).symm⟩
  | schedule hpc | again hpc | leave hpc | lock hpc | empty hpc | nonempty hpc | waitEmpty hpc
  | run hpc | leaveRun hpc | stillEmpty hpc | filled hpc | readTop tmp hpc | waitTop tmp _ hpc
  | marked tmp _ hpc | unmarked tmp _ hpc | runAgain tmp hpc | leaveRunAgain tmp hpc
  | overwrite hpc => exact .inl ⟨by rw [hpc]; rfl, rfl⟩

/-- The times at which the timers are due change when a timer is made and when one has run. -/
theorem due_cases {s s' : TimerMgr} {a : Action} (hstep : step s a = some s') :
    (∃ t, a.timer s.now = some t ∧ s'.due = Function.update s.due s.count t.due) ∨
    (∃ tmp called, a = .sched ∧ s.pc = .running tmp called ∧ s' = runningStep tmp s) ∨
    a.timer s.now = none ∧ (a = .sched → s.pc.executing = none) ∧ s'.due = s.due := by
  have hadd : ∀ t, (addInCallback t s).due = Function.update s.due s.count t.due := by
    intro t
    rw [addInCallback, notify, due_wake]
    exact due_construct t s
  cases does_of_step hstep with
  | addTimer timeout | addTimerLoop delayseconds timeout => exact .inl ⟨_, rfl, due_construct _ s⟩
  | callbackAddTimer timeout | callbackAddTimerLoop delayseconds timeout =>
    exact .inl ⟨_, rfl, hadd _⟩
  | notify | close => exact .inr (.inr ⟨rfl, by simp, due_wake ..⟩)
  | cancel i =>
    exact .inr (.inr ⟨rfl, by simp, due_update_of_alike rfl (Timer.alike_cancel _)⟩)
  | sched hs =>
    rcases due_sched hs with ⟨hnone, hsame⟩ | ⟨tmp, called, hpc, heq⟩
    · exact .inr (.inr ⟨rfl, fun _ => hnone, hsame⟩)
    · exact .inr (.inl ⟨tmp, called, rfl, hpc, heq⟩)
  | push | mark | timeoutEmpty | timeoutTop | tick => exact .inr (.inr ⟨rfl, by simp, rfl⟩)

theorem quiet_nearLeftTime (s : TimerMgr) : Quiet s s.nearLeftTime.2 := by
  unfold nearLeftTime
  split
  case h_1 => exact .of_pc (.inr rfl) rfl
  case h_2 top htop =>
    exact ⟨rfl, rfl, fun j _ => alike_update (Timer.alike_getLeftTime s.now _) j, fun _ => .rfl,
      .inr rfl, rfl, rfl, Int.le_refl _⟩

theorem now_step {s s' : TimerMgr} {a : Action} (hfresh : Fresh s) (hstep : step s a = some s') :
    s.now ≤ s'.now := by
  rcases step_cases hfresh hstep with hquiet | ⟨i, -, rfl⟩ | ⟨tmp, t, -, rfl⟩ | ⟨tmp, -, -, rfl⟩ |
    ⟨tmp, top, -, -, -, rfl⟩ | ⟨tmp, called, -, rfl⟩
  · exact hquiet.now
  · exact le_refl _
  · exact (quiet_notify (producer_mark (push s.count (construct t s)) s.count)).now
  · exact le_refl _
  · exact le_refl _
  · unfold runningStep
    split <;> exact le_refl _

/-- A step executes at most the timer that it pops. -/
theorem runs_cases {s s' : TimerMgr} {a : Action} (hfresh : Fresh s)
    (hstep : step s a = some s') :
    s'.execs = s.execs ∧ (∀ i, s'.pc.executing = some i → s.pc.executing = some i) ∨
      ∃ tmp top, a = .sched ∧ s.pc = .pop tmp ∧ s' = popStep tmp top s := by
  rcases step_cases hfresh hstep with hquiet | ⟨i, -, rfl⟩ | ⟨tmp, t, -, rfl⟩ | ⟨tmp, -, -, rfl⟩ |
    ⟨tmp, top, ha, hpc, -, rfl⟩ | ⟨tmp, called, -, rfl⟩
  · exact .inl ⟨hquiet.execs, fun i hi => hquiet.executing ▸ hi⟩
  · exact .inl ⟨rfl, fun _ => id⟩
  · have hnotify := quiet_notify (producer_mark (push s.count (construct t s)) s.count)
    exact .inl ⟨hnotify.execs, fun i hi => hnotify.executing.symm.trans hi⟩
  · exact .inl ⟨rfl, nofun⟩
  · exact .inr ⟨tmp, top, ha, hpc, rfl⟩
  · left
    unfold runningStep
    split <;> exact ⟨rfl, nofun⟩

theorem added_step {s s' : TimerMgr} {a : Action} (hfresh : Fresh s) (hstep : step s a = some s')
    {i : Nat} (hi : (s.producer i).Added) : (s'.producer i).Added := by
  rcases step_cases hfresh hstep with hquiet | ⟨j, -, rfl⟩ | ⟨tmp, t, -, rfl⟩ | ⟨tmp, -, -, rfl⟩ |
    ⟨tmp, top, -, -, -, rfl⟩ | ⟨tmp, called, -, rfl⟩
  · exact (hquiet.added i).mpr hi
  · exact (added_push s j i).mpr (.inr hi)
  · have hmade := ((quiet_construct hfresh t).added i).mpr hi
    have hpushed := (added_push (construct t s) s.count i).mpr (.inr hmade)
    have hmarked := ((quiet_mark (producer_push (construct t s) s.count)).added i).mpr hpushed
    exact ((quiet_notify (producer_mark _ _)).added i).mpr hmarked
  · exact hi
  · exact hi
  · unfold runningStep
    split <;> exact hi

end TimerMgr

namespace Recorded

open TimerMgr (Fresh Wf)

/-! ## What is recorded of a step -/

theorem deadline_made (t : Timer) {w : Recorded} {s : TimerMgr}
    (hdue : s.due = Function.update w.mgr.due w.mgr.count t.due) :
    deadline { w.made t with mgr := s } = Function.update w.deadline w.mgr.count
      (t.due + seconds t.mDelayTime) := by
  funext i
  show s.due i + seconds (Function.update w.begun w.mgr.count t.mDelayTime i) = _
  rw [hdue]
  by_cases hi : i = w.mgr.count
  · subst hi
    simp only [Function.update_self]
  · simp only [Function.update_of_ne hi]
    rfl

/-- The call of `nearLeftTime` reads the timer on top, if there is one. -/
theorem nearLeftTime_cases {w w' : Recorded} (hstep : step w .nearLeftTime = some w') :
    (w.mgr.mTimers[0]? = none ∧ w' = w) ∨
      ∃ top, w.mgr.mTimers[0]? = some top ∧
        w' = { w.read top with mgr := w.mgr.nearLeftTime.2 } := by
  obtain ⟨-, heq⟩ := Option.ite_none_right_eq_some.mp hstep
  split at heq
  case h_1 hnone => exact .inl ⟨hnone, (Option.some.inj heq).symm⟩
  case h_2 top htop => exact .inr ⟨top, htop, (Option.some.inj heq).symm⟩

/-- **What a step does to the deadlines.** A call that adds a timer gives it one, the callback that
changes a timer's interval may change that timer's, and nothing else changes any: a read of
`nearLeftTime` moves the delay from one summand to the other. -/
theorem deadline_cases {w w' : Recorded} {a : Action} (hstep : step w a = some w') :
    (∃ d, w'.deadline = Function.update w.deadline w.mgr.count d ∧
      w'.first = Function.update w.first w.mgr.count d) ∨
    (∃ tmp called, w.mgr.pc = .running tmp called ∧ (∀ i ≠ tmp, w'.deadline i = w.deadline i) ∧
      w'.first = w.first) ∨
    w'.deadline = w.deadline ∧ w'.first = w.first := by
  cases a with
  | mgr a =>
    obtain ⟨s, hs, rfl⟩ := Option.map_eq_some_iff.mp hstep
    rcases TimerMgr.due_cases hs with ⟨t, ha, hdue⟩ | ⟨tmp, called, rfl, hpc, rfl⟩ |
      ⟨ha, hexec, hdue⟩
    · refine .inl ⟨t.due + seconds t.mDelayTime, ?_, ?_⟩
      · simp only [record, ha]
        exact deadline_made t hdue
      · simp only [record, ha]
        rfl
    · refine .inr (.inl ⟨tmp, called, hpc, fun i hi => ?_, ?_⟩)
      · simp only [record, TimerMgr.Action.timer, hpc]
        show _ + seconds (Function.update w.begun tmp 0 i) = _
        rw [TimerMgr.due_running tmp hi, Function.update_of_ne hi]
        rfl
      · simp only [record, TimerMgr.Action.timer, hpc]
        rfl
    -- no timer is made and none is executed
    · have hsame : (w.record a).begun = w.begun ∧ (w.record a).first = w.first := by
        simp only [record, ha]
        split
        · exact ⟨rfl, rfl⟩
        · rename_i hpc
          have hnone := hexec rfl
          rw [hpc] at hnone
          cases hnone
        · exact ⟨rfl, rfl⟩
      refine .inr (.inr ⟨?_, hsame.2⟩)
      funext i
      show s.due i + seconds ((w.record a).begun i) = _
      rw [hdue, hsame.1]
      rfl
  | nearLeftTime =>
    -- the timer on top has its left time computed, which ends its delay
    rcases nearLeftTime_cases hstep with ⟨-, rfl⟩ | ⟨top, htop, rfl⟩
    · exact .inr (.inr ⟨rfl, rfl⟩)
    · refine .inr (.inr ⟨?_, rfl⟩)
      have hdue : w.mgr.nearLeftTime.2.due = w.mgr.due := by
        unfold TimerMgr.nearLeftTime
        rw [htop]
        exact TimerMgr.due_update_of_alike rfl (Timer.alike_getLeftTime w.mgr.now _)
      funext i
      show w.mgr.nearLeftTime.2.due i + seconds (w.begun i) = _
      rw [hdue]
      rfl

/-- `nearLeftTime` changes nothing of the manager but the begin delay of the timer on top. -/
theorem mgr_nearLeftTime {w w' : Recorded} (hstep : step w .nearLeftTime = some w') :
    ∃ timers, w'.mgr = { w.mgr with timers := timers } ∧ TimerMgr.Quiet w.mgr w'.mgr := by
  rcases nearLeftTime_cases hstep with ⟨-, rfl⟩ | ⟨top, htop, rfl⟩
  · exact ⟨_, rfl, .of_pc (.inr rfl) rfl⟩
  · have hquiet := TimerMgr.quiet_nearLeftTime w.mgr
    unfold TimerMgr.nearLeftTime at hquiet ⊢
    rw [htop] at hquiet ⊢
    exact ⟨_, rfl, hquiet⟩

/-! ## The first run -/

/-- A timer whose deadline is not the earliest time of its first run any more may have run, and
those that have run were allowed to. -/
structure Honoured (w : Recorded) : Prop where
  fresh : Fresh w.mgr
  wf : Wf w.mgr
  dueBy : w.mgr.pc.DueBy w.first w.mgr.now
  earliest : ∀ i, w.deadline i = w.first i ∨ w.first i ≤ w.mgr.now
  executing : ∀ tmp, w.mgr.pc.executing = some tmp → w.first tmp ≤ w.mgr.now
  called : ∀ e ∈ w.mgr.execs, w.first e.timer ≤ e.time ∧ (w.mgr.producer e.timer).Added

theorem honoured_initial (now : Int) : Honoured (initial now) where
  fresh := fun _ _ => rfl
  wf := TimerMgr.wf_initial now
  dueBy := trivial
  earliest := fun _ => .inl rfl
  executing := fun _ h => by cases h
  called := fun _ he => absurd he List.not_mem_nil

/-- The timers that have been added keep the earliest time of their first run. -/
theorem first_step {w w' : Recorded} {a : Action} (hfresh : Fresh w.mgr)
    (hstep : step w a = some w') {i : Nat} (hi : (w.mgr.producer i).Added) :
    w'.first i = w.first i := by
  rcases deadline_cases hstep with ⟨d, -, hfirst⟩ | ⟨-, -, -, -, hfirst⟩ | ⟨-, hfirst⟩
  · rw [hfirst, Function.update_of_ne (TimerMgr.ne_count_of_added hfresh hi)]
  · rw [hfirst]
  · rw [hfirst]

theorem earliest_step {w w' : Recorded} {a : Action} (h : Honoured w)
    (hstep : step w a = some w') (hnow : w.mgr.now ≤ w'.mgr.now) (i : Nat) :
    w'.deadline i = w'.first i ∨ w'.first i ≤ w'.mgr.now := by
  have hold := (h.earliest i).imp_right fun hle => hle.trans hnow
  rcases deadline_cases hstep with ⟨d, hdeadline, hfirst⟩ |
    ⟨tmp, called, hpc, hothers, hfirst⟩ | ⟨hdeadline, hfirst⟩
  · rw [hdeadline, hfirst]
    by_cases hi : i = w.mgr.count
    · subst hi
      exact .inl (by simp only [Function.update_self])
    · rw [Function.update_of_ne hi, Function.update_of_ne hi]
      exact hold
  · rw [hfirst]
    by_cases hi : i = tmp
    · subst hi
      exact .inr ((h.executing i (by rw [hpc]; rfl)).trans hnow)
    · rw [hothers i hi]
      exact hold
  · rw [hdeadline, hfirst]
    exact hold

/-- `getLeftTime` does not come before the deadline unless the delay has been cleared. -/
theorem deadline_le_left {w : Recorded} {i : Nat}
    (h : w.begun i ≤ (w.mgr.timers i).mDelayTime) :
    w.deadline i ≤ w.mgr.now + ((w.mgr.timers i).getLeftTime w.mgr.now).1 := by
  show (w.mgr.timers i).mStartTime + (w.mgr.timers i).mLastTime + seconds (w.begun i)
    ≤ w.mgr.now + ((w.mgr.timers i).mLastTime - (w.mgr.now - (w.mgr.timers i).mStartTime)
      + seconds (w.mgr.timers i).mDelayTime)
  unfold seconds
  omega

theorem dueBy_mgr {w : Recorded} {s : TimerMgr} {a : TimerMgr.Action} (h : Honoured w)
    (hG : ReadInTime w (.mgr a)) (hs : TimerMgr.step w.mgr a = some s) :
    s.pc.DueBy w.first s.now := by
  refine TimerMgr.dueBy_of_step h.dueBy ?_ ?_ hs
  · rintro rfl tmp hpc
    simp only [ReadInTime, hpc] at hG
    rcases lt_or_ge w.mgr.now (w.first tmp) with hlt | hge
    · have hle := deadline_le_left (hG hlt)
      rcases h.earliest tmp with heq | hpast
      · exact .inl (heq ▸ hle)
      · exact .inr hpast
    · exact .inr hge
  · rintro rfl tmp hpc
    simp only [ReadInTime, hpc] at hG
    exact hG

/-- A timer about to be executed may run. -/
theorem Honoured.ready {w : Recorded} (h : Honoured w) {tmp : Nat} (hpc : w.mgr.pc = .pop tmp) :
    w.first tmp ≤ w.mgr.now := by
  have hdue := h.dueBy
  rw [hpc] at hdue
  exact hdue

/-- What has been called before was in time, and so is what is called now. -/
theorem called_mgr {w w' : Recorded} {a : TimerMgr.Action} (h : Honoured w)
    (hstep : step w (.mgr a) = some w') (hs : TimerMgr.step w.mgr a = some w'.mgr) :
    ∀ e ∈ w'.mgr.execs, w'.first e.timer ≤ e.time ∧ (w'.mgr.producer e.timer).Added := by
  have hold : ∀ e ∈ w.mgr.execs,
      w'.first e.timer ≤ e.time ∧ (w'.mgr.producer e.timer).Added := by
    intro e he
    obtain ⟨hle, hadded⟩ := h.called e he
    rw [first_step h.fresh hstep hadded]
    exact ⟨hle, TimerMgr.added_step h.fresh hs hadded⟩
  intro e he
  rcases TimerMgr.runs_cases h.fresh hs with ⟨hexecs, -⟩ | ⟨tmp, top, rfl, hpc, heq⟩
  · exact hold e (hexecs ▸ he)
  · have hadded := h.wf.added_of_held (by rw [hpc]; rfl)
    have hexecs : w'.mgr.execs = if (w.mgr.timers tmp).calls then
        w.mgr.execs ++ [⟨tmp, w.mgr.now, w.mgr.due tmp⟩] else w.mgr.execs := by
      rw [heq]
      rfl
    rw [hexecs] at he
    split at he
    case isTrue =>
      rcases List.mem_append.mp he with hbefore | hnew
      · exact hold e hbefore
      · obtain rfl := List.mem_singleton.mp hnew
        show w'.first tmp ≤ w.mgr.now ∧ _
        rw [first_step h.fresh hstep hadded]
        exact ⟨h.ready hpc, TimerMgr.added_step h.fresh hs hadded⟩
    case isFalse => exact hold e he

theorem executing_mgr {w w' : Recorded} {a : TimerMgr.Action} (h : Honoured w)
    (hstep : step w (.mgr a) = some w') (hs : TimerMgr.step w.mgr a = some w'.mgr) {tmp : Nat}
    (htmp : w'.mgr.pc.executing = some tmp) : w'.first tmp ≤ w'.mgr.now := by
  have hnow := TimerMgr.now_step h.fresh hs
  rcases TimerMgr.runs_cases h.fresh hs with ⟨-, hexecuting⟩ | ⟨tmp', top, rfl, hpc, heq⟩
  · have hold := hexecuting tmp htmp
    rw [first_step h.fresh hstep (h.wf.executing tmp hold)]
    exact (h.executing tmp hold).trans hnow
  · rw [heq] at htmp
    cases htmp
    rw [first_step h.fresh hstep (h.wf.added_of_held (by rw [hpc]; rfl))]
    exact (h.ready hpc).trans hnow

/-- A step keeps every call in time. Where `timer_run` reads the time left, the condition says that
the delay is still to come; the wait then ends no earlier than the timer may first run. -/
theorem honoured_step {w w' : Recorded} {a : Action} (h : Honoured w) (hG : ReadInTime w a)
    (hstep : step w a = some w') : Honoured w' := by
  cases a with
  | mgr a =>
    obtain ⟨s, hs, heq⟩ := Option.map_eq_some_iff.mp hstep
    obtain rfl : w'.mgr = s := heq ▸ rfl
    have hdue := dueBy_mgr h hG hs
    have hwf := TimerMgr.wf_step h.fresh h.wf hs
    refine ⟨TimerMgr.fresh_step h.fresh hs, hwf, ?_,
      earliest_step h hstep (TimerMgr.now_step h.fresh hs),
      fun tmp htmp => executing_mgr h hstep hs htmp, called_mgr h hstep hs⟩
    apply TimerMgr.dueBy_later hdue (le_refl _)
    intro tmp htmp
    exact first_step h.fresh hstep (TimerMgr.held_step h.fresh h.wf hs htmp).1
  | nearLeftTime =>
    obtain ⟨timers, heq, hquiet⟩ := mgr_nearLeftTime hstep
    have hpc : w'.mgr.pc = w.mgr.pc := heq ▸ rfl
    have hnow : w'.mgr.now = w.mgr.now := heq ▸ rfl
    have hfresh : Fresh w'.mgr := heq ▸ h.fresh
    refine ⟨hfresh, TimerMgr.wf_quiet h.wf hquiet, ?_, earliest_step h hstep hquiet.now, ?_, ?_⟩
    · rw [hpc, hnow]
      apply TimerMgr.dueBy_later h.dueBy (le_refl _)
      intro tmp htmp
      exact first_step h.fresh hstep (h.wf.added_of_held htmp)
    · intro tmp htmp
      rw [hpc] at htmp
      rw [first_step h.fresh hstep (h.wf.executing tmp htmp), hnow]
      exact h.executing tmp htmp
    · intro e he
      rw [hquiet.execs] at he
      obtain ⟨hle, hadded⟩ := h.called e he
      rw [first_step h.fresh hstep hadded]
      exact ⟨hle, (hquiet.added e.timer).mpr hadded⟩

/-! ## The reports -/

/-- A report is the deadline exactly if the delay has not been cleared before. -/
theorem reported_iff (w : Recorded) (i : Nat) :
    w.mgr.now + ((w.mgr.timers i).getLeftTime w.mgr.now).1 = w.deadline i ↔ w.Unread i := by
  show w.mgr.now + ((w.mgr.timers i).mLastTime - (w.mgr.now - (w.mgr.timers i).mStartTime)
      + seconds (w.mgr.timers i).mDelayTime)
    = (w.mgr.timers i).mStartTime + (w.mgr.timers i).mLastTime + seconds (w.begun i)
    ↔ (w.mgr.timers i).mDelayTime = w.begun i
  unfold seconds
  omega

/-- Every call of `getLeftTime` has reported the deadline. -/
def Agree (w : Recorded) : Prop := ∀ r ∈ w.reports, r.reported = r.deadline

theorem agree_read (w : Recorded) (i : Nat) : (w.read i).Agree ↔ w.Agree ∧ w.Unread i := by
  show (∀ r ∈ w.reports ++ [_], _) ↔ _
  rw [List.forall_mem_append, List.forall_mem_singleton]
  exact and_congr_right fun _ => reported_iff w i

theorem agree_step {w w' : Recorded} {a : Action} (hstep : step w a = some w') :
    w'.Agree ↔ w.Agree ∧ FirstCall w a := by
  cases a with
  | mgr a =>
    obtain ⟨s, hs, rfl⟩ := Option.map_eq_some_iff.mp hstep
    show (w.record a).Agree ↔ w.Agree ∧ FirstCall w (.mgr a)
    cases a with
    | sched =>
      simp only [record, TimerMgr.Action.timer, FirstCall]
      cases hpc : w.mgr.pc with
      | getLeftTime tmp => exact agree_read w tmp
      | _ => exact (and_iff_left trivial).symm
    | _ => exact (and_iff_left trivial).symm
  | nearLeftTime =>
    rcases nearLeftTime_cases hstep with ⟨hnone, rfl⟩ | ⟨top, htop, rfl⟩
    · simp only [FirstCall, hnone]
      simp
    · show (w.read top).Agree ↔ _
      rw [agree_read]
      simp only [FirstCall, htop]
      simp

/-- The calls of a run all report the deadline exactly if each is the first. -/
theorem agree_run {w w' : Recorded} {as : List Action} (hrun : run step w as = some w') :
    w'.Agree ↔ w.Agree ∧ Meets step FirstCall w as := by
  induction as generalizing w with
  | nil =>
    cases hrun
    simp
  | cons a as ih =>
    obtain ⟨w₁, hs, hrun'⟩ := run_cons.mp hrun
    rw [ih hrun', agree_step hs]
    constructor
    · rintro ⟨⟨hagree, hfirst⟩, hrest⟩
      exact ⟨hagree, meets_cons hfirst hs hrest⟩
    · rintro ⟨hagree, hfirst, hrest⟩
      exact ⟨⟨hagree, hfirst⟩, hrest w₁ hs⟩

/-! ## The runs -/

theorem honoured_of_run {now : Int} {as : List Action} {w : Recorded}
    (hG : Meets step ReadInTime (initial now) as) (hrun : run step (initial now) as = some w) :
    Honoured w :=
  invariant_of_meets Honoured (fun _ _ _ h hG hs => honoured_step h hG hs) (honoured_initial now)
    hG hrun

end Recorded

end PssClient
