import PssClient.Timer.Queue

/-!
# No timer fires early

After the wait for a timer `timer_run` tells a timeout from a wake-up by `timer_wakeup_state`. A
producer sets that before it notifies, but the schedule thread overwrites it after each callback,
and a mark overwritten between the two is a wake-up taken for a timeout.

* `MarkSeen` — the condition: a wait that a notify has ended before the timer is due is followed
  by reading the mark.
* `DueBy` / `Spaced` — the invariants: how far the thread has come with a timer bounds when that is
  due, and what the callbacks that have been called say about the timers' start times.
* `never_early` — the result, and `firedEarly` a run in which the mark is overwritten.
-/

namespace PssClient

/-- The time by which the timer held is due. -/
def Pc.DueBy (due : Nat → Int) (now : Int) : Pc → Prop
  | .waitTop tmp timerWait => due tmp ≤ now + timerWait
  | .blockedTop tmp wakeAt => due tmp ≤ wakeAt
  | .woken tmp .timeout | .testRunAgain tmp | .pop tmp => due tmp ≤ now
  | _ => True

/-- The timer whose wait has been ended by a notify. -/
def Pc.wokenEarly : Pc → Option Nat
  | .woken tmp .noTimeout => some tmp
  | _ => none

theorem Pc.wokenEarly_eq {pc : Pc} {tmp : Nat} :
    pc.wokenEarly = some tmp ↔ pc = .woken tmp .noTimeout := by
  unfold wokenEarly
  split <;> simp_all

theorem Timer.delay_beforeCallback (t : Timer) : t.beforeCallback.mDelayTime = t.mDelayTime := by
  unfold Timer.beforeCallback
  split
  · split <;> rfl
  · rfl

namespace TimerMgr

open Machine

/-- When `timer_run` tests `timer_wakeup_state` after a notify has ended the wait for a timer that
is not due yet, it finds the mark of a producer. -/
def MarkSeen (s : TimerMgr) (a : Action) : Prop :=
  a = .sched → ∀ tmp, s.pc = .woken tmp .noTimeout → s.now < s.due tmp →
    s.timerWakeupState = .addTimer

/-- The begin delay of the timer that an action makes. -/
def Action.delayseconds : Action → Int
  | .addTimerLoop delayseconds _ | .callbackAddTimerLoop delayseconds _ => delayseconds
  | _ => 0

instance (s : TimerMgr) (a : Action) : Decidable (MarkSeen s a) :=
  decidable_of_iff (a = .sched → ∀ tmp ∈ s.pc.wokenEarly, s.now < s.due tmp →
    s.timerWakeupState = .addTimer) (by simp only [Option.mem_def, Pc.wokenEarly_eq, MarkSeen])

def DueBy (s : TimerMgr) : Prop := s.pc.DueBy s.due s.now

/-! ## When the timer held is due -/

def NoDelay (s : TimerMgr) : Prop := ∀ i, (s.timers i).mDelayTime = 0

theorem delay_update {timers : Nat → Timer} {t : Timer} {i j : Nat}
    (hj : (timers j).mDelayTime = 0) (ht : j = i → t.mDelayTime = 0) :
    (Function.update timers i t j).mDelayTime = 0 := by
  by_cases heq : j = i
  · subst heq
    rw [Function.update_self]
    exact ht rfl
  · rw [Function.update_of_ne heq]
    exact hj

theorem timers_wake (status : CvStatus) (s : TimerMgr) : (wake status s).timers = s.timers := by
  obtain ⟨pc, heq, -, -⟩ := wake_eq status s
  rw [heq]

theorem delay_sched {s s' : TimerMgr} (hs : sched s = some s') {i : Nat}
    (hi : (s.timers i).mDelayTime = 0) : (s'.timers i).mDelayTime = 0 := by
  have hfinish : ∀ tmp, ((finish tmp s).timers i).mDelayTime = 0 := by
    intro tmp
    apply delay_update hi
    intro heq
    subst heq
    unfold Timer.afterCallback
    split <;> exact hi
  cases goes_of_sched hs with
  | left tmp | expired tmp => exact delay_update hi fun _ => rfl
  | pop tmp top =>
    apply delay_update hi
    intro heq
    rw [Timer.delay_beforeCallback, ← heq, hi]
  | requeue tmp | finished tmp => exact hfinish tmp
  | _ => exact hi

/-- A delay that has been cleared stays so, until the number is that of a new timer. -/
theorem delay_step {s s' : TimerMgr} {a : Action} (hstep : step s a = some s') {i : Nat}
    (hi : (s.timers i).mDelayTime = 0)
    (hnew : ∀ t, a.timer s.now = some t → i = s.count → t.mDelayTime = 0) :
    (s'.timers i).mDelayTime = 0 := by
  have hadd : ∀ t, a.timer s.now = some t → ((addInCallback t s).timers i).mDelayTime = 0 := by
    intro t ha
    rw [addInCallback, notify, timers_wake]
    exact delay_update hi (hnew t ha)
  cases does_of_step hstep with
  | addTimer timeout | addTimerLoop delayseconds timeout => exact delay_update hi (hnew _ rfl)
  | callbackAddTimer timeout | callbackAddTimerLoop delayseconds timeout => exact hadd _ rfl
  | notify j =>
    rw [notify, timers_wake]
    exact hi
  | cancel j =>
    apply delay_update hi
    intro heq
    subst heq
    unfold Timer.cancel
    split <;> exact hi
  | close =>
    rw [close, timers_wake]
    exact hi
  | sched hs => exact delay_sched hs hi
  | push | mark | timeoutEmpty | timeoutTop | tick => exact hi

theorem Action.delay_timer {a : Action} {now : Int} {t : Timer} (h : a.timer now = some t) :
    t.mDelayTime = a.delayseconds := by
  cases a <;> cases h <;> rfl

theorem noDelay_step {s s' : TimerMgr} {a : Action} (h : NoDelay s) (hzero : a.delayseconds = 0)
    (hstep : step s a = some s') : NoDelay s' :=
  fun i => delay_step hstep (h i) fun _ ha _ => (Action.delay_timer ha).trans hzero

/-- Later, with the same timer held at the same place, it is due by then too. -/
theorem dueBy_later {pc : Pc} {due due' : Nat → Int} {now now' : Int} (h : pc.DueBy due now)
    (hnow : now ≤ now') (hdue : ∀ tmp, pc.held = some tmp → due' tmp = due tmp) :
    pc.DueBy due' now' := by
  cases pc with
  | waitTop tmp timerWait =>
    have hle : due tmp ≤ now + timerWait := h
    show due' tmp ≤ now' + timerWait
    rw [hdue tmp rfl]
    omega
  | blockedTop tmp wakeAt =>
    show due' tmp ≤ wakeAt
    rw [hdue tmp rfl]
    exact h
  | woken tmp status =>
    cases status with
    | noTimeout => trivial
    | timeout =>
      show due' tmp ≤ now'
      rw [hdue tmp rfl]
      exact le_trans h hnow
  | testRunAgain tmp =>
    show due' tmp ≤ now'
    rw [hdue tmp rfl]
    exact le_trans h hnow
  | pop tmp =>
    show due' tmp ≤ now'
    rw [hdue tmp rfl]
    exact le_trans h hnow
  | _ => trivial

/-- A notify ends a wait without a statement about the time. -/
theorem dueBy_notified {s : TimerMgr} {due : Nat → Int} (h : s.pc.DueBy due s.now) :
    (wake .noTimeout s).pc.DueBy due (wake .noTimeout s).now := by
  unfold wake
  split
  · trivial
  · trivial
  · exact h

/-- With a time for each timer that `getLeftTime` does not come before: the schedule thread gets
past its waits for a timer only when the mark of a producer has been seen or the time has come. -/
theorem dueBy_sched {s s' : TimerMgr} {due : Nat → Int} (h : s.pc.DueBy due s.now)
    (hleft : ∀ tmp, s.pc = .getLeftTime tmp →
      due tmp ≤ s.now + ((s.timers tmp).getLeftTime s.now).1 ∨ due tmp ≤ s.now)
    (hmark : ∀ tmp, s.pc = .woken tmp .noTimeout → s.now < due tmp →
      s.timerWakeupState = .addTimer)
    (hs : sched s = some s') : s'.pc.DueBy due s'.now := by
  cases goes_of_sched hs with
  | left tmp hpc hwait =>
    have hle := hleft tmp hpc
    show due tmp ≤ s.now + ((s.timers tmp).getLeftTime s.now).1
    omega
  | expired tmp hpc hwait =>
    have hle := hleft tmp hpc
    show due tmp ≤ s.now
    omega
  | waitTop tmp timerWait hpc =>
    rw [hpc] at h
    exact h
  | unmarked tmp status hpc hnone =>
    rw [hpc] at h
    cases status with
    | timeout => exact h
    | noTimeout =>
      -- without the mark the timer is due
      exact not_lt.mp fun hlt => hnone (hmark tmp hpc hlt)
  | runAgain tmp hpc =>
    rw [hpc] at h
    exact h
  | _ => trivial

/-- What the others do does not bring the schedule thread past a wait. -/
theorem dueBy_of_step {s s' : TimerMgr} {a : Action} {due : Nat → Int} (h : s.pc.DueBy due s.now)
    (hleft : a = .sched → ∀ tmp, s.pc = .getLeftTime tmp →
      due tmp ≤ s.now + ((s.timers tmp).getLeftTime s.now).1 ∨ due tmp ≤ s.now)
    (hmark : a = .sched → ∀ tmp, s.pc = .woken tmp .noTimeout → s.now < due tmp →
      s.timerWakeupState = .addTimer)
    (hstep : step s a = some s') : s'.pc.DueBy due s'.now := by
  have hadd : ∀ t tmp, s.pc = .running tmp true →
      (addInCallback t s).pc.DueBy due (addInCallback t s).now := by
    intro t tmp hpc
    apply dueBy_notified
    show s.pc.DueBy _ _
    rw [hpc]
    trivial
  cases does_of_step hstep with
  | callbackAddTimer timeout tmp hpc | callbackAddTimerLoop delayseconds timeout tmp hpc =>
    exact hadd _ tmp hpc
  | notify i =>
    exact dueBy_notified (s := { s with
      notified := i :: s.notified
      producer := Function.update s.producer i .notified }) h
  | close =>
    exact dueBy_notified (s := { s with timerRun := false, timerWakeupState := .addTimer }) h
  | sched hs => exact dueBy_sched h (hleft rfl) (hmark rfl) hs
  | timeoutTop tmp wakeAt hpc hpassed =>
    rw [hpc] at h
    exact le_trans h hpassed
  | timeoutEmpty => trivial
  | tick d => exact dueBy_later h (Int.le_add_of_nonneg_right (Int.natCast_nonneg d)) fun _ _ => rfl
  | addTimer | addTimerLoop | push | mark | cancel => exact h

/-- What `getLeftTime` returns for a timer without a delay. -/
theorem getLeftTime_eq {s : TimerMgr} (hdelay : NoDelay s) (tmp : Nat) :
    ((s.timers tmp).getLeftTime s.now).1 = s.due tmp - s.now := by
  show (s.timers tmp).mLastTime - (s.now - (s.timers tmp).mStartTime)
    + seconds (s.timers tmp).mDelayTime
    = (s.timers tmp).mStartTime + (s.timers tmp).mLastTime - s.now
  rw [hdelay tmp]
  unfold seconds
  omega

/-- The timer held has been added before, and keeps its times. -/
theorem held_step {s s' : TimerMgr} {a : Action} (hfresh : Fresh s) (hwf : Wf s)
    (hstep : step s a = some s') {tmp : Nat} (htmp : s'.pc.held = some tmp) :
    (s.producer tmp).Added ∧ s'.due tmp = s.due tmp := by
  rcases step_cases hfresh hstep with hquiet | ⟨i, -, rfl⟩ | ⟨tmp', t, hpc, rfl⟩ |
    ⟨top, -, htop, rfl⟩ | ⟨tmp', top, -, -, -, rfl⟩ | ⟨tmp', called, -, rfl⟩
  · rcases hquiet.held with hnone | hsame
    · rw [hnone] at htmp
      cases htmp
    · have hadded := hwf.added_of_held (hsame ▸ htmp)
      exact ⟨hadded, (hquiet.timers tmp hadded).due⟩
  · exact ⟨hwf.added_of_held htmp, rfl⟩
  · -- no timer is held during a callback
    have hmarked := producer_mark (push s.count (construct t s)) s.count
    rw [addInCallback] at htmp
    rcases (quiet_notify hmarked).held with hnone | hsame
    · rw [hnone] at htmp
      cases htmp
    · have hbad : s.pc.held = some tmp := hsame ▸ htmp
      rw [hpc] at hbad
      cases hbad
  · cases htmp
    exact ⟨hwf.queued _ (Array.mem_of_getElem? htop), rfl⟩
  · cases htmp
  · unfold runningStep at htmp
    split at htmp <;> cases htmp

theorem dueBy_step {s s' : TimerMgr} {a : Action} (hfresh : Fresh s) (hwf : Wf s) (h : DueBy s)
    (hdelay : NoDelay s) (hG : MarkSeen s a) (hstep : step s a = some s') : DueBy s' := by
  have hdue := dueBy_of_step h (fun _ tmp _ => .inl (by rw [getLeftTime_eq hdelay]; omega)) hG hstep
  exact dueBy_later hdue (le_refl _) fun tmp htmp => (held_step hfresh hwf hstep htmp).2

/-! ## The calls of callbacks -/

/-- What is known of the calls made so far. A loop timer has started anew after each of them,
unless it is in the callback. -/
structure Spaced (s : TimerMgr) : Prop extends Wf s where
  called : ∀ e ∈ s.execs, e.due ≤ e.time ∧ e.time ≤ s.now ∧ (s.producer e.timer).Added
  started : ∀ e ∈ s.execs, (s.timers e.timer).mTimerType = .loop →
    s.pc.executing ≠ some e.timer → e.time ≤ (s.timers e.timer).mStartTime
  apart : s.execs.Pairwise fun e e' => e'.timer = e.timer →
    (s.timers e.timer).mTimerType = .loop →
    e.time + (s.timers e.timer).mLastTime ≤ e'.time

theorem spaced_initial (now : Int) : Spaced (initial now) where
  toWf := wf_initial now
  called := fun _ he => absurd he List.not_mem_nil
  started := fun _ he => absurd he List.not_mem_nil
  apart := .nil

theorem spaced_quiet {s s' : TimerMgr} (h : Spaced s) (hq : Quiet s s') : Spaced s' := by
  have halike : ∀ e ∈ s.execs, (s.timers e.timer).Alike (s'.timers e.timer) :=
    fun e he => hq.timers e.timer (h.called e he).2.2
  refine { wf_quiet h.toWf hq with called := ?_, started := ?_, apart := ?_ }
  · intro e he
    rw [hq.execs] at he
    obtain ⟨hdue, htime, hadded⟩ := h.called e he
    exact ⟨hdue, htime.trans hq.now, (hq.added _).mpr hadded⟩
  · intro e he htype hexec
    rw [hq.execs] at he
    rw [(halike e he).mTimerType] at htype
    rw [hq.executing] at hexec
    rw [(halike e he).mStartTime]
    exact h.started e he htype hexec
  · rw [hq.execs]
    refine h.apart.imp_of_mem fun he _ hapart htimer htype => ?_
    rw [(halike _ he).mTimerType] at htype
    rw [(halike _ he).mLastTime]
    exact hapart htimer htype

theorem spaced_push {s : TimerMgr} (h : Spaced s) (i : Nat) : Spaced (push i s) := by
  refine { wf_push h.toWf i with called := ?_, started := h.started, apart := h.apart }
  intro e he
  obtain ⟨hdue, htime, hadded⟩ := h.called e he
  exact ⟨hdue, htime, (added_push s i _).mpr (.inr hadded)⟩

theorem spaced_look {s : TimerMgr} {tmp : Nat} (h : Spaced s) (hpc : s.pc = .readTop)
    (htop : s.mTimers[0]? = some tmp) :
    Spaced { s with pc := .getLeftTime tmp, notified := [] } where
  toWf := wf_look h.toWf htop
  called := h.called
  started := fun e he htype _ => h.started e he htype (by rw [hpc]; exact nofun)
  apart := h.apart

/-- The timer about to be executed is due. -/
def Expired (s : TimerMgr) (_ : Action) : Prop := ∀ tmp, s.pc = .pop tmp → s.due tmp ≤ s.now

/-- An execution begins. The timer is due; and since a loop timer has begun anew after its last
call, the two calls are at least its interval apart. -/
theorem spaced_pop {s : TimerMgr} {tmp top : Nat} (h : Spaced s) (hG : Expired s .sched)
    (hpc : s.pc = .pop tmp) (htop : s.mTimers[0]? = some top) : Spaced (popStep tmp top s) := by
  have hwf := wf_pop h.toWf hpc htop
  have hadded : (s.producer tmp).Added := h.added_of_held (by rw [hpc]; rfl)
  have hdue : s.due tmp ≤ s.now := hG tmp hpc
  have halike := alike_update (Timer.alike_beforeCallback (s.timers tmp))
  have hnone : ∀ i, s.pc.executing ≠ some i := by
    intro i
    rw [hpc]
    exact nofun
  by_cases hcalls : (s.timers tmp).calls = true
  · have hexecs : (popStep tmp top s).execs = s.execs ++ [⟨tmp, s.now, s.due tmp⟩] := if_pos hcalls
    refine { hwf with called := ?_, started := ?_, apart := ?_ }
    · intro e he
      rw [hexecs] at he
      rcases List.mem_append.mp he with hold | hnew
      · exact h.called e hold
      · obtain rfl := List.mem_singleton.mp hnew
        exact ⟨hdue, le_refl _, hadded⟩
    · intro e he htype hexec
      rw [hexecs] at he
      rcases List.mem_append.mp he with hold | hnew
      · show e.time ≤ (Function.update s.timers tmp _ e.timer).mStartTime
        rw [(halike e.timer).mStartTime]
        exact h.started e hold ((halike e.timer).mTimerType.symm.trans htype) (hnone _)
      · obtain rfl := List.mem_singleton.mp hnew
        exact absurd rfl hexec
    · rw [hexecs]
      refine List.pairwise_append.mpr ⟨?_, List.pairwise_singleton _ _, ?_⟩
      · refine h.apart.imp fun hapart htimer htype => ?_
        show _ + (Function.update s.timers tmp _ _).mLastTime ≤ _
        rw [(halike _).mLastTime]
        exact hapart htimer ((halike _).mTimerType.symm.trans htype)
      · intro e he e' he' htimer htype
        obtain rfl := List.mem_singleton.mp he'
        obtain rfl : tmp = e.timer := htimer
        show e.time + (Function.update s.timers e.timer _ e.timer).mLastTime ≤ s.now
        rw [(halike e.timer).mLastTime]
        -- the start time of the timer is not before its earlier calls
        have hstart := h.started e he ((halike e.timer).mTimerType.symm.trans htype) (hnone _)
        have hexpired : (s.timers e.timer).mStartTime + (s.timers e.timer).mLastTime ≤ s.now := hdue
        omega
  · have hexecs : (popStep tmp top s).execs = s.execs := if_neg hcalls
    refine { hwf with called := ?_, started := ?_, apart := ?_ }
    · rw [hexecs]
      exact h.called
    · intro e he htype _
      rw [hexecs] at he
      show e.time ≤ (Function.update s.timers tmp _ e.timer).mStartTime
      rw [(halike e.timer).mStartTime]
      exact h.started e he ((halike e.timer).mTimerType.symm.trans htype) (hnone _)
    · rw [hexecs]
      refine h.apart.imp fun hapart htimer htype => ?_
      show _ + (Function.update s.timers tmp _ _).mLastTime ≤ _
      rw [(halike _).mLastTime]
      exact hapart htimer ((halike _).mTimerType.symm.trans htype)

theorem spaced_finish {s : TimerMgr} {tmp : Nat} (h : Spaced s)
    (hexec : s.pc.executing = some tmp) : Spaced (finish tmp s) := by
  have htimer := finish_timer tmp s
  refine { wf_finish h.toWf tmp with called := h.called, started := ?_, apart := ?_ }
  · intro e he htype _
    rw [(htimer e.timer).1] at htype
    show e.time ≤ (Function.update s.timers tmp _ e.timer).mStartTime
    by_cases heq : e.timer = tmp
    · rw [heq] at htype ⊢
      rw [Function.update_self, Timer.afterCallback, htype]
      exact (h.called e he).2.1
    · rw [Function.update_of_ne heq]
      apply h.started e he htype
      rw [hexec]
      exact fun hsome => heq (Option.some.inj hsome).symm
  · refine h.apart.imp fun hapart htimer' htype => ?_
    rw [(htimer _).1] at htype
    rw [(htimer _).2.1]
    exact hapart htimer' htype

theorem spaced_running {s : TimerMgr} {tmp : Nat} {called : Bool} (h : Spaced s)
    (hpc : s.pc = .running tmp called) : Spaced (runningStep tmp s) := by
  have hexec : s.pc.executing = some tmp := by
    rw [hpc]
    rfl
  have hfinish := spaced_finish h hexec
  have hwf := wf_running h.toWf hpc
  revert hwf
  unfold runningStep
  split
  · exact fun hwf => { hwf with
      called := hfinish.called, started := hfinish.started, apart := hfinish.apart }
  · exact fun _ => hfinish

/-! ## The result -/

/-- The invariant of the runs in which nothing fires early: no timer has a begin delay, the schedule
thread gets past its wait only when the timer that it holds is due, and the calls made so far were
in time. -/
structure OnTime (s : TimerMgr) : Prop where
  fresh : Fresh s
  delay : NoDelay s
  dueBy : DueBy s
  spaced : Spaced s

theorem onTime_initial (now : Int) : OnTime (initial now) where
  fresh := fun _ _ => rfl
  delay := fun _ => rfl
  dueBy := trivial
  spaced := spaced_initial now

theorem onTime_step {s s' : TimerMgr} {a : Action} (h : OnTime s)
    (hG : a.delayseconds = 0 ∧ MarkSeen s a) (hstep : step s a = some s') : OnTime s' where
  fresh := fresh_step h.fresh hstep
  delay := noDelay_step h.delay hG.1 hstep
  dueBy := dueBy_step h.fresh h.spaced.toWf h.dueBy h.delay hG.2 hstep
  spaced := by
    have hexpired : Expired s a := by
      intro tmp hpc
      have hdue := h.dueBy
      rw [DueBy, hpc] at hdue
      exact hdue
    exact invariant_step (G := Expired) (fun _ _ => spaced_quiet) (fun _ i h _ => spaced_push h i)
      (fun _ _ => spaced_look) (fun _ _ _ => spaced_pop) (fun _ _ _ => spaced_running)
      h.fresh h.spaced hexpired hstep

/-- **No timer fires early.** For timers without a begin delay, in every run in which the mark of
a producer whose notify ends a wait too early is seen: each callback is called at its timer's start
time plus timeout or later, and two calls of the callback of a loop timer are at least its interval
apart. -/
theorem never_early (now : Int) (as : List Action) (s : TimerMgr)
    (hzero : ∀ a ∈ as, a.delayseconds = 0) (hG : Meets step MarkSeen (initial now) as)
    (hrun : run step (initial now) as = some s) :
    (∀ e ∈ s.execs, e.due ≤ e.time) ∧
      s.execs.Pairwise fun e e' => e'.timer = e.timer →
        (s.timers e.timer).mTimerType = .loop →
        e.time + (s.timers e.timer).mLastTime ≤ e'.time := by
  have h : OnTime s := invariant_of_meets OnTime (fun _ _ _ h hG hs => onTime_step h hG hs)
    (onTime_initial now) ((meets_of_forall hzero _).and hG) hrun
  exact ⟨fun e he => (h.spaced.called e he).1, h.spaced.apart⟩

/-- The schedule thread from the loop of `schedule` into the wait for the top. -/
def intoWait : List Action := List.replicate 8 .sched

/-- A loop timer of three nanoseconds is executed twice; a second timer is added during the wait
for it, and its notify ends the wait. -/
def twoRounds : List Action :=
  [.addTimerLoop 0 3, .push 0, .mark 0, .notify 0, .sched] ++ intoWait
    ++ [.addTimer 5, .push 1, .mark 1, .notify 1, .sched] ++ intoWait
    ++ [.tick 3, .waitTimeout] ++ List.replicate 12 .sched
    ++ intoWait ++ [.tick 2, .waitTimeout] ++ List.replicate 5 .sched
    ++ intoWait ++ [.tick 1, .waitTimeout] ++ List.replicate 5 .sched

theorem never_early_twoRounds :
    ∃ s, run step (initial 0) twoRounds = some s ∧
      s.execs.map (fun e => (e.timer, e.time, e.due)) = [(0, 3, 3), (1, 5, 5), (0, 6, 6)] ∧
      (∀ e ∈ s.execs, e.due ≤ e.time) := by
  have hstate : ∃ s, run step (initial 0) twoRounds = some s ∧
      s.execs.map (fun e => (e.timer, e.time, e.due)) = [(0, 3, 3), (1, 5, 5), (0, 6, 6)] :=
    ⟨_, rfl, rfl⟩
  obtain ⟨s, hrun, hexecs⟩ := hstate
  exact ⟨s, hrun, hexecs, (never_early 0 twoRounds s (by decide) (by decide +kernel) hrun).1⟩

/-- The first timer is due at once. While it is executed the second one, of ten nanoseconds, is
added; its mark is overwritten before its notify, which ends the wait for it. -/
def firedEarly : List Action :=
  [.addTimer 0, .push 0, .mark 0, .notify 0, .sched] ++ intoWait ++ [.sched, .sched]
    ++ [.addTimer 10, .push 1, .mark 1, .sched] ++ intoWait
    ++ [.notify 1, .sched, .sched, .sched]

theorem firedEarly_exec :
    ∃ s, run step (initial 0) firedEarly = some s ∧
      s.execs.map (fun e => (e.timer, e.time, e.due)) = [(0, 0, 0), (1, 0, 10)] :=
  ⟨_, rfl, rfl⟩

end TimerMgr

end PssClient
