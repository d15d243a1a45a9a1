import PssClient.Timer.Wakeup

/-!
# The schedule thread stops

`Close` clears `timer_run_`, and `timer_run` tests it after each of its waits. The schedule thread
sets it too, in the first statement of `schedule`, and it takes `mtx` and looks for an empty queue
before it tests the flag again.

* `Heeds` — the condition: `Close` comes after that first statement, and the thread, once told, does
  not find the queue empty.
* `Told` — the invariant from `Close` on. `Pc.stepsLeft` is how many steps the thread has still to
  go; none of them is a callback or a wait.
* `stops_when_told` — the result. `not_told` has a run for either half of the condition.
-/

namespace PssClient

open Machine

/-- The first statement of `schedule` has been executed. -/
def Pc.started : Pc → Bool
  | .schedule => false
  | _ => true

/-- The steps of the schedule thread until it leaves `schedule`, once it has been told. -/
def Pc.stepsLeft : Pc → Nat
  | .lock => 3
  | .testEmpty | .woken _ _ => 2
  | .loop | .testRun => 1
  | _ => 0

namespace TimerMgr

/-- `Close` is called when the schedule thread has begun, and when that tests the queue for
emptiness with `timer_run_` cleared, there is a timer in it. -/
def Heeds (s : TimerMgr) : Action → Prop
  | .close => s.pc.started = true
  | .sched =>
    match s.pc with
    | .testEmpty => s.timerRun = false → s.mTimers.isEmpty = false
    | _ => True
  | _ => True

instance (s : TimerMgr) (a : Action) : Decidable (Heeds s a) := by
  unfold Heeds
  split
  · infer_instance
  · split <;> infer_instance
  · infer_instance

/-- No wait begins. -/
def NoWait (s : TimerMgr) (a : Action) : Prop := a = .sched → s.pc.beginsWait = false

instance (s : TimerMgr) (a : Action) : Decidable (NoWait s a) :=
  inferInstanceAs (Decidable (a = .sched → s.pc.beginsWait = false))

end TimerMgr

/-- Where the schedule thread can be after `Close`. The wait that `Close` has ended is followed by
reading its mark. -/
def Pc.Told (s : TimerMgr) : Pc → Prop
  | .loop | .lock | .testEmpty | .testRun | .stopped => True
  | .woken _ _ => s.timerWakeupState = .addTimer
  | _ => False

namespace TimerMgr

structure Told (s : TimerMgr) : Prop where
  timerRun : s.timerRun = false
  place : s.pc.Told s

theorem Told.unblocked {s : TimerMgr} (h : Told s) : s.pc.blockedUntil = none := by
  have hplace := h.place
  cases hpc : s.pc with
  | blockedEmpty wakeAt =>
    rw [hpc] at hplace
    exact hplace.elim
  | blockedTop tmp wakeAt =>
    rw [hpc] at hplace
    exact hplace.elim
  | _ => rfl

theorem Told.beginsWait {s : TimerMgr} (h : Told s) : s.pc.beginsWait = false := by
  have hplace := h.place
  cases hpc : s.pc with
  | waitEmpty =>
    rw [hpc] at hplace
    exact hplace.elim
  | waitTop tmp timerWait =>
    rw [hpc] at hplace
    exact hplace.elim
  | _ => rfl

theorem Told.executing {s : TimerMgr} (h : Told s) : s.pc.executing = none := by
  have hplace := h.place
  cases hpc : s.pc with
  | running tmp called =>
    rw [hpc] at hplace
    exact hplace.elim
  | _ => rfl

/-- From `Close` on. -/
theorem told_close {s : TimerMgr} (hfree : s.pc.mtxFree = true) (hstarted : s.pc.started = true) :
    Told (close s) := by
  unfold close wake
  cases hpc : s.pc with
  | schedule =>
    rw [hpc] at hstarted
    cases hstarted
  | loop => exact ⟨rfl, trivial⟩
  | lock => exact ⟨rfl, trivial⟩
  | stopped => exact ⟨rfl, trivial⟩
  | blockedEmpty wakeAt => exact ⟨rfl, trivial⟩
  | blockedTop tmp wakeAt => exact ⟨rfl, rfl⟩
  | _ =>
    rw [hpc] at hfree
    cases hfree

/-- **A step of the schedule thread brings it nearer to the end.** The flag is cleared, and the
thread tests it at the next turn of its loop; that it does not wait before is the condition. -/
theorem told_sched {s s' : TimerMgr} (h : Told s) (hG : Heeds s .sched) (hs : sched s = some s') :
    Told s' ∧ s'.execs = s.execs ∧ s'.pc.stepsLeft < s.pc.stepsLeft := by
  have hplace := h.place
  have hflag := h.timerRun
  cases goes_of_sched hs with
  | again hpc hrun | run hpc hrun | runAgain tmp hpc hrun =>
    rw [hflag] at hrun
    cases hrun
  | leave hpc | leaveRun hpc =>
    rw [hpc]
    exact ⟨⟨hflag, trivial⟩, rfl, Nat.zero_lt_one⟩
  | lock hpc =>
    rw [hpc]
    exact ⟨⟨hflag, trivial⟩, rfl, Nat.lt_succ_self 2⟩
  -- the condition: there is a timer in the queue when the thread tests it
  | empty hpc hempty =>
    simp only [Heeds, hpc] at hG
    rw [hG hflag] at hempty
    cases hempty
  | nonempty hpc =>
    rw [hpc]
    exact ⟨⟨hflag, trivial⟩, rfl, Nat.lt_succ_self 1⟩
  | marked tmp status hpc =>
    rw [hpc]
    exact ⟨⟨hflag, trivial⟩, rfl, Nat.lt_succ_self 1⟩
  | unmarked tmp status hpc hmark =>
    rw [hpc] at hplace
    exact absurd hplace hmark
  -- the thread is past these places when it has been told
  | schedule hpc | waitEmpty hpc | stillEmpty hpc | filled hpc | readTop tmp hpc | left tmp hpc
  | expired tmp hpc | waitTop tmp timerWait hpc | leaveRunAgain tmp hpc | pop tmp top hpc
  | requeue tmp called hpc | finished tmp called hpc | overwrite hpc =>
    rw [hpc] at hplace
    exact hplace.elim

/-- What the others do leaves the schedule thread where it is, and the mark where it matters. -/
theorem told_of_same {s s' : TimerMgr} (h : Told s) (hrun : s'.timerRun = s.timerRun)
    (hpc : s'.pc = s.pc)
    (hmark : s'.timerWakeupState = s.timerWakeupState ∨ s'.timerWakeupState = .addTimer) :
    Told s' := by
  refine ⟨hrun.trans h.timerRun, ?_⟩
  have hplace := h.place
  rw [hpc]
  cases hpc' : s.pc with
  | woken tmp status =>
    rw [hpc'] at hplace
    have hold : s.timerWakeupState = .addTimer := hplace
    exact hmark.elim (fun hsame => hsame.trans hold) id
  | _ =>
    rw [hpc'] at hplace
    exact hplace

theorem told_step {s s' : TimerMgr} {a : Action} (h : Told s) (hG : Heeds s a)
    (hstep : step s a = some s') :
    Told s' ∧ s'.execs = s.execs ∧
      s'.pc.stepsLeft + (if a = .sched then 1 else 0) ≤ s.pc.stepsLeft := by
  have hexecuting := h.executing
  have hunblocked := h.unblocked
  cases does_of_step hstep with
  | addTimer | addTimerLoop | push | cancel | tick =>
    exact ⟨told_of_same h rfl rfl (.inl rfl), rfl, le_rfl⟩
  | mark i => exact ⟨told_of_same h rfl rfl (.inr rfl), rfl, le_rfl⟩
  | notify i =>
    rw [notify, wake_of_free (by exact hunblocked)]
    exact ⟨told_of_same h rfl rfl (.inl rfl), rfl, le_rfl⟩
  | close =>
    rw [close, wake_of_free (by exact hunblocked)]
    exact ⟨told_of_same h h.timerRun.symm rfl (.inr rfl), rfl, le_rfl⟩
  | callbackAddTimer timeout tmp hpc | callbackAddTimerLoop delayseconds timeout tmp hpc =>
    rw [hpc] at hexecuting
    cases hexecuting
  | sched hs =>
    obtain ⟨htold, hexecs, hlt⟩ := told_sched h hG hs
    exact ⟨htold, hexecs, hlt⟩
  | timeoutEmpty wakeAt hpc | timeoutTop tmp wakeAt hpc =>
    rw [hpc] at hunblocked
    cases hunblocked

/-- A whole run after `Close`. Induction on its actions. -/
theorem told_run {s t : TimerMgr} {bs : List Action} (h : Told s) (hG : Meets step Heeds s bs)
    (hrun : run step s bs = some t) :
    Told t ∧ t.execs = s.execs ∧ Meets step NoWait s bs ∧
      t.pc.stepsLeft + bs.count .sched ≤ s.pc.stepsLeft := by
  induction bs generalizing s with
  | nil =>
    cases hrun
    exact ⟨h, rfl, trivial, le_rfl⟩
  | cons b bs ih =>
    obtain ⟨s', hs, hrun'⟩ := run_cons.mp hrun
    obtain ⟨htold, hexecs, hle⟩ := told_step h hG.1 hs
    obtain ⟨hend, hexecs', hnowait, hle'⟩ := ih htold (hG.2 s' hs) hrun'
    refine ⟨hend, hexecs'.trans hexecs, meets_cons (fun _ => h.beginsWait) hs hnowait, ?_⟩
    rw [List.count_cons]
    have hsame : (if (b == Action.sched) = true then 1 else 0) = if b = .sched then 1 else 0 := by
      simp
    omega

/-- A thread that has been told is not stuck. -/
theorem Told.enabled {s : TimerMgr} (h : Told s) (hpc : s.pc ≠ .stopped) :
    (sched s).isSome = true := by
  have hplace := h.place
  unfold sched
  cases hpc' : s.pc with
  | loop => rfl
  | lock => rfl
  | testEmpty => rfl
  | testRun => rfl
  | woken tmp status => rfl
  | stopped => exact absurd hpc' hpc
  | _ =>
    rw [hpc'] at hplace
    exact hplace.elim

/-- **The schedule thread stops when told.** In every run in which `Close` comes after the first
statement of `schedule` and the queue is not found empty afterwards: once `Close` has returned, no
callback is called, no wait begins, and the thread leaves `schedule` after at most three steps of
its own, none of which it has to wait for. -/
theorem stops_when_told (now : Int) (as bs : List Action) (s t : TimerMgr)
    (hG : Meets step Heeds (initial now) (as ++ .close :: bs))
    (hclosed : run step (initial now) (as ++ [.close]) = some s)
    (hrun : run step s bs = some t) :
    t.execs = s.execs ∧ Meets step NoWait s bs ∧ bs.count .sched ≤ 3 ∧
      (t.pc ≠ .stopped → (sched t).isSome = true) := by
  obtain ⟨m, hm, hs⟩ := run_append.mp hclosed
  obtain ⟨s', hclose, hs'⟩ := run_cons.mp hs
  cases hs'
  obtain ⟨hheeds, hlater⟩ := meets_of_append hG hm
  obtain ⟨hfree, heq⟩ := Option.ite_none_right_eq_some.mp hclose
  have htold : Told s := Option.some.inj heq ▸ told_close hfree hheeds
  obtain ⟨hend, hexecs, hnowait, hle⟩ := told_run htold (hlater s hclose) hrun
  have hthree : s.pc.stepsLeft ≤ 3 := by
    unfold Pc.stepsLeft
    split <;> decide
  exact ⟨hexecs, hnowait, by omega, hend.enabled⟩

/-- `Close` during the wait for a timer. -/
def closedInWait : List Action :=
  [.addTimer 5, .push 0, .mark 0, .notify 0, .sched] ++ intoWait

theorem stops_when_told_closedInWait :
    ∃ s t, run step (initial 0) (closedInWait ++ [.close]) = some s ∧
      run step s [.sched, .sched] = some t ∧ t.pc = .stopped ∧ t.execs = s.execs := by
  have hstate : ∃ s t, run step (initial 0) (closedInWait ++ [.close]) = some s ∧
      run step s [.sched, .sched] = some t ∧ t.pc = .stopped := ⟨_, _, rfl, rfl, rfl⟩
  obtain ⟨s, t, hclosed, hrun, hpc⟩ := hstate
  exact ⟨s, t, hclosed, hrun, hpc,
    (stops_when_told 0 closedInWait [.sched, .sched] s t (by decide +kernel) hclosed hrun).1⟩

/-- `Close` comes before the first statement of `schedule`: the thread sets the flag again, and
calls a callback. Or it comes between the test of the loop and `mtx`, with an empty queue: the
thread begins a wait of 300 seconds. -/
theorem not_told :
    (∃ s t, run step (initial 0) [.addTimer 0, .push 0, .mark 0, .notify 0, .close] = some s ∧
      run step s (List.replicate 10 .sched) = some t ∧ s.execs = [] ∧
      t.execs.map (fun e => e.timer) = [0] ∧ ¬ t.execs = s.execs) ∧
    ∃ s t, run step (initial 0) [.sched, .sched, .close] = some s ∧
      run step s [.sched, .sched, .sched] = some t ∧ t.pc = .blockedEmpty (seconds 300) ∧
      ¬ Meets step NoWait s [.sched, .sched, .sched] := by
  have hfirst : ∃ s t, run step (initial 0)
      [.addTimer 0, .push 0, .mark 0, .notify 0, .close] = some s ∧
      run step s (List.replicate 10 .sched) = some t ∧ s.execs = [] ∧
      t.execs.map (fun e => e.timer) = [0] := ⟨_, _, rfl, rfl, rfl, rfl⟩
  obtain ⟨s, t, hclosed, hrun, hnone, hone⟩ := hfirst
  have hsecond : ∃ s t, run step (initial 0) [.sched, .sched, .close] = some s ∧
      run step s [.sched, .sched, .sched] = some t ∧ t.pc = .blockedEmpty (seconds 300) :=
    ⟨_, _, rfl, rfl, rfl⟩
  obtain ⟨s', t', hclosed', hrun', hblocked⟩ := hsecond
  refine ⟨⟨s, t, hclosed, hrun, hnone, hone, fun heq => ?_⟩,
    s', t', hclosed', hrun', hblocked, fun hnowait => ?_⟩
  · rw [heq, hnone] at hone
    cases hone
  · obtain rfl := Option.some.inj (hclosed'.symm.trans rfl)
    have hwait := ((hnowait.2 _ rfl).2 _ rfl).1 rfl
    cases hwait

end TimerMgr

end PssClient
