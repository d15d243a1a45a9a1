import PssClient.Timer.Manager

/-!
# What a step can do

The rules that `step` follows, one for each branch of the schedule thread and one for each action,
with the condition under which it is taken. The invariants are proved by cases on these.

* `Goes` / `goes_of_sched` — the schedule thread.
* `Does` / `does_of_step` — any action.
-/

namespace PssClient

namespace TimerMgr

/-- What the schedule thread does from each of its places. -/
inductive Goes (s : TimerMgr) : TimerMgr → Prop
  | schedule (hpc : s.pc = .schedule) : Goes s { s with timerRun := true, pc := .loop }
  | again (hpc : s.pc = .loop) (hrun : s.timerRun = true) : Goes s { s with pc := .lock }
  | leave (hpc : s.pc = .loop) (hrun : s.timerRun = false) : Goes s { s with pc := .stopped }
  | lock (hpc : s.pc = .lock) : Goes s { s with pc := .testEmpty }
  | empty (hpc : s.pc = .testEmpty) (hempty : s.mTimers.isEmpty = true) :
    Goes s { s with pc := .waitEmpty, notified := [] }
  | nonempty (hpc : s.pc = .testEmpty) (hempty : s.mTimers.isEmpty = false) :
    Goes s { s with pc := .testRun, notified := [] }
  | waitEmpty (hpc : s.pc = .waitEmpty) :
    Goes s { s with pc := .blockedEmpty (s.now + seconds timerDefaultWait) }
  | run (hpc : s.pc = .testRun) (hrun : s.timerRun = true) :
    Goes s { s with pc := .testEmptyAgain }
  | leaveRun (hpc : s.pc = .testRun) (hrun : s.timerRun = false) : Goes s { s with pc := .stopped }
  | stillEmpty (hpc : s.pc = .testEmptyAgain) (hempty : s.mTimers.isEmpty = true) :
    Goes s { s with pc := .loop }
  | filled (hpc : s.pc = .testEmptyAgain) (hempty : s.mTimers.isEmpty = false) :
    Goes s { s with pc := .readTop }
  | readTop (tmp : Nat) (hpc : s.pc = .readTop) (htop : s.mTimers[0]? = some tmp) :
    Goes s { s with pc := .getLeftTime tmp, notified := [] }
  | left (tmp : Nat) (hpc : s.pc = .getLeftTime tmp)
      (hleft : 0 < ((s.timers tmp).getLeftTime s.now).1) :
    Goes s { s with
      timers := Function.update s.timers tmp ((s.timers tmp).getLeftTime s.now).2
      leftTimeAt := s.now
      pc := .waitTop tmp ((s.timers tmp).getLeftTime s.now).1 }
  | expired (tmp : Nat) (hpc : s.pc = .getLeftTime tmp)
      (hleft : ((s.timers tmp).getLeftTime s.now).1 ≤ 0) :
    Goes s { s with
      timers := Function.update s.timers tmp ((s.timers tmp).getLeftTime s.now).2
      leftTimeAt := s.now
      pc := .testRunAgain tmp }
  | waitTop (tmp : Nat) (timerWait : Int) (hpc : s.pc = .waitTop tmp timerWait) :
    Goes s { s with pc := .blockedTop tmp (s.now + timerWait) }
  | marked (tmp : Nat) (status : CvStatus) (hpc : s.pc = .woken tmp status)
      (hmark : s.timerWakeupState = .addTimer) : Goes s { s with pc := .loop }
  | unmarked (tmp : Nat) (status : CvStatus) (hpc : s.pc = .woken tmp status)
      (hmark : s.timerWakeupState ≠ .addTimer) : Goes s { s with pc := .testRunAgain tmp }
  | runAgain (tmp : Nat) (hpc : s.pc = .testRunAgain tmp) (hrun : s.timerRun = true) :
    Goes s { s with pc := .pop tmp }
  | leaveRunAgain (tmp : Nat) (hpc : s.pc = .testRunAgain tmp) (hrun : s.timerRun = false) :
    Goes s { s with pc := .stopped }
  | pop (tmp top : Nat) (hpc : s.pc = .pop tmp) (htop : s.mTimers[0]? = some top) :
    Goes s (popStep tmp top s)
  | requeue (tmp : Nat) (called : Bool) (hpc : s.pc = .running tmp called)
      (hloop : (s.timers tmp).mTimerType = .loop ∧ (s.timers tmp).mCallback = true) :
    Goes s { finish tmp s with mTimers := BinaryHeap.push (finish tmp s).due s.mTimers tmp }
  | finished (tmp : Nat) (called : Bool) (hpc : s.pc = .running tmp called)
      (hnone : ¬ ((s.timers tmp).mTimerType = .loop ∧ (s.timers tmp).mCallback = true)) :
    Goes s (finish tmp s)
  | overwrite (hpc : s.pc = .overwrite) :
    Goes s { s with timerWakeupState := .executeTimer, pc := .loop }

/-- The inversion of `sched`, one rule for each branch of the schedule thread at each of its places.
-/
theorem goes_of_sched {s s' : TimerMgr} (h : sched s = some s') : Goes s s' := by
  unfold sched at h
  split at h
  case h_1 hpc => exact Option.some.inj h ▸ .schedule hpc
  case h_2 hpc =>
    cases h
    split
    case isTrue hrun => exact .again hpc hrun
    case isFalse hrun => exact .leave hpc (Bool.eq_false_iff.mpr hrun)
  case h_3 hpc => exact Option.some.inj h ▸ .lock hpc
  case h_4 hpc =>
    cases h
    split
    case isTrue hempty => exact .empty hpc hempty
    case isFalse hempty => exact .nonempty hpc (Bool.eq_false_iff.mpr hempty)
  case h_5 hpc => exact Option.some.inj h ▸ .waitEmpty hpc
  case h_6 => cases h
  case h_7 hpc =>
    cases h
    split
    case isTrue hrun => exact .run hpc hrun
    case isFalse hrun => exact .leaveRun hpc (Bool.eq_false_iff.mpr hrun)
  case h_8 hpc =>
    cases h
    split
    case isTrue hempty => exact .stillEmpty hpc hempty
    case isFalse hempty => exact .filled hpc (Bool.eq_false_iff.mpr hempty)
  case h_9 hpc =>
    obtain ⟨tmp, htop, rfl⟩ := Option.map_eq_some_iff.mp h
    exact .readTop tmp hpc htop
  case h_10 tmp hpc =>
    cases h
    split
    case isTrue hleft => exact .left tmp hpc hleft
    case isFalse hleft => exact .expired tmp hpc (not_lt.mp hleft)
  case h_11 tmp timerWait hpc => exact Option.some.inj h ▸ .waitTop tmp timerWait hpc
  case h_12 => cases h
  case h_13 tmp status hpc =>
    cases h
    split
    case isTrue hmark => exact .marked tmp status hpc hmark
    case isFalse hmark => exact .unmarked tmp status hpc hmark
  case h_14 tmp hpc =>
    cases h
    split
    case isTrue hrun => exact .runAgain tmp hpc hrun
    case isFalse hrun => exact .leaveRunAgain tmp hpc (Bool.eq_false_iff.mpr hrun)
  case h_15 tmp hpc =>
    obtain ⟨top, htop, rfl⟩ := Option.map_eq_some_iff.mp h
    exact .pop tmp top hpc htop
  case h_16 tmp called hpc =>
    cases h
    unfold runningStep
    split
    case isTrue hloop => exact .requeue tmp called hpc hloop
    case isFalse hnone => exact .finished tmp called hpc hnone
  case h_17 hpc => exact Option.some.inj h ▸ .overwrite hpc
  case h_18 => cases h

/-- What an action does, and when it can be taken. -/
inductive Does (s : TimerMgr) : Action → TimerMgr → Prop
  | addTimer (timeout : Int) :
    Does s (.addTimer timeout) (construct (onceTimer timeout s.now) s)
  | addTimerLoop (delayseconds timeout : Int) :
    Does s (.addTimerLoop delayseconds timeout) (construct (loopTimer delayseconds timeout s.now) s)
  | push (i : Nat) (hi : s.producer i = .constructed) (hidle : s.pc.executing = none) :
    Does s (.push i) (push i s)
  | mark (i : Nat) (hi : s.producer i = .pushed) : Does s (.mark i) (mark i s)
  | notify (i : Nat) (hi : s.producer i = .marked) : Does s (.notify i) (notify i s)
  | callbackAddTimer (timeout : Int) (tmp : Nat) (hpc : s.pc = .running tmp true) :
    Does s (.callbackAddTimer timeout) (addInCallback (onceTimer timeout s.now) s)
  | callbackAddTimerLoop (delayseconds timeout : Int) (tmp : Nat) (hpc : s.pc = .running tmp true) :
    Does s (.callbackAddTimerLoop delayseconds timeout)
      (addInCallback (loopTimer delayseconds timeout s.now) s)
  | cancel (i : Nat) (hi : i < s.count) :
    Does s (.cancel i) { s with timers := Function.update s.timers i (s.timers i).cancel }
  | close (hfree : s.pc.mtxFree = true) : Does s .close (close s)
  | sched {s' : TimerMgr} (hs : sched s = some s') : Does s .sched s'
  | timeoutEmpty (wakeAt : Int) (hpc : s.pc = .blockedEmpty wakeAt) (hpassed : wakeAt ≤ s.now) :
    Does s .waitTimeout { s with pc := .testRun }
  | timeoutTop (tmp : Nat) (wakeAt : Int) (hpc : s.pc = .blockedTop tmp wakeAt)
      (hpassed : wakeAt ≤ s.now) : Does s .waitTimeout { s with pc := .woken tmp .timeout }
  | tick (d : Nat) : Does s (.tick d) { s with now := s.now + d }

/-- The inversion of `step`. The steps of the schedule thread are put as `Goes`. -/
theorem does_of_step {s s' : TimerMgr} {a : Action} (h : step s a = some s') : Does s a s' := by
  have hadd : ∀ t, callbackAdd t s = some s' →
      (∃ tmp, s.pc = .running tmp true) ∧ addInCallback t s = s' := by
    intro t hcall
    unfold callbackAdd at hcall
    split at hcall
    case h_1 tmp hpc => exact ⟨⟨tmp, hpc⟩, Option.some.inj hcall⟩
    case h_2 => cases hcall
  cases a with
  | addTimer timeout => exact Option.some.inj h ▸ .addTimer timeout
  | addTimerLoop delayseconds timeout =>
    exact Option.some.inj h ▸ .addTimerLoop delayseconds timeout
  | push i =>
    obtain ⟨⟨hi, hidle⟩, heq⟩ := Option.ite_none_right_eq_some.mp h
    exact Option.some.inj heq ▸ .push i hi hidle
  | mark i =>
    obtain ⟨hi, heq⟩ := Option.ite_none_right_eq_some.mp h
    exact Option.some.inj heq ▸ .mark i hi
  | notify i =>
    obtain ⟨hi, heq⟩ := Option.ite_none_right_eq_some.mp h
    exact Option.some.inj heq ▸ .notify i hi
  | callbackAddTimer timeout =>
    obtain ⟨⟨tmp, hpc⟩, rfl⟩ := hadd _ h
    exact .callbackAddTimer timeout tmp hpc
  | callbackAddTimerLoop delayseconds timeout =>
    obtain ⟨⟨tmp, hpc⟩, rfl⟩ := hadd _ h
    exact .callbackAddTimerLoop delayseconds timeout tmp hpc
  | cancel i =>
    obtain ⟨hi, heq⟩ := Option.ite_none_right_eq_some.mp h
    exact Option.some.inj heq ▸ .cancel i hi
  | close =>
    obtain ⟨hfree, heq⟩ := Option.ite_none_right_eq_some.mp h
    exact Option.some.inj heq ▸ .close hfree
  | sched => exact .sched h
  | waitTimeout =>
    have hwait : waitTimeout s = some s' := h
    unfold waitTimeout at hwait
    split at hwait
    case h_1 wakeAt hpc =>
      obtain ⟨hpassed, heq⟩ := Option.ite_none_right_eq_some.mp hwait
      have hwake : wake .timeout s = { s with pc := .testRun } := by rw [wake, hpc]
      exact Option.some.inj (hwake ▸ heq) ▸ .timeoutEmpty wakeAt hpc hpassed
    case h_2 tmp wakeAt hpc =>
      obtain ⟨hpassed, heq⟩ := Option.ite_none_right_eq_some.mp hwait
      have hwake : wake .timeout s = { s with pc := .woken tmp .timeout } := by rw [wake, hpc]
      exact Option.some.inj (hwake ▸ heq) ▸ .timeoutTop tmp wakeAt hpc hpassed
    case h_3 => cases hwait
  | tick d => exact Option.some.inj h ▸ .tick d

end TimerMgr

end PssClient
