import PssClient.Timer.Wakeup

/-!
# Timers one operation at a time

When no timer is pushed while `timer_run` is between its look at the queue and its wait, or goes on
to an execution, the timer that the schedule thread holds is the one on top.

* `deadline` — when a timer becomes due, with its begin delay.
* `OneAtATime` — timers are added and executed one operation at a time.
* `InTurn` — the invariant of such runs: the schedule thread holds the timer on top.
-/

namespace PssClient

open Machine

instance (p : Producer) : Decidable p.InFlight := by
  unfold Producer.InFlight
  split <;> infer_instance

/-- When the time left of a timer is over. -/
def Timer.deadline (t : Timer) : Int := t.due + seconds t.mDelayTime

namespace TimerMgr

def deadline (s : TimerMgr) (i : Nat) : Int := (s.timers i).deadline

theorem getLeftTime_deadline (s : TimerMgr) (i : Nat) :
    ((s.timers i).getLeftTime s.now).1 = s.deadline i - s.now := by
  show (s.timers i).mLastTime - (s.now - (s.timers i).mStartTime)
    + seconds (s.timers i).mDelayTime
    = (s.timers i).mStartTime + (s.timers i).mLastTime + seconds (s.timers i).mDelayTime - s.now
  omega

/-- A timer is pushed only while the schedule thread is in a wait or between two calls of
`timer_run`, and that goes on only when no call that adds a timer is on its way. -/
def OneAtATime (s : TimerMgr) : Action → Prop
  | .push _ => s.pc.mtxFree = true
  | .sched | .waitTimeout => ∀ i < s.count, ¬ (s.producer i).InFlight
  | _ => True

instance (s : TimerMgr) (a : Action) : Decidable (OneAtATime s a) := by
  unfold OneAtATime
  split <;> infer_instance

/-! ## The timer held is on top -/

end TimerMgr

/-- What the place of the schedule thread says about the timer that it holds. -/
def Pc.OnTop (s : TimerMgr) : Pc → Prop
  | .getLeftTime tmp | .waitTop tmp _ | .woken tmp .timeout | .testRunAgain tmp | .pop tmp =>
    s.mTimers[0]? = some tmp
  | .blockedTop tmp _ => s.mTimers[0]? = some tmp ∨ s.Pending
  | .woken tmp .noTimeout => s.mTimers[0]? = some tmp ∨ s.timerWakeupState = .addTimer
  | _ => True

namespace TimerMgr

/-- The invariant of the runs that take one operation at a time. The queue is in order, and the
timer that the schedule thread holds is on top of it: an earlier one can only have been pushed while
the thread waits, and then a notify is to come, or the mark is set that sends it back to look again.
-/
structure InTurn (s : TimerMgr) : Prop extends Ordered s where
  fresh : Fresh s
  onTop : s.pc.OnTop s
  marked : ∀ i, s.producer i = .marked → s.timerWakeupState = .addTimer

theorem inTurn_initial (now : Int) : InTurn (initial now) where
  toOrdered := ordered_initial now
  fresh := fun _ _ => rfl
  onTop := trivial
  marked := fun _ h => by cases h

/-- A timer is executed when it is on top. -/
theorem InTurn.loopInOrder {s : TimerMgr} (h : InTurn s) (a : Action) : LoopInOrder s a := by
  rintro - tmp hpc - i hi
  have htop := h.onTop
  rw [hpc] at htop
  exact BinaryHeap.top_le h.heap htop hi

/-- With no call on its way, none is in flight. -/
theorem InTurn.not_pending {s : TimerMgr} (h : InTurn s)
    (hnone : ∀ i < s.count, ¬ (s.producer i).InFlight) : ¬ s.Pending := by
  rintro ⟨i, hi⟩
  rcases Nat.lt_or_ge i s.count with hlt | hge
  · exact hnone i hlt hi
  · rw [h.fresh i hge] at hi
    exact hi

/-- The schedule thread stays where it is, and the queue stays. -/
theorem onTop_stay {s s' : TimerMgr} (h : s.pc.OnTop s) (hpc : s'.pc = s.pc)
    (hqueue : s'.mTimers = s.mTimers)
    (hpending : s.pc.blockedUntil ≠ none → s.Pending → s'.Pending)
    (hmark : s.timerWakeupState = .addTimer → s'.timerWakeupState = .addTimer) :
    s'.pc.OnTop s' := by
  have htop : ∀ tmp, s.mTimers[0]? = some tmp → s'.mTimers[0]? = some tmp :=
    fun tmp h => hqueue ▸ h
  rw [hpc]
  cases hplace : s.pc with
  | blockedTop tmp wakeAt =>
    rw [hplace] at h
    exact h.imp (htop tmp) (hpending (by rw [hplace]; exact nofun))
  | woken tmp status =>
    rw [hplace] at h
    cases status with
    | noTimeout => exact h.imp (htop tmp) hmark
    | timeout => exact htop tmp h
  | getLeftTime tmp | waitTop tmp timerWait | testRunAgain tmp | pop tmp =>
    rw [hplace] at h
    exact htop tmp h
  | _ => trivial

/-- A timer is pushed out of `timer_run`, and is then to be notified. -/
theorem onTop_push {s : TimerMgr} (i : Nat) (hfree : s.pc.mtxFree = true) :
    (push i s).pc.OnTop (push i s) := by
  show s.pc.OnTop (push i s)
  cases hpc : s.pc with
  | blockedTop tmp wakeAt =>
    refine .inr ⟨i, ?_⟩
    rw [producer_push]
    trivial
  | schedule | loop | lock | blockedEmpty | stopped => trivial
  | _ =>
    rw [hpc] at hfree
    cases hfree

/-- A wait is ended by a notify, and the mark is there. -/
theorem onTop_wake {s s' : TimerMgr} (h : s.pc.OnTop s) (hpc : s'.pc = s.pc)
    (hqueue : s'.mTimers = s.mTimers) (hmark : s'.timerWakeupState = .addTimer) :
    (wake .noTimeout s').pc.OnTop (wake .noTimeout s') := by
  by_cases hfree : s'.pc.blockedUntil = none
  · rw [wake_of_free hfree]
    exact onTop_stay h hpc hqueue (fun hblocked => absurd (hpc ▸ hfree) hblocked) fun _ => hmark
  · unfold wake
    split
    case h_1 => trivial
    case h_2 => exact .inr hmark
    case h_3 hempty htop =>
      refine absurd ?_ hfree
      cases hplace : s'.pc with
      | blockedEmpty wakeAt => exact absurd hplace (hempty wakeAt)
      | blockedTop tmp wakeAt => exact absurd hplace (htop tmp wakeAt)
      | _ => rfl

theorem onTop_sched {s s' : TimerMgr} (h : InTurn s) (hs : sched s = some s') :
    s'.pc.OnTop s' := by
  have htop := h.onTop
  cases goes_of_sched hs with
  | readTop tmp hpc hread => exact hread
  | left tmp hpc | expired tmp hpc | runAgain tmp hpc =>
    rw [hpc] at htop
    exact htop
  | waitTop tmp timerWait hpc =>
    rw [hpc] at htop
    exact .inl htop
  | unmarked tmp status hpc hmark =>
    rw [hpc] at htop
    cases status with
    | timeout => exact htop
    | noTimeout => exact htop.resolve_right hmark
  | _ => trivial

/-- The schedule thread leaves the producers alone. -/
theorem sched_producer {s s' : TimerMgr} (hs : sched s = some s') : s'.producer = s.producer := by
  cases goes_of_sched hs <;> rfl

/-- A producer that goes on is not one of those that have marked. -/
theorem marked_update {P : Prop} {producer : Nat → Producer} (h : ∀ i, producer i = .marked → P)
    {i : Nat} {p : Producer} (hp : p ≠ .marked) (j : Nat)
    (hj : Function.update producer i p j = .marked) : P := by
  by_cases heq : j = i
  · subst heq
    rw [Function.update_self] at hj
    exact absurd hj hp
  · rw [Function.update_of_ne heq] at hj
    exact h j hj

/-- A step of a run that takes one operation at a time. While the schedule thread holds a timer and
does not wait, nobody pushes, so that the top stays what it is. -/
theorem inTurn_step {s s' : TimerMgr} {a : Action} (h : InTurn s) (hG : OneAtATime s a)
    (hstep : step s a = some s') : InTurn s' := by
  have hord := ordered_step h.fresh h.toOrdered (h.loopInOrder a) hstep
  have hfresh := fresh_step h.fresh hstep
  have hadd : ∀ t tmp, s.pc = .running tmp true → Ordered (addInCallback t s) →
      Fresh (addInCallback t s) → InTurn (addInCallback t s) := by
    intro t tmp hpc hord hfresh
    have hfree : (mark s.count (push s.count (construct t s))).pc.blockedUntil = none := by
      show s.pc.blockedUntil = none
      rw [hpc]
      rfl
    refine { hord with fresh := hfresh, onTop := ?_, marked := ?_ }
    · rw [addInCallback, notify, wake_of_free (by exact hfree)]
      show s.pc.OnTop _
      rw [hpc]
      trivial
    · intro i _
      rw [addInCallback, notify, wake_of_free (by exact hfree)]
      rfl
  cases does_of_step hstep with
  | addTimer timeout | addTimerLoop delayseconds timeout =>
    exact { hord with
      fresh := hfresh
      onTop := onTop_stay h.onTop rfl rfl (announces_construct h.fresh h.toWf _).pending id
      marked := marked_update h.marked (by decide) }
  | push i =>
    exact { hord with
      fresh := hfresh
      onTop := onTop_push i hG
      marked := marked_update h.marked (by decide) }
  | mark i =>
    exact { hord with
      fresh := hfresh
      onTop := onTop_stay h.onTop rfl rfl (announces_mark s i).pending fun _ => rfl
      marked := fun _ _ => rfl }
  | notify i hi =>
    refine { hord with
      fresh := hfresh
      onTop := onTop_wake h.onTop rfl rfl (h.marked i hi)
      marked := fun j hj => ?_ }
    obtain ⟨pc, heq, -, -⟩ := wake_eq .noTimeout { s with
      notified := i :: s.notified
      producer := Function.update s.producer i .notified }
    rw [notify, heq] at hj ⊢
    exact marked_update h.marked (by decide) j hj
  | callbackAddTimer timeout tmp hpc | callbackAddTimerLoop delayseconds timeout tmp hpc =>
    exact hadd _ tmp hpc hord hfresh
  | cancel i =>
    exact { hord with
      fresh := hfresh
      onTop := onTop_stay h.onTop rfl rfl (fun _ => id) id
      marked := h.marked }
  | close =>
    refine { hord with
      fresh := hfresh
      onTop := onTop_wake h.onTop rfl rfl rfl
      marked := fun j _ => ?_ }
    obtain ⟨pc, heq, -, -⟩ :=
      wake_eq .noTimeout { s with timerRun := false, timerWakeupState := .addTimer }
    rw [close, heq]
  | sched hs =>
    refine { hord with fresh := hfresh, onTop := onTop_sched h hs, marked := fun i hi => ?_ }
    rw [sched_producer hs] at hi
    exact absurd ⟨i, by rw [hi]; trivial⟩ (h.not_pending hG)
  | timeoutEmpty wakeAt hpc =>
    exact { hord with fresh := hfresh, onTop := trivial, marked := h.marked }
  | timeoutTop tmp wakeAt hpc =>
    -- a wait that ends by itself has not missed a timer
    have htop := h.onTop
    rw [hpc] at htop
    exact { hord with
      fresh := hfresh
      onTop := htop.resolve_right (h.not_pending hG)
      marked := h.marked }
  | tick d =>
    exact { hord with
      fresh := hfresh
      onTop := onTop_stay h.onTop rfl rfl (fun _ => id) id
      marked := h.marked }

/-- When timers are added and executed one operation at a time, the schedule thread holds the
timer on top. -/
theorem inTurn_of_run {now : Int} {as : List Action} {s : TimerMgr}
    (hone : Meets step OneAtATime (initial now) as) (hrun : run step (initial now) as = some s) :
    InTurn s :=
  invariant_of_meets InTurn (fun _ _ _ h hG hs => inTurn_step h hG hs) (inTurn_initial now) hone
    hrun

end TimerMgr

end PssClient
