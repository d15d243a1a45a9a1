import PssClient.Timer.Early
import PssClient.Timer.Int64

/-!
# No wake-up is lost

The schedule thread looks at the queue and then waits, and a notify in between reaches nobody. The
wait is in time all the same if the timers notified in between are not due before its end.

* `WakesInTime` — what is claimed of a wait: it ends before anything in the queue is due, or a
  notify is still to come.
* `NothingMissed` — the condition at the beginning of a wait.
* `Covered` — the invariant: between the look and the wait, every timer in the queue is after the
  one looked at, about to be notified, or one of those notified in between.
* `no_lost_wakeup` — the result, for runs in which no 64-bit count overflows, and `missed` a run
  with a notify between the test for emptiness and the wait of 300 seconds.
-/

namespace PssClient

open Machine

/-- The end of the wait that the schedule thread is in. -/
def Pc.blockedUntil : Pc → Option Int
  | .blockedEmpty wakeAt => some wakeAt
  | .blockedTop _ wakeAt => some wakeAt
  | _ => none

/-- The schedule thread is about to begin a wait. -/
def Pc.beginsWait : Pc → Bool
  | .waitEmpty | .waitTop _ _ => true
  | _ => false

namespace TimerMgr

/-- A producer has pushed its timer and not notified yet. -/
def Pending (s : TimerMgr) : Prop := ∃ i, (s.producer i).InFlight

/-- A wait ends no later than the first timer in the queue is due, or a notify is still to
come. -/
def WakesInTime (s : TimerMgr) : Prop :=
  ∀ wakeAt, s.pc.blockedUntil = some wakeAt → (∀ i ∈ s.mTimers, wakeAt ≤ s.due i) ∨ Pending s

/-- The timers that have been notified since the schedule thread looked at the queue are not due
before a time. -/
def NotifiedFrom (s : TimerMgr) (time : Int) : Prop :=
  ∀ i ∈ s.notified, i ∈ s.mTimers → time ≤ s.due i

/-- When a wait begins, a notify is still to come, or no timer notified since the schedule thread
looked at the queue is due before its end and the clock has not gone on since `getLeftTime` read
it. -/
structure NothingMissed (s : TimerMgr) (a : Action) : Prop where
  order : LoopInOrder s a
  empty : a = .sched → s.pc = .waitEmpty →
    Pending s ∨ NotifiedFrom s (s.now + seconds timerDefaultWait)
  top : a = .sched → ∀ tmp timerWait, s.pc = .waitTop tmp timerWait →
    Pending s ∨ s.now = s.leftTimeAt ∧ NotifiedFrom s (s.now + timerWait)

/-! ## Between the look and the wait -/

/-- A timer in the queue that the schedule thread need not know of. -/
def Announced (s : TimerMgr) (i : Nat) : Prop := (s.producer i).InFlight ∨ i ∈ s.notified

end TimerMgr

/-- What the place of the schedule thread says about the queue. -/
def Pc.Covered (s : TimerMgr) : Pc → Prop
  | .waitEmpty => ∀ i ∈ s.mTimers, s.Announced i
  | .getLeftTime tmp => ∀ i ∈ s.mTimers, s.due tmp ≤ s.due i ∨ s.Announced i
  | .waitTop tmp timerWait =>
    (∀ i ∈ s.mTimers, s.due tmp ≤ s.due i ∨ s.Announced i) ∧ s.leftTimeAt + timerWait = s.due tmp
  | .blockedEmpty wakeAt => (∀ i ∈ s.mTimers, wakeAt ≤ s.due i) ∨ s.Pending
  | .blockedTop _ wakeAt => (∀ i ∈ s.mTimers, wakeAt ≤ s.due i) ∨ s.Pending
  | _ => True

namespace TimerMgr

def Covered (s : TimerMgr) : Prop := s.pc.Covered s

/-- A step that leaves the schedule thread where it is: the queue gets only timers that are about
to be notified, and its others stay announced. -/
structure Announces (s s' : TimerMgr) : Prop where
  queue : ∀ i ∈ s'.mTimers, i ∈ s.mTimers ∧ s'.due i = s.due i ∧ (s.Announced i → s'.Announced i) ∨
    (s'.producer i).InFlight
  held : ∀ tmp, s.pc.held = some tmp → s'.due tmp = s.due tmp
  leftTimeAt : s'.leftTimeAt = s.leftTimeAt
  pending : s.pc.blockedUntil ≠ none → s.Pending → s'.Pending

/-- **What is announced stays covered.** A producer adds a timer and announces it, or does something
else to one that has been announced; for each place of the schedule thread, a timer that it has not
looked at is announced to it, or due no earlier than what it is going to wait for. -/
theorem covered_of_announces {s s' : TimerMgr} {pc : Pc} (hpc : s.pc = pc) (h : pc.Covered s)
    (hs : Announces s s') : pc.Covered s' := by
  -- the thread has looked at the top, and not yet computed how long to wait
  have hafter : ∀ tmp, pc.held = some tmp →
      (∀ i ∈ s.mTimers, s.due tmp ≤ s.due i ∨ s.Announced i) →
      ∀ i ∈ s'.mTimers, s'.due tmp ≤ s'.due i ∨ s'.Announced i := by
    intro tmp htmp hall i hi
    rcases hs.queue i hi with ⟨hold, hdue, hannounced⟩ | hnew
    · rw [hdue, hs.held tmp (hpc ▸ htmp)]
      exact (hall i hold).imp_right hannounced
    · exact .inr (.inl hnew)
  -- the thread waits until a time, and is woken if something is pending
  have hblocked : ∀ wakeAt, pc.blockedUntil = some wakeAt →
      (∀ i ∈ s.mTimers, wakeAt ≤ s.due i) ∨ s.Pending →
      (∀ i ∈ s'.mTimers, wakeAt ≤ s'.due i) ∨ s'.Pending := by
    intro wakeAt hwait hcase
    by_cases hpending : s'.Pending
    · exact .inr hpending
    refine .inl fun i hi => ?_
    rcases hcase with hall | hold
    · rcases hs.queue i hi with ⟨hmem, hdue, -⟩ | hnew
      · rw [hdue]
        exact hall i hmem
      · exact absurd ⟨i, hnew⟩ hpending
    · exact absurd (hs.pending (by rw [hpc, hwait]; exact nofun) hold) hpending
  -- the places of the thread, from the test of the queue to the wait
  cases pc with
  | waitEmpty =>
    intro i hi
    rcases hs.queue i hi with ⟨hold, -, hannounced⟩ | hnew
    · exact hannounced (h i hold)
    · exact .inl hnew
  | getLeftTime tmp => exact hafter tmp rfl h
  | waitTop tmp timerWait =>
    refine ⟨hafter tmp rfl h.1, ?_⟩
    rw [hs.leftTimeAt, hs.held tmp (by rw [hpc]; rfl)]
    exact h.2
  | blockedEmpty wakeAt => exact hblocked wakeAt rfl h
  | blockedTop tmp wakeAt => exact hblocked wakeAt rfl h
  | _ => trivial

theorem covered_stay {s s' : TimerMgr} (h : Covered s) (hpc : s'.pc = s.pc)
    (hs : Announces s s') : Covered s' := by
  unfold Covered
  rw [hpc]
  exact covered_of_announces rfl h hs

theorem wake_of_free {s : TimerMgr} (h : s.pc.blockedUntil = none) (status : CvStatus) :
    wake status s = s := by
  unfold wake
  split
  case h_1 hpc =>
    rw [hpc] at h
    cases h
  case h_2 hpc =>
    rw [hpc] at h
    cases h
  case h_3 => rfl

/-- The end of a wait. -/
theorem covered_wake {s s' : TimerMgr} (status : CvStatus) (h : Covered s) (hpc : s'.pc = s.pc)
    (hs : s.pc.blockedUntil = none → Announces s s') : Covered (wake status s') := by
  by_cases hfree : s.pc.blockedUntil = none
  · rw [wake_of_free (by rw [hpc]; exact hfree)]
    exact covered_stay h hpc (hs hfree)
  · unfold wake
    rw [hpc]
    revert hfree
    cases s.pc with
    | blockedEmpty wakeAt => exact fun _ => trivial
    | blockedTop tmp wakeAt => exact fun _ => trivial
    | _ => exact fun hfree => absurd rfl hfree

/-- A step of the schedule thread. When it looks at the queue, everything in it is after the top;
when a wait begins, the condition covers what was notified since the look; and when the wait is over
nothing is claimed. -/
theorem covered_sched {s s' : TimerMgr} (hord : Ordered s) (hdelay : NoDelay s) (h : Covered s)
    (hG : NothingMissed s .sched) (hs : sched s = some s') : Covered s' := by
  unfold Covered at h
  -- the end of a wait with nothing missed
  have hbegin : ∀ wakeAt,
      s.Pending ∨ (∀ i ∈ s.mTimers, ¬ (s.producer i).InFlight → wakeAt ≤ s.due i) →
      (∀ i ∈ s.mTimers, wakeAt ≤ s.due i) ∨ s.Pending := by
    intro wakeAt hcase
    by_cases hpending : s.Pending
    · exact .inr hpending
    · refine .inl fun i hi => ?_
      exact hcase.resolve_left hpending i hi fun hflight => hpending ⟨i, hflight⟩
  cases goes_of_sched hs with
  | empty hpc hempty =>
    intro i hi
    have hnil : s.mTimers = #[] := Array.isEmpty_iff.mp hempty
    have hmem : i ∈ s.mTimers := hi
    rw [hnil] at hmem
    exact absurd hmem (Array.not_mem_empty i)
  | waitEmpty hpc =>
    rw [hpc] at h
    refine hbegin _ ((hG.empty rfl hpc).imp_right fun hnotified i hi hflight => ?_)
    exact hnotified i ((h i hi).resolve_left hflight) hi
  | readTop tmp hpc htop => exact fun i hi => .inl (BinaryHeap.top_le hord.heap htop hi)
  | left tmp hpc hleft =>
    rw [hpc] at h
    have hdue : ∀ i, (Function.update s.timers tmp ((s.timers tmp).getLeftTime s.now).2 i).due
        = s.due i := fun i => (alike_update (Timer.alike_getLeftTime s.now _) i).due
    refine ⟨fun i hi => ?_, ?_⟩
    · show (Function.update s.timers tmp _ tmp).due ≤ (Function.update s.timers tmp _ i).due ∨ _
      rw [hdue, hdue]
      exact h i hi
    · show s.now + _ = (Function.update s.timers tmp _ tmp).due
      rw [hdue, getLeftTime_eq hdelay]
      omega
  | waitTop tmp timerWait hpc =>
    rw [hpc] at h
    refine hbegin _ ((hG.top rfl tmp timerWait hpc).imp_right fun hnotified i hi hflight => ?_)
    rcases h.1 i hi with hafter | hin | hmem
    · -- the wait ends when the timer looked at is due
      rw [hnotified.1, h.2]
      exact hafter
    · exact absurd hin hflight
    · exact hnotified.2 i hmem hi
  | _ => trivial

theorem announces_construct {s : TimerMgr} (hfresh : Fresh s) (hwf : Wf s) (t : Timer) :
    Announces s (construct t s) := by
  have hq := quiet_construct hfresh t
  have hflight : ∀ i, (s.producer i).InFlight → ((construct t s).producer i).InFlight := by
    intro i hi
    have hne : i ≠ s.count := by
      rintro rfl
      rw [hfresh s.count (Nat.le_refl _)] at hi
      exact hi
    show (Function.update s.producer s.count _ i).InFlight
    rwa [Function.update_of_ne hne]
  exact ⟨fun i hi => .inl ⟨hi, (hq.timers i (hwf.queued i hi)).due, Or.imp_left (hflight i)⟩,
    fun tmp htmp => (hq.timers tmp (hwf.added_of_held htmp)).due, rfl,
    fun _ ⟨i, hi⟩ => ⟨i, hflight i hi⟩⟩

/-- A producer goes on that still has to notify afterwards. -/
theorem inFlight_update {producer : Nat → Producer} {i : Nat} {p : Producer} (hp : p.InFlight)
    {j : Nat} (h : (producer j).InFlight) : (Function.update producer i p j).InFlight := by
  by_cases hj : j = i
  · subst hj
    rwa [Function.update_self]
  · rwa [Function.update_of_ne hj]

theorem announces_push (s : TimerMgr) (i : Nat) : Announces s (push i s) where
  queue := by
    intro j hj
    rcases BinaryHeap.mem_push.mp hj with rfl | hold
    · right
      show (Function.update s.producer j .pushed j).InFlight
      rw [Function.update_self]
      trivial
    · exact .inl ⟨hold, rfl, Or.imp_left (inFlight_update (p := .pushed) trivial)⟩
  held := fun _ _ => rfl
  leftTimeAt := rfl
  pending := fun _ ⟨j, hj⟩ => ⟨j, inFlight_update (p := .pushed) trivial hj⟩

theorem announces_mark (s : TimerMgr) (i : Nat) : Announces s (mark i s) where
  queue := fun _ hj => .inl ⟨hj, rfl, Or.imp_left (inFlight_update (p := .marked) trivial)⟩
  held := fun _ _ => rfl
  leftTimeAt := rfl
  pending := fun _ ⟨j, hj⟩ => ⟨j, inFlight_update (p := .marked) trivial hj⟩

/-- The timer notified is one of the notified ones from then on. -/
theorem announces_notified {s : TimerMgr} (i : Nat) (hfree : s.pc.blockedUntil = none) :
    Announces s { s with
      notified := i :: s.notified
      producer := Function.update s.producer i .notified } where
  queue := by
    refine fun j hj => .inl ⟨hj, rfl, fun hannounced => ?_⟩
    by_cases hji : j = i
    · subst hji
      exact .inr List.mem_cons_self
    · refine hannounced.imp ?_ (List.mem_cons_of_mem i)
      show _ → (Function.update s.producer i .notified j).InFlight
      rw [Function.update_of_ne hji]
      exact id
  held := fun _ _ => rfl
  leftTimeAt := rfl
  pending := fun hblocked => absurd hfree hblocked

/-- **Every timer stays covered.** A producer announces what it pushes, so that the thread has been
told of it or will be; the thread's own steps are where one may be missed, which the condition
excludes. -/
theorem covered_step {s s' : TimerMgr} {a : Action} (hfresh : Fresh s) (hord : Ordered s)
    (hdelay : NoDelay s) (h : Covered s) (hG : NothingMissed s a) (hstep : step s a = some s') :
    Covered s' := by
  -- a callback adds a timer while the thread waits for nothing
  have hadd : ∀ t tmp, s.pc = .running tmp true → Covered (addInCallback t s) := by
    intro t tmp hpc
    have hfree : (mark s.count (push s.count (construct t s))).pc.blockedUntil = none := by
      show s.pc.blockedUntil = none
      rw [hpc]
      rfl
    rw [addInCallback, notify, wake_of_free (by exact hfree)]
    show s.pc.Covered _
    rw [hpc]
    trivial
  cases does_of_step hstep with
  | addTimer timeout | addTimerLoop delayseconds timeout =>
    exact covered_stay h rfl (announces_construct hfresh hord.toWf _)
  | push i => exact covered_stay h rfl (announces_push s i)
  | mark i => exact covered_stay h rfl (announces_mark s i)
  | notify i => exact covered_wake .noTimeout h rfl (announces_notified i)
  | callbackAddTimer timeout tmp hpc | callbackAddTimerLoop delayseconds timeout tmp hpc =>
    exact hadd _ tmp hpc
  | cancel i =>
    have hdue : ∀ j, (Function.update s.timers i (s.timers i).cancel j).due = (s.timers j).due :=
      fun j => (alike_update (Timer.alike_cancel (s.timers i)) j).due
    exact covered_stay h rfl
      ⟨fun j hj => .inl ⟨hj, hdue j, id⟩, fun j _ => hdue j, rfl, fun _ => id⟩
  | close =>
    exact covered_wake .noTimeout h rfl fun _ =>
      ⟨fun _ hi => .inl ⟨hi, rfl, id⟩, fun _ _ => rfl, rfl, fun _ h => h⟩
  | sched hs => exact covered_sched hord hdelay h hG hs
  | timeoutEmpty | timeoutTop => trivial
  | tick d =>
    exact covered_stay h rfl ⟨fun _ hi => .inl ⟨hi, rfl, id⟩, fun _ _ => rfl, rfl, fun _ h => h⟩

/-! ## The result -/

/-- The invariant of the runs without a missed wake-up. The part that carries it is `Covered`: a
thread that waits, or is about to, either is covered by the end of its wait or has a notify to come.
-/
structure Watched (s : TimerMgr) : Prop where
  fresh : Fresh s
  delay : NoDelay s
  ordered : Ordered s
  covered : Covered s

theorem watched_initial (now : Int) : Watched (initial now) where
  fresh := fun _ _ => rfl
  delay := fun _ => rfl
  ordered := ordered_initial now
  covered := trivial

theorem watched_step {s s' : TimerMgr} {a : Action} (h : Watched s)
    (hG : a.delayseconds = 0 ∧ NothingMissed s a) (hstep : step s a = some s') : Watched s' where
  fresh := fresh_step h.fresh hstep
  delay := noDelay_step h.delay hG.1 hstep
  ordered := ordered_step h.fresh h.ordered hG.2.order hstep
  covered := covered_step h.fresh h.ordered h.delay h.covered hG.2 hstep

/-- **No wake-up is lost.** For timers without a begin delay, in every run in which each wait
begins without having missed a notify that matters and no 64-bit count overflows: whenever the
schedule thread is in a wait, the wait ends no later than the first timer in the queue is due, or a
producer has still to notify. -/
theorem no_lost_wakeup (now : Int) (as : List Action) (s : TimerMgr)
    (hzero : ∀ a ∈ as, a.delayseconds = 0)
    (hG : Meets step64 (fun s a => NothingMissed s a ∧ InRange s a) (initial now) as)
    (hrun : run step64 (initial now) as = some s) : WakesInTime s := by
  obtain ⟨hmissed, hrun⟩ := run64 hG hrun
  have h : Watched s := invariant_of_meets Watched (fun _ _ _ h hG hs => watched_step h hG hs)
    (watched_initial now) ((meets_of_forall hzero _).and hmissed) hrun
  have hcovered := h.covered
  unfold Covered at hcovered
  intro wakeAt hwait
  cases hpc : s.pc with
  | blockedEmpty wakeAt' =>
    rw [hpc] at hwait hcovered
    cases hwait
    exact hcovered
  | blockedTop tmp wakeAt' =>
    rw [hpc] at hwait hcovered
    cases hwait
    exact hcovered
  | _ =>
    rw [hpc] at hwait
    cases hwait

/-- Every wait begins with nothing notified since the look, at the time of the look. -/
def Undisturbed (s : TimerMgr) (a : Action) : Prop :=
  LoopInOrder s a ∧ (a = .sched → s.pc.beginsWait = true → s.notified = [] ∧ s.now = s.leftTimeAt)

instance (s : TimerMgr) (a : Action) : Decidable (Undisturbed s a) :=
  inferInstanceAs (Decidable (_ ∧ _))

theorem Undisturbed.nothingMissed {s : TimerMgr} {a : Action} (h : Undisturbed s a) :
    NothingMissed s a where
  order := h.1
  empty := by
    intro ha hpc
    obtain ⟨hnone, -⟩ := h.2 ha (by rw [hpc]; rfl)
    refine .inr fun i hi => ?_
    rw [hnone] at hi
    cases hi
  top := by
    intro ha tmp timerWait hpc
    obtain ⟨hnone, hnow⟩ := h.2 ha (by rw [hpc]; rfl)
    refine .inr ⟨hnow, fun i hi => ?_⟩
    rw [hnone] at hi
    cases hi

/-- The thread waits for the first of two timers; a third one, due earlier, has been pushed. -/
def newcomer : List Action :=
  [.addTimer 5, .push 0, .mark 0, .notify 0, .addTimer 7, .push 1, .mark 1, .notify 1, .sched]
    ++ intoWait ++ [.addTimer 2, .push 2]

theorem no_lost_wakeup_newcomer :
    ∃ s, run step64 (initial 0) newcomer = some s ∧ s.pc.blockedUntil = some 5 ∧
      ((∀ i ∈ s.mTimers, 5 ≤ s.due i) ∨ Pending s) := by
  have hmeets : Meets step64 (fun s a => Undisturbed s a ∧ InRange s a) (initial 0) newcomer := by
    decide +kernel
  have hstate : ∃ s, run step64 (initial 0) newcomer = some s ∧ s.pc.blockedUntil = some 5 :=
    ⟨_, rfl, rfl⟩
  obtain ⟨s, hrun, hwait⟩ := hstate
  exact ⟨s, hrun, hwait, no_lost_wakeup 0 newcomer s (by decide)
    (hmeets.mono fun _ _ h => ⟨h.1.nothingMissed, h.2⟩) hrun 5 hwait⟩

/-- A timer of one second is added between the test for emptiness and the wait. -/
def missed : List Action :=
  [.sched, .sched, .sched, .sched, .addTimer (seconds 1), .push 0, .mark 0, .notify 0, .sched]

theorem missed_wakeup :
    ∃ s, run step64 (initial 0) missed = some s ∧ s.pc = .blockedEmpty (seconds 300) ∧
      s.mTimers = #[0] ∧ s.due 0 = seconds 1 ∧ ¬ WakesInTime s := by
  have hstate : ∃ s, run step64 (initial 0) missed = some s ∧
      s.pc = .blockedEmpty (seconds 300) ∧ s.mTimers = #[0] ∧ s.due 0 = seconds 1 ∧
      s.producer = Function.update (Function.update (Function.update (Function.update
        (fun _ => .absent) 0 .constructed) 0 .pushed) 0 .marked) 0 .notified :=
    ⟨_, rfl, rfl, rfl, rfl, rfl⟩
  obtain ⟨s, hrun, hpc, hqueue, hdue, hproducer⟩ := hstate
  refine ⟨s, hrun, hpc, hqueue, hdue, fun hwakes => ?_⟩
  rcases hwakes (seconds 300) (by rw [hpc]; rfl) with hall | ⟨i, hi⟩
  · have hle := hall 0 (by rw [hqueue]; exact Array.mem_singleton.mpr rfl)
    rw [hdue] at hle
    exact absurd hle (by decide)
  · rw [hproducer] at hi
    by_cases hzero : i = 0
    · subst hzero
      exact hi
    · simp only [Function.update_of_ne hzero] at hi
      exact hi

end TimerMgr

end PssClient
