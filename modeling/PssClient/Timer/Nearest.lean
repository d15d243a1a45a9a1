import PssClient.Timer.Int64
import PssClient.Timer.Order

/-!
# Which timer is on top

`CompareTimer` orders the queue by start time and interval. `getLeftTime`, which `timer_run` waits
for, counts the begin delay too, as long as it has not been cleared. The timer on top is the one
with the least time left as long as the two orders agree on every timer that comes into the queue.

* `Timer.Agrees` — the two orders agree on two timers, whether the begin delay of the first of them
  has been cleared or not.
* `AgreesOnEntry` — the condition: a timer that is put into the queue, by an `addTimer` or after its
  execution, agrees with those that are there.
* `Agreed` — the invariant: the timers in the queue agree. `agreed_step` is one step.
* `nearest_on_top` — the result, and `delayed_on_top` a timer with a begin delay before another one.
-/

namespace PssClient

open Machine

namespace Timer

/-- Whichever timer is first by start time and interval is the first to become due as well, with its
begin delay and with the delay cleared. Timers that are level have no begin delay. -/
structure Agrees (t u : Timer) : Prop where
  earlier : t.due < u.due → t.deadline ≤ u.deadline ∧ t.due ≤ u.deadline
  later : u.due < t.due → u.deadline ≤ t.deadline ∧ u.due ≤ t.deadline
  level : t.due = u.due → t.mDelayTime = 0 ∧ u.mDelayTime = 0

instance (t u : Timer) : Decidable (t.Agrees u) :=
  decidable_of_iff ((t.due < u.due → t.deadline ≤ u.deadline ∧ t.due ≤ u.deadline)
      ∧ (u.due < t.due → u.deadline ≤ t.deadline ∧ u.due ≤ t.deadline)
      ∧ (t.due = u.due → t.mDelayTime = 0 ∧ u.mDelayTime = 0))
    ⟨fun h => ⟨h.1, h.2.1, h.2.2⟩, fun h => ⟨h.1, h.2, h.3⟩⟩

theorem Agrees.symm {t u : Timer} (h : t.Agrees u) : u.Agrees t :=
  ⟨h.later, h.earlier, fun heq => (h.level heq.symm).symm⟩

/-- The first of two timers that agree becomes due first. -/
theorem Agrees.deadline_le {t u : Timer} (h : t.Agrees u) (hle : t.due ≤ u.due) :
    t.deadline ≤ u.deadline := by
  rcases Int.lt_or_eq_of_le hle with hlt | heq
  · exact (h.earlier hlt).1
  · obtain ⟨ht, hu⟩ := h.level heq
    rw [deadline, deadline, ht, hu, heq]

/-- The first of them may lose its begin delay. -/
theorem Agrees.clear {t u : Timer} (h : t.Agrees u) (hle : t.due ≤ u.due) (now : Int) :
    (t.getLeftTime now).2.Agrees u where
  earlier hlt := by
    have hdeadline : (t.getLeftTime now).2.deadline = t.due := by
      show t.due + seconds 0 = t.due
      simp [seconds]
    rw [hdeadline]
    exact ⟨(h.earlier hlt).2, (h.earlier hlt).2⟩
  later hlt := absurd hlt (Int.not_lt.mpr hle)
  level heq := ⟨rfl, (h.level heq).2⟩

/-- What the order of the queue and the time left are made of. -/
structure SameTimes (t t' : Timer) : Prop where
  due : t'.due = t.due
  mDelayTime : t'.mDelayTime = t.mDelayTime

theorem SameTimes.refl (t : Timer) : t.SameTimes t := ⟨rfl, rfl⟩

theorem SameTimes.deadline {t t' : Timer} (h : t.SameTimes t') : t'.deadline = t.deadline := by
  rw [Timer.deadline, h.due, h.mDelayTime, Timer.deadline]

theorem Agrees.congr {t t' u u' : Timer} (h : t.Agrees u) (ht : t.SameTimes t')
    (hu : u.SameTimes u') : t'.Agrees u' where
  earlier := by
    rw [ht.due, hu.due, ht.deadline, hu.deadline]
    exact h.earlier
  later := by
    rw [ht.due, hu.due, ht.deadline, hu.deadline]
    exact h.later
  level := by
    rw [ht.due, hu.due, ht.mDelayTime, hu.mDelayTime]
    exact h.level

theorem sameTimes_cancel (t : Timer) : t.SameTimes t.cancel := by
  unfold cancel
  split <;> exact ⟨rfl, rfl⟩

theorem sameTimes_beforeCallback (t : Timer) : t.SameTimes t.beforeCallback := by
  unfold beforeCallback
  split
  · split <;> exact ⟨rfl, rfl⟩
  · exact .refl t

end Timer

namespace TimerMgr

/-- The timer that an action puts into the queue. -/
def entering (s : TimerMgr) : Action → Option Timer
  | .push i => some (s.timers i)
  | .callbackAddTimer timeout => some (onceTimer timeout s.now)
  | .callbackAddTimerLoop delayseconds timeout => some (loopTimer delayseconds timeout s.now)
  | .sched =>
    match s.pc with
    | .running tmp _ =>
      if (s.timers tmp).mTimerType = .loop ∧ (s.timers tmp).mCallback = true then
        some ((s.timers tmp).afterCallback s.now)
      else none
    | _ => none
  | _ => none

/-- Where a timer is put into the queue, its begin delay and those of the timers there agree with
the order by start time and interval. -/
def AgreesOnEntry (s : TimerMgr) (a : Action) : Prop :=
  ∀ t ∈ s.entering a, ∀ u ∈ s.queue, t.Agrees u

instance (s : TimerMgr) (a : Action) : Decidable (AgreesOnEntry s a) :=
  inferInstanceAs (Decidable (∀ t ∈ s.entering a, ∀ u ∈ s.queue, t.Agrees u))

/-- The timer on top has no more time left than any other. -/
def NearestOnTop (s : TimerMgr) : Prop :=
  ∀ top, s.mTimers[0]? = some top → ∀ i ∈ s.mTimers,
    ((s.timers top).getLeftTime64 s.now).1 ≤ ((s.timers i).getLeftTime64 s.now).1

/-- The wait that `timer_run` has chosen does not go past the time at which another timer becomes
due. -/
def WaitInTime (s : TimerMgr) : Prop :=
  ∀ tmp timerWait, s.pc = .waitTop tmp timerWait → ∀ i ∈ s.mTimers, i ≠ tmp →
    s.leftTimeAt + timerWait ≤ s.deadline i

/-! ## The timers in the queue agree -/

/-- The timers in the queue agree pairwise. What is put into the queue agrees with all that are
there, and nothing that happens to a timer in the queue, the consumption of its begin delay
included, ends the agreement. -/
def Agreed (s : TimerMgr) : Prop :=
  ∀ i ∈ s.mTimers, ∀ j ∈ s.mTimers, i ≠ j → (s.timers i).Agrees (s.timers j)

/-- No timer comes in, and those that stay keep their times. -/
theorem Agreed.stay {s s' : TimerMgr} (h : Agreed s)
    (hstay : ∀ i ∈ s'.mTimers, i ∈ s.mTimers ∧ (s.timers i).SameTimes (s'.timers i)) :
    Agreed s' := by
  intro i hi j hj hne
  obtain ⟨hi, hsame⟩ := hstay i hi
  obtain ⟨hj, hsame'⟩ := hstay j hj
  exact (h i hi j hj hne).congr hsame hsame'

/-- A timer comes in that agrees with the others. -/
theorem Agreed.enter {s s' : TimerMgr} {i : Nat} (h : Agreed s)
    (hqueue : ∀ j ∈ s'.mTimers, j = i ∨ j ∈ s.mTimers ∧ (s.timers j).SameTimes (s'.timers j))
    (hnew : ∀ j ∈ s.mTimers, (s'.timers i).Agrees (s.timers j)) : Agreed s' := by
  intro j hj k hk hne
  rcases hqueue j hj with rfl | ⟨hj, hsame⟩
  · rcases hqueue k hk with rfl | ⟨hk, hsame'⟩
    · exact absurd rfl hne
    · exact (hnew k hk).congr (.refl _) hsame'
  · rcases hqueue k hk with rfl | ⟨hk, hsame'⟩
    · exact ((hnew j hj).congr (.refl _) hsame).symm
    · exact (h j hj k hk hne).congr hsame hsame'

/-- What is said of the queue is said of its timers. -/
theorem agrees_of_entering {s : TimerMgr} {a : Action} (h : AgreesOnEntry s a) {t : Timer}
    (ht : s.entering a = some t) : ∀ j ∈ s.mTimers, t.Agrees (s.timers j) := fun _ hj =>
  h t ht _ (List.mem_map_of_mem (Array.mem_toList_iff.mpr hj))

/-- A timer in the queue is not the one that is being made. -/
theorem InTurn.sameTimes_construct {s : TimerMgr} (h : InTurn s) (t : Timer) {j : Nat}
    (hj : j ∈ s.mTimers) : (s.timers j).SameTimes ((construct t s).timers j) := by
  show (s.timers j).SameTimes (Function.update s.timers s.count t j)
  rw [Function.update_of_ne (ne_count_of_added h.fresh (h.queued j hj))]
  exact .refl _

theorem agreed_wake {s : TimerMgr} (h : Agreed s) (status : CvStatus) : Agreed (wake status s) := by
  unfold wake
  split <;> exact h

/-- A callback adds a timer. -/
theorem agreed_addInCallback {s : TimerMgr} {t : Timer} (hturn : InTurn s) (h : Agreed s)
    (hnew : ∀ j ∈ s.mTimers, t.Agrees (s.timers j)) : Agreed (addInCallback t s) := by
  refine agreed_wake (s := { mark s.count (push s.count (construct t s)) with
    notified := s.count :: s.notified, producer := _ }) ?_ .noTimeout
  refine h.enter (i := s.count) (fun j hj => ?_) fun j hj => ?_
  · refine (BinaryHeap.mem_push.mp hj).imp_right fun hold => ⟨hold, ?_⟩
    exact hturn.sameTimes_construct t hold
  · show Timer.Agrees (Function.update s.timers s.count t s.count) _
    rw [Function.update_self]
    exact hnew j hj

/-- A step of the schedule thread. The top loses its begin delay when the time left is read, which
the condition on entry has allowed for, and a loop timer comes back with the present time as its
start, for which the condition is asked again. -/
theorem agreed_sched {s s' : TimerMgr} (hturn : InTurn s) (h : Agreed s)
    (hentry : AgreesOnEntry s .sched) (hs : sched s = some s') : Agreed s' := by
  have htop := hturn.onTop
  cases goes_of_sched hs with
  | left tmp hpc | expired tmp hpc =>
    -- the timer on top loses its begin delay
    rw [hpc] at htop
    have hfirst : ∀ j ∈ s.mTimers, s.due tmp ≤ s.due j := fun j hj =>
      BinaryHeap.top_le hturn.heap htop hj
    have hmem := Array.mem_of_getElem? htop
    intro i hi j hj hne
    show Timer.Agrees (Function.update s.timers tmp _ i) (Function.update s.timers tmp _ j)
    by_cases hitmp : i = tmp
    · subst hitmp
      rw [Function.update_self, Function.update_of_ne hne.symm]
      exact (h i hi j hj hne).clear (hfirst j hj) s.now
    · rw [Function.update_of_ne hitmp]
      by_cases hjtmp : j = tmp
      · subst hjtmp
        rw [Function.update_self]
        exact ((h j hj i hi hne.symm).clear (hfirst i hi) s.now).symm
      · rw [Function.update_of_ne hjtmp]
        exact h i hi j hj hne
  | pop tmp top hpc hread =>
    refine h.stay fun i hi => ⟨BinaryHeap.mem_of_mem_pop hread hi, ?_⟩
    show (s.timers i).SameTimes (Function.update s.timers tmp _ i)
    by_cases heq : i = tmp
    · subst heq
      rw [Function.update_self]
      exact Timer.sameTimes_beforeCallback _
    · rw [Function.update_of_ne heq]
      exact .refl _
  | requeue tmp called hpc hloop =>
    have hout : tmp ∉ s.mTimers := hturn.out tmp (by rw [hpc]; rfl) hloop.1
    refine h.enter (i := tmp) (fun j hj => ?_) fun j hj => ?_
    · refine (BinaryHeap.mem_push.mp hj).imp_right fun hold => ⟨hold, ?_⟩
      show (s.timers j).SameTimes (Function.update s.timers tmp _ j)
      have hne : j ≠ tmp := by
        rintro rfl
        exact hout hold
      rw [Function.update_of_ne hne]
      exact .refl _
    · show Timer.Agrees (Function.update s.timers tmp _ tmp) _
      rw [Function.update_self]
      exact agrees_of_entering hentry (by rw [entering, hpc]; exact if_pos hloop) j hj
  | finished tmp called hpc =>
    refine h.stay fun i hi => ⟨hi, ?_⟩
    show (s.timers i).SameTimes (Function.update s.timers tmp _ i)
    by_cases heq : i = tmp
    · subst heq
      rw [Function.update_self]
      unfold Timer.afterCallback
      split
      case h_1 => exact .refl _
      case h_2 htype => exact absurd hi (hturn.out i (by rw [hpc]; rfl) htype)
    · rw [Function.update_of_ne heq]
      exact .refl _
  | _ => exact h

theorem agreed_step {s s' : TimerMgr} {a : Action} (hturn : InTurn s) (h : Agreed s)
    (hentry : AgreesOnEntry s a) (hstep : step s a = some s') : Agreed s' := by
  cases does_of_step hstep with
  | addTimer timeout | addTimerLoop delayseconds timeout =>
    exact h.stay fun i hi => ⟨hi, hturn.sameTimes_construct _ hi⟩
  | push i =>
    refine h.enter (i := i) (fun j hj => ?_) (agrees_of_entering hentry rfl)
    exact (BinaryHeap.mem_push.mp hj).imp_right fun hold => ⟨hold, .refl _⟩
  | callbackAddTimer timeout | callbackAddTimerLoop delayseconds timeout =>
    exact agreed_addInCallback hturn h (agrees_of_entering hentry rfl)
  | notify i =>
    exact agreed_wake (s := { s with notified := i :: s.notified, producer := _ }) h .noTimeout
  | close =>
    exact agreed_wake (s := { s with timerRun := false, timerWakeupState := _ }) h .noTimeout
  | cancel i =>
    refine h.stay fun j hj => ⟨hj, ?_⟩
    show (s.timers j).SameTimes (Function.update s.timers i _ j)
    by_cases heq : j = i
    · subst heq
      rw [Function.update_self]
      exact Timer.sameTimes_cancel _
    · rw [Function.update_of_ne heq]
      exact .refl _
  | sched hs => exact agreed_sched hturn h hentry hs
  | mark | timeoutEmpty | timeoutTop | tick => exact h

/-- Where the timers in the queue agree, the one on top is the first to become due. -/
theorem deadline_top_le {s : TimerMgr} (hord : Ordered s) (h : Agreed s) {top : Nat}
    (htop : s.mTimers[0]? = some top) {i : Nat} (hi : i ∈ s.mTimers) :
    s.deadline top ≤ s.deadline i := by
  by_cases heq : top = i
  · rw [heq]
  · have hfirst : s.due top ≤ s.due i := BinaryHeap.top_le hord.heap htop hi
    exact (h top (Array.mem_of_getElem? htop) i hi heq).deadline_le hfirst

theorem nearest_of_agreed {s : TimerMgr} (hord : Ordered s) (h : Agreed s)
    (hfits : ∀ i ∈ s.mTimers, (s.timers i).LeftFits s.now) : NearestOnTop s := by
  intro top htop i hi
  rw [(hfits top (Array.mem_of_getElem? htop)).left_eq, (hfits i hi).left_eq,
    getLeftTime_deadline, getLeftTime_deadline]
  exact Int.sub_le_sub_right (deadline_top_le hord h htop hi) s.now

/-! ## The wait -/

theorem deadline_congr {s s' : TimerMgr} {i : Nat} (h : s'.timers i = s.timers i) :
    s'.deadline i = s.deadline i := by
  rw [deadline, h, deadline]

theorem deadline_cancel (s : TimerMgr) (i j : Nat) :
    deadline { s with timers := Function.update s.timers i (s.timers i).cancel } j
      = s.deadline j := by
  have hsame : (s.timers i).cancel.mStartTime = (s.timers i).mStartTime ∧
      (s.timers i).cancel.mLastTime = (s.timers i).mLastTime ∧
      (s.timers i).cancel.mDelayTime = (s.timers i).mDelayTime := by
    unfold Timer.cancel
    split <;> exact ⟨rfl, rfl, rfl⟩
  by_cases hj : j = i
  · subst hj
    show (Function.update s.timers j _ j).mStartTime + (Function.update s.timers j _ j).mLastTime
      + seconds (Function.update s.timers j _ j).mDelayTime = _
    rw [Function.update_self, hsame.1, hsame.2.1, hsame.2.2]
    rfl
  · exact deadline_congr (Function.update_of_ne hj ..)

/-- A wait that was chosen before stays in time. -/
theorem waitInTime_stay {s s' : TimerMgr} (h : WaitInTime s)
    (hstay : ∀ tmp timerWait, s'.pc = .waitTop tmp timerWait → s'.pc = s.pc ∧
      s'.mTimers = s.mTimers ∧ s'.leftTimeAt = s.leftTimeAt ∧
      ∀ i ∈ s.mTimers, s'.deadline i = s.deadline i) : WaitInTime s' := by
  intro tmp timerWait hpc i hi hne
  obtain ⟨hsame, hqueue, hleft, hdeadline⟩ := hstay tmp timerWait hpc
  rw [hqueue] at hi
  rw [hleft, hdeadline i hi]
  exact h tmp timerWait (hsame.symm.trans hpc) i hi hne

theorem waitInTime_wake {s : TimerMgr} (h : WaitInTime s) (status : CvStatus) :
    WaitInTime (wake status s) := by
  unfold wake
  split
  · rintro _ _ ⟨⟩
  · rintro _ _ ⟨⟩
  · exact h

theorem waitInTime_sched {s s' : TimerMgr} (h : InTurn s) (hagree : Agreed s)
    (hs : sched s = some s') : WaitInTime s' := by
  cases goes_of_sched hs with
  | left tmp hpc hleft =>
    rintro _ _ ⟨⟩ i hi hne
    have htop := h.onTop
    rw [hpc] at htop
    have hle := deadline_top_le h.toOrdered hagree htop hi
    refine le_of_le_of_eq ?_ (deadline_congr (Function.update_of_ne hne ..)).symm
    show s.now + ((s.timers tmp).getLeftTime s.now).1 ≤ s.deadline i
    rw [getLeftTime_deadline]
    omega
  | _ => rintro _ _ ⟨⟩

/-- **The thread waits in time.** Between its look at the top and its wait nothing is pushed, by the
condition; what else happens there changes no deadline. -/
theorem waitInTime_step {s s' : TimerMgr} {a : Action} (h : InTurn s) (hwait : WaitInTime s)
    (hG : OneAtATime s a) (hagree : Agreed s) (hstep : step s a = some s') :
    WaitInTime s' := by
  -- in a callback the thread is not about to wait
  have hadd : ∀ t tmp, s.pc = .running tmp true → WaitInTime (addInCallback t s) := by
    intro t tmp hpc
    refine waitInTime_wake (s := { mark s.count (push s.count (construct t s)) with
      notified := s.count :: s.notified
      producer := _ }) ?_ .noTimeout
    intro tmp' timerWait hpc'
    have hbad : s.pc = .waitTop tmp' timerWait := hpc'
    rw [hpc] at hbad
    cases hbad
  cases does_of_step hstep with
  | addTimer timeout | addTimerLoop delayseconds timeout =>
    refine waitInTime_stay hwait fun _ _ _ => ⟨rfl, rfl, rfl, fun i hi => deadline_congr ?_⟩
    exact Function.update_of_ne (ne_count_of_added h.fresh (h.queued i hi)) ..
  | push i =>
    intro tmp timerWait hpc
    have hbad : s.pc = .waitTop tmp timerWait := hpc
    -- the condition: a push comes when the thread has let go of `mtx`
    have hfree : s.pc.mtxFree = true := hG
    rw [hbad] at hfree
    cases hfree
  | mark | tick => exact hwait
  | notify i =>
    exact waitInTime_wake (s := { s with notified := i :: s.notified, producer := _ }) hwait _
  | callbackAddTimer timeout tmp hpc | callbackAddTimerLoop delayseconds timeout tmp hpc =>
    exact hadd _ tmp hpc
  | cancel i =>
    exact waitInTime_stay hwait fun _ _ _ => ⟨rfl, rfl, rfl, fun j _ => deadline_cancel s i j⟩
  | close =>
    exact waitInTime_wake (s := { s with timerRun := false, timerWakeupState := _ }) hwait _
  | sched hs => exact waitInTime_sched h hagree hs
  | timeoutEmpty | timeoutTop => rintro _ _ ⟨⟩

/-! ## The result -/

/-- **The timer on top is the nearest.** When timers are added and executed one operation at a time,
each timer that comes into the queue agrees with those that are there, and no 64-bit count
overflows: in every state the timer on top has no more time left than any other in the queue, and
the wait that `timer_run` has chosen does not go past the time at which another timer becomes
due. -/
theorem nearest_on_top (now : Int) (as : List Action) (s : TimerMgr)
    (hG : Meets step64 (fun s a => (OneAtATime s a ∧ AgreesOnEntry s a) ∧ InRange s a)
      (initial now) as)
    (hrun : run step64 (initial now) as = some s)
    (hfits : ∀ i ∈ s.mTimers, (s.timers i).LeftFits s.now) : NearestOnTop s ∧ WaitInTime s := by
  obtain ⟨hG, hrun⟩ := run64 hG hrun
  have h : InTurn s ∧ Agreed s ∧ WaitInTime s := by
    refine invariant_of_meets (fun s => InTurn s ∧ Agreed s ∧ WaitInTime s) ?_
      ⟨inTurn_initial now, fun i hi => absurd hi (Array.not_mem_empty i), fun _ _ h => by cases h⟩
      hG hrun
    rintro s a s' ⟨hturn, hagreed, hwait⟩ ⟨hone, hentry⟩ hs
    exact ⟨inTurn_step hturn hone hs, agreed_step hturn hagreed hentry hs,
      waitInTime_step hturn hwait hone hagreed hs⟩
  exact ⟨nearest_of_agreed h.1.toOrdered h.2.1 hfits, h.2.2⟩

/-- A loop timer that begins after two seconds, and a timer that is due before. -/
def dueBefore : List Action :=
  [.addTimerLoop 2 3, .push 0, .mark 0, .notify 0, .addTimer 1, .push 1, .mark 1, .notify 1, .sched]
    ++ List.replicate 7 .sched

theorem nearest_on_top_dueBefore :
    ∃ s, run step64 (initial 0) dueBefore = some s ∧ s.pc = .waitTop 1 1 ∧ NearestOnTop s ∧
      WaitInTime s := by
  have hstate : ∃ s, run step64 (initial 0) dueBefore = some s ∧ s.pc = .waitTop 1 1 ∧
      ∀ i ∈ s.mTimers, (s.timers i).LeftFits s.now := ⟨_, rfl, rfl, by decide +kernel⟩
  obtain ⟨s, hrun, hpc, hfits⟩ := hstate
  exact ⟨s, hrun, hpc, nearest_on_top 0 dueBefore s (by decide +kernel) hrun hfits⟩

def delayedFirst : List Action :=
  [.addTimerLoop 10 3, .push 0, .mark 0, .notify 0, .addTimer 5, .push 1, .mark 1, .notify 1,
    .sched] ++ List.replicate 6 .sched

/-- A loop timer of three nanoseconds that begins after ten seconds is on top of one that is due
after five nanoseconds, and `timer_run` waits for it. -/
theorem delayed_on_top :
    ∃ s s', Meets step64 OneAtATime (initial 0) delayedFirst ∧
      run step64 (initial 0) delayedFirst = some s ∧ s.mTimers[0]? = some 0 ∧
      ((s.timers 0).getLeftTime64 s.now).1 = seconds 10 + 3 ∧
      ((s.timers 1).getLeftTime64 s.now).1 = 5 ∧ ¬ NearestOnTop s ∧
      step64 s .sched = some s' ∧ s'.pc = .waitTop 0 (seconds 10 + 3) ∧ ¬ WaitInTime s' := by
  have hstate : ∃ s s', run step64 (initial 0) delayedFirst = some s ∧ s.mTimers = #[0, 1] ∧
      ((s.timers 0).getLeftTime64 s.now).1 = seconds 10 + 3 ∧
      ((s.timers 1).getLeftTime64 s.now).1 = 5 ∧ step64 s .sched = some s' ∧
      s'.pc = .waitTop 0 (seconds 10 + 3) ∧ s'.mTimers = #[0, 1] ∧ s'.leftTimeAt = 0 ∧
      s'.deadline 1 = 5 := ⟨_, _, rfl, rfl, rfl, rfl, rfl, rfl, rfl, rfl, rfl⟩
  obtain ⟨s, s', hrun, hqueue, hzero, hone, hstep, hpc, hqueue', hleft, hdeadline⟩ := hstate
  have htop : s.mTimers[0]? = some 0 := by
    rw [hqueue]
    rfl
  refine ⟨s, s', by decide +kernel, hrun, htop, hzero, hone, fun hnearest => ?_, hstep, hpc,
    fun hwait => ?_⟩
  · have hle := hnearest 0 htop 1 (by simp [hqueue])
    rw [hzero, hone] at hle
    exact absurd hle (by decide)
  · have hle := hwait 0 _ hpc 1 (by simp [hqueue']) (by decide)
    rw [hleft, hdeadline] at hle
    exact absurd hle (by decide)

end TimerMgr

end PssClient
