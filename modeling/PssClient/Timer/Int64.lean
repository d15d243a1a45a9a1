import PssClient.Lib.HeapBy
import PssClient.Timer.Rules

/-!
# The 64-bit counts of the timer manager

`CompareTimer` subtracts the start times and the intervals of two timers and adds the differences,
and `getLeftTime` subtracts and adds three times. All of it is done in 64-bit counts of nanoseconds,
and the manager takes any timeout and any begin delay, so that they can overflow: two timers of
minus and plus five billion seconds compare the wrong way round.

* `Timer.compareTimer64` / `Timer.getLeftTime64` — what the source computes.
* `step64` — the manager with these.
* `InRange` — the condition on a step: no comparison and no time left that it computes overflows.
* `step64_eq` — such a step is one of the manager with unbounded times. By `run_congr` the runs
  whose steps are in range are the same (`run64`).
* `Bounded` / `inRange_of_bounded` — a bound on the times that is enough: thirty-six years.
-/

namespace PssClient

open Machine

/-- A number that a 64-bit count holds. -/
def IsInt64 (n : Int) : Prop := -9223372036854775808 ≤ n ∧ n < 9223372036854775808

instance (n : Int) : Decidable (IsInt64 n) := inferInstanceAs (Decidable (_ ∧ _))

theorem toInt64_of_isInt64 {n : Int} (h : IsInt64 n) : toInt64 n = n := by
  obtain ⟨hle, hlt⟩ := h
  exact Int.bmod_eq_of_le_mul_two (by omega) (by omega)

namespace Timer

/-- `CompareTimer`. -/
def compareTimer64 (left right : Timer) : Bool :=
  decide (0 < toInt64 (toInt64 (left.mStartTime - right.mStartTime)
    + toInt64 (left.mLastTime - right.mLastTime)))

/-- `getLeftTime`. -/
def getLeftTime64 (now : Int) (t : Timer) : Int × Timer :=
  (toInt64 (toInt64 (t.mLastTime - toInt64 (now - t.mStartTime))
    + toInt64 (seconds t.mDelayTime)), { t with mDelayTime := 0 })

/-- Comparing the timers does not overflow. -/
structure CompareFits (left right : Timer) : Prop where
  startDiff : IsInt64 (left.mStartTime - right.mStartTime)
  lastDiff : IsInt64 (left.mLastTime - right.mLastTime)
  diff : IsInt64 ((left.mStartTime - right.mStartTime) + (left.mLastTime - right.mLastTime))

/-- Computing the time left does not overflow. -/
structure LeftFits (now : Int) (t : Timer) : Prop where
  elapsed : IsInt64 (now - t.mStartTime)
  left : IsInt64 (t.mLastTime - (now - t.mStartTime))
  delayTime : IsInt64 (seconds t.mDelayTime)
  sum : IsInt64 (t.mLastTime - (now - t.mStartTime) + seconds t.mDelayTime)

instance (left right : Timer) : Decidable (CompareFits left right) :=
  decidable_of_iff (IsInt64 (left.mStartTime - right.mStartTime)
      ∧ IsInt64 (left.mLastTime - right.mLastTime)
      ∧ IsInt64 ((left.mStartTime - right.mStartTime) + (left.mLastTime - right.mLastTime)))
    ⟨fun h => ⟨h.1, h.2.1, h.2.2⟩, fun h => ⟨h.1, h.2, h.3⟩⟩

instance (now : Int) (t : Timer) : Decidable (LeftFits now t) :=
  decidable_of_iff (IsInt64 (now - t.mStartTime) ∧ IsInt64 (t.mLastTime - (now - t.mStartTime))
      ∧ IsInt64 (seconds t.mDelayTime)
      ∧ IsInt64 (t.mLastTime - (now - t.mStartTime) + seconds t.mDelayTime))
    ⟨fun h => ⟨h.1, h.2.1, h.2.2.1, h.2.2.2⟩, fun h => ⟨h.1, h.2, h.3, h.4⟩⟩

theorem CompareFits.compare_eq {left right : Timer} (h : CompareFits left right) :
    compareTimer64 left right = compareTimer left right := by
  rw [compareTimer64, toInt64_of_isInt64 h.startDiff, toInt64_of_isInt64 h.lastDiff,
    toInt64_of_isInt64 h.diff, compareTimer]

theorem LeftFits.left_eq {now : Int} {t : Timer} (h : LeftFits now t) :
    getLeftTime64 now t = getLeftTime now t := by
  rw [getLeftTime64, toInt64_of_isInt64 h.elapsed, toInt64_of_isInt64 h.left,
    toInt64_of_isInt64 h.delayTime, toInt64_of_isInt64 h.sum, getLeftTime]

end Timer

namespace TimerMgr

/-! ## The manager -/

/-- The comparison that the queue is made with: `CompareTimer` puts the timer that expires last
first, and the top of a `priority_queue` is its last. -/
def before64 (s : TimerMgr) (i j : Nat) : Bool := (s.timers j).compareTimer64 (s.timers i)

/-- The section under `mtx_queue`. -/
def push64 (i : Nat) (s : TimerMgr) : TimerMgr :=
  { s with
    mTimers := BinaryHeap.pushBy s.before64 s.mTimers i
    producer := Function.update s.producer i .pushed }

/-- A whole call of `addTimer` or `addTimer_loop`, out of a callback. -/
def addInCallback64 (t : Timer) (s : TimerMgr) : TimerMgr :=
  notify s.count (mark s.count (push64 s.count (construct t s)))

/-- The section under `mtx_queue` up to the callback. -/
def popStep64 (tmp top : Nat) (s : TimerMgr) : TimerMgr :=
  { popStep tmp top s with mTimers := BinaryHeap.popBy s.before64 s.mTimers }

/-- The rest of the section. A loop timer goes back into the queue. -/
def runningStep64 (tmp : Nat) (s : TimerMgr) : TimerMgr :=
  if (s.timers tmp).mTimerType = .loop ∧ (s.timers tmp).mCallback = true then
    { finish tmp s with mTimers := BinaryHeap.pushBy (finish tmp s).before64 s.mTimers tmp }
  else finish tmp s

/-- `schedule` and `timer_run`. -/
def sched64 (s : TimerMgr) : Option TimerMgr :=
  match s.pc with
  | .getLeftTime tmp =>
    some { s with
      timers := Function.update s.timers tmp ((s.timers tmp).getLeftTime64 s.now).2
      leftTimeAt := s.now
      pc :=
        if 0 < ((s.timers tmp).getLeftTime64 s.now).1 then
          .waitTop tmp ((s.timers tmp).getLeftTime64 s.now).1
        else .testRunAgain tmp }
  | .pop tmp => s.mTimers[0]?.map fun top => popStep64 tmp top s
  | .running tmp _ => some (runningStep64 tmp s)
  | _ => sched s

/-- A callback adds a timer. -/
def callbackAdd64 (t : Timer) (s : TimerMgr) : Option TimerMgr :=
  match s.pc with
  | .running _ true => some (addInCallback64 t s)
  | _ => none

/-- The steps of the manager. Those that neither compare timers nor compute the time left of one
are those of `step`. -/
def step64 (s : TimerMgr) : Action → Option TimerMgr
  | .push i =>
    if s.producer i = .constructed ∧ s.pc.executing = none then some (push64 i s) else none
  | .callbackAddTimer timeout => callbackAdd64 (onceTimer timeout s.now) s
  | .callbackAddTimerLoop delayseconds timeout =>
    callbackAdd64 (loopTimer delayseconds timeout s.now) s
  | .sched => sched64 s
  | a => step s a

/-! ## The steps in range -/

/-- The timers that are in the queue. -/
def queue (s : TimerMgr) : List Timer := s.mTimers.toList.map s.timers

/-- The timers among which a step compares: those in the queue, and the one that is put in. -/
def compared (s : TimerMgr) : Action → List Timer
  | .push i => s.timers i :: s.queue
  | .callbackAddTimer timeout =>
    onceTimer timeout s.now :: (construct (onceTimer timeout s.now) s).queue
  | .callbackAddTimerLoop delayseconds timeout =>
    loopTimer delayseconds timeout s.now ::
      (construct (loopTimer delayseconds timeout s.now) s).queue
  | .sched =>
    match s.pc with
    | .pop _ => s.queue
    | .running tmp _ =>
      if (s.timers tmp).mTimerType = .loop ∧ (s.timers tmp).mCallback = true then
        (finish tmp s).timers tmp :: (finish tmp s).queue
      else []
    | _ => []
  | _ => []

/-- The timer whose time left a step computes. -/
def looksAt (s : TimerMgr) : Action → Option Timer
  | .sched =>
    match s.pc with
    | .getLeftTime tmp => some (s.timers tmp)
    | _ => none
  | _ => none

/-- No 64-bit count that the step computes overflows. -/
structure InRange (s : TimerMgr) (a : Action) : Prop where
  compares : ∀ left ∈ s.compared a, ∀ right ∈ s.compared a, left.CompareFits right
  leaves : ∀ t ∈ s.looksAt a, t.LeftFits s.now

instance (s : TimerMgr) (a : Action) : Decidable (InRange s a) :=
  decidable_of_iff ((∀ left ∈ s.compared a, ∀ right ∈ s.compared a, left.CompareFits right) ∧
      ∀ t ∈ s.looksAt a, t.LeftFits s.now)
    ⟨fun h => ⟨h.1, h.2⟩, fun h => ⟨h.1, h.2⟩⟩

/-- Where no comparison of these timers overflows, the comparison is the order of the expiry. -/
theorem compares_of_fits {s : TimerMgr} {ids : List Nat}
    (h : ∀ left ∈ ids.map s.timers, ∀ right ∈ ids.map s.timers, left.CompareFits right) :
    BinaryHeap.Compares s.before64 s.due ids := by
  intro i hi j hj
  have hfits := h _ (List.mem_map_of_mem hj) _ (List.mem_map_of_mem hi)
  rw [before64, hfits.compare_eq, Bool.eq_iff_iff, Timer.compareTimer_iff, decide_eq_true_iff]
  rfl

theorem push64_eq {s : TimerMgr} {i : Nat}
    (h : ∀ left ∈ s.timers i :: s.queue, ∀ right ∈ s.timers i :: s.queue, left.CompareFits right) :
    push64 i s = push i s := by
  have hcompares : BinaryHeap.Compares s.before64 s.due (i :: s.mTimers.toList) :=
    compares_of_fits h
  rw [push64, push, BinaryHeap.pushBy_eq hcompares]

theorem addInCallback64_eq {s : TimerMgr} {t : Timer}
    (h : ∀ left ∈ t :: (construct t s).queue, ∀ right ∈ t :: (construct t s).queue,
      left.CompareFits right) : addInCallback64 t s = addInCallback t s := by
  have hself : (construct t s).timers s.count = t := Function.update_self ..
  rw [addInCallback64, addInCallback, push64_eq (by rwa [hself])]

theorem callbackAdd64_eq {s : TimerMgr} {t : Timer}
    (h : ∀ left ∈ t :: (construct t s).queue, ∀ right ∈ t :: (construct t s).queue,
      left.CompareFits right) : callbackAdd64 t s = callbackAdd t s := by
  unfold callbackAdd64
  split
  case h_1 tmp hpc => simp only [callbackAdd, hpc, addInCallback64_eq h]
  case h_2 hnone =>
    unfold callbackAdd
    split
    case h_1 tmp hpc => exact absurd hpc (hnone tmp)
    case h_2 => rfl

theorem sched64_eq {s : TimerMgr} (h : InRange s .sched) : sched64 s = sched s := by
  obtain ⟨hcompares, hleaves⟩ := h
  unfold sched64
  split
  case h_1 tmp hpc =>
    have hfits : (s.timers tmp).LeftFits s.now := hleaves _ (by rw [looksAt, hpc]; rfl)
    simp only [sched, hpc, hfits.left_eq]
  case h_2 tmp hpc =>
    rw [compared, hpc] at hcompares
    simp only [sched, hpc]
    cases s.mTimers[0]? with
    | none => rfl
    | some top =>
      rw [Option.map_some, Option.map_some, popStep64,
        BinaryHeap.popBy_eq (compares_of_fits hcompares)]
      rfl
  case h_3 tmp called hpc =>
    rw [compared, hpc] at hcompares
    simp only [sched, hpc, runningStep64, runningStep]
    by_cases hloop : (s.timers tmp).mTimerType = .loop ∧ (s.timers tmp).mCallback = true
    · simp only [if_pos hloop] at hcompares ⊢
      have hkeys : BinaryHeap.Compares (finish tmp s).before64 (finish tmp s).due
          (tmp :: s.mTimers.toList) := compares_of_fits hcompares
      rw [BinaryHeap.pushBy_eq hkeys]
    · rw [if_neg hloop, if_neg hloop]
  case h_4 => rfl

/-- **In range, the 64-bit counts are the numbers.** -/
theorem step64_eq (s : TimerMgr) (a : Action) (h : InRange s a) : step64 s a = step s a := by
  cases a with
  | push i => rw [step64, step, push64_eq h.compares]
  | callbackAddTimer timeout => exact callbackAdd64_eq h.compares
  | callbackAddTimerLoop delayseconds timeout => exact callbackAdd64_eq h.compares
  | sched => exact sched64_eq h
  | _ => rfl

/-- A run of 64-bit steps in range is one of the manager with unbounded times, and the conditions
that it meets on its way it meets there as well. -/
theorem run64 {G : TimerMgr → Action → Prop} {s t : TimerMgr} {as : List Action}
    (hG : Meets step64 (fun s a => G s a ∧ InRange s a) s as) (hrun : run step64 s as = some t) :
    Meets step G s as ∧ run step s as = some t := by
  have hagree : ∀ s a, G s a ∧ InRange s a → step64 s a = step s a := fun s a h =>
    step64_eq s a h.2
  exact ⟨((meets_congr hagree hG).mp hG).mono fun _ _ h => h.1, run_congr hagree hG ▸ hrun⟩

/-! ## A bound that is enough -/

end TimerMgr

/-- Less than `2 ^ 60` nanoseconds in either direction. -/
def IsSmall (n : Int) : Prop := -1152921504606846976 < n ∧ n < 1152921504606846976

instance (n : Int) : Decidable (IsSmall n) := inferInstanceAs (Decidable (_ ∧ _))

theorem isSmall_zero : IsSmall 0 := ⟨by decide, by decide⟩

/-- The times of the timer are small: sums and differences of a few of them stay within the 64-bit
counts of nanoseconds in which the source computes. -/
structure Timer.Bounded (t : Timer) : Prop where
  mStartTime : IsSmall t.mStartTime
  mLastTime : IsSmall t.mLastTime
  mDelayTime : IsSmall (seconds t.mDelayTime)

instance (t : Timer) : Decidable t.Bounded :=
  decidable_of_iff (IsSmall t.mStartTime ∧ IsSmall t.mLastTime ∧ IsSmall (seconds t.mDelayTime))
    ⟨fun h => ⟨h.1, h.2.1, h.2.2⟩, fun h => ⟨h.1, h.2, h.3⟩⟩

theorem Timer.Bounded.compareFits {left right : Timer} (hl : left.Bounded) (hr : right.Bounded) :
    left.CompareFits right := by
  obtain ⟨⟨_, _⟩, ⟨_, _⟩, -⟩ := hl
  obtain ⟨⟨_, _⟩, ⟨_, _⟩, -⟩ := hr
  refine ⟨⟨?_, ?_⟩, ⟨?_, ?_⟩, ⟨?_, ?_⟩⟩ <;> omega

theorem Timer.Bounded.leftFits {t : Timer} {now : Int} (h : t.Bounded) (hnow : IsSmall now) :
    t.LeftFits now := by
  obtain ⟨⟨_, _⟩, ⟨_, _⟩, ⟨_, _⟩⟩ := h
  obtain ⟨_, _⟩ := hnow
  refine ⟨⟨?_, ?_⟩, ⟨?_, ?_⟩, ⟨?_, ?_⟩, ⟨?_, ?_⟩⟩ <;> omega

namespace TimerMgr

/-- All times are small, those of the timers that have not been made yet included. -/
structure Bounded (s : TimerMgr) : Prop where
  now : IsSmall s.now
  timers : ∀ i, (s.timers i).Bounded

/-- The clock after an action. -/
def Action.clock (now : Int) : Action → Int
  | .tick d => now + d
  | _ => now

/-- The timer that an action makes has small times, and the clock stays small. -/
structure Action.Bounded (now : Int) (a : Action) : Prop where
  timer : ∀ t ∈ a.timer now, t.Bounded
  clock : IsSmall (a.clock now)

instance (now : Int) (a : Action) : Decidable (a.Bounded now) :=
  decidable_of_iff ((∀ t ∈ a.timer now, t.Bounded) ∧ IsSmall (a.clock now))
    ⟨fun h => ⟨h.1, h.2⟩, fun h => ⟨h.1, h.2⟩⟩

theorem bounded_initial {now : Int} (h : IsSmall now) : Bounded (initial now) :=
  ⟨h, fun _ => ⟨isSmall_zero, isSmall_zero, isSmall_zero⟩⟩

/-- A timer is put in for another one. -/
theorem Bounded.update {s : TimerMgr} (h : Bounded s) (i : Nat) {t : Timer} (ht : t.Bounded)
    (j : Nat) : (Function.update s.timers i t j).Bounded := by
  by_cases hj : j = i
  · subst hj
    rw [Function.update_self]
    exact ht
  · rw [Function.update_of_ne hj]
    exact h.timers j

theorem Bounded.queue {s : TimerMgr} (h : Bounded s) : ∀ t ∈ s.queue, t.Bounded := by
  intro t ht
  obtain ⟨i, -, rfl⟩ := List.mem_map.mp ht
  exact h.timers i

theorem Bounded.construct {s : TimerMgr} (h : Bounded s) {t : Timer} (ht : t.Bounded) :
    Bounded (construct t s) := ⟨h.now, h.update s.count ht⟩

theorem Bounded.finish {s : TimerMgr} (h : Bounded s) (tmp : Nat) : Bounded (finish tmp s) := by
  refine ⟨h.now, h.update tmp ?_⟩
  unfold Timer.afterCallback
  split
  · exact h.timers tmp
  · exact ⟨h.now, (h.timers tmp).mLastTime, (h.timers tmp).mDelayTime⟩

/-- Only timers and the clock matter. -/
theorem Bounded.congr {s s' : TimerMgr} (h : Bounded s) (htimers : s'.timers = s.timers)
    (hnow : s'.now = s.now) : Bounded s' :=
  ⟨hnow ▸ h.now, fun i => htimers ▸ h.timers i⟩

theorem Bounded.wake {s : TimerMgr} (h : Bounded s) (status : CvStatus) :
    Bounded (wake status s) := by
  unfold TimerMgr.wake
  split
  · exact h.congr rfl rfl
  · exact h.congr rfl rfl
  · exact h

theorem Bounded.notify {s : TimerMgr} (h : Bounded s) (i : Nat) : Bounded (notify i s) := by
  refine Bounded.wake ?_ .noTimeout
  exact h.congr rfl rfl

/-- **The bounds are kept.** A timer is made with the values of its call, which are bounded by the
condition, and from then on its times are only taken over, set to zero, or moved by its interval
when it ends. -/
theorem bounded_step {s s' : TimerMgr} {a : Action} (h : Bounded s) (ha : a.Bounded s.now)
    (hstep : step s a = some s') : Bounded s' := by
  -- a callback adds a timer in one step: it makes, pushes, marks and notifies
  have hadd : ∀ t ∈ a.timer s.now, Bounded (addInCallback t s) := by
    intro t ht
    have hmarked : Bounded (mark s.count (push s.count (construct t s))) :=
      (h.construct (ha.timer t ht)).congr rfl rfl
    exact hmarked.notify s.count
  cases does_of_step hstep with
  | addTimer timeout | addTimerLoop delayseconds timeout => exact h.construct (ha.timer _ rfl)
  | push i | mark i => exact ⟨h.now, h.timers⟩
  | notify i => exact h.notify i
  | callbackAddTimer timeout tmp | callbackAddTimerLoop delayseconds timeout tmp =>
    exact hadd _ rfl
  | cancel i =>
    refine ⟨h.now, h.update i ?_⟩
    unfold Timer.cancel
    split
    · exact h.timers i
    · exact ⟨(h.timers i).mStartTime, (h.timers i).mLastTime, (h.timers i).mDelayTime⟩
  | close =>
    have hsame : Bounded { s with timerRun := false, timerWakeupState := .addTimer } :=
      h.congr rfl rfl
    exact hsame.wake .noTimeout
  | timeoutEmpty | timeoutTop => exact ⟨h.now, h.timers⟩
  | tick d => exact ⟨ha.clock, h.timers⟩
  | sched hs =>
    cases goes_of_sched hs with
    -- the begin delay is over
    | left tmp | expired tmp =>
      exact ⟨h.now,
        h.update tmp ⟨(h.timers tmp).mStartTime, (h.timers tmp).mLastTime, isSmall_zero⟩⟩
    | pop tmp top =>
      refine ⟨h.now, h.update tmp ?_⟩
      unfold Timer.beforeCallback
      split
      · split
        · exact h.timers tmp
        · exact ⟨(h.timers tmp).mStartTime, (h.timers tmp).mLastTime, (h.timers tmp).mDelayTime⟩
      · exact h.timers tmp
    | requeue tmp => exact ⟨h.now, (h.finish tmp).timers⟩
    | finished tmp => exact h.finish tmp
    | _ => exact ⟨h.now, h.timers⟩

/-- With small times nothing overflows. -/
theorem inRange_of_bounded {s : TimerMgr} {a : Action} (h : Bounded s) (ha : a.Bounded s.now) :
    InRange s a := by
  have hcons : ∀ {t : Timer} {s : TimerMgr}, t.Bounded → Bounded s →
      ∀ t' ∈ t :: s.queue, t'.Bounded := fun ht h =>
    List.forall_mem_cons.mpr ⟨ht, h.queue⟩
  have hall : ∀ t ∈ s.compared a, t.Bounded := by
    unfold compared
    split
    case h_1 i => exact hcons (h.timers i) h
    case h_2 timeout => exact hcons (ha.timer _ rfl) (h.construct (ha.timer _ rfl))
    case h_3 delayseconds timeout =>
      exact hcons (ha.timer _ rfl) (h.construct (ha.timer _ rfl))
    case h_4 =>
      split
      case h_1 => exact h.queue
      case h_2 tmp called hpc =>
        split
        · exact hcons ((h.finish tmp).timers tmp) (h.finish tmp)
        · exact fun t ht => absurd ht List.not_mem_nil
      case h_3 => exact fun t ht => absurd ht List.not_mem_nil
    case h_5 => exact fun t ht => absurd ht List.not_mem_nil
  refine ⟨fun left hl right hr => (hall left hl).compareFits (hall right hr), fun t ht => ?_⟩
  refine Timer.Bounded.leftFits ?_ h.now
  unfold looksAt at ht
  split at ht
  · split at ht
    · obtain rfl := Option.some.inj ht
      exact h.timers _
    · cases ht
  · cases ht

/-- A run of 64-bit steps with small times is one of the manager with unbounded times, and all times
are small at its end. -/
theorem run64_of_bounded {G : TimerMgr → Action → Prop} {s t : TimerMgr} {as : List Action}
    (h : Bounded s) (hG : Meets step64 (fun s a => G s a ∧ a.Bounded s.now) s as)
    (hrun : run step64 s as = some t) : Meets step G s as ∧ run step s as = some t ∧ Bounded t := by
  induction as generalizing s with
  | nil =>
    obtain rfl := Option.some.inj hrun
    exact ⟨trivial, rfl, h⟩
  | cons a as ih =>
    obtain ⟨s', hs, hrun⟩ := run_cons.mp hrun
    have hrest := hG.2 s' hs
    rw [step64_eq s a (inRange_of_bounded h hG.1.2)] at hs
    obtain ⟨hmeets, hrun, hbounded⟩ := ih (bounded_step h hG.1.2 hs) hrest hrun
    exact ⟨meets_cons hG.1.1 hs hmeets, run_cons.mpr ⟨s', hs, hrun⟩, hbounded⟩

/-- The other way round, for the schedule thread by itself. -/
theorem run_sched64 {s t : TimerMgr} (h : Bounded s) {k : Nat}
    (hrun : run step s (List.replicate k .sched) = some t) :
    run step64 s (List.replicate k .sched) = some t := by
  induction k generalizing s with
  | zero => exact hrun
  | succ k ih =>
    obtain ⟨s', hs, hrun⟩ := run_cons.mp hrun
    have hsched : Action.sched.Bounded s.now := ⟨nofun, h.now⟩
    have hs' := (step64_eq s .sched (inRange_of_bounded h hsched)).trans hs
    exact run_cons.mpr ⟨s', hs', ih (bounded_step h hsched hs) hrun⟩

end TimerMgr

end PssClient
