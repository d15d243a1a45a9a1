import Mathlib.Data.List.Count
import PssClient.Timer.Int64
import PssClient.Timer.Queue

/-!
# No timer is lost or duplicated

`timer_run` reads the top of the queue in one section under `mtx_queue` and pops in another one, so
what it pops need not be what it has read and then executes. It is as long as no timer strictly
before the one it has read comes in between: a timer gets its place by its own times, however late
it is pushed.

* `InOrder` — the condition: at a pop, nothing in the queue is strictly before the timer held. The
  other half of it is `InRange`: what compares the wrong way round is popped in the wrong order.
* `Kept` — the invariant: every one-shot timer is in the queue or has been executed, once, and
  every loop timer that has not been cancelled is in the queue once.
* `timers_kept` — the result. In `overtaken` a timer that was made earlier comes in between: it is
  popped and never executed. In `overflown` so is one whose timeout is too far from the other's.
-/

namespace PssClient.TimerMgr

open Machine

/-- When `timer_run` comes to `pop()`, no timer in the queue is strictly before the one that it
read with `top()`. -/
def InOrder (s : TimerMgr) (a : Action) : Prop :=
  a = .sched → ∀ tmp, s.pc = .pop tmp → ∀ i ∈ s.mTimers, s.due tmp ≤ s.due i

instance (s : TimerMgr) (a : Action) : Decidable (InOrder s a) :=
  decidable_of_iff (a = .sched → ∀ tmp ∈ s.pc.popping, ∀ i ∈ s.mTimers, s.due tmp ≤ s.due i)
    (by simp only [Option.mem_def, Pc.popping_eq, InOrder])

theorem InOrder.loopInOrder {s : TimerMgr} {a : Action} (h : InOrder s a) : LoopInOrder s a :=
  fun ha tmp hpc _ => h ha tmp hpc

/-- How often a timer is in the queue. -/
def queuedTimes (s : TimerMgr) (i : Nat) : Nat := s.mTimers.toList.count i

/-- How often it has been executed. -/
def executedTimes (s : TimerMgr) (i : Nat) : Nat := (s.pops.map Prod.snd).count i

/-- The invariant of the runs in which every pop meets the condition. A one-shot timer that has been
added is in the queue or has been executed, and not both; a loop timer with its callback is in the
queue once, unless it is just being executed. -/
structure Kept (s : TimerMgr) : Prop extends Ordered s where
  same : ∀ p ∈ s.pops, p.1 = p.2
  once : ∀ i, (s.producer i).Added → (s.timers i).mTimerType = .once →
    queuedTimes s i + executedTimes s i = 1
  loop : ∀ i, (s.producer i).Added → (s.timers i).mTimerType = .loop →
    (s.timers i).mCallback = true → s.pc.executing ≠ some i → queuedTimes s i = 1
  executed : ∀ i, ¬ (s.producer i).Added → executedTimes s i = 0

theorem kept_initial (now : Int) : Kept (initial now) where
  toOrdered := ordered_initial now
  same := fun _ hp => absurd hp List.not_mem_nil
  once := fun _ hi => hi.elim
  loop := fun _ hi => hi.elim
  executed := fun _ _ => rfl

theorem kept_quiet {s s' : TimerMgr} (h : Kept s) (hq : Quiet s s') : Kept s' := by
  have hqueued : ∀ i, queuedTimes s' i = queuedTimes s i := by
    intro i
    rw [queuedTimes, hq.mTimers, queuedTimes]
  have hexecuted : ∀ i, executedTimes s' i = executedTimes s i := by
    intro i
    rw [executedTimes, hq.pops, executedTimes]
  refine { ordered_quiet h.toOrdered hq with same := ?_, once := ?_, loop := ?_, executed := ?_ }
  · rw [hq.pops]
    exact h.same
  · intro i hi htype
    rw [hq.added] at hi
    rw [(hq.timers i hi).mTimerType] at htype
    rw [hqueued, hexecuted]
    exact h.once i hi htype
  · intro i hi htype hcallback hexec
    rw [hq.added] at hi
    rw [(hq.timers i hi).mTimerType] at htype
    rw [hq.executing] at hexec
    rw [hqueued]
    exact h.loop i hi htype ((hq.timers i hi).mCallback hcallback) hexec
  · intro i hi
    rw [hq.added] at hi
    rw [hexecuted]
    exact h.executed i hi

theorem queuedTimes_push (s : TimerMgr) (i j : Nat) :
    queuedTimes (push i s) j = queuedTimes s j + if i = j then 1 else 0 := by
  rw [queuedTimes, push, (BinaryHeap.push_perm s.due s.mTimers i).count_eq, List.count_cons,
    queuedTimes]
  simp

theorem queuedTimes_eq_zero {s : TimerMgr} {i : Nat} (h : i ∉ s.mTimers) :
    queuedTimes s i = 0 := List.count_eq_zero.mpr fun hmem => h (Array.mem_toList_iff.mp hmem)

theorem kept_push {s : TimerMgr} {i : Nat} (h : Kept s) (hi : s.producer i = .constructed) :
    Kept (push i s) := by
  have hnot : ¬ (s.producer i).Added := by
    rw [hi]
    exact id
  have hzero : queuedTimes s i = 0 :=
    queuedTimes_eq_zero fun hmem => hnot (h.queued i hmem)
  refine { ordered_push h.toOrdered hi with
    same := h.same, once := ?_, loop := ?_, executed := ?_ }
  · intro j hj htype
    show queuedTimes (push i s) j + executedTimes s j = 1
    rw [queuedTimes_push]
    rcases (added_push s i j).mp hj with rfl | hold
    · rw [hzero, h.executed j hnot, if_pos rfl]
    · have hne : i ≠ j := fun heq => hnot (heq ▸ hold)
      rw [if_neg hne]
      exact h.once j hold htype
  · intro j hj htype hcallback hexec
    rw [queuedTimes_push]
    rcases (added_push s i j).mp hj with rfl | hold
    · rw [hzero, if_pos rfl]
    · have hne : i ≠ j := fun heq => hnot (heq ▸ hold)
      rw [if_neg hne]
      exact h.loop j hold htype hcallback hexec
  · intro j hj
    exact h.executed j fun hold => hj ((added_push s i j).mpr (.inr hold))

theorem kept_look {s : TimerMgr} {tmp : Nat} (h : Kept s) (hpc : s.pc = .readTop)
    (htop : s.mTimers[0]? = some tmp) :
    Kept { s with pc := .getLeftTime tmp, notified := [] } where
  toOrdered := ordered_look h.toOrdered htop
  same := h.same
  once := h.once
  loop := fun i hi htype hcallback _ => h.loop i hi htype hcallback (by rw [hpc]; exact nofun)
  executed := h.executed

theorem executedTimes_popStep (tmp top : Nat) (s : TimerMgr) (j : Nat) :
    executedTimes (popStep tmp top s) j = executedTimes s j + if tmp = j then 1 else 0 := by
  rw [executedTimes, popStep, List.map_append, List.count_append, executedTimes]
  simp [List.count_singleton]

/-- **The timer on top is popped.** In order it is the one that the thread has looked at, so that no
other one leaves the queue: it is queued once less, and is executed, or dropped without its
callback. -/
theorem kept_pop {s : TimerMgr} {tmp top : Nat} (h : Kept s) (hG : InOrder s .sched)
    (hpc : s.pc = .pop tmp) (htop : s.mTimers[0]? = some top) : Kept (popStep tmp top s) := by
  have hheld : s.pc.held = some tmp := by rw [hpc]; rfl
  obtain rfl : top = tmp :=
    Option.some.inj (htop.symm.trans ((h.top_iff hheld).mpr (hG rfl tmp hpc)))
  have hqueued : ∀ j, queuedTimes s j
      = queuedTimes (popStep top top s) j + if top = j then 1 else 0 := by
    intro j
    rw [queuedTimes, (BinaryHeap.pop_perm s.due htop).count_eq, List.count_cons]
    simp [queuedTimes, popStep]
  have halike := alike_update (Timer.alike_beforeCallback (s.timers top))
  refine { ordered_pop h.toOrdered hG.loopInOrder hpc htop with
    same := ?_, once := ?_, loop := ?_, executed := ?_ }
  · -- `same`: what is executed is the timer that has been looked at
    intro p hp
    rcases List.mem_append.mp hp with hold | hnew
    · exact h.same p hold
    · rw [List.mem_singleton.mp hnew]
  · -- `once`: a one-shot timer is queued or has been executed
    intro j hj htype
    have hone := h.once j hj ((halike j).mTimerType.symm.trans htype)
    rw [hqueued] at hone
    rw [executedTimes_popStep]
    omega
  · -- `loop`: a loop timer is queued when it is not in execution
    intro j hj htype hcallback hexec
    have hone := h.loop j hj ((halike j).mTimerType.symm.trans htype)
      ((halike j).mCallback hcallback) (by rw [hpc]; exact nofun)
    have hne : top ≠ j := fun heq => hexec (heq ▸ rfl)
    rw [hqueued, if_neg hne] at hone
    exact hone
  · -- `executed`
    intro j hj
    have hne : top ≠ j := fun heq => hj (heq ▸ h.added_of_held hheld)
    rw [executedTimes_popStep, if_neg hne]
    exact h.executed j hj

/-- An execution ends. A loop timer goes back into the queue, which it has been out of; a one-shot
timer has been executed once and does not. -/
theorem kept_running {s : TimerMgr} {tmp : Nat} {called : Bool} (h : Kept s)
    (hpc : s.pc = .running tmp called) : Kept (runningStep tmp s) := by
  have hexec : s.pc.executing = some tmp := by rw [hpc]; rfl
  have hother : ∀ j, tmp ≠ j → s.pc.executing ≠ some j := by
    intro j hne hj
    exact hne (Option.some.inj (hexec.symm.trans hj))
  have hord := ordered_running h.toOrdered hpc
  have htimer := finish_timer tmp s
  revert hord
  unfold runningStep
  split
  case isTrue hloop =>
    -- a loop timer that has not been cancelled goes back
    intro hord
    have hzero : queuedTimes s tmp = 0 := queuedTimes_eq_zero (h.out tmp hexec hloop.1)
    have hqueued : ∀ j, queuedTimes
        { finish tmp s with mTimers := BinaryHeap.push (finish tmp s).due s.mTimers tmp } j
        = queuedTimes s j + if tmp = j then 1 else 0 := by
      intro j
      rw [queuedTimes, (BinaryHeap.push_perm (finish tmp s).due s.mTimers tmp).count_eq,
        List.count_cons, queuedTimes]
      simp
    refine { hord with same := h.same, once := ?_, loop := ?_, executed := h.executed }
    · intro j hj htype
      rw [(htimer j).1] at htype
      have hne : tmp ≠ j := by
        rintro rfl
        rw [hloop.1] at htype
        cases htype
      rw [hqueued, if_neg hne]
      exact h.once j hj htype
    · intro j hj htype hcallback _
      rw [(htimer j).1] at htype
      rw [(htimer j).2.2] at hcallback
      rw [hqueued]
      by_cases hne : tmp = j
      · subst hne
        rw [hzero, if_pos rfl]
      · rw [if_neg hne]
        exact h.loop j hj htype hcallback (hother j hne)
  case isFalse hnot =>
    intro hord
    refine { hord with same := h.same, once := ?_, loop := ?_, executed := h.executed }
    · intro j hj htype
      rw [(htimer j).1] at htype
      exact h.once j hj htype
    · intro j hj htype hcallback _
      rw [(htimer j).1] at htype
      rw [(htimer j).2.2] at hcallback
      have hne : tmp ≠ j := by
        rintro rfl
        exact hnot ⟨htype, hcallback⟩
      exact h.loop j hj htype hcallback (hother j hne)

theorem kept_step {s s' : TimerMgr} {a : Action} (hfresh : Fresh s) (h : Kept s)
    (hG : InOrder s a) (hstep : step s a = some s') : Kept s' :=
  invariant_step (G := InOrder) (fun _ _ => kept_quiet) (fun _ _ => kept_push)
    (fun _ _ => kept_look) (fun _ _ _ => kept_pop) (fun _ _ _ => kept_running) hfresh h hG hstep

theorem kept_of_run {now : Int} {as : List Action} {s : TimerMgr}
    (hG : Meets step InOrder (initial now) as) (hrun : run step (initial now) as = some s) :
    Kept s := by
  have hkept : Fresh s ∧ Kept s := by
    refine invariant_of_meets (fun s => Fresh s ∧ Kept s) ?_ ⟨fun _ _ => rfl, kept_initial now⟩
      hG hrun
    rintro s a s' ⟨hfresh, h⟩ hG hstep
    exact ⟨fresh_step hfresh hstep, kept_step hfresh h hG hstep⟩
  exact hkept.2

/-- **Timers are kept.** In every run in which each pop meets the condition and no 64-bit count
overflows, what `pop()` removed was the timer then executed, every one-shot timer that has been
added is in the queue until it is executed and is executed at most once, and every loop timer that
is neither cancelled nor being executed is in the queue exactly once. At a pop of such a run the
condition says exactly that the timer held is on top. -/
theorem timers_kept (now : Int) (as : List Action) (s : TimerMgr)
    (hG : Meets step64 (fun s a => InOrder s a ∧ InRange s a) (initial now) as)
    (hrun : run step64 (initial now) as = some s) :
    (∀ p ∈ s.pops, p.1 = p.2) ∧
      (∀ i, (s.producer i).Added → (s.timers i).mTimerType = .once →
        queuedTimes s i + executedTimes s i = 1) ∧
      (∀ i, (s.producer i).Added → (s.timers i).mTimerType = .loop →
        (s.timers i).mCallback = true → s.pc.executing ≠ some i → queuedTimes s i = 1) ∧
      ∀ tmp, s.pc = .pop tmp →
        (s.mTimers[0]? = some tmp ↔ ∀ i ∈ s.mTimers, s.due tmp ≤ s.due i) := by
  obtain ⟨horder, hrun⟩ := run64 hG hrun
  have h := kept_of_run horder hrun
  exact ⟨h.same, h.once, h.loop, fun tmp hpc => h.top_iff (by rw [hpc]; rfl)⟩

/-- The schedule thread until it has read the top. -/
def untilTop : List Action := List.replicate 6 .sched

/-- A loop timer of two nanoseconds is executed, while a one-shot timer of five waits behind it. -/
def twoTimers : List Action :=
  [.addTimerLoop 0 2, .push 0, .mark 0, .notify 0, .addTimer 5, .push 1, .mark 1, .notify 1,
    .tick 3] ++ untilTop ++ [.sched, .sched, .sched, .sched, .tick 4, .sched, .sched]

theorem timers_kept_twoTimers :
    ∃ s, run step64 (initial 0) twoTimers = some s ∧ s.pops = [(0, 0)] ∧
      queuedTimes s 0 = 1 ∧ queuedTimes s 1 + executedTimes s 1 = 1 := by
  have hmeets : Meets step64 (fun s a => InOrder s a ∧ InRange s a) (initial 0) twoTimers := by
    decide +kernel
  have hstate : ∃ s, run step64 (initial 0) twoTimers = some s ∧ s.pops = [(0, 0)] ∧
      (s.producer 0).Added ∧ (s.producer 1).Added ∧ (s.timers 0).mTimerType = .loop ∧
      (s.timers 0).mCallback = true ∧ (s.timers 1).mTimerType = .once ∧ s.pc.executing = none :=
    ⟨_, rfl, rfl, trivial, trivial, rfl, rfl, rfl, rfl⟩
  obtain ⟨s, hrun, hpops, hadded, hadded', htype, hcallback, htype', hexec⟩ := hstate
  obtain ⟨-, honce, hloop, -⟩ := timers_kept 0 twoTimers s hmeets hrun
  exact ⟨s, hrun, hpops, hloop 0 hadded htype hcallback (by rw [hexec]; exact nofun),
    honce 1 hadded' htype'⟩

/-- Both timers are made at once. The first one, of two nanoseconds, is read after its time; then
the second one, of a single nanosecond, is pushed and popped in its place. -/
def overtaken : List Action :=
  [.addTimer 2, .addTimer 1, .push 0, .mark 0, .notify 0, .tick 2] ++ untilTop
    ++ [.sched, .sched, .push 1, .sched, .sched]

theorem overtaken_lost :
    ∃ s, run step64 (initial 0) overtaken = some s ∧ s.pops = [(1, 0)] ∧
      (s.producer 1).Added ∧ (s.timers 1).mTimerType = .once ∧ 1 ∉ s.mTimers.toList ∧
      executedTimes s 1 = 0 :=
  ⟨_, rfl, rfl, trivial, rfl, by decide, rfl⟩

/-- The first timer, which expired long ago, has been read when the second one, which is due long
after, is pushed. The difference of their timeouts is not a 64-bit count, the second timer gets on
top, and it is popped. -/
def overflown : List Action :=
  [.addTimer (-5000000000000000000), .addTimer 5000000000000000000, .push 0, .mark 0, .notify 0]
    ++ untilTop ++ [.sched, .sched, .push 1, .sched, .sched]

theorem overflown_lost :
    Meets step64 InOrder (initial 0) overflown ∧
      ∃ s, run step64 (initial 0) overflown = some s ∧ s.pops = [(1, 0)] ∧
        (s.producer 1).Added ∧ (s.timers 1).mTimerType = .once ∧ 1 ∉ s.mTimers.toList ∧
        executedTimes s 1 = 0 :=
  ⟨by decide +kernel, _, rfl, rfl, trivial, rfl, by decide +kernel, rfl⟩

end PssClient.TimerMgr
