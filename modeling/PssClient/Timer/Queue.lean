import PssClient.Timer.Rules

/-!
# The queue of timers

What the steps of the timer manager do to its queue. Most of them leave it alone (`Quiet`); the
others are a push, the reading of the top, the pop and the end of an execution. A statement about
the queue is an invariant as soon as it survives these five (`invariant_step`).

* `Wf` — only timers that have been added are in the queue or with the schedule thread.
* `Ordered` — the queue is a heap without duplicates, and the timer that the schedule thread holds
  is on top as long as nothing strictly before it has come in. It survives every step but the
  execution of a loop timer behind another timer (`LoopInOrder`), whose new start time spoils the
  order.
-/

namespace PssClient

/-- Two times of a timer between which it has not ended an execution. -/
structure Timer.Alike (t t' : Timer) : Prop where
  mStartTime : t'.mStartTime = t.mStartTime
  mLastTime : t'.mLastTime = t.mLastTime
  mTimerType : t'.mTimerType = t.mTimerType
  mCallback : t'.mCallback = true → t.mCallback = true

theorem Timer.Alike.due {t t' : Timer} (h : t.Alike t') : t'.due = t.due := by
  rw [Timer.due, h.mStartTime, h.mLastTime, Timer.due]

theorem Timer.Alike.refl (t : Timer) : t.Alike t := ⟨rfl, rfl, rfl, id⟩

theorem Timer.alike_getLeftTime (now : Int) (t : Timer) : t.Alike (t.getLeftTime now).2 :=
  ⟨rfl, rfl, rfl, id⟩

theorem Timer.alike_cancel (t : Timer) : t.Alike t.cancel := by
  unfold Timer.cancel
  split
  · exact .refl t
  · exact ⟨rfl, rfl, rfl, fun h => by cases h⟩

theorem Timer.alike_beforeCallback (t : Timer) : t.Alike t.beforeCallback := by
  unfold Timer.beforeCallback
  split
  · split
    · exact .refl t
    · exact ⟨rfl, rfl, rfl, fun h => by cases h⟩
  · exact .refl t

namespace TimerMgr

open Machine

/-- A timer is put in for another one like it. -/
theorem alike_update {timers : Nat → Timer} {i : Nat} {t : Timer} (h : (timers i).Alike t)
    (j : Nat) : (timers j).Alike (Function.update timers i t j) := by
  by_cases hj : j = i
  · subst hj
    rw [Function.update_self]
    exact h
  · rw [Function.update_of_ne hj]
    exact .refl _

theorem wake_eq (status : CvStatus) (s : TimerMgr) :
    ∃ pc, wake status s = { s with pc := pc } ∧ pc.held = s.pc.held ∧
      pc.executing = s.pc.executing := by
  unfold wake
  split
  case h_1 wakeAt hpc => exact ⟨_, rfl, by rw [hpc]; rfl, by rw [hpc]; rfl⟩
  case h_2 tmp wakeAt hpc => exact ⟨_, rfl, by rw [hpc]; rfl, by rw [hpc]; rfl⟩
  case h_3 => exact ⟨s.pc, rfl, rfl, rfl⟩

/-- The end of an execution changes nothing of the timers but the start time. -/
theorem finish_timer (tmp : Nat) (s : TimerMgr) (i : Nat) :
    ((finish tmp s).timers i).mTimerType = (s.timers i).mTimerType ∧
      ((finish tmp s).timers i).mLastTime = (s.timers i).mLastTime ∧
      ((finish tmp s).timers i).mCallback = (s.timers i).mCallback := by
  show (Function.update s.timers tmp _ i).mTimerType = _ ∧
    (Function.update s.timers tmp _ i).mLastTime = _ ∧
    (Function.update s.timers tmp _ i).mCallback = _
  by_cases hi : i = tmp
  · subst hi
    rw [Function.update_self]
    unfold Timer.afterCallback
    split <;> exact ⟨rfl, rfl, rfl⟩
  · rw [Function.update_of_ne hi]
    exact ⟨rfl, rfl, rfl⟩

/-! ## The kinds of steps -/

/-- A step that leaves the queue alone. -/
structure Quiet (s s' : TimerMgr) : Prop where
  mTimers : s'.mTimers = s.mTimers
  pops : s'.pops = s.pops
  timers : ∀ i, (s.producer i).Added → (s.timers i).Alike (s'.timers i)
  added : ∀ i, (s'.producer i).Added ↔ (s.producer i).Added
  held : s'.pc.held = none ∨ s'.pc.held = s.pc.held
  executing : s'.pc.executing = s.pc.executing
  execs : s'.execs = s.execs
  now : s.now ≤ s'.now

theorem Quiet.of_pc {s : TimerMgr} {pc : Pc} (hheld : pc.held = none ∨ pc.held = s.pc.held)
    (hexecuting : pc.executing = s.pc.executing) : Quiet s { s with pc := pc } where
  mTimers := rfl
  pops := rfl
  timers := fun _ _ => .refl _
  added := fun _ => .rfl
  held := hheld
  executing := hexecuting
  execs := rfl
  now := Int.le_refl _

/-- A producer that has pushed its timer goes on. -/
theorem added_update {producer : Nat → Producer} {i : Nat} {p : Producer}
    (hold : (producer i).Added) (hnew : p.Added) (j : Nat) :
    (Function.update producer i p j).Added ↔ (producer j).Added := by
  by_cases hj : j = i
  · subst hj
    rw [Function.update_self]
    exact iff_of_true hnew hold
  · rw [Function.update_of_ne hj]

theorem quiet_mark {s : TimerMgr} {i : Nat} (h : s.producer i = .pushed) : Quiet s (mark i s) where
  mTimers := rfl
  pops := rfl
  timers := fun _ _ => .refl _
  added := added_update (by rw [h]; trivial) trivial
  held := .inr rfl
  executing := rfl
  execs := rfl
  now := Int.le_refl _

theorem quiet_notify {s : TimerMgr} {i : Nat} (h : s.producer i = .marked) :
    Quiet s (notify i s) := by
  obtain ⟨pc, heq, hheld, hexecuting⟩ := wake_eq .noTimeout { s with
    notified := i :: s.notified
    producer := Function.update s.producer i .notified }
  rw [notify, heq]
  exact ⟨rfl, rfl, fun _ _ => .refl _, added_update (by rw [h]; trivial) trivial, .inr hheld,
    hexecuting, rfl, Int.le_refl _⟩

theorem quiet_close (s : TimerMgr) : Quiet s (close s) := by
  obtain ⟨pc, heq, hheld, hexecuting⟩ :=
    wake_eq .noTimeout { s with timerRun := false, timerWakeupState := .addTimer }
  rw [close, heq]
  exact ⟨rfl, rfl, fun _ _ => .refl _, fun _ => .rfl, .inr hheld, hexecuting, rfl,
    Int.le_refl _⟩

/-- The timers that have been made are those below the count. -/
def Fresh (s : TimerMgr) : Prop := ∀ i, s.count ≤ i → s.producer i = .absent

theorem ne_count_of_added {s : TimerMgr} (hfresh : Fresh s) {i : Nat}
    (hi : (s.producer i).Added) : i ≠ s.count := by
  rintro rfl
  rw [hfresh s.count (Nat.le_refl _)] at hi
  exact hi

theorem quiet_construct {s : TimerMgr} (h : Fresh s) (t : Timer) : Quiet s (construct t s) := by
  have hnew : s.producer s.count = .absent := h s.count (Nat.le_refl _)
  refine ⟨rfl, rfl, fun i hi => ?_, fun i => ?_, .inr rfl, rfl, rfl, Int.le_refl _⟩
  · show (s.timers i).Alike (Function.update s.timers s.count t i)
    rw [Function.update_of_ne (ne_count_of_added h hi)]
    exact .refl _
  · show (Function.update s.producer s.count .constructed i).Added ↔ (s.producer i).Added
    by_cases hi : i = s.count
    · subst hi
      rw [Function.update_self, hnew]
      exact .rfl
    · rw [Function.update_of_ne hi]

theorem quiet_getLeftTime {s : TimerMgr} {tmp : Nat} {pc : Pc} (hpc : s.pc.held = some tmp)
    (hheld : pc.held = some tmp) (hexecuting : pc.executing = s.pc.executing) :
    Quiet s { s with
      timers := Function.update s.timers tmp ((s.timers tmp).getLeftTime s.now).2
      leftTimeAt := s.now
      pc := pc } :=
  ⟨rfl, rfl, fun j _ => alike_update (Timer.alike_getLeftTime s.now _) j, fun _ => .rfl,
    .inr (hheld.trans hpc.symm), hexecuting, rfl, Int.le_refl _⟩

/-- What a step of the schedule thread is to the queue. -/
theorem sched_cases {s s' : TimerMgr} (h : sched s = some s') :
    Quiet s s' ∨
    (∃ tmp, s.pc = .readTop ∧ s.mTimers[0]? = some tmp ∧
      s' = { s with pc := .getLeftTime tmp, notified := [] }) ∨
    (∃ tmp top, s.pc = .pop tmp ∧ s.mTimers[0]? = some top ∧ s' = popStep tmp top s) ∨
    (∃ tmp called, s.pc = .running tmp called ∧ s' = runningStep tmp s) := by
  cases goes_of_sched h with
  | readTop tmp hpc htop => exact .inr (.inl ⟨tmp, hpc, htop, rfl⟩)
  | pop tmp top hpc htop => exact .inr (.inr (.inl ⟨tmp, top, hpc, htop, rfl⟩))
  | requeue tmp called hpc hloop => exact .inr (.inr (.inr ⟨tmp, called, hpc, (if_pos hloop).symm⟩))
  | finished tmp called hpc hnone =>
    exact .inr (.inr (.inr ⟨tmp, called, hpc, (if_neg hnone).symm⟩))
  | left tmp hpc | expired tmp hpc =>
    exact .inl (quiet_getLeftTime (by rw [hpc]; rfl) rfl (by rw [hpc]; rfl))
  | schedule hpc | empty hpc | nonempty hpc | overwrite hpc =>
    exact .inl ⟨rfl, rfl, fun _ _ => .refl _, fun _ => .rfl, .inl rfl, by rw [hpc]; rfl, rfl,
      Int.le_refl _⟩
  | waitTop tmp timerWait hpc | unmarked tmp status hpc | runAgain tmp hpc =>
    exact .inl (.of_pc (.inr (by rw [hpc]; rfl)) (by rw [hpc]; rfl))
  | again hpc | leave hpc | lock hpc | waitEmpty hpc | run hpc | leaveRun hpc | stillEmpty hpc
  | filled hpc | marked tmp status hpc | leaveRunAgain tmp hpc =>
    exact .inl (.of_pc (.inl rfl) (by rw [hpc]; rfl))

/-! ## Numbers of timers -/

theorem fresh_update {s : TimerMgr} {i : Nat} (h : Fresh s) (hi : s.producer i ≠ .absent)
    (p : Producer) (j : Nat) (hj : s.count ≤ j) :
    Function.update s.producer i p j = .absent := by
  have hne : j ≠ i := fun heq => hi (heq ▸ h j hj)
  rw [Function.update_of_ne hne]
  exact h j hj

theorem fresh_construct {s : TimerMgr} (h : Fresh s) (t : Timer) : Fresh (construct t s) := by
  intro j hj
  have hj' : s.count + 1 ≤ j := hj
  show Function.update s.producer s.count .constructed j = .absent
  rw [Function.update_of_ne (by omega)]
  exact h j (by omega)

theorem fresh_wake {s : TimerMgr} (h : Fresh s) (status : CvStatus) : Fresh (wake status s) := by
  obtain ⟨pc, heq, -, -⟩ := wake_eq status s
  rw [heq]
  exact h

theorem fresh_push {s : TimerMgr} {i : Nat} (h : Fresh s) (hi : s.producer i = .constructed) :
    Fresh (push i s) := fresh_update h (by rw [hi]; decide) .pushed

theorem fresh_mark {s : TimerMgr} {i : Nat} (h : Fresh s) (hi : s.producer i = .pushed) :
    Fresh (mark i s) := fresh_update h (by rw [hi]; decide) .marked

theorem fresh_notify {s : TimerMgr} {i : Nat} (h : Fresh s) (hi : s.producer i = .marked) :
    Fresh (notify i s) :=
  fresh_wake (s := { s with
    notified := i :: s.notified
    producer := Function.update s.producer i .notified })
    (fresh_update h (by rw [hi]; decide) .notified) .noTimeout

/-- The four steps of a call that adds a timer. -/
theorem producer_construct (s : TimerMgr) (t : Timer) :
    (construct t s).producer s.count = .constructed := Function.update_self ..

theorem producer_push (s : TimerMgr) (i : Nat) : (push i s).producer i = .pushed :=
  Function.update_self ..

theorem producer_mark (s : TimerMgr) (i : Nat) : (mark i s).producer i = .marked :=
  Function.update_self ..

theorem fresh_addInCallback {s : TimerMgr} (h : Fresh s) (t : Timer) :
    Fresh (addInCallback t s) :=
  fresh_notify
    (fresh_mark (fresh_push (fresh_construct h t) (producer_construct s t)) (producer_push ..))
    (producer_mark ..)

theorem fresh_sched {s s' : TimerMgr} (h : Fresh s) (hs : sched s = some s') : Fresh s' := by
  have hsame : s'.count = s.count ∧ s'.producer = s.producer := by
    cases goes_of_sched hs <;> exact ⟨rfl, rfl⟩
  intro i hi
  rw [hsame.1] at hi
  rw [hsame.2]
  exact h i hi

theorem quiet_cancel (s : TimerMgr) (i : Nat) :
    Quiet s { s with timers := Function.update s.timers i (s.timers i).cancel } :=
  ⟨rfl, rfl, fun j _ => alike_update (Timer.alike_cancel _) j, fun _ => .rfl, .inr rfl, rfl, rfl,
    Int.le_refl _⟩

/-! ## Invariants of the queue -/

/-- What any step is to the queue: a push by a producer or from a callback, a look at the top, a
pop, the end of an execution with its push, or nothing. -/
theorem step_cases {s s' : TimerMgr} {a : Action} (hfresh : Fresh s) (hstep : step s a = some s') :
    Quiet s s' ∨
    (∃ i, s.producer i = .constructed ∧ s' = push i s) ∨
    (∃ tmp t, s.pc = .running tmp true ∧ s' = addInCallback t s) ∨
    (∃ tmp, s.pc = .readTop ∧ s.mTimers[0]? = some tmp ∧
      s' = { s with pc := .getLeftTime tmp, notified := [] }) ∨
    (∃ tmp top, a = .sched ∧ s.pc = .pop tmp ∧ s.mTimers[0]? = some top ∧
      s' = popStep tmp top s) ∨
    (∃ tmp called, s.pc = .running tmp called ∧ s' = runningStep tmp s) := by
  cases does_of_step hstep with
  | addTimer timeout | addTimerLoop delayseconds timeout => exact .inl (quiet_construct hfresh _)
  | push i hi => exact .inr (.inl ⟨i, hi, rfl⟩)
  | mark i hi => exact .inl (quiet_mark hi)
  | notify i hi => exact .inl (quiet_notify hi)
  | callbackAddTimer timeout tmp hpc | callbackAddTimerLoop delayseconds timeout tmp hpc =>
    exact .inr (.inr (.inl ⟨tmp, _, hpc, rfl⟩))
  | cancel i => exact .inl (quiet_cancel s i)
  | close => exact .inl (quiet_close s)
  | sched hs =>
    rcases sched_cases hs with hquiet | ⟨tmp, hpc, htop, rfl⟩ | ⟨tmp, top, hpc, htop, rfl⟩ |
      ⟨tmp, called, hpc, rfl⟩
    · exact .inl hquiet
    · exact .inr (.inr (.inr (.inl ⟨tmp, hpc, htop, rfl⟩)))
    · exact .inr (.inr (.inr (.inr (.inl ⟨tmp, top, rfl, hpc, htop, rfl⟩))))
    · exact .inr (.inr (.inr (.inr (.inr ⟨tmp, called, hpc, rfl⟩))))
  | timeoutEmpty wakeAt hpc => exact .inl (.of_pc (.inl rfl) (by rw [hpc]; rfl))
  | timeoutTop tmp wakeAt hpc => exact .inl (.of_pc (.inr (by rw [hpc]; rfl)) (by rw [hpc]; rfl))
  | tick d =>
    exact .inl ⟨rfl, rfl, fun _ _ => .refl _, fun _ => .rfl, .inr rfl, rfl, rfl,
      Int.le_add_of_nonneg_right (Int.natCast_nonneg d)⟩

section

variable {I : TimerMgr → Prop} {G : TimerMgr → Action → Prop}

/-- A statement that survives the five kinds of steps survives every step. -/
theorem invariant_step
    (quiet : ∀ s s', I s → Quiet s s' → I s')
    (push : ∀ s i, I s → s.producer i = .constructed → I (push i s))
    (look : ∀ s tmp, I s → s.pc = .readTop → s.mTimers[0]? = some tmp →
      I { s with pc := .getLeftTime tmp, notified := [] })
    (pop : ∀ s tmp top, I s → G s .sched → s.pc = .pop tmp → s.mTimers[0]? = some top →
      I (popStep tmp top s))
    (running : ∀ s tmp called, I s → s.pc = .running tmp called → I (runningStep tmp s))
    {s s' : TimerMgr} {a : Action} (hfresh : Fresh s) (hI : I s) (hG : G s a)
    (hstep : step s a = some s') : I s' := by
  rcases step_cases hfresh hstep with hquiet | ⟨i, hi, rfl⟩ | ⟨tmp, t, -, rfl⟩ |
    ⟨tmp, hpc, htop, rfl⟩ | ⟨tmp, top, rfl, hpc, htop, rfl⟩ | ⟨tmp, called, hpc, rfl⟩
  · exact quiet _ _ hI hquiet
  · exact push s i hI hi
  · have hmade : I (construct t s) := quiet _ _ hI (quiet_construct hfresh t)
    have hpushed := push _ s.count hmade (producer_construct s t)
    have hmarked := quiet _ _ hpushed (quiet_mark (producer_push _ _))
    exact quiet _ _ hmarked (quiet_notify (producer_mark _ _))
  · exact look s tmp hI hpc htop
  · exact pop s tmp top hI hG hpc htop
  · exact running s tmp called hI hpc

end

theorem fresh_step {s s' : TimerMgr} {a : Action} (h : Fresh s) (hstep : step s a = some s') :
    Fresh s' := by
  cases does_of_step hstep with
  | addTimer timeout | addTimerLoop delayseconds timeout => exact fresh_construct h _
  | push i hi => exact fresh_push h hi
  | mark i hi => exact fresh_mark h hi
  | notify i hi => exact fresh_notify h hi
  | callbackAddTimer timeout | callbackAddTimerLoop delayseconds timeout =>
    exact fresh_addInCallback h _
  | close => exact fresh_wake (s := { s with timerRun := false, timerWakeupState := .addTimer }) h _
  | sched hs => exact fresh_sched h hs
  | cancel | timeoutEmpty | timeoutTop | tick => exact h

/-! ## Whose timers are in the queue -/

/-- Only timers that have been added are in the queue or being executed, and the timer that the
schedule thread has read is still in the queue. -/
structure Wf (s : TimerMgr) : Prop where
  queued : ∀ i ∈ s.mTimers, (s.producer i).Added
  held : ∀ tmp, s.pc.held = some tmp → tmp ∈ s.mTimers
  executing : ∀ tmp, s.pc.executing = some tmp → (s.producer tmp).Added

theorem wf_initial (now : Int) : Wf (initial now) where
  queued := fun i hi => absurd hi (by simp [initial])
  held := fun tmp h => by cases h
  executing := fun tmp h => by cases h

theorem Wf.added_of_held {s : TimerMgr} (h : Wf s) {tmp : Nat} (hheld : s.pc.held = some tmp) :
    (s.producer tmp).Added := h.queued tmp (h.held tmp hheld)

theorem wf_quiet {s s' : TimerMgr} (h : Wf s) (hq : Quiet s s') : Wf s' where
  queued := fun i hi => (hq.added i).mpr (h.queued i (hq.mTimers ▸ hi))
  held := by
    intro tmp htmp
    rw [hq.mTimers]
    rcases hq.held with hnone | hsame
    · rw [hnone] at htmp
      cases htmp
    · exact h.held tmp (hsame ▸ htmp)
  executing := fun tmp htmp => (hq.added tmp).mpr (h.executing tmp (hq.executing ▸ htmp))

/-- A producer that has made its timer pushes it. -/
theorem added_push (s : TimerMgr) (i j : Nat) :
    ((push i s).producer j).Added ↔ j = i ∨ (s.producer j).Added := by
  show (Function.update s.producer i .pushed j).Added ↔ _
  by_cases hj : j = i
  · subst hj
    rw [Function.update_self]
    exact iff_of_true trivial (.inl rfl)
  · rw [Function.update_of_ne hj]
    exact (or_iff_right hj).symm

theorem wf_push {s : TimerMgr} (h : Wf s) (i : Nat) : Wf (push i s) where
  queued := by
    intro j hj
    rw [added_push]
    rcases BinaryHeap.mem_push.mp hj with rfl | hold
    · exact .inl rfl
    · exact .inr (h.queued j hold)
  held := fun tmp htmp => BinaryHeap.mem_push.mpr (.inr (h.held tmp htmp))
  executing := fun tmp htmp => (added_push s i tmp).mpr (.inr (h.executing tmp htmp))

theorem wf_look {s : TimerMgr} {tmp : Nat} (h : Wf s) (htop : s.mTimers[0]? = some tmp) :
    Wf { s with pc := .getLeftTime tmp, notified := [] } where
  queued := h.queued
  held := by
    rintro _ ⟨⟩
    exact Array.mem_of_getElem? htop
  executing := fun _ h => by cases h

theorem wf_pop {s : TimerMgr} {tmp top : Nat} (h : Wf s) (hpc : s.pc = .pop tmp)
    (htop : s.mTimers[0]? = some top) : Wf (popStep tmp top s) where
  queued := fun i hi => h.queued i (BinaryHeap.mem_of_mem_pop htop hi)
  held := fun _ h => by cases h
  executing := by
    rintro _ ⟨⟩
    exact h.added_of_held (by rw [hpc]; rfl)

theorem wf_finish {s : TimerMgr} (h : Wf s) (tmp : Nat) : Wf (finish tmp s) where
  queued := h.queued
  held := fun _ h => by cases h
  executing := fun _ h => by cases h

theorem wf_running {s : TimerMgr} {tmp : Nat} {called : Bool} (h : Wf s)
    (hpc : s.pc = .running tmp called) : Wf (runningStep tmp s) := by
  unfold runningStep
  split
  case isTrue =>
    refine { wf_finish h tmp with queued := ?_, held := fun _ h => by cases h }
    intro j hj
    rcases BinaryHeap.mem_push.mp hj with rfl | hold
    · exact h.executing j (by rw [hpc]; rfl)
    · exact h.queued j hold
  case isFalse => exact wf_finish h tmp

theorem wf_step {s s' : TimerMgr} {a : Action} (hfresh : Fresh s) (h : Wf s)
    (hstep : step s a = some s') : Wf s' :=
  invariant_step (G := fun _ _ => True) (fun _ _ => wf_quiet) (fun _ i h _ => wf_push h i)
    (fun _ _ h _ => wf_look h) (fun _ _ _ h _ => wf_pop h) (fun _ _ _ => wf_running) hfresh h
    trivial hstep

/-! ## The order of the queue -/

/-- No loop timer is executed while a timer strictly before it is in the queue. -/
def LoopInOrder (s : TimerMgr) (a : Action) : Prop :=
  a = .sched → ∀ tmp, s.pc = .pop tmp → (s.timers tmp).mTimerType = .loop →
    ∀ i ∈ s.mTimers, s.due tmp ≤ s.due i

instance (s : TimerMgr) (a : Action) : Decidable (LoopInOrder s a) :=
  decidable_of_iff (a = .sched → ∀ tmp ∈ s.pc.popping, (s.timers tmp).mTimerType = .loop →
    ∀ i ∈ s.mTimers, s.due tmp ≤ s.due i)
    (by simp only [Option.mem_def, Pc.popping_eq, LoopInOrder])

/-- The queue is a heap by the times at which the timers are due, with no timer in it twice. The
timer that the schedule thread holds is on top unless one that is due earlier has been pushed since,
and a loop timer is out of the queue while it is executed. -/
structure Ordered (s : TimerMgr) : Prop extends Wf s where
  heap : BinaryHeap.IsHeap s.due s.mTimers
  nodup : s.mTimers.toList.Nodup
  top : ∀ tmp, s.pc.held = some tmp →
    s.mTimers[0]? = some tmp ∨ ∃ i ∈ s.mTimers, s.due i < s.due tmp
  -- a loop timer is out of the queue while it is executed
  out : ∀ tmp, s.pc.executing = some tmp → (s.timers tmp).mTimerType = .loop → tmp ∉ s.mTimers

theorem ordered_initial (now : Int) : Ordered (initial now) where
  toWf := wf_initial now
  heap := fun j _ x y _ hy => by cases hy
  nodup := List.nodup_nil
  top := fun _ h => by cases h
  out := fun _ h => by cases h

/-- The timer held is what `pop()` removes if and only if nothing in the queue is strictly
before it. -/
theorem Ordered.top_iff {s : TimerMgr} (h : Ordered s) {tmp : Nat}
    (hheld : s.pc.held = some tmp) :
    s.mTimers[0]? = some tmp ↔ ∀ i ∈ s.mTimers, s.due tmp ≤ s.due i := by
  constructor
  · intro htop i hi
    exact BinaryHeap.top_le h.heap htop hi
  · intro hle
    rcases h.top tmp hheld with htop | ⟨i, hi, hlt⟩
    · exact htop
    · exact absurd hlt (not_lt.mpr (hle i hi))

/-- The steps that leave the queue and the times of its timers alone leave the order alone. -/
theorem ordered_quiet {s s' : TimerMgr} (h : Ordered s) (hq : Quiet s s') : Ordered s' := by
  have hwf := wf_quiet h.toWf hq
  have hdue : ∀ i ∈ s.mTimers, s'.due i = s.due i := fun i hi => (hq.timers i (h.queued i hi)).due
  refine { hwf with heap := ?_, nodup := ?_, top := ?_, out := ?_ }
  · rw [hq.mTimers]
    exact BinaryHeap.isHeap_congr (fun i hi => (hdue i hi).symm) h.heap
  · rw [hq.mTimers]
    exact h.nodup
  · intro tmp htmp
    rw [hq.mTimers]
    rcases hq.held with hnone | hsame
    · rw [hnone] at htmp
      cases htmp
    · rw [hsame] at htmp
      have hmem := h.held tmp htmp
      refine (h.top tmp htmp).imp_right fun ⟨i, hi, hlt⟩ => ⟨i, hi, ?_⟩
      rwa [hdue i hi, hdue tmp hmem]
  · intro tmp htmp htype
    rw [hq.executing] at htmp
    rw [(hq.timers tmp (h.executing tmp htmp)).mTimerType] at htype
    rw [hq.mTimers]
    exact h.out tmp htmp htype

theorem ordered_push {s : TimerMgr} {i : Nat} (h : Ordered s) (hi : s.producer i = .constructed) :
    Ordered (push i s) := by
  have hnot : ¬ (s.producer i).Added := by
    rw [hi]
    exact id
  have hout : i ∉ s.mTimers := fun hmem => hnot (h.queued i hmem)
  refine { wf_push h.toWf i with heap := ?_, nodup := ?_, top := ?_, out := ?_ }
  · exact BinaryHeap.isHeap_push h.heap i
  · apply (BinaryHeap.push_perm s.due s.mTimers i).nodup_iff.mpr
    exact List.nodup_cons.mpr ⟨fun hmem => hout (Array.mem_toList_iff.mp hmem), h.nodup⟩
  · intro tmp htmp
    show (BinaryHeap.push s.due s.mTimers i)[0]? = _ ∨ ∃ j ∈ BinaryHeap.push s.due s.mTimers i, _
    rcases h.top tmp htmp with htop | ⟨j, hj, hlt⟩
    · -- a new top is strictly before the old one
      refine (BinaryHeap.top_push i htop).imp_right fun ⟨_, hlt⟩ => ⟨i, ?_, hlt⟩
      exact BinaryHeap.mem_push.mpr (.inl rfl)
    · exact .inr ⟨j, BinaryHeap.mem_push.mpr (.inr hj), hlt⟩
  · intro tmp htmp htype hmem
    rcases BinaryHeap.mem_push.mp hmem with rfl | hold
    · exact hnot (h.executing tmp htmp)
    · exact h.out tmp htmp htype hold

theorem ordered_look {s : TimerMgr} {tmp : Nat} (h : Ordered s)
    (htop : s.mTimers[0]? = some tmp) :
    Ordered { s with pc := .getLeftTime tmp, notified := [] } := by
  refine { wf_look h.toWf htop with heap := h.heap, nodup := h.nodup, top := ?_, out := ?_ }
  · rintro _ ⟨⟩
    exact .inl htop
  · rintro _ ⟨⟩

theorem due_popStep (tmp top : Nat) (s : TimerMgr) : (popStep tmp top s).due = s.due := by
  funext i
  show (Function.update s.timers tmp (s.timers tmp).beforeCallback i).due = _
  by_cases hi : i = tmp
  · subst hi
    rw [Function.update_self, (Timer.alike_beforeCallback _).due]
    rfl
  · rw [Function.update_of_ne hi]
    rfl

theorem ordered_pop {s : TimerMgr} {tmp top : Nat} (h : Ordered s)
    (hG : LoopInOrder s .sched) (hpc : s.pc = .pop tmp) (htop : s.mTimers[0]? = some top) :
    Ordered (popStep tmp top s) := by
  have hperm := BinaryHeap.pop_perm s.due htop
  have hnodup := hperm.nodup_iff.mp h.nodup
  refine { wf_pop h.toWf hpc htop with heap := ?_, nodup := ?_, top := ?_, out := ?_ }
  · rw [due_popStep]
    exact BinaryHeap.isHeap_pop h.heap
  · exact (List.nodup_cons.mp hnodup).2
  · rintro _ ⟨⟩
  · rintro _ ⟨⟩ htype
    have htype' : (s.timers tmp).mTimerType = .loop := by
      have hsame : (popStep tmp top s).timers tmp = (s.timers tmp).beforeCallback :=
        Function.update_self ..
      rw [hsame, (Timer.alike_beforeCallback _).mTimerType] at htype
      exact htype
    -- nothing is before the loop timer, so it is the one that was removed
    have htmp := (h.top_iff (by rw [hpc]; rfl)).mpr (hG rfl tmp hpc htype')
    obtain rfl : top = tmp := Option.some.inj (htop.symm.trans htmp)
    exact fun hmem => (List.nodup_cons.mp hnodup).1 (Array.mem_toList_iff.mpr hmem)

/-- The time of a one-shot timer does not change, and a loop timer is out of the queue. -/
theorem due_finish {s : TimerMgr} {tmp : Nat} (h : Ordered s) (hexec : s.pc.executing = some tmp) :
    ∀ i ∈ s.mTimers, (finish tmp s).due i = s.due i := by
  intro i hi
  show (Function.update s.timers tmp ((s.timers tmp).afterCallback s.now) i).due = _
  by_cases heq : i = tmp
  · subst heq
    rw [Function.update_self]
    have honce : (s.timers i).mTimerType = .once := by
      cases htype : (s.timers i).mTimerType with
      | once => rfl
      | loop => exact absurd hi (h.out i hexec htype)
    rw [Timer.afterCallback, honce]
    rfl
  · rw [Function.update_of_ne heq]
    rfl

theorem ordered_finish {s : TimerMgr} {tmp : Nat} (h : Ordered s)
    (hexec : s.pc.executing = some tmp) : Ordered (finish tmp s) := by
  refine { wf_finish h.toWf tmp with heap := ?_, nodup := h.nodup, top := ?_, out := ?_ }
  · exact BinaryHeap.isHeap_congr (fun i hi => (due_finish h hexec i hi).symm) h.heap
  · rintro _ ⟨⟩
  · rintro _ ⟨⟩

theorem ordered_running {s : TimerMgr} {tmp : Nat} {called : Bool} (h : Ordered s)
    (hpc : s.pc = .running tmp called) : Ordered (runningStep tmp s) := by
  have hexec : s.pc.executing = some tmp := by rw [hpc]; rfl
  have hfinish := ordered_finish h hexec
  have hwf := wf_running h.toWf hpc
  revert hwf
  unfold runningStep
  split
  case isTrue hloop =>
    intro hwf
    have hout : tmp ∉ s.mTimers := h.out tmp hexec hloop.1
    refine { hwf with heap := ?_, nodup := ?_, top := ?_, out := ?_ }
    · exact BinaryHeap.isHeap_push hfinish.heap tmp
    · apply (BinaryHeap.push_perm (finish tmp s).due s.mTimers tmp).nodup_iff.mpr
      exact List.nodup_cons.mpr ⟨fun hmem => hout (Array.mem_toList_iff.mp hmem), h.nodup⟩
    · rintro _ ⟨⟩
    · rintro _ ⟨⟩
  case isFalse => exact fun _ => hfinish

theorem ordered_step {s s' : TimerMgr} {a : Action} (hfresh : Fresh s) (h : Ordered s)
    (hG : LoopInOrder s a) (hstep : step s a = some s') : Ordered s' :=
  invariant_step (G := LoopInOrder) (fun _ _ => ordered_quiet) (fun _ _ => ordered_push)
    (fun _ _ h _ => ordered_look h) (fun _ _ _ => ordered_pop) (fun _ _ _ => ordered_running)
    hfresh h hG hstep

end TimerMgr

end PssClient
