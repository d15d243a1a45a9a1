import PssClient.Lib.Run
import PssClient.Tms.TimerSteps

/-!
# A cancelled timer stays silent

`Timer::cancel` takes the callback away under the once flag. The schedule thread can be past it: a
one-shot timer has moved its callback out under the same flag and puts the message later, and a loop
timer tests `mCallback` and then calls it without the flag.

* `Clear` — the condition: a loop timer is not cancelled between the test and the call, and
  `Close_Timer` does not return between the call and its `Put`.
* `Quiet` — a timer without a callback, that the schedule thread is not past the test of; it stays
  so.
* `Silenced` — the invariant: the timers that `Close_Timer` has returned true for are quiet.
* `silent_of_clear` — the result. `cancelled_not_silent` has a run for either half of the condition.
-/

namespace PssClient

open Machine

/-- No empty callback is called, and no message of a timer is put after `Close_Timer` has returned
true for it. -/
def Silent (trace : List TimerEvent) : Prop :=
  (∀ c, .empty c ∉ trace) ∧
    trace.Pairwise fun earlier later => ∀ c logicId, earlier = .closed c → later ≠ .put logicId c

/-- An event that is no empty call, and no message of a closed timer. -/
theorem silent_concat {trace : List TimerEvent} {event : TimerEvent} (h : Silent trace)
    (hempty : ∀ c, event ≠ .empty c)
    (hput : ∀ logicId c, event = .put logicId c → .closed c ∉ trace) :
    Silent (trace ++ [event]) := by
  refine ⟨fun c hc => ?_, List.pairwise_append.mpr ⟨h.2, List.pairwise_singleton _ _, ?_⟩⟩
  · rcases List.mem_append.mp hc with hold | hnew
    · exact h.1 c hold
    · exact hempty c (List.mem_singleton.mp hnew).symm
  · intro earlier hearlier later hlater c logicId hclosed heq
    rw [List.mem_singleton] at hlater
    exact hput logicId c (hlater ▸ heq) (hclosed ▸ hearlier)

namespace TimerService

/-- The schedule thread is not between the test of the callback that is taken away and its call,
and not between a call and the `Put` when `Close_Timer` returns. -/
def Clear (s : TimerService) : Action → Prop
  | .close =>
    match s.closer with
    | .cancel _ _ c => s.schedule ≠ .calling c
    | .erase _ _ c => s.schedule ≠ .putting c
    | _ => True
  | _ => True

instance (s : TimerService) (a : Action) : Decidable (Clear s a) := by
  unfold Clear
  split
  · split
    all_goals infer_instance
  · infer_instance

/-- The callback has been taken away and will not be called any more. -/
structure Cancelled (s : TimerService) (c : Nat) : Prop where
  made : s.Made c
  callback : ¬ s.Armed c
  calling : s.schedule ≠ .calling c

structure Quiet (s : TimerService) (c : Nat) : Prop extends Cancelled s c where
  putting : s.schedule ≠ .putting c

theorem Effect.not_armed {s s' : TimerService} {a : Action} (h : Effect s a s') {c : Nat}
    (hmade : s.Made c) (hc : ¬ s.Armed c) : ¬ s'.Armed c := by
  rintro ⟨timer', htimer', hcallback'⟩
  obtain ⟨timer, htimer, hkeep⟩ := h.timers c hmade timer' htimer'
  have hcallback : timer.mCallback ≠ false := by
    intro hfalse
    rw [hkeep hfalse] at hcallback'
    cases hcallback'
  exact hc ⟨timer, htimer, Bool.eq_true_of_not_eq_false hcallback⟩

theorem cancelled_next {s s' : TimerService} {a : Action} (heffect : Effect s a s') {c : Nat}
    (h : Cancelled s c) : Cancelled s' c where
  made := heffect.made h.made
  callback := heffect.not_armed h.made h.callback
  calling hc := (heffect.calling c hc).elim h.calling h.callback

theorem quiet_next {s s' : TimerService} {a : Action} (heffect : Effect s a s') {c : Nat}
    (h : Quiet s c) : Quiet s' c where
  toCancelled := cancelled_next heffect h.toCancelled
  putting hc := (heffect.putting c hc).elim h.putting h.callback

/-- The invariant of the clear runs. A call that has been closed has no callback any more, nor has
the one that `Close_Timer` is about to erase; and a callback that the schedule thread has tested has
not been taken away since. -/
structure Silenced (s : TimerService) : Prop extends WellFormed s where
  silent : Silent s.trace
  closed : ∀ c, .closed c ∈ s.trace → s.Quiet c
  -- `Close_Timer` is past `cancel`
  erase : ∀ timerId returners c, s.closer = .erase timerId returners c → s.Cancelled c
  -- a callback that has been tested is still there
  calling : ∀ c, s.schedule = .calling c → s.Armed c

theorem silenced_initial (mapLogicList : Nat → Bool) : Silenced (initial mapLogicList) where
  toWellFormed := wellFormed_initial mapLogicList
  silent := ⟨fun _ => List.not_mem_nil, .nil⟩
  closed _ hc := absurd hc List.not_mem_nil
  erase := nofun
  calling := nofun

/-- A timer that does not exist is not executed. -/
theorem not_executing {s : TimerService} (h : WellFormed s) {c : Nat} (hc : s.timers c = none) :
    s.schedule.executing ≠ some c := by
  intro hexecuting
  obtain ⟨timer, htimer⟩ := h.executing c hexecuting
  rw [hc] at htimer
  cases htimer

/-- A timer that `Close_Timer` has found, and that has gone away. -/
theorem quiet_of_none {s : TimerService} (h : WellFormed s) {c : Nat} (hmade : s.Made c)
    (hc : s.timers c = none) : Quiet s c where
  made := hmade
  callback := by
    rintro ⟨timer, htimer, -⟩
    rw [hc] at htimer
    cases htimer
  calling hcalling := not_executing h hc (by rw [hcalling]; rfl)
  putting hputting := not_executing h hc (by rw [hputting]; rfl)

/-- `Close_Timer` comes past `cancel`. -/
theorem cancelled_of_close {s s' : TimerService} (h : Silenced s) (hclear : Clear s .close)
    (hs : close s = some s') {timerId : Int} {returners : List Nat} {c : Nat}
    (herase : s'.closer = .erase timerId returners c) : Cancelled s' c := by
  have hcloses := closes_of_close hs
  have heffect : Effect s .close s' := effect_of_closes hcloses
  have hmade : ∀ {timerId returners d}, s.closer.target = some (timerId, returners, d) → s.Made d :=
    fun htarget => (h.target _ _ _ htarget).made
  cases hcloses with
  | lockNull timerId' returners' d hpc hnone =>
    cases herase
    have hquiet := quiet_of_none h.toWellFormed (hmade (by rw [hpc]; rfl)) hnone
    exact cancelled_next heffect hquiet.toCancelled
  | cancel timerId' returners' d timer hpc htimer =>
    cases herase
    simp only [Clear, hpc] at hclear
    refine ⟨heffect.made (hmade (by rw [hpc]; rfl)), ?_, hclear⟩
    rintro ⟨timer', htimer', hcallback'⟩
    have hself : Function.update s.timers c (some timer.cancel) c = some timer' := htimer'
    rw [Function.update_self] at hself
    -- with the flag set before, the callback had gone before
    rw [← Option.some.inj hself, Timer.flag_cancel (h.flag c timer htimer)] at hcallback'
    cases hcallback'
  | alive | expired | lock | erase => cases herase

/-- A timer that `Close_Timer` returns true for. -/
theorem quiet_of_closed {s : TimerService} {a : Action} (h : Silenced s) (hclear : Clear s a)
    {c : Nat} (hcause : (TimerEvent.closed c).Cause s a) : Quiet s c := by
  obtain ⟨rfl, ⟨timerId, returners, herase⟩ | ⟨⟨timerId, returners, hexpired⟩, hnone⟩⟩ := hcause
  · simp only [Clear, herase] at hclear
    exact ⟨h.erase timerId returners c herase, hclear⟩
  · have hmade : s.Made c := (h.target timerId returners c (by rw [hexpired]; rfl)).made
    exact quiet_of_none h.toWellFormed hmade hnone

/-- A step of a clear run. `Close_Timer` takes the callback away and only then records that it is
closed, and by the condition it does not do so between the test of a callback and its call. -/
theorem silenced_step {s s' : TimerService} {a : Action} (h : Silenced s) (hclear : Clear s a)
    (hs : step s a = some s') : Silenced s' := by
  have heffect : Effect s a s' := effect_of_step (h.fresh _ le_rfl) hs
  refine { wellFormed_step h.toWellFormed hs with
    silent := ?_, closed := ?_, erase := ?_, calling := ?_ }
  · rcases heffect.trace with heq | ⟨event, heq, hcause⟩
    · exact heq ▸ h.silent
    rw [heq]
    refine silent_concat h.silent (fun c hevent => ?_) fun logicId c hevent hclosed => ?_
    · subst hevent
      exact hcause.2 (h.calling c hcause.1)
    · subst hevent
      have hquiet : Quiet s c := h.closed c hclosed
      rcases hcause with hputting | hnone
      · exact hquiet.putting hputting
      · obtain ⟨call, hcall, -⟩ := hquiet.made
        rw [hnone] at hcall
        cases hcall
  · intro c hc
    have hquiet : Quiet s c := by
      rcases heffect.trace with heq | ⟨event, heq, hcause⟩
      · exact h.closed c (heq ▸ hc)
      · rw [heq] at hc
        rcases List.mem_append.mp hc with hold | hnew
        · exact h.closed c hold
        · obtain rfl := List.mem_singleton.mp hnew
          exact quiet_of_closed h hclear hcause
    exact quiet_next heffect hquiet
  · intro timerId returners c herase
    rcases heffect.erase herase with hold | rfl
    · exact cancelled_next heffect (h.erase timerId returners c hold)
    · exact cancelled_of_close h hclear hs herase
  · intro c hcalling
    have harmed : s.Armed c := (heffect.calling c hcalling).elim (h.calling c) id
    rcases heffect.armed c hcalling harmed with hkept | ⟨rfl, timerId, returners, hcancel⟩
    · exact hkept
    -- `cancel` leaves the schedule thread where it is
    · have hschedule : s'.schedule = s.schedule := by
        simp only [step, close, hcancel] at hs
        obtain ⟨timer, -, rfl⟩ := Option.map_eq_some_iff.mp hs
        rfl
      simp only [Clear, hcancel] at hclear
      exact absurd (hschedule ▸ hcalling) hclear

/-- In a run that stays clear of the two places, a timer that `Close_Timer` has returned true for
is silent, and no empty callback is called. -/
theorem silent_of_clear {mapLogicList : Nat → Bool} {as : List Action} {s : TimerService}
    (hclear : Meets step Clear (initial mapLogicList) as)
    (hrun : run step (initial mapLogicList) as = some s) : Silent s.trace :=
  (invariant_of_meets Silenced (fun _ _ _ => silenced_step) (silenced_initial mapLogicList)
    hclear hrun).silent

/-- A loop timer has fired once and is cancelled; it is executed again then. -/
def closedRun : List Action :=
  [.addTimerLoop 0 0 1000, .push 0, .insert 0, .execute 0, .schedule, .schedule, .schedule,
    .closeTimerId 0, .close, .close, .schedule, .close, .close, .execute 0, .schedule, .schedule]

theorem silent_closedRun :
    ∃ s, run step (initial fun _ => true) closedRun = some s ∧
      s.trace = [.put 0 0, .cancelled 0 [0] 0, .closed 0] ∧ Silent s.trace := by
  refine ⟨_, rfl, rfl, ?_⟩
  exact @silent_of_clear (fun _ => true) closedRun _ (by decide +kernel) rfl

/-- A one-shot timer is closed when its callback has been moved out, and puts its message later. A
loop timer is cancelled between the test of `mCallback` and its call, and the call is of an empty
function. -/
theorem cancelled_not_silent :
    (∃ s, run step (initial fun _ => true)
        [.addTimer 0 1000, .push 0, .insert 0, .execute 0, .schedule, .closeTimerId 0, .close,
          .close, .close, .close, .schedule] = some s ∧
      s.trace = [.cancelled 0 [0] 0, .closed 0, .put 0 0] ∧ ¬ Silent s.trace) ∧
    ∃ s, run step (initial fun _ => true)
        [.addTimerLoop 0 0 1000, .push 0, .insert 0, .execute 0, .schedule, .closeTimerId 0,
          .close, .close, .close, .schedule] = some s ∧
      s.trace = [.cancelled 0 [0] 0, .empty 0] ∧ ¬ Silent s.trace := by
  refine ⟨⟨_, rfl, rfl, fun h => ?_⟩, ⟨_, rfl, rfl, fun h => ?_⟩⟩
  · have hpairs : [TimerEvent.closed 0, .put 0 0].Pairwise _ := h.2.tail
    exact List.rel_of_pairwise_cons hpairs List.mem_cons_self 0 0 rfl rfl
  · exact h.1 0 (List.mem_cons_of_mem _ List.mem_cons_self)

end TimerService

end PssClient
