import PssClient.Tms.TimerRules

/-!
# The steps of the timer service

* `Effect` — all that a step can do to the calls, the timers, the place of the schedule thread and
  what has happened. The invariants of the modules above are derived from it.
* `WellFormed` — what holds of every state that is reached.
* `run_entered` — the steps up to the callback, taken together, are what `TimerMgr` does in one.
-/

namespace PssClient

open Machine

namespace TimerService

/-! ## What a step can do -/

/-- The timer of a call has been made. -/
def Made (s : TimerService) (c : Nat) : Prop :=
  ∃ call, s.calls c = some call ∧ call.stage ≠ .allocated

/-- Its callback is there. -/
def Armed (s : TimerService) (c : Nat) : Prop :=
  ∃ timer, s.timers c = some timer ∧ timer.mCallback = true

end TimerService

/-- How a call that has begun goes on. -/
def Call.Goes (call call' : Call) : Prop :=
  call' = call ∨ call.stage = .allocated ∧ call' = { call with stage := .added } ∨
    call.stage = .added ∧ call' = { call with stage := .returned call.timerIndex true }

/-- Where an event comes from. -/
def TimerEvent.Cause (s : TimerService) (a : TimerService.Action) : TimerEvent → Prop
  | .put _ c => s.schedule = .putting c ∨ s.calls c = none
  | .empty c => s.schedule = .calling c ∧ ¬ s.Armed c
  | .cancelled timerId returners c =>
    s.closer = .cancel timerId returners c ∧ s.timers c ≠ none
  | .closed c =>
    a = .close ∧ ((∃ timerId returners, s.closer = .erase timerId returners c) ∨
      (∃ timerId returners, s.closer = .expired timerId returners c) ∧ s.timers c = none)

namespace TimerService

/-- What a step does to the thread in `Close_Timer`. -/
def ClosePc.Goes (s : TimerService) (a : Action) (s' : TimerService) : Prop :=
  s'.closer = s.closer ∨
    (∃ timerId c, a = .closeTimerId timerId ∧ s.mMapTimeridList timerId = some c ∧
      s'.closer = .expired timerId (s.returners timerId) c) ∨
    a = .close ∧ ∀ target, s'.closer.target = some target → s.closer.target = some target

/-- What a step does to the calls and timers, as far as the invariants need it. It is derived once
from the rules of the steps, so that an invariant that follows from it does not go through the
program counters of the schedule thread and of `Close_Timer` again. -/
structure Effect (s : TimerService) (a : Action) (s' : TimerService) : Prop where
  calls : ∀ c call, s.calls c = some call → ∃ call', s'.calls c = some call' ∧ call.Goes call'
  -- no timer is made twice, and no callback comes back
  timers : ∀ c, s.Made c → ∀ timer', s'.timers c = some timer' →
    ∃ timer, s.timers c = some timer ∧ (timer.mCallback = false → timer'.mCallback = false)
  calling : ∀ c, s'.schedule = .calling c → s.schedule = .calling c ∨ s.Armed c
  putting : ∀ c, s'.schedule = .putting c → s.schedule = .putting c ∨ s.Armed c
  -- a callback that is called next is taken away by `cancel` only
  armed : ∀ c, s'.schedule = .calling c → s.Armed c →
    s'.Armed c ∨ a = .close ∧ ∃ timerId returners, s.closer = .cancel timerId returners c
  closer : ClosePc.Goes s a s'
  trace : s'.trace = s.trace ∨ ∃ event, s'.trace = s.trace ++ [event] ∧ event.Cause s a

/-- The steps that do not go on with the schedule thread. -/
theorem effect_of_schedule {s s' : TimerService} {a : Action}
    (hcalls : ∀ c call, s.calls c = some call → ∃ call', s'.calls c = some call' ∧ call.Goes call')
    (htimers : ∀ c, s.Made c → s'.timers c = s.timers c ∨ s'.timers c = none)
    (hexecuting : ∀ c, s.schedule.executing = some c → s'.timers c = s.timers c)
    (hschedule : s'.schedule = s.schedule)
    (hcloser : ClosePc.Goes s a s')
    (htrace : s'.trace = s.trace ∨ ∃ event, s'.trace = s.trace ++ [event] ∧ event.Cause s a) :
    Effect s a s' where
  calls := hcalls
  timers c hc timer' htimer' := by
    rcases htimers c hc with heq | hnone
    · exact ⟨timer', heq ▸ htimer', id⟩
    · rw [hnone] at htimer'
      cases htimer'
  calling c hc := .inl (hschedule ▸ hc)
  putting c hc := .inl (hschedule ▸ hc)
  armed c hc harmed := by
    have hsame : s'.timers c = s.timers c := hexecuting c (by rw [← hschedule, hc]; rfl)
    exact .inl (by rwa [Armed, hsame])
  closer := hcloser
  trace := htrace

theorem calls_same {s : TimerService} (c : Nat) (call : Call) (h : s.calls c = some call) :
    ∃ call', s.calls c = some call' ∧ call.Goes call' := ⟨call, h, .inl rfl⟩

theorem calls_begin {s : TimerService} (hfresh : s.calls s.count = none) (new : Call) (c : Nat)
    (call : Call) (h : s.calls c = some call) :
    ∃ call', (begin new s).calls c = some call' ∧ call.Goes call' := by
  have hne : c ≠ s.count := by
    rintro rfl
    rw [hfresh] at h
    cases h
  exact ⟨call, (Function.update_of_ne hne ..).trans h, .inl rfl⟩

theorem calls_setCall {s : TimerService} {d : Nat} {old new : Call} (hold : s.calls d = some old)
    (hgoes : old.Goes new) (c : Nat) (call : Call) (h : s.calls c = some call) :
    ∃ call', (setCall d new s).calls c = some call' ∧ call.Goes call' := by
  by_cases hcd : c = d
  · subst hcd
    obtain rfl : call = old := Option.some.inj (h.symm.trans hold)
    exact ⟨new, Function.update_self .., hgoes⟩
  · exact ⟨call, (Function.update_of_ne hcd ..).trans h, .inl rfl⟩

/-- A timer that is replaced by one that does not have its callback back. -/
theorem timers_setTimer {s : TimerService} {d : Nat} {timer timer₁ : Timer}
    (htimer : s.timers d = some timer)
    (hcallback : timer.mCallback = false → timer₁.mCallback = false) (c : Nat) (timer' : Timer)
    (htimer' : (setTimer d (some timer₁) s).timers c = some timer') :
    ∃ timer, s.timers c = some timer ∧ (timer.mCallback = false → timer'.mCallback = false) := by
  by_cases hcd : c = d
  · subst hcd
    have hself : (setTimer c (some timer₁) s).timers c = some timer₁ := Function.update_self ..
    rw [hself] at htimer'
    exact ⟨timer, htimer, Option.some.inj htimer' ▸ hcallback⟩
  · exact ⟨timer', (Function.update_of_ne hcd ..).symm.trans htimer', id⟩

end TimerService

theorem Timer.beforeCallback_mCallback {timer : Timer} (h : timer.mCallback = false) :
    timer.beforeCallback.mCallback = false := by
  unfold Timer.beforeCallback
  split
  · split
    · exact h
    · rfl
  · exact h

theorem Timer.afterCallback_mCallback (now : Int) (timer : Timer) :
    (timer.afterCallback now).mCallback = timer.mCallback := by
  unfold Timer.afterCallback
  split <;> rfl

theorem Timer.cancel_mCallback {timer : Timer} (h : timer.mCallback = false) :
    timer.cancel.mCallback = false := by
  unfold Timer.cancel
  split
  · exact h
  · rfl

namespace TimerService

/-- **What the schedule thread does.** No call goes on by it. The timer that it enters has its
callback, or is passed over; only `beforeCallback` and `afterCallback` write a timer, and neither of
them gives one a callback. -/
theorem effect_of_goes {s s' : TimerService} (hgoes : Goes s s') : Effect s .schedule s' := by
  -- a step that writes no timer
  have hsame : ∀ c, s.Made c → ∀ timer', s.timers c = some timer' →
      ∃ timer, s.timers c = some timer ∧ (timer.mCallback = false → timer'.mCallback = false) :=
    fun _ _ timer' htimer' => ⟨timer', htimer', id⟩
  cases hgoes with
  | enterOnce d timer hpc htimer htype hcalls =>
    have harmed : s.Armed d := by
      rw [Timer.calls, htype, Bool.and_eq_true] at hcalls
      exact ⟨timer, htimer, hcalls.2⟩
    refine ⟨calls_same, fun c _ => timers_setTimer htimer Timer.beforeCallback_mCallback c, nofun,
      fun c hc => .inr ?_, nofun, .inl rfl, .inl rfl⟩
    cases hc
    exact harmed
  | skipOnce d timer hpc htimer =>
    exact ⟨calls_same, fun c _ => timers_setTimer htimer Timer.beforeCallback_mCallback c, nofun,
      nofun, nofun, .inl rfl, .inl rfl⟩
  | enterLoop d timer hpc htimer htype hcallback =>
    refine ⟨calls_same, hsame, fun c hc => .inr ?_, nofun, fun _ _ => .inl, .inl rfl, .inl rfl⟩
    cases hc
    exact ⟨timer, htimer, hcallback⟩
  | skipLoop => exact ⟨calls_same, hsame, nofun, nofun, nofun, .inl rfl, .inl rfl⟩
  | call d timer hpc htimer hcallback =>
    refine ⟨calls_same, hsame, nofun, fun c hc => .inr ?_, nofun, .inl rfl, .inl rfl⟩
    cases hc
    exact ⟨timer, htimer, hcallback⟩
  -- an empty function is called: the timer is not armed
  | callEmpty d timer hpc htimer hcallback =>
    refine ⟨calls_same, hsame, nofun, nofun, nofun, .inl rfl, .inr ⟨_, rfl, hpc, ?_⟩⟩
    rintro ⟨timer', htimer', hcallback'⟩
    obtain rfl := Option.some.inj (htimer.symm.trans htimer')
    rw [hcallback] at hcallback'
    cases hcallback'
  | put d call hpc =>
    -- behind the put the id is erased, or the timer is a loop timer
    have hplace : (put d call s).schedule = .erasing d ∨ (put d call s).schedule = .leaving d := by
      unfold put
      dsimp only
      split
      · exact .inl rfl
      · exact .inr rfl
    refine ⟨calls_same, hsame, fun c hc => ?_, fun c hc => ?_, fun c hc _ => ?_, .inl rfl,
      .inr ⟨_, rfl, .inl hpc⟩⟩
    all_goals
      rw [hc] at hplace
      rcases hplace with hbad | hbad <;> cases hbad
  | erase => exact ⟨calls_same, hsame, nofun, nofun, nofun, .inl rfl, .inl rfl⟩
  | leave d timer hpc htimer =>
    exact ⟨calls_same, fun c _ => timers_setTimer htimer
      (fun h => (Timer.afterCallback_mCallback s.now timer).trans h) c, nofun, nofun, nofun,
      .inl rfl, .inl rfl⟩

theorem effect_of_closes {s s' : TimerService} (hcloses : Closes s s') : Effect s .close s' := by
  have hsame : ∀ c, s.Made c → s.timers c = s.timers c ∨ s.timers c = none := fun _ _ => .inl rfl
  cases hcloses with
  | alive timerId returners d timer hpc | lock timerId returners d timer hpc
  | lockNull timerId returners d hpc =>
    exact effect_of_schedule calls_same hsame (fun _ _ => rfl) rfl
      (.inr (.inr ⟨rfl, fun target h => hpc ▸ h⟩)) (.inl rfl)
  | expired timerId returners d hpc hnone =>
    exact effect_of_schedule calls_same hsame (fun _ _ => rfl) rfl (.inr (.inr ⟨rfl, nofun⟩))
      (.inr ⟨_, rfl, rfl, .inr ⟨⟨timerId, returners, hpc⟩, hnone⟩⟩)
  | cancel timerId returners d timer hpc htimer =>
    refine ⟨calls_same, fun c _ => timers_setTimer htimer Timer.cancel_mCallback c,
      fun _ => .inl, fun _ => .inl, fun c _ harmed => ?_,
      .inr (.inr ⟨rfl, fun target h => hpc ▸ h⟩), .inr ⟨_, rfl, hpc, htimer ▸ nofun⟩⟩
    by_cases hcd : c = d
    · subst hcd
      exact .inr ⟨rfl, timerId, returners, hpc⟩
    · obtain ⟨timer', htimer', hcallback'⟩ := harmed
      exact .inl ⟨timer', (Function.update_of_ne hcd ..).trans htimer', hcallback'⟩
  | erase timerId returners d hpc =>
    exact effect_of_schedule calls_same hsame (fun _ _ => rfl) rfl (.inr (.inr ⟨rfl, nofun⟩))
      (.inr ⟨_, rfl, rfl, .inl ⟨timerId, returners, hpc⟩⟩)

/-- What the steps have in common, read off the rules. The calls only go forward, no timer is made
twice, and a callback that has been taken away does not come back. -/
theorem effect_of_step {s s' : TimerService} {a : Action} (hfresh : s.calls s.count = none)
    (hs : step s a = some s') : Effect s a s' := by
  have hsame : ∀ c, s.Made c → s.timers c = s.timers c ∨ s.timers c = none := fun _ _ => .inl rfl
  cases does_of_step hs with
  | message =>
    exact effect_of_schedule (calls_begin hfresh _) hsame (fun _ _ => rfl) rfl (.inl rfl)
      (.inr ⟨_, rfl, .inr hfresh⟩)
  | noWorker | once | loop | noOnce | noLoop =>
    exact effect_of_schedule (calls_begin hfresh _) hsame (fun _ _ => rfl) rfl (.inl rfl) (.inl rfl)
  | push d call hcall hstage hidle =>
    refine effect_of_schedule (calls_setCall hcall (.inr (.inl ⟨hstage, rfl⟩)))
      (fun c hc => .inl ?_) (fun c hc => ?_) rfl (.inl rfl) (.inl rfl)
    · -- the timer of this call has not been made
      have hne : c ≠ d := by
        rintro rfl
        obtain ⟨call', hcall', hnew⟩ := hc
        rw [hcall] at hcall'
        exact hnew (Option.some.inj hcall' ▸ hstage)
      exact Function.update_of_ne hne ..
    · rw [hidle] at hc
      cases hc
  | insert d call hcall hstage =>
    exact effect_of_schedule (calls_setCall hcall (.inr (.inr ⟨hstage, rfl⟩))) hsame
      (fun _ _ => rfl) rfl (.inl rfl) (.inl rfl)
  | execute =>
    exact ⟨calls_same, fun _ _ timer' h => ⟨timer', h, id⟩, nofun, nofun, nofun, .inl rfl, .inl rfl⟩
  | schedule hgoes => exact effect_of_goes hgoes
  | destroy d hfree =>
    refine effect_of_schedule calls_same (fun c _ => ?_) (fun c hc => ?_) rfl (.inl rfl) (.inl rfl)
    · by_cases hcd : c = d
      · subst hcd
        exact .inr (Function.update_self ..)
      · exact .inl (Function.update_of_ne hcd ..)
    · have hcd : c ≠ d := by
        rintro rfl
        exact hfree (.inl hc)
      exact Function.update_of_ne hcd ..
  | found timerId c hidle hmap =>
    exact effect_of_schedule calls_same hsame (fun _ _ => rfl) rfl
      (.inr (.inl ⟨timerId, c, rfl, hmap, rfl⟩)) (.inl rfl)
  | notFound | tick =>
    exact effect_of_schedule calls_same hsame (fun _ _ => rfl) rfl (.inl rfl) (.inl rfl)
  | close hcloses => exact effect_of_closes hcloses

/-! ## What holds of every state -/

theorem Effect.made {s s' : TimerService} {a : Action} (h : Effect s a s') {c : Nat}
    (hc : s.Made c) : s'.Made c := by
  obtain ⟨call, hcall, hstage⟩ := hc
  obtain ⟨call', hcall', rfl | ⟨hold, -⟩ | ⟨-, rfl⟩⟩ := h.calls c call hcall
  · exact ⟨call', hcall', hstage⟩
  · exact absurd hold hstage
  · exact ⟨_, hcall', nofun⟩

/-- A call that has returned stays as it is. -/
theorem Effect.returned {s s' : TimerService} {a : Action} (h : Effect s a s') {c : Nat}
    {call : Call} {value : Int} {accepted : Bool} (hcall : s.calls c = some call)
    (hstage : call.stage = .returned value accepted) : s'.calls c = some call := by
  obtain ⟨call', hcall', rfl | ⟨hold, -⟩ | ⟨hold, -⟩⟩ := h.calls c call hcall
  · exact hcall'
  · rw [hstage] at hold
    cases hold
  · rw [hstage] at hold
    cases hold

/-- What `Close_Timer` works on it has found in the map. -/
theorem Effect.target {s s' : TimerService} {a : Action} (h : Effect s a s') {timerId : Int}
    {returners : List Nat} {c : Nat} (hc : s'.closer.target = some (timerId, returners, c)) :
    s.closer.target = some (timerId, returners, c) ∨
      a = .closeTimerId timerId ∧ s.mMapTimeridList timerId = some c ∧
        returners = s.returners timerId := by
  rcases h.closer with hsame | ⟨timerId', c', ha, hmap, hexpired⟩ | ⟨-, hkeep⟩
  · exact .inl (hsame ▸ hc)
  · rw [hexpired] at hc
    cases hc
    exact .inr ⟨ha, hmap, rfl⟩
  · exact .inl (hkeep _ hc)

theorem Effect.erase {s s' : TimerService} {a : Action} (h : Effect s a s') {timerId : Int}
    {returners : List Nat} {c : Nat} (hc : s'.closer = .erase timerId returners c) :
    s.closer = .erase timerId returners c ∨ a = .close := by
  rcases h.closer with hsame | ⟨timerId', c', -, -, hexpired⟩ | ⟨ha, -⟩
  · exact .inl (hsame ▸ hc)
  · rw [hexpired] at hc
    cases hc
  · exact .inr ha

/-- The id is the one that a call has returned for its timer. -/
def Listed (s : TimerService) (timerId : Int) (c : Nat) : Prop :=
  ∃ call, s.calls c = some call ∧ call.timerIndex = timerId ∧ call.stage = .returned timerId true

theorem Listed.made {s : TimerService} {timerId : Int} {c : Nat} (h : s.Listed timerId c) :
    s.Made c := by
  obtain ⟨call, hcall, -, hstage⟩ := h
  refine ⟨call, hcall, ?_⟩
  rw [hstage]
  nofun

theorem Effect.listed {s s' : TimerService} {a : Action} (h : Effect s a s') {timerId : Int}
    {c : Nat} (hc : s.Listed timerId c) : s'.Listed timerId c := by
  obtain ⟨call, hcall, hindex, hstage⟩ := hc
  exact ⟨call, h.returned hcall hstage, hindex, hstage⟩

/-- What holds in every run. There are no calls beyond the count, a timer whose once flag is set has
lost its callback, and whatever is in the table, or found in it by `Close_Timer`, is a call that has
been made and put in. -/
structure WellFormed (s : TimerService) : Prop where
  fresh : ∀ c, s.count ≤ c → s.calls c = none
  -- the once flag is set along with the callback taken away
  flag : ∀ c timer, s.timers c = some timer → timer.mExecuteOnceFlag = true →
    timer.mCallback = false
  listed : ∀ timerId c, s.mMapTimeridList timerId = some c → s.Listed timerId c
  target : ∀ timerId returners c, s.closer.target = some (timerId, returners, c) →
    s.Listed timerId c
  executing : ∀ c, s.schedule.executing = some c → ∃ timer, s.timers c = some timer

theorem wellFormed_initial (mapLogicList : Nat → Bool) : WellFormed (initial mapLogicList) :=
  ⟨fun _ _ => rfl, nofun, nofun, nofun, nofun⟩

/-- A step that leaves the timers and the schedule thread alone. -/
theorem wellFormed_of_schedule {s s' : TimerService} {a : Action} (h : WellFormed s)
    (heffect : Effect s a s')
    (hfresh : ∀ c, s'.count ≤ c → s'.calls c = none) (htimers : s'.timers = s.timers)
    (hschedule : s'.schedule = s.schedule)
    (hlisted : ∀ timerId c, s'.mMapTimeridList timerId = some c →
      s.mMapTimeridList timerId = some c ∨ s'.Listed timerId c) : WellFormed s' where
  fresh := hfresh
  flag := htimers ▸ h.flag
  listed timerId c hc :=
    (hlisted timerId c hc).elim (fun hold => heffect.listed (h.listed timerId c hold)) id
  target timerId returners c hc := by
    rcases heffect.target hc with hold | ⟨-, hmap, -⟩
    · exact heffect.listed (h.target timerId returners c hold)
    · exact heffect.listed (h.listed timerId c hmap)
  executing := by
    rw [htimers, hschedule]
    exact h.executing

theorem fresh_begin {s : TimerService} (h : WellFormed s) (call : Call) (c : Nat)
    (hc : (begin call s).count ≤ c) : (begin call s).calls c = none := by
  have hcount : s.count + 1 ≤ c := hc
  show Function.update s.calls s.count (some call) c = none
  rw [Function.update_of_ne (by omega)]
  exact h.fresh c (by omega)

theorem fresh_setCall {s : TimerService} (h : WellFormed s) {d : Nat} {old : Call}
    (hold : s.calls d = some old) (call : Call) (c : Nat) (hc : s.count ≤ c) :
    (setCall d call s).calls c = none := by
  have hne : c ≠ d := by
    rintro rfl
    rw [h.fresh c hc] at hold
    cases hold
  exact (Function.update_of_ne hne ..).trans (h.fresh c hc)

/-- An index that is erased. -/
theorem map_erase {s : TimerService} (erased timerId : Int) (c : Nat)
    (hc : Function.update s.mMapTimeridList erased none timerId = some c) :
    s.mMapTimeridList timerId = some c := by
  by_cases hid : timerId = erased
  · subst hid
    rw [Function.update_self] at hc
    cases hc
  · exact (Function.update_of_ne hid ..).symm.trans hc

/-- A step that changes one timer. -/
theorem wellFormed_setTimer {s : TimerService} (h : WellFormed s) {d : Nat} {timer : Timer}
    (hflag : timer.mExecuteOnceFlag = true → timer.mCallback = false) :
    WellFormed (setTimer d (some timer) s) where
  fresh := h.fresh
  flag c timer' htimer' := by
    by_cases hcd : c = d
    · subst hcd
      have hself : (setTimer c (some timer) s).timers c = some timer := Function.update_self ..
      rw [hself] at htimer'
      exact Option.some.inj htimer' ▸ hflag
    · exact h.flag c timer' ((Function.update_of_ne hcd ..).symm.trans htimer')
  listed := h.listed
  target := h.target
  executing c hc := by
    by_cases hcd : c = d
    · subst hcd
      exact ⟨timer, Function.update_self ..⟩
    · obtain ⟨timer', htimer'⟩ := h.executing c hc
      exact ⟨timer', (Function.update_of_ne hcd ..).trans htimer'⟩

/-- The schedule thread goes on with the timer it executes, or with none. -/
theorem wellFormed_schedule {s : TimerService} (h : WellFormed s) (pc : SchedulePc)
    (trace : List TimerEvent)
    (hpc : ∀ c, pc.executing = some c → ∃ timer, s.timers c = some timer) :
    WellFormed { s with schedule := pc, trace := trace } :=
  ⟨h.fresh, h.flag, h.listed, h.target, hpc⟩

end TimerService

theorem Timer.flag_beforeCallback {timer : Timer}
    (h : timer.mExecuteOnceFlag = true → timer.mCallback = false) :
    timer.beforeCallback.mExecuteOnceFlag = true → timer.beforeCallback.mCallback = false := by
  unfold Timer.beforeCallback
  split
  · split
    · exact h
    · exact fun _ => rfl
  · exact h

theorem Timer.flag_cancel {timer : Timer}
    (h : timer.mExecuteOnceFlag = true → timer.mCallback = false) :
    timer.cancel.mCallback = false := by
  unfold Timer.cancel
  split
  case isTrue hset => exact h hset
  case isFalse => rfl

theorem Timer.flag_afterCallback (now : Int) {timer : Timer}
    (h : timer.mExecuteOnceFlag = true → timer.mCallback = false) :
    (timer.afterCallback now).mExecuteOnceFlag = true →
      (timer.afterCallback now).mCallback = false := by
  unfold Timer.afterCallback
  split
  · exact h
  · exact h

namespace TimerService

/-- A step of the schedule thread keeps the callbacks with the flags: where it sets the flag of a
timer it takes the callback away. -/
theorem wellFormed_goes {s s' : TimerService} (h : WellFormed s) (hgoes : Goes s s') :
    WellFormed s' := by
  cases hgoes with
  | enterOnce d timer hpc htimer | skipOnce d timer hpc htimer =>
    have hset := wellFormed_setTimer h (d := d) (Timer.flag_beforeCallback (h.flag d timer htimer))
    apply wellFormed_schedule hset _ _
    intro c hc
    cases hc
    exact ⟨_, Function.update_self ..⟩
  | enterLoop d timer hpc htimer | skipLoop d timer hpc htimer | call d timer hpc htimer =>
    apply wellFormed_schedule h _ _
    intro c hc
    cases hc
    exact ⟨timer, htimer⟩
  | callEmpty => exact wellFormed_schedule h _ _ nofun
  | put d call hpc =>
    have halive : ∃ timer, s.timers d = some timer := h.executing d (by rw [hpc]; rfl)
    apply wellFormed_schedule h _ _
    intro c hc
    split at hc
    all_goals
      cases hc
      exact halive
  | erase d call hpc =>
    have halive : ∃ timer, s.timers d = some timer := h.executing d (by rw [hpc]; rfl)
    refine ⟨h.fresh, h.flag, fun timerId c hc => h.listed timerId c (map_erase _ timerId c hc),
      h.target, fun c hc => ?_⟩
    cases hc
    exact halive
  | leave d timer hpc htimer =>
    have hset := wellFormed_setTimer h (d := d)
      (Timer.flag_afterCallback s.now (h.flag d timer htimer))
    exact wellFormed_schedule hset _ _ nofun

theorem wellFormed_closes {s s' : TimerService} (h : WellFormed s) (hcloses : Closes s s') :
    WellFormed s' := by
  have heffect : Effect s .close s' := effect_of_closes hcloses
  cases hcloses with
  | alive | expired | lock | lockNull =>
    exact wellFormed_of_schedule h heffect h.fresh rfl rfl fun _ _ => .inl
  | cancel timerId returners d timer hpc htimer =>
    have htarget : s.closer.target = some (timerId, returners, d) := by rw [hpc]; rfl
    have hset : WellFormed (setTimer d (some timer.cancel) s) :=
      wellFormed_setTimer h fun _ => Timer.flag_cancel (h.flag d timer htimer)
    refine { hset with target := fun timerId' returners' c hc => ?_ }
    cases hc
    exact h.target timerId returners d htarget
  | erase timerId returners d hpc =>
    exact wellFormed_of_schedule h heffect h.fresh rfl rfl fun timerId' c hc =>
      .inl (map_erase timerId timerId' c hc)

/-- A step of any thread. Only `insert` puts an id into the table, of a call that has been made, and
`Close_Timer` holds what it has found there. -/
theorem wellFormed_step {s s' : TimerService} {a : Action} (h : WellFormed s)
    (hs : step s a = some s') : WellFormed s' := by
  have heffect : Effect s a s' := effect_of_step (h.fresh _ le_rfl) hs
  cases does_of_step hs with
  | message | noWorker | once | loop | noOnce | noLoop =>
    exact wellFormed_of_schedule h heffect (fresh_begin h _) rfl rfl fun _ _ => .inl
  | push d call hcall hstage hidle =>
    refine ⟨fresh_setCall h hcall _, fun c timer htimer => ?_,
      fun timerId c hc => heffect.listed (h.listed timerId c hc),
      fun timerId returners c hc => heffect.listed (h.target timerId returners c hc),
      fun c hc => ?_⟩
    · by_cases hcd : c = d
      · subst hcd
        have hself : Function.update s.timers c (call.kind.timer s.now) c = some timer := htimer
        rw [Function.update_self] at hself
        -- a new timer has its flag not set
        cases hkind : call.kind with
        | message => rw [hkind] at hself; cases hself
        | once => rw [hkind] at hself; cases hself; nofun
        | loop => rw [hkind] at hself; cases hself; nofun
      · exact h.flag c timer ((Function.update_of_ne hcd ..).symm.trans htimer)
    · have hexecuting : s.schedule.executing = some c := hc
      rw [hidle] at hexecuting
      cases hexecuting
  | insert d call hcall =>
    apply wellFormed_of_schedule h heffect (fresh_setCall h hcall _) rfl rfl
    intro timerId c hc
    by_cases hid : timerId = call.timerIndex
    · subst hid
      have hself : Function.update s.mMapTimeridList call.timerIndex (some d) call.timerIndex
          = some c := hc
      rw [Function.update_self] at hself
      obtain rfl := Option.some.inj hself
      exact .inr ⟨_, Function.update_self .., rfl, rfl⟩
    · exact .inl ((Function.update_of_ne hid ..).symm.trans hc)
  | execute d hidle hthere =>
    apply wellFormed_schedule h _ _
    intro c hc
    cases hc
    exact Option.isSome_iff_exists.mp hthere
  | schedule hgoes => exact wellFormed_goes h hgoes
  | destroy d hfree =>
    refine ⟨h.fresh, fun c timer htimer => ?_, h.listed, h.target, fun c hc => ?_⟩
    · by_cases hcd : c = d
      · subst hcd
        have hself : Function.update s.timers c none c = some timer := htimer
        rw [Function.update_self] at hself
        cases hself
      · exact h.flag c timer ((Function.update_of_ne hcd ..).symm.trans htimer)
    · have hcd : c ≠ d := by
        rintro rfl
        exact hfree (.inl hc)
      obtain ⟨timer, htimer⟩ := h.executing c hc
      exact ⟨timer, (Function.update_of_ne hcd ..).trans htimer⟩
  | found => exact wellFormed_of_schedule h heffect h.fresh rfl rfl fun _ _ => .inl
  | notFound => exact h
  | close hcloses => exact wellFormed_closes h hcloses
  | tick d => exact ⟨h.fresh, h.flag, h.listed, h.target, h.executing⟩

/-! ## Against the manager -/

theorem setTimer_self {s : TimerService} {c : Nat} {timer : Timer}
    (h : s.timers c = some timer) : setTimer c (some timer) s = s := by
  rw [setTimer, ← h, Function.update_eq_self]

/-- With nothing in between, the schedule thread comes to the callback when the timer `calls` it,
and leaves the timer as `beforeCallback` does: the single step of `TimerMgr`. -/
theorem run_entered {s : TimerService} {c : Nat} {timer : Timer} (hpc : s.schedule = .entered c)
    (htimer : s.timers c = some timer) :
    ∃ n, run step s (List.replicate n .schedule) = some
      { setTimer c (some timer.beforeCallback) s with
        schedule := if timer.calls then .putting c else .leaving c } := by
  have henter : step s .schedule = some (enter c timer s) := by
    simp [step, stepSchedule, hpc, htimer]
  cases htype : timer.mTimerType with
  | once =>
    refine ⟨1, run_singleton (henter.trans ?_)⟩
    rw [enter, htype]
  | loop =>
    have hbefore : timer.beforeCallback = timer := by rw [Timer.beforeCallback, htype]
    have hcalls : timer.calls = timer.mCallback := by rw [Timer.calls, htype]
    rw [hbefore, setTimer_self htimer, hcalls]
    cases hcallback : timer.mCallback with
    | false =>
      refine ⟨1, run_singleton (henter.trans ?_)⟩
      rw [enter, htype, hcallback]
      rfl
    | true =>
      -- the callback is tested and then read again
      have hcalling : enter c timer s = { s with schedule := .calling c } := by
        rw [enter, htype, hcallback]
        rfl
      refine ⟨2, run_cons.mpr ⟨_, henter, run_singleton ?_⟩⟩
      rw [hcalling]
      simp [step, stepSchedule, htimer, hcallback]

end TimerService

end PssClient
