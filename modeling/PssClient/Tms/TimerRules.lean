import PssClient.Tms.Timers

/-!
# The rules of the timer service

One rule for each branch that `step` can take, with the condition under which it is taken.

* `Goes` / `goes_of_stepSchedule` — the schedule thread in `operator()`.
* `Closes` / `closes_of_close` — `Close_Timer` once it has found an id.
* `Does` / `does_of_step` — any action.
-/

namespace PssClient

namespace TimerService

/-- A step of the schedule thread. -/
inductive Goes (s : TimerService) : TimerService → Prop
  | enterOnce (c : Nat) (timer : Timer) (hpc : s.schedule = .entered c)
      (htimer : s.timers c = some timer) (htype : timer.mTimerType = .once)
      (hcalls : timer.calls = true) :
    Goes s { setTimer c (some timer.beforeCallback) s with schedule := .putting c }
  | skipOnce (c : Nat) (timer : Timer) (hpc : s.schedule = .entered c)
      (htimer : s.timers c = some timer) (htype : timer.mTimerType = .once)
      (hcalls : timer.calls = false) :
    Goes s { setTimer c (some timer.beforeCallback) s with schedule := .leaving c }
  | enterLoop (c : Nat) (timer : Timer) (hpc : s.schedule = .entered c)
      (htimer : s.timers c = some timer) (htype : timer.mTimerType = .loop)
      (hcallback : timer.mCallback = true) : Goes s { s with schedule := .calling c }
  | skipLoop (c : Nat) (timer : Timer) (hpc : s.schedule = .entered c)
      (htimer : s.timers c = some timer) (htype : timer.mTimerType = .loop)
      (hcallback : timer.mCallback = false) : Goes s { s with schedule := .leaving c }
  | call (c : Nat) (timer : Timer) (hpc : s.schedule = .calling c)
      (htimer : s.timers c = some timer) (hcallback : timer.mCallback = true) :
    Goes s { s with schedule := .putting c }
  | callEmpty (c : Nat) (timer : Timer) (hpc : s.schedule = .calling c)
      (htimer : s.timers c = some timer) (hcallback : timer.mCallback = false) :
    Goes s { s with schedule := .terminated, trace := s.trace ++ [.empty c] }
  | put (c : Nat) (call : Call) (hpc : s.schedule = .putting c) (hcall : s.calls c = some call) :
    Goes s (put c call s)
  | erase (c : Nat) (call : Call) (hpc : s.schedule = .erasing c) (hidle : s.closer = .idle)
      (hcall : s.calls c = some call) :
    Goes s { s with
      mMapTimeridList := Function.update s.mMapTimeridList call.timerIndex none
      schedule := .leaving c }
  | leave (c : Nat) (timer : Timer) (hpc : s.schedule = .leaving c)
      (htimer : s.timers c = some timer) :
    Goes s { setTimer c (some (timer.afterCallback s.now)) s with schedule := .idle }

/-- The inversion of `stepSchedule`, one rule for each branch at each place. -/
theorem goes_of_stepSchedule {s s' : TimerService} (h : stepSchedule s = some s') : Goes s s' := by
  unfold stepSchedule at h
  split at h
  case h_1 c hpc =>
    obtain ⟨timer, htimer, rfl⟩ := Option.map_eq_some_iff.mp h
    unfold enter
    split
    case h_1 htype =>
      cases hcalls : timer.calls with
      | true => exact .enterOnce c timer hpc htimer htype hcalls
      | false => exact .skipOnce c timer hpc htimer htype hcalls
    case h_2 htype =>
      cases hcallback : timer.mCallback with
      | true => exact .enterLoop c timer hpc htimer htype hcallback
      | false => exact .skipLoop c timer hpc htimer htype hcallback
  case h_2 c hpc =>
    obtain ⟨timer, htimer, rfl⟩ := Option.map_eq_some_iff.mp h
    split
    case isTrue hcallback => exact .call c timer hpc htimer hcallback
    case isFalse hcallback =>
      exact .callEmpty c timer hpc htimer (Bool.eq_false_of_not_eq_true hcallback)
  case h_3 c hpc =>
    obtain ⟨call, hcall, rfl⟩ := Option.map_eq_some_iff.mp h
    exact .put c call hpc hcall
  case h_4 c hpc =>
    split at h
    case isTrue hidle =>
      obtain ⟨call, hcall, rfl⟩ := Option.map_eq_some_iff.mp h
      exact .erase c call hpc hidle hcall
    case isFalse => cases h
  case h_5 c hpc =>
    obtain ⟨timer, htimer, rfl⟩ := Option.map_eq_some_iff.mp h
    exact .leave c timer hpc htimer
  case h_6 => cases h
  case h_7 => cases h

/-- A step of `Close_Timer`. -/
inductive Closes (s : TimerService) : TimerService → Prop
  | alive (timerId : Int) (returners : List Nat) (c : Nat) (timer : Timer)
      (hpc : s.closer = .expired timerId returners c) (htimer : s.timers c = some timer) :
    Closes s { s with closer := .lock timerId returners c }
  | expired (timerId : Int) (returners : List Nat) (c : Nat)
      (hpc : s.closer = .expired timerId returners c) (htimer : s.timers c = none) :
    Closes s { s with closer := .idle, trace := s.trace ++ [.closed c] }
  | lock (timerId : Int) (returners : List Nat) (c : Nat) (timer : Timer)
      (hpc : s.closer = .lock timerId returners c) (htimer : s.timers c = some timer) :
    Closes s { s with closer := .cancel timerId returners c }
  | lockNull (timerId : Int) (returners : List Nat) (c : Nat)
      (hpc : s.closer = .lock timerId returners c) (htimer : s.timers c = none) :
    Closes s { s with closer := .erase timerId returners c }
  | cancel (timerId : Int) (returners : List Nat) (c : Nat) (timer : Timer)
      (hpc : s.closer = .cancel timerId returners c) (htimer : s.timers c = some timer) :
    Closes s { setTimer c (some timer.cancel) s with
      closer := .erase timerId returners c
      trace := s.trace ++ [.cancelled timerId returners c] }
  | erase (timerId : Int) (returners : List Nat) (c : Nat)
      (hpc : s.closer = .erase timerId returners c) :
    Closes s { s with
      mMapTimeridList := Function.update s.mMapTimeridList timerId none
      closer := .idle
      trace := s.trace ++ [.closed c] }

theorem closes_of_close {s s' : TimerService} (h : close s = some s') : Closes s s' := by
  unfold close at h
  split at h
  case h_1 => cases h
  case h_2 timerId returners c hpc =>
    split at h
    case h_1 timer htimer => exact Option.some.inj h ▸ .alive timerId returners c timer hpc htimer
    case h_2 htimer => exact Option.some.inj h ▸ .expired timerId returners c hpc htimer
  case h_3 timerId returners c hpc =>
    split at h
    case h_1 timer htimer => exact Option.some.inj h ▸ .lock timerId returners c timer hpc htimer
    case h_2 htimer => exact Option.some.inj h ▸ .lockNull timerId returners c hpc htimer
  case h_4 timerId returners c hpc =>
    obtain ⟨timer, htimer, rfl⟩ := Option.map_eq_some_iff.mp h
    exact .cancel timerId returners c timer hpc htimer
  case h_5 timerId returners c hpc => exact Option.some.inj h ▸ .erase timerId returners c hpc

/-- What an action does, and when it can be taken. -/
inductive Does (s : TimerService) : Action → TimerService → Prop
  | message (workThreadId : Int) (hworker : s.mapLogicList (toUint32 workThreadId) = true) :
    Does s (.addTimer workThreadId 0)
      { begin ⟨toUint32 workThreadId, .message, -1, .returned 1 true⟩ s with
        trace := s.trace ++ [.put (toUint32 workThreadId) s.count] }
  | noWorker (workThreadId : Int) (hworker : s.mapLogicList (toUint32 workThreadId) = false) :
    Does s (.addTimer workThreadId 0)
      (begin ⟨toUint32 workThreadId, .message, -1, .returned 0 false⟩ s)
  | once (workThreadId timeInterval : Int) (hne : timeInterval ≠ 0)
      (hworker : s.mapLogicList (toUint32 workThreadId) = true) (hidle : s.closer = .idle) :
    Does s (.addTimer workThreadId timeInterval)
      { begin ⟨toUint32 workThreadId, .once timeInterval, s.mNTimerIndex, .allocated⟩ s with
        mNTimerIndex := s.mNTimerIndex + 1 }
  | loop (workThreadId beginDelay timeInterval : Int) (hne : timeInterval ≠ 0)
      (hworker : s.mapLogicList (toUint32 workThreadId) = true) (hidle : s.closer = .idle) :
    Does s (.addTimerLoop workThreadId beginDelay timeInterval)
      { begin ⟨toUint32 workThreadId, .loop beginDelay timeInterval, s.mNTimerIndex,
          .allocated⟩ s with
        mNTimerIndex := s.mNTimerIndex + 1 }
  | noOnce (workThreadId timeInterval : Int) (hne : timeInterval ≠ 0)
      (hworker : s.mapLogicList (toUint32 workThreadId) = false) :
    Does s (.addTimer workThreadId timeInterval)
      (begin ⟨toUint32 workThreadId, .once timeInterval, -1, .returned (-1) false⟩ s)
  -- the interval is zero, or there is no worker
  | noLoop (workThreadId beginDelay timeInterval : Int)
      (hnone : timeInterval = 0 ∨ s.mapLogicList (toUint32 workThreadId) = false) :
    Does s (.addTimerLoop workThreadId beginDelay timeInterval)
      (begin ⟨toUint32 workThreadId, .loop beginDelay timeInterval, -1, .returned (-1) false⟩ s)
  | push (c : Nat) (call : Call) (hcall : s.calls c = some call) (hstage : call.stage = .allocated)
      (hidle : s.schedule.executing = none) :
    Does s (.push c)
      (setTimer c (call.kind.timer s.now) (setCall c { call with stage := .added } s))
  | insert (c : Nat) (call : Call) (hcall : s.calls c = some call) (hstage : call.stage = .added)
      (hidle : s.closer = .idle) :
    Does s (.insert c)
      { setCall c { call with stage := .returned call.timerIndex true } s with
        mMapTimeridList := Function.update s.mMapTimeridList call.timerIndex (some c) }
  | execute (c : Nat) (hidle : s.schedule = .idle) (hthere : (s.timers c).isSome = true) :
    Does s (.execute c) { s with schedule := .entered c }
  | schedule {s' : TimerService} (hgoes : Goes s s') : Does s .schedule s'
  | destroy (c : Nat) (hfree : ¬ (s.schedule.executing = some c ∨ s.closer.holds = some c)) :
    Does s (.destroy c) (setTimer c none s)
  | found (timerId : Int) (c : Nat) (hidle : s.closer = .idle)
      (hmap : s.mMapTimeridList timerId = some c) :
    Does s (.closeTimerId timerId) { s with closer := .expired timerId (s.returners timerId) c }
  | notFound (timerId : Int) (hidle : s.closer = .idle)
      (hmap : s.mMapTimeridList timerId = none) : Does s (.closeTimerId timerId) s
  | close {s' : TimerService} (hcloses : Closes s s') : Does s .close s'
  | tick (d : Nat) : Does s (.tick d) { s with now := s.now + d }

/-- The inversion of `step`. The results about `Close_Timer` go by cases on these rules, or on the
`Effect` that is derived from them. -/
theorem does_of_step {s s' : TimerService} {a : Action} (h : step s a = some s') : Does s a s' := by
  cases a with
  | addTimer workThreadId timeInterval =>
    simp only [step, addTimer] at h
    split at h
    case isTrue hzero =>
      subst hzero
      obtain rfl := Option.some.inj h
      unfold addMessage
      split
      case isTrue hworker => exact .message workThreadId hworker
      case isFalse hworker => exact .noWorker workThreadId (Bool.eq_false_iff.mpr hworker)
    case isFalse hne =>
      unfold addMessageTimer at h
      split at h
      case isTrue hworker =>
        obtain ⟨hidle, heq⟩ := Option.ite_none_right_eq_some.mp h
        exact Option.some.inj heq ▸ .once workThreadId timeInterval hne hworker hidle
      case isFalse hworker =>
        exact Option.some.inj h ▸
          .noOnce workThreadId timeInterval hne (Bool.eq_false_iff.mpr hworker)
  | addTimerLoop workThreadId beginDelay timeInterval =>
    simp only [step, addTimerLoop] at h
    split at h
    case isTrue hzero =>
      exact Option.some.inj h ▸ .noLoop workThreadId beginDelay timeInterval (.inl hzero)
    case isFalse hne =>
      unfold addMessageTimer at h
      split at h
      case isTrue hworker =>
        obtain ⟨hidle, heq⟩ := Option.ite_none_right_eq_some.mp h
        exact Option.some.inj heq ▸ .loop workThreadId beginDelay timeInterval hne hworker hidle
      case isFalse hworker =>
        exact Option.some.inj h ▸
          .noLoop workThreadId beginDelay timeInterval (.inr (Bool.eq_false_iff.mpr hworker))
  | push c =>
    obtain ⟨call, hcall, h⟩ := Option.bind_eq_some_iff.mp h
    obtain ⟨⟨hstage, hidle⟩, heq⟩ := Option.ite_none_right_eq_some.mp h
    exact Option.some.inj heq ▸ .push c call hcall hstage hidle
  | insert c =>
    obtain ⟨call, hcall, h⟩ := Option.bind_eq_some_iff.mp h
    obtain ⟨⟨hstage, hidle⟩, heq⟩ := Option.ite_none_right_eq_some.mp h
    exact Option.some.inj heq ▸ .insert c call hcall hstage hidle
  | execute c =>
    obtain ⟨⟨hidle, hthere⟩, heq⟩ := Option.ite_none_right_eq_some.mp h
    exact Option.some.inj heq ▸ .execute c hidle hthere
  | schedule => exact .schedule (goes_of_stepSchedule h)
  | destroy c =>
    obtain ⟨hfree, heq⟩ := Option.ite_none_left_eq_some.mp h
    exact Option.some.inj heq ▸ .destroy c hfree
  | closeTimerId timerId =>
    obtain ⟨hidle, h⟩ := Option.ite_none_right_eq_some.mp h
    split at h
    case h_1 c hmap => exact Option.some.inj h ▸ .found timerId c hidle hmap
    case h_2 hmap => exact Option.some.inj h ▸ .notFound timerId hidle hmap
  | close => exact .close (closes_of_close h)
  | tick d => exact Option.some.inj h ▸ .tick d

end TimerService

end PssClient
