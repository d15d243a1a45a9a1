import Mathlib.Logic.Function.Basic
import PssClient.Lib.Run
import PssClient.Lib.WaitFor

/-!
# The threads of the library and their locks

`CClient_Manager::close` holds `thread_mutex_` until it returns. In between it joins the I/O thread,
`TMS::Close` joins one worker after another, `TimerMgr::Close` locks `mtx`, and the timer thread is
joined. The workers lock `thread_mutex_` in `timer_check` and in the calls of the manager that
`do_message` makes, and the mutexes of the timers in the calls of `TMS`. The mutex of a worker's
queue is held for one push or pop only and is left out.

* `Manager` / `step` — the position of every thread in its code, and the owners of the mutexes. The
  join of the I/O thread returns.
* `Does` / `does_of_step` — what each action does, and when it can be taken; `Closes` and
  `Schedules` are the steps of `close` and of the schedule thread.
* `Owned` / `owned_step` — a mutex is owned by the thread whose position says so.
-/

namespace PssClient.Shutdown

open Machine WaitFor

/-- The mutexes that more than one of the threads lock: the manager's, the two of the timer manager,
and the one of `TMS`. -/
inductive Mutex
  | threadMutex
  | mtx
  | mtxQueue
  | ttmutex
  deriving DecidableEq

inductive Thread
  /-- The thread that calls `close`. -/
  | closer
  /-- A worker; from the number of workers on, another thread that calls the library. -/
  | caller (id : Nat)
  /-- The thread of `TimerMgr::schedule`. -/
  | timer
  deriving DecidableEq

/-- Where the thread is that calls `close`: before the step named. Between the lock and the end it
has `thread_mutex_`, and waits for the workers one after another. -/
inductive ClosePc
  | start
  -- at the `lock_guard`
  | lock
  -- `thread_is_run_` is false
  | skip
  -- from closing the sockets to the join of the I/O thread
  | closing
  -- `CLogicTasK::Close` of a worker, before and in its join
  | closeLogic (id : Nat)
  | join (id : Nat)
  -- `TimerMgr::Close`, before and behind the lock
  | timerLock
  | timerClose
  | timerJoin
  | done
  deriving DecidableEq

/-- Where a worker or another thread is that calls the library: it takes one mutex at a time, and
only inside the function of a message or a call. -/
inductive CallerPc
  -- `svc` between two messages
  | svc
  -- in the function of a message
  | callback
  -- at the lock of a mutex, and behind it
  | wants (m : Mutex)
  | holds (m : Mutex)
  | over
  deriving DecidableEq

/-- Where the schedule thread is among its locks. It takes `mtx_queue` only under `mtx`, and
`m_ttmutex` only in a callback, under both. -/
inductive TimerPc
  -- at the lock of `mtx`, at the beginning of `timer_run` and when a wait is over
  | wantsMtx
  | holdsMtx
  -- in `cv.wait_for`, which has released `mtx`
  | waiting
  | wantsQueue
  | holdsQueue
  -- in the callback of a one-shot timer, which is executed under both locks
  | wantsTt
  | holdsTt
  | over
  deriving DecidableEq

/-- The mutexes with their owners, and where each thread is: the one that calls `close`, the workers
and any other callers of the library, and the schedule thread. Messages and timers are left out;
which way a branch on them goes is part of the action. -/
structure Manager where
  threadCount : Nat
  threadIsRun : Bool := true
  -- `m_run` of the workers, and `timer_run_`
  mRun : Nat → Bool := fun _ => true
  timerRun : Bool := true
  closer : ClosePc := .start
  caller : Nat → CallerPc := fun _ => .svc
  timer : TimerPc := .wantsMtx
  owner : Mutex → Option Thread := fun _ => none

/-- What a thread holds at a position. -/
def ClosePc.holds : ClosePc → Mutex → Bool
  | .skip, .threadMutex | .closing, .threadMutex | .closeLogic _, .threadMutex => true
  | .join _, .threadMutex | .timerLock, .threadMutex | .timerJoin, .threadMutex => true
  | .timerClose, .threadMutex | .timerClose, .mtx => true
  | _, _ => false

def CallerPc.holdsMutex : CallerPc → Mutex → Bool
  | .holds m, m' => m = m'
  | _, _ => false

def TimerPc.holds : TimerPc → Mutex → Bool
  | .holdsMtx, .mtx | .wantsQueue, .mtx | .holdsQueue, .mtx => true
  | .wantsTt, .mtx | .holdsTt, .mtx => true
  | .holdsQueue, .mtxQueue | .wantsTt, .mtxQueue | .holdsTt, .mtxQueue => true
  | .holdsTt, .ttmutex => true
  | _, _ => false

namespace Manager

def lock (m : Mutex) (a : Thread) (s : Manager) : Option Manager :=
  if s.owner m = none then some { s with owner := Function.update s.owner m (some a) } else none

def unlock (m : Mutex) (s : Manager) : Manager :=
  { s with owner := Function.update s.owner m none }

def setCaller (id : Nat) (pc : CallerPc) (s : Manager) : Manager :=
  { s with caller := Function.update s.caller id pc }

/-- `close` takes its next step. -/
def close (s : Manager) : Option Manager :=
  match s.closer with
  | .start => some { s with closer := .lock }
  | .lock =>
    (s.lock .threadMutex .closer).map fun s =>
      { s with closer := if s.threadIsRun = true then .closing else .skip }
  | .skip => some { s.unlock .threadMutex with closer := .done }
  | .closing => some { s with closer := .closeLogic 0 }
  | .closeLogic id =>
    if id < s.threadCount then
      some { s with mRun := Function.update s.mRun id false, closer := .join id }
    else some { s with closer := .timerLock }
  | .join id => if s.caller id = .over then some { s with closer := .closeLogic (id + 1) } else none
  | .timerLock => (s.lock .mtx .closer).map fun s => { s with closer := .timerClose }
  | .timerClose => some { s.unlock .mtx with timerRun := false, closer := .timerJoin }
  | .timerJoin =>
    if s.timer = .over then
      some { s.unlock .threadMutex with threadIsRun := false, closer := .done }
    else none
  | .done => none

/-- The schedule thread takes its next step. `locks` says which way a branch goes: to the queue's
mutex rather than to the end of `timer_run`, into the callback of a one-shot timer rather than past
it. -/
def schedule (locks : Bool) (s : Manager) : Option Manager :=
  match s.timer with
  | .wantsMtx => (s.lock .mtx .timer).map fun s => { s with timer := .holdsMtx }
  | .holdsMtx =>
    if locks = true then some { s with timer := .wantsQueue }
    else some { s.unlock .mtx with timer := if s.timerRun = true then .wantsMtx else .over }
  | .waiting => some { s with timer := .wantsMtx }
  | .wantsQueue => (s.lock .mtxQueue .timer).map fun s => { s with timer := .holdsQueue }
  | .holdsQueue =>
    if locks = true then some { s with timer := .wantsTt }
    else some { s.unlock .mtxQueue with timer := .holdsMtx }
  | .wantsTt => (s.lock .ttmutex .timer).map fun s => { s with timer := .holdsTt }
  | .holdsTt => some { s.unlock .ttmutex with timer := .holdsQueue }
  | .over => none

end Manager

/-- What can happen next: one of the threads goes on. Where a thread may do one of several things,
the action says which. -/
inductive Action
  | close
  /-- A worker takes a message and calls its function. -/
  | take (id : Nat)
  /-- A caller comes to the lock of a mutex, gets it and gives it back. -/
  | request (id : Nat) (m : Mutex)
  | acquire (id : Nat)
  | release (id : Nat)
  /-- The function of the message returns. -/
  | finish (id : Nat)
  /-- `svc` ends, at the test of `m_run` or with the close message. -/
  | stop (id : Nat)
  | schedule (locks : Bool)
  /-- The schedule thread enters `cv.wait_for`. -/
  | wait

def step (s : Manager) : Action → Option Manager
  | .close => s.close
  | .take id => if s.caller id = .svc then some (s.setCaller id .callback) else none
  | .request id m =>
    -- no call of the library locks `mtx`
    if s.caller id = .callback ∧ m ≠ .mtx then some (s.setCaller id (.wants m)) else none
  | .acquire id =>
    match s.caller id with
    | .wants m => (s.lock m (.caller id)).map fun s => s.setCaller id (.holds m)
    | _ => none
  | .release id =>
    match s.caller id with
    | .holds m => some ((s.unlock m).setCaller id .callback)
    | _ => none
  | .finish id => if s.caller id = .callback then some (s.setCaller id .svc) else none
  | .stop id =>
    if s.caller id = .svc ∧ s.mRun id = false then some (s.setCaller id .over) else none
  | .schedule locks => s.schedule locks
  | .wait =>
    if s.timer = .holdsMtx then some { s.unlock .mtx with timer := .waiting } else none

/-- When `load_module` has returned. -/
def loaded (threadCount : Nat) : Manager where
  threadCount := threadCount

/-! ## What a step does -/

namespace Manager

@[simp] theorem setCaller_self (id : Nat) (pc : CallerPc) (s : Manager) :
    (s.setCaller id pc).caller id = pc := Function.update_self ..

theorem lock_eq_some {m : Mutex} {a : Thread} {s t : Manager} :
    s.lock m a = some t ↔
      s.owner m = none ∧ t = { s with owner := Function.update s.owner m (some a) } := by
  unfold lock
  split
  case isTrue hfree => exact ⟨fun h => ⟨hfree, (Option.some.inj h).symm⟩, fun h => h.2 ▸ rfl⟩
  case isFalse hheld => exact ⟨nofun, fun h => absurd h.1 hheld⟩

/-- The mutex is free, and the thread gets it. -/
def locked (m : Mutex) (a : Thread) (s : Manager) : Manager :=
  { s with owner := Function.update s.owner m (some a) }

/-- What `close` does from each of its places. -/
inductive Closes (s : Manager) : Manager → Prop
  | start (hpc : s.closer = .start) : Closes s { s with closer := .lock }
  | lock (hpc : s.closer = .lock) (hfree : s.owner .threadMutex = none)
      (hrun : s.threadIsRun = true) :
    Closes s { s.locked .threadMutex .closer with closer := .closing }
  | lockSkip (hpc : s.closer = .lock) (hfree : s.owner .threadMutex = none)
      (hrun : s.threadIsRun = false) :
    Closes s { s.locked .threadMutex .closer with closer := .skip }
  | skip (hpc : s.closer = .skip) : Closes s { s.unlock .threadMutex with closer := .done }
  | closing (hpc : s.closer = .closing) : Closes s { s with closer := .closeLogic 0 }
  | closeLogic (id : Nat) (hpc : s.closer = .closeLogic id) (hid : id < s.threadCount) :
    Closes s { s with mRun := Function.update s.mRun id false, closer := .join id }
  | closedLogic (id : Nat) (hpc : s.closer = .closeLogic id) (hid : ¬ id < s.threadCount) :
    Closes s { s with closer := .timerLock }
  | join (id : Nat) (hpc : s.closer = .join id) (hover : s.caller id = .over) :
    Closes s { s with closer := .closeLogic (id + 1) }
  | timerLock (hpc : s.closer = .timerLock) (hfree : s.owner .mtx = none) :
    Closes s { s.locked .mtx .closer with closer := .timerClose }
  | timerClose (hpc : s.closer = .timerClose) :
    Closes s { s.unlock .mtx with timerRun := false, closer := .timerJoin }
  | timerJoin (hpc : s.closer = .timerJoin) (hover : s.timer = .over) :
    Closes s { s.unlock .threadMutex with threadIsRun := false, closer := .done }

theorem closes_of_close {s s' : Manager} (h : s.close = some s') : Closes s s' := by
  unfold close at h
  split at h
  case h_1 hpc => exact Option.some.inj h ▸ .start hpc
  case h_2 hpc =>
    obtain ⟨t, hlock, rfl⟩ := Option.map_eq_some_iff.mp h
    obtain ⟨hfree, rfl⟩ := lock_eq_some.mp hlock
    dsimp only
    split
    case isTrue hrun => exact .lock hpc hfree hrun
    case isFalse hrun => exact .lockSkip hpc hfree (Bool.eq_false_iff.mpr hrun)
  case h_3 hpc => exact Option.some.inj h ▸ .skip hpc
  case h_4 hpc => exact Option.some.inj h ▸ .closing hpc
  case h_5 id hpc =>
    split at h
    case isTrue hid => exact Option.some.inj h ▸ .closeLogic id hpc hid
    case isFalse hid => exact Option.some.inj h ▸ .closedLogic id hpc hid
  case h_6 id hpc =>
    obtain ⟨hover, heq⟩ := Option.ite_none_right_eq_some.mp h
    exact Option.some.inj heq ▸ .join id hpc hover
  case h_7 hpc =>
    obtain ⟨t, hlock, rfl⟩ := Option.map_eq_some_iff.mp h
    obtain ⟨hfree, rfl⟩ := lock_eq_some.mp hlock
    exact .timerLock hpc hfree
  case h_8 hpc => exact Option.some.inj h ▸ .timerClose hpc
  case h_9 hpc =>
    obtain ⟨hover, heq⟩ := Option.ite_none_right_eq_some.mp h
    exact Option.some.inj heq ▸ .timerJoin hpc hover
  case h_10 => cases h

/-- What the schedule thread does: it moves on, locks or unlocks. -/
inductive Schedules (s : Manager) : Manager → Prop
  | move (pc : TimerPc) (hholds : s.timer.holds = pc.holds) : Schedules s { s with timer := pc }
  | lock (m : Mutex) (pc : TimerPc) (hfree : s.owner m = none)
      (hholds : ∀ m', pc.holds m' = true ↔ s.timer.holds m' = true ∨ m' = m) :
    Schedules s { s.locked m .timer with timer := pc }
  | unlock (m : Mutex) (pc : TimerPc) (hheld : s.timer.holds m = true)
      (hholds : ∀ m', pc.holds m' = true ↔ s.timer.holds m' = true ∧ m' ≠ m) :
    Schedules s { s.unlock m with timer := pc }

theorem schedules_of_lock {m : Mutex} {pc : TimerPc} {s s' : Manager}
    (h : (s.lock m .timer).map (fun s => { s with timer := pc }) = some s')
    (hholds : ∀ m', pc.holds m' = true ↔ s.timer.holds m' = true ∨ m' = m) : Schedules s s' := by
  obtain ⟨t, hlock, rfl⟩ := Option.map_eq_some_iff.mp h
  obtain ⟨hfree, rfl⟩ := lock_eq_some.mp hlock
  exact .lock m pc hfree hholds

theorem schedules_of_schedule {locks : Bool} {s s' : Manager} (h : s.schedule locks = some s') :
    Schedules s s' := by
  unfold schedule at h
  split at h
  case h_1 hpc => exact schedules_of_lock h fun m => by rw [hpc]; cases m <;> decide
  case h_2 hpc =>
    split at h
    · exact Option.some.inj h ▸ .move .wantsQueue (by rw [hpc]; funext m; cases m <;> rfl)
    · obtain rfl := Option.some.inj h
      refine .unlock .mtx _ (by rw [hpc]; rfl) fun m => ?_
      rw [hpc]
      split <;> cases m <;> decide
  case h_3 hpc =>
    exact Option.some.inj h ▸ .move .wantsMtx (by rw [hpc]; funext m; cases m <;> rfl)
  case h_4 hpc => exact schedules_of_lock h fun m => by rw [hpc]; cases m <;> decide
  case h_5 hpc =>
    split at h
    · exact Option.some.inj h ▸ .move .wantsTt (by rw [hpc]; funext m; cases m <;> rfl)
    · obtain rfl := Option.some.inj h
      exact .unlock .mtxQueue _ (by rw [hpc]; rfl) fun m => by rw [hpc]; cases m <;> decide
  case h_6 hpc => exact schedules_of_lock h fun m => by rw [hpc]; cases m <;> decide
  case h_7 hpc =>
    obtain rfl := Option.some.inj h
    exact .unlock .ttmutex _ (by rw [hpc]; rfl) fun m => by rw [hpc]; cases m <;> decide
  case h_8 => cases h

end Manager

/-- What an action does, and when it can be taken. -/
inductive Does (s : Manager) : Action → Manager → Prop
  | close {s' : Manager} (hclose : s.Closes s') : Does s .close s'
  | take (id : Nat) (hpc : s.caller id = .svc) : Does s (.take id) (s.setCaller id .callback)
  | request (id : Nat) (m : Mutex) (hpc : s.caller id = .callback) (hm : m ≠ .mtx) :
    Does s (.request id m) (s.setCaller id (.wants m))
  | acquire (id : Nat) (m : Mutex) (hpc : s.caller id = .wants m) (hfree : s.owner m = none) :
    Does s (.acquire id) ((s.locked m (.caller id)).setCaller id (.holds m))
  | release (id : Nat) (m : Mutex) (hpc : s.caller id = .holds m) :
    Does s (.release id) ((s.unlock m).setCaller id .callback)
  | finish (id : Nat) (hpc : s.caller id = .callback) : Does s (.finish id) (s.setCaller id .svc)
  | stop (id : Nat) (hpc : s.caller id = .svc) (hflag : s.mRun id = false) :
    Does s (.stop id) (s.setCaller id .over)
  | schedule {locks : Bool} {s' : Manager} (hs : s.Schedules s') : Does s (.schedule locks) s'
  | wait (hpc : s.timer = .holdsMtx) : Does s .wait { s.unlock .mtx with timer := .waiting }

theorem does_of_step {s s' : Manager} {a : Action} (h : step s a = some s') : Does s a s' := by
  cases a with
  | close => exact .close (Manager.closes_of_close h)
  | take id =>
    obtain ⟨hpc, heq⟩ := Option.ite_none_right_eq_some.mp h
    exact Option.some.inj heq ▸ .take id hpc
  | request id m =>
    obtain ⟨⟨hpc, hm⟩, heq⟩ := Option.ite_none_right_eq_some.mp h
    exact Option.some.inj heq ▸ .request id m hpc hm
  | acquire id =>
    simp only [step] at h
    split at h
    case h_1 m hpc =>
      obtain ⟨t, hlock, rfl⟩ := Option.map_eq_some_iff.mp h
      obtain ⟨hfree, rfl⟩ := Manager.lock_eq_some.mp hlock
      exact .acquire id m hpc hfree
    case h_2 => cases h
  | release id =>
    simp only [step] at h
    split at h
    case h_1 m hpc => exact Option.some.inj h ▸ .release id m hpc
    case h_2 => cases h
  | finish id =>
    obtain ⟨hpc, heq⟩ := Option.ite_none_right_eq_some.mp h
    exact Option.some.inj heq ▸ .finish id hpc
  | stop id =>
    obtain ⟨⟨hpc, hflag⟩, heq⟩ := Option.ite_none_right_eq_some.mp h
    exact Option.some.inj heq ▸ .stop id hpc hflag
  | schedule locks => exact .schedule (Manager.schedules_of_schedule h)
  | wait =>
    obtain ⟨hpc, heq⟩ := Option.ite_none_right_eq_some.mp h
    exact Option.some.inj heq ▸ .wait hpc

/-! ## Owners and positions -/

def Manager.holdsAt (s : Manager) : Thread → Mutex → Bool
  | .closer => s.closer.holds
  | .caller id => (s.caller id).holdsMutex
  | .timer => s.timer.holds

/-- A mutex is owned by the thread that holds it at its position. It makes the wait-for relation one
between positions, so that it can be read off where the threads are. -/
def Owned (s : Manager) : Prop := Owners s.owner s.holdsAt

theorem owned_same {s s' : Manager} (h : Owned s) (howner : s'.owner = s.owner)
    (hholds : ∀ a, s'.holdsAt a = s.holdsAt a) : Owned s' := by
  intro m a
  rw [howner, hholds a]
  exact h m a

/-- What the closing thread does leaves the others where they are. -/
theorem holdsAt_closer {s t : Manager} (hcaller : t.caller = s.caller)
    (htimer : t.timer = s.timer) : ∀ a, a ≠ .closer → t.holdsAt a = s.holdsAt a := by
  rintro (_ | id | _) ha
  · exact absurd rfl ha
  · show (t.caller id).holdsMutex = _
    rw [hcaller]
    rfl
  · show t.timer.holds = _
    rw [htimer]
    rfl

/-- The thread that calls `close` gets and gives back what its place says: `thread_mutex_` from the
lock to the end, and `mtx` for the section in `TimerMgr::Close`. -/
theorem owned_close {s s' : Manager} (h : Owned s) (hs : s.Closes s') : Owned s' := by
  -- from one position to another, with the same held there
  have hmove : ∀ t : Manager, t.owner = s.owner → t.caller = s.caller → t.timer = s.timer →
      (∀ m, t.closer.holds m = s.closer.holds m) → Owned t := by
    intro t howner hcaller htimer hcloser
    apply owned_same h howner
    intro a
    by_cases ha : a = .closer
    · subst ha
      exact funext hcloser
    · exact holdsAt_closer hcaller htimer a ha
  have hlock : ∀ m₀ pc, s.owner m₀ = none →
      (∀ m, ClosePc.holds pc m = true ↔ s.closer.holds m = true ∨ m = m₀) →
      Owned { s.locked m₀ .closer with closer := pc } :=
    fun m₀ pc hfree hpc => Owners.lock h hfree hpc (holdsAt_closer rfl rfl)
  have hunlock : ∀ m₀ pc (t : Manager), t.owner = (s.unlock m₀).owner → t.caller = s.caller →
      t.timer = s.timer → t.closer = pc → s.closer.holds m₀ = true →
      (∀ m, ClosePc.holds pc m = true ↔ s.closer.holds m = true ∧ m ≠ m₀) → Owned t := by
    rintro m₀ pc t howner hcaller htimer rfl hheld hpc
    have hgiven := Owners.unlock (x := Thread.closer) h hheld hpc
      (holdsAt_closer hcaller htimer)
    rwa [← show t.owner = Function.update s.owner m₀ none from howner] at hgiven
  cases hs with
  | start hpc => exact hmove _ rfl rfl rfl fun m => by rw [hpc]; cases m <;> rfl
  | lock hpc hfree => exact hlock _ .closing hfree fun m => by rw [hpc]; cases m <;> decide
  | lockSkip hpc hfree => exact hlock _ .skip hfree fun m => by rw [hpc]; cases m <;> decide
  | skip hpc =>
    exact hunlock .threadMutex .done _ rfl rfl rfl rfl (by rw [hpc]; rfl)
      fun m => by rw [hpc]; cases m <;> decide
  | closing hpc => exact hmove _ rfl rfl rfl fun m => by rw [hpc]; cases m <;> rfl
  | closeLogic id hpc => exact hmove _ rfl rfl rfl fun m => by rw [hpc]; cases m <;> rfl
  | closedLogic id hpc => exact hmove _ rfl rfl rfl fun m => by rw [hpc]; cases m <;> rfl
  | join id hpc => exact hmove _ rfl rfl rfl fun m => by rw [hpc]; cases m <;> rfl
  | timerLock hpc hfree => exact hlock _ .timerClose hfree fun m => by rw [hpc]; cases m <;> decide
  | timerClose hpc =>
    exact hunlock .mtx .timerJoin _ rfl rfl rfl rfl (by rw [hpc]; rfl)
      fun m => by rw [hpc]; cases m <;> decide
  | timerJoin hpc =>
    exact hunlock .threadMutex .done _ rfl rfl rfl rfl (by rw [hpc]; rfl)
      fun m => by rw [hpc]; cases m <;> decide

/-- What the schedule thread does leaves the others where they are. -/
theorem holdsAt_timer {s t : Manager} (hcloser : t.closer = s.closer)
    (hcaller : t.caller = s.caller) : ∀ a, a ≠ .timer → t.holdsAt a = s.holdsAt a := by
  rintro (_ | id | _) ha
  · show t.closer.holds = _
    rw [hcloser]
    rfl
  · show (t.caller id).holdsMutex = _
    rw [hcaller]
    rfl
  · exact absurd rfl ha

theorem owned_schedule {s s' : Manager} (h : Owned s) (hs : s.Schedules s') : Owned s' := by
  cases hs with
  | move pc hholds =>
    refine owned_same h rfl fun a => ?_
    by_cases ha : a = .timer
    · subst ha
      exact hholds.symm
    · exact holdsAt_timer (s := s) (t := { s with timer := pc }) rfl rfl a ha
  | lock m pc hfree hholds => exact Owners.lock h hfree hholds (holdsAt_timer rfl rfl)
  | unlock m pc hheld hholds =>
    exact Owners.unlock (x := Thread.timer) h hheld hholds (holdsAt_timer rfl rfl)

/-- What a caller does leaves the others where they are. -/
theorem holdsAt_caller {s t : Manager} {id : Nat} {pc : CallerPc} (hcloser : t.closer = s.closer)
    (htimer : t.timer = s.timer) (hcaller : t.caller = Function.update s.caller id pc) :
    ∀ a, a ≠ .caller id → t.holdsAt a = s.holdsAt a := by
  rintro (_ | id' | _) ha
  · show t.closer.holds = _
    rw [hcloser]
    rfl
  · have hid : id' ≠ id := fun heq => ha (congrArg Thread.caller heq)
    show (t.caller id').holdsMutex = _
    rw [hcaller, Function.update_of_ne hid]
    rfl
  · show t.timer.holds = _
    rw [htimer]
    rfl

/-- A caller moves on between two positions at which it holds nothing. -/
theorem owned_setCaller {s : Manager} {id : Nat} {pc : CallerPc} (h : Owned s)
    (hold : ∀ m, (s.caller id).holdsMutex m = false) (hnew : ∀ m, pc.holdsMutex m = false) :
    Owned (s.setCaller id pc) := by
  refine owned_same h rfl fun a => ?_
  by_cases ha : a = .caller id
  · subst ha
    show ((s.setCaller id pc).caller id).holdsMutex = (s.caller id).holdsMutex
    rw [Manager.setCaller_self]
    funext m
    rw [hold m, hnew m]
  · exact holdsAt_caller (s := s) (t := s.setCaller id pc) rfl rfl rfl a ha

theorem owned_step {s s' : Manager} {a : Action} (h : Owned s) (hs : step s a = some s') :
    Owned s' := by
  cases does_of_step hs with
  | close hclose => exact owned_close h hclose
  | take id hpc => exact owned_setCaller h (fun _ => by rw [hpc]; rfl) fun _ => rfl
  | request id m hpc => exact owned_setCaller h (fun _ => by rw [hpc]; rfl) fun _ => rfl
  | acquire id m hpc hfree =>
    refine Owners.lock h hfree (fun m' => ?_) (holdsAt_caller rfl rfl rfl)
    show (Function.update s.caller id (.holds m) id).holdsMutex m' = true ↔
      (s.caller id).holdsMutex m' = true ∨ m' = m
    rw [Function.update_self, hpc]
    show decide (m = m') = true ↔ false = true ∨ m' = m
    rw [decide_eq_true_iff]
    exact ⟨fun heq => .inr heq.symm, fun hor => (hor.resolve_left nofun).symm⟩
  | release id m hpc =>
    have hheld : ∀ m', s.holdsAt (.caller id) m' = decide (m = m') := fun m' => by
      show (s.caller id).holdsMutex m' = _
      rw [hpc]
      rfl
    refine Owners.unlock h (by rw [hheld]; exact decide_eq_true rfl) (fun m' => ?_)
      (holdsAt_caller rfl rfl rfl)
    show (Function.update s.caller id .callback id).holdsMutex m' = true ↔ _
    rw [Function.update_self, hheld, decide_eq_true_iff]
    exact ⟨nofun, fun hboth => absurd hboth.1.symm hboth.2⟩
  | finish id hpc => exact owned_setCaller h (fun _ => by rw [hpc]; rfl) fun _ => rfl
  | stop id hpc => exact owned_setCaller h (fun _ => by rw [hpc]; rfl) fun _ => rfl
  | schedule hschedule => exact owned_schedule h hschedule
  | wait hpc =>
    -- as for the other places at which the schedule thread gives a mutex back
    refine owned_schedule h (.unlock .mtx .waiting (by rw [hpc]; rfl) fun m => ?_)
    rw [hpc]
    cases m <;> decide

theorem owned_loaded (threadCount : Nat) : Owned (loaded threadCount) := by
  rintro m (_ | id | _)
  · cases m <;> exact ⟨nofun, nofun⟩
  · exact ⟨nofun, nofun⟩
  · cases m <;> exact ⟨nofun, nofun⟩

end PssClient.Shutdown
