import PssClient.Manager.Threads

/-!
# Shutting down

`close` joins the workers while it holds the mutex that their calls of the manager lock.

* `Manager.waits` — who waits for whom, at a lock or in a join.
* `Clear` — the condition: no worker is at `thread_mutex_` while `close` has it. `Unobstructed` is
  what it keeps up, and under `rank` every wait goes up then.
* `Stuck` — otherwise: a worker at the mutex of a `close` that has still to join it.
* `shutdown` — the result; `shutdown_deadlock` is a worker that sends inside its callback.
-/

namespace PssClient.Shutdown

open Machine WaitFor

/-! ## Waiting -/

namespace Manager

/-- The thread is at the lock of the mutex. -/
def wants (s : Manager) : Thread → Mutex → Prop
  | .closer, .threadMutex => s.closer = .lock
  | .closer, .mtx => s.closer = .timerLock
  | .caller id, m => s.caller id = .wants m
  | .timer, .mtx => s.timer = .wantsMtx
  | .timer, .mtxQueue => s.timer = .wantsQueue
  | .timer, .ttmutex => s.timer = .wantsTt
  | _, _ => False

/-- The thread is in the join of the other, which has not ended. -/
def joins (s : Manager) : Thread → Thread → Prop
  | .closer, .caller id => s.closer = .join id ∧ s.caller id ≠ .over
  | .closer, .timer => s.closer = .timerJoin ∧ s.timer ≠ .over
  | _, _ => False

/-- The wait-for relation: a thread waits for the owner of the mutex that it wants, and in a join
for the thread that it joins. -/
def waits (s : Manager) : Thread → Thread → Prop :=
  Waits s.wants (fun a m => s.owner m = some a) s.joins

end Manager

/-- `close` has `thread_mutex_` and is shutting the library down. -/
def ClosePc.shuttingDown : ClosePc → Bool
  | .closing | .closeLogic _ | .join _ | .timerLock | .timerClose | .timerJoin => true
  | _ => false

/-- A worker does not come to the lock of `thread_mutex_` while `close` has it, nor is it there when
`close` gets it to shut down. -/
def Clear (s : Manager) : Action → Prop
  | .request id .threadMutex => id < s.threadCount → s.closer.shuttingDown = false
  | .close => s.closer = .lock → s.threadIsRun = true →
      ∀ id < s.threadCount, s.caller id ≠ .wants .threadMutex
  | _ => True

instance decidableClear (s : Manager) : (a : Action) → Decidable (Clear s a)
  | .request id .threadMutex =>
    inferInstanceAs (Decidable (id < s.threadCount → s.closer.shuttingDown = false))
  | .close =>
    inferInstanceAs (Decidable (s.closer = .lock → s.threadIsRun = true →
      ∀ id < s.threadCount, s.caller id ≠ .wants .threadMutex))
  | .request _ .mtx | .request _ .mtxQueue | .request _ .ttmutex => .isTrue trivial
  | .take _ | .acquire _ | .release _ | .finish _ | .stop _ | .schedule _ | .wait => .isTrue trivial

/-- What `close` waits for is still to be reached, and no worker stands at its mutex. -/
structure Unobstructed (s : Manager) : Prop where
  owned : Owned s
  joining : ∀ id, s.closer = .join id → id < s.threadCount
  free : s.closer.shuttingDown = true → ∀ id < s.threadCount, s.caller id ≠ .wants .threadMutex

/-! How far up in the waits a thread is: one that waits for nothing is at the top. -/

def ClosePc.rank : ClosePc → Nat
  | .lock | .join _ | .timerLock | .timerJoin => 1
  | _ => 4

def CallerPc.rank (worker : Bool) : CallerPc → Nat
  | .wants .threadMutex => if worker then 2 else 0
  | .wants _ => 2
  | _ => 4

def TimerPc.rank : TimerPc → Nat
  | .wantsMtx | .wantsQueue | .wantsTt => 3
  | _ => 4

theorem ClosePc.rank_of_holds {pc : ClosePc} {m : Mutex} (h : pc.holds m = true) :
    pc.rank = 4 ∨ pc.rank = 1 ∧ m = .threadMutex ∧ pc.shuttingDown = true := by
  cases pc <;> cases m <;> first | exact .inl rfl | exact .inr ⟨rfl, rfl, rfl⟩ | cases h

/-- A caller that holds something waits for nothing. -/
theorem CallerPc.rank_of_holds {pc : CallerPc} {m : Mutex} (worker : Bool)
    (h : pc.holdsMutex m = true) : pc.rank worker = 4 := by
  cases pc with
  | holds m' => rfl
  | _ => cases h

theorem CallerPc.rank_worker (pc : CallerPc) : 2 ≤ pc.rank true := by
  cases pc with
  | wants m => cases m <;> decide
  | holds m =>
    show 2 ≤ 4
    decide
  | _ => decide

theorem CallerPc.rank_wants (worker : Bool) (m : Mutex) : (CallerPc.wants m).rank worker ≤ 2 := by
  cases m <;> cases worker <;> decide

theorem TimerPc.rank_ge (pc : TimerPc) : 3 ≤ pc.rank := by cases pc <;> decide

def rank (s : Manager) : Thread → Nat
  | .closer => s.closer.rank
  | .caller id => (s.caller id).rank (decide (id < s.threadCount))
  | .timer => s.timer.rank

theorem rank_lt_of_joins {s : Manager} (h : Unobstructed s) {a b : Thread} (hjoins : s.joins a b) :
    rank s a < rank s b := by
  cases a with
  | closer =>
    cases b with
    | closer => exact hjoins.elim
    | caller id =>
      show s.closer.rank < (s.caller id).rank _
      rw [hjoins.1, decide_eq_true (h.joining id hjoins.1)]
      exact (s.caller id).rank_worker
    | timer =>
      show s.closer.rank < s.timer.rank
      rw [hjoins.1]
      exact Nat.lt_of_lt_of_le (by decide) s.timer.rank_ge
  | caller id => exact hjoins.elim
  | timer => exact hjoins.elim

/-- Along the wait-for relation the ranks rise: a thread that wants a mutex has a lower rank than
the one that holds it. The ranks are the order in which the library takes its locks, `thread_mutex_`
first; the condition is needed where a worker would want that one while `close` is to join it. -/
theorem rank_lt_of_wants {s : Manager} (h : Unobstructed s) {a b : Thread} {m : Mutex}
    (hwants : s.wants a m) (hholds : s.holdsAt b m = true) : rank s a < rank s b := by
  cases a with
  | closer =>
    have hrank : s.closer.rank = 1 := by
      cases m with
      | threadMutex => rw [show s.closer = .lock from hwants]; rfl
      | mtx => rw [show s.closer = .timerLock from hwants]; rfl
      | _ => exact hwants.elim
    show s.closer.rank < _
    rw [hrank]
    cases b with
    | closer =>
      -- at a lock `close` does not hold the mutex yet
      have hself : s.closer.holds m = true := hholds
      cases m with
      | threadMutex => rw [show s.closer = .lock from hwants] at hself; cases hself
      | mtx => rw [show s.closer = .timerLock from hwants] at hself; cases hself
      | _ => exact hwants.elim
    | caller id =>
      rw [rank, CallerPc.rank_of_holds _ hholds]
      decide
    | timer => exact Nat.lt_of_lt_of_le (by decide) s.timer.rank_ge
  | caller id =>
    have hpc : s.caller id = .wants m := hwants
    have hle : (s.caller id).rank (decide (id < s.threadCount)) ≤ 2 := by
      rw [hpc]
      exact CallerPc.rank_wants _ m
    show (s.caller id).rank _ < _
    cases b with
    | closer =>
      rcases ClosePc.rank_of_holds hholds with hrank | ⟨hrank, rfl, hdown⟩
      · show _ < s.closer.rank
        omega
      · -- only a thread that is no worker stands at the mutex
        have hother : ¬ id < s.threadCount := fun hid => h.free hdown id hid hpc
        show _ < s.closer.rank
        rw [hrank, hpc, decide_eq_false hother]
        decide
    | caller id' =>
      rw [rank, CallerPc.rank_of_holds _ hholds]
      omega
    | timer => exact Nat.lt_of_le_of_lt hle s.timer.rank_ge
  | timer =>
    have hrank : s.timer.rank = 3 := by
      cases m with
      | mtx => rw [show s.timer = .wantsMtx from hwants]; rfl
      | mtxQueue => rw [show s.timer = .wantsQueue from hwants]; rfl
      | ttmutex => rw [show s.timer = .wantsTt from hwants]; rfl
      | threadMutex => exact hwants.elim
    show s.timer.rank < _
    rw [hrank]
    cases b with
    | closer =>
      rcases ClosePc.rank_of_holds hholds with htop | ⟨-, rfl, -⟩
      · show _ < s.closer.rank
        omega
      · exact hwants.elim
    | caller id =>
      rw [rank, CallerPc.rank_of_holds _ hholds]
      decide
    | timer =>
      have hself : s.timer.holds m = true := hholds
      cases m with
      | mtx => rw [show s.timer = .wantsMtx from hwants] at hself; cases hself
      | mtxQueue => rw [show s.timer = .wantsQueue from hwants] at hself; cases hself
      | ttmutex => rw [show s.timer = .wantsTt from hwants] at hself; cases hself
      | threadMutex => exact hwants.elim

theorem not_deadlock {s : Manager} (h : Unobstructed s) : ¬ Deadlock s.waits := by
  apply not_deadlock_of_rank (rank s)
  intro a b hwaits
  cases hwaits with
  | lock hwants howner => exact rank_lt_of_wants h hwants ((h.owned _ b).mp howner)
  | join hjoins => exact rank_lt_of_joins h hjoins

/-! ## Runs -/

/-- The steps of `close` itself. -/
theorem close_cases {s s' : Manager} (hs : s.close = some s') :
    s'.threadCount = s.threadCount ∧ s'.caller = s.caller ∧
      (∀ id, s'.closer = .join id → id < s.threadCount) ∧
      (s'.closer.shuttingDown = true →
        s.closer.shuttingDown = true ∨
          s.closer = .lock ∧ s.threadIsRun = true ∧ s'.closer = .closing) := by
  cases Manager.closes_of_close hs with
  | start => exact ⟨rfl, rfl, nofun, nofun⟩
  | lock hpc hfree hrun => exact ⟨rfl, rfl, nofun, fun _ => .inr ⟨hpc, hrun, rfl⟩⟩
  | lockSkip => exact ⟨rfl, rfl, nofun, nofun⟩
  | skip => exact ⟨rfl, rfl, nofun, nofun⟩
  | closing hpc => exact ⟨rfl, rfl, nofun, fun _ => .inl (by rw [hpc]; rfl)⟩
  | closeLogic id hpc hid =>
    exact ⟨rfl, rfl, fun _ hjoin => ClosePc.join.inj hjoin ▸ hid,
      fun _ => .inl (by rw [hpc]; rfl)⟩
  | closedLogic id hpc => exact ⟨rfl, rfl, nofun, fun _ => .inl (by rw [hpc]; rfl)⟩
  | join id hpc => exact ⟨rfl, rfl, nofun, fun _ => .inl (by rw [hpc]; rfl)⟩
  | timerLock hpc => exact ⟨rfl, rfl, nofun, fun _ => .inl (by rw [hpc]; rfl)⟩
  | timerClose hpc => exact ⟨rfl, rfl, nofun, fun _ => .inl (by rw [hpc]; rfl)⟩
  | timerJoin => exact ⟨rfl, rfl, nofun, nofun⟩

/-- What the other steps do to the callers: one of them moves at most, it has not ended, it comes to
a lock by a request and leaves one when the mutex is free. -/
def Moves (s s' : Manager) (a : Action) : Prop :=
  s'.caller = s.caller ∨ ∃ id pc, s'.caller = Function.update s.caller id pc ∧
    s.caller id ≠ .over ∧ (∀ m, pc = .wants m → a = .request id m) ∧
    ∀ m, s.caller id = .wants m → s.owner m = none

theorem other_cases {s s' : Manager} {a : Action} (ha : a ≠ .close) (hs : step s a = some s') :
    s'.threadCount = s.threadCount ∧ s'.closer = s.closer ∧ Moves s s' a := by
  cases does_of_step hs with
  | close => exact absurd rfl ha
  | take id hpc =>
    exact ⟨rfl, rfl, .inr ⟨id, .callback, rfl, by simp [hpc], by simp, by simp [hpc]⟩⟩
  | request id m hpc =>
    refine ⟨rfl, rfl, .inr ⟨id, .wants m, rfl, by simp [hpc], ?_, by simp [hpc]⟩⟩
    rintro m' heq
    rw [CallerPc.wants.inj heq]
  | acquire id m hpc hfree =>
    refine ⟨rfl, rfl, .inr ⟨id, .holds m, rfl, by simp [hpc], by simp, ?_⟩⟩
    rintro m' hwants
    rw [hpc] at hwants
    rw [← CallerPc.wants.inj hwants]
    exact hfree
  | release id m hpc =>
    exact ⟨rfl, rfl, .inr ⟨id, .callback, rfl, by simp [hpc], by simp, by simp [hpc]⟩⟩
  | finish id hpc =>
    exact ⟨rfl, rfl, .inr ⟨id, .svc, rfl, by simp [hpc], by simp, by simp [hpc]⟩⟩
  | stop id hpc =>
    exact ⟨rfl, rfl, .inr ⟨id, .over, rfl, by simp [hpc], by simp, by simp [hpc]⟩⟩
  | schedule hschedule => cases hschedule <;> exact ⟨rfl, rfl, .inl rfl⟩
  | wait => exact ⟨rfl, rfl, .inl rfl⟩

/-- A caller is at a lock because it was there before or has just come. -/
theorem Moves.wants_before {s s' : Manager} {a : Action} (h : Moves s s' a) {id : Nat} {m : Mutex}
    (hwants : s'.caller id = .wants m) : s.caller id = .wants m ∨ a = .request id m := by
  rcases h with hsame | ⟨id', pc, hcaller, -, hrequest, -⟩
  · exact .inl (hsame ▸ hwants)
  · rw [hcaller] at hwants
    by_cases hid : id = id'
    · subst hid
      rw [Function.update_self] at hwants
      exact .inr (hrequest m hwants)
    · rw [Function.update_of_ne hid] at hwants
      exact .inl hwants

/-- It stays there while another thread has the mutex. -/
theorem Moves.wants_after {s s' : Manager} {a : Action} (h : Moves s s' a) {id : Nat} {m : Mutex}
    (hwants : s.caller id = .wants m) (howned : s.owner m ≠ none) : s'.caller id = .wants m := by
  rcases h with hsame | ⟨id', pc, hcaller, -, -, hfree⟩
  · rw [hsame]
    exact hwants
  · rw [hcaller]
    by_cases hid : id = id'
    · subst hid
      exact absurd (hfree m hwants) howned
    · rw [Function.update_of_ne hid]
      exact hwants

theorem Moves.over_after {s s' : Manager} {a : Action} (h : Moves s s' a) {id : Nat}
    (hover : s.caller id = .over) : s'.caller id = .over := by
  rcases h with hsame | ⟨id', pc, hcaller, hnot, -, -⟩
  · rw [hsame]
    exact hover
  · rw [hcaller]
    by_cases hid : id = id'
    · subst hid
      exact absurd hover hnot
    · rw [Function.update_of_ne hid]
      exact hover

theorem unobstructed_step {s s' : Manager} {a : Action} (h : Unobstructed s) (hG : Clear s a)
    (hs : step s a = some s') : Unobstructed s' := by
  have howned := owned_step h.owned hs
  by_cases ha : a = .close
  · subst ha
    obtain ⟨hcount, hcaller, hjoin, hdown⟩ := close_cases hs
    refine ⟨howned, fun id hid => hcount ▸ hjoin id hid, fun hdown' id hid => ?_⟩
    rw [hcaller]
    rcases hdown hdown' with hbefore | ⟨hlock, hisRun, -⟩
    · exact h.free hbefore id (hcount ▸ hid)
    · exact hG hlock hisRun id (hcount ▸ hid)
  · obtain ⟨hcount, hcloser, hcaller⟩ := other_cases ha hs
    refine ⟨howned, fun id hid => hcount ▸ h.joining id (hcloser ▸ hid),
      fun hdown id hid hwants => ?_⟩
    rw [hcloser] at hdown
    rw [hcount] at hid
    rcases hcaller.wants_before hwants with hbefore | rfl
    · exact h.free hdown id hid hbefore
    · rw [show s.closer.shuttingDown = false from hG hid] at hdown
      cases hdown

/-! ## A worker at the mutex -/

/-- `close` has the mutex and has not got past the join of the worker. -/
def ClosePc.upTo (id : Nat) : ClosePc → Prop
  | .closing => True
  | .closeLogic id' | .join id' => id' ≤ id
  | _ => False

/-- A worker that `close` has got past has ended, since `close` has waited for it. -/
def Passed (s : Manager) : Prop :=
  ∀ id < s.threadCount, s.closer.shuttingDown = true → s.closer.upTo id ∨ s.caller id = .over

theorem close_upTo {s s' : Manager} {id : Nat} (hs : s.close = some s') (hid : id < s.threadCount)
    (hup : s.closer.upTo id) (hover : s.caller id ≠ .over) : s'.closer.upTo id := by
  cases Manager.closes_of_close hs with
  | closing => exact Nat.zero_le id
  | closeLogic id' hpc =>
    rw [hpc] at hup
    exact hup
  | closedLogic id' hpc hid' =>
    rw [hpc] at hup
    exact absurd (Nat.lt_of_le_of_lt hup hid) hid'
  | join id' hpc hended =>
    rw [hpc] at hup
    have hle : id' ≤ id := hup
    have hne : id' ≠ id := fun heq => hover (heq ▸ hended)
    show id' + 1 ≤ id
    omega
  -- at the other places `close` is before the workers or behind them
  | start hpc | lock hpc | lockSkip hpc | skip hpc | timerLock hpc | timerClose hpc
  | timerJoin hpc =>
    rw [hpc] at hup
    exact hup.elim

theorem passed_step {s s' : Manager} {a : Action} (h : Passed s) (hs : step s a = some s') :
    Passed s' := by
  by_cases ha : a = .close
  · subst ha
    obtain ⟨hcount, hcaller, -, hdown⟩ := close_cases hs
    intro id hid hdown'
    rw [hcount] at hid
    rw [hcaller]
    rcases hdown hdown' with hbefore | ⟨-, -, hclosing⟩
    · by_cases hover : s.caller id = .over
      · exact .inr hover
      · exact .inl (close_upTo hs hid ((h id hid hbefore).resolve_right hover) hover)
    · rw [hclosing]
      exact .inl trivial
  · obtain ⟨hcount, hcloser, hmoves⟩ := other_cases ha hs
    intro id hid hdown
    rw [hcount] at hid
    rw [hcloser] at hdown ⊢
    exact (h id hid hdown).imp_right hmoves.over_after

/-- A worker is at the mutex that `close` has, and `close` has still to join it. No step of anyone
ends this: the worker cannot get the mutex, and `close` cannot get past the join. -/
structure Stuck (id : Nat) (s : Manager) : Prop where
  owned : Owned s
  worker : id < s.threadCount
  waiting : s.caller id = .wants .threadMutex
  ahead : s.closer.upTo id

theorem ClosePc.holds_of_upTo {pc : ClosePc} {id : Nat} (h : pc.upTo id) :
    pc.holds .threadMutex = true := by
  cases pc with
  | closing => rfl
  | closeLogic id' => rfl
  | join id' => rfl
  | _ => exact h.elim

theorem stuck_step {id : Nat} {s s' : Manager} {a : Action} (h : Stuck id s)
    (hs : step s a = some s') : Stuck id s' := by
  have howned := owned_step h.owned hs
  by_cases ha : a = .close
  · subst ha
    obtain ⟨hcount, hcaller, -, -⟩ := close_cases hs
    refine ⟨howned, hcount ▸ h.worker, hcaller ▸ h.waiting, close_upTo hs h.worker h.ahead ?_⟩
    rw [h.waiting]
    exact nofun
  · obtain ⟨hcount, hcloser, hmoves⟩ := other_cases ha hs
    have hown : s.owner .threadMutex = some .closer :=
      (h.owned _ _).mpr (ClosePc.holds_of_upTo h.ahead)
    refine ⟨howned, hcount ▸ h.worker, hmoves.wants_after h.waiting ?_, hcloser ▸ h.ahead⟩
    rw [hown]
    exact nofun

/-- Once the condition is broken, `close` and a worker are stuck. Either `close` has taken the mutex
and the worker now comes to it, or the worker was there already when `close` took it. -/
theorem stuck_of_not_clear {s s' : Manager} {a : Action} (howned : Owned s) (hpassed : Passed s)
    (hG : ¬ Clear s a) (hs : step s a = some s') : ∃ id, Stuck id s' := by
  have howned' := owned_step howned hs
  cases a with
  | request id m =>
    cases m with
    | threadMutex =>
      obtain ⟨hid, hdown⟩ := Classical.not_imp.mp hG
      obtain ⟨⟨hpc, -⟩, hs⟩ := Option.ite_none_right_eq_some.mp hs
      obtain rfl := Option.some.inj hs
      have hup : s.closer.upTo id := by
        refine (hpassed id hid (by simpa using hdown)).resolve_right ?_
        rw [hpc]
        exact nofun
      exact ⟨id, howned', hid, Manager.setCaller_self .., hup⟩
    | _ => exact absurd trivial hG
  | close =>
    have hG' : ¬ (s.closer = .lock → s.threadIsRun = true →
        ∀ id < s.threadCount, s.caller id ≠ .wants .threadMutex) := hG
    push Not at hG'
    obtain ⟨hlock, hisRun, id, hid, hwants⟩ := hG'
    obtain ⟨hcount, hcaller, -, -⟩ := close_cases hs
    have hclosing : s'.closer = .closing := by
      cases Manager.closes_of_close hs with
      | lock => rfl
      | lockSkip hpc hfree hrun => exact absurd (hisRun.symm.trans hrun) nofun
      | start hpc | skip hpc | closing hpc | closeLogic _ hpc | closedLogic _ hpc | join _ hpc
      | timerLock hpc | timerClose hpc | timerJoin hpc => cases hlock.symm.trans hpc
    exact ⟨id, howned', hcount ▸ hid, hcaller ▸ hwants, hclosing ▸ trivial⟩
  | _ => exact absurd trivial hG

/-! ## The result -/

/-- **Shutdown does not deadlock — unless a worker comes to `thread_mutex_`.** For any number of
workers and all interleavings of `close` with the workers, with other threads that call the library
and with the schedule thread: in a run in which no worker is at the lock of `thread_mutex_` while
`close` has it to shut down, no state is reached in which threads wait for each other in a circle;
and when a worker is, then `close` never returns. -/
theorem shutdown (threadCount : Nat) (as : List Action) (s : Manager)
    (hrun : run step (loaded threadCount) as = some s) :
    (Meets step Clear (loaded threadCount) as → ¬ Deadlock s.waits) ∧
      ∀ a s', step s a = some s' → ¬ Clear s a →
        ∀ bs t, run step s' bs = some t → t.closer ≠ .done := by
  constructor
  · intro hG
    have hstart : Unobstructed (loaded threadCount) := ⟨owned_loaded threadCount, nofun, nofun⟩
    exact not_deadlock
      (invariant_of_meets Unobstructed (fun _ _ _ => unobstructed_step) hstart hG hrun)
  · intro a s' hs hG bs t hrun'
    have howned : Owned s := invariant_of_run Owned (fun _ _ _ => owned_step)
      (owned_loaded threadCount) hrun
    have hpassed : Passed s := invariant_of_run Passed (fun _ _ _ => passed_step)
      (fun _ _ hdown => by cases hdown) hrun
    obtain ⟨id, hstuck⟩ := stuck_of_not_clear howned hpassed hG hs
    have h : Stuck id t := invariant_of_run (Stuck id) (fun _ _ _ => stuck_step) hstuck hrun'
    intro hdone
    have hup := h.ahead
    rw [hdone] at hup
    exact hup

/-- A worker sends inside its callback, a timer is executed, and `close` comes after both. -/
def quietShutdown : List Action :=
  [.take 0, .request 0 .threadMutex, .acquire 0, .close, .release 0, .finish 0, .schedule true,
    .schedule true, .schedule true, .schedule true, .schedule true, .schedule true, .schedule false,
    .close, .close, .close, .stop 0, .close, .close, .schedule false, .close, .close,
    .schedule false, .schedule false, .close]

theorem shutdown_quietShutdown :
    ∃ s, run step (loaded 1) quietShutdown = some s ∧ s.closer = .done ∧ ¬ Deadlock s.waits := by
  have hclear : Meets step Clear (loaded 1) quietShutdown := by decide +kernel
  exact ⟨_, rfl, rfl, (shutdown 1 quietShutdown _ rfl).1 hclear⟩

/-- A worker takes a message before `close` and sends inside its callback after. -/
def sendingShutdown : List Action :=
  [.take 0, .close, .close, .request 0 .threadMutex, .close, .close]

theorem shutdown_deadlock :
    ∃ s, run step (loaded 1) sendingShutdown = some s ∧ s.closer = .join 0 ∧
      s.caller 0 = .wants .threadMutex ∧ s.owner .threadMutex = some .closer ∧
      Deadlock s.waits :=
  ⟨_, rfl, rfl, rfl, rfl, deadlock_of_pair (a := .closer) (b := .caller 0)
    (.join ⟨rfl, by decide⟩) (.lock (m := .threadMutex) rfl rfl)⟩

end PssClient.Shutdown
