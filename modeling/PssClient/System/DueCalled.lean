import PssClient.System.Timed
import PssClient.Timer.CatchUp

/-!
# The timers that are due are called

What the schedule thread and the workers do for the timers that are due. The manager compares its
timers and looks at them with 64-bit counts.

* `step64` — the steps of `Timed`, those of the manager with its 64-bit counts. When the times are
  small, its runs are those of `step` (`run64`).
* `length_own` — the threads left alone take a bounded number of steps, in any order.
* `due_called` — the result: then the workers have called the functions of the timers that were due,
  in the order in which these expired.
-/

namespace PssClient.Timed

open Machine Tms

/-! ## The 64-bit counts -/

def sched64 (s : Timed) : Option Timed :=
  if s.toPut = none then
    (TimerMgr.sched64 s.mgr).map fun mgr => { s with mgr := mgr, hasPut := false }
  else none

def step64 (s : Timed) : Action → Option Timed
  | .timer a =>
    if others a = true then (TimerMgr.step64 s.mgr a).map fun mgr => { s with mgr := mgr } else none
  | .sched => sched64 s
  | a => step s a

/-- The manager's part of a step keeps to small times. -/
def Small (s : Timed) (a : Action) : Prop := ∀ b ∈ a.mgr s, b.Bounded s.mgr.now

instance (s : Timed) (a : Action) : Decidable (Small s a) :=
  inferInstanceAs (Decidable (∀ b ∈ a.mgr s, b.Bounded s.mgr.now))

theorem step64_eq {s : Timed} {a : Action} (h : s.mgr.Bounded) (ha : Small s a) :
    step64 s a = step s a := by
  cases a with
  | timer a =>
    have hsame := TimerMgr.step64_eq s.mgr a (TimerMgr.inRange_of_bounded h (ha a rfl))
    simp only [step64, step, hsame]
  | sched =>
    have hsame : TimerMgr.sched64 s.mgr = TimerMgr.sched s.mgr :=
      TimerMgr.step64_eq s.mgr .sched (TimerMgr.inRange_of_bounded h (ha .sched rfl))
    simp only [step64, step, sched64, sched, hsame]
  | _ => rfl

theorem bounded_step {s s' : Timed} {a : Action} (h : s.mgr.Bounded) (ha : Small s a)
    (hs : step s a = some s') : s'.mgr.Bounded := by
  have hpart := mgr_of_step s a s' hs
  cases hmgr : a.mgr s with
  | none =>
    rw [hmgr] at hpart
    have hsame : s'.mgr = s.mgr := hpart
    exact hsame ▸ h
  | some b =>
    rw [hmgr] at hpart
    exact TimerMgr.bounded_step h (ha b hmgr) hpart

/-- A run of 64-bit steps with small times is one of `step`, and all times are small at its end. -/
theorem run64 {G : Timed → Action → Prop} {s t : Timed} {as : List Action} (h : s.mgr.Bounded)
    (hG : Meets step64 (fun s a => G s a ∧ Small s a) s as) (hrun : run step64 s as = some t) :
    Meets step G s as ∧ run step s as = some t ∧ t.mgr.Bounded := by
  induction as generalizing s with
  | nil =>
    obtain rfl := Option.some.inj hrun
    exact ⟨trivial, rfl, h⟩
  | cons a as ih =>
    obtain ⟨s', hs, hrun⟩ := run_cons.mp hrun
    have hrest := hG.2 s' hs
    rw [step64_eq h hG.1.2] at hs
    obtain ⟨hmeets, hrun, hbounded⟩ := ih (bounded_step h hG.1.2 hs) hrest hrun
    exact ⟨meets_cons hG.1.1 hs hmeets, run_cons.mpr ⟨s', hs, hrun⟩, hbounded⟩

/-! ## The threads left alone -/

/-- A step of the schedule thread, with its callbacks, or of a worker. -/
def Action.Own : Action → Prop
  | .sched | .put | .pop _ | .call _ | .finish _ => True
  | _ => False

/-- None of them can take a step. -/
def Stopped (s : Timed) : Prop := ∀ a : Action, a.Own → step64 s a = none

/-- They make no timer, and the clock stands still. -/
theorem small_own {s : Timed} {a : Action} (h : s.mgr.Bounded) (ha : a.Own) : Small s a := by
  intro b hb
  cases a with
  | sched =>
    obtain rfl := Option.some.inj hb
    exact ⟨nofun, h.now⟩
  | put | pop | call | finish => cases hb
  | addMessage | addMessageDelayed | addMessageLoop | timer => exact ha.elim

/-- With small times the threads take the steps of `step`. -/
theorem run_own {s t : Timed} {works : List Action} (h : s.mgr.Bounded)
    (hworks : ∀ a ∈ works, a.Own) (hrun : run step64 s works = some t) :
    run step s works = some t ∧ t.mgr.Bounded := by
  induction works generalizing s with
  | nil =>
    obtain rfl := Option.some.inj hrun
    exact ⟨rfl, h⟩
  | cons a works ih =>
    obtain ⟨ha, hrest⟩ := List.forall_mem_cons.mp hworks
    obtain ⟨s', hs, hrun⟩ := run_cons.mp hrun
    have hsmall := small_own h ha
    rw [step64_eq h hsmall] at hs
    obtain ⟨hrun, hbounded⟩ := ih (bounded_step h hsmall hs) hrest hrun
    exact ⟨run_cons.mpr ⟨s', hs, hrun⟩, hbounded⟩

/-- What the threads do is, of the manager, steps of the schedule thread. -/
theorem mgr_own {s t : Timed} {works : List Action} (hworks : ∀ a ∈ works, a.Own)
    (hrun : run step s works = some t) :
    run TimerMgr.step s.mgr (List.replicate (works.count .sched) .sched) = some t.mgr ∧
      t.logicId = s.logicId := by
  induction works generalizing s with
  | nil =>
    obtain rfl : s = t := Option.some.inj hrun
    exact ⟨rfl, rfl⟩
  | cons a works ih =>
    obtain ⟨s', hs, hrest⟩ := run_cons.mp hrun
    obtain ⟨ha, hrestOwn⟩ := List.forall_mem_cons.mp hworks
    obtain ⟨hmgr, hlogicId⟩ := ih hrestOwn hrest
    cases a with
    | sched =>
      obtain ⟨-, hs⟩ := Option.ite_none_right_eq_some.mp hs
      obtain ⟨mgr, hsched, rfl⟩ := Option.map_eq_some_iff.mp hs
      rw [List.count_cons_self]
      exact ⟨run_cons.mpr ⟨mgr, hsched, hmgr⟩, hlogicId⟩
    | put | pop | call | finish =>
      obtain ⟨_, -, rfl⟩ := Option.map_eq_some_iff.mp hs
      rw [List.count_cons_of_ne (by simp)]
      exact ⟨hmgr, hlogicId⟩
    | addMessage | addMessageDelayed | addMessageLoop | timer => exact ha.elim

/-- The steps that the workers have still to take. -/
def rank (s : Timed) : Nat := s.tms.rank fun _ => 0

/-- One if the callback has still to put. -/
def putting (s : Timed) : Nat := s.toPut.toList.length

theorem putting_le_one (s : Timed) : s.putting ≤ 1 := by
  unfold putting
  cases s.toPut with
  | none => exact Nat.zero_le 1
  | some tmp => exact Nat.le_refl 1

theorem Kept.id_lt {n : Nat} {s : Timed} (h : Kept n s) {id : Nat} {task : LogicTask Message}
    (htask : s.tms.mapLogicList id = some task) : id < s.tms.logicThreadCount :=
  id_lt_of_some h.count h.workers htask

/-- **The steps that a step leads to.** A step of the schedule thread may lead to a callback, and a
callback to the four steps of a message: it is put, taken, called, and its function returns. Each of
these is one less that is left. -/
theorem rank_own {n : Nat} {s s' : Timed} {a : Action} (h : Kept n s) (ha : a.Own)
    (hs : step s a = some s') :
    rank s' + 4 * putting s' + 1 ≤ rank s + 4 * putting s + if a = .sched then 5 else 0 := by
  cases a with
  | sched =>
    obtain ⟨-, hs⟩ := Option.ite_none_right_eq_some.mp hs
    obtain ⟨mgr, -, rfl⟩ := Option.map_eq_some_iff.mp hs
    have hle := putting_le_one { s with mgr := mgr, hasPut := false }
    show rank s + 4 * _ + 1 ≤ rank s + _ + 5
    omega
  | put =>
    obtain ⟨tmp, hput, hpc, hdone, rfl⟩ := put_spec hs
    have hlt : s.logicId tmp < s.tms.logicThreadCount := by
      rw [h.count]
      exact h.assigned tmp (h.lt_count (h.wf.executing tmp (by rw [hpc]; rfl)))
    have hadded := rank_addMessage (fun _ => 0) hlt (.timer tmp)
    rw [putting, putting, hdone, hput]
    show (s.tms.addMessage (s.logicId tmp) (.timer tmp)).rank (fun _ => 0) + 0 + 1
      ≤ s.tms.rank (fun _ => 0) + 4 + 0
    omega
  | pop logicId =>
    obtain ⟨tms, hpop, rfl⟩ := Option.map_eq_some_iff.mp hs
    obtain ⟨task, htask, -⟩ := Option.bind_eq_some_iff.mp hpop
    have htaken := rank_pop (fun _ => 0) (h.id_lt htask) hpop
    show tms.rank (fun _ => 0) + 4 * putting s + 1 ≤ s.tms.rank (fun _ => 0) + 4 * putting s + 0
    omega
  | call logicId =>
    obtain ⟨⟨msg, tms⟩, hcall, rfl⟩ := Option.map_eq_some_iff.mp hs
    obtain ⟨task, htask, -⟩ := Option.bind_eq_some_iff.mp hcall
    have hcalled := rank_call (fun _ => 0) (h.id_lt htask) hcall
    show tms.rank (fun _ => 0) + 4 * putting s + 1 ≤ s.tms.rank (fun _ => 0) + 4 * putting s + 0
    omega
  | finish logicId =>
    obtain ⟨tms, hfinish, rfl⟩ := Option.map_eq_some_iff.mp hs
    obtain ⟨task, htask, -⟩ := Option.bind_eq_some_iff.mp hfinish
    have hfinished := rank_finish (fun _ => 0) (h.id_lt htask) hfinish
    show tms.rank (fun _ => 0) + 4 * putting s + 1 ≤ s.tms.rank (fun _ => 0) + 4 * putting s + 0
    omega
  | addMessage | addMessageDelayed | addMessageLoop | timer => exact ha.elim

/-- The length of a run of the threads, by what the workers have to do and the steps of the schedule
thread. -/
theorem length_own {n : Nat} {s t : Timed} {works : List Action} (h : Kept n s)
    (hworks : ∀ a ∈ works, a.Own) (hrun : run step s works = some t) :
    works.length ≤ rank s + 4 * putting s + 5 * works.count .sched := by
  induction works generalizing s with
  | nil => exact Nat.zero_le _
  | cons a works ih =>
    obtain ⟨s', hs, hrest⟩ := run_cons.mp hrun
    obtain ⟨ha, hrestOwn⟩ := List.forall_mem_cons.mp hworks
    have hlater := ih (kept_step h hs) hrestOwn hrest
    have hthis := rank_own h ha hs
    have hsame : (if (a == Action.sched) = true then 1 else 0) = if a = .sched then 1 else 0 := by
      simp
    rw [List.length_cons, List.count_cons, hsame]
    by_cases hsched : a = .sched
    · rw [if_pos hsched] at hthis ⊢
      omega
    · rw [if_neg hsched] at hthis ⊢
      omega

/-- When they have stopped, the schedule thread waits or has left its loop, and no worker has
anything to call. -/
theorem sched_of_stopped {s : Timed} (hbounded : s.mgr.Bounded) (h : Stopped s) :
    s.toPut = none ∧ TimerMgr.sched s.mgr = none := by
  have hput : s.toPut = none := Option.map_eq_none_iff.mp (h .put trivial)
  have hsched : sched s = none :=
    (step64_eq hbounded (small_own (a := .sched) hbounded trivial)).symm.trans (h .sched trivial)
  rw [sched, if_pos hput] at hsched
  exact ⟨hput, Option.map_eq_none_iff.mp hsched⟩

theorem pending_of_stopped {s : Timed} (h : Stopped s) (w : Nat) : s.tms.pending w = [] := by
  have hpop : s.tms.pop w = none := Option.map_eq_none_iff.mp (h (.pop w) trivial)
  have hcall : s.tms.call w = none := Option.map_eq_none_iff.mp (h (.call w) trivial)
  have hfinish : s.tms.finish w = none := Option.map_eq_none_iff.mp (h (.finish w) trivial)
  rw [Tms.pending]
  cases htask : s.tms.mapLogicList w with
  | none => rfl
  | some task =>
    obtain rfl := idle_of_stuck hpop hcall hfinish htask
    rfl

theorem sched_of_waits {s : TimerMgr} (h : TimerMgr.Waits s) : TimerMgr.step s .sched = none := by
  rcases h with ⟨-, hpc⟩ | ⟨tmp, -, hpc, -⟩
  · rw [TimerMgr.step, TimerMgr.sched, hpc]
  · rw [TimerMgr.step, TimerMgr.sched, hpc]

/-- **The functions of the timers that are due are called.** From a state between two calls of
`timer_run`, to which the system has come by adding and executing timers one operation at a time,
with timeouts, begin delays and readings of the clock less than `2 ^ 60` nanoseconds, with no call
that adds one on its way, no begin delay left and positive intervals: when the schedule thread and
the workers are left alone, they come to a stop after a bounded number of steps, in whatever order
they go on. Then the schedule thread waits for the next timer, and each worker has called what had
been put before and after it, in the order in which they expired, the functions of its timers that
were due. -/
theorem due_called (threadCount : Nat) (now : Int) (as works : List Action) (s t : Timed)
    (hnow : IsSmall now)
    (hG : Meets step64 (fun s a => (∀ b ∈ a.mgr s, TimerMgr.OneAtATime s.mgr b) ∧ Small s a)
      (loaded threadCount now) as)
    (hrun : run step64 (loaded threadCount now) as = some s)
    (hpc : s.mgr.pc = .loop) (hrunning : s.mgr.timerRun = true)
    (halone : ∀ i < s.mgr.count, ¬ (s.mgr.producer i).InFlight)
    (hbegun : ∀ i ∈ s.mgr.mTimers, (s.mgr.timers i).mDelayTime = 0)
    (hpaced : TimerMgr.Paced s.mgr) (hworks : ∀ a ∈ works, a.Own)
    (hleft : run step64 s works = some t) :
    works.length ≤ rank s + 5 * (11 * s.mgr.mTimers.size + 8) ∧ (Stopped t →
      ∃ ran, TimerMgr.CaughtUp s.mgr ran t.mgr ∧ TimerMgr.Waits t.mgr ∧
        ∀ w, timersCalled w t = timersCalled w s ++ timersOf (s.tms.pending w)
          ++ forWorker w s (ran.map Exec.timer)) := by
  -- with small times the run is one of `step`, and its part of the manager one of the manager alone
  obtain ⟨hone, hrun, hbounded⟩ := run64 (TimerMgr.bounded_initial hnow) hG hrun
  obtain ⟨bs, honeMgr, hmgr⟩ := mgr_run hone hrun
  obtain ⟨hleft, hboundedEnd⟩ := run_own hbounded hworks hleft
  have h := kept_run hrun
  have hkept : Kept threadCount t := kept_run (run_append.mpr ⟨s, hrun, hleft⟩)
  have hnoPut : s.toPut = none := toPut_of_idle (by rw [hpc]; rfl)
  obtain ⟨hscheds, hlogicId⟩ := mgr_own hworks hleft
  obtain ⟨k, ran, mgr, hk, hwait, hup, hwaits⟩ := TimerMgr.caughtUp_waits
    (TimerMgr.atLoop_of_run honeMgr hmgr hpc hrunning halone hbegun hpaced)
  constructor
  -- each step of the schedule thread is one of those that the manager takes alone
  · have hle := run_replicate_le hscheds hwait (sched_of_waits hwaits)
    have hlength := length_own h hworks hleft
    have hzero : putting s = 0 := by rw [putting, hnoPut]; rfl
    omega
  · intro hstopped
    obtain ⟨hput, hsched⟩ := sched_of_stopped hboundedEnd hstopped
    obtain rfl : t.mgr = mgr :=
      run_replicate_unique hscheds hwait hsched (sched_of_waits hwaits)
    refine ⟨ran, hup, hwaits, fun w => ?_⟩
    -- what a worker has called and has to call is what was executed for it, before and after
    have hbefore := h.calls w
    have hafter := hkept.calls w
    rw [timersLeft, hnoPut] at hbefore
    rw [timersLeft, hput, pending_of_stopped hstopped w] at hafter
    have hexecuted : timersExecuted w t
        = timersExecuted w s ++ forWorker w s (ran.map Exec.timer) := by
      rw [timersExecuted, hup.execs, List.map_append, forWorker, hlogicId]
      exact forWorker_append w s _ _
    rw [hexecuted, ← hbefore] at hafter
    calc timersCalled w t
      _ = timersCalled w t ++ (timersOf [] ++ forWorker w t (none : Option Nat).toList) :=
        (List.append_nil _).symm
      _ = timersCalled w s ++ (timersOf (s.tms.pending w) ++ []) ++ forWorker w s _ := hafter
      _ = timersCalled w s ++ timersOf (s.tms.pending w) ++ forWorker w s _ := by
        rw [List.append_nil]

/-- A timer of worker 1 and a loop timer of worker 0 that has expired before it. -/
def bothDue : List Action :=
  [.addMessageDelayed 1 9, .timer (.push 0), .timer (.mark 0), .timer (.notify 0),
    .addMessageLoop 0 0 5, .timer (.push 1), .timer (.mark 1), .timer (.notify 1),
    .timer (.tick 20000000), .sched]

/-- Both are executed, and the workers call them. -/
def bothCalled : List Action :=
  List.replicate 9 .sched ++ [.put, .sched, .pop 0, .sched, .call 0] ++ List.replicate 9 .sched
    ++ [.put, .pop 1] ++ List.replicate 10 .sched ++ [.finish 0, .call 1, .finish 1]

theorem due_called_bothDue :
    ∃ s t, run step64 (loaded 2 0) bothDue = some s ∧ run step64 s bothCalled = some t ∧
      bothCalled.length ≤ rank s + 5 * (11 * s.mgr.mTimers.size + 8) ∧ (Stopped t →
        ∃ ran, TimerMgr.CaughtUp s.mgr ran t.mgr ∧ TimerMgr.Waits t.mgr ∧
          ∀ w, timersCalled w t = timersCalled w s ++ timersOf (s.tms.pending w)
            ++ forWorker w s (ran.map Exec.timer)) := by
  have hstate : ∃ s t, run step64 (loaded 2 0) bothDue = some s ∧ s.mgr.pc = .loop ∧
      s.mgr.timerRun = true ∧ s.mgr.count = 2 ∧ run step64 s bothCalled = some t ∧
      (∀ i < 2, s.mgr.producer i = .notified) ∧
      (∀ i ∈ s.mgr.mTimers, (s.mgr.timers i).mDelayTime = 0) ∧
      (∀ i < 2, 0 < (s.mgr.timers i).mLastTime) := by
    refine ⟨_, _, rfl, rfl, rfl, rfl, rfl, ?_, ?_, ?_⟩ <;> decide
  obtain ⟨s, t, hrun, hpc, hrunning, hcount, hleft, hnotified, hbegun, hpos⟩ := hstate
  have hG : Meets step64 (fun s a => (∀ b ∈ a.mgr s, TimerMgr.OneAtATime s.mgr b) ∧ Small s a)
      (loaded 2 0) bothDue := by decide +kernel
  obtain ⟨-, hrun', -⟩ := run64 (TimerMgr.bounded_initial isSmall_zero) hG hrun
  have hpaced : TimerMgr.Paced s.mgr := by
    rintro i hadded -
    exact hpos i (hcount ▸ (kept_run hrun').lt_count hadded)
  have hworks : ∀ a ∈ bothCalled, a.Own := by
    intro a ha
    cases a with
    | sched | put | pop | call | finish => trivial
    | addMessage | addMessageDelayed | addMessageLoop | timer =>
      simp [bothCalled] at ha
  exact ⟨s, t, hrun, hleft, due_called 2 0 bothDue bothCalled s t isSmall_zero hG hrun hpc
    hrunning (fun i hi => by
      rw [hnotified i (hcount ▸ hi)]
      exact id) hbegun hpaced hworks hleft⟩

end PssClient.Timed
