import PssClient.Timer.Int64
import PssClient.Timer.Order
import PssClient.Timer.Spin

/-!
# The schedule thread catches up

Timers that have come due while the schedule thread was busy. With nobody else about, it executes
them in the order in which they expired, and then waits for the next one.

* `AtLoop` — the thread is between two calls of `timer_run`; no call that adds a timer is on its
  way, and no begin delay is left.
* `round` / `run_round` — a call of `timer_run` with a timer on top that is due, and `atLoop_round`:
  it leads from one such state to the next.
* `CaughtUp` — what has been executed since then, and `Waits` what the thread waits for.
* `catches_up` — the result.
-/

namespace PssClient.TimerMgr

open Machine

/-! ## One call of `timer_run` -/

/-- The timer has been read, is due and is popped next. -/
def looked (tmp : Nat) (s : TimerMgr) : TimerMgr :=
  { s with
    timers := Function.update s.timers tmp ((s.timers tmp).getLeftTime s.now).2
    leftTimeAt := s.now
    notified := []
    pc := .pop tmp }

/-- The state after the call. -/
def round (tmp : Nat) (s : TimerMgr) : TimerMgr :=
  { runningStep tmp (popStep tmp tmp (looked tmp s)) with
    timerWakeupState := .executeTimer
    pc := .loop }

theorem run_readTop {s : TimerMgr} {tmp : Nat} (hpc : s.pc = .loop) (hrun : s.timerRun = true)
    (htop : s.mTimers[0]? = some tmp) :
    run step s (List.replicate 6 .sched)
      = some { s with pc := .getLeftTime tmp, notified := [] } := by
  have hnonempty : s.mTimers.isEmpty = false := by
    obtain ⟨hpos, -⟩ := Array.getElem?_eq_some_iff.mp htop
    rw [Array.isEmpty_eq_false_iff, ← Array.size_pos_iff]
    exact hpos
  refine run_cons.mpr ⟨{ s with pc := .lock }, ?_, run_cons.mpr ⟨{ s with pc := .testEmpty }, rfl,
    run_cons.mpr ⟨{ s with pc := .testRun, notified := [] }, ?_,
      run_cons.mpr ⟨{ s with pc := .testEmptyAgain, notified := [] }, ?_,
        run_cons.mpr ⟨{ s with pc := .readTop, notified := [] }, ?_, run_singleton ?_⟩⟩⟩⟩⟩
  · simp only [step, sched, hpc, hrun, if_true]
  · simp only [step, sched, hnonempty, Bool.false_eq_true, if_false]
  · simp only [step, sched, hrun, if_true]
  · simp only [step, sched, hnonempty, Bool.false_eq_true, if_false]
  · simp only [step, sched, htop, Option.map_some]

theorem run_round {s : TimerMgr} {tmp : Nat} (hpc : s.pc = .loop) (hrun : s.timerRun = true)
    (htop : s.mTimers[0]? = some tmp) (hdue : ((s.timers tmp).getLeftTime s.now).1 ≤ 0) :
    run step s (List.replicate 11 .sched) = some (round tmp s) := by
  refine run_append.mpr ⟨_, run_readTop hpc hrun htop, ?_⟩
  refine run_cons.mpr ⟨{ looked tmp s with pc := .testRunAgain tmp }, ?_,
    run_cons.mpr ⟨looked tmp s, ?_, run_cons.mpr ⟨popStep tmp tmp (looked tmp s), ?_,
      run_cons.mpr ⟨runningStep tmp (popStep tmp tmp (looked tmp s)), rfl, run_singleton ?_⟩⟩⟩⟩
  · simp only [step, sched, not_lt.mpr hdue, if_false, looked]
  · simp only [step, sched, looked, hrun, if_true]
  · simp only [step, sched, looked, htop, Option.map_some]
  · have hend : (runningStep tmp (popStep tmp tmp (looked tmp s))).pc = .overwrite := by
      unfold runningStep
      split <;> rfl
    simp only [step, sched, hend, round]

/-! ## What the call does -/

section

variable {s : TimerMgr} {tmp : Nat}

/-- The timer after its execution. -/
def executed (now : Int) (t : Timer) : Timer :=
  ((t.getLeftTime now).2.beforeCallback).afterCallback now

theorem executed_alike (now : Int) (t : Timer) :
    (executed now t).mTimerType = t.mTimerType ∧ (executed now t).mLastTime = t.mLastTime ∧
      (executed now t).mDelayTime = 0 ∧
      (t.mTimerType = .loop → (executed now t).due = now + t.mLastTime) := by
  unfold executed Timer.getLeftTime Timer.beforeCallback Timer.afterCallback Timer.due
  cases t.mTimerType with
  | once => cases t.mExecuteOnceFlag <;> simp
  | loop => simp

/-- Whether the timer is put back. -/
def GoesBack (t : Timer) : Prop := t.mTimerType = .loop ∧ t.mCallback = true

theorem round_timers : (round tmp s).timers
    = Function.update s.timers tmp (executed s.now (s.timers tmp)) := by
  have heq : (round tmp s).timers = Function.update (popStep tmp tmp (looked tmp s)).timers tmp
      (((popStep tmp tmp (looked tmp s)).timers tmp).afterCallback s.now) := by
    unfold round runningStep
    split <;> rfl
  have hlooked : (looked tmp s).timers tmp = ((s.timers tmp).getLeftTime s.now).2 :=
    Function.update_self ..
  rw [heq, timer_popStep, hlooked]
  show Function.update (Function.update (Function.update s.timers tmp _) tmp _) tmp _ = _
  rw [Function.update_idem, Function.update_idem]
  rfl

theorem round_timer_of_ne {i : Nat} (h : i ≠ tmp) : (round tmp s).timers i = s.timers i := by
  rw [round_timers, Function.update_of_ne h]

theorem round_timer_self : (round tmp s).timers tmp = executed s.now (s.timers tmp) := by
  rw [round_timers, Function.update_self]

theorem round_same : (round tmp s).now = s.now ∧ (round tmp s).timerRun = s.timerRun := by
  unfold round runningStep
  split <;> exact ⟨rfl, rfl⟩

theorem round_execs : (round tmp s).execs
    = s.execs ++ if (s.timers tmp).calls = true then [⟨tmp, s.now, s.due tmp⟩] else [] := by
  have heq : (round tmp s).execs = (popStep tmp tmp (looked tmp s)).execs := by
    unfold round runningStep
    split <;> rfl
  have hlooked : (looked tmp s).timers tmp = ((s.timers tmp).getLeftTime s.now).2 :=
    Function.update_self ..
  have hdue : (looked tmp s).due tmp = s.due tmp := by
    show ((looked tmp s).timers tmp).due = _
    rw [hlooked]
    rfl
  rw [heq, popStep, hlooked, hdue]
  show (if (s.timers tmp).calls = true then _ else _) = _
  split
  · rfl
  · exact (List.append_nil _).symm

theorem goesBack_beforeCallback (now : Int) (t : Timer) :
    ((t.getLeftTime now).2.beforeCallback).mTimerType = .loop ∧
      ((t.getLeftTime now).2.beforeCallback).mCallback = true ↔ GoesBack t := by
  unfold GoesBack Timer.beforeCallback Timer.getLeftTime
  cases t.mTimerType with
  | once => cases t.mExecuteOnceFlag <;> simp
  | loop => simp

/-- It leaves the queue, and comes back if it is a loop timer that has not been cancelled. -/
theorem round_queue (htop : s.mTimers[0]? = some tmp) :
    ∃ rest, s.mTimers.toList.Perm (tmp :: rest) ∧
      (GoesBack (s.timers tmp) → (round tmp s).mTimers.toList.Perm (tmp :: rest)) ∧
      (¬ GoesBack (s.timers tmp) → (round tmp s).mTimers.toList.Perm rest) := by
  have hlooked : (looked tmp s).timers tmp = ((s.timers tmp).getLeftTime s.now).2 :=
    Function.update_self ..
  have hiff : ((popStep tmp tmp (looked tmp s)).timers tmp).mTimerType = .loop ∧
      ((popStep tmp tmp (looked tmp s)).timers tmp).mCallback = true ↔
        GoesBack (s.timers tmp) := by
    rw [timer_popStep, hlooked]
    exact goesBack_beforeCallback s.now (s.timers tmp)
  refine ⟨(BinaryHeap.pop (looked tmp s).due s.mTimers).toList, BinaryHeap.pop_perm _ htop,
    fun hback => ?_, fun hgone => ?_⟩
  · unfold round runningStep
    rw [if_pos (hiff.mpr hback)]
    exact BinaryHeap.push_perm _ _ tmp
  · unfold round runningStep
    rw [if_neg fun hcase => hgone (hiff.mp hcase)]
    exact List.Perm.refl _

theorem mem_round_of_ne (htop : s.mTimers[0]? = some tmp) {i : Nat} (h : i ≠ tmp) :
    i ∈ (round tmp s).mTimers ↔ i ∈ s.mTimers := by
  obtain ⟨rest, hperm, hback, hgone⟩ := round_queue htop
  rw [← Array.mem_toList_iff, ← Array.mem_toList_iff, hperm.mem_iff, List.mem_cons,
    or_iff_right h]
  by_cases hcase : GoesBack (s.timers tmp)
  · rw [(hback hcase).mem_iff, List.mem_cons, or_iff_right h]
  · exact (hgone hcase).mem_iff

theorem mem_round_self (hnodup : s.mTimers.toList.Nodup) (htop : s.mTimers[0]? = some tmp) :
    tmp ∈ (round tmp s).mTimers ↔ GoesBack (s.timers tmp) := by
  obtain ⟨rest, hperm, hback, hgone⟩ := round_queue htop
  have hout : tmp ∉ rest := (List.nodup_cons.mp (hperm.nodup_iff.mp hnodup)).1
  rw [← Array.mem_toList_iff]
  by_cases hcase : GoesBack (s.timers tmp)
  · exact iff_of_true ((hback hcase).mem_iff.mpr List.mem_cons_self) hcase
  · exact iff_of_false (fun hmem => hout ((hgone hcase).mem_iff.mp hmem)) hcase

end

/-! ## Between two calls -/

/-- The schedule thread is between two calls of `timer_run`, and nobody else is about. -/
structure AtLoop (s : TimerMgr) : Prop extends InTurn s where
  pc : s.pc = .loop
  timerRun : s.timerRun = true
  alone : ∀ i, ¬ (s.producer i).InFlight
  begun : ∀ i ∈ s.mTimers, (s.timers i).mDelayTime = 0
  paced : Paced s

/-- Steps of the schedule thread alone. Induction on their number. -/
theorem inTurn_scheds {s t : TimerMgr} {k : Nat} (h : InTurn s)
    (halone : ∀ i, ¬ (s.producer i).InFlight)
    (hrun : run step s (List.replicate k .sched) = some t) :
    InTurn t ∧ t.producer = s.producer := by
  induction k generalizing s with
  | zero =>
    cases hrun
    exact ⟨h, rfl⟩
  | succ k ih =>
    obtain ⟨s', hs, hrun'⟩ := run_cons.mp hrun
    have hsame : s'.producer = s.producer := sched_producer hs
    have hnext : InTurn s' := inTurn_step (a := .sched) h (fun i _ => halone i) hs
    obtain ⟨hend, hproducer⟩ := ih hnext (hsame ▸ halone) hrun'
    exact ⟨hend, hproducer.trans hsame⟩

section

variable {s : TimerMgr} {tmp : Nat}

/-- Without a begin delay, a timer that is due has no time left. -/
theorem AtLoop.left_le (h : AtLoop s) {i : Nat} (hi : i ∈ s.mTimers) :
    ((s.timers i).getLeftTime s.now).1 = s.due i - s.now := by
  rw [getLeftTime_deadline, deadline, Timer.deadline, h.begun i hi]
  show s.due i + 0 - s.now = s.due i - s.now
  omega

theorem AtLoop.run_round (h : AtLoop s) (htop : s.mTimers[0]? = some tmp)
    (hdue : s.due tmp ≤ s.now) :
    run step s (List.replicate 11 .sched) = some (round tmp s) := by
  apply TimerMgr.run_round h.pc h.timerRun htop
  rw [h.left_le (Array.mem_of_getElem? htop)]
  omega

theorem atLoop_round (h : AtLoop s) (htop : s.mTimers[0]? = some tmp)
    (hdue : s.due tmp ≤ s.now) : AtLoop (round tmp s) := by
  obtain ⟨hinTurn, hproducer⟩ := inTurn_scheds h.toInTurn h.alone (h.run_round htop hdue)
  have halike := executed_alike s.now (s.timers tmp)
  refine { hinTurn with
    pc := rfl
    timerRun := round_same.2.trans h.timerRun
    alone := hproducer ▸ h.alone
    begun := fun i hi => ?_
    paced := paced_of_alike h.paced (fun i hi => hproducer ▸ hi) fun i _ => ?_ }
  · by_cases heq : i = tmp
    · rw [heq, round_timer_self, halike.2.2.1]
    · rw [round_timer_of_ne heq]
      exact h.begun i ((mem_round_of_ne htop heq).mp hi)
  · by_cases heq : i = tmp
    · rw [heq, round_timer_self]
      exact ⟨halike.1, halike.2.1⟩
    · rw [round_timer_of_ne heq]
      exact ⟨rfl, rfl⟩

/-- A loop timer that has been put back is due after its interval. -/
theorem due_round_self (hloop : (s.timers tmp).mTimerType = .loop) :
    (round tmp s).due tmp = s.now + (s.timers tmp).mLastTime := by
  unfold due
  rw [round_timer_self]
  exact (executed_alike s.now (s.timers tmp)).2.2.2 hloop

theorem due_round_of_ne {i : Nat} (h : i ≠ tmp) : (round tmp s).due i = s.due i := by
  unfold due
  rw [round_timer_of_ne h]

/-- It is not due again. -/
theorem AtLoop.not_due_self (h : AtLoop s) (htop : s.mTimers[0]? = some tmp)
    (hmem : tmp ∈ (round tmp s).mTimers) :
    GoesBack (s.timers tmp) ∧ (round tmp s).due tmp = s.now + (s.timers tmp).mLastTime ∧
      s.now < (round tmp s).due tmp := by
  have hback := (mem_round_self h.nodup htop).mp hmem
  have hpos := h.paced tmp (h.queued tmp (Array.mem_of_getElem? htop)) hback.1
  refine ⟨hback, due_round_self hback.1, ?_⟩
  rw [due_round_self hback.1]
  omega

end

/-! ## All that are due -/

/-- The timers in the queue that are due. -/
def dueCount (s : TimerMgr) : Nat := s.mTimers.toList.countP fun i => decide (s.due i ≤ s.now)

/-- A call of `timer_run` leaves one less. -/
theorem dueCount_round {s : TimerMgr} {tmp : Nat} (h : AtLoop s)
    (htop : s.mTimers[0]? = some tmp) (hdue : s.due tmp ≤ s.now) :
    dueCount (round tmp s) + 1 = dueCount s := by
  obtain ⟨rest, hperm, hback, hgone⟩ := round_queue htop
  have hout : tmp ∉ rest := (List.nodup_cons.mp (hperm.nodup_iff.mp h.nodup)).1
  have hrest : rest.countP (fun i => decide ((round tmp s).due i ≤ (round tmp s).now))
      = rest.countP fun i => decide (s.due i ≤ s.now) := by
    apply List.countP_congr
    intro i hi
    rw [due_round_of_ne (ne_of_mem_of_not_mem hi hout), round_same.1]
  have hbefore : dueCount s = rest.countP (fun i => decide (s.due i ≤ s.now)) + 1 := by
    rw [dueCount, hperm.countP_eq]
    exact List.countP_cons_of_pos (decide_eq_true hdue)
  rw [hbefore, ← hrest, dueCount]
  by_cases hcase : GoesBack (s.timers tmp)
  · have hleft := (h.not_due_self htop ((mem_round_self h.nodup htop).mpr hcase)).2.2
    rw [(hback hcase).countP_eq, List.countP_cons_of_neg]
    rw [decide_eq_true_iff, round_same.1]
    exact not_le.mpr hleft
  · rw [(hgone hcase).countP_eq]

/-- What the schedule thread has executed between `s` and `t`, at one reading of the clock. -/
structure CaughtUp (s : TimerMgr) (ran : List Exec) (t : TimerMgr) : Prop where
  now : t.now = s.now
  execs : t.execs = s.execs ++ ran
  -- in the order in which they expired, each once
  inOrder : ran.Pairwise fun e e' => e.due ≤ e'.due
  once : (ran.map Exec.timer).Nodup
  recorded : ∀ e ∈ ran, e.time = s.now ∧ e.due = s.due e.timer
  -- those that were due and had a callback, and only these
  ran_iff : ∀ i, i ∈ ran.map Exec.timer ↔
    i ∈ s.mTimers ∧ s.due i ≤ s.now ∧ (s.timers i).calls = true
  -- the others are still there, and the loop timers are back
  queue_iff : ∀ i, i ∈ t.mTimers ↔ i ∈ s.mTimers ∧ (s.due i ≤ s.now → GoesBack (s.timers i))
  due : ∀ i ∈ t.mTimers,
    t.due i = if s.due i ≤ s.now then s.now + (s.timers i).mLastTime else s.due i

theorem caughtUp_refl {s : TimerMgr} (h : ∀ i ∈ s.mTimers, s.now < s.due i) : CaughtUp s [] s where
  now := rfl
  execs := (List.append_nil _).symm
  inOrder := .nil
  once := .nil
  recorded := fun _ he => absurd he List.not_mem_nil
  ran_iff := fun i => iff_of_false List.not_mem_nil fun ⟨hi, hdue, _⟩ =>
    absurd hdue (not_le.mpr (h i hi))
  queue_iff := fun i => ⟨fun hi => ⟨hi, fun hdue => absurd hdue (not_le.mpr (h i hi))⟩, And.left⟩
  due := fun i hi => (if_neg (not_le.mpr (h i hi))).symm

/-- The execution of a timer, if its callback is called. -/
def execution (tmp : Nat) (s : TimerMgr) : List Exec :=
  if (s.timers tmp).calls = true then [⟨tmp, s.now, s.due tmp⟩] else []

theorem mem_execution {s : TimerMgr} {tmp : Nat} {e : Exec} (h : e ∈ execution tmp s) :
    e = ⟨tmp, s.now, s.due tmp⟩ := by
  unfold execution at h
  split at h
  · exact List.mem_singleton.mp h
  · exact absurd h List.not_mem_nil

theorem timer_execution (tmp i : Nat) (s : TimerMgr) :
    i ∈ (execution tmp s).map Exec.timer ↔ i = tmp ∧ (s.timers tmp).calls = true := by
  unfold execution
  split
  case isTrue hcalls => simp [hcalls]
  case isFalse hnone => simp [hnone]

/-- One call of `timer_run` that finds the top due, and what is executed after it. The timer
executed was the first to expire, and leaves the queue or goes behind all that are due. -/
theorem caughtUp_round {s t : TimerMgr} {tmp : Nat} {ran : List Exec} (h : AtLoop s)
    (htop : s.mTimers[0]? = some tmp) (hdue : s.due tmp ≤ s.now)
    (hrest : CaughtUp (round tmp s) ran t) : CaughtUp s (execution tmp s ++ ran) t := by
  have htmp : tmp ∈ s.mTimers := Array.mem_of_getElem? htop
  -- the timer of this call is not executed again
  have hout : tmp ∉ ran.map Exec.timer := by
    intro hmem
    obtain ⟨hqueued, hagain, -⟩ := (hrest.ran_iff tmp).mp hmem
    rw [round_same.1] at hagain
    exact absurd hagain (not_le.mpr (h.not_due_self htop hqueued).2.2)
  have hlater : ∀ e ∈ ran, e.timer ≠ tmp := fun e he heq =>
    hout (heq ▸ List.mem_map_of_mem he)
  have hmem : ∀ e ∈ ran, e.timer ∈ s.mTimers := fun e he =>
    (mem_round_of_ne htop (hlater e he)).mp
      ((hrest.ran_iff e.timer).mp (List.mem_map_of_mem he)).1
  have hrecorded : ∀ e ∈ ran, e.time = s.now ∧ e.due = s.due e.timer := fun e he => by
    obtain ⟨htime, hexpired⟩ := hrest.recorded e he
    exact ⟨htime.trans round_same.1, hexpired.trans (due_round_of_ne (hlater e he))⟩
  refine
    { now := hrest.now.trans round_same.1
      execs := ?_
      inOrder := ?_
      once := ?_
      recorded := ?_
      ran_iff := fun i => ?_
      queue_iff := fun i => ?_
      due := fun i hi => ?_ }
  · rw [hrest.execs, round_execs, List.append_assoc, execution]
  · refine List.pairwise_append.mpr ⟨?_, hrest.inOrder, fun e he e' he' => ?_⟩
    · unfold execution
      split
      · exact List.pairwise_singleton _ _
      · exact .nil
    · rw [mem_execution he, (hrecorded e' he').2]
      exact BinaryHeap.top_le h.heap htop (hmem e' he')
  · rw [List.map_append]
    refine List.nodup_append.mpr ⟨?_, hrest.once, ?_⟩
    · unfold execution
      split
      · exact List.pairwise_singleton _ _
      · exact .nil
    · rintro i hi j hj rfl
      exact hout (((timer_execution tmp i s).mp hi).1 ▸ hj)
  · intro e he
    rcases List.mem_append.mp he with hthis | hafter
    · rw [mem_execution hthis]
      exact ⟨rfl, rfl⟩
    · exact hrecorded e hafter
  · rw [List.map_append, List.mem_append, timer_execution]
    by_cases heq : i = tmp
    · subst heq
      rw [or_iff_left hout]
      exact ⟨fun hcalls => ⟨htmp, hdue, hcalls.2⟩, fun hcalls => ⟨rfl, hcalls.2.2⟩⟩
    · rw [or_iff_right fun hcalls => heq hcalls.1, hrest.ran_iff, mem_round_of_ne htop heq,
        due_round_of_ne heq, round_timer_of_ne heq, round_same.1]
  · rw [hrest.queue_iff]
    by_cases heq : i = tmp
    · subst heq
      constructor
      · exact fun hin => ⟨htmp, fun _ => (h.not_due_self htop hin.1).1⟩
      · intro hin
        have hqueued := (mem_round_self h.nodup htop).mpr (hin.2 hdue)
        refine ⟨hqueued, fun hagain => ?_⟩
        rw [round_same.1] at hagain
        exact absurd hagain (not_le.mpr (h.not_due_self htop hqueued).2.2)
    · rw [mem_round_of_ne htop heq, due_round_of_ne heq, round_timer_of_ne heq, round_same.1]
  · rw [hrest.due i hi]
    by_cases heq : i = tmp
    · subst heq
      obtain ⟨-, hnext, hlt⟩ := h.not_due_self htop ((hrest.queue_iff i).mp hi).1
      rw [round_same.1, if_neg (not_le.mpr hlt), if_pos hdue, hnext]
    · rw [due_round_of_ne heq, round_timer_of_ne heq, round_same.1]

/-- Call after call until none is due. Induction on the number of timers that are. -/
theorem caughtUp_of_due {n : Nat} {s : TimerMgr} (h : AtLoop s) (hn : dueCount s = n) :
    ∃ ran t, run step s (List.replicate (11 * n) .sched) = some t ∧ CaughtUp s ran t ∧
      AtLoop t ∧ ∀ i ∈ t.mTimers, t.now < t.due i := by
  induction n generalizing s with
  | zero =>
    have hnone : ∀ i ∈ s.mTimers, s.now < s.due i := fun i hi =>
      not_le.mp fun hdue => List.countP_eq_zero.mp hn i (Array.mem_toList_iff.mpr hi)
        (decide_eq_true hdue)
    exact ⟨[], s, rfl, caughtUp_refl hnone, h, hnone⟩
  | succ n ih =>
    obtain ⟨i, hi, hdue⟩ := List.countP_pos_iff.mp (hn ▸ Nat.succ_pos n : 0 < dueCount s)
    have hmem : i ∈ s.mTimers := Array.mem_toList_iff.mp hi
    have hpos : 0 < s.mTimers.size := Array.size_pos_of_mem hmem
    have htop : s.mTimers[0]? = some s.mTimers[0] := Array.getElem?_eq_getElem hpos
    -- the timer on top is due when any is
    have hdueTop : s.due s.mTimers[0] ≤ s.now :=
      (BinaryHeap.top_le h.heap htop hmem).trans (of_decide_eq_true hdue)
    have hless := dueCount_round h htop hdueTop
    obtain ⟨ran, t, hrun, hrest, hend, hnone⟩ :=
      ih (atLoop_round h htop hdueTop) (Nat.succ_injective (hless.trans hn))
    refine ⟨_, t, ?_, caughtUp_round h htop hdueTop hrest, hend, hnone⟩
    rw [Nat.mul_succ, Nat.add_comm, List.replicate_add]
    exact run_append.mpr ⟨_, h.run_round htop hdueTop, hrun⟩

/-! ## The wait after it -/

/-- The schedule thread waits for the first of the timers, or for one to be added. -/
def Waits (s : TimerMgr) : Prop :=
  s.mTimers = #[] ∧ s.pc = .blockedEmpty (s.now + seconds timerDefaultWait) ∨
    ∃ tmp ∈ s.mTimers, s.pc = .blockedTop tmp (s.due tmp) ∧
      ∀ i ∈ s.mTimers, s.due tmp ≤ s.due i

theorem run_waitEmpty {s : TimerMgr} (hpc : s.pc = .loop) (hrun : s.timerRun = true)
    (hempty : s.mTimers = #[]) :
    run step s (List.replicate 4 .sched) = some { s with
      pc := .blockedEmpty (s.now + seconds timerDefaultWait), notified := [] } := by
  refine run_cons.mpr ⟨{ s with pc := .lock }, ?_, run_cons.mpr ⟨{ s with pc := .testEmpty }, rfl,
    run_cons.mpr ⟨{ s with pc := .waitEmpty, notified := [] }, ?_, run_singleton rfl⟩⟩⟩
  · simp only [step, sched, hpc, hrun, if_true]
  · simp only [step, sched, hempty, List.isEmpty_toArray, List.isEmpty_nil, if_true]

/-- What `timer_run` has looked at, with time left, before it waits. -/
def waiting (tmp : Nat) (s : TimerMgr) : TimerMgr :=
  { looked tmp s with
    pc := .blockedTop tmp (s.now + ((s.timers tmp).getLeftTime s.now).1) }

theorem run_waitTop {s : TimerMgr} {tmp : Nat} (hpc : s.pc = .loop) (hrun : s.timerRun = true)
    (htop : s.mTimers[0]? = some tmp) (hleft : 0 < ((s.timers tmp).getLeftTime s.now).1) :
    run step s (List.replicate 8 .sched) = some (waiting tmp s) := by
  refine run_append.mpr ⟨_, run_readTop hpc hrun htop, ?_⟩
  refine run_cons.mpr ⟨{ looked tmp s with
    pc := .waitTop tmp ((s.timers tmp).getLeftTime s.now).1 }, ?_, run_singleton rfl⟩
  simp only [step, sched, hleft, if_true, looked]

theorem CaughtUp.congr {s t t' : TimerMgr} {ran : List Exec} (h : CaughtUp s ran t)
    (hnow : t'.now = t.now) (hexecs : t'.execs = t.execs) (hqueue : t'.mTimers = t.mTimers)
    (hdue : ∀ i, t'.due i = t.due i) : CaughtUp s ran t' :=
  { h with
    now := hnow.trans h.now
    execs := hexecs.trans h.execs
    queue_iff := fun i => by rw [hqueue, h.queue_iff]
    due := fun i hi => by rw [hdue i, h.due i (hqueue ▸ hi)] }

/-- From between two calls, with none due, into the wait. -/
theorem waits_of_none_due {s t : TimerMgr} {ran : List Exec} (h : AtLoop t)
    (hup : CaughtUp s ran t) (hnone : ∀ i ∈ t.mTimers, t.now < t.due i) :
    ∃ k t', k ≤ 8 ∧ run step t (List.replicate k .sched) = some t' ∧ CaughtUp s ran t' ∧
      Waits t' := by
  rcases Nat.eq_zero_or_pos t.mTimers.size with hzero | hpos
  · have hempty : t.mTimers = #[] := Array.eq_empty_of_size_eq_zero hzero
    exact ⟨4, _, by decide, run_waitEmpty h.pc h.timerRun hempty,
      hup.congr rfl rfl rfl fun _ => rfl, .inl ⟨hempty, rfl⟩⟩
  · have htop : t.mTimers[0]? = some t.mTimers[0] := Array.getElem?_eq_getElem hpos
    have hmem := Array.getElem_mem hpos
    have hleft := h.left_le hmem
    have hlt := hnone _ hmem
    have hdue : ∀ i, (waiting t.mTimers[0] t).due i = t.due i := by
      intro i
      by_cases heq : i = t.mTimers[0]
      · subst heq
        show (Function.update t.timers _ _ _ : Timer).due = _
        rw [Function.update_self]
        rfl
      · show (Function.update t.timers _ _ i : Timer).due = _
        rw [Function.update_of_ne heq]
        rfl
    refine ⟨8, waiting t.mTimers[0] t, le_refl 8, run_waitTop h.pc h.timerRun htop (by omega),
      hup.congr rfl rfl rfl hdue, .inr ⟨_, hmem, ?_, fun i hi => ?_⟩⟩
    · rw [hdue]
      show Pc.blockedTop _ _ = _
      rw [hleft]
      congr 1
      omega
    · rw [hdue, hdue]
      exact BinaryHeap.top_le h.heap htop hi

/-- From between two calls to the wait. -/
theorem caughtUp_waits {s : TimerMgr} (h : AtLoop s) :
    ∃ k ran t, k ≤ 11 * s.mTimers.size + 8 ∧ run step s (List.replicate k .sched) = some t ∧
      CaughtUp s ran t ∧ Waits t := by
  obtain ⟨ran, t, hcalls, hup, hend, hnone⟩ := caughtUp_of_due h rfl
  obtain ⟨k, t', hk, hwait, hup', hwaits⟩ := waits_of_none_due hend hup hnone
  have hcount : dueCount s ≤ s.mTimers.size := List.countP_le_length
  refine ⟨11 * dueCount s + k, ran, t', ?_, ?_, hup', hwaits⟩
  · exact Nat.add_le_add (Nat.mul_le_mul_left 11 hcount) hk
  · rw [List.replicate_add]
    exact run_append.mpr ⟨t, hcalls, hwait⟩

theorem atLoop_of_run {now : Int} {as : List Action} {s : TimerMgr}
    (hone : Meets step OneAtATime (initial now) as) (hrun : run step (initial now) as = some s)
    (hpc : s.pc = .loop) (hrunning : s.timerRun = true)
    (halone : ∀ i < s.count, ¬ (s.producer i).InFlight)
    (hbegun : ∀ i ∈ s.mTimers, (s.timers i).mDelayTime = 0) (hpaced : Paced s) : AtLoop s :=
  have hinTurn := inTurn_of_run hone hrun
  { hinTurn with
    pc := hpc
    timerRun := hrunning
    alone := fun i hi => hinTurn.not_pending halone ⟨i, hi⟩
    begun := hbegun
    paced := hpaced }

/-- **The schedule thread catches up.** When timers have been added and executed one operation at
a time, with timeouts, begin delays and readings of the clock less than `2 ^ 60` nanoseconds, no
call that adds one is on its way, no timer in the queue has a begin delay left and every loop timer
has a positive interval: from the beginning of a call of `timer_run`, the schedule thread by itself
comes to a wait, with eleven steps for each timer at most. Until then it has called the callbacks of
all the timers that were due, each once and in the order in which they expired. These have left the
queue, but for the loop timers, which begin anew at the present time, and the wait ends when the
first timer in the queue becomes due. -/
theorem catches_up (now : Int) (as : List Action) (s : TimerMgr) (hnow : IsSmall now)
    (hG : Meets step64 (fun s a => OneAtATime s a ∧ a.Bounded s.now) (initial now) as)
    (hrun : run step64 (initial now) as = some s) (hpc : s.pc = .loop)
    (hrunning : s.timerRun = true) (halone : ∀ i < s.count, ¬ (s.producer i).InFlight)
    (hbegun : ∀ i ∈ s.mTimers, (s.timers i).mDelayTime = 0) (hpaced : Paced s) :
    ∃ k ran t, k ≤ 11 * s.mTimers.size + 8 ∧ run step64 s (List.replicate k .sched) = some t ∧
      CaughtUp s ran t ∧ Waits t := by
  obtain ⟨hone, hrun, hbounded⟩ := run64_of_bounded (bounded_initial hnow) hG hrun
  obtain ⟨k, ran, t, hk, hahead, hresult⟩ :=
    caughtUp_waits (atLoop_of_run hone hrun hpc hrunning halone hbegun hpaced)
  exact ⟨k, ran, t, hk, run_sched64 hbounded hahead, hresult⟩

/-- Three timers that expired in the other order than they were added, the second one a loop
timer, and a fourth that is not due. -/
def threeExpired : List Action :=
  [.addTimer 9, .push 0, .mark 0, .notify 0, .addTimerLoop 0 7, .push 1, .mark 1, .notify 1,
    .addTimer 5, .push 2, .mark 2, .notify 2, .addTimer 40, .push 3, .mark 3, .notify 3,
    .tick 20, .sched]

theorem catches_up_threeExpired :
    ∃ s k ran t, run step64 (initial 0) threeExpired = some s ∧ k ≤ 11 * s.mTimers.size + 8 ∧
      run step64 s (List.replicate k .sched) = some t ∧ CaughtUp s ran t ∧ Waits t := by
  have hstate : ∃ s, run step64 (initial 0) threeExpired = some s ∧ s.pc = .loop ∧
      s.timerRun = true ∧ s.count = 4 ∧ (∀ i < 4, s.producer i = .notified) ∧
      (∀ i ∈ s.mTimers, (s.timers i).mDelayTime = 0) ∧
      (∀ i < 4, 0 < (s.timers i).mLastTime) := by
    refine ⟨_, rfl, rfl, rfl, rfl, ?_, ?_, ?_⟩ <;> decide
  obtain ⟨s, hrun, hpc, hrunning, hcount, hnotified, hbegun, hpos⟩ := hstate
  have hG : Meets step64 (fun s a => OneAtATime s a ∧ a.Bounded s.now) (initial 0)
      threeExpired := by decide +kernel
  have hsmall : IsSmall 0 := isSmall_zero
  obtain ⟨hone, hrun', -⟩ := run64_of_bounded (bounded_initial hsmall) hG hrun
  have hpaced : Paced s := by
    rintro i hadded -
    refine hpos i (Nat.lt_of_not_le fun hge => ?_)
    rw [(inTurn_of_run hone hrun').fresh i (hcount ▸ hge)] at hadded
    exact hadded
  obtain ⟨k, ran, t, hresult⟩ := catches_up 0 threeExpired s hsmall hG hrun hpc hrunning
    (fun i hi => by
      rw [hnotified i (hcount ▸ hi)]
      exact id)
    hbegun hpaced
  exact ⟨s, k, ran, t, hrun, hresult⟩

end PssClient.TimerMgr
