import PssClient.Timer.Close

/-!
# The timers while the clock stands still

`timer_run` is called again and again at one reading of the clock. What it has executed in this
stretch of time has lost its callback or is not due again, as long as the loop timers have positive
intervals.

* `Paced` — the interval of every loop timer that has been added is positive.
* `Still` — an action that leaves the clock and the queue to the schedule thread.
* `Turn` — the invariant of such a stretch: which callbacks have been called in it, and that their
  timers have to wait.
* `potential` — how many steps the schedule thread can take before it has to wait.
-/

namespace PssClient

open Machine

namespace Timer

theorem callback_of_calls {t : Timer} (h : t.calls = true) : t.mCallback = true := by
  unfold calls at h
  split at h
  · exact (Bool.and_eq_true_iff.mp h).2
  · exact h

theorem calls_of_loop {t : Timer} (h : t.mTimerType = .loop) : t.calls = t.mCallback := by
  unfold calls
  rw [h]

/-- A one-shot timer loses its callback before this is called. -/
theorem callback_lost {t : Timer} (htype : t.mTimerType = .once) (h : t.calls = true) :
    t.beforeCallback.mCallback = false := by
  unfold calls at h
  unfold beforeCallback
  rw [htype] at h ⊢
  have hflag : t.mExecuteOnceFlag = false := by
    simpa using (Bool.and_eq_true_iff.mp h).1
  rw [hflag]
  rfl

end Timer

namespace TimerMgr

/-- The interval of every loop timer that has been added is positive. -/
def Paced (s : TimerMgr) : Prop :=
  ∀ i, (s.producer i).Added → (s.timers i).mTimerType = .loop → 0 < (s.timers i).mLastTime

/-- The clock does not go on, and no timer is added. -/
def Still : Action → Prop
  | .push _ | .callbackAddTimer _ | .callbackAddTimerLoop _ _ | .tick _ => False
  | _ => True

instance : (a : Action) → Decidable (Still a)
  | .push _ | .callbackAddTimer _ | .callbackAddTimerLoop _ _ | .tick _ => isFalse id
  | .addTimer _ | .addTimerLoop _ _ | .mark _ | .notify _ | .cancel _ | .close | .sched
  | .waitTimeout => isTrue trivial

/-- A timer whose callback is not called before the clock goes on: it has lost it, or it is not
due. -/
def Done (s : TimerMgr) (i : Nat) : Prop :=
  (s.timers i).mCallback = false ∨
    (s.timers i).mTimerType = .loop ∧ (s.timers i).mDelayTime = 0 ∧ s.now < s.due i

end TimerMgr

/-- What the place of the schedule thread says, when it has not waited yet. -/
def Pc.Unwaited (s : TimerMgr) (ran : List Exec) : Pc → Prop
  | .testRun | .testEmptyAgain | .readTop => s.mTimers.isEmpty = false
  | .testRunAgain tmp | .pop tmp =>
    (s.timers tmp).mDelayTime = 0 ∧
      ((s.timers tmp).mCallback = true → tmp ∉ ran.map Exec.timer)
  | .running tmp called =>
    (s.timers tmp).mDelayTime = 0 ∧
      ((s.timers tmp).mTimerType = .loop → (s.timers tmp).mCallback = true → called = true)
  | .schedule | .blockedEmpty _ | .blockedTop _ _ | .woken _ _ => False
  | _ => True

/-- The steps up to the next `pop()`, and eleven for each timer that it may put back. -/
def Pc.toGo : Pc → Nat
  | .running _ true => 24
  | .running _ false => 13
  | .overwrite => 12
  | .loop => 11
  | .lock => 10
  | .testEmpty => 9
  | .testRun => 8
  | .testEmptyAgain => 7
  | .readTop => 6
  | .getLeftTime _ => 5
  | .testRunAgain _ => 4
  | .pop _ => 3
  | _ => 0

namespace TimerMgr

/-- A stretch of time from `s₀` on, in which the callbacks `ran` have been called while the clock
stood still. They belong to different timers, all of them in the queue of `s₀`; and a timer that has
been called is done with, being gone or not due again before the clock goes on. -/
structure Turn (s₀ : TimerMgr) (ran : List Exec) (s : TimerMgr) : Prop where
  fresh : Fresh s
  wf : Wf s
  now : s.now = s₀.now
  paced : Paced s
  queue : ∀ i ∈ s.mTimers, i ∈ s₀.mTimers
  executing : ∀ tmp, s.pc.executing = some tmp → tmp ∈ s₀.mTimers
  execs : s.execs = s₀.execs ++ ran
  nodup : (ran.map Exec.timer).Nodup
  mem : ∀ i ∈ ran.map Exec.timer, i ∈ s₀.mTimers
  added : ∀ i ∈ s₀.mTimers, (s.producer i).Added
  done : ∀ i ∈ ran.map Exec.timer,
    s.pc.executing = some i ∧ (s.timers i).mTimerType = .loop ∨ Done s i
  place : s.pc.Unwaited s ran

/-- How many steps the schedule thread can take before it has to wait. -/
def potential (s₀ : TimerMgr) (ran : List Exec) (s : TimerMgr) : Nat :=
  11 * (s.mTimers.size + (s₀.mTimers.size - ran.length)) + s.pc.toGo

theorem turn_start {s : TimerMgr} (hfresh : Fresh s) (hwf : Wf s) (hpaced : Paced s)
    (hpc : s.pc = .loop) : Turn s [] s where
  fresh := hfresh
  wf := hwf
  now := rfl
  paced := hpaced
  queue := fun _ => id
  executing := fun tmp h => by
    rw [hpc] at h
    cases h
  execs := (List.append_nil _).symm
  nodup := List.nodup_nil
  mem := fun _ h => absurd h List.not_mem_nil
  added := hwf.queued
  done := fun _ h => absurd h List.not_mem_nil
  place := by
    rw [hpc]
    trivial

/-- No more callbacks have been called than there were timers. -/
theorem Turn.length_le {s₀ s : TimerMgr} {ran : List Exec} (h : Turn s₀ ran s) :
    ran.length ≤ s₀.mTimers.size := by
  have hsub : ran.map Exec.timer ⊆ s₀.mTimers.toList :=
    fun i hi => Array.mem_toList_iff.mpr (h.mem i hi)
  have hle := (List.subperm_of_subset h.nodup hsub).length_le
  rwa [List.length_map, Array.length_toList] at hle

theorem paced_of_alike {s s' : TimerMgr} (h : Paced s)
    (hadded : ∀ i, (s'.producer i).Added → (s.producer i).Added)
    (htype : ∀ i, (s.producer i).Added →
      (s'.timers i).mTimerType = (s.timers i).mTimerType ∧
        (s'.timers i).mLastTime = (s.timers i).mLastTime) : Paced s' := by
  intro i hi hloop
  obtain ⟨hsame, hlast⟩ := htype i (hadded i hi)
  rw [hlast]
  exact h i (hadded i hi) (hsame ▸ hloop)

/-- A timer that is done stays so while the clock stands still. -/
theorem done_of_alike {s s' : TimerMgr} {i : Nat} (h : Done s i)
    (halike : (s.timers i).Alike (s'.timers i)) (hnow : s'.now = s.now)
    (hdelay : (s.timers i).mDelayTime = 0 → (s'.timers i).mDelayTime = 0) : Done s' i := by
  rcases h with hnone | ⟨hloop, hzero, hlt⟩
  · left
    cases hcallback : (s'.timers i).mCallback with
    | false => rfl
    | true => exact absurd (halike.mCallback hcallback) (by rw [hnone]; decide)
  · refine .inr ⟨halike.mTimerType.trans hloop, hdelay hzero, ?_⟩
    show s'.now < (s'.timers i).due
    rw [hnow, halike.due]
    exact hlt

/-- The steps that leave the queue alone. -/
theorem turn_quiet {s₀ s s' : TimerMgr} {ran : List Exec} (h : Turn s₀ ran s) (hq : Quiet s s')
    (hfresh : Fresh s') (hnow : s'.now = s.now)
    (hdelay : ∀ i, (s.producer i).Added → (s.timers i).mDelayTime = 0 →
      (s'.timers i).mDelayTime = 0)
    (hplace : s'.pc.Unwaited s' ran) : Turn s₀ ran s' where
  fresh := hfresh
  wf := wf_quiet h.wf hq
  now := hnow.trans h.now
  paced := paced_of_alike h.paced (fun i => (hq.added i).mp)
    fun i hi => ⟨(hq.timers i hi).mTimerType, (hq.timers i hi).mLastTime⟩
  queue := fun i hi => h.queue i (hq.mTimers ▸ hi)
  executing := fun tmp htmp => h.executing tmp (hq.executing ▸ htmp)
  execs := hq.execs.trans h.execs
  nodup := h.nodup
  mem := h.mem
  added := fun i hi => (hq.added i).mpr (h.added i hi)
  done := by
    intro i hi
    have hadded := h.added i (h.mem i hi)
    have halike := hq.timers i hadded
    rw [hq.executing, halike.mTimerType]
    exact (h.done i hi).imp_right fun hdone => done_of_alike hdone halike hnow (hdelay i hadded)
  place := hplace

/-- A timer that has been called in this stretch and not lost its callback has time left. -/
theorem Turn.left_pos {s₀ s : TimerMgr} {ran : List Exec} (h : Turn s₀ ran s) {tmp : Nat}
    (hpc : s.pc = .getLeftTime tmp) (hcallback : (s.timers tmp).mCallback = true)
    (hmem : tmp ∈ ran.map Exec.timer) : 0 < ((s.timers tmp).getLeftTime s.now).1 := by
  rcases h.done tmp hmem with ⟨hexec, -⟩ | hnone | ⟨-, hzero, hlt⟩
  · rw [hpc] at hexec
    cases hexec
  · rw [hnone] at hcallback
    cases hcallback
  · have hdue : s.now < (s.timers tmp).mStartTime + (s.timers tmp).mLastTime := hlt
    show 0 < (s.timers tmp).mLastTime - (s.now - (s.timers tmp).mStartTime)
      + seconds (s.timers tmp).mDelayTime
    rw [hzero]
    unfold seconds
    omega

/-- Between two executions the schedule thread comes nearer to the next one or to a wait. -/
theorem place_sched {s₀ s s' : TimerMgr} {ran : List Exec} (h : Turn s₀ ran s)
    (hnowait : s.pc.beginsWait = false) (hpop : s.pc.popping = none)
    (hidle : s.pc.executing = none) (hs : sched s = some s') :
    s'.pc.Unwaited s' ran ∧ s'.pc.toGo < s.pc.toGo ∧ s'.now = s.now := by
  have hplace := h.place
  cases goes_of_sched hs with
  | again hpc =>
    rw [hpc]
    exact ⟨trivial, Nat.lt_succ_self 10, rfl⟩
  | leave hpc =>
    rw [hpc]
    exact ⟨trivial, Nat.succ_pos 10, rfl⟩
  | lock hpc =>
    rw [hpc]
    exact ⟨trivial, Nat.lt_succ_self 9, rfl⟩
  | empty hpc =>
    rw [hpc]
    exact ⟨trivial, Nat.succ_pos 8, rfl⟩
  | nonempty hpc hnonempty =>
    rw [hpc]
    exact ⟨hnonempty, Nat.lt_succ_self 8, rfl⟩
  | run hpc =>
    rw [hpc] at hplace ⊢
    exact ⟨hplace, Nat.lt_succ_self 7, rfl⟩
  | leaveRun hpc =>
    rw [hpc]
    exact ⟨trivial, Nat.succ_pos 7, rfl⟩
  | stillEmpty hpc hempty =>
    rw [hpc] at hplace
    have hnonempty : s.mTimers.isEmpty = false := hplace
    rw [hnonempty] at hempty
    cases hempty
  | filled hpc hnonempty =>
    rw [hpc]
    exact ⟨hnonempty, Nat.lt_succ_self 6, rfl⟩
  | readTop tmp hpc =>
    rw [hpc]
    exact ⟨trivial, Nat.lt_succ_self 5, rfl⟩
  | left tmp hpc =>
    rw [hpc]
    exact ⟨trivial, Nat.succ_pos 4, rfl⟩
  | expired tmp hpc hleft =>
    rw [hpc]
    refine ⟨⟨?_, fun hcallback hmem => ?_⟩, Nat.lt_succ_self 4, rfl⟩
    · dsimp only
      rw [Function.update_self]
      rfl
    · dsimp only at hcallback
      rw [Function.update_self] at hcallback
      exact absurd (h.left_pos hpc hcallback hmem) (not_lt.mpr hleft)
  | runAgain tmp hpc =>
    rw [hpc] at hplace ⊢
    exact ⟨hplace, Nat.lt_succ_self 3, rfl⟩
  | leaveRunAgain tmp hpc =>
    rw [hpc]
    exact ⟨trivial, Nat.succ_pos 3, rfl⟩
  | overwrite hpc =>
    rw [hpc]
    exact ⟨trivial, Nat.lt_succ_self 11, rfl⟩
  -- executions, waits and the places where the thread is not
  | pop tmp top hpc =>
    rw [hpc] at hpop
    cases hpop
  | requeue tmp called hpc | finished tmp called hpc =>
    rw [hpc] at hidle
    cases hidle
  | waitEmpty hpc | waitTop tmp timerWait hpc =>
    rw [hpc] at hnowait
    cases hnowait
  | schedule hpc | marked tmp status hpc | unmarked tmp status hpc =>
    rw [hpc] at hplace
    exact hplace.elim

end TimerMgr

end PssClient
