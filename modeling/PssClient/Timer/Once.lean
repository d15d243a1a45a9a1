import PssClient.Timer.Queue

/-!
# A one-shot timer

`operator()` of a one-shot timer moves the callback out under the flag that `cancel` uses as well,
and calls it afterwards. A timer may be executed any number of times, also at the same time.

* `Pc` / `Shared` — one timer, the executions of it, and what has happened. An execution is the part
  of `timer_run` from `(*tmp)()` to the push.
* `step` — an execution begins or goes on, or any thread calls `cancel`; the function given to
  `call_once` is run in one step.
* `Owned` — the invariant: only the execution that was first under the flag has the callback.
* `at_most_once` — the result. `execs_once` is what it comes to in the timer manager, whose schedule
  thread executes the timers.
-/

namespace PssClient

namespace Once

open Machine

/-- A call of `call_once`. -/
inductive Caller
  | execution (i : Nat)
  | cancel
  deriving DecidableEq

/-- Where an execution is: before the step named. -/
inductive Pc
  | absent
  -- `operator()`
  | testType
  | callOnce
  | testCallback (callback : Bool)
  | inCallback
  -- the other branch
  | testMember
  | inMember
  | setStart
  -- the condition in `timer_run`
  | testLoop
  | over
  deriving DecidableEq

/-- The execution has left the branch of a one-shot timer, or is in the callback. -/
def Pc.Tested : Pc → Prop
  | .inCallback | .testLoop | .over => True
  | _ => False

/-- The branch of a loop timer. -/
def Pc.InLoop : Pc → Prop
  | .testMember | .inMember | .setStart => True
  | _ => False

/-- A timer, and the executions of it. -/
structure Shared where
  timer : Timer
  pc : Nat → Pc := fun _ => .absent
  now : Int := 0
  -- the calls of `call_once`; only the function of the first one is run
  callers : List Caller := []
  -- the executions that called the callback, and those that pushed the timer again
  invocations : List Nat := []
  requeued : List Nat := []

/-- An execution goes on. -/
def proceed (i : Nat) (s : Shared) : Option Shared :=
  match s.pc i with
  | .absent => none
  | .testType =>
    some { s with
      pc := Function.update s.pc i (if s.timer.mTimerType = .once then .callOnce else .testMember) }
  | .callOnce =>
    some { s with
      timer := s.timer.beforeCallback
      callers := s.callers ++ [.execution i]
      pc := Function.update s.pc i (.testCallback s.timer.calls) }
  | .testCallback true =>
    some { s with
      invocations := s.invocations ++ [i]
      pc := Function.update s.pc i .inCallback }
  | .testCallback false => some { s with pc := Function.update s.pc i .testLoop }
  | .inCallback => some { s with pc := Function.update s.pc i .testLoop }
  | .testMember =>
    if s.timer.calls then
      some { s with
        invocations := s.invocations ++ [i]
        pc := Function.update s.pc i .inMember }
    else some { s with pc := Function.update s.pc i .setStart }
  | .inMember => some { s with pc := Function.update s.pc i .setStart }
  | .setStart =>
    some { s with
      timer := s.timer.afterCallback s.now
      pc := Function.update s.pc i .testLoop }
  | .testLoop =>
    if s.timer.mTimerType = .loop ∧ s.timer.mCallback = true then
      some { s with
        requeued := s.requeued ++ [i]
        pc := Function.update s.pc i .over }
    else some { s with pc := Function.update s.pc i .over }
  | .over => none

/-- What can happen next: an execution begins or goes on, or a thread cancels the timer. Any number
of executions can be in progress. -/
inductive Action
  /-- `timer_run` has taken the timer and calls `operator()`. -/
  | execute (i : Nat)
  | proceed (i : Nat)
  | cancel
  | tick (d : Nat)

def step (s : Shared) : Action → Option Shared
  | .execute i =>
    if s.pc i = .absent then some { s with pc := Function.update s.pc i .testType } else none
  | .proceed i => proceed i s
  | .cancel => some { s with timer := s.timer.cancel, callers := s.callers ++ [.cancel] }
  | .tick d => some { s with now := s.now + d }

/-- A timer as its constructor leaves it. -/
def made (startTime lastTime delayTime : Int) (timerType : TimerType) (callback : Bool) :
    Shared where
  timer := ⟨startTime, lastTime, delayTime, timerType, callback, false⟩

/-! ## Whose the callback is -/

/-- What the place of an execution says about it. It is not in the branch of the loop timers; it has
found the flag unset only as the first caller; and it has invoked the callback only after that test.
-/
structure Placed (callers : List Caller) (invocations : List Nat) (i : Nat) (pc : Pc) : Prop where
  branch : ¬ pc.InLoop
  taken : pc = .testCallback true → callers.head? = some (.execution i)
  invoked : i ∈ invocations → callers.head? = some (.execution i) ∧ pc.Tested

/-- The invariant of a one-shot timer. The callback is with the first caller of `call_once`, if that
is an execution: nobody else invokes it, and no execution comes to the branch that would push the
timer again. -/
structure Owned (s : Shared) : Prop where
  once : s.timer.mTimerType = .once
  unset : s.timer.mExecuteOnceFlag = false → s.callers = []
  placed : ∀ i, Placed s.callers s.invocations i (s.pc i)
  nodup : s.invocations.Nodup
  requeued : s.requeued = []

theorem owned_made (startTime lastTime delayTime : Int) (callback : Bool) :
    Owned (made startTime lastTime delayTime .once callback) where
  once := rfl
  unset := fun _ => rfl
  placed := fun _ => ⟨id, (by cases ·), (by cases ·)⟩
  nodup := List.nodup_nil
  requeued := rfl

/-- The first caller stays the first. -/
theorem head?_append_of_some {callers : List Caller} {c : Caller} (h : callers.head? = some c)
    (others : List Caller) : (callers ++ others).head? = some c := by
  rw [List.head?_append, h]
  rfl

theorem Placed.append {callers : List Caller} {invocations : List Nat} {i : Nat} {pc : Pc}
    (h : Placed callers invocations i pc) (c : Caller) :
    Placed (callers ++ [c]) invocations i pc where
  branch := h.branch
  taken := fun hpc => head?_append_of_some (h.taken hpc) [c]
  invoked := fun hi => ⟨head?_append_of_some (h.invoked hi).1 [c], (h.invoked hi).2⟩

/-- An execution goes to another place; nothing else changes. -/
theorem owned_move {s : Shared} (h : Owned s) {i : Nat} {pc : Pc} (hbranch : ¬ pc.InLoop)
    (htaken : pc ≠ .testCallback true) (hkeeps : (s.pc i).Tested → pc.Tested) :
    Owned { s with pc := Function.update s.pc i pc } := by
  have hi : Placed s.callers s.invocations i pc :=
    ⟨hbranch, fun hpc => absurd hpc htaken,
      fun hmem => ((h.placed i).invoked hmem).imp_right hkeeps⟩
  have hplaced := (Function.forall_update_iff s.pc (Placed s.callers s.invocations)).mpr
    ⟨hi, fun j _ => h.placed j⟩
  exact { h with placed := hplaced }

/-- The first to call `call_once` gets the callback, any other finds the flag set. -/
theorem owned_callOnce {s : Shared} (h : Owned s) (i : Nat) (hpc : s.pc i = .callOnce) :
    Owned { s with
      timer := s.timer.beforeCallback
      callers := s.callers ++ [.execution i]
      pc := Function.update s.pc i (.testCallback s.timer.calls) } := by
  -- the caller has not called the callback yet
  have hnone : i ∉ s.invocations := by
    intro hmem
    have htested := ((h.placed i).invoked hmem).2
    rw [hpc] at htested
    exact htested
  have hi : Placed (s.callers ++ [.execution i]) s.invocations i (.testCallback s.timer.calls) := by
    refine ⟨id, fun htrue => ?_, fun hmem => absurd hmem hnone⟩
    have hcalls : s.timer.calls = true := Pc.testCallback.inj htrue
    rw [Timer.calls, h.once] at hcalls
    have hunset : s.timer.mExecuteOnceFlag = false := by simp_all
    rw [h.unset hunset]
    rfl
  -- the flag stays one of `call_once`, is set now, and everyone else is where they were
  refine { h with once := ?_, unset := ?_, placed := ?_ }
  · unfold Timer.beforeCallback
    split
    · split
      · exact h.once
      · exact h.once
    · exact h.once
  · intro hunset
    have hset : s.timer.beforeCallback.mExecuteOnceFlag = true := by
      rw [Timer.beforeCallback, h.once]
      show (if _ then _ else _ : Timer).mExecuteOnceFlag = true
      split
      · assumption
      · rfl
    rw [hset] at hunset
    cases hunset
  · exact (Function.forall_update_iff s.pc
      (Placed (s.callers ++ [.execution i]) s.invocations)).mpr
        ⟨hi, fun j _ => (h.placed j).append _⟩

/-- An execution that has the callback calls it. -/
theorem owned_invoke {s : Shared} (h : Owned s) (i : Nat) (hpc : s.pc i = .testCallback true) :
    Owned { s with
      invocations := s.invocations ++ [i]
      pc := Function.update s.pc i .inCallback } := by
  have hhead := (h.placed i).taken hpc
  have hnone : i ∉ s.invocations := by
    intro hmem
    have htested := ((h.placed i).invoked hmem).2
    rw [hpc] at htested
    exact htested
  have hothers : ∀ j, j ≠ i → Placed s.callers (s.invocations ++ [i]) j (s.pc j) := by
    intro j hne
    have hj := h.placed j
    refine ⟨hj.branch, hj.taken, fun hmem => hj.invoked ?_⟩
    rcases List.mem_append.mp hmem with hold | hnew
    · exact hold
    · exact absurd (List.mem_singleton.mp hnew) hne
  refine { h with placed := ?_, nodup := ?_ }
  · exact (Function.forall_update_iff s.pc (Placed s.callers (s.invocations ++ [i]))).mpr
      ⟨⟨id, (by cases ·), fun _ => ⟨hhead, trivial⟩⟩, hothers⟩
  · exact List.perm_append_comm.nodup (List.nodup_cons.mpr ⟨hnone, h.nodup⟩)

/-- An execution goes on. The cases are its places; the one that matters is `call_once`, where the
first to come takes the callback. -/
theorem owned_proceed {s s' : Shared} {i : Nat} (h : Owned s) (hs : proceed i s = some s') :
    Owned s' := by
  have hbranch := (h.placed i).branch
  unfold proceed at hs
  split at hs
  case h_1 => cases hs
  case h_2 hpc =>
    cases hs
    rw [if_pos h.once]
    exact owned_move h id (by simp) (by rw [hpc]; exact id)
  case h_3 hpc =>
    cases hs
    exact owned_callOnce h i hpc
  case h_4 hpc =>
    cases hs
    exact owned_invoke h i hpc
  case h_5 hpc =>
    cases hs
    exact owned_move h id (by simp) (fun _ => trivial)
  case h_6 hpc =>
    cases hs
    exact owned_move h id (by simp) (fun _ => trivial)
  -- a one-shot timer is not in the other branch
  case h_7 hpc | h_8 hpc | h_9 hpc =>
    rw [hpc] at hbranch
    exact absurd trivial hbranch
  case h_10 hpc =>
    have hnot : ¬ (s.timer.mTimerType = .loop ∧ s.timer.mCallback = true) := by
      rw [h.once]
      exact fun hloop => by cases hloop.1
    rw [if_neg hnot] at hs
    cases hs
    exact owned_move h id (by simp) (fun _ => trivial)
  case h_11 => cases hs

theorem owned_cancel {s : Shared} (h : Owned s) :
    Owned { s with timer := s.timer.cancel, callers := s.callers ++ [.cancel] } := by
  refine { h with once := ?_, unset := ?_, placed := fun i => (h.placed i).append _ }
  · exact (Timer.alike_cancel s.timer).mTimerType.trans h.once
  · intro hunset
    have hset : s.timer.cancel.mExecuteOnceFlag = true := by
      unfold Timer.cancel
      split
      · assumption
      · rfl
    rw [hset] at hunset
    cases hunset

theorem owned_step {s s' : Shared} {a : Action} (h : Owned s) (hs : step s a = some s') :
    Owned s' := by
  cases a with
  | execute i =>
    obtain ⟨habsent, heq⟩ := Option.ite_none_right_eq_some.mp hs
    cases heq
    exact owned_move h id (by simp) (by rw [habsent]; exact id)
  | proceed i => exact owned_proceed h hs
  | cancel =>
    cases hs
    exact owned_cancel h
  | tick d =>
    cases hs
    exact { h with }

/-- The executions that have called the callback are the first caller, or none. -/
theorem Owned.invocations {s : Shared} (h : Owned s) :
    ∀ i ∈ s.invocations, s.callers.head? = some (.execution i) :=
  fun i hi => ((h.placed i).invoked hi).1

/-- **A one-shot callback runs at most once.** However often the timer is executed and cancelled, by
whichever threads, its callback is called at most once, and not at all when `cancel` was first under
the flag; and `timer_run` never pushes it again. -/
theorem at_most_once (startTime lastTime delayTime : Int) (callback : Bool) (as : List Action)
    (s : Shared)
    (hrun : run step (made startTime lastTime delayTime .once callback) as = some s) :
    s.invocations.length ≤ 1 ∧
      (s.callers.head? = some .cancel → s.invocations = []) ∧ s.requeued = [] := by
  have h : Owned s := invariant_of_run Owned (fun _ _ _ => owned_step)
    (owned_made startTime lastTime delayTime callback) hrun
  refine ⟨?_, fun hcancel => ?_, h.requeued⟩
  · have hsame : ∀ i ∈ s.invocations, ∀ j ∈ s.invocations, i = j := by
      intro i hi j hj
      have heq := (h.invocations i hi).symm.trans (h.invocations j hj)
      exact Caller.execution.inj (Option.some.inj heq)
    cases hlist : s.invocations with
    | nil => exact Nat.zero_le 1
    | cons i rest =>
      cases rest with
      | nil => exact le_rfl
      | cons j rest =>
        have hnodup := h.nodup
        rw [hlist] at hnodup hsame
        have heq := hsame i (by simp) j (by simp)
        rw [heq] at hnodup
        exact absurd hnodup (by simp)
  · apply List.eq_nil_iff_forall_not_mem.mpr
    intro i hi
    have heq := hcancel.symm.trans (h.invocations i hi)
    cases heq

/-- Two executions at the same time, and a cancel between their calls of `call_once`. -/
def twice : List Action :=
  [.execute 0, .execute 1, .proceed 0, .proceed 1, .proceed 1, .cancel, .proceed 0, .proceed 0,
    .proceed 1, .proceed 1, .proceed 0, .proceed 1]

theorem at_most_once_twice :
    ∃ s, run step (made 0 5 0 .once true) twice = some s ∧ s.invocations.length ≤ 1 ∧
      (s.callers.head? = some .cancel → s.invocations = []) ∧ s.requeued = [] :=
  ⟨_, rfl, at_most_once 0 5 0 true twice _ rfl⟩

/-- The second execution is the first to call `call_once`, so the callback is called in it. -/
example : (run step (made 0 5 0 .once true) twice).map Shared.invocations = some [1] := by decide

end Once

/-! ## In the timer manager -/

namespace TimerMgr

open Machine

/-- The calls of a timer's callback. -/
def executions (s : TimerMgr) (i : Nat) : List Exec := s.execs.filter (·.timer = i)

/-- A one-shot timer whose callback has been called has none any more. -/
structure Spent (s : TimerMgr) : Prop extends Wf s where
  added : ∀ i, s.executions i ≠ [] → (s.producer i).Added
  spent : ∀ i, (s.timers i).mTimerType = .once → s.executions i ≠ [] →
    (s.timers i).mCallback = false
  once : ∀ i, (s.producer i).Added → (s.timers i).mTimerType = .once →
    (s.executions i).length ≤ 1

theorem spent_initial (now : Int) : Spent (initial now) where
  toWf := wf_initial now
  added := fun _ h => absurd rfl h
  spent := fun _ _ h => absurd rfl h
  once := fun _ _ _ => Nat.zero_le 1

/-- No callback is called, and none comes back. -/
theorem spent_of_execs {s s' : TimerMgr} (h : Spent s) (hwf : Wf s') (hexecs : s'.execs = s.execs)
    (hadded : ∀ i, (s.producer i).Added → (s'.producer i).Added)
    (htype : ∀ i, s.executions i ≠ [] → (s'.timers i).mTimerType = (s.timers i).mTimerType)
    (hcallback : ∀ i, s.executions i ≠ [] → (s'.timers i).mCallback = true →
      (s.timers i).mCallback = true) : Spent s' := by
  have hsame : ∀ i, s'.executions i = s.executions i := by
    intro i
    rw [executions, hexecs]
    rfl
  refine ⟨hwf, fun i hne => ?_, fun i honce hne => ?_, fun i _ honce => ?_⟩
  · rw [hsame] at hne
    exact hadded i (h.added i hne)
  · rw [hsame] at hne
    have hspent := h.spent i (htype i hne ▸ honce) hne
    by_contra hback
    rw [hcallback i hne (Bool.eq_true_of_not_eq_false hback)] at hspent
    cases hspent
  · rw [hsame]
    by_cases hne : s.executions i = []
    · rw [hne]
      exact Nat.zero_le 1
    · exact h.once i (h.added i hne) (htype i hne ▸ honce)

theorem spent_quiet {s s' : TimerMgr} (h : Spent s) (hq : Quiet s s') : Spent s' :=
  spent_of_execs h (wf_quiet h.toWf hq) hq.execs (fun i => (hq.added i).mpr)
    (fun i hne => (hq.timers i (h.added i hne)).mTimerType)
    (fun i hne => (hq.timers i (h.added i hne)).mCallback)

theorem spent_push {s : TimerMgr} {i : Nat} (h : Spent s) : Spent (push i s) :=
  spent_of_execs h (wf_push h.toWf i) rfl (fun j hj => (added_push s i j).mpr (.inr hj))
    (fun _ _ => rfl) (fun _ _ => id)

theorem spent_look {s : TimerMgr} {tmp : Nat} (h : Spent s) (htop : s.mTimers[0]? = some tmp) :
    Spent { s with pc := .getLeftTime tmp, notified := [] } :=
  spent_of_execs h (wf_look h.toWf htop) rfl (fun _ => id) (fun _ _ => rfl) (fun _ _ => id)

/-- An execution that calls the callback of a one-shot timer takes it away. -/
theorem callback_of_calls {t : Timer} (htype : t.mTimerType = .once) (hcalls : t.calls = true) :
    t.mCallback = true ∧ t.beforeCallback.mCallback = false := by
  rw [Timer.calls, htype] at hcalls
  have hflag : t.mExecuteOnceFlag = false ∧ t.mCallback = true := by simpa using hcalls
  rw [Timer.beforeCallback, htype]
  show _ ∧ (if _ then _ else _ : Timer).mCallback = false
  rw [if_neg (by rw [hflag.1]; decide)]
  exact ⟨hflag.2, rfl⟩

theorem executions_popStep {tmp : Nat} {s : TimerMgr} (hcalls : (s.timers tmp).calls = true)
    (top i : Nat) :
    (popStep tmp top s).executions i =
      if tmp = i then s.executions i ++ [⟨tmp, s.now, s.due tmp⟩] else s.executions i := by
  have hexecs : (popStep tmp top s).execs = s.execs ++ [⟨tmp, s.now, s.due tmp⟩] := if_pos hcalls
  rw [executions, hexecs, List.filter_append]
  by_cases hi : tmp = i <;> simp [executions, hi]

/-- **The callback of a one-shot timer is gone when it has been called.** `call_once` sets its flag
and the callback is cleared with it, so that the timer is not executed again, wherever it is. -/
theorem spent_pop {s : TimerMgr} {tmp top : Nat} (h : Spent s) (hpc : s.pc = .pop tmp)
    (htop : s.mTimers[0]? = some top) : Spent (popStep tmp top s) := by
  have hwf := wf_pop h.toWf hpc htop
  have htmp : (s.producer tmp).Added := h.added_of_held (by rw [hpc]; rfl)
  have halike : ∀ i, (s.timers i).Alike ((popStep tmp top s).timers i) :=
    alike_update (Timer.alike_beforeCallback (s.timers tmp))
  by_cases hcalls : (s.timers tmp).calls = true
  -- nothing is executed
  case neg =>
    exact spent_of_execs h hwf (if_neg hcalls) (fun _ => id) (fun i _ => (halike i).mTimerType)
      (fun i _ => (halike i).mCallback)
  case pos =>
    -- one execution more, of this timer
    have hexecutions := executions_popStep hcalls top
    refine ⟨hwf, fun i hne => ?_, fun i htype hne => ?_, fun i hadded htype => ?_⟩
    · by_cases hi : tmp = i
      · exact hi ▸ htmp
      · rw [hexecutions, if_neg hi] at hne
        exact h.added i hne
    · have hold : (s.timers i).mTimerType = .once := (halike i).mTimerType ▸ htype
      by_cases hi : tmp = i
      · subst hi
        show (Function.update s.timers tmp _ tmp).mCallback = false
        rw [Function.update_self]
        exact (callback_of_calls hold hcalls).2
      · rw [hexecutions, if_neg hi] at hne
        show (Function.update s.timers tmp _ i).mCallback = false
        rw [Function.update_of_ne (Ne.symm hi)]
        exact h.spent i hold hne
    · have hold : (s.timers i).mTimerType = .once := (halike i).mTimerType ▸ htype
      by_cases hi : tmp = i
      · subst hi
        -- it had none, or its callback would be gone
        have hfirst : s.executions tmp = [] := by
          by_contra hne
          have hspent := h.spent tmp hold hne
          rw [(callback_of_calls hold hcalls).1] at hspent
          cases hspent
        rw [hexecutions, if_pos rfl, hfirst]
        exact le_rfl
      · rw [hexecutions, if_neg hi]
        exact h.once i hadded hold

theorem spent_running {s : TimerMgr} {tmp : Nat} {called : Bool} (h : Spent s)
    (hpc : s.pc = .running tmp called) : Spent (runningStep tmp s) := by
  have hwf := wf_running h.toWf hpc
  have htimers : (runningStep tmp s).timers = (finish tmp s).timers := by
    unfold runningStep
    split <;> rfl
  have hexecs : (runningStep tmp s).execs = s.execs := by
    unfold runningStep
    split <;> rfl
  have hproducer : (runningStep tmp s).producer = s.producer := by
    unfold runningStep
    split <;> rfl
  refine spent_of_execs h hwf hexecs (fun i hi => hproducer ▸ hi) (fun i _ => ?_) (fun i _ hi => ?_)
  · rw [htimers]
    exact (finish_timer tmp s i).1
  · rw [htimers, (finish_timer tmp s i).2.2] at hi
    exact hi

/-- In every run of the timer manager the callback of a one-shot timer is called at most once, and
the execution that called it does not push the timer again. -/
theorem execs_once (now : Int) (as : List Action) (s : TimerMgr)
    (hrun : run step (initial now) as = some s) (i : Nat) (hadded : (s.producer i).Added)
    (hone : (s.timers i).mTimerType = .once) :
    (s.executions i).length ≤ 1 ∧ (runningStep i s).mTimers = s.mTimers := by
  have h := invariant_of_run (fun s => Fresh s ∧ Spent s)
    (fun s a s' hs hstep => ⟨fresh_step hs.1 hstep,
      invariant_step (G := fun _ _ => True) (fun _ _ h hq => spent_quiet h hq)
        (fun _ _ h _ => spent_push h) (fun _ _ h _ htop => spent_look h htop)
        (fun _ _ _ h _ hpc htop => spent_pop h hpc htop) (fun _ _ _ h hpc => spent_running h hpc)
        hs.1 hs.2 trivial hstep⟩)
    ⟨fun _ _ => rfl, spent_initial now⟩ hrun
  refine ⟨h.2.once i hadded hone, ?_⟩
  rw [runningStep, if_neg fun hloop => by rw [hone] at hloop; cases hloop.1]
  rfl

end TimerMgr

end PssClient
