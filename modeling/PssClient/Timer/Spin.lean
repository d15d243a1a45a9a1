import PssClient.Timer.Turn

/-!
# A loop timer does not spin

`timer_run` puts a loop timer back with the present time as its start time. With a positive interval
it is not due again before the clock goes on, so that in calls of `timer_run` one after another, at
one reading of the clock, each timer's callback is called once at most and then there is a wait.

* `turn_pop` / `turn_running` — the beginning and the end of an execution.
* `turn_sched` — a step of the schedule thread lowers the potential.
* `turn_bounded` — the result.
-/

namespace PssClient

open Machine

namespace TimerMgr

theorem size_pop {key : Nat → Int} {a : Array Nat} {top : Nat} (h : a[0]? = some top) :
    (BinaryHeap.pop key a).size + 1 = a.size := by
  have hlength := (BinaryHeap.pop_perm key h).length_eq
  rw [List.length_cons, Array.length_toList, Array.length_toList] at hlength
  exact hlength.symm

theorem size_push (key : Nat → Int) (a : Array Nat) (x : Nat) :
    (BinaryHeap.push key a x).size = a.size + 1 := by
  have hlength := (BinaryHeap.push_perm key a x).length_eq
  rwa [List.length_cons, Array.length_toList, Array.length_toList] at hlength

theorem timer_popStep (tmp top : Nat) (s : TimerMgr) :
    (popStep tmp top s).timers tmp = (s.timers tmp).beforeCallback := Function.update_self ..

/-- The timers that have run in this stretch are still done when the next execution begins. -/
theorem Turn.done_popStep {s₀ s : TimerMgr} {ran : List Exec} {tmp : Nat} (h : Turn s₀ ran s)
    (hpc : s.pc = .pop tmp) (top : Nat) {i : Nat} (hi : i ∈ ran.map Exec.timer) :
    Done (popStep tmp top s) i := by
  rcases h.done i hi with ⟨hexec, -⟩ | hdone
  · rw [hpc] at hexec
    cases hexec
  · refine done_of_alike hdone (alike_update (Timer.alike_beforeCallback _) i) rfl fun hold => ?_
    apply delay_update hold
    intro heq
    rw [Timer.delay_beforeCallback, ← heq, hold]

/-- An execution begins. -/
theorem turn_popStep {s₀ s : TimerMgr} {ran ran' : List Exec} {tmp top : Nat} (h : Turn s₀ ran s)
    (hpc : s.pc = .pop tmp) (htop : s.mTimers[0]? = some top)
    (hexecs : (popStep tmp top s).execs = s₀.execs ++ ran')
    (hnodup : (ran'.map Exec.timer).Nodup) (hmem : ∀ i ∈ ran'.map Exec.timer, i ∈ s₀.mTimers)
    (hdone : ∀ i ∈ ran'.map Exec.timer, i = tmp ∧
      ((popStep tmp top s).timers i).mTimerType = .loop ∨ Done (popStep tmp top s) i) :
    Turn s₀ ran' (popStep tmp top s) where
  fresh := h.fresh
  wf := wf_pop h.wf hpc htop
  now := h.now
  paced := by
    -- `beforeCallback` touches neither the type nor the interval
    have halike := alike_update (Timer.alike_beforeCallback (s.timers tmp))
    exact paced_of_alike h.paced (fun _ => id)
      fun i _ => ⟨(halike i).mTimerType, (halike i).mLastTime⟩
  queue := fun i hi => h.queue i (BinaryHeap.mem_of_mem_pop htop hi)
  executing := by
    rintro _ ⟨⟩
    exact h.queue tmp (h.wf.held tmp (by rw [hpc]; rfl))
  execs := hexecs
  nodup := hnodup
  mem := hmem
  added := h.added
  done := fun i hi => (hdone i hi).imp_left fun ⟨heq, htype⟩ => ⟨congrArg some heq.symm, htype⟩
  place := by
    have hzero : (s.timers tmp).mDelayTime = 0 := by
      have hplace := h.place
      rw [hpc] at hplace
      exact hplace.1
    refine ⟨?_, fun htype hcallback => ?_⟩
    · rw [timer_popStep, Timer.delay_beforeCallback, hzero]
    · rw [timer_popStep] at htype hcallback
      rw [(Timer.alike_beforeCallback _).mTimerType] at htype
      rw [Timer.calls_of_loop htype]
      exact (Timer.alike_beforeCallback _).mCallback hcallback

/-- **The callback is called.** The timer has not run in this stretch yet, since one that has run is
not due again; now it is among those that have. -/
theorem turn_called {s₀ s : TimerMgr} {ran : List Exec} {tmp top : Nat} (h : Turn s₀ ran s)
    (hpc : s.pc = .pop tmp) (htop : s.mTimers[0]? = some top)
    (hcalls : (s.timers tmp).calls = true) :
    Turn s₀ (ran ++ [⟨tmp, s.now, s.due tmp⟩]) (popStep tmp top s) := by
  have hfirst : tmp ∉ ran.map Exec.timer := by
    have hplace := h.place
    rw [hpc] at hplace
    exact hplace.2 (Timer.callback_of_calls hcalls)
  have hexecs : (popStep tmp top s).execs = s.execs ++ [⟨tmp, s.now, s.due tmp⟩] := if_pos hcalls
  have hmap : List.map Exec.timer (ran ++ [⟨tmp, s.now, s.due tmp⟩])
      = ran.map Exec.timer ++ [tmp] := List.map_append
  -- what has run, that it has run once, that it was due, and what has become of it
  apply turn_popStep h hpc htop
  · rw [hexecs, h.execs, List.append_assoc]
  · rw [hmap]
    refine List.nodup_append.mpr ⟨h.nodup, List.pairwise_singleton _ _, ?_⟩
    rintro i hi j hj rfl
    exact hfirst (List.mem_singleton.mp hj ▸ hi)
  · intro i hi
    rw [hmap] at hi
    rcases List.mem_append.mp hi with hold | hthis
    · exact h.mem i hold
    · rw [List.mem_singleton.mp hthis]
      exact h.queue tmp (h.wf.held tmp (by rw [hpc]; rfl))
  · intro i hi
    rw [hmap] at hi
    rcases List.mem_append.mp hi with hold | hthis
    · exact .inr (h.done_popStep hpc top hold)
    · rw [List.mem_singleton.mp hthis]
      cases htype : (s.timers tmp).mTimerType with
      | loop =>
        refine .inl ⟨rfl, ?_⟩
        rw [timer_popStep, (Timer.alike_beforeCallback _).mTimerType, htype]
      | once =>
        refine .inr (.inl ?_)
        rw [timer_popStep]
        exact Timer.callback_lost htype hcalls

/-- The queue has an element less, and with a callback there is a timer less to come. -/
theorem turn_pop {s₀ s : TimerMgr} {ran : List Exec} {tmp top : Nat} (h : Turn s₀ ran s)
    (hpc : s.pc = .pop tmp) (htop : s.mTimers[0]? = some top) :
    ∃ ran', Turn s₀ ran' (popStep tmp top s) ∧
      potential s₀ ran' (popStep tmp top s) < potential s₀ ran s := by
  have hsize : (BinaryHeap.pop s.due s.mTimers).size + 1 = s.mTimers.size := size_pop htop
  cases hcalls : (s.timers tmp).calls with
  | false =>
    have hexecs : (popStep tmp top s).execs = s.execs := if_neg (by rw [hcalls]; decide)
    refine ⟨ran, turn_popStep h hpc htop (hexecs.trans h.execs) h.nodup h.mem
      fun i hi => .inr (h.done_popStep hpc top hi), ?_⟩
    show 11 * ((BinaryHeap.pop s.due s.mTimers).size + _) + Pc.toGo (.running tmp _) < _
    unfold potential
    rw [hcalls, hpc]
    show _ + 13 < _ + 3
    omega
  | true =>
    have hturn := turn_called h hpc htop hcalls
    have hle := hturn.length_le
    refine ⟨_, hturn, ?_⟩
    show 11 * ((BinaryHeap.pop s.due s.mTimers).size + _) + Pc.toGo (.running tmp _) < _
    unfold potential
    rw [hcalls, hpc]
    show _ + 24 < _ + 3
    rw [List.length_append, List.length_singleton] at hle ⊢
    omega

/-- **What has run is not due again.** At the end of its execution a loop timer gets the present
time, and its interval is positive; the callback of a one-shot timer is gone. The other timers that
have run are as they were. -/
theorem Turn.done_finish {s₀ s : TimerMgr} {ran : List Exec} {tmp : Nat} {called : Bool}
    (h : Turn s₀ ran s) (hpc : s.pc = .running tmp called) {i : Nat}
    (hi : i ∈ ran.map Exec.timer) : Done (finish tmp s) i := by
  obtain ⟨htype, hlast, hcallback⟩ := finish_timer tmp s i
  by_cases heq : i = tmp
  · subst heq
    -- the timer that ends, by its type
    cases hkind : (s.timers i).mTimerType with
    | loop =>
      have hadded := h.added i (h.mem i hi)
      have hpos := h.paced i hadded hkind
      have hself : (finish i s).timers i = { s.timers i with mStartTime := s.now } := by
        show Function.update s.timers i ((s.timers i).afterCallback s.now) i = _
        rw [Function.update_self]
        unfold Timer.afterCallback
        split
        case h_1 honce =>
          rw [hkind] at honce
          cases honce
        case h_2 => rfl
      have hzero : (s.timers i).mDelayTime = 0 := by
        have hplace := h.place
        rw [hpc] at hplace
        exact hplace.1
      refine .inr ⟨htype.trans hkind, ?_, ?_⟩
      · rw [hself]
        exact hzero
      · show s.now < ((finish i s).timers i).due
        rw [hself]
        show s.now < s.now + (s.timers i).mLastTime
        omega
    | once =>
      rcases h.done i hi with ⟨-, hloop⟩ | hnone | ⟨hloop, -⟩
      · rw [hkind] at hloop
        cases hloop
      · exact .inl (hcallback.trans hnone)
      · rw [hkind] at hloop
        cases hloop
  -- another timer, which the end does not touch
  · have hsame : (finish tmp s).timers i = s.timers i := Function.update_of_ne heq ..
    rcases h.done i hi with ⟨hexec, -⟩ | hdone
    · rw [hpc] at hexec
      exact absurd (Option.some.inj hexec).symm heq
    · unfold Done due
      rw [hsame]
      exact hdone

/-- **An execution ends.** A loop timer whose callback has been called goes back into the queue; any
other timer is gone. The potential falls either way: a callback that has been called is worth more
than the timer is in the queue. -/
theorem turn_running {s₀ s : TimerMgr} {ran : List Exec} {tmp : Nat} {called : Bool}
    (h : Turn s₀ ran s) (hpc : s.pc = .running tmp called) :
    Turn s₀ ran (runningStep tmp s) ∧
      potential s₀ ran (runningStep tmp s) < potential s₀ ran s := by
  -- the delay of the timer is over, and nothing else has changed
  have hfinish : Turn s₀ ran (finish tmp s) :=
    { fresh := h.fresh
      wf := wf_finish h.wf tmp
      now := h.now
      paced := paced_of_alike h.paced (fun _ => id)
        fun i _ => ⟨(finish_timer tmp s i).1, (finish_timer tmp s i).2.1⟩
      queue := h.queue
      executing := nofun
      execs := h.execs
      nodup := h.nodup
      mem := h.mem
      added := h.added
      done := fun i hi => .inr (h.done_finish hpc hi)
      place := trivial }
  have hwf := wf_running h.wf hpc
  have hplace := h.place
  rw [hpc] at hplace
  unfold runningStep at hwf ⊢
  split
  -- the timer is pushed with the deadline that `finish` has given it
  case isTrue hloop =>
    rw [if_pos hloop] at hwf
    obtain rfl : called = true := hplace.2 hloop.1 hloop.2
    constructor
    · refine { hfinish with wf := hwf, queue := fun i hi => ?_, place := trivial }
      rcases BinaryHeap.mem_push.mp hi with rfl | hold
      · exact h.executing i (by rw [hpc]; rfl)
      · exact h.queue i hold
    · show 11 * ((BinaryHeap.push (finish tmp s).due s.mTimers tmp).size + _) + 12 < _
      unfold potential
      rw [size_push, hpc]
      show _ < _ + 24
      omega
  case isFalse =>
    refine ⟨hfinish, ?_⟩
    show 11 * (s.mTimers.size + _) + 12 < _
    unfold potential
    rw [hpc]
    cases called with
    | true =>
      show _ < _ + 24
      omega
    | false =>
      show _ < _ + 13
      omega

theorem turn_look {s₀ s : TimerMgr} {ran : List Exec} {tmp : Nat} (h : Turn s₀ ran s)
    (hpc : s.pc = .readTop) (htop : s.mTimers[0]? = some tmp) :
    Turn s₀ ran { s with pc := .getLeftTime tmp, notified := [] } :=
  { h with
    fresh := h.fresh
    wf := wf_look h.wf htop
    executing := nofun
    done := fun i hi => (h.done i hi).imp_left fun ⟨hexec, _⟩ => by
      rw [hpc] at hexec
      cases hexec
    place := trivial }

theorem quiet_sched {s s' : TimerMgr} (hs : sched s = some s') (hread : s.pc ≠ .readTop)
    (hpop : s.pc.popping = none) (hidle : s.pc.executing = none) : Quiet s s' := by
  rcases sched_cases hs with hquiet | ⟨tmp, hpc, -⟩ | ⟨tmp, top, hpc, -⟩ | ⟨tmp, called, hpc, -⟩
  · exact hquiet
  · exact absurd hpc hread
  · rw [hpc] at hpop
    cases hpop
  · rw [hpc] at hidle
    cases hidle

/-- A step of the schedule thread that executes nothing. -/
theorem turn_between {s₀ s s' : TimerMgr} {ran : List Exec} (h : Turn s₀ ran s)
    (hnowait : s.pc.beginsWait = false) (hread : s.pc ≠ .readTop) (hpop : s.pc.popping = none)
    (hidle : s.pc.executing = none) (hs : sched s = some s') :
    Turn s₀ ran s' ∧ potential s₀ ran s' < potential s₀ ran s := by
  obtain ⟨hplace, hlt, hnow⟩ := place_sched h hnowait hpop hidle hs
  have hquiet := quiet_sched hs hread hpop hidle
  constructor
  · exact turn_quiet h hquiet (fresh_sched h.fresh hs) hnow (fun i _ => delay_sched hs) hplace
  · unfold potential
    rw [hquiet.mTimers]
    omega

/-- A step of the schedule thread that begins no wait brings it nearer to one: it gets on within the
call, or executes a timer that is not executed again before the clock goes on. -/
theorem turn_sched {s₀ s s' : TimerMgr} {ran : List Exec} (h : Turn s₀ ran s)
    (hnowait : s.pc.beginsWait = false) (hs : sched s = some s') :
    ∃ ran', Turn s₀ ran' s' ∧ potential s₀ ran' s' < potential s₀ ran s := by
  cases hpc : s.pc with
  | readTop =>
    have hlook := hs
    simp only [sched, hpc] at hlook
    obtain ⟨tmp, htop, rfl⟩ := Option.map_eq_some_iff.mp hlook
    refine ⟨ran, turn_look h hpc htop, ?_⟩
    unfold potential
    rw [hpc]
    exact Nat.add_lt_add_left (Nat.lt_succ_self 5) _
  | pop tmp =>
    simp only [sched, hpc] at hs
    obtain ⟨top, htop, rfl⟩ := Option.map_eq_some_iff.mp hs
    exact turn_pop h hpc htop
  | running tmp called =>
    simp only [sched, hpc] at hs
    obtain rfl := Option.some.inj hs
    exact ⟨ran, turn_running h hpc⟩
  | _ =>
    refine ⟨ran, turn_between h hnowait ?_ ?_ ?_ hs⟩
    · rw [hpc]
      intro hread
      cases hread
    · rw [hpc]
      rfl
    · rw [hpc]
      rfl

/-! ## The others -/

theorem Turn.unblocked {s₀ s : TimerMgr} {ran : List Exec} (h : Turn s₀ ran s) :
    s.pc.blockedUntil = none := by
  have hplace := h.place
  cases hpc : s.pc with
  | blockedEmpty wakeAt =>
    rw [hpc] at hplace
    exact hplace.elim
  | blockedTop tmp wakeAt =>
    rw [hpc] at hplace
    exact hplace.elim
  | _ => rfl

/-- The others leave the schedule thread where it is, and change nothing that it looks at. -/
theorem turn_stay {s₀ s s' : TimerMgr} {ran : List Exec} (h : Turn s₀ ran s) (hq : Quiet s s')
    (hfresh : Fresh s') (hpc : s'.pc = s.pc) (hnow : s'.now = s.now)
    (hdelay : ∀ i, (s.producer i).Added → (s.timers i).mDelayTime = 0 →
      (s'.timers i).mDelayTime = 0) :
    Turn s₀ ran s' ∧ potential s₀ ran s' ≤ potential s₀ ran s := by
  constructor
  · apply turn_quiet h hq hfresh hnow hdelay
    have hplace := h.place
    rw [hpc]
    cases hat : s.pc with
    | testRun | testEmptyAgain | readTop =>
      rw [hat] at hplace
      show s'.mTimers.isEmpty = false
      rw [hq.mTimers]
      exact hplace
    | testRunAgain tmp | pop tmp =>
      rw [hat] at hplace
      have hadded : (s.producer tmp).Added := h.wf.added_of_held (by rw [hat]; rfl)
      exact ⟨hdelay tmp hadded hplace.1, fun hcallback =>
        hplace.2 ((hq.timers tmp hadded).mCallback hcallback)⟩
    | running tmp called =>
      rw [hat] at hplace
      have hadded := h.wf.executing tmp (by rw [hat]; rfl)
      have halike := hq.timers tmp hadded
      exact ⟨hdelay tmp hadded hplace.1, fun htype hcallback =>
        hplace.2 (halike.mTimerType ▸ htype) (halike.mCallback hcallback)⟩
    | _ =>
      rw [hat] at hplace
      exact hplace
  · unfold potential
    rw [hq.mTimers, hpc]

/-- **A step in a stretch without waiting.** The thread's own steps lower the potential, and no one
else's raise it: no timer is pushed, and neither a mark, a wake-up nor a cancel gives it more to do.
-/
theorem turn_step {s₀ s s' : TimerMgr} {ran : List Exec} {a : Action} (h : Turn s₀ ran s)
    (hstill : Still a) (hnowait : NoWait s a) (hstep : step s a = some s') :
    ∃ ran', Turn s₀ ran' s' ∧
      potential s₀ ran' s' + (if a = .sched then 1 else 0) ≤ potential s₀ ran s := by
  have hfresh := fresh_step h.fresh hstep
  have hdelay : ∀ i, (s.producer i).Added → (s.timers i).mDelayTime = 0 →
      (s'.timers i).mDelayTime = 0 := fun i hi hzero =>
    delay_step hstep hzero fun _ _ heq => absurd heq (ne_count_of_added h.fresh hi)
  -- what the others do
  have hstay : Quiet s s' → s'.pc = s.pc → s'.now = s.now → ∃ ran', Turn s₀ ran' s' ∧
      potential s₀ ran' s' + 0 ≤ potential s₀ ran s := fun hq hpc hnow =>
    ⟨ran, turn_stay h hq hfresh hpc hnow hdelay⟩
  have hunblocked := h.unblocked
  cases does_of_step hstep with
  | addTimer timeout | addTimerLoop delayseconds timeout =>
    exact hstay (quiet_construct h.fresh _) rfl rfl
  | mark i hi => exact hstay (quiet_mark hi) rfl rfl
  | notify i hi =>
    have hq := quiet_notify hi
    rw [notify, wake_of_free (by exact hunblocked)] at hq hstay ⊢
    exact hstay hq rfl rfl
  | cancel i => exact hstay (quiet_cancel s i) rfl rfl
  | close =>
    have hq := quiet_close s
    rw [close, wake_of_free (by exact hunblocked)] at hq hstay ⊢
    exact hstay hq rfl rfl
  | sched hs =>
    obtain ⟨ran', hturn, hlt⟩ := turn_sched h (hnowait rfl) hs
    exact ⟨ran', hturn, hlt⟩
  | timeoutEmpty wakeAt hpc | timeoutTop tmp wakeAt hpc =>
    rw [hpc] at hunblocked
    cases hunblocked
  | push | callbackAddTimer | callbackAddTimerLoop | tick => exact hstill.elim

/-- A whole stretch. Induction on its actions. -/
theorem turn_run {s₀ s t : TimerMgr} {ran : List Exec} {bs : List Action} (h : Turn s₀ ran s)
    (hstill : ∀ b ∈ bs, Still b) (hnowait : Meets step NoWait s bs)
    (hrun : run step s bs = some t) :
    ∃ ran', Turn s₀ ran' t ∧ bs.count .sched ≤ potential s₀ ran s := by
  induction bs generalizing s ran with
  | nil =>
    cases hrun
    exact ⟨ran, h, Nat.zero_le _⟩
  | cons b bs ih =>
    obtain ⟨s', hs, hrun'⟩ := run_cons.mp hrun
    obtain ⟨hthis, hrest⟩ := List.forall_mem_cons.mp hstill
    obtain ⟨ran₁, hturn, hle⟩ := turn_step h hthis hnowait.1 hs
    obtain ⟨ran', hend, hcount⟩ := ih hturn hrest (hnowait.2 s' hs) hrun'
    refine ⟨ran', hend, ?_⟩
    rw [List.count_cons]
    have hsame : (if (b == Action.sched) = true then 1 else 0) = if b = .sched then 1 else 0 := by
      simp
    omega

/-- From the beginning of a call of `timer_run` on, with the clock and the queue left alone and
without a wait, no more callbacks are called than there are timers in the queue, and the schedule
thread comes to a wait, or stops, in a bounded number of steps. -/
theorem turn_bounded {s t : TimerMgr} {bs : List Action} (hfresh : Fresh s) (hwf : Wf s)
    (hpaced : Paced s) (hpc : s.pc = .loop) (hstill : ∀ b ∈ bs, Still b)
    (hnowait : Meets step NoWait s bs) (hrun : run step s bs = some t) :
    ∃ ran, t.execs = s.execs ++ ran ∧ ran.length ≤ s.mTimers.size ∧
      bs.count .sched ≤ 22 * s.mTimers.size + 11 := by
  obtain ⟨ran, hturn, hcount⟩ := turn_run (turn_start hfresh hwf hpaced hpc) hstill hnowait hrun
  refine ⟨ran, hturn.execs, hturn.length_le, hcount.trans ?_⟩
  unfold potential
  rw [hpc]
  show 11 * (s.mTimers.size + (s.mTimers.size - 0)) + 11 ≤ _
  omega

end TimerMgr

end PssClient
