import PssClient.Tms.LiveTimers

/-!
# The table of the ids

The steps of the schedule thread and of `Close_Timer` keep the invariant of `LiveTimers`, one lemma
for each place of these threads that touches the table, a timer or the log. With nothing in
progress the invariant is the claim about the table.

* `tracked_step` — one step that is in turn.
* `exact_of_inTurn` — the result. `fired_before_inserted` has a run without the condition.
-/

namespace PssClient

open Machine

namespace TimerService

/-- The schedule thread puts the message of a timer. -/
theorem tracked_put {s s' : TimerService} {d : Nat} {call : Call} (h : Tracked s)
    (hs : step s .schedule = some s') (hpc : s.schedule = .putting d)
    (hcall : s.calls d = some call) (heq : s' = put d call s) : Tracked s' := by
  subst heq
  have hnew : ∀ logicId c, .put logicId c ∈ (put d call s).trace →
      .put logicId c ∈ s.trace ∨ c = d := by
    intro logicId c hc
    rcases List.mem_append.mp hc with hin | hnew
    · exact .inl hin
    · cases List.mem_singleton.mp hnew
      exact .inr rfl
  have hput : .put call.logicId d ∈ (put d call s).trace :=
    List.mem_append_right _ (List.mem_singleton.mpr rfl)
  -- a one-shot timer goes on to erase its id
  have herasing : call.kind.Once → (put d call s).schedule = .erasing d := by
    intro honce
    unfold put
    cases hkind : call.kind with
    | once => rfl
    | _ => rw [hkind] at honce; exact honce.elim
  refine { identified_step h.toIdentified hs with
    typed := typed_step h hs, puts := fun logicId c hc => ?_, erasing := fun c hc => ?_,
    fired := fun c call' logicId hcall' honce hc => ?_,
    kept := fun c call' hcall' hkind hstage => ?_, gone := fun c hc => ?_,
    found := h.found, alive := fun c call' hcall' hc => ?_ }
  · rcases hnew logicId c hc with hin | rfl
    · exact h.puts logicId c hin
    · exact ⟨call, hcall⟩
  · have hwhich : c = d ∧ call.kind.Once := by
      simp only [put] at hc
      split at hc
      case h_1 millisecond hkind =>
        cases hc
        rw [hkind]
        exact ⟨rfl, trivial⟩
      case h_2 => cases hc
    exact ⟨⟨call.logicId, hwhich.1 ▸ hput⟩, call, hwhich.1 ▸ hcall, hwhich.2⟩
  · by_cases hcd : c = d
    · subst hcd
      obtain rfl := Option.some.inj (hcall.symm.trans hcall')
      exact .inl (herasing honce)
    · rcases hnew logicId c hc with hin | heq
      · rcases h.fired c call' logicId hcall' honce hin with hold | hgone
        · rw [hpc] at hold
          cases hold
        · exact .inr hgone
      · exact absurd heq hcd
  · refine (h.kept c call' hcall' hkind hstage).imp_right (.imp (List.mem_append_left _) ?_)
    rintro ⟨honce, logicId, hin⟩
    exact ⟨honce, logicId, List.mem_append_left _ hin⟩
  · refine h.gone c ((List.mem_append.mp hc).elim id fun hnew => ?_)
    cases List.mem_singleton.mp hnew
  · obtain ⟨timer, htimer, hwhy⟩ := h.alive c call' hcall' hc
    refine ⟨timer, htimer, hwhy.imp_right (.imp_left ?_)⟩
    rintro ⟨hold, call'', hcall'', honce⟩
    rw [hpc] at hold
    rcases hold with heq | hbad
    · cases heq
      obtain rfl := Option.some.inj (hcall.symm.trans hcall'')
      exact ⟨.inr (herasing honce), call, hcall, honce⟩
    · cases hbad

/-- The callback of a one-shot timer erases its id; the call has put it in. -/
theorem tracked_erasing {s s' : TimerService} {d : Nat} {call : Call} (h : Tracked s)
    (hs : step s .schedule = some s') (hpc : s.schedule = .erasing d)
    (hcall : s.calls d = some call) (hinserted : call.stage ≠ .added) (hidle : s.closer = .idle)
    (heq : s' = { s with
      mMapTimeridList := Function.update s.mMapTimeridList call.timerIndex none
      schedule := .leaving d }) : Tracked s' := by
  subst heq
  obtain ⟨⟨logicId, hput⟩, call₁, hcall₁, honce⟩ := h.erasing d hpc
  obtain rfl := Option.some.inj (hcall.symm.trans hcall₁)
  -- its id is in the map because the call has put it there, and the call has returned
  have hreturned : call.stage = .returned call.timerIndex true := by
    obtain ⟨timer, htimer⟩ := h.executing d (by rw [hpc]; rfl)
    obtain ⟨call₂, hcall₂, hmade, hpos, -⟩ := h.typed d timer htimer
    obtain rfl := Option.some.inj (hcall.symm.trans hcall₂)
    rcases h.ids d call hcall with ⟨hminus, -⟩ | ⟨-, -, -, hstage | hstage | hstage⟩
    · omega
    · exact absurd hstage hmade
    · exact absurd hstage hinserted
    · exact hstage
  -- erasing an id does not put another one in
  have hnone : ∀ timerId, s.mMapTimeridList timerId = none →
      Function.update s.mMapTimeridList call.timerIndex none timerId = none := by
    intro timerId hold
    by_cases hid : timerId = call.timerIndex
    · rw [hid, Function.update_self]
    · rw [Function.update_of_ne hid, hold]
  refine { identified_step h.toIdentified hs with
    typed := typed_step h hs, puts := h.puts, erasing := nofun,
    fired := fun c call' logicId' hcall' honce' hc => .inr ?_,
    kept := fun c call' hcall' hkind hstage => ?_, gone := fun c hc => ?_,
    found := fun timerId returners c hc => ?_, alive := fun c call' hcall' hc => ?_ }
  · by_cases hcd : c = d
    · subst hcd
      obtain rfl := Option.some.inj (hcall.symm.trans hcall')
      exact ⟨hreturned, Function.update_self ..⟩
    · rcases h.fired c call' logicId' hcall' honce' hc with hold | ⟨hstage, hold⟩
      · rw [hpc] at hold
        cases hold
        exact absurd rfl hcd
      · exact ⟨hstage, hnone _ hold⟩
  · by_cases hcd : c = d
    · subst hcd
      obtain rfl := Option.some.inj (hcall.symm.trans hcall')
      exact .inr (.inr ⟨honce, logicId, hput⟩)
    · refine (h.kept c call' hcall' hkind hstage).imp_left fun hmap => ?_
      have hid : call'.timerIndex ≠ call.timerIndex := by
        intro hsame
        have hpos := ((h.ids c call' hcall').listed hstage).2
        exact hcd (h.distinct c d call' call hcall' hcall hpos hsame.symm).symm
      exact (Function.update_of_ne hid ..).trans hmap
  · obtain ⟨call', hcall', hstage, hold⟩ := h.gone c hc
    exact ⟨call', hcall', hstage, hnone _ hold⟩
  · have htarget : s.closer.target = some (timerId, returners, c) := hc
    rw [hidle] at htarget
    cases htarget
  · have hcd : c ≠ d := by
      rintro rfl
      obtain rfl := Option.some.inj (hcall.symm.trans hcall')
      rcases hc with hadded | hlisted
      · exact hinserted hadded
      · have hself : Function.update s.mMapTimeridList call.timerIndex none call.timerIndex
            = some c := hlisted
        rw [Function.update_self] at hself
        cases hself
    have hold : s.Alive c := by
      refine h.alive c call' hcall' (hc.imp_right fun hlisted => ?_)
      exact map_erase _ _ _ hlisted
    obtain ⟨timer, htimer, hcallback | ⟨hfiring, -⟩ | hcloser⟩ := hold
    · exact ⟨timer, htimer, .inl hcallback⟩
    · rw [hpc] at hfiring
      rcases hfiring with hbad | heq
      · cases hbad
      · cases heq
        exact absurd rfl hcd
    · exact ⟨timer, htimer, .inr (.inr hcloser)⟩

/-- `Close_Timer` erases the id of the timer that it has found. -/
theorem tracked_erase {s s' : TimerService} {timerId : Int} {returners : List Nat} {d : Nat}
    (h : Tracked s) (hs : step s .close = some s')
    (hcloser : s.closer = .erase timerId returners d)
    (heq : s' = { s with
      mMapTimeridList := Function.update s.mMapTimeridList timerId none
      closer := .idle
      trace := s.trace ++ [.closed d] }) : Tracked s' := by
  subst heq
  have hmap : s.mMapTimeridList timerId = some d :=
    h.found timerId returners d (by rw [hcloser]; rfl)
  obtain ⟨call, hcall, rfl, hstage⟩ := h.listed timerId d hmap
  have hnone : ∀ id, s.mMapTimeridList id = none →
      Function.update s.mMapTimeridList call.timerIndex none id = none := by
    intro id hold
    by_cases hid : id = call.timerIndex
    · rw [hid, Function.update_self]
    · rw [Function.update_of_ne hid, hold]
  have hself : Function.update s.mMapTimeridList call.timerIndex none call.timerIndex = none :=
    Function.update_self ..
  have hputs : ∀ logicId c, .put logicId c ∈ s.trace ++ [.closed d] → .put logicId c ∈ s.trace :=
    fun logicId c hc => (List.mem_append.mp hc).elim id fun hnew => by
      cases List.mem_singleton.mp hnew
  refine { identified_step h.toIdentified hs with
    typed := typed_step h hs, puts := fun logicId c hc => h.puts logicId c (hputs logicId c hc),
    erasing := fun c hc => ?_, fired := fun c call' logicId hcall' honce hc => ?_,
    kept := fun c call' hcall' hkind hstage' => ?_, gone := fun c hc => ?_,
    found := nofun, alive := fun c call' hcall' hc => ?_ }
  · obtain ⟨⟨logicId, hin⟩, hrest⟩ := h.erasing c hc
    exact ⟨⟨logicId, List.mem_append_left _ hin⟩, hrest⟩
  · apply (h.fired c call' logicId hcall' honce (hputs logicId c hc)).imp_right
    exact fun hgone => ⟨hgone.1, hnone _ hgone.2⟩
  · by_cases hcd : c = d
    · exact .inr (.inl (hcd ▸ List.mem_append_right _ (List.mem_singleton.mpr rfl)))
    · rcases h.kept c call' hcall' hkind hstage' with hlisted | hclosed | ⟨honce, logicId, hin⟩
      · have hid : call'.timerIndex ≠ call.timerIndex := by
          intro hsame
          rw [hsame, hmap] at hlisted
          exact hcd (Option.some.inj hlisted).symm
        exact .inl ((Function.update_of_ne hid ..).trans hlisted)
      · exact .inr (.inl (List.mem_append_left _ hclosed))
      · exact .inr (.inr ⟨honce, logicId, List.mem_append_left _ hin⟩)
  · rcases List.mem_append.mp hc with hold | hnew
    · obtain ⟨call', hcall', hstage', hgone⟩ := h.gone c hold
      exact ⟨call', hcall', hstage', hnone _ hgone⟩
    · cases List.mem_singleton.mp hnew
      exact ⟨call, hcall, hstage, hself⟩
  · have hcd : c ≠ d := by
      rintro rfl
      obtain rfl := Option.some.inj (hcall.symm.trans hcall')
      rcases hc with hadded | hlisted
      · rw [hstage] at hadded
        cases hadded
      · rw [show Function.update s.mMapTimeridList call.timerIndex none call.timerIndex = some c
          from hlisted] at hself
        cases hself
    obtain ⟨timer, htimer, hcallback | hfiring | ⟨timerId', returners', heq⟩⟩ :=
      h.alive c call' hcall' (hc.imp_right (map_erase _ _ _))
    · exact ⟨timer, htimer, .inl hcallback⟩
    · exact ⟨timer, htimer, .inr (.inl hfiring)⟩
    · rw [hcloser] at heq
      cases heq
      exact absurd rfl hcd

/-- The schedule thread goes to a place from one where it has no callback in its hands. -/
theorem Alive.schedule {s : TimerService} {pc : SchedulePc} {trace : List TimerEvent} {c : Nat}
    (h : s.Alive c) (hputting : s.schedule ≠ .putting c) (herasing : s.schedule ≠ .erasing c) :
    Alive { s with schedule := pc, trace := trace } c := by
  obtain ⟨timer, htimer, hcallback | ⟨hpc, -⟩ | hcloser⟩ := h
  · exact ⟨timer, htimer, .inl hcallback⟩
  · exact (hpc.elim hputting herasing).elim
  · exact ⟨timer, htimer, .inr (.inr hcloser)⟩

/-- Such a step puts no message. -/
theorem tracked_moves {s : TimerService} {a : Action} {pc : SchedulePc} {trace : List TimerEvent}
    (h : Tracked s) (hs : step s a = some { s with schedule := pc, trace := trace })
    (hputting : ∀ c, s.schedule ≠ .putting c) (herasing : ∀ c, s.schedule ≠ .erasing c)
    (hpc : ∀ c, pc ≠ .erasing c)
    (hput : ∀ logicId c, .put logicId c ∈ trace ↔ .put logicId c ∈ s.trace)
    (hclosed : ∀ c, .closed c ∈ trace ↔ .closed c ∈ s.trace) :
    Tracked { s with schedule := pc, trace := trace } :=
  tracked_of_frame h hs rfl rfl hput hclosed (fun c => iff_of_false (hpc c) (herasing c)) h.found
    fun c hc => hc.schedule (hputting c) (herasing c)

/-- **`operator()` of a one-shot timer begins.** A callback that is there is called, and the flag of
`call_once` is set with it: from here on the timer is one that fires, and no longer one that has a
callback. -/
theorem tracked_enterOnce {s : TimerService} {d : Nat} {timer : Timer} {pc : SchedulePc}
    (h : Tracked s) (hpc : s.schedule = .entered d) (htimer : s.timers d = some timer)
    (htype : timer.mTimerType = .once)
    (hplace : pc = if timer.calls then .putting d else .leaving d)
    (hs : step s .schedule
      = some { setTimer d (some timer.beforeCallback) s with schedule := pc }) :
    Tracked { setTimer d (some timer.beforeCallback) s with schedule := pc } := by
  have hputting : ∀ c, s.schedule ≠ .putting c := by simp [hpc]
  have herasing : ∀ c, s.schedule ≠ .erasing c := by simp [hpc]
  refine tracked_of_frame h hs rfl rfl (fun _ _ => .rfl) (fun _ => .rfl)
    (fun c => iff_of_false (fun hc => ?_) (herasing c)) h.found fun c hc => ?_
  · have hbad : pc = .erasing c := hc
    rw [hplace] at hbad
    split at hbad <;> cases hbad
  · obtain ⟨timer', htimer', hcallback | ⟨hfiring, -⟩ | hcloser⟩ := hc
    · by_cases hcd : c = d
      · subst hcd
        obtain rfl := Option.some.inj (htimer'.symm.trans htimer)
        -- a callback that is there has not been called
        have hflag : timer'.mExecuteOnceFlag = false := by
          by_contra hset
          rw [h.flag c timer' htimer (by simpa using hset)] at hcallback
          cases hcallback
        have hcalls : timer'.calls = true := by
          rw [Timer.calls, htype]
          simp [hflag, hcallback]
        obtain ⟨call, hcall, -, -, hiff⟩ := h.typed c timer' htimer
        refine ⟨_, Function.update_self .., .inr (.inl ⟨.inl ?_, call, hcall, hiff.mp htype⟩)⟩
        exact hplace.trans (if_pos hcalls)
      · exact ⟨timer', (Function.update_of_ne hcd ..).trans htimer', .inl hcallback⟩
    · exact (hfiring.elim (hputting c) (herasing c)).elim
    · by_cases hcd : c = d
      · subst hcd
        exact ⟨_, Function.update_self .., .inr (.inr hcloser)⟩
      · exact ⟨timer', (Function.update_of_ne hcd ..).trans htimer', .inr (.inr hcloser)⟩

/-- An execution is over. -/
theorem tracked_leave {s : TimerService} {d : Nat} {timer : Timer} (h : Tracked s)
    (hpc : s.schedule = .leaving d) (htimer : s.timers d = some timer)
    (hs : step s .schedule
      = some { setTimer d (some (timer.afterCallback s.now)) s with schedule := .idle }) :
    Tracked { setTimer d (some (timer.afterCallback s.now)) s with schedule := .idle } := by
  refine tracked_of_frame h hs rfl rfl (fun _ _ => .rfl) (fun _ => .rfl)
    (fun c => iff_of_false (by simp) (by simp [hpc])) h.found fun c hc => ?_
  obtain ⟨timer', htimer', hwhy⟩ := hc
  have hthere : ∃ timer₁, (setTimer d (some (timer.afterCallback s.now)) s).timers c
      = some timer₁ ∧ timer₁.mCallback = timer'.mCallback := by
    by_cases hcd : c = d
    · subst hcd
      obtain rfl := Option.some.inj (htimer'.symm.trans htimer)
      exact ⟨_, Function.update_self .., Timer.afterCallback_mCallback ..⟩
    · exact ⟨timer', (Function.update_of_ne hcd ..).trans htimer', rfl⟩
  obtain ⟨timer₁, htimer₁, hsame⟩ := hthere
  refine ⟨timer₁, htimer₁, ?_⟩
  rcases hwhy with hcallback | ⟨hfiring, -⟩ | hcloser
  · exact .inl (hsame.trans hcallback)
  · rw [hpc] at hfiring
    rcases hfiring with hbad | hbad <;> cases hbad
  · exact .inr (.inr hcloser)

theorem tracked_goes {s s' : TimerService} (h : Tracked s) (hfirst : InsertedFirst s .schedule)
    (hs : step s .schedule = some s') (hgoes : Goes s s') : Tracked s' := by
  cases hgoes with
  | enterOnce d timer hpc htimer htype hcalls =>
    exact tracked_enterOnce h hpc htimer htype (if_pos hcalls).symm hs
  | skipOnce d timer hpc htimer htype hcalls =>
    exact tracked_enterOnce h hpc htimer htype (if_neg (by simp [hcalls])).symm hs
  | enterLoop d timer hpc | skipLoop d timer hpc | call d timer hpc =>
    exact tracked_moves h hs (by simp [hpc]) (by simp [hpc]) (by simp) (fun _ _ => .rfl)
      fun _ => .rfl
  | callEmpty d timer hpc =>
    exact tracked_moves h hs (by simp [hpc]) (by simp [hpc]) (by simp) (by simp) (by simp)
  | put d call hpc hcall => exact tracked_put h hs hpc hcall rfl
  | erase d call hpc hidle hcall =>
    simp only [InsertedFirst, hpc, hcall] at hfirst
    exact tracked_erasing h hs hpc hcall (fun hadded => hfirst (congrArg some hadded)) hidle rfl
  | leave d timer hpc htimer => exact tracked_leave h hpc htimer hs

/-- The closing thread goes to a place from one where it has not come to erase. -/
theorem Alive.closer {s : TimerService} {pc : ClosePc} {c : Nat} (h : s.Alive c)
    (herase : ∀ timerId returners, s.closer ≠ .erase timerId returners c) :
    Alive { s with closer := pc } c := by
  obtain ⟨timer, htimer, hcallback | hfiring | ⟨timerId, returners, heq⟩⟩ := h
  · exact ⟨timer, htimer, .inl hcallback⟩
  · exact ⟨timer, htimer, .inr (.inl hfiring)⟩
  · exact absurd heq (herase timerId returners)

/-- What `Close_Timer` has found has not gone away. -/
theorem Tracked.target_timer {s : TimerService} (h : Tracked s) {timerId : Int}
    {returners : List Nat} {c : Nat} (hc : s.closer.target = some (timerId, returners, c)) :
    s.timers c ≠ none := by
  obtain ⟨timer, htimer, -⟩ := h.alive_of_map (h.found timerId returners c hc)
  rw [htimer]
  nofun

/-- The closing thread goes on with what it has found, and has not come to erase it. -/
theorem tracked_found {s : TimerService} {a : Action} {pc : ClosePc} {trace : List TimerEvent}
    (h : Tracked s) (hs : step s a = some { s with closer := pc, trace := trace })
    (herase : ∀ timerId returners c, s.closer ≠ .erase timerId returners c)
    (htarget : ∀ timerId returners c, pc.target = some (timerId, returners, c) →
      s.mMapTimeridList timerId = some c)
    (htrace : trace = s.trace) : Tracked { s with closer := pc, trace := trace } := by
  subst htrace
  exact tracked_of_frame h hs rfl rfl (fun _ _ => .rfl) (fun _ => .rfl) (fun _ => .rfl) htarget
    fun c hc => hc.closer fun timerId returners => herase timerId returners c

theorem tracked_cancel {s : TimerService} {timerId : Int} {returners : List Nat} {d : Nat}
    {timer : Timer} (h : Tracked s) (hpc : s.closer = .cancel timerId returners d)
    (hs : step s .close = some { setTimer d (some timer.cancel) s with
      closer := .erase timerId returners d
      trace := s.trace ++ [.cancelled timerId returners d] }) :
    Tracked { setTimer d (some timer.cancel) s with
      closer := .erase timerId returners d
      trace := s.trace ++ [.cancelled timerId returners d] } := by
  refine tracked_of_frame h hs rfl rfl (fun _ _ => by simp) (fun _ => by simp) (fun _ => .rfl)
    (fun timerId' returners' c hc => ?_) fun c hc => ?_
  · cases hc
    exact h.found timerId returners d (by rw [hpc]; rfl)
  · obtain ⟨timer', htimer', hwhy⟩ := hc
    by_cases hcd : c = d
    · subst hcd
      exact ⟨_, Function.update_self .., .inr (.inr ⟨timerId, returners, rfl⟩)⟩
    · refine ⟨timer', (Function.update_of_ne hcd ..).trans htimer', ?_⟩
      rcases hwhy with hcallback | hfiring | ⟨timerId', returners', heq⟩
      · exact .inl hcallback
      · exact .inr (.inl hfiring)
      · rw [hpc] at heq
        cases heq

theorem tracked_closes {s s' : TimerService} (h : Tracked s) (hs : step s .close = some s')
    (hcloses : Closes s s') : Tracked s' := by
  have hfound : ∀ {timerId returners d}, s.closer.target = some (timerId, returners, d) →
      s.mMapTimeridList timerId = some d := fun htarget => h.found _ _ _ htarget
  cases hcloses with
  | alive timerId returners d timer hpc | lock timerId returners d timer hpc =>
    refine tracked_found h hs (by simp [hpc]) (fun timerId' returners' c hc => ?_) rfl
    cases hc
    exact hfound (by rw [hpc]; rfl)
  | expired timerId returners d hpc hnone | lockNull timerId returners d hpc hnone =>
    exact absurd hnone (h.target_timer (by rw [hpc]; rfl))
  | cancel timerId returners d timer hpc => exact tracked_cancel h hpc hs
  | erase timerId returners d hpc => exact tracked_erase h hs hpc rfl

/-- A timer that is let go has lost its callback, and is in nobody's hands. -/
theorem tracked_destroy {s : TimerService} {d : Nat} (h : Tracked s)
    (hgo : LetGo s (.destroy d))
    (hfree : ¬ (s.schedule.executing = some d ∨ s.closer.holds = some d))
    (hs : step s (.destroy d) = some (setTimer d none s)) : Tracked (setTimer d none s) := by
  refine tracked_of_frame h hs rfl rfl (fun _ _ => .rfl) (fun _ => .rfl) (fun _ => .rfl) h.found
    fun c hc => ?_
  obtain ⟨timer, htimer, hwhy⟩ := hc
  have hcd : c ≠ d := by
    rintro rfl
    rcases hwhy with hcallback | ⟨hputting | herasing, -⟩ | ⟨timerId, returners, herase⟩
    · simp only [LetGo, htimer, Option.all_some, hcallback] at hgo
      cases hgo
    · exact hfree (.inl (by rw [hputting]; rfl))
    · exact hfree (.inl (by rw [herasing]; rfl))
    · exact hfree (.inr (by rw [herase]; rfl))
  exact ⟨timer, (Function.update_of_ne hcd ..).trans htimer, hwhy⟩

theorem tracked_step {s s' : TimerService} {a : Action} (h : Tracked s)
    (hturn : InTurn s a) (hs : step s a = some s') : Tracked s' := by
  cases does_of_step hs with
  | message =>
    exact tracked_of_begin h hs rfl rfl rfl rfl rfl (.inr ⟨rfl, _, rfl⟩) (by simp) fun _ _ => rfl
  | noWorker | once | loop | noOnce | noLoop =>
    exact tracked_of_begin h hs rfl rfl rfl rfl rfl (.inl rfl) (by simp) (by simp)
  | push => exact tracked_push h hs
  | insert => exact tracked_insert h hs
  | execute d hidle =>
    exact tracked_moves h hs (by simp [hidle]) (by simp [hidle]) (by simp) (fun _ _ => .rfl)
      fun _ => .rfl
  | schedule hgoes => exact tracked_goes h hturn.insertedFirst hs hgoes
  | destroy d hfree => exact tracked_destroy h hturn.letGo hfree hs
  | found timerId c hidle hmap =>
    refine tracked_found h hs (by simp [hidle]) (fun timerId' returners' d hd => ?_) rfl
    cases hd
    exact hmap
  | notFound => exact h
  | close hcloses => exact tracked_closes h hs hcloses
  | tick d =>
    exact tracked_of_frame h hs rfl rfl (fun _ _ => .rfl) (fun _ => .rfl) (fun _ => .rfl) h.found
      fun c hc => hc.congr rfl rfl rfl fun call hcall => ⟨call, hcall, rfl⟩

/-! ## The table -/

/-- Nothing is in progress, so what is in the table is live, and what is live is in it. -/
theorem Tracked.exact {s : TimerService} (h : Tracked s) : Exact s where
  keys hquiet timerId := by
    constructor
    · intro hsome
      obtain ⟨c, hmap⟩ := Option.isSome_iff_exists.mp hsome
      obtain ⟨call, hcall, rfl, hstage⟩ := h.listed timerId c hmap
      have hkind := ((h.ids c call hcall).listed hstage).1
      refine ⟨c, call, hcall, hkind, hstage, ?_, fun hclosed => ?_⟩
      · rintro ⟨honce, logicId, hput⟩
        rcases h.fired c call logicId hcall honce hput with herasing | ⟨-, hnone⟩
        · rw [hquiet.schedule] at herasing
          cases herasing
        · rw [hmap] at hnone
          cases hnone
      · obtain ⟨call', hcall', -, hnone⟩ := h.gone c hclosed
        obtain rfl := Option.some.inj (hcall.symm.trans hcall')
        rw [hmap] at hnone
        cases hnone
    · rintro ⟨c, call, hcall, hkind, hstage, hnot, hopen⟩
      obtain ⟨rfl, -⟩ := (h.ids c call hcall).accepted hstage hkind
      rcases h.kept c call hcall hkind hstage with hmap | hclosed | hfired
      · rw [hmap]
        rfl
      · exact absurd hclosed hopen
      · exact absurd hfired hnot
  closed c hclosed := by
    obtain ⟨call, hcall, -, hnone⟩ := h.gone c hclosed
    refine ⟨call, hcall, hnone, fun hidle => ?_⟩
    rw [closeTimerId, if_pos hidle, hnone]

/-- **The table has exactly the ids of the live timers**, in a run whose callbacks erase only ids
that have been put in, and whose manager drops only timers that have nothing more to call. -/
theorem exact_of_inTurn {mapLogicList : Nat → Bool} {as : List Action} {s : TimerService}
    (hturn : Meets step InTurn (initial mapLogicList) as)
    (hrun : run step (initial mapLogicList) as = some s) : Exact s :=
  (invariant_of_meets Tracked (fun _ _ _ => tracked_step) (tracked_initial mapLogicList)
    hturn hrun).exact

/-- A one-shot timer fires and is let go, a loop timer is closed. -/
def firedAndClosed : List Action :=
  [.addTimer 0 1000, .push 0, .addTimerLoop 0 1 1000, .insert 0, .push 1, .execute 0, .insert 1,
    .schedule, .schedule, .schedule, .schedule, .destroy 0, .closeTimerId 1, .close, .close, .close,
    .close]

theorem exact_firedAndClosed :
    ∃ s, run step (initial fun _ => true) firedAndClosed = some s ∧
      s.trace = [.put 0 0, .cancelled 1 [1] 1, .closed 1] ∧ Exact s := by
  refine ⟨_, rfl, rfl, ?_⟩
  exact @exact_of_inTurn (fun _ => true) firedAndClosed _ (by decide +kernel) rfl

/-- After one call, in a quiet state, an id whose timer has fired should not be in the table. -/
theorem not_exact_of_fired {s : TimerService} (h : WellFormed s) {call : Call}
    (hcount : s.count = 1) (hcall : s.calls 0 = some call) (honce : call.kind.Once)
    {value : Int} (hstage : call.stage = .returned value true)
    (hput : ∃ logicId, .put logicId 0 ∈ s.trace) (hschedule : s.schedule = .idle)
    (hcloser : s.closer = .idle) (timerId : Int)
    (hmap : (s.mMapTimeridList timerId).isSome = true) : ¬ Exact s := by
  intro hexact
  have honly : ∀ c call', s.calls c = some call' → call' = call := by
    intro c call' hcall'
    obtain rfl : c = 0 := by
      by_contra hc
      rw [h.fresh c (by omega)] at hcall'
      cases hcall'
    exact Option.some.inj (hcall'.symm.trans hcall)
  have hquiet : s.Quiescent := ⟨hschedule, hcloser, fun c call' hcall' =>
    ⟨value, true, honly c call' hcall' ▸ hstage⟩⟩
  obtain ⟨c, call', hcall', -, -, hnot, -⟩ := (hexact.keys hquiet timerId).mp hmap
  obtain rfl : c = 0 := by
    by_contra hc
    rw [h.fresh c (by omega)] at hcall'
    cases hcall'
  exact hnot ⟨honly 0 call' hcall' ▸ honce, hput⟩

theorem wellFormed_of_run {s s' : TimerService} {as : List Action} (h : WellFormed s)
    (hrun : run step s as = some s') : WellFormed s' :=
  invariant_of_run WellFormed (fun _ _ _ => wellFormed_step) h hrun

/-- A one-shot timer fires before its id is put in. -/
def firedFirst : List Action :=
  [.addTimer 0 1, .push 0, .execute 0, .schedule, .schedule, .schedule, .schedule, .destroy 0,
    .insert 0]

/-- The id stays in the table. `Close_Timer` returns true for it, and leaves it there as well. -/
theorem fired_before_inserted :
    ∃ s, run step (initial fun _ => true) firedFirst = some s ∧ ¬ Exact s ∧
      ∃ s', run step s [.closeTimerId 0, .close] = some s' ∧ s'.trace = [.put 0 0, .closed 0] ∧
        s'.mMapTimeridList 0 = some 0 ∧ ¬ Exact s' := by
  obtain ⟨s, hrun, hcount, hcall, htrace, hschedule, hcloser, hmap, htimer⟩ :
      ∃ s, run step (initial fun _ => true) firedFirst = some s ∧ s.count = 1 ∧
        s.calls 0 = some ⟨0, .once 1, 0, .returned 0 true⟩ ∧ s.trace = [.put 0 0] ∧
        s.schedule = .idle ∧ s.closer = .idle ∧ s.mMapTimeridList 0 = some 0 ∧
        s.timers 0 = none := ⟨_, rfl, rfl, rfl, rfl, rfl, rfl, rfl, rfl⟩
  have hwf : WellFormed s := wellFormed_of_run (wellFormed_initial _) hrun
  have hclose : run step s [.closeTimerId 0, .close]
      = some { s with trace := s.trace ++ [.closed 0] } := by
    simp [run, step, closeTimerId, close, hcloser, hmap, htimer]
  refine ⟨s, hrun, ?_, _, hclose, by rw [htrace]; rfl, hmap, ?_⟩
  · exact not_exact_of_fired hwf hcount hcall trivial rfl ⟨0, htrace ▸ List.mem_cons_self⟩
      hschedule hcloser 0 (by rw [hmap]; rfl)
  · exact not_exact_of_fired (wellFormed_of_run hwf hclose) hcount hcall trivial rfl
      ⟨0, List.mem_append_left _ (htrace ▸ List.mem_cons_self)⟩ hschedule hcloser 0
      (by dsimp only; rw [hmap]; rfl)

end TimerService

end PssClient
