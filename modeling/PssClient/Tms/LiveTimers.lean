import PssClient.Tms.Ids

/-!
# The live timers and the table of their ids

`m_mapTimeridList` should hold the ids of the timers that are still to come: a call puts its id in,
the callback of a one-shot timer takes it out, and so does `Close_Timer`. But the call puts it in
when its timer is in the manager already, and `Close_Timer` does not take it out when the timer has
gone.

* `Exact` — the result for a state: with no call and no execution in progress the keys are the ids
  of the live timers, and what has been closed is not there.
* `InsertedFirst`, `LetGo` — the two conditions on a step: a callback comes to the erasing of its
  id after the call that made the timer has put it in, and the manager destroys a timer only when
  its callback is gone. `InTurn` is both.
* `Tracked` — the invariant; `Alive` is a timer that is not let go.
* `tracked_of_begin`, `tracked_of_setCall` — the steps of a call of `AddMessage` or
  `AddMessage_loop` keep it. The threads' steps and the result are in `Index`.
-/

namespace PssClient

open Machine

namespace TimerService

/-- The timer has been accepted under this id, has not fired if it is a one-shot timer, and has not
been closed. -/
def Live (s : TimerService) (timerId : Int) (c : Nat) : Prop :=
  ∃ call, s.calls c = some call ∧ call.kind ≠ .message ∧ call.stage = .returned timerId true ∧
    ¬ (call.kind.Once ∧ ∃ logicId, .put logicId c ∈ s.trace) ∧ .closed c ∉ s.trace

/-- No call and no execution is in progress. -/
structure Quiescent (s : TimerService) : Prop where
  schedule : s.schedule = .idle
  closer : s.closer = .idle
  calls : ∀ c call, s.calls c = some call → ∃ value accepted, call.stage = .returned value accepted

/-- The table has the ids of the live timers. An id that has been closed is not in it, and closing
it again changes nothing: it returns false. -/
structure Exact (s : TimerService) : Prop where
  keys : s.Quiescent → ∀ timerId,
    (s.mMapTimeridList timerId).isSome = true ↔ ∃ c, s.Live timerId c
  closed : ∀ c, .closed c ∈ s.trace → ∃ call, s.calls c = some call ∧
    s.mMapTimeridList call.timerIndex = none ∧
      (s.closer = .idle → closeTimerId call.timerIndex s = some s)

/-- A callback does not come to the erasing of its id before the call has put it in. -/
def InsertedFirst (s : TimerService) : Action → Prop
  | .schedule =>
    match s.schedule with
    | .erasing c => (s.calls c).map Call.stage ≠ some .added
    | _ => True
  | _ => True

instance (s : TimerService) (a : Action) : Decidable (InsertedFirst s a) := by
  unfold InsertedFirst
  split
  · split <;> infer_instance
  · infer_instance

/-- The manager destroys a timer only when its callback is gone: the timer is a one-shot timer that
has been executed, or it has been cancelled. `timer_run` does not always keep to it, as it pops
whatever is on top after the execution. -/
def LetGo (s : TimerService) : Action → Prop
  | .destroy c => (s.timers c).all (fun timer => !timer.mCallback) = true
  | _ => True

instance (s : TimerService) (a : Action) : Decidable (LetGo s a) := by
  unfold LetGo
  split <;> infer_instance

/-- What the threads have to keep to: an id is put in before it is erased, and no timer is dropped
that is still to come. -/
structure InTurn (s : TimerService) (a : Action) : Prop where
  insertedFirst : InsertedFirst s a
  letGo : LetGo s a

instance (s : TimerService) (a : Action) : Decidable (InTurn s a) :=
  decidable_of_iff (InsertedFirst s a ∧ LetGo s a) ⟨fun h => ⟨h.1, h.2⟩, fun h => ⟨h.1, h.2⟩⟩

/-! ## The invariant -/

/-- The callback of a one-shot timer is in the schedule thread's hands. -/
def Firing (s : TimerService) (c : Nat) : Prop :=
  (s.schedule = .putting c ∨ s.schedule = .erasing c) ∧
    ∃ call, s.calls c = some call ∧ call.kind.Once

/-- The timer is there, and is not let go before its id has been erased. -/
def Alive (s : TimerService) (c : Nat) : Prop :=
  ∃ timer, s.timers c = some timer ∧ (timer.mCallback = true ∨ s.Firing c ∨
    ∃ timerId returners, s.closer = .erase timerId returners c)

/-- The invariant behind the exactness of the table. Each timer belongs to a call. When a call has
returned its id, the id is in the table unless it has been closed or, for a one-shot timer, the
callback has put its message; and a timer whose id is in the table, or on its way into it, is alive
in the manager. -/
structure Tracked (s : TimerService) : Prop extends Identified s where
  typed : ∀ c timer, s.timers c = some timer → ∃ call, s.calls c = some call ∧
    call.stage ≠ .allocated ∧ 0 ≤ call.timerIndex ∧ (timer.mTimerType = .once ↔ call.kind.Once)
  -- what has been put belongs to a call, and an erasing callback has put its message
  puts : ∀ logicId c, .put logicId c ∈ s.trace → ∃ call, s.calls c = some call
  erasing : ∀ c, s.schedule = .erasing c →
    (∃ logicId, .put logicId c ∈ s.trace) ∧ ∃ call, s.calls c = some call ∧ call.kind.Once
  fired : ∀ c call logicId, s.calls c = some call → call.kind.Once → .put logicId c ∈ s.trace →
    s.schedule = .erasing c ∨ call.stage = .returned call.timerIndex true ∧
      s.mMapTimeridList call.timerIndex = none
  kept : ∀ c call, s.calls c = some call → call.kind ≠ .message →
    call.stage = .returned call.timerIndex true →
      s.mMapTimeridList call.timerIndex = some c ∨ .closed c ∈ s.trace ∨
        call.kind.Once ∧ ∃ logicId, .put logicId c ∈ s.trace
  gone : ∀ c, .closed c ∈ s.trace → ∃ call, s.calls c = some call ∧
    call.stage = .returned call.timerIndex true ∧ s.mMapTimeridList call.timerIndex = none
  found : ∀ timerId returners c, s.closer.target = some (timerId, returners, c) →
    s.mMapTimeridList timerId = some c
  alive : ∀ c call, s.calls c = some call →
    call.stage = .added ∨ s.mMapTimeridList call.timerIndex = some c → s.Alive c

theorem tracked_initial (mapLogicList : Nat → Bool) : Tracked (initial mapLogicList) where
  toIdentified := identified_initial mapLogicList
  typed _ _ htimer := by cases htimer
  puts _ _ hput := absurd hput List.not_mem_nil
  erasing := nofun
  fired _ _ _ hcall := by cases hcall
  kept _ _ hcall := by cases hcall
  gone _ hclosed := absurd hclosed List.not_mem_nil
  found := nofun
  alive _ _ hcall := by cases hcall

theorem typed_step {s s' : TimerService} {a : Action} (h : Tracked s) (hs : step s a = some s')
    (c : Nat) (timer' : Timer) (htimer' : s'.timers c = some timer') :
    ∃ call, s'.calls c = some call ∧ call.stage ≠ .allocated ∧ 0 ≤ call.timerIndex ∧
      (timer'.mTimerType = .once ↔ call.kind.Once) := by
  rcases timer_of_step hs htimer' with ⟨timer, htimer, htype⟩ | ⟨call, hcall, hstage, hnew, hmade⟩
  · obtain ⟨call, hcall, hstage, hpos, hiff⟩ := h.typed c timer htimer
    obtain ⟨call', hcall', hgoes⟩ := (effect_of_step (h.fresh _ le_rfl) hs).calls c call hcall
    refine ⟨call', hcall', ?_, hgoes.timerIndex ▸ hpos, by rw [htype, hiff, hgoes.kind]⟩
    rcases hgoes with rfl | ⟨-, rfl⟩ | ⟨-, rfl⟩
    · exact hstage
    · nofun
    · nofun
  · refine ⟨_, hnew, nofun, ?_, Kind.timer_type hmade⟩
    rcases h.ids c call hcall with ⟨-, value, accepted, hreturned, -⟩ | ⟨hpos, -⟩
    · rw [hstage] at hreturned
      cases hreturned
    · exact hpos

/-- A timer that is alive: the map of a listed timer, by its id. -/
theorem Tracked.alive_of_map {s : TimerService} (h : Tracked s) {timerId : Int} {c : Nat}
    (hmap : s.mMapTimeridList timerId = some c) : s.Alive c := by
  obtain ⟨call, hcall, rfl, -⟩ := h.listed timerId c hmap
  exact h.alive c call hcall (.inr hmap)

/-- A timer stays alive when the threads stay where they are. -/
theorem Alive.congr {s s' : TimerService} {c : Nat} (h : s.Alive c)
    (htimers : s'.timers c = s.timers c) (hschedule : s'.schedule = s.schedule)
    (hcloser : s'.closer = s.closer)
    (hcalls : ∀ call, s.calls c = some call → ∃ call', s'.calls c = some call' ∧
      call'.kind = call.kind) : s'.Alive c := by
  obtain ⟨timer, htimer, hwhy⟩ := h
  refine ⟨timer, htimers.trans htimer, ?_⟩
  rw [hcloser]
  refine hwhy.imp_right (.imp_left ?_)
  rintro ⟨hpc, call, hcall, honce⟩
  obtain ⟨call', hcall', hkind⟩ := hcalls call hcall
  exact ⟨hschedule ▸ hpc, call', hcall', hkind ▸ honce⟩

/-- A step that leaves the calls and the table. -/
theorem tracked_of_frame {s s' : TimerService} {a : Action} (h : Tracked s)
    (hs : step s a = some s') (hcalls : s'.calls = s.calls)
    (hmap : s'.mMapTimeridList = s.mMapTimeridList)
    (hput : ∀ logicId c, .put logicId c ∈ s'.trace ↔ .put logicId c ∈ s.trace)
    (hclosed : ∀ c, .closed c ∈ s'.trace ↔ .closed c ∈ s.trace)
    (herasing : ∀ c, s'.schedule = .erasing c ↔ s.schedule = .erasing c)
    (hfound : ∀ timerId returners c, s'.closer.target = some (timerId, returners, c) →
      s.mMapTimeridList timerId = some c)
    (halive : ∀ c, s.Alive c → s'.Alive c) : Tracked s' where
  toIdentified := identified_step h.toIdentified hs
  typed := typed_step h hs
  puts logicId c hc := hcalls ▸ h.puts logicId c ((hput logicId c).mp hc)
  erasing c hc := by
    obtain ⟨⟨logicId, hlogic⟩, hcall⟩ := h.erasing c ((herasing c).mp hc)
    exact ⟨⟨logicId, (hput logicId c).mpr hlogic⟩, hcalls ▸ hcall⟩
  fired c call logicId hcall honce hc := by
    rw [herasing, hmap]
    exact h.fired c call logicId (hcalls ▸ hcall) honce ((hput logicId c).mp hc)
  kept c call hcall hkind hstage := by
    rw [hmap, hclosed]
    refine (h.kept c call (hcalls ▸ hcall) hkind hstage).imp_right (.imp_right ?_)
    rintro ⟨honce, logicId, hc⟩
    exact ⟨honce, logicId, (hput logicId c).mpr hc⟩
  gone c hc := by
    rw [hcalls, hmap]
    exact h.gone c ((hclosed c).mp hc)
  found timerId returners c hc := hmap ▸ hfound timerId returners c hc
  alive c call hcall hc := halive c (h.alive c call (hcalls ▸ hcall) (hmap ▸ hc))

/-- **A call begins.** It gets the next number, which no call had before, so that nothing is known
of it yet and what is known of the others stays; a message without a delay is also put with its
worker, and is the only thing that is. -/
theorem tracked_of_begin {s s' : TimerService} {a : Action} (h : Tracked s)
    (hs : step s a = some s') {new : Call} (hcalls : s'.calls = (begin new s).calls)
    (htimers : s'.timers = s.timers) (hmap : s'.mMapTimeridList = s.mMapTimeridList)
    (hschedule : s'.schedule = s.schedule) (hcloser : s'.closer = s.closer)
    (htrace : s'.trace = s.trace ∨ new.kind = .message ∧
      ∃ logicId, s'.trace = s.trace ++ [.put logicId s.count])
    (hadded : new.stage ≠ .added)
    (haccepted : ∀ value, new.stage = .returned value true → new.kind = .message) :
    Tracked s' := by
  -- the number is new, and the other calls are where they were
  have hfresh : s.calls s.count = none := h.fresh _ le_rfl
  have hself : s'.calls s.count = some new := by
    rw [hcalls]
    exact Function.update_self ..
  have hother : ∀ c, c ≠ s.count → s'.calls c = s.calls c := by
    intro c hc
    rw [hcalls]
    exact Function.update_of_ne hc ..
  have hold : ∀ c call, s.calls c = some call → s'.calls c = some call := by
    intro c call hcall
    have hc : c ≠ s.count := by
      rintro rfl
      rw [hfresh] at hcall
      cases hcall
    rw [hother c hc, hcall]
  -- what has been put is what had been, and perhaps the message of this call
  have hputs : ∀ logicId c, .put logicId c ∈ s'.trace →
      .put logicId c ∈ s.trace ∨ c = s.count ∧ new.kind = .message := by
    intro logicId c hc
    rcases htrace with heq | ⟨hkind, logicId', heq⟩
    · exact .inl (heq ▸ hc)
    · rw [heq] at hc
      rcases List.mem_append.mp hc with hin | hnew
      · exact .inl hin
      · cases List.mem_singleton.mp hnew
        exact .inr ⟨rfl, hkind⟩
  have hmono : ∀ event, event ∈ s.trace → event ∈ s'.trace := by
    intro event hevent
    rcases htrace with heq | ⟨-, logicId', heq⟩
    · exact heq ▸ hevent
    · rw [heq]
      exact List.mem_append_left _ hevent
  refine { identified_step h.toIdentified hs with
    typed := typed_step h hs, puts := fun logicId c hc => ?_, erasing := fun c hc => ?_,
    fired := fun c call logicId hcall honce hc => ?_,
    kept := fun c call hcall hkind hstage => ?_, gone := fun c hc => ?_,
    found := fun timerId returners c hc => ?_, alive := fun c call hcall hc => ?_ }
  · -- `puts`: the call whose message it is
    rcases hputs logicId c hc with hin | ⟨rfl, -⟩
    · obtain ⟨call, hcall⟩ := h.puts logicId c hin
      exact ⟨call, hold c call hcall⟩
    · exact ⟨new, hself⟩
  · -- `erasing`
    obtain ⟨⟨logicId, hlogic⟩, call, hcall, honce⟩ := h.erasing c (hschedule ▸ hc)
    exact ⟨⟨logicId, hmono _ hlogic⟩, call, hold c call hcall, honce⟩
  · -- `fired`: the new call is no timer that has been put
    rw [hschedule, hmap]
    by_cases hcount : c = s.count
    · subst hcount
      rw [hself] at hcall
      obtain rfl := Option.some.inj hcall
      rcases hputs logicId _ hc with hin | ⟨-, hkind⟩
      · obtain ⟨call, hcall⟩ := h.puts logicId _ hin
        rw [hfresh] at hcall
        cases hcall
      · rw [hkind] at honce
        exact honce.elim
    · rw [hother c hcount] at hcall
      rcases hputs logicId c hc with hin | ⟨heq, -⟩
      · exact h.fired c call logicId hcall honce hin
      · exact absurd heq hcount
  · -- `kept`: nor has it been accepted as one
    rw [hmap]
    by_cases hcount : c = s.count
    · subst hcount
      rw [hself] at hcall
      obtain rfl := Option.some.inj hcall
      exact absurd (haccepted _ hstage) hkind
    · rw [hother c hcount] at hcall
      refine (h.kept c call hcall hkind hstage).imp_right (.imp (hmono _) ?_)
      rintro ⟨honce, logicId, hlogic⟩
      exact ⟨honce, logicId, hmono _ hlogic⟩
  · -- `gone`
    have hin : .closed c ∈ s.trace := by
      rcases htrace with heq | ⟨-, logicId', heq⟩
      · exact heq ▸ hc
      · rw [heq] at hc
        exact (List.mem_append.mp hc).elim id fun hnew => by cases List.mem_singleton.mp hnew
    obtain ⟨call, hcall, hrest⟩ := h.gone c hin
    exact ⟨call, hold c call hcall, hmap ▸ hrest⟩
  · -- `found`
    rw [hmap]
    exact h.found timerId returners c (hcloser ▸ hc)
  · -- `alive`: the new call is in the map only if an old one has its id
    rw [hmap] at hc
    have halive : s.Alive c := by
      by_cases hcount : c = s.count
      · subst hcount
        rw [hself] at hcall
        obtain rfl := Option.some.inj hcall
        rcases hc with hstage | hlisted
        · exact absurd hstage hadded
        · exact h.alive_of_map hlisted
      · rw [hother c hcount] at hcall
        exact h.alive c call hcall hc
    exact halive.congr (by rw [htimers]) hschedule hcloser fun call' hcall' =>
      ⟨call', hold c call' hcall', rfl⟩

theorem setCall_self (c : Nat) (call : Call) (s : TimerService) :
    (setCall c call s).calls c = some call := Function.update_self ..

theorem setCall_of_ne {c d : Nat} (h : c ≠ d) (call : Call) (s : TimerService) :
    (setCall d call s).calls c = s.calls c := Function.update_of_ne h ..

/-- **A call goes on.** Nothing happens but that the call comes to its next stage, with the changes
of the map and of its own timer that go with it: what is known of the other calls, and of what has
happened so far, stays. -/
theorem tracked_of_setCall {s s' : TimerService} {a : Action} (h : Tracked s)
    (hs : step s a = some s') {d : Nat} {old : Call} (new : Call) (hold : s.calls d = some old)
    (hrunning : ∀ value accepted, old.stage ≠ .returned value accepted)
    (hkind : new.kind = old.kind) (hcalls : s'.calls = (setCall d new s).calls)
    (htrace : s'.trace = s.trace) (hschedule : s'.schedule = s.schedule)
    (hcloser : s'.closer = s.closer)
    (hmap : ∀ c call, s.calls c = some call → c ≠ d →
      s'.mMapTimeridList call.timerIndex = s.mMapTimeridList call.timerIndex)
    (htimers : ∀ c, c ≠ d → s'.timers c = s.timers c)
    (hfound : ∀ timerId returners c, s.closer.target = some (timerId, returners, c) →
      s'.mMapTimeridList timerId = s.mMapTimeridList timerId)
    (hkept : new.stage = .returned new.timerIndex true →
      s'.mMapTimeridList new.timerIndex = some d)
    (halive : s'.Alive d) : Tracked s' := by
  -- every call is still there, and of the same kind
  have hself : s'.calls d = some new := by rw [hcalls, setCall_self]
  have hother : ∀ c, c ≠ d → s'.calls c = s.calls c := by
    intro c hc
    rw [hcalls, setCall_of_ne hc]
  have hkeep : ∀ c call, s.calls c = some call →
      ∃ call', s'.calls c = some call' ∧ call'.kind = call.kind := by
    intro c call hcall
    by_cases hcd : c = d
    · subst hcd
      obtain rfl : call = old := Option.some.inj (hcall.symm.trans hold)
      exact ⟨new, hself, hkind⟩
    · exact ⟨call, (hother c hcd).trans hcall, rfl⟩
  refine { identified_step h.toIdentified hs with
    typed := typed_step h hs, puts := fun logicId c hc => ?_, erasing := fun c hc => ?_,
    fired := fun c call logicId hcall honce hc => ?_,
    kept := fun c call hcall hkind hstage => ?_, gone := fun c hc => ?_,
    found := fun timerId returners c hc => ?_, alive := fun c call hcall hc => ?_ }
  · -- `puts`
    obtain ⟨call, hcall⟩ := h.puts logicId c (htrace ▸ hc)
    obtain ⟨call', hcall', -⟩ := hkeep c call hcall
    exact ⟨call', hcall'⟩
  · -- `erasing`
    obtain ⟨hlogic, call, hcall, honce⟩ := h.erasing c (hschedule ▸ hc)
    obtain ⟨call', hcall', hsame⟩ := hkeep c call hcall
    exact ⟨htrace ▸ hlogic, call', hcall', hsame ▸ honce⟩
  · -- `fired`: one that has fired has returned, or its callback is not over
    rw [htrace] at hc
    rw [hschedule]
    by_cases hcd : c = d
    · subst hcd
      obtain rfl := Option.some.inj (hself.symm.trans hcall)
      rcases h.fired c old logicId hold (hkind ▸ honce) hc with hpc | ⟨hreturned, -⟩
      · exact .inl hpc
      · exact absurd hreturned (hrunning _ _)
    · have hcall' : s.calls c = some call := (hother c hcd).symm.trans hcall
      refine (h.fired c call logicId hcall' honce hc).imp_right fun hgone => ⟨hgone.1, ?_⟩
      exact (hmap c call hcall' hcd).trans hgone.2
  · -- `kept`
    rw [htrace]
    by_cases hcd : c = d
    · subst hcd
      obtain rfl := Option.some.inj (hself.symm.trans hcall)
      exact .inl (hkept hstage)
    · have hcall' : s.calls c = some call := (hother c hcd).symm.trans hcall
      exact (h.kept c call hcall' hkind hstage).imp_left (hmap c call hcall' hcd).trans
  · -- `gone`: one that is closed has returned, and is not the one that goes on
    obtain ⟨call, hcall, hstage, hnone⟩ := h.gone c (htrace ▸ hc)
    have hcd : c ≠ d := by
      rintro rfl
      obtain rfl := Option.some.inj (hcall.symm.trans hold)
      exact hrunning _ _ hstage
    exact ⟨call, (hother c hcd).trans hcall, hstage, (hmap c call hcall hcd).trans hnone⟩
  · -- `found`
    rw [hcloser] at hc
    rw [hfound timerId returners c hc]
    exact h.found timerId returners c hc
  · -- `alive`
    by_cases hcd : c = d
    · exact hcd ▸ halive
    · have hcall' : s.calls c = some call := (hother c hcd).symm.trans hcall
      have hold : s.Alive c :=
        h.alive c call hcall' (hc.imp_right (hmap c call hcall' hcd).symm.trans)
      exact hold.congr (htimers c hcd) hschedule hcloser (hkeep c)

/-- The timer of a call is pushed: it has its callback. -/
theorem tracked_push {s s' : TimerService} {d : Nat} (h : Tracked s)
    (hs : step s (.push d) = some s') : Tracked s' := by
  cases does_of_step hs with
  | push _ old hold hstage =>
    have hrunning : ∀ value accepted, old.stage ≠ .returned value accepted := by
      rw [hstage]
      nofun
    have hkind : old.kind ≠ .message := ((h.ids d old hold).running hrunning).2
    refine tracked_of_setCall h hs { old with stage := .added } hold hrunning rfl rfl rfl rfl rfl
      (fun _ _ _ _ => rfl) (fun c hc => Function.update_of_ne hc ..) (fun _ _ _ _ => rfl) nofun ?_
    cases hkind' : old.kind with
    | message => exact absurd hkind' hkind
    | once => exact ⟨_, Function.update_self .., .inl rfl⟩
    | loop => exact ⟨_, Function.update_self .., .inl rfl⟩

/-- Its id is put in. If the callback has fired before, it has still to erase it. -/
theorem tracked_insert {s s' : TimerService} {d : Nat} (h : Tracked s)
    (hs : step s (.insert d) = some s') : Tracked s' := by
  cases does_of_step hs with
  | insert _ old hold hstage hidle =>
    have hrunning : ∀ value accepted, old.stage ≠ .returned value accepted := by
      rw [hstage]
      nofun
    have hpos : 0 ≤ old.timerIndex := ((h.ids d old hold).running hrunning).1
    refine tracked_of_setCall h hs { old with stage := .returned old.timerIndex true } hold hrunning
      rfl rfl rfl rfl rfl (fun c call hcall hcd => ?_) (fun _ _ => rfl)
      (fun timerId returners c hc => ?_) (fun _ => Function.update_self ..) ?_
    -- the ids of the others are other keys
    · refine Function.update_of_ne (fun heq => hcd ?_) ..
      exact h.distinct d c old call hold hcall hpos heq
    · rw [hidle] at hc
      cases hc
    · refine (h.alive d old hold (.inl hstage)).congr rfl rfl rfl fun call hcall => ?_
      obtain rfl := Option.some.inj (hcall.symm.trans hold)
      exact ⟨_, setCall_self .., rfl⟩

end TimerService

end PssClient
