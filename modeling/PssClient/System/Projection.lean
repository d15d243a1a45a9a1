import PssClient.System.Clients

/-!
# One client among many

Whatever the other clients, the timers and the users do, a client of the system does what it could
do alone: its state is one that a run of `PssClient.Client.Machine` reaches, and the tasks that this
run has still to do are those that wait in the queues.

* `kept_step` — each step keeps the invariant: it is one step of the client that it is about, one of
  every client for the clock and for a round of `timer_check`, and none of the others.
* `projection` — the result.
-/

namespace PssClient

open Machine

namespace System

open Tms

variable {F : Type*} {fmt : IpacketFormat F}

section

variable {P : Transport → F → Prop} {n : Nat} {limit : Int}

/-! ## The steps -/

theorem Sound.next {id : Nat} {s : System F} {c c' : Client F} {a : Client.Action}
    (h : Sound fmt P id s c) (hs : Client.step fmt c a = some c') :
    ∃ transport pf as, P transport pf ∧
      run (Client.step fmt) (Client.start transport id s.timerCheckSeconds pf) as = some c' := by
  obtain ⟨transport, pf, as, hP, hrun⟩ := h.reached
  exact ⟨transport, pf, as ++ [a], hP, run_append.mpr ⟨c, hrun, run_singleton hs⟩⟩

theorem kept_clientStep {id : Nat} {a : Client.Action} {s s' : System F} (hn : 0 < n)
    (h : Kept fmt P n limit s) (ha : a.direct = true) (hs : clientStep fmt id a s = some s') :
    Kept fmt P n limit s' := by
  rw [clientStep] at hs
  split at hs
  case h_1 c hc =>
    obtain ⟨c', hstep, rfl⟩ := Option.map_eq_some_iff.mp hs
    have hsound := h.clients id c hc
    obtain ⟨new, hout⟩ := Client.outside_of_step ha hstep
    have hran : c'.ran ≤ c.posted.length := hout.ran ▸ hsound.ran
    have hrouted : Routed n s.tms
        (Function.update (leftOf s.clients) id (some (c.posted.drop c'.ran))) := by
      have hleft : leftOf s.clients id = some (c.posted.drop c'.ran) := by
        rw [leftOf, hc, hout.ran]
        rfl
      rw [← hleft, Function.update_eq_self]
      exact h.routed
    refine kept_advance hn h s.timeoutSessionList s.handed hout.posted hrouted hran
      (h.given_lt hc) ?_ (fun _ _ => ⟨rfl, rfl⟩) (fun e he => .inl he) h.round (List.Sublist.refl _)
    exact ⟨hsound.next hstep, hran.trans (by simp [hout.posted]),
      hout.seconds.trans hsound.seconds, hout.session.trans hsound.session,
      hsound.calls.trans hout.messages.symm⟩
  case h_2 =>
    split at hs
    · exact Option.some.inj hs ▸ h
    · cases hs

/-- **A client is started.** It gets the next id, so that nothing has been posted, listed or called
for it; the other clients are as they were. -/
theorem kept_startClient {s : System F} (h : Kept fmt P n limit s) (transport : Transport)
    (pf : F) (hP : P transport pf) : Kept fmt P n limit (startClient transport pf s) := by
  have hnew := h.given s.currClientId le_rfl
  obtain ⟨hposted, hran, hmessages, -⟩ :=
    Client.start_posted transport s.currClientId s.timerCheckSeconds pf
  have hfields : (Client.start transport s.currClientId s.timerCheckSeconds pf).timerCheckSeconds
        = s.timerCheckSeconds ∧
      (Client.start transport s.currClientId s.timerCheckSeconds pf).timeoutSession = none := by
    unfold Client.start Client.startConnect
    split <;> exact ⟨rfl, rfl⟩
  -- nothing in the list of the round and nothing that has been called has the new id
  have hlookup : s.timeoutSessionList.lookup s.currClientId = none :=
    List.lookup_eq_none_iff.mpr fun e he => bne_iff_ne.mpr fun heq => by
      have hsome := h.known e he
      rw [← heq, hnew] at hsome
      cases hsome
  have hevents : eventsOf s.currClientId s.handed = [] := by
    refine List.filterMap_eq_nil_iff.mpr fun e he => if_neg fun heq => ?_
    have hsome := (h.called e he).1
    rw [heq, hnew] at hsome
    cases hsome
  refine ⟨?_, fun id c hc => ?_, fun id hid => ?_, fun e he => ?_, h.round, h.listed, fun e he =>
    isSome_update s.clients s.currClientId _ (h.known e he), h.limit⟩
  · -- it has posted nothing
    have hnone : leftOf s.clients s.currClientId = none := by
      rw [leftOf, hnew]
      rfl
    have hstart := h.routed.start hnone
    show Routed n s.tms (leftOf (Function.update s.clients s.currClientId _))
    rw [leftOf_update, hposted, List.drop_nil]
    exact hstart
  · -- it begins with a run of no steps
    change Function.update s.clients s.currClientId _ id = some c at hc
    by_cases hid : id = s.currClientId
    · subst hid
      rw [Function.update_self] at hc
      obtain rfl := Option.some.inj hc
      exact ⟨⟨transport, pf, [], hP, rfl⟩, (hran.trans_le (Nat.zero_le _)), hfields.1,
        hfields.2.trans hlookup.symm, hevents.trans hmessages.symm⟩
    · rw [Function.update_of_ne hid] at hc
      have hsound := h.clients id c hc
      exact ⟨hsound.reached, hsound.ran, hsound.seconds, hsound.session, hsound.calls⟩
  · have hle : s.currClientId + 1 ≤ id := hid
    show Function.update s.clients s.currClientId _ id = none
    rw [Function.update_of_ne (Nat.ne_of_gt hle)]
    exact h.given id (Nat.le_of_succ_le hle)
  · obtain ⟨hsome, hby⟩ := h.called e he
    exact ⟨isSome_update s.clients s.currClientId _ hsome, hby⟩

/-- **A worker calls a task.** The task is the oldest that the client has posted and no worker has
called, since all of a client's tasks are with one worker and in order; to call it is a step of the
client. -/
theorem kept_task {logicId id : Nat} {task : Task} {tms : Tms LogicMessage} {s : System F}
    {c : Client F} (hn : 0 < n) (h : Kept fmt P n limit s)
    (hcall : s.tms.call logicId = some (.task id task, tms)) (hc : s.clients id = some c) :
    Kept fmt P n limit { advance id c (c.execute task) { s with tms := tms } with
      handed := s.handed ++ (Client.callsOf task).map fun e => (logicId, id, e) } := by
  have hsound := h.clients id c hc
  obtain ⟨hworker, tasks, hleft, hrouted⟩ := routed_call h.routed hcall
  obtain ⟨hunlisted, hposted, hran, hmessages⟩ := Client.execute_spec task c
  have hdrop : c.posted.drop c.ran = task :: tasks := by
    rw [leftOf, hc] at hleft
    exact Option.some.inj hleft
  -- the client has a task left, and this is the one in front
  have hlt : c.ran < c.posted.length := by
    by_contra hge
    rw [List.drop_eq_nil_of_le (Nat.not_lt.mp hge)] at hdrop
    cases hdrop
  have hget : c.posted[c.ran]? = some task := by
    rw [← List.head?_drop, hdrop]
    rfl
  have hstep : Client.step fmt c .runTask = some (c.execute task) := by
    show c.runTask = _
    rw [Client.runTask_eq, hget]
    rfl
  have hle : (c.execute task).ran ≤ c.posted.length := by
    rw [hran]
    exact hlt
  have hrest : c.posted.drop (c.execute task).ran = tasks := by
    rw [hran, ← List.drop_drop, hdrop]
    rfl
  have hnew : ∀ e ∈ (Client.callsOf task).map fun e => (logicId, id, e),
      e.1 = logicId ∧ e.2.1 = id := fun e he => by
    obtain ⟨e', -, rfl⟩ := List.mem_map.mp he
    exact ⟨rfl, rfl⟩
  -- the client, the others, and who has called `do_message`
  refine kept_advance hn h s.timeoutSessionList _ (hposted.trans (List.append_nil _).symm)
    (hrest.symm ▸ hrouted) hle (h.given_lt hc) ?_ (fun id' hid => ⟨rfl, ?_⟩) (fun e he => ?_)
    (fun hlist => ((h.round hlist).call hcall).2) (List.Sublist.refl _)
  · refine ⟨hsound.next hstep, by rwa [hposted], hunlisted.seconds.trans hsound.seconds,
      hunlisted.session.trans hsound.session, ?_⟩
    rw [eventsOf_append, eventsOf_map, hsound.calls, hmessages]
  · rw [eventsOf_append, eventsOf_of_ne (Ne.symm hid) fun e he => (hnew e he).2, List.append_nil]
  · refine (List.mem_append.mp he).imp_right fun he => ?_
    obtain ⟨hlogic, hid⟩ := hnew e he
    refine ⟨hid, .inl ?_⟩
    rw [hlogic, hid]
    exact hworker

/-! ## The round of `timer_check` -/

/-- **Every client takes a step** that posts nothing and calls nothing, such as the first half of a
round or the clock. The list of the round is then the one that the clients' own entries make up. -/
theorem kept_everyone {s : System F} {a : Client.Action}
    {f : Client F → Client F} {tms : Tms LogicMessage} {list : List (Nat × Int)}
    (h : Kept fmt P n limit s) (hrouted : Routed n tms (leftOf s.clients))
    (hround : list ≠ [] → Running tms 0)
    (hlisted : (list.map Prod.fst).Nodup) (hknown : ∀ e ∈ list, (s.clients e.1).isSome = true)
    (hf : ∀ id c, s.clients id = some c → Client.step fmt c a = some (f c) ∧
      (f c).posted = c.posted ∧ (f c).ran = c.ran ∧ (f c).messages = c.messages ∧
      (f c).timerCheckSeconds = c.timerCheckSeconds ∧ (f c).timeoutSession = list.lookup id) :
    Kept fmt P n limit { s with
      tms := tms
      timeoutSessionList := list
      clients := fun id => (s.clients id).map f } where
  routed := by
    have hleft : leftOf (fun id => (s.clients id).map f) = leftOf s.clients := by
      funext id
      rw [leftOf, leftOf, Option.map_map]
      cases hc : s.clients id with
      | none => rfl
      | some c =>
        obtain ⟨-, hposted, hran, -⟩ := hf id c hc
        rw [Option.map_some, Option.map_some, Function.comp_apply, hposted, hran]
    show Routed n tms (leftOf fun id => (s.clients id).map f)
    rw [hleft]
    exact hrouted
  clients := fun id c' hc' => by
    obtain ⟨c, hc, rfl⟩ := Option.map_eq_some_iff.mp hc'
    obtain ⟨hstep, hposted, hran, hmessages, hseconds, hsession⟩ := hf id c hc
    have hsound := h.clients id c hc
    exact ⟨hsound.next hstep, by rw [hposted, hran]; exact hsound.ran,
      hseconds.trans hsound.seconds, hsession, hsound.calls.trans hmessages.symm⟩
  given := fun id hid => by
    show (s.clients id).map f = none
    rw [h.given id hid]
    rfl
  called := fun e he => by
    obtain ⟨hsome, hby⟩ := h.called e he
    refine ⟨?_, hby⟩
    show ((s.clients e.2.1).map f).isSome = true
    rwa [Option.isSome_map]
  round := hround
  listed := hlisted
  known := fun e he => by
    show ((s.clients e.1).map f).isSome = true
    rw [Option.isSome_map]
    exact hknown e he
  limit := h.limit

theorem timeout_fst {s : System F} {id : Nat} {e : Nat × Int} (h : timeout s id = some e) :
    e.1 = id := by
  obtain ⟨c, -, h⟩ := Option.bind_eq_some_iff.mp h
  obtain ⟨-, heq⟩ := Option.ite_none_right_eq_some.mp h
  rw [← Option.some.inj heq]

theorem lookup_timeouts (s : System F) (count id : Nat) :
    ((List.range count).filterMap (timeout s)).lookup id
      = if id < count then (timeout s id).map Prod.snd else none := by
  induction count with
  | zero => rfl
  | succ count ih =>
    rw [List.range_succ, List.filterMap_append, List.lookup_append, ih]
    cases hlast : timeout s count with
    | none =>
      rw [List.filterMap_cons_none hlast, List.filterMap_nil, List.lookup_nil, Option.or_none]
      by_cases hid : id = count
      · rw [hid, if_neg (Nat.lt_irrefl count), if_pos (Nat.lt_succ_self count), hlast]
        rfl
      · exact if_congr (by omega) rfl rfl
    | some e =>
      rw [List.filterMap_cons_some hlast, List.filterMap_nil]
      obtain ⟨id', seconds⟩ := e
      obtain rfl : id' = count := timeout_fst hlast
      by_cases hid : id = id'
      · subst hid
        rw [if_neg (Nat.lt_irrefl id), if_pos (Nat.lt_succ_self id), hlast, Option.none_or,
          List.lookup_cons_self]
        rfl
      · rw [List.lookup_cons, beq_false_of_ne hid, List.lookup_nil]
        simp only [Option.or_none]
        exact if_congr (by omega) rfl rfl

theorem nodup_timeouts (s : System F) (count : Nat) :
    (((List.range count).filterMap (timeout s)).map Prod.fst).Nodup := by
  rw [List.map_filterMap]
  refine List.Nodup.filterMap (fun id id' k hid hid' => ?_) List.nodup_range
  obtain ⟨e, he, rfl⟩ := Option.map_eq_some_iff.mp hid
  obtain ⟨e', he', heq⟩ := Option.map_eq_some_iff.mp hid'
  rw [← timeout_fst he, ← timeout_fst he', heq]

/-- **A round begins.** Worker 0 calls the function that `timer_check` has posted; no other round is
under way, since that would keep worker 0. Every client takes the first half of a round, with the
list's entry for it. -/
theorem kept_timerSnapshot {logicId : Nat} {tms : Tms LogicMessage} {s : System F}
    (h : Kept fmt P n limit s) (hcall : s.tms.call logicId = some (.timerRound, tms)) :
    Kept fmt P n limit (timerSnapshot { s with tms := tms }) := by
  have hzero : logicId = 0 := by
    obtain ⟨-, hself, -⟩ := call_spec hcall
    exact h.routed.rounds logicId (hself ▸ List.mem_cons_self)
  -- a round that is not over keeps worker 0
  have hempty : s.timeoutSessionList = [] := by
    by_contra hlist
    exact ((h.round hlist).call hcall).1 hzero.symm
  have hother : LogicMessage.timerRound.Other := trivial
  refine kept_everyone (s := s) (a := .timerSnapshot) h (h.routed.callOther hother hcall)
    (fun _ => hzero ▸ running_of_call hcall) (nodup_timeouts _ _) (fun e he => ?_)
    fun id c hc => ?_
  · obtain ⟨id, -, he⟩ := List.mem_filterMap.mp he
    obtain ⟨c, hc, -⟩ := Option.bind_eq_some_iff.mp he
    rw [timeout_fst he]
    exact Option.isSome_iff_exists.mpr ⟨c, hc⟩
  · -- the entry of a client in the list is the one that it makes by itself
    have hsound := h.clients id c hc
    have hnone : c.timeoutSession = none := by
      rw [hsound.session, hempty]
      rfl
    have hlookup := lookup_timeouts { s with tms := tms } s.currClientId id
    rw [if_pos (h.given_lt hc)] at hlookup
    show c.timerSnapshot = _ ∧ _ ∧ _ ∧ _ ∧ _ ∧ _ = List.lookup id _
    rw [hlookup]
    show _ ∧ _ ∧ _ ∧ _ ∧ _ ∧ _ = ((s.clients id).bind _).map Prod.snd
    rw [hc, Option.bind_some, ← hsound.seconds]
    unfold Client.timerSnapshot
    rw [hnone, Option.isSome_none, if_neg Bool.false_ne_true]
    split
    · exact ⟨rfl, rfl, rfl, rfl, rfl, rfl⟩
    · exact ⟨rfl, rfl, rfl, rfl, rfl, hnone⟩

/-- **The round calls `do_check_timeout` of the next client.** For that client it is the second half
of a round, for the others nothing; the entry is taken off the list, which has none for the client
any more. -/
theorem kept_check {s s' : System F} (hn : 0 < n) (h : Kept fmt P n limit s)
    (hs : check s = some s') : Kept fmt P n limit s' := by
  rw [check] at hs
  split at hs
  case h_1 id seconds rest hlist =>
    obtain ⟨c, hc, rfl⟩ := Option.map_eq_some_iff.mp hs
    have hsound := h.clients id c hc
    have hsession : c.timeoutSession = some seconds := by
      rw [hsound.session, hlist, List.lookup_cons_self]
    -- the step of the client, and what it leaves alone
    have hstep : Client.step fmt c .timerCheck = some (c.notListed.doCheckTimeout seconds) := by
      show c.timeoutSession.map _ = _
      rw [hsession]
      rfl
    obtain ⟨hunlisted, hposted, hran, hmessages⟩ :=
      Client.doCheckTimeout_spec seconds c.notListed
    have hrouted : Routed n s.tms (Function.update (leftOf s.clients) id
        (some (c.posted.drop (c.notListed.doCheckTimeout seconds).ran))) := by
      have hleft : leftOf s.clients id
          = some (c.posted.drop (c.notListed.doCheckTimeout seconds).ran) := by
        rw [leftOf, hc, hran]
        rfl
      rw [← hleft, Function.update_eq_self]
      exact h.routed
    -- the ids of the list are different ones
    have hgone : rest.lookup id = none := by
      have hnodup := h.listed
      rw [hlist, List.map_cons] at hnodup
      refine List.lookup_eq_none_iff.mpr fun e he => bne_iff_ne.mpr fun heq => ?_
      exact (List.nodup_cons.mp hnodup).1 (List.mem_map.mpr ⟨e, he, heq.symm⟩)
    have hnew : ∀ e ∈ (if c.isConnect = true then [(0, id, Event.timeCheck seconds)] else []),
        e = (0, id, .timeCheck seconds) := fun e he => by
      split at he
      · exact List.mem_singleton.mp he
      · cases he
    -- the client, the others, and who has called `do_message`
    refine kept_advance hn h rest _ (hposted.trans (List.append_nil _).symm) hrouted
      (hran.trans_le hsound.ran) (h.given_lt hc) ?_ (fun id' hid => ⟨?_, ?_⟩) (fun e he => ?_)
      (fun _ => h.round (hlist ▸ List.cons_ne_nil _ _)) (hlist ▸ List.sublist_cons_self _ _)
    · refine ⟨hsound.next hstep, by rw [hposted, hran]; exact hsound.ran,
        hunlisted.seconds.trans hsound.seconds, hunlisted.session.trans hgone.symm, ?_⟩
      rw [hmessages, eventsOf_append, hsound.calls]
      show c.messages ++ _ = c.messages ++ _
      rw [List.append_right_inj]
      show _ = if c.isConnect = true then [Event.timeCheck seconds] else []
      split
      · exact eventsOf_map id 0 [.timeCheck seconds]
      · rfl
    · rw [hlist, List.lookup_cons, beq_false_of_ne hid]
    · have hclient : ∀ e ∈ (if c.isConnect = true then [(0, id, Event.timeCheck seconds)] else []),
          e.2.1 = id := fun e he => by rw [hnew e he]
      rw [eventsOf_append, eventsOf_of_ne (Ne.symm hid) hclient, List.append_nil]
    · refine (List.mem_append.mp he).imp_right fun he => ?_
      rw [hnew e he]
      exact ⟨rfl, .inr ⟨rfl, seconds, rfl⟩⟩
  case h_2 => cases hs

theorem kept_call {logicId : Nat} {s s' : System F} (hn : 0 < n) (h : Kept fmt P n limit s)
    (hs : call logicId s = some s') : Kept fmt P n limit s' := by
  obtain ⟨⟨msg, tms⟩, hcall, hs⟩ := Option.bind_eq_some_iff.mp hs
  have hround : s.timeoutSessionList ≠ [] → Running tms 0 :=
    fun hlist => ((h.round hlist).call hcall).2
  cases msg with
  | task id task =>
    obtain ⟨c, hc, rfl⟩ := Option.map_eq_some_iff.mp hs
    exact kept_task hn h hcall hc
  | timerCheck =>
    rw [← Option.some.inj hs]
    have hcalled := h.routed.callOther (show LogicMessage.timerCheck.Other from trivial) hcall
    exact h.sameClients
      (hcalled.addOther 0 (show LogicMessage.timerRound.Other from trivial) fun _ => rfl)
      fun hlist => (hround hlist).addMessage 0 _
  | timerRound => exact Option.some.inj hs ▸ kept_timerSnapshot h hcall
  | user func =>
    rw [← Option.some.inj hs]
    have hother : (LogicMessage.user func).Other := trivial
    exact h.sameClients (h.routed.callOther hother hcall) hround

/-- A step of the system. A step of a client posts its new tasks with its worker; a worker takes
what is in front, and the call that it makes is the client's own; the rest concerns no client. -/
theorem kept_step {s s' : System F} {a : Action F} (hn : 0 < n) (h : Kept fmt P n limit s)
    (hP : ∀ transport pf, a = .startClient transport pf → P transport pf)
    (hs : step fmt s a = some s') : Kept fmt P n limit s' := by
  cases a with
  | startClient transport pf =>
    exact Option.some.inj hs ▸ kept_startClient h transport pf (hP transport pf rfl)
  | client id a =>
    obtain ⟨ha, hs⟩ := Option.ite_none_right_eq_some.mp hs
    exact kept_clientStep hn h ha hs
  | addMessage logicId func =>
    rw [← Option.some.inj hs]
    exact h.sameClients
      (h.routed.addOther logicId (show (LogicMessage.user func).Other from trivial) nofun)
      fun hlist => (h.round hlist).addMessage logicId _
  | timerFires =>
    rw [← Option.some.inj hs]
    exact h.sameClients
      (h.routed.addOther 0 (show LogicMessage.timerCheck.Other from trivial) nofun)
      fun hlist => (h.round hlist).addMessage 0 _
  | pop logicId =>
    obtain ⟨tms, hpop, rfl⟩ := Option.map_eq_some_iff.mp hs
    obtain ⟨hsame, hpending⟩ := pop_spec hpop
    exact h.sameClients (h.routed.same hsame hpending) fun hlist => (h.round hlist).pop hpop
  | call logicId => exact kept_call hn h hs
  | check => exact kept_check hn h hs
  | finish logicId =>
    obtain ⟨hfree, hs⟩ := Option.ite_none_left_eq_some.mp hs
    obtain ⟨tms, hfinish, rfl⟩ := Option.map_eq_some_iff.mp hs
    obtain ⟨hsame, hpending⟩ := finish_spec hfinish
    exact h.sameClients (h.routed.same hsame hpending) fun hlist =>
      (h.round hlist).finish (fun hzero => hfree ⟨hzero.symm, hlist⟩) hfinish
  | tick d =>
    rw [← Option.some.inj hs]
    exact kept_everyone (s := s) (a := .tick d) h h.routed h.round h.listed h.known fun id c hc =>
      ⟨rfl, rfl, rfl, rfl, rfl, (h.clients id c hc).session⟩

end

theorem kept_run {threadCount : Nat} {limit : Int} {as : List (Action F)} {s : System F}
    (hcount : 0 < threadCount) (hrun : run (step fmt) (loaded threadCount limit) as = some s) :
    Kept fmt (fun transport pf => .startClient transport pf ∈ as) threadCount limit s := by
  refine invariant_of_meets (Kept fmt _ threadCount limit) (fun _ a _ h ha hs => ?_)
    (kept_loaded _ threadCount limit) (meets_of_forall (fun _ ha => ha) _) hrun
  exact kept_step hcount h (fun transport pf heq => heq ▸ ha) hs

/-- **One client among many.** After `load_module` with at least one thread, in any run of the
clients, the workers, the timers and the users: the state of each client is one that it reaches
alone, the tasks it has still to run wait in their order with the worker `connect_id` modulo the
number of threads and nowhere else, and what `do_message` has been called with for it is what it
calls alone, by that worker or, for a timeout, by worker 0. -/
theorem projection (fmt : IpacketFormat F) (threadCount : Nat) (timerCheckSeconds : Int)
    (as : List (Action F)) (s : System F) (hcount : 0 < threadCount)
    (hrun : run (step fmt) (loaded threadCount timerCheckSeconds) as = some s) (id : Nat)
    (c : Client F) (hc : s.clients id = some c) :
    (∃ transport pf bs, .startClient transport pf ∈ as ∧
      run (Client.step fmt) (Client.start transport id timerCheckSeconds pf) bs = some c) ∧
    tasksOf id (s.tms.pending (id % threadCount)) = c.posted.drop c.ran ∧
    (∀ logicId task, .task id task ∈ s.tms.pending logicId → logicId = id % threadCount) ∧
    eventsOf id s.handed = c.messages ∧
    (∀ h ∈ s.handed, h.2.1 = id → CalledBy threadCount h) := by
  have h := kept_run hcount hrun
  have hsound := h.clients id c hc
  have hleft : leftOf s.clients id = some (c.posted.drop c.ran) := by
    rw [leftOf, hc]
    rfl
  exact ⟨h.limit ▸ hsound.reached, h.routed.tasks id _ hleft,
    fun logicId task hmem => (h.routed.queued logicId id task hmem).1, hsound.calls,
    fun e he _ => (h.called e he).2⟩

/-- Client 1 is connected and silent; its worker is slower than the round, which finds client 2 as
well. -/
def twoClients : List (Action Unit) :=
  [.startClient .tcp (), .startClient .udp (), .client 1 (.complete 0 .connected),
    .client 1 (.handle 0), .tick 10000000000, .timerFires, .pop 0, .call 0, .finish 0, .pop 0,
    .call 0, .check, .pop 1, .call 1, .check, .finish 0, .finish 1]

theorem projection_twoClients :
    ∃ s c, run (step Delivery.pieceFormat) (loaded 2 5) twoClients = some s ∧
      s.clients 1 = some c ∧ s.handed = [(0, 1, .timeCheck 10), (1, 1, .connect)] ∧
      (∃ transport pf bs, .startClient transport pf ∈ twoClients ∧
        run (Client.step Delivery.pieceFormat) (Client.start transport 1 5 pf) bs = some c) ∧
      eventsOf 1 s.handed = c.messages := by
  have hstate : ∃ s c, run (step Delivery.pieceFormat) (loaded 2 5) twoClients = some s ∧
      s.clients 1 = some c ∧ s.handed = [(0, 1, .timeCheck 10), (1, 1, .connect)] :=
    ⟨_, _, rfl, rfl, rfl⟩
  obtain ⟨s, c, hrun, hc, hhanded⟩ := hstate
  obtain ⟨hreached, -, -, hcalls, -⟩ :=
    projection Delivery.pieceFormat 2 5 twoClients s (by decide) hrun 1 c hc
  exact ⟨s, c, hrun, hc, hhanded, hreached, hcalls⟩

end System

end PssClient
