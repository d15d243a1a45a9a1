import PssClient.Client.Closed

/-!
# When a closed client stays closed

A client that is calm when `close_client` returns stays closed. Here it is the other way round: each
of the things that `Calm` excludes leads to a connect, to the flag or to a connect event, when the
threads go on in the right order.

* `Stays` — the client stays closed from a state on. `Stays.tasks`, `Stays.no_reconnect`,
  `Stays.session`, `Stays.io`, `Stays.no_connected` and `Stays.no_outstanding`: what that says about
  the state, one thread after another.
* `Wf` — in every run a call that has still to erase the entry is `close_client`.
* `stays_closed_iff` — the result. `reopened_after_close` is a connect that had succeeded before,
  and `reconnected_after_close` the handler of a failed read that was past its test.
-/

namespace PssClient.Threads

open Machine

variable {F : Type*} {fmt : IpacketFormat F}

/-! ## From the runs to the state -/

/-- From here on no connect is started, the flag stays false and no connect event is posted,
whatever anyone does. It speaks of all the runs to come, and so is kept by every step. -/
def Stays (fmt : IpacketFormat F) (attempts connects : Nat) (s : Threads F) : Prop :=
  ∀ as t, run (step fmt) s as = some t → t.client.attempts = attempts ∧
    t.client.isConnect = false ∧ t.client.connectsPosted = connects

theorem Stays.after {attempts connects : Nat} {s s' : Threads F} {a : Action}
    (h : Stays fmt attempts connects s) (hs : step fmt s a = some s') :
    Stays fmt attempts connects s' :=
  fun as t hrun => h (a :: as) t (run_cons.mpr ⟨s', hs, hrun⟩)

/-- A thread that runs tasks or calls of `do_check_timeout` can always go on. -/
def Runs (fmt : IpacketFormat F) (thread : Thread) (left : Threads F → List TaskAccess) : Prop :=
  ∀ (s : Threads F) a rest, left s = a :: rest → ∃ s', step fmt s (.go thread) = some s' ∧
    s'.client = a.effect s.client ∧ left s' = a.next s.client ++ rest

theorem runs_worker : Runs fmt .worker Threads.worker := by
  intro s a rest hleft
  refine ⟨{ s with client := a.effect s.client, worker := a.next s.client ++ rest }, ?_, rfl, rfl⟩
  simp only [Threads.step, go, hleft]

theorem runs_round : Runs fmt .round Threads.round := by
  intro s a rest hleft
  refine ⟨{ s with client := a.effect s.client, round := a.next s.client ++ rest }, ?_, rfl, rfl⟩
  simp only [Threads.step, go, hleft]

variable {attempts connects : Nat}

/-- A thread that has passed the test of `is_connect_`, or is at it, starts a connect. -/
theorem Stays.no_connect {thread : Thread} {left : Threads F → List TaskAccess}
    (hruns : Runs fmt thread left) {s : Threads F} (h : Stays fmt attempts connects s)
    {rest : List TaskAccess} : left s ≠ .connect :: rest ∧ left s ≠ .testConnect :: rest := by
  have hconnect : ∀ {s : Threads F}, Stays fmt attempts connects s → left s ≠ .connect :: rest := by
    intro s h hleft
    obtain ⟨s', hs, hclient, -⟩ := hruns s _ _ hleft
    obtain ⟨hbefore, -⟩ := h [] s rfl
    obtain ⟨hafter, -⟩ := h _ s' (run_singleton hs)
    have hmore : s'.client.attempts = s.client.attempts + 1 := by
      rw [hclient]
      show (Client.startConnect s.client).attempts = _
      unfold Client.startConnect
      split <;> rfl
    omega
  refine ⟨hconnect h, fun hleft => ?_⟩
  obtain ⟨s', hs, -, hleft'⟩ := hruns s _ _ hleft
  obtain ⟨-, hflag, -⟩ := h [] s rfl
  have hnext : TaskAccess.testConnect.next s.client = [.connect] := if_pos hflag
  rw [hnext] at hleft'
  exact hconnect (h.after hs) hleft'

/-- The workers have nothing left that connects the client. Induction on what they have left. -/
theorem Stays.tasks {thread : Thread} {left : Threads F → List TaskAccess}
    (hruns : Runs fmt thread left) {s : Threads F} (h : Stays fmt attempts connects s) :
    ∀ a ∈ left s, a.stirs = false := by
  generalize hleft : left s = accesses
  induction accesses generalizing s with
  | nil => exact fun a ha => absurd ha List.not_mem_nil
  | cons a rest ih =>
    obtain ⟨s', hs, -, hleft'⟩ := hruns s a rest hleft
    cases a with
    | message e => exact List.forall_mem_cons.mpr ⟨rfl, ih (h.after hs) hleft'⟩
    | checkTimeout seconds =>
      -- the flag is false, so that `do_check_timeout` calls `reconnect`
      obtain ⟨-, hflag, -⟩ := h [] s rfl
      have hnext : (TaskAccess.checkTimeout seconds).next s.client = [.testConnect] :=
        if_neg (by rw [hflag]; decide)
      rw [hnext] at hleft'
      exact absurd hleft' ((h.after hs).no_connect hruns).2
    | testConnect => exact absurd hleft (h.no_connect hruns).2
    | connect => exact absurd hleft (h.no_connect hruns).1

/-- A thread of this kind comes to the end of what it has left, with nothing but calls of
`do_message`. -/
theorem Stays.drained {thread : Thread} {left : Threads F → List TaskAccess}
    (hruns : Runs fmt thread left) {s : Threads F} (h : Stays fmt attempts connects s) :
    ∃ s', Stays fmt attempts connects s' ∧ left s' = [] ∧ s'.client.posted = s.client.posted ∧
      s'.client.ran = s.client.ran ∧ s'.client.timeoutSession = s.client.timeoutSession := by
  generalize hleft : left s = accesses
  induction accesses generalizing s with
  | nil => exact ⟨s, h, hleft, rfl, rfl, rfl⟩
  | cons a rest ih =>
    have hstirs := h.tasks hruns a (hleft ▸ List.mem_cons_self)
    obtain ⟨s', hs, hclient, hleft'⟩ := hruns s a rest hleft
    cases a with
    | message e =>
      obtain ⟨t, ht, hdone, hposted, hran, hsession⟩ := ih (h.after hs) hleft'
      rw [hclient] at hposted hran hsession
      exact ⟨t, ht, hdone, hposted, hran, hsession⟩
    | checkTimeout | testConnect | connect => cases hstirs

/-- No reconnect waits for the worker: it would be run at last, and start a connect. Induction on
the tasks in front of it, which the worker runs first. -/
theorem Stays.no_reconnect {s : Threads F} (h : Stays fmt attempts connects s) :
    .reconnect ∉ s.client.posted.drop s.client.ran := by
  intro hmem
  obtain ⟨n, hget⟩ := List.getElem?_of_mem hmem
  rw [List.getElem?_drop] at hget
  clear hmem
  induction n generalizing s with
  | zero =>
    obtain ⟨s', hstays, hidle, hposted, hran, -⟩ := h.drained runs_worker
    have hstep : step fmt s' .runTask = some { s' with
        client := { s'.client with ran := s'.client.ran + 1 }, worker := [.testConnect] } := by
      rw [Nat.add_zero, ← hposted, ← hran] at hget
      rw [Threads.step, if_pos hidle, hget]
      rfl
    exact ((hstays.after hstep).no_connect runs_worker).2 rfl
  | succ n ih =>
    obtain ⟨s', hstays, hidle, hposted, hran, -⟩ := h.drained runs_worker
    rw [← hposted, ← hran] at hget
    have hlt : s'.client.ran < s'.client.posted.length := by
      have := (List.getElem?_eq_some_iff.mp hget).1
      omega
    have hstep : step fmt s' .runTask = some { s' with
        client := { s'.client with ran := s'.client.ran + 1 }
        worker := taskAccesses s'.client.posted[s'.client.ran] } := by
      rw [Threads.step, if_pos hidle, List.getElem?_eq_getElem hlt]
      rfl
    apply ih (hstays.after hstep)
    show s'.client.posted[s'.client.ran + 1 + n]? = some .reconnect
    rw [← hget]
    congr 1
    omega

/-- No round of `timer_check` has the client in its list. -/
theorem Stays.session {s : Threads F} (h : Stays fmt attempts connects s) :
    s.client.timeoutSession = none := by
  obtain ⟨s', hstays, hidle, -, -, hsession⟩ := h.drained runs_round
  rw [← hsession]
  cases hseconds : s'.client.timeoutSession with
  | none => rfl
  | some seconds =>
    have hstep : step fmt s' .timerCheck = some { s' with
        client := { s'.client with timeoutSession := none }
        round := [.checkTimeout seconds] } := by
      rw [Threads.step, if_pos hidle, hseconds]
      rfl
    have hstirs := (hstays.after hstep).tasks runs_round (.checkTimeout seconds) List.mem_cons_self
    cases hstirs

theorem step_io {s : Threads F} {a : IoAccess} {rest : List IoAccess} (hio : s.io = a :: rest)
    (hclose : s.client.isClientClose = true) : step fmt s (.go .io) = some { s with
      client := a.effect s.client, io := rest, captures := s.captures ++ a.captures } := by
  have hnext : a.next s.client = [] := by
    cases a with
    | testClose => exact if_neg (by rw [hclose]; decide)
    | _ => rfl
  simp only [Threads.step, go, hio, hnext, List.nil_append]

/-- The I/O thread has nothing left that connects the client. Induction on what it has left. -/
theorem Stays.io {s : Threads F} (h : Stays fmt attempts connects s)
    (hclose : s.client.isClientClose = true) (hran : s.client.ran ≤ s.client.posted.length) :
    ∀ a ∈ s.io, a.stirs = false := by
  generalize hio : s.io = accesses
  induction accesses generalizing s with
  | nil => exact fun a ha => absurd ha List.not_mem_nil
  | cons a rest ih =>
    have hs : step fmt s (.go .io) = some _ := step_io hio hclose
    have hsame := Client.sameEntry_io a s.client
    have hafter := h.after hs
    refine List.forall_mem_cons.mpr ⟨?_, ih hafter (hsame.isClientClose.trans hclose)
      (hsame.ran_le hran) rfl⟩
    obtain ⟨-, hflag, hconnects⟩ := hafter [] _ rfl
    obtain ⟨-, -, hbefore⟩ := h [] s rfl
    cases a with
    | setConnect b => exact hflag
    | post task self =>
      refine decide_eq_false (not_or.mpr ⟨?_, ?_⟩)
      · rintro rfl
        -- the reconnect would be behind the tasks that the worker has still to run
        apply hafter.no_reconnect
        show Task.reconnect ∈ (s.client.posted ++ [Task.reconnect]).drop s.client.ran
        rw [List.drop_append_of_le_length hran]
        exact List.mem_append_right _ List.mem_cons_self
      · rintro rfl
        have hmore : (IoAccess.effect s.client (.post (.message .connect) self)).connectsPosted
            = s.client.connectsPosted + 1 := by
          show (s.client.posted ++ [Task.message .connect]).count _ = _
          rw [List.count_append, List.count_singleton_self]
          rfl
        have hsame : (IoAccess.effect s.client (.post (.message .connect) self)).connectsPosted
            = connects := hconnects
        omega
    | setRecvTime | setWriteTime | read | write | testClose | close => rfl

/-- No connect that succeeded waits for its handler. Induction on what is left of the handler that
the I/O thread runs. -/
theorem Stays.no_connected {s : Threads F} (h : Stays fmt attempts connects s)
    (hclose : s.client.isClientClose = true) (hran : s.client.ran ≤ s.client.posted.length) :
    .connected ∉ s.client.completed := by
  generalize hio : s.io = accesses
  induction accesses generalizing s with
  | nil =>
    -- the I/O thread is free and would run the handler, which sets the flag
    intro hmem
    obtain ⟨i, hget⟩ := List.getElem?_of_mem hmem
    have hstep : step fmt s (.handle i) = some { s with
        client := { s.client with completed := s.client.completed.eraseIdx i }
        io := [.setConnect true, .post (.message .connect) true, .setRecvTime, .read]
        handling := some .connected } := by
      rw [Threads.step, if_pos hio, hget]
      rfl
    have hstirs := (h.after hstep).io hclose hran (.setConnect true) List.mem_cons_self
    cases hstirs
  | cons a rest ih =>
    have hs : step fmt s (.go .io) = some _ := step_io hio hclose
    have hsame := Client.sameEntry_io a s.client
    have hlater := ih (h.after hs) (hsame.isClientClose.trans hclose) (hsame.ran_le hran) rfl
    refine fun hmem => hlater ?_
    -- what the thread does meanwhile only adds completions
    have hkept : s.client.completed <+: (a.effect s.client).completed := by
      have hstart : ∀ op, s.client.completed <+: (Client.startOp op s.client).completed := by
        intro op
        rcases Client.startOp_cases op s.client with hstart | hstart
        · rw [hstart]
          exact List.prefix_append _ _
        · have hsame : (Client.startOp op s.client).completed = s.client.completed := by rw [hstart]
          exact hsame ▸ List.prefix_rfl
      cases a with
      | read => exact hstart _
      | write rest => exact hstart _
      | close => exact List.prefix_append _ _
      | setConnect | post | setRecvTime | setWriteTime | testClose => exact List.prefix_rfl
    exact hkept.subset hmem

/-- No connect that the socket has taken up is outstanding. -/
theorem Stays.no_outstanding {s : Threads F} (h : Stays fmt attempts connects s)
    (hclose : s.client.isClientClose = true) (hran : s.client.ran ≤ s.client.posted.length) :
    .connect false ∉ s.client.outstanding := by
  intro hmem
  obtain ⟨i, hget⟩ := List.getElem?_of_mem hmem
  have hcomplete : s.client.complete i .connected = some { s.client with
      outstanding := s.client.outstanding.eraseIdx i
      completed := s.client.completed ++ [.connected]
      socket := .connected } := by
    unfold Client.complete
    rw [hget]
  have hstep : step fmt s (.complete i .connected) = some { s with
      client := { s.client with
        outstanding := s.client.outstanding.eraseIdx i
        completed := s.client.completed ++ [.connected]
        socket := .connected } } := by
    rw [Threads.step, hcomplete]
    rfl
  exact (h.after hstep).no_connected hclose hran (List.mem_append_right _ List.mem_cons_self)

theorem Stays.calm {s : Threads F} (h : Stays fmt attempts connects s)
    (hclose : s.client.isClientClose = true) (hran : s.client.ran ≤ s.client.posted.length) :
    Calm s where
  client :=
    { disconnected := (h [] s rfl).2.1
      noConnect := h.no_outstanding hclose hran
      noConnected := h.no_connected hclose hran
      noReconnect := h.no_reconnect
      noSession := h.session }
  io := h.io hclose hran
  worker := h.tasks runs_worker
  round := h.tasks runs_round

/-! ## When `close_client` returns -/

/-- What holds in every run: the worker has run tasks that were posted, and a call that has still to
erase the entry is `close_client`, which sets the flag first. -/
structure Wf (s : Threads F) : Prop where
  ran : s.client.ran ≤ s.client.posted.length
  closing : .erase ∈ s.call → s.call = closeAccesses ∨ s.client.isClientClose = true

theorem Wf.same {s t : Threads F} (h : Wf s) (hclient : s.client.SameEntry t.client)
    (hcall : t.call = s.call) : Wf t where
  ran := hclient.ran_le h.ran
  closing := fun hmem => by
    rw [hcall] at hmem ⊢
    rw [hclient.isClientClose]
    exact h.closing hmem

/-- An access of a call of the manager keeps the flag, or sets it, and no call erases the entry but
`close_client`. -/
theorem perform_keeps {s : Client F} {a : CallAccess} {r : Client F × List CallAccess}
    (hperform : a.perform fmt s = some r) :
    (a = .setClientClose ∨ s.isClientClose = true → r.1.isClientClose = true) ∧
      .erase ∉ r.2 ∧ r.1.ran = s.ran ∧ s.posted <+: r.1.posted := by
  -- the accesses other than the one that sets the flag leave the entry as it is
  have hflag : ∀ t : Client F, s.SameEntry t → a ≠ .setClientClose →
      (a = .setClientClose ∨ s.isClientClose = true → t.isClientClose = true) := by
    rintro t hsame hne (heq | hclose)
    · exact absurd heq hne
    · exact hsame.isClientClose.trans hclose
  cases a with
  | setClientClose =>
    obtain rfl := Option.some.inj hperform
    exact ⟨fun _ => rfl, List.not_mem_nil, rfl, List.prefix_rfl⟩
  | clearConnect | close | erase =>
    obtain rfl := Option.some.inj hperform
    exact ⟨fun h => h.resolve_left nofun, List.not_mem_nil, rfl, List.prefix_rfl⟩
  | reconnect a =>
    obtain rfl := Option.some.inj hperform
    have hsame := Client.sameEntry_task a s
    refine ⟨hflag _ hsame nofun, ?_, hsame.ran, hsame.posted⟩
    intro hmem
    obtain ⟨b, -, hb⟩ := List.mem_map.mp hmem
    cases hb
  | format commandId data length =>
    simp only [CallAccess.perform] at hperform
    split at hperform
    case isTrue =>
      obtain rfl := Option.some.inj hperform
      exact ⟨fun h => h.resolve_left nofun, by simp, rfl, List.prefix_rfl⟩
    case isFalse =>
      obtain ⟨formatted, -, rfl⟩ := Option.map_eq_some_iff.mp hperform
      exact ⟨fun h => h.resolve_left nofun, by simp, rfl, List.prefix_rfl⟩
  | refuse =>
    obtain rfl := Option.some.inj hperform
    exact ⟨fun h => h.resolve_left nofun, List.not_mem_nil, rfl, List.prefix_append _ _⟩
  | write data =>
    obtain rfl := Option.some.inj hperform
    have hsame := Client.sameEntry_startOp (.write data) s
    exact ⟨hflag _ hsame nofun, List.not_mem_nil, hsame.ran, hsame.posted⟩

/-- A step keeps the worker behind what has been posted. A call that is about to erase the entry is
`close_client`, and before the erasure come its other accesses, the flag first. -/
theorem wf_step {s s' : Threads F} {a : Action} (h : Wf s) (hs : step fmt s a = some s') :
    Wf s' := by
  cases does_of_step hs with
  | complete hcomplete => exact h.same (Client.sameEntry_complete hcomplete) rfl
  | handle hidle hget hbegin => exact h.same (Client.sameEntry_handler hbegin) rfl
  | runTask hidle hget => exact { h with ran := (List.getElem?_eq_some_iff.mp hget).1 }
  | late | timerCheck | tick => exact { h with }
  | inTime | unknown => exact h
  -- only `close_client` is to erase the entry, and it has set the flag before
  | @call c accesses hidle hreg hbegin =>
    refine { h with closing := fun hmem => .inl ?_ }
    have hmem : .erase ∈ accesses := hmem
    show accesses = closeAccesses
    cases c with
    | closeClient => exact (Option.some.inj hbegin).symm
    | reconnectServer =>
      obtain rfl := Option.some.inj hbegin
      simp at hmem
    | clientSendData sendBuff sendSize =>
      obtain ⟨data, -, rfl⟩ := Option.map_eq_some_iff.mp hbegin
      simp at hmem
    | clientSendFormatData =>
      obtain rfl := Option.some.inj hbegin
      simp at hmem
  | @io a rest hget => exact h.same (Client.sameEntry_io a _) rfl
  | @worker a rest hget => exact h.same (Client.sameEntry_task a _) rfl
  | @round a rest hget => exact h.same (Client.sameEntry_task a _) rfl
  | @access a rest r hget hperform =>
    obtain ⟨hflag, hnew, hran, hposted⟩ := perform_keeps hperform
    refine ⟨hran ▸ h.ran.trans hposted.length_le, fun hmem => .inr (hflag ?_)⟩
    have hrest : .erase ∈ rest := (List.mem_append.mp hmem).resolve_left hnew
    rcases h.closing (hget ▸ List.mem_cons_of_mem _ hrest) with hall | hclose
    · exact .inl (List.cons.inj (hget.symm.trans hall)).1
    · exact .inr hclose

theorem wf_start (transport : Transport) (connectId : Nat) (timerCheckSeconds : Int) (pf : F) :
    Wf (start transport connectId timerCheckSeconds pf) where
  ran := (Client.sameEntry_startConnect _).ran_le (Nat.le_refl 0)
  closing := fun hmem => absurd hmem List.not_mem_nil

/-- **When a closed client stays closed.** In any interleaving of the threads, access by access, let
`close_client` be about to return true in `s`. No connect is started afterwards, the flag stays
false and no connect event is posted, in any run, exactly when in `s` the flag is false, no connect
that the socket has taken up is outstanding, no successful one waits for its handler or is in it, no
handler of a failed read or write is past its test, no reconnect waits for the worker or runs, and
no round of `timer_check` has the client in its list or is in its `do_check_timeout`. -/
theorem stays_closed_iff (fmt : IpacketFormat F) (transport : Transport) (connectId : Nat)
    (timerCheckSeconds : Int) (pf : F) (as : List Action) (s s' : Threads F)
    (hrun : run (step fmt) (start transport connectId timerCheckSeconds pf) as = some s)
    (hcall : s.call = [.erase]) (hreturn : step fmt s (.go .call) = some s') :
    (∀ bs t, run (step fmt) s' bs = some t → t.client.attempts = s.client.attempts ∧
      t.client.isConnect = false ∧ t.client.connectsPosted = s.client.connectsPosted) ↔ Calm s := by
  have hwf : Wf s := invariant_of_run Wf (fun _ _ _ => wf_step)
    (wf_start transport connectId timerCheckSeconds pf) hrun
  have hclose : s.client.isClientClose = true :=
    (hwf.closing (hcall ▸ List.mem_cons_self)).resolve_left (by rw [hcall]; decide)
  cases does_of_step hreturn with | @access a rest r hget hperform => ?_
  obtain ⟨rfl, rfl⟩ := List.cons.inj (hcall.symm.trans hget)
  obtain rfl := Option.some.inj hperform
  constructor
  · intro hstays
    -- erasing the entry changes nothing that the condition is about
    have hcalm := Stays.calm (h := hstays) hclose hwf.ran
    exact { hcalm with client := { hcalm.client with } }
  · intro hcalm bs t hbs
    have hlater := fun hclosed hcalm' => calm_run hclosed hcalm' hbs
    obtain ⟨ht, hsilent⟩ := hlater ⟨hclose, rfl, rfl, hwf.ran⟩
      { hcalm with client := { hcalm.client with } }
    exact ⟨hsilent.attempts, ht.client.disconnected, hsilent.connects⟩

/-- The client is connected, and then closed. -/
def connectedRun : List Action :=
  [.complete 0 .connected, .handle 0, .go .io, .go .io, .go .io, .go .io, .call .closeClient,
    .go .call, .go .call, .go .call]

theorem stays_closed_of_connected :
    ∃ s s', run (step (cpacketFormat CpacketFormat.noPast)) (started .tcp) connectedRun = some s ∧
      step (cpacketFormat CpacketFormat.noPast) s (.go .call) = some s' ∧
      s.client.attempts = 1 ∧
      ((∀ bs t, run (step (cpacketFormat CpacketFormat.noPast)) s' bs = some t →
        t.client.attempts = s.client.attempts ∧ t.client.isConnect = false ∧
          t.client.connectsPosted = s.client.connectsPosted) ↔ Calm s) ∧ Calm s := by
  refine ⟨_, _, rfl, rfl, rfl, ?_, ?_⟩
  · exact stays_closed_iff (cpacketFormat CpacketFormat.noPast) .tcp 1 30 _ connectedRun _ _ rfl rfl
      rfl
  · exact ⟨⟨rfl, by decide, by decide, by decide, rfl⟩, by decide, by decide, by decide⟩

/-- The first connect has succeeded and waits for its handler when the client is closed. -/
theorem reopened_after_close :
    ∃ s t, run (step (cpacketFormat CpacketFormat.noPast)) (started .tcp)
        [.complete 0 .connected, .call .closeClient, .go .call, .go .call, .go .call, .go .call]
          = some s ∧ s.client.registered = false ∧ s.call = [] ∧
      run (step (cpacketFormat CpacketFormat.noPast)) s [.handle 0, .go .io, .go .io] = some t ∧
      t.client.isClientClose = true ∧ t.client.isConnect = true ∧
      t.client.connectsPosted = s.client.connectsPosted + 1 :=
  ⟨_, _, rfl, rfl, rfl, rfl, rfl, rfl, rfl⟩

/-- The handler of a failed read is past its test when the client is closed. It posts the reconnect,
and the worker connects the socket of the closed client. -/
theorem reconnected_after_close :
    ∃ s t, run (step (cpacketFormat CpacketFormat.noPast)) (started .tcp)
        [.complete 0 .connected, .handle 0, .go .io, .go .io, .go .io, .go .io,
          .complete 0 .failed, .handle 0, .go .io, .go .io, .call .closeClient, .go .call,
          .go .call, .go .call, .go .call] = some s ∧
      s.client.registered = false ∧ s.client.isClientClose = true ∧
      run (step (cpacketFormat CpacketFormat.noPast)) s
        ([.go .io, .go .io, .go .io, .runTask, .go .worker, .runTask, .go .worker, .runTask,
          .go .worker, .go .worker]) = some t ∧
      t.client.attempts = s.client.attempts + 1 ∧ t.client.socket = .connecting :=
  ⟨_, _, rfl, rfl, rfl, rfl, rfl, rfl⟩

end PssClient.Threads
