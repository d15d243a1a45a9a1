import PssClient.Client.Closed
import PssClient.Client.InFlight
import PssClient.Client.Tracked

/-!
# Who keeps a client alive

The handlers of reads and writes, most of the posted tasks, the entry in `asio_client_list_` and the
list of a running `timer_check` hold the client through a `shared_ptr`. The handler of a connect is
bound to `this`.

* `holders` — the `shared_ptr`s to the client. When the last of them goes the client is destroyed,
  and its socket ends what is outstanding.
* `NoConnect` — no connect needs the client: none is outstanding, none waits for its handler, and
  none is in its handler.
* `KeepsEntry` — the condition: the entry is there as long as a connect is.
* `handlers_hold` — the result, for both kinds of clients; `dangling_connect` is the client that is
  closed while its first connect is under way.
-/

namespace PssClient

open Machine Pool

/-- A `shared_ptr` to the client. The table and a running round have one each; a handler and a
posted task have one when their lambda captures `self`. -/
inductive Holder
  /-- The entry in `asio_client_list_`. -/
  | entry
  /-- The entry in the list of a running `timer_check`. -/
  | timeoutSession
  /-- `self` in the handler of an operation. -/
  | handler (kind : OpKind)
  /-- `self` in the posted task at `i`. -/
  | task (i : Nat)

/-- The handlers of reads and writes capture `self`, the connect's is bound to `this`. -/
def OpKind.capturesSelf : OpKind → Bool
  | .connect => false
  | .read | .write => true

namespace Client

variable {F : Type*}

/-- No connect is outstanding or waits for its handler. -/
structure NoConnect (s : Client F) : Prop where
  outstanding : ∀ op ∈ s.outstanding, op.kind ≠ .connect
  completed : ∀ c ∈ s.completed, c.kind ≠ .connect

instance (s : Client F) : Decidable (NoConnect s) :=
  decidable_of_iff ((∀ op ∈ s.outstanding, op.kind ≠ .connect) ∧
    ∀ c ∈ s.completed, c.kind ≠ .connect) ⟨fun h => ⟨h.1, h.2⟩, fun h => ⟨h.1, h.2⟩⟩

theorem NoConnect.congr {s t : Client F} (h : NoConnect s)
    (houtstanding : t.outstanding = s.outstanding) (hcompleted : t.completed = s.completed) :
    NoConnect t :=
  ⟨houtstanding ▸ h.outstanding, hcompleted ▸ h.completed⟩

theorem NoConnect.startOp {s : Client F} (h : NoConnect s) {op : Op} (hop : op.kind ≠ .connect) :
    NoConnect (startOp op s) := by
  rcases startOp_cases op s with hstart | hstart
  · rw [hstart]
    refine ⟨h.outstanding, fun c hc => ?_⟩
    rcases List.mem_append.mp hc with hold | hnew
    · exact h.completed c hold
    · rw [List.mem_singleton.mp hnew]
      rcases op.onClosed_cases s.transport with hfailed | ⟨-, hsent⟩
      · rw [hfailed, Op.kind_failed]
        exact hop
      · rw [hsent]
        exact nofun
  · rw [hstart]
    refine ⟨fun op' hop' => ?_, h.completed⟩
    rcases List.mem_append.mp hop' with hold | hnew
    · exact h.outstanding op' hold
    · rw [List.mem_singleton.mp hnew]
      exact hop

theorem NoConnect.complete {i : Nat} {outcome : Outcome} {s s' : Client F} (h : NoConnect s)
    (hs : complete i outcome s = some s') : NoConnect s' := by
  obtain ⟨op, c, socket, buffer, hget, hends, rfl⟩ := ends_of_complete hs
  have hkind : c.kind = op.kind := Tracked.kind_of_endsAs hends
  refine ⟨fun op' hop' => h.outstanding op' (List.mem_of_mem_eraseIdx hop'), fun c' hc' => ?_⟩
  rcases List.mem_append.mp hc' with hold | hnew
  · exact h.completed c' hold
  · rw [List.mem_singleton.mp hnew, hkind]
    exact h.outstanding op (List.mem_of_getElem? hget)

theorem NoConnect.io {s : Client F} (h : NoConnect s) (a : IoAccess) : NoConnect (a.effect s) := by
  cases a with
  | read => exact h.startOp nofun
  | write rest => exact h.startOp nofun
  | close =>
    refine ⟨fun op hop => absurd hop List.not_mem_nil, fun c hc => ?_⟩
    rcases List.mem_append.mp hc with hold | hnew
    · exact h.completed c hold
    · obtain ⟨op, hop, rfl⟩ := List.mem_map.mp hnew
      rw [Op.kind_failed]
      exact h.outstanding op hop
  | setConnect | post | setRecvTime | setWriteTime | testClose => exact h.congr rfl rfl

/-- The accesses of a call of the manager, but for `async_connect`. -/
theorem NoConnect.access {fmt : IpacketFormat F} {s : Client F} (h : NoConnect s) {a : CallAccess}
    {r : Client F × List CallAccess} (hperform : a.perform fmt s = some r)
    (hne : a ≠ .reconnect .connect) : NoConnect r.1 := by
  cases a with
  | setClientClose | clearConnect | erase | refuse =>
    obtain rfl := Option.some.inj hperform
    exact h.congr rfl rfl
  | close =>
    obtain rfl := Option.some.inj hperform
    exact h.io .close
  | reconnect a =>
    obtain rfl := Option.some.inj hperform
    cases a with
    | connect => exact absurd rfl hne
    | message | checkTimeout | testConnect => exact h.congr rfl rfl
  | format commandId data length =>
    simp only [CallAccess.perform] at hperform
    split at hperform
    case isTrue =>
      obtain rfl := Option.some.inj hperform
      exact h
    case isFalse =>
      obtain ⟨formatted, -, rfl⟩ := Option.map_eq_some_iff.mp hperform
      exact h.congr rfl rfl
  | write data =>
    obtain rfl := Option.some.inj hperform
    exact h.startOp (show OpKind.write ≠ .connect by decide)

end Client

namespace Threads

variable {F : Type*} {fmt : IpacketFormat F}

/-! ## The holders -/

/-- The operation whose handler the I/O thread runs. -/
def running (s : Threads F) : List OpKind :=
  if s.io = [] then [] else s.handling.toList.map Completion.kind

/-- The operations that are outstanding, wait for their handlers or are in them. -/
def pending (s : Threads F) : List OpKind :=
  s.client.outstanding.map Op.kind ++ s.client.completed.map Completion.kind ++ s.running

/-- The tasks that the worker has still to run, and the one that it runs. -/
def waiting (s : Threads F) : List (Bool × Nat) :=
  s.captures.zipIdx.drop (if s.worker = [] then s.client.ran else s.client.ran - 1)

/-- The `shared_ptr`s to the client. -/
def holders (s : Threads F) : List Holder :=
  (if s.client.registered = true then [.entry] else []) ++
    (if s.client.timeoutSession.isSome = true ∨ s.round ≠ [] then [.timeoutSession] else []) ++
    (s.pending.filter OpKind.capturesSelf).map .handler ++
    (s.waiting.filter Prod.fst).map fun p => .task p.2

theorem holders_ne_nil_of_registered {s : Threads F} (h : s.client.registered = true) :
    s.holders ≠ [] := by
  rw [holders, if_pos h]
  exact List.cons_ne_nil _ _

theorem holders_ne_nil_of_pending {s : Threads F} {kind : OpKind} (hmem : kind ∈ s.pending)
    (hkind : kind ≠ .connect) : s.holders ≠ [] := by
  have hcaptures : kind.capturesSelf = true := by
    cases kind with
    | connect => exact absurd rfl hkind
    | read | write => rfl
  have hholder : Holder.handler kind ∈ s.holders := by
    refine List.mem_append_left _ (List.mem_append_right _ (List.mem_map.mpr ⟨kind, ?_, rfl⟩))
    exact List.mem_filter.mpr ⟨hmem, hcaptures⟩
  exact List.ne_nil_of_mem hholder

/-! ## The entry -/

/-- No connect is outstanding, waits for its handler or is in it. -/
structure NoConnect (s : Threads F) : Prop where
  client : s.client.NoConnect
  running : OpKind.connect ∉ s.running

instance (s : Threads F) : Decidable (NoConnect s) :=
  decidable_of_iff (s.client.NoConnect ∧ OpKind.connect ∉ s.running)
    ⟨fun h => ⟨h.1, h.2⟩, fun h => ⟨h.1, h.2⟩⟩

/-- The step is `asio_client_list_.erase`. -/
def erasesEntry (s : Threads F) : Action → Bool
  | .go .call => decide (s.call.head? = some .erase)
  | _ => false

/-- The entry is erased only when no connect needs it, and connects are started only while it is
there. -/
structure KeepsEntry (s : Threads F) (a : Action) : Prop where
  erased : erasesEntry s a = true → NoConnect s
  started : startsConnect s a → s.client.registered = true

instance (s : Threads F) (a : Action) : Decidable (KeepsEntry s a) :=
  decidable_of_iff ((erasesEntry s a = true → NoConnect s) ∧
    (startsConnect s a → s.client.registered = true)) ⟨fun h => ⟨h.1, h.2⟩, fun h => ⟨h.1, h.2⟩⟩

/-- The I/O thread has begun no handler. -/
theorem NoConnect.same {s t : Threads F} (h : NoConnect s) (hclient : t.client.NoConnect)
    (hio : t.io = s.io) (hhandling : t.handling = s.handling) : NoConnect t where
  client := hclient
  running := by
    unfold Threads.running
    rw [hio, hhandling]
    exact h.running

/-- Only `async_connect` makes a connect. Where none is outstanding, queued or in its handler, a
step that starts none leaves it so: a connect that is queued was outstanding, and one that is in its
handler was queued. -/
theorem noConnect_step {s s' : Threads F} {a : Action} (h : NoConnect s)
    (hno : ¬ startsConnect s a) (hs : step fmt s a = some s') : NoConnect s' := by
  have htask : ∀ {a : TaskAccess}, a ≠ .connect → (a.effect s.client).NoConnect := by
    intro a hne
    cases a with
    | connect => exact absurd rfl hne
    | message | checkTimeout | testConnect => exact h.client.congr rfl rfl
  cases does_of_step hs with
  | complete hcomplete => exact h.same (h.client.complete hcomplete) rfl rfl
  | @handle i c r hidle hget hbegin =>
    obtain ⟨-, houtstanding, hcompleted⟩ := handler_cost hbegin
    have hkind := h.client.completed c (List.mem_of_getElem? hget)
    refine ⟨⟨houtstanding ▸ h.client.outstanding, ?_⟩, ?_⟩
    · rw [hcompleted]
      exact fun c hc => h.client.completed c (List.mem_of_mem_eraseIdx hc)
    · intro hmem
      have hmem : OpKind.connect ∈ (if r.2 = [] then [] else [c.kind]) := hmem
      split at hmem
      · cases hmem
      · exact hkind (List.mem_singleton.mp hmem).symm
  | runTask | late | timerCheck | call | tick => exact h.same (h.client.congr rfl rfl) rfl rfl
  | inTime | unknown => exact h
  | @io a rest hget =>
    refine ⟨h.client.io a, fun hmem => h.running ?_⟩
    -- the handler that runs has been running before
    have hbefore : s.running = s.handling.toList.map Completion.kind :=
      if_neg (by rw [hget]; exact List.cons_ne_nil _ _)
    rw [hbefore]
    have hmem : OpKind.connect ∈ (if _ = [] then [] else s.handling.toList.map Completion.kind) :=
      hmem
    split at hmem
    · cases hmem
    · exact hmem
  | @worker a rest hget =>
    refine h.same (htask ?_) rfl rfl
    rintro rfl
    exact hno (by rw [startsConnect, hget]; rfl)
  | @round a rest hget =>
    refine h.same (htask ?_) rfl rfl
    rintro rfl
    exact hno (by rw [startsConnect, hget]; rfl)
  | @access a rest r hget hperform =>
    refine h.same (h.client.access hperform ?_) rfl rfl
    rintro rfl
    exact hno (by rw [startsConnect, hget]; rfl)

/-- Only `close_client` and `unload_module` erase the entry. -/
theorem registered_step {s s' : Threads F} {a : Action} (h : s.client.registered = true)
    (hs : step fmt s a = some s') :
    s'.client.registered = true ∨ erasesEntry s a = true := by
  cases does_of_step hs with
  | complete hcomplete => exact .inl ((Client.sameEntry_complete hcomplete).registered.trans h)
  | handle hidle hget hbegin => exact .inl ((Client.sameEntry_handler hbegin).registered.trans h)
  | runTask | late | inTime | timerCheck | call | unknown | tick => exact .inl h
  | @io a rest hget => exact .inl ((Client.sameEntry_io a _).registered.trans h)
  | @worker a rest hget => exact .inl ((Client.sameEntry_task a _).registered.trans h)
  | @round a rest hget => exact .inl ((Client.sameEntry_task a _).registered.trans h)
  | @access a rest r hget hperform =>
    cases a with
    | erase => exact .inr (decide_eq_true (by rw [hget]; rfl))
    | setClientClose | clearConnect | close | refuse =>
      obtain rfl := Option.some.inj hperform
      exact .inl h
    | reconnect a =>
      obtain rfl := Option.some.inj hperform
      exact .inl ((Client.sameEntry_task a _).registered.trans h)
    | format commandId data length =>
      simp only [CallAccess.perform] at hperform
      split at hperform
      case isTrue =>
        obtain rfl := Option.some.inj hperform
        exact .inl h
      case isFalse =>
        obtain ⟨formatted, -, rfl⟩ := Option.map_eq_some_iff.mp hperform
        exact .inl h
    | write data =>
      obtain rfl := Option.some.inj hperform
      exact .inl ((Client.sameEntry_startOp _ _).registered.trans h)

/-- The handler that runs is that of a completion. -/
def HandlerKnown (s : Threads F) : Prop := s.io ≠ [] → s.handling.isSome = true

theorem handlerKnown_step {s s' : Threads F} {a : Action} (h : HandlerKnown s)
    (hs : step fmt s a = some s') : HandlerKnown s' := by
  cases does_of_step hs with
  | handle => exact fun _ => rfl
  | io hget => exact fun _ => h (by rw [hget]; exact List.cons_ne_nil _ _)
  | complete | runTask | late | inTime | timerCheck | call | unknown | worker | round | access
    | tick => exact h

/-- The access that erases the entry starts no connect. -/
theorem not_startsConnect_of_erasesEntry {s : Threads F} {a : Action}
    (h : erasesEntry s a = true) : ¬ startsConnect s a := by
  cases a with
  | go thread =>
    cases thread with
    | call =>
      rw [startsConnect, of_decide_eq_true h]
      decide
    | io | worker | round => cases h
  | complete | handle | runTask | timerSnapshot | timerCheck | call | tick => cases h

/-- The invariant: the entry is there as long as a connect needs it. A connect's handler is bound to
`this`, so that nothing but the entry holds the client for it. -/
structure EntryKept (s : Threads F) : Prop where
  known : HandlerKnown s
  entry : NoConnect s ∨ s.client.registered = true

theorem entryKept_step {s s' : Threads F} {a : Action} (h : EntryKept s) (hkeeps : KeepsEntry s a)
    (hs : step fmt s a = some s') : EntryKept s' := by
  refine ⟨handlerKnown_step h.known hs, ?_⟩
  by_cases herases : erasesEntry s a = true
  · exact .inl (noConnect_step (hkeeps.erased herases)
      (not_startsConnect_of_erasesEntry herases) hs)
  · have hregistered : s.client.registered = true → s'.client.registered = true := fun hreg =>
      (registered_step hreg hs).resolve_right herases
    by_cases hstarts : startsConnect s a
    · exact .inr (hregistered (hkeeps.started hstarts))
    · exact h.entry.imp (fun hnone => noConnect_step hnone hstarts hs) hregistered

/-- Something is outstanding, waits for its handler or is in it. -/
theorem pending_ne_nil {s : Threads F} (hknown : HandlerKnown s)
    (hpending : s.client.outstanding ≠ [] ∨ s.client.completed ≠ [] ∨ s.io ≠ []) :
    s.pending ≠ [] := by
  rcases hpending with houtstanding | hcompleted | hio
  · exact List.append_ne_nil_of_left_ne_nil (List.append_ne_nil_of_left_ne_nil
      (fun hnil => houtstanding (List.map_eq_nil_iff.mp hnil)) _) _
  · exact List.append_ne_nil_of_left_ne_nil (List.append_ne_nil_of_right_ne_nil _
      fun hnil => hcompleted (List.map_eq_nil_iff.mp hnil)) _
  · obtain ⟨c, hc⟩ := Option.isSome_iff_exists.mp (hknown hio)
    apply List.append_ne_nil_of_right_ne_nil _
    rw [running, if_neg hio, hc]
    exact List.cons_ne_nil _ _

theorem NoConnect.not_mem_pending {s : Threads F} (h : NoConnect s) : .connect ∉ s.pending := by
  intro hmem
  rcases List.mem_append.mp hmem with hclient | hrunning
  · rcases List.mem_append.mp hclient with houtstanding | hcompleted
    · obtain ⟨op, hop, hkind⟩ := List.mem_map.mp houtstanding
      exact h.client.outstanding op hop hkind
    · obtain ⟨c, hc, hkind⟩ := List.mem_map.mp hcompleted
      exact h.client.completed c hc hkind
  · exact h.running hrunning

theorem holders_of_entryKept {s : Threads F} (h : EntryKept s)
    (hpending : s.client.outstanding ≠ [] ∨ s.client.completed ≠ [] ∨ s.io ≠ []) :
    s.holders ≠ [] := by
  rcases h.entry with hnone | hregistered
  · obtain ⟨kind, hkind⟩ := List.exists_mem_of_ne_nil _ (pending_ne_nil h.known hpending)
    apply holders_ne_nil_of_pending hkind
    intro hconnect
    exact hnone.not_mem_pending (hconnect ▸ hkind)
  · exact holders_ne_nil_of_registered hregistered

/-- **Pending handlers keep their client alive — the connect's through the entry.** In every run of
the threads of a stream or datagram client in which `close_client` and `unload_module` erase its
entry only when no connect is outstanding, waits for its handler or is in it, and in which connects
are started only while the entry is there: a client with an operation outstanding, or one whose
handler has still to run or to end, has a `shared_ptr` to it. -/
theorem handlers_hold (fmt : IpacketFormat F) (transport : Transport) (connectId : Nat)
    (timerCheckSeconds : Int) (pf : F) (as : List Action) (s : Threads F)
    (hG : Meets (step fmt) KeepsEntry (start transport connectId timerCheckSeconds pf) as)
    (hrun : run (step fmt) (start transport connectId timerCheckSeconds pf) as = some s)
    (hpending : s.client.outstanding ≠ [] ∨ s.client.completed ≠ [] ∨ s.io ≠ []) :
    s.holders ≠ [] := by
  have hregistered : (start transport connectId timerCheckSeconds pf).client.registered = true :=
    (Client.sameEntry_startConnect _).registered
  have hstart : EntryKept (start transport connectId timerCheckSeconds pf) :=
    ⟨fun hio => absurd rfl hio, .inr hregistered⟩
  have h : EntryKept s := invariant_of_meets EntryKept (fun _ _ _ => entryKept_step) hstart hG hrun
  exact holders_of_entryKept h hpending

/-- The client is closed when it has reconnected. -/
def closedLate : List Action :=
  [.complete 0 .connected, .handle 0, .go .io, .go .io, .go .io, .go .io, .complete 0 .failed,
    .handle 0, .go .io, .go .io, .go .io, .go .io, .go .io, .runTask, .go .worker, .runTask,
    .go .worker, .runTask, .go .worker, .go .worker, .complete 0 .connected, .handle 0, .go .io,
    .go .io, .go .io, .go .io, .call .closeClient, .go .call, .go .call, .go .call, .go .call]

theorem handlers_hold_closedLate :
    ∃ s, run (step (cpacketFormat CpacketFormat.noPast)) (started .tcp) closedLate = some s ∧
      s.client.completed = [.readFailed] ∧ s.client.registered = false ∧ s.holders ≠ [] := by
  refine ⟨_, rfl, rfl, rfl, ?_⟩
  -- only the read of the second connection is left when the entry is erased
  exact handlers_hold (cpacketFormat CpacketFormat.noPast) .tcp 1 30 _ closedLate _
    (by decide +kernel) rfl (.inr (.inl nofun))

/-- `close_client`, and nothing else. -/
def closeRun : List Action := [.call .closeClient, .go .call, .go .call, .go .call, .go .call]

/-- The client is closed while its first connect is under way. The socket ends the connect, whose
handler is still to run. -/
theorem dangling_connect :
    (∃ s, run (step (cpacketFormat CpacketFormat.noPast)) (started .tcp) closeRun = some s ∧
      s.client.completed = [.connectFailed] ∧ s.holders = []) ∧
    ∃ s, run (step (cpacketFormat CpacketFormat.noPast)) (started .udp) closeRun = some s ∧
      s.client.completed = [.connectFailed] ∧ s.holders = [] :=
  ⟨⟨_, rfl, rfl, rfl⟩, _, rfl, rfl, rfl⟩

end Threads

end PssClient
