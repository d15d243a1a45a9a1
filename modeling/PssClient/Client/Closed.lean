import PssClient.Client.Threads

/-!
# After a client has been closed

`close_client` sets `is_client_close_`, clears `is_connect_`, closes the socket and erases the entry
of the client. The handlers of a read and of a write look at `is_client_close_` before they ask for
a reconnect; `reconnect` and `connect_handler` do not look at it. Whatever is past its test, or has
none, when `close_client` returns goes on afterwards.

* `IoAccess.stirs` / `TaskAccess.stirs` — what a routine may have still to do to connect the client.
* `Calm` — nothing that is outstanding, queued or running connects the client.
* `SameEntry` — what the routines of the I/O thread and of the workers leave alone.
* `Closed` — what `close_client` leaves behind.
* `calm_step` / `calm_run` — a closed client that is calm stays so, and nothing is connected.
-/

namespace PssClient

open Machine

variable {F : Type*} {fmt : IpacketFormat F}

/-! ## What connects a client -/

/-- The access sets `is_connect_`, posts a connect event or posts a reconnect. -/
def IoAccess.stirs : IoAccess → Bool
  | .setConnect b => b
  | .post task _ => decide (task = .reconnect ∨ task = .message .connect)
  | _ => false

/-- The access is `async_connect`, or a test before it. -/
def TaskAccess.stirs : TaskAccess → Bool
  | .message _ => false
  | .checkTimeout _ | .testConnect | .connect => true

namespace Client

/-- The connect events posted for the client. -/
def connectsPosted (s : Client F) : Nat := s.posted.count (.message .connect)

/-- No connect is outstanding, none that succeeded waits for its handler, no reconnect waits for the
worker, and no round of `timer_check` has the client in its list. -/
structure Calm (s : Client F) : Prop where
  disconnected : s.isConnect = false
  noConnect : .connect false ∉ s.outstanding
  noConnected : .connected ∉ s.completed
  noReconnect : .reconnect ∉ s.posted.drop s.ran
  noSession : s.timeoutSession = none

/-- Nothing of what the user was promised has happened on the way from `s` to `t`: no connect has
been started, and no connect event posted. -/
structure Silent (s t : Client F) : Prop where
  attempts : t.attempts = s.attempts
  connects : connectsPosted t = connectsPosted s

theorem Silent.trans {s t u : Client F} (hst : Silent s t) (htu : Silent t u) : Silent s u :=
  ⟨htu.attempts.trans hst.attempts, htu.connects.trans hst.connects⟩

theorem Calm.startOp {s : Client F} (h : Calm s) {op : Op} (hop : op ≠ .connect false) :
    Calm (startOp op s) ∧ Silent s (startOp op s) := by
  rcases startOp_cases op s with hstart | hstart
  · rw [hstart]
    refine ⟨{ h with noConnected := fun hmem => ?_ }, rfl, rfl⟩
    rcases List.mem_append.mp hmem with hold | hnew
    · exact h.noConnected hold
    · exact onClosed_ne_connected op _ (List.mem_singleton.mp hnew).symm
  · rw [hstart]
    refine ⟨{ h with noConnect := fun hmem => ?_ }, rfl, rfl⟩
    rcases List.mem_append.mp hmem with hold | hnew
    · exact h.noConnect hold
    · exact hop (List.mem_singleton.mp hnew).symm

theorem Calm.post {s : Client F} (h : Calm s) {task : Task} (hreconnect : task ≠ .reconnect)
    (hconnect : task ≠ .message .connect) :
    Calm (post [task] s) ∧ Silent s (post [task] s) := by
  refine ⟨{ h with noReconnect := fun hmem => ?_ }, rfl, ?_⟩
  · rw [Client.post, List.drop_append] at hmem
    rcases List.mem_append.mp hmem with hold | hnew
    · exact h.noReconnect hold
    · exact hreconnect (List.mem_singleton.mp (List.mem_of_mem_drop hnew)).symm
  · show (s.posted ++ [task]).count _ = _
    rw [List.count_append, List.count_eq_zero.mpr fun hmem =>
      hconnect (List.mem_singleton.mp hmem).symm]
    rfl

theorem Calm.complete {i : Nat} {outcome : Outcome} {s s' : Client F} (h : Calm s)
    (hs : complete i outcome s = some s') : Calm s' ∧ Silent s s' := by
  obtain ⟨op, c, socket, buffer, hget, hends, rfl⟩ := ends_of_complete hs
  have hc : c ≠ .connected := by
    rintro rfl
    -- only a connect that the socket has taken up can succeed
    cases hends with
    | connected => exact h.noConnect (List.mem_of_getElem? hget)
  refine ⟨{ h with noConnect := fun hmem => ?_, noConnected := fun hmem => ?_ }, rfl, rfl⟩
  · exact h.noConnect (List.mem_of_mem_eraseIdx hmem)
  · rcases List.mem_append.mp hmem with hold | hnew
    · exact h.noConnected hold
    · exact hc (List.mem_singleton.mp hnew).symm

/-- The accesses of a handler that do not stir keep a client calm. -/
theorem Calm.io {s : Client F} (h : Calm s) {a : IoAccess} (ha : a.stirs = false) :
    Calm (a.effect s) ∧ Silent s (a.effect s) := by
  cases a with
  | setConnect b => exact ⟨{ h with disconnected := ha }, rfl, rfl⟩
  | post task self =>
    obtain ⟨hreconnect, hconnect⟩ := not_or.mp (of_decide_eq_false ha)
    exact h.post hreconnect hconnect
  | setRecvTime | setWriteTime => exact ⟨{ h with }, rfl, rfl⟩
  | read => exact h.startOp nofun
  | write rest => exact h.startOp nofun
  | testClose => exact ⟨h, rfl, rfl⟩
  | close =>
    refine ⟨{ h with noConnect := List.not_mem_nil, noConnected := fun hmem => ?_ }, rfl, rfl⟩
    rcases List.mem_append.mp hmem with hold | hnew
    · exact h.noConnected hold
    · obtain ⟨op, -, hop⟩ := List.mem_map.mp hnew
      cases op <;> cases hop

/-- And so do those of a task, which are calls of `do_message`. -/
theorem Calm.task {s : Client F} (h : Calm s) {a : TaskAccess} (ha : a.stirs = false) :
    Calm (a.effect s) ∧ Silent s (a.effect s) ∧ a.next s = [] := by
  cases a with
  | message e => exact ⟨{ h with }, ⟨rfl, rfl⟩, rfl⟩
  | checkTimeout | testConnect | connect => cases ha

/-- The handler of a completion, unless it is that of a connect that succeeded. -/
theorem Calm.handler {s : Client F} (h : Calm s) {c : Completion} (hc : c ≠ .connected)
    {r : Client F × List IoAccess} (hbegin : handlerAccesses fmt s c = some r) :
    Calm r.1 ∧ Silent s r.1 ∧ ∀ a ∈ r.2, a.stirs = false := by
  cases c with
  | connected => exact absurd rfl hc
  | connectFailed =>
    obtain rfl := Option.some.inj hbegin
    exact ⟨h, ⟨rfl, rfl⟩, by simp [IoAccess.stirs]⟩
  | received bytes =>
    obtain ⟨packets, -, rfl⟩ := Option.map_eq_some_iff.mp hbegin
    refine ⟨{ h with }, ⟨rfl, rfl⟩, fun a ha => ?_⟩
    rcases List.mem_append.mp ha with hpost | hend
    · obtain ⟨p, -, rfl⟩ := List.mem_map.mp hpost
      rfl
    · have hcases : a = .setRecvTime ∨ a = .read := by simpa using hend
      rcases hcases with rfl | rfl <;> rfl
  | readFailed =>
    obtain rfl := Option.some.inj hbegin
    exact ⟨h, ⟨rfl, rfl⟩, by simp [IoAccess.stirs]⟩
  | sent rest sendLength =>
    obtain rfl := Option.some.inj hbegin
    refine ⟨h, ⟨rfl, rfl⟩, ?_⟩
    dsimp only
    split <;> simp [IoAccess.stirs]
  | writeFailed =>
    obtain rfl := Option.some.inj hbegin
    exact ⟨h, ⟨rfl, rfl⟩, by simp [IoAccess.stirs]⟩

end Client

/-! ## What the routines leave alone -/

namespace Client

/-- Between two states the client keeps its entry and its close flag, and tasks are only posted. -/
structure SameEntry (s t : Client F) : Prop where
  isClientClose : t.isClientClose = s.isClientClose
  registered : t.registered = s.registered
  timeoutSession : t.timeoutSession = s.timeoutSession
  ran : t.ran = s.ran
  posted : s.posted <+: t.posted

theorem SameEntry.ran_le {s t : Client F} (h : SameEntry s t) (hran : s.ran ≤ s.posted.length) :
    t.ran ≤ t.posted.length := h.ran ▸ hran.trans h.posted.length_le

theorem sameEntry_startOp (op : Op) (s : Client F) : SameEntry s (startOp op s) := by
  rcases startOp_cases op s with hstart | hstart <;> rw [hstart] <;>
    exact ⟨rfl, rfl, rfl, rfl, List.prefix_rfl⟩

theorem sameEntry_startConnect (s : Client F) : SameEntry s (startConnect s) := by
  unfold startConnect
  split <;> exact ⟨rfl, rfl, rfl, rfl, List.prefix_rfl⟩

theorem sameEntry_complete {i : Nat} {outcome : Outcome} {s s' : Client F}
    (hs : complete i outcome s = some s') : SameEntry s s' := by
  obtain ⟨op, c, socket, buffer, -, -, rfl⟩ := ends_of_complete hs
  exact ⟨rfl, rfl, rfl, rfl, List.prefix_rfl⟩

theorem sameEntry_io (a : IoAccess) (s : Client F) : SameEntry s (a.effect s) := by
  cases a with
  | post task self => exact ⟨rfl, rfl, rfl, rfl, List.prefix_append _ _⟩
  | read => exact sameEntry_startOp _ s
  | write rest => exact sameEntry_startOp _ s
  | setConnect | setRecvTime | setWriteTime | testClose | close =>
    exact ⟨rfl, rfl, rfl, rfl, List.prefix_rfl⟩

theorem sameEntry_task (a : TaskAccess) (s : Client F) : SameEntry s (a.effect s) := by
  cases a with
  | connect => exact sameEntry_startConnect s
  | message | checkTimeout | testConnect => exact ⟨rfl, rfl, rfl, rfl, List.prefix_rfl⟩

theorem sameEntry_handler {s : Client F} {completed : List Completion} {c : Completion}
    {r : Client F × List IoAccess}
    (hbegin : handlerAccesses fmt { s with completed := completed } c = some r) :
    SameEntry s r.1 := by
  cases c with
  | received bytes =>
    obtain ⟨packets, -, rfl⟩ := Option.map_eq_some_iff.mp hbegin
    exact ⟨rfl, rfl, rfl, rfl, List.prefix_rfl⟩
  | connected | connectFailed | readFailed | sent | writeFailed =>
    obtain rfl := Option.some.inj hbegin
    exact ⟨rfl, rfl, rfl, rfl, List.prefix_rfl⟩

end Client

namespace Threads

/-! ## A closed client that stays closed -/

/-- `close_client` has returned: its flag is set, the entry is erased, so that no later call finds
the client, and the call itself is over. -/
structure Closed (s : Threads F) : Prop where
  isClientClose : s.client.isClientClose = true
  unregistered : s.client.registered = false
  call : s.call = []
  ran : s.client.ran ≤ s.client.posted.length

/-- Only the routines of the I/O thread and of the workers have gone on. -/
theorem Closed.same {s t : Threads F} (h : Closed s) (hclient : s.client.SameEntry t.client)
    (hcall : t.call = s.call) : Closed t where
  isClientClose := hclient.isClientClose.trans h.isClientClose
  unregistered := hclient.registered.trans h.unregistered
  call := hcall.trans h.call
  ran := hclient.ran_le h.ran

theorem closed_step {s s' : Threads F} {a : Action} (h : Closed s) (hs : step fmt s a = some s') :
    Closed s' := by
  have hunregistered : ¬ s.client.registered = true := by rw [h.unregistered]; decide
  cases does_of_step hs with
  | complete hcomplete => exact h.same (Client.sameEntry_complete hcomplete) rfl
  | handle hidle hget hbegin => exact h.same (Client.sameEntry_handler hbegin) rfl
  | runTask hidle hget =>
    exact { h with ran := (List.getElem?_eq_some_iff.mp hget).1 }
  | late hidle hround hreg => exact absurd hreg hunregistered
  | inTime => exact h
  | timerCheck => exact { h with }
  | call hidle hreg => exact absurd hreg hunregistered
  | unknown => exact h
  | @io a rest hget => exact h.same (Client.sameEntry_io a _) rfl
  | @worker a rest hget => exact h.same (Client.sameEntry_task a _) rfl
  | @round a rest hget => exact h.same (Client.sameEntry_task a _) rfl
  | access hget => exact absurd (h.call.symm.trans hget) nofun
  | tick => exact { h with }

/-- Nothing outstanding, queued or running connects the client: it is calm in itself, and no thread
is at an access that may lead to a connect. -/
structure Calm (s : Threads F) : Prop where
  client : s.client.Calm
  io : ∀ a ∈ s.io, a.stirs = false
  worker : ∀ a ∈ s.worker, a.stirs = false
  round : ∀ a ∈ s.round, a.stirs = false

/-- One step of a closed client that is calm. The manager does not know it any more, and no thread
has anything left that could lead to a connect. -/
theorem calm_step {s s' : Threads F} {a : Action} (hclosed : Closed s) (h : Calm s)
    (hs : step fmt s a = some s') : Calm s' ∧ s.client.Silent s'.client := by
  have hunregistered : ¬ s.client.registered = true := by rw [hclosed.unregistered]; decide
  cases does_of_step hs with
  | complete hcomplete =>
    obtain ⟨hclient, hsilent⟩ := h.client.complete hcomplete
    exact ⟨{ h with client := hclient }, hsilent⟩
  | @handle i c r hidle hget hbegin =>
    have herased : Client.Calm { s.client with completed := s.client.completed.eraseIdx i } :=
      { h.client with
        noConnected := fun hmem => h.client.noConnected (List.mem_of_mem_eraseIdx hmem) }
    have hc : c ≠ .connected := fun heq => h.client.noConnected (heq ▸ List.mem_of_getElem? hget)
    obtain ⟨hclient, hsilent, hio⟩ := herased.handler hc hbegin
    exact ⟨{ h with client := hclient, io := hio }, hsilent.attempts, hsilent.connects⟩
  | @runTask task hidle hget =>
    have hfront : s.client.posted.drop s.client.ran
        = task :: s.client.posted.drop (s.client.ran + 1) := by
      obtain ⟨hran, htask⟩ := List.getElem?_eq_some_iff.mp hget
      rw [← htask, ← List.drop_eq_getElem_cons hran]
    have hleft := h.client.noReconnect
    rw [hfront] at hleft
    refine ⟨{ h with
      client := { h.client with noReconnect := fun hmem => hleft (List.mem_cons_of_mem _ hmem) }
      worker := fun a ha => ?_ }, rfl, rfl⟩
    cases task with
    | message e => exact List.mem_singleton.mp ha ▸ rfl
    | reconnect => exact absurd List.mem_cons_self hleft
  | late hidle hround hreg => exact absurd hreg hunregistered
  | inTime => exact ⟨h, rfl, rfl⟩
  | timerCheck hround hsession => exact absurd (h.client.noSession.symm.trans hsession) nofun
  | call hidle hreg => exact absurd hreg hunregistered
  | unknown => exact ⟨h, rfl, rfl⟩
  | @io a rest hget =>
    have hio := h.io
    rw [hget] at hio
    obtain ⟨ha, hrest⟩ := List.forall_mem_cons.mp hio
    obtain ⟨hclient, hsilent⟩ := h.client.io ha
    -- the test of `is_client_close_` fails
    have hnext : a.next s.client = [] := by
      cases a with
      | testClose => exact if_neg (by rw [hclosed.isClientClose]; decide)
      | _ => rfl
    refine ⟨{ h with client := hclient, io := ?_ }, hsilent⟩
    rw [hnext]
    exact hrest
  | @worker a rest hget =>
    have hworker := h.worker
    rw [hget] at hworker
    obtain ⟨ha, hrest⟩ := List.forall_mem_cons.mp hworker
    obtain ⟨hclient, hsilent, hnext⟩ := h.client.task ha
    refine ⟨{ h with client := hclient, worker := ?_ }, hsilent⟩
    rw [hnext]
    exact hrest
  | @round a rest hget =>
    have hround := h.round
    rw [hget] at hround
    obtain ⟨ha, hrest⟩ := List.forall_mem_cons.mp hround
    obtain ⟨hclient, hsilent, hnext⟩ := h.client.task ha
    refine ⟨{ h with client := hclient, round := ?_ }, hsilent⟩
    rw [hnext]
    exact hrest
  | access hget => exact absurd (hclosed.call.symm.trans hget) nofun
  | tick => exact ⟨{ h with client := { h.client with } }, rfl, rfl⟩

theorem calm_run {s t : Threads F} {as : List Action} (hclosed : Closed s) (h : Calm s)
    (hrun : run (step fmt) s as = some t) : Calm t ∧ s.client.Silent t.client := by
  have hall : Closed t ∧ Calm t ∧ s.client.Silent t.client := by
    refine invariant_of_run (fun t => Closed t ∧ Calm t ∧ s.client.Silent t.client) ?_
      ⟨hclosed, h, rfl, rfl⟩ hrun
    rintro u a u' ⟨hclosed, hu, hsilent⟩ hs
    obtain ⟨hu', hsilent'⟩ := calm_step hclosed hu hs
    exact ⟨closed_step hclosed hs, hu', hsilent.trans hsilent'⟩
  exact hall.2

end Threads

end PssClient
