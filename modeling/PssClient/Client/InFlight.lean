import PssClient.Client.Threads
import PssClient.Lib.Pool

/-!
# What is in flight

At most one connect and one read of a client are outstanding as long as a connect is started only
when nothing else may lead to a read. `reconnect` is guarded by `is_connect_` alone, which stays
false while a connect is under way.

* `tokens` — what may yet start a read, outstanding reads included: a connect that can succeed, its
  success, a received piece, and the handler of one of these that has still to come to `do_read`.
* `NoMore` — a step that starts no connect adds nothing to the budget (`noMore_of_step`).
* `Alone` — the condition at an `async_connect`.
* `inFlight_le_one_of_alone` — the result, and `two_reads_outstanding` the run of a datagram client
  in which a reconnect during the first connect ends with two reads in one buffer.
-/

namespace PssClient.Client

open Machine Pool

variable {F : Type*} {fmt : IpacketFormat F}

/-! ## The budget -/

def opToken : Op → Nat
  | .connect false => 1
  | .read => 1
  | _ => 0

def completionToken : Completion → Nat
  | .connected => 1
  | .received _ => 1
  | _ => 0

def isConnectOp : Op → Nat
  | .connect _ => 1
  | _ => 0

def isReadOp : Op → Nat
  | .read => 1
  | _ => 0

/-- What may yet start a read, outstanding reads included. -/
def tokens (s : Client F) : Nat := weight opToken s.outstanding + weight completionToken s.completed

/-- The outstanding connects. -/
def connects (s : Client F) : Nat := weight isConnectOp s.outstanding

/-- The outstanding reads. -/
def reads (s : Client F) : Nat := weight isReadOp s.outstanding

theorem reads_le_tokens (s : Client F) : reads s ≤ tokens s := by
  have hle : reads s ≤ weight opToken s.outstanding := by
    refine weight_le_weight (fun op => ?_) s.outstanding
    cases op <;> simp [isReadOp, opToken]
  unfold tokens
  omega

/-- The step from `s` to `t` adds nothing to the budget: no more reads can come of what is under
way, and no more connects are outstanding. -/
structure NoMore (s t : Client F) : Prop where
  tokens : tokens t ≤ tokens s
  connects : connects t ≤ connects s

theorem NoMore.refl (s : Client F) : NoMore s s := ⟨Nat.le_refl _, Nat.le_refl _⟩

/-! ## What the operations cost -/

theorem startOp_cost (op : Op) (s : Client F) :
    tokens (startOp op s) ≤ tokens s + opToken op ∧
      connects (startOp op s) ≤ connects s + isConnectOp op := by
  unfold startOp tokens connects
  split
  · have hclosed : completionToken (op.onClosed s.transport) = 0 := by
      rcases op.onClosed_cases s.transport with hfailed | ⟨-, hsent⟩
      · rw [hfailed]
        cases op <;> rfl
      · rw [hsent]
        rfl
    constructor
    · show weight opToken s.outstanding
        + weight completionToken (s.completed ++ [op.onClosed s.transport]) ≤ _
      rw [weight_concat, hclosed]
      omega
    · exact Nat.le_add_right _ _
  · constructor
    · show weight opToken (s.outstanding ++ [op]) + weight completionToken s.completed ≤ _
      rw [weight_concat]
      omega
    · show weight isConnectOp (s.outstanding ++ [op]) ≤ _
      rw [weight_concat]

theorem noMore_closeSocket (s : Client F) : NoMore s (closeSocket s) := by
  have hfailed : weight completionToken (s.outstanding.map Op.failed) = 0 := by
    apply weight_eq_zero
    intro c hc
    obtain ⟨op, -, rfl⟩ := List.mem_map.mp hc
    cases op <;> rfl
  constructor
  · show 0 + weight completionToken (s.completed ++ s.outstanding.map Op.failed) ≤ tokens s
    rw [weight_append, hfailed]
    unfold tokens
    omega
  · exact Nat.zero_le _

/-- An operation ends in a completion that costs no more than it did. -/
theorem noMore_ended {s : Client F} {i : Nat} {op : Op} {c : Completion} (socket : SocketState)
    (buffer : List UInt8 × List (List UInt8)) (hget : s.outstanding[i]? = some op)
    (hc : completionToken c ≤ opToken op) : NoMore s (ended i c socket buffer s) := by
  have htokens := weight_eraseIdx opToken hget
  have hconnects := weight_eraseIdx isConnectOp hget
  constructor
  · show weight opToken (s.outstanding.eraseIdx i) + weight completionToken (s.completed ++ [c])
      ≤ weight opToken s.outstanding + weight completionToken s.completed
    rw [weight_concat]
    omega
  · show weight isConnectOp (s.outstanding.eraseIdx i) ≤ weight isConnectOp s.outstanding
    omega

theorem noMore_complete {i : Nat} {outcome : Outcome} {s s' : Client F}
    (hstep : complete i outcome s = some s') : NoMore s s' := by
  obtain ⟨op, c, socket, buffer, hget, hends, rfl⟩ := ends_of_complete hstep
  apply noMore_ended socket buffer hget
  cases hends with
  | connected => exact Nat.le_refl 1
  | connectFailed => exact Nat.zero_le _
  | received => exact Nat.le_refl 1
  | sent => exact Nat.zero_le _
  | readFailed => exact Nat.zero_le _
  | writeFailed => exact Nat.zero_le _

/-- **What a connect costs.** One token, unless the socket is connected or connecting already: then
the new attempt is bound to fail, and never starts a read. -/
theorem startConnect_cost (s : Client F) :
    connects (startConnect s) = connects s + 1 ∧
      tokens (startConnect s) ≤ tokens s + 1 ∧ (busy s → tokens (startConnect s) ≤ tokens s) := by
  have hadd : ∀ doomed socket attempts, ∀ t : Client F, t = { s with
      attempts := attempts, outstanding := s.outstanding ++ [.connect doomed], socket := socket } →
      connects t = connects s + 1 ∧ tokens t = tokens s + opToken (.connect doomed) := by
    rintro doomed socket attempts t rfl
    constructor
    · show weight isConnectOp (s.outstanding ++ [.connect doomed]) = _
      rw [weight_concat]
      rfl
    · show weight opToken (s.outstanding ++ [.connect doomed])
        + weight completionToken s.completed = _
      rw [weight_concat]
      unfold tokens
      omega
  -- a doomed attempt is free
  by_cases hbusy : busy s
  · obtain ⟨hconnects, htokens⟩ := hadd true s.socket _ _ (startConnect_doomed hbusy.1 hbusy.2)
    have hfree : opToken (.connect true) = 0 := rfl
    exact ⟨hconnects, by omega, fun _ => by omega⟩
  · have hlive : ∃ socket attempts, startConnect s = { s with
        attempts := attempts
        outstanding := s.outstanding ++ [.connect false]
        socket := socket } := by
      by_cases htcp : s.transport = .tcp
      · have hfree := not_or.mp fun hsocket => hbusy ⟨htcp, hsocket⟩
        exact ⟨_, _, startConnect_free htcp hfree⟩
      · refine ⟨if s.socket = .closed then .opened else s.socket, s.attempts + 1, ?_⟩
        unfold startConnect
        split <;> simp_all
    obtain ⟨socket, attempts, heq⟩ := hlive
    obtain ⟨hconnects, htokens⟩ := hadd false socket attempts _ heq
    have hcost : opToken (.connect false) = 1 := rfl
    exact ⟨hconnects, by omega, fun h => absurd h hbusy⟩

end PssClient.Client

namespace PssClient.Threads

open Machine Pool

variable {F : Type*} {fmt : IpacketFormat F}

/-! ## The budget of the threads -/

/-- A handler that has not come to `do_read`. -/
def ioToken : IoAccess → Nat
  | .read => 1
  | _ => 0

def tokens (s : Threads F) : Nat := s.client.tokens + weight ioToken s.io

/-- The step from `s` to `t` adds nothing to the budget. -/
structure NoMore (s t : Threads F) : Prop where
  tokens : tokens t ≤ tokens s
  connects : t.client.connects ≤ s.client.connects

/-- The I/O thread stays where it is. -/
theorem NoMore.of_client {s t : Threads F} (h : s.client.NoMore t.client) (hio : t.io = s.io) :
    NoMore s t where
  tokens := by
    unfold Threads.tokens
    rw [hio]
    exact Nat.add_le_add_right h.tokens _
  connects := h.connects

/-- A completion is worth what its handler costs: only those of a successful connect and of a
received piece start a read. -/
theorem handler_cost {s : Client F} {c : Completion} {r : Client F × List IoAccess}
    (hbegin : handlerAccesses fmt s c = some r) :
    weight ioToken r.2 ≤ Client.completionToken c ∧ r.1.outstanding = s.outstanding ∧
      r.1.completed = s.completed := by
  cases c with
  | received bytes =>
    obtain ⟨packets, -, rfl⟩ := Option.map_eq_some_iff.mp hbegin
    refine ⟨?_, rfl, rfl⟩
    have hposts : weight ioToken
        (packets.1.map fun p => IoAccess.post (.message (.packet p)) true) = 0 := by
      apply weight_eq_zero
      intro a ha
      obtain ⟨p, -, rfl⟩ := List.mem_map.mp ha
      rfl
    rw [weight_append, hposts]
    exact Nat.le_refl 1
  | sent rest sendLength =>
    obtain rfl := Option.some.inj hbegin
    refine ⟨?_, rfl, rfl⟩
    dsimp only
    split <;> exact Nat.le_refl 0
  | connected | connectFailed | readFailed | writeFailed =>
    obtain rfl := Option.some.inj hbegin
    exact ⟨Nat.le_refl _, rfl, rfl⟩

theorem noMore_handle {s : Threads F} {i : Nat} {c : Completion} {r : Client F × List IoAccess}
    (hidle : s.io = []) (hget : s.client.completed[i]? = some c)
    (hbegin : handlerAccesses fmt
      { s.client with completed := s.client.completed.eraseIdx i } c = some r) :
    NoMore s { s with client := r.1, io := r.2, handling := some c } := by
  obtain ⟨hcost, houtstanding, hcompleted⟩ := handler_cost hbegin
  have hsplit := weight_eraseIdx Client.completionToken hget
  constructor
  · show r.1.tokens + weight ioToken r.2 ≤ s.client.tokens + weight ioToken s.io
    rw [hidle, Client.tokens, Client.tokens, houtstanding, hcompleted]
    show weight _ s.client.outstanding + weight _ (s.client.completed.eraseIdx i) + _
      ≤ weight _ s.client.outstanding + weight _ s.client.completed + 0
    omega
  · show r.1.connects ≤ s.client.connects
    rw [Client.connects, houtstanding]
    exact Nat.le_refl _

/-- An access of a handler. The read that it starts is the one that it has been charged for. -/
theorem noMore_io {s : Threads F} {a : IoAccess} {rest : List IoAccess} (hget : s.io = a :: rest)
    (captures : List Bool) :
    NoMore s { s with
      client := a.effect s.client, io := a.next s.client ++ rest, captures := captures } := by
  have hnext : weight ioToken (a.next s.client) = 0 := by
    cases a with
    | testClose =>
      unfold IoAccess.next
      dsimp only
      split <;> rfl
    | _ => rfl
  have hleft : weight ioToken (a.next s.client ++ rest) + ioToken a = weight ioToken s.io := by
    rw [weight_append, hnext, hget, weight_cons]
    omega
  have hclient : (a.effect s.client).tokens ≤ s.client.tokens + ioToken a ∧
      (a.effect s.client).connects ≤ s.client.connects := by
    cases a with
    | read => exact Client.startOp_cost .read s.client
    | write rest => exact Client.startOp_cost (.write rest) s.client
    | close =>
      obtain ⟨htokens, hconnects⟩ := Client.noMore_closeSocket s.client
      exact ⟨htokens, hconnects⟩
    | setConnect | post | setRecvTime | setWriteTime | testClose =>
      exact ⟨Nat.le_refl _, Nat.le_refl _⟩
  constructor
  · show (a.effect s.client).tokens + weight ioToken (a.next s.client ++ rest)
      ≤ s.client.tokens + weight ioToken s.io
    omega
  · exact hclient.2

/-! ## The steps that start a connect -/

/-- The step is an `async_connect`. -/
def startsConnect (s : Threads F) : Action → Prop
  | .go .worker => s.worker.head? = some .connect
  | .go .round => s.round.head? = some .connect
  | .go .call => s.call.head? = some (.reconnect .connect)
  | _ => False

instance (s : Threads F) (a : Action) : Decidable (startsConnect s a) := by
  unfold startsConnect
  split <;> infer_instance

/-- The steps that keep at most one connect and one read in flight, as a condition on the state
they are taken from. -/
def Alone (s : Threads F) (a : Action) : Prop :=
  startsConnect s a → s.client.connects = 0 ∧ (s.client.busy ∨ tokens s = 0)

instance (s : Threads F) (a : Action) : Decidable (Alone s a) :=
  inferInstanceAs (Decidable (_ → _ ∧ _))

/-- The step is `startConnect` on the client, or starts no operation for a task. -/
theorem task_effect (a : TaskAccess) (s : Client F) :
    a = .connect ∧ a.effect s = s.startConnect ∨
      a ≠ .connect ∧ s.NoMore (a.effect s) := by
  cases a with
  | connect => exact .inl ⟨rfl, rfl⟩
  | message | checkTimeout | testConnect =>
    exact .inr ⟨nofun, Nat.le_refl _, Nat.le_refl _⟩

/-- **What a call adds to the budget.** The connect at the end of `reconnect_server` starts one; a
write is not part of the budget, and the other accesses start nothing. -/
theorem access_effect {s : Client F} {a : CallAccess} {r : Client F × List CallAccess}
    (hperform : a.perform fmt s = some r) :
    a = .reconnect .connect ∧ r.1 = s.startConnect ∨ a ≠ .reconnect .connect ∧ s.NoMore r.1 := by
  -- an access that starts nothing
  have hsame : ∀ t : Client F, t.outstanding = s.outstanding → t.completed = s.completed →
      s.NoMore t := by
    intro t houtstanding hcompleted
    constructor
    · rw [Client.tokens, Client.tokens, houtstanding, hcompleted]
    · rw [Client.connects, Client.connects, houtstanding]
  cases a with
  | setClientClose | clearConnect | erase | refuse =>
    obtain rfl := Option.some.inj hperform
    exact .inr ⟨nofun, hsame _ rfl rfl⟩
  | close =>
    obtain rfl := Option.some.inj hperform
    obtain ⟨htokens, hconnects⟩ := Client.noMore_closeSocket s
    exact .inr ⟨nofun, htokens, hconnects⟩
  | reconnect a =>
    obtain rfl := Option.some.inj hperform
    rcases task_effect a s with ⟨rfl, hstart⟩ | ⟨hne, hsame⟩
    · exact .inl ⟨rfl, hstart⟩
    · exact .inr ⟨fun heq => hne (CallAccess.reconnect.inj heq), hsame⟩
  | format commandId data length =>
    simp only [CallAccess.perform] at hperform
    split at hperform
    case isTrue =>
      obtain rfl := Option.some.inj hperform
      exact .inr ⟨nofun, hsame _ rfl rfl⟩
    case isFalse =>
      obtain ⟨formatted, -, rfl⟩ := Option.map_eq_some_iff.mp hperform
      exact .inr ⟨nofun, hsame _ rfl rfl⟩
  | write data =>
    obtain rfl := Option.some.inj hperform
    obtain ⟨htokens, hconnects⟩ := Client.startOp_cost (.write data) s
    exact .inr ⟨nofun, htokens, hconnects⟩

/-- Every step adds nothing to the budget, or is `startConnect`. -/
theorem noMore_of_step {s s' : Threads F} {a : Action} (hs : step fmt s a = some s') :
    NoMore s s' ∨
      startsConnect s a ∧ s'.client = s.client.startConnect ∧ s'.io = s.io := by
  cases does_of_step hs with
  | complete hcomplete => exact .inl (.of_client (Client.noMore_complete hcomplete) rfl)
  | handle hidle hget hbegin => exact .inl (noMore_handle hidle hget hbegin)
  | runTask | late | inTime | timerCheck | call | unknown | tick =>
    exact .inl ⟨Nat.le_refl _, Nat.le_refl _⟩
  | io hget => exact .inl (noMore_io hget _)
  | @worker a rest hget =>
    rcases task_effect a s.client with ⟨rfl, hstart⟩ | ⟨-, hsame⟩
    · exact .inr ⟨by rw [startsConnect, hget]; rfl, hstart, rfl⟩
    · exact .inl (.of_client hsame rfl)
  | @round a rest hget =>
    rcases task_effect a s.client with ⟨rfl, hstart⟩ | ⟨-, hsame⟩
    · exact .inr ⟨by rw [startsConnect, hget]; rfl, hstart, rfl⟩
    · exact .inl (.of_client hsame rfl)
  | @access a rest r hget hperform =>
    rcases access_effect hperform with ⟨rfl, hstart⟩ | ⟨-, hsame⟩
    · exact .inr ⟨by rw [startsConnect, hget]; rfl, hstart, rfl⟩
    · exact .inl (.of_client hsame rfl)

/-- The invariant: one right to read, and one connect. A read that is outstanding has used the
right, and a connect that may succeed has it in hand. -/
structure Budget (s : Threads F) : Prop where
  tokens : tokens s ≤ 1
  connects : s.client.connects ≤ 1

theorem budget_step {s s' : Threads F} {a : Action} (h : Budget s) (halone : Alone s a)
    (hs : step fmt s a = some s') : Budget s' := by
  rcases noMore_of_step hs with hsame | ⟨hstarts, hclient, hio⟩
  · exact ⟨hsame.tokens.trans h.tokens, hsame.connects.trans h.connects⟩
  · obtain ⟨hnone, hroom⟩ := halone hstarts
    obtain ⟨hmore, hcost, hfree⟩ := Client.startConnect_cost s.client
    have hbefore := h.tokens
    have hafter : tokens s' = s.client.startConnect.tokens + weight ioToken s.io := by
      rw [tokens, hclient, hio]
    have hsplit : tokens s = s.client.tokens + weight ioToken s.io := rfl
    refine ⟨?_, by rw [hclient]; omega⟩
    rcases hroom with hbusy | hzero
    · -- the socket answers with an error
      have := hfree hbusy
      omega
    · omega

/-- **When at most one connect and one read are in flight.** In every interleaving of the threads of
a client of either kind, access by access, in which `async_connect` is called only while no other
connect is outstanding and, unless the socket refuses it, only while no read is outstanding, no
successful connect and no received piece waits for its handler, and no handler of one of these has
still to come to `do_read`: at most one connect and at most one read are outstanding. -/
theorem inFlight_le_one_of_alone (fmt : IpacketFormat F) (transport : Transport)
    (connectId : Nat) (timerCheckSeconds : Int) (pf : F) (as : List Action) (s : Threads F)
    (halone : Meets (step fmt) Alone (start transport connectId timerCheckSeconds pf) as)
    (hrun : run (step fmt) (start transport connectId timerCheckSeconds pf) as = some s) :
    s.client.connects ≤ 1 ∧ s.client.reads ≤ 1 := by
  have hstart : Budget (start transport connectId timerCheckSeconds pf) := by
    obtain ⟨hconnects, htokens, -⟩ := Client.startConnect_cost
      { transport := transport
        connectId := connectId
        packetFormat := pf
        timerCheckSeconds := timerCheckSeconds }
    exact ⟨htokens, hconnects.le⟩
  have h : Budget s :=
    invariant_of_meets Budget (fun _ _ _ h hG hs => budget_step h hG hs) hstart halone hrun
  exact ⟨h.connects, (Client.reads_le_tokens s.client).trans
    ((Nat.le_add_right _ _).trans h.tokens)⟩

/-- The connection is lost, and the worker runs the reconnect that the read's handler posts. -/
def reconnectingRun : List Action :=
  [.complete 0 .connected, .handle 0, .go .io, .go .io, .go .io, .go .io, .complete 0 .failed,
    .handle 0, .go .io, .go .io, .go .io, .go .io, .go .io, .runTask, .go .worker, .runTask,
    .go .worker, .runTask, .go .worker, .go .worker]

theorem inFlight_le_one_of_alone_reconnect :
    ∃ s, run (step (cpacketFormat CpacketFormat.noPast)) (started .udp) reconnectingRun = some s ∧
      s.client.attempts = 2 ∧ s.client.connects ≤ 1 ∧ s.client.reads ≤ 1 := by
  refine ⟨_, rfl, rfl, ?_⟩
  -- the only connect is started by the last task, when nothing is in flight
  exact inFlight_le_one_of_alone (cpacketFormat CpacketFormat.noPast) .udp 1 30 _ reconnectingRun _
    (by decide +kernel) rfl

/-- The user asks for a reconnect while the first connect's success waits for its handler. A
datagram socket can be connected again, and each success starts a read. -/
def doublingRun : List Action :=
  [.complete 0 .connected, .call .reconnectServer, .go .call, .go .call, .complete 0 .connected,
    .handle 0, .go .io, .go .io, .go .io, .go .io, .handle 0, .go .io, .go .io, .go .io, .go .io]

theorem two_reads_outstanding :
    ∃ s, run (step (cpacketFormat CpacketFormat.noPast)) (started .udp) doublingRun = some s ∧
      s.client.outstanding = [.read, .read] ∧ s.client.reads = 2 :=
  ⟨_, rfl, rfl, rfl⟩

end PssClient.Threads
