import PssClient.Client.Posts
import PssClient.Manager.Clients

/-!
# A stream or datagram client as an object of the table

`Client` has what becomes of one stream or datagram client in full, and `IIOClient` what the table
of clients and the rounds of `timer_check` need of it: the flags, the time stamps, and how many
operations and reconnects are pending. Here the second is read off the first, and every member
function of the one is compared with the function of the same name of the other.

* `Client.unhandled` / `Client.reconnectsLeft` — the operations of a kind that are outstanding or
  wait for their handlers, and the `reconnect` tasks that have not run.
* `Shows` — the object shows the client: it has the same flags and time stamps, and as many
  operations and tasks pending.
* `Shows.startOp`, `Shows.reconnect`, `Shows.connectionLost` and so on — what it is after each
  member function.
-/

namespace PssClient

open Machine Pool

/-- The class of the object. -/
def Transport.clientKind : Transport → ClientKind
  | .tcp => .tcp
  | .udp => .udp

/-- What an operation of the second kind counts towards the first. -/
def ofKind (kind kind' : OpKind) : Nat := if kind' = kind then 1 else 0

namespace Client

variable {F : Type*}

/-! ## What is pending -/

/-- The operations of the kind whose handlers have not run. -/
def unhandled (kind : OpKind) (c : Client F) : Nat :=
  weight (fun op => ofKind kind op.kind) c.outstanding
    + weight (fun completion => ofKind kind completion.kind) c.completed

/-- The `reconnect` tasks that have not run. -/
def reconnectsLeft (c : Client F) : Nat := (c.posted.drop c.ran).count .reconnect

/-- What the table has of a client besides. -/
def flags (c : Client F) : Bool × Bool × Int × Int :=
  (c.isConnect, c.isClientClose, c.recvLastTimer, c.writeLastTimer)

theorem kind_onClosed (transport : Transport) (op : Op) :
    (op.onClosed transport).kind = op.kind := by
  rcases op.onClosed_cases transport with hfailed | ⟨hop, hsent⟩
  · rw [hfailed, Op.kind_failed]
  · rw [hsent, hop]
    rfl

theorem unhandled_startOp (kind : OpKind) (op : Op) (c : Client F) :
    (startOp op c).unhandled kind = c.unhandled kind + ofKind kind op.kind := by
  rcases startOp_cases op c with hstart | hstart
  · rw [hstart]
    show weight _ c.outstanding + weight _ (c.completed ++ [op.onClosed c.transport]) = _
    rw [weight_concat, kind_onClosed, unhandled]
    omega
  · rw [hstart]
    show weight _ (c.outstanding ++ [op]) + weight _ c.completed = _
    rw [weight_concat, unhandled]
    omega

theorem unhandled_startConnect (kind : OpKind) (c : Client F) :
    (startConnect c).unhandled kind = c.unhandled kind + ofKind kind .connect := by
  have hmore : ∀ doomed, weight (fun op => ofKind kind op.kind)
      (c.outstanding ++ [Op.connect doomed])
      + weight (fun completion => ofKind kind completion.kind) c.completed
        = c.unhandled kind + ofKind kind .connect := by
    intro doomed
    rw [weight_concat, unhandled]
    show _ + ofKind kind .connect + _ = _
    omega
  unfold startConnect
  split <;> exact hmore _

/-- Closing the socket ends the operations; their handlers are still to run. -/
theorem unhandled_closeSocket (kind : OpKind) (c : Client F) :
    (closeSocket c).unhandled kind = c.unhandled kind := by
  have hkinds : weight (fun completion => ofKind kind completion.kind)
      (c.outstanding.map Op.failed) = weight (fun op => ofKind kind op.kind) c.outstanding := by
    rw [weight, weight, List.map_map]
    refine congrArg List.sum (List.map_congr_left fun op _ => ?_)
    exact congrArg (ofKind kind) (Op.kind_failed op)
  show weight _ [] + weight _ (c.completed ++ c.outstanding.map Op.failed) = _
  rw [weight_append, hkinds, unhandled]
  show 0 + _ = _
  omega

/-- An operation that has ended still has its handler to run. -/
theorem unhandled_complete {kind : OpKind} {i : Nat} {outcome : Outcome} {c c' : Client F}
    (h : complete i outcome c = some c') : c'.unhandled kind = c.unhandled kind := by
  obtain ⟨op, completion, socket, buffer, hget, hends, rfl⟩ := ends_of_complete h
  have hsplit := weight_eraseIdx (fun op => ofKind kind op.kind) hget
  show weight _ (c.outstanding.eraseIdx i) + weight _ (c.completed ++ [completion]) = _
  rw [weight_concat, Tracked.kind_of_endsAs hends, unhandled]
  omega

/-- A handler takes its completion from the queue. -/
theorem unhandled_taken {i : Nat} {completion : Completion} {c : Client F} (kind : OpKind)
    (hget : c.completed[i]? = some completion) :
    unhandled kind { c with completed := c.completed.eraseIdx i } + ofKind kind completion.kind
      = c.unhandled kind := by
  have hsplit := weight_eraseIdx (fun completion => ofKind kind completion.kind) hget
  show weight _ c.outstanding + weight _ (c.completed.eraseIdx i) + _ = _
  rw [unhandled]
  omega

theorem reconnectsLeft_post {c : Client F} (hran : c.ran ≤ c.posted.length) (tasks : List Task) :
    (post tasks c).reconnectsLeft = c.reconnectsLeft + tasks.count .reconnect := by
  show ((c.posted ++ tasks).drop c.ran).count _ = _
  rw [List.drop_append_of_le_length hran, List.count_append]
  rfl

theorem reconnectsLeft_next {c : Client F} {task : Task} (hget : c.posted[c.ran]? = some task) :
    c.reconnectsLeft
      = (c.posted.drop (c.ran + 1)).count .reconnect + if task = .reconnect then 1 else 0 := by
  obtain ⟨hlt, htask⟩ := List.getElem?_eq_some_iff.mp hget
  rw [reconnectsLeft, List.drop_eq_getElem_cons hlt, htask, List.count_cons]
  simp only [beq_iff_eq]

end Client

namespace IIOClient

variable {Address : Type*}

/-- The operations of the kind whose handlers have not run. -/
def pending (kind : OpKind) (o : IIOClient Address) : Nat :=
  match kind with
  | .connect => o.connecting
  | .read => o.reading
  | .write => o.writing

def flags (o : IIOClient Address) : Bool × Bool × Int × Int :=
  (o.isConnect, o.isClientClose, o.recvLastTimer, o.writeLastTimer)

/-- A handler of an operation of the kind begins. -/
def taken (kind : OpKind) (o : IIOClient Address) : IIOClient Address :=
  match kind with
  | .connect => { o with connecting := o.connecting - 1 }
  | .read => { o with reading := o.reading - 1 }
  | .write => { o with writing := o.writing - 1 }

end IIOClient

/-! ## One object -/

section Shows

variable {F Address : Type*} {fromString : String → Option Address}

/-- The object shows the client, and can parse its address. -/
structure Shows (fromString : String → Option Address) (c : Client F) (o : IIOClient Address) :
    Prop where
  kind : o.kind = c.transport.clientKind
  address : (fromString o.serverIp).isSome = true
  flags : o.flags = c.flags
  pending : ∀ kind, o.pending kind = c.unhandled kind
  reconnects : o.reconnects = c.reconnectsLeft
  ran : c.ran ≤ c.posted.length

namespace Shows

variable {c c' : Client F} {o o' : IIOClient Address}

theorem isConnect (h : Shows fromString c o) : o.isConnect = c.isConnect := by
  have hflags := h.flags
  simp only [IIOClient.flags, Client.flags, Prod.mk.injEq] at hflags
  exact hflags.1

theorem isClientClose (h : Shows fromString c o) : o.isClientClose = c.isClientClose := by
  have hflags := h.flags
  simp only [IIOClient.flags, Client.flags, Prod.mk.injEq] at hflags
  exact hflags.2.1

theorem recvLastTimer (h : Shows fromString c o) : o.recvLastTimer = c.recvLastTimer := by
  have hflags := h.flags
  simp only [IIOClient.flags, Client.flags, Prod.mk.injEq] at hflags
  exact hflags.2.2.1

theorem kind_ne_tty (h : Shows fromString c o) : o.kind ≠ .tty := by
  rw [h.kind]
  cases c.transport <;> decide

/-- The client has gone on, without more or less pending. -/
theorem same (h : Shows fromString c o) (htransport : c'.transport = c.transport)
    (hflags : c'.flags = c.flags) (hpending : ∀ kind, c'.unhandled kind = c.unhandled kind)
    (hposted : c'.posted = c.posted) (hran : c'.ran = c.ran) : Shows fromString c' o where
  kind := htransport ▸ h.kind
  address := h.address
  flags := hflags ▸ h.flags
  pending := fun kind => (h.pending kind).trans (hpending kind).symm
  reconnects := by
    rw [Client.reconnectsLeft, hposted, hran]
    exact h.reconnects
  ran := by
    rw [hposted, hran]
    exact h.ran

/-- An operation is started. -/
theorem startOp (h : Shows fromString c o) (op : Op) (hkind : o'.kind = o.kind)
    (haddress : o'.serverIp = o.serverIp) (hflags : o'.flags = o.flags)
    (hreconnects : o'.reconnects = o.reconnects)
    (hpending : ∀ kind, o'.pending kind = o.pending kind + ofKind kind op.kind) :
    Shows fromString (Client.startOp op c) o' := by
  have hsame : (Client.startOp op c).transport = c.transport ∧
      (Client.startOp op c).flags = c.flags ∧
      (Client.startOp op c).reconnectsLeft = c.reconnectsLeft ∧
      (Client.startOp op c).ran = c.ran ∧ (Client.startOp op c).posted = c.posted := by
    rcases Client.startOp_cases op c with hstart | hstart <;> rw [hstart] <;>
      exact ⟨rfl, rfl, rfl, rfl, rfl⟩
  obtain ⟨htransport, hclient, hleft, hran, hposted⟩ := hsame
  exact ⟨by rw [hkind, htransport, h.kind], by rw [haddress]; exact h.address,
    by rw [hflags, hclient, h.flags],
    fun kind => by rw [hpending, Client.unhandled_startOp, h.pending],
    by rw [hreconnects, hleft, h.reconnects], by rw [hran, hposted]; exact h.ran⟩

/-- `reconnect`. The address has been parsed before. -/
theorem reconnect (h : Shows fromString c o) (now : Int) (d : Device) :
    (IIOClient.reconnect fromString now d o).1 = .ok () ∧
      Shows fromString (Client.reconnect c) (IIOClient.reconnect fromString now d o).2 := by
  obtain ⟨address, haddress⟩ := Option.isSome_iff_exists.mp h.address
  have hconnect : IIOClient.connect fromString o = .ok { o with
      connecting := o.connecting + 1
      connects := o.connects ++ [(address, o.serverPort.toUInt16)] } := by
    rw [IIOClient.connect, haddress]
  rw [IIOClient.reconnect, if_neg h.kind_ne_tty, Client.reconnect]
  by_cases hflag : c.isConnect = false
  · rw [if_pos (h.isConnect.trans hflag), if_pos hflag, hconnect]
    have hsame : (Client.startConnect c).transport = c.transport ∧
        (Client.startConnect c).flags = c.flags ∧
        (Client.startConnect c).reconnectsLeft = c.reconnectsLeft ∧
        (Client.startConnect c).ran = c.ran ∧ (Client.startConnect c).posted = c.posted := by
      unfold Client.startConnect
      split <;> exact ⟨rfl, rfl, rfl, rfl, rfl⟩
    obtain ⟨htransport, hclient, hleft, hran, hposted⟩ := hsame
    refine ⟨rfl, by rw [htransport]; exact h.kind, h.address, by rw [hclient]; exact h.flags,
      fun kind => ?_, by rw [hleft]; exact h.reconnects, by rw [hran, hposted]; exact h.ran⟩
    rw [Client.unhandled_startConnect, ← h.pending kind]
    cases kind <;> rfl
  · rw [if_neg fun hfalse => hflag (h.isConnect.symm.trans hfalse), if_neg hflag]
    exact ⟨rfl, h⟩

/-- `do_check_timeout`. -/
theorem doCheckTimeout (h : Shows fromString c o) (seconds now : Int) (d : Device) :
    (IIOClient.doCheckTimeout fromString seconds now d o).1 = .ok () ∧
      Shows fromString (Client.doCheckTimeout seconds c)
        (IIOClient.doCheckTimeout fromString seconds now d o).2 := by
  rw [IIOClient.doCheckTimeout, Client.doCheckTimeout]
  by_cases hflag : c.isConnect = true
  · rw [if_pos (h.isConnect.trans hflag), if_pos hflag]
    exact ⟨rfl, { h with }⟩
  · rw [if_neg fun htrue => hflag (h.isConnect.symm.trans htrue), if_neg hflag]
    exact h.reconnect now d

/-- A task is posted that does not reconnect. -/
theorem post (h : Shows fromString c o) {tasks : List Task} (htasks : .reconnect ∉ tasks) :
    Shows fromString (Client.post tasks c) o where
  kind := h.kind
  address := h.address
  flags := h.flags
  pending := h.pending
  reconnects := by
    rw [Client.reconnectsLeft_post h.ran, List.count_eq_zero.mpr htasks]
    exact h.reconnects
  ran := by
    show c.ran ≤ (c.posted ++ tasks).length
    rw [List.length_append]
    exact h.ran.trans (Nat.le_add_right _ _)

/-- The worker has run a task that does not reconnect. -/
theorem ranMessage (h : Shows fromString c o) {e : Event}
    (hget : c.posted[c.ran]? = some (.message e)) :
    Shows fromString { c with ran := c.ran + 1, messages := c.messages ++ [e] } o where
  kind := h.kind
  address := h.address
  flags := h.flags
  pending := h.pending
  reconnects := h.reconnects.trans (Client.reconnectsLeft_next hget)
  ran := (List.getElem?_eq_some_iff.mp hget).1

/-- The worker takes a `reconnect`. -/
theorem ranReconnect (h : Shows fromString c o) (hget : c.posted[c.ran]? = some .reconnect) :
    0 < o.reconnects ∧
      Shows fromString { c with ran := c.ran + 1 } { o with reconnects := o.reconnects - 1 } := by
  have hleft : o.reconnects = (c.posted.drop (c.ran + 1)).count .reconnect + 1 :=
    h.reconnects.trans (Client.reconnectsLeft_next hget)
  refine ⟨hleft ▸ Nat.succ_pos _, h.kind, h.address, h.flags, h.pending, ?_,
    (List.getElem?_eq_some_iff.mp hget).1⟩
  show o.reconnects - 1 = (c.posted.drop (c.ran + 1)).count .reconnect
  omega

/-- `close_client_socket`. -/
theorem closeClientSocket (h : Shows fromString c o) :
    Shows fromString (Client.closeClientSocket c) (IIOClient.closeClientSocket o) := by
  have hflags := h.flags
  simp only [IIOClient.flags, Client.flags, Prod.mk.injEq] at hflags
  refine ⟨h.kind, h.address, ?_, fun kind => ?_, h.reconnects, h.ran⟩
  · show (false, true, o.recvLastTimer, o.writeLastTimer) = (false, true, _, _)
    rw [hflags.2.2.1, hflags.2.2.2]
    rfl
  · exact (h.pending kind).trans (Client.unhandled_closeSocket kind _).symm

/-- A write is started. -/
theorem doWriteImmediately (h : Shows fromString c o) (data : List UInt8) :
    Shows fromString (Client.doWriteImmediately data c) (IIOClient.doWriteImmediately o) :=
  h.startOp _ rfl rfl rfl rfl fun kind => by cases kind <;> rfl

/-- What the handlers of a read and of a write do with an error. -/
theorem connectionLost (h : Shows fromString c o) :
    Shows fromString (Client.connectionLost c) (IIOClient.connectionLost o) := by
  have hposted : Shows fromString (Client.post [.message .disconnect] c) o := h.post (by decide)
  rw [IIOClient.connectionLost]
  by_cases hclose : c.isClientClose = false
  · have hlost : Client.connectionLost c = Client.post [.reconnect]
        (Client.closeSocket (Client.post [.message .disconnect] c)) := if_pos hclose
    rw [if_pos (h.isClientClose.trans hclose), hlost]
    refine ⟨h.kind, h.address, ?_, fun kind => ?_, ?_, ?_⟩
    · show (false, o.isClientClose, o.recvLastTimer, o.writeLastTimer)
        = (false, c.isClientClose, c.recvLastTimer, c.writeLastTimer)
      have hflags := h.flags
      simp only [IIOClient.flags, Client.flags, Prod.mk.injEq] at hflags ⊢
      exact ⟨trivial, hflags.2⟩
    · exact (hposted.pending kind).trans (Client.unhandled_closeSocket kind _).symm
    · rw [Client.reconnectsLeft_post]
      · exact congrArg (· + 1) hposted.reconnects
      · exact hposted.ran
    · show c.ran ≤ (_ ++ [Task.reconnect]).length
      rw [List.length_append]
      exact hposted.ran.trans (Nat.le_add_right _ _)
  · have hlost : Client.connectionLost c = Client.post [.message .disconnect] c := if_neg hclose
    rw [if_neg fun hfalse => hclose (h.isClientClose.symm.trans hfalse), hlost]
    exact hposted

/-- A handler takes its completion. -/
theorem taken (h : Shows fromString c o) {i : Nat} {completion : Completion}
    (hget : c.completed[i]? = some completion) :
    0 < o.pending completion.kind ∧
      Shows fromString { c with completed := c.completed.eraseIdx i }
        (o.taken completion.kind) := by
  have hcount : ∀ kind, Client.unhandled kind { c with completed := c.completed.eraseIdx i }
      + ofKind kind completion.kind = o.pending kind := fun kind =>
    (Client.unhandled_taken kind hget).trans (h.pending kind).symm
  constructor
  · have hself := hcount completion.kind
    rw [ofKind, if_pos rfl] at hself
    omega
  · have hrest : (o.taken completion.kind).kind = o.kind ∧
        (o.taken completion.kind).serverIp = o.serverIp ∧
        (o.taken completion.kind).flags = o.flags ∧
        (o.taken completion.kind).reconnects = o.reconnects := by
      cases completion.kind <;> exact ⟨rfl, rfl, rfl, rfl⟩
    obtain ⟨hkind, haddress, hflags, hreconnects⟩ := hrest
    refine ⟨hkind.trans h.kind, haddress ▸ h.address, hflags.trans h.flags, fun kind => ?_,
      hreconnects.trans h.reconnects, h.ran⟩
    have hkinds := hcount kind
    cases hof : completion.kind <;> cases kind <;> rw [hof] at hkinds <;>
      simp only [ofKind, reduceCtorEq, if_true, if_false] at hkinds <;>
      simp only [IIOClient.pending, IIOClient.taken] at hkinds ⊢ <;> omega

/-- Both time stamps and flags as the client has them now. -/
theorem setFlags (h : Shows fromString c o) (hkind : o'.kind = o.kind)
    (haddress : o'.serverIp = o.serverIp) (hpending : ∀ kind, o'.pending kind = o.pending kind)
    (hreconnects : o'.reconnects = o.reconnects) (htransport : c'.transport = c.transport)
    (hunhandled : ∀ kind, c'.unhandled kind = c.unhandled kind) (hposted : c'.posted = c.posted)
    (hran : c'.ran = c.ran) (hflags : o'.flags = c'.flags) : Shows fromString c' o' where
  kind := by rw [hkind, htransport, h.kind]
  address := haddress ▸ h.address
  flags := hflags
  pending := fun kind => by rw [hpending, hunhandled, h.pending]
  reconnects := by rw [hreconnects, h.reconnects, Client.reconnectsLeft, Client.reconnectsLeft,
    hposted, hran]
  ran := by
    rw [hposted, hran]
    exact h.ran

/-- A read starts when a connect has succeeded or a piece has come. -/
theorem connectHandler (h : Shows fromString c o) (ok : Bool) :
    Shows fromString (Client.connectHandler ok c) (IIOClient.connectHandler c.now ok o) := by
  have hflags := h.flags
  simp only [IIOClient.flags, Client.flags, Prod.mk.injEq] at hflags
  obtain ⟨-, hclose, hrecv, hwrite⟩ := hflags
  cases ok with
  | false =>
    have hposted : Shows fromString (Client.post [.message .disconnect] c) o := h.post (by decide)
    refine hposted.setFlags rfl rfl (fun _ => rfl) rfl rfl (fun _ => rfl) rfl rfl ?_
    show (false, o.isClientClose, o.recvLastTimer, o.writeLastTimer) = (false, _, _, _)
    rw [hclose, hrecv, hwrite]
    rfl
  | true =>
    have hset : Shows fromString
        { Client.post [.message .connect] { c with isConnect := true } with recvLastTimer := c.now }
        { IIOClient.setRecvTime c.now o with isConnect := true } := by
      have hposted : Shows fromString (Client.post [.message .connect] c) o := h.post (by decide)
      refine hposted.setFlags rfl rfl (fun kind => by cases kind <;> rfl) rfl rfl (fun _ => rfl)
        rfl rfl ?_
      show (true, o.isClientClose, c.now, o.writeLastTimer) = (true, _, _, _)
      rw [hclose, hwrite]
      rfl
    exact hset.startOp .read rfl rfl rfl rfl fun kind => by cases kind <;> rfl

end Shows

end Shows

end PssClient
