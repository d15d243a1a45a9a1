import PssClient.Client.Interface

/-!
# One client and what acts on it

`CASIOClient` and `CASIOUDPClient` with the parts of `CClient_Manager` that reach them, from the
moment `start` has returned. The I/O thread runs the handlers of completed operations, a worker
runs the tasks posted for the client in the order in which they were posted, `timer_check`
collects the clients that have been silent for too long and then calls them one after another,
and any thread calls the manager.

## The architecture

* `Op` / `Completion` — what the client has asked asio for, and what asio has queued for it: a
  completion is queued some time before its handler runs.
* `startConnect` / `startOp` / `closeSocket` — asio's part. A stream socket that is connecting or
  connected turns a further connect into an error and stays as it was (`connect true`); an
  operation on a closed socket completes at once, with an error but for a stream write of nothing;
  closing makes every outstanding operation fail and leaves what is already queued alone. All reads
  go into `recv_buffer`.
* `doRead` … `reconnect` — the member functions, under their names in the source.
* `step` — the interleavings: one action is one completion, one handler, one task, one half of a
  `timer_check` round, one call of the manager, or the clock.
-/

namespace PssClient

inductive Transport
  | tcp
  | udp
  deriving DecidableEq

/-- The socket as asio and the kernel see it. The client does not look at it: it keeps `is_connect_`
for itself, and the two can disagree. -/
inductive SocketState
  | closed
  -- open, but neither connecting nor connected
  | opened
  | connecting
  | connected
  deriving DecidableEq

/-- An operation on the socket that has not completed. -/
inductive Op
  /-- `async_connect`; `doomed` when the socket can only answer with an error. -/
  | connect (doomed : Bool)
  /-- `async_read_some` or `async_receive_from`, into the one `recv_buffer`. -/
  | read
  /-- A write with the bytes that it still has to write. -/
  | write (rest : List UInt8)
  deriving DecidableEq

/-- A completed operation whose handler has not run. The handler of a read is told how many bytes
have come. -/
inductive Completion
  | connected
  | connectFailed
  | received (length : Nat)
  | readFailed
  | sent (rest : List UInt8) (sendLength : Nat)
  | writeFailed
  deriving DecidableEq

/-- The completion of a read, good or bad. -/
def Completion.isRead : Completion → Bool
  | .received _ => true
  | .readFailed => true
  | _ => false

/-- The completion with an error. -/
def Op.failed : Op → Completion
  | .connect _ => .connectFailed
  | .read => .readFailed
  | .write _ => .writeFailed

/-- The completion of an operation that is started on a closed socket. A stream write of nothing
does not come to the socket, and succeeds. -/
def Op.onClosed : Transport → Op → Completion
  | .tcp, .write [] => .sent [] 0
  | _, op => op.failed

theorem Op.onClosed_cases (transport : Transport) (op : Op) :
    op.onClosed transport = op.failed ∨ op = .write [] ∧ op.onClosed transport = .sent [] 0 := by
  unfold Op.onClosed
  split
  case h_1 => exact .inr ⟨rfl, rfl⟩
  case h_2 => exact .inl rfl

/-- How an operation ends. -/
inductive Outcome
  | connected
  | received (bytes : List UInt8)
  | sent (sendLength : Nat)
  | failed

/-- A call of `do_message`. -/
inductive Event
  -- `connect_command_id`
  | connect
  -- `disconnect_command_id`
  | disconnect
  -- `time_check_command_id`
  | timeCheck (seconds : Int)
  | packet (p : CrecvPacket)
  deriving DecidableEq

/-- A task posted to the client's worker. -/
inductive Task
  | message (e : Event)
  | reconnect
  deriving DecidableEq

/-- A client as its object, its socket and the manager hold it. -/
structure Client (F : Type*) where
  transport : Transport
  connectId : Nat
  isConnect : Bool := false
  isClientClose : Bool := false
  recvLastTimer : Int := 0
  writeLastTimer : Int := 0
  packetFormat : F
  -- the part of `recv_buffer` that has been written to
  recvBuffer : List UInt8 := []
  socket : SocketState := .closed
  outstanding : List Op := []
  completed : List Completion := []
  -- every task posted so far, and how many of them the worker has run
  posted : List Task := []
  ran : Nat := 0
  -- the entry in `asio_client_list_`
  registered : Bool := true
  -- the entry in the list that a running `timer_check` works through
  timeoutSession : Option Int := none
  timerCheckSeconds : Int
  now : Int := 0
  -- the calls of `async_connect`, the pieces that have come out of the reads, and those handed to
  -- `format_recv_buffer`
  attempts : Nat := 0
  arrived : List (List UInt8) := []
  received : List (List UInt8) := []
  -- the calls of `do_message`
  messages : List Event := []

namespace Client

variable {F : Type*}

/-! ## What asio does -/

/-- `async_connect`. It opens a closed socket. -/
def startConnect (s : Client F) : Client F :=
  match s.transport, s.socket with
  | .tcp, .connecting | .tcp, .connected =>
    { s with attempts := s.attempts + 1, outstanding := s.outstanding ++ [.connect true] }
  | .tcp, _ =>
    { s with
      attempts := s.attempts + 1
      outstanding := s.outstanding ++ [.connect false]
      socket := .connecting }
  | .udp, _ =>
    { s with
      attempts := s.attempts + 1
      outstanding := s.outstanding ++ [.connect false]
      socket := if s.socket = .closed then .opened else s.socket }

/-- A stream socket that is free takes the connect up. -/
theorem startConnect_free {s : Client F} (htcp : s.transport = .tcp)
    (hfree : s.socket ≠ .connecting ∧ s.socket ≠ .connected) :
    startConnect s = { s with
      attempts := s.attempts + 1
      outstanding := s.outstanding ++ [.connect false]
      socket := .connecting } := by
  obtain ⟨hconnecting, hconnected⟩ := hfree
  unfold startConnect
  split <;> simp_all

/-- One that is connecting or connected answers with an error. -/
theorem startConnect_doomed {s : Client F} (htcp : s.transport = .tcp)
    (hbusy : s.socket = .connecting ∨ s.socket = .connected) :
    startConnect s = { s with
      attempts := s.attempts + 1, outstanding := s.outstanding ++ [.connect true] } := by
  unfold startConnect
  rw [htcp]
  rcases hbusy with hsocket | hsocket <;> rw [hsocket]

/-- A stream socket that answers a connect with an error. -/
def busy (s : Client F) : Prop :=
  s.transport = .tcp ∧ (s.socket = .connecting ∨ s.socket = .connected)

instance (s : Client F) : Decidable (busy s) := inferInstanceAs (Decidable (_ ∧ _))

/-- Any other operation. -/
def startOp (op : Op) (s : Client F) : Client F :=
  if s.socket = .closed then { s with completed := s.completed ++ [op.onClosed s.transport] }
  else { s with outstanding := s.outstanding ++ [op] }

/-- The operation at `i` ends. A failed connect leaves a stream socket open and unconnected,
except when the socket was not the connect's to change. -/
def complete (i : Nat) (outcome : Outcome) (s : Client F) : Option (Client F) :=
  match s.outstanding[i]?, outcome with
  | some (.connect false), .connected =>
    some { s with
      outstanding := s.outstanding.eraseIdx i
      completed := s.completed ++ [.connected]
      socket := .connected }
  | some (.connect doomed), .failed =>
    some { s with
      outstanding := s.outstanding.eraseIdx i
      completed := s.completed ++ [.connectFailed]
      socket := if doomed = false ∧ s.transport = .tcp then .opened else s.socket }
  | some .read, .received bytes =>
    if bytes.length ≤ recvBufferMaxSize ∧ (s.transport = .tcp → bytes ≠ []) then
      some { s with
        outstanding := s.outstanding.eraseIdx i
        completed := s.completed ++ [.received bytes.length]
        recvBuffer := bytes ++ s.recvBuffer.drop bytes.length
        arrived := s.arrived ++ [bytes] }
    else none
  | some (.write rest), .sent sendLength =>
    -- a datagram goes out whole, a stream takes any positive part
    if sendLength ≤ rest.length ∧ (rest ≠ [] → 0 < sendLength) ∧
        (s.transport = .udp → sendLength = rest.length) then
      some { s with
        outstanding := s.outstanding.eraseIdx i
        completed := s.completed ++ [.sent rest sendLength] }
    else none
  | some .read, .failed =>
    some { s with
      outstanding := s.outstanding.eraseIdx i
      completed := s.completed ++ [.readFailed] }
  | some (.write _), .failed =>
    some { s with
      outstanding := s.outstanding.eraseIdx i
      completed := s.completed ++ [.writeFailed] }
  | _, _ => none

/-! ## The member functions -/

/-- `App_tms::instance()->AddMessage` with the client's worker. -/
def post (tasks : List Task) (s : Client F) : Client F := { s with posted := s.posted ++ tasks }

/-- `close_socket`. -/
def closeSocket (s : Client F) : Client F :=
  { s with
    isConnect := false
    socket := .closed
    outstanding := []
    completed := s.completed ++ s.outstanding.map Op.failed }

/-- `close_client_socket`. -/
def closeClientSocket (s : Client F) : Client F := closeSocket { s with isClientClose := true }

/-- `reconnect`. -/
def reconnect (s : Client F) : Client F := if s.isConnect = false then startConnect s else s

/-- `do_read`, up to its handler. -/
def doRead (s : Client F) : Client F := startOp .read s

/-- `connect_handler`. -/
def connectHandler (ok : Bool) (s : Client F) : Client F :=
  if ok then
    doRead { post [.message .connect] { s with isConnect := true } with recvLastTimer := s.now }
  else post [.message .disconnect] { s with isConnect := false }

/-- What the handlers of a read and of a write do with an error. -/
def connectionLost (s : Client F) : Client F :=
  let s := post [.message .disconnect] s
  if s.isClientClose = false then post [.reconnect] (closeSocket s) else s

/-- `set_write_time`. -/
def setWriteTime (s : Client F) : Client F := { s with writeLastTimer := s.now }

/-- The handler of `do_read` without an error. -/
def readHandler (fmt : IpacketFormat F) (length : Nat) (s : Client F) : Option (Client F) :=
  let bytes := s.recvBuffer.take length
  (fmt.formatRecvBuffer s.connectId bytes s.packetFormat).map fun r =>
    doRead { post (r.1.map fun p => .message (.packet p)) s with
      packetFormat := r.2
      recvLastTimer := s.now
      received := s.received ++ [bytes] }

/-- The handler of a completion. `async_write` starts again with what was not transferred. -/
def handler (fmt : IpacketFormat F) (c : Completion) (s : Client F) : Option (Client F) :=
  match c with
  | .connected => some (connectHandler true s)
  | .connectFailed => some (connectHandler false s)
  | .received length => readHandler fmt length s
  | .readFailed => some (connectionLost s)
  | .sent rest sendLength =>
    if rest.drop sendLength = [] then some (setWriteTime s)
    else some (startOp (.write (rest.drop sendLength)) s)
  | .writeFailed => some (setWriteTime (connectionLost s))

/-- `do_write_immediately`. -/
def doWriteImmediately (data : List UInt8) (s : Client F) : Client F := startOp (.write data) s

/-- `do_write_format_data`. Only the stream client looks at the flag. -/
def doWriteFormatData (fmt : IpacketFormat F) (commandId : Int16) (data : List UInt8)
    (length : Nat) (s : Client F) : Option (Client F) :=
  if s.transport = .tcp ∧ s.isConnect = false then some (post [.message .disconnect] s)
  else (formatted fmt s.connectId commandId data length s.packetFormat).map fun r =>
    doWriteImmediately r.1 { s with packetFormat := r.2 }

/-- `get_time_pass_seconds`, with one reading of the clock. Both differences are taken from
`recv_last_timer_`. -/
def getTimePassSeconds (s : Client F) : Int :=
  let recvPass := IIOClient.wholeSeconds (s.now - s.recvLastTimer)
  let writePass := IIOClient.wholeSeconds (s.now - s.recvLastTimer)
  if writePass > recvPass then IIOClient.toInt writePass else IIOClient.toInt recvPass

/-- `do_check_timeout`. -/
def doCheckTimeout (seconds : Int) (s : Client F) : Client F :=
  if s.isConnect = true then { s with messages := s.messages ++ [.timeCheck seconds] }
  else reconnect s

/-! ## The manager -/

/-- The first half of a `timer_check` round: the client's entry in the list of timeouts. -/
def timerSnapshot (s : Client F) : Option (Client F) :=
  if s.timeoutSession.isSome then none
  else if s.registered = true ∧ s.getTimePassSeconds > s.timerCheckSeconds then
    some { s with timeoutSession := some s.getTimePassSeconds }
  else some s

/-- The second half: the call that the entry leads to. -/
def timerCheck (s : Client F) : Option (Client F) :=
  s.timeoutSession.map fun seconds => doCheckTimeout seconds { s with timeoutSession := none }

/-- The worker runs the task in front. -/
def runTask (s : Client F) : Option (Client F) :=
  s.posted[s.ran]?.map fun task =>
    match task with
    | .message e => { s with ran := s.ran + 1, messages := s.messages ++ [e] }
    | .reconnect => reconnect { s with ran := s.ran + 1 }

/-- `close_client`; it returns true when the client is registered. -/
def closeClient (s : Client F) : Client F :=
  if s.registered = true then { closeClientSocket s with registered := false } else s

/-- `reconnect_server`. -/
def reconnectServer (s : Client F) : Client F := if s.registered = true then reconnect s else s

/-- `client_send_data`. -/
def clientSendData (sendBuff : List UInt8) (sendSize : Nat) (s : Client F) : Option (Client F) :=
  if s.registered = true then
    (CpacketFormat.cStrRead sendBuff sendSize).map fun data => doWriteImmediately data s
  else some s

/-- `client_send_format_data`. -/
def clientSendFormatData (fmt : IpacketFormat F) (commandId : Int16) (sendBuff : List UInt8)
    (sendSize : Nat) (s : Client F) : Option (Client F) :=
  if s.registered = true then doWriteFormatData fmt commandId sendBuff sendSize s else some s

/-- The client when `start` has returned. -/
def start (transport : Transport) (connectId : Nat) (timerCheckSeconds : Int) (pf : F) :
    Client F :=
  startConnect
    { transport := transport
      connectId := connectId
      packetFormat := pf
      timerCheckSeconds := timerCheckSeconds }

/-- A client of the example program, once `start` has returned. -/
def started (transport : Transport) : Client CpacketFormat :=
  start transport 1 30 (CpacketFormat.new (Vector.replicate maxBufferSize 0))

/-- What can happen next to one client: asio completes an operation, the I/O thread runs a handler,
the worker runs a task, `timer_check` collects or calls the client, or somebody calls the library.
Each is done as a whole; the accesses of which it consists are those of `Threads.step`. -/
inductive Action
  | complete (i : Nat) (outcome : Outcome)
  | handle (i : Nat)
  | runTask
  | timerSnapshot
  | timerCheck
  | closeClient
  | reconnectServer
  | clientSendData (sendBuff : List UInt8) (sendSize : Nat)
  | clientSendFormatData (commandId : Int16) (sendBuff : List UInt8) (sendSize : Nat)
  | tick (d : Int)

def step (fmt : IpacketFormat F) (s : Client F) : Action → Option (Client F)
  | .complete i outcome => complete i outcome s
  | .handle i =>
    s.completed[i]?.bind fun c =>
      handler fmt c { s with completed := s.completed.eraseIdx i }
  | .runTask => runTask s
  | .timerSnapshot => timerSnapshot s
  | .timerCheck => timerCheck s
  | .closeClient => some (closeClient s)
  | .reconnectServer => some (reconnectServer s)
  | .clientSendData sendBuff sendSize => clientSendData sendBuff sendSize s
  | .clientSendFormatData commandId sendBuff sendSize =>
    clientSendFormatData fmt commandId sendBuff sendSize s
  | .tick d => some { s with now := s.now + d }

end Client

end PssClient
