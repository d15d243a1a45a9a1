import PssClient.Client.Machine
import PssClient.Lib.Run

/-!
# A serial client

`CASIOTTYClient`: the port that it opens, the operations on it, and what acts on the client from the
moment it has been made. A port is opened by `start`, and again by every `reconnect`.

* `Device` — how the calls of the port's own functions end.
* `addSerialPort` / `start` / `reconnect` — these may leave with an exception; a result is then
  `Except.error`, next to the state in which the client is left.
* `step` — one action is one completion, one handler, one task, one `do_check_timeout` of a
  `timer_check` round, one call of the manager, or the clock. An exception on a worker ends the
  process; one out of a call of the manager is the caller's.
* `addSerialPort_opened` / `addSerialPort_notOpened` — what opening a port comes to.
-/

namespace PssClient

/-- An exception that leaves a function. -/
inductive Exception
  /-- `std::out_of_range`, of `character_size`. -/
  | outOfRange
  /-- `asio::system_error`, of `address::from_string`. -/
  | systemError
  deriving DecidableEq

/-- The constructor `character_size(unsigned int t)` of asio. -/
def characterSize (t : Nat) : Except Exception Nat :=
  if t < 5 ∨ t > 8 then .error .outOfRange else .ok t

/-- How the calls of a port end. The error codes of `set_option` are overwritten, and not read. -/
structure Device where
  -- `open`
  opened : Bool
  -- `get_option`
  gotOption : Bool
  deriving DecidableEq

/-- An operation on the port that has not completed. -/
inductive PortOp
  /-- `async_read_some`. -/
  | read
  /-- `async_write_some`. -/
  | write (data : List UInt8)
  deriving DecidableEq

/-- A completed operation whose handler has not run. -/
inductive PortCompletion
  | received (bytes : List UInt8)
  | readFailed
  | sent (sendLength : Nat)
  | writeFailed
  deriving DecidableEq

def PortOp.failed : PortOp → PortCompletion
  | .read => .readFailed
  | .write _ => .writeFailed

structure TtyClient (F : Type*) where
  connectId : Nat := 0
  isConnect : Bool := false
  isClientClose : Bool := false
  recvLastTimer : Int
  writeLastTimer : Int
  packetFormat : F
  ttyName : String := ""
  -- not initialised
  ttyPort : Int16
  -- `serial_port_param_`
  portOpen : Bool := false
  outstanding : List PortOp := []
  completed : List PortCompletion := []
  -- every task posted so far, and how many of them the worker has run
  posted : List Task := []
  ran : Nat := 0
  now : Int
  -- the calls of `do_message`
  messages : List Event := []
  -- the names given to `open`, and the values given to `baud_rate`
  opens : List String := []
  bauds : List UInt16 := []
  -- an exception has left the function of a worker
  terminated : Bool := false

namespace TtyClient

variable {F : Type*}

/-- The constructor. -/
def made (pf : F) (junk : Int16) (now : Int) : TtyClient F where
  recvLastTimer := now
  writeLastTimer := now
  packetFormat := pf
  ttyPort := junk
  now := now

/-! ## The port -/

/-- What is outstanding on the port is aborted. -/
def abort (s : TtyClient F) : TtyClient F :=
  { s with
    portOpen := false
    outstanding := []
    completed := s.completed ++ s.outstanding.map PortOp.failed }

/-- An operation on the port. On a closed one it fails at once. -/
def startOp (op : PortOp) (s : TtyClient F) : TtyClient F :=
  if s.portOpen = false then { s with completed := s.completed ++ [op.failed] }
  else { s with outstanding := s.outstanding ++ [op] }

/-- The operation at `i` ends. -/
def complete (i : Nat) (outcome : Outcome) (s : TtyClient F) : Option (TtyClient F) :=
  match s.outstanding[i]?, outcome with
  | some .read, .received bytes =>
    if bytes.length ≤ recvBufferMaxSize ∧ bytes ≠ [] then
      some { s with
        outstanding := s.outstanding.eraseIdx i
        completed := s.completed ++ [.received bytes] }
    else none
  | some (.write data), .sent sendLength =>
    -- the device takes any positive part
    if 0 < sendLength ∧ sendLength ≤ data.length then
      some { s with
        outstanding := s.outstanding.eraseIdx i
        completed := s.completed ++ [.sent sendLength] }
    else none
  | some op, .failed =>
    some { s with
      outstanding := s.outstanding.eraseIdx i
      completed := s.completed ++ [op.failed] }
  | _, _ => none

/-! ## The member functions -/

/-- `App_tms::instance()->AddMessage` with the client's worker. -/
def post (tasks : List Task) (s : TtyClient F) : TtyClient F :=
  { s with posted := s.posted ++ tasks }

def doRead (s : TtyClient F) : TtyClient F := startOp .read s

/-- `do_write_immediately`. A write without bytes does not reach the device. -/
def doWriteImmediately (data : List UInt8) (s : TtyClient F) : TtyClient F :=
  if data = [] then { s with completed := s.completed ++ [.sent 0] }
  else startOp (.write data) s

/-- `do_write_format_data`. -/
def doWriteFormatData (fmt : IpacketFormat F) (commandId : Int16) (data : List UInt8)
    (length : Nat) (s : TtyClient F) : Option (TtyClient F) :=
  if s.isConnect = false then some (post [.message .disconnect] s)
  else (formatted fmt s.connectId commandId data length s.packetFormat).map fun r =>
    doWriteImmediately r.1 { s with packetFormat := r.2 }

/-- `close_socket`. -/
def closeSocket (s : TtyClient F) : TtyClient F := { abort s with isConnect := false }

/-- `close_client_socket`. -/
def closeClientSocket (s : TtyClient F) : TtyClient F :=
  closeSocket { s with isClientClose := true }

/-- `set_write_time`. -/
def setWriteTime (s : TtyClient F) : TtyClient F := { s with writeLastTimer := s.now }

/-- `add_serial_port`. The old port goes with its `shared_ptr`. -/
def addSerialPort (ttyName : String) (ttyPort : UInt16) (charSize : Nat) (d : Device)
    (s : TtyClient F) : Except Exception Bool × TtyClient F :=
  let s := { abort s with opens := s.opens ++ [ttyName] }
  if d.opened = false then (.ok false, post [.message .disconnect] { s with isConnect := false })
  else
    let s := { s with portOpen := true, bauds := s.bauds ++ [ttyPort] }
    match characterSize charSize with
    | .error e => (.error e, s)
    | .ok _ => (.ok true, s)

/-- The default of the parameter `char_size`. -/
def defaultCharSize : Nat := 1

/-- `start`. -/
def start (connectId : Nat) (ttyName : String) (ttyPort : Int16) (d : Device)
    (s : TtyClient F) : Except Exception Bool × TtyClient F :=
  match addSerialPort ttyName ttyPort.toUInt16 defaultCharSize d
      { s with connectId := connectId } with
  | (.error e, s) => (.error e, s)
  | (.ok false, s) => (.ok false, s)
  | (.ok true, s) =>
    let s := { s with recvLastTimer := s.now, ttyName := ttyName, ttyPort := ttyPort }
    if d.gotOption = false then (.ok false, post [.message .disconnect] s)
    else (.ok true, doRead { s with isConnect := true })

/-- `reconnect`. It does not look at `is_connect_`. -/
def reconnect (d : Device) (s : TtyClient F) : Except Exception Unit × TtyClient F :=
  match addSerialPort s.ttyName s.ttyPort.toUInt16 defaultCharSize d s with
  | (.error e, s) => (.error e, s)
  | (.ok false, s) => (.ok (), s)
  | (.ok true, s) =>
    let s := { s with recvLastTimer := s.now }
    if d.gotOption = false then (.ok (), post [.message .disconnect] s)
    else (.ok (), doRead { s with isConnect := true })

/-- `do_check_timeout`. -/
def doCheckTimeout (seconds : Int) (d : Device) (s : TtyClient F) :
    Except Exception Unit × TtyClient F :=
  if s.isConnect = true then (.ok (), { s with messages := s.messages ++ [.timeCheck seconds] })
  else reconnect d s

/-- What the handlers of a read and of a write do with an error. -/
def connectionLost (s : TtyClient F) : TtyClient F :=
  let s := post [.message .disconnect] s
  if s.isClientClose = false then post [.reconnect] (closeSocket s) else s

/-- The handler of `do_read` for received bytes. -/
def readHandler (fmt : IpacketFormat F) (bytes : List UInt8) (s : TtyClient F) :
    Option (TtyClient F) :=
  (fmt.formatRecvBuffer s.connectId bytes s.packetFormat).map fun r =>
    doRead { post (r.1.map fun p => .message (.packet p)) s with
      packetFormat := r.2
      recvLastTimer := s.now }

/-- The handler of a completion. That of a write does not look at `send_length`. -/
def handler (fmt : IpacketFormat F) (c : PortCompletion) (s : TtyClient F) :
    Option (TtyClient F) :=
  match c with
  | .received bytes => readHandler fmt bytes s
  | .readFailed => some (connectionLost s)
  | .sent _ => some (setWriteTime s)
  | .writeFailed => some (setWriteTime (connectionLost s))

/-! ## Steps -/

/-- A function called by a worker. Nothing catches what it throws. -/
def onWorker (r : Except Exception Unit × TtyClient F) : TtyClient F :=
  match r with
  | (.ok (), s) => s
  | (.error _, s) => { s with terminated := true }

/-- The worker runs the task in front. -/
def runTask (d : Device) (s : TtyClient F) : Option (TtyClient F) :=
  s.posted[s.ran]?.map fun task =>
    match task with
    | .message e => { s with ran := s.ran + 1, messages := s.messages ++ [e] }
    | .reconnect => onWorker (reconnect d { s with ran := s.ran + 1 })

inductive Action
  | complete (i : Nat) (outcome : Outcome)
  | handle (i : Nat)
  | runTask (d : Device)
  /-- A `timer_check` round comes to the client. -/
  | doCheckTimeout (seconds : Int) (d : Device)
  | reconnectServer (d : Device)
  | clientSendData (sendBuff : List UInt8) (sendSize : Nat)
  | clientSendFormatData (commandId : Int16) (sendBuff : List UInt8) (sendSize : Nat)
  | closeClient
  | tick (d : Nat)

def step (fmt : IpacketFormat F) (s : TtyClient F) (a : Action) : Option (TtyClient F) :=
  if s.terminated = true then none
  else
    match a with
    | .complete i outcome => complete i outcome s
    | .handle i =>
      s.completed[i]?.bind fun c =>
        handler fmt c { s with completed := s.completed.eraseIdx i }
    | .runTask d => runTask d s
    | .doCheckTimeout seconds d => some (onWorker (doCheckTimeout seconds d s))
    | .reconnectServer d => some (reconnect d s).2
    | .clientSendData sendBuff sendSize =>
      (CpacketFormat.cStrRead sendBuff sendSize).map fun data => doWriteImmediately data s
    | .clientSendFormatData commandId sendBuff sendSize =>
      doWriteFormatData fmt commandId sendBuff sendSize s
    | .closeClient => some (closeClientSocket s)
    | .tick d => some { s with now := s.now + d }

/-! ## What opening a port comes to -/

/-- The port did not open. -/
def notOpened (ttyName : String) (s : TtyClient F) : TtyClient F :=
  post [.message .disconnect] { abort s with opens := s.opens ++ [ttyName], isConnect := false }

/-- The port has been opened, and its baud rate set. -/
def justOpened (ttyName : String) (ttyPort : UInt16) (s : TtyClient F) : TtyClient F :=
  { abort s with
    portOpen := true
    opens := s.opens ++ [ttyName]
    bauds := s.bauds ++ [ttyPort] }

theorem addSerialPort_notOpened (ttyName : String) (ttyPort : UInt16) (charSize : Nat) {d : Device}
    (h : d.opened = false) (s : TtyClient F) :
    addSerialPort ttyName ttyPort charSize d s = (.ok false, notOpened ttyName s) := if_pos h

theorem addSerialPort_opened (ttyName : String) (ttyPort : UInt16) (charSize : Nat) {d : Device}
    (h : d.opened = true) (s : TtyClient F) :
    addSerialPort ttyName ttyPort charSize d s
      = ((characterSize charSize).map fun _ => true, justOpened ttyName ttyPort s) := by
  rw [addSerialPort, if_neg (by rw [h]; decide)]
  dsimp only
  cases characterSize charSize <;> rfl

/-- The default is not a character size. -/
theorem characterSize_default : characterSize defaultCharSize = .error .outOfRange := rfl

theorem start_notOpened (connectId : Nat) (ttyName : String) (ttyPort : Int16) {d : Device}
    (h : d.opened = false) (s : TtyClient F) :
    start connectId ttyName ttyPort d s
      = (.ok false, notOpened ttyName { s with connectId := connectId }) := by
  rw [start, addSerialPort_notOpened _ _ _ h]

theorem start_opened (connectId : Nat) (ttyName : String) (ttyPort : Int16) {d : Device}
    (h : d.opened = true) (s : TtyClient F) :
    start connectId ttyName ttyPort d s
      = (.error .outOfRange,
          justOpened ttyName ttyPort.toUInt16 { s with connectId := connectId }) := by
  rw [start, addSerialPort_opened _ _ _ h, characterSize_default]
  rfl

theorem reconnect_notOpened {d : Device} (h : d.opened = false) (s : TtyClient F) :
    reconnect d s = (.ok (), notOpened s.ttyName s) := by
  rw [reconnect, addSerialPort_notOpened _ _ _ h]

theorem reconnect_opened {d : Device} (h : d.opened = true) (s : TtyClient F) :
    reconnect d s = (.error .outOfRange, justOpened s.ttyName s.ttyPort.toUInt16 s) := by
  rw [reconnect, addSerialPort_opened _ _ _ h, characterSize_default]
  rfl

end TtyClient

end PssClient
