import Mathlib.Logic.Function.Basic
import PssClient.Client.Tty
import PssClient.Lib.Run

/-!
# The table of clients

`CClient_Manager` from `run` on: `asio_client_list_`, the calls that look for a client in it, and
the rounds of `timer_check`. What is sent and received, and the messages that are posted, are left
out; what one client does with them is in `PssClient.Client.Machine` and `PssClient.Client.Tty`.

* `IIOClient` — an object of any of the three classes, with its two time stamps, the operations that
  it has asked for, and what has happened to it.
* `ClientManager` — the table, the objects under the ids that they have been given, and the round of
  `timer_check` that worker 0 is in.
* `step` — one action is one call of the manager, one handler, one task, one half of a round, or the
  clock. An exception out of a call is the caller's; on a worker it ends the process.
* `Evolves` / `Does` / `does_of_step` — what a step does to an object, and to the table.

`address::from_string` ends in a function of the operating system. It is the parameter `fromString`,
which is `none` where it throws.
-/

namespace PssClient

/-- The classes that implement `IIOClient`. -/
inductive ClientKind
  | tcp
  | udp
  | tty
  deriving DecidableEq

/-- An object. Times are nanoseconds of the system clock. -/
structure IIOClient (Address : Type*) where
  kind : ClientKind
  serverIp : String := ""
  serverPort : Int16 := 0
  isConnect : Bool := false
  isClientClose : Bool := false
  recvLastTimer : Int
  writeLastTimer : Int
  -- the operations whose handlers have not run
  connecting : Nat := 0
  reading : Nat := 0
  writing : Nat := 0
  -- the `reconnect` tasks that have not run
  reconnects : Nat := 0
  -- the calls of `async_connect`
  connects : List (Address × UInt16) := []
  -- the calls of `do_message` for a timeout
  timeChecks : List Int := []
  -- when the object was made, when it connected or received, and when a write completed, the last
  -- time first
  constructed : Int
  receives : List Int := []
  writes : List Int := []
  -- `from_string` has thrown in `start`
  startFailed : Bool := false

namespace IIOClient

variable {Address : Type*} (fromString : String → Option Address)

/-- The constructors. -/
def made (kind : ClientKind) (now : Int) : IIOClient Address where
  kind := kind
  recvLastTimer := now
  writeLastTimer := now
  constructed := now

/-! ## The member functions -/

/-- `recv_last_timer_ = system_clock::now()`. -/
def setRecvTime (now : Int) (o : IIOClient Address) : IIOClient Address :=
  { o with recvLastTimer := now, receives := now :: o.receives }

/-- `set_write_time`. -/
def setWriteTime (now : Int) (o : IIOClient Address) : IIOClient Address :=
  { o with writeLastTimer := now, writes := now :: o.writes }

/-- `get_time_pass_seconds`, with one reading of the clock. Both differences are taken from
`recv_last_timer_`. -/
def getTimePassSeconds (now : Int) (o : IIOClient Address) : Int :=
  let recvPass := wholeSeconds (now - o.recvLastTimer)
  let writePass := wholeSeconds (now - o.recvLastTimer)
  if writePass > recvPass then toInt writePass else toInt recvPass

/-- The parse of the address, and `async_connect`. -/
def connect (o : IIOClient Address) : Except Exception (IIOClient Address) :=
  match fromString o.serverIp with
  | none => .error .systemError
  | some address =>
    .ok { o with
      connecting := o.connecting + 1
      connects := o.connects ++ [(address, o.serverPort.toUInt16)] }

/-- `start` of a TCP and of a UDP client. -/
def start (serverIp : String) (serverPort : Int16) (o : IIOClient Address) :
    Except Exception Bool × IIOClient Address :=
  let o := { o with serverIp := serverIp, serverPort := serverPort }
  match connect fromString o with
  | .error e => (.error e, { o with startFailed := true })
  | .ok o => (.ok true, o)

/-- What `start` and `reconnect` of a serial client have in common. -/
def openPort (now : Int) (d : Device) (o : IIOClient Address) :
    Except Exception Bool × IIOClient Address :=
  if d.opened = false then (.ok false, { o with isConnect := false })
  else
    match characterSize TtyClient.defaultCharSize with
    | .error e => (.error e, o)
    | .ok _ =>
      let o := setRecvTime now o
      if d.gotOption = false then (.ok false, o)
      else (.ok true, { o with isConnect := true, reading := o.reading + 1 })

/-- `reconnect`. -/
def reconnect (now : Int) (d : Device) (o : IIOClient Address) :
    Except Exception Unit × IIOClient Address :=
  if o.kind = .tty then ((openPort now d o).1.map fun _ => (), (openPort now d o).2)
  else if o.isConnect = false then
    match connect fromString o with
    | .error e => (.error e, o)
    | .ok o => (.ok (), o)
  else (.ok (), o)

/-- `do_check_timeout`. -/
def doCheckTimeout (seconds now : Int) (d : Device) (o : IIOClient Address) :
    Except Exception Unit × IIOClient Address :=
  if o.isConnect = true then (.ok (), { o with timeChecks := o.timeChecks ++ [seconds] })
  else reconnect fromString now d o

/-- `close_client_socket`. -/
def closeClientSocket (o : IIOClient Address) : IIOClient Address :=
  { o with isClientClose := true, isConnect := false }

/-- What the handlers of a read and of a write do with an error. -/
def connectionLost (o : IIOClient Address) : IIOClient Address :=
  if o.isClientClose = false then { o with isConnect := false, reconnects := o.reconnects + 1 }
  else o

/-- `connect_handler`. -/
def connectHandler (now : Int) (ok : Bool) (o : IIOClient Address) : IIOClient Address :=
  if ok then { setRecvTime now o with isConnect := true, reading := o.reading + 1 }
  else { o with isConnect := false }

/-- The handler of `do_read`. -/
def readHandler (now : Int) (ok : Bool) (o : IIOClient Address) : IIOClient Address :=
  if ok then { setRecvTime now o with reading := o.reading + 1 } else connectionLost o

/-- The handler of `do_write_immediately`. -/
def writeHandler (now : Int) (ok : Bool) (o : IIOClient Address) : IIOClient Address :=
  setWriteTime now (if ok then o else connectionLost o)

/-- `do_write_immediately`. -/
def doWriteImmediately (o : IIOClient Address) : IIOClient Address :=
  { o with writing := o.writing + 1 }

/-- `do_write_format_data`. A UDP client does not look at the flag. -/
def doWriteFormatData (o : IIOClient Address) : IIOClient Address :=
  if o.kind ≠ .udp ∧ o.isConnect = false then o else doWriteImmediately o

end IIOClient

/-! ## The manager -/

/-- The manager, as far as its table and the rounds of `timer_check` go. The objects are kept under
the ids that they have been given, also when they are not in the table any more: tasks and handlers
hold them. -/
structure ClientManager (Address : Type*) where
  -- an id that has not been given out has an object that nothing has been done with
  objects : Nat → IIOClient Address
  -- the keys, in their order
  asioClientList : List Nat := []
  currClientId : Nat := 1
  timerCheckSeconds : Int
  -- `thread_is_run_`, which the I/O thread sets when it starts
  threadIsRun : Bool := true
  now : Int
  -- what is left of `timeout_session_list` in the round that is running
  timeoutSessionList : List (Nat × Int) := []
  -- the entries of these lists so far, and the calls of `do_check_timeout` for them
  collected : List (Nat × Int) := []
  checked : List (Nat × Int) := []
  -- the clients that `do_check_timeout` has called `reconnect` for
  timerReconnects : List Nat := []
  -- the client whose `reconnect` has thrown on a worker
  uncaught : Option Nat := none

namespace ClientManager

variable {Address : Type*} (fromString : String → Option Address)

open IIOClient

/-- When `run` has returned. -/
def initial (timerCheckSeconds now : Int) : ClientManager Address where
  objects := fun _ => made .tty now
  timerCheckSeconds := timerCheckSeconds
  now := now

def setClient (id : Nat) (o : IIOClient Address) (s : ClientManager Address) :
    ClientManager Address :=
  { s with objects := Function.update s.objects id o }

/-- The call that `start_client_tcp`, `start_client_udp` and `start_client_tty` have in common. The
entry is in the table before `start` is called. -/
def startClient (kind : ClientKind)
    (start : IIOClient Address → Except Exception Bool × IIOClient Address)
    (s : ClientManager Address) : Except Exception Nat × ClientManager Address :=
  let clientId := s.currClientId
  let s := { s with
    currClientId := clientId + 1
    asioClientList := s.asioClientList ++ [clientId] }
  let r := start (made kind s.now)
  (r.1.map fun _ => clientId, setClient clientId r.2 s)

theorem startClient_eq (kind : ClientKind)
    (start : IIOClient Address → Except Exception Bool × IIOClient Address)
    (s : ClientManager Address) :
    startClient kind start s
      = ((start (made kind s.now)).1.map fun _ => s.currClientId,
          { setClient s.currClientId (start (made kind s.now)).2 s with
            currClientId := s.currClientId + 1
            asioClientList := s.asioClientList ++ [s.currClientId] }) := rfl

/-- `start_client_tcp`. -/
def startClientTcp (serverIp : String) (serverPort : Int16) (s : ClientManager Address) :
    Except Exception Nat × ClientManager Address :=
  startClient .tcp (start fromString serverIp serverPort) s

/-- `start_client_udp`. -/
def startClientUdp (serverIp : String) (serverPort : Int16) (s : ClientManager Address) :
    Except Exception Nat × ClientManager Address :=
  startClient .udp (start fromString serverIp serverPort) s

/-- `start_client_tty`. -/
def startClientTty (d : Device) (s : ClientManager Address) :
    Except Exception Nat × ClientManager Address :=
  startClient .tty (openPort s.now d) s

/-- A call that looks for the client in the table. -/
def withClient (id : Nat) (f : IIOClient Address → IIOClient Address) (s : ClientManager Address) :
    ClientManager Address :=
  if id ∈ s.asioClientList then setClient id (f (s.objects id)) s else s

/-- `close_client`. -/
def closeClient (id : Nat) (s : ClientManager Address) : ClientManager Address :=
  if id ∈ s.asioClientList then
    { setClient id (closeClientSocket (s.objects id)) s with
      asioClientList := s.asioClientList.filter (· ≠ id) }
  else s

/-- `close`, without the stop of the threads. -/
def close (s : ClientManager Address) : ClientManager Address :=
  if s.threadIsRun = true then
    { s with
      objects := fun id =>
        if id ∈ s.asioClientList then closeClientSocket (s.objects id) else s.objects id
      asioClientList := []
      threadIsRun := false }
  else s

/-- An operation of the client has completed, and its handler runs. -/
def handle (pending : Nat) (id : Nat) (o : IIOClient Address) (s : ClientManager Address) :
    Option (ClientManager Address) :=
  if 0 < pending then some (setClient id o s) else none

/-- The client's entry in `timeout_session_list`. -/
def timeout (s : ClientManager Address) (id : Nat) : Option (Nat × Int) :=
  if getTimePassSeconds s.now (s.objects id) > s.timerCheckSeconds then
    some (id, getTimePassSeconds s.now (s.objects id))
  else none

/-- The first half of a round of `timer_check`, under the lock. -/
def timerSnapshot (s : ClientManager Address) : Option (ClientManager Address) :=
  if s.timeoutSessionList = [] then
    some { s with
      timeoutSessionList := s.asioClientList.filterMap s.timeout
      collected := s.collected ++ s.asioClientList.filterMap s.timeout }
  else none

/-- Nothing catches what a function throws on a worker. -/
def thrownBy (id : Nat) : Except Exception Unit → Option Nat
  | .ok () => none
  | .error _ => some id

/-- The second half: `do_check_timeout` for the next entry of the list. -/
def timerCheck (d : Device) (s : ClientManager Address) : Option (ClientManager Address) :=
  match s.timeoutSessionList with
  | [] => none
  | (id, seconds) :: rest =>
    let r := doCheckTimeout fromString seconds s.now d (s.objects id)
    some { setClient id r.2 s with
      timeoutSessionList := rest
      checked := s.checked ++ [(id, seconds)]
      timerReconnects :=
        if (s.objects id).isConnect = true then s.timerReconnects else s.timerReconnects ++ [id]
      uncaught := thrownBy id r.1 }

/-- The client's worker runs a `reconnect` task. -/
def runTask (id : Nat) (d : Device) (s : ClientManager Address) : Option (ClientManager Address) :=
  if 0 < (s.objects id).reconnects then
    let r := reconnect fromString s.now d
      { s.objects id with reconnects := (s.objects id).reconnects - 1 }
    some { setClient id r.2 s with uncaught := thrownBy id r.1 }
  else none

/-- What can happen next: a call of the manager, the handler of an operation that has completed, a
task, a half of a round, or some time. Whatever the source leaves to the environment is an argument:
how an operation ends, what the device answers, how much time goes by. -/
inductive Action
  | startClientTcp (serverIp : String) (serverPort : Int16)
  | startClientUdp (serverIp : String) (serverPort : Int16)
  | startClientTty (d : Device)
  | clientSendData (id : Nat)
  | clientSendFormatData (id : Nat)
  | closeClient (id : Nat)
  | reconnectServer (id : Nat) (d : Device)
  | close
  | connectHandler (id : Nat) (ok : Bool)
  | readHandler (id : Nat) (ok : Bool)
  | writeHandler (id : Nat) (ok : Bool)
  | runTask (id : Nat) (d : Device)
  | timerSnapshot
  | timerCheck (d : Device)
  | tick (d : Nat)

def step (s : ClientManager Address) (a : Action) : Option (ClientManager Address) :=
  if s.uncaught.isSome then none
  else
    match a with
    | .startClientTcp serverIp serverPort =>
      some (startClientTcp fromString serverIp serverPort s).2
    | .startClientUdp serverIp serverPort =>
      some (startClientUdp fromString serverIp serverPort s).2
    | .startClientTty d => some (startClientTty d s).2
    | .clientSendData id => some (withClient id doWriteImmediately s)
    | .clientSendFormatData id => some (withClient id doWriteFormatData s)
    | .closeClient id => some (closeClient id s)
    | .reconnectServer id d =>
      some (withClient id (fun o => (reconnect fromString s.now d o).2) s)
    | .close => some (close s)
    | .connectHandler id ok =>
      let o := s.objects id
      handle o.connecting id
        (connectHandler s.now ok { o with connecting := o.connecting - 1 }) s
    | .readHandler id ok =>
      let o := s.objects id
      handle o.reading id (readHandler s.now ok { o with reading := o.reading - 1 }) s
    | .writeHandler id ok =>
      let o := s.objects id
      handle o.writing id (writeHandler s.now ok { o with writing := o.writing - 1 }) s
    | .runTask id d => runTask fromString id d s
    | .timerSnapshot => timerSnapshot s
    | .timerCheck d => timerCheck fromString d s
    | .tick d => some { s with now := s.now + d }

end ClientManager

/-! ## What a step does -/

namespace IIOClient

variable {Address : Type*} {fromString : String → Option Address}

/-- What an object is to connect to, its two time stamps, and when they were set before. -/
def record (o : IIOClient Address) :
    ClientKind × String × Bool × Int × (Int × List Int) × (Int × List Int) :=
  (o.kind, o.serverIp, o.startFailed, o.constructed, (o.recvLastTimer, o.receives),
    (o.writeLastTimer, o.writes))

/-- What a member function other than `start` does to this: it sets one of the time stamps, or
nothing. -/
inductive Evolves (now : Int) (o o' : IIOClient Address) : Prop
  | untouched (h : o'.record = o.record)
  | received (h : o'.record = (setRecvTime now o).record)
  | written (h : o'.record = (setWriteTime now o).record)

theorem Evolves.kind_eq {now : Int} {o o' : IIOClient Address} (h : Evolves now o o') :
    o'.kind = o.kind := by
  cases h with
  | untouched h | received h | written h => exact congrArg Prod.fst h

/-- What is pending is not part of it. -/
theorem Evolves.of_pending {now : Int} {o o' : IIOClient Address}
    {connecting reading writing reconnects : Nat}
    (h : Evolves now { o with
      connecting := connecting
      reading := reading
      writing := writing
      reconnects := reconnects } o') : Evolves now o o' := by
  cases h with
  | untouched h => exact .untouched h
  | received h => exact .received h
  | written h => exact .written h

theorem evolves_connect {now : Int} {o o' : IIOClient Address}
    (h : connect fromString o = .ok o') : Evolves now o o' := by
  unfold connect at h
  split at h
  case h_1 => cases h
  case h_2 =>
    cases h
    exact .untouched rfl

theorem evolves_openPort (now : Int) (d : Device) (o : IIOClient Address) :
    Evolves now o (openPort now d o).2 := by
  unfold openPort
  split
  · exact .untouched rfl
  · split
    · exact .untouched rfl
    · dsimp only
      split <;> exact .received rfl

theorem evolves_reconnect (now : Int) (d : Device) (o : IIOClient Address) :
    Evolves now o (reconnect fromString now d o).2 := by
  unfold reconnect
  split
  · exact evolves_openPort now d o
  · split
    · split
      case h_1 => exact .untouched rfl
      case h_2 o' hconnect => exact evolves_connect hconnect
    · exact .untouched rfl

theorem evolves_doCheckTimeout (seconds now : Int) (d : Device) (o : IIOClient Address) :
    Evolves now o (doCheckTimeout fromString seconds now d o).2 := by
  unfold doCheckTimeout
  split
  · exact .untouched rfl
  · exact evolves_reconnect now d o

theorem evolves_connectHandler (now : Int) (ok : Bool) (o : IIOClient Address) :
    Evolves now o (connectHandler now ok o) := by
  unfold connectHandler
  split
  · exact .received rfl
  · exact .untouched rfl

theorem evolves_connectionLost (now : Int) (o : IIOClient Address) :
    Evolves now o (connectionLost o) := by
  unfold connectionLost
  split
  · exact .untouched rfl
  · exact .untouched rfl

theorem evolves_readHandler (now : Int) (ok : Bool) (o : IIOClient Address) :
    Evolves now o (readHandler now ok o) := by
  unfold readHandler
  split
  · exact .received rfl
  · exact evolves_connectionLost now o

theorem evolves_writeHandler (now : Int) (ok : Bool) (o : IIOClient Address) :
    Evolves now o (writeHandler now ok o) := by
  unfold writeHandler
  split
  · exact .written rfl
  · unfold connectionLost
    split <;> exact .written rfl

theorem evolves_doWriteFormatData (now : Int) (o : IIOClient Address) :
    Evolves now o (doWriteFormatData o) := by
  unfold doWriteFormatData
  split
  · exact .untouched rfl
  · exact .untouched rfl

end IIOClient

namespace ClientManager

variable {Address : Type*} {fromString : String → Option Address}

open IIOClient

/-- The object that a call of the manager has made, when its `start` has returned or thrown. -/
inductive Made (fromString : String → Option Address) (now : Int) :
    Action → IIOClient Address → Prop
  | tcp (serverIp : String) (serverPort : Int16) :
    Made fromString now (.startClientTcp serverIp serverPort)
      (start fromString serverIp serverPort (made .tcp now)).2
  | udp (serverIp : String) (serverPort : Int16) :
    Made fromString now (.startClientUdp serverIp serverPort)
      (start fromString serverIp serverPort (made .udp now)).2
  | tty (d : Device) : Made fromString now (.startClientTty d) (openPort now d (made .tty now)).2

/-- What an action does. -/
inductive Does (fromString : String → Option Address) (s : ClientManager Address) :
    Action → ClientManager Address → Prop
  /-- A call of one of the three starts. -/
  | started {a : Action} {o : IIOClient Address} (hmade : Made fromString s.now a o) :
    Does fromString s a { setClient s.currClientId o s with
      currClientId := s.currClientId + 1
      asioClientList := s.asioClientList ++ [s.currClientId] }
  /-- A handler, or a call that looks for a client; it may remove the entry. -/
  | client {a : Action} (id : Nat) {o : IIOClient Address} {list : List Nat}
      (ho : Evolves s.now (s.objects id) o) (hlist : list ⊆ s.asioClientList) :
    Does fromString s a { setClient id o s with asioClientList := list }
  | close : Does fromString s .close (close s)
  /-- A `reconnect` task. -/
  | task (id : Nat) (d : Device) (hpending : 0 < (s.objects id).reconnects) :
    Does fromString s (.runTask id d)
      { setClient id (reconnect fromString s.now d
          { s.objects id with reconnects := (s.objects id).reconnects - 1 }).2 s with
        uncaught := thrownBy id (reconnect fromString s.now d
          { s.objects id with reconnects := (s.objects id).reconnects - 1 }).1 }
  | snapshot (hidle : s.timeoutSessionList = []) :
    Does fromString s .timerSnapshot { s with
      timeoutSessionList := s.asioClientList.filterMap s.timeout
      collected := s.collected ++ s.asioClientList.filterMap s.timeout }
  | check (d : Device) (id : Nat) (seconds : Int) (rest : List (Nat × Int))
      (hnext : s.timeoutSessionList = (id, seconds) :: rest) :
    Does fromString s (.timerCheck d)
      { setClient id (doCheckTimeout fromString seconds s.now d (s.objects id)).2 s with
        timeoutSessionList := rest
        checked := s.checked ++ [(id, seconds)]
        timerReconnects :=
          if (s.objects id).isConnect = true then s.timerReconnects
          else s.timerReconnects ++ [id]
        uncaught := thrownBy id (doCheckTimeout fromString seconds s.now d (s.objects id)).1 }
  | tick (d : Nat) : Does fromString s (.tick d) { s with now := s.now + d }

theorem evolves_setClient {s : ClientManager Address} {id : Nat} {o : IIOClient Address}
    (ho : Evolves s.now (s.objects id) o) (i : Nat) :
    Evolves s.now (s.objects i) (Function.update s.objects id o i) :=
  (Function.forall_update_iff s.objects fun i => Evolves s.now (s.objects i)).mpr
    ⟨ho, fun _ _ => .untouched rfl⟩ i

/-- `close` touches the objects of the table, and no list of `timer_check`. -/
theorem close_spec (s : ClientManager Address) :
    (∀ i, Evolves s.now (s.objects i) ((close s).objects i)) ∧ (close s).now = s.now ∧
      (close s).uncaught = s.uncaught ∧ (close s).checked = s.checked ∧
      (close s).collected = s.collected ∧
      (close s).timeoutSessionList = s.timeoutSessionList := by
  unfold close
  split
  · refine ⟨fun i => ?_, rfl, rfl, rfl, rfl, rfl⟩
    dsimp only
    split <;> exact .untouched rfl
  · exact ⟨fun _ => .untouched rfl, rfl, rfl, rfl, rfl, rfl⟩

/-- The table is looked into, and nothing is done. -/
theorem does_nothing (s : ClientManager Address) (a : Action) : Does fromString s a s := by
  have hsame : Does fromString s a
      { setClient 0 (s.objects 0) s with asioClientList := s.asioClientList } :=
    .client 0 (.untouched rfl) (List.Subset.refl _)
  rwa [setClient, Function.update_eq_self] at hsame

theorem does_withClient {s : ClientManager Address} (a : Action) (id : Nat)
    {f : IIOClient Address → IIOClient Address}
    (hf : Evolves s.now (s.objects id) (f (s.objects id))) :
    Does fromString s a (withClient id f s) := by
  unfold withClient
  split
  · exact .client id hf (List.Subset.refl _)
  · exact does_nothing s a

theorem does_handle {s s' : ClientManager Address} (a : Action) {pending id : Nat}
    {o : IIOClient Address} (ho : Evolves s.now (s.objects id) o)
    (h : handle pending id o s = some s') : Does fromString s a s' := by
  obtain ⟨-, heq⟩ := Option.ite_none_right_eq_some.mp h
  exact Option.some.inj heq ▸ .client id ho (List.Subset.refl _)

/-- The inversion of `step`. What is said of the objects is put as `Evolves`, so that the invariants
of the table need not know which function of which class has run. -/
theorem does_of_step {s s' : ClientManager Address} {a : Action}
    (h : step fromString s a = some s') : Does fromString s a s' := by
  unfold step at h
  obtain ⟨-, h⟩ := Option.ite_none_left_eq_some.mp h
  cases a with
  | startClientTcp serverIp serverPort =>
    exact Option.some.inj h ▸ .started (.tcp serverIp serverPort)
  | startClientUdp serverIp serverPort =>
    exact Option.some.inj h ▸ .started (.udp serverIp serverPort)
  | startClientTty d => exact Option.some.inj h ▸ .started (.tty d)
  | clientSendData id =>
    exact Option.some.inj h ▸ does_withClient _ id (.untouched rfl)
  | clientSendFormatData id =>
    exact Option.some.inj h ▸ does_withClient _ id (evolves_doWriteFormatData _ _)
  | closeClient id =>
    cases h
    unfold closeClient
    split
    · exact .client id (.untouched rfl) List.filter_sublist.subset
    · exact does_nothing s _
  | reconnectServer id d =>
    exact Option.some.inj h ▸ does_withClient _ id (evolves_reconnect _ _ _)
  | close => exact Option.some.inj h ▸ .close
  | connectHandler id ok => exact does_handle _ (evolves_connectHandler _ _ _).of_pending h
  | readHandler id ok => exact does_handle _ (evolves_readHandler _ _ _).of_pending h
  | writeHandler id ok => exact does_handle _ (evolves_writeHandler _ _ _).of_pending h
  | runTask id d =>
    obtain ⟨hpending, heq⟩ := Option.ite_none_right_eq_some.mp h
    exact Option.some.inj heq ▸ .task id d hpending
  | timerSnapshot =>
    obtain ⟨hidle, heq⟩ := Option.ite_none_right_eq_some.mp h
    exact Option.some.inj heq ▸ .snapshot hidle
  | timerCheck d =>
    replace h : timerCheck fromString d s = some s' := h
    unfold timerCheck at h
    split at h
    case h_1 => cases h
    case h_2 id seconds rest hnext => exact Option.some.inj h ▸ .check d id seconds rest hnext
  | tick d => exact Option.some.inj h ▸ .tick d

end ClientManager

end PssClient
