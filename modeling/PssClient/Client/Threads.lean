import PssClient.Client.Rules
import PssClient.Lib.Run

/-!
# The threads of a client, access by access

`Client.step` takes a handler, a task or a call of the manager as one action. They run on different
threads, and only the manager's calls and the first loop of `timer_check` exclude one another, by
`thread_mutex_`: between any two accesses of a routine to what the threads share, the others can go
on. Here each of the routines is a list of such accesses.

## The architecture

* `IoAccess` / `TaskAccess` / `CallAccess` — the accesses of the handlers, of the tasks and the
  calls of `do_check_timeout`, and of the manager's calls. What a test guards comes into the list
  when the test has been passed.
* `Threads` / `step` — the client and what each thread has still to do of the routine that it runs.
  The I/O thread, the client's worker, the worker that runs `timer_check` and the thread that holds
  `thread_mutex_` each run one at a time.
* `Does` / `does_of_step` — what an action does, for the proofs by cases.
-/

namespace PssClient

open Machine

/-- What a handler does, one access at a time: each is a read or a write of a flag, an operation on
the socket, or a task that is posted. Between two of them any other thread may come. -/
inductive IoAccess
  /-- `is_connect_ = b`. -/
  | setConnect (b : Bool)
  /-- `AddMessage`, with a lambda that captures `self` or does not. -/
  | post (task : Task) (self : Bool)
  /-- `recv_last_timer_ = system_clock::now()`. -/
  | setRecvTime
  /-- `set_write_time`. -/
  | setWriteTime
  /-- `do_read`. -/
  | read
  /-- `async_write` goes on with what was not transferred. -/
  | write (rest : List UInt8)
  /-- `is_client_close_ == false`. -/
  | testClose
  /-- `socket_.close()`. -/
  | close
  deriving DecidableEq

/-- What a task and a call of `do_check_timeout` do. -/
inductive TaskAccess
  /-- `do_message`. -/
  | message (e : Event)
  /-- `is_connect_ == true`, in `do_check_timeout`. -/
  | checkTimeout (seconds : Int)
  /-- `false == is_connect_`, in `reconnect`. -/
  | testConnect
  /-- `async_connect`. -/
  | connect
  deriving DecidableEq

/-- What a call of the manager does when it has found the client. -/
inductive CallAccess
  /-- `is_client_close_ = true`. -/
  | setClientClose
  /-- `is_connect_ = false`, in `close_socket`. -/
  | clearConnect
  /-- `socket_.close()`. -/
  | close
  /-- `asio_client_list_.erase(f)`; then `close_client` returns true. -/
  | erase
  /-- `reconnect`. -/
  | reconnect (a : TaskAccess)
  /-- `do_write_format_data`, up to `do_write_immediately`. -/
  | format (commandId : Int16) (data : List UInt8) (length : Nat)
  /-- The message of a refused send. -/
  | refuse
  /-- `do_write_immediately`. -/
  | write (data : List UInt8)
  deriving DecidableEq

variable {F : Type*}

/-! ## The accesses -/

def IoAccess.effect (s : Client F) : IoAccess → Client F
  | .setConnect b => { s with isConnect := b }
  | .post task _ => s.post [task]
  | .setRecvTime => { s with recvLastTimer := s.now }
  | .setWriteTime => s.setWriteTime
  | .read => s.doRead
  | .write rest => s.startOp (.write rest)
  | .testClose => s
  | .close =>
    { s with
      socket := .closed
      outstanding := []
      completed := s.completed ++ s.outstanding.map Op.failed }

/-- What comes next when a test has been passed: `close_socket`, and the task that reconnects. -/
def IoAccess.next (s : Client F) : IoAccess → List IoAccess
  | .testClose =>
    if s.isClientClose = false then [.setConnect false, .close, .post .reconnect true] else []
  | _ => []

/-- The lambdas that the access posts, by whether they capture `self`. -/
def IoAccess.captures : IoAccess → List Bool
  | .post _ self => [self]
  | _ => []

def TaskAccess.effect (s : Client F) : TaskAccess → Client F
  | .message e => { s with messages := s.messages ++ [e] }
  | .connect => s.startConnect
  | .checkTimeout _ | .testConnect => s

def TaskAccess.next (s : Client F) : TaskAccess → List TaskAccess
  | .checkTimeout seconds =>
    if s.isConnect = true then [.message (.timeCheck seconds)] else [.testConnect]
  | .testConnect => if s.isConnect = false then [.connect] else []
  | .message _ | .connect => []

/-- A call goes on with the accesses that it returns. Only the formatting may be undefined. -/
def CallAccess.perform (fmt : IpacketFormat F) (s : Client F) :
    CallAccess → Option (Client F × List CallAccess)
  | .setClientClose => some ({ s with isClientClose := true }, [])
  | .clearConnect => some ({ s with isConnect := false }, [])
  | .close => some (IoAccess.close.effect s, [])
  | .erase => some ({ s with registered := false }, [])
  | .reconnect a => some (a.effect s, (a.next s).map .reconnect)
  | .format commandId data length =>
    -- only the stream client looks at the flag
    if s.transport = .tcp ∧ s.isConnect = false then some (s, [.refuse])
    else (formatted fmt s.connectId commandId data length s.packetFormat).map fun r =>
      ({ s with packetFormat := r.2 }, [.write r.1])
  | .refuse => some (s.post [.message .disconnect], [])
  | .write data => some (s.startOp (.write data), [])

def CallAccess.captures : CallAccess → List Bool
  | .refuse => [false]
  | _ => []

/-! ## The routines -/

/-- `connect_handler`, and the handlers of `do_read` and of `do_write_immediately`. The packets are
posted one by one. The disconnect event of a failed read captures `self` in the stream client. -/
def handlerAccesses (fmt : IpacketFormat F) (s : Client F) :
    Completion → Option (Client F × List IoAccess)
  | .connected =>
    some (s, [.setConnect true, .post (.message .connect) true, .setRecvTime, .read])
  | .connectFailed => some (s, [.setConnect false, .post (.message .disconnect) false])
  | .received length =>
    let bytes := s.recvBuffer.take length
    (fmt.formatRecvBuffer s.connectId bytes s.packetFormat).map fun r =>
      ({ s with packetFormat := r.2, received := s.received ++ [bytes] },
        r.1.map (fun p => .post (.message (.packet p)) true) ++ [.setRecvTime, .read])
  | .readFailed => some (s, [.post (.message .disconnect) (s.transport = .tcp), .testClose])
  | .sent rest sendLength =>
    some (s, if rest.drop sendLength = [] then [.setWriteTime] else [.write (rest.drop sendLength)])
  | .writeFailed => some (s, [.post (.message .disconnect) true, .testClose, .setWriteTime])

def taskAccesses : Task → List TaskAccess
  | .message e => [.message e]
  | .reconnect => [.testConnect]

/-- `close_client`. -/
def closeAccesses : List CallAccess := [.setClientClose, .clearConnect, .close, .erase]

/-! ## The threads -/

/-- A client, and how far each thread is in what it does with it. A routine is the list of the
accesses that are left of it; a thread whose list is empty is in none. -/
structure Threads (F : Type*) where
  client : Client F
  -- what is left of the handler that the I/O thread runs, and the completion that it is for
  io : List IoAccess := []
  handling : Option Completion := none
  -- of the task that the client's worker runs
  worker : List TaskAccess := []
  -- of the call of `do_check_timeout` in the round of `timer_check`
  round : List TaskAccess := []
  -- of the call of the manager that holds `thread_mutex_`
  call : List CallAccess := []
  -- for each task posted so far, whether its lambda captures `self`
  captures : List Bool := []

/-- The threads between two accesses of a routine. -/
inductive Thread
  | io
  | worker
  | round
  | call
  deriving DecidableEq

namespace Threads

inductive Call
  | closeClient
  | reconnectServer
  | clientSendData (sendBuff : List UInt8) (sendSize : Nat)
  | clientSendFormatData (commandId : Int16) (sendBuff : List UInt8) (sendSize : Nat)

/-- The call of the manager up to `find`, and what it does when it has found the client. -/
def begin : Call → Option (List CallAccess)
  | .closeClient => some closeAccesses
  | .reconnectServer => some [.reconnect .testConnect]
  | .clientSendData sendBuff sendSize =>
    (CpacketFormat.cStrRead sendBuff sendSize).map fun data => [.write data]
  | .clientSendFormatData commandId sendBuff sendSize => some [.format commandId sendBuff sendSize]

/-- The next access of a thread. -/
def go (fmt : IpacketFormat F) (s : Threads F) : Thread → Option (Threads F)
  | .io =>
    match s.io with
    | [] => none
    | a :: rest =>
      some { s with
        client := a.effect s.client
        io := a.next s.client ++ rest
        captures := s.captures ++ a.captures }
  | .worker =>
    match s.worker with
    | [] => none
    | a :: rest => some { s with client := a.effect s.client, worker := a.next s.client ++ rest }
  | .round =>
    match s.round with
    | [] => none
    | a :: rest => some { s with client := a.effect s.client, round := a.next s.client ++ rest }
  | .call =>
    match s.call with
    | [] => none
    | a :: rest =>
      (a.perform fmt s.client).map fun r =>
        { s with client := r.1, call := r.2 ++ rest, captures := s.captures ++ a.captures }

/-- What can happen next: an operation completes, a thread begins a routine, or a thread goes on by
one access. The I/O thread, the worker, the round of `timer_check` and the calls of the manager are
the threads; `thread_mutex_` lets in one call at a time. -/
inductive Action
  | complete (i : Nat) (outcome : Outcome)
  | handle (i : Nat)
  | runTask
  | timerSnapshot
  | timerCheck
  | call (c : Call)
  | go (thread : Thread)
  | tick (d : Int)

def step (fmt : IpacketFormat F) (s : Threads F) : Action → Option (Threads F)
  | .complete i outcome =>
    (s.client.complete i outcome).map fun client => { s with client := client }
  | .handle i =>
    if s.io = [] then
      s.client.completed[i]?.bind fun c =>
        (handlerAccesses fmt { s.client with completed := s.client.completed.eraseIdx i } c).map
          fun r => { s with client := r.1, io := r.2, handling := some c }
    else none
  | .runTask =>
    if s.worker = [] then
      s.client.posted[s.client.ran]?.map fun task =>
        { s with
          client := { s.client with ran := s.client.ran + 1 }
          worker := taskAccesses task }
    else none
  | .timerSnapshot =>
    if s.call = [] ∧ s.round = [] then
      s.client.timerSnapshot.map fun client => { s with client := client }
    else none
  | .timerCheck =>
    if s.round = [] then
      s.client.timeoutSession.map fun seconds =>
        { s with
          client := { s.client with timeoutSession := none }
          round := [.checkTimeout seconds] }
    else none
  | .call c =>
    if s.call = [] then
      if s.client.registered = true then (begin c).map fun accesses => { s with call := accesses }
      else some s
    else none
  | .go thread => go fmt s thread
  | .tick d => some { s with client := { s.client with now := s.client.now + d } }

/-- The client when `start` has returned. -/
def start (transport : Transport) (connectId : Nat) (timerCheckSeconds : Int) (pf : F) :
    Threads F where
  client := Client.start transport connectId timerCheckSeconds pf

/-- A client of the example program. -/
def started (transport : Transport) : Threads CpacketFormat where
  client := Client.started transport

/-! ## What a step does -/

variable {fmt : IpacketFormat F}

/-- What an action does, and when it can be taken. -/
inductive Does (fmt : IpacketFormat F) (s : Threads F) : Action → Threads F → Prop
  | complete {i : Nat} {outcome : Outcome} {client : Client F}
      (hcomplete : s.client.complete i outcome = some client) :
    Does fmt s (.complete i outcome) { s with client := client }
  | handle {i : Nat} {c : Completion} {r : Client F × List IoAccess} (hidle : s.io = [])
      (hget : s.client.completed[i]? = some c)
      (hbegin : handlerAccesses fmt
        { s.client with completed := s.client.completed.eraseIdx i } c = some r) :
    Does fmt s (.handle i) { s with client := r.1, io := r.2, handling := some c }
  | runTask {task : Task} (hidle : s.worker = [])
      (hget : s.client.posted[s.client.ran]? = some task) :
    Does fmt s .runTask { s with
      client := { s.client with ran := s.client.ran + 1 }, worker := taskAccesses task }
  | late (hidle : s.call = []) (hround : s.round = []) (hreg : s.client.registered = true)
      (hsession : s.client.timeoutSession = none)
      (hlate : s.client.getTimePassSeconds > s.client.timerCheckSeconds) :
    Does fmt s .timerSnapshot { s with
      client := { s.client with timeoutSession := some s.client.getTimePassSeconds } }
  | inTime : Does fmt s .timerSnapshot s
  | timerCheck {seconds : Int} (hround : s.round = [])
      (hsession : s.client.timeoutSession = some seconds) :
    Does fmt s .timerCheck { s with
      client := { s.client with timeoutSession := none }, round := [.checkTimeout seconds] }
  | call {c : Call} {accesses : List CallAccess} (hidle : s.call = [])
      (hreg : s.client.registered = true) (hbegin : begin c = some accesses) :
    Does fmt s (.call c) { s with call := accesses }
  | unknown {c : Call} : Does fmt s (.call c) s
  | io {a : IoAccess} {rest : List IoAccess} (hget : s.io = a :: rest) :
    Does fmt s (.go .io) { s with
      client := a.effect s.client
      io := a.next s.client ++ rest
      captures := s.captures ++ a.captures }
  | worker {a : TaskAccess} {rest : List TaskAccess} (hget : s.worker = a :: rest) :
    Does fmt s (.go .worker) { s with
      client := a.effect s.client, worker := a.next s.client ++ rest }
  | round {a : TaskAccess} {rest : List TaskAccess} (hget : s.round = a :: rest) :
    Does fmt s (.go .round) { s with
      client := a.effect s.client, round := a.next s.client ++ rest }
  | access {a : CallAccess} {rest : List CallAccess} {r : Client F × List CallAccess}
      (hget : s.call = a :: rest) (hperform : a.perform fmt s.client = some r) :
    Does fmt s (.go .call) { s with
      client := r.1, call := r.2 ++ rest, captures := s.captures ++ a.captures }
  | tick (d : Int) :
    Does fmt s (.tick d) { s with client := { s.client with now := s.client.now + d } }

/-- The inversion of `step`. As for `Client.step`, the invariants of the threads go by cases on
`Does` and do not unfold the step. -/
theorem does_of_step {a : Action} {s s' : Threads F} (h : step fmt s a = some s') :
    Does fmt s a s' := by
  cases a with
  | complete i outcome =>
    obtain ⟨client, hcomplete, rfl⟩ := Option.map_eq_some_iff.mp h
    exact .complete hcomplete
  | handle i =>
    obtain ⟨hidle, h⟩ := Option.ite_none_right_eq_some.mp h
    obtain ⟨c, hget, h⟩ := Option.bind_eq_some_iff.mp h
    obtain ⟨r, hbegin, rfl⟩ := Option.map_eq_some_iff.mp h
    exact .handle hidle hget hbegin
  | runTask =>
    obtain ⟨hidle, h⟩ := Option.ite_none_right_eq_some.mp h
    obtain ⟨task, hget, rfl⟩ := Option.map_eq_some_iff.mp h
    exact .runTask hidle hget
  | timerSnapshot =>
    obtain ⟨⟨hidle, hround⟩, h⟩ := Option.ite_none_right_eq_some.mp h
    obtain ⟨client, hsnapshot, rfl⟩ := Option.map_eq_some_iff.mp h
    have hclient : Client.step fmt s.client .timerSnapshot = some client := hsnapshot
    cases Client.does_of_step hclient with
    | late hsession hreg hlate => exact .late hidle hround hreg hsession hlate
    | inTime => exact .inTime
    | unknown hreg ha => cases ha
  | timerCheck =>
    obtain ⟨hround, h⟩ := Option.ite_none_right_eq_some.mp h
    obtain ⟨seconds, hsession, rfl⟩ := Option.map_eq_some_iff.mp h
    exact .timerCheck hround hsession
  | call c =>
    obtain ⟨hidle, h⟩ := Option.ite_none_right_eq_some.mp h
    split at h
    case isTrue hreg =>
      obtain ⟨accesses, hbegin, rfl⟩ := Option.map_eq_some_iff.mp h
      exact .call hidle hreg hbegin
    case isFalse => exact Option.some.inj h ▸ .unknown
  | go thread =>
    cases thread with
    | io =>
      cases hio : s.io with
      | nil => simp only [step, go, hio] at h; cases h
      | cons a rest =>
        simp only [step, go, hio] at h
        exact Option.some.inj h ▸ .io hio
    | worker =>
      cases hworker : s.worker with
      | nil => simp only [step, go, hworker] at h; cases h
      | cons a rest =>
        simp only [step, go, hworker] at h
        exact Option.some.inj h ▸ .worker hworker
    | round =>
      cases hround : s.round with
      | nil => simp only [step, go, hround] at h; cases h
      | cons a rest =>
        simp only [step, go, hround] at h
        exact Option.some.inj h ▸ .round hround
    | call =>
      cases hcall : s.call with
      | nil => simp only [step, go, hcall] at h; cases h
      | cons a rest =>
        simp only [step, go, hcall] at h
        obtain ⟨r, hperform, rfl⟩ := Option.map_eq_some_iff.mp h
        exact .access hcall hperform
  | tick d => exact Option.some.inj h ▸ .tick d

end Threads

end PssClient
