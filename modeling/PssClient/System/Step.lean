import PssClient.Client.Posts
import PssClient.Tms.Workers

/-!
# The clients, the workers and the manager together

Any number of stream and datagram clients behind one manager. They share the I/O thread, the workers
and the round of `timer_check`. What a client posts goes into the queue of the worker that
`get_tms_logic_id` names, between the messages of other clients, of the timers and of the users, and
it is run when that worker comes to it.

* `LogicMessage` — what a message of a worker will do.
* `System` — the workers, `asio_client_list_` with the objects, the list that a running round of
  `timer_check` works through, and the calls of `do_message`.
* `advance` — a function of a client has run; `AddMessage` has been called for the tasks it posts.
* `step` — the interleavings of the callers, the I/O thread, the workers, the timer and the clock.

Each client has a formatter of its own, as in the test program; clients that share one are in
`PssClient.Tms.Delivery`. The functions of a client are those of `PssClient.Client.Machine`.
-/

namespace PssClient

/-- The functions that messages carry. -/
inductive System.LogicMessage
  /-- A task of a client. -/
  | task (connectId : Nat) (task : Task)
  /-- `timer_check`, which the loop timer puts. -/
  | timerCheck
  /-- The function that `timer_check` posts. -/
  | timerRound
  /-- A function of a user. -/
  | user (func : Nat)

/-- A message that is no task of a client. -/
def System.LogicMessage.Other : System.LogicMessage → Prop
  | .task _ _ => False
  | _ => True

namespace Client

variable {F : Type*}

/-- What a message with a task of the client does. -/
def execute (task : Task) (c : Client F) : Client F :=
  match task with
  | .message e => { c with ran := c.ran + 1, messages := c.messages ++ [e] }
  | .reconnect => reconnect { c with ran := c.ran + 1 }

theorem runTask_eq (c : Client F) : runTask c = c.posted[c.ran]?.map fun task => execute task c :=
  rfl

/-- The entry in the list of the round is used up. -/
def notListed (c : Client F) : Client F := { c with timeoutSession := none }

/-- What the I/O thread and the callers of the manager do. -/
def Action.direct : Action → Bool
  | .runTask | .timerSnapshot | .timerCheck | .tick _ => false
  | _ => true

end Client

/-- The whole library at work: the workers, the clients with their objects, and the round of
`timer_check`. A client's own state is the one of `Client.step`; what it posts is put with its
worker. -/
structure System (F : Type*) where
  tms : Tms System.LogicMessage
  -- `curr_client_id_`, and the objects; `registered` of an object is its entry in the list
  currClientId : Nat := 1
  clients : Nat → Option (Client F) := fun _ => none
  timerCheckSeconds : Int
  -- what the round of `timer_check` has still to call
  timeoutSessionList : List (Nat × Int) := []
  -- the calls of `do_message`: the worker, the client, and what it is called with
  handed : List (Nat × Nat × Event) := []

namespace System

variable {F : Type*}

/-- `AddMessage` for each task, with the worker of the client. -/
def addTasks (id : Nat) (tasks : List Task) (tms : Tms LogicMessage) : Tms LogicMessage :=
  tasks.foldl (fun tms task => tms.addMessage (tms.getTmsLogicId id) (.task id task)) tms

/-- The object has changed from `c` to `c'`, and has posted what is new. -/
def advance (id : Nat) (c c' : Client F) (s : System F) : System F :=
  { s with
    tms := addTasks id (c'.posted.drop c.posted.length) s.tms
    clients := Function.update s.clients id (some c') }

/-- `start_client_tcp` and `start_client_udp`. -/
def startClient (transport : Transport) (pf : F) (s : System F) : System F :=
  { s with
    currClientId := s.currClientId + 1
    clients := Function.update s.clients s.currClientId
      (some (Client.start transport s.currClientId s.timerCheckSeconds pf)) }

/-- The I/O thread or a caller does something with a client. A call for an id that has not been
given away finds no entry. -/
def clientStep (fmt : IpacketFormat F) (id : Nat) (a : Client.Action) (s : System F) :
    Option (System F) :=
  match s.clients id with
  | some c => (Client.step fmt c a).map fun c' => advance id c c' s
  | none => if a.looksUp = true then some s else none

/-- The entry of a client in `timeout_session_list`. -/
def timeout (s : System F) (id : Nat) : Option (Nat × Int) :=
  (s.clients id).bind fun c =>
    if c.registered = true ∧ c.getTimePassSeconds > s.timerCheckSeconds then
      some (id, c.getTimePassSeconds)
    else none

/-- `timer_check` up to its second loop. -/
def timerSnapshot (s : System F) : System F :=
  { s with
    timeoutSessionList := (List.range s.currClientId).filterMap (timeout s)
    clients := fun id => (s.clients id).map fun c => c.timerSnapshot.getD c }

/-- One round of the second loop. -/
def check (s : System F) : Option (System F) :=
  match s.timeoutSessionList with
  | (id, seconds) :: timeoutSessionList =>
    (s.clients id).map fun c =>
      { advance id c (c.notListed.doCheckTimeout seconds) s with
        timeoutSessionList := timeoutSessionList
        handed := s.handed ++
          if c.isConnect = true then [(0, id, .timeCheck seconds)] else [] }
  | [] => none

/-- A worker calls its message. -/
def call (logicId : Nat) (s : System F) : Option (System F) :=
  (s.tms.call logicId).bind fun r =>
    match r.1 with
    | .task id task =>
      (s.clients id).map fun c =>
        { advance id c (c.execute task) { s with tms := r.2 } with
          handed := s.handed ++ (Client.callsOf task).map fun e => (logicId, id, e) }
    | .timerCheck => some { s with tms := r.2.addMessage 0 .timerRound }
    | .timerRound => some (timerSnapshot { s with tms := r.2 })
    | .user _ => some { s with tms := r.2 }

/-- What can happen next: a client is started or takes a step of its own, somebody posts a message,
a timer fires, or a worker takes, calls and finishes a message. -/
inductive Action (F : Type*)
  | startClient (transport : Transport) (pf : F)
  | client (id : Nat) (a : Client.Action)
  | addMessage (logicId : Nat) (func : Nat)
  /-- The loop timer of `timer_check` fires. -/
  | timerFires
  | pop (logicId : Nat)
  | call (logicId : Nat)
  /-- The round of `timer_check` goes on. -/
  | check
  | finish (logicId : Nat)
  | tick (d : Int)

def step (fmt : IpacketFormat F) (s : System F) : Action F → Option (System F)
  | .startClient transport pf => some (startClient transport pf s)
  | .client id a => if a.direct = true then clientStep fmt id a s else none
  | .addMessage logicId func => some { s with tms := s.tms.addMessage logicId (.user func) }
  | .timerFires => some { s with tms := s.tms.addMessage 0 .timerCheck }
  | .pop logicId => (s.tms.pop logicId).map fun tms => { s with tms := tms }
  | .call logicId => call logicId s
  | .check => check s
  | .finish logicId =>
    -- worker 0 is in the round as long as there is something to call
    if logicId = 0 ∧ s.timeoutSessionList ≠ [] then none
    else (s.tms.finish logicId).map fun tms => { s with tms := tms }
  | .tick d =>
    some { s with clients := fun id => (s.clients id).map fun c => { c with now := c.now + d } }

/-- The system when `load_module` has returned. -/
def loaded (threadCount : Nat) (timerCheckSeconds : Int) : System F where
  tms := Tms.loadModule threadCount
  timerCheckSeconds := timerCheckSeconds

end System

end PssClient
