import PssClient.System.Routes
import PssClient.Tms.Delivery

/-!
# What is true of each client of the system

The invariant behind the projection, and what it needs to know of the steps of a client: which of
them concern nobody else, and what the others post.

* `Unlisted` / `Outside` — what a step of one client leaves for the rest of the system.
* `Sound` — what is true of each client, and `Kept` of the system.
* `kept_advance` — one client has gone on and has posted some tasks.
-/

namespace PssClient

open Machine

namespace Client

variable {F : Type*} {fmt : IpacketFormat F}

/-! ## A step of one client -/

/-- What `timer_check` looks at besides the clock. -/
structure Unlisted (c c' : Client F) : Prop where
  session : c'.timeoutSession = c.timeoutSession
  seconds : c'.timerCheckSeconds = c.timerCheckSeconds

theorem unlisted_startOp (op : Op) (c : Client F) : Unlisted c (startOp op c) := by
  unfold startOp
  split <;> exact ⟨rfl, rfl⟩

theorem unlisted_reconnect (c : Client F) : Unlisted c (reconnect c) := by
  unfold reconnect
  split
  · unfold startConnect
    split <;> exact ⟨rfl, rfl⟩
  · exact ⟨rfl, rfl⟩

theorem unlisted_connectionLost (c : Client F) : Unlisted c (connectionLost c) := by
  unfold connectionLost
  dsimp only
  split <;> exact ⟨rfl, rfl⟩

theorem unlisted_handler {completion : Completion} {c c' : Client F}
    (h : Handles fmt c completion c') : Unlisted c c' := by
  cases h with
  | connected =>
    obtain ⟨hsession, hseconds⟩ := unlisted_startOp .read
      { post [.message .connect] { c with isConnect := true } with recvLastTimer := c.now }
    exact ⟨hsession, hseconds⟩
  | connectFailed => exact ⟨rfl, rfl⟩
  | received length r =>
    obtain ⟨hsession, hseconds⟩ := unlisted_startOp .read
      { post (r.1.map fun p => .message (.packet p)) c with
        packetFormat := r.2
        recvLastTimer := c.now
        received := c.received ++ [c.recvBuffer.take length] }
    exact ⟨hsession, hseconds⟩
  | readFailed => exact unlisted_connectionLost c
  | sentAll => exact ⟨rfl, rfl⟩
  | sentPart => exact unlisted_startOp _ c
  | writeFailed =>
    obtain ⟨hsession, hseconds⟩ := unlisted_connectionLost c
    exact ⟨hsession, hseconds⟩

theorem unlisted_of_step {a : Action} {c c' : Client F} (ha : a.direct = true)
    (h : step fmt c a = some c') : Unlisted c c' := by
  cases does_of_step h with
  | complete hcomplete =>
    obtain ⟨op, completion, socket, buffer, -, -, rfl⟩ := ends_of_complete hcomplete
    exact ⟨rfl, rfl⟩
  | handle hget hhandler =>
    obtain ⟨hsession, hseconds⟩ := unlisted_handler hhandler
    exact ⟨hsession, hseconds⟩
  | message | reconnect | late | inTime | timeCheck | timeReconnect | tick => cases ha
  | closeClient => exact ⟨rfl, rfl⟩
  | reconnectServer => exact unlisted_reconnect c
  | sendData data => exact unlisted_startOp (.write data) c
  | refused => exact ⟨rfl, rfl⟩
  | sendFormatData r =>
    obtain ⟨hsession, hseconds⟩ := unlisted_startOp (.write r.1) { c with packetFormat := r.2 }
    exact ⟨hsession, hseconds⟩
  | unknown => exact ⟨rfl, rfl⟩

theorem posted_of_step {c c' : Client F} {a : Action} (hs : step fmt c a = some c') :
    ∃ new, c'.posted = c.posted ++ new := by
  by_cases hhandle : ∃ i, a = .handle i
  · obtain ⟨i, rfl⟩ := hhandle
    cases does_of_step hs with
    | handle hget hhandler =>
      obtain ⟨new, hposted, -⟩ := posted_of_handler hhandler
      exact ⟨new, hposted⟩
    | unknown => exact ⟨[], (List.append_nil _).symm⟩
  · obtain ⟨new, hposted, -⟩ := posted_of_other (fun i hi => hhandle ⟨i, hi⟩) hs
    exact ⟨new, hposted⟩

/-- What a step of the I/O thread or of a caller leaves for the rest: tasks behind the old ones. -/
structure Outside (c c' : Client F) (new : List Task) : Prop extends Unlisted c c' where
  posted : c'.posted = c.posted ++ new
  ran : c'.ran = c.ran
  messages : c'.messages = c.messages

theorem outside_of_step {a : Action} {c c' : Client F} (ha : a.direct = true)
    (h : step fmt c a = some c') : ∃ new, Outside c c' new := by
  have hnotRun : a ≠ .runTask := by
    rintro rfl
    cases ha
  have hnotCheck : a ≠ .timerCheck := by
    rintro rfl
    cases ha
  obtain ⟨new, hposted⟩ := posted_of_step h
  rcases messages_of_step h with ⟨hrun, -⟩ | ⟨-, hran, hmessages | ⟨hcheck, -⟩⟩
  · exact absurd hrun hnotRun
  · exact ⟨new, unlisted_of_step ha h, hposted, hran, hmessages⟩
  · exact absurd hcheck hnotCheck

/-- What a task does to its client. -/
theorem execute_spec (task : Task) (c : Client F) :
    Unlisted c (execute task c) ∧ (execute task c).posted = c.posted ∧
      (execute task c).ran = c.ran + 1 ∧
      (execute task c).messages = c.messages ++ callsOf task := by
  cases task with
  | message e => exact ⟨⟨rfl, rfl⟩, rfl, rfl, rfl⟩
  | reconnect =>
    obtain ⟨hsession, hseconds⟩ := unlisted_reconnect { c with ran := c.ran + 1 }
    have hsame := untouched_reconnect { c with ran := c.ran + 1 }
    exact ⟨⟨hsession, hseconds⟩, posted_reconnect _, hsame.ran,
      hsame.messages.trans (List.append_nil _).symm⟩

/-- What `do_check_timeout` does to it. -/
theorem doCheckTimeout_spec (seconds : Int) (c : Client F) :
    Unlisted c (doCheckTimeout seconds c) ∧ (doCheckTimeout seconds c).posted = c.posted ∧
      (doCheckTimeout seconds c).ran = c.ran ∧
      (doCheckTimeout seconds c).messages
        = c.messages ++ if c.isConnect = true then [.timeCheck seconds] else [] := by
  unfold doCheckTimeout
  split
  · exact ⟨⟨rfl, rfl⟩, rfl, rfl, rfl⟩
  · have hsame := untouched_reconnect c
    exact ⟨unlisted_reconnect c, posted_reconnect c, hsame.ran,
      hsame.messages.trans (List.append_nil _).symm⟩

end Client

namespace System

open Tms

variable {F : Type*} {fmt : IpacketFormat F}

/-! ## The invariant -/

/-- What `do_message` has been called with for a client. -/
def eventsOf (id : Nat) (handed : List (Nat × Nat × Event)) : List Event :=
  handed.filterMap fun h => if h.2.1 = id then some h.2.2 else none

theorem eventsOf_append (id : Nat) (handed handed' : List (Nat × Nat × Event)) :
    eventsOf id (handed ++ handed') = eventsOf id handed ++ eventsOf id handed' :=
  List.filterMap_append

theorem eventsOf_map (id logicId : Nat) (es : List Event) :
    eventsOf id (es.map fun e => (logicId, id, e)) = es := by
  rw [eventsOf, List.filterMap_map]
  refine Eq.trans (List.filterMap_congr fun e _ => ?_) List.filterMap_some
  exact if_pos rfl

theorem eventsOf_of_ne {id id' : Nat} (h : id' ≠ id) {handed : List (Nat × Nat × Event)}
    (hclient : ∀ e ∈ handed, e.2.1 = id') : eventsOf id handed = [] :=
  List.filterMap_eq_nil_iff.mpr fun e he => if_neg fun heq => h ((hclient e he).symm.trans heq)

/-- The thread that makes a call of `do_message`: the client's worker, or for a timeout the worker
of the round. -/
def CalledBy (n : Nat) (h : Nat × Nat × Event) : Prop :=
  h.1 = h.2.1 % n ∨ h.1 = 0 ∧ ∃ seconds, h.2.2 = .timeCheck seconds

/-- What is true of one client among the others; `P` is what is known of the clients that are
started. It is in a state that it reaches alone, its entry in the round of `timer_check` is the one
it would have alone, and what has been called for it is what it calls alone. -/
structure Sound (fmt : IpacketFormat F) (P : Transport → F → Prop) (id : Nat) (s : System F)
    (c : Client F) : Prop where
  reached : ∃ transport pf as, P transport pf ∧
    run (Client.step fmt) (Client.start transport id s.timerCheckSeconds pf) as = some c
  ran : c.ran ≤ c.posted.length
  seconds : c.timerCheckSeconds = s.timerCheckSeconds
  session : c.timeoutSession = s.timeoutSessionList.lookup id
  calls : eventsOf id s.handed = c.messages

/-- What the clients have still to run. -/
def leftOf (clients : Nat → Option (Client F)) (id : Nat) : Option (List Task) :=
  (clients id).map fun c => c.posted.drop c.ran

theorem leftOf_update (clients : Nat → Option (Client F)) (id : Nat) (c : Client F) :
    leftOf (Function.update clients id (some c))
      = Function.update (leftOf clients) id (some (c.posted.drop c.ran)) := by
  funext id'
  by_cases hid : id' = id
  · subst hid
    rw [leftOf, Function.update_self, Function.update_self]
    rfl
  · rw [leftOf, Function.update_of_ne hid, Function.update_of_ne hid, leftOf]

/-- The objects stay. -/
theorem isSome_update (clients : Nat → Option (Client F)) (id : Nat) (c : Client F) {id' : Nat}
    (h : (clients id').isSome = true) :
    (Function.update clients id (some c) id').isSome = true := by
  by_cases hid : id' = id
  · rw [hid, Function.update_self]
    rfl
  · rwa [Function.update_of_ne hid]

/-- The invariant of all the clients together. Each is sound by itself, what they have still to run
is with the workers in its order, and what has been called belongs to a client that exists. A round
of `timer_check` is on worker 0, and has each client in its list once at most. -/
structure Kept (fmt : IpacketFormat F) (P : Transport → F → Prop) (n : Nat) (limit : Int)
    (s : System F) : Prop where
  routed : Routed n s.tms (leftOf s.clients)
  clients : ∀ id c, s.clients id = some c → Sound fmt P id s c
  given : ∀ id, s.currClientId ≤ id → s.clients id = none
  called : ∀ h ∈ s.handed, (s.clients h.2.1).isSome = true ∧ CalledBy n h
  round : s.timeoutSessionList ≠ [] → Running s.tms 0
  listed : (s.timeoutSessionList.map Prod.fst).Nodup
  known : ∀ e ∈ s.timeoutSessionList, (s.clients e.1).isSome = true
  limit : s.timerCheckSeconds = limit

theorem kept_loaded (P : Transport → F → Prop) (n : Nat) (limit : Int) :
    Kept fmt P n limit (loaded n limit : System F) where
  routed := routed_loadModule n
  clients := fun id c hc => by
    change none = some c at hc
    cases hc
  given := fun _ _ => rfl
  called := fun e he => (List.not_mem_nil (show e ∈ [] from he)).elim
  round := fun h => absurd rfl h
  listed := List.nodup_nil
  known := fun e he => (List.not_mem_nil (show e ∈ [] from he)).elim
  limit := rfl

section

variable {P : Transport → F → Prop} {n : Nat} {limit : Int}

/-- The workers have moved on without calling anything of the clients. -/
theorem Kept.sameClients {s : System F} {tms : Tms LogicMessage} (h : Kept fmt P n limit s)
    (hrouted : Routed n tms (leftOf s.clients))
    (hround : s.timeoutSessionList ≠ [] → Running tms 0) :
    Kept fmt P n limit { s with tms := tms } where
  routed := hrouted
  clients := fun id c hc =>
    let hsound := h.clients id c hc
    ⟨hsound.reached, hsound.ran, hsound.seconds, hsound.session, hsound.calls⟩
  given := h.given
  called := h.called
  round := hround
  listed := h.listed
  known := h.known
  limit := h.limit

/-- One client has gone from `c` to `c'` and has posted the tasks `new`. -/
theorem kept_advance {s : System F} (hn : 0 < n) (h : Kept fmt P n limit s) {id : Nat}
    {c c' : Client F} {new : List Task} {tms : Tms LogicMessage} (list : List (Nat × Int))
    (handed : List (Nat × Nat × Event)) (hposted : c'.posted = c.posted ++ new)
    (hrouted : Routed n tms (Function.update (leftOf s.clients) id (some (c.posted.drop c'.ran))))
    (hran : c'.ran ≤ c.posted.length) (hgiven : id < s.currClientId)
    (hsound : Sound fmt P id { s with timeoutSessionList := list, handed := handed } c')
    (hothers : ∀ id', id' ≠ id → list.lookup id' = s.timeoutSessionList.lookup id' ∧
      eventsOf id' handed = eventsOf id' s.handed)
    (hcalled : ∀ e ∈ handed, e ∈ s.handed ∨ e.2.1 = id ∧ CalledBy n e)
    (hround : list ≠ [] → Running tms 0) (hlist : list.Sublist s.timeoutSessionList) :
    Kept fmt P n limit { advance id c c' { s with tms := tms } with
      timeoutSessionList := list, handed := handed } where
  routed := by
    have hadded := routed_addTasks hrouted hn (Function.update_self ..) new
    have hleft : c.posted.drop c'.ran ++ new = c'.posted.drop c'.ran := by
      rw [hposted, List.drop_append_of_le_length hran]
    rw [Function.update_idem, hleft, ← leftOf_update] at hadded
    have hnew : c'.posted.drop c.posted.length = new := by
      rw [hposted, List.drop_left]
    show Routed n (addTasks id (c'.posted.drop c.posted.length) tms) _
    rw [hnew]
    exact hadded
  clients := fun id' c'' hc => by
    by_cases hid : id' = id
    · subst hid
      change Function.update s.clients id' (some c') id' = some c'' at hc
      rw [Function.update_self] at hc
      obtain rfl := Option.some.inj hc
      exact ⟨hsound.reached, hsound.ran, hsound.seconds, hsound.session, hsound.calls⟩
    · have hsound' := h.clients id' c'' ((Function.update_of_ne hid _ _).symm.trans hc)
      obtain ⟨hlookup, hevents⟩ := hothers id' hid
      exact ⟨hsound'.reached, hsound'.ran, hsound'.seconds, hsound'.session.trans hlookup.symm,
        hevents.trans hsound'.calls⟩
  given := fun id' hid => by
    have hne : id' ≠ id := fun heq => absurd hgiven (Nat.not_lt.mpr (heq ▸ hid))
    exact (Function.update_of_ne hne _ _).trans (h.given id' hid)
  called := fun e he => by
    show (Function.update s.clients id (some c') e.2.1).isSome = true ∧ CalledBy n e
    rcases hcalled e he with hold | ⟨rfl, hby⟩
    · exact ⟨isSome_update s.clients id c' (h.called e hold).1, (h.called e hold).2⟩
    · rw [Function.update_self]
      exact ⟨rfl, hby⟩
  round := fun hlist => (hround hlist).addTasks id _
  listed := h.listed.sublist (hlist.map Prod.fst)
  known := fun e he => isSome_update s.clients id c' (h.known e (hlist.subset he))
  limit := h.limit

theorem Kept.given_lt {s : System F} (h : Kept fmt P n limit s) {id : Nat} {c : Client F}
    (hc : s.clients id = some c) : id < s.currClientId := by
  by_contra hid
  rw [h.given id (Nat.not_lt.mp hid)] at hc
  cases hc

end

end System

end PssClient
