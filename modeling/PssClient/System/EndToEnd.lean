import PssClient.Client.Buffer
import PssClient.Client.Reconnect
import PssClient.System.Projection
import PssClient.Wire.Beginning

/-!
# From the server's messages to `do_message`

A server sends messages in the packet format. On the way they are cut into pieces, the pieces are
received by one of many clients, its decoder puts them together again, and the packets go through
the queue of a worker that other clients use as well.

* `called_step` — `do_message` has been called for the tasks that have run.
* `OneRead` / `inBuffer_of_run` — as long as the client never has two reads in flight, what arrives
  is what its handlers find in the receive buffer.
* `delivered` — the result.
-/

namespace PssClient

open Machine

namespace Client

open CpacketFormat

variable {F : Type*} {fmt : IpacketFormat F}

/-! ## The calls of one client -/

/-- The call is one that a task of the client makes, not `do_check_timeout`. -/
def byTask : Event → Bool
  | .timeCheck _ => false
  | _ => true

/-- `do_message` has been called for the tasks that have run, and besides only for timeouts. -/
structure Called (c : Client F) : Prop where
  ran : c.ran ≤ c.posted.length
  calls : c.messages.filter byTask = (c.posted.take c.ran).flatMap callsOf
  tasks : ∀ task ∈ c.posted, (callsOf task).filter byTask = callsOf task

/-- **Every task that a client posts is one that a worker runs.** What `do_message` is called for
without a task, by the round of `timer_check`, is never posted. -/
theorem tasks_of_step {c c' : Client F} {a : Action}
    (h : ∀ task ∈ c.posted, (callsOf task).filter byTask = callsOf task)
    (hs : step fmt c a = some c') :
    ∀ task ∈ c'.posted, (callsOf task).filter byTask = callsOf task := by
  intro task htask
  by_cases hhandle : ∃ i, a = .handle i
  · obtain ⟨i, rfl⟩ := hhandle
    cases does_of_step hs with
    | unknown => exact h task htask
    | handle hget hhandler =>
      obtain ⟨new, hposted, hnew⟩ := posted_of_handler hhandler
      rw [hposted] at htask
      refine (List.mem_append.mp htask).elim (h task) fun htask => ?_
      -- the handlers, by what they post
      cases hhandler with
      | connected | connectFailed =>
        obtain rfl : new = _ := hnew
        rw [List.mem_singleton.mp htask]
        rfl
      | received bytes =>
        obtain ⟨r, -, rfl⟩ := hnew
        obtain ⟨p, -, rfl⟩ := List.mem_map.mp htask
        rfl
      | sentAll | sentPart =>
        obtain rfl : new = [] := hnew
        cases htask
      | readFailed | writeFailed =>
        obtain rfl : new = _ := hnew
        rcases List.mem_cons.mp htask with rfl | htask
        · rfl
        · split at htask
          · rw [List.mem_singleton.mp htask]
            rfl
          · cases htask
  -- anything else posts a refused message, if anything
  · obtain ⟨new, hposted, hnew⟩ := posted_of_other (fun i hi => hhandle ⟨i, hi⟩) hs
    rw [hposted] at htask
    refine (List.mem_append.mp htask).elim (h task) fun htask => ?_
    rw [hnew task htask]
    rfl

theorem called_step {c c' : Client F} {a : Action} (h : Called c) (hs : step fmt c a = some c') :
    Called c' := by
  rcases messages_of_step hs with ⟨-, task, hget, hposted, hran, hmessages⟩ | ⟨-, hran, hmessages⟩
  · obtain ⟨hlt, -⟩ := List.getElem?_eq_some_iff.mp hget
    refine ⟨by rw [hran, hposted]; exact hlt, ?_, tasks_of_step h.tasks hs⟩
    rw [hmessages, hran, hposted, List.filter_append, h.calls, List.take_add_one, hget,
      List.flatMap_append, h.tasks task (List.mem_of_getElem? hget)]
    exact congrArg _ (List.append_nil _).symm
  · obtain ⟨new, hposted⟩ := posted_of_step hs
    refine ⟨by rw [hran, hposted, List.length_append]; exact h.ran.trans (Nat.le_add_right _ _), ?_,
      tasks_of_step h.tasks hs⟩
    rw [hran, hposted, List.take_append_of_le_length h.ran, ← h.calls]
    rcases hmessages with hmessages | ⟨-, seconds, hmessages⟩
    · rw [hmessages]
    · rw [hmessages, List.filter_append]
      exact List.append_nil _

theorem called_of_start {transport : Transport} {connectId : Nat} {seconds : Int} {pf : F}
    {as : List Action} {c : Client F}
    (hrun : run (step fmt) (start transport connectId seconds pf) as = some c) : Called c := by
  obtain ⟨hposted, hran, hmessages, -⟩ := start_posted transport connectId seconds pf
  refine invariant_of_run Called (fun _ _ _ h hs => called_step h hs) ⟨?_, ?_, ?_⟩ hrun
  · rw [hran]
    exact Nat.zero_le _
  · rw [hmessages, hposted, List.take_nil]
    rfl
  · rw [hposted]
    exact nofun

/-- The packet that a call of `do_message` is about. -/
def eventPacket : Event → Option CrecvPacket
  | .packet p => some p
  | _ => none

theorem filterMap_callsOf (tasks : List Task) :
    (tasks.flatMap callsOf).filterMap eventPacket = tasks.filterMap taskPacket := by
  induction tasks with
  | nil => rfl
  | cons task tasks ih =>
    rw [List.flatMap_cons, List.filterMap_append, ih]
    cases task with
    | message e => cases e <;> rfl
    | reconnect => rfl

/-- Timeouts are about no packet. -/
theorem filterMap_byTask (messages : List Event) :
    (messages.filter byTask).filterMap eventPacket = messages.filterMap eventPacket := by
  rw [List.filterMap_filter]
  apply List.filterMap_congr
  intro e _
  cases e <;> rfl

theorem Called.packets {c : Client F} (h : Called c) :
    c.messages.filterMap eventPacket = (c.posted.take c.ran).filterMap taskPacket := by
  rw [← filterMap_byTask, h.calls, filterMap_callsOf]

/-- What is true of a client that started with a fresh decoder: the packets posted are those that
the decoder makes of the pieces handed to it. -/
theorem posted_of_fresh {past : Nat → Option UInt8} {junk : Vector UInt8 maxBufferSize}
    {transport : Transport} {connectId : Nat} {seconds : Int} {as : List Action}
    {c : Client CpacketFormat}
    (hrun : run (step (cpacketFormat past)) (start transport connectId seconds (new junk)) as
      = some c) :
    ∃ pf, feed past (new junk) c.received = some (packetsPosted c, pf) := by
  obtain ⟨hposted, -⟩ := start_posted transport connectId seconds (new junk)
  have hfields : (start transport connectId seconds (new junk)).received = [] ∧
      (start transport connectId seconds (new junk)).packetFormat = new junk := by
    unfold start startConnect
    split <;> exact ⟨rfl, rfl⟩
  obtain ⟨hreceived, hpf⟩ := hfields
  obtain ⟨chunks, ps, pf, hfed⟩ := run_feed hrun
  have hchunks := hfed.received
  have hpackets := hfed.packets
  rw [hreceived, List.nil_append] at hchunks
  rw [packetsPosted, packetsPosted, hposted, List.filterMap_nil, List.nil_append] at hpackets
  refine ⟨pf, ?_⟩
  rw [hchunks, packetsPosted, hpackets, ← hpf]
  exact hfed.feeds

theorem sameBuffer_execute (task : Task) (c : Client F) : SameBuffer c (execute task c) := by
  cases task with
  | message e => exact ⟨rfl, rfl, rfl, rfl⟩
  | reconnect =>
    have hsame := sameBuffer_reconnect { c with ran := c.ran + 1 }
    exact ⟨hsame.arrived, hsame.received, hsame.recvBuffer, hsame.waiting⟩

theorem sameBuffer_doCheckTimeout (seconds : Int) (c : Client F) :
    SameBuffer c (c.notListed.doCheckTimeout seconds) := by
  unfold doCheckTimeout
  split
  · exact ⟨rfl, rfl, rfl, rfl⟩
  · have hsame := sameBuffer_reconnect c.notListed
    exact ⟨hsame.arrived, hsame.received, hsame.recvBuffer, hsame.waiting⟩

theorem sameBuffer_timerSnapshot (c : Client F) : SameBuffer c (c.timerSnapshot.getD c) := by
  unfold timerSnapshot
  split
  · exact .refl c
  · split
    · exact ⟨rfl, rfl, rfl, rfl⟩
    · exact .refl c

end Client

namespace System

open CpacketFormat Tms

/-! ## The receive buffer of one client -/

section Buffer

variable {F : Type*} {fmt : IpacketFormat F}

/-- The client has at most one read in flight. -/
def OneRead (id : Nat) (s : System F) (_ : Action F) : Prop :=
  ∀ c ∈ s.clients id, c.readsInFlight ≤ 1

instance (id : Nat) (s : System F) (a : Action F) : Decidable (OneRead id s a) :=
  inferInstanceAs (Decidable (∀ c ∈ s.clients id, c.readsInFlight ≤ 1))

/-- What has arrived at the client and has not been handed over is in its buffer. -/
def InBuffer (id : Nat) (s : System F) : Prop := ∀ c, s.clients id = some c → c.InBuffer

/-- One client of the system is another one. -/
theorem InBuffer.update {id id' : Nat} {s t : System F} {c c' : Client F} (h : InBuffer id s)
    (hc : s.clients id' = some c) (hnext : c.InBuffer → c'.InBuffer)
    (hclients : t.clients = Function.update s.clients id' (some c')) : InBuffer id t := by
  intro d hd
  rw [hclients] at hd
  by_cases hid : id = id'
  · subst hid
    rw [Function.update_self] at hd
    exact Option.some.inj hd ▸ hnext (h c hc)
  · rw [Function.update_of_ne hid] at hd
    exact h d hd

/-- All the clients have gone on without reading. -/
theorem InBuffer.map {id : Nat} {s t : System F} {f : Client F → Client F} (h : InBuffer id s)
    (hf : ∀ c : Client F, c.SameBuffer (f c))
    (hclients : t.clients = fun id => (s.clients id).map f) : InBuffer id t := by
  intro d hd
  rw [hclients] at hd
  obtain ⟨c, hc, rfl⟩ := Option.map_eq_some_iff.mp hd
  exact (h c hc).same (hf c)

/-- A step of the system is a step of the client or leaves it alone. In both cases what has arrived
and waits for its handler stays in the buffer, as long as one read at most is under way. -/
theorem inBuffer_step {id : Nat} {s s' : System F} {a : Action F} (h : InBuffer id s)
    (hone : OneRead id s a) (hs : step fmt s a = some s') : InBuffer id s' := by
  cases a with
  | startClient transport pf =>
    obtain rfl := Option.some.inj hs
    intro d hd
    change Function.update s.clients s.currClientId _ id = some d at hd
    by_cases hid : id = s.currClientId
    · rw [hid, Function.update_self] at hd
      exact Option.some.inj hd ▸ Client.inBuffer_start _ _ _ _
    · rw [Function.update_of_ne hid] at hd
      exact h d hd
  | client id' a =>
    obtain ⟨-, hs⟩ := Option.ite_none_right_eq_some.mp hs
    rw [clientStep] at hs
    split at hs
    case h_1 c hc =>
      obtain ⟨c', hstep, rfl⟩ := Option.map_eq_some_iff.mp hs
      by_cases hid : id = id'
      · -- only a step of this client can be one that reads
        subst hid
        refine h.update hc (fun hbuffer => ?_) rfl
        exact Client.inBuffer_step hbuffer (hone c hc) hstep
      · intro d hd
        change Function.update s.clients id' _ id = some d at hd
        rw [Function.update_of_ne hid] at hd
        exact h d hd
    case h_2 =>
      obtain ⟨-, hs⟩ := Option.ite_none_right_eq_some.mp hs
      exact Option.some.inj hs ▸ h
  | addMessage | timerFires =>
    obtain rfl := Option.some.inj hs
    exact h
  | pop =>
    obtain ⟨tms, -, rfl⟩ := Option.map_eq_some_iff.mp hs
    exact h
  | finish =>
    obtain ⟨-, hs⟩ := Option.ite_none_left_eq_some.mp hs
    obtain ⟨tms, -, rfl⟩ := Option.map_eq_some_iff.mp hs
    exact h
  | call logicId =>
    obtain ⟨⟨msg, tms⟩, -, hs⟩ := Option.bind_eq_some_iff.mp hs
    cases msg with
    | task id' task =>
      obtain ⟨c, hc, rfl⟩ := Option.map_eq_some_iff.mp hs
      exact h.update hc (fun hbuffer => hbuffer.same (Client.sameBuffer_execute task c)) rfl
    | timerCheck | user =>
      obtain rfl := Option.some.inj hs
      exact h
    | timerRound =>
      obtain rfl := Option.some.inj hs
      exact h.map Client.sameBuffer_timerSnapshot rfl
  | check =>
    change check s = some s' at hs
    rw [check] at hs
    split at hs
    case h_1 id' seconds rest hlist =>
      obtain ⟨c, hc, rfl⟩ := Option.map_eq_some_iff.mp hs
      exact h.update hc
        (fun hbuffer => hbuffer.same (Client.sameBuffer_doCheckTimeout seconds c)) rfl
    case h_2 => cases hs
  | tick d =>
    obtain rfl := Option.some.inj hs
    exact h.map (f := fun c => { c with now := c.now + d }) (fun _ => ⟨rfl, rfl, rfl, rfl⟩) rfl

theorem inBuffer_of_run {threadCount : Nat} {limit : Int} {as : List (Action F)} {s : System F}
    {id : Nat} (hone : Meets (step fmt) (OneRead id) (loaded threadCount limit) as)
    (hrun : run (step fmt) (loaded threadCount limit) as = some s) : InBuffer id s := by
  refine invariant_of_meets (InBuffer id) (fun _ _ _ => inBuffer_step) (fun c hc => ?_) hone hrun
  change none = some c at hc
  cases hc

end Buffer

/-- The packets that `do_message` has been called with for a client. -/
def packetsHanded (id : Nat) (s : System CpacketFormat) : List CrecvPacket :=
  (eventsOf id s.handed).filterMap Client.eventPacket

/-- **From end to end.** Clients that each start with a formatter of their own, one of them that
never has two reads in flight, and a stream of messages that fits the array of its decoder. In any
run, if what has arrived at the client is a beginning of this stream, cut in any way, then
`do_message` has been called with the first of the messages, in their order and each once, and with
nothing else; and once no piece waits for its handler and the client's worker has nothing left to
call, these are all that have arrived completely. -/
theorem delivered (past : Nat → Option UInt8) (threadCount : Nat) (timerCheckSeconds : Int)
    (as : List (Action CpacketFormat)) (s : System CpacketFormat) (id : Nat)
    (c : Client CpacketFormat) (ms : List Message) (packets : List (List UInt8))
    (later : List UInt8) (hcount : 0 < threadCount)
    (hfresh : ∀ transport pf, .startClient transport pf ∈ as → ∃ junk, pf = new junk)
    (hone : Meets (step (cpacketFormat past)) (OneRead id)
      (loaded threadCount timerCheckSeconds) as)
    (hrun : run (step (cpacketFormat past)) (loaded threadCount timerCheckSeconds) as = some s)
    (hc : s.clients id = some c) (henc : List.Forall₂ EncodedAs ms packets)
    (hlen : ∀ m ∈ ms, m.body.length ≤ 2008) (hfits : StreamFits 0 (ms.map Message.toPacket))
    (hstream : c.arrived.flatten ++ later = packets.flatten) :
    ∃ k rest, packetsHanded id s <+: (ms.take k).map Message.toPacket ∧
      (c.waiting = [] → rest ++ later = (packets.drop k).flatten ∧
        Unfinished rest (packets.drop k) ∧
        (s.tms.pending (id % threadCount) = [] →
          packetsHanded id s = (ms.take k).map Message.toPacket)) := by
  have hkept := kept_run hcount hrun
  obtain ⟨⟨transport, pf, bs, hmem, hbs⟩, -, -, -, hevents⟩ := hkept.clients id c hc
  obtain ⟨junk, rfl⟩ := hfresh transport pf hmem
  obtain ⟨pf', hfeed⟩ := Client.posted_of_fresh hbs
  have hcalled := Client.called_of_start hbs
  have hbuffer := inBuffer_of_run hone hrun c hc
  have hp : List.Forall₂ IsPacket (ms.map Message.toPacket) packets :=
    isPacket_of_encodedAs henc fun m hm => by
      have hbody := hlen m hm
      unfold packetHeadSize maxPacketSendSize
      omega
  -- the pieces that have been handed over are a beginning of what has arrived
  have hall : [] ++ (c.received.flatten
      ++ ((c.waiting.map fun length => c.recvBuffer.take length).flatten ++ later))
      = packets.flatten := by
    rw [List.nil_append, ← List.append_assoc, ← List.flatten_append, ← hbuffer.arrived]
    exact hstream
  have hsize : ∀ bytes ∈ c.received, bytes.length ≤ recvBufferMaxSize := fun bytes hbytes =>
    hbuffer.size bytes (hbuffer.arrived ▸ List.mem_append_left _ hbytes)
  obtain ⟨k, rest, pf'', hbeginning, hrest, hunf⟩ := feed_beginning hp (holds_new junk)
    (unfinished_nil hp) hall hsize hfits past
  rw [hfeed] at hbeginning
  have hposted : Client.packetsPosted c = (ms.take k).map Message.toPacket := by
    rw [List.map_take]
    exact (Prod.mk.inj (Option.some.inj hbeginning)).1
  have hhanded : packetsHanded id s = (c.posted.take c.ran).filterMap Client.taskPacket := by
    rw [packetsHanded, hevents, hcalled.packets]
  refine ⟨k, rest, ?_, fun hnone => ⟨?_, hunf, fun hidle => ?_⟩⟩
  · rw [hhanded, ← hposted]
    exact (List.take_prefix c.ran c.posted).filterMap _
  · rw [hnone] at hrest
    exact hrest
  · have hleft : leftOf s.clients id = some (c.posted.drop c.ran) := by
      rw [leftOf, hc]
      rfl
    have hnothing : c.posted.drop c.ran = [] := by
      rw [← hkept.routed.tasks id _ hleft, hidle]
      rfl
    have htake : c.posted.take c.ran = c.posted :=
      List.take_of_length_le (List.drop_eq_nil_iff.mp hnothing)
    rw [hhanded, htake, ← hposted]
    rfl

theorem step_client {F : Type*} {fmt : IpacketFormat F} {id : Nat} {a : Client.Action}
    {s : System F} {c c' : Client F} (ha : a.direct = true) (hc : s.clients id = some c)
    (hs : Client.step fmt c a = some c') :
    step fmt s (.client id a) = some (advance id c c' s) := by
  rw [step, if_pos ha, clientStep, hc]
  exact congrArg (Option.map fun c' => advance id c c' s) hs

/-- The one packet of the example, and a run that receives it. -/
def packet7 : List UInt8 := packetBytes (bare 7) (List.replicate 32 0)

def receives7 : List (Action CpacketFormat) :=
  [.startClient .tcp (new (Vector.replicate maxBufferSize 0)), .client 1 (.complete 0 .connected),
    .client 1 (.handle 0), .client 1 (.complete 0 (.received packet7))] ++
  .client 1 (.handle 0) :: [.pop 0, .call 0, .finish 0, .pop 0, .call 0, .finish 0]

theorem receives7_run :
    ∃ s c, run (step (cpacketFormat noPast)) (loaded 1 30) receives7 = some s ∧
      s.clients 1 = some c ∧ c.arrived = [packet7] ∧ c.waiting = [] ∧
      s.tms.pending 0 = [] := by
  obtain ⟨pf, hfeed⟩ := (Client.bare_delivered 7).2.2 noPast (Vector.replicate maxBufferSize 0)
  obtain ⟨⟨ps, pf'⟩, hcall, hps⟩ := Option.bind_eq_some_iff.mp hfeed
  have hpackets : ps = [(bare 7).toPacket] := by
    have heq := (Prod.mk.inj (Option.some.inj hps)).1
    rwa [List.append_nil] at heq
  subst hpackets
  -- the read has put the packet into the empty buffer
  have hbuffer : (packet7 ++ [].drop packet7.length).take packet7.length = packet7 :=
    List.take_left
  -- the handler of the read, which calls the decoder
  have hhandle : Client.step (cpacketFormat noPast)
      { Client.started .tcp with
        isConnect := true
        socket := .connected
        outstanding := []
        completed := [.received packet7.length]
        recvBuffer := packet7 ++ [].drop packet7.length
        arrived := [packet7]
        posted := [.message .connect] } (.handle 0)
      = some { Client.started .tcp with
        isConnect := true
        socket := .connected
        outstanding := [.read]
        posted := [.message .connect, .message (.packet (bare 7).toPacket)]
        packetFormat := pf'
        recvBuffer := packet7 ++ [].drop packet7.length
        arrived := [packet7]
        received := [packet7] } := by
    show (formatRecvBuffer noPast (new (Vector.replicate maxBufferSize 0))
      ((packet7 ++ [].drop packet7.length).take packet7.length)).map (fun r => Client.doRead
        { Client.post (r.1.map fun p => Task.message (.packet p)) _ with
          packetFormat := r.2
          recvLastTimer := _
          received := [] ++ [(packet7 ++ [].drop packet7.length).take packet7.length] }) = _
    rw [hbuffer]
    unfold packet7
    rw [hcall]
    rfl
  exact ⟨_, _, run_append.mpr ⟨_, rfl, run_cons.mpr ⟨_, step_client rfl rfl hhandle, rfl⟩⟩, rfl,
    rfl, rfl, rfl⟩

/-- The second message of the stream has not arrived. -/
theorem delivered_receives7 :
    ∃ s, run (step (cpacketFormat noPast)) (loaded 1 30) receives7 = some s ∧
      ∃ k rest, rest ++ packetBytes (bare 8) (List.replicate 32 0)
          = ([packet7, packetBytes (bare 8) (List.replicate 32 0)].drop k).flatten ∧
        packetsHanded 1 s = ([bare 7, bare 8].take k).map Message.toPacket := by
  obtain ⟨s, c, hrun, hc, harrived, hnone, hidle⟩ := receives7_run
  have hfresh : ∀ transport pf, .startClient transport pf ∈ receives7 → ∃ junk, pf = new junk := by
    intro transport pf hmem
    simp only [receives7, List.cons_append, List.nil_append, List.mem_cons, List.not_mem_nil,
      or_false, reduceCtorEq, Action.startClient.injEq] at hmem
    exact ⟨_, hmem.2⟩
  have henc : List.Forall₂ EncodedAs [bare 7, bare 8]
      [packet7, packetBytes (bare 8) (List.replicate 32 0)] :=
    .cons (Client.bare_delivered 7).1 (.cons (Client.bare_delivered 8).1 .nil)
  have hlen : ∀ m ∈ [bare 7, bare 8], m.body.length ≤ 2008 := by decide
  have hone : Meets (step (cpacketFormat noPast)) (OneRead 1) (loaded 1 30) receives7 := by
    decide +kernel
  have hstream : c.arrived.flatten ++ packetBytes (bare 8) (List.replicate 32 0)
      = [packet7, packetBytes (bare 8) (List.replicate 32 0)].flatten := by
    rw [harrived]
    rfl
  obtain ⟨k, rest, -, hall⟩ := delivered noPast 1 30 receives7 s 1 c [bare 7, bare 8]
    [packet7, packetBytes (bare 8) (List.replicate 32 0)] _ (by decide) hfresh hone hrun hc henc
    hlen (by decide) hstream
  obtain ⟨hrest, -, hhanded⟩ := hall hnone
  exact ⟨s, hrun, k, rest, hrest, hhanded hidle⟩

end System

end PssClient
