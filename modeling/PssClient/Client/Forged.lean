import PssClient.Client.Posts
import PssClient.Client.Reconnect
import PssClient.Wire.Heads

/-!
# Lifecycle events and received packets

`do_message` is told what has happened by the command id alone: `connect_command_id`,
`disconnect_command_id` and `time_check_command_id` are three ids like any other, and a received
packet may carry them.

* `commandIds_of_run` — the ids of the packets posted are those that the stream carries, whatever
  lies behind the ring's array, as long as no head runs over its end.
* `calls` — the calls of `do_message`, each with its source; `Originated` says where they come from.
* `not_forged_iff` — the result: no received packet is taken for a lifecycle event exactly when the
  stream holds none with such an id. `forged_connect` is one that does.
-/

namespace PssClient

open Machine Pool CpacketFormat

def connectCommandId : Int16 := 1

def disconnectCommandId : Int16 := 2

def timeCheckCommandId : Int16 := 3

/-- `command_id_` of the packet that `do_message` is called with. -/
def Event.commandId : Event → Int16
  | .connect => connectCommandId
  | .disconnect => disconnectCommandId
  | .timeCheck _ => timeCheckCommandId
  | .packet p => p.commandId

/-- The ids of the lifecycle events. -/
def IsLifecycle (commandId : Int16) : Prop :=
  commandId = connectCommandId ∨ commandId = disconnectCommandId ∨ commandId = timeCheckCommandId

/-- `connect_handler`, the handler of an operation that has failed, a send that is refused, or
`do_check_timeout`. -/
def Source.isLifecycle : Source → Bool
  | .handler _ .connected | .handler _ .connectFailed => true
  | .handler _ .readFailed | .handler _ .writeFailed => true
  | .handler _ (.received _) | .handler _ (.sent _ _) => false
  | .call | .timeout => true

namespace Tracked

variable {F : Type*} {fmt : IpacketFormat F} {past : Nat → Option UInt8}

/-- The packets posted carry the ids of the stream received, as long as its heads lie inside the
array. -/
theorem commandIds_of_run {junk : Vector UInt8 maxBufferSize} {connectId : Nat}
    {timerCheckSeconds : Int} {as : List Client.Action} {t : Tracked CpacketFormat}
    (hrun : run (step (cpacketFormat past)) (start .tcp connectId timerCheckSeconds (new junk)) as
      = some t) (hfit : FeedHeadsFit 0 [] t.client.received) :
    commandIds (Client.packetsPosted t.client) = commandIds (feedBytes [] t.client.received) := by
  obtain ⟨chunks, ps, pf, hfed⟩ := Client.run_feed (run_client hrun)
  have hreceived : t.client.received = chunks := hfed.received
  have hpackets : Client.packetsPosted t.client = ps := hfed.packets
  rw [hreceived] at hfit ⊢
  rw [hpackets]
  exact feed_of_headsFit (holds_new junk) hfit hfed.feeds

/-! ## Where the calls come from -/

/-- The calls of `do_message` with their sources. -/
def calls (t : Tracked F) : List (Event × Source) := t.client.messages.zip t.origins

/-- The source that a posted task has. Each kind of event is posted in one place of the source only,
so that a task says who has posted it. -/
def HasSource : Task → Source → Prop
  | .message (.packet _), src => src.isLifecycle = false
  | .message _, src => src.isLifecycle = true
  | .reconnect, _ => True

/-- What a handler posts has the handler as its source: a packet if bytes were received, and an
event of the library's own if an operation has ended. -/
theorem hasSource_of_handlerPosts {s : Client F} {c : Completion} {new : List Task} (tag : OpTag)
    (h : Client.HandlerPosts fmt s c new) : ∀ task ∈ new, HasSource task (.handler tag c) := by
  have hlost : ∀ c : Completion, (Source.handler tag c).isLifecycle = true →
      new = .message .disconnect :: (if s.isClientClose = false then [.reconnect] else []) →
      ∀ task ∈ new, HasSource task (.handler tag c) := by
    intro c hc hnew task htask
    rw [hnew] at htask
    rcases List.mem_cons.mp htask with rfl | htask
    · exact hc
    · split at htask
      · obtain rfl := List.mem_singleton.mp htask
        trivial
      · cases htask
  cases c with
  | connected =>
    obtain rfl : new = [.message .connect] := h
    exact fun task htask => List.mem_singleton.mp htask ▸ rfl
  | connectFailed =>
    obtain rfl : new = [.message .disconnect] := h
    exact fun task htask => List.mem_singleton.mp htask ▸ rfl
  | received bytes =>
    obtain ⟨r, -, rfl⟩ := h
    intro task htask
    obtain ⟨p, -, rfl⟩ := List.mem_map.mp htask
    rfl
  | sent rest sendLength =>
    obtain rfl : new = [] := h
    exact fun task htask => absurd htask List.not_mem_nil
  | readFailed => exact hlost .readFailed rfl h
  | writeFailed => exact hlost .writeFailed rfl h

/-- The invariant: every task has the source of what has posted it, and every call of `do_message`
has that of the task that has made it, or is the one of `do_check_timeout`. -/
structure Originated (t : Tracked F) : Prop where
  aligned : Aligned t
  sources : t.sources.length = t.client.posted.length
  origins : t.origins.length = t.client.messages.length
  posted : ∀ p ∈ t.postedFrom, HasSource p.1 p.2
  -- a call is made by a task, whose source it has, or by `do_check_timeout`
  called : ∀ c ∈ t.calls, (.message c.1, c.2) ∈ t.postedFrom ∨
    ∃ seconds, c = (.timeCheck seconds, .timeout)
  behind : t.client.ran ≤ t.postedFrom.length
  -- the tasks that have run have made their calls
  ran : ∀ i < t.client.ran, ∀ e src, t.postedFrom[i]? = some (.message e, src) → (e, src) ∈ t.calls

/-- The tasks that a step adds have sources of their kind. -/
theorem posted_step {t t' : Tracked F} {a : Client.Action} (h : Originated t)
    (hs : step fmt t a = some t') :
    t'.sources.length = t'.client.posted.length ∧
      ∃ new, t'.postedFrom = t.postedFrom ++ new ∧ ∀ p ∈ new, HasSource p.1 p.2 := by
  obtain ⟨s', hs', ht'⟩ := Option.map_eq_some_iff.mp hs
  have hclient : t'.client = s' := ht' ▸ rfl
  by_cases ha : ∃ i, a = .handle i
  · obtain ⟨i, rfl⟩ := ha
    obtain ⟨c, hc, hhandler⟩ := Option.bind_eq_some_iff.mp hs'
    obtain ⟨tag, htag, -⟩ := forall₂_getElem? h.aligned.completed hc
    obtain ⟨-, hby⟩ := postedBy_handle hc htag
    obtain ⟨new, hnew, hposts⟩ := Client.posted_of_handler (Client.handles_of_handler hhandler)
    obtain ⟨hlength, hfrom⟩ := postedFrom_of_step h.sources hs (hclient ▸ hnew)
    refine ⟨hlength, _, hfrom, fun p hp => ?_⟩
    obtain ⟨task, htask, rfl⟩ := List.mem_map.mp hp
    rw [hby]
    exact hasSource_of_handlerPosts tag hposts task htask
  · have ha' : ∀ i, a ≠ .handle i := fun i heq => ha ⟨i, heq⟩
    obtain ⟨-, hby⟩ := postedBy_other (t := t) ha'
    obtain ⟨new, hnew, herrors⟩ := Client.posted_of_other ha' hs'
    obtain ⟨hlength, hfrom⟩ := postedFrom_of_step h.sources hs (hclient ▸ hnew)
    refine ⟨hlength, _, hfrom, fun p hp => ?_⟩
    obtain ⟨task, htask, rfl⟩ := List.mem_map.mp hp
    rw [hby, herrors task htask]
    rfl

/-- The calls that a step adds have the step's source. -/
theorem calls_of_step {t t' : Tracked F} {a : Client.Action} {new : List Event}
    (hlength : t.origins.length = t.client.messages.length) (hs : step fmt t a = some t')
    (hnew : t'.client.messages = t.client.messages ++ new) :
    t'.origins.length = t'.client.messages.length ∧
      t'.calls = t.calls ++ new.map fun e => (e, t.calledBy a) := by
  obtain ⟨s', -, rfl⟩ := Option.map_eq_some_iff.mp hs
  exact zip_extend (t.calledBy a) hlength hnew

/-- The task in front with its source. -/
theorem postedFrom_ran {t : Tracked F} {task : Task}
    (hlength : t.sources.length = t.client.posted.length)
    (hget : t.client.posted[t.client.ran]? = some task) :
    t.postedFrom[t.client.ran]? = some (task, t.calledBy .runTask) := by
  obtain ⟨hlt, -⟩ := List.getElem?_eq_some_iff.mp hget
  have hsource : t.sources[t.client.ran]? = some (t.calledBy .runTask) := by
    rw [calledBy, List.getElem?_eq_getElem (hlength ▸ hlt)]
    rfl
  exact List.getElem?_zip_eq_some.mpr ⟨hget, hsource⟩

/-- A step keeps the sources right. The handlers post with the completion that they are for, a
refused send and `timer_check` with their own, and the worker passes on what the task has. -/
theorem originated_step {t t' : Tracked F} {a : Client.Action} (h : Originated t)
    (hs : step fmt t a = some t') : Originated t' := by
  obtain ⟨hsources, new, hfrom, hnew⟩ := posted_step h hs
  have haligned := aligned_step h.aligned hs
  have hposted : ∀ p ∈ t'.postedFrom, HasSource p.1 p.2 := by
    rw [hfrom]
    intro p hp
    rcases List.mem_append.mp hp with hold | hadded
    · exact h.posted p hold
    · exact hnew p hadded
  have hkept : ∀ p ∈ t.postedFrom, p ∈ t'.postedFrom := fun p hp =>
    hfrom ▸ List.mem_append_left new hp
  have hlength : t.postedFrom.length = t.client.posted.length := by
    rw [postedFrom, List.length_zip, h.sources, Nat.min_self]
  obtain ⟨s', hs', ht'⟩ := Option.map_eq_some_iff.mp hs
  have hclient : t'.client = s' := ht' ▸ rfl
  rcases Client.messages_of_step hs' with ⟨rfl, task, hget, -, hran, hmessages⟩ |
    ⟨hother, hran, hmessages⟩
  · -- the task in front is run
    obtain ⟨horigins, hcalls⟩ := calls_of_step h.origins hs (hclient ▸ hmessages)
    have hfront := postedFrom_ran h.sources hget
    obtain ⟨hfrontlt, -⟩ := List.getElem?_eq_some_iff.mp hfront
    have hbehind : t'.client.ran ≤ t'.postedFrom.length := by
      rw [hclient, hran, hfrom, List.length_append]
      omega
    refine ⟨haligned, hsources, horigins, hposted, ?_, hbehind, ?_⟩
    · intro c hc
      rw [hcalls] at hc
      rcases List.mem_append.mp hc with hold | hadded
      · exact (h.called c hold).imp_left (hkept _)
      · obtain ⟨e, he, rfl⟩ := List.mem_map.mp hadded
        cases task with
        | message e' =>
          obtain rfl := List.mem_singleton.mp he
          exact .inl (hkept _ (List.mem_of_getElem? hfront))
        | reconnect => cases he
    · intro i hi e src hi'
      rw [hclient, hran] at hi
      rw [hcalls]
      rw [hfrom, List.getElem?_append_left (by omega)] at hi'
      rcases Nat.lt_succ_iff_lt_or_eq.mp hi with hbefore | rfl
      · exact List.mem_append_left _ (h.ran i hbefore e src hi')
      · rw [hfront] at hi'
        obtain ⟨rfl, rfl⟩ := Prod.mk.inj (Option.some.inj hi')
        exact List.mem_append_right _ (List.mem_singleton_self _)
  · have hbehind : t'.client.ran ≤ t'.postedFrom.length := by
      rw [hclient, hran, hfrom, List.length_append]
      exact Nat.le_trans h.behind (Nat.le_add_right _ _)
    -- no task is run, so that the calls made before are enough
    have hran' : ∀ calls : List (Event × Source), t'.calls = t.calls ++ calls →
        ∀ i < t'.client.ran, ∀ e src, t'.postedFrom[i]? = some (.message e, src) →
          (e, src) ∈ t'.calls := by
      intro calls hcalls i hi e src hi'
      rw [hclient, hran] at hi
      rw [hfrom, List.getElem?_append_left (Nat.lt_of_lt_of_le hi h.behind)] at hi'
      rw [hcalls]
      exact List.mem_append_left _ (h.ran i hi e src hi')
    rcases hmessages with hsame | ⟨rfl, seconds, hcheck⟩
    · have hnone : t'.client.messages = t.client.messages ++ [] :=
        hclient ▸ hsame.trans (List.append_nil _).symm
      obtain ⟨horigins, hcalls⟩ := calls_of_step h.origins hs hnone
      refine ⟨haligned, hsources, horigins, hposted, ?_, hbehind, hran' _ hcalls⟩
      intro c hc
      rw [hcalls, List.map_nil, List.append_nil] at hc
      exact (h.called c hc).imp_left (hkept _)
    · obtain ⟨horigins, hcalls⟩ := calls_of_step h.origins hs (hclient ▸ hcheck)
      refine ⟨haligned, hsources, horigins, hposted, ?_, hbehind, hran' _ hcalls⟩
      intro c hc
      rw [hcalls] at hc
      rcases List.mem_append.mp hc with hold | hadded
      · exact (h.called c hold).imp_left (hkept _)
      · obtain rfl := List.mem_singleton.mp hadded
        exact .inr ⟨seconds, rfl⟩

theorem originated_of_run {transport : Transport} {connectId : Nat} {timerCheckSeconds : Int}
    {pf : F} {as : List Client.Action} {t : Tracked F}
    (hrun : run (step fmt) (start transport connectId timerCheckSeconds pf) as = some t) :
    Originated t := by
  refine invariant_of_run Originated (fun _ _ _ => originated_step) ?_ hrun
  obtain ⟨hposted, hran, hmessages, -⟩ :=
    Client.start_posted transport connectId timerCheckSeconds pf
  have hfrom : (start transport connectId timerCheckSeconds pf).postedFrom = [] := by
    show (Client.start transport connectId timerCheckSeconds pf).posted.zip [] = []
    rw [hposted]
    rfl
  have hcalls : (start transport connectId timerCheckSeconds pf).calls = [] := by
    show (Client.start transport connectId timerCheckSeconds pf).messages.zip [] = []
    rw [hmessages]
    rfl
  refine ⟨aligned_start _ _ _ _, (congrArg List.length hposted).symm,
    (congrArg List.length hmessages).symm, ?_, ?_, ?_, ?_⟩
  · rw [hfrom]
    exact fun p hp => absurd hp List.not_mem_nil
  · rw [hcalls]
    exact fun c hc => absurd hc List.not_mem_nil
  · rw [hfrom]
    exact Nat.le_of_eq hran
  · intro i hi
    exact absurd (hran ▸ hi) (Nat.not_lt_zero i)

/-! ## Forged events -/

/-- No packet of the stream carries the id of a lifecycle event. -/
def NoLifecycle (chunks : List (List UInt8)) : Prop :=
  ∀ commandId ∈ commandIds (feedBytes [] chunks), ¬ IsLifecycle commandId

/-- The ids that `do_message` is told a lifecycle event by come from one: no call with the id 1, 2
or 3 has a packet behind it. -/
def Genuine (t : Tracked F) : Prop :=
  ∀ c ∈ t.calls, IsLifecycle c.1.commandId → c.2.isLifecycle = true

/-- A packet with such an id has been posted, or every call is genuine. -/
theorem Originated.genuine {t : Tracked F} (h : Originated t)
    (hposted : ∀ p ∈ Client.packetsPosted t.client, ¬ IsLifecycle p.commandId) : Genuine t := by
  rintro ⟨e, src⟩ hc hid
  rcases h.called _ hc with hpost | ⟨seconds, heq⟩
  · have hsource : HasSource (.message e) src := h.posted _ hpost
    cases e with
    | connect => exact hsource
    | disconnect => exact hsource
    | timeCheck seconds => exact hsource
    | packet p =>
      have hmem : p ∈ Client.packetsPosted t.client :=
        List.mem_filterMap.mpr ⟨.message (.packet p), (List.of_mem_zip hpost).1, rfl⟩
      exact absurd hid (hposted p hmem)
  · obtain ⟨-, rfl⟩ := Prod.mk.inj heq
    rfl

/-- When all tasks have run, a packet that has been posted has been handed to `do_message`. -/
theorem Originated.posted_not_lifecycle {t : Tracked F} (h : Originated t)
    (hall : t.client.ran = t.client.posted.length) (hgenuine : Genuine t) :
    ∀ p ∈ Client.packetsPosted t.client, ¬ IsLifecycle p.commandId := by
  intro p hp hid
  obtain ⟨task, htask, heq⟩ := List.mem_filterMap.mp hp
  obtain rfl : task = .message (.packet p) := by
    cases task with
    | message e =>
      cases e with
      | packet p' => rw [Option.some.inj heq]
      | _ => cases heq
    | reconnect => cases heq
  obtain ⟨i, hi, hget⟩ := List.getElem_of_mem htask
  have hsource : ∃ src, t.postedFrom[i]? = some (.message (.packet p), src) := by
    have hi' : i < t.sources.length := h.sources.symm ▸ hi
    refine ⟨t.sources[i], List.getElem?_zip_eq_some.mpr ⟨?_, List.getElem?_eq_getElem hi'⟩⟩
    rw [List.getElem?_eq_getElem hi, hget]
  obtain ⟨src, hsrc⟩ := hsource
  have hfalse : src.isLifecycle = false := h.posted _ (List.mem_of_getElem? hsrc)
  have htrue : src.isLifecycle = true := hgenuine _ (h.ran i (hall ▸ hi) _ _ hsrc) hid
  rw [hfalse] at htrue
  cases htrue

/-- **Lifecycle events cannot be forged — unless a packet has their ids.** In every run of a stream
client with `cpacket_format`, whatever the remote side sends and whatever lies behind the ring's
array, as long as no head of a packet runs over its end: when no packet of the stream received so
far carries the id of a lifecycle event, every call of `do_message` with such an id comes from
`connect_handler`, from an operation that has failed or from `do_check_timeout`. And once the worker
has run all its tasks, that is so only when no packet of the stream carries one. -/
theorem not_forged_iff (past : Nat → Option UInt8) (junk : Vector UInt8 maxBufferSize)
    (connectId : Nat) (timerCheckSeconds : Int) (as : List Client.Action)
    (t : Tracked CpacketFormat)
    (hrun : run (step (cpacketFormat past)) (start .tcp connectId timerCheckSeconds (new junk)) as
      = some t) (hfit : FeedHeadsFit 0 [] t.client.received) :
    (NoLifecycle t.client.received → Genuine t) ∧
      (t.client.ran = t.client.posted.length → (Genuine t ↔ NoLifecycle t.client.received)) := by
  have h := originated_of_run hrun
  have hids : NoLifecycle t.client.received ↔
      ∀ p ∈ Client.packetsPosted t.client, ¬ IsLifecycle p.commandId := by
    rw [NoLifecycle, ← commandIds_of_run hrun hfit]
    exact List.forall_mem_map
  have hgenuine : NoLifecycle t.client.received → Genuine t := fun hstream =>
    h.genuine (hids.mp hstream)
  exact ⟨hgenuine, fun hall => ⟨fun hcalls => hids.mpr (h.posted_not_lifecycle hall hcalls),
    hgenuine⟩⟩

/-- The server sends one packet without a body. -/
def barePacket (commandId : Int16) : List UInt8 :=
  packetBytes (bare commandId) (List.replicate 32 0)

/-- The client connects and receives the packet, and the worker runs both tasks. -/
def packetRun (commandId : Int16) : List Client.Action :=
  [.complete 0 .connected, .handle 0, .complete 0 (.received (barePacket commandId)), .handle 0,
    .runTask, .runTask]

theorem packetRun_calls (commandId : Int16) :
    ∃ t, run (step (cpacketFormat noPast)) (started .tcp) (packetRun commandId) = some t ∧
      t.client.received = [barePacket commandId] ∧
      t.calls = [(.connect, .handler ⟨0, 1, .connect⟩ .connected),
        (.packet (bare commandId).toPacket,
          .handler ⟨1, 1, .read⟩ (.received (barePacket commandId).length))] := by
  obtain ⟨-, hpacket, hfresh⟩ := Client.bare_delivered commandId
  obtain ⟨pf, hfeed⟩ := hfresh noPast (Vector.replicate maxBufferSize 0)
  -- the read has put the packet into the empty buffer
  have hbuffer : (barePacket commandId ++ [].drop (barePacket commandId).length).take
      (barePacket commandId).length = barePacket commandId := List.take_left
  have hcall : formatRecvBuffer noPast (new (Vector.replicate maxBufferSize 0))
      ((barePacket commandId ++ [].drop (barePacket commandId).length).take
        (barePacket commandId).length) = some ([(bare commandId).toPacket], pf) := by
    rw [hbuffer]
    rw [feed] at hfeed
    obtain ⟨⟨ps₁, pf₁⟩, hcall, hfeed⟩ := Option.bind_eq_some_iff.mp hfeed
    rw [feed, Option.map_some, List.append_nil] at hfeed
    exact hcall.trans hfeed
  have hlen : (barePacket commandId).length = packetHeadSize := hpacket.length
  -- the read completes with the packet
  have hcomplete : (barePacket commandId).length ≤ recvBufferMaxSize ∧
      (Transport.tcp = .tcp → barePacket commandId ≠ []) := by
    refine ⟨by rw [hlen]; decide, fun _ hnil => ?_⟩
    rw [hnil] at hlen
    cases hlen
  refine ⟨?final, run_cons.mpr ⟨_, rfl, run_cons.mpr ⟨_, rfl, run_cons.mpr ⟨?read, ?reads,
    run_cons.mpr ⟨?parsed, ?parses, ?runs⟩⟩⟩⟩, ?received, ?calls⟩
  case reads => exact congrArg (Option.map _) (if_pos (e := none) hcomplete)
  case parses => exact congrArg (Option.map _) (congrArg (Option.map _) hcall)
  case runs => exact rfl
  case received => exact congrArg (fun piece => [piece]) hbuffer
  case calls => exact rfl

/-- The flat decoder finds the bare packet, and its head lies inside the array. -/
theorem feedBytes_barePacket (commandId : Int16) :
    feedBytes [] [barePacket commandId] = [(bare commandId).toPacket] ∧
      FeedHeadsFit 0 [] [barePacket commandId] := by
  obtain ⟨-, hpacket, -⟩ := Client.bare_delivered commandId
  have hpacket' : IsPacket (bare commandId).toPacket (barePacket commandId) := hpacket
  have hround : bytesRound (barePacket commandId) = .packet (bare commandId).toPacket [] := by
    simpa using hpacket'.round []
  have hroom : ¬ ([] : List UInt8).length + (barePacket commandId).length ≥ maxBufferSize := by
    rw [hpacket'.length]
    show ¬ 0 + (0 + packetHeadSize) ≥ maxBufferSize
    decide
  constructor
  · rw [feedBytes, if_neg hroom, List.nil_append, parseBytes_packet hround, parseBytes_nil]
    rfl
  · rw [FeedHeadsFit, if_neg hroom, List.nil_append]
    refine ⟨(loopHeadsFit_packet hround).mpr ⟨fun _ => by decide, ?_⟩, trivial⟩
    exact (loopFits_nil _).loopHeadsFit

/-- A packet with an id of its own is no lifecycle event. -/
theorem not_forged_packetRun :
    ∃ t, run (step (cpacketFormat noPast)) (started .tcp) (packetRun 7) = some t ∧
      t.calls.length = 2 ∧ Genuine t := by
  obtain ⟨t, hrun, hreceived, hcalls⟩ := packetRun_calls 7
  obtain ⟨hbytes, hfit⟩ := feedBytes_barePacket 7
  refine ⟨t, hrun, hcalls ▸ rfl, ?_⟩
  refine (not_forged_iff noPast (Vector.replicate maxBufferSize 0) 1 30 (packetRun 7) t hrun
    (hreceived ▸ hfit)).1 ?_
  rw [NoLifecycle, hreceived, hbytes]
  intro commandId hmem
  rw [List.mem_singleton.mp hmem]
  show ¬ IsLifecycle 7
  unfold IsLifecycle
  decide

/-- The server sends a packet with the id of the connect event. -/
theorem forged_connect :
    ∃ t p tag length, run (step (cpacketFormat noPast)) (started .tcp) (packetRun 1) = some t ∧
      (.packet p, .handler tag (.received length)) ∈ t.calls ∧
      p.commandId = connectCommandId ∧
      ¬ Genuine t := by
  obtain ⟨t, hrun, -, hcalls⟩ := packetRun_calls 1
  have hmem : (.packet (bare 1).toPacket,
      .handler ⟨1, 1, .read⟩ (.received (barePacket 1).length)) ∈ t.calls := by
    rw [hcalls]
    exact .tail _ (.head _)
  refine ⟨t, _, _, _, hrun, hmem, rfl, fun hall => ?_⟩
  exact absurd (hall _ hmem (.inl rfl)) (by decide)

end Tracked

end PssClient
