import PssClient.Client.Interface
import PssClient.Lib.Run
import PssClient.Tms.Workers

/-!
# From the formatter to `do_message`

What happens to the packets of received data when any number of stream clients share the I/O
thread and the workers. The handler of a read calls `format_recv_buffer`, asks for the worker of
its client once and posts one message for every packet; between two of its steps other threads
may post messages of their own, and the workers may take any number of rounds.

* `System` / `step` — the I/O thread inside one handler at a time, the workers, and the logs of
  what the formatter has returned and of what `do_message` has been called with.
* `Routed` — the invariant: every packet on its way is with the worker of its client, and for
  each client what was handed over, what its worker has to call and what the handler has still to
  post are together what the formatter returned.
* `delivery` — the result: order, completeness and the worker.
-/

namespace PssClient.Delivery

open Machine Tms

/-- What a message will do when it is called. -/
inductive LogicMessage
  /-- The call of `do_message` with a received packet. -/
  | packet (connectId : Nat) (p : CrecvPacket)
  /-- Anything else that is posted: connection events, tasks of timers and of users. -/
  | other (task : Nat)

/-- The handler of a read, between its call of the formatter and its end. -/
structure ReadHandler where
  connectId : Nat
  logicThreadId : Nat
  recvPacketList : List CrecvPacket

/-- The way of the packets: the formatter, the handler that the I/O thread is in, and the workers.
What the formatter has returned and what has been handed over are recorded for each client. -/
structure System (F : Type*) where
  tms : Tms LogicMessage
  packetFormat : F
  io : Option ReadHandler := none
  -- the lists that `format_recv_buffer` returned, by client, and the calls of `do_message`
  returned : Nat → List CrecvPacket := fun _ => []
  handed : List (Nat × Nat × CrecvPacket) := []

variable {F : Type*}

/-- What can happen next. The handler of a read posts its packets one at a time, and everybody else
may come in between. -/
inductive Action
  /-- A read of a client completes and its handler runs up to the loop. -/
  | readComplete (connectId : Nat) (bytes : List UInt8)
  /-- The handler posts the next packet. -/
  | ioPush
  /-- The handler ends. -/
  | ioDone
  /-- Any thread posts a message that is no received packet. -/
  | addMessage (logicId : Nat) (task : Nat)
  | pop (logicId : Nat)
  | call (logicId : Nat)
  | finish (logicId : Nat)

/-- The handler of a read, up to its loop. -/
def readComplete (fmt : IpacketFormat F) (connectId : Nat) (bytes : List UInt8) (s : System F) :
    Option (System F) :=
  if s.io.isSome then none
  else (fmt.formatRecvBuffer connectId bytes s.packetFormat).map fun r =>
    { s with
      packetFormat := r.2
      io := some ⟨connectId, getTmsLogicId connectId s.tms, r.1⟩
      returned := Function.update s.returned connectId (s.returned connectId ++ r.1) }

/-- One round of the loop. -/
def ioPush (s : System F) : Option (System F) :=
  match s.io with
  | some ⟨connectId, logicThreadId, p :: recvPacketList⟩ =>
    some { s with
      tms := s.tms.addMessage logicThreadId (.packet connectId p)
      io := some ⟨connectId, logicThreadId, recvPacketList⟩ }
  | _ => none

/-- The loop is over, and the handler asks for the next read. -/
def ioDone (s : System F) : Option (System F) :=
  match s.io with
  | some ⟨_, _, []⟩ => some { s with io := none }
  | _ => none

/-- A worker calls its message. -/
def call (logicId : Nat) (s : System F) : Option (System F) :=
  (s.tms.call logicId).map fun r =>
    match r.1 with
    | .packet connectId p =>
      { s with tms := r.2, handed := s.handed ++ [(logicId, connectId, p)] }
    | .other _ => { s with tms := r.2 }

def step (fmt : IpacketFormat F) (s : System F) : Action → Option (System F)
  | .readComplete connectId bytes => readComplete fmt connectId bytes s
  | .ioPush => ioPush s
  | .ioDone => ioDone s
  | .addMessage logicId task => some { s with tms := s.tms.addMessage logicId (.other task) }
  | .pop logicId => (s.tms.pop logicId).map fun tms => { s with tms := tms }
  | .call logicId => call logicId s
  | .finish logicId => (s.tms.finish logicId).map fun tms => { s with tms := tms }

/-- The system when `load_module` has returned. -/
def loaded (threadCount : Nat) (pf : F) : System F where
  tms := loadModule threadCount
  packetFormat := pf

/-! ## The packets of one client -/

/-- The packet that a message carries for a client. -/
def packetOf (connectId : Nat) : LogicMessage → Option CrecvPacket
  | .packet c p => if c = connectId then some p else none
  | .other _ => none

/-- The packets of a client among the messages. -/
def packetsOf (connectId : Nat) (msgs : List LogicMessage) : List CrecvPacket :=
  msgs.filterMap (packetOf connectId)

/-- The packets that `do_message` has been called with for a client. -/
def handedTo (s : System F) (connectId : Nat) : List CrecvPacket :=
  s.handed.filterMap fun h => if h.2.1 = connectId then some h.2.2 else none

/-- The packets that the I/O thread has still to post for a client. -/
def unposted (s : System F) (connectId : Nat) : List CrecvPacket :=
  match s.io with
  | some h => if h.connectId = connectId then h.recvPacketList else []
  | none => []

/-- The invariant of the deliveries. Packets of a client are only ever with its own worker, and what
has been handed over, what waits there and what the running handler has still to post are together
what the formatter has returned, in this order. -/
structure Routed (n : Nat) (s : System F) : Prop where
  count : s.tms.logicThreadCount = n
  workers : ∀ id, id < n → (s.tms.mapLogicList id).isSome = true
  handler : ∀ h, s.io = some h → h.logicThreadId = h.connectId % n
  -- a packet waits with the worker of its client only
  queued : ∀ id connectId p, .packet connectId p ∈ s.tms.pending id → id = connectId % n
  called : ∀ h ∈ s.handed, h.1 = h.2.1 % n
  complete : ∀ connectId, handedTo s connectId
    ++ packetsOf connectId (s.tms.pending (connectId % n)) ++ unposted s connectId
      = s.returned connectId

theorem packetsOf_append (connectId : Nat) (msgs msgs' : List LogicMessage) :
    packetsOf connectId (msgs ++ msgs') = packetsOf connectId msgs ++ packetsOf connectId msgs' :=
  List.filterMap_append

theorem packetsOf_packet (connectId c : Nat) (p : CrecvPacket) :
    packetsOf connectId [.packet c p] = if c = connectId then [p] else [] := by
  by_cases hc : c = connectId <;> simp [packetsOf, packetOf, hc]

theorem handedTo_concat (s : System F) (tms : Tms LogicMessage) (id c connectId : Nat)
    (p : CrecvPacket) :
    handedTo { s with tms := tms, handed := s.handed ++ [(id, c, p)] } connectId
      = handedTo s connectId ++ if c = connectId then [p] else [] := by
  unfold handedTo
  rw [List.filterMap_append]
  by_cases hc : c = connectId <;> simp [hc]

theorem routed_loaded {n : Nat} (pf : F) : Routed n (loaded n pf) := by
  obtain ⟨hcount, hmap⟩ := loadModule_eq (M := LogicMessage) n
  have hempty : ∀ id, (loaded n pf).tms.pending id = [] := pending_loadModule n
  constructor
  · exact hcount
  · intro id hid
    show ((loadModule n : Tms LogicMessage).mapLogicList id).isSome = true
    rw [hmap id, if_pos hid]
    rfl
  · rintro h ⟨⟩
  · intro id connectId p hmem
    rw [hempty id] at hmem
    cases hmem
  · intro h hmem
    cases hmem
  · intro connectId
    rw [hempty]
    rfl

/-! ## The steps keep it -/

/-- The workers change, but not what they have to call. -/
theorem routed_of_pending_eq {n : Nat} {s : System F} {tms : Tms LogicMessage} (h : Routed n s)
    (hsame : SameWorkers s.tms tms) (hpending : ∀ id, tms.pending id = s.tms.pending id) :
    Routed n { s with tms := tms } where
  count := hsame.count.trans h.count
  workers := fun id hid => (hsame.workers id).trans (h.workers id hid)
  handler := h.handler
  queued := fun id connectId p hmem => h.queued id connectId p (hpending id ▸ hmem)
  called := h.called
  complete := fun connectId => by
    rw [← h.complete connectId]
    show handedTo s connectId ++ packetsOf connectId (tms.pending _) ++ unposted s connectId = _
    rw [hpending]

theorem routed_readComplete {fmt : IpacketFormat F} {n connectId : Nat} {bytes : List UInt8}
    {s s' : System F} (hn : 0 < n) (h : Routed n s)
    (hstep : readComplete fmt connectId bytes s = some s') : Routed n s' := by
  unfold readComplete at hstep
  split at hstep
  · cases hstep
  case isFalse hio =>
    obtain ⟨r, -, rfl⟩ := Option.map_eq_some_iff.mp hstep
    have hnone : s.io = none := by simpa using hio
    refine { h with handler := ?_, complete := ?_ }
    · rintro hd ⟨⟩
      exact getTmsLogicId_eq h.count hn connectId
    · intro c
      have hbefore := h.complete c
      rw [show unposted s c = [] by rw [unposted, hnone], List.append_nil] at hbefore
      show handedTo s c ++ packetsOf c (s.tms.pending (c % n))
        ++ (if connectId = c then r.1 else []) = Function.update s.returned connectId _ c
      rw [hbefore]
      by_cases hc : connectId = c
      · subst hc
        rw [if_pos rfl, Function.update_self]
      · rw [if_neg hc, Function.update_of_ne (Ne.symm hc), List.append_nil]

/-- The handler posts its next packet, with the worker of its client: the packet goes from what is
still to be posted to the end of what waits. -/
theorem routed_ioPush {n : Nat} {s s' : System F} (hn : 0 < n) (h : Routed n s)
    (hstep : ioPush s = some s') : Routed n s' := by
  unfold ioPush at hstep
  split at hstep
  case h_1 connectId logicThreadId p recvPacketList hio =>
    obtain rfl := Option.some.inj hstep
    have hid : logicThreadId = connectId % n := h.handler _ hio
    subst hid
    obtain ⟨hsame, hself, hothers⟩ := addMessage_spec
      (h.workers (connectId % n) (Nat.mod_lt _ hn)) (.packet connectId p)
    constructor
    · exact hsame.count.trans h.count
    · exact fun id hid => (hsame.workers id).trans (h.workers id hid)
    · rintro hd ⟨⟩
      rfl
    · intro id c q hmem
      by_cases hid : id = connectId % n
      · subst hid
        rw [hself] at hmem
        rcases List.mem_append.mp hmem with hold | hnew
        · exact h.queued _ c q hold
        · cases List.mem_singleton.mp hnew
          rfl
      · rw [hothers id hid] at hmem
        exact h.queued id c q hmem
    · exact h.called
    · intro c
      have hbefore := h.complete c
      rw [show unposted s c = if connectId = c then p :: recvPacketList else [] by
        rw [unposted, hio]] at hbefore
      rw [← hbefore]
      show handedTo s c ++ packetsOf c ((s.tms.addMessage _ _).pending (c % n))
        ++ (if connectId = c then recvPacketList else []) = _
      by_cases hc : connectId = c
      · -- the packet moves from the handler to the end of the queue
        subst hc
        rw [hself, packetsOf_append, packetsOf_packet, if_pos rfl, if_pos rfl, if_pos rfl]
        simp
      · rw [if_neg hc, if_neg hc]
        by_cases hid : c % n = connectId % n
        · rw [hid, hself, packetsOf_append, packetsOf_packet, if_neg hc]
          simp
        · rw [hothers _ hid]
  case h_2 => cases hstep

theorem routed_ioDone {n : Nat} {s s' : System F} (h : Routed n s)
    (hstep : ioDone s = some s') : Routed n s' := by
  unfold ioDone at hstep
  split at hstep
  case h_1 connectId logicThreadId hio =>
    obtain rfl := Option.some.inj hstep
    refine { h with handler := ?_, complete := ?_ }
    · rintro hd ⟨⟩
    · intro c
      rw [← h.complete c]
      show handedTo s c ++ packetsOf c (s.tms.pending (c % n)) ++ [] = _
      rw [show unposted s c = [] by rw [unposted, hio]; exact ite_self _]
  case h_2 => cases hstep

/-- Another thread posts something that is no received packet. -/
theorem routed_addMessage {n logicId task : Nat} {s : System F} (h : Routed n s) :
    Routed n { s with tms := s.tms.addMessage logicId (.other task) } := by
  by_cases hworker : (s.tms.mapLogicList logicId).isSome = true
  · obtain ⟨hsame, hself, hothers⟩ := addMessage_spec hworker (.other task)
    refine { h with
      count := hsame.count.trans h.count
      workers := fun id hid => (hsame.workers id).trans (h.workers id hid)
      queued := ?_
      complete := ?_ }
    · intro id c q hmem
      by_cases hid : id = logicId
      · subst hid
        rw [hself] at hmem
        rcases List.mem_append.mp hmem with hold | hnew
        · exact h.queued _ c q hold
        · cases List.mem_singleton.mp hnew
      · rw [hothers id hid] at hmem
        exact h.queued id c q hmem
    · intro c
      rw [← h.complete c]
      show handedTo s c ++ packetsOf c ((s.tms.addMessage logicId _).pending (c % n))
        ++ unposted s c = _
      by_cases hid : c % n = logicId
      · rw [hid, hself, packetsOf_append]
        show handedTo s c ++ (packetsOf c (s.tms.pending logicId) ++ []) ++ unposted s c = _
        rw [List.append_nil]
      · rw [hothers _ hid]
  · have hnone : s.tms.mapLogicList logicId = none := by simpa using hworker
    rw [addMessage_none hnone]
    exact { h with }

/-- A worker calls what it has taken. If it is a packet, the packet goes from the front of what
waits to the end of what has been handed over. -/
theorem routed_call {n logicId : Nat} {s s' : System F} (h : Routed n s)
    (hstep : call logicId s = some s') : Routed n s' := by
  obtain ⟨⟨msg, tms⟩, hcall, rfl⟩ := Option.map_eq_some_iff.mp hstep
  obtain ⟨hsame, hself, hothers⟩ := call_spec hcall
  have hqueued : ∀ id c q, .packet c q ∈ tms.pending id → id = c % n := by
    intro id c q hmem
    by_cases hid : id = logicId
    · subst hid
      exact h.queued _ c q (hself ▸ List.mem_cons_of_mem _ hmem)
    · exact h.queued id c q (hothers id hid ▸ hmem)
  cases msg with
  | other task =>
    refine { h with
      count := hsame.count.trans h.count
      workers := fun id hid => (hsame.workers id).trans (h.workers id hid)
      queued := hqueued
      complete := ?_ }
    intro c
    rw [← h.complete c]
    show handedTo s c ++ packetsOf c (tms.pending (c % n)) ++ unposted s c = _
    by_cases hid : c % n = logicId
    · rw [hid, hself]
      rfl
    · rw [hothers _ hid]
  | packet connectId p =>
    -- a worker has packets of its own clients only
    have hid : logicId = connectId % n :=
      h.queued logicId connectId p (hself ▸ List.mem_cons_self)
    subst hid
    refine { h with
      count := hsame.count.trans h.count
      workers := fun id hid => (hsame.workers id).trans (h.workers id hid)
      queued := hqueued
      called := ?_
      complete := ?_ }
    · intro hd hmem
      rcases List.mem_append.mp hmem with hold | hnew
      · exact h.called hd hold
      · rw [List.mem_singleton.mp hnew]
    · intro c
      rw [← h.complete c]
      show handedTo { s with tms := tms, handed := s.handed ++ [(connectId % n, connectId, p)] } c
        ++ packetsOf c (tms.pending (c % n)) ++ unposted s c = _
      rw [handedTo_concat]
      have hcons : ∀ msgs, packetsOf c (.packet connectId p :: msgs)
          = (if connectId = c then [p] else []) ++ packetsOf c msgs := by
        intro msgs
        rw [← packetsOf_packet, ← packetsOf_append]
        rfl
      by_cases hid : c % n = connectId % n
      · rw [hid, hself, hcons]
        simp
      · have hc : connectId ≠ c := fun hc => hid (hc ▸ rfl)
        rw [hothers _ hid, if_neg hc, List.append_nil]

/-- One step. -/
theorem routed_step {fmt : IpacketFormat F} {n : Nat} {s s' : System F} {a : Action} (hn : 0 < n)
    (h : Routed n s) (hstep : step fmt s a = some s') : Routed n s' := by
  cases a with
  | readComplete connectId bytes => exact routed_readComplete hn h hstep
  | ioPush => exact routed_ioPush hn h hstep
  | ioDone => exact routed_ioDone h hstep
  | addMessage logicId task =>
    obtain rfl := Option.some.inj hstep
    exact routed_addMessage h
  | pop logicId =>
    obtain ⟨tms, hpop, rfl⟩ := Option.map_eq_some_iff.mp hstep
    obtain ⟨hsame, hpending⟩ := pop_spec hpop
    exact routed_of_pending_eq h hsame hpending
  | call logicId => exact routed_call h hstep
  | finish logicId =>
    obtain ⟨tms, hfinish, rfl⟩ := Option.map_eq_some_iff.mp hstep
    obtain ⟨hsame, hpending⟩ := finish_spec hfinish
    exact routed_of_pending_eq h hsame hpending

/-- A worker whose queue is empty and that is not about to call anything. -/
def Idle (s : System F) (logicId : Nat) : Prop :=
  ∃ task, s.tms.mapLogicList logicId = some task ∧ task.threadQueue = [] ∧
    (match task.svc with | .idle => True | _ => False)

/-- **Ordered exactly-once delivery.** After `load_module` with at least one thread, in every run
of reads, posts and rounds of the workers: the packets that `do_message` has been called with for
a client are the beginning of what the formatter returned for it, each of the calls was made by
the worker `connect_id` modulo the number of threads, and once that worker is idle with an empty
queue only the packets that the I/O thread is about to post are missing. -/
theorem delivery (fmt : IpacketFormat F) (threadCount : Nat) (pf : F) (as : List Action)
    (s : System F) (hcount : 0 < threadCount)
    (hrun : run (step fmt) (loaded threadCount pf) as = some s) (connectId : Nat) :
    handedTo s connectId <+: s.returned connectId ∧
      (∀ h ∈ s.handed, h.2.1 = connectId → h.1 = connectId % threadCount) ∧
      (Idle s (connectId % threadCount) →
        handedTo s connectId ++ unposted s connectId = s.returned connectId) := by
  have h : Routed threadCount s := invariant_of_run (Routed threadCount)
    (fun _ _ _ h hs => routed_step hcount h hs) (routed_loaded pf) hrun
  have hcomplete := h.complete connectId
  refine ⟨?_, ?_, ?_⟩
  · rw [← hcomplete, List.append_assoc]
    exact List.prefix_append _ _
  · intro hd hmem heq
    rw [h.called hd hmem, heq]
  · rintro ⟨task, htask, hqueue, hidle⟩
    have hpending : s.tms.pending (connectId % threadCount) = [] := by
      rw [pending_of_some htask]
      rcases task with ⟨threadQueue, _ | msg | _⟩
      · exact hqueue
      · exact hidle.elim
      · exact hidle.elim
    rw [hpending] at hcomplete
    rw [← hcomplete]
    show _ = handedTo s connectId ++ [] ++ unposted s connectId
    rw [List.append_nil]

/-- A formatter that makes one packet of every piece. -/
def pieceFormat : IpacketFormat Unit where
  formatRecvBuffer _ recvBuffer pf := some ([⟨0, recvBuffer, recvBuffer.length⟩], pf)
  formatSendBuffer _ _ buffer bufferLength _ pf := some (buffer, bufferLength, pf)

/-- Client 3 has two threads' second one as its worker; a timer's message gets in between. -/
def twoPieces : List Action :=
  [.readComplete 3 [1], .addMessage 1 0, .ioPush, .ioDone, .readComplete 3 [2], .pop 1, .call 1,
    .finish 1, .ioPush, .pop 1, .call 1, .finish 1, .pop 1, .call 1, .finish 1]

theorem delivery_twoPieces :
    ∃ s, run (step pieceFormat) (loaded 2 ()) twoPieces = some s ∧
      s.handed = [(1, 3, ⟨0, [1], 1⟩), (1, 3, ⟨0, [2], 1⟩)] ∧
      handedTo s 3 <+: s.returned 3 ∧ handedTo s 3 ++ unposted s 3 = s.returned 3 := by
  have hstate : ∃ s, run (step pieceFormat) (loaded 2 ()) twoPieces = some s ∧
      s.handed = [(1, 3, ⟨0, [1], 1⟩), (1, 3, ⟨0, [2], 1⟩)] ∧ Idle s (3 % 2) :=
    ⟨_, rfl, rfl, _, rfl, rfl, trivial⟩
  obtain ⟨s, hrun, hhanded, hidle⟩ := hstate
  obtain ⟨horder, -, hwhole⟩ := delivery pieceFormat 2 () twoPieces s (by decide) hrun 3
  exact ⟨s, hrun, hhanded, horder, hwhole hidle⟩

/-- The handler of the read has its packet still to post: the worker is idle with an empty queue,
and what `do_message` has been called with is not the whole of what the formatter returned. -/
theorem returned_before_posted :
    ∃ s, run (step pieceFormat) (loaded 2 ()) [.readComplete 3 [1]] = some s ∧ Idle s (3 % 2) ∧
      handedTo s 3 ≠ s.returned 3 := by
  refine ⟨_, rfl, ⟨_, rfl, rfl, trivial⟩, ?_⟩
  show ([] : List CrecvPacket) ≠ [⟨0, [1], 1⟩]
  exact (List.cons_ne_nil _ _).symm

end PssClient.Delivery
