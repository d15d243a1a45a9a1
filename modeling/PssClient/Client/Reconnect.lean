import PssClient.Client.Rules
import PssClient.Lib.Run
import PssClient.Wire.Session

/-!
# What a second connection delivers

A client keeps its formatter when it reconnects, and neither `reconnect` nor `connect_handler`
resets it: the bytes of an unfinished packet stay in the ring and the next connection's bytes are
put behind them.

* `run_feed` — over any run, the packets posted are what the decoder makes of the pieces received,
  whatever else happens meanwhile.
* `ReceivesExactly` — from this state on, these pieces deliver these packets, whatever lies behind
  the ring's array.
* `second_connection` — the result. With nothing held, the second connection's packets are
  delivered exactly when they fit the array from where the ring's front lies; with anything held,
  some packet that a fresh decoder would deliver is not delivered.
-/

namespace PssClient.Client

open Machine CpacketFormat

variable {past : Nat → Option UInt8}

/-- The packet that a task carries. -/
def taskPacket : Task → Option CrecvPacket
  | .message (.packet p) => some p
  | _ => none

/-- The packets posted for the client. -/
def packetsPosted {F : Type*} (s : Client F) : List CrecvPacket := s.posted.filterMap taskPacket

/-! ## Runs feed the decoder -/

/-- Neither the decoder nor the posted packets have changed. -/
structure Same (s t : Client CpacketFormat) : Prop where
  received : t.received = s.received
  packets : packetsPosted t = packetsPosted s
  decoder : t.packetFormat = withSend t.packetFormat.sendBuffer s.packetFormat

theorem Same.refl (s : Client CpacketFormat) : Same s s := ⟨rfl, rfl, rfl⟩

theorem Same.trans {s t u : Client CpacketFormat} (hst : Same s t) (htu : Same t u) :
    Same s u := by
  refine ⟨htu.received.trans hst.received, htu.packets.trans hst.packets, ?_⟩
  have hdecoder := htu.decoder
  rw [hst.decoder] at hdecoder
  exact hdecoder

theorem same_startOp (op : Op) (s : Client CpacketFormat) : Same s (startOp op s) := by
  unfold startOp
  split <;> exact ⟨rfl, rfl, rfl⟩

theorem same_reconnect (s : Client CpacketFormat) : Same s (reconnect s) := by
  unfold reconnect
  split
  · unfold startConnect
    split <;> exact ⟨rfl, rfl, rfl⟩
  · exact Same.refl s

theorem same_post (s : Client CpacketFormat) (tasks : List Task)
    (h : tasks.filterMap taskPacket = []) : Same s (post tasks s) := by
  refine ⟨rfl, ?_, rfl⟩
  show (s.posted ++ tasks).filterMap taskPacket = _
  rw [List.filterMap_append, h, List.append_nil]
  rfl

theorem same_closeSocket (s : Client CpacketFormat) : Same s (closeSocket s) := ⟨rfl, rfl, rfl⟩

theorem same_connectionLost (s : Client CpacketFormat) : Same s (connectionLost s) := by
  have hpost := same_post s [.message .disconnect] rfl
  unfold connectionLost
  dsimp only
  split
  · exact (hpost.trans (same_closeSocket _)).trans (same_post _ [.reconnect] rfl)
  · exact hpost

theorem same_complete {i : Nat} {outcome : Outcome} {s s' : Client CpacketFormat}
    (hstep : complete i outcome s = some s') : Same s s' := by
  obtain ⟨op, c, socket, buffer, -, -, rfl⟩ := ends_of_complete hstep
  exact ⟨rfl, rfl, rfl⟩

/-- Formatting a message to send leaves the decoder alone. -/
theorem formatted_decoder {connectId : Nat} {commandId : Int16} {data : List UInt8} {length : Nat}
    {pf : CpacketFormat} {r : List UInt8 × CpacketFormat}
    (h : formatted (cpacketFormat past) connectId commandId data length pf = some r) :
    r.2 = withSend r.2.sendBuffer pf := by
  obtain ⟨⟨packet, n, pf'⟩, hsend, h⟩ := Option.bind_eq_some_iff.mp h
  obtain ⟨bytes, -, rfl⟩ := Option.map_eq_some_iff.mp h
  exact formatSendBuffer_withSend hsend

/-- The pieces received on the way from `s` to `t`, the packets they gave, and the decoder. -/
structure Fed (past : Nat → Option UInt8) (s t : Client CpacketFormat)
    (chunks : List (List UInt8)) (ps : List CrecvPacket) (pf : CpacketFormat) : Prop where
  received : t.received = s.received ++ chunks
  packets : packetsPosted t = packetsPosted s ++ ps
  feeds : feed past s.packetFormat chunks = some (ps, pf)
  decoder : t.packetFormat = withSend t.packetFormat.sendBuffer pf

theorem Same.fed {s t : Client CpacketFormat} (h : Same s t) : Fed past s t [] [] s.packetFormat :=
  ⟨by rw [h.received, List.append_nil], by rw [h.packets, List.append_nil], rfl, h.decoder⟩

/-- The handler of a received piece is one call of the decoder. -/
theorem fed_received {bytes : List UInt8} {s : Client CpacketFormat}
    {ps : List CrecvPacket} {pf : CpacketFormat}
    (hcall : formatRecvBuffer past s.packetFormat bytes = some (ps, pf)) :
    Fed past s (doRead { post (ps.map fun p => .message (.packet p)) s with
      packetFormat := pf
      recvLastTimer := s.now
      received := s.received ++ [bytes] }) [bytes] ps pf := by
  have hpackets : (ps.map fun p => Task.message (.packet p)).filterMap taskPacket = ps := by
    rw [List.filterMap_map]
    exact List.filterMap_some
  obtain ⟨hreceived, hposted, hdecoder⟩ := same_startOp .read
    { post (ps.map fun p => .message (.packet p)) s with
      packetFormat := pf
      recvLastTimer := s.now
      received := s.received ++ [bytes] }
  refine ⟨hreceived, hposted.trans ?_, ?_, hdecoder⟩
  · show (s.posted ++ ps.map fun p => Task.message (.packet p)).filterMap taskPacket = _
    rw [List.filterMap_append, hpackets]
    rfl
  · rw [feed, hcall, Option.bind_some, feed, Option.map_some, List.append_nil]

/-- A handler hands at most one piece to the decoder. -/
theorem fed_handler {c : Completion} {s s' : Client CpacketFormat}
    (hstep : Handles (cpacketFormat past) s c s') : ∃ chunks ps pf, Fed past s s' chunks ps pf := by
  have hsame : Same s s' → ∃ chunks ps pf, Fed past s s' chunks ps pf :=
    fun h => ⟨_, _, _, h.fed⟩
  cases hstep with
  | connected =>
    have hpost : Same s { post [.message .connect] { s with isConnect := true } with
        recvLastTimer := s.now } := ⟨rfl, (same_post s [.message .connect] rfl).packets, rfl⟩
    exact hsame (hpost.trans (same_startOp .read _))
  | connectFailed => exact hsame ⟨rfl, (same_post s [.message .disconnect] rfl).packets, rfl⟩
  | received bytes r hcall => exact ⟨_, _, _, fed_received hcall⟩
  | readFailed => exact hsame (same_connectionLost s)
  | sentAll => exact hsame ⟨rfl, rfl, rfl⟩
  | sentPart => exact hsame (same_startOp _ s)
  | writeFailed =>
    obtain ⟨hreceived, hpackets, hdecoder⟩ := same_connectionLost s
    exact hsame ⟨hreceived, hpackets, hdecoder⟩

/-- **One step hands at most one piece to the decoder.** Only the handler of a read does; the
decoder is not touched by anything else, and `format_send_buffer` does not touch its ring. -/
theorem fed_step {s s' : Client CpacketFormat} {a : Action}
    (hstep : step (cpacketFormat past) s a = some s') :
    ∃ chunks ps pf, Fed past s s' chunks ps pf := by
  have hsame : Same s s' → ∃ chunks ps pf, Fed past s s' chunks ps pf :=
    fun h => ⟨_, _, _, h.fed⟩
  cases does_of_step hstep with
  | complete hcomplete => exact hsame (same_complete hcomplete)
  | handle hget hhandler =>
    obtain ⟨chunks, ps, pf, hfed⟩ := fed_handler hhandler
    exact ⟨chunks, ps, pf, hfed.received, hfed.packets, hfed.feeds, hfed.decoder⟩
  -- the other steps hand over nothing
  | message => exact hsame ⟨rfl, rfl, rfl⟩
  | reconnect =>
    have hran : Same s { s with ran := s.ran + 1 } := ⟨rfl, rfl, rfl⟩
    exact hsame (hran.trans (same_reconnect _))
  | late => exact hsame ⟨rfl, rfl, rfl⟩
  | inTime => exact hsame (Same.refl s)
  | timeCheck => exact hsame ⟨rfl, rfl, rfl⟩
  | timeReconnect =>
    have hsession : Same s { s with timeoutSession := none } := ⟨rfl, rfl, rfl⟩
    exact hsame (hsession.trans (same_reconnect _))
  | closeClient => exact hsame ⟨rfl, rfl, rfl⟩
  | reconnectServer => exact hsame (same_reconnect s)
  | sendData => exact hsame (same_startOp _ s)
  | refused => exact hsame (same_post s [.message .disconnect] rfl)
  | sendFormatData r hreg hopen hformat =>
    have hpf : Same s { s with packetFormat := r.2 } := ⟨rfl, rfl, formatted_decoder hformat⟩
    exact hsame (hpf.trans (same_startOp _ _))
  | unknown => exact hsame (Same.refl s)
  | tick d => exact hsame ⟨rfl, rfl, rfl⟩

theorem Fed.trans {s t u : Client CpacketFormat} {chunks later : List (List UInt8)}
    {ps qs : List CrecvPacket} {pf pf' : CpacketFormat} (hst : Fed past s t chunks ps pf)
    (htu : Fed past t u later qs pf') :
    ∃ pf'', Fed past s u (chunks ++ later) (ps ++ qs) pf'' := by
  have hfeeds := htu.feeds
  rw [hst.decoder, feed_withSend] at hfeeds
  obtain ⟨⟨qs', pf₁⟩, hlater, heq⟩ := Option.map_eq_some_iff.mp hfeeds
  obtain ⟨rfl, rfl⟩ := Prod.mk.inj heq
  refine ⟨pf₁, ?_, ?_, ?_, ?_⟩
  · rw [htu.received, hst.received, List.append_assoc]
  · rw [htu.packets, hst.packets, List.append_assoc]
  · rw [feed_append hst.feeds, hlater, Option.map_some]
  · exact htu.decoder

/-- **Runs feed the decoder.** The packets that a run posts are what the decoder makes of the
pieces received during the run. Induction on the run. -/
theorem run_feed {s t : Client CpacketFormat} {as : List Action}
    (hrun : run (step (cpacketFormat past)) s as = some t) :
    ∃ chunks ps pf, Fed past s t chunks ps pf := by
  refine invariant_of_run (fun u => ∃ chunks ps pf, Fed past s u chunks ps pf) ?_
    ⟨_, _, _, (Same.refl s).fed⟩ hrun
  rintro u a u' ⟨chunks, ps, pf, hfed⟩ hstep
  obtain ⟨later, qs, pf', hfed'⟩ := fed_step hstep
  obtain ⟨pf'', h⟩ := hfed.trans hfed'
  exact ⟨_, _, _, h⟩

/-- Whatever a client has received, the decoder holds less than a packet. -/
theorem holds_of_run {s t : Client CpacketFormat} {as : List Action} {off : Nat}
    {held : List UInt8} (h : Holds s.packetFormat off held)
    (hlt : held.length < maxPacketBufferSize + packetHeadSize)
    (hrun : run (step (cpacketFormat past)) s as = some t) :
    ∃ off' rest, Holds t.packetFormat off' rest ∧
      rest.length < maxPacketBufferSize + packetHeadSize := by
  obtain ⟨chunks, ps, pf, hfed⟩ := run_feed hrun
  obtain ⟨off', rest, hpf, hrest⟩ := holds_feed h hlt hfed.feeds
  refine ⟨off', rest, ?_, hrest⟩
  rw [hfed.decoder]
  exact hpf.withSend _

/-! ## Receiving -/

/-- A run from `s` to `t` during which exactly these pieces are received. -/
def Receives (past : Nat → Option UInt8) (s : Client CpacketFormat) (chunks : List (List UInt8))
    (t : Client CpacketFormat) : Prop :=
  ∃ as, run (step (cpacketFormat past)) s as = some t ∧ t.received = s.received ++ chunks

/-- From `s` on, the pieces can be received, and however they are, they deliver the packets. -/
def ReceivesExactly (s : Client CpacketFormat) (chunks : List (List UInt8))
    (ps : List CrecvPacket) : Prop :=
  ∀ past, (∃ t, Receives past s chunks t) ∧
    ∀ t, Receives past s chunks t → packetsPosted t = packetsPosted s ++ ps

theorem Receives.feeds {s t : Client CpacketFormat} {chunks : List (List UInt8)}
    (h : Receives past s chunks t) :
    ∃ ps pf, feed past s.packetFormat chunks = some (ps, pf) ∧
      packetsPosted t = packetsPosted s ++ ps := by
  obtain ⟨as, hrun, hreceived⟩ := h
  obtain ⟨chunks', ps, pf, hfed⟩ := run_feed hrun
  have hsame := hfed.received
  rw [hreceived, List.append_right_inj] at hsame
  subst hsame
  exact ⟨ps, pf, hfed.feeds, hfed.packets⟩

/-- A client with a read outstanding on an open socket can receive any pieces that the decoder has
a result for: each read completes and its handler runs. Induction on the pieces. -/
theorem exists_receives {chunks : List (List UInt8)} {s : Client CpacketFormat}
    {ps : List CrecvPacket} {pf : CpacketFormat} (hread : .read ∈ s.outstanding)
    (hsocket : s.socket ≠ .closed)
    (hchunks : ∀ chunk ∈ chunks, chunk ≠ [] ∧ chunk.length ≤ recvBufferMaxSize)
    (hfeed : feed past s.packetFormat chunks = some (ps, pf)) :
    ∃ t, Receives past s chunks t := by
  induction chunks generalizing s ps pf with
  | nil => exact ⟨s, [], rfl, (List.append_nil _).symm⟩
  | cons chunk chunks ih =>
    rw [feed] at hfeed
    obtain ⟨⟨ps₁, pf₁⟩, hcall, hfeed⟩ := Option.bind_eq_some_iff.mp hfeed
    obtain ⟨⟨ps₂, pf₂⟩, hfeed₂, -⟩ := Option.map_eq_some_iff.mp hfeed
    obtain ⟨hne, hlen⟩ := hchunks chunk List.mem_cons_self
    obtain ⟨i, hi, hget⟩ := List.getElem_of_mem hread
    -- the read at `i` completes, and the handler of the last completion is its own
    let s₀ : Client CpacketFormat := { s with
      outstanding := s.outstanding.eraseIdx i
      completed := s.completed ++ [.received chunk.length]
      recvBuffer := chunk ++ s.recvBuffer.drop chunk.length
      arrived := s.arrived ++ [chunk] }
    have hcomplete : complete i (.received chunk) s = some s₀ := by
      unfold complete
      rw [List.getElem?_eq_getElem hi, hget]
      exact if_pos ⟨hlen, fun _ => hne⟩
    have hbuffer : s₀.recvBuffer.take chunk.length = chunk := List.take_left
    have hhandle : ∃ s₁, step (cpacketFormat past) s₀ (.handle s.completed.length) = some s₁ ∧
        .read ∈ s₁.outstanding ∧ s₁.socket ≠ .closed ∧ s₁.packetFormat = pf₁ ∧
        s₁.received = s.received ++ [chunk] := by
      have hlast : (s.completed ++ [Completion.received chunk.length])[s.completed.length]?
          = some (Completion.received chunk.length) := List.getElem?_concat_length
      refine ⟨{ s₀ with
        outstanding := s.outstanding.eraseIdx i ++ [.read]
        completed := (s.completed ++ [Completion.received chunk.length]).eraseIdx
          s.completed.length
        posted := s.posted ++ ps₁.map fun p => .message (.packet p)
        packetFormat := pf₁
        recvLastTimer := s.now
        received := s.received ++ [chunk] }, ?_, ?_, hsocket, rfl, rfl⟩
      · show ((s.completed ++ [Completion.received chunk.length])[s.completed.length]?.bind
          fun _ => _) = _
        rw [hlast, Option.bind_some]
        show (formatRecvBuffer past s.packetFormat (s₀.recvBuffer.take chunk.length)).map _ = _
        rw [hbuffer, hcall, Option.map_some]
        show some (if s.socket = .closed then _ else _) = _
        rw [if_neg hsocket]
        rfl
      · exact List.mem_append_right _ (List.mem_singleton_self _)
    obtain ⟨s₁, hhandle, hread₁, hsocket₁, rfl, hreceived₁⟩ := hhandle
    obtain ⟨t, as, hrun, hreceived⟩ :=
      ih hread₁ hsocket₁ (fun c hc => hchunks c (List.mem_cons_of_mem _ hc)) hfeed₂
    refine ⟨t, .complete i (.received chunk) :: .handle s.completed.length :: as,
      run_cons.mpr ⟨_, hcomplete, run_cons.mpr ⟨_, hhandle, hrun⟩⟩, ?_⟩
    rw [hreceived, hreceived₁]
    exact List.append_assoc _ _ _

/-! ## The second connection -/

/-- Nothing is held: the packets are delivered exactly when they fit. -/
theorem receivesExactly_iff {s : Client CpacketFormat} {off : Nat} {ps : List CrecvPacket}
    {packets chunks : List (List UInt8)} (hread : .read ∈ s.outstanding)
    (hsocket : s.socket ≠ .closed) (h : Holds s.packetFormat off [])
    (hp : List.Forall₂ IsPacket ps packets) (hcut : chunks.flatten = packets.flatten)
    (hchunks : ∀ chunk ∈ chunks, chunk ≠ [] ∧ chunk.length ≤ recvBufferMaxSize) :
    ReceivesExactly s chunks ps ↔ StreamFits off ps := by
  have hall : [] ++ chunks.flatten = packets.flatten := by rwa [List.nil_append]
  have hlen : ∀ chunk ∈ chunks, chunk.length ≤ recvBufferMaxSize := fun c hc => (hchunks c hc).2
  constructor
  · intro hexactly
    by_contra hfits
    obtain ⟨t, ht⟩ := (hexactly noPast).1
    obtain ⟨ps', pf, hfeed, -⟩ := ht.feeds
    rw [feed_undefined hp h (unfinished_nil hp) hall hlen hfits] at hfeed
    cases hfeed
  · intro hfits past
    obtain ⟨pf, hfeed, -⟩ := feed_of_streamFits hp h (unfinished_nil hp) hall hlen hfits past
    refine ⟨exists_receives hread hsocket hchunks hfeed, fun t ht => ?_⟩
    obtain ⟨ps', pf', hfeed', hpackets⟩ := ht.feeds
    rw [hfeed] at hfeed'
    rw [hpackets, (Prod.mk.inj (Option.some.inj hfeed')).1]

/-- Something is held, and the packet's command would be read elsewhere. -/
theorem not_receivesExactly {s : Client CpacketFormat} {off : Nat} {held : List UInt8}
    (h : Holds s.packetFormat off held)
    (hlt : held.length < maxPacketBufferSize + packetHeadSize) {m : Message}
    {packet : List UInt8} (hpacket : IsPacket m.toPacket packet)
    (hcommand : headCommand (held ++ packet) ≠ m.commandId) :
    ¬ ReceivesExactly s [packet] [m.toPacket] := by
  intro hexactly
  obtain ⟨⟨t, ht⟩, hpackets⟩ := hexactly noPast
  obtain ⟨ps, pf, hfeed, hposted⟩ := ht.feeds
  have hps := hpackets t ht
  rw [hposted, List.append_right_inj] at hps
  subst hps
  rw [feed] at hfeed
  obtain ⟨⟨ps₁, pf₁⟩, hcall, hfeed⟩ := Option.bind_eq_some_iff.mp hfeed
  rw [feed, Option.map_some, List.append_nil] at hfeed
  obtain ⟨rfl, rfl⟩ := Prod.mk.inj (Option.some.inj hfeed)
  exact formatRecvBuffer_ne_of_held h hlt hpacket hcommand _ hcall

/-- A bare packet from a fresh object; any fresh decoder delivers it. -/
theorem bare_delivered (commandId : Int16) :
    EncodedAs (bare commandId) (packetBytes (bare commandId) (List.replicate 32 0)) ∧
      IsPacket (bare commandId).toPacket (packetBytes (bare commandId) (List.replicate 32 0)) ∧
      ∀ past junk, ∃ pf, feed past (new junk) [packetBytes (bare commandId) (List.replicate 32 0)]
        = some ([(bare commandId).toPacket], pf) := by
  have hlen : (bare commandId).body.length + packetHeadSize ≤ maxPacketSendSize := by
    show 0 + packetHeadSize ≤ maxPacketSendSize
    decide
  have hencoded := encodedAs_packetBytes (bare commandId) hlen
  have hpacket := hencoded.isPacket hlen
  refine ⟨hencoded, hpacket, fun past junk => ?_⟩
  have hp : List.Forall₂ IsPacket [(bare commandId).toPacket]
      [packetBytes (bare commandId) (List.replicate 32 0)] := .cons hpacket .nil
  obtain ⟨pf, hfeed, -⟩ := feed_of_streamFits hp (holds_new junk) (unfinished_nil hp) rfl
    (by
      intro chunk hchunk
      rw [List.mem_singleton.mp hchunk, hpacket.length]
      show 0 + packetHeadSize ≤ recvBufferMaxSize
      decide)
    (show StreamFits 0 [(bare commandId).toPacket] from
      ⟨show 0 + 8 ≤ maxBufferSize by decide, trivial⟩) past
  exact ⟨pf, hfeed⟩

/-- **What a second connection delivers.** A stream client with `cpacket_format` has run in any
way, and the handler of a connect that succeeded starts to read. If the decoder holds nothing,
the packets of the new connection are delivered, in any run, exactly when none of them runs over
the end of the ring's array. If it holds anything, there is a packet, delivered by every fresh
decoder, that is not delivered as it is. -/
theorem second_connection (past : Nat → Option UInt8) (junk : Vector UInt8 maxBufferSize)
    (connectId : Nat) (timerCheckSeconds : Int) (as : List Action) (s s' : Client CpacketFormat)
    (i : Nat)
    (hrun : run (step (cpacketFormat past)) (start .tcp connectId timerCheckSeconds (new junk)) as
      = some s)
    (hget : s.completed[i]? = some .connected) (hsocket : s.socket = .connected)
    (hstep : step (cpacketFormat past) s (.handle i) = some s') :
    (s'.packetFormat.currBufferSize = 0 →
      ∀ (ms : List Message) (packets chunks : List (List UInt8)),
        List.Forall₂ EncodedAs ms packets → (∀ m ∈ ms, m.body.length ≤ 2008) →
        chunks.flatten = packets.flatten →
        (∀ chunk ∈ chunks, chunk ≠ [] ∧ chunk.length ≤ recvBufferMaxSize) →
        (ReceivesExactly s' chunks (ms.map Message.toPacket) ↔
          StreamFits s'.packetFormat.recvBuffer.offset (ms.map Message.toPacket))) ∧
    (s'.packetFormat.currBufferSize ≠ 0 →
      ∃ (m : Message) (packet : List UInt8), EncodedAs m packet ∧ m.body.length ≤ 2008 ∧
        (∀ past junk, ∃ pf, feed past (new junk) [packet] = some ([m.toPacket], pf)) ∧
        ¬ ReceivesExactly s' [packet] [m.toPacket]) := by
  have hrun' := run_append.mpr ⟨s, hrun, run_singleton hstep⟩
  -- what the decoder holds when the new connection begins, of whatever history
  obtain ⟨off, held, h, hlt⟩ :=
    holds_of_run (s := start .tcp connectId timerCheckSeconds (new junk)) (holds_new junk)
      (by decide) hrun'
  rw [step, hget, Option.bind_some] at hstep
  have hstep' := Option.some.inj hstep
  -- the handler has started a read
  have hread : Op.read ∈ s'.outstanding ∧ s'.socket ≠ .closed := by
    rw [← hstep', connectHandler, if_pos rfl, doRead, startOp, if_neg (by simp [post, hsocket])]
    exact ⟨List.mem_append_right _ (List.mem_singleton_self _), by simp [post, hsocket]⟩
  have hcount := h.count
  constructor
  · -- an empty ring, which begins anywhere: the stream fits from there or not
    intro hzero ms packets chunks henc hlen hcut hchunks
    have hnil : held = [] := List.eq_nil_of_length_eq_zero (by omega)
    subst hnil
    rw [h.front]
    refine receivesExactly_iff hread.1 hread.2 h (isPacket_of_encodedAs henc fun m hm => ?_) hcut
      hchunks
    have := hlen m hm
    unfold packetHeadSize maxPacketSendSize
    omega
  · -- what is held is taken for the beginning of the new stream, and spoils its first head
    intro hbuffered
    have hne : held ≠ [] := by
      rintro rfl
      exact hbuffered hcount
    obtain ⟨commandId, hcommand⟩ := headCommand_held held hne
    obtain ⟨hencoded, hpacket, hfresh⟩ := bare_delivered commandId
    exact ⟨bare commandId, _, hencoded, Nat.zero_le _, hfresh,
      not_receivesExactly h hlt hpacket hcommand⟩

/-- The connection is lost before anything has been received, and a new one is established. -/
def emptyRun : List Action :=
  [.complete 0 .connected, .handle 0, .complete 0 .failed, .handle 0, .runTask, .runTask,
    .runTask, .complete 0 .connected]

theorem second_connection_after_emptyRun :
    ∃ s s', run (step (cpacketFormat noPast)) (started .tcp) emptyRun = some s ∧
      s.attempts = 2 ∧ step (cpacketFormat noPast) s (.handle 0) = some s' ∧
      ReceivesExactly s' [packetBytes (bare 7) (List.replicate 32 0)] [(bare 7).toPacket] := by
  have hstates : ∃ s s', run (step (cpacketFormat noPast)) (started .tcp) emptyRun = some s ∧
      s.attempts = 2 ∧ s.completed[0]? = some .connected ∧ s.socket = .connected ∧
      step (cpacketFormat noPast) s (.handle 0) = some s' ∧
      s'.packetFormat = new (Vector.replicate maxBufferSize 0) :=
    ⟨_, _, rfl, rfl, rfl, rfl, rfl, rfl⟩
  obtain ⟨s, s', hrun, hattempts, hget, hsocket, hstep, hpf⟩ := hstates
  have hnew := holds_new (Vector.replicate maxBufferSize 0)
  rw [← hpf] at hnew
  obtain ⟨hencoded, hpacket, -⟩ := bare_delivered 7
  refine ⟨s, s', hrun, hattempts, hstep, ?_⟩
  have hiff := (second_connection noPast _ 1 30 emptyRun s s' 0 hrun hget hsocket hstep).1
    hnew.count [bare 7] [packetBytes (bare 7) (List.replicate 32 0)]
    [packetBytes (bare 7) (List.replicate 32 0)] (.cons hencoded .nil)
  refine (hiff ?_ rfl ?_).mpr ?_
  · intro m hm
    rw [List.mem_singleton.mp hm]
    exact Nat.zero_le _
  · intro chunk hchunk
    rw [List.mem_singleton.mp hchunk]
    decide
  · rw [hnew.front]
    exact ⟨show 0 + 8 ≤ maxBufferSize by decide, trivial⟩

/-- One byte arrives before the connection is lost. -/
def breakingRun : List Action :=
  [.complete 0 .connected, .handle 0, .complete 0 (.received [1])] ++
    .handle 0 :: [.complete 0 .failed, .handle 0, .runTask, .runTask, .runTask,
      .complete 0 .connected]

theorem one_byte_held (junk : Vector UInt8 maxBufferSize) :
    ∃ pf, formatRecvBuffer noPast (new junk) [1] = some ([], pf) ∧ Holds pf 0 [1] := by
  obtain ⟨pf₁, hpf₁, hcall⟩ := formatRecvBuffer_eq (holds_new junk)
    (show ([] : List UInt8).length + [1].length < maxBufferSize by decide) noPast
  have hwait : bytesRound ([] ++ [1]) = .wait [1] := rfl
  have hfits : LoopFits 0 ([] ++ [1]) :=
    (loopFits_leave (by rw [hwait]; simp)).mpr fun hlen => absurd hlen (by decide)
  obtain ⟨pf, hloop, hleft⟩ := parseLoop_of_fits hpf₁ hfits noPast
  rw [parseBytes_wait hwait] at hloop hleft
  exact ⟨pf, hcall.trans hloop, hleft⟩

theorem second_connection_contaminated :
    ∃ s s', run (step (cpacketFormat noPast)) (started .tcp) breakingRun = some s ∧
      s.attempts = 2 ∧ s.completed[0]? = some .connected ∧ s.socket = .connected ∧
      step (cpacketFormat noPast) s (.handle 0) = some s' ∧
      EncodedAs (bare 1) (packetBytes (bare 1) (List.replicate 32 0)) ∧
      (∀ past junk, ∃ pf, feed past (new junk) [packetBytes (bare 1) (List.replicate 32 0)]
        = some ([(bare 1).toPacket], pf)) ∧
      ¬ ReceivesExactly s' [packetBytes (bare 1) (List.replicate 32 0)] [(bare 1).toPacket] := by
  obtain ⟨pf, hcall, hheld⟩ := one_byte_held (Vector.replicate maxBufferSize 0)
  obtain ⟨hencoded, hpacket, hfresh⟩ := bare_delivered 1
  -- the state in which the byte has been handled
  have hhandle : step (cpacketFormat noPast)
      { started .tcp with
        isConnect := true
        socket := .connected
        outstanding := []
        completed := [.received 1]
        recvBuffer := [1]
        arrived := [[1]]
        posted := [.message .connect] } (.handle 0)
      = some { started .tcp with
        isConnect := true
        socket := .connected
        outstanding := [.read]
        posted := [.message .connect]
        packetFormat := pf
        recvBuffer := [1]
        arrived := [[1]]
        received := [[1]] } := by
    show (formatRecvBuffer noPast (new (Vector.replicate maxBufferSize 0)) [1]).map _ = _
    rw [hcall]
    rfl
  refine ⟨_, _, run_append.mpr ⟨_, rfl, run_cons.mpr ⟨_, hhandle, rfl⟩⟩, rfl, rfl, rfl, rfl,
    hencoded, hfresh, ?_⟩
  exact not_receivesExactly (show Holds pf 0 [1] from hheld) (by decide) hpacket (by decide)

end PssClient.Client
