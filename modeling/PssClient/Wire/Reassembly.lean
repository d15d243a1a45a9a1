import PssClient.Wire.Stream
import Mathlib.Data.List.Forall2

/-!
# Stream reassembly

Messages are encoded by `format_send_buffer`, the packets are concatenated, the stream is cut
into pieces at arbitrary places and the pieces are fed to `format_recv_buffer`.

## The architecture

* `packetBytes` / `formatSendBuffer_eq` — what the encoder puts out for a message that is not
  too large, from any state of its scratch buffer.
* `bytesRound_packetBytes` / `bytesRound_unfinished` — one round of the flat decoder on a whole
  packet with anything behind it, and on a packet whose end has not arrived.
* `parseBytes_of_isPrefix` — the flat decoder on any beginning of a stream of packets: it cuts
  off the packets that are complete and keeps the beginning of the next.
* `feed_of_streamFits` / `feed_undefined` — the ring decoder over all the pieces. It gives the
  messages back when no packet runs over the end of the ring's array, and otherwise reads
  behind the array. Induction on the pieces.
-/

namespace PssClient

open Circular CpacketFormat

/-- What a caller hands to `format_send_buffer`. -/
structure Message where
  commandId : Int16
  body : List UInt8

/-- The packet the receiver should get for a message. -/
def Message.toPacket (m : Message) : CrecvPacket where
  commandId := m.commandId
  packetBody := m.body
  packetSize := m.body.length

namespace CpacketFormat

/-! ## The encoder -/

/-- Copying into an array leaves what lies before and behind the copied bytes. -/
theorem toList_memcpyTo {n : Nat} (buf : Vector UInt8 n) (pos : Nat) (bytes : List UInt8)
    (h : pos + bytes.length ≤ n) :
    ∃ buf', memcpyTo buf pos bytes = some buf' ∧
      buf'.toList = buf.toList.take pos ++ bytes ++ buf.toList.drop (pos + bytes.length) := by
  induction bytes generalizing buf pos with
  | nil => exact ⟨buf, rfl, by simp⟩
  | cons b bytes ih =>
    rw [List.length_cons] at h
    have hpos : pos < n := by omega
    obtain ⟨buf', hcopy, hlist⟩ := ih (put buf ⟨pos, hpos⟩ b) (pos + 1) (by omega)
    refine ⟨buf', by rw [memcpyTo, dif_pos hpos, hcopy], ?_⟩
    have hset : (put buf ⟨pos, hpos⟩ b).toList = buf.toList.set pos b := Vector.toList_set hpos
    have htake : (buf.toList.set pos b).take (pos + 1) = buf.toList.take pos ++ [b] := by
      have hlen : pos < buf.toList.length := by rwa [Vector.length_toList]
      rw [List.set_eq_take_append_cons_drop, if_pos hlen, List.take_append]
      simp [Nat.min_eq_left hpos.le]
    rw [hlist, hset, htake, List.drop_set_of_lt (by omega), List.length_cons]
    simp [Nat.add_assoc, Nat.add_comm 1]

/-- The bytes of a packet: version, command, body length, the reserved bytes and the body. -/
def packetBytes (m : Message) (reserved : List UInt8) : List UInt8 :=
  leBytes 2 1 ++ leBytes 2 m.commandId.toUInt16.toNat ++ leBytes 4 m.body.length
    ++ reserved ++ m.body

/-- **What the encoder puts out.** From any state of the scratch buffer a message of at most
`MAX_PACKET_SEND_SIZE - PACKET_HEAD_SIZE` bytes comes out as a packet; its reserved bytes are
those of the scratch buffer. -/
theorem formatSendBuffer_eq (pf : CpacketFormat) (m : Message) (formatLength : Nat)
    (h : m.body.length + packetHeadSize ≤ maxPacketSendSize) :
    ∃ pf', formatSendBuffer pf m.commandId m.body m.body.length formatLength
      = some (packetBytes m ((pf.sendBuffer.toList.drop 8).take 32),
          packetHeadSize + m.body.length, pf') := by
  obtain ⟨b1, h1, l1⟩ := toList_memcpyTo pf.sendBuffer 0 (leBytes 2 1) (by decide)
  have hmsg : m.body.length + 40 ≤ 2048 := h
  obtain ⟨b2, h2, l2⟩ := toList_memcpyTo b1 2 (leBytes 2 m.commandId.toUInt16.toNat)
    (by rw [length_leBytes]; decide)
  obtain ⟨b3, h3, l3⟩ := toList_memcpyTo b2 4 (leBytes 4 (m.body.length % 4294967296))
    (by rw [length_leBytes]; decide)
  obtain ⟨b4, h4, l4⟩ := toList_memcpyTo b3 packetHeadSize m.body
    (by rw [Nat.add_comm]; exact h)
  have hread : cStrRead m.body m.body.length = some m.body := by simp [cStrRead]
  have hsize : (m.body.length + packetHeadSize) % sizeMod = m.body.length + packetHeadSize :=
    Nat.mod_eq_of_lt (by unfold sizeMod packetHeadSize; omega)
  have hlen : m.body.length % 4294967296 = m.body.length := Nat.mod_eq_of_lt (by omega)
  refine ⟨{ pf with sendBuffer := b4 }, ?_⟩
  rw [formatSendBuffer, if_neg (by rw [hsize]; exact Nat.not_lt.mpr h), h1, Option.bind_some, h2,
    Option.bind_some, h3, Option.bind_some, hread, Option.bind_some, h4, Option.map_some]
  -- peel the copies off, last one first
  rw [hlen] at l3
  rw [length_leBytes] at l1 l2 l3
  have hslen : pf.sendBuffer.toList.length = 2048 := Vector.length_toList
  have h1take : b1.toList.take 2 = leBytes 2 1 := by
    rw [l1]
    simp
  have h1drop : b1.toList.drop 4 = pf.sendBuffer.toList.drop 4 := by
    rw [l1]
    simp [List.drop_append]
  have h2take : b2.toList.take 4 = leBytes 2 1 ++ leBytes 2 m.commandId.toUInt16.toNat := by
    rw [l2, h1take]
    simp [List.take_append]
  have h2drop : b2.toList.drop 8 = pf.sendBuffer.toList.drop 8 := by
    have hdrop : ∀ l : List UInt8, l.drop 8 = (l.drop 4).drop 4 := fun l => by rw [List.drop_drop]
    rw [l2, h1take, h1drop, hdrop]
    simp [List.drop_append]
  have h3take : b3.toList.take 40 = leBytes 2 1 ++ leBytes 2 m.commandId.toUInt16.toNat
      ++ leBytes 4 m.body.length ++ (pf.sendBuffer.toList.drop 8).take 32 := by
    rw [l3, h2take, h2drop]
    simp [List.take_append, List.take_of_length_le]
  have h4take : b4.toList.take (packetHeadSize + m.body.length)
      = packetBytes m ((pf.sendBuffer.toList.drop 8).take 32) := by
    have hhead : (b3.toList.take packetHeadSize ++ m.body).length
        = packetHeadSize + m.body.length := by
      rw [List.length_append, List.length_take, Vector.length_toList]
      omega
    rw [l4, ← hhead, List.take_left, packetBytes]
    exact congrArg (· ++ m.body) h3take
  show some (b4.toList.take (packetHeadSize + m.body.length), _) = _
  rw [h4take]

/-! ## Packets in a stream -/

/-- `bytes` are one whole packet, and the decoder should read it as `p`. -/
structure IsPacket (p : CrecvPacket) (bytes : List UInt8) : Prop where
  head : headPacket bytes = p
  small : p.packetSize < maxPacketBufferSize
  length : bytes.length = p.packetSize + packetHeadSize

theorem headSize_append {bytes : List UInt8} (h : packetHeadSize ≤ bytes.length)
    (rest : List UInt8) : headSize (bytes ++ rest) = headSize bytes := by
  unfold packetHeadSize at h
  have htake : ((bytes ++ rest).drop 4).take 4 = (bytes.drop 4).take 4 := by
    rw [List.drop_append_of_le_length (by omega),
      List.take_append_of_le_length (by rw [List.length_drop]; omega)]
  rw [headSize, htake, headSize]

theorem IsPacket.headSize_eq {p : CrecvPacket} {bytes : List UInt8} (h : IsPacket p bytes) :
    headSize bytes = p.packetSize := by
  rw [← h.head]
  rfl

/-- What the encoder puts out is a packet. -/
theorem isPacket_packetBytes (m : Message) {reserved : List UInt8}
    (hres : reserved.length = 32) (h : m.body.length < maxPacketBufferSize) :
    IsPacket m.toPacket (packetBytes m reserved) := by
  have hcmd : ((packetBytes m reserved).drop 2).take 2 = leBytes 2 m.commandId.toUInt16.toNat := by
    simp [packetBytes]
  have hbody : ((packetBytes m reserved).drop 4).take 4 = leBytes 4 m.body.length := by
    simp [packetBytes, List.drop_append, List.take_append, List.take_of_length_le]
  have hsize : headSize (packetBytes m reserved) = m.body.length := by
    have hlt : m.body.length < 2048 := h
    rw [headSize, hbody, leNat_leBytes 4 (by omega), intToSizeT_of_lt (by omega)]
  have hhead : (leBytes 2 1 ++ leBytes 2 m.commandId.toUInt16.toNat ++ leBytes 4 m.body.length
      ++ reserved).length = packetHeadSize := by
    simp [hres]
  have hdrop : (packetBytes m reserved).drop packetHeadSize = m.body := by
    rw [packetBytes, ← hhead, List.drop_left]
  constructor
  · rw [headPacket, hsize, hcmd, hdrop, List.take_length,
      leNat_leBytes 2 (UInt16.toNat_lt m.commandId.toUInt16), intToShort_toUInt16]
    rfl
  · exact h
  · show _ = m.body.length + packetHeadSize
    rw [packetBytes, List.length_append, hhead, Nat.add_comm]

/-- A packet with anything behind it is cut off. -/
theorem IsPacket.round {p : CrecvPacket} {bytes : List UInt8} (h : IsPacket p bytes)
    (rest : List UInt8) : bytesRound (bytes ++ rest) = .packet p rest := by
  have hlen := h.length
  have hhead : packetHeadSize ≤ bytes.length := by omega
  have hsize : headSize (bytes ++ rest) = p.packetSize := by
    rw [headSize_append hhead, h.headSize_eq]
  have hpacket : headPacket (bytes ++ rest) = headPacket bytes := by
    have hcmd : ((bytes ++ rest).drop 2).take 2 = (bytes.drop 2).take 2 := by
      unfold packetHeadSize at hhead
      rw [List.drop_append_of_le_length (by omega),
        List.take_append_of_le_length (by rw [List.length_drop]; omega)]
    have hbody : ((bytes ++ rest).drop packetHeadSize).take p.packetSize
        = (bytes.drop packetHeadSize).take p.packetSize := by
      rw [List.drop_append_of_le_length hhead,
        List.take_append_of_le_length (by rw [List.length_drop]; omega)]
    rw [headPacket, headPacket, hsize, h.headSize_eq, hcmd, hbody]
  rw [bytesRound, if_neg (by rw [List.length_append]; omega), hsize,
    if_neg (Nat.not_le.mpr h.small), if_pos (by rw [List.length_append]; omega), hpacket, h.head,
    List.drop_append_of_le_length hlen.ge, ← hlen, List.drop_length, List.nil_append]

/-- A packet whose end has not arrived is waited for. -/
theorem IsPacket.round_unfinished {p : CrecvPacket} {bytes missing : List UInt8}
    (h : IsPacket p (bytes ++ missing)) (hne : missing ≠ []) :
    bytesRound bytes = .wait bytes := by
  have hlen := h.length
  have hpos : 0 < missing.length := List.length_pos_iff.mpr hne
  rw [List.length_append] at hlen
  unfold bytesRound
  split
  · rfl
  case isFalse hhead =>
    have hsize : headSize bytes = p.packetSize := by
      rw [← headSize_append (Nat.not_lt.mp hhead) missing, h.headSize_eq]
    rw [hsize, if_neg (Nat.not_le.mpr h.small), if_neg (by omega)]

/-! ## Which streams fit the array -/

/-- How far behind its first byte the decoder reads a packet: only the head's first eight bytes
when there is no body. -/
def extent (p : CrecvPacket) : Nat :=
  if p.packetSize = 0 then 8 else packetHeadSize + p.packetSize

/-- No packet of the stream runs over the end of the array, when the first one starts at
`off`. -/
def StreamFits (off : Nat) : List CrecvPacket → Prop
  | [] => True
  | p :: ps => off + extent p ≤ maxBufferSize ∧ StreamFits (advance off p) ps

instance decidableStreamFits : (off : Nat) → (ps : List CrecvPacket) → Decidable (StreamFits off ps)
  | _, [] => .isTrue trivial
  | off, p :: ps => @instDecidableAnd _ _ _ (decidableStreamFits (advance off p) ps)

theorem advanceAll_append (off : Nat) (ps qs : List CrecvPacket) :
    advanceAll off (ps ++ qs) = advanceAll (advanceAll off ps) qs := List.foldl_append

theorem streamFits_append {off : Nat} {ps qs : List CrecvPacket} :
    StreamFits off (ps ++ qs) ↔ StreamFits off ps ∧ StreamFits (advanceAll off ps) qs := by
  induction ps generalizing off with
  | nil => simp [StreamFits, advanceAll]
  | cons p ps ih =>
    rw [List.cons_append, StreamFits, StreamFits, ih, and_assoc]
    rfl

/-- For a whole packet the condition on the round is one on the packet: its extent from the tail on
stays within the array. The bytes behind it do not matter. -/
theorem IsPacket.roundFits {p : CrecvPacket} {bytes : List UInt8} (h : IsPacket p bytes)
    (rest : List UInt8) (off : Nat) :
    RoundFits off (bytes ++ rest) ↔ off + extent p ≤ maxBufferSize := by
  have hlen := h.length
  have hhead : packetHeadSize ≤ bytes.length := by omega
  -- the head of the stream is that of the packet, and the whole packet is there
  have hsize : headSize (bytes ++ rest) = p.packetSize := by
    rw [headSize_append hhead, h.headSize_eq]
  have hall : p.packetSize + packetHeadSize ≤ (bytes ++ rest).length := by
    rw [List.length_append]
    omega
  unfold RoundFits extent
  rw [hsize]
  unfold packetHeadSize at *
  constructor
  -- an empty body is not read, so that only the head has to fit
  · intro hfit
    obtain ⟨hoff, hbody⟩ := hfit (by omega)
    by_cases hzero : p.packetSize = 0
    · rwa [if_pos hzero]
    · have := hbody h.small hall (Nat.pos_of_ne_zero hzero)
      rw [if_neg hzero]
      omega
  · intro hfit _
    by_cases hzero : p.packetSize = 0
    · rw [if_pos hzero] at hfit
      exact ⟨hfit, fun _ _ hpos => absurd hzero hpos.ne'⟩
    · rw [if_neg hzero] at hfit
      exact ⟨by omega, fun _ _ _ => by omega⟩

theorem IsPacket.roundFits_unfinished {p : CrecvPacket} {bytes missing : List UInt8}
    (h : IsPacket p (bytes ++ missing)) (hne : missing ≠ []) {off : Nat}
    (hfit : off + extent p ≤ maxBufferSize) : RoundFits off bytes := by
  intro hhead
  have hsize : headSize bytes = p.packetSize := by
    rw [← headSize_append hhead missing, h.headSize_eq]
  have hlen := h.length
  have hpos : 0 < missing.length := List.length_pos_iff.mpr hne
  rw [List.length_append] at hlen
  unfold extent at hfit
  constructor
  · by_cases hzero : p.packetSize = 0
    · rwa [if_pos hzero] at hfit
    · rw [if_neg hzero] at hfit
      unfold packetHeadSize at hfit
      omega
  · intro _ hall _
    omega

/-! ## The decoder on a stream of packets -/

/-- What is held between two calls: nothing, or the beginning of the next packet. -/
def Unfinished (bytes : List UInt8) : List (List UInt8) → Prop
  | [] => bytes = []
  | packet :: _ => ∃ missing, missing ≠ [] ∧ packet = bytes ++ missing

theorem Unfinished.length_lt {bytes : List UInt8} {packets : List (List UInt8)}
    {ps : List CrecvPacket} (hp : List.Forall₂ IsPacket ps packets) (h : Unfinished bytes packets) :
    bytes.length < maxPacketBufferSize + packetHeadSize := by
  cases hp with
  | nil =>
    rw [show bytes = [] from h]
    decide
  | cons hpacket _ =>
    obtain ⟨missing, -, rfl⟩ := h
    have hlen := hpacket.length
    have hsmall := hpacket.small
    rw [List.length_append] at hlen
    omega

/-- Nothing more is to come only when nothing is held and no packet is expected. -/
theorem Unfinished.eq_nil {bytes : List UInt8} {packets : List (List UInt8)}
    (h : Unfinished bytes packets) (hall : bytes = packets.flatten) : packets = [] := by
  cases packets with
  | nil => rfl
  | cons packet packets =>
    obtain ⟨missing, hne, rfl⟩ := h
    rw [List.flatten_cons, List.append_assoc] at hall
    have hnil := List.self_eq_append_right.mp hall
    exact absurd (List.append_eq_nil_iff.mp hnil).1 hne

/-- **The flat decoder on any beginning of a stream.** It cuts off the first `k` packets, those
that are complete, and keeps the beginning of the next one. Its reads stay inside the array when
the stream fits, and only when the packets it cut off do. Induction on the packets. -/
theorem parseBytes_of_append {ps : List CrecvPacket} {packets : List (List UInt8)}
    (hp : List.Forall₂ IsPacket ps packets) {bytes later : List UInt8}
    (h : bytes ++ later = packets.flatten) :
    ∃ k rest, parseBytes bytes = (ps.take k, some rest) ∧
      rest ++ later = (packets.drop k).flatten ∧ Unfinished rest (packets.drop k) ∧
      (∀ off, StreamFits off ps → LoopFits off bytes) ∧
      (∀ off, LoopFits off bytes → StreamFits off (ps.take k)) := by
  induction hp generalizing bytes with
  | nil =>
    obtain ⟨rfl, rfl⟩ := List.append_eq_nil_iff.mp h
    exact ⟨0, [], parseBytes_nil, rfl, rfl, fun off _ => loopFits_nil off, fun _ _ => trivial⟩
  | @cons p packet ps packets hpacket hp ih =>
    rw [List.flatten_cons] at h
    -- either the whole packet has arrived or some of it is missing
    by_cases hwhole : packet.length ≤ bytes.length
    · obtain ⟨behind, rfl⟩ : packet <+: bytes :=
        List.prefix_of_prefix_length_le ⟨packets.flatten, rfl⟩ ⟨later, h⟩ hwhole
      rw [List.append_assoc, List.append_right_inj] at h
      obtain ⟨k, rest, hparse, hrest, hunf, hfits, hfits'⟩ := ih h
      have hround := hpacket.round behind
      refine ⟨k + 1, rest, ?_, hrest, hunf, ?_, ?_⟩
      · rw [parseBytes_packet hround, hparse, List.take_succ_cons]
      · intro off hstream
        exact (loopFits_packet hround).mpr
          ⟨(hpacket.roundFits behind off).mpr hstream.1, hfits _ hstream.2⟩
      · intro off hloop
        obtain ⟨hfirst, hothers⟩ := (loopFits_packet hround).mp hloop
        rw [List.take_succ_cons]
        exact ⟨(hpacket.roundFits behind off).mp hfirst, hfits' _ hothers⟩
    · obtain ⟨missing, rfl⟩ : bytes <+: packet :=
        List.prefix_of_prefix_length_le ⟨later, h⟩ ⟨packets.flatten, rfl⟩ (by omega)
      have hne : missing ≠ [] := by
        rintro rfl
        simp at hwhole
      have hround := hpacket.round_unfinished hne
      refine ⟨0, bytes, by rw [parseBytes_wait hround]; rfl, h, ⟨missing, hne, rfl⟩, ?_, ?_⟩
      · intro off hstream
        exact (loopFits_leave (by simp [hround])).mpr
          (hpacket.roundFits_unfinished hne hstream.1)
      · exact fun _ _ => trivial

/-- One call of `format_recv_buffer` in the middle of a stream. -/
theorem formatRecvBuffer_eq_parseLoop {pf : CpacketFormat} {off : Nat} {bytes chunk : List UInt8}
    {ps : List CrecvPacket} {packets : List (List UInt8)} (hp : List.Forall₂ IsPacket ps packets)
    (h : Holds pf off bytes) (hunf : Unfinished bytes packets)
    (hchunk : chunk.length ≤ recvBufferMaxSize) (past : Nat → Option UInt8) :
    ∃ pf', Holds pf' off (bytes ++ chunk) ∧
      formatRecvBuffer past pf chunk = parseLoop past pf' := by
  have hlt := hunf.length_lt hp
  refine formatRecvBuffer_eq h ?_ past
  unfold recvBufferMaxSize at hchunk
  unfold maxPacketBufferSize packetHeadSize at hlt
  unfold maxBufferSize
  omega

/-- **A stream that fits is delivered.** Induction on the pieces; between two of them the ring holds
the beginning of the next packet, and behind the packets that a piece completes the rest of the
stream fits from where the ring then begins. -/
theorem feed_of_streamFits {chunks : List (List UInt8)} {pf : CpacketFormat} {off : Nat}
    {bytes : List UInt8} {ps : List CrecvPacket} {packets : List (List UInt8)}
    (hp : List.Forall₂ IsPacket ps packets) (h : Holds pf off bytes)
    (hunf : Unfinished bytes packets) (hall : bytes ++ chunks.flatten = packets.flatten)
    (hchunks : ∀ chunk ∈ chunks, chunk.length ≤ recvBufferMaxSize)
    (hfits : StreamFits off ps) (past : Nat → Option UInt8) :
    ∃ pf', feed past pf chunks = some (ps, pf') ∧ Holds pf' (advanceAll off ps) [] := by
  induction chunks generalizing pf off bytes ps packets with
  | nil =>
    rw [List.flatten_nil, List.append_nil] at hall
    obtain rfl := hunf.eq_nil hall
    cases hp with
    | nil =>
      obtain rfl : bytes = [] := hunf
      exact ⟨pf, rfl, h⟩
  | cons chunk chunks ih =>
    rw [List.flatten_cons, ← List.append_assoc] at hall
    -- the piece is taken in, and its loop agrees with the flat decoder
    obtain ⟨pf₁, hpf₁, hcall⟩ := formatRecvBuffer_eq_parseLoop hp h hunf
      (hchunks chunk List.mem_cons_self) past
    obtain ⟨k, rest, hparse, hrest, hunf', hloop, -⟩ := parseBytes_of_append hp hall
    obtain ⟨pf₂, hpf₂, hleft⟩ := parseLoop_of_fits hpf₁ (hloop off hfits) past
    rw [hparse] at hpf₂ hleft
    have hfits' : StreamFits off (ps.take k ++ ps.drop k) := by rwa [List.take_append_drop]
    obtain ⟨pf₃, hpf₃, hend⟩ := ih (List.forall₂_drop k hp) hleft hunf' hrest
      (fun c hc => hchunks c (List.mem_cons_of_mem _ hc)) (streamFits_append.mp hfits').2
    refine ⟨pf₃, ?_, ?_⟩
    · rw [feed, hcall, hpf₂, Option.bind_some, hpf₃, Option.map_some, List.take_append_drop]
    · rwa [← advanceAll_append, List.take_append_drop] at hend

/-- **A stream that does not fit reads behind the array.** Where nothing may be read there, the
pieces have no result. Induction on the pieces. -/
theorem feed_undefined {chunks : List (List UInt8)} {pf : CpacketFormat} {off : Nat}
    {bytes : List UInt8} {ps : List CrecvPacket} {packets : List (List UInt8)}
    (hp : List.Forall₂ IsPacket ps packets) (h : Holds pf off bytes)
    (hunf : Unfinished bytes packets) (hall : bytes ++ chunks.flatten = packets.flatten)
    (hchunks : ∀ chunk ∈ chunks, chunk.length ≤ recvBufferMaxSize)
    (hfits : ¬ StreamFits off ps) : feed noPast pf chunks = none := by
  induction chunks generalizing pf off bytes ps packets with
  | nil =>
    rw [List.flatten_nil, List.append_nil] at hall
    obtain rfl := hunf.eq_nil hall
    cases hp with
    | nil => exact absurd trivial hfits
  | cons chunk chunks ih =>
    rw [List.flatten_cons, ← List.append_assoc] at hall
    obtain ⟨pf₁, hpf₁, hcall⟩ := formatRecvBuffer_eq_parseLoop hp h hunf
      (hchunks chunk List.mem_cons_self) noPast
    obtain ⟨k, rest, hparse, hrest, hunf', -, hcut⟩ := parseBytes_of_append hp hall
    rw [feed, hcall]
    by_cases hloop : LoopFits off (bytes ++ chunk)
    · -- this piece is read inside the array, so a later one is not
      obtain ⟨pf₂, hpf₂, hleft⟩ := parseLoop_of_fits hpf₁ hloop noPast
      rw [hparse] at hpf₂ hleft
      have hlater : ¬ StreamFits (advanceAll off (ps.take k)) (ps.drop k) := by
        intro hl
        have hwhole := streamFits_append.mpr ⟨hcut off hloop, hl⟩
        rw [List.take_append_drop] at hwhole
        exact hfits hwhole
      rw [hpf₂, Option.bind_some, ih (List.forall₂_drop k hp) hleft hunf' hrest
        (fun c hc => hchunks c (List.mem_cons_of_mem _ hc)) hlater, Option.map_none]
    · rw [parseLoop_undefined hpf₁ hloop, Option.bind_none]

/-! ## Messages -/

/-- `bytes` came out of `format_send_buffer` for `m`, of an object in any state. -/
def EncodedAs (m : Message) (bytes : List UInt8) : Prop :=
  ∃ pf formatLength n pf',
    formatSendBuffer pf m.commandId m.body m.body.length formatLength = some (bytes, n, pf')

theorem EncodedAs.isPacket {m : Message} {bytes : List UInt8} (h : EncodedAs m bytes)
    (hlen : m.body.length + packetHeadSize ≤ maxPacketSendSize) : IsPacket m.toPacket bytes := by
  obtain ⟨pf, formatLength, n, pf', hsend⟩ := h
  obtain ⟨pf'', heq⟩ := formatSendBuffer_eq pf m formatLength hlen
  rw [heq] at hsend
  obtain ⟨rfl, -⟩ := Prod.mk.inj (Option.some.inj hsend)
  apply isPacket_packetBytes m
  · rw [List.length_take, List.length_drop, Vector.length_toList]
    rfl
  · unfold packetHeadSize maxPacketSendSize at hlen
    unfold maxPacketBufferSize
    omega

theorem isPacket_of_encodedAs {ms : List Message} {packets : List (List UInt8)}
    (henc : List.Forall₂ EncodedAs ms packets)
    (hlen : ∀ m ∈ ms, m.body.length + packetHeadSize ≤ maxPacketSendSize) :
    List.Forall₂ IsPacket (ms.map Message.toPacket) packets := by
  induction henc with
  | nil => exact .nil
  | @cons m packet ms packets henc _ ih =>
    rw [List.map_cons]
    exact .cons (henc.isPacket (hlen m List.mem_cons_self))
      (ih fun m' hm' => hlen m' (List.mem_cons_of_mem _ hm'))

theorem unfinished_nil {ps : List CrecvPacket} {packets : List (List UInt8)}
    (hp : List.Forall₂ IsPacket ps packets) : Unfinished [] packets := by
  cases hp with
  | nil => rfl
  | cons hpacket _ =>
    refine ⟨_, ?_, (List.nil_append _).symm⟩
    rintro rfl
    have hlen := hpacket.length
    rw [List.length_nil] at hlen
    unfold packetHeadSize at hlen
    omega

/-- **When the stream is reassembled.** Whatever the ring's array held when it was built and
however the stream is cut, a fresh decoder gives back the messages, in order and without reading
behind its array, exactly when no packet of the stream runs over the end of that array. -/
theorem reassembly_iff_streamFits (junk : Vector UInt8 maxBufferSize) (ms : List Message)
    (packets chunks : List (List UInt8)) (henc : List.Forall₂ EncodedAs ms packets)
    (hlen : ∀ m ∈ ms, m.body.length ≤ 2008)
    (hcut : chunks.flatten = packets.flatten)
    (hchunks : ∀ chunk ∈ chunks, chunk.length ≤ recvBufferMaxSize) :
    (∀ past, ∃ pf', feed past (new junk) chunks = some (ms.map Message.toPacket, pf')) ↔
      StreamFits 0 (ms.map Message.toPacket) := by
  have hp : List.Forall₂ IsPacket (ms.map Message.toPacket) packets :=
    isPacket_of_encodedAs henc fun m hm => by
      have := hlen m hm
      unfold packetHeadSize maxPacketSendSize
      omega
  have hall : [] ++ chunks.flatten = packets.flatten := by rwa [List.nil_append]
  constructor
  · intro hfeed
    by_contra hfits
    obtain ⟨pf', hpf'⟩ := hfeed noPast
    rw [feed_undefined hp (holds_new junk) (unfinished_nil hp) hall hchunks hfits] at hpf'
    cases hpf'
  · intro hfits past
    obtain ⟨pf', hpf', -⟩ :=
      feed_of_streamFits hp (holds_new junk) (unfinished_nil hp) hall hchunks hfits past
    exact ⟨pf', hpf'⟩

/-- The reserved bytes of what a fresh object encodes are its zeroed scratch buffer's. -/
theorem encodedAs_packetBytes (m : Message)
    (h : m.body.length + packetHeadSize ≤ maxPacketSendSize) :
    EncodedAs m (packetBytes m (List.replicate 32 0)) := by
  obtain ⟨pf', hsend⟩ := formatSendBuffer_eq (new (Vector.replicate maxBufferSize 0)) m 0 h
  have hscratch : (((new (Vector.replicate maxBufferSize 0)).sendBuffer.toList.drop 8).take 32)
      = List.replicate 32 0 := by
    show ((Vector.replicate maxPacketSendSize (0 : UInt8)).toList.drop 8).take 32 = _
    rw [Vector.toList_replicate, List.drop_replicate, List.take_replicate]
    decide
  rw [hscratch] at hsend
  exact ⟨_, 0, _, pf', hsend⟩

theorem reassembly_iff_streamFits_split :
    let m : Message := ⟨7, [1, 2, 3]⟩
    let bytes := packetBytes m (List.replicate 32 0)
    List.Forall₂ EncodedAs [m] [bytes] ∧
      ((∀ past, ∃ pf', feed past (new (Vector.replicate maxBufferSize 0))
          [bytes.take 5, bytes.drop 5] = some ([m].map Message.toPacket, pf')) ↔
        StreamFits 0 ([m].map Message.toPacket)) := by
  intro m bytes
  have henc : List.Forall₂ EncodedAs [m] [bytes] :=
    .cons (encodedAs_packetBytes m (by decide)) .nil
  refine ⟨henc, reassembly_iff_streamFits _ [m] [bytes] _ henc (by decide) ?_ ?_⟩
  · simp
  · intro chunk hchunk
    have hlen : bytes.length = 43 := by decide
    simp only [List.mem_cons, List.not_mem_nil, or_false] at hchunk
    rcases hchunk with rfl | rfl
    · rw [List.length_take, hlen]
      decide
    · rw [List.length_drop, hlen]
      decide

/-- Nine messages of 2000 bytes: the ninth packet starts at 16320 and runs over the end. -/
def overrunMessage : Message := ⟨1, List.replicate 2000 7⟩

theorem length_overrunMessage : overrunMessage.body.length = 2000 := by
  rw [overrunMessage, List.length_replicate]

theorem packetSize_overrunMessage : overrunMessage.toPacket.packetSize = 2000 := by
  rw [Message.toPacket, length_overrunMessage]

/-- The packet of one of them. -/
def overrunPacket : List UInt8 := packetBytes overrunMessage (List.replicate 32 0)

theorem not_streamFits_overrun :
    ¬ StreamFits 0 ((List.replicate 9 overrunMessage).map Message.toPacket) := by
  -- 8 * 2040 + 40 + 2000 > 16384
  simp [List.replicate, List.map, StreamFits, advance, extent, packetSize_overrunMessage,
    packetHeadSize, maxBufferSize]

theorem reassembly_overrun :
    List.Forall₂ EncodedAs (List.replicate 9 overrunMessage) (List.replicate 9 overrunPacket) ∧
      (∀ m ∈ List.replicate 9 overrunMessage, m.body.length ≤ 2008) ∧
      (∀ chunk ∈ List.replicate 9 overrunPacket, chunk.length ≤ recvBufferMaxSize) ∧
      ¬ ∀ past, ∃ pf', feed past (new (Vector.replicate maxBufferSize 0))
        (List.replicate 9 overrunPacket)
          = some ((List.replicate 9 overrunMessage).map Message.toPacket, pf') := by
  -- the nine packets are well formed and each is one read
  have hbody := length_overrunMessage
  have hone : EncodedAs overrunMessage overrunPacket :=
    encodedAs_packetBytes _ (by rw [hbody]; decide)
  have henc : List.Forall₂ EncodedAs (List.replicate 9 overrunMessage)
      (List.replicate 9 overrunPacket) := by
    simp only [List.replicate, List.forall₂_cons, hone, true_and]
    exact .nil
  have hlen : ∀ m ∈ List.replicate 9 overrunMessage, m.body.length ≤ 2008 := by
    intro m hm
    rw [List.eq_of_mem_replicate hm, hbody]
    decide
  have hp := isPacket_of_encodedAs henc fun m hm => by
    rw [List.eq_of_mem_replicate hm, hbody]
    decide
  have hchunks : ∀ chunk ∈ List.replicate 9 overrunPacket,
      chunk.length ≤ recvBufferMaxSize := by
    intro chunk hchunk
    rw [List.eq_of_mem_replicate hchunk, overrunPacket, packetBytes]
    simp only [List.length_append, length_leBytes, List.length_replicate, hbody]
    decide
  -- the ninth begins too near to the end of the array
  refine ⟨henc, hlen, hchunks, fun hfeed => ?_⟩
  obtain ⟨pf', hpf'⟩ := hfeed noPast
  rw [feed_undefined hp (holds_new _) (unfinished_nil hp) (List.nil_append _) hchunks
    not_streamFits_overrun] at hpf'
  cases hpf'

end CpacketFormat

end PssClient
