import PssClient.Wire.Reassembly

/-!
# The decoder from one call to the next

What a `cpacket_format` carries over, whatever it was fed and whatever lies behind its array:

* `Holds` again, and less than one packet of bytes: `holds_parseLoop` / `holds_formatRecvBuffer`.
* Sending does not touch it: `formatRecvBuffer_withSend` — the decoder does not look at the
  scratch buffer of the encoder.
* `parseBytes_ne_of_held` — bytes that are held shift the next packet: some packet put behind
  them is not what the flat decoder delivers.
-/

namespace PssClient

namespace CpacketFormat

/-! ## What is held -/

/-- A round in any state. It leaves off with less than a packet of the largest size, it clears what
it holds, or it cuts a packet off the front. -/
theorem holds_parseRound {past : Nat → Option UInt8} {pf : CpacketFormat} {off : Nat}
    {bytes : List UInt8} (h : Holds pf off bytes) {r : Round CpacketFormat}
    (hround : parseRound past pf = some r) :
    match r with
    | .wait pf' => Holds pf' off bytes ∧ bytes.length < maxPacketBufferSize + packetHeadSize
    | .clear pf' => ∃ off', Holds pf' off' []
    | .packet _ pf' => ∃ off' cnt, 0 < cnt ∧ cnt ≤ bytes.length ∧ Holds pf' off' (bytes.drop cnt)
    := by
  unfold parseRound at hround
  rw [h.count] at hround
  split at hround
  case isTrue hshort =>
    obtain rfl := Option.some.inj hround
    exact ⟨h, by omega⟩
  case isFalse hlong =>
    obtain ⟨bufferHead, -, hround⟩ := Option.bind_eq_some_iff.mp hround
    obtain ⟨commandBytes, -, hround⟩ := Option.bind_eq_some_iff.mp hround
    obtain ⟨sizeBytes, -, hround⟩ := Option.bind_eq_some_iff.mp hround
    dsimp only at hround
    split at hround
    · obtain rfl := Option.some.inj hround
      exact ⟨_, Ringbuffer.toList_consumerClear _, rfl, rfl⟩
    case isFalse hsmall =>
      split at hround
      case isTrue hall =>
        obtain ⟨body, -, rfl⟩ := Option.map_eq_some_iff.mp hround
        refine ⟨_, _, ?_, hall, h.count ▸ h.remove hall⟩
        unfold packetHeadSize
        omega
      case isFalse hpart =>
        obtain rfl := Option.some.inj hround
        exact ⟨h, by omega⟩

/-- **The loop leaves less than a packet behind.** Strong induction on the bytes held: only a packet
lets the loop go on, and it takes its bytes with it. -/
theorem holds_parseLoop {past : Nat → Option UInt8} {pf pf' : CpacketFormat} {off : Nat}
    {bytes : List UInt8} {ps : List CrecvPacket} (h : Holds pf off bytes)
    (hloop : parseLoop past pf = some (ps, pf')) :
    ∃ off' rest, Holds pf' off' rest ∧ rest.length < maxPacketBufferSize + packetHeadSize := by
  induction hn : bytes.length using Nat.strong_induction_on generalizing pf off bytes ps with
  | _ n ih =>
    cases hround : parseRound past pf with
    | none =>
      rw [parseLoop_undefined_round hround] at hloop
      cases hloop
    | some r =>
      have hkeeps := holds_parseRound h hround
      cases r with
      | wait pf₁ =>
        rw [parseLoop_wait hround] at hloop
        obtain ⟨-, rfl⟩ := Prod.mk.inj (Option.some.inj hloop)
        exact ⟨off, bytes, hkeeps⟩
      | clear pf₁ =>
        rw [parseLoop_clear hround] at hloop
        obtain ⟨-, rfl⟩ := Prod.mk.inj (Option.some.inj hloop)
        obtain ⟨off', hpf₁⟩ := hkeeps
        exact ⟨off', [], hpf₁, by decide⟩
      -- the loop has read the packet, and goes on with fewer bytes
      | packet p pf₁ =>
        rw [parseLoop_packet hround] at hloop
        obtain ⟨off', cnt, hpos, hcnt, hpf₁⟩ := hkeeps
        split at hloop
        case isTrue hzero =>
          obtain ⟨-, rfl⟩ := Prod.mk.inj (Option.some.inj hloop)
          refine ⟨off', _, hpf₁, ?_⟩
          rw [← hpf₁.count, hzero]
          decide
        case isFalse =>
          obtain ⟨⟨ps₂, pf₂⟩, hloop₂, heq⟩ := Option.map_eq_some_iff.mp hloop
          obtain ⟨-, rfl⟩ := Prod.mk.inj heq
          refine ih (bytes.drop cnt).length ?_ hpf₁ hloop₂ rfl
          rw [List.length_drop]
          omega

/-- A call keeps the count and the ring together, and less than a packet in them. -/
theorem holds_formatRecvBuffer {past : Nat → Option UInt8} {pf pf' : CpacketFormat} {off : Nat}
    {bytes chunk : List UInt8} {ps : List CrecvPacket} (h : Holds pf off bytes)
    (hlt : bytes.length < maxPacketBufferSize + packetHeadSize)
    (hcall : formatRecvBuffer past pf chunk = some (ps, pf')) :
    ∃ off' rest, Holds pf' off' rest ∧ rest.length < maxPacketBufferSize + packetHeadSize := by
  by_cases hroom : bytes.length + chunk.length < maxBufferSize
  · obtain ⟨pf₁, hpf₁, heq⟩ := formatRecvBuffer_eq h hroom past
    exact holds_parseLoop hpf₁ (heq ▸ hcall)
  · rw [formatRecvBuffer, if_pos (by rw [h.count]; omega)] at hcall
    obtain ⟨-, rfl⟩ := Prod.mk.inj (Option.some.inj hcall)
    exact ⟨off, bytes, h, hlt⟩

theorem holds_feed {past : Nat → Option UInt8} {chunks : List (List UInt8)}
    {pf pf' : CpacketFormat} {off : Nat} {bytes : List UInt8} {ps : List CrecvPacket}
    (h : Holds pf off bytes) (hlt : bytes.length < maxPacketBufferSize + packetHeadSize)
    (hfeed : feed past pf chunks = some (ps, pf')) :
    ∃ off' rest, Holds pf' off' rest ∧ rest.length < maxPacketBufferSize + packetHeadSize := by
  induction chunks generalizing pf off bytes ps with
  | nil =>
    obtain ⟨-, rfl⟩ := Prod.mk.inj (Option.some.inj hfeed)
    exact ⟨off, bytes, h, hlt⟩
  | cons chunk chunks ih =>
    rw [feed] at hfeed
    obtain ⟨⟨ps₁, pf₁⟩, hcall, hfeed⟩ := Option.bind_eq_some_iff.mp hfeed
    obtain ⟨⟨ps₂, pf₂⟩, hfeed₂, heq⟩ := Option.map_eq_some_iff.mp hfeed
    obtain ⟨-, rfl⟩ := Prod.mk.inj heq
    obtain ⟨off₁, rest, hpf₁, hrest⟩ := holds_formatRecvBuffer h hlt hcall
    exact ih hpf₁ hrest hfeed₂

/-! ## The encoder's scratch buffer -/

/-- The same decoder with another scratch buffer. -/
def withSend (buf : Vector UInt8 maxPacketSendSize) (pf : CpacketFormat) : CpacketFormat :=
  { pf with sendBuffer := buf }

theorem Holds.withSend {pf : CpacketFormat} {off : Nat} {bytes : List UInt8}
    (h : Holds pf off bytes) (buf : Vector UInt8 maxPacketSendSize) :
    Holds (withSend buf pf) off bytes := ⟨h.contents, h.front, h.count⟩

def Round.withSend (buf : Vector UInt8 maxPacketSendSize) :
    Round CpacketFormat → Round CpacketFormat
  | .wait pf => .wait (CpacketFormat.withSend buf pf)
  | .clear pf => .clear (CpacketFormat.withSend buf pf)
  | .packet p pf => .packet p (CpacketFormat.withSend buf pf)

/-- The parsing does not look at the send buffer, and leaves it alone. A formatter that has sent
between two reads therefore parses as one that has not. -/
theorem parseRound_withSend (past : Nat → Option UInt8) (buf : Vector UInt8 maxPacketSendSize)
    (pf : CpacketFormat) :
    parseRound past (withSend buf pf) = (parseRound past pf).map (Round.withSend buf) := by
  unfold parseRound
  show (if packetHeadSize > pf.currBufferSize then _ else _) = _
  -- every read of the round is of the ring, and none of `send_buffer_`
  split
  · rfl
  · show (pf.recvBuffer.peek.bind fun _ => _) = _
    cases pf.recvBuffer.peek with
    | none => rfl
    | some bufferHead =>
      dsimp only [Option.bind_some]
      show ((Circular.flat past pf.recvBuffer.dataBuff (bufferHead + 2) 2).bind fun _ => _) = _
      cases Circular.flat past pf.recvBuffer.dataBuff (bufferHead + 2) 2 with
      | none => rfl
      | some commandBytes =>
        dsimp only [Option.bind_some]
        show ((Circular.flat past pf.recvBuffer.dataBuff (bufferHead + 4) 4).bind fun _ => _) = _
        cases Circular.flat past pf.recvBuffer.dataBuff (bufferHead + 4) 4 with
        | none => rfl
        | some sizeBytes =>
          dsimp only [Option.bind_some]
          split
          · rfl
          · show (if _ ≤ pf.currBufferSize then _ else _) = _
            split
            · show (Circular.flat past pf.recvBuffer.dataBuff _ _).map _ = _
              rw [Option.map_map]
              rfl
            · rfl

/-- Induction on the bytes held, one round at a time. -/
theorem parseLoop_withSend (past : Nat → Option UInt8) (buf : Vector UInt8 maxPacketSendSize)
    (pf : CpacketFormat) :
    parseLoop past (withSend buf pf)
      = (parseLoop past pf).map fun r => (r.1, withSend buf r.2) := by
  induction hn : pf.currBufferSize using Nat.strong_induction_on generalizing pf with
  | _ n ih =>
    have hsend := parseRound_withSend past buf pf
    cases hround : parseRound past pf with
    | none =>
      rw [hround] at hsend
      rw [parseLoop_undefined_round hround, parseLoop_undefined_round hsend]
      rfl
    | some r =>
      rw [hround] at hsend
      cases r with
      | wait pf₁ =>
        rw [parseLoop_wait hround, parseLoop_wait hsend]
        rfl
      | clear pf₁ =>
        rw [parseLoop_clear hround, parseLoop_clear hsend]
        rfl
      | packet p pf₁ =>
        have hlt := parseRound_packet_lt hround
        rw [parseLoop_packet hround, parseLoop_packet hsend]
        show (if pf₁.currBufferSize = 0 then _ else _) = _
        split
        · rfl
        · rw [ih _ (hn ▸ hlt) pf₁ rfl, Option.map_map, Option.map_map]
          rfl

/-- The decoder does not look at the encoder's scratch buffer. -/
theorem formatRecvBuffer_withSend (past : Nat → Option UInt8)
    (buf : Vector UInt8 maxPacketSendSize) (pf : CpacketFormat) (chunk : List UInt8) :
    formatRecvBuffer past (withSend buf pf) chunk
      = (formatRecvBuffer past pf chunk).map fun r => (r.1, withSend buf r.2) := by
  unfold formatRecvBuffer
  show (if pf.currBufferSize + chunk.length ≥ maxBufferSize then _ else _) = _
  split
  · rfl
  · exact parseLoop_withSend past buf { pf with
      recvBuffer := (pf.recvBuffer.writeBuff chunk).2
      currBufferSize := pf.currBufferSize + chunk.length }

theorem feed_withSend (past : Nat → Option UInt8) (buf : Vector UInt8 maxPacketSendSize)
    (pf : CpacketFormat) (chunks : List (List UInt8)) :
    feed past (withSend buf pf) chunks
      = (feed past pf chunks).map fun r => (r.1, withSend buf r.2) := by
  induction chunks generalizing pf with
  | nil => rfl
  | cons chunk chunks ih =>
    rw [feed, feed, formatRecvBuffer_withSend]
    cases hcall : formatRecvBuffer past pf chunk with
    | none => rfl
    | some r =>
      rw [Option.map_some, Option.bind_some, Option.bind_some, ih, Option.map_map, Option.map_map]
      rfl

/-- The encoder does not touch the decoder. -/
theorem formatSendBuffer_withSend {pf pf' : CpacketFormat} {commandId : Int16}
    {buffer bytes : List UInt8} {bufferLength formatLength n : Nat}
    (h : formatSendBuffer pf commandId buffer bufferLength formatLength = some (bytes, n, pf')) :
    pf' = withSend pf'.sendBuffer pf := by
  unfold formatSendBuffer at h
  split at h
  · obtain ⟨-, -, rfl⟩ := by simpa using h
    rfl
  · obtain ⟨buf₁, -, h⟩ := Option.bind_eq_some_iff.mp h
    obtain ⟨buf₂, -, h⟩ := Option.bind_eq_some_iff.mp h
    obtain ⟨buf₃, -, h⟩ := Option.bind_eq_some_iff.mp h
    obtain ⟨body, -, h⟩ := Option.bind_eq_some_iff.mp h
    obtain ⟨buf₄, -, h⟩ := Option.map_eq_some_iff.mp h
    obtain ⟨-, -, rfl⟩ := by simpa using h
    rfl

theorem feed_append {past : Nat → Option UInt8} {pf pf₁ : CpacketFormat}
    {chunks later : List (List UInt8)} {ps : List CrecvPacket}
    (h : feed past pf chunks = some (ps, pf₁)) :
    feed past pf (chunks ++ later) = (feed past pf₁ later).map fun r => (ps ++ r.1, r.2) := by
  induction chunks generalizing pf ps with
  | nil =>
    obtain ⟨rfl, rfl⟩ := Prod.mk.inj (Option.some.inj h)
    simp
  | cons chunk chunks ih =>
    rw [feed] at h
    obtain ⟨⟨ps₂, pf₂⟩, hcall, h⟩ := Option.bind_eq_some_iff.mp h
    obtain ⟨⟨ps₃, pf₃⟩, hfeed, heq⟩ := Option.map_eq_some_iff.mp h
    obtain ⟨rfl, rfl⟩ := Prod.mk.inj heq
    rw [List.cons_append, feed, hcall, Option.bind_some, ih hfeed, Option.map_map]
    congr 1
    funext r
    exact congrArg (·, r.2) (List.append_assoc _ _ _).symm

/-! ## Bytes held when a packet arrives -/

/-- The command that the decoder reads at the front of `bytes`. -/
def headCommand (bytes : List UInt8) : Int16 := intToShort (leNat ((bytes.drop 2).take 2))

/-- What the flat decoder delivers first carries the command read at the front. -/
theorem parseBytes_ne_of_headCommand {bytes : List UInt8} {p : CrecvPacket}
    (h : headCommand bytes ≠ p.commandId) : (parseBytes bytes).1 ≠ [p] := by
  intro heq
  cases hround : bytesRound bytes with
  | wait rest =>
    rw [parseBytes_wait hround] at heq
    cases heq
  | clear rest =>
    rw [parseBytes_clear hround] at heq
    cases heq
  | packet q rest =>
    rw [parseBytes_packet hround] at heq
    obtain rfl := (List.cons.inj heq).1
    obtain ⟨rfl, -⟩ := bytesRound_packet hround
    exact h rfl

/-- A message without a body. -/
def bare (commandId : Int16) : Message := ⟨commandId, []⟩

/-- With anything in front, the head that is read is not the packet's own. For every content of the
decoder there is a command that comes out as a different one. -/
theorem headCommand_held (held : List UInt8) (hne : held ≠ []) :
    ∃ commandId, headCommand (held ++ packetBytes (bare commandId) (List.replicate 32 0))
      ≠ commandId := by
  -- the packets of two commands
  have hpacket : ∀ c : Int16, packetBytes (bare c) (List.replicate 32 0)
      = 1 :: 0 :: (leBytes 2 c.toUInt16.toNat ++ leBytes 4 0 ++ List.replicate 32 0) := by
    intro c
    show leBytes 2 1 ++ leBytes 2 c.toUInt16.toNat ++ leBytes 4 0 ++ List.replicate 32 0 ++ [] = _
    rw [List.append_nil]
    rfl
  cases held with
  | nil => exact absurd rfl hne
  | cons a held =>
    cases held with
    | nil =>
      -- one byte moves the low byte of the command into the high one
      refine ⟨1, ?_⟩
      show intToShort (leNat [0, 1]) ≠ 1
      decide
    | cons b held =>
      -- two bytes or more: what is read does not depend on the command sent
      have hread : ∀ c : Int16,
          headCommand (a :: b :: held ++ packetBytes (bare c) (List.replicate 32 0))
            = intToShort (leNat ((held ++ [1, 0]).take 2)) := by
        intro c
        rw [headCommand, hpacket]
        congr 2
        show (held ++ 1 :: 0 :: _).take 2 = _
        rcases held with _ | ⟨x, _ | ⟨y, held⟩⟩
        · rfl
        · rfl
        · rfl
      by_cases hone : intToShort (leNat ((held ++ [1, 0]).take 2)) = 1
      · exact ⟨2, by rw [hread, hone]; decide⟩
      · exact ⟨1, by rw [hread]; exact hone⟩

/-- **Bytes that are held spoil a packet.** Whatever is held between two calls, there is a packet
that the next call does not deliver as it is. -/
theorem formatRecvBuffer_ne_of_held {pf : CpacketFormat} {off : Nat} {held : List UInt8}
    (h : Holds pf off held) (hlt : held.length < maxPacketBufferSize + packetHeadSize)
    {m : Message} {packet : List UInt8} (hpacket : IsPacket m.toPacket packet)
    (hcommand : headCommand (held ++ packet) ≠ m.commandId) (pf' : CpacketFormat) :
    formatRecvBuffer noPast pf packet ≠ some ([m.toPacket], pf') := by
  intro hcall
  have hlen := hpacket.length
  have hsmall := hpacket.small
  have hroom : held.length + packet.length < maxBufferSize := by
    unfold maxBufferSize
    unfold maxPacketBufferSize packetHeadSize at *
    omega
  obtain ⟨pf₁, hpf₁, heq⟩ := formatRecvBuffer_eq h hroom noPast
  rw [heq] at hcall
  by_cases hfits : LoopFits off (held ++ packet)
  · obtain ⟨pf₂, hpf₂, -⟩ := parseLoop_of_fits hpf₁ hfits noPast
    rw [hpf₂] at hcall
    exact parseBytes_ne_of_headCommand (p := m.toPacket) hcommand
      (Prod.mk.inj (Option.some.inj hcall)).1
  · rw [parseLoop_undefined hpf₁ hfits] at hcall
    cases hcall

end CpacketFormat

end PssClient
