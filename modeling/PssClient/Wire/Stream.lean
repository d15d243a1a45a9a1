import PssClient.Wire.PacketFormat
import Mathlib.Data.List.Infix

/-!
# The decoder over a flat stream of bytes

What `format_recv_buffer` is for, said without the ring: `bytesRound` looks at the bytes
buffered so far and cuts off the packet in front, `parseBytes` repeats it. The module ties the
ring decoder to it.

* `Holds pf off bytes` — the ring holds `bytes`, its front lies at `off` in the array, and the
  count kept beside it agrees.
* `RoundFits` / `LoopFits` — every byte that the rounds read through the pointer of `peek()`
  lies inside the array.
* `parseLoop_of_fits` — then the ring decoder does what the flat one does, whatever lies
  behind the array.
* `parseLoop_undefined` — and otherwise its result depends on what lies there: with nothing
  to be read there it has none.
-/

namespace PssClient

open Circular

namespace CpacketFormat

/-! ## The flat decoder -/

/-- The length field of a packet head, as the decoder compares it. -/
def headSize (bytes : List UInt8) : Nat := intToSizeT (leNat ((bytes.drop 4).take 4))

/-- The packet at the front of `bytes`. -/
def headPacket (bytes : List UInt8) : CrecvPacket where
  commandId := intToShort (leNat ((bytes.drop 2).take 2))
  packetBody := (bytes.drop packetHeadSize).take (headSize bytes)
  packetSize := headSize bytes

/-- One round on the bytes themselves. -/
def bytesRound (bytes : List UInt8) : Round (List UInt8) :=
  if packetHeadSize > bytes.length then .wait bytes
  else if maxPacketBufferSize ≤ headSize bytes then .clear []
  else if headSize bytes + packetHeadSize ≤ bytes.length then
    .packet (headPacket bytes) (bytes.drop (headSize bytes + packetHeadSize))
  else .wait bytes

/-- A round waits with all that it found, throws it away or cuts off the packet in front. -/
theorem bytesRound_cases (bytes : List UInt8) :
    bytesRound bytes = .wait bytes ∨ bytesRound bytes = .clear [] ∨
      bytesRound bytes = .packet (headPacket bytes) (bytes.drop (headSize bytes + packetHeadSize)) ∧
        headSize bytes < maxPacketBufferSize ∧ headSize bytes + packetHeadSize ≤ bytes.length := by
  unfold bytesRound
  split
  case isTrue => exact .inl rfl
  case isFalse =>
    split
    case isTrue => exact .inr (.inl rfl)
    case isFalse hsize =>
      split
      case isTrue hlen => exact .inr (.inr ⟨rfl, Nat.not_le.mp hsize, hlen⟩)
      case isFalse => exact .inl rfl

/-- The bytes that a waiting round leaves are those that it found. -/
theorem bytesRound_wait {bytes rest : List UInt8} (h : bytesRound bytes = .wait rest) :
    rest = bytes := by
  rcases bytesRound_cases bytes with hwait | hclear | ⟨hpacket, -⟩
  · exact Round.wait.inj (h.symm.trans hwait)
  · cases h.symm.trans hclear
  · cases h.symm.trans hpacket

theorem bytesRound_clear {bytes rest : List UInt8} (h : bytesRound bytes = .clear rest) :
    rest = [] := by
  rcases bytesRound_cases bytes with hwait | hclear | ⟨hpacket, -⟩
  · cases h.symm.trans hwait
  · exact Round.clear.inj (h.symm.trans hclear)
  · cases h.symm.trans hpacket

theorem bytesRound_packet {bytes rest : List UInt8} {p : CrecvPacket}
    (h : bytesRound bytes = .packet p rest) :
    p = headPacket bytes ∧ rest = bytes.drop (headSize bytes + packetHeadSize) ∧
      headSize bytes < maxPacketBufferSize ∧ headSize bytes + packetHeadSize ≤ bytes.length := by
  rcases bytesRound_cases bytes with hwait | hclear | ⟨hpacket, hsize, hlen⟩
  · cases h.symm.trans hwait
  · cases h.symm.trans hclear
  · obtain ⟨hp, hrest⟩ := Round.packet.inj (h.symm.trans hpacket)
    exact ⟨hp, hrest, hsize, hlen⟩

theorem bytesRound_packet_lt {bytes rest : List UInt8} {p : CrecvPacket}
    (h : bytesRound bytes = .packet p rest) : rest.length < bytes.length := by
  obtain ⟨-, rfl, -, hlen⟩ := bytesRound_packet h
  rw [List.length_drop]
  unfold packetHeadSize at *
  omega

-- `hround` is used by `decreasing_by` only, here and in `LoopFits`.
set_option linter.unusedVariables false in
/-- The packets that the flat decoder cuts off, and what it keeps; `none` when it met a length
field that made it throw everything away. -/
def parseBytes (bytes : List UInt8) : List CrecvPacket × Option (List UInt8) :=
  match hround : bytesRound bytes with
  | .wait rest => ([], some rest)
  | .clear _ => ([], none)
  | .packet p rest =>
    let r := parseBytes rest
    (p :: r.1, r.2)
termination_by bytes.length
decreasing_by exact bytesRound_packet_lt hround

/-- Where the front lies after a packet is removed. -/
def advance (off : Nat) (p : CrecvPacket) : Nat :=
  (off + (p.packetSize + packetHeadSize)) % maxBufferSize

/-- The bytes that a round reads when the front lies at `off` are inside the array: six bytes
of the head once there is a head, and the body once there is a packet. -/
def RoundFits (off : Nat) (bytes : List UInt8) : Prop :=
  packetHeadSize ≤ bytes.length →
    off + 8 ≤ maxBufferSize ∧
      (headSize bytes < maxPacketBufferSize → headSize bytes + packetHeadSize ≤ bytes.length →
        0 < headSize bytes → off + packetHeadSize + headSize bytes ≤ maxBufferSize)

set_option linter.unusedVariables false in
/-- Every round that the decoder takes on `bytes` reads inside the array. -/
def LoopFits (off : Nat) (bytes : List UInt8) : Prop :=
  RoundFits off bytes ∧
    match hround : bytesRound bytes with
    | .packet p rest => LoopFits (advance off p) rest
    | _ => True
termination_by bytes.length
decreasing_by exact bytesRound_packet_lt hround

theorem parseBytes_wait {bytes rest : List UInt8} (h : bytesRound bytes = .wait rest) :
    parseBytes bytes = ([], some rest) := by
  rw [parseBytes]
  split <;> simp_all

theorem parseBytes_clear {bytes rest : List UInt8} (h : bytesRound bytes = .clear rest) :
    parseBytes bytes = ([], none) := by
  rw [parseBytes]
  split <;> simp_all

theorem parseBytes_packet {bytes rest : List UInt8} {p : CrecvPacket}
    (h : bytesRound bytes = .packet p rest) :
    parseBytes bytes = (p :: (parseBytes rest).1, (parseBytes rest).2) := by
  rw [parseBytes]
  split <;> simp_all

theorem loopFits_packet {off : Nat} {bytes rest : List UInt8} {p : CrecvPacket}
    (h : bytesRound bytes = .packet p rest) :
    LoopFits off bytes ↔ RoundFits off bytes ∧ LoopFits (advance off p) rest := by
  rw [LoopFits]
  apply and_congr_right
  intro _
  split <;> simp_all

theorem loopFits_leave {off : Nat} {bytes : List UInt8}
    (h : ∀ p rest, bytesRound bytes ≠ .packet p rest) :
    LoopFits off bytes ↔ RoundFits off bytes := by
  rw [LoopFits]
  refine ⟨fun hl => hl.1, fun hr => ⟨hr, ?_⟩⟩
  split <;> simp_all

/-! ## The ring decoder does what the flat one does -/

/-- The ring holds `bytes` with the front at `off`, and `curr_buffer_size_` is their number. -/
structure Holds (pf : CpacketFormat) (off : Nat) (bytes : List UInt8) : Prop where
  contents : pf.recvBuffer.toList = bytes
  front : pf.recvBuffer.offset = off
  count : pf.currBufferSize = bytes.length

theorem Holds.available {pf : CpacketFormat} {off : Nat} {bytes : List UInt8}
    (h : Holds pf off bytes) : pf.recvBuffer.readAvailable = bytes.length := by
  rw [← h.contents, Ringbuffer.length_toList]

theorem holds_new (junk : Vector UInt8 maxBufferSize) : Holds (new junk) 0 [] :=
  ⟨Ringbuffer.toList_new junk, rfl, rfl⟩

theorem Holds.peek {pf : CpacketFormat} {off : Nat} {bytes : List UInt8}
    (h : Holds pf off bytes) (hlen : packetHeadSize ≤ bytes.length) :
    pf.recvBuffer.peek = some off := by
  have hpos : 0 < pf.recvBuffer.readAvailable := by
    rw [h.available]
    exact Nat.lt_of_lt_of_le (by decide) hlen
  rw [Ringbuffer.peek_eq _ hpos, h.front]

/-- A read through the pointer that stays inside the array gives the bytes held. -/
theorem Holds.flat {pf : CpacketFormat} {off : Nat} {bytes : List UInt8}
    (h : Holds pf off bytes) (past : Nat → Option UInt8) {k m : Nat} (hk : k + m ≤ bytes.length)
    (hfit : off + k + m ≤ maxBufferSize) :
    Circular.flat past pf.recvBuffer.dataBuff (off + k) m = some ((bytes.drop k).take m) := by
  rw [← h.front] at hfit ⊢
  rw [Ringbuffer.flat_offset past _ (by rw [h.available]; exact hk) hfit, h.contents]

/-- Cutting off a packet. -/
theorem Holds.remove {pf : CpacketFormat} {off : Nat} {bytes : List UInt8} {cnt : Nat}
    (h : Holds pf off bytes) (hcnt : cnt ≤ bytes.length) :
    Holds { pf with
      recvBuffer := (pf.recvBuffer.remove cnt).2
      currBufferSize := pf.currBufferSize - cnt } ((off + cnt) % maxBufferSize)
      (bytes.drop cnt) := by
  have hav : cnt ≤ pf.recvBuffer.readAvailable := by rw [h.available]; exact hcnt
  constructor
  · show (pf.recvBuffer.remove cnt).2.toList = _
    rw [Ringbuffer.toList_remove _ hav, h.contents]
  · show (pf.recvBuffer.remove cnt).2.offset = _
    rw [Ringbuffer.offset_remove _ hav, h.front]
  · show pf.currBufferSize - cnt = _
    rw [List.length_drop, h.count]

/-- Taking in received bytes. -/
theorem Holds.write {pf : CpacketFormat} {off : Nat} {bytes chunk : List UInt8}
    (h : Holds pf off bytes) (hroom : bytes.length + chunk.length ≤ maxBufferSize) :
    Holds { pf with
      recvBuffer := (pf.recvBuffer.writeBuff chunk).2
      currBufferSize := pf.currBufferSize + chunk.length } off (bytes ++ chunk) := by
  constructor
  · show (pf.recvBuffer.writeBuff chunk).2.toList = _
    rw [Ringbuffer.toList_writeBuff _ (by rw [h.available]; exact hroom), h.contents]
  · show (pf.recvBuffer.writeBuff chunk).2.offset = _
    rw [← h.front, Ringbuffer.offset, Ringbuffer.offset, Ringbuffer.tail_writeBuff]
  · show pf.currBufferSize + chunk.length = _
    rw [List.length_append, h.count]

/-- What the ring decoder's round has to come to when the flat one's comes to `r`. -/
def RoundAgrees (off : Nat) : Round (List UInt8) → Round CpacketFormat → Prop
  | .wait bytes, .wait pf => Holds pf off bytes
  | .clear bytes, .clear pf => ∃ off', Holds pf off' bytes
  | .packet p bytes, .packet p' pf => p' = p ∧ Holds pf (advance off p) bytes
  | _, _ => False

/-- A round whose reads stay inside the array does to the decoder what `bytesRound` does to the
bytes held, whatever lies behind the array. It is where the ring and the stream of bytes meet. -/
theorem parseRound_of_fits {pf : CpacketFormat} {off : Nat} {bytes : List UInt8}
    (h : Holds pf off bytes) (hfit : RoundFits off bytes) (past : Nat → Option UInt8) :
    ∃ r, parseRound past pf = some r ∧ RoundAgrees off (bytesRound bytes) r := by
  unfold parseRound bytesRound
  rw [h.count]
  by_cases hhead : packetHeadSize > bytes.length
  · rw [if_pos hhead, if_pos hhead]
    exact ⟨_, rfl, h⟩
  · have hlen : packetHeadSize ≤ bytes.length := Nat.not_lt.mp hhead
    obtain ⟨hoff, hbody⟩ := hfit hlen
    rw [if_neg hhead, if_neg hhead, h.peek hlen]
    -- the six bytes of the head that the decoder looks at
    have hcmd := h.flat past (k := 2) (m := 2) (by unfold packetHeadSize at hlen; omega) (by omega)
    have hsize := h.flat past (k := 4) (m := 4) (by unfold packetHeadSize at hlen; omega) (by omega)
    simp only [Option.bind_some, hcmd, hsize]
    change ∃ r, (if maxPacketBufferSize ≤ headSize bytes then _ else _) = some r ∧ _
    by_cases hbig : maxPacketBufferSize ≤ headSize bytes
    · rw [if_pos hbig, if_pos hbig]
      refine ⟨_, rfl, _, ?_, rfl, rfl⟩
      exact Ringbuffer.toList_consumerClear _
    · rw [if_neg hbig, if_neg hbig]
      by_cases hall : headSize bytes + packetHeadSize ≤ bytes.length
      · have hread :
            Circular.flat past pf.recvBuffer.dataBuff (off + packetHeadSize) (headSize bytes)
              = some ((bytes.drop packetHeadSize).take (headSize bytes)) := by
          rcases Nat.eq_zero_or_pos (headSize bytes) with hzero | hpos
          · rw [hzero]
            simp
          · exact h.flat past (by omega) (hbody (Nat.not_le.mp hbig) hall hpos)
        change ∃ r, (if headSize bytes + packetHeadSize ≤ bytes.length then _ else _) = some r ∧ _
        rw [if_pos hall, if_pos hall]
        change ∃ r, Option.map _ (Circular.flat past pf.recvBuffer.dataBuff
          (off + packetHeadSize) (headSize bytes)) = some r ∧ _
        rw [hread, Option.map_some]
        exact ⟨_, rfl, rfl, h.count ▸ h.remove hall⟩
      · change ∃ r, (if headSize bytes + packetHeadSize ≤ bytes.length then _ else _) = some r ∧ _
        rw [if_neg hall, if_neg hall]
        exact ⟨_, rfl, h⟩

/-- A round that reads behind the array, when nothing may be read there. -/
theorem parseRound_undefined {pf : CpacketFormat} {off : Nat} {bytes : List UInt8}
    (h : Holds pf off bytes) (hfit : ¬ RoundFits off bytes) : parseRound noPast pf = none := by
  unfold RoundFits at hfit
  push Not at hfit
  obtain ⟨hlen, hout⟩ := hfit
  unfold parseRound
  rw [h.count, if_neg (Nat.not_lt.mpr hlen), h.peek hlen, Option.bind_some]
  by_cases hhead : off + 8 ≤ maxBufferSize
  · obtain ⟨hsmall, hall, hpos, hbody⟩ := hout hhead
    have hcmd := h.flat noPast (k := 2) (m := 2) (by unfold packetHeadSize at hlen; omega)
      (by omega)
    have hsize := h.flat noPast (k := 4) (m := 4) (by unfold packetHeadSize at hlen; omega)
      (by omega)
    -- the head is inside the array, the body is not
    have hnone : Circular.flat noPast pf.recvBuffer.dataBuff (off + packetHeadSize) (headSize bytes)
        = none := flat_eq_none _ hpos hbody
    simp only [hcmd, hsize, Option.bind_some]
    change (if maxPacketBufferSize ≤ headSize bytes then _ else
      if headSize bytes + packetHeadSize ≤ bytes.length then Option.map _
        (Circular.flat noPast pf.recvBuffer.dataBuff (off + packetHeadSize) (headSize bytes))
      else _) = none
    rw [if_neg (Nat.not_le.mpr hsmall), if_pos hall, hnone, Option.map_none]
  · -- the last byte of the length field is already behind the array
    have hnone : Circular.flat noPast pf.recvBuffer.dataBuff (off + 4) 4 = none :=
      flat_eq_none _ (by decide) (by omega)
    rw [hnone]
    simp

/-- Where the front lies after the packets are removed one after another. -/
def advanceAll (off : Nat) (packets : List CrecvPacket) : Nat := packets.foldl advance off

/-- The ring after the loop holds what the flat decoder kept. -/
def Left (off : Nat) (packets : List CrecvPacket) (pf : CpacketFormat) :
    Option (List UInt8) → Prop
  | some bytes => Holds pf (advanceAll off packets) bytes
  | none => ∃ off', Holds pf off' []

theorem parseBytes_nil : parseBytes [] = ([], some []) :=
  parseBytes_wait (by rw [bytesRound, if_pos (by decide)])

theorem loopFits_nil (off : Nat) : LoopFits off [] := by
  have hwait : bytesRound [] = .wait [] := by rw [bytesRound, if_pos (by decide)]
  refine (loopFits_leave fun p rest h => ?_).mpr fun hlen => absurd hlen (by decide)
  rw [hwait] at h
  cases h

/-- **Inside the array the ring decoder is the flat one.** When every round reads inside the
array, the loop cuts off the packets that the flat decoder cuts off and keeps what it keeps,
whatever lies behind the array. Induction on the bytes held, one round at a time. -/
theorem parseLoop_of_fits {pf : CpacketFormat} {off : Nat} {bytes : List UInt8}
    (h : Holds pf off bytes) (hfit : LoopFits off bytes) (past : Nat → Option UInt8) :
    ∃ pf', parseLoop past pf = some ((parseBytes bytes).1, pf') ∧
      Left off (parseBytes bytes).1 pf' (parseBytes bytes).2 := by
  induction hn : bytes.length using Nat.strong_induction_on generalizing pf off bytes with
  | _ n ih =>
    obtain ⟨r, hround, hagrees⟩ := parseRound_of_fits h (LoopFits.eq_def off bytes ▸ hfit).1 past
    cases hb : bytesRound bytes with
    | wait rest =>
      rw [hb] at hagrees
      cases r with
      | wait pf' => exact ⟨pf', by rw [parseLoop_wait hround, parseBytes_wait hb],
          by rw [parseBytes_wait hb]; exact hagrees⟩
      | clear pf' => exact hagrees.elim
      | packet p pf' => exact hagrees.elim
    | clear rest =>
      rw [hb] at hagrees
      cases r with
      | wait pf' => exact hagrees.elim
      | clear pf' =>
        obtain rfl := bytesRound_clear hb
        exact ⟨pf', by rw [parseLoop_clear hround, parseBytes_clear hb],
          by rw [parseBytes_clear hb]; exact hagrees⟩
      | packet p pf' => exact hagrees.elim
    | packet p rest =>
      rw [hb] at hagrees
      cases r with
      | wait pf' => exact hagrees.elim
      | clear pf' => exact hagrees.elim
      | packet p' pf' =>
        obtain ⟨rfl, hpf'⟩ := hagrees
        have hrest := ((loopFits_packet hb).mp hfit).2
        rw [parseLoop_packet hround, parseBytes_packet hb]
        by_cases hzero : pf'.currBufferSize = 0
        · -- nothing is left, and the flat decoder has nothing more to cut off
          have hnil : rest = [] := List.eq_nil_of_length_eq_zero (hpf'.count ▸ hzero)
          subst hnil
          rw [if_pos hzero, parseBytes_nil]
          exact ⟨pf', rfl, hpf'⟩
        · obtain ⟨pf'', hloop, hleft⟩ :=
            ih rest.length (hn ▸ bytesRound_packet_lt hb) hpf' hrest rfl
          rw [if_neg hzero, hloop]
          refine ⟨pf'', rfl, ?_⟩
          cases hp : (parseBytes rest).2 with
          | none => exact hp ▸ hleft
          | some kept =>
            rw [hp] at hleft
            exact hleft

/-- **Behind the array the result is undefined.** When some round reads behind the array and nothing
may be read there, the loop has no result: the rounds before that one fit, and each hands over a
packet. -/
theorem parseLoop_undefined {pf : CpacketFormat} {off : Nat} {bytes : List UInt8}
    (h : Holds pf off bytes) (hfit : ¬ LoopFits off bytes) : parseLoop noPast pf = none := by
  induction hn : bytes.length using Nat.strong_induction_on generalizing pf off bytes with
  | _ n ih =>
    by_cases hround : RoundFits off bytes
    · obtain ⟨r, hr, hagrees⟩ := parseRound_of_fits h hround noPast
      cases hb : bytesRound bytes with
      | wait rest =>
        exact absurd ((loopFits_leave (by simp [hb])).mpr hround) hfit
      | clear rest =>
        exact absurd ((loopFits_leave (by simp [hb])).mpr hround) hfit
      -- the round in front fits, and one behind it does not
      | packet p rest =>
        rw [hb] at hagrees
        cases r with
        | wait pf' => exact hagrees.elim
        | clear pf' => exact hagrees.elim
        | packet p' pf' =>
          obtain ⟨rfl, hpf'⟩ := hagrees
          have hrest : ¬ LoopFits (advance off p') rest :=
            fun hl => hfit ((loopFits_packet hb).mpr ⟨hround, hl⟩)
          have hne : pf'.currBufferSize ≠ 0 := by
            intro hzero
            have hnil : rest = [] := List.eq_nil_of_length_eq_zero (hpf'.count ▸ hzero)
            exact hrest (hnil ▸ loopFits_nil _)
          rw [parseLoop_packet hr, if_neg hne,
            ih rest.length (hn ▸ bytesRound_packet_lt hb) hpf' hrest rfl, Option.map_none]
    · exact parseLoop_undefined_round (parseRound_undefined h hround)

/-- A call for which there is room is the loop on what is held and what came in. -/
theorem formatRecvBuffer_eq {pf : CpacketFormat} {off : Nat} {bytes chunk : List UInt8}
    (h : Holds pf off bytes) (hroom : bytes.length + chunk.length < maxBufferSize)
    (past : Nat → Option UInt8) :
    ∃ pf', Holds pf' off (bytes ++ chunk) ∧
      formatRecvBuffer past pf chunk = parseLoop past pf' := by
  refine ⟨_, h.write (Nat.le_of_lt hroom), ?_⟩
  rw [formatRecvBuffer, if_neg (by rw [h.count]; exact Nat.not_le.mpr hroom)]

end CpacketFormat

end PssClient
