import PssClient.Wire.RingBuffer

/-!
# The packet formatter

`cpacket_format` of `packet_format.cpp`: the decoder `format_recv_buffer`, which keeps the bytes
of an unfinished packet in a ring buffer between calls, and the encoder `format_send_buffer`,
which assembles a packet in a scratch buffer that is never cleared.

C++ reads the ring through the pointer `peek()` returns. What such a read finds behind the
array is not said by the language, so the decoder takes it as the argument `past`; `noPast` is
the reading in which it is undefined, and the result `none` stands for undefined behaviour.
Machine integers are little-endian, as on the platforms the library is built for.
-/

namespace PssClient

open Circular

/-! ## Bytes of machine integers -/

/-- The `k` bytes of an unsigned integer, low byte first. -/
def leBytes : Nat → Nat → List UInt8
  | 0, _ => []
  | k + 1, i => UInt8.ofNat i :: leBytes k (i / 256)

/-- The unsigned integer with these bytes, low byte first. -/
def leNat : List UInt8 → Nat
  | [] => 0
  | b :: bytes => b.toNat + 256 * leNat bytes

@[simp] theorem length_leBytes (k i : Nat) : (leBytes k i).length = k := by
  induction k generalizing i with
  | zero => rfl
  | succ k ih => simp [leBytes, ih]

theorem leNat_leBytes (k : Nat) {i : Nat} (h : i < 256 ^ k) : leNat (leBytes k i) = i := by
  induction k generalizing i with
  | zero =>
    rw [Nat.pow_zero] at h
    simp only [leBytes, leNat]
    omega
  | succ k ih =>
    have hdiv : i / 256 < 256 ^ k := Nat.div_lt_of_lt_mul (by rwa [Nat.pow_succ, Nat.mul_comm] at h)
    rw [leBytes, leNat, ih hdiv, UInt8.toNat_ofNat']
    exact Nat.mod_add_div i 256

/-- The 32 bits of an `int`, converted to `size_t`: negative values end up at the top of the
range. -/
def intToSizeT (bits : Nat) : Nat :=
  if bits < 2147483648 then bits else sizeMod - 4294967296 + bits

theorem intToSizeT_of_lt {bits : Nat} (h : bits < 2147483648) : intToSizeT bits = bits := if_pos h

/-- `int` to `short`: the low 16 bits. -/
def intToShort (bits : Nat) : Int16 := (UInt16.ofNat bits).toInt16

@[simp] theorem intToShort_toUInt16 (s : Int16) : intToShort s.toUInt16.toNat = s := by
  simp [intToShort]

/-! ## The class -/

/-- `MAX_BUFFER_SIZE`. -/
abbrev maxBufferSize : Nat := 16384

/-- `PACKET_HEAD_SIZE`: `2 * sizeof(short) + sizeof(int) + 32 * sizeof(char)`. -/
abbrev packetHeadSize : Nat := 40

/-- `MAX_PACKET_BUFFER_SIZE`. -/
abbrev maxPacketBufferSize : Nat := 2048

/-- `MAX_PACKET_SEND_SIZE`. -/
abbrev maxPacketSendSize : Nat := 2048

/-- `recv_buffer_max_size_`: what one read can deliver. -/
abbrev recvBufferMaxSize : Nat := 10240

instance : BufferSize maxBufferSize := ⟨by decide, by decide, by decide⟩

/-- `crecv_packet`. -/
structure CrecvPacket where
  commandId : Int16 := 0
  packetBody : List UInt8 := []
  packetSize : Nat := 0
  deriving DecidableEq

/-- `cpacket_format`. -/
structure CpacketFormat where
  recvBuffer : Ringbuffer UInt8 maxBufferSize
  sendBuffer : Vector UInt8 maxPacketSendSize
  currBufferSize : Nat

namespace CpacketFormat

/-- A fresh object: the ring's array is uninitialised, `send_buffer_` is zeroed. -/
def new (junk : Vector UInt8 maxBufferSize) : CpacketFormat where
  recvBuffer := Ringbuffer.new junk
  sendBuffer := Vector.replicate maxPacketSendSize 0
  currBufferSize := 0

/-! ## `format_recv_buffer` -/

/-- What one round of the parsing loop comes to. -/
inductive Round (σ : Type) where
  /-- Leave the loop: the packet in front is not complete. -/
  | wait (s : σ)
  /-- Leave the loop: the length field is out of range, everything buffered is thrown away. -/
  | clear (s : σ)
  /-- A complete packet was cut off. -/
  | packet (p : CrecvPacket) (s : σ)

/-- Memory behind the ring's array of which nothing may be read. -/
def noPast : Nat → Option UInt8 := fun _ => none

/-- One round of the loop. The comparison of `MAX_PACKET_BUFFER_SIZE` with the length is made
in `size_t`, so that a negative length is out of range as well. -/
def parseRound (past : Nat → Option UInt8) (pf : CpacketFormat) : Option (Round CpacketFormat) :=
  if packetHeadSize > pf.currBufferSize then some (.wait pf)
  else
    pf.recvBuffer.peek.bind fun bufferHead =>
    (flat past pf.recvBuffer.dataBuff (bufferHead + 2) 2).bind fun commandBytes =>
    (flat past pf.recvBuffer.dataBuff (bufferHead + 4) 4).bind fun sizeBytes =>
    let commandId := leNat commandBytes
    let packetBodySize := intToSizeT (leNat sizeBytes)
    if maxPacketBufferSize ≤ packetBodySize then
      some (.clear { pf with
        currBufferSize := 0
        recvBuffer := pf.recvBuffer.consumerClear })
    else
      let currPacketSize := packetBodySize + packetHeadSize
      if currPacketSize ≤ pf.currBufferSize then
        (flat past pf.recvBuffer.dataBuff (bufferHead + packetHeadSize) packetBodySize).map
          fun body =>
            .packet
              { commandId := intToShort commandId
                packetBody := body
                packetSize := packetBodySize }
              { pf with
                recvBuffer := (pf.recvBuffer.remove currPacketSize).2
                currBufferSize := pf.currBufferSize - currPacketSize }
      else some (.wait pf)

/-- A round that cuts off a packet leaves less in the buffer. -/
theorem parseRound_packet_lt {past : Nat → Option UInt8} {pf pf' : CpacketFormat}
    {p : CrecvPacket} (h : parseRound past pf = some (.packet p pf')) :
    pf'.currBufferSize < pf.currBufferSize := by
  unfold parseRound at h
  split at h
  · simp at h
  · simp only [Option.bind_eq_some_iff] at h
    obtain ⟨bufferHead, -, commandBytes, -, sizeBytes, -, h⟩ := h
    split at h
    · simp at h
    · split at h
      case isTrue hfit =>
        obtain ⟨body, -, heq⟩ := Option.map_eq_some_iff.mp h
        obtain ⟨-, rfl⟩ := Round.packet.inj heq
        simp only [packetHeadSize] at hfit ⊢
        omega
      case isFalse => simp at h

-- `hround` is used by `decreasing_by` only, which the unused-variable linter does not see.
set_option linter.unusedVariables false in
/-- The loop `while(true)` of `format_recv_buffer`, with the packets it collects. -/
def parseLoop (past : Nat → Option UInt8) (pf : CpacketFormat) :
    Option (List CrecvPacket × CpacketFormat) :=
  match hround : parseRound past pf with
  | none => none
  | some (.wait pf') => some ([], pf')
  | some (.clear pf') => some ([], pf')
  | some (.packet p pf') =>
    if pf'.currBufferSize = 0 then some ([p], pf')
    else (parseLoop past pf').map fun r => (p :: r.1, r.2)
termination_by pf.currBufferSize
decreasing_by exact parseRound_packet_lt hround

theorem parseLoop_undefined_round {past : Nat → Option UInt8} {pf : CpacketFormat}
    (h : parseRound past pf = none) : parseLoop past pf = none := by
  rw [parseLoop]
  split <;> simp_all

theorem parseLoop_wait {past : Nat → Option UInt8} {pf pf' : CpacketFormat}
    (h : parseRound past pf = some (.wait pf')) : parseLoop past pf = some ([], pf') := by
  rw [parseLoop]
  split <;> simp_all

theorem parseLoop_clear {past : Nat → Option UInt8} {pf pf' : CpacketFormat}
    (h : parseRound past pf = some (.clear pf')) : parseLoop past pf = some ([], pf') := by
  rw [parseLoop]
  split <;> simp_all

theorem parseLoop_packet {past : Nat → Option UInt8} {pf pf' : CpacketFormat} {p : CrecvPacket}
    (h : parseRound past pf = some (.packet p pf')) :
    parseLoop past pf = if pf'.currBufferSize = 0 then some ([p], pf')
      else (parseLoop past pf').map fun r => (p :: r.1, r.2) := by
  rw [parseLoop]
  split <;> simp_all

/-- `format_recv_buffer`: take in the received bytes, then cut off the complete packets. -/
def formatRecvBuffer (past : Nat → Option UInt8) (pf : CpacketFormat) (recvBuffer : List UInt8) :
    Option (List CrecvPacket × CpacketFormat) :=
  if pf.currBufferSize + recvBuffer.length ≥ maxBufferSize then some ([], pf)
  else
    parseLoop past { pf with
      recvBuffer := (pf.recvBuffer.writeBuff recvBuffer).2
      currBufferSize := pf.currBufferSize + recvBuffer.length }

/-- The received pieces of a stream, fed one after another; the packets of all of them. -/
def feed (past : Nat → Option UInt8) : CpacketFormat → List (List UInt8) →
    Option (List CrecvPacket × CpacketFormat)
  | pf, [] => some ([], pf)
  | pf, chunk :: chunks =>
    (formatRecvBuffer past pf chunk).bind fun r =>
      (feed past r.2 chunks).map fun r' => (r.1 ++ r'.1, r'.2)

/-! ## `format_send_buffer` -/

/-- `memcpy` into `send_buffer_` from `pos` on; `none` when it would leave the array. -/
def memcpyTo {n : Nat} (buf : Vector UInt8 n) (pos : Nat) : List UInt8 → Option (Vector UInt8 n)
  | [] => some buf
  | b :: bytes => if h : pos < n then memcpyTo (put buf ⟨pos, h⟩ b) (pos + 1) bytes else none

/-- `memcpy` of `len` bytes from `s.c_str()`, which are the string's and a final zero; `none`
when it would read further. -/
def cStrRead (s : List UInt8) (len : Nat) : Option (List UInt8) :=
  if len ≤ s.length + 1 then some ((s ++ [0]).take len) else none

/-- `format_send_buffer`: the packet, and `format_length`, which a rejected message leaves as
it was. The size check is made in `size_t`. -/
def formatSendBuffer (pf : CpacketFormat) (commandId : Int16) (recvBuffer : List UInt8)
    (bufferLength formatLength : Nat) : Option (List UInt8 × Nat × CpacketFormat) :=
  if (bufferLength + packetHeadSize) % sizeMod > maxPacketSendSize then
    some ([], formatLength, pf)
  else
    (memcpyTo pf.sendBuffer 0 (leBytes 2 1)).bind fun buf =>
    (memcpyTo buf 2 (leBytes 2 commandId.toUInt16.toNat)).bind fun buf =>
    (memcpyTo buf 4 (leBytes 4 (bufferLength % 4294967296))).bind fun buf =>
    -- 32 bytes are skipped: they keep what `send_buffer_` held there
    (cStrRead recvBuffer bufferLength).bind fun body =>
    (memcpyTo buf packetHeadSize body).map fun buf =>
      let nPos := packetHeadSize + bufferLength
      (buf.toList.take nPos, nPos, { pf with sendBuffer := buf })

end CpacketFormat

end PssClient
