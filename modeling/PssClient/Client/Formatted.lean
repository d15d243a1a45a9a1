import Mathlib.Data.List.TakeWhile
import PssClient.Client.Machine
import PssClient.Lib.Run
import PssClient.Wire.Session

/-!
# A formatted send

`client_send_format_data` hands the body of a message on as a `const char*` with its length, and
`format_send_buffer` takes it as a `std::string` again, which ends at the first zero byte. Then it
copies as many bytes as the length says.

* `cStrRead_cStr` — what the copy reads: the body, or bytes behind the string.
* `Call` / `use` — the calls that a formatter is used through.
* `Reserved` — the invariant of the formatter: the 32 reserved bytes of its scratch buffer are zero.
* `clientSendFormatData_iff` — the result: the packet with the body is written exactly when no byte
  of the body but the last is zero. `zeros_not_sent` has the body of the example program.
-/

namespace PssClient

open Machine Circular

/-! ## The conversions -/

/-- No byte is zero, except possibly the last. -/
def ZeroFree (body : List UInt8) : Prop := ∀ b ∈ body.dropLast, b ≠ 0

instance (body : List UInt8) : Decidable (ZeroFree body) :=
  List.decidableBAll (fun b => b ≠ 0) body.dropLast

/-- The string made of the body is read up to its final zero, which may stand for the last byte. -/
theorem cStrRead_cStr (body : List UInt8) :
    CpacketFormat.cStrRead (cStr body) body.length = if ZeroFree body then some body else none := by
  rcases List.eq_nil_or_concat body with rfl | ⟨front, last, rfl⟩
  · rfl
  rw [List.concat_eq_append]
  have hlength : (front ++ [last]).length = front.length + 1 := by simp
  have hiff : ZeroFree (front ++ [last]) ↔ ∀ b ∈ front, b ≠ 0 := by
    rw [ZeroFree, List.dropLast_concat]
  have hwhole : front.takeWhile (· ≠ 0) = front ↔ ZeroFree (front ++ [last]) := by
    rw [hiff, List.takeWhile_eq_self_iff]
    simp
  rw [CpacketFormat.cStrRead, cStr, List.takeWhile_append, hlength]
  by_cases hfree : ZeroFree (front ++ [last])
  · rw [if_pos hfree, hwhole.mpr hfree, if_pos rfl]
    by_cases hlast : last = 0
    · subst hlast
      simp
    · have htail : [last].takeWhile (· ≠ 0) = [last] := by simp [hlast]
      rw [htail, ← hlength, if_pos (Nat.le_succ _), List.take_left]
  · have hshort : (front.takeWhile (· ≠ 0)).length < front.length :=
      lt_of_le_of_ne (List.takeWhile_prefix _).length_le fun heq =>
        hfree (hwhole.mp ((List.takeWhile_prefix _).eq_of_length heq))
    rw [if_neg hfree, if_neg (Nat.ne_of_lt hshort), if_neg (by omega)]

namespace CpacketFormat

/-- The encoder looks at what it reads of the string, not at the string. -/
theorem formatSendBuffer_congr (pf : CpacketFormat) (commandId : Int16) {a b : List UInt8}
    {bufferLength : Nat} (h : cStrRead a bufferLength = cStrRead b bufferLength)
    (formatLength : Nat) :
    formatSendBuffer pf commandId a bufferLength formatLength
      = formatSendBuffer pf commandId b bufferLength formatLength := by
  unfold formatSendBuffer
  rw [h]

/-- What it would have to read is not there. -/
theorem formatSendBuffer_none (pf : CpacketFormat) (commandId : Int16) {a : List UInt8}
    {bufferLength : Nat} (h : cStrRead a bufferLength = none)
    (hsize : bufferLength + packetHeadSize ≤ maxPacketSendSize) (formatLength : Nat) :
    formatSendBuffer pf commandId a bufferLength formatLength = none := by
  have hmod : (bufferLength + packetHeadSize) % sizeMod = bufferLength + packetHeadSize :=
    Nat.mod_eq_of_lt (by unfold sizeMod packetHeadSize maxPacketSendSize at *; omega)
  unfold formatSendBuffer
  rw [if_neg (by rw [hmod]; exact Nat.not_lt.mpr hsize), h]
  simp

/-! ## The scratch buffer -/

/-- The 32 bytes behind the lengths, which no copy touches, are zero. -/
def Reserved (pf : CpacketFormat) : Prop :=
  ∀ i (h : i < maxPacketSendSize), 8 ≤ i → i < packetHeadSize → pf.sendBuffer[i] = 0

theorem reserved_new (junk : Vector UInt8 maxBufferSize) : Reserved (new junk) := by
  intro i h _ _
  exact Vector.getElem_replicate h

theorem Reserved.bytes {pf : CpacketFormat} (h : Reserved pf) :
    (pf.sendBuffer.toList.drop 8).take 32 = List.replicate 32 0 := by
  refine List.eq_replicate_iff.mpr ⟨by simp [maxPacketSendSize], fun b hb => ?_⟩
  obtain ⟨i, hi, rfl⟩ := List.mem_iff_getElem.mp hb
  have hlt : i < 32 := by
    rw [List.length_take] at hi
    omega
  rw [List.getElem_take, List.getElem_drop, Vector.getElem_toList]
  exact h (8 + i) (by unfold maxPacketSendSize; omega) (by omega) (by unfold packetHeadSize; omega)

/-- A copy leaves what lies outside of it. -/
theorem memcpyTo_getElem {n : Nat} {buf buf' : Vector UInt8 n} {pos : Nat} {bytes : List UInt8}
    (h : memcpyTo buf pos bytes = some buf') {i : Nat} (hi : i < n)
    (hout : i < pos ∨ pos + bytes.length ≤ i) : buf'[i] = buf[i] := by
  induction bytes generalizing buf pos with
  | nil =>
    obtain rfl := Option.some.inj h
    rfl
  | cons b bytes ih =>
    rw [List.length_cons] at hout
    unfold memcpyTo at h
    split at h
    case isTrue hpos =>
      rw [ih h (by omega)]
      exact Vector.getElem_set_ne hpos hi (by omega)
    case isFalse => cases h

/-- The copies of the encoder end before the reserved bytes, or begin behind them. -/
theorem reserved_formatSendBuffer {pf pf' : CpacketFormat} {commandId : Int16}
    {buffer bytes : List UInt8} {bufferLength formatLength n : Nat} (hpf : Reserved pf)
    (h : formatSendBuffer pf commandId buffer bufferLength formatLength = some (bytes, n, pf')) :
    Reserved pf' := by
  unfold formatSendBuffer at h
  split at h
  · obtain ⟨-, -, rfl⟩ := by simpa using h
    exact hpf
  · obtain ⟨buf₁, h₁, h⟩ := Option.bind_eq_some_iff.mp h
    obtain ⟨buf₂, h₂, h⟩ := Option.bind_eq_some_iff.mp h
    obtain ⟨buf₃, h₃, h⟩ := Option.bind_eq_some_iff.mp h
    obtain ⟨body, -, h⟩ := Option.bind_eq_some_iff.mp h
    obtain ⟨buf₄, h₄, h⟩ := Option.map_eq_some_iff.mp h
    obtain ⟨-, -, rfl⟩ := by simpa using h
    intro i hi hlow hhigh
    show buf₄[i] = 0
    rw [memcpyTo_getElem h₄ hi (.inl hhigh),
      memcpyTo_getElem h₃ hi (.inr (by rw [length_leBytes]; omega)),
      memcpyTo_getElem h₂ hi (.inr (by rw [length_leBytes]; omega)),
      memcpyTo_getElem h₁ hi (.inr (by rw [length_leBytes]; omega))]
    exact hpf i hi hlow hhigh

/-- The decoder does not touch the scratch buffer. -/
theorem reserved_formatRecvBuffer {past : Nat → Option UInt8} {pf pf' : CpacketFormat}
    {chunk : List UInt8} {packets : List CrecvPacket} (hpf : Reserved pf)
    (h : formatRecvBuffer past pf chunk = some (packets, pf')) : Reserved pf' := by
  have hsame := formatRecvBuffer_withSend past pf.sendBuffer pf chunk
  rw [show withSend pf.sendBuffer pf = pf from rfl, h] at hsame
  have heq : pf' = withSend pf.sendBuffer pf' := congrArg Prod.snd (Option.some.inj hsame)
  rw [heq]
  exact hpf

/-- A call of the formatter; what lies behind the ring may be different each time. -/
inductive Call
  | formatRecvBuffer (past : Nat → Option UInt8) (recvBuffer : List UInt8)
  | formatSendBuffer (commandId : Int16) (buffer : List UInt8) (bufferLength formatLength : Nat)

/-- The formatter after the call. -/
def use (pf : CpacketFormat) : Call → Option CpacketFormat
  | .formatRecvBuffer past recvBuffer => (formatRecvBuffer past pf recvBuffer).map Prod.snd
  | .formatSendBuffer commandId buffer bufferLength formatLength =>
    (formatSendBuffer pf commandId buffer bufferLength formatLength).map fun r => r.2.2

theorem reserved_use {pf pf' : CpacketFormat} {call : Call} (h : Reserved pf)
    (hs : use pf call = some pf') : Reserved pf' := by
  cases call with
  | formatRecvBuffer past recvBuffer =>
    obtain ⟨⟨packets, pf₁⟩, hcall, rfl⟩ := Option.map_eq_some_iff.mp hs
    exact reserved_formatRecvBuffer h hcall
  | formatSendBuffer commandId buffer bufferLength formatLength =>
    obtain ⟨⟨bytes, n, pf₁⟩, hcall, rfl⟩ := Option.map_eq_some_iff.mp hs
    exact reserved_formatSendBuffer h hcall

end CpacketFormat

/-! ## The send -/

open CpacketFormat

/-- **What a formatter hands to `do_write_immediately`.** The body is made a string on its way,
which ends at its first zero byte; the copy of the whole length is then defined only when there is
no byte behind one. The packet is the one that the encoder is meant to make. -/
theorem formatted_of_reserved (past : Nat → Option UInt8) {pf : CpacketFormat} (h : Reserved pf)
    (connectId : Nat) (commandId : Int16) {body : List UInt8} (hlength : body.length ≤ 2008) :
    (ZeroFree body → ∃ pf', formatted (cpacketFormat past) connectId commandId body body.length pf
      = some (packetBytes ⟨commandId, body⟩ (List.replicate 32 0), pf')) ∧
    (¬ ZeroFree body →
      formatted (cpacketFormat past) connectId commandId body body.length pf = none) := by
  have hsize : body.length + packetHeadSize ≤ maxPacketSendSize := by
    unfold packetHeadSize maxPacketSendSize
    omega
  constructor
  · intro hfree
    -- without a zero byte the string has all of the body
    have hread : cStrRead (cStr body) body.length = cStrRead body body.length := by
      rw [cStrRead_cStr, if_pos hfree]
      simp [cStrRead]
    obtain ⟨pf', heq⟩ := formatSendBuffer_eq pf ⟨commandId, body⟩ 0 hsize
    rw [h.bytes] at heq
    refine ⟨pf', ?_⟩
    unfold formatted
    show (formatSendBuffer pf commandId (cStr body) body.length 0).bind _ = _
    rw [formatSendBuffer_congr pf commandId hread, heq]
    -- the length that is handed on is that of the packet
    have hpacket : (packetBytes ⟨commandId, body⟩ (List.replicate 32 0)).length
        = packetHeadSize + body.length := by
      simp only [packetBytes, packetHeadSize, List.length_append, length_leBytes,
        List.length_replicate]
    show (cStrRead (packetBytes ⟨commandId, body⟩ (List.replicate 32 0))
      (packetHeadSize + body.length)).map _ = _
    rw [← hpacket, cStrRead, if_pos (Nat.le_succ _), List.take_left]
    rfl
  · intro hnot
    unfold formatted
    show (formatSendBuffer pf commandId (cStr body) body.length 0).bind _ = _
    rw [formatSendBuffer_none pf commandId (by rw [cStrRead_cStr, if_neg hnot]) hsize]
    rfl

namespace Client

/-- **A formatted send writes the packet with the given body, and reads nothing else, exactly when
no byte of the body but the last is zero.** The client is a connected stream client, its formatter
has been used in any way before. -/
theorem clientSendFormatData_iff (past : Nat → Option UInt8) (junk : Vector UInt8 maxBufferSize)
    (calls : List CpacketFormat.Call) (s : Client CpacketFormat) (commandId : Int16)
    (body : List UInt8) (hpf : run use (new junk) calls = some s.packetFormat)
    (hconnect : s.isConnect = true) (hregistered : s.registered = true)
    (hlength : body.length ≤ 2008) :
    (∃ pf', clientSendFormatData (cpacketFormat past) commandId body body.length s
      = some (doWriteImmediately (packetBytes ⟨commandId, body⟩ (List.replicate 32 0))
        { s with packetFormat := pf' })) ↔ ZeroFree body := by
  have hreserved : Reserved s.packetFormat :=
    invariant_of_run Reserved (fun _ _ _ => reserved_use) (reserved_new junk) hpf
  obtain ⟨hfree, hzero⟩ := formatted_of_reserved past hreserved s.connectId commandId hlength
  have hsend : clientSendFormatData (cpacketFormat past) commandId body body.length s
      = (formatted (cpacketFormat past) s.connectId commandId body body.length
          s.packetFormat).map fun r =>
        doWriteImmediately r.1 { s with packetFormat := r.2 } := by
    rw [clientSendFormatData, if_pos hregistered, doWriteFormatData,
      if_neg (by simp [hconnect])]
  rw [hsend]
  constructor
  · rintro ⟨pf', heq⟩
    by_contra hnot
    rw [hzero hnot] at heq
    cases heq
  · intro h
    obtain ⟨pf', heq⟩ := hfree h
    exact ⟨pf', by rw [heq]; rfl⟩

/-- A connected client of the example program. -/
def connected : Client CpacketFormat := { started .tcp with isConnect := true }

/-- Only the last byte is zero. -/
theorem clientSendFormatData_iff_lastZero :
    ∃ pf', clientSendFormatData (cpacketFormat noPast) 1 [7, 0] 2 connected
      = some (doWriteImmediately (packetBytes ⟨1, [7, 0]⟩ (List.replicate 32 0))
        { connected with packetFormat := pf' }) :=
  (clientSendFormatData_iff noPast _ [] connected 1 [7, 0] rfl rfl rfl (by decide)).mpr (by decide)

/-- The 200 zero bytes that the example program sends: the string made of them is empty, and the
copy reads behind it. -/
theorem zeros_not_sent :
    clientSendFormatData (cpacketFormat noPast) 0x2101 (List.replicate 200 0) 200 connected
      = none := by
  have hnot : ¬ ZeroFree (List.replicate 200 0) := fun h =>
    h 0 (by rw [List.dropLast_replicate]; exact List.mem_replicate.mpr ⟨by decide, rfl⟩) rfl
  have hformat : formatted (cpacketFormat noPast) connected.connectId 0x2101
      (List.replicate 200 0) (List.replicate 200 (0 : UInt8)).length connected.packetFormat
      = none :=
    (formatted_of_reserved noPast (reserved_new _) _ _
      (by rw [List.length_replicate]; decide)).2 hnot
  rw [List.length_replicate] at hformat
  have hregistered : connected.registered = true := rfl
  have hconnect : ¬ (connected.transport = .tcp ∧ connected.isConnect = false) := by decide
  rw [clientSendFormatData, if_pos hregistered, doWriteFormatData, if_neg hconnect, hformat]
  rfl

end Client

end PssClient
