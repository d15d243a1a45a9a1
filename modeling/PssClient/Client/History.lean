import PssClient.Client.SendSize

/-!
# What an encoded packet carries of earlier ones

`send_buffer_` is used for every packet and never cleared, and `format_send_buffer` skips 32 bytes
of it.

* `SendCall` — a call of `format_send_buffer` whose length is at most the size of its string.
* `encodeAfter` — what such a call returns when others have been made before it.
* `isSome_history` — any calls can be made before: none of them does anything undefined.
* `encodeAfter_eq` — the result of an accepted call, in which nothing of the earlier ones is left.
* `encoded_independent` — two of them with the same command and the same body return the same.
-/

namespace PssClient.CpacketFormat

open Machine

/-- A call of `format_send_buffer`. A `std::string` is never larger than `PTRDIFF_MAX`. -/
structure SendCall where
  commandId : Int16
  buffer : List UInt8
  bufferLength : Nat
  formatLength : Nat
  size_lt : buffer.length < 2 ^ 63
  length_le : bufferLength ≤ buffer.length

namespace SendCall

def call (c : SendCall) : Call :=
  .formatSendBuffer c.commandId c.buffer c.bufferLength c.formatLength

/-- What the packet is to carry. -/
def body (c : SendCall) : List UInt8 := c.buffer.take c.bufferLength

theorem length_body (c : SendCall) : c.body.length = c.bufferLength := by
  rw [body, List.length_take]
  exact Nat.min_eq_left c.length_le

/-- The sum of the sizes cannot wrap around. -/
theorem fits (c : SendCall) (h : ¬ Rejects c.bufferLength) :
    c.body.length + packetHeadSize ≤ maxPacketSendSize := by
  have hsize := c.size_lt
  have hlength := c.length_le
  have hmod : (c.bufferLength + packetHeadSize) % sizeMod = c.bufferLength + packetHeadSize :=
    Nat.mod_eq_of_lt (by unfold sizeMod packetHeadSize; omega)
  rw [Rejects, hmod, Nat.not_lt] at h
  rw [length_body]
  exact h

end SendCall

/-- An accepted call returns the packet with its body. -/
theorem formatSendBuffer_accepts (pf : CpacketFormat) (c : SendCall)
    (h : ¬ Rejects c.bufferLength) :
    ∃ pf', formatSendBuffer pf c.commandId c.buffer c.bufferLength c.formatLength
      = some (packetBytes ⟨c.commandId, c.body⟩ ((pf.sendBuffer.toList.drop 8).take 32),
          packetHeadSize + c.bufferLength, pf') := by
  have hread : cStrRead c.buffer c.bufferLength = cStrRead c.body c.bufferLength := by
    have hlength := c.length_le
    have hbody := c.length_body
    rw [cStrRead, cStrRead, if_pos (by omega), if_pos (by omega),
      List.take_append_of_le_length hlength, List.take_append_of_le_length (by omega),
      SendCall.body, List.take_take, Nat.min_self]
  obtain ⟨pf', heq⟩ := formatSendBuffer_eq pf ⟨c.commandId, c.body⟩ c.formatLength (c.fits h)
  rw [c.length_body] at heq
  exact ⟨pf', (formatSendBuffer_congr pf c.commandId hread c.formatLength).trans heq⟩

/-- What a call returns after the history: the bytes and `format_length`. -/
def encodeAfter (junk : Vector UInt8 maxBufferSize) (history : List SendCall) (c : SendCall) :
    Option (List UInt8 × Nat) :=
  (run use (new junk) (history.map SendCall.call)).bind fun pf =>
    (formatSendBuffer pf c.commandId c.buffer c.bufferLength c.formatLength).map fun r =>
      (r.1, r.2.1)

theorem isSome_use (pf : CpacketFormat) (c : SendCall) : (use pf c.call).isSome := by
  unfold SendCall.call use
  rw [Option.isSome_map]
  by_cases h : Rejects c.bufferLength
  · rw [formatSendBuffer_rejects pf c.commandId c.buffer h]
    rfl
  · obtain ⟨pf', heq⟩ := formatSendBuffer_accepts pf c h
    rw [heq]
    rfl

/-- Every history is one that the formatter can have. -/
theorem isSome_history (pf : CpacketFormat) (history : List SendCall) :
    (run use pf (history.map SendCall.call)).isSome := by
  induction history generalizing pf with
  | nil => rfl
  | cons c history ih =>
    obtain ⟨pf', heq⟩ := Option.isSome_iff_exists.mp (isSome_use pf c)
    rw [List.map_cons, run, heq, Option.bind_some]
    exact ih pf'

/-- An accepted call returns the header with zeroes in its reserved bytes, and the body. -/
theorem encodeAfter_eq (junk : Vector UInt8 maxBufferSize) (history : List SendCall)
    (c : SendCall) (h : ¬ Rejects c.bufferLength) :
    encodeAfter junk history c
      = some (packetBytes ⟨c.commandId, c.body⟩ (List.replicate 32 0),
          packetHeadSize + c.body.length) := by
  obtain ⟨pf, hrun⟩ := Option.isSome_iff_exists.mp (isSome_history (new junk) history)
  have hreserved : Reserved pf :=
    invariant_of_run Reserved (fun _ _ _ => reserved_use) (reserved_new junk) hrun
  obtain ⟨pf', heq⟩ := formatSendBuffer_accepts pf c h
  rw [hreserved.bytes] at heq
  rw [encodeAfter, hrun, Option.bind_some, heq, c.length_body]
  rfl

theorem reserved_packetBytes (m : Message) :
    ((packetBytes m (List.replicate 32 0)).drop 8).take 32 = List.replicate 32 0 := by
  have hhead : (leBytes 2 1 ++ leBytes 2 m.commandId.toUInt16.toNat
      ++ leBytes 4 m.body.length).length = 8 := by simp
  have hpacket : packetBytes m (List.replicate 32 0)
      = (leBytes 2 1 ++ leBytes 2 m.commandId.toUInt16.toNat ++ leBytes 4 m.body.length)
        ++ (List.replicate 32 0 ++ m.body) := by simp [packetBytes]
  rw [hpacket, List.drop_left' hhead]
  exact List.take_left' List.length_replicate

/-- **An encoded packet carries nothing of earlier ones.** After any two histories, two accepted
calls with the same command and the same body return the same bytes and the same length, and the
reserved bytes of the packet are zero. -/
theorem encoded_independent (junk₁ junk₂ : Vector UInt8 maxBufferSize)
    (history₁ history₂ : List SendCall) (c₁ c₂ : SendCall) (hcommand : c₁.commandId = c₂.commandId)
    (hbody : c₁.body = c₂.body) (haccepted : ¬ Rejects c₁.bufferLength) :
    ∃ bytes n, encodeAfter junk₁ history₁ c₁ = some (bytes, n) ∧
      encodeAfter junk₂ history₂ c₂ = some (bytes, n) ∧
      (bytes.drop 8).take 32 = List.replicate 32 0 := by
  have hlength : c₂.bufferLength = c₁.bufferLength := by
    rw [← c₂.length_body, ← hbody, c₁.length_body]
  refine ⟨_, _, encodeAfter_eq junk₁ history₁ c₁ haccepted, ?_, reserved_packetBytes _⟩
  rw [encodeAfter_eq junk₂ history₂ c₂ (by rwa [hlength]), hcommand, hbody]

/-- A message of two bytes, out of a string of two. -/
def short : SendCall := ⟨2, [9, 8], 2, 0, by decide, by decide⟩

/-- The same two bytes, out of a longer string. -/
def shortOfLonger : SendCall := ⟨2, [9, 8, 7], 2, 5, by decide, by decide⟩

/-- A longer message. -/
def longer : SendCall := ⟨1, [6, 5, 4, 3], 4, 0, by decide, by decide⟩

theorem encoded_independent_short :
    ∃ bytes n, encodeAfter (Vector.replicate _ 0) [] short = some (bytes, n) ∧
      encodeAfter (Vector.replicate _ 255) [longer, short] shortOfLonger = some (bytes, n) ∧
      (bytes.drop 8).take 32 = List.replicate 32 0 :=
  encoded_independent _ _ _ _ short shortOfLonger rfl rfl (by decide)

end PssClient.CpacketFormat
