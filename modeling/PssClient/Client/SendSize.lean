import PssClient.Client.Formatted

/-!
# The size of a formatted send

`client_send_format_data` takes the size of a message as an `int`, and `do_write_format_data` hands
it on as a `size_t`. `format_send_buffer` adds the size of the header to it before it compares.

* `sizeT` — the conversion. `rejects_sizeT` says which sizes the check stops.
* `sendCopies` — the copies of the encoder, as positions in `send_buffer_` with lengths.
  `isSome_formatSendBuffer_iff` connects them with the encoder.
* `sizeChecked_iff` — the result: the check stops every size but those from -40 to -1, with which
  the sum wraps around. `minusOne_not_checked` has one of them.
-/

namespace PssClient

/-- `int` to `size_t`. -/
def sizeT (sendSize : Int32) : Nat := intToSizeT sendSize.toUInt32.toNat

theorem sizeT_of_nonneg {sendSize : Int32} (h : 0 ≤ sendSize.toInt) :
    (sizeT sendSize : Int) = sendSize.toInt := by
  have hbits : sendSize.toInt = sendSize.toUInt32.toBitVec.toInt := rfl
  have hnat : sendSize.toUInt32.toNat = sendSize.toUInt32.toBitVec.toNat := rfl
  rw [hbits, BitVec.toInt_eq_toNat_cond] at h ⊢
  rw [sizeT, intToSizeT, hnat]
  split at h <;> split <;> omega

/-- A negative size is counted from the top of the range. -/
theorem sizeT_of_neg {sendSize : Int32} (h : sendSize.toInt < 0) :
    (sizeT sendSize : Int) = sizeMod + sendSize.toInt := by
  have hbits : sendSize.toInt = sendSize.toUInt32.toBitVec.toInt := rfl
  have hnat : sendSize.toUInt32.toNat = sendSize.toUInt32.toBitVec.toNat := rfl
  have hlt := sendSize.toUInt32.toBitVec.isLt
  rw [hbits, BitVec.toInt_eq_toNat_cond] at h ⊢
  rw [sizeT, intToSizeT, hnat]
  unfold sizeMod
  split at h <;> split <;> omega

namespace CpacketFormat

/-! ## The check -/

/-- The size check of `format_send_buffer` stops the message. -/
def Rejects (bufferLength : Nat) : Prop :=
  (bufferLength + packetHeadSize) % sizeMod > maxPacketSendSize

instance (bufferLength : Nat) : Decidable (Rejects bufferLength) :=
  inferInstanceAs (Decidable (_ > _))

theorem formatSendBuffer_rejects (pf : CpacketFormat) (commandId : Int16) (buffer : List UInt8)
    {bufferLength : Nat} (h : Rejects bufferLength) (formatLength : Nat) :
    formatSendBuffer pf commandId buffer bufferLength formatLength = some ([], formatLength, pf) :=
  if_pos h

theorem rejects_sizeT (sendSize : Int32) :
    Rejects (sizeT sendSize) ↔ sendSize.toInt < -40 ∨ 2008 < sendSize.toInt := by
  have hlow := sendSize.le_toInt
  have hhigh := sendSize.toInt_lt
  unfold Rejects
  rcases lt_or_ge sendSize.toInt 0 with hneg | hpos
  · have hsize := sizeT_of_neg hneg
    unfold sizeMod maxPacketSendSize packetHeadSize at *
    omega
  · have hsize := sizeT_of_nonneg hpos
    unfold sizeMod maxPacketSendSize packetHeadSize at *
    omega

/-! ## The copies -/

/-- A copy stays inside the array exactly when every position that it writes does. -/
theorem isSome_memcpyTo_iff {n : Nat} (buf : Vector UInt8 n) (pos : Nat) (bytes : List UInt8) :
    (memcpyTo buf pos bytes).isSome ↔ ∀ i, pos ≤ i → i < pos + bytes.length → i < n := by
  induction bytes generalizing buf pos with
  | nil => simpa [memcpyTo] using fun i h h' => absurd h' (Nat.not_lt.mpr h)
  | cons b bytes ih =>
    rw [memcpyTo, List.length_cons]
    split
    case isTrue hpos =>
      rw [ih]
      constructor
      · intro h i hle hlt
        rcases Nat.eq_or_lt_of_le hle with rfl | hgt
        · exact hpos
        · exact h i hgt (by omega)
      · intro h i hle hlt
        exact h i (by omega) (by omega)
    case isFalse hpos =>
      refine iff_of_false (by simp) fun h => hpos (h pos le_rfl (by omega))

/-- Where `format_send_buffer` copies to: the position and the length of each `memcpy`. -/
def sendCopies (bufferLength : Nat) : List (Nat × Nat) :=
  if Rejects bufferLength then []
  else [(0, 2), (2, 2), (4, 4), (packetHeadSize, bufferLength)]

/-- What the copy writes lies inside `send_buffer_`. -/
def Inside (copy : Nat × Nat) : Prop :=
  ∀ i, copy.1 ≤ i → i < copy.1 + copy.2 → i < maxPacketSendSize

theorem inside_of_le {copy : Nat × Nat} (h : copy.1 + copy.2 ≤ maxPacketSendSize) : Inside copy :=
  fun _ _ hlt => Nat.lt_of_lt_of_le hlt h

theorem inside_body_iff (bufferLength : Nat) :
    Inside (packetHeadSize, bufferLength) ↔ bufferLength ≤ 2008 := by
  constructor
  · intro h
    by_contra hgt
    have hlast : 2048 < maxPacketSendSize :=
      h 2048 (by unfold packetHeadSize; omega) (by unfold packetHeadSize; omega)
    exact absurd hlast (by decide)
  · intro h
    exact inside_of_le (by unfold packetHeadSize maxPacketSendSize; omega)

/-- The copies of a message that passes stay inside when that of the body does. -/
theorem sendCopies_inside_iff {bufferLength : Nat} (h : ¬ Rejects bufferLength) :
    (∀ copy ∈ sendCopies bufferLength, Inside copy) ↔ bufferLength ≤ 2008 := by
  have hversion : Inside (0, 2) := inside_of_le (by decide)
  have hcommand : Inside (2, 2) := inside_of_le (by decide)
  have hlength : Inside (4, 4) := inside_of_le (by decide)
  rw [sendCopies, if_neg h, ← inside_body_iff]
  simp only [List.forall_mem_cons, List.not_mem_nil, false_imp_iff, implies_true, and_true]
  exact ⟨fun hall => hall.2.2.2, fun hbody => ⟨hversion, hcommand, hlength, hbody⟩⟩

/-- The encoder is defined when all its copies stay inside and it finds what it reads. -/
theorem isSome_formatSendBuffer_iff (pf : CpacketFormat) (commandId : Int16) (buffer : List UInt8)
    (bufferLength formatLength : Nat) :
    (formatSendBuffer pf commandId buffer bufferLength formatLength).isSome ↔
      (∀ copy ∈ sendCopies bufferLength, Inside copy) ∧
        (Rejects bufferLength ∨ bufferLength ≤ buffer.length + 1) := by
  by_cases hrejects : Rejects bufferLength
  · rw [formatSendBuffer_rejects pf commandId buffer hrejects, sendCopies, if_pos hrejects]
    simp [hrejects]
  · rw [sendCopies_inside_iff hrejects, or_iff_right hrejects]
    obtain ⟨b1, h1, -⟩ := toList_memcpyTo pf.sendBuffer 0 (leBytes 2 1) (by decide)
    obtain ⟨b2, h2, -⟩ := toList_memcpyTo b1 2 (leBytes 2 commandId.toUInt16.toNat)
      (by rw [length_leBytes]; decide)
    obtain ⟨b3, h3, -⟩ := toList_memcpyTo b2 4 (leBytes 4 (bufferLength % 4294967296))
      (by rw [length_leBytes]; decide)
    have hpasses : ¬ (bufferLength + packetHeadSize) % sizeMod > maxPacketSendSize := hrejects
    rw [formatSendBuffer, if_neg hpasses, h1, Option.bind_some, h2, Option.bind_some, h3,
      Option.bind_some, cStrRead]
    split
    case isTrue hread =>
      have hbody : ((buffer ++ [0]).take bufferLength).length = bufferLength := by
        rw [List.length_take, List.length_append, List.length_singleton]
        exact Nat.min_eq_left hread
      rw [Option.bind_some, Option.isSome_map, isSome_memcpyTo_iff, hbody, ← inside_body_iff]
      exact ⟨fun h => ⟨h, hread⟩, And.left⟩
    case isFalse hread =>
      exact iff_of_false (by simp) fun h => hread h.2

/-! ## The result -/

/-- The check does its work: the message is rejected, or it is short enough and what is written of
it lies inside `send_buffer_`. -/
def SizeChecked (pf : CpacketFormat) (commandId : Int16) (sendBuff : List UInt8)
    (sendSize : Int32) (formatLength : Nat) : Prop :=
  formatSendBuffer pf commandId (cStr sendBuff) (sizeT sendSize) formatLength
      = some ([], formatLength, pf) ∨
    sizeT sendSize ≤ 2008 ∧ ∀ copy ∈ sendCopies (sizeT sendSize), Inside copy

/-- A message that passes is not mistaken for a rejected one. -/
theorem formatSendBuffer_ne_of_not_rejects {pf pf' : CpacketFormat} {commandId : Int16}
    {buffer : List UInt8} {bufferLength : Nat} (h : ¬ Rejects bufferLength) (formatLength n : Nat) :
    formatSendBuffer pf commandId buffer bufferLength formatLength ≠ some ([], n, pf') := by
  intro heq
  have hpasses : ¬ (bufferLength + packetHeadSize) % sizeMod > maxPacketSendSize := h
  rw [formatSendBuffer, if_neg hpasses] at heq
  simp only [Option.bind_eq_some_iff, Option.map_eq_some_iff, Prod.mk.injEq] at heq
  obtain ⟨_, -, _, -, _, -, _, -, buf, -, hbytes, -⟩ := heq
  have hlength : (buf.toList.take (packetHeadSize + bufferLength)).length = 0 := by
    rw [hbytes, List.length_nil]
  rw [List.length_take, Vector.length_toList] at hlength
  unfold packetHeadSize maxPacketSendSize at hlength
  omega

theorem not_sizeChecked {sendSize : Int32} (hlow : -40 ≤ sendSize.toInt) (hneg : sendSize.toInt < 0)
    (pf : CpacketFormat) (commandId : Int16) (sendBuff : List UInt8) (formatLength : Nat) :
    ¬ SizeChecked pf commandId sendBuff sendSize formatLength := by
  have hpasses : ¬ Rejects (sizeT sendSize) := by
    rw [rejects_sizeT]
    omega
  have hsize := sizeT_of_neg hneg
  rintro (hrejected | ⟨hle, -⟩)
  · exact formatSendBuffer_ne_of_not_rejects hpasses _ _ hrejected
  · unfold sizeMod at hsize
    omega

/-- **The size check holds for every size but those from -40 to -1.** With one of these the sum of
the sizes wraps around to less than the header, and the body is copied over the end of the
buffer. -/
theorem sizeChecked_iff (pf : CpacketFormat) (commandId : Int16) (sendBuff : List UInt8)
    (sendSize : Int32) (formatLength : Nat) :
    SizeChecked pf commandId sendBuff sendSize formatLength ↔
      ¬ (-40 ≤ sendSize.toInt ∧ sendSize.toInt < 0) := by
  constructor
  · rintro hchecked ⟨hlow, hneg⟩
    exact not_sizeChecked hlow hneg pf commandId sendBuff formatLength hchecked
  · intro hsize
    by_cases hrejects : Rejects (sizeT sendSize)
    · exact .inl (formatSendBuffer_rejects pf commandId _ hrejects formatLength)
    · have hbounds := (rejects_sizeT sendSize).not.mp hrejects
      have heq := sizeT_of_nonneg (show 0 ≤ sendSize.toInt by omega)
      have hle : sizeT sendSize ≤ 2008 := by omega
      exact .inr ⟨hle, (sendCopies_inside_iff hrejects).mpr hle⟩

/-- With the size -1 the sum is 39, and `memcpy` gets the largest `size_t` as its length. -/
theorem minusOne_not_checked :
    ¬ SizeChecked (new (Vector.replicate maxBufferSize 0)) 1 [7] (-1) 0 :=
  not_sizeChecked (by decide) (by decide) _ _ _ _

end CpacketFormat

namespace Client

open CpacketFormat

/-- A client that gets as far as the formatter does something undefined with such a size. -/
theorem clientSendFormatData_negative (past : Nat → Option UInt8) {s : Client CpacketFormat}
    (hregistered : s.registered = true) (hopen : s.transport = .udp ∨ s.isConnect = true)
    (commandId : Int16) (sendBuff : List UInt8) {sendSize : Int32} (hlow : -40 ≤ sendSize.toInt)
    (hneg : sendSize.toInt < 0) :
    clientSendFormatData (cpacketFormat past) commandId sendBuff (sizeT sendSize) s = none := by
  have hpasses : ¬ Rejects (sizeT sendSize) := by
    rw [rejects_sizeT]
    omega
  have hlong : ¬ sizeT sendSize ≤ 2008 := by
    have := sizeT_of_neg hneg
    unfold sizeMod at this
    omega
  have hnone : formatSendBuffer s.packetFormat commandId (cStr sendBuff) (sizeT sendSize) 0
      = none := by
    rw [← Option.not_isSome_iff_eq_none, isSome_formatSendBuffer_iff,
      sendCopies_inside_iff hpasses]
    exact fun h => hlong h.1
  have hflag : ¬ (s.transport = .tcp ∧ s.isConnect = false) := by
    rintro ⟨htcp, hclosed⟩
    rcases hopen with hudp | hconnect
    · exact absurd (htcp.symm.trans hudp) (by decide)
    · exact absurd (hclosed.symm.trans hconnect) (by decide)
  rw [clientSendFormatData, if_pos hregistered, doWriteFormatData, if_neg hflag, formatted]
  show ((formatSendBuffer s.packetFormat commandId (cStr sendBuff) (sizeT sendSize) 0).bind
    _).map _ = none
  rw [hnone]
  rfl

end Client

end PssClient
