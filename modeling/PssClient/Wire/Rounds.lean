import PssClient.Lib.Run
import PssClient.Wire.Stream

/-!
# The rounds of the decoder

`format_recv_buffer` with its rounds written down. What lies behind the array may be different in
every round: the fields of the object that come after the ring are there, and they change.

* `Memory` — what a read behind the array finds, round by round.
* `parseRounds` / `receive` — the loop and the call, with the state that each round begins in.
* `receive_erase` — without that it is `formatRecvBuffer`.
* `lengthField` / `roundReads` — what a round reads: the length field of the packet in front, and
  the places behind the pointer.
* `round_of_memory` — memory that can be read gives every round a result.
-/

namespace PssClient

open Circular

namespace CpacketFormat

/-- What lies behind the array in the rounds to come. -/
abbrev Memory := Nat → Nat → Option UInt8

/-- A round: what lay behind the array, and the state it began in. -/
structure Begun where
  past : Nat → Option UInt8
  state : CpacketFormat

/-- What comes of a loop, with its rounds in their order. -/
structure Outcome where
  packets : List CrecvPacket
  state : CpacketFormat
  rounds : List Begun

-- `hround` is used by `decreasing_by` only.
set_option linter.unusedVariables false in
/-- The loop `while(true)` of `format_recv_buffer`. -/
def parseRounds (memory : Memory) (pf : CpacketFormat) : Option Outcome :=
  match hround : parseRound (memory 0) pf with
  | none => none
  | some (.wait pf') => some ⟨[], pf', [⟨memory 0, pf⟩]⟩
  | some (.clear pf') => some ⟨[], pf', [⟨memory 0, pf⟩]⟩
  | some (.packet p pf') =>
    if pf'.currBufferSize = 0 then some ⟨[p], pf', [⟨memory 0, pf⟩]⟩
    else (parseRounds (fun k => memory (k + 1)) pf').map fun o =>
      ⟨p :: o.packets, o.state, ⟨memory 0, pf⟩ :: o.rounds⟩
termination_by pf.currBufferSize
decreasing_by exact parseRound_packet_lt hround

theorem parseRounds_wait (memory : Memory) {pf pf' : CpacketFormat}
    (h : parseRound (memory 0) pf = some (.wait pf')) :
    parseRounds memory pf = some ⟨[], pf', [⟨memory 0, pf⟩]⟩ := by
  rw [parseRounds]
  split <;> simp_all

theorem parseRounds_clear (memory : Memory) {pf pf' : CpacketFormat}
    (h : parseRound (memory 0) pf = some (.clear pf')) :
    parseRounds memory pf = some ⟨[], pf', [⟨memory 0, pf⟩]⟩ := by
  rw [parseRounds]
  split <;> simp_all

theorem parseRounds_packet (memory : Memory) {pf pf' : CpacketFormat} {p : CrecvPacket}
    (h : parseRound (memory 0) pf = some (.packet p pf')) :
    parseRounds memory pf = if pf'.currBufferSize = 0 then some ⟨[p], pf', [⟨memory 0, pf⟩]⟩
      else (parseRounds (fun k => memory (k + 1)) pf').map fun o =>
        ⟨p :: o.packets, o.state, ⟨memory 0, pf⟩ :: o.rounds⟩ := by
  rw [parseRounds]
  split <;> simp_all

theorem parseRounds_none (memory : Memory) {pf : CpacketFormat}
    (h : parseRound (memory 0) pf = none) : parseRounds memory pf = none := by
  rw [parseRounds]
  split <;> simp_all

/-- The state in which a received piece has been taken in. -/
def takeIn (chunk : List UInt8) (pf : CpacketFormat) : CpacketFormat :=
  { pf with
    recvBuffer := (pf.recvBuffer.writeBuff chunk).2
    currBufferSize := pf.currBufferSize + chunk.length }

/-- `format_recv_buffer`. -/
def receive (memory : Memory) (chunk : List UInt8) (pf : CpacketFormat) : Option Outcome :=
  if pf.currBufferSize + chunk.length ≥ maxBufferSize then some ⟨[], pf, []⟩
  else parseRounds memory (takeIn chunk pf)

/-- With the same behind the array in every round the loop is that of the decoder. Induction on
what is buffered. -/
theorem parseRounds_erase (past : Nat → Option UInt8) (pf : CpacketFormat) :
    (parseRounds (fun _ => past) pf).map (fun o => (o.packets, o.state)) = parseLoop past pf := by
  induction hn : pf.currBufferSize using Nat.strong_induction_on generalizing pf with
  | _ n ih =>
    cases hround : parseRound past pf with
    | none =>
      rw [parseRounds_none (fun _ => past) hround, parseLoop_undefined_round hround]
      rfl
    | some r =>
      cases r with
      | wait pf' =>
        rw [parseRounds_wait (fun _ => past) hround, parseLoop_wait hround]
        rfl
      | clear pf' =>
        rw [parseRounds_clear (fun _ => past) hround, parseLoop_clear hround]
        rfl
      | packet p pf' =>
        rw [parseRounds_packet (fun _ => past) hround, parseLoop_packet hround]
        by_cases hzero : pf'.currBufferSize = 0
        · rw [if_pos hzero, if_pos hzero]
          rfl
        · rw [if_neg hzero, if_neg hzero,
            ← ih _ (hn ▸ parseRound_packet_lt hround) pf' rfl, Option.map_map, Option.map_map]
          rfl

theorem receive_erase (past : Nat → Option UInt8) (chunk : List UInt8) (pf : CpacketFormat) :
    (receive (fun _ => past) chunk pf).map (fun o => (o.packets, o.state))
      = formatRecvBuffer past pf chunk := by
  unfold receive formatRecvBuffer
  split
  · rfl
  · exact parseRounds_erase past (takeIn chunk pf)

/-! ## What a round reads -/

/-- The `int` with these 32 bits. -/
def toInt32 (bits : Nat) : Int := if bits < 2147483648 then bits else bits - 4294967296

/-- The length field that a round reads, if it comes to it. -/
def lengthField (r : Begun) : Option Int :=
  if packetHeadSize > r.state.currBufferSize then none
  else
    r.state.recvBuffer.peek.bind fun bufferHead =>
      (flat r.past r.state.recvBuffer.dataBuff (bufferHead + 4) 4).map fun sizeBytes =>
        toInt32 (leNat sizeBytes)

/-- What a length field has to be. -/
def Valid (length : Int) : Prop := 0 ≤ length ∧ length ≤ 2047

instance (length : Int) : Decidable (Valid length) := by
  unfold Valid
  infer_instance

/-- The places, counted from the pointer that `peek()` returns, at which a round reads: six bytes
of the head, and the body once all of it is there. -/
def roundReads (r : Begun) : List Nat :=
  match lengthField r with
  | none => []
  | some length =>
    List.range' 2 6 ++
      if Valid length ∧ length.toNat + packetHeadSize ≤ r.state.currBufferSize then
        List.range' packetHeadSize length.toNat
      else []

/-! ## Memory that can be read -/

theorem length_flat {past : Nat → Option UInt8} {data : Vector UInt8 maxBufferSize}
    {start len : Nat} {l : List UInt8} (h : flat past data start len = some l) :
    l.length = len := by
  induction len generalizing start l with
  | zero =>
    obtain rfl := Option.some.inj h
    rfl
  | succ len ih =>
    obtain ⟨x, -, h⟩ := Option.bind_eq_some_iff.mp h
    obtain ⟨rest, hrest, rfl⟩ := Option.map_eq_some_iff.mp h
    rw [List.length_cons, ih hrest]

theorem flat_of_memory {past : Nat → Option UInt8} (hpast : ∀ i, (past i).isSome = true)
    (data : Vector UInt8 maxBufferSize) (start len : Nat) :
    ∃ l, flat past data start len = some l := by
  induction len generalizing start with
  | zero => exact ⟨[], rfl⟩
  | succ len ih =>
    obtain ⟨rest, hrest⟩ := ih (start + 1)
    have hcell : ∃ x, cell past data start = some x := by
      unfold cell
      split
      · exact ⟨_, rfl⟩
      · exact Option.isSome_iff_exists.mp (hpast _)
    obtain ⟨x, hx⟩ := hcell
    exact ⟨x :: rest, by rw [flat, hx, hrest]; rfl⟩

theorem leNat_lt (bytes : List UInt8) : leNat bytes < 256 ^ bytes.length := by
  induction bytes with
  | nil => decide
  | cons b bytes ih =>
    have hb : b.toNat < 256 := b.toNat_lt
    rw [leNat, List.length_cons, Nat.pow_succ]
    omega

/-- The comparison in `size_t` asks whether the length is valid. -/
theorem intToSizeT_ge {bits : Nat} (h : bits < 4294967296) :
    maxPacketBufferSize ≤ intToSizeT bits ↔ ¬ Valid (toInt32 bits) := by
  unfold intToSizeT Valid toInt32 sizeMod maxPacketBufferSize
  split <;> omega

theorem intToSizeT_of_valid {bits : Nat} (hbits : bits < 4294967296)
    (h : Valid (toInt32 bits)) : toInt32 bits = intToSizeT bits := by
  unfold Valid toInt32 at h
  unfold toInt32 intToSizeT
  split
  case isTrue => rfl
  case isFalse hlarge =>
    rw [if_neg hlarge] at h
    omega

/-- A round has a result when everything that it reads can be read. -/
theorem round_of_memory {past : Nat → Option UInt8} (hpast : ∀ i, (past i).isSome = true)
    {pf : CpacketFormat} {off : Nat} {bytes : List UInt8} (h : Holds pf off bytes) :
    ∃ r, parseRound past pf = some r := by
  unfold parseRound
  rw [h.count]
  split
  · exact ⟨_, rfl⟩
  · rename_i hlong
    obtain ⟨commandBytes, hcommand⟩ := flat_of_memory hpast pf.recvBuffer.dataBuff (off + 2) 2
    obtain ⟨sizeBytes, hsize⟩ := flat_of_memory hpast pf.recvBuffer.dataBuff (off + 4) 4
    obtain ⟨body, hbody⟩ := flat_of_memory hpast pf.recvBuffer.dataBuff (off + packetHeadSize)
      (intToSizeT (leNat sizeBytes))
    rw [h.peek (Nat.not_lt.mp hlong), Option.bind_some, hcommand, Option.bind_some, hsize,
      Option.bind_some]
    dsimp only
    rw [hbody]
    split
    · exact ⟨_, rfl⟩
    · split
      · exact ⟨_, rfl⟩
      · exact ⟨_, rfl⟩

/-- **What a round comes to.** It waits when the head or the body is not all there, clears the ring
when the length field is no valid length, and otherwise hands over a packet and cuts it off the
bytes held. The length is the one that the round has read, also when it has read it behind the
array. -/
theorem round_spec {past : Nat → Option UInt8} {pf : CpacketFormat} {off : Nat}
    {bytes : List UInt8} (h : Holds pf off bytes) {r : Round CpacketFormat}
    (hround : parseRound past pf = some r) :
    match r with
    | .wait pf' => pf' = pf ∧ (lengthField ⟨past, pf⟩ = none ∧ bytes.length < packetHeadSize ∨
        ∃ length, lengthField ⟨past, pf⟩ = some length ∧ Valid length ∧
          bytes.length < length.toNat + packetHeadSize)
    | .clear pf' => pf' = { pf with
          currBufferSize := 0
          recvBuffer := pf.recvBuffer.consumerClear } ∧
        ∃ length, lengthField ⟨past, pf⟩ = some length ∧ ¬ Valid length
    | .packet p pf' => lengthField ⟨past, pf⟩ = some (p.packetSize : Int) ∧
        p.packetSize < maxPacketBufferSize ∧ p.packetBody.length = p.packetSize ∧
        p.packetSize + packetHeadSize ≤ bytes.length ∧
        Holds pf' (advance off p) (bytes.drop (p.packetSize + packetHeadSize)) := by
  unfold parseRound at hround
  unfold lengthField
  dsimp only
  rw [h.count] at hround ⊢
  split at hround
  -- not even a head is held
  case isTrue hshort =>
    obtain rfl := Option.some.inj hround
    exact ⟨rfl, .inl ⟨if_pos hshort, hshort⟩⟩
  case isFalse hlong =>
    rw [if_neg hlong, h.peek (Nat.not_lt.mp hlong), Option.bind_some]
    rw [h.peek (Nat.not_lt.mp hlong), Option.bind_some] at hround
    obtain ⟨commandBytes, -, hround⟩ := Option.bind_eq_some_iff.mp hround
    obtain ⟨sizeBytes, hsize, hround⟩ := Option.bind_eq_some_iff.mp hround
    rw [hsize, Option.map_some]
    -- the length is converted twice, and keeps its value only when it is valid
    have hbits : leNat sizeBytes < 4294967296 := by
      have hlt := leNat_lt sizeBytes
      rw [length_flat hsize] at hlt
      exact hlt
    dsimp only at hround
    split at hround
    -- a negative length is a large one after the conversion
    case isTrue hbig =>
      obtain rfl := Option.some.inj hround
      exact ⟨rfl, _, rfl, (intToSizeT_ge hbits).mp hbig⟩
    case isFalse hsmall =>
      have hvalid : Valid (toInt32 (leNat sizeBytes)) := by
        by_contra hnot
        exact hsmall ((intToSizeT_ge hbits).mpr hnot)
      have hsame := intToSizeT_of_valid hbits hvalid
      split at hround
      case isTrue hall =>
        obtain ⟨body, hbody, rfl⟩ := Option.map_eq_some_iff.mp hround
        exact ⟨congrArg some hsame, Nat.not_le.mp hsmall, length_flat hbody, hall,
          h.count ▸ h.remove hall⟩
      case isFalse hpart =>
        obtain rfl := Option.some.inj hround
        refine ⟨rfl, .inr ⟨_, rfl, hvalid, ?_⟩⟩
        rw [hsame, Int.toNat_natCast]
        exact Nat.not_le.mp hpart

end CpacketFormat

end PssClient
