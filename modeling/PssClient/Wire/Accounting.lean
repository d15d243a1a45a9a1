import Mathlib.Algebra.BigOperators.Group.List.Basic
import PssClient.Wire.Rounds

/-!
# The decoder's accounts

How much is buffered is written down twice: the ring knows it from its indices, and
`curr_buffer_size_` counts it. Whatever the pieces contain, and whatever is read behind the array,
the two agree and no byte is lost or invented.

* `Accounts` — what is claimed of one call.
* `accounts_parseRounds` — the loop, by induction on the bytes held.
* `Sound` — the invariant between calls; `accounts_of_sound` — a call in such a state.
* `accounted` — the result, for every sequence of calls.
-/

namespace PssClient

open Machine Circular

namespace CpacketFormat

/-- All the length fields that the rounds have read. -/
def Outcome.lengths (o : Outcome) : List Int := o.rounds.filterMap lengthField

/-- The accounts of a loop on `total` bytes. -/
structure Accounts (total : Nat) (o : Outcome) : Prop where
  count : o.state.currBufferSize = o.state.recvBuffer.readAvailable
  residual : o.state.currBufferSize ≤ 2086
  rounds : o.rounds.length ≤ total / 40 + 1
  packets : ∀ p ∈ o.packets, p.packetSize = p.packetBody.length ∧ p.packetSize < 2048
  -- no byte is lost or invented as long as the length fields are valid
  bytes : (∀ length ∈ o.lengths, Valid length) →
    total = (o.packets.map fun p => 40 + p.packetSize).sum + o.state.currBufferSize
  cleared : (∃ length ∈ o.lengths, ¬ Valid length) →
    o.state.currBufferSize = 0 ∧ o.state.recvBuffer.readAvailable = 0

/-- A loop that goes on after a packet. -/
theorem Accounts.packet {rest : Nat} {o : Outcome} (h : Accounts rest o) {p : CrecvPacket}
    (hsmall : p.packetSize < 2048) (hbody : p.packetBody.length = p.packetSize) {r : Begun}
    (hfield : lengthField r = some (p.packetSize : Int)) :
    Accounts (p.packetSize + 40 + rest) ⟨p :: o.packets, o.state, r :: o.rounds⟩ := by
  have hlengths : Outcome.lengths ⟨p :: o.packets, o.state, r :: o.rounds⟩
      = (p.packetSize : Int) :: o.lengths := List.filterMap_cons_some hfield
  have hvalid : Valid (p.packetSize : Int) := by
    unfold Valid
    omega
  refine ⟨h.count, h.residual, ?_, ?_, fun hall => ?_, ?_⟩
  · have hrounds := h.rounds
    show o.rounds.length + 1 ≤ _
    omega
  · intro q hq
    rcases List.mem_cons.mp hq with rfl | hin
    · exact ⟨hbody.symm, hsmall⟩
    · exact h.packets q hin
  · rw [hlengths] at hall
    have hbytes := h.bytes fun length hin => hall length (List.mem_cons_of_mem _ hin)
    show _ = ((p :: o.packets).map fun p => 40 + p.packetSize).sum + o.state.currBufferSize
    rw [List.map_cons, List.sum_cons]
    omega
  · rw [hlengths]
    rintro ⟨length, hin, hnot⟩
    rcases List.mem_cons.mp hin with rfl | hin
    · exact absurd hvalid hnot
    · exact h.cleared ⟨length, hin, hnot⟩

/-- **The loop has an outcome, and its accounts are right.** Strong induction on the number of bytes
held, one round at a time: a round that waits leaves what it has read, one that clears leaves
nothing, and one that hands over a packet leaves fewer bytes to the rounds behind it. -/
theorem accounts_parseRounds {memory : Memory} (hmemory : ∀ k i, (memory k i).isSome = true)
    {pf : CpacketFormat} {off : Nat} {bytes : List UInt8} (h : Holds pf off bytes) :
    ∃ o, parseRounds memory pf = some o ∧ Accounts bytes.length o ∧
      ∃ off' rest, Holds o.state off' rest := by
  induction hn : bytes.length using Nat.strong_induction_on generalizing memory pf off bytes with
  | _ n ih =>
    obtain ⟨r, hround⟩ := round_of_memory (hmemory 0) h
    have hspec := round_spec h hround
    cases r with
    -- the loop ends, and what it holds is less than a packet of the largest size
    | wait pf' =>
      obtain ⟨rfl, hshort⟩ := hspec
      refine ⟨_, parseRounds_wait memory hround, ?_, off, bytes, h⟩
      have hbound : bytes.length ≤ 2086 := by
        unfold packetHeadSize Valid at hshort
        rcases hshort with ⟨-, hlt⟩ | ⟨length, -, hvalid, hlt⟩ <;> omega
      -- the length that it has read, if it has read one, is a valid one
      have hlengths : ∀ length, length ∈ Outcome.lengths ⟨[], pf', [⟨memory 0, pf'⟩]⟩ →
          Valid length := by
        intro length hin
        obtain ⟨r, hr, hfield⟩ := List.mem_filterMap.mp hin
        obtain rfl := List.mem_singleton.mp hr
        rcases hshort with ⟨hnone, -⟩ | ⟨length', hfield', hvalid, -⟩
        · rw [hnone] at hfield
          cases hfield
        · rw [hfield'] at hfield
          exact Option.some.inj hfield ▸ hvalid
      refine ⟨h.count.trans h.available.symm, h.count ▸ hbound, Nat.le_add_left .., nofun,
        fun _ => ?_, fun ⟨length, hin, hnot⟩ => absurd (hlengths length hin) hnot⟩
      rw [← hn]
      simpa using h.count.symm
    -- the loop ends with an empty ring, because of a length that is not valid
    | clear pf' =>
      obtain ⟨rfl, length, hfield, hnot⟩ := hspec
      have hempty : Holds { pf with
          currBufferSize := 0
          recvBuffer := pf.recvBuffer.consumerClear } pf.recvBuffer.consumerClear.offset [] :=
        ⟨Ringbuffer.toList_consumerClear _, rfl, rfl⟩
      refine ⟨_, parseRounds_clear memory hround, ?_, _, [], hempty⟩
      refine ⟨hempty.available.symm, Nat.zero_le _, Nat.le_add_left .., nofun, fun hall => ?_,
        fun _ => ⟨rfl, hempty.available⟩⟩
      exact absurd (hall length (List.mem_filterMap.mpr ⟨_, List.mem_singleton.mpr rfl, hfield⟩))
        hnot
    -- the packet and what is left of the bytes make up what there was
    | packet p pf' =>
      obtain ⟨hfield, hsmall, hbody, hall, hpf'⟩ := hspec
      have hlength : p.packetSize + 40 + (bytes.drop (p.packetSize + packetHeadSize)).length
          = n := by
        rw [List.length_drop, ← hn]
        exact Nat.add_sub_of_le hall
      rw [parseRounds_packet memory hround]
      by_cases hzero : pf'.currBufferSize = 0
      · rw [if_pos hzero]
        refine ⟨_, rfl, ?_, _, _, hpf'⟩
        have hnil : bytes.drop (p.packetSize + packetHeadSize) = [] :=
          List.eq_nil_of_length_eq_zero (hpf'.count ▸ hzero)
        have hlast : Accounts 0 ⟨[], pf', []⟩ :=
          ⟨hpf'.count.trans hpf'.available.symm, by rw [hzero]; decide, Nat.zero_le _, nofun,
            fun _ => by simp [hzero], nofun⟩
        rw [hnil] at hlength
        exact hlength ▸ hlast.packet hsmall hbody hfield
      · rw [if_neg hzero]
        obtain ⟨o, ho, haccounts, off', rest, hholds⟩ :=
          ih _ (by omega) (fun k i => hmemory (k + 1) i) hpf' rfl
        rw [ho]
        exact ⟨_, rfl, hlength ▸ haccounts.packet hsmall hbody hfield, off', rest, hholds⟩

/-! ## From call to call -/

/-- The state between calls. -/
def Sound (pf : CpacketFormat) : Prop :=
  ∃ off bytes, Holds pf off bytes ∧ bytes.length ≤ 2086

theorem sound_new (junk : Vector UInt8 maxBufferSize) : Sound (new junk) :=
  ⟨0, [], holds_new junk, by decide⟩

theorem Sound.count {pf : CpacketFormat} (h : Sound pf) :
    pf.currBufferSize = pf.recvBuffer.readAvailable ∧ pf.currBufferSize ≤ 2086 := by
  obtain ⟨off, bytes, hholds, hle⟩ := h
  exact ⟨hholds.count.trans hholds.available.symm, hholds.count ▸ hle⟩

/-- **A piece is taken in whole.** Between calls less than a packet is held, and one read delivers
no more than the receive buffer has, so that the ring has room for the piece; the accounts of the
call are those of its loop. -/
theorem accounts_of_sound (memory : Memory) (hmemory : ∀ k i, (memory k i).isSome = true)
    {pf : CpacketFormat} (h : Sound pf) {chunk : List UInt8}
    (hchunk : chunk.length ≤ recvBufferMaxSize) :
    pf.currBufferSize + chunk.length < maxBufferSize ∧
      (pf.recvBuffer.writeBuff chunk).1 = chunk.length ∧
      ∃ o, receive memory chunk pf = some o ∧ Accounts (pf.currBufferSize + chunk.length) o ∧
        Sound o.state := by
  obtain ⟨off, bytes, hholds, hle⟩ := h
  have hroom : pf.currBufferSize + chunk.length < maxBufferSize := by
    rw [hholds.count]
    unfold recvBufferMaxSize at hchunk
    unfold maxBufferSize
    omega
  -- `writeBuff` copies as much as there is room for
  have hwhole : (pf.recvBuffer.writeBuff chunk).1 = chunk.length := by
    show pf.recvBuffer.toWrite chunk.length = _
    have havailable := hholds.available
    unfold Ringbuffer.readAvailable at havailable
    rw [Ringbuffer.toWrite, havailable]
    rw [hholds.count] at hroom
    exact if_neg (by omega)
  refine ⟨hroom, hwhole, ?_⟩
  have hin : Holds (takeIn chunk pf) off (bytes ++ chunk) :=
    hholds.write (hholds.count ▸ hroom.le)
  obtain ⟨o, ho, haccounts, off', rest, hrest⟩ := accounts_parseRounds hmemory hin
  rw [List.length_append, ← hholds.count] at haccounts
  refine ⟨o, ?_, haccounts, off', rest, hrest, hrest.count ▸ haccounts.residual⟩
  rw [receive, if_neg (Nat.not_le.mpr hroom), ho]

/-- A received piece, and what the rounds find behind the array. -/
structure Receive where
  memory : Nat → Nat → UInt8
  chunk : List UInt8

/-- The formatter after the call. -/
def receiveStep (pf : CpacketFormat) (call : Receive) : Option CpacketFormat :=
  (receive (fun k i => some (call.memory k i)) call.chunk pf).map Outcome.state

/-- **The accounts are right in every call.** A fresh decoder has been given any pieces that one
read delivers, and is given another one. -/
theorem accounted (junk : Vector UInt8 maxBufferSize) (calls : List Receive)
    (hchunks : ∀ call ∈ calls, call.chunk.length ≤ recvBufferMaxSize) (next : Receive)
    (hnext : next.chunk.length ≤ recvBufferMaxSize) :
    ∃ pf, run receiveStep (new junk) calls = some pf ∧
      pf.currBufferSize = pf.recvBuffer.readAvailable ∧ pf.currBufferSize ≤ 2086 ∧
      pf.currBufferSize + next.chunk.length < maxBufferSize ∧
      (pf.recvBuffer.writeBuff next.chunk).1 = next.chunk.length ∧
      ∃ o, receive (fun k i => some (next.memory k i)) next.chunk pf = some o ∧
        Accounts (pf.currBufferSize + next.chunk.length) o := by
  -- the calls so far, by induction: each leaves the decoder as a call expects it
  have hreach : ∃ pf, run receiveStep (new junk) calls = some pf ∧ Sound pf := by
    suffices h : ∀ pf, Sound pf → ∃ pf', run receiveStep pf calls = some pf' ∧ Sound pf' from
      h _ (sound_new junk)
    induction calls with
    | nil => exact fun pf h => ⟨pf, rfl, h⟩
    | cons call calls ih =>
      intro pf h
      obtain ⟨-, -, o, ho, -, hsound⟩ := accounts_of_sound
        (fun k i => some (call.memory k i)) (fun _ _ => rfl) h
        (hchunks call List.mem_cons_self)
      obtain ⟨pf', hrun, hsound'⟩ :=
        ih (fun c hc => hchunks c (List.mem_cons_of_mem _ hc)) o.state hsound
      exact ⟨pf', run_cons.mpr ⟨o.state, by rw [receiveStep, ho]; rfl, hrun⟩, hsound'⟩
  obtain ⟨pf, hrun, hsound⟩ := hreach
  obtain ⟨hroom, hwhole, o, ho, haccounts, -⟩ := accounts_of_sound
    (fun k i => some (next.memory k i)) (fun _ _ => rfl) hsound hnext
  exact ⟨pf, hrun, hsound.count.1, hsound.count.2, hroom, hwhole, o, ho, haccounts⟩

/-- Half a head, and then the other half with the beginning of a second packet. -/
theorem accounted_split :
    ∃ pf, run receiveStep (new (Vector.replicate maxBufferSize 0))
        [⟨fun _ _ => 0, List.replicate 20 0⟩] = some pf ∧
      pf.currBufferSize = pf.recvBuffer.readAvailable ∧ pf.currBufferSize ≤ 2086 ∧
      pf.currBufferSize + 21 < maxBufferSize ∧
      (pf.recvBuffer.writeBuff (List.replicate 21 0)).1 = 21 ∧
      ∃ o, receive (fun _ _ => some 255) (List.replicate 21 0) pf = some o ∧
        Accounts (pf.currBufferSize + 21) o :=
  accounted _ _ (by decide) ⟨fun _ _ => 255, List.replicate 21 0⟩ (by decide)

end CpacketFormat

end PssClient
