import PssClient.Wire.Reads

/-!
# The heads of a stream

The command ids that the decoder hands out stand in the heads of the packets. A body that runs over
the end of the ring's array is read from behind the array, but neither the ids nor the lengths
depend on it, and the packets are cut off at the same places.

* `feedBytes` — the packets that a stream, as it was received piece by piece, holds.
* `HeadFits` / `LoopHeadsFit` / `FeedHeadsFit` — no head that a round looks at runs over the end of
  the array; a body may. This is less than `FeedFits`.
* `parseLoop_of_headsFit` — one call: the ids are those of the flat decoder, whatever lies behind
  the array, and the ring holds afterwards what the flat decoder keeps.
* `feed_of_headsFit` — the same for all the calls.
-/

namespace PssClient

open Circular

namespace CpacketFormat

/-- What the decoder cuts off when it holds `held` and the pieces come in: a piece for which there
is no room is dropped, and a length field out of range throws away what is held. -/
def feedBytes : List UInt8 → List (List UInt8) → List CrecvPacket
  | _, [] => []
  | held, chunk :: chunks =>
    if held.length + chunk.length ≥ maxBufferSize then feedBytes held chunks
    else
      (parseBytes (held ++ chunk)).1 ++ feedBytes ((parseBytes (held ++ chunk)).2.getD []) chunks

/-- The bytes of the head that a round looks at lie inside the array. -/
def HeadFits (off : Nat) (bytes : List UInt8) : Prop :=
  packetHeadSize ≤ bytes.length → off + 8 ≤ maxBufferSize

-- `hround` is used by `decreasing_by` only.
set_option linter.unusedVariables false in
/-- So do those of every round of the loop. -/
def LoopHeadsFit (off : Nat) (bytes : List UInt8) : Prop :=
  HeadFits off bytes ∧
    match hround : bytesRound bytes with
    | .packet p rest => LoopHeadsFit (advance off p) rest
    | _ => True
termination_by bytes.length
decreasing_by exact bytesRound_packet_lt hround

/-- In no call a head that is looked at runs over the end of the array. The front moves as it does
in `FeedFits`, and a piece for which there is no room is dropped. -/
def FeedHeadsFit (off : Nat) (held : List UInt8) : List (List UInt8) → Prop
  | [] => True
  | chunk :: chunks =>
    if held.length + chunk.length ≥ maxBufferSize then FeedHeadsFit off held chunks
    else
      LoopHeadsFit off (held ++ chunk) ∧
        FeedHeadsFit (after off (held ++ chunk)).1 (after off (held ++ chunk)).2 chunks

theorem loopHeadsFit_packet {off : Nat} {bytes rest : List UInt8} {p : CrecvPacket}
    (h : bytesRound bytes = .packet p rest) :
    LoopHeadsFit off bytes ↔ HeadFits off bytes ∧ LoopHeadsFit (advance off p) rest := by
  rw [LoopHeadsFit]
  apply and_congr_right
  intro _
  split <;> simp_all

theorem loopHeadsFit_leave {off : Nat} {bytes : List UInt8}
    (h : ∀ p rest, bytesRound bytes ≠ .packet p rest) :
    LoopHeadsFit off bytes ↔ HeadFits off bytes := by
  rw [LoopHeadsFit]
  refine ⟨fun hl => hl.1, fun hr => ⟨hr, ?_⟩⟩
  split <;> simp_all

theorem RoundFits.headFits {off : Nat} {bytes : List UInt8} (h : RoundFits off bytes) :
    HeadFits off bytes := fun hlen => (h hlen).1

/-- Where all the reads of a loop stay inside the array, the heads do. Induction on the bytes. -/
theorem LoopFits.loopHeadsFit {off : Nat} {bytes : List UInt8} (h : LoopFits off bytes) :
    LoopHeadsFit off bytes := by
  induction hn : bytes.length using Nat.strong_induction_on generalizing off bytes with
  | _ n ih =>
    by_cases hpacket : ∃ p rest, bytesRound bytes = .packet p rest
    · obtain ⟨p, rest, hb⟩ := hpacket
      obtain ⟨hround, hrest⟩ := (loopFits_packet hb).mp h
      have hlt := hn ▸ bytesRound_packet_lt hb
      exact (loopHeadsFit_packet hb).mpr ⟨hround.headFits, ih rest.length hlt hrest rfl⟩
    · push Not at hpacket
      exact (loopHeadsFit_leave hpacket).mpr ((loopFits_leave hpacket).mp h).headFits

/-! ## One call -/

/-- What the ring decoder's round has to come to when the flat one's comes to `r`, up to the body of
the packet. -/
def HeadAgrees (off : Nat) (bytes : List UInt8) : Round (List UInt8) → Round CpacketFormat → Prop
  | .wait rest, .wait pf => Holds pf off rest
  | .clear rest, .clear pf => Holds pf ((off + bytes.length) % maxBufferSize) rest
  | .packet p rest, .packet p' pf => p'.commandId = p.commandId ∧ Holds pf (advance off p) rest
  | _, _ => False

/-- A round whose head lies inside the array takes the id and the length from the bytes held. -/
theorem parseRound_of_headFits {past : Nat → Option UInt8} {pf : CpacketFormat} {off : Nat}
    {bytes : List UInt8} {r : Round CpacketFormat} (h : Holds pf off bytes)
    (hfit : HeadFits off bytes) (hr : parseRound past pf = some r) :
    HeadAgrees off bytes (bytesRound bytes) r := by
  unfold parseRound at hr
  rw [h.count] at hr
  unfold bytesRound
  by_cases hhead : packetHeadSize > bytes.length
  · rw [if_pos hhead] at hr ⊢
    obtain rfl := Option.some.inj hr
    exact h
  · have hlen : packetHeadSize ≤ bytes.length := Nat.not_lt.mp hhead
    have hoff := hfit hlen
    have hcmd := h.flat past (k := 2) (m := 2) (by unfold packetHeadSize at hlen; omega) (by omega)
    have hsize := h.flat past (k := 4) (m := 4) (by unfold packetHeadSize at hlen; omega) (by omega)
    rw [if_neg hhead, h.peek hlen] at hr
    simp only [Option.bind_some, hcmd, hsize] at hr
    rw [if_neg hhead]
    change (if maxPacketBufferSize ≤ headSize bytes then _ else _) = some r at hr
    by_cases hbig : maxPacketBufferSize ≤ headSize bytes
    · rw [if_pos hbig] at hr ⊢
      obtain rfl := Option.some.inj hr
      refine ⟨Ringbuffer.toList_consumerClear _, ?_, rfl⟩
      show pf.recvBuffer.consumerClear.offset = _
      rw [Ringbuffer.offset_consumerClear, h.front, h.available]
    · rw [if_neg hbig] at hr ⊢
      change (if headSize bytes + packetHeadSize ≤ bytes.length then _ else _) = some r at hr
      by_cases hall : headSize bytes + packetHeadSize ≤ bytes.length
      · -- the body may come from anywhere
        rw [if_pos hall] at hr ⊢
        obtain ⟨body, -, rfl⟩ := Option.map_eq_some_iff.mp hr
        exact ⟨rfl, h.count ▸ h.remove hall⟩
      · rw [if_neg hall] at hr ⊢
        obtain rfl := Option.some.inj hr
        exact h

/-- The ids of the packets. -/
def commandIds (packets : List CrecvPacket) : List Int16 := packets.map CrecvPacket.commandId

/-- **The ids of a call are those of the flat decoder**, and so are the bytes that are kept.
Induction on the bytes held. -/
theorem parseLoop_of_headsFit {past : Nat → Option UInt8} {pf pf' : CpacketFormat} {off : Nat}
    {bytes : List UInt8} {ps : List CrecvPacket} (h : Holds pf off bytes)
    (hfit : LoopHeadsFit off bytes) (hloop : parseLoop past pf = some (ps, pf')) :
    commandIds ps = commandIds (parseBytes bytes).1 ∧
      Holds pf' (after off bytes).1 (after off bytes).2 := by
  induction hn : bytes.length using Nat.strong_induction_on generalizing pf off bytes ps with
  | _ n ih =>
    have hhead : HeadFits off bytes := (LoopHeadsFit.eq_def off bytes ▸ hfit).1
    cases hround : parseRound past pf with
    | none =>
      rw [parseLoop_undefined_round hround] at hloop
      cases hloop
    | some r =>
      have hagrees := parseRound_of_headFits h hhead hround
      cases hb : bytesRound bytes with
      | wait rest =>
        obtain rfl := bytesRound_wait hb
        rw [hb] at hagrees
        rw [parseBytes_wait hb, after_wait hb]
        cases r with
        | wait pf₁ =>
          rw [parseLoop_wait hround] at hloop
          obtain ⟨rfl, rfl⟩ := Prod.mk.inj (Option.some.inj hloop)
          exact ⟨rfl, hagrees⟩
        | clear pf₁ => exact hagrees.elim
        | packet p pf₁ => exact hagrees.elim
      | clear rest =>
        obtain rfl := bytesRound_clear hb
        rw [hb] at hagrees
        rw [parseBytes_clear hb, after_clear hb]
        cases r with
        | wait pf₁ => exact hagrees.elim
        | clear pf₁ =>
          rw [parseLoop_clear hround] at hloop
          obtain ⟨rfl, rfl⟩ := Prod.mk.inj (Option.some.inj hloop)
          exact ⟨rfl, hagrees⟩
        | packet p pf₁ => exact hagrees.elim
      | packet p rest =>
        rw [hb] at hagrees
        rw [parseBytes_packet hb, after_packet hb]
        cases r with
        | wait pf₁ => exact hagrees.elim
        | clear pf₁ => exact hagrees.elim
        | packet p' pf₁ =>
          obtain ⟨hid, hpf₁⟩ := hagrees
          have hrest := ((loopHeadsFit_packet hb).mp hfit).2
          rw [parseLoop_packet hround] at hloop
          split at hloop
          case isTrue hzero =>
            -- nothing is left, and the flat decoder has nothing more to cut off
            obtain ⟨rfl, rfl⟩ := Prod.mk.inj (Option.some.inj hloop)
            obtain rfl : rest = [] := List.eq_nil_of_length_eq_zero (hpf₁.count ▸ hzero)
            rw [after, parseBytes_nil]
            exact ⟨by simp [commandIds, hid], hpf₁⟩
          case isFalse =>
            obtain ⟨⟨ps₂, pf₂⟩, hloop₂, heq⟩ := Option.map_eq_some_iff.mp hloop
            obtain ⟨rfl, rfl⟩ := Prod.mk.inj heq
            obtain ⟨hids, hleft⟩ :=
              ih rest.length (hn ▸ bytesRound_packet_lt hb) hpf₁ hrest hloop₂ rfl
            refine ⟨?_, hleft⟩
            show p'.commandId :: commandIds ps₂ = p.commandId :: commandIds (parseBytes rest).1
            rw [hid, hids]

/-! ## The calls -/

/-- What `after` keeps is what the flat decoder keeps. -/
theorem after_snd (off : Nat) (bytes : List UInt8) :
    (after off bytes).2 = (parseBytes bytes).2.getD [] := by
  unfold after
  cases (parseBytes bytes).2 <;> rfl

/-- **The ids of a stream.** Whatever lies behind the array, the decoder hands out the ids that the
heads of the stream carry, as long as no head lies across the end; a body that does changes only
itself. Induction on the pieces. -/
theorem feed_of_headsFit {past : Nat → Option UInt8} {chunks : List (List UInt8)}
    {pf pf' : CpacketFormat} {off : Nat} {held : List UInt8} {ps : List CrecvPacket}
    (h : Holds pf off held) (hfit : FeedHeadsFit off held chunks)
    (hfeed : feed past pf chunks = some (ps, pf')) :
    commandIds ps = commandIds (feedBytes held chunks) := by
  induction chunks generalizing pf off held ps with
  | nil =>
    obtain ⟨rfl, -⟩ := Prod.mk.inj (Option.some.inj hfeed)
    rfl
  | cons chunk chunks ih =>
    obtain ⟨⟨ps₁, pf₁⟩, hcall, hfeed⟩ := Option.bind_eq_some_iff.mp hfeed
    obtain ⟨⟨ps₂, pf₂⟩, hlater, heq⟩ := Option.map_eq_some_iff.mp hfeed
    obtain ⟨rfl, rfl⟩ := Prod.mk.inj heq
    rw [FeedHeadsFit] at hfit
    rw [feedBytes]
    -- a piece for which there is no room is refused, on both sides
    by_cases hfull : held.length + chunk.length ≥ maxBufferSize
    · rw [if_pos hfull] at hfit ⊢
      rw [formatRecvBuffer, if_pos (by rw [h.count]; exact hfull)] at hcall
      obtain ⟨rfl, rfl⟩ := Prod.mk.inj (Option.some.inj hcall)
      exact ih h hfit hlater
    · rw [if_neg hfull] at hfit ⊢
      obtain ⟨pf₃, hpf₃, hloop⟩ := formatRecvBuffer_eq h (Nat.lt_of_not_ge hfull) past
      obtain ⟨hids, hleft⟩ := parseLoop_of_headsFit hpf₃ hfit.1 (hloop ▸ hcall)
      have hrest := ih hleft hfit.2 hlater
      rw [after_snd] at hrest
      show commandIds (ps₁ ++ ps₂) = _
      rw [commandIds, List.map_append]
      exact (congrArg₂ (· ++ ·) hids hrest).trans List.map_append.symm

end CpacketFormat

end PssClient
