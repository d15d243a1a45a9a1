import PssClient.Wire.Accounting

/-!
# What the decoder reads

The decoder reads through the pointer that `peek()` returns, as if the buffered bytes lay in one
piece behind it. In the ring they go on at the beginning of the array where the array ends.

* `Buffered` — what is claimed of a round: it reads inside the array, and what `at` would return.
* `after` / `FeedFits` — the condition on the received pieces: no head and no body that a round
  looks at runs over the end of the array. The place of the front is counted along.
* `buffered_of_fits` / `not_buffered` — a round that fits, and one that does not.
* `buffered_iff_feedFits` — the result. `head_over_end` has a stream with a head over the end.
-/

namespace PssClient

open Machine Circular

namespace Ringbuffer

variable {T : Type*} {n : Nat} [BufferSize n]

/-- Clearing puts the front behind what was buffered. -/
theorem offset_consumerClear (rb : Ringbuffer T n) :
    rb.consumerClear.offset = (rb.offset + rb.readAvailable) % n := by
  show rb.head % n = (rb.tail % n + indexDiff rb.head rb.tail) % n
  rw [Nat.mod_add_mod]
  conv_lhs => rw [← add_indexDiff rb.head_lt rb.tail_lt, mod_sizeMod_mod]

/-- Before the end of the array, `at` returns what lies behind the pointer. -/
theorem at?_of_lt (rb : Ringbuffer T n) {i : Nat} (hi : i < rb.readAvailable)
    (hin : rb.offset + i < n) : rb.at? i = some rb.dataBuff[rb.offset + i] := by
  have hslot : slot n ((rb.tail + i) % sizeMod &&& (n - 1)) = ⟨rb.offset + i, hin⟩ := by
    ext
    rw [val_slot, and_mask_eq_mod, Nat.mod_mod, mod_sizeMod_mod]
    show _ = rb.offset + i
    rw [← Nat.mod_eq_of_lt hin, offset, Nat.mod_add_mod]
  rw [at?, if_neg (Nat.not_le.mpr hi), hslot]
  rfl

end Ringbuffer

namespace CpacketFormat

/-- Every place that the round reads is inside the array, and what it finds there is what `at`
returns. -/
def Buffered (r : Begun) : Prop :=
  ∀ i ∈ roundReads r, ∃ head, r.state.recvBuffer.peek = some head ∧
    ∃ h : head + i < maxBufferSize,
      r.state.recvBuffer.at? i = some r.state.recvBuffer.dataBuff[head + i]

/-- All the rounds of a sequence of calls. -/
def allRounds (pf : CpacketFormat) : List Receive → List Begun
  | [] => []
  | call :: calls =>
    match receive (fun k i => some (call.memory k i)) call.chunk pf with
    | none => []
    | some o => o.rounds ++ allRounds o.state calls

/-- The place of the front after a call, and what is held then. -/
def after (off : Nat) (bytes : List UInt8) : Nat × List UInt8 :=
  match (parseBytes bytes).2 with
  | some kept => (advanceAll off (parseBytes bytes).1, kept)
  | none => ((off + bytes.length) % maxBufferSize, [])

/-- In no call a head or a body that is looked at runs over the end of the array. -/
def FeedFits (off : Nat) (held : List UInt8) : List (List UInt8) → Prop
  | [] => True
  | chunk :: chunks =>
    LoopFits off (held ++ chunk) ∧
      FeedFits (after off (held ++ chunk)).1 (after off (held ++ chunk)).2 chunks

/-! ## One round -/

/-- The length field, as long as it lies inside the array. -/
theorem lengthField_of_fits (past : Nat → Option UInt8) {pf : CpacketFormat} {off : Nat}
    {bytes : List UInt8} (h : Holds pf off bytes) (hlen : packetHeadSize ≤ bytes.length)
    (hoff : off + 8 ≤ maxBufferSize) :
    ∃ length, lengthField ⟨past, pf⟩ = some length ∧
      (Valid length ↔ headSize bytes < maxPacketBufferSize) ∧
        (Valid length → length.toNat = headSize bytes) := by
  have hread := h.flat past (k := 4) (m := 4) (by unfold packetHeadSize at hlen; omega) (by omega)
  have hbits : leNat ((bytes.drop 4).take 4) < 4294967296 := by
    have hlt := leNat_lt ((bytes.drop 4).take 4)
    rw [length_flat hread] at hlt
    exact hlt
  refine ⟨toInt32 (leNat ((bytes.drop 4).take 4)), ?_, ?_, fun hvalid => ?_⟩
  · unfold lengthField
    dsimp only
    rw [h.count, if_neg (Nat.not_lt.mpr hlen), h.peek hlen, Option.bind_some, hread]
    rfl
  · rw [← Nat.not_le, headSize, intToSizeT_ge hbits, Decidable.not_not]
  · rw [intToSizeT_of_valid hbits hvalid, Int.toNat_natCast, headSize]

/-- Where head and body lie inside the array, the reads of the round are of the bytes that are
buffered, from the tail on and in their order. -/
theorem buffered_of_fits (past : Nat → Option UInt8) {pf : CpacketFormat} {off : Nat}
    {bytes : List UInt8} (h : Holds pf off bytes) (hfit : RoundFits off bytes) :
    Buffered ⟨past, pf⟩ := by
  intro i hi
  by_cases hlen : packetHeadSize ≤ bytes.length
  case neg =>
    have hnone : lengthField ⟨past, pf⟩ = none := by
      unfold lengthField
      exact if_pos (h.count ▸ Nat.not_le.mp hlen)
    rw [roundReads, hnone] at hi
    cases hi
  obtain ⟨hoff, hbody⟩ := hfit hlen
  obtain ⟨length, hfield, hvalid, hsame⟩ := lengthField_of_fits past h hlen hoff
  -- every place is among what is held, and before the end of the array
  have hplace : i < bytes.length ∧ off + i < maxBufferSize := by
    rw [roundReads, hfield] at hi
    unfold packetHeadSize at hlen hi hbody
    rcases List.mem_append.mp hi with hhead | hrest
    · rw [List.mem_range'_1] at hhead
      omega
    · split at hrest
      case isTrue hall =>
        rw [List.mem_range'_1, hsame hall.1] at hrest
        rw [hsame hall.1, h.count] at hall
        have hend := hbody (hvalid.mp hall.1) hall.2 (by omega)
        omega
      case isFalse => cases hrest
  have hin : pf.recvBuffer.offset + i < maxBufferSize := h.front ▸ hplace.2
  refine ⟨pf.recvBuffer.offset, h.front ▸ h.peek hlen, hin, ?_⟩
  exact Ringbuffer.at?_of_lt _ (h.available ▸ hplace.1) hin

/-- **A round that does not fit reads behind the array.** When the head runs over the end, the last
byte of the length field is behind it; when only the body does, the last byte of the body is. -/
theorem not_buffered {past : Nat → Option UInt8} (hpast : ∀ i, (past i).isSome = true)
    {pf : CpacketFormat} {off : Nat} {bytes : List UInt8} (h : Holds pf off bytes)
    (hfit : ¬ RoundFits off bytes) : ¬ Buffered ⟨past, pf⟩ := by
  intro hbuffered
  unfold RoundFits at hfit
  push Not at hfit
  obtain ⟨hlen, hout⟩ := hfit
  -- what is buffered is inside the array, so no offset may lie at its end or behind it
  have hinside : ∀ i ∈ roundReads ⟨past, pf⟩, off + i < maxBufferSize := by
    intro i hi
    obtain ⟨head, hpeek, hin, -⟩ := hbuffered i hi
    rw [show (Begun.mk past pf).state = pf from rfl, h.peek hlen] at hpeek
    exact Option.some.inj hpeek ▸ hin
  have hhead : ∀ length, lengthField ⟨past, pf⟩ = some length → 7 ∈ roundReads ⟨past, pf⟩ := by
    intro length hfield
    rw [roundReads, hfield]
    exact List.mem_append_left _ (by decide)
  -- the head fits and the body does not, or the head does not
  by_cases hoff : off + 8 ≤ maxBufferSize
  · obtain ⟨hsmall, hall, hpos, hend⟩ := hout hoff
    obtain ⟨length, hfield, hvalid, hsame⟩ := lengthField_of_fits past h hlen hoff
    have hlast : packetHeadSize + (headSize bytes - 1) ∈ roundReads ⟨past, pf⟩ := by
      rw [roundReads, hfield]
      apply List.mem_append_right _
      rw [if_pos ⟨hvalid.mpr hsmall, by rw [hsame (hvalid.mpr hsmall), h.count]; exact hall⟩,
        hsame (hvalid.mpr hsmall), List.mem_range'_1]
      omega
    have hlt := hinside _ hlast
    omega
  · obtain ⟨sizeBytes, hsize⟩ := flat_of_memory hpast pf.recvBuffer.dataBuff (off + 4) 4
    have hfield : lengthField ⟨past, pf⟩ = some (toInt32 (leNat sizeBytes)) := by
      unfold lengthField
      dsimp only
      rw [h.count, if_neg (Nat.not_lt.mpr hlen), h.peek hlen, Option.bind_some, hsize]
      rfl
    have hlt := hinside 7 (hhead _ hfield)
    omega

/-! ## The loop -/

theorem after_wait {off : Nat} {bytes : List UInt8} (h : bytesRound bytes = .wait bytes) :
    after off bytes = (off, bytes) := by
  rw [after, parseBytes_wait h]
  rfl

theorem after_clear {off : Nat} {bytes rest : List UInt8} (h : bytesRound bytes = .clear rest) :
    after off bytes = ((off + bytes.length) % maxBufferSize, []) := by
  rw [after, parseBytes_clear h]

/-- A packet that is cut off moves the front as its bytes do. -/
theorem after_packet {off : Nat} {bytes rest : List UInt8} {p : CrecvPacket}
    (h : bytesRound bytes = .packet p rest) :
    after off bytes = after (advance off p) rest := by
  obtain ⟨rfl, rfl, -, hall⟩ := bytesRound_packet h
  rw [after, after, parseBytes_packet h]
  dsimp only
  cases (parseBytes (bytes.drop (headSize bytes + packetHeadSize))).2 with
  | some kept => rfl
  | none =>
    apply congrArg (·, [])
    show _ = ((off + (headSize bytes + packetHeadSize)) % maxBufferSize + _) % maxBufferSize
    rw [Nat.mod_add_mod, List.length_drop]
    congr 1
    omega

/-- The first round is among those of the loop. -/
theorem mem_rounds {memory : Memory} {pf : CpacketFormat} {o : Outcome}
    (h : parseRounds memory pf = some o) : ⟨memory 0, pf⟩ ∈ o.rounds := by
  cases hround : parseRound (memory 0) pf with
  | none =>
    rw [parseRounds_none memory hround] at h
    cases h
  | some r =>
    cases r with
    | wait pf' =>
      rw [parseRounds_wait memory hround] at h
      exact Option.some.inj h ▸ List.mem_cons_self
    | clear pf' =>
      rw [parseRounds_clear memory hround] at h
      exact Option.some.inj h ▸ List.mem_cons_self
    | packet p pf' =>
      rw [parseRounds_packet memory hround] at h
      split at h
      · exact Option.some.inj h ▸ List.mem_cons_self
      · obtain ⟨o', -, rfl⟩ := Option.map_eq_some_iff.mp h
        exact List.mem_cons_self

/-- **A loop that fits reads what is buffered**, and leaves what the flat decoder leaves. Strong
induction on the bytes held: the round in front fits, so it comes to what the flat round comes to,
and the rounds behind a packet have fewer bytes. -/
theorem parseRounds_of_fits (memory : Memory) {pf : CpacketFormat} {off : Nat}
    {bytes : List UInt8} (h : Holds pf off bytes) (hfit : LoopFits off bytes) :
    ∃ o, parseRounds memory pf = some o ∧ (∀ r ∈ o.rounds, Buffered r) ∧
      Holds o.state (after off bytes).1 (after off bytes).2 := by
  induction hn : bytes.length using Nat.strong_induction_on generalizing memory pf off bytes with
  | _ n ih =>
    have hround := (LoopFits.eq_def off bytes ▸ hfit).1
    -- the round in front
    have hfirst : Buffered ⟨memory 0, pf⟩ := buffered_of_fits (memory 0) h hround
    have hone : ∀ r ∈ [Begun.mk (memory 0) pf], Buffered r := fun r hr =>
      List.mem_singleton.mp hr ▸ hfirst
    obtain ⟨r, hr, hagrees⟩ := parseRound_of_fits h hround (memory 0)
    have hspec := round_spec h hr
    cases hb : bytesRound bytes with
    -- each kind of flat round, with the round of the ring that agrees with it
    | wait rest =>
      obtain rfl := bytesRound_wait hb
      rw [hb] at hagrees
      cases r with
      | wait pf' =>
        refine ⟨_, parseRounds_wait memory hr, hone, ?_⟩
        rw [after_wait hb]
        exact hagrees
      | clear pf' => exact hagrees.elim
      | packet p pf' => exact hagrees.elim
    | clear rest =>
      rw [hb] at hagrees
      cases r with
      | wait pf' => exact hagrees.elim
      | clear pf' =>
        refine ⟨_, parseRounds_clear memory hr, hone, ?_⟩
        rw [after_clear hb]
        obtain ⟨rfl, -⟩ := hspec
        refine ⟨Ringbuffer.toList_consumerClear _, ?_, rfl⟩
        show pf.recvBuffer.consumerClear.offset = _
        rw [Ringbuffer.offset_consumerClear, h.front, h.available]
      | packet p pf' => exact hagrees.elim
    | packet p rest =>
      rw [hb] at hagrees
      cases r with
      | wait pf' => exact hagrees.elim
      | clear pf' => exact hagrees.elim
      | packet p' pf' =>
        obtain ⟨rfl, hpf'⟩ := hagrees
        -- behind the packet the loop ends, or goes on with what is left
        have hrest := ((loopFits_packet hb).mp hfit).2
        rw [parseRounds_packet memory hr, after_packet hb]
        by_cases hzero : pf'.currBufferSize = 0
        · have hnil : rest = [] := List.eq_nil_of_length_eq_zero (hpf'.count ▸ hzero)
          subst hnil
          rw [if_pos hzero, after, parseBytes_nil]
          exact ⟨_, rfl, hone, hpf'⟩
        · obtain ⟨o, ho, hall, hleft⟩ := ih rest.length (hn ▸ bytesRound_packet_lt hb)
            (fun k => memory (k + 1)) hpf' hrest rfl
          rw [if_neg hzero, ho]
          refine ⟨_, rfl, fun r hr => ?_, hleft⟩
          rcases List.mem_cons.mp hr with rfl | hin
          · exact hfirst
          · exact hall r hin

/-- A loop that does not fit has a round that reads something else. Induction on the bytes held. -/
theorem parseRounds_not_fits {memory : Memory} (hmemory : ∀ k i, (memory k i).isSome = true)
    {pf : CpacketFormat} {off : Nat} {bytes : List UInt8} (h : Holds pf off bytes)
    (hfit : ¬ LoopFits off bytes) {o : Outcome} (ho : parseRounds memory pf = some o) :
    ∃ r ∈ o.rounds, ¬ Buffered r := by
  induction hn : bytes.length using Nat.strong_induction_on
    generalizing memory pf off bytes o with
  | _ n ih =>
    by_cases hround : RoundFits off bytes
    -- the round in front does not fit, or one behind its packet
    case neg => exact ⟨_, mem_rounds ho, not_buffered (hmemory 0) h hround⟩
    obtain ⟨r, hr, hagrees⟩ := parseRound_of_fits h hround (memory 0)
    cases hb : bytesRound bytes with
    | wait rest => exact absurd ((loopFits_leave (by simp [hb])).mpr hround) hfit
    | clear rest => exact absurd ((loopFits_leave (by simp [hb])).mpr hround) hfit
    | packet p rest =>
      rw [hb] at hagrees
      cases r with
      | wait pf' => exact hagrees.elim
      | clear pf' => exact hagrees.elim
      | packet p' pf' =>
        obtain ⟨rfl, hpf'⟩ := hagrees
        have hrest : ¬ LoopFits (advance off p') rest :=
          fun hl => hfit ((loopFits_packet hb).mpr ⟨hround, hl⟩)
        -- the loop goes on, since nothing would fit
        have hne : pf'.currBufferSize ≠ 0 := by
          intro hzero
          have hnil : rest = [] := List.eq_nil_of_length_eq_zero (hpf'.count ▸ hzero)
          exact hrest (hnil ▸ loopFits_nil _)
        rw [parseRounds_packet memory hr, if_neg hne] at ho
        obtain ⟨o', ho', rfl⟩ := Option.map_eq_some_iff.mp ho
        obtain ⟨r, hin, hnot⟩ := ih rest.length (hn ▸ bytesRound_packet_lt hb)
          (fun k i => hmemory (k + 1) i) hpf' hrest ho' rfl
        exact ⟨r, List.mem_cons_of_mem _ hin, hnot⟩

/-! ## The calls -/

/-- From a state between calls on, every round of the calls to come reads what is buffered exactly
when the pieces fit. Induction on the calls; what one of them leaves is less than a packet, so that
the next piece is always taken in. -/
theorem allRounds_buffered_iff {calls : List Receive} {pf : CpacketFormat} {off : Nat}
    {held : List UInt8} (h : Holds pf off held) (hheld : held.length ≤ 2086)
    (hchunks : ∀ call ∈ calls, call.chunk.length ≤ recvBufferMaxSize) :
    (∀ r ∈ allRounds pf calls, Buffered r) ↔ FeedFits off held (calls.map Receive.chunk) := by
  induction calls generalizing pf off held with
  | nil => exact ⟨fun _ => trivial, fun _ => nofun⟩
  | cons call calls ih =>
    have hmemory : ∀ k i, ((fun k i => some (call.memory k i) : Memory) k i).isSome = true :=
      fun _ _ => rfl
    obtain ⟨hroom, -, o, ho, haccounts, -⟩ := accounts_of_sound _ hmemory ⟨off, held, h, hheld⟩
      (hchunks call List.mem_cons_self)
    -- the piece is behind what is held when the loop begins
    have hin : Holds (takeIn call.chunk pf) off (held ++ call.chunk) :=
      h.write (h.count ▸ hroom.le)
    have hloop : parseRounds (fun k i => some (call.memory k i)) (takeIn call.chunk pf)
        = some o := by
      rw [← ho, receive, if_neg (Nat.not_le.mpr hroom)]
    have hrounds : allRounds pf (call :: calls) = o.rounds ++ allRounds o.state calls := by
      rw [allRounds, ho]
    rw [hrounds, List.map_cons, FeedFits]
    -- a loop that fits leaves a state between calls, and one that does not has a bad round
    by_cases hfit : LoopFits off (held ++ call.chunk)
    · obtain ⟨o', ho', hall, hleft⟩ := parseRounds_of_fits _ hin hfit
      obtain rfl : o' = o := Option.some.inj (ho'.symm.trans hloop)
      have hlater := ih hleft (hleft.count ▸ haccounts.residual)
        fun c hc => hchunks c (List.mem_cons_of_mem _ hc)
      rw [← hlater]
      exact ⟨fun h' => ⟨hfit, fun r hr => h' r (List.mem_append_right _ hr)⟩, fun h' r hr =>
        (List.mem_append.mp hr).elim (hall r) (h'.2 r)⟩
    · obtain ⟨r, hr, hnot⟩ := parseRounds_not_fits hmemory hin hfit hloop
      exact ⟨fun h' => absurd (h' r (List.mem_append_left _ hr)) hnot, fun h' =>
        absurd h'.1 hfit⟩

/-- **The decoder reads what is buffered, in every round of every call, exactly when no head and no
body that it looks at runs over the end of the array.** -/
theorem buffered_iff_feedFits (junk : Vector UInt8 maxBufferSize) (calls : List Receive)
    (hchunks : ∀ call ∈ calls, call.chunk.length ≤ recvBufferMaxSize) :
    (∀ r ∈ allRounds (new junk) calls, Buffered r) ↔ FeedFits 0 [] (calls.map Receive.chunk) :=
  allRounds_buffered_iff (holds_new junk) (Nat.zero_le _) hchunks

/-- A packet without a body, in two pieces. -/
def bareInTwo : List Receive :=
  [⟨fun _ _ => 0, List.replicate 15 0⟩, ⟨fun _ _ => 0, List.replicate 25 0⟩]

theorem buffered_bareInTwo :
    (∀ call ∈ bareInTwo, call.chunk.length ≤ recvBufferMaxSize) ∧
      ∀ r ∈ allRounds (new (Vector.replicate maxBufferSize 0)) bareInTwo, Buffered r := by
  have hchunks : ∀ call ∈ bareInTwo, call.chunk.length ≤ recvBufferMaxSize := by decide
  refine ⟨hchunks, (buffered_iff_feedFits _ bareInTwo hchunks).mpr ?_⟩
  have hwait : bytesRound (List.replicate 15 0) = .wait (List.replicate 15 0) := rfl
  have hpacket : bytesRound (List.replicate 40 0) = .packet ⟨0, [], 0⟩ [] := rfl
  show LoopFits 0 (List.replicate 15 0) ∧ LoopFits (after 0 (List.replicate 15 0)).1
    ((after 0 (List.replicate 15 0)).2 ++ List.replicate 25 0) ∧ True
  rw [after_wait hwait]
  have hleave : ∀ p rest, bytesRound (List.replicate 15 0) ≠ .packet p rest := by
    rw [hwait]
    nofun
  refine ⟨(loopFits_leave hleave).mpr fun hlen => absurd hlen (by decide), ?_, trivial⟩
  exact (loopFits_packet hpacket).mpr ⟨fun _ => ⟨by decide, fun _ _ h => absurd h (by decide)⟩,
    loopFits_nil _⟩

/-- A length field of -1 has everything that is buffered thrown away. -/
theorem bytesRound_hostile {n : Nat} (h : 40 ≤ n) :
    bytesRound (List.replicate n 255) = .clear [] := by
  have hfield : ((List.replicate n (255 : UInt8)).drop 4).take 4 = List.replicate 4 255 := by
    rw [List.drop_replicate, List.take_replicate, Nat.min_eq_left (by omega)]
  have hsize : maxPacketBufferSize ≤ headSize (List.replicate n 255) := by
    rw [headSize, hfield]
    decide
  rw [bytesRound, if_neg (by rw [List.length_replicate]; exact Nat.not_lt.mpr h), if_pos hsize]

/-- Two pieces that are thrown away bring the front to four bytes before the end of the array; the
head of a third lies over it. -/
def headOverEnd : List Receive :=
  [⟨fun _ _ => 0, List.replicate 10240 255⟩, ⟨fun _ _ => 0, List.replicate 6140 255⟩,
    ⟨fun _ _ => 0, List.replicate 40 255⟩]

theorem head_over_end :
    (∀ call ∈ headOverEnd, call.chunk.length ≤ recvBufferMaxSize) ∧
      ∃ r ∈ allRounds (new (Vector.replicate maxBufferSize 0)) headOverEnd, ¬ Buffered r := by
  have hchunks : ∀ call ∈ headOverEnd, call.chunk.length ≤ recvBufferMaxSize := by
    intro call hcall
    simp only [headOverEnd, List.mem_cons, List.not_mem_nil, or_false] at hcall
    rcases hcall with rfl | rfl | rfl
    all_goals rw [List.length_replicate]
    all_goals decide
  refine ⟨hchunks, ?_⟩
  by_contra hall
  push Not at hall
  have hfits := (allRounds_buffered_iff (holds_new _) (Nat.zero_le _) hchunks).mp hall
  change LoopFits 0 (List.replicate 10240 255) ∧ FeedFits (after 0 (List.replicate 10240 255)).1
    (after 0 (List.replicate 10240 255)).2 [List.replicate 6140 255, List.replicate 40 255] at hfits
  rw [after_clear (bytesRound_hostile (by decide)), List.length_replicate] at hfits
  have hsecond := hfits.2
  change LoopFits 10240 (List.replicate 6140 255) ∧ FeedFits
    (after 10240 (List.replicate 6140 255)).1 (after 10240 (List.replicate 6140 255)).2
    [List.replicate 40 255] at hsecond
  rw [after_clear (bytesRound_hostile (by decide)), List.length_replicate] at hsecond
  have hthird : LoopFits 16380 (List.replicate 40 255) := hsecond.2.1
  have hround := (LoopFits.eq_def _ _ ▸ hthird).1 (by rw [List.length_replicate])
  exact absurd hround.1 (by decide)

end CpacketFormat

end PssClient
