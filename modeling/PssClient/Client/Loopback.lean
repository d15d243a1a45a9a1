import PssClient.Client.Formatted
import PssClient.Client.Rejected
import PssClient.Client.WriteQueue
import PssClient.Wire.Beginning

/-!
# From one end to the other

What `client_send_format_data` has put on the wire of one connection, read by a decoder of the same
format at the other end, wherever the socket cuts the writes and the reads.

* `sent` / `packets` — the messages of the calls that the encoder does not reject, and their bytes.
* `Encodes` — the invariant: the formatter is in order, and what has been issued is these bytes.
* `loopback` — the result for the quiet runs.
-/

namespace PssClient.WriteQueue

open Machine CpacketFormat

/-- A call whose length is that of its body, which an `int` holds, or a step of the socket. -/
def Action.Formatted : Action → Prop
  | .clientSendFormatData _ sendBuff sendSize =>
    sendSize = sendBuff.length ∧ sendBuff.length < 2 ^ 31
  | .clientSendData _ _ => False
  | .transfer _ | .resume _ => True

/-- The message of a call, unless it is too large. -/
def sentBy : Action → Option Message
  | .clientSendFormatData commandId sendBuff _ =>
    if sendBuff.length ≤ 2008 then some ⟨commandId, sendBuff⟩ else none
  | _ => none

def sent (as : List Action) : List Message := as.filterMap sentBy

def packets (ms : List Message) : List (List UInt8) :=
  ms.map fun m => packetBytes m (List.replicate 32 0)

theorem length_of_sent {as : List Action} {m : Message} (h : m ∈ sent as) :
    m.body.length ≤ 2008 := by
  obtain ⟨a, -, ha⟩ := List.mem_filterMap.mp h
  cases a with
  | clientSendFormatData commandId sendBuff sendSize =>
    obtain ⟨hle, hm⟩ := Option.ite_none_right_eq_some.mp ha
    exact Option.some.inj hm ▸ hle
  | clientSendData | transfer | resume => cases ha

theorem encodedAs_packets {ms : List Message} (h : ∀ m ∈ ms, m.body.length ≤ 2008) :
    List.Forall₂ EncodedAs ms (packets ms) := by
  rw [packets, List.forall₂_map_right_iff]
  refine List.forall₂_same.mpr fun m hm => encodedAs_packetBytes m ?_
  have hle := h m hm
  unfold packetHeadSize maxPacketSendSize
  omega

/-! ## What is issued -/

/-- The formatter is in order, and the messages have been issued as packets. -/
structure Encodes (ms : List Message) (s : WriteSide CpacketFormat) : Prop where
  isConnect : s.isConnect = true
  reserved : Reserved s.packetFormat
  issued : s.issued = (packets ms).flatten

theorem Encodes.moved {ms : List Message} {s s' : WriteSide CpacketFormat} (h : Encodes ms s)
    (hconnect : s'.isConnect = s.isConnect) (hpf : s'.packetFormat = s.packetFormat)
    (hissued : s'.issued = s.issued) : Encodes ms s' :=
  ⟨hconnect.trans h.isConnect, hpf ▸ h.reserved, hissued.trans h.issued⟩

/-- `do_write_immediately` issues the bytes, also when there are none. -/
theorem issued_doWriteImmediately (data : List UInt8) (s : WriteSide CpacketFormat) :
    (doWriteImmediately data s).isConnect = s.isConnect ∧
      (doWriteImmediately data s).packetFormat = s.packetFormat ∧
      (doWriteImmediately data s).issued = s.issued ++ data := by
  unfold doWriteImmediately
  split
  case isTrue hdata => exact ⟨rfl, rfl, by rw [hdata, List.append_nil]⟩
  case isFalse => exact ⟨rfl, rfl, rfl⟩

theorem rejects_of_large {body : List UInt8} (hlarge : ¬ body.length ≤ 2008)
    (hint : body.length < 2 ^ 31) : Rejects body.length := by
  have hmod : (body.length + packetHeadSize) % sizeMod = body.length + packetHeadSize :=
    Nat.mod_eq_of_lt (by unfold sizeMod packetHeadSize; omega)
  rw [Rejects, hmod]
  unfold packetHeadSize maxPacketSendSize
  omega

theorem reserved_formatted {past : Nat → Option UInt8} {pf pf' : CpacketFormat}
    {connectId length : Nat} {commandId : Int16} {data bytes : List UInt8} (h : Reserved pf)
    (hs : formatted (cpacketFormat past) connectId commandId data length pf = some (bytes, pf')) :
    Reserved pf' := by
  obtain ⟨r, hsend, hs⟩ := Option.bind_eq_some_iff.mp hs
  obtain ⟨bytes', -, heq⟩ := Option.map_eq_some_iff.mp hs
  obtain ⟨-, rfl⟩ := Prod.mk.inj heq
  exact reserved_formatSendBuffer h hsend

/-- A call either issues its packet, or is rejected and issues nothing; a body that the encoder
would read past stops the run. -/
theorem encodes_sendFormatData {past : Nat → Option UInt8} {ms : List Message}
    {s s' : WriteSide CpacketFormat} {commandId : Int16} {body : List UInt8} (h : Encodes ms s)
    (hint : body.length < 2 ^ 31)
    (hs : doWriteFormatData (cpacketFormat past) commandId body body.length s = some s') :
    Encodes (ms ++ (if body.length ≤ 2008 then some ⟨commandId, body⟩ else none).toList) s' := by
  rw [doWriteFormatData, if_neg (by rw [h.isConnect]; decide)] at hs
  obtain ⟨⟨data, pf⟩, hformatted, rfl⟩ := Option.map_eq_some_iff.mp hs
  obtain ⟨hconnect, hpf, hissued⟩ :=
    issued_doWriteImmediately data { s with packetFormat := pf }
  -- a body that fits is copied as a string, and one that does not fit is refused
  by_cases hle : body.length ≤ 2008
  · obtain ⟨hfree, hzero⟩ := formatted_of_reserved past h.reserved s.connectId commandId hle
    have hbody : ZeroFree body := by
      by_contra hnot
      rw [hzero hnot] at hformatted
      cases hformatted
    have hreserved : Reserved pf := reserved_formatted h.reserved hformatted
    obtain ⟨pf', heq⟩ := hfree hbody
    rw [heq] at hformatted
    obtain ⟨rfl, -⟩ := Prod.mk.inj (Option.some.inj hformatted)
    rw [if_pos hle]
    refine ⟨hconnect.trans h.isConnect, hpf ▸ hreserved, ?_⟩
    rw [hissued, packets, List.map_append, List.flatten_append]
    exact congrArg₂ _ h.issued (List.append_nil _).symm
  · rw [formatted_rejects past s.connectId commandId body (rejects_of_large hle hint)]
      at hformatted
    obtain ⟨rfl, rfl⟩ := Prod.mk.inj (Option.some.inj hformatted)
    rw [if_neg hle, Option.toList_none, List.append_nil]
    exact h.moved hconnect hpf (hissued.trans (List.append_nil _))

theorem encodes_step {past : Nat → Option UInt8} {ms : List Message}
    {s s' : WriteSide CpacketFormat} {a : Action} (h : Encodes ms s) (ha : a.Formatted)
    (hs : step (cpacketFormat past) s a = some s') :
    Encodes (ms ++ (sentBy a).toList) s' := by
  cases a with
  | clientSendData => exact ha.elim
  | clientSendFormatData commandId sendBuff sendSize =>
    obtain ⟨rfl, hint⟩ := ha
    exact encodes_sendFormatData h hint hs
  | transfer n =>
    show Encodes (ms ++ []) s'
    rw [List.append_nil]
    change transfer n s = some s' at hs
    unfold transfer at hs
    split at hs
    · cases hs
    · obtain ⟨-, heq⟩ := Option.ite_none_right_eq_some.mp hs
      exact Option.some.inj heq ▸ h.moved rfl rfl rfl
  | resume i =>
    show Encodes (ms ++ []) s'
    rw [List.append_nil]
    obtain ⟨c, -, rfl⟩ := Option.map_eq_some_iff.mp hs
    split <;> exact h.moved rfl rfl rfl

/-- Induction on the run. -/
theorem encodes_run {past : Nat → Option UInt8} {ms : List Message} {as : List Action}
    {s t : WriteSide CpacketFormat} (h : Encodes ms s) (has : ∀ a ∈ as, a.Formatted)
    (hrun : run (step (cpacketFormat past)) s as = some t) : Encodes (ms ++ sent as) t := by
  induction as generalizing s ms with
  | nil =>
    obtain rfl : s = t := Option.some.inj hrun
    rwa [sent, List.filterMap_nil, List.append_nil]
  | cons a as ih =>
    obtain ⟨s', hs, hrest⟩ := run_cons.mp hrun
    have hnext := ih (encodes_step h (has a List.mem_cons_self) hs)
      (fun b hb => has b (List.mem_cons_of_mem _ hb)) hrest
    rw [List.append_assoc] at hnext
    have hsent : sent (a :: as) = (sentBy a).toList ++ sent as := by
      rw [sent, List.filterMap_cons]
      cases sentBy a <;> rfl
    rwa [hsent]

/-! ## The other end -/

/-- **From one end to the other.** In any run on a fresh connection that keeps the bytes in order,
with formatted messages of any size whose stream fits the array of the decoder, let a fresh decoder
at the other end read what has gone over the wire so far, or a beginning of it, in any pieces. It
returns the first of the messages that the encoder has taken, in order and each once, and holds the
beginning of the next; and once everything is written and read, it has returned all of them. A body
with a zero byte before its last is in no run: it is read behind its end. -/
theorem loopback (past past' : Nat → Option UInt8) (junk junk' : Vector UInt8 maxBufferSize)
    (connectId : Nat) (as : List Action) (s : WriteSide CpacketFormat) (chunks : List (List UInt8))
    (hformatted : ∀ a ∈ as, a.Formatted)
    (hquiet : Meets (step (cpacketFormat past)) (Quiet (cpacketFormat past))
      (connected connectId (new junk)) as)
    (hrun : run (step (cpacketFormat past)) (connected connectId (new junk)) as = some s)
    (hfits : StreamFits 0 ((sent as).map Message.toPacket))
    (hchunks : ∀ chunk ∈ chunks, chunk.length ≤ recvBufferMaxSize)
    (hread : chunks.flatten <+: s.wire) :
    ∃ k rest pf', feed past' (new junk') chunks
        = some (((sent as).take k).map Message.toPacket, pf') ∧
      chunks.flatten = (packets ((sent as).take k)).flatten ++ rest ∧
      Unfinished rest (packets ((sent as).drop k)) ∧
      (chunks.flatten = s.wire → s.queue = [] → leftovers s = [] → (sent as).drop k = []) := by
  -- on the wire are the messages, in order, and the encoder has left nothing out
  have horder : InOrder s := invariant_of_meets InOrder (fun _ _ _ h hq hs => inOrder_step h hq hs)
    (inOrder_connected connectId (new junk)) hquiet hrun
  have hnone : Encodes [] (connected connectId (new junk)) := ⟨rfl, reserved_new junk, rfl⟩
  have hencodes : Encodes (sent as) s := encodes_run hnone hformatted hrun
  have henc := encodedAs_packets fun m (hm : m ∈ sent as) => length_of_sent hm
  have hp : List.Forall₂ IsPacket ((sent as).map Message.toPacket) (packets (sent as)) :=
    isPacket_of_encodedAs henc fun m hm => by
      have hbody := length_of_sent hm
      unfold packetHeadSize maxPacketSendSize
      omega
  -- what has been read is a beginning of what has been sent
  obtain ⟨unread, hunread⟩ := hread.trans horder.isPrefix
  have hall : [] ++ (chunks.flatten ++ unread) = (packets (sent as)).flatten :=
    hunread.trans hencodes.issued
  obtain ⟨k, rest, pf', hfeed, hrest, hunf⟩ := feed_beginning hp (holds_new junk')
    (unfinished_nil hp) hall hchunks hfits past'
  have hdrop : (packets (sent as)).drop k = packets ((sent as).drop k) := by
    rw [packets, packets, List.map_drop]
  have htake : (packets (sent as)).take k = packets ((sent as).take k) := by
    rw [packets, packets, List.map_take]
  rw [hdrop] at hrest hunf
  refine ⟨k, rest, pf', by rw [List.map_take]; exact hfeed, ?_, hunf, fun hwire hqueue hleft => ?_⟩
  · -- the rest is what is read of the next message
    have hcut : chunks.flatten ++ unread
        = ((packets ((sent as).take k)).flatten ++ rest) ++ unread := by
      rw [List.append_assoc, hrest, ← htake, ← hdrop, ← List.flatten_append,
        List.take_append_drop]
      exact hall
    exact List.append_cancel_right hcut
  · -- once everything is on the wire and read, nothing is left of the stream
    have hnothing : unread = [] := by
      have hwritten := horder.order
      rw [hqueue, hleft, List.flatten_nil, List.append_nil, List.append_nil] at hwritten
      rw [hwire, ← hwritten] at hunread
      exact List.append_right_eq_self.mp hunread
    rw [hnothing, List.append_nil] at hrest
    exact List.map_eq_nil_iff.mp (drop_eq_nil_of_unfinished hrest hunf)

/-- A packet of 41 bytes is written in two parts, and read in two others. -/
def twoParts : List Action :=
  [.clientSendFormatData 7 [1] 1, .transfer 20, .resume 0, .transfer 21]

def packet41 : List UInt8 := packetBytes ⟨7, [1]⟩ (List.replicate 32 0)

theorem loopback_twoParts :
    ∃ s, run (step (cpacketFormat noPast))
        (connected 1 (new (Vector.replicate maxBufferSize 0))) twoParts = some s ∧
      ∃ pf', feed noPast (new (Vector.replicate maxBufferSize 0))
        [packet41.take 3, packet41.drop 3] = some ([⟨7, [1], 1⟩], pf') := by
  have hlength : [(1 : UInt8)].length ≤ 2008 := by decide
  obtain ⟨pf, hformatted⟩ := (formatted_of_reserved noPast
    (reserved_new (Vector.replicate maxBufferSize 0)) 1 7 hlength).1 (by decide)
  -- one message, which the socket takes in two parts
  let start : WriteSide CpacketFormat := connected 1 (new (Vector.replicate maxBufferSize 0))
  let s₁ : WriteSide CpacketFormat :=
    { start with packetFormat := pf, queue := [packet41], issued := packet41 }
  have hfirst : step (cpacketFormat noPast) start (.clientSendFormatData 7 [1] 1) = some s₁ := by
    have hconnect : ¬ start.isConnect = false := by decide
    rw [step, doWriteFormatData, if_neg hconnect]
    apply (congrArg (Option.map _) hformatted).trans
    rfl
  have hlast : ∃ s, run (step (cpacketFormat noPast)) s₁ (twoParts.drop 1) = some s ∧
      s.wire = packet41 ∧ s.queue = [] ∧ leftovers s = [] := ⟨_, rfl, rfl, rfl, rfl⟩
  obtain ⟨s, hlast, hwire, hqueue, hleft⟩ := hlast
  have hrun : run (step (cpacketFormat noPast)) start twoParts = some s :=
    run_cons.mpr ⟨s₁, hfirst, hlast⟩
  -- no call comes between the two parts
  have hquiet : Meets (step (cpacketFormat noPast)) (Quiet (cpacketFormat noPast)) start
      twoParts := by
    refine meets_cons (.inr rfl) hfirst (meets_cons ?_ rfl (meets_cons trivial rfl
      (meets_cons ?_ rfl (meets_nil _))))
    · rintro op ops ⟨⟩
      exact .inr rfl
    · rintro op ops ⟨⟩
      exact .inr rfl
  have hsends : ∀ a ∈ twoParts, a.Formatted := by
    intro a ha
    simp only [twoParts, List.mem_cons, List.not_mem_nil, or_false] at ha
    rcases ha with rfl | rfl | rfl | rfl
    · exact ⟨rfl, by decide⟩
    · trivial
    · trivial
    · trivial
  have hread : [packet41.take 3, packet41.drop 3].flatten = s.wire := by
    rw [hwire]
    rfl
  obtain ⟨k, rest, pf', hfeed, -, -, hall⟩ := loopback noPast noPast _
    (Vector.replicate maxBufferSize 0) 1 twoParts s [packet41.take 3, packet41.drop 3] hsends
    hquiet hrun (by decide) (by decide) (hread ▸ List.prefix_refl _)
  have hk := hall hread hqueue hleft
  refine ⟨s, hrun, pf', ?_⟩
  rw [hfeed, List.take_of_length_le (List.drop_eq_nil_iff.mp hk)]
  rfl

end PssClient.WriteQueue
