import PssClient.Wire.Reassembly

/-!
# The beginning of a stream

What has been received is at any time a beginning of what was sent, and it may end in the middle of
a packet.

* `feed_beginning` — what a decoder makes of any beginning of a stream that fits the array: the
  packets that are complete in it.
* `drop_eq_nil_of_unfinished` — they are all of them when nothing is missing.
-/

namespace PssClient

namespace CpacketFormat

/-- **Any beginning of a stream.** A fresh decoder returns the packets that are complete in it, and
holds the bytes behind them, which are the beginning of the next. Induction on the pieces, as for
the whole stream; here something may come later. -/
theorem feed_beginning {chunks : List (List UInt8)} {pf : CpacketFormat} {off : Nat}
    {bytes later : List UInt8} {ps : List CrecvPacket} {packets : List (List UInt8)}
    (hp : List.Forall₂ IsPacket ps packets) (h : Holds pf off bytes)
    (hunf : Unfinished bytes packets)
    (hall : bytes ++ (chunks.flatten ++ later) = packets.flatten)
    (hchunks : ∀ chunk ∈ chunks, chunk.length ≤ recvBufferMaxSize)
    (hfits : StreamFits off ps) (past : Nat → Option UInt8) :
    ∃ k rest pf', feed past pf chunks = some (ps.take k, pf') ∧
      rest ++ later = (packets.drop k).flatten ∧ Unfinished rest (packets.drop k) := by
  induction chunks generalizing pf off bytes ps packets with
  | nil =>
    refine ⟨0, bytes, pf, rfl, ?_, hunf⟩
    rwa [List.flatten_nil, List.nil_append] at hall
  | cons chunk chunks ih =>
    rw [List.flatten_cons, List.append_assoc, ← List.append_assoc] at hall
    obtain ⟨pf₁, hpf₁, hcall⟩ := formatRecvBuffer_eq_parseLoop hp h hunf
      (hchunks chunk List.mem_cons_self) past
    -- the packets that this piece completes, and the rest of the stream behind them
    obtain ⟨k, rest, hparse, hrest, hunf', hloop, -⟩ := parseBytes_of_append hp hall
    obtain ⟨pf₂, hpf₂, hleft⟩ := parseLoop_of_fits hpf₁ (hloop off hfits) past
    rw [hparse] at hpf₂ hleft
    have hfits' : StreamFits off (ps.take k ++ ps.drop k) := by rwa [List.take_append_drop]
    obtain ⟨j, rest', pf₃, hpf₃, hend, hunf''⟩ := ih (List.forall₂_drop k hp) hleft hunf' hrest
      (fun c hc => hchunks c (List.mem_cons_of_mem _ hc)) (streamFits_append.mp hfits').2
    rw [List.drop_drop] at hend hunf''
    refine ⟨k + j, rest', pf₃, ?_, hend, hunf''⟩
    rw [feed, hcall, hpf₂, Option.bind_some, hpf₃, Option.map_some, List.take_add]

/-- Nothing is missing after the last packet. -/
theorem drop_eq_nil_of_unfinished {rest : List UInt8} {packets : List (List UInt8)}
    (hrest : rest = packets.flatten) (h : Unfinished rest packets) : packets = [] := by
  cases packets with
  | nil => rfl
  | cons packet packets =>
    obtain ⟨missing, hmissing, hpacket⟩ := h
    have hlength := congrArg List.length hrest
    rw [List.flatten_cons, hpacket, List.length_append, List.length_append] at hlength
    exact absurd (List.length_eq_zero_iff.mp (by omega)) hmissing

end CpacketFormat

end PssClient
