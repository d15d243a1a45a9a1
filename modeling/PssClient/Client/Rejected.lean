import PssClient.Client.SendSize
import PssClient.Client.Tty

/-!
# A message that is too large

`format_send_buffer` answers such a message with an empty string and leaves `format_length` alone.
`do_write_format_data` does not look at the answer: it hands the empty string to
`do_write_immediately`.

* `formatted_rejects` — what is handed on.
* `Client.SendsNothing` / `TtyClient.SendsNothing` — no operation is started, and the connection
  state and the time of the last write stay.
* `rejected_sends_nothing_iff` — the result: this is so only where `is_connect_` is tested before,
  and not set. `datagram_started` has the client that is left with an empty datagram.
-/

namespace PssClient

open Machine CpacketFormat

/-- The empty string, without an error. -/
theorem formatted_rejects (past : Nat → Option UInt8) (connectId : Nat) (commandId : Int16)
    (data : List UInt8) {length : Nat} (h : Rejects length) (pf : CpacketFormat) :
    formatted (cpacketFormat past) connectId commandId data length pf = some ([], pf) := by
  show (formatSendBuffer pf commandId (cStr data) length 0).bind _ = _
  rw [formatSendBuffer_rejects pf commandId (cStr data) h]
  rfl

namespace Client

variable {F : Type*}

/-- No operation has been started and none has ended, and the client's state as a sender is what it
was. -/
structure SendsNothing (s s' : Client F) : Prop where
  outstanding : s'.outstanding = s.outstanding
  completed : s'.completed = s.completed
  isConnect : s'.isConnect = s.isConnect
  writeLastTimer : s'.writeLastTimer = s.writeLastTimer

/-- An operation is outstanding or, on a closed socket, completed at once. -/
theorem not_sendsNothing_startOp (op : Op) (s : Client F) : ¬ SendsNothing s (startOp op s) := by
  intro h
  by_cases hclosed : s.socket = .closed
  · have hstart : startOp op s =
        { s with completed := s.completed ++ [op.onClosed s.transport] } := if_pos hclosed
    have hsame := h.completed
    rw [hstart] at hsame
    exact absurd hsame (by simp)
  · have hstart : startOp op s = { s with outstanding := s.outstanding ++ [op] } := if_neg hclosed
    have hsame := h.outstanding
    rw [hstart] at hsame
    exact absurd hsame (by simp)

/-- A write of no bytes is started. -/
theorem doWriteFormatData_rejects (past : Nat → Option UInt8) (commandId : Int16)
    (data : List UInt8) {length : Nat} (h : Rejects length) {s : Client CpacketFormat}
    (hopen : ¬ (s.transport = .tcp ∧ s.isConnect = false)) :
    doWriteFormatData (cpacketFormat past) commandId data length s
      = some (startOp (.write []) s) := by
  rw [doWriteFormatData, if_neg hopen, formatted_rejects past _ _ _ h]
  rfl

theorem rejected_iff (past : Nat → Option UInt8) (commandId : Int16) (data : List UInt8)
    {length : Nat} (h : Rejects length) (s : Client CpacketFormat) :
    (∃ s', doWriteFormatData (cpacketFormat past) commandId data length s = some s' ∧
      SendsNothing s s') ↔ s.transport = .tcp ∧ s.isConnect = false := by
  constructor
  · rintro ⟨s', hsend, hnothing⟩
    by_contra hopen
    rw [doWriteFormatData_rejects past commandId data h hopen] at hsend
    exact not_sendsNothing_startOp _ s (Option.some.inj hsend ▸ hnothing)
  · intro hclosed
    exact ⟨_, if_pos hclosed, rfl, rfl, rfl, rfl⟩

end Client

namespace TtyClient

variable {F : Type*}

/-- The same of the serial client: neither its operations nor its state as a sender are different.
-/
structure SendsNothing (s s' : TtyClient F) : Prop where
  outstanding : s'.outstanding = s.outstanding
  completed : s'.completed = s.completed
  isConnect : s'.isConnect = s.isConnect
  writeLastTimer : s'.writeLastTimer = s.writeLastTimer

/-- A write of no bytes is started, and completes at once. -/
theorem doWriteFormatData_rejects (past : Nat → Option UInt8) (commandId : Int16)
    (data : List UInt8) {length : Nat} (h : Rejects length) {s : TtyClient CpacketFormat}
    (hopen : s.isConnect = true) :
    doWriteFormatData (cpacketFormat past) commandId data length s
      = some { s with completed := s.completed ++ [.sent 0] } := by
  rw [doWriteFormatData, if_neg (by rw [hopen]; decide), formatted_rejects past _ _ _ h]
  rfl

theorem rejected_iff (past : Nat → Option UInt8) (commandId : Int16) (data : List UInt8)
    {length : Nat} (h : Rejects length) (s : TtyClient CpacketFormat) :
    (∃ s', doWriteFormatData (cpacketFormat past) commandId data length s = some s' ∧
      SendsNothing s s') ↔ s.isConnect = false := by
  constructor
  · rintro ⟨s', hsend, hnothing⟩
    by_contra hopen
    rw [doWriteFormatData_rejects past commandId data h (Bool.eq_true_of_not_eq_false hopen)]
      at hsend
    have hsame := hnothing.completed
    rw [← Option.some.inj hsend] at hsame
    exact absurd hsame (by simp)
  · intro hclosed
    exact ⟨_, if_pos hclosed, rfl, rfl, rfl, rfl⟩

end TtyClient

/-- **A rejected message sends nothing only where there is no connection, and never over UDP.** The
stream and the serial client test `is_connect_` first; past that test all three start a write. -/
theorem rejected_sends_nothing_iff (past : Nat → Option UInt8) (commandId : Int16)
    (data : List UInt8) (length : Nat) (hrejects : Rejects length) :
    (∀ s : Client CpacketFormat,
      (∃ s', Client.doWriteFormatData (cpacketFormat past) commandId data length s = some s' ∧
        Client.SendsNothing s s') ↔ s.transport = .tcp ∧ s.isConnect = false) ∧
    (∀ s : TtyClient CpacketFormat,
      (∃ s', TtyClient.doWriteFormatData (cpacketFormat past) commandId data length s = some s' ∧
        TtyClient.SendsNothing s s') ↔ s.isConnect = false) :=
  ⟨Client.rejected_iff past commandId data hrejects,
    TtyClient.rejected_iff past commandId data hrejects⟩

/-- A body of one byte more than fits. -/
def oversized : List UInt8 := List.replicate 2009 7

theorem rejected_sends_nothing_iff_oversized :
    (∀ s : Client CpacketFormat,
      (∃ s', Client.doWriteFormatData (cpacketFormat noPast) 1 oversized 2009 s = some s' ∧
        Client.SendsNothing s s') ↔ s.transport = .tcp ∧ s.isConnect = false) ∧
    (∀ s : TtyClient CpacketFormat,
      (∃ s', TtyClient.doWriteFormatData (cpacketFormat noPast) 1 oversized 2009 s = some s' ∧
        TtyClient.SendsNothing s s') ↔ s.isConnect = false) :=
  rejected_sends_nothing_iff noPast 1 oversized 2009 (by decide)

/-- The datagram client of the example program starts to send an empty datagram. -/
theorem datagram_started :
    ¬ ∃ s', Client.doWriteFormatData (cpacketFormat noPast) 1 oversized 2009 (Client.started .udp)
        = some s' ∧ Client.SendsNothing (Client.started .udp) s' := by
  rintro ⟨s', hsend, hnothing⟩
  cases hsend
  exact absurd hnothing.outstanding (by decide)

/-- The datagram goes out, and its handler sets the time of the last write. -/
example :
    (run (Client.step (cpacketFormat noPast)) (Client.started .udp)
      [.tick 5, .clientSendFormatData 1 oversized 2009, .complete 1 (.sent 0), .handle 0]).map
        Client.writeLastTimer = some 5 := rfl

end PssClient
