import PssClient.Client.Posts

/-!
# The receive buffer

Every read of a client goes into the one `recv_buffer`, and its handler is told only how many bytes
have come. What a handler finds there is what its read has put there, as long as no other read has
completed in between.

* `waiting` — the lengths of the pieces whose handlers have not run. `readsInFlight` counts these
  and the outstanding reads.
* `SameBuffer` — a step that takes no part in reading.
* `InBuffer` — the invariant: what has arrived and has not been handed over is in the buffer.
* `inBuffer_step` — a step keeps it that is taken with at most one read in flight.
-/

namespace PssClient

/-- How many bytes the handler of a read is told to take. -/
def Completion.length? : Completion → Option Nat
  | .received length => some length
  | _ => none

namespace Client

open Machine

variable {F : Type*} {fmt : IpacketFormat F}

/-- The lengths of the pieces whose handlers have not run. -/
def waiting (s : Client F) : List Nat := s.completed.filterMap Completion.length?

/-- The outstanding reads, and the pieces whose handlers have not run. -/
def readsInFlight (s : Client F) : Nat := s.outstanding.count .read + s.waiting.length

/-- What has arrived and has not been handed to the formatter is in the buffer. -/
structure InBuffer (s : Client F) : Prop where
  arrived : s.arrived = s.received ++ s.waiting.map fun length => s.recvBuffer.take length
  single : s.waiting.length ≤ 1
  size : ∀ bytes ∈ s.arrived, bytes.length ≤ recvBufferMaxSize

/-! ## The steps that do not read -/

/-- Nothing that has to do with reading is different. -/
structure SameBuffer (s t : Client F) : Prop where
  arrived : t.arrived = s.arrived
  received : t.received = s.received
  recvBuffer : t.recvBuffer = s.recvBuffer
  waiting : t.waiting = s.waiting

theorem SameBuffer.refl (s : Client F) : SameBuffer s s := ⟨rfl, rfl, rfl, rfl⟩

theorem SameBuffer.trans {s t u : Client F} (hst : SameBuffer s t) (htu : SameBuffer t u) :
    SameBuffer s u :=
  ⟨htu.arrived.trans hst.arrived, htu.received.trans hst.received,
    htu.recvBuffer.trans hst.recvBuffer, htu.waiting.trans hst.waiting⟩

theorem InBuffer.same {s t : Client F} (h : InBuffer s) (hsame : SameBuffer s t) : InBuffer t where
  arrived := by rw [hsame.arrived, hsame.received, hsame.waiting, hsame.recvBuffer, h.arrived]
  single := hsame.waiting ▸ h.single
  size := hsame.arrived ▸ h.size

theorem length?_failed (op : Op) : op.failed.length? = none := by cases op <;> rfl

theorem length?_onClosed (transport : Transport) (op : Op) :
    (op.onClosed transport).length? = none := by
  rcases op.onClosed_cases transport with hfailed | ⟨-, hsent⟩
  · rw [hfailed, length?_failed]
  · rw [hsent]
    rfl

/-- A completion that is put into the queue does not count, unless it is a piece. -/
theorem waiting_append {s : Client F} {completed : List Completion}
    (h : ∀ c ∈ completed, c.length? = none) :
    (s.completed ++ completed).filterMap Completion.length? = s.waiting := by
  rw [List.filterMap_append, List.filterMap_eq_nil_iff.mpr h, List.append_nil]
  rfl

theorem sameBuffer_startOp (op : Op) (s : Client F) : SameBuffer s (startOp op s) := by
  rcases startOp_cases op s with hstart | hstart
  · rw [hstart]
    refine ⟨rfl, rfl, rfl, waiting_append fun c hc => ?_⟩
    rw [List.mem_singleton.mp hc, length?_onClosed]
  · rw [hstart]
    exact ⟨rfl, rfl, rfl, rfl⟩

theorem sameBuffer_reconnect (s : Client F) : SameBuffer s (reconnect s) := by
  unfold reconnect
  split
  · unfold startConnect
    split <;> exact ⟨rfl, rfl, rfl, rfl⟩
  · exact .refl s

theorem sameBuffer_closeSocket (s : Client F) : SameBuffer s (closeSocket s) := by
  refine ⟨rfl, rfl, rfl, waiting_append fun c hc => ?_⟩
  obtain ⟨op, -, rfl⟩ := List.mem_map.mp hc
  exact length?_failed op

theorem sameBuffer_connectionLost (s : Client F) : SameBuffer s (connectionLost s) := by
  unfold connectionLost
  dsimp only
  split
  · obtain ⟨harrived, hreceived, hbuffer, hwaiting⟩ :=
      sameBuffer_closeSocket (post [.message .disconnect] s)
    exact ⟨harrived, hreceived, hbuffer, hwaiting⟩
  · exact ⟨rfl, rfl, rfl, rfl⟩

/-! ## Reading -/

/-- A completion is taken from the queue. -/
theorem waiting_split {s : Client F} {i : Nat} {c : Completion} (hget : s.completed[i]? = some c) :
    ∃ before after, s.waiting = before ++ (c.length?.toList ++ after) ∧
      (s.completed.eraseIdx i).filterMap Completion.length? = before ++ after := by
  obtain ⟨hi, hc⟩ := List.getElem?_eq_some_iff.mp hget
  have hall : s.completed = s.completed.take i ++ c :: s.completed.drop (i + 1) := by
    rw [← hc, ← List.drop_eq_getElem_cons hi, List.take_append_drop]
  refine ⟨(s.completed.take i).filterMap Completion.length?,
    (s.completed.drop (i + 1)).filterMap Completion.length?, ?_, ?_⟩
  · have hwaiting := congrArg (List.filterMap Completion.length?) hall
    rw [List.filterMap_append, List.filterMap_cons] at hwaiting
    rw [waiting, hwaiting]
    cases c.length? <;> rfl
  · rw [List.eraseIdx_eq_take_drop_succ, List.filterMap_append]

/-- A read completes. Nothing that it overwrites waits for its handler. -/
theorem inBuffer_read {s : Client F} {i : Nat} {bytes : List UInt8} {socket : SocketState}
    (h : InBuffer s) (hone : s.readsInFlight ≤ 1) (hget : s.outstanding[i]? = some .read)
    (hlen : bytes.length ≤ recvBufferMaxSize) :
    InBuffer (ended i (.received bytes.length) socket
      (bytes ++ s.recvBuffer.drop bytes.length, s.arrived ++ [bytes]) s) := by
  have hread : 0 < s.outstanding.count .read :=
    List.count_pos_iff.mpr (List.mem_of_getElem? hget)
  have hnone : s.waiting = [] := by
    apply List.eq_nil_of_length_eq_zero
    unfold readsInFlight at hone
    omega
  have hwaiting : (s.completed ++ [Completion.received bytes.length]).filterMap Completion.length?
      = [bytes.length] := by
    rw [List.filterMap_append]
    exact congrArg (· ++ [bytes.length]) hnone
  refine ⟨?_, ?_, fun piece hpiece => ?_⟩
  · show s.arrived ++ [bytes] = s.received
      ++ ((s.completed ++ [Completion.received bytes.length]).filterMap Completion.length?).map
          fun length => (bytes ++ s.recvBuffer.drop bytes.length).take length
    rw [hwaiting, h.arrived, hnone, List.map_nil, List.append_nil, List.map_singleton,
      List.take_left]
  · show ((s.completed ++ [Completion.received bytes.length]).filterMap Completion.length?).length
      ≤ 1
    rw [hwaiting]
    exact Nat.le_refl 1
  · rcases List.mem_append.mp hpiece with hold | hnew
    · exact h.size piece hold
    · rw [List.mem_singleton.mp hnew]
      exact hlen

theorem inBuffer_complete {i : Nat} {outcome : Outcome} {s s' : Client F} (h : InBuffer s)
    (hone : s.readsInFlight ≤ 1) (hs : complete i outcome s = some s') : InBuffer s' := by
  obtain ⟨op, c, socket, buffer, hget, hends, rfl⟩ := ends_of_complete hs
  have hother : c.length? = none → buffer = s.reading →
      InBuffer (ended i c socket buffer s) := by
    rintro hc rfl
    refine h.same ⟨rfl, rfl, rfl, waiting_append fun c' hc' => ?_⟩
    rw [List.mem_singleton.mp hc', hc]
  cases hends with
  | received bytes hlen => exact inBuffer_read h hone hget hlen
  | connected | connectFailed | sent | readFailed | writeFailed => exact hother rfl rfl

/-- A handler that does not read takes its completion from the queue. -/
theorem sameBuffer_taken {s : Client F} {i : Nat} {c : Completion}
    (hget : s.completed[i]? = some c) (hc : c.length? = none) :
    SameBuffer s { s with completed := s.completed.eraseIdx i } := by
  obtain ⟨before, after, hwaiting, herased⟩ := waiting_split hget
  refine ⟨rfl, rfl, rfl, herased.trans ?_⟩
  rw [hwaiting, hc]
  rfl

/-- A handler reads the buffer before it starts the next read, so that what it hands to the
formatter is what has arrived, and nothing is overwritten. -/
theorem inBuffer_handle {i : Nat} {c : Completion} {s s' : Client F} (h : InBuffer s)
    (hget : s.completed[i]? = some c)
    (hs : Handles fmt { s with completed := s.completed.eraseIdx i } c s') : InBuffer s' := by
  cases hs with
  | connected =>
    have hsame := sameBuffer_startOp .read { post [.message .connect] { s with
      completed := s.completed.eraseIdx i
      isConnect := true } with recvLastTimer := s.now }
    exact (h.same (sameBuffer_taken hget rfl)).same
      ⟨hsame.arrived, hsame.received, hsame.recvBuffer, hsame.waiting⟩
  | connectFailed =>
    obtain ⟨harrived, hreceived, hbuffer, hwaiting⟩ := sameBuffer_taken hget rfl
    exact h.same ⟨harrived, hreceived, hbuffer, hwaiting⟩
  | received length r hcall =>
    -- it was the only piece that waited
    obtain ⟨before, after, hwaiting, herased⟩ := waiting_split hget
    have hsingle := h.single
    rw [hwaiting, List.length_append, List.length_append] at hsingle
    have hnil : before = [] ∧ after = [] := by
      constructor <;> refine List.eq_nil_of_length_eq_zero ?_ <;>
        simp only [Completion.length?, Option.toList_some, List.length_singleton] at hsingle <;>
        omega
    obtain ⟨rfl, rfl⟩ := hnil
    have hpiece : s.arrived = s.received ++ [s.recvBuffer.take length] := by
      rw [h.arrived, hwaiting]
      rfl
    have hhanded : InBuffer { post (r.1.map fun p => .message (.packet p)) s with
        completed := s.completed.eraseIdx i
        packetFormat := r.2
        recvLastTimer := s.now
        received := s.received ++ [s.recvBuffer.take length] } := by
      refine ⟨?_, ?_, h.size⟩
      · show s.arrived = s.received ++ [s.recvBuffer.take length]
          ++ ((s.completed.eraseIdx i).filterMap Completion.length?).map
              fun length => s.recvBuffer.take length
        rw [herased, hpiece]
        exact (List.append_nil _).symm
      · show ((s.completed.eraseIdx i).filterMap Completion.length?).length ≤ 1
        rw [herased]
        exact Nat.zero_le 1
    exact hhanded.same (sameBuffer_startOp .read _)
  | readFailed => exact (h.same (sameBuffer_taken hget rfl)).same (sameBuffer_connectionLost _)
  | sentAll =>
    obtain ⟨harrived, hreceived, hbuffer, hwaiting⟩ := sameBuffer_taken hget rfl
    exact h.same ⟨harrived, hreceived, hbuffer, hwaiting⟩
  | sentPart => exact (h.same (sameBuffer_taken hget rfl)).same (sameBuffer_startOp _ _)
  | writeFailed =>
    have hlost := sameBuffer_connectionLost { s with completed := s.completed.eraseIdx i }
    exact (h.same (sameBuffer_taken hget rfl)).same
      ⟨hlost.arrived, hlost.received, hlost.recvBuffer, hlost.waiting⟩

/-- A step with at most one read in flight. -/
theorem inBuffer_step {a : Action} {s s' : Client F} (h : InBuffer s) (hone : s.readsInFlight ≤ 1)
    (hs : step fmt s a = some s') : InBuffer s' := by
  cases does_of_step hs with
  | complete hcomplete => exact inBuffer_complete h hone hcomplete
  | handle hget hhandles => exact inBuffer_handle h hget hhandles
  | message | late | timeCheck | refused | tick => exact h.same ⟨rfl, rfl, rfl, rfl⟩
  | reconnect =>
    have hsame := sameBuffer_reconnect { s with ran := s.ran + 1 }
    exact h.same ⟨hsame.arrived, hsame.received, hsame.recvBuffer, hsame.waiting⟩
  | timeReconnect =>
    have hsame := sameBuffer_reconnect { s with timeoutSession := none }
    exact h.same ⟨hsame.arrived, hsame.received, hsame.recvBuffer, hsame.waiting⟩
  | inTime | unknown => exact h
  | closeClient =>
    have hsame := sameBuffer_closeSocket { s with isClientClose := true }
    exact h.same ⟨hsame.arrived, hsame.received, hsame.recvBuffer, hsame.waiting⟩
  | reconnectServer => exact h.same (sameBuffer_reconnect s)
  | sendData data => exact h.same (sameBuffer_startOp _ s)
  | sendFormatData r =>
    have hsame := sameBuffer_startOp (.write r.1) { s with packetFormat := r.2 }
    exact h.same ⟨hsame.arrived, hsame.received, hsame.recvBuffer, hsame.waiting⟩

theorem inBuffer_start (transport : Transport) (connectId : Nat) (timerCheckSeconds : Int)
    (pf : F) : InBuffer (start transport connectId timerCheckSeconds pf) := by
  unfold start startConnect
  split <;> exact ⟨rfl, Nat.zero_le 1, nofun⟩

end Client

end PssClient
