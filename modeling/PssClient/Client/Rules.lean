import PssClient.Client.Machine

/-!
# What a step of a client does

The rules that `step` follows: how an operation ends, what the handler of a completion does, and
what each action does with the condition under which it is taken. The invariants are proved by
cases on these.

* `EndsAs` / `ends_of_complete` — the end of an operation.
* `Handles` / `handles_of_handler` — the handlers.
* `Does` / `does_of_step` — any action.
-/

namespace PssClient

namespace Client

variable {F : Type*} {fmt : IpacketFormat F}

/-- An operation is outstanding or, on a closed socket, has completed. -/
theorem startOp_cases (op : Op) (s : Client F) :
    startOp op s = { s with completed := s.completed ++ [op.onClosed s.transport] } ∨
      startOp op s = { s with outstanding := s.outstanding ++ [op] } := by
  unfold startOp
  split
  case isTrue => exact .inl rfl
  case isFalse => exact .inr rfl

theorem onClosed_ne_connected (op : Op) (transport : Transport) :
    op.onClosed transport ≠ .connected := by
  rcases op.onClosed_cases transport with hfailed | ⟨-, hsent⟩
  · rw [hfailed]
    cases op <;> exact nofun
  · rw [hsent]
    exact nofun

/-- `recv_buffer`, and the pieces that have come out of the reads. -/
def reading (s : Client F) : List UInt8 × List (List UInt8) := (s.recvBuffer, s.arrived)

/-- The operation at `i` has ended with `c`. -/
def ended (i : Nat) (c : Completion) (socket : SocketState)
    (buffer : List UInt8 × List (List UInt8)) (s : Client F) : Client F :=
  { s with
    outstanding := s.outstanding.eraseIdx i
    completed := s.completed ++ [c]
    socket := socket
    recvBuffer := buffer.1
    arrived := buffer.2 }

/-- The completions of an operation, with the state that the socket and the buffer are left in. -/
inductive EndsAs (s : Client F) :
    Op → Completion → SocketState → List UInt8 × List (List UInt8) → Prop
  | connected : EndsAs s (.connect false) .connected .connected s.reading
  | connectFailed (doomed : Bool) :
    EndsAs s (.connect doomed) .connectFailed
      (if doomed = false ∧ s.transport = .tcp then .opened else s.socket) s.reading
  | received (bytes : List UInt8) (hlen : bytes.length ≤ recvBufferMaxSize)
      (hne : s.transport = .tcp → bytes ≠ []) :
    EndsAs s .read (.received bytes.length) s.socket
      (bytes ++ s.recvBuffer.drop bytes.length, s.arrived ++ [bytes])
  | sent (rest : List UInt8) (sendLength : Nat) (hle : sendLength ≤ rest.length)
      (hpos : rest ≠ [] → 0 < sendLength) (hwhole : s.transport = .udp → sendLength = rest.length) :
    EndsAs s (.write rest) (.sent rest sendLength) s.socket s.reading
  | readFailed : EndsAs s .read .readFailed s.socket s.reading
  | writeFailed (rest : List UInt8) : EndsAs s (.write rest) .writeFailed s.socket s.reading

theorem ends_of_complete {i : Nat} {outcome : Outcome} {s s' : Client F}
    (h : complete i outcome s = some s') :
    ∃ op c socket buffer, s.outstanding[i]? = some op ∧ EndsAs s op c socket buffer ∧
      s' = ended i c socket buffer s := by
  unfold complete at h
  split at h
  case h_1 hop => exact ⟨_, _, _, _, hop, .connected, (Option.some.inj h).symm⟩
  case h_2 doomed hop => exact ⟨_, _, _, _, hop, .connectFailed doomed, (Option.some.inj h).symm⟩
  case h_3 bytes hop =>
    obtain ⟨⟨hlen, hne⟩, heq⟩ := Option.ite_none_right_eq_some.mp h
    exact ⟨_, _, _, _, hop, .received bytes hlen hne, (Option.some.inj heq).symm⟩
  case h_4 rest sendLength hop =>
    obtain ⟨⟨hle, hpos, hwhole⟩, heq⟩ := Option.ite_none_right_eq_some.mp h
    exact ⟨_, _, _, _, hop, .sent rest sendLength hle hpos hwhole, (Option.some.inj heq).symm⟩
  case h_5 hop => exact ⟨_, _, _, _, hop, .readFailed, (Option.some.inj h).symm⟩
  case h_6 rest hop => exact ⟨_, _, _, _, hop, .writeFailed rest, (Option.some.inj h).symm⟩
  case h_7 => cases h

/-- What the handler of a completion does. -/
inductive Handles (fmt : IpacketFormat F) (s : Client F) : Completion → Client F → Prop
  | connected :
    Handles fmt s .connected (doRead
      { post [.message .connect] { s with isConnect := true } with recvLastTimer := s.now })
  | connectFailed :
    Handles fmt s .connectFailed (post [.message .disconnect] { s with isConnect := false })
  | received (length : Nat) (r : List CrecvPacket × F)
      (hcall : fmt.formatRecvBuffer s.connectId (s.recvBuffer.take length) s.packetFormat
        = some r) :
    Handles fmt s (.received length) (doRead { post (r.1.map fun p => .message (.packet p)) s with
      packetFormat := r.2
      recvLastTimer := s.now
      received := s.received ++ [s.recvBuffer.take length] })
  | readFailed : Handles fmt s .readFailed (connectionLost s)
  | sentAll (rest : List UInt8) (sendLength : Nat) (hdone : rest.drop sendLength = []) :
    Handles fmt s (.sent rest sendLength) (setWriteTime s)
  | sentPart (rest : List UInt8) (sendLength : Nat) (hrest : rest.drop sendLength ≠ []) :
    Handles fmt s (.sent rest sendLength) (startOp (.write (rest.drop sendLength)) s)
  | writeFailed : Handles fmt s .writeFailed (setWriteTime (connectionLost s))

theorem handles_of_handler {c : Completion} {s s' : Client F} (h : handler fmt c s = some s') :
    Handles fmt s c s' := by
  cases c with
  | connected => exact Option.some.inj h ▸ .connected
  | connectFailed => exact Option.some.inj h ▸ .connectFailed
  | received length =>
    obtain ⟨r, hcall, rfl⟩ := Option.map_eq_some_iff.mp h
    exact .received length r hcall
  | readFailed => exact Option.some.inj h ▸ .readFailed
  | sent rest sendLength =>
    unfold handler at h
    dsimp only at h
    split at h
    case isTrue hdone => exact Option.some.inj h ▸ .sentAll rest sendLength hdone
    case isFalse hrest => exact Option.some.inj h ▸ .sentPart rest sendLength hrest
  | writeFailed => exact Option.some.inj h ▸ .writeFailed

/-- The calls of the manager that look for the entry of the client. -/
def Action.looksUp : Action → Bool
  | .closeClient | .reconnectServer | .clientSendData _ _ | .clientSendFormatData _ _ _ => true
  | _ => false

/-- What an action does, and when it can be taken. -/
inductive Does (fmt : IpacketFormat F) (s : Client F) : Action → Client F → Prop
  | complete {i : Nat} {outcome : Outcome} {s' : Client F}
      (hcomplete : complete i outcome s = some s') : Does fmt s (.complete i outcome) s'
  | handle {i : Nat} {c : Completion} {s' : Client F} (hget : s.completed[i]? = some c)
      (hhandler : Handles fmt { s with completed := s.completed.eraseIdx i } c s') :
    Does fmt s (.handle i) s'
  | message (e : Event) (hget : s.posted[s.ran]? = some (.message e)) :
    Does fmt s .runTask { s with ran := s.ran + 1, messages := s.messages ++ [e] }
  | reconnect (hget : s.posted[s.ran]? = some .reconnect) :
    Does fmt s .runTask (reconnect { s with ran := s.ran + 1 })
  | late (hidle : s.timeoutSession = none) (hreg : s.registered = true)
      (hlate : s.getTimePassSeconds > s.timerCheckSeconds) :
    Does fmt s .timerSnapshot { s with timeoutSession := some s.getTimePassSeconds }
  | inTime (hidle : s.timeoutSession = none)
      (hlate : ¬ (s.registered = true ∧ s.getTimePassSeconds > s.timerCheckSeconds)) :
    Does fmt s .timerSnapshot s
  | timeCheck (seconds : Int) (hsession : s.timeoutSession = some seconds)
      (hflag : s.isConnect = true) :
    Does fmt s .timerCheck
      { s with timeoutSession := none, messages := s.messages ++ [.timeCheck seconds] }
  | timeReconnect (seconds : Int) (hsession : s.timeoutSession = some seconds)
      (hflag : s.isConnect = false) :
    Does fmt s .timerCheck (Client.reconnect { s with timeoutSession := none })
  | closeClient (hreg : s.registered = true) :
    Does fmt s .closeClient { closeClientSocket s with registered := false }
  | reconnectServer (hreg : s.registered = true) :
    Does fmt s .reconnectServer (Client.reconnect s)
  | sendData {sendBuff : List UInt8} {sendSize : Nat} (data : List UInt8)
      (hreg : s.registered = true) (hdata : CpacketFormat.cStrRead sendBuff sendSize = some data) :
    Does fmt s (.clientSendData sendBuff sendSize) (startOp (.write data) s)
  | refused {commandId : Int16} {sendBuff : List UInt8} {sendSize : Nat}
      (hreg : s.registered = true) (hclosed : s.transport = .tcp ∧ s.isConnect = false) :
    Does fmt s (.clientSendFormatData commandId sendBuff sendSize)
      (post [.message .disconnect] s)
  | sendFormatData {commandId : Int16} {sendBuff : List UInt8} {sendSize : Nat}
      (r : List UInt8 × F) (hreg : s.registered = true)
      (hopen : ¬ (s.transport = .tcp ∧ s.isConnect = false))
      (hformat : formatted fmt s.connectId commandId sendBuff sendSize s.packetFormat = some r) :
    Does fmt s (.clientSendFormatData commandId sendBuff sendSize)
      (startOp (.write r.1) { s with packetFormat := r.2 })
  | unknown {a : Action} (hreg : ¬ s.registered = true) (ha : a.looksUp = true) : Does fmt s a s
  | tick (d : Int) : Does fmt s (.tick d) { s with now := s.now + d }

/-- The inversion of `step`. The proofs about what a step preserves go by cases on `Does` and do not
unfold it again. -/
theorem does_of_step {a : Action} {s s' : Client F} (h : step fmt s a = some s') :
    Does fmt s a s' := by
  cases a with
  | complete i outcome => exact .complete h
  | handle i =>
    obtain ⟨c, hget, hhandler⟩ := Option.bind_eq_some_iff.mp h
    exact .handle hget (handles_of_handler hhandler)
  | runTask =>
    obtain ⟨task, hget, rfl⟩ := Option.map_eq_some_iff.mp h
    cases task with
    | message e => exact .message e hget
    | reconnect => exact .reconnect hget
  | timerSnapshot =>
    simp only [step, timerSnapshot] at h
    split at h
    case isTrue => cases h
    case isFalse hsession =>
      have hidle : s.timeoutSession = none := Option.not_isSome_iff_eq_none.mp hsession
      split at h
      case isTrue hlate => exact Option.some.inj h ▸ .late hidle hlate.1 hlate.2
      case isFalse hlate => exact Option.some.inj h ▸ .inTime hidle hlate
  | timerCheck =>
    obtain ⟨seconds, hsession, rfl⟩ := Option.map_eq_some_iff.mp h
    unfold doCheckTimeout
    split
    case isTrue hflag => exact .timeCheck seconds hsession hflag
    case isFalse hflag => exact .timeReconnect seconds hsession (Bool.eq_false_iff.mpr hflag)
  | closeClient =>
    obtain rfl := Option.some.inj h
    unfold closeClient
    split
    case isTrue hreg => exact .closeClient hreg
    case isFalse hreg => exact .unknown hreg rfl
  | reconnectServer =>
    obtain rfl := Option.some.inj h
    unfold reconnectServer
    split
    case isTrue hreg => exact .reconnectServer hreg
    case isFalse hreg => exact .unknown hreg rfl
  | clientSendData sendBuff sendSize =>
    simp only [step, clientSendData] at h
    split at h
    case isTrue hreg =>
      obtain ⟨data, hdata, rfl⟩ := Option.map_eq_some_iff.mp h
      exact .sendData data hreg hdata
    case isFalse hreg =>
      exact Option.some.inj h ▸ .unknown hreg rfl
  | clientSendFormatData commandId sendBuff sendSize =>
    simp only [step, clientSendFormatData, doWriteFormatData] at h
    split at h
    case isTrue hreg =>
      split at h
      case isTrue hclosed => exact Option.some.inj h ▸ .refused hreg hclosed
      case isFalse hopen =>
        obtain ⟨r, hformat, rfl⟩ := Option.map_eq_some_iff.mp h
        exact .sendFormatData r hreg hopen hformat
    case isFalse hreg =>
      exact Option.some.inj h ▸ .unknown hreg rfl
  | tick d => exact Option.some.inj h ▸ .tick d

end Client

end PssClient
