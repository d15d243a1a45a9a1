import PssClient.Client.Serial
import PssClient.Client.Tty
import PssClient.Lib.Pool

/-!
# The writes of a serial client

`PssClient.Client.Tty` has all of a `CASIOTTYClient` but the bytes that reach the device;
`PssClient.Client.Serial` has these bytes, and of the client only what it does to write them. As
long as the client keeps its port and runs no handler of a read, which changes the formatter, its
writes are those of the second.

* `PortOp.data` / `PortCompletion.written` / `Task.lost` — the part of an operation, of a completion
  and of a task that has to do with a write.
* `Writing` — the condition: the device takes the writes in their order, nothing is read, and the
  port is not opened again.
* `Writes` — the write side has the same writes pending, and the same messages posted.
* `writes_step` / `writes_of_run` — it goes on as the client does.
-/

namespace PssClient

open Machine Pool

/-- The bytes of a write. -/
def PortOp.data : PortOp → Option (List UInt8)
  | .read => none
  | .write data => some data

/-- How a write has ended. -/
def PortCompletion.written : PortCompletion → Option Serial.Completion
  | .received _ | .readFailed => none
  | .sent sendLength => some (.success sendLength)
  | .writeFailed => some .failure

/-- What is posted when a write fails. -/
def Task.lost : Task → Option Serial.Message
  | .message .disconnect => some .disconnect
  | .message _ => none
  | .reconnect => some .reconnect

namespace TtyClient

variable {F : Type*} {fmt : IpacketFormat F}

/-- The step does not open a port and runs no handler of a read, and a write that ends is the one in
front. -/
def Writing (s : TtyClient F) : Action → Prop
  | .complete i _ =>
    (∃ data, s.outstanding[i]? = some (.write data)) →
      (s.outstanding.take i).filterMap PortOp.data = []
  | .handle i => ∀ completion, s.completed[i]? = some completion → completion.written ≠ none
  | .runTask _ => s.posted[s.ran]? ≠ some .reconnect
  | .doCheckTimeout _ _ => s.isConnect = true
  | .reconnectServer _ => False
  | _ => True

/-- The write side is the client's. -/
structure Writes (s : TtyClient F) (t : Serial.SerialSide F) : Prop where
  connectId : t.connectId = s.connectId
  isConnect : t.isConnect = s.isConnect
  portOpen : s.portOpen = s.isConnect
  isClientClose : t.isClientClose = s.isClientClose
  packetFormat : t.packetFormat = s.packetFormat
  queue : t.queue = s.outstanding.filterMap PortOp.data
  completed : t.completed = s.completed.filterMap PortCompletion.written
  posted : t.posted = s.posted.filterMap Task.lost

/-- The port is open, and nothing has been written on it; it may be read. -/
structure Unwritten (s : TtyClient F) : Prop where
  portOpen : s.portOpen = true
  isConnect : s.isConnect = true
  isClientClose : s.isClientClose = false
  queue : s.outstanding.filterMap PortOp.data = []
  completed : s.completed.filterMap PortCompletion.written = []
  posted : s.posted.filterMap Task.lost = []

namespace Writes

variable {s s' : TtyClient F} {t t' : Serial.SerialSide F}

/-- A port on which nothing has been written. -/
theorem opened {s : TtyClient F} (h : Unwritten s) :
    Writes s (Serial.opened s.connectId s.packetFormat) where
  connectId := rfl
  isConnect := h.isConnect.symm
  portOpen := h.portOpen.trans h.isConnect.symm
  isClientClose := h.isClientClose.symm
  packetFormat := rfl
  queue := h.queue.symm
  completed := h.completed.symm
  posted := h.posted.symm

/-- A message to the worker. -/
theorem post (h : Writes s t) (tasks : List Task) :
    Writes (TtyClient.post tasks s) { t with posted := t.posted ++ tasks.filterMap Task.lost } :=
  { h with
    posted := by
      show t.posted ++ tasks.filterMap Task.lost = (s.posted ++ tasks).filterMap Task.lost
      rw [List.filterMap_append, h.posted] }

/-- `do_write_immediately`. -/
theorem doWriteImmediately (h : Writes s t) (data : List UInt8) :
    Writes (TtyClient.doWriteImmediately data s) (Serial.doWriteImmediately data t) := by
  unfold TtyClient.doWriteImmediately Serial.doWriteImmediately
  by_cases hdata : data = []
  · rw [if_pos hdata, if_pos hdata]
    refine { h with completed := ?_ }
    show t.completed ++ [.success 0]
      = (s.completed ++ [PortCompletion.sent 0]).filterMap PortCompletion.written
    rw [List.filterMap_append, h.completed]
    rfl
  · rw [if_neg hdata, if_neg hdata, startOp]
    by_cases hport : s.isConnect = false
    · rw [if_pos (h.portOpen.trans hport), if_pos (h.isConnect.trans hport)]
      refine { h with completed := ?_ }
      show t.completed ++ [.failure]
        = (s.completed ++ [PortCompletion.writeFailed]).filterMap PortCompletion.written
      rw [List.filterMap_append, h.completed]
      rfl
    · rw [if_neg fun hfalse => hport (h.portOpen.symm.trans hfalse),
        if_neg fun hfalse => hport (h.isConnect.symm.trans hfalse)]
      refine { h with queue := ?_ }
      show t.queue ++ [data] = (s.outstanding ++ [PortOp.write data]).filterMap PortOp.data
      rw [List.filterMap_append, h.queue]
      rfl

/-- `close_socket`. The writes that are aborted are all those that are queued. -/
theorem closeSocket (h : Writes s t) : Writes (TtyClient.closeSocket s) (Serial.closeSocket t) := by
  refine { h with
    isConnect := rfl
    portOpen := rfl
    queue := rfl
    completed := ?_ }
  show t.completed ++ t.queue.map (fun _ => Serial.Completion.failure)
    = (s.completed ++ s.outstanding.map PortOp.failed).filterMap PortCompletion.written
  rw [List.filterMap_append, h.completed, h.queue, List.filterMap_map, List.map_filterMap]
  congr 2
  funext op
  cases op <;> rfl

/-- What the handler of a write does with an error. -/
theorem connectionLost (h : Writes s t) :
    Writes (TtyClient.connectionLost s) (Serial.writeHandler .failure t) := by
  have hposted : Writes (TtyClient.post [.message .disconnect] s)
      { t with posted := t.posted ++ [.disconnect] } := h.post [.message .disconnect]
  by_cases hclose : s.isClientClose = false
  · have hlost : TtyClient.connectionLost s = TtyClient.post [.reconnect]
        (TtyClient.closeSocket (TtyClient.post [.message .disconnect] s)) := if_pos hclose
    have hwrite : Serial.writeHandler .failure t
        = Serial.closeSocket { t with posted := t.posted ++ [.disconnect, .reconnect] } :=
      if_pos (h.isClientClose.trans hclose)
    have hclosed := hposted.closeSocket.post [.reconnect]
    rw [hlost, hwrite]
    refine { hclosed with posted := ?_ }
    rw [← hclosed.posted]
    show t.posted ++ [.disconnect, .reconnect] = (t.posted ++ [.disconnect]) ++ [.reconnect]
    rw [List.append_assoc]
    rfl
  · have hlost : TtyClient.connectionLost s = TtyClient.post [.message .disconnect] s :=
      if_neg hclose
    have hwrite : Serial.writeHandler .failure t = { t with posted := t.posted ++ [.disconnect] } :=
      if_neg fun hfalse => hclose (h.isClientClose.symm.trans hfalse)
    rw [hlost, hwrite]
    exact hposted

/-- A handler of a write takes its completion. -/
theorem taken (h : Writes s t) {i : Nat} {completion : PortCompletion}
    {written : Serial.Completion} (hget : s.completed[i]? = some completion)
    (hwritten : completion.written = some written) :
    ∃ j, t.completed[j]? = some written ∧
      Writes { s with completed := s.completed.eraseIdx i }
        { t with completed := t.completed.eraseIdx j } := by
  obtain ⟨j, hj, herase⟩ := filterMap_eraseIdx_of_some hget hwritten
  rw [← h.completed] at hj
  refine ⟨j, hj, { h with completed := ?_ }⟩
  show t.completed.eraseIdx j = (s.completed.eraseIdx i).filterMap PortCompletion.written
  rw [herase, h.completed]

end Writes

/-- The operation in front of the port is the write at `i`. -/
theorem queue_eq_cons {s : TtyClient F} {i : Nat} {data : List UInt8}
    (hget : s.outstanding[i]? = some (.write data))
    (hfront : (s.outstanding.take i).filterMap PortOp.data = []) :
    s.outstanding.filterMap PortOp.data
      = data :: (s.outstanding.eraseIdx i).filterMap PortOp.data := by
  rw [filterMap_eq_append PortOp.data hget, filterMap_eraseIdx, hfront]
  rfl

/-- An operation ends. A write is the transfer, or the failure, of the operation in front on the
write side. The read of the port is not on the write side, where nothing happens. -/
theorem writes_complete {s s' : TtyClient F} {t : Serial.SerialSide F} {i : Nat}
    {outcome : Outcome} (h : Writes s t) (hfront : Writing s (.complete i outcome))
    (hs : complete i outcome s = some s') :
    ∃ bs t', run (Serial.step fmt) t bs = some t' ∧ Writes s' t' := by
  have hread : ∀ completion : PortCompletion, s.outstanding[i]? = some .read →
      completion.written = none → Writes { s with
        outstanding := s.outstanding.eraseIdx i
        completed := s.completed ++ [completion] } t := by
    intro completion hget hnone
    refine { h with queue := ?_, completed := ?_ }
    · exact h.queue.trans (filterMap_eraseIdx_of_none hget rfl).symm
    · show t.completed = (s.completed ++ [completion]).filterMap PortCompletion.written
      rw [List.filterMap_append, h.completed, List.filterMap_cons_none hnone]
      exact (List.append_nil _).symm
  have hwrite : ∀ (data : List UInt8) (completion : PortCompletion) (written : Serial.Completion)
      (wire : List UInt8), s.outstanding[i]? = some (.write data) →
      completion.written = some written → Writes { s with
        outstanding := s.outstanding.eraseIdx i
        completed := s.completed ++ [completion] }
        { t with
          queue := (s.outstanding.eraseIdx i).filterMap PortOp.data
          completed := t.completed ++ [written]
          wire := wire } := by
    intro data completion written wire hget hsome
    refine { h with queue := rfl, completed := ?_ }
    show t.completed ++ [written] = (s.completed ++ [completion]).filterMap PortCompletion.written
    rw [List.filterMap_append, h.completed, List.filterMap_cons_some hsome]
    rfl
  have hqueue : ∀ data, s.outstanding[i]? = some (.write data) →
      t.queue = data :: (s.outstanding.eraseIdx i).filterMap PortOp.data := fun data hget =>
    h.queue.trans (queue_eq_cons hget (hfront ⟨data, hget⟩))
  unfold complete at hs
  split at hs
  case h_1 bytes hget =>
    obtain ⟨-, heq⟩ := Option.ite_none_right_eq_some.mp hs
    exact ⟨[], t, rfl, Option.some.inj heq ▸ hread (.received bytes) hget rfl⟩
  case h_2 data sendLength hget =>
    obtain ⟨hlength, heq⟩ := Option.ite_none_right_eq_some.mp hs
    have hstep : Serial.step fmt t (.transfer sendLength) = some { t with
        queue := (s.outstanding.eraseIdx i).filterMap PortOp.data
        completed := t.completed ++ [.success sendLength]
        wire := t.wire ++ data.take sendLength } := by
      show Serial.transfer sendLength t = _
      rw [Serial.transfer, hqueue data hget]
      exact if_pos hlength
    exact ⟨[.transfer sendLength], _, run_singleton hstep,
      Option.some.inj heq ▸ hwrite data (.sent sendLength) _ _ hget rfl⟩
  case h_3 op hget =>
    obtain rfl := Option.some.inj hs
    cases op with
    | read => exact ⟨[], t, rfl, hread .readFailed hget rfl⟩
    | write data =>
      have hstep : Serial.step fmt t .fail = some { t with
          queue := (s.outstanding.eraseIdx i).filterMap PortOp.data
          completed := t.completed ++ [.failure] } := by
        rw [Serial.step, hqueue data hget]
      exact ⟨[.fail], _, run_singleton hstep, hwrite data .writeFailed _ _ hget rfl⟩
  case h_4 => cases hs

/-- The handler of a write runs. -/
theorem writes_handle {s s' : TtyClient F} {t : Serial.SerialSide F} {i : Nat}
    {completion : PortCompletion} (h : Writes s t) (hget : s.completed[i]? = some completion)
    (hof : completion.written ≠ none)
    (hs : handler fmt completion { s with completed := s.completed.eraseIdx i } = some s') :
    ∃ bs t', run (Serial.step fmt) t bs = some t' ∧ Writes s' t' := by
  obtain ⟨written, hwritten⟩ := Option.ne_none_iff_exists'.mp hof
  obtain ⟨j, hj, htaken⟩ := h.taken hget hwritten
  have hstep : Serial.step fmt t (.handler j)
      = some (Serial.writeHandler written { t with completed := t.completed.eraseIdx j }) := by
    rw [Serial.step, hj]
    rfl
  refine ⟨[.handler j], _, run_singleton hstep, ?_⟩
  cases completion with
  | received bytes => cases hwritten
  | readFailed => cases hwritten
  | sent sendLength =>
    obtain rfl := Option.some.inj hs
    obtain rfl := Option.some.inj hwritten
    exact { htaken with }
  | writeFailed =>
    obtain rfl := Option.some.inj hs
    obtain rfl := Option.some.inj hwritten
    exact { htaken.connectionLost with }

/-- **A step of the client is at most one of its write side.** -/
theorem writes_step {s s' : TtyClient F} {t : Serial.SerialSide F} {a : Action} (h : Writes s t)
    (hwriting : Writing s a) (hs : step fmt s a = some s') :
    ∃ bs t', run (Serial.step fmt) t bs = some t' ∧ Writes s' t' := by
  obtain ⟨-, hs⟩ := Option.ite_none_left_eq_some.mp hs
  cases a with
  | complete i outcome => exact writes_complete h hwriting hs
  | handle i =>
    obtain ⟨completion, hget, hhandler⟩ := Option.bind_eq_some_iff.mp hs
    exact writes_handle h hget (hwriting completion hget) hhandler
  | runTask d =>
    obtain ⟨task, hget, rfl⟩ := Option.map_eq_some_iff.mp hs
    cases task with
    | message e => exact ⟨[], t, rfl, { h with }⟩
    | reconnect => exact absurd hget hwriting
  | doCheckTimeout seconds d =>
    obtain rfl := Option.some.inj hs
    have hcheck : doCheckTimeout seconds d s
        = (.ok (), { s with messages := s.messages ++ [.timeCheck seconds] }) := if_pos hwriting
    rw [hcheck]
    exact ⟨[], t, rfl, { h with }⟩
  | reconnectServer d => exact hwriting.elim
  | clientSendData sendBuff sendSize =>
    obtain ⟨data, hdata, rfl⟩ := Option.map_eq_some_iff.mp hs
    have hstep : Serial.step fmt t (.clientSendData sendBuff sendSize)
        = some (Serial.doWriteImmediately data t) := by
      rw [Serial.step, hdata]
      rfl
    exact ⟨[.clientSendData sendBuff sendSize], _, run_singleton hstep, h.doWriteImmediately data⟩
  | clientSendFormatData commandId sendBuff sendSize =>
    by_cases hconnect : s.isConnect = false
    · -- nothing is formatted without a connection
      have hrefuse : doWriteFormatData fmt commandId sendBuff sendSize s
          = some (post [.message .disconnect] s) := if_pos hconnect
      obtain rfl := Option.some.inj (hrefuse.symm.trans hs)
      have hstep : Serial.step fmt t (.clientSendFormatData commandId sendBuff sendSize)
          = some { t with posted := t.posted ++ [.disconnect] } :=
        if_pos (h.isConnect.trans hconnect)
      exact ⟨[.clientSendFormatData commandId sendBuff sendSize], _, run_singleton hstep,
        h.post [.message .disconnect]⟩
    · have hformat : doWriteFormatData fmt commandId sendBuff sendSize s
          = (formatted fmt s.connectId commandId sendBuff sendSize s.packetFormat).map fun r =>
            doWriteImmediately r.1 { s with packetFormat := r.2 } := if_neg hconnect
      obtain ⟨r, hr, rfl⟩ := Option.map_eq_some_iff.mp (hformat.symm.trans hs)
      have hstep : Serial.step fmt t (.clientSendFormatData commandId sendBuff sendSize)
          = some (Serial.doWriteImmediately r.1 { t with packetFormat := r.2 }) := by
        show Serial.doWriteFormatData fmt commandId sendBuff sendSize t = _
        rw [Serial.doWriteFormatData, if_neg fun hfalse => hconnect (h.isConnect.symm.trans hfalse),
          h.connectId, h.packetFormat, hr]
        rfl
      have hformatted : Writes { s with packetFormat := r.2 } { t with packetFormat := r.2 } :=
        { h with packetFormat := rfl }
      exact ⟨[.clientSendFormatData commandId sendBuff sendSize], _, run_singleton hstep,
        hformatted.doWriteImmediately r.1⟩
  | closeClient =>
    obtain rfl := Option.some.inj hs
    have hclosing : Writes { s with isClientClose := true } { t with isClientClose := true } :=
      { h with isClientClose := rfl }
    exact ⟨[.closeClient], _, run_singleton rfl, hclosing.closeSocket⟩
  | tick d =>
    obtain rfl := Option.some.inj hs
    exact ⟨[], t, rfl, { h with }⟩

/-- **The write side of a serial client.** From an open port on which nothing has been written,
every run of the client that keeps the port and reads nothing is a run of its write side. -/
theorem writes_of_run {s s' : TtyClient F} {as : List Action} (h : Unwritten s)
    (hwriting : Meets (step fmt) Writing s as) (hrun : run (step fmt) s as = some s') :
    ∃ bs t, run (Serial.step fmt) (Serial.opened s.connectId s.packetFormat) bs = some t ∧
      Writes s' t :=
  follows_run Writes (fun _ _ _ _ h hwriting hs => writes_step h hwriting hs) (.opened h) hwriting
    hrun

end TtyClient

end PssClient
