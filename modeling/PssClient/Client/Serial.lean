import PssClient.Client.WriteQueue

/-!
# Writing to a serial port

`CASIOTTYClient` writes with `async_write_some`, which may take only a part of its buffer, and its
handler does not look at `send_length`. `CASIOClient` has `async_write` in the same place.

* `SerialSide` / `step` — the operations on the port, the completions whose handlers have not run,
  and the bytes that the device has got.
* `Sequential` — the runs in question: every call is made when the handler of the one before has
  run, and every write succeeds.
* `lacking` — how many bytes of the messages are neither with the device nor still to be written. It
  never falls, and grows at every transfer that is not whole.
* `wire_eq_issued_iff` — the result. `socket_wire_eq_issued` has the bytes of a socket next to it.
-/

namespace PssClient.Serial

open Machine

/-- How an operation has ended. -/
inductive Completion
  | success (sendLength : Nat)
  | failure

/-- What is posted to the worker. -/
inductive Message
  | disconnect
  | reconnect
  deriving DecidableEq

/-- The write side of a `CASIOTTYClient`. The port is open as long as `is_connect_` is set. -/
structure SerialSide (F : Type*) where
  connectId : Nat
  isConnect : Bool
  isClientClose : Bool := false
  packetFormat : F
  -- the `async_write_some` operations on the port, first in first out
  queue : List (List UInt8) := []
  -- those that have completed; the handler has not run
  completed : List Completion := []
  posted : List Message := []
  wire : List UInt8 := []
  -- the messages of all the calls, in call order
  issued : List UInt8 := []

/-- What can happen next on the write side: a call of the library, and what the device and the I/O
thread do with a write that is outstanding. Calls and completions come in any order. -/
inductive Action
  | clientSendData (sendBuff : List UInt8) (sendSize : Nat)
  | clientSendFormatData (commandId : Int16) (sendBuff : List UInt8) (sendSize : Nat)
  /-- The device takes `n` bytes of the operation in front, which has completed by this. -/
  | transfer (n : Nat)
  /-- The operation in front fails. -/
  | fail
  /-- The handler of a completed operation runs. -/
  | handler (i : Nat)
  | closeClient

variable {F : Type*}

/-- `do_write_immediately`. An operation without bytes completes at once, and so does one on a port
that is closed. -/
def doWriteImmediately (data : List UInt8) (s : SerialSide F) : SerialSide F :=
  if data = [] then { s with completed := s.completed ++ [.success 0] }
  else if s.isConnect = false then
    { s with completed := s.completed ++ [.failure], issued := s.issued ++ data }
  else { s with queue := s.queue ++ [data], issued := s.issued ++ data }

/-- `do_write_format_data`. Without a connection only a message is posted. -/
def doWriteFormatData (fmt : IpacketFormat F) (commandId : Int16) (data : List UInt8)
    (length : Nat) (s : SerialSide F) : Option (SerialSide F) :=
  if s.isConnect = false then some { s with posted := s.posted ++ [.disconnect] }
  else (formatted fmt s.connectId commandId data length s.packetFormat).map fun r =>
    doWriteImmediately r.1 { s with packetFormat := r.2 }

/-- `close_socket`. What is on the port is aborted. -/
def closeSocket (s : SerialSide F) : SerialSide F :=
  { s with
    isConnect := false
    queue := []
    completed := s.completed ++ s.queue.map fun _ => .failure }

/-- The handler of `do_write_immediately`. -/
def writeHandler (completion : Completion) (s : SerialSide F) : SerialSide F :=
  match completion with
  | .success _ => s
  | .failure =>
    if s.isClientClose = false then
      closeSocket { s with posted := s.posted ++ [.disconnect, .reconnect] }
    else { s with posted := s.posted ++ [.disconnect] }

/-- The operation in front transfers `n` bytes. -/
def transfer (n : Nat) (s : SerialSide F) : Option (SerialSide F) :=
  match s.queue with
  | [] => none
  | buffer :: queue =>
    if 0 < n ∧ n ≤ buffer.length then
      some { s with
        queue := queue
        completed := s.completed ++ [.success n]
        wire := s.wire ++ buffer.take n }
    else none

def step (fmt : IpacketFormat F) (s : SerialSide F) : Action → Option (SerialSide F)
  | .clientSendData sendBuff sendSize =>
    (CpacketFormat.cStrRead sendBuff sendSize).map fun data => doWriteImmediately data s
  | .clientSendFormatData commandId sendBuff sendSize =>
    doWriteFormatData fmt commandId sendBuff sendSize s
  | .transfer n => transfer n s
  | .fail =>
    match s.queue with
    | [] => none
    | _ :: queue => some { s with queue := queue, completed := s.completed ++ [.failure] }
  | .handler i =>
    s.completed[i]?.map fun completion =>
      writeHandler completion { s with completed := s.completed.eraseIdx i }
  | .closeClient => some (closeSocket { s with isClientClose := true })

/-- An open port on which nothing has been written. -/
def opened (connectId : Nat) (pf : F) : SerialSide F where
  connectId := connectId
  isConnect := true
  packetFormat := pf

/-- Every call is made when the handler of the one before has run; every write succeeds, and the
client is not closed. -/
def Sequential (s : SerialSide F) : Action → Prop
  | .clientSendData _ _ | .clientSendFormatData _ _ _ => s.queue = [] ∧ s.completed = []
  | .fail | .closeClient => False
  | .transfer _ | .handler _ => True

/-- A transfer takes all the bytes that it is given. -/
def Whole (s : SerialSide F) : Action → Prop
  | .transfer n => ∀ buffer queue, s.queue = buffer :: queue → n = buffer.length
  | _ => True

/-- The port is open, and no operation has failed. -/
structure Open (s : SerialSide F) : Prop where
  isConnect : s.isConnect = true
  completed : .failure ∉ s.completed

theorem open_opened (connectId : Nat) (pf : F) : Open (opened connectId pf) :=
  ⟨rfl, List.not_mem_nil⟩

/-- What a step of a sequential run does. -/
inductive Effect (s : SerialSide F) (a : Action) (s' : SerialSide F) : Prop
  /-- A message is behind what is queued; it may be empty. -/
  | write (data : List UInt8) (hqueue : s'.queue.flatten = s.queue.flatten ++ data)
      (hissued : s'.issued = s.issued ++ data) (hwire : s'.wire = s.wire) (hwhole : Whole s a)
  | transfer (buffer : List UInt8) (queue : List (List UInt8)) (n : Nat) (ha : a = .transfer n)
      (hn : n ≤ buffer.length) (hqueue : s.queue = buffer :: queue) (hqueue' : s'.queue = queue)
      (hissued : s'.issued = s.issued) (hwire : s'.wire = s.wire ++ buffer.take n)

theorem effect_doWriteImmediately {s : SerialSide F} {a : Action} (h : Open s) (data : List UInt8)
    (hwhole : Whole s a) :
    Open (doWriteImmediately data s) ∧ Effect s a (doWriteImmediately data s) := by
  have hconnect : ¬ s.isConnect = false := by simp [h.isConnect]
  unfold doWriteImmediately
  rw [if_neg hconnect]
  by_cases hdata : data = []
  · subst hdata
    rw [if_pos rfl]
    refine ⟨⟨h.isConnect, ?_⟩,
      .write [] (List.append_nil _).symm (List.append_nil _).symm rfl hwhole⟩
    show Completion.failure ∉ s.completed ++ [.success 0]
    simpa using h.completed
  · rw [if_neg hdata]
    refine ⟨⟨h.isConnect, h.completed⟩, .write data ?_ rfl rfl hwhole⟩
    show (s.queue ++ [data]).flatten = s.queue.flatten ++ data
    rw [List.flatten_append, List.flatten_singleton]

theorem effect_transfer {s s' : SerialSide F} {n : Nat} (h : Open s)
    (hs : transfer n s = some s') : Open s' ∧ Effect s (.transfer n) s' := by
  unfold transfer at hs
  split at hs
  case h_1 => cases hs
  case h_2 buffer queue hqueue =>
    split at hs
    case isTrue hn =>
      obtain rfl := Option.some.inj hs
      refine ⟨⟨h.isConnect, ?_⟩, .transfer buffer queue n rfl hn.2 hqueue rfl rfl rfl⟩
      show Completion.failure ∉ s.completed ++ [.success n]
      simpa using h.completed
    case isFalse => cases hs

/-- What a step of a sequential run does. Since each call waits for the one before, at most one
write is outstanding, and no handler finds another write behind its own. -/
theorem effect_of_step {fmt : IpacketFormat F} {s s' : SerialSide F} {a : Action} (h : Open s)
    (hsequential : Sequential s a) (hs : step fmt s a = some s') : Open s' ∧ Effect s a s' := by
  cases a with
  | clientSendData sendBuff sendSize =>
    obtain ⟨data, -, rfl⟩ := Option.map_eq_some_iff.mp hs
    exact effect_doWriteImmediately h data trivial
  | clientSendFormatData commandId sendBuff sendSize =>
    have hconnect : ¬ s.isConnect = false := by simp [h.isConnect]
    simp only [step, doWriteFormatData, if_neg hconnect] at hs
    obtain ⟨r, -, rfl⟩ := Option.map_eq_some_iff.mp hs
    -- the formatter's state is not part of what is written
    have hopen : Open { s with packetFormat := r.2 } := ⟨h.isConnect, h.completed⟩
    obtain ⟨hopen', heffect⟩ := effect_doWriteImmediately
      (a := .clientSendFormatData commandId sendBuff sendSize) hopen r.1 trivial
    refine ⟨hopen', ?_⟩
    cases heffect with
    | write data hqueue hissued hwire _ => exact .write data hqueue hissued hwire trivial
    | transfer _ _ _ ha => cases ha
  | transfer n => exact effect_transfer h hs
  | fail => exact hsequential.elim
  | handler i =>
    obtain ⟨completion, hget, rfl⟩ := Option.map_eq_some_iff.mp hs
    cases completion with
    | success n =>
      refine ⟨⟨h.isConnect, fun hmem => h.completed (List.mem_of_mem_eraseIdx hmem)⟩, ?_⟩
      exact .write [] (List.append_nil _).symm (List.append_nil _).symm rfl trivial
    | failure => exact absurd (List.mem_of_getElem? hget) h.completed
  | closeClient => exact hsequential.elim

/-! ## Bytes that are lost -/

/-- How many bytes of the messages are neither with the device nor on the port. -/
def lacking (s : SerialSide F) : Int :=
  s.issued.length - s.wire.length - s.queue.flatten.length

/-- What is with the device and what is on the port are the messages in call order. -/
def InOrder (s : SerialSide F) : Prop := s.wire ++ s.queue.flatten = s.issued

theorem lacking_step {s s' : SerialSide F} {a : Action} (h : Effect s a s') :
    lacking s ≤ lacking s' ∧ (lacking s' = lacking s → Whole s a) := by
  cases h with
  | write data hqueue hissued hwire hwhole =>
    have heq : lacking s' = lacking s := by
      unfold lacking
      rw [hqueue, hissued, hwire, List.length_append, List.length_append]
      omega
    exact ⟨heq.ge, fun _ => hwhole⟩
  | transfer buffer queue n ha hn hqueue hqueue' hissued hwire =>
    have heq : lacking s' = lacking s + (buffer.length - n) := by
      unfold lacking
      rw [hqueue, hqueue', hissued, hwire, List.flatten_cons, List.length_append,
        List.length_append, List.length_take_of_le hn]
      omega
    refine ⟨by omega, fun hsame => ?_⟩
    subst ha
    intro buffer' queue'' hfront
    obtain ⟨rfl, -⟩ := List.cons.inj (hqueue.symm.trans hfront)
    omega

theorem inOrder_step {s s' : SerialSide F} {a : Action} (h : InOrder s) (heffect : Effect s a s')
    (hwhole : Whole s a) : InOrder s' := by
  unfold InOrder at h ⊢
  cases heffect with
  | write data hqueue hissued hwire =>
    rw [hqueue, hissued, hwire, ← List.append_assoc, h]
  | transfer buffer queue n ha hn hqueue hqueue' hissued hwire =>
    subst ha
    have hall : n = buffer.length := hwhole buffer queue hqueue
    rw [hissued, hwire, hqueue', hall, List.take_length, List.append_assoc, ← h, hqueue,
      List.flatten_cons]

/-- A sequential run that ends with no more bytes lacking has had no transfer fall short. Induction
on the run. -/
theorem lacking_run {fmt : IpacketFormat F} {as : List Action} {s t : SerialSide F} (h : Open s)
    (hsequential : Meets (step fmt) Sequential s as) (hrun : run (step fmt) s as = some t) :
    lacking s ≤ lacking t ∧ (lacking t = lacking s → Meets (step fmt) Whole s as) := by
  induction as generalizing s with
  | nil =>
    obtain rfl := Option.some.inj hrun
    exact ⟨le_rfl, fun _ => trivial⟩
  | cons a as ih =>
    obtain ⟨s', hs, hrest⟩ := run_cons.mp hrun
    obtain ⟨hopen, heffect⟩ := effect_of_step h hsequential.1 hs
    obtain ⟨hstep, hwhole⟩ := lacking_step heffect
    obtain ⟨hle, hmeets⟩ := ih hopen (hsequential.2 s' hs) hrest
    refine ⟨hstep.trans hle, fun hsame => ?_⟩
    exact meets_cons (hwhole (by omega)) hs (hmeets (by omega))

theorem inOrder_run {fmt : IpacketFormat F} {as : List Action} {s t : SerialSide F} (h : Open s)
    (horder : InOrder s) (hsequential : Meets (step fmt) Sequential s as)
    (hwhole : Meets (step fmt) Whole s as) (hrun : run (step fmt) s as = some t) : InOrder t :=
  (invariant_of_meets (fun s => Open s ∧ InOrder s)
    (fun _ _ _ hI hG hs =>
      have heffect := effect_of_step hI.1 hG.1 hs
      ⟨heffect.1, inOrder_step hI.2 heffect.2 hG.2⟩)
    ⟨h, horder⟩ (hsequential.and hwhole) hrun).2

/-- When every call has been made after the one before was through, and the last is through, the
device has got the messages exactly if every transfer has taken all the bytes it was given. -/
theorem wire_eq_issued_iff {fmt : IpacketFormat F} {connectId : Nat} {pf : F} {as : List Action}
    {s : SerialSide F} (hsequential : Meets (step fmt) Sequential (opened connectId pf) as)
    (hrun : run (step fmt) (opened connectId pf) as = some s) (hidle : s.queue = []) :
    s.wire = s.issued ↔ Meets (step fmt) Whole (opened connectId pf) as := by
  have hopen : Open (opened connectId pf) := open_opened connectId pf
  constructor
  · intro hwire
    have hzero : lacking s = 0 := by
      unfold lacking
      rw [hwire, hidle, List.flatten_nil, List.length_nil]
      omega
    exact (lacking_run hopen hsequential hrun).2 hzero
  · intro hwhole
    have horder : s.wire ++ s.queue.flatten = s.issued :=
      inOrder_run hopen rfl hsequential hwhole hrun
    rw [← horder, hidle, List.flatten_nil, List.append_nil]

/-- Two messages, the second of them empty, each written as a whole. -/
def wholeRun : List Action :=
  [.clientSendData [1, 2, 3] 3, .transfer 3, .handler 0, .clientSendData [] 0, .handler 0]

theorem wire_eq_issued_wholeRun :
    let start := opened 1 (CpacketFormat.new (Vector.replicate maxBufferSize 0))
    ∃ s, run (step (cpacketFormat CpacketFormat.noPast)) start wholeRun = some s ∧
      s.wire = s.issued ∧ s.wire = [1, 2, 3] := by
  intro start
  have hsequential : Meets (step (cpacketFormat CpacketFormat.noPast)) Sequential start wholeRun :=
    meets_cons ⟨rfl, rfl⟩ rfl (meets_cons trivial rfl (meets_cons trivial rfl
      (meets_cons ⟨rfl, rfl⟩ rfl (meets_cons trivial rfl (meets_nil _)))))
  have hwhole : Meets (step (cpacketFormat CpacketFormat.noPast)) Whole start wholeRun := by
    refine meets_cons trivial rfl (meets_cons ?_ rfl (meets_cons trivial rfl
      (meets_cons trivial rfl (meets_cons trivial rfl (meets_nil _)))))
    rintro buffer queue ⟨⟩
    rfl
  exact ⟨_, rfl, (wire_eq_issued_iff hsequential rfl rfl).mpr hwhole, rfl⟩

/-- The device takes one byte of three, and the handler leaves it at that. -/
theorem short_write_lost :
    let start := opened 1 (CpacketFormat.new (Vector.replicate maxBufferSize 0))
    Meets (step (cpacketFormat CpacketFormat.noPast)) Sequential start
        [.clientSendData [1, 2, 3] 3, .transfer 1, .handler 0] ∧
      ∃ s, run (step (cpacketFormat CpacketFormat.noPast)) start
          [.clientSendData [1, 2, 3] 3, .transfer 1, .handler 0] = some s ∧
        s.queue = [] ∧ s.completed = [] ∧ s.wire = [1] ∧ s.issued = [1, 2, 3] ∧
        s.wire ≠ s.issued := by
  refine ⟨meets_cons ⟨rfl, rfl⟩ rfl (meets_cons trivial rfl (meets_cons trivial rfl (meets_nil _))),
    _, rfl, rfl, rfl, rfl, rfl, ?_⟩
  show ([1] : List UInt8) ≠ [1, 2, 3]
  decide

/-! ## The socket's side -/

/-- The same for a socket: every call is made when the handler of the one before has run. -/
def SocketSequential (s : WriteQueue.WriteSide F) : WriteQueue.Action → Prop
  | .clientSendData _ _ | .clientSendFormatData _ _ _ => s.queue = [] ∧ s.completed = []
  | .transfer _ | .resume _ => True

/-- The bytes are in order, and one operation at most is going on or waits for its handler. -/
structure Single (s : WriteQueue.WriteSide F) : Prop where
  order : WriteQueue.InOrder s
  single : s.queue.length + s.completed.length ≤ 1

theorem quiet_of_sequential {fmt : IpacketFormat F} {s : WriteQueue.WriteSide F}
    {a : WriteQueue.Action} (h : Single s) (hsequential : SocketSequential s a) :
    WriteQueue.Quiet fmt s a := by
  have hnone : s.completed = [] → WriteQueue.leftovers s = [] := by
    intro hcompleted
    rw [WriteQueue.leftovers, hcompleted]
    rfl
  cases a with
  | clientSendData => exact .inr (hnone hsequential.2)
  | clientSendFormatData => exact .inr (hnone hsequential.2)
  | transfer n =>
    intro op ops hqueue
    have hsingle := h.single
    rw [hqueue, List.length_cons] at hsingle
    exact .inr (List.eq_nil_of_length_eq_zero (by omega))
  | resume i => trivial

theorem single_doWriteImmediately {s : WriteQueue.WriteSide F} (data : List UInt8)
    (hidle : s.queue = [] ∧ s.completed = []) :
    (WriteQueue.doWriteImmediately data s).queue.length +
      (WriteQueue.doWriteImmediately data s).completed.length ≤ 1 := by
  obtain ⟨hqueue, hcompleted⟩ := hidle
  unfold WriteQueue.doWriteImmediately
  split
  · simp [hqueue, hcompleted]
  · simp [hqueue, hcompleted]

theorem single_step {fmt : IpacketFormat F} {s s' : WriteQueue.WriteSide F}
    {a : WriteQueue.Action} (h : Single s) (hsequential : SocketSequential s a)
    (hs : WriteQueue.step fmt s a = some s') : Single s' := by
  refine ⟨WriteQueue.inOrder_step h.order (quiet_of_sequential h hsequential) hs, ?_⟩
  have hsingle := h.single
  cases a with
  | clientSendData sendBuff sendSize =>
    obtain ⟨data, -, rfl⟩ := Option.map_eq_some_iff.mp hs
    exact single_doWriteImmediately data hsequential
  | clientSendFormatData commandId sendBuff sendSize =>
    simp only [WriteQueue.step, WriteQueue.doWriteFormatData] at hs
    split at hs
    · exact Option.some.inj hs ▸ hsingle
    · obtain ⟨r, -, rfl⟩ := Option.map_eq_some_iff.mp hs
      exact single_doWriteImmediately (s := { s with packetFormat := r.2 }) r.1 hsequential
  | transfer n =>
    simp only [WriteQueue.step, WriteQueue.transfer] at hs
    split at hs
    case h_1 => cases hs
    case h_2 op ops hqueue =>
      split at hs
      case isTrue =>
        obtain rfl := Option.some.inj hs
        rw [hqueue, List.length_cons] at hsingle
        -- the operation in front has moved to the completed ones
        show ops.length + (s.completed ++ [(op, n)]).length ≤ 1
        rw [List.length_append, List.length_singleton]
        omega
      case isFalse => cases hs
  | resume i =>
    obtain ⟨completion, hget, rfl⟩ := Option.map_eq_some_iff.mp hs
    obtain ⟨hi, -⟩ := List.getElem?_eq_some_iff.mp hget
    -- the operation is over, or goes on with the rest of its buffer
    have herase : (s.completed.eraseIdx i).length = s.completed.length - 1 :=
      List.length_eraseIdx_of_lt hi
    split
    · show s.queue.length + (s.completed.eraseIdx i).length ≤ 1
      omega
    · show (s.queue ++ [completion.1.drop completion.2]).length
        + (s.completed.eraseIdx i).length ≤ 1
      rw [List.length_append, List.length_singleton]
      omega

/-- On a socket nothing is lost, however the transfers fall. -/
theorem socket_wire_eq_issued {fmt : IpacketFormat F} {connectId : Nat} {pf : F}
    {as : List WriteQueue.Action} {s : WriteQueue.WriteSide F}
    (hsequential : Meets (WriteQueue.step fmt) SocketSequential
      (WriteQueue.connected connectId pf) as)
    (hrun : run (WriteQueue.step fmt) (WriteQueue.connected connectId pf) as = some s)
    (hidle : s.queue = [] ∧ s.completed = []) : s.wire = s.issued := by
  have hsingle : Single s :=
    invariant_of_meets Single (fun _ _ _ => single_step)
      ⟨WriteQueue.inOrder_connected connectId pf, Nat.zero_le 1⟩ hsequential hrun
  have horder := hsingle.order.order
  rw [WriteQueue.leftovers, hidle.2, hidle.1] at horder
  simpa using horder

end PssClient.Serial
