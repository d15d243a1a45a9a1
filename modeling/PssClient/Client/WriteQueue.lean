import PssClient.Client.Interface
import PssClient.Lib.Run

/-!
# Writing to one connected socket

`do_write_immediately` starts an `asio::async_write` on a copy of the message and does not look
whether an earlier one is still going on. `async_write` is a composed operation: it queues an
`async_write_some` for the rest of its own buffer, and when that has transferred only a part of
it, the handler queues the next one, behind whatever has been queued meanwhile.

## The architecture

* `WriteSide` / `step` — the queue of the socket, the completions whose handlers have not run,
  and the bytes on the wire.
* `Quiet` — the steps that leave the order of the bytes alone: a transfer may fall short only
  when nothing is queued behind it, and no call is made while the rest of a message waits to be
  queued again.
* `InOrder` — the invariant of the quiet runs: the wire, the rest that waits and the queue, put
  together, are the messages in the order of the calls.
* `wire_isPrefix_of_quiet` — the result. `wire_interleaved` shows that without the condition it
  fails: one short transfer with a second message behind it is enough.
-/

namespace PssClient.WriteQueue

open Machine

/-- What `transfer_all` allows one `async_write_some` to take: `default_max_transfer_size`. -/
abbrev defaultMaxTransferSize : Nat := 65536

/-- The write side of a connected `CASIOClient`. An operation on the socket is the part of its
message that it still has to write. -/
structure WriteSide (F : Type*) where
  connectId : Nat
  isConnect : Bool
  packetFormat : F
  -- the `async_write_some` operations on the socket, first in first out
  queue : List (List UInt8) := []
  -- those that have completed, with the number of bytes transferred; the handler has not run
  completed : List (List UInt8 × Nat) := []
  -- the messages whose handler has run
  finished : Nat := 0
  wire : List UInt8 := []
  -- the messages of all the calls, in call order
  issued : List UInt8 := []

/-- What can happen next on the write side of a connection: a call of the library, a transfer of
some bytes by the kernel, or the handler in which a composed write goes on with the rest. -/
inductive Action
  | clientSendData (sendBuff : List UInt8) (sendSize : Nat)
  | clientSendFormatData (commandId : Int16) (sendBuff : List UInt8) (sendSize : Nat)
  /-- The kernel takes `n` bytes of the operation in front. -/
  | transfer (n : Nat)
  /-- The handler of a completed operation runs. -/
  | resume (i : Nat)

variable {F : Type*}

/-- `do_write_immediately`. An operation without bytes is not queued on a stream socket: it
completes at once. -/
def doWriteImmediately (data : List UInt8) (s : WriteSide F) : WriteSide F :=
  if data = [] then { s with completed := s.completed ++ [([], 0)] }
  else { s with queue := s.queue ++ [data], issued := s.issued ++ data }

/-- `do_write_format_data`. Without a connection only a message is posted. -/
def doWriteFormatData (fmt : IpacketFormat F) (commandId : Int16) (data : List UInt8)
    (length : Nat) (s : WriteSide F) : Option (WriteSide F) :=
  if s.isConnect = false then some s
  else (formatted fmt s.connectId commandId data length s.packetFormat).map fun r =>
    doWriteImmediately r.1 { s with packetFormat := r.2 }

/-- The operation in front transfers `n` bytes. -/
def transfer (n : Nat) (s : WriteSide F) : Option (WriteSide F) :=
  match s.queue with
  | [] => none
  | op :: ops =>
    if 0 < n ∧ n ≤ min defaultMaxTransferSize op.length then
      some { s with
        queue := ops
        completed := s.completed ++ [(op, n)]
        wire := s.wire ++ op.take n }
    else none

/-- `write_op::operator()`: consume what was transferred, then either call the handler of
`do_write_immediately` or queue the rest. -/
def resume (i : Nat) (s : WriteSide F) : Option (WriteSide F) :=
  s.completed[i]?.map fun c =>
    if c.1.drop c.2 = [] then
      { s with completed := s.completed.eraseIdx i, finished := s.finished + 1 }
    else
      { s with completed := s.completed.eraseIdx i, queue := s.queue ++ [c.1.drop c.2] }

def step (fmt : IpacketFormat F) (s : WriteSide F) : Action → Option (WriteSide F)
  | .clientSendData sendBuff sendSize =>
    (CpacketFormat.cStrRead sendBuff sendSize).map fun data => doWriteImmediately data s
  | .clientSendFormatData commandId sendBuff sendSize =>
    doWriteFormatData fmt commandId sendBuff sendSize s
  | .transfer n => transfer n s
  | .resume i => resume i s

/-- A connection on which nothing has been written. -/
def connected (connectId : Nat) (pf : F) : WriteSide F where
  connectId := connectId
  isConnect := true
  packetFormat := pf

/-! ## The quiet runs -/

/-- What a completed operation has left to write. -/
def rest (c : List UInt8 × Nat) : List UInt8 := c.1.drop c.2

/-- The rests that wait for their handler. -/
def leftovers (s : WriteSide F) : List (List UInt8) := (s.completed.map rest).filter (· ≠ [])

/-- The steps that keep the bytes in order, as a condition on the state they are taken from. -/
def Quiet (fmt : IpacketFormat F) (s : WriteSide F) : Action → Prop
  | .clientSendData _ sendSize => sendSize = 0 ∨ leftovers s = []
  | .clientSendFormatData commandId sendBuff sendSize =>
    (∀ r, formatted fmt s.connectId commandId sendBuff sendSize s.packetFormat = some r →
      r.1 = []) ∨ leftovers s = []
  | .transfer n => ∀ op ops, s.queue = op :: ops → n = op.length ∨ ops = []
  | .resume _ => True

/-- The wire, the rest that waits and the queue are the messages in call order. While a rest
waits, nothing is queued that could overtake it. -/
structure InOrder (s : WriteSide F) : Prop where
  order : s.wire ++ (leftovers s).flatten ++ s.queue.flatten = s.issued
  alone : leftovers s = [] ∨ s.queue = []
  single : (leftovers s).length ≤ 1

theorem InOrder.isPrefix {s : WriteSide F} (h : InOrder s) : s.wire <+: s.issued :=
  ⟨(leftovers s).flatten ++ s.queue.flatten, by rw [← List.append_assoc, h.order]⟩

theorem inOrder_connected (connectId : Nat) (pf : F) : InOrder (connected connectId pf) :=
  ⟨rfl, .inl rfl, Nat.zero_le 1⟩

theorem leftovers_snoc (s : WriteSide F) (c : List UInt8 × Nat) (queue : List (List UInt8))
    (wire : List UInt8) :
    leftovers { s with queue := queue, completed := s.completed ++ [c], wire := wire }
      = leftovers s ++ if rest c = [] then [] else [rest c] := by
  unfold leftovers
  rw [List.map_append, List.filter_append]
  by_cases h : rest c = [] <;> simp [h]

theorem inOrder_doWriteImmediately {s : WriteSide F} {data : List UInt8} (h : InOrder s)
    (hquiet : data = [] ∨ leftovers s = []) : InOrder (doWriteImmediately data s) := by
  unfold doWriteImmediately
  by_cases hdata : data = []
  · rw [if_pos hdata]
    have hleft : leftovers { s with completed := s.completed ++ [([], 0)] } = leftovers s := by
      have hsnoc := leftovers_snoc s ([], 0) s.queue s.wire
      simpa [rest] using hsnoc
    exact ⟨by rw [hleft]; exact h.order, by rw [hleft]; exact h.alone,
      by rw [hleft]; exact h.single⟩
  · rw [if_neg hdata]
    have hnone : leftovers s = [] := hquiet.resolve_left hdata
    refine ⟨?_, .inl hnone, h.single⟩
    show s.wire ++ (leftovers s).flatten ++ (s.queue ++ [data]).flatten = s.issued ++ data
    rw [List.flatten_append, ← List.append_assoc, h.order]
    simp

/-- The kernel takes bytes of the operation in front. If it takes all of them, the operation leaves
the queue; if it takes fewer, the rest is alone by the condition, and waits for its handler. -/
theorem inOrder_transfer {s s' : WriteSide F} {n : Nat} (h : InOrder s)
    (hquiet : ∀ op ops, s.queue = op :: ops → n = op.length ∨ ops = [])
    (hstep : transfer n s = some s') : InOrder s' := by
  unfold transfer at hstep
  cases hqueue : s.queue with
  | nil =>
    rw [hqueue] at hstep
    cases hstep
  | cons op ops =>
    rw [hqueue] at hstep
    -- something is queued, so no rest waits
    have hnone : leftovers s = [] := h.alone.resolve_right (by simp [hqueue])
    have horder := h.order
    rw [hnone, hqueue, List.flatten_nil, List.append_nil, List.flatten_cons] at horder
    by_cases hn : 0 < n ∧ n ≤ min defaultMaxTransferSize op.length
    · dsimp only at hstep
      rw [if_pos hn] at hstep
      obtain rfl := Option.some.inj hstep
      have hleft := leftovers_snoc s (op, n) ops (s.wire ++ op.take n)
      rw [hnone, List.nil_append] at hleft
      by_cases hwhole : rest (op, n) = []
      · rw [if_pos hwhole] at hleft
        refine ⟨?_, .inl hleft, by simp [hleft]⟩
        rw [hleft]
        show s.wire ++ op.take n ++ [] ++ ops.flatten = s.issued
        have htake : op.take n = op := by
          have := List.take_append_drop n op
          rwa [show op.drop n = [] from hwhole, List.append_nil] at this
        rw [htake, List.append_nil, List.append_assoc, horder]
      · -- it fell short, so nothing is queued behind it
        have hops : ops = [] := by
          apply (hquiet op ops hqueue).resolve_left
          rintro rfl
          exact hwhole (List.drop_length)
        rw [if_neg hwhole] at hleft
        refine ⟨?_, .inr hops, by simp [hleft]⟩
        rw [hleft]
        show s.wire ++ op.take n ++ [op.drop n].flatten ++ ops.flatten = s.issued
        rw [← horder, hops]
        simp
    · dsimp only at hstep
      rw [if_neg hn] at hstep
      cases hstep

/-- The handler of a write runs. It puts the rest back into the queue, which is empty while a rest
waits, so that the rest stays in its place. -/
theorem inOrder_resume {s s' : WriteSide F} {i : Nat} (h : InOrder s)
    (hstep : resume i s = some s') : InOrder s' := by
  obtain ⟨c, hc, heq⟩ := Option.map_eq_some_iff.mp hstep
  obtain ⟨hi, hget⟩ := List.getElem?_eq_some_iff.mp hc
  -- the completions before and behind the one whose handler runs
  have hsplit : s.completed = s.completed.take i ++ c :: s.completed.drop (i + 1) := by
    rw [← hget, ← List.drop_eq_getElem_cons hi, List.take_append_drop]
  have herase : s.completed.eraseIdx i = s.completed.take i ++ s.completed.drop (i + 1) :=
    List.eraseIdx_eq_take_drop_succ _ _
  have hleft : leftovers s = ((s.completed.take i).map rest).filter (· ≠ [])
      ++ ((if rest c = [] then [] else [rest c])
        ++ ((s.completed.drop (i + 1)).map rest).filter (· ≠ [])) := by
    unfold leftovers
    conv_lhs => rw [hsplit]
    by_cases hrest : rest c = [] <;> simp [hrest]
  by_cases hrest : rest c = []
  · rw [if_pos (show c.1.drop c.2 = [] from hrest)] at heq
    subst heq
    have hsame :
        leftovers { s with completed := s.completed.eraseIdx i, finished := s.finished + 1 }
          = leftovers s := by
      rw [hleft, if_pos hrest]
      unfold leftovers
      rw [herase, List.map_append, List.filter_append, List.nil_append]
    exact ⟨by rw [hsame]; exact h.order, by rw [hsame]; exact h.alone,
      by rw [hsame]; exact h.single⟩
  · rw [if_neg (show ¬ c.1.drop c.2 = [] from hrest)] at heq
    subst heq
    rw [if_neg hrest] at hleft
    -- it is the only rest that waits, and the queue is empty
    have hsingle := h.single
    rw [hleft] at hsingle
    simp only [List.length_append, List.length_singleton] at hsingle
    have hbefore : ((s.completed.take i).map rest).filter (· ≠ []) = [] :=
      List.eq_nil_of_length_eq_zero (by omega)
    have hbehind : ((s.completed.drop (i + 1)).map rest).filter (· ≠ []) = [] :=
      List.eq_nil_of_length_eq_zero (by omega)
    rw [hbefore, hbehind] at hleft
    have hqueue : s.queue = [] := h.alone.resolve_left (by simp [hleft])
    have hnone : leftovers { s with
        completed := s.completed.eraseIdx i, queue := s.queue ++ [c.1.drop c.2] } = [] := by
      unfold leftovers
      rw [herase, List.map_append, List.filter_append, hbefore, hbehind, List.append_nil]
    have horder := h.order
    rw [hleft, hqueue] at horder
    refine ⟨?_, .inl hnone, by rw [hnone]; exact Nat.zero_le 1⟩
    rw [hnone]
    show s.wire ++ [] ++ (s.queue ++ [rest c]).flatten = s.issued
    rw [← horder, hqueue]
    simp

/-- One quiet step keeps the bytes in order. -/
theorem inOrder_step {fmt : IpacketFormat F} {s s' : WriteSide F} {a : Action} (h : InOrder s)
    (hquiet : Quiet fmt s a) (hstep : step fmt s a = some s') : InOrder s' := by
  cases a with
  | clientSendData sendBuff sendSize =>
    obtain ⟨data, hread, rfl⟩ := Option.map_eq_some_iff.mp hstep
    refine inOrder_doWriteImmediately h (hquiet.imp_left fun hzero => ?_)
    subst hzero
    rw [CpacketFormat.cStrRead, if_pos (Nat.zero_le _)] at hread
    exact (Option.some.inj hread).symm
  | clientSendFormatData commandId sendBuff sendSize =>
    simp only [step, doWriteFormatData] at hstep
    split at hstep
    · exact Option.some.inj hstep ▸ h
    · obtain ⟨r, hformat, rfl⟩ := Option.map_eq_some_iff.mp hstep
      -- the formatter's state is not part of the order
      have hpf : InOrder { s with packetFormat := r.2 } := ⟨h.order, h.alone, h.single⟩
      exact inOrder_doWriteImmediately hpf (hquiet.imp_left fun hempty => hempty r hformat)
  | transfer n => exact inOrder_transfer h hquiet hstep
  | resume i => exact inOrder_resume h hstep

/-- **Quiet runs keep the messages in order.** In every run on a fresh connection in which a
transfer falls short only with nothing queued behind it, and no bytes are queued while the rest
of a message waits for its handler, the bytes on the wire are always the beginning of the
messages in call order. -/
theorem wire_isPrefix_of_quiet (fmt : IpacketFormat F) (connectId : Nat) (pf : F)
    (as : List Action) (s : WriteSide F)
    (hquiet : Meets (step fmt) (Quiet fmt) (connected connectId pf) as)
    (hrun : run (step fmt) (connected connectId pf) as = some s) : s.wire <+: s.issued :=
  (invariant_of_meets InOrder (fun _ _ _ h hq hs => inOrder_step h hq hs)
    (inOrder_connected connectId pf) hquiet hrun).isPrefix

/-- Two messages; the second is called for while the first is on the wire, and every transfer
with another message behind it is whole. -/
def quietRun : List Action :=
  [.clientSendData [1, 2] 2, .transfer 1, .resume 0, .clientSendData [3, 4] 2, .transfer 1,
    .resume 0, .transfer 2]

theorem wire_isPrefix_of_quiet_run :
    let start := connected 1 (CpacketFormat.new (Vector.replicate maxBufferSize 0))
    ∃ s, Meets (step (cpacketFormat CpacketFormat.noPast))
        (Quiet (cpacketFormat CpacketFormat.noPast)) start quietRun ∧
      run (step (cpacketFormat CpacketFormat.noPast)) start quietRun = some s ∧
      s.wire = [1, 2, 3, 4] ∧ s.wire <+: s.issued := by
  intro start
  have hquiet : Meets (step (cpacketFormat CpacketFormat.noPast))
      (Quiet (cpacketFormat CpacketFormat.noPast)) start quietRun := by
    refine meets_cons (.inr rfl) rfl (meets_cons ?_ rfl (meets_cons trivial rfl
      (meets_cons (.inr rfl) rfl (meets_cons ?_ rfl (meets_cons trivial rfl
        (meets_cons ?_ rfl (meets_nil _)))))))
    · rintro op ops ⟨⟩
      exact .inr rfl
    · rintro op ops ⟨⟩
      exact .inl rfl
    · rintro op ops ⟨⟩
      exact .inl rfl
  exact ⟨_, hquiet, rfl, rfl, wire_isPrefix_of_quiet _ _ _ _ _ hquiet rfl⟩

/-- The run in which the bytes of two messages mix: the first transfer takes one byte of the
first message, and by the time its rest is queued again the second message is in front. -/
def interleavingRun : List Action :=
  [.clientSendData [1, 2] 2, .clientSendData [3, 4] 2, .transfer 1, .transfer 2]

theorem wire_interleaved :
    ∃ s, run (step (cpacketFormat CpacketFormat.noPast))
        (connected 1 (CpacketFormat.new (Vector.replicate maxBufferSize 0))) interleavingRun
          = some s ∧
      s.wire = [1, 3, 4] ∧ s.issued = [1, 2, 3, 4] ∧ ¬ s.wire <+: s.issued := by
  refine ⟨_, rfl, rfl, rfl, ?_⟩
  decide

end PssClient.WriteQueue
