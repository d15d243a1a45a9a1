import PssClient.Client.Rules
import PssClient.Lib.Pool
import PssClient.Lib.Run

/-!
# Whether the connection flag tells the truth

`is_connect_` of a stream client should be true exactly when its socket is connected and a read
is under way. `connect_handler` sets it and clears it without looking at which connect the
completion belongs to.

* `Truthful` — the handlers that do no harm: a failed connect is handled only while the flag is
  false, a successful one only while the socket is connected.
* `FlagInv` — the invariant of these runs. A set flag stands for a connection with a read under
  way, and a connection without the flag has its completion waiting for the handler.
* `isConnect_iff_of_truthful` — the result. `flag_cleared_on_live_socket` is the run in which the
  handler of a second, failed connect clears the flag of the first one's connection.
-/

namespace PssClient.Client

open Machine Pool

variable {F : Type*} {fmt : IpacketFormat F}

/-- A read is outstanding, or its completion is queued. One way or the other, the client will hear
of the end of its connection. -/
def ReadPending (s : Client F) : Prop :=
  .read ∈ s.outstanding ∨ ∃ c ∈ s.completed, c.isRead = true

/-- The steps that keep the flag truthful, as a condition on the state they are taken from. The
user does not close the client. -/
def Truthful (s : Client F) : Action → Prop
  | .handle i => ∀ c, s.completed[i]? = some c →
    (c = .connected → s.socket = .connected) ∧ (c = .connectFailed → s.isConnect = false)
  | .closeClient => False
  | _ => True

/-- The invariant behind the flag. While it is set the socket is connected and a read is pending;
while the socket is connected it is set, or will be by a handler that is queued. -/
structure FlagInv (s : Client F) : Prop where
  tcp : s.transport = .tcp
  stays : s.isClientClose = false
  -- the connect that is under way and the socket's state go together
  single : s.outstanding.count (.connect false) ≤ 1
  connecting : .connect false ∈ s.outstanding → s.socket = .connecting
  flag : s.isConnect = true → s.socket = .connected ∧ ReadPending s
  established : s.socket = .connected → s.isConnect = true ∨ .connected ∈ s.completed

/-! ## The operations keep the invariant -/

theorem flagInv_post {s : Client F} (h : FlagInv s) (tasks : List Task) :
    FlagInv (post tasks s) := { h with }

/-- An operation joins that is not the connect under way. -/
theorem FlagInv.concat {s : Client F} (h : FlagInv s) (op : Op) (hop : op ≠ .connect false) :
    (s.outstanding ++ [op]).count (.connect false) ≤ 1 ∧
      (.connect false ∈ s.outstanding ++ [op] → s.socket = .connecting) := by
  constructor
  · rw [List.count_append, List.count_singleton, if_neg (by simpa using hop)]
    exact h.single
  · intro hmem
    rcases List.mem_append.mp hmem with hold | hnew
    · exact h.connecting hold
    · exact absurd (List.mem_singleton.mp hnew).symm hop

/-- The connect under way is taken out. It is the only one, and the flag is not set. -/
theorem FlagInv.connect_taken {s : Client F} (h : FlagInv s) {i : Nat}
    (hget : s.outstanding[i]? = some (.connect false)) :
    .connect false ∉ s.outstanding.eraseIdx i ∧ s.isConnect ≠ true := by
  constructor
  · have hcount := ((perm_eraseIdx hget).count_eq (.connect false)).symm
    have hsingle := h.single
    rw [List.count_cons_self] at hcount
    rw [← List.count_eq_zero]
    omega
  · intro htrue
    have hconnected := (h.flag htrue).1
    rw [h.connecting (List.mem_of_getElem? hget)] at hconnected
    cases hconnected

theorem flagInv_startConnect {s : Client F} (h : FlagInv s) (hflag : s.isConnect = false) :
    FlagInv (startConnect s) := by
  by_cases hbusy : s.socket = .connecting ∨ s.socket = .connected
  · rw [startConnect_doomed h.tcp hbusy]
    obtain ⟨hsingle, hconnecting⟩ := h.concat (.connect true) (by simp)
    refine { h with single := hsingle, connecting := hconnecting, flag := ?_ }
    exact fun htrue => absurd htrue (by simp [hflag])
  · have hfree := not_or.mp hbusy
    rw [startConnect_free h.tcp hfree]
    -- no connect is under way, or the socket would be connecting
    have hnone : .connect false ∉ s.outstanding := fun hmem => hfree.1 (h.connecting hmem)
    refine { h with single := ?_, connecting := fun _ => rfl, flag := ?_, established := ?_ }
    · show (s.outstanding ++ [Op.connect false]).count (.connect false) ≤ 1
      rw [List.count_append, List.count_eq_zero.mpr hnone]
      decide
    · exact fun htrue => absurd htrue (by simp [hflag])
    · exact fun hconnected => absurd hconnected (by simp)

theorem flagInv_reconnect {s : Client F} (h : FlagInv s) : FlagInv (reconnect s) := by
  unfold reconnect
  split
  case isTrue hflag => exact flagInv_startConnect h hflag
  case isFalse => exact h

theorem flagInv_startOp {s : Client F} (h : FlagInv s) (op : Op)
    (hop : ∀ doomed, op ≠ .connect doomed) : FlagInv (startOp op s) := by
  unfold startOp
  split
  case isTrue hclosed =>
    refine { h with flag := ?_, established := ?_ }
    · exact fun htrue => absurd (h.flag htrue).1 (by simp [hclosed])
    · exact fun hconnected => absurd hconnected (by simp [hclosed])
  case isFalse =>
    obtain ⟨hsingle, hconnecting⟩ := h.concat op (hop false)
    refine { h with single := hsingle, connecting := hconnecting, flag := ?_ }
    intro htrue
    obtain ⟨hconnected, hread⟩ := h.flag htrue
    exact ⟨hconnected, hread.imp_left fun hmem => List.mem_append_left _ hmem⟩

theorem flagInv_closeSocket {s : Client F} (htcp : s.transport = .tcp)
    (hstays : s.isClientClose = false) : FlagInv (closeSocket s) where
  tcp := htcp
  stays := hstays
  single := Nat.zero_le 1
  connecting := fun hmem => (List.not_mem_nil hmem).elim
  flag := fun htrue => absurd htrue (by simp [closeSocket])
  established := fun hconnected => absurd hconnected (by simp [closeSocket])

theorem flagInv_connectionLost {s : Client F} (htcp : s.transport = .tcp)
    (hstays : s.isClientClose = false) : FlagInv (connectionLost s) := by
  have heq : connectionLost s = post [.reconnect] (closeSocket (post [.message .disconnect] s)) :=
    if_pos hstays
  rw [heq]
  exact flagInv_post
    (flagInv_closeSocket (s := post [.message .disconnect] s) htcp hstays) [.reconnect]

/-- An operation that is not a connect ends. -/
theorem flagInv_ended {s : Client F} (h : FlagInv s) {i : Nat} {op : Op} {c : Completion}
    {buffer : List UInt8 × List (List UInt8)} (hget : s.outstanding[i]? = some op)
    (hc : op = .read → c.isRead = true) : FlagInv (ended i c s.socket buffer s) := by
  refine { h with single := ?_, connecting := ?_, flag := ?_, established := ?_ }
  · exact (List.eraseIdx_sublist s.outstanding i).count_le _ |>.trans h.single
  · exact fun hmem => h.connecting (List.mem_of_mem_eraseIdx hmem)
  · intro htrue
    obtain ⟨hconnected, hread | ⟨c', hc', hisRead⟩⟩ := h.flag htrue
    · refine ⟨hconnected, ?_⟩
      by_cases hop : op = .read
      · exact .inr ⟨c, List.mem_append_right _ (List.mem_singleton_self c), hc hop⟩
      · exact .inl (mem_eraseIdx_of_ne hget hread fun heq => hop heq.symm)
    · exact ⟨hconnected, .inr ⟨c', List.mem_append_left _ hc', hisRead⟩⟩
  · intro hconnected
    exact (h.established hconnected).imp_right fun hmem => List.mem_append_left _ hmem

/-- An operation ends. The cases are the operations and how they end: a connect that succeeds queues
the handler that will set the flag, and a read that ends stays pending until its handler has run. -/
theorem flagInv_complete {i : Nat} {outcome : Outcome} {s s' : Client F} (h : FlagInv s)
    (hstep : complete i outcome s = some s') : FlagInv s' := by
  obtain ⟨op, c, socket, buffer, hget, hends, rfl⟩ := ends_of_complete hstep
  cases hends with
  | connected =>
    -- the connect under way succeeds
    obtain ⟨hnone, hflag⟩ := h.connect_taken hget
    refine { h with single := ?_, connecting := ?_, flag := ?_, established := ?_ }
    · show (s.outstanding.eraseIdx i).count (.connect false) ≤ 1
      rw [List.count_eq_zero.mpr hnone]
      exact Nat.zero_le 1
    · exact fun hmem' => absurd hmem' hnone
    · exact fun htrue => absurd htrue hflag
    · exact fun _ => .inr (List.mem_append_right _ (List.mem_singleton_self _))
  | connectFailed doomed =>
    have hended : FlagInv (ended i .connectFailed s.socket s.reading s) :=
      flagInv_ended h hget nofun
    cases doomed with
    | true =>
      rw [if_neg (by simp)]
      exact hended
    | false =>
      obtain ⟨hnone, hflag⟩ := h.connect_taken hget
      rw [if_pos ⟨rfl, h.tcp⟩]
      refine { hended with connecting := ?_, flag := ?_, established := ?_ }
      · exact fun hmem' => absurd hmem' hnone
      · exact fun htrue => absurd htrue hflag
      · exact fun hconnected => absurd hconnected (by simp [ended])
  | received => exact flagInv_ended h hget fun _ => rfl
  | sent => exact flagInv_ended h hget (by simp)
  | readFailed => exact flagInv_ended h hget fun _ => rfl
  | writeFailed => exact flagInv_ended h hget (by simp)

/-- A completion that is neither a read's nor a successful connect's is taken from the queue. -/
theorem flagInv_taken {s : Client F} (h : FlagInv s) {i : Nat} {c : Completion}
    (hget : s.completed[i]? = some c) (hread : c.isRead = false) (hc : c ≠ .connected) :
    FlagInv { s with completed := s.completed.eraseIdx i } := by
  refine { h with flag := ?_, established := ?_ }
  · intro htrue
    obtain ⟨hconnected, hpending⟩ := h.flag htrue
    refine ⟨hconnected, hpending.imp_right ?_⟩
    rintro ⟨c', hmem, hisRead⟩
    refine ⟨c', mem_eraseIdx_of_ne hget hmem ?_, hisRead⟩
    rintro rfl
    rw [hread] at hisRead
    cases hisRead
  · exact fun hconnected => (h.established hconnected).imp_right fun hmem =>
      mem_eraseIdx_of_ne hget hmem hc.symm

/-- A handler runs. The cases are the completions. Those of a connect need the condition: a failed
one would clear the flag of a connection that is up, and a successful one set it for a socket that
is closed again. -/
theorem flagInv_handle {s s' : Client F} {i : Nat} {c : Completion} (h : FlagInv s)
    (hget : s.completed[i]? = some c) (hconnected : c = .connected → s.socket = .connected)
    (hfailed : c = .connectFailed → s.isConnect = false)
    (hstep : Handles fmt { s with completed := s.completed.eraseIdx i } c s') : FlagInv s' := by
  cases hstep with
  | connected =>
    have hsocket := hconnected rfl
    rw [doRead, startOp, if_neg (by simp [post, hsocket])]
    obtain ⟨hsingle, hconnecting⟩ := h.concat .read (by simp)
    refine { h with single := hsingle, connecting := hconnecting, flag := ?_, established := ?_ }
    · exact fun _ => ⟨hsocket, .inl (List.mem_append_right _ (List.mem_singleton_self _))⟩
    · exact fun _ => .inl rfl
  | connectFailed =>
    have htaken := flagInv_taken h hget rfl (by simp)
    -- the flag was false already, so clearing it changes nothing
    have hsame : { s with completed := s.completed.eraseIdx i, isConnect := false }
        = { s with completed := s.completed.eraseIdx i } := by
      rw [← hfailed rfl]
    rw [hsame]
    exact flagInv_post htaken _
  | received bytes r =>
    unfold doRead startOp
    split
    case isTrue hclosed =>
      have hflag : s.isConnect ≠ true := fun htrue => by
        have hsocket := (h.flag htrue).1
        rw [show s.socket = .closed from hclosed] at hsocket
        cases hsocket
      refine { h with flag := ?_, established := ?_ }
      · exact fun htrue => absurd htrue hflag
      · intro hsocket
        rw [show s.socket = .closed from hclosed] at hsocket
        cases hsocket
    case isFalse =>
      obtain ⟨hsingle, hconnecting⟩ := h.concat .read (by simp)
      refine { h with single := hsingle, connecting := hconnecting, flag := ?_, established := ?_ }
      · intro htrue
        exact ⟨(h.flag htrue).1, .inl (List.mem_append_right _ (List.mem_singleton_self _))⟩
      · exact fun hsocket => (h.established hsocket).imp_right fun hmem =>
          mem_eraseIdx_of_ne hget hmem (by simp)
  | readFailed => exact flagInv_connectionLost h.tcp h.stays
  | sentAll =>
    have htaken := flagInv_taken h hget rfl (by simp)
    exact { htaken with }
  | sentPart =>
    have htaken := flagInv_taken h hget rfl (by simp)
    exact flagInv_startOp htaken _ (by simp)
  | writeFailed =>
    exact { flagInv_connectionLost (s := { s with completed := s.completed.eraseIdx i })
      h.tcp h.stays with }

/-- One truthful step. -/
theorem flagInv_step {s s' : Client F} {a : Action} (h : FlagInv s) (htruth : Truthful s a)
    (hstep : step fmt s a = some s') : FlagInv s' := by
  cases does_of_step hstep with
  | complete hcomplete => exact flagInv_complete h hcomplete
  | handle hget hhandler =>
    obtain ⟨hconnected, hfailed⟩ := htruth _ hget
    exact flagInv_handle h hget hconnected hfailed hhandler
  | message => exact { h with }
  | reconnect => exact flagInv_reconnect (s := { s with ran := s.ran + 1 }) { h with }
  | late => exact { h with }
  | inTime => exact h
  | timeCheck => exact { h with }
  | timeReconnect => exact flagInv_reconnect (s := { s with timeoutSession := none }) { h with }
  | closeClient => exact htruth.elim
  | reconnectServer => exact flagInv_reconnect h
  | sendData => exact flagInv_startOp h _ (by simp)
  | refused => exact flagInv_post h _
  | sendFormatData r =>
    have hpf : FlagInv { s with packetFormat := r.2 } := { h with }
    exact flagInv_startOp hpf _ (by simp)
  | unknown => exact h
  | tick d => exact { h with }

theorem flagInv_start (connectId : Nat) (timerCheckSeconds : Int) (pf : F) :
    FlagInv (start .tcp connectId timerCheckSeconds pf) := by
  refine flagInv_startConnect ⟨rfl, rfl, Nat.zero_le 1, fun hmem => ?_, ?_, ?_⟩ rfl
  · exact (List.not_mem_nil hmem).elim
  · exact fun htrue => absurd htrue (by simp)
  · exact fun hsocket => absurd hsocket (by simp)

/-- **When the flag tells the truth.** In every run of a stream client that the user does not
close, in which failed connects are handled only while the flag is false and successful ones only
while the socket is connected: when no successful connect is queued, the flag is true exactly
when the socket is connected and a read is outstanding or its completion queued. -/
theorem isConnect_iff_of_truthful (fmt : IpacketFormat F) (connectId : Nat)
    (timerCheckSeconds : Int) (pf : F) (as : List Action) (s : Client F)
    (htruth : Meets (step fmt) Truthful (start .tcp connectId timerCheckSeconds pf) as)
    (hrun : run (step fmt) (start .tcp connectId timerCheckSeconds pf) as = some s)
    (hqueued : .connected ∉ s.completed) :
    s.isConnect = true ↔ s.socket = .connected ∧ ReadPending s := by
  have h : FlagInv s := invariant_of_meets FlagInv (fun _ _ _ h hG hs => flagInv_step h hG hs)
    (flagInv_start connectId timerCheckSeconds pf) htruth hrun
  constructor
  · exact h.flag
  · rintro ⟨hconnected, -⟩
    exact (h.established hconnected).resolve_right hqueued

theorem isConnect_of_truthful_connect :
    ∃ s, run (step (cpacketFormat CpacketFormat.noPast)) (started .tcp)
        [.complete 0 .connected, .handle 0] = some s ∧
      (s.isConnect = true ↔ s.socket = .connected ∧ ReadPending s) := by
  refine ⟨_, rfl, ?_⟩
  refine isConnect_iff_of_truthful (cpacketFormat CpacketFormat.noPast) 1 30 _
    [.complete 0 .connected, .handle 0] _ ?_ rfl (by decide)
  refine meets_cons trivial rfl (meets_cons ?_ rfl (meets_nil _))
  rintro c ⟨⟩
  exact ⟨fun _ => rfl, fun hfailed => by cases hfailed⟩

/-- The user asks for a reconnect while the first connect's success waits for its handler. The
second connect fails on the connected socket, and its handler clears the flag. -/
def clearingRun : List Action :=
  [.complete 0 .connected, .reconnectServer, .handle 0, .complete 0 .failed, .handle 0]

theorem flag_cleared_on_live_socket :
    ∃ s, run (step (cpacketFormat CpacketFormat.noPast)) (started .tcp) clearingRun = some s ∧
      s.isClientClose = false ∧ (∀ doomed, .connect doomed ∉ s.outstanding) ∧
      .connected ∉ s.completed ∧ .connectFailed ∉ s.completed ∧
      s.socket = .connected ∧ ReadPending s ∧ s.isConnect = false := by
  refine ⟨_, rfl, rfl, ?_, by decide, by decide, rfl, .inl ?_, rfl⟩
  · intro doomed
    cases doomed <;> decide
  · decide

end PssClient.Client
