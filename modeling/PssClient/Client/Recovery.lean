import PssClient.Client.Flag
import PssClient.Client.Posts

/-!
# A client recovers

Whatever has happened to a client that the user has not closed, it can get back to the server
without the user: there are at most eight steps of the network, of the I/O thread, of `timer_check`
and of the clock after which it is connected and reads.

* `Action.unaided` / `Gets` — such steps. The clock only goes forward.
* `exists_later` — the seconds that have passed become an `int`, so that a client is late again and
  again, but only if an `int` can be more than `timer_check_seconds_`.
* `Live` — the invariant: a flag that is set has a read to clear it, and a stream socket that is
  connecting or connected has the operation that will say so.
* `gets_down` / `gets_up` — with a read pending the connection can be lost, and without a
  connection the next round of `timer_check` makes one.
* `recovers` — the result.
-/

namespace PssClient.Client

open Machine Pool

variable {F : Type*} {fmt : IpacketFormat F}

/-- The user does nothing, and the clock goes forward. -/
def Action.unaided : Action → Bool
  | .tick d => decide (0 ≤ d)
  | a => !a.looksUp

/-- From `s` to `t` in at most `k` steps, without a call of the user. -/
def Gets (fmt : IpacketFormat F) (k : Nat) (s t : Client F) : Prop :=
  ∃ as, as.length ≤ k ∧ (∀ a ∈ as, a.unaided = true) ∧ run (step fmt) s as = some t

theorem Gets.refl (s : Client F) : Gets fmt 0 s s := ⟨[], le_rfl, nofun, rfl⟩

theorem Gets.trans {j k : Nat} {s t u : Client F} (hst : Gets fmt j s t) (htu : Gets fmt k t u) :
    Gets fmt (j + k) s u := by
  obtain ⟨as, hlength, has, hrun⟩ := hst
  obtain ⟨bs, hlength', hbs, hrun'⟩ := htu
  refine ⟨as ++ bs, ?_, fun a ha => ?_, run_append.mpr ⟨t, hrun, hrun'⟩⟩
  · rw [List.length_append]
    exact Nat.add_le_add hlength hlength'
  · exact (List.mem_append.mp ha).elim (has a) (hbs a)

theorem Gets.mono {j k : Nat} {s t : Client F} (h : Gets fmt j s t) (hle : j ≤ k) :
    Gets fmt k s t := by
  obtain ⟨as, hlength, has, hrun⟩ := h
  exact ⟨as, hlength.trans hle, has, hrun⟩

theorem gets_step {s t : Client F} {a : Action} (ha : a.unaided = true)
    (hs : step fmt s a = some t) : Gets fmt 1 s t :=
  ⟨[a], le_rfl, fun _ hb => List.mem_singleton.mp hb ▸ ha, run_singleton hs⟩

/-- Any number that an `int` holds comes up again and again. -/
theorem exists_later {seconds : Int} (hlow : -2147483648 ≤ seconds) (hhigh : seconds < 2147483648)
    (since now : Int) :
    ∃ d, 0 ≤ d ∧ IIOClient.toInt (IIOClient.wholeSeconds (now + d - since)) = seconds := by
  -- whole turns of the `int` take it past `now`
  have hturns : ∃ turns : Int,
      now ≤ since + (seconds + (4294967296 : Nat) * turns) * 1000000000 :=
    ⟨(now - since).natAbs + 1, by omega⟩
  obtain ⟨turns, hpast⟩ := hturns
  refine ⟨since + (seconds + (4294967296 : Nat) * turns) * 1000000000 - now, by omega, ?_⟩
  have hdiff : now + (since + (seconds + (4294967296 : Nat) * turns) * 1000000000 - now) - since
      = (seconds + (4294967296 : Nat) * turns) * 1000000000 := by omega
  rw [hdiff, IIOClient.wholeSeconds, Int.mul_tdiv_cancel _ (by decide), IIOClient.toInt,
    Int.add_mul_bmod_self_left]
  exact Int.bmod_eq_of_le_mul_two (by omega) (by omega)

/-! ## The invariant -/

/-- The user has not closed the client, and something is on the way where something has to
happen. -/
structure Live (s : Client F) : Prop where
  stays : s.isClientClose = false
  flag : s.isConnect = true → ReadPending s
  connected : s.socket = .connected → ReadPending s ∨ .connected ∈ s.completed
  connecting : s.transport = .tcp → s.socket = .connecting → .connect false ∈ s.outstanding

/-- More is on the way than before. -/
theorem Live.more {s t : Client F} (h : Live s) (hclose : t.isClientClose = s.isClientClose)
    (hflag : t.isConnect = true → s.isConnect = true) (htransport : t.transport = s.transport)
    (hsocket : t.socket = s.socket) (houtstanding : s.outstanding ⊆ t.outstanding)
    (hcompleted : s.completed ⊆ t.completed) : Live t := by
  have hread : ReadPending s → ReadPending t := fun hread =>
    hread.imp (fun hmem => houtstanding hmem) fun ⟨c, hmem, hc⟩ => ⟨c, hcompleted hmem, hc⟩
  refine ⟨hclose.trans h.stays, fun htrue => hread (h.flag (hflag htrue)), fun hconnected => ?_,
    fun htcp hconnecting => ?_⟩
  · exact (h.connected (hsocket ▸ hconnected)).imp hread fun hmem => hcompleted hmem
  · exact houtstanding (h.connecting (htransport ▸ htcp) (hsocket ▸ hconnecting))

/-- With a read pending there is not much to say. -/
theorem live_of_readPending {s : Client F} (hstays : s.isClientClose = false)
    (hread : ReadPending s) (hconnecting : s.transport = .tcp → s.socket = .connecting →
      .connect false ∈ s.outstanding) : Live s :=
  ⟨hstays, fun _ => hread, fun _ => .inl hread, hconnecting⟩

theorem live_startOp {s : Client F} (h : Live s) (op : Op) : Live (startOp op s) := by
  unfold startOp
  split
  · exact h.more rfl id rfl rfl (List.Subset.refl _) (List.subset_append_left _ _)
  · exact h.more rfl id rfl rfl (List.subset_append_left _ _) (List.Subset.refl _)

theorem live_startConnect {s : Client F} (h : Live s) : Live (startConnect s) := by
  unfold startConnect
  split
  case h_1 | h_2 =>
    exact h.more rfl id rfl rfl (List.subset_append_left _ _) (List.Subset.refl _)
  case h_3 =>
    have hmore : Live { s with outstanding := s.outstanding ++ [.connect false] } :=
      h.more rfl id rfl rfl (List.subset_append_left _ _) (List.Subset.refl _)
    exact ⟨hmore.stays, hmore.flag, nofun,
      fun _ _ => List.mem_append_right _ (List.mem_singleton_self _)⟩
  case h_4 hudp =>
    have hmore : Live { s with outstanding := s.outstanding ++ [.connect false] } :=
      h.more rfl id rfl rfl (List.subset_append_left _ _) (List.Subset.refl _)
    refine ⟨hmore.stays, hmore.flag, fun hconnected => ?_, fun _ _ =>
      List.mem_append_right _ (List.mem_singleton_self _)⟩
    change (if s.socket = .closed then SocketState.opened else s.socket) = .connected at hconnected
    split at hconnected
    · cases hconnected
    · exact hmore.connected hconnected

theorem live_reconnect {s : Client F} (h : Live s) : Live (reconnect s) := by
  unfold reconnect
  split
  · exact live_startConnect h
  · exact h

/-- The socket is closed, and the flag says so. -/
theorem live_down {s : Client F} (hstays : s.isClientClose = false) (hflag : s.isConnect = false)
    (hsocket : s.socket = .closed) : Live s where
  stays := hstays
  flag := fun htrue => absurd (hflag.symm.trans htrue) nofun
  connected := fun hconnected => absurd (hsocket.symm.trans hconnected) nofun
  connecting := fun _ hconnecting => absurd (hsocket.symm.trans hconnecting) nofun

/-- What a lost connection leaves. -/
theorem connectionLost_down {s : Client F} (hstays : s.isClientClose = false) :
    (connectionLost s).isConnect = false ∧ (connectionLost s).socket = .closed ∧
      (connectionLost s).isClientClose = false ∧
      (connectionLost s).registered = s.registered := by
  have heq : connectionLost s = post [.reconnect] (closeSocket (post [.message .disconnect] s)) :=
    if_pos hstays
  rw [heq]
  exact ⟨rfl, rfl, hstays, rfl⟩

/-- An operation ends. What was on the way is taken over by the completion: the end of a connect or
of a read waits for its handler. -/
theorem live_complete {i : Nat} {outcome : Outcome} {s s' : Client F} (h : Live s)
    (hs : complete i outcome s = some s') : Live s' := by
  obtain ⟨op, c, socket, buffer, hget, hends, rfl⟩ := ends_of_complete hs
  -- a read that ends waits for its handler
  have hread : ReadPending s → (op = .read → c.isRead = true) →
      ReadPending (ended i c socket buffer s) := by
    rintro (hmem | ⟨c', hmem, hc'⟩) hop
    · by_cases heq : op = .read
      · exact .inr ⟨c, List.mem_append_right _ (List.mem_singleton_self c), hop heq⟩
      · exact .inl (mem_eraseIdx_of_ne hget hmem fun h => heq h.symm)
    · exact .inr ⟨c', List.mem_append_left _ hmem, hc'⟩
  -- an operation that leaves the socket as it is
  have hsame : socket = s.socket → op ≠ .connect false → (op = .read → c.isRead = true) →
      Live (ended i c socket buffer s) := fun hsocket hne hop =>
    ⟨h.stays, fun htrue => hread (h.flag htrue) hop,
      fun hconnected => (h.connected (hsocket ▸ hconnected)).imp (fun hr => hread hr hop)
        fun hmem => List.mem_append_left _ hmem,
      fun htcp hconnecting => mem_eraseIdx_of_ne hget
        (h.connecting htcp (hsocket ▸ hconnecting)) hne.symm⟩
  cases hends with
  | connected =>
    exact ⟨h.stays, fun htrue => hread (h.flag htrue) nofun,
      fun _ => .inr (List.mem_append_right _ (List.mem_singleton_self _)), nofun⟩
  | connectFailed doomed =>
    -- a failed connect closes a stream socket, unless the attempt was doomed from the start
    by_cases hdoomed : doomed = false ∧ s.transport = .tcp
    · rw [if_pos hdoomed]
      rw [if_pos hdoomed] at hread
      exact ⟨h.stays, fun htrue => hread (h.flag htrue) nofun, nofun, nofun⟩
    · rw [if_neg hdoomed]
      rw [if_neg hdoomed] at hread
      refine ⟨h.stays, fun htrue => hread (h.flag htrue) nofun, fun hconnected =>
        (h.connected hconnected).imp (fun hr => hread hr nofun)
          fun hmem => List.mem_append_left _ hmem, fun htcp hconnecting => ?_⟩
      apply mem_eraseIdx_of_ne hget (h.connecting htcp hconnecting)
      intro heq
      exact hdoomed ⟨(Op.connect.inj heq).symm, htcp⟩
  | received => exact hsame rfl nofun fun _ => rfl
  | sent => exact hsame rfl nofun nofun
  | readFailed => exact hsame rfl nofun fun _ => rfl
  | writeFailed => exact hsame rfl nofun nofun

/-- A read on a closed socket fails. -/
theorem onClosed_read (transport : Transport) : Op.onClosed transport .read = .readFailed :=
  (Op.onClosed_cases transport .read).resolve_right nofun

theorem readPending_startOp (s : Client F) : ReadPending (startOp .read s) := by
  unfold startOp
  split
  · refine .inr ⟨Op.onClosed s.transport .read,
      List.mem_append_right _ (List.mem_singleton_self _), ?_⟩
    rw [onClosed_read]
    rfl
  · exact .inl (List.mem_append_right _ (List.mem_singleton_self _))

/-- A completion that nothing hangs on is taken from the queue. -/
theorem live_taken {s : Client F} (h : Live s) {i : Nat} {c : Completion}
    (hget : s.completed[i]? = some c) (hread : c.isRead = false) (hc : c ≠ .connected) :
    Live { s with completed := s.completed.eraseIdx i } := by
  have hpending : ReadPending s → ReadPending { s with completed := s.completed.eraseIdx i } := by
    apply Or.imp_right
    rintro ⟨c', hmem, hc'⟩
    refine ⟨c', mem_eraseIdx_of_ne hget hmem ?_, hc'⟩
    rintro rfl
    rw [hread] at hc'
    cases hc'
  exact ⟨h.stays, fun htrue => hpending (h.flag htrue), fun hconnected =>
    (h.connected hconnected).imp hpending fun hmem => mem_eraseIdx_of_ne hget hmem hc.symm,
    h.connecting⟩

/-- A handler runs. One that succeeds starts the next read; one that fails leaves the flag false, so
that no read has to be on the way any more. -/
theorem live_handle {s s' : Client F} {i : Nat} {c : Completion} (h : Live s)
    (hget : s.completed[i]? = some c)
    (hs : Handles fmt { s with completed := s.completed.eraseIdx i } c s') : Live s' := by
  -- a read is started on a client that has one pending from then on
  have hreads : ∀ {t : Client F}, t.isClientClose = false → t.transport = s.transport →
      t.socket = s.socket → t.outstanding = s.outstanding → Live (startOp .read t) := by
    intro t hstays htransport hsocket houtstanding
    have hkept : (startOp .read t).isClientClose = t.isClientClose ∧
        (startOp .read t).transport = t.transport ∧ (startOp .read t).socket = t.socket ∧
        t.outstanding ⊆ (startOp .read t).outstanding := by
      unfold startOp
      split
      · exact ⟨rfl, rfl, rfl, List.Subset.refl _⟩
      · exact ⟨rfl, rfl, rfl, List.subset_append_left _ _⟩
    obtain ⟨hclose, htransport', hsocket', hsubset⟩ := hkept
    refine live_of_readPending (hclose.trans hstays) (readPending_startOp t) fun htcp hconnecting =>
      hsubset (houtstanding ▸ h.connecting ?_ ?_)
    · exact (htransport'.trans htransport).symm.trans htcp
    · exact (hsocket'.trans hsocket).symm.trans hconnecting
  cases hs with
  | connected => exact hreads h.stays rfl rfl rfl
  | connectFailed =>
    have htaken := live_taken h hget rfl nofun
    exact htaken.more rfl (fun htrue => nomatch htrue) rfl rfl (List.Subset.refl _)
      (List.Subset.refl _)
  | received bytes r => exact hreads h.stays rfl rfl rfl
  | readFailed =>
    obtain ⟨hflag, hsocket, hstays, -⟩ :=
      connectionLost_down (s := { s with completed := s.completed.eraseIdx i }) h.stays
    exact live_down hstays hflag hsocket
  | sentAll =>
    have htaken := live_taken h hget rfl nofun
    exact ⟨htaken.stays, htaken.flag, htaken.connected, htaken.connecting⟩
  | sentPart => exact live_startOp (live_taken h hget rfl nofun) _
  | writeFailed =>
    obtain ⟨hflag, hsocket, hstays, -⟩ :=
      connectionLost_down (s := { s with completed := s.completed.eraseIdx i }) h.stays
    exact live_down hstays hflag hsocket

/-- Every step but the user's `close_client` keeps it. -/
theorem live_step {s s' : Client F} {a : Action} (h : Live s) (ha : a ≠ .closeClient)
    (hs : step fmt s a = some s') : Live s' := by
  have hfields : ∀ {t : Client F}, t.isClientClose = s.isClientClose → t.isConnect = s.isConnect →
      t.transport = s.transport → t.socket = s.socket → t.outstanding = s.outstanding →
      t.completed = s.completed → Live t :=
    fun hclose hflag htransport hsocket houtstanding hcompleted =>
      h.more hclose (fun htrue => hflag.symm.trans htrue) htransport hsocket
        (houtstanding ▸ List.Subset.refl _) (hcompleted ▸ List.Subset.refl _)
  cases does_of_step hs with
  | complete hcomplete => exact live_complete h hcomplete
  | handle hget hhandler => exact live_handle h hget hhandler
  | message => exact hfields rfl rfl rfl rfl rfl rfl
  | reconnect => exact live_reconnect (hfields rfl rfl rfl rfl rfl rfl)
  | late => exact hfields rfl rfl rfl rfl rfl rfl
  | inTime => exact h
  | timeCheck => exact hfields rfl rfl rfl rfl rfl rfl
  | timeReconnect => exact live_reconnect (hfields rfl rfl rfl rfl rfl rfl)
  | closeClient => exact absurd rfl ha
  | reconnectServer => exact live_reconnect h
  | sendData data => exact live_startOp h _
  | refused => exact hfields rfl rfl rfl rfl rfl rfl
  | sendFormatData r =>
    refine live_startOp ?_ _
    exact hfields rfl rfl rfl rfl rfl rfl
  | unknown => exact h
  | tick d => exact hfields rfl rfl rfl rfl rfl rfl

/-! ## The way back -/

/-- The client is in the list, and its connection is lost: this is where the rounds of `timer_check`
have to bring it back from. -/
structure Down (s : Client F) : Prop where
  registered : s.registered = true
  flag : s.isConnect = false
  socket : s.transport = .tcp → s.socket ≠ .connecting ∧ s.socket ≠ .connected

/-- It is connected and reads. -/
structure Up (s : Client F) : Prop where
  flag : s.isConnect = true
  socket : s.socket = .connected
  reads : .read ∈ s.outstanding

/-- The handler of a failed read, wherever its completion is. -/
theorem gets_down_failed {s : Client F} (hreg : s.registered = true)
    (hstays : s.isClientClose = false) (hc : .readFailed ∈ s.completed) :
    ∃ t, Gets fmt 1 s t ∧ Down t := by
  obtain ⟨i, hi⟩ := List.mem_iff_getElem?.mp hc
  obtain ⟨hflag, hsocket, -, hreg'⟩ :=
    connectionLost_down (s := { s with completed := s.completed.eraseIdx i }) hstays
  refine ⟨connectionLost { s with completed := s.completed.eraseIdx i },
    gets_step (a := .handle i) rfl ?_, hreg'.trans hreg, hflag, fun _ => ?_⟩
  · show s.completed[i]?.bind _ = _
    rw [hi]
    rfl
  · rw [hsocket]
    exact ⟨nofun, nofun⟩

theorem gets_down_outstanding {s : Client F} (hreg : s.registered = true)
    (hstays : s.isClientClose = false) (hread : .read ∈ s.outstanding) :
    ∃ t, Gets fmt 2 s t ∧ Down t := by
  obtain ⟨i, hi⟩ := List.mem_iff_getElem?.mp hread
  have hfails : step fmt s (.complete i .failed)
      = some (ended i .readFailed s.socket s.reading s) := by
    show complete i .failed s = _
    unfold complete
    rw [hi]
    rfl
  obtain ⟨t, hgets, hdown⟩ := gets_down_failed (s := ended i .readFailed s.socket s.reading s) hreg
    hstays (List.mem_append_right _ (List.mem_singleton_self _))
  exact ⟨t, (gets_step rfl hfails).trans hgets, hdown⟩

/-- A read that is pending can be the end of the connection. A piece that waits for its handler is
handed to the formatter first. -/
theorem gets_down {s : Client F}
    (hdefined : ∀ length, .received length ∈ s.completed →
      (fmt.formatRecvBuffer s.connectId (s.recvBuffer.take length) s.packetFormat).isSome = true)
    (hreg : s.registered = true) (hstays : s.isClientClose = false) (hread : ReadPending s) :
    ∃ t, Gets fmt 3 s t ∧ Down t := by
  rcases hread with hread | ⟨c, hc, hisRead⟩
  · obtain ⟨t, hgets, hdown⟩ := gets_down_outstanding hreg hstays hread
    exact ⟨t, hgets.mono (by decide), hdown⟩
  · cases c with
    | connected | connectFailed | sent | writeFailed => cases hisRead
    | readFailed =>
      obtain ⟨t, hgets, hdown⟩ := gets_down_failed hreg hstays hc
      exact ⟨t, hgets.mono (by decide), hdown⟩
    | received length =>
      -- the pieces are taken in first, and the next read is the one that fails
      obtain ⟨i, hi⟩ := List.mem_iff_getElem?.mp hc
      obtain ⟨r, hcall⟩ := Option.isSome_iff_exists.mp (hdefined length hc)
      let u : Client F := { post (r.1.map fun p => .message (.packet p)) s with
        completed := s.completed.eraseIdx i
        packetFormat := r.2
        recvLastTimer := s.now
        received := s.received ++ [s.recvBuffer.take length] }
      have hhandle : step fmt s (.handle i) = some (startOp .read u) := by
        show s.completed[i]?.bind _ = _
        rw [hi, Option.bind_some]
        show (fmt.formatRecvBuffer s.connectId (s.recvBuffer.take length) s.packetFormat).map _ = _
        rw [hcall]
        rfl
      have hkept : (startOp .read u).registered = true ∧
          (startOp .read u).isClientClose = false := by
        unfold startOp
        split <;> exact ⟨hreg, hstays⟩
      have hnext : .read ∈ (startOp .read u).outstanding ∨
          .readFailed ∈ (startOp .read u).completed := by
        unfold startOp
        split
        · refine .inr (List.mem_append_right _ ?_)
          rw [onClosed_read]
          exact List.mem_singleton_self _
        · exact .inl (List.mem_append_right _ (List.mem_singleton_self _))
      rcases hnext with hnext | hnext
      · obtain ⟨t, hgets, hdown⟩ := gets_down_outstanding hkept.1 hkept.2 hnext
        exact ⟨t, (gets_step rfl hhandle).trans hgets, hdown⟩
      · obtain ⟨t, hgets, hdown⟩ := gets_down_failed hkept.1 hkept.2 hnext
        exact ⟨t, ((gets_step rfl hhandle).trans hgets).mono (by decide), hdown⟩

/-- The handler of a connect that has succeeded, on a socket that still is connected. -/
theorem gets_up_connected {s : Client F} (hsocket : s.socket = .connected)
    (hc : .connected ∈ s.completed) : ∃ t, Gets fmt 1 s t ∧ Up t := by
  obtain ⟨i, hi⟩ := List.mem_iff_getElem?.mp hc
  let u : Client F := { post [.message .connect] s with
    completed := s.completed.eraseIdx i
    isConnect := true
    recvLastTimer := s.now }
  have hopen : startOp .read u = { u with outstanding := u.outstanding ++ [.read] } := by
    apply if_neg
    intro hclosed
    change s.socket = .closed at hclosed
    rw [hsocket] at hclosed
    cases hclosed
  refine ⟨startOp .read u, gets_step (a := .handle i) rfl ?_, ?_⟩
  · show s.completed[i]?.bind _ = _
    rw [hi]
    rfl
  · rw [hopen]
    exact ⟨rfl, hsocket, List.mem_append_right _ (List.mem_singleton_self _)⟩

/-- A connect that is under way can succeed. -/
theorem gets_up_connecting {s : Client F} (hop : .connect false ∈ s.outstanding) :
    ∃ t, Gets fmt 2 s t ∧ Up t := by
  obtain ⟨i, hi⟩ := List.mem_iff_getElem?.mp hop
  have hsucceeds : step fmt s (.complete i .connected)
      = some (ended i .connected .connected s.reading s) := by
    show complete i .connected s = _
    unfold complete
    rw [hi]
    rfl
  obtain ⟨t, hgets, hup⟩ := gets_up_connected (s := ended i .connected .connected s.reading s) rfl
    (List.mem_append_right _ (List.mem_singleton_self _))
  exact ⟨t, (gets_step rfl hsucceeds).trans hgets, hup⟩

/-- The entry in the list of a round of `timer_check` leads to a connect. -/
theorem gets_up_listed {s : Client F} (h : Down s) {seconds : Int}
    (hsession : s.timeoutSession = some seconds) : ∃ t, Gets fmt 3 s t ∧ Up t := by
  let u : Client F := { s with timeoutSession := none }
  have hcheck : step fmt s .timerCheck = some (startConnect u) := by
    show s.timeoutSession.map _ = _
    rw [hsession, Option.map_some, doCheckTimeout, if_neg (by rw [h.flag]; exact nofun)]
    show some (reconnect u) = _
    rw [reconnect, if_pos h.flag]
  have hstarted : .connect false ∈ (startConnect u).outstanding := by
    cases htransport : s.transport with
    | tcp =>
      rw [startConnect_free (s := u) htransport (h.socket htransport)]
      exact List.mem_append_right _ (List.mem_singleton_self _)
    | udp =>
      unfold startConnect
      rw [show u.transport = .udp from htransport]
      exact List.mem_append_right _ (List.mem_singleton_self _)
  obtain ⟨t, hgets, hup⟩ := gets_up_connecting hstarted
  exact ⟨t, (gets_step rfl hcheck).trans hgets, hup⟩

/-- The client has been silent for long enough, and is in the list of the next round. -/
theorem gets_listed {s : Client F} (h : Down s) (hidle : s.timeoutSession = none)
    (hlow : -2147483648 ≤ s.timerCheckSeconds) (hhigh : s.timerCheckSeconds < 2147483647) :
    ∃ t seconds, Gets fmt 2 s t ∧ Down t ∧ t.timeoutSession = some seconds := by
  have hlate : -2147483648 ≤ s.timerCheckSeconds + 1 ∧ s.timerCheckSeconds + 1 < 2147483648 := by
    omega
  obtain ⟨d, hforward, hpass⟩ := exists_later hlate.1 hlate.2 s.recvLastTimer s.now
  let late : Client F := { s with now := s.now + d }
  have hseconds : late.getTimePassSeconds = s.timerCheckSeconds + 1 :=
    (ite_self _).trans hpass
  have hsnapshot : step fmt late .timerSnapshot
      = some { late with timeoutSession := some (s.timerCheckSeconds + 1) } := by
    show timerSnapshot late = _
    have hfree : ¬ late.timeoutSession.isSome = true := by
      rw [show late.timeoutSession = none from hidle]
      exact nofun
    rw [timerSnapshot, if_neg hfree, hseconds, if_pos ⟨h.registered, Int.lt_succ_self _⟩]
  have htick : Gets fmt 1 s late := gets_step (a := .tick d) (decide_eq_true hforward) rfl
  exact ⟨_, s.timerCheckSeconds + 1, htick.trans (gets_step rfl hsnapshot),
    ⟨h.registered, h.flag, h.socket⟩, rfl⟩

/-- Without a connection the next round of `timer_check` makes one. -/
theorem gets_up {s : Client F} (h : Down s) (hlow : -2147483648 ≤ s.timerCheckSeconds)
    (hhigh : s.timerCheckSeconds < 2147483647) : ∃ t, Gets fmt 5 s t ∧ Up t := by
  cases hsession : s.timeoutSession with
  | some seconds =>
    obtain ⟨t, hgets, hup⟩ := gets_up_listed h hsession
    exact ⟨t, hgets.mono (by decide), hup⟩
  | none =>
    obtain ⟨u, seconds, hgets, hdown, hlisted⟩ := gets_listed h hsession hlow hhigh
    obtain ⟨t, hgets', hup⟩ := gets_up_listed hdown hlisted
    exact ⟨t, hgets.trans hgets', hup⟩

theorem live_start (transport : Transport) (connectId : Nat) (timerCheckSeconds : Int) (pf : F) :
    Live (start transport connectId timerCheckSeconds pf) := by
  refine live_startConnect ⟨rfl, nofun, nofun, nofun⟩

/-- `timer_check_seconds_` is set once. -/
theorem timerCheckSeconds_of_step {a : Action} {s s' : Client F} (h : step fmt s a = some s') :
    s'.timerCheckSeconds = s.timerCheckSeconds := by
  cases does_of_step h with
  | closeClient | message | timeCheck | unknown => rfl
  | reconnect => exact (untouched_reconnect { s with ran := s.ran + 1 }).timerCheckSeconds
  | timeReconnect =>
    exact (untouched_reconnect { s with timeoutSession := none }).timerCheckSeconds
  | _ => exact (untouched_of_step h nofun nofun nofun).timerCheckSeconds

theorem timerCheckSeconds_of_run {as : List Action} {s s' : Client F}
    (h : run (step fmt) s as = some s') : s'.timerCheckSeconds = s.timerCheckSeconds :=
  invariant_of_run (fun u => u.timerCheckSeconds = s.timerCheckSeconds)
    (fun _ _ _ hu hs => (timerCheckSeconds_of_step hs).trans hu) rfl h

theorem timerCheckSeconds_start (transport : Transport) (connectId : Nat)
    (timerCheckSeconds : Int) (pf : F) :
    (start transport connectId timerCheckSeconds pf).timerCheckSeconds = timerCheckSeconds := by
  unfold start startConnect
  split <;> rfl

/-- A client that the user has not closed gets back. -/
theorem gets_up_of_live {s : Client F} (h : Live s) (hreg : s.registered = true)
    (hlow : -2147483648 ≤ s.timerCheckSeconds) (hhigh : s.timerCheckSeconds < 2147483647)
    (hdefined : ∀ length, .received length ∈ s.completed →
      (fmt.formatRecvBuffer s.connectId (s.recvBuffer.take length) s.packetFormat).isSome = true) :
    ∃ t, Gets fmt 8 s t ∧ Up t := by
  by_cases hread : ReadPending s
  · obtain ⟨u, hgets, hdown⟩ := gets_down hdefined hreg h.stays hread
    have hseconds : u.timerCheckSeconds = s.timerCheckSeconds := by
      obtain ⟨bs, -, -, hrun⟩ := hgets
      exact timerCheckSeconds_of_run hrun
    obtain ⟨t, hgets', hup⟩ := gets_up hdown (hseconds ▸ hlow) (hseconds ▸ hhigh)
    exact ⟨t, hgets.trans hgets', hup⟩
  · have hflag : s.isConnect = false := Bool.eq_false_iff.mpr fun htrue => hread (h.flag htrue)
    by_cases hconnected : s.socket = .connected
    · -- the connect's handler is still to come, and will start a read
      obtain ⟨t, hgets, hup⟩ := gets_up_connected hconnected
        ((h.connected hconnected).resolve_left hread)
      exact ⟨t, hgets.mono (by decide), hup⟩
    · by_cases hconnecting : s.transport = .tcp ∧ s.socket = .connecting
      · obtain ⟨t, hgets, hup⟩ := gets_up_connecting (h.connecting hconnecting.1 hconnecting.2)
        exact ⟨t, hgets.mono (by decide), hup⟩
      · have hdown : Down s :=
          ⟨hreg, hflag, fun htcp => ⟨fun heq => hconnecting ⟨htcp, heq⟩, hconnected⟩⟩
        obtain ⟨t, hgets, hup⟩ := gets_up hdown hlow hhigh
        exact ⟨t, hgets.mono (by decide), hup⟩

/-- **A client recovers.** In any run of a client, as long as the user has not closed it, there are
at most eight steps of the network, the I/O thread, `timer_check` and the clock after which it is
connected and reads. An `int` has to hold a number of seconds above `timer_check_seconds_`, and the
formatter has to return for a piece that waits for its handler. -/
theorem recovers (fmt : IpacketFormat F) (transport : Transport) (connectId : Nat)
    (timerCheckSeconds : Int) (pf : F) (as : List Action) (s : Client F)
    (hlow : -2147483648 ≤ timerCheckSeconds) (hhigh : timerCheckSeconds < 2147483647)
    (hrun : run (step fmt) (start transport connectId timerCheckSeconds pf) as = some s)
    (hreg : s.registered = true)
    (hdefined : ∀ length, .received length ∈ s.completed →
      (fmt.formatRecvBuffer s.connectId (s.recvBuffer.take length) s.packetFormat).isSome = true) :
    ∃ bs t, bs.length ≤ 8 ∧ (∀ a ∈ bs, a.unaided = true) ∧ run (step fmt) s bs = some t ∧
      t.isConnect = true ∧ t.socket = .connected ∧ .read ∈ t.outstanding := by
  have hlive : s.registered = true → Live s := by
    refine invariant_of_run (fun u => u.registered = true → Live u) (fun u a u' h hs hreg' => ?_)
      (fun _ => live_start transport connectId timerCheckSeconds pf) hrun
    by_cases ha : a = .closeClient
    · subst ha
      cases does_of_step hs with
      | closeClient => cases hreg'
      | unknown hunregistered => exact absurd hreg' hunregistered
    · exact live_step (h ((registered_of_step hs ha).symm.trans hreg')) ha hs
  have hseconds : s.timerCheckSeconds = timerCheckSeconds :=
    (timerCheckSeconds_of_run hrun).trans (timerCheckSeconds_start _ _ _ _)
  obtain ⟨t, ⟨bs, hlength, hbs, hrun'⟩, hup⟩ :=
    gets_up_of_live (hlive hreg) hreg (hseconds ▸ hlow) (hseconds ▸ hhigh) hdefined
  exact ⟨bs, t, hlength, hbs, hrun', hup.flag, hup.socket, hup.reads⟩

/-- A second connect fails on the live socket, and its handler clears the flag; then a piece
arrives. -/
def misledRun : List Action :=
  [.reconnectServer, .complete 0 .connected, .handle 0, .complete 0 .failed, .handle 0,
    .complete 0 (.received [1, 2, 3])]

theorem recovers_misledRun :
    ∃ s, run (step (cpacketFormat CpacketFormat.noPast)) (started .tcp) misledRun = some s ∧
      s.isConnect = false ∧ s.socket = .connected ∧ s.completed = [.received 3] ∧
      ∃ bs t, bs.length ≤ 8 ∧ (∀ a ∈ bs, a.unaided = true) ∧
        run (step (cpacketFormat CpacketFormat.noPast)) s bs = some t ∧ t.isConnect = true := by
  have hstate : ∃ s, run (step (cpacketFormat CpacketFormat.noPast)) (started .tcp) misledRun
      = some s ∧ s.isConnect = false ∧ s.socket = .connected ∧ s.completed = [.received 3] ∧
      s.registered = true ∧ s.recvBuffer = [1, 2, 3] ∧
      s.packetFormat = CpacketFormat.new (Vector.replicate maxBufferSize 0) :=
    ⟨_, rfl, rfl, rfl, rfl, rfl, rfl, rfl⟩
  obtain ⟨s, hrun, hflag, hsocket, hcompleted, hreg, hbuffer, hpf⟩ := hstate
  have hdefined : ∀ length, .received length ∈ s.completed →
      ((cpacketFormat CpacketFormat.noPast).formatRecvBuffer s.connectId
        (s.recvBuffer.take length) s.packetFormat).isSome = true := by
    intro length hmem
    rw [hcompleted] at hmem
    rw [Completion.received.inj (List.mem_singleton.mp hmem), hbuffer, hpf]
    show (CpacketFormat.formatRecvBuffer CpacketFormat.noPast
      (CpacketFormat.new (Vector.replicate maxBufferSize 0)) [1, 2, 3]).isSome = true
    decide +kernel
  obtain ⟨bs, t, hlength, hbs, hrun', hup, -⟩ :=
    recovers (cpacketFormat CpacketFormat.noPast) .tcp 1 30
      (CpacketFormat.new (Vector.replicate maxBufferSize 0)) misledRun s (by decide) (by decide)
      hrun hreg hdefined
  exact ⟨s, hrun, hflag, hsocket, hcompleted, bs, t, hlength, hbs, hrun', hup⟩

end PssClient.Client
