import PssClient.Manager.Clients

/-!
# A start that fails

`start_client_tcp` and `start_client_udp` put the client into the table before they call `start`,
which throws when its string is not an IP address. Nothing takes the entry out again, and
`reconnect` parses the same string.

* `LeavesNoTrace` — a call has started a connect under the id that it returns, or has left the table
  alone.
* `Parsed` — the invariant of the runs in which every string is an address: so are those that
  `reconnect` parses.
* `failed_start` — the result. `entry_left` has a call that leaves an entry, and what `timer_check`
  makes of it.
* `openPort_start` / `openPort_reconnect` — a serial client in the table ends its calls as that of
  `PssClient.Client.Tty` does.
-/

namespace PssClient.ClientManager

open Machine IIOClient

variable {Address : Type*} {fromString : String → Option Address}

/-- The serial client in the table is that of `PssClient.Client.Tty`. -/
theorem openPort_start {F : Type*} (now : Int) (d : Device) (o : IIOClient Address)
    (connectId : Nat) (ttyName : String) (ttyPort : Int16) (c : TtyClient F) :
    (openPort now d o).1 = (TtyClient.start connectId ttyName ttyPort d c).1 := by
  cases hopened : d.opened with
  | false =>
    rw [TtyClient.start_notOpened _ _ _ hopened, openPort, if_pos hopened]
  | true =>
    rw [TtyClient.start_opened _ _ _ hopened, openPort, if_neg (by rw [hopened]; decide)]
    rfl

theorem openPort_reconnect {F : Type*} (now : Int) (d : Device) {o : IIOClient Address}
    (hkind : o.kind = .tty) (c : TtyClient F) :
    (reconnect fromString now d o).1 = (TtyClient.reconnect d c).1 := by
  rw [reconnect, if_pos hkind]
  cases hopened : d.opened with
  | false =>
    rw [TtyClient.reconnect_notOpened hopened, openPort, if_pos hopened]
    rfl
  | true =>
    rw [TtyClient.reconnect_opened hopened, openPort, if_neg (by rw [hopened]; decide)]
    rfl

/-! ## One call -/

/-- A call of one of the starts returns an id under which a client with a connect is registered, or
throws and leaves the table as it was. -/
def LeavesNoTrace (s : ClientManager Address)
    (r : Except Exception Nat × ClientManager Address) : Prop :=
  match r.1 with
  | .ok id => id ∈ r.2.asioClientList ∧ (r.2.objects id).connects ≠ []
  | .error _ => r.2.asioClientList = s.asioClientList

theorem start_of_some {serverIp : String} {address : Address}
    (h : fromString serverIp = some address) (serverPort : Int16) (o : IIOClient Address) :
    start fromString serverIp serverPort o
      = (.ok true, { o with
          serverIp := serverIp
          serverPort := serverPort
          connecting := o.connecting + 1
          connects := o.connects ++ [(address, serverPort.toUInt16)] }) := by
  simp [start, connect, h]

theorem start_of_none {serverIp : String} (h : fromString serverIp = none) (serverPort : Int16)
    (o : IIOClient Address) :
    start fromString serverIp serverPort o
      = (.error .systemError,
          { o with serverIp := serverIp, serverPort := serverPort, startFailed := true }) := by
  simp [start, connect, h]

theorem leavesNoTrace_iff (kind : ClientKind) (serverIp : String) (serverPort : Int16)
    (s : ClientManager Address) :
    LeavesNoTrace s (startClient kind (start fromString serverIp serverPort) s) ↔
      (fromString serverIp).isSome := by
  rw [startClient_eq]
  cases hparse : fromString serverIp with
  | none =>
    rw [start_of_none hparse]
    refine iff_of_false (fun hsame => ?_) (by simp)
    have htable : s.asioClientList ++ [s.currClientId] = s.asioClientList := hsame
    exact absurd htable (by simp)
  | some address =>
    rw [start_of_some hparse]
    refine iff_of_true ⟨List.mem_append_right _ (List.mem_singleton_self _), ?_⟩ rfl
    show (Function.update s.objects s.currClientId _ s.currClientId).connects ≠ []
    rw [Function.update_self]
    simp

/-! ## Runs in which every string is an address -/

/-- The string given to a start is an IP address. -/
def GivenAddress (fromString : String → Option Address) : Action → Prop
  | .startClientTcp serverIp _ | .startClientUdp serverIp _ => (fromString serverIp).isSome
  | _ => True

instance (a : Action) : Decidable (GivenAddress fromString a) := by
  unfold GivenAddress
  split <;> infer_instance

/-- `start` has not thrown, and `reconnect` will not: the address that a stream or datagram client
keeps is one that `from_string` parses, as it has parsed it in `start`. -/
structure Connectable (fromString : String → Option Address) (o : IIOClient Address) : Prop where
  startFailed : o.startFailed = false
  serverIp : o.kind ≠ .tty → (fromString o.serverIp).isSome

theorem Connectable.of_record {o o' : IIOClient Address} (h : Connectable fromString o)
    (hsame : o'.record = o.record) : Connectable fromString o' := by
  simp only [record, Prod.mk.injEq] at hsame
  obtain ⟨hkind, hserverIp, hfailed, -⟩ := hsame
  exact ⟨hfailed.trans h.startFailed, fun hne => hserverIp ▸ h.serverIp (hkind ▸ hne)⟩

theorem Connectable.evolves {now : Int} {o o' : IIOClient Address} (h : Connectable fromString o)
    (he : Evolves now o o') : Connectable fromString o' := by
  cases he with
  | untouched hsame => exact h.of_record hsame
  | received hsame =>
    have hset : Connectable fromString (setRecvTime now o) := ⟨h.startFailed, h.serverIp⟩
    exact hset.of_record hsame
  | written hsame =>
    have hset : Connectable fromString (setWriteTime now o) := ⟨h.startFailed, h.serverIp⟩
    exact hset.of_record hsame

/-- The parse of a string that is an address does not throw. -/
theorem reconnect_ok {o : IIOClient Address} (h : Connectable fromString o) (hkind : o.kind ≠ .tty)
    (now : Int) (d : Device) : (reconnect fromString now d o).1 = .ok () := by
  obtain ⟨address, haddress⟩ := Option.isSome_iff_exists.mp (h.serverIp hkind)
  have hconnect : ∃ o', connect fromString o = .ok o' := ⟨_, by rw [connect, haddress]⟩
  obtain ⟨o', hconnect⟩ := hconnect
  rw [reconnect, if_neg hkind]
  split
  · rw [hconnect]
  · rfl

theorem doCheckTimeout_ok {o : IIOClient Address} (h : Connectable fromString o)
    (hkind : o.kind ≠ .tty) (seconds now : Int) (d : Device) :
    (doCheckTimeout fromString seconds now d o).1 = .ok () := by
  unfold doCheckTimeout
  split
  · rfl
  · exact reconnect_ok h hkind now d

/-- The invariant of the runs in which every start is given an address: every client can connect,
and only a serial one can have ended the process, with the `character_size` that every open of a
port constructs. -/
structure Parsed (fromString : String → Option Address) (s : ClientManager Address) : Prop where
  connectable : ∀ id, Connectable fromString (s.objects id)
  uncaught : ∀ id, s.uncaught = some id → (s.objects id).kind = .tty

theorem parsed_initial (timerCheckSeconds now : Int) :
    Parsed fromString (initial timerCheckSeconds now) where
  connectable := fun _ => ⟨rfl, fun hkind => absurd rfl hkind⟩
  uncaught := fun _ h => by cases h

/-- The object of a start whose string is an address. -/
theorem connectable_of_made {now : Int} {a : Action} {o : IIOClient Address}
    (h : Made fromString now a o) (hgiven : GivenAddress fromString a) :
    Connectable fromString o := by
  cases h with
  | tcp serverIp serverPort | udp serverIp serverPort =>
    obtain ⟨address, haddress⟩ := Option.isSome_iff_exists.mp hgiven
    rw [start_of_some haddress]
    exact ⟨rfl, fun _ => hgiven⟩
  | tty d =>
    have hmade : Connectable fromString (made .tty now) := ⟨rfl, fun hkind => absurd rfl hkind⟩
    exact hmade.evolves (evolves_openPort now d _)

theorem Parsed.evolve {s s' : ClientManager Address} (h : Parsed fromString s)
    (hobjects : ∀ id, Evolves s.now (s.objects id) (s'.objects id))
    (huncaught : ∀ id, s'.uncaught = some id → (s.objects id).kind = .tty) :
    Parsed fromString s' where
  connectable := fun id => (h.connectable id).evolves (hobjects id)
  uncaught := fun id hid => (hobjects id).kind_eq.trans (huncaught id hid)

/-- Of the clients that can connect only a serial one throws. -/
theorem kind_of_thrownBy {id i : Nat} {o : IIOClient Address} {r : Except Exception Unit}
    (hok : o.kind ≠ .tty → r = .ok ()) (h : thrownBy id r = some i) : i = id ∧ o.kind = .tty := by
  by_cases hkind : o.kind = .tty
  · cases r with
    | error e => exact ⟨(Option.some.inj h).symm, hkind⟩
    | ok u => cases h
  · rw [hok hkind] at h
    cases h

/-- A step is taken only as long as nothing has been thrown. -/
theorem uncaught_of_step {s s' : ClientManager Address} {a : Action}
    (h : step fromString s a = some s') : s.uncaught = none := by
  unfold step at h
  obtain ⟨hnone, -⟩ := Option.ite_none_left_eq_some.mp h
  exact Option.not_isSome_iff_eq_none.mp hnone

/-- A step keeps every client connectable. A client that is made has been given an address; the
others keep theirs, and a reconnect of one that is connectable does not throw. -/
theorem parsed_step {s s' : ClientManager Address} {a : Action} (h : Parsed fromString s)
    (hgiven : GivenAddress fromString a) (hs : step fromString s a = some s') :
    Parsed fromString s' := by
  cases does_of_step hs with
  | started hmade =>
    refine ⟨?_, fun id hid => ?_⟩
    · exact (Function.forall_update_iff s.objects fun _ => Connectable fromString).mpr
        ⟨connectable_of_made hmade hgiven, fun id _ => h.connectable id⟩
    · have hnone : s.uncaught = some id := hid
      rw [uncaught_of_step hs] at hnone
      cases hnone
  | client id ho => exact h.evolve (evolves_setClient ho) h.uncaught
  | close =>
    obtain ⟨hobjects, -, huncaught, -⟩ := close_spec s
    exact h.evolve hobjects (huncaught ▸ h.uncaught)
  | task id d =>
    apply h.evolve (evolves_setClient (evolves_reconnect _ _ _).of_pending)
    intro i hi
    have hid : Connectable fromString
        { s.objects id with reconnects := (s.objects id).reconnects - 1 } :=
      ⟨(h.connectable id).startFailed, (h.connectable id).serverIp⟩
    obtain ⟨rfl, hkind⟩ := kind_of_thrownBy (fun hkind => reconnect_ok hid hkind s.now d) hi
    exact hkind
  | snapshot => exact h.evolve (fun id => .untouched rfl) h.uncaught
  | check d id seconds rest =>
    apply h.evolve (evolves_setClient (evolves_doCheckTimeout _ _ _ _))
    intro i hi
    obtain ⟨rfl, hkind⟩ := kind_of_thrownBy
      (fun hkind => doCheckTimeout_ok (h.connectable id) hkind seconds s.now d) hi
    exact hkind
  | tick d => exact h.evolve (fun id => .untouched rfl) h.uncaught

/-- **A start leaves no trace exactly when it is given an IP address.** This holds of every table
that can be reached. When all the starts of a run have been given one, none of them has failed, no
round of `timer_check` parses anything else, and only a serial client can end the process. -/
theorem failed_start (timerCheckSeconds now : Int) (as : List Action) (s : ClientManager Address)
    (hrun : run (step fromString) (initial timerCheckSeconds now) as = some s) :
    (∀ serverIp serverPort,
      (LeavesNoTrace s (startClientTcp fromString serverIp serverPort s) ↔
        (fromString serverIp).isSome) ∧
      (LeavesNoTrace s (startClientUdp fromString serverIp serverPort s) ↔
        (fromString serverIp).isSome)) ∧
    ((∀ a ∈ as, GivenAddress fromString a) →
      (∀ id ∈ s.timerReconnects, (s.objects id).startFailed = false ∧
        ((s.objects id).kind ≠ .tty → (fromString (s.objects id).serverIp).isSome)) ∧
      ∀ id, s.uncaught = some id → (s.objects id).kind = .tty) := by
  refine ⟨fun serverIp serverPort => ⟨leavesNoTrace_iff .tcp serverIp serverPort s,
    leavesNoTrace_iff .udp serverIp serverPort s⟩, fun hgiven => ?_⟩
  have h : Parsed fromString s :=
    invariant_of_meets (Parsed fromString) (fun _ _ _ hp hg hs => parsed_step hp hg hs)
      (parsed_initial timerCheckSeconds now) (meets_of_forall hgiven _) hrun
  exact ⟨fun id _ => ⟨(h.connectable id).startFailed, (h.connectable id).serverIp⟩, h.uncaught⟩

/-- A parser that knows one address. -/
def loopback (serverIp : String) : Option Unit := if serverIp = "127.0.0.1" then some () else none

/-- A client is started, and a round of `timer_check` comes half a minute later. -/
def startedWith (serverIp : String) : List Action :=
  [.startClientTcp serverIp 10002, .tick 31000000000, .timerSnapshot, .timerCheck ⟨false, false⟩]

theorem failed_start_loopback :
    ∃ s, run (step loopback) (initial 30 0) (startedWith "127.0.0.1") = some s ∧
      (∀ serverIp serverPort,
        (LeavesNoTrace s (startClientTcp loopback serverIp serverPort s) ↔
          (loopback serverIp).isSome) ∧
        (LeavesNoTrace s (startClientUdp loopback serverIp serverPort s) ↔
          (loopback serverIp).isSome)) ∧
      (∀ id ∈ s.timerReconnects, (s.objects id).startFailed = false ∧
        ((s.objects id).kind ≠ .tty → (loopback (s.objects id).serverIp).isSome)) ∧
      ∀ id, s.uncaught = some id → (s.objects id).kind = .tty :=
  ⟨_, rfl, (failed_start 30 0 (startedWith "127.0.0.1") _ rfl).1,
    (failed_start 30 0 (startedWith "127.0.0.1") _ rfl).2 (by decide)⟩

/-- A host name is not an address. The entry stays in the table, and the next round of `timer_check`
calls `reconnect` for it, which throws on the worker. -/
theorem entry_left :
    ¬ LeavesNoTrace (initial 30 0) (startClientTcp loopback "localhost" 10002 (initial 30 0)) ∧
      (run (step loopback) (initial 30 0) (startedWith "localhost")).map
        (fun s => (s.timerReconnects, s.uncaught)) = some ([1], some 1) :=
  ⟨(by cases ·), rfl⟩

end PssClient.ClientManager
