import PssClient.Manager.Shows

/-!
# The client and the table

What happens to one stream or datagram client happens to the table of a manager that has no other
one. The two machines are `PssClient.Client.Machine` and `PssClient.Manager.Clients`.

* `Mirrors` — the table has the entry of the client as long as it is registered, the object there
  shows it, and a round of `timer_check` has come as far.
* `follows_handler` / `follows_call` / `follows_timerCheck` — a handler, a call of the manager and
  the second half of a round, each of which is one action on the table.
* `mirrors_step` / `mirrors_of_run` — each step of the client is at most one action, and each run of
  the client is a run of the table.
-/

namespace PssClient

open Machine

/-- The call of the manager that makes it. -/
def Transport.startClient (serverIp : String) (serverPort : Int16) :
    Transport → ClientManager.Action
  | .tcp => .startClientTcp serverIp serverPort
  | .udp => .startClientUdp serverIp serverPort

/-! ## What a round of `timer_check` looks at -/

namespace Client

variable {F : Type*} {fmt : IpacketFormat F}

/-- Neither the clock nor the entries of the client are different. -/
structure SameRound (c c' : Client F) : Prop where
  registered : c'.registered = c.registered
  timeoutSession : c'.timeoutSession = c.timeoutSession
  timerCheckSeconds : c'.timerCheckSeconds = c.timerCheckSeconds
  now : c'.now = c.now

theorem sameRound_startOp (op : Op) (c : Client F) : SameRound c (startOp op c) := by
  rcases startOp_cases op c with hstart | hstart <;> rw [hstart] <;> exact ⟨rfl, rfl, rfl, rfl⟩

theorem sameRound_reconnect (c : Client F) : SameRound c (reconnect c) := by
  unfold reconnect
  split
  · unfold startConnect
    split <;> exact ⟨rfl, rfl, rfl, rfl⟩
  · exact ⟨rfl, rfl, rfl, rfl⟩

theorem sameRound_doCheckTimeout (seconds : Int) (c : Client F) :
    SameRound c (doCheckTimeout seconds c) := by
  unfold doCheckTimeout
  split
  · exact ⟨rfl, rfl, rfl, rfl⟩
  · exact sameRound_reconnect c

theorem sameRound_connectionLost (c : Client F) : SameRound c (connectionLost c) := by
  unfold connectionLost
  dsimp only
  split <;> exact ⟨rfl, rfl, rfl, rfl⟩

end Client

namespace ClientManager

variable {F Address : Type*} {fmt : IpacketFormat F} {fromString : String → Option Address}

/-! ## The table -/

/-- The table has the one client, and shows it: its entry is there as long as the client is
registered, and the round of `timer_check` has the client in its list when the client has been
listed. Both go by the same clock and the same limit, and no exception has ended the process. -/
structure Mirrors (fromString : String → Option Address) (id : Nat) (c : Client F)
    (s : ClientManager Address) : Prop where
  client : Shows fromString c (s.objects id)
  list : s.asioClientList = if c.registered = true then [id] else []
  session : s.timeoutSessionList = (c.timeoutSession.map fun seconds => (id, seconds)).toList
  limit : s.timerCheckSeconds = c.timerCheckSeconds
  now : s.now = c.now
  uncaught : s.uncaught = none

variable {id : Nat} {c c' : Client F} {s s' : ClientManager Address}

/-- The object goes on as the client does. -/
theorem Mirrors.setClient (h : Mirrors fromString id c s) {o : IIOClient Address}
    (ho : Shows fromString c' o) (hsame : c.SameRound c') :
    Mirrors fromString id c' (setClient id o s) where
  client := by
    show Shows fromString c' (Function.update s.objects id o id)
    rwa [Function.update_self]
  list := hsame.registered ▸ h.list
  session := hsame.timeoutSession ▸ h.session
  limit := hsame.timerCheckSeconds ▸ h.limit
  now := hsame.now ▸ h.now
  uncaught := h.uncaught

/-- The client goes on by itself. -/
theorem Mirrors.stays (h : Mirrors fromString id c s) (hc : Shows fromString c' (s.objects id))
    (hsame : c.SameRound c') : Mirrors fromString id c' s where
  client := hc
  list := hsame.registered ▸ h.list
  session := hsame.timeoutSession ▸ h.session
  limit := hsame.timerCheckSeconds ▸ h.limit
  now := hsame.now ▸ h.now
  uncaught := h.uncaught

theorem Mirrors.alive (h : Mirrors fromString id c s) : ¬ s.uncaught.isSome = true := by
  rw [h.uncaught]
  decide

/-- One action on the table. -/
theorem follows_one {a : Action} (hs : step fromString s a = some s')
    (h : Mirrors fromString id c' s') :
    ∃ as t, run (step fromString) s as = some t ∧ Mirrors fromString id c' t :=
  ⟨[a], s', run_singleton hs, h⟩

/-- The handler of an operation that is pending. -/
theorem follows_handle (h : Mirrors fromString id c s) {a : Action} {kind : OpKind}
    {o : IIOClient Address} (hpending : 0 < (s.objects id).pending kind)
    (ha : step fromString s a = if s.uncaught.isSome then none
      else handle ((s.objects id).pending kind) id o s)
    (ho : Shows fromString c' o) (hsame : c.SameRound c') :
    ∃ as t, run (step fromString) s as = some t ∧ Mirrors fromString id c' t := by
  refine follows_one (ha.trans ?_) (h.setClient ho hsame)
  rw [if_neg h.alive, handle, if_pos hpending]

/-- A call of the manager that finds the client. -/
theorem follows_call (h : Mirrors fromString id c s) (hreg : c.registered = true) {a : Action}
    {f : IIOClient Address → IIOClient Address}
    (ha : step fromString s a = if s.uncaught.isSome then none
      else some (withClient id f s))
    (ho : Shows fromString c' (f (s.objects id))) (hsame : c.SameRound c') :
    ∃ as t, run (step fromString) s as = some t ∧ Mirrors fromString id c' t := by
  refine follows_one (ha.trans ?_) (h.setClient ho hsame)
  have hmem : id ∈ s.asioClientList := by
    rw [h.list, if_pos hreg]
    exact List.mem_singleton_self id
  rw [if_neg h.alive, withClient, if_pos hmem]

/-- A handler of the client is a handler of the object. -/
theorem follows_handler (h : Mirrors fromString id c s) {i : Nat} {completion : Completion}
    (hget : c.completed[i]? = some completion)
    (hs : Client.Handles fmt { c with completed := c.completed.eraseIdx i } completion c') :
    ∃ as t, run (step fromString) s as = some t ∧ Mirrors fromString id c' t := by
  obtain ⟨hpending, htaken⟩ := h.client.taken hget
  have hnow := h.now
  cases hs with
  | connected =>
    have hhandler := htaken.connectHandler true
    have hround := Client.sameRound_startOp .read { Client.post [.message .connect] { c with
      completed := c.completed.eraseIdx i
      isConnect := true } with recvLastTimer := c.now }
    refine follows_handle h (a := .connectHandler id true) hpending rfl ?_
      ⟨hround.registered, hround.timeoutSession, hround.timerCheckSeconds, hround.now⟩
    rw [hnow]
    exact hhandler
  | connectFailed =>
    have hhandler := htaken.connectHandler false
    refine follows_handle h (a := .connectHandler id false) hpending rfl ?_ ⟨rfl, rfl, rfl, rfl⟩
    rw [hnow]
    exact hhandler
  | received length r hcall =>
    have hset : Shows fromString
        { Client.post (r.1.map fun p => .message (.packet p))
            { c with completed := c.completed.eraseIdx i } with
          packetFormat := r.2
          recvLastTimer := c.now
          received := c.received ++ [c.recvBuffer.take length] }
        (IIOClient.setRecvTime c.now ((s.objects id).taken .read)) := by
      have hpackets : Task.reconnect ∉ r.1.map fun p => Task.message (.packet p) := by simp
      refine (htaken.post hpackets).setFlags rfl rfl (fun kind => by cases kind <;> rfl) rfl rfl
        (fun _ => rfl) rfl rfl ?_
      have hflags := htaken.flags
      simp only [IIOClient.flags, Client.flags, Prod.mk.injEq] at hflags ⊢
      exact ⟨hflags.1, hflags.2.1, rfl, hflags.2.2.2⟩
    have hround := Client.sameRound_startOp .read
      { Client.post (r.1.map fun p => .message (.packet p))
          { c with completed := c.completed.eraseIdx i } with
        packetFormat := r.2
        recvLastTimer := c.now
        received := c.received ++ [c.recvBuffer.take length] }
    refine follows_handle h (a := .readHandler id true) hpending rfl ?_
      ⟨hround.registered, hround.timeoutSession, hround.timerCheckSeconds, hround.now⟩
    rw [hnow]
    exact hset.startOp .read rfl rfl rfl rfl fun kind => by cases kind <;> rfl
  | readFailed =>
    have hround := Client.sameRound_connectionLost
      { c with completed := c.completed.eraseIdx i }
    exact follows_handle h (a := .readHandler id false) hpending rfl htaken.connectionLost
      ⟨hround.registered, hround.timeoutSession, hround.timerCheckSeconds, hround.now⟩
  | sentAll rest sendLength hdone =>
    refine follows_handle h (a := .writeHandler id true) hpending rfl ?_ ⟨rfl, rfl, rfl, rfl⟩
    refine htaken.setFlags rfl rfl (fun kind => by cases kind <;> rfl) rfl rfl (fun _ => rfl) rfl
      rfl ?_
    have hflags := htaken.flags
    simp only [IIOClient.flags, Client.flags, Prod.mk.injEq] at hflags ⊢
    exact ⟨hflags.1, hflags.2.1, hflags.2.2.1, hnow⟩
  | sentPart rest sendLength hrest =>
    -- the write goes on, and is still the same one for the table
    have hround := Client.sameRound_startOp (.write (rest.drop sendLength))
      { c with completed := c.completed.eraseIdx i }
    have hobject : Shows fromString (Client.startOp (.write (rest.drop sendLength))
        { c with completed := c.completed.eraseIdx i }) (s.objects id) := by
      obtain ⟨hkind, haddress, hflags, hreconnects⟩ : ((s.objects id).taken .write).kind
          = (s.objects id).kind ∧ ((s.objects id).taken .write).serverIp
            = (s.objects id).serverIp ∧ ((s.objects id).taken .write).flags
              = (s.objects id).flags ∧ ((s.objects id).taken .write).reconnects
                = (s.objects id).reconnects := ⟨rfl, rfl, rfl, rfl⟩
      apply htaken.startOp _ hkind.symm haddress.symm hflags.symm hreconnects.symm
      intro kind
      have hpos : 0 < (s.objects id).writing := hpending
      cases kind with
      | connect | read => rfl
      | write =>
        show (s.objects id).writing = (s.objects id).writing - 1 + 1
        omega
    exact ⟨[], s, rfl, h.stays hobject
      ⟨hround.registered, hround.timeoutSession, hround.timerCheckSeconds, hround.now⟩⟩
  | writeFailed =>
    have hround := Client.sameRound_connectionLost
      { c with completed := c.completed.eraseIdx i }
    refine follows_handle h (a := .writeHandler id false) hpending rfl ?_
      ⟨hround.registered, hround.timeoutSession, hround.timerCheckSeconds, hround.now⟩
    have hlost := htaken.connectionLost
    have htime : (Client.connectionLost { c with completed := c.completed.eraseIdx i }).now
        = s.now := hround.now.trans hnow.symm
    refine hlost.setFlags rfl rfl (fun kind => by cases kind <;> rfl) rfl rfl (fun _ => rfl) rfl
      rfl ?_
    have hflags := hlost.flags
    simp only [IIOClient.flags, Client.flags, Prod.mk.injEq] at hflags ⊢
    exact ⟨hflags.1, hflags.2.1, hflags.2.2.1, htime.symm⟩

/-- The table has the client's entry for a round, and no other one. -/
theorem Mirrors.timeout (h : Mirrors fromString id c s) :
    s.asioClientList.filterMap s.timeout
      = if c.registered = true ∧ c.getTimePassSeconds > c.timerCheckSeconds then
          [(id, c.getTimePassSeconds)] else [] := by
  have hseconds : (s.objects id).getTimePassSeconds s.now = c.getTimePassSeconds := by
    rw [IIOClient.getTimePassSeconds, h.client.recvLastTimer, h.now]
    rfl
  have hentry : s.timeout id = if c.getTimePassSeconds > c.timerCheckSeconds then
      some (id, c.getTimePassSeconds) else none := by
    rw [ClientManager.timeout, hseconds, h.limit]
  rw [h.list]
  by_cases hreg : c.registered = true
  · by_cases hlate : c.getTimePassSeconds > c.timerCheckSeconds
    · rw [if_pos hreg, if_pos ⟨hreg, hlate⟩, List.filterMap_cons, hentry, if_pos hlate]
      rfl
    · rw [if_pos hreg, if_neg fun hboth => hlate hboth.2, List.filterMap_cons, hentry,
        if_neg hlate]
      rfl
  · rw [if_neg hreg, if_neg fun hboth => hreg hboth.1]
    rfl

/-- The first half of a round. -/
theorem follows_timerSnapshot (h : Mirrors fromString id c s) (session : Option Int)
    (hidle : c.timeoutSession = none)
    (hentry : (session.map fun seconds => (id, seconds)).toList
      = s.asioClientList.filterMap s.timeout) :
    ∃ as s', run (step fromString) s as = some s' ∧
      Mirrors fromString id { c with timeoutSession := session } s' := by
  have hnone : s.timeoutSessionList = [] := by
    rw [h.session, hidle]
    rfl
  have hsnapshot : timerSnapshot s = some { s with
      timeoutSessionList := s.asioClientList.filterMap s.timeout
      collected := s.collected ++ s.asioClientList.filterMap s.timeout } := if_pos hnone
  exact follows_one (a := .timerSnapshot) ((if_neg h.alive).trans hsnapshot)
    { h with
      client := h.client.same rfl rfl (fun _ => rfl) rfl rfl
      session := hentry.symm }

/-- The second half. -/
theorem follows_timerCheck (d : Device) (h : Mirrors fromString id c s) {seconds : Int}
    (hsession : c.timeoutSession = some seconds) :
    ∃ as s', run (step fromString) s as = some s' ∧ Mirrors fromString id
      (Client.doCheckTimeout seconds { c with timeoutSession := none }) s' := by
  have hround : Mirrors fromString id { c with timeoutSession := none }
      { s with timeoutSessionList := [] } :=
    { h with
      client := h.client.same rfl rfl (fun _ => rfl) rfl rfl
      session := rfl }
  have hlist : s.timeoutSessionList = [(id, seconds)] := by
    rw [h.session, hsession]
    rfl
  obtain ⟨hok, hobject⟩ := hround.client.doCheckTimeout seconds s.now d
  have hset := hround.setClient hobject (Client.sameRound_doCheckTimeout seconds _)
  have hcheck : ∃ collected reconnects, timerCheck fromString d s = some
      { setClient id (IIOClient.doCheckTimeout fromString seconds s.now d (s.objects id)).2
          { s with timeoutSessionList := [] } with
        checked := collected
        timerReconnects := reconnects
        uncaught := thrownBy id
          (IIOClient.doCheckTimeout fromString seconds s.now d (s.objects id)).1 } := by
    rw [timerCheck, hlist]
    exact ⟨_, _, rfl⟩
  obtain ⟨collected, reconnects, hcheck⟩ := hcheck
  refine follows_one (a := .timerCheck d) ((if_neg h.alive).trans hcheck)
    { hset with uncaught := ?_ }
  show thrownBy id (IIOClient.doCheckTimeout fromString seconds s.now d (s.objects id)).1 = none
  rw [show (IIOClient.doCheckTimeout fromString seconds s.now d (s.objects id)).1 = .ok () from hok]
  rfl

/-- A step of the client is at most one action on the table, whatever the port `d` of a serial
client would do. The clock may not go back. -/
theorem mirrors_step (d : Device) {a : Client.Action} (h : Mirrors fromString id c s)
    (htime : ∀ d, a = .tick d → 0 ≤ d) (hs : Client.step fmt c a = some c') :
    ∃ as s', run (step fromString) s as = some s' ∧ Mirrors fromString id c' s' := by
  cases Client.does_of_step hs with
  | complete hcomplete =>
    obtain ⟨op, completion, socket, buffer, hget, hends, rfl⟩ := Client.ends_of_complete hcomplete
    exact ⟨[], s, rfl, h.stays
      (h.client.same rfl rfl (fun _ => Client.unhandled_complete hcomplete) rfl rfl)
      ⟨rfl, rfl, rfl, rfl⟩⟩
  | handle hget hhandler => exact follows_handler h hget hhandler
  | message e hget =>
    exact ⟨[], s, rfl, h.stays (h.client.ranMessage hget) ⟨rfl, rfl, rfl, rfl⟩⟩
  | reconnect hget =>
    obtain ⟨hpos, hran⟩ := h.client.ranReconnect hget
    obtain ⟨hok, hobject⟩ := hran.reconnect s.now d
    have hround := Client.sameRound_reconnect { c with ran := c.ran + 1 }
    have hset := h.setClient hobject
      ⟨hround.registered, hround.timeoutSession, hround.timerCheckSeconds, hround.now⟩
    have htask : runTask fromString id d s = _ := if_pos hpos
    exact follows_one (a := .runTask id d) ((if_neg h.alive).trans htask)
      { hset with uncaught := congrArg (thrownBy id) hok }
  | late hidle hreg hlate =>
    apply follows_timerSnapshot h (some c.getTimePassSeconds) hidle
    rw [h.timeout, if_pos ⟨hreg, hlate⟩]
    rfl
  | inTime hidle hlate =>
    have hround := follows_timerSnapshot h none hidle (by rw [h.timeout, if_neg hlate]; rfl)
    rwa [← hidle] at hround
  | timeCheck seconds hsession hflag =>
    have hround := follows_timerCheck d h hsession
    rwa [Client.doCheckTimeout, if_pos hflag] at hround
  | timeReconnect seconds hsession hflag =>
    have hround := follows_timerCheck d h hsession
    have hclosed : ¬ c.isConnect = true := by
      rw [hflag]
      decide
    rwa [Client.doCheckTimeout, if_neg hclosed] at hround
  | closeClient hreg =>
    have hlist : s.asioClientList = [id] := h.list.trans (if_pos hreg)
    have hmem : id ∈ s.asioClientList := hlist ▸ List.mem_singleton_self id
    have hset : Mirrors fromString id (Client.closeClientSocket c)
        (setClient id (IIOClient.closeClientSocket (s.objects id)) s) :=
      h.setClient h.client.closeClientSocket ⟨rfl, rfl, rfl, rfl⟩
    apply follows_one (a := .closeClient id) (if_neg h.alive)
    rw [closeClient, if_pos hmem]
    refine { hset with
      client := hset.client.same rfl rfl (fun _ => rfl) rfl rfl
      list := ?_ }
    rw [hlist]
    simp
  | reconnectServer hreg =>
    exact follows_call h hreg (a := .reconnectServer id d) rfl
      (h.client.reconnect s.now d).2 (Client.sameRound_reconnect c)
  | sendData data hreg hdata =>
    exact follows_call h hreg (a := .clientSendData id) rfl (h.client.doWriteImmediately data)
      (Client.sameRound_startOp _ c)
  | refused hreg hclosed =>
    refine follows_call h hreg (a := .clientSendFormatData id) rfl ?_ ⟨rfl, rfl, rfl, rfl⟩
    have hrefuse : (s.objects id).kind ≠ .udp ∧ (s.objects id).isConnect = false := by
      rw [h.client.kind, h.client.isConnect, hclosed.1]
      exact ⟨by decide, hclosed.2⟩
    rw [IIOClient.doWriteFormatData, if_pos hrefuse]
    exact h.client.post (by decide)
  | sendFormatData r hreg hopen hformat =>
    have hround := Client.sameRound_startOp (.write r.1) { c with packetFormat := r.2 }
    refine follows_call h hreg (a := .clientSendFormatData id) rfl ?_
      ⟨hround.registered, hround.timeoutSession, hround.timerCheckSeconds, hround.now⟩
    have hgoes : ¬ ((s.objects id).kind ≠ .udp ∧ (s.objects id).isConnect = false) := by
      rw [h.client.kind, h.client.isConnect]
      rintro ⟨hkind, hflag⟩
      refine hopen ⟨?_, hflag⟩
      cases htransport : c.transport with
      | tcp => rfl
      | udp => exact absurd (htransport ▸ rfl) hkind
    have hsame : Shows fromString { c with packetFormat := r.2 } (s.objects id) :=
      h.client.same rfl rfl (fun _ => rfl) rfl rfl
    rw [IIOClient.doWriteFormatData, if_neg hgoes]
    exact hsame.doWriteImmediately r.1
  | unknown hreg ha => exact ⟨[], s, rfl, h⟩
  | tick nanoseconds =>
    have hd : (nanoseconds.toNat : Int) = nanoseconds :=
      Int.toNat_of_nonneg (htime nanoseconds rfl)
    have hnow : s.now + (nanoseconds.toNat : Int) = c.now + nanoseconds := by rw [hd, h.now]
    exact follows_one (a := .tick nanoseconds.toNat) (if_neg h.alive)
      { h with
        client := h.client.same rfl rfl (fun _ => rfl) rfl rfl
        now := hnow }

/-- `start_client_tcp` or `start_client_udp`, with an address that parses. -/
theorem mirrors_start (transport : Transport) {serverIp : String} (serverPort : Int16)
    (haddress : (fromString serverIp).isSome = true) (limit : Int) (pf : F) :
    ∃ s, step fromString (initial limit 0) (transport.startClient serverIp serverPort) = some s ∧
      Mirrors fromString 1 (Client.start transport 1 limit pf) s := by
  obtain ⟨address, hparse⟩ := Option.isSome_iff_exists.mp haddress
  -- the object is made with the time, and its first connect is under way
  have hobject : Shows fromString (Client.start transport 1 limit pf)
      (IIOClient.start fromString serverIp serverPort
        (IIOClient.made transport.clientKind 0)).2 := by
    rw [IIOClient.start, IIOClient.connect, hparse]
    cases transport <;>
      exact ⟨rfl, haddress, rfl, fun kind => by cases kind <;> rfl, rfl, Nat.le_refl 0⟩
  have hclient : Shows fromString (Client.start transport 1 limit pf)
      ((startClient transport.clientKind (IIOClient.start fromString serverIp serverPort)
        (initial limit 0)).2.objects 1) := by
    have hnew : (startClient transport.clientKind
        (IIOClient.start fromString serverIp serverPort) (initial limit 0)).2.objects 1
          = (IIOClient.start fromString serverIp serverPort
            (IIOClient.made transport.clientKind 0)).2 := by
      rw [startClient_eq]
      exact Function.update_self 1 _ (initial limit 0).objects
    rwa [hnew]
  refine ⟨_, ?_, hclient, ?_, ?_, ?_, ?_, ?_⟩
  · cases transport <;> rfl
  all_goals cases transport <;> rfl

/-- Whatever happens to the one client happens to the table of a manager that has no other. -/
theorem mirrors_of_run (d : Device) (transport : Transport) {serverIp : String}
    (serverPort : Int16) (haddress : (fromString serverIp).isSome = true) {limit : Int} {pf : F}
    {as : List Client.Action} (htime : ∀ nanoseconds, .tick nanoseconds ∈ as → 0 ≤ nanoseconds)
    (hrun : run (Client.step fmt) (Client.start transport 1 limit pf) as = some c) :
    ∃ bs s, run (step fromString) (initial limit 0)
        (transport.startClient serverIp serverPort :: bs) = some s ∧
      Mirrors fromString 1 c s := by
  obtain ⟨s, hstart, hmirrors⟩ := mirrors_start transport serverPort haddress limit pf
  have hmeets : Meets (Client.step fmt)
      (fun _ a => ∀ nanoseconds, a = .tick nanoseconds → 0 ≤ nanoseconds)
      (Client.start transport 1 limit pf) as := by
    refine meets_of_forall (fun a ha nanoseconds htick => htime nanoseconds ?_) _
    exact htick ▸ ha
  obtain ⟨bs, t, hbs, ht⟩ := follows_run (Mirrors fromString 1)
    (fun _ _ _ _ hm hG hs => mirrors_step d hm hG hs) hmirrors hmeets hrun
  exact ⟨bs, t, run_cons.mpr ⟨s, hstart, hbs⟩, ht⟩

end ClientManager

end PssClient
