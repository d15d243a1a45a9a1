import PssClient.Client.Tty

/-!
# Which port a serial client opens

`start` remembers its arguments for `reconnect` when `add_serial_port` has returned true, and that
it never does: the default of `char_size` is 1, for which `character_size` throws as soon as a port
has been opened.

* `Usable` / `never_usable` — the result on a port that opens: neither `start` nor `reconnect` gets
  as far as using it.
* `Remembers` — the client has the given name and port for its next `reconnect`, and has used no
  others. A step keeps this.
* `reopens_iff` — the result on the ports that are opened: `reconnect` takes the empty name and a
  value that has not been initialised.
-/

namespace PssClient.TtyClient

open Machine

variable {F : Type*} {fmt : IpacketFormat F}

/-! ## A port that opens -/

/-- `add_serial_port` throws when the port has been opened and the size is out of range. -/
theorem addSerialPort_throws_iff (ttyName : String) (ttyPort : UInt16) (charSize : Nat) (d : Device)
    (s : TtyClient F) :
    (∃ e, (addSerialPort ttyName ttyPort charSize d s).1 = .error e) ↔
      d.opened = true ∧ (charSize < 5 ∨ charSize > 8) := by
  cases hopened : d.opened with
  | false =>
    rw [addSerialPort_notOpened _ _ _ hopened]
    simp
  | true =>
    rw [addSerialPort_opened _ _ _ hopened, characterSize]
    split
    case isTrue hsize => simpa [Except.map] using hsize
    case isFalse hsize => simpa [Except.map] using hsize

/-- The client is connected and reads. -/
structure Usable (s : TtyClient F) : Prop where
  isConnect : s.isConnect = true
  reading : .read ∈ s.outstanding

/-- `start` returns true, and the client can be used. -/
def StartUsable (connectId : Nat) (ttyName : String) (ttyPort : Int16) (d : Device)
    (s : TtyClient F) : Prop :=
  (start connectId ttyName ttyPort d s).1 = .ok true ∧
    Usable (start connectId ttyName ttyPort d s).2

/-- `reconnect` returns, and the client can be used. -/
def ReconnectUsable (d : Device) (s : TtyClient F) : Prop :=
  (reconnect d s).1 = .ok () ∧ Usable (reconnect d s).2

/-- **A serial port that opens is never usable.** Whatever the client is asked to open and whatever
the device answers afterwards, both `start` and `reconnect` leave with an exception. -/
theorem never_usable (connectId : Nat) (ttyName : String) (ttyPort : Int16) (d : Device)
    (s : TtyClient F) (hopened : d.opened = true) :
    ¬ StartUsable connectId ttyName ttyPort d s ∧ ¬ ReconnectUsable d s := by
  constructor
  · rintro ⟨hreturns, -⟩
    rw [start_opened _ _ _ hopened] at hreturns
    cases hreturns
  · rintro ⟨hreturns, -⟩
    rw [reconnect_opened hopened] at hreturns
    cases hreturns

/-- A client that has just been made, with a formatter that has no state. -/
def fresh : TtyClient Unit := made () 0 0

theorem never_usable_ttyUSB0 :
    ¬ StartUsable 1 "/dev/ttyUSB0" 9600 ⟨true, true⟩ fresh ∧ ¬ ReconnectUsable ⟨true, true⟩ fresh :=
  never_usable 1 "/dev/ttyUSB0" 9600 ⟨true, true⟩ fresh rfl

/-- The device is there, and its baud rate is read back; `start` throws. -/
theorem opened_not_usable : ¬ StartUsable 1 "/dev/ttyUSB0" 9600 ⟨true, true⟩ fresh := by
  rintro ⟨hreturns, -⟩
  cases hreturns

/-- On the worker that runs `timer_check` the exception ends the process. -/
theorem terminated_of_opened (seconds : Int) {d : Device} (hopened : d.opened = true)
    {s : TtyClient F} (hclosed : s.isConnect = false) :
    (onWorker (doCheckTimeout seconds d s)).terminated = true := by
  rw [doCheckTimeout, if_neg (by rw [hclosed]; decide), reconnect_opened hopened]
  rfl

/-! ## The ports that are opened -/

/-- What the client knows of ports, and has done with them. -/
def ports (s : TtyClient F) : String × Int16 × List String × List UInt16 :=
  (s.ttyName, s.ttyPort, s.opens, s.bauds)

@[simp] theorem ports_startOp (op : PortOp) (s : TtyClient F) : (startOp op s).ports = s.ports := by
  unfold startOp
  split <;> rfl

theorem ports_complete {i : Nat} {outcome : Outcome} {s s' : TtyClient F}
    (h : complete i outcome s = some s') : s'.ports = s.ports := by
  unfold complete at h
  split at h
  case h_1 | h_2 =>
    obtain ⟨-, heq⟩ := Option.ite_none_right_eq_some.mp h
    exact Option.some.inj heq ▸ rfl
  case h_3 => exact Option.some.inj h ▸ rfl
  case h_4 => cases h

@[simp] theorem ports_doWriteImmediately (data : List UInt8) (s : TtyClient F) :
    (doWriteImmediately data s).ports = s.ports := by
  unfold doWriteImmediately
  split
  · rfl
  · exact ports_startOp _ _

theorem ports_doWriteFormatData {commandId : Int16} {data : List UInt8} {length : Nat}
    {s s' : TtyClient F} (h : doWriteFormatData fmt commandId data length s = some s') :
    s'.ports = s.ports := by
  unfold doWriteFormatData at h
  split at h
  · exact Option.some.inj h ▸ rfl
  · obtain ⟨r, -, rfl⟩ := Option.map_eq_some_iff.mp h
    exact ports_doWriteImmediately _ _

@[simp] theorem ports_connectionLost (s : TtyClient F) : (connectionLost s).ports = s.ports := by
  unfold connectionLost
  dsimp only
  split <;> rfl

theorem ports_handler {c : PortCompletion} {s s' : TtyClient F} (h : handler fmt c s = some s') :
    s'.ports = s.ports := by
  cases c with
  | received bytes =>
    obtain ⟨r, -, rfl⟩ := Option.map_eq_some_iff.mp h
    exact ports_startOp _ _
  | readFailed => exact Option.some.inj h ▸ ports_connectionLost s
  | sent sendLength => exact Option.some.inj h ▸ rfl
  | writeFailed => exact Option.some.inj h ▸ ports_connectionLost s

@[simp] theorem ports_onWorker (r : Except Exception Unit × TtyClient F) :
    (onWorker r).ports = r.2.ports := by
  obtain ⟨(e | ⟨⟩), s⟩ := r <;> rfl

/-- A step reopens the port, by way of `reconnect`, or does not touch it. -/
theorem step_cases {s s' : TtyClient F} {a : Action} (h : step fmt s a = some s') :
    s'.ports = s.ports ∨
      ∃ (d : Device) (s₁ : TtyClient F),
        s₁.ports = s.ports ∧ s'.ports = (reconnect d s₁).2.ports := by
  unfold step at h
  obtain ⟨-, h⟩ := Option.ite_none_left_eq_some.mp h
  cases a with
  | complete i outcome => exact .inl (ports_complete h)
  | handle i =>
    obtain ⟨c, -, hhandler⟩ := Option.bind_eq_some_iff.mp h
    exact .inl ((ports_handler hhandler).trans rfl)
  | runTask d =>
    obtain ⟨task, -, rfl⟩ := Option.map_eq_some_iff.mp h
    cases task with
    | message e => exact .inl rfl
    | reconnect =>
      exact .inr ⟨d, { s with ran := s.ran + 1 }, rfl,
        ports_onWorker (reconnect d { s with ran := s.ran + 1 })⟩
  | doCheckTimeout seconds d =>
    cases h
    rw [ports_onWorker]
    unfold doCheckTimeout
    split
    · exact .inl rfl
    · exact .inr ⟨d, s, rfl, rfl⟩
  | reconnectServer d => exact .inr ⟨d, s, rfl, Option.some.inj h ▸ rfl⟩
  | clientSendData sendBuff sendSize =>
    obtain ⟨data, -, rfl⟩ := Option.map_eq_some_iff.mp h
    exact .inl (ports_doWriteImmediately _ _)
  | clientSendFormatData commandId sendBuff sendSize => exact .inl (ports_doWriteFormatData h)
  | closeClient => exact .inl (Option.some.inj h ▸ rfl)
  | tick d => exact .inl (Option.some.inj h ▸ rfl)

/-- Every `open` had the given name, and every baud rate was the given one. -/
structure AsGiven (ttyName : String) (ttyPort : Int16) (s : TtyClient F) : Prop where
  opens : ∀ name ∈ s.opens, name = ttyName
  bauds : ∀ baud ∈ s.bauds, baud = ttyPort.toUInt16

/-- The next `reconnect` takes them too. -/
structure Remembers (ttyName : String) (ttyPort : Int16) (s : TtyClient F) : Prop
    extends AsGiven ttyName ttyPort s where
  ttyName_eq : s.ttyName = ttyName
  ttyPort_eq : s.ttyPort = ttyPort

theorem Remembers.of_ports {ttyName : String} {ttyPort : Int16} {s s' : TtyClient F}
    (h : Remembers ttyName ttyPort s) (hports : s'.ports = s.ports) :
    Remembers ttyName ttyPort s' := by
  simp only [ports, Prod.mk.injEq] at hports
  obtain ⟨hname, hport, hopens, hbauds⟩ := hports
  exact ⟨⟨hopens ▸ h.opens, hbauds ▸ h.bauds⟩, hname.trans h.ttyName_eq, hport.trans h.ttyPort_eq⟩

theorem AsGiven.notOpened {ttyName : String} {ttyPort : Int16} {s : TtyClient F}
    (h : AsGiven ttyName ttyPort s) : AsGiven ttyName ttyPort (notOpened ttyName s) where
  opens := List.forall_mem_append.mpr ⟨h.opens, by simp⟩
  bauds := h.bauds

theorem AsGiven.justOpened {ttyName : String} {ttyPort : Int16} {s : TtyClient F}
    (h : AsGiven ttyName ttyPort s) :
    AsGiven ttyName ttyPort (justOpened ttyName ttyPort.toUInt16 s) where
  opens := List.forall_mem_append.mpr ⟨h.opens, by simp⟩
  bauds := List.forall_mem_append.mpr ⟨h.bauds, by simp⟩

theorem Remembers.reconnect {ttyName : String} {ttyPort : Int16} {s : TtyClient F}
    (h : Remembers ttyName ttyPort s) (d : Device) :
    Remembers ttyName ttyPort (reconnect d s).2 := by
  cases hopened : d.opened with
  | false =>
    rw [reconnect_notOpened hopened, h.ttyName_eq]
    exact ⟨h.toAsGiven.notOpened, h.ttyName_eq, h.ttyPort_eq⟩
  | true =>
    rw [reconnect_opened hopened, h.ttyName_eq, h.ttyPort_eq]
    exact ⟨h.toAsGiven.justOpened, h.ttyName_eq, h.ttyPort_eq⟩

theorem remembers_step {ttyName : String} {ttyPort : Int16} {s s' : TtyClient F} {a : Action}
    (h : Remembers ttyName ttyPort s) (hs : step fmt s a = some s') :
    Remembers ttyName ttyPort s' := by
  rcases step_cases hs with hsame | ⟨d, s₁, hsame, hreopened⟩
  · exact h.of_ports hsame
  · exact ((h.of_ports hsame).reconnect d).of_ports hreopened

/-- `start` leaves the name empty and the port uninitialised. -/
theorem start_ports (connectId : Nat) (ttyName : String) (ttyPort : Int16) (d : Device) (pf : F)
    (junk : Int16) (now : Int) :
    (start connectId ttyName ttyPort d (made pf junk now)).2.ttyName = "" ∧
    (start connectId ttyName ttyPort d (made pf junk now)).2.ttyPort = junk ∧
    (start connectId ttyName ttyPort d (made pf junk now)).2.isConnect = false ∧
    (start connectId ttyName ttyPort d (made pf junk now)).2.terminated = false ∧
    AsGiven ttyName ttyPort (start connectId ttyName ttyPort d (made pf junk now)).2 := by
  have hnone : AsGiven ttyName ttyPort { made pf junk now with connectId := connectId } :=
    ⟨List.forall_mem_nil _, List.forall_mem_nil _⟩
  cases hopened : d.opened with
  | false =>
    rw [start_notOpened _ _ _ hopened]
    exact ⟨rfl, rfl, rfl, rfl, hnone.notOpened⟩
  | true =>
    rw [start_opened _ _ _ hopened]
    exact ⟨rfl, rfl, rfl, rfl, hnone.justOpened⟩

/-- **A serial client reopens its own device only by accident.** After `start`, whether its port has
opened or not, every later `open` has the name and every baud rate is the port given to it exactly
when that name is empty and the uninitialised `tty_port_` happens to be that port. -/
theorem reopens_iff (fmt : IpacketFormat F) (connectId : Nat) (ttyName : String) (ttyPort : Int16)
    (d : Device) (pf : F) (junk : Int16) (now : Int) :
    (∀ as s, run (step fmt) (start connectId ttyName ttyPort d (made pf junk now)).2 as = some s →
      AsGiven ttyName ttyPort s) ↔ ttyName = "" ∧ junk = ttyPort := by
  obtain ⟨hname, hport, hconnect, hterminated, hgiven⟩ :=
    start_ports connectId ttyName ttyPort d pf junk now
  constructor
  · intro h
    -- the first round of `timer_check` finds the device
    have hcheck := h [.doCheckTimeout 31 ⟨true, true⟩] _ (run_singleton (by
      rw [step, if_neg (by rw [hterminated]; decide)]))
    rw [doCheckTimeout, if_neg (by rw [hconnect]; decide), reconnect_opened rfl, hname, hport]
      at hcheck
    have hlast := hcheck.opens "" (List.mem_append_right _ (List.mem_singleton_self _))
    have hbaud := hcheck.bauds junk.toUInt16 (List.mem_append_right _ (List.mem_singleton_self _))
    refine ⟨hlast.symm, ?_⟩
    have hshort := congrArg UInt16.toInt16 hbaud
    rwa [Int16.toInt16_toUInt16, Int16.toInt16_toUInt16] at hshort
  · rintro ⟨rfl, rfl⟩ as s hrun
    have hstart : Remembers "" junk (start connectId "" junk d (made pf junk now)).2 :=
      ⟨hgiven, hname, hport⟩
    exact (invariant_of_run (Remembers "" junk) (fun _ _ _ => remembers_step) hstart hrun).toAsGiven

/-- The device is not plugged in when `start` is called, and is when `timer_check` comes. -/
def pluggedIn : List Action := [.tick 31, .doCheckTimeout 31 ⟨false, false⟩]

/-- A formatter without state, that leaves everything as it is. -/
def plain : IpacketFormat Unit where
  formatRecvBuffer _ _ _ := some ([], ())
  formatSendBuffer _ _ buffer bufferLength _ _ := some (buffer, bufferLength, ())

theorem empty_name_reopened :
    ¬ ∀ as s, run (step plain) (start 1 "/dev/ttyUSB0" 9600 ⟨false, false⟩ fresh).2 as = some s →
      AsGiven "/dev/ttyUSB0" 9600 s := by
  intro h
  have hgiven := h pluggedIn _ rfl
  have hname : "" = "/dev/ttyUSB0" := hgiven.opens "" (by decide)
  exact absurd hname (by decide)

end PssClient.TtyClient
