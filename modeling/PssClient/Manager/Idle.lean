import PssClient.Manager.Clients

/-!
# How long a client has been silent

`get_time_pass_seconds` is meant to be the longer of two times, since the last receive and since
the last write. It takes both from `recv_last_timer_`, so that `write_last_timer_` is set and never
read.

* `lastReceive` / `lastWrite` — the two events in a client's history, and `recvPass` / `writePass`
  the whole seconds since then.
* `CountsBoth` — the function is the larger of these, and a round of `timer_check` collects the
  clients for which one of them is too large.
* `Dated` — the invariant: the two time stamps are those of the history.
* `countsBoth_iff` — the result: as long as no registered client has been silent for longer in its
  writes than in its reads. `receiver_not_collected` has one that only receives.
-/

namespace PssClient

open Machine

namespace IIOClient

variable {Address : Type*}

/-! ## A client's history -/

/-- When the client last received something or connected; when it was made if it never did. -/
def lastReceive (o : IIOClient Address) : Int := o.receives.headD o.constructed

/-- When a write of the client last completed; when it was made if none has. -/
def lastWrite (o : IIOClient Address) : Int := o.writes.headD o.constructed

def recvPass (now : Int) (o : IIOClient Address) : Int := wholeSeconds (now - o.lastReceive)

def writePass (now : Int) (o : IIOClient Address) : Int := wholeSeconds (now - o.lastWrite)

/-- The time stamps are those of the history, and not in the future. With this, what the code
computes from the stamps can be compared with what has happened and when. -/
structure Dated (now : Int) (o : IIOClient Address) : Prop where
  recvLastTimer : o.recvLastTimer = o.lastReceive
  writeLastTimer : o.writeLastTimer = o.lastWrite
  received : o.lastReceive ≤ now
  written : o.lastWrite ≤ now

theorem dated_made (kind : ClientKind) (now : Int) :
    Dated now (made kind now : IIOClient Address) := ⟨rfl, rfl, le_rfl, le_rfl⟩

theorem Dated.later {now : Int} {o : IIOClient Address} (h : Dated now o) (d : Nat) :
    Dated (now + d) o :=
  { h with
    received := le_trans h.received (Int.le_add_of_nonneg_right (Int.natCast_nonneg d))
    written := le_trans h.written (Int.le_add_of_nonneg_right (Int.natCast_nonneg d)) }

theorem Dated.of_record {now : Int} {o o' : IIOClient Address} (h : Dated now o)
    (hsame : o'.record = o.record) : Dated now o' := by
  simp only [record, Prod.mk.injEq] at hsame
  obtain ⟨-, -, -, hconstructed, ⟨hrecv, hreceives⟩, hwrite, hwrites⟩ := hsame
  have hreceive : o'.lastReceive = o.lastReceive := by
    rw [lastReceive, lastReceive, hreceives, hconstructed]
  have hlast : o'.lastWrite = o.lastWrite := by rw [lastWrite, lastWrite, hwrites, hconstructed]
  exact ⟨by rw [hrecv, hreceive, h.recvLastTimer], by rw [hwrite, hlast, h.writeLastTimer],
    hreceive ▸ h.received, hlast ▸ h.written⟩

theorem Dated.evolves {now : Int} {o o' : IIOClient Address} (h : Dated now o)
    (he : Evolves now o o') : Dated now o' := by
  cases he with
  | untouched hsame => exact h.of_record hsame
  | received hsame =>
    have hset : Dated now (setRecvTime now o) := ⟨rfl, h.writeLastTimer, le_rfl, h.written⟩
    exact hset.of_record hsame
  | written hsame =>
    have hset : Dated now (setWriteTime now o) := ⟨h.recvLastTimer, rfl, h.received, le_rfl⟩
    exact hset.of_record hsame

/-! ## The function -/

theorem wholeSeconds_nonneg {d : Int} (h : 0 ≤ d) : 0 ≤ wholeSeconds d :=
  Int.tdiv_nonneg h (by decide)

theorem toInt_of_lt {count : Int} (hpos : 0 ≤ count) (hlt : count < 2147483648) :
    toInt count = count := by
  unfold toInt
  rw [Int.bmod_def]
  omega

theorem toInt_lt (count : Int) : toInt count < 2147483648 := by
  unfold toInt
  rw [Int.bmod_def]
  omega

/-- It looks at the reads alone. -/
theorem getTimePassSeconds_eq {now : Int} {o : IIOClient Address} (h : Dated now o) :
    getTimePassSeconds now o = toInt (recvPass now o) := by
  unfold getTimePassSeconds recvPass
  dsimp only
  rw [if_neg (lt_irrefl _), h.recvLastTimer]

/-- The reads have been silent for at least as long as the writes, and not for 68 years. -/
def ReadsLonger (now : Int) (o : IIOClient Address) : Prop :=
  writePass now o ≤ recvPass now o ∧ recvPass now o < 2147483648

instance (now : Int) (o : IIOClient Address) : Decidable (ReadsLonger now o) :=
  inferInstanceAs (Decidable (_ ∧ _))

theorem getTimePassSeconds_eq_max_iff {now : Int} {o : IIOClient Address} (h : Dated now o) :
    getTimePassSeconds now o = max (recvPass now o) (writePass now o) ↔ ReadsLonger now o := by
  have hpos : 0 ≤ recvPass now o := wholeSeconds_nonneg (by have := h.received; omega)
  have hint := toInt_lt (recvPass now o)
  rw [getTimePassSeconds_eq h, ReadsLonger]
  constructor
  · intro heq
    have hle : recvPass now o ≤ toInt (recvPass now o) := heq ▸ le_max_left _ _
    have hsame := toInt_of_lt hpos (by omega)
    rw [hsame] at heq
    exact ⟨heq ▸ le_max_right _ _, by omega⟩
  · rintro ⟨hle, hlt⟩
    rw [toInt_of_lt hpos hlt, max_eq_left hle]

end IIOClient

/-! ## The rounds -/

namespace ClientManager

variable {Address : Type*} {fromString : String → Option Address}

open IIOClient

/-- One of the two directions has been silent for more than `timer_check_seconds_`. -/
def Silent (s : ClientManager Address) (id : Nat) : Prop :=
  s.timerCheckSeconds < recvPass s.now (s.objects id) ∨
    s.timerCheckSeconds < writePass s.now (s.objects id)

instance (s : ClientManager Address) (id : Nat) : Decidable (s.Silent id) :=
  inferInstanceAs (Decidable (_ ∨ _))

/-- The idle time counts both directions, and a round collects the clients that are silent in one of
them. -/
structure CountsBoth (s : ClientManager Address) : Prop where
  value : ∀ id ∈ s.asioClientList, getTimePassSeconds s.now (s.objects id)
    = max (recvPass s.now (s.objects id)) (writePass s.now (s.objects id))
  round : (s.asioClientList.filterMap s.timeout).map Prod.fst
    = s.asioClientList.filter (s.Silent ·)

/-- Where the function counts both directions, the round does. -/
theorem round_of_value {s : ClientManager Address} {list : List Nat}
    (h : ∀ id ∈ list, getTimePassSeconds s.now (s.objects id)
      = max (recvPass s.now (s.objects id)) (writePass s.now (s.objects id))) :
    (list.filterMap s.timeout).map Prod.fst = list.filter (s.Silent ·) := by
  induction list with
  | nil => rfl
  | cons id list ih =>
    have hvalue := h id List.mem_cons_self
    have hrest := ih fun i hi => h i (List.mem_cons_of_mem _ hi)
    by_cases hsilent : s.Silent id
    · have hlate : getTimePassSeconds s.now (s.objects id) > s.timerCheckSeconds := by
        rw [hvalue]
        exact lt_max_iff.mpr hsilent
      have hentry : s.timeout id = some (id, getTimePassSeconds s.now (s.objects id)) :=
        if_pos hlate
      rw [List.filterMap_cons_some hentry, List.map_cons, hrest,
        List.filter_cons_of_pos (by simpa using hsilent)]
    · have hearly : ¬ getTimePassSeconds s.now (s.objects id) > s.timerCheckSeconds := by
        rw [hvalue]
        exact fun hlate => hsilent (lt_max_iff.mp hlate)
      have hentry : s.timeout id = none := if_neg hearly
      rw [List.filterMap_cons_none hentry, hrest,
        List.filter_cons_of_neg (by simpa using hsilent)]

/-- The invariant of the runs: every client is dated, and the rounds work through what they have
collected. What a round has in its list is what it has collected and not checked yet. -/
structure Kept (s : ClientManager Address) : Prop where
  dated : ∀ id, Dated s.now (s.objects id)
  checked : s.checked ++ s.timeoutSessionList = s.collected

theorem kept_initial (timerCheckSeconds now : Int) :
    Kept (initial timerCheckSeconds now : ClientManager Address) where
  dated := fun _ => dated_made .tty now
  checked := rfl

theorem dated_start {now : Int} {o : IIOClient Address} (h : Dated now o) (serverIp : String)
    (serverPort : Int16) : Dated now (start fromString serverIp serverPort o).2 := by
  have hbefore : Dated now { o with serverIp := serverIp, serverPort := serverPort } :=
    ⟨h.recvLastTimer, h.writeLastTimer, h.received, h.written⟩
  unfold start
  dsimp only
  split
  case h_1 => exact ⟨h.recvLastTimer, h.writeLastTimer, h.received, h.written⟩
  case h_2 o' hconnect => exact hbefore.evolves (evolves_connect hconnect)

theorem dated_of_started {now : Int} {a : Action} {o : IIOClient Address}
    (h : Made fromString now a o) : Dated now o := by
  cases h with
  | tcp serverIp serverPort => exact dated_start (dated_made .tcp now) serverIp serverPort
  | udp serverIp serverPort => exact dated_start (dated_made .udp now) serverIp serverPort
  | tty d => exact (dated_made .tty now).evolves (evolves_openPort now d _)

/-- A step keeps the stamps those of the history. The functions of the objects set a stamp where
they record the event, and a round takes from its list what it has checked. -/
theorem kept_step {s s' : ClientManager Address} {a : Action} (h : Kept s)
    (hs : step fromString s a = some s') : Kept s' := by
  cases does_of_step hs with
  | started hmade =>
    refine { h with dated := ?_ }
    exact (Function.forall_update_iff s.objects fun _ => Dated s.now).mpr
      ⟨dated_of_started hmade, fun id _ => h.dated id⟩
  | client id ho =>
    exact { h with dated := fun i => (h.dated i).evolves (evolves_setClient ho i) }
  | close =>
    obtain ⟨hobjects, hnow, -, hchecked, hcollected, hlist⟩ := close_spec s
    refine ⟨fun i => ?_, ?_⟩
    · rw [hnow]
      exact (h.dated i).evolves (hobjects i)
    · rw [hchecked, hcollected, hlist]
      exact h.checked
  | task id d =>
    exact ⟨fun i => (h.dated i).evolves
      (evolves_setClient (evolves_reconnect _ _ _).of_pending i), h.checked⟩
  -- what has been collected has been checked, or is left in the list
  | snapshot hidle =>
    refine ⟨h.dated, ?_⟩
    have hdone := h.checked
    rw [hidle, List.append_nil] at hdone
    show s.checked ++ _ = s.collected ++ _
    rw [hdone]
  | check d id seconds rest hnext =>
    refine ⟨fun i => (h.dated i).evolves (evolves_setClient (evolves_doCheckTimeout _ _ _ _) i), ?_⟩
    have hdone := h.checked
    rw [hnext] at hdone
    show (s.checked ++ [(id, seconds)]) ++ rest = s.collected
    rw [List.append_assoc, List.singleton_append, hdone]
  | tick d => exact ⟨fun i => (h.dated i).later d, h.checked⟩

/-- **The idle time counts both directions exactly when the reads have been silent for longer.** In
every state that can be reached, `get_time_pass_seconds` of the registered clients is the longer of
the two times, and a round of `timer_check` collects those that are silent in one direction, exactly
when none of them has written before it last read. The calls of `do_check_timeout` are made for the
clients collected, in their order. -/
theorem countsBoth_iff (fromString : String → Option Address) (timerCheckSeconds now : Int)
    (as : List Action) (s : ClientManager Address)
    (hrun : run (step fromString) (initial timerCheckSeconds now) as = some s) :
    (CountsBoth s ↔ ∀ id ∈ s.asioClientList, ReadsLonger s.now (s.objects id)) ∧
      s.checked ++ s.timeoutSessionList = s.collected := by
  have h : Kept s := invariant_of_run Kept (fun _ _ _ => kept_step)
    (kept_initial timerCheckSeconds now) hrun
  refine ⟨⟨fun hcounts id hid => ?_, fun hlonger => ?_⟩, h.checked⟩
  · exact (getTimePassSeconds_eq_max_iff (h.dated id)).mp (hcounts.value id hid)
  · have hvalue : ∀ id ∈ s.asioClientList, getTimePassSeconds s.now (s.objects id)
        = max (recvPass s.now (s.objects id)) (writePass s.now (s.objects id)) :=
      fun id hid => (getTimePassSeconds_eq_max_iff (h.dated id)).mpr (hlonger id hid)
    exact ⟨hvalue, round_of_value hvalue⟩

/-- A parser that takes every string. -/
def anyAddress (_ : String) : Option Unit := some ()

/-- A client connects, and writes something twenty seconds later. -/
def writesLast : List Action :=
  [.startClientTcp "127.0.0.1" 10002, .connectHandler 1 true, .tick 20000000000,
    .clientSendData 1, .writeHandler 1 true, .tick 20000000000]

/-- It has been silent for longer in its reads, and the next round collects it. -/
theorem countsBoth_iff_writesLast :
    ∃ s, run (step anyAddress) (initial 30 0) writesLast = some s ∧
      (∀ id ∈ s.asioClientList, ReadsLonger s.now (s.objects id)) ∧ CountsBoth s ∧
      s.asioClientList.filterMap s.timeout = [(1, 40)] ∧
      s.checked ++ s.timeoutSessionList = s.collected := by
  have hstate : ∃ s, run (step anyAddress) (initial 30 0) writesLast = some s ∧
      (∀ id ∈ s.asioClientList, ReadsLonger s.now (s.objects id)) ∧
      s.asioClientList.filterMap s.timeout = [(1, 40)] := ⟨_, rfl, by decide, rfl⟩
  obtain ⟨s, hrun, hlonger, hround⟩ := hstate
  obtain ⟨hiff, hchecked⟩ := countsBoth_iff anyAddress 30 0 writesLast s hrun
  exact ⟨s, hrun, hlonger, hiff.mpr hlonger, hround, hchecked⟩

/-- A client receives something every twenty seconds, and writes nothing. -/
def onlyReceives : List Action :=
  [.startClientTcp "127.0.0.1" 10002, .connectHandler 1 true, .tick 20000000000,
    .readHandler 1 true, .tick 20000000000]

/-- It has written nothing for 40 seconds; the function says 20, and no round collects it. -/
theorem receiver_not_collected :
    ∃ s, run (step anyAddress) (initial 30 0) onlyReceives = some s ∧
      getTimePassSeconds s.now (s.objects 1) = 20 ∧ writePass s.now (s.objects 1) = 40 ∧
      s.Silent 1 ∧ s.asioClientList.filterMap s.timeout = [] ∧ ¬ CountsBoth s :=
  ⟨_, rfl, rfl, rfl, by decide, rfl, fun h => by
    have hvalue := h.value 1 (by decide)
    exact absurd hvalue (by decide)⟩

end ClientManager

end PssClient
