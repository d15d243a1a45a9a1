import PssClient.Lib.Run
import PssClient.Tms.Workers

/-!
# Which worker a client's callbacks are on

Packets, connect and disconnect events of a client are posted to the worker `get_tms_logic_id`
names. The timeout event is not posted: the round of `timer_check` is a message of worker 0, and
`do_check_timeout` calls `do_message` from there.

* `System` / `step` — the clients' flags, the workers, and what each of them is doing inside the
  function of its message.
* `Placed` — the invariant: a call of `do_message` is in progress on the client's worker or on
  worker 0.
* `no_overlap_iff` — the result: two of them never overlap exactly when these are the same worker.
-/

namespace PssClient.Overlap

open Machine Tms

inductive LogicMessage
  /-- The call of `do_message` for a packet, a connect or a disconnect event. -/
  | doMessage (connectId : Nat)
  /-- A round of `timer_check`. -/
  | timerCheck
  /-- Anything else: a `reconnect`, timers and messages of the user. -/
  | other (task : Nat)

/-- What a worker is doing inside the function of its message. -/
structure Callback where
  -- the client that `do_message` has been called for and has not returned
  inProgress : Option Nat := none
  -- the clients that `timer_check` has still to call
  timeoutSessionList : List Nat := []

/-- The workers with what each of them is doing, and of the clients what matters for their
callbacks: whether they are registered, and the flag that `do_check_timeout` looks at. -/
structure System where
  tms : Tms LogicMessage
  asioClientList : List Nat := []
  isConnect : Nat → Bool := fun _ => false
  callback : Nat → Callback := fun _ => {}

/-- Post a call of `do_message` to the client's worker. -/
def post (connectId : Nat) (s : System) : System :=
  { s with tms := s.tms.addMessage (getTmsLogicId connectId s.tms) (.doMessage connectId) }

def setConnect (connectId : Nat) (isConnect : Bool) (s : System) : System :=
  { s with isConnect := Function.update s.isConnect connectId isConnect }

def setCallback (logicId : Nat) (callback : Callback) (s : System) : System :=
  { s with callback := Function.update s.callback logicId callback }

@[simp] theorem setCallback_self (logicId : Nat) (callback : Callback) (s : System) :
    (setCallback logicId callback s).callback logicId = callback := Function.update_self ..

theorem setCallback_of_ne {id logicId : Nat} (h : id ≠ logicId) (callback : Callback)
    (s : System) : (setCallback logicId callback s).callback id = s.callback id :=
  Function.update_of_ne h ..

/-- A failed read or write: the disconnect event, and the `reconnect` behind it. -/
def connectionLost (connectId : Nat) (s : System) : System :=
  let s := post connectId (setConnect connectId false s)
  { s with tms := s.tms.addMessage (getTmsLogicId connectId s.tms) (.other connectId) }

/-- A worker calls its message. A round of `timer_check` collects the clients that have been silent
for too long. -/
def call (logicId : Nat) (timeouts : List Nat) (s : System) : Option System :=
  (s.tms.call logicId).bind fun r =>
    match r.1 with
    | .doMessage connectId =>
      some (setCallback logicId { inProgress := some connectId } { s with tms := r.2 })
    | .timerCheck =>
      if timeouts ⊆ s.asioClientList then
        some (setCallback logicId { timeoutSessionList := timeouts } { s with tms := r.2 })
      else none
    | .other _ => some { s with tms := r.2 }

/-- `do_check_timeout` of the next client in the list. -/
def doCheckTimeout (logicId : Nat) (s : System) : Option System :=
  match s.callback logicId with
  | ⟨none, connectId :: rest⟩ =>
    some (setCallback logicId
      ⟨if s.isConnect connectId = true then some connectId else none, rest⟩ s)
  | _ => none

/-- A call of `do_message` returns. -/
def returned (logicId : Nat) (s : System) : Option System :=
  match s.callback logicId with
  | ⟨some _, rest⟩ => some (setCallback logicId ⟨none, rest⟩ s)
  | ⟨none, _⟩ => none

/-- The function of the message returns. -/
def finish (logicId : Nat) (s : System) : Option System :=
  match s.callback logicId with
  | ⟨none, []⟩ => (s.tms.finish logicId).map fun tms => { s with tms := tms }
  | _ => none

/-- What can happen next: something happens to a client that posts a call of `do_message`, a round
of `timer_check` is posted, or a worker begins, goes on with or ends what it calls. -/
inductive Action
  | startClient (connectId : Nat)
  | closeClient (connectId : Nat)
  | connectHandler (connectId : Nat) (ok : Bool)
  /-- The handler of a read posts a packet. -/
  | readHandler (connectId : Nat)
  | connectionLost (connectId : Nat)
  /-- `do_write_format_data` of a client that is not connected. -/
  | doWriteFormatData (connectId : Nat)
  /-- Any thread posts a message that calls no `do_message`. -/
  | addMessage (logicId task : Nat)
  /-- The timer of `timer_check` posts a round. -/
  | timerCheck
  | pop (logicId : Nat)
  | call (logicId : Nat) (timeouts : List Nat)
  | doCheckTimeout (logicId : Nat)
  | returned (logicId : Nat)
  | finish (logicId : Nat)

def step (s : System) : Action → Option System
  | .startClient connectId => some { s with asioClientList := connectId :: s.asioClientList }
  | .closeClient connectId =>
    some { setConnect connectId false s with
      asioClientList := s.asioClientList.filter (· ≠ connectId) }
  | .connectHandler connectId ok => some (post connectId (setConnect connectId ok s))
  | .readHandler connectId => some (post connectId s)
  | .connectionLost connectId => some (connectionLost connectId s)
  | .doWriteFormatData connectId => some (post connectId s)
  | .addMessage logicId task => some { s with tms := s.tms.addMessage logicId (.other task) }
  | .timerCheck => some { s with tms := s.tms.addMessage 0 .timerCheck }
  | .pop logicId => (s.tms.pop logicId).map fun tms => { s with tms := tms }
  | .call logicId timeouts => call logicId timeouts s
  | .doCheckTimeout logicId => doCheckTimeout logicId s
  | .returned logicId => returned logicId s
  | .finish logicId => finish logicId s

/-- The system when `load_module` has returned. -/
def loaded (threadCount : Nat) : System where
  tms := loadModule threadCount

/-- The calls of `do_message` for the client that are in progress are one at most. -/
def Exclusive (s : System) (connectId : Nat) : Prop :=
  ∀ id id', (s.callback id).inProgress = some connectId →
    (s.callback id').inProgress = some connectId → id = id'

/-! ## Where the calls are -/

/-- The invariant of the callbacks. The events of a client are posted to its own worker only, and
only worker 0 has rounds of `timer_check`; so a callback in progress is on the client's worker or on
worker 0. -/
structure Placed (n : Nat) (s : System) : Prop where
  count : s.tms.logicThreadCount = n
  posted : ∀ id connectId, .doMessage connectId ∈ s.tms.pending id → id = connectId % n
  rounds : ∀ id, .timerCheck ∈ s.tms.pending id → id = 0
  inProgress : ∀ id connectId, (s.callback id).inProgress = some connectId →
    id = connectId % n ∨ id = 0
  checking : ∀ id, (s.callback id).timeoutSessionList ≠ [] → id = 0

theorem placed_loaded (n : Nat) : Placed n (loaded n) := by
  have hempty : ∀ id, (loaded n).tms.pending id = [] := pending_loadModule n
  refine ⟨(loadModule_eq n).1, ?_, ?_, nofun, fun id hne => absurd rfl hne⟩
  · intro id connectId hmem
    rw [hempty id] at hmem
    cases hmem
  · intro id hmem
    rw [hempty id] at hmem
    cases hmem

/-- A message goes into the queue of its worker. -/
theorem placed_addMessage {n id : Nat} {msg : LogicMessage} {s : System} (h : Placed n s)
    (hposted : ∀ connectId, msg = .doMessage connectId → id = connectId % n)
    (hround : msg = .timerCheck → id = 0) :
    Placed n { s with tms := s.tms.addMessage id msg } := by
  obtain ⟨hcount, hpending⟩ := addMessage_cases s.tms id msg
  refine { h with count := hcount.trans h.count, posted := ?_, rounds := ?_ }
  · intro id' connectId hmem
    rcases hpending id' _ hmem with hold | ⟨rfl, hmsg⟩
    · exact h.posted id' connectId hold
    · exact hposted connectId hmsg.symm
  · intro id' hmem
    rcases hpending id' _ hmem with hold | ⟨rfl, hmsg⟩
    · exact h.rounds id' hold
    · exact hround hmsg.symm

theorem placed_post {n connectId : Nat} {s : System} (hn : 0 < n) (h : Placed n s) :
    Placed n (post connectId s) := by
  refine placed_addMessage h ?_ nofun
  rintro c heq
  cases heq
  exact getTmsLogicId_eq h.count hn connectId

theorem placed_setConnect {n connectId : Nat} {isConnect : Bool} {s : System} (h : Placed n s) :
    Placed n (setConnect connectId isConnect s) := ⟨h.count, h.posted, h.rounds, h.inProgress,
  h.checking⟩

/-- The queues lose messages at most. -/
theorem placed_of_pending {n : Nat} {s : System} {tms : Tms LogicMessage} (h : Placed n s)
    (hcount : tms.logicThreadCount = s.tms.logicThreadCount)
    (hpending : ∀ id m, m ∈ tms.pending id → m ∈ s.tms.pending id) :
    Placed n { s with tms := tms } where
  count := hcount.trans h.count
  posted := fun id connectId hmem => h.posted id connectId (hpending id _ hmem)
  rounds := fun id hmem => h.rounds id (hpending id _ hmem)
  inProgress := h.inProgress
  checking := h.checking

theorem placed_setCallback {n logicId : Nat} {callback : Callback} {s : System} (h : Placed n s)
    (hcall : ∀ connectId, callback.inProgress = some connectId →
      logicId = connectId % n ∨ logicId = 0)
    (hlist : callback.timeoutSessionList ≠ [] → logicId = 0) :
    Placed n (setCallback logicId callback s) := by
  refine { h with inProgress := ?_, checking := ?_ }
  · intro id connectId hprogress
    by_cases hid : id = logicId
    · subst hid
      rw [setCallback_self] at hprogress
      exact hcall connectId hprogress
    · rw [setCallback_of_ne hid] at hprogress
      exact h.inProgress id connectId hprogress
  · intro id hne
    by_cases hid : id = logicId
    · subst hid
      rw [setCallback_self] at hne
      exact hlist hne
    · rw [setCallback_of_ne hid] at hne
      exact h.checking id hne

/-- A worker begins a callback: that of an event, which was posted to the client's worker, or a
round of `timer_check`, which was posted to worker 0. -/
theorem placed_call {n logicId : Nat} {timeouts : List Nat} {s s' : System} (h : Placed n s)
    (hs : call logicId timeouts s = some s') : Placed n s' := by
  obtain ⟨⟨msg, tms⟩, hcall, hs⟩ := Option.bind_eq_some_iff.mp hs
  obtain ⟨hsame, hself, hothers⟩ := call_spec hcall
  have htaken : Placed n { s with tms := tms } := by
    apply placed_of_pending h hsame.count
    intro id m hmem
    by_cases hid : id = logicId
    · subst hid
      rw [hself]
      exact List.mem_cons_of_mem _ hmem
    · rw [← hothers id hid]
      exact hmem
  have hfront : msg ∈ s.tms.pending logicId := hself ▸ List.mem_cons_self
  cases msg with
  | doMessage connectId =>
    obtain rfl := Option.some.inj hs
    refine placed_setCallback htaken ?_ fun hne => absurd rfl hne
    intro c heq
    obtain rfl : connectId = c := Option.some.inj heq
    exact .inl (h.posted logicId connectId hfront)
  | timerCheck =>
    dsimp only at hs
    split at hs
    · obtain rfl := Option.some.inj hs
      exact placed_setCallback htaken nofun fun _ => h.rounds logicId hfront
    · cases hs
  | other task =>
    obtain rfl := Option.some.inj hs
    exact htaken

/-- **Who calls for a client stays on the client's worker.** What a client posts goes to the worker
of its id, and the rounds of `timer_check` to worker 0; a worker that takes a message, or goes
through the list of a round, is one of these. -/
theorem placed_step {n : Nat} {s s' : System} {a : Action} (hn : 0 < n) (h : Placed n s)
    (hs : step s a = some s') : Placed n s' := by
  cases a with
  -- the table and the flags are not looked at
  | startClient connectId =>
    obtain rfl := Option.some.inj hs
    exact { h with }
  | closeClient connectId =>
    obtain rfl := Option.some.inj hs
    exact { h with }
  | connectHandler connectId ok =>
    obtain rfl := Option.some.inj hs
    exact placed_post hn (placed_setConnect h)
  | readHandler connectId =>
    obtain rfl := Option.some.inj hs
    exact placed_post hn h
  | connectionLost connectId =>
    obtain rfl := Option.some.inj hs
    have hlost : Placed n (setConnect connectId false s) := placed_setConnect h
    exact placed_addMessage (placed_post hn hlost) nofun nofun
  | doWriteFormatData connectId =>
    obtain rfl := Option.some.inj hs
    exact placed_post hn h
  | addMessage logicId task =>
    obtain rfl := Option.some.inj hs
    exact placed_addMessage h nofun nofun
  | timerCheck =>
    obtain rfl := Option.some.inj hs
    exact placed_addMessage h nofun fun _ => rfl
  -- what a worker takes is still to be called there
  | pop logicId =>
    obtain ⟨tms, hpop, rfl⟩ := Option.map_eq_some_iff.mp hs
    obtain ⟨hsame, hpending⟩ := pop_spec hpop
    exact placed_of_pending h hsame.count fun id m hmem => hpending id ▸ hmem
  | call logicId timeouts => exact placed_call h hs
  -- a round that is under way is on worker 0
  | doCheckTimeout logicId =>
    simp only [step, doCheckTimeout] at hs
    split at hs
    case h_1 connectId rest hcallback =>
      obtain rfl := Option.some.inj hs
      have hzero : logicId = 0 := h.checking logicId (by rw [hcallback]; exact nofun)
      exact placed_setCallback h (fun _ _ => .inr hzero) fun _ => hzero
    case h_2 => cases hs
  | returned logicId =>
    simp only [step, returned] at hs
    split at hs
    case h_1 c rest hcallback =>
      obtain rfl := Option.some.inj hs
      refine placed_setCallback h nofun fun hne => h.checking logicId ?_
      rw [hcallback]
      exact hne
    case h_2 => cases hs
  | finish logicId =>
    simp only [step, finish] at hs
    split at hs
    · obtain ⟨tms, hfinish, rfl⟩ := Option.map_eq_some_iff.mp hs
      obtain ⟨hsame, hpending⟩ := finish_spec hfinish
      exact placed_of_pending h hsame.count fun id m hmem => hpending id ▸ hmem
    · cases hs

theorem placed_of_run {n : Nat} {as : List Action} {s : System} (hn : 0 < n)
    (hrun : run step (loaded n) as = some s) : Placed n s :=
  invariant_of_run (Placed n) (fun _ _ _ h hs => placed_step hn h hs) (placed_loaded n) hrun

/-! ## Two workers -/

/-- The timeout event of a client is under way when a packet of it is called. -/
def timeoutAndPacket (n connectId : Nat) : List Action :=
  [.startClient connectId, .connectHandler connectId true, .timerCheck, .pop 0,
    .call 0 [connectId], .doCheckTimeout 0, .pop (connectId % n), .call (connectId % n) []]

/-- With another worker than 0 the two calls overlap. -/
theorem overlaps {n connectId : Nat} (hn : 0 < n) (hother : connectId % n ≠ 0) :
    ∃ s, run step (loaded n) (timeoutAndPacket n connectId) = some s ∧
      (s.callback 0).inProgress = some connectId ∧
      (s.callback (connectId % n)).inProgress = some connectId := by
  obtain ⟨hcount, hmap⟩ := loadModule_eq (M := LogicMessage) n
  set k := connectId % n with hk
  -- the workers' queues, step by step
  set tms₁ : Tms LogicMessage := (loadModule n).set k ⟨[.doMessage connectId], .idle⟩ with h₁
  set tms₂ : Tms LogicMessage := tms₁.set 0 ⟨[.timerCheck], .idle⟩ with h₂
  set tms₃ : Tms LogicMessage := tms₂.set 0 ⟨[], .taken .timerCheck⟩ with h₃
  set tms₄ : Tms LogicMessage := tms₃.set 0 ⟨[], .running⟩ with h₄
  set tms₅ : Tms LogicMessage := tms₄.set k ⟨[], .taken (.doMessage connectId)⟩ with h₅
  set tms₆ : Tms LogicMessage := tms₅.set k ⟨[], .running⟩ with h₆
  have hposted : (loadModule n : Tms LogicMessage).addMessage
      (getTmsLogicId connectId (loadModule n : Tms LogicMessage)) (.doMessage connectId)
        = tms₁ := by
    have hworker : (loadModule n : Tms LogicMessage).mapLogicList k = some {} := by
      rw [hmap, if_pos (Nat.mod_lt _ hn)]
    rw [getTmsLogicId_eq hcount hn, addMessage_of_some hworker]
    rfl
  have hround : tms₁.addMessage 0 .timerCheck = tms₂ := by
    have hworker : tms₁.mapLogicList 0 = some {} := by
      rw [h₁, set_mapLogicList_of_ne hother.symm, hmap, if_pos hn]
    rw [addMessage_of_some hworker]
    rfl
  have hpop : tms₂.pop 0 = some tms₃ := pop_of_idle (set_mapLogicList_self ..)
  have hcall : tms₃.call 0 = some (.timerCheck, tms₄) := call_of_taken (set_mapLogicList_self ..)
  have hpop' : tms₄.pop k = some tms₅ := by
    apply pop_of_idle
    rw [h₄, set_mapLogicList_of_ne hother, h₃, set_mapLogicList_of_ne hother, h₂,
      set_mapLogicList_of_ne hother, h₁, set_mapLogicList_self]
  have hcall' : tms₅.call k = some (.doMessage connectId, tms₆) :=
    call_of_taken (set_mapLogicList_self ..)
  -- and the whole system
  set started : System := { loaded n with asioClientList := [connectId] } with hstarted
  set connected : System := { setConnect connectId true started with tms := tms₁ } with hconnected
  have hconnect : step started (.connectHandler connectId true) = some connected := by
    rw [hconnected, ← hposted]
    rfl
  have htimer : step connected .timerCheck = some { connected with tms := tms₂ } := by
    rw [← hround]
    rfl
  have htake : step { connected with tms := tms₂ } (.pop 0)
      = some { connected with tms := tms₃ } := by
    simp only [step, hpop, Option.map_some]
  set checking : System := setCallback 0 { timeoutSessionList := [connectId] }
    { connected with tms := tms₄ } with hchecking
  have hcheck : step { connected with tms := tms₃ } (.call 0 [connectId]) = some checking := by
    have hlist : [connectId] ⊆ connected.asioClientList := List.Subset.refl _
    simp only [step, call, hcall, Option.bind_some, if_pos hlist, hchecking]
  set timedOut : System := setCallback 0 ⟨some connectId, []⟩ checking with htimedOut
  have htimeout : step checking (.doCheckTimeout 0) = some timedOut := by
    have hcallback : checking.callback 0 = ⟨none, [connectId]⟩ := setCallback_self ..
    have hflag : checking.isConnect connectId = true := Function.update_self ..
    simp only [step, doCheckTimeout, hcallback, hflag, if_true, htimedOut]
  have htake' : step timedOut (.pop k) = some { timedOut with tms := tms₅ } := by
    have htms : timedOut.tms = tms₄ := rfl
    simp only [step, htms, hpop', Option.map_some]
  have hpacket : step { timedOut with tms := tms₅ } (.call k [])
      = some (setCallback k { inProgress := some connectId } { timedOut with tms := tms₆ }) := by
    simp only [step, call, hcall', Option.bind_some]
  refine ⟨_, run_cons.mpr ⟨_, rfl, run_cons.mpr ⟨_, hconnect, run_cons.mpr ⟨_, htimer,
    run_cons.mpr ⟨_, htake, run_cons.mpr ⟨_, hcheck, run_cons.mpr ⟨_, htimeout,
      run_cons.mpr ⟨_, htake', run_singleton hpacket⟩⟩⟩⟩⟩⟩⟩, ?_, ?_⟩
  · rw [setCallback_of_ne hother.symm]
    show (timedOut.callback 0).inProgress = _
    rw [htimedOut, setCallback_self]
  · rw [setCallback_self]

/-- **One client's callbacks never overlap — on worker 0.** After `load_module` with any number of
threads, in all interleavings of the I/O thread, the timer, the calls of the manager and the
workers: the calls of `do_message` for a client that are in progress are always one at most, exactly
when the client's worker is worker 0, on which `timer_check` makes its calls. -/
theorem no_overlap_iff (threadCount : Nat) (hcount : 0 < threadCount) (connectId : Nat) :
    (∀ as s, run step (loaded threadCount) as = some s → Exclusive s connectId) ↔
      connectId % threadCount = 0 := by
  constructor
  · intro hexclusive
    by_contra hother
    obtain ⟨s, hrun, hround, hown⟩ := overlaps hcount hother
    exact hother (hexclusive _ s hrun _ _ hown hround)
  · intro hzero as s hrun id id' hid hid'
    have h := placed_of_run hcount hrun
    have hworker : ∀ id, (s.callback id).inProgress = some connectId → id = 0 := fun id hid =>
      (h.inProgress id connectId hid).elim (fun heq => heq.trans hzero) fun heq => heq
    rw [hworker id hid, hworker id' hid']

theorem no_overlap_two :
    4 % 2 = 0 ∧ ∀ as s, run step (loaded 2) as = some s → Exclusive s 4 :=
  ⟨by decide, (no_overlap_iff 2 (by decide) 4).mpr (by decide)⟩

/-- Client 1 of two threads has been silent for too long and gets its timeout event on worker 0,
when a packet of it arrives and is called on worker 1. -/
theorem overlap_two :
    ∃ s, run step (loaded 2) [.startClient 1, .connectHandler 1 true, .pop 1, .call 1 [],
        .returned 1, .finish 1, .timerCheck, .pop 0, .call 0 [1], .doCheckTimeout 0, .readHandler 1,
        .pop 1, .call 1 []] = some s ∧
      (s.callback 0).inProgress = some 1 ∧ (s.callback 1).inProgress = some 1 ∧
      ¬ Exclusive s 1 :=
  ⟨_, rfl, rfl, rfl, fun h => absurd (h 0 1 rfl rfl) (by decide)⟩

end PssClient.Overlap
