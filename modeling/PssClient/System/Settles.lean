import Mathlib.Algebra.BigOperators.Group.Finset.Basic
import PssClient.Lib.Rank
import PssClient.System.EndToEnd

/-!
# The workers come to rest

The workers, left to themselves: no client does anything, and no timer fires.

* `LogicTask.rank` / `System.rank` — how many steps they can take at most. A message counts for the
  steps in which it is taken, called and finished, and for what it adds: `timer_check` posts its
  round, and the round calls `do_check_timeout` once for each client at most.
* `rank_works` — every step lowers it.
* `idle_of_stopped` — who can take none is idle with an empty queue.
* `settles` — the result: the workers come to a stop, and `do_message` has then been called for all
  that had been posted.
-/

namespace PssClient

open Machine

section

variable {M : Type*}

/-- The steps that a worker takes until it has nothing left; `cost` is what calling a message
adds. -/
def LogicTask.rank (cost : M → Nat) (task : LogicTask M) : Nat :=
  (task.threadQueue.map fun msg => cost msg + 3).sum +
    match task.svc with
    | .idle => 0
    | .taken msg => cost msg + 2
    | .running => 1

namespace Tms

def rank (cost : M → Nat) (tms : Tms M) : Nat :=
  ∑ id ∈ Finset.range tms.logicThreadCount,
    (tms.mapLogicList id).elim 0 (LogicTask.rank cost)

variable (cost : M → Nat) {tms tms' : Tms M} {id : Nat}

theorem rank_set {task : LogicTask M} (hid : id < tms.logicThreadCount)
    (h : tms.mapLogicList id = some task) (task' : LogicTask M) :
    (tms.set id task').rank cost + task.rank cost = tms.rank cost + task'.rank cost := by
  have hmem : id ∈ Finset.range tms.logicThreadCount := Finset.mem_range.mpr hid
  have hset := Finset.add_sum_erase _
    (fun id' => ((tms.set id task').mapLogicList id').elim 0 (LogicTask.rank cost)) hmem
  have hsame := Finset.add_sum_erase _
    (fun id' => (tms.mapLogicList id').elim 0 (LogicTask.rank cost)) hmem
  have hothers : ∑ id' ∈ (Finset.range tms.logicThreadCount).erase id,
      ((tms.set id task').mapLogicList id').elim 0 (LogicTask.rank cost)
        = ∑ id' ∈ (Finset.range tms.logicThreadCount).erase id,
            (tms.mapLogicList id').elim 0 (LogicTask.rank cost) :=
    Finset.sum_congr rfl fun id' hid' => by
      rw [set_mapLogicList_of_ne (Finset.ne_of_mem_erase hid')]
  simp only [hothers, set_mapLogicList_self, h, Option.elim_some] at hset hsame
  have hnew : (tms.set id task').rank cost
      = ∑ id' ∈ Finset.range tms.logicThreadCount,
          ((tms.set id task').mapLogicList id').elim 0 (LogicTask.rank cost) := rfl
  rw [hnew, rank]
  omega

theorem rank_pop (hid : id < tms.logicThreadCount) (h : tms.pop id = some tms') :
    tms'.rank cost + 1 = tms.rank cost := by
  obtain ⟨task, htask, h⟩ := Option.bind_eq_some_iff.mp h
  rcases task with ⟨_ | ⟨msg, threadQueue⟩, _ | msg' | _⟩ <;> cases h
  have hset := rank_set cost hid htask ⟨threadQueue, .taken msg⟩
  simp only [LogicTask.rank, List.map_cons, List.sum_cons] at hset
  omega

theorem rank_call {msg : M} (hid : id < tms.logicThreadCount)
    (h : tms.call id = some (msg, tms')) : tms'.rank cost + (cost msg + 1) = tms.rank cost := by
  obtain ⟨task, htask, h⟩ := Option.bind_eq_some_iff.mp h
  rcases task with ⟨threadQueue, _ | msg' | _⟩ <;> cases h
  have hset := rank_set cost hid htask ⟨threadQueue, .running⟩
  dsimp only at hset ⊢
  simp only [LogicTask.rank] at hset
  omega

theorem rank_finish (hid : id < tms.logicThreadCount) (h : tms.finish id = some tms') :
    tms'.rank cost + 1 = tms.rank cost := by
  obtain ⟨task, htask, h⟩ := Option.bind_eq_some_iff.mp h
  rcases task with ⟨threadQueue, _ | msg' | _⟩ <;> cases h
  have hset := rank_set cost hid htask ⟨threadQueue, .idle⟩
  dsimp only at hset ⊢
  simp only [LogicTask.rank] at hset
  omega

theorem rank_addMessage (hid : id < tms.logicThreadCount) (msg : M) :
    (tms.addMessage id msg).rank cost ≤ tms.rank cost + (cost msg + 3) := by
  cases htask : tms.mapLogicList id with
  | none =>
    rw [addMessage_none htask]
    exact Nat.le_add_right _ _
  | some task =>
    have hset := rank_set cost hid htask
      { task with threadQueue := task.threadQueue ++ [msg] }
    rw [addMessage_of_some htask]
    simp only [LogicTask.rank, List.map_append, List.sum_append, List.map_cons, List.map_nil,
      List.sum_cons, List.sum_nil] at hset
    omega

theorem id_lt_of_some {n : Nat} {task : LogicTask M} (hcount : tms.logicThreadCount = n)
    (hworkers : ∀ id, (tms.mapLogicList id).isSome = true ↔ id < n)
    (htask : tms.mapLogicList id = some task) : id < tms.logicThreadCount := by
  rw [hcount]
  apply (hworkers id).mp
  rw [htask]
  rfl

/-- A worker that can take no step has nothing to do. -/
theorem idle_of_stuck {task : LogicTask M} (hpop : tms.pop id = none) (hcall : tms.call id = none)
    (hfinish : tms.finish id = none) (htask : tms.mapLogicList id = some task) : task = {} := by
  rcases task with ⟨threadQueue, _ | msg | _⟩
  · cases threadQueue with
    | nil => rfl
    | cons msg threadQueue =>
      rw [pop_of_idle htask] at hpop
      cases hpop
  · rw [call_of_taken htask] at hcall
    cases hcall
  · rw [finish, htask] at hfinish
    cases hfinish

end Tms

end

namespace System

open Tms

variable {F : Type*} {fmt : IpacketFormat F} {P : Transport → F → Prop} {n : Nat} {limit : Int}

/-- What the call of a message adds, when `ids` have been given away. -/
def cost (ids : Nat) : LogicMessage → Nat
  | .task _ _ | .user _ => 0
  | .timerRound => ids
  | .timerCheck => ids + 3

def rank (s : System F) : Nat := s.tms.rank (cost s.currClientId) + s.timeoutSessionList.length

/-- A step of a worker. -/
def Action.Works : Action F → Prop
  | .pop _ | .call _ | .check | .finish _ => True
  | _ => False

theorem Routed.id_lt {tms : Tms LogicMessage} {left : Nat → Option (List Task)}
    (h : Routed n tms left) {id : Nat} {task : LogicTask LogicMessage}
    (htask : tms.mapLogicList id = some task) : id < tms.logicThreadCount :=
  id_lt_of_some h.count h.workers htask

/-- A step that posts nothing puts no message into a queue. -/
theorem advance_tms {c c' : Client F} (h : c'.posted = c.posted) (id : Nat) (s : System F) :
    (advance id c c' s).tms = s.tms := by
  rw [advance, h, List.drop_length]
  rfl

theorem length_timeouts (s : System F) :
    ((List.range s.currClientId).filterMap (timeout s)).length ≤ s.currClientId :=
  (List.length_filterMap_le _ _).trans (List.length_range ..).le

theorem rank_check {s s' : System F} (hs : check s = some s') : rank s' < rank s := by
  rw [check] at hs
  split at hs
  case h_1 id seconds rest hlist =>
    obtain ⟨c, hc, rfl⟩ := Option.map_eq_some_iff.mp hs
    have hposted : (c.notListed.doCheckTimeout seconds).posted = c.posted :=
      (Client.doCheckTimeout_spec seconds c.notListed).2.1
    show (advance id c _ s).tms.rank (cost s.currClientId) + rest.length < _
    rw [advance_tms hposted, rank, hlist]
    exact Nat.lt_succ_self _
  case h_2 => cases hs

/-- **Every call lowers the rank.** A task of a client is gone with its call. The timer's message is
worth more than the message to worker 0 that it puts, and that one more than the clients that the
round it begins may list. -/
theorem rank_calls {s s' : System F} {logicId : Nat} (h : Kept fmt P n limit s)
    (hs : call logicId s = some s') : rank s' < rank s := by
  obtain ⟨⟨msg, tms⟩, hcall, hs⟩ := Option.bind_eq_some_iff.mp hs
  obtain ⟨task, htask, -⟩ := Option.bind_eq_some_iff.mp hcall
  have hcalled := rank_call (cost s.currClientId) (h.routed.id_lt htask) hcall
  cases msg with
  -- the task posts nothing; what it calls is not counted
  | task id task =>
    obtain ⟨c, hc, rfl⟩ := Option.map_eq_some_iff.mp hs
    obtain ⟨-, hposted, -⟩ := Client.execute_spec task c
    show (advance id c _ { s with tms := tms }).tms.rank (cost s.currClientId)
      + s.timeoutSessionList.length < _
    rw [advance_tms hposted]
    unfold rank
    dsimp only
    omega
  | timerCheck =>
    obtain rfl := Option.some.inj hs
    have hpos : 0 < tms.logicThreadCount := by
      rw [(call_spec hcall).1.count]
      exact Nat.zero_lt_of_lt (h.routed.id_lt htask)
    have hadded := rank_addMessage (cost s.currClientId) hpos .timerRound
    simp only [cost] at hcalled hadded
    show (tms.addMessage 0 .timerRound).rank (cost s.currClientId)
      + s.timeoutSessionList.length < _
    unfold rank
    omega
  -- the list has at most one entry for each id that has been given out
  | timerRound =>
    obtain rfl := Option.some.inj hs
    have hlength : ((List.range s.currClientId).filterMap (timeout { s with tms := tms })).length
      ≤ s.currClientId := length_timeouts { s with tms := tms }
    simp only [cost] at hcalled
    show tms.rank (cost s.currClientId)
      + ((List.range s.currClientId).filterMap (timeout { s with tms := tms })).length < _
    unfold rank
    omega
  | user func =>
    obtain rfl := Option.some.inj hs
    show tms.rank (cost s.currClientId) + s.timeoutSessionList.length < _
    unfold rank
    omega

theorem rank_works {s s' : System F} {a : Action F} (h : Kept fmt P n limit s) (ha : a.Works)
    (hs : step fmt s a = some s') : rank s' < rank s := by
  cases a with
  | pop logicId =>
    obtain ⟨tms, hpop, rfl⟩ := Option.map_eq_some_iff.mp hs
    obtain ⟨task, htask, -⟩ := Option.bind_eq_some_iff.mp hpop
    have htaken := rank_pop (cost s.currClientId) (h.routed.id_lt htask) hpop
    show tms.rank (cost s.currClientId) + s.timeoutSessionList.length < _
    unfold rank
    omega
  | call logicId => exact rank_calls h hs
  | check => exact rank_check hs
  | finish logicId =>
    obtain ⟨-, hs⟩ := Option.ite_none_left_eq_some.mp hs
    obtain ⟨tms, hfinish, rfl⟩ := Option.map_eq_some_iff.mp hs
    obtain ⟨task, htask, -⟩ := Option.bind_eq_some_iff.mp hfinish
    have hfinished := rank_finish (cost s.currClientId) (h.routed.id_lt htask) hfinish
    show tms.rank (cost s.currClientId) + s.timeoutSessionList.length < _
    unfold rank
    omega
  | startClient | client | addMessage | timerFires | tick => exact ha.elim

/-! ## What the workers leave alone -/

/-- The objects are still there, and have posted nothing. -/
def SamePosted (s s' : System F) : Prop :=
  ∀ id c, s.clients id = some c → ∃ c', s'.clients id = some c' ∧ c'.posted = c.posted

theorem posted_timerSnapshot (c : Client F) : (c.timerSnapshot.getD c).posted = c.posted := by
  unfold Client.timerSnapshot
  split
  · rfl
  · split <;> rfl

theorem samePosted_advance {s : System F} {id : Nat} {c c' : Client F}
    (hc : s.clients id = some c) (h : c'.posted = c.posted) :
    SamePosted s (advance id c c' s) := fun id' c'' hc'' => by
  by_cases hid : id' = id
  · subst hid
    obtain rfl := Option.some.inj (hc.symm.trans hc'')
    exact ⟨c', Function.update_self .., h⟩
  · exact ⟨c'', (Function.update_of_ne hid _ _).trans hc'', rfl⟩

/-- **No worker posts anything.** What a worker calls for a client runs one of its tasks, or is a
half of the round, and neither of them posts. -/
theorem samePosted_works {s s' : System F} {a : Action F} (ha : a.Works)
    (hs : step fmt s a = some s') : SamePosted s s' := by
  have hsame : SamePosted s s := fun id c hc => ⟨c, hc, rfl⟩
  cases a with
  | pop logicId =>
    obtain ⟨tms, -, rfl⟩ := Option.map_eq_some_iff.mp hs
    exact hsame
  | finish logicId =>
    obtain ⟨-, hs⟩ := Option.ite_none_left_eq_some.mp hs
    obtain ⟨tms, -, rfl⟩ := Option.map_eq_some_iff.mp hs
    exact hsame
  | check =>
    change check s = some s' at hs
    rw [check] at hs
    split at hs
    case h_1 id seconds rest hlist =>
      obtain ⟨c, hc, rfl⟩ := Option.map_eq_some_iff.mp hs
      exact samePosted_advance hc (Client.doCheckTimeout_spec seconds c.notListed).2.1
    case h_2 => cases hs
  | call logicId =>
    obtain ⟨⟨msg, tms⟩, -, hs⟩ := Option.bind_eq_some_iff.mp hs
    cases msg with
    | task id task =>
      obtain ⟨c, hc, rfl⟩ := Option.map_eq_some_iff.mp hs
      exact samePosted_advance hc (Client.execute_spec task c).2.1
    | timerCheck | user =>
      obtain rfl := Option.some.inj hs
      exact hsame
    | timerRound =>
      obtain rfl := Option.some.inj hs
      exact fun id c hc => ⟨c.timerSnapshot.getD c,
        congrArg (Option.map fun c : Client F => c.timerSnapshot.getD c) hc,
        posted_timerSnapshot c⟩
  | startClient | client | addMessage | timerFires | tick => exact ha.elim

theorem samePosted_run {s t : System F} {works : List (Action F)} (hworks : ∀ a ∈ works, a.Works)
    (hrun : run (step fmt) s works = some t) : SamePosted s t :=
  invariant_of_meets (SamePosted s)
    (fun _ _ _ h ha hs id c hc => by
      obtain ⟨c', hc', hposted⟩ := h id c hc
      obtain ⟨c'', hc'', hposted'⟩ := samePosted_works ha hs id c' hc'
      exact ⟨c'', hc'', hposted'.trans hposted⟩)
    (fun _ c hc => ⟨c, hc, rfl⟩) (meets_of_forall hworks s) hrun

/-! ## Where they stop -/

/-- No worker can take a step. -/
def Stopped (fmt : IpacketFormat F) (s : System F) : Prop :=
  ∀ a : Action F, a.Works → step fmt s a = none

theorem list_of_stopped {s : System F} (h : Kept fmt P n limit s) (hstopped : Stopped fmt s) :
    s.timeoutSessionList = [] := by
  cases hlist : s.timeoutSessionList with
  | nil => rfl
  | cons e rest =>
    obtain ⟨c, hc⟩ := Option.isSome_iff_exists.mp (h.known e (hlist ▸ List.mem_cons_self))
    have hcheck : check s = none := hstopped .check trivial
    rw [check, hlist] at hcheck
    dsimp only at hcheck
    rw [hc] at hcheck
    cases hcheck

/-- A worker that has taken a message can call it. -/
theorem isSome_call {s : System F} (h : Kept fmt P n limit s) {logicId : Nat}
    {r : LogicMessage × Tms LogicMessage} (hcall : s.tms.call logicId = some r) :
    (call logicId s).isSome = true := by
  obtain ⟨msg, tms⟩ := r
  rw [call, hcall, Option.bind_some]
  cases msg with
  | task id task =>
    have hmem : LogicMessage.task id task ∈ s.tms.pending logicId := by
      rw [(call_spec hcall).2.1]
      exact List.mem_cons_self
    obtain ⟨-, hsome⟩ := h.routed.queued logicId id task hmem
    rw [leftOf, Option.isSome_map] at hsome
    obtain ⟨c, hc⟩ := Option.isSome_iff_exists.mp hsome
    dsimp only
    rw [hc]
    rfl
  | timerCheck | timerRound | user => rfl

theorem idle_of_stopped {s : System F} (h : Kept fmt P n limit s) (hstopped : Stopped fmt s)
    {logicId : Nat} {task : LogicTask LogicMessage}
    (htask : s.tms.mapLogicList logicId = some task) : task = {} := by
  have hpop : s.tms.pop logicId = none :=
    Option.map_eq_none_iff.mp (hstopped (.pop logicId) trivial)
  have hcall : call logicId s = none := hstopped (.call logicId) trivial
  have hfinish := hstopped (.finish logicId) trivial
  rw [step, if_neg fun hround => hround.2 (list_of_stopped h hstopped), Option.map_eq_none_iff]
    at hfinish
  refine idle_of_stuck hpop (Option.eq_none_iff_forall_ne_some.mpr fun r hr => ?_) hfinish htask
  have hsome := isSome_call h hr
  rw [hcall] at hsome
  cases hsome

theorem stopped_of_idle {s : System F}
    (hidle : ∀ logicId task, s.tms.mapLogicList logicId = some task → task = {})
    (hlist : s.timeoutSessionList = []) : Stopped fmt s := by
  intro a ha
  cases a with
  | check =>
    show check s = none
    rw [check, hlist]
  | pop logicId | call logicId | finish logicId =>
    cases htask : s.tms.mapLogicList logicId with
    | none => simp [step, call, Tms.pop, Tms.call, Tms.finish, htask]
    | some task =>
      obtain rfl := hidle logicId task htask
      simp [step, call, Tms.pop, Tms.call, Tms.finish, htask]
  | startClient | client | addMessage | timerFires | tick => exact ha.elim

/-- **The workers come to rest.** From wherever a run has come to, the workers take finitely many
steps when no client does anything, no timer fires and no user posts anything, in whatever order
they go on. When none of them can take a step, each is idle with an empty queue, the round of
`timer_check` is over, and for each client `do_message` has been called, in order and once each, for
all that had been posted when they began. -/
theorem settles (fmt : IpacketFormat F) (threadCount : Nat) (timerCheckSeconds : Int)
    (as works : List (Action F)) (s t : System F) (hcount : 0 < threadCount)
    (hrun : run (step fmt) (loaded threadCount timerCheckSeconds) as = some s)
    (hworks : ∀ a ∈ works, a.Works) (hleft : run (step fmt) s works = some t) :
    works.length + rank t ≤ rank s ∧ (Stopped fmt t →
      (∀ logicId task, t.tms.mapLogicList logicId = some task → task = {}) ∧
      t.timeoutSessionList = [] ∧
      ∀ id c, s.clients id = some c →
        (eventsOf id t.handed).filter Client.byTask = c.posted.flatMap Client.callsOf) := by
  -- the invariant holds at the end, and the rank falls with every step of a worker
  have hkept := kept_run hcount (run_append.mpr ⟨s, hrun, hleft⟩)
  refine ⟨length_add_rank_le (Kept fmt _ threadCount timerCheckSeconds) rank
      (fun _ a _ h ha hs => ⟨kept_step hcount h (fun _ _ heq => ?_) hs, rank_works h ha hs⟩)
      (kept_run hcount hrun) (meets_of_forall hworks s) hleft,
    fun hstopped => ⟨fun logicId task => idle_of_stopped hkept hstopped,
      list_of_stopped hkept hstopped, fun id c hc => ?_⟩⟩
  · -- no client is started
    subst heq
    exact ha.elim
  · -- every client has what it had posted, and `do_message` has been called for all of it
    obtain ⟨c', hc', hposted⟩ := samePosted_run hworks hleft id c hc
    have hsound := hkept.clients id c' hc'
    obtain ⟨transport, pf, bs, -, hbs⟩ := hsound.reached
    have hcalled := Client.called_of_start hbs
    -- nothing waits with the client's worker
    have hnone : c'.posted.drop c'.ran = [] := by
      have hidle : t.tms.pending (id % threadCount) = [] := by
        rw [Tms.pending]
        cases htask : t.tms.mapLogicList (id % threadCount) with
        | none => rfl
        | some task => rw [idle_of_stopped hkept hstopped htask]; rfl
      have hleftOf : leftOf t.clients id = some (c'.posted.drop c'.ran) := by
        rw [leftOf, hc']
        rfl
      rw [← hkept.routed.tasks id _ hleftOf, hidle]
      rfl
    rw [hsound.calls, hcalled.calls, List.take_of_length_le (List.drop_eq_nil_iff.mp hnone),
      hposted]

/-- Client 1 is connected and silent; the loop timer has fired, and a user has posted something. -/
def atWork : List (Action Unit) :=
  [.startClient .tcp (), .client 1 (.complete 0 .connected), .client 1 (.handle 0), .timerFires,
    .addMessage 0 7, .tick 10000000000]

/-- The task, `timer_check`, what the user has posted, and the round. -/
def comesToRest : List (Action Unit) :=
  [.pop 0, .call 0, .finish 0, .pop 0, .call 0, .finish 0, .pop 0, .call 0, .finish 0, .pop 0,
    .call 0, .check, .finish 0]

theorem settles_atWork :
    ∃ s t, run (step Delivery.pieceFormat) (loaded 1 5) atWork = some s ∧
      run (step Delivery.pieceFormat) s comesToRest = some t ∧ 13 + rank t ≤ rank s ∧
      (eventsOf 1 t.handed).filter Client.byTask = [.connect] := by
  have hstate : ∃ s t c, run (step Delivery.pieceFormat) (loaded 1 5) atWork = some s ∧
      s.clients 1 = some c ∧ c.posted = [.message .connect] ∧
      run (step Delivery.pieceFormat) s comesToRest = some t ∧
      t.tms.mapLogicList 0 = some {} ∧ t.timeoutSessionList = [] :=
    ⟨_, _, _, rfl, rfl, rfl, rfl, rfl, rfl⟩
  obtain ⟨s, t, c, hrun, hc, hposted, hleft, hzero, hlist⟩ := hstate
  have hworks : ∀ a ∈ comesToRest, a.Works := by
    simp [comesToRest, Action.Works]
  have hkept := kept_run (by decide) (run_append.mpr ⟨s, hrun, hleft⟩)
  have hidle : ∀ logicId task, t.tms.mapLogicList logicId = some task → task = {} := by
    intro logicId task htask
    have hid := hkept.routed.id_lt htask
    rw [hkept.routed.count] at hid
    obtain rfl : logicId = 0 := by omega
    exact Option.some.inj (htask.symm.trans hzero)
  obtain ⟨hrank, hends⟩ :=
    settles Delivery.pieceFormat 1 5 atWork comesToRest s t (by decide) hrun hworks hleft
  obtain ⟨-, -, hcalled⟩ := hends (stopped_of_idle hidle hlist)
  refine ⟨s, t, hrun, hleft, hrank, ?_⟩
  rw [hcalled 1 c hc, hposted]
  rfl

end System

end PssClient
