import Mathlib.Data.Finset.Insert
import Mathlib.Data.Finset.Card
import PssClient.Lib.Run
import PssClient.Tms.Workers

/-!
# The registry of the workers

`TMS` keeps its workers in a map, counts them in `m_nLogicThreadCount`, and maps the ids of their
threads back to the workers. `CreateLogic` and `CloseLogic` change all three; the callbacks of
timers come back to the map with `operator[]`, which makes an entry that is null where there is
none.

* `Registry` — the three tables, the threads that are running, and the timers that wait.
* `createLogic` / `closeLogic` / `addMessage` / `addMessageTimer` / `fire` — the operations with
  what they return. What follows the dereference of a null pointer is not described.
* `Consistent` — the three tables agree.
* `shape` — what the tables say of the workers apart from their messages, which putting one does
  not change.
-/

namespace PssClient

open Machine

/-- `CLogicTasK` with `m_run` and the id of its thread. -/
structure Worker (M : Type*) extends LogicTask M where
  run : Bool
  tid : Nat

/-- The callback that `AddMessage` with a delay or `AddMessage_loop` gives its timer. -/
structure Deferred (M : Type*) where
  logicId : Nat
  msg : M
  loop : Bool

/-- The tables of `TMS`: the workers by id, their ids by thread, their number, and the timers whose
callbacks will ask for a worker when they fire. `operator[]` puts a null pointer where there was no
entry. -/
structure Registry (M : Type*) where
  -- an entry can be null
  mapLogicList : Nat → Option (Option (Worker M)) := fun _ => none
  tidToLogicId : Nat → Option Nat := fun _ => none
  logicThreadCount : Nat := 0
  -- the ids of the threads that are running
  threads : List Nat
  timers : Nat → Option (Deferred M) := fun _ => none
  timerIndex : Nat := 0
  nullDereferenced : Bool := false

namespace Registry

variable {M : Type*}

/-- `Init`, with the id of the timer thread. -/
def init (ttTimer : Nat) : Registry M := { threads := [ttTimer] }

def setEntry (id : Nat) (entry : Option (Option (Worker M))) (r : Registry M) : Registry M :=
  { r with mapLogicList := Function.update r.mapLogicList id entry }

def setTid (tid : Nat) (id : Option Nat) (r : Registry M) : Registry M :=
  { r with tidToLogicId := Function.update r.tidToLogicId tid id }

/-- `CLogicTasK::start`. -/
def start (tid : Nat) : Worker M := { run := true, tid := tid }

/-- `CreateLogic`, where the new thread gets the id `tid`. -/
def createLogic (id tid : Nat) (r : Registry M) : Bool × Registry M :=
  match r.mapLogicList id with
  | some _ => (false, r)
  | none =>
    (true, { (r.setEntry id (some (some (start tid)))).setTid tid (some id) with
      threads := tid :: r.threads
      logicThreadCount := r.logicThreadCount + 1 })

/-- `CloseLogic`. The thread has been joined, so its id can be given out again. The count stays. -/
def closeLogic (id : Nat) (r : Registry M) : Bool × Registry M :=
  match r.mapLogicList id with
  | some (some worker) =>
    (true, { (r.setTid worker.tid none).setEntry id none with
      threads := r.threads.erase worker.tid })
  | some none => (true, { r with nullDereferenced := true })
  | none => (false, r)

/-- `m_mapLogicList[u4LogicID]->Put(pLogicMessage)`. -/
def put (id : Nat) (msg : M) (r : Registry M) : Registry M :=
  match r.mapLogicList id with
  | some (some worker) =>
    r.setEntry id (some (some { worker with threadQueue := worker.threadQueue ++ [msg] }))
  | _ => { r.setEntry id (some none) with nullDereferenced := true }

/-- `AddMessage` without a delay. -/
def addMessage (id : Nat) (msg : M) (r : Registry M) : Bool × Registry M :=
  match r.mapLogicList id with
  | some _ => (true, r.put id msg)
  | none => (false, r)

/-- `AddMessage` with a delay, and `AddMessage_loop`. -/
def addMessageTimer (id : Nat) (msg : M) (loop : Bool) (r : Registry M) : Int × Registry M :=
  match r.mapLogicList id with
  | some _ =>
    (r.timerIndex, { r with
      timers := Function.update r.timers r.timerIndex (some ⟨id, msg, loop⟩)
      timerIndex := r.timerIndex + 1 })
  | none => (-1, r)

/-- A timer runs its callback; one that runs once is gone then. -/
def fire (index : Nat) (r : Registry M) : Option (Registry M) :=
  (r.timers index).map fun timer =>
    { r.put timer.logicId timer.msg with
      timers := if timer.loop then r.timers else Function.update r.timers index none }

/-- `GetLogicThreadID`, called on the thread `tid`. -/
def getLogicThreadId (tid : Nat) (r : Registry M) : Nat := (r.tidToLogicId tid).getD 0

/-- What can happen next: a worker is made or closed, a message is put at once or by a timer, or a
timer fires. None of these looks at whether the worker of a waiting timer is still there. -/
inductive Action (M : Type*)
  | createLogic (id tid : Nat)
  | closeLogic (id : Nat)
  | addMessage (id : Nat) (msg : M)
  | addMessageTimer (id : Nat) (msg : M) (loop : Bool)
  | fire (index : Nat)

/-- One operation. A new thread's id is that of no thread that is running. -/
def step (r : Registry M) (a : Action M) : Option (Registry M) :=
  if r.nullDereferenced then none
  else
    match a with
    | .createLogic id tid => if tid ∈ r.threads then none else some (r.createLogic id tid).2
    | .closeLogic id => some (r.closeLogic id).2
    | .addMessage id msg => some (r.addMessage id msg).2
    | .addMessageTimer id msg loop => some (r.addMessageTimer id msg loop).2
    | .fire index => r.fire index

/-- The keys of the map. -/
def Keys (r : Registry M) (ids : Finset Nat) : Prop :=
  ∀ id, id ∈ ids ↔ (r.mapLogicList id).isSome = true

/-- The three tables agree, and no null pointer has been dereferenced. -/
structure Consistent (r : Registry M) : Prop where
  running : ∀ id entry, r.mapLogicList id = some entry →
    ∃ worker, entry = some worker ∧ worker.run = true
  count : ∃ ids, r.Keys ids ∧ r.logicThreadCount = ids.card
  tids : ∀ tid id, r.tidToLogicId tid = some id ↔
    ∃ worker, r.mapLogicList id = some (some worker) ∧ worker.tid = tid
  notNull : r.nullDereferenced = false

/-- A timer that fires now makes no entry and dereferences no null pointer. -/
def FiresClean (r : Registry M) : Prop :=
  ∀ index r', step r (.fire index) = some r' →
    (∀ id, (r'.mapLogicList id).isSome = (r.mapLogicList id).isSome) ∧
      r'.nullDereferenced = false

/-- No worker is closed: a `CloseLogic` does not find the one that it is for. -/
def KeepsWorkers (r : Registry M) : Action M → Prop
  | .closeLogic id => r.mapLogicList id = none
  | _ => True

/-! ## Putting a message -/

@[simp] theorem setEntry_self (id : Nat) (entry : Option (Option (Worker M))) (r : Registry M) :
    (r.setEntry id entry).mapLogicList id = entry := Function.update_self ..

theorem setEntry_of_ne {id id' : Nat} (h : id' ≠ id) (entry : Option (Option (Worker M)))
    (r : Registry M) : (r.setEntry id entry).mapLogicList id' = r.mapLogicList id' :=
  Function.update_of_ne h ..

@[simp] theorem setTid_self (tid : Nat) (id : Option Nat) (r : Registry M) :
    (r.setTid tid id).tidToLogicId tid = id := Function.update_self ..

theorem setTid_of_ne {tid tid' : Nat} (h : tid' ≠ tid) (id : Option Nat) (r : Registry M) :
    (r.setTid tid id).tidToLogicId tid' = r.tidToLogicId tid' := Function.update_of_ne h ..

/-- What the tables say of an entry: whether its worker runs, and on which thread. -/
def shape (r : Registry M) (id : Nat) : Option (Option (Bool × Nat)) :=
  (r.mapLogicList id).map (Option.map fun worker => (worker.run, worker.tid))

theorem shape_isSome (r : Registry M) (id : Nat) :
    (r.shape id).isSome = (r.mapLogicList id).isSome := by
  rw [shape, Option.isSome_map]

theorem shape_eq_some {r : Registry M} {id : Nat} {run : Bool} {tid : Nat} :
    r.shape id = some (some (run, tid)) ↔
      ∃ worker, r.mapLogicList id = some (some worker) ∧ worker.run = run ∧ worker.tid = tid := by
  constructor
  · intro h
    obtain ⟨entry, hentry, hmap⟩ := Option.map_eq_some_iff.mp h
    obtain ⟨worker, rfl, hworker⟩ := Option.map_eq_some_iff.mp hmap
    exact ⟨worker, hentry, congrArg Prod.fst hworker, congrArg Prod.snd hworker⟩
  · rintro ⟨worker, hentry, rfl, rfl⟩
    rw [shape, hentry]
    rfl

/-- A message for a worker that is there goes into its queue; the tables stay. -/
theorem put_of_some {r : Registry M} {id : Nat} {worker : Worker M}
    (h : r.mapLogicList id = some (some worker)) (msg : M) :
    r.put id msg = r.setEntry id
        (some (some { worker with threadQueue := worker.threadQueue ++ [msg] })) ∧
      (r.put id msg).shape = r.shape := by
  have heq : r.put id msg = r.setEntry id
      (some (some { worker with threadQueue := worker.threadQueue ++ [msg] })) := by
    rw [put, h]
  refine ⟨heq, funext fun id' => ?_⟩
  rw [heq]
  by_cases hid : id' = id
  · subst hid
    rw [shape, setEntry_self, shape, h]
    rfl
  · rw [shape, setEntry_of_ne hid, shape]

/-- Otherwise a null pointer is dereferenced. -/
theorem put_of_null {r : Registry M} {id : Nat}
    (h : ∀ worker, r.mapLogicList id ≠ some (some worker)) (msg : M) :
    (r.put id msg).nullDereferenced = true := by
  unfold put
  split
  case h_1 worker hentry => exact absurd hentry (h worker)
  case h_2 => rfl

/-- Putting does not touch the other tables. -/
theorem put_frame (r : Registry M) (id : Nat) (msg : M) :
    (r.put id msg).tidToLogicId = r.tidToLogicId ∧
      (r.put id msg).logicThreadCount = r.logicThreadCount ∧
      (r.put id msg).threads = r.threads ∧ (r.put id msg).timers = r.timers := by
  unfold put
  split <;> exact ⟨rfl, rfl, rfl, rfl⟩

end Registry

end PssClient
