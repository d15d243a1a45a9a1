import Mathlib.Data.List.Range
import Mathlib.Logic.Function.Basic

/-!
# The workers

`TMS` of `tms.hpp`: a map from worker ids to `CLogicTasK`, each a first-in first-out queue
(`CMessageQueue`) and a thread that takes one message after another out of it and runs it. The
messages stand for what `m_func` will do, over a type `M`.

* `createLogic` / `addMessage` — under their names in the source. A message for a worker that
  does not exist is dropped.
* `pop` / `call` / `finish` — one round of `svc`, in the steps that other threads can come
  between.
* `loadModule` — the workers that `load_module` creates: the ids below the thread count.
-/

namespace PssClient

/-- Where the thread of a worker is in its round. -/
inductive Svc (M : Type*)
  /-- Waiting in `Pop`, or about to. -/
  | idle
  /-- A message has been taken out of the queue. -/
  | taken (msg : M)
  /-- `m_func` has been called. -/
  | running

/-- `CLogicTasK`. -/
structure LogicTask (M : Type*) where
  threadQueue : List M := []
  svc : Svc M := .idle

/-- `TMS`, as far as messages without a delay go. -/
structure Tms (M : Type*) where
  mapLogicList : Nat → Option (LogicTask M) := fun _ => none
  logicThreadCount : Nat := 0

namespace Tms

variable {M : Type*}

/-- Put a worker into the map. -/
def set (id : Nat) (task : LogicTask M) (tms : Tms M) : Tms M :=
  { tms with mapLogicList := Function.update tms.mapLogicList id (some task) }

@[simp] theorem set_mapLogicList_self (id : Nat) (task : LogicTask M) (tms : Tms M) :
    (tms.set id task).mapLogicList id = some task := Function.update_self ..

theorem set_mapLogicList_of_ne {id id' : Nat} (h : id' ≠ id) (task : LogicTask M) (tms : Tms M) :
    (tms.set id task).mapLogicList id' = tms.mapLogicList id' := Function.update_of_ne h ..

/-- `CreateLogic`. -/
def createLogic (id : Nat) (tms : Tms M) : Tms M :=
  match tms.mapLogicList id with
  | some _ => tms
  | none => { tms.set id {} with logicThreadCount := tms.logicThreadCount + 1 }

/-- `AddMessage` without a delay. -/
def addMessage (id : Nat) (msg : M) (tms : Tms M) : Tms M :=
  match tms.mapLogicList id with
  | some task => tms.set id { task with threadQueue := task.threadQueue ++ [msg] }
  | none => tms

/-- An idle worker takes the message in front. -/
def pop (id : Nat) (tms : Tms M) : Option (Tms M) :=
  (tms.mapLogicList id).bind fun task =>
    match task.svc, task.threadQueue with
    | .idle, msg :: threadQueue => some (tms.set id ⟨threadQueue, .taken msg⟩)
    | _, _ => none

/-- It calls `m_func`; the message it has called. -/
def call (id : Nat) (tms : Tms M) : Option (M × Tms M) :=
  (tms.mapLogicList id).bind fun task =>
    match task.svc with
    | .taken msg => some (msg, tms.set id { task with svc := .running })
    | _ => none

/-- `m_func` returns. -/
def finish (id : Nat) (tms : Tms M) : Option (Tms M) :=
  (tms.mapLogicList id).bind fun task =>
    match task.svc with
    | .running => some (tms.set id { task with svc := .idle })
    | _ => none

/-- The part of `load_module` that creates the workers. -/
def loadModule (threadCount : Nat) : Tms M :=
  (List.range threadCount).foldl (fun tms id => tms.createLogic id) {}

theorem loadModule_succ (n : Nat) :
    (loadModule (n + 1) : Tms M) = (loadModule n).createLogic n := by
  unfold loadModule
  rw [List.range_succ, List.foldl_append]
  rfl

/-- The workers are those with an id below the thread count, and each is idle with an empty
queue. Induction on the thread count. -/
theorem loadModule_eq (n : Nat) :
    (loadModule n : Tms M).logicThreadCount = n ∧
      ∀ id, (loadModule n : Tms M).mapLogicList id = if id < n then some {} else none := by
  induction n with
  | zero => exact ⟨rfl, fun id => rfl⟩
  | succ n ih =>
    obtain ⟨hcount, hmap⟩ := ih
    have hnew : (loadModule n : Tms M).mapLogicList n = none := by
      rw [hmap n, if_neg (Nat.lt_irrefl n)]
    have heq : (loadModule (n + 1) : Tms M)
        = { (loadModule n).set n {} with logicThreadCount := n + 1 } := by
      rw [loadModule_succ, createLogic, hnew, hcount]
    rw [heq]
    refine ⟨rfl, fun id => ?_⟩
    show ((loadModule n).set n {}).mapLogicList id = _
    by_cases hid : id = n
    · subst hid
      rw [set_mapLogicList_self, if_pos (Nat.lt_succ_self id)]
    · rw [set_mapLogicList_of_ne hid, hmap id]
      have hiff : id < n ↔ id < n + 1 := by omega
      exact if_congr hiff rfl rfl

/-- `get_tms_logic_id` of a client. -/
def getTmsLogicId (connectId : Nat) (tms : Tms M) : Nat :=
  if 0 = tms.logicThreadCount then 0 else connectId % tms.logicThreadCount

/-- With at least one worker, the client's worker is its id modulo their number. -/
theorem getTmsLogicId_eq {n : Nat} {tms : Tms M} (h : tms.logicThreadCount = n) (hn : 0 < n)
    (connectId : Nat) : getTmsLogicId connectId tms = connectId % n := by
  rw [getTmsLogicId, h, if_neg (Nat.ne_of_lt hn)]

theorem addMessage_of_some {tms : Tms M} {id : Nat} {task : LogicTask M}
    (h : tms.mapLogicList id = some task) (msg : M) :
    tms.addMessage id msg = tms.set id { task with threadQueue := task.threadQueue ++ [msg] } := by
  rw [addMessage, h]

theorem pop_of_idle {tms : Tms M} {id : Nat} {msg : M} {threadQueue : List M}
    (h : tms.mapLogicList id = some ⟨msg :: threadQueue, .idle⟩) :
    tms.pop id = some (tms.set id ⟨threadQueue, .taken msg⟩) := by
  rw [pop, h]
  rfl

theorem call_of_taken {tms : Tms M} {id : Nat} {msg : M} {threadQueue : List M}
    (h : tms.mapLogicList id = some ⟨threadQueue, .taken msg⟩) :
    tms.call id = some (msg, tms.set id ⟨threadQueue, .running⟩) := by
  rw [call, h]
  rfl

/-! ## What the workers still have to call -/

end Tms

/-- The messages a worker has still to call, oldest first. -/
def LogicTask.pending {M : Type*} (task : LogicTask M) : List M :=
  match task.svc with
  | .taken msg => msg :: task.threadQueue
  | _ => task.threadQueue

namespace Tms

variable {M : Type*}

def pending (tms : Tms M) (id : Nat) : List M :=
  match tms.mapLogicList id with
  | some task => task.pending
  | none => []

theorem pending_of_some {tms : Tms M} {id : Nat} {task : LogicTask M}
    (h : tms.mapLogicList id = some task) : tms.pending id = task.pending := by
  rw [pending, h]

theorem pending_loadModule (n id : Nat) : (loadModule n : Tms M).pending id = [] := by
  rw [pending, (loadModule_eq n).2 id]
  by_cases hid : id < n
  · rw [if_pos hid]
    rfl
  · rw [if_neg hid]

theorem pending_set_of_ne {id id' : Nat} (h : id' ≠ id) (task : LogicTask M) (tms : Tms M) :
    (tms.set id task).pending id' = tms.pending id' := by
  rw [pending, set_mapLogicList_of_ne h, pending]

/-- Two states with the same workers and the same count. -/
structure SameWorkers (tms tms' : Tms M) : Prop where
  count : tms'.logicThreadCount = tms.logicThreadCount
  workers : ∀ id, (tms'.mapLogicList id).isSome = (tms.mapLogicList id).isSome

theorem sameWorkers_set {tms : Tms M} {id : Nat} {task : LogicTask M}
    (h : tms.mapLogicList id = some task) (task' : LogicTask M) :
    SameWorkers tms (tms.set id task') := by
  refine ⟨rfl, fun id' => ?_⟩
  by_cases hid : id' = id
  · subst hid
    rw [set_mapLogicList_self, h]
    rfl
  · rw [set_mapLogicList_of_ne hid]

/-- A message for a worker that exists goes to the end of what it has to call. -/
theorem addMessage_spec {tms : Tms M} {id : Nat} (h : (tms.mapLogicList id).isSome = true)
    (msg : M) :
    SameWorkers tms (tms.addMessage id msg) ∧
      (tms.addMessage id msg).pending id = tms.pending id ++ [msg] ∧
      ∀ id', id' ≠ id → (tms.addMessage id msg).pending id' = tms.pending id' := by
  obtain ⟨task, htask⟩ := Option.isSome_iff_exists.mp h
  have heq : tms.addMessage id msg
      = tms.set id { task with threadQueue := task.threadQueue ++ [msg] } := by
    rw [addMessage, htask]
  rw [heq]
  refine ⟨sameWorkers_set htask _, ?_, fun id' hid => pending_set_of_ne hid _ _⟩
  rw [pending_of_some (set_mapLogicList_self ..), pending_of_some htask]
  rcases task with ⟨threadQueue, _ | msg' | _⟩ <;> rfl

/-- One for a worker that does not exist is dropped. -/
theorem addMessage_none {tms : Tms M} {id : Nat} (h : tms.mapLogicList id = none) (msg : M) :
    tms.addMessage id msg = tms := by
  rw [addMessage, h]

/-- In any case no worker is created, and nothing else gets into a queue. -/
theorem addMessage_cases (tms : Tms M) (id : Nat) (msg : M) :
    (tms.addMessage id msg).logicThreadCount = tms.logicThreadCount ∧
      ∀ id' m, m ∈ (tms.addMessage id msg).pending id' →
        m ∈ tms.pending id' ∨ id' = id ∧ m = msg := by
  by_cases hworker : (tms.mapLogicList id).isSome = true
  · obtain ⟨hsame, hself, hothers⟩ := addMessage_spec hworker msg
    refine ⟨hsame.count, fun id' m hmem => ?_⟩
    by_cases hid : id' = id
    · subst hid
      rw [hself] at hmem
      exact (List.mem_append.mp hmem).imp_right fun hnew => ⟨rfl, List.mem_singleton.mp hnew⟩
    · rw [hothers id' hid] at hmem
      exact .inl hmem
  · have hnone : tms.mapLogicList id = none := by simpa using hworker
    rw [addMessage_none hnone]
    exact ⟨rfl, fun _ _ hmem => .inl hmem⟩

/-- Taking a message out of the queue leaves it to be called. -/
theorem pop_spec {tms tms' : Tms M} {id : Nat} (h : tms.pop id = some tms') :
    SameWorkers tms tms' ∧ ∀ id', tms'.pending id' = tms.pending id' := by
  obtain ⟨task, htask, h⟩ := Option.bind_eq_some_iff.mp h
  rcases task with ⟨_ | ⟨msg, threadQueue⟩, _ | msg' | _⟩ <;> cases h
  refine ⟨sameWorkers_set htask _, fun id' => ?_⟩
  by_cases hid : id' = id
  · subst hid
    rw [pending_of_some (set_mapLogicList_self ..), pending_of_some htask]
    rfl
  · exact pending_set_of_ne hid _ _

/-- The message called is the oldest. -/
theorem call_spec {tms tms' : Tms M} {id : Nat} {msg : M} (h : tms.call id = some (msg, tms')) :
    SameWorkers tms tms' ∧ tms.pending id = msg :: tms'.pending id ∧
      ∀ id', id' ≠ id → tms'.pending id' = tms.pending id' := by
  obtain ⟨task, htask, h⟩ := Option.bind_eq_some_iff.mp h
  rcases task with ⟨threadQueue, _ | msg' | _⟩ <;> cases h
  refine ⟨sameWorkers_set htask _, ?_, fun id' hid => pending_set_of_ne hid _ _⟩
  rw [pending_of_some (set_mapLogicList_self ..), pending_of_some htask]
  rfl

theorem finish_spec {tms tms' : Tms M} {id : Nat} (h : tms.finish id = some tms') :
    SameWorkers tms tms' ∧ ∀ id', tms'.pending id' = tms.pending id' := by
  obtain ⟨task, htask, h⟩ := Option.bind_eq_some_iff.mp h
  rcases task with ⟨threadQueue, _ | msg' | _⟩ <;> cases h
  refine ⟨sameWorkers_set htask _, fun id' => ?_⟩
  by_cases hid : id' = id
  · subst hid
    rw [pending_of_some (set_mapLogicList_self ..), pending_of_some htask]
    rfl
  · exact pending_set_of_ne hid _ _

end Tms

end PssClient
