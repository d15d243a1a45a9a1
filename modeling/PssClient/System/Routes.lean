import PssClient.System.Step

/-!
# Where the tasks of the clients are

A task of a client waits with the worker of that client, and with no other; among the messages of
that worker the tasks of the client stand in the order in which they were posted.

* `Routed` — this, for what each client has still to run.
* `routed_addTasks` / `routed_call` — posting puts tasks at the end of what a client has to run, and
  what a worker calls is in front of it.
* `Running` — a worker is inside a message, and stays there until it finishes.
-/

namespace PssClient.System

open Tms

/-- The task that a message is for a client. -/
def taskOf (id : Nat) : LogicMessage → Option Task
  | .task id' task => if id' = id then some task else none
  | _ => none

/-- The tasks of a client among the messages. -/
def tasksOf (id : Nat) (msgs : List LogicMessage) : List Task := msgs.filterMap (taskOf id)

theorem tasksOf_append (id : Nat) (msgs msgs' : List LogicMessage) :
    tasksOf id (msgs ++ msgs') = tasksOf id msgs ++ tasksOf id msgs' := List.filterMap_append

@[simp] theorem taskOf_self (id : Nat) (task : Task) : taskOf id (.task id task) = some task :=
  if_pos rfl

theorem taskOf_of_ne {id id' : Nat} (h : id' ≠ id) (task : Task) :
    taskOf id (.task id' task) = none := if_neg h

theorem taskOf_other {msg : LogicMessage} (h : msg.Other) (id : Nat) : taskOf id msg = none := by
  cases msg with
  | task => exact h.elim
  | timerCheck | timerRound | user => rfl

/-- `left` is what each client has still to run. -/
structure Routed (n : Nat) (tms : Tms LogicMessage) (left : Nat → Option (List Task)) : Prop where
  count : tms.logicThreadCount = n
  workers : ∀ id, (tms.mapLogicList id).isSome = true ↔ id < n
  queued : ∀ logicId id task, .task id task ∈ tms.pending logicId →
    logicId = id % n ∧ (left id).isSome = true
  tasks : ∀ id tasks, left id = some tasks → tasksOf id (tms.pending (id % n)) = tasks
  rounds : ∀ logicId, .timerRound ∈ tms.pending logicId → logicId = 0

theorem routed_loadModule (n : Nat) : Routed n (loadModule n) (fun _ => none) where
  count := (loadModule_eq n).1
  workers := fun id => by
    rw [(loadModule_eq n).2 id]
    by_cases hid : id < n <;> simp [hid]
  queued := fun logicId id task hmem => by
    rw [pending_loadModule n logicId] at hmem
    cases hmem
  tasks := nofun
  rounds := fun logicId hmem => by
    rw [pending_loadModule n logicId] at hmem
    cases hmem

section

variable {n : Nat} {tms tms' : Tms LogicMessage} {left : Nat → Option (List Task)}

/-- The workers have moved on without calling anything. -/
theorem Routed.same (h : Routed n tms left) (hsame : SameWorkers tms tms')
    (hpending : ∀ id, tms'.pending id = tms.pending id) : Routed n tms' left where
  count := hsame.count.trans h.count
  workers := fun id => by rw [hsame.workers id, h.workers id]
  queued := fun logicId id task hmem => h.queued logicId id task (hpending logicId ▸ hmem)
  tasks := fun id tasks hleft => (congrArg (tasksOf id) (hpending _)).trans (h.tasks id tasks hleft)
  rounds := fun logicId hmem => h.rounds logicId (hpending logicId ▸ hmem)

/-- A new client has nothing to run. -/
theorem Routed.start (h : Routed n tms left) {id : Nat} (hnew : left id = none) :
    Routed n tms (Function.update left id (some [])) where
  count := h.count
  workers := h.workers
  queued := fun logicId id' task hmem => by
    obtain ⟨hworker, hsome⟩ := h.queued logicId id' task hmem
    have hne : id' ≠ id := fun heq => by
      rw [heq, hnew] at hsome
      cases hsome
    rw [Function.update_of_ne hne]
    exact ⟨hworker, hsome⟩
  tasks := fun id' tasks hleft => by
    by_cases hid : id' = id
    · subst hid
      rw [Function.update_self] at hleft
      rw [← Option.some.inj hleft]
      apply List.filterMap_eq_nil_iff.mpr
      intro msg hmem
      by_contra htask
      obtain ⟨task, htask⟩ := Option.ne_none_iff_exists'.mp htask
      -- there is no message of a client that does not exist
      cases msg with
      | task id'' task' =>
        by_cases hid : id'' = id'
        · subst hid
          have hsome := (h.queued _ _ _ hmem).2
          rw [hnew] at hsome
          cases hsome
        · rw [taskOf_of_ne hid] at htask
          cases htask
      | timerCheck | timerRound | user => cases htask
    · rw [Function.update_of_ne hid] at hleft
      exact h.tasks id' tasks hleft
  rounds := h.rounds

/-- A message that is no task. -/
theorem Routed.addOther (h : Routed n tms left) (logicId : Nat) {msg : LogicMessage}
    (hmsg : msg.Other) (hround : msg = .timerRound → logicId = 0) :
    Routed n (tms.addMessage logicId msg) left := by
  obtain ⟨hcount, hmem⟩ := addMessage_cases tms logicId msg
  by_cases hworker : (tms.mapLogicList logicId).isSome = true
  · obtain ⟨hsame, hself, hothers⟩ := addMessage_spec hworker msg
    refine ⟨hcount.trans h.count, fun id => by rw [hsame.workers id, h.workers id],
      fun logicId' id task hqueued => ?_, fun id tasks hleft => ?_, fun logicId' hqueued => ?_⟩
    · rcases hmem logicId' _ hqueued with hold | ⟨-, rfl⟩
      · exact h.queued logicId' id task hold
      · exact hmsg.elim
    · rw [← h.tasks id tasks hleft]
      by_cases hid : id % n = logicId
      · rw [hid, hself, tasksOf_append, tasksOf, tasksOf,
          List.filterMap_cons_none (taskOf_other hmsg id), List.filterMap_nil, List.append_nil]
      · rw [hothers _ hid]
    · rcases hmem logicId' _ hqueued with hold | ⟨heq, hnew⟩
      · exact h.rounds logicId' hold
      · exact heq.trans (hround hnew.symm)
  · rw [addMessage_none (by simpa using hworker)]
    exact h

/-- **A task goes to its client's worker.** It is the last of the client's tasks there, and does not
come between the tasks of another client of the same worker. -/
theorem Routed.addTask (h : Routed n tms left) (hn : 0 < n) {id : Nat} {tasks : List Task}
    (hleft : left id = some tasks) (task : Task) :
    Routed n (tms.addMessage (tms.getTmsLogicId id) (.task id task))
      (Function.update left id (some (tasks ++ [task]))) := by
  rw [getTmsLogicId_eq h.count hn id]
  obtain ⟨hcount, hmem⟩ := addMessage_cases tms (id % n) (.task id task)
  obtain ⟨hsame, hself, hothers⟩ :=
    addMessage_spec ((h.workers (id % n)).mpr (Nat.mod_lt id hn)) (.task id task)
  refine ⟨hcount.trans h.count, fun w => by rw [hsame.workers w, h.workers w],
    fun logicId id' task' hqueued => ?_, fun id' tasks' hleft' => ?_, fun logicId hqueued => ?_⟩
  · -- every task is with the worker of its client
    rcases hmem logicId _ hqueued with hold | ⟨hw, hnew⟩
    · obtain ⟨hworker, hsome⟩ := h.queued logicId id' task' hold
      refine ⟨hworker, ?_⟩
      by_cases hne : id' = id
      · rw [hne, Function.update_self]
        rfl
      · rwa [Function.update_of_ne hne]
    · obtain ⟨rfl, -⟩ := LogicMessage.task.inj hnew
      rw [Function.update_self]
      exact ⟨hw, rfl⟩
  · -- in the order in which it has been posted
    by_cases hne : id' = id
    · subst hne
      rw [Function.update_self] at hleft'
      rw [← Option.some.inj hleft', hself, tasksOf_append, h.tasks id' tasks hleft, tasksOf,
        List.filterMap_cons_some (taskOf_self id' task), List.filterMap_nil]
    · rw [Function.update_of_ne hne] at hleft'
      rw [← h.tasks id' tasks' hleft']
      by_cases hw : id' % n = id % n
      · rw [hw, hself, tasksOf_append, tasksOf, tasksOf,
          List.filterMap_cons_none (taskOf_of_ne (Ne.symm hne) task), List.filterMap_nil,
          List.append_nil]
      · rw [hothers _ hw]
  · -- the rounds are with worker 0
    rcases hmem logicId _ hqueued with hold | ⟨-, hnew⟩
    · exact h.rounds logicId hold
    · cases hnew

theorem routed_addTasks (h : Routed n tms left) (hn : 0 < n) {id : Nat} {tasks : List Task}
    (hleft : left id = some tasks) (new : List Task) :
    Routed n (addTasks id new tms) (Function.update left id (some (tasks ++ new))) := by
  induction new generalizing tms left tasks with
  | nil =>
    rw [List.append_nil, ← hleft, Function.update_eq_self]
    exact h
  | cons task new ih =>
    have hnext := ih (h.addTask hn hleft task) (Function.update_self ..)
    rwa [Function.update_idem, List.append_assoc] at hnext

/-- What is pending after a call was so before. -/
theorem mem_pending_of_call {logicId : Nat} {msg : LogicMessage}
    (hcall : tms.call logicId = some (msg, tms')) {logicId' : Nat} {msg' : LogicMessage}
    (hmem : msg' ∈ tms'.pending logicId') : msg' ∈ tms.pending logicId' := by
  obtain ⟨-, hself, hothers⟩ := call_spec hcall
  by_cases hw : logicId' = logicId
  · subst hw
    exact hself ▸ List.mem_cons_of_mem _ hmem
  · exact hothers logicId' hw ▸ hmem

/-- What a worker calls is in front of what its client has to run. -/
theorem routed_call (h : Routed n tms left) {logicId id : Nat} {task : Task}
    (hcall : tms.call logicId = some (.task id task, tms')) :
    logicId = id % n ∧ ∃ tasks, left id = some (task :: tasks) ∧
      Routed n tms' (Function.update left id (some tasks)) := by
  obtain ⟨hsame, hself, hothers⟩ := call_spec hcall
  obtain ⟨hworker, hsome⟩ := h.queued logicId id task (hself ▸ List.mem_cons_self)
  obtain ⟨tasks', hleft⟩ := Option.isSome_iff_exists.mp hsome
  have htasks := h.tasks id tasks' hleft
  rw [← hworker, hself, tasksOf, List.filterMap_cons_some (taskOf_self id task)] at htasks
  refine ⟨hworker, tasksOf id (tms'.pending logicId), hleft.trans (congrArg some htasks.symm),
    hsame.count.trans h.count, fun w => by rw [hsame.workers w, h.workers w],
    fun logicId' id' task' hmem => ?_, fun id' tasks hleft' => ?_,
    fun logicId' hmem => h.rounds logicId' (mem_pending_of_call hcall hmem)⟩
  · obtain ⟨hworker', hsome'⟩ := h.queued logicId' id' task' (mem_pending_of_call hcall hmem)
    refine ⟨hworker', ?_⟩
    by_cases hne : id' = id
    · rw [hne, Function.update_self]
      rfl
    · rwa [Function.update_of_ne hne]
  · by_cases hne : id' = id
    · subst hne
      rw [Function.update_self] at hleft'
      rw [← hworker]
      exact Option.some.inj hleft'
    · rw [Function.update_of_ne hne] at hleft'
      rw [← h.tasks id' tasks hleft']
      by_cases hw : id' % n = logicId
      · rw [hw, hself, tasksOf, tasksOf, List.filterMap_cons_none (taskOf_of_ne (Ne.symm hne) task)]
      · rw [hothers _ hw]

/-- A message that is no task is called. -/
theorem Routed.callOther (h : Routed n tms left) {logicId : Nat} {msg : LogicMessage}
    (hmsg : msg.Other) (hcall : tms.call logicId = some (msg, tms')) : Routed n tms' left := by
  obtain ⟨hsame, hself, hothers⟩ := call_spec hcall
  refine ⟨hsame.count.trans h.count, fun w => by rw [hsame.workers w, h.workers w],
    fun logicId' id task hmem => h.queued logicId' id task (mem_pending_of_call hcall hmem),
    fun id tasks hleft => ?_,
    fun logicId' hmem => h.rounds logicId' (mem_pending_of_call hcall hmem)⟩
  rw [← h.tasks id tasks hleft]
  by_cases hw : id % n = logicId
  · rw [hw, hself, tasksOf, tasksOf, List.filterMap_cons_none (taskOf_other hmsg id)]
  · rw [hothers _ hw]

/-! ## Inside a message -/

/-- The worker is inside `m_func`. -/
def Running (tms : Tms LogicMessage) (logicId : Nat) : Prop :=
  ∃ threadQueue, tms.mapLogicList logicId = some ⟨threadQueue, .running⟩

theorem Running.addMessage {logicId : Nat} (h : Running tms logicId) (id : Nat)
    (msg : LogicMessage) : Running (tms.addMessage id msg) logicId := by
  obtain ⟨threadQueue, htask⟩ := h
  cases hid : tms.mapLogicList id with
  | none =>
    rw [addMessage_none hid]
    exact ⟨threadQueue, htask⟩
  | some task =>
    rw [addMessage_of_some hid]
    by_cases heq : logicId = id
    · subst heq
      obtain rfl := Option.some.inj (htask.symm.trans hid)
      exact ⟨_, set_mapLogicList_self ..⟩
    · exact ⟨threadQueue, (set_mapLogicList_of_ne heq _ _).trans htask⟩

theorem Running.addTasks {logicId : Nat} (h : Running tms logicId) (id : Nat) (new : List Task) :
    Running (addTasks id new tms) logicId := by
  induction new generalizing tms with
  | nil => exact h
  | cons task new ih => exact ih (h.addMessage _ _)

theorem Running.pop {logicId id : Nat} (h : Running tms logicId) (hpop : tms.pop id = some tms') :
    Running tms' logicId := by
  obtain ⟨threadQueue, htask⟩ := h
  obtain ⟨task, hid, hpop⟩ := Option.bind_eq_some_iff.mp hpop
  rcases task with ⟨_ | ⟨msg, threadQueue'⟩, _ | _ | _⟩ <;> cases hpop
  have hne : logicId ≠ id := by
    rintro rfl
    cases htask.symm.trans hid
  exact ⟨threadQueue, (set_mapLogicList_of_ne hne _ _).trans htask⟩

/-- It calls nothing else meanwhile. -/
theorem Running.call {logicId id : Nat} {msg : LogicMessage} (h : Running tms logicId)
    (hcall : tms.call id = some (msg, tms')) : logicId ≠ id ∧ Running tms' logicId := by
  obtain ⟨threadQueue, htask⟩ := h
  obtain ⟨task, hid, hcall⟩ := Option.bind_eq_some_iff.mp hcall
  rcases task with ⟨threadQueue', _ | msg' | _⟩ <;> cases hcall
  have hne : logicId ≠ id := by
    rintro rfl
    cases htask.symm.trans hid
  exact ⟨hne, threadQueue, (set_mapLogicList_of_ne hne _ _).trans htask⟩

theorem Running.finish {logicId id : Nat} (h : Running tms logicId) (hne : logicId ≠ id)
    (hfinish : tms.finish id = some tms') : Running tms' logicId := by
  obtain ⟨threadQueue, htask⟩ := h
  obtain ⟨task, hid, hfinish⟩ := Option.bind_eq_some_iff.mp hfinish
  rcases task with ⟨threadQueue', _ | _ | _⟩ <;> cases hfinish
  exact ⟨threadQueue, (set_mapLogicList_of_ne hne _ _).trans htask⟩

/-- A worker that calls its message is inside it. -/
theorem running_of_call {logicId : Nat} {msg : LogicMessage}
    (hcall : tms.call logicId = some (msg, tms')) : Running tms' logicId := by
  obtain ⟨task, hid, hcall⟩ := Option.bind_eq_some_iff.mp hcall
  rcases task with ⟨threadQueue, _ | msg' | _⟩ <;> cases hcall
  exact ⟨threadQueue, set_mapLogicList_self ..⟩

end

end PssClient.System
