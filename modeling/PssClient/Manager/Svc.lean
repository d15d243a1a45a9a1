import PssClient.Manager.Threads
import PssClient.Tms.CloseAll
import PssClient.Tms.Workers

/-!
# The loop of a worker, and where else it stands

`CLogicTasK::svc` is in three places of this development, each of which has the part of it that the
results there are about. `PssClient.Tms.Stop` has all of it for one worker: the test of `m_run`, the
close message, and the steps of `Close`. `PssClient.Tms.Workers` has the queues of all the workers,
for what becomes of a message, and leaves out how they end. `PssClient.Manager.Threads` has no
queues, but the mutexes that a function locks when it calls the library. The first is the finest,
and the other two follow it.

* `Runs` / `runs_of_run` — up to `Close`, a worker of the first kind is a worker of the table: the
  same functions are queued, taken and called.
* `Serves` / `serves_of_run` — when `Close` of `TMS` goes through the workers, the thread of `close`
  and the workers among the threads come to the same places, in the same order.
-/

namespace PssClient

open Machine

/-! ## A worker of the table

The table gives out a worker by its id, and what it has called is collected next to it. -/

namespace Tms

variable {M : Type*}

/-- What happens to one worker of `Tms`: a message is put, or its thread takes one, calls it and is
back from it. -/
inductive WorkerAction (M : Type*)
  | addMessage (msg : M)
  | pop
  | call
  | finish

/-- The steps of one worker of the table, with the messages that it has called so far. -/
def workerStep (id : Nat) (s : List M × Tms M) : WorkerAction M → Option (List M × Tms M)
  | .addMessage msg => some (s.1, s.2.addMessage id msg)
  | .pop => (s.2.pop id).map fun tms => (s.1, tms)
  | .call => (s.2.call id).map fun r => (s.1 ++ [r.1], r.2)
  | .finish => (s.2.finish id).map fun tms => (s.1, tms)

theorem finish_of_running {tms : Tms M} {id : Nat} {threadQueue : List M}
    (h : tms.mapLogicList id = some ⟨threadQueue, .running⟩) :
    tms.finish id = some (tms.set id ⟨threadQueue, .idle⟩) := by
  rw [finish, h]
  rfl

end Tms

namespace Stop

variable {M : Type*}

/-- The same place in `svc`. The table has one place for the test of `m_run` and for `Pop`, and none
for the end. -/
inductive Svc.Same : Svc M → PssClient.Svc M → Prop
  | test : Same .test .idle
  | pop : Same .pop .idle
  | taken (func : M) : Same (.taken (.run func)) (.taken func)
  | running : Same .running .running

/-- The worker of the table has the same queue, is at the same place, and has called the same
functions. -/
def Runs (id : Nat) (s : LogicTask M) (t : List M × Tms M) : Prop :=
  ∃ task, t.2.mapLogicList id = some task ∧ s.threadQueue = task.threadQueue.map .run ∧
    s.svc.Same task.svc ∧ s.executed = t.1

/-- **A step of the worker is at most one of the table.** Before `Close` the flag is set and no
close message is queued, so that the loop does not end. -/
theorem runs_step {id : Nat} {s s' : LogicTask M} {a : Action M} {t : List M × Tms M}
    (hrunning : Running s) (h : Runs id s t) (ha : a ≠ .close) (hs : step s a = some s') :
    ∃ bs t', run (Tms.workerStep id) t bs = some t' ∧ Runs id s' t' := by
  obtain ⟨called, tms⟩ := t
  obtain ⟨⟨threadQueue, svc⟩, htask, hqueue, hsame, hexecuted⟩ := h
  have hself : ∀ task : PssClient.LogicTask M, (tms.set id task).mapLogicList id = some task :=
    fun task => Tms.set_mapLogicList_self id task tms
  cases does_of_step hs with
  | put func =>
    refine ⟨[.addMessage func], (called, tms.addMessage id func), rfl, ?_⟩
    rw [Runs, Tms.addMessage_of_some htask]
    refine ⟨_, hself _, ?_, hsame, hexecuted⟩
    show s.threadQueue ++ [.run func] = (threadQueue ++ [func]).map .run
    rw [hqueue, List.map_append]
    rfl
  | close => exact absurd rfl ha
  | enter hsvc hrun =>
    -- the test of the flag is no step of the table
    rw [hsvc] at hsame
    cases hsame
    exact ⟨[], (called, tms), rfl, _, htask, hqueue, .pop, hexecuted⟩
  | leave hsvc hrun =>
    rw [hrunning.flag] at hrun
    cases hrun
  | pop msg rest hsvc hfront =>
    rw [hsvc] at hsame
    cases hsame
    obtain ⟨func, queue, rfl, rfl, rfl⟩ := List.map_eq_cons_iff.mp (hqueue.symm.trans hfront)
    refine ⟨[.pop], (called, tms.set id ⟨queue, .taken func⟩), ?_, _, hself _, rfl, .taken func,
      hexecuted⟩
    apply run_singleton
    rw [Tms.workerStep, Tms.pop_of_idle htask]
    rfl
  | call func hsvc =>
    rw [hsvc] at hsame
    cases hsame
    refine ⟨[.call], (called ++ [func], tms.set id ⟨threadQueue, .running⟩), ?_, _, hself _, hqueue,
      .running, congrArg (· ++ [func]) hexecuted⟩
    apply run_singleton
    rw [Tms.workerStep, Tms.call_of_taken htask]
    rfl
  | callClose hsvc => exact absurd hsvc hrunning.taken
  | finish hsvc =>
    rw [hsvc] at hsame
    cases hsame
    refine ⟨[.finish], (called, tms.set id ⟨threadQueue, .idle⟩), ?_, _, hself _, hqueue, .test,
      hexecuted⟩
    apply run_singleton
    rw [Tms.workerStep, Tms.finish_of_running htask]
    rfl

/-- **A worker is a worker of the table.** Every run of a worker up to `Close` is a run of any of
the workers that `load_module` creates, which has called what the worker has executed. -/
theorem runs_of_run {count id : Nat} (hid : id < count) {as : List (Action M)} {s : LogicTask M}
    (hopen : .close ∉ as) (hrun : run step started as = some s) :
    ∃ bs t, run (Tms.workerStep id) ([], Tms.loadModule count) bs = some t ∧ Runs id s t := by
  have hmeets : Meets (step (M := M)) (fun _ a => a ≠ .close) started as :=
    meets_of_forall (P := fun a : Action M => a ≠ .close) (fun a ha heq => hopen (heq ▸ ha)) started
  have hstart : Runs id (started : LogicTask M) ([], Tms.loadModule count) := by
    refine ⟨{}, ?_, rfl, .test, rfl⟩
    exact ((Tms.loadModule_eq count).2 id).trans (if_pos hid)
  have hstep : ∀ (s : LogicTask M) a s' t, Running s ∧ Runs id s t → a ≠ .close →
      step s a = some s' →
      ∃ bs t', run (Tms.workerStep id) t bs = some t' ∧ Running s' ∧ Runs id s' t' := by
    intro s a s' t h ha hs
    obtain ⟨bs, t', hbs, ht'⟩ := runs_step h.1 h.2 ha hs
    exact ⟨bs, t', hbs, running_step h.1 ha hs, ht'⟩
  obtain ⟨bs, t, hbs, -, ht⟩ := follows_run (fun s t => Running s ∧ Runs id s t) hstep
    ⟨running_started, hstart⟩ hmeets hrun
  exact ⟨bs, t, hbs, ht⟩

end Stop

/-! ## The workers under `close`

`Close` of `TMS` is called by `close`, which has the mutex of the calls by then. The flag of a
worker is cleared when `close` goes on to the join; the close message is put in between, and is no
step of `PssClient.Manager.Threads`. -/

/-- Where a worker is among the threads, which have one place for all of `svc` but the function of
a message. -/
def Stop.Svc.place {M : Type*} : Stop.Svc M → Shutdown.CallerPc
  | .test | .pop | .taken _ => .svc
  | .running => .callback
  | .over => .over

namespace CloseAll

variable {M : Type*}

/-- As long as the flag of a worker is set, there is no close message. -/
def Late (task : Stop.LogicTask M) : Prop :=
  task.mRun = true → .close ∉ task.threadQueue ∧ task.svc ≠ .taken .close

theorem late_step {task task' : Stop.LogicTask M} {a : Stop.Action M} (hfits : Stop.Fits task)
    (h : Late task) (hs : Stop.step task a = some task') : Late task' := by
  cases Stop.does_of_step hs with
  | put func =>
    intro hflag
    refine ⟨fun hmem => ?_, (h hflag).2⟩
    rcases List.mem_append.mp hmem with hold | hnew
    · exact (h hflag).1 hold
    · cases List.mem_singleton.mp hnew
  | close hclose =>
    -- the flag is cleared before the message is put
    have hcleared : task.closer ≠ .start → task.mRun ≠ true := fun hpc hflag =>
      hpc (hfits.flag.mp hflag)
    cases hclose with
    | clear => exact fun hflag => absurd hflag nofun
    | put hpc | join hpc =>
      exact fun hflag => absurd hflag (hcleared (by rw [hpc]; decide))
  | enter hsvc | leave hsvc | call _ hsvc | callClose hsvc | finish hsvc =>
    exact fun hflag => ⟨(h hflag).1, nofun⟩
  | pop msg threadQueue hsvc hfront =>
    intro hflag
    have hnone := (h hflag).1
    rw [hfront] at hnone
    refine ⟨fun hmem => hnone (List.mem_cons_of_mem _ hmem), fun htaken => ?_⟩
    cases htaken
    exact hnone List.mem_cons_self

/-- Where `close` is. -/
def closerPc (s : CloseAll M) : Shutdown.ClosePc :=
  match s.mapLogicList[s.iter]? with
  | some task => if task.closer = .start then .closeLogic s.iter else .join s.iter
  | none => .closeLogic s.iter

/-- The worker is at the same place, and has the same flag. -/
structure Worker (task : Stop.LogicTask M) (id : Nat) (m : Shutdown.Manager) : Prop where
  caller : m.caller id = task.svc.place
  mRun : m.mRun id = task.mRun

/-- The threads show the workers and the loop of `Close`: every worker is at the same place and has
the same flag, and `close` is at the worker that the loop has come to, before or in its join. -/
structure Serves (count : Nat) (s : CloseAll M) (m : Shutdown.Manager) : Prop where
  kept : Kept count s
  late : ∀ task ∈ s.mapLogicList, Late task
  threadCount : m.threadCount = count
  closer : m.closer = s.closerPc
  worker : ∀ (id : Nat) task, s.mapLogicList[id]? = some task → Worker task id m

/-- One of the workers has changed, and the thread that has to do with it. -/
theorem Serves.set {count id iter : Nat} {s : CloseAll M} {m m' : Shutdown.Manager}
    {task' : Stop.LogicTask M} (h : Serves count s m)
    (hkept : Kept count { mapLogicList := s.mapLogicList.set id task', iter := iter })
    (hlate : Late task') (hcount : m'.threadCount = m.threadCount)
    (hcloser : m'.closer = closerPc { mapLogicList := s.mapLogicList.set id task', iter := iter })
    (hself : Worker task' id m')
    (hothers : ∀ id', id' ≠ id → m'.caller id' = m.caller id' ∧ m'.mRun id' = m.mRun id') :
    Serves count { mapLogicList := s.mapLogicList.set id task', iter := iter } m' where
  kept := hkept
  late := fun task hmem => by
    rcases List.mem_or_eq_of_mem_set hmem with hold | rfl
    · exact h.late task hold
    · exact hlate
  threadCount := hcount.trans h.threadCount
  closer := hcloser
  worker := fun id' task htask => by
    by_cases hid : id' = id
    · subst hid
      rw [List.getElem?_set_self'] at htask
      obtain ⟨_, -, rfl⟩ := Option.map_eq_some_iff.mp htask
      exact hself
    · rw [List.getElem?_set_ne (Ne.symm hid)] at htask
      obtain ⟨hcaller, hflag⟩ := hothers id' hid
      have hworker := h.worker id' task htask
      exact ⟨hcaller.trans hworker.caller, hflag.trans hworker.mRun⟩

/-- The loop of `Close` does not see what a worker does. -/
theorem closerPc_set {id : Nat} {s : CloseAll M} {task task' : Stop.LogicTask M}
    (htask : s.mapLogicList[id]? = some task) (hcloser : task'.closer = task.closer) :
    closerPc { s with mapLogicList := s.mapLogicList.set id task' } = s.closerPc := by
  unfold closerPc
  by_cases hid : s.iter = id
  · have hset : (s.mapLogicList.set id task')[id]? = some task' := by
      rw [List.getElem?_set_self', htask]
      rfl
    rw [hid, hset, htask]
    dsimp only
    rw [hcloser]
  · dsimp only
    rw [List.getElem?_set_ne (Ne.symm hid)]

theorem setCaller_eq_self {m : Shutdown.Manager} {id : Nat} {pc : Shutdown.CallerPc}
    (h : m.caller id = pc) : m.setCaller id pc = m := by
  subst h
  rw [Shutdown.Manager.setCaller, Function.update_eq_self]

/-- **A worker takes a step**, and the thread of the worker comes to the same place by one step or
by none. -/
theorem serves_logic {count id : Nat} {s s' : CloseAll M} {a : Stop.Action M}
    {m : Shutdown.Manager} (h : Serves count s m) (hs : step s (.logic id a) = some s') :
    ∃ bs m', run Shutdown.step m bs = some m' ∧ Serves count s' m' := by
  have hkept := kept_step h.kept hs
  obtain ⟨hnot, hs⟩ := Option.ite_none_left_eq_some.mp hs
  obtain ⟨task, htask, hs⟩ := Option.bind_eq_some_iff.mp hs
  obtain ⟨task', htask', rfl⟩ := Option.map_eq_some_iff.mp hs
  have hworker := h.worker id task htask
  have hplaced := h.kept.placed id task htask
  have hlate := h.late task (List.mem_of_getElem? htask)
  have ha : a ≠ .close := fun heq => hnot (heq ▸ rfl)
  have hflag : task'.mRun = task.mRun := by
    cases Stop.does_of_step htask' with
    | close => exact absurd rfl ha
    | _ => rfl
  -- whatever the step is, only the place of the worker can be another one
  have hserves : Serves count { s with mapLogicList := s.mapLogicList.set id task' }
      (m.setCaller id task'.svc.place) := by
    refine h.set hkept (late_step hplaced.fits hlate htask') rfl ?_ ⟨?_, ?_⟩ fun id' hid =>
      ⟨Function.update_of_ne hid _ _, rfl⟩
    · exact h.closer.trans (closerPc_set htask (Stop.closer_other ha htask')).symm
    · exact Shutdown.Manager.setCaller_self id _ m
    · exact hworker.mRun.trans hflag.symm
  have hstay : task'.svc.place = task.svc.place →
      ∃ bs m', run Shutdown.step m bs = some m' ∧
        Serves count { s with mapLogicList := s.mapLogicList.set id task' } m' := by
    intro hplace
    have hsame : m.setCaller id task'.svc.place = m :=
      setCaller_eq_self (hworker.caller.trans hplace.symm)
    exact ⟨[], m, rfl, hsame ▸ hserves⟩
  have hstop : task.svc.place = .svc → task.mRun = false → task'.svc = .over →
      ∃ bs m', run Shutdown.step m bs = some m' ∧
        Serves count { s with mapLogicList := s.mapLogicList.set id task' } m' := by
    intro hplace hcleared hover
    have hend : m.caller id = .svc ∧ m.mRun id = false :=
      ⟨hworker.caller.trans hplace, hworker.mRun.trans hcleared⟩
    rw [hover] at hserves
    exact ⟨[.stop id], _, run_singleton (if_pos hend), hserves⟩
  cases Stop.does_of_step htask' with
  | close => exact absurd rfl ha
  | put func => exact hstay rfl
  | enter hsvc | pop _ _ hsvc =>
    apply hstay
    rw [hsvc]
    rfl
  | leave hsvc hrun => exact hstop (by rw [hsvc]; rfl) hrun rfl
  | callClose hsvc =>
    refine hstop (by rw [hsvc]; rfl) (Bool.eq_false_iff.mpr fun htrue => ?_) rfl
    exact (hlate htrue).2 hsvc
  | call func hsvc =>
    have hbegin : m.caller id = .svc := by
      rw [hworker.caller, hsvc]
      rfl
    exact ⟨[.take id], _, run_singleton (if_pos hbegin), hserves⟩
  | finish hsvc =>
    have hreturn : m.caller id = .callback := by
      rw [hworker.caller, hsvc]
      rfl
    exact ⟨[.finish id], _, run_singleton (if_pos hreturn), hserves⟩

/-- **`Close` takes a step.** To clear the flag and to go on behind the join are steps of `close`,
to put the close message is none. -/
theorem serves_close {count : Nat} {s s' : CloseAll M} {m : Shutdown.Manager}
    (h : Serves count s m) (hs : step s .close = some s') :
    ∃ bs m', run Shutdown.step m bs = some m' ∧ Serves count s' m' := by
  have hkept := kept_step h.kept hs
  obtain ⟨task, htask, hs⟩ := Option.bind_eq_some_iff.mp hs
  obtain ⟨task', htask', rfl⟩ := Option.map_eq_some_iff.mp hs
  have hworker := h.worker s.iter task htask
  have hplaced := h.kept.placed s.iter task htask
  have hlt : s.iter < m.threadCount := by
    rw [h.threadCount, ← h.kept.length]
    exact (List.getElem?_eq_some_iff.mp htask).1
  have hlate' : Late task' :=
    late_step (a := .close) hplaced.fits (h.late task (List.mem_of_getElem? htask)) htask'
  have hset : (s.mapLogicList.set s.iter task')[s.iter]? = some task' := by
    rw [List.getElem?_set_self', htask]
    rfl
  have hcloser : m.closer = if task.closer = .start then .closeLogic s.iter else .join s.iter := by
    rw [h.closer, closerPc, htask]
  cases Stop.closes_of_close htask' with
  | clear hpc =>
    rw [if_pos hpc] at hcloser
    have hstep : Shutdown.step m .close = some { m with
        mRun := Function.update m.mRun s.iter false
        closer := .join s.iter } := by
      show m.close = _
      rw [Shutdown.Manager.close, hcloser]
      exact if_pos hlt
    refine ⟨[.close], _, run_singleton hstep, h.set hkept hlate' rfl ?_ ⟨hworker.caller, ?_⟩
      fun id' hid => ⟨rfl, Function.update_of_ne hid _ _⟩⟩
    · dsimp only [closerPc]
      rw [if_neg (by decide), hset]
      rfl
    · exact Function.update_self s.iter false m.mRun
  | put hpc =>
    rw [hpc, if_neg (by decide)] at hcloser
    refine ⟨[], m, rfl, h.set hkept hlate' rfl ?_ ⟨hworker.caller, hworker.mRun⟩
      fun id' _ => ⟨rfl, rfl⟩⟩
    dsimp only [closerPc]
    rw [if_neg (by decide), hset, hcloser]
    rfl
  | join hpc hover =>
    rw [hpc, if_neg (by decide)] at hcloser
    have hended : m.caller s.iter = .over := by
      rw [hworker.caller, hover]
      rfl
    have hstep : Shutdown.step m .close = some { m with closer := .closeLogic (s.iter + 1) } := by
      show m.close = _
      rw [Shutdown.Manager.close, hcloser]
      exact if_pos hended
    refine ⟨[.close], _, run_singleton hstep, h.set hkept hlate' rfl ?_
      ⟨hworker.caller, hworker.mRun⟩ fun id' _ => ⟨rfl, rfl⟩⟩
    -- the next worker, if there is one, has not been closed
    dsimp only [closerPc]
    rw [if_pos rfl, List.getElem?_set_ne (Nat.ne_of_lt (Nat.lt_succ_self s.iter))]
    cases hnext : s.mapLogicList[s.iter + 1]? with
    | none => rfl
    | some next =>
      have hstart := (h.kept.placed (s.iter + 1) next hnext).behind (Nat.lt_succ_self s.iter)
      exact (if_pos hstart).symm

theorem serves_step {count : Nat} {s s' : CloseAll M} {a : Action M} {m : Shutdown.Manager}
    (h : Serves count s m) (hs : step s a = some s') :
    ∃ bs m', run Shutdown.step m bs = some m' ∧ Serves count s' m' := by
  cases a with
  | logic id a => exact serves_logic h hs
  | close => exact serves_close h hs

/-- **The workers under `close` are these workers.** Every run of the workers and of the loop of
`Close` is a run of the threads in which `close` has got its mutex, and which leaves `close` and
every worker at the places that they have come to. -/
theorem serves_of_run (count : Nat) {as : List (Action M)} {s : CloseAll M}
    (hrun : run step (created count) as = some s) :
    ∃ bs m, run Shutdown.step (Shutdown.loaded count) (.close :: .close :: .close :: bs) = some m ∧
      Serves count s m := by
  -- at the lock, behind it, and at the first worker
  let m : Shutdown.Manager := { (Shutdown.loaded count).locked .threadMutex .closer with
    closer := .closeLogic 0 }
  have hstart : run Shutdown.step (Shutdown.loaded count) [.close, .close, .close] = some m := rfl
  have hserves : Serves count (created count : CloseAll M) m := by
    have hnew : ∀ task ∈ (created count : CloseAll M).mapLogicList, task = Stop.started :=
      fun task hmem => List.eq_of_mem_replicate hmem
    refine ⟨kept_created count, fun task hmem => ?_, rfl, ?_, fun id task htask => ?_⟩
    · rw [hnew task hmem]
      exact fun _ => ⟨List.not_mem_nil, nofun⟩
    · unfold closerPc
      split
      case h_1 task htask =>
        have hpc : task.closer = .start := by rw [hnew task (List.mem_of_getElem? htask)]; rfl
        exact (if_pos hpc).symm
      case h_2 => rfl
    · rw [hnew task (List.mem_of_getElem? htask)]
      exact ⟨rfl, rfl⟩
  obtain ⟨bs, t, hbs, ht⟩ := follows_run (G := fun _ _ => True) (Serves count)
    (fun _ _ _ _ h _ hs => serves_step h hs) hserves (meets_of_forall (fun _ _ => trivial) _) hrun
  exact ⟨bs, t, run_append.mpr ⟨m, hstart, hbs⟩, ht⟩

end CloseAll

end PssClient
