import PssClient.Lib.Rank
import PssClient.Tms.Stop

/-!
# All workers are closed

`Close` of `TMS`, up to the timers: one worker after another is closed, in the order of
`m_mapLogicList`, and each of them is waited for. Meanwhile the other workers go on, and anyone puts
messages with any worker, also with those that are closed.

* `CloseAll` / `step` — the workers of `PssClient.Tms.Stop`, and where the loop of `Close` is.
* `Fits` / `Kept` — a worker of which the close message has been put finds it if it is in `Pop`; the
  loop has been through the workers in front, and has not come to those behind.
* `rank` — the steps that are left for `Close` and for the workers whose flag is cleared.
* `close_returns` — the result: what `Close` waits for comes after seven steps for each worker at
  most, whatever the others do.
-/

namespace PssClient

open Machine

namespace Stop

variable {M : Type*}

/-! ## One worker -/

/-- What is true of a worker in every run. -/
structure Fits (s : LogicTask M) : Prop where
  flag : s.mRun = true ↔ s.closer = .start
  -- the close message does not get lost
  wakes : s.closer = .joining → s.svc = .pop → s.threadQueue ≠ []
  joined : Joined s

theorem fits_started : Fits (started : LogicTask M) :=
  ⟨⟨fun _ => rfl, fun _ => rfl⟩, nofun, nofun⟩

theorem fits_step {s s' : LogicTask M} {a : Action M} (h : Fits s) (hs : step s a = some s') :
    Fits s' := by
  have hjoined : Joined s' := joined_step h.joined hs
  cases does_of_step hs with
  | put func => exact ⟨h.flag, fun _ _ => List.append_ne_nil_of_right_ne_nil _ nofun, hjoined⟩
  | close hclose =>
    cases hclose with
    | clear hpc => exact ⟨⟨nofun, nofun⟩, nofun, hjoined⟩
    | put hpc =>
      have hflag : s.mRun ≠ true := fun htrue => by
        rw [h.flag.mp htrue] at hpc
        cases hpc
      exact ⟨⟨fun htrue => absurd htrue hflag, nofun⟩,
        fun _ _ => List.append_ne_nil_of_right_ne_nil _ nofun, hjoined⟩
    | join hpc hover =>
      have hflag : s.mRun ≠ true := fun htrue => by
        rw [h.flag.mp htrue] at hpc
        cases hpc
      exact ⟨⟨fun htrue => absurd htrue hflag, nofun⟩, nofun, hjoined⟩
  | enter hsvc hrun =>
    refine ⟨h.flag, fun hpc => ?_, hjoined⟩
    rw [h.flag.mp hrun] at hpc
    cases hpc
  | leave | pop | call | callClose | finish => exact ⟨h.flag, nofun, hjoined⟩

/-- The steps that a worker takes until it is over, once its flag is cleared. -/
def Svc.rank : Svc M → Nat
  | .over => 0
  | .test => 1
  | .running => 2
  | .taken _ => 3
  | .pop => 4

theorem Svc.rank_le (svc : Svc M) : svc.rank ≤ 4 := by
  cases svc <;> simp [rank]

/-- The steps of `Close`, and of the worker from then on. -/
def LogicTask.rank (s : LogicTask M) : Nat :=
  match s.closer with
  | .start => 7
  | .cleared => s.svc.rank + 2
  | .joining => s.svc.rank + 1
  | .returned => s.svc.rank

/-- A step of `Close`, or of the worker when its flag is cleared. -/
def counts (s : LogicTask M) : Action M → Bool
  | .put _ => false
  | .close => true
  | .test | .pop | .call | .finish => !s.mRun

/-- The worker goes from `s.svc` to `svc`. -/
theorem rank_svc {s s' : LogicTask M} (h : Fits s) (hcloser : s'.closer = s.closer)
    (hrank : s.mRun = false → s'.svc.rank < s.svc.rank) :
    s'.rank + (if (!s.mRun) = true then 1 else 0) ≤ s.rank := by
  cases hflag : s.mRun with
  | true =>
    have hstart := h.flag.mp hflag
    rw [LogicTask.rank, LogicTask.rank, hcloser, hstart]
    exact Nat.le_refl 7
  | false =>
    have hlt := hrank hflag
    have hpc : s.closer ≠ .start := fun hstart => by
      rw [h.flag.mpr hstart] at hflag
      cases hflag
    rw [LogicTask.rank, LogicTask.rank, hcloser]
    cases hcloser : s.closer with
    | start => exact absurd hcloser hpc
    | cleared | joining | returned =>
      simp only [Bool.not_false, if_true]
      omega

theorem rank_step {s s' : LogicTask M} {a : Action M} (h : Fits s) (hs : step s a = some s') :
    s'.rank + (if counts s a = true then 1 else 0) ≤ s.rank := by
  cases does_of_step hs with
  | put func => exact Nat.le_refl _
  | close hclose =>
    have hsvc := s.svc.rank_le
    cases hclose with
    | clear hpc =>
      simp only [LogicTask.rank, hpc, counts, if_true]
      omega
    | put hpc => simp only [LogicTask.rank, hpc, counts, if_true, Nat.le_refl]
    | join hpc hover => simp only [LogicTask.rank, hpc, counts, if_true, Nat.le_refl]
  | enter hsvc hrun => exact rank_svc h rfl fun hflag => absurd (hrun.symm.trans hflag) nofun
  | leave hsvc | pop _ _ hsvc | call _ hsvc | callClose hsvc | finish hsvc =>
    refine rank_svc h rfl fun _ => ?_
    rw [hsvc]
    simp only [Svc.rank]
    decide

/-- As long as `Close` has not returned, it can go on, or the worker can that it waits for. -/
theorem can_go_on {s : LogicTask M} (h : Fits s) (hpc : s.closer ≠ .returned) :
    ∃ a, counts s a = true ∧ (step s a).isSome = true := by
  cases hcloser : s.closer with
  | start | cleared => exact ⟨.close, rfl, by simp only [step, close, hcloser, Option.isSome_some]⟩
  | returned => exact absurd hcloser hpc
  | joining =>
    have hcounts : (!s.mRun) = true := by
      rw [Bool.not_eq_true', Bool.eq_false_iff]
      intro htrue
      rw [h.flag.mp htrue] at hcloser
      cases hcloser
    cases hsvc : s.svc with
    | test => exact ⟨.test, hcounts, by simp only [step, hsvc, Option.isSome_some]⟩
    | running => exact ⟨.finish, hcounts, by simp only [step, hsvc, Option.isSome_some]⟩
    | taken msg =>
      refine ⟨.call, hcounts, ?_⟩
      cases msg <;> simp only [step, hsvc, Option.isSome_some]
    | pop =>
      refine ⟨.pop, hcounts, ?_⟩
      cases hqueue : s.threadQueue with
      | nil => exact absurd hqueue (h.wakes hcloser hsvc)
      | cons msg threadQueue => simp only [step, hsvc, hqueue, Option.isSome_some]
    -- the worker is over, and the join ends
    | _ => exact ⟨.close, rfl, by simp only [step, close, hcloser, hsvc, Option.isSome_some]⟩

/-- The step is one of `Close`. -/
def Action.isClose : Action M → Bool
  | .close => true
  | _ => false

end Stop

/-! ## All of them -/

/-- The workers, and how far the loop of `Close` over them has come. Each worker is a state of
`Stop.step`. -/
structure CloseAll (M : Type*) where
  -- in the order of the ids
  mapLogicList : List (Stop.LogicTask M)
  /-- The worker that the loop of `Close` has come to. -/
  iter : Nat := 0

namespace CloseAll

variable {M : Type*}

/-- What can happen next. The step of `Close` is that of the worker that its loop has come to. -/
inductive Action (M : Type*)
  /-- A worker takes its next step, or someone puts a message with it. -/
  | logic (id : Nat) (a : Stop.Action M)
  /-- `Close` takes its next step. -/
  | close

/-- `Close`, which goes on to the next worker when it has waited for this one. -/
def close (s : CloseAll M) : Option (CloseAll M) :=
  s.mapLogicList[s.iter]?.bind fun task =>
    (Stop.close task).map fun task' =>
      { mapLogicList := s.mapLogicList.set s.iter task'
        iter := if task'.closer = .returned then s.iter + 1 else s.iter }

def step (s : CloseAll M) : Action M → Option (CloseAll M)
  | .logic id a =>
    if a.isClose = true then none
    else
      s.mapLogicList[id]?.bind fun task =>
        (Stop.step task a).map fun task' =>
          { s with mapLogicList := s.mapLogicList.set id task' }
  | .close => close s

/-- The workers when they have been created. -/
def created (count : Nat) : CloseAll M where
  mapLogicList := List.replicate count Stop.started

/-! ## The invariant -/

/-- Where the loop of `Close` is, the workers in front are closed, and those behind are not. -/
structure Placed (iter id : Nat) (task : Stop.LogicTask M) : Prop where
  fits : Stop.Fits task
  front : id < iter → task.closer = .returned
  here : id = iter → task.closer ≠ .returned
  behind : iter < id → task.closer = .start

/-- The invariant of a shutdown. The list of the workers does not change, the iterator stays within
it, and each worker is where its place before, at or behind the iterator lets it be. -/
structure Kept (count : Nat) (s : CloseAll M) : Prop where
  length : s.mapLogicList.length = count
  iter : s.iter ≤ count
  placed : ∀ (id : Nat) task, s.mapLogicList[id]? = some task → Placed s.iter id task

theorem kept_created (count : Nat) : Kept count (created count : CloseAll M) where
  length := List.length_replicate
  iter := Nat.zero_le count
  placed := fun id task htask => by
    obtain rfl := List.eq_of_mem_replicate (List.mem_of_getElem? htask)
    exact ⟨Stop.fits_started, fun hlt => absurd hlt (Nat.not_lt_zero id), nofun, fun _ => rfl⟩

/-- The workers after one of them has taken a step. -/
theorem Kept.set {count : Nat} {s : CloseAll M} (h : Kept count s) {id iter : Nat}
    {task' : Stop.LogicTask M} (hiter : iter ≤ count) (htask' : Placed iter id task')
    (hothers : ∀ (id' : Nat) task, id' ≠ id → s.mapLogicList[id']? = some task →
      Placed iter id' task) :
    Kept count { mapLogicList := s.mapLogicList.set id task', iter := iter } where
  length := List.length_set.trans h.length
  iter := hiter
  placed := fun id' task htask => by
    by_cases hid : id' = id
    · subst hid
      rw [List.getElem?_set_self'] at htask
      obtain ⟨_, -, rfl⟩ := Option.map_eq_some_iff.mp htask
      exact htask'
    · rw [List.getElem?_set_ne (Ne.symm hid)] at htask
      exact hothers id' task hid htask

/-- A step of a worker is one of `Stop.step` and leaves the others; `Close` goes on to the next
worker when the one before has been joined. -/
theorem kept_step {count : Nat} {s s' : CloseAll M} {a : Action M} (h : Kept count s)
    (hs : step s a = some s') : Kept count s' := by
  cases a with
  | logic id a =>
    obtain ⟨hclose, hs⟩ := Option.ite_none_left_eq_some.mp hs
    obtain ⟨task, htask, hs⟩ := Option.bind_eq_some_iff.mp hs
    obtain ⟨task', htask', rfl⟩ := Option.map_eq_some_iff.mp hs
    have hplaced := h.placed id task htask
    have hcloser : task'.closer = task.closer := by
      refine Stop.closer_other (fun heq => hclose ?_) htask'
      rw [heq]
      rfl
    refine h.set h.iter ⟨Stop.fits_step hplaced.fits htask', ?_, ?_, ?_⟩
      fun id' task _ htask => h.placed id' task htask
    · exact fun hlt => hcloser.trans (hplaced.front hlt)
    · exact fun heq => hcloser ▸ hplaced.here heq
    · exact fun hlt => hcloser.trans (hplaced.behind hlt)
  | close =>
    obtain ⟨task, htask, hs⟩ := Option.bind_eq_some_iff.mp hs
    obtain ⟨task', htask', rfl⟩ := Option.map_eq_some_iff.mp hs
    have hplaced := h.placed s.iter task htask
    have hfits : Stop.Fits task' := Stop.fits_step (a := .close) hplaced.fits htask'
    have hlt : s.iter < count := h.length ▸ (List.getElem?_eq_some_iff.mp htask).1
    by_cases hreturned : task'.closer = .returned
    · rw [if_pos hreturned]
      refine h.set hlt ⟨hfits, fun _ => hreturned, fun heq => absurd heq (by omega),
        fun hlt => absurd hlt (by omega)⟩ fun id' task hid htask => ?_
      have hplaced' := h.placed id' task htask
      refine ⟨hplaced'.fits, fun hlt => hplaced'.front (by omega), fun heq => ?_,
        fun hlt => hplaced'.behind (by omega)⟩
      rw [hplaced'.behind (by omega)]
      exact nofun
    · rw [if_neg hreturned]
      exact h.set h.iter ⟨hfits, fun hlt => absurd hlt (Nat.lt_irrefl _), fun _ => hreturned,
        fun hlt => absurd hlt (Nat.lt_irrefl _)⟩ fun id' task _ htask => h.placed id' task htask

/-! ## The steps of `Close` -/

def rank (s : CloseAll M) : Nat := (s.mapLogicList.map Stop.LogicTask.rank).sum

/-- A step of `Close`, or of a worker whose flag is cleared. -/
def counts (s : CloseAll M) : Action M → Bool
  | .logic id a => s.mapLogicList[id]?.elim false fun task => Stop.counts task a
  | .close => true

theorem rank_set {s : CloseAll M} {id : Nat} {task task' : Stop.LogicTask M} {b : Bool}
    (htask : s.mapLogicList[id]? = some task)
    (hrank : task'.rank + (if b = true then 1 else 0) ≤ task.rank) :
    ((s.mapLogicList.set id task').map Stop.LogicTask.rank).sum + (if b = true then 1 else 0)
      ≤ rank s := by
  have hset := List.sum_map_set htask Stop.LogicTask.rank task'
  rw [rank]
  omega

theorem rank_step {count : Nat} {s s' : CloseAll M} {a : Action M} (h : Kept count s)
    (hs : step s a = some s') : rank s' + (if counts s a = true then 1 else 0) ≤ rank s := by
  cases a with
  | logic id a =>
    obtain ⟨-, hs⟩ := Option.ite_none_left_eq_some.mp hs
    obtain ⟨task, htask, hs⟩ := Option.bind_eq_some_iff.mp hs
    obtain ⟨task', htask', rfl⟩ := Option.map_eq_some_iff.mp hs
    have hrank := Stop.rank_step (h.placed id task htask).fits htask'
    rw [counts, htask]
    exact rank_set htask hrank
  | close =>
    obtain ⟨task, htask, hs⟩ := Option.bind_eq_some_iff.mp hs
    obtain ⟨task', htask', rfl⟩ := Option.map_eq_some_iff.mp hs
    exact rank_set (b := true) htask
      (Stop.rank_step (a := .close) (h.placed s.iter task htask).fits htask')

theorem rank_created (count : Nat) : rank (created count : CloseAll M) = 7 * count := by
  rw [rank, created, List.map_replicate, List.sum_replicate, Nat.mul_comm]
  rfl

/-- **`Close` comes to its end.** Whatever the workers do and whoever puts messages, in any run
`Close` and the workers that it has begun to close take no more than seven steps for each worker;
and as long as one of them is not closed, `Close` or the worker that it waits for can take a step.
When they can take none, every worker has left its loop and has been waited for. -/
theorem close_returns (count : Nat) (as : List (Action M)) (s : CloseAll M)
    (hrun : run step (created count) as = some s) :
    steps step (fun s a => counts s a = true) (created count) as + rank s ≤ 7 * count ∧
      ((∀ a, counts s a = true → step s a = none) →
        s.iter = count ∧ ∀ task ∈ s.mapLogicList, task.closer = .returned ∧ task.svc = .over) := by
  have h : Kept count s :=
    invariant_of_run (Kept count) (fun _ _ _ => kept_step) (kept_created count) hrun
  have hsteps := steps_add_rank_le (G := fun s a => counts s a = true) (Kept count) rank
    (fun _ _ _ h hs => ⟨kept_step h hs, rank_step h hs⟩) (kept_created count) hrun
  rw [rank_created] at hsteps
  refine ⟨hsteps, fun hstuck => ?_⟩
  have hend : s.iter = count := by
    by_contra hne
    have hlt : s.iter < s.mapLogicList.length := by
      rw [h.length]
      exact Nat.lt_of_le_of_ne h.iter hne
    have htask := List.getElem?_eq_getElem hlt
    have hplaced := h.placed s.iter _ htask
    obtain ⟨a, hcounts, hsome⟩ := Stop.can_go_on hplaced.fits (hplaced.here rfl)
    obtain ⟨task', htask'⟩ := Option.isSome_iff_exists.mp hsome
    cases hclose : a.isClose with
    | true =>
      cases a <;> cases hclose
      have hnone := hstuck .close rfl
      rw [step, close, htask, Option.bind_some] at hnone
      change Stop.close _ = _ at htask'
      rw [htask'] at hnone
      cases hnone
    | false =>
      have hnone := hstuck (.logic s.iter a) (by rw [counts, htask]; exact hcounts)
      rw [step, hclose, if_neg Bool.false_ne_true, htask, Option.bind_some, htask'] at hnone
      cases hnone
  refine ⟨hend, fun task hmem => ?_⟩
  obtain ⟨id, htask⟩ := List.mem_iff_getElem?.mp hmem
  have hplaced := h.placed id task htask
  have hreturned : task.closer = .returned := hplaced.front (by
    rw [hend, ← h.length]
    exact (List.getElem?_eq_some_iff.mp htask).1)
  exact ⟨hreturned, hplaced.fits.joined hreturned⟩

/-- Worker 0 is in `Pop`, and gets a message after its close message; worker 1 goes on meanwhile,
and is in its function when it is closed. -/
def closesTwo : List (Action Nat) :=
  [.logic 0 .test, .logic 1 (.put 7), .close, .close, .logic 0 (.put 8), .logic 0 .pop,
    .logic 1 .test, .logic 0 .call, .logic 1 .pop, .logic 1 .call, .close, .close, .logic 1 .finish,
    .close, .logic 1 .test, .close]

theorem close_returns_two :
    ∃ s : CloseAll Nat, run step (created 2) closesTwo = some s ∧
      steps step (fun s a => counts s a = true) (created 2) closesTwo + rank s ≤ 14 ∧
      s.iter = 2 ∧ ∀ task ∈ s.mapLogicList, task.closer = .returned ∧ task.svc = .over := by
  let zero : Stop.LogicTask Nat :=
    { mRun := false, threadQueue := [.run 8], svc := .over, closer := .returned }
  let one : Stop.LogicTask Nat :=
    { mRun := false, threadQueue := [.close], svc := .over, closer := .returned, accepted := [7],
      executed := [7] }
  let s : CloseAll Nat := { mapLogicList := [zero, one], iter := 2 }
  have hstuck : ∀ a, counts s a = true → step s a = none := fun a hcounts =>
    match a with
    | .close => rfl
    | .logic 0 a | .logic 1 a => by
      cases a with
      | put => cases hcounts
      | close | test | pop | call | finish => rfl
    | .logic (_ + 2) a => by cases hcounts
  obtain ⟨hsteps, hends⟩ := close_returns 2 closesTwo s rfl
  exact ⟨s, rfl, hsteps, hends hstuck⟩

end CloseAll

end PssClient
