import Mathlib.Data.List.Basic
import PssClient.Lib.Run

/-!
# How a worker stops

`CLogicTasK` in the steps that other threads can come between. `Close` clears `m_run` and puts a
close message behind the work; `svc` tests the flag before every `Pop` and leaves at either.

* `LogicTask` / `step` — the queue, the position of the worker and of `Close`, and the logs of what
  has been put before `Close` and of what has been executed.
* `Does` / `does_of_step` — what each action does, and when it can be taken.
* `Running` — the invariant up to `Close`: what was put is executed, taken or queued.
* `NoPop` / `AtPop` — after the flag is cleared the worker takes no message any more, but for the
  one that it is in `Pop` for.
* `accepted_executed_iff` — the result: when exactly all of it has been executed at the end.
-/

namespace PssClient.Stop

open Machine

variable {M : Type*}

/-- `CLogicMessage`: a function to run, or the close message. -/
inductive LogicMessage (M : Type*)
  | run (func : M)
  | close

/-- Where the worker is in `svc`. -/
inductive Svc (M : Type*)
  /-- At the test of `m_run`. -/
  | test
  /-- Behind the test and in `Pop`. -/
  | pop
  | taken (msg : LogicMessage M)
  /-- In `m_func`. -/
  | running
  | over

/-- Where the thread is that calls `Close`. -/
inductive ClosePc
  | start
  -- `m_run` is cleared
  | cleared
  -- the close message is put
  | joining
  | returned
  deriving DecidableEq

/-- A `CLogicTasK` with its queue, the worker's place in `svc` and the place of the thread that
calls `Close`. -/
structure LogicTask (M : Type*) where
  mRun : Bool := true
  threadQueue : List (LogicMessage M) := []
  svc : Svc M := .test
  closer : ClosePc := .start
  -- what has been put before `Close` was called, and what has been executed
  accepted : List M := []
  executed : List M := []

/-- What can happen next: somebody puts a message, `Close` goes on, or the worker does. The worker
waits in `Pop` as long as its queue is empty. -/
inductive Action (M : Type*)
  | put (func : M)
  /-- `Close` takes its next step. -/
  | close
  | test
  | pop
  /-- The worker looks at the message, and calls its function. -/
  | call
  /-- The function returns. -/
  | finish

/-- `Close`. -/
def close (s : LogicTask M) : Option (LogicTask M) :=
  match s.closer with
  | .start => some { s with mRun := false, closer := .cleared }
  | .cleared => some { s with threadQueue := s.threadQueue ++ [.close], closer := .joining }
  | .joining =>
    match s.svc with
    | .over => some { s with closer := .returned }
    | _ => none
  | .returned => none

def step (s : LogicTask M) : Action M → Option (LogicTask M)
  | .put func =>
    some { s with
      threadQueue := s.threadQueue ++ [.run func]
      accepted := if s.closer = .start then s.accepted ++ [func] else s.accepted }
  | .close => close s
  | .test =>
    match s.svc with
    | .test => some { s with svc := if s.mRun = true then .pop else .over }
    | _ => none
  | .pop =>
    match s.svc, s.threadQueue with
    | .pop, msg :: threadQueue => some { s with threadQueue := threadQueue, svc := .taken msg }
    | _, _ => none
  | .call =>
    match s.svc with
    | .taken (.run func) => some { s with svc := .running, executed := s.executed ++ [func] }
    | .taken .close => some { s with svc := .over }
    | _ => none
  | .finish =>
    match s.svc with
    | .running => some { s with svc := .test }
    | _ => none

/-- What `Close` does from each of its places. -/
inductive Closes (s : LogicTask M) : LogicTask M → Prop
  | clear (hpc : s.closer = .start) : Closes s { s with mRun := false, closer := .cleared }
  | put (hpc : s.closer = .cleared) :
    Closes s { s with threadQueue := s.threadQueue ++ [.close], closer := .joining }
  | join (hpc : s.closer = .joining) (hover : s.svc = .over) :
    Closes s { s with closer := .returned }

theorem closes_of_close {s s' : LogicTask M} (h : close s = some s') : Closes s s' := by
  unfold close at h
  split at h
  case h_1 hpc => exact Option.some.inj h ▸ .clear hpc
  case h_2 hpc => exact Option.some.inj h ▸ .put hpc
  case h_3 hpc =>
    split at h
    case h_1 hover => exact Option.some.inj h ▸ .join hpc hover
    case h_2 => cases h
  case h_4 => cases h

/-- What an action does, and when it can be taken. -/
inductive Does (s : LogicTask M) : Action M → LogicTask M → Prop
  | put (func : M) :
    Does s (.put func) { s with
      threadQueue := s.threadQueue ++ [.run func]
      accepted := if s.closer = .start then s.accepted ++ [func] else s.accepted }
  | close {s' : LogicTask M} (hclose : Closes s s') : Does s .close s'
  | enter (hsvc : s.svc = .test) (hrun : s.mRun = true) : Does s .test { s with svc := .pop }
  | leave (hsvc : s.svc = .test) (hrun : s.mRun = false) : Does s .test { s with svc := .over }
  | pop (msg : LogicMessage M) (threadQueue : List (LogicMessage M)) (hsvc : s.svc = .pop)
      (hfront : s.threadQueue = msg :: threadQueue) :
    Does s .pop { s with threadQueue := threadQueue, svc := .taken msg }
  | call (func : M) (hsvc : s.svc = .taken (.run func)) :
    Does s .call { s with svc := .running, executed := s.executed ++ [func] }
  | callClose (hsvc : s.svc = .taken .close) : Does s .call { s with svc := .over }
  | finish (hsvc : s.svc = .running) : Does s .finish { s with svc := .test }

/-- The inversion of `step`; those of `Close` are put as `Closes`. -/
theorem does_of_step {s s' : LogicTask M} {a : Action M} (h : step s a = some s') :
    Does s a s' := by
  cases a with
  | put func => exact Option.some.inj h ▸ .put func
  | close => exact .close (closes_of_close h)
  | test =>
    simp only [step] at h
    split at h
    case h_1 hsvc =>
      obtain rfl := Option.some.inj h
      split
      case isTrue hrun => exact .enter hsvc hrun
      case isFalse hrun => exact .leave hsvc (Bool.eq_false_iff.mpr hrun)
    case h_2 => cases h
  | pop =>
    simp only [step] at h
    split at h
    case h_1 msg threadQueue hsvc hfront =>
      exact Option.some.inj h ▸ .pop msg threadQueue hsvc hfront
    case h_2 => cases h
  | call =>
    simp only [step] at h
    split at h
    case h_1 func hsvc => exact Option.some.inj h ▸ .call func hsvc
    case h_2 hsvc => exact Option.some.inj h ▸ .callClose hsvc
    case h_3 => cases h
  | finish =>
    simp only [step] at h
    split at h
    case h_1 hsvc => exact Option.some.inj h ▸ .finish hsvc
    case h_2 => cases h

/-- The worker when `start` has returned. -/
def started : LogicTask M := {}

/-- The function of a message. -/
def LogicMessage.funcs : LogicMessage M → List M
  | .run func => [func]
  | .close => []

/-- The function that the worker has taken and not called. -/
def Svc.funcs : Svc M → List M
  | .taken msg => msg.funcs
  | _ => []

/-- What has been executed, and what the worker has already taken. -/
def LogicTask.begun (s : LogicTask M) : List M := s.executed ++ s.svc.funcs

/-! ## Up to `Close` -/

/-- The worker before `Close`. Its flag is set, there is no close message, and the functions
accepted are those begun and those in the queue, in this order. -/
structure Running (s : LogicTask M) : Prop where
  closer : s.closer = .start
  flag : s.mRun = true
  alive : s.svc ≠ .over
  -- there is no close message yet
  queued : ∃ funcs, s.threadQueue = funcs.map .run ∧ s.accepted = s.begun ++ funcs
  taken : s.svc ≠ .taken .close

theorem running_started : Running (started : LogicTask M) :=
  ⟨rfl, rfl, nofun, ⟨[], rfl, rfl⟩, nofun⟩

/-- Until `Close` is called a function that is put goes to the end of the queue, and the worker
takes the first one; it finds the flag set and stays in its loop. -/
theorem running_step {s s' : LogicTask M} {a : Action M} (h : Running s) (ha : a ≠ .close)
    (hs : step s a = some s') : Running s' := by
  obtain ⟨funcs, hqueue, haccepted⟩ := h.queued
  -- the worker moves on and what it has begun stays
  have hmove : ∀ svc executed, svc ≠ .over → svc ≠ .taken .close →
      executed ++ svc.funcs = s.begun → Running { s with svc := svc, executed := executed } := by
    intro svc executed halive htaken hbegun
    exact ⟨h.closer, h.flag, halive, ⟨funcs, hqueue, haccepted.trans (by rw [← hbegun]; rfl)⟩,
      htaken⟩
  cases does_of_step hs with
  | close => exact absurd rfl ha
  | put func =>
    refine ⟨h.closer, h.flag, h.alive, ⟨funcs ++ [func], ?_, ?_⟩, h.taken⟩
    · show s.threadQueue ++ [.run func] = _
      rw [hqueue, List.map_append]
      rfl
    · show (if s.closer = .start then s.accepted ++ [func] else s.accepted) = s.begun ++ _
      rw [if_pos h.closer, haccepted, List.append_assoc]
  | enter hsvc => exact hmove .pop s.executed nofun nofun (by rw [LogicTask.begun, hsvc]; rfl)
  | leave hsvc hrun => exact absurd (h.flag.symm.trans hrun) nofun
  | pop msg threadQueue hsvc hfront =>
    rw [hfront] at hqueue
    obtain ⟨func, rest, rfl, rfl, rfl⟩ := List.map_eq_cons_iff.mp hqueue.symm
    refine ⟨h.closer, h.flag, nofun, ⟨rest, rfl, haccepted.trans ?_⟩, nofun⟩
    show (s.executed ++ s.svc.funcs) ++ func :: rest = (s.executed ++ [func]) ++ rest
    rw [hsvc, List.append_assoc, List.append_assoc]
    rfl
  | call func hsvc =>
    refine hmove .running (s.executed ++ [func]) nofun nofun ?_
    rw [LogicTask.begun, hsvc]
    exact List.append_nil _
  | callClose hsvc => exact absurd hsvc h.taken
  | finish hsvc => exact hmove .test s.executed nofun nofun (by rw [LogicTask.begun, hsvc]; rfl)

/-- The other threads leave `Close` where it is. -/
theorem closer_other {s s' : LogicTask M} {a : Action M} (ha : a ≠ .close)
    (hs : step s a = some s') : s'.closer = s.closer := by
  cases does_of_step hs with
  | close => exact absurd rfl ha
  | _ => rfl

theorem closer_close {s s' : LogicTask M} (hs : close s = some s') :
    s'.closer ≠ .start ∧ (s'.closer = .returned → s'.svc = .over) := by
  cases closes_of_close hs with
  | clear => exact ⟨nofun, nofun⟩
  | put => exact ⟨nofun, nofun⟩
  | join hpc hover => exact ⟨nofun, fun _ => hover⟩

/-- `Close` is called once. -/
theorem closer_step {s s' : LogicTask M} {a : Action M} (hs : step s a = some s')
    (hopen : s'.closer = .start) : s.closer = .start ∧ a ≠ .close := by
  have ha : a ≠ .close := by
    rintro rfl
    exact (closer_close hs).1 hopen
  exact ⟨(closer_other ha hs).symm.trans hopen, ha⟩

theorem running_of_run {as : List (Action M)} {s : LogicTask M}
    (hrun : run step started as = some s) (hopen : s.closer = .start) : Running s := by
  have h : s.closer = .start → Running s :=
    invariant_of_run (fun s => s.closer = .start → Running s)
      (fun s a s' hI hs hopen => by
        obtain ⟨hbefore, ha⟩ := closer_step hs hopen
        exact running_step (hI hbefore) ha hs) (fun _ => running_started) hrun
  exact h hopen

/-! ## After `Close` -/

/-- The flag is cleared and the worker takes nothing any more. -/
structure NoPop (begun : List M) (s : LogicTask M) : Prop where
  flag : s.mRun = false
  svc : s.svc ≠ .pop
  begun : s.begun = begun

/-- The flag is cleared and the worker is in its last `Pop`, with `threadQueue` before it. -/
structure AtPop (executed : List M) (threadQueue : List (LogicMessage M)) (s : LogicTask M) :
    Prop where
  flag : s.mRun = false
  svc : s.svc = .pop
  executed : s.executed = executed
  queue : threadQueue <+: s.threadQueue

theorem close_same {s s' : LogicTask M} (hs : Closes s s') :
    s'.svc = s.svc ∧ s'.executed = s.executed ∧ s.threadQueue <+: s'.threadQueue ∧
      (s.mRun = false → s'.mRun = false) := by
  cases hs with
  | clear => exact ⟨rfl, rfl, List.prefix_refl _, fun _ => rfl⟩
  | put => exact ⟨rfl, rfl, List.prefix_append _ _, id⟩
  | join => exact ⟨rfl, rfl, List.prefix_refl _, id⟩

theorem noPop_step {begun : List M} {s s' : LogicTask M} {a : Action M} (h : NoPop begun s)
    (hs : step s a = some s') : NoPop begun s' := by
  have hbegun : s.executed ++ s.svc.funcs = begun := h.begun
  cases does_of_step hs with
  | put func => exact ⟨h.flag, h.svc, h.begun⟩
  | close hclose =>
    obtain ⟨hsvc, hexecuted, -, hflag⟩ := close_same hclose
    refine ⟨hflag h.flag, hsvc ▸ h.svc, ?_⟩
    rw [LogicTask.begun, hsvc, hexecuted]
    exact hbegun
  | enter hsvc hrun => exact absurd (h.flag.symm.trans hrun) nofun
  | leave hsvc =>
    rw [hsvc] at hbegun
    exact ⟨h.flag, nofun, hbegun⟩
  | pop msg threadQueue hsvc => exact absurd hsvc h.svc
  | call func hsvc =>
    rw [hsvc] at hbegun
    exact ⟨h.flag, nofun, (List.append_nil _).trans hbegun⟩
  | callClose hsvc =>
    rw [hsvc] at hbegun
    exact ⟨h.flag, nofun, hbegun⟩
  | finish hsvc =>
    rw [hsvc] at hbegun
    exact ⟨h.flag, nofun, hbegun⟩

/-- The last `Pop` takes the message in front. -/
theorem atPop_step {executed : List M} {threadQueue : List (LogicMessage M)} {s s' : LogicTask M}
    {a : Action M} (h : AtPop executed threadQueue s) (hs : step s a = some s') :
    AtPop executed threadQueue s' ∨
      ∃ msg, (∀ front rest, threadQueue = front :: rest → front = msg) ∧
        NoPop (executed ++ msg.funcs) s' := by
  -- the worker is at no other place
  have hother : ∀ svc, s.svc = svc → svc ≠ .pop → False := fun svc hsvc hne =>
    hne (hsvc.symm.trans h.svc)
  cases does_of_step hs with
  | put func => exact .inl ⟨h.flag, h.svc, h.executed, h.queue.trans (List.prefix_append _ _)⟩
  | close hclose =>
    obtain ⟨hsvc, hexecuted, hqueue, hflag⟩ := close_same hclose
    exact .inl ⟨hflag h.flag, hsvc.trans h.svc, hexecuted.trans h.executed, h.queue.trans hqueue⟩
  | pop msg rest hsvc hfront =>
    refine .inr ⟨msg, fun front rest' heq => ?_, h.flag, nofun, ?_⟩
    · have hprefix := h.queue
      rw [heq, hfront] at hprefix
      exact (List.cons_prefix_cons.mp hprefix).1
    · rw [← h.executed]
      rfl
  | enter hsvc => exact (hother _ hsvc nofun).elim
  | leave hsvc => exact (hother _ hsvc nofun).elim
  | call func hsvc => exact (hother _ hsvc nofun).elim
  | callClose hsvc => exact (hother _ hsvc nofun).elim
  | finish hsvc => exact (hother _ hsvc nofun).elim

/-- The rest of a run. -/
theorem atPop_run {executed : List M} {threadQueue : List (LogicMessage M)} {s t : LogicTask M}
    {as : List (Action M)} (h : AtPop executed threadQueue s) (hrun : run step s as = some t) :
    AtPop executed threadQueue t ∨
      ∃ msg, (∀ front rest, threadQueue = front :: rest → front = msg) ∧
        NoPop (executed ++ msg.funcs) t := by
  refine invariant_of_run (fun t => AtPop executed threadQueue t ∨
    ∃ msg, (∀ front rest, threadQueue = front :: rest → front = msg) ∧
      NoPop (executed ++ msg.funcs) t) ?_ (.inl h) hrun
  rintro u a u' (hbefore | ⟨msg, hfront, hafter⟩) hs
  · exact atPop_step hbefore hs
  · exact .inr ⟨msg, hfront, noPop_step hafter hs⟩

/-- A worker that has ended takes no step. -/
theorem svc_of_over {s s' : LogicTask M} {a : Action M} (h : s.svc = .over) (ha : a ≠ .close)
    (hs : step s a = some s') : s'.svc = .over := by
  cases does_of_step hs with
  | close => exact absurd rfl ha
  | put func => exact h
  | enter hsvc => exact absurd (h.symm.trans hsvc) nofun
  | leave hsvc => rfl
  | pop msg threadQueue hsvc => exact absurd (h.symm.trans hsvc) nofun
  | call func hsvc => exact absurd (h.symm.trans hsvc) nofun
  | callClose hsvc => rfl
  | finish hsvc => exact absurd (h.symm.trans hsvc) nofun

/-- When `Close` has returned the worker has ended. -/
def Joined (s : LogicTask M) : Prop := s.closer = .returned → s.svc = .over

theorem joined_step {s s' : LogicTask M} {a : Action M} (h : Joined s) (hs : step s a = some s') :
    Joined s' := by
  intro hreturned
  by_cases ha : a = .close
  · subst ha
    exact (closer_close hs).2 hreturned
  · have hbefore : s.closer = .returned := (closer_other ha hs).symm.trans hreturned
    exact svc_of_over (h hbefore) ha hs

/-- A worker that has ended has nothing taken and not called. -/
theorem executed_eq_begun {s : LogicTask M} (h : s.svc = .over) : s.executed = s.begun := by
  rw [LogicTask.begun, h]
  exact (List.append_nil _).symm

theorem noPop_of_not_pop {s s₁ : LogicTask M} (hopen : s.closer = .start) (hsvc : s.svc ≠ .pop)
    (hclose : step s .close = some s₁) : NoPop s.begun s₁ := by
  simp only [step, close, hopen] at hclose
  obtain rfl := Option.some.inj hclose
  exact ⟨rfl, hsvc, rfl⟩

theorem atPop_of_pop {s s₁ : LogicTask M} (hopen : s.closer = .start) (hsvc : s.svc = .pop)
    (hclose : step s .close = some s₁) : AtPop s.executed s.threadQueue s₁ := by
  simp only [step, close, hopen] at hclose
  obtain rfl := Option.some.inj hclose
  exact ⟨rfl, hsvc, rfl, List.prefix_refl _⟩

/-- A list that is no longer than the part in front has nothing behind that part. -/
theorem append_prefix_self_iff (begun funcs : List M) : begun ++ funcs <+: begun ↔ funcs = [] := by
  constructor
  · intro h
    have hlength := h.length_le
    rw [List.length_append] at hlength
    exact List.length_eq_zero_iff.mp (by omega)
  · rintro rfl
    exact ⟨[], by simp⟩

/-- Whatever has been put before `Close` is called has been executed in order when `Close` has
returned, exactly if nothing was queued then, or a single message and the worker was behind its
test of `m_run` already. -/
theorem accepted_executed_iff {as bs : List (Action M)} {s s₁ t : LogicTask M}
    (hrun : run step started as = some s) (hopen : s.closer = .start)
    (hclose : step s .close = some s₁) (hrest : run step s₁ bs = some t)
    (hreturned : t.closer = .returned) :
    s.accepted <+: t.executed ↔
      s.threadQueue = [] ∨ s.svc = .pop ∧ s.threadQueue.length = 1 := by
  obtain ⟨funcs, hqueue, haccepted⟩ := (running_of_run hrun hopen).queued
  have hempty : s.threadQueue = [] ↔ funcs = [] := by rw [hqueue, List.map_eq_nil_iff]
  have hjoined₁ : Joined s₁ := by
    simp only [step, close, hopen] at hclose
    obtain rfl := Option.some.inj hclose
    exact nofun
  have hover : t.svc = .over :=
    invariant_of_run Joined (fun _ _ _ => joined_step) hjoined₁ hrest hreturned
  rw [executed_eq_begun hover, haccepted]
  by_cases hsvc : s.svc = .pop
  · -- the worker is in `Pop`, and takes whatever comes first
    have hbegun : s.begun = s.executed := by
      rw [LogicTask.begun, hsvc]
      exact List.append_nil _
    rcases atPop_run (atPop_of_pop hopen hsvc hclose) hrest with hat | ⟨msg, hfront, hafter⟩
    · rw [hat.svc] at hover
      cases hover
    rw [hafter.begun, hbegun, List.prefix_append_right_inj, hqueue, List.length_map]
    cases funcs with
    | nil => simp
    | cons func rest =>
      obtain rfl : .run func = msg := hfront (.run func) (rest.map .run) hqueue
      simp [LogicMessage.funcs, List.cons_prefix_cons, hsvc]
  · -- it tests the flag before the next one
    have hafter : NoPop s.begun t :=
      invariant_of_run (NoPop s.begun) (fun _ _ _ => noPop_step)
        (noPop_of_not_pop hopen hsvc hclose) hrest
    rw [hafter.begun, append_prefix_self_iff, hempty]
    exact ⟨.inl, fun h => h.resolve_right fun hpop => hsvc hpop.1⟩

/-- The worker is in `Pop` for the only message. -/
theorem accepted_executed_single :
    ∃ s t : LogicTask Nat, run step started [.put 1, .test] = some s ∧
      (∃ s₁, step s .close = some s₁ ∧
        run step s₁ [.close, .pop, .call, .finish, .test, .close] = some t) ∧
      s.accepted = [1] ∧ s.accepted <+: t.executed := by
  refine ⟨_, _, rfl, ⟨_, rfl, rfl⟩, rfl, ?_⟩
  exact (@accepted_executed_iff Nat [.put 1, .test]
    [.close, .pop, .call, .finish, .test, .close] _ _ _ rfl rfl rfl rfl rfl).mpr (.inr ⟨rfl, rfl⟩)

/-- Two messages are put and `Close` is called while the worker runs the first: it leaves at its
test of `m_run`, before the second. -/
theorem second_not_executed :
    ∃ s t : LogicTask Nat, run step started [.put 1, .put 2, .test, .pop, .call] = some s ∧
      s.closer = .start ∧
      run step s [.close, .close, .finish, .test, .close] = some t ∧ t.closer = .returned ∧
      s.accepted = [1, 2] ∧ t.executed = [1] ∧ ¬ s.accepted <+: t.executed := by
  refine ⟨_, _, rfl, rfl, rfl, rfl, rfl, rfl, ?_⟩
  decide

end PssClient.Stop
