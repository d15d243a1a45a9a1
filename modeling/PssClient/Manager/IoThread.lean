import PssClient.Lib.Run

/-!
# The I/O thread

The body that `CClient_Manager::run` gives to the I/O thread calls `io_context_.run()` over and over
in a `while (true)`. `close` stops the context, so that `run()` returns, and then joins the thread.

* `IoThread` / `Body` — the context's scheduler, the place of the thread in its body, and the place
  of `close`.
* `io` — a step of the thread: the loop, `scheduler::run` and `do_run_one`, or the end of a handler,
  which may throw. `Goes` / `goes_of_io` — its rules.
* `Spinning` — the invariant once the context is stopped.
* `never_quits` — the result: the thread goes round its loop for ever, and `close` stays in the
  join.
-/

namespace PssClient.IoContext

open Machine

/-- A handler, by the way it ends. -/
inductive Handler
  | returns
  /-- It throws an `asio::error_code`. -/
  | throwsErrorCode
  | throwsOther
  deriving DecidableEq

/-- Where the I/O thread is in its body. -/
inductive Body
  | start
  -- `while (true)`
  | loop
  -- at the beginning of `scheduler::run`
  | run
  -- in `do_run_one`
  | doRunOne
  | handler (h : Handler)
  | returned
  -- an exception has left the body
  | terminated
  deriving DecidableEq

/-- Where the thread is that calls `CClient_Manager::close`. It holds `thread_mutex_` from the
first step to the last. -/
inductive ClosePc
  | start
  -- the sockets have been closed
  | stop
  | join
  | done
  deriving DecidableEq

/-- The context of asio, the body of the thread that runs it, and `close`. Of the context there is
what `scheduler::run` looks at: the flag that `stop` sets, the count of outstanding work, and the
queue. -/
structure IoThread where
  stopped : Bool := false
  outstandingWork : Nat := 0
  opQueue : List Handler := []
  threadIsRun : Bool := false
  body : Body := .start
  closer : ClosePc := .start
  -- the rounds of the loop
  iterations : Nat := 0

/-- `work_finished`. -/
def workFinished (s : IoThread) : IoThread :=
  { s with
    outstandingWork := s.outstandingWork - 1
    stopped := if s.outstandingWork - 1 = 0 then true else s.stopped }

/-- A step of the I/O thread; `none` when it has to wait. -/
def io (s : IoThread) : Option IoThread :=
  match s.body with
  -- the work guard counts as outstanding work
  | .start =>
    some { s with outstandingWork := s.outstandingWork + 1, threadIsRun := true, body := .loop }
  | .loop => some { s with iterations := s.iterations + 1, body := .run }
  | .run =>
    if s.outstandingWork = 0 then some { s with stopped := true, body := .loop }
    else some { s with body := .doRunOne }
  | .doRunOne =>
    if s.stopped = true then some { s with body := .loop }
    else
      match s.opQueue with
      | [] => none
      | h :: opQueue => some { s with opQueue := opQueue, body := .handler h }
  | .handler .returns => some { workFinished s with body := .doRunOne }
  -- the `catch` clause, and the end of the work guard
  | .handler .throwsErrorCode => some { workFinished (workFinished s) with body := .returned }
  | .handler .throwsOther => some { workFinished s with body := .terminated }
  | .returned | .terminated => none

/-- A step of `close`. -/
def close (s : IoThread) : Option IoThread :=
  match s.closer with
  | .start => some { s with closer := if s.threadIsRun = true then .stop else .done }
  | .stop => some { s with stopped := true, closer := .join }
  | .join => if s.body = .returned then some { s with closer := .done } else none
  | .done => none

/-- A step of the I/O thread, a step of `close`, or a handler that is queued by an operation that
has completed. -/
inductive Action
  | io
  | close
  /-- A handler is queued. -/
  | post (h : Handler)
  deriving DecidableEq

def step (s : IoThread) : Action → Option IoThread
  | .io => io s
  | .close => close s
  | .post h => some { s with outstandingWork := s.outstandingWork + 1, opQueue := s.opQueue ++ [h] }

/-- What the I/O thread does from each of its places. -/
inductive Goes (s : IoThread) : IoThread → Prop
  | start (hbody : s.body = .start) :
    Goes s { s with outstandingWork := s.outstandingWork + 1, threadIsRun := true, body := .loop }
  | loop (hbody : s.body = .loop) : Goes s { s with iterations := s.iterations + 1, body := .run }
  | noWork (hbody : s.body = .run) (hwork : s.outstandingWork = 0) :
    Goes s { s with stopped := true, body := .loop }
  | work (hbody : s.body = .run) (hwork : s.outstandingWork ≠ 0) :
    Goes s { s with body := .doRunOne }
  | stopped (hbody : s.body = .doRunOne) (hstopped : s.stopped = true) :
    Goes s { s with body := .loop }
  | next (h : Handler) (opQueue : List Handler) (hbody : s.body = .doRunOne)
      (hstopped : s.stopped ≠ true) (hqueue : s.opQueue = h :: opQueue) :
    Goes s { s with opQueue := opQueue, body := .handler h }
  | returns (hbody : s.body = .handler .returns) : Goes s { workFinished s with body := .doRunOne }
  | throwsErrorCode (hbody : s.body = .handler .throwsErrorCode) :
    Goes s { workFinished (workFinished s) with body := .returned }
  | throwsOther (hbody : s.body = .handler .throwsOther) :
    Goes s { workFinished s with body := .terminated }

theorem goes_of_io {s s' : IoThread} (h : io s = some s') : Goes s s' := by
  unfold io at h
  split at h
  case h_1 hbody => exact Option.some.inj h ▸ .start hbody
  case h_2 hbody => exact Option.some.inj h ▸ .loop hbody
  case h_3 hbody =>
    split at h
    case isTrue hwork => exact Option.some.inj h ▸ .noWork hbody hwork
    case isFalse hwork => exact Option.some.inj h ▸ .work hbody hwork
  case h_4 hbody =>
    split at h
    case isTrue hstopped => exact Option.some.inj h ▸ .stopped hbody hstopped
    case isFalse hstopped =>
      split at h
      case h_1 => cases h
      case h_2 handler opQueue hqueue =>
        exact Option.some.inj h ▸ .next handler opQueue hbody hstopped hqueue
  case h_5 hbody => exact Option.some.inj h ▸ .returns hbody
  case h_6 hbody => exact Option.some.inj h ▸ .throwsErrorCode hbody
  case h_7 hbody => exact Option.some.inj h ▸ .throwsOther hbody
  case h_8 => cases h
  case h_9 => cases h

/-- The thread has been made. -/
def started : IoThread := {}

/-- Handlers do not throw. -/
def Action.Returning : Action → Prop
  | .post h => h = .returns
  | _ => True

instance (a : Action) : Decidable a.Returning := by
  unfold Action.Returning
  split <;> infer_instance

/-! ## The body -/

/-- The places from which the body does not end. -/
def Body.InLoop : Body → Prop
  | .loop | .run | .doRunOne | .handler .returns => True
  | _ => False

/-- No handler will throw, and the body has not ended. It is kept by every step, since the body's
loop has no way out but an exception. -/
structure Sound (s : IoThread) : Prop where
  queue : ∀ h ∈ s.opQueue, h = .returns
  body : s.body = .start ∨ s.body.InLoop
  -- `thread_is_run_` is set at the beginning of the body
  run : s.threadIsRun = true → s.body.InLoop
  closer : s.closer = .stop ∨ s.closer = .join → s.threadIsRun = true
  stopped : s.closer = .join → s.stopped = true

theorem sound_started : Sound started where
  queue := nofun
  body := .inl rfl
  run := nofun
  closer := nofun
  stopped := nofun

theorem inLoop_ne_returned {b : Body} (h : b.InLoop) : b ≠ .returned := by
  rintro rfl
  exact h

/-- No handler is on its way to an exception. -/
theorem Sound.not_thrown {s : IoThread} (h : Sound s) {handler : Handler}
    (hbody : s.body = .handler handler) : handler = .returns := by
  rcases h.body with hstart | hin
  · rw [hbody] at hstart
    cases hstart
  · rw [hbody] at hin
    cases handler with
    | returns => rfl
    | throwsErrorCode => exact hin.elim
    | throwsOther => exact hin.elim

/-- A step of the body leaves it in the loop, a handler that returns included. -/
theorem sound_io {s s' : IoThread} (h : Sound s) (hs : io s = some s') : Sound s' := by
  cases goes_of_io hs with
  | start => exact ⟨h.queue, .inr trivial, fun _ => trivial, fun _ => rfl, h.stopped⟩
  | loop => exact ⟨h.queue, .inr trivial, fun _ => trivial, h.closer, h.stopped⟩
  | noWork => exact ⟨h.queue, .inr trivial, fun _ => trivial, h.closer, fun _ => rfl⟩
  | work => exact ⟨h.queue, .inr trivial, fun _ => trivial, h.closer, h.stopped⟩
  | stopped => exact ⟨h.queue, .inr trivial, fun _ => trivial, h.closer, h.stopped⟩
  | next handler opQueue hbody hstopped hqueue =>
    have hreturns : handler = .returns := h.queue handler (by rw [hqueue]; exact .head _)
    subst hreturns
    refine ⟨fun g hg => h.queue g ?_, .inr trivial, fun _ => trivial, h.closer, h.stopped⟩
    rw [hqueue]
    exact .tail _ hg
  | returns =>
    refine ⟨h.queue, .inr trivial, fun _ => trivial, h.closer, fun hjoin => ?_⟩
    show (if s.outstandingWork - 1 = 0 then true else s.stopped) = true
    rw [h.stopped hjoin, ite_self]
  | throwsErrorCode hbody => cases h.not_thrown hbody
  | throwsOther hbody => cases h.not_thrown hbody

theorem sound_close {s s' : IoThread} (h : Sound s) (hs : close s = some s') : Sound s' := by
  unfold close at hs
  split at hs
  case h_1 =>
    cases hs
    refine ⟨h.queue, h.body, h.run, fun hcloser => ?_, fun hcloser => ?_⟩
    · by_contra hnot
      dsimp only at hcloser hnot
      rw [if_neg hnot] at hcloser
      rcases hcloser with hstop | hjoin
      · cases hstop
      · cases hjoin
    · dsimp only at hcloser
      split at hcloser <;> cases hcloser
  case h_2 hpc =>
    cases hs
    exact ⟨h.queue, h.body, h.run, fun _ => h.closer (.inl hpc), fun _ => rfl⟩
  case h_3 hpc =>
    split at hs
    case isTrue hreturned =>
      exact absurd hreturned (inLoop_ne_returned (h.run (h.closer (.inr hpc))))
    case isFalse => cases hs
  case h_4 => cases hs

theorem sound_step {s s' : IoThread} {a : Action} (h : Sound s) (ha : a.Returning)
    (hs : step s a = some s') : Sound s' := by
  cases a with
  | io => exact sound_io h hs
  | close => exact sound_close h hs
  | post handler =>
    cases hs
    refine ⟨fun g hg => ?_, h.body, h.run, h.closer, h.stopped⟩
    rcases List.mem_append.mp hg with hold | hnew
    · exact h.queue g hold
    · exact (List.mem_singleton.mp hnew).trans ha

theorem sound_run {s t : IoThread} {as : List Action} (h : Sound s) (has : ∀ a ∈ as, a.Returning)
    (hrun : run step s as = some t) : Sound t :=
  invariant_of_meets Sound (fun _ _ _ => sound_step) h (meets_of_forall has s) hrun

/-! ## After `stop` -/

/-- The context is stopped, `close` waits for the thread, and that is in its loop. From here on
`run` comes back at once, and the loop calls it again. -/
structure Spinning (s : IoThread) : Prop extends Sound s where
  join : s.closer = .join

theorem Spinning.inLoop {s : IoThread} (h : Spinning s) : s.body.InLoop :=
  h.run (h.toSound.closer (.inr h.join))

/-- Nothing ends the join. -/
theorem spinning_step {s s' : IoThread} {a : Action} (h : Spinning s) (ha : a.Returning)
    (hs : step s a = some s') : Spinning s' := by
  refine ⟨sound_step h.toSound ha hs, ?_⟩
  cases a with
  | io =>
    have hsame : s'.closer = s.closer := by cases goes_of_io hs <;> rfl
    rw [hsame, h.join]
  | close =>
    simp only [step, close, h.join] at hs
    rw [if_neg (inLoop_ne_returned h.inLoop)] at hs
    cases hs
  | post handler =>
    cases hs
    exact h.join

/-- The thread does not wait for anything either. -/
theorem Spinning.enabled {s : IoThread} (h : Spinning s) : (io s).isSome = true := by
  have hin := h.inLoop
  unfold io
  cases hbody : s.body with
  | loop => rfl
  | run =>
    dsimp only
    split <;> rfl
  | doRunOne =>
    dsimp only
    rw [if_pos (h.stopped h.join)]
    rfl
  | handler handler =>
    cases handler with
    | returns => rfl
    | _ =>
      rw [hbody] at hin
      exact hin.elim
  | _ =>
    rw [hbody] at hin
    exact hin.elim

/-- A few steps, and the thread is at the head of its loop. -/
theorem Spinning.toLoop {s : IoThread} (h : Spinning s) :
    ∃ n t, run step s (List.replicate n .io) = some t ∧ t.body = .loop ∧
      t.iterations = s.iterations := by
  have hstopped : s.stopped = true := h.stopped h.join
  have hin := h.inLoop
  cases hbody : s.body with
  | loop => exact ⟨0, s, rfl, hbody, rfl⟩
  | run =>
    by_cases hwork : s.outstandingWork = 0
    · refine ⟨1, { s with stopped := true, body := .loop }, ?_, rfl, rfl⟩
      exact run_singleton (by simp only [step, io, hbody, if_pos hwork])
    · refine ⟨2, { s with body := .loop }, ?_, rfl, rfl⟩
      simp only [List.replicate, run, step, io, hbody, if_neg hwork, Option.bind_some,
        if_pos hstopped]
  | doRunOne =>
    refine ⟨1, { s with body := .loop }, ?_, rfl, rfl⟩
    exact run_singleton (by simp only [step, io, hbody, if_pos hstopped])
  | handler handler =>
    cases handler with
    | returns =>
      refine ⟨2, { workFinished s with body := .loop }, ?_, rfl, rfl⟩
      have hstill : (workFinished s).stopped = true := by
        show (if s.outstandingWork - 1 = 0 then true else s.stopped) = true
        rw [hstopped, ite_self]
      simp only [List.replicate, run, step, io, hbody, Option.bind_some, if_pos hstill]
    | _ =>
      rw [hbody] at hin
      exact hin.elim
  | _ =>
    rw [hbody] at hin
    exact hin.elim

theorem returning_replicate (n : Nat) : ∀ a ∈ List.replicate n Action.io, a.Returning := by
  intro a ha
  rw [List.eq_of_mem_replicate ha]
  trivial

theorem spinning_run {s t : IoThread} {as : List Action} (h : Spinning s)
    (has : ∀ a ∈ as, a.Returning) (hrun : run step s as = some t) : Spinning t :=
  invariant_of_meets Spinning (fun _ _ _ => spinning_step) h (meets_of_forall has s) hrun

/-- One round more. -/
theorem Spinning.round {s : IoThread} (h : Spinning s) :
    ∃ n t, run step s (List.replicate n .io) = some t ∧ Spinning t ∧
      t.iterations = s.iterations + 1 := by
  obtain ⟨n, m, hrun, hbody, hsame⟩ := h.toLoop
  have hnext : run step s (List.replicate (n + 1) .io)
      = some { m with iterations := m.iterations + 1, body := .run } := by
    rw [List.replicate_succ']
    refine run_append.mpr ⟨m, hrun, run_singleton ?_⟩
    simp only [step, io, hbody]
  exact ⟨n + 1, _, hnext, spinning_run h (returning_replicate _) hnext, by rw [hsame]⟩

/-- Any number of rounds, on the thread's own steps alone. Induction on the number. -/
theorem Spinning.rounds {s : IoThread} (h : Spinning s) (rounds : Nat) :
    ∃ n t, run step s (List.replicate n .io) = some t ∧
      t.iterations = s.iterations + rounds := by
  induction rounds with
  | zero => exact ⟨0, s, rfl, rfl⟩
  | succ rounds ih =>
    obtain ⟨n, m, hrun, hrounds⟩ := ih
    obtain ⟨k, t, hround, -, hone⟩ := (spinning_run h (returning_replicate n) hrun).round
    refine ⟨n + k, t, ?_, by rw [hone, hrounds, Nat.add_assoc]⟩
    rw [List.replicate_add]
    exact run_append.mpr ⟨m, hrun, hround⟩

/-- **The I/O thread never quits.** When `close` has stopped the context and handlers do not throw:
whatever is still queued, the thread's body does not return, `close` stays in the join, the thread
always has a next step, and its loop goes round any number of times. -/
theorem never_quits (as : List Action) (s : IoThread) (has : ∀ a ∈ as, a.Returning)
    (hrun : run step started as = some s) (hstop : s.closer = .join) :
    (∀ bs t, (∀ b ∈ bs, b.Returning) → run step s bs = some t →
      t.body ≠ .returned ∧ t.closer = .join ∧ (step t .io).isSome = true) ∧
      ∀ rounds, ∃ n t, run step s (List.replicate n .io) = some t ∧
        t.iterations = s.iterations + rounds := by
  have h : Spinning s := ⟨sound_run sound_started has hrun, hstop⟩
  refine ⟨fun bs t hbs hrun' => ?_, h.rounds⟩
  have ht : Spinning t := spinning_run h hbs hrun'
  exact ⟨inLoop_ne_returned ht.inLoop, ht.join, ht.enabled⟩

/-- The context is stopped in the middle of a handler; another one is queued. -/
def stoppedInHandler : List Action :=
  [.io, .post .returns, .post .returns, .io, .io, .io, .close, .close]

theorem never_quits_stoppedInHandler :
    ∃ s, run step started stoppedInHandler = some s ∧ s.body = .handler .returns ∧
      ∀ bs t, (∀ b ∈ bs, b.Returning) → run step s bs = some t →
        t.body ≠ .returned ∧ t.closer = .join ∧ (step t .io).isSome = true :=
  ⟨_, rfl, rfl, (never_quits stoppedInHandler _ (by decide) rfl rfl).1⟩

/-- A thread that has nothing to do is stopped. -/
theorem spins_after_stop :
    ∃ s, run step started [.io, .io, .io, .close, .close] = some s ∧ s.closer = .join ∧
      ∀ rounds, ∃ n t, run step s (List.replicate n .io) = some t ∧
        t.iterations = s.iterations + rounds ∧ t.body ≠ .returned := by
  have hstate : ∃ s, run step started [.io, .io, .io, .close, .close] = some s ∧
      s.closer = .join := ⟨_, rfl, rfl⟩
  obtain ⟨s, hrun, hjoin⟩ := hstate
  have h : Spinning s := ⟨sound_run sound_started (by decide) hrun, hjoin⟩
  refine ⟨s, hrun, hjoin, fun rounds => ?_⟩
  obtain ⟨n, t, hrun', hrounds⟩ := h.rounds rounds
  have ht : Spinning t := spinning_run h (returning_replicate n) hrun'
  exact ⟨n, t, hrun', hrounds, inLoop_ne_returned ht.inLoop⟩

end PssClient.IoContext
