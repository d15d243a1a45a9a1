import PssClient.Timer.Spin

/-!
# One-shot timers that have been executed

A one-shot timer loses its callback when it is executed, and is not executed again. `Timer.Once`
shows this for one timer and any number of executions; here it is the manager that executes, and
what counts are the executions that it has recorded.

* `Fired` — the executions are of timers that have been added, and a one-shot timer among them has
  lost its callback.
* `fired_step` — every step keeps it.
-/

namespace PssClient

open Machine

namespace TimerMgr

/-- The executions are those of timers that have been added, and a one-shot timer among them has
lost its callback and was executed once. -/
structure Fired (s : TimerMgr) : Prop where
  added : ∀ i ∈ s.execs.map Exec.timer, (s.producer i).Added
  lost : ∀ i ∈ s.execs.map Exec.timer, (s.timers i).mTimerType = .once →
    (s.timers i).mCallback = false
  once : ∀ i, (s.timers i).mTimerType = .once → (s.execs.map Exec.timer).count i ≤ 1

theorem fired_initial (now : Int) : Fired (initial now) where
  added := fun _ h => absurd h List.not_mem_nil
  lost := fun _ h => absurd h List.not_mem_nil
  once := fun _ _ => Nat.zero_le 1

/-- The executions stay what they are, and the timers that have been added are like the old
ones. -/
theorem Fired.alike {s s' : TimerMgr} (h : Fired s) (hexecs : s'.execs = s.execs)
    (hadded : ∀ i, (s.producer i).Added → (s'.producer i).Added)
    (halike : ∀ i, (s.producer i).Added → (s'.timers i).mTimerType = (s.timers i).mTimerType ∧
      ((s'.timers i).mCallback = true → (s.timers i).mCallback = true)) : Fired s' where
  added := fun i hi => hadded i (h.added i (hexecs ▸ hi))
  lost := fun i hi htype => by
    rw [hexecs] at hi
    obtain ⟨hsame, hcallback⟩ := halike i (h.added i hi)
    have hold := h.lost i hi (hsame ▸ htype)
    cases hnew : (s'.timers i).mCallback with
    | false => rfl
    | true => exact absurd (hcallback hnew) (by rw [hold]; decide)
  once := fun i htype => by
    rw [hexecs]
    by_cases hi : i ∈ s.execs.map Exec.timer
    · exact h.once i ((halike i (h.added i hi)).1 ▸ htype)
    · rw [List.count_eq_zero.mpr hi]
      exact Nat.zero_le 1

/-- An execution begins. The timer has been added; if it is a one-shot timer it still has its
callback, has not been executed before, and loses it now. -/
theorem fired_pop {s : TimerMgr} {tmp : Nat} (top : Nat) (h : Fired s)
    (hadded : (s.producer tmp).Added) : Fired (popStep tmp top s) := by
  have halike := fun i => alike_update (Timer.alike_beforeCallback (s.timers tmp)) i
  cases hcalls : (s.timers tmp).calls with
  | false =>
    have hexecs : (popStep tmp top s).execs = s.execs := if_neg (by rw [hcalls]; decide)
    exact h.alike hexecs (fun _ => id) fun i _ => ⟨(halike i).mTimerType, (halike i).mCallback⟩
  | true =>
    have hexecs : (popStep tmp top s).execs = s.execs ++ [⟨tmp, s.now, s.due tmp⟩] :=
      if_pos hcalls
    have hmap : (popStep tmp top s).execs.map Exec.timer = s.execs.map Exec.timer ++ [tmp] := by
      rw [hexecs, List.map_append]
      rfl
    have hrest : Fired { popStep tmp top s with execs := s.execs } :=
      h.alike rfl (fun _ => id) fun i _ => ⟨(halike i).mTimerType, (halike i).mCallback⟩
    refine ⟨fun i hi => ?_, fun i hi htype => ?_, fun i htype => ?_⟩
    · rw [hmap] at hi
      rcases List.mem_append.mp hi with hold | hthis
      · exact h.added i hold
      · rw [List.mem_singleton.mp hthis]
        exact hadded
    · rw [hmap] at hi
      rcases List.mem_append.mp hi with hold | hthis
      · exact hrest.lost i hold htype
      · obtain rfl := List.mem_singleton.mp hthis
        rw [timer_popStep] at htype ⊢
        exact Timer.callback_lost ((Timer.alike_beforeCallback _).mTimerType ▸ htype) hcalls
    · rw [hmap, List.count_append]
      by_cases heq : i = tmp
      · subst heq
        -- it had its callback, and so has not been executed before
        have hnone : i ∉ s.execs.map Exec.timer := fun hmem => by
          rw [timer_popStep, (Timer.alike_beforeCallback _).mTimerType] at htype
          exact absurd (Timer.callback_of_calls hcalls) (by rw [h.lost i hmem htype]; decide)
        rw [List.count_eq_zero.mpr hnone, List.count_singleton_self]
      · rw [List.count_singleton, if_neg (by simpa using Ne.symm heq), Nat.add_zero]
        exact hrest.once i htype

theorem fired_running {s : TimerMgr} {tmp : Nat} (h : Fired s) : Fired (runningStep tmp s) := by
  have hsame : (runningStep tmp s).execs = s.execs ∧ (runningStep tmp s).producer = s.producer ∧
      (runningStep tmp s).timers = (finish tmp s).timers := by
    unfold runningStep
    split <;> exact ⟨rfl, rfl, rfl⟩
  apply h.alike hsame.1 (fun i hi => hsame.2.1 ▸ hi)
  intro i _
  rw [hsame.2.2]
  exact ⟨(finish_timer tmp s i).1, fun hcallback => (finish_timer tmp s i).2.2 ▸ hcallback⟩

theorem fired_step {s s' : TimerMgr} {a : Action} (hfresh : Fresh s) (hwf : Wf s) (h : Fired s)
    (hstep : step s a = some s') : Fired s' := by
  have hboth : Wf s' ∧ Fired s' :=
    invariant_step (I := fun s => Wf s ∧ Fired s) (G := fun _ _ => True)
      (fun s s' h hq => ⟨wf_quiet h.1 hq, h.2.alike hq.execs (fun i => (hq.added i).mpr)
        fun i hi => ⟨(hq.timers i hi).mTimerType, (hq.timers i hi).mCallback⟩⟩)
      (fun s i h _ => ⟨wf_push h.1 i, h.2.alike rfl (fun j hj => (added_push s i j).mpr (.inr hj))
        fun _ _ => ⟨rfl, id⟩⟩)
      (fun _ _ h _ htop => ⟨wf_look h.1 htop, h.2.alike rfl (fun _ => id) fun _ _ => ⟨rfl, id⟩⟩)
      (fun s tmp top h _ hpc htop =>
        ⟨wf_pop h.1 hpc htop, fired_pop top h.2 (h.1.added_of_held (by rw [hpc]; rfl))⟩)
      (fun _ _ _ h hpc => ⟨wf_running h.1 hpc, fired_running h.2⟩)
      hfresh ⟨hwf, h⟩ trivial hstep
  exact hboth.2

end TimerMgr

end PssClient
