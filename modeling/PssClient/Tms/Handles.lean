import PssClient.Lib.Run
import PssClient.Tms.TimerSteps

/-!
# The values that name a timer

`add_timer` returns the id of its timer, and -1 when the worker does not exist. With an interval of
zero it goes another way: `AddMessage` without a delay returns a `bool`, which becomes 1 or 0, and
these are ids.

* `Call.Begun` / `calls_of_step` — what a step can do to the calls.
* `Apart` — the condition: a call with an interval of zero names a worker that exists, and what it
  has returned is not closed while there is a timer with this id.
* `Numbered` — the invariant: the ids are counted, and what `Close_Timer` works on belongs to all
  the calls that had returned its argument.
* `unambiguous_of_apart` — the result. `message_closes_timer` has a run for either half of the
  condition.
-/

namespace PssClient

open Machine

/-- A call that a step begins. -/
def Call.Begun (s : TimerService) (a : TimerService.Action) (s' : TimerService) (call : Call) :
    Prop :=
  call.timerIndex = -1 ∧
      (call.stage = .returned (-1) false ∨
        call.kind = .message ∧ call.stage = .returned 1 true ∨
        call.stage = .returned 0 false ∧ ∃ workThreadId, a = .addTimer workThreadId 0 ∧
          s.mapLogicList (toUint32 workThreadId) = false) ∨
    call.timerIndex = s.mNTimerIndex ∧ s'.mNTimerIndex = s.mNTimerIndex + 1 ∧
      call.kind ≠ .message ∧ call.stage = .allocated

namespace TimerService

/-- What a step does to the calls and their count of ids. -/
structure Counts (s : TimerService) (a : Action) (s' : TimerService) : Prop where
  index : s.mNTimerIndex ≤ s'.mNTimerIndex
  calls : ∀ c call', s'.calls c = some call' →
    (∃ call, s.calls c = some call ∧ call.Goes call') ∨ c = s.count ∧ call'.Begun s a s'

theorem counts_of_same {s s' : TimerService} {a : Action}
    (hindex : s'.mNTimerIndex = s.mNTimerIndex) (hcalls : s'.calls = s.calls) : Counts s a s' :=
  ⟨hindex.ge, fun _ call' h => .inl ⟨call', hcalls ▸ h, .inl rfl⟩⟩

theorem counts_of_begin {s s' : TimerService} {a : Action} {call : Call}
    (hindex : s.mNTimerIndex ≤ s'.mNTimerIndex) (hcalls : s'.calls = (begin call s).calls)
    (hbegun : call.Begun s a s') : Counts s a s' := by
  refine ⟨hindex, fun c call' h => ?_⟩
  rw [hcalls] at h
  by_cases hc : c = s.count
  · subst hc
    have hself : Function.update s.calls s.count (some call) s.count = some call' := h
    rw [Function.update_self] at hself
    exact .inr ⟨rfl, Option.some.inj hself ▸ hbegun⟩
  · exact .inl ⟨call', (Function.update_of_ne hc ..).symm.trans h, .inl rfl⟩

theorem counts_of_setCall {s s' : TimerService} {a : Action} {d : Nat} {old new : Call}
    (hold : s.calls d = some old) (hgoes : old.Goes new)
    (hindex : s'.mNTimerIndex = s.mNTimerIndex) (hcalls : s'.calls = (setCall d new s).calls) :
    Counts s a s' := by
  refine ⟨hindex.ge, fun c call' h => .inl ?_⟩
  rw [hcalls] at h
  by_cases hc : c = d
  · subst hc
    have hself : Function.update s.calls c (some new) c = some call' := h
    rw [Function.update_self] at hself
    exact ⟨old, hold, Option.some.inj hself ▸ hgoes⟩
  · exact ⟨call', (Function.update_of_ne hc ..).symm.trans h, .inl rfl⟩

theorem counts_of_step {s s' : TimerService} {a : Action} (hs : step s a = some s') :
    Counts s a s' := by
  cases does_of_step hs with
  | message => exact counts_of_begin le_rfl rfl (.inl ⟨rfl, .inr (.inl ⟨rfl, rfl⟩)⟩)
  | noWorker workThreadId hworker =>
    exact counts_of_begin le_rfl rfl (.inl ⟨rfl, .inr (.inr ⟨rfl, workThreadId, rfl, hworker⟩)⟩)
  | once | loop => exact counts_of_begin (Nat.le_succ _) rfl (.inr ⟨rfl, rfl, by simp, rfl⟩)
  | noOnce | noLoop => exact counts_of_begin le_rfl rfl (.inl ⟨rfl, .inl rfl⟩)
  | push d call hcall hstage =>
    exact counts_of_setCall hcall (.inr (.inl ⟨hstage, rfl⟩)) rfl rfl
  | insert d call hcall hstage =>
    exact counts_of_setCall hcall (.inr (.inr ⟨hstage, rfl⟩)) rfl rfl
  | schedule hgoes => cases hgoes <;> exact counts_of_same rfl rfl
  | close hcloses => cases hcloses <;> exact counts_of_same rfl rfl
  | execute | destroy | found | notFound | tick => exact counts_of_same rfl rfl

/-! ## The runs whose messages and timers stay apart -/

/-- The timer listed under an id, if it still exists. -/
def listedTimer (timerId : Int) (s : TimerService) : Option Timer :=
  (s.mMapTimeridList timerId).bind s.timers

/-- A call with an interval of zero names a worker that exists, and `close_timer_id` is not called
with what such a call has returned while there is a timer with this id. -/
def Apart (s : TimerService) : Action → Prop
  | .addTimer workThreadId timeInterval =>
    timeInterval = 0 → s.mapLogicList (toUint32 workThreadId) = true
  | .closeTimerId timerId =>
    (listedTimer timerId s).isNone = true ∨
      ∀ c ∈ s.returners timerId, (s.calls c).map Call.kind ≠ some .message
  | _ => True

instance (s : TimerService) (a : Action) : Decidable (Apart s a) := by
  unfold Apart
  split
  all_goals infer_instance

/-- What is not accepted gets a negative value, and closing a value cancels no timer but that of the
call that had returned it. -/
structure Unambiguous (s : TimerService) : Prop where
  refused : ∀ c call value, s.calls c = some call → call.stage = .returned value false → value < 0
  cancelled : ∀ timerId returners c, .cancelled timerId returners c ∈ s.trace →
    ∀ d ∈ returners, d = c

end TimerService

/-- The id of a call and what it has returned. -/
def Call.Ok (call : Call) : Prop :=
  match call.stage with
  | .returned value true =>
    value = 1 ∧ call.timerIndex = -1 ∧ call.kind = .message ∨
      0 ≤ call.timerIndex ∧ call.kind ≠ .message ∧ value = call.timerIndex
  | .returned value false => call.timerIndex = -1 ∧ value < 0
  | _ => 0 ≤ call.timerIndex ∧ call.kind ≠ .message

theorem Call.Goes.timerIndex {call call' : Call} (h : call.Goes call') :
    call'.timerIndex = call.timerIndex := by
  rcases h with rfl | ⟨-, rfl⟩ | ⟨-, rfl⟩ <;> rfl

theorem Call.Ok.goes {call call' : Call} (h : call.Ok) (hgoes : call.Goes call') : call'.Ok := by
  rcases hgoes with rfl | ⟨hstage, rfl⟩ | ⟨hstage, rfl⟩
  · exact h
  · unfold Call.Ok at h
    rw [hstage] at h
    exact h
  · unfold Call.Ok at h
    rw [hstage] at h
    exact .inr ⟨h.1, h.2, rfl⟩

theorem Call.stage_of_value {call : Call} {value : Int} (h : call.value = some value) :
    ∃ accepted, call.stage = .returned value accepted := by
  unfold Call.value at h
  split at h
  case h_1 value' accepted hstage => exact ⟨accepted, Option.some.inj h ▸ hstage⟩
  case h_2 => cases h

namespace TimerService

/-- The invariant of the runs in which messages and timers stay apart. The ids handed out are below
the counter and no two calls have the same one, so that the calls that `Close_Timer` may work for
are no others than the one it has found. -/
structure Numbered (s : TimerService) : Prop extends WellFormed s where
  ok : ∀ c call, s.calls c = some call → call.Ok
  below : ∀ c call, s.calls c = some call → call.timerIndex < s.mNTimerIndex
  distinct : ∀ c d call call', s.calls c = some call → s.calls d = some call' →
    0 ≤ call.timerIndex → call'.timerIndex = call.timerIndex → d = c
  -- `Close_Timer` works for the calls that had returned the id
  own : ∀ timerId returners c, s.closer.target = some (timerId, returners, c) →
    s.timers c ≠ none → ∀ d ∈ returners, d = c
  cancelled : ∀ timerId returners c, .cancelled timerId returners c ∈ s.trace →
    ∀ d ∈ returners, d = c

theorem Numbered.unambiguous {s : TimerService} (h : Numbered s) : Unambiguous s where
  refused c call value hcall hstage := by
    have hok : call.Ok := h.ok c call hcall
    unfold Call.Ok at hok
    rw [hstage] at hok
    exact hok.2
  cancelled := h.cancelled

theorem numbered_initial (mapLogicList : Nat → Bool) : Numbered (initial mapLogicList) where
  toWellFormed := wellFormed_initial mapLogicList
  ok _ _ hcall := by cases hcall
  below _ _ hcall := by cases hcall
  distinct _ _ _ _ hcall := by cases hcall
  own _ _ _ htarget := by cases htarget
  cancelled _ _ _ hc := absurd hc List.not_mem_nil

theorem ok_of_begun {s s' : TimerService} {a : Action} {call : Call} (hapart : Apart s a)
    (h : call.Begun s a s') : call.Ok := by
  rcases h with ⟨hindex, hstage | ⟨hkind, hstage⟩ | ⟨hstage, workThreadId, rfl, hworker⟩⟩ |
    ⟨hindex, -, hkind, hstage⟩
  · unfold Call.Ok
    rw [hstage]
    exact ⟨hindex, by decide⟩
  · unfold Call.Ok
    rw [hstage]
    exact .inl ⟨rfl, hindex, hkind⟩
  · rw [hapart rfl] at hworker
    cases hworker
  · unfold Call.Ok
    rw [hstage]
    exact ⟨by omega, hkind⟩

theorem nonneg_of_listed {s : TimerService} (h : Numbered s) {timerId : Int} {c : Nat}
    (hlisted : s.Listed timerId c) : 0 ≤ timerId := by
  obtain ⟨call, hcall, hindex, hstage⟩ := hlisted
  have hok : call.Ok := h.ok c call hcall
  unfold Call.Ok at hok
  rw [hstage] at hok
  rcases hok with ⟨hone, hminus, -⟩ | ⟨hpos, -, -⟩
  · omega
  · omega

/-- The calls that have returned the id under which a timer of this call is listed. -/
theorem returners_own {s : TimerService} (h : Numbered s) {timerId : Int} {c : Nat}
    (hlisted : s.Listed timerId c)
    (hkinds : ∀ d ∈ s.returners timerId, (s.calls d).map Call.kind ≠ some .message) :
    ∀ d ∈ s.returners timerId, d = c := by
  intro d hd
  have hpos : 0 ≤ timerId := nonneg_of_listed h hlisted
  obtain ⟨call, hcall, hindex, -⟩ := hlisted
  have hvalue := of_decide_eq_true (List.mem_filter.mp hd).2
  obtain ⟨call', hcall', hreturned⟩ := Option.bind_eq_some_iff.mp hvalue
  have hkind : call'.kind ≠ .message := by
    intro hmessage
    apply hkinds d hd
    rw [hcall', Option.map_some, hmessage]
  obtain ⟨accepted, hstage⟩ := Call.stage_of_value hreturned
  have hok : call'.Ok := h.ok d call' hcall'
  unfold Call.Ok at hok
  rw [hstage] at hok
  cases accepted with
  | true =>
    rcases hok with ⟨-, -, hmessage⟩ | ⟨-, -, hid⟩
    · exact absurd hmessage hkind
    · exact h.distinct c d call call' hcall hcall' (hindex ▸ hpos) (by rw [← hid, hindex])
  | false => exact absurd hok.2 (not_lt.mpr hpos)

/-- **The numbers stay apart.** Each call takes the next number, so that it is above all that have
been given out; a call that goes on keeps its own. `Close` takes a number of the map, and under the
condition it is the one that its caller has got. -/
theorem numbered_step {s s' : TimerService} {a : Action} (h : Numbered s) (hapart : Apart s a)
    (hs : step s a = some s') : Numbered s' := by
  have heffect : Effect s a s' := effect_of_step (h.fresh _ le_rfl) hs
  have hcounts : Counts s a s' := counts_of_step hs
  refine { wellFormed_step h.toWellFormed hs with
    ok := ?_, below := ?_, distinct := ?_, own := ?_, cancelled := ?_ }
  · -- `ok`: the number of a call, and the timer that it has made
    intro c call' hcall'
    rcases hcounts.calls c call' hcall' with ⟨call, hcall, hgoes⟩ | ⟨-, hbegun⟩
    · exact (h.ok c call hcall).goes hgoes
    · exact ok_of_begun hapart hbegun
  · -- `below`: no number is at the count or above it
    intro c call' hcall'
    have hindex : (s.mNTimerIndex : Int) ≤ s'.mNTimerIndex := Int.ofNat_le.mpr hcounts.index
    rcases hcounts.calls c call' hcall' with ⟨call, hcall, hgoes⟩ | ⟨-, hbegun⟩
    · rw [hgoes.timerIndex]
      exact (h.below c call hcall).trans_le hindex
    · rcases hbegun with ⟨hminus, -⟩ | ⟨hnew, hnext, -⟩
      · omega
      · omega
  · -- `distinct`: no two calls have one number
    intro c d call₁ call₂ hcall₁ hcall₂ hpos hsame
    -- an id that is new is not below the count
    rcases hcounts.calls c call₁ hcall₁ with ⟨call, hcall, hgoes⟩ | ⟨hc, hbegun⟩
    · rcases hcounts.calls d call₂ hcall₂ with ⟨call', hcall', hgoes'⟩ | ⟨-, hbegun'⟩
      · rw [hgoes.timerIndex] at hpos hsame
        rw [hgoes'.timerIndex] at hsame
        exact h.distinct c d call call' hcall hcall' hpos hsame
      · have hbelow := h.below c call hcall
        rw [hgoes.timerIndex] at hpos hsame
        rcases hbegun' with ⟨hminus, -⟩ | ⟨hnew, -⟩
        · omega
        · omega
    · rcases hcounts.calls d call₂ hcall₂ with ⟨call', hcall', hgoes'⟩ | ⟨hd, -⟩
      · have hbelow := h.below d call' hcall'
        rw [hgoes'.timerIndex] at hsame
        rcases hbegun with ⟨hminus, -⟩ | ⟨hnew, -⟩
        · omega
        · omega
      · rw [hc, hd]
  · -- `own`: the timer that `Close` has found is the one of its caller
    intro timerId returners c htarget halive
    have hmade : s.Made c := by
      rcases heffect.target htarget with hold | ⟨-, hmap, -⟩
      · exact (h.target timerId returners c hold).made
      · exact (h.listed timerId c hmap).made
    have halive' : s.timers c ≠ none := by
      obtain ⟨timer', htimer'⟩ := Option.ne_none_iff_exists'.mp halive
      obtain ⟨timer, htimer, -⟩ := heffect.timers c hmade timer' htimer'
      rw [htimer]
      nofun
    rcases heffect.target htarget with hold | ⟨rfl, hmap, rfl⟩
    · exact h.own timerId returners c hold halive'
    · rcases hapart with hnone | hkinds
      · rw [listedTimer, hmap, Option.bind_some] at hnone
        exact absurd (Option.isNone_iff_eq_none.mp hnone) halive'
      · exact returners_own h (h.listed timerId c hmap) hkinds
  · -- `cancelled`: what has been cancelled was what `Close` had found
    intro timerId returners c hevent
    rcases heffect.trace with hsame | ⟨event, heq, hcause⟩
    · exact h.cancelled timerId returners c (hsame ▸ hevent)
    rw [heq] at hevent
    rcases List.mem_append.mp hevent with hold | hnew
    · exact h.cancelled timerId returners c hold
    · obtain rfl := List.mem_singleton.mp hnew
      exact h.own timerId returners c (by rw [hcause.1]; rfl) hcause.2

/-- In a run whose messages and timers stay apart the values are unambiguous. -/
theorem unambiguous_of_apart {mapLogicList : Nat → Bool} {as : List Action} {s : TimerService}
    (hapart : Meets step Apart (initial mapLogicList) as)
    (hrun : run step (initial mapLogicList) as = some s) : Unambiguous s :=
  (invariant_of_meets Numbered (fun _ _ _ => numbered_step) (numbered_initial mapLogicList)
    hapart hrun).unambiguous

/-- A message and a timer, with id 0; the timer is closed, and so is the 1 of the message. -/
def apartRun : List Action :=
  [.addTimer 0 0, .addTimerLoop 0 1 1000, .push 1, .insert 1, .addTimerLoop 7 0 1000,
    .closeTimerId 1, .closeTimerId 0, .close, .close, .close, .close]

theorem unambiguous_apartRun :
    ∃ s, run step (initial fun id => id == 0) apartRun = some s ∧
      s.trace = [.put 0 0, .cancelled 0 [1] 1, .closed 1] ∧ Unambiguous s := by
  refine ⟨_, rfl, rfl, ?_⟩
  exact @unambiguous_of_apart (fun id => id == 0) apartRun _ (by decide +kernel) rfl

/-- A message for a worker that does not exist gets 0. A message that is accepted gets 1, and
closing it cancels the second timer. -/
theorem message_closes_timer :
    (∃ s, run step (initial fun id => id == 0) [.addTimer 7 0] = some s ∧
      s.calls 0 = some ⟨7, .message, -1, .returned 0 false⟩ ∧ ¬ Unambiguous s) ∧
    ∃ s, run step (initial fun id => id == 0)
        [.addTimer 0 1000, .push 0, .insert 0, .addTimer 0 1000, .push 1, .insert 1,
          .addTimer 0 0, .closeTimerId 1, .close, .close, .close] = some s ∧
      s.trace = [.put 0 2, .cancelled 1 [1, 2] 1] ∧ ¬ Unambiguous s := by
  refine ⟨⟨_, rfl, rfl, fun h => ?_⟩, ⟨_, rfl, rfl, fun h => ?_⟩⟩
  · have hneg := h.refused 0 ⟨7, .message, -1, .returned 0 false⟩ 0 rfl rfl
    exact absurd hneg (by decide)
  · have howner := h.cancelled 1 [1, 2] 1 (List.mem_cons_of_mem _ List.mem_cons_self) 2 (by decide)
    exact absurd howner (by decide)

end TimerService

end PssClient
