import PssClient.Tms.Handles

/-!
# The ids of the timers

* `Call.Identified` — the id of a call, by where the call is.
* `Identified` — the invariant: ids are counted, and no two calls have the same.
* `timer_of_step` — where the timers after a step come from.
-/

namespace PssClient

open Machine

/-- It is for a timer that runs once. -/
def Kind.Once : Kind → Prop
  | .once _ => True
  | _ => False

/-- A call for a timer has an id below the count from its beginning on. -/
def Call.Identified (count : Nat) (call : Call) : Prop :=
  call.timerIndex = -1 ∧ (∃ value accepted, call.stage = .returned value accepted ∧
      (accepted = true → call.kind = .message ∧ value = 1)) ∨
    0 ≤ call.timerIndex ∧ call.timerIndex < count ∧ call.kind ≠ .message ∧
      (call.stage = .allocated ∨ call.stage = .added ∨
        call.stage = .returned call.timerIndex true)

theorem Call.Goes.kind {call call' : Call} (h : call.Goes call') : call'.kind = call.kind := by
  rcases h with rfl | ⟨-, rfl⟩ | ⟨-, rfl⟩ <;> rfl

theorem Call.Identified.goes {count count' : Nat} {call call' : Call} (h : call.Identified count)
    (hcount : count ≤ count') (hgoes : call.Goes call') : call'.Identified count' := by
  rcases h with ⟨hindex, value, accepted, hstage, haccepted⟩ | ⟨hpos, hbelow, hkind, hstage⟩
  · rcases hgoes with rfl | ⟨hold, -⟩ | ⟨hold, -⟩
    · exact .inl ⟨hindex, value, accepted, hstage, haccepted⟩
    · rw [hstage] at hold
      cases hold
    · rw [hstage] at hold
      cases hold
  · refine .inr ⟨hgoes.timerIndex ▸ hpos, ?_, hgoes.kind ▸ hkind, ?_⟩
    · rw [hgoes.timerIndex]
      omega
    · rcases hgoes with rfl | ⟨-, rfl⟩ | ⟨-, rfl⟩
      · exact hstage
      · exact .inr (.inl rfl)
      · exact .inr (.inr rfl)

theorem Call.Begun.identified {s s' : TimerService} {a : TimerService.Action} {call : Call}
    (h : call.Begun s a s') : call.Identified s'.mNTimerIndex := by
  rcases h with ⟨hindex, hstage | ⟨hkind, hstage⟩ | ⟨hstage, -⟩⟩ | ⟨hindex, hnext, hkind, hstage⟩
  · exact .inl ⟨hindex, _, _, hstage, nofun⟩
  · exact .inl ⟨hindex, _, _, hstage, fun _ => ⟨hkind, rfl⟩⟩
  · exact .inl ⟨hindex, _, _, hstage, nofun⟩
  · exact .inr ⟨by omega, by omega, hkind, .inl hstage⟩

/-- What a call has got back that is accepted and not for a message is its id. -/
theorem Call.Identified.accepted {count : Nat} {call : Call} {value : Int}
    (h : call.Identified count) (hstage : call.stage = .returned value true)
    (hkind : call.kind ≠ .message) : value = call.timerIndex ∧ 0 ≤ call.timerIndex := by
  rcases h with ⟨-, value', accepted, hstage', haccepted⟩ | ⟨hpos, -, -, hstages⟩
  · rw [hstage] at hstage'
    cases hstage'
    exact absurd (haccepted rfl).1 hkind
  · rw [hstage] at hstages
    rcases hstages with hbad | hbad | hreturned
    · cases hbad
    · cases hbad
    · cases hreturned
      exact ⟨rfl, hpos⟩

/-- A call whose id is in the table. -/
theorem Call.Identified.listed {count : Nat} {call : Call} (h : call.Identified count)
    (hstage : call.stage = .returned call.timerIndex true) :
    call.kind ≠ .message ∧ 0 ≤ call.timerIndex := by
  rcases h with ⟨hindex, value, accepted, hstage', haccepted⟩ | ⟨hpos, -, hkind, -⟩
  · rw [hstage] at hstage'
    cases hstage'
    have hone := (haccepted rfl).2
    omega
  · exact ⟨hkind, hpos⟩

/-- An id that is given out now is that of no call before. -/
theorem Call.Begun.fresh {s s' : TimerService} {a : TimerService.Action}
    {call call' : Call} (h : call.Begun s a s') (hids : call'.Identified s.mNTimerIndex)
    (hpos : 0 ≤ call.timerIndex) : call'.timerIndex ≠ call.timerIndex := by
  rcases h with ⟨hindex, -⟩ | ⟨hindex, -⟩
  · omega
  · rcases hids with ⟨hminus, -⟩ | ⟨-, hbelow, -⟩ <;> omega

/-- A call that is on its way has an id, and is not for a message. -/
theorem Call.Identified.running {count : Nat} {call : Call} (h : call.Identified count)
    (hrunning : ∀ value accepted, call.stage ≠ .returned value accepted) :
    0 ≤ call.timerIndex ∧ call.kind ≠ .message := by
  rcases h with ⟨-, value, accepted, hreturned, -⟩ | ⟨hpos, -, hkind, -⟩
  · exact absurd hreturned (hrunning value accepted)
  · exact ⟨hpos, hkind⟩

theorem Kind.timer_type {now : Int} {kind : Kind} {timer : Timer}
    (h : kind.timer now = some timer) : timer.mTimerType = .once ↔ kind.Once := by
  cases kind with
  | message => cases h
  | once => cases h; exact ⟨fun _ => trivial, fun _ => rfl⟩
  | loop => cases h; exact ⟨nofun, False.elim⟩

theorem Timer.type_beforeCallback (timer : Timer) :
    timer.beforeCallback.mTimerType = timer.mTimerType := by
  unfold Timer.beforeCallback
  split
  · split <;> rfl
  · rfl

theorem Timer.type_afterCallback (now : Int) (timer : Timer) :
    (timer.afterCallback now).mTimerType = timer.mTimerType := by
  unfold Timer.afterCallback
  split <;> rfl

theorem Timer.type_cancel (timer : Timer) : timer.cancel.mTimerType = timer.mTimerType := by
  unfold Timer.cancel
  split <;> rfl

namespace TimerService

/-- Each call has the id that its stage says, below the counter, and no two calls have the same one.
Unlike `Numbered` it says nothing of what is returned, and holds in every run. -/
structure Identified (s : TimerService) : Prop extends WellFormed s where
  ids : ∀ c call, s.calls c = some call → call.Identified s.mNTimerIndex
  distinct : ∀ c d call call', s.calls c = some call → s.calls d = some call' →
    0 ≤ call.timerIndex → call'.timerIndex = call.timerIndex → d = c

theorem identified_initial (mapLogicList : Nat → Bool) : Identified (initial mapLogicList) where
  toWellFormed := wellFormed_initial mapLogicList
  ids _ _ hcall := by cases hcall
  distinct _ _ _ _ hcall := by cases hcall

theorem identified_step {s s' : TimerService} {a : Action} (h : Identified s)
    (hs : step s a = some s') : Identified s' := by
  have hcounts : Counts s a s' := counts_of_step hs
  refine { wellFormed_step h.toWellFormed hs with ids := ?_, distinct := ?_ }
  · intro c call' hcall'
    rcases hcounts.calls c call' hcall' with ⟨call, hcall, hgoes⟩ | ⟨-, hbegun⟩
    · exact (h.ids c call hcall).goes hcounts.index hgoes
    · exact hbegun.identified
  · intro c d call₁ call₂ hcall₁ hcall₂ hpos hsame
    rcases hcounts.calls c call₁ hcall₁ with ⟨call, hcall, hgoes⟩ | ⟨hc, hbegun⟩
    · rcases hcounts.calls d call₂ hcall₂ with ⟨call', hcall', hgoes'⟩ | ⟨-, hbegun'⟩
      · rw [hgoes.timerIndex] at hpos hsame
        rw [hgoes'.timerIndex] at hsame
        exact h.distinct c d call call' hcall hcall' hpos hsame
      · have hfresh := hbegun'.fresh (h.ids c call hcall) (hsame ▸ hpos)
        rw [hsame, hgoes.timerIndex] at hfresh
        exact absurd rfl hfresh
    · rcases hcounts.calls d call₂ hcall₂ with ⟨call', hcall', hgoes'⟩ | ⟨hd, -⟩
      · have hfresh := hbegun.fresh (h.ids d call' hcall') hpos
        rw [hgoes'.timerIndex] at hsame
        exact absurd hsame hfresh
      · rw [hc, hd]

/-- An id in the table is that of one call. -/
theorem Identified.key {s : TimerService} (h : Identified s) {c : Nat} {call : Call}
    (hcall : s.calls c = some call) (hpos : 0 ≤ call.timerIndex) {d : Nat}
    (hmap : s.mMapTimeridList call.timerIndex = some d) : d = c := by
  obtain ⟨call', hcall', hindex, -⟩ := h.listed _ _ hmap
  exact h.distinct c d call call' hcall hcall' hpos hindex

/-! ## The timers -/

/-- **Where the timers after a step come from.** A call makes its own, of the kind that it is, when
it comes to the push; any other timer was there before, and a timer never changes its type. -/
theorem timer_of_step {s s' : TimerService} {a : Action} (hs : step s a = some s') {c : Nat}
    {timer' : Timer} (htimer' : s'.timers c = some timer') :
    (∃ timer, s.timers c = some timer ∧ timer'.mTimerType = timer.mTimerType) ∨
      ∃ call, s.calls c = some call ∧ call.stage = .allocated ∧
        s'.calls c = some { call with stage := .added } ∧ call.kind.timer s.now = some timer' := by
  have hsame : s'.timers = s.timers → (∃ timer, s.timers c = some timer ∧
      timer'.mTimerType = timer.mTimerType) := fun heq => ⟨timer', heq ▸ htimer', rfl⟩
  -- a step that changes one timer and keeps its type
  have hset : ∀ d timer timer₁, s.timers d = some timer → timer₁.mTimerType = timer.mTimerType →
      s'.timers = (setTimer d (some timer₁) s).timers →
      ∃ timer, s.timers c = some timer ∧ timer'.mTimerType = timer.mTimerType := by
    intro d timer timer₁ htimer htype heq
    rw [heq] at htimer'
    by_cases hcd : c = d
    · subst hcd
      have hself : Function.update s.timers c (some timer₁) c = some timer' := htimer'
      rw [Function.update_self] at hself
      exact ⟨timer, htimer, Option.some.inj hself ▸ htype⟩
    · exact ⟨timer', (Function.update_of_ne hcd ..).symm.trans htimer', rfl⟩
  cases does_of_step hs with
  | message | noWorker | once | loop | noOnce | noLoop | insert | execute | found | notFound
  | tick => exact .inl (hsame rfl)
  | push d call hcall hstage =>
    by_cases hcd : c = d
    · subst hcd
      have hself : Function.update s.timers c (call.kind.timer s.now) c = some timer' := htimer'
      rw [Function.update_self] at hself
      exact .inr ⟨call, hcall, hstage, Function.update_self .., hself⟩
    · exact .inl ⟨timer', (Function.update_of_ne hcd ..).symm.trans htimer', rfl⟩
  | schedule hgoes =>
    left
    -- before and behind the callback of a one-shot timer its fields are written
    cases hgoes with
    | enterOnce d timer hpc htimer | skipOnce d timer hpc htimer =>
      exact hset d timer timer.beforeCallback htimer timer.type_beforeCallback rfl
    | leave d timer hpc htimer =>
      exact hset d timer (timer.afterCallback s.now) htimer (timer.type_afterCallback s.now) rfl
    | enterLoop | skipLoop | call | callEmpty | put | erase => exact hsame rfl
  | destroy d =>
    have hcd : c ≠ d := by
      rintro rfl
      have hself : Function.update s.timers c none c = some timer' := htimer'
      rw [Function.update_self] at hself
      cases hself
    exact .inl ⟨timer', (Function.update_of_ne hcd ..).symm.trans htimer', rfl⟩
  | close hcloses =>
    left
    cases hcloses with
    | cancel timerId returners d timer hpc htimer =>
      exact hset d timer timer.cancel htimer timer.type_cancel rfl
    | alive | expired | lock | lockNull | erase => exact hsame rfl

end TimerService

end PssClient
