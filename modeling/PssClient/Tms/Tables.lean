import Mathlib.Data.Finset.Insert
import PssClient.Tms.Registry

/-!
# When the tables of the workers agree

`CreateLogic` counts a worker that it puts into the map; `CloseLogic` takes one out and leaves the
count. The timers of a closed worker go on, and their callbacks put a null pointer into the map.

* `keys_step` — what each operation does to the count and the number of entries.
* `Good` — the invariant as long as no worker is closed, and `Off` what is left once one has been.
* `tms` — the registry as the workers of `Tms`.
* `consistent_iff` — the result: the tables agree exactly as long as no worker has been closed.
-/

namespace PssClient

open Machine

namespace Registry

variable {M : Type*}

/-! ## The count and the number of entries -/

theorem Keys.unique {r : Registry M} {ids ids' : Finset Nat} (h : r.Keys ids) (h' : r.Keys ids') :
    ids = ids' := Finset.ext fun id => (h id).trans (h' id).symm

/-- Whether a worker is closed by an action. -/
def closes (r : Registry M) : Action M → Nat
  | .closeLogic id => if (r.mapLogicList id).isSome then 1 else 0
  | _ => 0

/-- A new entry is a new key. -/
theorem Keys.insert {r : Registry M} {ids : Finset Nat} (h : r.Keys ids) {id : Nat}
    (hnone : r.mapLogicList id = none) (entry : Option (Worker M)) :
    (r.setEntry id (some entry)).Keys (insert id ids) ∧ (insert id ids).card = ids.card + 1 := by
  have hnew : id ∉ ids := by simp [h id, hnone]
  refine ⟨fun id' => ?_, Finset.card_insert_of_notMem hnew⟩
  by_cases hid : id' = id
  · subst hid
    simp
  · rw [setEntry_of_ne hid, Finset.mem_insert, h id']
    simp [hid]

theorem Keys.erase {r : Registry M} {ids : Finset Nat} (h : r.Keys ids) {id : Nat}
    (hsome : (r.mapLogicList id).isSome = true) :
    (r.setEntry id none).Keys (ids.erase id) ∧ (ids.erase id).card + 1 = ids.card := by
  refine ⟨fun id' => ?_, Finset.card_erase_add_one ((h id).mpr hsome)⟩
  by_cases hid : id' = id
  · subst hid
    simp
  · rw [setEntry_of_ne hid, Finset.mem_erase, h id']
    simp [hid]

theorem Keys.congr {r r' : Registry M} {ids : Finset Nat} (h : r.Keys ids)
    (hshape : r'.shape = r.shape) : r'.Keys ids := by
  intro id
  rw [h id, ← shape_isSome, ← shape_isSome, hshape]

/-- A put that dereferences no null pointer leaves the shape. -/
theorem put_shape {r : Registry M} {id : Nat} {msg : M}
    (h : (r.put id msg).nullDereferenced = false) : (r.put id msg).shape = r.shape := by
  by_cases hworker : ∃ worker, r.mapLogicList id = some (some worker)
  · obtain ⟨worker, hentry⟩ := hworker
    exact (put_of_some hentry msg).2
  · rw [put_of_null (fun worker hentry => hworker ⟨worker, hentry⟩)] at h
    cases h

/-- **The count and the keys.** A new worker is one entry more and is counted. One that is closed is
an entry less and still counted, so that the count and the number of the keys differ by the closes
so far. Nothing else changes either of them. -/
theorem keys_step {r r' : Registry M} {a : Action M} {ids : Finset Nat} (h : r.Keys ids)
    (hs : step r a = some r') (hnull : r'.nullDereferenced = false) :
    ∃ ids', r'.Keys ids' ∧
      r'.logicThreadCount + ids.card = r.logicThreadCount + ids'.card + r.closes a := by
  unfold step at hs
  split at hs
  case isTrue => cases hs
  case isFalse hnot =>
  cases a with
  | createLogic id tid =>
    dsimp only at hs
    split at hs
    case isTrue => cases hs
    case isFalse =>
    cases hentry : r.mapLogicList id with
    | some entry =>
      -- an id that is there already is left alone
      simp only [createLogic, hentry, Option.some.injEq] at hs
      exact ⟨ids, hs ▸ h, by rw [← hs]; rfl⟩
    | none =>
      simp only [createLogic, hentry, Option.some.injEq] at hs
      subst hs
      obtain ⟨hkeys, hcard⟩ := h.insert hentry (some (start tid))
      refine ⟨insert id ids, hkeys, ?_⟩
      show r.logicThreadCount + 1 + ids.card = r.logicThreadCount + (insert id ids).card + 0
      omega
  | closeLogic id =>
    obtain rfl : (r.closeLogic id).2 = r' := Option.some.inj hs
    cases hentry : r.mapLogicList id with
    | none =>
      simp only [closeLogic, closes, hentry]
      exact ⟨ids, h, rfl⟩
    | some entry =>
      cases entry with
      -- the entry that `operator[]` has made is a null pointer
      | none => simp [closeLogic, hentry] at hnull
      | some worker =>
        simp only [closeLogic, closes, hentry]
        obtain ⟨hkeys, hcard⟩ := h.erase (by rw [hentry]; rfl)
        refine ⟨ids.erase id, hkeys, ?_⟩
        show r.logicThreadCount + ids.card = r.logicThreadCount + (ids.erase id).card + 1
        omega
  | addMessage id msg =>
    obtain rfl : (r.addMessage id msg).2 = r' := Option.some.inj hs
    cases hentry : r.mapLogicList id with
    | none =>
      simp only [addMessage, hentry]
      exact ⟨ids, h, rfl⟩
    | some entry =>
      simp only [addMessage, hentry] at hnull ⊢
      exact ⟨ids, h.congr (put_shape hnull), by rw [(put_frame r id msg).2.1]; rfl⟩
  | addMessageTimer id msg loop =>
    obtain rfl : (r.addMessageTimer id msg loop).2 = r' := Option.some.inj hs
    cases hentry : r.mapLogicList id with
    | none =>
      simp only [addMessageTimer, hentry]
      exact ⟨ids, h, rfl⟩
    | some entry =>
      simp only [addMessageTimer, hentry]
      exact ⟨ids, h, rfl⟩
  | fire index =>
    obtain ⟨timer, -, rfl⟩ := Option.map_eq_some_iff.mp hs
    -- a timer puts its message without looking for the worker
    have hshape : (r.put timer.logicId timer.msg).shape = r.shape := put_shape hnull
    refine ⟨ids, h.congr hshape, ?_⟩
    show (r.put timer.logicId timer.msg).logicThreadCount + ids.card = _
    rw [(put_frame r _ _).2.1]
    rfl

/-! ## As long as no worker is closed -/

/-- The tables agree, the threads of the workers are running, and the worker of every timer that
waits is there. -/
structure Good (r : Registry M) : Prop extends Consistent r where
  threads : ∀ id worker, r.mapLogicList id = some (some worker) → worker.tid ∈ r.threads
  timers : ∀ index timer, r.timers index = some timer →
    (r.mapLogicList timer.logicId).isSome = true

theorem good_init (ttTimer : Nat) : Good (init ttTimer : Registry M) where
  running := nofun
  count := ⟨∅, fun _ => by simp [init], rfl⟩
  tids := fun tid id => by simp [init]
  notNull := rfl
  threads := nofun
  timers := nofun

/-- The worker of an entry. -/
theorem Consistent.worker {r : Registry M} (h : r.Consistent) {id : Nat}
    (hid : (r.mapLogicList id).isSome = true) :
    ∃ worker, r.mapLogicList id = some (some worker) := by
  obtain ⟨entry, hentry⟩ := Option.isSome_iff_exists.mp hid
  obtain ⟨worker, rfl, -⟩ := h.running id entry hentry
  exact ⟨worker, hentry⟩

/-- **What `Good` does not look at.** The workers may have got messages from others, and a timer may
have gone: which keys there are, which of them have a worker, and with which flag and thread, is the
same. -/
theorem Good.congr {r r' : Registry M} (h : Good r) (hshape : r'.shape = r.shape)
    (htids : r'.tidToLogicId = r.tidToLogicId)
    (hcount : r'.logicThreadCount = r.logicThreadCount) (hthreads : r'.threads = r.threads)
    (htimers : ∀ index timer, r'.timers index = some timer → r.timers index = some timer)
    (hnull : r'.nullDereferenced = false) : Good r' := by
  -- a worker has the flag and the thread that it had
  have hworker : ∀ {id worker}, r'.mapLogicList id = some (some worker) → ∃ worker',
      r.mapLogicList id = some (some worker') ∧ worker'.run = worker.run ∧
        worker'.tid = worker.tid := by
    intro id worker hentry
    apply shape_eq_some.mp
    rw [← hshape]
    exact shape_eq_some.mpr ⟨worker, hentry, rfl, rfl⟩
  have hsome : ∀ id, (r'.mapLogicList id).isSome = (r.mapLogicList id).isSome := by
    intro id
    rw [← shape_isSome, ← shape_isSome, hshape]
  refine { running := fun id entry hentry => ?_, count := ?_, tids := fun tid id => ?_,
           notNull := hnull, threads := fun id worker hentry => ?_,
           timers := fun index timer hat => ?_ }
  · -- `running`
    have hkey : (r.mapLogicList id).isSome = true := by
      rw [← hsome id, hentry]
      rfl
    obtain ⟨worker', hold⟩ := h.worker hkey
    have hrun : worker'.run = true := by
      obtain ⟨w, hw, hrun⟩ := h.running id _ hold
      exact Option.some.inj hw ▸ hrun
    have hnew : r'.shape id = some (some (true, worker'.tid)) := by
      rw [hshape]
      exact shape_eq_some.mpr ⟨worker', hold, hrun, rfl⟩
    obtain ⟨worker, hworker', hrun', -⟩ := shape_eq_some.mp hnew
    rw [hentry] at hworker'
    exact ⟨worker, Option.some.inj hworker', hrun'⟩
  · -- `count`
    obtain ⟨ids, hkeys, hcard⟩ := h.count
    exact ⟨ids, hkeys.congr hshape, hcount.trans hcard⟩
  · -- `tids`
    rw [htids, h.tids tid id]
    have hboth : ∀ {r : Registry M},
        (∃ worker, r.mapLogicList id = some (some worker) ∧ worker.tid = tid) ↔
          ∃ run, r.shape id = some (some (run, tid)) := by
      intro r
      simp only [shape_eq_some]
      constructor
      · rintro ⟨worker, hentry, htid⟩
        exact ⟨worker.run, worker, hentry, rfl, htid⟩
      · rintro ⟨-, worker, hentry, -, htid⟩
        exact ⟨worker, hentry, htid⟩
    rw [hboth, hboth, hshape]
  · -- `threads`
    obtain ⟨worker', hold, -, htid⟩ := hworker hentry
    rw [hthreads, ← htid]
    exact h.threads id worker' hold
  · rw [hsome]
    exact h.timers index timer (htimers index timer hat)

theorem good_put {r : Registry M} (h : Good r) {id : Nat}
    (hid : (r.mapLogicList id).isSome = true) (msg : M) : Good (r.put id msg) := by
  obtain ⟨worker, hentry⟩ := h.worker hid
  obtain ⟨heq, hshape⟩ := put_of_some hentry msg
  obtain ⟨htids, hcount, hthreads, htimers⟩ := put_frame r id msg
  refine h.congr hshape htids hcount hthreads (fun index timer hat => htimers ▸ hat) ?_
  rw [heq]
  exact h.notNull

/-- A new worker: its thread is none of those that are running. -/
theorem good_createLogic {r : Registry M} (h : Good r) {id tid : Nat} (htid : tid ∉ r.threads) :
    Good (r.createLogic id tid).2 := by
  unfold createLogic
  split
  case h_1 => exact h
  case h_2 hnone =>
  have hself : (r.setEntry id (some (some (start tid)))).mapLogicList id
      = some (some (start tid)) := setEntry_self ..
  have hother : ∀ id', id' ≠ id →
      (r.setEntry id (some (some (start tid)))).mapLogicList id' = r.mapLogicList id' :=
    fun id' hid => setEntry_of_ne hid ..
  refine { running := fun id' entry hentry => ?_, count := ?_, tids := fun tid' id' => ?_,
           notNull := h.notNull, threads := fun id' worker hentry => ?_,
           timers := fun index timer hat => ?_ }
  · change (r.setEntry id (some (some (start tid)))).mapLogicList id' = some entry at hentry
    by_cases hid : id' = id
    · subst hid
      rw [hself] at hentry
      exact ⟨start tid, (Option.some.inj hentry).symm, rfl⟩
    · rw [hother id' hid] at hentry
      exact h.running id' entry hentry
  · obtain ⟨ids, hkeys, hcard⟩ := h.count
    obtain ⟨hkeys', hcard'⟩ := hkeys.insert hnone (some (start tid))
    refine ⟨insert id ids, hkeys', ?_⟩
    rw [hcard']
    exact congrArg (· + 1) hcard
  · change ((r.setEntry id (some (some (start tid)))).setTid tid (some id)).tidToLogicId tid'
        = some id' ↔ ∃ worker, (r.setEntry id (some (some (start tid)))).mapLogicList id'
          = some (some worker) ∧ worker.tid = tid'
    by_cases ht : tid' = tid
    · subst ht
      rw [setTid_self]
      by_cases hid : id' = id
      · subst hid
        rw [hself]
        exact ⟨fun _ => ⟨start tid', rfl, rfl⟩, fun _ => rfl⟩
      · rw [hother id' hid]
        -- a thread of that id would be running
        refine ⟨fun heq => absurd (Option.some.inj heq).symm hid, ?_⟩
        rintro ⟨worker, hentry, rfl⟩
        exact absurd (h.threads id' worker hentry) htid
    · rw [setTid_of_ne ht]
      show r.tidToLogicId tid' = some id' ↔ _
      rw [h.tids tid' id']
      by_cases hid : id' = id
      · subst hid
        rw [hself, hnone]
        constructor
        · rintro ⟨worker, hentry, -⟩
          cases hentry
        · rintro ⟨worker, hentry, rfl⟩
          cases hentry
          exact absurd rfl ht
      · rw [hother id' hid]
  · change (r.setEntry id (some (some (start tid)))).mapLogicList id' = some (some worker)
      at hentry
    by_cases hid : id' = id
    · subst hid
      rw [hself] at hentry
      cases hentry
      exact .head _
    · rw [hother id' hid] at hentry
      exact .tail _ (h.threads id' worker hentry)
  · show ((r.setEntry id (some (some (start tid)))).mapLogicList timer.logicId).isSome = true
    by_cases hid : timer.logicId = id
    · rw [hid, hself]
      rfl
    · rw [hother _ hid]
      exact h.timers index timer hat

theorem good_fire {r r' : Registry M} (h : Good r) {index : Nat}
    (hs : r.fire index = some r') : Good r' := by
  obtain ⟨timer, htimer, rfl⟩ := Option.map_eq_some_iff.mp hs
  have hput : Good (r.put timer.logicId timer.msg) :=
    good_put h (h.timers index timer htimer) timer.msg
  refine hput.congr rfl rfl rfl rfl (fun index' timer' hat => ?_) hput.notNull
  rw [(put_frame r _ _).2.2.2]
  dsimp only at hat
  split at hat
  case isTrue => exact hat
  case isFalse =>
    by_cases hindex : index' = index
    · rw [hindex, Function.update_self] at hat
      cases hat
    · rwa [Function.update_of_ne hindex] at hat

/-- A step that closes no worker keeps the tables in agreement. A message that is put for an id
without a worker finds no entry, and only a timer that fires looks with `operator[]`. -/
theorem good_step {r r' : Registry M} {a : Action M} (h : Good r) (ha : KeepsWorkers r a)
    (hs : step r a = some r') : Good r' := by
  unfold step at hs
  rw [h.notNull] at hs
  cases a with
  | createLogic id tid =>
    by_cases htid : tid ∈ r.threads
    · simp [htid] at hs
    · simp only [htid, if_false, Bool.false_eq_true, Option.some.injEq] at hs
      exact hs ▸ good_createLogic h htid
  | closeLogic id =>
    obtain rfl : (r.closeLogic id).2 = r' := Option.some.inj hs
    -- the condition: the close finds no worker
    rw [closeLogic, show r.mapLogicList id = none from ha]
    exact h
  | addMessage id msg =>
    obtain rfl : (r.addMessage id msg).2 = r' := Option.some.inj hs
    unfold addMessage
    split
    case h_1 entry hentry => exact good_put h (by rw [hentry]; rfl) msg
    case h_2 => exact h
  | addMessageTimer id msg loop =>
    obtain rfl : (r.addMessageTimer id msg loop).2 = r' := Option.some.inj hs
    unfold addMessageTimer
    split
    case h_1 entry hentry =>
      refine { h with timers := fun index timer hat => ?_ }
      dsimp only at hat ⊢
      -- the new timer is for a worker that is there
      by_cases hindex : index = r.timerIndex
      · rw [hindex, Function.update_self] at hat
        obtain rfl := Option.some.inj hat
        show (r.mapLogicList id).isSome = true
        rw [hentry]
        rfl
      · rw [Function.update_of_ne hindex] at hat
        exact h.timers index timer hat
    case h_2 => exact h
  | fire index => exact good_fire h hs

/-- In such a state a timer finds its worker. -/
theorem Good.firesClean {r : Registry M} (h : Good r) : FiresClean r := by
  intro index r' hs
  have hgood : Good r' := good_step (a := .fire index) h trivial hs
  refine ⟨fun id => ?_, hgood.notNull⟩
  unfold step at hs
  rw [h.notNull] at hs
  obtain ⟨timer, htimer, rfl⟩ := Option.map_eq_some_iff.mp hs
  obtain ⟨worker, hentry⟩ := h.worker (h.timers index timer htimer)
  show ((r.put timer.logicId timer.msg).mapLogicList id).isSome = _
  rw [← shape_isSome, (put_of_some hentry timer.msg).2, shape_isSome]

/-- `GetLogicThreadID` on the thread of a worker gives the id of that worker. -/
theorem Consistent.getLogicThreadId {r : Registry M} (h : r.Consistent) {id : Nat}
    {worker : Worker M} (hentry : r.mapLogicList id = some (some worker)) :
    r.getLogicThreadId worker.tid = id := by
  rw [Registry.getLogicThreadId, (h.tids worker.tid id).mpr ⟨worker, hentry, rfl⟩]
  rfl

/-- The workers and their count alone. -/
def tms (r : Registry M) : Tms M where
  mapLogicList id := (r.mapLogicList id).join.map Worker.toLogicTask
  logicThreadCount := r.logicThreadCount

theorem tms_of_some {r : Registry M} {id : Nat} {worker : Worker M}
    (h : r.mapLogicList id = some (some worker)) :
    r.tms.mapLogicList id = some worker.toLogicTask := by
  show (r.mapLogicList id).join.map Worker.toLogicTask = _
  rw [h]
  rfl

theorem tms_of_none {r : Registry M} {id : Nat} (h : r.mapLogicList id = none) :
    r.tms.mapLogicList id = none := by
  show (r.mapLogicList id).join.map Worker.toLogicTask = _
  rw [h]
  rfl

theorem tms_setEntry (id : Nat) (worker : Worker M) (r : Registry M) :
    (r.setEntry id (some (some worker))).tms = r.tms.set id worker.toLogicTask := by
  refine congrArg (fun m => (⟨m, r.logicThreadCount⟩ : Tms M)) (funext fun id' => ?_)
  show ((r.setEntry id (some (some worker))).mapLogicList id').join.map Worker.toLogicTask
    = (r.tms.set id worker.toLogicTask).mapLogicList id'
  by_cases hid : id' = id
  · subst hid
    rw [setEntry_self, Tms.set_mapLogicList_self]
    rfl
  · rw [setEntry_of_ne hid, Tms.set_mapLogicList_of_ne hid]
    rfl

/-- Without null entries the operations on the workers are those of `Tms`. -/
theorem tms_createLogic {r : Registry M} (h : r.Consistent) (id tid : Nat) :
    (r.createLogic id tid).2.tms = r.tms.createLogic id := by
  cases hentry : r.mapLogicList id with
  | some entry =>
    obtain ⟨worker, hworker⟩ := h.worker (by rw [hentry]; rfl : _ = true)
    rw [createLogic, hentry, Tms.createLogic, tms_of_some hworker]
  | none =>
    rw [createLogic, hentry, Tms.createLogic, tms_of_none hentry]
    show { (r.setEntry id (some (some (start tid)))).tms with
      logicThreadCount := r.logicThreadCount + 1 } = _
    rw [tms_setEntry]
    rfl

theorem tms_addMessage {r : Registry M} (h : r.Consistent) (id : Nat) (msg : M) :
    (r.addMessage id msg).2.tms = r.tms.addMessage id msg := by
  cases hentry : r.mapLogicList id with
  | some entry =>
    obtain ⟨worker, hworker⟩ := h.worker (by rw [hentry]; rfl : _ = true)
    rw [addMessage, hentry, Tms.addMessage_of_some (tms_of_some hworker)]
    show (r.put id msg).tms = _
    rw [(put_of_some hworker msg).1, tms_setEntry]
  | none => rw [addMessage, hentry, Tms.addMessage_none (tms_of_none hentry)]

/-! ## Once one has been closed -/

/-- More workers are counted than there are entries. -/
def Off (r : Registry M) : Prop :=
  r.nullDereferenced = true ∨ ∃ ids, r.Keys ids ∧ ids.card < r.logicThreadCount

theorem off_step {r r' : Registry M} {a : Action M} (h : Off r) (hs : step r a = some r') :
    Off r' := by
  rcases h with hnull | ⟨ids, hkeys, hcard⟩
  · simp [step, hnull] at hs
  · by_cases hnull : r'.nullDereferenced = true
    · exact .inl hnull
    · obtain ⟨ids', hkeys', hcount⟩ := keys_step hkeys hs (by simpa using hnull)
      exact .inr ⟨ids', hkeys', by omega⟩

/-- The one that is closed stays counted. -/
theorem off_of_closes {r r' : Registry M} {a : Action M} (h : Good r) (ha : ¬ KeepsWorkers r a)
    (hs : step r a = some r') : Off r' := by
  by_cases hnull : r'.nullDereferenced = true
  · exact .inl hnull
  · obtain ⟨ids, hkeys, hcard⟩ := h.count
    obtain ⟨ids', hkeys', hcount⟩ := keys_step hkeys hs (by simpa using hnull)
    have hcloses : r.closes a = 1 := by
      cases a with
      | closeLogic id => exact if_pos (Option.isSome_iff_ne_none.mpr ha)
      | _ => exact absurd trivial ha
    exact .inr ⟨ids', hkeys', by omega⟩

theorem Off.not_consistent {r : Registry M} (h : Off r) : ¬ Consistent r := by
  intro hc
  rcases h with hnull | ⟨ids, hkeys, hcard⟩
  · rw [hc.notNull] at hnull
    cases hnull
  · obtain ⟨ids', hkeys', hcount⟩ := hc.count
    rw [hkeys.unique hkeys'] at hcard
    omega

/-- **The tables agree, and timers find their workers, exactly as long as no worker has been
closed.** -/
theorem consistent_iff (ttTimer : Nat) (as : List (Action M)) (r : Registry M)
    (hrun : run step (init ttTimer) as = some r) :
    (Consistent r ∧ FiresClean r) ↔ Meets step KeepsWorkers (init ttTimer) as := by
  constructor
  · rintro ⟨hc, -⟩
    rcases dichotomy_of_run Good Off (fun _ _ _ => good_step) (fun _ _ _ => off_of_closes)
      (fun _ _ _ => off_step) (good_init ttTimer) hrun with ⟨hmeets, -⟩ | hoff
    · exact hmeets
    · exact absurd hc hoff.not_consistent
  · intro hmeets
    have hgood : Good r :=
      invariant_of_meets Good (fun _ _ _ => good_step) (good_init ttTimer) hmeets hrun
    exact ⟨hgood.toConsistent, hgood.firesClean⟩

/-- A worker, one more message for it, and a loop timer that fires. -/
def oneWorker : List (Action Nat) :=
  [.createLogic 0 1, .addMessage 0 7, .addMessageTimer 0 8 true, .fire 0]

theorem consistent_iff_oneWorker :
    ∃ r, run step (init 0) oneWorker = some r ∧ Consistent r ∧ FiresClean r :=
  ⟨_, rfl, (consistent_iff 0 oneWorker _ rfl).mpr
    ⟨trivial, fun _ _ => ⟨trivial, fun _ _ => ⟨trivial, fun _ _ => ⟨trivial, fun _ _ => trivial⟩⟩⟩⟩⟩

/-- A closed worker stays counted; a timer that waits for it makes a null entry and calls `Put`
through it. -/
theorem closed_worker_counted :
    (∃ r : Registry Nat, run step (init 0) [.createLogic 0 1, .closeLogic 0] = some r ∧
      r.Keys ∅ ∧ r.logicThreadCount = 1 ∧ ¬ Consistent r) ∧
    ∃ r : Registry Nat, run step (init 0)
        [.createLogic 0 1, .addMessageTimer 0 7 false, .closeLogic 0, .fire 0] = some r ∧
      r.mapLogicList 0 = some none ∧ r.nullDereferenced = true := by
  refine ⟨?_, ⟨_, rfl, rfl, rfl⟩⟩
  obtain ⟨r, hrun, hcount, hkeys⟩ : ∃ r : Registry Nat,
      run step (init 0) [.createLogic 0 1, .closeLogic 0] = some r ∧ r.logicThreadCount = 1 ∧
        r.Keys ∅ := by
    refine ⟨_, rfl, rfl, fun id => ?_⟩
    by_cases hid : id = 0 <;> simp [createLogic, closeLogic, init, setEntry, setTid, hid]
  refine ⟨r, hrun, hkeys, hcount, fun hc => ?_⟩
  obtain ⟨ids, hkeys', hcard⟩ := hc.count
  rw [hcount, hkeys'.unique hkeys] at hcard
  cases hcard

end Registry

end PssClient
