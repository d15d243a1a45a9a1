import PssClient.Lib.Fifo
import PssClient.Lib.Rank
import PssClient.Tms.Workers

/-!
# The queue of a worker

`CMessageQueue` of `ThreadQueue.h` under any number of threads, each of which may call `Push` and
`Pop` in both modes. The mutex, the tests of the queue, `front`, `pop`, `notify_one` and `wait` are
steps of their own; `wait` may also return by itself, and `notify_one` wakes any one that waits.

* `Pc` / `MessageQueue` / `step` — where each thread is, the queue and the mutex, and the trace of
  what the callers see.
* `Kept` — the invariant. `waits` is what makes the wake-ups suffice: while a thread waits, there
  are no more messages than threads on the way to one.
* `linearizable` — the trace is that of a queue, and `front` and `pop` are never called on an empty
  one.
* `addMessage_of_put` / `pop_iff_took` — the steps of `PssClient.Tms` are operations of the trace.

That no thread waits for a message that is there is in `PssClient.Tms.LostWakeup`.
-/

namespace PssClient

open Machine

namespace MessageQueue

/-- Where a thread is. -/
inductive Pc (M : Type*)
  | idle
  /-- In `Push`, about to lock. -/
  | push (msg : M)
  -- the threads from here to `leaving` have the lock, but for `waiting` and `woken`
  | pushing (msg : M)
  | notifying
  /-- In `Pop`, about to lock. -/
  | pop (isBlocked : Bool)
  /-- At `_queue.empty()`. -/
  | testing (isBlocked : Bool)
  /-- The queue was not empty. -/
  | front
  /-- The message has been moved out of the front. -/
  | moved (msg : M)
  /-- In `wait`. -/
  | waiting
  /-- In `wait` still, about to lock again. -/
  | woken
  | leaving
  /-- `front` or `pop` has been called on an empty queue. -/
  | undefined

/-- The thread has the lock. -/
def Pc.locks {M : Type*} : Pc M → Bool
  | .idle | .push _ | .pop _ | .waiting | .woken => false
  | _ => true

def Pc.isWaiting {M : Type*} : Pc M → Bool
  | .waiting => true
  | _ => false

end MessageQueue

/-- `CMessageQueue`, and the threads that use it. -/
structure MessageQueue (M : Type*) where
  queue : List M := []
  mutex : Option Nat := none
  threads : List (MessageQueue.Pc M)
  trace : List (Fifo.Label M) := []

namespace MessageQueue

variable {M : Type*}

/-- What can happen next: a thread begins a `Push` or a `Pop`, takes the next step of it, or comes
out of its `wait` without a reason. -/
inductive Action (M : Type*)
  | push (i : Nat) (msg : M)
  | pop (i : Nat) (isBlocked : Bool)
  /-- Thread `i` takes its next step; `notify_one` wakes `wakes`. -/
  | go (i wakes : Nat)
  /-- `wait` returns without having been notified. -/
  | spurious (i : Nat)

/-- Thread `i` is elsewhere. -/
def move (i : Nat) (pc : Pc M) (s : MessageQueue M) : MessageQueue M :=
  { s with threads := s.threads.set i pc }

/-- Thread `i` locks, if it can. -/
def lock (i : Nat) (pc : Pc M) (s : MessageQueue M) : Option (MessageQueue M) :=
  match s.mutex with
  | none => some { move i pc s with mutex := some i }
  | some _ => none

/-- `notify_one`. -/
def notify (i wakes : Nat) (s : MessageQueue M) : Option (MessageQueue M) :=
  if s.threads.any Pc.isWaiting then
    match s.threads[wakes]? with
    | some .waiting => some (move i .leaving (move wakes .woken s))
    | _ => none
  else some (move i .leaving s)

/-- The next step of thread `i`, which is at `pc`. -/
def go (i wakes : Nat) (s : MessageQueue M) : Pc M → Option (MessageQueue M)
  | .idle | .waiting | .undefined => none
  | .push msg => lock i (.pushing msg) s
  | .pushing msg =>
    some { move i .notifying s with
      queue := s.queue ++ [msg]
      trace := s.trace ++ [.put [msg]] }
  | .notifying => notify i wakes s
  | .pop isBlocked => lock i (.testing isBlocked) s
  | .testing isBlocked =>
    match s.queue, isBlocked with
    | _ :: _, _ => some (move i .front s)
    | [], true => some { move i .waiting s with mutex := none }
    | [], false => some { move i .leaving s with trace := s.trace ++ [.saw 0 none] }
  | .front =>
    match s.queue with
    | msg :: _ => some (move i (.moved msg) s)
    | [] => some (move i .undefined s)
  | .moved msg =>
    match s.queue with
    | _ :: queue =>
      some { move i .leaving s with queue := queue, trace := s.trace ++ [.took [msg]] }
    | [] => some (move i .undefined s)
  | .woken => lock i (.testing true) s
  | .leaving => some { move i .idle s with mutex := none }

def step (s : MessageQueue M) : Action M → Option (MessageQueue M)
  | .push i msg =>
    match s.threads[i]? with
    | some .idle => some (move i (.push msg) s)
    | _ => none
  | .pop i isBlocked =>
    match s.threads[i]? with
    | some .idle => some (move i (.pop isBlocked) s)
    | _ => none
  | .go i wakes => (s.threads[i]?).bind (go i wakes s)
  | .spurious i =>
    match s.threads[i]? with
    | some .waiting => some (move i .woken s)
    | _ => none

/-- An empty queue among `count` threads. -/
def new (count : Nat) : MessageQueue M := { threads := .replicate count .idle }

/-! ## The lock -/

/-- What the place of a thread says about the queue. -/
def Pc.Fits (queue : List M) : Pc M → Prop
  | .front => queue ≠ []
  | .moved msg => ∃ rest, queue = msg :: rest
  | .undefined => False
  | _ => True

theorem fits_of_not_locks {pc : Pc M} (h : pc.locks = false) (queue : List M) : pc.Fits queue := by
  cases pc with
  | idle | push | pop | waiting | woken => trivial
  | pushing | notifying | testing | front | moved | leaving | undefined => cases h

/-- The mutex is with the thread that has locked it, and the queue is as each thread has found
it. -/
structure Guarded (threads : List (Pc M)) (mutex : Option Nat) (queue : List M) : Prop where
  owner : ∀ i : Nat, mutex = some i ↔ ∃ pc, threads[i]? = some pc ∧ pc.locks = true
  fits : ∀ (i : Nat) (pc : Pc M), threads[i]? = some pc → pc.Fits queue

/-- A thread goes on. It changes the queue only if it has the lock, and the lock only for
itself. -/
theorem guarded_set {threads : List (Pc M)} {mutex mutex' : Option Nat} {queue queue' : List M}
    {i : Nat} {pc pc' : Pc M} (h : Guarded threads mutex queue) (hi : threads[i]? = some pc)
    (hself : mutex' = some i ↔ pc'.locks = true)
    (hothers : ∀ j, j ≠ i → (mutex' = some j ↔ mutex = some j))
    (hfits : pc'.Fits queue') (hqueue : queue' = queue ∨ mutex = some i) :
    Guarded (threads.set i pc') mutex' queue' := by
  obtain ⟨hlt, -⟩ := List.getElem?_eq_some_iff.mp hi
  refine ⟨fun j => ?_, fun j pcj hj => ?_⟩
  · by_cases hji : j = i
    · rw [hji, List.getElem?_set_self hlt]
      exact hself.trans ⟨fun hlocks => ⟨pc', rfl, hlocks⟩, fun ⟨_, heq, hlocks⟩ =>
        Option.some.inj heq ▸ hlocks⟩
    · rw [List.getElem?_set_ne (Ne.symm hji)]
      exact (hothers j hji).trans (h.owner j)
  · by_cases hji : j = i
    · rw [hji, List.getElem?_set_self hlt] at hj
      exact Option.some.inj hj ▸ hfits
    · rw [List.getElem?_set_ne (Ne.symm hji)] at hj
      rcases hqueue with rfl | hmutex
      · exact h.fits j pcj hj
      · -- nobody else has the lock
        refine fits_of_not_locks (Bool.eq_false_iff.mpr fun hlocks => hji ?_) queue'
        have hown := (h.owner j).mpr ⟨pcj, hj, hlocks⟩
        rw [hmutex] at hown
        exact (Option.some.inj hown).symm

/-! ## The wake-ups -/

/-- The thread will look at the queue, or wake one that does. -/
def Pc.onTheWay : Pc M → Nat
  | .notifying | .testing _ | .front | .moved _ | .woken => 1
  | _ => 0

/-- While a thread waits, there is a thread on the way to each message. -/
def Sufficient (threads : List (Pc M)) (queue : List M) : Prop :=
  .waiting ∈ threads → queue.length ≤ (threads.map Pc.onTheWay).sum

/-- A thread that goes on leaves enough of them: it begins to wait in front of an empty queue
only, and takes a message if it leaves the way. -/
theorem sufficient_set {threads : List (Pc M)} {queue queue' : List M} {i : Nat} {pc pc' : Pc M}
    (h : Sufficient threads queue) (hi : threads[i]? = some pc)
    (hcount : queue' = [] ∨
      pc' ≠ .waiting ∧ queue'.length + pc.onTheWay ≤ queue.length + pc'.onTheWay) :
    Sufficient (threads.set i pc') queue' := by
  intro hwaiting
  rcases hcount with rfl | ⟨hpc', hcount⟩
  · exact Nat.zero_le _
  · have hbefore : .waiting ∈ threads :=
      (List.mem_or_eq_of_mem_set hwaiting).resolve_right hpc'.symm
    have hlength := h hbefore
    have hsum := List.sum_map_set hi Pc.onTheWay pc'
    omega

theorem any_isWaiting {threads : List (Pc M)} :
    threads.any Pc.isWaiting = true ↔ .waiting ∈ threads := by
  rw [List.any_eq_true]
  constructor
  · rintro ⟨pc, hmem, hpc⟩
    cases pc <;> first | exact hmem | cases hpc
  · exact fun h => ⟨.waiting, h, rfl⟩

/-- `notify_one` puts one thread on the way for the one that leaves it. -/
theorem sufficient_notify {threads : List (Pc M)} {queue : List M} {i wakes : Nat}
    (h : Sufficient threads queue) (hi : threads[i]? = some .notifying)
    (hwakes : threads[wakes]? = some .waiting) :
    Sufficient ((threads.set wakes .woken).set i .leaving) queue := by
  have hne : wakes ≠ i := by
    rintro rfl
    rw [hwakes] at hi
    cases hi
  have hi' : (threads.set wakes .woken)[i]? = some .notifying := by
    rw [List.getElem?_set_ne hne, hi]
  intro _
  have hlength := h (List.mem_of_getElem? hwakes)
  have hwoken := List.sum_map_set hwakes Pc.onTheWay .woken
  have hleaving := List.sum_map_set hi' Pc.onTheWay .leaving
  simp only [Pc.onTheWay] at hwoken hleaving hlength ⊢
  omega

/-! ## The invariant -/

/-- The invariant of the queue. The mutex guards it; while a thread waits, each message has a thread
on the way to it; and what has been done and seen so far is a trace of a first-in first-out queue
that ends with the present one, in which nobody has looked at an empty queue. -/
structure Kept (s : MessageQueue M) : Prop where
  guarded : Guarded s.threads s.mutex s.queue
  waits : Sufficient s.threads s.queue
  trace : Fifo.Trace [] s.trace s.queue
  read : ∀ l ∈ s.trace, ¬ l.Drops

theorem kept_new (count : Nat) : Kept (new count : MessageQueue M) where
  guarded := by
    have hidle : ∀ (i : Nat) (pc : Pc M), (List.replicate count Pc.idle)[i]? = some pc →
        pc = .idle :=
      fun i pc h => List.eq_of_mem_replicate (List.mem_of_getElem? h)
    constructor
    · intro i
      refine iff_of_false (fun h => nomatch h) ?_
      rintro ⟨pc, hpc, hlocks⟩
      rw [hidle i pc hpc] at hlocks
      cases hlocks
    · intro i pc hpc
      rw [hidle i pc hpc]
      trivial
  waits := fun h => by cases List.eq_of_mem_replicate h
  trace := .nil []
  read := nofun

/-- A thread locks. -/
theorem kept_lock {s s' : MessageQueue M} {i : Nat} {pc pc' : Pc M} (h : Kept s)
    (hi : s.threads[i]? = some pc) (hs : lock i pc' s = some s') (hlocks : pc'.locks = true)
    (hfits : pc'.Fits s.queue) (hwaiting : pc' ≠ .waiting)
    (hway : pc.onTheWay ≤ pc'.onTheWay) : Kept s' := by
  rw [lock] at hs
  split at hs
  case h_1 hfree =>
    rw [← Option.some.inj hs]
    refine ⟨guarded_set h.guarded hi (iff_of_true rfl hlocks) (fun j hj => ?_) hfits (.inl rfl),
      sufficient_set h.waits hi (.inr ⟨hwaiting, Nat.add_le_add_left hway _⟩), h.trace, h.read⟩
    rw [hfree]
    exact iff_of_false (fun heq => hj (Option.some.inj heq).symm) (fun heq => by cases heq)
  case h_2 => cases hs

/-- A thread moves without touching the queue or the mutex. -/
theorem kept_move {s : MessageQueue M} {i : Nat} {pc pc' : Pc M} (h : Kept s)
    (hi : s.threads[i]? = some pc) (hlocks : pc'.locks = pc.locks) (hfits : pc'.Fits s.queue)
    (hwaiting : pc' ≠ .waiting) (hway : s.queue = [] ∨ pc.onTheWay ≤ pc'.onTheWay) :
    Kept (move i pc' s) := by
  refine ⟨guarded_set h.guarded hi ?_ (fun _ _ => Iff.rfl) hfits (.inl rfl),
    sufficient_set h.waits hi (hway.imp_right fun hway => ⟨hwaiting, Nat.add_le_add_left hway _⟩),
    h.trace, h.read⟩
  rw [hlocks]
  exact (h.guarded.owner i).trans
    ⟨fun ⟨_, heq, h⟩ => Option.some.inj (heq.symm.trans hi) ▸ h, fun h => ⟨pc, hi, h⟩⟩

/-- The thread with the lock unlocks. -/
theorem kept_unlock {s : MessageQueue M} {i : Nat} {pc pc' : Pc M} (h : Kept s)
    (hi : s.threads[i]? = some pc) (hown : s.mutex = some i) (hlocks : pc'.locks = false)
    (hcount : s.queue = [] ∨ pc' ≠ .waiting ∧ pc.onTheWay ≤ pc'.onTheWay) :
    Kept { move i pc' s with mutex := none } := by
  refine ⟨guarded_set h.guarded hi (iff_of_false (by simp) (by simp [hlocks])) (fun j hj => ?_)
    (fits_of_not_locks hlocks _) (.inl rfl),
    sufficient_set h.waits hi (hcount.imp_right fun hc => ⟨hc.1, Nat.add_le_add_left hc.2 _⟩),
    h.trace, h.read⟩
  rw [hown]
  exact iff_of_false (fun heq => by cases heq) (fun heq => hj (Option.some.inj heq).symm)

/-- The thread with the lock changes the queue. -/
theorem kept_change {s : MessageQueue M} {i : Nat} {pc pc' : Pc M} (h : Kept s)
    (hi : s.threads[i]? = some pc) (hown : s.mutex = some i) (hlocks : pc'.locks = true)
    {queue : List M} {l : Fifo.Label M} (hfits : pc'.Fits queue) (hstep : Fifo.Step s.queue l queue)
    (hread : ¬ l.Drops) (hwaiting : pc' ≠ .waiting)
    (hcount : queue = [] ∨ queue.length + pc.onTheWay ≤ s.queue.length + pc'.onTheWay) :
    Kept { move i pc' s with queue := queue, trace := s.trace ++ [l] } := by
  refine ⟨guarded_set h.guarded hi (iff_of_true hown hlocks) (fun _ _ => Iff.rfl) hfits (.inr hown),
    sufficient_set h.waits hi (hcount.imp_right fun hcount => ⟨hwaiting, hcount⟩),
    h.trace.snoc hstep, fun l' hl' => ?_⟩
  rcases List.mem_append.mp hl' with hl' | hl'
  · exact h.read l' hl'
  · exact List.mem_singleton.mp hl' ▸ hread

/-- A producer notifies. It wakes a waiting thread, which is then on the way in its place, or finds
that nobody waits. -/
theorem kept_notify {s s' : MessageQueue M} {i wakes : Nat} (h : Kept s)
    (hi : s.threads[i]? = some .notifying) (hs : notify i wakes s = some s') : Kept s' := by
  rw [notify] at hs
  split at hs
  case isTrue =>
    split at hs
    case h_1 hwakes =>
      have hne : wakes ≠ i := by
        rintro rfl
        rw [hwakes] at hi
        cases hi
      have hwoken : Kept (move wakes .woken s) :=
        kept_move h hwakes rfl trivial nofun (.inr (Nat.zero_le _))
      have hi' : (move wakes .woken s).threads[i]? = some .notifying :=
        (List.getElem?_set_ne hne).trans hi
      have hown := (h.guarded.owner i).mpr ⟨.notifying, hi, rfl⟩
      rw [← Option.some.inj hs]
      exact ⟨guarded_set hwoken.guarded hi' (iff_of_true hown rfl) (fun _ _ => Iff.rfl) trivial
        (.inl rfl), sufficient_notify h.waits hi hwakes, h.trace, h.read⟩
    case h_2 => cases hs
  case isFalse hnone =>
    have hown := (h.guarded.owner i).mpr ⟨.notifying, hi, rfl⟩
    rw [← Option.some.inj hs]
    refine ⟨guarded_set h.guarded hi (iff_of_true hown rfl) (fun _ _ => Iff.rfl) trivial
      (.inl rfl), fun hwaiting => ?_, h.trace, h.read⟩
    -- nobody waits
    have hbefore : .waiting ∈ s.threads :=
      (List.mem_or_eq_of_mem_set hwaiting).resolve_right nofun
    exact absurd (any_isWaiting.mpr hbefore) hnone

theorem kept_testing {s s' : MessageQueue M} {i wakes : Nat} {isBlocked : Bool} (h : Kept s)
    (hi : s.threads[i]? = some (.testing isBlocked))
    (hs : go i wakes s (.testing isBlocked) = some s') : Kept s' := by
  have hown := (h.guarded.owner i).mpr ⟨_, hi, rfl⟩
  cases hqueue : s.queue with
  | cons msg rest =>
    simp only [go, hqueue] at hs
    rw [← Option.some.inj hs]
    refine kept_move h hi rfl ?_ nofun (.inr le_rfl)
    exact fun hnil => nomatch hqueue.symm.trans hnil
  | nil =>
    cases isBlocked with
    | true =>
      simp only [go, hqueue] at hs
      rw [← Option.some.inj hs]
      exact kept_unlock h hi hown rfl (.inl hqueue)
    | false =>
      simp only [go, hqueue] at hs
      have hsaw : Fifo.Step s.queue (.saw 0 none) [] := by
        rw [hqueue]
        exact .saw_none le_rfl
      rw [← Option.some.inj hs]
      have hkept := kept_change h hi hown rfl (show Pc.Fits [] .leaving from trivial) hsaw
        id nofun (.inl rfl)
      rwa [← hqueue] at hkept

/-- **A thread inside a function goes on.** Under the mutex it has the queue to itself, so that what
it has tested is still so when it takes the element in front; outside it only waits, or wakes
others. -/
theorem kept_go {s s' : MessageQueue M} {i wakes : Nat} {pc : Pc M} (h : Kept s)
    (hi : s.threads[i]? = some pc) (hs : go i wakes s pc = some s') : Kept s' := by
  have hown : pc.locks = true → s.mutex = some i := fun hlocks =>
    (h.guarded.owner i).mpr ⟨pc, hi, hlocks⟩
  cases pc with
  | idle | waiting | undefined => cases hs
  | push msg => exact kept_lock h hi hs rfl trivial nofun le_rfl
  | pop isBlocked => exact kept_lock h hi hs rfl trivial nofun (Nat.zero_le _)
  | woken => exact kept_lock h hi hs rfl trivial nofun le_rfl
  | notifying => exact kept_notify h hi hs
  | testing isBlocked => exact kept_testing h hi hs
  -- the message is put, and a wake-up is owed for it
  | pushing msg =>
    rw [← Option.some.inj hs]
    refine kept_change h hi (hown rfl) rfl trivial (.put s.queue [msg]) id
      nofun (.inr ?_)
    rw [List.length_append]
    exact le_rfl
  | front =>
    rw [go] at hs
    split at hs
    case h_1 msg rest hqueue =>
      rw [← Option.some.inj hs]
      exact kept_move h hi rfl ⟨rest, hqueue⟩ nofun (.inr le_rfl)
    -- the queue is not empty, as the thread has tested
    case h_2 hqueue => exact absurd hqueue (h.guarded.fits i _ hi)
  -- the element that is popped is the one whose content has been moved out
  | moved msg =>
    obtain ⟨rest, hqueue⟩ := h.guarded.fits i _ hi
    simp only [go, hqueue] at hs
    have htook : Fifo.Step s.queue (.took [msg]) rest := hqueue ▸ .took [msg] rest
    rw [← Option.some.inj hs]
    refine kept_change h hi (hown rfl) rfl trivial htook id nofun (.inr ?_)
    rw [hqueue, List.length_cons]
    exact le_rfl
  | leaving =>
    rw [← Option.some.inj hs]
    exact kept_unlock h hi (hown rfl) rfl (.inr ⟨nofun, le_rfl⟩)

theorem kept_step {s s' : MessageQueue M} {a : Action M} (h : Kept s) (hs : step s a = some s') :
    Kept s' := by
  cases a with
  | push i msg =>
    rw [step] at hs
    split at hs
    case h_1 hi =>
      exact Option.some.inj hs ▸ kept_move h hi rfl trivial nofun (.inr le_rfl)
    case h_2 => cases hs
  | pop i isBlocked =>
    rw [step] at hs
    split at hs
    case h_1 hi =>
      exact Option.some.inj hs ▸ kept_move h hi rfl trivial nofun (.inr le_rfl)
    case h_2 => cases hs
  | go i wakes =>
    obtain ⟨pc, hi, hgo⟩ := Option.bind_eq_some_iff.mp hs
    exact kept_go h hi hgo
  | spurious i =>
    rw [step] at hs
    split at hs
    case h_1 hi =>
      exact Option.some.inj hs ▸ kept_move h hi rfl trivial nofun
        (.inr (Nat.zero_le _))
    case h_2 => cases hs

theorem kept_run {count : Nat} {as : List (Action M)} {s : MessageQueue M}
    (hrun : run step (new count) as = some s) : Kept s :=
  invariant_of_run Kept (fun _ _ _ => kept_step) (kept_new count) hrun

/-- **The messages.** However the threads are interleaved, what their calls do to the queue and see
of it is what they would do one after another: the messages popped are the first of those pushed, in
that order and each once. No thread ever calls `front` or `pop` on an empty queue. -/
theorem linearizable (count : Nat) (as : List (Action M)) (s : MessageQueue M)
    (hrun : run step (new count) as = some s) :
    Fifo.Trace [] s.trace s.queue ∧ Fifo.puts s.trace = Fifo.taken s.trace ++ s.queue ∧
      ∀ i : Nat, s.threads[i]? ≠ some .undefined := by
  have h := kept_run hrun
  refine ⟨h.trace, ?_, fun i hi => h.guarded.fits i _ hi⟩
  rw [← h.trace.fifo h.read, List.nil_append]

/-- Thread 0 waits; 1 and 2 push, and 2 does so before thread 0 has come to the message it was
woken for. -/
def wokenPop : List (Action Nat) :=
  [.pop 0 true, .go 0 0, .go 0 0, .push 1 7, .go 1 0, .go 1 0, .push 2 8, .go 1 0, .go 1 0, .go 2 0,
    .go 2 0, .go 2 0, .go 2 0, .go 0 0, .go 0 0, .go 0 0, .go 0 0]

/-- Where it ends. -/
def popped : MessageQueue Nat where
  queue := [8]
  mutex := some 0
  threads := [.leaving, .idle, .idle]
  trace := [.put [7], .put [8], .took [7]]

theorem linearizable_wokenPop :
    Fifo.Trace [] popped.trace [8] ∧ Fifo.puts popped.trace = Fifo.taken popped.trace ++ [8] ∧
      ∀ i : Nat, popped.threads[i]? ≠ some .undefined :=
  linearizable 3 wokenPop popped rfl

end MessageQueue

/-! ## The worker's messages

`Put` and the `Pop` of `svc` are single steps of `PssClient.Tms`. They are those of the trace. -/

namespace Tms

variable {M : Type*}

theorem addMessage_of_put {tms : Tms M} {id : Nat} {task : LogicTask M} {msg : M} {queue : List M}
    (h : tms.mapLogicList id = some task)
    (hstep : Fifo.Step task.threadQueue (.put [msg]) queue) :
    tms.addMessage id msg = tms.set id { task with threadQueue := queue } := by
  rw [addMessage_of_some h msg, Fifo.Step.put_inv hstep]

theorem pop_iff_took {tms tms' : Tms M} {id : Nat} {threadQueue : List M}
    (h : tms.mapLogicList id = some ⟨threadQueue, .idle⟩) :
    tms.pop id = some tms' ↔ ∃ msg queue, Fifo.Step threadQueue (.took [msg]) queue ∧
      tms' = tms.set id ⟨queue, .taken msg⟩ := by
  constructor
  · intro hpop
    cases threadQueue with
    | nil =>
      rw [pop, h] at hpop
      cases hpop
    | cons msg queue =>
      rw [pop_of_idle h] at hpop
      exact ⟨msg, queue, .took [msg] queue, (Option.some.inj hpop).symm⟩
  · rintro ⟨msg, queue, hstep, rfl⟩
    rw [hstep.took_inv, List.singleton_append] at h
    exact pop_of_idle h

end Tms

end PssClient
