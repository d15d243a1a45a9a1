import PssClient.Tms.MessageQueue

/-!
# No lost wake-up

The threads of a message queue, left to themselves: nothing new is called, and no `wait` returns by
itself.

* `rank` — how many steps they can take at most.
* `go_of_locks` / `idle_or_waiting` — who can take none has no lock, and is out of its function or
  waits.
* `none_left_waiting` — the result: the threads come to a stop, and none of them waits for a message
  that is there.
-/

namespace PssClient.MessageQueue

open Machine

variable {M : Type*}

/-- The most steps a thread takes until it is out of its function or waits; `notify_one` pays for
the thread it wakes. -/
def Pc.rank : Pc M → Nat
  | .idle | .waiting | .undefined => 0
  | .leaving => 1
  | .moved _ => 2
  | .front => 3
  | .testing _ => 4
  | .pop _ | .woken => 5
  | .notifying => 7
  | .pushing _ => 8
  | .push _ => 9

def rank (s : MessageQueue M) : Nat := (s.threads.map Pc.rank).sum

theorem rank_move {s : MessageQueue M} {i : Nat} {pc : Pc M} (hi : s.threads[i]? = some pc)
    (pc' : Pc M) : rank (move i pc' s) + pc.rank = rank s + pc'.rank :=
  List.sum_map_set hi Pc.rank pc'

theorem rank_lt {s t s' : MessageQueue M} {i : Nat} {pc : Pc M} (pc' : Pc M)
    (hi : s.threads[i]? = some pc) (hs : some t = some s') (ht : t.threads = s.threads.set i pc')
    (hrank : pc'.rank < pc.rank) : rank s' < rank s := by
  have hmove := rank_move hi pc'
  have heq : rank t = rank (move i pc' s) := by
    rw [rank, ht]
    rfl
  rw [← Option.some.inj hs]
  omega

theorem rank_lock {s s' : MessageQueue M} {i : Nat} {pc pc' : Pc M} (hi : s.threads[i]? = some pc)
    (hs : lock i pc' s = some s') (hrank : pc'.rank < pc.rank) : rank s' < rank s := by
  rw [lock] at hs
  split at hs
  case h_1 => exact rank_lt pc' hi hs rfl hrank
  case h_2 => cases hs

theorem rank_notify {s s' : MessageQueue M} {i wakes : Nat} (hi : s.threads[i]? = some .notifying)
    (hs : notify i wakes s = some s') : rank s' < rank s := by
  rw [notify] at hs
  split at hs
  case isTrue =>
    split at hs
    case h_1 hwakes =>
      have hne : wakes ≠ i := by
        rintro rfl
        rw [hwakes] at hi
        cases hi
      have hi' : (move wakes .woken s).threads[i]? = some .notifying :=
        (List.getElem?_set_ne hne).trans hi
      have hwoken := rank_move hwakes .woken
      have hleaving := rank_move hi' .leaving
      rw [← Option.some.inj hs]
      simp only [Pc.rank] at hwoken hleaving
      omega
    case h_2 => cases hs
  case isFalse => exact rank_lt .leaving hi hs rfl (show 1 < 7 by decide)

/-- **Every step brings its thread nearer to the end of its function.** The numbers count the steps
that are left at most; `Push` has more than `Pop`, since what it owes a thread that it wakes is part
of it. -/
theorem rank_go {s s' : MessageQueue M} {i wakes : Nat} (hs : step s (.go i wakes) = some s') :
    rank s' < rank s := by
  obtain ⟨pc, hi, hgo⟩ := Option.bind_eq_some_iff.mp hs
  cases pc with
  | idle | waiting | undefined => cases hgo
  | push msg => exact rank_lock hi hgo (show 8 < 9 by decide)
  | pop isBlocked => exact rank_lock hi hgo (show 4 < 5 by decide)
  | woken => exact rank_lock hi hgo (show 4 < 5 by decide)
  | notifying => exact rank_notify hi hgo
  | pushing msg => exact rank_lt .notifying hi hgo rfl (show 7 < 8 by decide)
  | leaving => exact rank_lt .idle hi hgo rfl (show 0 < 1 by decide)
  | testing isBlocked =>
    cases hqueue : s.queue with
    | cons msg rest =>
      simp only [go, hqueue] at hgo
      exact rank_lt .front hi hgo rfl (show 3 < 4 by decide)
    | nil =>
      cases isBlocked with
      | true =>
        simp only [go, hqueue] at hgo
        exact rank_lt .waiting hi hgo rfl (show 0 < 4 by decide)
      | false =>
        simp only [go, hqueue] at hgo
        exact rank_lt .leaving hi hgo rfl (show 1 < 4 by decide)
  | front =>
    rw [go] at hgo
    split at hgo
    case h_1 msg _ _ => exact rank_lt (.moved msg) hi hgo rfl (show 2 < 3 by decide)
    case h_2 => exact rank_lt .undefined hi hgo rfl (show 0 < 3 by decide)
  | moved msg =>
    rw [go] at hgo
    split at hgo
    case h_1 => exact rank_lt .leaving hi hgo rfl (show 1 < 2 by decide)
    case h_2 => exact rank_lt .undefined hi hgo rfl (show 0 < 2 by decide)

/-! ## They come to a stop -/

/-- A thread takes its next step. -/
def Action.Goes : Action M → Prop
  | .go _ _ => True
  | _ => False

/-- Threads that are left to themselves take finitely many steps. -/
theorem length_add_rank_le_of_goes {s t : MessageQueue M} {gos : List (Action M)}
    (hgos : ∀ a ∈ gos, a.Goes) (hrun : run step s gos = some t) :
    gos.length + rank t ≤ rank s := by
  refine length_add_rank_le (fun _ => True) rank (fun s a s' _ ha hs => ⟨trivial, ?_⟩) trivial
    (meets_of_forall hgos s) hrun
  cases a with
  | go i wakes => exact rank_go hs
  | push | pop | spurious => exact ha.elim

/-! ## Where they stop -/

/-- No thread can take a step. -/
def Stopped (s : MessageQueue M) : Prop := ∀ i wakes, step s (.go i wakes) = none

/-- The thread with the lock can always go on. -/
theorem go_of_locks {s : MessageQueue M} {i : Nat} {pc : Pc M} (h : Kept s)
    (hi : s.threads[i]? = some pc) (hlocks : pc.locks = true) :
    ∃ wakes s', go i wakes s pc = some s' := by
  cases pc with
  | idle | push | pop | waiting | woken => cases hlocks
  | undefined => exact (h.guarded.fits i _ hi).elim
  | pushing | leaving => exact ⟨0, _, rfl⟩
  | notifying =>
    by_cases hwaiting : .waiting ∈ s.threads
    · obtain ⟨wakes, hwakes⟩ := List.mem_iff_getElem?.mp hwaiting
      refine ⟨wakes, move i .leaving (move wakes .woken s), ?_⟩
      rw [go, notify, if_pos (any_isWaiting.mpr hwaiting), hwakes]
    · refine ⟨0, move i .leaving s, ?_⟩
      rw [go, notify, if_neg fun hany => hwaiting (any_isWaiting.mp hany)]
  | testing isBlocked =>
    cases hqueue : s.queue with
    | cons msg rest => exact ⟨0, move i .front s, by simp only [go, hqueue]⟩
    | nil =>
      cases isBlocked with
      | true => exact ⟨0, { move i .waiting s with mutex := none }, by simp only [go, hqueue]⟩
      | false =>
        exact ⟨0, { move i .leaving s with trace := s.trace ++ [.saw 0 none] }, by
          simp only [go, hqueue]⟩
  | front =>
    cases hqueue : s.queue with
    | cons msg rest => exact ⟨0, move i (.moved msg) s, by simp only [go, hqueue]⟩
    | nil => exact absurd hqueue (h.guarded.fits i _ hi)
  | moved msg =>
    obtain ⟨rest, hqueue⟩ := h.guarded.fits i _ hi
    exact ⟨0, { move i .leaving s with queue := rest, trace := s.trace ++ [.took [msg]] }, by
      simp only [go, hqueue]⟩

theorem mutex_of_stopped {s : MessageQueue M} (h : Kept s) (hstopped : Stopped s) :
    s.mutex = none := by
  apply Option.eq_none_iff_forall_ne_some.mpr
  intro i hmutex
  obtain ⟨pc, hi, hlocks⟩ := (h.guarded.owner i).mp hmutex
  obtain ⟨wakes, s', hgo⟩ := go_of_locks h hi hlocks
  have hstep := hstopped i wakes
  rw [step, hi, Option.bind_some, hgo] at hstep
  cases hstep

/-- So a thread that has stopped is out of its function, or waits. -/
theorem idle_or_waiting {s : MessageQueue M} (h : Kept s) (hstopped : Stopped s) {i : Nat}
    {pc : Pc M} (hi : s.threads[i]? = some pc) : pc = .idle ∨ pc = .waiting := by
  have hfree := mutex_of_stopped h hstopped
  have hstep : go i 0 s pc = none := by
    have hnone := hstopped i 0
    rwa [step, hi, Option.bind_some] at hnone
  cases pc with
  | idle => exact .inl rfl
  | waiting => exact .inr rfl
  | push | pop | woken =>
    rw [go, lock, hfree] at hstep
    cases hstep
  | pushing | notifying | testing | front | moved | leaving | undefined =>
    rw [(h.guarded.owner i).mpr ⟨_, hi, rfl⟩] at hfree
    cases hfree

theorem queue_of_stopped {s : MessageQueue M} (h : Kept s) (hstopped : Stopped s)
    (hwaiting : .waiting ∈ s.threads) : s.queue = [] := by
  have hsum : (s.threads.map Pc.onTheWay).sum = 0 := by
    apply List.sum_eq_zero
    intro way hway
    obtain ⟨pc, hpc, rfl⟩ := List.mem_map.mp hway
    obtain ⟨i, hi⟩ := List.mem_iff_getElem?.mp hpc
    rcases idle_or_waiting h hstopped hi with rfl | rfl <;> rfl
  have hlength := h.waits hwaiting
  rw [hsum] at hlength
  exact List.length_eq_zero_iff.mp (Nat.le_zero.mp hlength)

/-- **No lost wake-up.** From wherever a run has come to, the threads come to a stop when nothing
new is called and no `wait` returns by itself, in whatever order they go on. When they have
stopped, the mutex is free, each of them is out of its function or waits in `Pop`, and none waits
unless the queue is empty. -/
theorem none_left_waiting (count : Nat) (as gos : List (Action M)) (s t : MessageQueue M)
    (hrun : run step (new count) as = some s) (hgos : ∀ a ∈ gos, a.Goes)
    (hleft : run step s gos = some t) :
    gos.length + rank t ≤ rank s ∧ (Stopped t → t.mutex = none ∧
      (∀ (i : Nat) (pc : Pc M), t.threads[i]? = some pc → pc = .idle ∨ pc = .waiting) ∧
      (.waiting ∈ t.threads → t.queue = [])) := by
  have h : Kept t := kept_run (run_append.mpr ⟨s, hrun, hleft⟩)
  exact ⟨length_add_rank_le_of_goes hgos hleft, fun hstopped => ⟨mutex_of_stopped h hstopped,
    fun i pc hi => idle_or_waiting h hstopped hi, queue_of_stopped h hstopped⟩⟩

/-- Thread 0 has been woken for a message; thread 2 is about to be faster. -/
def stolen : List (Action Nat) :=
  [.pop 0 true, .go 0 0, .go 0 0, .push 1 7, .go 1 0, .go 1 0, .go 1 0, .pop 2 true]

def waitsAgain : List (Action Nat) :=
  [.go 1 0, .go 2 0, .go 2 0, .go 2 0, .go 2 0, .go 2 0, .go 0 0, .go 0 0]

theorem none_left_waiting_stolen :
    ∃ s t : MessageQueue Nat, run step (new 3) stolen = some s ∧ run step s waitsAgain = some t ∧
      8 + rank t ≤ rank s ∧ t.mutex = none ∧ t.threads[0]? = some .waiting ∧ t.queue = [] := by
  let s : MessageQueue Nat :=
    { queue := [7], mutex := some 1, threads := [.woken, .leaving, .pop true], trace := [.put [7]] }
  let t : MessageQueue Nat :=
    { threads := [.waiting, .idle, .idle], trace := [.put [7], .took [7]] }
  have hstopped : Stopped t := fun i _ => match i with
    | 0 | 1 | 2 => rfl
    | _ + 3 => rfl
  have hgos : ∀ a ∈ waitsAgain, a.Goes := by
    intro a ha
    simp only [waitsAgain, List.mem_cons, List.not_mem_nil, or_false] at ha
    rcases ha with rfl | rfl | rfl | rfl | rfl | rfl | rfl | rfl <;> trivial
  obtain ⟨hrank, hends⟩ := none_left_waiting 3 stolen waitsAgain s t rfl hgos rfl
  obtain ⟨hmutex, -, hempty⟩ := hends hstopped
  exact ⟨s, t, rfl, rfl, hrank, hmutex, rfl, hempty List.mem_cons_self⟩

end PssClient.MessageQueue
