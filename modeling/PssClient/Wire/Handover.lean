import PssClient.Wire.Spsc

/-!
# What goes through the ring buffer

However the accesses of the producer and of the consumer are interleaved, what both of them see is
what they would see of a queue: its operations happen when `head` and when `tail` is stored.

* `Producing` / `Consuming` — what the place of either side says about the cells it goes through.
  The cells of one side are never those of the other.
* `Kept` — the invariant, with the trace so far.
* `kept_produce` / `kept_consume` — each access keeps it.
* `handover` — the result.
-/

namespace Circular

variable {α : Type*} {n : Nat} [NeZero n]

/-- Writing a cell behind a window leaves the window. -/
theorem window_put_behind (data : Vector α n) {start len j : Nat} (x : α) (h : len + j < n) :
    window (put data (slot n (start + (len + j))) x) start len = window data start len := by
  apply List.map_congr_left
  intro i hi
  have hlt : i < len := List.mem_range.mp hi
  exact get_put_ne data x (slot_ne (show i < len + j by omega) h).symm

end Circular

namespace PssClient.Spsc

open Circular Machine Fifo

variable {T : Type*} {n : Nat} [BufferSize n]

/-! ## The cells of either side -/

/-- The producer's cells are those from the head on, and there is room for them. -/
def Producing (s : Spsc T n) : ProducerPc T → Prop
  | .idle => True
  | .loadTail kind tmpHead buff _ =>
    tmpHead = s.head ∧ match kind with
      | .insert => buff.length = 1
      | _ => True
  | .write _ tmpHead written todo _ =>
    tmpHead = (s.head + written.length) % sizeMod ∧
      s.fill + (written.length + todo.length) ≤ n ∧
      window s.dataBuff s.head written.length = written
  | .callback tmpHead _ => tmpHead = s.head

/-- The consumer's cells are those from the tail on, and they are in the queue. -/
def Consuming (s : Spsc T n) : ConsumerPc T → Prop
  | .idle => True
  | .loadHead _ tmpTail _ _ => tmpTail = s.tail
  | .look tmpTail index => tmpTail = s.tail ∧ index < s.fill
  | .read _ tmpTail got toRead _ =>
    tmpTail = (s.tail + got.length) % sizeMod ∧ got.length + toRead ≤ s.fill ∧
      got = s.queue.take got.length
  | .skip tmpTail cnt => tmpTail = s.tail ∧ cnt ≤ s.fill
  | .clear tmpHead => ∃ k ≤ s.fill, tmpHead = (s.tail + k) % sizeMod
  | .callback tmpTail _ => tmpTail = s.tail

/-- The invariant behind the refinement. Both indices are inside the array, what lies between them
is no more than it holds, each thread is where its own loads have put it, and what has been seen so
far is a trace of a queue that ends with what lies between the indices. -/
structure Kept (s : Spsc T n) : Prop where
  head_lt : s.head < sizeMod
  tail_lt : s.tail < sizeMod
  fill_le : s.fill ≤ n
  producing : Producing s s.producer
  consuming : Consuming s s.consumer
  trace : Trace [] s.trace s.queue

theorem length_queue (s : Spsc T n) : s.queue.length = s.fill := length_window ..

theorem kept_new (junk : Vector T n) : Kept (new junk) where
  head_lt := sizeMod_pos
  tail_lt := sizeMod_pos
  fill_le := by
    rw [fill, new, indexDiff_self]
    exact Nat.zero_le n
  producing := trivial
  consuming := trivial
  trace := by
    have hempty : (new junk).queue = [] := by
      rw [queue, fill, new, indexDiff_self]
      rfl
    rw [hempty]
    exact .nil []

/-! ## The indices -/

theorem Kept.fill_lt {s : Spsc T n} (h : Kept s) : s.fill < sizeMod := by
  have hhalf := BufferSize.le_half n
  have hfill := h.fill_le
  unfold sizeMod
  omega

theorem Kept.add_fill {s : Spsc T n} (h : Kept s) : (s.tail + s.fill) % sizeMod = s.head :=
  add_indexDiff h.head_lt h.tail_lt

/-- The free cells begin at the head. -/
theorem Kept.head_mod {s : Spsc T n} (h : Kept s) : s.head % n = (s.tail + s.fill) % n := by
  rw [← h.add_fill, mod_sizeMod_mod]

/-- `available` of the producer is what is free. -/
theorem Kept.indexDiff_fill {s : Spsc T n} (h : Kept s) : indexDiff n s.fill = n - s.fill := by
  have hhalf := BufferSize.le_half n
  have hfill := h.fill_le
  unfold indexDiff sizeMod
  omega

theorem cellAt_mod (i : Nat) : cellAt n (i % sizeMod) = slot n i := by
  ext
  rw [cellAt, val_slot, val_slot, and_mask_eq_mod, Nat.mod_mod, mod_sizeMod_mod]

/-- The cell of an element is where the queue has it. -/
theorem getElem?_queue (s : Spsc T n) {i : Nat} (h : i < s.fill) :
    s.queue[i]? = some (s.dataBuff.get (cellAt n ((s.tail + i) % sizeMod))) := by
  rw [cellAt_mod]
  exact getElem?_window s.dataBuff s.tail h

/-! ## Steps that move no index and write no cell -/

/-- The producer has seen something and is at another place. -/
theorem kept_produced {s : Spsc T n} (h : Kept s) {l : Label T} {pc : ProducerPc T}
    (hstep : Step s.queue l s.queue) (hpc : Producing s pc) : Kept (produced l pc s) :=
  ⟨h.head_lt, h.tail_lt, h.fill_le, hpc, h.consuming, .snoc h.trace hstep⟩

theorem kept_consumed {s : Spsc T n} (h : Kept s) {l : Label T} {pc : ConsumerPc T}
    (hstep : Step s.queue l s.queue) (hpc : Consuming s pc) : Kept (consumed l pc s) :=
  ⟨h.head_lt, h.tail_lt, h.fill_le, h.producing, hpc, .snoc h.trace hstep⟩

/-- Neither side has seen anything. -/
theorem Kept.producer {s : Spsc T n} (h : Kept s) {pc : ProducerPc T} (hpc : Producing s pc) :
    Kept { s with producer := pc } :=
  ⟨h.head_lt, h.tail_lt, h.fill_le, hpc, h.consuming, h.trace⟩

theorem Kept.consumer {s : Spsc T n} (h : Kept s) {pc : ConsumerPc T} (hpc : Consuming s pc) :
    Kept { s with consumer := pc } :=
  ⟨h.head_lt, h.tail_lt, h.fill_le, h.producing, hpc, h.trace⟩

theorem step_length (s : Spsc T n) : Step s.queue (.length s.fill) s.queue :=
  .length_eq (length_queue s)

/-! ## The producer -/

/-- **What the producer finds room for it may write.** The consumer can only make more room, so that
the room that the producer has seen is there for as long as it writes. -/
theorem producing_afterTail {s : Spsc T n} (h : Kept s) {kind : WriteKind} {tmpHead : Nat}
    {buff : List T} {toWrite : Nat} (hpc : Producing s (.loadTail kind tmpHead buff toWrite)) :
    Producing s (afterTail n kind tmpHead buff toWrite s.fill) := by
  obtain ⟨rfl, hone⟩ := hpc
  have hfill := h.fill_le
  -- a writer that begins has written nothing yet
  have hstart : ∀ todo rest : List T, s.fill + todo.length ≤ n →
      Producing s (.write kind s.head [] todo rest) := by
    intro todo rest hroom
    refine ⟨?_, ?_, rfl⟩
    · exact (Nat.mod_eq_of_lt h.head_lt).symm
    · rwa [List.length_nil, Nat.zero_add]
  have hroom : ∀ k, k ≤ n - s.fill → s.fill + (buff.take k).length ≤ n := by
    intro k hk
    have hlength := List.length_take_le k buff
    omega
  unfold afterTail
  rw [h.indexDiff_fill]
  cases kind with
  | insert =>
    dsimp only
    split
    case isTrue => trivial
    case isFalse hfull => exact hstart buff [] (by dsimp only at hone; omega)
  | writeBuff =>
    dsimp only
    exact hstart _ [] (hroom _ (by split <;> omega))
  | writeBuffCallback =>
    dsimp only
    split
    case isTrue => trivial
    case isFalse => exact hstart _ _ (hroom _ (by split <;> omega))

/-- **A cell is written.** It lies behind the cells of the queue, and there is room for it, so that
neither the queue nor what the consumer has copied out of it changes. -/
theorem kept_cell {s : Spsc T n} (h : Kept s) {kind : WriteKind} {tmpHead : Nat} {x : T}
    {written todo buff : List T} (hpc : s.producer = .write kind tmpHead written (x :: todo) buff) :
    Kept { s with
      dataBuff := put s.dataBuff (cellAt n tmpHead) x
      producer := .write kind ((tmpHead + 1) % sizeMod) (written ++ [x]) todo buff } := by
  have hproducing := h.producing
  rw [hpc] at hproducing
  obtain ⟨rfl, hroom, hwritten⟩ := hproducing
  rw [List.length_cons] at hroom
  -- the cell, counted from `tail`
  have hcell : cellAt n ((s.head + written.length) % sizeMod)
      = slot n (s.tail + (s.fill + written.length)) := by
    ext
    rw [cellAt_mod, val_slot, val_slot, ← Nat.add_assoc, Nat.add_mod, h.head_mod, ← Nat.add_mod]
  have hqueue : window (put s.dataBuff (cellAt n ((s.head + written.length) % sizeMod)) x) s.tail
      s.fill = s.queue := by
    rw [hcell, window_put_behind s.dataBuff x (by omega)]
    rfl
  refine ⟨h.head_lt, h.tail_lt, h.fill_le, ?_, ?_, ?_⟩
  · -- the producer has written one element more
    refine ⟨?_, ?_, ?_⟩
    · rw [Nat.mod_add_mod, List.length_append, Nat.add_assoc]
      rfl
    · rw [List.length_append, List.length_singleton]
      show s.fill + _ ≤ n
      omega
    · rw [cellAt_mod, List.length_append, List.length_singleton]
      show window (put s.dataBuff (slot n (s.head + written.length)) x) s.head _ = _
      rw [window_put_succ _ _ (by omega), hwritten]
  · -- the consumer reads what it would have read
    have hconsuming := h.consuming
    revert hconsuming
    show Consuming s s.consumer → Consuming _ s.consumer
    cases s.consumer with
    | read kind tmpTail got toRead count =>
      rintro ⟨htail, hlength, hgot⟩
      exact ⟨htail, hlength, hgot.trans (congrArg _ hqueue.symm)⟩
    | _ => exact id
  · show Trace [] s.trace (window _ s.tail s.fill)
    rw [hqueue]
    exact h.trace

/-- The consumer's cells stay in the queue when it grows. -/
theorem consuming_append {s s' : Spsc T n} {pc : ConsumerPc T} (h : Consuming s pc) {xs : List T}
    (htail : s'.tail = s.tail) (hqueue : s'.queue = s.queue ++ xs) : Consuming s' pc := by
  have hfill : s.fill ≤ s'.fill := by
    rw [← length_queue, ← length_queue, hqueue, List.length_append]
    exact Nat.le_add_right _ _
  cases pc with
  | idle => trivial
  | loadHead kind tmpTail count toRead => exact h.trans htail.symm
  | look tmpTail index => exact ⟨h.1.trans htail.symm, Nat.lt_of_lt_of_le h.2 hfill⟩
  | read kind tmpTail got toRead count =>
    obtain ⟨heq, hlength, hgot⟩ := h
    refine ⟨htail ▸ heq, Nat.le_trans hlength hfill, ?_⟩
    rw [hqueue, List.take_append_of_le_length (by rw [length_queue]; omega)]
    exact hgot
  | skip tmpTail cnt => exact ⟨h.1.trans htail.symm, Nat.le_trans h.2 hfill⟩
  | clear tmpHead =>
    obtain ⟨k, hk, heq⟩ := h
    exact ⟨k, Nat.le_trans hk hfill, htail ▸ heq⟩
  | callback tmpTail count => exact h.trans htail.symm

theorem producing_afterHead {s : Spsc T n} (kind : WriteKind) {tmpHead : Nat}
    (hhead : tmpHead = s.head) (buff : List T) : Producing s (afterHead kind tmpHead buff) := by
  cases kind with
  | writeBuffCallback => exact hhead
  | _ => trivial

/-- **`head` is stored.** From here on the elements that have been written are in the queue, all at
once; for the consumer they are at its end. -/
theorem kept_storeHead {s : Spsc T n} (h : Kept s) {kind : WriteKind} {tmpHead : Nat}
    {written buff : List T} (hpc : s.producer = .write kind tmpHead written [] buff) :
    Kept (produced (.put written) (afterHead kind tmpHead buff) { s with head := tmpHead }) := by
  have hproducing := h.producing
  rw [hpc] at hproducing
  obtain ⟨rfl, hroom, hwritten⟩ := hproducing
  have hhalf := BufferSize.le_half n
  rw [List.length_nil, Nat.add_zero] at hroom
  -- the queue is longer by what has been written
  have hfill : indexDiff ((s.head + written.length) % sizeMod) s.tail = s.fill + written.length :=
    indexDiff_add_head h.head_lt h.tail_lt (by
      show s.fill + _ < _
      unfold sizeMod
      omega)
  have hqueue : (produced (.put written)
      (afterHead kind ((s.head + written.length) % sizeMod) buff)
      { s with head := (s.head + written.length) % sizeMod }).queue = s.queue ++ written := by
    show window s.dataBuff s.tail (indexDiff ((s.head + written.length) % sizeMod) s.tail) = _
    rw [hfill, window_add, ← window_congr s.dataBuff written.length h.head_mod, hwritten]
    rfl
  refine ⟨Nat.mod_lt _ sizeMod_pos, h.tail_lt, hfill.trans_le hroom, ?_, ?_, ?_⟩
  · exact producing_afterHead kind rfl buff
  · show Consuming _ s.consumer
    exact consuming_append h.consuming rfl hqueue
  · refine .snoc h.trace ?_
    rw [hqueue]
    exact .put s.queue written

theorem kept_produce {s s' : Spsc T n} (h : Kept s) (hs : produce s = some s') : Kept s' := by
  unfold produce at hs
  split at hs
  case h_1 => cases hs
  case h_2 kind tmpHead buff toWrite hpc =>
    cases hs
    have hproducing := h.producing
    rw [hpc] at hproducing
    have hpc' := producing_afterTail h hproducing
    obtain ⟨rfl, -⟩ := hproducing
    exact kept_produced h (step_length s) hpc'
  case h_3 kind tmpHead written x todo buff hpc =>
    cases hs
    exact kept_cell h hpc
  case h_4 kind tmpHead written buff hpc =>
    cases hs
    exact kept_storeHead h hpc
  case h_5 tmpHead buff hpc =>
    cases hs
    have hproducing := h.producing
    rw [hpc] at hproducing
    apply h.producer
    split
    · exact ⟨hproducing, trivial⟩
    · trivial

/-! ## The consumer -/

/-- What is behind the head stays free when the queue shrinks. -/
theorem producing_shrink {s s' : Spsc T n} {pc : ProducerPc T} (h : Producing s pc)
    (hhead : s'.head = s.head) (hdata : s'.dataBuff = s.dataBuff) (hfill : s'.fill ≤ s.fill) :
    Producing s' pc := by
  cases pc with
  | idle => trivial
  | loadTail kind tmpHead buff toWrite => exact ⟨h.1.trans hhead.symm, h.2⟩
  | write kind tmpHead written todo buff =>
    obtain ⟨heq, hroom, hwritten⟩ := h
    exact ⟨hhead ▸ heq, by omega, by rw [hhead, hdata]; exact hwritten⟩
  | callback tmpHead buff => exact h.trans hhead.symm

/-- `tail` is stored: the elements in front of it have left. -/
theorem kept_storeTail {s : Spsc T n} (h : Kept s) {k tail : Nat} (hk : k ≤ s.fill)
    (htail : tail = (s.tail + k) % sizeMod) {l : Label T} (hstep : Step s.queue l (s.queue.drop k))
    {pc : ConsumerPc T} (hpc : Consuming (consumed l pc { s with tail := tail }) pc) :
    Kept (consumed l pc { s with tail := tail }) := by
  subst htail
  have hfill : indexDiff s.head ((s.tail + k) % sizeMod) = s.fill - k :=
    indexDiff_add_tail h.head_lt h.tail_lt hk
  have hqueue : (consumed l pc { s with tail := (s.tail + k) % sizeMod }).queue
      = s.queue.drop k := by
    show window s.dataBuff ((s.tail + k) % sizeMod) (indexDiff s.head ((s.tail + k) % sizeMod))
      = (window s.dataBuff s.tail s.fill).drop k
    rw [hfill, drop_window _ hk]
    exact window_congr _ _ (mod_sizeMod_mod n _)
  have hle : (consumed l pc { s with tail := (s.tail + k) % sizeMod }).fill ≤ s.fill :=
    hfill.trans_le (Nat.sub_le _ _)
  refine ⟨h.head_lt, Nat.mod_lt _ sizeMod_pos, Nat.le_trans hle h.fill_le, ?_, hpc, ?_⟩
  · show Producing _ s.producer
    exact producing_shrink h.producing rfl rfl hle
  · refine .snoc h.trace ?_
    rw [hqueue]
    exact hstep

/-- **What the consumer finds it may read.** It has loaded both indices, and the producer can only
add to what lies between them: each call goes on with no more elements than it has seen, or ends
because it has seen none. -/
theorem kept_afterLoad {s : Spsc T n} (h : Kept s) {kind : ReadKind} {tmpTail : Nat}
    (htail : tmpTail = s.tail) (count toRead : Nat) :
    Kept (afterLoad kind tmpTail count toRead s) := by
  subst htail
  have hseen := step_length s
  -- the indices are equal exactly when the queue is empty
  have hnone : s.tail = s.head → s.fill = 0 := by
    intro heq
    rw [fill, heq, indexDiff_self]
  have hsome : s.tail ≠ s.head → 0 < s.fill := by
    intro hne
    refine Nat.pos_of_ne_zero fun hzero => hne ?_
    have hadd := h.add_fill
    rwa [hzero, Nat.add_zero, Nat.mod_eq_of_lt h.tail_lt] at hadd
  -- a reader that begins has taken nothing yet
  have hstart : ∀ toRead count, toRead ≤ s.fill →
      Consuming s (.read kind s.tail [] toRead count) := by
    intro toRead count hle
    exact ⟨(Nat.mod_eq_of_lt h.tail_lt).symm, by rwa [List.length_nil, Nat.zero_add], rfl⟩
  unfold afterLoad
  cases kind with
  -- each of the calls, which differ in how many elements they go on with
  | remove =>
    apply kept_consumed h hseen
    split
    case isTrue => trivial
    case isFalse hne => exact ⟨rfl, hsome hne⟩
  | removeCnt =>
    refine kept_consumed h hseen ⟨rfl, ?_⟩
    show (if count > s.fill then s.fill else count) ≤ s.fill
    split <;> omega
  | removeTo =>
    apply kept_consumed h hseen
    split
    case isTrue => trivial
    case isFalse hne => exact hstart 1 0 (hsome hne)
  | peek =>
    dsimp only
    split
    case isTrue heq =>
      exact kept_consumed h (.saw_none (by rw [length_queue, hnone heq])) trivial
    case isFalse hne => exact kept_consumed h hseen ⟨rfl, hsome hne⟩
  | at? =>
    dsimp only
    split
    case isTrue hle => exact kept_consumed h (.saw_none (by rwa [length_queue])) trivial
    case isFalse hlt => exact kept_consumed h hseen ⟨rfl, Nat.not_le.mp hlt⟩
  | readBuff =>
    refine kept_consumed h hseen (hstart _ _ ?_)
    show (if s.fill < count then s.fill else count) ≤ s.fill
    split <;> omega
  | readBuffCallback =>
    apply kept_consumed h hseen
    split
    case isTrue => trivial
    case isFalse =>
      apply hstart _ _
      show (if toRead > s.fill then s.fill else toRead) ≤ s.fill
      split <;> omega

/-- A cell is read. It holds the next element of the queue. -/
theorem kept_readCell {s : Spsc T n} (h : Kept s) {kind : ReadKind} {tmpTail toRead count : Nat}
    {got : List T} (hpc : Consuming s (.read kind tmpTail got (toRead + 1) count)) :
    Kept { s with
      consumer := .read kind ((tmpTail + 1) % sizeMod)
        (got ++ [s.dataBuff.get (cellAt n tmpTail)]) toRead count } := by
  obtain ⟨rfl, hlength, hgot⟩ := hpc
  refine h.consumer ⟨?_, ?_, ?_⟩
  · rw [Nat.mod_add_mod, List.length_append, Nat.add_assoc]
    rfl
  · rw [List.length_append, List.length_singleton]
    omega
  · have hget := getElem?_queue s (show got.length < s.fill by omega)
    rw [List.length_append, List.length_singleton, List.take_add_one, hget, ← hgot]
    rfl

theorem consuming_afterRead {s : Spsc T n} (kind : ReadKind) {tmpTail : Nat}
    (htail : tmpTail = s.tail) (count : Nat) : Consuming s (afterRead kind tmpTail count) := by
  cases kind with
  | readBuffCallback => exact htail
  | _ => trivial

/-- The consumer makes its next access. What it reads was in the queue when it loaded `head`, and
the producer does not write there: it stores behind the elements that it has seen. -/
theorem kept_consume {s s' : Spsc T n} (h : Kept s) (hs : consume s = some s') : Kept s' := by
  have hconsuming := h.consuming
  unfold consume at hs
  split at hs
  case h_1 => cases hs
  -- `head` is loaded, and the call knows what it may read
  case h_2 kind tmpTail count toRead hpc =>
    cases hs
    rw [hpc] at hconsuming
    exact kept_afterLoad h hconsuming count toRead
  -- `peek` and `at` look at one element and take none
  case h_3 tmpTail index hpc =>
    cases hs
    rw [hpc] at hconsuming
    obtain ⟨rfl, hlt⟩ := hconsuming
    exact kept_consumed h (.saw_some (getElem?_queue s hlt)) trivial
  -- a cell is read
  case h_4 kind tmpTail got toRead count hpc =>
    cases hs
    rw [hpc] at hconsuming
    exact kept_readCell h hconsuming
  -- `tail` is stored behind what has been read
  case h_5 kind tmpTail got count hpc =>
    cases hs
    rw [hpc] at hconsuming
    obtain ⟨htail, hlength, hgot⟩ := hconsuming
    exact kept_storeTail h hlength htail (.took_take hgot) (consuming_afterRead kind rfl count)
  case h_6 tmpTail cnt hpc =>
    cases hs
    rw [hpc] at hconsuming
    obtain ⟨rfl, hle⟩ := hconsuming
    exact kept_storeTail h hle rfl (.dropped _ (by rwa [length_queue])) trivial
  -- `consumerClear` stores the `head` that it has loaded, which may be an old one
  case h_7 tmpHead hpc =>
    cases hs
    rw [hpc] at hconsuming
    obtain ⟨k, hk, rfl⟩ := hconsuming
    have hdiff : indexDiff ((s.tail + k) % sizeMod) s.tail = k := by
      have hlt := Nat.lt_of_le_of_lt hk h.fill_lt
      have htail := h.tail_lt
      unfold indexDiff
      unfold sizeMod at *
      omega
    rw [hdiff]
    exact kept_storeTail h hk rfl (.dropped _ (by rwa [length_queue])) trivial
  case h_8 tmpTail count hpc =>
    cases hs
    rw [hpc] at hconsuming
    apply h.consumer
    split
    · exact hconsuming
    · trivial

/-! ## The result -/

theorem kept_callWrite {s s' : Spsc T n} (h : Kept s) {kind : WriteKind} {buff : List T}
    {toWrite : Nat} (hone : kind = .insert → buff.length = 1)
    (hs : callWrite kind buff toWrite s = some s') : Kept s' := by
  unfold callWrite at hs
  split at hs
  case h_1 =>
    cases hs
    refine h.producer ⟨rfl, ?_⟩
    cases kind with
    | insert => exact hone rfl
    | _ => trivial
  case h_2 => cases hs

theorem kept_callRead {s s' : Spsc T n} (h : Kept s) {pc : ConsumerPc T}
    (hs : callRead pc s = some s') (hpc : Consuming s pc) : Kept s' := by
  unfold callRead at hs
  split at hs
  case h_1 =>
    cases hs
    exact h.consumer hpc
  case h_2 => cases hs

theorem idle_of_isIdle {pc : ConsumerPc T} (h : ConsumerPc.isIdle pc = true) : pc = .idle := by
  cases pc with
  | idle => rfl
  | _ => cases h

/-- A step of either thread keeps the invariant. An access of one does not disturb the place of the
other: `head` only moves forward behind the consumer's back, and `tail` behind the producer's. -/
theorem kept_step {s s' : Spsc T n} {a : Action T} (h : Kept s) (ha : ClearsAlone s a)
    (hs : step s a = some s') : Kept s' := by
  cases a with
  | insert data | insertFromCallbackWhenAvailable data =>
    exact kept_callWrite h (fun _ => rfl) hs
  | writeBuff buff => exact kept_callWrite h (by rintro ⟨⟩) hs
  | writeBuffCallback buff countToCallback =>
    simp only [step] at hs
    split at hs
    · exact kept_callWrite h (by rintro ⟨⟩) hs
    · exact Option.some.inj hs ▸ h
  | remove | removeCnt cnt | removeTo | peek | at? index | readBuff count =>
    exact kept_callRead h hs rfl
  | readBuffCallback count countToCallback =>
    simp only [step] at hs
    split at hs
    · exact kept_callRead h hs rfl
    · exact Option.some.inj hs ▸ h
  | consumerClear => exact kept_callRead h hs ⟨s.fill, Nat.le_refl _, h.add_fill.symm⟩
  | readAvailable =>
    cases hs
    exact ⟨h.head_lt, h.tail_lt, h.fill_le, h.producing, h.consuming, .snoc h.trace (step_length s)⟩
  -- the condition: nobody reads while the producer clears
  | producerClear =>
    simp only [step] at hs
    split at hs
    case h_1 hpc =>
      cases hs
      have hidle : s.consumer = .idle := idle_of_isIdle ha
      have hclear := kept_storeTail h (Nat.le_refl s.fill) h.add_fill.symm
        (.dropped _ (by rw [length_queue])) (show Consuming _ .idle from trivial)
      unfold consumed at hclear
      rwa [hidle]
    case h_2 => cases hs
  | produce => exact kept_produce h hs
  | consume => exact kept_consume h hs

/-- **The ring buffer is a queue between two threads.** In every interleaving of the accesses of one
producer and one consumer, in which the producer calls `producerClear` only while the consumer is in
none of its functions, what both have seen is a trace of a queue that ends with what lies between
the indices, and the queue is never longer than the array. -/
theorem handover (junk : Vector T n) (as : List (Action T)) (s : Spsc T n)
    (halone : Meets step ClearsAlone (new junk) as) (hrun : run step (new junk) as = some s) :
    Trace [] s.trace s.queue ∧ s.queue.length ≤ n ∧
      ((∀ l ∈ s.trace, ¬ l.Drops) → puts s.trace = taken s.trace ++ s.queue) := by
  have h : Kept s := invariant_of_meets Kept (fun _ _ _ h ha hs => kept_step h ha hs)
    (kept_new junk) halone hrun
  exact ⟨h.trace, (length_queue s).trans_le h.fill_le, h.trace.fifo⟩

instance : BufferSize 2 := ⟨by decide, by decide, by decide⟩

/-- Two elements are written and read, while a third one finds the buffer full and then has room;
the producer clears the buffer in the end. -/
def secondTry : List (Action Nat) :=
  [.writeBuff [1, 2], .produce, .produce, .readBuff 2, .produce, .produce, .consume, .insert 3,
    .consume, .produce, .consume, .consume, .insert 3, .produce, .produce, .produce, .peek,
    .consume, .consume, .producerClear]

theorem handover_secondTry :
    ∃ s, run step (new (Vector.replicate 2 0)) secondTry = some s ∧
      s.trace = [.length 0, .put [1, 2], .length 2, .length 2, .took [1, 2], .length 0, .put [3],
        .length 1, .saw 0 (some 3), .dropped 1] ∧
      Trace [] s.trace s.queue ∧ s.queue.length ≤ 2 ∧
      ((∀ l ∈ s.trace, ¬ l.Drops) → puts s.trace = taken s.trace ++ s.queue) := by
  have htraced : (run step (new (Vector.replicate 2 0)) secondTry).map Spsc.trace
      = some [.length 0, .put [1, 2], .length 2, .length 2, .took [1, 2], .length 0, .put [3],
        .length 1, .saw 0 (some 3), .dropped 1] := by decide +kernel
  obtain ⟨s, hrun, htrace⟩ := Option.map_eq_some_iff.mp htraced
  exact ⟨s, hrun, htrace,
    handover (Vector.replicate 2 0) secondTry s (by decide +kernel) hrun⟩

/-! ## One call at a time -/

/-- A ring buffer with both sides idle. -/
def ofRing (rb : Ringbuffer T n) (trace : List (Label T)) : Spsc T n :=
  { head := rb.head, tail := rb.tail, dataBuff := rb.dataBuff, trace := trace }

/-- The producer goes through its cells as the loop of `writeBuff` does. -/
theorem run_write (kind : WriteKind) (buff : List T) (s : Spsc T n) (dataBuff : Vector T n)
    (tmpHead : Nat) (written todo : List T) :
    run step { s with
        dataBuff := dataBuff
        producer := .write kind tmpHead written todo buff } (List.replicate todo.length .produce)
      = some { s with
          dataBuff := (Ringbuffer.writeLoop dataBuff tmpHead todo).1
          producer := .write kind (Ringbuffer.writeLoop dataBuff tmpHead todo).2 (written ++ todo)
            [] buff } := by
  induction todo generalizing dataBuff tmpHead written with
  | nil =>
    rw [List.append_nil]
    rfl
  | cons x todo ih =>
    rw [List.length_cons, List.replicate_succ, run, step, produce]
    apply (ih _ _ (written ++ [x])).trans
    rw [List.append_assoc]
    rfl

/-- The producer writes as much as the sequential function does. -/
theorem afterTail_writeBuff (rb : Ringbuffer T n) (buff : List T) :
    afterTail n .writeBuff rb.head buff buff.length rb.readAvailable
      = .write .writeBuff rb.head [] (buff.take (rb.toWrite buff.length)) [] := by
  have havailable : indexDiff n rb.readAvailable = n - indexDiff rb.head rb.tail := by
    have hhalf := BufferSize.le_half n
    have hfill : rb.readAvailable ≤ n := rb.fill_le
    show (n + sizeMod - rb.readAvailable) % sizeMod = n - rb.readAvailable
    unfold sizeMod
    omega
  unfold afterTail Ringbuffer.toWrite
  rw [havailable]

omit [BufferSize n] in
theorem ofRing_mk (stored head tail : Nat) (dataBuff : Vector T n) (head_lt : head < sizeMod)
    (tail_lt : tail < sizeMod) (fill_le : indexDiff head tail ≤ n) (trace : List (Label T)) :
    ofRing (stored, (⟨head, tail, dataBuff, head_lt, tail_lt, fill_le⟩ : Ringbuffer T n)).2 trace
      = { head := head, tail := tail, dataBuff := dataBuff, trace := trace } := rfl

theorem ofRing_writeBuff (rb : Ringbuffer T n) (buff : List T) (trace : List (Label T)) :
    ofRing (rb.writeBuff buff).2 trace =
      { head := (Ringbuffer.writeLoop rb.dataBuff rb.head (buff.take (rb.toWrite buff.length))).2
        tail := rb.tail
        dataBuff :=
          (Ringbuffer.writeLoop rb.dataBuff rb.head (buff.take (rb.toWrite buff.length))).1
        trace := trace } := by
  unfold Ringbuffer.writeBuff
  exact ofRing_mk ..

/-- `head` is stored. -/
theorem run_storeHead (rb : Ringbuffer T n) (loop : Vector T n × Nat) (xs : List T)
    (trace : List (Label T)) :
    run step { ofRing rb trace with
        dataBuff := loop.1, producer := .write .writeBuff loop.2 xs [] [] } [.produce]
      = some { head := loop.2, tail := rb.tail, dataBuff := loop.1, trace := trace ++ [.put xs] } :=
  rfl

/-- A call of `writeBuff` that nothing comes between. -/
theorem run_writeBuff (rb : Ringbuffer T n) (buff : List T) (trace : List (Label T)) :
    run step (ofRing rb trace) ([.writeBuff buff, .produce] ++
        (List.replicate (buff.take (rb.toWrite buff.length)).length .produce ++ [.produce]))
      = some (ofRing (rb.writeBuff buff).2 (trace ++ [.length rb.readAvailable] ++
          [.put (buff.take (rb.toWrite buff.length))])) := by
  rw [ofRing_writeBuff]
  have hloaded : run step (ofRing rb trace) [.writeBuff buff, .produce]
      = some { ofRing rb (trace ++ [.length rb.readAvailable]) with
          producer := afterTail n .writeBuff rb.head buff buff.length rb.readAvailable } := rfl
  rw [afterTail_writeBuff] at hloaded
  have hcells := run_write .writeBuff [] (ofRing rb (trace ++ [.length rb.readAvailable]))
    rb.dataBuff rb.head [] (buff.take (rb.toWrite buff.length))
  rw [List.nil_append] at hcells
  exact run_append.mpr ⟨_, hloaded, run_append.mpr ⟨_, hcells, run_storeHead ..⟩⟩

/-- A call of `remove(cnt)`. -/
theorem run_remove (rb : Ringbuffer T n) (cnt : Nat) (trace : List (Label T)) :
    run step (ofRing rb trace) [.removeCnt cnt, .consume, .consume]
      = some (ofRing (rb.remove cnt).2
          (trace ++ [.length rb.readAvailable] ++ [.dropped (rb.remove cnt).1])) := rfl

/-- A call of `consumerClear`. -/
theorem run_consumerClear (rb : Ringbuffer T n) (trace : List (Label T)) :
    run step (ofRing rb trace) [.consumerClear, .consume]
      = some (ofRing rb.consumerClear (trace ++ [.dropped rb.readAvailable])) := rfl

end PssClient.Spsc
