import PssClient.Lib.Fifo
import PssClient.Lib.Run
import PssClient.Wire.RingBuffer

/-!
# The ring buffer between two threads

`jnk0le::Ringbuffer` is made for one producer and one consumer on two threads without a lock. Either
side loads its own index, loads the other's, goes through the cells one by one, and stores its own
index. The accesses are interleaved here in any order. The acquire and release orders of the class
make the cells follow the indices, so that this is what the two threads can see.

* `WriteKind` / `ReadKind` — the operations that go through the same steps in different ways.
* `ProducerPc` / `ConsumerPc` — where each side is in its operation.
* `Spsc` — the indices, the array, the two places, and the trace of what both sides have seen.
* `produce` / `consume` — the next access of each side.
* `step` — an operation is called, or a side goes on.

The result is in `PssClient.Wire.Handover`: the trace is that of a queue.
-/

namespace PssClient

open Circular Machine

/-- The functions of the producer that store elements. -/
inductive WriteKind
  /-- `insert`, and `insertFromCallbackWhenAvailable` with what its callback returns. -/
  | insert
  | writeBuff
  /-- `writeBuff` with a callback. -/
  | writeBuffCallback

inductive ProducerPc (T : Type*)
  | idle
  /-- `head` has been loaded; `buff` is what is left to write, `toWrite` how much of it at once. -/
  | loadTail (kind : WriteKind) (tmpHead : Nat) (buff : List T) (toWrite : Nat)
  /-- The elements `written` are in the array, `todo` are to follow before `head` is stored. -/
  | write (kind : WriteKind) (tmpHead : Nat) (written todo buff : List T)
  /-- `execute_data_callback` is called. -/
  | callback (tmpHead : Nat) (buff : List T)

/-- The functions of the consumer that load both indices. -/
inductive ReadKind
  /-- `remove()`. -/
  | remove
  /-- `remove(cnt)`. -/
  | removeCnt
  /-- `remove(data)`. -/
  | removeTo
  | peek
  | at?
  | readBuff
  /-- `readBuff` with a callback. -/
  | readBuffCallback

inductive ConsumerPc (T : Type*)
  | idle
  /-- `tail` has been loaded; `count` is what is asked for, `toRead` how much of it at once. -/
  | loadHead (kind : ReadKind) (tmpTail count toRead : Nat)
  /-- The caller reads through the pointer that `peek` or `at` has returned. -/
  | look (tmpTail index : Nat)
  /-- The elements `got` have been read, `toRead` are to follow before `tail` is stored. -/
  | read (kind : ReadKind) (tmpTail : Nat) (got : List T) (toRead count : Nat)
  /-- `tail` is stored without reading. -/
  | skip (tmpTail cnt : Nat)
  /-- `consumerClear` has loaded `head`. -/
  | clear (tmpHead : Nat)
  /-- `execute_data_callback` is called. -/
  | callback (tmpTail count : Nat)

/-- The ring buffer between its two threads. Each of them is in one of its functions, or in none,
and all that passes between them are the two indices and the cells. -/
structure Spsc (T : Type*) (n : Nat) where
  head : Nat := 0
  tail : Nat := 0
  dataBuff : Vector T n
  producer : ProducerPc T := .idle
  consumer : ConsumerPc T := .idle
  trace : List (Fifo.Label T) := []

namespace Spsc

variable {T : Type*} {n : Nat} [BufferSize n]

/-- The cell at `index & buffer_mask`. -/
def cellAt (n index : Nat) [BufferSize n] : Fin n := slot n (index &&& (n - 1))

/-- Something is seen, and the producer goes on. -/
def produced (l : Fifo.Label T) (pc : ProducerPc T) (s : Spsc T n) : Spsc T n :=
  { s with producer := pc, trace := s.trace ++ [l] }

/-- Something is seen, and the consumer goes on. -/
def consumed (l : Fifo.Label T) (pc : ConsumerPc T) (s : Spsc T n) : Spsc T n :=
  { s with consumer := pc, trace := s.trace ++ [l] }

/-! ## The producer -/

/-- What the producer does once it has loaded `tail` and found `fill` elements. -/
def afterTail (n : Nat) (kind : WriteKind) (tmpHead : Nat) (buff : List T) (toWrite fill : Nat) :
    ProducerPc T :=
  let available := indexDiff n fill
  match kind with
  | .insert => if fill = n then .idle else .write kind tmpHead [] buff []
  | .writeBuff =>
    let toWrite := if available < toWrite then available else toWrite
    .write kind tmpHead [] (buff.take toWrite) []
  | .writeBuffCallback =>
    if available = 0 then .idle
    else
      let toWrite := if toWrite > available then available else toWrite
      .write kind tmpHead [] (buff.take toWrite) (buff.drop toWrite)

/-- And once it has stored `head`. -/
def afterHead (kind : WriteKind) (tmpHead : Nat) (buff : List T) : ProducerPc T :=
  match kind with
  | .writeBuffCallback => .callback tmpHead buff
  | _ => .idle

/-- The producer's next access. -/
def produce (s : Spsc T n) : Option (Spsc T n) :=
  match s.producer with
  | .idle => none
  | .loadTail kind tmpHead buff toWrite =>
    let fill := indexDiff tmpHead s.tail
    some (produced (.length fill) (afterTail n kind tmpHead buff toWrite fill) s)
  | .write kind tmpHead written (x :: todo) buff =>
    some { s with
      dataBuff := put s.dataBuff (cellAt n tmpHead) x
      producer := .write kind ((tmpHead + 1) % sizeMod) (written ++ [x]) todo buff }
  | .write kind tmpHead written [] buff =>
    some (produced (.put written) (afterHead kind tmpHead buff) { s with head := tmpHead })
  | .callback tmpHead buff =>
    some { s with
      producer :=
        if 0 < buff.length then .loadTail .writeBuffCallback tmpHead buff buff.length else .idle }

/-- The producer calls one of its functions, and loads `head`. -/
def callWrite (kind : WriteKind) (buff : List T) (toWrite : Nat) (s : Spsc T n) :
    Option (Spsc T n) :=
  match s.producer with
  | .idle => some { s with producer := .loadTail kind s.head buff toWrite }
  | _ => none

/-! ## The consumer -/

/-- What the consumer does once it has loaded `head`. -/
def afterLoad (kind : ReadKind) (tmpTail count toRead : Nat) (s : Spsc T n) : Spsc T n :=
  let avail := indexDiff s.head tmpTail
  match kind with
  | .remove =>
    consumed (.length avail) (if tmpTail = s.head then .idle else .skip tmpTail 1) s
  | .removeCnt =>
    consumed (.length avail) (.skip tmpTail (if count > avail then avail else count)) s
  | .removeTo =>
    consumed (.length avail) (if tmpTail = s.head then .idle else .read kind tmpTail [] 1 0) s
  | .peek =>
    if tmpTail = s.head then consumed (.saw 0 none) .idle s
    else consumed (.length avail) (.look tmpTail 0) s
  | .at? =>
    if avail ≤ count then consumed (.saw count none) .idle s
    else consumed (.length avail) (.look tmpTail count) s
  | .readBuff =>
    consumed (.length avail) (.read kind tmpTail [] (if avail < count then avail else count) 0) s
  | .readBuffCallback =>
    let toRead := if toRead > avail then avail else toRead
    consumed (.length avail)
      (if avail = 0 then .idle else .read kind tmpTail [] toRead (count - toRead)) s

/-- And once it has stored `tail`. -/
def afterRead (kind : ReadKind) (tmpTail count : Nat) : ConsumerPc T :=
  match kind with
  | .readBuffCallback => .callback tmpTail count
  | _ => .idle

/-- The consumer's next access. -/
def consume (s : Spsc T n) : Option (Spsc T n) :=
  match s.consumer with
  | .idle => none
  | .loadHead kind tmpTail count toRead => some (afterLoad kind tmpTail count toRead s)
  | .look tmpTail index =>
    let x := s.dataBuff.get (cellAt n ((tmpTail + index) % sizeMod))
    some (consumed (.saw index (some x)) .idle s)
  | .read kind tmpTail got (toRead + 1) count =>
    let x := s.dataBuff.get (cellAt n tmpTail)
    some { s with
      consumer := .read kind ((tmpTail + 1) % sizeMod) (got ++ [x]) toRead count }
  | .read kind tmpTail got 0 count =>
    some (consumed (.took got) (afterRead kind tmpTail count) { s with tail := tmpTail })
  | .skip tmpTail cnt =>
    some (consumed (.dropped cnt) .idle { s with tail := (tmpTail + cnt) % sizeMod })
  | .clear tmpHead =>
    some (consumed (.dropped (indexDiff tmpHead s.tail)) .idle { s with tail := tmpHead })
  | .callback tmpTail count =>
    some { s with
      consumer :=
        if 0 < count then .loadHead .readBuffCallback tmpTail count count else .idle }

/-- The consumer calls one of its functions, and loads its first index. -/
def callRead (pc : ConsumerPc T) (s : Spsc T n) : Option (Spsc T n) :=
  match s.consumer with
  | .idle => some { s with consumer := pc }
  | _ => none

/-- `count_to_callback`, unless it is zero or too large. -/
def firstPart (count countToCallback : Nat) : Nat :=
  if countToCallback ≠ 0 ∧ countToCallback < count then countToCallback else count

/-- What can happen next: a thread in no function begins one, or the producer or the consumer makes
its next access to what they share. -/
inductive Action (T : Type*)
  | insert (data : T)
  | insertFromCallbackWhenAvailable (data : T)
  | writeBuff (buff : List T)
  | writeBuffCallback (buff : List T) (countToCallback : Nat)
  | remove
  | removeCnt (cnt : Nat)
  | removeTo
  | peek
  | at? (index : Nat)
  | readBuff (count : Nat)
  | readBuffCallback (count countToCallback : Nat)
  | consumerClear
  /-- `readAvailable`, and what is computed from it. -/
  | readAvailable
  | producerClear
  | produce
  | consume

def step (s : Spsc T n) : Action T → Option (Spsc T n)
  | .insert data => callWrite .insert [data] 1 s
  | .insertFromCallbackWhenAvailable data => callWrite .insert [data] 1 s
  | .writeBuff buff => callWrite .writeBuff buff buff.length s
  | .writeBuffCallback buff countToCallback =>
    if 0 < buff.length then
      callWrite .writeBuffCallback buff (firstPart buff.length countToCallback) s
    else some s
  | .remove => callRead (.loadHead .remove s.tail 1 1) s
  | .removeCnt cnt => callRead (.loadHead .removeCnt s.tail cnt cnt) s
  | .removeTo => callRead (.loadHead .removeTo s.tail 1 1) s
  | .peek => callRead (.loadHead .peek s.tail 0 0) s
  | .at? index => callRead (.loadHead .at? s.tail index 0) s
  | .readBuff count => callRead (.loadHead .readBuff s.tail count count) s
  | .readBuffCallback count countToCallback =>
    if 0 < count then
      callRead (.loadHead .readBuffCallback s.tail count (firstPart count countToCallback)) s
    else some s
  | .consumerClear => callRead (.clear s.head) s
  | .readAvailable => some { s with trace := s.trace ++ [.length (indexDiff s.head s.tail)] }
  | .producerClear =>
    -- the producer stores the consumer's index
    match s.producer with
    | .idle =>
      some { s with
        tail := s.head
        trace := s.trace ++ [.dropped (indexDiff s.head s.tail)] }
    | _ => none
  | .produce => produce s
  | .consume => consume s

/-- The default constructor. -/
def new (junk : Vector T n) : Spsc T n := { dataBuff := junk }

/-- How many elements there are. -/
def fill (s : Spsc T n) : Nat := indexDiff s.head s.tail

/-- The elements from tail to head. -/
def queue (s : Spsc T n) : List T := window s.dataBuff s.tail s.fill

/-- The consumer is in none of its functions. -/
def ConsumerPc.isIdle : ConsumerPc T → Bool
  | .idle => true
  | _ => false

/-- `producerClear` is called while the consumer is in none of its functions. -/
def ClearsAlone (s : Spsc T n) : Action T → Prop
  | .producerClear => ConsumerPc.isIdle s.consumer = true
  | _ => True

instance (s : Spsc T n) (a : Action T) : Decidable (ClearsAlone s a) := by
  cases a <;> unfold ClearsAlone <;> infer_instance

end Spsc

end PssClient
