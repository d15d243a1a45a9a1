import PssClient.Lib.Circular
import Mathlib.Data.Nat.Bitwise

/-!
# The ring buffer

`jnk0le::Ringbuffer<T, buffer_size>` of `ring_buffer.hpp` with its default `index_t = size_t`:
two free-running 64-bit indices and an array that is addressed through `& buffer_mask`. Only
the operations that `cpacket_format` reaches are modelled.

`toList` is the abstract queue the buffer stands for. Each operation is tied to the queue
operation it implements: `toList_writeBuff` appends what fits, `toList_remove` drops from the
front, `toList_consumerClear` empties. `peek` is the one operation that lets its caller out of
the queue: it hands out an index into the array, and what lies behind that index is the
queue's front only up to the end of the array (`flat_peek`).
-/

namespace PssClient

open Circular

/-- The range of `size_t`. -/
def sizeMod : Nat := 2 ^ 64

/-- The `static_assert`s of the class template: the size is a nonzero power of two, and no
larger than half the range of the index type. -/
class BufferSize (n : Nat) : Prop where
  ne_zero : n ≠ 0
  pow_two : n &&& (n - 1) = 0
  small : n - 1 ≤ (sizeMod - 1) >>> 1

instance {n : Nat} [BufferSize n] : NeZero n := ⟨BufferSize.ne_zero⟩

/-- `index & buffer_mask` is reduction modulo the size. -/
theorem and_mask_eq_mod {n : Nat} [BufferSize n] (i : Nat) : i &&& (n - 1) = i % n := by
  obtain ⟨k, hk⟩ := (Nat.and_sub_one_eq_zero_iff_isPowerOfTwo (BufferSize.ne_zero (n := n))).mp
    BufferSize.pow_two
  rw [hk, Nat.and_two_pow_sub_one_eq_mod]

theorem BufferSize.le_half (n : Nat) [BufferSize n] : n ≤ 9223372036854775808 := by
  have h := BufferSize.small (n := n)
  rw [Nat.shiftRight_eq_div_pow] at h
  unfold sizeMod at h
  omega

/-- The index type wraps around at a multiple of the size, so the wrap does not move the cell
an index names. -/
theorem BufferSize.dvd_sizeMod (n : Nat) [BufferSize n] : n ∣ sizeMod := by
  obtain ⟨k, hk⟩ := (Nat.and_sub_one_eq_zero_iff_isPowerOfTwo (BufferSize.ne_zero (n := n))).mp
    BufferSize.pow_two
  have hle : 2 ^ k ≤ 2 ^ 63 := by simpa [← hk] using BufferSize.le_half n
  have hk63 : k ≤ 63 := (Nat.pow_le_pow_iff_right (by decide)).mp hle
  rw [hk, show sizeMod = 2 ^ 64 from rfl]
  exact Nat.pow_dvd_pow 2 (by omega)

theorem mod_sizeMod_mod (n i : Nat) [BufferSize n] : i % sizeMod % n = i % n :=
  Nat.mod_mod_of_dvd i (BufferSize.dvd_sizeMod n)

/-- `head - tail` in `index_t`. -/
def indexDiff (head tail : Nat) : Nat := (head + sizeMod - tail) % sizeMod

theorem sizeMod_pos : 0 < sizeMod := by unfold sizeMod; omega

theorem indexDiff_self (i : Nat) : indexDiff i i = 0 := by
  unfold indexDiff
  rw [Nat.add_sub_cancel_left, Nat.mod_self]

/-- The head is the tail moved up by the fill level. -/
theorem add_indexDiff {head tail : Nat} (hh : head < sizeMod) (ht : tail < sizeMod) :
    (tail + indexDiff head tail) % sizeMod = head := by
  unfold indexDiff sizeMod at *
  omega

/-- Moving the tail up by at most the fill level lowers the fill level by that much. -/
theorem indexDiff_add_tail {head tail c : Nat} (hh : head < sizeMod) (ht : tail < sizeMod)
    (hc : c ≤ indexDiff head tail) :
    indexDiff head ((tail + c) % sizeMod) = indexDiff head tail - c := by
  unfold indexDiff sizeMod at *
  omega

/-- Moving the head up raises the fill level, as long as it stays in the index range. -/
theorem indexDiff_add_head {head tail c : Nat} (hh : head < sizeMod) (ht : tail < sizeMod)
    (hc : indexDiff head tail + c < sizeMod) :
    indexDiff ((head + c) % sizeMod) tail = indexDiff head tail + c := by
  unfold indexDiff sizeMod at *
  omega

/-- `Ringbuffer<T, buffer_size>`: the indices are `size_t`s, and never more than `buffer_size`
elements lie between them. -/
structure Ringbuffer (T : Type*) (n : Nat) where
  head : Nat
  tail : Nat
  dataBuff : Vector T n
  head_lt : head < sizeMod
  tail_lt : tail < sizeMod
  fill_le : indexDiff head tail ≤ n

namespace Ringbuffer

variable {T : Type*} {n : Nat} [BufferSize n]

/-- The default constructor: both indices zero, the array uninitialised. -/
def new (junk : Vector T n) : Ringbuffer T n where
  head := 0
  tail := 0
  dataBuff := junk
  head_lt := sizeMod_pos
  tail_lt := sizeMod_pos
  fill_le := by rw [indexDiff_self]; exact Nat.zero_le n

/-- `readAvailable()`. -/
def readAvailable (rb : Ringbuffer T n) : Nat := indexDiff rb.head rb.tail

/-- `consumerClear()`: the tail catches up with the head. -/
def consumerClear (rb : Ringbuffer T n) : Ringbuffer T n :=
  { rb with
    tail := rb.head
    tail_lt := rb.head_lt
    fill_le := by rw [indexDiff_self]; exact Nat.zero_le n }

/-- `remove(cnt)`: drops up to `cnt` elements without reading them, and says how many. -/
def remove (rb : Ringbuffer T n) (cnt : Nat) : Nat × Ringbuffer T n :=
  let avail := indexDiff rb.head rb.tail
  let cnt' := if cnt > avail then avail else cnt
  (cnt',
    { rb with
      tail := (rb.tail + cnt') % sizeMod
      tail_lt := Nat.mod_lt _ sizeMod_pos
      fill_le := by
        have hc : cnt' ≤ avail := by simp only [cnt']; split <;> omega
        rw [indexDiff_add_tail rb.head_lt rb.tail_lt hc]
        exact Nat.le_trans (Nat.sub_le _ _) rb.fill_le })

/-- `peek()`: the index in `data_buff` that the returned pointer points at, `none` for the
null pointer of an empty buffer. -/
def peek (rb : Ringbuffer T n) : Option Nat :=
  if rb.tail = rb.head then none else some (rb.tail &&& (n - 1))

/-- `at(index)`: the element at a logical offset from the tail, `none` for the null pointer. -/
def at? (rb : Ringbuffer T n) (index : Nat) : Option T :=
  if rb.readAvailable ≤ index then none
  else some (rb.dataBuff.get (slot n ((rb.tail + index) % sizeMod &&& (n - 1))))

/-- The loop of `writeBuff`: `data_buff[tmp_head++ & buffer_mask] = buff[i]`. -/
def writeLoop (dataBuff : Vector T n) (tmpHead : Nat) : List T → Vector T n × Nat
  | [] => (dataBuff, tmpHead)
  | b :: buff =>
    writeLoop (put dataBuff (slot n (tmpHead &&& (n - 1))) b) ((tmpHead + 1) % sizeMod) buff

/-- The loop leaves the head where it started plus the number of elements, in `index_t`. -/
theorem writeLoop_head (dataBuff : Vector T n) {tmpHead : Nat} (buff : List T)
    (h : tmpHead < sizeMod) :
    (writeLoop dataBuff tmpHead buff).2 = (tmpHead + buff.length) % sizeMod := by
  induction buff generalizing dataBuff tmpHead with
  | nil => simp [writeLoop, Nat.mod_eq_of_lt h]
  | cons b buff ih =>
    rw [writeLoop, ih _ (Nat.mod_lt _ sizeMod_pos), Nat.mod_add_mod, List.length_cons]
    congr 1
    omega

/-- Storing no more than there is room for does not overfill the buffer. -/
theorem writeLoop_fill (rb : Ringbuffer T n) (buff : List T)
    (h : buff.length ≤ n - indexDiff rb.head rb.tail) :
    indexDiff (writeLoop rb.dataBuff rb.head buff).2 rb.tail = rb.readAvailable + buff.length := by
  have hfill := rb.fill_le
  have hhalf := BufferSize.le_half n
  rw [writeLoop_head _ _ rb.head_lt]
  exact indexDiff_add_head rb.head_lt rb.tail_lt (by unfold sizeMod; omega)

/-- How much of `count` elements `writeBuff` stores: `available < count ? available : count`. -/
def toWrite (rb : Ringbuffer T n) (count : Nat) : Nat :=
  let available := n - indexDiff rb.head rb.tail
  if available < count then available else count

omit [BufferSize n] in
theorem length_take_toWrite (rb : Ringbuffer T n) (buff : List T) :
    (buff.take (rb.toWrite buff.length)).length ≤ n - indexDiff rb.head rb.tail := by
  rw [List.length_take, toWrite]
  split <;> omega

/-- `writeBuff(buff, count)`: stores as much of `buff` as there is room for, and says how
much that was. -/
def writeBuff (rb : Ringbuffer T n) (buff : List T) : Nat × Ringbuffer T n :=
  (rb.toWrite buff.length,
    { rb with
      dataBuff := (writeLoop rb.dataBuff rb.head (buff.take (rb.toWrite buff.length))).1
      head := (writeLoop rb.dataBuff rb.head (buff.take (rb.toWrite buff.length))).2
      head_lt := by
        rw [writeLoop_head _ _ rb.head_lt]
        exact Nat.mod_lt _ sizeMod_pos
      fill_le := by
        rw [writeLoop_fill rb _ (length_take_toWrite rb buff)]
        have hlen := length_take_toWrite rb buff
        have hfill := rb.fill_le
        unfold readAvailable
        omega })

/-! ## The queue a ring buffer stands for -/

/-- The elements between tail and head, front first. -/
def toList (rb : Ringbuffer T n) : List T := window rb.dataBuff rb.tail rb.readAvailable

@[simp] theorem length_toList (rb : Ringbuffer T n) : rb.toList.length = rb.readAvailable := by
  simp [toList]

@[simp] theorem toList_new (junk : Vector T n) : (new junk).toList = [] := by
  simp [toList, new, readAvailable, indexDiff_self]

@[simp] theorem toList_consumerClear (rb : Ringbuffer T n) : rb.consumerClear.toList = [] := by
  simp [toList, consumerClear, readAvailable, indexDiff_self]

/-- `remove` drops from the front of the queue. -/
theorem toList_remove (rb : Ringbuffer T n) {cnt : Nat} (h : cnt ≤ rb.readAvailable) :
    (rb.remove cnt).2.toList = rb.toList.drop cnt := by
  have hcnt : ¬ cnt > indexDiff rb.head rb.tail := Nat.not_lt.mpr h
  unfold toList
  rw [drop_window _ h]
  simp only [remove, readAvailable, if_neg hcnt]
  rw [indexDiff_add_tail rb.head_lt rb.tail_lt h]
  exact window_congr _ _ (mod_sizeMod_mod n _)

/-- The write loop appends to the window that ends at the head. -/
theorem window_writeLoop (dataBuff : Vector T n) (buff : List T) {start len tmpHead : Nat}
    (hhead : tmpHead = (start + len) % sizeMod) (hroom : len + buff.length ≤ n) :
    window (writeLoop dataBuff tmpHead buff).1 start (len + buff.length)
      = window dataBuff start len ++ buff := by
  induction buff generalizing dataBuff len tmpHead with
  | nil => simp [writeLoop]
  | cons b buff ih =>
    have hslot : slot n (tmpHead &&& (n - 1)) = slot n (start + len) := by
      ext
      rw [val_slot, val_slot, and_mask_eq_mod, Nat.mod_mod, hhead, mod_sizeMod_mod]
    have hnext : (tmpHead + 1) % sizeMod = (start + (len + 1)) % sizeMod := by
      rw [hhead, Nat.mod_add_mod, Nat.add_assoc]
    rw [List.length_cons] at hroom ⊢
    rw [writeLoop, hslot, show len + (buff.length + 1) = len + 1 + buff.length from by omega,
      ih _ hnext (by omega), window_put_succ _ _ (by omega), List.append_assoc,
      List.singleton_append]

/-- `writeBuff` appends what there is room for. -/
theorem toList_writeBuff (rb : Ringbuffer T n) {buff : List T}
    (h : rb.readAvailable + buff.length ≤ n) :
    (rb.writeBuff buff).2.toList = rb.toList ++ buff := by
  have htake : buff.take (rb.toWrite buff.length) = buff := by
    have hall : rb.toWrite buff.length = buff.length := by
      unfold toWrite readAvailable at *
      exact if_neg (by omega)
    rw [hall, List.take_length]
  have hfill := writeLoop_fill rb buff (by unfold readAvailable at h; omega)
  unfold toList
  simp only [writeBuff, readAvailable, htake] at hfill ⊢
  rw [hfill]
  exact window_writeLoop _ _ (add_indexDiff rb.head_lt rb.tail_lt).symm h

@[simp] theorem tail_writeBuff (rb : Ringbuffer T n) (buff : List T) :
    (rb.writeBuff buff).2.tail = rb.tail := by
  cases rb
  simp only [writeBuff]

/-- `at` looks the queue up. -/
theorem at?_eq (rb : Ringbuffer T n) (i : Nat) : rb.at? i = rb.toList[i]? := by
  unfold at?
  split
  case isTrue h =>
    rw [List.getElem?_eq_none (by rwa [length_toList])]
  case isFalse h =>
    have hslot : slot n ((rb.tail + i) % sizeMod &&& (n - 1)) = slot n (rb.tail + i) := by
      ext
      rw [val_slot, val_slot, and_mask_eq_mod, Nat.mod_mod, mod_sizeMod_mod]
    rw [toList, getElem?_window rb.dataBuff _ (Nat.not_le.mp h), hslot]

/-- Where the front of the queue lies in the array. -/
def offset (rb : Ringbuffer T n) : Nat := rb.tail % n

/-- Of a buffer that is not empty `peek` gives the place of the front. -/
theorem peek_eq (rb : Ringbuffer T n) (h : 0 < rb.readAvailable) : rb.peek = some rb.offset := by
  have hne : rb.tail ≠ rb.head := by
    intro he
    unfold readAvailable at h
    rw [he, indexDiff_self] at h
    exact absurd h (Nat.lt_irrefl 0)
  rw [peek, if_neg hne, and_mask_eq_mod, offset]

theorem offset_remove (rb : Ringbuffer T n) {cnt : Nat} (h : cnt ≤ rb.readAvailable) :
    (rb.remove cnt).2.offset = (rb.offset + cnt) % n := by
  have hcnt : ¬ cnt > indexDiff rb.head rb.tail := Nat.not_lt.mpr h
  simp only [offset, remove, if_neg hcnt]
  rw [mod_sizeMod_mod, Nat.mod_add_mod]

/-- Reading on from the front's place without wrapping gives the queue's elements as long as
the array does not end first. -/
theorem flat_offset (past : Nat → Option T) (rb : Ringbuffer T n) {k m : Nat}
    (hk : k + m ≤ rb.readAvailable) (hfit : rb.offset + k + m ≤ n) :
    flat past rb.dataBuff (rb.offset + k) m = some ((rb.toList.drop k).take m) :=
  flat_eq_take_drop past rb.dataBuff hk hfit

end Ringbuffer

end PssClient
