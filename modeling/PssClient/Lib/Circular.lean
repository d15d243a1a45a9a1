import Mathlib.Data.List.Basic
import Mathlib.Data.Nat.ModEq
import Mathlib.Tactic.Common

/-!
# Windows of a circular array

`window data start len` is the list of the `len` cells of an array met when walking from
position `start` and wrapping around at the end. It is the abstract contents of a ring buffer
whose indices only ever grow: writing one cell behind the window extends it at the back
(`window_put_succ`), moving the start drops from the front (`drop_window`). `flat` is the same
walk without wrapping, which may leave the array and read what lies behind it; the two agree
exactly as long as the walk stays inside the array (`flat_eq_take_drop`, `flat_eq_none`).
-/

namespace Circular

variable {α : Type*} {n : Nat}

/-- The array with the cell at `s` overwritten. -/
def put (data : Vector α n) (s : Fin n) (x : α) : Vector α n := data.set s.val x s.isLt

@[simp] theorem get_put_self (data : Vector α n) (s : Fin n) (x : α) :
    (put data s x).get s = x :=
  Vector.getElem_set_self s.isLt

theorem get_put_ne (data : Vector α n) {s t : Fin n} (x : α) (h : s ≠ t) :
    (put data s x).get t = data.get t :=
  Vector.getElem_set_ne s.isLt t.isLt fun hv => h (Fin.ext hv)

/-- The cell at index `i` of memory that starts with the array: `past` is what lies behind
its end, with `none` where nothing may be read. -/
def cell (past : Nat → Option α) (data : Vector α n) (i : Nat) : Option α :=
  if h : i < n then some (data.get ⟨i, h⟩) else past (i - n)

/-- The `len` cells from index `start` on without wrapping; `none` when one of them may not be
read. -/
def flat (past : Nat → Option α) (data : Vector α n) : Nat → Nat → Option (List α)
  | _, 0 => some []
  | start, len + 1 =>
    (cell past data start).bind fun x => (flat past data (start + 1) len).map (x :: ·)

@[simp] theorem flat_zero (past : Nat → Option α) (data : Vector α n) (start : Nat) :
    flat past data start 0 = some [] := rfl

theorem cell_of_lt (past : Nat → Option α) (data : Vector α n) {i : Nat} (h : i < n) :
    cell past data i = some (data.get ⟨i, h⟩) := dif_pos h

/-- When nothing behind the array may be read, a walk that leaves the array has no value. -/
theorem flat_eq_none (data : Vector α n) {start len : Nat} (hpos : 0 < len)
    (hout : n < start + len) : flat (fun _ => none) data start len = none := by
  induction len generalizing start with
  | zero => exact absurd hpos (Nat.lt_irrefl 0)
  | succ len ih =>
    rw [flat]
    by_cases hin : start < n
    · rw [ih (by omega) (by omega)]
      simp
    · simp [cell, hin]

/-! ## The window that wraps around -/

variable [NeZero n]

/-- The cell `i` stands for, wrapping around at the end of the array. -/
def slot (n : Nat) [NeZero n] (i : Nat) : Fin n := Fin.ofNat n i

theorem val_slot (i : Nat) : (slot n i).val = i % n := rfl

/-- The `len` cells from position `start` on, wrapping around. -/
def window (data : Vector α n) (start len : Nat) : List α :=
  (List.range len).map fun i => data.get (slot n (start + i))

@[simp] theorem length_window (data : Vector α n) (start len : Nat) :
    (window data start len).length = len := by simp [window]

@[simp] theorem window_zero (data : Vector α n) (start : Nat) : window data start 0 = [] := rfl

theorem getElem?_window (data : Vector α n) (start : Nat) {len i : Nat} (h : i < len) :
    (window data start len)[i]? = some (data.get (slot n (start + i))) := by
  simp [window, h]

/-- Positions that agree modulo the size name the same cells. -/
theorem window_congr (data : Vector α n) {start start' : Nat} (len : Nat)
    (h : start % n = start' % n) : window data start len = window data start' len := by
  unfold window
  apply List.map_congr_left
  intro i _
  have hslot : slot n (start + i) = slot n (start' + i) := by
    ext
    rw [val_slot, val_slot, Nat.add_mod, h, ← Nat.add_mod]
  rw [hslot]

/-- A window splits where its first `k` cells end. -/
theorem window_add (data : Vector α n) (start k len : Nat) :
    window data start (k + len) = window data start k ++ window data (start + k) len := by
  unfold window
  rw [List.range_add, List.map_append, List.map_map]
  congr 1
  apply List.map_congr_left
  intro i _
  simp [Nat.add_assoc]

theorem drop_window (data : Vector α n) {start k len : Nat} (h : k ≤ len) :
    (window data start len).drop k = window data (start + k) (len - k) := by
  obtain ⟨m, rfl⟩ := Nat.exists_eq_add_of_le h
  rw [window_add, List.drop_left' (length_window data start k), Nat.add_sub_cancel_left]

/-- Two positions less than a whole turn apart name different cells. -/
theorem slot_ne {start i j : Nat} (hij : i < j) (hj : j < n) :
    slot n (start + i) ≠ slot n (start + j) := by
  intro h
  have hval : (start + i) % n = (start + j) % n := congrArg Fin.val h
  have hdvd : n ∣ start + j - (start + i) :=
    Nat.dvd_of_mod_eq_zero (Nat.sub_mod_eq_zero_of_mod_eq hval.symm)
  have hzero : start + j - (start + i) = 0 := Nat.eq_zero_of_dvd_of_lt hdvd (by omega)
  omega

/-- Writing the first cell behind a window that does not fill the array appends to it. -/
theorem window_put_succ (data : Vector α n) {start len : Nat} (x : α) (h : len < n) :
    window (put data (slot n (start + len)) x) start (len + 1) = window data start len ++ [x] := by
  rw [window_add]
  congr 1
  · unfold window
    apply List.map_congr_left
    intro i hi
    exact get_put_ne data x (slot_ne (List.mem_range.mp hi) h).symm
  · simp [window]

/-- A walk that stays inside the array does not wrap: flat cells are the window's cells. -/
theorem flat_eq_take_drop (past : Nat → Option α) (data : Vector α n) {start k m len : Nat}
    (hk : k + m ≤ len) (hfit : start % n + k + m ≤ n) :
    flat past data (start % n + k) m = some (((window data start len).drop k).take m) := by
  induction m generalizing k with
  | zero => simp
  | succ m ih =>
    have hlt : start % n + k < n := by omega
    have hslot : slot n (start + k) = ⟨start % n + k, hlt⟩ := by
      ext
      rw [val_slot, ← Nat.mod_add_mod, Nat.mod_eq_of_lt hlt]
    have hdrop : (window data start len).drop k
        = data.get ⟨start % n + k, hlt⟩ :: (window data start len).drop (k + 1) := by
      have hget := getElem?_window data start (show k < len by omega)
      obtain ⟨hlen, hk⟩ := List.getElem?_eq_some_iff.mp hget
      rw [List.drop_eq_getElem_cons hlen, hk, hslot]
    rw [flat, cell_of_lt past data hlt, Nat.add_assoc, ih (by omega) (by omega), hdrop]
    rfl

end Circular
