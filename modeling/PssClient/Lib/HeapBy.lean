import PssClient.Lib.BinaryHeap

/-!
# Binary heaps by a comparison

The heap of `BinaryHeap` with a comparison of two elements in place of keys, as it is given to a
priority queue: `before x y` says that `x` is strictly before `y`. Nothing is asked of the
comparison. Where it is the order of some keys on all the elements that are compared, the heap is
the one by these keys (`pushBy_eq`, `popBy_eq`), and what is proved of that holds of it.
-/

namespace BinaryHeap

variable {α K : Type*} [LinearOrder K] (before : α → α → Bool)

/-! ## Positions -/

theorem lt_size_of_and {a : Array α} {i : Nat} (h : 0 < i ∧ i < a.size) : i < a.size := h.2

theorem parent_lt_size {a : Array α} {i : Nat} (h : i < a.size) : parent i < a.size :=
  (Nat.div_le_self _ 2).trans_lt ((Nat.sub_le i 1).trans_lt h)

theorem left_lt_size {a : Array α} {i : Nat} (h : 2 * i + 2 < a.size) : 2 * i + 1 < a.size :=
  Nat.lt_of_succ_lt h

theorem lt_size_of_left {a : Array α} {i : Nat} (h : 2 * i + 1 < a.size) : i < a.size := by
  omega

theorem last_lt_size {a : Array α} (h : 0 < a.size) : a.size - 1 < a.size := Nat.sub_one_lt_of_lt h

/-! ## The operations -/

def siftUpBy : Nat → Array α → Nat → Array α
  | 0, a, _ => a
  | fuel + 1, a, i =>
    if h : 0 < i ∧ i < a.size then
      have hi : i < a.size := lt_size_of_and h
      have hp : parent i < a.size := parent_lt_size hi
      if before a[i] a[parent i] then siftUpBy fuel (a.swap i (parent i)) (parent i) else a
    else a

/-- The first of the children of `i`, the left one when neither is before the other. -/
def firstChild (a : Array α) (i : Nat) : Nat :=
  if h : 2 * i + 2 < a.size then
    have hleft : 2 * i + 1 < a.size := left_lt_size h
    if before a[2 * i + 2] a[2 * i + 1] then 2 * i + 2 else 2 * i + 1
  else 2 * i + 1

theorem firstChild_lt (a : Array α) (i : Nat) (h : 2 * i + 1 < a.size) :
    firstChild before a i < a.size := by
  unfold firstChild
  split
  case isTrue hright =>
    dsimp only
    split
    · exact hright
    · exact h
  case isFalse => exact h

def siftDownBy : Nat → Array α → Nat → Array α
  | 0, a, _ => a
  | fuel + 1, a, i =>
    if h : 2 * i + 1 < a.size then
      have hc : firstChild before a i < a.size := firstChild_lt before a i h
      have hi : i < a.size := lt_size_of_left h
      if before a[firstChild before a i] a[i] then
        siftDownBy fuel (a.swap i (firstChild before a i)) (firstChild before a i)
      else a
    else a

/-- Add an element. -/
def pushBy (a : Array α) (x : α) : Array α := siftUpBy before (a.size + 1) (a.push x) a.size

/-- Remove the top. -/
def popBy (a : Array α) : Array α :=
  if h : 0 < a.size then
    have hlast : a.size - 1 < a.size := last_lt_size h
    siftDownBy before a.size (a.swap 0 (a.size - 1)).pop 0
  else a

/-! ## The comparison of keys -/

/-- On these elements the comparison is the order of the keys. -/
def Compares (key : α → K) (xs : List α) : Prop :=
  ∀ x ∈ xs, ∀ y ∈ xs, before x y = decide (key x < key y)

variable {before} {key : α → K}

theorem Compares.mono {xs ys : List α} (h : Compares before key xs) (hsub : ∀ y ∈ ys, y ∈ xs) :
    Compares before key ys := fun x hx y hy => h x (hsub x hx) y (hsub y hy)

theorem Compares.at {a : Array α} (h : Compares before key a.toList) {i j : Nat} (hi : i < a.size)
    (hj : j < a.size) : before a[i] a[j] = decide (key a[i] < key a[j]) :=
  h _ (Array.getElem_mem_toList hi) _ (Array.getElem_mem_toList hj)

theorem Compares.swap {a : Array α} (h : Compares before key a.toList) {i j : Nat}
    (hi : i < a.size) (hj : j < a.size) : Compares before key (a.swap i j).toList :=
  h.mono fun _ hy => (Array.swap_perm hi hj).toList.mem_iff.mp hy

theorem siftUpBy_eq (fuel : Nat) {a : Array α} (h : Compares before key a.toList) (i : Nat) :
    siftUpBy before fuel a i = siftUp key fuel a i := by
  induction fuel generalizing a i with
  | zero => rfl
  | succ fuel ih =>
    unfold siftUpBy siftUp
    split
    case isTrue hi =>
      have hp : parent i < a.size := parent_lt_size hi.2
      dsimp only
      rw [h.at hi.2 hp]
      by_cases hlt : key a[i] < key a[parent i]
      · rw [if_pos (decide_eq_true hlt), if_pos hlt, ih (h.swap hi.2 hp)]
      · rw [if_neg (by simpa using hlt), if_neg hlt]
    case isFalse => rfl

theorem firstChild_eq {a : Array α} (h : Compares before key a.toList) (i : Nat) :
    firstChild before a i = lesserChild key a i := by
  unfold firstChild lesserChild
  split
  case isTrue hright =>
    dsimp only
    rw [h.at hright (left_lt_size hright)]
    simp only [decide_eq_true_eq]
  case isFalse => rfl

theorem siftDownBy_eq (fuel : Nat) {a : Array α} (h : Compares before key a.toList) (i : Nat) :
    siftDownBy before fuel a i = siftDown key fuel a i := by
  induction fuel generalizing a i with
  | zero => rfl
  | succ fuel ih =>
    unfold siftDownBy siftDown
    simp only [firstChild_eq h]
    split
    case isTrue hi =>
      have hc : lesserChild key a i < a.size := (lesserChild_cases key a i hi).1
      have hi' : i < a.size := lt_size_of_left hi
      rw [h.at hc hi']
      by_cases hlt : key a[lesserChild key a i] < key a[i]
      · rw [if_pos (decide_eq_true hlt), if_pos hlt, ih (h.swap hi' hc)]
      · rw [if_neg (by simpa using hlt), if_neg hlt]
    case isFalse => rfl

theorem pushBy_eq {a : Array α} {x : α} (h : Compares before key (x :: a.toList)) :
    pushBy before a x = push key a x := by
  refine siftUpBy_eq _ (h.mono fun y hy => ?_) _
  rw [Array.toList_push] at hy
  exact (List.perm_append_singleton x a.toList).mem_iff.mp hy

theorem popBy_eq {a : Array α} (h : Compares before key a.toList) : popBy before a = pop key a := by
  unfold popBy pop
  split
  case isTrue hpos =>
    have hlast : a.size - 1 < a.size := last_lt_size hpos
    refine siftDownBy_eq _ ((h.swap hpos hlast).mono fun y hy => ?_) _
    rw [Array.toList_pop] at hy
    exact List.dropLast_subset _ hy
  case isFalse => rfl

end BinaryHeap
