import Mathlib.Data.List.Perm.Basic
import Mathlib.Algebra.Order.Group.Nat
import Mathlib.Order.Basic
import Mathlib.Order.Defs.LinearOrder

/-!
# Binary heaps

A priority queue in an array, with the element of the least key on top: `push` puts an element at
the end and sifts it up while it is strictly before its parent, `pop` moves the last element to
the top and sifts it down. The keys are given by a function, which may look at state that the
heap does not hold.

## The architecture

* `Le` — two positions are in order. Positions outside the array are in order with anything, so
  that `IsHeap` needs no bounds, and exchanging two elements renames positions (`le_swap`).
* `UpOrder` / `DownOrder` — what a sift needs of the order: everything off the moving element, and
  its parent against its children.
* `push_perm` / `pop_perm` — the elements, whatever the order.
* `isHeap_push` / `isHeap_pop` — the order.
* `top_push` — without any assumption on the order, a push changes the top only to an element
  strictly before it.
* `top_le` — the top of a heap is before everything in it.
-/

namespace BinaryHeap

variable {α K : Type*} [LinearOrder K]

def parent (i : Nat) : Nat := (i - 1) / 2

/-- Exchange the element at `i` with its parent while it is strictly before it. -/
def siftUp (key : α → K) : Nat → Array α → Nat → Array α
  | 0, a, _ => a
  | fuel + 1, a, i =>
    if h : 0 < i ∧ i < a.size then
      have hp : parent i < a.size := by unfold parent; omega
      have hi : i < a.size := h.2
      if key a[i] < key a[parent i] then siftUp key fuel (a.swap i (parent i)) (parent i) else a
    else a

/-- The child of `i` with the lesser key, the left one when they are level. -/
def lesserChild (key : α → K) (a : Array α) (i : Nat) : Nat :=
  if h : 2 * i + 2 < a.size then
    if key a[2 * i + 2] < key a[2 * i + 1] then 2 * i + 2 else 2 * i + 1
  else 2 * i + 1

theorem lesserChild_cases (key : α → K) (a : Array α) (i : Nat) (h : 2 * i + 1 < a.size) :
    lesserChild key a i < a.size ∧
      (lesserChild key a i = 2 * i + 1 ∨ lesserChild key a i = 2 * i + 2) := by
  unfold lesserChild
  split
  case isTrue hright =>
    split
    · exact ⟨hright, .inr rfl⟩
    · exact ⟨h, .inl rfl⟩
  case isFalse => exact ⟨h, .inl rfl⟩

/-- Exchange the element at `i` with its lesser child while that is strictly before it. -/
def siftDown (key : α → K) : Nat → Array α → Nat → Array α
  | 0, a, _ => a
  | fuel + 1, a, i =>
    if h : 2 * i + 1 < a.size then
      have hc : lesserChild key a i < a.size := (lesserChild_cases key a i h).1
      have hi : i < a.size := by omega
      if key a[lesserChild key a i] < key a[i] then
        siftDown key fuel (a.swap i (lesserChild key a i)) (lesserChild key a i)
      else a
    else a

/-- Add an element. -/
def push (key : α → K) (a : Array α) (x : α) : Array α :=
  siftUp key (a.size + 1) (a.push x) a.size

/-- Remove the top. -/
def pop (key : α → K) (a : Array α) : Array α :=
  if h : 0 < a.size then siftDown key a.size (a.swap 0 (a.size - 1)).pop 0 else a

/-! ## The elements -/

theorem siftUp_perm (key : α → K) (fuel : Nat) (a : Array α) (i : Nat) :
    (siftUp key fuel a i).Perm a := by
  induction fuel generalizing a i with
  | zero => exact Array.Perm.refl a
  | succ fuel ih =>
    unfold siftUp
    split
    · dsimp only
      split
      · exact (ih _ _).trans (Array.swap_perm _ _)
      · exact Array.Perm.refl a
    · exact Array.Perm.refl a

theorem siftDown_perm (key : α → K) (fuel : Nat) (a : Array α) (i : Nat) :
    (siftDown key fuel a i).Perm a := by
  induction fuel generalizing a i with
  | zero => exact Array.Perm.refl a
  | succ fuel ih =>
    unfold siftDown
    split
    · dsimp only
      split
      · exact (ih _ _).trans (Array.swap_perm _ _)
      · exact Array.Perm.refl a
    · exact Array.Perm.refl a

theorem push_perm (key : α → K) (a : Array α) (x : α) :
    (push key a x).toList.Perm (x :: a.toList) := by
  have h := (siftUp_perm key (a.size + 1) (a.push x) a.size).toList
  rw [Array.toList_push] at h
  exact h.trans (List.perm_append_singleton x a.toList)

/-- What `pop` removes is the top. -/
theorem pop_perm (key : α → K) {a : Array α} {top : α} (h : a[0]? = some top) :
    a.toList.Perm (top :: (pop key a).toList) := by
  obtain ⟨hpos, htop⟩ := Array.getElem?_eq_some_iff.mp h
  have hlast : a.size - 1 < a.size := by omega
  have hswap : (a.swap 0 (a.size - 1)).toList.Perm a.toList :=
    (Array.swap_perm hpos hlast).toList
  have hne : (a.swap 0 (a.size - 1)).toList ≠ [] := by
    rw [← List.length_pos_iff, Array.length_toList, Array.size_swap]
    exact hpos
  -- the exchange brings the top to the end
  have hback : (a.swap 0 (a.size - 1)).toList.getLast hne = top := by
    rw [List.getLast_eq_getElem]
    simp [htop]
  have hsplit : (a.swap 0 (a.size - 1)).toList
      = (a.swap 0 (a.size - 1)).pop.toList ++ [top] := by
    rw [Array.toList_pop, ← hback, List.dropLast_append_getLast]
  rw [hsplit] at hswap
  have hsift := (siftDown_perm key a.size (a.swap 0 (a.size - 1)).pop 0).toList
  rw [pop, dif_pos hpos]
  exact hswap.symm.trans ((List.perm_append_singleton top _).trans (hsift.symm.cons top))

theorem mem_push {key : α → K} {a : Array α} {x y : α} :
    y ∈ push key a x ↔ y = x ∨ y ∈ a := by
  rw [← Array.mem_toList_iff, (push_perm key a x).mem_iff, List.mem_cons, Array.mem_toList_iff]

theorem mem_of_mem_pop {key : α → K} {a : Array α} {top y : α} (h : a[0]? = some top)
    (hy : y ∈ pop key a) : y ∈ a := by
  rw [← Array.mem_toList_iff, (pop_perm key h).mem_iff, List.mem_cons, Array.mem_toList_iff]
  exact .inr hy

/-! ## The order -/

/-- The element at `i` is not after the one at `j`. -/
def Le (key : α → K) (a : Array α) (i j : Nat) : Prop :=
  ∀ x y, a[i]? = some x → a[j]? = some y → key x ≤ key y

/-- Every element is not before its parent. -/
def IsHeap (key : α → K) (a : Array α) : Prop := ∀ j, 0 < j → Le key a (parent j) j

theorem parent_lt {j : Nat} (h : 0 < j) : parent j < j := by
  unfold parent
  omega

theorem Le.trans {key : α → K} {a : Array α} {i j k : Nat} (hij : Le key a i j)
    (hjk : Le key a j k) (hj : j < a.size) : Le key a i k := by
  intro x z hx hz
  have hy : a[j]? = some a[j] := Array.getElem?_eq_getElem hj
  exact (hij x _ hx hy).trans (hjk _ z hy hz)

theorem le_of_key_le {key : α → K} {a : Array α} {i j : Nat} (hi : i < a.size) (hj : j < a.size)
    (h : key a[i] ≤ key a[j]) : Le key a i j := by
  intro x y hx hy
  rw [Array.getElem?_eq_getElem hi] at hx
  rw [Array.getElem?_eq_getElem hj] at hy
  rwa [← Option.some.inj hx, ← Option.some.inj hy]

/-- Where the element at `k` was before `i` and `j` were exchanged. -/
def swapped (i j k : Nat) : Nat := if k = i then j else if k = j then i else k

theorem swapped_left (i j : Nat) : swapped i j i = j := if_pos rfl

theorem swapped_right {i j : Nat} (h : i ≠ j) : swapped i j j = i := by
  rw [swapped, if_neg h.symm, if_pos rfl]

theorem swapped_of_ne {i j k : Nat} (hi : k ≠ i) (hj : k ≠ j) : swapped i j k = k := by
  rw [swapped, if_neg hi, if_neg hj]

theorem getElem?_swap_eq {a : Array α} {i j : Nat} (hi : i < a.size) (hj : j < a.size) (k : Nat) :
    (a.swap i j)[k]? = a[swapped i j k]? := by
  rw [Array.getElem?_swap]
  by_cases hik : i = k
  · subst hik
    rw [swapped_left, Array.getElem?_eq_getElem hj]
    by_cases hji : j = i
    · subst hji
      rw [if_pos rfl]
    · rw [if_neg hji, if_pos rfl]
  · by_cases hjk : j = k
    · subst hjk
      rw [if_pos rfl, swapped_right hik]
      exact (Array.getElem?_eq_getElem hi).symm
    · rw [if_neg hjk, if_neg hik, swapped_of_ne (Ne.symm hik) (Ne.symm hjk)]

theorem le_swap {key : α → K} {a : Array α} {i j : Nat} (hi : i < a.size) (hj : j < a.size)
    (u v : Nat) : Le key (a.swap i j) u v ↔ Le key a (swapped i j u) (swapped i j v) := by
  unfold Le
  rw [getElem?_swap_eq hi hj, getElem?_swap_eq hi hj]

/-! ### Up -/

/-- Everything but the element at `i` is in order with its parent, and the children of `i` are in
order with its parent. -/
structure UpOrder (key : α → K) (a : Array α) (i : Nat) : Prop where
  others : ∀ j, 0 < j → j ≠ i → Le key a (parent j) j
  across : 0 < i → ∀ j, 0 < j → parent j = i → Le key a (parent i) j

/-- An element that is less than its parent is swapped with it, and is the only one that may be out
of order again, one level higher. Its new children are its old parent and its old sibling, which was
in order with that. -/
theorem UpOrder.swap {key : α → K} {a : Array α} {i : Nat} (h : UpOrder key a i) (hpos : 0 < i)
    (hi : i < a.size) (hp : parent i < a.size) (hlt : key a[i] < key a[parent i]) :
    UpOrder key (a.swap i (parent i)) (parent i) := by
  have hne : i ≠ parent i := (parent_lt hpos).ne'
  have hchild : Le key a i (parent i) := le_of_key_le hi hp hlt.le
  constructor
  · intro j hj hjp
    rw [le_swap hi hp]
    by_cases hji : j = i
    · subst hji
      rwa [swapped_right hne, swapped_left]
    · rw [swapped_of_ne hji hjp]
      by_cases hparent : parent j = i
      · rw [hparent, swapped_left]
        exact h.across hpos j hj hparent
      · by_cases hsibling : parent j = parent i
        · -- the sibling is in order with the parent, and the element is before that
          rw [hsibling, swapped_right hne]
          have hle := h.others j hj hji
          rw [hsibling] at hle
          exact hchild.trans hle hp
        · rw [swapped_of_ne hparent hsibling]
          exact h.others j hj hji
  · intro hpp j hj hjp
    rw [le_swap hi hp]
    have hgrand : parent (parent i) ≠ i := by
      have := parent_lt hpp
      have := parent_lt hpos
      omega
    have hgrand' : parent (parent i) ≠ parent i := (parent_lt hpp).ne
    have habove := h.others (parent i) hpp hne.symm
    rw [swapped_of_ne hgrand hgrand']
    by_cases hji : j = i
    · subst hji
      rw [swapped_left]
      exact habove
    · have hjne : j ≠ parent i := by
        have := parent_lt hj
        omega
      rw [swapped_of_ne hji hjne]
      have hle := h.others j hj hji
      rw [hjp] at hle
      exact habove.trans hle hp

/-- Sifting up makes the heap. Induction on the fuel; the element moves towards the top and stops
there, or under a parent that is not greater. -/
theorem isHeap_siftUp {key : α → K} {fuel : Nat} {a : Array α} {i : Nat} (hfuel : i < fuel)
    (h : UpOrder key a i) : IsHeap key (siftUp key fuel a i) := by
  induction fuel generalizing a i with
  | zero => omega
  | succ fuel ih =>
    unfold siftUp
    split
    case isTrue hcase =>
      obtain ⟨hpos, hi⟩ := hcase
      have hp : parent i < a.size := (parent_lt hpos).trans hi
      dsimp only
      split
      case isTrue hlt =>
        refine ih ?_ (h.swap hpos hi hp hlt)
        have := parent_lt hpos
        omega
      case isFalse hge =>
        intro j hj
        by_cases hji : j = i
        · subst hji
          exact le_of_key_le hp hi (not_lt.mp hge)
        · exact h.others j hj hji
    case isFalse hcase =>
      intro j hj
      by_cases hji : j = i
      · -- the position is outside the array
        subst hji
        intro x y _ hy
        have hi := (Array.getElem?_eq_some_iff.mp hy).1
        exact absurd ⟨hj, hi⟩ hcase
      · exact h.others j hj hji

theorem getElem?_push_of_lt {a : Array α} {x : α} {j : Nat} (h : j < a.size) :
    (a.push x)[j]? = a[j]? := by
  rw [Array.getElem?_push, if_neg (by omega)]

theorem isHeap_push {key : α → K} {a : Array α} (h : IsHeap key a) (x : α) :
    IsHeap key (push key a x) := by
  refine isHeap_siftUp (Nat.lt_succ_self _) ⟨fun j hj hne => ?_, fun _ j hj hparent => ?_⟩
  · intro u v hu hv
    have hjlt : j < a.size := by
      have := (Array.getElem?_eq_some_iff.mp hv).1
      rw [Array.size_push] at this
      omega
    rw [getElem?_push_of_lt hjlt] at hv
    rw [getElem?_push_of_lt ((parent_lt hj).trans hjlt)] at hu
    exact h j hj u v hu hv
  · -- the new element has no children
    intro u v _ hv
    have hjlt := (Array.getElem?_eq_some_iff.mp hv).1
    rw [Array.size_push] at hjlt
    have := parent_lt hj
    omega

/-! ### Down -/

/-- Everything but the children of `i` is in order with its parent, and the children of `i` are
in order with its parent. -/
structure DownOrder (key : α → K) (a : Array α) (i : Nat) : Prop where
  others : ∀ j, 0 < j → parent j ≠ i → Le key a (parent j) j
  across : 0 < i → ∀ j, 0 < j → parent j = i → Le key a (parent i) j

theorem child_cases {i j : Nat} (hj : 0 < j) (h : parent j = i) :
    j = 2 * i + 1 ∨ j = 2 * i + 2 := by
  unfold parent at h
  omega

/-- The lesser child is before both children. -/
theorem lesserChild_le {key : α → K} {a : Array α} {i j : Nat} (h : 2 * i + 1 < a.size)
    (hj : 0 < j) (hparent : parent j = i) : Le key a (lesserChild key a i) j := by
  intro x y hx hy
  have hjlt := (Array.getElem?_eq_some_iff.mp hy).1
  revert hx
  unfold lesserChild
  rcases child_cases hj hparent with rfl | rfl
  · split
    case isTrue hright =>
      split
      case isTrue hlt => exact fun hx => le_of_key_le hright h hlt.le x y hx hy
      case isFalse => exact fun hx => le_of_eq (by rw [Option.some.inj (hx.symm.trans hy)])
    case isFalse => exact fun hx => le_of_eq (by rw [Option.some.inj (hx.symm.trans hy)])
  · rw [dif_pos hjlt]
    split
    case isTrue => exact fun hx => le_of_eq (by rw [Option.some.inj (hx.symm.trans hy)])
    case isFalse hge => exact fun hx => le_of_key_le h hjlt (not_lt.mp hge) x y hx hy

/-- An element that is greater than the lesser of its children is swapped with it. The child is in
order with its sibling, and with the parent of both by `across`, so that only the element is left to
look at, one level lower. -/
theorem DownOrder.swap {key : α → K} {a : Array α} {i : Nat} (h : DownOrder key a i)
    (hsize : 2 * i + 1 < a.size) (hi : i < a.size) (hc : lesserChild key a i < a.size)
    (hlt : key a[lesserChild key a i] < key a[i]) :
    DownOrder key (a.swap i (lesserChild key a i)) (lesserChild key a i) := by
  have hcases := (lesserChild_cases key a i hsize).2
  have hlesser : ∀ j, 0 < j → parent j = i → Le key a (lesserChild key a i) j :=
    fun j hj hparent => lesserChild_le hsize hj hparent
  revert hlt
  generalize lesserChild key a i = c at hc hcases hlesser
  intro hlt
  have hcpos : 0 < c := by omega
  have hcparent : parent c = i := by
    unfold parent
    omega
  have hne : i ≠ c := by omega
  constructor
  · intro j hj hparent
    rw [le_swap hi hc]
    by_cases hchild : parent j = i
    · -- below `i` stands the lesser child now
      rw [hchild, swapped_left]
      by_cases hjc : j = c
      · subst hjc
        rw [swapped_right hne]
        exact le_of_key_le hc hi hlt.le
      · have hji : j ≠ i := by
          have := parent_lt hj
          omega
        rw [swapped_of_ne hji hjc]
        exact hlesser j hj hchild
    · rw [swapped_of_ne hchild hparent]
      by_cases hji : j = i
      · subst hji
        rw [swapped_left]
        exact h.across hj c hcpos hcparent
      · have hjc : j ≠ c := fun hjc => hchild (hjc ▸ hcparent)
        rw [swapped_of_ne hji hjc]
        exact h.others j hj hchild
  · intro _ j hj hparent
    rw [le_swap hi hc, hcparent, swapped_left]
    have hjlt := parent_lt hj
    have hji : j ≠ i := by omega
    have hjc : j ≠ c := by omega
    rw [swapped_of_ne hji hjc]
    have hle := h.others j hj (by omega)
    rwa [hparent] at hle

/-- Sifting down makes the heap. Induction on the fuel; the element moves away from the top and
stops at a leaf, or above children that are not less. -/
theorem isHeap_siftDown {key : α → K} {fuel : Nat} {a : Array α} {i : Nat}
    (hfuel : a.size ≤ i + fuel) (h : DownOrder key a i) : IsHeap key (siftDown key fuel a i) := by
  induction fuel generalizing a i with
  | zero =>
    show IsHeap key a
    intro j hj
    by_cases hparent : parent j = i
    · -- the child is outside the array
      intro x y _ hy
      have := (Array.getElem?_eq_some_iff.mp hy).1
      have := parent_lt hj
      omega
    · exact h.others j hj hparent
  | succ fuel ih =>
    unfold siftDown
    split
    case isTrue hsize =>
      have hi : i < a.size := by omega
      obtain ⟨hc, hcases⟩ := lesserChild_cases key a i hsize
      dsimp only
      split
      case isTrue hlt =>
        refine ih ?_ (h.swap hsize hi hc hlt)
        rw [Array.size_swap]
        omega
      case isFalse hge =>
        intro j hj
        by_cases hparent : parent j = i
        · rw [hparent]
          have hle : Le key a i (lesserChild key a i) := le_of_key_le hi hc (not_lt.mp hge)
          exact hle.trans (lesserChild_le hsize hj hparent) hc
        · exact h.others j hj hparent
    case isFalse hsize =>
      intro j hj
      by_cases hparent : parent j = i
      · intro x y _ hy
        have hjlt := (Array.getElem?_eq_some_iff.mp hy).1
        rcases child_cases hj hparent with rfl | rfl <;> omega
      · exact h.others j hj hparent

theorem isHeap_pop {key : α → K} {a : Array α} (h : IsHeap key a) : IsHeap key (pop key a) := by
  unfold pop
  split
  case isTrue hpos =>
    have hlast : a.size - 1 < a.size := by omega
    refine isHeap_siftDown (by rw [Array.size_pop, Array.size_swap]; omega)
      ⟨fun j hj hparent => ?_, fun hzero => absurd hzero (lt_irrefl 0)⟩
    intro u v hu hv
    have hjlt : j < a.size - 1 := by
      have := (Array.getElem?_eq_some_iff.mp hv).1
      rwa [Array.size_pop, Array.size_swap] at this
    have hplt := parent_lt hj
    rw [Array.getElem?_pop, if_pos (by rw [Array.size_swap]; omega), getElem?_swap_eq hpos hlast,
      swapped_of_ne (by omega) (by omega)] at hu hv
    exact h j hj u v hu hv
  case isFalse => exact h

/-! ## The top -/

/-- What is on top after an element has been sifted up: the element that was there, or the new one,
and then the new one is strictly less. With equal keys the old one stays. -/
theorem top_siftUp {key : α → K} {fuel : Nat} {a : Array α} {i : Nat} {x top : α}
    (hfuel : i < fuel) (hpos : 0 < i) (hx : a[i]? = some x) (htop : a[0]? = some top) :
    (siftUp key fuel a i)[0]? = some top ∨
      (siftUp key fuel a i)[0]? = some x ∧ key x < key top := by
  induction fuel generalizing a i with
  | zero => omega
  | succ fuel ih =>
    obtain ⟨hi, hxi⟩ := Array.getElem?_eq_some_iff.mp hx
    have hplt := parent_lt hpos
    have hp : parent i < a.size := hplt.trans hi
    unfold siftUp
    rw [dif_pos ⟨hpos, hi⟩]
    dsimp only
    split
    case isTrue hlt =>
      have hx' : (a.swap i (parent i))[parent i]? = some x := by
        rw [getElem?_swap_eq hi hp, swapped_right hplt.ne']
        exact hx
      by_cases hzero : parent i = 0
      · -- it has come to the top
        have hkey : key x < key top := by
          have htop' : a[parent i]? = some top := by rw [hzero]; exact htop
          rw [Array.getElem?_eq_getElem hp] at htop'
          rwa [hxi, Option.some.inj htop'] at hlt
        refine .inr ⟨?_, hkey⟩
        revert hx'
        generalize a.swap i (parent i) = b
        rw [hzero]
        intro hx'
        cases fuel with
        | zero => exact hx'
        | succ fuel =>
          unfold siftUp
          rw [dif_neg fun hcase => absurd hcase.1 (lt_irrefl 0)]
          exact hx'
      · refine ih (by omega) (Nat.pos_of_ne_zero hzero) hx' ?_
        rw [getElem?_swap_eq hi hp, swapped_of_ne hpos.ne (Ne.symm hzero)]
        exact htop
    case isFalse => exact .inl htop

/-- A push changes the top only to an element strictly before it. -/
theorem top_push {key : α → K} {a : Array α} {top : α} (x : α) (h : a[0]? = some top) :
    (push key a x)[0]? = some top ∨ (push key a x)[0]? = some x ∧ key x < key top := by
  have hpos := (Array.getElem?_eq_some_iff.mp h).1
  refine top_siftUp (Nat.lt_succ_self _) hpos Array.getElem?_push_size ?_
  rw [getElem?_push_of_lt hpos]
  exact h

/-- The top of a heap is before everything in it. Induction on the position. -/
theorem top_le {key : α → K} {a : Array α} {top x : α} (h : IsHeap key a)
    (htop : a[0]? = some top) (hx : x ∈ a) : key top ≤ key x := by
  obtain ⟨i, hi, rfl⟩ := Array.getElem_of_mem hx
  induction i using Nat.strong_induction_on with
  | _ i ih =>
    rcases Nat.eq_zero_or_pos i with rfl | hpos
    · rw [Array.getElem?_eq_getElem hi] at htop
      rw [Option.some.inj htop]
    · have hplt := parent_lt hpos
      have hp : parent i < a.size := hplt.trans hi
      have habove := ih (parent i) hplt hp (Array.getElem_mem hp)
      exact habove.trans
        (h i hpos _ _ (Array.getElem?_eq_getElem hp) (Array.getElem?_eq_getElem hi))

/-- The order depends on the keys of the elements only. -/
theorem isHeap_congr {key key' : α → K} {a : Array α} (h : ∀ x ∈ a, key x = key' x)
    (hheap : IsHeap key a) : IsHeap key' a := by
  intro j hj x y hx hy
  rw [← h x (Array.mem_of_getElem? hx), ← h y (Array.mem_of_getElem? hy)]
  exact hheap j hj x y hx hy

end BinaryHeap
