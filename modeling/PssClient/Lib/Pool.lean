import Mathlib.Data.List.Forall2
import Mathlib.Data.List.Nodup
import Mathlib.Data.List.Perm.Basic
import Mathlib.Data.List.Perm.Subperm
import Mathlib.Algebra.BigOperators.Group.List.Basic
import Mathlib.Algebra.GroupWithZero.Nat

/-!
# Pools

A list from which any element may be taken next, by its position: messages in flight, operations
under way. A second list, taken from at the same positions, can carry something along with the
elements. A weight on the elements makes a budget of the pool: taking an element out gives its
weight back. Numbers given out by a counter stay different as long as no one keeps two of them.
-/

namespace Pool

variable {α : Type*} {l : List α} {i : Nat} {c : α}

/-- Taking out an element leaves the others. -/
theorem perm_eraseIdx (h : l[i]? = some c) : l.Perm (c :: l.eraseIdx i) := by
  obtain ⟨hi, rfl⟩ := List.getElem?_eq_some_iff.mp h
  exact (List.getElem_cons_eraseIdx_perm hi).symm

theorem mem_eraseIdx_of_ne (h : l[i]? = some c) {x : α} (hx : x ∈ l) (hne : x ≠ c) :
    x ∈ l.eraseIdx i := by
  rcases List.mem_cons.mp ((perm_eraseIdx h).mem_iff.mp hx) with heq | hmem
  · exact absurd heq hne
  · exact hmem

/-! ## A part of a pool

What `f` takes out of the elements is a pool as well, in the same order. -/

section

variable {β : Type*} {d : β}

theorem filterMap_eq_append (f : α → Option β) (h : l[i]? = some c) :
    l.filterMap f = (l.take i).filterMap f ++ (f c).toList ++ (l.drop (i + 1)).filterMap f := by
  obtain ⟨hi, hc⟩ := List.getElem?_eq_some_iff.mp h
  have hsplit : l = l.take i ++ c :: l.drop (i + 1) := by
    rw [← hc, ← List.drop_eq_getElem_cons hi, List.take_append_drop]
  calc l.filterMap f = (l.take i ++ c :: l.drop (i + 1)).filterMap f := congrArg _ hsplit
    _ = _ := by
      rw [List.filterMap_append, List.append_assoc, List.filterMap_cons]
      cases f c <;> rfl

theorem filterMap_eraseIdx (f : α → Option β) (l : List α) (i : Nat) :
    (l.eraseIdx i).filterMap f = (l.take i).filterMap f ++ (l.drop (i + 1)).filterMap f := by
  rw [List.eraseIdx_eq_take_drop_succ, List.filterMap_append]

/-- An element that is not in the part leaves it as it is. -/
theorem filterMap_eraseIdx_of_none {f : α → Option β} (h : l[i]? = some c) (hf : f c = none) :
    (l.eraseIdx i).filterMap f = l.filterMap f := by
  rw [filterMap_eraseIdx, filterMap_eq_append f h, hf, Option.toList_none, List.append_nil]

/-- One that is in it is taken out of it, at its place there. -/
theorem filterMap_eraseIdx_of_some {f : α → Option β} (h : l[i]? = some c) (hf : f c = some d) :
    ∃ j, (l.filterMap f)[j]? = some d ∧
      (l.eraseIdx i).filterMap f = (l.filterMap f).eraseIdx j := by
  have hsplit : l.filterMap f
      = (l.take i).filterMap f ++ d :: (l.drop (i + 1)).filterMap f := by
    rw [filterMap_eq_append f h, hf, List.append_assoc]
    rfl
  refine ⟨((l.take i).filterMap f).length, ?_, ?_⟩
  · rw [hsplit, List.getElem?_append_right (Nat.le_refl _), Nat.sub_self]
    rfl
  · rw [filterMap_eraseIdx, hsplit, List.eraseIdx_append_of_length_le (Nat.le_refl _), Nat.sub_self]
    rfl

end

/-! ## Pools side by side -/

section

variable {β : Type*} {R : α → β → Prop} {m : List β}

theorem forall₂_eraseIdx (h : List.Forall₂ R l m) (i : Nat) :
    List.Forall₂ R (l.eraseIdx i) (m.eraseIdx i) := by
  induction h generalizing i with
  | nil => exact .nil
  | cons hab htail ih =>
    cases i with
    | zero => exact htail
    | succ i => exact .cons hab (ih i)

theorem forall₂_getElem? (h : List.Forall₂ R l m) (hc : l[i]? = some c) :
    ∃ d, m[i]? = some d ∧ R c d := by
  induction h generalizing i with
  | nil => cases hc
  | @cons a b l m hab htail ih =>
    cases i with
    | zero =>
      obtain rfl : a = c := Option.some.inj hc
      exact ⟨b, rfl, hab⟩
    | succ i => exact ih hc

/-- What is known of the elements themselves helps to relate them. -/
theorem forall₂_imp_of_mem {S : α → β → Prop} (h : List.Forall₂ R l m)
    (himp : ∀ a ∈ l, ∀ b, R a b → S a b) : List.Forall₂ S l m := by
  induction h with
  | nil => exact .nil
  | cons hab _ ih =>
    refine .cons (himp _ List.mem_cons_self _ hab) (ih fun a ha => ?_)
    exact himp a (List.mem_cons_of_mem _ ha)

theorem forall₂_left {P : α → Prop} (h : List.Forall₂ (fun a _ => P a) l m) : ∀ a ∈ l, P a := by
  intro a ha
  obtain ⟨i, hi, rfl⟩ := List.getElem_of_mem ha
  obtain ⟨-, -, hP⟩ := forall₂_getElem? h (List.getElem?_eq_getElem hi)
  exact hP

theorem forall₂_concat (h : List.Forall₂ R l m) {d : β} (hcd : R c d) :
    List.Forall₂ R (l ++ [c]) (m ++ [d]) := List.rel_append h (.cons hcd .nil)

end

/-! ## Weights -/

/-- The sum of the weights in the pool. -/
def weight (w : α → Nat) (l : List α) : Nat := (l.map w).sum

theorem weight_cons (w : α → Nat) (c : α) (l : List α) :
    weight w (c :: l) = w c + weight w l := List.sum_cons

theorem weight_append (w : α → Nat) (l₁ l₂ : List α) :
    weight w (l₁ ++ l₂) = weight w l₁ + weight w l₂ := by
  rw [weight, weight, weight, List.map_append, List.sum_append]

theorem weight_concat (w : α → Nat) (l : List α) (c : α) :
    weight w (l ++ [c]) = weight w l + w c := by
  rw [weight_append]
  rfl

theorem weight_eraseIdx (w : α → Nat) (h : l[i]? = some c) :
    weight w l = w c + weight w (l.eraseIdx i) := by
  rw [weight, ((perm_eraseIdx h).map w).sum_eq]
  rfl

/-- A smaller weight makes a smaller budget. -/
theorem weight_le_weight {w v : α → Nat} (h : ∀ c, w c ≤ v c) (l : List α) :
    weight w l ≤ weight v l := by
  induction l with
  | nil => exact Nat.le_refl 0
  | cons c l ih =>
    show w c + weight w l ≤ v c + weight v l
    exact Nat.add_le_add (h c) ih

/-- Elements without weight cost nothing. -/
theorem weight_eq_zero {w : α → Nat} (h : ∀ c ∈ l, w c = 0) : weight w l = 0 := by
  induction l with
  | nil => rfl
  | cons c l ih =>
    show w c + weight w l = 0
    rw [h c List.mem_cons_self, ih fun d hd => h d (List.mem_cons_of_mem _ hd)]

/-! ## Numbers -/

/-- Different numbers, all of them below the next one to be given out. -/
structure Numbered (next : Nat) (numbers : List Nat) : Prop where
  nodup : numbers.Nodup
  below : ∀ x ∈ numbers, x < next

theorem Numbered.subperm {next : Nat} {numbers numbers' : List Nat} (h : Numbered next numbers)
    (hsub : numbers'.Subperm numbers) : Numbered next numbers' := by
  refine ⟨?_, fun x hx => h.below x (hsub.subset hx)⟩
  obtain ⟨l, hperm, hsublist⟩ := hsub
  exact hperm.nodup_iff.mp (h.nodup.sublist hsublist)

theorem Numbered.cons {next : Nat} {numbers : List Nat} (h : Numbered next numbers) :
    Numbered (next + 1) (next :: numbers) := by
  refine ⟨List.nodup_cons.mpr ⟨fun hmem => Nat.lt_irrefl next (h.below next hmem), h.nodup⟩, ?_⟩
  intro x hx
  rcases List.mem_cons.mp hx with rfl | hmem
  · exact Nat.lt_succ_self x
  · exact Nat.lt_succ_of_lt (h.below x hmem)

end Pool
