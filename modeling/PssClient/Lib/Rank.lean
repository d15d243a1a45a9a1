import Mathlib.Algebra.BigOperators.Group.List.Basic
import Mathlib.Algebra.GroupWithZero.Nat
import PssClient.Lib.Run

/-!
# Ranks

A rank of the states that some steps lower, and that the others do not raise, says how many of those
steps a run has at most, whatever comes between them.

* `steps` — how many steps of a run meet a condition.
* `steps_add_rank_le` — the rank is no less than that, and `length_add_rank_le` is the case in which
  all of them meet it.
* `sum_map_set` — the rank of many threads is the sum of their ranks.
-/

namespace List

variable {α : Type*}

theorem sum_map_set {l : List α} {i : Nat} {x : α} (h : l[i]? = some x) (f : α → Nat) (y : α) :
    ((l.set i y).map f).sum + f x = (l.map f).sum + f y := by
  induction l generalizing i with
  | nil => cases h
  | cons a l ih =>
    cases i with
    | zero =>
      obtain rfl : a = x := Option.some.inj h
      simp only [List.set_cons_zero, List.map_cons, List.sum_cons]
      omega
    | succ i =>
      have hrest := ih (i := i) h
      simp only [List.set_cons_succ, List.map_cons, List.sum_cons]
      omega

end List

namespace Machine

variable {σ α : Type*}

/-- How many steps of a run meet a condition in the state they are taken from. -/
def steps (step : σ → α → Option σ) (G : σ → α → Prop) [∀ s a, Decidable (G s a)] :
    σ → List α → Nat
  | _, [] => 0
  | s, a :: as =>
    (if G s a then 1 else 0) + (step s a).elim 0 fun s' => steps step G s' as

variable {step : σ → α → Option σ} {G : σ → α → Prop}

theorem steps_add_rank_le [∀ s a, Decidable (G s a)] (I : σ → Prop) (rank : σ → Nat)
    (hstep : ∀ s a s', I s → step s a = some s' →
      I s' ∧ rank s' + (if G s a then 1 else 0) ≤ rank s) {s t : σ} {as : List α} (hI : I s)
    (hrun : run step s as = some t) : steps step G s as + rank t ≤ rank s := by
  induction as generalizing s with
  | nil =>
    obtain rfl : s = t := Option.some.inj hrun
    exact Nat.le_of_eq (Nat.zero_add _)
  | cons a as ih =>
    obtain ⟨s', hs, ht⟩ := run_cons.mp hrun
    obtain ⟨hI', hle⟩ := hstep s a s' hI hs
    have hrest := ih hI' ht
    rw [steps, hs, Option.elim_some]
    omega

theorem length_add_rank_le (I : σ → Prop) (rank : σ → Nat)
    (hstep : ∀ s a s', I s → G s a → step s a = some s' → I s' ∧ rank s' < rank s) {s t : σ}
    {as : List α} (hI : I s) (hG : Meets step G s as) (hrun : run step s as = some t) :
    as.length + rank t ≤ rank s := by
  induction as generalizing s with
  | nil =>
    obtain rfl : s = t := Option.some.inj hrun
    exact Nat.le_of_eq (Nat.zero_add _)
  | cons a as ih =>
    obtain ⟨s', hs, ht⟩ := run_cons.mp hrun
    obtain ⟨hI', hlt⟩ := hstep s a s' hI hG.1 hs
    have hrest := ih hI' (hG.2 s' hs) ht
    rw [List.length_cons]
    omega

end Machine
