import Mathlib.Logic.Function.Basic
import Mathlib.Logic.Relation

/-!
# Who waits for whom

Threads that lock mutexes and join each other. What a thread holds can be read off its position
in the code; `Owners` says that the owners of the mutexes agree with it. A thread waits for the
one that owns the mutex it wants, or for the one it joins. A cycle of threads that wait for each
other stays for ever; there is none when every wait goes up in some rank.
-/

namespace WaitFor

variable {T M : Type*}

/-! ## Owners -/

/-- Each mutex is owned by the thread that holds it at its position. -/
def Owners (owner : M → Option T) (holds : T → M → Bool) : Prop :=
  ∀ m a, owner m = some a ↔ holds a m = true

section

variable [DecidableEq M] {owner : M → Option T} {holds holds' : T → M → Bool} {x : T} {m₀ : M}

/-- A thread takes a free mutex. -/
theorem Owners.lock (h : Owners owner holds) (hfree : owner m₀ = none)
    (hself : ∀ m, holds' x m = true ↔ holds x m = true ∨ m = m₀)
    (hother : ∀ a, a ≠ x → holds' a = holds a) :
    Owners (Function.update owner m₀ (some x)) holds' := by
  intro m a
  by_cases hm : m = m₀
  · subst hm
    rw [Function.update_self, Option.some.injEq]
    by_cases ha : a = x
    · subst ha
      exact ⟨fun _ => (hself m).mpr (.inr rfl), fun _ => rfl⟩
    · rw [hother a ha, ← h m a, hfree]
      exact ⟨fun heq => absurd heq.symm ha, nofun⟩
  · rw [Function.update_of_ne hm, h m a]
    by_cases ha : a = x
    · subst ha
      exact ⟨fun hold => (hself m).mpr (.inl hold),
        fun hnew => ((hself m).mp hnew).resolve_right hm⟩
    · rw [hother a ha]

/-- A thread gives back a mutex that it holds. -/
theorem Owners.unlock (h : Owners owner holds) (hheld : holds x m₀ = true)
    (hself : ∀ m, holds' x m = true ↔ holds x m = true ∧ m ≠ m₀)
    (hother : ∀ a, a ≠ x → holds' a = holds a) :
    Owners (Function.update owner m₀ none) holds' := by
  have hown : owner m₀ = some x := (h m₀ x).mpr hheld
  intro m a
  by_cases hm : m = m₀
  · subst hm
    rw [Function.update_self]
    refine ⟨nofun, fun hnew => ?_⟩
    by_cases ha : a = x
    · subst ha
      exact absurd rfl ((hself m).mp hnew).2
    · rw [hother a ha, ← h m a, hown, Option.some.injEq] at hnew
      exact absurd hnew.symm ha
  · rw [Function.update_of_ne hm, h m a]
    by_cases ha : a = x
    · subst ha
      exact ⟨fun hold => (hself m).mpr ⟨hold, hm⟩, fun hnew => ((hself m).mp hnew).1⟩
    · rw [hother a ha]

end

/-! ## Waiting -/

/-- `a` cannot go on before `b` has. -/
inductive Waits (wants holds : T → M → Prop) (joins : T → T → Prop) : T → T → Prop
  | lock {a b : T} {m : M} (hwants : wants a m) (hholds : holds b m) : Waits wants holds joins a b
  | join {a b : T} (hjoins : joins a b) : Waits wants holds joins a b

/-- Some thread waits, by way of others, for itself. -/
def Deadlock (waits : T → T → Prop) : Prop := ∃ a, Relation.TransGen waits a a

variable {waits : T → T → Prop}

/-- Two threads that wait for each other. -/
theorem deadlock_of_pair {a b : T} (hab : waits a b) (hba : waits b a) : Deadlock waits :=
  ⟨a, .tail (.single hab) hba⟩

theorem not_deadlock_of_rank (rank : T → Nat) (h : ∀ a b, waits a b → rank a < rank b) :
    ¬ Deadlock waits := by
  have hpath : ∀ a b, Relation.TransGen waits a b → rank a < rank b := by
    intro a b hab
    induction hab with
    | single hwait => exact h _ _ hwait
    | tail _ hwait ih => exact Nat.lt_trans ih (h _ _ hwait)
  rintro ⟨a, ha⟩
  exact Nat.lt_irrefl _ (hpath a a ha)

end WaitFor
