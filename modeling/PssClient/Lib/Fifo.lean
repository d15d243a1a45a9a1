import Mathlib.Data.List.Basic

/-!
# First in, first out

A queue over any type, and what can be seen of it from outside. A buffer, a channel or a message
queue implements it when what its users see in any of its runs is a trace of the queue.

* `Label` / `Step` — what is seen of one operation, and what the operation does.
* `Trace` — the operations of a run in their order.
* `Trace.fifo` — where nothing is dropped unread, the elements taken are the beginning of those put.
-/

namespace Fifo

variable {α : Type*}

/-- What is seen of an operation. -/
inductive Label (α : Type*)
  /-- Elements go in at the back. -/
  | put (xs : List α)
  /-- Elements are read and leave at the front. -/
  | took (xs : List α)
  /-- Elements leave at the front without being read. -/
  | dropped (k : Nat)
  /-- Someone learns the length. -/
  | length (k : Nat)
  /-- Someone reads the element at an index, or learns that there is none. -/
  | saw (i : Nat) (x : Option α)
  deriving DecidableEq

/-- What an operation does. -/
inductive Step : List α → Label α → List α → Prop
  | put (q xs : List α) : Step q (.put xs) (q ++ xs)
  | took (xs q : List α) : Step (xs ++ q) (.took xs) q
  | dropped (q : List α) {k : Nat} (hk : k ≤ q.length) : Step q (.dropped k) (q.drop k)
  | length (q : List α) : Step q (.length q.length) q
  | saw (q : List α) (i : Nat) : Step q (.saw i q[i]?) q

/-- The operations of a run, the last one at the end. -/
inductive Trace : List α → List (Label α) → List α → Prop
  | nil (q : List α) : Trace q [] q
  | snoc {q r r' : List α} {ls : List (Label α)} {l : Label α} (htrace : Trace q ls r)
      (hstep : Step r l r') : Trace q (ls ++ [l]) r'

/-! ## Rules for a single operation -/

/-- The elements at the front are taken. -/
theorem Step.took_take {q xs : List α} {k : Nat} (h : xs = q.take k) :
    Step q (.took xs) (q.drop k) := by
  have hstep := Step.took xs (q.drop k)
  rw [h] at hstep ⊢
  rwa [List.take_append_drop] at hstep

/-- A queue without elements has none at its front. -/
theorem Step.saw_none {q : List α} {i : Nat} (h : q.length ≤ i) : Step q (.saw i none) q := by
  have hstep := Step.saw q i
  rwa [List.getElem?_eq_none h] at hstep

theorem Step.saw_some {q : List α} {i : Nat} {x : α} (h : q[i]? = some x) :
    Step q (.saw i (some x)) q := by
  have hstep := Step.saw q i
  rwa [h] at hstep

theorem Step.length_eq {q : List α} {k : Nat} (h : q.length = k) : Step q (.length k) q :=
  h ▸ Step.length q

/-- What is put in is behind the rest. -/
theorem Step.put_inv {q r xs : List α} (h : Step q (.put xs) r) : r = q ++ xs := by
  cases h
  rfl

/-- What is taken was in front of the rest. -/
theorem Step.took_inv {q r xs : List α} (h : Step q (.took xs) r) : q = xs ++ r := by
  cases h
  rfl

/-! ## Traces -/

/-- What an operation puts in. -/
def Label.puts : Label α → List α
  | .put xs => xs
  | _ => []

/-- What an operation takes out and reads. -/
def Label.takes : Label α → List α
  | .took xs => xs
  | _ => []

/-- How many elements leave in an operation. -/
def Label.leaving : Label α → Nat
  | .took xs => xs.length
  | .dropped k => k
  | _ => 0

/-- An operation that drops elements unread. -/
def Label.Drops : Label α → Prop
  | .dropped k => 0 < k
  | _ => False

/-- The elements that have been put in. -/
def puts (ls : List (Label α)) : List α := ls.flatMap Label.puts

/-- The elements that have been taken. -/
def taken (ls : List (Label α)) : List α := ls.flatMap Label.takes

@[simp] theorem puts_concat (ls : List (Label α)) (l : Label α) :
    puts (ls ++ [l]) = puts ls ++ l.puts := by
  simp [puts]

@[simp] theorem taken_concat (ls : List (Label α)) (l : Label α) :
    taken (ls ++ [l]) = taken ls ++ l.takes := by
  simp [taken]

/-- The elements that leave in an operation are those at the front, and those that are read are
what they are. -/
theorem Step.leaves {q r : List α} {l : Label α} (h : Step q l r) :
    ∃ out, q ++ l.puts = out ++ r ∧ out.length = l.leaving ∧ (¬ l.Drops → out = l.takes) := by
  cases h with
  | put xs => exact ⟨[], rfl, rfl, fun _ => rfl⟩
  | took xs => exact ⟨xs, List.append_nil _, rfl, fun _ => rfl⟩
  | @dropped _ k hk =>
    refine ⟨q.take k, ?_, List.length_take_of_le hk, fun hdrops => ?_⟩
    · rw [List.take_append_drop]
      exact List.append_nil q
    · obtain rfl : k = 0 := Nat.eq_zero_of_not_pos hdrops
      rfl
  | length => exact ⟨[], List.append_nil q, rfl, fun _ => rfl⟩
  | saw i => exact ⟨[], List.append_nil q, rfl, fun _ => rfl⟩

/-- **First in, first out.** Where nothing is dropped unread, what has been taken and what is still
there are together what has been put in. -/
theorem Trace.fifo {q r : List α} {ls : List (Label α)} (h : Trace q ls r)
    (hdrops : ∀ l ∈ ls, ¬ l.Drops) : q ++ puts ls = taken ls ++ r := by
  induction h with
  | nil => exact List.append_nil q
  | @snoc r r' ls l _ hstep ih =>
    obtain ⟨out, hout, -, hreads⟩ := hstep.leaves
    have hlast : out = l.takes := hreads (hdrops l (by simp))
    have hbefore := ih fun l' hl' => hdrops l' (List.mem_append_left _ hl')
    rw [puts_concat, ← List.append_assoc, hbefore, taken_concat, List.append_assoc, hout, hlast,
      List.append_assoc]

end Fifo
