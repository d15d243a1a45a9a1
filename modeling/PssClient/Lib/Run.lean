import Mathlib.Data.List.Basic

/-!
# Runs of an executable step function

A system is given by `step : σ → α → Option σ`: the action names every choice the
environment has, and `none` says that the action is not enabled. `run` takes a list of
actions, so that "every interleaving" is "every list of actions". `Meets G` says that every
action of a run meets a condition `G` in the state it is taken from; it is how a result about
all the runs that stay clear of one branch is stated.

The induction over a run is done here once: a proof about a system supplies what one step
preserves and gets back what a run preserves. Two step functions that agree under a condition have
the same runs as long as it is met (`run_congr`).
-/

namespace Machine

variable {σ α β : Type*}

/-- Take the actions in order; `none` as soon as one of them is not enabled. -/
def run (step : σ → α → Option σ) : σ → List α → Option σ
  | s, [] => some s
  | s, a :: as => (step s a).bind fun s' => run step s' as

/-- Every action of the run meets `G` in the state it is taken from. -/
def Meets (step : σ → α → Option σ) (G : σ → α → Prop) : σ → List α → Prop
  | _, [] => True
  | s, a :: as => G s a ∧ ∀ s', step s a = some s' → Meets step G s' as

variable {step : σ → α → Option σ} {G : σ → α → Prop}

/-- Whether a run meets a condition can be computed when the condition can. -/
instance decidableMeets [∀ s a, Decidable (G s a)] :
    (s : σ) → (as : List α) → Decidable (Meets step G s as)
  | _, [] => .isTrue trivial
  | s, a :: as =>
    match hs : step s a with
    | none => decidable_of_iff (G s a) ⟨fun h => ⟨h, fun s' h' => by simp [hs] at h'⟩, And.left⟩
    | some s' =>
      haveI := decidableMeets s' as
      decidable_of_iff (G s a ∧ Meets step G s' as)
        ⟨fun h => ⟨h.1, fun s'' h'' => Option.some.inj (hs.symm.trans h'') ▸ h.2⟩,
          fun h => ⟨h.1, h.2 s' hs⟩⟩

@[simp] theorem run_nil (s : σ) : run step s [] = some s := rfl

@[simp] theorem meets_nil (s : σ) : Meets step G s [] := trivial

theorem run_cons {s : σ} {a : α} {as : List α} {t : σ} :
    run step s (a :: as) = some t ↔ ∃ s', step s a = some s' ∧ run step s' as = some t := by
  simp [run, Option.bind_eq_some_iff]

theorem meets_cons {s s' : σ} {a : α} {as : List α} (hG : G s a) (hs : step s a = some s')
    (h : Meets step G s' as) : Meets step G s (a :: as) := by
  refine ⟨hG, fun s'' hs'' => ?_⟩
  rw [hs] at hs''
  exact Option.some.inj hs'' ▸ h

theorem Meets.and {H : σ → α → Prop} {s : σ} {as : List α} (hG : Meets step G s as)
    (hH : Meets step H s as) : Meets step (fun s a => G s a ∧ H s a) s as := by
  induction as generalizing s with
  | nil => trivial
  | cons a as ih => exact ⟨⟨hG.1, hH.1⟩, fun s' hs => ih (hG.2 s' hs) (hH.2 s' hs)⟩

theorem Meets.mono {H : σ → α → Prop} (hGH : ∀ s a, G s a → H s a) {s : σ} {as : List α}
    (h : Meets step G s as) : Meets step H s as := by
  induction as generalizing s with
  | nil => trivial
  | cons a as ih => exact ⟨hGH s a h.1, fun s' hs => ih (h.2 s' hs)⟩

/-- A condition on the actions alone. -/
theorem meets_of_forall {P : α → Prop} {as : List α} (h : ∀ a ∈ as, P a) (s : σ) :
    Meets step (fun _ a => P a) s as := by
  induction as generalizing s with
  | nil => trivial
  | cons a as ih =>
    exact ⟨h a List.mem_cons_self, fun s' _ => ih (fun b hb => h b (List.mem_cons_of_mem _ hb)) s'⟩

/-- A run in two halves. -/
theorem run_append {s : σ} {as bs : List α} {t : σ} :
    run step s (as ++ bs) = some t ↔ ∃ m, run step s as = some m ∧ run step m bs = some t := by
  induction as generalizing s with
  | nil => simp
  | cons a as ih =>
    simp only [List.cons_append, run_cons, ih]
    constructor
    · rintro ⟨s', hs, m, hm, ht⟩
      exact ⟨m, ⟨s', hs, hm⟩, ht⟩
    · rintro ⟨m, ⟨s', hs, hm⟩, ht⟩
      exact ⟨s', hs, m, hm, ht⟩

/-- The second half of a run that meets a condition meets it. -/
theorem meets_of_append {s m : σ} {as bs : List α} (hG : Meets step G s (as ++ bs))
    (hrun : run step s as = some m) : Meets step G m bs := by
  induction as generalizing s with
  | nil => exact Option.some.inj hrun ▸ hG
  | cons a as ih =>
    obtain ⟨s', hs, hm⟩ := run_cons.mp hrun
    exact ih (hG.2 s' hs) hm

/-- A single action as a run. -/
theorem run_singleton {s t : σ} {a : α} (h : step s a = some t) : run step s [a] = some t := by
  simp [run, h]

/-- A system that carries more along with its state has the runs of the system itself. -/
theorem run_map {τ : Type*} {step' : τ → α → Option τ} (f : τ → σ)
    (h : ∀ t a, (step' t a).map f = step (f t) a) (t : τ) (as : List α) :
    (run step' t as).map f = run step (f t) as := by
  induction as generalizing t with
  | nil => rfl
  | cons a as ih =>
    show ((step' t a).bind fun t' => run step' t' as).map f
      = (step (f t) a).bind fun s' => run step s' as
    rw [← h t a]
    cases step' t a with
    | none => rfl
    | some t' => exact ih t'

/-- A system follows another one: each step of the first that meets the condition is answered by a
run of the second, and so is each run. -/
theorem follows_run {τ : Type*} {step' : τ → β → Option τ} (R : σ → τ → Prop)
    (h : ∀ s a s' t, R s t → G s a → step s a = some s' →
      ∃ bs t', run step' t bs = some t' ∧ R s' t')
    {s s' : σ} {t : τ} {as : List α} (hR : R s t) (hG : Meets step G s as)
    (hrun : run step s as = some s') : ∃ bs t', run step' t bs = some t' ∧ R s' t' := by
  induction as generalizing s t with
  | nil => exact ⟨[], t, rfl, Option.some.inj hrun ▸ hR⟩
  | cons a as ih =>
    obtain ⟨m, hs, hrest⟩ := run_cons.mp hrun
    obtain ⟨bs, t', hbs, hR'⟩ := h s a m t hR hG.1 hs
    obtain ⟨cs, u, hcs, hu⟩ := ih hR' (hG.2 m hs) hrest
    exact ⟨bs ++ cs, u, run_append.mpr ⟨t', hbs, hcs⟩, hu⟩

/-- The runs of a part of a system: each step of the whole leaves the part alone or is one step of
it, so that the part takes a run of its own and meets there what it meets in the whole. -/
theorem run_part {τ : Type*} {partStep : τ → β → Option τ} (f : σ → τ) (part : σ → α → Option β)
    (h : ∀ s a s', step s a = some s' →
      (part s a).elim (f s' = f s) fun b => partStep (f s) b = some (f s'))
    {H : τ → β → Prop} {s t : σ} {as : List α}
    (hH : Meets step (fun s a => ∀ b ∈ part s a, H (f s) b) s as) (hrun : run step s as = some t) :
    ∃ bs, Meets partStep H (f s) bs ∧ run partStep (f s) bs = some (f t) := by
  induction as generalizing s with
  | nil => exact ⟨[], trivial, Option.some.inj hrun ▸ rfl⟩
  | cons a as ih =>
    obtain ⟨s', hs, hrest⟩ := run_cons.mp hrun
    obtain ⟨bs, hmeets, hbs⟩ := ih (hH.2 s' hs) hrest
    have hthis := h s a s' hs
    cases hpart : part s a with
    | none =>
      rw [hpart] at hthis
      have hsame : f s' = f s := hthis
      exact ⟨bs, hsame ▸ hmeets, hsame ▸ hbs⟩
    | some b =>
      rw [hpart] at hthis
      exact ⟨b :: bs, meets_cons (hH.1 b hpart) hthis hmeets, run_cons.mpr ⟨_, hthis, hbs⟩⟩

/-- One thread by itself stops after the same number of steps, and nowhere else. -/
theorem run_replicate_le {a : α} {k k' : Nat} {s t t' : σ}
    (h : run step s (List.replicate k a) = some t)
    (h' : run step s (List.replicate k' a) = some t') (hstop : step t' a = none) : k ≤ k' := by
  induction k' generalizing k s with
  | zero =>
    obtain rfl : s = t' := Option.some.inj h'
    cases k with
    | zero => exact Nat.le_refl 0
    | succ k =>
      obtain ⟨s', hs, -⟩ := run_cons.mp h
      rw [hstop] at hs
      cases hs
  | succ k' ih =>
    cases k with
    | zero => exact Nat.zero_le _
    | succ k =>
      obtain ⟨s', hs, hrest⟩ := run_cons.mp h
      obtain ⟨s'', hs', hrest'⟩ := run_cons.mp h'
      obtain rfl := Option.some.inj (hs.symm.trans hs')
      exact Nat.succ_le_succ (ih hrest hrest')

theorem run_replicate_unique {a : α} {k k' : Nat} {s t t' : σ}
    (h : run step s (List.replicate k a) = some t)
    (h' : run step s (List.replicate k' a) = some t') (hstop : step t a = none)
    (hstop' : step t' a = none) : t = t' := by
  obtain rfl := Nat.le_antisymm (run_replicate_le h h' hstop') (run_replicate_le h' h hstop)
  exact Option.some.inj (h.symm.trans h')

section Congr

variable {step' : σ → α → Option σ} (h : ∀ s a, G s a → step' s a = step s a)

include h

/-- Where two step functions agree under a condition, a run that meets it meets the same conditions
in both systems. -/
theorem meets_congr {H : σ → α → Prop} {s : σ} {as : List α} (hG : Meets step' G s as) :
    Meets step' H s as ↔ Meets step H s as := by
  induction as generalizing s with
  | nil => exact .rfl
  | cons a as ih =>
    refine and_congr_right fun _ => forall_congr' fun s' => ?_
    rw [← h s a hG.1]
    exact imp_congr_right fun hs => ih (hG.2 s' hs)

/-- And it reaches the same state. -/
theorem run_congr {s : σ} {as : List α} (hG : Meets step' G s as) :
    run step' s as = run step s as := by
  induction as generalizing s with
  | nil => rfl
  | cons a as ih =>
    show (step' s a).bind (fun s' => run step' s' as) = (step s a).bind fun s' => run step s' as
    rw [← h s a hG.1]
    cases hs : step' s a with
    | none => rfl
    | some s' => exact ih (hG.2 s' hs)

end Congr

/-- The states that the runs from `s` whose actions all meet `G` can reach keep an invariant
that one such step keeps. -/
theorem invariant_of_meets (I : σ → Prop)
    (hstep : ∀ s a s', I s → G s a → step s a = some s' → I s') {s t : σ} {as : List α}
    (hI : I s) (hG : Meets step G s as) (hrun : run step s as = some t) : I t := by
  induction as generalizing s with
  | nil =>
    simp only [run_nil, Option.some.injEq] at hrun
    exact hrun ▸ hI
  | cons a as ih =>
    obtain ⟨s', hs, ht⟩ := run_cons.mp hrun
    exact ih (hstep s a s' hI hG.1 hs) (hG.2 s' hs) ht

/-- An invariant that every step keeps holds in every state a run reaches. -/
theorem invariant_of_run (I : σ → Prop)
    (hstep : ∀ s a s', I s → step s a = some s' → I s') {s t : σ} {as : List α}
    (hI : I s) (hrun : run step s as = some t) : I t := by
  induction as generalizing s with
  | nil =>
    simp only [run_nil, Option.some.injEq] at hrun
    exact hrun ▸ hI
  | cons a as ih =>
    obtain ⟨s', hs, ht⟩ := run_cons.mp hrun
    exact ih (hstep s a s' hI hs) ht

/-- Either a run meets a condition throughout and keeps the invariant for that, or from the first
action that does not on it keeps another one. -/
theorem dichotomy_of_run (I J : σ → Prop)
    (hgood : ∀ s a s', I s → G s a → step s a = some s' → I s')
    (hturn : ∀ s a s', I s → ¬ G s a → step s a = some s' → J s')
    (hbad : ∀ s a s', J s → step s a = some s' → J s') {s t : σ} {as : List α}
    (hI : I s) (hrun : run step s as = some t) : Meets step G s as ∧ I t ∨ J t := by
  induction as generalizing s with
  | nil =>
    simp only [run_nil, Option.some.injEq] at hrun
    exact .inl ⟨trivial, hrun ▸ hI⟩
  | cons a as ih =>
    obtain ⟨s', hs, ht⟩ := run_cons.mp hrun
    by_cases hG : G s a
    · refine (ih (hgood s a s' hI hG hs) ht).imp_left fun h => ⟨meets_cons hG hs h.1, h.2⟩
    · exact .inr (invariant_of_run J hbad (hturn s a s' hI hG hs) ht)

end Machine
