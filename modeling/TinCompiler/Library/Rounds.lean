import Mathlib.Order.WellFounded

/-!
# Loops that come to an end

A loop repeats a partial step function until there is no step.  It comes to an end when
every step from a state of the invariant makes a well-founded measure smaller.
-/

variable {σ α : Type*}

/-- At most `n` rounds of a partial step function. -/
def rounds (step : σ → Option σ) : ℕ → σ → σ
  | 0, s => s
  | n + 1, s =>
      match step s with
      | none => s
      | some s' => rounds step n s'

theorem rounds_invariant {step : σ → Option σ} {inv : σ → Prop}
    (hstep : ∀ s s', inv s → step s = some s' → inv s') :
    ∀ (n : ℕ) {s : σ}, inv s → inv (rounds step n s) := by
  intro n
  induction n with
  | zero => exact fun h => h
  | succ n ih =>
      intro s h
      unfold rounds
      cases hnext : step s with
      | none => exact h
      | some s' => exact ih (hstep s s' h hnext)

/-- Some number of rounds ends in a state without a step. -/
theorem exists_rounds {step : σ → Option σ} {inv : σ → Prop} {r : α → α → Prop}
    (hwf : WellFounded r) (measure : σ → α)
    (hstep : ∀ s s', inv s → step s = some s' → inv s')
    (hless : ∀ s s', inv s → step s = some s' → r (measure s') (measure s)) {s : σ} (h : inv s) :
    ∃ n, step (rounds step n s) = none := by
  generalize hmeasure : measure s = a
  induction a using hwf.induction generalizing s with
  | _ a ih =>
      cases hnext : step s with
      | none => exact ⟨0, hnext⟩
      | some s' =>
          obtain ⟨n, hn⟩ := ih (measure s') (hmeasure ▸ hless s s' h hnext) (hstep s s' h hnext) rfl
          refine ⟨n + 1, ?_⟩
          simpa only [rounds, hnext] using hn

/-- As many rounds as a measure counts are enough. -/
theorem rounds_measure {step : σ → Option σ} {inv : σ → Prop} (measure : σ → ℕ)
    (hstep : ∀ s s', inv s → step s = some s' → inv s')
    (hless : ∀ s s', inv s → step s = some s' → measure s' < measure s) :
    ∀ {n : ℕ} {s : σ}, inv s → measure s ≤ n → step (rounds step n s) = none := by
  intro n
  induction n with
  | zero =>
      intro s h hmeasure
      cases hnext : step s with
      | none => exact hnext
      | some s' => exact absurd (hless s s' h hnext) (by omega)
  | succ n ih =>
      intro s h hmeasure
      cases hnext : step s with
      | none => simp only [rounds, hnext]
      | some s' =>
          simp only [rounds, hnext]
          exact ih (hstep s s' h hnext) (Nat.le_of_lt_succ ((hless s s' h hnext).trans_le hmeasure))
