import Mathlib.Logic.Relation

/-!
# Transition systems and their invariants

A transition system is a set of initial states and a step relation.  Everything
that is said about "every reachable state" or "every run" is proved through the
two rules of this file: `Reachable.invariant` for the whole system, and the same
rule for `restrict`, the system whose steps are those that also satisfy a side
condition.
-/

universe u

/-- A set of initial states and a step relation on a type of states. -/
structure Transition (σ : Type u) where
  init : σ → Prop
  step : σ → σ → Prop

namespace Transition

variable {σ : Type u} {S : Transition σ}

/-- Reachable from an initial state in finitely many steps. -/
def Reachable (S : Transition σ) (s : σ) : Prop :=
  ∃ start, S.init start ∧ Relation.ReflTransGen S.step start s

theorem Reachable.start {s : σ} (h : S.init s) : S.Reachable s :=
  ⟨s, h, .refl⟩

theorem Reachable.tail {s s' : σ} (h : S.Reachable s) (hstep : S.step s s') :
    S.Reachable s' := by
  obtain ⟨start, hinit, hrun⟩ := h
  exact ⟨start, hinit, hrun.tail hstep⟩

/-- A property of the initial states that every step preserves holds in every
reachable state. -/
theorem Reachable.invariant {inv : σ → Prop} (hinit : ∀ s, S.init s → inv s)
    (hstep : ∀ s s', inv s → S.step s s' → inv s') {s : σ} (h : S.Reachable s) : inv s := by
  obtain ⟨start, hstart, hrun⟩ := h
  induction hrun with
  | refl => exact hinit start hstart
  | tail _ hlast ih => exact hstep _ _ ih hlast

/-- The system whose steps are the steps of `S` that satisfy `ok`. -/
def restrict (S : Transition σ) (ok : σ → σ → Prop) : Transition σ where
  init := S.init
  step s s' := S.step s s' ∧ ok s s'

theorem Reachable.of_restrict {ok : σ → σ → Prop} {s : σ} (h : (S.restrict ok).Reachable s) :
    S.Reachable s := by
  obtain ⟨start, hinit, hrun⟩ := h
  exact ⟨start, hinit, Relation.ReflTransGen.mono (fun _ _ hstep => hstep.1) _ _ hrun⟩

end Transition
