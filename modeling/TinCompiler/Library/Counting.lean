import Mathlib.Algebra.BigOperators.Group.Finset.Basic
import Mathlib.Data.Fintype.Basic

/-!
# Counting the members of a finite family

`countWhere p f` is the number of indices `i` with `p (f i)`.  The one fact that
invariants about such counters need is how the count moves when the family is
changed at a single index.
-/

open Finset

variable {ι α : Type*} [Fintype ι] [DecidableEq ι]

/-- The number of indices whose value satisfies `p`. -/
def countWhere (p : α → Prop) [DecidablePred p] (f : ι → α) : ℕ :=
  ∑ i, if p (f i) then 1 else 0

variable {p : α → Prop} [DecidablePred p] {f : ι → α}

/-- Changing the family at one index moves the count by the difference of the
two values at that index. -/
theorem countWhere_update (i : ι) (a : α) :
    countWhere p (Function.update f i a) + (if p (f i) then 1 else 0) =
      countWhere p f + (if p a then 1 else 0) := by
  have hsplit : ∀ g : ι → α, countWhere p g =
      (∑ j ∈ univ.erase i, if p (g j) then 1 else 0) + if p (g i) then 1 else 0 :=
    fun g => (sum_erase_add _ _ (mem_univ i)).symm
  have hrest : (∑ j ∈ univ.erase i, if p (Function.update f i a j) then 1 else 0) =
      ∑ j ∈ univ.erase i, if p (f j) then 1 else 0 := by
    refine sum_congr rfl fun j hj => ?_
    rw [Function.update_of_ne (ne_of_mem_erase hj)]
  rw [hsplit, hsplit f, hrest, Function.update_self]
  omega

omit [DecidableEq ι] in
theorem countWhere_pos_iff : 0 < countWhere p f ↔ ∃ i, p (f i) := by
  unfold countWhere
  rw [Nat.pos_iff_ne_zero, Ne, sum_eq_zero_iff]
  simp

omit [DecidableEq ι] in
theorem countWhere_eq_zero_iff : countWhere p f = 0 ↔ ∀ i, ¬ p (f i) := by
  unfold countWhere
  rw [sum_eq_zero_iff]
  simp
