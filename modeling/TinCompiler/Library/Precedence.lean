import Mathlib.Order.WithBot
import Mathlib.Data.List.Basic
import Mathlib.Tactic.Common

/-!
# Precedence trees

Trees of binary operators over operands, and the stack of a parser that builds them from left
to right.  A sequence of operands and operators has one tree in which precedence is respected
and equal precedence associates to the left (`PrecedenceTree.unique`); a stack whose
precedences increase from its bottom to its top holds the pieces of such a tree.
-/

universe u v w

/-- An operand, or an operator between two trees. -/
inductive PrecedenceTree (O : Type u) (A : Type v) where
  | operand (a : A)
  | operator (op : O) (left right : PrecedenceTree O A)

namespace PrecedenceTree

variable {O : Type u} {A : Type v} {P : Type w}

/-! ## The sequence of a tree -/

def first : PrecedenceTree O A → A
  | operand a => a
  | operator _ left _ => left.first

/-- Every operator with the operand behind it. -/
def rest : PrecedenceTree O A → List (O × A)
  | operand _ => []
  | operator op left right => left.rest ++ (op, right.first) :: right.rest

/-- The tree read from left to right. -/
def reading (t : PrecedenceTree O A) : A × List (O × A) := (t.first, t.rest)

/-! ## Precedence -/

section Order

variable [LinearOrder P] (prec : O → P)

/-- The precedence of the root; operands bind the most. -/
def top : PrecedenceTree O A → WithTop P
  | operand _ => ⊤
  | operator op _ _ => prec op

/-- An operator has operands that bind as much as itself on the left, and more on the right. -/
def WellOrdered : PrecedenceTree O A → Prop
  | operand _ => True
  | operator op left right => WellOrdered left ∧ WellOrdered right ∧
      (prec op : WithTop P) ≤ left.top prec ∧ (prec op : WithTop P) < right.top prec

variable {prec}

/-- No operator of a tree binds less than its root. -/
theorem WellOrdered.top_le {t : PrecedenceTree O A} (h : t.WellOrdered prec) :
    ∀ p ∈ t.rest, t.top prec ≤ prec p.1 := by
  induction t with
  | operand a => exact fun p hmem => absurd hmem List.not_mem_nil
  | operator op left right ihleft ihright =>
      obtain ⟨hleft, hright, hle, hlt⟩ := h
      intro p hmem
      change (prec op : WithTop P) ≤ prec p.1
      rcases List.mem_append.mp hmem with hmem | hmem
      · exact hle.trans (ihleft hleft p hmem)
      · rcases List.mem_cons.mp hmem with rfl | hmem
        · exact le_refl _
        · exact hlt.le.trans (ihright hright p hmem)

/-- The root is the last operator of the lowest precedence, so two trees that read alike have
their roots at the same place. -/
theorem length_le_of_reading {op op' : O} {left right left' right' : PrecedenceTree O A}
    (h : (operator op left right).WellOrdered prec)
    (h' : (operator op' left' right').WellOrdered prec)
    (hrest : (operator op left right).rest = (operator op' left' right').rest) :
    left'.rest.length ≤ left.rest.length := by
  obtain ⟨-, hright, -, hlt⟩ := h
  obtain ⟨hleft', -, hle', -⟩ := h'
  rcases List.append_eq_append_iff.mp hrest with ⟨c, hc, hc'⟩ | ⟨c, hc, -⟩
  · cases c with
    | nil =>
        rw [hc, List.append_nil]
    | cons p c =>
        -- `op` stands on the left of `op'`, and `op'` on the right of `op`
        rw [List.cons_append] at hc'
        obtain ⟨hp, htail⟩ := List.cons.inj hc'
        have hle : (prec op' : WithTop P) ≤ prec op := by
          refine hle'.trans (hleft'.top_le (op, right.first) ?_)
          rw [hc, hp]
          exact List.mem_append_right _ (List.mem_cons_self ..)
        have hgt : (prec op : WithTop P) < prec op' := by
          refine hlt.trans_le (hright.top_le (op', right'.first) ?_)
          rw [htail]
          exact List.mem_append_right _ (List.mem_cons_self ..)
        exact absurd hle (not_le_of_gt hgt)
  · rw [hc, List.length_append]
    exact Nat.le_add_right _ _

/-- A sequence has one tree at most. -/
theorem unique {t t' : PrecedenceTree O A} (h : t.WellOrdered prec) (h' : t'.WellOrdered prec)
    (hreading : t.reading = t'.reading) : t = t' := by
  obtain ⟨hfirst, hrest⟩ := Prod.mk.inj hreading
  clear hreading
  induction t generalizing t' with
  | operand a =>
      cases t' with
      | operand a' => exact congrArg operand hfirst
      | operator op' left' right' => simp [rest] at hrest
  | operator op left right ihleft ihright =>
      cases t' with
      | operand a' => simp [rest] at hrest
      | operator op' left' right' =>
          have hlength : left.rest.length = left'.rest.length :=
            Nat.le_antisymm (length_le_of_reading h' h hrest.symm)
              (length_le_of_reading h h' hrest)
          obtain ⟨hleft, hright⟩ := List.append_inj hrest hlength
          obtain ⟨hop, htail⟩ := List.cons.inj hright
          obtain ⟨rfl, hmiddle⟩ := Prod.mk.inj hop
          rw [ihleft h.1 h'.1 hfirst hleft, ihright h.2.1 h'.2.1 hmiddle htail]

end Order

/-! ## The stack of a parser -/

/-- The operators that wait for their right operand, with their left operands, the last one
first. -/
abbrev Pending (O : Type u) (A : Type v) : Type (max u v) := List (PrecedenceTree O A × O)

/-- The tree of everything that waits, with the tree behind it. -/
def close : Pending O A → PrecedenceTree O A → PrecedenceTree O A
  | [], t => t
  | (left, op) :: pending, t => close pending (operator op left t)

theorem first_close {t t' : PrecedenceTree O A} (hfirst : t'.first = t.first)
    (pending : Pending O A) : (close pending t').first = (close pending t).first := by
  induction pending generalizing t t' with
  | nil => exact hfirst
  | cons q pending ih =>
      apply ih
      rfl

/-- What is behind the last tree is behind everything. -/
theorem rest_close {t t' : PrecedenceTree O A} {l : List (O × A)} (hfirst : t'.first = t.first)
    (hrest : t'.rest = t.rest ++ l) (pending : Pending O A) :
    (close pending t').rest = (close pending t).rest ++ l := by
  induction pending generalizing t t' with
  | nil => exact hrest
  | cons q pending ih =>
      obtain ⟨left, op⟩ := q
      apply ih
      · rfl
      · calc (operator op left t').rest
            = left.rest ++ (op, t'.first) :: t'.rest := rfl
          _ = left.rest ++ (op, t.first) :: (t.rest ++ l) := by rw [hfirst, hrest]
          _ = (operator op left t).rest ++ l := by
              rw [rest, List.append_assoc, List.cons_append]

/-- An operator and an operand are read behind everything before them. -/
theorem reading_push (pending : Pending O A) (t : PrecedenceTree O A) (op : O) (a : A) :
    (close ((t, op) :: pending) (operand a)).reading =
      ((close pending t).first, (close pending t).rest ++ [(op, a)]) := by
  have hfirst : (operator op t (operand a)).first = t.first := rfl
  have hrest : (operator op t (operand a)).rest = t.rest ++ [(op, a)] := rfl
  exact Prod.ext (first_close hfirst pending) (rest_close hfirst hrest pending)

section Reduce

variable [LinearOrder P] (prec : O → P)

/-- In front of an operator of precedence `p`, the operators that bind at least as much get the
tree behind them as their right operand. -/
def reduce (p : P) : Pending O A → PrecedenceTree O A → Pending O A × PrecedenceTree O A
  | [], t => ([], t)
  | (left, op) :: pending, t =>
      if p ≤ prec op then reduce p pending (operator op left t) else ((left, op) :: pending, t)

/-- The trees are those of a precedence tree, and the precedences increase. -/
def Ordered : Pending O A → PrecedenceTree O A → Prop
  | [], t => t.WellOrdered prec
  | (left, op) :: pending, t => t.WellOrdered prec ∧ (prec op : WithTop P) < t.top prec ∧
      (prec op : WithTop P) ≤ left.top prec ∧ (∀ q ∈ pending.head?, prec q.2 < prec op) ∧
      Ordered pending left

variable {prec} {p : P} {pending : Pending O A} {t : PrecedenceTree O A}

theorem Ordered.wellOrdered (h : Ordered prec pending t) : t.WellOrdered prec := by
  cases pending with
  | nil => exact h
  | cons q pending => exact h.1

/-- The last operator gets its right operand. -/
theorem Ordered.apply {left : PrecedenceTree O A} {op : O}
    (h : Ordered prec ((left, op) :: pending) t) :
    Ordered prec pending (operator op left t) := by
  obtain ⟨ht, hlt, hle, hhead, hpending⟩ := h
  have hoperator : (operator op left t).WellOrdered prec := ⟨hpending.wellOrdered, ht, hle, hlt⟩
  cases pending with
  | nil => exact hoperator
  | cons q pending =>
      obtain ⟨-, -, hle', hhead', hpending'⟩ := hpending
      exact ⟨hoperator, WithTop.coe_lt_coe.mpr (hhead q rfl), hle', hhead', hpending'⟩

theorem close_wellOrdered (h : Ordered prec pending t) : (close pending t).WellOrdered prec := by
  induction pending generalizing t with
  | nil => exact h
  | cons q pending ih => exact ih h.apply

theorem close_reduce : close (reduce prec p pending t).1 (reduce prec p pending t).2 =
    close pending t := by
  induction pending generalizing t with
  | nil => rfl
  | cons q pending ih =>
      rw [reduce]
      split
      · exact ih
      · rfl

/-- What is left on the stack binds less than the new operator, which can take the tree behind
it as its left operand. -/
theorem reduce_ordered (h : Ordered prec pending t) (htop : (p : WithTop P) ≤ t.top prec) :
    Ordered prec (reduce prec p pending t).1 (reduce prec p pending t).2 ∧
      (∀ q ∈ (reduce prec p pending t).1.head?, prec q.2 < p) ∧
      (p : WithTop P) ≤ (reduce prec p pending t).2.top prec := by
  induction pending generalizing t with
  | nil => exact ⟨h, fun q hmem => absurd hmem (by simp [reduce]), htop⟩
  | cons q pending ih =>
      rw [reduce]
      split
      · next hle => exact ih h.apply (WithTop.coe_le_coe.mpr hle)
      · next hnot =>
          refine ⟨h, fun q' hmem => ?_, htop⟩
          obtain rfl : q = q' := Option.some.inj hmem
          exact not_le.mp hnot

/-- The new operator is pushed, and an operand stands behind it. -/
theorem Ordered.push {op : O} (a : A) (h : Ordered prec pending t)
    (hhead : ∀ q ∈ pending.head?, prec q.2 < prec op) (htop : (prec op : WithTop P) ≤ t.top prec) :
    Ordered prec ((t, op) :: pending) (operand a) :=
  ⟨trivial, WithTop.coe_lt_top _, htop, hhead, h⟩

end Reduce

end PrecedenceTree
