import Mathlib.Order.Defs.PartialOrder
import Mathlib.Tactic.Common

/-!
# Programs with loops and faults

A `Program` works on a state.  It ends with a value, it has a fault (a failed assertion or
undefined behaviour), or it is cut off: every loop carries a bound for its rounds.  The rules
for `Meets` are those of a program logic, for partial and total correctness at once.
-/

universe u v

inductive Result (σ α : Type) where
  | done (value : α) (state : σ)
  | fault
  | cutOff

def Program (σ α : Type) : Type := σ → Result σ α

/-- What a round of a loop leaves: the loop goes on or comes to an end. -/
inductive LoopStep (α β : Type) where
  | again (value : α)
  | finish (value : β)

namespace Program

variable {σ α β γ : Type}

instance : Monad (Program σ) where
  pure a := fun s => .done a s
  bind x f := fun s =>
    match x s with
    | .done a s' => f a s'
    | .fault => .fault
    | .cutOff => .cutOff

def fault : Program σ α := fun _ => .fault

def get : Program σ σ := fun s => .done s s

def modify (f : σ → σ) : Program σ Unit := fun s => .done () (f s)

/-- `fault` for what is not there. -/
def ofOption : Option α → Program σ α
  | some a => pure a
  | none => fault

/-- At most so many rounds. -/
def loop (round : α → Program σ (LoopStep α β)) : ℕ → α → Program σ β
  | 0, _ => fun _ => .cutOff
  | n + 1, a => do
      match ← round a with
      | .again a' => loop round n a'
      | .finish b => pure b

theorem pure_apply (a : α) (s : σ) : (pure a : Program σ α) s = .done a s := rfl

theorem bind_apply (x : Program σ α) (f : α → Program σ β) (s : σ) :
    (x >>= f) s = match x s with
      | .done a s' => f a s'
      | .fault => .fault
      | .cutOff => .cutOff := rfl

theorem bind_of_done {x : Program σ α} {f : α → Program σ β} {s s' : σ} {a : α}
    (h : x s = .done a s') : (x >>= f) s = f a s' := by
  rw [bind_apply, h]

theorem exists_of_bind_done {x : Program σ α} {f : α → Program σ β} {s s'' : σ} {b : β}
    (h : (x >>= f) s = .done b s'') : ∃ a s', x s = .done a s' ∧ f a s' = .done b s'' := by
  rw [bind_apply] at h
  cases hdone : x s with
  | done a s' =>
      rw [hdone] at h
      exact ⟨a, s', rfl, h⟩
  | fault =>
      rw [hdone] at h
      cases h
  | cutOff =>
      rw [hdone] at h
      cases h

theorem eq_of_pure_done {a b : α} {s s' : σ} (h : (pure a : Program σ α) s = .done b s') :
    a = b ∧ s = s' := by
  cases h
  exact ⟨rfl, rfl⟩

theorem eq_some_of_ofOption_done {o : Option α} {a : α} {s s' : σ}
    (h : ofOption o s = .done a s') : o = some a ∧ s = s' := by
  cases o with
  | none => cases h
  | some a' =>
      cases h
      exact ⟨rfl, rfl⟩

theorem get_bind (f : σ → Program σ β) (s : σ) : (get >>= f) s = f s s := rfl

theorem modify_bind (g : σ → σ) (f : Unit → Program σ β) (s : σ) :
    (modify g >>= f) s = f () (g s) := rfl

end Program

open Program

/-! ## Correctness -/

/-- The program has no fault, and when it ends the value and the state are those of `P`.  With
`total` it does end. -/
def Result.Meets {σ α : Type} (total : Prop) (P : α → σ → Prop) : Result σ α → Prop
  | done a s => P a s
  | fault => False
  | cutOff => ¬ total

/-- Total correctness. -/
abbrev Result.Ends {σ α : Type} (P : α → σ → Prop) (r : Result σ α) : Prop := r.Meets True P

section Rules

variable {σ α β : Type} {total : Prop} {P P' : α → σ → Prop} {Q : β → σ → Prop} {s : σ}

theorem Result.Meets.mono {r : Result σ α} (h : r.Meets total P) (hle : ∀ a s, P a s → P' a s) :
    r.Meets total P' := by
  cases r with
  | done a s => exact hle a s h
  | fault => exact h
  | cutOff => exact h

theorem Result.Meets.ne_fault {r : Result σ α} (h : r.Meets total P) : r ≠ .fault := by
  rintro rfl
  exact h

theorem Result.Meets.of_done {r : Result σ α} (h : r.Meets total P) {a : α} (hr : r = .done a s) :
    P a s := by
  subst hr
  exact h

theorem Result.Ends.exists {r : Result σ α} (h : r.Ends P) : ∃ a s', r = .done a s' ∧ P a s' := by
  cases r with
  | done a s => exact ⟨a, s, rfl, h⟩
  | fault => exact h.elim
  | cutOff => exact absurd trivial h

namespace Program

theorem meets_pure {a : α} (h : P a s) : ((pure a : Program σ α) s).Meets total P := h

theorem meets_bind {x : Program σ α} {f : α → Program σ β} (hx : (x s).Meets total P)
    (hf : ∀ a s', P a s' → (f a s').Meets total Q) : ((x >>= f) s).Meets total Q := by
  rw [bind_apply]
  cases hdone : x s with
  | done a s' => exact hf a s' (hx.of_done hdone)
  | fault => exact absurd hdone hx.ne_fault
  | cutOff =>
      rw [hdone] at hx
      exact hx

theorem meets_ite {c : Prop} [Decidable c] {x y : Program σ α}
    (hx : c → (x s).Meets total P) (hy : ¬ c → (y s).Meets total P) :
    ((if c then x else y) s).Meets total P := by
  split
  · next h => exact hx h
  · next h => exact hy h

theorem meets_ofOption {o : Option α} {a : α} (ho : o = some a) (h : P a s) :
    ((ofOption o : Program σ α) s).Meets total P := by
  subst ho
  exact h

/-- A loop meets `Q` when every round from the invariant either ends it in `Q` or makes the
measure smaller. -/
theorem meets_loop {round : α → Program σ (LoopStep α β)} (inv : α → σ → Prop)
    (measure : σ → ℕ)
    (hround : ∀ a s, inv a s → (round a s).Meets total fun r s' =>
      match r with
      | .again a' => inv a' s' ∧ measure s' < measure s
      | .finish b => Q b s') :
    ∀ (n : ℕ) (a : α) (s : σ), inv a s → (total → measure s < n) →
      (loop round n a s).Meets total Q := by
  intro n
  induction n with
  | zero => exact fun a s _ hlt htotal => absurd (hlt htotal) (Nat.not_lt_zero _)
  | succ n ih =>
      intro a s hinv hlt
      refine meets_bind (hround a s hinv) fun r s' hr => ?_
      cases r with
      | again a' => exact ih a' s' hr.1 fun htotal => by have := hlt htotal; omega
      | finish b => exact hr

/-- One round after another. -/
inductive Rounds (round : α → Program σ (LoopStep α β)) (a : α) (s : σ) : α → σ → Prop where
  | refl : Rounds round a s a s
  | tail {a' a'' : α} {s' s'' : σ} (h : Rounds round a s a' s')
      (hround : round a' s' = .done (.again a'') s'') : Rounds round a s a'' s''

/-- What every round preserves holds in all of them. -/
theorem Rounds.invariant {round : α → Program σ (LoopStep α β)} (inv : α → σ → Prop)
    (hround : ∀ a s, inv a s → ∀ a' s', round a s = .done (.again a') s' → inv a' s')
    {a a' : α} {s s' : σ} (h : Rounds round a s a' s') (hinv : inv a s) : inv a' s' := by
  induction h with
  | refl => exact hinv
  | tail _ hnext ih => exact hround _ _ ih _ _ hnext

/-! ## Bounds

A larger bound changes nothing where the smaller one was enough. -/

/-- `y` gives what `x` gives, where `x` is not cut off. -/
def Extends (y x : Program σ α) : Prop := ∀ s, x s ≠ .cutOff → y s = x s

namespace Extends

variable {x y : Program σ α}

theorem refl (x : Program σ α) : Extends x x := fun _ _ => rfl

theorem bind {f g : α → Program σ β} (h : Extends y x) (hf : ∀ a, Extends (g a) (f a)) :
    Extends (y >>= g) (x >>= f) := by
  intro s hne
  have hx : x s ≠ .cutOff := by
    intro hcut
    rw [bind_apply, hcut] at hne
    exact hne rfl
  rw [bind_apply, h s hx]
  rw [bind_apply] at hne ⊢
  cases hdone : x s with
  | done a s' =>
      rw [hdone] at hne
      exact hf a s' hne
  | fault => rfl
  | cutOff => exact absurd hdone hx

theorem ite {c : Prop} [Decidable c] {x' y' : Program σ α} (h : Extends y x)
    (h' : Extends y' x') : Extends (if c then y else y') (if c then x else x') := by
  split
  · exact h
  · exact h'

theorem loop {round round' : α → Program σ (LoopStep α β)}
    (h : ∀ a, Extends (round' a) (round a)) :
    ∀ (n : ℕ) (a : α), Extends (loop round' n a) (loop round n a)
  | 0, _ => refl _
  | n + 1, a => by
      refine bind (h a) fun r => ?_
      cases r with
      | again a' => exact loop h n a'
      | finish b => exact refl _

end Extends

theorem exists_round {round : α → Program σ (LoopStep α β)} {n : ℕ} {a : α}
    (h : loop round n a s ≠ .cutOff) : ∃ m, n = m + 1 := by
  cases n with
  | zero => exact absurd rfl h
  | succ m => exact ⟨m, rfl⟩

/-- A round that is done leaves the rest of the loop. -/
theorem loop_of_again {round : α → Program σ (LoopStep α β)} {a a' : α} {s' : σ}
    (h : round a s = .done (.again a') s') (n : ℕ) :
    loop round (n + 1) a s = loop round n a' s' :=
  bind_of_done h

theorem loop_of_finish {round : α → Program σ (LoopStep α β)} {a : α} {b : β} {s' : σ}
    (h : round a s = .done (.finish b) s') (n : ℕ) : loop round (n + 1) a s = .done b s' :=
  bind_of_done h

end Program

end Rules

/-! ## What holds where a program ends -/

/-- When the program ends, the value and the state are those of `P`; it can have a fault. -/
def Result.Then {σ α : Type} (P : α → σ → Prop) : Result σ α → Prop
  | done a s => P a s
  | fault => True
  | cutOff => True

/-- What a round leaves, with the invariant of the loop or at its end. -/
def LoopStep.Leaves {σ α β : Type} (inv : α → σ → Prop) (Q : β → σ → Prop) :
    LoopStep α β → σ → Prop
  | again a, s => inv a s
  | finish b, s => Q b s

section Then

variable {σ α β : Type} {P P' : α → σ → Prop} {Q : β → σ → Prop} {s : σ}

theorem Result.Then.mono {r : Result σ α} (h : r.Then P) (hle : ∀ a s, P a s → P' a s) :
    r.Then P' := by
  cases r with
  | done a s => exact hle a s h
  | fault => trivial
  | cutOff => trivial

theorem Result.Then.of_done {r : Result σ α} (h : r.Then P) {a : α} (hr : r = .done a s) :
    P a s := by
  subst hr
  exact h

theorem Result.Meets.then {total : Prop} {r : Result σ α} (h : r.Meets total P) : r.Then P := by
  cases r with
  | done a s => exact h
  | fault => trivial
  | cutOff => trivial

theorem Result.Then.and {r : Result σ α} (h : r.Then P) (h' : r.Then P') :
    r.Then fun a s => P a s ∧ P' a s := by
  cases r with
  | done a s => exact ⟨h, h'⟩
  | fault => trivial
  | cutOff => trivial

namespace Program

theorem then_bind {x : Program σ α} {f : α → Program σ β} (hx : (x s).Then P)
    (hf : ∀ a s', P a s' → (f a s').Then Q) : ((x >>= f) s).Then Q := by
  rw [bind_apply]
  cases hdone : x s with
  | done a s' => exact hf a s' (hx.of_done hdone)
  | fault => trivial
  | cutOff => trivial

theorem then_ite {c : Prop} [Decidable c] {x y : Program σ α}
    (hx : c → (x s).Then P) (hy : ¬ c → (y s).Then P) :
    ((if c then x else y) s).Then P := by
  split
  · next h => exact hx h
  · next h => exact hy h

/-- A loop ends in `Q` when every round from the invariant leaves it or ends in `Q`. -/
theorem then_loop {round : α → Program σ (LoopStep α β)} (inv : α → σ → Prop)
    (hround : ∀ a s, inv a s → (round a s).Then (LoopStep.Leaves inv Q)) :
    ∀ (n : ℕ) (a : α) (s : σ), inv a s → (loop round n a s).Then Q := by
  intro n
  induction n with
  | zero => exact fun _ _ _ => trivial
  | succ n ih =>
      intro a s hinv
      refine then_bind (hround a s hinv) fun r s' hr => ?_
      cases r with
      | again a' => exact ih a' s' hr
      | finish b => exact hr

end Program

end Then
