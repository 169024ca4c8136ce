import TinCompiler.Library.ControlTrace
import TinCompiler.Machine.Paths

/-!
# The flow of a piece

Where the machine goes from each cell, with a branch for each outcome of a condition.
-/

namespace TinCompiler

/-- Where the machine goes from the cell at `i`; at a `jz` on a non-zero value it falls
through. -/
def flowOf (cells : List Cell) (i : ℕ) : Transfer ℕ :=
  match cells[i]? with
  | some (.inst .ret) => .leave
  | some (.inst .jmp) => .go (jumpTarget cells i)
  | some (.inst (.jz _)) => .branch (i + 2) (jumpTarget cells i)
  | some (.inst inst) => .go (if inst.hasImmediate then i + 2 else i + 1)
  | _ => .stuck

/-- The cells alone. -/
def cellGraph (cells : List Cell) : CodeGraph ℕ Empty where
  flow := flowOf cells
  code := fun label => label.elim
  visible := fun _ => false
  visible_of_code := fun label => label.elim

variable {cells : List Cell} {i j : ℕ}

theorem flowNext_eq (cells : List Cell) (i : ℕ) : flowNext cells i = (flowOf cells i).targets := by
  cases hcell : cells[i]? with
  | none => rw [flowNext, flowOf, hcell]; rfl
  | some cell =>
      cases cell with
      | inst inst =>
          rw [flowNext, flowOf, hcell]
          cases inst <;> rfl
      | imm v => rw [flowNext, flowOf, hcell]; rfl

theorem mem_flowNext_of_go (h : flowOf cells i = .go j) : j ∈ flowNext cells i := by
  rw [flowNext_eq, h]
  exact List.mem_singleton_self j

theorem mem_flowNext_of_branch {yes no : ℕ} (h : flowOf cells i = .branch yes no) (answer : Bool) :
    (if answer then yes else no) ∈ flowNext cells i := by
  rw [flowNext_eq, h]
  cases answer <;> simp [Transfer.targets]

end TinCompiler
