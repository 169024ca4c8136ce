import TinCompiler.Bytecode
import Mathlib.Data.List.Induction

/-!
# Pieces as sequences of operations

A piece that is only emitted to is a sequence of operations, an instruction with its
immediate each (`Assembles`).  Every emit function appends one operation, except that
`emit_pop` may remove the last one instead (`popOp`).
-/

namespace TinCompiler

/-- An instruction together with its immediate. -/
structure Op where
  inst : Instruction
  imm : Option ℤ := none
deriving DecidableEq, Repr

namespace Op

/-- The cells of an operation. -/
def cells : Op → List Cell
  | ⟨inst, none⟩ => [.inst inst]
  | ⟨inst, some value⟩ => [.inst inst, .imm value]

/-- The cells of a sequence of operations. -/
def flatten (ops : List Op) : List Cell := ops.flatMap cells

@[simp] theorem flatten_nil : flatten [] = [] := rfl

@[simp] theorem flatten_cons (op : Op) (ops : List Op) :
    flatten (op :: ops) = op.cells ++ flatten ops := rfl

@[simp] theorem flatten_append (ops ops' : List Op) :
    flatten (ops ++ ops') = flatten ops ++ flatten ops' := List.flatMap_append

/-- The indices of the instructions, from a first index on. -/
def positions : ℕ → List Op → List ℕ
  | _, [] => []
  | start, op :: ops => start :: positions (start + op.cells.length) ops

theorem positions_append (ops ops' : List Op) : ∀ start,
    positions start (ops ++ ops') =
      positions start ops ++ positions (start + (flatten ops).length) ops' := by
  induction ops with
  | nil => simp [positions]
  | cons op ops ih =>
      intro start
      simp [positions, ih, Nat.add_assoc]

@[simp] theorem length_positions (ops : List Op) : ∀ start,
    (positions start ops).length = ops.length := by
  induction ops with
  | nil => exact fun _ => rfl
  | cons op ops ih => exact fun start => congrArg Nat.succ (ih _)

theorem head_cells (op : Op) : ∃ rest, op.cells = .inst op.inst :: rest := by
  rcases op with ⟨inst, _ | value⟩
  · exact ⟨[], rfl⟩
  · exact ⟨[.imm value], rfl⟩

/-- What `emit_pop` makes of a sequence. -/
def popOp (reg : Register) (ops : List Op) : List Op :=
  if ops.getLast?.map Op.inst = some (.push reg) then ops.dropLast else ops ++ [⟨.pop reg, none⟩]

@[simp] theorem popOp_push (reg : Register) (ops : List Op) :
    popOp reg (ops ++ [⟨.push reg, none⟩]) = ops := by
  simp [popOp]

theorem popOp_of_ne {reg : Register} {ops : List Op} {op : Op} (hne : op.inst ≠ .push reg) :
    popOp reg (ops ++ [op]) = ops ++ [op, ⟨.pop reg, none⟩] := by
  simp [popOp, hne]

/-- A store; a displacement of 0 selects the form without an immediate. -/
def movMR (toReg fromReg : Register) (size : ℕ) (offset : ℤ) : Op :=
  if offset = 0 then ⟨.movMR toReg fromReg size, none⟩
  else ⟨.movMRDisp toReg fromReg size, some offset⟩

/-- A load; a displacement of 0 selects the form without an immediate. -/
def movRM (toReg fromReg : Register) (size : ℕ) (offset : ℤ) : Op :=
  if offset = 0 then ⟨.movRM toReg fromReg size, none⟩
  else ⟨.movRMDisp toReg fromReg size, some offset⟩

/-- An addition of an immediate, in the encoding of `emit_incr`. -/
def incr (reg : Register) (imm : ℤ) : Op :=
  ⟨.incr reg (BitVec.ofInt 8 imm) (BitVec.ofInt 8 (imm / 2 ^ 8)), none⟩

end Op

open Op

/-- The piece holds these operations, and `index_of_non_immediates` their indices. -/
structure Assembles (piece : BytecodePiece) (ops : List Op) : Prop where
  instructions : piece.instructions = flatten ops
  positions : piece.indexOfNonImmediates = positions 0 ops

theorem assembles_empty : Assembles {} [] := ⟨rfl, rfl⟩

namespace Assembles

variable {piece : BytecodePiece} {ops : List Op}

theorem of_eq {piece' : BytecodePiece} (h : Assembles piece ops)
    (hinstructions : piece'.instructions = piece.instructions)
    (hpositions : piece'.indexOfNonImmediates = piece.indexOfNonImmediates) :
    Assembles piece' ops :=
  ⟨hinstructions.trans h.instructions, hpositions.trans h.positions⟩

theorem emit (h : Assembles piece ops) (inst : Instruction) :
    Assembles (piece.emit inst) (ops ++ [⟨inst, none⟩]) := by
  refine ⟨?_, ?_⟩
  · simp [BytecodePiece.emit, h.instructions, cells]
  · simp [BytecodePiece.emit, h.instructions, h.positions, positions_append, Op.positions]

theorem emitWithImm (h : Assembles piece ops) (inst : Instruction) (value : ℤ) :
    Assembles ((piece.emit inst).emitImm value) (ops ++ [⟨inst, some value⟩]) := by
  refine ⟨?_, ?_⟩
  · simp [BytecodePiece.emit, BytecodePiece.emitImm, h.instructions, cells]
  · simp [BytecodePiece.emit, BytecodePiece.emitImm, h.instructions, h.positions,
      positions_append, Op.positions]

theorem lastInst (h : Assembles piece ops) :
    piece.lastInst = ops.getLast?.map fun op => .inst op.inst := by
  cases ops using List.reverseRecOn with
  | nil => simp [BytecodePiece.lastInst, h.positions, Op.positions]
  | append_singleton ops op =>
      obtain ⟨rest, hcells⟩ := op.head_cells
      simp [BytecodePiece.lastInst, h.positions, h.instructions, positions_append, Op.positions,
        hcells]

theorem popLastInst (h : Assembles piece ops) : Assembles piece.popLastInst ops.dropLast := by
  cases ops using List.reverseRecOn with
  | nil => simpa [BytecodePiece.popLastInst, h.positions, Op.positions] using h
  | append_singleton ops op =>
      have hlast : piece.indexOfNonImmediates.getLast? = some (flatten ops).length := by
        simp [h.positions, positions_append, Op.positions]
      refine ⟨?_, ?_⟩
      · simp [BytecodePiece.popLastInst, hlast, h.instructions]
      · simp [BytecodePiece.popLastInst, h.positions, positions_append, Op.positions]

/-! ### The emit functions -/

theorem emitLi (h : Assembles piece ops) (reg : Register) (imm : ℤ) :
    Assembles (piece.emitLi reg imm) (ops ++ [⟨.li reg, some imm⟩]) :=
  h.emitWithImm _ _

theorem emitPush (h : Assembles piece ops) (reg : Register) :
    Assembles (piece.emitPush reg) (ops ++ [⟨.push reg, none⟩]) :=
  (h.emit _).of_eq rfl rfl

theorem emitPop (h : Assembles piece ops) (reg : Register) :
    Assembles (piece.emitPop reg) (popOp reg ops) := by
  have hmoved : Assembles { piece with virtualSp := piece.virtualSp + 8 } ops := h.of_eq rfl rfl
  unfold BytecodePiece.emitPop popOp
  simp only [hmoved.lastInst]
  cases hlast : ops.getLast? with
  | none => simpa using hmoved.emit (.pop reg)
  | some op =>
      by_cases heq : op.inst = .push reg
      · simpa [heq] using hmoved.popLastInst
      · simpa [heq] using hmoved.emit (.pop reg)

theorem emitIncr (h : Assembles piece ops) (reg : Register) (imm : ℤ) :
    Assembles (piece.emitIncr reg imm) (ops ++ [Op.incr reg imm]) := by
  unfold BytecodePiece.emitIncr
  split
  · exact (h.emit _).of_eq rfl rfl
  · exact h.emit _

theorem emitMovMRDisp (h : Assembles piece ops) (toReg fromReg : Register) (size : ℕ)
    (offset : ℤ) : Assembles (piece.emitMovMRDisp toReg fromReg size offset)
      (ops ++ [Op.movMR toReg fromReg size offset]) := by
  unfold BytecodePiece.emitMovMRDisp Op.movMR
  split
  · exact h.emit _
  · exact h.emitWithImm _ _

theorem emitMovRMDisp (h : Assembles piece ops) (toReg fromReg : Register) (size : ℕ)
    (offset : ℤ) : Assembles (piece.emitMovRMDisp toReg fromReg size offset)
      (ops ++ [Op.movRM toReg fromReg size offset]) := by
  unfold BytecodePiece.emitMovRMDisp Op.movRM
  split
  · exact h.emit _
  · exact h.emitWithImm _ _

theorem emitDataptr (h : Assembles piece ops) (reg : Register) (offset : ℤ) :
    Assembles (piece.emitDataptr reg offset) (ops ++ [⟨.dataptr reg, some offset⟩]) :=
  h.emitWithImm _ _

theorem emitCall (h : Assembles piece ops) :
    Assembles piece.emitCall.2 (ops ++ [⟨.call, some 0⟩]) :=
  h.emitWithImm _ _

theorem addRelocation (h : Assembles piece ops) (function immIndex : ℕ) :
    Assembles (piece.addRelocation function immIndex) ops :=
  h.of_eq rfl rfl

end Assembles

end TinCompiler
