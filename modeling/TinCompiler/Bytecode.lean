import Mathlib

/-!
# Bytecode

The instructions, pieces and emit functions of `Bytecode.h` and `Bytecode.cpp`.  A piece
is a vector of 32-bit cells: an instruction, or the immediate of the instruction before
it.  The operands that an instruction packs into `op0`, `op1` and `op2` are fields of its
constructor; only `INST_INCR` keeps them packed, since its packing loses bits.
-/

namespace TinCompiler

inductive Register where
  | invalid | a | b | c | d | e | f | sp | bp | pc | t0 | t1
deriving DecidableEq, Repr

inductive CastType where
  | floatInt | intFloat
deriving DecidableEq, Repr

inductive ArithmeticOp where
  | add | sub | mul | div
deriving DecidableEq, Repr

inductive CompareOp where
  | equal | notEqual | less | greater | lessEqual | greaterEqual
deriving DecidableEq, Repr

inductive Instruction where
  | halt
  | nop
  | cast (op0 : Register) (type : CastType)
  | movRR (op0 op1 : Register)
  | movMR (op0 op1 : Register) (size : ℕ)
  | movRM (op0 op1 : Register) (size : ℕ)
  | push (op0 : Register)
  | pop (op0 : Register)
  /-- `op1` and `op2` hold the amount, one byte each -/
  | incr (op0 : Register) (op1 op2 : BitVec 8)
  | arithmetic (op : ArithmeticOp) (op0 op1 : Register) (isFloat : Bool)
  | and (op0 op1 : Register)
  | or (op0 op1 : Register)
  | not (op0 op1 : Register)
  /-- `control` is the size of the operands, or `CONTROL_FLOAT` set in it -/
  | compare (op : CompareOp) (op0 op1 : Register) (control : ℕ)
  | ret
  | memzero (op0 op1 : Register)
  | li (op0 : Register)
  | jmp
  | jz (op0 : Register)
  | call
  | movMRDisp (op0 op1 : Register) (size : ℕ)
  | movRMDisp (op0 op1 : Register) (size : ℕ)
  | dataptr (op0 : Register)
deriving DecidableEq, Repr

/-- `opcode >= INST_IMMEDIATES` -/
def Instruction.hasImmediate : Instruction → Bool
  | li _ | jmp | jz _ | call | movMRDisp .. | movRMDisp .. | dataptr _ => true
  | _ => false

/-- One element of `instructions`. -/
inductive Cell where
  | inst (instruction : Instruction)
  | imm (value : ℤ)
deriving DecidableEq, Repr

structure BytecodePiece where
  pieceIndex : ℕ := 0
  name : String := ""
  instructions : List Cell := []
  indexOfNonImmediates : List ℕ := []
  virtualSp : ℤ := 0
  /-- the function and the index of the immediate of each call -/
  relocations : List (ℕ × ℕ) := []
deriving Repr

namespace BytecodePiece

variable (piece : BytecodePiece)

def getPc : ℕ := piece.instructions.length

def emit (instruction : Instruction) : BytecodePiece :=
  { piece with
    indexOfNonImmediates := piece.indexOfNonImmediates ++ [piece.instructions.length]
    instructions := piece.instructions ++ [.inst instruction] }

def emitImm (value : ℤ) : BytecodePiece :=
  { piece with instructions := piece.instructions ++ [.imm value] }

def popLastInst : BytecodePiece :=
  match piece.indexOfNonImmediates.getLast? with
  | none => piece
  | some index =>
      { piece with
        indexOfNonImmediates := piece.indexOfNonImmediates.dropLast
        instructions := piece.instructions.take index }

/-- `*get(index_of_non_immediates.back())` -/
def lastInst : Option Cell :=
  piece.indexOfNonImmediates.getLast?.bind fun index => piece.instructions[index]?

def emitLi (reg : Register) (imm : ℤ) : BytecodePiece :=
  (piece.emit (.li reg)).emitImm imm

def emitPush (reg : Register) : BytecodePiece :=
  let piece := piece.emit (.push reg)
  { piece with virtualSp := piece.virtualSp - 8 }

/-- A push of the same register just before is removed instead. -/
def emitPop (reg : Register) : BytecodePiece :=
  let piece := { piece with virtualSp := piece.virtualSp + 8 }
  if piece.lastInst = some (.inst (.push reg)) then piece.popLastInst
  else piece.emit (.pop reg)

/-- The operands are `imm & 0xFF` and `imm >> 8`, each cast to one byte. -/
def emitIncr (reg : Register) (imm : ℤ) : BytecodePiece :=
  let piece := piece.emit (.incr reg (BitVec.ofInt 8 imm) (BitVec.ofInt 8 (imm / 2 ^ 8)))
  if reg = .sp then { piece with virtualSp := piece.virtualSp + imm } else piece

def emitCast (reg : Register) (castType : CastType) : BytecodePiece :=
  piece.emit (.cast reg castType)

def emitMovRR (toReg fromReg : Register) : BytecodePiece := piece.emit (.movRR toReg fromReg)

def emitMovMR (toReg fromReg : Register) (size : ℕ) : BytecodePiece :=
  piece.emit (.movMR toReg fromReg size)

def emitMovRM (toReg fromReg : Register) (size : ℕ) : BytecodePiece :=
  piece.emit (.movRM toReg fromReg size)

def emitMovMRDisp (toReg fromReg : Register) (size : ℕ) (offset : ℤ) : BytecodePiece :=
  if offset = 0 then piece.emitMovMR toReg fromReg size
  else (piece.emit (.movMRDisp toReg fromReg size)).emitImm offset

def emitMovRMDisp (toReg fromReg : Register) (size : ℕ) (offset : ℤ) : BytecodePiece :=
  if offset = 0 then piece.emitMovRM toReg fromReg size
  else (piece.emit (.movRMDisp toReg fromReg size)).emitImm offset

/-- `emit_add`, `emit_sub`, `emit_mul` and `emit_div` -/
def emitArithmetic (op : ArithmeticOp) (toFromReg fromReg : Register) (isFloat : Bool := false) :
    BytecodePiece :=
  piece.emit (.arithmetic op toFromReg fromReg isFloat)

def emitAnd (toFromReg fromReg : Register) : BytecodePiece := piece.emit (.and toFromReg fromReg)

def emitOr (toFromReg fromReg : Register) : BytecodePiece := piece.emit (.or toFromReg fromReg)

def emitNot (toReg fromReg : Register) : BytecodePiece := piece.emit (.not toReg fromReg)

/-- `emit_eq` to `emit_greater_equal`; the control byte is `size`, with `CONTROL_FLOAT`
set for floats. -/
def emitCompare (op : CompareOp) (toFromReg fromReg : Register) (size : ℕ)
    (isFloat : Bool := false) : BytecodePiece :=
  piece.emit (.compare op toFromReg fromReg (size ||| if isFloat then 16 else 0))

def emitRet : BytecodePiece := piece.emit .ret

def emitMemzero (reg regSize : Register) : BytecodePiece := piece.emit (.memzero reg regSize)

def emitDataptr (reg : Register) (offset : ℤ) : BytecodePiece :=
  (piece.emit (.dataptr reg)).emitImm offset

/-- `emit_jmp(int pc)`; the immediate is relative to its own index. -/
def emitJmp (pc : ℕ) : BytecodePiece :=
  let piece := piece.emit .jmp
  piece.emitImm (pc - piece.getPc)

/-- `emit_jmp(int* out_index_of_imm)` -/
def emitJmpReloc : ℕ × BytecodePiece :=
  let piece := piece.emit .jmp
  (piece.getPc, piece.emitImm 0)

/-- `emit_jz(Register reg, int* out_index_of_imm)` -/
def emitJzReloc (reg : Register) : ℕ × BytecodePiece :=
  let piece := piece.emit (.jz reg)
  (piece.getPc, piece.emitImm 0)

/-- `emit_call(int* out_index_of_imm)` -/
def emitCall : ℕ × BytecodePiece :=
  let piece := piece.emit .call
  (piece.getPc, piece.emitImm 0)

def fixJumpHere (immIndex : ℕ) : BytecodePiece :=
  { piece with
    instructions := piece.instructions.set immIndex (.imm (piece.getPc - immIndex)) }

def addRelocation (function : ℕ) (immIndex : ℕ) : BytecodePiece :=
  { piece with relocations := piece.relocations ++ [(function, immIndex)] }

end BytecodePiece

/-- The global data and the pieces; the bytes of the global data are left out. -/
structure Bytecode where
  globalDataSize : ℕ := 0
  stringMap : String → Option ℕ := fun _ => none
  pieces : List BytecodePiece := []

namespace Bytecode

/-- `appendData` returns the offset of the new data. -/
def appendData (bytecode : Bytecode) (size : ℕ) : ℕ × Bytecode :=
  (bytecode.globalDataSize, { bytecode with globalDataSize := bytecode.globalDataSize + size })

def appendString (bytecode : Bytecode) (str : String) : ℕ × Bytecode :=
  match bytecode.stringMap str with
  | some offset => (offset, bytecode)
  | none =>
      let (offset, bytecode) := bytecode.appendData (str.utf8ByteSize + 1)
      (offset, { bytecode with stringMap := fun s => if s = str then some offset
        else bytecode.stringMap s })

end Bytecode

end TinCompiler
