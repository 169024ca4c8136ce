import TinCompiler.Bytecode
import TinCompiler.Library.ByteMemory

/-!
# The virtual machine

The loop of `VirtualMachine::execute`.  Memory is addressed by natural numbers, a
register holds 64 bits.  Floating point arithmetic and the native functions are
parameters (`Host`).
-/

namespace TinCompiler

/-- What changes while the machine runs; the program counter is the register `pc`. -/
structure Machine where
  registers : Register → BitVec 64
  memory : ByteMemory
  pieceIndex : ℤ := 0
  /-- the blocks handed out by `malloc`, with their sizes -/
  allocations : List (ℕ × ℕ) := []

/-- Why the loop of `execute` is left. -/
inductive Stop where
  | finished
  | pcOutOfBounds
  | accessViolation
  | stackOverflow
  /-- "Stack pointer and base pointer mismatch on ret instruction" -/
  | frameMismatch
  /-- the processor traps on a division by zero and on the one that overflows -/
  | divisionTrap
  /-- control reached something that is not an instruction -/
  | notCode
deriving DecidableEq, Repr

/-- The operations of the machine that are not modelled. -/
structure Host where
  floatArithmetic : ArithmeticOp → BitVec 32 → BitVec 32 → BitVec 32
  floatCompare : CompareOp → BitVec 32 → BitVec 32 → Bool
  intToFloat : BitVec 32 → BitVec 32
  floatToInt : BitVec 32 → BitVec 32
  /-- `run_native_call`, by the (negative) immediate of the call -/
  native : ℤ → Machine → Machine

/-- A host that computes nothing, for runs that do not use it. -/
def Host.trivial : Host where
  floatArithmetic := fun _ _ _ => 0
  floatCompare := fun _ _ _ => false
  intToFloat := fun _ => 0
  floatToInt := fun _ => 0
  native := fun _ m => m

/-- What stays the same while the machine runs. -/
structure VirtualMachine where
  host : Host
  /-- the instructions of the pieces, after `apply_relocations` -/
  pieces : List (List Cell)
  stack : ℕ
  stackMax : ℕ := 0x10000
  globalData : ℕ
  globalDataMax : ℕ
  /-- addresses are those of a user process -/
  stack_lt : stack + stackMax < 2 ^ 63

/-- The machine with the stack at `2 ^ 20` and no global data. -/
def VirtualMachine.ofPieces (pieces : List (List Cell)) : VirtualMachine where
  host := .trivial
  pieces := pieces
  stack := 0x100000
  globalData := 0
  globalDataMax := 0
  stack_lt := by decide

namespace Machine

def set (m : Machine) (reg : Register) (value : BitVec 64) : Machine :=
  { m with registers := fun r => if r = reg then value else m.registers r }

@[simp] theorem set_registers_self (m : Machine) (reg : Register) (value : BitVec 64) :
    (m.set reg value).registers reg = value := by
  simp [set]

theorem set_registers_of_ne (m : Machine) {reg other : Register} (value : BitVec 64)
    (hne : other ≠ reg) : (m.set reg value).registers other = m.registers other := by
  simp [set, hne]

@[simp] theorem set_memory (m : Machine) (reg : Register) (value : BitVec 64) :
    (m.set reg value).memory = m.memory := rfl

@[simp] theorem set_pieceIndex (m : Machine) (reg : Register) (value : BitVec 64) :
    (m.set reg value).pieceIndex = m.pieceIndex := rfl

@[simp] theorem set_allocations (m : Machine) (reg : Register) (value : BitVec 64) :
    (m.set reg value).allocations = m.allocations := rfl

/-- `*(i64*)registers[REG_SP] = value`, and the same for 4 bytes -/
def storeSp (m : Machine) (size : ℕ) (value : BitVec 64) : Machine :=
  { m with memory := m.memory.store (m.registers .sp).toNat size value }

def loadSp (m : Machine) (size : ℕ) : BitVec 64 :=
  m.memory.load (m.registers .sp).toNat size

end Machine

namespace VirtualMachine

variable (vm : VirtualMachine)

/-- The macro `CHECK_STACK`. -/
def checkStack (m : Machine) : Except Stop Machine :=
  if vm.stack ≤ (m.registers .sp).toInt ∧ (m.registers .sp).toInt ≤ vm.stack + vm.stackMax then
    .ok m
  else .error .stackOverflow

/-- `diff + size <= max` on 64-bit unsigned integers. -/
def inRange (base max : ℕ) (ptr : BitVec 64) (size : ℤ) : Bool :=
  (ptr - BitVec.ofNat 64 base + BitVec.ofInt 64 size).toNat ≤ max

/-- `can_access_memory` -/
def canAccessMemory (m : Machine) (ptr : BitVec 64) (size : ℤ) : Bool :=
  inRange vm.stack vm.stackMax ptr size || inRange vm.globalData vm.globalDataMax ptr size ||
    m.allocations.any fun allocation => inRange allocation.1 allocation.2 ptr size

/-- The lambda `mov` copies 1, 2, 4 or 8 bytes. -/
def movable (size : ℕ) : Bool := size = 1 || size = 2 || size = 4 || size = 8

/-- `INST_MOV_MR` and `INST_MOV_MR_DISP` -/
def movMR (m : Machine) (op0 op1 : Register) (size : ℕ) (imm : ℤ) : Except Stop Machine :=
  let ptr := m.registers op0 + BitVec.ofInt 64 imm
  if vm.canAccessMemory m ptr size then
    .ok (if movable size then
      { m with memory := m.memory.store ptr.toNat size (m.registers op1) } else m)
  else .error .accessViolation

/-- `INST_MOV_RM` and `INST_MOV_RM_DISP`; the register is reset first. -/
def movRM (m : Machine) (op0 op1 : Register) (size : ℕ) (imm : ℤ) : Except Stop Machine :=
  let ptr := m.registers op1 + BitVec.ofInt 64 imm
  if vm.canAccessMemory m ptr size then
    .ok (m.set op0 (if movable size then m.memory.load ptr.toNat size else 0))
  else .error .accessViolation

/-- `*(float*)&value = low` -/
def setLow (value : BitVec 64) (low : BitVec 32) : BitVec 64 := value.extractLsb' 32 32 ++ low

/-- `((i8)op1) | ((i8)op2 << 8)`, an `int` -/
def incrAmount (op1 op2 : BitVec 8) : BitVec 32 := op1.signExtend 32 ||| op2.signExtend 32 <<< 8

def divisionTraps (x y : BitVec 64) : Bool := y = 0 || (x = BitVec.intMin 64 && y = -1)

/-- The integer operations of `CASEF`. -/
def arithmetic : ArithmeticOp → BitVec 64 → BitVec 64 → BitVec 64
  | .add, x, y => x + y
  | .sub, x, y => x - y
  | .mul, x, y => x * y
  | .div, x, y => x.sdiv y

/-- The comparisons of `CASEC`, on signed integers of one width. -/
def compare {w : ℕ} : CompareOp → BitVec w → BitVec w → Bool
  | .equal, x, y => x = y
  | .notEqual, x, y => x ≠ y
  | .less, x, y => x.slt y
  | .greater, x, y => y.slt x
  | .lessEqual, x, y => x.sle y
  | .greaterEqual, x, y => y.sle x

def ofBool (b : Bool) : BitVec 64 := if b then 1 else 0

/-- `CASEC`: a float, one byte or the whole register, as the control byte says. -/
def compareControl (op : CompareOp) (control : ℕ) (x y : BitVec 64) : Bool :=
  if control.testBit 4 then vm.host.floatCompare op (x.setWidth 32) (y.setWidth 32)
  else if control.testBit 0 then compare op (x.setWidth 8) (y.setWidth 8)
  else compare op x y

/-- `INST_CALL` on a function with a piece. -/
def call (m : Machine) (imm : ℤ) : Except Stop Machine := do
  let m ← vm.checkStack (m.set .sp (m.registers .sp - 4))
  let m := m.storeSp 4 (m.registers .pc)
  let m ← vm.checkStack (m.set .sp (m.registers .sp - 4))
  let m := m.storeSp 4 (BitVec.ofInt 64 m.pieceIndex)
  let m := { m.set .pc 0 with pieceIndex := imm - 1 }
  let m ← vm.checkStack (m.set .sp (m.registers .sp - 8))
  let m := m.storeSp 8 (m.registers .bp)
  return m.set .bp (m.registers .sp)

/-- `INST_RET` -/
def ret (m : Machine) : Except Stop Machine :=
  if m.registers .sp = BitVec.ofNat 64 (vm.stack + vm.stackMax) then .error .finished
  else if m.registers .bp ≠ m.registers .sp then .error .frameMismatch
  else do
    let m := m.set .bp (m.loadSp 8)
    let m ← vm.checkStack (m.set .sp (m.registers .sp + 8))
    let m := { m with pieceIndex := ((m.loadSp 4).setWidth 32).toInt }
    let m ← vm.checkStack (m.set .sp (m.registers .sp + 4))
    let m := m.set .pc (((m.loadSp 4).setWidth 32).signExtend 64)
    vm.checkStack (m.set .sp (m.registers .sp + 4))

/-- The switch of `execute`; `m` has the program counter behind the instruction and its
immediate already. -/
def execute (m : Machine) (imm : ℤ) : Instruction → Except Stop Machine
  | .halt => .ok m
  | .nop => .ok m
  | .cast op0 .intFloat =>
      .ok (m.set op0 (setLow (m.registers op0) (vm.host.intToFloat ((m.registers op0).setWidth 32))))
  | .cast op0 .floatInt =>
      .ok (m.set op0 (setLow (m.registers op0) (vm.host.floatToInt ((m.registers op0).setWidth 32))))
  | .movRR op0 op1 => .ok (m.set op0 (m.registers op1))
  | .movMR op0 op1 size => vm.movMR m op0 op1 size 0
  | .movMRDisp op0 op1 size => vm.movMR m op0 op1 size imm
  | .movRM op0 op1 size => vm.movRM m op0 op1 size 0
  | .movRMDisp op0 op1 size => vm.movRM m op0 op1 size imm
  | .li op0 => .ok (m.set op0 (BitVec.ofInt 64 imm))
  | .push op0 => do
      let m ← vm.checkStack (m.set .sp (m.registers .sp - 8))
      return m.storeSp 8 (m.registers op0)
  | .pop op0 =>
      let m := m.set op0 (m.loadSp 8)
      vm.checkStack (m.set .sp (m.registers .sp + 8))
  | .incr op0 op1 op2 =>
      let m := m.set op0 (m.registers op0 + (incrAmount op1 op2).signExtend 64)
      if op0 = .sp then vm.checkStack m else .ok m
  | .dataptr op0 => .ok (m.set op0 (BitVec.ofNat 64 vm.globalData + BitVec.ofInt 64 imm))
  | .call => if imm < 0 then .ok (vm.host.native imm m) else vm.call m imm
  | .ret => vm.ret m
  | .memzero op0 op1 =>
      if vm.canAccessMemory m (m.registers op0) ((m.registers op1).setWidth 32).toInt then
        .ok { m with
          memory := m.memory.zero (m.registers op0).toNat (m.registers op1).toNat }
      else .error .accessViolation
  | .jmp => .ok (m.set .pc (m.registers .pc + BitVec.ofInt 64 (imm - 1)))
  | .jz op0 =>
      .ok (if m.registers op0 = 0 then m.set .pc (m.registers .pc + BitVec.ofInt 64 (imm - 1)) else m)
  | .arithmetic op op0 op1 true =>
      .ok (m.set op0 (setLow (m.registers op0) (vm.host.floatArithmetic op
        ((m.registers op0).setWidth 32) ((m.registers op1).setWidth 32))))
  | .arithmetic op op0 op1 false =>
      if op = .div ∧ divisionTraps (m.registers op0) (m.registers op1) then .error .divisionTrap
      else .ok (m.set op0 (arithmetic op (m.registers op0) (m.registers op1)))
  | .and op0 op1 =>
      .ok (m.set op0 (ofBool (m.registers op0 ≠ 0 && m.registers op1 ≠ 0)))
  | .or op0 op1 =>
      .ok (m.set op0 (ofBool (m.registers op0 ≠ 0 || m.registers op1 ≠ 0)))
  | .not op0 op1 => .ok (m.set op0 (ofBool (m.registers op1 = 0)))
  | .compare op op0 op1 control =>
      .ok (m.set op0 (ofBool (vm.compareControl op control (m.registers op0) (m.registers op1))))

/-- `bytecode->getPiece(piece_index)` -/
def getPiece (index : ℤ) : Option (List Cell) :=
  if index < 0 then none else vm.pieces[index.toNat]?

/-- One round of the loop of `execute`. -/
def step (m : Machine) : Except Stop Machine :=
  match vm.getPiece m.pieceIndex with
  | none => .error .notCode
  | some instructions =>
      let pc := (m.registers .pc).toNat
      match instructions[pc]? with
      | none => .error .pcOutOfBounds
      | some (.imm _) => .error .notCode
      | some (.inst inst) =>
          let m := m.set .pc (m.registers .pc + 1)
          if inst.hasImmediate then
            match instructions[pc + 1]? with
            | some (.imm value) => vm.execute (m.set .pc (m.registers .pc + 1)) value inst
            | _ => .error .notCode
          else vm.execute m 0 inst

/-- `n` rounds of the loop. -/
def run : ℕ → Machine → Except Stop Machine
  | 0, m => .ok m
  | n + 1, m => (vm.step m).bind (run n)

end VirtualMachine

end TinCompiler
