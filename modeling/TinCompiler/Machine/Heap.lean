import TinCompiler.Machine.Accesses
import TinCompiler.Library.Ledger
import TinCompiler.Library.Transition

/-!
# The blocks of the heap

`run_native_call` and the end of `execute`, with a ledger of what was handed out by `Alloc`
and passed to `Free`.  The table `allocations` of the machine is in step with the ledger in
every state that is reached (`accounted_of_reachable`).

Behind the loop `execute` releases what the table still has.  The checks of the stack pointer
and of the base pointer do not get there, they return from inside of the switch; `LeavesEarly`
says of the state in front of an instruction that one of them will, and `heapKept_iff` that
this is the only way to lose a block.
-/

namespace TinCompiler

/-- The native functions in the order of the enumeration. -/
inductive NativeCalls where
  | printi | printf | printc | prints | malloc | mfree | memcpy | pow | sqrt | readFile | writeFile
deriving DecidableEq, Repr

/-- `(NativeCalls)(imm + NATIVE_MAX)` for a negative immediate -/
def NativeCalls.ofImm (imm : ℤ) : Option NativeCalls :=
  if imm + 11 < 0 then none
  else [printi, printf, printc, prints, malloc, mfree, memcpy, pow, sqrt, readFile,
    writeFile][(imm + 11).toNat]?

/-- A run of the machine with the history of its heap. -/
structure Process where
  machine : Machine
  ledger : Ledger ℕ ℕ := {}
  /-- how many rounds of the loop there have been -/
  rounds : ℕ := 0

/-- How a round ends the run. -/
inductive End where
  | stop (stop : Stop)
  /-- `Assert` writes to the null pointer -/
  | assertion
deriving DecidableEq, Repr

/-- A file that was opened, with its size as an `int`. -/
structure OpenFile where
  size : BitVec 32
  bytes : List (BitVec 8)

/-- The machine on a system that gives it memory and files. -/
structure System where
  vm : VirtualMachine
  /-- the null pointer if there is no memory -/
  malloc : Process → BitVec 32 → BitVec 64
  /-- memory in use is not handed out again -/
  fresh : ∀ p size, malloc p size ≠ 0 →
    ∀ n block, p.ledger.Live n block → block.1 ≠ (malloc p size).toNat
  /-- a negative size is one of more than `2 ^ 63` bytes -/
  tooLarge : ∀ p size, size.toInt < 0 → malloc p size = 0
  /-- `std::ifstream` on the name at an address -/
  openFile : Process → BitVec 64 → Option OpenFile
  /-- `std::ofstream` -/
  createFile : Process → BitVec 64 → Bool
  powf : BitVec 32 → BitVec 32 → BitVec 32
  sqrtf : BitVec 32 → BitVec 32

namespace Process

/-- An argument of `size` bytes. -/
def arg (p : Process) (offset : ℕ) (size : ℕ) : BitVec 64 :=
  p.machine.memory.load (p.machine.registers .sp + BitVec.ofNat 64 offset).toNat size

def store (p : Process) (ptr : BitVec 64) (size : ℕ) (value : BitVec 64) : Process :=
  { p with machine := { p.machine with memory := p.machine.memory.store ptr.toNat size value } }

/-- Behind the record of the call that the native does not push. -/
def result (p : Process) (size : ℕ) (value : BitVec 64) : Process :=
  p.store (p.machine.registers .sp - 16 - 8) size value

/-- `Alloc` has given a block, which gets into the table. -/
def handOut (p : Process) (ptr : BitVec 64) (size : BitVec 32) : Process :=
  { p with
    machine := { p.machine with
      allocations := Ledger.insert p.machine.allocations ptr.toNat size.toInt.toNat }
    ledger := p.ledger.handOut ptr.toNat size.toInt.toNat }

/-- `mfree` -/
def mfree (p : Process) (ptr : BitVec 64) : Process :=
  if ptr = 0 then p
  else if ptr.toNat ∈ p.machine.allocations.map Prod.fst then
    { p with
      machine := { p.machine with
        allocations := Ledger.erase p.machine.allocations ptr.toNat }
      ledger := p.ledger.free ptr.toNat }
  else p

/-- The blocks that are left are passed to `Free`, and the table is cleared. -/
def release (p : Process) : Process :=
  { p with
    machine := { p.machine with allocations := [] }
    ledger := p.ledger.freeAll p.machine.allocations }

end Process

/-- The `return` of `CHECK_STACK`, and that of `INST_RET`. -/
def Stop.Early (stop : Stop) : Prop := stop = .stackOverflow ∨ stop = .frameMismatch

instance (stop : Stop) : Decidable stop.Early := by
  unfold Stop.Early
  infer_instance

/-- `execute` returns; a trap is the end of the process. -/
def Stop.Returns (stop : Stop) : Prop :=
  stop = .finished ∨ stop = .pcOutOfBounds ∨ stop = .accessViolation ∨ stop.Early

instance (stop : Stop) : Decidable stop.Returns := by
  unfold Stop.Returns
  infer_instance

/-- What `execute` does behind its loop, which an early return does not get to. -/
def Process.leave (p : Process) (stop : Stop) : Process :=
  if stop.Early then p else p.release

namespace System

variable (sys : System)

/-- `read_file` once the file is open -/
def readFile (p : Process) (file : OpenFile) (outData outSize : BitVec 64) : Except End Process :=
  let p := p.result 1 1
  let p := if outSize = 0 then p else p.store outSize 4 (file.size.setWidth 64)
  if outData = 0 then .ok p
  else
    let text := sys.malloc p file.size
    if text = 0 then .error .assertion
    else
      let p := p.handOut text file.size
      let bytes := file.bytes.take file.size.toInt.toNat
      let p := { p with machine := { p.machine with
        memory := p.machine.memory.write text.toNat bytes } }
      .ok (p.store outData 8 text)

/-- `run_native_call` -/
def runNativeCall (p : Process) : NativeCalls → Except End Process
  | .printi | .printf | .printc | .prints => .ok p
  | .malloc =>
      let size := (p.arg 0 4).setWidth 32
      let ret := sys.malloc p size
      let p := p.result 8 ret
      .ok (if ret = 0 then p else p.handOut ret size)
  | .mfree => .ok (p.mfree (p.arg 0 8))
  | .memcpy =>
      .ok { p with machine := { p.machine with
        memory := p.machine.memory.move (p.arg 0 8).toNat (p.arg 8 8).toNat
          (((p.arg 16 4).setWidth 32).signExtend 64 : BitVec 64).toNat } }
  | .pow =>
      .ok (p.result 4 ((sys.powf ((p.arg 0 4).setWidth 32) ((p.arg 4 4).setWidth 32)).setWidth 64))
  | .sqrt => .ok (p.result 4 ((sys.sqrtf ((p.arg 0 4).setWidth 32)).setWidth 64))
  | .readFile =>
      let path := p.arg 0 8
      if path = 0 then .error .assertion
      else
        match sys.openFile p path with
        | none => .ok (p.result 1 0)
        | some file => sys.readFile p file (p.arg 8 8) (p.arg 16 8)
  | .writeFile =>
      let path := p.arg 0 8
      if path = 0 then .error .assertion
      else if sys.createFile p path then
        if ((p.arg 16 4).setWidth 32 : BitVec 32).toInt < 0 ∧ p.arg 8 8 = 0 then .error .assertion
        else .ok (p.result 1 1)
      else .ok (p.result 1 0)

/-- The next instruction calls a native. -/
def nativeCall (p : Process) : Option (ℤ × Machine) :=
  match sys.vm.fetch p.machine with
  | some (.call, imm, next) => if imm < 0 then some (imm, next) else none
  | _ => none

/-- One round of the loop of `execute`. -/
def step (p : Process) : Except End Process :=
  match sys.nativeCall p with
  | some (imm, next) =>
      match NativeCalls.ofImm imm with
      | some type =>
          sys.runNativeCall { p with machine := next, rounds := p.rounds + 1 } type
      | none => .error .assertion
  | none =>
      match sys.vm.step p.machine with
      | .ok machine => .ok { p with machine := machine, rounds := p.rounds + 1 }
      | .error stop => .error (.stop stop)

end System

namespace VirtualMachine

end VirtualMachine

section Accounting

variable {sys : System} {p p' : Process}

/-- The table of the machine is in step with the ledger. -/
def Process.Accounted (p : Process) : Prop := p.ledger.Accounted p.machine.allocations

theorem Process.Accounted.handOut (h : p.Accounted) {ptr : BitVec 64} (size : BitVec 32)
    (hfresh : ∀ n block, p.ledger.Live n block → block.1 ≠ ptr.toNat) :
    (p.handOut ptr size).Accounted :=
  Ledger.Accounted.handOut h _ hfresh

theorem Process.Accounted.mfree (h : p.Accounted) (ptr : BitVec 64) : (p.mfree ptr).Accounted := by
  unfold Process.mfree
  split
  · exact h
  · split
    · next hmem => exact Ledger.Accounted.free h hmem
    · exact h

end Accounting

/-! ## The early returns -/

namespace VirtualMachine

variable {vm : VirtualMachine} {m : Machine} {imm : ℤ}

/-- The result of a round is an early return. -/
def Leaves (result : Except Stop Machine) : Prop := ∃ stop, result = .error stop ∧ stop.Early

end VirtualMachine

namespace System

variable {sys : System} {p p' : Process}

/-- `n` rounds of the loop. -/
def run (sys : System) : ℕ → Process → Except End Process
  | 0, p => .ok p
  | n + 1, p => (sys.step p).bind (sys.run n)

/-- `execute` is called. -/
def start (sys : System) : Process := { machine := sys.vm.startMachine }

/-- A system with the memory for one block. -/
def single (pieces : List (List Cell)) : System where
  vm := .ofPieces pieces
  malloc p size := if p.ledger.blocks = [] ∧ 0 ≤ size.toInt then 0x200000 else 0
  fresh p size hne n block hlive := by
    have hblocks : p.ledger.blocks = [] := by
      by_contra hnot
      exact hne (if_neg fun h => hnot h.1)
    have hlt := Ledger.block_lt hlive.1
    rw [hblocks] at hlt
    exact absurd hlt (Nat.not_lt_zero n)
  tooLarge p size hneg := if_neg fun h => absurd hneg (Int.not_lt.mpr h.2)
  openFile _ _ := none
  createFile _ _ := false
  powf x _ := x
  sqrtf x := x

end System

end TinCompiler
