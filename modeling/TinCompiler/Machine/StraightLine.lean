import TinCompiler.Machine.Assembly
import TinCompiler.VirtualMachine
import Mathlib.Order.Defs.LinearOrder

/-!
# Straight-line code

`runOps` executes a sequence of operations one after the other.  It is what the loop of
the machine does with the cells of the sequence, wherever they are in a piece, if no
operation jumps (`run_of_runOps`).  The rest of the file says what the single
operations do in terms of a stack pointer that is a natural number.
-/

namespace TinCompiler

namespace Machine

@[simp] theorem set_set (m : Machine) (reg : Register) (value value' : BitVec 64) :
    (m.set reg value).set reg value' = m.set reg value' := by
  unfold set
  congr 1
  funext r
  by_cases heq : r = reg <;> simp [heq]

@[simp] theorem set_self (m : Machine) (reg : Register) : m.set reg (m.registers reg) = m := by
  obtain ⟨registers, memory, pieceIndex, allocations⟩ := m
  simp only [set, Machine.mk.injEq, and_true]
  funext r
  by_cases heq : r = reg <;> simp [heq]

end Machine

/-- Neither the program counter nor the piece is changed. -/
def Instruction.Sequential : Instruction → Prop
  | .jmp | .jz _ | .call | .ret => False
  | .cast op0 _ | .movRR op0 _ | .movRM op0 _ _ | .movRMDisp op0 _ _ | .pop op0 | .incr op0 _ _
  | .arithmetic _ op0 _ _ | .and op0 _ | .or op0 _ | .not op0 _ | .compare _ op0 _ _ | .li op0
  | .dataptr op0 => op0 ≠ .pc
  | .halt | .nop | .movMR .. | .movMRDisp .. | .push _ | .memzero .. => True

/-- The operation has an immediate exactly if its instruction reads one, and does not jump. -/
structure Op.Straight (op : Op) : Prop where
  imm : op.inst.hasImmediate = op.imm.isSome
  sequential : op.inst.Sequential

namespace VirtualMachine

variable {vm : VirtualMachine} {m m' : Machine}

theorem checkStack_eq_ok (h : vm.checkStack m = .ok m') : m' = m := by
  unfold checkStack at h
  split at h
  · exact (Except.ok.inj h).symm
  · cases h

theorem execute_sequential {inst : Instruction} {imm : ℤ} (hseq : inst.Sequential)
    (h : vm.execute m imm inst = .ok m') :
    m'.registers .pc = m.registers .pc ∧ m'.pieceIndex = m.pieceIndex := by
  have hset : ∀ {m : Machine} {reg : Register} {value : BitVec 64}, reg ≠ .pc →
      (m.set reg value).registers .pc = m.registers .pc :=
    fun hne => Machine.set_registers_of_ne _ _ (Ne.symm hne)
  cases inst with
  | halt | nop => cases h; exact ⟨rfl, rfl⟩
  | cast op0 type =>
      cases type <;> cases h <;> exact ⟨hset hseq, rfl⟩
  | movRR | and | or | not | compare | li | dataptr => cases h; exact ⟨hset hseq, rfl⟩
  | movMR | movMRDisp =>
      simp only [execute, movMR] at h
      split at h
      · cases h; split <;> exact ⟨rfl, rfl⟩
      · cases h
  | movRM | movRMDisp =>
      simp only [execute, movRM] at h
      split at h
      · cases h; exact ⟨hset hseq, rfl⟩
      · cases h
  | push op0 =>
      simp only [execute, bind, Except.bind] at h
      split at h
      · cases h
      · next next hcheck =>
          cases h
          rw [checkStack_eq_ok hcheck]
          have hpc : (m.set .sp (m.registers .sp - 8)).registers .pc = m.registers .pc :=
            hset (by decide)
          exact ⟨hpc, rfl⟩
  | pop op0 =>
      simp only [execute] at h
      rw [checkStack_eq_ok h]
      exact ⟨(hset (by decide)).trans (hset hseq), rfl⟩
  | incr op0 op1 op2 =>
      simp only [execute] at h
      split at h
      · rw [checkStack_eq_ok h]; exact ⟨hset hseq, rfl⟩
      · cases h; exact ⟨hset hseq, rfl⟩
  | arithmetic op op0 op1 isFloat =>
      cases isFloat with
      | true => cases h; exact ⟨hset hseq, rfl⟩
      | false =>
          simp only [execute] at h
          split at h
          · cases h
          · cases h; exact ⟨hset hseq, rfl⟩
  | memzero op0 op1 =>
      simp only [execute] at h
      split at h
      · cases h; exact ⟨rfl, rfl⟩
      · cases h
  | jmp | jz | call | ret => exact hseq.elim

theorem not_call_of_sequential {inst : Instruction} {imm : ℤ} (hseq : inst.Sequential)
    (hcall : inst = .call) : ¬ imm < 0 := by
  subst hcall
  exact hseq.elim

/-- Only natives allocate. -/
theorem execute_allocations {inst : Instruction} {imm : ℤ} (hnative : inst = .call → ¬ imm < 0)
    (h : vm.execute m imm inst = .ok m') : m'.allocations = m.allocations := by
  cases inst with
  | halt | nop | movRR | and | or | not | compare | li | dataptr => cases h; rfl
  | cast op0 type => cases type <;> cases h <;> rfl
  | movMR | movMRDisp =>
      simp only [execute, movMR] at h
      split at h
      · cases h; split <;> rfl
      · cases h
  | movRM | movRMDisp =>
      simp only [execute, movRM] at h
      split at h
      · cases h; rfl
      · cases h
  | push op0 =>
      simp only [execute, bind, Except.bind] at h
      split at h
      · cases h
      · next next hcheck =>
          cases h
          rw [checkStack_eq_ok hcheck]
          rfl
  | pop op0 =>
      simp only [execute] at h
      rw [checkStack_eq_ok h]
      rfl
  | incr op0 op1 op2 =>
      simp only [execute] at h
      split at h
      · rw [checkStack_eq_ok h]; rfl
      · cases h; rfl
  | arithmetic op op0 op1 isFloat =>
      cases isFloat with
      | true => cases h; rfl
      | false =>
          simp only [execute] at h
          split at h
          · cases h
          · cases h; rfl
  | memzero op0 op1 =>
      simp only [execute] at h
      split at h
      · cases h; rfl
      · cases h
  | jmp => cases h; rfl
  | jz op0 =>
      simp only [execute] at h
      split at h <;> cases h <;> rfl
  | call =>
      simp only [execute, if_neg (hnative rfl), call, bind, Except.bind] at h
      split at h
      · cases h
      · next hfirst =>
          cases checkStack_eq_ok hfirst
          split at h
          · cases h
          · next hsecond =>
              cases checkStack_eq_ok hsecond
              split at h
              · cases h
              · next hthird =>
                  cases checkStack_eq_ok hthird
                  cases h
                  rfl
  | ret =>
      simp only [execute, ret] at h
      split at h
      · cases h
      · split at h
        · cases h
        · simp only [bind, Except.bind] at h
          split at h
          · cases h
          · next hfirst =>
              cases checkStack_eq_ok hfirst
              split at h
              · cases h
              · next hsecond =>
                  cases checkStack_eq_ok hsecond
                  rw [checkStack_eq_ok h]
                  rfl

/-- Execute the operations one after the other. -/
def runOps (vm : VirtualMachine) : List Op → Machine → Except Stop Machine
  | [], m => .ok m
  | op :: ops, m =>
      (vm.execute (m.set .pc (m.registers .pc + BitVec.ofNat 64 op.cells.length))
        (op.imm.getD 0) op.inst).bind (runOps vm ops)

theorem runOps_append (ops ops' : List Op) (m : Machine) :
    vm.runOps (ops ++ ops') m = (vm.runOps ops m).bind (vm.runOps ops') := by
  induction ops generalizing m with
  | nil => rfl
  | cons op ops ih =>
      simp only [List.cons_append, runOps]
      cases vm.execute (m.set .pc (m.registers .pc + BitVec.ofNat 64 op.cells.length))
        (op.imm.getD 0) op.inst with
      | error stop => rfl
      | ok next => exact ih next

theorem runOps_append_of_ok {ops : List Op} (ops' : List Op) (h : vm.runOps ops m = .ok m') :
    vm.runOps (ops ++ ops') m = vm.runOps ops' m' := by
  rw [runOps_append, h]
  rfl

theorem runOps_append_of_error {ops : List Op} {stop : Stop} (ops' : List Op)
    (h : vm.runOps ops m = .error stop) : vm.runOps (ops ++ ops') m = .error stop := by
  rw [runOps_append, h]
  rfl

/-- Straight-line code calls no native. -/
theorem runOps_allocations {ops : List Op} (hseq : ∀ op ∈ ops, op.inst.Sequential)
    (h : vm.runOps ops m = .ok m') : m'.allocations = m.allocations := by
  induction ops generalizing m with
  | nil => rw [← Except.ok.inj h]
  | cons op ops ih =>
      rw [runOps] at h
      cases hexec : vm.execute (m.set .pc (m.registers .pc + BitVec.ofNat 64 op.cells.length))
          (op.imm.getD 0) op.inst with
      | error stop =>
          rw [hexec] at h
          cases h
      | ok next =>
          rw [hexec] at h
          rw [ih (fun op hmem => hseq op (by simp [hmem])) h,
            execute_allocations (not_call_of_sequential (hseq op (by simp))) hexec]
          rfl

/-- The machine is at index `pc` of a piece with these cells. -/
structure At (vm : VirtualMachine) (cells : List Cell) (pc : ℕ) (m : Machine) : Prop where
  piece : vm.getPiece m.pieceIndex = some cells
  pc : m.registers .pc = BitVec.ofNat 64 pc
  /-- cells are indexed by an `int` -/
  length : cells.length < 2 ^ 31

theorem At.toNat_pc {cells : List Cell} {pc : ℕ} (h : vm.At cells pc m) (hle : pc ≤ cells.length) :
    (m.registers .pc).toNat = pc := by
  have := h.length
  rw [h.pc, BitVec.toNat_ofNat, Nat.mod_eq_of_lt (by omega)]

/-- One round of the loop at an operation. -/
theorem step_op {pre post : List Cell} {op : Op} (hstraight : op.Straight)
    (hat : vm.At (pre ++ op.cells ++ post) pre.length m) :
    vm.step m = vm.execute (m.set .pc (m.registers .pc + BitVec.ofNat 64 op.cells.length))
      (op.imm.getD 0) op.inst := by
  have hpc := hat.toNat_pc (by simp)
  obtain ⟨inst, imm⟩ := op
  have himm := hstraight.imm
  cases imm with
  | none =>
      simp only [Option.isSome_none] at himm
      simp [step, hat.piece, hpc, himm, Op.cells]
  | some value =>
      simp only [Option.isSome_some] at himm
      have htwo : m.registers .pc + 1#64 + 1#64 = m.registers .pc + 2#64 := by
        rw [BitVec.add_assoc]; rfl
      simp [step, hat.piece, hpc, himm, Op.cells, htwo]

/-- The loop of the machine runs straight-line code as `runOps` does. -/
theorem run_of_runOps {ops : List Op} (hstraight : ∀ op ∈ ops, op.Straight) :
    ∀ {pre post : List Cell} {m : Machine}, vm.At (pre ++ Op.flatten ops ++ post) pre.length m →
      vm.run ops.length m = vm.runOps ops m ∧
      ∀ m', vm.runOps ops m = .ok m' →
        vm.At (pre ++ Op.flatten ops ++ post) (pre ++ Op.flatten ops).length m' := by
  induction ops with
  | nil =>
      intro pre post m hat
      refine ⟨rfl, fun m' h => ?_⟩
      cases h
      simpa using hat
  | cons op ops ih =>
      intro pre post m hat
      have hop : op.Straight := hstraight op (by simp)
      have hcells : pre ++ Op.flatten (op :: ops) ++ post =
          pre ++ op.cells ++ (Op.flatten ops ++ post) := by
        simp [List.append_assoc]
      have hcells' : pre ++ Op.flatten (op :: ops) ++ post =
          (pre ++ op.cells) ++ Op.flatten ops ++ post := by
        simp [List.append_assoc]
      have hstep := step_op hop (hcells ▸ hat)
      simp only [List.length_cons, run, hstep, runOps]
      cases hexec : vm.execute (m.set .pc (m.registers .pc + BitVec.ofNat 64 op.cells.length))
          (op.imm.getD 0) op.inst with
      | error stop => exact ⟨rfl, fun m' h => by cases h⟩
      | ok next =>
          obtain ⟨hpc, hindex⟩ := execute_sequential hop.sequential hexec
          have hat' : vm.At ((pre ++ op.cells) ++ Op.flatten ops ++ post)
              (pre ++ op.cells).length next := by
            refine ⟨?_, ?_, hcells' ▸ hat.length⟩
            · rw [hindex, ← hcells']
              exact hat.piece
            · rw [hpc, Machine.set_registers_self, hat.pc, List.length_append]
              apply BitVec.eq_of_toNat_eq
              simp
          have hrest := ih (fun op hmem => hstraight op (by simp [hmem])) hat'
          refine ⟨hrest.1, fun m' h => ?_⟩
          have hlast := hrest.2 m' h
          rw [hcells']
          simpa [List.append_assoc] using hlast

/-! ## The stack -/

/-- The stack pointer is the address `sp` in the stack. -/
structure StackAt (vm : VirtualMachine) (m : Machine) (sp : ℕ) : Prop where
  register : m.registers .sp = BitVec.ofNat 64 sp
  low : vm.stack ≤ sp
  high : sp ≤ vm.stack + vm.stackMax

theorem toInt_ofNat_of_lt {n : ℕ} (h : n < 2 ^ 63) : (BitVec.ofNat 64 n).toInt = n := by
  rw [BitVec.toInt_eq_toNat_of_lt]
  · rw [BitVec.toNat_ofNat, Nat.mod_eq_of_lt (by omega)]
  · rw [BitVec.toNat_ofNat, Nat.mod_eq_of_lt (by omega)]
    omega

theorem StackAt.toNat {sp : ℕ} (h : vm.StackAt m sp) : (m.registers .sp).toNat = sp := by
  have hlt := vm.stack_lt
  have hhigh := h.high
  rw [h.register, BitVec.toNat_ofNat, Nat.mod_eq_of_lt (by omega)]

theorem StackAt.checkStack {sp : ℕ} (h : vm.StackAt m sp) : vm.checkStack m = .ok m := by
  have hlt := vm.stack_lt
  have hlow := h.low
  have hhigh := h.high
  have hint := toInt_ofNat_of_lt (show sp < 2 ^ 63 by omega)
  unfold VirtualMachine.checkStack
  rw [h.register, hint, if_pos]
  omega

theorem ofNat_sub {n k : ℕ} (hle : k ≤ n) :
    BitVec.ofNat 64 n - BitVec.ofNat 64 k = BitVec.ofNat 64 (n - k) := by
  obtain ⟨d, rfl⟩ := Nat.exists_eq_add_of_le hle
  rw [Nat.add_sub_cancel_left, Nat.add_comm, BitVec.ofNat_add, BitVec.add_sub_cancel]

theorem ofNat_add (n k : ℕ) :
    BitVec.ofNat 64 n + BitVec.ofNat 64 k = BitVec.ofNat 64 (n + k) :=
  (BitVec.ofNat_add n k).symm

/-- The stack pointer after moving it to `sp`. -/
theorem stackAt_set (m : Machine) {sp : ℕ} (hlow : vm.stack ≤ sp)
    (hhigh : sp ≤ vm.stack + vm.stackMax) : vm.StackAt (m.set .sp (BitVec.ofNat 64 sp)) sp :=
  ⟨Machine.set_registers_self .., hlow, hhigh⟩

/-- A push writes one slot and moves the stack pointer to it. -/
theorem execute_push {sp : ℕ} (h : vm.StackAt m sp) (hfree : vm.stack + 8 ≤ sp) {reg : Register}
    (hreg : reg ≠ .sp) (imm : ℤ) :
    vm.execute m imm (.push reg) =
      .ok { m.set .sp (BitVec.ofNat 64 (sp - 8)) with
        memory := m.memory.store (sp - 8) 8 (m.registers reg) } := by
  have hsp : m.registers .sp - 8 = BitVec.ofNat 64 (sp - 8) := by
    have hle : 8 ≤ sp := by omega
    rw [h.register]
    exact ofNat_sub hle
  have hnext : vm.StackAt (m.set .sp (BitVec.ofNat 64 (sp - 8))) (sp - 8) :=
    stackAt_set m (by omega) (by have := h.high; omega)
  simp only [execute, hsp, hnext.checkStack, bind, Except.bind, pure, Except.pure]
  rw [Machine.storeSp, hnext.toNat, Machine.set_memory, Machine.set_registers_of_ne _ _ hreg]

/-- A pop reads the slot at the stack pointer. -/
theorem execute_pop {sp : ℕ} (h : vm.StackAt m sp) (hused : sp + 8 ≤ vm.stack + vm.stackMax)
    {reg : Register} (hreg : reg ≠ .sp) (imm : ℤ) :
    vm.execute m imm (.pop reg) =
      .ok ((m.set reg (m.memory.load sp 8)).set .sp (BitVec.ofNat 64 (sp + 8))) := by
  have hload : m.loadSp 8 = m.memory.load sp 8 := by rw [Machine.loadSp, h.toNat]
  have hsp : (m.set reg (m.memory.load sp 8)).registers .sp + 8 = BitVec.ofNat 64 (sp + 8) := by
    rw [Machine.set_registers_of_ne _ _ (Ne.symm hreg), h.register]
    exact ofNat_add sp 8
  have hnext : vm.StackAt ((m.set reg (m.memory.load sp 8)).set .sp (BitVec.ofNat 64 (sp + 8)))
      (sp + 8) := stackAt_set _ (by have := h.low; omega) hused
  simp only [execute, hload, hsp, hnext.checkStack]

/-- The stack can be accessed. -/
theorem canAccessMemory_stack {a size : ℕ} (hlow : vm.stack ≤ a)
    (hhigh : a + size ≤ vm.stack + vm.stackMax) :
    vm.canAccessMemory m (BitVec.ofNat 64 a) size = true := by
  have hlt := vm.stack_lt
  have hdiff : BitVec.ofNat 64 a - BitVec.ofNat 64 vm.stack + BitVec.ofInt 64 (size : ℤ) =
      BitVec.ofNat 64 (a - vm.stack + size) := by
    rw [ofNat_sub hlow, BitVec.ofInt_natCast, ofNat_add]
  have hrange : inRange vm.stack vm.stackMax (BitVec.ofNat 64 a) size = true := by
    rw [inRange, hdiff, BitVec.toNat_ofNat, Nat.mod_eq_of_lt (by omega)]
    exact decide_eq_true (by omega)
  simp [canAccessMemory, hrange]

theorem StackAt.of_eq {sp : ℕ} (h : vm.StackAt m sp) (heq : m'.registers .sp = m.registers .sp) :
    vm.StackAt m' sp :=
  ⟨heq.trans h.register, h.low, h.high⟩

/-- All registers but these and the program counter are the same. -/
def SameExcept (regs : List Register) (m m' : Machine) : Prop :=
  ∀ reg, reg ≠ .pc → reg ∉ regs → m'.registers reg = m.registers reg

theorem runOps_cons_of_execute {op : Op} {ops : List Op}
    (hexec : vm.execute (m.set .pc (m.registers .pc + BitVec.ofNat 64 op.cells.length))
      (op.imm.getD 0) op.inst = .ok m') :
    vm.runOps (op :: ops) m = vm.runOps ops m' := by
  rw [runOps, hexec]
  rfl

theorem runOps_push {sp : ℕ} (reg : Register) (ops : List Op) (h : vm.StackAt m sp)
    (hfree : vm.stack + 8 ≤ sp) (hsp : reg ≠ .sp) (hpc : reg ≠ .pc) :
    ∃ m', vm.runOps (⟨.push reg, none⟩ :: ops) m = vm.runOps ops m' ∧ vm.StackAt m' (sp - 8) ∧
      SameExcept [.sp] m m' ∧ m'.memory = m.memory.store (sp - 8) 8 (m.registers reg) := by
  have hat : vm.StackAt (m.set .pc (m.registers .pc + 1)) sp :=
    h.of_eq (Machine.set_registers_of_ne _ _ (by decide))
  refine ⟨_, runOps_cons_of_execute (execute_push hat hfree hsp 0), ?_, ?_, ?_⟩
  · have hmoved : vm.StackAt ((m.set .pc (m.registers .pc + 1)).set .sp (BitVec.ofNat 64 (sp - 8)))
        (sp - 8) := stackAt_set _ (by omega) (by have := h.high; omega)
    exact hmoved.of_eq rfl
  · intro other hother hne
    have hne : other ≠ .sp := by simpa using hne
    exact (Machine.set_registers_of_ne _ _ hne).trans (Machine.set_registers_of_ne _ _ hother)
  · rw [Machine.set_registers_of_ne _ _ hpc]
    rfl

theorem runOps_pop {sp : ℕ} (reg : Register) (ops : List Op) (h : vm.StackAt m sp)
    (hused : sp + 8 ≤ vm.stack + vm.stackMax) (hsp : reg ≠ .sp) :
    ∃ m', vm.runOps (⟨.pop reg, none⟩ :: ops) m = vm.runOps ops m' ∧ vm.StackAt m' (sp + 8) ∧
      m'.registers reg = m.memory.load sp 8 ∧ SameExcept [reg, .sp] m m' ∧
      m'.memory = m.memory := by
  have hat : vm.StackAt (m.set .pc (m.registers .pc + 1)) sp :=
    h.of_eq (Machine.set_registers_of_ne _ _ (by decide))
  refine ⟨_, runOps_cons_of_execute (execute_pop hat hused hsp 0), ?_, ?_, ?_, rfl⟩
  · exact stackAt_set _ (by have := h.low; omega) hused
  · rw [Machine.set_registers_of_ne _ _ hsp, Machine.set_registers_self]
    rfl
  · intro other hother hne
    simp only [List.mem_cons, List.not_mem_nil, or_false, not_or] at hne
    rw [Machine.set_registers_of_ne _ _ hne.2, Machine.set_registers_of_ne _ _ hne.1,
      Machine.set_registers_of_ne _ _ hother]

/-- An operation that sets one register. -/
theorem runOps_set (vm : VirtualMachine) (m : Machine) (op : Op) (reg : Register)
    (value : BitVec 64) (ops : List Op)
    (hexec : ∀ pc, vm.execute (m.set .pc pc) (op.imm.getD 0) op.inst =
      .ok ((m.set .pc pc).set reg value)) :
    ∃ m', vm.runOps (op :: ops) m = vm.runOps ops m' ∧ m'.registers reg = value ∧
      SameExcept [reg] m m' ∧ m'.memory = m.memory := by
  refine ⟨_, runOps_cons_of_execute (hexec _), Machine.set_registers_self .., ?_, rfl⟩
  intro other hother hne
  have hne : other ≠ reg := by simpa using hne
  rw [Machine.set_registers_of_ne _ _ hne, Machine.set_registers_of_ne _ _ hother]

theorem execute_movRM (toReg fromReg : Register) (size : ℕ) (offset : ℤ) :
    vm.execute m ((Op.movRM toReg fromReg size offset).imm.getD 0)
      (Op.movRM toReg fromReg size offset).inst = vm.movRM m toReg fromReg size offset := by
  unfold Op.movRM
  split
  · next hzero => simp [execute, hzero]
  · rfl

/-- A load from the stack. -/
theorem movRM_stack {toReg fromReg : Register} {size a : ℕ} {offset : ℤ} (hmovable : movable size)
    (haddr : m.registers fromReg + BitVec.ofInt 64 offset = BitVec.ofNat 64 a)
    (hlow : vm.stack ≤ a) (hhigh : a + size ≤ vm.stack + vm.stackMax) :
    vm.movRM m toReg fromReg size offset = .ok (m.set toReg (m.memory.load a size)) := by
  have hlt := vm.stack_lt
  have hnat : (BitVec.ofNat 64 a).toNat = a := by
    rw [BitVec.toNat_ofNat, Nat.mod_eq_of_lt (by omega)]
  have haccess : vm.canAccessMemory m (BitVec.ofNat 64 a) size = true :=
    canAccessMemory_stack hlow hhigh
  simp [movRM, haddr, haccess, hmovable, hnat]

end VirtualMachine

end TinCompiler
