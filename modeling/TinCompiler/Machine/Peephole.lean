import TinCompiler.Machine.StackEffect
import Mathlib.Data.Set.Basic

/-!
# Pushes that are removed

`emit_pop` removes a push of the same register right before it.  The code without the pair does
not write the slot of the push, so the two codes agree but for the slots of removed pairs that
have not been written since (`emitPop_sound`): `stale` are these bytes.
-/

namespace TinCompiler

/-! ## Calls of the emit functions -/

/-- The calls that make straight-line code. -/
inductive EmitCall where
  | li (reg : Register) (imm : ℤ)
  | push (reg : Register)
  | pop (reg : Register)
  | incr (reg : Register) (imm : ℤ)
  | cast (reg : Register) (castType : CastType)
  | movRR (toReg fromReg : Register)
  | movMR (toReg fromReg : Register) (size : ℕ)
  | movRM (toReg fromReg : Register) (size : ℕ)
  | movMRDisp (toReg fromReg : Register) (size : ℕ) (offset : ℤ)
  | movRMDisp (toReg fromReg : Register) (size : ℕ) (offset : ℤ)
  | arithmetic (op : ArithmeticOp) (toFromReg fromReg : Register) (isFloat : Bool)
  | and (toFromReg fromReg : Register)
  | or (toFromReg fromReg : Register)
  | not (toReg fromReg : Register)
  | compare (op : CompareOp) (toFromReg fromReg : Register) (size : ℕ) (isFloat : Bool)
  | memzero (reg regSize : Register)
  | dataptr (reg : Register) (offset : ℤ)

namespace EmitCall

/-- The call on a piece. -/
def emit (piece : BytecodePiece) : EmitCall → BytecodePiece
  | li reg imm => piece.emitLi reg imm
  | push reg => piece.emitPush reg
  | pop reg => piece.emitPop reg
  | incr reg imm => piece.emitIncr reg imm
  | cast reg castType => piece.emitCast reg castType
  | movRR toReg fromReg => piece.emitMovRR toReg fromReg
  | movMR toReg fromReg size => piece.emitMovMR toReg fromReg size
  | movRM toReg fromReg size => piece.emitMovRM toReg fromReg size
  | movMRDisp toReg fromReg size offset => piece.emitMovMRDisp toReg fromReg size offset
  | movRMDisp toReg fromReg size offset => piece.emitMovRMDisp toReg fromReg size offset
  | arithmetic op toFromReg fromReg isFloat => piece.emitArithmetic op toFromReg fromReg isFloat
  | and toFromReg fromReg => piece.emitAnd toFromReg fromReg
  | or toFromReg fromReg => piece.emitOr toFromReg fromReg
  | not toReg fromReg => piece.emitNot toReg fromReg
  | compare op toFromReg fromReg size isFloat =>
      piece.emitCompare op toFromReg fromReg size isFloat
  | memzero reg regSize => piece.emitMemzero reg regSize
  | dataptr reg offset => piece.emitDataptr reg offset

/-- The call, where every pop is emitted. -/
def emitPlain (piece : BytecodePiece) : EmitCall → BytecodePiece
  | pop reg => { piece with virtualSp := piece.virtualSp + 8 }.emit (.pop reg)
  | call => call.emit piece

/-- The operation that the call adds. -/
def op : EmitCall → Op
  | li reg imm => ⟨.li reg, some imm⟩
  | push reg => ⟨.push reg, none⟩
  | pop reg => ⟨.pop reg, none⟩
  | incr reg imm => Op.incr reg imm
  | cast reg castType => ⟨.cast reg castType, none⟩
  | movRR toReg fromReg => ⟨.movRR toReg fromReg, none⟩
  | movMR toReg fromReg size => ⟨.movMR toReg fromReg size, none⟩
  | movRM toReg fromReg size => ⟨.movRM toReg fromReg size, none⟩
  | movMRDisp toReg fromReg size offset => Op.movMR toReg fromReg size offset
  | movRMDisp toReg fromReg size offset => Op.movRM toReg fromReg size offset
  | arithmetic op toFromReg fromReg isFloat => ⟨.arithmetic op toFromReg fromReg isFloat, none⟩
  | and toFromReg fromReg => ⟨.and toFromReg fromReg, none⟩
  | or toFromReg fromReg => ⟨.or toFromReg fromReg, none⟩
  | not toReg fromReg => ⟨.not toReg fromReg, none⟩
  | compare op toFromReg fromReg size isFloat =>
      ⟨.compare op toFromReg fromReg (size ||| if isFloat then 16 else 0), none⟩
  | memzero reg regSize => ⟨.memzero reg regSize, none⟩
  | dataptr reg offset => ⟨.dataptr reg, some offset⟩

/-- What the call makes of the operations before it. -/
def next (ops : List Op) : EmitCall → List Op
  | pop reg => Op.popOp reg ops
  | call => ops ++ [call.op]

theorem assembles {piece : BytecodePiece} {ops : List Op} (h : Assembles piece ops) :
    ∀ call : EmitCall, Assembles (call.emit piece) (call.next ops)
  | li reg imm => h.emitLi reg imm
  | push reg => h.emitPush reg
  | pop reg => h.emitPop reg
  | incr reg imm => h.emitIncr reg imm
  | movMRDisp toReg fromReg size offset => h.emitMovMRDisp toReg fromReg size offset
  | movRMDisp toReg fromReg size offset => h.emitMovRMDisp toReg fromReg size offset
  | dataptr reg offset => h.emitDataptr reg offset
  | cast .. | movRR .. | movMR .. | movRM .. | arithmetic .. | and .. | or .. | not ..
  | compare .. | memzero .. => h.emit _

theorem assembles_plain {piece : BytecodePiece} {ops : List Op} (h : Assembles piece ops)
    (call : EmitCall) : Assembles (call.emitPlain piece) (ops ++ [call.op]) := by
  have hmoved : Assembles { piece with virtualSp := piece.virtualSp + 8 } ops := h.of_eq rfl rfl
  have hemit := assembles h call
  cases call with
  | pop reg => exact hmoved.emit _
  | _ => exact hemit

/-- Both kinds of code keep the same account of the stack pointer. -/
theorem virtualSp_emit {piece piece' : BytecodePiece} (h : piece.virtualSp = piece'.virtualSp)
    (call : EmitCall) : (call.emit piece).virtualSp = (call.emitPlain piece').virtualSp := by
  cases call with
  | pop reg =>
      have hpop : (piece.emitPop reg).virtualSp = piece.virtualSp + 8 := by
        unfold BytecodePiece.emitPop BytecodePiece.popLastInst
        dsimp only
        split
        · split <;> rfl
        · rfl
      exact hpop.trans (congrArg (· + 8) h)
  | push reg => exact congrArg (· - 8) h
  | incr reg imm =>
      unfold emitPlain emit BytecodePiece.emitIncr
      dsimp only
      split
      · exact congrArg (· + imm) h
      · exact h
  | movMRDisp toReg fromReg size offset =>
      unfold emitPlain emit BytecodePiece.emitMovMRDisp
      dsimp only
      split <;> exact h
  | movRMDisp toReg fromReg size offset =>
      unfold emitPlain emit BytecodePiece.emitMovRMDisp
      dsimp only
      split <;> exact h
  | _ => exact h

end EmitCall

/-! ## What an instruction uses -/

namespace Instruction

/-- The registers that the instruction names. -/
def operands : Instruction → List Register
  | cast op0 _ | push op0 | pop op0 | incr op0 _ _ | li op0 | jz op0 | dataptr op0 => [op0]
  | movRR op0 op1 | movMR op0 op1 _ | movRM op0 op1 _ | arithmetic _ op0 op1 _ | and op0 op1
  | or op0 op1 | not op0 op1 | compare _ op0 op1 _ | memzero op0 op1 | movMRDisp op0 op1 _
  | movRMDisp op0 op1 _ => [op0, op1]
  | halt | nop | ret | jmp | call => []

end Instruction

/-- The `n` bytes at an address. -/
def bytesAt (addr n : ℕ) : Set ℕ := {a | addr ≤ a ∧ a < addr + n}

namespace VirtualMachine

/-- The bytes that the instruction reads. -/
def reads (m : Machine) (imm : ℤ) : Instruction → Set ℕ
  | .movRM _ op1 size => bytesAt (m.registers op1 + BitVec.ofInt 64 0).toNat size
  | .movRMDisp _ op1 size => bytesAt (m.registers op1 + BitVec.ofInt 64 imm).toNat size
  | .pop _ => bytesAt (m.registers .sp).toNat 8
  | _ => ∅

/-- The bytes that the instruction writes. -/
def writes (m : Machine) (imm : ℤ) : Instruction → Set ℕ
  | .movMR op0 _ size =>
      if movable size then bytesAt (m.registers op0 + BitVec.ofInt 64 0).toNat size else ∅
  | .movMRDisp op0 _ size =>
      if movable size then bytesAt (m.registers op0 + BitVec.ofInt 64 imm).toNat size else ∅
  | .push _ => bytesAt (m.registers .sp - 8).toNat 8
  | .memzero op0 op1 => bytesAt (m.registers op0).toNat (m.registers op1).toNat
  | _ => ∅

/-- The machines agree but for the program counter and the bytes in `stale`. -/
structure Similar (stale : Set ℕ) (m m' : Machine) : Prop where
  registers : ∀ reg, reg ≠ .pc → m'.registers reg = m.registers reg
  memory : ∀ a, a ∉ stale → m'.memory a = m.memory a
  pieceIndex : m'.pieceIndex = m.pieceIndex
  allocations : m'.allocations = m.allocations

namespace Similar

variable {vm : VirtualMachine} {stale stale' : Set ℕ} {m m' m₁ : Machine}

theorem refl (m : Machine) : Similar ∅ m m := ⟨fun _ _ => rfl, fun _ _ => rfl, rfl, rfl⟩

theorem mono (h : Similar stale m m') (hsub : stale ⊆ stale') : Similar stale' m m' :=
  ⟨h.registers, fun a ha => h.memory a fun hmem => ha (hsub hmem), h.pieceIndex, h.allocations⟩

theorem set (h : Similar stale m m') (reg : Register) (value : BitVec 64) :
    Similar stale (m.set reg value) (m'.set reg value) := by
  refine ⟨fun other hother => ?_, h.memory, h.pieceIndex, h.allocations⟩
  by_cases heq : other = reg
  · subst heq
    rw [Machine.set_registers_self, Machine.set_registers_self]
  · rw [Machine.set_registers_of_ne _ _ heq, Machine.set_registers_of_ne _ _ heq]
    exact h.registers other hother

/-! The program counters may differ. -/

theorem setPcLeft (h : Similar stale m m') (value : BitVec 64) :
    Similar stale (m.set .pc value) m' := by
  refine ⟨fun other hother => ?_, h.memory, h.pieceIndex, h.allocations⟩
  rw [Machine.set_registers_of_ne _ _ hother]
  exact h.registers other hother

theorem setPcRight (h : Similar stale m m') (value : BitVec 64) :
    Similar stale m (m'.set .pc value) := by
  refine ⟨fun other hother => ?_, h.memory, h.pieceIndex, h.allocations⟩
  rw [Machine.set_registers_of_ne _ _ hother]
  exact h.registers other hother

theorem of_setPcRight {value : BitVec 64} (h : Similar stale m (m'.set .pc value)) :
    Similar stale m m' := by
  refine ⟨fun other hother => ?_, h.memory, h.pieceIndex, h.allocations⟩
  rw [← h.registers other hother, Machine.set_registers_of_ne _ _ hother]

/-- What both write is stale no longer. -/
theorem store (h : Similar stale m m') (addr n : ℕ) (value : BitVec 64) :
    Similar (stale \ bytesAt addr n) { m with memory := m.memory.store addr n value }
      { m' with memory := m'.memory.store addr n value } := by
  refine ⟨h.registers, fun a ha => ?_, h.pieceIndex, h.allocations⟩
  change m'.memory.store addr n value a = m.memory.store addr n value a
  unfold ByteMemory.store
  by_cases hbytes : addr ≤ a ∧ a < addr + n
  · rw [if_pos hbytes, if_pos hbytes]
  · rw [if_neg hbytes, if_neg hbytes]
    exact h.memory a fun hstale => ha ⟨hstale, hbytes⟩

theorem zero (h : Similar stale m m') (addr n : ℕ) :
    Similar (stale \ bytesAt addr n) { m with memory := m.memory.zero addr n }
      { m' with memory := m'.memory.zero addr n } := by
  refine ⟨h.registers, fun a ha => ?_, h.pieceIndex, h.allocations⟩
  change m'.memory.zero addr n a = m.memory.zero addr n a
  unfold ByteMemory.zero
  by_cases hbytes : addr ≤ a ∧ a < addr + n
  · rw [if_pos hbytes, if_pos hbytes]
  · rw [if_neg hbytes, if_neg hbytes]
    exact h.memory a fun hstale => ha ⟨hstale, hbytes⟩

theorem load (h : Similar stale m m') {addr n : ℕ} (hreads : ∀ a ∈ bytesAt addr n, a ∉ stale) :
    (m'.memory.load addr n : BitVec 64) = m.memory.load addr n :=
  ByteMemory.load_congr fun i hi => h.memory _ (hreads _ ⟨Nat.le_add_right _ _, by omega⟩)

theorem sp (h : Similar stale m m') : m'.registers .sp = m.registers .sp :=
  h.registers .sp (by decide)

theorem checkStack (h : Similar stale m m') (hcheck : vm.checkStack m = .ok m₁) :
    m₁ = m ∧ vm.checkStack m' = .ok m' := by
  unfold VirtualMachine.checkStack at hcheck ⊢
  rw [h.sp]
  split at hcheck
  · next honStack => exact ⟨(Except.ok.inj hcheck).symm, if_pos honStack⟩
  · cases hcheck

theorem canAccessMemory (h : Similar stale m m') (ptr : BitVec 64) (size : ℤ) :
    vm.canAccessMemory m' ptr size = vm.canAccessMemory m ptr size := by
  unfold VirtualMachine.canAccessMemory
  rw [h.allocations]

end Similar

section Execute

variable {vm : VirtualMachine} {stale : Set ℕ} {m m' m₁ : Machine} {imm : ℤ} {inst : Instruction}

theorem Similar.keep (h : Similar stale m m') : Similar (stale \ ∅) m m' :=
  h.mono fun _ ha => ⟨ha, fun hmem => hmem⟩

theorem movMR_similar (h : Similar stale m m') {op0 op1 : Register} {size : ℕ}
    (hop0 : m'.registers op0 = m.registers op0) (hop1 : m'.registers op1 = m.registers op1)
    (hexec : vm.movMR m op0 op1 size imm = .ok m₁) :
    ∃ m₁', vm.movMR m' op0 op1 size imm = .ok m₁' ∧
      Similar (stale \ if movable size then
        bytesAt (m.registers op0 + BitVec.ofInt 64 imm).toNat size else ∅) m₁ m₁' := by
  unfold movMR at hexec ⊢
  dsimp only at hexec ⊢
  rw [hop0, hop1, h.canAccessMemory]
  split at hexec
  · next hcheck =>
      cases hexec
      refine ⟨_, if_pos hcheck, ?_⟩
      split
      · exact h.store _ _ _
      · exact h.keep
  · cases hexec

theorem movRM_similar (h : Similar stale m m') {op0 op1 : Register} {size : ℕ}
    (hop1 : m'.registers op1 = m.registers op1)
    (hreads : ∀ a ∈ bytesAt (m.registers op1 + BitVec.ofInt 64 imm).toNat size, a ∉ stale)
    (hexec : vm.movRM m op0 op1 size imm = .ok m₁) :
    ∃ m₁', vm.movRM m' op0 op1 size imm = .ok m₁' ∧ Similar stale m₁ m₁' := by
  unfold movRM at hexec ⊢
  dsimp only at hexec ⊢
  rw [hop1, h.canAccessMemory, h.load hreads]
  split at hexec
  · next hcheck =>
      cases hexec
      exact ⟨_, if_pos hcheck, h.set _ _⟩
  · cases hexec

theorem push_similar (h : Similar stale m m') {op0 : Register} (hop0 : op0 ≠ .pc)
    (hexec : vm.execute m imm (.push op0) = .ok m₁) :
    ∃ m₁', vm.execute m' imm (.push op0) = .ok m₁' ∧
      Similar (stale \ bytesAt (m.registers .sp - 8).toNat 8) m₁ m₁' := by
  have hset : Similar stale (m.set .sp (m.registers .sp - 8)) (m'.set .sp (m'.registers .sp - 8)) := by
    rw [h.sp]
    exact h.set _ _
  dsimp only [execute, bind, Except.bind] at hexec ⊢
  split at hexec
  · cases hexec
  · next m₂ hcheck =>
      obtain ⟨rfl, hcheck'⟩ := hset.checkStack hcheck
      cases hexec
      rw [hcheck']
      refine ⟨_, rfl, ?_⟩
      unfold Machine.storeSp
      rw [hset.sp, hset.registers op0 hop0, Machine.set_registers_self]
      exact hset.store _ _ _

theorem pop_similar (h : Similar stale m m') {op0 : Register}
    (hreads : ∀ a ∈ bytesAt (m.registers .sp).toNat 8, a ∉ stale)
    (hexec : vm.execute m imm (.pop op0) = .ok m₁) :
    ∃ m₁', vm.execute m' imm (.pop op0) = .ok m₁' ∧ Similar stale m₁ m₁' := by
  have hload : m'.loadSp 8 = m.loadSp 8 := by
    unfold Machine.loadSp
    rw [h.sp]
    exact h.load hreads
  have hset : Similar stale (m.set op0 (m.loadSp 8)) (m'.set op0 (m'.loadSp 8)) := by
    rw [hload]
    exact h.set _ _
  have hset' : Similar stale
      ((m.set op0 (m.loadSp 8)).set .sp ((m.set op0 (m.loadSp 8)).registers .sp + 8))
      ((m'.set op0 (m'.loadSp 8)).set .sp ((m'.set op0 (m'.loadSp 8)).registers .sp + 8)) := by
    rw [hset.sp]
    exact hset.set _ _
  obtain ⟨rfl, hcheck⟩ := hset'.checkStack hexec
  exact ⟨_, hcheck, hset'⟩

theorem incr_similar (h : Similar stale m m') {op0 : Register} {op1 op2 : BitVec 8}
    (hop0 : m'.registers op0 = m.registers op0)
    (hexec : vm.execute m imm (.incr op0 op1 op2) = .ok m₁) :
    ∃ m₁', vm.execute m' imm (.incr op0 op1 op2) = .ok m₁' ∧ Similar stale m₁ m₁' := by
  have hset := h.set op0 (m.registers op0 + (incrAmount op1 op2).signExtend 64)
  dsimp only [execute] at hexec ⊢
  rw [hop0]
  split at hexec
  · next hsp =>
      obtain ⟨rfl, hcheck⟩ := hset.checkStack hexec
      exact ⟨_, (if_pos hsp).trans hcheck, hset⟩
  · next hsp =>
      cases hexec
      exact ⟨_, if_neg hsp, hset⟩

theorem arithmetic_similar (h : Similar stale m m') {op : ArithmeticOp} {op0 op1 : Register}
    {isFloat : Bool} (hop0 : m'.registers op0 = m.registers op0)
    (hop1 : m'.registers op1 = m.registers op1)
    (hexec : vm.execute m imm (.arithmetic op op0 op1 isFloat) = .ok m₁) :
    ∃ m₁', vm.execute m' imm (.arithmetic op op0 op1 isFloat) = .ok m₁' ∧ Similar stale m₁ m₁' := by
  cases isFloat with
  | true =>
      dsimp only [execute] at hexec ⊢
      cases hexec
      refine ⟨_, rfl, ?_⟩
      rw [hop0, hop1]
      exact h.set _ _
  | false =>
      dsimp only [execute] at hexec ⊢
      rw [hop0, hop1]
      split at hexec
      · cases hexec
      · next htraps =>
          cases hexec
          exact ⟨_, if_neg htraps, h.set _ _⟩

theorem memzero_similar (h : Similar stale m m') {op0 op1 : Register}
    (hop0 : m'.registers op0 = m.registers op0) (hop1 : m'.registers op1 = m.registers op1)
    (hexec : vm.execute m imm (.memzero op0 op1) = .ok m₁) :
    ∃ m₁', vm.execute m' imm (.memzero op0 op1) = .ok m₁' ∧
      Similar (stale \ bytesAt (m.registers op0).toNat (m.registers op1).toNat) m₁ m₁' := by
  dsimp only [execute] at hexec ⊢
  rw [hop0, hop1, h.canAccessMemory]
  split at hexec
  · next hcheck =>
      cases hexec
      exact ⟨_, if_pos hcheck, h.zero _ _⟩
  · cases hexec

/-- An instruction that does not name the program counter and reads nothing stale does the same
on both machines, and what it writes is stale no longer. -/
theorem execute_similar (h : Similar stale m m') (hseq : inst.Sequential)
    (hpc : .pc ∉ inst.operands) (hreads : ∀ a ∈ reads m imm inst, a ∉ stale)
    (hexec : vm.execute m imm inst = .ok m₁) :
    ∃ m₁', vm.execute m' imm inst = .ok m₁' ∧ Similar (stale \ writes m imm inst) m₁ m₁' := by
  have hsame : ∀ reg ∈ inst.operands, m'.registers reg = m.registers reg :=
    fun reg hmem => h.registers reg fun heq => hpc (heq ▸ hmem)
  cases inst with
  | halt | nop =>
      cases hexec
      exact ⟨_, rfl, h.keep⟩
  | movMR op0 op1 size | movMRDisp op0 op1 size =>
      exact movMR_similar h (hsame op0 (by simp [Instruction.operands]))
        (hsame op1 (by simp [Instruction.operands])) hexec
  | movRM op0 op1 size | movRMDisp op0 op1 size =>
      obtain ⟨m₁', hexec', hsimilar⟩ :=
        movRM_similar h (hsame op1 (by simp [Instruction.operands])) hreads hexec
      exact ⟨m₁', hexec', hsimilar.keep⟩
  | push op0 =>
      refine push_similar h ?_ hexec
      rintro rfl
      exact hpc (List.mem_cons_self ..)
  | pop op0 =>
      obtain ⟨m₁', hexec', hsimilar⟩ := pop_similar h hreads hexec
      exact ⟨m₁', hexec', hsimilar.keep⟩
  | incr op0 op1 op2 =>
      obtain ⟨m₁', hexec', hsimilar⟩ :=
        incr_similar h (hsame op0 (by simp [Instruction.operands])) hexec
      exact ⟨m₁', hexec', hsimilar.keep⟩
  | arithmetic op op0 op1 isFloat =>
      obtain ⟨m₁', hexec', hsimilar⟩ :=
        arithmetic_similar h (hsame op0 (by simp [Instruction.operands]))
          (hsame op1 (by simp [Instruction.operands])) hexec
      exact ⟨m₁', hexec', hsimilar.keep⟩
  | memzero op0 op1 =>
      exact memzero_similar h (hsame op0 (by simp [Instruction.operands]))
        (hsame op1 (by simp [Instruction.operands])) hexec
  | cast op0 type =>
      have hop0 := hsame op0 (by simp [Instruction.operands])
      cases type with
      | intFloat | floatInt =>
          cases hexec
          refine ⟨_, rfl, ?_⟩
          rw [hop0]
          exact (h.set _ _).keep
  | li op0 | dataptr op0 =>
      cases hexec
      exact ⟨_, rfl, (h.set _ _).keep⟩
  | movRR op0 op1 | and op0 op1 | or op0 op1 | not op0 op1 | compare _ op0 op1 _ =>
      have hop0 := hsame op0 (by simp [Instruction.operands])
      have hop1 := hsame op1 (by simp [Instruction.operands])
      cases hexec
      refine ⟨_, rfl, ?_⟩
      simp only [hop0, hop1]
      exact (h.set _ _).keep
  | jmp | jz | call | ret => exact hseq.elim

/-! ## A removed pair -/

theorem push_eq {op0 : Register} (h : vm.execute m imm (.push op0) = .ok m₁) :
    m₁ = (m.set .sp (m.registers .sp - 8)).storeSp 8
      ((m.set .sp (m.registers .sp - 8)).registers op0) := by
  dsimp only [execute, bind, Except.bind] at h
  split at h
  · cases h
  · next m₂ hcheck =>
      rw [checkStack_eq_ok hcheck] at h
      cases h
      rfl

theorem pop_eq {op0 : Register} (h : vm.execute m imm (.pop op0) = .ok m₁) :
    m₁ = (m.set op0 (m.loadSp 8)).set .sp ((m.set op0 (m.loadSp 8)).registers .sp + 8) :=
  checkStack_eq_ok h

/-- The machine behind a pop is the one in front of the push, but for the slot: `m` is in front
of the push, and `m'` behind it, on the machine that keeps the pair. -/
theorem removed_similar {stale : Set ℕ} {m m' mPush m₁ : Machine} {op0 : Register}
    {imm imm' : ℤ} (hpush : vm.execute m imm (.push op0) = .ok mPush)
    (h : Similar stale m' mPush) (hop0 : op0 ≠ .pc)
    (hreads : ∀ a ∈ bytesAt (m'.registers .sp).toNat 8, a ∉ stale)
    (hpop : vm.execute m' imm' (.pop op0) = .ok m₁) :
    Similar (stale ∪ bytesAt (m'.registers .sp).toNat 8) m₁ m := by
  have hmPush := push_eq hpush
  have hm₁ := pop_eq hpop
  have hsp : m'.registers .sp = m.registers .sp - 8 := by
    rw [← h.sp, hmPush]
    exact Machine.set_registers_self m .sp _
  have hmemory : mPush.memory = m.memory.store (m'.registers .sp).toNat 8
      ((m.set .sp (m.registers .sp - 8)).registers op0) := by
    rw [hmPush, hsp]
    unfold Machine.storeSp
    rw [Machine.set_registers_self]
    rfl
  -- the pop reads what the push has written
  have hload : m'.loadSp 8 = (m.set .sp (m.registers .sp - 8)).registers op0 := by
    unfold Machine.loadSp
    rw [← h.load hreads, hmemory]
    exact ByteMemory.load_store_word _ _ rfl _
  have hother : ∀ reg, reg ≠ .pc → reg ≠ .sp → m'.registers reg = m.registers reg := by
    intro reg hpc hne
    rw [← h.registers reg hpc, hmPush]
    exact Machine.set_registers_of_ne _ _ hne
  refine ⟨fun reg hpc => ?_, fun a ha => ?_, ?_, ?_⟩
  · rw [hm₁, hload]
    by_cases hregsp : reg = .sp
    · subst hregsp
      rw [Machine.set_registers_self]
      by_cases hop0sp : op0 = .sp
      · subst hop0sp
        rw [Machine.set_registers_self, Machine.set_registers_self]
        exact (BitVec.sub_add_cancel _ _).symm
      · rw [Machine.set_registers_of_ne _ _ (Ne.symm hop0sp), hsp]
        exact (BitVec.sub_add_cancel _ _).symm
    · rw [Machine.set_registers_of_ne _ _ hregsp]
      by_cases hregop0 : reg = op0
      · subst hregop0
        rw [Machine.set_registers_self, Machine.set_registers_of_ne _ _ hregsp]
      · rw [Machine.set_registers_of_ne _ _ hregop0, hother reg hpc hregsp]
  · have hslot : ¬ ((m'.registers .sp).toNat ≤ a ∧ a < (m'.registers .sp).toNat + 8) :=
      fun hslot => ha (.inr hslot)
    calc m.memory a = mPush.memory a := by
          rw [hmemory, ByteMemory.store_apply_of_not_mem hslot]
      _ = m'.memory a := h.memory a fun hstale => ha (.inl hstale)
      _ = m₁.memory a := by rw [hm₁]; rfl
  · rw [hm₁]
    exact (congrArg Machine.pieceIndex hmPush).symm.trans h.pieceIndex
  · rw [hm₁]
    exact (congrArg Machine.allocations hmPush).symm.trans h.allocations

end Execute

/-! ## Runs -/

/-- The machine with the program counter behind an operation. -/
def behind (op : Op) (m : Machine) : Machine :=
  m.set .pc (m.registers .pc + BitVec.ofNat 64 op.cells.length)

/-- The call removes the push in front of it. -/
def Removes (ops : List Op) : EmitCall → Prop
  | .pop reg => ops.getLast?.map Op.inst = some (.push reg)
  | _ => False

instance (ops : List Op) (call : EmitCall) : Decidable (Removes ops call) := by
  cases call <;> unfold Removes <;> infer_instance

/-- The stale bytes behind the code of a call: the slot of a pair that is removed, and else
those that are not written. -/
def staleBehind (ops : List Op) (call : EmitCall) (m : Machine) (stale : Set ℕ) : Set ℕ :=
  if Removes ops call then stale ∪ bytesAt (m.registers .sp).toNat 8
  else stale \ writes m (call.op.imm.getD 0) call.op.inst

/-- In the middle of a run of the code that keeps every pop: the operations that `emit_pop` has
left of the calls so far, the machine, and the stale bytes. -/
structure PlainState where
  ops : List Op
  machine : Machine
  stale : Set ℕ

/-- A run of the code that keeps every pop; it reads nothing stale. -/
inductive PlainRun (vm : VirtualMachine) : List EmitCall → PlainState → PlainState → Prop where
  | nil (p : PlainState) : PlainRun vm [] p p
  | cons {call : EmitCall} {calls : List EmitCall} {p p' : PlainState} {m₁ : Machine}
      (hexec : vm.execute (behind call.op p.machine) (call.op.imm.getD 0) call.op.inst = .ok m₁)
      (hreads : ∀ a ∈ reads (behind call.op p.machine) (call.op.imm.getD 0) call.op.inst,
        a ∉ p.stale)
      (hrest : PlainRun vm calls
        ⟨call.next p.ops, m₁, staleBehind p.ops call (behind call.op p.machine) p.stale⟩ p') :
      PlainRun vm (call :: calls) p p'

section Runs

variable {vm : VirtualMachine} {m : Machine} {p p' : PlainState} {call : EmitCall}
  {calls : List EmitCall}

theorem runOps_concat {ops : List Op} {op : Op} {m m' : Machine} (h : vm.runOps ops m = .ok m') :
    vm.runOps (ops ++ [op]) m =
      (vm.execute (behind op m') (op.imm.getD 0) op.inst).bind fun m => .ok m := by
  rw [runOps_append_of_ok _ h]
  rfl

/-- The operation of a call does not jump. -/
theorem sequential_of_operands (hpc : .pc ∉ call.op.inst.operands) : call.op.inst.Sequential := by
  cases call with
  | push | movMR | memzero => trivial
  | movMRDisp toReg fromReg size offset =>
      unfold EmitCall.op Op.movMR
      dsimp only
      split <;> trivial
  | movRMDisp toReg fromReg size offset =>
      unfold EmitCall.op Op.movRM at hpc ⊢
      dsimp only at hpc ⊢
      split at hpc
      · next hzero =>
          rw [if_pos hzero]
          rintro rfl
          exact hpc (List.mem_cons_self ..)
      · next hzero =>
          rw [if_neg hzero]
          rintro rfl
          exact hpc (List.mem_cons_self ..)
  | _ =>
      rintro rfl
      exact hpc (List.mem_cons_self ..)

theorem runOps_singleton {op : Op} {m m' : Machine} (h : vm.runOps [op] m = .ok m') :
    vm.execute (behind op m) (op.imm.getD 0) op.inst = .ok m' := by
  change (vm.execute (behind op m) (op.imm.getD 0) op.inst).bind (vm.runOps []) = .ok m' at h
  cases hexec : vm.execute (behind op m) (op.imm.getD 0) op.inst with
  | error stop =>
      rw [hexec] at h
      cases h
  | ok next =>
      rw [hexec] at h
      exact h

theorem eq_of_removes {ops : List Op} (h : Removes ops call) :
    ∃ reg ops' op, call = .pop reg ∧ ops = ops' ++ [op] ∧ op.inst = .push reg := by
  cases call with
  | pop reg =>
      cases ops using List.reverseRecOn with
      | nil => cases h
      | append_singleton ops op =>
          unfold Removes at h
          rw [List.getLast?_concat] at h
          exact ⟨reg, ops, op, rfl, rfl, Option.some.inj h⟩
  | _ => exact h.elim

theorem next_of_not_removes {ops : List Op} (h : ¬ Removes ops call) :
    call.next ops = ops ++ [call.op] := by
  cases call with
  | pop reg => exact if_neg h
  | _ => rfl

/-- One call: the code without the pairs goes on from a similar machine to a similar one. -/
theorem call_similar {m₁ m' : Machine} (hpc : .pc ∉ call.op.inst.operands)
    (hrun : vm.runOps p.ops m = .ok m') (h : Similar p.stale p.machine m')
    (hexec : vm.execute (behind call.op p.machine) (call.op.imm.getD 0) call.op.inst = .ok m₁)
    (hreads : ∀ a ∈ reads (behind call.op p.machine) (call.op.imm.getD 0) call.op.inst,
      a ∉ p.stale) :
    ∃ m₁', vm.runOps (call.next p.ops) m = .ok m₁' ∧
      Similar (staleBehind p.ops call (behind call.op p.machine) p.stale) m₁ m₁' := by
  by_cases hremoves : Removes p.ops call
  · obtain ⟨reg, ops, opPush, rfl, hops, hinst⟩ := eq_of_removes hremoves
    rw [hops, runOps_append] at hrun
    cases hbefore : vm.runOps ops m with
    | error stop =>
        rw [hbefore] at hrun
        cases hrun
    | ok mBefore =>
        rw [hbefore] at hrun
        have hpush := runOps_singleton hrun
        rw [hinst] at hpush
        have hop0 : reg ≠ .pc := by
          rintro rfl
          exact hpc (List.mem_cons_self ..)
        have hsimilar := removed_similar hpush (h.setPcLeft _) hop0 hreads hexec
        refine ⟨mBefore, ?_, ?_⟩
        · have hnext : (EmitCall.pop reg).next p.ops = ops := by
            change Op.popOp reg p.ops = ops
            unfold Op.popOp
            have hlast : p.ops.getLast?.map Op.inst = some (.push reg) := hremoves
            rw [if_pos hlast, hops, List.dropLast_concat]
          rw [hnext]
          exact hbefore
        · unfold staleBehind
          rw [if_pos hremoves]
          exact hsimilar.of_setPcRight
  · have hnext := next_of_not_removes hremoves
    have hbehind : Similar p.stale (behind call.op p.machine) (behind call.op m') :=
      (h.setPcLeft _).setPcRight _
    obtain ⟨m₁', hexec', hsimilar⟩ :=
      execute_similar hbehind (sequential_of_operands hpc) hpc hreads hexec
    refine ⟨m₁', ?_, ?_⟩
    · rw [hnext, runOps_concat hrun, hexec']
      rfl
    · unfold staleBehind
      rw [if_neg hremoves]
      exact hsimilar

/-- A whole run, from similar machines to similar ones. -/
theorem plainRun_similar (hrun : PlainRun vm calls p p')
    (hpc : ∀ call ∈ calls, .pc ∉ call.op.inst.operands) {m' : Machine}
    (hops : vm.runOps p.ops m = .ok m') (h : Similar p.stale p.machine m') :
    ∃ m₁', vm.runOps p'.ops m = .ok m₁' ∧ Similar p'.stale p'.machine m₁' := by
  induction hrun generalizing m' with
  | nil p => exact ⟨m', hops, h⟩
  | cons hexec hreads hrest ih =>
      obtain ⟨m₁', hops', hsimilar⟩ :=
        call_similar (hpc _ (List.mem_cons_self ..)) hops h hexec hreads
      exact ih (fun call hmem => hpc call (List.mem_cons_of_mem _ hmem)) hops' hsimilar

/-- The operations of a run that keeps every pop. -/
theorem runOps_of_plainRun (hrun : PlainRun vm calls p p') :
    vm.runOps (calls.map EmitCall.op) p.machine = .ok p'.machine := by
  induction hrun with
  | nil p => rfl
  | @cons call calls p p' m₁ hexec hreads hrest ih =>
      change (vm.execute (behind call.op p.machine) (call.op.imm.getD 0) call.op.inst).bind
        (vm.runOps (calls.map EmitCall.op)) = _
      rw [hexec]
      exact ih

theorem assembles_of_plainRun (hrun : PlainRun vm calls p p') {piece : BytecodePiece}
    (h : Assembles piece p.ops) :
    Assembles (calls.foldl EmitCall.emit piece) p'.ops := by
  induction hrun generalizing piece with
  | nil p => exact h
  | cons hexec hreads hrest ih => exact ih (EmitCall.assembles h _)

end Runs

end VirtualMachine

theorem EmitCall.assembles_plain_all (calls : List EmitCall) {piece : BytecodePiece} {ops : List Op}
    (h : Assembles piece ops) :
    Assembles (calls.foldl EmitCall.emitPlain piece)
      (ops ++ calls.map EmitCall.op) := by
  induction calls generalizing piece ops with
  | nil => simpa using h
  | cons call calls ih =>
      have hrest := ih (EmitCall.assembles_plain h call)
      rwa [List.append_assoc] at hrest

theorem EmitCall.virtualSp_all (calls : List EmitCall) {piece piece' : BytecodePiece}
    (h : piece.virtualSp = piece'.virtualSp) :
    (calls.foldl EmitCall.emit piece).virtualSp =
      (calls.foldl EmitCall.emitPlain piece').virtualSp := by
  induction calls generalizing piece piece' with
  | nil => exact h
  | cons call calls ih => exact ih (EmitCall.virtualSp_emit h call)

open VirtualMachine

/-- Where the code that keeps every pop reads nothing stale, the code of `emit_pop` runs to the
same registers, but for the program counter, and to the same memory, but for the slots of
removed pairs that have not been written since. -/
theorem emitPop_sound {vm : VirtualMachine} {calls : List EmitCall} {m : Machine} {p : PlainState}
    (hpc : ∀ call ∈ calls, .pc ∉ call.op.inst.operands)
    (hrun : PlainRun vm calls ⟨[], m, ∅⟩ p) :
    ∃ (plain code : List Op) (m' : Machine),
      Assembles (calls.foldl EmitCall.emitPlain {}) plain ∧
      Assembles (calls.foldl EmitCall.emit {}) code ∧
      vm.runOps plain m = .ok p.machine ∧ vm.runOps code m = .ok m' ∧
      (∀ reg, reg ≠ .pc → m'.registers reg = p.machine.registers reg) ∧
      (∀ a, a ∉ p.stale → m'.memory a = p.machine.memory a) ∧
      (calls.foldl EmitCall.emit {}).virtualSp =
        (calls.foldl EmitCall.emitPlain {}).virtualSp := by
  obtain ⟨m', hops, hsimilar⟩ := plainRun_similar hrun hpc rfl (VirtualMachine.Similar.refl m)
  exact ⟨_, p.ops, m', EmitCall.assembles_plain_all calls assembles_empty,
    assembles_of_plainRun hrun assembles_empty, runOps_of_plainRun hrun, hops,
    hsimilar.registers, hsimilar.memory, EmitCall.virtualSp_all calls rfl⟩

/-! ## Two sequences -/

/-- The first register is 1, the stack is empty. -/
def oneOnTop : Machine where
  registers := fun reg => if reg = .sp then 0x110000 else if reg = .a then 1 else 0
  memory := fun _ => 0

theorem emitPop_sound_pair : ∃ (plain code : List Op) (m' mPlain : Machine),
    Assembles ([.push .a, .pop .a].foldl EmitCall.emitPlain {}) plain ∧
    Assembles ([.push .a, .pop .a].foldl EmitCall.emit {}) code ∧
    (ofPieces []).runOps plain oneOnTop = .ok mPlain ∧
    (ofPieces []).runOps code oneOnTop = .ok m' ∧
    ∀ reg, reg ≠ .pc → m'.registers reg = mPlain.registers reg := by
  have hstale : staleBehind [] (.push .a) (behind (EmitCall.push .a).op oneOnTop) ∅ ⊆ ∅ := by
    unfold staleBehind
    rw [if_neg (by decide)]
    exact fun a ha => ha.1
  have hrun : ∃ p, PlainRun (ofPieces []) [.push .a, .pop .a] ⟨[], oneOnTop, ∅⟩ p :=
    ⟨_, .cons rfl (fun _ _ => id) (.cons rfl (fun a _ ha => hstale ha) (.nil _))⟩
  obtain ⟨p, hrun⟩ := hrun
  obtain ⟨plain, code, m', hplain, hcode, hrunPlain, hrunCode, hregisters, -, -⟩ :=
    emitPop_sound (by decide) hrun
  exact ⟨plain, code, m', p.machine, hplain, hcode, hrunPlain, hrunCode, hregisters⟩

/-- No operation reads below the stack pointer. -/
def ReadsAbove (vm : VirtualMachine) : List Op → Machine → Prop
  | [], _ => True
  | op :: ops, m =>
      (∀ a ∈ reads (behind op m) (op.imm.getD 0) op.inst, (m.registers .sp).toNat ≤ a) ∧
        ∀ m₁, vm.execute (behind op m) (op.imm.getD 0) op.inst = .ok m₁ → ReadsAbove vm ops m₁

/-- Whenever the code that keeps every pop runs without reading below the stack pointer, the
code of `emit_pop` runs to the same registers and to the same memory from the stack pointer on. -/
def SameAbove (calls : List EmitCall) : Prop :=
  ∀ (vm : VirtualMachine) (plain code : List Op) (m mPlain : Machine),
    Assembles (calls.foldl EmitCall.emitPlain {}) plain →
    Assembles (calls.foldl EmitCall.emit {}) code →
    vm.runOps plain m = .ok mPlain → ReadsAbove vm plain m →
    ∃ m', vm.runOps code m = .ok m' ∧
      (∀ reg, reg ≠ .pc → m'.registers reg = mPlain.registers reg) ∧
      ∀ a, (mPlain.registers .sp).toNat ≤ a → m'.memory a = mPlain.memory a

/-- The slot of a removed pair is reserved again; and a register gets the program counter. -/
theorem not_sameAbove : ¬ SameAbove [.push .a, .pop .a, .incr .sp (-8)] ∧
    ¬ SameAbove [.push .a, .pop .a, .movRR .b .pc] := by
  have habove : ∀ op : Op, (∀ m imm, reads m imm op.inst = ∅) →
      ReadsAbove (ofPieces []) [⟨.push .a, none⟩, ⟨.pop .a, none⟩, op] oneOnTop := by
    intro op hreads
    refine ⟨fun a ha => ha.elim, fun m₁ _ => ⟨fun a ha => ha.1, fun m₂ _ => ⟨fun a ha => ?_,
      fun _ _ => trivial⟩⟩⟩
    rw [hreads] at ha
    exact ha.elim
  constructor
  · intro h
    obtain ⟨m', hcode, -, hmemory⟩ := h (ofPieces [])
      [⟨.push .a, none⟩, ⟨.pop .a, none⟩, Op.incr .sp (-8)] [Op.incr .sp (-8)] oneOnTop _
      ⟨by decide, by decide⟩ ⟨by decide, by decide⟩ rfl (habove _ fun _ _ => rfl)
    cases hcode
    exact absurd (hmemory 0x10fff8 (by decide)) (by decide)
  · intro h
    obtain ⟨m', hcode, hregisters, -⟩ := h (ofPieces [])
      [⟨.push .a, none⟩, ⟨.pop .a, none⟩, ⟨.movRR .b .pc, none⟩] [⟨.movRR .b .pc, none⟩] oneOnTop _
      ⟨by decide, by decide⟩ ⟨by decide, by decide⟩ rfl (habove _ fun _ _ => rfl)
    cases hcode
    exact absurd (hregisters .b (by decide)) (by decide)

end TinCompiler
