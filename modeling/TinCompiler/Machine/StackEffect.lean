import TinCompiler.Machine.StraightLine

/-!
# Effects on the stack pointer

What an operation adds to the stack pointer is known from the operation alone, if calls
return with the stack pointer they were made with.  `spSum` adds this up; it is what every
run of the operations does (`RunsTo.sp`).  `Moves` says by how much an emit function
changes the sum, also when `emit_pop` takes a push away instead of adding a pop.
-/

namespace TinCompiler

/-- What `INST_INCR` adds for an immediate, after the encoding in two bytes. -/
def encodedIncr (imm : ℤ) : ℤ :=
  (VirtualMachine.incrAmount (BitVec.ofInt 8 imm) (BitVec.ofInt 8 (imm / 2 ^ 8))).toInt

namespace Instruction

/-- What the instruction adds to the stack pointer. -/
def spChange : Instruction → ℤ
  | push _ => -8
  | pop _ => 8
  | incr op0 op1 op2 => if op0 = .sp then (VirtualMachine.incrAmount op1 op2).toInt else 0
  | _ => 0

/-- The stack pointer is not the target of a move or an operator. -/
def SparesSp : Instruction → Prop
  | cast op0 _ | movRR op0 _ | movRM op0 _ _ | movRMDisp op0 _ _ | pop op0 | arithmetic _ op0 _ _
  | and op0 _ | or op0 _ | not op0 _ | compare _ op0 _ _ | li op0 | dataptr op0 => op0 ≠ .sp
  | _ => True

end Instruction

/-- The operations that expressions are compiled to. -/
structure Op.Plain (op : Op) : Prop where
  imm : op.inst.hasImmediate = op.imm.isSome
  sequential : op.inst = .call ∨ op.inst.Sequential
  sparesSp : op.inst.SparesSp

/-- What the operations add to the stack pointer. -/
def spSum (ops : List Op) : ℤ := (ops.map fun op => op.inst.spChange).sum

@[simp] theorem spSum_nil : spSum [] = 0 := rfl

@[simp] theorem spSum_cons (op : Op) (ops : List Op) :
    spSum (op :: ops) = op.inst.spChange + spSum ops := rfl

@[simp] theorem spSum_append (ops ops' : List Op) :
    spSum (ops ++ ops') = spSum ops + spSum ops' := by
  simp [spSum]

namespace VirtualMachine

variable {vm : VirtualMachine} {m m' : Machine}

/-- A run of the operations.  A call is a run of the machine that comes back behind the call
with the same stack pointer. -/
inductive RunsTo (vm : VirtualMachine) : List Op → Machine → Machine → Prop where
  | nil (m : Machine) : RunsTo vm [] m m
  | step {op : Op} {ops : List Op} {m m₁ m₂ : Machine} (hcall : op.inst ≠ .call)
      (hexec : vm.execute (m.set .pc (m.registers .pc + BitVec.ofNat 64 op.cells.length))
        (op.imm.getD 0) op.inst = .ok m₁) (hrest : RunsTo vm ops m₁ m₂) :
      RunsTo vm (op :: ops) m m₂
  | call {op : Op} {ops : List Op} {m m₁ m₂ : Machine} {n : ℕ} (hcall : op.inst = .call)
      (hrun : vm.run n m = .ok m₁) (hpiece : m₁.pieceIndex = m.pieceIndex)
      (hpc : m₁.registers .pc = m.registers .pc + BitVec.ofNat 64 op.cells.length)
      (hsp : m₁.registers .sp = m.registers .sp) (hrest : RunsTo vm ops m₁ m₂) :
      RunsTo vm (op :: ops) m m₂

theorem execute_sp {inst : Instruction} {imm : ℤ} (hseq : inst.Sequential)
    (hspares : inst.SparesSp) (h : vm.execute m imm inst = .ok m') :
    m'.registers .sp = m.registers .sp + BitVec.ofInt 64 inst.spChange := by
  have hzero : ∀ x : BitVec 64, x + BitVec.ofInt 64 0 = x := by simp
  have hset : ∀ {m : Machine} {reg : Register} {value : BitVec 64}, reg ≠ .sp →
      (m.set reg value).registers .sp = m.registers .sp :=
    fun hne => Machine.set_registers_of_ne _ _ (Ne.symm hne)
  cases inst with
  | halt | nop => cases h; exact (hzero _).symm
  | cast op0 type =>
      cases type <;> cases h <;> exact (hset hspares).trans (hzero _).symm
  | movRR | and | or | not | compare | li | dataptr =>
      cases h; exact (hset hspares).trans (hzero _).symm
  | movMR | movMRDisp =>
      simp only [execute, movMR] at h
      split at h
      · cases h; split <;> exact (hzero _).symm
      · cases h
  | movRM | movRMDisp =>
      simp only [execute, movRM] at h
      split at h
      · cases h; exact (hset hspares).trans (hzero _).symm
      · cases h
  | push op0 =>
      simp only [execute, bind, Except.bind] at h
      split at h
      · cases h
      · next next hcheck =>
          cases h
          rw [checkStack_eq_ok hcheck]
          refine (Machine.set_registers_self m .sp (m.registers .sp - 8)).trans ?_
          rw [BitVec.sub_eq_add_neg]
          rfl
  | pop op0 =>
      simp only [execute] at h
      rw [checkStack_eq_ok h, Machine.set_registers_self, hset hspares]
      rfl
  | incr op0 op1 op2 =>
      have hamount : BitVec.ofInt 64 (incrAmount op1 op2).toInt = (incrAmount op1 op2).signExtend 64 :=
        rfl
      simp only [execute] at h
      split at h
      · next hop0 =>
          subst hop0
          rw [checkStack_eq_ok h, Machine.set_registers_self, Instruction.spChange, if_pos rfl,
            hamount]
      · next hop0 =>
          cases h
          rw [hset hop0, Instruction.spChange, if_neg hop0, hzero]
  | arithmetic op op0 op1 isFloat =>
      cases isFloat with
      | true => cases h; exact (hset hspares).trans (hzero _).symm
      | false =>
          simp only [execute] at h
          split at h
          · cases h
          · cases h; exact (hset hspares).trans (hzero _).symm
  | memzero op0 op1 =>
      simp only [execute] at h
      split at h
      · cases h; exact (hzero _).symm
      · cases h
  | jmp | jz | call | ret => exact hseq.elim

/-- Every run of plain operations adds their sum to the stack pointer. -/
theorem RunsTo.sp {ops : List Op} (h : vm.RunsTo ops m m') (hplain : ∀ op ∈ ops, op.Plain) :
    m'.registers .sp = m.registers .sp + BitVec.ofInt 64 (spSum ops) := by
  induction h with
  | nil m => simp
  | @step op ops m m₁ m₂ hcall hexec hrest ih =>
      have hop := hplain op (by simp)
      have hseq := hop.sequential.resolve_left hcall
      have hpc : (m.set .pc (m.registers .pc + BitVec.ofNat 64 op.cells.length)).registers .sp =
          m.registers .sp := Machine.set_registers_of_ne _ _ (by decide)
      rw [ih fun op hmem => hplain op (by simp [hmem]), execute_sp hseq hop.sparesSp hexec, hpc,
        spSum_cons, BitVec.ofInt_add, BitVec.add_assoc]
  | @call op ops m m₁ m₂ n hcall hrun hpiece hpc hsp hrest ih =>
      rw [ih fun op hmem => hplain op (by simp [hmem]), hsp, spSum_cons, hcall]
      simp [Instruction.spChange]

end VirtualMachine

/-! ## What the emit functions add -/

/-- Up to some operation of `ops` both are the same, and from there on `ops'` is plain. -/
def PlainFrom (ops ops' : List Op) : Prop :=
  ∃ k ≤ ops.length, (∀ i < k, ops'[i]? = ops[i]?) ∧ ∀ i ≥ k, ∀ op, ops'[i]? = some op → op.Plain

namespace PlainFrom

variable {ops ops' ops'' : List Op}

theorem refl (ops : List Op) : PlainFrom ops ops := by
  refine ⟨ops.length, Nat.le_refl _, fun _ _ => rfl, fun i hi op hop => ?_⟩
  rw [List.getElem?_eq_none hi] at hop
  cases hop

theorem trans (h : PlainFrom ops ops') (h' : PlainFrom ops' ops'') : PlainFrom ops ops'' := by
  obtain ⟨k, hk, hsame, hplain⟩ := h
  obtain ⟨k', -, hsame', hplain'⟩ := h'
  refine ⟨min k k', by omega, fun i hi => ?_, fun i hi op hop => ?_⟩
  · rw [hsame' i (by omega), hsame i (by omega)]
  · rcases Nat.lt_or_ge i k' with hlt | hge
    · rw [hsame' i hlt] at hop
      exact hplain i (by omega) op hop
    · exact hplain' i hge op hop

theorem concat (ops : List Op) {op : Op} (hplain : op.Plain) : PlainFrom ops (ops ++ [op]) := by
  refine ⟨ops.length, Nat.le_refl _, fun i hi => List.getElem?_append_left hi,
    fun i hi op' hop => ?_⟩
  rw [List.getElem?_append_right hi] at hop
  have hmem := List.mem_of_getElem? hop
  exact List.mem_singleton.mp hmem ▸ hplain

theorem dropLast (ops : List Op) : PlainFrom ops ops.dropLast := by
  refine ⟨ops.dropLast.length, by simp, fun i hi => ?_, fun i hi op hop => ?_⟩
  · rw [List.getElem?_dropLast, if_pos (by simpa using hi)]
  · rw [List.getElem?_eq_none hi] at hop
    cases hop

/-- Behind a common beginning `ops'` is plain when `ops` is. -/
theorem plain_of_append {pre old code : List Op} (h : PlainFrom (pre ++ old) (pre ++ code))
    (hold : ∀ op ∈ old, op.Plain) : ∀ op ∈ code, op.Plain := by
  intro op hmem
  obtain ⟨k, -, hsame, hplain⟩ := h
  obtain ⟨i, hi⟩ := List.mem_iff_getElem?.mp hmem
  have hop : (pre ++ code)[pre.length + i]? = some op := by
    rw [List.getElem?_append_right (by omega), Nat.add_sub_cancel_left, hi]
  rcases Nat.lt_or_ge (pre.length + i) k with hlt | hge
  · rw [hsame _ hlt, List.getElem?_append_right (by omega), Nat.add_sub_cancel_left] at hop
    exact hold op (List.mem_of_getElem? hop)
  · exact hplain _ hge op hop

end PlainFrom

/-- The operations of `piece'` are those of `piece`, possibly without a push at the end, and
new plain ones; the sum is changed by `amount`. -/
def Moves (piece piece' : BytecodePiece) (amount : ℤ) : Prop :=
  ∀ ops, Assembles piece ops → ∃ ops', Assembles piece' ops' ∧ spSum ops' = spSum ops + amount ∧
    PlainFrom ops ops'

namespace Moves

variable {piece piece' piece'' : BytecodePiece} {amount amount' : ℤ}

theorem refl (piece : BytecodePiece) : Moves piece piece 0 :=
  fun ops h => ⟨ops, h, (Int.add_zero _).symm, .refl ops⟩

theorem trans (h : Moves piece piece' amount) (h' : Moves piece' piece'' amount') :
    Moves piece piece'' (amount + amount') := by
  intro ops hasm
  obtain ⟨ops', hasm', hsum', hplain'⟩ := h ops hasm
  obtain ⟨ops'', hasm'', hsum'', hplain''⟩ := h' ops' hasm'
  exact ⟨ops'', hasm'', by omega, hplain'.trans hplain''⟩

theorem of_eq (h : Moves piece piece' amount) (heq : amount = amount') :
    Moves piece piece' amount' := heq ▸ h

/-- One plain operation behind the others. -/
theorem of_assembles (op : Op) (hplain : op.Plain)
    (h : ∀ ops, Assembles piece ops → Assembles piece' (ops ++ [op])) :
    Moves piece piece' op.inst.spChange := by
  intro ops hasm
  exact ⟨ops ++ [op], h ops hasm, by simp, .concat ops hplain⟩

theorem emitLi (piece : BytecodePiece) {reg : Register} (imm : ℤ) (hsp : reg ≠ .sp)
    (hpc : reg ≠ .pc) : Moves piece (piece.emitLi reg imm) 0 :=
  of_assembles ⟨.li reg, some imm⟩ ⟨rfl, .inr hpc, hsp⟩ fun _ h => h.emitLi reg imm

theorem emitPush (piece : BytecodePiece) (reg : Register) : Moves piece (piece.emitPush reg) (-8) :=
  of_assembles ⟨.push reg, none⟩ ⟨rfl, .inr trivial, trivial⟩ fun _ h => h.emitPush reg

theorem emitPop (piece : BytecodePiece) {reg : Register} (hsp : reg ≠ .sp) (hpc : reg ≠ .pc) :
    Moves piece (piece.emitPop reg) 8 := by
  intro ops hasm
  refine ⟨Op.popOp reg ops, hasm.emitPop reg, ?_, ?_⟩
  · unfold Op.popOp
    split
    · next hlast =>
        obtain ⟨op, hop, hinst⟩ := Option.map_eq_some_iff.mp hlast
        obtain ⟨init, rfl⟩ := List.getLast?_eq_some_iff.mp hop
        simp only [List.dropLast_concat, spSum_append, spSum_cons, spSum_nil, hinst,
          Instruction.spChange]
        omega
    · simp [Instruction.spChange]
  · unfold Op.popOp
    split
    · exact .dropLast ops
    · exact .concat ops ⟨rfl, .inr hpc, hsp⟩

theorem emitIncrSp (piece : BytecodePiece) (imm : ℤ) :
    Moves piece (piece.emitIncr .sp imm) (encodedIncr imm) := by
  have hplain : (Op.incr .sp imm).Plain :=
    ⟨rfl, .inr (show Register.sp ≠ .pc by decide), trivial⟩
  exact (of_assembles _ hplain fun _ h => h.emitIncr .sp imm).of_eq (by
    simp [Op.incr, Instruction.spChange, encodedIncr])

theorem emitIncr (piece : BytecodePiece) {reg : Register} (imm : ℤ) (hsp : reg ≠ .sp)
    (hpc : reg ≠ .pc) : Moves piece (piece.emitIncr reg imm) 0 := by
  have hplain : (Op.incr reg imm).Plain := ⟨rfl, .inr hpc, trivial⟩
  exact (of_assembles _ hplain fun _ h => h.emitIncr reg imm).of_eq (by
    simp [Op.incr, Instruction.spChange, hsp])

/-- An instruction without immediate that has nothing to do with the stack pointer. -/
theorem emit (piece : BytecodePiece) {inst : Instruction} (himm : inst.hasImmediate = false)
    (hseq : inst.Sequential) (hspares : inst.SparesSp) (hzero : inst.spChange = 0) :
    Moves piece (piece.emit inst) 0 :=
  (of_assembles ⟨inst, none⟩ ⟨himm, .inr hseq, hspares⟩ fun _ h => h.emit inst).of_eq hzero

theorem emitCast (piece : BytecodePiece) {reg : Register} (castType : CastType) (hsp : reg ≠ .sp)
    (hpc : reg ≠ .pc) : Moves piece (piece.emitCast reg castType) 0 :=
  emit piece rfl hpc hsp rfl

theorem emitMovRR (piece : BytecodePiece) {toReg : Register} (fromReg : Register)
    (hsp : toReg ≠ .sp) (hpc : toReg ≠ .pc) : Moves piece (piece.emitMovRR toReg fromReg) 0 :=
  emit piece rfl hpc hsp rfl

theorem emitMovMR (piece : BytecodePiece) (toReg fromReg : Register) (size : ℕ) :
    Moves piece (piece.emitMovMR toReg fromReg size) 0 :=
  emit piece rfl trivial trivial rfl

theorem emitMovRM (piece : BytecodePiece) {toReg : Register} (fromReg : Register) (size : ℕ)
    (hsp : toReg ≠ .sp) (hpc : toReg ≠ .pc) : Moves piece (piece.emitMovRM toReg fromReg size) 0 :=
  emit piece rfl hpc hsp rfl

theorem emitMovMRDisp (piece : BytecodePiece) (toReg fromReg : Register) (size : ℕ) (offset : ℤ) :
    Moves piece (piece.emitMovMRDisp toReg fromReg size offset) 0 := by
  have hplain : (Op.movMR toReg fromReg size offset).Plain := by
    unfold Op.movMR
    split <;> exact ⟨rfl, .inr trivial, trivial⟩
  refine (of_assembles _ hplain fun _ h => h.emitMovMRDisp toReg fromReg size offset).of_eq ?_
  unfold Op.movMR
  split <;> rfl

theorem emitMovRMDisp (piece : BytecodePiece) {toReg : Register} (fromReg : Register) (size : ℕ)
    (offset : ℤ) (hsp : toReg ≠ .sp) (hpc : toReg ≠ .pc) :
    Moves piece (piece.emitMovRMDisp toReg fromReg size offset) 0 := by
  have hplain : (Op.movRM toReg fromReg size offset).Plain := by
    unfold Op.movRM
    split <;> exact ⟨rfl, .inr hpc, hsp⟩
  refine (of_assembles _ hplain fun _ h => h.emitMovRMDisp toReg fromReg size offset).of_eq ?_
  unfold Op.movRM
  split <;> rfl

theorem emitArithmetic (piece : BytecodePiece) (op : ArithmeticOp) {toFromReg : Register}
    (fromReg : Register) (isFloat : Bool) (hsp : toFromReg ≠ .sp) (hpc : toFromReg ≠ .pc) :
    Moves piece (piece.emitArithmetic op toFromReg fromReg isFloat) 0 :=
  emit piece rfl hpc hsp rfl

theorem emitNot (piece : BytecodePiece) {toReg : Register} (fromReg : Register)
    (hsp : toReg ≠ .sp) (hpc : toReg ≠ .pc) : Moves piece (piece.emitNot toReg fromReg) 0 :=
  emit piece rfl hpc hsp rfl

theorem emitDataptr (piece : BytecodePiece) {reg : Register} (offset : ℤ) (hsp : reg ≠ .sp)
    (hpc : reg ≠ .pc) : Moves piece (piece.emitDataptr reg offset) 0 :=
  of_assembles ⟨.dataptr reg, some offset⟩ ⟨rfl, .inr hpc, hsp⟩
    fun _ h => h.emitDataptr reg offset

/-- A call with its relocation. -/
theorem emitCall (piece : BytecodePiece) (function : ℕ) :
    Moves piece (piece.emitCall.2.addRelocation function piece.emitCall.1) 0 :=
  of_assembles ⟨.call, some 0⟩ ⟨rfl, .inl rfl, trivial⟩
    fun _ h => h.emitCall.addRelocation function _

end Moves

end TinCompiler
