import TinCompiler.Expressions.ImplicitCast
import TinCompiler.Expressions.IntegerCode

/-!
# Increments and decrements

The four operators share their code behind that of the address of the operand: it is popped
into `b`, the int is loaded, changed and stored again, and the result is pushed before or
after the change.  `steps_iff` says that this is right for every operand, but not for `--e`,
which adds 1 as `++e` does.
-/

namespace TinCompiler

namespace StepKind

/-- The new value of the operand. -/
def apply : StepKind → BitVec 32 → BitVec 32
  | preIncrement, value | postIncrement, value => value + 1
  | preDecrement, value | postDecrement, value => value - 1

/-- The value of the expression, which is the new one if the operator is in front. -/
def result (kind : StepKind) (value : BitVec 32) : BitVec 32 :=
  match kind with
  | preIncrement | preDecrement => kind.apply value
  | postIncrement | postDecrement => value

/-- The code behind the address, which is in `b` already. -/
def code (kind : StepKind) : List Op :=
  [⟨.movRM .a .b 4, none⟩] ++
    (match kind with
    | preIncrement | preDecrement => [Op.incr .a 1, ⟨.push .a, none⟩]
    | postIncrement => [⟨.push .a, none⟩, Op.incr .a 1]
    | postDecrement => [⟨.push .a, none⟩, Op.incr .a (-1)]) ++
    [⟨.movMR .b .a 4, none⟩]

end StepKind

/-- From `m`, with the address of the operand in the slot at `sp`, to `m'`: the int at the
address is the new one, the slot holds the result, and nothing else has changed. -/
structure Steps (kind : StepKind) (sp : ℕ) (m m' : Machine) : Prop where
  stored : m'.memory.load (m.memory.load sp 8 : BitVec 64).toNat 4 =
    kind.apply (m.memory.load (m.memory.load sp 8 : BitVec 64).toNat 4)
  pushed : m'.memory.load sp 4 =
    kind.result (m.memory.load (m.memory.load sp 8 : BitVec 64).toNat 4)
  memory : ∀ a, a < sp ∨ sp + 8 ≤ a →
    a < (m.memory.load sp 8 : BitVec 64).toNat ∨ (m.memory.load sp 8 : BitVec 64).toNat + 4 ≤ a →
    m'.memory a = m.memory a
  sp : m'.registers .sp = m.registers .sp
  bp : m'.registers .bp = m.registers .bp

/-- The code of `&e`, and that of `++e` or another of the operators, which is the same up to the
push of the address. -/
structure StepCode (c : GeneratorContext) (kind : StepKind) (e : ASTExpression)
    (location : SourceLocation) (before push code : List Op) : Prop where
  reference : Assembles (generateReference e c).2.piece (before ++ push)
  step : Assembles (generateExpression (.step kind e location) c).2.piece (before ++ code)
  push : push = [] ∨ ∃ imm, push = [⟨.push .b, imm⟩]

/-! ## What is emitted -/

theorem emitStep_assembles (kind : StepKind) {piece : BytecodePiece} {ops : List Op}
    (h : Assembles piece ops) : Assembles (emitStep kind piece) (Op.popOp .b ops ++ kind.code) := by
  have hload : Assembles ((piece.emitPop .b).emitMovRM .a .b 4) _ := (h.emitPop .b).emit (.movRM .a .b 4)
  have hstore {piece : BytecodePiece} {ops : List Op} (h : Assembles piece ops) :
      Assembles (piece.emitMovMR .b .a 4) _ := h.emit (.movMR .b .a 4)
  unfold emitStep
  cases kind with
  | preIncrement | preDecrement =>
      simpa [StepKind.code] using hstore ((hload.emitIncr .a 1).emitPush .a)
  | postIncrement => simpa [StepKind.code] using hstore ((hload.emitPush .a).emitIncr .a 1)
  | postDecrement => simpa [StepKind.code] using hstore ((hload.emitPush .a).emitIncr .a (-1))

section Accepted

variable {c : GeneratorContext} {kind : StepKind} {e : ASTExpression} {location : SourceLocation}

/-- An operand that is accepted is of type `int`. -/
theorem generateExpression_step (haccepted : (generateExpression (.step kind e location) c).1.Valid) :
    (generateReference e c).1 = .int ∧
      (generateExpression (.step kind e location) c).2.piece =
        emitStep kind (generateReference e c).2.piece := by
  have hbind : generateExpression (.step kind e location) c =
      generateStep kind e.location (generateReference e c).1 (generateReference e c).2 := rfl
  rw [hbind] at haccepted ⊢
  unfold generateStep at haccepted ⊢
  rw [getContext_bind_apply, GeneratorM.ite_apply] at haccepted ⊢
  split at haccepted
  · next hvalid =>
      rw [if_pos hvalid]
      rw [GeneratorM.ite_apply] at haccepted ⊢
      split at haccepted
      · next hint =>
          rw [if_pos hint]
          exact ⟨hint, rfl⟩
      · exact (TypeId.not_valid_iff.mpr rfl haccepted).elim
  · exact (TypeId.not_valid_iff.mpr rfl haccepted).elim

/-- Behind what both codes have, the address is popped if it has been pushed. -/
theorem StepCode.code_eq {before push code : List Op}
    (h : StepCode c kind e location before push code)
    (haccepted : (generateExpression (.step kind e location) c).1.Valid) :
    code = Op.popOp .b push ++ kind.code := by
  have hstep := h.step
  rw [(generateExpression_step haccepted).2] at hstep
  have hops : before ++ code = Op.popOp .b (before ++ push) ++ kind.code :=
    flatten_injective (hstep.instructions.symm.trans
      (emitStep_assembles kind h.reference).instructions)
  rcases h.push with rfl | ⟨imm, rfl⟩
  · rcases popOp_cases .b (before ++ []) with ⟨init, op, hbefore, hpush, hpop⟩ | hpop
    · -- the code of the operand would begin with the push that ends the code of the address
      obtain rfl : before = init ++ [op] := by simpa using hbefore
      rw [hpop, List.append_assoc] at hops
      have hhead : op :: code = kind.code := by simpa using hops
      have hfirst : op.inst = .movRM .a .b 4 := by
        have hop := (List.cons.inj hhead).1
        rw [hop]
      exact absurd (hpush.symm.trans hfirst) (by decide)
    · rw [hpop] at hops
      simpa [Op.popOp] using hops
  · have hpop : Op.popOp .b (before ++ [⟨.push .b, imm⟩]) = before := by simp [Op.popOp]
    rw [hpop] at hops
    simpa [Op.popOp] using hops

/-- Both codes are as `StepCode` says. -/
theorem exists_stepCode (haccepted : (generateExpression (.step kind e location) c).1.Valid)
    {ops : List Op} (h : Assembles (generateReference e c).2.piece ops) :
    ∃ before push code, StepCode c kind e location before push code := by
  have hstep := emitStep_assembles kind h
  rw [← (generateExpression_step haccepted).2] at hstep
  rcases popOp_cases .b ops with ⟨init, ⟨inst, imm⟩, rfl, rfl, hpop⟩ | hpop
  · rw [hpop] at hstep
    exact ⟨init, _, _, h, hstep, .inr ⟨imm, rfl⟩⟩
  · rw [hpop, List.append_assoc] at hstep
    exact ⟨ops, [], _, by rwa [List.append_nil], hstep, .inl rfl⟩

end Accepted

/-! ## What the code does -/

section Code

variable {vm : VirtualMachine} {m : Machine} {sp : ℕ}

/-- Nothing but `a`, the stack pointer and the memory has changed. -/
structure Beside (m m' : Machine) : Prop where
  b : m'.registers .b = m.registers .b
  bp : m'.registers .bp = m.registers .bp
  allocations : m'.allocations = m.allocations

theorem Beside.trans {m' m'' : Machine} (h : Beside m m') (h' : Beside m' m'') : Beside m m'' :=
  ⟨h'.b.trans h.b, h'.bp.trans h.bp, h'.allocations.trans h.allocations⟩

theorem Beside.canAccess {m' : Machine} (h : Beside m m') {size : ℤ}
    (haccess : vm.canAccessMemory m (m.registers .b) size = true) :
    vm.canAccessMemory m' (m'.registers .b) size = true := by
  rw [h.b]
  unfold VirtualMachine.canAccessMemory at haccess ⊢
  rwa [h.allocations]

theorem execute_load (haccess : vm.canAccessMemory m (m.registers .b) 4 = true) :
    vm.execute m 0 (.movRM .a .b 4) =
      .ok (m.set .a (m.memory.load (m.registers .b).toNat 4)) := by
  simp [VirtualMachine.execute, VirtualMachine.movRM, haccess, VirtualMachine.movable]

theorem execute_store (haccess : vm.canAccessMemory m (m.registers .b) 4 = true) :
    vm.execute m 0 (.movMR .b .a 4) =
      .ok { m with memory := m.memory.store (m.registers .b).toNat 4 (m.registers .a) } := by
  simp [VirtualMachine.execute, VirtualMachine.movMR, haccess, VirtualMachine.movable]

theorem runOps_load (ops : List Op) (h : vm.StackAt m sp)
    (haccess : vm.canAccessMemory m (m.registers .b) 4 = true) :
    ∃ m', vm.runOps (⟨.movRM .a .b 4, none⟩ :: ops) m = vm.runOps ops m' ∧ vm.StackAt m' sp ∧
      Beside m m' ∧ m'.memory = m.memory ∧
      m'.registers .a = m.memory.load (m.registers .b).toNat 4 := by
  have haccess' : vm.canAccessMemory (m.set .pc (m.registers .pc + 1))
      ((m.set .pc (m.registers .pc + 1)).registers .b) 4 = true := haccess
  exact ⟨_, VirtualMachine.runOps_cons_of_execute (execute_load haccess'), h.of_eq rfl,
    ⟨rfl, rfl, rfl⟩, rfl, rfl⟩

theorem runOps_incrA (imm : ℤ) (ops : List Op) (h : vm.StackAt m sp) :
    ∃ m', vm.runOps (Op.incr .a imm :: ops) m = vm.runOps ops m' ∧ vm.StackAt m' sp ∧
      Beside m m' ∧ m'.memory = m.memory ∧
      m'.registers .a = m.registers .a + (VirtualMachine.incrAmount (BitVec.ofInt 8 imm)
        (BitVec.ofInt 8 (imm / 2 ^ 8))).signExtend 64 := by
  refine ⟨(m.set .pc (m.registers .pc + 1)).set .a _,
    VirtualMachine.runOps_cons_of_execute rfl, h.of_eq rfl, ⟨rfl, rfl, rfl⟩, rfl, rfl⟩

theorem runOps_pushResult (ops : List Op) (h : vm.StackAt m (sp + 8)) (hlow : vm.stack ≤ sp) :
    ∃ m', vm.runOps (⟨.push .a, none⟩ :: ops) m = vm.runOps ops m' ∧ vm.StackAt m' sp ∧
      Beside m m' ∧ m'.memory = m.memory.store sp 8 (m.registers .a) ∧
      m'.registers .a = m.registers .a := by
  have hat : vm.StackAt (m.set .pc (m.registers .pc + 1)) (sp + 8) := h.of_eq rfl
  have hexec := VirtualMachine.execute_push hat (by omega) (show Register.a ≠ .sp by decide) 0
  rw [Nat.add_sub_cancel] at hexec
  refine ⟨_, VirtualMachine.runOps_cons_of_execute hexec, ⟨?_, hlow, ?_⟩, ⟨rfl, rfl, rfl⟩, rfl, rfl⟩
  · rfl
  · have hhigh := h.high
    omega

theorem runOps_store (ops : List Op) (h : vm.StackAt m sp)
    (haccess : vm.canAccessMemory m (m.registers .b) 4 = true) :
    ∃ m', vm.runOps (⟨.movMR .b .a 4, none⟩ :: ops) m = vm.runOps ops m' ∧ vm.StackAt m' sp ∧
      Beside m m' ∧ m'.memory = m.memory.store (m.registers .b).toNat 4 (m.registers .a) := by
  have haccess' : vm.canAccessMemory (m.set .pc (m.registers .pc + 1))
      ((m.set .pc (m.registers .pc + 1)).registers .b) 4 = true := haccess
  exact ⟨_, VirtualMachine.runOps_cons_of_execute (execute_store haccess'), h.of_eq rfl,
    ⟨rfl, rfl, rfl⟩, rfl⟩

/-- What is added to the register. -/
def StepKind.amount : StepKind → BitVec 64
  | .preIncrement | .preDecrement | .postIncrement => 1
  | .postDecrement => -1

/-- What is pushed. -/
def StepKind.wide (kind : StepKind) (value : BitVec 64) : BitVec 64 :=
  match kind with
  | .preIncrement | .preDecrement => value + kind.amount
  | .postIncrement | .postDecrement => value

/-- The result is pushed, and the new value is stored at the address in `b`. -/
theorem runOps_step (kind : StepKind) (h : vm.StackAt m (sp + 8)) (hlow : vm.stack ≤ sp)
    (haccess : vm.canAccessMemory m (m.registers .b) 4 = true) :
    ∃ m', vm.runOps kind.code m = .ok m' ∧ vm.StackAt m' sp ∧
      m'.registers .bp = m.registers .bp ∧
      m'.memory = (m.memory.store sp 8 (kind.wide (m.memory.load (m.registers .b).toNat 4))).store
        (m.registers .b).toNat 4 (m.memory.load (m.registers .b).toNat 4 + kind.amount) := by
  obtain ⟨m₁, hload, hstack₁, hsame₁, hmemory₁, ha₁⟩ := runOps_load
    ((match kind with
    | .preIncrement | .preDecrement => [Op.incr .a 1, ⟨.push .a, none⟩]
    | .postIncrement => [⟨.push .a, none⟩, Op.incr .a 1]
    | .postDecrement => [⟨.push .a, none⟩, Op.incr .a (-1)]) ++ [⟨.movMR .b .a 4, none⟩]) h haccess
  have hamount : (VirtualMachine.incrAmount (BitVec.ofInt 8 1) (BitVec.ofInt 8 (1 / 2 ^ 8))).signExtend
      64 = 1 := by decide
  have hback : (VirtualMachine.incrAmount (BitVec.ofInt 8 (-1))
      (BitVec.ofInt 8 (-1 / 2 ^ 8))).signExtend 64 = -1 := by decide
  -- the change comes before the push or behind it
  have hpre : ∃ m', vm.runOps [Op.incr .a 1, ⟨.push .a, none⟩, ⟨.movMR .b .a 4, none⟩] m₁ = .ok m' ∧
      vm.StackAt m' sp ∧ Beside m₁ m' ∧ m'.memory =
        (m₁.memory.store sp 8 (m₁.registers .a + 1)).store (m₁.registers .b).toNat 4
          (m₁.registers .a + 1) := by
    obtain ⟨m₂, hincr, hstack₂, hsame₂, hmemory₂, ha₂⟩ := runOps_incrA 1
      [⟨.push .a, none⟩, ⟨.movMR .b .a 4, none⟩] hstack₁
    obtain ⟨m₃, hpush, hstack₃, hsame₃, hmemory₃, ha₃⟩ :=
      runOps_pushResult [⟨.movMR .b .a 4, none⟩] hstack₂ hlow
    have hsame := hsame₂.trans hsame₃
    obtain ⟨m', hstore, hstack', hsame', hmemory'⟩ :=
      runOps_store [] hstack₃ ((hsame₁.trans hsame).canAccess haccess)
    refine ⟨m', by rw [hincr, hpush, hstore]; rfl, hstack', hsame.trans hsame', ?_⟩
    rw [hmemory', hmemory₃, hmemory₂, ha₃, ha₂, hsame.b, hamount]
  have hpost {imm : ℤ} {amount : BitVec 64} (himm : (VirtualMachine.incrAmount (BitVec.ofInt 8 imm)
      (BitVec.ofInt 8 (imm / 2 ^ 8))).signExtend 64 = amount) :
      ∃ m', vm.runOps [⟨.push .a, none⟩, Op.incr .a imm, ⟨.movMR .b .a 4, none⟩] m₁ = .ok m' ∧
        vm.StackAt m' sp ∧ Beside m₁ m' ∧ m'.memory =
          (m₁.memory.store sp 8 (m₁.registers .a)).store (m₁.registers .b).toNat 4
            (m₁.registers .a + amount) := by
    obtain ⟨m₂, hpush, hstack₂, hsame₂, hmemory₂, ha₂⟩ :=
      runOps_pushResult [Op.incr .a imm, ⟨.movMR .b .a 4, none⟩] hstack₁ hlow
    obtain ⟨m₃, hincr, hstack₃, hsame₃, hmemory₃, ha₃⟩ :=
      runOps_incrA imm [⟨.movMR .b .a 4, none⟩] hstack₂
    have hsame := hsame₂.trans hsame₃
    obtain ⟨m', hstore, hstack', hsame', hmemory'⟩ :=
      runOps_store [] hstack₃ ((hsame₁.trans hsame).canAccess haccess)
    refine ⟨m', by rw [hpush, hincr, hstore]; rfl, hstack', hsame.trans hsame', ?_⟩
    rw [hmemory', hmemory₃, hmemory₂, ha₃, ha₂, hsame.b, himm]
  rw [hmemory₁, ha₁, hsame₁.b] at hpre
  rw [hmemory₁, ha₁, hsame₁.b] at hpost
  cases kind with
  | preIncrement | preDecrement =>
      obtain ⟨m', hrun, hstack', hsame, hmemory⟩ := hpre
      exact ⟨m', hload.trans hrun, hstack', hsame.bp.trans hsame₁.bp, hmemory⟩
  | postIncrement =>
      obtain ⟨m', hrun, hstack', hsame, hmemory⟩ := hpost hamount
      exact ⟨m', hload.trans hrun, hstack', hsame.bp.trans hsame₁.bp, hmemory⟩
  | postDecrement =>
      obtain ⟨m', hrun, hstack', hsame, hmemory⟩ := hpost hback
      exact ⟨m', hload.trans hrun, hstack', hsame.bp.trans hsame₁.bp, hmemory⟩

theorem RunsTo_append {ops ops' : List Op} {m₀ m' : Machine} (h : vm.RunsTo ops m₀ m)
    (h' : vm.RunsTo ops' m m') : vm.RunsTo (ops ++ ops') m₀ m' := by
  induction h with
  | nil => exact h'
  | step hcall hexec hrest ih => exact .step hcall hexec (ih h')
  | call hcall hrun hpiece hpc hsp hrest ih => exact .call hcall hrun hpiece hpc hsp (ih h')

theorem RunsTo_of_runOps {ops : List Op} {m' : Machine} (hcall : ∀ op ∈ ops, op.inst ≠ .call) :
    ∀ {m}, vm.runOps ops m = .ok m' → vm.RunsTo ops m m' := by
  induction ops with
  | nil =>
      intro m h
      obtain rfl : m = m' := Except.ok.inj h
      exact .nil m
  | cons op ops ih =>
      intro m h
      change (vm.execute _ _ _).bind _ = _ at h
      cases hexec : vm.execute (m.set .pc (m.registers .pc + BitVec.ofNat 64 op.cells.length))
          (op.imm.getD 0) op.inst with
      | error stop => rw [hexec] at h; cases h
      | ok m₁ =>
          rw [hexec] at h
          exact .step (hcall op (by simp)) hexec (ih (fun op hmem => hcall op (by simp [hmem])) h)

theorem setWidth_wide (kind : StepKind) (hkind : kind ≠ .preDecrement) (value : BitVec 64) :
    (value + kind.amount).setWidth 32 = kind.apply (value.setWidth 32) ∧
      (kind.wide value).setWidth 32 = kind.result (value.setWidth 32) := by
  have hone : (value + 1).setWidth 32 = value.setWidth 32 + 1 := BitVec.setWidth_add _ _ (by decide)
  have hback : (value + -1).setWidth 32 = value.setWidth 32 - 1 := by
    rw [BitVec.setWidth_add _ _ (by decide), BitVec.sub_eq_add_neg]
    rfl
  cases kind with
  | preIncrement => exact ⟨hone, hone⟩
  | postIncrement => exact ⟨hone, rfl⟩
  | preDecrement => exact absurd rfl hkind
  | postDecrement => exact ⟨hback, rfl⟩

end Code

section Runs

variable {vm : VirtualMachine} {c : GeneratorContext} {kind : StepKind} {e : ASTExpression}
  {location : SourceLocation} {before push code : List Op} {m₀ m mref : Machine} {sp : ℕ}

/-- The machine behind the operator. -/
theorem runOps_stepCode (hcode : StepCode c kind e location before push code)
    (haccepted : (generateExpression (.step kind e location) c).1.Valid)
    (hpush : vm.runOps push m = .ok mref) (hstack : vm.StackAt mref sp)
    (hused : sp + 8 ≤ vm.stack + vm.stackMax) {addr : ℕ}
    (haddr : (mref.memory.load sp 8 : BitVec 64).toNat = addr)
    (haccess : vm.canAccessMemory mref (mref.memory.load sp 8) 4 = true)
    (hdisjoint : addr + 4 ≤ sp ∨ sp + 8 ≤ addr) :
    ∃ m', vm.runOps code m = .ok m' ∧ vm.StackAt m' sp ∧
      m'.registers .bp = mref.registers .bp ∧
      (∀ a, a < sp ∨ sp + 8 ≤ a → a < addr ∨ addr + 4 ≤ a → m'.memory a = mref.memory a) ∧
      m'.memory.load addr 4 = (mref.memory.load addr 4 + kind.amount).setWidth 32 ∧
      m'.memory.load sp 4 = (kind.wide (mref.memory.load addr 4)).setWidth 32 := by
  obtain ⟨m₁, hpop, hstack₁, hb, hsame₁, halloc, hmemory₁⟩ :=
    runOps_popOp .b (by decide) (by decide) hpush hstack hused
  have haccess₁ : vm.canAccessMemory m₁ (m₁.registers .b) 4 = true := by
    rw [hb]
    unfold VirtualMachine.canAccessMemory at haccess ⊢
    rwa [halloc]
  obtain ⟨m', hrun, hstack', hbp, hmemory⟩ := runOps_step kind hstack₁ hstack.low haccess₁
  rw [hb, haddr] at hmemory
  have hold : (m₁.memory.load addr 4 : BitVec 64) = mref.memory.load addr 4 :=
    ByteMemory.load_congr fun i hi => hmemory₁ _ (by omega)
  rw [hold] at hmemory
  refine ⟨m', ?_, hstack', hbp.trans (hsame₁ .bp (by decide) (by decide)), fun a hslot hint => ?_, ?_, ?_⟩
  · rw [hcode.code_eq haccepted, VirtualMachine.runOps_append_of_ok _ hpop]
    exact hrun
  · rw [hmemory, ByteMemory.store_apply_of_not_mem (by omega),
      ByteMemory.store_apply_of_not_mem (by omega), hmemory₁ a hslot]
  · rw [hmemory, ByteMemory.load_eq_setWidth _ _ _ 64 (by decide), ByteMemory.load_store_same]
    simp
  · have hbeside : sp + 4 ≤ addr ∨ addr + 4 ≤ sp := by omega
    rw [hmemory, ByteMemory.load_eq_setWidth _ _ _ 64 (by decide),
      ByteMemory.load_store_disjoint _ _ hbeside, ByteMemory.load_store_low _ _ (by decide)]
    simp

theorem load_setWidth (mem : ByteMemory) (addr : ℕ) :
    (mem.load addr 4 : BitVec 64).setWidth 32 = mem.load addr 4 :=
  (ByteMemory.load_eq_setWidth _ _ _ _ (by decide)).symm

/-- The prefix `--` stores the old value plus one, which is never the old value minus one. -/
theorem not_steps_preDecrement (hcode : StepCode c .preDecrement e location before push code)
    (haccepted : (generateExpression (.step .preDecrement e location) c).1.Valid)
    (hpush : vm.runOps push m = .ok mref) (hstack : vm.StackAt mref sp)
    (hused : sp + 8 ≤ vm.stack + vm.stackMax)
    (haccess : vm.canAccessMemory mref (mref.memory.load sp 8) 4 = true)
    (hdisjoint : (mref.memory.load sp 8 : BitVec 64).toNat + 4 ≤ sp ∨
      sp + 8 ≤ (mref.memory.load sp 8 : BitVec 64).toNat) {m'' : Machine}
    (hends'' : vm.runOps code m = .ok m'') : ¬ Steps .preDecrement sp mref m'' := by
  intro hsteps
  obtain ⟨m', hends, -, -, -, hstored, -⟩ :=
    runOps_stepCode hcode haccepted hpush hstack hused rfl haccess hdisjoint
  obtain rfl : m' = m'' := Except.ok.inj (hends.symm.trans hends'')
  have hwrong := hsteps.stored.symm.trans hstored
  rw [BitVec.setWidth_add _ _ (by decide), load_setWidth] at hwrong
  have hnumbers : (-1 : BitVec 32) = 1 :=
    (BitVec.add_right_inj _).mp ((BitVec.sub_eq_add_neg _ _).symm.trans hwrong)
  exact absurd hnumbers (by decide)

/-- In every run the operator does what it says, if it is not `--e`: `m` is the machine with the
address of `e` still to be pushed, and `mref` the one behind `&e`. -/
theorem steps_iff (hcode : StepCode c kind e location before push code)
    (haccepted : (generateExpression (.step kind e location) c).1.Valid)
    (hrun : vm.RunsTo before m₀ m) (hpush : vm.runOps push m = .ok mref)
    (hstack : vm.StackAt mref sp) (hused : sp + 8 ≤ vm.stack + vm.stackMax)
    (haccess : vm.canAccessMemory mref (mref.memory.load sp 8) 4 = true)
    (hdisjoint : (mref.memory.load sp 8 : BitVec 64).toNat + 4 ≤ sp ∨
      sp + 8 ≤ (mref.memory.load sp 8 : BitVec 64).toNat) :
    (∃ m', vm.runOps code m = .ok m' ∧ vm.RunsTo (before ++ code) m₀ m' ∧ Steps kind sp mref m') ↔
      kind ≠ .preDecrement := by
  constructor
  · rintro ⟨m', hends, -, hsteps⟩ rfl
    exact not_steps_preDecrement hcode haccepted hpush hstack hused haccess hdisjoint hends hsteps
  · intro hkind
    obtain ⟨m', hends, hstack', hbp, hmemory, hstored, hpushed⟩ :=
      runOps_stepCode hcode haccepted hpush hstack hused rfl haccess hdisjoint
    obtain ⟨hnew, hresult⟩ := setWidth_wide kind hkind
      (mref.memory.load (mref.memory.load sp 8 : BitVec 64).toNat 4)
    rw [load_setWidth] at hnew hresult
    have hcalls : ∀ op ∈ code, op.inst ≠ .call := by
      rw [hcode.code_eq haccepted]
      rcases hcode.push with rfl | ⟨imm, rfl⟩ <;> cases kind <;>
        simp [Op.popOp, StepKind.code, Op.incr]
    exact ⟨m', hends, RunsTo_append hrun (RunsTo_of_runOps hcalls hends),
      ⟨hstored.trans hnew, hpushed.trans hresult, hmemory,
        hstack'.register.trans hstack.register.symm, hbp⟩⟩

end Runs

/-! ## One variable -/

section Variable

open IntExpr

/-- `x`, at `bp - 8`. -/
def operand : ASTExpression := .identifier "x" 0

def addressOfX : List Op := [⟨.li .b, some (-8)⟩, ⟨.arithmetic .add .b .bp false, none⟩]

theorem stepCode_operand (kind : StepKind) :
    StepCode contextOfX kind operand 0 addressOfX [⟨.push .b, none⟩] kind.code := by
  have href : Assembles (generateReference operand contextOfX).2.piece
      (addressOfX ++ [⟨.push .b, none⟩]) :=
    ((assembles_empty.emitLi .b (-8)).emit (.arithmetic .add .b .bp false)).emitPush .b
  have hvalid : (generateExpression (.step kind operand 0) contextOfX).1.Valid := by
    cases kind <;> decide
  refine ⟨href, ?_, .inr ⟨none, rfl⟩⟩
  rw [(generateExpression_step hvalid).2]
  have hstep := emitStep_assembles kind href
  rwa [Op.popOp_push] at hstep

/-- The machine in which the operations end. -/
def behindOps (ops : List Op) (m : Machine) : Machine :=
  match (VirtualMachine.ofPieces []).runOps ops m with
  | .ok m' => m'
  | .error _ => m

/-- The stack pointer is 8 below `x`, which is 0. -/
def machineInFront : Machine where
  registers := fun reg => if reg = .sp then 0x10fff8 else if reg = .bp then 0x110000 else 0
  memory := fun _ => 0

def machineAtPush : Machine := behindOps addressOfX machineInFront

def machineOfReference : Machine := behindOps [⟨.push .b, none⟩] machineAtPush

theorem runsTo_addressOfX :
    (VirtualMachine.ofPieces []).RunsTo addressOfX machineInFront machineAtPush :=
  RunsTo_of_runOps (by decide) rfl

theorem runOps_pushOfX :
    (VirtualMachine.ofPieces []).runOps [⟨.push .b, none⟩] machineAtPush = .ok machineOfReference :=
  rfl

theorem stackAt_machineOfReference :
    (VirtualMachine.ofPieces []).StackAt machineOfReference 0x10fff0 :=
  ⟨by decide, by decide, by decide⟩

/-- The address of `x`. -/
theorem load_machineOfReference :
    (machineOfReference.memory.load 0x10fff0 8 : BitVec 64) = BitVec.ofNat 64 0x10fff8 := by
  have hmemory : machineOfReference.memory =
      machineAtPush.memory.store 0x10fff0 8 (machineAtPush.registers .b) := rfl
  rw [hmemory, ByteMemory.load_store_word _ _ rfl]
  rfl

theorem canAccess_machineOfReference : (VirtualMachine.ofPieces []).canAccessMemory
    machineOfReference (machineOfReference.memory.load 0x10fff0 8) 4 = true := by
  rw [load_machineOfReference]
  exact VirtualMachine.canAccessMemory_stack (by decide) (by decide)

theorem apart_machineOfReference :
    (machineOfReference.memory.load 0x10fff0 8 : BitVec 64).toNat + 4 ≤ 0x10fff0 ∨
      0x10fff0 + 8 ≤ (machineOfReference.memory.load 0x10fff0 8 : BitVec 64).toNat := by
  rw [load_machineOfReference]
  exact .inr (by decide)

/-- `++x` is `x = x + 1`. -/
theorem steps_iff_operand : ∃ m',
    (VirtualMachine.ofPieces []).runOps (StepKind.code .preIncrement) machineAtPush = .ok m' ∧
      (VirtualMachine.ofPieces []).RunsTo (addressOfX ++ StepKind.code .preIncrement)
        machineInFront m' ∧ Steps .preIncrement 0x10fff0 machineOfReference m' :=
  (steps_iff (stepCode_operand .preIncrement) (by decide) runsTo_addressOfX runOps_pushOfX
    stackAt_machineOfReference (by decide) canAccess_machineOfReference
    apart_machineOfReference).mpr (by decide)

/-- In every run the operator does what it says. -/
def StepsInEveryRun (kind : StepKind) : Prop :=
  ∀ (vm : VirtualMachine) (c : GeneratorContext) (e : ASTExpression) (location : SourceLocation)
    (before push code : List Op) (m₀ m mref : Machine) (sp : ℕ),
    StepCode c kind e location before push code →
    (generateExpression (.step kind e location) c).1.Valid →
    vm.RunsTo before m₀ m → vm.runOps push m = .ok mref → vm.StackAt mref sp →
    sp + 8 ≤ vm.stack + vm.stackMax →
    vm.canAccessMemory mref (mref.memory.load sp 8) 4 = true →
    ((mref.memory.load sp 8 : BitVec 64).toNat + 4 ≤ sp ∨
      sp + 8 ≤ (mref.memory.load sp 8 : BitVec 64).toNat) →
    ∃ m', vm.runOps code m = .ok m' ∧ vm.RunsTo (before ++ code) m₀ m' ∧ Steps kind sp mref m'

/-- `--x` turns 0 into 1. -/
theorem not_stepsInEveryRun : ¬ ∀ kind, StepsInEveryRun kind := by
  intro hall
  obtain ⟨m', hends, -, hsteps⟩ := hall .preDecrement (.ofPieces []) contextOfX operand 0 addressOfX
    [⟨.push .b, none⟩] (StepKind.code .preDecrement) machineInFront machineAtPush
    machineOfReference 0x10fff0 (stepCode_operand .preDecrement) (by decide) runsTo_addressOfX
    runOps_pushOfX stackAt_machineOfReference (by decide) canAccess_machineOfReference
    apart_machineOfReference
  exact not_steps_preDecrement (stepCode_operand .preDecrement) (by decide) runOps_pushOfX
    stackAt_machineOfReference (by decide) canAccess_machineOfReference apart_machineOfReference hends
    hsteps

end Variable

end TinCompiler
