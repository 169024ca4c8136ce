import TinCompiler.Expressions.Integer
import TinCompiler.Machine.StraightLine

/-!
# The code of integer expressions

`code` is what `generateExpression` emits for an integer expression before the final push
(`generateExpression_toAST`); it leaves the value of the 64-bit semantics in the register
`a` (`runOps_code`).  So the code is right about an expression and everything it is built
from exactly if the operators agree about the two semantics (`generateExpression_integer`).
-/

namespace TinCompiler

open GeneratorM

/-- The frame offset of a variable. -/
def GeneratorContext.offset (c : GeneratorContext) (name : String) : ℤ :=
  ((c.ast.findVariable name c.currentScopeId).map Identifier.offset).getD 0

@[simp] theorem GeneratorContext.withPiece_offset (c : GeneratorContext) (piece : BytecodePiece) :
    (c.withPiece piece).offset = c.offset := rfl

/-- The names are those of local variables of type `int`. -/
def GeneratorContext.IntLocals (c : GeneratorContext) (names : List String) : Prop :=
  ∀ name ∈ names, ∃ identifier, c.ast.findVariable name c.currentScopeId = some identifier ∧
    identifier.kind = .localId ∧ identifier.type = .int

namespace IntExpr

/-- The operations up to the push of the result. -/
def code (offset : String → ℤ) : IntExpr → List Op
  | literal value _ => [⟨.li .a, some value.toInt⟩]
  | identifier name _ => [Op.movRM .a .bp 4 (offset name)]
  | binary kind left right _ =>
      left.code offset ++ ⟨.push .a, none⟩ :: (right.code offset ++
        [⟨.push .a, none⟩, ⟨.pop .d, none⟩, ⟨.pop .a, none⟩, ⟨operatorInst 4 false kind, none⟩])
  | not left _ => left.code offset ++ [⟨.not .a .a, none⟩]

/-! ## What is emitted -/

theorem emitBinary_assembles {ast : AST} (hprim : ast.HasPrimitives) {kind : BinaryKind}
    {ltype rtype type : TypeId} {isFloat : Bool} (hl : ltype = .int ∨ ltype = .bool)
    (hr : rtype = .int ∨ rtype = .bool) (htypes : binaryTypes kind ltype rtype = some (type, isFloat))
    {piece : BytecodePiece} {ops : List Op}
    (h : Assembles piece (ops ++ [⟨.push .a, none⟩])) :
    Assembles (emitBinary ast kind ltype rtype isFloat piece)
      (ops ++ [⟨.push .a, none⟩, ⟨.pop .d, none⟩, ⟨.pop .a, none⟩,
        ⟨operatorInst 4 false kind, none⟩, ⟨.push .a, none⟩]) := by
  obtain ⟨rfl, -, -, hcompare⟩ := binaryTypes_of_int_or_bool hl hr htypes
  have hinst : operatorInst (ast.getType ltype).size false kind = operatorInst 4 false kind := by
    cases kind <;> first
      | rfl
      | rw [hcompare rfl rfl, hprim.int_size]
  have hd := h.emitPop .d
  rw [Op.popOp_of_ne (by decide)] at hd
  have ha := hd.emitPop .a
  rw [show ops ++ [⟨.push .a, none⟩, ⟨.pop .d, none⟩] =
    (ops ++ [⟨.push .a, none⟩]) ++ [⟨.pop .d, none⟩] by simp, Op.popOp_of_ne (by decide)] at ha
  have hresult := (ha.emit (operatorInst 4 false kind)).emitPush .a
  simpa [emitBinary, emitOperator_eq, hinst, List.append_assoc] using hresult

theorem generateExpression_toAST {e : IntExpr} : ∀ {type : TypeId} {c : GeneratorContext}
    {ops : List Op}, e.typeOf = some type → c.ast.HasPrimitives → c.IntLocals e.names →
    Assembles c.piece ops →
    ∃ piece, generateExpression e.toAST c = (type, c.withPiece piece) ∧
      Assembles piece (ops ++ e.code c.offset ++ [⟨.push .a, none⟩]) := by
  induction e with
  | literal value location =>
      intro type c ops htype hprim hlocals h
      cases htype
      exact ⟨_, rfl, (h.emitLi .a value.toInt).emitPush .a⟩
  | identifier name location =>
      intro type c ops htype hprim hlocals h
      cases htype
      obtain ⟨identifier, hfind, hkind, hint⟩ := hlocals name (by simp [names])
      have hsize : c.ast.sizeOfType .int = 4 := hprim.int_size
      have hstruct : c.ast.structOf .int = none := hprim.structOf (by decide)
      have hoffset : c.offset name = identifier.offset := by simp [GeneratorContext.offset, hfind]
      refine ⟨_, ?_, (h.emitMovRMDisp .a .bp 4 (c.offset name)).emitPush .a⟩
      simp [toAST, generateExpression, generateIdentifier, hfind, hkind, hint, pushValue, AST.depth,
        generatePush, hstruct, hsize, hoffset]
  | binary kind left right location ihl ihr =>
      intro type c ops htype hprim hlocals h
      obtain ⟨ltype, rtype, isFloat, hl, hr, htypes⟩ := typeOf_binary htype
      obtain ⟨lpiece, hleft, hlasm⟩ :=
        ihl hl hprim (fun name hmem => hlocals name (by simp [names, hmem])) h
      obtain ⟨rpiece, hright, hrasm⟩ :=
        ihr (c := c.withPiece lpiece) hr hprim
          (fun name hmem => hlocals name (by simp [names, hmem])) hlasm
      have hbinary := emitBinary_assembles hprim (typeOf_int_or_bool hl) (typeOf_int_or_bool hr)
        htypes hrasm
      refine ⟨emitBinary c.ast kind ltype rtype isFloat rpiece, ?_, ?_⟩
      · simp only [toAST, generateExpression, bind_apply, hleft, hright, generateBinary,
          getContext_apply, htypes]
        rfl
      · simpa [code, List.append_assoc] using hbinary
  | not left location ih =>
      intro type c ops htype hprim hlocals h
      obtain ⟨piece, hleft, hasm⟩ := ih htype hprim hlocals h
      have hpop := hasm.emitPop .a
      rw [Op.popOp_push] at hpop
      have hnot : Assembles (((piece.emitPop .a).emitNot .a .a).emitPush .a) _ :=
        (hpop.emit (.not .a .a)).emitPush .a
      refine ⟨((piece.emitPop .a).emitNot .a .a).emitPush .a, ?_, ?_⟩
      · simp only [toAST, generateExpression, bind_apply, hleft, generateNot, emit,
          modifyContext_apply, pure_apply]
        rfl
      · simpa [code, List.append_assoc] using hnot

theorem code_straight (offset : String → ℤ) (e : IntExpr) : ∀ op ∈ e.code offset, op.Straight := by
  have hmov : ∀ offset, (Op.movRM .a .bp 4 offset).Straight := by
    intro offset
    unfold Op.movRM
    split <;> exact ⟨rfl, by simp [Instruction.Sequential]⟩
  have hkind : ∀ kind, (⟨operatorInst 4 false kind, none⟩ : Op).Straight := by
    intro kind
    cases kind <;> exact ⟨rfl, by simp [Instruction.Sequential, operatorInst]⟩
  have hsimple : ∀ op ∈ [(⟨.push .a, none⟩ : Op), ⟨.pop .d, none⟩, ⟨.pop .a, none⟩,
      ⟨.not .a .a, none⟩], op.Straight := by
    simp only [List.mem_cons, List.not_mem_nil, or_false]
    rintro op (rfl | rfl | rfl | rfl) <;> exact ⟨rfl, by simp [Instruction.Sequential]⟩
  induction e with
  | literal value location =>
      simp only [code, List.mem_singleton, forall_eq]
      exact ⟨rfl, by simp [Instruction.Sequential]⟩
  | identifier name location => simpa [code] using hmov _
  | binary kind left right location ihl ihr =>
      intro op hmem
      simp only [code, List.mem_append, List.mem_cons, List.not_mem_nil, or_false] at hmem
      rcases hmem with h | rfl | h | rfl | rfl | rfl | rfl
      · exact ihl op h
      · exact hsimple _ (by simp)
      · exact ihr op h
      · exact hsimple _ (by simp)
      · exact hsimple _ (by simp)
      · exact hsimple _ (by simp)
      · exact hkind kind
  | not left location ih =>
      intro op hmem
      simp only [code, List.mem_append, List.mem_singleton] at hmem
      rcases hmem with h | rfl
      · exact ih op h
      · exact hsimple _ (by simp)

/-! ## What the code does -/

variable {vm : VirtualMachine} {env : String → BitVec 32} {offset : String → ℤ}

/-- The stack pointer is at `sp`, there is room for the code below it, and the variables
are in the stack above it. -/
structure Frame (vm : VirtualMachine) (env : String → BitVec 32) (offset : String → ℤ)
    (e : IntExpr) (m : Machine) (sp : ℕ) : Prop where
  stackAt : vm.StackAt m sp
  room : vm.stack + 8 * e.need ≤ sp
  locals : ∀ name ∈ e.names, ∃ a, m.registers .bp + BitVec.ofInt 64 (offset name) =
    BitVec.ofNat 64 a ∧ sp ≤ a ∧ a + 4 ≤ vm.stack + vm.stackMax ∧ m.memory.load a 4 = env name

/-- What the code leaves alone: the frame and the memory from an address on. -/
structure Kept (top : ℕ) (m m' : Machine) : Prop where
  sp : m'.registers .sp = m.registers .sp
  bp : m'.registers .bp = m.registers .bp
  memory : ∀ a, top ≤ a → m'.memory a = m.memory a

theorem Kept.trans {top : ℕ} {m m' m'' : Machine} (h : Kept top m m') (h' : Kept top m' m'') :
    Kept top m m'' :=
  ⟨h'.sp.trans h.sp, h'.bp.trans h.bp, fun a ha => (h'.memory a ha).trans (h.memory a ha)⟩

/-- The frame of an operand, after code that keeps the memory and has moved the stack pointer
down. -/
theorem Frame.operand {e : IntExpr} (e' : IntExpr) {m m' : Machine} {sp sp' : ℕ} (h : Frame vm env offset e m sp)
    (hstack : vm.StackAt m' sp') (hbp : m'.registers .bp = m.registers .bp) (hle : sp' ≤ sp)
    (hmemory : ∀ a, sp ≤ a → m'.memory a = m.memory a) (hroom : vm.stack + 8 * e'.need ≤ sp')
    (hnames : ∀ name ∈ e'.names, name ∈ e.names) : Frame vm env offset e' m' sp' := by
  refine ⟨hstack, hroom, fun name hmem => ?_⟩
  obtain ⟨a, haddr, hlow, hhigh, hload⟩ := h.locals name (hnames name hmem)
  refine ⟨a, hbp ▸ haddr, by omega, hhigh, ?_⟩
  rw [← hload]
  exact ByteMemory.load_congr fun i _ => hmemory _ (by omega)

theorem execute_operator {kind : BinaryKind} {m : Machine} (imm : ℤ)
    (htrap : kind = .div → ¬ VirtualMachine.divisionTraps (m.registers .a) (m.registers .d)) :
    vm.execute m imm (operatorInst 4 false kind) =
      .ok (m.set .a (kind.apply (m.registers .a) (m.registers .d))) := by
  cases kind with
  | div => simp [operatorInst, VirtualMachine.execute, htrap rfl, VirtualMachine.arithmetic,
      BinaryKind.apply]
  | add | sub | mul => simp [operatorInst, VirtualMachine.execute, VirtualMachine.arithmetic,
      BinaryKind.apply]
  | _ => rfl

theorem execute_operator_trap {m : Machine} (imm : ℤ)
    (htrap : VirtualMachine.divisionTraps (m.registers .a) (m.registers .d)) :
    vm.execute m imm (operatorInst 4 false .div) = .error .divisionTrap := by
  simp [operatorInst, VirtualMachine.execute, htrap]

/-- The machine between the two operands of a binary operator: the left one has been pushed. -/
theorem runOps_pushed {e : IntExpr} (right : IntExpr) {m m₁ : Machine} {sp : ℕ} (ops : List Op)
    (hframe : Frame vm env offset e m sp) (hkept : Kept sp m m₁)
    (hroom : vm.stack + 8 * (right.need + 1) ≤ sp) (hnames : ∀ name ∈ right.names, name ∈ e.names) :
    ∃ m₂, vm.runOps (⟨.push .a, none⟩ :: ops) m₁ = vm.runOps ops m₂ ∧
      Frame vm env offset right m₂ (sp - 8) ∧ m₂.registers .bp = m.registers .bp ∧
      m₂.memory.load (sp - 8) 8 = m₁.registers .a ∧ ∀ a, sp ≤ a → m₂.memory a = m.memory a := by
  obtain ⟨m₂, hrun, hstack, hregs, hmemory⟩ := VirtualMachine.runOps_push .a ops
    (hframe.stackAt.of_eq hkept.sp) (by omega) (by decide) (by decide)
  have hbp : m₂.registers .bp = m.registers .bp :=
    (hregs .bp (by decide) (by decide)).trans hkept.bp
  have habove : ∀ a, sp ≤ a → m₂.memory a = m.memory a := by
    intro a ha
    rw [hmemory, ByteMemory.store_apply_of_not_mem (by omega)]
    exact hkept.memory a ha
  refine ⟨m₂, hrun, hframe.operand right hstack hbp (by omega) habove (by omega) hnames, hbp, ?_, habove⟩
  rw [hmemory]
  exact ByteMemory.load_store_word _ _ rfl _

/-- The machine behind the two pops of a binary operator. -/
theorem runOps_operands {m₂ m₃ : Machine} {sp : ℕ} (ops : List Op) (hstack : vm.StackAt m₂ (sp - 8))
    (hkept : Kept (sp - 8) m₂ m₃) (hroom : vm.stack + 16 ≤ sp) (hhigh : sp ≤ vm.stack + vm.stackMax) :
    ∃ m₄, vm.runOps (⟨.push .a, none⟩ :: ⟨.pop .d, none⟩ :: ⟨.pop .a, none⟩ :: ops) m₃ =
        vm.runOps ops m₄ ∧ vm.StackAt m₄ sp ∧ m₄.registers .bp = m₂.registers .bp ∧
      m₄.registers .a = m₂.memory.load (sp - 8) 8 ∧ m₄.registers .d = m₃.registers .a ∧
      ∀ a, sp - 8 ≤ a → m₄.memory a = m₂.memory a := by
  obtain ⟨m₄, hpush, hstack₄, hregs₄, hmemory₄⟩ := VirtualMachine.runOps_push .a
    (⟨.pop .d, none⟩ :: ⟨.pop .a, none⟩ :: ops) (hstack.of_eq hkept.sp) (by omega) (by decide)
    (by decide)
  obtain ⟨m₅, hpopd, hstack₅, hd, hregs₅, hmemory₅⟩ := VirtualMachine.runOps_pop .d
    (⟨.pop .a, none⟩ :: ops) hstack₄ (by omega) (by decide)
  obtain ⟨m₆, hpopa, hstack₆, ha, hregs₆, hmemory₆⟩ := VirtualMachine.runOps_pop .a
    ops hstack₅ (by omega) (by decide)
  have hsp₅ : sp - 8 - 8 + 8 = sp - 8 := by omega
  have hsp₆ : sp - 8 - 8 + 8 + 8 = sp := by omega
  rw [hsp₅] at ha
  rw [hsp₆] at hstack₆
  have habove : ∀ a, sp - 8 ≤ a → m₆.memory a = m₂.memory a := by
    intro a hle
    rw [hmemory₆, hmemory₅, hmemory₄, ByteMemory.store_apply_of_not_mem (by omega)]
    exact hkept.memory a hle
  refine ⟨m₆, by rw [hpush, hpopd, hpopa], hstack₆, ?_, ?_, ?_, habove⟩
  · rw [hregs₆ .bp (by decide) (by decide), hregs₅ .bp (by decide) (by decide),
      hregs₄ .bp (by decide) (by decide), hkept.bp]
  · rw [ha, ← hmemory₆]
    exact ByteMemory.load_congr fun i _ => habove _ (by omega)
  · rw [hregs₆ .d (by decide) (by decide), hd, hmemory₄]
    exact ByteMemory.load_store_word _ _ rfl _

theorem need_pos (e : IntExpr) : 0 < e.need := by
  induction e with
  | literal | identifier => exact Nat.one_pos
  | binary kind left right location ihl ihr => simp only [need]; omega
  | not left location ih => exact ih

/-- The code computes the value of the 64-bit semantics, unless a division traps. -/
theorem runOps_code {e : IntExpr} : ∀ {m : Machine} {sp : ℕ}, Frame vm env offset e m sp →
    (e.NoTrap env → ∃ m', vm.runOps (e.code offset) m = .ok m' ∧ Kept sp m m' ∧
      m'.registers .a = e.wide env) ∧
    (¬ e.NoTrap env → vm.runOps (e.code offset) m = .error .divisionTrap) := by
  induction e with
  | literal value location =>
      intro m sp hframe
      refine ⟨fun _ => ?_, fun h => (h trivial).elim⟩
      obtain ⟨m', hrun, ha, hregs, hmemory⟩ := vm.runOps_set m ⟨.li .a, some value.toInt⟩ .a
        (BitVec.ofInt 64 value.toInt) [] (fun _ => rfl)
      exact ⟨m', hrun, ⟨hregs .sp (by decide) (by decide), hregs .bp (by decide) (by decide),
        fun a _ => by rw [hmemory]⟩, ha⟩
  | identifier name location =>
      intro m sp hframe
      refine ⟨fun _ => ?_, fun h => (h trivial).elim⟩
      obtain ⟨a, haddr, hlow, hhigh, hload⟩ := hframe.locals name (by simp [names])
      have hstack := hframe.stackAt.low
      obtain ⟨m', hrun, ha, hregs, hmemory⟩ := vm.runOps_set m
        (Op.movRM .a .bp 4 (offset name)) .a (m.memory.load a 4) [] (by
          intro pc
          rw [VirtualMachine.execute_movRM]
          exact VirtualMachine.movRM_stack rfl
            ((congrArg (· + _) (Machine.set_registers_of_ne _ _ (by decide))).trans haddr)
            (by omega) hhigh)
      refine ⟨m', hrun, ⟨hregs .sp (by decide) (by decide), hregs .bp (by decide) (by decide),
        fun a _ => by rw [hmemory]⟩, ?_⟩
      rw [ha, ByteMemory.load_eq_setWidth _ _ _ 32 (by decide), hload]
      rfl
  | binary kind left right location ihl ihr =>
      intro m sp hframe
      have hroom := hframe.room
      have hhigh := hframe.stackAt.high
      have hpos := need_pos right
      simp only [need] at hroom
      have hleft := ihl (hframe.operand left hframe.stackAt rfl (Nat.le_refl _)
        (fun _ _ => rfl) (by omega) (fun name hmem => by simp [names, hmem]))
      by_cases hl : left.NoTrap env
      · obtain ⟨m₁, hrun₁, hkept₁, ha₁⟩ := hleft.1 hl
        obtain ⟨m₂, hrun₂, hframe₂, hbp₂, hload₂, habove₂⟩ := runOps_pushed right
          (right.code offset ++ [⟨.push .a, none⟩, ⟨.pop .d, none⟩, ⟨.pop .a, none⟩,
            ⟨operatorInst 4 false kind, none⟩]) hframe hkept₁ (by omega)
          (fun name hmem => by simp [names, hmem])
        have hright := ihr hframe₂
        rw [code, VirtualMachine.runOps_append_of_ok _ hrun₁, hrun₂]
        by_cases hr : right.NoTrap env
        · obtain ⟨m₃, hrun₃, hkept₃, ha₃⟩ := hright.1 hr
          obtain ⟨m₄, hrun₄, hstack₄, hbp₄, ha₄, hd₄, habove₄⟩ := runOps_operands
            [⟨operatorInst 4 false kind, none⟩] hframe₂.stackAt hkept₃ (by omega) hhigh
          rw [VirtualMachine.runOps_append_of_ok _ hrun₃, hrun₄]
          have hx : m₄.registers .a = left.wide env := by rw [ha₄, hload₂, ha₁]
          have hy : m₄.registers .d = right.wide env := by rw [hd₄, ha₃]
          constructor
          · rintro ⟨-, -, htrap⟩
            obtain ⟨m₅, hrun₅, ha₅, hregs₅, hmemory₅⟩ := vm.runOps_set m₄
              ⟨operatorInst 4 false kind, none⟩ .a
              (kind.apply (left.wide env) (right.wide env)) [] (by
                intro pc
                have hexec := @execute_operator vm kind (m₄.set .pc pc) 0
                simp only [Machine.set_registers_of_ne m₄ pc (show Register.a ≠ .pc by decide),
                  Machine.set_registers_of_ne m₄ pc (show Register.d ≠ .pc by decide), hx, hy]
                  at hexec
                exact hexec htrap)
            refine ⟨m₅, hrun₅, ⟨?_, ?_, fun a ha => ?_⟩, ha₅⟩
            · rw [hregs₅ .sp (by decide) (by decide), hstack₄.register, hframe.stackAt.register]
            · rw [hregs₅ .bp (by decide) (by decide), hbp₄, hbp₂]
            · rw [hmemory₅, habove₄ a (by omega), habove₂ a ha]
          · intro htrap
            have hdiv : kind = .div ∧ VirtualMachine.divisionTraps (left.wide env) (right.wide env) := by
              simpa [NoTrap, hl, hr] using htrap
            obtain ⟨rfl, htraps⟩ := hdiv
            rw [VirtualMachine.runOps, execute_operator_trap]
            · rfl
            · rw [Machine.set_registers_of_ne _ _ (by decide),
                Machine.set_registers_of_ne _ _ (by decide), hx, hy]
              exact htraps
        · exact ⟨fun h => (hr h.2.1).elim,
            fun _ => VirtualMachine.runOps_append_of_error _ (hright.2 hr)⟩
      · exact ⟨fun h => (hl h.1).elim,
          fun _ => VirtualMachine.runOps_append_of_error _ (hleft.2 hl)⟩
  | not left location ih =>
      intro m sp hframe
      have hleft := @ih m sp ⟨hframe.stackAt, hframe.room, hframe.locals⟩
      refine ⟨fun hno => ?_, fun hno => VirtualMachine.runOps_append_of_error _ (hleft.2 hno)⟩
      obtain ⟨m₁, hrun₁, hkept₁, ha₁⟩ := hleft.1 hno
      obtain ⟨m₂, hrun₂, ha₂, hregs₂, hmemory₂⟩ := vm.runOps_set m₁ ⟨.not .a .a, none⟩ .a
        (truth (left.wide env = 0)) [] (by
          intro pc
          rw [← ha₁]
          simp only [VirtualMachine.execute, Machine.set_registers_of_ne m₁ pc
            (show Register.a ≠ .pc by decide)]
          rfl)
      refine ⟨m₂, by rw [code, VirtualMachine.runOps_append_of_ok _ hrun₁, hrun₂]; rfl,
        hkept₁.trans ⟨hregs₂ .sp (by decide) (by decide), hregs₂ .bp (by decide) (by decide),
          fun a _ => by rw [hmemory₂]⟩, ha₂⟩

/-! ## Correctness -/

/-- The instructions emitted for the expression, run from any state of the machine with
room for them, push one slot whose low bytes are the value of the expression, and leave the
memory above alone. -/
def Right (c : GeneratorContext) (env : String → BitVec 32) (e : IntExpr) : Prop :=
  let generated := generateExpression e.toAST c
  let piece := generated.2.piece
  ∀ (vm : VirtualMachine) (m : Machine) (sp : ℕ) (post : List Cell),
    vm.At (piece.instructions ++ post) c.piece.getPc m → Frame vm env c.offset e m sp →
    ∃ m', vm.run (piece.indexOfNonImmediates.length - c.piece.indexOfNonImmediates.length) m =
        .ok m' ∧ vm.At (piece.instructions ++ post) piece.getPc m' ∧
      m'.registers .sp = m.registers .sp - 8 ∧ (∀ a, sp ≤ a → m'.memory a = m.memory a) ∧
      m'.memory.load (sp - 8) (width generated.1) =
        (e.value env).setWidth (8 * width generated.1)

/-- The code with its push. -/
theorem runOps_code_push {e : IntExpr} {m : Machine} {sp : ℕ} (hframe : Frame vm env offset e m sp) :
    (e.NoTrap env → ∃ m', vm.runOps (e.code offset ++ [⟨.push .a, none⟩]) m = .ok m' ∧
      m'.registers .sp = m.registers .sp - 8 ∧ (∀ a, sp ≤ a → m'.memory a = m.memory a) ∧
      m'.memory.load (sp - 8) 8 = e.wide env) ∧
    (¬ e.NoTrap env →
      vm.runOps (e.code offset ++ [⟨.push .a, none⟩]) m = .error .divisionTrap) := by
  have hroom := hframe.room
  have hpos := need_pos e
  have hcode := runOps_code hframe
  refine ⟨fun hno => ?_, fun hno => VirtualMachine.runOps_append_of_error _ (hcode.2 hno)⟩
  obtain ⟨m₁, hrun₁, hkept₁, ha₁⟩ := hcode.1 hno
  obtain ⟨m₂, hrun₂, hstack₂, -, hmemory₂⟩ := VirtualMachine.runOps_push .a []
    (hframe.stackAt.of_eq hkept₁.sp) (by omega) (by decide) (by decide)
  have hle : 8 ≤ sp := by omega
  refine ⟨m₂, by rw [VirtualMachine.runOps_append_of_ok _ hrun₁, hrun₂]; rfl, ?_, fun a ha => ?_, ?_⟩
  · rw [hstack₂.register, hframe.stackAt.register]
    exact (VirtualMachine.ofNat_sub hle).symm
  · rw [hmemory₂, ByteMemory.store_apply_of_not_mem (by omega)]
    exact hkept₁.memory a ha
  · rw [hmemory₂, ← ha₁]
    exact ByteMemory.load_store_word _ _ rfl _

theorem code_push_straight (offset : String → ℤ) (e : IntExpr) :
    ∀ op ∈ e.code offset ++ [⟨.push .a, none⟩], op.Straight := by
  intro op hmem
  rcases List.mem_append.mp hmem with h | h
  · exact code_straight offset e op h
  · cases List.mem_singleton.mp h
    exact ⟨rfl, trivial⟩

section Generated

variable {c : GeneratorContext} {e : IntExpr} {type : TypeId} {ops : List Op}

/-- The emitted instructions on the machine. -/
theorem run_generated (htype : e.typeOf = some type) (hprim : c.ast.HasPrimitives)
    (hlocals : c.IntLocals e.names) (hasm : Assembles c.piece ops) {m : Machine} {sp : ℕ}
    {post : List Cell}
    (hat : vm.At ((generateExpression e.toAST c).2.piece.instructions ++ post) c.piece.getPc m)
    (hframe : Frame vm env c.offset e m sp) :
    let generated := generateExpression e.toAST c
    let result := vm.run (generated.2.piece.indexOfNonImmediates.length -
      c.piece.indexOfNonImmediates.length) m
    (e.NoTrap env → ∃ m', result = .ok m' ∧
      vm.At (generated.2.piece.instructions ++ post) generated.2.piece.getPc m' ∧
      m'.registers .sp = m.registers .sp - 8 ∧ (∀ a, sp ≤ a → m'.memory a = m.memory a) ∧
      m'.memory.load (sp - 8) 8 = e.wide env) ∧
    (¬ e.NoTrap env → result = .error .divisionTrap) := by
  obtain ⟨piece, hgenerated, hpiece⟩ := generateExpression_toAST htype hprim hlocals hasm
  let emitted : List Op := e.code c.offset ++ [⟨.push .a, none⟩]
  have hcells : piece.instructions = c.piece.instructions ++ Op.flatten emitted := by
    rw [hpiece.instructions, hasm.instructions, List.append_assoc, Op.flatten_append]
  have hcount : piece.indexOfNonImmediates.length - c.piece.indexOfNonImmediates.length =
      emitted.length := by
    rw [hpiece.positions, hasm.positions]
    simp only [emitted, Op.length_positions, List.length_append]
    omega
  rw [hgenerated] at hat ⊢
  simp only [GeneratorContext.withPiece_piece] at hat ⊢
  rw [hcells] at hat
  obtain ⟨hrun, hend⟩ := VirtualMachine.run_of_runOps (code_push_straight c.offset e) hat
  obtain ⟨hok, herror⟩ := runOps_code_push hframe
  rw [hcount, hrun, hcells, BytecodePiece.getPc, hcells]
  refine ⟨fun hno => ?_, herror⟩
  obtain ⟨m', hrun', hspec⟩ := hok hno
  exact ⟨m', hrun', hend m' hrun', hspec⟩

theorem generateExpression_type (htype : e.typeOf = some type) (hprim : c.ast.HasPrimitives)
    (hlocals : c.IntLocals e.names) (hasm : Assembles c.piece ops) :
    (generateExpression e.toAST c).1 = type := by
  obtain ⟨piece, hgenerated, -⟩ := generateExpression_toAST htype hprim hlocals hasm
  rw [hgenerated]

/-- The low bytes of the slot are those of the 64-bit value. -/
theorem load_low {mem : ByteMemory} {addr : ℕ} {v : BitVec 64} (hload : mem.load addr 8 = v)
    (type : TypeId) : mem.load addr (width type) = v.setWidth (8 * width type) := by
  have hle := width_le type
  rw [← hload]
  apply BitVec.eq_of_getLsbD_eq
  intro j hj
  have hlow : j < 64 := by omega
  rw [BitVec.getLsbD_setWidth, ByteMemory.getLsbD_load, ByteMemory.getLsbD_load]
  simp [hj, hlow]

/-- The code is right about one expression exactly if no division traps and the 64-bit
semantics has the right low bytes; `vm` and `m` show that there is a state to run it from. -/
theorem right_iff (htype : e.typeOf = some type) (hprim : c.ast.HasPrimitives)
    (hlocals : c.IntLocals e.names) (hasm : Assembles c.piece ops) {m : Machine} {sp : ℕ}
    (hframe : Frame vm env c.offset e m sp)
    (hlength : (generateExpression e.toAST c).2.piece.instructions.length < 2 ^ 31) :
    Right c env e ↔ e.NoTrap env ∧ SameLow env e := by
  have htypeOf := generateExpression_type htype hprim hlocals hasm
  constructor
  · intro hright
    let cells := (generateExpression e.toAST c).2.piece.instructions
    let vm' : VirtualMachine := { vm with pieces := [cells] }
    let m' : Machine := { m.set .pc (BitVec.ofNat 64 c.piece.getPc) with pieceIndex := 0 }
    have hpc : m'.registers .pc = BitVec.ofNat 64 c.piece.getPc :=
      Machine.set_registers_self m .pc (BitVec.ofNat 64 c.piece.getPc)
    have hat : vm'.At (cells ++ []) c.piece.getPc m' := by
      refine ⟨?_, hpc, by simpa using hlength⟩
      rw [List.append_nil]
      rfl
    have hregs : ∀ reg, reg ≠ .pc → m'.registers reg = m.registers reg := fun _ hne =>
      Machine.set_registers_of_ne m (BitVec.ofNat 64 c.piece.getPc) hne
    have hsp : m'.registers .sp = m.registers .sp := hregs .sp (by decide)
    have hbp : m'.registers .bp = m.registers .bp := hregs .bp (by decide)
    have hframe' : Frame vm' env c.offset e m' sp :=
      ⟨⟨hsp.trans hframe.stackAt.register, hframe.stackAt.low, hframe.stackAt.high⟩, hframe.room,
        fun name hmem => hbp ▸ hframe.locals name hmem⟩
    obtain ⟨last, hrun, -, -, -, hvalue⟩ := hright vm' m' sp [] hat hframe'
    obtain ⟨hok, herror⟩ := run_generated htype hprim hlocals hasm hat hframe'
    have hno : e.NoTrap env := by
      by_contra hno
      cases (herror hno).symm.trans hrun
    obtain ⟨last', hrun', -, -, -, hwide⟩ := hok hno
    cases hrun.symm.trans hrun'
    refine ⟨hno, fun other hother => ?_⟩
    cases htype.symm.trans hother
    rw [htypeOf, load_low hwide] at hvalue
    exact hvalue
  · rintro ⟨hno, hsame⟩ vm' m' sp' post hat hframe'
    obtain ⟨last, hrun, hend, hsp, hmemory, hwide⟩ :=
      (run_generated htype hprim hlocals hasm hat hframe').1 hno
    refine ⟨last, hrun, hend, hsp, hmemory, ?_⟩
    rw [load_low hwide, htypeOf]
    exact hsame type htype

theorem names_of_mem_subexpressions {e e' : IntExpr} (hmem : e' ∈ e.subexpressions) :
    ∀ name ∈ e'.names, name ∈ e.names := by
  induction e with
  | literal | identifier => cases List.mem_singleton.mp hmem; exact fun _ h => h
  | binary kind left right location ihl ihr =>
      simp only [subexpressions, List.mem_cons, List.mem_append] at hmem
      rcases hmem with rfl | h | h
      · exact fun _ h => h
      · exact fun name hname => List.mem_append_left _ (ihl h name hname)
      · exact fun name hname => List.mem_append_right _ (ihr h name hname)
  | not left location ih =>
      rcases List.mem_cons.mp hmem with rfl | h
      · exact fun _ h => h
      · exact ih h

theorem need_of_mem_subexpressions {e e' : IntExpr} (hmem : e' ∈ e.subexpressions) :
    e'.need ≤ e.need := by
  induction e with
  | literal | identifier => cases List.mem_singleton.mp hmem; exact Nat.le_refl _
  | binary kind left right location ihl ihr =>
      simp only [subexpressions, List.mem_cons, List.mem_append] at hmem
      rcases hmem with rfl | h | h
      · exact Nat.le_refl _
      · have := ihl h
        simp only [need]
        omega
      · have := ihr h
        simp only [need]
        omega
  | not left location ih =>
      rcases List.mem_cons.mp hmem with rfl | h
      · exact Nat.le_refl _
      · exact ih h

theorem length_of_mem_subexpressions (offset : String → ℤ) {e e' : IntExpr}
    (hmem : e' ∈ e.subexpressions) :
    (Op.flatten (e'.code offset)).length ≤ (Op.flatten (e.code offset)).length := by
  induction e with
  | literal | identifier => cases List.mem_singleton.mp hmem; exact Nat.le_refl _
  | binary kind left right location ihl ihr =>
      simp only [subexpressions, List.mem_cons, List.mem_append] at hmem
      rcases hmem with rfl | h | h
      · exact Nat.le_refl _
      · have := ihl h
        simp only [code, Op.flatten_append, Op.flatten_cons, List.length_append]
        omega
      · have := ihr h
        simp only [code, Op.flatten_append, Op.flatten_cons, List.length_append]
        omega
  | not left location ih =>
      rcases List.mem_cons.mp hmem with rfl | h
      · exact Nat.le_refl _
      · have := ih h
        simp only [code, Op.flatten_append, List.length_append]
        omega

theorem typeOf_of_mem_subexpressions {e e' : IntExpr} (hmem : e' ∈ e.subexpressions) :
    ∀ {type}, e.typeOf = some type → ∃ type', e'.typeOf = some type' := by
  induction e with
  | literal | identifier => cases List.mem_singleton.mp hmem; exact fun h => ⟨_, h⟩
  | binary kind left right location ihl ihr =>
      intro type htype
      obtain ⟨ltype, rtype, isFloat, hl, hr, -⟩ := typeOf_binary htype
      simp only [subexpressions, List.mem_cons, List.mem_append] at hmem
      rcases hmem with rfl | h | h
      · exact ⟨_, htype⟩
      · exact ihl h hl
      · exact ihr h hr
  | not left location ih =>
      intro type htype
      rcases List.mem_cons.mp hmem with rfl | h
      · exact ⟨_, htype⟩
      · exact ih h htype

theorem length_generated (htype : e.typeOf = some type) (hprim : c.ast.HasPrimitives)
    (hlocals : c.IntLocals e.names) (hasm : Assembles c.piece ops) :
    (generateExpression e.toAST c).2.piece.instructions.length =
      c.piece.instructions.length + (Op.flatten (e.code c.offset)).length + 1 := by
  obtain ⟨piece, hgenerated, hpiece⟩ := generateExpression_toAST htype hprim hlocals hasm
  rw [hgenerated, GeneratorContext.withPiece_piece, hpiece.instructions, hasm.instructions]
  simp [Op.cells]
  omega

/-- Of an expression that is accepted, the emitted code is right about every subexpression
if and only if the operators agree about the 64-bit and the 32-bit semantics. -/
theorem generateExpression_integer (htype : e.typeOf = some type) (hprim : c.ast.HasPrimitives)
    (hlocals : c.IntLocals e.names) (hasm : Assembles c.piece ops) {m : Machine} {sp : ℕ}
    (hframe : Frame vm env c.offset e m sp)
    (hlength : (generateExpression e.toAST c).2.piece.instructions.length < 2 ^ 31) :
    (∀ e' ∈ e.subexpressions, Right c env e') ↔ e.Agree env := by
  rw [← agree_iff htype]
  refine forall₂_congr fun e' hmem => ?_
  obtain ⟨type', htype'⟩ := typeOf_of_mem_subexpressions hmem htype
  have hnames := names_of_mem_subexpressions hmem
  have hneed := need_of_mem_subexpressions hmem
  have hlocals' : c.IntLocals e'.names := fun name hname => hlocals name (hnames name hname)
  have hcode := length_of_mem_subexpressions c.offset hmem
  have hroom := hframe.room
  rw [length_generated htype hprim hlocals hasm] at hlength
  refine right_iff htype' hprim hlocals' hasm (hframe.operand e' hframe.stackAt rfl (Nat.le_refl _)
    (fun _ _ => rfl) (by omega) hnames) ?_
  rw [length_generated htype' hprim hlocals' hasm]
  omega

end Generated

/-! ## One variable -/

section Variable

/-- The body of a function with the variable `x`. -/
def contextOfX : GeneratorContext where
  ast := (AST.initial.addVariable .localId "x" globalScope .int (-8)).getD AST.initial

/-- `x < 0` -/
def isNegative : IntExpr := .binary .less (.identifier "x" 0) (.literal 0 1) 0

/-- A machine with one slot on the stack; all bytes of the memory are the same. -/
def machineOfX (byte : BitVec 8) : Machine where
  registers := fun reg =>
    if reg = .sp then 0x10fff8 else if reg = .bp then 0x110000 else 0
  memory := fun _ => byte

theorem contextOfX_hasPrimitives : contextOfX.ast.HasPrimitives := fun _ _ => rfl

theorem contextOfX_intLocals : contextOfX.IntLocals isNegative.names := by
  intro name hmem
  obtain rfl : name = "x" := by simpa [isNegative, names] using hmem
  exact ⟨_, AST.search_of_own rfl, rfl, rfl⟩

theorem frame_machineOfX {byte : BitVec 8} {value : BitVec 32}
    (hload : ByteMemory.load (fun _ => byte) 0x10fff8 4 = value) :
    Frame (.ofPieces []) (fun _ => value) contextOfX.offset isNegative (machineOfX byte)
      0x10fff8 := by
  refine ⟨⟨rfl, by decide, by decide⟩, by decide, fun name hmem => ?_⟩
  obtain rfl : name = "x" := by simpa [isNegative, names] using hmem
  have haddr : (0x110000 : BitVec 64) + BitVec.ofInt 64 (contextOfX.offset "x") = 0x10fff8 := by
    decide
  exact ⟨0x10fff8, haddr, by decide, by decide, hload⟩

/-- With `x = -1` the comparison `x < 0` is compiled wrongly. -/
theorem not_right_isNegative :
    isNegative.typeOf = some .bool ∧ contextOfX.ast.HasPrimitives ∧
      contextOfX.IntLocals isNegative.names ∧ ¬ Right contextOfX (fun _ => -1) isNegative := by
  refine ⟨by decide, contextOfX_hasPrimitives, contextOfX_intLocals, ?_⟩
  have hframe := @frame_machineOfX 0xff (-1) (by decide)
  have htype : isNegative.typeOf = some .bool := by decide
  rw [right_iff htype contextOfX_hasPrimitives contextOfX_intLocals
    assembles_empty hframe (by decide)]
  rintro ⟨-, hsame⟩
  exact absurd (hsame .bool (by decide)) (by decide +kernel)

theorem generateExpression_integer_isNegative : Right contextOfX (fun _ => 0) isNegative := by
  have hframe := @frame_machineOfX 0 0 (by decide)
  have htype : isNegative.typeOf = some .bool := by decide
  refine (generateExpression_integer htype contextOfX_hasPrimitives
    contextOfX_intLocals assembles_empty hframe (by decide)).mpr ?_ isNegative
      (mem_subexpressions_self _)
  refine ⟨trivial, trivial, by decide, fun _ type htype => ?_⟩
  cases htype
  decide +kernel

end Variable

end IntExpr

end TinCompiler
