import TinCompiler.Expressions.IntegerCode
import TinCompiler.Expressions.Numbers

/-!
# The code of expressions of `int` and `float`

`code` is what `generateExpression` emits before the final push; it leaves the value of the
semantics on registers in `a` (`runOps_code`).  So the code is right about an expression and
everything it is built from exactly if the integer instructions give what the operators by the
types give, wherever they are taken for anything but `+`, `-` and `*` on integers
(`generateExpression_number`).
-/

namespace TinCompiler

open GeneratorM

/-- Where a variable is. -/
inductive VariablePlace where
  | stack (offset : ℤ)
  | data (offset : ℤ)

namespace VariablePlace

/-- The load into `a`. -/
def ops : VariablePlace → List Op
  | stack offset => [Op.movRM .a .bp 4 offset]
  | data offset => [⟨.dataptr .b, some offset⟩, Op.movRM .a .b 4 0]

def address (vm : VirtualMachine) (m : Machine) : VariablePlace → BitVec 64
  | stack offset => m.registers .bp + BitVec.ofInt 64 offset
  | data offset => BitVec.ofNat 64 vm.globalData + BitVec.ofInt 64 offset

end VariablePlace

namespace GeneratorContext

def variablePlace (c : GeneratorContext) (name : String) : VariablePlace :=
  match c.ast.findVariable name c.currentScopeId with
  | some identifier =>
      if identifier.kind = .globalId then .data identifier.offset else .stack identifier.offset
  | none => .stack 0

def variableType (c : GeneratorContext) (name : String) : TypeId :=
  ((c.ast.findVariable name c.currentScopeId).map Identifier.type).getD .void

@[simp] theorem withPiece_variablePlace (c : GeneratorContext) (piece : BytecodePiece) :
    (c.withPiece piece).variablePlace = c.variablePlace := rfl

@[simp] theorem withPiece_variableType (c : GeneratorContext) (piece : BytecodePiece) :
    (c.withPiece piece).variableType = c.variableType := rfl

/-- The names are those of variables of type `int` or `float`. -/
def NumberVariables (c : GeneratorContext) (names : List String) : Prop :=
  ∀ name ∈ names, ∃ identifier, c.ast.findVariable name c.currentScopeId = some identifier ∧
    (identifier.kind = .localId ∨ identifier.kind = .globalId) ∧
    (identifier.type = .int ∨ identifier.type = .float)

end GeneratorContext

namespace NumberExpr

/-- The conversion of an operand of the float instruction. -/
def castOps (op : NumberOp) (ltype rtype type : TypeId) (reg : Register) : List Op :=
  if Mixed op ltype rtype ∧ type = .int then [⟨.cast reg .intFloat, none⟩] else []

/-- The operands are taken from the stack. -/
def operandOps (op : NumberOp) (ltype rtype : TypeId) : List Op :=
  [⟨.push .a, none⟩, ⟨.pop .d, none⟩] ++ castOps op ltype rtype rtype .d ++
    [⟨.pop .a, none⟩] ++ castOps op ltype rtype ltype .a

def operatorOp (op : NumberOp) (ltype rtype : TypeId) : Op :=
  ⟨operatorInst 4 (decide (Mixed op ltype rtype)) op.kind, none⟩

/-- The operations up to the push of the result. -/
def code (place : String → VariablePlace) (types : String → TypeId) : NumberExpr → List Op
  | literalInt value _ => [⟨.li .a, some value.toInt⟩]
  | literalFloat bits _ => [⟨.li .a, some bits.toInt⟩]
  | identifier name _ => (place name).ops
  | binary op left right _ =>
      left.code place types ++ ⟨.push .a, none⟩ :: (right.code place types ++
        (operandOps op (left.resultType types) (right.resultType types) ++
          [operatorOp op (left.resultType types) (right.resultType types)]))

/-! ## What is emitted -/

theorem emitBinary_assembles {ast : AST} (hprim : ast.HasPrimitives) {op : NumberOp}
    {ltype rtype type : TypeId} {isFloat : Bool} (haccepts : Accepts op ltype rtype type isFloat)
    {piece : BytecodePiece} {ops : List Op} (h : Assembles piece (ops ++ [⟨.push .a, none⟩])) :
    Assembles (emitBinary ast op.kind ltype rtype isFloat piece)
      (ops ++ operandOps op ltype rtype ++ [operatorOp op ltype rtype, ⟨.push .a, none⟩]) := by
  have hd := h.emitPop .d
  rw [Op.popOp_of_ne (by decide)] at hd
  have hpop {piece : BytecodePiece} {ops : List Op} {op : Op} (hne : op.inst ≠ .push .a)
      (h : Assembles piece (ops ++ [op])) :
      Assembles (piece.emitPop .a) (ops ++ [op] ++ [⟨.pop .a, none⟩]) := by
    have ha := h.emitPop .a
    rw [Op.popOp_of_ne hne] at ha
    simpa using ha
  have hd' : Assembles (piece.emitPop .d) ((ops ++ [⟨.push .a, none⟩]) ++ [⟨.pop .d, none⟩]) := by
    simpa using hd
  by_cases hmixed : Mixed op ltype rtype
  · have hfloat : isFloat = true := by rw [haccepts.isFloat, decide_eq_true hmixed]
    have hinst (size : ℕ) : operatorInst size true op.kind = operatorInst 4 true op.kind := by
      rcases op with (_ | _ | _ | _) | op
      iterate 4 rfl
      exact absurd hmixed.1 (by cases op <;> decide)
    subst hfloat
    rcases (haccepts.mixed hmixed).2 with ⟨rfl, rfl⟩ | ⟨rfl, rfl⟩
    · have ha := (hpop (by decide) hd').emit (.cast .a .intFloat)
      have hresult := (ha.emit (operatorInst 4 true op.kind)).emitPush .a
      simpa [emitBinary, emitOperator_eq, hinst, operandOps, operatorOp, castOps, hmixed,
        BytecodePiece.emitCast, List.append_assoc] using hresult
    · have hcast := hd'.emit (.cast .d .intFloat)
      have ha := hpop (by decide) hcast
      have hresult := (ha.emit (operatorInst 4 true op.kind)).emitPush .a
      simpa [emitBinary, emitOperator_eq, hinst, operandOps, operatorOp, castOps, hmixed,
        BytecodePiece.emitCast, List.append_assoc] using hresult
  · have hfloat : isFloat = false := by rw [haccepts.isFloat, decide_eq_false hmixed]
    subst hfloat
    have hsize : ltype = .int ∨ ltype = .float → (ast.getType ltype).size = 4 := by
      rintro (rfl | rfl)
      · exact hprim.int_size
      · have hfloat := sizeOfType_float hprim
        rwa [AST.sizeOfType, if_neg (by decide)] at hfloat
    have hinst : operatorInst (ast.getType ltype).size false op.kind =
        operatorInst 4 false op.kind := by
      cases op with
      | arithmetic op => cases op <;> rfl
      | compare op => rw [hsize (haccepts.compare (by cases op <;> rfl)).2]
    have hresult := ((hpop (by decide) hd').emit (operatorInst 4 false op.kind)).emitPush .a
    simpa [emitBinary, emitOperator_eq, hinst, operandOps, operatorOp, castOps, hmixed,
      List.append_assoc] using hresult

theorem isNumber_variableType {c : GeneratorContext} {names : List String}
    (h : c.NumberVariables names) : ∀ name ∈ names, IsNumber (c.variableType name) := by
  intro name hmem
  obtain ⟨identifier, hfind, -, htype⟩ := h name hmem
  rw [GeneratorContext.variableType, hfind]
  rcases htype with h | h
  · exact .inl h
  · exact .inr (.inl h)

theorem generateIdentifier_assembles {c : GeneratorContext} {ops : List Op} (name : String)
    (location : SourceLocation) (hprim : c.ast.HasPrimitives) (hvariable : c.NumberVariables [name])
    (h : Assembles c.piece ops) :
    ∃ piece, generateIdentifier name location c = (c.variableType name, c.withPiece piece) ∧
      Assembles piece (ops ++ (c.variablePlace name).ops ++ [⟨.push .a, none⟩]) := by
  obtain ⟨identifier, hfind, hkind, htype⟩ := hvariable name (List.mem_singleton_self name)
  have hsize : c.ast.sizeOfType identifier.type = 4 := by
    rcases htype with h | h <;> rw [h]
    · exact sizeOfType_int hprim
    · exact sizeOfType_float hprim
  have hstruct : c.ast.structOf identifier.type = none := by
    rcases htype with h | h <;> rw [h] <;> exact hprim.structOf (by decide)
  rcases hkind with hkind | hkind
  · have hplace : c.variablePlace name = .stack identifier.offset := by
      simp [GeneratorContext.variablePlace, hfind, hkind]
    rw [hplace]
    refine ⟨_, ?_, (h.emitMovRMDisp .a .bp 4 identifier.offset).emitPush .a⟩
    simp [generateIdentifier, hfind, hkind, pushValue, AST.depth, generatePush, hstruct, hsize,
      GeneratorContext.variableType]
  · have hplace : c.variablePlace name = .data identifier.offset := by
      simp [GeneratorContext.variablePlace, hfind, hkind]
    rw [hplace, VariablePlace.ops, List.append_cons ops]
    refine ⟨_, ?_, ((h.emitDataptr .b identifier.offset).emitMovRMDisp .a .b 4 0).emitPush .a⟩
    simp [generateIdentifier, hfind, hkind, pushValue, AST.depth, generatePush, hstruct, hsize,
      GeneratorContext.variableType, emit]

theorem generateExpression_toAST {e : NumberExpr} : ∀ {type : TypeId} {c : GeneratorContext}
    {ops : List Op}, e.typeOf c.variableType = some type → c.ast.HasPrimitives →
    c.NumberVariables e.names → Assembles c.piece ops →
    ∃ piece, generateExpression e.toAST c = (type, c.withPiece piece) ∧
      Assembles piece (ops ++ e.code c.variablePlace c.variableType ++ [⟨.push .a, none⟩]) := by
  induction e with
  | literalInt value location =>
      intro type c ops htype hprim hvariables h
      cases htype
      exact ⟨_, rfl, (h.emitLi .a value.toInt).emitPush .a⟩
  | literalFloat bits location =>
      intro type c ops htype hprim hvariables h
      cases htype
      exact ⟨_, rfl, (h.emitLi .a bits.toInt).emitPush .a⟩
  | identifier name location =>
      intro type c ops htype hprim hvariables h
      cases htype
      exact generateIdentifier_assembles name location hprim hvariables h
  | binary op left right location ihl ihr =>
      intro type c ops htype hprim hvariables h
      obtain ⟨ltype, rtype, isFloat, hl, hr, htypes⟩ := typeOf_binary htype
      have hlvariables : c.NumberVariables left.names := fun name hmem =>
        hvariables name (by simp [names, hmem])
      have hrvariables : c.NumberVariables right.names := fun name hmem =>
        hvariables name (by simp [names, hmem])
      obtain ⟨lpiece, hleft, hlasm⟩ := ihl hl hprim hlvariables h
      obtain ⟨rpiece, hright, hrasm⟩ :=
        ihr (c := c.withPiece lpiece) hr hprim hrvariables hlasm
      obtain ⟨rfl, hlnumber⟩ := typeOf_eq (isNumber_variableType hlvariables) hl
      obtain ⟨rfl, hrnumber⟩ := typeOf_eq (isNumber_variableType hrvariables) hr
      have hbinary := emitBinary_assembles hprim (accepts hlnumber hrnumber htypes) hrasm
      refine ⟨emitBinary c.ast op.kind (left.resultType c.variableType)
        (right.resultType c.variableType) isFloat rpiece, ?_, ?_⟩
      · simp only [toAST, generateExpression, bind_apply, hleft, hright, generateBinary,
          getContext_apply, htypes]
        rfl
      · simpa [code, List.append_assoc] using hbinary

/-! ## What the code does -/

variable {vm : VirtualMachine} {env : String → BitVec 32} {place : String → VariablePlace}
  {types : String → TypeId}

/-- The machine can access the four bytes in the stack or in the global data. -/
def Static (vm : VirtualMachine) (ptr : BitVec 64) : Prop :=
  VirtualMachine.inRange vm.stack vm.stackMax ptr 4 ∨
    VirtualMachine.inRange vm.globalData vm.globalDataMax ptr 4

theorem Static.canAccessMemory {ptr : BitVec 64} (h : Static vm ptr) (m : Machine) :
    vm.canAccessMemory m ptr 4 = true := by
  unfold VirtualMachine.canAccessMemory
  rcases h with h | h <;> simp [h]

/-- The stack pointer is at `sp`, there is room for the code below it, and the variables are in
memory that the code does not use for values. -/
structure Frame (vm : VirtualMachine) (env : String → BitVec 32) (place : String → VariablePlace)
    (e : NumberExpr) (m : Machine) (sp : ℕ) : Prop where
  stackAt : vm.StackAt m sp
  room : vm.stack + 8 * e.need ≤ sp
  places : ∀ name ∈ e.names, ∃ a, (place name).address vm m = BitVec.ofNat 64 a ∧ a < 2 ^ 64 ∧
    Static vm (BitVec.ofNat 64 a) ∧ (a + 4 ≤ vm.stack ∨ sp ≤ a) ∧ m.memory.load a 4 = env name

/-- What the code leaves alone: the frame and the memory outside the part of the stack below an
address. -/
structure Kept (vm : VirtualMachine) (top : ℕ) (m m' : Machine) : Prop where
  sp : m'.registers .sp = m.registers .sp
  bp : m'.registers .bp = m.registers .bp
  memory : ∀ a, a < vm.stack ∨ top ≤ a → m'.memory a = m.memory a

theorem Frame.operand {e : NumberExpr} (e' : NumberExpr) {m m' : Machine} {sp sp' : ℕ}
    (h : Frame vm env place e m sp) (hstack : vm.StackAt m' sp')
    (hbp : m'.registers .bp = m.registers .bp) (hle : sp' ≤ sp)
    (hmemory : ∀ a, a < vm.stack ∨ sp ≤ a → m'.memory a = m.memory a)
    (hroom : vm.stack + 8 * e'.need ≤ sp') (hnames : ∀ name ∈ e'.names, name ∈ e.names) :
    Frame vm env place e' m' sp' := by
  refine ⟨hstack, hroom, fun name hmem => ?_⟩
  obtain ⟨a, haddr, hlt, hstatic, hwhere, hload⟩ := h.places name (hnames name hmem)
  refine ⟨a, ?_, hlt, hstatic, by omega, ?_⟩
  · rw [← haddr]
    cases place name with
    | stack offset => exact congrArg (· + _) hbp
    | data offset => rfl
  · rw [← hload]
    exact ByteMemory.load_congr fun i _ => hmemory _ (by omega)

/-- The load of a variable. -/
theorem runOps_variable {m : Machine} {sp a : ℕ} {name : String} (hlt : a < 2 ^ 64)
    (haddr : (place name).address vm m = BitVec.ofNat 64 a) (hstatic : Static vm (BitVec.ofNat 64 a))
    (hload : m.memory.load a 4 = env name) :
    ∃ m', vm.runOps (place name).ops m = .ok m' ∧ Kept vm sp m m' ∧
      m'.registers .a = (env name).setWidth 64 := by
  have hnat : (BitVec.ofNat 64 a).toNat = a := by
    rw [BitVec.toNat_ofNat, Nat.mod_eq_of_lt hlt]
  have hmov {m : Machine} {reg : Register} {offset : ℤ} (hpc : reg ≠ .pc)
      (haddr : m.registers reg + BitVec.ofInt 64 offset = BitVec.ofNat 64 a) (pc : BitVec 64) :
      vm.execute (m.set .pc pc) ((Op.movRM .a reg 4 offset).imm.getD 0)
        (Op.movRM .a reg 4 offset).inst = .ok ((m.set .pc pc).set .a (m.memory.load a 4)) := by
    rw [VirtualMachine.execute_movRM]
    have hptr : (m.set .pc pc).registers reg + BitVec.ofInt 64 offset = BitVec.ofNat 64 a := by
      rw [Machine.set_registers_of_ne _ _ hpc, haddr]
    have haccess := hstatic.canAccessMemory (m.set .pc pc)
    simp [VirtualMachine.movRM, hptr, haccess, VirtualMachine.movable, hnat]
  have hvalue : (m.memory.load a 4 : BitVec 64) = (env name).setWidth 64 := by
    rw [ByteMemory.load_eq_setWidth _ _ _ 32 (by decide), hload]
  cases hplace : place name with
  | stack offset =>
      rw [hplace] at haddr
      obtain ⟨m', hrun, ha, hregs, hmemory⟩ :=
        vm.runOps_set m (Op.movRM .a .bp 4 offset) .a (m.memory.load a 4) []
          (hmov (by decide) haddr)
      exact ⟨m', hrun, ⟨hregs .sp (by decide) (by decide), hregs .bp (by decide) (by decide),
        fun _ _ => by rw [hmemory]⟩, ha.trans hvalue⟩
  | data offset =>
      rw [hplace] at haddr
      obtain ⟨m₁, hptr, hb, hregs₁, hmemory₁⟩ := vm.runOps_set m ⟨.dataptr .b, some offset⟩ .b
        (BitVec.ofNat 64 vm.globalData + BitVec.ofInt 64 offset) [Op.movRM .a .b 4 0] fun _ => rfl
      have haddr₁ : m₁.registers .b + BitVec.ofInt 64 0 = BitVec.ofNat 64 a := by
        have haddr : BitVec.ofNat 64 vm.globalData + BitVec.ofInt 64 offset = BitVec.ofNat 64 a := haddr
        rw [hb, haddr]
        exact BitVec.add_zero _
      obtain ⟨m', hrun, ha, hregs, hmemory⟩ :=
        vm.runOps_set m₁ (Op.movRM .a .b 4 0) .a (m₁.memory.load a 4) [] (hmov (by decide) haddr₁)
      refine ⟨m', hptr.trans hrun, ⟨?_, ?_, fun _ _ => by rw [hmemory, hmemory₁]⟩, ?_⟩
      · rw [hregs .sp (by decide) (by decide), hregs₁ .sp (by decide) (by decide)]
      · rw [hregs .bp (by decide) (by decide), hregs₁ .bp (by decide) (by decide)]
      · rw [ha, hmemory₁, hvalue]

/-- The left operand has been pushed. -/
theorem runOps_pushed {e : NumberExpr} (right : NumberExpr) {m m₁ : Machine} {sp : ℕ} (ops : List Op)
    (hframe : Frame vm env place e m sp) (hkept : Kept vm sp m m₁)
    (hroom : vm.stack + 8 * (right.need + 1) ≤ sp) (hnames : ∀ name ∈ right.names, name ∈ e.names) :
    ∃ m₂, vm.runOps (⟨.push .a, none⟩ :: ops) m₁ = vm.runOps ops m₂ ∧
      Frame vm env place right m₂ (sp - 8) ∧ m₂.registers .bp = m.registers .bp ∧
      m₂.memory.load (sp - 8) 8 = m₁.registers .a ∧
      ∀ a, a < vm.stack ∨ sp ≤ a → m₂.memory a = m.memory a := by
  obtain ⟨m₂, hrun, hstack, hregs, hmemory⟩ := VirtualMachine.runOps_push .a ops
    (hframe.stackAt.of_eq hkept.sp) (by omega) (by decide) (by decide)
  have hbp : m₂.registers .bp = m.registers .bp :=
    (hregs .bp (by decide) (by decide)).trans hkept.bp
  have houtside : ∀ a, a < vm.stack ∨ sp ≤ a → m₂.memory a = m.memory a := by
    intro a ha
    rw [hmemory, ByteMemory.store_apply_of_not_mem (by omega)]
    exact hkept.memory a ha
  refine ⟨m₂, hrun, hframe.operand right hstack hbp (by omega) houtside (by omega) hnames, hbp, ?_,
    houtside⟩
  rw [hmemory]
  exact ByteMemory.load_store_word _ _ rfl _

/-- The conversion of an operand, if there is one. -/
theorem runOps_castOps (vm : VirtualMachine) (op : NumberOp) (ltype rtype type : TypeId)
    (reg : Register) (hpc : reg ≠ .pc) (m : Machine) (ops : List Op) :
    ∃ m', vm.runOps (castOps op ltype rtype type reg ++ ops) m = vm.runOps ops m' ∧
      m'.registers reg = (if Mixed op ltype rtype then toFloatWide vm.host type (m.registers reg)
        else m.registers reg) ∧
      VirtualMachine.SameExcept [reg] m m' ∧ m'.memory = m.memory := by
  unfold castOps toFloatWide
  by_cases hmixed : Mixed op ltype rtype
  · by_cases htype : type = .int
    · rw [if_pos ⟨hmixed, htype⟩, if_pos hmixed, if_pos htype]
      exact vm.runOps_set m ⟨.cast reg .intFloat, none⟩ reg
        (castValue vm.host .intFloat (m.registers reg)) ops fun pc => by
          have hreg : (m.set .pc pc).registers reg = m.registers reg :=
            Machine.set_registers_of_ne _ _ hpc
          simp only [VirtualMachine.execute, castValue, hreg]
    · rw [if_neg fun h => htype h.2, if_pos hmixed, if_neg htype]
      exact ⟨m, rfl, rfl, fun _ _ _ => rfl, rfl⟩
  · rw [if_neg fun h => hmixed h.1, if_neg hmixed]
    exact ⟨m, rfl, rfl, fun _ _ _ => rfl, rfl⟩

/-- The machine in front of the operator. -/
theorem runOps_operandOps (op : NumberOp) (ltype rtype : TypeId) {m₂ m₃ : Machine} {sp : ℕ}
    (ops : List Op) (hstack : vm.StackAt m₂ (sp - 8)) (hkept : Kept vm (sp - 8) m₂ m₃)
    (hroom : vm.stack + 16 ≤ sp) (hhigh : sp ≤ vm.stack + vm.stackMax) :
    ∃ m', vm.runOps (operandOps op ltype rtype ++ ops) m₃ = vm.runOps ops m' ∧ vm.StackAt m' sp ∧
      m'.registers .bp = m₂.registers .bp ∧
      m'.registers .a = (if Mixed op ltype rtype then
          toFloatWide vm.host ltype (m₂.memory.load (sp - 8) 8)
        else m₂.memory.load (sp - 8) 8) ∧
      m'.registers .d = (if Mixed op ltype rtype then toFloatWide vm.host rtype (m₃.registers .a)
        else m₃.registers .a) ∧
      ∀ a, a < vm.stack ∨ sp - 8 ≤ a → m'.memory a = m₂.memory a := by
  have hops : operandOps op ltype rtype ++ ops = ⟨.push .a, none⟩ :: ⟨.pop .d, none⟩ ::
      (castOps op ltype rtype rtype .d ++ (⟨.pop .a, none⟩ ::
        (castOps op ltype rtype ltype .a ++ ops))) := by
    simp [operandOps, List.append_assoc]
  obtain ⟨m₄, hpush, hstack₄, hregs₄, hmemory₄⟩ := VirtualMachine.runOps_push .a
    (⟨.pop .d, none⟩ :: (castOps op ltype rtype rtype .d ++ (⟨.pop .a, none⟩ ::
      (castOps op ltype rtype ltype .a ++ ops)))) (hstack.of_eq hkept.sp) (by omega) (by decide)
    (by decide)
  obtain ⟨m₅, hpopd, hstack₅, hd₅, hregs₅, hmemory₅⟩ := VirtualMachine.runOps_pop .d
    (castOps op ltype rtype rtype .d ++ (⟨.pop .a, none⟩ ::
      (castOps op ltype rtype ltype .a ++ ops))) hstack₄ (by omega) (by decide)
  obtain ⟨m₆, hcastd, hd₆, hregs₆, hmemory₆⟩ := runOps_castOps vm op ltype rtype rtype
    .d (by decide) m₅ (⟨.pop .a, none⟩ :: (castOps op ltype rtype ltype .a ++ ops))
  have hstack₆ := hstack₅.of_eq (hregs₆ .sp (by decide) (by decide))
  obtain ⟨m₇, hpopa, hstack₇, ha₇, hregs₇, hmemory₇⟩ := VirtualMachine.runOps_pop .a
    (castOps op ltype rtype ltype .a ++ ops) hstack₆ (by omega) (by decide)
  obtain ⟨m', hcasta, ha', hregs', hmemory'⟩ := runOps_castOps vm op ltype rtype ltype
    .a (by decide) m₇ ops
  have hsp₆ : sp - 8 - 8 + 8 = sp - 8 := by omega
  have hsp₇ : sp - 8 - 8 + 8 + 8 = sp := by omega
  rw [hsp₆] at ha₇
  rw [hsp₇] at hstack₇
  have houtside : ∀ a, a < vm.stack ∨ sp - 8 ≤ a → m'.memory a = m₂.memory a := by
    intro a ha
    rw [hmemory', hmemory₇, hmemory₆, hmemory₅, hmemory₄,
      ByteMemory.store_apply_of_not_mem (by omega)]
    exact hkept.memory a ha
  have hleft : m₇.registers .a = m₂.memory.load (sp - 8) 8 := by
    rw [ha₇, ← hmemory₇, ← hmemory']
    exact ByteMemory.load_congr fun i _ => houtside _ (by omega)
  have hright : m₅.registers .d = m₃.registers .a := by
    rw [hd₅, hmemory₄]
    exact ByteMemory.load_store_word _ _ rfl _
  refine ⟨m', by rw [hops, hpush, hpopd, hcastd, hpopa, hcasta],
    hstack₇.of_eq (hregs' .sp (by decide) (by decide)), ?_, by rw [ha', hleft], ?_, houtside⟩
  · rw [hregs' .bp (by decide) (by decide), hregs₇ .bp (by decide) (by decide),
      hregs₆ .bp (by decide) (by decide), hregs₅ .bp (by decide) (by decide),
      hregs₄ .bp (by decide) (by decide), hkept.bp]
  · rw [hregs' .d (by decide) (by decide), hregs₇ .d (by decide) (by decide), hd₆, hright]

theorem kind_eq_div {op : NumberOp} : op.kind = .div ↔ op = .arithmetic .div := by
  rcases op with (_ | _ | _ | _) | (_ | _ | _ | _ | _ | _) <;> simp [NumberOp.kind]

theorem execute_operatorOp {op : NumberOp} {ltype rtype : TypeId} {m : Machine} {x y : BitVec 64}
    (hx : m.registers .a = x) (hy : m.registers .d = y) (htrap : ¬ Traps op ltype rtype x y) :
    vm.execute m 0 (operatorOp op ltype rtype).inst =
      .ok (m.set .a (if Mixed op ltype rtype then floatWide vm.host op x y else op.kind.apply x y)) := by
  subst hx hy
  unfold operatorOp
  by_cases hmixed : Mixed op ltype rtype
  · rw [if_pos hmixed, decide_eq_true hmixed]
    rcases op with (_ | _ | _ | _) | op
    iterate 4 rfl
    exact absurd hmixed.1 (by cases op <;> decide)
  · rw [if_neg hmixed, decide_eq_false hmixed]
    refine IntExpr.execute_operator 0 fun hdiv htraps => htrap ?_
    obtain rfl := kind_eq_div.mp hdiv
    exact ⟨rfl, not_not.mp fun hne => hmixed ⟨rfl, hne⟩, htraps⟩

theorem execute_operatorOp_trap {op : NumberOp} {ltype rtype : TypeId} {m : Machine}
    (htrap : Traps op ltype rtype (m.registers .a) (m.registers .d)) :
    vm.execute m 0 (operatorOp op ltype rtype).inst = .error .divisionTrap := by
  obtain ⟨rfl, hsame, htraps⟩ := htrap
  have hmixed : ¬ Mixed (.arithmetic .div) ltype rtype := fun h => h.2 hsame
  unfold operatorOp
  rw [decide_eq_false hmixed]
  exact IntExpr.execute_operator_trap 0 htraps

theorem need_pos (e : NumberExpr) : 0 < e.need := by
  induction e with
  | literalInt | literalFloat | identifier => exact Nat.one_pos
  | binary op left right location ihl ihr => simp only [need]; omega

theorem runOps_literal (value : BitVec 32) (m : Machine) (sp : ℕ) :
    ∃ m', vm.runOps [⟨.li .a, some value.toInt⟩] m = .ok m' ∧ Kept vm sp m m' ∧
      m'.registers .a = value.signExtend 64 := by
  obtain ⟨m', hrun, ha, hregs, hmemory⟩ := vm.runOps_set m ⟨.li .a, some value.toInt⟩ .a
    (BitVec.ofInt 64 value.toInt) [] fun _ => rfl
  exact ⟨m', hrun, ⟨hregs .sp (by decide) (by decide), hregs .bp (by decide) (by decide),
    fun a _ => by rw [hmemory]⟩, ha⟩

/-- The operator, behind its operands. -/
theorem runOps_operatorOp {op : NumberOp} {ltype rtype : TypeId} {m : Machine} {x y : BitVec 64}
    (hx : m.registers .a = (if Mixed op ltype rtype then toFloatWide vm.host ltype x else x))
    (hy : m.registers .d = (if Mixed op ltype rtype then toFloatWide vm.host rtype y else y)) :
    (¬ Traps op ltype rtype x y → ∃ m', vm.runOps [operatorOp op ltype rtype] m = .ok m' ∧
      m'.registers .a = applyWide vm.host op ltype rtype x y ∧
      VirtualMachine.SameExcept [.a] m m' ∧ m'.memory = m.memory) ∧
    (Traps op ltype rtype x y →
      vm.runOps [operatorOp op ltype rtype] m = .error .divisionTrap) := by
  have hregs (pc : BitVec 64) {reg : Register} (hne : reg ≠ .pc) :
      (m.set .pc pc).registers reg = m.registers reg := Machine.set_registers_of_ne _ _ hne
  constructor
  · intro htrap
    have htrap' : ¬ Traps op ltype rtype (m.registers .a) (m.registers .d) := by
      rintro ⟨hop, hsame, htraps⟩
      have hmixed : ¬ Mixed op ltype rtype := fun h => h.2 hsame
      rw [hx, hy, if_neg hmixed, if_neg hmixed] at htraps
      exact htrap ⟨hop, hsame, htraps⟩
    have hresult : (if Mixed op ltype rtype then floatWide vm.host op (m.registers .a) (m.registers .d)
        else op.kind.apply (m.registers .a) (m.registers .d)) =
        applyWide vm.host op ltype rtype x y := by
      rw [hx, hy]
      unfold applyWide
      split <;> rfl
    obtain ⟨m', hrun, ha, hsame, hmemory⟩ := vm.runOps_set m (operatorOp op ltype rtype) .a
      (applyWide vm.host op ltype rtype x y) [] fun pc => by
        rw [← hresult]
        exact execute_operatorOp (hregs pc (by decide)) (hregs pc (by decide)) htrap'
    exact ⟨m', hrun, ha, hsame, hmemory⟩
  · rintro ⟨hop, hsame, htraps⟩
    have hmixed : ¬ Mixed op ltype rtype := fun h => h.2 hsame
    rw [if_neg hmixed] at hx hy
    rw [VirtualMachine.runOps]
    have hexec := @execute_operatorOp_trap vm op ltype rtype
      (m.set .pc (m.registers .pc + BitVec.ofNat 64 (operatorOp op ltype rtype).cells.length)) (by
        rw [hregs _ (by decide), hregs _ (by decide), hx, hy]
        exact ⟨hop, hsame, htraps⟩)
    have hzero : (operatorOp op ltype rtype).imm.getD 0 = 0 := rfl
    rw [hzero, hexec]
    rfl

/-- The code computes the value of the semantics on registers, unless a division traps. -/
theorem runOps_code {e : NumberExpr} : ∀ {m : Machine} {sp : ℕ}, Frame vm env place e m sp →
    (e.NoTrap vm.host types env → ∃ m', vm.runOps (e.code place types) m = .ok m' ∧
      Kept vm sp m m' ∧ m'.registers .a = e.wide vm.host types env) ∧
    (¬ e.NoTrap vm.host types env → vm.runOps (e.code place types) m = .error .divisionTrap) := by
  induction e with
  | literalInt value location =>
      exact fun _ => ⟨fun _ => runOps_literal value _ _, fun h => (h trivial).elim⟩
  | literalFloat bits location =>
      exact fun _ => ⟨fun _ => runOps_literal bits _ _, fun h => (h trivial).elim⟩
  | identifier name location =>
      intro m sp hframe
      obtain ⟨a, haddr, hlt, hstatic, -, hload⟩ := hframe.places name (by simp [names])
      exact ⟨fun _ => runOps_variable hlt haddr hstatic hload, fun h => (h trivial).elim⟩
  | binary op left right location ihl ihr =>
      intro m sp hframe
      have hroom := hframe.room
      have hhigh := hframe.stackAt.high
      have hpos := need_pos right
      simp only [need] at hroom
      have hleft := ihl (hframe.operand left hframe.stackAt rfl (Nat.le_refl _)
        (fun _ _ => rfl) (by omega) (fun name hmem => by simp [names, hmem]))
      by_cases hl : left.NoTrap vm.host types env
      · obtain ⟨m₁, hrun₁, hkept₁, ha₁⟩ := hleft.1 hl
        obtain ⟨m₂, hrun₂, hframe₂, hbp₂, hload₂, houtside₂⟩ := runOps_pushed right
          (right.code place types ++ (operandOps op (left.resultType types) (right.resultType types) ++
            [operatorOp op (left.resultType types) (right.resultType types)])) hframe hkept₁
          (by omega) (fun name hmem => by simp [names, hmem])
        have hright := ihr hframe₂
        rw [code, VirtualMachine.runOps_append_of_ok _ hrun₁, hrun₂]
        by_cases hr : right.NoTrap vm.host types env
        · obtain ⟨m₃, hrun₃, hkept₃, ha₃⟩ := hright.1 hr
          obtain ⟨m₄, hrun₄, hstack₄, hbp₄, ha₄, hd₄, houtside₄⟩ := runOps_operandOps op
            (left.resultType types) (right.resultType types)
            [operatorOp op (left.resultType types) (right.resultType types)] hframe₂.stackAt hkept₃
            (by omega) hhigh
          rw [VirtualMachine.runOps_append_of_ok _ hrun₃, hrun₄]
          rw [hload₂, ha₁] at ha₄
          rw [ha₃] at hd₄
          obtain ⟨hok, htraps⟩ := runOps_operatorOp ha₄ hd₄
          constructor
          · rintro ⟨-, -, htrap⟩
            obtain ⟨m₅, hrun₅, ha₅, hregs₅, hmemory₅⟩ := hok htrap
            refine ⟨m₅, hrun₅, ⟨?_, ?_, fun a ha => ?_⟩, ha₅⟩
            · rw [hregs₅ .sp (by decide) (by decide), hstack₄.register, hframe.stackAt.register]
            · rw [hregs₅ .bp (by decide) (by decide), hbp₄, hbp₂]
            · rw [hmemory₅, houtside₄ a (by omega), houtside₂ a ha]
          · intro hno
            exact htraps (not_not.mp fun htrap => hno ⟨hl, hr, htrap⟩)
        · exact ⟨fun h => (hr h.2.1).elim,
            fun _ => VirtualMachine.runOps_append_of_error _ (hright.2 hr)⟩
      · exact ⟨fun h => (hl h.1).elim,
          fun _ => VirtualMachine.runOps_append_of_error _ (hleft.2 hl)⟩

theorem variablePlace_straight (place : VariablePlace) : ∀ op ∈ place.ops, op.Straight := by
  have hmov (reg : Register) (offset : ℤ) : (Op.movRM .a reg 4 offset).Straight := by
    unfold Op.movRM
    split <;> exact ⟨rfl, by simp [Instruction.Sequential]⟩
  cases place with
  | stack offset => simpa [VariablePlace.ops] using hmov .bp offset
  | data offset =>
      have hptr : (⟨.dataptr .b, some offset⟩ : Op).Straight := ⟨rfl, by simp [Instruction.Sequential]⟩
      simpa [VariablePlace.ops] using ⟨hptr, hmov .b 0⟩

theorem castOps_straight (op : NumberOp) (ltype rtype type : TypeId) {reg : Register}
    (hpc : reg ≠ .pc) : ∀ op' ∈ castOps op ltype rtype type reg, op'.Straight := by
  unfold castOps
  split
  · simp only [List.mem_singleton, forall_eq]
    exact ⟨rfl, hpc⟩
  · exact fun op hmem => absurd hmem List.not_mem_nil

theorem operatorOp_straight (op : NumberOp) (ltype rtype : TypeId) :
    (operatorOp op ltype rtype).Straight := by
  rcases op with (_ | _ | _ | _) | (_ | _ | _ | _ | _ | _) <;>
    exact ⟨rfl, by simp [operatorOp, NumberOp.kind, operatorInst, Instruction.Sequential]⟩

theorem code_straight (place : String → VariablePlace) (types : String → TypeId) (e : NumberExpr) :
    ∀ op ∈ e.code place types, op.Straight := by
  have hsimple : ∀ op ∈ [(⟨.push .a, none⟩ : Op), ⟨.pop .d, none⟩, ⟨.pop .a, none⟩], op.Straight := by
    simp only [List.mem_cons, List.not_mem_nil, or_false]
    rintro op (rfl | rfl | rfl) <;> exact ⟨rfl, by simp [Instruction.Sequential]⟩
  induction e with
  | literalInt | literalFloat =>
      simp only [code, List.mem_singleton, forall_eq]
      exact ⟨rfl, by simp [Instruction.Sequential]⟩
  | identifier name location => exact variablePlace_straight (place name)
  | binary op left right location ihl ihr =>
      intro op' hmem
      simp only [code, operandOps, List.mem_append, List.mem_cons, List.not_mem_nil, or_false] at hmem
      rcases hmem with h | rfl | h | ((((rfl | rfl) | h) | rfl) | h) | rfl
      · exact ihl op' h
      · exact hsimple _ (by simp)
      · exact ihr op' h
      · exact hsimple _ (by simp)
      · exact hsimple _ (by simp)
      · exact castOps_straight _ _ _ _ (by decide) op' h
      · exact hsimple _ (by simp)
      · exact castOps_straight _ _ _ _ (by decide) op' h
      · exact operatorOp_straight _ _ _

/-! ## Correctness -/

/-- The instructions emitted for the expression, run from any state of the machine with room for
them, push one slot whose low bytes are the value by the types, and leave the memory above alone;
the type is `float` exactly if an operand of an arithmetic operator is. -/
def Right (c : GeneratorContext) (host : Host) (env : String → BitVec 32) (e : NumberExpr) : Prop :=
  let generated := generateExpression e.toAST c
  let piece := generated.2.piece
  generated.1 = e.resultType c.variableType ∧
  ∀ (vm : VirtualMachine) (m : Machine) (sp : ℕ) (post : List Cell), vm.host = host →
    vm.At (piece.instructions ++ post) c.piece.getPc m → Frame vm env c.variablePlace e m sp →
    ∃ m', vm.run (piece.indexOfNonImmediates.length - c.piece.indexOfNonImmediates.length) m =
        .ok m' ∧ vm.At (piece.instructions ++ post) piece.getPc m' ∧
      m'.registers .sp = m.registers .sp - 8 ∧ (∀ a, sp ≤ a → m'.memory a = m.memory a) ∧
      m'.memory.load (sp - 8) (IntExpr.width generated.1) =
        (e.value host c.variableType env).setWidth (8 * IntExpr.width generated.1)

/-- The code with its push. -/
theorem runOps_code_push {e : NumberExpr} {m : Machine} {sp : ℕ} (hframe : Frame vm env place e m sp) :
    (e.NoTrap vm.host types env → ∃ m',
      vm.runOps (e.code place types ++ [⟨.push .a, none⟩]) m = .ok m' ∧
      m'.registers .sp = m.registers .sp - 8 ∧ (∀ a, sp ≤ a → m'.memory a = m.memory a) ∧
      m'.memory.load (sp - 8) 8 = e.wide vm.host types env) ∧
    (¬ e.NoTrap vm.host types env →
      vm.runOps (e.code place types ++ [⟨.push .a, none⟩]) m = .error .divisionTrap) := by
  have hroom := hframe.room
  have hpos := need_pos e
  have hcode := @runOps_code vm env place types e m sp hframe
  refine ⟨fun hno => ?_, fun hno => VirtualMachine.runOps_append_of_error _ (hcode.2 hno)⟩
  obtain ⟨m₁, hrun₁, hkept₁, ha₁⟩ := hcode.1 hno
  obtain ⟨m₂, hrun₂, hstack₂, -, hmemory₂⟩ := VirtualMachine.runOps_push .a []
    (hframe.stackAt.of_eq hkept₁.sp) (by omega) (by decide) (by decide)
  have hle : 8 ≤ sp := by omega
  refine ⟨m₂, by rw [VirtualMachine.runOps_append_of_ok _ hrun₁, hrun₂]; rfl, ?_, fun a ha => ?_, ?_⟩
  · rw [hstack₂.register, hframe.stackAt.register]
    exact (VirtualMachine.ofNat_sub hle).symm
  · rw [hmemory₂, ByteMemory.store_apply_of_not_mem (by omega)]
    exact hkept₁.memory a (.inr ha)
  · rw [hmemory₂, ← ha₁]
    exact ByteMemory.load_store_word _ _ rfl _

theorem code_push_straight (place : String → VariablePlace) (types : String → TypeId)
    (e : NumberExpr) : ∀ op ∈ e.code place types ++ [⟨.push .a, none⟩], op.Straight := by
  intro op hmem
  rcases List.mem_append.mp hmem with h | h
  · exact code_straight place types e op h
  · cases List.mem_singleton.mp h
    exact ⟨rfl, trivial⟩

section Generated

variable {c : GeneratorContext} {e : NumberExpr} {type : TypeId} {ops : List Op}

/-- The emitted instructions on the machine. -/
theorem run_generated (htype : e.typeOf c.variableType = some type) (hprim : c.ast.HasPrimitives)
    (hvariables : c.NumberVariables e.names) (hasm : Assembles c.piece ops) {m : Machine} {sp : ℕ}
    {post : List Cell}
    (hat : vm.At ((generateExpression e.toAST c).2.piece.instructions ++ post) c.piece.getPc m)
    (hframe : Frame vm env c.variablePlace e m sp) :
    let generated := generateExpression e.toAST c
    let result := vm.run (generated.2.piece.indexOfNonImmediates.length -
      c.piece.indexOfNonImmediates.length) m
    (e.NoTrap vm.host c.variableType env → ∃ m', result = .ok m' ∧
      vm.At (generated.2.piece.instructions ++ post) generated.2.piece.getPc m' ∧
      m'.registers .sp = m.registers .sp - 8 ∧ (∀ a, sp ≤ a → m'.memory a = m.memory a) ∧
      m'.memory.load (sp - 8) 8 = e.wide vm.host c.variableType env) ∧
    (¬ e.NoTrap vm.host c.variableType env → result = .error .divisionTrap) := by
  obtain ⟨piece, hgenerated, hpiece⟩ := generateExpression_toAST htype hprim hvariables hasm
  let emitted : List Op := e.code c.variablePlace c.variableType ++ [⟨.push .a, none⟩]
  have hcells : piece.instructions = c.piece.instructions ++ Op.flatten emitted := by
    rw [hpiece.instructions, hasm.instructions, List.append_assoc, Op.flatten_append]
  have hcount : piece.indexOfNonImmediates.length - c.piece.indexOfNonImmediates.length =
      emitted.length := by
    rw [hpiece.positions, hasm.positions]
    simp only [emitted, Op.length_positions, List.length_append]
    omega
  rw [hgenerated] at hat ⊢
  simp only [GeneratorContext.withPiece_piece] at hat ⊢
  rw [hcells] at hat
  obtain ⟨hrun, hend⟩ :=
    VirtualMachine.run_of_runOps (code_push_straight c.variablePlace c.variableType e) hat
  obtain ⟨hok, herror⟩ := @runOps_code_push vm env c.variablePlace c.variableType e m sp hframe
  rw [hcount, hrun, hcells, BytecodePiece.getPc, hcells]
  refine ⟨fun hno => ?_, herror⟩
  obtain ⟨m', hrun', hspec⟩ := hok hno
  exact ⟨m', hrun', hend m' hrun', hspec⟩

theorem generateExpression_type (htype : e.typeOf c.variableType = some type)
    (hprim : c.ast.HasPrimitives) (hvariables : c.NumberVariables e.names)
    (hasm : Assembles c.piece ops) :
    (generateExpression e.toAST c).1 = e.resultType c.variableType := by
  obtain ⟨piece, hgenerated, -⟩ := generateExpression_toAST htype hprim hvariables hasm
  rw [hgenerated, (typeOf_eq (isNumber_variableType hvariables) htype).1]

/-- The code is right about one expression exactly if no division traps and the semantics on
registers has the right low bytes; `vm` and `m` show that there is a state to run it from. -/
theorem right_iff (htype : e.typeOf c.variableType = some type) (hprim : c.ast.HasPrimitives)
    (hvariables : c.NumberVariables e.names) (hasm : Assembles c.piece ops) {m : Machine} {sp : ℕ}
    (hframe : Frame vm env c.variablePlace e m sp)
    (hlength : (generateExpression e.toAST c).2.piece.instructions.length < 2 ^ 31) :
    Right c vm.host env e ↔
      e.NoTrap vm.host c.variableType env ∧ SameLow vm.host c.variableType env e := by
  have htypeOf := generateExpression_type htype hprim hvariables hasm
  constructor
  · rintro ⟨-, hright⟩
    let cells := (generateExpression e.toAST c).2.piece.instructions
    let vm' : VirtualMachine := { vm with pieces := [cells] }
    let m' : Machine := { m.set .pc (BitVec.ofNat 64 c.piece.getPc) with pieceIndex := 0 }
    have hpc : m'.registers .pc = BitVec.ofNat 64 c.piece.getPc :=
      Machine.set_registers_self m .pc (BitVec.ofNat 64 c.piece.getPc)
    have hat : vm'.At (cells ++ []) c.piece.getPc m' := by
      refine ⟨?_, hpc, by simpa using hlength⟩
      rw [List.append_nil]
      rfl
    have hregs : ∀ reg, reg ≠ .pc → m'.registers reg = m.registers reg := fun _ hne =>
      Machine.set_registers_of_ne m (BitVec.ofNat 64 c.piece.getPc) hne
    have hsp : m'.registers .sp = m.registers .sp := hregs .sp (by decide)
    have hframe' : Frame vm' env c.variablePlace e m' sp := by
      refine ⟨⟨hsp.trans hframe.stackAt.register, hframe.stackAt.low, hframe.stackAt.high⟩,
        hframe.room, fun name hmem => ?_⟩
      obtain ⟨a, haddr, hlt, hstatic, hwhere, hload⟩ := hframe.places name hmem
      refine ⟨a, ?_, hlt, hstatic, hwhere, hload⟩
      rw [← haddr]
      cases c.variablePlace name with
      | stack offset => exact congrArg (· + _) (hregs .bp (by decide))
      | data offset => rfl
    obtain ⟨last, hrun, -, -, -, hvalue⟩ := hright vm' m' sp [] rfl hat hframe'
    obtain ⟨hok, herror⟩ := run_generated htype hprim hvariables hasm hat hframe'
    have hno : e.NoTrap vm.host c.variableType env := by
      by_contra hno
      cases (herror hno).symm.trans hrun
    obtain ⟨last', hrun', -, -, -, hwide⟩ := hok hno
    cases hrun.symm.trans hrun'
    refine ⟨hno, ?_⟩
    rw [htypeOf, IntExpr.load_low hwide] at hvalue
    exact hvalue
  · rintro ⟨hno, hsame⟩
    refine ⟨htypeOf, fun vm' m' sp' post hhost hat hframe' => ?_⟩
    obtain ⟨last, hrun, hend, hsp, hmemory, hwide⟩ :=
      (run_generated htype hprim hvariables hasm hat hframe').1 (by rwa [hhost])
    refine ⟨last, hrun, hend, hsp, hmemory, ?_⟩
    rw [IntExpr.load_low hwide, htypeOf, hhost]
    exact hsame

/-- What holds of an expression and is passed on to the operands holds of all subexpressions. -/
theorem forall_subexpressions {p : NumberExpr → Prop}
    (hstep : ∀ op left right location, p (binary op left right location) → p left ∧ p right)
    {e : NumberExpr} (h : p e) : ∀ e' ∈ e.subexpressions, p e' := by
  induction e with
  | literalInt | literalFloat | identifier =>
      intro e' hmem
      obtain rfl := List.mem_singleton.mp hmem
      exact h
  | binary op left right location ihl ihr =>
      intro e' hmem
      simp only [subexpressions, List.mem_cons, List.mem_append] at hmem
      rcases hmem with rfl | hmem | hmem
      · exact h
      · exact ihl (hstep _ _ _ _ h).1 e' hmem
      · exact ihr (hstep _ _ _ _ h).2 e' hmem

theorem length_generated (htype : e.typeOf c.variableType = some type)
    (hprim : c.ast.HasPrimitives) (hvariables : c.NumberVariables e.names)
    (hasm : Assembles c.piece ops) :
    (generateExpression e.toAST c).2.piece.instructions.length = c.piece.instructions.length +
      (Op.flatten (e.code c.variablePlace c.variableType)).length + 1 := by
  obtain ⟨piece, hgenerated, hpiece⟩ := generateExpression_toAST htype hprim hvariables hasm
  rw [hgenerated, GeneratorContext.withPiece_piece, hpiece.instructions, hasm.instructions]
  simp [Op.cells]
  omega

/-- Of an expression that is accepted, the emitted code is right about every subexpression if and
only if the integer instructions that are taken for other operators than `+`, `-` and `*` on
integers give what the operators by the types give. -/
theorem generateExpression_number (htype : e.typeOf c.variableType = some type)
    (hprim : c.ast.HasPrimitives) (hvariables : c.NumberVariables e.names)
    (hasm : Assembles c.piece ops) {m : Machine} {sp : ℕ}
    (hframe : Frame vm env c.variablePlace e m sp)
    (hlength : (generateExpression e.toAST c).2.piece.instructions.length < 2 ^ 31) :
    (∀ e' ∈ e.subexpressions, Right c vm.host env e') ↔ e.Agree vm.host c.variableType env := by
  rw [← agree_iff (isNumber_variableType hvariables) htype]
  rw [length_generated htype hprim hvariables hasm] at hlength
  have hroom := hframe.room
  have hall := forall_subexpressions (p := fun e' => (∃ type', e'.typeOf c.variableType = some type') ∧
      (∀ name ∈ e'.names, name ∈ e.names) ∧ e'.need ≤ e.need ∧
      (Op.flatten (e'.code c.variablePlace c.variableType)).length ≤
        (Op.flatten (e.code c.variablePlace c.variableType)).length)
    (fun op left right location h => by
      obtain ⟨⟨type', htype'⟩, hnames, hneed, hcode⟩ := h
      obtain ⟨ltype, rtype, -, hl, hr, -⟩ := typeOf_binary htype'
      simp only [names, List.mem_append] at hnames
      simp only [need] at hneed
      simp only [code, Op.flatten_append, Op.flatten_cons, List.length_append] at hcode
      exact ⟨⟨⟨ltype, hl⟩, fun name hmem => hnames name (.inl hmem), by omega, by omega⟩,
        ⟨⟨rtype, hr⟩, fun name hmem => hnames name (.inr hmem), by omega, by omega⟩⟩)
    ⟨⟨type, htype⟩, fun _ h => h, Nat.le_refl _, Nat.le_refl _⟩
  refine forall₂_congr fun e' hmem => ?_
  obtain ⟨⟨type', htype'⟩, hnames, hneed, hcode⟩ := hall e' hmem
  have hvariables' : c.NumberVariables e'.names := fun name hname => hvariables name (hnames name hname)
  refine right_iff htype' hprim hvariables' hasm (hframe.operand e' hframe.stackAt rfl
    (Nat.le_refl _) (fun _ _ => rfl) (by omega) hnames) ?_
  rw [length_generated htype' hprim hvariables' hasm]
  omega

end Generated

/-! ## Sums of literals -/

section Literals

/-- With `1 + 2.5` and `1.5 + 2.5` as the processor computes them. -/
def hostOfSums : Host :=
  { Host.trivial with
    intToFloat := fun _ => 0x3f800000
    floatArithmetic := fun _ x _ => if x = 0x3f800000 then 0x40600000 else 0x40800000 }

def vmOfSums : VirtualMachine := { VirtualMachine.ofPieces [] with host := hostOfSums }

/-- `1 + 2.5` -/
def mixedSum : NumberExpr :=
  .binary (.arithmetic .add) (.literalInt 1 0) (.literalFloat 0x40200000 0) 0

/-- `1.5 + 2.5` -/
def floatSum : NumberExpr :=
  .binary (.arithmetic .add) (.literalFloat 0x3fc00000 0) (.literalFloat 0x40200000 0) 0

theorem frame_literals {e : NumberExpr} (hnames : e.names = []) (hneed : e.need ≤ 2) :
    Frame vmOfSums (fun _ => 0) IntExpr.contextOfX.variablePlace e (IntExpr.machineOfX 0)
      0x10fff8 := by
  refine ⟨⟨rfl, by decide, by decide⟩, ?_, fun name hmem => ?_⟩
  · have hstack : vmOfSums.stack = 0x100000 := rfl
    omega
  · rw [hnames] at hmem
    exact absurd hmem List.not_mem_nil

theorem generateExpression_number_mixedSum :
    Right IntExpr.contextOfX hostOfSums (fun _ => 0) mixedSum :=
  (generateExpression_number
    (by decide : mixedSum.typeOf IntExpr.contextOfX.variableType = some .float)
    IntExpr.contextOfX_hasPrimitives
    (fun _ hmem => absurd hmem List.not_mem_nil) assembles_empty
    (frame_literals rfl (by decide)) (by decide)).mpr
    ⟨trivial, trivial, fun hsafe => (hsafe (.inl ⟨rfl, by decide⟩)).elim⟩ mixedSum
    (mem_subexpressions_self _)

/-- The bit patterns of `1.5` and `2.5` are added as integers. -/
theorem not_right_floatSum :
    floatSum.typeOf IntExpr.contextOfX.variableType = some .float ∧
      IntExpr.contextOfX.ast.HasPrimitives ∧ IntExpr.contextOfX.NumberVariables floatSum.names ∧
      ¬ Right IntExpr.contextOfX hostOfSums (fun _ => 0) floatSum := by
  have hvariables : IntExpr.contextOfX.NumberVariables floatSum.names :=
    fun _ hmem => absurd hmem List.not_mem_nil
  refine ⟨by decide, IntExpr.contextOfX_hasPrimitives, hvariables, fun hright => ?_⟩
  have hsame := ((right_iff (by decide : floatSum.typeOf IntExpr.contextOfX.variableType = some .float)
    IntExpr.contextOfX_hasPrimitives hvariables assembles_empty (frame_literals rfl (by decide))
    (by decide)).mp hright).2
  have hwrong : ¬ (floatSum.wide hostOfSums IntExpr.contextOfX.variableType fun _ => 0).setWidth 32 =
      (floatSum.value hostOfSums IntExpr.contextOfX.variableType fun _ => 0).setWidth 32 := by decide
  exact hwrong hsame

end Literals

end NumberExpr

end TinCompiler
