import TinCompiler.Expressions.Increment
import TinCompiler.Expressions.NumbersCode

/-!
# The two orders of a comparison

The width of a comparison is that of its left operand: one byte for a `char`, and otherwise the
whole register.  So `a == b` and `b == a` can differ if one operand is a `char` and the other an
`int`, and only then (`comparison_symmetric_iff`).
-/

namespace TinCompiler

/-- The five laws, for the results of `a op b` and of `b op a`. -/
structure SymmetricResults (ab ba : CompareOp → Bool) : Prop where
  equal : ab .equal = ba .equal
  notEqual : ab .notEqual = !ab .equal
  less : ab .less = ba .greater
  lessEqual : ab .lessEqual = ba .greaterEqual
  notLess : ab .lessEqual = !ba .less

/-- The memory outside the free part of the stack is the same. -/
def SameOutside (vm : VirtualMachine) (sp : ℕ) (m m' : Machine) : Prop :=
  ∀ a, a < vm.stack ∨ sp ≤ a → m'.memory a = m.memory a

/-- An accepted operand without side effects, with its type and value in the state `m`: wherever
its code stands, and whatever is in the registers and in the free part of the stack, it pushes the
value and leaves everything else alone. -/
def SideEffectFree (vm : VirtualMachine) (c : GeneratorContext) (m : Machine) (sp room : ℕ)
    (e : ASTExpression) (type : TypeId) (value : BitVec 64) : Prop :=
  ∀ (c' : GeneratorContext) (ops : List Op), c'.ast = c.ast → c'.currentScopeId = c.currentScopeId →
    Assembles c'.piece ops →
    (generateExpression e c').1 = type ∧
    ∃ code, Assembles (generateExpression e c').2.piece (ops ++ code) ∧
      ∀ (m' : Machine) (sp' : ℕ), vm.StackAt m' sp' → sp' ≤ sp → vm.stack + 8 * room ≤ sp' →
        m'.registers .bp = m.registers .bp → m'.allocations = m.allocations →
        SameOutside vm sp m m' →
        ∃ m'', vm.runOps code m' = .ok m'' ∧ vm.StackAt m'' (sp' - 8) ∧
          m''.registers .bp = m.registers .bp ∧ m''.allocations = m.allocations ∧
          m''.memory.load (sp' - 8) 8 = value ∧ SameOutside vm sp' m' m''

/-- The code of the comparison, run from `m`, leaves this truth value. -/
def Leaves (vm : VirtualMachine) (c : GeneratorContext) (m : Machine) (sp : ℕ) (op : CompareOp)
    (left right : ASTExpression) (result : Bool) : Prop :=
  ∃ ops code m', Assembles c.piece ops ∧
    Assembles (generateExpression (.binary (NumberOp.compare op).kind left right 0) c).2.piece
      (ops ++ code) ∧
    vm.runOps code m = .ok m' ∧ m'.memory.load (sp - 8) 8 = VirtualMachine.ofBool result

/-- Comparing the lowest bytes, as signed bytes, gives what comparing the registers gives. -/
def BytesAgree (x y : BitVec 64) : Prop :=
  (x.setWidth 8 = y.setWidth 8 ↔ x = y) ∧ ((x.setWidth 8).slt (y.setWidth 8) = x.slt y)

instance (x y : BitVec 64) : Decidable (BytesAgree x y) := inferInstanceAs (Decidable (_ ∧ _))

/-! ## The code of a comparison -/

section Code

variable {vm : VirtualMachine} {c : GeneratorContext} {m : Machine} {sp room : ℕ}
  {left right : ASTExpression} {ltype rtype : TypeId} {x y : BitVec 64}

/-- The bytes that are compared. -/
def comparisonSize (type : TypeId) : ℕ := if type = .char then 1 else 4

theorem binaryTypes_compare (op : CompareOp) (hl : ltype = .int ∨ ltype = .char)
    (hr : rtype = .int ∨ rtype = .char) :
    binaryTypes (NumberOp.compare op).kind ltype rtype = some (.bool, false) := by
  rcases hl with rfl | rfl <;> rcases hr with rfl | rfl <;> cases op <;> rfl

theorem emitComparison_assembles {ast : AST} (hprim : ast.HasPrimitives) (op : CompareOp)
    (rtype : TypeId) (hl : ltype = .int ∨ ltype = .char) {piece : BytecodePiece} {ops : List Op}
    (h : Assembles piece ops) :
    Assembles (emitBinary ast (NumberOp.compare op).kind ltype rtype false piece)
      (Op.popOp .a (Op.popOp .d ops) ++
        [⟨.compare op .a .d (comparisonSize ltype), none⟩, ⟨.push .a, none⟩]) := by
  have hsize : (ast.getType ltype).size = comparisonSize ltype := by
    rcases hl with rfl | rfl
    · exact hprim.int_size
    · have hbyte := sizeOfType_byte hprim (.inl rfl)
      rwa [AST.sizeOfType, if_neg (by decide)] at hbyte
  have hinst : operatorInst (comparisonSize ltype) false (NumberOp.compare op).kind =
      .compare op .a .d (comparisonSize ltype) := by
    cases op <;> exact congrArg _ (Nat.or_zero _)
  have hresult := (((h.emitPop .d).emitPop .a).emit
    (.compare op .a .d (comparisonSize ltype))).emitPush .a
  simpa [emitBinary, emitOperator_eq, hsize, hinst, List.append_assoc] using hresult

theorem runOps_comparison (op : CompareOp) (size : ℕ) {m₀ : Machine} {ops : List Op}
    (hrun : vm.runOps ops m₀ = .ok m) (h : vm.StackAt m (sp - 16)) (hlow : vm.stack + 16 ≤ sp)
    (hhigh : sp ≤ vm.stack + vm.stackMax) :
    ∃ m', vm.runOps (Op.popOp .a (Op.popOp .d ops) ++
        [⟨.compare op .a .d size, none⟩, ⟨.push .a, none⟩]) m₀ = .ok m' ∧
      m'.memory.load (sp - 8) 8 = VirtualMachine.ofBool (vm.compareControl op size
        (m.memory.load (sp - 8) 8) (m.memory.load (sp - 16) 8)) := by
  obtain ⟨m₁, hpopd, hstack₁, hd₁, -, -, hmemory₁⟩ :=
    runOps_popOp .d (by decide) (by decide) hrun h (by omega)
  have hsp₁ : sp - 16 + 8 = sp - 8 := by omega
  rw [hsp₁] at hstack₁ hmemory₁
  obtain ⟨m₂, hpopa, hstack₂, ha₂, hsame₂, -, -⟩ :=
    runOps_popOp .a (by decide) (by decide) hpopd hstack₁ (by omega)
  have hsp₂ : sp - 8 + 8 = sp := by omega
  rw [hsp₂] at hstack₂
  have hx : m₂.registers .a = m.memory.load (sp - 8) 8 := by
    rw [ha₂]
    exact ByteMemory.load_congr fun i _ => hmemory₁ _ (by omega)
  have hy : m₂.registers .d = m.memory.load (sp - 16) 8 := by
    rw [hsame₂ .d (by decide) (by decide), hd₁]
  obtain ⟨m₃, hcompare, ha₃, hsame₃, -⟩ := vm.runOps_set m₂ ⟨.compare op .a .d size, none⟩ .a
    (VirtualMachine.ofBool (vm.compareControl op size (m.memory.load (sp - 8) 8)
      (m.memory.load (sp - 16) 8))) [⟨.push .a, none⟩] fun pc => by
        have hregs {reg : Register} (hne : reg ≠ .pc) :
            (m₂.set .pc pc).registers reg = m₂.registers reg :=
          Machine.set_registers_of_ne _ _ hne
        simp only [VirtualMachine.execute, hregs (show Register.a ≠ .pc by decide),
          hregs (show Register.d ≠ .pc by decide), hx, hy]
  obtain ⟨m', hpush, -, -, hmemory⟩ := VirtualMachine.runOps_push .a []
    (hstack₂.of_eq (hsame₃ .sp (by decide) (by decide))) (by omega) (by decide) (by decide)
  refine ⟨m', ?_, ?_⟩
  · rw [VirtualMachine.runOps_append_of_ok _ hpopa, hcompare, hpush]
    rfl
  · rw [hmemory, ByteMemory.load_store_word _ _ rfl, ha₃]

theorem popOp_append {code : List Op} (reg : Register) (ops : List Op) (hne : code ≠ []) :
    Op.popOp reg (ops ++ code) = ops ++ Op.popOp reg code := by
  unfold Op.popOp
  rw [List.getLast?_append_of_ne_nil _ hne]
  split
  · exact List.dropLast_append_of_ne_nil hne
  · exact List.append_assoc _ _ _

/-- Code that moves the stack pointer is not empty. -/
theorem ne_nil_of_stackAt {ops : List Op} {m' : Machine} {sp' : ℕ} (hrun : vm.runOps ops m = .ok m')
    (h : vm.StackAt m sp) (h' : vm.StackAt m' sp') (hne : sp' ≠ sp) : ops ≠ [] := by
  rintro rfl
  obtain rfl : m = m' := Except.ok.inj hrun
  exact hne (h'.toNat.symm.trans h.toNat)

/-- The left operand is evaluated first, and the right one above it. -/
theorem leaves_comparison (hprim : c.ast.HasPrimitives) (op : CompareOp)
    (hl : ltype = .int ∨ ltype = .char) (hr : rtype = .int ∨ rtype = .char)
    (hleft : SideEffectFree vm c m sp room left ltype x)
    (hright : SideEffectFree vm c m sp room right rtype y)
    (hstack : vm.StackAt m sp) (hroom : vm.stack + 8 * (room + 2) ≤ sp) {ops : List Op}
    (hasm : Assembles c.piece ops) :
    Leaves vm c m sp op left right (vm.compareControl op (comparisonSize ltype) x y) := by
  obtain ⟨hltype, lcode, hlasm, hlrun⟩ := hleft c ops rfl rfl hasm
  have hframe := GeneratorM.Framed.generateExpression left c
  obtain ⟨hrtype, rcode, hrasm, hrrun⟩ :=
    hright (generateExpression left c).2 (ops ++ lcode) hframe.ast hframe.currentScopeId hlasm
  obtain ⟨m₁, hrun₁, hstack₁, hbp₁, halloc₁, hload₁, hsame₁⟩ :=
    hlrun m sp hstack (Nat.le_refl _) (by omega) rfl rfl fun _ _ => rfl
  obtain ⟨m₂, hrun₂, hstack₂, -, -, hload₂, hsame₂⟩ :=
    hrrun m₁ (sp - 8) hstack₁ (by omega) (by omega) hbp₁ halloc₁ hsame₁
  have hsp : sp - 8 - 8 = sp - 16 := by omega
  rw [hsp] at hstack₂ hload₂
  have hruns : vm.runOps (lcode ++ rcode) m = .ok m₂ :=
    (VirtualMachine.runOps_append_of_ok _ hrun₁).trans hrun₂
  have hne := ne_nil_of_stackAt hruns hstack hstack₂ (by omega)
  obtain ⟨m₃, hpopd, hstack₃, -⟩ :=
    runOps_popOp .d (by decide) (by decide) hruns hstack₂ (by have := hstack.high; omega)
  have hnePopped := ne_nil_of_stackAt hpopd hstack hstack₃ (by omega)
  obtain ⟨m', hrun, hresult⟩ :=
    runOps_comparison op (comparisonSize ltype) hruns hstack₂ (by omega) hstack.high
  have hgenerated : (generateExpression (.binary (NumberOp.compare op).kind left right 0) c).2.piece =
      emitBinary c.ast (NumberOp.compare op).kind ltype rtype false
        (generateExpression right (generateExpression left c).2).2.piece := by
    have hframe' := GeneratorM.Framed.generateExpression right (generateExpression left c).2
    simp only [generateExpression, GeneratorM.bind_apply, generateBinary, getContext_apply, hltype,
      hrtype, binaryTypes_compare op hl hr, hframe'.ast, hframe.ast]
    rfl
  have hcompared := emitComparison_assembles hprim op rtype hl hrasm
  rw [List.append_assoc, popOp_append .d ops hne, popOp_append .a ops hnePopped, List.append_assoc]
    at hcompared
  refine ⟨ops, _, m', hasm, by rw [hgenerated]; exact hcompared, hrun, ?_⟩
  rw [hresult, hload₂]
  have hkept : (m₂.memory.load (sp - 8) 8 : BitVec 64) = m₁.memory.load (sp - 8) 8 :=
    ByteMemory.load_congr fun i _ => hsame₂ _ (.inr (by omega))
  rw [hkept, hload₁]

theorem ofBool_injective {p q : Bool} (h : VirtualMachine.ofBool p = VirtualMachine.ofBool q) :
    p = q := by
  cases p <;> cases q <;> first | rfl | exact absurd h (by decide)

/-- The code has one result. -/
theorem Leaves.unique {op : CompareOp} {p q : Bool} (h : Leaves vm c m sp op left right p)
    (h' : Leaves vm c m sp op left right q) : p = q := by
  obtain ⟨ops, code, m₁, hasm, hcode, hrun, hresult⟩ := h
  obtain ⟨ops', code', m₂, hasm', hcode', hrun', hresult'⟩ := h'
  obtain rfl : ops = ops' := flatten_injective (hasm.instructions.symm.trans hasm'.instructions)
  have hcodes := flatten_injective (hcode.instructions.symm.trans hcode'.instructions)
  obtain rfl : code = code' := List.append_cancel_left hcodes
  obtain rfl : m₁ = m₂ := Except.ok.inj (hrun.symm.trans hrun')
  exact ofBool_injective (hresult.symm.trans hresult')

end Code

/-! ## The laws -/

section Laws

open VirtualMachine

/-- Of two comparisons of the same operands at different widths. -/
theorem symmetricResults_iff {w w' : ℕ} (u v : BitVec w) (x y : BitVec w') :
    SymmetricResults (fun op => compare op u v) (fun op => compare op y x) ↔
      (u = v ↔ x = y) ∧ u.slt v = x.slt y := by
  constructor
  · intro h
    exact ⟨(decide_eq_decide.mp h.equal).trans eq_comm, h.less⟩
  · rintro ⟨hequal, hless⟩
    have hle : u.sle v = x.sle y := by
      rw [BitVec.sle_eq_slt_or_eq, BitVec.sle_eq_slt_or_eq, hless]
      exact congrArg _ (decide_eq_decide.mpr hequal)
    exact ⟨decide_eq_decide.mpr (hequal.trans eq_comm), decide_not, hless, hle,
      hle.trans BitVec.sle_eq_not_slt⟩

theorem compareControl_size {vm : VirtualMachine} (type : TypeId) (op : CompareOp)
    (x y : BitVec 64) : vm.compareControl op (comparisonSize type) x y =
      if type = .char then compare op (x.setWidth 8) (y.setWidth 8) else compare op x y := by
  unfold comparisonSize compareControl
  split <;> rfl

theorem symmetricResults_types {vm : VirtualMachine} {ltype rtype : TypeId}
    (hl : ltype = .int ∨ ltype = .char) (hr : rtype = .int ∨ rtype = .char) (x y : BitVec 64) :
    SymmetricResults (fun op => vm.compareControl op (comparisonSize ltype) x y)
        (fun op => vm.compareControl op (comparisonSize rtype) y x) ↔
      ltype = rtype ∨ BytesAgree x y := by
  have hint (op : CompareOp) (x y : BitVec 64) :
      vm.compareControl op (comparisonSize .int) x y = compare op x y := by
    rw [compareControl_size, if_neg (by decide)]
  have hchar (op : CompareOp) (x y : BitVec 64) :
      vm.compareControl op (comparisonSize .char) x y =
        compare op (x.setWidth 8) (y.setWidth 8) := by
    rw [compareControl_size, if_pos rfl]
  rcases hl with rfl | rfl <;> rcases hr with rfl | rfl
  · simp only [hint]
    exact iff_of_true ((symmetricResults_iff x y x y).mpr ⟨Iff.rfl, rfl⟩) (.inl trivial)
  · simp only [hint, hchar]
    rw [symmetricResults_iff]
    exact ⟨fun ⟨hequal, hless⟩ => .inr ⟨hequal.symm, hless.symm⟩,
      fun h => have hagree := h.resolve_left (by decide); ⟨hagree.1.symm, hagree.2.symm⟩⟩
  · simp only [hint, hchar]
    rw [symmetricResults_iff]
    exact ⟨.inr, fun h => h.resolve_left (by decide)⟩
  · simp only [hchar]
    exact iff_of_true ((symmetricResults_iff _ _ _ _).mpr ⟨Iff.rfl, rfl⟩) (.inl trivial)

end Laws

/-! ## Both orders -/

section Orders

variable {vm : VirtualMachine} {c : GeneratorContext} {m : Machine} {sp room : ℕ}
  {a b : ASTExpression} {ltype rtype : TypeId} {x y : BitVec 64}

/-- The comparisons of the two operands in both orders have results, and these obey the laws. -/
def ComparesSymmetrically (vm : VirtualMachine) (c : GeneratorContext) (m : Machine) (sp : ℕ)
    (a b : ASTExpression) : Prop :=
  ∃ ab ba : CompareOp → Bool, (∀ op, Leaves vm c m sp op a b (ab op)) ∧
    (∀ op, Leaves vm c m sp op b a (ba op)) ∧ SymmetricResults ab ba

/-- The two orders agree if the operands have the same type, or if their lowest bytes compare as
their registers do. -/
theorem comparison_symmetric_iff (hprim : c.ast.HasPrimitives)
    (hl : ltype = .int ∨ ltype = .char) (hr : rtype = .int ∨ rtype = .char)
    (ha : SideEffectFree vm c m sp room a ltype x) (hb : SideEffectFree vm c m sp room b rtype y)
    (hstack : vm.StackAt m sp) (hroom : vm.stack + 8 * (room + 2) ≤ sp) {ops : List Op}
    (hasm : Assembles c.piece ops) :
    ComparesSymmetrically vm c m sp a b ↔ ltype = rtype ∨ BytesAgree x y := by
  rw [← @symmetricResults_types vm _ _ hl hr x y]
  have hab := fun op => leaves_comparison hprim op hl hr ha hb hstack hroom hasm
  have hba := fun op => leaves_comparison hprim op hr hl hb ha hstack hroom hasm
  constructor
  · rintro ⟨ab, ba, hab', hba', hsymmetric⟩
    obtain rfl : ab = _ := funext fun op => (hab' op).unique (hab op)
    obtain rfl : ba = _ := funext fun op => (hba' op).unique (hba op)
    exact hsymmetric
  · exact fun hsymmetric => ⟨_, _, hab, hba, hsymmetric⟩

end Orders

/-! ## Operands -/

section Operands

variable {vm : VirtualMachine} {c : GeneratorContext} {m : Machine} {sp : ℕ}

/-- Trees of `int` literals and variables are operands without side effects, if no division
traps. -/
theorem sideEffectFree_number {env : String → BitVec 32} {e : NumberExpr}
    (htype : e.typeOf c.variableType = some .int) (hprim : c.ast.HasPrimitives)
    (hvariables : c.NumberVariables e.names) (hframe : NumberExpr.Frame vm env c.variablePlace e m sp)
    (hno : e.NoTrap vm.host c.variableType env) :
    SideEffectFree vm c m sp e.need e.toAST .int (e.wide vm.host c.variableType env) := by
  intro c' ops hast hscope hasm
  have hplace : c'.variablePlace = c.variablePlace := by
    unfold GeneratorContext.variablePlace
    rw [hast, hscope]
  have htypes : c'.variableType = c.variableType := by
    unfold GeneratorContext.variableType
    rw [hast, hscope]
  have hvariables' : c'.NumberVariables e.names := by
    unfold GeneratorContext.NumberVariables
    rw [hast, hscope]
    exact hvariables
  obtain ⟨piece, hgenerated, hpiece⟩ := NumberExpr.generateExpression_toAST (htypes.symm ▸ htype)
    (hast.symm ▸ hprim) hvariables' hasm
  rw [hgenerated]
  refine ⟨rfl, e.code c.variablePlace c.variableType ++ [⟨.push .a, none⟩], ?_, ?_⟩
  · rw [← hplace, ← htypes, ← List.append_assoc]
    exact hpiece
  · intro m' sp' hstack hle hroom hbp halloc hsame
    have hframe' := hframe.operand e hstack hbp hle hsame hroom fun _ hmem => hmem
    have hpos := NumberExpr.need_pos e
    have hhigh := hstack.high
    obtain ⟨m₁, hrun₁, hkept, ha⟩ := (NumberExpr.runOps_code hframe').1 hno
    obtain ⟨m₂, hpush, hstack₂, hsame₂, hmemory⟩ := VirtualMachine.runOps_push .a []
      (hstack.of_eq hkept.sp) (by omega) (by decide) (by decide)
    have hrun := (VirtualMachine.runOps_append_of_ok _ hrun₁).trans hpush
    refine ⟨m₂, hrun, hstack₂, ?_, ?_, ?_, ?_⟩
    · rw [hsame₂ .bp (by decide) (by decide), hkept.bp, hbp]
    · have hstraight := NumberExpr.code_push_straight c.variablePlace c.variableType e
      rw [VirtualMachine.runOps_allocations (fun op hmem => (hstraight op hmem).sequential) hrun, halloc]
    · rw [hmemory, ByteMemory.load_store_word _ _ rfl, ha]
    · intro a hmem
      rw [hmemory, ByteMemory.store_apply_of_not_mem (by omega)]
      exact hkept.memory a hmem

/-- The constants. -/
theorem sideEffectFree_const {e : ASTExpression} {type : TypeId} {value : ℤ}
    (htype : ∀ c', (generateExpression e c').1 = type)
    (hpiece : ∀ c', (generateExpression e c').2.piece = (c'.piece.emitLi .a value).emitPush .a) :
    SideEffectFree vm c m sp 1 e type (BitVec.ofInt 64 value) := by
  intro c' ops _ _ hasm
  refine ⟨htype c', [⟨.li .a, some value⟩, ⟨.push .a, none⟩], ?_, ?_⟩
  · rw [hpiece]
    simpa using (hasm.emitLi .a value).emitPush .a
  · intro m' sp' hstack hle hroom hbp halloc hsame
    have hhigh := hstack.high
    obtain ⟨m₁, hli, ha, hregs, hmemory₁⟩ := vm.runOps_set m' ⟨.li .a, some value⟩ .a
      (BitVec.ofInt 64 value) [⟨.push .a, none⟩] fun _ => rfl
    obtain ⟨m₂, hpush, hstack₂, hsame₂, hmemory₂⟩ := VirtualMachine.runOps_push .a []
      (hstack.of_eq (hregs .sp (by decide) (by decide))) (by omega) (by decide) (by decide)
    have hrun : vm.runOps [⟨.li .a, some value⟩, ⟨.push .a, none⟩] m' = .ok m₂ := hli.trans hpush
    refine ⟨m₂, hrun, hstack₂, ?_, ?_, ?_, ?_⟩
    · rw [hsame₂ .bp (by decide) (by decide), hregs .bp (by decide) (by decide), hbp]
    · rw [VirtualMachine.runOps_allocations (by simp [Instruction.Sequential]) hrun, halloc]
    · rw [hmemory₂, ByteMemory.load_store_word _ _ rfl, ha]
    · intro a hmem
      rw [hmemory₂, ByteMemory.store_apply_of_not_mem (by omega), hmemory₁]

theorem sideEffectFree_int (value : BitVec 32) :
    SideEffectFree vm c m sp 1 (.literalInt value 0) .int (BitVec.ofInt 64 value.toInt) :=
  sideEffectFree_const (fun _ => rfl) fun _ => rfl

theorem sideEffectFree_char (text : String) :
    SideEffectFree vm c m sp 1 (.literalChar text 0) .char (BitVec.ofInt 64 (firstChar text)) :=
  sideEffectFree_const (fun _ => rfl) fun _ => rfl

end Operands

/-! ## `'a'` and 353 -/

theorem stackAt_machineOfX : (VirtualMachine.ofPieces []).StackAt (IntExpr.machineOfX 0) 0x10fff8 :=
  ⟨rfl, by decide, by decide⟩

/-- `'a'` is 97, and so is the lowest byte of 353. -/
theorem not_comparesSymmetrically :
    ¬ ∀ (vm : VirtualMachine) (c : GeneratorContext) (m : Machine) (sp room : ℕ)
      (a b : ASTExpression) (ltype rtype : TypeId) (x y : BitVec 64) (ops : List Op),
      c.ast.HasPrimitives → (ltype = .int ∨ ltype = .char) → (rtype = .int ∨ rtype = .char) →
      SideEffectFree vm c m sp room a ltype x → SideEffectFree vm c m sp room b rtype y →
      vm.StackAt m sp → vm.stack + 8 * (room + 2) ≤ sp → Assembles c.piece ops →
      ComparesSymmetrically vm c m sp a b := by
  intro h
  have hchar := @sideEffectFree_char (.ofPieces []) IntExpr.contextOfX (IntExpr.machineOfX 0)
    0x10fff8 "a"
  have hint := @sideEffectFree_int (.ofPieces []) IntExpr.contextOfX (IntExpr.machineOfX 0)
    0x10fff8 353
  have hroom : (VirtualMachine.ofPieces []).stack + 8 * (1 + 2) ≤ 0x10fff8 := by decide
  obtain ⟨ab, ba, hab, hba, hsymmetric⟩ := h _ _ _ _ _ _ _ _ _ _ _ _
    IntExpr.contextOfX_hasPrimitives (.inr rfl) (.inl rfl) hchar hint stackAt_machineOfX hroom
    assembles_empty
  have hchars := leaves_comparison IntExpr.contextOfX_hasPrimitives .equal (.inr rfl) (.inl rfl)
    hchar hint stackAt_machineOfX hroom assembles_empty
  have hints := leaves_comparison IntExpr.contextOfX_hasPrimitives .equal (.inl rfl) (.inr rfl)
    hint hchar stackAt_machineOfX hroom assembles_empty
  have hequal := hsymmetric.equal
  rw [(hab .equal).unique hchars, (hba .equal).unique hints] at hequal
  exact absurd hequal (by decide)

/-- Two literals. -/
theorem comparison_symmetric_iff_literals :
    ComparesSymmetrically (.ofPieces []) IntExpr.contextOfX (IntExpr.machineOfX 0) 0x10fff8
      (.literalChar "a" 0) (.literalInt 97 0) :=
  (comparison_symmetric_iff IntExpr.contextOfX_hasPrimitives (.inr rfl) (.inl rfl)
    (sideEffectFree_char "a") (sideEffectFree_int 97) stackAt_machineOfX (by decide)
    assembles_empty).mpr (.inr (by decide))

end TinCompiler
