import TinCompiler.Expressions.Stack
import TinCompiler.Generator.Traversal
import TinCompiler.Machine.CodeSafety

/-!
# The registers that generated code writes

The code of a function writes its values to four registers, and the stack pointer with pushes,
pops and increments only.  The base pointer and the program counter are left to calls, returns
and jumps (`tame_generateFunctionCode`).  What is said of every instruction of a piece needs no
other invariant: an emit function adds an instruction behind the others, takes the last one
away, or writes an immediate.
-/

namespace TinCompiler

open GeneratorM

def BytecodePiece.Tame (piece : BytecodePiece) : Prop := TameCells piece.instructions

/-! ## The emit functions -/

namespace BytecodePiece.Tame

variable {piece : BytecodePiece}

theorem emit (h : piece.Tame) (inst : Instruction) (hinst : inst.Tame) : (piece.emit inst).Tame := by
  intro other hmem
  rcases List.mem_append.mp hmem with hmem | hmem
  · exact h other hmem
  · cases List.mem_singleton.mp hmem
    exact hinst

theorem emitImm (h : piece.Tame) (value : ℤ) : (piece.emitImm value).Tame := by
  intro other hmem
  rcases List.mem_append.mp hmem with hmem | hmem
  · exact h other hmem
  · cases List.mem_singleton.mp hmem

theorem popLastInst (h : piece.Tame) : piece.popLastInst.Tame := by
  unfold BytecodePiece.popLastInst
  split
  · exact h
  · exact fun other hmem => h other (List.mem_of_mem_take hmem)

theorem fixJumpHere (h : piece.Tame) (immIndex : ℕ) : (piece.fixJumpHere immIndex).Tame := by
  intro other hmem
  rcases List.mem_or_eq_of_mem_set hmem with hmem | heq
  · exact h other hmem
  · cases heq

theorem emitLi (h : piece.Tame) (reg : Register) (hreg : reg.isWork) (imm : ℤ) :
    (piece.emitLi reg imm).Tame := (h.emit (.li reg) hreg).emitImm imm

theorem emitPush (h : piece.Tame) (reg : Register) : (piece.emitPush reg).Tame :=
  h.emit (.push reg) trivial

theorem emitPop (h : piece.Tame) (reg : Register) (hreg : reg.isWork) :
    (piece.emitPop reg).Tame := by
  have hmoved : ({ piece with virtualSp := piece.virtualSp + 8 } : BytecodePiece).Tame := h
  unfold BytecodePiece.emitPop
  dsimp only
  split
  · exact hmoved.popLastInst
  · exact hmoved.emit (.pop reg) hreg

theorem emitIncr (h : piece.Tame) (reg : Register) (hreg : reg.isWork ∨ reg = .sp) (imm : ℤ) :
    (piece.emitIncr reg imm).Tame := by
  have hincr := h.emit (.incr reg (BitVec.ofInt 8 imm) (BitVec.ofInt 8 (imm / 2 ^ 8))) hreg
  unfold BytecodePiece.emitIncr
  dsimp only
  split <;> exact hincr

theorem emitMovMRDisp (h : piece.Tame) (toReg fromReg : Register) (size : ℕ) (offset : ℤ) :
    (piece.emitMovMRDisp toReg fromReg size offset).Tame := by
  unfold BytecodePiece.emitMovMRDisp
  split
  · exact h.emit (.movMR toReg fromReg size) trivial
  · exact (h.emit (.movMRDisp toReg fromReg size) trivial).emitImm offset

theorem emitMovRMDisp (h : piece.Tame) (reg : Register) (hreg : reg.isWork) (fromReg : Register)
    (size : ℕ) (offset : ℤ) : (piece.emitMovRMDisp reg fromReg size offset).Tame := by
  unfold BytecodePiece.emitMovRMDisp
  split
  · exact h.emit (.movRM reg fromReg size) hreg
  · exact (h.emit (.movRMDisp reg fromReg size) hreg).emitImm offset

theorem emitMovRR (h : piece.Tame) (reg : Register) (hreg : reg.isWork) (fromReg : Register) :
    (piece.emitMovRR reg fromReg).Tame := h.emit (.movRR reg fromReg) hreg

theorem emitArithmetic (h : piece.Tame) (op : ArithmeticOp) (reg : Register) (hreg : reg.isWork)
    (fromReg : Register) (isFloat : Bool) : (piece.emitArithmetic op reg fromReg isFloat).Tame :=
  h.emit (.arithmetic op reg fromReg isFloat) hreg

theorem emitDataptr (h : piece.Tame) (reg : Register) (hreg : reg.isWork) (offset : ℤ) :
    (piece.emitDataptr reg offset).Tame := (h.emit (.dataptr reg) hreg).emitImm offset

theorem emitCall (h : piece.Tame) : piece.emitCall.2.Tame :=
  (h.emit .call trivial).emitImm 0

theorem emitRet (h : piece.Tame) : piece.emitRet.Tame := h.emit .ret trivial

theorem emitJmp (h : piece.Tame) (pc : ℕ) : (piece.emitJmp pc).Tame :=
  (h.emit .jmp trivial).emitImm _

theorem emitJmpReloc (h : piece.Tame) : piece.emitJmpReloc.2.Tame :=
  (h.emit .jmp trivial).emitImm 0

theorem emitJzReloc (h : piece.Tame) (reg : Register) (hreg : reg.isWork) :
    (piece.emitJzReloc reg).2.Tame :=
  (h.emit (.jz reg) hreg).emitImm 0

theorem emitMemzero (h : piece.Tame) (reg regSize : Register) :
    (piece.emitMemzero reg regSize).Tame := h.emit (.memzero reg regSize) trivial

theorem foldl {α : Type} {f : BytecodePiece → α → BytecodePiece}
    (hf : ∀ (piece : BytecodePiece) (a : α), piece.Tame → (f piece a).Tame) (l : List α) :
    ∀ {piece : BytecodePiece}, piece.Tame → (l.foldl f piece).Tame := by
  induction l with
  | nil => exact fun h => h
  | cons a l ih => exact fun h => ih (hf _ a h)

theorem emitConversion (h : piece.Tame) (conversion : Option CastType) :
    (emitConversion conversion piece).Tame := by
  cases conversion with
  | none => exact h
  | some castType =>
      exact ((h.emitPop .a rfl).emit (.cast .a castType) rfl).emitPush .a

theorem emitElement (h : piece.Tame) (size : ℕ) : (emitElement size piece).Tame :=
  ((h.emitLi .c rfl size).emitArithmetic .mul .a rfl .c false).emitArithmetic
    .add .b rfl .a false

theorem emitLoadPointer (h : piece.Tame) (place : Place) : (emitLoadPointer place piece).Tame :=
  h.emitMovRMDisp .b rfl _ 8 place.offset

theorem emitAddress (h : piece.Tame) (place : Place) : (emitAddress place piece).Tame := by
  unfold TinCompiler.emitAddress
  refine emitPush ?_ .b
  split
  · split
    · exact (h.emitLi .b rfl _).emitArithmetic .add .b rfl .bp false
    · exact h.emitMovRR .b rfl .bp
  · split
    · exact (h.emitLi .a rfl _).emitArithmetic .add .b rfl .a false
    · exact h

theorem emitStep (h : piece.Tame) (kind : StepKind) : (emitStep kind piece).Tame := by
  have hload : ((piece.emitPop .b).emitMovRM .a .b 4).Tame :=
    (h.emitPop .b rfl).emit (.movRM .a .b 4) rfl
  have hpre : ∀ imm, (((piece.emitPop .b).emitMovRM .a .b 4).emitIncr .a imm |>.emitPush .a).Tame :=
    fun imm => (hload.emitIncr .a (.inl rfl) imm).emitPush .a
  have hpost : ∀ imm, (((piece.emitPop .b).emitMovRM .a .b 4).emitPush .a |>.emitIncr .a imm).Tame :=
    fun imm => (hload.emitPush .a).emitIncr .a (.inl rfl) imm
  unfold TinCompiler.emitStep
  cases kind
  · exact (hpre 1).emit (.movMR .b .a 4) trivial
  · exact (hpost 1).emit (.movMR .b .a 4) trivial
  · exact (hpre 1).emit (.movMR .b .a 4) trivial
  · exact (hpost (-1)).emit (.movMR .b .a 4) trivial

theorem emitBinary (h : piece.Tame) (ast : AST) (kind : BinaryKind) (ltype rtype : TypeId)
    (isFloat : Bool) : (emitBinary ast kind ltype rtype isFloat piece).Tame := by
  have hcast : ∀ (b : Bool) {reg : Register} {piece : BytecodePiece}, reg.isWork → piece.Tame →
      (if b then piece.emitCast reg .intFloat else piece).Tame := by
    intro b reg piece hreg h
    split
    · exact h.emit (.cast reg .intFloat) hreg
    · exact h
  have hoperator : ∀ {piece : BytecodePiece} (size : ℕ), piece.Tame →
      (emitOperator kind size isFloat piece).Tame := by
    intro piece size h
    rw [emitOperator_eq]
    exact h.emit _ (by cases kind <;> rfl)
  exact (hoperator _ (hcast _ rfl ((hcast _ rfl (h.emitPop .d rfl)).emitPop
    .a rfl))).emitPush .a

theorem generatePop (ast : AST) (reg : Register) :
    ∀ (fuel : ℕ) (offset : ℤ) (type : TypeId) {piece : BytecodePiece}, piece.Tame →
      (generatePop ast reg fuel offset type piece).Tame := by
  intro fuel
  induction fuel with
  | zero => exact fun _ _ _ h => h
  | succ fuel ih =>
      intro offset type piece h
      unfold TinCompiler.generatePop
      split
      · exact h
      · split
        · dsimp only
          split
          · exact (h.emitPop .a rfl).emitMovMRDisp _ _ _ _
          · exact h.emitPop .a rfl
        · exact foldl (fun _ _ h => ih _ _ h) _ h

theorem generatePush (ast : AST) (reg : Register) :
    ∀ (fuel : ℕ) (offset : ℤ) (type : TypeId) {piece : BytecodePiece}, piece.Tame →
      (generatePush ast reg fuel offset type piece).Tame := by
  intro fuel
  induction fuel with
  | zero => exact fun _ _ _ h => h
  | succ fuel ih =>
      intro offset type piece h
      unfold TinCompiler.generatePush
      split
      · exact (h.emitMovRMDisp .a rfl _ _ _).emitPush .a
      · exact foldl (fun _ _ h => ih _ _ h) _ h

theorem emitCallSequence (h : piece.Tame) (ast : AST) (f : ℕ) (function : ASTFunction)
    (argDiff : ℤ) : (emitCallSequence ast f function argDiff piece).Tame := by
  have hpop : (popArguments ast argDiff function.parameters (piece.emitMovRR .b .sp)).Tame :=
    foldl (fun _ _ h => generatePop ast .b _ _ _ h) _ (h.emitMovRR .b rfl .sp)
  have hcall : ((popArguments ast argDiff function.parameters
      (piece.emitMovRR .b .sp)).emitCall.2.addRelocation f (popArguments ast argDiff
        function.parameters (piece.emitMovRR .b .sp)).emitCall.1).Tame := hpop.emitCall
  unfold TinCompiler.emitCallSequence
  dsimp only
  split
  · exact generatePush ast .b _ _ _ ((hcall.emitMovRR .b rfl .sp).emitIncr .sp (.inr rfl) _)
  · exact hcall.emitIncr .sp (.inr rfl) _

end BytecodePiece.Tame

/-! ## Expressions -/

/-- Whatever the context is, `x` emits tame instructions only. -/
def GeneratorM.Tame {α : Type} (x : GeneratorM α) : Prop :=
  ∀ c, c.piece.Tame → (x c).2.piece.Tame

namespace GeneratorM.Tame

variable {α β : Type}

theorem pure (a : α) : (Pure.pure a : GeneratorM α).Tame := fun _ h => h

theorem bind {x : GeneratorM α} {f : α → GeneratorM β} (hx : x.Tame) (hf : ∀ a, (f a).Tame) :
    (x >>= f).Tame :=
  fun c h => hf _ _ (hx c h)

theorem getContext : getContext.Tame := fun _ h => h

theorem emit {f : BytecodePiece → BytecodePiece}
    (hf : ∀ piece : BytecodePiece, piece.Tame → (f piece).Tame) : (emit f).Tame :=
  fun c h => hf c.piece h

/-- The piece is not modified. -/
theorem modify {f : GeneratorContext → GeneratorContext} (hpiece : ∀ c, (f c).piece = c.piece) :
    (modifyContext f).Tame := by
  intro c h
  rw [modifyContext_apply, hpiece]
  exact h

theorem report (location : SourceLocation) (message : String) : (report location message).Tame :=
  modify fun _ => rfl

theorem abandon (location : SourceLocation) : (abandon location).Tame := modify fun _ => rfl

theorem failWith (location : SourceLocation) (message : String) :
    (failWith location message).Tame :=
  (report _ _).bind fun _ => (abandon _).bind fun _ => pure _

theorem giveUp (location : SourceLocation) : (giveUp location).Tame :=
  (abandon _).bind fun _ => pure _

theorem popValue (reg : Register) (offset : ℤ) (type : TypeId) :
    (popValue reg offset type).Tame :=
  fun c h => BytecodePiece.Tame.generatePop c.ast reg _ offset type h

theorem pushValue (reg : Register) (offset : ℤ) (type : TypeId) :
    (pushValue reg offset type).Tame :=
  fun c h => BytecodePiece.Tame.generatePush c.ast reg _ offset type h

theorem performCast (ltype rtype : TypeId) : (performCast ltype rtype).Tame := by
  unfold TinCompiler.performCast
  split
  · exact pure false
  · exact (emit fun _ h => h.emitConversion _).bind fun _ => pure true

theorem emitPop (reg : Register) (hreg : reg.isWork) :
    (TinCompiler.emit fun piece => piece.emitPop reg).Tame :=
  emit fun _ h => h.emitPop reg hreg

/-- `emit_li` and `emit_push` of a constant. -/
theorem emitConst (imm : ℤ) :
    (TinCompiler.emit fun piece => (piece.emitLi .a imm).emitPush .a).Tame :=
  emit fun _ h => (h.emitLi .a rfl imm).emitPush .a

theorem generateConst (e : ASTExpression) : (generateConst e).Tame := by
  unfold TinCompiler.generateConst
  split
  · refine getContext.bind fun c => ?_
    dsimp only
    split
    · exact (emitConst _).bind fun _ => pure _
    · exact (report _ _).bind fun _ => (abandon _).bind fun _ => pure _
  case h_4 =>
    refine getContext.bind fun c => bind (modify fun _ => rfl) fun _ => bind ?_ fun _ => pure _
    exact emit fun _ h => (h.emitDataptr .a rfl _).emitPush .a
  case h_9 => exact pure _
  all_goals exact (emitConst _).bind fun _ => pure _

theorem emitDataptr (offset : ℤ) :
    (TinCompiler.emit fun piece => piece.emitDataptr .b offset).Tame :=
  emit fun _ h => h.emitDataptr .b rfl offset

theorem generateIdentifier (name : String) (location : SourceLocation) :
    (generateIdentifier name location).Tame := by
  refine getContext.bind fun c => ?_
  split
  · exact failWith _ _
  · split
    · exact (pushValue _ _ _).bind fun _ => pure _
    · exact (emitDataptr _).bind fun _ => (pushValue _ _ _).bind fun _ => pure _
    · split
      · split
        · exact generateConst _
        · exact failWith _ _
      · exact failWith _ _

theorem checkArguments (location : SourceLocation) (i : ℕ) (parameters : List Parameter)
    (types : List TypeId) : (checkArguments location i parameters types).Tame := by
  intro c h
  rw [checkArguments_piece location i parameters types c]
  exact h

theorem generateCall (name : String) (location : SourceLocation)
    {arguments : GeneratorM (List TypeId)} (harguments : arguments.Tame) :
    (generateCall name location arguments).Tame := by
  have hfinish : ∀ f function argOffset types,
      (finishCall name location f function argOffset types).Tame := by
    intro f function argOffset types
    unfold TinCompiler.finishCall
    split
    · exact failWith _ _
    · refine (checkArguments _ _ _ _).bind fun failed => ?_
      split
      · exact giveUp _
      · exact getContext.bind fun _ => (emit fun _ h => h.emitCallSequence _ _ _ _).bind
          fun _ => pure _
  refine getContext.bind fun c => ?_
  split
  · exact failWith _ _
  · exact (emit fun _ h => h.emitIncr .sp (.inr rfl) _).bind fun _ => getContext.bind fun _ =>
      harguments.bind fun _ => hfinish _ _ _ _

theorem generateBinary (kind : BinaryKind) (location : SourceLocation) (ltype rtype : TypeId) :
    (generateBinary kind location ltype rtype).Tame := by
  refine getContext.bind fun c => ?_
  split
  · exact (emit fun _ h => h.emitBinary _ _ _ _ _).bind fun _ => pure _
  · split
    · exact failWith _ _
    · exact giveUp _

theorem generateNot (type : TypeId) : (generateNot type).Tame :=
  (emit fun _ h => ((h.emitPop .a rfl).emit (.not .a .a) rfl).emitPush .a).bind fun _ => pure _

theorem generateDeref (location : SourceLocation) (type : TypeId) :
    (generateDeref location type).Tame := by
  unfold TinCompiler.generateDeref
  split
  · exact failWith _ _
  · exact (emitPop .b rfl).bind fun _ => (pushValue _ _ _).bind fun _ => pure _

theorem generateIndex (location : SourceLocation) (rtype ltype : TypeId) :
    (generateIndex location rtype ltype).Tame := by
  refine getContext.bind fun c => ?_
  split
  · exact failWith _ _
  · split
    · exact failWith _ _
    · exact (emit fun _ h => ((h.emitPop .b rfl).emitPop .a rfl).emitElement _).bind fun _ =>
        (pushValue _ _ _).bind fun _ => pure _

theorem generateCast (name : String) (location : SourceLocation) (type : TypeId) :
    (generateCast name location type).Tame := by
  refine getContext.bind fun c => ?_
  dsimp only
  split
  · exact (emit fun _ h => h.emitConversion _).bind fun _ => pure _
  · exact failWith _ _

theorem placeIdentifier (name : String) (location : SourceLocation) :
    (placeIdentifier name location).Tame := by
  refine getContext.bind fun c => ?_
  split
  · exact (report _ _).bind fun _ => pure _
  · split
    · exact pure _
    · exact (emitDataptr _).bind fun _ => pure _
    · exact (report _ _).bind fun _ => pure _

theorem placeMember (previous name : String) (location : SourceLocation) (place : Place) :
    (placeMember previous name location place).Tame := by
  refine getContext.bind fun c => ?_
  split
  · split
    · exact (report _ _).bind fun _ => pure _
    · split
      · exact pure _
      · exact (emit fun _ h => h.emitLoadPointer _).bind fun _ => pure _
  · exact (report _ _).bind fun _ => pure _

theorem placeIndex (location : SourceLocation) {right : GeneratorM TypeId} (hright : right.Tame)
    (place : Place) : (placeIndex location right place).Tame := by
  have hfinish : ∀ rtype, (finishElement location place rtype).Tame := by
    intro rtype
    refine getContext.bind fun c => ?_
    split
    · exact (report _ _).bind fun _ => pure _
    · exact (emit fun _ h => ((h.emitPop .a rfl).emitPop .b rfl).emitElement _).bind
        fun _ => pure _
  unfold TinCompiler.placeIndex
  split
  · exact (emit fun _ h => (h.emitLoadPointer place).emitPush .b).bind fun _ => hright.bind hfinish
  · exact getContext.bind fun _ => (report _ _).bind fun _ => pure _

theorem bindPlace {place : GeneratorM (Option Place)} {next : Place → GeneratorM (Option Place)}
    (hplace : place.Tame) (hnext : ∀ place, (next place).Tame) : (bindPlace place next).Tame := by
  refine hplace.bind fun place => ?_
  cases place with
  | none => exact pure none
  | some place => exact hnext place

theorem referenceTo (location : SourceLocation) (invalid : Option SourceLocation)
    {place : GeneratorM (Option Place)} (hplace : place.Tame) :
    (referenceTo location invalid place).Tame := by
  unfold TinCompiler.referenceTo
  split
  · exact failWith _ _
  · refine hplace.bind fun place => ?_
    split
    · exact giveUp _
    · exact (emit fun _ h => h.emitAddress _).bind fun _ => pure _

theorem generateMemberValue (location : SourceLocation) (type : TypeId) :
    (generateMemberValue location type).Tame := by
  unfold TinCompiler.generateMemberValue
  split
  · exact (emitPop .b rfl).bind fun _ => (pushValue _ _ _).bind fun _ => pure _
  · exact giveUp _

theorem generateAssign (location : SourceLocation) (rtype ltype : TypeId) :
    (generateAssign location rtype ltype).Tame := by
  unfold TinCompiler.generateAssign
  split
  · split
    · exact (emitPop .b rfl).bind fun _ => (popValue _ _ _).bind fun _ =>
        (pushValue _ _ _).bind fun _ => pure _
    · exact failWith _ _
  · exact giveUp _

theorem generateStep (kind : StepKind) (location : SourceLocation) (type : TypeId) :
    (generateStep kind location type).Tame := by
  refine getContext.bind fun c => ?_
  split
  · split
    · exact (emit fun _ h => h.emitStep _).bind fun _ => pure _
    · exact failWith _ _
  · exact giveUp _

mutual

theorem generateExpression : ∀ e : ASTExpression, (TinCompiler.generateExpression e).Tame
  | .identifier name location => generateIdentifier name location
  | .functionCall name arguments location =>
      generateCall name location (generateArguments arguments)
  | .binary _ left right _ =>
      (generateExpression left).bind fun _ => (generateExpression right).bind fun _ =>
        generateBinary _ _ _ _
  | .not left _ => (generateExpression left).bind fun _ => generateNot _
  | .refer left _ => (generateReference left).bind fun _ => pure _
  | .deref left _ => (generateExpression left).bind fun _ => generateDeref _ _
  | .index left right _ =>
      (generateExpression right).bind fun _ => (generateExpression left).bind fun _ =>
        generateIndex _ _ _
  | .member left _ _ =>
      (referenceTo _ _ ((generatePlace left).bindPlace fun _ => placeMember _ _ _ _)).bind fun _ =>
        generateMemberValue _ _
  | .cast left _ _ => (generateExpression left).bind fun _ => generateCast _ _ _
  | .assign left right _ =>
      (generateExpression right).bind fun _ => (generateReference left).bind fun _ =>
        generateAssign _ _ _
  | .step _ left _ => (generateReference left).bind fun _ => generateStep _ _ _
  | .sizeof .. | .literalInt .. | .literalFloat .. | .literalStr .. | .literalChar ..
  | .literalNull .. | .literalTrue .. | .literalFalse .. => generateConst _

theorem generateArguments :
    ∀ arguments : List ASTExpression, (TinCompiler.generateArguments arguments).Tame
  | [] => pure _
  | arg :: arguments =>
      (generateExpression arg).bind fun _ => (generateArguments arguments).bind fun _ => pure _

theorem generateReference : ∀ e : ASTExpression, (TinCompiler.generateReference e).Tame
  | .deref left _ => (generateExpression left).bind fun _ => pure _
  | .identifier name location => referenceTo _ _ (placeIdentifier name location)
  | .member left _ _ =>
      referenceTo _ _ ((generatePlace left).bindPlace fun _ => placeMember _ _ _ _)
  | .index left right _ =>
      referenceTo _ _ ((generatePlace left).bindPlace (placeIndex _ (generateExpression right)))
  | .functionCall .. | .binary .. | .not .. | .refer .. | .cast .. | .assign .. | .step ..
  | .sizeof .. | .literalInt .. | .literalFloat .. | .literalStr .. | .literalChar ..
  | .literalNull .. | .literalTrue .. | .literalFalse .. => failWith _ _

theorem generatePlace : ∀ e : ASTExpression, (TinCompiler.generatePlace e).Tame
  | .identifier name location => placeIdentifier name location
  | .member left _ _ => (generatePlace left).bindPlace fun _ => placeMember _ _ _ _
  | .index left right _ =>
      (generatePlace left).bindPlace (placeIndex _ (generateExpression right))
  | .functionCall .. | .binary .. | .not .. | .refer .. | .deref .. | .cast .. | .assign ..
  | .step .. | .sizeof .. | .literalInt .. | .literalFloat .. | .literalStr .. | .literalChar ..
  | .literalNull .. | .literalTrue .. | .literalFalse .. => pure _

end

/-! ## Statements -/

theorem failStatement (location : SourceLocation) (message : String) :
    (failStatement location message).Tame :=
  (report _ _).bind fun _ => (abandon _).bind fun _ => pure _

theorem skipStatement (location : SourceLocation) (message : String) :
    (skipStatement location message).Tame :=
  (report _ _).bind fun _ => (abandon _).bind fun _ => pure _

theorem withBlock {x : GeneratorM α} (kind : BlockKind) (hx : x.Tame) : (withBlock kind x).Tame :=
  getContext.bind fun _ => hx.bind fun _ => bind (modify fun _ => rfl) fun _ => pure _

theorem setScope (scopeId : ScopeId) : (setScope scopeId).Tame := modify fun _ => rfl

theorem setFrameOffset (frame : ℤ) : (setFrameOffset frame).Tame := modify fun _ => rfl

theorem releaseTo (frame : ℤ) : (releaseTo frame).Tame := by
  refine getContext.bind fun c => ?_
  split
  · exact emit fun _ h => h.emitIncr .sp (.inr rfl) _
  · exact pure _

theorem generateGlobalDeclaration (type name : String) (location : SourceLocation) :
    (TinCompiler.generateGlobalDeclaration type name location).Tame := by
  refine getContext.bind fun c => ?_
  dsimp only
  split
  · refine bind (modify fun _ => rfl) fun _ => ?_
    split
    · exact failStatement _ _
    · exact bind (modify fun _ => rfl) fun _ => pure _
  · exact failStatement _ _

theorem generateConstDeclaration (type name : String) (location : SourceLocation)
    (statement : ASTStatement) :
    (TinCompiler.generateConstDeclaration type name location statement).Tame := by
  refine getContext.bind fun c => ?_
  dsimp only
  split
  · split
    · exact skipStatement _ _
    · exact bind (modify fun _ => rfl) fun _ => pure _
  · exact failStatement _ _

theorem generateInitializer (e : Option ASTExpression) (location : SourceLocation) (type : TypeId)
    (offset : ℤ) : (TinCompiler.generateInitializer e location type offset).Tame := by
  unfold TinCompiler.generateInitializer
  split
  · refine (generateExpression _).bind fun etype => ?_
    split
    · refine (performCast _ _).bind fun cast => ?_
      split
      · exact (popValue _ _ _).bind fun _ => pure _
      · exact getContext.bind fun _ => failStatement _ _
    · exact (abandon _).bind fun _ => pure _
  · refine getContext.bind fun c => bind (emit fun piece h => ?_) fun _ => pure _
    have haddress := (h.emitLi .b rfl offset).emitArithmetic .add .b rfl .bp false
    exact (haddress.emitLi .a rfl _).emitMemzero .b .a

theorem generateVarDeclaration (type name : String) (e : Option ASTExpression)
    (location : SourceLocation) :
    (TinCompiler.generateVarDeclaration type name e location).Tame := by
  refine getContext.bind fun c => ?_
  dsimp only
  split
  · refine (emit fun _ h => h.emitIncr .sp (.inr rfl) _).bind fun _ =>
      bind (modify fun _ => rfl) fun _ => ?_
    split
    · exact skipStatement _ _
    · exact bind (modify fun _ => rfl) fun _ => generateInitializer _ _ _ _
  · exact failStatement _ _

theorem generateContinue (prevFrameOffset : ℤ) (location : SourceLocation) :
    (TinCompiler.generateContinue prevFrameOffset location).Tame := by
  refine getContext.bind fun c => ?_
  split
  · exact failStatement _ _
  · exact (releaseTo _).bind fun _ => (emit fun _ h => h.emitJmp _).bind fun _ =>
      (setFrameOffset _).bind fun _ => pure _

theorem generateBreak (prevFrameOffset : ℤ) (location : SourceLocation) :
    (TinCompiler.generateBreak prevFrameOffset location).Tame := by
  refine getContext.bind fun c => ?_
  split
  · exact failStatement _ _
  · next loop _ =>
      have hjump : (modifyContext fun c =>
          let jump := c.piece.emitJmpReloc
          { c.withPiece jump.2 with
            loopScopes := c.loopScopes.dropLast ++
              [{ loop with breaksToResolve := loop.breaksToResolve ++ [jump.1] }] }).Tame :=
        fun _ h => h.emitJmpReloc
      exact (releaseTo _).bind fun _ => hjump.bind fun _ => (setFrameOffset _).bind fun _ => pure _

theorem generateReturn (prevFrameOffset : ℤ) (e : Option ASTExpression) (location : SourceLocation) :
    (TinCompiler.generateReturn prevFrameOffset e location).Tame := by
  have hresult : ∀ e, (generateResult e location).Tame := by
    intro e
    refine getContext.bind fun c => ?_
    split
    · refine (generateExpression e).bind fun type => (performCast _ _).bind fun cast => ?_
      split
      · exact (popValue _ _ _).bind fun _ => pure _
      · exact failStatement _ _
    · exact failStatement _ _
  have hrest : ∀ result : StatementResult, (if result = .next then do
        TinCompiler.releaseTo 0
        TinCompiler.emit fun piece => piece.emitRet
        TinCompiler.setFrameOffset prevFrameOffset
        return .stop
      else return result : GeneratorM StatementResult).Tame := by
    intro result
    split
    · exact (releaseTo _).bind fun _ => (emit fun _ h => h.emitRet).bind fun _ =>
        (setFrameOffset _).bind fun _ => pure _
    · exact pure _
  cases e with
  | some e => exact (withBlock _ (hresult e)).bind hrest
  | none => exact (pure StatementResult.next).bind hrest

theorem generateCondition (e : ASTExpression) (statement : String) :
    (TinCompiler.generateCondition e statement).Tame := by
  refine withBlock _ ((generateExpression e).bind fun type => (performCast _ _).bind fun cast => ?_)
  split
  · exact (emitPop .a rfl).bind fun _ => pure _
  · exact getContext.bind fun _ => (report _ _).bind fun _ => (abandon _).bind fun _ => pure _

theorem generateJz : TinCompiler.generateJz.Tame := fun _ h => h.emitJzReloc .a rfl

theorem generateJmp : TinCompiler.generateJmp.Tame := fun _ h => h.emitJmpReloc

theorem fixJump (reloc : ℕ) : (TinCompiler.fixJump reloc).Tame := emit fun _ h => h.fixJumpHere reloc

theorem pushLoop : TinCompiler.pushLoop.Tame := fun _ h => h

theorem closeLoop (index reloc : ℕ) : (TinCompiler.closeLoop index reloc).Tame := by
  refine getContext.bind fun c => ?_
  split
  · exact pure _
  · exact (emit fun _ h => h.emitJmp _).bind fun _ => (fixJump reloc).bind fun _ =>
      (emit fun _ h => BytecodePiece.Tame.foldl (fun _ _ h => h.fixJumpHere _) _ h).bind fun _ =>
        modify fun _ => rfl

mutual

theorem generateBody : ∀ body : ASTBody, (TinCompiler.generateBody body).Tame
  | .mk scopeId statements => by
      unfold TinCompiler.generateBody
      refine getContext.bind fun c => (setScope _).bind fun _ =>
        (generateStatements _ statements).bind fun completed => ?_
      split
      · exact (releaseTo _).bind fun _ => (setFrameOffset _).bind fun _ =>
          (setScope _).bind fun _ => pure _
      · exact (setScope _).bind fun _ => pure _

theorem generateStatements (prevFrameOffset : ℤ) : ∀ statements : List ASTStatement,
    (TinCompiler.generateStatements prevFrameOffset statements).Tame
  | [] => by
      unfold TinCompiler.generateStatements
      exact pure _
  | statement :: rest => by
      unfold TinCompiler.generateStatements
      have hstart : recordStart.Tame := modify fun _ => rfl
      refine hstart.bind fun _ =>
        (generateStatement prevFrameOffset statement).bind fun result => ?_
      cases result
      · exact generateStatements prevFrameOffset rest
      · exact pure _
      · exact pure _

theorem generateStatement (prevFrameOffset : ℤ) : ∀ statement : ASTStatement,
    (TinCompiler.generateStatement prevFrameOffset statement).Tame
  | .expression e location => by
      unfold TinCompiler.generateStatement
      exact withBlock _ ((generateExpression e).bind fun _ => (popValue _ _ _).bind fun _ => pure _)
  | .globalDeclaration type name _ location => by
      unfold TinCompiler.generateStatement
      exact generateGlobalDeclaration type name location
  | .constDeclaration type name e location => by
      unfold TinCompiler.generateStatement
      exact generateConstDeclaration type name location _
  | .varDeclaration type name e location => by
      unfold TinCompiler.generateStatement
      exact withBlock _ (generateVarDeclaration type name e location)
  | .while condition body _ => by
      unfold TinCompiler.generateStatement
      refine pushLoop.bind fun index => (generateCondition _ _).bind fun accepted => ?_
      split
      · exact generateJz.bind fun reloc => (generateBody body).bind fun _ =>
          (closeLoop index reloc).bind fun _ => pure _
      · exact pure _
  | .ifElse condition body none _ => by
      unfold TinCompiler.generateStatement
      refine (generateCondition _ _).bind fun accepted => ?_
      split
      · exact generateJz.bind fun reloc => (generateBody body).bind fun _ =>
          (fixJump reloc).bind fun _ => pure _
      · exact pure _
  | .ifElse condition body (some elseBody) _ => by
      unfold TinCompiler.generateStatement
      refine (generateCondition _ _).bind fun accepted => ?_
      split
      · exact generateJz.bind fun reloc => (generateBody body).bind fun _ =>
          generateJmp.bind fun relocEnd => (fixJump reloc).bind fun _ =>
            (generateBody elseBody).bind fun _ => (fixJump relocEnd).bind fun _ => pure _
      · exact pure _
  | .break location => by
      unfold TinCompiler.generateStatement
      exact generateBreak prevFrameOffset location
  | .continue location => by
      unfold TinCompiler.generateStatement
      exact generateContinue prevFrameOffset location
  | .return e location => by
      unfold TinCompiler.generateStatement
      exact generateReturn prevFrameOffset e location

end

/-! ## Functions -/

theorem setGlobal (statement : ASTStatement) : (TinCompiler.setGlobal statement).Tame := by
  unfold TinCompiler.setGlobal
  split
  · refine getContext.bind fun c => ?_
    split
    · exact abandon _
    · split
      · exact emit fun _ h => ((h.emitDataptr .b rfl _).emitLi .a rfl _).emitMemzero .b .a
      · refine (generateExpression _).bind fun type => ?_
        split
        · split
          · exact (report _ _).bind fun _ => abandon _
          · exact (emitDataptr _).bind fun _ => popValue _ _ _
        · exact abandon _
  · exact pure _

theorem composes : Composes Tame where
  pure := pure ()
  andThen := fun hx hy => hx.bind fun _ => hy
  read := fun hf => getContext.bind hf
  setScope := setScope
  setGlobal := setGlobal

theorem generateFinalRet (function : ASTFunction) :
    (TinCompiler.generateFinalRet function).Tame := by
  have hrest : (TinCompiler.releaseTo 0 >>= fun _ => TinCompiler.emit fun piece =>
      piece.emitRet).Tame := (releaseTo 0).bind fun _ => emit fun _ h => h.emitRet
  refine getContext.bind fun c => ?_
  split
  · exact pure _
  · split
    · exact pure _
    · split
      · exact (report _ _).bind fun _ => hrest
      · exact (pure ()).bind fun _ => hrest

theorem reserveResult (function : ASTFunction) : (TinCompiler.reserveResult function).Tame := by
  unfold TinCompiler.reserveResult
  split
  · exact getContext.bind fun _ => (emit fun _ h => h.emitIncr .sp (.inr rfl) _).bind fun _ =>
      setFrameOffset _
  · exact pure _

theorem generateFunctionCode (function : ASTFunction) (body : ASTBody) :
    (TinCompiler.generateFunctionCode function body).Tame := by
  have hrest : (TinCompiler.reserveResult function >>= fun _ => TinCompiler.generateBody body >>=
      fun completed => TinCompiler.generateFinalRet function >>= fun _ =>
        (Pure.pure completed : GeneratorM Bool)).Tame :=
    (reserveResult function).bind fun _ => (generateBody body).bind fun _ =>
      (generateFinalRet function).bind fun _ => pure _
  unfold TinCompiler.generateFunctionCode
  split
  · exact getContext.bind fun c => (composes.forM composes.setImportGlobals _).bind fun _ =>
      (setScope _).bind fun _ => hrest
  · exact (pure ()).bind fun _ => hrest

end GeneratorM.Tame

/-- The code of a function. -/
theorem tame_generateFunctionCode (function : ASTFunction) (body : ASTBody) (ast : AST)
    (bytecode : Bytecode) (reporter : Reporter) :
    (generateFunctionCode function body (functionContext ast function bytecode reporter)).2.piece.Tame :=
  GeneratorM.Tame.generateFunctionCode function body _ nofun

end TinCompiler
