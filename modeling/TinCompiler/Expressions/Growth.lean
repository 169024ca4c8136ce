import TinCompiler.Expressions.Stack
import TinCompiler.Machine.Growth

/-!
# How the code of an expression grows

Whatever an expression is, its code keeps all but the pushes in front of it
(`GeneratorM.Keeping`).  Without a report it takes away no word at all, and if its type has a
slot its value is pushed behind an instruction of its own (`generateExpression_grows`).
Only an expression of a structure without members may begin by taking a push away, as the
operator `!` does.
-/

namespace TinCompiler

/-! ## The composed emit functions -/

namespace Emits

variable {piece : BytecodePiece}

theorem emitConversion (conversion : Option CastType) (piece : BytecodePiece) :
    Emits (Grows False) piece (emitConversion conversion piece) := by
  cases conversion with
  | none => exact refl piece
  | some castType =>
      exact popEmitPush piece rfl (show Register.a ≠ .pc by decide)
        (show Register.a ≠ .sp by decide) (by simp)

/-- The code of `!`, behind the operand. -/
theorem emitNotValue (piece : BytecodePiece) :
    Emits (Grows False) piece (((piece.emitPop .a).emitNot .a .a).emitPush .a) :=
  popEmitPush piece rfl (show Register.a ≠ .pc by decide) (show Register.a ≠ .sp by decide)
    (by simp)

theorem emitElement (size : ℕ) (piece : BytecodePiece) :
    Emits (Grows True) piece (emitElement size piece) :=
  ((emitLi piece _ (by decide) (by decide)).keep trivial
    (emitArithmetic _ .mul .c false (by decide) (by decide)).keeps).keep trivial
    (emitArithmetic _ .add .a false (by decide) (by decide)).keeps

theorem emitLoadPointer (place : Place) (piece : BytecodePiece) :
    Emits (Grows True) piece (emitLoadPointer place piece) :=
  emitMovRMDisp piece _ 8 place.offset (by decide) (by decide)

theorem emitAddress (place : Place) (piece : BytecodePiece) :
    Emits (Grows place.isLocal) piece (emitAddress place piece) := by
  have hpush : ∀ piece, Emits KeepsSolid piece (BytecodePiece.emitPush piece .b) :=
    fun piece => (emitPush piece (by decide)).keeps
  have hli : ∀ (reg fromReg : Register) (piece : BytecodePiece), reg ≠ .sp → reg ≠ .pc →
      Emits (Grows True) piece ((piece.emitLi reg place.offset).emitArithmetic .add .b fromReg) :=
    fun _ _ piece hsp hpc => (emitLi piece _ hsp hpc).keep trivial
      (emitArithmetic _ .add _ false (by decide) (by decide)).keeps
  unfold TinCompiler.emitAddress
  dsimp only
  split
  · split
    · exact ((hli .b .bp piece (by decide) (by decide)).keep trivial (hpush _)).mono fun _ => trivial
    · exact ((emitMovRR piece .bp (by decide) (by decide)).keep trivial (hpush _)).mono
        fun _ => trivial
  · next hlocal =>
      split
      · exact ((hli .a .a piece (by decide) (by decide)).keep trivial (hpush _)).mono fun _ => trivial
      · exact (emitPush piece (by decide)).mono hlocal

theorem emitStep (kind : StepKind) (piece : BytecodePiece) :
    Emits KeepsSolid piece (emitStep kind piece) := by
  have hload : Emits KeepsSolid piece ((piece.emitPop .b).emitMovRM .a .b 4) :=
    (emitPop piece (by decide) (by decide)).transKeeps
      (emitMovRM _ .b 4 (by decide) (by decide)).keeps
  have hstore : ∀ piece : BytecodePiece, Emits KeepsSolid piece (piece.emitMovMR .b .a 4) :=
    fun piece => (emitMovMR piece .b .a 4).keeps
  have hpre : ∀ (imm : ℤ) (piece : BytecodePiece),
      Emits KeepsSolid piece ((piece.emitIncr .a imm).emitPush .a) := fun imm piece =>
    (emitIncr piece imm (by decide)).keeps.transKeeps (emitPush _ (by decide)).keeps
  have hpost : ∀ (imm : ℤ) (piece : BytecodePiece),
      Emits KeepsSolid piece ((piece.emitPush .a).emitIncr .a imm) := fun imm piece =>
    (emitPush piece (by decide)).keeps.transKeeps (emitIncr _ imm (by decide)).keeps
  cases kind
  · exact (hload.transKeeps (hpre 1 _)).transKeeps (hstore _)
  · exact (hload.transKeeps (hpost 1 _)).transKeeps (hstore _)
  · exact (hload.transKeeps (hpre 1 _)).transKeeps (hstore _)
  · exact (hload.transKeeps (hpost (-1) _)).transKeeps (hstore _)

theorem emitOperator (kind : BinaryKind) (operandSize : ℕ) (isFloat : Bool)
    (piece : BytecodePiece) :
    Emits (Grows True) piece (emitOperator kind operandSize isFloat piece) := by
  rw [emitOperator_eq]
  cases kind <;> exact emit piece rfl (by simp [operatorInst, Instruction.Sequential])
    (by simp [operatorInst, Instruction.SparesSp]) (by simp [operatorInst])

theorem emitBinary (ast : AST) (kind : BinaryKind) (ltype rtype : TypeId) (isFloat : Bool)
    (piece : BytecodePiece) :
    Emits (Grows True) piece (emitBinary ast kind ltype rtype isFloat piece) := by
  have hcast : ∀ (b : Bool) (reg : Register) (piece : BytecodePiece), reg ≠ .sp → reg ≠ .pc →
      Emits KeepsSolid piece (if b then piece.emitCast reg .intFloat else piece) := by
    intro b reg piece hsp hpc
    split
    · exact (emitCast piece _ hsp hpc).keeps
    · exact (refl piece).keeps
  have hpop : ∀ piece : BytecodePiece, Emits KeepsSolid piece (piece.emitPop .a) :=
    fun piece => emitPop piece (by decide) (by decide)
  have hright := (emitPop_d piece).keep trivial
    (hcast (isFloat && (rtype = .int || rtype = .char)) .d _ (by decide) (by decide))
  have hleft := (hright.keep trivial (hpop _)).keep trivial
    (hcast (isFloat && (ltype = .int || ltype = .char)) .a _ (by decide) (by decide))
  exact (hleft.keep trivial (emitOperator kind _ isFloat _).keeps).keep trivial
    (emitPush _ (by decide)).keeps

theorem foldl {α : Type} (f : BytecodePiece → α → BytecodePiece) (firm : α → Prop)
    (hf : ∀ piece a, Emits (Grows (firm a)) piece (f piece a)) (l : List α) :
    ∀ piece, Emits (Grows (∃ a ∈ l, firm a)) piece (l.foldl f piece) := by
  induction l with
  | nil => exact fun piece => (refl piece).mono (by simp)
  | cons a l ih => exact fun piece => ((hf piece a).trans (ih _)).mono (by simp)

theorem generatePop (ast : AST) {reg : Register} :
    ∀ (fuel : ℕ) (offset : ℤ) (type : TypeId) (piece : BytecodePiece),
      Emits KeepsSolid piece (generatePop ast reg fuel offset type piece) := by
  intro fuel
  induction fuel with
  | zero => exact fun _ _ piece => (refl piece).keeps
  | succ fuel ih =>
      intro offset type piece
      unfold TinCompiler.generatePop
      split
      · exact (refl piece).keeps
      · split
        · have hpop : Emits KeepsSolid piece (piece.emitPop .a) := emitPop piece (by decide) (by decide)
          dsimp only
          split
          · exact hpop.transKeeps (emitMovMRDisp _ _ _ _ _).keeps
          · exact hpop
        · exact foldlKeeps _ (fun piece mem => ih _ _ _) _ _

theorem generatePush (ast : AST) (reg : Register) :
    ∀ (fuel : ℕ) (offset : ℤ) (type : TypeId) (piece : BytecodePiece),
      Emits (Grows (0 < ast.slotsTo fuel type)) piece
        (generatePush ast reg fuel offset type piece) := by
  intro fuel
  induction fuel with
  | zero => exact fun _ _ piece => (refl piece).mono (by simp [AST.slotsTo])
  | succ fuel ih =>
      intro offset type piece
      unfold TinCompiler.generatePush
      split
      · exact ((emitMovRMDisp piece reg _ offset (by decide) (by decide)).keep trivial
          (emitPush _ (by decide)).keeps).mono fun _ => trivial
      · next s hs =>
          refine (foldl _ _ (fun piece mem => ih _ _ _) _ _).mono fun hslots => ?_
          unfold AST.slotsTo at hslots
          rw [hs] at hslots
          split at hslots
          · exact absurd hslots (by simp)
          · -- some member has a slot, or the sum would be 0
            by_contra hnone
            refine absurd (List.sum_eq_zero_iff_forall_eq_nat.mpr fun n hn => ?_) hslots.ne'
            obtain ⟨mem, hmem, rfl⟩ := List.mem_map.mp hn
            exact Nat.eq_zero_of_not_pos fun hpos => hnone ⟨mem, hmem, hpos⟩

theorem emitCallSequence (ast : AST) (f : ℕ) (function : ASTFunction) (argDiff : ℤ)
    (piece : BytecodePiece) : Emits KeepsSolid piece (emitCallSequence ast f function argDiff piece) := by
  have hmov : ∀ piece : BytecodePiece, Emits KeepsSolid piece (piece.emitMovRR .b .sp) :=
    fun piece => (emitMovRR piece .sp (by decide) (by decide)).keeps
  have hincr : ∀ piece : BytecodePiece,
      Emits KeepsSolid piece (piece.emitIncr .sp function.parametersSize) :=
    fun piece => (emitIncr piece _ (by decide)).keeps
  have hcall := ((hmov piece).transKeeps
    (foldlKeeps _ (fun _ _ => generatePop _ _ _ _ _) function.parameters.reverse _)).transKeeps
    (emitCall (popArguments ast argDiff function.parameters (piece.emitMovRR .b .sp)) f).keeps
  unfold TinCompiler.emitCallSequence
  dsimp only
  split
  · exact ((hcall.transKeeps (hmov _)).transKeeps (hincr _)).transKeeps
      (generatePush _ _ _ _ _ _).keeps
  · exact hcall.transKeeps (hincr _)

end Emits

/-- Nothing is popped for a type without slots. -/
theorem generatePop_eq_self (ast : AST) {reg : Register} :
    ∀ (fuel : ℕ) (offset : ℤ) (type : TypeId) (piece : BytecodePiece),
      ast.slotsTo fuel type = 0 → generatePop ast reg fuel offset type piece = piece := by
  intro fuel
  induction fuel with
  | zero => exact fun _ _ _ _ => rfl
  | succ fuel ih =>
      intro offset type piece hslots
      unfold generatePop
      unfold AST.slotsTo at hslots
      split
      · rfl
      · next hvoid =>
          rw [if_neg hvoid] at hslots
          split
          · next hs =>
              rw [hs] at hslots
              cases hslots
          · next s hs =>
              rw [hs] at hslots
              have hmem : ∀ mem ∈ (ast.structures s).members.reverse,
                  ast.slotsTo fuel mem.typeId = 0 := fun mem hmem =>
                List.sum_eq_zero_iff_forall_eq_nat.mp hslots _ (List.mem_map_of_mem (List.mem_reverse.mp hmem))
              generalize (ast.structures s).members.reverse = members at hmem
              induction members with
              | nil => rfl
              | cons mem members ihmem =>
                  rw [List.foldl_cons, ih _ _ _ (hmem mem (by simp))]
                  exact ihmem fun mem h => hmem mem (by simp [h])

/-! ## What every computation keeps -/

/-- Whatever the context is, `x` keeps all but the pushes at the end. -/
def GeneratorM.Keeping {α : Type} (x : GeneratorM α) : Prop :=
  ∀ c, Emits KeepsSolid c.piece (x c).2.piece

namespace GeneratorM.Keeping

variable {α β : Type}

theorem pure (a : α) : (Pure.pure a : GeneratorM α).Keeping := fun c => (Emits.refl c.piece).keeps

theorem bind {x : GeneratorM α} {f : α → GeneratorM β} (hx : x.Keeping)
    (hf : ∀ a, (f a).Keeping) : (x >>= f).Keeping :=
  fun c => (hx c).transKeeps (hf _ _)

theorem getContext : getContext.Keeping := fun c => (Emits.refl c.piece).keeps

theorem emit {f : BytecodePiece → BytecodePiece} (hf : ∀ piece, Emits KeepsSolid piece (f piece)) :
    (emit f).Keeping := fun c => hf c.piece

theorem report (location : SourceLocation) (message : String) :
    (report location message).Keeping := fun c => (Emits.refl c.piece).keeps

theorem abandon (location : SourceLocation) : (abandon location).Keeping :=
  fun c => (Emits.refl c.piece).keeps

theorem setBytecode (bytecode : Bytecode) :
    (modifyContext fun c => { c with bytecode := bytecode }).Keeping :=
  fun c => (Emits.refl c.piece).keeps

theorem failWith (location : SourceLocation) (message : String) :
    (failWith location message).Keeping := fun c => (Emits.refl c.piece).keeps

theorem giveUp (location : SourceLocation) : (giveUp location).Keeping :=
  fun c => (Emits.refl c.piece).keeps

theorem popValue (reg : Register) (offset : ℤ) (type : TypeId) :
    (popValue reg offset type).Keeping := fun _ => Emits.generatePop _ _ _ _ _

theorem pushValue (reg : Register) (offset : ℤ) (type : TypeId) :
    (pushValue reg offset type).Keeping := fun _ => (Emits.generatePush _ _ _ _ _ _).keeps

theorem performCast (ltype rtype : TypeId) : (performCast ltype rtype).Keeping := by
  unfold TinCompiler.performCast
  split
  · exact pure false
  · exact (emit fun piece => (Emits.emitConversion _ piece).keeps).bind fun _ => pure true

theorem emitPop {reg : Register} (hsp : reg ≠ .sp) (hpc : reg ≠ .pc) :
    (TinCompiler.emit fun piece => piece.emitPop reg).Keeping :=
  emit fun piece => Emits.emitPop piece hsp hpc

/-- `emit_li` and `emit_push` of a constant. -/
theorem emitConst (imm : ℤ) :
    (TinCompiler.emit fun piece => (piece.emitLi .a imm).emitPush .a).Keeping :=
  emit fun piece => (Emits.emitLi piece imm (by decide) (by decide)).keeps.transKeeps
    (Emits.emitPush _ (by decide)).keeps

theorem generateConst (e : ASTExpression) : (generateConst e).Keeping := by
  unfold TinCompiler.generateConst
  split
  · refine getContext.bind fun c => ?_
    dsimp only
    split
    · exact (emitConst _).bind fun _ => pure _
    · exact (report _ _).bind fun _ => (abandon _).bind fun _ => pure _
  case h_4 =>
    refine getContext.bind fun c => (setBytecode _).bind fun _ => bind (emit fun piece => ?_)
      fun _ => pure _
    exact (Emits.emitDataptr piece _ (by decide) (by decide)).keeps.transKeeps
      (Emits.emitPush _ (by decide)).keeps
  case h_9 => exact pure _
  all_goals exact (emitConst _).bind fun _ => pure _

theorem emitDataptr (offset : ℤ) :
    (TinCompiler.emit fun piece => piece.emitDataptr .b offset).Keeping :=
  emit fun piece => (Emits.emitDataptr piece offset (by decide) (by decide)).keeps

theorem generateIdentifier (name : String) (location : SourceLocation) :
    (generateIdentifier name location).Keeping := by
  refine getContext.bind fun c => ?_
  split
  · exact failWith _ _
  · split
    · exact (pushValue _ _ _).bind fun _ => pure _
    · exact (emitDataptr _).bind fun _ => (pushValue _ _ _).bind fun _ => pure _
    · split
      · split
        · exact generateConst _
        · exact failWith _ _
      · exact failWith _ _

theorem checkArguments (location : SourceLocation) (i : ℕ) (parameters : List Parameter)
    (types : List TypeId) : (checkArguments location i parameters types).Keeping := by
  intro c
  rw [checkArguments_piece location i parameters types c]
  exact (Emits.refl c.piece).keeps

theorem finishCall (name : String) (location : SourceLocation) (f : ℕ) (function : ASTFunction)
    (argOffset : ℤ) (types : List TypeId) :
    (finishCall name location f function argOffset types).Keeping := by
  unfold TinCompiler.finishCall
  split
  · exact failWith _ _
  · refine (checkArguments _ _ _ _).bind fun failed => ?_
    split
    · exact giveUp _
    · exact getContext.bind fun _ =>
        (emit fun piece => Emits.emitCallSequence _ _ _ _ piece).bind fun _ => pure _

theorem emitIncr (amount : ℤ) :
    (TinCompiler.emit fun piece => piece.emitIncr .sp amount).Keeping :=
  emit fun piece => (Emits.emitIncr piece amount (by decide)).keeps

theorem generateCall (name : String) (location : SourceLocation)
    {arguments : GeneratorM (List TypeId)} (harguments : arguments.Keeping) :
    (generateCall name location arguments).Keeping := by
  refine getContext.bind fun c => ?_
  split
  · exact failWith _ _
  · exact (emitIncr _).bind fun _ => getContext.bind fun _ => harguments.bind fun _ =>
      finishCall _ _ _ _ _ _

theorem generateBinary (kind : BinaryKind) (location : SourceLocation) (ltype rtype : TypeId) :
    (generateBinary kind location ltype rtype).Keeping := by
  refine getContext.bind fun c => ?_
  split
  · exact (emit fun piece => (Emits.emitBinary _ _ _ _ _ piece).keeps).bind fun _ => pure _
  · split
    · exact failWith _ _
    · exact giveUp _

theorem generateNot (type : TypeId) : (generateNot type).Keeping :=
  bind (emit fun piece => (Emits.emitNotValue piece).keeps) fun _ => pure _

theorem generateDeref (location : SourceLocation) (type : TypeId) :
    (generateDeref location type).Keeping := by
  unfold TinCompiler.generateDeref
  split
  · exact failWith _ _
  · exact (emitPop (by decide) (by decide)).bind fun _ => (pushValue _ _ _).bind fun _ => pure _

theorem generateIndex (location : SourceLocation) (rtype ltype : TypeId) :
    (generateIndex location rtype ltype).Keeping := by
  refine getContext.bind fun c => ?_
  split
  · exact failWith _ _
  · split
    · exact failWith _ _
    · refine (emit fun piece => ?_).bind fun _ => (pushValue _ _ _).bind fun _ => pure _
      exact ((Emits.emitPop piece (by decide) (by decide)).transKeeps
        (Emits.emitPop _ (by decide) (by decide))).transKeeps (Emits.emitElement _ _).keeps

theorem generateCast (name : String) (location : SourceLocation) (type : TypeId) :
    (generateCast name location type).Keeping := by
  refine getContext.bind fun c => ?_
  dsimp only
  split
  · exact (emit fun piece => (Emits.emitConversion _ piece).keeps).bind fun _ => pure _
  · exact failWith _ _

theorem placeIdentifier (name : String) (location : SourceLocation) :
    (placeIdentifier name location).Keeping := by
  refine getContext.bind fun c => ?_
  split
  · exact (report _ _).bind fun _ => pure _
  · split
    · exact pure _
    · exact (emitDataptr _).bind fun _ => pure _
    · exact (report _ _).bind fun _ => pure _

theorem placeMember (previous name : String) (location : SourceLocation) (place : Place) :
    (placeMember previous name location place).Keeping := by
  refine getContext.bind fun c => ?_
  split
  · split
    · exact (report _ _).bind fun _ => pure _
    · split
      · exact pure _
      · exact (emit fun piece => (Emits.emitLoadPointer _ piece).keeps).bind fun _ => pure _
  · exact (report _ _).bind fun _ => pure _

theorem finishElement (location : SourceLocation) (place : Place) (rtype : TypeId) :
    (finishElement location place rtype).Keeping := by
  refine getContext.bind fun c => ?_
  split
  · exact (report _ _).bind fun _ => pure _
  · refine (emit fun piece => ?_).bind fun _ => pure _
    exact ((Emits.emitPop piece (by decide) (by decide)).transKeeps
      (Emits.emitPop _ (by decide) (by decide))).transKeeps (Emits.emitElement _ _).keeps

theorem pushPointer (place : Place) :
    (TinCompiler.emit fun piece => (emitLoadPointer place piece).emitPush .b).Keeping :=
  emit fun piece => (Emits.emitLoadPointer place piece).keeps.transKeeps
    (Emits.emitPush _ (by decide)).keeps

theorem placeIndex (location : SourceLocation) {right : GeneratorM TypeId}
    (hright : right.Keeping) (place : Place) : (placeIndex location right place).Keeping := by
  unfold TinCompiler.placeIndex
  split
  · exact (pushPointer place).bind fun _ => hright.bind fun _ => finishElement _ _ _
  · exact getContext.bind fun _ => (report _ _).bind fun _ => pure _

theorem bindPlace {place : GeneratorM (Option Place)} {next : Place → GeneratorM (Option Place)}
    (hplace : place.Keeping) (hnext : ∀ place, (next place).Keeping) :
    (bindPlace place next).Keeping := by
  refine hplace.bind fun place => ?_
  cases place with
  | none => exact pure none
  | some place => exact hnext place

theorem referenceTo (location : SourceLocation) (invalid : Option SourceLocation)
    {place : GeneratorM (Option Place)} (hplace : place.Keeping) :
    (referenceTo location invalid place).Keeping := by
  unfold TinCompiler.referenceTo
  split
  · exact failWith _ _
  · refine hplace.bind fun place => ?_
    split
    · exact giveUp _
    · exact (emit fun piece => (Emits.emitAddress _ piece).keeps).bind fun _ => pure _

theorem generateMemberValue (location : SourceLocation) (type : TypeId) :
    (generateMemberValue location type).Keeping := by
  unfold TinCompiler.generateMemberValue
  split
  · exact (emitPop (by decide) (by decide)).bind fun _ => (pushValue _ _ _).bind fun _ => pure _
  · exact giveUp _

theorem generateAssign (location : SourceLocation) (rtype ltype : TypeId) :
    (generateAssign location rtype ltype).Keeping := by
  unfold TinCompiler.generateAssign
  split
  · split
    · exact (emitPop (by decide) (by decide)).bind fun _ => (popValue _ _ _).bind fun _ =>
        (pushValue _ _ _).bind fun _ => pure _
    · exact failWith _ _
  · exact giveUp _

theorem generateStep (kind : StepKind) (location : SourceLocation) (type : TypeId) :
    (generateStep kind location type).Keeping := by
  refine getContext.bind fun c => ?_
  split
  · split
    · exact (emit fun piece => Emits.emitStep _ piece).bind fun _ => pure _
    · exact failWith _ _
  · exact giveUp _

mutual

theorem generateExpression : ∀ e : ASTExpression, (TinCompiler.generateExpression e).Keeping
  | .identifier name location => generateIdentifier name location
  | .functionCall name arguments location =>
      generateCall name location (generateArguments arguments)
  | .binary _ left right _ =>
      (generateExpression left).bind fun _ => (generateExpression right).bind fun _ =>
        generateBinary _ _ _ _
  | .not left _ => (generateExpression left).bind fun _ => generateNot _
  | .refer left _ => (generateReference left).bind fun _ => pure _
  | .deref left _ => (generateExpression left).bind fun _ => generateDeref _ _
  | .index left right _ =>
      (generateExpression right).bind fun _ => (generateExpression left).bind fun _ =>
        generateIndex _ _ _
  | .member left _ _ =>
      (referenceTo _ _ ((generatePlace left).bindPlace fun _ => placeMember _ _ _ _)).bind fun _ =>
        generateMemberValue _ _
  | .cast left _ _ => (generateExpression left).bind fun _ => generateCast _ _ _
  | .assign left right _ =>
      (generateExpression right).bind fun _ => (generateReference left).bind fun _ =>
        generateAssign _ _ _
  | .step _ left _ => (generateReference left).bind fun _ => generateStep _ _ _
  | .sizeof .. | .literalInt .. | .literalFloat .. | .literalStr .. | .literalChar ..
  | .literalNull .. | .literalTrue .. | .literalFalse .. => generateConst _

theorem generateArguments :
    ∀ arguments : List ASTExpression, (TinCompiler.generateArguments arguments).Keeping
  | [] => pure _
  | arg :: arguments =>
      (generateExpression arg).bind fun _ => (generateArguments arguments).bind fun _ =>
        pure _

theorem generateReference : ∀ e : ASTExpression, (TinCompiler.generateReference e).Keeping
  | .deref left _ => (generateExpression left).bind fun _ => pure _
  | .identifier name location => referenceTo _ _ (placeIdentifier name location)
  | .member left _ _ =>
      referenceTo _ _ ((generatePlace left).bindPlace fun _ => placeMember _ _ _ _)
  | .index left right _ =>
      referenceTo _ _ ((generatePlace left).bindPlace (placeIndex _ (generateExpression right)))
  | .functionCall .. | .binary .. | .not .. | .refer .. | .cast .. | .assign .. | .step ..
  | .sizeof .. | .literalInt .. | .literalFloat .. | .literalStr .. | .literalChar ..
  | .literalNull .. | .literalTrue .. | .literalFalse .. => failWith _ _

theorem generatePlace : ∀ e : ASTExpression, (TinCompiler.generatePlace e).Keeping
  | .identifier name location => placeIdentifier name location
  | .member left _ _ => (generatePlace left).bindPlace fun _ => placeMember _ _ _ _
  | .index left right _ =>
      (generatePlace left).bindPlace (placeIndex _ (generateExpression right))
  | .functionCall .. | .binary .. | .not .. | .refer .. | .deref .. | .cast .. | .assign ..
  | .step .. | .sizeof .. | .literalInt .. | .literalFloat .. | .literalStr .. | .literalChar ..
  | .literalNull .. | .literalTrue .. | .literalFalse .. => pure _

end

end GeneratorM.Keeping

/-! ## What the nodes add -/

/-- How `x` changes the code in the context `c`; it settles where `firm` holds. -/
def GeneratorM.GrowsIf {α : Type} (x : GeneratorM α) (c : GeneratorContext) (firm : Prop) : Prop :=
  Emits (Grows firm) c.piece (x c).2.piece

namespace GeneratorM.GrowsIf

variable {α β : Type} {x : GeneratorM α} {f : α → GeneratorM β} {c : GeneratorContext}
  {firm firm' : Prop}

theorem mono (h : x.GrowsIf c firm) (hfirm : firm' → firm) : x.GrowsIf c firm' :=
  Emits.mono h hfirm

theorem same (hpiece : (x c).2.piece = c.piece) : x.GrowsIf c False := by
  unfold GrowsIf
  rw [hpiece]
  exact Emits.refl c.piece

theorem bind {r : α} (hx : x.GrowsIf c firm) (hresult : (x c).1 = r)
    (hf : (f r).GrowsIf (x c).2 firm') : (x >>= f).GrowsIf c (firm ∨ firm') := by
  subst hresult
  exact Emits.trans hx hf

theorem keep (hx : x.GrowsIf c firm) (hfirm : firm) (hf : ∀ a, (f a).Keeping) :
    (x >>= f).GrowsIf c True :=
  Emits.keep hx hfirm (hf _ _)

theorem map {g : α → β} (h : x.GrowsIf c firm) : (do return g (← x)).GrowsIf c firm := h

end GeneratorM.GrowsIf

theorem AST.slots_refer_deref {ast : AST} {type : TypeId} (h : 0 < ast.slots type.deref.refer) :
    0 < ast.slots type := by
  by_cases hlevel : type.pointerLevel = 0
  · have heq : type.deref.refer = type := by
      obtain ⟨index, level⟩ := type
      obtain rfl : level = 0 := hlevel
      simp [TypeId.deref, TypeId.refer, TypeId.setPointerLevel]
    exact heq ▸ h
  · rw [slots_of_pointer hlevel]
    exact Nat.one_pos

/-- The type of a value or the type of its address has a slot. -/
theorem AST.slots_refer_or {ast : AST} (type : TypeId) :
    0 < ast.slots type.refer ∨ 0 < ast.slots type := by
  by_cases hlevel : type.refer.pointerLevel = 0
  · refine .inr ?_
    rw [slots_of_pointer]
    · exact Nat.one_pos
    · intro hzero
      simp [TypeId.refer, TypeId.setPointerLevel, hzero] at hlevel
  · rw [slots_of_pointer hlevel]
    exact .inl Nat.one_pos

section Nodes

variable {c : GeneratorContext}

theorem generateConst_grows {e : ASTExpression} (hconst : e.isConst)
    (hquiet : (generateConst e).Quiet c) : (generateConst e).GrowsIf c True := by
  have hli : ∀ (imm : ℤ) (piece : BytecodePiece),
      Emits (Grows True) piece ((piece.emitLi .a imm).emitPush .a) := fun imm piece =>
    (Emits.emitLi piece imm (by decide) (by decide)).keep trivial (Emits.emitPush _ (by decide)).keeps
  cases e with
  | sizeof name location =>
      unfold GeneratorM.GrowsIf
      unfold GeneratorM.Quiet at hquiet
      rw [generateConst, getContext_bind_apply, GeneratorM.ite_apply] at hquiet ⊢
      split
      · exact hli _ _
      · next hvalid =>
          rw [if_neg hvalid] at hquiet
          exact (not_quiet_report _ _ ((GeneratorM.Framed.abandon _).bind fun _ => .pure _) c
            hquiet).elim
  | literalStr text location =>
      exact (Emits.emitDataptr c.piece _ (by decide) (by decide)).keep trivial
        (Emits.emitPush _ (by decide)).keeps
  | literalInt | literalFloat | literalChar | literalNull | literalTrue | literalFalse =>
      exact hli _ _
  | _ => cases hconst

theorem pushValue_grows (reg : Register) (offset : ℤ) (type : TypeId) (c : GeneratorContext) :
    (pushValue reg offset type).GrowsIf c (0 < c.ast.slots type) :=
  Emits.generatePush c.ast reg c.ast.depth offset type c.piece

theorem generateIdentifier_grows (name : String)
    (location : SourceLocation) (hquiet : (generateIdentifier name location).Quiet c) :
    (generateIdentifier name location).GrowsIf c
      (0 < c.ast.slots (identifierType c.ast c.currentScopeId name)) := by
  unfold generateIdentifier GeneratorM.GrowsIf identifierType
  unfold generateIdentifier GeneratorM.Quiet at hquiet
  rw [getContext_bind_apply] at hquiet ⊢
  cases hfind : c.ast.findVariable name c.currentScopeId with
  | none => rw [hfind] at hquiet; exact (not_quiet_failWith _ _ c hquiet).elim
  | some identifier =>
      rw [hfind] at hquiet
      dsimp only at hquiet ⊢
      cases hkind : identifier.kind with
      | localId => exact pushValue_grows .bp identifier.offset identifier.type c
      | globalId =>
          have hpush := pushValue_grows .b 0 identifier.type
            (c.withPiece (c.piece.emitDataptr .b identifier.offset))
          have hdata : Emits (Grows True) c.piece (c.piece.emitDataptr .b identifier.offset) :=
            Emits.emitDataptr c.piece identifier.offset (by decide) (by decide)
          exact (hdata.keep trivial (Emits.keeps hpush)).mono fun _ => trivial
      | constId =>
          rw [hkind] at hquiet
          dsimp only at hquiet ⊢
          cases hconstant : identifier.constant with
          | none => rw [hconstant] at hquiet; exact (not_quiet_failWith _ _ c hquiet).elim
          | some e =>
              rw [hconstant] at hquiet
              dsimp only at hquiet ⊢
              rw [GeneratorM.ite_apply] at hquiet ⊢
              by_cases hconst : e.isConst
              · rw [if_pos hconst] at hquiet ⊢
                rw [if_pos hconst]
                exact (generateConst_grows hconst hquiet).mono fun _ => trivial
              · rw [if_neg hconst] at hquiet
                exact (not_quiet_failWith _ _ c hquiet).elim

/-- The space for the parameters is made first. -/
theorem generateCall_grows (name : String) (location : SourceLocation)
    {arguments : GeneratorM (List TypeId)} (harguments : arguments.Keeping)
    (hquiet : (generateCall name location arguments).Quiet c) :
    (generateCall name location arguments).GrowsIf c True := by
  unfold generateCall GeneratorM.GrowsIf
  unfold generateCall GeneratorM.Quiet at hquiet
  rw [getContext_bind_apply] at hquiet ⊢
  cases hfind : c.ast.findFunction name c.currentScopeId with
  | none => rw [hfind] at hquiet; exact (not_quiet_failWith _ _ c hquiet).elim
  | some f =>
      have hincr : (emit fun piece => piece.emitIncr .sp (-(c.ast.functions f).parametersSize)).GrowsIf
          c True := Emits.emitIncr c.piece _ (show Register.sp ≠ .pc by decide)
      exact hincr.keep trivial fun _ => GeneratorM.Keeping.getContext.bind fun _ =>
        harguments.bind fun _ => .finishCall _ _ _ _ _ _

theorem generateBinary_grows (kind : BinaryKind) (location : SourceLocation)
    {ltype rtype : TypeId} (hquiet : (generateBinary kind location ltype rtype).Quiet c) :
    (generateBinary kind location ltype rtype).GrowsIf c
      (0 < c.ast.slots (((binaryTypes kind ltype rtype).map Prod.fst).getD .void)) := by
  unfold generateBinary GeneratorM.GrowsIf
  unfold generateBinary GeneratorM.Quiet at hquiet
  rw [getContext_bind_apply] at hquiet ⊢
  cases htypes : binaryTypes kind ltype rtype with
  | some types =>
      exact (Emits.emitBinary c.ast kind ltype rtype types.2 c.piece).mono fun _ => trivial
  | none =>
      rw [htypes] at hquiet
      dsimp only at hquiet ⊢
      rw [GeneratorM.ite_apply] at hquiet ⊢
      split
      · next hreport =>
          rw [if_pos hreport] at hquiet
          exact (not_quiet_failWith _ _ c hquiet).elim
      · exact (Emits.refl c.piece).mono fun h => by simp [AST.slots_void] at h

theorem generateNot_grows (type : TypeId) : (generateNot type).GrowsIf c False :=
  Emits.emitNotValue c.piece

theorem generateCast_grows (name : String) (location : SourceLocation) {type : TypeId}
    (hquiet : (generateCast name location type).Quiet c) :
    (generateCast name location type).GrowsIf c False := by
  unfold generateCast GeneratorM.GrowsIf
  unfold generateCast GeneratorM.Quiet at hquiet
  rw [getContext_bind_apply] at hquiet ⊢
  cases hcast : explicitCast type (c.ast.convertFullType name c.currentScopeId) with
  | none => rw [hcast] at hquiet; exact (not_quiet_failWith _ _ c hquiet).elim
  | some conversion => exact Emits.emitConversion conversion c.piece

theorem placeIdentifier_grows (name : String) (location : SourceLocation) :
    (placeIdentifier name location).GrowsIf c
      (∃ place, (placeIdentifier name location c).1 = some place ∧ place.isLocal = false) := by
  unfold placeIdentifier GeneratorM.GrowsIf
  rw [getContext_bind_apply]
  cases hfind : c.ast.findVariable name c.currentScopeId with
  | none => exact (Emits.refl c.piece).mono fun ⟨_, h, _⟩ => nomatch h
  | some identifier =>
      dsimp only
      cases hkind : identifier.kind with
      | localId =>
          refine (Emits.refl c.piece).mono ?_
          rintro ⟨place, hplace, hlocal⟩
          obtain rfl := Option.some.inj hplace
          cases hlocal
      | globalId =>
          exact (Emits.emitDataptr c.piece _ (by decide) (by decide)).mono fun _ => trivial
      | constId => exact (Emits.refl c.piece).mono fun ⟨_, h, _⟩ => nomatch h

/-- A place that is not an offset to `bp` any more has become so by an instruction. -/
def PlaceGrows (next : Place → GeneratorM (Option Place)) : Prop :=
  ∀ (place : Place) (c : GeneratorContext), (next place).GrowsIf c
    (∃ place', (next place c).1 = some place' ∧ place'.isLocal = false ∧ place.isLocal)

theorem placeMember_grows (previous name : String) (location : SourceLocation) :
    PlaceGrows (placeMember previous name location) := by
  intro place c
  unfold placeMember GeneratorM.GrowsIf
  rw [getContext_bind_apply, GeneratorM.ite_apply]
  split
  · cases hmember : memberOf c.ast previous name place.type with
    | error message => exact (Emits.refl c.piece).mono fun ⟨_, h, _⟩ => nomatch h
    | ok mem =>
        dsimp only
        rw [GeneratorM.ite_apply]
        split
        · refine (Emits.refl c.piece).mono ?_
          rintro ⟨place', hplace', hlocal', hlocal⟩
          obtain rfl := Option.some.inj hplace'
          exact Bool.false_ne_true (hlocal'.symm.trans hlocal)
        · exact (Emits.emitLoadPointer place c.piece).mono fun _ => trivial
  · exact (Emits.refl c.piece).mono fun ⟨_, h, _⟩ => nomatch h

theorem placeIndex_grows (location : SourceLocation) {right : GeneratorM TypeId}
    (hright : right.Keeping) : PlaceGrows (placeIndex location right) := by
  intro place c
  unfold placeIndex
  unfold GeneratorM.GrowsIf
  rw [GeneratorM.ite_apply]
  split
  · have hload : (emit fun piece => (emitLoadPointer place piece).emitPush .b).GrowsIf c True :=
      (Emits.emitLoadPointer place c.piece).keep trivial (Emits.emitPush _ (by decide)).keeps
    exact (hload.keep trivial fun _ => hright.bind fun _ => .finishElement _ _ _).mono
      fun _ => trivial
  · exact (Emits.refl c.piece).mono fun ⟨_, h, _⟩ => nomatch h

theorem bindPlace_grows {place : GeneratorM (Option Place)}
    {next : Place → GeneratorM (Option Place)}
    (hplace : place.GrowsIf c (∃ p, (place c).1 = some p ∧ p.isLocal = false))
    (hnext : PlaceGrows next) : (bindPlace place next).GrowsIf c
      (∃ p, (bindPlace place next c).1 = some p ∧ p.isLocal = false) := by
  unfold bindPlace
  unfold GeneratorM.GrowsIf
  rw [GeneratorM.bind_apply]
  cases heq : (place c).1 with
  | none =>
      refine hplace.mono ?_
      rintro ⟨_, h, _⟩
      cases h
  | some p =>
      refine (Emits.trans hplace (hnext p (place c).2)).mono ?_
      rintro ⟨p', hp', hlocal'⟩
      cases hlocal : p.isLocal with
      | false => exact .inl ⟨p, heq, hlocal⟩
      | true => exact .inr ⟨p', hp', hlocal', rfl⟩

theorem referenceTo_grows (location : SourceLocation) {invalid : Option SourceLocation}
    {place : GeneratorM (Option Place)} {amount : ℤ} (hframed : place.Framed)
    (hfound : invalid = none → PlaceMoves place c amount)
    (hplace : place.GrowsIf c (∃ p, (place c).1 = some p ∧ p.isLocal = false))
    (hquiet : (referenceTo location invalid place).Quiet c) :
    (referenceTo location invalid place).GrowsIf c True := by
  cases invalid with
  | some location => exact (not_quiet_failWith _ _ c hquiet).elim
  | none =>
      unfold referenceTo at hquiet ⊢
      obtain ⟨hquiet₁, -⟩ := hquiet.of_bind hframed fun place' => by
        cases place' with
        | none => exact .giveUp location
        | some place' => exact (GeneratorM.Framed.emit _).bind fun _ => .pure _
      obtain ⟨p, heq⟩ := Option.isSome_iff_exists.mp (hfound rfl hquiet₁).1
      unfold GeneratorM.GrowsIf
      dsimp only
      rw [GeneratorM.bind_apply, heq]
      refine (Emits.trans hplace (Emits.emitAddress p _)).mono fun _ => ?_
      cases hlocal : p.isLocal with
      | false => exact .inl ⟨p, heq, hlocal⟩
      | true => exact .inr rfl

end Nodes

/-! ## The recursion -/

/-- No word is taken away, and the value of a type with slots is pushed last. -/
def ExpressionGrows (e : ASTExpression) : Prop :=
  ∀ c : GeneratorContext, c.ast.HasPrimitives → (generateExpression e).Quiet c →
    (generateExpression e).GrowsIf c (0 < c.ast.slots (typeOf c.ast c.currentScopeId e))

def ReferenceGrows (e : ASTExpression) : Prop :=
  ∀ c : GeneratorContext, c.ast.HasPrimitives → (generateReference e).Quiet c →
    (generateReference e).GrowsIf c
      (0 < c.ast.slots (referenceType c.ast c.currentScopeId e).refer)

section Recursion

variable {left right : ASTExpression}

theorem ExpressionGrows.const {e : ASTExpression} (hconst : e.isConst)
    (hcode : generateExpression e = generateConst e) : ExpressionGrows e := by
  intro c _ hquiet
  rw [hcode] at hquiet ⊢
  exact (generateConst_grows hconst hquiet).mono fun _ => trivial

theorem ExpressionGrows.identifier (name : String) (location : SourceLocation) :
    ExpressionGrows (.identifier name location) := by
  intro c _ hquiet
  rw [generateExpression] at hquiet ⊢
  rw [typeOf]
  exact generateIdentifier_grows name location hquiet

theorem ExpressionGrows.functionCall (name : String) (arguments : List ASTExpression)
    (location : SourceLocation) : ExpressionGrows (.functionCall name arguments location) := by
  intro c _ hquiet
  rw [generateExpression] at hquiet ⊢
  exact (generateCall_grows name location (.generateArguments arguments) hquiet).mono
    fun _ => trivial

/-- A second operand, with its type in the context before the first one. -/
theorem ExpressionGrows.after (hright : ExpressionGrows right) {c c' : GeneratorContext}
    (hframe : SameFrame c c') (hprim : c.ast.HasPrimitives)
    (hquiet : (generateExpression right).Quiet c') :
    (generateExpression right c').1 = typeOf c.ast c.currentScopeId right ∧
      (generateExpression right).GrowsIf c'
        (0 < c.ast.slots (typeOf c.ast c.currentScopeId right)) := by
  have hgrows := hright c' (hframe.ast.symm ▸ hprim) hquiet
  rw [hframe.ast, hframe.currentScopeId] at hgrows
  exact ⟨by rw [generateExpression_fst, hframe.ast, hframe.currentScopeId], hgrows⟩

theorem ReferenceGrows.after (hleft : ReferenceGrows left) {c c' : GeneratorContext}
    (hframe : SameFrame c c') (hprim : c.ast.HasPrimitives)
    (hquiet : (generateReference left).Quiet c') :
    (generateReference left c').1 = referenceType c.ast c.currentScopeId left ∧
      (generateReference left).GrowsIf c'
        (0 < c.ast.slots (referenceType c.ast c.currentScopeId left).refer) := by
  have hgrows := hleft c' (hframe.ast.symm ▸ hprim) hquiet
  rw [hframe.ast, hframe.currentScopeId] at hgrows
  exact ⟨by rw [generateReference_fst, hframe.ast, hframe.currentScopeId], hgrows⟩

theorem ExpressionGrows.binary (kind : BinaryKind) (location : SourceLocation)
    (hleft : ExpressionGrows left) (hright : ExpressionGrows right) :
    ExpressionGrows (.binary kind left right location) := by
  intro c hprim hquiet
  rw [generateExpression] at hquiet ⊢
  obtain ⟨hquiet₁, hquiet₂⟩ := hquiet.of_bind (GeneratorM.Framed.generateExpression left)
    fun _ => (GeneratorM.Framed.generateExpression right).bind fun _ => .generateBinary _ _ _ _
  obtain ⟨hquiet₂, hquiet₃⟩ := hquiet₂.of_bind (GeneratorM.Framed.generateExpression right)
    fun _ => .generateBinary _ _ _ _
  have hframe := GeneratorM.Framed.generateExpression left c
  have hframe' := hframe.trans (GeneratorM.Framed.generateExpression right _)
  have hltype := generateExpression_fst left c
  obtain ⟨hrtype, hr⟩ := hright.after hframe hprim hquiet₂
  rw [hltype, hrtype] at hquiet₃
  have hnode := generateBinary_grows kind location hquiet₃
  rw [hframe'.ast] at hnode
  refine ((hleft c hprim hquiet₁).bind hltype (hr.bind hrtype hnode)).mono fun h => ?_
  rw [typeOf] at h
  exact .inr (.inr h)

theorem ExpressionGrows.not (location : SourceLocation) (hleft : ExpressionGrows left) :
    ExpressionGrows (.not left location) := by
  intro c hprim hquiet
  rw [generateExpression] at hquiet ⊢
  obtain ⟨hquiet₁, -⟩ := hquiet.of_bind (GeneratorM.Framed.generateExpression left)
    fun _ => .generateNot _
  refine ((hleft c hprim hquiet₁).bind (generateExpression_fst left c)
    (generateNot_grows _)).mono fun h => ?_
  rw [typeOf] at h
  exact .inl h

theorem ExpressionGrows.refer (location : SourceLocation) (hleft : ReferenceGrows left) :
    ExpressionGrows (.refer left location) := by
  intro c hprim hquiet
  rw [generateExpression] at hquiet ⊢
  refine (hleft c hprim hquiet.of_map).map.mono fun h => ?_
  rw [typeOf] at h
  exact h

theorem ExpressionGrows.deref (location : SourceLocation) (hleft : ExpressionGrows left) :
    ExpressionGrows (.deref left location) := by
  intro c hprim hquiet
  rw [generateExpression] at hquiet ⊢
  obtain ⟨hquiet₁, hquiet₂⟩ := hquiet.of_bind (GeneratorM.Framed.generateExpression left)
    fun _ => .generateDeref _ _
  rw [generateExpression_fst left c] at hquiet₂
  obtain ⟨hlevel, -⟩ := generateDeref_moves left.location hquiet₂
  refine ((hleft c hprim hquiet₁).keep ?_ fun _ => .generateDeref _ _).mono fun _ => trivial
  rw [AST.slots_of_pointer hlevel]
  exact Nat.one_pos

theorem ExpressionGrows.index (location : SourceLocation) (hleft : ExpressionGrows left)
    (hright : ExpressionGrows right) : ExpressionGrows (.index left right location) := by
  intro c hprim hquiet
  rw [generateExpression] at hquiet ⊢
  obtain ⟨hquiet₁, hquiet₂⟩ := hquiet.of_bind (GeneratorM.Framed.generateExpression right)
    fun _ => (GeneratorM.Framed.generateExpression left).bind fun _ => .generateIndex _ _ _
  obtain ⟨hquiet₂, hquiet₃⟩ := hquiet₂.of_bind (GeneratorM.Framed.generateExpression left)
    fun _ => .generateIndex _ _ _
  have hframe := GeneratorM.Framed.generateExpression right c
  obtain ⟨hltype, hl⟩ := hleft.after hframe hprim hquiet₂
  rw [hltype, generateExpression_fst right c] at hquiet₃
  obtain ⟨hlevel, -, -⟩ := generateIndex_moves left.location hquiet₃
  refine ((hright c hprim hquiet₁).bind rfl (hl.keep ?_ fun _ => .generateIndex _ _ _)).mono
    fun _ => .inr trivial
  rw [AST.slots_of_pointer hlevel]
  exact Nat.one_pos

theorem ExpressionGrows.cast (name : String) (location : SourceLocation)
    (hleft : ExpressionGrows left) : ExpressionGrows (.cast left name location) := by
  intro c hprim hquiet
  rw [generateExpression] at hquiet ⊢
  obtain ⟨hquiet₁, hquiet₂⟩ := hquiet.of_bind (GeneratorM.Framed.generateExpression left)
    fun _ => .generateCast _ _ _
  have hframe := GeneratorM.Framed.generateExpression left c
  have hltype := generateExpression_fst left c
  rw [hltype] at hquiet₂
  obtain ⟨hcast, -⟩ := generateCast_moves name location hquiet₂
  rw [hframe.ast, hframe.currentScopeId] at hcast
  refine ((hleft c hprim hquiet₁).bind hltype (generateCast_grows name location hquiet₂)).mono
    fun h => ?_
  rw [typeOf, if_pos hcast, ← hprim.slots_of_explicitCast hcast] at h
  exact .inl h

theorem ExpressionGrows.assign (location : SourceLocation) (hleft : ReferenceGrows left)
    (hright : ExpressionGrows right) : ExpressionGrows (.assign left right location) := by
  intro c hprim hquiet
  rw [generateExpression] at hquiet ⊢
  obtain ⟨hquiet₁, hquiet₂⟩ := hquiet.of_bind (GeneratorM.Framed.generateExpression right)
    fun _ => (GeneratorM.Framed.generateReference left).bind fun _ => .generateAssign _ _ _
  obtain ⟨hquiet₂, hquiet₃⟩ := hquiet₂.of_bind (GeneratorM.Framed.generateReference left)
    fun _ => .generateAssign _ _ _
  have hframe := GeneratorM.Framed.generateExpression right c
  have hrtype := generateExpression_fst right c
  obtain ⟨hltype, hl⟩ := hleft.after hframe hprim hquiet₂
  have hr := hright c hprim hquiet₁
  rw [hltype, hrtype] at hquiet₃
  generalize hlt : referenceType c.ast c.currentScopeId left = ltype at hl hquiet₃ hltype
  generalize hrt : typeOf c.ast c.currentScopeId right = rtype at hr hquiet₃ hrtype
  rw [typeOf, hlt, hrt]
  by_cases hassign : ltype.Valid ∧ rtype.Valid ∧ Assignable ltype rtype
  · -- either the address is pushed last, or what is assigned is a pointer
    rcases AST.slots_refer_or ltype with h | h
    · exact (hr.bind rfl (hl.keep h fun _ => .generateAssign _ _ _)).mono fun _ => .inr trivial
    · rw [AST.slots_of_assignable hassign.2.2] at h
      exact (hr.keep h fun _ => (GeneratorM.Keeping.generateReference left).bind fun _ =>
        .generateAssign _ _ _).mono fun _ => trivial
  · rw [if_neg hassign]
    have hnode : (generateAssign location rtype ltype).GrowsIf
        (generateReference left (generateExpression right c).2).2 False := by
      unfold generateAssign at hquiet₃ ⊢
      unfold GeneratorM.Quiet at hquiet₃
      rw [GeneratorM.ite_apply] at hquiet₃
      by_cases hvalid : ltype.Valid ∧ rtype.Valid
      · rw [if_pos hvalid, GeneratorM.ite_apply,
          if_neg fun h => hassign ⟨hvalid.1, hvalid.2, h⟩] at hquiet₃
        exact (not_quiet_failWith _ _ _ hquiet₃).elim
      · rw [if_neg hvalid]
        exact .same rfl
    refine (hr.bind hrtype (hl.bind hltype hnode)).mono fun h => ?_
    rw [AST.slots_void] at h
    exact absurd h (Nat.lt_irrefl 0)

theorem ExpressionGrows.step (kind : StepKind) (location : SourceLocation)
    (hleft : ReferenceGrows left) : ExpressionGrows (.step kind left location) := by
  intro c hprim hquiet
  rw [generateExpression] at hquiet ⊢
  obtain ⟨hquiet₁, hquiet₂⟩ := hquiet.of_bind (GeneratorM.Framed.generateReference left)
    fun _ => .generateStep _ _ _
  have hltype := generateReference_fst left c
  have hl := hleft c hprim hquiet₁
  rw [hltype] at hquiet₂
  generalize hlt : referenceType c.ast c.currentScopeId left = type at hl hquiet₂ hltype
  rw [typeOf, hlt]
  by_cases hvalid : type.Valid
  · obtain rfl := (generateStep_moves kind left.location hquiet₂).1 hvalid
    refine (hl.keep ?_ fun _ => .generateStep _ _ _).mono fun _ => trivial
    rw [AST.slots_of_pointer (by decide)]
    exact Nat.one_pos
  · have hnode : (generateStep kind left.location type).GrowsIf (generateReference left c).2 False := by
      refine .same ?_
      unfold generateStep
      rw [getContext_bind_apply, if_neg hvalid]
      rfl
    refine (hl.bind hltype hnode).mono fun h => ?_
    rw [TypeId.not_valid_iff.mp hvalid, if_neg (by decide), AST.slots_void] at h
    exact absurd h (Nat.lt_irrefl 0)

theorem ReferenceGrows.deref (location : SourceLocation) (hleft : ExpressionGrows left) :
    ReferenceGrows (.deref left location) := by
  intro c hprim hquiet
  rw [generateReference_deref] at hquiet ⊢
  refine (hleft c hprim hquiet.of_map).map.mono fun h => ?_
  have htype : referenceType c.ast c.currentScopeId (.deref left location) =
      (typeOf c.ast c.currentScopeId left).deref := rfl
  rw [htype] at h
  exact AST.slots_refer_deref h

/-- The places of a reference, whatever it is. -/
theorem generatePlace_grows (e : ASTExpression) (c : GeneratorContext) :
    (generatePlace e).GrowsIf c
      (∃ place, (generatePlace e c).1 = some place ∧ place.isLocal = false) := by
  cases e with
  | identifier name location => exact placeIdentifier_grows name location
  | member left name location =>
      exact bindPlace_grows (generatePlace_grows left c) (placeMember_grows left.name name location)
  | index left right location =>
      exact bindPlace_grows (generatePlace_grows left c)
        (placeIndex_grows location (.generateExpression right))
  | _ =>
      refine (GeneratorM.GrowsIf.same rfl).mono fun h => ?_
      obtain ⟨place, hplace, -⟩ := h
      cases hplace

theorem referenceToMember_grows (left : ASTExpression) (name : String) (location : SourceLocation)
    {c : GeneratorContext} (hprim : c.ast.HasPrimitives)
    (hquiet : (generateReference (.member left name location)).Quiet c) :
    (generateReference (.member left name location)).GrowsIf c True := by
  rw [generateReference_member] at hquiet ⊢
  exact referenceTo_grows location
    ((GeneratorM.Framed.generatePlace left).bindPlace fun _ => .placeMember left.name name _ _)
    (fun hvalid => (generatePlace_moves left).bindMember name location hprim hvalid)
    (bindPlace_grows (generatePlace_grows left c) (placeMember_grows left.name name location)) hquiet

theorem ReferenceGrows.identifier (name : String) (location : SourceLocation) :
    ReferenceGrows (.identifier name location) := by
  intro c _ hquiet
  rw [generateReference_identifier] at hquiet ⊢
  exact (referenceTo_grows location (.placeIdentifier name location)
    (fun _ => placeIdentifier_moves name location) (placeIdentifier_grows name location)
    hquiet).mono fun _ => trivial

theorem ReferenceGrows.member (left : ASTExpression) (name : String) (location : SourceLocation) :
    ReferenceGrows (.member left name location) :=
  fun _ hprim hquiet => (referenceToMember_grows left name location hprim hquiet).mono
    fun _ => trivial

theorem ReferenceGrows.index (left right : ASTExpression) (location : SourceLocation) :
    ReferenceGrows (.index left right location) := by
  intro c hprim hquiet
  rw [generateReference_index] at hquiet ⊢
  refine (referenceTo_grows location ?_ (fun hvalid => (generatePlace_moves left).bindIndex location
    (generateExpression_moves right) hprim hvalid) ?_ hquiet).mono fun _ => trivial
  · exact (GeneratorM.Framed.generatePlace left).bindPlace
      (.placeIndex _ (GeneratorM.Framed.generateExpression right))
  · exact bindPlace_grows (generatePlace_grows left c)
      (placeIndex_grows location (.generateExpression right))

theorem ExpressionGrows.member (left : ASTExpression) (name : String) (location : SourceLocation) :
    ExpressionGrows (.member left name location) := by
  intro c hprim hquiet
  rw [generateExpression_member] at hquiet ⊢
  obtain ⟨hquiet₁, -⟩ := hquiet.of_bind (GeneratorM.Framed.generateReference _)
    fun _ => .generateMemberValue _ _
  exact ((referenceToMember_grows left name location hprim hquiet₁).keep trivial
    fun _ => .generateMemberValue _ _).mono fun _ => trivial

end Recursion

mutual

theorem generateExpression_grows : ∀ e : ASTExpression, ExpressionGrows e
  | .identifier name location => .identifier name location
  | .functionCall name arguments location => .functionCall name arguments location
  | .binary kind left right location =>
      .binary kind location (generateExpression_grows left) (generateExpression_grows right)
  | .not left location => .not location (generateExpression_grows left)
  | .refer left location => .refer location (generateReference_grows left)
  | .deref left location => .deref location (generateExpression_grows left)
  | .index left right location =>
      .index location (generateExpression_grows left) (generateExpression_grows right)
  | .member left name location => .member left name location
  | .cast left name location => .cast name location (generateExpression_grows left)
  | .assign left right location =>
      .assign location (generateReference_grows left) (generateExpression_grows right)
  | .step kind left location => .step kind location (generateReference_grows left)
  | .sizeof .. | .literalInt .. | .literalFloat .. | .literalStr .. | .literalChar ..
  | .literalNull .. | .literalTrue .. | .literalFalse .. => .const rfl (by rw [generateExpression])

theorem generateReference_grows : ∀ e : ASTExpression, ReferenceGrows e
  | .deref left location => .deref location (generateExpression_grows left)
  | .identifier name location => .identifier name location
  | .member left name location => .member left name location
  | .index left right location => .index left right location
  | .functionCall .. | .binary .. | .not .. | .refer .. | .cast .. | .assign .. | .step ..
  | .sizeof .. | .literalInt .. | .literalFloat .. | .literalStr .. | .literalChar ..
  | .literalNull .. | .literalTrue .. | .literalFalse .. =>
      fun c _ hquiet => (not_quiet_failWith _ _ c hquiet).elim

end

end TinCompiler
