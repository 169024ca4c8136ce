import TinCompiler.Expressions.Types
import TinCompiler.Machine.StackEffect

/-!
# The stack effect of expressions

The code of an expression of type `T` should push `slots T` slots.  `excess` adds up where
the nodes of an expression miss this, from the types alone, and
`generateExpression_moves` shows that this is all there is: without a report the code moves
the stack pointer by `-8 * slots T + excess`.
-/

namespace TinCompiler

/-! ## Slots -/

namespace AST

variable {ast : AST}

/-- The number of values that `generatePop` pops. -/
def slotsTo (ast : AST) : ℕ → TypeId → ℕ
  | 0, _ => 0
  | fuel + 1, type =>
      if type = .void then 0
      else
        match ast.structOf type with
        | none => 1
        | some s => ((ast.structures s).members.map fun mem => slotsTo ast fuel mem.typeId).sum

/-- The number of values that `generatePush` pushes; it pushes one for `void`. -/
def leavesTo (ast : AST) : ℕ → TypeId → ℕ
  | 0, _ => 0
  | fuel + 1, type =>
      match ast.structOf type with
      | none => 1
      | some s => ((ast.structures s).members.map fun mem => leavesTo ast fuel mem.typeId).sum

/-- None for `void`, one for a scalar or a pointer, those of the members for a structure. -/
def slots (ast : AST) (type : TypeId) : ℕ := ast.slotsTo ast.depth type

def leaves (ast : AST) (type : TypeId) : ℕ := ast.leavesTo ast.depth type

/-- The values that are pushed for `void` in the type. -/
def voidLeaves (ast : AST) (type : TypeId) : ℤ := ast.leaves type - ast.slots type

theorem slots_void : ast.slots .void = 0 := by simp [slots, depth, slotsTo]

theorem slots_of_structOf {type : TypeId} (hvoid : type ≠ .void) (h : ast.structOf type = none) :
    ast.slots type = 1 := by
  simp [slots, depth, slotsTo, hvoid, h]

theorem leaves_of_structOf {type : TypeId} (h : ast.structOf type = none) : ast.leaves type = 1 := by
  simp [leaves, depth, leavesTo, h]

theorem structOf_of_pointer {type : TypeId} (hlevel : type.pointerLevel ≠ 0) :
    ast.structOf type = none := by
  simp [structOf, hlevel]

theorem slots_of_pointer {type : TypeId} (hlevel : type.pointerLevel ≠ 0) : ast.slots type = 1 :=
  slots_of_structOf (fun h => hlevel (by rw [h])) (structOf_of_pointer hlevel)

theorem leaves_of_pointer {type : TypeId} (hlevel : type.pointerLevel ≠ 0) : ast.leaves type = 1 :=
  leaves_of_structOf (structOf_of_pointer hlevel)

theorem HasPrimitives.slots (h : ast.HasPrimitives) {type : TypeId} (hlt : type.index < 5)
    (hvoid : type ≠ .void) : ast.slots type = 1 :=
  slots_of_structOf hvoid (h.structOf hlt)

theorem HasPrimitives.leaves (h : ast.HasPrimitives) {type : TypeId} (hlt : type.index < 5) :
    ast.leaves type = 1 :=
  leaves_of_structOf (h.structOf hlt)

theorem HasPrimitives.voidLeaves (h : ast.HasPrimitives) {type : TypeId} (hlt : type.index < 5)
    (hvoid : type ≠ .void) : ast.voidLeaves type = 0 := by
  rw [AST.voidLeaves, h.slots hlt hvoid, h.leaves hlt]
  rfl

theorem HasPrimitives.slots_of_small (h : ast.HasPrimitives) {type : TypeId}
    (hsmall : IsSmallInteger type) : ast.slots type = 1 := by
  rcases hsmall with rfl | rfl | rfl <;> exact h.slots (by decide) (by decide)

theorem slots_of_assignable {ltype rtype : TypeId} (h : Assignable ltype rtype) :
    ast.slots ltype = ast.slots rtype := by
  rcases h with rfl | ⟨rfl, hlevel⟩ | ⟨hlevel, rfl⟩
  · rfl
  · rw [slots_of_pointer (by decide), slots_of_pointer (by omega)]
  · rw [slots_of_pointer (by omega), slots_of_pointer (by decide)]

theorem HasPrimitives.slots_of_explicitCast (h : ast.HasPrimitives) {type castType : TypeId}
    (hcast : (explicitCast type castType).isSome) : ast.slots type = ast.slots castType := by
  unfold explicitCast at hcast
  split at hcast
  · next heq => rw [heq]
  · split at hcast
    · next hlevel => rw [slots_of_pointer (by omega), slots_of_pointer (by omega)]
    · split at hcast
      · next hsmall => rw [h.slots_of_small hsmall.1, h.slots_of_small hsmall.2]
      · split at hcast
        · next hnumber =>
            have hone : ∀ type : TypeId, type = .int ∨ type = .float → ast.slots type = 1 := by
              rintro _ (rfl | rfl) <;> exact h.slots (by decide) (by decide)
            rw [hone _ hnumber.1, hone _ hnumber.2]
        · cases hcast

end AST

/-! ## Pushing and popping values -/

theorem sum_map_mul {α : Type} (l : List α) (f : α → ℕ) (k : ℤ) :
    (l.map fun a => k * (f a : ℤ)).sum = k * ((l.map f).sum : ℕ) := by
  induction l with
  | nil => simp
  | cons a l ih => simp [ih, Int.mul_add]

/-- A loop over members, each of which moves the stack pointer. -/
theorem Moves.foldl {α : Type} (f : BytecodePiece → α → BytecodePiece) (amount : α → ℤ)
    (hf : ∀ piece a, Moves piece (f piece a) (amount a)) (l : List α) :
    ∀ piece, Moves piece (l.foldl f piece) (l.map amount).sum := by
  induction l with
  | nil => exact fun piece => .refl piece
  | cons a l ih => exact fun piece => (hf piece a).trans (ih _)

theorem generatePop_moves (ast : AST) {reg : Register} :
    ∀ (fuel : ℕ) (offset : ℤ) (type : TypeId) (piece : BytecodePiece),
      Moves piece (generatePop ast reg fuel offset type piece) (8 * ast.slotsTo fuel type) := by
  intro fuel
  induction fuel with
  | zero => exact fun _ _ piece => .refl piece
  | succ fuel ih =>
      intro offset type piece
      unfold generatePop AST.slotsTo
      by_cases hvoid : type = .void
      · simpa [hvoid] using Moves.refl piece
      · simp only [hvoid, if_false]
        cases ast.structOf type with
        | none =>
            have hpop : Moves piece (piece.emitPop .a) 8 :=
              Moves.emitPop piece (by decide) (by decide)
            dsimp only
            split
            · exact hpop.trans (Moves.emitMovMRDisp _ _ _ _ _)
            · exact hpop
        | some s =>
            have hloop := Moves.foldl
              (fun piece mem => generatePop ast reg fuel (offset + mem.offset) mem.typeId piece)
              (fun mem : Member => 8 * (ast.slotsTo fuel mem.typeId : ℤ))
              (fun piece mem => ih _ _ _) (ast.structures s).members.reverse piece
            refine hloop.of_eq ?_
            rw [List.map_reverse, List.sum_reverse, sum_map_mul]

theorem generatePush_moves (ast : AST) (reg : Register) :
    ∀ (fuel : ℕ) (offset : ℤ) (type : TypeId) (piece : BytecodePiece),
      Moves piece (generatePush ast reg fuel offset type piece) (-8 * ast.leavesTo fuel type) := by
  intro fuel
  induction fuel with
  | zero => exact fun _ _ piece => .refl piece
  | succ fuel ih =>
      intro offset type piece
      unfold generatePush AST.leavesTo
      cases ast.structOf type with
      | none =>
          exact (Moves.emitMovRMDisp piece reg _ offset (by decide) (by decide)).trans
            (Moves.emitPush _ .a)
      | some s =>
          have hloop := Moves.foldl
            (fun piece mem => generatePush ast reg fuel (offset + mem.offset) mem.typeId piece)
            (fun mem : Member => -8 * (ast.leavesTo fuel mem.typeId : ℤ))
            (fun piece mem => ih _ _ _) (ast.structures s).members piece
          exact hloop.of_eq (sum_map_mul _ _ _)

/-! ## Where the nodes miss the slots of their types -/

/-- The encoding of `parameters_size` in two instructions, and `void` in the returned type. -/
def callExcess (ast : AST) (scopeId : ScopeId) (name : String) : ℤ :=
  match ast.findFunction name scopeId with
  | none => 0
  | some f =>
      let function := ast.functions f
      encodedIncr (-function.parametersSize) + encodedIncr function.parametersSize -
        if function.returnType.Valid then 8 * ast.voidLeaves function.returnType else 0

/-- One slot is popped for each operand, whatever its type. -/
def binaryExcess (ast : AST) (kind : BinaryKind) (ltype rtype : TypeId) : ℤ :=
  match binaryTypes kind ltype rtype with
  | some (outType, _) => 8 * (ast.slots outType + 1 - ast.slots ltype - ast.slots rtype)
  | none => -8 * (ast.slots ltype + ast.slots rtype)

/-- The reference stays on the stack when the type is `void`. -/
def memberExcess (ast : AST) (type : TypeId) : ℤ :=
  if type.Valid then -8 * ast.voidLeaves type else -8

/-- The value and the reference stay on the stack when one of the types is `void`. -/
def assignExcess (ast : AST) (ltype rtype : TypeId) : ℤ :=
  if ltype.Valid ∧ rtype.Valid then -8 * ast.voidLeaves ltype else -8 * (ast.slots rtype + 1)

mutual

/-- By how much the code of an expression moves the stack pointer beyond the slots of its
type. -/
def excess (ast : AST) (scopeId : ScopeId) : ASTExpression → ℤ
  | .identifier name _ => -8 * ast.voidLeaves (identifierType ast scopeId name)
  | .functionCall name arguments _ =>
      argumentsExcess ast scopeId arguments + callExcess ast scopeId name
  | .binary kind left right _ =>
      excess ast scopeId left + excess ast scopeId right +
        binaryExcess ast kind (typeOf ast scopeId left) (typeOf ast scopeId right)
  | .not left _ => excess ast scopeId left
  | .refer left _ =>
      referenceExcess ast scopeId left + 8 * (ast.slots (referenceType ast scopeId left).refer - 1)
  | .deref left _ =>
      excess ast scopeId left + 8 * (ast.slots (typeOf ast scopeId left).deref - 1)
  | .index left right _ =>
      excess ast scopeId right + excess ast scopeId left -
        8 * ast.voidLeaves (typeOf ast scopeId left).deref
  | .member left name location =>
      placeExcess ast scopeId left + memberExcess ast (typeOf ast scopeId (.member left name location))
  | .cast left _ _ => excess ast scopeId left
  | .assign left right _ =>
      excess ast scopeId right + referenceExcess ast scopeId left +
        assignExcess ast (referenceType ast scopeId left) (typeOf ast scopeId right)
  | .step _ left _ =>
      referenceExcess ast scopeId left + if (referenceType ast scopeId left).Valid then 0 else -8
  | .sizeof .. | .literalInt .. | .literalFloat .. | .literalStr .. | .literalChar ..
  | .literalNull .. | .literalTrue .. | .literalFalse .. => 0

def argumentsExcess (ast : AST) (scopeId : ScopeId) : List ASTExpression → ℤ
  | [] => 0
  | arg :: arguments => excess ast scopeId arg + argumentsExcess ast scopeId arguments

/-- The same for a reference, whose code should push one slot. -/
def referenceExcess (ast : AST) (scopeId : ScopeId) : ASTExpression → ℤ
  | .deref left _ => excess ast scopeId left + 8 * (1 - ast.slots (typeOf ast scopeId left))
  | .identifier .. => 0
  | .member left _ _ => placeExcess ast scopeId left
  | .index left right _ => placeExcess ast scopeId left + excess ast scopeId right
  | _ => 0

/-- The same for a place, whose code should push nothing. -/
def placeExcess (ast : AST) (scopeId : ScopeId) : ASTExpression → ℤ
  | .member left _ _ => placeExcess ast scopeId left
  | .index left right _ => placeExcess ast scopeId left + excess ast scopeId right
  | _ => 0

end

section Equations

variable (ast : AST) (scopeId : ScopeId) (left right : ASTExpression) (name : String)
  (location : SourceLocation)

theorem referenceExcess_deref : referenceExcess ast scopeId (.deref left location) =
    excess ast scopeId left + 8 * (1 - ast.slots (typeOf ast scopeId left)) := rfl

theorem referenceExcess_identifier : referenceExcess ast scopeId (.identifier name location) = 0 :=
  rfl

theorem referenceExcess_member : referenceExcess ast scopeId (.member left name location) =
    placeExcess ast scopeId left := rfl

theorem referenceExcess_index : referenceExcess ast scopeId (.index left right location) =
    placeExcess ast scopeId left + excess ast scopeId right := rfl

theorem placeExcess_identifier : placeExcess ast scopeId (.identifier name location) = 0 := rfl

theorem placeExcess_member : placeExcess ast scopeId (.member left name location) =
    placeExcess ast scopeId left := rfl

theorem placeExcess_index : placeExcess ast scopeId (.index left right location) =
    placeExcess ast scopeId left + excess ast scopeId right := rfl

end Equations

/-! ## Computations without reports -/

/-- `x` reports nothing in the context `c`. -/
def GeneratorM.Quiet {α : Type} (x : GeneratorM α) (c : GeneratorContext) : Prop :=
  (x c).2.reporter = c.reporter

/-- Both parts of a computation that reports nothing report nothing. -/
theorem GeneratorM.Quiet.of_bind {α β : Type} {x : GeneratorM α} {f : α → GeneratorM β}
    {c : GeneratorContext} (h : (x >>= f).Quiet c) (hx : x.Framed) (hf : ∀ a, (f a).Framed) :
    x.Quiet c ∧ (f (x c).1).Quiet (x c).2 := by
  have hfirst := (hx c).reports
  have hsecond := (hf (x c).1 (x c).2).reports
  have hboth : (f (x c).1 (x c).2).2.reporter = c.reporter := h
  rw [hboth] at hsecond
  have hreports : (x c).2.reporter.reports = c.reporter.reports :=
    hsecond.eq_of_length_le hfirst.length_le
  have hreporter : (x c).2.reporter = c.reporter := congrArg Reporter.mk hreports
  exact ⟨hreporter, hboth.trans hreporter.symm⟩

theorem not_quiet_report {α : Type} (location : SourceLocation) (message : String)
    {f : Unit → GeneratorM α} (hf : (f ()).Framed) (c : GeneratorContext) :
    ¬ (report location message >>= f).Quiet c := by
  intro h
  have hlength := (hf (report location message c).2).reports.length_le
  have heq : (f () (report location message c).2).2.reporter = c.reporter := h
  rw [heq] at hlength
  simp only [report, Reporter.err, modifyContext_apply, List.length_append, List.length_singleton]
    at hlength
  omega

theorem not_quiet_failWith (location : SourceLocation) (message : String) (c : GeneratorContext) :
    ¬ (failWith location message).Quiet c :=
  not_quiet_report location message ((GeneratorM.Framed.abandon _).bind fun _ => .pure _) c

/-- The effect of `x` on the stack pointer. -/
def GeneratorM.MovesBy {α : Type} (x : GeneratorM α) (c : GeneratorContext) (amount : ℤ) : Prop :=
  Moves c.piece (x c).2.piece amount

theorem GeneratorM.MovesBy.of_eq {α : Type} {x : GeneratorM α} {c : GeneratorContext}
    {amount amount' : ℤ} (h : x.MovesBy c amount) (heq : amount = amount') : x.MovesBy c amount' :=
  heq ▸ h

/-! ## The nodes -/

section Nodes

variable {c : GeneratorContext}

theorem constType_primitive {e : ASTExpression} (hconst : e.isConst) :
    (constType e).index < 5 ∧ constType e ≠ .void := by
  cases e <;> simp_all [constType, ASTExpression.isConst, TypeId.setPointerLevel]

theorem emitLi_emitPush_moves (piece : BytecodePiece) (imm : ℤ) :
    Moves piece ((piece.emitLi .a imm).emitPush .a) (-8) :=
  (Moves.emitLi piece imm (by decide) (by decide)).trans (Moves.emitPush _ .a)

theorem generateConst_moves {e : ASTExpression} (hconst : e.isConst)
    (hquiet : (generateConst e).Quiet c) : (generateConst e).MovesBy c (-8) := by
  cases e with
  | sizeof name location =>
      unfold GeneratorM.MovesBy
      unfold GeneratorM.Quiet at hquiet
      rw [generateConst, getContext_bind_apply, GeneratorM.ite_apply] at hquiet ⊢
      split
      · exact emitLi_emitPush_moves _ _
      · next hvalid =>
          rw [if_neg hvalid] at hquiet
          exact (not_quiet_report _ _ ((GeneratorM.Framed.abandon _).bind fun _ => .pure _) c
            hquiet).elim
  | literalStr text location =>
      exact (Moves.emitDataptr c.piece _ (by decide) (by decide)).trans (Moves.emitPush _ .a)
  | literalInt | literalFloat | literalChar | literalNull | literalTrue | literalFalse =>
      exact emitLi_emitPush_moves _ _
  | _ => cases hconst

theorem pushValue_moves (reg : Register) (offset : ℤ) (type : TypeId) (c : GeneratorContext) :
    (pushValue reg offset type).MovesBy c (-8 * c.ast.leaves type) :=
  generatePush_moves c.ast reg c.ast.depth offset type c.piece

theorem popValue_moves (reg : Register) (offset : ℤ) (type : TypeId) (c : GeneratorContext) :
    (popValue reg offset type).MovesBy c (8 * c.ast.slots type) :=
  generatePop_moves c.ast c.ast.depth offset type c.piece

theorem generateIdentifier_moves (hprim : c.ast.HasPrimitives) (name : String)
    (location : SourceLocation) (hquiet : (generateIdentifier name location).Quiet c) :
    (generateIdentifier name location).MovesBy c
      (-8 * c.ast.leaves (identifierType c.ast c.currentScopeId name)) := by
  unfold generateIdentifier GeneratorM.MovesBy identifierType
  unfold generateIdentifier GeneratorM.Quiet at hquiet
  rw [getContext_bind_apply] at hquiet ⊢
  cases hfind : c.ast.findVariable name c.currentScopeId with
  | none => rw [hfind] at hquiet; exact (not_quiet_failWith _ _ c hquiet).elim
  | some identifier =>
      rw [hfind] at hquiet
      dsimp only at hquiet ⊢
      cases hkind : identifier.kind with
      | localId => exact pushValue_moves .bp identifier.offset identifier.type c
      | globalId =>
          have hpush := pushValue_moves .b 0 identifier.type
            (c.withPiece (c.piece.emitDataptr .b identifier.offset))
          have hboth := (Moves.emitDataptr c.piece identifier.offset (by decide) (by decide)).trans hpush
          exact hboth.of_eq (Int.zero_add _)
      | constId =>
          rw [hkind] at hquiet
          dsimp only at hquiet ⊢
          cases hconstant : identifier.constant with
          | none => rw [hconstant] at hquiet; exact (not_quiet_failWith _ _ c hquiet).elim
          | some e =>
              rw [hconstant] at hquiet
              dsimp only at hquiet ⊢
              rw [GeneratorM.ite_apply] at hquiet ⊢
              by_cases hconst : e.isConst
              · rw [if_pos hconst] at hquiet ⊢
                rw [if_pos hconst, hprim.leaves (constType_primitive hconst).1]
                exact generateConst_moves hconst hquiet
              · rw [if_neg hconst] at hquiet
                exact (not_quiet_failWith _ _ c hquiet).elim

theorem emitOperator_moves (kind : BinaryKind) (operandSize : ℕ) (isFloat : Bool)
    (piece : BytecodePiece) : Moves piece (emitOperator kind operandSize isFloat piece) 0 := by
  rw [emitOperator_eq]
  cases kind <;> exact Moves.emit piece rfl (by simp [operatorInst, Instruction.Sequential])
    (by simp [operatorInst, Instruction.SparesSp]) rfl

theorem emitConversion_moves (conversion : Option CastType) (piece : BytecodePiece) :
    Moves piece (emitConversion conversion piece) 0 := by
  cases conversion with
  | none => exact Moves.refl piece
  | some castType =>
      exact ((Moves.emitPop piece (by decide) (by decide)).trans
        (Moves.emitCast _ castType (by decide) (by decide))).trans (Moves.emitPush _ .a)

theorem emitElement_moves (size : ℕ) (piece : BytecodePiece) :
    Moves piece (emitElement size piece) 0 :=
  ((Moves.emitLi piece _ (by decide) (by decide)).trans
    (Moves.emitArithmetic _ .mul .c false (by decide) (by decide))).trans
    (Moves.emitArithmetic _ .add .a false (by decide) (by decide))

theorem emitLoadPointer_moves (place : Place) (piece : BytecodePiece) :
    Moves piece (emitLoadPointer place piece) 0 :=
  Moves.emitMovRMDisp piece _ 8 place.offset (by decide) (by decide)

theorem emitAddress_moves (place : Place) (piece : BytecodePiece) :
    Moves piece (emitAddress place piece) (-8) := by
  have hli : ∀ (reg from' : Register) (piece : BytecodePiece), reg ≠ .sp → reg ≠ .pc →
      Moves piece ((piece.emitLi reg place.offset).emitArithmetic .add .b from') 0 :=
    fun _ _ piece hsp hpc => (Moves.emitLi piece _ hsp hpc).trans
      (Moves.emitArithmetic _ .add _ false (by decide) (by decide))
  unfold emitAddress
  dsimp only
  split
  · split
    · exact (hli .b .bp piece (by decide) (by decide)).trans (Moves.emitPush _ .b)
    · exact (Moves.emitMovRR piece .bp (by decide) (by decide)).trans (Moves.emitPush _ .b)
  · split
    · exact (hli .a .a piece (by decide) (by decide)).trans (Moves.emitPush _ .b)
    · exact Moves.emitPush piece .b

theorem emitStep_moves (kind : StepKind) (piece : BytecodePiece) :
    Moves piece (emitStep kind piece) 0 := by
  have hload : Moves piece ((piece.emitPop .b).emitMovRM .a .b 4) 8 :=
    (Moves.emitPop piece (by decide) (by decide)).trans
      (Moves.emitMovRM _ .b 4 (by decide) (by decide))
  have hpre : ∀ (imm : ℤ) (piece : BytecodePiece),
      Moves piece ((piece.emitIncr .a imm).emitPush .a) (-8) := fun imm piece =>
    (Moves.emitIncr piece imm (by decide) (by decide)).trans (Moves.emitPush _ .a)
  have hpost : ∀ (imm : ℤ) (piece : BytecodePiece),
      Moves piece ((piece.emitPush .a).emitIncr .a imm) (-8) := fun imm piece =>
    (Moves.emitPush piece .a).trans (Moves.emitIncr _ imm (by decide) (by decide))
  cases kind
  · exact (hload.trans (hpre 1 _)).trans (Moves.emitMovMR _ .b .a 4)
  · exact (hload.trans (hpost 1 _)).trans (Moves.emitMovMR _ .b .a 4)
  · exact (hload.trans (hpre 1 _)).trans (Moves.emitMovMR _ .b .a 4)
  · exact (hload.trans (hpost (-1) _)).trans (Moves.emitMovMR _ .b .a 4)

theorem emitBinary_moves (ast : AST) (kind : BinaryKind) (ltype rtype : TypeId) (isFloat : Bool)
    (piece : BytecodePiece) : Moves piece (emitBinary ast kind ltype rtype isFloat piece) 8 := by
  have hcast : ∀ (b : Bool) (reg : Register) (piece : BytecodePiece), reg ≠ .sp → reg ≠ .pc →
      Moves piece (if b then piece.emitCast reg .intFloat else piece) 0 := by
    intro b reg piece hsp hpc
    split
    · exact Moves.emitCast piece _ hsp hpc
    · exact Moves.refl piece
  have hpop : ∀ piece : BytecodePiece, Moves piece (piece.emitPop .a) 8 :=
    fun piece => Moves.emitPop piece (by decide) (by decide)
  have hright := (Moves.emitPop piece (by decide) (by decide)).trans
    (hcast (isFloat && (rtype = .int || rtype = .char)) .d (piece.emitPop .d) (by decide) (by decide))
  have hleft := (hright.trans (hpop _)).trans
    (hcast (isFloat && (ltype = .int || ltype = .char)) .a _ (by decide) (by decide))
  exact (hleft.trans (emitOperator_moves kind _ isFloat _)).trans (Moves.emitPush _ .a)

theorem generateBinary_moves (kind : BinaryKind) (location : SourceLocation)
    {ltype rtype : TypeId} (hquiet : (generateBinary kind location ltype rtype).Quiet c) :
    (generateBinary kind location ltype rtype).MovesBy c
      (-8 * c.ast.slots (((binaryTypes kind ltype rtype).map Prod.fst).getD .void) +
        8 * (c.ast.slots ltype + c.ast.slots rtype) + binaryExcess c.ast kind ltype rtype) := by
  unfold generateBinary GeneratorM.MovesBy binaryExcess
  unfold generateBinary GeneratorM.Quiet at hquiet
  rw [getContext_bind_apply] at hquiet ⊢
  cases htypes : binaryTypes kind ltype rtype with
  | some types =>
      obtain ⟨outType, isFloat⟩ := types
      refine (emitBinary_moves c.ast kind ltype rtype isFloat c.piece).of_eq ?_
      simp only [Option.map_some, Option.getD_some]
      omega
  | none =>
      rw [htypes] at hquiet
      dsimp only at hquiet ⊢
      rw [GeneratorM.ite_apply] at hquiet ⊢
      split
      · next hreport =>
          rw [if_pos hreport] at hquiet
          exact (not_quiet_failWith _ _ c hquiet).elim
      · refine (Moves.refl c.piece).of_eq ?_
        simp only [Option.map_none, Option.getD_none, AST.slots_void]
        omega

theorem generateNot_moves (type : TypeId) : (generateNot type).MovesBy c 0 :=
  ((Moves.emitPop c.piece (by decide) (by decide)).trans
    (Moves.emitNot _ .a (by decide) (by decide))).trans (Moves.emitPush _ .a)

theorem generateDeref_moves (location : SourceLocation) {type : TypeId}
    (hquiet : (generateDeref location type).Quiet c) :
    type.pointerLevel ≠ 0 ∧ (generateDeref location type).MovesBy c 0 := by
  unfold generateDeref GeneratorM.MovesBy
  unfold generateDeref GeneratorM.Quiet at hquiet
  rw [GeneratorM.ite_apply] at hquiet ⊢
  by_cases hlevel : type.pointerLevel = 0
  · rw [if_pos hlevel] at hquiet
    exact (not_quiet_failWith _ _ c hquiet).elim
  · refine ⟨hlevel, ?_⟩
    rw [if_neg hlevel]
    have hpush := pushValue_moves .b 0 type (c.withPiece (c.piece.emitPop .b))
    refine ((Moves.emitPop c.piece (by decide) (by decide)).trans hpush).of_eq ?_
    rw [GeneratorContext.withPiece_ast, AST.leaves_of_pointer hlevel]
    rfl

theorem generateIndex_moves (location : SourceLocation) {rtype ltype : TypeId}
    (hquiet : (generateIndex location rtype ltype).Quiet c) :
    ltype.pointerLevel ≠ 0 ∧ rtype = .int ∧
      (generateIndex location rtype ltype).MovesBy c (16 - 8 * c.ast.leaves ltype.deref) := by
  unfold generateIndex GeneratorM.MovesBy
  unfold generateIndex GeneratorM.Quiet at hquiet
  rw [getContext_bind_apply, GeneratorM.ite_apply] at hquiet ⊢
  by_cases hlevel : ltype.pointerLevel = 0
  · rw [if_pos hlevel] at hquiet
    exact (not_quiet_failWith _ _ c hquiet).elim
  · rw [if_neg hlevel, GeneratorM.ite_apply] at hquiet ⊢
    by_cases hint : rtype = .int
    · refine ⟨hlevel, hint, ?_⟩
      rw [if_neg (not_not.mpr hint)]
      have hpops : Moves c.piece ((c.piece.emitPop .b).emitPop .a) 16 :=
        (Moves.emitPop c.piece (by decide) (by decide)).trans
          (Moves.emitPop _ (by decide) (by decide))
      have helement := hpops.trans (emitElement_moves (c.ast.sizeOfType ltype.deref) _)
      have hpush := pushValue_moves .b 0 ltype.deref (c.withPiece
        (emitElement (c.ast.sizeOfType ltype.deref) ((c.piece.emitPop .b).emitPop .a)))
      refine (helement.trans hpush).of_eq ?_
      rw [GeneratorContext.withPiece_ast]
      omega
    · rw [if_pos hint] at hquiet
      exact (not_quiet_failWith _ _ c hquiet).elim

theorem generateCast_moves (name : String) (location : SourceLocation) {type : TypeId}
    (hquiet : (generateCast name location type).Quiet c) :
    (explicitCast type (c.ast.convertFullType name c.currentScopeId)).isSome ∧
      (generateCast name location type).MovesBy c 0 := by
  unfold generateCast GeneratorM.MovesBy
  unfold generateCast GeneratorM.Quiet at hquiet
  rw [getContext_bind_apply] at hquiet ⊢
  cases hcast : explicitCast type (c.ast.convertFullType name c.currentScopeId) with
  | none => rw [hcast] at hquiet; exact (not_quiet_failWith _ _ c hquiet).elim
  | some conversion => exact ⟨rfl, emitConversion_moves conversion c.piece⟩

theorem generateMemberValue_moves (location : SourceLocation) (type : TypeId) :
    (generateMemberValue location type).MovesBy c
      (8 - 8 * c.ast.slots type + memberExcess c.ast type) := by
  unfold generateMemberValue GeneratorM.MovesBy memberExcess AST.voidLeaves
  rw [GeneratorM.ite_apply]
  split
  · have hpush := pushValue_moves .b 0 type (c.withPiece (c.piece.emitPop .b))
    refine ((Moves.emitPop c.piece (by decide) (by decide)).trans hpush).of_eq ?_
    rw [GeneratorContext.withPiece_ast]
    omega
  · next hvalid =>
      refine (Moves.refl c.piece).of_eq ?_
      rw [TypeId.not_valid_iff.mp hvalid, AST.slots_void]
      rfl

theorem generateAssign_moves (location : SourceLocation) {rtype ltype : TypeId}
    (hquiet : (generateAssign location rtype ltype).Quiet c) :
    (generateAssign location rtype ltype).MovesBy c
      (8 + 8 * c.ast.slots rtype - 8 * c.ast.slots
        (if ltype.Valid ∧ rtype.Valid ∧ Assignable ltype rtype then ltype else .void) +
        assignExcess c.ast ltype rtype) := by
  unfold generateAssign GeneratorM.MovesBy assignExcess AST.voidLeaves
  unfold generateAssign GeneratorM.Quiet at hquiet
  rw [GeneratorM.ite_apply] at hquiet ⊢
  by_cases hvalid : ltype.Valid ∧ rtype.Valid
  · rw [if_pos hvalid, GeneratorM.ite_apply] at hquiet ⊢
    by_cases hassign : Assignable ltype rtype
    · rw [if_pos hassign, if_pos hvalid, if_pos ⟨hvalid.1, hvalid.2, hassign⟩,
        ← AST.slots_of_assignable hassign]
      have hpop := popValue_moves .b 0 ltype (c.withPiece (c.piece.emitPop .b))
      have hpush := pushValue_moves .b 0 ltype
        (popValue .b 0 ltype (c.withPiece (c.piece.emitPop .b))).2
      have hast : (popValue .b 0 ltype (c.withPiece (c.piece.emitPop .b))).2.ast = c.ast := rfl
      refine (((Moves.emitPop c.piece (by decide) (by decide)).trans hpop).trans hpush).of_eq ?_
      rw [hast, GeneratorContext.withPiece_ast]
      omega
    · rw [if_neg hassign] at hquiet
      exact (not_quiet_failWith _ _ c hquiet).elim
  · rw [if_neg hvalid, if_neg hvalid, if_neg fun h => hvalid ⟨h.1, h.2.1⟩, AST.slots_void]
    refine (Moves.refl c.piece).of_eq ?_
    omega

theorem generateStep_moves (kind : StepKind) (location : SourceLocation) {type : TypeId}
    (hquiet : (generateStep kind location type).Quiet c) :
    (type.Valid → type = .int) ∧ (generateStep kind location type).MovesBy c 0 := by
  unfold generateStep GeneratorM.MovesBy
  unfold generateStep GeneratorM.Quiet at hquiet
  rw [getContext_bind_apply, GeneratorM.ite_apply] at hquiet ⊢
  by_cases hvalid : type.Valid
  · rw [if_pos hvalid, GeneratorM.ite_apply] at hquiet ⊢
    by_cases hint : type = .int
    · rw [if_pos hint]
      exact ⟨fun _ => hint, emitStep_moves kind c.piece⟩
    · rw [if_neg hint] at hquiet
      exact (not_quiet_failWith _ _ c hquiet).elim
  · rw [if_neg hvalid]
    exact ⟨fun h => (hvalid h).elim, Moves.refl c.piece⟩

theorem popArguments_moves (ast : AST) (argDiff : ℤ) (parameters : List Parameter)
    (piece : BytecodePiece) : Moves piece (popArguments ast argDiff parameters piece)
      (8 * ((parameters.map fun parameter => ast.slots parameter.typeId).sum : ℕ)) := by
  have hloop := Moves.foldl
    (fun piece parameter => generatePop ast .b ast.depth
      (parameter.offset - 16 - argDiff) parameter.typeId piece)
    (fun parameter : Parameter => 8 * (ast.slots parameter.typeId : ℤ))
    (fun piece parameter => generatePop_moves ast _ _ _ _) parameters.reverse piece
  refine hloop.of_eq ?_
  rw [List.map_reverse, List.sum_reverse, sum_map_mul]

theorem emitCallSequence_moves (ast : AST) (f : ℕ) (function : ASTFunction) (argDiff : ℤ)
    (piece : BytecodePiece) : Moves piece (emitCallSequence ast f function argDiff piece)
      (8 * ((function.parameters.map fun parameter => ast.slots parameter.typeId).sum : ℕ) +
        encodedIncr function.parametersSize -
        if function.returnType.Valid then 8 * ast.leaves function.returnType else 0) := by
  have hcall := ((Moves.emitMovRR piece .sp (by decide) (by decide)).trans
    (popArguments_moves ast argDiff function.parameters (piece.emitMovRR .b .sp))).trans
    (Moves.emitCall _ f)
  unfold emitCallSequence
  dsimp only
  split
  · have hmov : ∀ piece : BytecodePiece, Moves piece (piece.emitMovRR .b .sp) 0 :=
      fun piece => Moves.emitMovRR piece .sp (by decide) (by decide)
    refine (((hcall.trans (hmov _)).trans (Moves.emitIncrSp _ function.parametersSize)).trans
      (generatePush_moves ast .b ast.depth _ function.returnType _)).of_eq ?_
    rw [AST.leaves]
    omega
  · refine (hcall.trans (Moves.emitIncrSp _ function.parametersSize)).of_eq ?_
    omega

theorem sum_slots_of_argumentsFit {ast : AST} :
    ∀ {parameters : List Parameter} {types : List TypeId}, parameters.length = types.length →
      ArgumentsFit parameters types →
      (parameters.map fun parameter => ast.slots parameter.typeId).sum = (types.map ast.slots).sum
  | [], [], _, _ => rfl
  | parameter :: parameters, type :: types, hlength, hfit => by
      have htail := @sum_slots_of_argumentsFit ast _ _ (Nat.succ.inj hlength) hfit.2
      simp only [List.map_cons, List.sum_cons, AST.slots_of_assignable hfit.1, htail]

theorem checkArguments_quiet (location : SourceLocation) :
    ∀ {i : ℕ} {parameters : List Parameter} {types : List TypeId} {c : GeneratorContext},
      (checkArguments location i parameters types).Quiet c → ArgumentsFit parameters types
  | i, parameter :: parameters, type :: types, c, hquiet => by
      unfold checkArguments GeneratorM.Quiet at hquiet
      rw [GeneratorM.ite_apply] at hquiet
      split at hquiet
      · next hfit => exact ⟨hfit, checkArguments_quiet location hquiet⟩
      · rw [getContext_bind_apply] at hquiet
        exact (not_quiet_report _ _ ((GeneratorM.Framed.checkArguments _ _ _ _).bind
          fun _ => .pure _) c hquiet).elim
  | _, [], _, _, _ => trivial
  | _, _ :: _, [], _, _ => trivial

theorem checkArguments_piece (location : SourceLocation) :
    ∀ (i : ℕ) (parameters : List Parameter) (types : List TypeId) (c : GeneratorContext),
      (checkArguments location i parameters types c).2.piece = c.piece
  | i, parameter :: parameters, type :: types, c => by
      unfold checkArguments
      rw [GeneratorM.ite_apply]
      split
      · exact checkArguments_piece location (i + 1) parameters types c
      · exact checkArguments_piece location (i + 1) parameters types _
  | _, [], _, _ => rfl
  | _, _ :: _, [], _ => rfl

theorem finishCall_moves (name : String) (location : SourceLocation) (f : ℕ)
    (function : ASTFunction) (argOffset : ℤ) {types : List TypeId}
    (hquiet : (finishCall name location f function argOffset types).Quiet c) :
    function.parameters.length = types.length ∧ ArgumentsFit function.parameters types ∧
      (finishCall name location f function argOffset types).MovesBy c
        (8 * ((types.map c.ast.slots).sum : ℕ) + encodedIncr function.parametersSize -
          if function.returnType.Valid then 8 * c.ast.leaves function.returnType else 0) := by
  unfold finishCall GeneratorM.MovesBy
  unfold finishCall GeneratorM.Quiet at hquiet
  rw [GeneratorM.ite_apply] at hquiet ⊢
  by_cases hlength : function.parameters.length = types.length
  · rw [if_neg (not_not.mpr hlength)] at hquiet ⊢
    have hfit : ArgumentsFit function.parameters types := by
      refine checkArguments_quiet location (i := 0) (c := c) (GeneratorM.Quiet.of_bind hquiet
        (.checkArguments _ _ _ _) fun failed => ?_).1
      split
      · exact .giveUp _
      · exact GeneratorM.Framed.getContext.bind fun _ => (GeneratorM.Framed.emit _).bind
          fun _ => .pure _
    have hfailed : (checkArguments location 0 function.parameters types c).1 = false := by
      rw [checkArguments_fst]
      simp [hfit]
    have hast := (GeneratorM.Framed.checkArguments location 0 function.parameters types c).ast
    refine ⟨hlength, hfit, ?_⟩
    rw [GeneratorM.bind_apply, hfailed, GeneratorM.ite_apply, if_neg (by decide),
      getContext_bind_apply, ← sum_slots_of_argumentsFit hlength hfit, ← hast]
    have hsequence := emitCallSequence_moves
      (checkArguments location 0 function.parameters types c).2.ast f function
      ((checkArguments location 0 function.parameters types c).2.piece.virtualSp - argOffset)
      (checkArguments location 0 function.parameters types c).2.piece
    nth_rewrite 1 [checkArguments_piece] at hsequence
    exact hsequence
  · rw [if_pos hlength] at hquiet
    exact (not_quiet_failWith _ _ c hquiet).elim

theorem generateCall_moves (name : String) (location : SourceLocation)
    {arguments : GeneratorM (List TypeId)} {types : List TypeId} {amount : ℤ}
    (hframed : arguments.Framed)
    (harguments : ∀ c', c'.ast = c.ast → c'.currentScopeId = c.currentScopeId →
      arguments.Quiet c' → (arguments c').1 = types ∧
        arguments.MovesBy c' (-8 * ((types.map c.ast.slots).sum : ℕ) + amount))
    (hquiet : (generateCall name location arguments).Quiet c) :
    (generateCall name location arguments).MovesBy c
      (-8 * c.ast.slots (callType c.ast c.currentScopeId name types) +
        (amount + callExcess c.ast c.currentScopeId name)) := by
  unfold generateCall GeneratorM.MovesBy callType callExcess
  unfold generateCall GeneratorM.Quiet at hquiet
  rw [getContext_bind_apply] at hquiet ⊢
  cases hfind : c.ast.findFunction name c.currentScopeId with
  | none => rw [hfind] at hquiet; exact (not_quiet_failWith _ _ c hquiet).elim
  | some f =>
      rw [hfind] at hquiet
      dsimp only at hquiet ⊢
      generalize c.ast.functions f = function at hquiet ⊢
      let c₁ := c.withPiece (c.piece.emitIncr .sp (-function.parametersSize))
      have hboth : (arguments >>= fun types =>
          finishCall name location f function c₁.piece.virtualSp types).Quiet c₁ := hquiet
      obtain ⟨hquiet₁, hquiet₂⟩ := hboth.of_bind hframed fun types =>
        GeneratorM.Framed.finishCall name location f function c₁.piece.virtualSp types
      obtain ⟨htypes, hmoves⟩ := harguments c₁ rfl rfl hquiet₁
      rw [htypes] at hquiet₂
      obtain ⟨hlength, hfit, hfinish⟩ := finishCall_moves name location f function _ hquiet₂
      rw [(hframed c₁).ast] at hfinish
      have hall := ((Moves.emitIncrSp c.piece (-function.parametersSize)).trans hmoves).trans hfinish
      have hresult : (arguments >>= fun types =>
          finishCall name location f function c₁.piece.virtualSp types) c₁ =
          finishCall name location f function c₁.piece.virtualSp types (arguments c₁).2 := by
        rw [GeneratorM.bind_apply, htypes]
      have hpieces : Moves c.piece ((arguments >>= fun types =>
          finishCall name location f function c₁.piece.virtualSp types) c₁).2.piece _ :=
        hresult ▸ hall
      refine Moves.of_eq hpieces ?_
      have hast : c₁.ast = c.ast := rfl
      have hcall : (if function.parameters.length = types.length ∧
          ArgumentsFit function.parameters types then function.returnType else .void) =
          function.returnType := if_pos ⟨hlength, hfit⟩
      rw [hcall, AST.voidLeaves, hast]
      by_cases hvalid : function.returnType.Valid
      · simp only [if_pos hvalid]
        omega
      · rw [if_neg hvalid, if_neg hvalid, TypeId.not_valid_iff.mp hvalid, AST.slots_void]
        omega

/-- A computation of a place that is found, and its effect. -/
def PlaceMoves (place : GeneratorM (Option Place)) (c : GeneratorContext) (amount : ℤ) : Prop :=
  place.Quiet c → (place c).1.isSome ∧ place.MovesBy c amount

theorem placeIdentifier_moves (name : String) (location : SourceLocation) :
    PlaceMoves (placeIdentifier name location) c 0 := by
  intro hquiet
  unfold placeIdentifier GeneratorM.MovesBy
  unfold placeIdentifier GeneratorM.Quiet at hquiet
  rw [getContext_bind_apply] at hquiet ⊢
  cases hfind : c.ast.findVariable name c.currentScopeId with
  | none => rw [hfind] at hquiet; exact (not_quiet_report _ _ (.pure _) c hquiet).elim
  | some identifier =>
      rw [hfind] at hquiet
      dsimp only at hquiet ⊢
      cases hkind : identifier.kind with
      | localId => exact ⟨rfl, Moves.refl c.piece⟩
      | globalId => exact ⟨rfl, Moves.emitDataptr c.piece _ (by decide) (by decide)⟩
      | constId => rw [hkind] at hquiet; exact (not_quiet_report _ _ (.pure _) c hquiet).elim

theorem placeMember_moves (previous name : String) (location : SourceLocation) (place : Place) :
    PlaceMoves (placeMember previous name location place) c 0 := by
  intro hquiet
  unfold placeMember GeneratorM.MovesBy
  unfold placeMember GeneratorM.Quiet at hquiet
  rw [getContext_bind_apply, GeneratorM.ite_apply] at hquiet ⊢
  split
  · next hlevel =>
      rw [if_pos hlevel] at hquiet
      cases hmember : memberOf c.ast previous name place.type with
      | error message =>
          rw [hmember] at hquiet
          exact (not_quiet_report _ _ (.pure _) c hquiet).elim
      | ok mem =>
          dsimp only
          rw [GeneratorM.ite_apply]
          split
          · exact ⟨rfl, Moves.refl c.piece⟩
          · exact ⟨rfl, emitLoadPointer_moves place c.piece⟩
  · next hlevel =>
      rw [if_neg hlevel] at hquiet
      exact (not_quiet_report _ _ (.pure _) c hquiet).elim

theorem finishElement_moves (location : SourceLocation) (place : Place) {rtype : TypeId}
    (hquiet : (finishElement location place rtype).Quiet c) :
    rtype = .int ∧ (finishElement location place rtype c).1.isSome ∧
      (finishElement location place rtype).MovesBy c 16 := by
  unfold finishElement GeneratorM.MovesBy
  unfold finishElement GeneratorM.Quiet at hquiet
  rw [getContext_bind_apply, GeneratorM.ite_apply] at hquiet ⊢
  by_cases hint : rtype = .int
  · rw [if_neg (not_not.mpr hint)]
    have hpops : Moves c.piece ((c.piece.emitPop .a).emitPop .b) 16 :=
      (Moves.emitPop c.piece (by decide) (by decide)).trans
        (Moves.emitPop _ (by decide) (by decide))
    exact ⟨hint, rfl, hpops.trans (emitElement_moves _ _)⟩
  · rw [if_pos hint] at hquiet
    exact (not_quiet_report _ _ (.pure _) c hquiet).elim

theorem placeIndex_moves (hprim : c.ast.HasPrimitives) (location : SourceLocation)
    {right : GeneratorM TypeId} {amount : ℤ} (hframed : right.Framed)
    (hright : ∀ c', c'.ast = c.ast → c'.currentScopeId = c.currentScopeId → right.Quiet c' →
      right.MovesBy c' (-8 * c.ast.slots (right c').1 + amount)) (place : Place) :
    PlaceMoves (placeIndex location right place) c amount := by
  intro hquiet
  unfold placeIndex GeneratorM.MovesBy
  unfold placeIndex GeneratorM.Quiet at hquiet
  rw [GeneratorM.ite_apply] at hquiet ⊢
  split
  · next hlevel =>
      rw [if_pos hlevel] at hquiet
      let c₁ := c.withPiece ((emitLoadPointer place c.piece).emitPush .b)
      have hboth : (right >>= finishElement location place).Quiet c₁ := hquiet
      obtain ⟨hquiet₁, hquiet₂⟩ := hboth.of_bind hframed fun rtype =>
        GeneratorM.Framed.finishElement location place rtype
      obtain ⟨hint, hsome, hfinish⟩ := finishElement_moves location place hquiet₂
      have hmoves := hright c₁ rfl rfl hquiet₁
      rw [hint, hprim.slots (by decide) (by decide)] at hmoves
      have hpush : Moves c.piece ((emitLoadPointer place c.piece).emitPush .b) (-8) :=
        (emitLoadPointer_moves place c.piece).trans (Moves.emitPush _ .b)
      refine ⟨hsome, ((hpush.trans hmoves).trans hfinish).of_eq ?_⟩
      omega
  · next hlevel =>
      rw [if_neg hlevel, getContext_bind_apply] at hquiet
      exact (not_quiet_report _ _ (.pure _) c hquiet).elim

theorem bindPlace_moves {place : GeneratorM (Option Place)}
    {next : Place → GeneratorM (Option Place)} {amount amount' : ℤ} (hframed : place.Framed)
    (hnextFramed : ∀ place', (next place').Framed) (hplace : PlaceMoves place c amount)
    (hnext : ∀ place', PlaceMoves (next place') (place c).2 amount') :
    PlaceMoves (bindPlace place next) c (amount + amount') := by
  intro hquiet
  unfold bindPlace at hquiet ⊢
  obtain ⟨hquiet₁, hquiet₂⟩ := hquiet.of_bind hframed fun place' => by
    cases place' with
    | none => exact .pure none
    | some place' => exact hnextFramed place'
  obtain ⟨hsome, hmoves⟩ := hplace hquiet₁
  obtain ⟨place', heq⟩ := Option.isSome_iff_exists.mp hsome
  rw [heq] at hquiet₂
  obtain ⟨hsome', hmoves'⟩ := hnext place' hquiet₂
  unfold GeneratorM.MovesBy
  rw [GeneratorM.bind_apply, heq]
  exact ⟨hsome', hmoves.trans hmoves'⟩

theorem referenceTo_moves (location : SourceLocation) (invalid : Option SourceLocation)
    {place : GeneratorM (Option Place)} {amount : ℤ} (hframed : place.Framed)
    (hplace : invalid = none → PlaceMoves place c amount)
    (hquiet : (referenceTo location invalid place).Quiet c) :
    (referenceTo location invalid place).MovesBy c (-8 + amount) := by
  cases invalid with
  | some location => exact (not_quiet_failWith _ _ c hquiet).elim
  | none =>
      unfold referenceTo at hquiet ⊢
      obtain ⟨hquiet₁, -⟩ := hquiet.of_bind hframed fun place' => by
        cases place' with
        | none => exact .giveUp location
        | some place' => exact (GeneratorM.Framed.emit _).bind fun _ => .pure _
      obtain ⟨hsome, hmoves⟩ := hplace rfl hquiet₁
      obtain ⟨place', heq⟩ := Option.isSome_iff_exists.mp hsome
      unfold GeneratorM.MovesBy
      dsimp only
      rw [GeneratorM.bind_apply, heq]
      refine (Moves.trans hmoves (emitAddress_moves place' _)).of_eq ?_
      omega

end Nodes

/-! ## The recursion -/

theorem GeneratorM.MovesBy.bind {α β : Type} {x : GeneratorM α} {f : α → GeneratorM β} {r : α}
    {c : GeneratorContext} {a b : ℤ} (hx : x.MovesBy c a) (hresult : (x c).1 = r)
    (hf : (f r).MovesBy (x c).2 b) : (x >>= f).MovesBy c (a + b) := by
  subst hresult
  exact Moves.trans hx hf

theorem GeneratorM.Quiet.of_map {α β : Type} {x : GeneratorM α} {g : α → β} {c : GeneratorContext}
    (h : (do return g (← x)).Quiet c) : x.Quiet c :=
  h

theorem GeneratorM.MovesBy.map {α β : Type} {x : GeneratorM α} {g : α → β} {c : GeneratorContext}
    {a : ℤ} (h : x.MovesBy c a) : (do return g (← x)).MovesBy c a :=
  h

/-- The code of the expression moves the stack pointer by the slots of its type and by its
excess. -/
def ExpressionMoves (e : ASTExpression) : Prop :=
  ∀ c : GeneratorContext, c.ast.HasPrimitives → (generateExpression e).Quiet c →
    (generateExpression e).MovesBy c
      (-8 * c.ast.slots (typeOf c.ast c.currentScopeId e) + excess c.ast c.currentScopeId e)

def ArgumentsMove (arguments : List ASTExpression) : Prop :=
  ∀ c : GeneratorContext, c.ast.HasPrimitives → (generateArguments arguments).Quiet c →
    (generateArguments arguments).MovesBy c
      (-8 * (((typesOf c.ast c.currentScopeId arguments).map c.ast.slots).sum : ℕ) +
        argumentsExcess c.ast c.currentScopeId arguments)

def ReferenceMoves (e : ASTExpression) : Prop :=
  ∀ c : GeneratorContext, c.ast.HasPrimitives → (generateReference e).Quiet c →
    (generateReference e).MovesBy c (-8 + referenceExcess c.ast c.currentScopeId e)

def PlaceIsFound (e : ASTExpression) : Prop :=
  ∀ c : GeneratorContext, c.ast.HasPrimitives → invalidInReference e = none →
    PlaceMoves (generatePlace e) c (placeExcess c.ast c.currentScopeId e)

section Recursion

variable {left right : ASTExpression}

theorem ExpressionMoves.const {e : ASTExpression} (hconst : e.isConst)
    (hcode : generateExpression e = generateConst e)
    (htype : ∀ ast scopeId, typeOf ast scopeId e = constType e)
    (hexcess : ∀ ast scopeId, excess ast scopeId e = 0) : ExpressionMoves e := by
  intro c hprim hquiet
  rw [hcode] at hquiet ⊢
  obtain ⟨hlt, hvoid⟩ := constType_primitive hconst
  rw [htype, hexcess, hprim.slots hlt hvoid]
  exact generateConst_moves hconst hquiet

theorem ExpressionMoves.identifier (name : String) (location : SourceLocation) :
    ExpressionMoves (.identifier name location) := by
  intro c hprim hquiet
  rw [generateExpression] at hquiet ⊢
  refine (generateIdentifier_moves hprim name location hquiet).of_eq ?_
  rw [typeOf, excess, AST.voidLeaves]
  omega

theorem ExpressionMoves.functionCall (name : String) {arguments : List ASTExpression}
    (location : SourceLocation) (harguments : ArgumentsMove arguments) :
    ExpressionMoves (.functionCall name arguments location) := by
  intro c hprim hquiet
  rw [generateExpression] at hquiet ⊢
  rw [typeOf, excess]
  refine generateCall_moves name location (GeneratorM.Framed.generateArguments arguments)
    (fun c' hast hscope hquiet' => ?_) hquiet
  have hmoves := harguments c' (hast ▸ hprim) hquiet'
  rw [hast, hscope] at hmoves
  exact ⟨by rw [generateArguments_fst, hast, hscope], hmoves⟩

/-- A second operand, with the types and the excess of the context before the first one. -/
theorem ExpressionMoves.after (hright : ExpressionMoves right) {c c' : GeneratorContext}
    (hframe : SameFrame c c') (hprim : c.ast.HasPrimitives)
    (hquiet : (generateExpression right).Quiet c') :
    (generateExpression right c').1 = typeOf c.ast c.currentScopeId right ∧
      (generateExpression right).MovesBy c'
        (-8 * c.ast.slots (typeOf c.ast c.currentScopeId right) +
          excess c.ast c.currentScopeId right) := by
  have hmoves := hright c' (hframe.ast.symm ▸ hprim) hquiet
  rw [hframe.ast, hframe.currentScopeId] at hmoves
  exact ⟨by rw [generateExpression_fst, hframe.ast, hframe.currentScopeId], hmoves⟩

theorem ReferenceMoves.after (hleft : ReferenceMoves left) {c c' : GeneratorContext}
    (hframe : SameFrame c c') (hprim : c.ast.HasPrimitives)
    (hquiet : (generateReference left).Quiet c') :
    (generateReference left c').1 = referenceType c.ast c.currentScopeId left ∧
      (generateReference left).MovesBy c' (-8 + referenceExcess c.ast c.currentScopeId left) := by
  have hmoves := hleft c' (hframe.ast.symm ▸ hprim) hquiet
  rw [hframe.ast, hframe.currentScopeId] at hmoves
  exact ⟨by rw [generateReference_fst, hframe.ast, hframe.currentScopeId], hmoves⟩

theorem ExpressionMoves.binary (kind : BinaryKind) (location : SourceLocation)
    (hleft : ExpressionMoves left) (hright : ExpressionMoves right) :
    ExpressionMoves (.binary kind left right location) := by
  intro c hprim hquiet
  rw [generateExpression] at hquiet ⊢
  obtain ⟨hquiet₁, hquiet₂⟩ := hquiet.of_bind (GeneratorM.Framed.generateExpression left)
    fun _ => (GeneratorM.Framed.generateExpression right).bind fun _ => .generateBinary _ _ _ _
  obtain ⟨hquiet₂, hquiet₃⟩ := hquiet₂.of_bind (GeneratorM.Framed.generateExpression right)
    fun _ => .generateBinary _ _ _ _
  have hframe := GeneratorM.Framed.generateExpression left c
  have hframe' := hframe.trans (GeneratorM.Framed.generateExpression right _)
  have hltype := generateExpression_fst left c
  obtain ⟨hrtype, hr⟩ := hright.after hframe hprim hquiet₂
  rw [hltype, hrtype] at hquiet₃
  have hnode := generateBinary_moves kind location hquiet₃
  rw [hframe'.ast] at hnode
  refine ((hleft c hprim hquiet₁).bind hltype (hr.bind hrtype hnode)).of_eq ?_
  rw [typeOf, excess]
  omega

theorem ExpressionMoves.not (location : SourceLocation) (hleft : ExpressionMoves left) :
    ExpressionMoves (.not left location) := by
  intro c hprim hquiet
  rw [generateExpression] at hquiet ⊢
  obtain ⟨hquiet₁, -⟩ := hquiet.of_bind (GeneratorM.Framed.generateExpression left)
    fun _ => .generateNot _
  refine ((hleft c hprim hquiet₁).bind (generateExpression_fst left c)
    (generateNot_moves _)).of_eq ?_
  rw [typeOf, excess]
  omega

theorem ExpressionMoves.refer (location : SourceLocation) (hleft : ReferenceMoves left) :
    ExpressionMoves (.refer left location) := by
  intro c hprim hquiet
  rw [generateExpression] at hquiet ⊢
  refine (hleft c hprim hquiet.of_map).map.of_eq ?_
  rw [typeOf, excess]
  omega

theorem ExpressionMoves.deref (location : SourceLocation) (hleft : ExpressionMoves left) :
    ExpressionMoves (.deref left location) := by
  intro c hprim hquiet
  rw [generateExpression] at hquiet ⊢
  obtain ⟨hquiet₁, hquiet₂⟩ := hquiet.of_bind (GeneratorM.Framed.generateExpression left)
    fun _ => .generateDeref _ _
  have hltype := generateExpression_fst left c
  rw [hltype] at hquiet₂
  obtain ⟨hlevel, hnode⟩ := generateDeref_moves left.location hquiet₂
  refine ((hleft c hprim hquiet₁).bind hltype hnode).of_eq ?_
  rw [typeOf, excess, if_neg hlevel, AST.slots_of_pointer hlevel]
  omega

theorem ExpressionMoves.index (location : SourceLocation) (hleft : ExpressionMoves left)
    (hright : ExpressionMoves right) : ExpressionMoves (.index left right location) := by
  intro c hprim hquiet
  rw [generateExpression] at hquiet ⊢
  obtain ⟨hquiet₁, hquiet₂⟩ := hquiet.of_bind (GeneratorM.Framed.generateExpression right)
    fun _ => (GeneratorM.Framed.generateExpression left).bind fun _ => .generateIndex _ _ _
  obtain ⟨hquiet₂, hquiet₃⟩ := hquiet₂.of_bind (GeneratorM.Framed.generateExpression left)
    fun _ => .generateIndex _ _ _
  have hframe := GeneratorM.Framed.generateExpression right c
  have hframe' := hframe.trans (GeneratorM.Framed.generateExpression left _)
  have hrtype := generateExpression_fst right c
  obtain ⟨hltype, hl⟩ := hleft.after hframe hprim hquiet₂
  rw [hltype, hrtype] at hquiet₃
  obtain ⟨hlevel, hint, hnode⟩ := generateIndex_moves left.location hquiet₃
  rw [hframe'.ast] at hnode
  refine ((hright c hprim hquiet₁).bind hrtype (hl.bind hltype hnode)).of_eq ?_
  rw [typeOf, excess, if_neg hlevel, if_neg (not_not.mpr hint), AST.slots_of_pointer hlevel, hint,
    hprim.slots (by decide) (by decide), AST.voidLeaves]
  omega

theorem ExpressionMoves.cast (name : String) (location : SourceLocation)
    (hleft : ExpressionMoves left) : ExpressionMoves (.cast left name location) := by
  intro c hprim hquiet
  rw [generateExpression] at hquiet ⊢
  obtain ⟨hquiet₁, hquiet₂⟩ := hquiet.of_bind (GeneratorM.Framed.generateExpression left)
    fun _ => .generateCast _ _ _
  have hframe := GeneratorM.Framed.generateExpression left c
  have hltype := generateExpression_fst left c
  rw [hltype] at hquiet₂
  obtain ⟨hcast, hnode⟩ := generateCast_moves name location hquiet₂
  rw [hframe.ast, hframe.currentScopeId] at hcast
  refine ((hleft c hprim hquiet₁).bind hltype hnode).of_eq ?_
  rw [typeOf, excess, if_pos hcast, hprim.slots_of_explicitCast hcast]
  omega

theorem ExpressionMoves.assign (location : SourceLocation) (hleft : ReferenceMoves left)
    (hright : ExpressionMoves right) : ExpressionMoves (.assign left right location) := by
  intro c hprim hquiet
  rw [generateExpression] at hquiet ⊢
  obtain ⟨hquiet₁, hquiet₂⟩ := hquiet.of_bind (GeneratorM.Framed.generateExpression right)
    fun _ => (GeneratorM.Framed.generateReference left).bind fun _ => .generateAssign _ _ _
  obtain ⟨hquiet₂, hquiet₃⟩ := hquiet₂.of_bind (GeneratorM.Framed.generateReference left)
    fun _ => .generateAssign _ _ _
  have hframe := GeneratorM.Framed.generateExpression right c
  have hframe' := hframe.trans (GeneratorM.Framed.generateReference left _)
  have hrtype := generateExpression_fst right c
  obtain ⟨hltype, hl⟩ := hleft.after hframe hprim hquiet₂
  rw [hltype, hrtype] at hquiet₃
  have hnode := generateAssign_moves location hquiet₃
  rw [hframe'.ast] at hnode
  refine ((hright c hprim hquiet₁).bind hrtype (hl.bind hltype hnode)).of_eq ?_
  rw [typeOf, excess]
  omega

theorem ExpressionMoves.step (kind : StepKind) (location : SourceLocation)
    (hleft : ReferenceMoves left) : ExpressionMoves (.step kind left location) := by
  intro c hprim hquiet
  rw [generateExpression] at hquiet ⊢
  obtain ⟨hquiet₁, hquiet₂⟩ := hquiet.of_bind (GeneratorM.Framed.generateReference left)
    fun _ => .generateStep _ _ _
  have hltype := generateReference_fst left c
  rw [hltype] at hquiet₂
  obtain ⟨hint, hnode⟩ := generateStep_moves kind left.location hquiet₂
  refine ((hleft c hprim hquiet₁).bind hltype hnode).of_eq ?_
  rw [typeOf, excess]
  by_cases hvalid : (referenceType c.ast c.currentScopeId left).Valid
  · rw [if_pos hvalid, if_pos (hint hvalid), hprim.slots (by decide) (by decide)]
    omega
  · rw [if_neg hvalid, TypeId.not_valid_iff.mp hvalid, if_neg (by decide), AST.slots_void]
    omega

theorem ReferenceMoves.deref (location : SourceLocation) (hleft : ExpressionMoves left) :
    ReferenceMoves (.deref left location) := by
  intro c hprim hquiet
  rw [generateReference_deref] at hquiet ⊢
  refine (hleft c hprim hquiet.of_map).map.of_eq ?_
  rw [referenceExcess_deref]
  omega

theorem ReferenceMoves.identifier (name : String) (location : SourceLocation) :
    ReferenceMoves (.identifier name location) := by
  intro c hprim hquiet
  rw [generateReference_identifier] at hquiet ⊢
  rw [referenceExcess_identifier]
  exact referenceTo_moves location none (.placeIdentifier name location)
    (fun _ => placeIdentifier_moves name location) hquiet

theorem PlaceIsFound.identifier (name : String) (location : SourceLocation) :
    PlaceIsFound (.identifier name location) := by
  intro c _ _
  rw [generatePlace_identifier, placeExcess_identifier]
  exact placeIdentifier_moves name location

theorem PlaceIsFound.bindMember (name : String) (location : SourceLocation)
    (hleft : PlaceIsFound left) {c : GeneratorContext} (hprim : c.ast.HasPrimitives)
    (hvalid : invalidInReference left = none) :
    PlaceMoves (bindPlace (generatePlace left) (placeMember left.name name location)) c
      (placeExcess c.ast c.currentScopeId left) := by
  have hmoves := bindPlace_moves (GeneratorM.Framed.generatePlace left)
    (fun place => .placeMember left.name name location place) (hleft c hprim hvalid)
    (placeMember_moves left.name name location)
  rw [Int.add_zero] at hmoves
  exact hmoves

theorem PlaceIsFound.bindIndex (location : SourceLocation) (hleft : PlaceIsFound left)
    (hright : ExpressionMoves right) {c : GeneratorContext} (hprim : c.ast.HasPrimitives)
    (hvalid : invalidInReference left = none) :
    PlaceMoves (bindPlace (generatePlace left) (placeIndex location (generateExpression right))) c
      (placeExcess c.ast c.currentScopeId left + excess c.ast c.currentScopeId right) := by
  have hframed := GeneratorM.Framed.generateExpression right
  have hframe := GeneratorM.Framed.generatePlace left c
  refine bindPlace_moves (GeneratorM.Framed.generatePlace left)
    (fun place => .placeIndex location hframed place) (hleft c hprim hvalid) fun place => ?_
  refine placeIndex_moves (hframe.ast.symm ▸ hprim) location hframed
    (fun c' hast hscope hquiet => ?_) place
  have hast' : c'.ast = c.ast := hast.trans hframe.ast
  have hscope' : c'.currentScopeId = c.currentScopeId := hscope.trans hframe.currentScopeId
  have hmoves := hright c' (hast' ▸ hprim) hquiet
  rw [hast', hscope'] at hmoves
  rw [generateExpression_fst, hframe.ast, hast', hscope']
  exact hmoves

theorem PlaceIsFound.member (name : String) (location : SourceLocation)
    (hleft : PlaceIsFound left) : PlaceIsFound (.member left name location) := by
  intro c hprim hvalid
  rw [generatePlace_member, placeExcess_member]
  exact hleft.bindMember name location hprim hvalid

theorem PlaceIsFound.index (location : SourceLocation) (hleft : PlaceIsFound left)
    (hright : ExpressionMoves right) : PlaceIsFound (.index left right location) := by
  intro c hprim hvalid
  rw [generatePlace_index, placeExcess_index]
  exact hleft.bindIndex location hright hprim hvalid

theorem ReferenceMoves.member (name : String) (location : SourceLocation)
    (hleft : PlaceIsFound left) : ReferenceMoves (.member left name location) := by
  intro c hprim hquiet
  rw [generateReference_member] at hquiet ⊢
  rw [referenceExcess_member]
  exact referenceTo_moves location _
    ((GeneratorM.Framed.generatePlace left).bindPlace fun place => .placeMember left.name name location place)
    (fun hvalid => hleft.bindMember name location hprim hvalid) hquiet

theorem ReferenceMoves.index (location : SourceLocation) (hleft : PlaceIsFound left)
    (hright : ExpressionMoves right) : ReferenceMoves (.index left right location) := by
  intro c hprim hquiet
  rw [generateReference_index] at hquiet ⊢
  rw [referenceExcess_index]
  exact referenceTo_moves location _
    ((GeneratorM.Framed.generatePlace left).bindPlace
      (.placeIndex _ (GeneratorM.Framed.generateExpression right)))
    (fun hvalid => hleft.bindIndex location hright hprim hvalid) hquiet

theorem ExpressionMoves.member (name : String) (location : SourceLocation)
    (hleft : ReferenceMoves (.member left name location)) :
    ExpressionMoves (.member left name location) := by
  intro c hprim hquiet
  rw [generateExpression_member] at hquiet ⊢
  have hframed := GeneratorM.Framed.generateReference (.member left name location)
  obtain ⟨hquiet₁, -⟩ := hquiet.of_bind hframed fun _ => .generateMemberValue _ _
  have hltype := generateReference_fst (.member left name location) c
  have hl := hleft c hprim hquiet₁
  have hnode := @generateMemberValue_moves (generateReference (.member left name location) c).2
    location (referenceType c.ast c.currentScopeId (.member left name location))
  rw [(hframed c).ast] at hnode
  have htypes : typeOf c.ast c.currentScopeId (.member left name location) =
      referenceType c.ast c.currentScopeId (.member left name location) := rfl
  refine (hl.bind hltype hnode).of_eq ?_
  rw [excess, htypes, referenceExcess_member]
  omega

theorem ArgumentsMove.nil : ArgumentsMove [] := fun c _ _ => Moves.refl c.piece

theorem ArgumentsMove.cons {arg : ASTExpression} {arguments : List ASTExpression}
    (harg : ExpressionMoves arg) (harguments : ArgumentsMove arguments) :
    ArgumentsMove (arg :: arguments) := by
  intro c hprim hquiet
  rw [generateArguments] at hquiet ⊢
  obtain ⟨hquiet₁, hquiet₂⟩ := hquiet.of_bind (GeneratorM.Framed.generateExpression arg)
    fun _ => (GeneratorM.Framed.generateArguments arguments).bind fun _ => .pure _
  have hquiet₃ := hquiet₂.of_map
  have hframe := GeneratorM.Framed.generateExpression arg c
  have hrest := harguments _ (hframe.ast.symm ▸ hprim) hquiet₃
  rw [hframe.ast, hframe.currentScopeId] at hrest
  refine ((harg c hprim hquiet₁).bind rfl hrest.map).of_eq ?_
  rw [typesOf, argumentsExcess, List.map_cons, List.sum_cons]
  omega

end Recursion

mutual

theorem generateExpression_moves : ∀ e : ASTExpression, ExpressionMoves e
  | .identifier name location => .identifier name location
  | .functionCall name arguments location =>
      .functionCall name location (generateArguments_moves arguments)
  | .binary kind left right location =>
      .binary kind location (generateExpression_moves left) (generateExpression_moves right)
  | .not left location => .not location (generateExpression_moves left)
  | .refer left location => .refer location (generateReference_moves left)
  | .deref left location => .deref location (generateExpression_moves left)
  | .index left right location =>
      .index location (generateExpression_moves left) (generateExpression_moves right)
  | .member left name location =>
      .member name location (.member name location (generatePlace_moves left))
  | .cast left name location => .cast name location (generateExpression_moves left)
  | .assign left right location =>
      .assign location (generateReference_moves left) (generateExpression_moves right)
  | .step kind left location => .step kind location (generateReference_moves left)
  | .sizeof .. | .literalInt .. | .literalFloat .. | .literalStr .. | .literalChar ..
  | .literalNull .. | .literalTrue .. | .literalFalse .. =>
      .const rfl (by rw [generateExpression]) (fun _ _ => by rw [typeOf]) fun _ _ => by rw [excess]

theorem generateArguments_moves : ∀ arguments : List ASTExpression, ArgumentsMove arguments
  | [] => .nil
  | arg :: arguments => .cons (generateExpression_moves arg) (generateArguments_moves arguments)

theorem generateReference_moves : ∀ e : ASTExpression, ReferenceMoves e
  | .deref left location => .deref location (generateExpression_moves left)
  | .identifier name location => .identifier name location
  | .member left name location => .member name location (generatePlace_moves left)
  | .index left right location =>
      .index location (generatePlace_moves left) (generateExpression_moves right)
  | .functionCall .. | .binary .. | .not .. | .refer .. | .cast .. | .assign .. | .step ..
  | .sizeof .. | .literalInt .. | .literalFloat .. | .literalStr .. | .literalChar ..
  | .literalNull .. | .literalTrue .. | .literalFalse .. =>
      fun c _ hquiet => (not_quiet_failWith _ _ c hquiet).elim

theorem generatePlace_moves : ∀ e : ASTExpression, PlaceIsFound e
  | .identifier name location => .identifier name location
  | .member left name location => .member name location (generatePlace_moves left)
  | .index left right location =>
      .index location (generatePlace_moves left) (generateExpression_moves right)
  | .functionCall .. | .binary .. | .not .. | .refer .. | .deref .. | .cast .. | .assign ..
  | .step .. | .sizeof .. | .literalInt .. | .literalFloat .. | .literalStr .. | .literalChar ..
  | .literalNull .. | .literalTrue .. | .literalFalse .. =>
      fun _ _ hvalid => by cases hvalid

end

/-! ## The effect of a run -/

theorem quiet_of_errors {α : Type} {x : GeneratorM α} {c : GeneratorContext} (hframed : x.Framed)
    (herrors : (x c).2.reporter.errors = c.reporter.errors) : x.Quiet c := by
  have hreports := (hframed c).reports.eq_of_length herrors.symm
  exact congrArg Reporter.mk hreports.symm

theorem ofInt_eq_zero_iff (amount : ℤ) :
    BitVec.ofInt 64 amount = 0#64 ↔ (2 ^ 64 : ℤ) ∣ amount := by
  rw [← BitVec.toInt_inj, BitVec.toInt_ofInt, BitVec.toInt_zero, ← Int.dvd_iff_bmod_eq_zero]
  rfl

/-- Two runs from one state, of the code `old` that was there and of the code `code` that
stands in its place behind the expression: they differ by the slots of the type exactly when
the excess of the expression is 0, on 64 bits. -/
theorem generateExpression_stackEffect (e : ASTExpression) {c : GeneratorContext} {ops : List Op}
    (hprim : c.ast.HasPrimitives) (hasm : Assembles c.piece ops)
    (herrors : (generateExpression e c).2.reporter.errors = c.reporter.errors) :
    ∃ ops', Assembles (generateExpression e c).2.piece ops' ∧
      ∀ pre old code, ops = pre ++ old → ops' = pre ++ code → (∀ op ∈ old, op.Plain) →
        ∀ (vm : VirtualMachine) (m m₁ m₂ : Machine), vm.RunsTo old m m₁ → vm.RunsTo code m m₂ →
          (m₂.registers .sp =
              m₁.registers .sp + BitVec.ofInt 64 (-8 * c.ast.slots (generateExpression e c).1) ↔
            (2 ^ 64 : ℤ) ∣ excess c.ast c.currentScopeId e) := by
  have hquiet := quiet_of_errors (GeneratorM.Framed.generateExpression e) herrors
  obtain ⟨ops', hasm', hsum, hplain⟩ := generateExpression_moves e c hprim hquiet ops hasm
  refine ⟨ops', hasm', ?_⟩
  rintro pre old code rfl rfl hold vm m m₁ m₂ hrun₁ hrun₂
  have hcode := hplain.plain_of_append hold
  rw [spSum_append, spSum_append] at hsum
  have hsums : spSum code = spSum old + -8 * c.ast.slots (generateExpression e c).1 +
      excess c.ast c.currentScopeId e := by
    rw [generateExpression_fst]
    omega
  rw [hrun₂.sp hcode, hrun₁.sp hold, hsums, BitVec.ofInt_add, BitVec.ofInt_add,
    ← BitVec.add_assoc, ← BitVec.add_assoc, BitVec.add_right_eq_self, ofInt_eq_zero_iff]

/-! ## Dereferencing a pointer to a structure -/

/-- `struct Vec { x: int, y: int }` as the first structure of the program. -/
def astOfVec : AST :=
  { AST.initial with
    typesUsed := 6
    typeInfos := Function.update AST.initial.typeInfos 5
      { typeId := ⟨5, 0⟩, name := "Vec", size := 8, astStruct := some 0 }
    structuresUsed := 1
    structures := fun _ =>
      { name := "Vec"
        members := [⟨"x", "int", .int, 0, 0⟩, ⟨"y", "int", .int, 4, 0⟩]
        complete := true } }

/-- The body of a function with the variables `p: Vec*` and `x: int`. -/
def contextOfVec : GeneratorContext where
  ast := (((astOfVec.addVariable .localId "p" globalScope ⟨5, 1⟩ (-8)).getD astOfVec).addVariable
    .localId "x" globalScope .int (-16)).getD astOfVec

theorem contextOfVec_hasPrimitives : contextOfVec.ast.HasPrimitives := by
  intro i hi
  have hinfos : contextOfVec.ast.typeInfos = astOfVec.typeInfos := rfl
  rw [hinfos]
  exact Function.update_of_ne (by omega) _ _

/-- The pointer in the only variable is the first address of the stack. -/
def machineOfVec : Machine where
  registers := fun reg =>
    if reg = .sp then 0x10fff0 else if reg = .bp then 0x110000 else 0
  memory := fun addr => if addr = 0x10fffa then 0x10 else 0

/-- The code of `*p` pushes one slot, not the two of the structure. -/
theorem not_stackEffect_deref : ∃ ops, Assembles
      (generateExpression (.deref (.identifier "p" 0) 0) contextOfVec).2.piece ops ∧
    (generateExpression (.deref (.identifier "p" 0) 0) contextOfVec).2.reporter.errors = 0 ∧
    contextOfVec.ast.slots (generateExpression (.deref (.identifier "p" 0) 0) contextOfVec).1 = 2 ∧
    ∃ m, (VirtualMachine.ofPieces []).RunsTo ops machineOfVec m ∧
      m.registers .sp = machineOfVec.registers .sp - 8 := by
  refine ⟨[.movRM .a .bp 8 (-8), ⟨.push .a, none⟩, ⟨.pop .b, none⟩, .movRM .a .b 8 0,
    ⟨.push .a, none⟩], ⟨by decide, by decide⟩, by decide, by decide, ?_⟩
  refine ⟨_, .step (by decide) rfl (.step (by decide) rfl (.step (by decide) rfl
    (.step (by decide) rfl (.step (by decide) rfl (.nil _))))), ?_⟩
  decide

/-- The code of `x + 1` pushes one slot. -/
theorem generateExpression_stackEffect_add : ∃ ops', Assembles
      (generateExpression (.binary .add (.identifier "x" 0) (.literalInt 1 0) 0)
        contextOfVec).2.piece ops' ∧
    ∀ (vm : VirtualMachine) (m m' : Machine), vm.RunsTo ops' m m' →
      m'.registers .sp = m.registers .sp - 8 := by
  obtain ⟨ops', hasm, hruns⟩ := generateExpression_stackEffect
    (.binary .add (.identifier "x" 0) (.literalInt 1 0) 0) contextOfVec_hasPrimitives
    assembles_empty (by decide)
  refine ⟨ops', hasm, fun vm m m' hrun => ?_⟩
  have hslots : contextOfVec.ast.slots (generateExpression
      (.binary .add (.identifier "x" 0) (.literalInt 1 0) 0) contextOfVec).1 = 1 := by decide
  have hsp := (hruns [] [] ops' rfl rfl (by simp) vm m m m' (.nil m) hrun).mpr (by decide)
  rw [hsp, hslots, BitVec.sub_eq_add_neg]
  rfl

end TinCompiler
