import TinCompiler.Generator.Expression
import Mathlib.Data.List.Infix

/-!
# What the code generation of an expression leaves alone

Generating an expression emits code, adds strings to the global data and reports errors;
the tables, the scope, the frame and the loops stay as they are (`SameFrame`).
-/

namespace TinCompiler

/-- Only the piece and the global data are different, and the reports and the places that
were given up have grown. -/
structure SameFrame (c c' : GeneratorContext) : Prop where
  ast : c'.ast = c.ast
  function : c'.function = c.function
  currentFrameOffset : c'.currentFrameOffset = c.currentFrameOffset
  currentScopeId : c'.currentScopeId = c.currentScopeId
  loopScopes : c'.loopScopes = c.loopScopes
  blocks : c'.blocks = c.blocks
  starts : c'.starts = c.starts
  reports : c.reporter.reports <+: c'.reporter.reports
  abandoned : c.abandoned <+: c'.abandoned

namespace SameFrame

variable {c c' c'' : GeneratorContext}

theorem refl (c : GeneratorContext) : SameFrame c c :=
  ⟨rfl, rfl, rfl, rfl, rfl, rfl, rfl, List.prefix_rfl, List.prefix_rfl⟩

theorem trans (h : SameFrame c c') (h' : SameFrame c' c'') : SameFrame c c'' where
  ast := h'.ast.trans h.ast
  function := h'.function.trans h.function
  currentFrameOffset := h'.currentFrameOffset.trans h.currentFrameOffset
  currentScopeId := h'.currentScopeId.trans h.currentScopeId
  loopScopes := h'.loopScopes.trans h.loopScopes
  blocks := h'.blocks.trans h.blocks
  starts := h'.starts.trans h.starts
  reports := h.reports.trans h'.reports
  abandoned := h.abandoned.trans h'.abandoned

theorem errors_le (h : SameFrame c c') : c.reporter.errors ≤ c'.reporter.errors :=
  h.reports.length_le

end SameFrame

/-- Whatever the context is, `x` leaves its frame alone. -/
def GeneratorM.Framed {α : Type} (x : GeneratorM α) : Prop := ∀ c, SameFrame c (x c).2

namespace GeneratorM.Framed

variable {α β : Type}

theorem pure (a : α) : (Pure.pure a : GeneratorM α).Framed := SameFrame.refl

theorem bind {x : GeneratorM α} {f : α → GeneratorM β} (hx : x.Framed) (hf : ∀ a, (f a).Framed) :
    (x >>= f).Framed :=
  fun c => (hx c).trans (hf _ _)

theorem map {x : GeneratorM α} (f : α → β) (hx : x.Framed) : (f <$> x).Framed := hx

theorem getContext : getContext.Framed := SameFrame.refl

theorem emit (f : BytecodePiece → BytecodePiece) : (emit f).Framed := fun _ =>
  ⟨rfl, rfl, rfl, rfl, rfl, rfl, rfl, List.prefix_rfl, List.prefix_rfl⟩

theorem report (location : SourceLocation) (message : String) :
    (report location message).Framed := fun _ =>
  ⟨rfl, rfl, rfl, rfl, rfl, rfl, rfl, List.prefix_append _ _, List.prefix_rfl⟩

theorem abandon (location : SourceLocation) : (abandon location).Framed := fun _ =>
  ⟨rfl, rfl, rfl, rfl, rfl, rfl, rfl, List.prefix_rfl, List.prefix_append _ _⟩

theorem setBytecode (bytecode : Bytecode) :
    (modifyContext fun c => { c with bytecode := bytecode }).Framed := fun _ =>
  ⟨rfl, rfl, rfl, rfl, rfl, rfl, rfl, List.prefix_rfl, List.prefix_rfl⟩

theorem failWith (location : SourceLocation) (message : String) :
    (failWith location message).Framed :=
  (report location message).bind fun _ => (abandon location).bind fun _ => pure _

theorem giveUp (location : SourceLocation) : (giveUp location).Framed :=
  (abandon location).bind fun _ => pure _

theorem popValue (reg : Register) (offset : ℤ) (type : TypeId) :
    (popValue reg offset type).Framed := fun _ =>
  ⟨rfl, rfl, rfl, rfl, rfl, rfl, rfl, List.prefix_rfl, List.prefix_rfl⟩

theorem pushValue (reg : Register) (offset : ℤ) (type : TypeId) :
    (pushValue reg offset type).Framed := fun _ =>
  ⟨rfl, rfl, rfl, rfl, rfl, rfl, rfl, List.prefix_rfl, List.prefix_rfl⟩

theorem performCast (ltype rtype : TypeId) : (performCast ltype rtype).Framed := by
  unfold TinCompiler.performCast
  split
  · exact pure false
  · exact (emit _).bind fun _ => pure true

/-! ### What the nodes do with the types of their operands -/

theorem generateConst (e : ASTExpression) : (generateConst e).Framed := by
  unfold TinCompiler.generateConst
  split
  · refine getContext.bind fun c => ?_
    dsimp only
    split
    · exact (emit _).bind fun _ => pure _
    · exact (report _ _).bind fun _ => (abandon _).bind fun _ => pure _
  case h_4 =>
    exact getContext.bind fun c => (setBytecode _).bind fun _ => (emit _).bind fun _ => pure _
  case h_9 => exact pure _
  all_goals exact (emit _).bind fun _ => pure _

theorem generateIdentifier (name : String) (location : SourceLocation) :
    (generateIdentifier name location).Framed := by
  refine getContext.bind fun c => ?_
  split
  · exact failWith _ _
  · split
    · exact (pushValue _ _ _).bind fun _ => pure _
    · exact (emit _).bind fun _ => (pushValue _ _ _).bind fun _ => pure _
    · split
      · split
        · exact generateConst _
        · exact failWith _ _
      · exact failWith _ _

theorem checkArguments (location : SourceLocation) :
    ∀ (i : ℕ) (parameters : List Parameter) (types : List TypeId),
      (checkArguments location i parameters types).Framed
  | i, parameter :: parameters, type :: types => by
      unfold TinCompiler.checkArguments
      split
      · exact checkArguments location (i + 1) parameters types
      · exact getContext.bind fun _ => (report _ _).bind fun _ =>
          (checkArguments location (i + 1) parameters types).bind fun _ => pure _
  | _, [], _ => by unfold TinCompiler.checkArguments; exact pure _
  | _, _ :: _, [] => by unfold TinCompiler.checkArguments; exact pure _

theorem finishCall (name : String) (location : SourceLocation) (f : ℕ) (function : ASTFunction)
    (argOffset : ℤ) (types : List TypeId) :
    (finishCall name location f function argOffset types).Framed := by
  unfold TinCompiler.finishCall
  split
  · exact failWith _ _
  · refine (checkArguments _ _ _ _).bind fun failed => ?_
    split
    · exact giveUp _
    · exact getContext.bind fun _ => (emit _).bind fun _ => pure _

theorem generateCall (name : String) (location : SourceLocation)
    {arguments : GeneratorM (List TypeId)} (harguments : arguments.Framed) :
    (generateCall name location arguments).Framed := by
  refine getContext.bind fun c => ?_
  split
  · exact failWith _ _
  · exact (emit _).bind fun _ => getContext.bind fun _ => harguments.bind fun _ =>
      finishCall _ _ _ _ _ _

theorem generateBinary (kind : BinaryKind) (location : SourceLocation) (ltype rtype : TypeId) :
    (generateBinary kind location ltype rtype).Framed := by
  refine getContext.bind fun c => ?_
  split
  · exact (emit _).bind fun _ => pure _
  · split
    · exact failWith _ _
    · exact giveUp _

theorem generateNot (type : TypeId) : (generateNot type).Framed := (emit _).bind fun _ => pure _

theorem generateDeref (location : SourceLocation) (type : TypeId) :
    (generateDeref location type).Framed := by
  unfold TinCompiler.generateDeref
  split
  · exact failWith _ _
  · exact (emit _).bind fun _ => (pushValue _ _ _).bind fun _ => pure _

theorem generateIndex (location : SourceLocation) (rtype ltype : TypeId) :
    (generateIndex location rtype ltype).Framed := by
  refine getContext.bind fun c => ?_
  split
  · exact failWith _ _
  · split
    · exact failWith _ _
    · exact (emit _).bind fun _ => (pushValue _ _ _).bind fun _ => pure _

theorem generateCast (name : String) (location : SourceLocation) (type : TypeId) :
    (generateCast name location type).Framed := by
  refine getContext.bind fun c => ?_
  dsimp only
  split
  · exact (emit _).bind fun _ => pure _
  · exact failWith _ _

theorem placeIdentifier (name : String) (location : SourceLocation) :
    (placeIdentifier name location).Framed := by
  refine getContext.bind fun c => ?_
  split
  · exact (report _ _).bind fun _ => pure _
  · split
    · exact pure _
    · exact (emit _).bind fun _ => pure _
    · exact (report _ _).bind fun _ => pure _

theorem placeMember (previous name : String) (location : SourceLocation) (place : Place) :
    (placeMember previous name location place).Framed := by
  refine getContext.bind fun c => ?_
  split
  · split
    · exact (report _ _).bind fun _ => pure _
    · split
      · exact pure _
      · exact (emit _).bind fun _ => pure _
  · exact (report _ _).bind fun _ => pure _

theorem finishElement (location : SourceLocation) (place : Place) (rtype : TypeId) :
    (finishElement location place rtype).Framed := by
  refine getContext.bind fun c => ?_
  split
  · exact (report _ _).bind fun _ => pure _
  · exact (emit _).bind fun _ => pure _

theorem placeIndex (location : SourceLocation) {right : GeneratorM TypeId} (hright : right.Framed)
    (place : Place) : (placeIndex location right place).Framed := by
  unfold TinCompiler.placeIndex
  split
  · exact (emit _).bind fun _ => hright.bind fun _ => finishElement _ _ _
  · exact getContext.bind fun _ => (report _ _).bind fun _ => pure _

theorem bindPlace {place : GeneratorM (Option Place)} {next : Place → GeneratorM (Option Place)}
    (hplace : place.Framed) (hnext : ∀ place, (next place).Framed) :
    (bindPlace place next).Framed := by
  refine hplace.bind fun place => ?_
  cases place with
  | none => exact pure none
  | some place => exact hnext place

theorem referenceTo (location : SourceLocation) (invalid : Option SourceLocation)
    {place : GeneratorM (Option Place)} (hplace : place.Framed) :
    (referenceTo location invalid place).Framed := by
  unfold TinCompiler.referenceTo
  split
  · exact failWith _ _
  · refine hplace.bind fun place => ?_
    split
    · exact giveUp _
    · exact (emit _).bind fun _ => pure _

theorem generateMemberValue (location : SourceLocation) (type : TypeId) :
    (generateMemberValue location type).Framed := by
  unfold TinCompiler.generateMemberValue
  split
  · exact (emit _).bind fun _ => (pushValue _ _ _).bind fun _ => pure _
  · exact giveUp _

theorem generateAssign (location : SourceLocation) (rtype ltype : TypeId) :
    (generateAssign location rtype ltype).Framed := by
  unfold TinCompiler.generateAssign
  split
  · split
    · exact (emit _).bind fun _ => (popValue _ _ _).bind fun _ => (pushValue _ _ _).bind fun _ => pure _
    · exact failWith _ _
  · exact giveUp _

theorem generateStep (kind : StepKind) (location : SourceLocation) (type : TypeId) :
    (generateStep kind location type).Framed := by
  refine getContext.bind fun c => ?_
  split
  · split
    · exact (emit _).bind fun _ => pure _
    · exact failWith _ _
  · exact giveUp _

/-! ### The recursion -/

mutual

theorem generateExpression : ∀ e : ASTExpression, (TinCompiler.generateExpression e).Framed
  | .identifier name location => generateIdentifier name location
  | .functionCall name arguments location =>
      generateCall name location (generateArguments arguments)
  | .binary _ left right _ =>
      (generateExpression left).bind fun _ => (generateExpression right).bind fun _ =>
        generateBinary _ _ _ _
  | .not left _ => (generateExpression left).bind fun _ => generateNot _
  | .refer left _ => (generateReference left).bind fun _ => pure _
  | .deref left _ => (generateExpression left).bind fun _ => generateDeref _ _
  | .index left right _ =>
      (generateExpression right).bind fun _ => (generateExpression left).bind fun _ =>
        generateIndex _ _ _
  | .member left _ _ =>
      (referenceTo _ _ ((generatePlace left).bindPlace fun _ => placeMember _ _ _ _)).bind fun _ =>
        generateMemberValue _ _
  | .cast left _ _ => (generateExpression left).bind fun _ => generateCast _ _ _
  | .assign left right _ =>
      (generateExpression right).bind fun _ => (generateReference left).bind fun _ =>
        generateAssign _ _ _
  | .step _ left _ => (generateReference left).bind fun _ => generateStep _ _ _
  | .sizeof .. | .literalInt .. | .literalFloat .. | .literalStr .. | .literalChar ..
  | .literalNull .. | .literalTrue .. | .literalFalse .. => generateConst _

theorem generateArguments :
    ∀ arguments : List ASTExpression, (TinCompiler.generateArguments arguments).Framed
  | [] => pure _
  | arg :: arguments =>
      (generateExpression arg).bind fun _ => (generateArguments arguments).bind fun _ =>
        pure _

theorem generateReference : ∀ e : ASTExpression, (TinCompiler.generateReference e).Framed
  | .deref left _ => (generateExpression left).bind fun _ => pure _
  | .identifier name location => referenceTo _ _ (placeIdentifier name location)
  | .member left _ _ =>
      referenceTo _ _ ((generatePlace left).bindPlace fun _ => placeMember _ _ _ _)
  | .index left right _ =>
      referenceTo _ _ ((generatePlace left).bindPlace (placeIndex _ (generateExpression right)))
  | .functionCall .. | .binary .. | .not .. | .refer .. | .cast .. | .assign .. | .step ..
  | .sizeof .. | .literalInt .. | .literalFloat .. | .literalStr .. | .literalChar ..
  | .literalNull .. | .literalTrue .. | .literalFalse .. => failWith _ _

theorem generatePlace : ∀ e : ASTExpression, (TinCompiler.generatePlace e).Framed
  | .identifier name location => placeIdentifier name location
  | .member left _ _ => (generatePlace left).bindPlace fun _ => placeMember _ _ _ _
  | .index left right _ =>
      (generatePlace left).bindPlace (placeIndex _ (generateExpression right))
  | .functionCall .. | .binary .. | .not .. | .refer .. | .deref .. | .cast .. | .assign ..
  | .step .. | .sizeof .. | .literalInt .. | .literalFloat .. | .literalStr .. | .literalChar ..
  | .literalNull .. | .literalTrue .. | .literalFalse .. => pure _

end

end GeneratorM.Framed

end TinCompiler
