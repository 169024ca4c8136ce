import TinCompiler.Generator.Linking
import Mathlib.Data.List.Forall2

/-!
# The calls of an expression

`callNames` lists the function calls of an expression in the order in which their code is
emitted.  The code of an expression has a call for each of them, with a relocation to the
function that `findFunction` returns (`CallsAt`), and if something is given up, for some of
them.
-/

namespace TinCompiler

open GeneratorM

/-! ## The calls in the source -/

mutual

/-- The names of the functions that are called, in the order of the code. -/
def callNames : ASTExpression → List String
  | .functionCall name arguments _ => argumentNames arguments ++ [name]
  | .binary _ left right _ => callNames left ++ callNames right
  | .not left _ => callNames left
  | .refer left _ => referenceNames left
  | .deref left _ => callNames left
  | .index left right _ => callNames right ++ callNames left
  | .member left _ _ => placeNames left
  | .cast left _ _ => callNames left
  | .assign left right _ => callNames right ++ referenceNames left
  | .step _ left _ => referenceNames left
  | .identifier .. | .sizeof .. | .literalInt .. | .literalFloat .. | .literalStr ..
  | .literalChar .. | .literalNull .. | .literalTrue .. | .literalFalse .. => []

def argumentNames : List ASTExpression → List String
  | [] => []
  | arg :: arguments => callNames arg ++ argumentNames arguments

/-- The same for an expression whose address is taken. -/
def referenceNames : ASTExpression → List String
  | .deref left _ => callNames left
  | .member left _ _ => placeNames left
  | .index left right _ => placeNames left ++ callNames right
  | _ => []

/-- The indices on the way to a place. -/
def placeNames : ASTExpression → List String
  | .member left _ _ => placeNames left
  | .index left right _ => placeNames left ++ callNames right
  | _ => []

end

/-! ## Code without calls -/

/-- `x` leaves its frame and the finished pieces alone and emits no call. -/
structure GeneratorM.Callless {α : Type} (x : GeneratorM α) : Prop where
  framed : x.Framed
  pieces : ∀ c, (x c).2.bytecode.pieces = c.bytecode.pieces
  piece : ∀ c, CodeExtends c.piece (x c).2.piece []

@[simp] theorem Bytecode.pieces_appendString (bytecode : Bytecode) (str : String) :
    (bytecode.appendString str).2.pieces = bytecode.pieces := by
  unfold Bytecode.appendString
  split <;> rfl

namespace GeneratorM.Callless

variable {α β : Type}

theorem pure (a : α) : (Pure.pure a : GeneratorM α).Callless :=
  ⟨.pure a, fun _ => rfl, fun c => CodeExtends.refl c.piece⟩

theorem bind {x : GeneratorM α} {f : α → GeneratorM β} (hx : x.Callless)
    (hf : ∀ a, (f a).Callless) : (x >>= f).Callless :=
  ⟨hx.framed.bind fun a => (hf a).framed, fun c => ((hf _).pieces _).trans (hx.pieces c),
    fun c => (hx.piece c).andThen ((hf _).piece _)⟩

/-- The piece is the same. -/
theorem of_same {x : GeneratorM α} (h : x.Framed)
    (hpieces : ∀ c, (x c).2.bytecode.pieces = c.bytecode.pieces)
    (hpiece : ∀ c, (x c).2.piece = c.piece) : x.Callless :=
  ⟨h, hpieces, fun c => by rw [hpiece c]; exact CodeExtends.refl c.piece⟩

theorem getContext : getContext.Callless := of_same .getContext (fun _ => rfl) fun _ => rfl

theorem emit {f : BytecodePiece → BytecodePiece} (hf : ∀ piece, CodeExtends piece (f piece) []) :
    (emit f).Callless := ⟨.emit f, fun _ => rfl, fun c => hf c.piece⟩

theorem report (location : SourceLocation) (message : String) :
    (report location message).Callless := of_same (.report _ _) (fun _ => rfl) fun _ => rfl

theorem abandon (location : SourceLocation) : (abandon location).Callless :=
  of_same (.abandon _) (fun _ => rfl) fun _ => rfl

theorem failWith (location : SourceLocation) (message : String) :
    (failWith location message).Callless := of_same (.failWith _ _) (fun _ => rfl) fun _ => rfl

theorem giveUp (location : SourceLocation) : (giveUp location).Callless :=
  of_same (.giveUp _) (fun _ => rfl) fun _ => rfl

theorem popValue (reg : Register) (offset : ℤ) (type : TypeId) :
    (popValue reg offset type).Callless :=
  ⟨.popValue _ _ _, fun _ => rfl, fun _ => CodeExtends.generatePop _ _ _ _ _ _⟩

theorem pushValue (reg : Register) (offset : ℤ) (type : TypeId) :
    (pushValue reg offset type).Callless :=
  ⟨.pushValue _ _ _, fun _ => rfl, fun _ => CodeExtends.generatePush _ _ _ _ _ _⟩

theorem performCast (ltype rtype : TypeId) : (performCast ltype rtype).Callless := by
  unfold TinCompiler.performCast
  split
  · exact pure false
  · exact (emit fun piece => CodeExtends.emitConversion piece _).bind fun _ => pure true

theorem emitPop (reg : Register) : (TinCompiler.emit fun piece => piece.emitPop reg).Callless :=
  emit fun piece => CodeExtends.emitPop piece reg

theorem emitConst (imm : ℤ) :
    (TinCompiler.emit fun piece => (piece.emitLi .a imm).emitPush .a).Callless :=
  emit fun piece => (CodeExtends.emitLi piece .a imm).andThen (CodeExtends.emitPush _ .a)

theorem emitDataptr (offset : ℤ) :
    (TinCompiler.emit fun piece => piece.emitDataptr .b offset).Callless :=
  emit fun piece => CodeExtends.emitDataptr piece .b offset

theorem emitIncr (amount : ℤ) : (TinCompiler.emit fun piece => piece.emitIncr .sp amount).Callless :=
  emit fun piece => CodeExtends.emitIncr piece .sp amount

/-! ### What the nodes do with the types of their operands -/

/-- The string is put into the global data. -/
theorem literalStr (text : String) (location : SourceLocation) :
    (generateConst (.literalStr text location)).Callless where
  framed := .generateConst _
  pieces := fun c => Bytecode.pieces_appendString c.bytecode text
  piece := fun c => (CodeExtends.emitDataptr c.piece .a _).andThen (CodeExtends.emitPush _ .a)

theorem generateConst (e : ASTExpression) : (generateConst e).Callless := by
  cases e with
  | literalStr text location => exact literalStr text location
  | sizeof name location =>
      refine getContext.bind fun c => ?_
      dsimp only
      split
      · exact (emitConst _).bind fun _ => pure _
      · exact (report _ _).bind fun _ => (abandon _).bind fun _ => pure _
  | literalInt | literalFloat | literalChar | literalNull | literalTrue | literalFalse =>
      exact (emitConst _).bind fun _ => pure _
  | _ => exact pure _
theorem generateIdentifier (name : String) (location : SourceLocation) :
    (generateIdentifier name location).Callless := by
  refine getContext.bind fun c => ?_
  split
  · exact failWith _ _
  · split
    · exact (pushValue _ _ _).bind fun _ => pure _
    · exact (emitDataptr _).bind fun _ => (pushValue _ _ _).bind fun _ => pure _
    · split
      · split
        · exact generateConst _
        · exact failWith _ _
      · exact failWith _ _

theorem checkArguments (location : SourceLocation) :
    ∀ (i : ℕ) (parameters : List Parameter) (types : List TypeId),
      (checkArguments location i parameters types).Callless
  | i, parameter :: parameters, type :: types => by
      unfold TinCompiler.checkArguments
      split
      · exact checkArguments location (i + 1) parameters types
      · exact getContext.bind fun _ => (report _ _).bind fun _ =>
          (checkArguments location (i + 1) parameters types).bind fun _ => pure _
  | _, [], _ => by unfold TinCompiler.checkArguments; exact pure _
  | _, _ :: _, [] => by unfold TinCompiler.checkArguments; exact pure _

theorem generateBinary (kind : BinaryKind) (location : SourceLocation) (ltype rtype : TypeId) :
    (generateBinary kind location ltype rtype).Callless := by
  refine getContext.bind fun c => ?_
  split
  · exact (emit fun piece => CodeExtends.emitBinary piece _ _ _ _ _).bind fun _ => pure _
  · split
    · exact failWith _ _
    · exact giveUp _

theorem generateNot (type : TypeId) : (generateNot type).Callless :=
  bind (emit fun piece => ((CodeExtends.emitPop piece .a).andThen (CodeExtends.emit _ rfl)).andThen
    (CodeExtends.emitPush _ .a)) fun _ => pure _

theorem generateDeref (location : SourceLocation) (type : TypeId) :
    (generateDeref location type).Callless := by
  unfold TinCompiler.generateDeref
  split
  · exact failWith _ _
  · exact (emitPop .b).bind fun _ => (pushValue _ _ _).bind fun _ => pure _

theorem emitScaled (size : ℕ) (first second : Register) : (TinCompiler.emit fun piece =>
    emitElement size ((piece.emitPop first).emitPop second)).Callless :=
  emit fun piece => ((CodeExtends.emitPop piece first).andThen (CodeExtends.emitPop _ second)).andThen
    (CodeExtends.emitElement _ _)

theorem generateIndex (location : SourceLocation) (rtype ltype : TypeId) :
    (generateIndex location rtype ltype).Callless := by
  refine getContext.bind fun c => ?_
  split
  · exact failWith _ _
  · split
    · exact failWith _ _
    · exact (emitScaled _ .b .a).bind fun _ => (pushValue _ _ _).bind fun _ => pure _

theorem generateCast (name : String) (location : SourceLocation) (type : TypeId) :
    (generateCast name location type).Callless := by
  refine getContext.bind fun c => ?_
  dsimp only
  split
  · exact (emit fun piece => CodeExtends.emitConversion piece _).bind fun _ => pure _
  · exact failWith _ _

theorem placeIdentifier (name : String) (location : SourceLocation) :
    (placeIdentifier name location).Callless := by
  refine getContext.bind fun c => ?_
  split
  · exact (report _ _).bind fun _ => pure _
  · split
    · exact pure _
    · exact (emitDataptr _).bind fun _ => pure _
    · exact (report _ _).bind fun _ => pure _

theorem placeMember (previous name : String) (location : SourceLocation) (place : Place) :
    (placeMember previous name location place).Callless := by
  refine getContext.bind fun c => ?_
  split
  · split
    · exact (report _ _).bind fun _ => pure _
    · split
      · exact pure _
      · exact (emit fun piece => CodeExtends.emitLoadPointer piece _).bind fun _ => pure _
  · exact (report _ _).bind fun _ => pure _

theorem finishElement (location : SourceLocation) (place : Place) (rtype : TypeId) :
    (finishElement location place rtype).Callless := by
  refine getContext.bind fun c => ?_
  split
  · exact (report _ _).bind fun _ => pure _
  · exact (emitScaled _ .a .b).bind fun _ => pure _

theorem generateMemberValue (location : SourceLocation) (type : TypeId) :
    (generateMemberValue location type).Callless := by
  unfold TinCompiler.generateMemberValue
  split
  · exact (emitPop .b).bind fun _ => (pushValue _ _ _).bind fun _ => pure _
  · exact giveUp _

theorem generateAssign (location : SourceLocation) (rtype ltype : TypeId) :
    (generateAssign location rtype ltype).Callless := by
  unfold TinCompiler.generateAssign
  split
  · split
    · exact (emitPop .b).bind fun _ => (popValue _ _ _).bind fun _ =>
        (pushValue _ _ _).bind fun _ => pure _
    · exact failWith _ _
  · exact giveUp _

theorem generateStep (kind : StepKind) (location : SourceLocation) (type : TypeId) :
    (generateStep kind location type).Callless := by
  refine getContext.bind fun c => ?_
  split
  · split
    · exact (emit fun piece => CodeExtends.emitStep piece _).bind fun _ => pure _
    · exact failWith _ _
  · exact giveUp _

end GeneratorM.Callless

/-! ## The calls of a computation -/

/-- From the context `c` on, `x` emits calls of functions that are found under some of `names`, in
this order; under all of them where `x` is `done` and nothing is given up. -/
structure GeneratorM.CallsAt {α : Type} (x : GeneratorM α) (c : GeneratorContext)
    (names : List String) (done : Prop) : Prop where
  framed : SameFrame c (x c).2
  pieces : (x c).2.bytecode.pieces = c.bytecode.pieces
  calls : ∃ compiled functions, compiled.Sublist names ∧
    (done → (x c).2.abandoned = c.abandoned → compiled = names) ∧
    List.Forall₂ (fun name f => c.ast.findFunction name c.currentScopeId = some f)
      compiled functions ∧
    CodeExtends c.piece (x c).2.piece functions

namespace GeneratorM.CallsAt

variable {α β : Type} {x : GeneratorM α} {f : α → GeneratorM β} {c : GeneratorContext}
  {names names' : List String} {done done' : Prop}

theorem bind (hx : x.CallsAt c names done) (hf : (f (x c).1).CallsAt (x c).2 names' done')
    (hdone : done' → done) : (x >>= f).CallsAt c (names ++ names') done' where
  framed := hx.framed.trans hf.framed
  pieces := hf.pieces.trans hx.pieces
  calls := by
    obtain ⟨compiled, functions, hsub, hall, hfound, hextends⟩ := hx.calls
    obtain ⟨compiled', functions', hsub', hall', hfound', hextends'⟩ := hf.calls
    refine ⟨compiled ++ compiled', functions ++ functions', hsub.append hsub', fun hdone' hsame => ?_,
      ?_, hextends.trans hextends'⟩
    · -- what is given up is not taken back
      have hfirst : (x c).2.abandoned = c.abandoned :=
        (hsame ▸ hf.framed.abandoned).eq_of_length_le hx.framed.abandoned.length_le
      rw [hall (hdone hdone') hfirst, hall' hdone' (hsame.trans hfirst.symm)]
    · rw [hx.framed.ast, hx.framed.currentScopeId] at hfound'
      exact List.rel_append hfound hfound'

/-- Code without calls in front. -/
theorem bindCallless (hx : x.Callless) (hf : (f (x c).1).CallsAt (x c).2 names done) :
    (x >>= f).CallsAt c names done := by
  have hcallsAt : x.CallsAt c [] True :=
    ⟨hx.framed c, hx.pieces c, [], [], .refl _, fun _ _ => rfl, .nil, hx.piece c⟩
  exact bind hcallsAt hf fun _ => trivial

/-- Code without calls behind. -/
theorem thenCallless (hx : x.CallsAt c names done) (hf : ∀ a, (f a).Callless) :
    (x >>= f).CallsAt c names done := by
  have hcallsAt : (f (x c).1).CallsAt (x c).2 [] done :=
    ⟨(hf (x c).1).framed _, (hf (x c).1).pieces _, [], [], .refl _, fun _ _ => rfl, .nil,
      (hf (x c).1).piece _⟩
  have hbind := bind hx hcallsAt id
  rwa [List.append_nil] at hbind

theorem callless (hx : x.Callless) : x.CallsAt c [] done :=
  ⟨hx.framed c, hx.pieces c, [], [], .refl _, fun _ _ => rfl, .nil, hx.piece c⟩

/-- Nothing is emitted, since something is given up or `x` is not done. -/
theorem fails (hx : x.Callless) (hfails : done → (x c).2.abandoned ≠ c.abandoned) :
    x.CallsAt c names done :=
  ⟨hx.framed c, hx.pieces c, [], [], List.nil_sublist _, fun hdone hsame => absurd hsame (hfails hdone), .nil,
    hx.piece c⟩

theorem failWith (location : SourceLocation) (message : String) :
    (failWith location message).CallsAt c names done :=
  fails (.failWith _ _) fun _ => by simp [TinCompiler.failWith, report, abandon]

theorem giveUp (location : SourceLocation) : (giveUp location).CallsAt c names done :=
  fails (.giveUp _) fun _ => by simp [TinCompiler.giveUp, abandon]

/-- The call itself, behind its arguments. -/
theorem finishCall {name : String} (location : SourceLocation) {g : ℕ} (function : ASTFunction)
    (argOffset : ℤ) (types : List TypeId)
    (hfound : c.ast.findFunction name c.currentScopeId = some g) :
    (finishCall name location g function argOffset types).CallsAt c [name] True := by
  unfold TinCompiler.finishCall
  split
  · exact failWith _ _
  · refine bindCallless (.checkArguments _ _ _ _) ?_
    have hframe := (GeneratorM.Callless.checkArguments location 0 function.parameters types).framed c
    generalize (checkArguments location 0 function.parameters types c).2 = c₁ at hframe
    split
    · exact giveUp _
    · rw [← hframe.ast, ← hframe.currentScopeId] at hfound
      refine ⟨SameFrame.trans (.refl c₁) (GeneratorM.Framed.emit _ c₁), rfl, [name], [g], .refl _,
        fun _ _ => rfl, .cons hfound .nil, ?_⟩
      exact CodeExtends.emitCallSequence c₁.piece c₁.ast g function _

theorem generateCall (name : String) (location : SourceLocation)
    {arguments : GeneratorM (List TypeId)} (harguments : ∀ c, arguments.CallsAt c names True) :
    (generateCall name location arguments).CallsAt c (names ++ [name]) True := by
  unfold TinCompiler.generateCall
  refine bindCallless .getContext ?_
  cases hfound : c.ast.findFunction name c.currentScopeId with
  | none =>
      simp only [getContext_apply, hfound]
      exact failWith _ _
  | some g =>
      simp only [getContext_apply, hfound]
      refine bindCallless (.emitIncr _) (bindCallless .getContext (bind (harguments _) ?_ id))
      refine finishCall _ _ _ _ ?_
      have hframe := (harguments (c.withPiece
        (c.piece.emitIncr .sp (-(c.ast.functions g).parametersSize)))).framed
      exact (congrArg₂ (fun ast scopeId => AST.findFunction ast name scopeId) hframe.ast
        hframe.currentScopeId).trans hfound

/-- A place that fails reports it, and is given up behind. -/
theorem place_none {x : GeneratorM (Option Place)} (hx : x.Callless) (hnone : (x c).1 = none) :
    x.CallsAt c names ((x c).1.isSome = true) :=
  fails hx fun hdone => by simp [hnone] at hdone

theorem bindPlace {place : GeneratorM (Option Place)} {next : Place → GeneratorM (Option Place)}
    (hplace : place.CallsAt c names ((place c).1.isSome = true))
    (hnext : ∀ p, (next p).CallsAt (place c).2 names' ((next p (place c).2).1.isSome = true)) :
    (bindPlace place next).CallsAt c (names ++ names') ((bindPlace place next c).1.isSome = true) := by
  unfold TinCompiler.bindPlace
  rw [bind_apply]
  cases hresult : (place c).1 with
  | none =>
      refine bind hplace ?_ fun hdone => by simp at hdone
      rw [hresult]
      exact fails (.pure none) fun hdone => by simp at hdone
  | some p =>
      refine bind hplace ?_ fun _ => by rw [hresult]; rfl
      rw [hresult]
      exact hnext p

theorem placeIndex (location : SourceLocation) {right : GeneratorM TypeId}
    (hright : ∀ c, right.CallsAt c names True) (place : Place) (c : GeneratorContext) :
    (placeIndex location right place).CallsAt c names
      ((placeIndex location right place c).1.isSome = true) := by
  unfold TinCompiler.placeIndex
  split
  · have hpush : (TinCompiler.emit fun piece => (emitLoadPointer place piece).emitPush .b).Callless :=
      .emit fun piece => (CodeExtends.emitLoadPointer piece place).andThen (CodeExtends.emitPush _ .b)
    have hcalls := (hright ((TinCompiler.emit fun piece =>
      (emitLoadPointer place piece).emitPush .b) c).2).thenCallless fun rtype =>
        Callless.finishElement location place rtype
    refine bindCallless hpush ⟨hcalls.framed, hcalls.pieces, ?_⟩
    obtain ⟨compiled, functions, hsub, hall, hrest⟩ := hcalls.calls
    exact ⟨compiled, functions, hsub, fun _ => hall trivial, hrest⟩
  · exact place_none (Callless.getContext.bind fun _ => (Callless.report _ _).bind fun _ => .pure _) rfl

theorem referenceTo (location : SourceLocation) (invalid : Option SourceLocation)
    {place : GeneratorM (Option Place)} (hplace : place.CallsAt c names ((place c).1.isSome = true)) :
    (referenceTo location invalid place).CallsAt c names True := by
  unfold TinCompiler.referenceTo
  split
  · exact failWith _ _
  · have hframe := hplace.framed
    cases hresult : (place c).1 with
    | none =>
        obtain ⟨compiled, functions, hsub, -, hfound, hextends⟩ := hplace.calls
        refine ⟨hframe.trans ?_, ?_, compiled, functions, hsub, fun _ hsame => ?_, hfound, ?_⟩
        · rw [bind_apply, hresult]
          exact GeneratorM.Framed.giveUp _ _
        · rw [bind_apply, hresult]
          exact hplace.pieces
        · -- giving up is recorded
          have hlength := congrArg List.length hsame
          rw [bind_apply, hresult] at hlength
          simp only [TinCompiler.giveUp, abandon, bind_apply, modifyContext_apply, pure_apply,
            List.length_append, List.length_singleton] at hlength
          have hle := hframe.abandoned.length_le
          omega
        · rw [bind_apply, hresult]
          exact hextends
    | some p =>
        rw [← List.append_nil names]
        refine bind hplace ?_ fun _ => by rw [hresult]; rfl
        rw [hresult]
        exact callless ((Callless.emit fun piece => CodeExtends.emitAddress piece p).bind fun _ =>
          .pure _)

/-! ### The recursion -/

mutual

theorem generateExpression : ∀ (e : ASTExpression) (c : GeneratorContext),
    (TinCompiler.generateExpression e).CallsAt c (callNames e) True
  | .identifier name location, _ => callless (.generateIdentifier name location)
  | .functionCall name arguments location, _ =>
      generateCall name location (generateArguments arguments)
  | .binary _ left right _, c =>
      bind (generateExpression left c) (thenCallless (generateExpression right _) fun _ =>
        .generateBinary _ _ _ _) id
  | .not left _, c => thenCallless (generateExpression left c) fun _ => .generateNot _
  | .refer left _, c => thenCallless (generateReference left c) fun _ => .pure _
  | .deref left _, c => thenCallless (generateExpression left c) fun _ => .generateDeref _ _
  | .index left right _, c =>
      bind (generateExpression right c) (thenCallless (generateExpression left _) fun _ =>
        .generateIndex _ _ _) id
  | .member left name location, c =>
      thenCallless (referenceTo location (invalidInReference left) (placeOfMember left name location c))
        fun _ => .generateMemberValue _ _
  | .cast left _ _, c => thenCallless (generateExpression left c) fun _ => .generateCast _ _ _
  | .assign left right _, c =>
      bind (generateExpression right c) (thenCallless (generateReference left _) fun _ =>
        .generateAssign _ _ _) id
  | .step _ left _, c => thenCallless (generateReference left c) fun _ => .generateStep _ _ _
  | .sizeof .., _ => callless (.generateConst _)
  | .literalInt .., _ => callless (.generateConst _)
  | .literalFloat .., _ => callless (.generateConst _)
  | .literalStr .., _ => callless (.generateConst _)
  | .literalChar .., _ => callless (.generateConst _)
  | .literalNull .., _ => callless (.generateConst _)
  | .literalTrue .., _ => callless (.generateConst _)
  | .literalFalse .., _ => callless (.generateConst _)

theorem generateArguments : ∀ (arguments : List ASTExpression) (c : GeneratorContext),
    (TinCompiler.generateArguments arguments).CallsAt c (argumentNames arguments) True
  | [], _ => callless (.pure _)
  | arg :: arguments, c =>
      bind (generateExpression arg c) (thenCallless (generateArguments arguments _) fun _ => .pure _) id

theorem generateReference : ∀ (e : ASTExpression) (c : GeneratorContext),
    (TinCompiler.generateReference e).CallsAt c (referenceNames e) True
  | .deref left _, c => thenCallless (generateExpression left c) fun _ => .pure _
  | .identifier name location, _ => referenceTo location none (callless (.placeIdentifier name location))
  | .member left name location, c =>
      referenceTo location (invalidInReference left) (placeOfMember left name location c)
  | .index left right location, c =>
      referenceTo location (invalidInReference left)
        (bindPlace (generatePlace left c) fun _ => placeIndex location (generateExpression right) _ _)
  | .functionCall .., _ => failWith _ _
  | .binary .., _ => failWith _ _
  | .not .., _ => failWith _ _
  | .refer .., _ => failWith _ _
  | .cast .., _ => failWith _ _
  | .assign .., _ => failWith _ _
  | .step .., _ => failWith _ _
  | .sizeof .., _ => failWith _ _
  | .literalInt .., _ => failWith _ _
  | .literalFloat .., _ => failWith _ _
  | .literalStr .., _ => failWith _ _
  | .literalChar .., _ => failWith _ _
  | .literalNull .., _ => failWith _ _
  | .literalTrue .., _ => failWith _ _
  | .literalFalse .., _ => failWith _ _

theorem generatePlace : ∀ (e : ASTExpression) (c : GeneratorContext),
    (TinCompiler.generatePlace e).CallsAt c (placeNames e)
      ((TinCompiler.generatePlace e c).1.isSome = true)
  | .identifier name location, _ => callless (.placeIdentifier name location)
  | .member left name location, c => placeOfMember left name location c
  | .index left right location, c =>
      bindPlace (generatePlace left c) fun _ => placeIndex location (generateExpression right) _ _
  | .functionCall .., _ => place_none (.pure _) rfl
  | .binary .., _ => place_none (.pure _) rfl
  | .not .., _ => place_none (.pure _) rfl
  | .refer .., _ => place_none (.pure _) rfl
  | .deref .., _ => place_none (.pure _) rfl
  | .cast .., _ => place_none (.pure _) rfl
  | .assign .., _ => place_none (.pure _) rfl
  | .step .., _ => place_none (.pure _) rfl
  | .sizeof .., _ => place_none (.pure _) rfl
  | .literalInt .., _ => place_none (.pure _) rfl
  | .literalFloat .., _ => place_none (.pure _) rfl
  | .literalStr .., _ => place_none (.pure _) rfl
  | .literalChar .., _ => place_none (.pure _) rfl
  | .literalNull .., _ => place_none (.pure _) rfl
  | .literalTrue .., _ => place_none (.pure _) rfl
  | .literalFalse .., _ => place_none (.pure _) rfl

/-- The way through a member. -/
theorem placeOfMember (left : ASTExpression) (name : String) (location : SourceLocation)
    (c : GeneratorContext) :
    (TinCompiler.bindPlace (TinCompiler.generatePlace left)
      (placeMember left.name name location)).CallsAt c (placeNames left)
      ((TinCompiler.bindPlace (TinCompiler.generatePlace left)
        (placeMember left.name name location) c).1.isSome = true) := by
  have hcalls := bindPlace (generatePlace left c) fun p =>
    callless (c := (TinCompiler.generatePlace left c).2) (.placeMember left.name name location p)
  rwa [List.append_nil] at hcalls

end

end GeneratorM.CallsAt

end TinCompiler
