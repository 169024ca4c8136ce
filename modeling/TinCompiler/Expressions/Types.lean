import TinCompiler.Generator.Frame

/-!
# The types of expressions

The type that `generateExpression` returns depends on the tables and the scope only.
`typeOf` computes it without generating code (`generateExpression_fst`).
-/

namespace TinCompiler

/-- The types of the kinds with `isConst`. -/
def constType : ASTExpression → TypeId
  | .sizeof .. => .int
  | .literalInt .. => .int
  | .literalFloat .. => .float
  | .literalStr .. => .setPointerLevel .char 1
  | .literalChar .. => .char
  | .literalNull .. => .setPointerLevel .void 1
  | .literalTrue .. => .bool
  | .literalFalse .. => .bool
  | _ => .void

def identifierType (ast : AST) (scopeId : ScopeId) (name : String) : TypeId :=
  match ast.findVariable name scopeId with
  | none => .void
  | some identifier =>
      match identifier.kind with
      | .localId => identifier.type
      | .globalId => identifier.type
      | .constId =>
          match identifier.constant with
          | none => .void
          | some e => if e.isConst then constType e else .void

/-- All arguments can be passed. -/
def ArgumentsFit : List Parameter → List TypeId → Prop
  | parameter :: parameters, type :: types =>
      Assignable parameter.typeId type ∧ ArgumentsFit parameters types
  | _, _ => True

instance decidableArgumentsFit : ∀ parameters types, Decidable (ArgumentsFit parameters types)
  | _ :: parameters, _ :: types =>
      have := decidableArgumentsFit parameters types
      inferInstanceAs (Decidable (_ ∧ _))
  | [], _ => inferInstanceAs (Decidable True)
  | _ :: _, [] => inferInstanceAs (Decidable True)

def callType (ast : AST) (scopeId : ScopeId) (name : String) (types : List TypeId) : TypeId :=
  match ast.findFunction name scopeId with
  | none => .void
  | some f =>
      let function := ast.functions f
      if function.parameters.length = types.length ∧ ArgumentsFit function.parameters types then
        function.returnType
      else .void

/-- The type of a variable that is not a constant. -/
def variableType (ast : AST) (scopeId : ScopeId) (name : String) : Option TypeId :=
  (ast.findVariable name scopeId).bind fun identifier =>
    if identifier.kind = .constId then none else some identifier.type

/-- The type of a member reached from a place of this type. -/
def memberType (ast : AST) (previous name : String) (type : TypeId) : Option TypeId :=
  if type.pointerLevel ≤ 1 then
    match memberOf ast previous name type with
    | .error _ => none
    | .ok mem => some mem.typeId
  else none

/-- The type of an element of a place of this type. -/
def elementType (rtype type : TypeId) : Option TypeId :=
  if 0 < type.pointerLevel ∧ rtype = .int then some type.deref else none

mutual

/-- The type of an expression, `void` if it is not accepted. -/
def typeOf (ast : AST) (scopeId : ScopeId) : ASTExpression → TypeId
  | .identifier name _ => identifierType ast scopeId name
  | .functionCall name arguments _ => callType ast scopeId name (typesOf ast scopeId arguments)
  | .binary kind left right _ =>
      ((binaryTypes kind (typeOf ast scopeId left) (typeOf ast scopeId right)).map Prod.fst).getD .void
  | .not left _ => typeOf ast scopeId left
  | .refer left _ => (referenceType ast scopeId left).refer
  | .deref left _ =>
      if (typeOf ast scopeId left).pointerLevel = 0 then .void else (typeOf ast scopeId left).deref
  | .index left right _ =>
      if (typeOf ast scopeId left).pointerLevel = 0 then .void
      else if typeOf ast scopeId right ≠ .int then .void
      else (typeOf ast scopeId left).deref
  | .member left name _ =>
      if (invalidInReference left).isSome then .void
      else ((placeType ast scopeId left).bind (memberType ast left.name name)).getD .void
  | .cast left name _ =>
      if (explicitCast (typeOf ast scopeId left) (ast.convertFullType name scopeId)).isSome then
        ast.convertFullType name scopeId
      else .void
  | .assign left right _ =>
      if (referenceType ast scopeId left).Valid ∧ (typeOf ast scopeId right).Valid ∧
          Assignable (referenceType ast scopeId left) (typeOf ast scopeId right) then
        referenceType ast scopeId left
      else .void
  | .step _ left _ => if referenceType ast scopeId left = .int then .int else .void
  | .sizeof name location => constType (.sizeof name location)
  | .literalInt value location => constType (.literalInt value location)
  | .literalFloat bits location => constType (.literalFloat bits location)
  | .literalStr text location => constType (.literalStr text location)
  | .literalChar text location => constType (.literalChar text location)
  | .literalNull location => constType (.literalNull location)
  | .literalTrue location => constType (.literalTrue location)
  | .literalFalse location => constType (.literalFalse location)

def typesOf (ast : AST) (scopeId : ScopeId) : List ASTExpression → List TypeId
  | [] => []
  | arg :: arguments => typeOf ast scopeId arg :: typesOf ast scopeId arguments

/-- The type of what a reference points to. -/
def referenceType (ast : AST) (scopeId : ScopeId) : ASTExpression → TypeId
  | .deref left _ => (typeOf ast scopeId left).deref
  | .identifier name _ => (variableType ast scopeId name).getD .void
  | .member left name _ =>
      if (invalidInReference left).isSome then .void
      else ((placeType ast scopeId left).bind (memberType ast left.name name)).getD .void
  | .index left right _ =>
      if (invalidInReference left).isSome then .void
      else ((placeType ast scopeId left).bind (elementType (typeOf ast scopeId right))).getD .void
  | _ => .void

/-- The type of a place, if there is one. -/
def placeType (ast : AST) (scopeId : ScopeId) : ASTExpression → Option TypeId
  | .identifier name _ => variableType ast scopeId name
  | .member left name _ => (placeType ast scopeId left).bind (memberType ast left.name name)
  | .index left right _ =>
      (placeType ast scopeId left).bind (elementType (typeOf ast scopeId right))
  | _ => none

end

/-! ## The types that the generator returns -/

section Nodes

variable (c : GeneratorContext)

theorem generateConst_fst (e : ASTExpression) : (generateConst e c).1 = constType e := by
  cases e with
  | sizeof name location =>
      rw [generateConst, getContext_bind_apply, GeneratorM.ite_apply]
      split <;> rfl
  | _ => rfl

theorem generateIdentifier_fst (name : String) (location : SourceLocation) :
    (generateIdentifier name location c).1 = identifierType c.ast c.currentScopeId name := by
  unfold generateIdentifier identifierType
  rw [getContext_bind_apply]
  cases c.ast.findVariable name c.currentScopeId with
  | none => rfl
  | some identifier =>
      dsimp only
      cases identifier.kind with
      | localId => rfl
      | globalId => rfl
      | constId =>
          dsimp only
          cases identifier.constant with
          | none => rfl
          | some e =>
              dsimp only
              rw [GeneratorM.ite_apply]
              split
              · exact generateConst_fst c e
              · rfl

theorem checkArguments_fst (location : SourceLocation) :
    ∀ (i : ℕ) (parameters : List Parameter) (types : List TypeId) (c : GeneratorContext),
      (checkArguments location i parameters types c).1 = !decide (ArgumentsFit parameters types)
  | i, parameter :: parameters, type :: types, c => by
      unfold checkArguments ArgumentsFit
      by_cases hfit : Assignable parameter.typeId type
      · simpa [hfit] using checkArguments_fst location (i + 1) parameters types c
      · simp [hfit]
  | _, [], _, _ => rfl
  | _, _ :: _, [], _ => rfl

theorem finishCall_fst (name : String) (location : SourceLocation) (f : ℕ) (function : ASTFunction)
    (argOffset : ℤ) (types : List TypeId) :
    (finishCall name location f function argOffset types c).1 =
      if function.parameters.length = types.length ∧ ArgumentsFit function.parameters types then
        function.returnType
      else .void := by
  unfold finishCall
  rw [GeneratorM.ite_apply]
  by_cases hlength : function.parameters.length = types.length
  · rw [if_neg (not_not.mpr hlength), GeneratorM.bind_apply, checkArguments_fst,
      GeneratorM.ite_apply]
    by_cases hfit : ArgumentsFit function.parameters types <;> simp [hlength, hfit, giveUp]
  · rw [if_pos hlength, if_neg fun h => hlength h.1]
    rfl

theorem generateCall_fst (name : String) (location : SourceLocation)
    (arguments : GeneratorM (List TypeId)) {types : List TypeId}
    (htypes : ∀ c', c'.ast = c.ast → c'.currentScopeId = c.currentScopeId →
      (arguments c').1 = types) :
    (generateCall name location arguments c).1 = callType c.ast c.currentScopeId name types := by
  unfold generateCall callType
  rw [getContext_bind_apply]
  cases c.ast.findFunction name c.currentScopeId with
  | none => rfl
  | some f =>
      have harguments := htypes
        (c.withPiece (c.piece.emitIncr .sp (-(c.ast.functions f).parametersSize))) rfl rfl
      dsimp only
      rw [GeneratorM.bind_apply, getContext_bind_apply, GeneratorM.bind_apply, finishCall_fst]
      exact congrArg (fun types => if (c.ast.functions f).parameters.length = types.length ∧
        ArgumentsFit (c.ast.functions f).parameters types then (c.ast.functions f).returnType
        else .void) harguments

theorem generateBinary_fst (kind : BinaryKind) (location : SourceLocation) (ltype rtype : TypeId) :
    (generateBinary kind location ltype rtype c).1 =
      ((binaryTypes kind ltype rtype).map Prod.fst).getD .void := by
  unfold generateBinary
  rw [getContext_bind_apply]
  cases binaryTypes kind ltype rtype with
  | some types => rfl
  | none =>
      dsimp only
      rw [GeneratorM.ite_apply]
      split <;> rfl

theorem generateDeref_fst (location : SourceLocation) (type : TypeId) :
    (generateDeref location type c).1 =
      if type.pointerLevel = 0 then .void else type.deref := by
  unfold generateDeref
  rw [GeneratorM.ite_apply]
  split <;> rfl

theorem generateIndex_fst (location : SourceLocation) (rtype ltype : TypeId) :
    (generateIndex location rtype ltype c).1 =
      if ltype.pointerLevel = 0 then .void else if rtype ≠ .int then .void else ltype.deref := by
  unfold generateIndex
  rw [getContext_bind_apply, GeneratorM.ite_apply]
  split
  · rfl
  · rw [GeneratorM.ite_apply]
    split <;> rfl

theorem generateCast_fst (name : String) (location : SourceLocation) (type : TypeId) :
    (generateCast name location type c).1 =
      if (explicitCast type (c.ast.convertFullType name c.currentScopeId)).isSome then
        c.ast.convertFullType name c.currentScopeId
      else .void := by
  unfold generateCast
  rw [getContext_bind_apply]
  cases explicitCast type (c.ast.convertFullType name c.currentScopeId) <;> rfl

theorem generateMemberValue_fst (location : SourceLocation) (type : TypeId) :
    (generateMemberValue location type c).1 = type := by
  unfold generateMemberValue
  rw [GeneratorM.ite_apply]
  split
  · rfl
  · next h => simp [TypeId.not_valid_iff.mp h, giveUp]

theorem generateAssign_fst (location : SourceLocation) (rtype ltype : TypeId) :
    (generateAssign location rtype ltype c).1 =
      if ltype.Valid ∧ rtype.Valid ∧ Assignable ltype rtype then ltype else .void := by
  unfold generateAssign
  rw [GeneratorM.ite_apply]
  by_cases hvalid : ltype.Valid ∧ rtype.Valid
  · by_cases hassign : Assignable ltype rtype <;> simp [hvalid, hassign, failWith]
  · rw [if_neg hvalid, if_neg fun h => hvalid ⟨h.1, h.2.1⟩]
    rfl

theorem generateStep_fst (kind : StepKind) (location : SourceLocation) (type : TypeId) :
    (generateStep kind location type c).1 = if type = .int then .int else .void := by
  unfold generateStep
  rw [getContext_bind_apply, GeneratorM.ite_apply]
  by_cases hint : type = .int
  · subst hint
    rfl
  · simp only [hint, if_false]
    split <;> rfl

theorem placeIdentifier_fst (name : String) (location : SourceLocation) :
    (placeIdentifier name location c).1.map Place.type =
      variableType c.ast c.currentScopeId name := by
  unfold placeIdentifier variableType
  rw [getContext_bind_apply]
  cases c.ast.findVariable name c.currentScopeId with
  | none => rfl
  | some identifier =>
      dsimp only [Option.bind_some]
      cases identifier.kind <;> rfl

theorem placeMember_fst (previous name : String) (location : SourceLocation) (place : Place) :
    (placeMember previous name location place c).1.map Place.type =
      memberType c.ast previous name place.type := by
  unfold placeMember memberType
  rw [getContext_bind_apply, GeneratorM.ite_apply]
  split
  · cases memberOf c.ast previous name place.type with
    | error message => rfl
    | ok mem =>
        dsimp only
        rw [GeneratorM.ite_apply]
        split <;> rfl
  · rfl

theorem finishElement_fst (location : SourceLocation) (place : Place) (rtype : TypeId) :
    (finishElement location place rtype c).1.map Place.type =
      if rtype = .int then some place.type.deref else none := by
  unfold finishElement
  rw [getContext_bind_apply, GeneratorM.ite_apply]
  by_cases hint : rtype = .int
  · rw [if_neg (not_not.mpr hint), if_pos hint]
    rfl
  · rw [if_pos hint, if_neg hint]
    rfl

theorem placeIndex_fst (location : SourceLocation) (right : GeneratorM TypeId) (place : Place)
    {rtype : TypeId} (hright : ∀ c', c'.ast = c.ast → c'.currentScopeId = c.currentScopeId →
      (right c').1 = rtype) :
    (placeIndex location right place c).1.map Place.type =
      elementType rtype place.type := by
  unfold placeIndex elementType
  rw [GeneratorM.ite_apply]
  by_cases hlevel : 0 < place.type.pointerLevel
  · have hrtype := hright (c.withPiece ((emitLoadPointer place c.piece).emitPush .b)) rfl rfl
    rw [if_pos hlevel, GeneratorM.bind_apply, GeneratorM.bind_apply, emit, modifyContext_apply,
      finishElement_fst, hrtype]
    simp [hlevel]
  · rw [if_neg hlevel, if_neg fun h => hlevel h.1]
    rfl

/-- `bindPlace` on the types of the places. -/
theorem bindPlace_fst {place : GeneratorM (Option Place)} {next : Place → GeneratorM (Option Place)}
    {type : Option TypeId} {nextType : TypeId → Option TypeId}
    (hplace : (place c).1.map Place.type = type)
    (hnext : ∀ place', (next place' (place c).2).1.map Place.type = nextType place'.type) :
    (bindPlace place next c).1.map Place.type = type.bind nextType := by
  subst hplace
  unfold bindPlace
  rw [GeneratorM.bind_apply]
  cases (place c).1 with
  | none => rfl
  | some place' => exact hnext place'

theorem referenceTo_fst (location : SourceLocation) (invalid : Option SourceLocation)
    (place : GeneratorM (Option Place)) :
    (referenceTo location invalid place c).1 =
      if invalid.isSome then .void else ((place c).1.map Place.type).getD .void := by
  unfold referenceTo
  cases invalid with
  | some location => rfl
  | none =>
      cases hplace : (place c).1 <;> simp [hplace, giveUp]

end Nodes

/-- `placeIndex` behind the place it starts from. -/
theorem placeIndex_after (left : ASTExpression) {right : ASTExpression} (location : SourceLocation)
    (c : GeneratorContext)
    (hright : ∀ c', (generateExpression right c').1 = typeOf c'.ast c'.currentScopeId right)
    (place : Place) :
    (placeIndex location (generateExpression right) place (generatePlace left c).2).1.map
      Place.type = elementType (typeOf c.ast c.currentScopeId right) place.type := by
  have hleft := GeneratorM.Framed.generatePlace left c
  refine placeIndex_fst _ location _ place fun c' hast hscope => ?_
  rw [hright, hast, hscope, hleft.ast, hleft.currentScopeId]

/-- `placeMember` behind the place it starts from. -/
theorem placeMember_after (left : ASTExpression) (name : String) (location : SourceLocation)
    (c : GeneratorContext) (place : Place) :
    (placeMember left.name name location place (generatePlace left c).2).1.map Place.type =
      memberType c.ast left.name name place.type := by
  rw [placeMember_fst, (GeneratorM.Framed.generatePlace left c).ast]

mutual

theorem generateExpression_fst : ∀ (e : ASTExpression) (c : GeneratorContext),
    (generateExpression e c).1 = typeOf c.ast c.currentScopeId e
  | .identifier name location, c => generateIdentifier_fst c name location
  | .functionCall name arguments location, c =>
      generateCall_fst c name location _ fun c' hast hscope => by
        rw [generateArguments_fst arguments c', hast, hscope]
  | .binary kind left right location, c => by
      have hleft := GeneratorM.Framed.generateExpression left c
      rw [generateExpression, GeneratorM.bind_apply, GeneratorM.bind_apply, generateBinary_fst,
        generateExpression_fst right, generateExpression_fst left, hleft.ast, hleft.currentScopeId,
        typeOf]
  | .not left _, c => generateExpression_fst left c
  | .refer left _, c => congrArg TypeId.refer (generateReference_fst left c)
  | .deref left _, c => by
      rw [generateExpression, GeneratorM.bind_apply, generateDeref_fst, generateExpression_fst left,
        typeOf]
  | .index left right _, c => by
      have hright := GeneratorM.Framed.generateExpression right c
      rw [generateExpression, GeneratorM.bind_apply, GeneratorM.bind_apply, generateIndex_fst,
        generateExpression_fst left, generateExpression_fst right, hright.ast,
        hright.currentScopeId, typeOf]
  | .member left name location, c => by
      rw [generateExpression, GeneratorM.bind_apply, generateMemberValue_fst, referenceTo_fst,
        bindPlace_fst c (generatePlace_fst left c) (placeMember_after left name location c), typeOf]
  | .cast left name location, c => by
      have hleft := GeneratorM.Framed.generateExpression left c
      rw [generateExpression, GeneratorM.bind_apply, generateCast_fst, generateExpression_fst left,
        hleft.ast, hleft.currentScopeId, typeOf]
  | .assign left right location, c => by
      have hright := GeneratorM.Framed.generateExpression right c
      rw [generateExpression, GeneratorM.bind_apply, GeneratorM.bind_apply, generateAssign_fst,
        generateReference_fst left, generateExpression_fst right, hright.ast,
        hright.currentScopeId, typeOf]
  | .step kind left _, c => by
      rw [generateExpression, GeneratorM.bind_apply, generateStep_fst, generateReference_fst left,
        typeOf]
  | .sizeof name location, c => by rw [generateExpression, generateConst_fst, typeOf]
  | .literalInt value location, c => by rw [generateExpression, generateConst_fst, typeOf]
  | .literalFloat bits location, c => by rw [generateExpression, generateConst_fst, typeOf]
  | .literalStr text location, c => by rw [generateExpression, generateConst_fst, typeOf]
  | .literalChar text location, c => by rw [generateExpression, generateConst_fst, typeOf]
  | .literalNull location, c => by rw [generateExpression, generateConst_fst, typeOf]
  | .literalTrue location, c => by rw [generateExpression, generateConst_fst, typeOf]
  | .literalFalse location, c => by rw [generateExpression, generateConst_fst, typeOf]

theorem generateArguments_fst : ∀ (arguments : List ASTExpression) (c : GeneratorContext),
    (generateArguments arguments c).1 = typesOf c.ast c.currentScopeId arguments
  | [], _ => rfl
  | arg :: arguments, c => by
      have harg := GeneratorM.Framed.generateExpression arg c
      rw [generateArguments, GeneratorM.bind_apply, GeneratorM.bind_apply, GeneratorM.pure_apply,
        generateArguments_fst arguments, generateExpression_fst arg, harg.ast, harg.currentScopeId,
        typesOf]

theorem generateReference_fst : ∀ (e : ASTExpression) (c : GeneratorContext),
    (generateReference e c).1 = referenceType c.ast c.currentScopeId e
  | .deref left _, c => congrArg TypeId.deref (generateExpression_fst left c)
  | .identifier name location, c => by
      rw [generateReference, referenceTo_fst, placeIdentifier_fst, referenceType]
      rfl
  | .member left name location, c => by
      rw [generateReference, referenceTo_fst,
        bindPlace_fst c (generatePlace_fst left c) (placeMember_after left name location c),
        referenceType]
  | .index left right location, c => by
      rw [generateReference, referenceTo_fst, bindPlace_fst c (generatePlace_fst left c)
        (placeIndex_after left location c (generateExpression_fst right)),
        referenceType]
  | .functionCall .., _ | .binary .., _ | .not .., _ | .refer .., _ | .cast .., _ | .assign .., _
  | .step .., _ | .sizeof .., _ | .literalInt .., _ | .literalFloat .., _ | .literalStr .., _
  | .literalChar .., _ | .literalNull .., _ | .literalTrue .., _ | .literalFalse .., _ => rfl

theorem generatePlace_fst : ∀ (e : ASTExpression) (c : GeneratorContext),
    (generatePlace e c).1.map Place.type = placeType c.ast c.currentScopeId e
  | .identifier name location, c => by rw [generatePlace, placeIdentifier_fst, placeType]
  | .member left name location, c => by
      rw [generatePlace, bindPlace_fst c (generatePlace_fst left c)
        (placeMember_after left name location c), placeType]
  | .index left right location, c => by
      rw [generatePlace, bindPlace_fst c (generatePlace_fst left c)
        (placeIndex_after left location c (generateExpression_fst right)),
        placeType]
  | .functionCall .., _ | .binary .., _ | .not .., _ | .refer .., _ | .deref .., _ | .cast .., _
  | .assign .., _ | .step .., _ | .sizeof .., _ | .literalInt .., _ | .literalFloat .., _
  | .literalStr .., _ | .literalChar .., _ | .literalNull .., _ | .literalTrue .., _
  | .literalFalse .., _ => rfl

end

end TinCompiler
