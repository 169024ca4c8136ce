import TinCompiler.Generator.Context

/-!
# Code for expressions

`generateExpression` and `generateReference` of `Generator.cpp`.  The recursion over the
tree is in the mutual block at the end; what each kind of node does with the types of its
operands is in the definitions before it.
-/

namespace TinCompiler

open GeneratorM

/-! ## Constants -/

/-- `literal_string[0]`, a signed `char`. -/
def firstChar (text : String) : ℤ :=
  match text.toList with
  | [] => 0
  | c :: _ => (BitVec.ofNat 8 c.toNat).toInt

/-- The kinds with `isConst`. -/
def generateConst (e : ASTExpression) : GeneratorM TypeId :=
  match e with
  | .sizeof name location => do
      let c ← getContext
      let type := c.ast.convertFullType name c.currentScopeId
      if type.Valid then
        emit fun piece => (piece.emitLi .a (c.ast.sizeOfType type)).emitPush .a
        return .int
      else
        report location ("'" ++ name ++ "' is not a type.")
        abandon location
        return .int
  | .literalInt value _ => do
      emit fun piece => (piece.emitLi .a value.toInt).emitPush .a
      return .int
  | .literalFloat bits _ => do
      emit fun piece => (piece.emitLi .a bits.toInt).emitPush .a
      return .float
  | .literalStr text _ => do
      let c ← getContext
      let (offset, bytecode) := c.bytecode.appendString text
      modifyContext fun c => { c with bytecode := bytecode }
      emit fun piece => (piece.emitDataptr .a offset).emitPush .a
      return .setPointerLevel .char 1
  | .literalChar text _ => do
      emit fun piece => (piece.emitLi .a (firstChar text)).emitPush .a
      return .char
  | .literalNull _ => do
      emit fun piece => (piece.emitLi .a 0).emitPush .a
      return .setPointerLevel .void 1
  | .literalTrue _ => do
      emit fun piece => (piece.emitLi .a 1).emitPush .a
      return .bool
  | .literalFalse _ => do
      emit fun piece => (piece.emitLi .a 0).emitPush .a
      return .bool
  | _ => return .void

/-! ## Identifiers -/

def generateIdentifier (name : String) (location : SourceLocation) : GeneratorM TypeId := do
  let c ← getContext
  match c.ast.findVariable name c.currentScopeId with
  | none => failWith location ("Variable '" ++ name ++ "' does not exist.")
  | some identifier =>
      match identifier.kind with
      | .localId => do
          pushValue .bp identifier.offset identifier.type
          return identifier.type
      | .globalId => do
          emit fun piece => piece.emitDataptr .b identifier.offset
          pushValue .b 0 identifier.type
          return identifier.type
      | .constId =>
          match identifier.constant with
          | some e =>
              if e.isConst then generateConst e
              else failWith e.location "Constant is not a valid const expression. Only literals are allowed in constants (no operations at all)"
          -- the source takes the location of the missing expression
          | none => failWith location "Constant does not have an expression. This is not allowed since specifying one is the only way to set constants."

/-! ## Function calls -/

def voidPointer : TypeId := ⟨0, 1⟩

/-- Equal types, or a pointer of level 1 on one side and `void*` on the other. -/
def Assignable (ltype rtype : TypeId) : Prop :=
  ltype = rtype ∨ (ltype = voidPointer ∧ rtype.pointerLevel = 1) ∨
    (ltype.pointerLevel = 1 ∧ rtype = voidPointer)

instance (ltype rtype : TypeId) : Decidable (Assignable ltype rtype) :=
  inferInstanceAs (Decidable (_ ∨ _))

/-- The loop over the argument types, from the argument of index `i`: whether one of them
fails. -/
def checkArguments (location : SourceLocation) :
    ℕ → List Parameter → List TypeId → GeneratorM Bool
  | i, parameter :: parameters, type :: types => do
      if Assignable parameter.typeId type then checkArguments location (i + 1) parameters types
      else
        let c ← getContext
        report location ("The " ++ toString i ++ " argument is of type '" ++ c.ast.nameOfType type ++
          "' but the parameter '" ++ parameter.name ++ "' requires '" ++
          c.ast.nameOfType parameter.typeId ++ "'.")
        let _ ← checkArguments location (i + 1) parameters types
        return true
  | _, _, _ => return false

/-- The arguments are popped in reverse into the space for the parameters. -/
def popArguments (ast : AST) (argDiff : ℤ) (parameters : List Parameter) (piece : BytecodePiece) :
    BytecodePiece :=
  parameters.reverse.foldl
    (fun piece parameter =>
      generatePop ast .b ast.depth (parameter.offset - 16 - argDiff) parameter.typeId piece)
    piece

/-- From `emit_mov_rr(REG_B, REG_SP)` on; `argDiff` is what the arguments have changed
`virtual_sp` by. -/
def emitCallSequence (ast : AST) (f : ℕ) (function : ASTFunction) (argDiff : ℤ)
    (piece : BytecodePiece) : BytecodePiece :=
  let piece := popArguments ast argDiff function.parameters (piece.emitMovRR .b .sp)
  let call := piece.emitCall
  let piece := call.2.addRelocation f call.1
  if function.returnType.Valid then
    generatePush ast .b ast.depth (function.returnOffset - 16) function.returnType
      ((piece.emitMovRR .b .sp).emitIncr .sp function.parametersSize)
  else piece.emitIncr .sp function.parametersSize

/-- The case `FUNCTION_CALL` behind the arguments; `argOffset` is `arg_offset`. -/
def finishCall (name : String) (location : SourceLocation) (f : ℕ) (function : ASTFunction)
    (argOffset : ℤ) (types : List TypeId) : GeneratorM TypeId := do
  if function.parameters.length ≠ types.length then
    failWith location ("The function call has " ++ toString types.length ++
      " arguments but the function '" ++ name ++ "' requires " ++
      toString function.parameters.length ++ ".")
  else
    let failed ← checkArguments location 0 function.parameters types
    if failed then giveUp location
    else
      let c ← getContext
      emit (emitCallSequence c.ast f function (c.piece.virtualSp - argOffset))
      return function.returnType

/-- The case `FUNCTION_CALL`; `arguments` generates the arguments. -/
def generateCall (name : String) (location : SourceLocation)
    (arguments : GeneratorM (List TypeId)) : GeneratorM TypeId := do
  let c ← getContext
  match c.ast.findFunction name c.currentScopeId with
  | none => failWith location ("Function '" ++ name ++ "' does not exist.")
  | some f => do
      let function := c.ast.functions f
      emit fun piece => piece.emitIncr .sp (-function.parametersSize)
      let before ← getContext
      let types ← arguments
      finishCall name location f function before.piece.virtualSp types

/-! ## Operators -/

def BinaryKind.IsArithmetic : BinaryKind → Bool
  | add | sub | mul | div => true
  | _ => false

def BinaryKind.IsLogical : BinaryKind → Bool
  | and | or => true
  | _ => false

/-- `out_type` and `is_float`, unless the operation cannot be performed. -/
def binaryTypes (kind : BinaryKind) (ltype rtype : TypeId) : Option (TypeId × Bool) :=
  if kind.IsArithmetic then
    if ltype = rtype then some (ltype, false)
    else if (ltype = .int ∧ rtype.pointerLevel > 0) ∨ (rtype = .int ∧ ltype.pointerLevel > 0) then
      some (if rtype.pointerLevel ≠ 0 then rtype else ltype, false)
    else if (ltype = .int ∨ ltype = .char) ∧ (rtype = .int ∨ rtype = .char) then some (.int, false)
    else if (ltype = .int ∨ ltype = .float) ∧ (rtype = .int ∨ rtype = .float) then
      some (.float, true)
    else none
  else if kind.IsLogical then some (.bool, false)
  else if (ltype = .int ∨ ltype = .char ∨ ltype = .float) ∧
      (rtype = .int ∨ rtype = .char ∨ rtype = .float) then some (.bool, false)
  else none

/-- The instruction of the operator, on the registers `a` and `d`. -/
def emitOperator (kind : BinaryKind) (operandSize : ℕ) (isFloat : Bool) (piece : BytecodePiece) :
    BytecodePiece :=
  match kind with
  | .add => piece.emitArithmetic .add .a .d isFloat
  | .sub => piece.emitArithmetic .sub .a .d isFloat
  | .mul => piece.emitArithmetic .mul .a .d isFloat
  | .div => piece.emitArithmetic .div .a .d isFloat
  | .and => piece.emitAnd .a .d
  | .or => piece.emitOr .a .d
  | .equal => piece.emitCompare .equal .a .d operandSize isFloat
  | .notEqual => piece.emitCompare .notEqual .a .d operandSize isFloat
  | .less => piece.emitCompare .less .a .d operandSize isFloat
  | .greater => piece.emitCompare .greater .a .d operandSize isFloat
  | .lessEqual => piece.emitCompare .lessEqual .a .d operandSize isFloat
  | .greaterEqual => piece.emitCompare .greaterEqual .a .d operandSize isFloat

/-- The instruction that `emitOperator` emits. -/
def operatorInst (operandSize : ℕ) (isFloat : Bool) : BinaryKind → Instruction
  | .add => .arithmetic .add .a .d isFloat
  | .sub => .arithmetic .sub .a .d isFloat
  | .mul => .arithmetic .mul .a .d isFloat
  | .div => .arithmetic .div .a .d isFloat
  | .and => .and .a .d
  | .or => .or .a .d
  | .equal => .compare .equal .a .d (operandSize ||| if isFloat then 16 else 0)
  | .notEqual => .compare .notEqual .a .d (operandSize ||| if isFloat then 16 else 0)
  | .less => .compare .less .a .d (operandSize ||| if isFloat then 16 else 0)
  | .greater => .compare .greater .a .d (operandSize ||| if isFloat then 16 else 0)
  | .lessEqual => .compare .lessEqual .a .d (operandSize ||| if isFloat then 16 else 0)
  | .greaterEqual => .compare .greaterEqual .a .d (operandSize ||| if isFloat then 16 else 0)

theorem emitOperator_eq (kind : BinaryKind) (operandSize : ℕ) (isFloat : Bool)
    (piece : BytecodePiece) : emitOperator kind operandSize isFloat piece =
      piece.emit (operatorInst operandSize isFloat kind) := by
  cases kind <;> rfl

/-- From `emit_pop(REG_D)` to `emit_push(REG_A)`. -/
def emitBinary (ast : AST) (kind : BinaryKind) (ltype rtype : TypeId) (isFloat : Bool)
    (piece : BytecodePiece) : BytecodePiece :=
  let castRight := isFloat && (rtype = .int || rtype = .char)
  let castLeft := isFloat && (ltype = .int || ltype = .char)
  let operandType := if castRight || castLeft then .float else ltype
  let piece := piece.emitPop .d
  let piece := if castRight then piece.emitCast .d .intFloat else piece
  let piece := piece.emitPop .a
  let piece := if castLeft then piece.emitCast .a .intFloat else piece
  (emitOperator kind (ast.getType operandType).size isFloat piece).emitPush .a

/-- The binary operators, after both operands. -/
def generateBinary (kind : BinaryKind) (location : SourceLocation) (ltype rtype : TypeId) :
    GeneratorM TypeId := do
  let c ← getContext
  match binaryTypes kind ltype rtype with
  | some (outType, isFloat) => do
      emit (emitBinary c.ast kind ltype rtype isFloat)
      return outType
  | none =>
      -- nothing is reported when an operand has failed already
      if c.reporter.errors = 0 ∨ (ltype ≠ .void ∧ rtype ≠ .void) then
        failWith location ("Cannot perform operation on the types '" ++ c.ast.nameOfType ltype ++
          "', '" ++ c.ast.nameOfType rtype ++ "'.")
      else giveUp location

/-- `NOT`, after the operand. -/
def generateNot (type : TypeId) : GeneratorM TypeId := do
  emit fun piece => ((piece.emitPop .a).emitNot .a .a).emitPush .a
  return type

/-- `DEREF`, after the operand at `location`; the value pushed is read with the type of the
pointer. -/
def generateDeref (location : SourceLocation) (type : TypeId) : GeneratorM TypeId := do
  if type.pointerLevel = 0 then failWith location "Cannot dereference non-pointer types."
  else
    emit fun piece => piece.emitPop .b
    pushValue .b 0 type
    return type.deref

/-- Scale the index in `a` and add it to the pointer in `b`. -/
def emitElement (size : ℕ) (piece : BytecodePiece) : BytecodePiece :=
  ((piece.emitLi .c size).emitArithmetic .mul .a .c).emitArithmetic .add .b .a

/-- `INDEX`, after the index and the pointer; `location` is that of the pointer. -/
def generateIndex (location : SourceLocation) (rtype ltype : TypeId) : GeneratorM TypeId := do
  let c ← getContext
  if ltype.pointerLevel = 0 then
    failWith location ("Index operator only works on pointers. '" ++ c.ast.nameOfType ltype ++
      "' is not a pointer.")
  else if rtype ≠ .int then
    failWith location ("Value in brackets of index operator must be an integer. '" ++
      c.ast.nameOfType rtype ++ "' is not an integer.")
  else
    emit fun piece => emitElement (c.ast.sizeOfType ltype.deref) ((piece.emitPop .b).emitPop .a)
    pushValue .b 0 ltype.deref
    return ltype.deref

/-- The conversion of an explicit cast, if it is allowed. -/
def explicitCast (type castType : TypeId) : Option (Option CastType) :=
  if type = castType then some none
  else if type.pointerLevel > 0 ∧ castType.pointerLevel > 0 then some none
  else if IsSmallInteger type ∧ IsSmallInteger castType then some none
  else if (type = .int ∨ type = .float) ∧ (castType = .int ∨ castType = .float) then
    some (some (if type = .int then .intFloat else .floatInt))
  else none

/-- `CAST`, after the operand. -/
def generateCast (name : String) (location : SourceLocation) (type : TypeId) :
    GeneratorM TypeId := do
  let c ← getContext
  let castType := c.ast.convertFullType name c.currentScopeId
  match explicitCast type castType with
  | some conversion => do
      emit (emitConversion conversion)
      return castType
  | none => failWith location ("You cannot cast '" ++ c.ast.nameOfType type ++ "' to '" ++
      c.ast.nameOfType castType ++ "'.")

/-! ## References -/

/-- The variables `ptrType`, `type` and `offset` of `generateReference`; `isLocal` is
`ptrType == LOCAL`, an offset to `bp` rather than to `b`. -/
structure Place where
  isLocal : Bool
  type : TypeId
  offset : ℤ

/-- The first node on the way to the identifier that a reference cannot have. -/
def invalidInReference : ASTExpression → Option SourceLocation
  | .identifier .. => none
  | .member left _ _ => invalidInReference left
  | .index left _ _ => invalidInReference left
  | e => some e.location

def placeIdentifier (name : String) (location : SourceLocation) : GeneratorM (Option Place) := do
  let c ← getContext
  match c.ast.findVariable name c.currentScopeId with
  | none => do
      report location ("Variable '" ++ name ++ "' does not exist.")
      return none
  | some identifier =>
      match identifier.kind with
      | .localId => return some ⟨true, identifier.type, identifier.offset⟩
      | .globalId => do
          emit fun piece => piece.emitDataptr .b identifier.offset
          return some ⟨false, identifier.type, 0⟩
      | .constId => do
          report location "Cannot reference constants."
          return none

/-- `reg_b` becomes the pointer that is stored at the place. -/
def emitLoadPointer (place : Place) (piece : BytecodePiece) : BytecodePiece :=
  piece.emitMovRMDisp .b (if place.isLocal then .bp else .b) 8 place.offset

/-- The member of the structure `type.base()`, with the errors of both kinds of access. -/
def memberOf (ast : AST) (previous name : String) (type : TypeId) : Except String Member :=
  match (ast.getType type.base).astStruct with
  | none => .error ("Member access is only allowed on structure types. '" ++ previous ++ "' is '" ++
      ast.nameOfType type ++ "'.")
  | some s =>
      match (ast.structures s).findMember name with
      | none => .error ("'" ++ name ++ "' is not a member of '" ++ ast.nameOfType type ++ "'.")
      | some mem => .ok mem

/-- The case `MEMBER` of the loop. -/
def placeMember (previous name : String) (location : SourceLocation) (place : Place) :
    GeneratorM (Option Place) := do
  let c ← getContext
  if place.type.pointerLevel ≤ 1 then
    match memberOf c.ast previous name place.type with
    | .error message => do
        report location message
        return none
    | .ok mem =>
        if place.type.pointerLevel = 0 then
          return some { place with type := mem.typeId, offset := place.offset + mem.offset }
        else do
          emit (emitLoadPointer place)
          return some ⟨false, mem.typeId, mem.offset⟩
  else
    report location ("Member access does not work with pointer levels above 1. '" ++ previous ++
      "' is '" ++ c.ast.nameOfType place.type ++ "'.")
    return none

/-- The case `INDEX` of the loop behind the index. -/
def finishElement (location : SourceLocation) (place : Place) (rtype : TypeId) :
    GeneratorM (Option Place) := do
  let c ← getContext
  if rtype ≠ .int then
    report location ("Expression within brackets of indexing operator must be an integer. '" ++
      c.ast.nameOfType place.type ++ "' is not an integer.")
    return none
  else
    emit fun piece =>
      emitElement (c.ast.sizeOfType place.type.deref) ((piece.emitPop .a).emitPop .b)
    return some ⟨false, place.type.deref, 0⟩

/-- The case `INDEX` of the loop; `right` generates the index. -/
def placeIndex (location : SourceLocation) (right : GeneratorM TypeId) (place : Place) :
    GeneratorM (Option Place) := do
  if place.type.pointerLevel > 0 then
    emit fun piece => (emitLoadPointer place piece).emitPush .b
    let rtype ← right
    finishElement location place rtype
  else
    let c ← getContext
    report location ("Indexing is only allowed on pointer types. '" ++ c.ast.nameOfType place.type ++
      "' is not a pointer.")
    return none

/-- The next round of the loop, unless the previous one has failed. -/
def bindPlace (place : GeneratorM (Option Place)) (next : Place → GeneratorM (Option Place)) :
    GeneratorM (Option Place) := do
  match ← place with
  | none => return none
  | some place => next place

/-- Push the address of the place. -/
def emitAddress (place : Place) (piece : BytecodePiece) : BytecodePiece :=
  let piece :=
    if place.isLocal then
      if place.offset ≠ 0 then (piece.emitLi .b place.offset).emitArithmetic .add .b .bp
      else piece.emitMovRR .b .bp
    else if place.offset ≠ 0 then (piece.emitLi .a place.offset).emitArithmetic .add .b .a
    else piece
  piece.emitPush .b

/-- The end of `generateReference`: the loop over the nodes is `place`, and it is not begun
when one of them is invalid. -/
def referenceTo (location : SourceLocation) (invalid : Option SourceLocation)
    (place : GeneratorM (Option Place)) : GeneratorM TypeId := do
  match invalid with
  | some location => failWith location "Invalid expression/operation in reference."
  | none =>
      match ← place with
      | none => giveUp location
      | some place => do
          emit (emitAddress place)
          return place.type

/-- `MEMBER` in an expression, after its reference. -/
def generateMemberValue (location : SourceLocation) (type : TypeId) : GeneratorM TypeId := do
  if type.Valid then
    emit fun piece => piece.emitPop .b
    pushValue .b 0 type
    return type
  else giveUp location

/-- `ASSIGN`, after the value and the reference. -/
def generateAssign (location : SourceLocation) (rtype ltype : TypeId) : GeneratorM TypeId := do
  if ltype.Valid ∧ rtype.Valid then
    if Assignable ltype rtype then
      emit fun piece => piece.emitPop .b
      popValue .b 0 ltype
      pushValue .b 0 ltype
      return ltype
    else failWith location "The expression and reference has mismatching types."
  else giveUp location

/-- The code of an increment or decrement; `PRE_DECREMENT` adds 1 as `PRE_INCREMENT` does. -/
def emitStep (kind : StepKind) (piece : BytecodePiece) : BytecodePiece :=
  let piece := (piece.emitPop .b).emitMovRM .a .b 4
  let piece :=
    match kind with
    | .preIncrement => (piece.emitIncr .a 1).emitPush .a
    | .preDecrement => (piece.emitIncr .a 1).emitPush .a
    | .postIncrement => (piece.emitPush .a).emitIncr .a 1
    | .postDecrement => (piece.emitPush .a).emitIncr .a (-1)
  piece.emitMovMR .b .a 4

/-- The increments and decrements, after the reference at `location`. -/
def generateStep (kind : StepKind) (location : SourceLocation) (type : TypeId) :
    GeneratorM TypeId := do
  let c ← getContext
  if type.Valid then
    if type = .int then
      emit (emitStep kind)
      return type
    else failWith location ("Increment/decrement is limited to integer types. Type was '" ++
      c.ast.nameOfType type ++ "'.")
  else giveUp location

/-! ## The recursion -/

mutual

def generateExpression : ASTExpression → GeneratorM TypeId
  | .identifier name location => generateIdentifier name location
  | .functionCall name arguments location =>
      generateCall name location (generateArguments arguments)
  | .binary kind left right location => do
      let ltype ← generateExpression left
      let rtype ← generateExpression right
      generateBinary kind location ltype rtype
  | .not left _ => do generateNot (← generateExpression left)
  | .refer left _ => return (← generateReference left).refer
  | .deref left _ => do generateDeref left.location (← generateExpression left)
  | .index left right _ => do
      let rtype ← generateExpression right
      let ltype ← generateExpression left
      generateIndex left.location rtype ltype
  | .member left name location => do
      let type ← referenceTo location (invalidInReference left)
        (bindPlace (generatePlace left) (placeMember left.name name location))
      generateMemberValue location type
  | .cast left name location => do generateCast name location (← generateExpression left)
  | .assign left right location => do
      let rtype ← generateExpression right
      let ltype ← generateReference left
      generateAssign location rtype ltype
  | .step kind left _ => do generateStep kind left.location (← generateReference left)
  | .sizeof name location => generateConst (.sizeof name location)
  | .literalInt value location => generateConst (.literalInt value location)
  | .literalFloat bits location => generateConst (.literalFloat bits location)
  | .literalStr text location => generateConst (.literalStr text location)
  | .literalChar text location => generateConst (.literalChar text location)
  | .literalNull location => generateConst (.literalNull location)
  | .literalTrue location => generateConst (.literalTrue location)
  | .literalFalse location => generateConst (.literalFalse location)

def generateArguments : List ASTExpression → GeneratorM (List TypeId)
  | [] => return []
  | arg :: arguments => do
      let type ← generateExpression arg
      let types ← generateArguments arguments
      return type :: types

def generateReference : ASTExpression → GeneratorM TypeId
  | .deref left _ => return (← generateExpression left).deref
  | .identifier name location => referenceTo location none (placeIdentifier name location)
  | .member left name location =>
      referenceTo location (invalidInReference left)
        (bindPlace (generatePlace left) (placeMember left.name name location))
  | .index left right location =>
      referenceTo location (invalidInReference left)
        (bindPlace (generatePlace left) (placeIndex location (generateExpression right)))
  | e => failWith e.location "Invalid expression/operation in reference."

/-- The loop of `generateReference`, from the identifier outwards. -/
def generatePlace : ASTExpression → GeneratorM (Option Place)
  | .identifier name location => placeIdentifier name location
  | .member left name location =>
      bindPlace (generatePlace left) (placeMember left.name name location)
  | .index left right location =>
      bindPlace (generatePlace left) (placeIndex location (generateExpression right))
  | _ => return none

end

section Equations

variable (left right : ASTExpression) (name : String) (location : SourceLocation)

theorem generateReference_deref : generateReference (.deref left location) =
    (do return (← generateExpression left).deref) := rfl

theorem generateReference_identifier : generateReference (.identifier name location) =
    referenceTo location none (placeIdentifier name location) := rfl

theorem generateReference_member : generateReference (.member left name location) =
    referenceTo location (invalidInReference left)
      (bindPlace (generatePlace left) (placeMember left.name name location)) := rfl

theorem generateReference_index : generateReference (.index left right location) =
    referenceTo location (invalidInReference left)
      (bindPlace (generatePlace left) (placeIndex location (generateExpression right))) := rfl

theorem generatePlace_identifier : generatePlace (.identifier name location) =
    placeIdentifier name location := rfl

theorem generatePlace_member : generatePlace (.member left name location) =
    bindPlace (generatePlace left) (placeMember left.name name location) := rfl

theorem generatePlace_index : generatePlace (.index left right location) =
    bindPlace (generatePlace left) (placeIndex location (generateExpression right)) := rfl

theorem generateExpression_member : generateExpression (.member left name location) =
    generateReference (.member left name location) >>= generateMemberValue location := rfl

end Equations

end TinCompiler
