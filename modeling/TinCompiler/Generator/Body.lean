import TinCompiler.Generator.Expression

/-!
# Code for bodies

`generateBody` of `Generator.cpp`.  The results of nested calls of `generateBody` are
ignored, as in the source.
-/

namespace TinCompiler

open GeneratorM

/-- How the loop over the statements of a body goes on after one of them. -/
inductive StatementResult where
  | next
  /-- `stop = true`: the rest of the body is not generated -/
  | stop
  /-- `return false` -/
  | failed
deriving DecidableEq, Repr

/-- Record the code that `x` emits as one block. -/
def withBlock {α : Type} (kind : BlockKind) (x : GeneratorM α) : GeneratorM α := do
  let before ← getContext
  let a ← x
  modifyContext fun c =>
    { c with blocks := c.blocks ++ [⟨before.piece.getPc, c.piece.getPc, kind⟩] }
  return a

/-- `REPORT(location, message); return false;` -/
def failStatement (location : SourceLocation) (message : String) : GeneratorM StatementResult := do
  report location message
  abandon location
  return .failed

/-- `REPORT(location, message); break;`: the statement is left, the body is not. -/
def skipStatement (location : SourceLocation) (message : String) : GeneratorM StatementResult := do
  report location message
  abandon location
  return .next

/-! ## Statements without nested bodies -/

def generateExpressionStatement (e : ASTExpression) : GeneratorM StatementResult := do
  let type ← generateExpression e
  popValue .invalid 0 type
  return .next

def generateGlobalDeclaration (typeString name : String) (location : SourceLocation) :
    GeneratorM StatementResult := do
  let c ← getContext
  let type := c.ast.convertFullType typeString c.currentScopeId
  if type.Valid then
    let (offset, bytecode) := c.bytecode.appendData (c.ast.sizeOfType type)
    modifyContext fun c => { c with bytecode := bytecode }
    match c.ast.addVariable .globalId name c.currentScopeId type offset with
    | none => failStatement location ("Global variable '" ++ name ++ "' already exists.")
    | some ast => do
        modifyContext fun c => { c with ast := ast }
        return .next
  else failStatement location ("Invalid type '" ++ typeString ++ "'.")

def generateConstDeclaration (typeString name : String) (location : SourceLocation)
    (statement : ASTStatement) : GeneratorM StatementResult := do
  let c ← getContext
  let type := c.ast.convertFullType typeString c.currentScopeId
  if type.Valid then
    match c.ast.addVariable .constId name c.currentScopeId type 0 statement with
    | none => skipStatement location ("Constant '" ++ name ++
        "' is already declared as a variable or constant.")
    | some ast => do
        modifyContext fun c => { c with ast := ast }
        return .next
  else failStatement location "Type in declaration is not a valid type."

/-- The value of a declaration, once the variable exists at `offset`. -/
def generateInitializer (e : Option ASTExpression) (location : SourceLocation) (type : TypeId)
    (offset : ℤ) : GeneratorM StatementResult := do
  match e with
  | some e => do
      let etype ← generateExpression e
      if etype.Valid then
        if ← performCast etype type then
          popValue .bp offset type
          return .next
        else
          let c ← getContext
          failStatement location ("The expression and variable has mismatching types. Implicit casting were not possible from '" ++
            c.ast.nameOfType etype ++ "' to '" ++ c.ast.nameOfType type ++ "'.")
      else
        -- "error should be reported already"
        abandon location
        return .failed
  | none => do
      let c ← getContext
      emit fun piece =>
        (((piece.emitLi .b offset).emitArithmetic .add .b .bp).emitLi .a
          (c.ast.sizeOfType type)).emitMemzero .b .a
      return .next

def generateVarDeclaration (typeString name : String) (e : Option ASTExpression)
    (location : SourceLocation) : GeneratorM StatementResult := do
  let c ← getContext
  let type := c.ast.convertFullType typeString c.currentScopeId
  if type.Valid then
    let size : ℤ := alignUp (c.ast.sizeOfType type) 8
    let offset := c.currentFrameOffset - size
    emit fun piece => piece.emitIncr .sp (-size)
    modifyContext fun c => { c with currentFrameOffset := offset }
    match c.ast.addVariable .localId name c.currentScopeId type offset with
    | none => skipStatement location ("Variable '" ++ name ++ "' is already declared.")
    | some ast => do
        modifyContext fun c => { c with ast := ast }
        generateInitializer e location type offset
  else failStatement location "Invalid type in declaration."

/-- `emit_incr(REG_SP, frame - current_frameOffset)`, unless they are equal. -/
def releaseTo (frame : ℤ) : GeneratorM Unit := do
  let c ← getContext
  if c.currentFrameOffset ≠ frame then
    emit fun piece => piece.emitIncr .sp (frame - c.currentFrameOffset)
  else return ()

def setFrameOffset (frame : ℤ) : GeneratorM Unit :=
  modifyContext fun c => { c with currentFrameOffset := frame }

def generateContinue (prevFrameOffset : ℤ) (location : SourceLocation) :
    GeneratorM StatementResult := do
  let c ← getContext
  match c.loopScopes.getLast? with
  | none => failStatement location "Continue statements are only allowed in loops."
  | some loop => do
      releaseTo loop.frameOffset
      emit fun piece => piece.emitJmp loop.continuePc
      setFrameOffset prevFrameOffset
      return .stop

def generateBreak (prevFrameOffset : ℤ) (location : SourceLocation) :
    GeneratorM StatementResult := do
  let c ← getContext
  match c.loopScopes.getLast? with
  | none => failStatement location "Break statements are only allowed in loops."
  | some loop => do
      releaseTo loop.frameOffset
      modifyContext fun c =>
        let jump := c.piece.emitJmpReloc
        { c.withPiece jump.2 with
          loopScopes := c.loopScopes.dropLast ++
            [{ loop with breaksToResolve := loop.breaksToResolve ++ [jump.1] }] }
      setFrameOffset prevFrameOffset
      return .stop

/-- The value of a return statement: it is stored with its own type. -/
def generateResult (e : ASTExpression) (location : SourceLocation) : GeneratorM StatementResult := do
  let c ← getContext
  if c.function.returnType.Valid then
    let type ← generateExpression e
    if ← performCast type c.function.returnType then
      popValue .bp c.function.returnOffset type
      return .next
    else failStatement location ("Type '" ++ c.ast.nameOfType type ++
      "' in return statement does not match return type '" ++
      c.ast.nameOfType c.function.returnType ++ "' of the function.")
  else failStatement location "Function does not have a return value but you specified one here."

def generateReturn (prevFrameOffset : ℤ) (e : Option ASTExpression) (location : SourceLocation) :
    GeneratorM StatementResult := do
  let result ←
    match e with
    | some e => withBlock (.result (.return (some e) location)) (generateResult e location)
    | none => pure .next
  if result = .next then
    releaseTo 0
    emit fun piece => piece.emitRet
    setFrameOffset prevFrameOffset
    return .stop
  else return result

/-! ## Conditions and jumps -/

/-- A condition up to `emit_pop(REG_A)`; `false` if it cannot be one.  The statement is
named in the message. -/
def generateCondition (e : ASTExpression) (statement : String) : GeneratorM Bool :=
  withBlock (.condition e) do
    let type ← generateExpression e
    if ← performCast type .bool then
      emit fun piece => piece.emitPop .a
      return true
    else
      let c ← getContext
      report e.location ("Condition of " ++ statement ++
        "-statement must evaluate to a type that can be casted to a boolean. Type was '" ++
        c.ast.nameOfType type ++ "'.")
      abandon e.location
      return false

/-- `emit_jz(REG_A, &reloc)` returns `reloc`. -/
def generateJz : GeneratorM ℕ := fun c =>
  let jump := c.piece.emitJzReloc .a
  (jump.1, c.withPiece jump.2)

/-- `emit_jmp(&reloc)` returns `reloc`. -/
def generateJmp : GeneratorM ℕ := fun c =>
  let jump := c.piece.emitJmpReloc
  (jump.1, c.withPiece jump.2)

def fixJump (reloc : ℕ) : GeneratorM Unit := emit fun piece => piece.fixJumpHere reloc

/-- `pushLoop(piece->get_pc(), current_frameOffset)` returns the index of the new loop. -/
def pushLoop : GeneratorM ℕ := fun c =>
  (c.loopScopes.length,
    { c with
      loopScopes := c.loopScopes ++
        [{ continuePc := c.piece.getPc, frameOffset := c.currentFrameOffset }] })

def popLoop : GeneratorM Unit :=
  modifyContext fun c => { c with loopScopes := c.loopScopes.dropLast }

/-- The end of a loop: jump back, then let the condition and the breaks jump here. -/
def closeLoop (index reloc : ℕ) : GeneratorM Unit := do
  let c ← getContext
  match c.loopScopes[index]? with
  | none => return ()
  | some loop => do
      emit fun piece => piece.emitJmp loop.continuePc
      fixJump reloc
      emit fun piece => loop.breaksToResolve.foldl BytecodePiece.fixJumpHere piece
      popLoop

def setScope (scopeId : ScopeId) : GeneratorM Unit :=
  modifyContext fun c => { c with currentScopeId := scopeId }

def recordStart : GeneratorM Unit :=
  modifyContext fun c => { c with starts := c.starts ++ [(c.piece.getPc, c.currentFrameOffset)] }

/-! ## The recursion -/

mutual

/-- `generateBody` -/
def generateBody : ASTBody → GeneratorM Bool
  | .mk scopeId statements => do
      let c ← getContext
      setScope scopeId
      let completed ← generateStatements c.currentFrameOffset statements
      if completed then
        releaseTo c.currentFrameOffset
        setFrameOffset c.currentFrameOffset
        setScope c.currentScopeId
        return true
      else
        setScope c.currentScopeId
        return false

/-- The loop over the statements; `prevFrameOffset` is `prev_frame_offset`. -/
def generateStatements (prevFrameOffset : ℤ) : List ASTStatement → GeneratorM Bool
  | [] => return true
  | statement :: rest => do
      recordStart
      match ← generateStatement prevFrameOffset statement with
      | .next => generateStatements prevFrameOffset rest
      | .stop => return true
      | .failed => return false

def generateStatement (prevFrameOffset : ℤ) : ASTStatement → GeneratorM StatementResult
  | .expression e location =>
      withBlock (.statement (.expression e location)) (generateExpressionStatement e)
  | .globalDeclaration type name _ location => generateGlobalDeclaration type name location
  | .constDeclaration type name e location =>
      generateConstDeclaration type name location (.constDeclaration type name e location)
  | .varDeclaration type name e location =>
      withBlock (.statement (.varDeclaration type name e location))
        (generateVarDeclaration type name e location)
  | .while condition body _ => do
      let index ← pushLoop
      if ← generateCondition condition "while" then
        let reloc ← generateJz
        let _ ← generateBody body
        closeLoop index reloc
        return .next
      else return .failed
  | .ifElse condition body none _ => do
      if ← generateCondition condition "if" then
        let reloc ← generateJz
        let _ ← generateBody body
        fixJump reloc
        return .next
      else return .failed
  | .ifElse condition body (some elseBody) _ => do
      if ← generateCondition condition "if" then
        let reloc ← generateJz
        let _ ← generateBody body
        let relocEnd ← generateJmp
        fixJump reloc
        let _ ← generateBody elseBody
        fixJump relocEnd
        return .next
      else return .failed
  | .break location => generateBreak prevFrameOffset location
  | .continue location => generateContinue prevFrameOffset location
  | .return e location => generateReturn prevFrameOffset e location

end

end TinCompiler
