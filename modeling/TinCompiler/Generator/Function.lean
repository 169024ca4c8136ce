import TinCompiler.Generator.Body

/-!
# Functions

`CheckFunction`, `CheckGlobals` and `GenerateFunction` of `Generator.cpp`.
-/

namespace TinCompiler

/-! ## Signatures -/

/-- The alignment of a parameter of this size. -/
def parameterAlignment (size : ℕ) : ℕ :=
  if size ≤ 1 then 1 else if size ≤ 2 then 2 else if size ≤ 4 then 4 else 8

/-- The loop of `CheckFunction` over the parameters, from the current `param_offset`. -/
def checkParameters (scopeId : ScopeId) (function : ASTFunction) :
    List Parameter → ℕ → AST → Reporter → List Parameter × ℕ × AST × Reporter
  | [], paramOffset, ast, reporter => ([], paramOffset, ast, reporter)
  | param :: rest, paramOffset, ast, reporter =>
      let type := ast.convertFullType param.typeString scopeId
      let reporter :=
        if type.Valid then reporter
        else reporter.err function.location "One of the parameters has an invalid type."
      let size := ast.sizeOfType type
      let paramOffset := alignUp paramOffset (parameterAlignment size)
      let declared : AST × Reporter :=
        match function.body with
        | none => (ast, reporter)
        | some body =>
            match ast.addVariable .localId param.name body.scopeId type paramOffset with
            | none => (ast, reporter.err function.location
                ("Function paramaters must have unique names. At least two are named '" ++
                  param.name ++ "'."))
            | some ast => (ast, reporter)
      let checked := checkParameters scopeId function rest (paramOffset + size) declared.1 declared.2
      ({ param with typeId := type, offset := paramOffset } :: checked.1, checked.2)

/-- `CheckFunction` on the function of index `f`; `scopeId` is the scope of the import. -/
def checkFunction (ast : AST) (reporter : Reporter) (scopeId : ScopeId) (f : ℕ) :
    AST × Reporter :=
  let function := ast.functions f
  let checked := checkParameters scopeId function function.parameters 16 ast reporter
  let ast := checked.2.2.1
  let reporter := checked.2.2.2
  let function := { function with
    parameters := checked.1
    parametersSize := (alignUp checked.2.1 8 : ℤ) - 16 }
  let setFunction := fun function : ASTFunction =>
    { ast with functions := Function.update ast.functions f function }
  if function.returnTypeString = "" then (setFunction function, reporter)
  else
    let type := ast.convertFullType function.returnTypeString scopeId
    if type.Valid then
      (setFunction { function with
        returnType := type
        returnOffset := -(alignUp (ast.sizeOfType type) 8 : ℤ) }, reporter)
    else
      (setFunction { function with returnType := type },
        reporter.err function.location ("'" ++ function.returnTypeString ++ "' is not a known type."))

/-! ## Globals -/

/-- The loop of `CheckGlobals` over the statements of the file; it ends at a declaration
that fails. -/
def checkGlobals (scopeId : ScopeId) :
    List ASTStatement → AST → Bytecode → Reporter → AST × Bytecode × Reporter
  | [], ast, bytecode, reporter => (ast, bytecode, reporter)
  | .globalDeclaration typeString name _ location :: rest, ast, bytecode, reporter =>
      let type := ast.convertFullType typeString scopeId
      if type.Valid then
        let data := bytecode.appendData (ast.sizeOfType type)
        match ast.addVariable .globalId name scopeId type data.1 with
        | none => (ast, data.2,
            reporter.err location ("Global variable '" ++ name ++ "' already exists."))
        | some ast => checkGlobals scopeId rest ast data.2 reporter
      else (ast, bytecode, reporter.err location ("Invalid type '" ++ typeString ++ "'."))
  | _ :: rest, ast, bytecode, reporter => checkGlobals scopeId rest ast bytecode reporter

/-! ## Initial values of globals -/

/-- One statement in the loop of `GenerateFunction` that sets the globals. -/
def setGlobal : ASTStatement → GeneratorM Unit
  | .globalDeclaration _ name e location => do
      let c ← getContext
      match c.ast.findVariable name c.currentScopeId with
      | none => abandon location
      | some identifier =>
          match e with
          | none =>
              emit fun piece => ((piece.emitDataptr .b identifier.offset).emitLi .a
                (c.ast.sizeOfType identifier.type)).emitMemzero .b .a
          | some e => do
              let type ← generateExpression e
              if type.Valid then
                if identifier.type ≠ type then
                  report e.location ("Type in expression does not match type in declaration. '" ++
                    c.ast.nameOfType identifier.type ++ "' != '" ++ c.ast.nameOfType type ++ "'")
                  abandon location
                else
                  emit fun piece => piece.emitDataptr .b identifier.offset
                  popValue .b 0 type
              else abandon location
  | _ => return ()

/-- The globals of one body. -/
def setOwnGlobals (scopeId : ScopeId) (statements : List ASTStatement) : GeneratorM Unit := do
  setScope scopeId
  statements.forM setGlobal

mutual

/-- The bodies are kept on a stack, so the bodies of a later statement come first. -/
def setGlobals : ASTBody → GeneratorM Unit
  | .mk scopeId statements => do
      setOwnGlobals scopeId statements
      setNestedGlobals statements

def setNestedGlobals : List ASTStatement → GeneratorM Unit
  | [] => return ()
  | statement :: rest => do
      setNestedGlobals rest
      setStatementGlobals statement

def setStatementGlobals : ASTStatement → GeneratorM Unit
  | .ifElse _ body none _ => setGlobals body
  | .ifElse _ body (some elseBody) _ => do
      setGlobals elseBody
      setGlobals body
  | .while _ body _ => setGlobals body
  | _ => return ()

end

/-- The bodies of one import: those of its statements, then those of its functions. -/
def setImportGlobals (imp : FileBody) : GeneratorM Unit := do
  setOwnGlobals imp.scopeId imp.statements
  setNestedGlobals imp.statements
  let c ← getContext
  (imp.functions.reverse.filterMap fun f => (c.ast.functions f).body).forM setGlobals

/-! ## The code of a function -/

/-- `opcode != INST_RET` read from the last cell; an immediate there is read as an
instruction, whose opcode is its lowest byte. -/
def Cell.isRet : Cell → Bool
  | .inst instruction => instruction = .ret
  | .imm value => value % 2 ^ 8 = 22

/-- "Emit ret instruction if the user forgot the return statement". -/
def generateFinalRet (function : ASTFunction) : GeneratorM Unit := do
  let c ← getContext
  match c.piece.instructions.getLast? with
  | none => return ()
  | some last =>
      if last.isRet then return ()
      else
        if function.returnType ≠ .void then
          report function.location
            "Missing return statement. They are mandatory if the function has a return type."
        else pure ()
        releaseTo 0
        emit fun piece => piece.emitRet

/-- The space for the returned value. -/
def reserveResult (function : ASTFunction) : GeneratorM Unit := do
  if function.returnType.Valid then
    let c ← getContext
    let size : ℤ := alignUp (c.ast.sizeOfType function.returnType) 8
    emit fun piece => piece.emitIncr .sp (-size)
    setFrameOffset (c.currentFrameOffset - size)
  else return ()

/-- The body of `GenerateFunction`, in the context it sets up. -/
def generateFunctionCode (function : ASTFunction) (body : ASTBody) : GeneratorM Bool := do
  if function.name = "main" then
    let c ← getContext
    c.ast.importBodies.forM setImportGlobals
    setScope c.currentScopeId
  else pure ()
  reserveResult function
  let completed ← generateBody body
  generateFinalRet function
  return completed

/-- The context of `GenerateFunction`, with the new piece. -/
def functionContext (ast : AST) (function : ASTFunction) (bytecode : Bytecode)
    (reporter : Reporter) : GeneratorContext where
  reporter := reporter
  ast := ast
  function := function
  bytecode := bytecode
  piece := { pieceIndex := bytecode.pieces.length, name := function.name }

/-- `GenerateFunction` on the function of index `f`. -/
def generateFunction (ast : AST) (f : ℕ) (bytecode : Bytecode) (reporter : Reporter) :
    AST × Bytecode × Reporter :=
  let function := ast.functions f
  match function.isNative, function.body with
  | false, some body =>
      let ast := { ast with
        functions := Function.update ast.functions f
          { function with pieceCodeIndex := bytecode.pieces.length } }
      let c := (generateFunctionCode function body (functionContext ast function bytecode reporter)).2
      (c.ast, { c.bytecode with pieces := c.bytecode.pieces ++ [c.piece] }, c.reporter)
  | _, _ => (ast, bytecode, reporter)

end TinCompiler
