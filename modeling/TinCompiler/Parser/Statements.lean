import TinCompiler.Parser.Expression

/-!
# Statements, functions and structures

The rest of `Parser.cpp`.  The asserts of the parser are compiled out, so that a declaration
takes whatever token stands in the place of its name.
-/

namespace TinCompiler

namespace ParseContext

variable (stream : TokenStream) (garbage : BitVec 32)

/-! ## Declarations -/

/-- What follows the type of a declaration. -/
def initializer (kind : DeclarationKind) (name type : String) (location : SourceLocation) :
    ParserM (Option Statement) := do
  let token ← gettok stream 0
  if token.type ≠ .ascii '=' then
    if token.type = .ascii ';' then return some (.declaration kind name type none location)
    else fail (← getloc) "Expected '=' or semi-colon after variable name and type."
  else
    let equal ← getloc
    advance 1
    if kind = .global then
      fail equal "You cannot declare global variables with an expression. You have to manually set it at the start of main."
    else
      match ← parseExpression stream garbage with
      | none => return none
      | some expr => return some (.declaration kind name type (some expr) location)

def parseDeclaration (kind : DeclarationKind) : ParserM (Option Statement) := do
  let location ← getloc
  let name ← gettok stream 0
  advance 1
  let colon ← getloc
  match ← expect stream (.ascii ':') "Expected ':' for variable declarations." with
  | none => return none
  | some _ =>
      let type ← parseType stream
      if type = "" then fail colon "Invalid syntax for type."
      else initializer stream garbage kind (stream.payload name).text type location

/-! ## Statements -/

/-- The semicolon behind a statement. -/
def closeStatement (statement : Statement) : ParserM (Option Statement) := do
  match ← expect stream (.ascii ';') "You forgot a semi-colon after the statement." with
  | none => return none
  | some _ => return some statement

def declarationStatement (kind : DeclarationKind) : ParserM (Option Statement) := do
  match ← parseDeclaration stream garbage kind with
  | none => return none
  | some statement => closeStatement stream statement

def returnStatement (location : SourceLocation) : ParserM (Option Statement) := do
  advance 1
  let token ← gettok stream 0
  if token.type ≠ .ascii ';' then
    match ← parseExpression stream garbage with
    | none => return none
    | some expr => closeStatement stream (.return (some expr) location)
  else closeStatement stream (.return none location)

def expressionStatement (location : SourceLocation) : ParserM (Option Statement) := do
  match ← parseExpression stream garbage with
  | none => return none
  | some expr => closeStatement stream (.expression expr location)

/-- The body of `parseIf`, with the functions that it calls; `parseBody` is for the bodies in
the scope `currentScopeId`. -/
def ifBody (parseIf : ParserM (Option Statement)) (parseBody : ParserM (Option Body))
    (currentScopeId : ScopeId) : ParserM (Option Statement) := do
  advance 1
  match ← parseExpression stream garbage with
  | none => return none
  | some condition =>
      match ← parseBody with
      | none => return none
      | some body =>
          let token ← gettok stream 0
          if token.type ≠ .else then return some (.ifElse condition body none 0)
          else
            advance 1
            let token ← gettok stream 0
            if token.type = .if then
              match ← parseIf with
              | none => return none
              | some statement =>
                  return some (.ifElse condition body (some (.mk currentScopeId [statement])) 0)
            else
              let elseBody ← parseBody
              return some (.ifElse condition body elseBody 0)

/-- The calls of `parseIf` for an `else if` are bounded by `depth`. -/
def parseIfAt (parseBody : ParserM (Option Body)) (currentScopeId : ScopeId) :
    ℕ → ParserM (Option Statement)
  | 0 => fun _ => .cutOff
  | depth + 1 =>
      ifBody stream garbage (parseIfAt parseBody currentScopeId depth) parseBody currentScopeId

def parseWhile (parseBody : ParserM (Option Body)) : ParserM (Option Statement) := do
  let token ← gettok stream 0
  if token.type ≠ .while then return none
  else
    advance 1
    match ← parseExpression stream garbage with
    | none => return none
    | some condition =>
        match ← parseBody with
        | none => return none
        | some body => return some (.while condition body 0)

/-- The switch of `parseBody`, with the location of the statement. -/
def statementOf (parseBody : ParserM (Option Body)) (currentScopeId : ScopeId) :
    ParserM (Option Statement) := do
  let token ← gettok stream 0
  let location ← getloc
  match token.type with
  | .if =>
      let statement ← parseIfAt stream garbage parseBody currentScopeId (bound stream)
      return statement.map (Statement.setLocation location)
  | .while =>
      let statement ← parseWhile stream garbage parseBody
      return statement.map (Statement.setLocation location)
  | .return => returnStatement stream garbage location
  | .continue =>
      advance 1
      closeStatement stream (.continue location)
  | .break =>
      advance 1
      closeStatement stream (.break location)
  | .global =>
      advance 1
      declarationStatement stream garbage .global
  | .const =>
      advance 1
      declarationStatement stream garbage .constant
  | .struct =>
      fail location "Structures are not allowed inside function bodies. They can only be declared at global scope."
  | .function =>
      fail location "Functions are not allowed inside function bodies. They can only be declared at global scope."
  | _ =>
      let token2 ← gettok stream 1
      if token.type = .id ∧ token2.type = .ascii ':' then
        declarationStatement stream garbage .variable
      else expressionStatement stream garbage location

/-- One statement of a body, or its end. -/
def bodyRound (parseBody : ParserM (Option Body)) (currentScopeId : ScopeId)
    (statements : List Statement) :
    ParserM (LoopStep (List Statement) (Option (List Statement))) := do
  let token ← gettok stream 0
  if token.type = .eof then
    report (← getloc) "Sudden end of file."
    return .finish none
  else if token.type = .ascii '}' then
    advance 1
    return .finish (some statements)
  else
    match ← statementOf stream garbage parseBody currentScopeId with
    | none => return .finish none
    | some statement => return .again (statements ++ [statement])

/-- The body of `parseBody`, with the function itself as a parameter. -/
def bodyBody (parseBody : ScopeId → ParserM (Option Body)) (currentScopeId : ScopeId) :
    ParserM (Option Body) := do
  let scopeId ← createScope currentScopeId
  match ← expect stream (.ascii '{') "Should be a curly brace." with
  | none => return none
  | some _ =>
      match ← Program.loop (bodyRound stream garbage (parseBody scopeId) scopeId)
        (bound stream) [] with
      | none => return none
      | some statements => return some (.mk scopeId statements)

/-- The calls of `parseBody` inside of each other are bounded by `depth`. -/
def parseBodyAt : ℕ → ScopeId → ParserM (Option Body)
  | 0, _ => fun _ => .cutOff
  | depth + 1, currentScopeId => bodyBody stream garbage (parseBodyAt depth) currentScopeId

def parseBody (currentScopeId : ScopeId) : ParserM (Option Body) :=
  parseBodyAt stream garbage (bound stream) currentScopeId

/-! ## Functions and structures -/

/-- A parameter or a member: its name, the string of its type and the location of the name. -/
def parseField (message : String) : ParserM (Option (String × String × SourceLocation)) := do
  let token ← gettok stream 0
  let location ← getloc
  match ← expect stream .id message with
  | none => return none
  | some _ =>
      match ← expect stream (.ascii ':') "Should be a colon." with
      | none => return none
      | some _ =>
          let start ← getloc
          let type ← parseType stream
          if type = "" then fail start "Invalid syntax for type."
          else return some ((stream.payload token).text, type, location)

/-- What stands behind a parameter or a member; the closing token is left to the next round. -/
def separator (close : TokenKind) : ParserM (Option Unit) := do
  let token ← gettok stream 0
  if token.type = .ascii ',' then
    advance 1
    return some ()
  else if token.type = close then return some ()
  else fail (← getloc) "Bad token?"

/-- One parameter or their end; at the end of the file the loop is left after the error. -/
def parameterRound (parameters : List (String × String)) :
    ParserM (LoopStep (List (String × String)) (Option (List (String × String)))) := do
  let token ← gettok stream 0
  if token.type = .eof then
    report (← getloc) "Sudden end of file."
    return .finish (some parameters)
  else if token.type = .ascii ')' then
    advance 1
    return .finish (some parameters)
  else
    match ← parseField stream "Should be an identifier." with
    | none => return .finish none
    | some (name, type, _) =>
        match ← separator stream (.ascii ')') with
        | none => return .finish none
        | some _ => return .again (parameters ++ [(name, type)])

/-- `none` when the type behind the colon is missing. -/
def parseReturnType : ParserM (Option String) := do
  let token ← gettok stream 0
  if token.type = .ascii ':' then
    let colon ← getloc
    advance 1
    let type ← parseType stream
    if type = "" then fail colon "Invalid syntax for type."
    else return some type
  else return some ""

def parseFunction (currentScopeId : ScopeId) : ParserM (Option Function) := do
  let token ← gettok stream 0
  if token.type ≠ .function then return none
  else
    advance 1
    let location ← getloc
    let name ← gettok stream 0
    match ← expect stream .id "Should be an identifier." with
    | none => return none
    | some _ =>
        match ← expect stream (.ascii '(') "Should be a opening parenthesses." with
        | none => return none
        | some _ =>
            match ← Program.loop (parameterRound stream) (bound stream) [] with
            | none => return none
            | some parameters =>
                match ← parseReturnType stream with
                | none => return none
                | some returnTypeString =>
                    match ← parseBody stream garbage currentScopeId with
                    | none => return none
                    | some body => return some {
                        name := (stream.payload name).text
                        location := location
                        parameters := parameters
                        returnTypeString := returnTypeString
                        body := some body }

/-- One member or their end. -/
def memberRound (members : List Member) :
    ParserM (LoopStep (List Member) (Option (List Member))) := do
  let token ← gettok stream 0
  if token.type = .eof then
    report (← getloc) "Sudden end of file."
    return .finish none
  else if token.type = .ascii '}' then
    advance 1
    return .finish (some members)
  else
    match ← parseField stream "Should be an identifier or curly brace." with
    | none => return .finish none
    | some (name, type, location) =>
        match ← separator stream (.ascii '}') with
        | none => return .finish none
        | some _ =>
            let member : Member := { name := name, typeString := type, location := location }
            return .again (members ++ [member])

def parseStruct : ParserM (Option Structure) := do
  let token ← gettok stream 0
  if token.type ≠ .struct then return none
  else
    advance 1
    let location ← getloc
    let name ← gettok stream 0
    match ← expect stream .id "Should be an identifier." with
    | none => return none
    | some _ =>
        match ← expect stream (.ascii '{') "Should be a curly brace." with
        | none => return none
        | some _ =>
            match ← Program.loop (memberRound stream) (bound stream) [] with
            | none => return none
            | some members => return some {
                name := (stream.payload name).text
                location := location
                members := members }

/-! ## Files -/

namespace File

def addStructure (structure' : Structure) (file : File) : File :=
  { file with structures := file.structures ++ [structure'] }

def addFunction (function : Function) (file : File) : File :=
  { file with functions := file.functions ++ [function] }

def addStatement (statement : Statement) (file : File) : File :=
  { file with statements := file.statements ++ [statement] }

/-- Duplicates are ignored. -/
def addDependency (path : String) (file : File) : File :=
  if path ∈ file.dependencies then file
  else { file with dependencies := file.dependencies ++ [path] }

end File

/-- A `global` or `const` of the file. -/
def fileDeclaration (kind : DeclarationKind) (file : File) :
    ParserM (LoopStep File (Bool × File)) := do
  advance 1
  match ← declarationStatement stream garbage kind with
  | none => return .finish (false, file)
  | some statement => return .again (file.addStatement statement)

/-- One declaration of the file.  The loop ends with whether the import is returned; a bad
function or structure only stops it. -/
def fileRound (scopeId : ScopeId) (file : File) : ParserM (LoopStep File (Bool × File)) := do
  let token ← gettok stream 0
  match token.type with
  | .eof => return .finish (true, file)
  | .struct =>
      match ← parseStruct stream with
      | none => return .finish (true, file)
      | some structure' => return .again (file.addStructure structure')
  | .function =>
      match ← parseFunction stream garbage scopeId with
      | none => return .finish (true, file)
      | some function => return .again (file.addFunction function)
  | .global => fileDeclaration stream garbage .global file
  | .const => fileDeclaration stream garbage .constant file
  | .import =>
      advance 1
      let path ← gettok stream 0
      if path.type = .literalString then
        advance 1
        return .again (file.addDependency (stream.payload path).text)
      else
        report (← getloc) "A string literal is expected after 'import'."
        return .finish (false, file)
  | _ =>
      report (← getloc) "Unexpected token."
      return .finish (false, file)

/-- The scope of the file, its declarations, and whether the import is returned; a null pointer
is `false`. -/
def parseTokenStream : ParserM (Bool × ScopeId × File) := do
  let scopeId ← createScope globalScope
  let (returned, file) ← Program.loop (fileRound stream garbage scopeId) (bound stream) {}
  return (returned, scopeId, file)

end ParseContext

end TinCompiler
