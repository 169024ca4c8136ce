import TinCompiler.AST
import TinCompiler.Lexer.Tokens
import TinCompiler.Library.Loops

/-!
# What the parser works on

The nodes that `ParseContext` creates, as it leaves them: a node can have a null pointer where
an error was reported.  Null pointers are `none`.
-/

namespace TinCompiler

/-- `token->flags & TOKEN_FLAG_SUFFIX_ANY` -/
def Token.suffixAny (token : Token) : Bool := token.suffixSpace || token.suffixNewline

/-- The string that `getToken` stores, empty where it stores none. -/
def Payload.text : Payload → String
  | str text => text
  | _ => ""

namespace ParseContext

/-- `ASTExpression::Kind` -/
inductive ExpressionKind where
  | identifier | functionCall
  | add | sub | div | mul | and | or | not
  | equal | notEqual | less | greater | lessEqual | greaterEqual
  | refer | deref | index | member | cast | assign
  | preIncrement | postIncrement | preDecrement | postDecrement
  | sizeof | literalInt | literalFloat | literalStr | literalChar | literalNull | literalTrue
  | literalFalse
deriving DecidableEq, Repr

/-- `ASTExpression`, with the fields that its kind uses. -/
inductive Expression where
  /-- an identifier, a `sizeof` or a literal, with its name or its value -/
  | leaf (kind : ExpressionKind) (payload : Payload) (location : SourceLocation)
  | call (name : String) (arguments : List Expression) (location : SourceLocation)
  /-- a prefix or postfix operator; `name` is that of the member or of the type of the cast -/
  | unary (kind : ExpressionKind) (left : Expression) (name : String) (location : SourceLocation)
  | binary (kind : ExpressionKind) (left right : Expression) (location : SourceLocation)
  | index (left : Expression) (right : Option Expression) (location : SourceLocation)

/-- The three kinds of declarations. -/
inductive DeclarationKind where
  | variable | global | constant
deriving DecidableEq, Repr

mutual

/-- `ASTStatement` -/
inductive Statement where
  | declaration (kind : DeclarationKind) (name type : String) (expression : Option Expression)
      (location : SourceLocation)
  | expression (expression : Expression) (location : SourceLocation)
  | ifElse (condition : Expression) (body : Body) (elseBody : Option Body)
      (location : SourceLocation)
  | while (condition : Expression) (body : Body) (location : SourceLocation)
  | break (location : SourceLocation)
  | continue (location : SourceLocation)
  | return (expression : Option Expression) (location : SourceLocation)

/-- The `ASTBody` of a function or of a statement. -/
inductive Body where
  | mk (scopeId : ScopeId) (statements : List Statement)

end

/-- `parsed_stmt->location = loc` -/
def Statement.setLocation (location : SourceLocation) : Statement → Statement
  | declaration kind name type expr _ => declaration kind name type expr location
  | expression expr _ => expression expr location
  | ifElse condition body elseBody _ => ifElse condition body elseBody location
  | .while condition body _ => .while condition body location
  | .break _ => .break location
  | .continue _ => .continue location
  | .return expr _ => .return expr location

/-- `ASTFunction`; the parameters are names with the strings of their types. -/
structure Function where
  name : String
  location : SourceLocation
  parameters : List (String × String) := []
  returnTypeString : String := ""
  body : Option Body := none

/-- `ASTStructure` -/
structure Structure where
  name : String
  location : SourceLocation
  members : List Member := []

/-- What `ParseTokenStream` puts into the import and its body. -/
structure File where
  dependencies : List String := []
  structures : List Structure := []
  functions : List Function := []
  statements : List Statement := []

/-! ## The state -/

/-- The fields of `ParseContext` that change, and the scopes of the `AST`: their number and the
parents of those that the parser has created. -/
structure State where
  head : ℕ := 0
  reporter : Reporter := {}
  scopesUsed : ScopeId := 0
  scopes : List ScopeId := []

end ParseContext

abbrev ParserM (α : Type) : Type := Program ParseContext.State α

namespace ParseContext

variable (stream : TokenStream)

/-- The token at an index; behind the last one there are only ends of the file. -/
def tokenAt (index : ℕ) : Token := stream.tokens.getD index { type := .eof }

def gettok (off : ℕ) : ParserM Token := fun s => .done (tokenAt stream (s.head + off)) s

def getloc : ParserM SourceLocation := fun s => .done s.head s

def advance (n : ℕ) : ParserM Unit := Program.modify fun s => { s with head := s.head + n }

/-- `REPORT`; the token is given by its index. -/
def report (location : SourceLocation) (message : String) : ParserM Unit :=
  Program.modify fun s => { s with reporter := s.reporter.err location message }

/-- `REPORT(token, …); return nullptr;` -/
def fail {α : Type} (location : SourceLocation) (message : String) : ParserM (Option α) := do
  report location message
  return none

/-- A token of this kind is skipped, anything else is an error. -/
def expect (kind : TokenKind) (message : String) : ParserM (Option Unit) := do
  let token ← gettok stream 0
  if token.type = kind then
    advance 1
    return some ()
  else
    fail (← getloc) message

/-- The scope of `createBody`. -/
def createScope (parent : ScopeId) : ParserM ScopeId := fun s =>
  .done s.scopesUsed { s with scopesUsed := s.scopesUsed + 1, scopes := s.scopes ++ [parent] }

/-- One asterisk behind a type; `suffix` is whether the token before it has a suffix. -/
def starRound (out : String × Bool) : ParserM (LoopStep (String × Bool) String) := do
  let token ← gettok stream 0
  if token.type ≠ .ascii '*' ∨ out.2 then
    return .finish out.1
  else
    advance 1
    return .again (out.1 ++ "*", token.suffixAny)

/-- No loop of the parser has more rounds than there are tokens, and one for the end. -/
def bound : ℕ := stream.tokens.length + 1

def parseType : ParserM String := do
  let token ← gettok stream 0
  if token.type ≠ .id then
    return ""
  else
    advance 1
    Program.loop (starRound stream) (bound stream)
      ((stream.payload token).text, token.suffixAny)

end ParseContext

end TinCompiler
