import TinCompiler.Compiler.Tasks
import TinCompiler.Parser.Statements

/-!
# From the nodes of the parser to the tables of the compiler

The trees of `AST.lean` have no null pointers.  A node that has one, or that holds such a node,
has no tree: the parser has then reported an error, and what holds the node is left out.
-/

namespace TinCompiler

namespace ParseContext

/-- The operators of the first binary case of `generateExpression`. -/
def ExpressionKind.binaryKind : ExpressionKind → Option BinaryKind
  | add => some .add
  | sub => some .sub
  | div => some .div
  | mul => some .mul
  | and => some .and
  | or => some .or
  | equal => some .equal
  | notEqual => some .notEqual
  | less => some .less
  | greater => some .greater
  | lessEqual => some .lessEqual
  | greaterEqual => some .greaterEqual
  | _ => none

def ExpressionKind.stepKind : ExpressionKind → Option StepKind
  | preIncrement => some .preIncrement
  | postIncrement => some .postIncrement
  | preDecrement => some .preDecrement
  | postDecrement => some .postDecrement
  | _ => none

namespace Expression

def leafToAST (kind : ExpressionKind) (payload : Payload) (location : SourceLocation) :
    Option ASTExpression :=
  match kind, payload with
  | .identifier, .str name => some (.identifier name location)
  | .sizeof, .str name => some (.sizeof name location)
  | .literalInt, .num value => some (.literalInt value location)
  | .literalFloat, .dec bits => some (.literalFloat bits location)
  | .literalStr, .str text => some (.literalStr text location)
  | .literalChar, .str text => some (.literalChar text location)
  | .literalNull, _ => some (.literalNull location)
  | .literalTrue, _ => some (.literalTrue location)
  | .literalFalse, _ => some (.literalFalse location)
  | _, _ => none

def unaryToAST (kind : ExpressionKind) (left : ASTExpression) (name : String)
    (location : SourceLocation) : Option ASTExpression :=
  match kind, kind.stepKind with
  | _, some step => some (.step step left location)
  | .not, _ => some (.not left location)
  | .refer, _ => some (.refer left location)
  | .deref, _ => some (.deref left location)
  | .member, _ => some (.member left name location)
  | .cast, _ => some (.cast left name location)
  | _, _ => none

def binaryToAST (kind : ExpressionKind) (left right : ASTExpression) (location : SourceLocation) :
    Option ASTExpression :=
  match kind, kind.binaryKind with
  | _, some operator => some (.binary operator left right location)
  | .assign, _ => some (.assign left right location)
  | _, _ => none

mutual

def toAST : Expression → Option ASTExpression
  | leaf kind payload location => leafToAST kind payload location
  | call name arguments location =>
      (listToAST arguments).map fun arguments => .functionCall name arguments location
  | unary kind left name location => left.toAST.bind fun left => unaryToAST kind left name location
  | binary kind left right location =>
      left.toAST.bind fun left => right.toAST.bind fun right =>
        binaryToAST kind left right location
  | index _ none _ => none
  | index left (some right) location =>
      left.toAST.bind fun left => right.toAST.map fun right => .index left right location

def listToAST : List Expression → Option (List ASTExpression)
  | [] => some []
  | expr :: rest => expr.toAST.bind fun expr => (listToAST rest).map fun rest => expr :: rest

end

end Expression

/-- A missing expression has a tree, a null pointer inside of one has none. -/
def optionToAST : Option Expression → Option (Option ASTExpression)
  | none => some none
  | some expr => expr.toAST.map some

def declarationToAST (kind : DeclarationKind) (name type : String)
    (expression : Option ASTExpression) (location : SourceLocation) : ASTStatement :=
  match kind with
  | .variable => .varDeclaration type name expression location
  | .global => .globalDeclaration type name expression location
  | .constant => .constDeclaration type name expression location

mutual

def Statement.toAST : Statement → Option ASTStatement
  | .declaration kind name type expression location =>
      (optionToAST expression).map fun expression =>
        declarationToAST kind name type expression location
  | .expression expr location => expr.toAST.map fun expr => .expression expr location
  | .ifElse condition body none location =>
      condition.toAST.bind fun condition => body.toAST.map fun body =>
        .ifElse condition body none location
  | .ifElse condition body (some elseBody) location =>
      condition.toAST.bind fun condition => body.toAST.bind fun body =>
        elseBody.toAST.map fun elseBody => .ifElse condition body (some elseBody) location
  | .while condition body location =>
      condition.toAST.bind fun condition => body.toAST.map fun body =>
        .while condition body location
  | .break location => some (.break location)
  | .continue location => some (.continue location)
  | .return expression location =>
      (optionToAST expression).map fun expression => .return expression location

def Body.toAST : Body → Option ASTBody
  | .mk scopeId statements =>
      (statementsToAST statements).map fun statements => .mk scopeId statements

def statementsToAST : List Statement → Option (List ASTStatement)
  | [] => some []
  | statement :: rest =>
      statement.toAST.bind fun statement => (statementsToAST rest).map fun rest =>
        statement :: rest

end

def Function.toAST (function : Function) : ASTFunction where
  name := function.name
  location := function.location
  parameters := function.parameters.map fun parameter =>
    { name := parameter.1, typeString := parameter.2 }
  returnTypeString := function.returnTypeString
  body := function.body.bind Body.toAST

/-- The file that the task loop works with; `scopes` are the parents of all scopes that the
parser has created, that of the file first. -/
def File.toSource (file : File) (scopeId : ScopeId) (scopes : List ScopeId) : SourceFile where
  imports := file.dependencies
  structures := file.structures.map fun structure' =>
    { name := structure'.name, members := structure'.members }
  scopes := scopes.tail.map fun parent => parent - scopeId
  functions := fun _ => file.functions.map Function.toAST
  statements := fun _ => file.statements.filterMap Statement.toAST

end ParseContext

end TinCompiler
