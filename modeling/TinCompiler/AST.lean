import Mathlib

/-!
# The abstract syntax tree and its tables

The data of `AST.h`.  Nodes that the compiler fills in after parsing
(`ASTStructure`, `ASTFunction`) live in tables indexed by the order of their
creation and are referred to by index; expressions, statements and bodies are
read-only after parsing and are plain trees.  The arrays `typeInfos` and `scopes`
are default-initialised in the source, so they are total functions here.
-/

namespace TinCompiler

/-- A token index. -/
abbrev SourceLocation := ℕ

abbrev ScopeId := ℕ

/-- `AST::GLOBAL_SCOPE` -/
def globalScope : ScopeId := 0

/-- `(offset + (alignment - 1)) & ~(alignment - 1)` for a power of two. -/
def alignUp (offset alignment : ℕ) : ℕ :=
  (offset + (alignment - 1)) / alignment * alignment

/-! ## Types -/

/-- An index into `typeInfos` and a pointer level kept in an 8-bit field. -/
structure TypeId where
  index : ℕ
  pointerLevel : ℕ
deriving DecidableEq, Repr

namespace TypeId

abbrev void : TypeId := ⟨0, 0⟩
abbrev int : TypeId := ⟨1, 0⟩
abbrev char : TypeId := ⟨2, 0⟩
abbrev bool : TypeId := ⟨3, 0⟩
abbrev float : TypeId := ⟨4, 0⟩

/-- Only `TYPE_VOID` itself is invalid; `void*` is a type. -/
def Valid (type : TypeId) : Prop := type.index ≠ 0 ∨ type.pointerLevel ≠ 0

instance (type : TypeId) : Decidable type.Valid := inferInstanceAs (Decidable (_ ∨ _))

def base (type : TypeId) : TypeId := ⟨type.index, 0⟩

/-- The assignment to the 8-bit field. -/
def setPointerLevel (type : TypeId) (level : ℕ) : TypeId :=
  { type with pointerLevel := level % 2 ^ 8 }

/-- `type.set_pointer_level(type.pointer_level() + 1)` -/
def refer (type : TypeId) : TypeId := type.setPointerLevel (type.pointerLevel + 1)

/-- `type.set_pointer_level(type.pointer_level() - 1)`; the subtraction is made on
`u32` and wraps around. -/
def deref (type : TypeId) : TypeId := type.setPointerLevel (type.pointerLevel + (2 ^ 32 - 1))

theorem not_valid_iff {type : TypeId} : ¬ type.Valid ↔ type = void := by
  obtain ⟨index, level⟩ := type
  simp [Valid]

end TypeId

/-- One entry of `typeInfos`; `astStruct` is the declaration the type comes from. -/
structure TypeInfo where
  typeId : TypeId := .void
  name : String := ""
  size : ℕ := 0
  astStruct : Option ℕ := none
deriving Repr

/-! ## Expressions, statements, bodies -/

/-- The kinds handled by the first binary case of `generateExpression`. -/
inductive BinaryKind where
  | add | sub | mul | div
  | and | or
  | equal | notEqual | less | greater | lessEqual | greaterEqual
deriving DecidableEq, Repr

/-- `PRE_INCREMENT`, `POST_INCREMENT`, `PRE_DECREMENT`, `POST_DECREMENT` -/
inductive StepKind where
  | preIncrement | postIncrement | preDecrement | postDecrement
deriving DecidableEq, Repr

inductive ASTExpression where
  | identifier (name : String) (location : SourceLocation)
  | functionCall (name : String) (arguments : List ASTExpression) (location : SourceLocation)
  | binary (kind : BinaryKind) (left right : ASTExpression) (location : SourceLocation)
  | not (left : ASTExpression) (location : SourceLocation)
  | refer (left : ASTExpression) (location : SourceLocation)
  | deref (left : ASTExpression) (location : SourceLocation)
  | index (left right : ASTExpression) (location : SourceLocation)
  | member (left : ASTExpression) (name : String) (location : SourceLocation)
  | cast (left : ASTExpression) (name : String) (location : SourceLocation)
  | assign (left right : ASTExpression) (location : SourceLocation)
  | step (kind : StepKind) (left : ASTExpression) (location : SourceLocation)
  | sizeof (name : String) (location : SourceLocation)
  | literalInt (value : BitVec 32) (location : SourceLocation)
  /-- the bit pattern of the literal -/
  | literalFloat (bits : BitVec 32) (location : SourceLocation)
  | literalStr (text : String) (location : SourceLocation)
  | literalChar (text : String) (location : SourceLocation)
  | literalNull (location : SourceLocation)
  | literalTrue (location : SourceLocation)
  | literalFalse (location : SourceLocation)

namespace ASTExpression

def location : ASTExpression → SourceLocation
  | identifier _ location | functionCall _ _ location | binary _ _ _ location | not _ location
  | refer _ location | deref _ location | index _ _ location | member _ _ location
  | cast _ _ location | assign _ _ location | step _ _ location | sizeof _ location
  | literalInt _ location | literalFloat _ location | literalStr _ location
  | literalChar _ location | literalNull location | literalTrue location
  | literalFalse location => location

/-- The `name` field, empty for the kinds that do not set it. -/
def name : ASTExpression → String
  | identifier name _ | functionCall name _ _ | member _ name _ | cast _ name _
  | sizeof name _ => name
  | _ => ""

/-- `_kind >= ASTExpression::CONST_EXPR` -/
def isConst : ASTExpression → Bool
  | sizeof .. | literalInt .. | literalFloat .. | literalStr .. | literalChar ..
  | literalNull .. | literalTrue .. | literalFalse .. => true
  | _ => false

end ASTExpression

mutual

inductive ASTStatement where
  | varDeclaration (type name : String) (expression : Option ASTExpression)
      (location : SourceLocation)
  | globalDeclaration (type name : String) (expression : Option ASTExpression)
      (location : SourceLocation)
  | constDeclaration (type name : String) (expression : Option ASTExpression)
      (location : SourceLocation)
  | expression (expression : ASTExpression) (location : SourceLocation)
  | ifElse (condition : ASTExpression) (body : ASTBody) (elseBody : Option ASTBody)
      (location : SourceLocation)
  | while (condition : ASTExpression) (body : ASTBody) (location : SourceLocation)
  | break (location : SourceLocation)
  | continue (location : SourceLocation)
  | return (expression : Option ASTExpression) (location : SourceLocation)

/-- The body of a function or of a nested statement: its scope and its statements. -/
inductive ASTBody where
  | mk (scopeId : ScopeId) (statements : List ASTStatement)

end

namespace ASTBody

def scopeId : ASTBody → ScopeId
  | mk scopeId _ => scopeId

def statements : ASTBody → List ASTStatement
  | mk _ statements => statements

end ASTBody

/-! ## Declarations -/

structure Member where
  name : String
  typeString : String
  typeId : TypeId := .void
  offset : ℕ := 0
  location : SourceLocation := 0
deriving DecidableEq, Repr

structure ASTStructure where
  name : String := ""
  members : List Member := []
  complete : Bool := false
  createdType : Bool := false
  typeInfo : Option ℕ := none
deriving DecidableEq, Repr

/-- The first member of that name. -/
def ASTStructure.findMember (astStruct : ASTStructure) (name : String) : Option Member :=
  astStruct.members.find? fun member => member.name = name

structure Parameter where
  name : String
  typeString : String
  typeId : TypeId := .void
  offset : ℤ := 0

structure ASTFunction where
  name : String := ""
  location : SourceLocation := 0
  parameters : List Parameter := []
  parametersSize : ℤ := 0
  returnTypeString : String := ""
  returnType : TypeId := .void
  returnOffset : ℤ := 0
  pieceCodeIndex : ℤ := -1
  body : Option ASTBody := none
  isNative : Bool := false

/-! ## Scopes -/

inductive IdentifierKind where
  | localId | globalId | constId
deriving DecidableEq, Repr

structure Identifier where
  kind : IdentifierKind
  type : TypeId
  /-- frame offset or global offset -/
  offset : ℤ
  /-- the declaration of a constant -/
  statement : Option ASTStatement := none

/-- `variable->statement->expression` -/
def Identifier.constant (identifier : Identifier) : Option ASTExpression :=
  match identifier.statement with
  | some (.constDeclaration _ _ e _) => e
  | _ => none

/-- One scope; `functions` are the functions of the body that owns the scope. -/
structure ScopeInfo where
  scopeId : ScopeId := 0
  parent : ScopeId := 0
  functions : List ℕ := []
  identifiers : String → Option Identifier := fun _ => none
  typeMap : String → Option ℕ := fun _ => none
  sharedScopes : List ScopeId := []

/-- The body of a file: the only bodies that hold functions and structures. -/
structure FileBody where
  scopeId : ScopeId
  statements : List ASTStatement := []
  functions : List ℕ := []
  structures : List ℕ := []

structure AST where
  typesUsed : ℕ := 0
  typeInfos : ℕ → TypeInfo := fun _ => ({} : TypeInfo)
  scopesUsed : ℕ := 0
  scopes : ScopeId → ScopeInfo := fun _ => ({} : ScopeInfo)
  structuresUsed : ℕ := 0
  structures : ℕ → ASTStructure := fun _ => ({} : ASTStructure)
  functionsUsed : ℕ := 0
  functions : ℕ → ASTFunction := fun _ => ({} : ASTFunction)
  /-- the bodies of the imports, in the order of their creation -/
  importBodies : List FileBody := []

/-! ## Errors -/

structure Report where
  location : SourceLocation
  message : String
deriving DecidableEq, Repr

/-- The errors reported so far, oldest first. -/
structure Reporter where
  reports : List Report := []

namespace Reporter

/-- The counter `reporter->errors`. -/
def errors (reporter : Reporter) : ℕ := reporter.reports.length

def err (reporter : Reporter) (location : SourceLocation) (message : String) : Reporter :=
  { reports := reporter.reports ++ [⟨location, message⟩] }

@[simp] theorem errors_err (reporter : Reporter) (location : SourceLocation) (message : String) :
    (reporter.err location message).errors = reporter.errors + 1 := by
  simp [errors, err]

end Reporter

end TinCompiler
