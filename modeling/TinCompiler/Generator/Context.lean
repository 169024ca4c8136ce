import TinCompiler.Scope
import TinCompiler.Bytecode

/-!
# The generator's state

The fields of `GeneratorContext` and the operations on them that all of the generator
uses, as a state monad.  Three fields are ghosts that no function reads: `abandoned`
logs where the generator gives up on something, `blocks` and `starts` record where the
code of statements and conditions is.
-/

namespace TinCompiler

/-- `GeneratorContext::LoopScope` -/
structure LoopScope where
  continuePc : ℕ
  frameOffset : ℤ
  breaksToResolve : List ℕ := []
deriving DecidableEq, Repr

/-- What a run of the code of a block does, seen from the control flow. -/
inductive BlockKind where
  /-- an expression statement or a declaration -/
  | statement (statement : ASTStatement)
  /-- the condition of the `jz` behind the block -/
  | condition (condition : ASTExpression)
  /-- the value of a return statement -/
  | result (statement : ASTStatement)

/-- The code in `[start, stop)`. -/
structure Block where
  start : ℕ
  stop : ℕ
  kind : BlockKind

structure GeneratorContext where
  reporter : Reporter := {}
  ast : AST
  function : ASTFunction := {}
  bytecode : Bytecode := {}
  piece : BytecodePiece := {}
  currentFrameOffset : ℤ := 0
  currentScopeId : ScopeId := globalScope
  /-- the innermost loop last -/
  loopScopes : List LoopScope := []
  /-- where the rest of an expression, a statement or a body was given up -/
  abandoned : List SourceLocation := []
  blocks : List Block := []
  /-- the start of each statement's code and the frame offset it was generated with -/
  starts : List (ℕ × ℤ) := []

/-- A computation of the generator. -/
abbrev GeneratorM (α : Type) : Type := GeneratorContext → α × GeneratorContext

namespace GeneratorM

instance : Monad GeneratorM where
  pure a := fun c => (a, c)
  bind x f := fun c => f (x c).1 (x c).2

variable {α β : Type}

@[simp] theorem pure_apply (a : α) (c : GeneratorContext) : (pure a : GeneratorM α) c = (a, c) :=
  rfl

@[simp] theorem bind_apply (x : GeneratorM α) (f : α → GeneratorM β) (c : GeneratorContext) :
    (x >>= f) c = f (x c).1 (x c).2 := rfl

@[simp] theorem map_apply (f : α → β) (x : GeneratorM α) (c : GeneratorContext) :
    (f <$> x) c = (f (x c).1, (x c).2) := rfl

@[simp] theorem ite_apply (p : Prop) [Decidable p] (x y : GeneratorM α) (c : GeneratorContext) :
    (if p then x else y) c = if p then x c else y c := by
  split <;> rfl

end GeneratorM

open GeneratorM

def getContext : GeneratorM GeneratorContext := fun c => (c, c)

def modifyContext (f : GeneratorContext → GeneratorContext) : GeneratorM Unit := fun c => ((), f c)

@[simp] theorem getContext_apply (c : GeneratorContext) : getContext c = (c, c) := rfl

/-- A computation that starts by reading the context; unlike `bind_apply` this keeps the
`Decidable` instances of its conditions in shape. -/
theorem getContext_bind_apply {α : Type} (f : GeneratorContext → GeneratorM α)
    (c : GeneratorContext) : (getContext >>= f) c = f c c := rfl

@[simp] theorem modifyContext_apply (f : GeneratorContext → GeneratorContext)
    (c : GeneratorContext) : modifyContext f c = ((), f c) := rfl

def GeneratorContext.withPiece (c : GeneratorContext) (piece : BytecodePiece) :
    GeneratorContext :=
  { c with piece := piece }

@[simp] theorem GeneratorContext.withPiece_piece (c : GeneratorContext) (piece : BytecodePiece) :
    (c.withPiece piece).piece = piece := rfl

@[simp] theorem GeneratorContext.withPiece_ast (c : GeneratorContext) (piece : BytecodePiece) :
    (c.withPiece piece).ast = c.ast := rfl

@[simp] theorem GeneratorContext.withPiece_reporter (c : GeneratorContext)
    (piece : BytecodePiece) : (c.withPiece piece).reporter = c.reporter := rfl

@[simp] theorem GeneratorContext.withPiece_currentScopeId (c : GeneratorContext)
    (piece : BytecodePiece) : (c.withPiece piece).currentScopeId = c.currentScopeId := rfl

@[simp] theorem GeneratorContext.withPiece_withPiece (c : GeneratorContext)
    (piece piece' : BytecodePiece) : (c.withPiece piece).withPiece piece' = c.withPiece piece' :=
  rfl

/-- `piece->emit_…` -/
def emit (f : BytecodePiece → BytecodePiece) : GeneratorM Unit :=
  modifyContext fun c => c.withPiece (f c.piece)

/-- The macro `REPORT`. -/
def report (location : SourceLocation) (message : String) : GeneratorM Unit :=
  modifyContext fun c => { c with reporter := c.reporter.err location message }

/-- Nothing is emitted for what is left. -/
def abandon (location : SourceLocation) : GeneratorM Unit :=
  modifyContext fun c => { c with abandoned := c.abandoned ++ [location] }

/-- `REPORT(location, message); return TYPE_VOID;` -/
def failWith (location : SourceLocation) (message : String) : GeneratorM TypeId := do
  report location message
  abandon location
  return .void

/-- `return TYPE_VOID;` on a failure that is not reported here. -/
def giveUp (location : SourceLocation) : GeneratorM TypeId := do
  abandon location
  return .void

/-! ## Pushing and popping values -/

/-- `generatePop`; the first number bounds how deep structures are nested. -/
def generatePop (ast : AST) (reg : Register) :
    ℕ → ℤ → TypeId → BytecodePiece → BytecodePiece
  | 0, _, _, piece => piece
  | fuel + 1, offset, type, piece =>
      if type = .void then piece
      else
        match ast.structOf type with
        | none =>
            let piece := piece.emitPop .a
            if reg ≠ .invalid then piece.emitMovMRDisp reg .a (ast.sizeOfType type) offset
            else piece
        | some s =>
            (ast.structures s).members.reverse.foldl
              (fun piece mem => generatePop ast reg fuel (offset + mem.offset) mem.typeId piece)
              piece

/-- `generatePush` -/
def generatePush (ast : AST) (reg : Register) :
    ℕ → ℤ → TypeId → BytecodePiece → BytecodePiece
  | 0, _, _, piece => piece
  | fuel + 1, offset, type, piece =>
      match ast.structOf type with
      | none => (piece.emitMovRMDisp .a reg (ast.sizeOfType type) offset).emitPush .a
      | some s =>
          (ast.structures s).members.foldl
            (fun piece mem => generatePush ast reg fuel (offset + mem.offset) mem.typeId piece)
            piece

/-- Structures that do not hold themselves are nested less deep than there are types. -/
def AST.depth (ast : AST) : ℕ := ast.typesUsed + 1

def popValue (reg : Register) (offset : ℤ) (type : TypeId) : GeneratorM Unit :=
  modifyContext fun c => c.withPiece (generatePop c.ast reg c.ast.depth offset type c.piece)

def pushValue (reg : Register) (offset : ℤ) (type : TypeId) : GeneratorM Unit :=
  modifyContext fun c => c.withPiece (generatePush c.ast reg c.ast.depth offset type c.piece)

def IsSmallInteger (type : TypeId) : Prop := type = .int ∨ type = .char ∨ type = .bool

instance (type : TypeId) : Decidable (IsSmallInteger type) := inferInstanceAs (Decidable (_ ∨ _))

/-- Which conversion `performCast` emits, if it accepts the types.  The third operand of the
test on `rtype` is the constant `TYPE_BOOL`, which is true. -/
def implicitCast (ltype rtype : TypeId) : Option (Option CastType) :=
  if ltype = rtype then some none
  else if ltype.pointerLevel > 0 ∧ rtype.pointerLevel > 0 then some none
  else if IsSmallInteger ltype then some none
  else if ltype = .int ∧ rtype = .float then some (some .intFloat)
  else if ltype = .float ∧ rtype = .int then some (some .floatInt)
  else none

def emitConversion : Option CastType → BytecodePiece → BytecodePiece
  | none, piece => piece
  | some castType, piece => ((piece.emitPop .a).emitCast .a castType).emitPush .a

def performCast (ltype rtype : TypeId) : GeneratorM Bool :=
  match implicitCast ltype rtype with
  | none => return false
  | some conversion => do
      emit (emitConversion conversion)
      return true

end TinCompiler
