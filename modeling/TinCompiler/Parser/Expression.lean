import TinCompiler.Parser.Nodes

/-!
# `parseExpression`

One loop over operands and operators with four stacks.  The top of a stack is the head of its
list.  `back()` of an empty stack and a failed assertion are faults.
-/

namespace TinCompiler

namespace ParseContext

/-! ## The kinds -/

namespace ExpressionKind

/-- `GetPrecedence`; the default case is a failed assertion. -/
def precedence : ExpressionKind → Option ℤ
  | member | index => some 15
  | mul | div => some 10
  | add | sub => some 5
  | equal | notEqual | less | lessEqual | greater | greaterEqual => some (-4)
  | and | or => some (-5)
  | assign => some (-10)
  | _ => none

/-- The kinds that the loop over the unary operators takes. -/
def isUnary : ExpressionKind → Bool
  | not | refer | deref | cast | preIncrement | preDecrement | postIncrement | postDecrement => true
  | _ => false

/-- The operators behind an operand that belong to it alone. -/
def isPostfix : ExpressionKind → Bool
  | postIncrement | postDecrement => true
  | _ => false

end ExpressionKind

/-- `CharToExprType` -/
def charToExprType : TokenKind → Option ExpressionKind
  | .ascii '+' => some .add
  | .ascii '-' => some .sub
  | .ascii '*' => some .mul
  | .ascii '/' => some .div
  | _ => none

/-- The branches for operators behind an operand that are put on the stack, in their order, with
the number of their tokens. -/
def operatorOf (token token2 : Token) : Option (ExpressionKind × ℕ) :=
  let compact := !token.suffixAny
  if token.type = .ascii '+' ∧ token2.type = .ascii '+' ∧ compact then some (.postIncrement, 2)
  else if token.type = .ascii '-' ∧ token2.type = .ascii '-' ∧ compact then
    some (.postDecrement, 2)
  else match charToExprType token.type with
  | some kind => some (kind, 1)
  | none =>
      if token.type = .ascii '&' ∧ token2.type = .ascii '&' ∧ compact then some (.and, 2)
      else if token.type = .ascii '|' ∧ token2.type = .ascii '|' ∧ compact then some (.or, 2)
      else if token.type = .ascii '=' ∧ token2.type = .ascii '=' ∧ compact then some (.equal, 2)
      else if token.type = .ascii '!' ∧ token2.type = .ascii '=' ∧ compact then
        some (.notEqual, 2)
      else if token.type = .ascii '<' ∧ token2.type = .ascii '=' ∧ compact then
        some (.lessEqual, 2)
      else if token.type = .ascii '>' ∧ token2.type = .ascii '=' ∧ compact then
        some (.greaterEqual, 2)
      else if token.type = .ascii '<' then some (.less, 1)
      else if token.type = .ascii '>' then some (.greater, 1)
      else if token.type = .ascii '=' then some (.assign, 1)
      else none

/-- The branches for operators in front of an operand. -/
def prefixOf (token token2 : Token) : Option (ExpressionKind × ℕ) :=
  let compact := !token.suffixAny
  if token.type = .ascii '!' then some (.not, 1)
  else if token.type = .ascii '&' then some (.refer, 1)
  else if token.type = .ascii '*' then some (.deref, 1)
  else if token.type = .cast then some (.cast, 1)
  else if token.type = .ascii '+' ∧ token2.type = .ascii '+' ∧ compact then
    some (.preIncrement, 2)
  else if token.type = .ascii '-' ∧ token2.type = .ascii '-' ∧ compact then
    some (.preDecrement, 2)
  else none

/-! ## The stacks -/

structure Stacks where
  expressions : List Expression := []
  operations : List ExpressionKind := []
  castStrings : List String := []
  savedLocations : List SourceLocation := []

namespace Stacks

/-- `saved_locations.push_back(…); operations.push_back(…)` -/
def pushOperation (kind : ExpressionKind) (location : SourceLocation) (st : Stacks) : Stacks :=
  { st with
    operations := kind :: st.operations
    savedLocations := location :: st.savedLocations }

def pushExpression (expr : Expression) (st : Stacks) : Stacks :=
  { st with expressions := expr :: st.expressions }

/-- A unary operator that is not on the stack of operations any more takes its operand. -/
def applyUnary (op : ExpressionKind) (st : Stacks) : Option Stacks :=
  match st.expressions, st.savedLocations with
  | left :: expressions, location :: savedLocations =>
      let st := { st with savedLocations := savedLocations }
      if op = .cast then
        match st.castStrings with
        | name :: castStrings => some { st with
            expressions := .unary op left name location :: expressions
            castStrings := castStrings }
        | [] => none
      else some { st with expressions := .unary op left "" location :: expressions }
  | _, _ => none

/-- A binary operator that is not on the stack of operations any more takes its operands. -/
def applyBinary (op : ExpressionKind) (st : Stacks) : Option Stacks :=
  match st.expressions, st.savedLocations with
  | right :: left :: expressions, location :: savedLocations => some { st with
      expressions := .binary op left right location :: expressions
      savedLocations := savedLocations }
  | _, _ => none

/-- The loop that fixes the unary operators, on the list of the operations. -/
def fixUnary : List ExpressionKind → Stacks → Option Stacks
  | [], st => some { st with operations := [] }
  | op :: operations, st =>
      if op.isUnary then (st.applyUnary op).bind (fixUnary operations)
      else some { st with operations := op :: operations }

/-- The loop behind a binary operator: `right` is the last operation, and the operations
before it of the same or a higher precedence are erased. -/
def reduceLeft (right : ExpressionKind) : List ExpressionKind → Stacks → Option Stacks
  | [], st => some { st with operations := [right] }
  | left :: operations, st =>
      match left.precedence, right.precedence with
      | some p, some q =>
          if p ≥ q then (st.applyBinary left).bind (reduceLeft right operations)
          else some { st with operations := right :: left :: operations }
      | _, _ => none

/-- The loop at the end of the expression. -/
def reduceAll : List ExpressionKind → Stacks → Option Stacks
  | [], st => some { st with operations := [] }
  | op :: operations, st => (st.applyBinary op).bind (reduceAll operations)

end Stacks

/-- The variables of `parseExpression`. -/
structure ExpressionState extends Stacks where
  isOperator : Bool := false
  name : String := ""
  number : BitVec 32 := 0
  decimal : BitVec 32

namespace ExpressionState

/-- What `getToken` stores. -/
def store (payload : Payload) (e : ExpressionState) : ExpressionState :=
  match payload with
  | .none => e
  | .str text => { e with name := text }
  | .num value => { e with number := value }
  | .dec bits => { e with decimal := bits }

end ExpressionState

/-! ## One round of the loop -/

/-- The loop goes on, or the function returns. -/
abbrev ExpressionStep : Type := LoopStep ExpressionState (Option Expression)

variable (stream : TokenStream)

/-- Behind an operand. -/
def afterOperand (e : ExpressionState) : ParserM ExpressionStep := do
  let st ← .ofOption (e.fixUnary e.operations)
  return .again { e with toStacks := st, isOperator := true }

/-- Behind a binary operator. -/
def afterOperator (e : ExpressionState) : ParserM ExpressionStep := do
  match e.operations with
  | [] => return .again { e with isOperator := false }
  | right :: lefts =>
      let st ← .ofOption (e.reduceLeft right lefts)
      return .again { e with toStacks := st, isOperator := false }

/-- No operator follows. -/
def endExpression (e : ExpressionState) : ParserM ExpressionStep := do
  let st ← .ofOption (e.reduceAll e.operations)
  match st.expressions, st.operations with
  | [expr], [] => return .finish (some expr)
  | _, _ => .fault

/-- `.name` behind an operand. -/
def memberStep (e : ExpressionState) : ParserM ExpressionStep := do
  let location ← getloc
  advance 1
  let token ← gettok stream 0
  if token.type ≠ .id then
    report (← getloc) "Member access operator expects and identifier after '.'."
    return .finish none
  else
    advance 1
    match e.expressions with
    | [] => .fault
    | left :: expressions =>
        let expr := .unary .member left (stream.payload token).text location
        afterOperand { e with expressions := expr :: expressions }

/-- `[…]` behind an operand; the result of the call is not tested. -/
def indexStep (parse : ParserM (Option Expression)) (e : ExpressionState) :
    ParserM ExpressionStep := do
  let location ← getloc
  advance 1
  match e.expressions with
  | [] => .fault
  | left :: expressions =>
      let right ← parse
      let token ← gettok stream 0
      if token.type ≠ .ascii ']' then
        report (← getloc) "Expected closing bracket for index operator."
        return .finish none
      else
        advance 1
        afterOperand { e with expressions := .index left right location :: expressions }

/-- The branch `is_operator`. -/
def operatorStep (parse : ParserM (Option Expression)) (e : ExpressionState) :
    ParserM ExpressionStep := do
  let token ← gettok stream 0
  let token2 ← gettok stream 1
  match operatorOf token token2 with
  | some (kind, n) =>
      let location ← getloc
      advance n
      let e := { e with toStacks := e.pushOperation kind location }
      if kind.isPostfix then afterOperand e else afterOperator e
  | none =>
      if token.type = .ascii '.' then memberStep stream e
      else if token.type = .ascii '[' then indexStep stream parse e
      else endExpression e

/-- One argument of a call, or its end. -/
def argumentRound (parse : ParserM (Option Expression)) (arguments : List Expression) :
    ParserM (LoopStep (List Expression) (Option (List Expression))) := do
  let token ← gettok stream 0
  if token.type = .eof then
    report (← getloc) "Sudden end of file."
    return .finish none
  else if token.type = .ascii ')' then
    advance 1
    return .finish (some arguments)
  else
    match ← parse with
    | none => return .finish none
    | some expr =>
        let token ← gettok stream 0
        if token.type = .ascii ',' then
          advance 1
          return .again (arguments ++ [expr])
        else if token.type = .ascii ')' then
          return .again (arguments ++ [expr])
        else
          report (← getloc) "Expected closing parentheses."
          return .finish none

/-- An identifier or a function call. -/
def identifierOperand (parse : ParserM (Option Expression)) (name : String) :
    ParserM (Option Expression) := do
  let location ← getloc
  advance 1
  let token ← gettok stream 0
  if token.type = .ascii '(' then
    advance 1
    match ← Program.loop (argumentRound stream parse) (bound stream) [] with
    | none => return none
    | some arguments => return some (.call name arguments location)
  else return some (.leaf .identifier (.str name) location)

/-- The literals: their kind, their value and the number of their tokens. -/
def literalOf (token token2 : Token) (e : ExpressionState) :
    Option (ExpressionKind × Payload × ℕ) :=
  if token.type = .true then some (.literalTrue, .none, 1)
  else if token.type = .false then some (.literalFalse, .none, 1)
  else if token.type = .null then some (.literalNull, .none, 1)
  else if token.type = .literalInteger then some (.literalInt, .num e.number, 1)
  else if token.type = .ascii '-' ∧ token2.type = .literalInteger then
    some (.literalInt, .num (-e.number), 2)
  else if token.type = .literalDecimal then some (.literalFloat, .dec e.decimal, 1)
  else if token.type = .ascii '-' ∧ token2.type = .literalDecimal then
    some (.literalFloat, .dec (e.decimal ^^^ (1 <<< 31)), 2)
  else if token.type = .literalString then some (.literalStr, .str e.name, 1)
  else if token.type = .literalChar then some (.literalChar, .str e.name, 1)
  else none

/-- An expression in parentheses. -/
def parenthesised (parse : ParserM (Option Expression)) : ParserM (Option Expression) := do
  advance 1
  match ← parse with
  | none => return none
  | some expr =>
      let token ← gettok stream 0
      if token.type = .ascii ')' then
        advance 1
        return some expr
      else fail (← getloc) "Unexpected token. You possible forgot a closing parenthesis."

/-- An operand without its prefix operators. -/
def operand (parse : ParserM (Option Expression)) (e : ExpressionState) :
    ParserM (Option Expression) := do
  let token ← gettok stream 0
  let token2 ← gettok stream 1
  if token.type = .id then identifierOperand stream parse e.name
  else match literalOf token token2 e with
  | some (kind, payload, n) =>
      let location ← getloc
      advance n
      return some (.leaf kind payload location)
  | none =>
      if token.type = .sizeof then
        let location ← getloc
        advance 1
        let type ← parseType stream
        return some (.leaf .sizeof (.str type) location)
      else if token.type = .ascii '(' then parenthesised stream parse
      else fail (← getloc) "Invalid token."

/-- The branch `!is_operator`; a prefix operator starts the next round at once. -/
def operandStep (parse : ParserM (Option Expression)) (e : ExpressionState) :
    ParserM ExpressionStep := do
  let token ← gettok stream 0
  let token2 ← gettok stream 1
  match prefixOf token token2 with
  | some (kind, n) =>
      let location ← getloc
      advance n
      let st := e.pushOperation kind location
      if kind = .cast then
        let type ← parseType stream
        return .again { e with toStacks := { st with castStrings := type :: st.castStrings } }
      else return .again { e with toStacks := st }
  | none =>
      match ← operand stream parse e with
      | none => return .finish none
      | some expr => afterOperand { e with toStacks := e.pushExpression expr }

/-- One round; `parse` is the function itself. -/
def expressionRound (parse : ParserM (Option Expression)) (e : ExpressionState) :
    ParserM ExpressionStep := do
  let token ← gettok stream 0
  let e := e.store (stream.payload token)
  if e.isOperator then operatorStep stream parse e else operandStep stream parse e

/-- The body of `parseExpression`, with the function itself as a parameter.  The variable
`decimal` starts with the indeterminate value `garbage`. -/
def expressionBody (garbage : BitVec 32) (parse : ParserM (Option Expression)) :
    ParserM (Option Expression) :=
  Program.loop (expressionRound stream parse) (bound stream) { decimal := garbage }

/-- The calls of `parseExpression` inside of each other are bounded by `depth`. -/
def parseExpressionAt (garbage : BitVec 32) : ℕ → ParserM (Option Expression)
  | 0 => fun _ => .cutOff
  | depth + 1 => expressionBody stream garbage (parseExpressionAt garbage depth)

def parseExpression (garbage : BitVec 32) : ParserM (Option Expression) :=
  parseExpressionAt stream garbage (bound stream)

end ParseContext

end TinCompiler
