import TinCompiler.Parser.Progress

/-!
# Parsing terminates

Nothing of the parser is cut off by the bounds of the model (`ends` in every field), because
`head` is larger in each round of a loop and in each call of a function inside of itself.
-/

namespace TinCompiler

namespace ParseContext

open Program

/-- `parseIf` in the scope `currentScopeId`. -/
def parseIf (stream : TokenStream) (garbage : BitVec 32) (currentScopeId : ScopeId) :
    ParserM (Option Statement) :=
  parseIfAt stream garbage (parseBody stream garbage currentScopeId) currentScopeId (bound stream)

/-- Between two rounds of the loop `head` advances. -/
def Advances {α β : Type} (round : α → ParserM (LoopStep α β)) : Prop :=
  ∀ a s a' s', round a s = .done (.again a') s' → s.head < s'.head

/-- Every function returns, a null pointer comes with an error; the calls that a function makes
of itself, directly or through others, are only made behind the `head` that it was called with;
and the loops advance, those of the nested calls (at any `depth`) included. -/
structure Terminates (stream : TokenStream) (garbage : BitVec 32) : Prop where
  file_ends : ∀ s, (parseTokenStream stream garbage s).Ends fun r s' =>
    r.1 = false → s.reporter.errors < s'.reporter.errors
  struct_ends : ∀ s, (tokenAt stream s.head).type = .struct →
    (parseStruct stream s).Ends (Returns s)
  function_ends : ∀ s currentScopeId, (tokenAt stream s.head).type = .function →
    (parseFunction stream garbage currentScopeId s).Ends (Returns s)
  declaration_ends : ∀ s kind, (parseDeclaration stream garbage kind s).Ends (Returns s)
  body_ends : ∀ s currentScopeId, (parseBody stream garbage currentScopeId s).Ends (Returns s)
  if_ends : ∀ s currentScopeId, (tokenAt stream s.head).type = .if →
    (parseIf stream garbage currentScopeId s).Ends (Returns s)
  while_ends : ∀ s currentScopeId, (tokenAt stream s.head).type = .while →
    (parseWhile stream garbage (parseBody stream garbage currentScopeId) s).Ends (Returns s)
  expression_ends : ∀ s, (parseExpression stream garbage s).Ends (Returns s)
  type_ends : ∀ s, (parseType stream s).Ends fun _ s' => Later s s'
  expression_calls : ∀ s, (expressionBody stream garbage
    (onlyAbove s.head (parseExpression stream garbage)) s).Ends (Returns s)
  body_calls : ∀ s currentScopeId, (bodyBody stream garbage
    (fun scopeId => onlyAbove s.head (parseBody stream garbage scopeId)) currentScopeId s).Ends
      (Returns s)
  if_calls : ∀ s currentScopeId, (tokenAt stream s.head).type = .if → (ifBody stream garbage
    (onlyAbove s.head (parseIf stream garbage currentScopeId))
    (onlyAbove s.head (parseBody stream garbage currentScopeId)) currentScopeId s).Ends (Returns s)
  while_calls : ∀ s currentScopeId, (tokenAt stream s.head).type = .while →
    (parseWhile stream garbage (onlyAbove s.head (parseBody stream garbage currentScopeId)) s).Ends
      (Returns s)
  type_loop : Advances (starRound stream)
  expression_loop : ∀ depth s e s₁ e' s₂,
    Rounds (expressionRound stream (parseExpressionAt stream garbage depth))
      { decimal := garbage } s e s₁ →
    expressionRound stream (parseExpressionAt stream garbage depth) e s₁ = .done (.again e') s₂ →
    s₁.head < s₂.head
  argument_loop : ∀ depth, Advances (argumentRound stream (parseExpressionAt stream garbage depth))
  body_loop : ∀ depth currentScopeId, Advances (bodyRound stream garbage
    (parseBodyAt stream garbage depth currentScopeId) currentScopeId)
  parameter_loop : Advances (parameterRound stream)
  member_loop : Advances (memberRound stream)
  file_loop : ∀ scopeId, Advances (fileRound stream garbage scopeId)

variable {stream : TokenStream} {garbage : BitVec 32} {s : State}

theorem lt_length_of_if (htype : (tokenAt stream s.head).type = .if) :
    s.head < stream.tokens.length :=
  lt_length_of_ne_eof stream (by rw [htype]; exact TokenKind.noConfusion)

theorem parseExpression_sound (head : ℕ) :
    Sound True stream head (bound stream) (parseExpression stream garbage) :=
  parseExpressionAt_sound garbage (bound stream) head

theorem parseBody_sound (head : ℕ) (currentScopeId : ScopeId) :
    Sound True stream head (bound stream) (parseBody stream garbage currentScopeId) :=
  parseBodyAt_sound (bound stream) head currentScopeId

theorem parseIf_sound (head : ℕ) (currentScopeId : ScopeId) :
    IfSound True stream head (bound stream) (parseIf stream garbage currentScopeId) := by
  refine parseIfAt_sound currentScopeId (parseBody_sound (0 + 1) currentScopeId) (fun _ => ?_)
    (bound stream) head (Nat.zero_le _)
  unfold bound
  omega

theorem remaining_le_bound (s : State) : remaining stream s ≤ bound stream :=
  Nat.le_of_lt (remaining_lt_bound s)

/-- `parseExpression` and its parts at any depth, without a bound on the tokens that are left. -/
theorem parseExpressionAt_meetsFalse (depth head : ℕ) :
    Sound False stream head depth (parseExpressionAt stream garbage depth) :=
  parseExpressionAt_sound garbage depth head

theorem terminates_expression_loop (depth : ℕ) {s₁ s₂ : State} {e e' : ExpressionState}
    (hrounds : Rounds (expressionRound stream (parseExpressionAt stream garbage depth))
      { decimal := garbage } s e s₁)
    (hround : expressionRound stream (parseExpressionAt stream garbage depth) e s₁ =
      .done (.again e') s₂) : s₁.head < s₂.head := by
  have hbalanced : Balanced e := by
    refine hrounds.invariant (fun e _ => Balanced e) (fun e s hinv e' s' hround => ?_)
      (balanced_start garbage)
    exact ((expressionRound_meets hinv (parseExpressionAt_meetsFalse depth _)
      False.elim).of_done hround).1
  exact ((expressionRound_meets hbalanced (parseExpressionAt_meetsFalse depth _)
    False.elim).of_done hround).2.1.head

/-- For every list of tokens, well-formed or not. -/
theorem terminates (stream : TokenStream) (garbage : BitVec 32) : Terminates stream garbage where
  file_ends s := parseTokenStream_meets.mono fun r s' hr hnull => (hr.2 hnull).errors
  struct_ends s htype := parseStruct_meets htype
  function_ends s currentScopeId htype := parseFunction_meets currentScopeId htype
  declaration_ends s kind := parseDeclaration_meets kind
  body_ends s currentScopeId := parseBody_meets currentScopeId
  if_ends s currentScopeId htype := parseIf_sound 0 currentScopeId s (Nat.zero_le _)
    (lt_length_of_if htype) fun _ => remaining_lt_bound s
  while_ends s currentScopeId htype := parseWhile_meets htype (parseBody_sound _ currentScopeId)
    fun _ => remaining_le_bound s
  expression_ends s := parseExpression_meets garbage
  type_ends s := parseType_meets.mono fun type s' htype => htype.1
  expression_calls s := expressionBody_meets (parseExpression_sound _).onlyAbove
    fun _ => remaining_le_bound s
  body_calls s currentScopeId := bodyBody_meets currentScopeId
    (fun scopeId => (parseBody_sound _ scopeId).onlyAbove) fun _ => remaining_le_bound s
  if_calls s currentScopeId htype := ifBody_meets currentScopeId (lt_length_of_if htype)
    (parseIf_sound _ currentScopeId).onlyAbove (parseBody_sound _ currentScopeId).onlyAbove
    (fun _ => remaining_le_bound s) fun _ => remaining_le_bound s
  while_calls s currentScopeId htype := parseWhile_meets htype
    (parseBody_sound _ currentScopeId).onlyAbove fun _ => remaining_le_bound s
  type_loop out s out' s' hround :=
    ((@starRound_meets stream True s out).of_done hround).1.head
  expression_loop depth s e s₁ e' s₂ hrounds hround :=
    terminates_expression_loop depth hrounds hround
  argument_loop depth arguments s arguments' s' hround :=
    ((argumentRound_meets (parseExpressionAt_meetsFalse depth _) False.elim
      arguments).of_done hround).1.head
  body_loop depth currentScopeId statements s statements' s' hround := by
    have hbody : Sound False stream (s.head + 1) depth
        (parseBodyAt stream garbage depth currentScopeId) := parseBodyAt_sound depth _ currentScopeId
    exact ((bodyRound_meets currentScopeId hbody False.elim statements).of_done hround).1.head
  parameter_loop parameters s parameters' s' hround :=
    ((@parameterRound_meets stream True s parameters).of_done hround).1.head
  member_loop members s members' s' hround :=
    ((@memberRound_meets stream True s members).of_done hround).1.head
  file_loop scopeId file s file' s' hround :=
    ((@fileRound_meets stream True s garbage scopeId file).of_done hround).1.head

end ParseContext

end TinCompiler
