import TinCompiler.Library.Precedence
import TinCompiler.Parser.Progress

/-!
# Binary operators

A sequence of operands and binary operators is parsed to its precedence tree
(`parseExpression_precedence`).  The two stacks of `parseExpression` are the pending operators
of such a tree with their left operands.
-/

namespace TinCompiler

namespace ParseContext

open Program

variable {stream : TokenStream} {garbage : BitVec 32}

/-! ## Without the depth

The depth that bounds the calls of `parseExpression` inside of itself does not show. -/

section Depth

variable {parse parse' : ParserM (Option Expression)}

theorem argumentRound_extends (h : Extends parse' parse) (arguments : List Expression) :
    Extends (argumentRound stream parse' arguments) (argumentRound stream parse arguments) := by
  refine .bind (.refl _) fun token => .ite (.refl _) (.ite (.refl _) ?_)
  refine .bind h fun expr => ?_
  cases expr <;> exact .refl _

theorem identifierOperand_extends (h : Extends parse' parse) (name : String) :
    Extends (identifierOperand stream parse' name) (identifierOperand stream parse name) := by
  refine .bind (.refl _) fun location => .bind (.refl _) fun _ => .bind (.refl _) fun token => ?_
  refine .ite (.bind (.refl _) fun _ => ?_) (.refl _)
  refine .bind (.loop (argumentRound_extends h) _ _) fun arguments => ?_
  cases arguments <;> exact .refl _

theorem parenthesised_extends (h : Extends parse' parse) :
    Extends (parenthesised stream parse') (parenthesised stream parse) := by
  refine .bind (.refl _) fun _ => .bind h fun expr => ?_
  cases expr <;> exact .refl _

theorem operand_extends (h : Extends parse' parse) (e : ExpressionState) :
    Extends (operand stream parse' e) (operand stream parse e) := by
  refine .bind (.refl _) fun token => .bind (.refl _) fun token2 => ?_
  refine .ite (identifierOperand_extends h _) ?_
  cases literalOf token token2 e with
  | some _ => exact .refl _
  | none => exact .ite (.refl _) (.ite (parenthesised_extends h) (.refl _))

theorem operandStep_extends (h : Extends parse' parse) (e : ExpressionState) :
    Extends (operandStep stream parse' e) (operandStep stream parse e) := by
  refine .bind (.refl _) fun token => .bind (.refl _) fun token2 => ?_
  cases prefixOf token token2 with
  | some _ => exact .refl _
  | none =>
      refine .bind (operand_extends h e) fun expr => ?_
      cases expr <;> exact .refl _

theorem indexStep_extends (h : Extends parse' parse) (e : ExpressionState) :
    Extends (indexStep stream parse' e) (indexStep stream parse e) := by
  refine .bind (.refl _) fun location => .bind (.refl _) fun _ => ?_
  cases e.expressions with
  | nil => exact .refl _
  | cons left expressions => exact .bind h fun _ => .refl _

theorem operatorStep_extends (h : Extends parse' parse) (e : ExpressionState) :
    Extends (operatorStep stream parse' e) (operatorStep stream parse e) := by
  refine .bind (.refl _) fun token => .bind (.refl _) fun token2 => ?_
  cases operatorOf token token2 with
  | some _ => exact .refl _
  | none => exact .ite (.refl _) (.ite (indexStep_extends h e) (.refl _))

theorem expressionRound_extends (h : Extends parse' parse) (e : ExpressionState) :
    Extends (expressionRound stream parse' e) (expressionRound stream parse e) :=
  .bind (.refl _) fun _ => .ite (operatorStep_extends h _) (operandStep_extends h _)

theorem expressionBody_extends (h : Extends parse' parse) :
    Extends (expressionBody stream garbage parse') (expressionBody stream garbage parse) :=
  .loop (expressionRound_extends h) _ _

theorem parseExpressionAt_extends : ∀ depth,
    Extends (parseExpressionAt stream garbage (depth + 1)) (parseExpressionAt stream garbage depth)
  | 0 => fun _ hne => absurd rfl hne
  | depth + 1 => expressionBody_extends (parseExpressionAt_extends depth)

theorem parseExpression_ne_cutOff (s : State) : parseExpression stream garbage s ≠ .cutOff := by
  have hends : (parseExpression stream garbage s).Ends _ := parseExpression_meets garbage
  obtain ⟨r, s', hdone, -⟩ := Result.Ends.exists hends
  rw [hdone]
  exact fun h => nomatch h

/-- `parseExpression` calls itself. -/
theorem parseExpression_eq (s : State) : parseExpression stream garbage s =
    expressionBody stream garbage (parseExpression stream garbage) s := by
  have hextends := @parseExpressionAt_extends stream garbage (bound stream) s
  exact (hextends (parseExpression_ne_cutOff s)).symm

end Depth

/-! ## Sequences of operands and operators -/

/-- The characters of the binary operators but for the assignment; those of two characters are
two tokens. -/
def symbols : ExpressionKind → Option (Char × Option Char)
  | .add => some ('+', none)
  | .sub => some ('-', none)
  | .mul => some ('*', none)
  | .div => some ('/', none)
  | .and => some ('&', some '&')
  | .or => some ('|', some '|')
  | .equal => some ('=', some '=')
  | .notEqual => some ('!', some '=')
  | .less => some ('<', none)
  | .lessEqual => some ('<', some '=')
  | .greater => some ('>', none)
  | .greaterEqual => some ('>', some '=')
  | _ => none

/-- An operator of `n` tokens stands at the index, and nothing between the two of them. -/
def Spelled (stream : TokenStream) (index : ℕ) (kind : ExpressionKind) (n : ℕ) : Prop :=
  match symbols kind with
  | some (c, none) => (tokenAt stream index).type = .ascii c ∧ n = 1
  | some (c, some c') => (tokenAt stream index).type = .ascii c ∧
      (tokenAt stream index).suffixAny = false ∧ (tokenAt stream (index + 1)).type = .ascii c' ∧
      n = 2
  | none => False

/-- The literals of one token. -/
def literalKind : TokenKind → Option ExpressionKind
  | .true => some .literalTrue
  | .false => some .literalFalse
  | .null => some .literalNull
  | .literalInteger => some .literalInt
  | .literalDecimal => some .literalFloat
  | .literalString => some .literalStr
  | .literalChar => some .literalChar
  | _ => none

/-- An identifier, a literal, a call or an expression in parentheses, with its expression and
the state behind it. -/
inductive Operand (stream : TokenStream) (garbage : BitVec 32) (s : State) :
    Expression → State → Prop where
  | identifier (htype : (tokenAt stream s.head).type = .id)
      (hnext : (tokenAt stream (s.head + 1)).type ≠ .ascii '(') :
      Operand stream garbage s
        (.leaf .identifier (stream.payload (tokenAt stream s.head)) s.head)
        { s with head := s.head + 1 }
  | literal {kind : ExpressionKind} (htype : literalKind (tokenAt stream s.head).type = some kind) :
      Operand stream garbage s (.leaf kind (stream.payload (tokenAt stream s.head)) s.head)
        { s with head := s.head + 1 }
  | call {arguments : List Expression} {s' : State} (htype : (tokenAt stream s.head).type = .id)
      (hnext : (tokenAt stream (s.head + 1)).type = .ascii '(')
      (harguments : Program.loop (argumentRound stream (parseExpression stream garbage))
        (bound stream) [] { s with head := s.head + 1 + 1 } = .done (some arguments) s') :
      Operand stream garbage s
        (.call (stream.payload (tokenAt stream s.head)).text arguments s.head) s'
  | parenthesised {expr : Expression} {s' : State}
      (htype : (tokenAt stream s.head).type = .ascii '(')
      (hexpr : parseExpression stream garbage { s with head := s.head + 1 } = .done (some expr) s')
      (hclose : (tokenAt stream s'.head).type = .ascii ')') :
      Operand stream garbage s expr { s' with head := s'.head + 1 }

/-- The tokens `a₀ op₁ a₁ … opₙ aₙ`, with the state behind them. -/
inductive Sequence (stream : TokenStream) (garbage : BitVec 32) :
    State → Expression × List (ExpressionKind × Expression) → State → Prop where
  | operand {s s' : State} {a : Expression} (h : Operand stream garbage s a s') :
      Sequence stream garbage s (a, []) s'
  | operator {s s₁ s' : State} {a b : Expression} {kind : ExpressionKind} {n : ℕ}
      {items : List (ExpressionKind × Expression)} (h : Operand stream garbage s a s₁)
      (hspelled : Spelled stream s₁.head kind n)
      (hrest : Sequence stream garbage { s₁ with head := s₁.head + n } (b, items) s') :
      Sequence stream garbage s (a, (kind, b) :: items) s'

/-- Neither an operator nor a member nor an index follows. -/
structure Ends (stream : TokenStream) (index : ℕ) : Prop where
  operator : operatorOf (tokenAt stream index) (tokenAt stream (index + 1)) = none
  member : (tokenAt stream index).type ≠ .ascii '.'
  index : (tokenAt stream index).type ≠ .ascii '['

/-! ### What the rounds make of them -/

/-- The tokens that operands start with. -/
def startsOperand (type : TokenKind) : Bool :=
  type = .id || (literalKind type).isSome || type = .ascii '('

theorem Operand.starts {s s' : State} {a : Expression} (h : Operand stream garbage s a s') :
    startsOperand (tokenAt stream s.head).type = true := by
  unfold startsOperand
  cases h with
  | identifier htype => simp [htype]
  | literal htype => simp [htype]
  | call htype => simp [htype]
  | parenthesised htype => simp [htype]

theorem Sequence.starts {s s' : State} {a : Expression}
    {items : List (ExpressionKind × Expression)}
    (h : Sequence stream garbage s (a, items) s') :
    startsOperand (tokenAt stream s.head).type = true := by
  cases h with
  | operand h => exact h.starts
  | operator h => exact h.starts

theorem not_startsOperand {type : TokenKind} (h : startsOperand type = true) :
    type ≠ .ascii '+' ∧ type ≠ .ascii '-' ∧ type ≠ .ascii '=' := by
  refine ⟨?_, ?_, ?_⟩
  all_goals
    rintro rfl
    simp [startsOperand, literalKind] at h

/-- The branches of the operators find the operator; an operand does not make another one of
it. -/
theorem operatorOf_of_spelled {index : ℕ} {kind : ExpressionKind} {n : ℕ}
    (h : Spelled stream index kind n)
    (hstart : startsOperand (tokenAt stream (index + n)).type = true) :
    operatorOf (tokenAt stream index) (tokenAt stream (index + 1)) = some (kind, n) := by
  obtain ⟨hplus, hminus, hequal⟩ := not_startsOperand hstart
  unfold Spelled at h
  cases kind with
  | add | sub | mul | div | less | greater =>
      obtain ⟨htype, rfl⟩ := h
      simp [operatorOf, charToExprType, htype, hplus, hminus, hequal]
  | and | or | equal | notEqual | lessEqual | greaterEqual =>
      obtain ⟨htype, hsuffix, htype2, rfl⟩ := h
      simp [operatorOf, charToExprType, htype, hsuffix, htype2]
  | _ => exact h.elim

theorem isBinary_of_spelled {index : ℕ} {kind : ExpressionKind} {n : ℕ}
    (h : Spelled stream index kind n) : kind.isBinary = true := by
  unfold Spelled at h
  cases kind <;> first | rfl | exact h.elim

theorem prefixOf_of_starts {token token2 : Token} (h : startsOperand token.type = true) :
    prefixOf token token2 = none := by
  obtain ⟨hplus, hminus, -⟩ := not_startsOperand h
  have hne : token.type ≠ .ascii '!' ∧ token.type ≠ .ascii '&' ∧ token.type ≠ .ascii '*' ∧
      token.type ≠ .cast := by
    refine ⟨?_, ?_, ?_, ?_⟩
    all_goals
      intro htype
      simp [htype, startsOperand, literalKind] at h
  obtain ⟨hnot, hrefer, hderef, hcast⟩ := hne
  simp [prefixOf, hplus, hminus, hnot, hrefer, hderef, hcast]

/-- A literal gets the value that has just been stored. -/
theorem literalOf_of_literalKind {token token2 : Token} {kind : ExpressionKind}
    (h : literalKind token.type = some kind) (e : ExpressionState) :
    literalOf token token2 (e.store (stream.payload token)) =
      some (kind, stream.payload token, 1) := by
  unfold literalOf TokenStream.payload
  cases htype : token.type <;> rw [htype] at h <;> simp [literalKind] at h
  all_goals
    subst h
    simp [ExpressionState.store]

theorem operand_done {s s' : State} {a : Expression} (h : Operand stream garbage s a s')
    (e : ExpressionState) : operand stream (parseExpression stream garbage)
      (e.store (stream.payload (tokenAt stream s.head))) s = .done (some a) s' := by
  unfold operand
  rw [gettok_bind, gettok_one_bind]
  cases h with
  | identifier htype hnext =>
      rw [if_pos htype]
      unfold identifierOperand
      rw [getloc_bind, advance_bind, gettok_bind, if_neg hnext]
      simp [TokenStream.payload, htype, ExpressionState.store, pure_apply]
  | literal hkind =>
      rw [if_neg (by intro htype; simp [htype, literalKind] at hkind),
        literalOf_of_literalKind hkind]
      rfl
  | call htype hnext harguments =>
      rw [if_pos htype]
      unfold identifierOperand
      rw [getloc_bind, advance_bind, gettok_bind, if_pos hnext, advance_bind]
      rw [bind_of_done harguments]
      simp [TokenStream.payload, htype, ExpressionState.store, pure_apply, Payload.text]
  | parenthesised htype hexpr hclose =>
      have hliteral : literalOf (tokenAt stream s.head) (tokenAt stream (s.head + 1))
          (e.store (stream.payload (tokenAt stream s.head))) = none := by
        simp [literalOf, htype]
      rw [if_neg (by rw [htype]; simp), hliteral]
      dsimp only
      rw [if_neg (by rw [htype]; simp), if_pos htype]
      unfold parenthesised
      rw [advance_bind, bind_of_done hexpr]
      dsimp only
      rw [gettok_bind, if_pos hclose]
      rfl

/-! ## The stacks -/

/-- `GetPrecedence`, where it has a value. -/
def ExpressionKind.rank (kind : ExpressionKind) : ℤ := kind.precedence.getD 0

theorem ExpressionKind.precedence_eq {kind : ExpressionKind} (h : kind.isBinary = true) :
    kind.precedence = some kind.rank := by
  obtain ⟨p, hp⟩ := exists_precedence h
  rw [rank, hp]
  rfl

/-- The trees of the operators of one call of `parseExpression`. -/
abbrev OperatorTree : Type := PrecedenceTree ExpressionKind Expression

abbrev PendingOperators : Type := PrecedenceTree.Pending ExpressionKind Expression

/-- The expression is the tree, whatever the locations of its operators are. -/
inductive Shows : OperatorTree → Expression → Prop where
  | operand (a : Expression) : Shows (.operand a) a
  | operator {kind : ExpressionKind} {left right : OperatorTree} {exprLeft exprRight : Expression}
      (location : SourceLocation) (hleft : Shows left exprLeft) (hright : Shows right exprRight) :
      Shows (.operator kind left right) (.binary kind exprLeft exprRight location)

namespace Stacks

/-- The left operands of the pending operators are on the stack, with the tree `t` on their top,
and as many locations as there are operators; `new` is 1 for one that is not pending yet. -/
structure Holds (new : ℕ) (pending : PendingOperators) (t : OperatorTree) (st : Stacks) :
    Prop where
  expressions : List.Forall₂ Shows (t :: pending.map Prod.fst) st.expressions
  locations : st.savedLocations.length = pending.length + new
  binary : ∀ p ∈ pending, p.2.isBinary = true

variable {new : ℕ} {st : Stacks} {pending : PendingOperators} {t : OperatorTree}
  {right : ExpressionKind}

/-- The last operator gets the tree behind it. -/
theorem applyBinary_holds {left : OperatorTree} {op : ExpressionKind}
    (h : Holds new ((left, op) :: pending) t st) :
    ∃ st', st.applyBinary op = some st' ∧ Holds new pending (.operator op left t) st' := by
  obtain ⟨hexpressions, hlocations, hbinary⟩ := h
  rw [List.length_cons] at hlocations
  unfold applyBinary
  match hes : st.expressions, hls : st.savedLocations with
  | exprRight :: exprLeft :: expressions, location :: savedLocations =>
      rw [hes] at hexpressions
      rw [hls, List.length_cons] at hlocations
      obtain ⟨hright, hexpressions⟩ := List.forall₂_cons.mp hexpressions
      obtain ⟨hleft, hexpressions⟩ := List.forall₂_cons.mp hexpressions
      refine ⟨_, rfl, ?_, ?_, ?_⟩
      · exact .cons (.operator location hleft hright) hexpressions
      · change savedLocations.length = _
        omega
      · exact fun p hmem => hbinary p (List.mem_cons_of_mem _ hmem)
  | [], _ =>
      rw [hes] at hexpressions
      cases hexpressions
  | [_], _ =>
      rw [hes] at hexpressions
      obtain ⟨-, hexpressions⟩ := List.forall₂_cons.mp hexpressions
      cases hexpressions
  | _ :: _ :: _, [] =>
      rw [hls, List.length_nil] at hlocations
      omega

/-- The loop behind an operator reduces what is pending. -/
theorem reduceLeft_holds (hright : right.isBinary = true) :
    ∀ (pending : PendingOperators) (t : OperatorTree) (st : Stacks), Holds 1 pending t st →
      ∃ st', reduceLeft right (pending.map Prod.snd) st = some st' ∧
        st'.operations = right ::
          (PrecedenceTree.reduce ExpressionKind.rank right.rank pending t).1.map Prod.snd ∧
        Holds 1 (PrecedenceTree.reduce ExpressionKind.rank right.rank pending t).1
          (PrecedenceTree.reduce ExpressionKind.rank right.rank pending t).2 st' := by
  intro pending
  induction pending with
  | nil =>
      intro t st h
      exact ⟨_, rfl, rfl, h.expressions, h.locations, h.binary⟩
  | cons p pending ih =>
      obtain ⟨left, op⟩ := p
      intro t st h
      have hop := ExpressionKind.precedence_eq (h.binary (left, op) (List.mem_cons_self ..))
      rw [List.map_cons, reduceLeft, hop, ExpressionKind.precedence_eq hright,
        PrecedenceTree.reduce]
      by_cases hle : right.rank ≤ op.rank
      · obtain ⟨st₁, happly, hholds⟩ := applyBinary_holds h
        obtain ⟨st', hreduce, hrest⟩ := ih _ st₁ hholds
        refine ⟨st', ?_, ?_⟩
        · simp only [ge_iff_le, if_pos hle, happly]
          exact hreduce
        · rw [if_pos hle]
          exact hrest
      · refine ⟨{ st with operations := right :: op :: pending.map Prod.snd }, ?_, ?_, ?_⟩
        · simp only [ge_iff_le, if_neg hle]
        · rw [if_neg hle]
          rfl
        · rw [if_neg hle]
          exact ⟨h.expressions, h.locations, h.binary⟩

/-- The loop at the end closes what is pending. -/
theorem reduceAll_holds : ∀ (pending : PendingOperators) (t : OperatorTree) (st : Stacks),
    Holds 0 pending t st →
      ∃ st' expr, reduceAll (pending.map Prod.snd) st = some st' ∧ st'.operations = [] ∧
        st'.expressions = [expr] ∧ Shows (PrecedenceTree.close pending t) expr := by
  intro pending
  induction pending with
  | nil =>
      intro t st h
      have hexpressions := h.expressions
      cases hes : st.expressions with
      | nil =>
          rw [hes] at hexpressions
          cases hexpressions
      | cons expr expressions =>
          rw [hes] at hexpressions
          obtain ⟨hshows, hnil⟩ := List.forall₂_cons.mp hexpressions
          cases hnil
          exact ⟨_, expr, rfl, rfl, hes, hshows⟩
  | cons p pending ih =>
      intro t st h
      obtain ⟨st₁, happly, hholds⟩ := applyBinary_holds h
      obtain ⟨st', expr, hreduce, hrest⟩ := ih _ st₁ hholds
      refine ⟨st', expr, ?_, hrest⟩
      rw [List.map_cons, reduceAll, happly]
      exact hreduce

/-- An operand behind the operators that wait for one. -/
theorem fixUnary_holds (h : ∀ p ∈ pending, p.2.isBinary = true) (st : Stacks) :
    fixUnary (pending.map Prod.snd) st =
      some { st with operations := pending.map Prod.snd } := by
  cases pending with
  | nil => rfl
  | cons p pending =>
      rw [List.map_cons, fixUnary, ExpressionKind.not_isUnary (h p (List.mem_cons_self ..))]
      rfl

end Stacks

/-! ## The rounds -/

theorem store_toStacks (payload : Payload) (e : ExpressionState) :
    (e.store payload).toStacks = e.toStacks := by
  cases payload <;> rfl

/-- In front of an operand: the last operator waits for it. -/
structure Waits (pending : PendingOperators) (e : ExpressionState) : Prop where
  isOperator : e.isOperator = false
  operations : e.operations = pending.map Prod.snd
  holds : ∀ a, Stacks.Holds 0 pending (.operand a) (e.toStacks.pushExpression a)

/-- Behind an operand. -/
structure Built (pending : PendingOperators) (t : OperatorTree) (e : ExpressionState) : Prop where
  isOperator : e.isOperator = true
  operations : e.operations = pending.map Prod.snd
  holds : Stacks.Holds 0 pending t e.toStacks

section Rounds

variable {e : ExpressionState} {s s' : State} {pending : PendingOperators} {t : OperatorTree}

theorem expressionRound_operand {a : Expression} (h : Waits pending e)
    (ha : Operand stream garbage s a s') :
    ∃ e', expressionRound stream (parseExpression stream garbage) e s = .done (.again e') s' ∧
      Built pending (.operand a) e' := by
  obtain ⟨hoperator, hoperations, hholds⟩ := h
  have hbinary := (hholds a).binary
  refine ⟨{ e.store (stream.payload (tokenAt stream s.head)) with
    toStacks := { e.toStacks.pushExpression a with operations := pending.map Prod.snd }
    isOperator := true }, ?_, rfl, rfl, ?_⟩
  · unfold expressionRound
    rw [gettok_bind, if_neg (by rw [store_isOperator, hoperator]; exact Bool.false_ne_true)]
    unfold operandStep
    rw [gettok_bind, gettok_one_bind, prefixOf_of_starts ha.starts]
    dsimp only
    rw [bind_of_done (operand_done ha e)]
    unfold afterOperand
    dsimp only
    rw [store_toStacks]
    have hfix : (e.toStacks.pushExpression a).fixUnary (e.toStacks.pushExpression a).operations =
        some { e.toStacks.pushExpression a with operations := pending.map Prod.snd } := by
      change Stacks.fixUnary e.operations _ = _
      rw [hoperations]
      exact Stacks.fixUnary_holds hbinary _
    rw [hfix]
    rfl
  · exact ⟨(hholds a).expressions, (hholds a).locations, hbinary⟩

theorem afterOperator_cons {right : ExpressionKind} {lefts : List ExpressionKind}
    (h : e.operations = right :: lefts) :
    afterOperator e = Program.ofOption (e.reduceLeft right lefts) >>= fun st =>
      pure (.again { e with toStacks := st, isOperator := false }) := by
  unfold afterOperator
  rw [h]

variable (garbage) in
theorem expressionRound_operator {kind : ExpressionKind} {n : ℕ} (h : Built pending t e)
    (hspelled : Spelled stream s.head kind n)
    (hstart : startsOperand (tokenAt stream (s.head + n)).type = true) :
    ∃ e', expressionRound stream (parseExpression stream garbage) e s =
        .done (.again e') { s with head := s.head + n } ∧
      Waits (((PrecedenceTree.reduce ExpressionKind.rank kind.rank pending t).2, kind) ::
        (PrecedenceTree.reduce ExpressionKind.rank kind.rank pending t).1) e' := by
  obtain ⟨hoperator, hoperations, hholds⟩ := h
  have hkind := isBinary_of_spelled hspelled
  have hnotPostfix : kind.isPostfix = false := by
    cases hpost : kind.isPostfix with
    | false => rfl
    | true => rw [← ExpressionKind.not_isUnary hkind, isUnary_of_isPostfix hpost]
  have hpush : Stacks.Holds 1 pending t (e.toStacks.pushOperation kind s.head) :=
    ⟨hholds.expressions, congrArg Nat.succ hholds.locations, hholds.binary⟩
  obtain ⟨st', hreduce, hoperations', hholds'⟩ :=
    Stacks.reduceLeft_holds hkind pending t _ hpush
  refine ⟨{ e.store (stream.payload (tokenAt stream s.head)) with
    toStacks := st'
    isOperator := false }, ?_, rfl, hoperations', fun a => ⟨?_, ?_, ?_⟩⟩
  · unfold expressionRound
    rw [gettok_bind, if_pos (by rw [store_isOperator, hoperator])]
    unfold operatorStep
    rw [gettok_bind, gettok_one_bind, operatorOf_of_spelled hspelled hstart]
    dsimp only
    rw [getloc_bind, advance_bind, hnotPostfix, if_neg Bool.false_ne_true, store_toStacks]
    rw [afterOperator_cons (congrArg (kind :: ·) hoperations)]
    dsimp only
    rw [hreduce]
    rfl
  · exact .cons (.operand a) hholds'.expressions
  · exact hholds'.locations
  · intro p hmem
    rcases List.mem_cons.mp hmem with rfl | hmem
    · exact hkind
    · exact hholds'.binary p hmem

variable (garbage) in
theorem expressionRound_end (h : Built pending t e) (hends : Ends stream s.head) :
    ∃ expr, expressionRound stream (parseExpression stream garbage) e s =
        .done (.finish (some expr)) s ∧
      Shows (PrecedenceTree.close pending t) expr := by
  obtain ⟨hoperator, hoperations, hholds⟩ := h
  obtain ⟨st', expr, hreduce, hnil, hexpressions, hshows⟩ :=
    Stacks.reduceAll_holds pending t e.toStacks hholds
  refine ⟨expr, ?_, hshows⟩
  unfold expressionRound
  rw [gettok_bind, if_pos (by rw [store_isOperator, hoperator])]
  unfold operatorStep
  rw [gettok_bind, gettok_one_bind, hends.operator]
  dsimp only
  rw [if_neg hends.member, if_neg hends.index]
  unfold endExpression
  rw [store_toStacks, hoperations, hreduce]
  cases st' with
  | mk expressions operations locations =>
      dsimp only at hnil hexpressions
      rw [hnil, hexpressions]
      rfl

end Rounds

/-! ## The whole sequence -/

/-- Every operand is put behind what is pending, and every operator reduces it.  The induction
is on the sequence; the rest of it is read behind what has been built. -/
theorem loop_precedence {s s' : State} {p : Expression × List (ExpressionKind × Expression)}
    (h : Sequence stream garbage s p s') (hends : Ends stream s'.head) :
    ∀ (pending : PendingOperators) (e : ExpressionState) (rounds : ℕ), Waits pending e →
      PrecedenceTree.Ordered ExpressionKind.rank pending (.operand p.1) →
      loop (expressionRound stream (parseExpression stream garbage)) rounds e s ≠ .cutOff →
      ∃ t expr, loop (expressionRound stream (parseExpression stream garbage)) rounds e s =
          .done (some expr) s' ∧ Shows t expr ∧ t.WellOrdered ExpressionKind.rank ∧
        t.reading = ((PrecedenceTree.close pending (.operand p.1)).first,
          (PrecedenceTree.close pending (.operand p.1)).rest ++ p.2) := by
  induction h with
  | operand ha =>
      intro pending e rounds hwaits hordered hne
      obtain ⟨e₁, hround, hbuilt⟩ := expressionRound_operand hwaits ha
      obtain ⟨expr, hend, hshows⟩ := expressionRound_end garbage hbuilt hends
      obtain ⟨rounds, rfl⟩ := exists_round hne
      rw [loop_of_again hround] at hne ⊢
      obtain ⟨rounds, rfl⟩ := exists_round hne
      rw [loop_of_finish hend]
      refine ⟨_, expr, rfl, hshows, PrecedenceTree.close_wellOrdered hordered, ?_⟩
      rw [List.append_nil]
      rfl
  | @operator s s₁ s' a b kind n items ha hspelled hrest ih =>
      intro pending e rounds hwaits hordered hne
      obtain ⟨e₁, hround, hbuilt⟩ := expressionRound_operand hwaits ha
      obtain ⟨e₂, hround', hwaits'⟩ :=
        expressionRound_operator garbage hbuilt hspelled hrest.starts
      obtain ⟨rounds, rfl⟩ := exists_round hne
      rw [loop_of_again hround] at hne ⊢
      obtain ⟨rounds, rfl⟩ := exists_round hne
      rw [loop_of_again hround'] at hne ⊢
      have htop : (kind.rank : WithTop ℤ) ≤
          (PrecedenceTree.operand a : OperatorTree).top ExpressionKind.rank := le_top
      obtain ⟨hreduced, hhead, htop'⟩ := PrecedenceTree.reduce_ordered hordered htop
      obtain ⟨t, expr, hdone, hshows, hwell, hreading⟩ :=
        ih hends _ e₂ rounds hwaits' (hreduced.push b hhead htop') hne
      refine ⟨t, expr, hdone, hshows, hwell, ?_⟩
      have hpush := PrecedenceTree.reading_push
        (PrecedenceTree.reduce ExpressionKind.rank kind.rank pending (.operand a)).1
        (PrecedenceTree.reduce ExpressionKind.rank kind.rank pending (.operand a)).2 kind b
      rw [PrecedenceTree.close_reduce] at hpush
      obtain ⟨hfirst, hitems⟩ := Prod.mk.inj hpush
      rw [hreading, hfirst, hitems, List.append_assoc]
      rfl

/-- Operands with binary operators between them are parsed to the one tree that reads as they
do, in which the left operand of an operator binds at least as much as the operator and the
right one more. -/
theorem parseExpression_precedence {s s' : State} {a : Expression}
    {items : List (ExpressionKind × Expression)} (h : Sequence stream garbage s (a, items) s')
    (hends : Ends stream s'.head) :
    ∃ t expr, parseExpression stream garbage s = .done (some expr) s' ∧ Shows t expr ∧
      t.reading = (a, items) ∧ t.WellOrdered ExpressionKind.rank ∧
      ∀ t' : OperatorTree, t'.reading = (a, items) → t'.WellOrdered ExpressionKind.rank →
        t' = t := by
  have hne : parseExpression stream garbage s ≠ .cutOff := parseExpression_ne_cutOff s
  rw [parseExpression_eq] at hne ⊢
  have hwaits : Waits [] { decimal := garbage } :=
    ⟨rfl, rfl, fun a => ⟨.cons (.operand a) .nil, rfl, fun p hmem => absurd hmem (by simp)⟩⟩
  obtain ⟨t, expr, hdone, hshows, hwell, hreading⟩ :=
    loop_precedence h hends [] _ _ hwaits trivial hne
  refine ⟨t, expr, hdone, hshows, hreading, hwell, fun t' hreading' hwell' => ?_⟩
  exact PrecedenceTree.unique hwell' hwell (hreading'.trans hreading.symm)

/-- The tokens of `a-b-c;` -/
def differences : TokenStream where
  tokens := [{ type := .id }, { type := .ascii '-' }, { type := .id, dataIndex := 1 },
    { type := .ascii '-' }, { type := .id, dataIndex := 2 }, { type := .ascii ';' }]
  strings := ["a", "b", "c"]
  inBounds := by simp [Token.InBounds]

def variableAt (name : String) (location : SourceLocation) : Expression :=
  .leaf .identifier (.str name) location

theorem parseExpression_precedence_differences :
    ∃ t expr, parseExpression differences 0 {} = .done (some expr) { head := 5 } ∧ Shows t expr ∧
      t.reading = (variableAt "a" 0, [(.sub, variableAt "b" 2), (.sub, variableAt "c" 4)]) ∧
      t.WellOrdered ExpressionKind.rank := by
  have ha : Operand differences 0 {} (variableAt "a" 0) { head := 1 } :=
    .identifier (by decide) (by decide)
  have hb : Operand differences 0 { head := 2 } (variableAt "b" 2) { head := 3 } :=
    .identifier (by decide) (by decide)
  have hc : Operand differences 0 { head := 4 } (variableAt "c" 4) { head := 5 } :=
    .identifier (by decide) (by decide)
  have hsub : Spelled differences 1 .sub 1 := ⟨by decide, rfl⟩
  have hsub' : Spelled differences 3 .sub 1 := ⟨by decide, rfl⟩
  have hsequence : Sequence differences 0 {}
      (variableAt "a" 0, [(.sub, variableAt "b" 2), (.sub, variableAt "c" 4)]) { head := 5 } :=
    .operator ha hsub (.operator hb hsub' (.operand hc))
  have hends : Ends differences 5 := ⟨by decide, by decide, by decide⟩
  obtain ⟨t, expr, hdone, hshows, hreading, hwell, -⟩ :=
    parseExpression_precedence hsequence hends
  exact ⟨t, expr, hdone, hshows, hreading, hwell⟩

end ParseContext

end TinCompiler
