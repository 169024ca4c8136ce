import TinCompiler.Parser.Postfix

/-!
# What a round of `parseExpression` does

`Goes` lists the rounds after which the loop goes on, with what each of them leaves on the
stacks, and `Stops` is the round that ends the loop with an expression.
-/

namespace TinCompiler

namespace ParseContext

open Program

variable {stream : TokenStream} {parse : ParserM (Option Expression)} {e e' : ExpressionState}
  {s s' : State}

/-- A round from `e` and `s` that leaves these stacks, in front of an operand or behind one. -/
inductive Goes (stream : TokenStream) (parse : ParserM (Option Expression)) (e : ExpressionState)
    (s : State) : Bool → Stacks → State → Prop where
  | prefixOperator {kind : ExpressionKind} {n : ℕ} (hoperator : e.isOperator = false)
      (hkind : prefixOf (tokenAt stream s.head) (tokenAt stream (s.head + 1)) = some (kind, n))
      (hcast : kind ≠ .cast) :
      Goes stream parse e s false (e.toStacks.pushOperation kind s.head)
        { s with head := s.head + n }
  | cast {n : ℕ} {type : String} {s' : State} (hoperator : e.isOperator = false)
      (hkind : prefixOf (tokenAt stream s.head) (tokenAt stream (s.head + 1)) = some (.cast, n))
      (htype : parseType stream { s with head := s.head + n } = .done type s') :
      Goes stream parse e s false
        { e.toStacks.pushOperation .cast s.head with castStrings := type :: e.castStrings } s'
  | operand {a : Expression} {st : Stacks} {s' : State} (hoperator : e.isOperator = false)
      (hfront : prefixOf (tokenAt stream s.head) (tokenAt stream (s.head + 1)) = none)
      (ha : operand stream parse (e.store (stream.payload (tokenAt stream s.head))) s =
        .done (some a) s')
      (hfix : (e.toStacks.pushExpression a).fixUnary e.operations = some st) :
      Goes stream parse e s true st s'
  | postfixOperator {kind : ExpressionKind} {n : ℕ} {st : Stacks} (hoperator : e.isOperator = true)
      (hkind : operatorOf (tokenAt stream s.head) (tokenAt stream (s.head + 1)) = some (kind, n))
      (hpost : kind.isPostfix = true)
      (hfix : (e.toStacks.pushOperation kind s.head).fixUnary (kind :: e.operations) = some st) :
      Goes stream parse e s true st { s with head := s.head + n }
  | binary {kind : ExpressionKind} {n : ℕ} {st : Stacks} (hoperator : e.isOperator = true)
      (hkind : operatorOf (tokenAt stream s.head) (tokenAt stream (s.head + 1)) = some (kind, n))
      (hpost : kind.isPostfix = false)
      (hreduce : (e.toStacks.pushOperation kind s.head).reduceLeft kind e.operations = some st) :
      Goes stream parse e s false st { s with head := s.head + n }
  | member {left : Expression} {expressions : List Expression} {st : Stacks}
      (hoperator : e.isOperator = true) (hdot : (tokenAt stream s.head).type = .ascii '.')
      (hname : (tokenAt stream (s.head + 1)).type = .id)
      (hleft : e.expressions = left :: expressions)
      (hfix : Stacks.fixUnary e.operations { e.toStacks with
        expressions := .unary .member left (stream.payload (tokenAt stream (s.head + 1))).text s.head ::
          expressions } = some st) :
      Goes stream parse e s true st { s with head := s.head + 1 + 1 }
  | index {left : Expression} {expressions : List Expression} {right : Option Expression}
      {st : Stacks} {s' : State} (hoperator : e.isOperator = true)
      (hopen : (tokenAt stream s.head).type = .ascii '[')
      (hleft : e.expressions = left :: expressions)
      (hright : parse { s with head := s.head + 1 } = .done right s')
      (hclose : (tokenAt stream s'.head).type = .ascii ']')
      (hfix : Stacks.fixUnary e.operations { e.toStacks with
        expressions := .index left right s.head :: expressions } = some st) :
      Goes stream parse e s true st { s' with head := s'.head + 1 }

/-- The round behind the last operand. -/
structure Stops (stream : TokenStream) (e : ExpressionState) (s : State) (expr : Expression) :
    Prop where
  isOperator : e.isOperator = true
  ends : Ends stream s.head
  reduces : ∃ st, e.toStacks.reduceAll e.operations = some st ∧ st.expressions = [expr]

/-! ## Every round is one of them -/

theorem afterOperand_done {r : ExpressionStep} (h : afterOperand e s = .done r s') :
    ∃ st, e.toStacks.fixUnary e.operations = some st ∧ s' = s ∧
      r = .again { e with toStacks := st, isOperator := true } := by
  obtain ⟨st, s₁, hfixed, hdone⟩ := exists_of_bind_done h
  obtain ⟨hfix, rfl⟩ := eq_some_of_ofOption_done hfixed
  obtain ⟨rfl, rfl⟩ := eq_of_pure_done hdone
  exact ⟨st, hfix, rfl, rfl⟩

theorem afterOperand_of_fixUnary {st : Stacks} (h : e.toStacks.fixUnary e.operations = some st) :
    afterOperand e s = .done (.again { e with toStacks := st, isOperator := true }) s := by
  unfold afterOperand
  rw [h]
  rfl

theorem memberStep_done {r : ExpressionStep} (h : memberStep stream e s = .done r s') :
    r = .finish none ∨ (tokenAt stream (s.head + 1)).type = .id ∧
      ∃ left expressions st, e.expressions = left :: expressions ∧
        Stacks.fixUnary e.operations { e.toStacks with
          expressions := .unary .member left (stream.payload (tokenAt stream (s.head + 1))).text s.head ::
            expressions } = some st ∧
        s' = { s with head := s.head + 1 + 1 } ∧
        r = .again { e with toStacks := st, isOperator := true } := by
  unfold memberStep at h
  rw [getloc_bind, advance_bind, gettok_bind] at h
  dsimp only at h
  split at h
  · left
    cases h
    rfl
  · next hname =>
      rw [advance_bind] at h
      cases hleft : e.expressions with
      | nil =>
          rw [hleft] at h
          cases h
      | cons left expressions =>
          rw [hleft] at h
          obtain ⟨st, hfix, rfl, rfl⟩ := afterOperand_done h
          exact .inr ⟨not_not.mp hname, left, expressions, st, rfl, hfix, rfl, rfl⟩

theorem indexStep_done {r : ExpressionStep} (h : indexStep stream parse e s = .done r s') :
    r = .finish none ∨ ∃ left expressions right s₁ st, e.expressions = left :: expressions ∧
      parse { s with head := s.head + 1 } = .done right s₁ ∧
      (tokenAt stream s₁.head).type = .ascii ']' ∧
      Stacks.fixUnary e.operations { e.toStacks with
        expressions := .index left right s.head :: expressions } = some st ∧
      s' = { s₁ with head := s₁.head + 1 } ∧
      r = .again { e with toStacks := st, isOperator := true } := by
  unfold indexStep at h
  rw [getloc_bind, advance_bind] at h
  cases hleft : e.expressions with
  | nil =>
      rw [hleft] at h
      cases h
  | cons left expressions =>
      rw [hleft] at h
      obtain ⟨right, s₁, hright, h⟩ := exists_of_bind_done h
      rw [gettok_bind] at h
      split at h
      · left
        cases h
        rfl
      · next hclose =>
          rw [advance_bind] at h
          obtain ⟨st, hfix, rfl, rfl⟩ := afterOperand_done h
          exact .inr ⟨left, expressions, right, s₁, st, rfl, hright, not_not.mp hclose, hfix, rfl,
            rfl⟩

theorem endExpression_done {r : ExpressionStep} (h : endExpression e s = .done r s') :
    ∃ st expr, e.toStacks.reduceAll e.operations = some st ∧ st.expressions = [expr] ∧ s' = s ∧
      r = .finish (some expr) := by
  obtain ⟨st, s₁, hreduced, h⟩ := exists_of_bind_done h
  obtain ⟨hreduce, rfl⟩ := eq_some_of_ofOption_done hreduced
  obtain ⟨expressions, operations, castStrings, savedLocations⟩ := st
  rcases expressions with _ | ⟨expr, _ | ⟨expr', expressions⟩⟩
  · cases h
  · cases operations with
    | nil =>
        obtain ⟨rfl, rfl⟩ := eq_of_pure_done h
        exact ⟨_, expr, hreduce, rfl, rfl, rfl⟩
    | cons op operations => cases h
  · cases h

theorem reduceAll_operations : ∀ {operations : List ExpressionKind} {st st' : Stacks},
    st.reduceAll operations = some st' → st'.operations = []
  | [], st, st', h => by
      obtain rfl := Option.some.inj h
      rfl
  | op :: operations, st, st', h => by
      obtain ⟨st₁, -, hreduce⟩ := Option.bind_eq_some_iff.mp h
      exact reduceAll_operations hreduce

theorem endExpression_of_reduceAll {st : Stacks} {expr : Expression}
    (h : e.toStacks.reduceAll e.operations = some st) (hexpressions : st.expressions = [expr]) :
    endExpression e s = .done (.finish (some expr)) s := by
  have hoperations := reduceAll_operations h
  obtain ⟨expressions, operations, castStrings, savedLocations⟩ := st
  obtain rfl : operations = [] := hoperations
  obtain rfl : expressions = [expr] := hexpressions
  unfold endExpression
  rw [h]
  rfl

theorem afterOperator_done {r : ExpressionStep} {right : ExpressionKind}
    {lefts : List ExpressionKind} (hoperations : e.operations = right :: lefts)
    (h : afterOperator e s = .done r s') :
    ∃ st, e.toStacks.reduceLeft right lefts = some st ∧ s' = s ∧
      r = .again { e with toStacks := st, isOperator := false } := by
  rw [afterOperator_cons hoperations] at h
  obtain ⟨st, s₁, hreduced, h⟩ := exists_of_bind_done h
  obtain ⟨hreduce, rfl⟩ := eq_some_of_ofOption_done hreduced
  obtain ⟨rfl, rfl⟩ := eq_of_pure_done h
  exact ⟨st, hreduce, rfl, rfl⟩

theorem operatorStep_done {r : ExpressionStep} (hoperator : e.isOperator = true)
    (h : operatorStep stream parse e s = .done r s') :
    (∃ op st, Goes stream parse e s op st s' ∧
      r = .again { e with toStacks := st, isOperator := op }) ∨
    (∃ expr, Stops stream e s expr ∧ s' = s ∧ r = .finish (some expr)) ∨ r = .finish none := by
  unfold operatorStep at h
  rw [gettok_bind, gettok_one_bind] at h
  cases hkind : operatorOf (tokenAt stream s.head) (tokenAt stream (s.head + 1)) with
  | some found =>
      obtain ⟨kind, n⟩ := found
      rw [hkind] at h
      dsimp only at h
      rw [getloc_bind, advance_bind] at h
      split at h
      · next hpost =>
          obtain ⟨st, hfix, rfl, rfl⟩ := afterOperand_done h
          exact .inl ⟨true, st, .postfixOperator hoperator hkind hpost hfix, rfl⟩
      · next hpost =>
          obtain ⟨st, hreduce, rfl, rfl⟩ := afterOperator_done rfl h
          exact .inl ⟨false, st,
            .binary hoperator hkind (Bool.eq_false_iff.mpr hpost) hreduce, rfl⟩
  | none =>
      rw [hkind] at h
      dsimp only at h
      split at h
      · next hdot =>
          rcases memberStep_done h with hnone | ⟨hname, left, expressions, st, hleft, hfix, rfl, rfl⟩
          · exact .inr (.inr hnone)
          · exact .inl ⟨true, st, .member hoperator hdot hname hleft hfix, rfl⟩
      · next hdot =>
          split at h
          · next hopen =>
              rcases indexStep_done h with
                hnone | ⟨left, expressions, right, s₁, st, hleft, hright, hclose, hfix, rfl, rfl⟩
              · exact .inr (.inr hnone)
              · exact .inl ⟨true, st, .index hoperator hopen hleft hright hclose hfix, rfl⟩
          · next hopen =>
              obtain ⟨st, expr, hreduce, hexpressions, rfl, rfl⟩ := endExpression_done h
              exact .inr (.inl ⟨expr, ⟨hoperator, ⟨hkind, hdot, hopen⟩, st, hreduce, hexpressions⟩,
                rfl, rfl⟩)

theorem operandStep_done {r : ExpressionStep} (hoperator : e.isOperator = false)
    (hstored : e = e'.store (stream.payload (tokenAt stream s.head)))
    (h : operandStep stream parse e s = .done r s') :
    (∃ op st, Goes stream parse e' s op st s' ∧
      r = .again { e with toStacks := st, isOperator := op }) ∨ r = .finish none := by
  have hoperator' : e'.isOperator = false := by rw [← hoperator, hstored, store_isOperator]
  have hstacks : e.toStacks = e'.toStacks := by rw [hstored, store_toStacks]
  unfold operandStep at h
  rw [gettok_bind, gettok_one_bind] at h
  cases hkind : prefixOf (tokenAt stream s.head) (tokenAt stream (s.head + 1)) with
  | some found =>
      obtain ⟨kind, n⟩ := found
      rw [hkind] at h
      dsimp only at h
      rw [getloc_bind, advance_bind] at h
      left
      split at h
      · next hcast =>
          subst hcast
          obtain ⟨type, s₁, htype, h⟩ := exists_of_bind_done h
          obtain ⟨rfl, rfl⟩ := eq_of_pure_done h
          refine ⟨false, _, .cast hoperator' hkind htype, ?_⟩
          rw [← hstacks, ← hoperator]
          rfl
      · next hcast =>
          obtain ⟨rfl, rfl⟩ := eq_of_pure_done h
          refine ⟨false, _, .prefixOperator hoperator' hkind hcast, ?_⟩
          rw [← hstacks, ← hoperator]
  | none =>
      rw [hkind] at h
      obtain ⟨a, s₁, ha, h⟩ := exists_of_bind_done h
      cases a with
      | none =>
          right
          cases h
          rfl
      | some a =>
          left
          obtain ⟨st, hfix, rfl, rfl⟩ := afterOperand_done h
          refine ⟨true, st, .operand hoperator' hkind (hstored ▸ ha) ?_, rfl⟩
          rw [← hstacks]
          exact hfix

/-- What has been stored stays. -/
def ExpressionState.after (stream : TokenStream) (e : ExpressionState) (s : State) (op : Bool)
    (st : Stacks) : ExpressionState :=
  { e.store (stream.payload (tokenAt stream s.head)) with toStacks := st, isOperator := op }

theorem Stops.of_store {payload : Payload} {expr : Expression}
    (h : Stops stream (e.store payload) s expr) : Stops stream e s expr := by
  obtain ⟨hoperator, hends, hreduces⟩ := h
  rw [store_toStacks] at hreduces
  exact ⟨by rwa [store_isOperator] at hoperator, hends, hreduces⟩

theorem Goes.of_store {payload : Payload} {op : Bool} {st : Stacks}
    (h : Goes stream parse (e.store payload) s op st s') (hoperator : e.isOperator = true) :
    Goes stream parse e s op st s' := by
  have hstore : (e.store payload).isOperator = true := by rw [store_isOperator, hoperator]
  cases h with
  | prefixOperator hfalse => rw [hstore] at hfalse; cases hfalse
  | cast hfalse => rw [hstore] at hfalse; cases hfalse
  | operand hfalse => rw [hstore] at hfalse; cases hfalse
  | postfixOperator _ hkind hpost hfix =>
      rw [store_toStacks] at hfix
      exact .postfixOperator hoperator hkind hpost hfix
  | binary _ hkind hpost hreduce =>
      rw [store_toStacks] at hreduce
      exact .binary hoperator hkind hpost hreduce
  | member _ hdot hname hleft hfix =>
      rw [store_toStacks] at hleft hfix
      exact .member hoperator hdot hname hleft hfix
  | index _ hopen hleft hright hclose hfix =>
      rw [store_toStacks] at hleft hfix
      exact .index hoperator hopen hleft hright hclose hfix

theorem expressionRound_done {r : ExpressionStep}
    (h : expressionRound stream parse e s = .done r s') :
    (∃ op st, Goes stream parse e s op st s' ∧ r = .again (e.after stream s op st)) ∨
    (∃ expr, Stops stream e s expr ∧ s' = s ∧ r = .finish (some expr)) ∨ r = .finish none := by
  unfold expressionRound at h
  rw [gettok_bind] at h
  split at h
  · next hoperator =>
      have hoperator' : e.isOperator = true := by rwa [store_isOperator] at hoperator
      rcases operatorStep_done hoperator h with
        ⟨op, st, hgoes, rfl⟩ | ⟨expr, hstops, rfl, rfl⟩ | hnone
      · exact .inl ⟨op, st, hgoes.of_store hoperator', rfl⟩
      · exact .inr (.inl ⟨expr, hstops.of_store, rfl, rfl⟩)
      · exact .inr (.inr hnone)
  · next hoperator =>
      rcases operandStep_done (Bool.eq_false_iff.mpr hoperator) rfl h with
        ⟨op, st, hgoes, rfl⟩ | hnone
      · exact .inl ⟨op, st, hgoes, rfl⟩
      · exact .inr (.inr hnone)

/-! ## Every one of them is a round -/

theorem ExpressionState.after_self (hoperator : e.isOperator = false) (st : Stacks) :
    e.after stream s false st =
      { e.store (stream.payload (tokenAt stream s.head)) with toStacks := st } := by
  unfold ExpressionState.after
  rw [← hoperator, ← store_isOperator (stream.payload (tokenAt stream s.head)) e]

theorem Goes.round {op : Bool} {st : Stacks} (h : Goes stream parse e s op st s') :
    expressionRound stream parse e s = .done (.again (e.after stream s op st)) s' := by
  unfold expressionRound
  rw [gettok_bind, store_isOperator]
  cases h with
  | prefixOperator hoperator hkind hcast =>
      rw [if_neg (by simp [hoperator])]
      unfold operandStep
      rw [gettok_bind, gettok_one_bind, hkind]
      dsimp only
      rw [getloc_bind, advance_bind, if_neg hcast, store_toStacks, ExpressionState.after_self hoperator]
      rfl
  | cast hoperator hkind htype =>
      rw [if_neg (by simp [hoperator])]
      unfold operandStep
      rw [gettok_bind, gettok_one_bind, hkind]
      dsimp only
      rw [getloc_bind, advance_bind, if_pos rfl, bind_of_done htype, store_toStacks,
        ExpressionState.after_self hoperator]
      rfl
  | operand hoperator hfront ha hfix =>
      rw [if_neg (by simp [hoperator])]
      unfold operandStep
      rw [gettok_bind, gettok_one_bind, hfront]
      dsimp only
      rw [bind_of_done ha]
      rw [← store_toStacks (stream.payload (tokenAt stream s.head)) e] at hfix
      exact afterOperand_of_fixUnary hfix
  | postfixOperator hoperator hkind hpost hfix =>
      rw [if_pos hoperator]
      unfold operatorStep
      rw [gettok_bind, gettok_one_bind, hkind]
      dsimp only
      rw [getloc_bind, advance_bind, if_pos hpost]
      rw [← store_toStacks (stream.payload (tokenAt stream s.head)) e] at hfix
      exact afterOperand_of_fixUnary hfix
  | binary hoperator hkind hpost hreduce =>
      rw [if_pos hoperator]
      unfold operatorStep
      rw [gettok_bind, gettok_one_bind, hkind]
      dsimp only
      rw [getloc_bind, advance_bind, if_neg (by simp [hpost]), afterOperator_cons rfl]
      rw [← store_toStacks (stream.payload (tokenAt stream s.head)) e] at hreduce
      dsimp only [Stacks.pushOperation] at hreduce ⊢
      rw [hreduce]
      rfl
  | member hoperator hdot hname hleft hfix =>
      rw [if_pos hoperator]
      unfold operatorStep
      rw [gettok_bind, gettok_one_bind, operatorOf_of_dot hdot]
      dsimp only
      rw [if_pos hdot]
      unfold memberStep
      rw [getloc_bind, advance_bind, gettok_bind, if_neg (not_not.mpr hname), advance_bind]
      rw [← store_toStacks (stream.payload (tokenAt stream s.head)) e] at hleft hfix
      rw [hleft]
      exact afterOperand_of_fixUnary hfix
  | index hoperator hopen hleft hright hclose hfix =>
      rw [if_pos hoperator]
      unfold operatorStep
      rw [gettok_bind, gettok_one_bind, operatorOf_of_bracket hopen]
      dsimp only
      rw [if_neg (by simp [hopen]), if_pos hopen]
      unfold indexStep
      rw [getloc_bind, advance_bind]
      rw [← store_toStacks (stream.payload (tokenAt stream s.head)) e] at hleft hfix
      rw [hleft]
      dsimp only
      rw [bind_of_done hright, gettok_bind, if_neg (not_not.mpr hclose), advance_bind]
      exact afterOperand_of_fixUnary hfix

theorem Stops.round {expr : Expression} (h : Stops stream e s expr) :
    expressionRound stream parse e s = .done (.finish (some expr)) s := by
  obtain ⟨hoperator, hends, st, hreduce, hexpressions⟩ := h
  unfold expressionRound
  rw [gettok_bind, store_isOperator, if_pos hoperator]
  unfold operatorStep
  rw [gettok_bind, gettok_one_bind, hends.operator]
  dsimp only
  rw [if_neg hends.member, if_neg hends.index]
  rw [← store_toStacks (stream.payload (tokenAt stream s.head)) e] at hreduce
  exact endExpression_of_reduceAll hreduce hexpressions

/-- The rounds of a loop that ends with an expression.  The induction is on their number. -/
theorem loop_induction {P : ExpressionState → State → Expression → State → Prop}
    (hstops : ∀ e s expr, Stops stream e s expr → P e s expr s)
    (hgoes : ∀ e s op st s₁ expr s', Goes stream parse e s op st s₁ →
      P (e.after stream s op st) s₁ expr s' → P e s expr s') :
    ∀ (rounds : ℕ) (e : ExpressionState) (s : State) (expr : Expression) (s' : State),
      loop (expressionRound stream parse) rounds e s = .done (some expr) s' → P e s expr s' := by
  intro rounds
  induction rounds with
  | zero => exact fun e s expr s' h => absurd h (by simp [loop])
  | succ rounds ih =>
      intro e s expr s' h
      obtain ⟨r, s₁, hround, hrest⟩ := exists_of_bind_done h
      rcases expressionRound_done hround with
        ⟨op, st, hgo, rfl⟩ | ⟨expr', hstop, rfl, rfl⟩ | rfl
      · exact hgoes e s op st s₁ expr s' hgo (ih _ _ _ _ hrest)
      · obtain ⟨heq, rfl⟩ := eq_of_pure_done hrest
        obtain rfl := Option.some.inj heq
        exact hstops e _ expr' hstop
      · obtain ⟨heq, -⟩ := eq_of_pure_done hrest
        cases heq

/-- Tokens that no expression begins with. -/
def Barred (type : TokenKind) : Prop :=
  ∀ (token token2 : Token) (e : ExpressionState), token.type = type →
    prefixOf token token2 = none ∧ literalOf token token2 e = none ∧
      token.type ≠ .id ∧ token.type ≠ .sizeof ∧ token.type ≠ .ascii '('

theorem operand_barred {type : TokenKind} (hbarred : Barred type)
    (htype : (tokenAt stream s.head).type = type) (e : ExpressionState) :
    operand stream parse e s = fail s.head "Invalid token." s := by
  obtain ⟨-, hliteral, hid, hsizeof, hopen⟩ :=
    hbarred _ (tokenAt stream (s.head + 1)) e htype
  unfold operand
  rw [gettok_bind, gettok_one_bind, if_neg hid, hliteral]
  dsimp only
  rw [if_neg hsizeof, if_neg hopen, getloc_bind]

theorem parseExpression_ne_barred {garbage : BitVec 32} {type : TokenKind} {expr : Expression}
    (hbarred : Barred type) (h : parseExpression stream garbage s = .done (some expr) s') :
    (tokenAt stream s.head).type ≠ type := by
  intro htype
  rw [parseExpression_eq] at h
  have hnot := loop_induction (P := fun e s _ _ => e.isOperator = false →
    (tokenAt stream s.head).type ≠ type) ?_ ?_ _ _ _ _ _ h
  · exact hnot rfl htype
  · intro x s expr hstops hoperator
    rw [hstops.isOperator] at hoperator
    cases hoperator
  · intro x s op st s₁ expr s' hgoes _ hoperator htype
    obtain ⟨hfront, -⟩ := hbarred _ (tokenAt stream (s.head + 1)) x htype
    cases hgoes with
    | prefixOperator _ hkind => rw [hfront] at hkind; cases hkind
    | cast _ hkind => rw [hfront] at hkind; cases hkind
    | operand _ _ ha => rw [operand_barred hbarred htype] at ha; cases ha
    | postfixOperator htrue => rw [htrue] at hoperator; cases hoperator
    | binary htrue => rw [htrue] at hoperator; cases hoperator
    | member htrue => rw [htrue] at hoperator; cases hoperator
    | index htrue => rw [htrue] at hoperator; cases hoperator

theorem barred_eof : Barred .eof := by
  intro token token2 e h
  simp [prefixOf, literalOf, h]

theorem barred_close : Barred (.ascii ')') := by
  intro token token2 e h
  simp [prefixOf, literalOf, h]

/-- A list of arguments does not end where an expression begins. -/
theorem parseExpression_starts {garbage : BitVec 32} {expr : Expression}
    (h : parseExpression stream garbage s = .done (some expr) s') :
    (tokenAt stream s.head).type ≠ .eof ∧ (tokenAt stream s.head).type ≠ .ascii ')' :=
  ⟨parseExpression_ne_barred barred_eof h, parseExpression_ne_barred barred_close h⟩

/-! ## What stays on the stacks -/

/-- A property of expressions that everything built from them has.  An operation of a marked kind
leads to it. -/
structure Inherited (marked : ExpressionKind → Prop) (bad : Expression → Prop) : Prop where
  not_isUnary : ∀ op, marked op → op.isUnary = false
  operator : ∀ op left right location, marked op → bad (.binary op left right location)
  unary : ∀ kind left name location, bad left → bad (.unary kind left name location)
  left : ∀ kind left right location, bad left → bad (.binary kind left right location)
  right : ∀ kind left right location, bad right → bad (.binary kind left right location)
  index : ∀ left right location, bad left → bad (.index left right location)

namespace Stacks

variable {marked : ExpressionKind → Prop} {bad : Expression → Prop}
  {st st' : Stacks} {operations : List ExpressionKind}

/-- A marked operation, or an expression with the property. -/
def Carries (marked : ExpressionKind → Prop) (bad : Expression → Prop)
    (operations : List ExpressionKind) (st : Stacks) : Prop :=
  (∃ op ∈ operations, marked op) ∨ ∃ expr ∈ st.expressions, bad expr

theorem Carries.push (op : ExpressionKind) (h : Carries marked bad operations st)
    (hexpressions : st'.expressions = st.expressions) :
    Carries marked bad (op :: operations) st' := by
  rcases h with ⟨op', hmem, hmarked⟩ | ⟨expr, hmem, hbad⟩
  · exact .inl ⟨op', List.mem_cons_of_mem _ hmem, hmarked⟩
  · exact .inr ⟨expr, hexpressions ▸ hmem, hbad⟩

/-- A new operand on the stack takes nothing away. -/
theorem Carries.cons_expression {expr : Expression} (h : Carries marked bad operations st)
    (hexpressions : st'.expressions = expr :: st.expressions) :
    Carries marked bad operations st' := by
  refine h.imp_right fun hexists => ?_
  obtain ⟨x, hmem, hx⟩ := hexists
  exact ⟨x, hexpressions ▸ List.mem_cons_of_mem _ hmem, hx⟩

/-- Something is put around the top of the stack. -/
theorem Carries.wrap {left expr : Expression} {expressions : List Expression}
    (h : Carries marked bad operations st) (hleft : st.expressions = left :: expressions)
    (hexpressions : st'.expressions = expr :: expressions) (hexpr : bad left → bad expr) :
    Carries marked bad operations st' := by
  refine h.imp_right fun hexists => ?_
  obtain ⟨x, hmem, hx⟩ := hexists
  rw [hleft] at hmem
  rw [hexpressions]
  rcases List.mem_cons.mp hmem with rfl | hmem
  · exact ⟨expr, List.mem_cons_self, hexpr hx⟩
  · exact ⟨x, List.mem_cons_of_mem _ hmem, hx⟩

theorem applyUnary_expressions {op : ExpressionKind} (h : st.applyUnary op = some st') :
    ∃ left expressions name location, st.expressions = left :: expressions ∧
      st'.expressions = .unary op left name location :: expressions := by
  obtain ⟨expressions, ops, casts, locations⟩ := st
  unfold applyUnary at h
  rcases expressions with _ | ⟨left, expressions⟩
  · cases h
  rcases locations with _ | ⟨location, locations⟩
  · cases h
  dsimp only at h
  split at h
  · rcases casts with _ | ⟨name, casts⟩
    · cases h
    · cases h
      exact ⟨left, expressions, name, location, rfl, rfl⟩
  · cases h
    exact ⟨left, expressions, "", location, rfl, rfl⟩

theorem applyBinary_expressions {op : ExpressionKind} (h : st.applyBinary op = some st') :
    ∃ right left expressions location, st.expressions = right :: left :: expressions ∧
      st.savedLocations.head? = some location ∧
      st'.expressions = .binary op left right location :: expressions := by
  obtain ⟨expressions, ops, casts, locations⟩ := st
  unfold applyBinary at h
  rcases expressions with _ | ⟨right, _ | ⟨left, expressions⟩⟩
  · cases h
  · cases h
  rcases locations with _ | ⟨location, locations⟩
  · cases h
  · cases h
    exact ⟨right, left, expressions, location, rfl, rfl, rfl⟩

variable (hbad : Inherited marked bad)

include hbad

theorem carries_applyUnary {op : ExpressionKind} (h : st.applyUnary op = some st')
    (hop : op.isUnary = true) (hcarries : Carries marked bad (op :: operations) st) :
    Carries marked bad operations st' := by
  obtain ⟨left, expressions, name, location, hbefore, hafter⟩ := applyUnary_expressions h
  rcases hcarries with ⟨op', hmem, hmarked⟩ | hexists
  · rcases List.mem_cons.mp hmem with rfl | hmem
    · rw [hbad.not_isUnary op' hmarked] at hop
      cases hop
    · exact .inl ⟨op', hmem, hmarked⟩
  · exact Carries.wrap (.inr hexists) hbefore hafter (hbad.unary op left name location)

theorem carries_applyBinary {op : ExpressionKind} (h : st.applyBinary op = some st')
    (hcarries : Carries marked bad (op :: operations) st) : Carries marked bad operations st' := by
  obtain ⟨right, left, expressions, location, hbefore, -, hafter⟩ := applyBinary_expressions h
  unfold Carries at hcarries ⊢
  rw [hbefore] at hcarries
  rw [hafter]
  rcases hcarries with ⟨op', hmem, hmarked⟩ | ⟨expr, hmem, hexpr⟩
  · rcases List.mem_cons.mp hmem with rfl | hmem
    · exact .inr ⟨_, List.mem_cons_self, hbad.operator op' left right location hmarked⟩
    · exact .inl ⟨op', hmem, hmarked⟩
  · right
    rcases List.mem_cons.mp hmem with rfl | hmem
    · exact ⟨_, List.mem_cons_self, hbad.right op left expr location hexpr⟩
    rcases List.mem_cons.mp hmem with rfl | hmem
    · exact ⟨_, List.mem_cons_self, hbad.left op expr right location hexpr⟩
    · exact ⟨expr, List.mem_cons_of_mem _ hmem, hexpr⟩

theorem carries_fixUnary : ∀ {operations : List ExpressionKind} {st : Stacks},
    st.fixUnary operations = some st' → Carries marked bad operations st →
      Carries marked bad st'.operations st'
  | [], st, h, hcarries => by
      obtain rfl := Option.some.inj h
      exact hcarries
  | op :: operations, st, h, hcarries => by
      rw [fixUnary] at h
      split at h
      · next hop =>
          obtain ⟨st₁, happly, hfix⟩ := Option.bind_eq_some_iff.mp h
          exact carries_fixUnary hfix (carries_applyUnary hbad happly hop hcarries)
      · obtain rfl := Option.some.inj h
        exact hcarries

theorem carries_reduceLeft {right : ExpressionKind} :
    ∀ {operations : List ExpressionKind} {st : Stacks}, st.reduceLeft right operations = some st' →
      Carries marked bad (right :: operations) st → Carries marked bad st'.operations st'
  | [], st, h, hcarries => by
      obtain rfl := Option.some.inj h
      exact hcarries
  | left :: operations, st, h, hcarries => by
      unfold reduceLeft at h
      cases hp : left.precedence with
      | none =>
          rw [hp] at h
          cases h
      | some p =>
          cases hq : right.precedence with
          | none =>
              rw [hp, hq] at h
              cases h
          | some q =>
              rw [hp, hq] at h
              dsimp only at h
              split at h
              · obtain ⟨st₁, happly, hreduce⟩ := Option.bind_eq_some_iff.mp h
                refine carries_reduceLeft hreduce (carries_applyBinary hbad happly ?_)
                refine hcarries.imp_left fun hexists => ?_
                obtain ⟨op, hmem, hmarked⟩ := hexists
                exact ⟨op, (List.Perm.swap left right _).mem_iff.mp hmem, hmarked⟩
              · obtain rfl := Option.some.inj h
                exact hcarries

theorem carries_reduceAll : ∀ {operations : List ExpressionKind} {st : Stacks},
    st.reduceAll operations = some st' → Carries marked bad operations st →
      Carries marked bad [] st'
  | [], st, h, hcarries => by
      obtain rfl := Option.some.inj h
      exact hcarries
  | op :: operations, st, h, hcarries => by
      obtain ⟨st₁, happly, hreduce⟩ := Option.bind_eq_some_iff.mp h
      exact carries_reduceAll hreduce (carries_applyBinary hbad happly hcarries)

end Stacks

section Inherited

open Stacks

variable {marked : ExpressionKind → Prop} {bad : Expression → Prop} {op : Bool} {st : Stacks}
  (hbad : Inherited marked bad)

include hbad

theorem Goes.carries (h : Goes stream parse e s op st s')
    (hcarries : Carries marked bad e.operations e.toStacks) :
    Carries marked bad st.operations st := by
  cases h with
  | prefixOperator => exact hcarries.push _ rfl
  | cast => exact hcarries.push _ rfl
  | operand _ _ _ hfix => exact carries_fixUnary hbad hfix (hcarries.cons_expression rfl)
  | postfixOperator _ _ _ hfix => exact carries_fixUnary hbad hfix (hcarries.push _ rfl)
  | binary _ _ _ hreduce => exact carries_reduceLeft hbad hreduce (hcarries.push _ rfl)
  | member _ _ _ hleft hfix =>
      exact carries_fixUnary hbad hfix (hcarries.wrap hleft rfl (hbad.unary _ _ _ _))
  | index _ _ hleft _ _ hfix =>
      exact carries_fixUnary hbad hfix (hcarries.wrap hleft rfl (hbad.index _ _ _))

theorem Stops.carries {expr : Expression} (h : Stops stream e s expr)
    (hcarries : Carries marked bad e.operations e.toStacks) : bad expr := by
  obtain ⟨-, -, st, hreduce, hexpressions⟩ := h
  rcases carries_reduceAll hbad hreduce hcarries with ⟨op, hmem, -⟩ | ⟨x, hmem, hx⟩
  · cases hmem
  · rw [hexpressions, List.mem_singleton] at hmem
    rwa [← hmem]

end Inherited

end ParseContext

end TinCompiler
