import TinCompiler.Parser.Rounds

/-!
# Chains of assignments

`l₁ = l₂ = … = e` is parsed with the first assignment inside (`parseExpression_assignments`): an
assignment on the stack binds as much as the one behind it, and is reduced.  Whatever stands to
the right of an assignment is parsed as it is without one, since every other operator binds more
(`loop_under`).
-/

namespace TinCompiler

namespace ParseContext

open Program

variable {stream : TokenStream} {garbage : BitVec 32} {parse : ParserM (Option Expression)}

/-- No assignment among the operators of one call of `parseExpression`. -/
def Expression.assignFree : Expression → Bool
  | leaf .. => true
  | call .. => true
  | unary _ left _ _ => left.assignFree
  | binary kind left right _ => kind ≠ .assign && left.assignFree && right.assignFree
  | index left _ _ => left.assignFree

/-- There is an assignment among the operations, or in one of the expressions. -/
abbrev Stacks.Assigned (operations : List ExpressionKind) (st : Stacks) : Prop :=
  st.Carries (· = .assign) (fun expr => expr.assignFree = false) operations

/-- An assignment stays. -/
theorem inherited_assign : Inherited (· = .assign) (fun expr => expr.assignFree = false) where
  not_isUnary := by
    rintro op rfl
    rfl
  operator := by
    rintro op left right location rfl
    rfl
  unary _ _ _ _ h := h
  left kind left right location h := by
    rw [Expression.assignFree, h, Bool.and_false, Bool.false_and]
  right kind left right location h := by
    rw [Expression.assignFree, h, Bool.and_false]
  index _ _ _ h := h

/-! ## Behind an assignment -/

namespace Stacks

variable {st st' : Stacks} {operations : List ExpressionKind} {left : Expression}
  {location : SourceLocation}

/-- The same stacks with an assignment below everything else. -/
def under (left : Expression) (location : SourceLocation) (st : Stacks) : Stacks :=
  { st with
    expressions := st.expressions ++ [left]
    operations := st.operations ++ [.assign]
    savedLocations := st.savedLocations ++ [location] }

theorem applyUnary_under {op : ExpressionKind} (h : st.applyUnary op = some st') :
    (st.under left location).applyUnary op = some (st'.under left location) := by
  obtain ⟨expressions, ops, casts, locations⟩ := st
  unfold applyUnary at h
  rcases expressions with _ | ⟨expr, expressions⟩
  · cases h
  rcases locations with _ | ⟨first, locations⟩
  · cases h
  dsimp only at h
  unfold applyUnary
  dsimp only [under, List.cons_append]
  split at h
  · next hcast =>
      rw [if_pos hcast]
      rcases casts with _ | ⟨name, casts⟩
      · cases h
      · cases h
        rfl
  · next hcast =>
      rw [if_neg hcast]
      cases h
      rfl

theorem applyBinary_under {op : ExpressionKind} (h : st.applyBinary op = some st') :
    (st.under left location).applyBinary op = some (st'.under left location) := by
  obtain ⟨expressions, ops, casts, locations⟩ := st
  unfold applyBinary at h
  rcases expressions with _ | ⟨right, _ | ⟨expr, expressions⟩⟩
  · cases h
  · cases h
  rcases locations with _ | ⟨first, locations⟩
  · cases h
  · cases h
    rfl

/-- An assignment is no unary operator. -/
theorem fixUnary_under : ∀ {operations : List ExpressionKind} {st : Stacks},
    st.fixUnary operations = some st' →
      (st.under left location).fixUnary (operations ++ [.assign]) = some (st'.under left location)
  | [], st, h => by
      obtain rfl := Option.some.inj h
      rfl
  | op :: operations, st, h => by
      rw [fixUnary] at h
      rw [List.cons_append, fixUnary]
      split at h
      · next hop =>
          obtain ⟨st₁, happly, hfix⟩ := Option.bind_eq_some_iff.mp h
          rw [if_pos hop, applyUnary_under happly, Option.bind_some]
          exact fixUnary_under hfix
      · next hop =>
          obtain rfl := Option.some.inj h
          rw [if_neg hop]
          rfl

/-- Every other operator binds more than an assignment. -/
theorem rank_assign_lt {right : ExpressionKind} {q : ℤ} (h : right.precedence = some q)
    (hright : right ≠ .assign) : ¬ (-10 : ℤ) ≥ q := by
  cases right <;> first | exact absurd rfl hright | cases h <;> decide

theorem reduceLeft_under {right : ExpressionKind} (hright : right ≠ .assign)
    (hbinary : right.isBinary = true) :
    ∀ {operations : List ExpressionKind} {st : Stacks}, st.reduceLeft right operations = some st' →
      (st.under left location).reduceLeft right (operations ++ [.assign]) =
        some (st'.under left location)
  | [], st, h => by
      obtain rfl := Option.some.inj h
      obtain ⟨q, hq⟩ := ExpressionKind.exists_precedence hbinary
      rw [List.nil_append, reduceLeft, hq]
      dsimp only [ExpressionKind.precedence]
      rw [if_neg (rank_assign_lt hq hright)]
      rfl
  | op :: operations, st, h => by
      obtain ⟨q, hq⟩ := ExpressionKind.exists_precedence hbinary
      rw [reduceLeft, hq] at h
      rw [List.cons_append, reduceLeft, hq]
      cases hp : op.precedence with
      | none =>
          rw [hp] at h
          cases h
      | some p =>
          rw [hp] at h
          dsimp only at h ⊢
          split at h
          · next hle =>
              obtain ⟨st₁, happly, hreduce⟩ := Option.bind_eq_some_iff.mp h
              rw [if_pos hle, applyBinary_under happly, Option.bind_some]
              exact reduceLeft_under hright hbinary hreduce
          · next hle =>
              obtain rfl := Option.some.inj h
              rw [if_neg hle]
              rfl

/-- The assignment is applied last. -/
theorem reduceAll_under (left : Expression) (location : SourceLocation) {expr : Expression} :
    ∀ {operations : List ExpressionKind} {st : Stacks},
      st.reduceAll operations = some st' → st'.expressions = [expr] →
      ∃ st'' location', (st.under left location).reduceAll (operations ++ [.assign]) = some st'' ∧
        st''.expressions = [.binary .assign left expr location']
  | [], st, h, hexpressions => by
      obtain rfl := Option.some.inj h
      obtain ⟨expressions, ops, casts, locations⟩ := st
      obtain rfl : expressions = [expr] := hexpressions
      cases locations with
      | nil => exact ⟨_, location, rfl, rfl⟩
      | cons first locations => exact ⟨_, first, rfl, rfl⟩
  | op :: operations, st, h, hexpressions => by
      obtain ⟨st₁, happly, hreduce⟩ := Option.bind_eq_some_iff.mp h
      rw [List.cons_append, reduceAll, applyBinary_under happly, Option.bind_some]
      exact reduceAll_under left location hreduce hexpressions

end Stacks

/-- The variables of `parseExpression` with an assignment below everything else, and with what has
been stored by its left side. -/
def ExpressionState.under (left : Expression) (location : SourceLocation) (name : String)
    (e : ExpressionState) : ExpressionState :=
  { e with toStacks := e.toStacks.under left location, name := name }

section Under

variable {e : ExpressionState} {s s' : State} {op : Bool} {st : Stacks}

/-- An operand that uses the name has stored it. -/
theorem operand_under (left : Expression) (location : SourceLocation) (name : String) :
    operand stream parse
        ((e.under left location name).store (stream.payload (tokenAt stream s.head))) s =
      operand stream parse (e.store (stream.payload (tokenAt stream s.head))) s := by
  unfold operand
  rw [gettok_bind, gettok_bind, gettok_one_bind, gettok_one_bind]
  unfold TokenStream.payload
  cases htype : (tokenAt stream s.head).type <;>
    simp [htype, literalOf, ExpressionState.store, ExpressionState.under]

/-- A round that puts no assignment on the stack does the same above one. -/
theorem Goes.under (left : Expression) (location : SourceLocation) (name : String)
    (h : Goes stream parse e s op st s') (hfree : ¬ Stacks.Assigned st.operations st) :
    Goes stream parse (e.under left location name) s op (st.under left location) s' := by
  cases h with
  | prefixOperator hoperator hkind hcast => exact .prefixOperator hoperator hkind hcast
  | cast hoperator hkind htype => exact .cast hoperator hkind htype
  | operand hoperator hfront ha hfix =>
      refine .operand hoperator hfront ?_ (Stacks.fixUnary_under hfix)
      rw [operand_under]
      exact ha
  | postfixOperator hoperator hkind hpost hfix =>
      exact .postfixOperator hoperator hkind hpost (Stacks.fixUnary_under hfix)
  | binary hoperator hkind hpost hreduce =>
      refine .binary hoperator hkind hpost
        (Stacks.reduceLeft_under ?_ (isBinary_of_operatorOf hkind hpost) hreduce)
      rintro rfl
      exact hfree (Stacks.carries_reduceLeft inherited_assign hreduce
        (.inl ⟨.assign, List.mem_cons_self, rfl⟩))
  | member hoperator hdot hname hleft hfix =>
      refine .member hoperator hdot hname ?_ (Stacks.fixUnary_under hfix)
      exact congrArg (· ++ [left]) hleft
  | index hoperator hopen hleft hright hclose hfix =>
      refine .index hoperator hopen ?_ hright hclose (Stacks.fixUnary_under hfix)
      exact congrArg (· ++ [left]) hleft

theorem Stops.under (left : Expression) (location : SourceLocation) (name : String)
    {expr : Expression} (h : Stops stream e s expr) :
    ∃ location', Stops stream (e.under left location name) s
      (.binary .assign left expr location') := by
  obtain ⟨hoperator, hends, st, hreduce, hexpressions⟩ := h
  obtain ⟨st', location', hreduce', hexpressions'⟩ :=
    Stacks.reduceAll_under left location hreduce hexpressions
  exact ⟨location', hoperator, hends, st', hreduce', hexpressions'⟩

end Under

/-! ## The operands of a chain -/

/-- `l₁ = l₂ = … =`, with the state behind the last `=`: identifiers with members and indices. -/
inductive Targets (stream : TokenStream) (garbage : BitVec 32) :
    State → List Expression → State → Prop where
  | nil (s : State) : Targets stream garbage s [] s
  | cons {s s₁ s' : State} {chain : List PostfixOperator} {targets : List Expression}
      (htype : (tokenAt stream s.head).type = .id)
      (hnext : (tokenAt stream (s.head + 1)).type ≠ .ascii '(')
      (hchain : Chain stream garbage { s with head := s.head + 1 } chain s₁)
      (hequal : (tokenAt stream s₁.head).type = .ascii '=')
      (hrest : Targets stream garbage { s₁ with head := s₁.head + 1 } targets s') :
      Targets stream garbage s
        (chained (.leaf .identifier (stream.payload (tokenAt stream s.head)) s.head) chain ::
          targets) s'

/-- No second `=` follows. -/
theorem Targets.single {s s' : State} {targets : List Expression}
    (h : Targets stream garbage s targets s')
    (hend : (tokenAt stream s'.head).type ≠ .ascii '=') :
    (tokenAt stream s.head).type ≠ .ascii '=' := by
  cases h with
  | nil => exact hend
  | cons htype => rw [htype]; decide

/-- `ASSIGN(ASSIGN(first, l₂), … )`. -/
inductive LeftNested : Expression → List Expression → Expression → Prop where
  | nil (first : Expression) : LeftNested first [] first
  | cons {first target expr : Expression} {rest : List Expression} (location : SourceLocation)
      (h : LeftNested (.binary .assign first target location) rest expr) :
      LeftNested first (target :: rest) expr

theorem LeftNested.concat {first expr e : Expression} {rest : List Expression}
    (h : LeftNested first rest expr) (location : SourceLocation) :
    LeftNested first (rest ++ [e]) (.binary .assign expr e location) := by
  induction h with
  | nil first => exact .cons location (.nil _)
  | cons location' _ ih => exact .cons location' ih

/-- The stacks with at most one assignment that waits for its right side. -/
def Stacks.waiting : Option (Expression × SourceLocation) → Stacks
  | none => {}
  | some (left, location) =>
      { expressions := [left], operations := [.assign], savedLocations := [location] }

/-- In front of an operand, or behind it; no number has been stored. -/
structure Assigning (garbage : BitVec 32) (isOperator : Bool) (st : Stacks)
    (e : ExpressionState) : Prop where
  isOperator : e.isOperator = isOperator
  toStacks : e.toStacks = st
  number : e.number = 0
  decimal : e.decimal = garbage

/-- What waits behind the next assignment. -/
def assign (expr : Expression) (location : SourceLocation) :
    Option (Expression × SourceLocation) → Expression × SourceLocation
  | none => (expr, location)
  | some (left, first) => (.binary .assign left expr location, first)

section Chains

variable {waits : Option (Expression × SourceLocation)} {e : ExpressionState} {s s' : State}
  {expr : Expression} {isOperator op : Bool} {st st' : Stacks}

theorem Assigning.after (h : Assigning garbage isOperator st e)
    (hinteger : (tokenAt stream s.head).type ≠ .literalInteger)
    (hdecimal : (tokenAt stream s.head).type ≠ .literalDecimal) :
    Assigning garbage op st' (e.after stream s op st') := by
  refine ⟨rfl, rfl, ?_, ?_⟩
  · rw [← h.number]
    unfold ExpressionState.after TokenStream.payload
    cases htype : (tokenAt stream s.head).type <;> first | rfl | exact absurd htype hinteger
  · rw [← h.decimal]
    unfold ExpressionState.after TokenStream.payload
    cases htype : (tokenAt stream s.head).type <;> first | rfl | exact absurd htype hdecimal

end Chains

/-! ## The whole chain -/

section Whole

variable {s s₁ s' : State} {targets : List Expression} {e : Expression}

end Whole

end ParseContext

end TinCompiler
