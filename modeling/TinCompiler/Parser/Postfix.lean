import TinCompiler.Parser.Precedence

/-!
# Prefix operators and postfix chains

The members and indices behind an operand rewrite the top of the stack of expressions.  The
prefix operators in front of it are applied as soon as it has been read, so the chain is put
around them and not under them (`parseExpression_chained`).
-/

namespace TinCompiler

namespace ParseContext

open Program

variable {stream : TokenStream} {garbage : BitVec 32}

/-! ## The operators -/

/-- An operator in front of an operand; `name` is the type of a cast. -/
structure PrefixOperator where
  kind : ExpressionKind
  name : String
  location : SourceLocation

def PrefixOperator.apply (op : PrefixOperator) (left : Expression) : Expression :=
  .unary op.kind left op.name op.location

/-- Only a cast has a name. -/
structure PrefixOperator.Wellformed (op : PrefixOperator) : Prop where
  isUnary : op.kind.isUnary = true
  name : op.kind ≠ .cast → op.name = ""

/-- A member or an index behind an operand. -/
inductive PostfixOperator where
  | member (name : String) (location : SourceLocation)
  | index (right : Expression) (location : SourceLocation)

def PostfixOperator.apply (left : Expression) : PostfixOperator → Expression
  | member name location => .unary .member left name location
  | index right location => .index left (some right) location

/-- The operators around an expression, the first one outside. -/
def prefixed (ops : List PrefixOperator) (expr : Expression) : Expression :=
  ops.foldr PrefixOperator.apply expr

/-- The chain around an expression, the last one outside. -/
def chained (expr : Expression) (chain : List PostfixOperator) : Expression :=
  chain.foldl PostfixOperator.apply expr

/-- The tokens of prefix operators, with the state behind them. -/
inductive Prefixes (stream : TokenStream) : State → List PrefixOperator → State → Prop where
  | nil (s : State) : Prefixes stream s [] s
  | operator {s s' : State} {kind : ExpressionKind} {n : ℕ} {ops : List PrefixOperator}
      (hkind : prefixOf (tokenAt stream s.head) (tokenAt stream (s.head + 1)) = some (kind, n))
      (hcast : kind ≠ .cast) (hrest : Prefixes stream { s with head := s.head + n } ops s') :
      Prefixes stream s (⟨kind, "", s.head⟩ :: ops) s'
  | cast {s s₁ s' : State} {type : String} {ops : List PrefixOperator}
      (hcast : (tokenAt stream s.head).type = .cast)
      (htype : parseType stream { s with head := s.head + 1 } = .done type s₁)
      (hrest : Prefixes stream s₁ ops s') : Prefixes stream s (⟨.cast, type, s.head⟩ :: ops) s'

/-- The tokens of members and indices, with the state behind them. -/
inductive Chain (stream : TokenStream) (garbage : BitVec 32) :
    State → List PostfixOperator → State → Prop where
  | nil (s : State) : Chain stream garbage s [] s
  | member {s s' : State} {chain : List PostfixOperator}
      (hdot : (tokenAt stream s.head).type = .ascii '.')
      (hname : (tokenAt stream (s.head + 1)).type = .id)
      (hrest : Chain stream garbage { s with head := s.head + 1 + 1 } chain s') :
      Chain stream garbage s
        (.member (stream.payload (tokenAt stream (s.head + 1))).text s.head :: chain) s'
  | index {s s₁ s' : State} {right : Expression} {chain : List PostfixOperator}
      (hopen : (tokenAt stream s.head).type = .ascii '[')
      (hright : parseExpression stream garbage { s with head := s.head + 1 } =
        .done (some right) s₁)
      (hclose : (tokenAt stream s₁.head).type = .ascii ']')
      (hrest : Chain stream garbage { s₁ with head := s₁.head + 1 } chain s') :
      Chain stream garbage s (.index right s.head :: chain) s'

/-! ## The stacks -/

namespace Stacks

/-- The entries of operators that wait for an operand, the last one first. -/
structure Pending (ops : List PrefixOperator) (st : Stacks) : Prop where
  castStrings : st.castStrings = (ops.filter fun op => op.kind = .cast).map PrefixOperator.name
  savedLocations : st.savedLocations = ops.map PrefixOperator.location

/-- The entries that `applyUnary` takes are those of the last operator. -/
theorem applyUnary_pending {op : PrefixOperator} {ops : List PrefixOperator} {expr : Expression}
    {expressions : List Expression} {st : Stacks} (hop : op.kind ≠ .cast → op.name = "")
    (h : Pending (op :: ops) st) (hexpressions : st.expressions = expr :: expressions) :
    ∃ st', st.applyUnary op.kind = some st' ∧ st'.expressions = op.apply expr :: expressions ∧
      Pending ops st' := by
  obtain ⟨hcasts, hlocations⟩ := h
  unfold applyUnary
  rw [hexpressions, hlocations]
  by_cases hcast : op.kind = .cast
  · rw [List.filter_cons_of_pos (by simpa using hcast)] at hcasts
    simp only [List.map_cons, hcast, if_true, hcasts]
    exact ⟨_, rfl, by rw [PrefixOperator.apply, hcast], ⟨rfl, rfl⟩⟩
  · rw [List.filter_cons_of_neg (by simpa using hcast)] at hcasts
    simp only [List.map_cons, if_neg hcast]
    exact ⟨_, rfl, by rw [PrefixOperator.apply, hop hcast], ⟨hcasts, rfl⟩⟩

/-- All of them are applied, the last one first. -/
theorem fixUnary_pending {expressions : List Expression} :
    ∀ (ops : List PrefixOperator) {expr : Expression} {st : Stacks},
      (∀ op ∈ ops, op.Wellformed) → Pending ops st → st.expressions = expr :: expressions →
      st.fixUnary (ops.map PrefixOperator.kind) = some
        { expressions := ops.foldl (fun expr op => op.apply expr) expr :: expressions } := by
  intro ops
  induction ops with
  | nil =>
      rintro expr ⟨es, os, cs, ls⟩ - ⟨hcasts, hlocations⟩ hexpressions
      obtain rfl : es = _ := hexpressions
      obtain rfl : cs = _ := hcasts
      obtain rfl : ls = _ := hlocations
      rfl
  | cons op ops ih =>
      intro expr st hops h hexpressions
      have hop := hops op (List.mem_cons_self ..)
      obtain ⟨st', happly, hexpressions', h'⟩ := applyUnary_pending hop.name h hexpressions
      rw [List.map_cons, fixUnary, if_pos hop.isUnary, happly, Option.bind_some]
      exact ih (fun op hmem => hops op (List.mem_cons_of_mem _ hmem)) h' hexpressions'

end Stacks

/-! ## The rounds -/

/-- In front of an operand, behind prefix operators; nothing else has been read. -/
structure Fronted (ops : List PrefixOperator) (e : ExpressionState) : Prop where
  isOperator : e.isOperator = false
  operations : e.operations = ops.map PrefixOperator.kind
  expressions : e.expressions = []
  pending : Stacks.Pending ops e.toStacks
  wellformed : ∀ op ∈ ops, op.Wellformed

/-- Behind an operand with nothing pending. -/
structure Single (expr : Expression) (e : ExpressionState) : Prop where
  isOperator : e.isOperator = true
  toStacks : e.toStacks = { expressions := [expr] }

section Rounds

variable {e : ExpressionState} {s s' : State} {ops : List PrefixOperator} {expr : Expression}

theorem Fronted.cons {op : PrefixOperator} {e' : ExpressionState} (h : Fronted ops e)
    (hop : op.Wellformed) (hoperator : e'.isOperator = e.isOperator)
    (hoperations : e'.operations = op.kind :: e.operations)
    (hexpressions : e'.expressions = e.expressions)
    (hcasts : e'.castStrings = if op.kind = .cast then op.name :: e.castStrings else e.castStrings)
    (hlocations : e'.savedLocations = op.location :: e.savedLocations) : Fronted (op :: ops) e' := by
  refine ⟨hoperator.trans h.isOperator, ?_, hexpressions.trans h.expressions, ⟨?_, ?_⟩, ?_⟩
  · rw [hoperations, h.operations, List.map_cons]
  · rw [hcasts, h.pending.castStrings, List.filter_cons]
    by_cases hcast : op.kind = .cast <;> simp [hcast]
  · rw [hlocations, h.pending.savedLocations, List.map_cons]
  · intro op' hmem
    rcases List.mem_cons.mp hmem with rfl | hmem
    · exact hop
    · exact h.wellformed op' hmem

theorem prefixOf_of_cast {token token2 : Token} (h : token.type = .cast) :
    prefixOf token token2 = some (.cast, 1) := by
  simp [prefixOf, h]

theorem expressionRound_prefix {kind : ExpressionKind} {n : ℕ} (h : Fronted ops e)
    (hkind : prefixOf (tokenAt stream s.head) (tokenAt stream (s.head + 1)) = some (kind, n))
    (hcast : kind ≠ .cast) :
    ∃ e', expressionRound stream (parseExpression stream garbage) e s =
        .done (.again e') { s with head := s.head + n } ∧
      Fronted (⟨kind, "", s.head⟩ :: ops) e' := by
  refine ⟨{ e.store (stream.payload (tokenAt stream s.head)) with
    toStacks := e.toStacks.pushOperation kind s.head }, ?_, ?_⟩
  · unfold expressionRound
    rw [gettok_bind, if_neg (by rw [store_isOperator, h.isOperator]; exact Bool.false_ne_true)]
    unfold operandStep
    rw [gettok_bind, gettok_one_bind, hkind]
    dsimp only
    rw [getloc_bind, advance_bind, if_neg hcast, store_toStacks]
    rfl
  · exact h.cons ⟨isUnary_of_appendOf hkind, fun _ => rfl⟩ (store_isOperator _ e) rfl rfl
      (if_neg hcast).symm rfl

theorem expressionRound_cast {type : String} (h : Fronted ops e)
    (hcast : (tokenAt stream s.head).type = .cast)
    (htype : parseType stream { s with head := s.head + 1 } = .done type s') :
    ∃ e', expressionRound stream (parseExpression stream garbage) e s = .done (.again e') s' ∧
      Fronted (⟨.cast, type, s.head⟩ :: ops) e' := by
  refine ⟨{ e.store (stream.payload (tokenAt stream s.head)) with
    toStacks := { e.toStacks.pushOperation .cast s.head with
      castStrings := type :: e.castStrings } }, ?_, ?_⟩
  · unfold expressionRound
    rw [gettok_bind, if_neg (by rw [store_isOperator, h.isOperator]; exact Bool.false_ne_true)]
    unfold operandStep
    rw [gettok_bind, gettok_one_bind, prefixOf_of_cast hcast]
    dsimp only
    rw [getloc_bind, advance_bind, if_pos rfl, store_toStacks, bind_of_done htype]
    rfl
  · exact h.cons ⟨rfl, fun hne => absurd rfl hne⟩ (store_isOperator _ e) rfl rfl rfl rfl

/-- The operators are applied as soon as the operand has been read. -/
theorem expressionRound_fronted {a : Expression} (h : Fronted ops e)
    (ha : Operand stream garbage s a s') :
    ∃ e', expressionRound stream (parseExpression stream garbage) e s = .done (.again e') s' ∧
      Single (ops.foldl (fun expr op => op.apply expr) a) e' := by
  refine ⟨{ e.store (stream.payload (tokenAt stream s.head)) with
    toStacks := { expressions := [ops.foldl (fun expr op => op.apply expr) a] }
    isOperator := true }, ?_, rfl, rfl⟩
  unfold expressionRound
  rw [gettok_bind, if_neg (by rw [store_isOperator, h.isOperator]; exact Bool.false_ne_true)]
  unfold operandStep
  rw [gettok_bind, gettok_one_bind, prefixOf_of_starts ha.starts]
  dsimp only
  rw [bind_of_done (operand_done ha e)]
  unfold afterOperand
  dsimp only
  rw [store_toStacks]
  have hfix : (e.toStacks.pushExpression a).fixUnary (e.toStacks.pushExpression a).operations =
      some { expressions := [ops.foldl (fun expr op => op.apply expr) a] } := by
    change Stacks.fixUnary e.operations _ = _
    rw [h.operations]
    exact Stacks.fixUnary_pending ops h.wellformed ⟨h.pending.castStrings, h.pending.savedLocations⟩
      (congrArg (a :: ·) h.expressions)
  rw [hfix]
  rfl

theorem operatorOf_of_dot {token token2 : Token} (h : token.type = .ascii '.') :
    operatorOf token token2 = none := by
  simp [operatorOf, charToExprType, h]

theorem operatorOf_of_bracket {token token2 : Token} (h : token.type = .ascii '[') :
    operatorOf token token2 = none := by
  simp [operatorOf, charToExprType, h]

/-- The round behind the only operand. -/
theorem expressionRound_single (parse : ParserM (Option Expression)) (h : Single expr e) :
    expressionRound stream parse e s =
      operatorStep stream parse { e.store (stream.payload (tokenAt stream s.head)) with
        toStacks := { expressions := [expr] }
        isOperator := true } s := by
  have hstored : { e.store (stream.payload (tokenAt stream s.head)) with
      toStacks := { expressions := [expr] }
      isOperator := true } = e.store (stream.payload (tokenAt stream s.head)) := by
    rw [← h.toStacks, ← store_toStacks (stream.payload (tokenAt stream s.head)),
      ← h.isOperator, ← store_isOperator (stream.payload (tokenAt stream s.head))]
  unfold expressionRound
  rw [gettok_bind, if_pos (by rw [store_isOperator, h.isOperator]), hstored]

theorem expressionRound_member (h : Single expr e)
    (hdot : (tokenAt stream s.head).type = .ascii '.')
    (hname : (tokenAt stream (s.head + 1)).type = .id) :
    ∃ e', expressionRound stream (parseExpression stream garbage) e s =
        .done (.again e') { s with head := s.head + 1 + 1 } ∧
      Single (.unary .member expr (stream.payload (tokenAt stream (s.head + 1))).text s.head) e' := by
  refine ⟨{ e.store (stream.payload (tokenAt stream s.head)) with
    toStacks := { expressions :=
      [.unary .member expr (stream.payload (tokenAt stream (s.head + 1))).text s.head] }
    isOperator := true }, ?_, rfl, rfl⟩
  rw [expressionRound_single _ h]
  unfold operatorStep
  rw [gettok_bind, gettok_one_bind, operatorOf_of_dot hdot]
  dsimp only
  rw [if_pos hdot]
  unfold memberStep
  rw [getloc_bind, advance_bind, gettok_bind, if_neg (not_not.mpr hname)]
  rfl

theorem expressionRound_index {right : Expression} (h : Single expr e)
    (hopen : (tokenAt stream s.head).type = .ascii '[')
    (hright : parseExpression stream garbage { s with head := s.head + 1 } = .done (some right) s')
    (hclose : (tokenAt stream s'.head).type = .ascii ']') :
    ∃ e', expressionRound stream (parseExpression stream garbage) e s =
        .done (.again e') { s' with head := s'.head + 1 } ∧
      Single (.index expr (some right) s.head) e' := by
  refine ⟨{ e.store (stream.payload (tokenAt stream s.head)) with
    toStacks := { expressions := [.index expr (some right) s.head] }
    isOperator := true }, ?_, rfl, rfl⟩
  rw [expressionRound_single _ h]
  unfold operatorStep
  rw [gettok_bind, gettok_one_bind, operatorOf_of_bracket hopen]
  dsimp only
  rw [if_neg (by rw [hopen]; simp), if_pos hopen]
  unfold indexStep
  rw [getloc_bind, advance_bind]
  dsimp only
  rw [bind_of_done hright, gettok_bind, if_neg (not_not.mpr hclose)]
  rfl

theorem expressionRound_single_end (h : Single expr e) (hends : Ends stream s.head) :
    expressionRound stream (parseExpression stream garbage) e s =
      .done (.finish (some expr)) s := by
  rw [expressionRound_single _ h]
  unfold operatorStep
  rw [gettok_bind, gettok_one_bind, hends.operator]
  dsimp only
  rw [if_neg hends.member, if_neg hends.index]
  rfl

end Rounds

/-! ## The whole expression -/

/-- The operators are collected; the induction is on them. -/
theorem loop_prefixes {s s₁ : State} {ops : List PrefixOperator} (h : Prefixes stream s ops s₁) :
    ∀ (fronted : List PrefixOperator) (e : ExpressionState) (rounds : ℕ), Fronted fronted e →
      loop (expressionRound stream (parseExpression stream garbage)) rounds e s ≠ .cutOff →
      ∃ e' rounds', Fronted (ops.reverse ++ fronted) e' ∧
        loop (expressionRound stream (parseExpression stream garbage)) rounds e s =
          loop (expressionRound stream (parseExpression stream garbage)) rounds' e' s₁ := by
  induction h with
  | nil => exact fun fronted e rounds hfronted _ => ⟨e, rounds, hfronted, rfl⟩
  | operator hkind hcast hrest ih =>
      intro fronted e rounds hfronted hne
      obtain ⟨e₁, hround, hfronted₁⟩ := expressionRound_prefix hfronted hkind hcast
      obtain ⟨rounds, rfl⟩ := exists_round hne
      rw [loop_of_again hround] at hne ⊢
      obtain ⟨e', rounds', hfronted', hloop⟩ := ih _ e₁ rounds hfronted₁ hne
      refine ⟨e', rounds', ?_, hloop⟩
      rwa [List.reverse_cons, List.append_assoc]
  | cast hcast htype hrest ih =>
      intro fronted e rounds hfronted hne
      obtain ⟨e₁, hround, hfronted₁⟩ := expressionRound_cast hfronted hcast htype
      obtain ⟨rounds, rfl⟩ := exists_round hne
      rw [loop_of_again hround] at hne ⊢
      obtain ⟨e', rounds', hfronted', hloop⟩ := ih _ e₁ rounds hfronted₁ hne
      refine ⟨e', rounds', ?_, hloop⟩
      rwa [List.reverse_cons, List.append_assoc]

/-- Every member and every index is put around what has been built. -/
theorem loop_chain {s s' : State} {chain : List PostfixOperator}
    (h : Chain stream garbage s chain s') (hends : Ends stream s'.head) :
    ∀ (expr : Expression) (e : ExpressionState) (rounds : ℕ), Single expr e →
      loop (expressionRound stream (parseExpression stream garbage)) rounds e s ≠ .cutOff →
      loop (expressionRound stream (parseExpression stream garbage)) rounds e s =
        .done (some (chained expr chain)) s' := by
  induction h with
  | nil =>
      intro expr e rounds hsingle hne
      obtain ⟨rounds, rfl⟩ := exists_round hne
      exact loop_of_finish (expressionRound_single_end hsingle hends) rounds
  | member hdot hname hrest ih =>
      intro expr e rounds hsingle hne
      obtain ⟨e₁, hround, hsingle₁⟩ := expressionRound_member hsingle hdot hname
      obtain ⟨rounds, rfl⟩ := exists_round hne
      rw [loop_of_again hround] at hne ⊢
      exact ih hends _ e₁ rounds hsingle₁ hne
  | index hopen hright hclose hrest ih =>
      intro expr e rounds hsingle hne
      obtain ⟨e₁, hround, hsingle₁⟩ := expressionRound_index hsingle hopen hright hclose
      obtain ⟨rounds, rfl⟩ := exists_round hne
      rw [loop_of_again hround] at hne ⊢
      exact ih hends _ e₁ rounds hsingle₁ hne

section Whole

variable {s s₁ s₂ s' : State} {ops : List PrefixOperator} {chain : List PostfixOperator}
  {a : Expression}

/-- The chain is around the prefix operators. -/
theorem parseExpression_chained (hops : Prefixes stream s ops s₁)
    (ha : Operand stream garbage s₁ a s₂) (hchain : Chain stream garbage s₂ chain s')
    (hends : Ends stream s'.head) :
    parseExpression stream garbage s = .done (some (chained (prefixed ops a) chain)) s' := by
  have hne : parseExpression stream garbage s ≠ .cutOff := parseExpression_ne_cutOff s
  rw [parseExpression_eq] at hne ⊢
  have hstart : Fronted [] { decimal := garbage } :=
    ⟨rfl, rfl, rfl, ⟨rfl, rfl⟩, fun op hmem => absurd hmem List.not_mem_nil⟩
  unfold expressionBody at hne ⊢
  obtain ⟨e₁, rounds, hfronted, hloop⟩ := loop_prefixes hops [] _ _ hstart hne
  rw [hloop] at hne ⊢
  obtain ⟨e₂, hround, hsingle⟩ := expressionRound_fronted hfronted ha
  obtain ⟨rounds, rfl⟩ := exists_round hne
  rw [loop_of_again hround] at hne ⊢
  have hprefixed : (ops.reverse ++ []).foldl (fun expr (op : PrefixOperator) => op.apply expr) a =
      prefixed ops a := by
    rw [List.append_nil, List.foldl_reverse, prefixed]
  rw [hprefixed] at hsingle
  exact loop_chain hchain hends _ e₂ rounds hsingle hne

theorem chained_concat (expr : Expression) (op : PostfixOperator) :
    chained expr (chain ++ [op]) = op.apply (chained expr chain) := by
  rw [chained, List.foldl_append]
  rfl

theorem Prefixes.isUnary (hops : Prefixes stream s ops s₁) :
    ∀ op ∈ ops, op.kind.isUnary = true := by
  induction hops with
  | nil => exact fun op hmem => absurd hmem List.not_mem_nil
  | operator hkind hcast hrest ih =>
      intro op hmem
      rcases List.mem_cons.mp hmem with rfl | hmem
      · exact isUnary_of_appendOf hkind
      · exact ih op hmem
  | cast hcast htype hrest ih =>
      intro op hmem
      rcases List.mem_cons.mp hmem with rfl | hmem
      · rfl
      · exact ih op hmem

/-- A prefix operator outside is not a postfix operator outside. -/
theorem prefix_apply_ne {op : PrefixOperator} (hop : op.kind.isUnary = true)
    (post : PostfixOperator) (expr expr' : Expression) : op.apply expr ≠ post.apply expr' := by
  intro heq
  cases post with
  | member name location =>
      obtain ⟨hkind, -⟩ := Expression.unary.inj heq
      rw [hkind] at hop
      cases hop
  | index right location => cases heq

/-- Prefix operators apply to the whole chain exactly if there are none or there is no chain. -/
theorem parseExpression_prefixed_iff (hops : Prefixes stream s ops s₁)
    (ha : Operand stream garbage s₁ a s₂) (hchain : Chain stream garbage s₂ chain s')
    (hends : Ends stream s'.head) :
    parseExpression stream garbage s = .done (some (prefixed ops (chained a chain))) s' ↔
      ops = [] ∨ chain = [] := by
  rw [parseExpression_chained hops ha hchain hends]
  constructor
  · intro heq
    have hsame : chained (prefixed ops a) chain = prefixed ops (chained a chain) := by
      injection heq with heq
      exact Option.some.inj heq
    cases ops with
    | nil => exact .inl rfl
    | cons op ops =>
        rcases List.eq_nil_or_concat chain with rfl | ⟨chain, post, rfl⟩
        · exact .inr rfl
        · rw [List.concat_eq_append, chained_concat] at hsame
          exact absurd hsame.symm
            (prefix_apply_ne (hops.isUnary op (List.mem_cons_self ..)) post _ _)
  · rintro (rfl | rfl) <;> rfl

end Whole

/-! ## A negated member -/

/-- The tokens of `!a.b;` -/
def negatedMember : TokenStream where
  tokens := [{ type := .ascii '!' }, { type := .id }, { type := .ascii '.' },
    { type := .id, dataIndex := 1 }, { type := .ascii ';' }]
  strings := ["a", "b"]
  inBounds := by simp [Token.InBounds]

theorem operand_negatedMember :
    Operand negatedMember 0 { head := 1 } (variableAt "a" 1) { head := 2 } :=
  .identifier (by decide) (by decide)

theorem chain_negatedMember :
    Chain negatedMember 0 { head := 2 } [.member "b" 2] { head := 4 } :=
  .member (by decide) (by decide) (.nil _)

theorem prefixes_negatedMember : Prefixes negatedMember {} [⟨.not, "", 0⟩] { head := 1 } := by
  have hnot : prefixOf (tokenAt negatedMember 0) (tokenAt negatedMember 1) =
      some (ExpressionKind.not, 1) := by decide
  exact .operator hnot (by decide) (.nil _)

theorem ends_negatedMember : Ends negatedMember 4 := ⟨by decide, by decide, by decide⟩

/-- Without the `!` the member is parsed as it should be. -/
theorem parseExpression_prefixed_member :
    parseExpression negatedMember 0 { head := 1 } =
      .done (some (.unary .member (variableAt "a" 1) "b" 2)) { head := 4 } :=
  (parseExpression_prefixed_iff (.nil _) operand_negatedMember chain_negatedMember
    ends_negatedMember).mpr (.inl rfl)

/-- `!a.b` is parsed as `(!a).b`. -/
theorem not_parseExpression_prefixed :
    ¬ ∀ (stream : TokenStream) (garbage : BitVec 32) (s s₁ s₂ s' : State)
      (ops : List PrefixOperator) (a : Expression) (chain : List PostfixOperator),
      Prefixes stream s ops s₁ → Operand stream garbage s₁ a s₂ →
      Chain stream garbage s₂ chain s' → Ends stream s'.head →
      parseExpression stream garbage s = .done (some (prefixed ops (chained a chain))) s' := by
  intro hall
  have hclaimed := hall _ _ _ _ _ _ _ _ _ prefixes_negatedMember operand_negatedMember
    chain_negatedMember ends_negatedMember
  rw [parseExpression_chained prefixes_negatedMember operand_negatedMember chain_negatedMember
    ends_negatedMember] at hclaimed
  injection hclaimed with hclaimed
  cases hclaimed

end ParseContext

end TinCompiler
