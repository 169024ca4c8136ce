import TinCompiler.Parser.Stacks
import TinCompiler.Parser.Statements
import Mathlib.Data.List.GetD

/-!
# The parser moves on

Every function of the parser returns, and when it returns a null pointer it has reported an
error.  Each round of a loop and each call of a function inside of itself starts at a larger
`head`, which is what bounds the rounds and the calls.  `Returns` is the contract of the
functions, `Sound` that of the functions that a round calls.
-/

namespace TinCompiler

namespace ParseContext

open Program

variable {α β : Type} {stream : TokenStream} {total : Prop} {s s' : State}

/-! ## The steps of a program -/

section Steps

variable (stream)

theorem gettok_bind (f : Token → ParserM α) (s : State) :
    (gettok stream 0 >>= f) s = f (tokenAt stream s.head) s := rfl

theorem gettok_one_bind (f : Token → ParserM α) (s : State) :
    (gettok stream 1 >>= f) s = f (tokenAt stream (s.head + 1)) s := rfl

theorem getloc_bind (f : SourceLocation → ParserM α) (s : State) :
    (getloc >>= f) s = f s.head s := rfl

theorem advance_bind (n : ℕ) (f : Unit → ParserM α) (s : State) :
    (advance n >>= f) s = f () { s with head := s.head + n } := rfl

theorem report_bind (location : SourceLocation) (message : String) (f : Unit → ParserM α)
    (s : State) : (report location message >>= f) s =
      f () { s with reporter := s.reporter.err location message } := rfl

theorem lt_length_of_ne_eof {index : ℕ} (h : (tokenAt stream index).type ≠ .eof) :
    index < stream.tokens.length := by
  by_contra hle
  apply h
  rw [tokenAt, List.getD_eq_default _ _ (Nat.not_lt.mp hle)]

end Steps

/-! ## The contract -/

/-- The tokens that are left. -/
def remaining (stream : TokenStream) (s : State) : ℕ := stream.tokens.length - s.head

/-- The parser has moved on, perhaps with errors. -/
structure Later (s s' : State) : Prop where
  head : s.head ≤ s'.head
  errors : s.reporter.errors ≤ s'.reporter.errors

namespace Later

theorem refl (s : State) : Later s s := ⟨Nat.le_refl _, Nat.le_refl _⟩

theorem trans {s'' : State} (h : Later s s') (h' : Later s' s'') : Later s s'' :=
  ⟨Nat.le_trans h.head h'.head, Nat.le_trans h.errors h'.errors⟩

theorem advance (s : State) (n : ℕ) : Later s { s with head := s.head + n } :=
  ⟨Nat.le_add_right _ _, Nat.le_refl _⟩

theorem remaining_le (h : Later s s') : remaining stream s' ≤ remaining stream s :=
  Nat.sub_le_sub_left h.head _

end Later

/-- With an error more. -/
structure Failed (s s' : State) : Prop where
  later : Later s s'
  errors : s.reporter.errors < s'.reporter.errors

theorem Failed.report (s : State) (location : SourceLocation) (message : String) :
    Failed s { s with reporter := s.reporter.err location message } := by
  have hlt : s.reporter.errors < (s.reporter.err location message).errors := by
    rw [Reporter.errors_err]
    exact Nat.lt_succ_self _
  exact ⟨⟨Nat.le_refl _, Nat.le_of_lt hlt⟩, hlt⟩

theorem Failed.after {s'' : State} (h : Later s s') (h' : Failed s' s'') : Failed s s'' :=
  ⟨h.trans h'.later, Nat.lt_of_le_of_lt h.errors h'.errors⟩

theorem Failed.before {s'' : State} (h : Failed s s') (h' : Later s' s'') : Failed s s'' :=
  ⟨h.later.trans h', Nat.lt_of_lt_of_le h.errors h'.errors⟩

/-- With a token less. -/
structure Advanced (s s' : State) : Prop where
  later : Later s s'
  head : s.head < s'.head

theorem Advanced.advance (s : State) {n : ℕ} (hn : 0 < n) :
    Advanced s { s with head := s.head + n } :=
  ⟨Later.advance s n, Nat.lt_add_of_pos_right hn⟩

theorem Advanced.after {s'' : State} (h : Later s s') (h' : Advanced s' s'') : Advanced s s'' :=
  ⟨h.trans h'.later, Nat.lt_of_le_of_lt h.head h'.head⟩

theorem Advanced.before {s'' : State} (h : Advanced s s') (h' : Later s' s'') : Advanced s s'' :=
  ⟨h.later.trans h', Nat.lt_of_lt_of_le h.head h'.head⟩

theorem Advanced.remaining_lt (h : Advanced s s') (hlt : s.head < stream.tokens.length) :
    remaining stream s' < remaining stream s := by
  have hhead := h.head
  unfold remaining
  omega

/-- A null pointer comes with an error, anything else takes a token at least. -/
def Returns (s : State) : Option α → State → Prop
  | none, s' => Failed s s'
  | some _, s' => Advanced s s'

theorem Returns.later {r : Option α} (h : Returns s r s') : Later s s' := by
  cases r with
  | none => exact Failed.later h
  | some => exact Advanced.later h

theorem Returns.after {s'' : State} {r : Option α} (h : Later s s') (h' : Returns s' r s'') :
    Returns s r s'' := by
  cases r with
  | none => exact Failed.after h h'
  | some => exact Advanced.after h h'

/-- From `head` on, the function meets its contract where it is called with enough depth. -/
def Sound (total : Prop) (stream : TokenStream) (head depth : ℕ) (parse : ParserM (Option α)) :
    Prop :=
  ∀ s, head ≤ s.head → (total → remaining stream s < depth) → (parse s).Meets total (Returns s)

/-- The function, where it may be called only behind `head`. -/
def onlyAbove (head : ℕ) (parse : ParserM α) : ParserM α := fun s =>
  if head < s.head then parse s else .fault

theorem Sound.onlyAbove {head depth : ℕ} {parse : ParserM (Option α)}
    (h : Sound total stream (head + 1) depth parse) :
    Sound total stream (head + 1) depth (onlyAbove head parse) := by
  intro s hhead hdepth
  rw [ParseContext.onlyAbove, if_pos (Nat.lt_of_succ_le hhead)]
  exact h s hhead hdepth

theorem Sound.mono {head head' depth depth' : ℕ} {parse : ParserM (Option α)}
    (h : Sound total stream head depth parse) (hhead : head ≤ head') (hdepth : depth' ≤ depth) :
    Sound total stream head' depth' parse :=
  fun s hs hrest => h s (Nat.le_trans hhead hs) fun htotal =>
    Nat.lt_of_lt_of_le (hrest htotal) hdepth

/-! ## The small functions -/

theorem meets_fail (location : SourceLocation) (message : String) :
    ((fail location message : ParserM (Option α)) s).Meets total (Returns s) := by
  change Failed s _
  exact Failed.report s location message

theorem meets_expect (kind : TokenKind) (message : String) :
    (expect stream kind message s).Meets total (Returns s) := by
  unfold expect
  rw [gettok_bind]
  refine meets_ite (fun _ => ?_) fun _ => ?_
  · rw [advance_bind]
    exact meets_pure (Advanced.advance s Nat.one_pos)
  · rw [getloc_bind]
    exact meets_fail _ _

theorem starRound_meets (out : String × Bool) :
    (starRound stream out s).Meets total fun r s' =>
      match r with
      | .again _ => Advanced s s' ∧ s.head < stream.tokens.length
      | .finish text => s' = s ∧ text = out.1 := by
  unfold starRound
  rw [gettok_bind]
  refine meets_ite (fun _ => meets_pure ⟨rfl, rfl⟩) fun hstar => ?_
  have htype : (tokenAt stream s.head).type = .ascii '*' := by
    by_contra hne
    exact hstar (Or.inl hne)
  rw [advance_bind]
  refine meets_pure ⟨Advanced.advance s Nat.one_pos, lt_length_of_ne_eof stream ?_⟩
  rw [htype]
  exact TokenKind.noConfusion

/-- An empty string is a missing type. -/
theorem parseType_meets : (parseType stream s).Meets total fun type s' =>
    Later s s' ∧ (type ≠ "" → Advanced s s') := by
  unfold parseType
  rw [gettok_bind]
  refine meets_ite (fun _ => meets_pure ⟨Later.refl s, fun h => absurd rfl h⟩) fun _ => ?_
  rw [advance_bind]
  have hadvanced := Advanced.advance s Nat.one_pos
  refine meets_loop (fun _ s' => Advanced s s') (remaining stream) (fun out s₁ h => ?_)
    (bound stream) _ _ hadvanced fun _ => ?_
  · refine (starRound_meets out).mono fun r s₂ hr => ?_
    cases r with
    | again out' => exact ⟨h.before hr.1.later, hr.1.remaining_lt hr.2⟩
    | finish text =>
        obtain ⟨rfl, -⟩ := hr
        exact ⟨h.later, fun _ => h⟩
  · unfold remaining bound
    omega

/-! ## Expressions -/

theorem prefixOf_eof {token token2 : Token} (h : token.type = .eof) :
    prefixOf token token2 = none := by
  simp [prefixOf, h]

theorem operatorOf_eof {token token2 : Token} (h : token.type = .eof) :
    operatorOf token token2 = none := by
  simp [operatorOf, charToExprType, h]

theorem length_pos_of_appendOf {token token2 : Token} {kind : ExpressionKind} {n : ℕ}
    (h : prefixOf token token2 = some (kind, n)) : 0 < n := by
  unfold prefixOf at h
  repeat
    rcases eq_or_of_ite h with heq | h
    · cases heq; decide
  cases h

theorem length_pos_of_operatorOf {token token2 : Token} {kind : ExpressionKind} {n : ℕ}
    (h : operatorOf token token2 = some (kind, n)) : 0 < n := by
  unfold operatorOf at h
  rcases eq_or_of_ite h with heq | h
  · cases heq; decide
  rcases eq_or_of_ite h with heq | h
  · cases heq; decide
  cases hchar : charToExprType token.type with
  | some kind' => rw [hchar] at h; cases h; decide
  | none =>
      rw [hchar] at h
      dsimp only at h
      repeat
        rcases eq_or_of_ite h with heq | h
        · cases heq; decide
      cases h

theorem length_pos_of_literalOf {token token2 : Token} {e : ExpressionState}
    {kind : ExpressionKind} {payload : Payload} {n : ℕ}
    (h : literalOf token token2 e = some (kind, payload, n)) : 0 < n := by
  unfold literalOf at h
  repeat
    rcases eq_or_of_ite h with heq | h
    · cases heq; decide
  cases h

theorem literalOf_eof {token token2 : Token} {e : ExpressionState} (h : token.type = .eof) :
    literalOf token token2 e = none := by
  simp [literalOf, h]

/-- What a round of `parseExpression` leaves; an expression only ends behind an operand. -/
def RoundPost (stream : TokenStream) (isOperator : Bool) (s : State) :
    ExpressionStep → State → Prop
  | .again e', s' => Balanced e' ∧ Advanced s s' ∧ s.head < stream.tokens.length
  | .finish none, s' => Failed s s'
  | .finish (some _), s' => isOperator = true ∧ Later s s'

/-- Behind an operand the round takes no more tokens. -/
theorem afterOperand_meets {e : ExpressionState} {unary binary : List ExpressionKind}
    (hoperations : e.operations = unary ++ binary) (hunary : ∀ op ∈ unary, op.isUnary = true)
    (hbinary : ∀ op ∈ binary, op.isBinary = true)
    (hcounts : e.toStacks.Counts (unary ++ binary) 0) :
    (afterOperand e s).Meets total fun r s' =>
      s' = s ∧ ∃ e', r = .again e' ∧ e'.isOperator = true ∧ Balanced e' := by
  obtain ⟨st, hfix, hst, hrest⟩ := Stacks.fixUnary_counts hbinary unary e.toStacks hunary hcounts
  unfold afterOperand
  rw [hoperations]
  refine meets_bind (P := fun st' s' => st' = st ∧ s' = s) (meets_ofOption hfix ⟨rfl, rfl⟩) ?_
  rintro _ _ ⟨rfl, rfl⟩
  refine meets_pure ⟨rfl, _, rfl, rfl, fun _ => ?_, fun h => (by cases h), ?_⟩
  · rw [hst]
    exact hbinary
  · rw [hst, if_pos rfl]
    exact hrest

/-- The operator waits for its second operand. -/
theorem afterOperator_meets {e : ExpressionState} {right : ExpressionKind}
    {lefts : List ExpressionKind} (hoperations : e.operations = right :: lefts)
    (hright : right.isBinary = true) (hlefts : ∀ op ∈ lefts, op.isBinary = true)
    (hcounts : e.toStacks.Counts (right :: lefts) 1) :
    (afterOperator e s).Meets total fun r s' => s' = s ∧ ∃ e', r = .again e' ∧ Balanced e' := by
  obtain ⟨st, hreduce, hbinary, hrest⟩ := Stacks.reduceLeft_counts hright lefts e.toStacks hlefts
    hcounts
  unfold afterOperator
  rw [hoperations]
  refine meets_bind (P := fun st' s' => st' = st ∧ s' = s) (meets_ofOption hreduce ⟨rfl, rfl⟩) ?_
  rintro _ _ ⟨rfl, rfl⟩
  refine meets_pure ⟨rfl, _, rfl, fun h => (by cases h), fun _ => ?_, hrest⟩
  exact ⟨[], _, rfl, fun _ h => absurd h List.not_mem_nil, hbinary⟩

/-- The assertion at the end holds. -/
theorem endExpression_meets {e : ExpressionState} (h : Balanced e) (hoperator : e.isOperator = true) :
    (endExpression e s).Meets total fun r s' => s' = s ∧ ∃ expr, r = .finish (some expr) := by
  have hcounts := h.counts
  rw [if_pos hoperator] at hcounts
  obtain ⟨st, expr, hreduce, hst, hexpr⟩ := Stacks.reduceAll_counts e.operations e.toStacks
    (h.binary hoperator) hcounts
  unfold endExpression
  refine meets_bind (P := fun st' s' => st' = st ∧ s' = s) (meets_ofOption hreduce ⟨rfl, rfl⟩) ?_
  rintro _ _ ⟨rfl, rfl⟩
  rw [hst, hexpr]
  exact meets_pure ⟨rfl, _, rfl⟩

/-- An operand that was finished without a token makes a round that took one. -/
theorem roundPost_of_operand {isOperator : Bool} {s₁ : State} {r : ExpressionStep} {e' : ExpressionState}
    (hadvanced : Advanced s s₁) (hlt : s.head < stream.tokens.length) (hr : r = .again e')
    (hbalanced : Balanced e') (hs : s' = s₁) : RoundPost stream isOperator s r s' := by
  subst hr hs
  exact ⟨hbalanced, hadvanced, hlt⟩

theorem memberStep_meets {e : ExpressionState} (h : Balanced e) (hoperator : e.isOperator = true)
    (hlt : s.head < stream.tokens.length) :
    (memberStep stream e s).Meets total (RoundPost stream e.isOperator s) := by
  have hcounts := h.counts
  rw [if_pos hoperator] at hcounts
  unfold memberStep
  rw [getloc_bind, advance_bind, gettok_bind]
  have hfirst := Advanced.advance s Nat.one_pos
  refine meets_ite (fun _ => ?_) fun _ => ?_
  · rw [getloc_bind, report_bind]
    exact meets_pure (Failed.after hfirst.later (Failed.report _ _ _))
  · rw [advance_bind]
    have hsecond := hfirst.before (Later.advance _ 1)
    cases hes : e.expressions with
    | nil =>
        have hexpressions := h.expressions_length hoperator
        rw [hes] at hexpressions
        cases hexpressions
    | cons left expressions =>
        refine Result.Meets.mono (afterOperand_meets (List.nil_append e.operations).symm
          (fun _ h => absurd h List.not_mem_nil) (h.binary hoperator) (hcounts.setBack hes))
          fun r s' hr => ?_
        obtain ⟨hs, e', hagain, -, hbalanced⟩ := hr
        exact roundPost_of_operand hsecond hlt hagain hbalanced hs

theorem indexStep_meets {e : ExpressionState} {parse : ParserM (Option Expression)} {depth : ℕ}
    (h : Balanced e) (hoperator : e.isOperator = true) (hlt : s.head < stream.tokens.length)
    (hparse : Sound total stream (s.head + 1) depth parse)
    (hdepth : total → remaining stream s ≤ depth) :
    (indexStep stream parse e s).Meets total (RoundPost stream e.isOperator s) := by
  have hcounts := h.counts
  rw [if_pos hoperator] at hcounts
  unfold indexStep
  rw [getloc_bind, advance_bind]
  have hfirst := Advanced.advance s Nat.one_pos
  cases hes : e.expressions with
  | nil =>
      have hexpressions := h.expressions_length hoperator
      rw [hes] at hexpressions
      cases hexpressions
  | cons left expressions =>
      refine meets_bind (hparse _ (Nat.le_refl _) fun htotal =>
        Nat.lt_of_lt_of_le (hfirst.remaining_lt hlt) (hdepth htotal)) fun right s₁ hright => ?_
      have hsecond := hfirst.before hright.later
      rw [gettok_bind]
      refine meets_ite (fun _ => ?_) fun _ => ?_
      · rw [getloc_bind, report_bind]
        exact meets_pure (Failed.after hsecond.later (Failed.report _ _ _))
      · rw [advance_bind]
        have hthird := hsecond.before (Later.advance s₁ 1)
        refine Result.Meets.mono (afterOperand_meets (List.nil_append e.operations).symm
          (fun _ h => absurd h List.not_mem_nil) (h.binary hoperator) (hcounts.setBack hes))
          fun r s' hr => ?_
        obtain ⟨hs, e', hagain, -, hbalanced⟩ := hr
        exact roundPost_of_operand hthird hlt hagain hbalanced hs

theorem operatorStep_meets {e : ExpressionState} {parse : ParserM (Option Expression)} {depth : ℕ}
    (h : Balanced e) (hoperator : e.isOperator = true)
    (hparse : Sound total stream (s.head + 1) depth parse)
    (hdepth : total → remaining stream s ≤ depth) :
    (operatorStep stream parse e s).Meets total (RoundPost stream e.isOperator s) := by
  have hcounts := h.counts
  rw [if_pos hoperator] at hcounts
  unfold operatorStep
  rw [gettok_bind, gettok_one_bind]
  cases hof : operatorOf (tokenAt stream s.head) (tokenAt stream (s.head + 1)) with
  | some operator =>
      obtain ⟨kind, n⟩ := operator
      have hlt : s.head < stream.tokens.length := by
        apply lt_length_of_ne_eof
        intro heof
        rw [operatorOf_eof heof] at hof
        cases hof
      have hadvanced := Advanced.advance s (length_pos_of_operatorOf hof)
      simp only
      rw [getloc_bind, advance_bind]
      refine meets_ite (fun hnotPostfix => ?_) fun hnotPostfix => ?_
      · have hunary := isUnary_of_isPostfix hnotPostfix
        have hne : kind ≠ .cast := by
          rintro rfl
          cases hnotPostfix
        have hall : ∀ op ∈ [kind], op.isUnary = true := by
          intro op hmem
          rwa [List.mem_singleton.mp hmem]
        refine Result.Meets.mono (afterOperand_meets rfl hall (h.binary hoperator)
          (hcounts.pushUnary hunary hne s.head)) fun r s' hr => ?_
        obtain ⟨hs, e', hagain, -, hbalanced⟩ := hr
        exact roundPost_of_operand hadvanced hlt hagain hbalanced hs
      · have hbinary := isBinary_of_operatorOf hof (by simpa using hnotPostfix)
        refine Result.Meets.mono (afterOperator_meets rfl hbinary (h.binary hoperator)
          (hcounts.pushBinary hbinary s.head)) fun r s' hr => ?_
        obtain ⟨hs, e', hagain, hbalanced⟩ := hr
        exact roundPost_of_operand hadvanced hlt hagain hbalanced hs
  | none =>
      refine meets_ite (fun hdot => ?_) fun _ => meets_ite (fun hbracket => ?_) fun _ => ?_
      · exact memberStep_meets h hoperator (lt_length_of_ne_eof stream (by
          rw [hdot]; exact TokenKind.noConfusion))
      · exact indexStep_meets h hoperator (lt_length_of_ne_eof stream (by
          rw [hbracket]; exact TokenKind.noConfusion)) hparse hdepth
      · refine (endExpression_meets h hoperator).mono fun r s' hr => ?_
        obtain ⟨rfl, expr, rfl⟩ := hr
        exact ⟨hoperator, Later.refl _⟩

/-- What a round of a loop over parts leaves: it goes on behind a token, or it ends like a
function that starts here. -/
def PartPost (stream : TokenStream) (s : State) : LoopStep β (Option α) → State → Prop
  | .again _, s' => Advanced s s' ∧ s.head < stream.tokens.length
  | .finish r, s' => Returns s r s'

theorem argumentRound_meets {parse : ParserM (Option Expression)} {depth : ℕ}
    (hparse : Sound total stream s.head depth parse)
    (hdepth : total → remaining stream s < depth) (arguments : List Expression) :
    (argumentRound stream parse arguments s).Meets total (PartPost stream s) := by
  unfold argumentRound
  rw [gettok_bind]
  refine meets_ite (fun _ => ?_) fun heof => meets_ite (fun _ => ?_) fun _ => ?_
  · rw [getloc_bind, report_bind]
    exact meets_pure (Failed.report _ _ _)
  · rw [advance_bind]
    exact meets_pure (Advanced.advance s Nat.one_pos)
  · have hlt := lt_length_of_ne_eof stream heof
    refine meets_bind (hparse s (Nat.le_refl _) hdepth) fun r s₁ hr => ?_
    cases r with
    | none => exact meets_pure hr
    | some expr =>
        have hadvanced : Advanced s s₁ := hr
        dsimp only
        rw [gettok_bind]
        refine meets_ite (fun _ => ?_) fun _ => meets_ite (fun _ => ?_) fun _ => ?_
        · rw [advance_bind]
          exact meets_pure ⟨hadvanced.before (Later.advance s₁ 1), hlt⟩
        · exact meets_pure ⟨hadvanced, hlt⟩
        · rw [getloc_bind, report_bind]
          exact meets_pure (Failed.after hadvanced.later (Failed.report _ _ _))

/-- A loop over parts returns like one function, behind at least one token. -/
theorem meets_parts (stream : TokenStream) {round : β → ParserM (LoopStep β (Option α))}
    (hround : ∀ b s₁, s.head ≤ s₁.head → (round b s₁).Meets total (PartPost stream s₁)) (b : β) :
    (loop round (bound stream) b s).Meets total (Returns s) := by
  refine meets_loop (fun _ s₁ => Later s s₁) (remaining stream) (fun b s₁ h => ?_)
    (bound stream) b s (Later.refl s) fun _ => ?_
  · refine (hround b s₁ h.head).mono fun r s₂ hr => ?_
    cases r with
    | again b' => exact ⟨h.trans hr.1.later, hr.1.remaining_lt hr.2⟩
    | finish r => exact Returns.after h hr
  · unfold remaining bound
    omega

theorem identifierOperand_meets {parse : ParserM (Option Expression)} {depth : ℕ}
    (hlt : s.head < stream.tokens.length)
    (hparse : Sound total stream (s.head + 1) depth parse)
    (hdepth : total → remaining stream s ≤ depth) (name : String) :
    (identifierOperand stream parse name s).Meets total (Returns s) := by
  unfold identifierOperand
  rw [getloc_bind, advance_bind, gettok_bind]
  have hfirst := Advanced.advance s Nat.one_pos
  refine meets_ite (fun _ => ?_) fun _ => meets_pure hfirst
  rw [advance_bind]
  have hsecond := hfirst.before (Later.advance _ 1)
  refine meets_bind (meets_parts stream (fun arguments s₁ hhead => ?_) []) fun r s₁ hr => ?_
  · refine argumentRound_meets (hparse.mono ?_ (Nat.le_refl _)) (fun htotal => ?_) arguments
    · exact Nat.le_trans (Nat.le_succ _) hhead
    · have hless := hfirst.remaining_lt hlt
      have hle := hdepth htotal
      unfold remaining at hless hle ⊢
      have hhead' : s.head + 1 + 1 ≤ s₁.head := hhead
      omega
  · cases r with
    | none => exact meets_pure (Failed.after hsecond.later hr)
    | some arguments => exact meets_pure (Advanced.after hsecond.later hr)

theorem parenthesised_meets {parse : ParserM (Option Expression)} {depth : ℕ}
    (hlt : s.head < stream.tokens.length)
    (hparse : Sound total stream (s.head + 1) depth parse)
    (hdepth : total → remaining stream s ≤ depth) :
    (parenthesised stream parse s).Meets total (Returns s) := by
  unfold parenthesised
  rw [advance_bind]
  have hfirst := Advanced.advance s Nat.one_pos
  refine meets_bind (hparse _ (Nat.le_refl _) fun htotal =>
    Nat.lt_of_lt_of_le (hfirst.remaining_lt hlt) (hdepth htotal)) fun r s₁ hr => ?_
  cases r with
  | none => exact meets_pure (Failed.after hfirst.later hr)
  | some expr =>
      have hsecond := hfirst.before (Advanced.later hr)
      dsimp only
      rw [gettok_bind]
      refine meets_ite (fun _ => ?_) fun _ => ?_
      · rw [advance_bind]
        exact meets_pure (hsecond.before (Later.advance s₁ 1))
      · rw [getloc_bind]
        exact (meets_fail _ _).mono fun r s' hr => Returns.after hsecond.later hr

/-- An operand that is read starts with a token. -/
theorem operand_meets {parse : ParserM (Option Expression)} {depth : ℕ} (e : ExpressionState)
    (hparse : Sound total stream (s.head + 1) depth parse)
    (hdepth : total → remaining stream s ≤ depth) :
    (operand stream parse e s).Meets total fun r s' =>
      Returns s r s' ∧ (r.isSome → s.head < stream.tokens.length) := by
  unfold operand
  rw [gettok_bind, gettok_one_bind]
  have hlength : ∀ {kind}, (tokenAt stream s.head).type = kind → kind ≠ .eof →
      s.head < stream.tokens.length :=
    fun htype hne => lt_length_of_ne_eof stream fun heof => hne (htype.symm.trans heof)
  refine meets_ite (fun hid => ?_) fun _ => ?_
  · have hlt := hlength hid TokenKind.noConfusion
    exact (identifierOperand_meets hlt hparse hdepth e.name).mono fun r s' hr => ⟨hr, fun _ => hlt⟩
  cases hliteral : literalOf (tokenAt stream s.head) (tokenAt stream (s.head + 1)) e with
  | some literal =>
      obtain ⟨kind, payload, n⟩ := literal
      have hlt : s.head < stream.tokens.length := lt_length_of_ne_eof stream fun heof => by
        rw [literalOf_eof heof] at hliteral
        cases hliteral
      dsimp only
      rw [getloc_bind, advance_bind]
      exact meets_pure ⟨Advanced.advance s (length_pos_of_literalOf hliteral), fun _ => hlt⟩
  | none =>
      refine meets_ite (fun hsizeof => ?_) fun _ => meets_ite (fun hparen => ?_) fun _ => ?_
      · have hlt := hlength hsizeof TokenKind.noConfusion
        rw [getloc_bind, advance_bind]
        refine meets_bind parseType_meets fun type s' htype => meets_pure ⟨?_, fun _ => hlt⟩
        exact (Advanced.advance s Nat.one_pos).before htype.1
      · have hlt := hlength hparen TokenKind.noConfusion
        exact (parenthesised_meets hlt hparse hdepth).mono fun r s' hr => ⟨hr, fun _ => hlt⟩
      · rw [getloc_bind]
        unfold fail
        rw [report_bind]
        exact meets_pure ⟨Failed.report _ _ _, fun hsome => by cases hsome⟩

theorem operandStep_meets {e : ExpressionState} {parse : ParserM (Option Expression)} {depth : ℕ}
    (h : Balanced e) (hoperator : e.isOperator = false)
    (hparse : Sound total stream (s.head + 1) depth parse)
    (hdepth : total → remaining stream s ≤ depth) :
    (operandStep stream parse e s).Meets total (RoundPost stream e.isOperator s) := by
  have hcounts := h.counts
  rw [if_neg (by rw [hoperator]; exact Bool.false_ne_true)] at hcounts
  obtain ⟨unary, binary, hoperations, hunary, hbinary⟩ := h.pending hoperator
  unfold operandStep
  rw [gettok_bind, gettok_one_bind]
  cases hof : prefixOf (tokenAt stream s.head) (tokenAt stream (s.head + 1)) with
  | some operator =>
      obtain ⟨kind, n⟩ := operator
      have hlt : s.head < stream.tokens.length := lt_length_of_ne_eof stream fun heof => by
        rw [prefixOf_eof heof] at hof
        cases hof
      have hkind := isUnary_of_appendOf hof
      have hadvanced := Advanced.advance s (length_pos_of_appendOf hof)
      have hpending : ∃ unary' binary', kind :: e.operations = unary' ++ binary' ∧
          (∀ op ∈ unary', op.isUnary = true) ∧ ∀ op ∈ binary', op.isBinary = true := by
        refine ⟨kind :: unary, binary, by rw [hoperations]; rfl, ?_, hbinary⟩
        intro op hmem
        rcases List.mem_cons.mp hmem with rfl | hmem
        · exact hkind
        · exact hunary op hmem
      have hmissing : (if e.isOperator = true then 0 else 1) = 1 := by rw [hoperator]; rfl
      dsimp only
      rw [getloc_bind, advance_bind]
      refine meets_ite (fun hcast => ?_) fun hcast => ?_
      · subst hcast
        refine meets_bind parseType_meets fun type s' htype => meets_pure ?_
        refine ⟨⟨fun h => absurd (h.symm.trans hoperator) (by decide), fun _ => hpending, ?_⟩,
          hadvanced.before htype.1, hlt⟩
        change Stacks.Counts (.cast :: e.operations) (if e.isOperator = true then 0 else 1) _
        rw [hmissing]
        exact hcounts.pushCast s.head type
      · refine meets_pure ⟨⟨fun h => absurd (h.symm.trans hoperator) (by decide),
          fun _ => hpending, ?_⟩, hadvanced, hlt⟩
        change Stacks.Counts (kind :: e.operations) (if e.isOperator = true then 0 else 1) _
        rw [hmissing]
        exact hcounts.pushUnary hkind hcast s.head
  | none =>
      refine meets_bind (operand_meets e hparse hdepth) fun r s₁ hr => ?_
      obtain ⟨hreturns, hlt⟩ := hr
      cases r with
      | none => exact meets_pure hreturns
      | some expr =>
          rw [hoperations] at hcounts
          refine Result.Meets.mono (afterOperand_meets hoperations hunary hbinary
            (hcounts.pushExpression expr)) fun r s' hr => ?_
          obtain ⟨hs, e', hagain, -, hbalanced⟩ := hr
          exact roundPost_of_operand hreturns (hlt rfl) hagain hbalanced hs

theorem store_isOperator (payload : Payload) (e : ExpressionState) :
    (e.store payload).isOperator = e.isOperator := by
  cases payload <;> rfl

theorem expressionRound_meets {e : ExpressionState} {parse : ParserM (Option Expression)}
    {depth : ℕ} (h : Balanced e) (hparse : Sound total stream (s.head + 1) depth parse)
    (hdepth : total → remaining stream s ≤ depth) :
    (expressionRound stream parse e s).Meets total (RoundPost stream e.isOperator s) := by
  unfold expressionRound
  rw [gettok_bind]
  have hstore := h.store (stream.payload (tokenAt stream s.head))
  rw [← store_isOperator (stream.payload (tokenAt stream s.head)) e]
  refine meets_ite (fun hoperator => ?_) fun hoperator => ?_
  · exact operatorStep_meets hstore hoperator hparse hdepth
  · exact operandStep_meets hstore (by simpa using hoperator) hparse hdepth

theorem balanced_start (garbage : BitVec 32) : Balanced { decimal := garbage } where
  binary h := by cases h
  pending _ := ⟨[], [], rfl, fun _ h => absurd h List.not_mem_nil, fun _ h => absurd h List.not_mem_nil⟩
  counts := ⟨rfl, rfl, rfl⟩

/-- `parseExpression` calls itself behind its first token only. -/
theorem expressionBody_meets {garbage : BitVec 32} {parse : ParserM (Option Expression)} {depth : ℕ}
    (hparse : Sound total stream (s.head + 1) depth parse)
    (hdepth : total → remaining stream s ≤ depth) :
    (expressionBody stream garbage parse s).Meets total (Returns s) := by
  refine meets_loop (fun e s₁ => Balanced e ∧ Later s s₁ ∧
      (e.isOperator = true → Advanced s s₁)) (remaining stream) (fun e s₁ h => ?_)
    (bound stream) _ s ⟨balanced_start garbage, Later.refl s, fun h => by cases h⟩ fun _ => ?_
  · obtain ⟨hbalanced, hlater, hadvanced⟩ := h
    have hround := expressionRound_meets hbalanced
      (hparse.mono (Nat.succ_le_succ hlater.head) (Nat.le_refl _)) fun htotal =>
        Nat.le_trans hlater.remaining_le (hdepth htotal)
    refine hround.mono fun r s₂ hr => ?_
    match r, hr with
    | .again e', ⟨hbalanced', hadvanced', hlt⟩ =>
        exact ⟨⟨hbalanced', hlater.trans hadvanced'.later, fun _ => hadvanced'.after hlater⟩,
          hadvanced'.remaining_lt hlt⟩
    | .finish none, hfailed => exact Failed.after hlater hfailed
    | .finish (some expr), ⟨hoperator, hlater'⟩ => exact (hadvanced hoperator).before hlater'
  · unfold remaining bound
    omega

theorem parseExpressionAt_sound (garbage : BitVec 32) : ∀ (depth head : ℕ),
    Sound total stream head depth (parseExpressionAt stream garbage depth) := by
  intro depth
  induction depth with
  | zero => exact fun head s _ hdepth htotal => absurd (hdepth htotal) (Nat.not_lt_zero _)
  | succ depth ih =>
      intro head s _ hdepth
      exact expressionBody_meets (ih _) fun htotal => Nat.le_of_lt_succ (hdepth htotal)

theorem remaining_lt_bound (s : State) : remaining stream s < bound stream := by
  unfold remaining bound
  omega

theorem parseExpression_meets (garbage : BitVec 32) :
    (parseExpression stream garbage s).Meets total (Returns s) :=
  parseExpressionAt_sound garbage (bound stream) 0 s (Nat.zero_le _) fun _ => remaining_lt_bound s

/-- The four stacks at the start of every round of every call of `parseExpression`, from any
state and with any depth that is left; neither an empty stack nor the default case of
`GetPrecedence` nor the failing of the last assertion is ever reached. -/
theorem parseExpression_stacks (garbage : BitVec 32) (depth : ℕ) (s : State) :
    (∀ e s', Rounds (expressionRound stream (parseExpressionAt stream garbage depth))
        { decimal := garbage } s e s' →
      (e.isOperator = true → e.expressions.length = e.operations.length + 1 ∧
        ∀ op ∈ e.operations, op.isBinary = true) ∧
      e.castStrings.length = e.operations.count .cast ∧
      e.savedLocations.length = e.operations.length) ∧
    parseExpressionAt stream garbage (depth + 1) s ≠ .fault := by
  have hsound : ∀ head, Sound False stream head depth (parseExpressionAt stream garbage depth) :=
    fun head => parseExpressionAt_sound garbage depth head
  refine ⟨fun e s' hrounds => ?_, ?_⟩
  · have hbalanced : Balanced e := by
      refine hrounds.invariant (fun e _ => Balanced e) (fun e s hinv e' s' hround => ?_)
        (balanced_start garbage)
      exact ((expressionRound_meets hinv (hsound _) False.elim).of_done hround).1
    refine ⟨fun hoperator => ?_, hbalanced.counts.casts, hbalanced.counts.locations⟩
    exact ⟨hbalanced.expressions_length hoperator, hbalanced.binary hoperator⟩
  · have hmeets : (parseExpressionAt stream garbage (depth + 1) s).Meets False (Returns s) :=
      parseExpressionAt_sound garbage (depth + 1) 0 s (Nat.zero_le _) False.elim
    exact hmeets.ne_fault

/-! ## Declarations and statements -/

section Statements

variable {garbage : BitVec 32}

/-- The rest of a function behind a part that has succeeded. -/
theorem returns_after {x : ParserM (Option α)} {s₁ : State} (h : Later s s₁)
    (hx : (x s₁).Meets total (Returns s₁)) : (x s₁).Meets total (Returns s) :=
  hx.mono fun _ _ hr => Returns.after h hr

/-- The first part of a function: it either ends the function or takes a token. -/
theorem meets_first {x : ParserM (Option α)} {f : Option α → ParserM (Option β)}
    (hx : (x s).Meets total (Returns s)) (hnone : ∀ s₁, f none s₁ = .done none s₁)
    (hsome : ∀ a s₁, Advanced s s₁ → (f (some a) s₁).Meets total (Returns s)) :
    ((x >>= f) s).Meets total (Returns s) := by
  refine meets_bind hx fun r s₁ hr => ?_
  cases r with
  | none =>
      rw [hnone]
      exact hr
  | some a => exact hsome a s₁ hr

theorem closeStatement_meets (statement : Statement) :
    (closeStatement stream statement s).Meets total (Returns s) :=
  meets_first (meets_expect _ _) (fun _ => rfl) fun _ _ h => meets_pure h

theorem initializer_meets {s₀ : State} (hadvanced : Advanced s₀ s) (kind : DeclarationKind)
    (name type : String) (location : SourceLocation) :
    (initializer stream garbage kind name type location s).Meets total (Returns s₀) := by
  unfold initializer
  rw [gettok_bind]
  refine meets_ite (fun _ => meets_ite (fun _ => meets_pure hadvanced) fun _ => ?_) fun _ => ?_
  · rw [getloc_bind]
    exact returns_after hadvanced.later (meets_fail _ _)
  · rw [getloc_bind, advance_bind]
    have hlater := hadvanced.later.trans (Later.advance s 1)
    refine meets_ite (fun _ => returns_after hlater (meets_fail _ _)) fun _ => ?_
    refine meets_bind (parseExpression_meets garbage) fun r s₁ hr => ?_
    cases r with
    | none => exact meets_pure (Failed.after hlater hr)
    | some expr => exact meets_pure (Advanced.after hlater hr)

theorem parseDeclaration_meets (kind : DeclarationKind) :
    (parseDeclaration stream garbage kind s).Meets total (Returns s) := by
  unfold parseDeclaration
  rw [getloc_bind, gettok_bind, advance_bind, getloc_bind]
  have hfirst := Advanced.advance s Nat.one_pos
  refine meets_bind (meets_expect _ _) fun r s₁ hr => ?_
  cases r with
  | none => exact meets_pure (Failed.after hfirst.later hr)
  | some _ =>
      have hsecond := hfirst.before (Advanced.later hr)
      refine meets_bind parseType_meets fun type s₂ htype => ?_
      have hthird := hsecond.before htype.1
      refine meets_ite (fun _ => ?_) fun _ => ?_
      · exact returns_after hthird.later (meets_fail _ _)
      · exact initializer_meets hthird kind _ type _

theorem declarationStatement_meets (kind : DeclarationKind) :
    (declarationStatement stream garbage kind s).Meets total (Returns s) :=
  meets_first (parseDeclaration_meets kind) (fun _ => rfl) fun statement _ h =>
    returns_after h.later (closeStatement_meets statement)

theorem expressionStatement_meets (location : SourceLocation) :
    (expressionStatement stream garbage location s).Meets total (Returns s) :=
  meets_first (parseExpression_meets garbage) (fun _ => rfl) fun _ _ h =>
    returns_after h.later (closeStatement_meets _)

theorem returnStatement_meets (location : SourceLocation) :
    (returnStatement stream garbage location s).Meets total (Returns s) := by
  unfold returnStatement
  rw [advance_bind, gettok_bind]
  have hfirst := Advanced.advance s Nat.one_pos
  refine meets_ite (fun _ => ?_) fun _ => returns_after hfirst.later (closeStatement_meets _)
  refine returns_after hfirst.later ?_
  exact meets_first (parseExpression_meets garbage) (fun _ => rfl) fun _ _ h =>
    returns_after h.later (closeStatement_meets _)

/-! ### Statements with bodies -/

/-- A function that is called behind a token, with what is left of the depth. -/
theorem Sound.call {head depth : ℕ} {parse : ParserM (Option α)} {s₁ : State}
    (h : Sound total stream (head + 1) depth parse) (hs : s.head = head)
    (hlt : s.head < stream.tokens.length) (hdepth : total → remaining stream s ≤ depth)
    (hadvanced : Advanced s s₁) : (parse s₁).Meets total (Returns s₁) := by
  subst hs
  exact h s₁ hadvanced.head fun htotal =>
    Nat.lt_of_lt_of_le (hadvanced.remaining_lt hlt) (hdepth htotal)

/-- The contract of `parseIf`, which is only called at a token. -/
def IfSound (total : Prop) (stream : TokenStream) (head depth : ℕ)
    (parseIf : ParserM (Option Statement)) : Prop :=
  ∀ s, head ≤ s.head → s.head < stream.tokens.length → (total → remaining stream s < depth) →
    (parseIf s).Meets total (Returns s)

theorem IfSound.onlyAbove {head depth : ℕ} {parseIf : ParserM (Option Statement)}
    (h : IfSound total stream (head + 1) depth parseIf) :
    IfSound total stream (head + 1) depth (onlyAbove head parseIf) := by
  intro s hhead hlt hdepth
  rw [ParseContext.onlyAbove, if_pos (Nat.lt_of_succ_le hhead)]
  exact h s hhead hlt hdepth

theorem ifBody_meets {parseIf : ParserM (Option Statement)} {parseBody : ParserM (Option Body)}
    {depth depth' : ℕ} (currentScopeId : ScopeId) (hlt : s.head < stream.tokens.length)
    (hif : IfSound total stream (s.head + 1) depth parseIf)
    (hbody : Sound total stream (s.head + 1) depth' parseBody)
    (hdepth : total → remaining stream s ≤ depth) (hdepth' : total → remaining stream s ≤ depth') :
    (ifBody stream garbage parseIf parseBody currentScopeId s).Meets total (Returns s) := by
  unfold ifBody
  rw [advance_bind]
  have hfirst := Advanced.advance s Nat.one_pos
  refine meets_bind (parseExpression_meets garbage) fun r s₁ hr => ?_
  cases r with
  | none => exact meets_pure (Failed.after hfirst.later hr)
  | some condition =>
  have hsecond := hfirst.before (Advanced.later hr)
  refine meets_bind (hbody.call rfl hlt hdepth' hsecond) fun r s₂ hr => ?_
  cases r with
  | none => exact meets_pure (Failed.after hsecond.later hr)
  | some body =>
  have hthird := hsecond.before (Advanced.later hr)
  dsimp only
  rw [gettok_bind]
  refine meets_ite (fun _ => meets_pure hthird) fun _ => ?_
  rw [advance_bind, gettok_bind]
  have hfourth := hthird.before (Later.advance s₂ 1)
  refine meets_ite (fun htype => ?_) fun _ => ?_
  · have hcall := hif { s₂ with head := s₂.head + 1 } hfourth.head
      (lt_length_of_ne_eof stream (by rw [htype]; exact TokenKind.noConfusion)) fun htotal =>
        Nat.lt_of_lt_of_le (hfourth.remaining_lt hlt) (hdepth htotal)
    refine meets_bind hcall fun r s₃ hr => ?_
    cases r with
    | none => exact meets_pure (Failed.after hfourth.later hr)
    | some statement => exact meets_pure (hfourth.before (Advanced.later hr))
  · -- a missing body is not an error of `parseIf`
    refine meets_bind (hbody.call rfl hlt hdepth' hfourth) fun elseBody s₃ hr => ?_
    exact meets_pure (hfourth.before hr.later)

theorem parseIfAt_sound {parseBody : ParserM (Option Body)} {head depth' : ℕ}
    (currentScopeId : ScopeId) (hbody : Sound total stream (head + 1) depth' parseBody)
    (hdepth' : total → stream.tokens.length ≤ head + depth') :
    ∀ (depth head' : ℕ), head ≤ head' →
      IfSound total stream head' depth (parseIfAt stream garbage parseBody currentScopeId depth) := by
  intro depth
  induction depth with
  | zero => exact fun head' _ s _ _ hdepth htotal => absurd (hdepth htotal) (Nat.not_lt_zero _)
  | succ depth ih =>
      intro head' hle s hhead hlt hdepth
      have hstart := Nat.le_trans hle hhead
      refine ifBody_meets currentScopeId hlt (ih _ (Nat.le_succ_of_le hstart))
        (hbody.mono (Nat.succ_le_succ hstart) (Nat.le_refl _))
        (fun htotal => Nat.le_of_lt_succ (hdepth htotal)) fun htotal => ?_
      have hbound := hdepth' htotal
      unfold remaining
      omega

theorem parseWhile_meets {parseBody : ParserM (Option Body)} {depth : ℕ}
    (htype : (tokenAt stream s.head).type = .while)
    (hbody : Sound total stream (s.head + 1) depth parseBody)
    (hdepth : total → remaining stream s ≤ depth) :
    (parseWhile stream garbage parseBody s).Meets total (Returns s) := by
  have hlt : s.head < stream.tokens.length :=
    lt_length_of_ne_eof stream (by rw [htype]; exact TokenKind.noConfusion)
  unfold parseWhile
  rw [gettok_bind]
  refine meets_ite (fun hne => absurd htype hne) fun _ => ?_
  rw [advance_bind]
  have hfirst := Advanced.advance s Nat.one_pos
  refine meets_bind (parseExpression_meets garbage) fun r s₁ hr => ?_
  cases r with
  | none => exact meets_pure (Failed.after hfirst.later hr)
  | some condition =>
  have hsecond := hfirst.before (Advanced.later hr)
  refine meets_bind (hbody.call rfl hlt hdepth hsecond) fun r s₂ hr => ?_
  cases r with
  | none => exact meets_pure (Failed.after hsecond.later hr)
  | some body => exact meets_pure (hsecond.before (Advanced.later hr))

theorem Returns.map {r : Option α} (f : α → β) (h : Returns s r s') : Returns s (r.map f) s' := by
  cases r <;> exact h

/-- A statement starts with a token. -/
theorem statementOf_meets {parseBody : ParserM (Option Body)} {depth : ℕ}
    (currentScopeId : ScopeId) (hlt : s.head < stream.tokens.length)
    (hbody : Sound total stream (s.head + 1) depth parseBody)
    (hdepth : total → remaining stream s ≤ depth) :
    (statementOf stream garbage parseBody currentScopeId s).Meets total (Returns s) := by
  unfold statementOf
  rw [gettok_bind, getloc_bind]
  have hfirst := Advanced.advance s Nat.one_pos
  cases htype : (tokenAt stream s.head).type with
  | «if» =>
      have hif : IfSound total stream s.head (bound stream)
          (parseIfAt stream garbage parseBody currentScopeId (bound stream)) := by
        refine parseIfAt_sound currentScopeId hbody (fun htotal => ?_) (bound stream) s.head
          (Nat.le_refl _)
        have hle := hdepth htotal
        unfold remaining at hle
        omega
      exact meets_bind (hif s (Nat.le_refl _) hlt fun _ => remaining_lt_bound s) fun r s' hr => meets_pure (hr.map _)
  | «while» =>
      exact meets_bind (parseWhile_meets htype hbody hdepth) fun r s' hr => meets_pure (hr.map _)
  | «return» => exact returnStatement_meets s.head
  | «continue» =>
      dsimp only
      rw [advance_bind]
      exact returns_after hfirst.later (closeStatement_meets _)
  | «break» =>
      dsimp only
      rw [advance_bind]
      exact returns_after hfirst.later (closeStatement_meets _)
  | global =>
      dsimp only
      rw [advance_bind]
      exact returns_after hfirst.later (declarationStatement_meets _)
  | const =>
      dsimp only
      rw [advance_bind]
      exact returns_after hfirst.later (declarationStatement_meets _)
  | struct => exact meets_fail _ _
  | function => exact meets_fail _ _
  | _ =>
      dsimp only
      rw [gettok_one_bind]
      exact meets_ite (fun _ => declarationStatement_meets _) fun _ => expressionStatement_meets _

theorem bodyRound_meets {parseBody : ParserM (Option Body)} {depth : ℕ} (currentScopeId : ScopeId)
    (hbody : Sound total stream (s.head + 1) depth parseBody)
    (hdepth : total → remaining stream s ≤ depth) (statements : List Statement) :
    (bodyRound stream garbage parseBody currentScopeId statements s).Meets total
      (PartPost stream s) := by
  unfold bodyRound
  rw [gettok_bind]
  refine meets_ite (fun _ => ?_) fun heof => meets_ite (fun _ => ?_) fun _ => ?_
  · rw [getloc_bind, report_bind]
    exact meets_pure (Failed.report _ _ _)
  · rw [advance_bind]
    exact meets_pure (Advanced.advance s Nat.one_pos)
  · have hlt := lt_length_of_ne_eof stream heof
    refine meets_bind (statementOf_meets currentScopeId hlt hbody hdepth) fun r s' hr => ?_
    cases r with
    | none => exact meets_pure hr
    | some statement => exact meets_pure ⟨hr, hlt⟩

/-- `parseBody` calls itself behind the curly brace only. -/
theorem bodyBody_meets {parseBody : ScopeId → ParserM (Option Body)} {depth : ℕ}
    (currentScopeId : ScopeId)
    (hbody : ∀ scopeId, Sound total stream (s.head + 1) depth (parseBody scopeId))
    (hdepth : total → remaining stream s ≤ depth) :
    (bodyBody stream garbage parseBody currentScopeId s).Meets total (Returns s) := by
  unfold bodyBody
  have hscope : (createScope currentScopeId s).Meets total fun _ s₁ => Later s s₁ :=
    ⟨Nat.le_refl _, Nat.le_refl _⟩
  refine meets_bind hscope fun scopeId s₀ h₀ => ?_
  refine meets_bind (meets_expect _ _) fun r s₁ hr => ?_
  cases r with
  | none => exact meets_pure (Failed.after h₀ hr)
  | some _ =>
      have hfirst : Advanced s s₁ := Advanced.after h₀ hr
      refine meets_bind (meets_parts stream (fun statements s₂ hhead => ?_) [])
        fun r s₂ hr => ?_
      · refine bodyRound_meets scopeId ((hbody scopeId).mono ?_ (Nat.le_refl _)) (fun htotal => ?_)
          statements
        · exact Nat.succ_le_succ (Nat.le_trans (Nat.le_of_lt hfirst.head) hhead)
        · have hle := hdepth htotal
          have hmore := hfirst.head
          unfold remaining at hle ⊢
          omega
      · cases r with
        | none => exact meets_pure (Failed.after hfirst.later hr)
        | some statements => exact meets_pure (Advanced.after hfirst.later hr)

theorem parseBodyAt_sound : ∀ (depth head : ℕ) (currentScopeId : ScopeId),
    Sound total stream head depth (parseBodyAt stream garbage depth currentScopeId) := by
  intro depth
  induction depth with
  | zero => exact fun head _ s _ hdepth htotal => absurd (hdepth htotal) (Nat.not_lt_zero _)
  | succ depth ih =>
      intro head currentScopeId s _ hdepth
      exact bodyBody_meets currentScopeId (fun scopeId => ih _ scopeId) fun htotal =>
        Nat.le_of_lt_succ (hdepth htotal)

theorem parseBody_meets (currentScopeId : ScopeId) :
    (parseBody stream garbage currentScopeId s).Meets total (Returns s) :=
  parseBodyAt_sound (bound stream) 0 currentScopeId s (Nat.zero_le _) fun _ => remaining_lt_bound s

/-! ## Functions, structures and files -/

theorem parseField_meets (message : String) :
    (parseField stream message s).Meets total (Returns s) := by
  unfold parseField
  rw [gettok_bind, getloc_bind]
  refine meets_first (meets_expect _ _) (fun _ => rfl) fun _ s₁ h₁ => ?_
  refine meets_bind (meets_expect _ _) fun r s₂ hr => ?_
  cases r with
  | none => exact meets_pure (Failed.after h₁.later hr)
  | some _ =>
      have h₂ := h₁.before (Advanced.later hr)
      dsimp only
      rw [getloc_bind]
      refine meets_bind parseType_meets fun type s₃ htype => ?_
      have h₃ := h₂.before htype.1
      exact meets_ite (fun _ => returns_after h₃.later (meets_fail _ _)) fun _ => meets_pure h₃

theorem separator_meets (close : TokenKind) :
    (separator stream close s).Meets total fun r s' => Later s s' ∧ (r = none → Failed s s') := by
  unfold separator
  rw [gettok_bind]
  refine meets_ite (fun _ => ?_) fun _ => meets_ite (fun _ => ?_) fun _ => ?_
  · rw [advance_bind]
    exact meets_pure ⟨Later.advance s 1, fun h => by cases h⟩
  · exact meets_pure ⟨Later.refl s, fun h => by cases h⟩
  · rw [getloc_bind]
    refine (meets_fail _ _).mono fun r s' hr => ⟨hr.later, fun hnone => ?_⟩
    subst hnone
    exact hr

/-- A parameter or a member and what stands behind it. -/
theorem field_meets {next : String × String × SourceLocation → β} (close : TokenKind)
    (message : String) (hlt : s.head < stream.tokens.length)
    {rest : Option (String × String × SourceLocation) → ParserM (LoopStep β (Option α))}
    (hnone : ∀ s₁, rest none s₁ = .done (.finish none) s₁)
    (hsome : ∀ field, rest (some field) = (separator stream close >>= fun r =>
      match r with
      | none => pure (.finish none)
      | some _ => pure (.again (next field)))) :
    ((parseField stream message >>= rest) s).Meets total (PartPost stream s) := by
  refine meets_bind (parseField_meets message) fun r s₁ hr => ?_
  cases r with
  | none =>
      rw [hnone]
      exact hr
  | some field =>
      have hadvanced : Advanced s s₁ := hr
      rw [hsome]
      refine meets_bind (separator_meets close) fun r s₂ hr => ?_
      cases r with
      | none => exact meets_pure (Failed.after hadvanced.later (hr.2 rfl))
      | some _ => exact meets_pure ⟨hadvanced.before hr.1, hlt⟩

/-- The rounds of the parameters; at the end of the file the loop ends with an error. -/
def ParameterPost (stream : TokenStream) (s : State) :
    LoopStep β (Option α) → State → Prop
  | .again _, s' => Advanced s s' ∧ s.head < stream.tokens.length
  | .finish none, s' => Failed s s'
  | .finish (some _), s' => Later s s'

theorem parameterRound_meets (parameters : List (String × String)) :
    (parameterRound stream parameters s).Meets total (ParameterPost stream s) := by
  unfold parameterRound
  rw [gettok_bind]
  refine meets_ite (fun _ => ?_) fun heof => meets_ite (fun _ => ?_) fun _ => ?_
  · rw [getloc_bind, report_bind]
    exact meets_pure (Failed.report _ _ _).later
  · rw [advance_bind]
    exact meets_pure (Later.advance s 1)
  · refine (field_meets (.ascii ')') _ (lt_length_of_ne_eof stream heof) (fun _ => rfl)
      fun _ => rfl).mono fun r s' hr => ?_
    match r, hr with
    | .again _, hagain => exact hagain
    | .finish none, hfailed => exact hfailed
    | .finish (some _), hadvanced => exact Advanced.later hadvanced

theorem memberRound_meets (members : List Member) :
    (memberRound stream members s).Meets total (PartPost stream s) := by
  unfold memberRound
  rw [gettok_bind]
  refine meets_ite (fun _ => ?_) fun heof => meets_ite (fun _ => ?_) fun _ => ?_
  · rw [getloc_bind, report_bind]
    exact meets_pure (Failed.report _ _ _)
  · rw [advance_bind]
    exact meets_pure (Advanced.advance s Nat.one_pos)
  · exact field_meets (.ascii '}') _ (lt_length_of_ne_eof stream heof) (fun _ => rfl) fun _ => rfl

theorem parameters_meets (parameters : List (String × String)) :
    (loop (parameterRound stream) (bound stream) parameters s).Meets total fun r s' =>
      Later s s' ∧ (r = none → Failed s s') := by
  refine meets_loop (fun _ s₁ => Later s s₁) (remaining stream) (fun b s₁ h => ?_)
    (bound stream) parameters s (Later.refl s) fun _ => remaining_lt_bound s
  refine (parameterRound_meets b).mono fun r s₂ hr => ?_
  match r, hr with
  | .again _, ⟨hadvanced, hlt⟩ => exact ⟨h.trans hadvanced.later, hadvanced.remaining_lt hlt⟩
  | .finish none, hfailed => exact ⟨h.trans hfailed.later, fun _ => Failed.after h hfailed⟩
  | .finish (some _), hlater => exact ⟨h.trans hlater, fun hnone => by cases hnone⟩

theorem parseReturnType_meets :
    (parseReturnType stream s).Meets total fun r s' => Later s s' ∧ (r = none → Failed s s') := by
  unfold parseReturnType
  rw [gettok_bind]
  refine meets_ite (fun _ => ?_) fun _ => meets_pure ⟨Later.refl s, fun h => by cases h⟩
  rw [getloc_bind, advance_bind]
  refine meets_bind parseType_meets fun type s₁ htype => ?_
  have hlater := (Later.advance s 1).trans htype.1
  refine meets_ite (fun _ => ?_) fun _ => meets_pure ⟨hlater, fun h => by cases h⟩
  refine (meets_fail _ _).mono fun r s' hr => ⟨hlater.trans hr.later, fun hnone => ?_⟩
  subst hnone
  exact Failed.after hlater hr

theorem parseFunction_meets (currentScopeId : ScopeId)
    (htype : (tokenAt stream s.head).type = .function) :
    (parseFunction stream garbage currentScopeId s).Meets total (Returns s) := by
  unfold parseFunction
  rw [gettok_bind]
  refine meets_ite (fun hne => absurd htype hne) fun _ => ?_
  rw [advance_bind, getloc_bind, gettok_bind]
  have hfirst := Advanced.advance s Nat.one_pos
  refine meets_bind (meets_expect _ _) fun r s₁ hr => ?_
  cases r with
  | none => exact meets_pure (Failed.after hfirst.later hr)
  | some _ =>
  have h₁ := hfirst.before (Advanced.later hr)
  refine meets_bind (meets_expect _ _) fun r s₂ hr => ?_
  cases r with
  | none => exact meets_pure (Failed.after h₁.later hr)
  | some _ =>
  have h₂ := h₁.before (Advanced.later hr)
  refine meets_bind (parameters_meets []) fun r s₃ hr => ?_
  cases r with
  | none => exact meets_pure (Failed.after h₂.later (hr.2 rfl))
  | some parameters =>
  have h₃ := h₂.before hr.1
  refine meets_bind parseReturnType_meets fun r s₄ hr => ?_
  cases r with
  | none => exact meets_pure (Failed.after h₃.later (hr.2 rfl))
  | some returnTypeString =>
  have h₄ := h₃.before hr.1
  refine meets_bind (parseBody_meets currentScopeId) fun r s₅ hr => ?_
  cases r with
  | none => exact meets_pure (Failed.after h₄.later hr)
  | some body => exact meets_pure (h₄.before (Advanced.later hr))

theorem parseStruct_meets (htype : (tokenAt stream s.head).type = .struct) :
    (parseStruct stream s).Meets total (Returns s) := by
  unfold parseStruct
  rw [gettok_bind]
  refine meets_ite (fun hne => absurd htype hne) fun _ => ?_
  rw [advance_bind, getloc_bind, gettok_bind]
  have hfirst := Advanced.advance s Nat.one_pos
  refine meets_bind (meets_expect _ _) fun r s₁ hr => ?_
  cases r with
  | none => exact meets_pure (Failed.after hfirst.later hr)
  | some _ =>
  have h₁ := hfirst.before (Advanced.later hr)
  refine meets_bind (meets_expect _ _) fun r s₂ hr => ?_
  cases r with
  | none => exact meets_pure (Failed.after h₁.later hr)
  | some _ =>
  have h₂ := h₁.before (Advanced.later hr)
  refine meets_bind (meets_parts stream (fun members _ _ => memberRound_meets members) [])
    fun r s₃ hr => ?_
  cases r with
  | none => exact meets_pure (Failed.after h₂.later hr)
  | some members => exact meets_pure (h₂.before (Advanced.later hr))

/-- The rounds of a file; without an import there is an error. -/
def FilePost (stream : TokenStream) (s : State) : LoopStep File (Bool × File) → State → Prop
  | .again _, s' => Advanced s s' ∧ s.head < stream.tokens.length
  | .finish (returned, _), s' => Later s s' ∧ (returned = false → Failed s s')

theorem fileDeclaration_meets (kind : DeclarationKind) (file : File)
    (hlt : s.head < stream.tokens.length) :
    (fileDeclaration stream garbage kind file s).Meets total (FilePost stream s) := by
  unfold fileDeclaration
  rw [advance_bind]
  have hfirst := Advanced.advance s Nat.one_pos
  refine meets_bind (declarationStatement_meets kind) fun r s₁ hr => ?_
  cases r with
  | none =>
      have hfailed := Failed.after hfirst.later hr
      exact meets_pure ⟨hfailed.later, fun _ => hfailed⟩
  | some statement => exact meets_pure ⟨hfirst.before (Advanced.later hr), hlt⟩

theorem fileRound_meets (scopeId : ScopeId) (file : File) :
    (fileRound stream garbage scopeId file s).Meets total (FilePost stream s) := by
  unfold fileRound
  rw [gettok_bind]
  have hlength : ∀ {kind}, (tokenAt stream s.head).type = kind → kind ≠ .eof →
      s.head < stream.tokens.length :=
    fun htype hne => lt_length_of_ne_eof stream fun heof => hne (htype.symm.trans heof)
  cases htype : (tokenAt stream s.head).type with
  | eof => exact meets_pure ⟨Later.refl s, fun h => by cases h⟩
  | struct =>
      refine meets_bind (parseStruct_meets htype) fun r s₁ hr => ?_
      cases r with
      | none => exact meets_pure ⟨Failed.later hr, fun h => by cases h⟩
      | some structure' => exact meets_pure ⟨hr, hlength htype TokenKind.noConfusion⟩
  | function =>
      refine meets_bind (parseFunction_meets scopeId htype) fun r s₁ hr => ?_
      cases r with
      | none => exact meets_pure ⟨Failed.later hr, fun h => by cases h⟩
      | some function => exact meets_pure ⟨hr, hlength htype TokenKind.noConfusion⟩
  | global => exact fileDeclaration_meets _ file (hlength htype TokenKind.noConfusion)
  | const => exact fileDeclaration_meets _ file (hlength htype TokenKind.noConfusion)
  | «import» =>
      dsimp only
      rw [advance_bind, gettok_bind]
      have hfirst := Advanced.advance s Nat.one_pos
      refine meets_ite (fun _ => ?_) fun _ => ?_
      · rw [advance_bind]
        exact meets_pure ⟨hfirst.before (Later.advance _ 1), hlength htype TokenKind.noConfusion⟩
      · rw [getloc_bind, report_bind]
        have hfailed := Failed.after hfirst.later
          (Failed.report _ (s.head + 1) "A string literal is expected after 'import'.")
        exact meets_pure ⟨hfailed.later, fun _ => hfailed⟩
  | _ =>
      dsimp only
      rw [getloc_bind, report_bind]
      have hfailed := Failed.report s s.head "Unexpected token."
      exact meets_pure ⟨hfailed.later, fun _ => hfailed⟩

theorem parseTokenStream_meets :
    (parseTokenStream stream garbage s).Meets total fun r s' =>
      Later s s' ∧ (r.1 = false → Failed s s') := by
  unfold parseTokenStream
  have hscope : (createScope globalScope s).Meets total fun _ s₁ => Later s s₁ :=
    ⟨Nat.le_refl _, Nat.le_refl _⟩
  refine meets_bind hscope fun scopeId s₀ h₀ => ?_
  have hloop : (loop (fileRound stream garbage scopeId) (bound stream) ({} : File) s₀).Meets total
      fun r s' => Later s s' ∧ (r.1 = false → Failed s s') := by
    refine meets_loop (fun _ s₁ => Later s s₁) (remaining stream) (fun file s₁ h => ?_)
      (bound stream) ({} : File) s₀ h₀ fun _ => remaining_lt_bound s₀
    refine (fileRound_meets scopeId file).mono fun r s₂ hr => ?_
    match r, hr with
    | .again _, ⟨hadvanced, hlt⟩ => exact ⟨h.trans hadvanced.later, hadvanced.remaining_lt hlt⟩
    | .finish (returned, file'), ⟨hlater, hfailed⟩ =>
        exact ⟨h.trans hlater, fun hnone => Failed.after h (hfailed hnone)⟩
  exact meets_bind hloop fun r s₁ hr => meets_pure hr

end Statements

end ParseContext

end TinCompiler
