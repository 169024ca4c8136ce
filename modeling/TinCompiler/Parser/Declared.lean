import TinCompiler.Parser.Progress

/-!
# The names of declarations

The parser looks at every token that it takes, but for the name behind `global` and `const`.
`Reads` says of what has been read that the declarations in it are well named exactly if every
such keyword stands in front of an identifier; everything else that is read is `Quiet`.
-/

namespace TinCompiler

namespace ParseContext

open Program

variable {α β : Type} {stream : TokenStream} {garbage : BitVec 32} {s s₁ s₂ s' : State}
  {p q : Prop}

/-! ## What has been read -/

/-- The keywords behind which any token is taken as a name. -/
def isKeyword (type : TokenKind) : Bool := type = .global || type = .const

/-- The tokens that are looked at. -/
def plain (type : TokenKind) : Bool := !isKeyword type && type ≠ .eof

/-- Every keyword stands in front of an identifier. -/
def Named (stream : TokenStream) (i j : ℕ) : Prop :=
  ∀ k, i ≤ k → k < j → isKeyword (tokenAt stream k).type = true → (tokenAt stream (k + 1)).type = .id

/-- An end of the file is only read as a name. -/
def OnlyNames (stream : TokenStream) (i j : ℕ) : Prop :=
  ∀ k, i ≤ k → k < j → (tokenAt stream k).type = .eof →
    i < k ∧ isKeyword (tokenAt stream (k - 1)).type = true

/-- Without an error, `p` says of what has been read what `Named` says. -/
structure Reads (stream : TokenStream) (p : Prop) (s s' : State) : Prop where
  later : Later s s'
  named : s'.reporter.errors = s.reporter.errors → (p ↔ Named stream s.head s'.head)
  onlyNames : s'.reporter.errors = s.reporter.errors → OnlyNames stream s.head s'.head

namespace Reads

theorem of_head (hhead : s'.head = s.head) (hreporter : s'.reporter = s.reporter) :
    Reads stream True s s' := by
  refine ⟨⟨hhead.ge, by rw [hreporter]⟩, fun _ => ?_, fun _ k hle hlt => ?_⟩
  · exact ⟨fun _ k hle hlt => by omega, fun _ => trivial⟩
  · omega

theorem refl (s : State) : Reads stream True s s := of_head rfl rfl

theorem of_failed (h : Failed s s') : Reads stream p s s' :=
  ⟨h.later, fun heq => absurd heq h.errors.ne', fun heq => absurd heq h.errors.ne'⟩

theorem congr (h : Reads stream p s s') (hpq : p ↔ q) : Reads stream q s s' :=
  ⟨h.later, fun heq => hpq.symm.trans (h.named heq), h.onlyNames⟩

theorem trans (h : Reads stream p s s₁) (h' : Reads stream q s₁ s₂) :
    Reads stream (p ∧ q) s s₂ := by
  have hhead := h.later.head
  have herrors := h.later.errors
  have herrors' := h'.later.errors
  refine ⟨h.later.trans h'.later, fun heq => ?_, fun heq k hle hlt heof => ?_⟩
  · rw [h.named (by omega), h'.named (by omega)]
    constructor
    · rintro ⟨hfirst, hsecond⟩ k hle hlt
      rcases Nat.lt_or_ge k s₁.head with hk | hk
      · exact hfirst k hle hk
      · exact hsecond k hk hlt
    · exact fun hall => ⟨fun k hle hlt => hall k hle (Nat.lt_of_lt_of_le hlt h'.later.head),
        fun k hle hlt => hall k (Nat.le_trans hhead hle) hlt⟩
  · rcases Nat.lt_or_ge k s₁.head with hk | hk
    · exact h.onlyNames (by omega) k hle hk heof
    · obtain ⟨hlt', hkeyword⟩ := h'.onlyNames (by omega) k hk hlt heof
      exact ⟨Nat.lt_of_le_of_lt hhead hlt', hkeyword⟩

/-- What is quiet adds nothing. -/
theorem quiet (h : Reads stream p s s₁) (h' : Reads stream True s₁ s₂) : Reads stream p s s₂ :=
  (h.trans h').congr (and_iff_left trivial)

/-- What comes first is quiet. -/
theorem behind (h : Reads stream True s s₁) (h' : Reads stream p s₁ s₂) : Reads stream p s s₂ :=
  (h.trans h').congr (and_iff_right trivial)

theorem advance (h : plain (tokenAt stream s.head).type = true) :
    Reads stream True s { s with head := s.head + 1 } := by
  obtain ⟨hkeyword, heof⟩ : isKeyword (tokenAt stream s.head).type = false ∧
      (tokenAt stream s.head).type ≠ .eof := by
    simpa [plain] using h
  refine ⟨Later.advance s 1, fun _ => ⟨fun _ k hle hlt hk => ?_, fun _ => trivial⟩,
    fun _ k hle hlt hk => ?_⟩
  all_goals
    obtain rfl : k = s.head := Nat.le_antisymm (Nat.le_of_lt_succ hlt) hle
  · rw [hkeyword] at hk
    cases hk
  · exact absurd hk heof

/-- One or two tokens. -/
theorem advance_of {n : ℕ} (h : plain (tokenAt stream s.head).type = true)
    (hn : n = 1 ∨ n = 2 ∧ plain (tokenAt stream (s.head + 1)).type = true) :
    Reads stream True s { s with head := s.head + n } := by
  rcases hn with rfl | ⟨rfl, h'⟩
  · exact advance h
  · exact (advance h).quiet (advance h')

end Reads

/-! ## What is quiet -/

/-- No name is taken without a look. -/
def Quiet (stream : TokenStream) (x : ParserM α) : Prop :=
  ∀ s, (x s).Then fun _ s' => Reads stream True s s'

namespace Quiet

variable {x y : ParserM α}

theorem pure (a : α) : Quiet stream (pure a : ParserM α) := Reads.refl

theorem bind {f : α → ParserM β} (hx : Quiet stream x) (hf : ∀ a, Quiet stream (f a)) :
    Quiet stream (x >>= f) := fun s =>
  then_bind (hx s) fun a s₁ h => (hf a s₁).mono fun _ _ h' => h.quiet h'

theorem ite {c : Prop} [Decidable c] (hx : Quiet stream x) (hy : Quiet stream y) :
    Quiet stream (if c then x else y) := fun s => then_ite (fun _ => hx s) fun _ => hy s

theorem loop {round : α → ParserM (LoopStep α β)} (h : ∀ a, Quiet stream (round a)) (n : ℕ)
    (a : α) : Quiet stream (Program.loop round n a) := fun s =>
  then_loop (fun _ s' => Reads stream True s s')
    (fun a s₁ hinv => (h a s₁).mono fun r s₂ h' => by cases r <;> exact hinv.quiet h')
    n a s (Reads.refl s)

theorem ofOption (o : Option α) : Quiet stream (Program.ofOption o) := by
  cases o with
  | none => exact fun _ => trivial
  | some a => exact Quiet.pure a

theorem gettok (off : ℕ) : Quiet stream (gettok stream off) := Reads.refl

theorem getloc : Quiet stream getloc := Reads.refl

theorem report (location : SourceLocation) (message : String) :
    Quiet stream (report location message) :=
  fun s => Reads.of_failed (Failed.report s location message)

theorem fail (location : SourceLocation) (message : String) :
    Quiet stream (fail location message : ParserM (Option α)) :=
  (report location message).bind fun _ => Quiet.pure none

/-- Behind tokens that have been looked at. -/
theorem after (hx : Quiet stream x) (h : Reads stream p s s₁) :
    (x s₁).Then fun _ s' => Reads stream p s s' :=
  (hx s₁).mono fun _ _ h' => h.quiet h'

end Quiet

theorem starRound_quiet (out : String × Bool) : Quiet stream (starRound stream out) := by
  intro s
  unfold starRound
  rw [gettok_bind]
  refine then_ite (fun _ => Reads.refl s) fun hstar => ?_
  have htype : (tokenAt stream s.head).type = .ascii '*' := by
    by_contra hne
    exact hstar (Or.inl hne)
  exact Reads.advance (by rw [htype]; rfl)

theorem parseType_quiet : Quiet stream (parseType stream) := by
  intro s
  unfold parseType
  rw [gettok_bind]
  refine then_ite (fun _ => Reads.refl s) fun htype => ?_
  rw [advance_bind]
  exact (Quiet.loop starRound_quiet _ _).after (Reads.advance (by rw [not_not.mp htype]; rfl))

/-! ### Expressions -/

/-- One branch of a chain of tests, with its test. -/
theorem test_or_of_ite {c : Prop} [Decidable c] {a b : α} {x : Option α}
    (h : (if c then some a else x) = some b) : (c ∧ a = b) ∨ x = some b := by
  split at h
  · next hc => exact .inl ⟨hc, Option.some.inj h⟩
  · exact .inr h

theorem plain_of_charToExprType {type : TokenKind} {kind : ExpressionKind}
    (h : charToExprType type = some kind) : plain type = true := by
  cases type <;> first | rfl | cases h

theorem plain_of_prefixOf {token token2 : Token} {kind : ExpressionKind} {n : ℕ}
    (h : prefixOf token token2 = some (kind, n)) :
    plain token.type = true ∧ (n = 1 ∨ n = 2 ∧ plain token2.type = true) := by
  unfold prefixOf at h
  repeat
    rcases test_or_of_ite h with ⟨htest, heq⟩ | h
    · cases heq
      simp [plain, isKeyword, htest]
  cases h

theorem plain_of_operatorOf {token token2 : Token} {kind : ExpressionKind} {n : ℕ}
    (h : operatorOf token token2 = some (kind, n)) :
    plain token.type = true ∧ (n = 1 ∨ n = 2 ∧ plain token2.type = true) := by
  unfold operatorOf at h
  rcases test_or_of_ite h with ⟨htest, heq⟩ | h
  · cases heq
    simp [plain, isKeyword, htest]
  rcases test_or_of_ite h with ⟨htest, heq⟩ | h
  · cases heq
    simp [plain, isKeyword, htest]
  cases hchar : charToExprType token.type with
  | some kind' =>
      rw [hchar] at h
      cases h
      exact ⟨plain_of_charToExprType hchar, .inl rfl⟩
  | none =>
      rw [hchar] at h
      dsimp only at h
      repeat
        rcases test_or_of_ite h with ⟨htest, heq⟩ | h
        · cases heq
          simp [plain, isKeyword, htest]
      cases h

theorem plain_of_literalOf {token token2 : Token} {e : ExpressionState} {kind : ExpressionKind}
    {payload : Payload} {n : ℕ} (h : literalOf token token2 e = some (kind, payload, n)) :
    plain token.type = true ∧ (n = 1 ∨ n = 2 ∧ plain token2.type = true) := by
  unfold literalOf at h
  repeat
    rcases test_or_of_ite h with ⟨htest, heq⟩ | h
    · cases heq
      simp [plain, isKeyword, htest]
  cases h

section Expressions

variable {parse : ParserM (Option Expression)} {e : ExpressionState}

theorem argumentRound_quiet (h : Quiet stream parse) (arguments : List Expression) :
    Quiet stream (argumentRound stream parse arguments) := by
  intro s
  unfold argumentRound
  rw [gettok_bind]
  refine then_ite (fun _ => ?_) fun _ => then_ite (fun hclose => ?_) fun _ => ?_
  · exact (Quiet.getloc.bind fun _ => (Quiet.report _ _).bind fun _ => Quiet.pure _) s
  · exact Reads.advance (by rw [hclose]; rfl)
  · refine then_bind (h s) fun r s₁ hr => ?_
    cases r with
    | none => exact hr
    | some expr =>
        dsimp only
        rw [gettok_bind]
        refine then_ite (fun hcomma => ?_) fun _ => then_ite (fun _ => hr) fun _ => ?_
        · exact hr.quiet (Reads.advance (by rw [hcomma]; rfl))
        · exact (Quiet.getloc.bind fun _ => (Quiet.report _ _).bind fun _ => Quiet.pure _).after hr

theorem identifierOperand_quiet (h : Quiet stream parse) (name : String)
    (htype : (tokenAt stream s.head).type = .id) :
    (identifierOperand stream parse name s).Then fun _ s' => Reads stream True s s' := by
  have hfirst : Reads stream True s { s with head := s.head + 1 } :=
    Reads.advance (by rw [htype]; rfl)
  unfold identifierOperand
  rw [getloc_bind, advance_bind, gettok_bind]
  refine then_ite (fun hopen => ?_) fun _ => hfirst
  rw [advance_bind]
  have hsecond := hfirst.quiet (Reads.advance (by rw [hopen]; rfl))
  refine then_bind ((Quiet.loop (argumentRound_quiet h) _ _).after hsecond) fun r s₁ hr => ?_
  cases r <;> exact hr

theorem operand_quiet (h : Quiet stream parse) (e : ExpressionState) :
    Quiet stream (operand stream parse e) := by
  intro s
  unfold operand
  rw [gettok_bind, gettok_one_bind]
  refine then_ite (identifierOperand_quiet h _) fun _ => ?_
  cases hliteral : literalOf (tokenAt stream s.head) (tokenAt stream (s.head + 1)) e with
  | some literal =>
      obtain ⟨kind, payload, n⟩ := literal
      obtain ⟨hplain, hn⟩ := plain_of_literalOf hliteral
      exact Reads.advance_of hplain hn
  | none =>
      refine then_ite (fun hsizeof => ?_) fun _ => then_ite (fun hopen => ?_) fun _ => ?_
      · rw [getloc_bind, advance_bind]
        exact (parseType_quiet.bind fun _ => Quiet.pure _).after
          (Reads.advance (by rw [hsizeof]; rfl))
      · unfold parenthesised
        rw [advance_bind]
        refine then_bind (h.after (Reads.advance (by rw [hopen]; rfl))) fun r s₁ hr => ?_
        cases r with
        | none => exact hr
        | some expr =>
            dsimp only
            rw [gettok_bind]
            refine then_ite (fun hclose => ?_) fun _ => ?_
            · exact hr.quiet (Reads.advance (by rw [hclose]; rfl))
            · exact (Quiet.getloc.bind fun _ => Quiet.fail _ _).after hr
      · exact (Quiet.getloc.bind fun _ => Quiet.fail _ _) s

theorem afterOperand_quiet (e : ExpressionState) : Quiet stream (afterOperand e) :=
  (Quiet.ofOption _).bind fun _ => Quiet.pure _

theorem afterOperator_quiet (e : ExpressionState) : Quiet stream (afterOperator e) := by
  unfold afterOperator
  cases e.operations with
  | nil => exact Quiet.pure _
  | cons right lefts => exact (Quiet.ofOption _).bind fun _ => Quiet.pure _

theorem endExpression_quiet (e : ExpressionState) : Quiet stream (endExpression e) := by
  refine (Quiet.ofOption _).bind fun st => ?_
  obtain ⟨expressions, operations, castStrings, savedLocations⟩ := st
  rcases expressions with _ | ⟨expr, _ | ⟨expr', expressions⟩⟩ <;> cases operations <;>
    first | exact Quiet.pure _ | exact fun _ => trivial

theorem memberStep_quiet (hdot : (tokenAt stream s.head).type = .ascii '.') :
    (memberStep stream e s).Then fun _ s' => Reads stream True s s' := by
  have hfirst : Reads stream True s { s with head := s.head + 1 } :=
    Reads.advance (by rw [hdot]; rfl)
  unfold memberStep
  rw [getloc_bind, advance_bind, gettok_bind]
  refine then_ite (fun _ => ?_) fun hname => ?_
  · exact (Quiet.getloc.bind fun _ => (Quiet.report _ _).bind fun _ => Quiet.pure _).after hfirst
  · rw [advance_bind]
    have hsecond := hfirst.quiet (Reads.advance (by rw [not_not.mp hname]; rfl))
    cases e.expressions with
    | nil => trivial
    | cons left expressions => exact (afterOperand_quiet _).after hsecond

theorem indexStep_quiet (h : Quiet stream parse) (hopen : (tokenAt stream s.head).type = .ascii '[') :
    (indexStep stream parse e s).Then fun _ s' => Reads stream True s s' := by
  have hfirst : Reads stream True s { s with head := s.head + 1 } :=
    Reads.advance (by rw [hopen]; rfl)
  unfold indexStep
  rw [getloc_bind, advance_bind]
  cases e.expressions with
  | nil => trivial
  | cons left expressions =>
      refine then_bind (h.after hfirst) fun right s₁ hr => ?_
      rw [gettok_bind]
      refine then_ite (fun _ => ?_) fun hclose => ?_
      · exact (Quiet.getloc.bind fun _ => (Quiet.report _ _).bind fun _ => Quiet.pure _).after hr
      · rw [advance_bind]
        exact (afterOperand_quiet _).after
          (hr.quiet (Reads.advance (by rw [not_not.mp hclose]; rfl)))

theorem operatorStep_quiet (h : Quiet stream parse) (e : ExpressionState) :
    Quiet stream (operatorStep stream parse e) := by
  intro s
  unfold operatorStep
  rw [gettok_bind, gettok_one_bind]
  cases hkind : operatorOf (tokenAt stream s.head) (tokenAt stream (s.head + 1)) with
  | some found =>
      obtain ⟨kind, n⟩ := found
      obtain ⟨hplain, hn⟩ := plain_of_operatorOf hkind
      dsimp only
      rw [getloc_bind, advance_bind]
      exact (Quiet.ite (afterOperand_quiet _) (afterOperator_quiet _)).after
        (Reads.advance_of hplain hn)
  | none =>
      exact then_ite memberStep_quiet fun _ => then_ite (indexStep_quiet h) fun _ =>
        endExpression_quiet e s

theorem operandStep_quiet (h : Quiet stream parse) (e : ExpressionState) :
    Quiet stream (operandStep stream parse e) := by
  intro s
  unfold operandStep
  rw [gettok_bind, gettok_one_bind]
  cases hkind : prefixOf (tokenAt stream s.head) (tokenAt stream (s.head + 1)) with
  | some found =>
      obtain ⟨kind, n⟩ := found
      obtain ⟨hplain, hn⟩ := plain_of_prefixOf hkind
      dsimp only
      rw [getloc_bind, advance_bind]
      exact (Quiet.ite (parseType_quiet.bind fun _ => Quiet.pure _) (Quiet.pure _)).after
        (Reads.advance_of hplain hn)
  | none =>
      refine then_bind (operand_quiet h e s) fun r s₁ hr => ?_
      cases r with
      | none => exact hr
      | some expr => exact (afterOperand_quiet _).after hr

theorem expressionRound_quiet (h : Quiet stream parse) (e : ExpressionState) :
    Quiet stream (expressionRound stream parse e) :=
  (Quiet.gettok 0).bind fun _ => Quiet.ite (operatorStep_quiet h _) (operandStep_quiet h _)

theorem parseExpressionAt_quiet : ∀ depth, Quiet stream (parseExpressionAt stream garbage depth)
  | 0 => fun _ => trivial
  | depth + 1 => Quiet.loop (expressionRound_quiet (parseExpressionAt_quiet depth)) _ _

end Expressions

/-! ## The forms of the declarations -/

/-- An identifier with asterisks behind it. -/
def TypeAt (stream : TokenStream) (location : SourceLocation) (type : String) : Prop :=
  (tokenAt stream location).type = .id ∧
    ∃ n, (∀ k < n, (tokenAt stream (location + 1 + k)).type = .ascii '*') ∧
      type = (stream.payload (tokenAt stream location)).text ++ String.ofList (List.replicate n '*')

/-- The name is the text of the identifier at its position. -/
structure NameAt (stream : TokenStream) (name : String) (location : SourceLocation) : Prop where
  id : (tokenAt stream location).type = .id
  text : name = (stream.payload (tokenAt stream location)).text

/-- `name: type` -/
structure FieldAt (stream : TokenStream) (name type : String) (location : SourceLocation) :
    Prop extends NameAt stream name location where
  colon : (tokenAt stream (location + 1)).type = .ascii ':'
  typeAt : TypeAt stream (location + 2) type

mutual

/-- The declarations in a statement have their forms. -/
inductive Statement.Declared (stream : TokenStream) : Statement → Prop where
  | declaration {kind : DeclarationKind} {name type : String} {expr : Option Expression}
      {location : SourceLocation} (h : FieldAt stream name type location) :
      Statement.Declared stream (.declaration kind name type expr location)
  | expression (expr : Expression) (location : SourceLocation) :
      Statement.Declared stream (.expression expr location)
  | ifElse {condition : Expression} {body : Body} {elseBody : Option Body}
      {location : SourceLocation} (hbody : Body.Declared stream body)
      (helse : ∀ body ∈ elseBody, Body.Declared stream body) :
      Statement.Declared stream (.ifElse condition body elseBody location)
  | while {condition : Expression} {body : Body} {location : SourceLocation}
      (hbody : Body.Declared stream body) :
      Statement.Declared stream (.while condition body location)
  | break (location : SourceLocation) : Statement.Declared stream (.break location)
  | continue (location : SourceLocation) : Statement.Declared stream (.continue location)
  | return (expr : Option Expression) (location : SourceLocation) :
      Statement.Declared stream (.return expr location)

inductive Body.Declared (stream : TokenStream) : Body → Prop where
  | mk {scopeId : ScopeId} {statements : List Statement}
      (h : ∀ statement ∈ statements, Statement.Declared stream statement) :
      Body.Declared stream (.mk scopeId statements)

end

/-- The position of a parameter is not recorded. -/
structure Function.Declared (stream : TokenStream) (function : Function) : Prop where
  name : NameAt stream function.name function.location
  parameters : ∀ parameter ∈ function.parameters,
    ∃ location, FieldAt stream parameter.1 parameter.2 location
  returnType : function.returnTypeString = "" ∨ ∃ location,
    (tokenAt stream location).type = .ascii ':' ∧
      TypeAt stream (location + 1) function.returnTypeString
  body : ∀ body ∈ function.body, body.Declared stream

structure Structure.Declared (stream : TokenStream) (structure' : Structure) : Prop where
  name : NameAt stream structure'.name structure'.location
  members : ∀ member ∈ structure'.members,
    FieldAt stream member.name member.typeString member.location

structure File.Declared (stream : TokenStream) (file : File) : Prop where
  structures : ∀ structure' ∈ file.structures, structure'.Declared stream
  functions : ∀ function ∈ file.functions, function.Declared stream
  statements : ∀ statement ∈ file.statements, statement.Declared stream

/-! ## What the functions leave -/

/-- A null pointer comes with an error, and what is returned has been read. -/
def Outcome (stream : TokenStream) (ok : α → Prop) (s : State) : Option α → State → Prop
  | none, s' => Failed s s'
  | some a, s' => Reads stream (ok a) s s'

theorem Outcome.reads {ok : α → Prop} {r : Option α} (h : Outcome stream ok s r s') :
    Reads stream (∀ a ∈ r, ok a) s s' := by
  cases r with
  | none => exact .of_failed h
  | some a => exact Reads.congr h (by simp)

theorem fail_outcome {ok : α → Prop} (h : Later s s₁) (location : SourceLocation)
    (message : String) :
    ((fail location message : ParserM (Option α)) s₁).Then (Outcome stream ok s) :=
  Failed.after h (Failed.report s₁ location message)

/-- The first part of a function: what it returns goes on. -/
theorem then_first {x : ParserM (Option α)} {f : Option α → ParserM (Option β)} {ok : α → Prop}
    {ok' : β → Prop} (hs : Reads stream p s s₁) (hx : (x s₁).Then (Outcome stream ok s₁))
    (hnone : ∀ s₂, f none s₂ = .done none s₂)
    (hsome : ∀ a s₂, Reads stream (p ∧ ok a) s s₂ → (f (some a) s₂).Then (Outcome stream ok' s)) :
    ((x >>= f) s₁).Then (Outcome stream ok' s) := by
  refine then_bind hx fun r s₂ hr => ?_
  cases r with
  | none =>
      rw [hnone]
      exact Failed.after hs.later hr
  | some a => exact hsome a s₂ (hs.trans hr)

theorem parseExpression_outcome (s : State) :
    (parseExpression stream garbage s).Then (Outcome stream (fun _ => True) s) := by
  have hmeets : (parseExpression stream garbage s).Meets False (Returns s) :=
    parseExpression_meets garbage
  refine (hmeets.then.and (parseExpressionAt_quiet _ s)).mono fun r s' h => ?_
  cases r with
  | none => exact h.1
  | some expr => exact h.2

theorem expect_then (kind : TokenKind) (message : String) (s : State) :
    (expect stream kind message s).Then fun r s' =>
      (r = none ∧ Failed s s') ∨
      (r = some () ∧ (tokenAt stream s.head).type = kind ∧ s' = { s with head := s.head + 1 }) := by
  unfold expect
  rw [gettok_bind]
  refine then_ite (fun htype => ?_) fun _ => ?_
  · exact .inr ⟨rfl, htype, rfl⟩
  · exact .inl ⟨rfl, Failed.report s s.head message⟩

theorem expect_outcome {kind : TokenKind} (hkind : plain kind = true) (message : String)
    (s : State) : (expect stream kind message s).Then (Outcome stream (fun _ => True) s) := by
  refine (expect_then kind message s).mono fun r s' h => ?_
  rcases h with ⟨rfl, hfailed⟩ | ⟨rfl, htype, rfl⟩
  · exact hfailed
  · exact Reads.advance (by rw [htype, hkind])

/-- An empty string is a missing type. -/
theorem parseType_then (s : State) : (parseType stream s).Then fun type s' =>
    Reads stream True s s' ∧ (type ≠ "" → TypeAt stream s.head type) := by
  refine Result.Then.and (parseType_quiet s) ?_
  unfold parseType
  rw [gettok_bind]
  refine then_ite (fun _ => fun h => absurd rfl h) fun htype => ?_
  rw [advance_bind]
  refine then_loop (fun out s' => ∃ n, s'.head = s.head + 1 + n ∧
      (∀ k < n, (tokenAt stream (s.head + 1 + k)).type = .ascii '*') ∧
      out.1 = (stream.payload (tokenAt stream s.head)).text ++
        String.ofList (List.replicate n '*'))
    (fun out s₁ hinv => ?_) _ _ _ ⟨0, rfl, fun k hk => absurd hk (Nat.not_lt_zero k), ?_⟩
  · obtain ⟨n, hhead, hstars, hout⟩ := hinv
    unfold starRound
    rw [gettok_bind]
    refine then_ite (fun _ _ => ⟨not_not.mp htype, n, hstars, hout⟩) fun hstar => ?_
    have hnext : (tokenAt stream s₁.head).type = .ascii '*' := by
      by_contra hne
      exact hstar (Or.inl hne)
    refine ⟨n + 1, congrArg (· + 1) hhead, fun k hk => ?_, ?_⟩
    · rcases Nat.lt_succ_iff_lt_or_eq.mp hk with hk | rfl
      · exact hstars k hk
      · rw [← hhead, hnext]
    · dsimp only
      rw [hout, String.append_assoc, List.replicate_succ']
      congr 1
      rw [String.ofList_append]
  · simp

/-! ### Declarations -/

/-- A declaration has its form but for its name. -/
structure Declares (stream : TokenStream) (kind : DeclarationKind) (s : State)
    (statement : Statement) (s' : State) : Prop where
  declares : ∃ type expr, TypeAt stream (s.head + 2) type ∧
    (tokenAt stream (s.head + 1)).type = .ascii ':' ∧ statement = .declaration kind
      (stream.payload (tokenAt stream s.head)).text type expr s.head
  reads : Reads stream True { s with head := s.head + 1 } s'

/-- What is read behind the type of a declaration. -/
theorem initializer_then (kind : DeclarationKind) (name type : String) (location : SourceLocation)
    (s : State) : (initializer stream garbage kind name type location s).Then fun r s' =>
      (r = none ∧ Failed s s') ∨
        ∃ expr, r = some (.declaration kind name type expr location) ∧ Reads stream True s s' := by
  unfold initializer
  rw [gettok_bind]
  refine then_ite (fun _ => then_ite (fun _ => .inr ⟨none, rfl, .refl s⟩) fun _ => ?_) fun hequal => ?_
  · exact .inl ⟨rfl, Failed.report s s.head _⟩
  · rw [getloc_bind, advance_bind]
    have hfirst : Reads stream True s { s with head := s.head + 1 } :=
      Reads.advance (by rw [not_not.mp hequal]; rfl)
    refine then_ite (fun _ => ?_) fun _ => ?_
    · exact .inl ⟨rfl, Failed.after hfirst.later (Failed.report _ _ _)⟩
    · refine then_bind (parseExpression_outcome _) fun r s₁ hr => ?_
      cases r with
      | none => exact .inl ⟨rfl, Failed.after hfirst.later hr⟩
      | some expr => exact .inr ⟨some expr, rfl, hfirst.quiet hr⟩

theorem parseDeclaration_then (kind : DeclarationKind) (s : State) :
    (parseDeclaration stream garbage kind s).Then fun r s' =>
      (r = none ∧ Failed s s') ∨ ∃ statement, r = some statement ∧
        Declares stream kind s statement s' := by
  unfold parseDeclaration
  rw [getloc_bind, gettok_bind, advance_bind, getloc_bind]
  have hlater := Later.advance s 1
  refine then_bind (expect_then _ _ _) fun r s₁ hr => ?_
  rcases hr with ⟨rfl, hfailed⟩ | ⟨rfl, hcolon, rfl⟩
  · exact .inl ⟨rfl, Failed.after hlater hfailed⟩
  · have hfirst : Reads stream True { s with head := s.head + 1 }
        { s with head := s.head + 1 + 1 } := Reads.advance (by rw [hcolon]; rfl)
    refine then_bind (parseType_then _) fun type s₂ htype => ?_
    have hsecond := hfirst.quiet htype.1
    have hall := hlater.trans hsecond.later
    refine then_ite (fun _ => ?_) fun hne => ?_
    · exact .inl ⟨rfl, Failed.after hall (Failed.report _ _ _)⟩
    · refine (initializer_then kind _ type s.head s₂).mono fun r s' hr => ?_
      rcases hr with ⟨rfl, hfailed⟩ | ⟨expr, rfl, hreads⟩
      · exact .inl ⟨rfl, Failed.after hall hfailed⟩
      · exact .inr ⟨_, rfl, ⟨type, expr, htype.2 hne, hcolon, rfl⟩, hsecond.quiet hreads⟩

theorem closeStatement_outcome {ok : Statement → Prop} {statement : Statement}
    (h : Reads stream (ok statement) s s₁) :
    (closeStatement stream statement s₁).Then (Outcome stream ok s) :=
  then_first h (expect_outcome (by decide) _ _) (fun _ => rfl) fun _ _ hr =>
    hr.congr (and_iff_left trivial)

theorem declared_declaration {kind : DeclarationKind} {name type : String}
    {expr : Option Expression} {location : SourceLocation} :
    Statement.Declared stream (.declaration kind name type expr location) ↔
      FieldAt stream name type location :=
  ⟨fun h => by cases h; assumption, .declaration⟩

/-- A declaration with an identifier in front of it has its form. -/
theorem Declares.reads_id {kind : DeclarationKind} {statement : Statement}
    (h : Declares stream kind s statement s') (hid : (tokenAt stream s.head).type = .id) :
    Reads stream (Statement.Declared stream statement) s s' := by
  obtain ⟨⟨type, expr, htype, hcolon, rfl⟩, hreads⟩ := h
  have hfirst : Reads stream True s { s with head := s.head + 1 } :=
    Reads.advance (by rw [hid]; rfl)
  refine (hfirst.quiet hreads).congr ⟨fun _ => ?_, fun _ => trivial⟩
  exact .declaration ⟨⟨hid, rfl⟩, hcolon, htype⟩

/-- Behind a keyword it has its form exactly if its name is an identifier. -/
theorem Declares.reads_keyword {kind : DeclarationKind} {statement : Statement}
    (hkeyword : isKeyword (tokenAt stream s.head).type = true)
    (h : Declares stream kind { s with head := s.head + 1 } statement s') :
    Reads stream (Statement.Declared stream statement) s s' := by
  by_cases hid : (tokenAt stream (s.head + 1)).type = .id
  · have hreads := h.reads_id hid
    have hlater := (Later.advance s 1).trans hreads.later
    refine ⟨hlater, fun heq => ?_, fun heq k hle hlt heof => ?_⟩
    · rw [hreads.named heq]
      constructor
      · intro hnamed k hle hlt hk
        rcases Nat.eq_or_lt_of_le hle with rfl | hgt
        · exact hid
        · exact hnamed k hgt hlt hk
      · exact fun hnamed k hle hlt => hnamed k (Nat.le_of_succ_le hle) hlt
    · rcases Nat.eq_or_lt_of_le hle with rfl | hgt
      · rw [heof] at hkeyword
        cases hkeyword
      · obtain ⟨hgt', hk⟩ := hreads.onlyNames heq k hgt hlt heof
        exact ⟨Nat.lt_of_succ_lt hgt', hk⟩
  · -- the name is the only token that can be an end of the file
    obtain ⟨⟨type, expr, htype, hcolon, rfl⟩, hreads⟩ := h
    have hlater := ((Later.advance s 1).trans (Later.advance _ 1)).trans hreads.later
    refine ⟨hlater, fun _ => iff_of_false (fun hdeclared => ?_) fun hnamed => ?_,
      fun heq k hle hlt heof => ?_⟩
    · exact hid (declared_declaration.mp hdeclared).id
    · exact hid (hnamed s.head (Nat.le_refl _)
        (Nat.lt_of_lt_of_le (Nat.lt_add_of_pos_right Nat.two_pos) hreads.later.head) hkeyword)
    · rcases Nat.lt_or_ge k (s.head + 1 + 1) with hk | hk
      · rcases Nat.eq_or_lt_of_le hle with rfl | hgt
        · rw [heof] at hkeyword
          cases hkeyword
        · obtain rfl : k = s.head + 1 := Nat.le_antisymm (Nat.le_of_lt_succ hk) hgt
          exact ⟨Nat.lt_succ_self _, hkeyword⟩
      · obtain ⟨hgt, hk'⟩ := hreads.onlyNames heq k hk hlt heof
        exact ⟨Nat.lt_of_succ_lt (Nat.lt_of_succ_lt hgt), hk'⟩

theorem declarationStatement_outcome {s₀ : State} (kind : DeclarationKind)
    (h : ∀ statement s', Declares stream kind s statement s' →
      Reads stream (Statement.Declared stream statement) s₀ s') (hlater : Later s₀ s) :
    (declarationStatement stream garbage kind s).Then
      (Outcome stream (Statement.Declared stream) s₀) := by
  refine then_bind (parseDeclaration_then kind s) fun r s₁ hr => ?_
  rcases hr with ⟨rfl, hfailed⟩ | ⟨statement, rfl, hdeclares⟩
  · exact Failed.after hlater hfailed
  · exact closeStatement_outcome (h statement s₁ hdeclares)

theorem expressionStatement_outcome (location : SourceLocation) (s : State) :
    (expressionStatement stream garbage location s).Then
      (Outcome stream (Statement.Declared stream) s) :=
  then_first (Reads.refl s) (parseExpression_outcome s) (fun _ => rfl) fun expr _ h =>
    closeStatement_outcome (h.congr (iff_of_true ⟨trivial, trivial⟩ (.expression expr location)))

theorem returnStatement_outcome (location : SourceLocation)
    (htype : (tokenAt stream s.head).type = .return) :
    (returnStatement stream garbage location s).Then
      (Outcome stream (Statement.Declared stream) s) := by
  have hfirst : Reads stream True s { s with head := s.head + 1 } :=
    Reads.advance (by rw [htype]; rfl)
  unfold returnStatement
  rw [advance_bind, gettok_bind]
  refine then_ite (fun _ => ?_) fun _ => ?_
  · exact then_first hfirst (parseExpression_outcome _) (fun _ => rfl) fun expr _ h =>
      closeStatement_outcome (h.congr (iff_of_true ⟨trivial, trivial⟩ (.return _ location)))
  · exact closeStatement_outcome (hfirst.congr (iff_of_true trivial (.return _ location)))

/-! ### Statements with bodies -/

/-- The location of an `if` or a `while` is set afterwards. -/
def Statement.hasBody : Statement → Bool
  | ifElse .. => true
  | .while .. => true
  | _ => false

theorem declared_setLocation {statement : Statement} (h : statement.hasBody = true)
    (location : SourceLocation) :
    (statement.setLocation location).Declared stream ↔ statement.Declared stream := by
  cases statement with
  | ifElse condition body elseBody =>
      constructor
      · intro h
        cases h with
        | ifElse hbody helse => exact .ifElse hbody helse
      · intro h
        cases h with
        | ifElse hbody helse => exact .ifElse hbody helse
  | «while» condition body =>
      constructor
      · intro h
        cases h with
        | «while» hbody => exact .while hbody
      · intro h
        cases h with
        | «while» hbody => exact .while hbody
  | _ => cases h

theorem declared_ifElse {condition : Expression} {body : Body} {elseBody : Option Body}
    {location : SourceLocation} :
    Statement.Declared stream (.ifElse condition body elseBody location) ↔
      body.Declared stream ∧ ∀ body ∈ elseBody, body.Declared stream :=
  ⟨fun h => by cases h with | ifElse hbody helse => exact ⟨hbody, helse⟩,
    fun h => .ifElse h.1 h.2⟩

theorem declared_while {condition : Expression} {body : Body} {location : SourceLocation} :
    Statement.Declared stream (.while condition body location) ↔ body.Declared stream :=
  ⟨fun h => by cases h with | «while» hbody => exact hbody, .while⟩

theorem declared_body {scopeId : ScopeId} {statements : List Statement} :
    Body.Declared stream (.mk scopeId statements) ↔
      ∀ statement ∈ statements, statement.Declared stream :=
  ⟨fun h => by cases h with | mk h => exact h, .mk⟩

section Bodies

variable {parseBody : ParserM (Option Body)} {parseIf : ParserM (Option Statement)}

/-- The contract of `parseIf` and `parseWhile`. -/
def BodyOutcome (stream : TokenStream) (s : State) (r : Option Statement) (s' : State) : Prop :=
  Outcome stream (Statement.Declared stream) s r s' ∧ ∀ statement ∈ r, statement.hasBody = true

theorem BodyOutcome.failed (h : Failed s s') : BodyOutcome stream s none s' :=
  ⟨h, fun _ hmem => by cases hmem⟩

theorem BodyOutcome.map {r : Option Statement} (h : BodyOutcome stream s r s')
    (location : SourceLocation) :
    Outcome stream (Statement.Declared stream) s (r.map (Statement.setLocation location)) s' := by
  cases r with
  | none => exact h.1
  | some statement => exact Reads.congr h.1 (declared_setLocation (h.2 statement rfl) location).symm

theorem ifBody_outcome (currentScopeId : ScopeId) (htype : (tokenAt stream s.head).type = .if)
    (hif : ∀ s, (tokenAt stream s.head).type = .if → (parseIf s).Then (BodyOutcome stream s))
    (hbody : ∀ s, (parseBody s).Then (Outcome stream (Body.Declared stream) s)) :
    (ifBody stream garbage parseIf parseBody currentScopeId s).Then (BodyOutcome stream s) := by
  have hfirst : Reads stream True s { s with head := s.head + 1 } :=
    Reads.advance (by rw [htype]; rfl)
  unfold ifBody
  rw [advance_bind]
  refine then_bind (parseExpression_outcome _) fun r s₁ hr => ?_
  cases r with
  | none => exact .failed (Failed.after hfirst.later hr)
  | some condition =>
  have hsecond := hfirst.quiet hr
  refine then_bind (hbody s₁) fun r s₂ hr => ?_
  cases r with
  | none => exact .failed (Failed.after hsecond.later hr)
  | some body =>
  have hthird := hsecond.behind hr
  dsimp only
  rw [gettok_bind]
  refine then_ite (fun _ => ?_) fun helse => ?_
  · exact ⟨hthird.congr (declared_ifElse.trans (and_iff_left (by simp))).symm, by simp [Statement.hasBody]⟩
  have hfourth := hthird.quiet (Reads.advance (by rw [not_not.mp helse]; rfl))
  rw [advance_bind, gettok_bind]
  refine then_ite (fun htype => ?_) fun _ => ?_
  · refine then_bind (hif _ htype) fun r s₃ hr => ?_
    cases r with
    | none => exact .failed (Failed.after hfourth.later hr.1)
    | some statement =>
        refine ⟨(hfourth.trans hr.1).congr ?_, by simp [Statement.hasBody]⟩
        rw [declared_ifElse]
        simp [declared_body]
  · -- a missing body comes with an error
    refine then_bind (hbody _) fun elseBody s₃ hr => ?_
    exact ⟨(hfourth.trans hr.reads).congr declared_ifElse.symm, by simp [Statement.hasBody]⟩

theorem parseIfAt_outcome (currentScopeId : ScopeId)
    (hbody : ∀ s, (parseBody s).Then (Outcome stream (Body.Declared stream) s)) :
    ∀ (depth : ℕ) (s : State), (tokenAt stream s.head).type = .if →
      (parseIfAt stream garbage parseBody currentScopeId depth s).Then (BodyOutcome stream s) := by
  intro depth
  induction depth with
  | zero => exact fun _ _ => trivial
  | succ depth ih => exact fun s htype => ifBody_outcome currentScopeId htype ih hbody

theorem parseWhile_outcome (htype : (tokenAt stream s.head).type = .while)
    (hbody : ∀ s, (parseBody s).Then (Outcome stream (Body.Declared stream) s)) :
    (parseWhile stream garbage parseBody s).Then (BodyOutcome stream s) := by
  have hfirst : Reads stream True s { s with head := s.head + 1 } :=
    Reads.advance (by rw [htype]; rfl)
  unfold parseWhile
  rw [gettok_bind]
  refine then_ite (fun hne => absurd htype hne) fun _ => ?_
  rw [advance_bind]
  refine then_bind (parseExpression_outcome _) fun r s₁ hr => ?_
  cases r with
  | none => exact .failed (Failed.after hfirst.later hr)
  | some condition =>
  have hsecond := hfirst.quiet hr
  refine then_bind (hbody s₁) fun r s₂ hr => ?_
  cases r with
  | none => exact .failed (Failed.after hsecond.later hr)
  | some body => exact ⟨(hsecond.behind hr).congr declared_while.symm, by simp [Statement.hasBody]⟩

theorem statementOf_outcome (currentScopeId : ScopeId) (s : State)
    (hbody : ∀ s, (parseBody s).Then (Outcome stream (Body.Declared stream) s)) :
    (statementOf stream garbage parseBody currentScopeId s).Then
      (Outcome stream (Statement.Declared stream) s) := by
  unfold statementOf
  rw [gettok_bind, getloc_bind]
  cases htype : (tokenAt stream s.head).type with
  | «if» =>
      exact then_bind (parseIfAt_outcome currentScopeId hbody _ s htype) fun r s' hr => hr.map s.head
  | «while» =>
      exact then_bind (parseWhile_outcome htype hbody) fun r s' hr => hr.map s.head
  | «return» => exact returnStatement_outcome s.head htype
  | «continue» =>
      have hfirst : Reads stream True s { s with head := s.head + 1 } :=
        Reads.advance (by rw [htype]; rfl)
      exact closeStatement_outcome (hfirst.congr (iff_of_true trivial (.continue s.head)))
  | «break» =>
      have hfirst : Reads stream True s { s with head := s.head + 1 } :=
        Reads.advance (by rw [htype]; rfl)
      exact closeStatement_outcome (hfirst.congr (iff_of_true trivial (.break s.head)))
  | global =>
      exact declarationStatement_outcome _ (fun _ _ h => h.reads_keyword (by rw [htype]; rfl))
        (Later.advance s 1)
  | const =>
      exact declarationStatement_outcome _ (fun _ _ h => h.reads_keyword (by rw [htype]; rfl))
        (Later.advance s 1)
  | struct => exact fail_outcome (Later.refl s) _ _
  | function => exact fail_outcome (Later.refl s) _ _
  | id =>
      refine then_ite (fun _ => ?_) fun _ => expressionStatement_outcome _ s
      exact declarationStatement_outcome _ (fun _ _ h => h.reads_id htype) (Later.refl s)
  | _ =>
      refine then_ite (fun hdeclaration => ?_) fun _ => expressionStatement_outcome _ s
      cases hdeclaration.1

/-- The statements that have been read, and how their loop ends. -/
def Parts (stream : TokenStream) (ok : α → Prop) (s : State) :
    LoopStep (List α) (Option (List α)) → State → Prop :=
  LoopStep.Leaves (fun parts s' => Reads stream (∀ a ∈ parts, ok a) s s')
    (Outcome stream (fun parts => ∀ a ∈ parts, ok a) s)

theorem forall_mem_concat {ok : α → Prop} {parts : List α} {a : α} :
    ((∀ x ∈ parts, ok x) ∧ ok a) ↔ ∀ x ∈ parts ++ [a], ok x := by
  simp [or_imp, forall_and]

theorem bodyRound_outcome {s₀ : State} (currentScopeId : ScopeId) (statements : List Statement)
    (hbody : ∀ s, (parseBody s).Then (Outcome stream (Body.Declared stream) s))
    (hstatements : Reads stream (∀ a ∈ statements, Statement.Declared stream a) s₀ s) :
    (bodyRound stream garbage parseBody currentScopeId statements s).Then
      (Parts stream (Statement.Declared stream) s₀) := by
  unfold bodyRound
  rw [gettok_bind]
  refine then_ite (fun _ => ?_) fun _ => then_ite (fun hclose => ?_) fun _ => ?_
  · exact Failed.after hstatements.later (Failed.report s s.head _)
  · exact hstatements.quiet (Reads.advance (by rw [hclose]; rfl))
  · refine then_bind (statementOf_outcome currentScopeId s hbody) fun r s' hr => ?_
    cases r with
    | none => exact Failed.after hstatements.later hr
    | some statement => exact (hstatements.trans hr).congr forall_mem_concat

end Bodies

theorem createScope_quiet (parent : ScopeId) : Quiet stream (createScope parent) :=
  fun _ => Reads.of_head rfl rfl

theorem parseBodyAt_outcome : ∀ (depth : ℕ) (currentScopeId : ScopeId) (s : State),
    (parseBodyAt stream garbage depth currentScopeId s).Then
      (Outcome stream (Body.Declared stream) s) := by
  intro depth
  induction depth with
  | zero => exact fun _ _ => trivial
  | succ depth ih =>
      intro currentScopeId s
      have hscope : Quiet stream (createScope currentScopeId) := createScope_quiet currentScopeId
      refine then_bind (hscope s) fun scopeId s₁ h₁ => ?_
      refine then_first h₁ (expect_outcome (by decide) _ _) (fun _ => rfl) fun _ s₂ h₂ => ?_
      have hstart : Reads stream (∀ a ∈ ([] : List Statement), Statement.Declared stream a) s s₂ :=
        h₂.congr (iff_of_true ⟨trivial, trivial⟩ (by simp))
      refine then_bind (then_loop (fun statements s' =>
        Reads stream (∀ a ∈ statements, Statement.Declared stream a) s s')
        (fun statements s' h => bodyRound_outcome scopeId statements (ih scopeId) h) _ _ _ hstart)
        fun r s₃ hr => ?_
      cases r with
      | none => exact hr
      | some statements => exact Reads.congr hr declared_body.symm

/-! ### Functions, structures and files -/

/-- A parameter or a member has its form, and nothing in it is taken without a look. -/
def FieldOutcome (stream : TokenStream) (s : State) :
    Option (String × String × SourceLocation) → State → Prop
  | none, s' => Failed s s'
  | some (name, type, location), s' =>
      FieldAt stream name type location ∧ Reads stream True s s'

theorem parseField_then (message : String) (s : State) :
    (parseField stream message s).Then (FieldOutcome stream s) := by
  unfold parseField
  rw [gettok_bind, getloc_bind]
  refine then_bind (expect_then _ _ s) fun r s₁ hr => ?_
  rcases hr with ⟨rfl, hfailed⟩ | ⟨rfl, hid, rfl⟩
  · exact hfailed
  have hfirst : Reads stream True s { s with head := s.head + 1 } :=
    Reads.advance (by rw [hid]; rfl)
  refine then_bind (expect_then _ _ _) fun r s₂ hr => ?_
  rcases hr with ⟨rfl, hfailed⟩ | ⟨rfl, hcolon, rfl⟩
  · exact Failed.after hfirst.later hfailed
  have hsecond := hfirst.quiet (Reads.advance (by rw [hcolon]; rfl))
  dsimp only
  rw [getloc_bind]
  refine then_bind (parseType_then _) fun type s₃ htype => ?_
  have hthird := hsecond.quiet htype.1
  refine then_ite (fun _ => ?_) fun hne => ?_
  · exact Failed.after hthird.later (Failed.report _ _ _)
  · exact ⟨⟨⟨hid, rfl⟩, hcolon, htype.2 hne⟩, hthird⟩

theorem separator_outcome {close : TokenKind} (s : State) :
    (separator stream close s).Then (Outcome stream (fun _ => True) s) := by
  unfold separator
  rw [gettok_bind]
  refine then_ite (fun hcomma => ?_) fun _ => then_ite (fun _ => Reads.refl s) fun _ => ?_
  · exact Reads.advance (by rw [hcomma]; rfl)
  · exact Failed.report s s.head _

/-- A field with what stands behind it, in the loop of a list of them. -/
theorem field_outcome {s₀ : State} {ok : β → Prop} {parts : List β} {message : String}
    {close : TokenKind} (next : String × String × SourceLocation → β)
    (hparts : Reads stream (∀ a ∈ parts, ok a) s₀ s)
    (hok : ∀ name type location, FieldAt stream name type location → ok (next (name, type, location)))
    {rest : Option (String × String × SourceLocation) → ParserM (LoopStep (List β) (Option (List β)))}
    (hnone : ∀ s₁, rest none s₁ = .done (.finish none) s₁)
    (hsome : ∀ field, rest (some field) = (separator stream close >>= fun r =>
      match r with
      | none => pure (.finish none)
      | some _ => pure (.again (parts ++ [next field])))) :
    ((parseField stream message >>= rest) s).Then (Parts stream ok s₀) := by
  refine then_bind (parseField_then message s) fun r s₁ hr => ?_
  cases r with
  | none =>
      rw [hnone]
      exact Failed.after hparts.later hr
  | some field =>
      obtain ⟨name, type, location⟩ := field
      obtain ⟨hfield, hreads⟩ := hr
      have hall := hparts.quiet hreads
      rw [hsome]
      refine then_bind (separator_outcome s₁) fun r s₂ hr => ?_
      cases r with
      | none => exact Failed.after hall.later hr
      | some _ =>
          exact (hall.quiet hr).congr
            ((and_iff_left (hok name type location hfield)).symm.trans forall_mem_concat)

/-- A parameter has its form somewhere. -/
def ParameterDeclared (stream : TokenStream) (parameter : String × String) : Prop :=
  ∃ location, FieldAt stream parameter.1 parameter.2 location

theorem parameterRound_outcome {s₀ : State} (parameters : List (String × String))
    (h : Reads stream (∀ a ∈ parameters, ParameterDeclared stream a) s₀ s) :
    (parameterRound stream parameters s).Then (Parts stream (ParameterDeclared stream) s₀) := by
  unfold parameterRound
  rw [gettok_bind]
  refine then_ite (fun _ => ?_) fun _ => then_ite (fun hclose => ?_) fun _ => ?_
  · exact Reads.of_failed (Failed.after h.later (Failed.report s s.head _))
  · exact h.quiet (Reads.advance (by rw [hclose]; rfl))
  · exact field_outcome (fun field => (field.1, field.2.1)) h
      (fun _ _ location hfield => ⟨location, hfield⟩) (fun _ => rfl) fun _ => rfl

theorem memberRound_outcome {s₀ : State} (members : List Member)
    (h : Reads stream (∀ a ∈ members, FieldAt stream a.name a.typeString a.location) s₀ s) :
    (memberRound stream members s).Then
      (Parts stream (fun a => FieldAt stream a.name a.typeString a.location) s₀) := by
  unfold memberRound
  rw [gettok_bind]
  refine then_ite (fun _ => ?_) fun _ => then_ite (fun hclose => ?_) fun _ => ?_
  · exact Failed.after h.later (Failed.report s s.head _)
  · exact h.quiet (Reads.advance (by rw [hclose]; rfl))
  · exact field_outcome (fun field =>
      { name := field.1, typeString := field.2.1, location := field.2.2 }) h
      (fun _ _ _ hfield => hfield) (fun _ => rfl) fun _ => rfl

/-- The loop over the parts of a list that starts empty. -/
theorem parts_outcome (ok : β → Prop) {round : List β → ParserM (LoopStep (List β) (Option (List β)))}
    (hs : Reads stream True s s₁)
    (hround : ∀ parts s', Reads stream (∀ a ∈ parts, ok a) s s' →
      (round parts s').Then (Parts stream ok s)) (n : ℕ) :
    (loop round n [] s₁).Then (Outcome stream (fun parts => ∀ a ∈ parts, ok a) s) :=
  then_loop (fun parts s' => Reads stream (∀ a ∈ parts, ok a) s s') hround n [] s₁
    (hs.congr (by simp))

theorem parseReturnType_then (s : State) : (parseReturnType stream s).Then fun r s' =>
    (r = none ∧ Failed s s') ∨ ∃ type, r = some type ∧ Reads stream True s s' ∧
      (type = "" ∨ ∃ location, (tokenAt stream location).type = .ascii ':' ∧
        TypeAt stream (location + 1) type) := by
  unfold parseReturnType
  rw [gettok_bind]
  refine then_ite (fun hcolon => ?_) fun _ => .inr ⟨"", rfl, .refl s, .inl rfl⟩
  rw [getloc_bind, advance_bind]
  have hfirst : Reads stream True s { s with head := s.head + 1 } :=
    Reads.advance (by rw [hcolon]; rfl)
  refine then_bind (parseType_then _) fun type s₁ htype => ?_
  have hsecond := hfirst.quiet htype.1
  refine then_ite (fun _ => ?_) fun hne => ?_
  · exact .inl ⟨rfl, Failed.after hsecond.later (Failed.report _ _ _)⟩
  · exact .inr ⟨type, rfl, hsecond, .inr ⟨s.head, hcolon, htype.2 hne⟩⟩

theorem parseFunction_outcome (currentScopeId : ScopeId)
    (htype : (tokenAt stream s.head).type = .function) :
    (parseFunction stream garbage currentScopeId s).Then
      (Outcome stream (Function.Declared stream) s) := by
  have hfirst : Reads stream True s { s with head := s.head + 1 } :=
    Reads.advance (by rw [htype]; rfl)
  unfold parseFunction
  rw [gettok_bind]
  refine then_ite (fun hne => absurd htype hne) fun _ => ?_
  rw [advance_bind, getloc_bind, gettok_bind]
  refine then_bind (expect_then _ _ _) fun r s₁ hr => ?_
  rcases hr with ⟨rfl, hfailed⟩ | ⟨rfl, hid, rfl⟩
  · exact Failed.after hfirst.later hfailed
  have hsecond := hfirst.quiet (Reads.advance (by rw [hid]; rfl))
  refine then_first hsecond (expect_outcome (by decide) _ _) (fun _ => rfl) fun _ s₂ h₂ => ?_
  have hthird : Reads stream True s s₂ := h₂.congr (and_self_iff)
  refine then_bind (parts_outcome (ParameterDeclared stream) hthird
    (fun _ _ h => parameterRound_outcome _ h) _) fun r s₃ hr => ?_
  cases r with
  | none => exact hr
  | some parameters =>
  refine then_bind (parseReturnType_then s₃) fun r s₄ hr' => ?_
  have hparameters : Reads stream (∀ a ∈ parameters, ParameterDeclared stream a) s s₃ := hr
  rcases hr' with ⟨rfl, hfailed⟩ | ⟨type, rfl, hreads, htype'⟩
  · exact Failed.after hparameters.later hfailed
  have hfourth := hparameters.quiet hreads
  refine then_first hfourth (parseBodyAt_outcome (bound stream) currentScopeId s₄) (fun _ => rfl)
    fun body s₅ h₅ => ?_
  refine Reads.congr h₅ ⟨fun h => ⟨⟨hid, rfl⟩, h.1, htype', ?_⟩, fun h => ⟨h.parameters, ?_⟩⟩
  · rintro _ ⟨⟩
    exact h.2
  · exact h.body body rfl

theorem parseStruct_outcome (htype : (tokenAt stream s.head).type = .struct) :
    (parseStruct stream s).Then (Outcome stream (Structure.Declared stream) s) := by
  have hfirst : Reads stream True s { s with head := s.head + 1 } :=
    Reads.advance (by rw [htype]; rfl)
  unfold parseStruct
  rw [gettok_bind]
  refine then_ite (fun hne => absurd htype hne) fun _ => ?_
  rw [advance_bind, getloc_bind, gettok_bind]
  refine then_bind (expect_then _ _ _) fun r s₁ hr => ?_
  rcases hr with ⟨rfl, hfailed⟩ | ⟨rfl, hid, rfl⟩
  · exact Failed.after hfirst.later hfailed
  have hsecond := hfirst.quiet (Reads.advance (by rw [hid]; rfl))
  refine then_first hsecond (expect_outcome (by decide) _ _) (fun _ => rfl) fun _ s₂ h₂ => ?_
  have hthird : Reads stream True s s₂ := h₂.congr (and_self_iff)
  refine then_bind (parts_outcome (fun a => FieldAt stream a.name a.typeString a.location)
    hthird (fun _ _ h => memberRound_outcome _ h) _) fun r s₃ hr => ?_
  cases r with
  | none => exact hr
  | some members => exact Reads.congr hr ⟨fun h => ⟨⟨hid, rfl⟩, h⟩, fun h => h.members⟩

namespace File

variable {file : File}

theorem declared_addStructure {structure' : Structure} :
    (file.addStructure structure').Declared stream ↔
      file.Declared stream ∧ structure'.Declared stream := by
  constructor
  · intro h
    obtain ⟨hall, hnew⟩ := forall_mem_concat.mpr h.structures
    exact ⟨⟨hall, h.functions, h.statements⟩, hnew⟩
  · rintro ⟨h, hnew⟩
    exact ⟨forall_mem_concat.mp ⟨h.structures, hnew⟩, h.functions, h.statements⟩

theorem declared_addFunction {function : Function} :
    (file.addFunction function).Declared stream ↔
      file.Declared stream ∧ function.Declared stream := by
  constructor
  · intro h
    obtain ⟨hall, hnew⟩ := forall_mem_concat.mpr h.functions
    exact ⟨⟨h.structures, hall, h.statements⟩, hnew⟩
  · rintro ⟨h, hnew⟩
    exact ⟨h.structures, forall_mem_concat.mp ⟨h.functions, hnew⟩, h.statements⟩

theorem declared_addStatement {statement : Statement} :
    (file.addStatement statement).Declared stream ↔
      file.Declared stream ∧ statement.Declared stream := by
  constructor
  · intro h
    obtain ⟨hall, hnew⟩ := forall_mem_concat.mpr h.statements
    exact ⟨⟨h.structures, h.functions, hall⟩, hnew⟩
  · rintro ⟨h, hnew⟩
    exact ⟨h.structures, h.functions, forall_mem_concat.mp ⟨h.statements, hnew⟩⟩

theorem declared_addDependency {path : String} :
    (file.addDependency path).Declared stream ↔ file.Declared stream := by
  unfold addDependency
  split
  · exact Iff.rfl
  · exact ⟨fun h => ⟨h.structures, h.functions, h.statements⟩,
      fun h => ⟨h.structures, h.functions, h.statements⟩⟩

end File

/-- How the loop over the declarations of a file ends: with an error or with the file. -/
def FileEnd (stream : TokenStream) (s : State) (r : Bool × File) (s' : State) : Prop :=
  Failed s s' ∨ Reads stream (r.2.Declared stream) s s' ∧ (tokenAt stream s'.head).type = .eof

abbrev FileParts (stream : TokenStream) (s : State) : LoopStep File (Bool × File) → State → Prop :=
  LoopStep.Leaves (fun file s' => Reads stream (file.Declared stream) s s') (FileEnd stream s)

theorem fileDeclaration_outcome {s₀ : State} (kind : DeclarationKind) {file : File}
    (h : Reads stream (file.Declared stream) s₀ s)
    (hkeyword : isKeyword (tokenAt stream s.head).type = true) :
    (fileDeclaration stream garbage kind file s).Then (FileParts stream s₀) := by
  unfold fileDeclaration
  rw [advance_bind]
  refine then_bind (declarationStatement_outcome kind
    (fun _ _ hdeclares => hdeclares.reads_keyword hkeyword) (Later.advance s 1)) fun r s₁ hr => ?_
  cases r with
  | none => exact .inl (Failed.after h.later hr)
  | some statement => exact (h.trans hr).congr File.declared_addStatement.symm

theorem fileRound_outcome {s₀ : State} (scopeId : ScopeId) {file : File}
    (h : Reads stream (file.Declared stream) s₀ s) :
    (fileRound stream garbage scopeId file s).Then (FileParts stream s₀) := by
  unfold fileRound
  rw [gettok_bind]
  cases htype : (tokenAt stream s.head).type with
  | eof => exact .inr ⟨h, htype⟩
  | struct =>
      refine then_bind (parseStruct_outcome htype) fun r s₁ hr => ?_
      cases r with
      | none => exact .inl (Failed.after h.later hr)
      | some structure' => exact (h.trans hr).congr File.declared_addStructure.symm
  | function =>
      refine then_bind (parseFunction_outcome scopeId htype) fun r s₁ hr => ?_
      cases r with
      | none => exact .inl (Failed.after h.later hr)
      | some function => exact (h.trans hr).congr File.declared_addFunction.symm
  | global => exact fileDeclaration_outcome .global h (by rw [htype]; rfl)
  | const => exact fileDeclaration_outcome .constant h (by rw [htype]; rfl)
  | «import» =>
      have hfirst := h.quiet (Reads.advance (by rw [htype]; rfl))
      dsimp only
      rw [advance_bind, gettok_bind]
      refine then_ite (fun hpath => ?_) fun _ => ?_
      · exact (hfirst.quiet (Reads.advance (by rw [hpath]; rfl))).congr
          File.declared_addDependency.symm
      · exact .inl (Failed.after hfirst.later (Failed.report _ _ _))
  | _ => exact .inl (Failed.after h.later (Failed.report s s.head _))

theorem parseTokenStream_outcome (s : State) :
    (parseTokenStream stream garbage s).Then fun r s' => FileEnd stream s (r.1, r.2.2) s' := by
  have hscope : Quiet stream (createScope globalScope) := createScope_quiet globalScope
  refine then_bind (hscope s) fun scopeId s₁ h₁ => ?_
  have hstart : Reads stream (({} : File).Declared stream) s s₁ :=
    h₁.congr (iff_of_true trivial ⟨by simp, by simp, by simp⟩)
  refine then_bind (then_loop (fun file s' => Reads stream (file.Declared stream) s s')
    (fun file s' h => fileRound_outcome scopeId h) _ _ _ hstart) fun r s₂ hr => ?_
  exact hr

/-! ## The whole file -/

/-- The declarations of a file that is parsed without an error have their forms exactly if every
`global` and every `const` in front of the end of the file is in front of an identifier. -/
theorem parseTokenStream_declared_iff {returned : Bool} {scopeId : ScopeId} {file : File}
    (h : parseTokenStream stream garbage s = .done (returned, scopeId, file) s')
    (hclean : s'.reporter.errors = s.reporter.errors) :
    file.Declared stream ↔ ∀ k, s.head ≤ k →
      (∀ j, s.head ≤ j → j ≤ k → (tokenAt stream j).type ≠ .eof) →
      isKeyword (tokenAt stream k).type = true → (tokenAt stream (k + 1)).type = .id := by
  rcases (parseTokenStream_outcome s).of_done h with hfailed | ⟨hreads, heof⟩
  · exact absurd hclean hfailed.errors.ne'
  rw [hreads.named hclean]
  constructor
  · intro hnamed k hle hbefore hkeyword
    refine hnamed k hle ?_ hkeyword
    by_contra hge
    exact hbefore s'.head hreads.later.head (Nat.not_lt.mp hge) heof
  · intro hall k hle hlt hkeyword
    -- an end of the file in front of the last one would be a name behind a keyword
    have hbefore : ∀ j, s.head ≤ j → j < s'.head → (tokenAt stream j).type ≠ .eof := by
      intro j
      induction j using Nat.strong_induction_on with
      | _ j ih =>
          intro hle hlt heof
          obtain ⟨hgt, hk⟩ := hreads.onlyNames hclean j hle hlt heof
          have hid := hall (j - 1) (Nat.le_sub_one_of_lt hgt)
            (fun i hi hij => ih i (by omega) hi (by omega)) hk
          rw [Nat.sub_add_cancel (by omega), heof] at hid
          cases hid
    exact hall k hle (fun j hj hjk => hbefore j hj (Nat.lt_of_le_of_lt hjk hlt)) hkeyword

/-- The tokens of `global a: int;` -/
def globalNamed : TokenStream where
  tokens := [{ type := .global }, { type := .id }, { type := .ascii ':' },
    { type := .id, dataIndex := 1 }, { type := .ascii ';' }]
  strings := ["a", "int"]
  inBounds := by simp [Token.InBounds]

/-- The tokens of `global 5: int;` -/
def globalNumber : TokenStream where
  tokens := [{ type := .global }, { type := .literalInteger }, { type := .ascii ':' },
    { type := .id }, { type := .ascii ';' }]
  integers := [5]
  strings := ["int"]
  inBounds := by simp [Token.InBounds]

theorem parseTokenStream_globalNamed : parseTokenStream globalNamed 0 {} =
    .done (true, 0, { statements := [.declaration .global "a" "int" none 1] })
      { head := 5, scopesUsed := 1, scopes := [globalScope] } := by
  rfl

theorem parseTokenStream_globalNumber : parseTokenStream globalNumber 0 {} =
    .done (true, 0, { statements := [.declaration .global "" "int" none 1] })
      { head := 5, scopesUsed := 1, scopes := [globalScope] } := by
  rfl

theorem parseTokenStream_declared_iff_named :
    File.Declared globalNamed { statements := [.declaration .global "a" "int" none 1] } ↔
      ∀ k, 0 ≤ k → (∀ j, 0 ≤ j → j ≤ k → (tokenAt globalNamed j).type ≠ .eof) →
        isKeyword (tokenAt globalNamed k).type = true → (tokenAt globalNamed (k + 1)).type = .id :=
  parseTokenStream_declared_iff parseTokenStream_globalNamed rfl

/-- `global 5: int;` is accepted, and declares a variable without a name. -/
theorem not_parseTokenStream_declared :
    ¬ ∀ (stream : TokenStream) (garbage : BitVec 32) (s s' : State) (returned : Bool)
      (scopeId : ScopeId) (file : File),
      parseTokenStream stream garbage s = .done (returned, scopeId, file) s' →
      s'.reporter.errors = s.reporter.errors → file.Declared stream := by
  intro hall
  have hdeclared := hall _ _ _ _ _ _ _ parseTokenStream_globalNumber rfl
  have hstatement := declared_declaration.mp (hdeclared.statements _ List.mem_cons_self)
  have hid := hstatement.id
  revert hid
  decide

end ParseContext

end TinCompiler
