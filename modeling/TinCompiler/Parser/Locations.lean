import TinCompiler.Parser.Declared
import TinCompiler.Parser.Rounds

/-!
# The locations of operators

The locations of the operators that are pending lie on a stack of their own.  An operator that is
reduced in front of another one takes the location that has just been pushed, which is that of
the other one; at the end of an expression and for prefix and postfix operators the stacks agree.
So the locations are right exactly if in every part of an expression each binary operator binds
more than the one before it (`located_iff_rising`).
-/

namespace TinCompiler

namespace ParseContext

open Program

variable {stream : TokenStream} {garbage : BitVec 32} {s s₁ s' : State}

/-! ## Where the nodes are -/

/-- The expression is read from the tokens between the two indices, and the location of every
operator in it is that of its own first token. -/
inductive Located (stream : TokenStream) : ℕ → Expression → ℕ → Prop where
  | leaf {i j : ℕ} {kind : ExpressionKind} {payload : Payload} (hlt : i < j) :
      Located stream i (.leaf kind payload i) j
  | call {i j : ℕ} {name : String} {arguments : List Expression} (start stop : ℕ → ℕ)
      (hlt : i < j) (hbetween : ∀ k, k < arguments.length → i < start k ∧ stop k < j)
      (harguments : ∀ k a, arguments[k]? = some a → Located stream (start k) a (stop k)) :
      Located stream i (.call name arguments i) j
  | parenthesised {i j : ℕ} {expr : Expression} (hopen : (tokenAt stream i).type = .ascii '(')
      (h : Located stream (i + 1) expr j) (hclose : (tokenAt stream j).type = .ascii ')') :
      Located stream i expr (j + 1)
  | prefixOperator {i m j n : ℕ} {kind : ExpressionKind} {left : Expression} {name : String}
      (hkind : prefixOf (tokenAt stream i) (tokenAt stream (i + 1)) = some (kind, n))
      (hle : i + n ≤ m) (h : Located stream m left j) :
      Located stream i (.unary kind left name i) j
  | postfixOperator {i m n : ℕ} {kind : ExpressionKind} {left : Expression} {name : String}
      (h : Located stream i left m)
      (hkind : operatorOf (tokenAt stream m) (tokenAt stream (m + 1)) = some (kind, n)) :
      Located stream i (.unary kind left name m) (m + n)
  | member {i m : ℕ} {left : Expression} {name : String} (h : Located stream i left m)
      (hdot : (tokenAt stream m).type = .ascii '.') :
      Located stream i (.unary .member left name m) (m + 1 + 1)
  | index {i m j : ℕ} {left : Expression} {right : Option Expression} (start stop : ℕ)
      (h : Located stream i left m) (hopen : (tokenAt stream m).type = .ascii '[')
      (hstart : m < start) (hstop : stop ≤ j) (hlt : m ≤ j)
      (hright : ∀ expr, right = some expr → Located stream start expr stop) :
      Located stream i (.index left right m) (j + 1)
  | binary {i m j n : ℕ} {kind : ExpressionKind} {left right : Expression}
      (hleft : Located stream i left m)
      (hkind : operatorOf (tokenAt stream m) (tokenAt stream (m + 1)) = some (kind, n))
      (hright : Located stream (m + n) right j) :
      Located stream i (.binary kind left right m) j

/-- The location of the first operand. -/
def Expression.anchor : Expression → ℕ
  | leaf _ _ location => location
  | call _ _ location => location
  | unary _ left _ _ => left.anchor
  | binary _ left _ _ => left.anchor
  | index left _ _ => left.anchor

namespace Located

theorem anchor {i j : ℕ} {expr : Expression} (h : Located stream i expr j) :
    i ≤ expr.anchor ∧ expr.anchor < j := by
  induction h with
  | leaf hlt => exact ⟨Nat.le_refl _, hlt⟩
  | call start stop hlt => exact ⟨Nat.le_refl _, hlt⟩
  | parenthesised _ _ _ ih => exact ⟨Nat.le_of_succ_le ih.1, Nat.lt_succ_of_lt ih.2⟩
  | prefixOperator _ hle _ ih =>
      exact ⟨Nat.le_trans (Nat.le_trans (Nat.le_add_right _ _) hle) ih.1, ih.2⟩
  | postfixOperator _ _ ih => exact ⟨ih.1, Nat.lt_of_lt_of_le ih.2 (Nat.le_add_right _ _)⟩
  | member _ _ ih => exact ⟨ih.1, Nat.lt_of_lt_of_le ih.2 (Nat.le_add_right _ 2)⟩
  | index start stop _ _ _ _ hlt _ ih =>
      exact ⟨ih.1, Nat.lt_succ_of_lt (Nat.lt_of_lt_of_le ih.2 hlt)⟩
  | binary _ _ _ ihleft ihright =>
      refine ⟨ihleft.1, Nat.lt_trans (Nat.lt_of_lt_of_le ihleft.2 ?_) ihright.2⟩
      exact Nat.le_trans (Nat.le_add_right _ _) ihright.1

end Located

/-- No tokens are those of the expression. -/
def Unlocated (stream : TokenStream) (expr : Expression) : Prop :=
  ∀ i j, ¬ Located stream i expr j

/-- What holds of the parts of an expression that is read from tokens. -/
def Expression.Parted (stream : TokenStream) : Expression → Prop
  | leaf .. => True
  | call _ arguments _ => ∀ a ∈ arguments, ¬ Unlocated stream a
  | unary _ left _ _ => ¬ Unlocated stream left
  | binary _ left right location =>
      ¬ Unlocated stream left ∧ ¬ Unlocated stream right ∧ location ≤ right.anchor
  | index left right _ => ¬ Unlocated stream left ∧ ∀ expr ∈ right, ¬ Unlocated stream expr

/-- They are read from tokens themselves. -/
theorem Located.parted {i j : ℕ} {expr : Expression} (h : Located stream i expr j) :
    expr.Parted stream := by
  induction h with
  | leaf => trivial
  | call start stop _ _ harguments _ =>
      intro a hmem hnot
      obtain ⟨k, hk⟩ := List.mem_iff_getElem?.mp hmem
      exact hnot _ _ (harguments k a hk)
  | parenthesised _ _ _ ih => exact ih
  | prefixOperator _ _ h => exact fun hnot => hnot _ _ h
  | postfixOperator h => exact fun hnot => hnot _ _ h
  | member h => exact fun hnot => hnot _ _ h
  | index start stop h _ _ _ _ hright =>
      exact ⟨fun hnot => hnot _ _ h, fun expr hmem hnot => hnot _ _ (hright expr hmem)⟩
  | binary hleft _ hright =>
      refine ⟨fun hnot => hnot _ _ hleft, fun hnot => hnot _ _ hright, ?_⟩
      exact Nat.le_trans (Nat.le_add_right _ _) hright.anchor.1

theorem unlocated_call {name : String} {arguments : List Expression} {location : SourceLocation}
    {a : Expression} (hmem : a ∈ arguments) (h : Unlocated stream a) :
    Unlocated stream (.call name arguments location) :=
  fun _ _ hlocated => hlocated.parted a hmem h

theorem unlocated_index_right {left right : Expression} {location : SourceLocation}
    (h : Unlocated stream right) : Unlocated stream (.index left (some right) location) :=
  fun _ _ hlocated => hlocated.parted.2 right rfl h

/-- The location of an operator that lies behind its right operand is that of another one. -/
theorem unlocated_binary {kind : ExpressionKind} {left right : Expression}
    {location : SourceLocation} (h : right.anchor < location) :
    Unlocated stream (.binary kind left right location) :=
  fun _ _ hlocated => Nat.not_lt.mpr hlocated.parted.2.2 h

theorem inherited_unlocated : Inherited (fun _ => False) (Unlocated stream) where
  not_isUnary _ h := h.elim
  operator _ _ _ _ h := h.elim
  unary _ _ _ _ h := fun _ _ hlocated => hlocated.parted h
  left _ _ _ _ h := fun _ _ hlocated => hlocated.parted.1 h
  right _ _ _ _ h := fun _ _ hlocated => hlocated.parted.2.1 h
  index _ _ _ h := fun _ _ hlocated => hlocated.parted.1 h

/-! ## Operators that bind more and more -/

/-- The tokens of an operand without another expression in it. -/
inductive Atom (stream : TokenStream) (s : State) : State → Prop where
  | identifier (htype : (tokenAt stream s.head).type = .id)
      (hnext : (tokenAt stream (s.head + 1)).type ≠ .ascii '(') :
      Atom stream s { s with head := s.head + 1 }
  | literal {e : ExpressionState} {kind : ExpressionKind} {payload : Payload} {n : ℕ}
      (h : literalOf (tokenAt stream s.head) (tokenAt stream (s.head + 1)) e =
        some (kind, payload, n)) : Atom stream s { s with head := s.head + n }
  | sizeof {type : String} {s' : State} (htype : (tokenAt stream s.head).type = .sizeof)
      (hparse : parseType stream { s with head := s.head + 1 } = .done type s') : Atom stream s s'

/-- The arguments of a call behind the opening parenthesis; `N` is for each of them. -/
inductive Arguments (stream : TokenStream) (N : State → State → Prop) : State → State → Prop where
  | close {s : State} (hclose : (tokenAt stream s.head).type = .ascii ')') :
      Arguments stream N s { s with head := s.head + 1 }
  | last {s s₁ s' : State} (h : N s s₁) (hclose : (tokenAt stream s₁.head).type = .ascii ')')
      (hrest : Arguments stream N s₁ s') : Arguments stream N s s'
  | comma {s s₁ s' : State} (h : N s s₁) (hcomma : (tokenAt stream s₁.head).type = .ascii ',')
      (hrest : Arguments stream N { s₁ with head := s₁.head + 1 } s') : Arguments stream N s s'

/-- The rest of an expression, in front of an operand or behind one (`isOperator`); every binary
operator has a higher precedence than the one before it, of which the first has `last`, and `N`
is for the expressions inside. -/
inductive Rest (stream : TokenStream) (garbage : BitVec 32) (N : State → State → Prop) :
    Bool → Option ℤ → State → State → Prop where
  | prefixOperator {last : Option ℤ} {s s' : State} {kind : ExpressionKind} {n : ℕ}
      (hkind : prefixOf (tokenAt stream s.head) (tokenAt stream (s.head + 1)) = some (kind, n))
      (hcast : kind ≠ .cast) (h : Rest stream garbage N false last { s with head := s.head + n } s') :
      Rest stream garbage N false last s s'
  | cast {last : Option ℤ} {s s₁ s' : State} {n : ℕ} {type : String}
      (hkind : prefixOf (tokenAt stream s.head) (tokenAt stream (s.head + 1)) = some (.cast, n))
      (htype : parseType stream { s with head := s.head + n } = .done type s₁)
      (h : Rest stream garbage N false last s₁ s') : Rest stream garbage N false last s s'
  | atom {last : Option ℤ} {s s₁ s' : State}
      (hfront : prefixOf (tokenAt stream s.head) (tokenAt stream (s.head + 1)) = none)
      (ha : Atom stream s s₁) (h : Rest stream garbage N true last s₁ s') :
      Rest stream garbage N false last s s'
  | call {last : Option ℤ} {s s₁ s' : State} (htype : (tokenAt stream s.head).type = .id)
      (hopen : (tokenAt stream (s.head + 1)).type = .ascii '(')
      (harguments : Arguments stream N { s with head := s.head + 1 + 1 } s₁)
      (h : Rest stream garbage N true last s₁ s') : Rest stream garbage N false last s s'
  | parenthesised {last : Option ℤ} {s s₁ s' : State}
      (hopen : (tokenAt stream s.head).type = .ascii '(') (hexpr : N { s with head := s.head + 1 } s₁)
      (hclose : (tokenAt stream s₁.head).type = .ascii ')')
      (h : Rest stream garbage N true last { s₁ with head := s₁.head + 1 } s') :
      Rest stream garbage N false last s s'
  | ends {last : Option ℤ} {s : State} (hends : Ends stream s.head) :
      Rest stream garbage N true last s s
  | operator {last : Option ℤ} {s s' : State} {kind : ExpressionKind} {n : ℕ}
      (hkind : operatorOf (tokenAt stream s.head) (tokenAt stream (s.head + 1)) = some (kind, n))
      (hpost : kind.isPostfix = false) (hlt : ∀ rank, last = some rank → rank < kind.rank)
      (h : Rest stream garbage N false (some kind.rank) { s with head := s.head + n } s') :
      Rest stream garbage N true last s s'
  | postfixOperator {last : Option ℤ} {s s' : State} {kind : ExpressionKind} {n : ℕ}
      (hkind : operatorOf (tokenAt stream s.head) (tokenAt stream (s.head + 1)) = some (kind, n))
      (hpost : kind.isPostfix = true)
      (h : Rest stream garbage N true last { s with head := s.head + n } s') :
      Rest stream garbage N true last s s'
  | member {last : Option ℤ} {s s' : State} (hdot : (tokenAt stream s.head).type = .ascii '.')
      (hname : (tokenAt stream (s.head + 1)).type = .id)
      (h : Rest stream garbage N true last { s with head := s.head + 1 + 1 } s') :
      Rest stream garbage N true last s s'
  | index {last : Option ℤ} {s s₁ s' : State} (hopen : (tokenAt stream s.head).type = .ascii '[')
      (hright : N { s with head := s.head + 1 } s₁)
      (hclose : (tokenAt stream s₁.head).type = .ascii ']')
      (h : Rest stream garbage N true last { s₁ with head := s₁.head + 1 } s') :
      Rest stream garbage N true last s s'
  | missing {last : Option ℤ} {s s₁ s' : State} (hopen : (tokenAt stream s.head).type = .ascii '[')
      (hright : parseExpression stream garbage { s with head := s.head + 1 } = .done none s₁)
      (hclose : (tokenAt stream s₁.head).type = .ascii ']')
      (h : Rest stream garbage N true last { s₁ with head := s₁.head + 1 } s') :
      Rest stream garbage N true last s s'

/-- The expressions inside are nested at most so deep. -/
def RisingAt (stream : TokenStream) (garbage : BitVec 32) : ℕ → State → State → Prop
  | 0 => fun _ _ => False
  | depth + 1 => Rest stream garbage (RisingAt stream garbage depth) false none

/-- The tokens are those of an expression in which, in the expression itself and in every one
inside of it, each binary operator has a higher precedence than the one before it. -/
def Rising (stream : TokenStream) (garbage : BitVec 32) (s s' : State) : Prop :=
  ∃ depth, RisingAt stream garbage depth s s'

/-! ## Rising operators are located -/

/-- The binary operators that wait for their right operands, with the tokens up to the next
operand. -/
inductive Opened (stream : TokenStream) (i : ℕ) :
    List Expression → List ExpressionKind → List SourceLocation → ℕ → Prop where
  | nil : Opened stream i [] [] [] i
  | cons {k m n : ℕ} {left : Expression} {kind : ExpressionKind} {expressions : List Expression}
      {operations : List ExpressionKind} {locations : List SourceLocation}
      (h : Opened stream i expressions operations locations k) (hleft : Located stream k left m)
      (hkind : operatorOf (tokenAt stream m) (tokenAt stream (m + 1)) = some (kind, n))
      (hpost : kind.isPostfix = false) :
      Opened stream i (left :: expressions) (kind :: operations) (m :: locations) (m + n)

/-- The prefix operators that wait for an operand. -/
inductive Fronting (stream : TokenStream) (k : ℕ) :
    List ExpressionKind → List SourceLocation → ℕ → Prop where
  | nil : Fronting stream k [] [] k
  | cons {m n m' : ℕ} {kind : ExpressionKind} {operations : List ExpressionKind}
      {locations : List SourceLocation} (h : Fronting stream k operations locations m)
      (hkind : prefixOf (tokenAt stream m) (tokenAt stream (m + 1)) = some (kind, n))
      (hle : m + n ≤ m') : Fronting stream k (kind :: operations) (m :: locations) m'

theorem Opened.isBinary {i k : ℕ} {expressions : List Expression}
    {operations : List ExpressionKind} {locations : List SourceLocation}
    (h : Opened stream i expressions operations locations k) :
    ∀ op ∈ operations, op.isBinary = true := by
  induction h with
  | nil => simp
  | cons _ _ hkind hpost ih =>
      intro op hmem
      rcases List.mem_cons.mp hmem with rfl | hmem
      · exact isBinary_of_operatorOf hkind hpost
      · exact ih op hmem

namespace Stacks

variable {st : Stacks} {binaries : List ExpressionKind} {expressions : List Expression}
  {locations : List SourceLocation}

theorem fixUnary_binaries (h : ∀ op ∈ binaries, op.isBinary = true) (st : Stacks) :
    st.fixUnary binaries = some { st with operations := binaries } := by
  cases binaries with
  | nil => rfl
  | cons op binaries =>
      rw [fixUnary, ExpressionKind.not_isUnary (h op List.mem_cons_self)]
      rfl

theorem exists_applyUnary {kind : ExpressionKind} {operations : List ExpressionKind}
    {a : Expression} {location : SourceLocation} (hexpressions : st.expressions = a :: expressions)
    (hlocations : st.savedLocations = location :: locations)
    (hcasts : st.castStrings.length = (kind :: operations).count .cast) :
    ∃ st₁ name, st.applyUnary kind = some st₁ ∧
      st₁.expressions = .unary kind a name location :: expressions ∧
      st₁.savedLocations = locations ∧ st₁.castStrings.length = operations.count .cast := by
  unfold applyUnary
  rw [hexpressions, hlocations]
  by_cases hkind : kind = .cast
  · subst hkind
    rw [List.count_cons_self] at hcasts
    obtain ⟨name, casts, hnames⟩ := List.exists_cons_of_length_eq_add_one hcasts
    rw [hnames, List.length_cons] at hcasts
    simp only [if_true, hnames]
    exact ⟨_, name, rfl, rfl, rfl, Nat.succ.inj hcasts⟩
  · rw [List.count_cons_of_ne hkind] at hcasts
    simp only [if_neg hkind]
    exact ⟨_, "", rfl, rfl, rfl, hcasts⟩

/-- The prefix operators in front of an operand are applied to it, each with its own location. -/
theorem fixUnary_fronting {k m : ℕ} {unaries : List ExpressionKind}
    {unaryLocations : List SourceLocation} (h : Fronting stream k unaries unaryLocations m)
    (hbinaries : ∀ op ∈ binaries, op.isBinary = true) :
    ∀ {a : Expression} {j : ℕ} {st : Stacks}, Located stream m a j →
      st.expressions = a :: expressions → st.savedLocations = unaryLocations ++ locations →
      st.castStrings.length = unaries.count .cast →
      ∃ st' a', st.fixUnary (unaries ++ binaries) = some st' ∧ Located stream k a' j ∧
        st'.expressions = a' :: expressions ∧ st'.operations = binaries ∧
        st'.savedLocations = locations ∧ st'.castStrings = [] := by
  induction h with
  | nil =>
      intro a j st ha hexpressions hlocations hcasts
      exact ⟨_, a, fixUnary_binaries hbinaries st, ha, hexpressions, rfl, hlocations,
        List.length_eq_zero_iff.mp hcasts⟩
  | cons h hkind hle ih =>
      intro a j st ha hexpressions hlocations hcasts
      obtain ⟨st₁, name, happly, hexpressions₁, hlocations₁, hcasts₁⟩ :=
        exists_applyUnary hexpressions hlocations hcasts
      rw [List.cons_append, fixUnary, if_pos (isUnary_of_appendOf hkind), happly, Option.bind_some]
      exact ih (.prefixOperator hkind hle ha) hexpressions₁ hlocations₁ hcasts₁

/-- An operator that binds more than the last one reduces nothing. -/
theorem reduceLeft_rising {kind : ExpressionKind} (hkind : kind.isBinary = true)
    (hbinaries : ∀ op ∈ binaries, op.isBinary = true)
    (hlt : ∀ rank, binaries.head?.map ExpressionKind.rank = some rank → rank < kind.rank)
    (st : Stacks) : st.reduceLeft kind binaries = some { st with operations := kind :: binaries } := by
  cases binaries with
  | nil => rfl
  | cons op binaries =>
      have hop := ExpressionKind.precedence_eq (hbinaries op List.mem_cons_self)
      rw [reduceLeft, hop, ExpressionKind.precedence_eq hkind]
      dsimp only
      rw [if_neg (by have := hlt op.rank rfl; omega)]

/-- At the end the operators are applied with their own locations. -/
theorem reduceAll_opened {i k : ℕ} (h : Opened stream i expressions binaries locations k) :
    ∀ {a : Expression} {j : ℕ} {st : Stacks}, Located stream k a j →
      st.expressions = a :: expressions → st.savedLocations = locations →
      ∃ st' expr, st.reduceAll binaries = some st' ∧ st'.expressions = [expr] ∧
        Located stream i expr j := by
  induction h with
  | nil => exact fun {a j st} ha hexpressions _ => ⟨_, a, rfl, hexpressions, ha⟩
  | @cons k m n left kind expressions operations locations h hleft hkind hpost ih =>
      intro a j st ha hexpressions hlocations
      have happly : st.applyBinary kind = some { st with
          expressions := .binary kind left a m :: expressions
          savedLocations := locations } := by
        unfold applyBinary
        rw [hexpressions, hlocations]
      rw [reduceAll, happly, Option.bind_some]
      exact ih (.binary hleft hkind ha) rfl rfl

end Stacks

/-- The variables of `parseExpression` in front of an operand at `m`. -/
inductive InFront (stream : TokenStream) (i : ℕ) (last : Option ℤ) (e : ExpressionState) (m : ℕ) :
    Prop where
  | mk {k : ℕ} {expressions : List Expression} {binaries unaries : List ExpressionKind}
      {locations unaryLocations : List SourceLocation}
      (hopened : Opened stream i expressions binaries locations k)
      (hfronting : Fronting stream k unaries unaryLocations m)
      (hlast : last = binaries.head?.map ExpressionKind.rank) (hoperator : e.isOperator = false)
      (hexpressions : e.expressions = expressions) (hoperations : e.operations = unaries ++ binaries)
      (hlocations : e.savedLocations = unaryLocations ++ locations)
      (hcasts : e.castStrings.length = unaries.count .cast)

/-- Behind an operand that ends at `m`. -/
inductive Behind (stream : TokenStream) (i : ℕ) (last : Option ℤ) (e : ExpressionState) (m : ℕ) :
    Prop where
  | mk {k : ℕ} {a : Expression} {expressions : List Expression} {binaries : List ExpressionKind}
      {locations : List SourceLocation} (hopened : Opened stream i expressions binaries locations k)
      (ha : Located stream k a m) (hlast : last = binaries.head?.map ExpressionKind.rank)
      (hoperator : e.isOperator = true) (hexpressions : e.expressions = a :: expressions)
      (hoperations : e.operations = binaries) (hlocations : e.savedLocations = locations)
      (hcasts : e.castStrings = [])

/-- In front of an operand, or behind it. -/
def Standing (stream : TokenStream) (i : ℕ) : Bool → Option ℤ → ExpressionState → ℕ → Prop
  | false => InFront stream i
  | true => Behind stream i

section Steps

variable {parse : ParserM (Option Expression)} {e : ExpressionState} {i : ℕ} {last : Option ℤ}

theorem InFront.goes_prefix {kind : ExpressionKind} {n : ℕ} (h : InFront stream i last e s.head)
    (hkind : prefixOf (tokenAt stream s.head) (tokenAt stream (s.head + 1)) = some (kind, n))
    (hcast : kind ≠ .cast) : ∃ st, Goes stream parse e s false st { s with head := s.head + n } ∧
      InFront stream i last (e.after stream s false st) (s.head + n) := by
  obtain ⟨hopened, hfronting, hlast, hoperator, hexpressions, hoperations, hlocations, hcasts⟩ := h
  refine ⟨_, .prefixOperator hoperator hkind hcast, hopened,
    hfronting.cons hkind (Nat.le_refl _), hlast, rfl, hexpressions, ?_, ?_, ?_⟩
  · exact congrArg (kind :: ·) hoperations
  · exact congrArg (s.head :: ·) hlocations
  · rw [List.count_cons_of_ne hcast]
    exact hcasts

theorem InFront.goes_cast {type : String} {n : ℕ} (h : InFront stream i last e s.head)
    (hkind : prefixOf (tokenAt stream s.head) (tokenAt stream (s.head + 1)) = some (.cast, n))
    (htype : parseType stream { s with head := s.head + n } = .done type s₁) :
    ∃ st, Goes stream parse e s false st s₁ ∧
      InFront stream i last (e.after stream s false st) s₁.head := by
  obtain ⟨hopened, hfronting, hlast, hoperator, hexpressions, hoperations, hlocations, hcasts⟩ := h
  have hlater := ((parseType_quiet _).of_done htype).later.head
  refine ⟨_, .cast hoperator hkind htype, hopened, hfronting.cons hkind hlater, hlast, rfl,
    hexpressions, ?_, ?_, ?_⟩
  · exact congrArg (ExpressionKind.cast :: ·) hoperations
  · exact congrArg (s.head :: ·) hlocations
  · rw [List.count_cons_self]
    exact congrArg (· + 1) hcasts

theorem InFront.goes_operand {a : Expression} (h : InFront stream i last e s.head)
    (hfront : prefixOf (tokenAt stream s.head) (tokenAt stream (s.head + 1)) = none)
    (ha : operand stream parse (e.store (stream.payload (tokenAt stream s.head))) s =
      .done (some a) s₁)
    (hlocated : Located stream s.head a s₁.head) : ∃ st, Goes stream parse e s true st s₁ ∧
      Behind stream i last (e.after stream s true st) s₁.head := by
  obtain ⟨hopened, hfronting, hlast, hoperator, hexpressions, hoperations, hlocations, hcasts⟩ := h
  obtain ⟨st, a', hfix, ha', hexpressions', hoperations', hlocations', hcasts'⟩ :=
    Stacks.fixUnary_fronting hfronting hopened.isBinary hlocated
      (show (e.toStacks.pushExpression a).expressions = a :: _ from congrArg (a :: ·) hexpressions)
      hlocations hcasts
  rw [← hoperations] at hfix
  exact ⟨st, .operand hoperator hfront ha hfix, hopened, ha', hlast, rfl, hexpressions',
    hoperations', hlocations', hcasts'⟩

/-- What is put around the last operand. -/
theorem Behind.wrap {st : Stacks} {m m' : ℕ} {left x : Expression} {expressions : List Expression}
    (h : Behind stream i last e m) (hleft : e.expressions = left :: expressions)
    (hst : st = { e.toStacks with expressions := x :: expressions })
    (hx : ∀ k, Located stream k left m → Located stream k x m') :
    Behind stream i last (e.after stream s true st) m' := by
  obtain ⟨hopened, ha, hlast, hoperator, hexpressions, hoperations, hlocations, hcasts⟩ := h
  rw [hexpressions] at hleft
  obtain ⟨rfl, rfl⟩ := List.cons.inj hleft
  subst hst
  exact ⟨hopened, hx _ ha, hlast, rfl, rfl, hoperations, hlocations, hcasts⟩

/-- The operators that wait are binary. -/
theorem Behind.fixUnary {m : ℕ} (h : Behind stream i last e m) (st : Stacks) :
    st.fixUnary e.operations = some { st with operations := e.operations } := by
  obtain ⟨hopened, -, -, -, -, hoperations, -, -⟩ := h
  rw [hoperations]
  exact Stacks.fixUnary_binaries hopened.isBinary st

theorem Behind.isOperator {m : ℕ} (h : Behind stream i last e m) : e.isOperator = true := by
  obtain ⟨-, -, -, hoperator, -, -, -, -⟩ := h
  exact hoperator

theorem Behind.exists_left {m : ℕ} (h : Behind stream i last e m) :
    ∃ left expressions, e.expressions = left :: expressions := by
  obtain ⟨-, -, -, -, hexpressions, -, -, -⟩ := h
  exact ⟨_, _, hexpressions⟩

theorem Behind.goes_member (h : Behind stream i last e s.head)
    (hdot : (tokenAt stream s.head).type = .ascii '.')
    (hname : (tokenAt stream (s.head + 1)).type = .id) :
    ∃ st, Goes stream parse e s true st { s with head := s.head + 1 + 1 } ∧
      Behind stream i last (e.after stream s true st) (s.head + 1 + 1) := by
  obtain ⟨left, expressions, hleft⟩ := h.exists_left
  exact ⟨_, .member h.isOperator hdot hname hleft (h.fixUnary _),
    h.wrap hleft rfl fun k hlocated => .member hlocated hdot⟩

theorem Behind.goes_index {right : Option Expression} (h : Behind stream i last e s.head)
    (hopen : (tokenAt stream s.head).type = .ascii '[')
    (hright : parse { s with head := s.head + 1 } = .done right s₁)
    (hclose : (tokenAt stream s₁.head).type = .ascii ']') (hlater : s.head + 1 ≤ s₁.head)
    (hlocated : ∀ expr, right = some expr → Located stream (s.head + 1) expr s₁.head) :
    ∃ st, Goes stream parse e s true st { s₁ with head := s₁.head + 1 } ∧
      Behind stream i last (e.after stream s true st) (s₁.head + 1) := by
  obtain ⟨left, expressions, hleft⟩ := h.exists_left
  exact ⟨_, .index h.isOperator hopen hleft hright hclose (h.fixUnary _),
    h.wrap hleft rfl fun k hk => .index (s.head + 1) s₁.head hk hopen (Nat.lt_succ_self _)
      (Nat.le_refl _) (Nat.le_of_succ_le hlater) hlocated⟩

theorem Behind.goes_postfix {kind : ExpressionKind} {n : ℕ} (h : Behind stream i last e s.head)
    (hkind : operatorOf (tokenAt stream s.head) (tokenAt stream (s.head + 1)) = some (kind, n))
    (hpost : kind.isPostfix = true) :
    ∃ st, Goes stream parse e s true st { s with head := s.head + n } ∧
      Behind stream i last (e.after stream s true st) (s.head + n) := by
  obtain ⟨left, expressions, hleft⟩ := h.exists_left
  have happly : (e.toStacks.pushOperation kind s.head).applyUnary kind =
      some { e.toStacks with
        expressions := .unary kind left "" s.head :: expressions
        operations := kind :: e.operations } := by
    unfold Stacks.applyUnary Stacks.pushOperation
    rw [hleft]
    dsimp only
    rw [if_neg (by rintro rfl; cases hpost)]
  have hfix : (e.toStacks.pushOperation kind s.head).fixUnary (kind :: e.operations) =
      some { e.toStacks with expressions := .unary kind left "" s.head :: expressions } := by
    rw [Stacks.fixUnary, if_pos (isUnary_of_isPostfix hpost), happly, Option.bind_some, h.fixUnary]
  exact ⟨_, .postfixOperator h.isOperator hkind hpost hfix,
    h.wrap hleft rfl fun k hk => .postfixOperator hk hkind⟩

theorem Behind.goes_operator {kind : ExpressionKind} {n : ℕ} (h : Behind stream i last e s.head)
    (hkind : operatorOf (tokenAt stream s.head) (tokenAt stream (s.head + 1)) = some (kind, n))
    (hpost : kind.isPostfix = false) (hlt : ∀ rank, last = some rank → rank < kind.rank) :
    ∃ st, Goes stream parse e s false st { s with head := s.head + n } ∧
      InFront stream i (some kind.rank) (e.after stream s false st) (s.head + n) := by
  obtain ⟨hopened, ha, rfl, hoperator, hexpressions, hoperations, hlocations, hcasts⟩ := h
  have hreduce := Stacks.reduceLeft_rising (isBinary_of_operatorOf hkind hpost)
    hopened.isBinary hlt (e.toStacks.pushOperation kind s.head)
  rw [← hoperations] at hreduce
  refine ⟨_, .binary hoperator hkind hpost hreduce, hopened.cons ha hkind hpost, .nil, rfl,
    rfl, hexpressions, ?_, ?_, ?_⟩
  · exact congrArg (kind :: ·) hoperations
  · exact congrArg (s.head :: ·) hlocations
  · exact congrArg List.length hcasts

theorem Behind.stops (h : Behind stream i last e s.head) (hends : Ends stream s.head) :
    ∃ expr, Stops stream e s expr ∧ Located stream i expr s.head := by
  obtain ⟨hopened, ha, -, hoperator, hexpressions, hoperations, hlocations, -⟩ := h
  obtain ⟨st, expr, hreduce, hsingle, hlocated⟩ :=
    Stacks.reduceAll_opened hopened ha hexpressions hlocations
  rw [← hoperations] at hreduce
  exact ⟨expr, ⟨hoperator, hends, st, hreduce, hsingle⟩, hlocated⟩

end Steps

/-! ### Operands -/

theorem literalOf_any {token token2 : Token} {e : ExpressionState} {kind : ExpressionKind}
    {payload : Payload} {n : ℕ} (h : literalOf token token2 e = some (kind, payload, n))
    (e' : ExpressionState) : ∃ payload', literalOf token token2 e' = some (kind, payload', n) := by
  unfold literalOf at h ⊢
  repeat
    split at h
    · next htest =>
        cases h
        rw [if_pos htest]
        exact ⟨_, rfl⟩
    rename_i htest
    rw [if_neg htest]
  cases h

theorem Atom.lt (h : Atom stream s s') : s.head < s'.head := by
  cases h with
  | identifier => exact Nat.lt_succ_self _
  | literal h => exact Nat.lt_add_of_pos_right (length_pos_of_literalOf h)
  | sizeof _ hparse => exact ((parseType_quiet _).of_done hparse).later.head

theorem Atom.operand {parse : ParserM (Option Expression)} (h : Atom stream s s')
    (e : ExpressionState) : ∃ kind payload,
      operand stream parse e s = .done (some (.leaf kind payload s.head)) s' := by
  unfold ParseContext.operand
  rw [gettok_bind, gettok_one_bind]
  cases h with
  | identifier htype hnext =>
      refine ⟨.identifier, .str e.name, ?_⟩
      rw [if_pos htype]
      unfold identifierOperand
      rw [getloc_bind, advance_bind, gettok_bind, if_neg hnext]
      rfl
  | @literal _ kind _ n h =>
      obtain ⟨payload', hliteral⟩ := literalOf_any h e
      refine ⟨kind, payload', ?_⟩
      rw [if_neg (fun htype => by simp [literalOf, htype] at h), hliteral]
      rfl
  | @sizeof type _ htype hparse =>
      have hliteral : literalOf (tokenAt stream s.head) (tokenAt stream (s.head + 1)) e = none := by
        simp [literalOf, htype]
      refine ⟨.sizeof, .str type, ?_⟩
      rw [if_neg (by rw [htype]; decide), hliteral]
      dsimp only
      rw [if_pos htype, getloc_bind, advance_bind, bind_of_done hparse]
      rfl

/-- The arguments are read from tokens between the two indices. -/
def Between (stream : TokenStream) (i j : ℕ) (arguments : List Expression) : Prop :=
  ∀ a ∈ arguments, ∃ start stop, i < start ∧ stop ≤ j ∧ Located stream start a stop

theorem located_call {i j : ℕ} {name : String} {arguments : List Expression}
    (h : Between stream i j arguments) (hle : i ≤ j) :
    Located stream i (.call name arguments i) (j + 1) := by
  have hspans : ∀ k : ℕ, ∃ span : ℕ × ℕ, ∀ a : Expression, arguments[k]? = some a →
      i < span.1 ∧ span.2 ≤ j ∧ Located stream span.1 a span.2 := by
    intro k
    cases hk : arguments[k]? with
    | none => exact ⟨(0, 0), fun a ha => by cases ha⟩
    | some a =>
        obtain ⟨start, stop, hspan⟩ := h a (List.mem_of_getElem? hk)
        refine ⟨(start, stop), fun a' ha' => ?_⟩
        obtain rfl := Option.some.inj ha'
        exact hspan
  choose span hspan using hspans
  refine .call (fun k => (span k).1) (fun k => (span k).2) (Nat.lt_succ_of_le hle) (fun k hk => ?_)
    fun k a ha => (hspan k a ha).2.2
  obtain ⟨hstart, hstop, -⟩ := hspan k _ (List.getElem?_eq_getElem hk)
  exact ⟨hstart, Nat.lt_succ_of_le hstop⟩

theorem Between.mono {i j j' : ℕ} {arguments : List Expression} (h : Between stream i j arguments)
    (hle : j ≤ j') : Between stream i j' arguments := by
  intro a hmem
  obtain ⟨start, stop, hstart, hstop, hlocated⟩ := h a hmem
  exact ⟨start, stop, hstart, Nat.le_trans hstop hle, hlocated⟩

theorem Between.concat {i j start stop : ℕ} {arguments : List Expression} {a : Expression}
    (h : Between stream i j arguments) (hstart : i < start) (hstop : stop ≤ j)
    (ha : Located stream start a stop) : Between stream i j (arguments ++ [a]) := by
  intro x hmem
  rcases List.mem_append.mp hmem with hmem | hmem
  · exact h x hmem
  · obtain rfl := List.mem_singleton.mp hmem
    exact ⟨start, stop, hstart, hstop, ha⟩

/-! ### Whole expressions -/

/-- The expressions inside are parsed as they should be. -/
def Parses (stream : TokenStream) (garbage : BitVec 32) (N : State → State → Prop) : Prop :=
  ∀ s s', N s s' → ∃ expr, parseExpression stream garbage s = .done (some expr) s' ∧
    Located stream s.head expr s'.head

theorem loop_arguments_ne_cutOff (arguments : List Expression) (s : State) :
    loop (argumentRound stream (parseExpression stream garbage)) (bound stream) arguments s ≠
      .cutOff := by
  have hmeets : (loop (argumentRound stream (parseExpression stream garbage)) (bound stream)
      arguments s).Meets True (Returns s) :=
    meets_parts stream (fun arguments s₁ _ => argumentRound_meets
      (parseExpressionAt_sound garbage (bound stream) s₁.head) (fun _ => remaining_lt_bound s₁)
      arguments) arguments
  intro hcut
  rw [hcut] at hmeets
  exact hmeets trivial

section Whole

variable {N : State → State → Prop} (hN : Parses stream garbage N)

include hN

theorem loop_arguments {i : ℕ} (h : Arguments stream N s s') :
    ∀ (arguments : List Expression) (rounds : ℕ), i < s.head →
      Between stream i s.head arguments →
      loop (argumentRound stream (parseExpression stream garbage)) rounds arguments s ≠ .cutOff →
      ∃ arguments', loop (argumentRound stream (parseExpression stream garbage)) rounds arguments s =
        .done (some arguments') s' ∧ ∃ j, s'.head = j + 1 ∧ i ≤ j ∧ Between stream i j arguments' := by
  induction h with
  | @close s hclose =>
      intro arguments rounds hlt hbetween hne
      obtain ⟨rounds, rfl⟩ := exists_round hne
      have hround : argumentRound stream (parseExpression stream garbage) arguments s =
          .done (.finish (some arguments)) { s with head := s.head + 1 } := by
        unfold argumentRound
        rw [gettok_bind, if_neg (by rw [hclose]; decide), if_pos hclose]
        rfl
      exact ⟨arguments, loop_of_finish hround rounds, s.head, rfl, Nat.le_of_lt hlt, hbetween⟩
  | @last s s₁ s' h hclose hrest ih =>
      intro arguments rounds hlt hbetween hne
      obtain ⟨expr, hparse, hlocated⟩ := hN s s₁ h
      obtain ⟨heof, hparen⟩ := parseExpression_starts hparse
      have hle := hlocated.anchor
      have hround : argumentRound stream (parseExpression stream garbage) arguments s =
          .done (.again (arguments ++ [expr])) s₁ := by
        unfold argumentRound
        rw [gettok_bind, if_neg heof, if_neg hparen, bind_of_done hparse]
        dsimp only
        rw [gettok_bind, if_neg (by rw [hclose]; decide), if_pos hclose]
        rfl
      obtain ⟨rounds, rfl⟩ := exists_round hne
      rw [loop_of_again hround] at hne ⊢
      refine ih _ rounds (by omega) ?_ hne
      exact (hbetween.mono (by omega)).concat hlt (Nat.le_refl _) hlocated
  | @comma s s₁ s' h hcomma hrest ih =>
      intro arguments rounds hlt hbetween hne
      obtain ⟨expr, hparse, hlocated⟩ := hN s s₁ h
      obtain ⟨heof, hparen⟩ := parseExpression_starts hparse
      have hle := hlocated.anchor
      have hround : argumentRound stream (parseExpression stream garbage) arguments s =
          .done (.again (arguments ++ [expr])) { s₁ with head := s₁.head + 1 } := by
        unfold argumentRound
        rw [gettok_bind, if_neg heof, if_neg hparen, bind_of_done hparse]
        dsimp only
        rw [gettok_bind, if_pos hcomma]
        rfl
      obtain ⟨rounds, rfl⟩ := exists_round hne
      rw [loop_of_again hround] at hne ⊢
      refine ih _ rounds (by dsimp only; omega) ?_ hne
      exact (hbetween.mono (by dsimp only; omega)).concat hlt (Nat.le_succ _) hlocated

/-- The operators that rise are parsed with their locations.  The induction is on the rest of the
expression. -/
theorem loop_rest {isOperator : Bool} {last : Option ℤ}
    (h : Rest stream garbage N isOperator last s s') :
    ∀ (i : ℕ) (e : ExpressionState) (rounds : ℕ), Standing stream i isOperator last e s.head →
      loop (expressionRound stream (parseExpression stream garbage)) rounds e s ≠ .cutOff →
      ∃ expr, loop (expressionRound stream (parseExpression stream garbage)) rounds e s =
        .done (some expr) s' ∧ Located stream i expr s'.head := by
  induction h with
  | prefixOperator hkind hcast h ih =>
      intro i e rounds hstanding hne
      obtain ⟨st, hgoes, hstanding'⟩ := InFront.goes_prefix hstanding hkind hcast
      obtain ⟨rounds, rfl⟩ := exists_round hne
      rw [loop_of_again hgoes.round] at hne ⊢
      exact ih i _ rounds hstanding' hne
  | cast hkind htype h ih =>
      intro i e rounds hstanding hne
      obtain ⟨st, hgoes, hstanding'⟩ := InFront.goes_cast hstanding hkind htype
      obtain ⟨rounds, rfl⟩ := exists_round hne
      rw [loop_of_again hgoes.round] at hne ⊢
      exact ih i _ rounds hstanding' hne
  | atom hfront ha h ih =>
      intro i e rounds hstanding hne
      obtain ⟨kind, payload, hoperand⟩ := ha.operand _
      obtain ⟨st, hgoes, hstanding'⟩ :=
        InFront.goes_operand hstanding hfront hoperand (.leaf ha.lt)
      obtain ⟨rounds, rfl⟩ := exists_round hne
      rw [loop_of_again hgoes.round] at hne ⊢
      exact ih i _ rounds hstanding' hne
  | @call last s s₁ s' htype hopen harguments h ih =>
      intro i e rounds hstanding hne
      obtain ⟨arguments, hloop, j, hhead, hle, hbetween⟩ := loop_arguments (i := s.head) hN harguments []
        (bound stream) (Nat.lt_succ_of_lt (Nat.lt_succ_self _)) (fun a hmem => by cases hmem)
        (loop_arguments_ne_cutOff _ _)
      have ha : Operand stream garbage s
          (.call (stream.payload (tokenAt stream s.head)).text arguments s.head) s₁ :=
        .call htype hopen hloop
      have hlocated : Located stream s.head
          (.call (stream.payload (tokenAt stream s.head)).text arguments s.head) s₁.head := by
        rw [hhead]
        exact located_call hbetween hle
      obtain ⟨st, hgoes, hstanding'⟩ := InFront.goes_operand hstanding
        (prefixOf_of_starts ha.starts) (operand_done ha e) hlocated
      obtain ⟨rounds, rfl⟩ := exists_round hne
      rw [loop_of_again hgoes.round] at hne ⊢
      exact ih i _ rounds hstanding' hne
  | @parenthesised last s s₁ s' hopen hexpr hclose h ih =>
      intro i e rounds hstanding hne
      obtain ⟨expr, hparse, hlocated⟩ := hN _ _ hexpr
      have ha : Operand stream garbage s expr { s₁ with head := s₁.head + 1 } :=
        .parenthesised hopen hparse hclose
      obtain ⟨st, hgoes, hstanding'⟩ := InFront.goes_operand hstanding
        (prefixOf_of_starts ha.starts) (operand_done ha e) (.parenthesised hopen hlocated hclose)
      obtain ⟨rounds, rfl⟩ := exists_round hne
      rw [loop_of_again hgoes.round] at hne ⊢
      exact ih i _ rounds hstanding' hne
  | ends hends =>
      intro i e rounds hstanding hne
      obtain ⟨expr, hstops, hlocated⟩ := Behind.stops hstanding hends
      obtain ⟨rounds, rfl⟩ := exists_round hne
      exact ⟨expr, loop_of_finish hstops.round rounds, hlocated⟩
  | operator hkind hpost hlt h ih =>
      intro i e rounds hstanding hne
      obtain ⟨st, hgoes, hstanding'⟩ := Behind.goes_operator hstanding hkind hpost hlt
      obtain ⟨rounds, rfl⟩ := exists_round hne
      rw [loop_of_again hgoes.round] at hne ⊢
      exact ih i _ rounds hstanding' hne
  | postfixOperator hkind hpost h ih =>
      intro i e rounds hstanding hne
      obtain ⟨st, hgoes, hstanding'⟩ := Behind.goes_postfix hstanding hkind hpost
      obtain ⟨rounds, rfl⟩ := exists_round hne
      rw [loop_of_again hgoes.round] at hne ⊢
      exact ih i _ rounds hstanding' hne
  | member hdot hname h ih =>
      intro i e rounds hstanding hne
      obtain ⟨st, hgoes, hstanding'⟩ := Behind.goes_member hstanding hdot hname
      obtain ⟨rounds, rfl⟩ := exists_round hne
      rw [loop_of_again hgoes.round] at hne ⊢
      exact ih i _ rounds hstanding' hne
  | index hopen hright hclose h ih =>
      intro i e rounds hstanding hne
      obtain ⟨expr, hparse, hlocated⟩ := hN _ _ hright
      have hanchor := hlocated.anchor
      obtain ⟨st, hgoes, hstanding'⟩ := Behind.goes_index hstanding hopen hparse hclose
        (Nat.le_of_lt (Nat.lt_of_le_of_lt hanchor.1 hanchor.2)) (fun expr' heq => by
          obtain rfl := Option.some.inj heq
          exact hlocated)
      obtain ⟨rounds, rfl⟩ := exists_round hne
      rw [loop_of_again hgoes.round] at hne ⊢
      exact ih i _ rounds hstanding' hne
  | missing hopen hright hclose h ih =>
      intro i e rounds hstanding hne
      have hlater := ((parseExpressionAt_quiet _ _).of_done hright).later.head
      obtain ⟨st, hgoes, hstanding'⟩ := Behind.goes_index hstanding hopen hright hclose hlater
        (fun expr heq => by cases heq)
      obtain ⟨rounds, rfl⟩ := exists_round hne
      rw [loop_of_again hgoes.round] at hne ⊢
      exact ih i _ rounds hstanding' hne

end Whole

theorem parses_risingAt : ∀ depth, Parses stream garbage (RisingAt stream garbage depth)
  | 0 => fun _ _ h => h.elim
  | depth + 1 => by
      intro s s' h
      have hne : parseExpression stream garbage s ≠ .cutOff := parseExpression_ne_cutOff s
      have hstart : InFront stream s.head none { decimal := garbage } s.head :=
        ⟨.nil, .nil, rfl, rfl, rfl, rfl, rfl, rfl⟩
      rw [parseExpression_eq] at hne ⊢
      exact loop_rest (parses_risingAt depth) h s.head _ _ hstart hne

/-! ## Located operators rise -/

/-- The depth that bounds the calls does not show. -/
theorem parseExpression_of_at {depth : ℕ} {r : Option Expression}
    (h : parseExpressionAt stream garbage depth s = .done r s') :
    parseExpression stream garbage s = .done r s' := by
  have hextends : ∀ {depth depth' : ℕ}, depth ≤ depth' →
      Extends (parseExpressionAt stream garbage depth') (parseExpressionAt stream garbage depth) := by
    intro depth depth' hle
    induction hle with
    | refl => exact .refl _
    | step _ ih =>
        intro s hne
        rw [← ih s hne]
        exact parseExpressionAt_extends _ s (by rw [ih s hne]; exact hne)
  rcases Nat.le_total depth (bound stream) with hle | hle
  · rw [parseExpression, hextends hle s (by rw [h]; simp), h]
  · have hsame : parseExpressionAt stream garbage depth s = parseExpression stream garbage s :=
      hextends hle s (parseExpression_ne_cutOff s)
    rw [← hsame, h]

/-- What is known of the expressions inside: they rise or they are not located. -/
structure Inside (stream : TokenStream) (garbage : BitVec 32) (N : State → State → Prop)
    (parse : ParserM (Option Expression)) : Prop where
  rising : ∀ s expr s', parse s = .done (some expr) s' → N s s' ∨ Unlocated stream expr
  anchor : ∀ s expr s', parse s = .done (some expr) s' → expr.anchor < s'.head
  quiet : Quiet stream parse
  missing : ∀ s s', parse s = .done none s' → parseExpression stream garbage s = .done none s'

/-- The precedence of the last binary operator. -/
def lastRank (operations : List ExpressionKind) : Option ℤ :=
  (operations.dropWhile ExpressionKind.isUnary).head?.map ExpressionKind.rank

/-- The variables of `parseExpression`, as far as the operators that wait matter. -/
structure Reading (last : Option ℤ) (isOperator : Bool) (st : Stacks) (head : ℕ) : Prop where
  anchors : ∀ x ∈ st.expressions, x.anchor < head
  last : last = lastRank st.operations
  binary : isOperator = true → st.operations.dropWhile ExpressionKind.isUnary = st.operations

namespace Stacks

variable {st st' : Stacks} {operations : List ExpressionKind}

theorem fixUnary_spec : ∀ {operations : List ExpressionKind} {st : Stacks},
    st.fixUnary operations = some st' →
      st'.operations = operations.dropWhile ExpressionKind.isUnary ∧
        ∀ x ∈ st'.expressions, ∃ y ∈ st.expressions, x.anchor = y.anchor
  | [], st, h => by
      obtain rfl := Option.some.inj h
      exact ⟨rfl, fun x hmem => ⟨x, hmem, rfl⟩⟩
  | op :: operations, st, h => by
      rw [fixUnary] at h
      split at h
      · next hop =>
          obtain ⟨st₁, happly, hfix⟩ := Option.bind_eq_some_iff.mp h
          obtain ⟨left, expressions, name, location, hbefore, hafter⟩ := applyUnary_expressions happly
          obtain ⟨hoperations, hanchors⟩ := fixUnary_spec hfix
          refine ⟨by rw [hoperations, List.dropWhile_cons_of_pos hop], fun x hmem => ?_⟩
          obtain ⟨y, hy, hxy⟩ := hanchors x hmem
          rw [hafter] at hy
          rw [hbefore]
          rcases List.mem_cons.mp hy with rfl | hy
          · exact ⟨left, List.mem_cons_self, hxy⟩
          · exact ⟨y, List.mem_cons_of_mem _ hy, hxy⟩
      · next hop =>
          obtain rfl := Option.some.inj h
          exact ⟨by rw [List.dropWhile_cons_of_neg hop], fun x hmem => ⟨x, hmem, rfl⟩⟩

/-- Behind an operand nothing but binary operators waits. -/
theorem fixUnary_reading {last : Option ℤ} {head : ℕ} (h : st.fixUnary operations = some st')
    (hanchors : ∀ x ∈ st.expressions, x.anchor < head) (hlast : last = lastRank operations) :
    Reading last true st' head := by
  obtain ⟨hoperations, hsame⟩ := fixUnary_spec h
  refine ⟨fun x hmem => ?_, ?_, fun _ => ?_⟩
  · obtain ⟨y, hy, hxy⟩ := hsame x hmem
    rw [hxy]
    exact hanchors y hy
  · rw [hlast, lastRank, lastRank, hoperations, List.dropWhile_idempotent]
  · rw [hoperations, List.dropWhile_idempotent]

theorem anchors_applyBinary {op : ExpressionKind} (h : st.applyBinary op = some st') :
    ∀ x ∈ st'.expressions, ∃ y ∈ st.expressions, x.anchor = y.anchor := by
  obtain ⟨right, left, expressions, location, hbefore, -, hafter⟩ := applyBinary_expressions h
  rw [hbefore, hafter]
  intro x hmem
  rcases List.mem_cons.mp hmem with rfl | hmem
  · exact ⟨left, by simp, rfl⟩
  · exact ⟨x, by simp [hmem], rfl⟩

theorem anchors_trans {st₁ : Stacks}
    (h : ∀ x ∈ st₁.expressions, ∃ y ∈ st.expressions, x.anchor = y.anchor)
    (h' : ∀ x ∈ st'.expressions, ∃ y ∈ st₁.expressions, x.anchor = y.anchor) :
    ∀ x ∈ st'.expressions, ∃ y ∈ st.expressions, x.anchor = y.anchor := by
  intro x hmem
  obtain ⟨y, hy, hxy⟩ := h' x hmem
  obtain ⟨z, hz, hyz⟩ := h y hy
  exact ⟨z, hz, hxy.trans hyz⟩

theorem anchors_reduceLeft {right : ExpressionKind} :
    ∀ {operations : List ExpressionKind} {st : Stacks}, st.reduceLeft right operations = some st' →
      ∀ x ∈ st'.expressions, ∃ y ∈ st.expressions, x.anchor = y.anchor
  | [], st, h => by
      obtain rfl := Option.some.inj h
      exact fun x hmem => ⟨x, hmem, rfl⟩
  | left :: operations, st, h => by
      unfold reduceLeft at h
      split at h
      · split at h
        · obtain ⟨st₁, happly, hreduce⟩ := Option.bind_eq_some_iff.mp h
          exact anchors_trans (anchors_applyBinary happly) (anchors_reduceLeft hreduce)
        · obtain rfl := Option.some.inj h
          exact fun x hmem => ⟨x, hmem, rfl⟩
      · cases h

theorem anchors_reduceAll : ∀ {operations : List ExpressionKind} {st : Stacks},
    st.reduceAll operations = some st' →
      ∀ x ∈ st'.expressions, ∃ y ∈ st.expressions, x.anchor = y.anchor
  | [], st, h => by
      obtain rfl := Option.some.inj h
      exact fun x hmem => ⟨x, hmem, rfl⟩
  | op :: operations, st, h => by
      obtain ⟨st₁, happly, hreduce⟩ := Option.bind_eq_some_iff.mp h
      exact anchors_trans (anchors_applyBinary happly) (anchors_reduceAll hreduce)

/-- An operator that is reduced in front of another one gets the location of the latter, behind
its right operand. -/
theorem unlocated_of_reduceLeft {right left : ExpressionKind} {p q : ℤ} {location : SourceLocation}
    {locations : List SourceLocation} (h : st.reduceLeft right (left :: operations) = some st')
    (hp : left.precedence = some p) (hq : right.precedence = some q) (hle : p ≥ q)
    (hlocations : st.savedLocations = location :: locations)
    (hanchors : ∀ x ∈ st.expressions, x.anchor < location) :
    Carries (fun _ => False) (Unlocated stream) st'.operations st' := by
  rw [reduceLeft, hp, hq] at h
  dsimp only at h
  rw [if_pos hle] at h
  obtain ⟨st₁, happly, hreduce⟩ := Option.bind_eq_some_iff.mp h
  obtain ⟨r, l, expressions, location', hbefore, hlocation, hafter⟩ := applyBinary_expressions happly
  rw [hlocations] at hlocation
  obtain rfl := Option.some.inj hlocation
  have hunlocated : Unlocated stream (.binary left l r location) :=
    unlocated_binary (hanchors r (by rw [hbefore]; exact List.mem_cons_self))
  refine carries_reduceLeft inherited_unlocated hreduce (.inr ⟨_, ?_, hunlocated⟩)
  rw [hafter]
  exact List.mem_cons_self

end Stacks

section Inversion

variable {parse : ParserM (Option Expression)} {N : State → State → Prop} {e : ExpressionState}

/-- What an operand is. -/
theorem operand_cases {a : Expression} (h : operand stream parse e s = .done (some a) s') :
    (Atom stream s s' ∧ a.anchor = s.head) ∨
    ((tokenAt stream s.head).type = .id ∧ (tokenAt stream (s.head + 1)).type = .ascii '(' ∧
      ∃ name arguments, loop (argumentRound stream parse) (bound stream) []
        { s with head := s.head + 1 + 1 } = .done (some arguments) s' ∧
        a = .call name arguments s.head) ∨
    ((tokenAt stream s.head).type = .ascii '(' ∧ ∃ s₁,
      parse { s with head := s.head + 1 } = .done (some a) s₁ ∧
      (tokenAt stream s₁.head).type = .ascii ')' ∧ s' = { s₁ with head := s₁.head + 1 }) := by
  unfold operand at h
  rw [gettok_bind, gettok_one_bind] at h
  split at h
  · next htype =>
      unfold identifierOperand at h
      rw [getloc_bind, advance_bind, gettok_bind] at h
      split at h
      · next hopen =>
          rw [advance_bind] at h
          obtain ⟨r, s₁, hloop, h⟩ := exists_of_bind_done h
          cases r with
          | none => cases h
          | some arguments =>
              obtain ⟨heq, rfl⟩ := eq_of_pure_done h
              obtain rfl := Option.some.inj heq
              exact .inr (.inl ⟨htype, hopen, _, arguments, hloop, rfl⟩)
      · next hnext =>
          obtain ⟨heq, rfl⟩ := eq_of_pure_done h
          obtain rfl := Option.some.inj heq
          exact .inl ⟨.identifier htype hnext, rfl⟩
  · next htype =>
      cases hliteral : literalOf (tokenAt stream s.head) (tokenAt stream (s.head + 1)) e with
      | some literal =>
          obtain ⟨kind, payload, n⟩ := literal
          rw [hliteral] at h
          cases h
          exact .inl ⟨.literal hliteral, rfl⟩
      | none =>
          rw [hliteral] at h
          dsimp only at h
          split at h
          · next hsizeof =>
              rw [getloc_bind, advance_bind] at h
              obtain ⟨type, s₁, hparse, h⟩ := exists_of_bind_done h
              obtain ⟨heq, rfl⟩ := eq_of_pure_done h
              obtain rfl := Option.some.inj heq
              exact .inl ⟨.sizeof hsizeof hparse, rfl⟩
          · split at h
            · next hopen =>
                unfold parenthesised at h
                rw [advance_bind] at h
                obtain ⟨r, s₁, hparse, h⟩ := exists_of_bind_done h
                cases r with
                | none => cases h
                | some expr =>
                    dsimp only at h
                    rw [gettok_bind] at h
                    split at h
                    · next hclose =>
                        rw [advance_bind] at h
                        obtain ⟨heq, rfl⟩ := eq_of_pure_done h
                        obtain rfl := Option.some.inj heq
                        exact .inr (.inr ⟨hopen, s₁, hparse, hclose, rfl⟩)
                    · cases h
            · cases h

/-- The arguments of a call rise, or one of them is not located. -/
theorem arguments_of_loop (hinside : Inside stream garbage N parse) :
    ∀ (rounds : ℕ) (arguments : List Expression) (s : State) (arguments' : List Expression)
      (s' : State), loop (argumentRound stream parse) rounds arguments s = .done (some arguments') s' →
      (∀ a ∈ arguments, a ∈ arguments') ∧
        (Arguments stream N s s' ∨ ∃ a ∈ arguments', Unlocated stream a) := by
  intro rounds
  induction rounds with
  | zero => exact fun _ _ _ _ h => by cases h
  | succ rounds ih =>
      intro arguments s arguments' s' h
      obtain ⟨r, s₁, hround, hrest⟩ := exists_of_bind_done h
      unfold argumentRound at hround
      rw [gettok_bind] at hround
      split at hround
      · cases hround
        cases hrest
      split at hround
      · next hclose =>
          cases hround
          obtain ⟨heq, rfl⟩ := eq_of_pure_done hrest
          obtain rfl := Option.some.inj heq
          exact ⟨fun a hmem => hmem, .inl (.close hclose)⟩
      obtain ⟨r', s₂, hparse, hround⟩ := exists_of_bind_done hround
      cases r' with
      | none =>
          cases hround
          cases hrest
      | some expr =>
          have hexpr := hinside.rising s expr s₂ hparse
          dsimp only at hround
          rw [gettok_bind] at hround
          split at hround
          · next hcomma =>
              cases hround
              obtain ⟨hsubset, harguments⟩ := ih _ _ _ _ hrest
              refine ⟨fun a hmem => hsubset a (List.mem_append_left _ hmem), ?_⟩
              rcases hexpr with hexpr | hexpr
              · exact harguments.imp_left (.comma hexpr hcomma)
              · exact .inr ⟨expr, hsubset expr (by simp), hexpr⟩
          split at hround
          · next hclose =>
              cases hround
              obtain ⟨hsubset, harguments⟩ := ih _ _ _ _ hrest
              refine ⟨fun a hmem => hsubset a (List.mem_append_left _ hmem), ?_⟩
              rcases hexpr with hexpr | hexpr
              · exact harguments.imp_left (.last hexpr hclose)
              · exact .inr ⟨expr, hsubset expr (by simp), hexpr⟩
          · cases hround
            cases hrest

/-- An operand rises, or it is not located. -/
theorem rest_of_operand (hinside : Inside stream garbage N parse) {a : Expression}
    (hfront : prefixOf (tokenAt stream s.head) (tokenAt stream (s.head + 1)) = none)
    (h : operand stream parse e s = .done (some a) s') :
    a.anchor < s'.head ∧ (Unlocated stream a ∨ ∀ last s₂,
      Rest stream garbage N true last s' s₂ → Rest stream garbage N false last s s₂) := by
  rcases operand_cases h with
    ⟨hatom, hanchor⟩ | ⟨htype, hopen, name, arguments, hloop, rfl⟩ | ⟨hopen, s₁, hparse, hclose, rfl⟩
  · exact ⟨hanchor ▸ hatom.lt, .inr fun last s₂ hrest => .atom hfront hatom hrest⟩
  · have hlater := ((Quiet.loop (argumentRound_quiet hinside.quiet) _ _ _).of_done hloop).later.head
    refine ⟨Nat.lt_of_lt_of_le (Nat.lt_succ_of_lt (Nat.lt_succ_self _)) hlater, ?_⟩
    rcases (arguments_of_loop hinside _ _ _ _ _ hloop).2 with harguments | ⟨x, hmem, hx⟩
    · exact .inr fun last s₂ hrest => .call htype hopen harguments hrest
    · exact .inl (unlocated_call hmem hx)
  · refine ⟨Nat.lt_succ_of_lt (hinside.anchor _ _ _ hparse), ?_⟩
    rcases hinside.rising _ _ _ hparse with hrising | hunlocated
    · exact .inr fun last s₂ hrest => .parenthesised hopen hrising hclose hrest
    · exact .inl hunlocated

/-- What a round says of the rest of the expression behind it. -/
def Leads (stream : TokenStream) (garbage : BitVec 32) (N : State → State → Prop)
    (last : Option ℤ) (isOperator : Bool) (s : State) (isOperator' : Bool) (st : Stacks)
    (s₁ : State) : Prop :=
  st.Carries (fun _ => False) (Unlocated stream) st.operations ∨
    ∃ last', Reading last' isOperator' st s₁.head ∧ ∀ s₂,
      Rest stream garbage N isOperator' last' s₁ s₂ → Rest stream garbage N isOperator last s s₂

theorem lt_of_anchors {st : Stacks} {i j : ℕ} (h : ∀ x ∈ st.expressions, x.anchor < i)
    (hle : i ≤ j) : ∀ x ∈ st.expressions, x.anchor < j :=
  fun x hmem => Nat.lt_of_lt_of_le (h x hmem) hle

/-- The anchors below something that is put around the top of the stack. -/
theorem anchors_wrap {left x : Expression} {expressions : List Expression} {i j : ℕ}
    (h : ∀ x ∈ e.expressions, x.anchor < i) (hleft : e.expressions = left :: expressions)
    (hx : x.anchor = left.anchor) (hle : i ≤ j) : ∀ y ∈ x :: expressions, y.anchor < j := by
  rw [hleft] at h
  intro y hmem
  rcases List.mem_cons.mp hmem with rfl | hmem
  · rw [hx]
    exact Nat.lt_of_lt_of_le (h left List.mem_cons_self) hle
  · exact Nat.lt_of_lt_of_le (h y (List.mem_cons_of_mem _ hmem)) hle

theorem lastRank_cons {op : ExpressionKind} (hop : op.isUnary = true)
    (operations : List ExpressionKind) : lastRank (op :: operations) = lastRank operations := by
  rw [lastRank, List.dropWhile_cons_of_pos hop, lastRank]

theorem lastRank_binary {op : ExpressionKind} (hop : op.isBinary = true)
    (operations : List ExpressionKind) : lastRank (op :: operations) = some op.rank := by
  rw [lastRank, List.dropWhile_cons_of_neg (by rw [ExpressionKind.not_isUnary hop]; simp)]
  rfl

theorem Goes.leads (hinside : Inside stream garbage N parse) {op : Bool} {st : Stacks}
    (h : Goes stream parse e s op st s') {last : Option ℤ}
    (hreading : Reading last e.isOperator e.toStacks s.head) :
    Leads stream garbage N last e.isOperator s op st s' := by
  obtain ⟨hanchors, hlast, hbinary⟩ := hreading
  cases h with
  | prefixOperator hoperator hkind hcast =>
      rw [hoperator]
      refine .inr ⟨last, ⟨lt_of_anchors hanchors (Nat.le_add_right _ _), ?_, fun h => by cases h⟩,
        fun s₂ hrest => .prefixOperator hkind hcast hrest⟩
      exact hlast.trans (lastRank_cons (isUnary_of_appendOf hkind) _).symm
  | cast hoperator hkind htype =>
      have hlater := ((parseType_quiet _).of_done htype).later.head
      rw [hoperator]
      refine .inr ⟨last, ⟨lt_of_anchors hanchors (Nat.le_trans (Nat.le_add_right _ _) hlater), ?_,
        fun h => by cases h⟩, fun s₂ hrest => .cast hkind htype hrest⟩
      exact hlast.trans (lastRank_cons rfl _).symm
  | operand hoperator hfront ha hfix =>
      rw [hoperator]
      have hlater := ((operand_quiet hinside.quiet _ _).of_done ha).later.head
      obtain ⟨hanchor, hrest⟩ := rest_of_operand hinside hfront ha
      rcases hrest with hunlocated | hrest
      · exact .inl (Stacks.carries_fixUnary inherited_unlocated hfix
          (.inr ⟨_, List.mem_cons_self, hunlocated⟩))
      · refine .inr ⟨last, Stacks.fixUnary_reading hfix (fun x hmem => ?_) hlast, hrest last⟩
        rcases List.mem_cons.mp hmem with rfl | hmem
        · exact hanchor
        · exact Nat.lt_of_lt_of_le (hanchors x hmem) hlater
  | postfixOperator hoperator hkind hpost hfix =>
      rw [hoperator]
      refine .inr ⟨last, Stacks.fixUnary_reading hfix
        (lt_of_anchors hanchors (Nat.le_add_right _ _)) ?_, fun s₂ hrest =>
          .postfixOperator hkind hpost hrest⟩
      exact hlast.trans (lastRank_cons (isUnary_of_isPostfix hpost) _).symm
  | @binary kind n st hoperator hkind hpost hreduce =>
      have hkind' := isBinary_of_operatorOf hkind hpost
      rw [hoperator]
      have hhead := hbinary hoperator
      cases hoperations : e.operations with
      | nil =>
          rw [hoperations] at hreduce
          obtain rfl := Option.some.inj hreduce
          refine .inr ⟨some kind.rank, ⟨lt_of_anchors hanchors (Nat.le_add_right _ _), ?_,
            fun h => by cases h⟩, fun s₂ hrest => .operator hkind hpost ?_ hrest⟩
          · exact (lastRank_binary hkind' _).symm
          · intro rank heq
            rw [hlast, hoperations] at heq
            cases heq
      | cons left operations =>
          rw [hoperations] at hreduce hhead hlast
          have hreduce' := hreduce
          rw [Stacks.reduceLeft, ExpressionKind.precedence_eq hkind'] at hreduce'
          cases hp : left.precedence with
          | none =>
              rw [hp] at hreduce'
              cases hreduce'
          | some p =>
              rw [hp] at hreduce'
              dsimp only at hreduce'
              split at hreduce'
              · next hle =>
                  exact .inl (Stacks.unlocated_of_reduceLeft hreduce hp
                    (ExpressionKind.precedence_eq hkind') hle rfl hanchors)
              · next hlt =>
                  obtain rfl := Option.some.inj hreduce'
                  refine .inr ⟨some kind.rank, ⟨lt_of_anchors hanchors (Nat.le_add_right _ _), ?_,
                    fun h => by cases h⟩, fun s₂ hrest => .operator hkind hpost ?_ hrest⟩
                  · exact (lastRank_binary hkind' _).symm
                  · intro rank heq
                    rw [hlast, lastRank, hhead] at heq
                    have hrank : left.rank = p := by rw [ExpressionKind.rank, hp]; rfl
                    obtain rfl := Option.some.inj heq
                    omega
  | member hoperator hdot hname hleft hfix =>
      rw [hoperator]
      exact .inr ⟨last, Stacks.fixUnary_reading hfix
        (anchors_wrap hanchors hleft rfl (Nat.le_add_right _ 2)) hlast,
        fun s₂ hrest => .member hdot hname hrest⟩
  | @index left expressions right st s₁ hoperator hopen hleft hright hclose hfix =>
      rw [hoperator]
      have hlater := ((hinside.quiet _).of_done hright).later.head
      have hreading := Stacks.fixUnary_reading hfix (anchors_wrap hanchors hleft rfl
        (Nat.le_succ_of_le (Nat.le_trans (Nat.le_succ _) hlater))) hlast
      cases right with
      | none =>
          exact .inr ⟨last, hreading, fun s₂ hrest =>
            .missing hopen (hinside.missing _ _ hright) hclose hrest⟩
      | some expr =>
          rcases hinside.rising _ _ _ hright with hrising | hunlocated
          · exact .inr ⟨last, hreading, fun s₂ hrest => .index hopen hrising hclose hrest⟩
          · exact .inl (Stacks.carries_fixUnary inherited_unlocated hfix
              (.inr ⟨_, List.mem_cons_self, unlocated_index_right hunlocated⟩))

/-- The rounds of one call, from the last one on. -/
theorem loop_rising (hinside : Inside stream garbage N parse) {rounds : ℕ} {expr : Expression}
    (h : loop (expressionRound stream parse) rounds e s = .done (some expr) s') :
    (e.toStacks.Carries (fun _ => False) (Unlocated stream) e.operations → Unlocated stream expr) ∧
      ∀ last, Reading last e.isOperator e.toStacks s.head →
        Unlocated stream expr ∨ Rest stream garbage N e.isOperator last s s' := by
  refine loop_induction (P := fun e s expr s' =>
    (e.toStacks.Carries (fun _ => False) (Unlocated stream) e.operations → Unlocated stream expr) ∧
      ∀ last, Reading last e.isOperator e.toStacks s.head →
        Unlocated stream expr ∨ Rest stream garbage N e.isOperator last s s') ?_ ?_ _ _ _ _ _ h
  · intro e s expr hstops
    refine ⟨hstops.carries inherited_unlocated, fun last _ => .inr ?_⟩
    rw [hstops.isOperator]
    exact .ends hstops.ends
  · rintro e s op st s₁ expr s' hgoes ⟨hcarries, hrest⟩
    refine ⟨fun h => hcarries (hgoes.carries inherited_unlocated h), fun last hreading => ?_⟩
    rcases hgoes.leads hinside hreading with hunlocated | ⟨last', hreading', hleads⟩
    · exact .inl (hcarries hunlocated)
    · exact (hrest last' hreading').imp_right fun hrest => hleads s' hrest

/-- The operands lie in front of what has been read. -/
theorem Goes.anchors (hinside : Inside stream garbage N parse) {op : Bool} {st : Stacks}
    (h : Goes stream parse e s op st s') (hanchors : ∀ x ∈ e.expressions, x.anchor < s.head) :
    ∀ x ∈ st.expressions, x.anchor < s'.head := by
  have hfixed : ∀ {ops : List ExpressionKind} {st₁ : Stacks} {j : ℕ}, st₁.fixUnary ops = some st →
      (∀ x ∈ st₁.expressions, x.anchor < j) → ∀ x ∈ st.expressions, x.anchor < j := by
    intro ops st₁ j hfix hbelow x hmem
    obtain ⟨y, hy, hxy⟩ := (Stacks.fixUnary_spec hfix).2 x hmem
    rw [hxy]
    exact hbelow y hy
  cases h with
  | prefixOperator => exact lt_of_anchors hanchors (Nat.le_add_right _ _)
  | cast _ _ htype =>
      have hlater := ((parseType_quiet _).of_done htype).later.head
      exact lt_of_anchors hanchors (Nat.le_trans (Nat.le_add_right _ _) hlater)
  | operand _ hfront ha hfix =>
      have hlater := ((operand_quiet hinside.quiet _ _).of_done ha).later.head
      refine hfixed hfix fun x hmem => ?_
      rcases List.mem_cons.mp hmem with rfl | hmem
      · exact (rest_of_operand hinside hfront ha).1
      · exact Nat.lt_of_lt_of_le (hanchors x hmem) hlater
  | postfixOperator _ _ _ hfix => exact hfixed hfix (lt_of_anchors hanchors (Nat.le_add_right _ _))
  | binary _ _ _ hreduce =>
      intro x hmem
      obtain ⟨y, hy, hxy⟩ := Stacks.anchors_reduceLeft hreduce x hmem
      rw [hxy]
      exact Nat.lt_of_lt_of_le (hanchors y hy) (Nat.le_add_right _ _)
  | member _ _ _ hleft hfix =>
      exact hfixed hfix (anchors_wrap hanchors hleft rfl (Nat.le_add_right _ 2))
  | index _ _ hleft hright _ hfix =>
      have hlater := ((hinside.quiet _).of_done hright).later.head
      exact hfixed hfix (anchors_wrap hanchors hleft rfl
        (Nat.le_succ_of_le (Nat.le_trans (Nat.le_succ _) hlater)))

theorem loop_anchor (hinside : Inside stream garbage N parse) {rounds : ℕ} {expr : Expression}
    (h : loop (expressionRound stream parse) rounds e s = .done (some expr) s') :
    (∀ x ∈ e.expressions, x.anchor < s.head) → expr.anchor < s'.head := by
  refine loop_induction (P := fun e s expr s' =>
    (∀ x ∈ e.expressions, x.anchor < s.head) → expr.anchor < s'.head) ?_ ?_ _ _ _ _ _ h
  · intro e s expr hstops hanchors
    obtain ⟨-, -, st, hreduce, hexpressions⟩ := hstops
    obtain ⟨y, hy, hxy⟩ := Stacks.anchors_reduceAll hreduce expr (by rw [hexpressions]; simp)
    rw [hxy]
    exact hanchors y hy
  · exact fun e s op st s₁ expr s' hgoes ih hanchors => ih (hgoes.anchors hinside hanchors)

end Inversion

theorem parseExpressionAt_inside : ∀ depth, Inside stream garbage
    (RisingAt stream garbage depth) (parseExpressionAt stream garbage depth)
  | 0 => ⟨fun _ _ _ h => (by cases h), fun _ _ _ h => (by cases h), fun _ => trivial,
      fun _ _ h => (by cases h)⟩
  | depth + 1 => by
      have hinside := @parseExpressionAt_inside depth
      refine ⟨fun s expr s' h => ?_, fun s expr s' h => ?_, parseExpressionAt_quiet _,
        fun s s' h => parseExpression_of_at h⟩
      · have hreading : Reading none false ({ decimal := garbage } : ExpressionState).toStacks s.head :=
          ⟨fun x hmem => (by cases hmem), rfl, fun h => (by cases h)⟩
        exact ((loop_rising hinside h).2 none hreading).symm
      · exact loop_anchor hinside h fun x hmem => by cases hmem

/-! ## The whole expression -/

/-- Every operator of an expression has the location of its own token exactly if, in the
expression and in every one inside of it, each binary operator has a higher precedence than the
one before it. -/
theorem located_iff_rising {expr : Expression}
    (h : parseExpression stream garbage s = .done (some expr) s') :
    Located stream s.head expr s'.head ↔ Rising stream garbage s s' := by
  constructor
  · intro hlocated
    rcases (parseExpressionAt_inside (bound stream)).rising s expr s' h with hrising | hunlocated
    · exact ⟨_, hrising⟩
    · exact absurd hlocated (hunlocated _ _)
  · rintro ⟨depth, hrising⟩
    obtain ⟨expr', hparse, hlocated⟩ := parses_risingAt depth s s' hrising
    rw [h] at hparse
    injection hparse with heq
    obtain rfl := Option.some.inj heq
    exact hlocated

/-- The tokens of `a + b * c;` -/
def rising : TokenStream where
  tokens := [{ type := .id }, { type := .ascii '+' }, { type := .id, dataIndex := 1 },
    { type := .ascii '*' }, { type := .id, dataIndex := 2 }, { type := .ascii ';' }]
  strings := ["a", "b", "c"]
  inBounds := by simp [Token.InBounds]

/-- The tokens of `a * b + c;` -/
def falling : TokenStream where
  tokens := [{ type := .id }, { type := .ascii '*' }, { type := .id, dataIndex := 1 },
    { type := .ascii '+' }, { type := .id, dataIndex := 2 }, { type := .ascii ';' }]
  strings := ["a", "b", "c"]
  inBounds := by simp [Token.InBounds]

theorem parseExpression_rising : parseExpression rising 0 {} = .done (some
    (.binary .add (variableAt "a" 0) (.binary .mul (variableAt "b" 2) (variableAt "c" 4) 3) 1))
    { head := 5 } := by
  rfl

/-- The location of the product is that of the sum. -/
theorem parseExpression_falling : parseExpression falling 0 {} = .done (some
    (.binary .add (.binary .mul (variableAt "a" 0) (variableAt "b" 2) 3) (variableAt "c" 4) 1))
    { head := 5 } := by
  rfl

theorem located_iff_rising_sum :
    Located rising 0 (.binary .add (variableAt "a" 0)
      (.binary .mul (variableAt "b" 2) (variableAt "c" 4) 3) 1) 5 ↔
      Rising rising 0 {} { head := 5 } :=
  located_iff_rising parseExpression_rising

theorem not_located : ¬ ∀ (stream : TokenStream) (garbage : BitVec 32) (s s' : State)
    (expr : Expression), parseExpression stream garbage s = .done (some expr) s' →
    Located stream s.head expr s'.head := by
  intro hall
  have hlocated := hall _ _ _ _ _ parseExpression_falling
  have hproduct : Unlocated falling (.binary .mul (variableAt "a" 0) (variableAt "b" 2) 3) :=
    unlocated_binary (by decide)
  exact hlocated.parted.1 hproduct

end ParseContext

end TinCompiler
