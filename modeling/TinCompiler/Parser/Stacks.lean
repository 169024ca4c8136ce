import TinCompiler.Parser.Expression

/-!
# The stacks of `parseExpression`

`Balanced` says how many entries the four stacks have at the start of a round.  The three loops
that take operations off the stack need it to find their operands, and leave it to the next
round.
-/

namespace TinCompiler

namespace ParseContext

/-- The operators that wait for a second operand. -/
def ExpressionKind.isBinary (kind : ExpressionKind) : Bool := kind matches
  .add | .sub | .div | .mul | .and | .or | .equal | .notEqual | .less | .greater | .lessEqual
    | .greaterEqual | .assign

theorem ExpressionKind.not_isUnary {kind : ExpressionKind} (h : kind.isBinary = true) :
    kind.isUnary = false := by
  cases kind <;> first | rfl | cases h

theorem ExpressionKind.exists_precedence {kind : ExpressionKind} (h : kind.isBinary = true) :
    ∃ p, kind.precedence = some p := by
  cases kind <;> first | exact ⟨_, rfl⟩ | cases h

theorem isBinary_of_charToExprType {type : TokenKind} {kind : ExpressionKind}
    (h : charToExprType type = some kind) : kind.isBinary = true := by
  unfold charToExprType at h
  split at h <;> cases h <;> rfl

/-- One branch of a chain of tests. -/
theorem eq_or_of_ite {α : Type} {c : Prop} [Decidable c] {a b : α} {x : Option α}
    (h : (if c then some a else x) = some b) : a = b ∨ x = some b := by
  split at h
  · exact .inl (Option.some.inj h)
  · exact .inr h

theorem isBinary_of_operatorOf {token token2 : Token} {kind : ExpressionKind} {n : ℕ}
    (h : operatorOf token token2 = some (kind, n)) (hnotPostfix : kind.isPostfix = false) :
    kind.isBinary = true := by
  unfold operatorOf at h
  rcases eq_or_of_ite h with heq | h
  · cases heq; cases hnotPostfix
  rcases eq_or_of_ite h with heq | h
  · cases heq; cases hnotPostfix
  cases hchar : charToExprType token.type with
  | some kind' =>
      rw [hchar] at h
      cases h
      exact isBinary_of_charToExprType hchar
  | none =>
      rw [hchar] at h
      dsimp only at h
      repeat
        rcases eq_or_of_ite h with heq | h
        · cases heq; rfl
      cases h

theorem isUnary_of_isPostfix {kind : ExpressionKind} (h : kind.isPostfix = true) :
    kind.isUnary = true := by
  cases kind <;> first | rfl | cases h

theorem isUnary_of_appendOf {token token2 : Token} {kind : ExpressionKind} {n : ℕ}
    (h : prefixOf token token2 = some (kind, n)) : kind.isUnary = true := by
  unfold prefixOf at h
  grind [ExpressionKind.isUnary]

namespace Stacks

variable {st : Stacks} {operations unary binary : List ExpressionKind}

/-- The entries that go with the operations: one location each, the string of every cast, and
two operands for every binary operator, of which `missing` are still to come. -/
structure Counts (operations : List ExpressionKind) (missing : ℕ) (st : Stacks) : Prop where
  expressions : st.expressions.length + missing =
    (operations.filter ExpressionKind.isBinary).length + 1
  casts : st.castStrings.length = operations.count .cast
  locations : st.savedLocations.length = operations.length

theorem not_isBinary {op : ExpressionKind} (hop : op.isUnary = true) : op.isBinary = false := by
  cases hb : op.isBinary with
  | false => rfl
  | true => rw [ExpressionKind.not_isUnary hb] at hop; cases hop

theorem ne_cast {op : ExpressionKind} (hop : op.isBinary = true) : op ≠ .cast := by
  rintro rfl
  cases hop

theorem Counts.pushUnary {op : ExpressionKind} {missing : ℕ} (hop : op.isUnary = true)
    (hcast : op ≠ .cast) (location : SourceLocation) (h : Counts operations missing st) :
    Counts (op :: operations) missing (st.pushOperation op location) := by
  refine ⟨?_, ?_, congrArg Nat.succ h.locations⟩
  · rw [List.filter_cons_of_neg (by rw [not_isBinary hop]; simp)]
    exact h.expressions
  · rw [List.count_cons_of_ne hcast]
    exact h.casts

/-- A cast comes with the string of its type. -/
theorem Counts.pushCast {missing : ℕ} (location : SourceLocation) (type : String)
    (h : Counts operations missing st) : Counts (.cast :: operations) missing
      { st.pushOperation .cast location with castStrings := type :: st.castStrings } := by
  refine ⟨?_, ?_, congrArg Nat.succ h.locations⟩
  · rw [List.filter_cons_of_neg (by simp [ExpressionKind.isBinary])]
    exact h.expressions
  · rw [List.count_cons_self]
    exact congrArg Nat.succ h.casts

/-- A binary operator waits for its second operand. -/
theorem Counts.pushBinary {op : ExpressionKind} (hop : op.isBinary = true)
    (location : SourceLocation) (h : Counts operations 0 st) :
    Counts (op :: operations) 1 (st.pushOperation op location) := by
  refine ⟨?_, ?_, congrArg Nat.succ h.locations⟩
  · rw [List.filter_cons_of_pos hop]
    exact congrArg Nat.succ h.expressions
  · rw [List.count_cons_of_ne (ne_cast hop)]
    exact h.casts

theorem Counts.pushExpression (expr : Expression) (h : Counts operations 1 st) :
    Counts operations 0 (st.pushExpression expr) :=
  ⟨h.expressions, h.casts, h.locations⟩

/-- The last operand is replaced. -/
theorem Counts.setBack {left expr : Expression} {expressions : List Expression} {missing : ℕ}
    (hes : st.expressions = left :: expressions) (h : Counts operations missing st) :
    Counts operations missing { st with expressions := expr :: expressions } := by
  have hexpressions := h.expressions
  rw [hes] at hexpressions
  exact ⟨hexpressions, h.casts, h.locations⟩

theorem applyUnary_counts {op : ExpressionKind} (hop : op.isUnary = true)
    (h : Counts (op :: operations) 0 st) :
    ∃ st', st.applyUnary op = some st' ∧ Counts operations 0 st' := by
  obtain ⟨hexpressions, hcasts, hlocations⟩ := h
  rw [List.filter_cons_of_neg (by rw [not_isBinary hop]; simp)] at hexpressions
  unfold applyUnary
  cases hes : st.expressions with
  | nil => rw [hes] at hexpressions; simp at hexpressions
  | cons left expressions =>
      cases hls : st.savedLocations with
      | nil => rw [hls] at hlocations; simp at hlocations
      | cons location savedLocations =>
          rw [hes, List.length_cons] at hexpressions
          rw [hls, List.length_cons, List.length_cons] at hlocations
          by_cases hcast : op = .cast
          · subst hcast
            cases hcs : st.castStrings with
            | nil => rw [hcs, List.count_cons_self] at hcasts; simp at hcasts
            | cons name castStrings =>
                rw [hcs, List.length_cons, List.count_cons_self] at hcasts
                refine ⟨_, rfl, ?_, ?_, ?_⟩
                · exact hexpressions
                · exact Nat.succ.inj hcasts
                · exact Nat.succ.inj hlocations
          · rw [List.count_cons_of_ne hcast] at hcasts
            refine ⟨_, if_neg hcast, hexpressions, hcasts, Nat.succ.inj hlocations⟩

theorem applyBinary_counts {op : ExpressionKind} (hop : op.isBinary = true)
    (h : Counts (op :: operations) 0 st) :
    ∃ st', st.applyBinary op = some st' ∧ Counts operations 0 st' ∧
      st'.castStrings = st.castStrings := by
  obtain ⟨hexpressions, hcasts, hlocations⟩ := h
  rw [List.filter_cons_of_pos hop, List.length_cons] at hexpressions
  rw [List.count_cons_of_ne (ne_cast hop)] at hcasts
  unfold applyBinary
  match hes : st.expressions, hls : st.savedLocations with
  | right :: left :: expressions, location :: savedLocations =>
      rw [hes, List.length_cons, List.length_cons] at hexpressions
      rw [hls, List.length_cons, List.length_cons] at hlocations
      refine ⟨_, rfl, ⟨?_, hcasts, Nat.succ.inj hlocations⟩, rfl⟩
      change expressions.length + 1 + 0 = _
      omega
  | [], _ => rw [hes] at hexpressions; simp at hexpressions
  | [_], _ => rw [hes, List.length_singleton] at hexpressions; omega
  | _ :: _ :: _, [] => rw [hls] at hlocations; simp at hlocations

theorem filter_binary (h : ∀ op ∈ binary, op.isBinary = true) :
    binary.filter ExpressionKind.isBinary = binary :=
  List.filter_eq_self.mpr h

/-- The unary operators on the top are taken, down to the binary ones. -/
theorem fixUnary_counts (hbinary : ∀ op ∈ binary, op.isBinary = true) :
    ∀ (unary : List ExpressionKind) (st : Stacks), (∀ op ∈ unary, op.isUnary = true) →
      Counts (unary ++ binary) 0 st →
      ∃ st', fixUnary (unary ++ binary) st = some st' ∧ st'.operations = binary ∧
        Counts binary 0 st' := by
  intro unary
  induction unary with
  | nil =>
      intro st _ h
      cases binary with
      | nil => exact ⟨_, rfl, rfl, h.expressions, h.casts, h.locations⟩
      | cons op binary =>
          refine ⟨{ st with operations := op :: binary }, ?_, rfl, h.expressions, h.casts,
            h.locations⟩
          rw [List.nil_append, fixUnary,
            ExpressionKind.not_isUnary (hbinary op (List.mem_cons_self ..))]
          rfl
  | cons op unary ih =>
      intro st hunary h
      have hop := hunary op (List.mem_cons_self ..)
      obtain ⟨st₁, happly, hcounts⟩ := applyUnary_counts hop h
      obtain ⟨st', hfix, hrest⟩ :=
        ih st₁ (fun op hmem => hunary op (List.mem_cons_of_mem _ hmem)) hcounts
      refine ⟨st', ?_, hrest⟩
      rw [List.cons_append, fixUnary, if_pos hop, happly]
      exact hfix

/-- Behind a binary operator its second operand is missing. -/
theorem reduceLeft_counts {right : ExpressionKind} (hright : right.isBinary = true) :
    ∀ (lefts : List ExpressionKind) (st : Stacks), (∀ op ∈ lefts, op.isBinary = true) →
      Counts (right :: lefts) 1 st →
      ∃ st', reduceLeft right lefts st = some st' ∧
        (∀ op ∈ st'.operations, op.isBinary = true) ∧ Counts st'.operations 1 st' := by
  intro lefts
  induction lefts with
  | nil =>
      intro st _ h
      refine ⟨_, rfl, ?_, h.expressions, h.casts, h.locations⟩
      intro op hmem
      rwa [List.mem_singleton.mp hmem]
  | cons left lefts ih =>
      intro st hlefts h
      have hleft := hlefts left (List.mem_cons_self ..)
      obtain ⟨p, hp⟩ := ExpressionKind.exists_precedence hleft
      obtain ⟨q, hq⟩ := ExpressionKind.exists_precedence hright
      rw [reduceLeft, hp, hq]
      by_cases hpq : p ≥ q
      · -- `left` is applied to the two operands below the missing one
        obtain ⟨hexpressions, hcasts, hlocations⟩ := h
        match hes : st.expressions, hls : st.savedLocations with
        | e₂ :: e₁ :: expressions, location :: savedLocations =>
            have hcount : Counts (right :: lefts) 1 { st with
                expressions := .binary left e₁ e₂ location :: expressions
                savedLocations := savedLocations } := by
              rw [hes, List.filter_cons_of_pos hright, List.filter_cons_of_pos hleft] at hexpressions
              simp only [List.length_cons] at hexpressions
              rw [hls] at hlocations
              simp only [List.length_cons] at hlocations
              rw [List.count_cons_of_ne (ne_cast hright),
                List.count_cons_of_ne (ne_cast hleft)] at hcasts
              refine ⟨?_, ?_, ?_⟩
              · rw [List.filter_cons_of_pos hright]
                simp only [List.length_cons]
                omega
              · rw [List.count_cons_of_ne (ne_cast hright)]
                exact hcasts
              · simp only [List.length_cons]
                omega
            obtain ⟨st', hreduce, hrest⟩ :=
              ih _ (fun op hmem => hlefts op (List.mem_cons_of_mem _ hmem)) hcount
            refine ⟨st', ?_, hrest⟩
            simp only [if_pos hpq]
            unfold applyBinary
            rw [hes, hls]
            exact hreduce
        | [], _ =>
            rw [hes, List.filter_cons_of_pos hright, List.filter_cons_of_pos hleft] at hexpressions
            simp at hexpressions
        | [_], _ =>
            rw [hes, List.filter_cons_of_pos hright, List.filter_cons_of_pos hleft] at hexpressions
            simp at hexpressions
        | _ :: _ :: _, [] => rw [hls] at hlocations; simp at hlocations
      · refine ⟨{ st with operations := right :: left :: lefts }, ?_, ?_, h.expressions, h.casts,
          h.locations⟩
        · simp only [if_neg hpq]
        · intro op hmem
          rcases List.mem_cons.mp hmem with rfl | hmem
          · exact hright
          · exact hlefts op hmem

/-- The end of the expression leaves its tree alone. -/
theorem reduceAll_counts : ∀ (operations : List ExpressionKind) (st : Stacks),
    (∀ op ∈ operations, op.isBinary = true) → Counts operations 0 st →
      ∃ st' expr, reduceAll operations st = some st' ∧ st'.operations = [] ∧
        st'.expressions = [expr] := by
  intro operations
  induction operations with
  | nil =>
      intro st _ h
      obtain ⟨expr, hexpr⟩ := List.length_eq_one_iff.mp h.expressions
      exact ⟨_, expr, rfl, rfl, hexpr⟩
  | cons op operations ih =>
      intro st hbinary h
      obtain ⟨st₁, happly, hcounts, -⟩ := applyBinary_counts (hbinary op (List.mem_cons_self ..)) h
      obtain ⟨st', expr, hreduce, hrest⟩ :=
        ih st₁ (fun op hmem => hbinary op (List.mem_cons_of_mem _ hmem)) hcounts
      refine ⟨st', expr, ?_, hrest⟩
      rw [reduceAll, happly]
      exact hreduce

end Stacks

/-! ## At the start of a round -/

/-- With `is_operator` there is one more expression than there are operations, and these are
binary; otherwise the unary operators on the top wait for the operand that comes next. -/
structure Balanced (e : ExpressionState) : Prop where
  binary : e.isOperator = true → ∀ op ∈ e.operations, op.isBinary = true
  pending : e.isOperator = false → ∃ unary binary, e.operations = unary ++ binary ∧
    (∀ op ∈ unary, op.isUnary = true) ∧ ∀ op ∈ binary, op.isBinary = true
  counts : e.toStacks.Counts e.operations (if e.isOperator then 0 else 1)

namespace Balanced

variable {e : ExpressionState}

theorem expressions_length (h : Balanced e) (hoperator : e.isOperator = true) :
    e.expressions.length = e.operations.length + 1 := by
  have hcounts := h.counts.expressions
  rwa [if_pos hoperator, Nat.add_zero, Stacks.filter_binary (h.binary hoperator)] at hcounts

theorem store (h : Balanced e) (payload : Payload) : Balanced (e.store payload) := by
  cases payload <;> exact ⟨h.binary, h.pending, h.counts⟩

end Balanced

end ParseContext

end TinCompiler
