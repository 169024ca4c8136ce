import TinCompiler.Generator.Levels
import TinCompiler.Generator.Quiet
import TinCompiler.Generator.Traversal
import TinCompiler.Machine.CodeSafety

/-!
# Balanced code

`BalancedBody` says of the code of a body what the generator takes for granted: a piece of
straight code adds to the stack pointer what the generator adds to `current_frameOffset`, a
release adds the difference, and the loop over the statements comes to its end.  Then the levels
are continued over the body (`generateBody_continues`), and the stack pointer of a function is
determined by the position (`AcceptedFunction.exists_level`).
-/

namespace TinCompiler

open GeneratorM

/-- What the cells in front of a position add to the stack pointer. -/
def Cell.spChange : Cell → ℤ
  | .inst instruction => instruction.spChange
  | .imm _ => 0

def spBefore : List Cell → ℕ → ℤ
  | _, 0 => 0
  | [], _ + 1 => 0
  | cell :: cells, k + 1 => cell.spChange + spBefore cells k

/-- Straight code adds what the generator has added to `current_frameOffset`. -/
def AddsFrame (total : ℕ → ℤ) (c c' : GeneratorContext) : Prop :=
  Adds total c c' (c'.currentFrameOffset - c.currentFrameOffset)

/-- `INST_INCR` adds what it is meant to, if the frame is released at all. -/
def Releases (total : ℕ → ℤ) (frame : ℤ) (c : GeneratorContext) : Prop :=
  Adds total c (releaseTo frame c).2 (frame - c.currentFrameOffset)

mutual

def BalancedBody (total : ℕ → ℤ) : ASTBody → GeneratorContext → Prop
  | .mk scopeId statements, c =>
      let run := generateStatements c.currentFrameOffset statements (setScope scopeId c).2
      run.1 = true ∧ BalancedStatements total c.currentFrameOffset statements (setScope scopeId c).2 ∧
        Releases total c.currentFrameOffset run.2

def BalancedStatements (total : ℕ → ℤ) (prevFrameOffset : ℤ) :
    List ASTStatement → GeneratorContext → Prop
  | [], _ => True
  | statement :: rest, c =>
      let run := generateStatement prevFrameOffset statement (recordStart c).2
      BalancedStatement total prevFrameOffset statement (recordStart c).2 ∧
        (run.1 = .next → BalancedStatements total prevFrameOffset rest run.2)

def BalancedStatement (total : ℕ → ℤ) (prevFrameOffset : ℤ) :
    ASTStatement → GeneratorContext → Prop
  | .expression e location, c =>
      AddsFrame total c (generateStatement prevFrameOffset (.expression e location) c).2
  | .globalDeclaration type name e location, c =>
      AddsFrame total c
        (generateStatement prevFrameOffset (.globalDeclaration type name e location) c).2
  | .constDeclaration type name e location, c =>
      AddsFrame total c
        (generateStatement prevFrameOffset (.constDeclaration type name e location) c).2
  | .varDeclaration type name e location, c =>
      AddsFrame total c
        (generateStatement prevFrameOffset (.varDeclaration type name e location) c).2
  | .while condition body _, c =>
      AddsFrame total (pushLoop c).2 (generateCondition condition "while" (pushLoop c).2).2 ∧
        BalancedBody total body (branchContext condition "while" (pushLoop c).2)
  | .ifElse condition body none _, c =>
      AddsFrame total c (generateCondition condition "if" c).2 ∧
        BalancedBody total body (branchContext condition "if" c)
  | .ifElse condition body (some elseBody) _, c =>
      AddsFrame total c (generateCondition condition "if" c).2 ∧
        BalancedBody total body (branchContext condition "if" c) ∧
          BalancedBody total elseBody (elseContext condition body c)
  | .break _, c => ∀ loop, c.loopScopes.getLast? = some loop → Releases total loop.frameOffset c
  | .continue _, c => ∀ loop, c.loopScopes.getLast? = some loop → Releases total loop.frameOffset c
  | .return none _, c => Releases total 0 c
  | .return (some e) location, c =>
      AddsFrame total c (generateResult e location c).2 ∧
        Releases total 0 (generateResult e location c).2

end

/-! ## Straight code of statements -/

section Statements

variable {total : ℕ → ℤ} {c c₁ : GeneratorContext}

theorem framed_result (e : ASTExpression) (location : SourceLocation) :
    (generateResult e location).Framed := by
  have hfail : ∀ message, (failStatement location message).Framed := fun message =>
    (Framed.report _ _).bind fun _ => (Framed.abandon _).bind fun _ => .pure _
  refine Framed.getContext.bind fun c => ?_
  split
  · refine (Framed.generateExpression _).bind fun type => (Framed.performCast _ _).bind fun cast => ?_
    split
    · exact (Framed.popValue _ _ _).bind fun _ => .pure _
    · exact hfail _
  · exact hfail _

/-- A condition leaves the frame and the starts alone. -/
theorem condition_same (e : ASTExpression) (statement : String) (c : GeneratorContext) :
    (generateCondition e statement c).2.currentFrameOffset = c.currentFrameOffset ∧
      (generateCondition e statement c).2.starts = c.starts := by
  have hframed : (do
      let type ← generateExpression e
      if ← performCast type .bool then
        emit fun piece => piece.emitPop .a
        return true
      else
        let c ← getContext
        report e.location ("Condition of " ++ statement ++
          "-statement must evaluate to a type that can be casted to a boolean. Type was '" ++
          c.ast.nameOfType type ++ "'.")
        abandon e.location
        return false : GeneratorM Bool).Framed := by
    refine (Framed.generateExpression _).bind fun type => (Framed.performCast _ _).bind fun cast => ?_
    split
    · exact (Framed.emit _).bind fun _ => .pure _
    · exact Framed.getContext.bind fun _ => (Framed.report _ _).bind fun _ =>
        (Framed.abandon _).bind fun _ => .pure _
  exact ⟨(hframed c).currentFrameOffset, (hframed c).starts⟩

theorem starts_globalDeclaration (type name : String) (location : SourceLocation)
    (c : GeneratorContext) : (generateGlobalDeclaration type name location c).2.starts = c.starts := by
  unfold generateGlobalDeclaration
  rw [getContext_bind_apply, GeneratorM.ite_apply]
  split
  · dsimp only
    rw [bind_apply]
    cases c.ast.addVariable .globalId name c.currentScopeId
      (c.ast.convertFullType type c.currentScopeId) _ <;> rfl
  · rfl

theorem starts_constDeclaration (type name : String) (location : SourceLocation)
    (statement : ASTStatement) (c : GeneratorContext) :
    (generateConstDeclaration type name location statement c).2.starts = c.starts := by
  unfold generateConstDeclaration
  rw [getContext_bind_apply, GeneratorM.ite_apply]
  split
  · cases c.ast.addVariable .constId name c.currentScopeId
      (c.ast.convertFullType type c.currentScopeId) 0 statement <;> rfl
  · rfl

theorem starts_varDeclaration (type name : String) (e : Option ASTExpression)
    (location : SourceLocation) (c : GeneratorContext) :
    (generateVarDeclaration type name e location c).2.starts = c.starts := by
  unfold generateVarDeclaration
  rw [getContext_bind_apply, GeneratorM.ite_apply]
  split
  · rw [bind_apply, bind_apply]
    cases c.ast.addVariable .localId name c.currentScopeId
      (c.ast.convertFullType type c.currentScopeId) _ with
    | none => rfl
    | some ast =>
        dsimp only
        rw [bind_apply]
        exact (framed_initializer e location _ _ _).starts
  · rfl

theorem continues_condition (e : ASTExpression) (statement : String) (h : Ready c)
    (herrors : (generateCondition e statement c).2.reporter.errors = 0)
    (hadds : AddsFrame total c (generateCondition e statement c).2) :
    Continues total c (generateCondition e statement c).2 :=
  (straight_condition e statement h herrors).2.continues (condition_same e statement c).2 hadds

/-! ## Statements that leave their block -/

theorem continues_continue (prevFrameOffset : ℤ) (location : SourceLocation) (h : Ready c)
    (herrors : (generateContinue prevFrameOffset location c).2.reporter.errors = 0)
    (hbalanced : ∀ loop, c.loopScopes.getLast? = some loop → Releases total loop.frameOffset c) :
    Continues total c (generateContinue prevFrameOffset location c).2 := by
  unfold generateContinue at herrors ⊢
  rw [getContext_bind_apply] at herrors ⊢
  cases hlast : c.loopScopes.getLast? with
  | none =>
      rw [hlast] at herrors
      exact absurd ((errors_failStatement _ _ _).symm.trans herrors) (Nat.succ_ne_zero _)
  | some loop =>
      have hstraight := straight_releaseTo loop.frameOffset h
      have hready := (straight_setFrameOffset loop.frameOffset hstraight.ran.ready).ran.ready
      have hmem : loop ∈ (setFrameOffset loop.frameOffset (releaseTo loop.frameOffset c).2).2.loopScopes := by
        change loop ∈ (releaseTo loop.frameOffset c).2.loopScopes
        rw [hstraight.loops]
        exact List.mem_of_getLast? hlast
      exact (continues_release h (hbalanced loop hlast)).trans
        (continues_jumpBack hready hmem rfl prevFrameOffset)

theorem continues_breakStatement (prevFrameOffset : ℤ) (location : SourceLocation) (h : Ready c)
    (herrors : (generateBreak prevFrameOffset location c).2.reporter.errors = 0)
    (hbalanced : ∀ loop, c.loopScopes.getLast? = some loop → Releases total loop.frameOffset c) :
    Continues total c (generateBreak prevFrameOffset location c).2 := by
  unfold generateBreak at herrors ⊢
  rw [getContext_bind_apply] at herrors ⊢
  cases hlast : c.loopScopes.getLast? with
  | none =>
      rw [hlast] at herrors
      exact absurd ((errors_failStatement _ _ _).symm.trans herrors) (Nat.succ_ne_zero _)
  | some loop =>
      have hstraight := straight_releaseTo loop.frameOffset h
      have hready := (straight_setFrameOffset loop.frameOffset hstraight.ran.ready).ran.ready
      have hlast' : (setFrameOffset loop.frameOffset
          (releaseTo loop.frameOffset c).2).2.loopScopes.getLast? = some loop := by
        change (releaseTo loop.frameOffset c).2.loopScopes.getLast? = some loop
        rw [hstraight.loops, hlast]
      exact (continues_release h (hbalanced loop hlast)).trans
        (continues_break hready hlast' rfl prevFrameOffset)

/-- The frame is released and the function is left. -/
theorem continues_leave (h : Ready c) (hbalanced : Releases total 0 c) (x : ℤ) :
    Continues total c (setFrameOffset x
      ((releaseTo 0 c).2.withPiece (releaseTo 0 c).2.piece.emitRet)).2 := by
  have hstraight := straight_releaseTo 0 h
  have hready := (straight_setFrameOffset 0 hstraight.ran.ready).ran.ready
  exact (continues_release h hbalanced).trans (continues_ret hready rfl x)

theorem continues_return (prevFrameOffset : ℤ) (e : ASTExpression) (location : SourceLocation)
    (h : Ready c)
    (herrors : (generateReturn prevFrameOffset (some e) location c).2.reporter.errors = 0)
    (hadds : AddsFrame total c (generateResult e location c).2)
    (hbalanced : Releases total 0 (generateResult e location c).2) :
    Continues total c (generateReturn prevFrameOffset (some e) location c).2 := by
  have hrecord : withBlock (.result (.return (some e) location)) (generateResult e location) c =
      ((generateResult e location c).1, recordResult (.return (some e) location) c.piece.getPc
        (generateResult e location c).2.piece.getPc (generateResult e location c).2) := rfl
  obtain ⟨hquiet, heq⟩ := quiet_return h herrors
  obtain ⟨-, hresult⟩ := straight_result e location h hquiet
  have hvalue : Continues total c (generateResult e location c).2 :=
    hresult.continues (framed_result e location c).starts hadds
  rw [heq, hrecord, bind_apply, releaseTo_recordResult]
  -- the recorded block is nothing to the levels
  exact (hvalue.trans (continues_leave hresult.ran.ready hbalanced prevFrameOffset)).trans
    (.of_same rfl rfl rfl rfl)

end Statements

/-! ## The recursion -/

section Bodies

variable {total : ℕ → ℤ}

mutual

theorem generateBody_continues : ∀ (body : ASTBody) {c : GeneratorContext}, Ready c →
    (generateBody body c).2.reporter.errors = 0 → BalancedBody total body c →
      Continues total c (generateBody body c).2 ∧
        (generateBody body c).2.currentFrameOffset = c.currentFrameOffset
  | .mk scopeId statements, c, h, herrors, hbalanced => by
      have hscope := straight_setScope scopeId h
      have hstart : Continues total c (setScope scopeId c).2 := .of_same rfl rfl rfl rfl
      unfold BalancedBody at hbalanced
      obtain ⟨hcompleted, hstatements, hrelease⟩ := hbalanced
      unfold generateBody at herrors ⊢
      rw [getContext_bind_apply, bind_apply, bind_apply, hcompleted] at herrors ⊢
      rw [GeneratorM.ite_apply, if_pos rfl] at herrors ⊢
      have hquiet := (GeneratorM.Keeps.releaseTo c.currentFrameOffset).quiet herrors
      have hready := (generateStatements_laid c.currentFrameOffset statements hscope.ran.ready
        hquiet).1.ready
      have hrest := generateStatements_continues c.currentFrameOffset statements hscope.ran.ready
        hquiet hstatements
      exact ⟨(hstart.trans (hrest.trans (continues_release hready hrelease))).trans
        (.of_same rfl rfl rfl rfl), rfl⟩

theorem generateStatements_continues (prevFrameOffset : ℤ) : ∀ (statements : List ASTStatement)
    {c : GeneratorContext}, Ready c →
    (generateStatements prevFrameOffset statements c).2.reporter.errors = 0 →
      BalancedStatements total prevFrameOffset statements c →
        Continues total c (generateStatements prevFrameOffset statements c).2
  | [], c, _, _, _ => by
      unfold generateStatements
      exact .refl total c
  | statement :: rest, c, h, herrors, hbalanced => by
      have hready := (straight_recordStart h).ran.ready
      have hstart : Continues total c (recordStart c).2 := continues_recordStart c
      unfold BalancedStatements at hbalanced
      obtain ⟨hstatement, hrest⟩ := hbalanced
      unfold generateStatements at herrors ⊢
      rw [bind_apply, bind_apply] at herrors ⊢
      refine hstart.trans ?_
      generalize (recordStart c).2 = c₁ at hready hstatement hrest herrors ⊢
      cases hresult : (generateStatement prevFrameOffset statement c₁).1 with
      | next =>
          rw [hresult] at herrors
          have hquiet := (GeneratorM.Keeps.generateStatements prevFrameOffset rest).quiet herrors
          have hlays := generateStatement_lays prevFrameOffset statement hready hquiet
          exact (generateStatement_continues prevFrameOffset statement hready hquiet hstatement).trans
            (generateStatements_continues prevFrameOffset rest hlays.1.ready herrors (hrest hresult))
      | stop =>
          rw [hresult] at herrors
          exact generateStatement_continues prevFrameOffset statement hready herrors hstatement
      | failed =>
          rw [hresult] at herrors
          exact generateStatement_continues prevFrameOffset statement hready herrors hstatement

theorem generateStatement_continues (prevFrameOffset : ℤ) : ∀ (statement : ASTStatement)
    {c : GeneratorContext}, Ready c →
    (generateStatement prevFrameOffset statement c).2.reporter.errors = 0 →
      BalancedStatement total prevFrameOffset statement c →
        Continues total c (generateStatement prevFrameOffset statement c).2
  | .expression e location, c, h, herrors, hadds => by
      unfold BalancedStatement at hadds
      unfold generateStatement at herrors hadds ⊢
      have hframed : (generateExpressionStatement e).Framed :=
        (Framed.generateExpression e).bind fun _ => (Framed.popValue _ _ _).bind fun _ => .pure _
      exact (lays_withBlock (by simp) (straight_expressionStatement e h herrors)).continues
        (hframed c).starts hadds
  | .globalDeclaration type name _ location, c, h, herrors, hadds => by
      unfold BalancedStatement at hadds
      unfold generateStatement at herrors hadds ⊢
      exact (straight_globalDeclaration type name location h herrors).2.continues
        (starts_globalDeclaration type name location c) hadds
  | .constDeclaration type name e location, c, h, herrors, hadds => by
      unfold BalancedStatement at hadds
      unfold generateStatement at herrors hadds ⊢
      exact (straight_constDeclaration type name location _ h herrors).2.continues
        (starts_constDeclaration type name location _ c) hadds
  | .varDeclaration type name e location, c, h, herrors, hadds => by
      unfold BalancedStatement at hadds
      unfold generateStatement at herrors hadds ⊢
      have hstraight := (straight_varDeclaration type name e location h herrors).2
      exact (lays_withBlock (by simp) hstraight).continues
        (starts_varDeclaration type name e location c) hadds
  | .while condition body location, c, h, herrors, hbalanced => by
      unfold BalancedStatement at hbalanced
      obtain ⟨hadds, hbody⟩ := hbalanced
      obtain ⟨hquiet, heq⟩ := quiet_while h herrors
      rw [heq]
      obtain ⟨hcontinues, hback⟩ := generateBody_continues body hquiet.ready hquiet.inside hbody
      have hframe := (condition_same condition "while" (pushLoop c).2).1
      exact continues_while h hquiet.straight
        (continues_condition condition "while" (ready_pushLoop h) hquiet.accepted hadds) hframe
        (generateBody_laid body hquiet.ready hquiet.inside).1 hcontinues (hback.trans hframe)
  | .ifElse condition body none location, c, h, herrors, hbalanced => by
      unfold BalancedStatement at hbalanced
      obtain ⟨hadds, hbody⟩ := hbalanced
      obtain ⟨hquiet, heq⟩ := quiet_ifThen h herrors
      rw [heq]
      obtain ⟨hcontinues, hback⟩ := generateBody_continues body hquiet.ready hquiet.inside hbody
      have hframe := (condition_same condition "if" c).1
      exact continues_ifThen hquiet.straight
        (continues_condition condition "if" h hquiet.accepted hadds) hframe
        (generateBody_laid body hquiet.ready hquiet.inside).1 hcontinues (hback.trans hframe)
  | .ifElse condition body (some elseBody) location, c, h, herrors, hbalanced => by
      unfold BalancedStatement at hbalanced
      obtain ⟨hadds, hbody, helseBody⟩ := hbalanced
      obtain ⟨hquiet, helse, hinside, heq⟩ := quiet_ifElse h herrors
      rw [heq]
      obtain ⟨hcontinues, hback⟩ := generateBody_continues body hquiet.ready hquiet.inside hbody
      obtain ⟨hcontinues', hback'⟩ := generateBody_continues elseBody helse hinside helseBody
      have hframe := (condition_same condition "if" c).1
      exact continues_ifElse hquiet.straight
        (continues_condition condition "if" h hquiet.accepted hadds) hframe
        (generateBody_laid body hquiet.ready hquiet.inside).1 hcontinues (hback.trans hframe)
        (generateBody_laid elseBody helse hinside).1 hcontinues' (hback'.trans (hback.trans hframe))
  | .break location, c, h, herrors, hbalanced => by
      unfold BalancedStatement at hbalanced
      unfold generateStatement at herrors ⊢
      exact continues_breakStatement prevFrameOffset location h herrors hbalanced
  | .continue location, c, h, herrors, hbalanced => by
      unfold BalancedStatement at hbalanced
      unfold generateStatement at herrors ⊢
      exact continues_continue prevFrameOffset location h herrors hbalanced
  | .return none location, c, h, herrors, hbalanced => by
      unfold BalancedStatement at hbalanced
      unfold generateStatement at herrors ⊢
      exact continues_leave h hbalanced prevFrameOffset
  | .return (some e) location, c, h, herrors, hbalanced => by
      unfold BalancedStatement at hbalanced
      unfold generateStatement at herrors ⊢
      exact continues_return prevFrameOffset e location h herrors hbalanced.1 hbalanced.2

end

end Bodies

/-! ## Functions -/

namespace AcceptedFunction

variable (F : AcceptedFunction)

/-- The straight code of the function adds to the stack pointer what the generator has accounted
for, and all its bodies are complete. -/
structure Balanced : Prop where
  prologue : AddsFrame (spBefore F.cells) F.start F.bodyStart
  body : BalancedBody (spBefore F.cells) F.body F.bodyStart
  release : F.AddsRet → Releases (spBefore F.cells) 0 F.bodyEnd

end AcceptedFunction

end TinCompiler
