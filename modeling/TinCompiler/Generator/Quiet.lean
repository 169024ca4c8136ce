import TinCompiler.Generator.FinalRet

/-!
# Statements that report nothing

When nothing is reported in a loop or an `if`, the condition is one, and nothing is reported in
its bodies, either; a returned value is left behind.
-/

namespace TinCompiler

open GeneratorM

/-- Where nothing is reported, nothing has been reported before. -/
theorem GeneratorM.Keeps.quiet {α : Type} {x : GeneratorM α} (hx : x.Keeps) {c : GeneratorContext}
    (herrors : (x c).2.reporter.errors = 0) : c.reporter.errors = 0 :=
  Nat.le_zero.mp (Nat.le_trans (hx c).errors (Nat.le_of_eq herrors))

theorem AcceptedFunction.errors_bodyEnd (F : AcceptedFunction) : F.bodyEnd.reporter.errors = 0 :=
  (Keeps.generateFinalRet F.function).quiet F.errors_finish

/-- Nothing is reported in the condition and in the body behind it. -/
structure QuietBranch (condition : ASTExpression) (statement : String) (body : ASTBody)
    (c : GeneratorContext) : Prop where
  accepted : (generateCondition condition statement c).2.reporter.errors = 0
  straight : Straightly c (generateCondition condition statement c).2
  ready : Ready (branchContext condition statement c)
  inside : (generateBody body (branchContext condition statement c)).2.reporter.errors = 0

section Statements

variable {prevFrameOffset : ℤ} {condition : ASTExpression} {body elseBody : ASTBody}
  {location : SourceLocation} {c : GeneratorContext} (h : Ready c)

include h

/-- The value of a return statement is made before the function is left. -/
theorem quiet_return {e : ASTExpression}
    (herrors : (generateReturn prevFrameOffset (some e) location c).2.reporter.errors = 0) :
    (generateResult e location c).2.reporter.errors = 0 ∧
      generateReturn prevFrameOffset (some e) location c = (do
        releaseTo 0
        emit fun piece => piece.emitRet
        setFrameOffset prevFrameOffset
        return .stop : GeneratorM StatementResult)
        (withBlock (.result (.return (some e) location)) (generateResult e location) c).2 := by
  unfold generateReturn at herrors ⊢
  dsimp only at herrors ⊢
  rw [bind_apply] at herrors ⊢
  have hrest (result : StatementResult) : (if result = .next then do
        releaseTo 0
        emit fun piece => piece.emitRet
        setFrameOffset prevFrameOffset
        return .stop
      else return result : GeneratorM StatementResult).Keeps := by
    split
    · exact (Keeps.releaseTo _).bind fun _ => (Keeps.emit _).bind fun _ =>
        (Keeps.setFrameOffset _).bind fun _ => .pure _
    · exact .pure _
  have hquiet : (withBlock (.result (.return (some e) location)) (generateResult e location)
      c).2.reporter.errors = 0 := (hrest _).quiet herrors
  have hnext : (withBlock (.result (.return (some e) location)) (generateResult e location) c).1 =
      .next := (straight_result e location h hquiet).1
  rw [hnext, if_pos rfl]
  exact ⟨hquiet, rfl⟩

theorem quiet_while
    (herrors : (generateStatement prevFrameOffset (.while condition body location) c).2.reporter.errors
      = 0) : QuietBranch condition "while" body (pushLoop c).2 ∧
    generateStatement prevFrameOffset (.while condition body location) c = (.next, (closeLoop
      (pushLoop c).1 (generateJz (generateCondition condition "while" (pushLoop c).2).2).1
      (generateBody body (branchContext condition "while" (pushLoop c).2)).2).2) := by
  unfold generateStatement at herrors ⊢
  rw [bind_apply, bind_apply] at herrors ⊢
  have hrest (accepted : Bool) : (if accepted = true then do
        let reloc ← generateJz
        let _ ← generateBody body
        closeLoop (pushLoop c).1 reloc
        return .next
      else return .failed : GeneratorM StatementResult).Keeps := by
    split
    · exact Keeps.generateJz.bind fun _ => (Keeps.generateBody body).bind
        fun _ => (Keeps.closeLoop _ _).bind fun _ => .pure _
    · exact .pure _
  have hcondition := (hrest _).quiet herrors
  obtain ⟨haccepted, hstraight⟩ := straight_condition condition "while" (ready_pushLoop h) hcondition
  rw [haccepted] at herrors ⊢
  rw [GeneratorM.ite_apply, if_pos rfl, bind_apply, bind_apply, bind_apply] at herrors ⊢
  exact ⟨⟨hcondition, hstraight, (generateJz_ran hstraight.ran.ready).1.ready,
    (Keeps.closeLoop _ _).quiet herrors⟩, rfl⟩

theorem quiet_ifThen
    (herrors : (generateStatement prevFrameOffset (.ifElse condition body none location)
      c).2.reporter.errors = 0) : QuietBranch condition "if" body c ∧
    generateStatement prevFrameOffset (.ifElse condition body none location) c = (.next, (fixJump
      (generateJz (generateCondition condition "if" c).2).1
      (generateBody body (branchContext condition "if" c)).2).2) := by
  unfold generateStatement at herrors ⊢
  rw [bind_apply] at herrors ⊢
  have hrest (accepted : Bool) : (if accepted = true then do
        let reloc ← generateJz
        let _ ← generateBody body
        fixJump reloc
        return .next
      else return .failed : GeneratorM StatementResult).Keeps := by
    split
    · exact Keeps.generateJz.bind fun _ => (Keeps.generateBody body).bind
        fun _ => (Keeps.emit _).bind fun _ => .pure _
    · exact .pure _
  have hcondition := (hrest _).quiet herrors
  obtain ⟨haccepted, hstraight⟩ := straight_condition condition "if" h hcondition
  rw [haccepted] at herrors ⊢
  rw [GeneratorM.ite_apply, if_pos rfl] at herrors ⊢
  exact ⟨⟨hcondition, hstraight, (generateJz_ran hstraight.ran.ready).1.ready, herrors⟩, rfl⟩

theorem quiet_ifElse
    (herrors : (generateStatement prevFrameOffset (.ifElse condition body (some elseBody) location)
      c).2.reporter.errors = 0) : QuietBranch condition "if" body c ∧
    Ready (elseContext condition body c) ∧
    (generateBody elseBody (elseContext condition body c)).2.reporter.errors = 0 ∧
    generateStatement prevFrameOffset (.ifElse condition body (some elseBody) location) c =
      (.next, (fixJump (generateJmp (generateBody body (branchContext condition "if" c)).2).1
        (generateBody elseBody (elseContext condition body c)).2).2) := by
  unfold generateStatement at herrors ⊢
  rw [bind_apply] at herrors ⊢
  have hrest (accepted : Bool) : (if accepted = true then do
        let reloc ← generateJz
        let _ ← generateBody body
        let relocEnd ← generateJmp
        fixJump reloc
        let _ ← generateBody elseBody
        fixJump relocEnd
        return .next
      else return .failed : GeneratorM StatementResult).Keeps := by
    split
    · exact Keeps.generateJz.bind fun _ => (Keeps.generateBody body).bind
        fun _ => Keeps.generateJmp.bind fun _ => (Keeps.emit _).bind
          fun _ => (Keeps.generateBody elseBody).bind fun _ => (Keeps.emit _).bind fun _ => .pure _
    · exact .pure _
  have hcondition := (hrest _).quiet herrors
  obtain ⟨haccepted, hstraight⟩ := straight_condition condition "if" h hcondition
  rw [haccepted] at herrors ⊢
  rw [GeneratorM.ite_apply, if_pos rfl] at herrors ⊢
  have helse : (generateBody elseBody (elseContext condition body c)).2.reporter.errors = 0 :=
    herrors
  have hbranch := (generateJz_ran hstraight.ran.ready).1.ready
  have hfixed : (elseContext condition body c).reporter.errors = 0 :=
    (Keeps.generateBody elseBody).quiet helse
  have hbody : (generateBody body (branchContext condition "if" c)).2.reporter.errors = 0 := hfixed
  have hran := (generateBody_laid body hbranch hbody).1
  exact ⟨⟨hcondition, hstraight, hbranch, hbody⟩,
    ready_else hstraight (hran.trans (generateJmp_ran hran.ready).1), helse, rfl⟩

end Statements

end TinCompiler
