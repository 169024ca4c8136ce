import TinCompiler.Expressions.NoVoid
import TinCompiler.Generator.Preserved
import TinCompiler.Generator.Relocations

/-!
# What is given up without a report

A variable whose value is void ends its body without a report, as "error should be reported
already"; in an expression a void is given up where it is used.  For a function in which nothing
is reported, `silent_failures_iff` says exactly when nothing of it is given up and every call of
`generateBody` returns true: when no void is used in it, and none is the value of a variable.
-/

namespace TinCompiler

open GeneratorM

/-! ## Bodies without voids -/

/-- The tables behind the declaration of a variable, unless there is one of this name. -/
def declaredAst (typeString name : String) (c : GeneratorContext) : Option AST :=
  let type := c.ast.convertFullType typeString c.currentScopeId
  c.ast.addVariable .localId name c.currentScopeId type
    (c.currentFrameOffset - alignUp (c.ast.sizeOfType type) 8)

mutual

/-- In the body, and in those in it, no void is used, and none is the value of a variable. -/
def NoVoidBody : ASTBody → GeneratorContext → Prop
  | .mk scopeId statements, c =>
      NoVoidStatements c.currentFrameOffset statements (setScope scopeId c).2

def NoVoidStatements (prevFrameOffset : ℤ) : List ASTStatement → GeneratorContext → Prop
  | [], _ => True
  | statement :: rest, c =>
      let run := generateStatement prevFrameOffset statement (recordStart c).2
      NoVoidStatement statement (recordStart c).2 ∧
        (run.1 = .next → NoVoidStatements prevFrameOffset rest run.2)

def NoVoidStatement : ASTStatement → GeneratorContext → Prop
  | .expression e _, c => NoVoid c.ast c.currentScopeId e
  | .varDeclaration type name (some e) _, c =>
      ∀ ast ∈ declaredAst type name c,
        NoVoid ast c.currentScopeId e ∧ (typeOf ast c.currentScopeId e).Valid
  | .while condition body _, c => NoVoid c.ast c.currentScopeId condition ∧
      NoVoidBody body (branchContext condition "while" (pushLoop c).2)
  | .ifElse condition body none _, c => NoVoid c.ast c.currentScopeId condition ∧
      NoVoidBody body (branchContext condition "if" c)
  | .ifElse condition body (some elseBody) _, c => NoVoid c.ast c.currentScopeId condition ∧
      NoVoidBody body (branchContext condition "if" c) ∧
        NoVoidBody elseBody (elseContext condition body c)
  | .return (some e) _, c => NoVoid c.ast c.currentScopeId e
  | .varDeclaration _ _ none _, _ => True
  | .globalDeclaration _ _ _ _, _ => True
  | .constDeclaration _ _ _ _, _ => True
  | .break _, _ => True
  | .continue _, _ => True
  | .return none _, _ => True

end

/-! ## Statements without bodies -/

section Statements

variable {c : GeneratorContext}

theorem GeneratorM.WholeIff.of_no_errors {α : Type} {x : GeneratorM α} {p : Prop}
    (h : x.WholeIff c p) (hframed : x.Framed) (herrors : (x c).2.reporter.errors = 0) :
    x.Whole c ↔ p :=
  h ((Keeps.of_framed hframed).quiet herrors) (quiet_of_no_errors hframed herrors)

theorem GeneratorM.Reports.failStatement (location : SourceLocation) (message : String) :
    (failStatement location message).Reports :=
  .report _ _ ((Framed.abandon _).bind fun _ => .pure _)

theorem GeneratorM.Reports.popValue_next (reg : Register) (offset : ℤ) (type : TypeId) :
    (do
      TinCompiler.popValue reg offset type
      return .next : GeneratorM StatementResult).Reports :=
  (Reports.popValue _ _ _).bind fun _ => .pure _

theorem whole_expressionStatement (e : ASTExpression) (hprim : c.ast.HasPrimitives)
    (herrors : (generateExpressionStatement e c).2.reporter.errors = 0) :
    (generateExpressionStatement e).Whole c ↔ NoVoid c.ast c.currentScopeId e := by
  have hrest (type : TypeId) := GeneratorM.Reports.popValue_next .invalid 0 type
  have hframed := Framed.generateExpression e
  exact ((generateExpression_whole e c hprim).thenReports hframed hrest).of_no_errors
    (hframed.bind fun type => (hrest type).framed) herrors

/-- A value that is void is given up, and so is the rest of the body. -/
theorem whole_initializer (e : ASTExpression) (location : SourceLocation) (type : TypeId)
    (offset : ℤ) (hprim : c.ast.HasPrimitives)
    (herrors : (generateInitializer (some e) location type offset c).2.reporter.errors = 0) :
    (generateInitializer (some e) location type offset).Whole c ↔
      NoVoid c.ast c.currentScopeId e ∧ (typeOf c.ast c.currentScopeId e).Valid := by
  have hframed := framed_initializer (some e) location type offset
  refine GeneratorM.WholeIff.of_no_errors ?_ hframed herrors
  have hcast (etype : TypeId) : (do
      if ← performCast etype type then
        popValue .bp offset type
        return .next
      else
        let c ← getContext
        failStatement location ("The expression and variable has mismatching types. Implicit casting were not possible from '" ++
          c.ast.nameOfType etype ++ "' to '" ++ c.ast.nameOfType type ++ "'.") :
      GeneratorM StatementResult).Reports := by
    refine (Reports.performCast _ _).bind fun cast => ?_
    split
    · exact .popValue_next _ _ _
    · exact Reports.getContext.bind fun _ => .failStatement _ _
  unfold generateInitializer
  refine (generateExpression_whole e c hprim).bind (.generateExpression e) (fun etype => ?_) ?_
  · split
    · exact (hcast etype).framed
    · exact (Framed.abandon _).bind fun _ => .pure _
  · rw [generateExpression_fst]
    split
    · next hvalid => exact ((hcast _).whole _).congr (iff_of_true trivial hvalid)
    · next hvoid =>
        refine fun _ _ => iff_of_false (fun h => ?_) hvoid
        have hlength := congrArg List.length h
        simp [abandon] at hlength

/-- The variable is declared, and then its value is generated. -/
theorem varDeclaration_of_no_errors (typeString name : String) (e : Option ASTExpression)
    (location : SourceLocation)
    (herrors : (generateVarDeclaration typeString name e location c).2.reporter.errors = 0) :
    ∃ (c₁ : GeneratorContext) (type : TypeId) (offset : ℤ),
      declaredAst typeString name c = some c₁.ast ∧ c₁.currentScopeId = c.currentScopeId ∧
        c₁.abandoned = c.abandoned ∧
        generateVarDeclaration typeString name e location c =
          generateInitializer e location type offset c₁ := by
  unfold declaredAst
  unfold generateVarDeclaration at herrors ⊢
  rw [getContext_bind_apply, GeneratorM.ite_apply] at herrors ⊢
  split at herrors
  · next hvalid =>
      rw [if_pos hvalid]
      dsimp only at herrors ⊢
      cases hadd : c.ast.addVariable .localId name c.currentScopeId
          (c.ast.convertFullType typeString c.currentScopeId) (c.currentFrameOffset -
            alignUp (c.ast.sizeOfType (c.ast.convertFullType typeString c.currentScopeId)) 8) with
      | none =>
          rw [bind_apply, bind_apply, hadd] at herrors
          exact absurd ((errors_skipStatement _ _ _).symm.trans herrors) (Nat.succ_ne_zero _)
      | some ast =>
          rw [bind_apply, bind_apply]
          dsimp only
          rw [bind_apply]
          refine ⟨_, _, _, ?_, ?_, ?_, rfl⟩ <;> rfl
  · exact absurd ((errors_failStatement _ _ _).symm.trans herrors) (Nat.succ_ne_zero _)

theorem whole_plainDeclaration (typeString name : String) (location : SourceLocation)
    (herrors : (generateVarDeclaration typeString name none location c).2.reporter.errors = 0) :
    (generateVarDeclaration typeString name none location).Whole c := by
  obtain ⟨c₁, type, offset, -, -, hsame, heq⟩ :=
    varDeclaration_of_no_errors typeString name none location herrors
  exact (congrArg (fun run => run.2.abandoned) heq).trans hsame

theorem whole_varDeclaration (typeString name : String) (e : ASTExpression)
    (location : SourceLocation) (hprim : c.ast.HasPrimitives)
    (herrors : (generateVarDeclaration typeString name (some e) location c).2.reporter.errors = 0) :
    (generateVarDeclaration typeString name (some e) location).Whole c ↔
      ∀ ast ∈ declaredAst typeString name c,
        NoVoid ast c.currentScopeId e ∧ (typeOf ast c.currentScopeId e).Valid := by
  obtain ⟨c₁, type, offset, hadd, hscope, hsame, heq⟩ :=
    varDeclaration_of_no_errors typeString name (some e) location herrors
  have hwhole := whole_initializer e location type offset
    (hasPrimitives_of_addVariable hprim hadd) (heq ▸ herrors)
  unfold GeneratorM.Whole at hwhole ⊢
  rw [heq, ← hsame, hwhole, hscope, hadd]
  exact ⟨fun h ast hast => Option.some.inj hast ▸ h, fun h => h c₁.ast rfl⟩

theorem whole_result (e : ASTExpression) (location : SourceLocation) (hprim : c.ast.HasPrimitives)
    (herrors : (generateResult e location c).2.reporter.errors = 0) :
    (generateResult e location).Whole c ↔ NoVoid c.ast c.currentScopeId e := by
  unfold GeneratorM.Whole
  unfold generateResult at herrors ⊢
  rw [getContext_bind_apply, GeneratorM.ite_apply] at herrors ⊢
  split at herrors
  · next hvalid =>
      rw [if_pos hvalid]
      have hframed := Framed.generateExpression e
      have hrest (type : TypeId) : (do
          if ← performCast type c.function.returnType then
            popValue .bp c.function.returnOffset type
            return .next
          else failStatement location ("Type '" ++ c.ast.nameOfType type ++
            "' in return statement does not match return type '" ++
            c.ast.nameOfType c.function.returnType ++ "' of the function.") :
          GeneratorM StatementResult).Reports := by
        refine (Reports.performCast _ _).bind fun cast => ?_
        split
        · exact .popValue_next _ _ _
        · exact .failStatement _ _
      exact ((generateExpression_whole e c hprim).thenReports hframed hrest).of_no_errors
        (hframed.bind fun type => (hrest type).framed) herrors
  · exact absurd ((errors_failStatement _ _ _).symm.trans herrors) (Nat.succ_ne_zero _)

theorem whole_condition (e : ASTExpression) (statement : String) (hprim : c.ast.HasPrimitives)
    (herrors : (generateCondition e statement c).2.reporter.errors = 0) :
    (generateCondition e statement).Whole c ↔ NoVoid c.ast c.currentScopeId e := by
  have hframed := Framed.generateExpression e
  have hrest (type : TypeId) : (do
      if ← performCast type .bool then
        emit fun piece => piece.emitPop .a
        return true
      else
        let c ← getContext
        report e.location ("Condition of " ++ statement ++
          "-statement must evaluate to a type that can be casted to a boolean. Type was '" ++
          c.ast.nameOfType type ++ "'.")
        abandon e.location
        return false : GeneratorM Bool).Reports := by
    refine (Reports.performCast _ _).bind fun cast => ?_
    split
    · exact (Reports.emit _).bind fun _ => .pure _
    · exact Reports.getContext.bind fun _ => .report _ _ ((Framed.abandon _).bind fun _ => .pure _)
  exact ((generateExpression_whole e c hprim).thenReports hframed hrest).of_no_errors
    (hframed.bind fun type => (hrest type).framed) herrors

theorem abandoned_releaseTo (frame : ℤ) (c : GeneratorContext) :
    (releaseTo frame c).2.abandoned = c.abandoned := by
  unfold releaseTo
  rw [getContext_bind_apply, GeneratorM.ite_apply]
  split <;> rfl

theorem whole_return (prevFrameOffset : ℤ) (e : ASTExpression) (location : SourceLocation)
    (h : Ready c)
    (herrors : (generateReturn prevFrameOffset (some e) location c).2.reporter.errors = 0) :
    (generateReturn prevFrameOffset (some e) location).Whole c ↔
      NoVoid c.ast c.currentScopeId e := by
  obtain ⟨hresult, heq⟩ := quiet_return h herrors
  unfold GeneratorM.Whole
  rw [heq, bind_apply]
  exact (Eq.congr_left (abandoned_releaseTo _ _)).trans (whole_result e location h.prim hresult)

theorem whole_globalDeclaration (typeString name : String) (location : SourceLocation)
    (herrors : (generateGlobalDeclaration typeString name location c).2.reporter.errors = 0) :
    (generateGlobalDeclaration typeString name location).Whole c := by
  unfold GeneratorM.Whole
  unfold generateGlobalDeclaration at herrors ⊢
  rw [getContext_bind_apply, GeneratorM.ite_apply] at herrors ⊢
  split at herrors
  · next hvalid =>
      rw [if_pos hvalid]
      generalize c.ast.convertFullType typeString c.currentScopeId = type at herrors ⊢
      dsimp only at herrors ⊢
      rw [bind_apply] at herrors ⊢
      cases hadd : c.ast.addVariable .globalId name c.currentScopeId type
          ((c.bytecode.appendData (c.ast.sizeOfType type)).1 : ℤ) with
      | none =>
          rw [hadd] at herrors
          exact absurd ((errors_failStatement _ _ _).symm.trans herrors) (Nat.succ_ne_zero _)
      | some ast => rfl
  · exact absurd ((errors_failStatement _ _ _).symm.trans herrors) (Nat.succ_ne_zero _)

theorem whole_constDeclaration (typeString name : String) (location : SourceLocation)
    (statement : ASTStatement)
    (herrors : (generateConstDeclaration typeString name location statement c).2.reporter.errors
      = 0) : (generateConstDeclaration typeString name location statement).Whole c := by
  unfold GeneratorM.Whole
  unfold generateConstDeclaration at herrors ⊢
  rw [getContext_bind_apply, GeneratorM.ite_apply] at herrors ⊢
  split at herrors
  · next hvalid =>
      rw [if_pos hvalid]
      cases hadd : c.ast.addVariable .constId name c.currentScopeId
          (c.ast.convertFullType typeString c.currentScopeId) 0 statement with
      | none =>
          rw [hadd] at herrors
          exact absurd ((errors_skipStatement _ _ _).symm.trans herrors) (Nat.succ_ne_zero _)
      | some ast => rfl
  · exact absurd ((errors_failStatement _ _ _).symm.trans herrors) (Nat.succ_ne_zero _)

theorem whole_continue (prevFrameOffset : ℤ) (location : SourceLocation)
    (herrors : (generateContinue prevFrameOffset location c).2.reporter.errors = 0) :
    (generateContinue prevFrameOffset location).Whole c := by
  unfold GeneratorM.Whole
  unfold generateContinue at herrors ⊢
  rw [getContext_bind_apply] at herrors ⊢
  cases hlast : c.loopScopes.getLast? with
  | none =>
      rw [hlast] at herrors
      exact absurd ((errors_failStatement _ _ _).symm.trans herrors) (Nat.succ_ne_zero _)
  | some loop => exact abandoned_releaseTo _ c

theorem whole_break (prevFrameOffset : ℤ) (location : SourceLocation)
    (herrors : (generateBreak prevFrameOffset location c).2.reporter.errors = 0) :
    (generateBreak prevFrameOffset location).Whole c := by
  unfold GeneratorM.Whole
  unfold generateBreak at herrors ⊢
  rw [getContext_bind_apply] at herrors ⊢
  cases hlast : c.loopScopes.getLast? with
  | none =>
      rw [hlast] at herrors
      exact absurd ((errors_failStatement _ _ _).symm.trans herrors) (Nat.succ_ne_zero _)
  | some loop => exact abandoned_releaseTo _ c

end Statements

/-! ## Statements with bodies -/

section Bodies

variable {condition : ASTExpression} {body elseBody : ASTBody} {c : GeneratorContext}

/-- What is given up is not taken back. -/
theorem eq_iff_of_prefixes {α : Type} {before between behind : List α} (h : before <+: between)
    (h' : between <+: behind) : behind = before ↔ between = before ∧ behind = between := by
  constructor
  · rintro rfl
    have hsame := h'.eq_of_length_le h.length_le
    exact ⟨hsame, hsame.symm⟩
  · rintro ⟨rfl, rfl⟩
    rfl

theorem abandoned_branch (condition : ASTExpression) (statement : String) (h : Patchable c) :
    c.abandoned <+: (branchContext condition statement c).abandoned :=
  (GeneratorM.GeneratesAt.generateCondition h condition statement).1.compiles.abandoned

theorem patchable_branch (condition : ASTExpression) (statement : String) (h : Patchable c) :
    Patchable (branchContext condition statement c) :=
  have hcondition := (GeneratorM.GeneratesAt.generateCondition h condition statement).1
  (GeneratorM.CompilesIn.generateJz hcondition.patchable).1.patchable

theorem patchable_else (condition : ASTExpression) (body : ASTBody) (h : Patchable c) :
    Patchable (elseContext condition body c) := by
  have hcondition := (GeneratorM.GeneratesAt.generateCondition h condition "if").1
  obtain ⟨hjz, hreloc⟩ := GeneratorM.CompilesIn.generateJz hcondition.patchable
  have hbody := GeneratorM.CompilesIn.generateBody body hjz.patchable
  obtain ⟨hjmp, -⟩ := GeneratorM.CompilesIn.generateJmp hbody.patchable
  exact (GeneratorM.CompilesIn.fixJump hjmp.patchable
    (hjmp.compiles.imms _ (hbody.compiles.imms _ hreloc))).patchable

theorem abandoned_closeLoop (index reloc : ℕ) (c : GeneratorContext) :
    (closeLoop index reloc c).2.abandoned = c.abandoned := by
  unfold closeLoop
  rw [getContext_bind_apply]
  cases c.loopScopes[index]? <;> rfl

/-- A condition and the body behind it. -/
theorem whole_branch {statement : String} {p q : Prop} (h : Ready c) (hpatch : Patchable c)
    (hquiet : QuietBranch condition statement body c)
    (hbody : p ∧ (generateBody body).Whole (branchContext condition statement c) ↔ q) :
    p ∧ (generateBody body (branchContext condition statement c)).2.abandoned = c.abandoned ↔
      NoVoid c.ast c.currentScopeId condition ∧ q := by
  have hsplit := eq_iff_of_prefixes (abandoned_branch condition statement hpatch)
    (GeneratorM.CompilesIn.generateBody body (patchable_branch condition statement hpatch)).compiles.abandoned
  have hcondition : (branchContext condition statement c).abandoned = c.abandoned ↔
      NoVoid c.ast c.currentScopeId condition := whole_condition condition statement h.prim hquiet.accepted
  rw [hsplit, hcondition, ← hbody]
  exact and_left_comm

end Bodies

/-! ## The recursion -/

mutual

theorem generateBody_whole : ∀ (body : ASTBody) {c : GeneratorContext}, Ready c → Patchable c →
    (generateBody body c).2.reporter.errors = 0 →
      (ReturnsTrue body c ∧ (generateBody body).Whole c ↔ NoVoidBody body c)
  | .mk scopeId statements, c, h, hpatch, herrors => by
      have hscope := straight_setScope scopeId h
      have hpatch' := (GeneratorM.CompilesAt.setScope hpatch scopeId).patchable
      unfold ReturnsTrue NoVoidBody GeneratorM.Whole
      unfold generateBody at herrors ⊢
      rw [getContext_bind_apply, bind_apply, bind_apply, GeneratorM.ite_apply] at herrors ⊢
      have hstatements := generateStatements_whole c.currentFrameOffset statements
        hscope.ran.ready hpatch'
      by_cases hcompleted : (generateStatements c.currentFrameOffset statements
          (setScope scopeId c).2).1 = true
      · rw [if_pos hcompleted] at herrors ⊢
        have hrest : (do
            releaseTo c.currentFrameOffset
            setFrameOffset c.currentFrameOffset
            setScope c.currentScopeId
            return true : GeneratorM Bool).Keeps :=
          (Keeps.releaseTo _).bind fun _ => (Keeps.setFrameOffset _).bind
            fun _ => (Keeps.setScope _).bind fun _ => .pure _
        rw [← hstatements (hrest.quiet herrors), and_iff_right hcompleted]
        exact and_congr (and_iff_right rfl) (Eq.congr_left (abandoned_releaseTo _ _))
      · rw [if_neg hcompleted] at herrors ⊢
        exact iff_of_false (fun hreturned => Bool.false_ne_true hreturned.1.1)
          fun hvoid => hcompleted ((hstatements herrors).mpr hvoid).1

theorem generateStatements_whole (prevFrameOffset : ℤ) : ∀ (statements : List ASTStatement)
    {c : GeneratorContext}, Ready c → Patchable c →
    (generateStatements prevFrameOffset statements c).2.reporter.errors = 0 →
      ((generateStatements prevFrameOffset statements c).1 = true ∧
          AllReturnTrue prevFrameOffset statements c ∧
          (generateStatements prevFrameOffset statements).Whole c ↔
        NoVoidStatements prevFrameOffset statements c)
  | [], c, _, _, _ => by
      unfold AllReturnTrue NoVoidStatements generateStatements
      exact iff_of_true ⟨rfl, trivial, rfl⟩ trivial
  | statement :: rest, c, h, hpatch, herrors => by
      have hstart := straight_recordStart h
      have hpatch' := (GeneratorM.CompilesIn.recordStart hpatch).patchable
      unfold AllReturnTrue NoVoidStatements GeneratorM.Whole
      unfold generateStatements at herrors ⊢
      rw [bind_apply, bind_apply] at herrors ⊢
      have hsame : (recordStart c).2.abandoned = c.abandoned := rfl
      rw [← hsame]
      generalize (recordStart c).2 = c₁ at hstart hpatch' herrors ⊢
      have hgenerates := GeneratorM.CompilesIn.generateStatement prevFrameOffset statement hpatch'
      have hstatement := generateStatement_whole prevFrameOffset statement hstart.ran.ready hpatch'
      dsimp only
      cases hresult : (generateStatement prevFrameOffset statement c₁).1 with
      | next =>
          rw [hresult] at herrors
          have hquiet := (Keeps.generateStatements prevFrameOffset rest).quiet herrors
          have hready := (generateStatement_lays prevFrameOffset statement hstart.ran.ready
            hquiet).1.ready
          have hrest := generateStatements_whole prevFrameOffset rest hready hgenerates.patchable
            herrors
          have hsplit := eq_iff_of_prefixes hgenerates.compiles.abandoned
            (GeneratorM.CompilesIn.generateStatements prevFrameOffset rest
              hgenerates.patchable).compiles.abandoned
          rw [← hstatement hquiet, hsplit]
          simp only [forall_const]
          rw [← hrest]
          unfold GeneratorM.Whole
          tauto
      | stop =>
          rw [hresult] at herrors
          have hstop : StatementResult.stop ≠ .next := by decide
          rw [← hstatement herrors]
          simp only [hstop, false_imp_iff, and_true]
          exact and_iff_right rfl
      | failed =>
          rw [hresult] at herrors
          refine iff_of_false (fun hreturned => Bool.false_ne_true hreturned.1) fun hvoid => ?_
          have hlong := hgenerates.failed hresult
          have hwhole : (generateStatement prevFrameOffset statement c₁).2.abandoned =
            c₁.abandoned := ((hstatement herrors).mpr hvoid.1).2
          exact absurd (congrArg List.length hwhole) (Nat.ne_of_gt hlong)

theorem generateStatement_whole (prevFrameOffset : ℤ) : ∀ (statement : ASTStatement)
    {c : GeneratorContext}, Ready c → Patchable c →
    (generateStatement prevFrameOffset statement c).2.reporter.errors = 0 →
      (NestedReturnTrue statement c ∧ (generateStatement prevFrameOffset statement).Whole c ↔
        NoVoidStatement statement c)
  | .expression e location, c, h, _, herrors => by
      unfold NestedReturnTrue NoVoidStatement
      unfold generateStatement at herrors ⊢
      exact (and_iff_right trivial).trans (whole_expressionStatement e h.prim herrors)
  | .globalDeclaration type name e location, c, _, _, herrors => by
      unfold NestedReturnTrue NoVoidStatement
      unfold generateStatement at herrors ⊢
      exact iff_of_true ⟨trivial, whole_globalDeclaration type name location herrors⟩ trivial
  | .constDeclaration type name e location, c, _, _, herrors => by
      unfold NestedReturnTrue NoVoidStatement
      unfold generateStatement at herrors ⊢
      exact iff_of_true ⟨trivial, whole_constDeclaration type name location _ herrors⟩ trivial
  | .varDeclaration type name none location, c, _, _, herrors => by
      unfold NestedReturnTrue NoVoidStatement
      unfold generateStatement at herrors ⊢
      exact iff_of_true ⟨trivial, whole_plainDeclaration type name location herrors⟩ trivial
  | .varDeclaration type name (some e) location, c, h, _, herrors => by
      unfold NestedReturnTrue NoVoidStatement
      unfold generateStatement at herrors ⊢
      exact (and_iff_right trivial).trans (whole_varDeclaration type name e location h.prim herrors)
  | .while condition body location, c, h, hpatch, herrors => by
      unfold NestedReturnTrue NoVoidStatement GeneratorM.Whole
      obtain ⟨hquiet, heq⟩ := quiet_while h herrors
      have hloop := (GeneratorM.CompilesIn.pushLoop hpatch).patchable
      have hbody := generateBody_whole body hquiet.ready (patchable_branch condition "while" hloop)
        hquiet.inside
      rw [heq, abandoned_closeLoop]
      exact whole_branch (ready_pushLoop h) hloop hquiet hbody
  | .ifElse condition body none location, c, h, hpatch, herrors => by
      unfold NestedReturnTrue NoVoidStatement GeneratorM.Whole
      obtain ⟨hquiet, heq⟩ := quiet_ifThen h herrors
      have hbody := generateBody_whole body hquiet.ready (patchable_branch condition "if" hpatch)
        hquiet.inside
      rw [heq]
      exact whole_branch h hpatch hquiet hbody
  | .ifElse condition body (some elseBody) location, c, h, hpatch, herrors => by
      unfold NestedReturnTrue NoVoidStatement GeneratorM.Whole
      obtain ⟨hquiet, helse, hinside, heq⟩ := quiet_ifElse h herrors
      have hbranch := patchable_branch condition "if" hpatch
      have hbody := whole_branch h hpatch hquiet (generateBody_whole body hquiet.ready hbranch
        hquiet.inside)
      have hpatch' := patchable_else condition body hpatch
      have helse := generateBody_whole elseBody helse hpatch' hinside
      have hfirst := (abandoned_branch condition "if" hpatch).trans
        (GeneratorM.CompilesIn.generateBody body hbranch).compiles.abandoned
      have hsplit := eq_iff_of_prefixes hfirst
        (GeneratorM.CompilesIn.generateBody elseBody hpatch').compiles.abandoned
      rw [heq, ← and_assoc, ← hbody, ← helse]
      refine (and_congr_right' hsplit).trans ?_
      unfold GeneratorM.Whole
      tauto
  | .break location, c, _, _, herrors => by
      unfold NestedReturnTrue NoVoidStatement
      unfold generateStatement at herrors ⊢
      exact iff_of_true ⟨trivial, whole_break prevFrameOffset location herrors⟩ trivial
  | .continue location, c, _, _, herrors => by
      unfold NestedReturnTrue NoVoidStatement
      unfold generateStatement at herrors ⊢
      exact iff_of_true ⟨trivial, whole_continue prevFrameOffset location herrors⟩ trivial
  | .return none location, c, _, _, herrors => by
      unfold NestedReturnTrue NoVoidStatement
      unfold generateStatement
      exact iff_of_true ⟨trivial, abandoned_releaseTo 0 c⟩ trivial
  | .return (some e) location, c, h, _, herrors => by
      unfold NestedReturnTrue NoVoidStatement
      unfold generateStatement at herrors ⊢
      exact (and_iff_right trivial).trans (whole_return prevFrameOffset e location h herrors)

end

/-! ## The whole function -/

namespace AcceptedFunction

variable (F : AcceptedFunction)

theorem patchable_bodyStart : Patchable F.bodyStart := by
  have hstart : Patchable F.start := patchable_functionContext _ _ _ _
  unfold bodyStart generatePrologue
  rw [GeneratorM.ite_apply]
  split
  · have himports := GeneratorM.CompilesAt.forM
      (fun imp {c} h (hfunctions : c.ast.functions = F.start.ast.functions) =>
        hfunctions ▸ GeneratorM.CompilesAt.setImportGlobals imp h)
      F.start.ast.importBodies hstart rfl
    have hscope := GeneratorM.CompilesAt.setScope himports.patchable F.start.currentScopeId
    exact (GeneratorM.CompilesAt.reserveResult hscope.patchable F.function).patchable
  · exact (GeneratorM.CompilesAt.reserveResult hstart F.function).patchable

/-- Nothing is given up behind the body. -/
theorem abandoned_finish : F.finish.abandoned = F.bodyEnd.abandoned := by
  by_cases hadds : F.AddsRet
  · rw [(F.finish_of_addsRet hadds).2]
    exact abandoned_releaseTo 0 F.bodyEnd
  · rw [F.finish_of_not_addsRet hadds]

/-- No call of `generateBody` for the function returns false, and nothing of its body is given
up, exactly if no void is used in it and none is the value of a variable. -/
theorem silent_failures_iff :
    ReturnsTrue F.body F.bodyStart ∧ F.finish.abandoned = F.bodyStart.abandoned ↔
      NoVoidBody F.body F.bodyStart := by
  rw [abandoned_finish]
  exact generateBody_whole F.body F.straight_bodyStart.ran.ready F.patchable_bodyStart
    F.errors_bodyEnd

/-- `x : int = *null; return`: the rest is not generated. -/
def voidValueBody : ASTBody :=
  .mk globalScope [.varDeclaration "int" "x" (some (.deref (.literalNull 0) 0)) 0, .return none 0]

def voidValue : AcceptedFunction where
  ast := oneFunctionAst { name := "f", body := some voidValueBody }
  f := AST.initial.functionsUsed
  bytecode := {}
  reporter := {}
  body := voidValueBody
  prim := fun _ _ => rfl
  isNative := by decide
  hasBody := by rfl
  accepted := by decide +kernel

example : (generateBody voidValue.body voidValue.bodyStart).1 = false := by decide +kernel

end AcceptedFunction

end TinCompiler
