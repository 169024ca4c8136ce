import TinCompiler.Generator.Frame
import TinCompiler.Generator.Function

/-!
# What checking and generating functions leave of the tables

`CheckFunction`, `CheckGlobals` and `GenerateFunction` add identifiers to the scopes and
fill in functions.  Structures, types and the links between the scopes stay as they are
(`SameTables`), and no error is taken back.
-/

namespace TinCompiler

/-- Only identifiers and functions are different. -/
structure SameTables (ast ast' : AST) : Prop where
  typesUsed : ast'.typesUsed = ast.typesUsed
  typeInfos : ast'.typeInfos = ast.typeInfos
  structuresUsed : ast'.structuresUsed = ast.structuresUsed
  structures : ast'.structures = ast.structures
  functionsUsed : ast'.functionsUsed = ast.functionsUsed
  scopesUsed : ast'.scopesUsed = ast.scopesUsed
  scopeId : ∀ i, (ast'.scopes i).scopeId = (ast.scopes i).scopeId
  parent : ∀ i, (ast'.scopes i).parent = (ast.scopes i).parent
  typeMap : ∀ i, (ast'.scopes i).typeMap = (ast.scopes i).typeMap
  sharedScopes : ∀ i, (ast'.scopes i).sharedScopes = (ast.scopes i).sharedScopes

namespace SameTables

variable {ast ast' ast'' : AST}

theorem refl (ast : AST) : SameTables ast ast :=
  ⟨rfl, rfl, rfl, rfl, rfl, rfl, fun _ => rfl, fun _ => rfl, fun _ => rfl, fun _ => rfl⟩

theorem trans (h : SameTables ast ast') (h' : SameTables ast' ast'') : SameTables ast ast'' where
  typesUsed := h'.typesUsed.trans h.typesUsed
  typeInfos := h'.typeInfos.trans h.typeInfos
  structuresUsed := h'.structuresUsed.trans h.structuresUsed
  structures := h'.structures.trans h.structures
  functionsUsed := h'.functionsUsed.trans h.functionsUsed
  scopesUsed := h'.scopesUsed.trans h.scopesUsed
  scopeId := fun i => (h'.scopeId i).trans (h.scopeId i)
  parent := fun i => (h'.parent i).trans (h.parent i)
  typeMap := fun i => (h'.typeMap i).trans (h.typeMap i)
  sharedScopes := fun i => (h'.sharedScopes i).trans (h.sharedScopes i)

theorem addVariable {kind : IdentifierKind} {name : String} {scopeId : ScopeId} {type : TypeId}
    {offset : ℤ} {statement : Option ASTStatement}
    (h : ast.addVariable kind name scopeId type offset statement = some ast') :
    SameTables ast ast' := by
  unfold AST.addVariable at h
  dsimp only at h
  split at h
  · cases h
  · cases h
    have hscope : ∀ i, ((ast.scopes i).scopeId, (ast.scopes i).parent, (ast.scopes i).typeMap,
        (ast.scopes i).sharedScopes) =
          ((Function.update ast.scopes scopeId { ast.scopes scopeId with
            identifiers := Function.update (ast.scopes scopeId).identifiers name
              (some { kind := kind, type := type, offset := offset, statement := statement }) }
            i).scopeId,
          (Function.update ast.scopes scopeId { ast.scopes scopeId with
            identifiers := Function.update (ast.scopes scopeId).identifiers name
              (some { kind := kind, type := type, offset := offset, statement := statement }) }
            i).parent,
          (Function.update ast.scopes scopeId { ast.scopes scopeId with
            identifiers := Function.update (ast.scopes scopeId).identifiers name
              (some { kind := kind, type := type, offset := offset, statement := statement }) }
            i).typeMap,
          (Function.update ast.scopes scopeId { ast.scopes scopeId with
            identifiers := Function.update (ast.scopes scopeId).identifiers name
              (some { kind := kind, type := type, offset := offset, statement := statement }) }
            i).sharedScopes) := by
      intro i
      by_cases heq : i = scopeId
      · subst heq
        simp
      · simp [heq]
    simp only [Prod.mk.injEq] at hscope
    exact ⟨rfl, rfl, rfl, rfl, rfl, rfl, fun i => (hscope i).1.symm, fun i => (hscope i).2.1.symm,
      fun i => (hscope i).2.2.1.symm, fun i => (hscope i).2.2.2.symm⟩

end SameTables

/-- The tables stay, and no error is taken back. -/
structure Kept (ast : AST) (reporter : Reporter) (ast' : AST) (reporter' : Reporter) : Prop where
  types : SameTables ast ast'
  errors : reporter.errors ≤ reporter'.errors

namespace Kept

variable {ast ast' ast'' : AST} {reporter reporter' reporter'' : Reporter}

theorem refl (ast : AST) (reporter : Reporter) : Kept ast reporter ast reporter :=
  ⟨.refl ast, Nat.le_refl _⟩

theorem trans (h : Kept ast reporter ast' reporter') (h' : Kept ast' reporter' ast'' reporter'') :
    Kept ast reporter ast'' reporter'' :=
  ⟨h.types.trans h'.types, Nat.le_trans h.errors h'.errors⟩

theorem err (ast : AST) (reporter : Reporter) (location : SourceLocation) (message : String) :
    Kept ast reporter ast (reporter.err location message) :=
  ⟨.refl ast, by simp⟩

theorem setFunction (ast : AST) (reporter : Reporter) (f : ℕ) (function : ASTFunction) :
    Kept ast reporter { ast with functions := Function.update ast.functions f function } reporter :=
  ⟨⟨rfl, rfl, rfl, rfl, rfl, rfl, fun _ => rfl, fun _ => rfl, fun _ => rfl, fun _ => rfl⟩,
    Nat.le_refl _⟩

end Kept

/-! ## Signatures and globals -/

theorem kept_checkParameters (scopeId : ScopeId) (function : ASTFunction) :
    ∀ (parameters : List Parameter) (offset : ℕ) (ast : AST) (reporter : Reporter),
      Kept ast reporter (checkParameters scopeId function parameters offset ast reporter).2.2.1
        (checkParameters scopeId function parameters offset ast reporter).2.2.2
  | [], _, ast, reporter => .refl ast reporter
  | param :: rest, offset, ast, reporter => by
      have hreport : Kept ast reporter ast
          (if (ast.convertFullType param.typeString scopeId).Valid then reporter
          else reporter.err function.location "One of the parameters has an invalid type.") := by
        split
        · exact .refl ast reporter
        · exact .err ast reporter _ _
      refine hreport.trans ?_
      unfold checkParameters
      dsimp only
      generalize (if (ast.convertFullType param.typeString scopeId).Valid then reporter
        else reporter.err function.location "One of the parameters has an invalid type.") = reporter
      refine Kept.trans ?_ (kept_checkParameters scopeId function rest _ _ _)
      split
      · exact .refl ast reporter
      · split
        · exact .err ast reporter _ _
        · next hadd => exact ⟨.addVariable hadd, Nat.le_refl _⟩

theorem kept_checkFunction (ast : AST) (reporter : Reporter) (scopeId : ScopeId) (f : ℕ) :
    Kept ast reporter (checkFunction ast reporter scopeId f).1
      (checkFunction ast reporter scopeId f).2 := by
  have hparameters := kept_checkParameters scopeId (ast.functions f) (ast.functions f).parameters 16
    ast reporter
  unfold checkFunction
  dsimp only
  split
  · exact hparameters.trans (.setFunction _ _ _ _)
  · split
    · exact hparameters.trans (.setFunction _ _ _ _)
    · exact hparameters.trans ((Kept.setFunction _ _ _ _).trans (.err _ _ _ _))

theorem kept_checkGlobals (scopeId : ScopeId) :
    ∀ (statements : List ASTStatement) (ast : AST) (bytecode : Bytecode) (reporter : Reporter),
      Kept ast reporter (checkGlobals scopeId statements ast bytecode reporter).1
        (checkGlobals scopeId statements ast bytecode reporter).2.2
  | [], ast, _, reporter => .refl ast reporter
  | .globalDeclaration typeString name _ location :: rest, ast, bytecode, reporter => by
      unfold checkGlobals
      dsimp only
      split
      · split
        · exact .err ast reporter _ _
        · next hadd =>
            have hadded : Kept ast reporter _ reporter :=
              ⟨SameTables.addVariable hadd, Nat.le_refl _⟩
            exact hadded.trans (kept_checkGlobals scopeId rest _ _ _)
      · exact .err ast reporter _ _
  | .varDeclaration .. :: rest, ast, bytecode, reporter => kept_checkGlobals scopeId rest _ _ _
  | .constDeclaration .. :: rest, ast, bytecode, reporter => kept_checkGlobals scopeId rest _ _ _
  | .expression .. :: rest, ast, bytecode, reporter => kept_checkGlobals scopeId rest _ _ _
  | .ifElse .. :: rest, ast, bytecode, reporter => kept_checkGlobals scopeId rest _ _ _
  | .while .. :: rest, ast, bytecode, reporter => kept_checkGlobals scopeId rest _ _ _
  | .break _ :: rest, ast, bytecode, reporter => kept_checkGlobals scopeId rest _ _ _
  | .continue _ :: rest, ast, bytecode, reporter => kept_checkGlobals scopeId rest _ _ _
  | .return .. :: rest, ast, bytecode, reporter => kept_checkGlobals scopeId rest _ _ _

/-! ## Bodies -/

/-- Whatever the context is, `x` keeps its tables. -/
def GeneratorM.Keeps {α : Type} (x : GeneratorM α) : Prop :=
  ∀ c, Kept c.ast c.reporter (x c).2.ast (x c).2.reporter

namespace GeneratorM.Keeps

variable {α β : Type}

theorem of_framed {x : GeneratorM α} (h : x.Framed) : x.Keeps := fun c =>
  ⟨(h c).ast ▸ SameTables.refl _, (h c).errors_le⟩

theorem pure (a : α) : (Pure.pure a : GeneratorM α).Keeps := of_framed (.pure a)

theorem bind {x : GeneratorM α} {f : α → GeneratorM β} (hx : x.Keeps) (hf : ∀ a, (f a).Keeps) :
    (x >>= f).Keeps :=
  fun c => (hx c).trans (hf _ _)

/-- The continuation may use what the context is. -/
theorem getContext_bind {f : GeneratorContext → GeneratorM β}
    (hf : ∀ c, Kept c.ast c.reporter (f c c).2.ast (f c c).2.reporter) : (getContext >>= f).Keeps :=
  hf

theorem getContext : getContext.Keeps := of_framed .getContext

theorem emit (f : BytecodePiece → BytecodePiece) : (emit f).Keeps := of_framed (.emit f)

/-- Neither the tables nor the reporter are modified. -/
theorem modify {f : GeneratorContext → GeneratorContext} (hast : ∀ c, (f c).ast = c.ast)
    (hreporter : ∀ c, (f c).reporter = c.reporter) : (modifyContext f).Keeps := fun c => by
  rw [modifyContext_apply, hast, hreporter]
  exact .refl _ _

theorem failStatement (location : SourceLocation) (message : String) :
    (failStatement location message).Keeps :=
  of_framed ((GeneratorM.Framed.report _ _).bind fun _ => (GeneratorM.Framed.abandon _).bind fun _ =>
    .pure _)

theorem skipStatement (location : SourceLocation) (message : String) :
    (skipStatement location message).Keeps :=
  of_framed ((GeneratorM.Framed.report _ _).bind fun _ => (GeneratorM.Framed.abandon _).bind fun _ =>
    .pure _)

theorem withBlock {x : GeneratorM α} (kind : BlockKind) (hx : x.Keeps) : (withBlock kind x).Keeps :=
  getContext.bind fun _ => hx.bind fun _ => by
    refine bind (modify ?_ ?_) fun _ => pure _
    · exact fun _ => rfl
    · exact fun _ => rfl

theorem setScope (scopeId : ScopeId) : (setScope scopeId).Keeps := modify (fun _ => rfl) fun _ => rfl

theorem setFrameOffset (frame : ℤ) : (setFrameOffset frame).Keeps :=
  modify (fun _ => rfl) fun _ => rfl

theorem releaseTo (frame : ℤ) : (releaseTo frame).Keeps := by
  refine getContext.bind fun c => ?_
  split
  · exact emit _
  · exact pure _

theorem generateExpression (e : ASTExpression) : (TinCompiler.generateExpression e).Keeps :=
  of_framed (.generateExpression e)

theorem performCast (ltype rtype : TypeId) : (TinCompiler.performCast ltype rtype).Keeps :=
  of_framed (.performCast ltype rtype)

theorem popValue (reg : Register) (offset : ℤ) (type : TypeId) :
    (TinCompiler.popValue reg offset type).Keeps :=
  of_framed (.popValue reg offset type)

/-- A declaration: the tables with the new identifier take the place of the old ones. -/
theorem declare {kind : IdentifierKind} {name : String} {type : TypeId} {offset : ℤ}
    {statement : Option ASTStatement} {next : GeneratorM β} (hnext : next.Keeps)
    {c c' : GeneratorContext} (hreporter : c'.reporter = c.reporter) {ast : AST}
    (hadd : c.ast.addVariable kind name c.currentScopeId type offset statement = some ast) :
    Kept c.ast c.reporter
      ((modifyContext (fun c => { c with ast := ast }) >>= fun _ => next) c').2.ast
      ((modifyContext (fun c => { c with ast := ast }) >>= fun _ => next) c').2.reporter := by
  have hadded : Kept c.ast c.reporter ast c'.reporter :=
    ⟨SameTables.addVariable hadd, Nat.le_of_eq (by rw [hreporter])⟩
  exact hadded.trans (hnext { c' with ast := ast })

theorem generateGlobalDeclaration (type name : String) (location : SourceLocation) :
    (TinCompiler.generateGlobalDeclaration type name location).Keeps := by
  refine getContext_bind fun c => ?_
  dsimp only
  split
  · rw [bind_apply]
    rcases hadd : c.ast.addVariable .globalId name c.currentScopeId
        (c.ast.convertFullType type c.currentScopeId)
        (c.bytecode.appendData (c.ast.sizeOfType (c.ast.convertFullType type c.currentScopeId))).1
      with _ | ast
    · exact failStatement _ _ _
    · refine declare (pure StatementResult.next) ?_ hadd
      rfl
  · exact failStatement _ _ _

theorem generateConstDeclaration (type name : String) (location : SourceLocation)
    (statement : ASTStatement) :
    (TinCompiler.generateConstDeclaration type name location statement).Keeps := by
  refine getContext_bind fun c => ?_
  by_cases hvalid : (c.ast.convertFullType type c.currentScopeId).Valid
  · rw [if_pos hvalid]
    rcases hadd : c.ast.addVariable .constId name c.currentScopeId
        (c.ast.convertFullType type c.currentScopeId) 0 statement with _ | ast
    · exact skipStatement _ _ _
    · refine declare (pure StatementResult.next) ?_ hadd
      rfl
  · rw [if_neg hvalid]
    exact failStatement _ _ _

theorem generateInitializer (e : Option ASTExpression) (location : SourceLocation) (type : TypeId)
    (offset : ℤ) : (TinCompiler.generateInitializer e location type offset).Keeps := by
  unfold TinCompiler.generateInitializer
  split
  · refine (generateExpression _).bind fun etype => ?_
    split
    · refine (performCast _ _).bind fun cast => ?_
      split
      · exact (popValue _ _ _).bind fun _ => pure _
      · exact getContext.bind fun _ => failStatement _ _
    · exact (of_framed (.abandon _)).bind fun _ => pure _
  · exact getContext.bind fun _ => (emit _).bind fun _ => pure _

theorem generateVarDeclaration (type name : String) (e : Option ASTExpression)
    (location : SourceLocation) :
    (TinCompiler.generateVarDeclaration type name e location).Keeps := by
  refine getContext_bind fun c => ?_
  dsimp only
  split
  · rw [bind_apply, bind_apply]
    rcases hadd : c.ast.addVariable .localId name c.currentScopeId
        (c.ast.convertFullType type c.currentScopeId)
        (c.currentFrameOffset -
          alignUp (c.ast.sizeOfType (c.ast.convertFullType type c.currentScopeId)) 8)
      with _ | ast
    · exact skipStatement _ _ _
    · refine declare (generateInitializer e location _ _) ?_ hadd
      rfl
  · exact failStatement _ _ _

theorem generateContinue (prevFrameOffset : ℤ) (location : SourceLocation) :
    (TinCompiler.generateContinue prevFrameOffset location).Keeps := by
  refine getContext.bind fun c => ?_
  split
  · exact failStatement _ _
  · exact (releaseTo _).bind fun _ => (emit _).bind fun _ => (setFrameOffset _).bind fun _ => pure _

theorem generateBreak (prevFrameOffset : ℤ) (location : SourceLocation) :
    (TinCompiler.generateBreak prevFrameOffset location).Keeps := by
  refine getContext.bind fun c => ?_
  split
  · exact failStatement _ _
  · refine (releaseTo _).bind fun _ => bind (modify ?_ ?_) fun _ =>
      (setFrameOffset _).bind fun _ => pure _
    · exact fun _ => rfl
    · exact fun _ => rfl

theorem generateResult (e : ASTExpression) (location : SourceLocation) :
    (TinCompiler.generateResult e location).Keeps := by
  refine getContext.bind fun c => ?_
  split
  · refine (generateExpression e).bind fun type => (performCast _ _).bind fun cast => ?_
    split
    · exact (popValue _ _ _).bind fun _ => pure _
    · exact failStatement _ _
  · exact failStatement _ _

theorem generateReturn (prevFrameOffset : ℤ) (e : Option ASTExpression) (location : SourceLocation) :
    (TinCompiler.generateReturn prevFrameOffset e location).Keeps := by
  have hrest : ∀ result : StatementResult, (if result = .next then do
        TinCompiler.releaseTo 0
        TinCompiler.emit fun piece => piece.emitRet
        TinCompiler.setFrameOffset prevFrameOffset
        return .stop
      else return result : GeneratorM StatementResult).Keeps := by
    intro result
    split
    · exact (releaseTo _).bind fun _ => (emit _).bind fun _ => (setFrameOffset _).bind fun _ => pure _
    · exact pure _
  cases e with
  | some e => exact (withBlock _ (generateResult e location)).bind hrest
  | none => exact (pure StatementResult.next).bind hrest

theorem generateCondition (e : ASTExpression) (statement : String) :
    (TinCompiler.generateCondition e statement).Keeps := by
  refine withBlock _ ((generateExpression e).bind fun type => (performCast _ _).bind fun cast => ?_)
  split
  · exact (emit _).bind fun _ => pure _
  · exact getContext.bind fun _ => (of_framed (.report _ _)).bind fun _ =>
      (of_framed (.abandon _)).bind fun _ => pure _

theorem closeLoop (index reloc : ℕ) : (TinCompiler.closeLoop index reloc).Keeps := by
  refine getContext.bind fun c => ?_
  split
  · exact pure _
  · exact (emit _).bind fun _ => (emit _).bind fun _ => (emit _).bind fun _ =>
      modify (fun _ => rfl) fun _ => rfl

theorem generateJz : TinCompiler.generateJz.Keeps := fun _ => .refl _ _

theorem generateJmp : TinCompiler.generateJmp.Keeps := fun _ => .refl _ _

theorem pushLoop : TinCompiler.pushLoop.Keeps := fun _ => .refl _ _

mutual

theorem generateBody : ∀ body : ASTBody, (TinCompiler.generateBody body).Keeps
  | .mk scopeId statements => by
      unfold TinCompiler.generateBody
      refine getContext.bind fun c => (setScope _).bind fun _ =>
        (generateStatements _ statements).bind fun completed => ?_
      split
      · exact (releaseTo _).bind fun _ => (setFrameOffset _).bind fun _ =>
          (setScope _).bind fun _ => pure _
      · exact (setScope _).bind fun _ => pure _

theorem generateStatements (prevFrameOffset : ℤ) :
    ∀ statements : List ASTStatement, (TinCompiler.generateStatements prevFrameOffset statements).Keeps
  | [] => by
      unfold TinCompiler.generateStatements
      exact pure _
  | statement :: rest => by
      unfold TinCompiler.generateStatements
      have hstart : recordStart.Keeps := modify (fun _ => rfl) fun _ => rfl
      refine hstart.bind fun _ =>
        (generateStatement prevFrameOffset statement).bind fun result => ?_
      cases result
      · exact generateStatements prevFrameOffset rest
      · exact pure _
      · exact pure _

theorem generateStatement (prevFrameOffset : ℤ) :
    ∀ statement : ASTStatement, (TinCompiler.generateStatement prevFrameOffset statement).Keeps
  | .expression e location => by
      unfold TinCompiler.generateStatement
      exact withBlock _ ((generateExpression e).bind fun _ => (popValue _ _ _).bind fun _ => pure _)
  | .globalDeclaration type name _ location => by
      unfold TinCompiler.generateStatement
      exact generateGlobalDeclaration type name location
  | .constDeclaration type name e location => by
      unfold TinCompiler.generateStatement
      exact generateConstDeclaration type name location _
  | .varDeclaration type name e location => by
      unfold TinCompiler.generateStatement
      exact withBlock _ (generateVarDeclaration type name e location)
  | .while condition body _ => by
      unfold TinCompiler.generateStatement
      refine pushLoop.bind fun index => (generateCondition _ _).bind fun accepted => ?_
      split
      · exact generateJz.bind fun reloc => (generateBody body).bind fun _ =>
          (closeLoop index reloc).bind fun _ => pure _
      · exact pure _
  | .ifElse condition body none _ => by
      unfold TinCompiler.generateStatement
      refine (generateCondition _ _).bind fun accepted => ?_
      split
      · exact generateJz.bind fun reloc => (generateBody body).bind fun _ => (emit _).bind fun _ =>
          pure _
      · exact pure _
  | .ifElse condition body (some elseBody) _ => by
      unfold TinCompiler.generateStatement
      refine (generateCondition _ _).bind fun accepted => ?_
      split
      · exact generateJz.bind fun reloc => (generateBody body).bind fun _ =>
          generateJmp.bind fun relocEnd => (emit _).bind fun _ => (generateBody elseBody).bind fun _ =>
            (emit _).bind fun _ => pure _
      · exact pure _
  | .break location => by
      unfold TinCompiler.generateStatement
      exact generateBreak prevFrameOffset location
  | .continue location => by
      unfold TinCompiler.generateStatement
      exact generateContinue prevFrameOffset location
  | .return e location => by
      unfold TinCompiler.generateStatement
      exact generateReturn prevFrameOffset e location

end

end GeneratorM.Keeps

/-! ## Functions -/

namespace GeneratorM.Keeps

theorem setGlobal (statement : ASTStatement) : (TinCompiler.setGlobal statement).Keeps := by
  unfold TinCompiler.setGlobal
  split
  · refine getContext.bind fun c => ?_
    split
    · exact of_framed (.abandon _)
    · split
      · exact emit _
      · refine (generateExpression _).bind fun type => ?_
        split
        · split
          · exact (of_framed (.report _ _)).bind fun _ => of_framed (.abandon _)
          · exact (emit _).bind fun _ => popValue _ _ _
        · exact of_framed (.abandon _)
  · exact pure _

theorem forM {α : Type} {f : α → GeneratorM Unit} (hf : ∀ a, (f a).Keeps) :
    ∀ l : List α, (l.forM f).Keeps
  | [] => pure ()
  | a :: l => (hf a).bind fun _ => forM hf l

theorem setOwnGlobals (scopeId : ScopeId) (statements : List ASTStatement) :
    (TinCompiler.setOwnGlobals scopeId statements).Keeps :=
  (setScope scopeId).bind fun _ => forM setGlobal statements

mutual

theorem setGlobals : ∀ body : ASTBody, (TinCompiler.setGlobals body).Keeps
  | .mk scopeId statements => by
      unfold TinCompiler.setGlobals
      exact (setOwnGlobals scopeId statements).bind fun _ => setNestedGlobals statements

theorem setNestedGlobals : ∀ statements : List ASTStatement,
    (TinCompiler.setNestedGlobals statements).Keeps
  | [] => by
      unfold TinCompiler.setNestedGlobals
      exact pure _
  | statement :: rest => by
      unfold TinCompiler.setNestedGlobals
      exact (setNestedGlobals rest).bind fun _ => setStatementGlobals statement

theorem setStatementGlobals : ∀ statement : ASTStatement,
    (TinCompiler.setStatementGlobals statement).Keeps
  | .ifElse _ body none _ => by
      unfold TinCompiler.setStatementGlobals
      exact setGlobals body
  | .ifElse _ body (some elseBody) _ => by
      unfold TinCompiler.setStatementGlobals
      exact (setGlobals elseBody).bind fun _ => setGlobals body
  | .while _ body _ => by
      unfold TinCompiler.setStatementGlobals
      exact setGlobals body
  | .varDeclaration .. => by unfold TinCompiler.setStatementGlobals; exact pure _
  | .globalDeclaration .. => by unfold TinCompiler.setStatementGlobals; exact pure _
  | .constDeclaration .. => by unfold TinCompiler.setStatementGlobals; exact pure _
  | .expression .. => by unfold TinCompiler.setStatementGlobals; exact pure _
  | .break _ => by unfold TinCompiler.setStatementGlobals; exact pure _
  | .continue _ => by unfold TinCompiler.setStatementGlobals; exact pure _
  | .return .. => by unfold TinCompiler.setStatementGlobals; exact pure _

end

theorem setImportGlobals (imp : FileBody) : (TinCompiler.setImportGlobals imp).Keeps :=
  (setOwnGlobals _ _).bind fun _ => (setNestedGlobals _).bind fun _ => getContext.bind fun _ =>
    forM setGlobals _

theorem generateFinalRet (function : ASTFunction) : (TinCompiler.generateFinalRet function).Keeps := by
  refine getContext.bind fun c => ?_
  split
  · exact pure _
  · split
    · exact pure _
    · have hrest : (TinCompiler.releaseTo 0 >>= fun _ => TinCompiler.emit fun piece =>
          piece.emitRet).Keeps := (releaseTo 0).bind fun _ => emit _
      split
      · exact (of_framed (.report _ _)).bind fun _ => hrest
      · exact (pure ()).bind fun _ => hrest

theorem reserveResult (function : ASTFunction) : (TinCompiler.reserveResult function).Keeps := by
  unfold TinCompiler.reserveResult
  split
  · exact getContext.bind fun _ => (emit _).bind fun _ => setFrameOffset _
  · exact pure _

theorem generateFunctionCode (function : ASTFunction) (body : ASTBody) :
    (TinCompiler.generateFunctionCode function body).Keeps := by
  have hrest : (TinCompiler.reserveResult function >>= fun _ => TinCompiler.generateBody body >>=
      fun completed => TinCompiler.generateFinalRet function >>= fun _ =>
        (Pure.pure completed : GeneratorM Bool)).Keeps :=
    (reserveResult function).bind fun _ => (generateBody body).bind fun _ =>
      (generateFinalRet function).bind fun _ => pure _
  unfold TinCompiler.generateFunctionCode
  split
  · exact getContext.bind fun c => (forM setImportGlobals _).bind fun _ =>
      (setScope _).bind fun _ => hrest
  · exact (pure ()).bind fun _ => hrest

end GeneratorM.Keeps

theorem kept_generateFunction (ast : AST) (f : ℕ) (bytecode : Bytecode) (reporter : Reporter) :
    Kept ast reporter (generateFunction ast f bytecode reporter).1
      (generateFunction ast f bytecode reporter).2.2 := by
  unfold generateFunction
  dsimp only
  split
  · next body _ hbody =>
      have hfunction : Kept ast reporter
          { ast with
            functions := Function.update ast.functions f
              { ast.functions f with pieceCodeIndex := bytecode.pieces.length } } reporter :=
        .setFunction ast reporter f _
      exact hfunction.trans (GeneratorM.Keeps.generateFunctionCode (ast.functions f) body
        (functionContext _ (ast.functions f) bytecode reporter))
  · exact .refl ast reporter

end TinCompiler
