import TinCompiler.Generator.Relocations
import TinCompiler.Generator.FinalRet

/-!
# Constants of a file

A `const` at file level becomes a statement of its file, and there it stays: `CheckGlobals`
passes over it and `generateBody` declares the constants of function bodies only.  So in every
run of the phases the scopes of files hold globals only (`GlobalsOnly`), and a use of the name
is never the literal.
-/

namespace TinCompiler

open GeneratorM

/-! ## The scopes of bodies -/

mutual

/-- The scopes of a body and of the bodies inside. -/
def ASTBody.scopes : ASTBody → List ScopeId
  | .mk scopeId statements => scopeId :: scopesOfStatements statements

def scopesOfStatements : List ASTStatement → List ScopeId
  | [] => []
  | statement :: rest => scopesOfStatement statement ++ scopesOfStatements rest

def scopesOfStatement : ASTStatement → List ScopeId
  | .while _ body _ => body.scopes
  | .ifElse _ body none _ => body.scopes
  | .ifElse _ body (some elseBody) _ => body.scopes ++ elseBody.scopes
  | _ => []

end

/-- Outside the scopes of bodies there are globals only. -/
structure GlobalsOnly (bodies : Set ScopeId) (ast : AST) : Prop where
  scopeId : ∀ s ∈ bodies, (ast.scopes s).scopeId = s
  globals : ∀ i name identifier, (ast.scopes i).scopeId ∉ bodies →
    (ast.scopes i).identifiers name = some identifier → identifier.kind = .globalId

namespace GlobalsOnly

variable {bodies : Set ScopeId} {ast ast' : AST}

theorem addVariable (h : GlobalsOnly bodies ast) {kind : IdentifierKind} {name : String}
    {scopeId : ScopeId} {type : TypeId} {offset : ℤ} {statement : Option ASTStatement}
    (hscope : scopeId ∈ bodies ∨ kind = .globalId)
    (hadd : ast.addVariable kind name scopeId type offset statement = some ast') :
    GlobalsOnly bodies ast' := by
  have hsame := SameTables.addVariable hadd
  refine ⟨fun s hs => (hsame.scopeId s).trans (h.scopeId s hs), fun i other identifier hi hfound => ?_⟩
  rw [hsame.scopeId] at hi
  unfold AST.addVariable at hadd
  dsimp only at hadd
  split at hadd
  · cases hadd
  · cases hadd
    by_cases heq : i = scopeId
    · subst heq
      simp only [Function.update_self] at hfound
      by_cases hname : other = name
      · subst hname
        rw [Function.update_self] at hfound
        cases hfound
        refine hscope.resolve_left fun hmem => hi ?_
        rw [h.scopeId i hmem]
        exact hmem
      · rw [Function.update_of_ne hname] at hfound
        exact h.globals i other identifier hi hfound
    · simp only [Function.update_of_ne heq] at hfound
      exact h.globals i other identifier hi hfound

/-- The functions do not matter. -/
theorem of_scopes (h : GlobalsOnly bodies ast) (hscopes : ast'.scopes = ast.scopes) :
    GlobalsOnly bodies ast' := by
  refine ⟨?_, ?_⟩
  · rw [hscopes]
    exact h.scopeId
  · rw [hscopes]
    exact h.globals

end GlobalsOnly

/-! ## Generating in the scope of a body -/

/-- From the context `c` on, `x` declares in scopes of bodies only, and it comes back. -/
def GeneratorM.InBodiesAt {α : Type} (bodies : Set ScopeId) (x : GeneratorM α)
    (c : GeneratorContext) : Prop :=
  c.currentScopeId ∈ bodies → GlobalsOnly bodies c.ast →
    (x c).2.currentScopeId = c.currentScopeId ∧ GlobalsOnly bodies (x c).2.ast

def GeneratorM.InBodies {α : Type} (bodies : Set ScopeId) (x : GeneratorM α) : Prop :=
  ∀ c, x.InBodiesAt bodies c

namespace GeneratorM.InBodies

variable {α β : Type} {bodies : Set ScopeId}

theorem of_framed {x : GeneratorM α} (hx : x.Framed) : x.InBodies bodies := fun c _ h =>
  ⟨(hx c).currentScopeId, (hx c).ast ▸ h⟩

theorem pure (a : α) : (Pure.pure a : GeneratorM α).InBodies bodies := of_framed (.pure a)

theorem bindAt {x : GeneratorM α} {f : α → GeneratorM β} {c : GeneratorContext}
    (hx : x.InBodies bodies) (hf : (f (x c).1).InBodiesAt bodies (x c).2) :
    (x >>= f).InBodiesAt bodies c := by
  intro hscope h
  obtain ⟨hsame, hx⟩ := hx c hscope h
  obtain ⟨hsame', hf⟩ := hf (hsame ▸ hscope) hx
  exact ⟨hsame'.trans hsame, hf⟩

theorem bind {x : GeneratorM α} {f : α → GeneratorM β} (hx : x.InBodies bodies)
    (hf : ∀ a, (f a).InBodies bodies) : (x >>= f).InBodies bodies :=
  fun _ => bindAt hx (hf _ _)

/-- The continuation may use what the context is. -/
theorem getContext_bind {f : GeneratorContext → GeneratorM β}
    (hf : ∀ c, (f c).InBodiesAt bodies c) : (getContext >>= f).InBodies bodies := hf

theorem getContext : getContext.InBodies bodies := of_framed .getContext

theorem emit (f : BytecodePiece → BytecodePiece) : (emit f).InBodies bodies := of_framed (.emit f)

/-- Neither the tables nor the scope are modified. -/
theorem modify {f : GeneratorContext → GeneratorContext} (hast : ∀ c, (f c).ast = c.ast)
    (hscope : ∀ c, (f c).currentScopeId = c.currentScopeId) : (modifyContext f).InBodies bodies := by
  intro c _ h
  exact ⟨hscope c, (hast c).symm ▸ h⟩

theorem failStatement (location : SourceLocation) (message : String) :
    (failStatement location message).InBodies bodies :=
  of_framed ((Framed.report _ _).bind fun _ => (Framed.abandon _).bind fun _ => .pure _)

theorem skipStatement (location : SourceLocation) (message : String) :
    (skipStatement location message).InBodies bodies :=
  of_framed ((Framed.report _ _).bind fun _ => (Framed.abandon _).bind fun _ => .pure _)

theorem withBlock {x : GeneratorM α} (kind : BlockKind) (hx : x.InBodies bodies) :
    (withBlock kind x).InBodies bodies := fun c hscope h => hx c hscope h

theorem setFrameOffset (frame : ℤ) : (setFrameOffset frame).InBodies bodies :=
  modify (fun _ => rfl) fun _ => rfl

theorem releaseTo (frame : ℤ) : (releaseTo frame).InBodies bodies := by
  refine getContext.bind fun c => ?_
  split
  · exact emit _
  · exact pure _

theorem generateExpression (e : ASTExpression) : (generateExpression e).InBodies bodies :=
  of_framed (.generateExpression e)

theorem performCast (ltype rtype : TypeId) : (performCast ltype rtype).InBodies bodies :=
  of_framed (.performCast ltype rtype)

theorem popValue (reg : Register) (offset : ℤ) (type : TypeId) :
    (popValue reg offset type).InBodies bodies :=
  of_framed (.popValue reg offset type)

/-- A declaration in the current scope. -/
theorem declare {kind : IdentifierKind} {name : String} {type : TypeId} {offset : ℤ}
    {statement : Option ASTStatement} {next : GeneratorM β} (hnext : next.InBodies bodies)
    {c c' : GeneratorContext} (hscope : c'.currentScopeId = c.currentScopeId)
    (hast : c'.ast = c.ast) {ast : AST}
    (hadd : c.ast.addVariable kind name c.currentScopeId type offset statement = some ast) :
    (modifyContext (fun c => { c with ast := ast }) >>= fun _ => next).InBodiesAt bodies c' := by
  intro hmem h
  rw [← hast, ← hscope] at hadd
  exact hnext { c' with ast := ast } hmem (h.addVariable (.inl hmem) hadd)

/-! ### Statements -/

theorem generateGlobalDeclaration (type name : String) (location : SourceLocation) :
    (generateGlobalDeclaration type name location).InBodies bodies := by
  refine getContext_bind fun c => ?_
  dsimp only
  split
  · refine bindAt (modify (fun _ => rfl) fun _ => rfl) ?_
    split
    · exact failStatement _ _ _
    · next hadd => exact declare (pure StatementResult.next) rfl rfl hadd
  · exact failStatement _ _ _

theorem generateConstDeclaration (type name : String) (location : SourceLocation)
    (statement : ASTStatement) :
    (generateConstDeclaration type name location statement).InBodies bodies := by
  refine getContext_bind fun c => ?_
  dsimp only
  split
  · split
    · exact skipStatement _ _ _
    · next hadd => exact declare (pure StatementResult.next) rfl rfl hadd
  · exact failStatement _ _ _

theorem generateInitializer (e : Option ASTExpression) (location : SourceLocation) (type : TypeId)
    (offset : ℤ) : (generateInitializer e location type offset).InBodies bodies := by
  unfold TinCompiler.generateInitializer
  split
  · refine (generateExpression _).bind fun etype => ?_
    split
    · refine (performCast _ _).bind fun cast => ?_
      split
      · exact (popValue _ _ _).bind fun _ => pure _
      · exact getContext.bind fun _ => failStatement _ _
    · exact (of_framed (.abandon _)).bind fun _ => pure _
  · exact getContext.bind fun _ => (emit _).bind fun _ => pure _

theorem generateVarDeclaration (type name : String) (e : Option ASTExpression)
    (location : SourceLocation) :
    (generateVarDeclaration type name e location).InBodies bodies := by
  refine getContext_bind fun c => ?_
  dsimp only
  split
  · refine bindAt (emit _) (bindAt (modify (fun _ => rfl) fun _ => rfl) ?_)
    split
    · exact skipStatement _ _ _
    · next hadd => exact declare (generateInitializer e location _ _) rfl rfl hadd
  · exact failStatement _ _ _

theorem generateContinue (frame : ℤ) (location : SourceLocation) :
    (generateContinue frame location).InBodies bodies := by
  refine getContext.bind fun c => ?_
  split
  · exact failStatement _ _
  · exact (releaseTo _).bind fun _ => (emit _).bind fun _ => (setFrameOffset _).bind fun _ => pure _

theorem generateBreak (frame : ℤ) (location : SourceLocation) :
    (generateBreak frame location).InBodies bodies := by
  refine getContext.bind fun c => ?_
  split
  · exact failStatement _ _
  · refine (releaseTo _).bind fun _ => bind (modify ?_ ?_) fun _ =>
      (setFrameOffset _).bind fun _ => pure _
    · exact fun _ => rfl
    · exact fun _ => rfl

theorem generateResult (e : ASTExpression) (location : SourceLocation) :
    (generateResult e location).InBodies bodies := by
  refine getContext.bind fun c => ?_
  split
  · refine (generateExpression e).bind fun type => (performCast _ _).bind fun cast => ?_
    split
    · exact (popValue _ _ _).bind fun _ => pure _
    · exact failStatement _ _
  · exact failStatement _ _

theorem generateReturn (frame : ℤ) (e : Option ASTExpression) (location : SourceLocation) :
    (generateReturn frame e location).InBodies bodies := by
  have hrest : ∀ result : StatementResult, (if result = .next then do
        TinCompiler.releaseTo 0
        TinCompiler.emit fun piece => piece.emitRet
        TinCompiler.setFrameOffset frame
        return .stop
      else return result : GeneratorM StatementResult).InBodies bodies := by
    intro result
    split
    · exact (releaseTo _).bind fun _ => (emit _).bind fun _ => (setFrameOffset _).bind fun _ => pure _
    · exact pure _
  cases e with
  | some e => exact (withBlock _ (generateResult e location)).bind hrest
  | none => exact (pure StatementResult.next).bind hrest

theorem generateCondition (e : ASTExpression) (statement : String) :
    (generateCondition e statement).InBodies bodies := by
  refine withBlock _ ((generateExpression e).bind fun type => (performCast _ _).bind fun cast => ?_)
  split
  · exact (emit _).bind fun _ => pure _
  · exact getContext.bind fun _ => (of_framed (.report _ _)).bind fun _ =>
      (of_framed (.abandon _)).bind fun _ => pure _

theorem closeLoop (index reloc : ℕ) : (closeLoop index reloc).InBodies bodies := by
  refine getContext.bind fun c => ?_
  split
  · exact pure _
  · exact (emit _).bind fun _ => (emit _).bind fun _ => (emit _).bind fun _ =>
      modify (fun _ => rfl) fun _ => rfl

theorem generateJz : generateJz.InBodies bodies := fun _ _ h => ⟨rfl, h⟩

theorem generateJmp : generateJmp.InBodies bodies := fun _ _ h => ⟨rfl, h⟩

theorem pushLoop : pushLoop.InBodies bodies := fun _ _ h => ⟨rfl, h⟩

theorem recordStart : recordStart.InBodies bodies := modify (fun _ => rfl) fun _ => rfl

/-- The end of a body, which goes back to the outer scope. -/
theorem closeBody (frame : ℤ) (scopeId : ScopeId) (completed : Bool) (c : GeneratorContext) :
    ((if completed = true then do
        TinCompiler.releaseTo frame
        TinCompiler.setFrameOffset frame
        setScope scopeId
        return true
      else do
        setScope scopeId
        return false : GeneratorM Bool) c).2.currentScopeId = scopeId ∧
      ((if completed = true then do
        TinCompiler.releaseTo frame
        TinCompiler.setFrameOffset frame
        setScope scopeId
        return true
      else do
        setScope scopeId
        return false : GeneratorM Bool) c).2.ast = c.ast := by
  cases completed with
  | true =>
      refine ⟨rfl, ?_⟩
      change (TinCompiler.releaseTo frame c).2.ast = c.ast
      unfold TinCompiler.releaseTo
      rw [bind_apply, ite_apply]
      split <;> rfl
  | false => exact ⟨rfl, rfl⟩

mutual

/-- A body is entered from any scope. -/
theorem generateBody : ∀ (body : ASTBody) (_ : ∀ s ∈ body.scopes, s ∈ bodies)
    (c : GeneratorContext) (_ : GlobalsOnly bodies c.ast),
    (generateBody body c).2.currentScopeId = c.currentScopeId ∧
      GlobalsOnly bodies (generateBody body c).2.ast
  | .mk scopeId statements, hscopes, c, h => by
      have hstatements := generateStatements c.currentFrameOffset statements
        (fun s hs => hscopes s (List.mem_cons_of_mem _ hs)) { c with currentScopeId := scopeId }
        (hscopes scopeId (List.mem_cons_self ..)) h
      unfold TinCompiler.generateBody
      have hclose := closeBody c.currentFrameOffset c.currentScopeId
        (TinCompiler.generateStatements c.currentFrameOffset statements
          { c with currentScopeId := scopeId }).1
        (TinCompiler.generateStatements c.currentFrameOffset statements
          { c with currentScopeId := scopeId }).2
      refine ⟨hclose.1, ?_⟩
      have hast := hclose.2
      exact hstatements.2.of_scopes (congrArg AST.scopes hast)

theorem generateStatements (frame : ℤ) : ∀ statements : List ASTStatement,
    (∀ s ∈ scopesOfStatements statements, s ∈ bodies) →
    (generateStatements frame statements).InBodies bodies
  | [], _ => pure _
  | statement :: rest, hscopes => by
      unfold TinCompiler.generateStatements
      refine recordStart.bind fun _ => (generateStatement frame statement fun s hs =>
        hscopes s (List.mem_append_left _ hs)).bind fun result => ?_
      cases result
      · exact generateStatements frame rest fun s hs => hscopes s (List.mem_append_right _ hs)
      · exact pure _
      · exact pure _

theorem generateStatement (frame : ℤ) : ∀ statement : ASTStatement,
    (∀ s ∈ scopesOfStatement statement, s ∈ bodies) →
    (generateStatement frame statement).InBodies bodies
  | .expression e location, _ => by
      unfold TinCompiler.generateStatement
      exact withBlock _ ((generateExpression e).bind fun _ => (popValue _ _ _).bind fun _ => pure _)
  | .globalDeclaration type name _ location, _ => by
      unfold TinCompiler.generateStatement
      exact generateGlobalDeclaration type name location
  | .constDeclaration type name e location, _ => by
      unfold TinCompiler.generateStatement
      exact generateConstDeclaration type name location _
  | .varDeclaration type name e location, _ => by
      unfold TinCompiler.generateStatement
      exact withBlock _ (generateVarDeclaration type name e location)
  | .while condition body _, hscopes => by
      unfold TinCompiler.generateStatement
      refine pushLoop.bind fun index => (generateCondition _ _).bind fun accepted => ?_
      split
      · refine generateJz.bind fun reloc => bind ?_ fun _ => (closeLoop index reloc).bind fun _ => pure _
        exact fun c _ h => generateBody body hscopes c h
      · exact pure _
  | .ifElse condition body none _, hscopes => by
      unfold TinCompiler.generateStatement
      refine (generateCondition _ _).bind fun accepted => ?_
      split
      · refine generateJz.bind fun reloc => bind ?_ fun _ => (emit _).bind fun _ => pure _
        exact fun c _ h => generateBody body hscopes c h
      · exact pure _
  | .ifElse condition body (some elseBody) _, hscopes => by
      unfold TinCompiler.generateStatement
      refine (generateCondition _ _).bind fun accepted => ?_
      split
      · refine generateJz.bind fun reloc => bind ?_ fun _ => generateJmp.bind fun relocEnd =>
          (emit _).bind fun _ => bind ?_ fun _ => (emit _).bind fun _ => pure _
        · exact fun c _ h => generateBody body (fun s hs => hscopes s (List.mem_append_left _ hs)) c h
        · exact fun c _ h =>
            generateBody elseBody (fun s hs => hscopes s (List.mem_append_right _ hs)) c h
      · exact pure _
  | .break location, _ => by
      unfold TinCompiler.generateStatement
      exact generateBreak frame location
  | .continue location, _ => by
      unfold TinCompiler.generateStatement
      exact generateContinue frame location
  | .return e location, _ => by
      unfold TinCompiler.generateStatement
      exact generateReturn frame e location

end

end GeneratorM.InBodies

theorem GeneratorM.Framed.generateFinalRet (function : ASTFunction) :
    (generateFinalRet function).Framed := by
  have hrest : (releaseTo 0 >>= fun _ => TinCompiler.emit fun piece => piece.emitRet).Framed := by
    refine bind (getContext.bind fun c => ?_) fun _ => emit _
    split
    · exact emit _
    · exact pure _
  refine getContext.bind fun c => ?_
  split
  · exact pure _
  · split
    · exact pure _
    · split
      · exact (report _ _).bind fun _ => hrest
      · exact (pure ()).bind fun _ => hrest

/-! ## The phases -/

/-- A task on a function or on the globals of a file. -/
inductive Phase where
  | checkFunction (scopeId : ScopeId) (f : ℕ)
  | checkGlobals (scopeId : ScopeId) (statements : List ASTStatement)
  | generateFunction (f : ℕ)

namespace Generation

def advance (s : Generation) : Phase → Generation
  | .checkFunction scopeId f =>
      let checked := TinCompiler.checkFunction s.1 s.2.2 scopeId f
      (checked.1, s.2.1, checked.2)
  | .checkGlobals scopeId statements => TinCompiler.checkGlobals scopeId statements s.1 s.2.1 s.2.2
  | .generateFunction f => TinCompiler.generateFunction s.1 f s.2.1 s.2.2

/-- One phase after the other. -/
def run (s : Generation) (phases : List Phase) : Generation := phases.foldl advance s

/-- The scopes of the bodies of all functions. -/
def bodyScopes (s : Generation) : Set ScopeId :=
  {i | ∃ f body, (s.1.functions f).body = some body ∧ i ∈ body.scopes}

/-- The bodies stay, and outside of them there are globals only. -/
structure Tidy (s s' : Generation) : Prop where
  globals : GlobalsOnly s.bodyScopes s'.1
  bodies : ∀ f, (s'.1.functions f).body = (s.1.functions f).body

variable {s s' : Generation}

theorem Tidy.mem_bodyScopes (h : Tidy s s') {f : ℕ} {body : ASTBody}
    (hbody : (s'.1.functions f).body = some body) : ∀ i ∈ body.scopes, i ∈ s.bodyScopes :=
  fun _ hi => ⟨f, body, (h.bodies f).symm.trans hbody, hi⟩

theorem Tidy.bodyScopes_eq (h : Tidy s s') : s'.bodyScopes = s.bodyScopes := by
  unfold bodyScopes
  simp only [h.bodies]

theorem globalsOnly_checkParameters {bodies : Set ScopeId} (scopeId : ScopeId)
    {function : ASTFunction}
    (hbody : ∀ body, function.body = some body → body.scopeId ∈ bodies) :
    ∀ (parameters : List Parameter) (offset : ℕ) {ast : AST} (reporter : Reporter),
      GlobalsOnly bodies ast →
      GlobalsOnly bodies (checkParameters scopeId function parameters offset ast reporter).2.2.1 ∧
        (checkParameters scopeId function parameters offset ast reporter).2.2.1.functions =
          ast.functions
  | [], _, _, _, h => ⟨h, rfl⟩
  | param :: rest, offset, ast, reporter, h => by
      unfold checkParameters
      dsimp only
      split
      · exact globalsOnly_checkParameters scopeId hbody rest _ _ h
      · next body hsome =>
          split
          · exact globalsOnly_checkParameters scopeId hbody rest _ _ h
          · next hadd =>
              obtain ⟨hglobals, hfunctions⟩ := globalsOnly_checkParameters scopeId hbody rest _ _
                (h.addVariable (.inl (hbody body hsome)) hadd)
              exact ⟨hglobals, hfunctions.trans (AST.functions_addVariable hadd)⟩

theorem globalsOnly_checkGlobals {bodies : Set ScopeId} (scopeId : ScopeId) :
    ∀ (statements : List ASTStatement) {ast : AST} (bytecode : Bytecode) (reporter : Reporter),
      GlobalsOnly bodies ast →
      GlobalsOnly bodies (checkGlobals scopeId statements ast bytecode reporter).1 ∧
        (checkGlobals scopeId statements ast bytecode reporter).1.functions = ast.functions
  | [], _, _, _, h => ⟨h, rfl⟩
  | .globalDeclaration typeString name _ location :: rest, ast, bytecode, reporter, h => by
      unfold checkGlobals
      dsimp only
      split
      · split
        · exact ⟨h, rfl⟩
        · next hadd =>
            obtain ⟨hglobals, hfunctions⟩ := globalsOnly_checkGlobals scopeId rest _ _
              (h.addVariable (.inr rfl) hadd)
            exact ⟨hglobals, hfunctions.trans (AST.functions_addVariable hadd)⟩
      · exact ⟨h, rfl⟩
  | .varDeclaration .. :: rest, _, _, _, h => globalsOnly_checkGlobals scopeId rest _ _ h
  | .constDeclaration .. :: rest, _, _, _, h => globalsOnly_checkGlobals scopeId rest _ _ h
  | .expression .. :: rest, _, _, _, h => globalsOnly_checkGlobals scopeId rest _ _ h
  | .ifElse .. :: rest, _, _, _, h => globalsOnly_checkGlobals scopeId rest _ _ h
  | .while .. :: rest, _, _, _, h => globalsOnly_checkGlobals scopeId rest _ _ h
  | .break _ :: rest, _, _, _, h => globalsOnly_checkGlobals scopeId rest _ _ h
  | .continue _ :: rest, _, _, _, h => globalsOnly_checkGlobals scopeId rest _ _ h
  | .return .. :: rest, _, _, _, h => globalsOnly_checkGlobals scopeId rest _ _ h

/-- The context in which the body of a function is generated. -/
def bodyStart (s : Generation) (f : ℕ) : GeneratorContext :=
  (generatePrologue (s.1.functions f) (functionContext (s.1.setPiece f s.2.1.pieces.length)
    (s.1.functions f) s.2.1 s.2.2)).2

theorem ast_bodyStart (s : Generation) (f : ℕ) :
    (s.bodyStart f).ast = s.1.setPiece f s.2.1.pieces.length :=
  ((plainly_prologue (s.1.functions f)).2 _).1

theorem globalsOnly_finish {bodies : Set ScopeId} {f : ℕ} (hgenerates : s.Generates f)
    (hscopes : ∀ body, (s.1.functions f).body = some body → ∀ i ∈ body.scopes, i ∈ bodies)
    (h : GlobalsOnly bodies s.1) : GlobalsOnly bodies (s.finish f).ast := by
  obtain ⟨body, hbody⟩ := Option.isSome_iff_exists.mp hgenerates.2
  have hscopes' : (s.bodyStart f).ast.scopes = s.1.scopes := by
    rw [ast_bodyStart]
    rfl
  have hstart : GlobalsOnly bodies (s.bodyStart f).ast := h.of_scopes hscopes'
  have hend := (InBodies.generateBody body (hscopes body hbody) (s.bodyStart f) hstart).2
  rw [finish_eq hbody, generateFunctionCode_snd]
  refine hend.of_scopes (congrArg AST.scopes ?_)
  exact (GeneratorM.Framed.generateFinalRet _ _).ast

/-- `CheckFunction` adds nothing else to the scopes, and the bodies are the same. -/
theorem checkFunction_same {ast : AST} (scopeId : ScopeId) (f : ℕ) (reporter : Reporter)
    (hfunctions : (checkParameters scopeId (ast.functions f) (ast.functions f).parameters 16 ast
      reporter).2.2.1.functions = ast.functions) :
    (checkFunction ast reporter scopeId f).1.scopes =
        (checkParameters scopeId (ast.functions f) (ast.functions f).parameters 16 ast
          reporter).2.2.1.scopes ∧
      ∀ g, ((checkFunction ast reporter scopeId f).1.functions g).body = (ast.functions g).body := by
  have hbody : ∀ (function : ASTFunction), function.body = (ast.functions f).body → ∀ g,
      (Function.update (checkParameters scopeId (ast.functions f) (ast.functions f).parameters 16 ast
        reporter).2.2.1.functions f function g).body = (ast.functions g).body := by
    intro function hsame g
    by_cases heq : g = f
    · rw [heq, Function.update_self, hsame]
    · rw [Function.update_of_ne heq, hfunctions]
  unfold checkFunction
  dsimp only
  split
  · exact ⟨rfl, hbody _ rfl⟩
  · split
    · exact ⟨rfl, hbody _ rfl⟩
    · exact ⟨rfl, hbody _ rfl⟩

/-- What one phase preserves. -/
theorem Tidy.advance (h : Tidy s s') : ∀ phase : Phase, Tidy s (s'.advance phase)
  | .checkFunction scopeId f => by
      have hbody : ∀ body, (s'.1.functions f).body = some body → body.scopeId ∈ s.bodyScopes := by
        intro body hbody
        refine h.mem_bodyScopes hbody _ ?_
        cases body
        exact List.mem_cons_self ..
      obtain ⟨hglobals, hfunctions⟩ := globalsOnly_checkParameters scopeId hbody
        (s'.1.functions f).parameters 16 s'.2.2 h.globals
      obtain ⟨hscopes, hbodies⟩ := checkFunction_same scopeId f s'.2.2 hfunctions
      exact ⟨hglobals.of_scopes hscopes, fun g => (hbodies g).trans (h.bodies g)⟩
  | .checkGlobals scopeId statements => by
      obtain ⟨hglobals, hfunctions⟩ := globalsOnly_checkGlobals scopeId statements s'.2.1 s'.2.2
        h.globals
      refine ⟨hglobals, fun f => ?_⟩
      change ((TinCompiler.checkGlobals scopeId statements s'.1 s'.2.1 s'.2.2).1.functions f).body = _
      rw [hfunctions, h.bodies]
  | .generateFunction f => by
      change Tidy s (TinCompiler.generateFunction s'.1 f s'.2.1 s'.2.2)
      by_cases hgenerates : s'.Generates f
      · have hfunctions := (finish_spec hgenerates).2.1
        rw [generateFunction_eq_finish hgenerates]
        refine ⟨globalsOnly_finish hgenerates (fun body hbody => h.mem_bodyScopes hbody) h.globals,
          fun g => ?_⟩
        change ((s'.finish f).ast.functions g).body = _
        rw [hfunctions, (s'.1.functions_setPiece f _ g).2.1, h.bodies]
      · have hsame : TinCompiler.generateFunction s'.1 f s'.2.1 s'.2.2 = s' := by
          unfold TinCompiler.generateFunction
          dsimp only
          split
          · next hnative hbody =>
              exact absurd ⟨hnative, by rw [hbody]; rfl⟩ hgenerates
          · rfl
        rw [hsame]
        exact h

/-- What a run preserves. -/
theorem Tidy.run (phases : List Phase) : ∀ {s' : Generation}, Tidy s s' → Tidy s (s'.run phases) := by
  induction phases with
  | nil => exact fun h => h
  | cons phase phases ih => exact fun h => ih (h.advance phase)

end Generation

/-! ## Uses of a constant -/

/-- `found` is generated when a statement of `statements` is, and then the context is `c'`. -/
inductive StartsBody : GeneratorContext → ASTStatement → ASTBody → GeneratorContext → Prop where
  | loop {c : GeneratorContext} {condition : ASTExpression} {body : ASTBody}
      {location : SourceLocation}
      (haccepted : (generateCondition condition "while" (pushLoop c).2).1 = true) :
      StartsBody c (.while condition body location) body
        (generateJz (generateCondition condition "while" (pushLoop c).2).2).2
  | thenBody {c : GeneratorContext} {condition : ASTExpression} {body : ASTBody}
      {elseBody : Option ASTBody} {location : SourceLocation}
      (haccepted : (generateCondition condition "if" c).1 = true) :
      StartsBody c (.ifElse condition body elseBody location) body
        (generateJz (generateCondition condition "if" c).2).2
  | elseBody {c : GeneratorContext} {condition : ASTExpression} {body elseBody : ASTBody}
      {location : SourceLocation} (haccepted : (generateCondition condition "if" c).1 = true) :
      StartsBody c (.ifElse condition body (some elseBody) location) elseBody
        (fixJump (generateJz (generateCondition condition "if" c).2).1 (generateJmp (generateBody body
          (generateJz (generateCondition condition "if" c).2).2).2).2).2

/-- The generator, with `statements` in the context `c`, comes to a statement of them or of a body
inside, in the context `c'`. -/
inductive ComesTo : ℤ → List ASTStatement → GeneratorContext → ASTStatement → GeneratorContext →
    Prop where
  | here (frame : ℤ) (statement : ASTStatement) (rest : List ASTStatement) (c : GeneratorContext) :
      ComesTo frame (statement :: rest) c statement (recordStart c).2
  | later {frame : ℤ} {statement found : ASTStatement} {rest : List ASTStatement}
      {c c' : GeneratorContext}
      (hnext : (generateStatement frame statement (recordStart c).2).1 = .next)
      (h : ComesTo frame rest (generateStatement frame statement (recordStart c).2).2 found c') :
      ComesTo frame (statement :: rest) c found c'
  | inside {frame : ℤ} {statement found : ASTStatement} {rest : List ASTStatement} {body : ASTBody}
      {c c₁ c' : GeneratorContext} (hbody : StartsBody (recordStart c).2 statement body c₁)
      (h : ComesTo c₁.currentFrameOffset body.statements { c₁ with currentScopeId := body.scopeId }
        found c') :
      ComesTo frame (statement :: rest) c found c'

/-- A statement that is reached in the context `c` has the value `e` generated with the tables
`ast`: an initial value comes behind the declaration of its variable. -/
inductive EvaluatesIn : GeneratorContext → ASTStatement → ASTExpression → AST → Prop where
  | expression {c : GeneratorContext} {e : ASTExpression} {location : SourceLocation} :
      EvaluatesIn c (.expression e location) e c.ast
  | loop {c : GeneratorContext} {e : ASTExpression} {body : ASTBody} {location : SourceLocation} :
      EvaluatesIn c (.while e body location) e c.ast
  | ifElse {c : GeneratorContext} {e : ASTExpression} {body : ASTBody} {elseBody : Option ASTBody}
      {location : SourceLocation} : EvaluatesIn c (.ifElse e body elseBody location) e c.ast
  | return {c : GeneratorContext} {e : ASTExpression} {location : SourceLocation} :
      EvaluatesIn c (.return (some e) location) e c.ast
  | initializer {c : GeneratorContext} {e : ASTExpression} {location : SourceLocation}
      {type name : String} {offset : ℤ} {ast : AST}
      (hadd : c.ast.addVariable .localId name c.currentScopeId
        (c.ast.convertFullType type c.currentScopeId) offset = some ast) :
      EvaluatesIn c (.varDeclaration type name (some e) location) e ast

mutual

/-- The names whose values an expression uses. -/
def valueNames : ASTExpression → List String
  | .identifier name _ => [name]
  | .functionCall _ arguments _ => argumentValueNames arguments
  | .binary _ left right _ => valueNames left ++ valueNames right
  | .not left _ => valueNames left
  | .refer left _ => referenceValueNames left
  | .deref left _ => valueNames left
  | .index left right _ => valueNames right ++ valueNames left
  | .member left _ _ => placeValueNames left
  | .cast left _ _ => valueNames left
  | .assign left right _ => valueNames right ++ referenceValueNames left
  | .step _ left _ => referenceValueNames left
  | .sizeof .. | .literalInt .. | .literalFloat .. | .literalStr .. | .literalChar ..
  | .literalNull .. | .literalTrue .. | .literalFalse .. => []

def argumentValueNames : List ASTExpression → List String
  | [] => []
  | arg :: arguments => valueNames arg ++ argumentValueNames arguments

/-- The same for an expression whose address is taken. -/
def referenceValueNames : ASTExpression → List String
  | .deref left _ => valueNames left
  | .member left _ _ => placeValueNames left
  | .index left right _ => placeValueNames left ++ valueNames right
  | _ => []

/-- The indices on the way to a place. -/
def placeValueNames : ASTExpression → List String
  | .member left _ _ => placeValueNames left
  | .index left right _ => placeValueNames left ++ valueNames right
  | _ => []

end

/-- Literals, which are the values of constants. -/
def ASTExpression.IsLiteral : ASTExpression → Prop
  | .literalInt .. | .literalFloat .. | .literalStr .. | .literalChar .. | .literalNull ..
  | .literalTrue .. | .literalFalse .. => True
  | _ => False

/-- A constant with a literal value that is declared in a file. -/
structure FileConstant (ast : AST) where
  file : FileBody
  imported : file ∈ ast.importBodies
  type : String
  name : String
  value : ASTExpression
  location : SourceLocation
  declared : .constDeclaration type name (some value) location ∈ file.statements
  literal : value.IsLiteral

/-- The search from `scopeId` comes to the scope of the file before it comes to a scope in which the
name is declared. -/
def AST.Sees (ast : AST) (file : ScopeId) (name : String) (scopeId : ScopeId) : Prop :=
  ast.search (fun scope => if scope.scopeId = file then some true
    else (scope.identifiers name).map fun _ => false) scopeId = some true

open Classical in
/-- The declaration in a function body that the search finds. -/
noncomputable def AST.findLocal (ast : AST) (bodies : Set ScopeId) (name : String)
    (scopeId : ScopeId) : Option Identifier :=
  ast.search (fun scope => if scope.scopeId ∈ bodies then scope.identifiers name else none) scopeId

namespace Generation

/-- When the function is generated, a value uses the name in the scope `scopeId` with the tables
`ast`, and no declaration is nearer than the file, in particular none in a function body. -/
def UsesConstant (s : Generation) (f : ℕ) (file : ScopeId) (name : String) (ast : AST)
    (scopeId : ScopeId) : Prop :=
  s.Generates f ∧ ∃ body statement c e, (s.1.functions f).body = some body ∧
    ComesTo (s.bodyStart f).currentFrameOffset body.statements
      { s.bodyStart f with currentScopeId := body.scopeId } statement c ∧
    EvaluatesIn c statement e ast ∧ scopeId = c.currentScopeId ∧ name ∈ valueNames e ∧
    ast.Sees file name scopeId ∧ ast.findLocal s.bodyScopes name scopeId = none

end Generation

/-! ## What a use is compiled to -/

theorem StartsBody.globalsOnly {bodies : Set ScopeId} {c c' : GeneratorContext}
    {statement : ASTStatement} {body : ASTBody} (h : StartsBody c statement body c')
    (hscopes : ∀ s ∈ scopesOfStatement statement, s ∈ bodies) (hscope : c.currentScopeId ∈ bodies)
    (hglobals : GlobalsOnly bodies c.ast) :
    (∀ s ∈ body.scopes, s ∈ bodies) ∧ GlobalsOnly bodies c'.ast := by
  cases h with
  | loop _ => exact ⟨hscopes, (InBodies.generateCondition _ _ (pushLoop c).2 hscope hglobals).2⟩
  | @thenBody _ _ elseBody _ _ =>
      refine ⟨fun s hs => hscopes s ?_, (InBodies.generateCondition _ _ c hscope hglobals).2⟩
      cases elseBody with
      | none => exact hs
      | some elseBody => exact List.mem_append_left _ hs
  | @elseBody condition body _ _ _ =>
      refine ⟨fun s hs => hscopes s (List.mem_append_right _ hs), ?_⟩
      have hcondition := InBodies.generateCondition condition "if" c hscope hglobals
      exact (InBodies.generateBody body (fun s hs => hscopes s (List.mem_append_left _ hs))
        (generateJz (generateCondition condition "if" c).2).2 hcondition.2).2

/-- Wherever the generator comes, the scopes of files hold globals only. -/
theorem ComesTo.globalsOnly {bodies : Set ScopeId} {frame : ℤ} {statements : List ASTStatement}
    {c c' : GeneratorContext} {found : ASTStatement} (h : ComesTo frame statements c found c')
    (hscopes : ∀ s ∈ scopesOfStatements statements, s ∈ bodies)
    (hscope : c.currentScopeId ∈ bodies) (hglobals : GlobalsOnly bodies c.ast) :
    c'.currentScopeId ∈ bodies ∧ GlobalsOnly bodies c'.ast := by
  induction h with
  | here _ _ _ _ => exact ⟨hscope, hglobals⟩
  | later _ _ ih =>
      obtain ⟨hsame, hnext⟩ := InBodies.generateStatement _ _
        (fun s hs => hscopes s (List.mem_append_left _ hs)) (recordStart _).2 hscope hglobals
      exact ih (fun s hs => hscopes s (List.mem_append_right _ hs)) (hsame.symm ▸ hscope) hnext
  | @inside _ _ _ _ body _ _ _ hbody _ ih =>
      obtain ⟨hbodies, hstart⟩ := hbody.globalsOnly
        (fun s hs => hscopes s (List.mem_append_left _ hs)) hscope hglobals
      obtain ⟨scopeId, statements⟩ := body
      exact ih (fun s hs => hbodies s (List.mem_cons_of_mem _ hs))
        (hbodies scopeId (List.mem_cons_self ..)) hstart

theorem EvaluatesIn.globalsOnly {bodies : Set ScopeId} {c : GeneratorContext}
    {statement : ASTStatement} {e : ASTExpression} {ast : AST} (h : EvaluatesIn c statement e ast)
    (hscope : c.currentScopeId ∈ bodies) (hglobals : GlobalsOnly bodies c.ast) :
    GlobalsOnly bodies ast := by
  cases h with
  | initializer hadd => exact hglobals.addVariable (.inl hscope) hadd
  | _ => exact hglobals

/-- What is not found in the scopes with a property is found in a scope without it. -/
theorem AST.exists_of_searchFrom_not {α : Type} {ast : AST} {select : ScopeInfo → Option α}
    {p : ScopeInfo → Prop} [DecidablePred p] {found : α} : ∀ {fuel iterator},
    ast.searchFrom (fun scope => if p scope then select scope else none) fuel iterator = none →
    ast.searchFrom select fuel iterator = some found →
      ∃ i, ¬ p (ast.scopes i) ∧ select (ast.scopes i) = some found := by
  intro fuel
  induction fuel with
  | zero => exact fun _ hfound => by cases hfound
  | succ fuel ih =>
      intro iterator hnone hfound
      unfold searchFrom iterate at hnone hfound
      cases hscope : iterator.searchScopes[iterator.searchIndex]? with
      | none => simp [hscope] at hfound
      | some scopeId =>
          by_cases hp : p (ast.scopes scopeId)
          · cases hselect : select (ast.scopes scopeId) with
            | none =>
                simp only [hscope, hselect, if_pos hp] at hnone hfound
                exact ih hnone hfound
            | some other => simp [hscope, hselect, hp] at hnone
          · cases hselect : select (ast.scopes scopeId) with
            | none =>
                simp only [hscope, hselect, if_neg hp] at hnone hfound
                exact ih hnone hfound
            | some other =>
                simp only [hscope, hselect, Option.some.injEq] at hfound
                exact ⟨scopeId, hp, hfound ▸ hselect⟩

theorem kind_of_findLocal {bodies : Set ScopeId} {ast : AST} {name : String} {scopeId : ScopeId}
    {identifier : Identifier} (hglobals : GlobalsOnly bodies ast)
    (hlocal : ast.findLocal bodies name scopeId = none)
    (hfound : ast.findVariable name scopeId = some identifier) : identifier.kind = .globalId := by
  classical
  obtain ⟨i, hnot, hselect⟩ := AST.exists_of_searchFrom_not hlocal hfound
  exact hglobals.globals i name identifier hnot hselect

/-- Code is only added behind. -/
theorem prefix_generatePush (ast : AST) (reg : Register) :
    ∀ (fuel : ℕ) (offset : ℤ) (type : TypeId) (piece : BytecodePiece),
      piece.instructions <+: (generatePush ast reg fuel offset type piece).instructions := by
  intro fuel
  induction fuel with
  | zero => exact fun _ _ _ => List.prefix_rfl
  | succ fuel ih =>
      intro offset type piece
      unfold generatePush
      split
      · unfold BytecodePiece.emitMovRMDisp
        split
        · exact List.IsPrefix.trans (List.prefix_append _ _) (List.prefix_append _ _)
        · exact ((List.prefix_append _ _).trans (List.prefix_append _ _)).trans
            (List.prefix_append _ _)
      · next s _ =>
          generalize (ast.structures s).members = members
          induction members generalizing piece with
          | nil => exact List.prefix_rfl
          | cons mem members ihMembers => exact (ih _ _ piece).trans (ihMembers _)

/-- The code of a literal starts by loading register A. -/
theorem generateExpression_literal {e : ASTExpression} (hliteral : e.IsLiteral)
    (c : GeneratorContext) : (generateExpression e c).2.reporter = c.reporter ∧
      ∃ inst, (generateExpression e c).2.piece.instructions[c.piece.instructions.length]? =
        some (.inst inst) ∧ inst ≠ .dataptr .b := by
  cases e with
  | literalStr text location =>
      refine ⟨rfl, .dataptr .a, ?_, by decide⟩
      change ((c.piece.instructions ++ [_]) ++ [_] ++ [_])[_]? = _
      simp
  | literalInt | literalFloat | literalChar | literalNull | literalTrue | literalFalse =>
      refine ⟨rfl, .li .a, ?_, by decide⟩
      change ((c.piece.instructions ++ [_]) ++ [_] ++ [_])[_]? = _
      simp
  | _ => exact hliteral.elim

/-- A name that stands for a global or for nothing is not compiled like a literal. -/
theorem generateExpression_identifier_ne {name : String} {c : GeneratorContext}
    (hglobal : ∀ identifier, c.ast.findVariable name c.currentScopeId = some identifier →
      identifier.kind = .globalId) {value : ASTExpression} (hliteral : value.IsLiteral)
    (location : SourceLocation) :
    generateExpression (.identifier name location) c ≠ generateExpression value c := by
  obtain ⟨hreporter, inst, hinst, hne⟩ := generateExpression_literal hliteral c
  intro heq
  change generateIdentifier name location c = _ at heq
  unfold generateIdentifier at heq
  rw [bind_apply] at heq
  dsimp only [getContext] at heq
  cases hfound : c.ast.findVariable name c.currentScopeId with
  | none =>
      -- the error is reported
      rw [hfound] at heq
      rw [← heq] at hreporter
      have herrors := congrArg Reporter.errors hreporter
      change (c.reporter.err _ _).errors = _ at herrors
      simp at herrors
  | some identifier =>
      -- the address of the global is loaded into register B
      rw [hfound] at heq
      dsimp only at heq
      rw [hglobal identifier hfound] at heq
      rw [← heq] at hinst
      have hprefix := prefix_generatePush c.ast .b c.ast.depth 0 identifier.type
        (c.piece.emitDataptr .b identifier.offset)
      obtain ⟨rest, hrest⟩ := hprefix
      change (generatePush c.ast .b c.ast.depth 0 identifier.type
        (c.piece.emitDataptr .b identifier.offset)).instructions[_]? = _ at hinst
      rw [← hrest] at hinst
      simp [BytecodePiece.emitDataptr, BytecodePiece.emit, BytecodePiece.emitImm] at hinst
      exact hne hinst.symm

namespace Generation

/-- The tables that the parser leaves: no identifiers yet, and every scope under its number. -/
structure Parsed (s : Generation) : Prop where
  identifiers : ∀ i name, (s.1.scopes i).identifiers name = none
  scopeId : ∀ i ∈ s.bodyScopes, (s.1.scopes i).scopeId = i

theorem Parsed.tidy {s : Generation} (h : s.Parsed) : Tidy s s :=
  ⟨⟨h.scopeId, fun i name identifier _ hfound => by rw [h.identifiers] at hfound; cases hfound⟩,
    fun _ => rfl⟩

/-- Every use of the constant in the functions of a run is compiled like its literal. -/
def CompiledAsLiteral (s : Generation) (phases : List Phase) (K : FileConstant s.1) : Prop :=
  ∀ before f after, phases = before ++ .generateFunction f :: after →
    ∀ ast scopeId, (s.run before).UsesConstant f K.file.scopeId K.name ast scopeId →
      ∀ (c : GeneratorContext) (location : SourceLocation), c.ast = ast →
        c.currentScopeId = scopeId →
        generateExpression (.identifier K.name location) c = generateExpression K.value c

/-- No function of the run uses the constant. -/
def Unused (s : Generation) (phases : List Phase) (K : FileConstant s.1) : Prop :=
  ∀ before f after, phases = before ++ .generateFunction f :: after →
    ∀ ast scopeId, ¬ (s.run before).UsesConstant f K.file.scopeId K.name ast scopeId

theorem not_literal_of_use {s s' : Generation} (h : Tidy s s') {f : ℕ} {file : ScopeId}
    {name : String} {ast : AST} {scopeId : ScopeId} (huse : s'.UsesConstant f file name ast scopeId)
    {value : ASTExpression} (hliteral : value.IsLiteral) {c : GeneratorContext} (hast : c.ast = ast)
    (hscope : c.currentScopeId = scopeId) (location : SourceLocation) :
    generateExpression (.identifier name location) c ≠ generateExpression value c := by
  obtain ⟨-, body, statement, c', e, hbody, hcomes, hevaluates, -, -, -, hlocal⟩ := huse
  rw [h.bodyScopes_eq] at hlocal
  have hscopes := h.mem_bodyScopes hbody
  have hstart : GlobalsOnly s.bodyScopes (s'.bodyStart f).ast := by
    refine h.globals.of_scopes ?_
    rw [ast_bodyStart]
    rfl
  obtain ⟨bodyScope, statements⟩ := body
  obtain ⟨hmem, hglobals⟩ := hcomes.globalsOnly
    (fun i hi => hscopes i (List.mem_cons_of_mem _ hi)) (hscopes bodyScope (List.mem_cons_self ..))
    hstart
  have hglobals' := hevaluates.globalsOnly hmem hglobals
  refine generateExpression_identifier_ne (fun identifier hfound => ?_) hliteral location
  rw [hast, hscope] at hfound
  exact kind_of_findLocal hglobals' hlocal hfound

theorem compiledAsLiteral_iff {s : Generation} (h : s.Parsed) (K : FileConstant s.1)
    (phases : List Phase) : s.CompiledAsLiteral phases K ↔ s.Unused phases K := by
  constructor
  · intro hcompiled before f after heq ast scopeId huse
    have hsame := hcompiled before f after heq ast scopeId huse
      { ast := ast, currentScopeId := scopeId } 0 rfl rfl
    exact not_literal_of_use (h.tidy.run before) huse K.literal rfl rfl 0 hsame
  · intro hunused before f after heq ast scopeId huse
    exact absurd huse (hunused before f after heq ast scopeId)

/-- A file with `const pi: int = 3` and `fun start() { pi; }` -/
def constantProgram : Generation :=
  ({ ((AST.initial.createScope globalScope).2.createScope 1).2 with
      functionsUsed := 12
      functions := fun f => (AST.nativeFunctions ++
        ([{ name := "start",
            body := some (.mk 2 [.expression (.identifier "pi" 0) 0]) }] : List ASTFunction)).getD f {}
      importBodies := [{ scopeId := 1,
                         statements := [.constDeclaration "int" "pi" (some (.literalInt 3 0)) 0],
                         functions := [11] }] }, {}, {})

def pi : FileConstant constantProgram.1 where
  file := { scopeId := 1,
            statements := [.constDeclaration "int" "pi" (some (.literalInt 3 0)) 0],
            functions := [11] }
  imported := List.mem_cons_self ..
  type := "int"
  name := "pi"
  value := .literalInt 3 0
  location := 0
  declared := List.mem_cons_self ..
  literal := trivial

theorem parsed_constantProgram : constantProgram.Parsed where
  identifiers := by
    intro i name
    change (Function.update (AST.initial.createScope globalScope).2.scopes 2 _ i).identifiers name = none
    by_cases htwo : i = 2
    · subst htwo
      rfl
    · rw [Function.update_of_ne htwo]
      change (Function.update AST.initial.scopes 1 _ i).identifiers name = none
      by_cases hone : i = 1
      · subst hone
        rfl
      · rw [Function.update_of_ne hone]
        by_cases hzero : i = globalScope
        · subst hzero
          rfl
        · rw [AST.initial_scopes hzero]
  scopeId := by
    rintro i ⟨f, body, hbody, hi⟩
    have hnatives : ∀ f < 11, (constantProgram.1.functions f).body.isNone = true := by decide
    rcases Nat.lt_trichotomy f 11 with hlt | rfl | hgt
    · have hnone := hnatives f hlt
      rw [hbody] at hnone
      cases hnone
    · cases hbody
      rw [List.mem_singleton.mp hi]
      rfl
    · have hnone : constantProgram.1.functions f = ({} : ASTFunction) :=
        List.getD_eq_default _ _ (show (AST.nativeFunctions ++ _).length ≤ f from hgt)
      rw [hnone] at hbody
      cases hbody

theorem compiledAsLiteral_iff_pi :
    constantProgram.CompiledAsLiteral [] pi ↔ constantProgram.Unused [] pi :=
  compiledAsLiteral_iff parsed_constantProgram pi []

/-- The use in `start` is an error. -/
theorem not_compiledAsLiteral : ¬ constantProgram.CompiledAsLiteral [.generateFunction 11] pi := by
  intro hcompiled
  have huse : constantProgram.UsesConstant 11 1 "pi"
      (recordStart { constantProgram.bodyStart 11 with currentScopeId := 2 }).2.ast 2 := by
    refine ⟨⟨by decide, by decide⟩, _, _, _, _, rfl, .here _ _ _ _, .expression, rfl,
      List.mem_cons_self .., ?_, ?_⟩
    · unfold AST.Sees
      decide
    · refine Option.eq_none_iff_forall_ne_some.mpr fun identifier hfound => ?_
      obtain ⟨i, hselect⟩ := AST.exists_of_searchFrom hfound
      split at hselect
      · change ((constantProgram.bodyStart 11).ast.scopes i).identifiers "pi" = _ at hselect
        rw [ast_bodyStart] at hselect
        exact absurd ((parsed_constantProgram.identifiers i "pi").symm.trans hselect) (by simp)
      · cases hselect
  have hsame := hcompiled [] 11 [] rfl _ 2 huse
    (recordStart { constantProgram.bodyStart 11 with currentScopeId := 2 }).2 0 rfl rfl
  have herrors := congrArg (fun result => result.2.reporter.errors) hsame
  exact absurd herrors (by decide)

end Generation

end TinCompiler
