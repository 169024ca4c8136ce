import TinCompiler.Generator.Constants
import TinCompiler.Structs.Leaves

/-!
# The storage of local variables

The scopes that are open at a statement, from its body out to the body of the function, hold the
parameters and the variables that are visible there.  Their ranges in the frame are disjoint and lie
above the frame offset (`Stored`): a declaration takes the bytes below the offset, and a body that
is left gives back only what was declared in it, since the scopes in which it declares are its
own (`Apart`).
-/

namespace TinCompiler

open GeneratorM

/-! ## Where a body declares -/

def ASTStatement.declares : ASTStatement → Bool
  | .varDeclaration .. | .globalDeclaration .. | .constDeclaration .. => true
  | _ => false

mutual

/-- The scopes in which a body or a body inside declares something. -/
def ASTBody.declaring : ASTBody → List ScopeId
  | .mk scopeId statements =>
      (if statements.any ASTStatement.declares then [scopeId] else []) ++
        declaringOfStatements statements

def declaringOfStatements : List ASTStatement → List ScopeId
  | [] => []
  | statement :: rest => declaringOfStatement statement ++ declaringOfStatements rest

/-- The bodies inside of the statement only. -/
def declaringOfStatement : ASTStatement → List ScopeId
  | .while _ body _ => body.declaring
  | .ifElse _ body none _ => body.declaring
  | .ifElse _ body (some elseBody) _ => body.declaring ++ elseBody.declaring
  | _ => []

end

/-! ## Computations that leave the open scopes alone -/

theorem AST.scopes_addVariable {ast ast' : AST} {kind : IdentifierKind} {name : String}
    {scopeId : ScopeId} {type : TypeId} {offset : ℤ} {statement : Option ASTStatement}
    (h : ast.addVariable kind name scopeId type offset statement = some ast') :
    ast'.scopes = Function.update ast.scopes scopeId { ast.scopes scopeId with
      identifiers := Function.update (ast.scopes scopeId).identifiers name
        (some { kind := kind, type := type, offset := offset, statement := statement }) } := by
  unfold AST.addVariable at h
  dsimp only at h
  split at h
  · cases h
  · cases h
    rfl

/-- Identifiers are added in the scopes `declared` only, and the frame does not shrink. -/
structure GeneratorM.SparesAt {α : Type} (x : GeneratorM α) (c : GeneratorContext)
    (declared : List ScopeId) : Prop where
  scope : (x c).2.currentScopeId = c.currentScopeId
  tables : SameTables c.ast (x c).2.ast
  others : ∀ i, i ∉ declared → (x c).2.ast.scopes i = c.ast.scopes i
  lower : (x c).2.currentFrameOffset ≤ c.currentFrameOffset

namespace GeneratorM.SparesAt

variable {α β : Type} {x : GeneratorM α} {f : α → GeneratorM β} {c : GeneratorContext}
  {declared declared' : List ScopeId}

theorem ofFramed (hx : x.Framed) : x.SparesAt c declared where
  scope := (hx c).currentScopeId
  tables := (hx c).ast ▸ .refl _
  others := fun _ _ => by rw [(hx c).ast]
  lower := Int.le_of_eq (hx c).currentFrameOffset

/-- Only records of the generator are different. -/
theorem ofSame (hscope : (x c).2.currentScopeId = c.currentScopeId) (hast : (x c).2.ast = c.ast)
    (hlower : (x c).2.currentFrameOffset ≤ c.currentFrameOffset) : x.SparesAt c declared where
  scope := hscope
  tables := hast ▸ .refl _
  others := fun _ _ => by rw [hast]
  lower := hlower

theorem bind (hx : x.SparesAt c declared) (hf : (f (x c).1).SparesAt (x c).2 declared') :
    (x >>= f).SparesAt c (declared ++ declared') where
  scope := hf.scope.trans hx.scope
  tables := hx.tables.trans hf.tables
  others := fun i hi => by
    rw [List.mem_append, not_or] at hi
    exact (hf.others i hi.2).trans (hx.others i hi.1)
  lower := hf.lower.trans hx.lower

theorem front (hx : x.SparesAt c []) (hf : (f (x c).1).SparesAt (x c).2 declared) :
    (x >>= f).SparesAt c declared := hx.bind hf

theorem back (hx : x.SparesAt c declared) (hf : (f (x c).1).SparesAt (x c).2 []) :
    (x >>= f).SparesAt c declared := by
  have hbind := hx.bind hf
  rwa [List.append_nil] at hbind

theorem withBlock (kind : BlockKind) (hx : x.SparesAt c declared) :
    (withBlock kind x).SparesAt c declared := ⟨hx.scope, hx.tables, hx.others, hx.lower⟩

theorem generateCondition (e : ASTExpression) (statement : String) :
    (generateCondition e statement).SparesAt c [] := by
  refine withBlock _ (ofFramed ((Framed.generateExpression e).bind fun type =>
    (Framed.performCast _ _).bind fun cast => ?_))
  split
  · exact (Framed.emit _).bind fun _ => .pure _
  · exact Framed.getContext.bind fun _ => (Framed.report _ _).bind fun _ =>
      (Framed.abandon _).bind fun _ => .pure _

theorem generateJz : generateJz.SparesAt c [] := ofSame rfl rfl (Int.le_refl _)

theorem generateJmp : generateJmp.SparesAt c [] := ofSame rfl rfl (Int.le_refl _)

theorem pushLoop : pushLoop.SparesAt c [] := ofSame rfl rfl (Int.le_refl _)

theorem recordStart : recordStart.SparesAt c [] := ofSame rfl rfl (Int.le_refl _)

theorem closeLoop (index reloc : ℕ) : (closeLoop index reloc).SparesAt c [] := by
  refine front (ofFramed .getContext) ?_
  dsimp only [TinCompiler.getContext]
  split
  · exact ofFramed (.pure _)
  · refine front (ofFramed (.emit _)) (front (ofFramed (.emit _)) (front (ofFramed (.emit _)) ?_))
    exact ofSame rfl rfl (Int.le_refl _)

end GeneratorM.SparesAt

/-! ## Statements -/

/-- The statement has added one name to its scope or none; a new variable has the bytes between the
new and the old frame offset. -/
def Declared (c c' : GeneratorContext) : Prop :=
  (c'.ast.scopes c.currentScopeId).identifiers = (c.ast.scopes c.currentScopeId).identifiers ∨
    ∃ name identifier, (c'.ast.scopes c.currentScopeId).identifiers =
        Function.update (c.ast.scopes c.currentScopeId).identifiers name (some identifier) ∧
      (identifier.kind = .localId → c'.currentFrameOffset ≤ identifier.offset ∧
        identifier.offset + c.ast.sizeOfType identifier.type ≤ c.currentFrameOffset)

/-- A statement adds identifiers in the scopes `declared`, and one in its own if it `declares`. -/
structure GeneratorM.DeclaresAt (x : GeneratorM StatementResult) (c : GeneratorContext)
    (declared : List ScopeId) (declares : Prop) : Prop where
  scope : (x c).2.currentScopeId = c.currentScopeId
  tables : SameTables c.ast (x c).2.ast
  others : ∀ i, i ∉ declared → (declares → i ≠ c.currentScopeId) →
    (x c).2.ast.scopes i = c.ast.scopes i
  lower : (x c).1 ≠ .stop → (x c).2.currentFrameOffset ≤ c.currentFrameOffset
  own : (x c).1 = .next → declares → Declared c (x c).2

namespace GeneratorM.DeclaresAt

variable {x : GeneratorM StatementResult} {c : GeneratorContext} {declared : List ScopeId}

/-- A statement that declares nothing in its own scope. -/
theorem ofSpares {declares : Prop} (hx : x.SparesAt c declared) (hnot : ¬ declares) :
    x.DeclaresAt c declared declares :=
  ⟨hx.scope, hx.tables, fun i hi _ => hx.others i hi, fun _ => hx.lower,
    fun _ hdeclares => absurd hdeclares hnot⟩

/-- A statement that leaves the body. -/
theorem ofStop {declares : Prop} (hscope : (x c).2.currentScopeId = c.currentScopeId)
    (hast : (x c).2.ast = c.ast)
    (hlower : (x c).1 ≠ .stop → (x c).2.currentFrameOffset ≤ c.currentFrameOffset) :
    x.DeclaresAt c declared declares :=
  ⟨hscope, hast ▸ .refl _, fun _ _ _ => by rw [hast], hlower, fun _ _ => .inl (by rw [hast])⟩

/-- The declaration itself, in a context in which room has been made. -/
theorem declare {kind : IdentifierKind} {name : String} {type : TypeId} {offset : ℤ}
    {statement : Option ASTStatement} {ast : AST} {c' : GeneratorContext}
    (hscope : c'.currentScopeId = c.currentScopeId) (hast : c'.ast = ast)
    (hlower : c'.currentFrameOffset ≤ c.currentFrameOffset)
    (hadd : c.ast.addVariable kind name c.currentScopeId type offset statement = some ast)
    (hrange : kind = .localId → c'.currentFrameOffset ≤ offset ∧
      offset + c.ast.sizeOfType type ≤ c.currentFrameOffset)
    {result : StatementResult} (hx : x c = (result, c')) : x.DeclaresAt c declared True := by
  have htables := SameTables.addVariable hadd
  have hscopes := AST.scopes_addVariable hadd
  refine ⟨?_, ?_, fun i _ hne => ?_, fun _ => ?_, fun _ _ => .inr ⟨name,
    { kind := kind, type := type, offset := offset, statement := statement }, ?_, ?_⟩⟩
  · rw [hx]
    exact hscope
  · rw [hx, hast]
    exact htables
  · rw [hx, hast, hscopes, Function.update_of_ne (hne trivial)]
  · rw [hx]
    exact hlower
  · rw [hx, hast, hscopes, Function.update_self]
  · rw [hx]
    exact hrange

theorem failStatement (location : SourceLocation) (message : String) {declares : Prop} :
    (failStatement location message).DeclaresAt c declared declares :=
  ofStop rfl rfl fun _ => Int.le_refl _

theorem skipStatement (location : SourceLocation) (message : String) {declares : Prop} :
    (skipStatement location message).DeclaresAt c declared declares :=
  ofStop rfl rfl fun _ => Int.le_refl _

theorem withBlock (kind : BlockKind) {declares : Prop} (hx : x.DeclaresAt c declared declares) :
    (withBlock kind x).DeclaresAt c declared declares :=
  ⟨hx.scope, hx.tables, hx.others, hx.lower, hx.own⟩

theorem generateGlobalDeclaration (type name : String) (location : SourceLocation) :
    (generateGlobalDeclaration type name location).DeclaresAt c declared True := by
  by_cases hvalid : (c.ast.convertFullType type c.currentScopeId).Valid
  · rcases hadd : c.ast.addVariable .globalId name c.currentScopeId
        (c.ast.convertFullType type c.currentScopeId)
        (c.bytecode.appendData (c.ast.sizeOfType (c.ast.convertFullType type c.currentScopeId))).1
      with _ | ast
    · refine ofStop ?_ ?_ ?_ <;>
        simp [TinCompiler.generateGlobalDeclaration, getContext, hvalid, hadd,
          TinCompiler.failStatement, report, abandon]
    · have hx : TinCompiler.generateGlobalDeclaration type name location c = (.next,
          { c with
            bytecode := (c.bytecode.appendData
              (c.ast.sizeOfType (c.ast.convertFullType type c.currentScopeId))).2
            ast := ast }) := by
        simp [TinCompiler.generateGlobalDeclaration, getContext, hvalid, hadd]
      refine declare ?_ ?_ ?_ hadd ?_ hx
      · rfl
      · rfl
      · exact Int.le_refl _
      · exact fun hkind => by cases hkind
  · refine ofStop ?_ ?_ ?_ <;>
      simp [TinCompiler.generateGlobalDeclaration, getContext, hvalid, TinCompiler.failStatement,
        report, abandon]

theorem generateConstDeclaration (type name : String) (location : SourceLocation)
    (statement : ASTStatement) :
    (generateConstDeclaration type name location statement).DeclaresAt c declared True := by
  by_cases hvalid : (c.ast.convertFullType type c.currentScopeId).Valid
  · rcases hadd : c.ast.addVariable .constId name c.currentScopeId
        (c.ast.convertFullType type c.currentScopeId) 0 statement with _ | ast
    · refine ofStop ?_ ?_ ?_ <;>
        simp [TinCompiler.generateConstDeclaration, getContext, hvalid, hadd,
          TinCompiler.skipStatement, report, abandon]
    · have hx : TinCompiler.generateConstDeclaration type name location statement c =
          (.next, { c with ast := ast }) := by
        simp [TinCompiler.generateConstDeclaration, getContext, hvalid, hadd]
      refine declare ?_ ?_ ?_ hadd ?_ hx
      · rfl
      · rfl
      · exact Int.le_refl _
      · exact fun hkind => by cases hkind
  · refine ofStop ?_ ?_ ?_ <;>
      simp [TinCompiler.generateConstDeclaration, getContext, hvalid, TinCompiler.failStatement,
        report, abandon]

theorem framed_generateInitializer (e : Option ASTExpression) (location : SourceLocation)
    (type : TypeId) (offset : ℤ) : (generateInitializer e location type offset).Framed := by
  have hfail : ∀ message, (TinCompiler.failStatement location message).Framed := fun _ =>
    (Framed.report _ _).bind fun _ => (Framed.abandon _).bind fun _ => .pure _
  unfold generateInitializer
  split
  · refine (Framed.generateExpression _).bind fun etype => ?_
    split
    · refine (Framed.performCast _ _).bind fun cast => ?_
      split
      · exact (Framed.popValue _ _ _).bind fun _ => .pure _
      · exact Framed.getContext.bind fun _ => hfail _
    · exact (Framed.abandon _).bind fun _ => .pure _
  · exact Framed.getContext.bind fun _ => (Framed.emit _).bind fun _ => .pure _

/-- A variable gets the bytes below the frame offset. -/
theorem generateVarDeclaration (type name : String) (e : Option ASTExpression)
    (location : SourceLocation) :
    (generateVarDeclaration type name e location).DeclaresAt c declared True := by
  by_cases hvalid : (c.ast.convertFullType type c.currentScopeId).Valid
  · have hsize : c.ast.sizeOfType (c.ast.convertFullType type c.currentScopeId) ≤
        alignUp (c.ast.sizeOfType (c.ast.convertFullType type c.currentScopeId)) 8 :=
      le_alignUp _ (by decide)
    rcases hadd : c.ast.addVariable .localId name c.currentScopeId
        (c.ast.convertFullType type c.currentScopeId) (c.currentFrameOffset -
          alignUp (c.ast.sizeOfType (c.ast.convertFullType type c.currentScopeId)) 8)
      with _ | ast
    · have hlower : c.currentFrameOffset -
          alignUp (c.ast.sizeOfType (c.ast.convertFullType type c.currentScopeId)) 8 ≤
            c.currentFrameOffset := Int.sub_le_self _ (Int.natCast_nonneg _)
      have hframe : (TinCompiler.generateVarDeclaration type name e location c).2.currentFrameOffset =
          c.currentFrameOffset -
            alignUp (c.ast.sizeOfType (c.ast.convertFullType type c.currentScopeId)) 8 := by
        simp [TinCompiler.generateVarDeclaration, getContext, hvalid, hadd, emit,
          TinCompiler.skipStatement, report, abandon]
      refine ofStop ?_ ?_ fun _ => (Int.le_of_eq hframe).trans hlower <;>
        simp [TinCompiler.generateVarDeclaration, getContext, hvalid, hadd, emit,
          TinCompiler.skipStatement, report, abandon]
    · have hx : TinCompiler.generateVarDeclaration type name e location c =
          generateInitializer e location (c.ast.convertFullType type c.currentScopeId)
            (c.currentFrameOffset -
              alignUp (c.ast.sizeOfType (c.ast.convertFullType type c.currentScopeId)) 8)
            { c with
              piece := c.piece.emitIncr .sp
                (-(alignUp (c.ast.sizeOfType (c.ast.convertFullType type c.currentScopeId)) 8 : ℤ))
              currentFrameOffset := c.currentFrameOffset -
                alignUp (c.ast.sizeOfType (c.ast.convertFullType type c.currentScopeId)) 8
              ast := ast } := by
        simp [TinCompiler.generateVarDeclaration, getContext, hvalid, hadd, emit,
          GeneratorContext.withPiece]
      have hframed := framed_generateInitializer e location
        (c.ast.convertFullType type c.currentScopeId) (c.currentFrameOffset -
          alignUp (c.ast.sizeOfType (c.ast.convertFullType type c.currentScopeId)) 8)
        { c with
          piece := c.piece.emitIncr .sp
            (-(alignUp (c.ast.sizeOfType (c.ast.convertFullType type c.currentScopeId)) 8 : ℤ))
          currentFrameOffset := c.currentFrameOffset -
            alignUp (c.ast.sizeOfType (c.ast.convertFullType type c.currentScopeId)) 8
          ast := ast }
      rw [← hx] at hframed
      have hoffset := hframed.currentFrameOffset
      dsimp only at hoffset
      refine declare hframed.currentScopeId hframed.ast ?_ hadd (fun _ => ?_) rfl
      · rw [hoffset]
        omega
      · rw [hoffset]
        omega
  · refine ofStop ?_ ?_ ?_ <;>
      simp [TinCompiler.generateVarDeclaration, getContext, hvalid, TinCompiler.failStatement,
        report, abandon]

theorem framed_releaseTo (frame : ℤ) : (releaseTo frame).Framed := by
  refine Framed.getContext.bind fun c => ?_
  split
  · exact .emit _
  · exact .pure _

theorem generateContinue (frame : ℤ) (location : SourceLocation) {declares : Prop} :
    (generateContinue frame location).DeclaresAt c declared declares := by
  cases hloop : c.loopScopes.getLast? with
  | none =>
      refine ofStop ?_ ?_ ?_ <;>
        simp [TinCompiler.generateContinue, getContext, hloop, TinCompiler.failStatement, report,
          abandon]
  | some loop =>
      have hrelease := framed_releaseTo loop.frameOffset c
      refine ofStop ?_ ?_ ?_ <;>
        simp [TinCompiler.generateContinue, getContext, hloop, emit, setFrameOffset,
          hrelease.currentScopeId, hrelease.ast]

theorem generateBreak (frame : ℤ) (location : SourceLocation) {declares : Prop} :
    (generateBreak frame location).DeclaresAt c declared declares := by
  cases hloop : c.loopScopes.getLast? with
  | none =>
      refine ofStop ?_ ?_ ?_ <;>
        simp [TinCompiler.generateBreak, getContext, hloop, TinCompiler.failStatement, report,
          abandon]
  | some loop =>
      have hrelease := framed_releaseTo loop.frameOffset c
      refine ofStop ?_ ?_ ?_ <;>
        simp [TinCompiler.generateBreak, getContext, hloop, setFrameOffset,
          hrelease.currentScopeId, hrelease.ast]

theorem framed_generateResult (e : ASTExpression) (location : SourceLocation) :
    (generateResult e location).Framed := by
  have hfail : ∀ message, (TinCompiler.failStatement location message).Framed := fun _ =>
    (Framed.report _ _).bind fun _ => (Framed.abandon _).bind fun _ => .pure _
  refine Framed.getContext.bind fun c => ?_
  split
  · refine (Framed.generateExpression e).bind fun type => (Framed.performCast _ _).bind fun cast => ?_
    split
    · exact (Framed.popValue _ _ _).bind fun _ => .pure _
    · exact hfail _
  · exact hfail _

/-- Behind the value of a `return`. -/
theorem finishReturn (frame : ℤ) (result : StatementResult) (c : GeneratorContext) :
    (if result = .next then do
        releaseTo 0
        emit fun piece => piece.emitRet
        setFrameOffset frame
        return .stop
      else return result : GeneratorM StatementResult).DeclaresAt c declared False := by
  split
  · have hrelease := framed_releaseTo 0 c
    refine ofStop ?_ ?_ ?_ <;>
      simp [emit, setFrameOffset, hrelease.currentScopeId, hrelease.ast]
  · exact ofStop rfl rfl fun _ => Int.le_refl _

theorem generateReturn (frame : ℤ) (e : Option ASTExpression) (location : SourceLocation) :
    (generateReturn frame e location).DeclaresAt c declared False := by
  have hvalue : ∀ value : GeneratorM StatementResult, value.SparesAt c [] →
      (value >>= fun result => if result = .next then do
        releaseTo 0
        emit fun piece => piece.emitRet
        setFrameOffset frame
        return .stop
      else return result).DeclaresAt c declared False := by
    intro value hvalue
    have hfinish := @finishReturn declared frame (value c).1 (value c).2
    refine ⟨hfinish.scope.trans hvalue.scope, hvalue.tables.trans hfinish.tables,
      fun i hi _ => ?_, fun hne => (hfinish.lower hne).trans hvalue.lower, fun _ h => h.elim⟩
    exact (hfinish.others i hi fun h => h.elim).trans (hvalue.others i List.not_mem_nil)
  cases e with
  | none => exact hvalue _ (.ofFramed (.pure _))
  | some e => exact hvalue _ (.withBlock _ (.ofFramed (framed_generateResult e location)))

end GeneratorM.DeclaresAt

/-! ## Bodies -/

/-- The statements of a body add identifiers inside of them, and in the scope of the body if one of
them `declares`. -/
structure GeneratorM.StatementsAt (x : GeneratorM Bool) (c : GeneratorContext)
    (declared : List ScopeId) (declares : Prop) : Prop where
  scope : (x c).2.currentScopeId = c.currentScopeId
  tables : SameTables c.ast (x c).2.ast
  others : ∀ i, i ∉ declared → (declares → i ≠ c.currentScopeId) →
    (x c).2.ast.scopes i = c.ast.scopes i
  lower : (x c).1 = false → (x c).2.currentFrameOffset ≤ c.currentFrameOffset

namespace GeneratorM.SparesAt

mutual

theorem generateBody : ∀ (body : ASTBody) (c : GeneratorContext),
    (generateBody body).SparesAt c body.declaring
  | .mk scopeId statements, c => by
      have hstatements := generateStatements c.currentFrameOffset statements
        { c with currentScopeId := scopeId }
      have hclose := InBodies.closeBody c.currentFrameOffset c.currentScopeId
        (TinCompiler.generateStatements c.currentFrameOffset statements
          { c with currentScopeId := scopeId }).1
        (TinCompiler.generateStatements c.currentFrameOffset statements
          { c with currentScopeId := scopeId }).2
      have hast : (TinCompiler.generateBody (.mk scopeId statements) c).2.ast =
          (TinCompiler.generateStatements c.currentFrameOffset statements
            { c with currentScopeId := scopeId }).2.ast := by
        unfold TinCompiler.generateBody
        exact hclose.2
      refine ⟨?_, ?_, fun i hi => ?_, ?_⟩
      · unfold TinCompiler.generateBody
        exact hclose.1
      · rw [hast]
        exact hstatements.tables
      · change i ∉ (if statements.any ASTStatement.declares then [scopeId] else []) ++
          declaringOfStatements statements at hi
        rw [List.mem_append, not_or] at hi
        rw [hast]
        refine hstatements.others i hi.2 fun hdeclares heq => hi.1 ?_
        rw [if_pos hdeclares]
        exact List.mem_singleton.mpr heq
      · unfold TinCompiler.generateBody
        change ((if (TinCompiler.generateStatements c.currentFrameOffset statements
          { c with currentScopeId := scopeId }).1 = true then _ else _ : GeneratorM Bool) _).2.currentFrameOffset ≤ _
        cases hcompleted : (TinCompiler.generateStatements c.currentFrameOffset statements
            { c with currentScopeId := scopeId }).1 with
        | true => exact Int.le_refl _
        | false => exact hstatements.lower hcompleted

theorem generateStatements (frame : ℤ) : ∀ (statements : List ASTStatement) (c : GeneratorContext),
    (generateStatements frame statements).StatementsAt c (declaringOfStatements statements)
      (statements.any ASTStatement.declares = true)
  | [], c => ⟨rfl, .refl _, fun _ _ _ => rfl, fun h => by cases h⟩
  | statement :: rest, c => by
      have hstatement := generateStatement frame statement (TinCompiler.recordStart c).2
      have hrest := generateStatements frame rest
        (TinCompiler.generateStatement frame statement (TinCompiler.recordStart c).2).2
      have hothers : ∀ i, i ∉ declaringOfStatements (statement :: rest) →
          ((statement :: rest).any ASTStatement.declares = true → i ≠ c.currentScopeId) →
          (TinCompiler.generateStatement frame statement (TinCompiler.recordStart c).2).2.ast.scopes i =
            c.ast.scopes i := by
        intro i hi hne
        change i ∉ declaringOfStatement statement ++ _ at hi
        rw [List.mem_append, not_or] at hi
        refine hstatement.others i hi.1 fun hdeclares => hne ?_
        rw [List.any_cons, hdeclares, Bool.true_or]
      unfold TinCompiler.generateStatements
      cases hgoes : (TinCompiler.generateStatement frame statement (TinCompiler.recordStart c).2).1 with
      | next =>
          have hlower := hstatement.lower (by simp [hgoes])
          refine ⟨?_, ?_, fun i hi hne => ?_, fun hfalse => ?_⟩ <;>
            simp only [bind_apply, hgoes] at *
          · exact hrest.scope.trans hstatement.scope
          · exact hstatement.tables.trans hrest.tables
          · refine (hrest.others i (fun hmem => hi (List.mem_append_right _ hmem)) fun hdeclares => ?_).trans
              (hothers i hi hne)
            rw [hstatement.scope]
            exact hne (by rw [List.any_cons, hdeclares, Bool.or_true])
          · exact (hrest.lower hfalse).trans hlower
      | stop =>
          refine ⟨?_, ?_, fun i hi hne => ?_, fun hfalse => ?_⟩ <;>
            simp only [bind_apply, hgoes] at *
          · exact hstatement.scope
          · exact hstatement.tables
          · exact hothers i hi hne
          · cases hfalse
      | failed =>
          have hlower := hstatement.lower (by simp [hgoes])
          refine ⟨?_, ?_, fun i hi hne => ?_, fun _ => ?_⟩ <;>
            simp only [bind_apply, hgoes] at *
          · exact hstatement.scope
          · exact hstatement.tables
          · exact hothers i hi hne
          · exact hlower

theorem generateStatement (frame : ℤ) : ∀ (statement : ASTStatement) (c : GeneratorContext),
    (generateStatement frame statement).DeclaresAt c (declaringOfStatement statement)
      (statement.declares = true)
  | .expression e location, c => by
      unfold TinCompiler.generateStatement
      refine .ofSpares (.withBlock _ (.ofFramed ?_)) (by simp [ASTStatement.declares])
      exact (Framed.generateExpression e).bind fun _ => (Framed.popValue _ _ _).bind fun _ => .pure _
  | .globalDeclaration type name _ location, c => by
      unfold TinCompiler.generateStatement
      simpa [ASTStatement.declares] using DeclaresAt.generateGlobalDeclaration type name location
  | .constDeclaration type name e location, c => by
      unfold TinCompiler.generateStatement
      simpa [ASTStatement.declares] using DeclaresAt.generateConstDeclaration type name location _
  | .varDeclaration type name e location, c => by
      unfold TinCompiler.generateStatement
      simpa [ASTStatement.declares] using
        DeclaresAt.withBlock _ (DeclaresAt.generateVarDeclaration type name e location)
  | .while condition body _, c => by
      unfold TinCompiler.generateStatement
      refine .ofSpares (front pushLoop (front (generateCondition _ _) ?_))
        (by simp [ASTStatement.declares])
      split
      · exact front generateJz (back (generateBody body _) (back (closeLoop _ _) (ofFramed (.pure _))))
      · exact ofFramed (.pure _)
  | .ifElse condition body none _, c => by
      unfold TinCompiler.generateStatement
      refine .ofSpares (front (generateCondition _ _) ?_) (by simp [ASTStatement.declares])
      split
      · exact front generateJz (back (generateBody body _) (back (ofFramed (.emit _))
          (ofFramed (.pure _))))
      · exact ofFramed (.pure _)
  | .ifElse condition body (some elseBody) _, c => by
      unfold TinCompiler.generateStatement
      refine .ofSpares (front (generateCondition _ _) ?_) (by simp [ASTStatement.declares])
      split
      · exact front generateJz (bind (generateBody body _) (front generateJmp
          (front (ofFramed (.emit _)) (back (generateBody elseBody _) (back (ofFramed (.emit _))
            (ofFramed (.pure _)))))))
      · exact ofFramed (.pure _)
  | .break location, c => by
      unfold TinCompiler.generateStatement
      exact DeclaresAt.generateBreak frame location
  | .continue location, c => by
      unfold TinCompiler.generateStatement
      exact DeclaresAt.generateContinue frame location
  | .return e location, c => by
      unfold TinCompiler.generateStatement
      simpa [ASTStatement.declares] using DeclaresAt.generateReturn frame e location

end

end GeneratorM.SparesAt

/-! ## Ranges in the frame -/

/-- Two identifiers have no byte in common. -/
def Identifier.Apart (size : TypeId → ℕ) (identifier other : Identifier) : Prop :=
  identifier.offset + size identifier.type ≤ other.offset ∨
    other.offset + size other.type ≤ identifier.offset

/-- The identifier is that of a parameter, which lies behind the saved registers. -/
def Identifier.IsParameter (parameters : List Parameter) (name : String) (identifier : Identifier) :
    Prop :=
  16 ≤ identifier.offset ∧ ∃ param ∈ parameters, param.name = name ∧
    param.typeId = identifier.type ∧ param.offset = identifier.offset

/-- The variables of the scopes `live` lie from the frame offset up to `bottom`, except for the
parameters; no two of them have a byte in common. -/
structure Stored (size : TypeId → ℕ) (parameters : List Parameter)
    (identifiers : ScopeId → String → Option Identifier) (live : List ScopeId) (frame bottom : ℤ) :
    Prop where
  top : frame ≤ bottom
  nonpositive : bottom ≤ 0
  inside : ∀ i ∈ live, ∀ (name : String) (identifier : Identifier),
    identifiers i name = some identifier → identifier.kind = .localId →
      (frame ≤ identifier.offset ∧ identifier.offset + size identifier.type ≤ bottom) ∨
        identifier.IsParameter parameters name
  apart : ∀ i ∈ live, ∀ j ∈ live, ∀ (name other : String) (identifier identifier' : Identifier),
    identifiers i name = some identifier → identifier.kind = .localId →
    identifiers j other = some identifier' → identifier'.kind = .localId →
    (i ≠ j ∨ name ≠ other) → identifier.Apart size identifier'

namespace Stored

variable {size : TypeId → ℕ} {parameters : List Parameter}
  {identifiers identifiers' : ScopeId → String → Option Identifier} {live : List ScopeId}
  {frame frame' bottom : ℤ}

/-- The same identifiers above a lower frame offset. -/
theorem congr (h : Stored size parameters identifiers live frame bottom)
    (hsame : ∀ i ∈ live, identifiers' i = identifiers i) (hlower : frame' ≤ frame) :
    Stored size parameters identifiers' live frame' bottom where
  top := hlower.trans h.top
  nonpositive := h.nonpositive
  inside := fun i hi name identifier hfound hkind => by
    rw [hsame i hi] at hfound
    exact (h.inside i hi name identifier hfound hkind).imp_left fun hrange =>
      ⟨hlower.trans hrange.1, hrange.2⟩
  apart := fun i hi j hj name other identifier identifier' hfound hkind hfound' hkind' hne => by
    rw [hsame i hi] at hfound
    rw [hsame j hj] at hfound'
    exact h.apart i hi j hj name other identifier identifier' hfound hkind hfound' hkind' hne

/-- A scope is opened that has no variables yet, or was open before. -/
theorem cons (h : Stored size parameters identifiers live frame bottom) {i : ScopeId}
    (hnone : i ∉ live → ∀ name identifier, identifiers i name = some identifier →
      identifier.kind ≠ .localId) : Stored size parameters identifiers (i :: live) frame bottom := by
  have hmem : ∀ j ∈ i :: live, ∀ name identifier, identifiers j name = some identifier →
      identifier.kind = .localId → j ∈ live := by
    intro j hj name identifier hfound hkind
    by_contra hnot
    obtain rfl := (List.mem_cons.mp hj).resolve_right hnot
    exact hnone hnot name identifier hfound hkind
  refine ⟨h.top, h.nonpositive, fun j hj name identifier hfound hkind => ?_, ?_⟩
  · exact h.inside j (hmem j hj name identifier hfound hkind) name identifier hfound hkind
  · intro j hj k hk name other identifier identifier' hfound hkind hfound' hkind' hne
    exact h.apart j (hmem j hj name identifier hfound hkind) k
      (hmem k hk other identifier' hfound' hkind') name other identifier identifier' hfound hkind
      hfound' hkind' hne

/-- A new variable takes bytes below the frame offset. -/
theorem add (h : Stored size parameters identifiers live frame bottom) {s : ScopeId} {name : String}
    {identifier : Identifier} (hlower : frame' ≤ frame)
    (hothers : ∀ i ∈ live, i ≠ s → identifiers' i = identifiers i)
    (hown : identifiers' s = Function.update (identifiers s) name (some identifier))
    (hrange : identifier.kind = .localId →
      frame' ≤ identifier.offset ∧ identifier.offset + size identifier.type ≤ frame) :
    Stored size parameters identifiers' live frame' bottom := by
  -- what is found is the new variable or was there before
  have hcases : ∀ i ∈ live, ∀ other found, identifiers' i other = some found →
      (i = s ∧ other = name ∧ found = identifier) ∨ identifiers i other = some found := by
    intro i hi other found hfound
    by_cases heq : i = s
    · subst heq
      rw [hown] at hfound
      by_cases hname : other = name
      · subst hname
        rw [Function.update_self] at hfound
        exact .inl ⟨rfl, rfl, (Option.some.inj hfound).symm⟩
      · rw [Function.update_of_ne hname] at hfound
        exact .inr hfound
    · rw [hothers i hi heq] at hfound
      exact .inr hfound
  -- older variables are above the old frame offset
  have hold : ∀ i ∈ live, ∀ other found, identifiers i other = some found →
      found.kind = .localId → identifier.kind = .localId → identifier.Apart size found := by
    intro i hi other found hfound hkind hnew
    have hnewRange := hrange hnew
    refine .inl ?_
    rcases h.inside i hi other found hfound hkind with hrange | hparam
    · exact hnewRange.2.trans hrange.1
    · have htop := h.top
      have hbottom := h.nonpositive
      have habove := hparam.1
      omega
  refine ⟨hlower.trans h.top, h.nonpositive, fun i hi other found hfound hkind => ?_, ?_⟩
  · rcases hcases i hi other found hfound with ⟨-, -, rfl⟩ | hfound
    · have hnewRange := hrange hkind
      exact .inl ⟨hnewRange.1, hnewRange.2.trans h.top⟩
    · exact (h.inside i hi other found hfound hkind).imp_left fun hrange =>
        ⟨hlower.trans hrange.1, hrange.2⟩
  · intro i hi j hj first second found found' hfound hkind hfound' hkind' hne
    rcases hcases i hi first found hfound with ⟨rfl, rfl, rfl⟩ | hfound
    · rcases hcases j hj second found' hfound' with ⟨rfl, rfl, rfl⟩ | hfound'
      · exact absurd hne (by simp)
      · exact hold j hj second found' hfound' hkind' hkind
    · rcases hcases j hj second found' hfound' with ⟨rfl, rfl, rfl⟩ | hfound'
      · exact (hold i hi first found hfound hkind hkind').symm
      · exact h.apart i hi j hj first second found found' hfound hkind hfound' hkind' hne

end Stored

/-! ## Open scopes -/

mutual

/-- A body is in an open scope or in a child of one. -/
def ASTBody.Apart (parent : ScopeId → ScopeId) (live : List ScopeId) : ASTBody → Prop
  | .mk scopeId statements =>
      (scopeId ∈ live ∨ parent scopeId ∈ live) ∧ ApartStatements parent (scopeId :: live) statements

/-- Bodies that declare something have scopes of their own: they are not open, and no later body is
in them. -/
def ApartStatements (parent : ScopeId → ScopeId) (live : List ScopeId) : List ASTStatement → Prop
  | [] => True
  | statement :: rest =>
      (∀ i ∈ declaringOfStatement statement, i ∉ live ∧ i ∉ scopesOfStatements rest) ∧
        ApartStatement parent live statement ∧ ApartStatements parent live rest

def ApartStatement (parent : ScopeId → ScopeId) (live : List ScopeId) : ASTStatement → Prop
  | .while _ body _ => body.Apart parent live
  | .ifElse _ body none _ => body.Apart parent live
  | .ifElse _ body (some elseBody) _ =>
      (∀ i ∈ body.declaring, i ∉ elseBody.scopes) ∧ body.Apart parent live ∧
        elseBody.Apart parent live
  | _ => True

end

theorem SameTables.sizeOfType {ast ast' : AST} (h : SameTables ast ast') :
    ast'.sizeOfType = ast.sizeOfType := by
  funext type
  unfold AST.sizeOfType AST.getType
  rw [h.typeInfos]

/-- No variables in a scope. -/
def AST.NoLocals (ast : AST) (i : ScopeId) : Prop :=
  ∀ name identifier, (ast.scopes i).identifiers name = some identifier → identifier.kind ≠ .localId

/-- The state in front of `statements`: the open scopes hold what is live, and the scopes that are
still to be opened hold nothing. -/
structure Open (ast : AST) (bodies : Set ScopeId) (parameters : List Parameter) (bottom : ℤ)
    (c : GeneratorContext) (live : List ScopeId) (statements : List ASTStatement) : Prop where
  tables : SameTables ast c.ast
  stored : Stored ast.sizeOfType parameters (fun i => (c.ast.scopes i).identifiers) live
    c.currentFrameOffset bottom
  current : c.currentScopeId ∈ live
  members : ∀ i ∈ live, i ∈ bodies
  inner : ∀ i ∈ scopesOfStatements statements, i ∈ bodies
  parents : ∀ i ∈ live, (ast.scopes i).parent ∈ live ∨ (ast.scopes i).parent ∉ bodies
  fresh : ∀ i ∈ scopesOfStatements statements, i ∉ live → c.ast.NoLocals i
  apart : ApartStatements (fun i => (ast.scopes i).parent) live statements

namespace Open

variable {ast : AST} {bodies : Set ScopeId} {parameters : List Parameter} {bottom : ℤ}
  {c : GeneratorContext} {live : List ScopeId} {statement : ASTStatement}
  {statements rest : List ASTStatement}

/-- `recordStart` keeps the tables. -/
theorem recordStart (h : Open ast bodies parameters bottom c live statements) :
    Open ast bodies parameters bottom (TinCompiler.recordStart c).2 live statements :=
  ⟨h.tables, h.stored, h.current, h.members, h.inner, h.parents, h.fresh, h.apart⟩

/-- Behind a statement. -/
theorem later (h : Open ast bodies parameters bottom c live (statement :: rest)) {frame : ℤ}
    (hnext : (generateStatement frame statement c).1 = .next) :
    Open ast bodies parameters bottom (generateStatement frame statement c).2 live rest := by
  have hstatement := SparesAt.generateStatement frame statement c
  obtain ⟨hown, -, hrest⟩ := h.apart
  have hlower := hstatement.lower (by simp [hnext])
  have hothers : ∀ i ∈ live, (statement.declares = true → i ≠ c.currentScopeId) →
      (generateStatement frame statement c).2.ast.scopes i = c.ast.scopes i :=
    fun i hi hne => hstatement.others i (fun hmem => (hown i hmem).1 hi) hne
  refine ⟨h.tables.trans hstatement.tables, ?_, hstatement.scope.symm ▸ h.current, h.members,
    fun i hi => h.inner i (List.mem_append_right _ hi), h.parents, fun i hi hnot => ?_, hrest⟩
  · cases hdeclares : statement.declares with
    | false =>
        refine h.stored.congr (fun i hi => ?_) hlower
        rw [hothers i hi fun htrue => by simp [hdeclares] at htrue]
    | true =>
        rcases hstatement.own hnext hdeclares with hsame | ⟨name, identifier, hupdate, hrange⟩
        · refine h.stored.congr (fun i hi => ?_) hlower
          by_cases heq : i = c.currentScopeId
          · rw [heq]
            exact hsame
          · rw [hothers i hi fun _ => heq]
        · refine h.stored.add hlower (fun i hi hne => ?_) hupdate fun hkind => ?_
          · rw [hothers i hi fun _ => hne]
          · have hsizes := h.tables.sizeOfType
            rw [← hsizes]
            exact hrange hkind
  · have hsame : (generateStatement frame statement c).2.ast.scopes i =
        c.ast.scopes i := by
      refine hstatement.others i (fun hmem => (hown i hmem).2 hi) fun _ heq => hnot ?_
      rw [heq]
      exact h.current
    unfold AST.NoLocals
    rw [hsame]
    exact h.fresh i (List.mem_append_right _ hi) hnot

/-- In front of a body inside of the statement: what has been declared is behind it in the code. -/
theorem spares_of_startsBody {c c' : GeneratorContext} {body : ASTBody}
    (h : StartsBody c statement body c') {parent : ScopeId → ScopeId}
    (hapart : ApartStatement parent live statement) :
    ∃ declared : List ScopeId, (∀ i ∈ declared, i ∈ declaringOfStatement statement ∧ i ∉ body.scopes) ∧
      SameTables c.ast c'.ast ∧ (∀ i, i ∉ declared → c'.ast.scopes i = c.ast.scopes i) ∧
      c'.currentFrameOffset ≤ c.currentFrameOffset ∧ body.Apart parent live ∧
      (∀ i ∈ body.scopes, i ∈ scopesOfStatement statement) := by
  cases h with
  | @loop condition _ _ _ =>
      have hcondition : (generateCondition condition "while").SparesAt (pushLoop c).2 [] :=
        .generateCondition condition "while"
      exact ⟨[], nofun, hcondition.tables, hcondition.others, hcondition.lower, hapart,
        fun _ hi => hi⟩
  | @thenBody condition _ elseBody _ _ =>
      have hcondition : (generateCondition condition "if").SparesAt c [] :=
        .generateCondition condition "if"
      refine ⟨[], nofun, hcondition.tables, hcondition.others, hcondition.lower, ?_, fun i hi => ?_⟩
      · cases elseBody with
        | none => exact hapart
        | some elseBody => exact hapart.2.1
      · cases elseBody with
        | none => exact hi
        | some elseBody => exact List.mem_append_left _ hi
  | @elseBody condition first _ _ _ =>
      have hcondition : (generateCondition condition "if").SparesAt c [] :=
        .generateCondition condition "if"
      have hbody : (generateBody first).SparesAt (generateJz (generateCondition condition "if" c).2).2
        first.declaring := .generateBody first _
      exact ⟨first.declaring, fun i hi => ⟨List.mem_append_left _ hi, hapart.1 i hi⟩,
        hcondition.tables.trans hbody.tables,
        fun i hi => (hbody.others i hi).trans (hcondition.others i List.not_mem_nil),
        hbody.lower.trans hcondition.lower, hapart.2.2, fun i hi => List.mem_append_right _ hi⟩

/-- In a body inside of a statement. -/
theorem inside (h : Open ast bodies parameters bottom c live (statement :: rest)) {body : ASTBody}
    {c' : GeneratorContext} (hbody : StartsBody c statement body c') :
    Open ast bodies parameters bottom { c' with currentScopeId := body.scopeId } (body.scopeId :: live)
      body.statements := by
  obtain ⟨hown, hapart, -⟩ := h.apart
  obtain ⟨declared, hdeclared, htables, hothers, hlower, hbodyApart, hscopes⟩ :=
    spares_of_startsBody hbody hapart
  obtain ⟨scopeId, statements⟩ := body
  have hmem : ∀ i ∈ (ASTBody.mk scopeId statements).scopes, i ∈ scopesOfStatements (statement :: rest) :=
    fun i hi => List.mem_append_left _ (hscopes i hi)
  have hnone : ∀ i ∈ (ASTBody.mk scopeId statements).scopes, i ∉ live → c'.ast.NoLocals i := by
    intro i hi hnot
    unfold AST.NoLocals
    rw [hothers i fun hi' => (hdeclared i hi').2 hi]
    exact h.fresh i (hmem i hi) hnot
  have hstored : Stored ast.sizeOfType parameters (fun i => (c'.ast.scopes i).identifiers) live
      c'.currentFrameOffset bottom := by
    refine h.stored.congr (fun i hi => ?_) hlower
    rw [hothers i fun hi' => (hown i (hdeclared i hi').1).1 hi]
  have hself := List.mem_cons_self (a := scopeId) (l := scopesOfStatements statements)
  refine ⟨h.tables.trans htables, hstored.cons (hnone scopeId hself), List.mem_cons_self ..,
    fun i hi => ?_, fun i hi => h.inner i (hmem i (List.mem_cons_of_mem _ hi)), fun i hi => ?_,
    fun i hi hnot => ?_, hbodyApart.2⟩
  · rcases List.mem_cons.mp hi with rfl | hi
    · exact h.inner _ (hmem _ hself)
    · exact h.members i hi
  · rcases List.mem_cons.mp hi with rfl | hi
    · rcases hbodyApart.1 with hlive | hparent
      · exact (h.parents _ hlive).imp_left (List.mem_cons_of_mem _)
      · exact .inl (List.mem_cons_of_mem _ hparent)
    · exact (h.parents i hi).imp_left (List.mem_cons_of_mem _)
  · exact hnone i (List.mem_cons_of_mem _ hi) fun hlive => hnot (List.mem_cons_of_mem _ hlive)

end Open

/-- Wherever the generator comes, the open scopes hold what is live there. -/
theorem ComesTo.open {ast : AST} {bodies : Set ScopeId} {parameters : List Parameter}
    {bottom frame : ℤ} {statements : List ASTStatement} {c c' : GeneratorContext} {found : ASTStatement}
    (h : ComesTo frame statements c found c') : ∀ {live : List ScopeId},
    Open ast bodies parameters bottom c live statements →
      ∃ live' rest, Open ast bodies parameters bottom c' live' (found :: rest) := by
  induction h with
  | here frame statement rest c => exact fun hopen => ⟨_, rest, hopen.recordStart⟩
  | later hnext _ ih => exact fun hopen => ih (hopen.recordStart.later hnext)
  | inside hbody _ ih => exact fun hopen => ih (hopen.recordStart.inside hbody)

/-! ## What the search finds -/

/-- A search stays among scopes that lead to each other only. -/
theorem AST.exists_mem_of_searchFrom {α : Type} {ast : AST} {select : ScopeInfo → Option α}
    {scopes : Set ScopeId} (hshared : ∀ i ∈ scopes, ∀ j ∈ (ast.scopes i).sharedScopes, j ∈ scopes)
    (hparent : ∀ i ∈ scopes, (ast.scopes i).parent ∈ scopes) {found : α} :
    ∀ {fuel : ℕ} {iterator : ScopeIterator}, (∀ i ∈ iterator.searchScopes, i ∈ scopes) →
      ast.searchFrom select fuel iterator = some found →
      ∃ i ∈ scopes, select (ast.scopes i) = some found := by
  -- queueing a scope of the set
  have hadd : ∀ (iterator : ScopeIterator) (i : ScopeId), i ∈ scopes →
      (∀ j ∈ iterator.searchScopes, j ∈ scopes) →
      ∀ j ∈ (iterator.add i).searchScopes, j ∈ scopes := by
    intro iterator i hi hall j hj
    unfold ScopeIterator.add at hj
    split at hj
    · exact hall j hj
    · rcases List.mem_append.mp hj with hj | hj
      · exact hall j hj
      · rwa [List.mem_singleton.mp hj]
  have hfold : ∀ (l : List ScopeId) (iterator : ScopeIterator), (∀ j ∈ l, j ∈ scopes) →
      (∀ j ∈ iterator.searchScopes, j ∈ scopes) →
      ∀ j ∈ (l.foldl ScopeIterator.add iterator).searchScopes, j ∈ scopes := by
    intro l
    induction l with
    | nil => exact fun _ _ hall => hall
    | cons i l ih =>
        intro iterator hl hall
        exact ih _ (fun j hj => hl j (List.mem_cons_of_mem _ hj))
          (hadd iterator i (hl i (List.mem_cons_self ..)) hall)
  intro fuel
  induction fuel with
  | zero => exact fun _ hfound => by cases hfound
  | succ fuel ih =>
      intro iterator hall hfound
      unfold searchFrom iterate at hfound
      cases hscope : iterator.searchScopes[iterator.searchIndex]? with
      | none => simp [hscope] at hfound
      | some scopeId =>
          have hmem := hall scopeId (List.mem_of_getElem? hscope)
          cases hselect : select (ast.scopes scopeId) with
          | some other =>
              simp only [hscope, hselect, Option.some.injEq] at hfound
              exact ⟨scopeId, hmem, hfound ▸ hselect⟩
          | none =>
              simp only [hscope, hselect] at hfound
              have hqueue := hfold (ast.scopes scopeId).sharedScopes
                { iterator with searchIndex := iterator.searchIndex + 1 } (hshared scopeId hmem) hall
              refine ih ?_ hfound
              split
              · exact hadd _ _ (hparent scopeId hmem) hqueue
              · exact hqueue

/-! ## Parameters -/

/-- A scope holds parameters only, which lie below `n`. -/
structure ParametersBelow (ast : AST) (root : ScopeId) (parameters : List Parameter) (n : ℕ) :
    Prop where
  known : ∀ (name : String) (identifier : Identifier),
    (ast.scopes root).identifiers name = some identifier → identifier.IsParameter parameters name
  below : ∀ (name : String) (identifier : Identifier),
    (ast.scopes root).identifiers name = some identifier →
      identifier.offset + ast.sizeOfType identifier.type ≤ n
  apart : ∀ (name other : String) (identifier identifier' : Identifier),
    (ast.scopes root).identifiers name = some identifier →
    (ast.scopes root).identifiers other = some identifier' →
    name ≠ other → identifier.Apart ast.sizeOfType identifier'

namespace ParametersBelow

variable {ast ast' : AST} {root : ScopeId} {parameters : List Parameter} {n m : ℕ}

theorem mono (h : ParametersBelow ast root parameters n) (hle : n ≤ m) :
    ParametersBelow ast root parameters m where
  known := h.known
  below := fun name identifier hfound =>
    (h.below name identifier hfound).trans (Int.ofNat_le.mpr hle)
  apart := h.apart

/-- A parameter that is not declared. -/
theorem concat (h : ParametersBelow ast root parameters n) (param : Parameter) :
    ParametersBelow ast root (parameters ++ [param]) n where
  known := fun name identifier hfound => by
    obtain ⟨habove, known, hmem, hparam⟩ := h.known name identifier hfound
    exact ⟨habove, known, List.mem_append_left _ hmem, hparam⟩
  below := h.below
  apart := h.apart

/-- One more parameter. -/
theorem addVariable (h : ParametersBelow ast root parameters n) (hbase : 16 ≤ n) {param : Parameter}
    (hoffset : param.offset = n)
    (hadd : ast.addVariable .localId param.name root param.typeId n = some ast') :
    ParametersBelow ast' root (parameters ++ [param]) (n + ast.sizeOfType param.typeId) := by
  have hsizes := (SameTables.addVariable hadd).sizeOfType
  have hidentifiers : (ast'.scopes root).identifiers =
      Function.update (ast.scopes root).identifiers param.name
        (some { kind := .localId, type := param.typeId, offset := n, statement := none }) := by
    rw [AST.scopes_addVariable hadd, Function.update_self]
  -- what is found is the new parameter or was there before
  have hcases : ∀ other found, (ast'.scopes root).identifiers other = some found →
      (other = param.name ∧
          found = { kind := .localId, type := param.typeId, offset := n, statement := none }) ∨
        (ast.scopes root).identifiers other = some found := by
    intro other found hfound
    rw [hidentifiers] at hfound
    by_cases hname : other = param.name
    · rw [hname, Function.update_self] at hfound
      exact .inl ⟨hname, (Option.some.inj hfound).symm⟩
    · rw [Function.update_of_ne hname] at hfound
      exact .inr hfound
  have hmono := (h.mono (Nat.le_add_right n (ast.sizeOfType param.typeId))).concat param
  refine ⟨fun other found hfound => ?_, fun other found hfound => ?_, ?_⟩
  · rcases hcases other found hfound with ⟨rfl, rfl⟩ | hfound
    · exact ⟨Int.ofNat_le.mpr hbase, param, List.mem_append_right _ (List.mem_singleton_self _), rfl,
        rfl, hoffset⟩
    · exact hmono.known other found hfound
  · rw [hsizes]
    rcases hcases other found hfound with ⟨-, rfl⟩ | hfound
    · exact Int.le_of_eq (Int.natCast_add ..).symm
    · exact hmono.below other found hfound
  · intro first second found found' hfound hfound' hne
    rw [hsizes]
    rcases hcases first found hfound with ⟨rfl, rfl⟩ | hfound
    · rcases hcases second found' hfound' with ⟨rfl, rfl⟩ | hfound'
      · exact absurd rfl hne
      · exact .inr (h.below second found' hfound')
    · rcases hcases second found' hfound' with ⟨rfl, rfl⟩ | hfound'
      · exact .inl (h.below first found hfound)
      · exact h.apart first second found found' hfound hfound' hne

/-- The loop of `CheckFunction`. -/
theorem checkParameters (scopeId : ScopeId) {function : ASTFunction} {body : ASTBody}
    (hbody : function.body = some body) :
    ∀ (unchecked : List Parameter) {parameters : List Parameter} {n : ℕ} {ast : AST}
      (reporter : Reporter), 16 ≤ n → ParametersBelow ast body.scopeId parameters n → ∃ m,
      ParametersBelow (checkParameters scopeId function unchecked n ast reporter).2.2.1 body.scopeId
        (parameters ++ (checkParameters scopeId function unchecked n ast reporter).1) m
  | [], parameters, n, _, _, _, h => ⟨n, by
      change ParametersBelow _ _ (parameters ++ []) _
      rwa [List.append_nil]⟩
  | param :: rest, parameters, n, ast, reporter, hbase, h => by
      have hpos : 0 < parameterAlignment (ast.sizeOfType (ast.convertFullType param.typeString scopeId)) := by
        unfold parameterAlignment
        split
        · decide
        · split
          · decide
          · split <;> decide
      have haligned := le_alignUp n hpos
      unfold TinCompiler.checkParameters
      dsimp only
      rw [List.append_cons]
      simp only [hbody]
      split
      · exact checkParameters scopeId hbody rest _ (by omega) ((h.mono (by omega)).concat _)
      · next hadd =>
          refine checkParameters scopeId hbody rest _ (by omega) ?_
          exact (h.mono haligned).addVariable (by omega) rfl hadd

end ParametersBelow

/-- Parameters are declared in the scope of the body. -/
theorem scopes_checkParameters (scopeId : ScopeId) (function : ASTFunction) {i : ScopeId}
    (hi : ∀ body, function.body = some body → i ≠ body.scopeId) :
    ∀ (parameters : List Parameter) (n : ℕ) (ast : AST) (reporter : Reporter),
      (checkParameters scopeId function parameters n ast reporter).2.2.1.scopes i = ast.scopes i
  | [], _, _, _ => rfl
  | param :: rest, n, ast, reporter => by
      unfold checkParameters
      dsimp only
      split
      · exact scopes_checkParameters scopeId function hi rest _ _ _
      · next body hbody =>
          split
          · exact scopes_checkParameters scopeId function hi rest _ _ _
          · next hadd =>
              refine (scopes_checkParameters scopeId function hi rest _ _ _).trans ?_
              rw [AST.scopes_addVariable hadd, Function.update_of_ne (hi body hbody)]

theorem scopes_checkGlobals {scopeId i : ScopeId} (hi : i ≠ scopeId) :
    ∀ (statements : List ASTStatement) (ast : AST) (bytecode : Bytecode) (reporter : Reporter),
      (checkGlobals scopeId statements ast bytecode reporter).1.scopes i = ast.scopes i
  | [], _, _, _ => rfl
  | .globalDeclaration typeString name _ location :: rest, ast, bytecode, reporter => by
      unfold checkGlobals
      dsimp only
      split
      · split
        · rfl
        · next hadd =>
            refine (scopes_checkGlobals hi rest _ _ _).trans ?_
            rw [AST.scopes_addVariable hadd, Function.update_of_ne hi]
      · rfl
  | .varDeclaration .. :: rest, _, _, _ => scopes_checkGlobals hi rest _ _ _
  | .constDeclaration .. :: rest, _, _, _ => scopes_checkGlobals hi rest _ _ _
  | .expression .. :: rest, _, _, _ => scopes_checkGlobals hi rest _ _ _
  | .ifElse .. :: rest, _, _, _ => scopes_checkGlobals hi rest _ _ _
  | .while .. :: rest, _, _, _ => scopes_checkGlobals hi rest _ _ _
  | .break _ :: rest, _, _, _ => scopes_checkGlobals hi rest _ _ _
  | .continue _ :: rest, _, _, _ => scopes_checkGlobals hi rest _ _ _
  | .return .. :: rest, _, _, _ => scopes_checkGlobals hi rest _ _ _

/-! ## In front of the body -/

/-- The frame offset is the same behind. -/
def GeneratorM.Level {α : Type} (x : GeneratorM α) : Prop :=
  ∀ c, (x c).2.currentFrameOffset = c.currentFrameOffset

namespace GeneratorM.Level

variable {α β : Type}

theorem ofFramed {x : GeneratorM α} (hx : x.Framed) : x.Level := fun c => (hx c).currentFrameOffset

theorem bind {x : GeneratorM α} {f : α → GeneratorM β} (hx : x.Level) (hf : ∀ a, (f a).Level) :
    (x >>= f).Level := fun c => (hf _ _).trans (hx c)

theorem pure (a : α) : (Pure.pure a : GeneratorM α).Level := fun _ => rfl

theorem setScope (scopeId : ScopeId) : (setScope scopeId).Level := fun _ => rfl

theorem forM {f : α → GeneratorM Unit} (hf : ∀ a, (f a).Level) : ∀ l : List α, (l.forM f).Level
  | [] => pure ()
  | a :: l => (hf a).bind fun _ => forM hf l

theorem setGlobal (statement : ASTStatement) : (TinCompiler.setGlobal statement).Level := by
  refine ofFramed ?_
  unfold TinCompiler.setGlobal
  split
  · refine Framed.getContext.bind fun c => ?_
    split
    · exact .abandon _
    · split
      · exact .emit _
      · refine (Framed.generateExpression _).bind fun type => ?_
        split
        · split
          · exact (Framed.report _ _).bind fun _ => .abandon _
          · exact (Framed.emit _).bind fun _ => .popValue _ _ _
        · exact .abandon _
  · exact .pure _

theorem setOwnGlobals (scopeId : ScopeId) (statements : List ASTStatement) :
    (TinCompiler.setOwnGlobals scopeId statements).Level :=
  (setScope scopeId).bind fun _ => forM setGlobal statements

mutual

theorem setGlobals : ∀ body : ASTBody, (TinCompiler.setGlobals body).Level
  | .mk scopeId statements => by
      unfold TinCompiler.setGlobals
      exact (setOwnGlobals scopeId statements).bind fun _ => setNestedGlobals statements

theorem setNestedGlobals : ∀ statements : List ASTStatement,
    (TinCompiler.setNestedGlobals statements).Level
  | [] => by
      unfold TinCompiler.setNestedGlobals
      exact pure _
  | statement :: rest => by
      unfold TinCompiler.setNestedGlobals
      exact (setNestedGlobals rest).bind fun _ => setStatementGlobals statement

theorem setStatementGlobals : ∀ statement : ASTStatement,
    (TinCompiler.setStatementGlobals statement).Level
  | .ifElse _ body none _ => by
      unfold TinCompiler.setStatementGlobals
      exact setGlobals body
  | .ifElse _ body (some elseBody) _ => by
      unfold TinCompiler.setStatementGlobals
      exact (setGlobals elseBody).bind fun _ => setGlobals body
  | .while _ body _ => by
      unfold TinCompiler.setStatementGlobals
      exact setGlobals body
  | .varDeclaration .. => by unfold TinCompiler.setStatementGlobals; exact pure _
  | .globalDeclaration .. => by unfold TinCompiler.setStatementGlobals; exact pure _
  | .constDeclaration .. => by unfold TinCompiler.setStatementGlobals; exact pure _
  | .expression .. => by unfold TinCompiler.setStatementGlobals; exact pure _
  | .break _ => by unfold TinCompiler.setStatementGlobals; exact pure _
  | .continue _ => by unfold TinCompiler.setStatementGlobals; exact pure _
  | .return .. => by unfold TinCompiler.setStatementGlobals; exact pure _

end

theorem setImportGlobals (imp : FileBody) : (TinCompiler.setImportGlobals imp).Level :=
  (setOwnGlobals _ _).bind fun _ => (setNestedGlobals _).bind fun _ =>
    (ofFramed .getContext).bind fun _ => forM setGlobals _

end GeneratorM.Level

/-- The frame has room for the returned value. -/
theorem frameOffset_prologue (function : ASTFunction) (c : GeneratorContext) :
    (generatePrologue function c).2.currentFrameOffset = c.currentFrameOffset -
      if function.returnType.Valid then (alignUp (c.ast.sizeOfType function.returnType) 8 : ℤ)
      else 0 := by
  have hresult : ∀ c : GeneratorContext, (reserveResult function c).2.currentFrameOffset =
      c.currentFrameOffset - if function.returnType.Valid then
        (alignUp (c.ast.sizeOfType function.returnType) 8 : ℤ) else 0 := by
    intro c
    unfold reserveResult
    split
    · rfl
    · exact (Int.sub_zero _).symm
  unfold generatePrologue
  split
  · have hglobals : ((c.ast.importBodies.forM setImportGlobals) c).2.currentFrameOffset =
        c.currentFrameOffset := Level.forM Level.setImportGlobals _ c
    have hast : ((c.ast.importBodies.forM setImportGlobals) c).2.ast = c.ast :=
      ((GeneratorM.Plainly.forM GeneratorM.Plainly.setImportGlobals _).2 c).1
    refine (hresult _).trans ?_
    change ((c.ast.importBodies.forM setImportGlobals) c).2.currentFrameOffset - (if _ then
      (alignUp (((c.ast.importBodies.forM setImportGlobals) c).2.ast.sizeOfType _) 8 : ℤ) else 0) = _
    rw [hglobals, hast]
  · exact hresult c

end TinCompiler
