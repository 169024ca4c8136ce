import TinCompiler.Generator.Layout

/-!
# Statements without jumps

Expression statements, declarations, conditions, returned values and the release of a frame
are straight code.  Only an expression can begin by taking something away, and then the value
of its type is popped behind it; everything else begins with an instruction of its own.
-/

namespace TinCompiler

open GeneratorM

variable {c : GeneratorContext}

/-! ## Values that are converted and popped -/

/-- A conversion that changes the value is from a type with a slot. -/
theorem slots_of_implicitCast {ast : AST} (hprim : ast.HasPrimitives) {ltype rtype : TypeId}
    {castType : CastType} (h : implicitCast ltype rtype = some (some castType)) :
    0 < ast.slots ltype := by
  have hone : ∀ type : TypeId, type = .int ∨ type = .float → 0 < ast.slots type := by
    rintro _ (rfl | rfl) <;> rw [hprim.slots (by decide) (by decide)] <;> exact Nat.one_pos
  unfold implicitCast at h
  split at h
  · cases h
  · split at h
    · cases h
    · split at h
      · cases h
      · split at h
        · next htypes => exact hone _ (.inl htypes.1)
        · split at h
          · next htypes => exact hone _ (.inr htypes.1)
          · cases h

/-- What can be a condition has a slot. -/
theorem slots_of_condition {ast : AST} (hprim : ast.HasPrimitives) {ltype : TypeId}
    {conversion : Option CastType} (h : implicitCast ltype .bool = some conversion) :
    0 < ast.slots ltype := by
  have hsmall : ∀ type : TypeId, IsSmallInteger type → 0 < ast.slots type := fun type htype => by
    rw [hprim.slots_of_small htype]
    exact Nat.one_pos
  unfold implicitCast at h
  split at h
  · next heq => exact hsmall _ (heq ▸ .inr (.inr rfl))
  · split at h
    · next hlevel => exact absurd hlevel.2 (by decide)
    · split at h
      · next htype => exact hsmall _ htype
      · split at h
        · next htypes => exact absurd htypes.2 (by decide)
        · split at h
          · next htypes => exact absurd htypes.2 (by decide)
          · cases h

/-- The value of an expression that reports nothing, popped with its own type, leaves the
words as they were. -/
theorem Emits.popped {piece piece' : BytecodePiece} {ast : AST} {type : TypeId}
    (h : Emits (Grows (0 < ast.slots type)) piece piece') (reg : Register) (offset : ℤ) :
    Emits (Grows False) piece (TinCompiler.generatePop ast reg ast.depth offset type piece') := by
  by_cases hslots : 0 < ast.slots type
  · exact (h.keep hslots (Emits.generatePop ast _ _ _ _)).mono False.elim
  · rw [generatePop_eq_self ast _ _ _ _ (Nat.eq_zero_of_not_pos hslots)]
    exact h.mono False.elim

theorem quiet_of_no_errors {α : Type} {x : GeneratorM α} (hframed : x.Framed)
    (herrors : (x c).2.reporter.errors = 0) : x.Quiet c :=
  quiet_of_errors hframed (herrors.trans (Nat.le_zero.mp
    (herrors ▸ (hframed c).errors_le)).symm)

theorem Straightly.of_framed {α : Type} {x : GeneratorM α} (hframed : x.Framed) (h : Ready c)
    {firm : Prop} (hgrows : Emits (Grows firm) c.piece (x c).2.piece) : Straightly c (x c).2 :=
  .of_grows h hgrows ((hframed c).ast ▸ h.prim) (hframed c).loopScopes (hframed c).blocks

/-! ## Statements -/

theorem straight_expressionStatement (e : ASTExpression) (h : Ready c)
    (herrors : (generateExpressionStatement e c).2.reporter.errors = 0) :
    Straightly c (generateExpressionStatement e c).2 := by
  have hframed : (generateExpressionStatement e).Framed :=
    (Framed.generateExpression e).bind fun _ => (Framed.popValue _ _ _).bind fun _ => .pure _
  have hquiet := quiet_of_no_errors hframed herrors
  obtain ⟨hquiet₁, -⟩ := hquiet.of_bind (Framed.generateExpression e)
    fun _ => (Framed.popValue _ _ _).bind fun _ => .pure _
  have hgrows : Emits (Grows (0 < c.ast.slots (typeOf c.ast c.currentScopeId e))) c.piece
      (generateExpression e c).2.piece := generateExpression_grows e c h.prim hquiet₁
  refine Straightly.of_framed hframed h (?_ : Emits (Grows False) _ _)
  have hpopped := hgrows.popped .invalid 0
  rw [← generateExpression_fst e c, ← (Framed.generateExpression e c).ast] at hpopped
  exact hpopped

/-- The release of a frame, or nothing. -/
theorem straight_releaseTo (frame : ℤ) (h : Ready c) : Straightly c (releaseTo frame c).2 := by
  unfold releaseTo
  rw [getContext_bind_apply, GeneratorM.ite_apply]
  split
  · exact .of_grows h (Emits.emitIncr c.piece _ (show Register.sp ≠ .pc by decide)) h.prim rfl rfl
  · exact .refl h

/-- The code of a value that is converted; the conversion is accepted. -/
theorem straight_cast {e : ASTExpression} {type : TypeId} {conversion : Option CastType}
    (hprim : c.ast.HasPrimitives) (hquiet : (generateExpression e).Quiet c)
    (hcast : implicitCast (generateExpression e c).1 type = some conversion) :
    Emits (Grows (0 < c.ast.slots (generateExpression e c).1)) c.piece
      (performCast (generateExpression e c).1 type (generateExpression e c).2).2.piece := by
  have hgrows : Emits (Grows (0 < c.ast.slots (typeOf c.ast c.currentScopeId e))) c.piece
      (generateExpression e c).2.piece := generateExpression_grows e c hprim hquiet
  rw [← generateExpression_fst e c] at hgrows
  unfold performCast
  rw [hcast]
  exact (hgrows.trans (Emits.emitConversion conversion _)).mono .inl

theorem errors_failStatement (location : SourceLocation) (message : String)
    (c : GeneratorContext) :
    (failStatement location message c).2.reporter.errors = c.reporter.errors + 1 :=
  Reporter.errors_err _ _ _

theorem errors_skipStatement (location : SourceLocation) (message : String)
    (c : GeneratorContext) :
    (skipStatement location message c).2.reporter.errors = c.reporter.errors + 1 :=
  Reporter.errors_err _ _ _

theorem performCast_of_none {ltype rtype : TypeId} (h : implicitCast ltype rtype = none)
    (c : GeneratorContext) : performCast ltype rtype c = (false, c) := by
  unfold performCast
  rw [h]
  rfl

theorem performCast_of_some {ltype rtype : TypeId} {conversion : Option CastType}
    (h : implicitCast ltype rtype = some conversion) (c : GeneratorContext) :
    performCast ltype rtype c = (true, c.withPiece (emitConversion conversion c.piece)) := by
  unfold performCast
  rw [h]
  rfl

/-- A condition that reports nothing is one. -/
theorem straight_condition (e : ASTExpression) (statement : String) (h : Ready c)
    (herrors : (generateCondition e statement c).2.reporter.errors = 0) :
    (generateCondition e statement c).1 = true ∧
      Straightly c (generateCondition e statement c).2 := by
  have hframed := Framed.generateExpression e
  cases hcast : implicitCast (generateExpression e c).1 .bool with
  | none =>
      have hreporter : ∃ location message, (generateCondition e statement c).2.reporter =
          (generateExpression e c).2.reporter.err location message := by
        simp only [generateCondition, withBlock, bind_apply, getContext_apply,
          performCast_of_none hcast]
        exact ⟨_, _, rfl⟩
      obtain ⟨location, message, hreporter⟩ := hreporter
      rw [hreporter, Reporter.errors_err] at herrors
      cases herrors
  | some conversion =>
      have hsame : generateCondition e statement c = (true,
          { (generateExpression e c).2.withPiece
              ((emitConversion conversion (generateExpression e c).2.piece).emitPop .a) with
            blocks := (generateExpression e c).2.blocks ++ [⟨c.piece.getPc,
              ((emitConversion conversion (generateExpression e c).2.piece).emitPop .a).getPc,
              .condition e⟩] }) := by
        simp only [generateCondition, withBlock, bind_apply, getContext_apply,
          performCast_of_some hcast]
        rfl
      rw [hsame] at herrors ⊢
      have hquiet : (generateExpression e).Quiet c := quiet_of_no_errors hframed herrors
      have hgrows := straight_cast h.prim hquiet hcast
      rw [performCast_of_some hcast] at hgrows
      have hpop : Emits KeepsSolid (emitConversion conversion (generateExpression e c).2.piece)
          ((emitConversion conversion (generateExpression e c).2.piece).emitPop .a) :=
        Emits.emitPop _ (by decide) (by decide)
      have hslots := slots_of_condition h.prim hcast
      have hrun : Straightly c ((generateExpression e c).2.withPiece
          ((emitConversion conversion (generateExpression e c).2.piece).emitPop .a)) :=
        .of_grows h (Emits.keep hgrows hslots hpop) ((hframed c).ast ▸ h.prim)
          (hframed c).loopScopes (hframed c).blocks
      exact ⟨rfl, hrun.addBlock (by simp)⟩

/-- The code of a returned value that reports nothing; no block is recorded yet. -/
theorem straight_result (e : ASTExpression) (location : SourceLocation) (h : Ready c)
    (herrors : (generateResult e location c).2.reporter.errors = 0) :
    (generateResult e location c).1 = .next ∧ Straightly c (generateResult e location c).2 := by
  have hframed := Framed.generateExpression e
  unfold generateResult at herrors ⊢
  rw [getContext_bind_apply, GeneratorM.ite_apply] at herrors ⊢
  by_cases hvalid : c.function.returnType.Valid
  · rw [if_pos hvalid] at herrors ⊢
    rw [bind_apply] at herrors ⊢
    cases hcast : implicitCast (generateExpression e c).1 c.function.returnType with
    | none =>
        rw [bind_apply, performCast_of_none hcast] at herrors
        exact absurd ((errors_failStatement _ _ _).symm.trans herrors) (Nat.succ_ne_zero _)
    | some conversion =>
        rw [bind_apply, performCast_of_some hcast] at herrors ⊢
        have hquiet : (generateExpression e).Quiet c := quiet_of_no_errors hframed herrors
        have hgrows := straight_cast h.prim hquiet hcast
        rw [performCast_of_some hcast] at hgrows
        have hpopped := hgrows.popped .bp c.function.returnOffset
        rw [← (hframed c).ast] at hpopped
        exact ⟨rfl, .of_grows h hpopped ((hframed c).ast ▸ h.prim) (hframed c).loopScopes
          (hframed c).blocks⟩
  · rw [if_neg hvalid] at herrors
    exact absurd ((errors_failStatement _ _ _).symm.trans herrors) (Nat.succ_ne_zero _)

/-! ## Declarations -/

theorem hasPrimitives_of_addVariable {ast ast' : AST} {kind : IdentifierKind} {name : String}
    {scopeId : ScopeId} {type : TypeId} {offset : ℤ} {statement : Option ASTStatement}
    (hprim : ast.HasPrimitives)
    (h : ast.addVariable kind name scopeId type offset statement = some ast') :
    ast'.HasPrimitives := by
  intro i hi
  rw [(SameTables.addVariable h).typeInfos]
  exact hprim i hi

theorem framed_initializer (e : Option ASTExpression) (location : SourceLocation) (type : TypeId)
    (offset : ℤ) : (generateInitializer e location type offset).Framed := by
  unfold generateInitializer
  split
  · refine (Framed.generateExpression _).bind fun etype => ?_
    split
    · refine (Framed.performCast _ _).bind fun cast => ?_
      split
      · exact (Framed.popValue _ _ _).bind fun _ => .pure _
      · exact Framed.getContext.bind fun _ => (Framed.report _ _).bind fun _ =>
          (Framed.abandon _).bind fun _ => .pure _
    · exact (Framed.abandon _).bind fun _ => .pure _
  · exact Framed.getContext.bind fun _ => (Framed.emit _).bind fun _ => .pure _

theorem keeping_initializer (e : Option ASTExpression) (location : SourceLocation) (type : TypeId)
    (offset : ℤ) : (generateInitializer e location type offset).Keeping := by
  unfold generateInitializer
  split
  · refine (Keeping.generateExpression _).bind fun etype => ?_
    split
    · refine (Keeping.performCast _ _).bind fun cast => ?_
      split
      · exact (Keeping.popValue _ _ _).bind fun _ => .pure _
      · exact Keeping.getContext.bind fun _ => (Keeping.report _ _).bind fun _ =>
          (Keeping.abandon _).bind fun _ => .pure _
    · exact (Keeping.abandon _).bind fun _ => .pure _
  · refine Keeping.getContext.bind fun c => (Keeping.emit fun piece => ?_).bind fun _ => .pure _
    exact (((Emits.emitLi piece _ (by decide) (by decide)).keeps.transKeeps
      (Emits.emitArithmetic _ .add .bp false (by decide) (by decide)).keeps).transKeeps
      (Emits.emitLi _ _ (by decide) (by decide)).keeps).transKeeps (Emits.emitMemzero _ _ _).keeps

/-- A declaration never ends its block with success. -/
theorem initializer_ne_stop (e : Option ASTExpression) (location : SourceLocation) (type : TypeId)
    (offset : ℤ) (c : GeneratorContext) : (generateInitializer e location type offset c).1 ≠ .stop := by
  cases e with
  | none => exact fun h => nomatch h
  | some e =>
      unfold generateInitializer
      dsimp only
      rw [bind_apply, GeneratorM.ite_apply]
      split
      · rw [bind_apply, GeneratorM.ite_apply]
        split
        · exact fun h => nomatch h
        · exact fun h => nomatch h
      · exact fun h => nomatch h

theorem straight_varDeclaration (typeString name : String) (e : Option ASTExpression)
    (location : SourceLocation) (h : Ready c)
    (herrors : (generateVarDeclaration typeString name e location c).2.reporter.errors = 0) :
    (generateVarDeclaration typeString name e location c).1 ≠ .stop ∧
      Straightly c (generateVarDeclaration typeString name e location c).2 := by
  unfold generateVarDeclaration at herrors ⊢
  rw [getContext_bind_apply, GeneratorM.ite_apply] at herrors ⊢
  by_cases hvalid : (c.ast.convertFullType typeString c.currentScopeId).Valid
  · rw [if_pos hvalid] at herrors ⊢
    generalize c.ast.convertFullType typeString c.currentScopeId = type at herrors ⊢
    generalize (alignUp (c.ast.sizeOfType type) 8 : ℤ) = size at herrors ⊢
    have hincr : Emits (Grows True) c.piece (c.piece.emitIncr .sp (-size)) :=
      Emits.emitIncr c.piece _ (by decide)
    cases hadd : c.ast.addVariable .localId name c.currentScopeId type (c.currentFrameOffset - size) with
    | none =>
        rw [bind_apply, bind_apply, hadd] at herrors
        exact absurd ((errors_skipStatement _ _ _).symm.trans herrors) (Nat.succ_ne_zero _)
    | some ast =>
        rw [bind_apply, bind_apply, hadd] at herrors
        rw [bind_apply, bind_apply]
        dsimp only at herrors ⊢
        rw [bind_apply] at herrors ⊢
        generalize hc₁ : (modifyContext _ _).2 = c₁ at herrors ⊢
        have hpiece : c₁.piece = c.piece.emitIncr .sp (-size) := by rw [← hc₁]; rfl
        have hast : c₁.ast = ast := by rw [← hc₁]; rfl
        have hloops : c₁.loopScopes = c.loopScopes := by rw [← hc₁]; rfl
        have hblocks : c₁.blocks = c.blocks := by rw [← hc₁]; rfl
        have hframe := framed_initializer e location type (c.currentFrameOffset - size) c₁
        have hkeep := keeping_initializer e location type (c.currentFrameOffset - size) c₁
        rw [hpiece] at hkeep
        refine ⟨initializer_ne_stop _ _ _ _ _, .of_grows h (hincr.keep trivial hkeep) ?_ ?_ ?_⟩
        · rw [hframe.ast, hast]
          exact hasPrimitives_of_addVariable h.prim hadd
        · rw [hframe.loopScopes, hloops]
        · rw [hframe.blocks, hblocks]
  · rw [if_neg hvalid] at herrors
    exact absurd ((errors_failStatement _ _ _).symm.trans herrors) (Nat.succ_ne_zero _)

theorem straight_globalDeclaration (typeString name : String) (location : SourceLocation)
    (h : Ready c)
    (herrors : (generateGlobalDeclaration typeString name location c).2.reporter.errors = 0) :
    (generateGlobalDeclaration typeString name location c).1 ≠ .stop ∧
      Straightly c (generateGlobalDeclaration typeString name location c).2 := by
  unfold generateGlobalDeclaration at herrors ⊢
  rw [getContext_bind_apply, GeneratorM.ite_apply] at herrors ⊢
  by_cases hvalid : (c.ast.convertFullType typeString c.currentScopeId).Valid
  · rw [if_pos hvalid] at herrors ⊢
    dsimp only at herrors ⊢
    rw [bind_apply] at herrors ⊢
    cases hadd : c.ast.addVariable .globalId name c.currentScopeId
        (c.ast.convertFullType typeString c.currentScopeId)
        ((c.bytecode.appendData (c.ast.sizeOfType
          (c.ast.convertFullType typeString c.currentScopeId))).1 : ℤ) with
    | none =>
        rw [hadd] at herrors
        exact absurd ((errors_failStatement _ _ _).symm.trans herrors) (Nat.succ_ne_zero _)
    | some ast =>
        exact ⟨fun h => (nomatch h), .of_same h rfl (hasPrimitives_of_addVariable h.prim hadd) rfl rfl⟩
  · rw [if_neg hvalid] at herrors
    exact absurd ((errors_failStatement _ _ _).symm.trans herrors) (Nat.succ_ne_zero _)

theorem straight_constDeclaration (typeString name : String) (location : SourceLocation)
    (statement : ASTStatement) (h : Ready c)
    (herrors : (generateConstDeclaration typeString name location statement c).2.reporter.errors = 0) :
    (generateConstDeclaration typeString name location statement c).1 ≠ .stop ∧
      Straightly c (generateConstDeclaration typeString name location statement c).2 := by
  unfold generateConstDeclaration at herrors ⊢
  rw [getContext_bind_apply, GeneratorM.ite_apply] at herrors ⊢
  by_cases hvalid : (c.ast.convertFullType typeString c.currentScopeId).Valid
  · rw [if_pos hvalid] at herrors ⊢
    cases hadd : c.ast.addVariable .constId name c.currentScopeId
        (c.ast.convertFullType typeString c.currentScopeId) 0 statement with
    | none =>
        rw [hadd] at herrors
        exact absurd ((errors_skipStatement _ _ _).symm.trans herrors) (Nat.succ_ne_zero _)
    | some ast =>
        exact ⟨fun h => (nomatch h), .of_same h rfl (hasPrimitives_of_addVariable h.prim hadd) rfl rfl⟩
  · rw [if_neg hvalid] at herrors
    exact absurd ((errors_failStatement _ _ _).symm.trans herrors) (Nat.succ_ne_zero _)

end TinCompiler
