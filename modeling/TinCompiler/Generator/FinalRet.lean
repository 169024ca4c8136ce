import TinCompiler.Generator.Blocks

/-!
# Where control leaves a function

The code of a function is straight code (the initial values of the globals in `main`, the space
of the result), the code of the body, and perhaps a final `ret`.  Whether that is appended is
decided by the last cell alone.  So control runs off the end when the block of the body can be
completed and the last cell is missing or looks like a `ret`.
-/

namespace TinCompiler

open GeneratorM

/-! ## In front of the body -/

/-- All but the pushes at the end of the code stays, and so does what the layout depends on. -/
def GeneratorM.Plainly {α : Type} (x : GeneratorM α) : Prop :=
  x.Keeping ∧ ∀ c, (x c).2.ast = c.ast ∧ (x c).2.loopScopes = c.loopScopes ∧
    (x c).2.blocks = c.blocks

namespace GeneratorM.Plainly

variable {α β : Type}

theorem of_framed {x : GeneratorM α} (hkeep : x.Keeping) (hframe : x.Framed) : x.Plainly :=
  ⟨hkeep, fun c => ⟨(hframe c).ast, (hframe c).loopScopes, (hframe c).blocks⟩⟩

theorem pure (a : α) : (Pure.pure a : GeneratorM α).Plainly := of_framed (.pure a) (.pure a)

theorem bind {x : GeneratorM α} {f : α → GeneratorM β} (hx : x.Plainly) (hf : ∀ a, (f a).Plainly) :
    (x >>= f).Plainly := by
  refine ⟨hx.1.bind fun a => (hf a).1, fun c => ?_⟩
  obtain ⟨hast, hloops, hblocks⟩ := hx.2 c
  obtain ⟨hast', hloops', hblocks'⟩ := (hf (x c).1).2 (x c).2
  exact ⟨hast'.trans hast, hloops'.trans hloops, hblocks'.trans hblocks⟩

theorem getContext : getContext.Plainly := of_framed .getContext .getContext

theorem abandon (location : SourceLocation) : (abandon location).Plainly :=
  of_framed (.abandon _) (.abandon _)

theorem emit {f : BytecodePiece → BytecodePiece} (hf : ∀ piece, Emits KeepsSolid piece (f piece)) :
    (emit f).Plainly := of_framed (.emit hf) (.emit f)

theorem setScope (scopeId : ScopeId) : (setScope scopeId).Plainly :=
  ⟨fun c => (Emits.refl c.piece).keeps, fun _ => ⟨rfl, rfl, rfl⟩⟩

theorem forM {f : α → GeneratorM Unit} (hf : ∀ a, (f a).Plainly) : ∀ l : List α, (l.forM f).Plainly
  | [] => pure ()
  | a :: l => (hf a).bind fun _ => forM hf l

theorem setGlobal (statement : ASTStatement) : (TinCompiler.setGlobal statement).Plainly := by
  unfold TinCompiler.setGlobal
  split
  · refine getContext.bind fun c => ?_
    split
    · exact abandon _
    · split
      · refine emit fun piece => ?_
        exact ((Emits.emitDataptr piece _ (by decide) (by decide)).keeps.transKeeps
          (Emits.emitLi _ _ (by decide) (by decide)).keeps).transKeeps (Emits.emitMemzero _ _ _).keeps
      · refine (of_framed (.generateExpression _) (.generateExpression _)).bind fun type => ?_
        split
        · split
          · exact (of_framed (.report _ _) (.report _ _)).bind fun _ => abandon _
          · exact (emit fun piece => (Emits.emitDataptr piece _ (by decide) (by decide)).keeps).bind fun _ =>
              of_framed (.popValue _ _ _) (.popValue _ _ _)
        · exact abandon _
  · exact pure _

theorem setOwnGlobals (scopeId : ScopeId) (statements : List ASTStatement) :
    (TinCompiler.setOwnGlobals scopeId statements).Plainly :=
  (setScope scopeId).bind fun _ => forM setGlobal statements

mutual

theorem setGlobals : ∀ body : ASTBody, (TinCompiler.setGlobals body).Plainly
  | .mk scopeId statements => by
      unfold TinCompiler.setGlobals
      exact (setOwnGlobals scopeId statements).bind fun _ => setNestedGlobals statements

theorem setNestedGlobals : ∀ statements : List ASTStatement,
    (TinCompiler.setNestedGlobals statements).Plainly
  | [] => by
      unfold TinCompiler.setNestedGlobals
      exact pure _
  | statement :: rest => by
      unfold TinCompiler.setNestedGlobals
      exact (setNestedGlobals rest).bind fun _ => setStatementGlobals statement

theorem setStatementGlobals : ∀ statement : ASTStatement,
    (TinCompiler.setStatementGlobals statement).Plainly
  | .ifElse _ body none _ => by
      unfold TinCompiler.setStatementGlobals
      exact setGlobals body
  | .ifElse _ body (some elseBody) _ => by
      unfold TinCompiler.setStatementGlobals
      exact (setGlobals elseBody).bind fun _ => setGlobals body
  | .while _ body _ => by
      unfold TinCompiler.setStatementGlobals
      exact setGlobals body
  | .varDeclaration .. => by unfold TinCompiler.setStatementGlobals; exact pure _
  | .globalDeclaration .. => by unfold TinCompiler.setStatementGlobals; exact pure _
  | .constDeclaration .. => by unfold TinCompiler.setStatementGlobals; exact pure _
  | .expression .. => by unfold TinCompiler.setStatementGlobals; exact pure _
  | .break _ => by unfold TinCompiler.setStatementGlobals; exact pure _
  | .continue _ => by unfold TinCompiler.setStatementGlobals; exact pure _
  | .return .. => by unfold TinCompiler.setStatementGlobals; exact pure _

end

theorem setImportGlobals (imp : FileBody) : (TinCompiler.setImportGlobals imp).Plainly :=
  (setOwnGlobals _ _).bind fun _ => (setNestedGlobals _).bind fun _ => getContext.bind fun _ =>
    forM setGlobals _

end GeneratorM.Plainly

/-- What `GenerateFunction` does in front of the body. -/
def generatePrologue (function : ASTFunction) : GeneratorM Unit := do
  if function.name = "main" then
    let c ← getContext
    c.ast.importBodies.forM setImportGlobals
    setScope c.currentScopeId
  else pure ()
  reserveResult function

theorem plainly_prologue (function : ASTFunction) : (generatePrologue function).Plainly := by
  have hresult : (reserveResult function).Plainly := by
    unfold reserveResult
    split
    · refine GeneratorM.Plainly.getContext.bind fun c =>
        (GeneratorM.Plainly.emit fun piece => (Emits.emitIncr piece _ (by decide)).keeps).bind
          fun _ => ?_
      exact ⟨fun c => (Emits.refl c.piece).keeps, fun _ => ⟨rfl, rfl, rfl⟩⟩
    · exact .pure _
  unfold generatePrologue
  split
  · exact GeneratorM.Plainly.getContext.bind fun c => (GeneratorM.Plainly.forM
      GeneratorM.Plainly.setImportGlobals _).bind fun _ => (GeneratorM.Plainly.setScope _).bind
        fun _ => hresult
  · exact (GeneratorM.Plainly.pure ()).bind fun _ => hresult

theorem generateFunctionCode_snd (function : ASTFunction) (body : ASTBody) (c : GeneratorContext) :
    (generateFunctionCode function body c).2 =
      (generateFinalRet function (generateBody body (generatePrologue function c).2).2).2 := by
  unfold generateFunctionCode generatePrologue
  split <;> rfl

/-- From an empty piece what keeps all but the pushes is straight code. -/
theorem GeneratorM.Plainly.straight {α : Type} {x : GeneratorM α} {c : GeneratorContext}
    (hx : x.Plainly) (h : Ready c) (hempty : c.piece.instructions = []) :
    Straightly c (x c).2 := by
  obtain ⟨hast, hloops, hblocks⟩ := hx.2 c
  have hgrows : Emits (Grows False) c.piece (x c).2.piece := by
    intro ops hasm hsound
    obtain ⟨ops', hasm', hsound', hkeeps⟩ := hx.1 c ops hasm hsound
    obtain rfl : ops = [] := by
      cases ops with
      | nil => rfl
      | cons op ops =>
          have hcells := hasm.instructions.symm.trans hempty
          obtain ⟨inst, _ | v⟩ := op <;> simp [Op.cells] at hcells
    have hkeeps' := hkeeps
    obtain ⟨new, heq, hnew⟩ := hkeeps'
    obtain rfl : ops' = new := heq
    exact ⟨ops', hasm', hsound', hkeeps, .append [] hnew, False.elim⟩
  exact .of_grows h hgrows (hast ▸ h.prim) hloops hblocks

/-! ## A function that is accepted -/

/-- A function with a body, for which `GenerateFunction` reports nothing and nothing was
reported before. -/
structure AcceptedFunction where
  ast : AST
  f : ℕ
  bytecode : Bytecode
  reporter : Reporter
  body : ASTBody
  prim : ast.HasPrimitives
  isNative : (ast.functions f).isNative = false
  hasBody : (ast.functions f).body = some body
  accepted : (generateFunction ast f bytecode reporter).2.2.errors = 0

namespace AcceptedFunction

variable (F : AcceptedFunction)

def function : ASTFunction := F.ast.functions F.f

/-- The context that `GenerateFunction` sets up. -/
def start : GeneratorContext :=
  functionContext
    { F.ast with
      functions := Function.update F.ast.functions F.f
        { F.function with pieceCodeIndex := F.bytecode.pieces.length } }
    F.function F.bytecode F.reporter

def bodyStart : GeneratorContext := (generatePrologue F.function F.start).2

def bodyEnd : GeneratorContext := (generateBody F.body F.bodyStart).2

/-- The context once the function is generated. -/
def finish : GeneratorContext := (generateFinalRet F.function F.bodyEnd).2

/-- The instruction vector. -/
def cells : List Cell := F.finish.piece.instructions

/-- The block of the body. -/
def control : Control := controlOfBody F.body F.bodyStart

def graph : FlowGraph ℕ := pieceGraph F.cells F.finish.blocks

theorem generateFunction_eq : generateFunction F.ast F.f F.bytecode F.reporter =
    (F.finish.ast, { F.finish.bytecode with
      pieces := F.finish.bytecode.pieces ++ [F.finish.piece] }, F.finish.reporter) := by
  unfold generateFunction finish bodyEnd bodyStart
  rw [← generateFunctionCode_snd]
  dsimp only
  split
  · next body _ hbody =>
      obtain rfl : body = F.body := Option.some.inj (hbody.symm.trans F.hasBody)
      rfl
  · next hnone => exact absurd F.hasBody (hnone F.body F.isNative)

theorem errors_finish : F.finish.reporter.errors = 0 := by
  have haccepted := F.accepted
  rwa [generateFunction_eq] at haccepted

/-! ### How its code lies -/

/-- The final `ret` is emitted: there is a last cell, and it does not look like a `ret`. -/
def AddsRet : Prop :=
  ∃ last, F.bodyEnd.piece.instructions.getLast? = some last ∧ last.isRet = false

theorem ready_start : Ready F.start where
  coded := ⟨[], assembles_empty.of_eq rfl rfl, by simp [SoundOps]⟩
  prim := F.prim
  results := fun b hb => absurd hb List.not_mem_nil
  breaks := fun r hr => absurd hr List.not_mem_nil

theorem straight_bodyStart : Straightly F.start F.bodyStart :=
  (plainly_prologue F.function).straight F.ready_start rfl

theorem laysBlock_body : LaysBlock F.bodyStart F.bodyEnd F.control := by
  have hle := (GeneratorM.Keeps.generateFinalRet F.function F.bodyEnd).errors
  have hquiet : F.bodyEnd.reporter.errors = 0 :=
    Nat.le_zero.mp (Nat.le_trans hle (Nat.le_of_eq F.errors_finish))
  exact generateBody_laid F.body F.straight_bodyStart.ran.ready hquiet

theorem finish_of_not_addsRet (h : ¬ F.AddsRet) : F.finish = F.bodyEnd := by
  unfold finish generateFinalRet
  rw [getContext_bind_apply]
  cases hlast : F.bodyEnd.piece.instructions.getLast? with
  | none => rfl
  | some last =>
      have hret : last.isRet = true := by
        by_contra hno
        exact h ⟨last, hlast, Bool.eq_false_iff.mpr hno⟩
      dsimp only
      rw [if_pos hret]
      rfl

/-- Only without a result the `ret` is emitted silently. -/
theorem finish_of_addsRet (h : F.AddsRet) : F.function.returnType = .void ∧
    F.finish = (releaseTo 0 F.bodyEnd).2.withPiece (releaseTo 0 F.bodyEnd).2.piece.emitRet := by
  obtain ⟨last, hlast, hret⟩ := h
  have herrors := F.errors_finish
  unfold finish generateFinalRet at herrors ⊢
  rw [getContext_bind_apply, hlast] at herrors ⊢
  dsimp only at herrors ⊢
  rw [if_neg (by rw [hret]; decide)] at herrors ⊢
  by_cases hvoid : F.function.returnType = .void
  · rw [if_neg (not_not.mpr hvoid)]
    exact ⟨hvoid, rfl⟩
  · rw [if_pos hvoid] at herrors
    have hrest : (releaseTo 0 >>= fun _ => emit fun piece => piece.emitRet).Keeps :=
      (GeneratorM.Keeps.releaseTo 0).bind fun _ => .emit _
    have hle := (hrest (report F.function.location "Missing return statement. They are mandatory if the function has a return type."
      F.bodyEnd).2).errors
    have hreport := Reporter.errors_err F.bodyEnd.reporter F.function.location
      "Missing return statement. They are mandatory if the function has a return type."
    exact absurd (hreport.symm.trans_le (hle.trans_eq herrors)) (Nat.not_succ_le_zero _)

theorem loopScopes_bodyEnd : F.bodyEnd.loopScopes = [] := by
  have hstart : F.bodyStart.loopScopes = [] := F.straight_bodyStart.loops
  rcases F.laysBlock_body.1.loops with heq | ⟨init, loop, new, hold, -, -⟩
  · exact heq.trans hstart
  · exact absurd (hold.symm.trans hstart) (by simp)

/-- Behind the body: nothing, or the release of the frame and a `ret` at the end. -/
theorem ran_finish : Ran F.bodyEnd F.finish ∧ F.bodyEnd.words <+: F.finish.words ∧
    F.finish.loopScopes = [] := by
  have hready := F.laysBlock_body.1.ready
  by_cases hadds : F.AddsRet
  · obtain ⟨-, heq⟩ := F.finish_of_addsRet hadds
    have hrelease := straight_releaseTo 0 hready
    obtain ⟨hran, hwords⟩ := emitRet_ran hrelease.ran.ready
    obtain ⟨new, -, hnew⟩ := hrelease.straight
    rw [heq]
    refine ⟨hrelease.ran.trans hran, ⟨new ++ [.ret], ?_⟩, ?_⟩
    · rw [hwords, hnew, List.append_assoc]
    · exact hrelease.loops.trans F.loopScopes_bodyEnd
  · rw [F.finish_of_not_addsRet hadds]
    exact ⟨.refl hready, List.prefix_rfl, F.loopScopes_bodyEnd⟩

theorem finishes : Finishes F.cells F.finish.blocks ∅ 0 F.bodyEnd := by
  obtain ⟨hran, hfront, hloops⟩ := F.ran_finish
  have hfin : Finishes F.cells F.finish.blocks ∅ 0 F.finish := by
    refine ⟨fun i word hword => .inl hword, fun r hr => ?_, [], (List.append_nil _).symm, by simp⟩
    rw [hloops] at hr
    exact absurd hr List.not_mem_nil
  exact hfin.back hran (hfin.agrees.of_append hfront)

/-- The code of the function up to the end of the body. -/
theorem laid : ∃ l, F.graph.Segment 0 l F.bodyStart.words.length ∧
    F.graph.Laid none F.control F.bodyStart.words.length F.bodyEnd.words.length := by
  have hpending : PendingIn F.bodyStart F.bodyEnd ∅ := fun r hr => absurd hr (Set.notMem_empty r)
  obtain ⟨hfin, hlaid⟩ := F.laysBlock_body.2 _ _ _ _ F.finishes hpending
  obtain ⟨l, hseg, -⟩ := F.straight_bodyStart.segment F.finish.blocks hfin.agrees
  have hstart : F.bodyStart.loopScopes = [] := F.straight_bodyStart.loops
  rw [hstart] at hlaid
  exact ⟨l, hseg, hlaid⟩

/-- The final `ret` catches what completes the body. -/
theorem holds_bodyEnd (h : F.AddsRet) :
    F.graph.Holds True (fun _ => False) F.bodyEnd.words.length := by
  obtain ⟨-, heq⟩ := F.finish_of_addsRet h
  have hrelease := straight_releaseTo 0 F.laysBlock_body.1.ready
  have hagrees : Agrees F.cells ∅
      ((releaseTo 0 F.bodyEnd).2.withPiece (releaseTo 0 F.bodyEnd).2.piece.emitRet).words := by
    rw [← heq]
    exact fun i word hword => .inl hword
  obtain ⟨l, hseg, -, hcode, -, hnext⟩ := returns_back F.finish.blocks hrelease hagrees
  exact hseg.holds (.of_return hcode hnext trivial)

theorem length_cells_of_not_addsRet (h : ¬ F.AddsRet) : F.cells.length = F.bodyEnd.words.length := by
  rw [cells, F.finish_of_not_addsRet h]
  exact (F.bodyEnd.length_words).symm

/-- A body that is completed without a `ret` behind it is left at the end of the cells. -/
theorem reaches_end (hcompletes : F.control.completes = true) (hadds : ¬ F.AddsRet) :
    Reaches F.cells F.cells.length := by
  obtain ⟨l, hseg, hlaid⟩ := F.laid
  rw [reaches_iff (Backs F.cells F.finish.blocks), F.length_cells_of_not_addsRet hadds]
  exact hseg.reaches.trans (hlaid.reaches F.control hcompletes)

/-- Otherwise control stays inside. -/
theorem holds_start {bare : Prop} (hbare : F.control.returnsBare = true ∨ F.AddsRet → bare)
    (h : F.control.completes = false ∨ F.AddsRet) : F.graph.Holds bare (fun _ => False) 0 := by
  obtain ⟨l, hseg, hlaid⟩ := F.laid
  have hbody : F.graph.Meets bare _ F.bodyStart.words.length :=
    (hlaid.meets F.control).mono fun h => hbare (.inl h)
  have hfunction : F.graph.Meets bare (fun _ => False) F.bodyStart.words.length := by
    refine hbody.trans fun j hj => ?_
    rcases hj with ⟨_, _, hloop, -⟩ | ⟨hcompletes, rfl⟩
    · cases hloop
    · rcases h with h | h
      · exact absurd (h.symm.trans hcompletes) (by decide)
      · exact (FlowGraph.Meets.mono fun _ => hbare (.inr h)) (.inr (F.holds_bodyEnd h))
  exact hseg.holds (hfunction.resolve_left id)

/-! ## Running off the end -/

/-- No path comes to the end of the instructions, and every path that ends does so in a `ret`,
exactly if the block of the body is never completed or the final `ret` is emitted. -/
theorem never_off_end_iff :
    (¬ Reaches F.cells F.cells.length ∧
      ∀ pc, Reaches F.cells pc → flowNext F.cells pc = [] → F.cells[pc]? = some (.inst .ret)) ↔
    (F.control.completes = false ∨ F.AddsRet) := by
  constructor
  · rintro ⟨hoff, -⟩
    by_contra hno
    rw [not_or, Bool.not_eq_false] at hno
    exact hoff (F.reaches_end hno.1 hno.2)
  · intro h
    have hholds : F.graph.Holds True (fun _ => False) 0 := F.holds_start (fun _ => trivial) h
    have hcode : ∀ pc, Reaches F.cells pc → pc ∈ F.graph.code := by
      intro pc hreaches
      rw [reaches_iff (Backs F.cells F.finish.blocks)] at hreaches
      obtain ⟨visited, hpath⟩ := FlowGraph.exists_path hreaches
      exact (FlowGraph.confined_inside _ _ (hpath.inside hholds)).1
    refine ⟨fun hend => Nat.lt_irrefl _ (lt_of_code (hcode _ hend)), fun pc hreaches hnext => ?_⟩
    obtain ⟨inst, hinst⟩ := hcode pc hreaches
    rw [hinst, ret_of_flowNext hinst hnext]

/-- The program with one function of its own. -/
def oneFunctionAst (function : ASTFunction) : AST :=
  { AST.initial with
    functions := Function.update AST.initial.functions AST.initial.functionsUsed function }

/-- `if true { return }`, without an `else`. -/
def guardedReturn : ASTBody :=
  .mk globalScope [.ifElse (.literalTrue 0) (.mk globalScope [.return none 0]) none 0]

/-- `fun f() { if true { return } }` -/
def guarded : AcceptedFunction where
  ast := oneFunctionAst { name := "f", body := some guardedReturn }
  f := AST.initial.functionsUsed
  bytecode := {}
  reporter := {}
  body := guardedReturn
  prim := fun _ _ => rfl
  isNative := by decide
  hasBody := by rfl
  accepted := by decide +kernel

/-- The last cell is the `ret` of the `if`, and the condition jumps behind it. -/
theorem guarded_off_end : ¬ ∀ F : AcceptedFunction, ¬ Reaches F.cells F.cells.length ∧
    ∀ pc, Reaches F.cells pc → flowNext F.cells pc = [] →
      F.cells[pc]? = some (.inst .ret) := by
  intro hall
  have hcells : guarded.cells = [.inst (.li .a), .imm 1, .inst (.jz .a), .imm 2, .inst .ret] := by
    decide +kernel
  have hends : Reaches guarded.cells guarded.cells.length := by
    rw [hcells]
    exact (Relation.ReflTransGen.single (b := 2) (by decide)).tail (by decide)
  exact (hall guarded).1 hends

/-! ## Returning with a value -/

/-- On every path to a `ret` the code of the value of a `return` has run for this `ret`, and no
path completes the body without a `return`. -/
def ReturnsValues : Prop :=
  (∀ visited pc, F.graph.Path 0 visited pc → F.cells[pc]? = some (.inst .ret) →
    ∃ l, Backs F.cells F.finish.blocks l pc ∧ ∀ x ∈ l, x ∈ visited) ∧
  ¬ Reaches F.cells F.cells.length

theorem returnsValues_iff (hreturn : F.function.returnType.Valid) :
    F.ReturnsValues ↔ F.control.completes = false ∧ F.control.returnsBare = false := by
  have hadds : ¬ F.AddsRet := fun h =>
    TypeId.not_valid_iff.mpr (F.finish_of_addsRet h).1 hreturn
  constructor
  · rintro ⟨hreturns, hoff⟩
    refine ⟨?_, ?_⟩
    · by_contra hcompletes
      exact hoff (F.reaches_end (Bool.eq_true_of_not_eq_false hcompletes) hadds)
    · by_contra hbare
      obtain ⟨l, hseg, hlaid⟩ := F.laid
      obtain ⟨a, hreaches, hret, hnone⟩ :=
        hlaid.reachesBare F.control (Bool.eq_true_of_not_eq_false hbare)
      obtain ⟨visited, hpath⟩ := FlowGraph.exists_path (hseg.reaches.trans hreaches)
      obtain ⟨l', hbacks, -⟩ := hreturns visited a hpath hret
      exact hnone l' hbacks
  · rintro ⟨hcompletes, hbare⟩
    have hholds : F.graph.Holds False (fun _ => False) 0 :=
      F.holds_start (by simp [hbare, hadds]) (.inl hcompletes)
    refine ⟨fun visited pc hpath hret => ?_, (F.never_off_end_iff.mpr (.inl hcompletes)).1⟩
    exact ((FlowGraph.confined_inside _ _ (hpath.inside hholds)).2.1 hret).resolve_left id

/-- `fun f() -> int { … }` with the return slot that `CheckFunction` gives it. -/
def intFunctionAst (body : ASTBody) : AST :=
  oneFunctionAst { name := "f", returnTypeString := "int", returnType := .int, returnOffset := -8
                   body := some body }

/-- `fun f() -> int { return 1 }` -/
def returnsOne : AcceptedFunction where
  ast := intFunctionAst (.mk globalScope [.return (some (.literalInt 1 0)) 0])
  f := AST.initial.functionsUsed
  bytecode := {}
  reporter := {}
  body := .mk globalScope [.return (some (.literalInt 1 0)) 0]
  prim := fun _ _ => rfl
  isNative := by decide
  hasBody := by rfl
  accepted := by decide +kernel

theorem returnsOne_returnsValues : returnsOne.ReturnsValues :=
  (returnsOne.returnsValues_iff (by decide)).mpr ⟨by decide +kernel, by decide +kernel⟩

/-- `fun f() -> int { return }` -/
def returnsNothing : AcceptedFunction where
  ast := intFunctionAst (.mk globalScope [.return none 0])
  f := AST.initial.functionsUsed
  bytecode := {}
  reporter := {}
  body := .mk globalScope [.return none 0]
  prim := fun _ _ => rfl
  isNative := by decide
  hasBody := by rfl
  accepted := by decide +kernel

/-- It is accepted, and no value was ever stored. -/
theorem not_returnsValues : ¬ ∀ F : AcceptedFunction, F.function.returnType.Valid →
    F.ReturnsValues := by
  intro hall
  have hreturns := hall returnsNothing (by decide)
  have hcells : returnsNothing.cells[2]? = some (.inst .ret) ∧
      flowNext returnsNothing.cells 0 = [1] ∧ flowNext returnsNothing.cells 1 = [2] := by
    decide +kernel
  have hreaches : Reaches returnsNothing.cells 2 := by
    refine (Relation.ReflTransGen.single (b := 1) ?_).tail ?_
    · rw [hcells.2.1]
      exact List.mem_cons_self
    · rw [hcells.2.2]
      exact List.mem_cons_self
  rw [reaches_iff (Backs returnsNothing.cells returnsNothing.finish.blocks)] at hreaches
  obtain ⟨visited, hpath⟩ := FlowGraph.exists_path hreaches
  obtain ⟨l, ⟨b, hb, -⟩, -⟩ := hreturns.1 visited 2 hpath hcells.1
  have hblocks : returnsNothing.finish.blocks.isEmpty = true := by decide +kernel
  rw [List.isEmpty_iff.mp hblocks] at hb
  exact absurd hb List.not_mem_nil

end AcceptedFunction

end TinCompiler
