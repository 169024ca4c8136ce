import TinCompiler.Generator.Laid

/-!
# Bodies are laid out as their blocks

The statements that leave their block, and then all statements, by induction over the syntax
tree (`generateBody_laid`).  A `return` records the code of its value only when that is
complete, so in between the context is not ready; the code is followed without the record,
which is added at the end.
-/

namespace TinCompiler

open GeneratorM

variable {c c₁ c₂ c₃ : GeneratorContext}

theorem straight_setFrameOffset (frame : ℤ) (h : Ready c) :
    Straightly c (setFrameOffset frame c).2 := .of_same h rfl h.prim rfl rfl

theorem straight_setScope (scopeId : ScopeId) (h : Ready c) :
    Straightly c (setScope scopeId c).2 := .of_same h rfl h.prim rfl rfl

theorem straight_recordStart (h : Ready c) : Straightly c (recordStart c).2 :=
  .of_same h rfl h.prim rfl rfl

theorem Lays.setFrameOffset {control : Control → Control} (h : Lays c c₁ control) (frame : ℤ) :
    Lays c (setFrameOffset frame c₁).2 control := by
  have hsame := straight_setFrameOffset frame h.1.ready
  exact ⟨h.1.trans hsame.ran, fun cells blocks pending breakPc hfin hpending =>
    h.2 cells blocks pending breakPc (hsame.back hfin) hpending⟩

/-! ## Leaving a loop -/

theorem loopTargets_of_getLast {loop : LoopScope} (h : c.loopScopes.getLast? = some loop)
    (breakPc : ℕ) : loopTargets breakPc c.loopScopes = some (loop.continuePc, breakPc) := by
  rw [loopTargets, h]
  rfl

theorem lays_continues {loop : LoopScope} (hlast : c.loopScopes.getLast? = some loop)
    (hready : Ready c) (hstraight : Straightly c c₁) :
    Lays c (c₁.withPiece (c₁.piece.emitJmp loop.continuePc)) fun _ => .continues := by
  obtain ⟨hran, hwords⟩ := emitJmp_ran hstraight.ran.ready loop.continuePc
  have hloops : (c₁.withPiece (c₁.piece.emitJmp loop.continuePc)).loopScopes = c.loopScopes :=
    hstraight.loops
  generalize c₁.withPiece (c₁.piece.emitJmp loop.continuePc) = c₂ at hran hwords hloops ⊢
  have hlen : c₂.words.length = c₁.words.length + 2 := by
    rw [hwords, List.length_append]
    rfl
  have hle := hstraight.length_le
  refine ⟨hstraight.ran.trans hran, fun cells blocks pending breakPc hfin hpending => ?_⟩
  have hfin₁ : Finishes cells blocks pending breakPc c₁ :=
    hfin.back hran (hfin.agrees.of_append ⟨_, hwords.symm⟩)
  refine ⟨hstraight.back hfin₁, fun _ _ _ => ?_⟩
  obtain ⟨l, hseg, -⟩ := hstraight.segment blocks hfin₁.agrees
  -- the immediate is no break, so it is as it was emitted
  have hnot : c₁.words.length + 1 ∉ pending := by
    refine hpending.not_mem (by omega) (by omega) fun hmem => ?_
    exact absurd (hready.breaks _ (hloops ▸ hmem)) (by omega)
  have hjump : c₂.words[c₁.words.length]? = some .jump := hwords ▸ getElem?_first _ _ _
  have htarget := hfin.agrees.exact (hwords ▸ getElem?_second _ _ _) hnot
  refine ⟨l, _, _, _, loopTargets_of_getLast hlast breakPc, hseg,
    jumps_of_jump (hfin.agrees.not_arg hjump (by simp)) htarget ?_⟩
  push_cast
  omega

theorem lays_continue (prevFrameOffset : ℤ) (location : SourceLocation) (h : Ready c)
    (herrors : (generateContinue prevFrameOffset location c).2.reporter.errors = 0) :
    Lays c (generateContinue prevFrameOffset location c).2 fun _ => .continues := by
  unfold generateContinue at herrors ⊢
  rw [getContext_bind_apply] at herrors ⊢
  cases hlast : c.loopScopes.getLast? with
  | none =>
      rw [hlast] at herrors
      exact absurd ((errors_failStatement _ _ _).symm.trans herrors) (Nat.succ_ne_zero _)
  | some loop =>
      have hstraight := straight_releaseTo loop.frameOffset h
      exact (lays_continues hlast h hstraight).setFrameOffset prevFrameOffset

/-- The jump of a `break`, with its target open. -/
def emitBreak (loop : LoopScope) (c : GeneratorContext) : GeneratorContext :=
  { c.withPiece c.piece.emitJmpReloc.2 with
    loopScopes := c.loopScopes.dropLast ++
      [{ loop with breaksToResolve := loop.breaksToResolve ++ [c.piece.emitJmpReloc.1] }] }

theorem emitBreak_ran {loop : LoopScope} (hlast : c.loopScopes.getLast? = some loop)
    (h : Ready c) : Ran c (emitBreak loop c) ∧
      (emitBreak loop c).words = c.words ++ [.jump, .arg 0] ∧
      c.words.length + 1 ∈ innerBreaks (emitBreak loop c).loopScopes := by
  obtain ⟨hran, hwords, hr⟩ := generateJmp_ran h
  have hr' : c.piece.emitJmpReloc.1 = c.words.length + 1 := hr
  have hwords' : (emitBreak loop c).words = c.words ++ [.jump, .arg 0] := hwords
  have hinner : innerBreaks (emitBreak loop c).loopScopes =
      loop.breaksToResolve ++ [c.words.length + 1] := by
    rw [← hr']
    exact innerBreaks_concat _ _
  have hlt : c.words.length + 1 < (emitBreak loop c).words.length := by
    rw [hwords', List.length_append]
    simp
  have hold : c.loopScopes = c.loopScopes.dropLast ++ [loop] :=
    (List.dropLast_append_getLast? loop hlast).symm
  refine ⟨⟨⟨hran.ready.coded, hran.ready.prim, hran.ready.results, fun r hr => ?_⟩, hran.words,
    .inr ⟨_, loop, [c.words.length + 1], hold, ?_, fun r hr => ?_⟩, hran.blocks⟩, hwords', ?_⟩
  · rw [hinner] at hr
    rcases List.mem_append.mp hr with hr | hr
    · have hlt' := h.breaks r (by rw [hold, innerBreaks_concat]; exact hr)
      omega
    · obtain rfl := List.mem_singleton.mp hr
      exact hlt
  · rw [← hr']
    rfl
  · obtain rfl := List.mem_singleton.mp hr
    exact ⟨Nat.le_succ _, 0, hwords' ▸ getElem?_second _ _ _⟩
  · rw [hinner]
    exact List.mem_append_right _ List.mem_cons_self

theorem lays_breaks {loop : LoopScope} (hlast : c.loopScopes.getLast? = some loop)
    (hstraight : Straightly c c₁) : Lays c (emitBreak loop c₁) fun _ => .breaks := by
  have hlast₁ : c₁.loopScopes.getLast? = some loop := hstraight.loops ▸ hlast
  obtain ⟨hran, hwords, hbreak⟩ := emitBreak_ran hlast₁ hstraight.ran.ready
  refine ⟨hstraight.ran.trans hran, fun cells blocks pending breakPc hfin _ => ?_⟩
  have hfin₁ : Finishes cells blocks pending breakPc c₁ :=
    hfin.back hran (hfin.agrees.of_append ⟨_, hwords.symm⟩)
  refine ⟨hstraight.back hfin₁, fun _ _ _ => ?_⟩
  obtain ⟨l, hseg, -⟩ := hstraight.segment blocks hfin₁.agrees
  have hjump : (emitBreak loop c₁).words[c₁.words.length]? = some .jump :=
    hwords ▸ getElem?_first _ _ _
  refine ⟨l, _, _, _, loopTargets_of_getLast hlast breakPc, hseg,
    jumps_of_jump (hfin.agrees.not_arg hjump (by simp)) (hfin.breaks _ hbreak) ?_⟩
  push_cast
  omega

theorem lays_break (prevFrameOffset : ℤ) (location : SourceLocation) (h : Ready c)
    (herrors : (generateBreak prevFrameOffset location c).2.reporter.errors = 0) :
    Lays c (generateBreak prevFrameOffset location c).2 fun _ => .breaks := by
  unfold generateBreak at herrors ⊢
  rw [getContext_bind_apply] at herrors ⊢
  cases hlast : c.loopScopes.getLast? with
  | none =>
      rw [hlast] at herrors
      exact absurd ((errors_failStatement _ _ _).symm.trans herrors) (Nat.succ_ne_zero _)
  | some loop =>
      have hstraight := straight_releaseTo loop.frameOffset h
      exact (lays_breaks hlast hstraight).setFrameOffset prevFrameOffset

/-! ## Returning -/

theorem emitRet_ran (h : Ready c) : Ran c (c.withPiece c.piece.emitRet) ∧
    (c.withPiece c.piece.emitRet).words = c.words ++ [.ret] := by
  have hsound : (⟨.ret, none⟩ : Op).Sound := ⟨rfl, by simp⟩
  exact h.emitOp hsound (fun ops hasm => hasm.emit _) rfl rfl rfl

/-- The `ret` and what is emitted in front of it. -/
theorem returns_back {cells : List Cell} {pending : Set ℕ} (blocks : List Block)
    (hstraight : Straightly c c₁)
    (hagrees : Agrees cells pending (c₁.withPiece c₁.piece.emitRet).words) :
    ∃ l, (pieceGraph cells blocks).Segment c.words.length l c₁.words.length ∧
      (∀ k, c.words.length ≤ k → k < c₁.words.length → cells[k]? ≠ some (.inst .ret)) ∧
      c₁.words.length ∈ (pieceGraph cells blocks).code ∧
      c₁.words.length ∈ (pieceGraph cells blocks).returns ∧
      (pieceGraph cells blocks).next c₁.words.length = ∅ := by
  obtain ⟨-, hwords⟩ := emitRet_ran hstraight.ran.ready
  obtain ⟨l, hseg, hmem⟩ := hstraight.segment blocks (hagrees.of_append ⟨_, hwords.symm⟩)
  have hret : (c₁.withPiece c₁.piece.emitRet).words[c₁.words.length]? = some .ret := by
    rw [hwords]
    exact List.getElem?_concat_length
  refine ⟨l, hseg, fun k hlow hhigh hk => ?_, returns_of_ret (hagrees.not_arg hret (by simp))⟩
  obtain ⟨_, hjumps⟩ := hseg.jumps_of_mem ((hmem k).mpr ⟨⟨hlow, hhigh⟩, _, hk⟩)
  exact hjumps.2.1 hk

/-- A `return` without a value: the last value that was returned before it has a `ret` of its
own. -/
theorem lays_returns (hstraight : Straightly c c₁) :
    Lays c (c₁.withPiece c₁.piece.emitRet) fun _ => .returns false := by
  obtain ⟨hran, hwords⟩ := emitRet_ran hstraight.ran.ready
  have hran' := hstraight.ran.trans hran
  refine ⟨hran', fun cells blocks pending breakPc hfin _ => ?_⟩
  have hfin₁ : Finishes cells blocks pending breakPc c₁ :=
    hfin.back hran (hfin.agrees.of_append ⟨_, hwords.symm⟩)
  have hfin₀ := hstraight.back hfin₁
  refine ⟨hfin₀, fun _ _ _ => ?_⟩
  obtain ⟨l, hseg, -, hcode, hreturns, hnext⟩ := returns_back blocks hstraight hfin.agrees
  refine ⟨l, _, [], _, hseg, .nil _, hcode, hreturns, hnext, ?_⟩
  rintro l' ⟨b, hb, hresult, hstop, hnone, -⟩
  obtain ⟨later, heq, hlater⟩ := hfin.blocks
  rw [heq] at hb
  rcases List.mem_append.mp hb with hb | hb
  · obtain ⟨r, hr, hret⟩ := hstraight.ran.ready.results b hb hresult
    have hlt := (List.getElem?_eq_some_iff.mp hret).1
    have hret' : r ∈ (pieceGraph cells blocks).returns :=
      (returns_of_ret (hfin₁.agrees.not_arg hret (by simp))).2.1
    exact hnone r hr hlt hret'
  · have hlen : (c₁.withPiece c₁.piece.emitRet).words.length = c₁.words.length + 1 := by
      rw [hwords, List.length_append]
      rfl
    have hlow := hlater b hb
    omega

/-- The context once the value of a `return` is recorded. -/
def recordResult (statement : ASTStatement) (start stop : ℕ) (c : GeneratorContext) :
    GeneratorContext :=
  { c with blocks := c.blocks ++ [⟨start, stop, .result statement⟩] }

/-- A `return` with a value: between the code of the value and the `ret` there is no other. -/
theorem lays_returns_value (statement : ASTStatement) (hresult : Straightly c c₁)
    (hstraight : Straightly c₁ c₂) :
    Lays c (recordResult statement c.words.length c₁.words.length
      (c₂.withPiece c₂.piece.emitRet)) fun _ => .returns true := by
  obtain ⟨hran, hwords⟩ := emitRet_ran hstraight.ran.ready
  generalize hc₃ : c₂.withPiece c₂.piece.emitRet = c₃ at hran hwords
  have hran' := hresult.ran.trans (hstraight.ran.trans hran)
  have hle := hresult.length_le
  have hle₂ := hstraight.length_le
  have hret : c₃.words[c₂.words.length]? = some .ret := by
    rw [hwords]
    exact List.getElem?_concat_length
  have hrecorded : Ran c (recordResult statement c.words.length c₁.words.length c₃) := by
    obtain ⟨new, heq, hnew⟩ := hran'.blocks
    refine ⟨⟨hran'.ready.coded, hran'.ready.prim, fun b hb hkind => ?_, hran'.ready.breaks⟩,
      hran'.words, hran'.loops,
      new ++ [⟨c.words.length, c₁.words.length, .result statement⟩], ?_, fun b hb => ?_⟩
    · rcases List.mem_append.mp hb with hb | hb
      · exact hran'.ready.results b hb hkind
      · obtain rfl := List.mem_singleton.mp hb
        exact ⟨_, hle₂, hret⟩
    · change c₃.blocks ++ _ = _
      rw [heq, List.append_assoc]
    · rcases List.mem_append.mp hb with hb | hb
      · exact hnew b hb
      · obtain rfl := List.mem_singleton.mp hb
        exact ⟨Nat.le_refl _, hle⟩
  refine ⟨hrecorded, fun cells blocks pending breakPc hfin _ => ?_⟩
  have hagrees : Agrees cells pending c₃.words := hfin.agrees
  have hagrees₂ := hagrees.of_append ⟨_, hwords.symm⟩
  obtain ⟨new, -, hnew⟩ := hstraight.straight
  have hagrees₁ := hagrees₂.of_append ⟨new, hnew.symm⟩
  obtain ⟨new', -, hnew'⟩ := hresult.straight
  refine ⟨hfin.back hrecorded (hagrees₁.of_append ⟨new', hnew'.symm⟩), fun _ _ _ => ?_⟩
  obtain ⟨l, hseg, hmem⟩ := hresult.segment blocks hagrees₁
  rw [← hc₃] at hagrees
  obtain ⟨l', hseg', hnone, hcode, hreturns, hnext⟩ := returns_back blocks hstraight hagrees
  refine ⟨l, _, l', _, hseg, hseg', hcode, hreturns, hnext, ?_⟩
  obtain ⟨later, heq, -⟩ := hfin.blocks
  refine ⟨⟨c.words.length, c₁.words.length, .result statement⟩, ?_, ⟨statement, rfl⟩, hle₂, hnone,
    hmem⟩
  rw [heq]
  exact List.mem_append_left _ (List.mem_append_right _ List.mem_cons_self)

theorem releaseTo_recordResult (statement : ASTStatement) (start stop : ℕ) (frame : ℤ)
    (c : GeneratorContext) : (releaseTo frame (recordResult statement start stop c)).2 =
      recordResult statement start stop (releaseTo frame c).2 := by
  unfold releaseTo
  rw [getContext_bind_apply, getContext_bind_apply, GeneratorM.ite_apply, GeneratorM.ite_apply]
  change (if c.currentFrameOffset ≠ frame then _ else _ : Unit × GeneratorContext).2 = _
  split <;> rfl

theorem lays_return (prevFrameOffset : ℤ) (e : Option ASTExpression) (location : SourceLocation)
    (h : Ready c)
    (herrors : (generateReturn prevFrameOffset e location c).2.reporter.errors = 0) :
    Lays c (generateReturn prevFrameOffset e location c).2 fun _ => .returns e.isSome := by
  cases e with
  | none =>
      have hstraight := straight_releaseTo 0 h
      exact (lays_returns hstraight).setFrameOffset prevFrameOffset
  | some e =>
      have hrecord : withBlock (.result (.return (some e) location)) (generateResult e location) c =
          ((generateResult e location c).1, recordResult (.return (some e) location) c.words.length
            (generateResult e location c).2.words.length (generateResult e location c).2) := by
        rw [c.length_words, GeneratorContext.length_words]
        rfl
      unfold generateReturn at herrors ⊢
      dsimp only at herrors ⊢
      rw [bind_apply, hrecord] at herrors ⊢
      dsimp only at herrors ⊢
      by_cases hnext : (generateResult e location c).1 = .next
      · rw [if_pos hnext] at herrors ⊢
        have hle := (GeneratorM.Keeps.releaseTo 0 (recordResult (.return (some e) location)
          c.words.length (generateResult e location c).2.words.length
          (generateResult e location c).2)).errors
        have hquiet : (generateResult e location c).2.reporter.errors = 0 :=
          Nat.le_zero.mp (Nat.le_trans hle (Nat.le_of_eq herrors))
        obtain ⟨-, hresult⟩ := straight_result e location h hquiet
        have hlays := lays_returns_value (.return (some e) location) hresult
          (straight_releaseTo 0 hresult.ran.ready)
        rw [bind_apply, releaseTo_recordResult]
        exact hlays.setFrameOffset prevFrameOffset
      · rw [if_neg hnext] at herrors
        exact absurd (straight_result e location h herrors).1 hnext

/-! ## The recursion -/

theorem LaysBlock.of_same {control : Control} (hsame : Straightly c c₁)
    (hwords : c₁.words = c.words) (h : LaysBlock c₁ c₂ control) : LaysBlock c c₂ control := by
  refine ⟨hsame.ran.trans h.1, fun cells blocks pending breakPc hfin hpending => ?_⟩
  obtain ⟨hfin₁, hlaid⟩ := h.2 cells blocks pending breakPc hfin
    (hpending.right (Nat.le_of_eq (by rw [hwords])))
  rw [hwords, hsame.loops] at hlaid
  exact ⟨hsame.back hfin₁, hlaid⟩

/-- Straight code behind a block. -/
theorem LaysBlock.extend {control : Control} (h : LaysBlock c c₁ control)
    (hstraight : Straightly c₁ c₂) : LaysBlock c c₂ control := by
  refine ⟨h.1.trans hstraight.ran, fun cells blocks pending breakPc hfin hpending => ?_⟩
  obtain ⟨hfin₀, hlaid⟩ := h.2 cells blocks pending breakPc (hstraight.back hfin)
    (hpending.left hstraight.ran)
  obtain ⟨l, hseg, -⟩ := hstraight.segment blocks hfin.agrees
  exact ⟨hfin₀, hlaid.extend control hseg⟩

theorem lays_withBlock {x : GeneratorM StatementResult} {kind : BlockKind}
    (hkind : ∀ statement, kind ≠ .result statement) (h : Straightly c (x c).2) :
    Straightly c (withBlock kind x c).2 := h.addBlock hkind

theorem ready_pushLoop (h : Ready c) : Ready (pushLoop c).2 := by
  refine ⟨h.coded, h.prim, h.results, fun r hr => ?_⟩
  have hinner : innerBreaks (pushLoop c).2.loopScopes = [] := innerBreaks_concat _ _
  rw [hinner] at hr
  exact absurd hr List.not_mem_nil

theorem ready_else (hcond : Straightly c c₁) (hran : Ran (generateJz c₁).2 c₂) :
    Ready (fixJump (generateJz c₁).1 c₂).2 := by
  obtain ⟨-, -, hr⟩ := generateJz_ran hcond.ran.ready
  obtain ⟨v, harg⟩ := exists_arg_of_jz hcond hran
  rw [hr]
  exact (hran.ready.fixJumpHere harg).ready

mutual

theorem generateBody_laid : ∀ (body : ASTBody) {c : GeneratorContext}, Ready c →
    (generateBody body c).2.reporter.errors = 0 →
      LaysBlock c (generateBody body c).2 (controlOfBody body c)
  | .mk scopeId statements, c, h, herrors => by
      have hscope := straight_setScope scopeId h
      unfold generateBody at herrors ⊢
      unfold controlOfBody
      rw [getContext_bind_apply, bind_apply, bind_apply] at herrors ⊢
      have hrest (completed : Bool) : (if completed = true then do
            releaseTo c.currentFrameOffset
            setFrameOffset c.currentFrameOffset
            setScope c.currentScopeId
            return true
          else do
            setScope c.currentScopeId
            return false : GeneratorM Bool).Keeps := by
        split
        · exact (GeneratorM.Keeps.releaseTo _).bind fun _ =>
            (GeneratorM.Keeps.setFrameOffset _).bind fun _ =>
              (GeneratorM.Keeps.setScope _).bind fun _ => .pure _
        · exact (GeneratorM.Keeps.setScope _).bind fun _ => .pure _
      have hquiet := Nat.le_zero.mp (Nat.le_trans (hrest _ _).errors (Nat.le_of_eq herrors))
      have hstatements := generateStatements_laid c.currentFrameOffset statements
        hscope.ran.ready hquiet
      refine .of_same hscope rfl (hstatements.extend ?_)
      have hready := hstatements.1.ready
      rw [GeneratorM.ite_apply]
      split
      · have hrelease := straight_releaseTo c.currentFrameOffset hready
        have hframe := straight_setFrameOffset c.currentFrameOffset hrelease.ran.ready
        exact hrelease.trans (hframe.trans (straight_setScope c.currentScopeId hframe.ran.ready))
      · exact straight_setScope c.currentScopeId hready

theorem generateStatements_laid (prevFrameOffset : ℤ) : ∀ (statements : List ASTStatement)
    {c : GeneratorContext}, Ready c →
    (generateStatements prevFrameOffset statements c).2.reporter.errors = 0 →
      LaysBlock c (generateStatements prevFrameOffset statements c).2
        (controlOfStatements prevFrameOffset statements c)
  | [], c, h, _ => by
      unfold generateStatements controlOfStatements
      exact .done h
  | statement :: rest, c, h, herrors => by
      have hstart := straight_recordStart h
      unfold generateStatements at herrors ⊢
      unfold controlOfStatements
      rw [bind_apply, bind_apply] at herrors ⊢
      refine .of_same hstart rfl ?_
      dsimp only
      generalize (recordStart c).2 = c₁ at hstart herrors ⊢
      cases hresult : (generateStatement prevFrameOffset statement c₁).1 with
      | next =>
          rw [hresult] at herrors
          have hle := (GeneratorM.Keeps.generateStatements prevFrameOffset rest
            (generateStatement prevFrameOffset statement c₁).2).errors
          have hlays := generateStatement_lays prevFrameOffset statement hstart.ran.ready
            (Nat.le_zero.mp (Nat.le_trans hle (Nat.le_of_eq herrors)))
          rw [if_pos rfl]
          exact hlays.append (generateStatements_laid prevFrameOffset rest hlays.1.ready herrors)
      | stop =>
          rw [hresult] at herrors
          rw [if_neg (by decide)]
          exact (generateStatement_lays prevFrameOffset statement hstart.ran.ready herrors).last
      | failed =>
          rw [hresult] at herrors
          rw [if_neg (by decide)]
          exact (generateStatement_lays prevFrameOffset statement hstart.ran.ready herrors).last

theorem generateStatement_lays (prevFrameOffset : ℤ) : ∀ (statement : ASTStatement)
    {c : GeneratorContext}, Ready c →
    (generateStatement prevFrameOffset statement c).2.reporter.errors = 0 →
      Lays c (generateStatement prevFrameOffset statement c).2 (controlOfStatement statement c)
  | .expression e location, c, h, herrors => by
      unfold generateStatement at herrors ⊢
      have hstraight := straight_expressionStatement e h herrors
      exact (lays_withBlock (by simp) hstraight).lays
  | .globalDeclaration type name _ location, c, h, herrors => by
      unfold generateStatement at herrors ⊢
      exact (straight_globalDeclaration type name location h herrors).2.lays
  | .constDeclaration type name e location, c, h, herrors => by
      unfold generateStatement at herrors ⊢
      exact (straight_constDeclaration type name location _ h herrors).2.lays
  | .varDeclaration type name e location, c, h, herrors => by
      unfold generateStatement at herrors ⊢
      have hstraight := (straight_varDeclaration type name e location h herrors).2
      exact (lays_withBlock (by simp) hstraight).lays
  | .while condition body _, c, h, herrors => by
      unfold generateStatement at herrors ⊢
      rw [bind_apply, bind_apply] at herrors ⊢
      have hready : Ready (pushLoop c).2 := ready_pushLoop h
      have hrest (accepted : Bool) : (if accepted = true then do
            let reloc ← generateJz
            let _ ← generateBody body
            closeLoop (pushLoop c).1 reloc
            return .next
          else return .failed : GeneratorM StatementResult).Keeps := by
        split
        · exact GeneratorM.Keeps.generateJz.bind fun _ => (GeneratorM.Keeps.generateBody body).bind
            fun _ => (GeneratorM.Keeps.closeLoop _ _).bind fun _ => .pure _
        · exact .pure _
      have hquiet := Nat.le_zero.mp (Nat.le_trans (hrest _ _).errors (Nat.le_of_eq herrors))
      obtain ⟨hcond, hstraight⟩ := straight_condition condition "while" hready hquiet
      rw [hcond] at herrors ⊢
      rw [GeneratorM.ite_apply, if_pos rfl, bind_apply, bind_apply, bind_apply] at herrors ⊢
      have hle := (GeneratorM.Keeps.closeLoop (pushLoop c).1
        (generateJz (generateCondition condition "while" (pushLoop c).2).2).1
        (generateBody body (branchContext condition "while" (pushLoop c).2)).2).errors
      have hbody := generateBody_laid body (generateJz_ran hstraight.ran.ready).1.ready
        (Nat.le_zero.mp (Nat.le_trans hle (Nat.le_of_eq herrors)))
      exact lays_while h hstraight hbody
  | .ifElse condition body none _, c, h, herrors => by
      unfold generateStatement at herrors ⊢
      rw [bind_apply] at herrors ⊢
      have hrest (accepted : Bool) : (if accepted = true then do
            let reloc ← generateJz
            let _ ← generateBody body
            fixJump reloc
            return .next
          else return .failed : GeneratorM StatementResult).Keeps := by
        split
        · exact GeneratorM.Keeps.generateJz.bind fun _ => (GeneratorM.Keeps.generateBody body).bind
            fun _ => (GeneratorM.Keeps.emit _).bind fun _ => .pure _
        · exact .pure _
      have hquiet := Nat.le_zero.mp (Nat.le_trans (hrest _ _).errors (Nat.le_of_eq herrors))
      obtain ⟨hcond, hstraight⟩ := straight_condition condition "if" h hquiet
      rw [hcond] at herrors ⊢
      rw [GeneratorM.ite_apply, if_pos rfl] at herrors ⊢
      have hbody := generateBody_laid body (generateJz_ran hstraight.ran.ready).1.ready herrors
      exact lays_ifThen hstraight hbody
  | .ifElse condition body (some elseBody) _, c, h, herrors => by
      unfold generateStatement at herrors ⊢
      rw [bind_apply] at herrors ⊢
      have hrest (accepted : Bool) : (if accepted = true then do
            let reloc ← generateJz
            let _ ← generateBody body
            let relocEnd ← generateJmp
            fixJump reloc
            let _ ← generateBody elseBody
            fixJump relocEnd
            return .next
          else return .failed : GeneratorM StatementResult).Keeps := by
        split
        · exact GeneratorM.Keeps.generateJz.bind fun _ => (GeneratorM.Keeps.generateBody body).bind
            fun _ => GeneratorM.Keeps.generateJmp.bind fun _ => (GeneratorM.Keeps.emit _).bind
              fun _ => (GeneratorM.Keeps.generateBody elseBody).bind fun _ =>
                (GeneratorM.Keeps.emit _).bind fun _ => .pure _
        · exact .pure _
      have hquiet := Nat.le_zero.mp (Nat.le_trans (hrest _ _).errors (Nat.le_of_eq herrors))
      obtain ⟨hcond, hstraight⟩ := straight_condition condition "if" h hquiet
      rw [hcond] at herrors ⊢
      rw [GeneratorM.ite_apply, if_pos rfl] at herrors ⊢
      have herrors' : (generateBody elseBody (elseContext condition body c)).2.reporter.errors = 0 :=
        herrors
      have hle := (GeneratorM.Keeps.generateBody elseBody (elseContext condition body c)).errors
      have hbody := generateBody_laid body (generateJz_ran hstraight.ran.ready).1.ready
        (Nat.le_zero.mp (Nat.le_trans hle (Nat.le_of_eq herrors')))
      have helse : Ready (elseContext condition body c) :=
        ready_else hstraight (hbody.1.trans (generateJmp_ran hbody.1.ready).1)
      exact lays_ifElse hstraight hbody (generateBody_laid elseBody helse herrors')
  | .break location, c, h, herrors => by
      unfold generateStatement at herrors ⊢
      exact lays_break prevFrameOffset location h herrors
  | .continue location, c, h, herrors => by
      unfold generateStatement at herrors ⊢
      exact lays_continue prevFrameOffset location h herrors
  | .return e location, c, h, herrors => by
      unfold generateStatement at herrors ⊢
      exact lays_return prevFrameOffset e location h herrors

end

end TinCompiler
