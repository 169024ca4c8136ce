import TinCompiler.Expressions.Stack

/-!
# Where a void is used

The generator gives up without a report where it expects the report of something inside: at a
member, an assignment or an increment whose type is void.  But a call of a function without a
result and the target of a `void*` are void without a report.  `NoVoid` says of an expression,
from the types alone, that no such value is used there; without a report, nothing is given up
exactly then (`generateExpression_whole`).
-/

namespace TinCompiler

open GeneratorM

/-! ## Giving up -/

namespace GeneratorM

variable {α β : Type}

/-- Nothing of `x` is given up. -/
def Whole (x : GeneratorM α) (c : GeneratorContext) : Prop := (x c).2.abandoned = c.abandoned

/-- If `x` reports nothing, and nothing was reported before, then `p` decides whether nothing of
it is given up. -/
def WholeIff (x : GeneratorM α) (c : GeneratorContext) (p : Prop) : Prop :=
  c.reporter.errors = 0 → x.Quiet c → (x.Whole c ↔ p)

/-- Nothing of `x` is given up without a report. -/
structure Reports (x : GeneratorM α) : Prop where
  framed : x.Framed
  whole : ∀ c, x.WholeIff c True

variable {x : GeneratorM α} {f : α → GeneratorM β} {c : GeneratorContext} {p q : Prop}

/-- What is given up is not taken back. -/
theorem whole_bind (hx : x.Framed) (hf : ∀ a, (f a).Framed) :
    (x >>= f).Whole c ↔ x.Whole c ∧ (f (x c).1).Whole (x c).2 := by
  have hfirst := (hx c).abandoned
  have hsecond := (hf (x c).1 (x c).2).abandoned
  constructor
  · intro h
    have hsame : (f (x c).1 (x c).2).2.abandoned = c.abandoned := h
    have hwhole : x.Whole c := (hsame ▸ hsecond).eq_of_length_le hfirst.length_le
    exact ⟨hwhole, hsame.trans hwhole.symm⟩
  · exact fun h => Eq.trans h.2 h.1

/-- The two cases behind a place that may not be found. -/
theorem framed_option {f : Option α → GeneratorM β} (hnone : (f none).Framed)
    (hsome : ∀ a, (f (some a)).Framed) : ∀ found, (f found).Framed
  | none => hnone
  | some a => hsome a

namespace WholeIff

theorem congr (h : x.WholeIff c p) (hiff : p ↔ q) : x.WholeIff c q :=
  fun herrors hquiet => (h herrors hquiet).trans hiff

theorem bind (hx : x.Framed) (hf : ∀ a, (f a).Framed) (h : x.WholeIff c p)
    (h' : (f (x c).1).WholeIff (x c).2 q) : (x >>= f).WholeIff c (p ∧ q) := by
  intro herrors hquiet
  obtain ⟨hfirst, hsecond⟩ := hquiet.of_bind hx hf
  have herrors' : (x c).2.reporter.errors = 0 := by
    have hreporter : (x c).2.reporter = c.reporter := hfirst
    rw [hreporter, herrors]
  rw [whole_bind hx hf, h herrors hfirst, h' herrors' hsecond]

theorem thenReports (hx : x.Framed) (h : x.WholeIff c p) (hf : ∀ a, (f a).Reports) :
    (x >>= f).WholeIff c p :=
  (h.bind hx (fun a => (hf a).framed) ((hf _).whole _)).congr (iff_of_eq (and_true p))

theorem of_not_quiet (h : ¬ x.Quiet c) : x.WholeIff c p := fun _ hquiet => absurd hquiet h

theorem of_whole (h : x.Whole c) (hp : p) : x.WholeIff c p := fun _ _ => iff_of_true h hp

theorem read {f : GeneratorContext → GeneratorM β} (h : (f c).WholeIff c p) :
    (getContext >>= f).WholeIff c p := h

theorem giveUp (location : SourceLocation) (hp : ¬ p) : (giveUp location).WholeIff c p := by
  refine fun _ _ => iff_of_false (fun h => ?_) hp
  have hlength := congrArg List.length h
  simp [TinCompiler.giveUp, abandon] at hlength

end WholeIff

namespace Reports

theorem pure (a : α) : (Pure.pure a : GeneratorM α).Reports :=
  ⟨.pure a, fun _ => .of_whole rfl trivial⟩

theorem getContext : getContext.Reports := ⟨.getContext, fun _ => .of_whole rfl trivial⟩

theorem emit (f : BytecodePiece → BytecodePiece) : (emit f).Reports :=
  ⟨.emit f, fun _ => .of_whole rfl trivial⟩

theorem popValue (reg : Register) (offset : ℤ) (type : TypeId) : (popValue reg offset type).Reports :=
  ⟨.popValue _ _ _, fun _ => .of_whole rfl trivial⟩

theorem pushValue (reg : Register) (offset : ℤ) (type : TypeId) :
    (pushValue reg offset type).Reports :=
  ⟨.pushValue _ _ _, fun _ => .of_whole rfl trivial⟩

theorem bind (hx : x.Reports) (hf : ∀ a, (f a).Reports) : (x >>= f).Reports :=
  ⟨hx.framed.bind fun a => (hf a).framed, fun c => (hx.whole c).thenReports hx.framed hf⟩

theorem failWith (location : SourceLocation) (message : String) : (failWith location message).Reports :=
  ⟨.failWith _ _, fun c => .of_not_quiet (not_quiet_failWith _ _ c)⟩

theorem report (location : SourceLocation) (message : String) {f : Unit → GeneratorM β}
    (hf : (f ()).Framed) : (TinCompiler.report location message >>= f).Reports :=
  ⟨(Framed.report _ _).bind fun _ => hf, fun c => .of_not_quiet (not_quiet_report _ _ hf c)⟩

/-! ### The nodes -/

theorem performCast (ltype rtype : TypeId) : (performCast ltype rtype).Reports := by
  unfold TinCompiler.performCast
  split
  · exact pure false
  · exact (emit _).bind fun _ => pure true

theorem generateConst (e : ASTExpression) : (generateConst e).Reports := by
  unfold TinCompiler.generateConst
  split
  · refine getContext.bind fun c => ?_
    dsimp only
    split
    · exact (emit _).bind fun _ => pure _
    · exact report _ _ ((Framed.abandon _).bind fun _ => .pure _)
  · exact (emit _).bind fun _ => pure _
  · exact (emit _).bind fun _ => pure _
  · refine getContext.bind fun c => ?_
    exact bind ⟨.setBytecode _, fun _ => .of_whole rfl trivial⟩ fun _ =>
      (emit _).bind fun _ => pure _
  all_goals first | exact (emit _).bind fun _ => pure _ | exact pure _

theorem generateIdentifier (name : String) (location : SourceLocation) :
    (generateIdentifier name location).Reports := by
  refine getContext.bind fun c => ?_
  split
  · exact failWith _ _
  · split
    · exact (pushValue _ _ _).bind fun _ => pure _
    · exact (emit _).bind fun _ => (pushValue _ _ _).bind fun _ => pure _
    · split
      · split
        · exact generateConst _
        · exact failWith _ _
      · exact failWith _ _

theorem generateBinary (kind : BinaryKind) (location : SourceLocation) (ltype rtype : TypeId) :
    (generateBinary kind location ltype rtype).Reports := by
  refine ⟨.generateBinary _ _ _ _, fun c herrors => ?_⟩
  refine WholeIff.read ?_ herrors
  split
  · exact ((emit _).bind fun _ => pure _).whole c
  · -- the operands have not failed
    rw [if_pos (.inl herrors)]
    exact (failWith _ _).whole c

theorem generateNot (type : TypeId) : (generateNot type).Reports := (emit _).bind fun _ => pure _

theorem generateDeref (location : SourceLocation) (type : TypeId) :
    (generateDeref location type).Reports := by
  unfold TinCompiler.generateDeref
  split
  · exact failWith _ _
  · exact (emit _).bind fun _ => (pushValue _ _ _).bind fun _ => pure _

theorem generateIndex (location : SourceLocation) (rtype ltype : TypeId) :
    (generateIndex location rtype ltype).Reports := by
  refine getContext.bind fun c => ?_
  split
  · exact failWith _ _
  · split
    · exact failWith _ _
    · exact (emit _).bind fun _ => (pushValue _ _ _).bind fun _ => pure _

theorem generateCast (name : String) (location : SourceLocation) (type : TypeId) :
    (generateCast name location type).Reports := by
  refine getContext.bind fun c => ?_
  dsimp only
  split
  · exact (emit _).bind fun _ => pure _
  · exact failWith _ _

theorem checkArguments (location : SourceLocation) :
    ∀ (i : ℕ) (parameters : List Parameter) (types : List TypeId),
      (checkArguments location i parameters types).Reports
  | i, parameter :: parameters, type :: types => by
      unfold TinCompiler.checkArguments
      split
      · exact checkArguments location (i + 1) parameters types
      · exact getContext.bind fun _ => report _ _ ((Framed.checkArguments _ _ _ _).bind fun _ => .pure _)
  | _, [], _ => by unfold TinCompiler.checkArguments; exact pure _
  | _, _ :: _, [] => by unfold TinCompiler.checkArguments; exact pure _

theorem finishCall (name : String) (location : SourceLocation) (f : ℕ) (function : ASTFunction)
    (argOffset : ℤ) (types : List TypeId) :
    (finishCall name location f function argOffset types).Reports := by
  refine ⟨.finishCall _ _ _ _ _ _, fun c herrors hquiet => ?_⟩
  obtain ⟨hlength, hfit, -⟩ := finishCall_moves name location f function argOffset hquiet
  have hfailed : (TinCompiler.checkArguments location 0 function.parameters types c).1 = false := by
    rw [checkArguments_fst]
    simp [hfit]
  unfold TinCompiler.finishCall at hquiet ⊢
  rw [if_neg (not_not.mpr hlength)] at hquiet ⊢
  have hrest (failed : Bool) : (if failed = true then TinCompiler.giveUp location
      else do
        let c ← TinCompiler.getContext
        TinCompiler.emit (emitCallSequence c.ast f function (c.piece.virtualSp - argOffset))
        Pure.pure function.returnType).Framed := by
    split
    · exact .giveUp _
    · exact Framed.getContext.bind fun _ => (Framed.emit _).bind fun _ => .pure _
  refine (whole_bind (Framed.checkArguments _ _ _ _) hrest).trans (iff_true_intro ⟨?_, ?_⟩)
  · exact ((checkArguments _ _ _ _).whole c herrors
      (hquiet.of_bind (Framed.checkArguments _ _ _ _) hrest).1).mpr trivial
  · rw [hfailed]
    rfl

/-! ### Places -/

theorem placeIdentifier (name : String) (location : SourceLocation) :
    (placeIdentifier name location).Reports := by
  refine getContext.bind fun c => ?_
  split
  · exact report _ _ (.pure _)
  · split
    · exact pure _
    · exact (emit _).bind fun _ => pure _
    · exact report _ _ (.pure _)

theorem placeMember (previous name : String) (location : SourceLocation) (place : Place) :
    (placeMember previous name location place).Reports := by
  refine getContext.bind fun c => ?_
  split
  · split
    · exact report _ _ (.pure _)
    · split
      · exact pure _
      · exact (emit _).bind fun _ => pure _
  · exact report _ _ (.pure _)

theorem finishElement (location : SourceLocation) (place : Place) (rtype : TypeId) :
    (finishElement location place rtype).Reports := by
  refine getContext.bind fun c => ?_
  split
  · exact report _ _ (.pure _)
  · exact (emit _).bind fun _ => pure _

end Reports

namespace WholeIff

variable {place : GeneratorM (Option Place)} {next : Place → GeneratorM (Option Place)}

theorem afterReports (hx : x.Reports) (hf : ∀ a, (f a).Framed)
    (h : (f (x c).1).WholeIff (x c).2 p) : (x >>= f).WholeIff c p :=
  ((hx.whole c).bind hx.framed hf h).congr (iff_of_eq (true_and p))

theorem placeIndex (location : SourceLocation) {right : GeneratorM TypeId} (hright : right.Framed)
    (h : ∀ c', c'.ast = c.ast → c'.currentScopeId = c.currentScopeId → right.WholeIff c' p)
    (place : Place) : (placeIndex location right place).WholeIff c p := by
  unfold TinCompiler.placeIndex
  split
  · refine afterReports (.emit _) (fun _ => hright.bind fun _ => .finishElement _ _ _) ?_
    have hindex := h (emit (fun piece => (emitLoadPointer place piece).emitPush .b) c).2 rfl rfl
    exact hindex.thenReports hright fun _ => .finishElement _ _ _
  · exact of_not_quiet (not_quiet_report _ _ (.pure _) c)

/-- A place is found when nothing is reported. -/
theorem bindPlace (hplace : place.Framed) (hnext : ∀ place', (next place').Framed)
    (hfound : place.Quiet c → (place c).1.isSome) (h : place.WholeIff c p)
    (h' : ∀ place', (next place').WholeIff (place c).2 q) :
    (bindPlace place next).WholeIff c (p ∧ q) := by
  unfold TinCompiler.bindPlace
  intro herrors hquiet
  obtain ⟨hquiet', -⟩ := hquiet.of_bind hplace (framed_option (.pure none) hnext)
  obtain ⟨place', heq⟩ := Option.isSome_iff_exists.mp (hfound hquiet')
  refine h.bind hplace (framed_option (.pure none) hnext) ?_ herrors hquiet
  rw [heq]
  exact h' place'

theorem referenceTo (location : SourceLocation) {invalid : Option SourceLocation}
    (hplace : place.Framed) (hfound : invalid = none → place.Quiet c → (place c).1.isSome)
    (h : invalid = none → place.WholeIff c p) :
    (referenceTo location invalid place).WholeIff c p := by
  cases invalid with
  | some location => exact of_not_quiet (not_quiet_failWith _ _ c)
  | none =>
      unfold TinCompiler.referenceTo
      have haddress (place : Place) : (do
          TinCompiler.emit (emitAddress place)
          Pure.pure place.type).Framed := (Framed.emit _).bind fun _ => .pure _
      intro herrors hquiet
      obtain ⟨hquiet', -⟩ := hquiet.of_bind hplace (framed_option (.giveUp location) haddress)
      obtain ⟨place', heq⟩ := Option.isSome_iff_exists.mp (hfound rfl hquiet')
      refine (((h rfl).bind hplace (framed_option (.giveUp location) haddress) (q := True) ?_).congr
        (iff_of_eq (and_true p))) herrors hquiet
      rw [heq]
      exact ((Reports.emit _).bind fun _ => .pure _).whole _

theorem generateMemberValue (location : SourceLocation) (type : TypeId) :
    (generateMemberValue location type).WholeIff c type.Valid := by
  unfold TinCompiler.generateMemberValue
  split
  · exact of_whole rfl ‹_›
  · exact giveUp _ ‹_›

theorem generateAssign (location : SourceLocation) (rtype ltype : TypeId) :
    (generateAssign location rtype ltype).WholeIff c (ltype.Valid ∧ rtype.Valid) := by
  unfold TinCompiler.generateAssign
  split
  · split
    · exact of_whole rfl ‹_›
    · exact of_not_quiet (not_quiet_failWith _ _ c)
  · exact giveUp _ ‹_›

theorem generateStep (kind : StepKind) (location : SourceLocation) (type : TypeId) :
    (generateStep kind location type).WholeIff c type.Valid := by
  refine read ?_
  split
  · split
    · exact of_whole rfl ‹_›
    · exact of_not_quiet (not_quiet_failWith _ _ c)
  · exact giveUp _ ‹_›

end WholeIff

end GeneratorM

/-! ## The types that must not be void -/

mutual

/-- No operand of the expression is used as a value, a reference or a member that is void. -/
def NoVoid (ast : AST) (scopeId : ScopeId) : ASTExpression → Prop
  | .functionCall _ arguments _ => NoVoidArguments ast scopeId arguments
  | .binary _ left right _ => NoVoid ast scopeId left ∧ NoVoid ast scopeId right
  | .not left _ => NoVoid ast scopeId left
  | .refer left _ => NoVoidReference ast scopeId left
  | .deref left _ => NoVoid ast scopeId left
  | .index left right _ => NoVoid ast scopeId right ∧ NoVoid ast scopeId left
  | .member left name location =>
      NoVoidPlace ast scopeId left ∧
        (referenceType ast scopeId (.member left name location)).Valid
  | .cast left _ _ => NoVoid ast scopeId left
  | .assign left right _ =>
      NoVoid ast scopeId right ∧ NoVoidReference ast scopeId left ∧
        (referenceType ast scopeId left).Valid ∧ (typeOf ast scopeId right).Valid
  | .step _ left _ => NoVoidReference ast scopeId left ∧ (referenceType ast scopeId left).Valid
  | _ => True

def NoVoidArguments (ast : AST) (scopeId : ScopeId) : List ASTExpression → Prop
  | [] => True
  | arg :: arguments => NoVoid ast scopeId arg ∧ NoVoidArguments ast scopeId arguments

def NoVoidReference (ast : AST) (scopeId : ScopeId) : ASTExpression → Prop
  | .deref left _ => NoVoid ast scopeId left
  | .member left _ _ => NoVoidPlace ast scopeId left
  | .index left right _ => NoVoidPlace ast scopeId left ∧ NoVoid ast scopeId right
  | _ => True

def NoVoidPlace (ast : AST) (scopeId : ScopeId) : ASTExpression → Prop
  | .member left _ _ => NoVoidPlace ast scopeId left
  | .index left right _ => NoVoidPlace ast scopeId left ∧ NoVoid ast scopeId right
  | _ => True

end

/-! ## The recursion -/

def ExpressionWhole (e : ASTExpression) : Prop :=
  ∀ c : GeneratorContext, c.ast.HasPrimitives →
    (generateExpression e).WholeIff c (NoVoid c.ast c.currentScopeId e)

def ArgumentsWhole (arguments : List ASTExpression) : Prop :=
  ∀ c : GeneratorContext, c.ast.HasPrimitives →
    (generateArguments arguments).WholeIff c (NoVoidArguments c.ast c.currentScopeId arguments)

def ReferenceWhole (e : ASTExpression) : Prop :=
  ∀ c : GeneratorContext, c.ast.HasPrimitives →
    (generateReference e).WholeIff c (NoVoidReference c.ast c.currentScopeId e)

def PlaceWhole (e : ASTExpression) : Prop :=
  ∀ c : GeneratorContext, c.ast.HasPrimitives → invalidInReference e = none →
    (generatePlace e).WholeIff c (NoVoidPlace c.ast c.currentScopeId e)

section Recursion

variable {left right : ASTExpression} {c c' : GeneratorContext}

/-- A later operand, with the types of the context before the first one. -/
theorem ExpressionWhole.after (hright : ExpressionWhole right) (hframe : SameFrame c c')
    (hprim : c.ast.HasPrimitives) :
    (generateExpression right).WholeIff c' (NoVoid c.ast c.currentScopeId right) := by
  have hwhole := hright c' (hframe.ast.symm ▸ hprim)
  rwa [hframe.ast, hframe.currentScopeId] at hwhole

theorem ArgumentsWhole.after {arguments : List ASTExpression} (harguments : ArgumentsWhole arguments)
    (hframe : SameFrame c c') (hprim : c.ast.HasPrimitives) :
    (generateArguments arguments).WholeIff c'
      (NoVoidArguments c.ast c.currentScopeId arguments) := by
  have hwhole := harguments c' (hframe.ast.symm ▸ hprim)
  rwa [hframe.ast, hframe.currentScopeId] at hwhole

theorem ReferenceWhole.after (hleft : ReferenceWhole left) (hframe : SameFrame c c')
    (hprim : c.ast.HasPrimitives) :
    (generateReference left).WholeIff c' (NoVoidReference c.ast c.currentScopeId left) := by
  have hwhole := hleft c' (hframe.ast.symm ▸ hprim)
  rwa [hframe.ast, hframe.currentScopeId] at hwhole

theorem ExpressionWhole.of_reports {e : ASTExpression} (hcode : (generateExpression e).Reports)
    (hvoid : ∀ ast scopeId, NoVoid ast scopeId e) : ExpressionWhole e :=
  fun c _ => (hcode.whole c).congr (iff_of_true trivial (hvoid _ _))

theorem ExpressionWhole.functionCall (name : String) {arguments : List ASTExpression}
    (location : SourceLocation) (harguments : ArgumentsWhole arguments) :
    ExpressionWhole (.functionCall name arguments location) := by
  intro c hprim
  rw [generateExpression]
  unfold generateCall
  refine .read ?_
  cases c.ast.findFunction name c.currentScopeId with
  | none => exact .of_not_quiet (not_quiet_failWith _ _ c)
  | some f =>
      have hframed := Framed.generateArguments arguments
      refine .afterReports (.emit _) (fun _ => Framed.getContext.bind fun _ =>
        hframed.bind fun _ => .finishCall _ _ _ _ _ _) (.read ?_)
      exact (harguments.after (Framed.emit _ c) hprim).thenReports hframed
        fun _ => .finishCall _ _ _ _ _ _

theorem ExpressionWhole.binary (kind : BinaryKind) (location : SourceLocation)
    (hleft : ExpressionWhole left) (hright : ExpressionWhole right) :
    ExpressionWhole (.binary kind left right location) := by
  intro c hprim
  rw [generateExpression]
  refine (hleft c hprim).bind (.generateExpression left)
    (fun _ => (Framed.generateExpression right).bind fun _ => .generateBinary _ _ _ _) ?_
  exact (hright.after (Framed.generateExpression left c) hprim).thenReports
    (.generateExpression right) fun _ => .generateBinary _ _ _ _

theorem ExpressionWhole.not (location : SourceLocation) (hleft : ExpressionWhole left) :
    ExpressionWhole (.not left location) := by
  intro c hprim
  rw [generateExpression]
  exact (hleft c hprim).thenReports (.generateExpression left) fun _ => .generateNot _

theorem ExpressionWhole.refer (location : SourceLocation) (hleft : ReferenceWhole left) :
    ExpressionWhole (.refer left location) := by
  intro c hprim
  rw [generateExpression]
  exact (hleft c hprim).thenReports (.generateReference left) fun _ => .pure _

theorem ExpressionWhole.deref (location : SourceLocation) (hleft : ExpressionWhole left) :
    ExpressionWhole (.deref left location) := by
  intro c hprim
  rw [generateExpression]
  exact (hleft c hprim).thenReports (.generateExpression left) fun _ => .generateDeref _ _

theorem ExpressionWhole.index (location : SourceLocation) (hleft : ExpressionWhole left)
    (hright : ExpressionWhole right) : ExpressionWhole (.index left right location) := by
  intro c hprim
  rw [generateExpression]
  refine (hright c hprim).bind (.generateExpression right)
    (fun _ => (Framed.generateExpression left).bind fun _ => .generateIndex _ _ _) ?_
  exact (hleft.after (Framed.generateExpression right c) hprim).thenReports
    (.generateExpression left) fun _ => .generateIndex _ _ _

theorem ExpressionWhole.member (name : String) (location : SourceLocation)
    (hleft : ReferenceWhole (.member left name location)) :
    ExpressionWhole (.member left name location) := by
  intro c hprim
  rw [generateExpression_member]
  refine (hleft c hprim).bind (.generateReference _) (fun _ => .generateMemberValue _ _) ?_
  rw [generateReference_fst]
  exact .generateMemberValue _ _

theorem ExpressionWhole.cast (name : String) (location : SourceLocation)
    (hleft : ExpressionWhole left) : ExpressionWhole (.cast left name location) := by
  intro c hprim
  rw [generateExpression]
  exact (hleft c hprim).thenReports (.generateExpression left) fun _ => .generateCast _ _ _

theorem ExpressionWhole.assign (location : SourceLocation) (hleft : ReferenceWhole left)
    (hright : ExpressionWhole right) : ExpressionWhole (.assign left right location) := by
  intro c hprim
  rw [generateExpression]
  have hframe := Framed.generateExpression right c
  refine (hright c hprim).bind (.generateExpression right)
    (fun _ => (Framed.generateReference left).bind fun _ => .generateAssign _ _ _) ?_
  refine (hleft.after hframe hprim).bind (.generateReference left)
    (fun _ => .generateAssign _ _ _) ?_
  rw [generateReference_fst, generateExpression_fst, hframe.ast, hframe.currentScopeId]
  exact .generateAssign _ _ _

theorem ExpressionWhole.step (kind : StepKind) (location : SourceLocation)
    (hleft : ReferenceWhole left) : ExpressionWhole (.step kind left location) := by
  intro c hprim
  rw [generateExpression]
  refine (hleft c hprim).bind (.generateReference left) (fun _ => .generateStep _ _ _) ?_
  rw [generateReference_fst]
  exact .generateStep _ _ _

theorem ArgumentsWhole.cons {arg : ASTExpression} {arguments : List ASTExpression}
    (harg : ExpressionWhole arg) (harguments : ArgumentsWhole arguments) :
    ArgumentsWhole (arg :: arguments) := by
  intro c hprim
  rw [generateArguments]
  refine (harg c hprim).bind (.generateExpression arg)
    (fun _ => (Framed.generateArguments arguments).bind fun _ => .pure _) ?_
  exact (harguments.after (Framed.generateExpression arg c) hprim).thenReports
    (.generateArguments arguments) fun _ => .pure _

theorem PlaceWhole.bindMember (name : String) (location : SourceLocation) (hleft : PlaceWhole left)
    (hprim : c.ast.HasPrimitives) (hvalid : invalidInReference left = none) :
    (bindPlace (generatePlace left) (placeMember left.name name location)).WholeIff c
      (NoVoidPlace c.ast c.currentScopeId left) :=
  ((hleft c hprim hvalid).bindPlace (.generatePlace left) (fun _ => .placeMember _ _ _ _)
    (fun hquiet => (generatePlace_moves left c hprim hvalid hquiet).1)
    fun place => (Reports.placeMember left.name name location place).whole _).congr
      (iff_of_eq (and_true _))

theorem PlaceWhole.bindIndex (location : SourceLocation) (hleft : PlaceWhole left)
    (hright : ExpressionWhole right) (hprim : c.ast.HasPrimitives)
    (hvalid : invalidInReference left = none) :
    (bindPlace (generatePlace left) (placeIndex location (generateExpression right))).WholeIff c
      (NoVoidPlace c.ast c.currentScopeId left ∧ NoVoid c.ast c.currentScopeId right) := by
  have hframed := Framed.generateExpression right
  have hframe := Framed.generatePlace left c
  refine (hleft c hprim hvalid).bindPlace (.generatePlace left) (.placeIndex _ hframed)
    (fun hquiet => (generatePlace_moves left c hprim hvalid hquiet).1) fun place => ?_
  refine .placeIndex location hframed (fun c' hast hscope => ?_) place
  have hwhole := hright c' ((hast.trans hframe.ast).symm ▸ hprim)
  rwa [hast.trans hframe.ast, hscope.trans hframe.currentScopeId] at hwhole

theorem PlaceWhole.member (name : String) (location : SourceLocation) (hleft : PlaceWhole left) :
    PlaceWhole (.member left name location) := by
  intro c hprim hvalid
  rw [generatePlace_member]
  exact hleft.bindMember name location hprim hvalid

theorem PlaceWhole.index (location : SourceLocation) (hleft : PlaceWhole left)
    (hright : ExpressionWhole right) : PlaceWhole (.index left right location) := by
  intro c hprim hvalid
  rw [generatePlace_index]
  exact hleft.bindIndex location hright hprim hvalid

theorem ReferenceWhole.deref (location : SourceLocation) (hleft : ExpressionWhole left) :
    ReferenceWhole (.deref left location) := by
  intro c hprim
  rw [generateReference_deref]
  exact (hleft c hprim).thenReports (.generateExpression left) fun _ => .pure _

theorem ReferenceWhole.identifier (name : String) (location : SourceLocation) :
    ReferenceWhole (.identifier name location) := by
  intro c _
  rw [generateReference_identifier]
  exact .referenceTo location (.placeIdentifier name location)
    (fun _ hquiet => (placeIdentifier_moves name location hquiet).1)
    fun _ => (Reports.placeIdentifier name location).whole c

theorem ReferenceWhole.member (name : String) (location : SourceLocation)
    (hleft : PlaceWhole left) : ReferenceWhole (.member left name location) := by
  intro c hprim
  rw [generateReference_member]
  exact .referenceTo location
    ((Framed.generatePlace left).bindPlace fun _ => .placeMember _ _ _ _)
    (fun hvalid hquiet => ((generatePlace_moves left).bindMember name location hprim hvalid hquiet).1)
    fun hvalid => hleft.bindMember name location hprim hvalid

theorem ReferenceWhole.index (location : SourceLocation) (hleft : PlaceWhole left)
    (hright : ExpressionWhole right) : ReferenceWhole (.index left right location) := by
  intro c hprim
  rw [generateReference_index]
  exact .referenceTo location
    ((Framed.generatePlace left).bindPlace (.placeIndex _ (.generateExpression right)))
    (fun hvalid hquiet => ((generatePlace_moves left).bindIndex location
      (generateExpression_moves right) hprim hvalid hquiet).1)
    fun hvalid => hleft.bindIndex location hright hprim hvalid

theorem ReferenceWhole.of_fails {e : ASTExpression}
    (hcode : ∀ c : GeneratorContext, ¬ (generateReference e).Quiet c) : ReferenceWhole e :=
  fun c _ => .of_not_quiet (hcode c)

end Recursion

mutual

/-- Without a report, nothing of an expression is given up exactly if no void is used in it. -/
theorem generateExpression_whole : ∀ e : ASTExpression, ExpressionWhole e
  | .identifier name location => .of_reports (.generateIdentifier name location) fun _ _ => trivial
  | .functionCall name arguments location =>
      .functionCall name location (generateArguments_whole arguments)
  | .binary kind left right location =>
      .binary kind location (generateExpression_whole left) (generateExpression_whole right)
  | .not left location => .not location (generateExpression_whole left)
  | .refer left location => .refer location (generateReference_whole left)
  | .deref left location => .deref location (generateExpression_whole left)
  | .index left right location =>
      .index location (generateExpression_whole left) (generateExpression_whole right)
  | .member left name location =>
      .member name location (.member name location (generatePlace_whole left))
  | .cast left name location => .cast name location (generateExpression_whole left)
  | .assign left right location =>
      .assign location (generateReference_whole left) (generateExpression_whole right)
  | .step kind left location => .step kind location (generateReference_whole left)
  | .sizeof .. | .literalInt .. | .literalFloat .. | .literalStr .. | .literalChar ..
  | .literalNull .. | .literalTrue .. | .literalFalse .. =>
      .of_reports (.generateConst _) fun _ _ => trivial

theorem generateArguments_whole : ∀ arguments : List ASTExpression, ArgumentsWhole arguments
  | [] => fun _ _ => .of_whole rfl trivial
  | arg :: arguments => .cons (generateExpression_whole arg) (generateArguments_whole arguments)

theorem generateReference_whole : ∀ e : ASTExpression, ReferenceWhole e
  | .deref left location => .deref location (generateExpression_whole left)
  | .identifier name location => .identifier name location
  | .member left name location => .member name location (generatePlace_whole left)
  | .index left right location =>
      .index location (generatePlace_whole left) (generateExpression_whole right)
  | .functionCall .. | .binary .. | .not .. | .refer .. | .cast .. | .assign .. | .step ..
  | .sizeof .. | .literalInt .. | .literalFloat .. | .literalStr .. | .literalChar ..
  | .literalNull .. | .literalTrue .. | .literalFalse .. => .of_fails (not_quiet_failWith _ _)

theorem generatePlace_whole : ∀ e : ASTExpression, PlaceWhole e
  | .identifier name location => fun c _ _ => (Reports.placeIdentifier name location).whole c
  | .member left name location => .member name location (generatePlace_whole left)
  | .index left right location =>
      .index location (generatePlace_whole left) (generateExpression_whole right)
  | .functionCall .. | .binary .. | .not .. | .refer .. | .deref .. | .cast .. | .assign ..
  | .step .. | .sizeof .. | .literalInt .. | .literalFloat .. | .literalStr .. | .literalChar ..
  | .literalNull .. | .literalTrue .. | .literalFalse .. => fun _ _ hvalid => by cases hvalid

end

end TinCompiler
