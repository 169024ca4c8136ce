import TinCompiler.Expressions.IntegerCode
import TinCompiler.Expressions.Stack

/-!
# Pointer levels

`REFER` raises the level of its operand's type, `DEREF` and `INDEX` lower it, and casts and
`sizeof` take it from a type string.  The field for the level has 8 bits, and it is not looked
at in all of these places: a `DEREF` below a reference is generated without a check, and no
level is ever too high.  `levelSteps_sound_iff` says that this is all that can go wrong.
-/

namespace TinCompiler

namespace AST

/-- What the 8-bit field can hold. -/
structure LevelsFit (ast : AST) : Prop where
  identifiers : ∀ s name identifier, (ast.scopes s).identifiers name = some identifier →
    identifier.type.pointerLevel < 2 ^ 8
  functions : ∀ f, (ast.functions f).returnType.pointerLevel < 2 ^ 8
  members : ∀ s, ∀ mem ∈ (ast.structures s).members, mem.typeId.pointerLevel < 2 ^ 8

end AST

/-! ## The levels of types -/

section Levels

variable {ast : AST} (h : ast.LevelsFit) (scopeId : ScopeId)

theorem setPointerLevel_lt (type : TypeId) (level : ℕ) :
    (type.setPointerLevel level).pointerLevel < 2 ^ 8 := Nat.mod_lt _ (by decide)

theorem constType_level (e : ASTExpression) : (constType e).pointerLevel < 2 ^ 8 := by
  cases e <;> simp [constType, TypeId.setPointerLevel]

theorem convertFullType_level (name : String) :
    (ast.convertFullType name scopeId).pointerLevel < 2 ^ 8 := by
  unfold AST.convertFullType
  split
  · decide
  · exact setPointerLevel_lt _ _

theorem binaryTypes_level {kind : BinaryKind} {ltype rtype : TypeId}
    (hl : ltype.pointerLevel < 2 ^ 8) (hr : rtype.pointerLevel < 2 ^ 8) :
    (((binaryTypes kind ltype rtype).map Prod.fst).getD .void).pointerLevel < 2 ^ 8 := by
  unfold binaryTypes
  repeat' split
  all_goals first | exact hl | exact hr | decide

include h

theorem findVariable_level {name : String} {identifier : Identifier}
    (hfind : ast.findVariable name scopeId = some identifier) :
    identifier.type.pointerLevel < 2 ^ 8 := by
  obtain ⟨s, hs⟩ := AST.exists_of_searchFrom hfind
  exact h.identifiers s name identifier hs

theorem identifierType_level (name : String) :
    (identifierType ast scopeId name).pointerLevel < 2 ^ 8 := by
  unfold identifierType
  split
  · decide
  · next identifier hfind =>
      split
      · exact findVariable_level h scopeId hfind
      · exact findVariable_level h scopeId hfind
      · split
        · decide
        · split
          · exact constType_level _
          · decide

theorem callType_level (name : String) (types : List TypeId) :
    (callType ast scopeId name types).pointerLevel < 2 ^ 8 := by
  unfold callType
  split
  · decide
  · dsimp only
    split
    · exact h.functions _
    · decide

theorem variableType_level {name : String} {type : TypeId}
    (hvariable : variableType ast scopeId name = some type) : type.pointerLevel < 2 ^ 8 := by
  obtain ⟨identifier, hfind, htype⟩ := Option.bind_eq_some_iff.mp hvariable
  split at htype
  · cases htype
  · obtain rfl := Option.some.inj htype
    exact findVariable_level h scopeId hfind

theorem memberType_level {previous name : String} {type type' : TypeId}
    (hmember : memberType ast previous name type = some type') : type'.pointerLevel < 2 ^ 8 := by
  unfold memberType at hmember
  split at hmember
  · split at hmember
    · cases hmember
    · next mem hmem =>
        obtain rfl := Option.some.inj hmember
        unfold memberOf at hmem
        split at hmem
        · cases hmem
        · split at hmem
          · cases hmem
          · next hfind =>
              obtain rfl := Except.ok.inj hmem
              exact h.members _ _ (List.mem_of_find?_eq_some hfind)
  · cases hmember

theorem placeType_level : ∀ {e : ASTExpression} {type : TypeId},
    placeType ast scopeId e = some type → type.pointerLevel < 2 ^ 8
  | .identifier name _, _, hplace => variableType_level h scopeId hplace
  | .member left name _, _, hplace => by
      obtain ⟨type, -, hmember⟩ := Option.bind_eq_some_iff.mp hplace
      exact memberType_level h hmember
  | .index left right _, _, hplace => by
      obtain ⟨type, -, helement⟩ := Option.bind_eq_some_iff.mp hplace
      unfold elementType at helement
      split at helement
      · obtain rfl := Option.some.inj helement
        exact setPointerLevel_lt _ _
      · cases helement
  | .functionCall .., _, hplace | .binary .., _, hplace | .not .., _, hplace
  | .refer .., _, hplace | .deref .., _, hplace | .cast .., _, hplace | .assign .., _, hplace
  | .step .., _, hplace | .sizeof .., _, hplace | .literalInt .., _, hplace
  | .literalFloat .., _, hplace | .literalStr .., _, hplace | .literalChar .., _, hplace
  | .literalNull .., _, hplace | .literalTrue .., _, hplace | .literalFalse .., _, hplace => by
      cases hplace

theorem referenceType_level (e : ASTExpression) :
    (referenceType ast scopeId e).pointerLevel < 2 ^ 8 := by
  have hgetD (type : Option TypeId) (htype : ∀ type', type = some type' →
      type'.pointerLevel < 2 ^ 8) : (type.getD .void).pointerLevel < 2 ^ 8 := by
    cases type with
    | none => decide
    | some type => exact htype type rfl
  cases e with
  | deref left location => exact setPointerLevel_lt _ _
  | identifier name location => exact hgetD _ fun _ => variableType_level h scopeId
  | member left name location =>
      rw [referenceType]
      split
      · decide
      · exact hgetD _ fun _ => placeType_level h scopeId (e := .member left name location)
  | index left right location =>
      rw [referenceType]
      split
      · decide
      · exact hgetD _ fun _ => placeType_level h scopeId (e := .index left right location)
  | _ => exact (by decide : TypeId.void.pointerLevel < 2 ^ 8)

theorem typeOf_level : ∀ e : ASTExpression, (typeOf ast scopeId e).pointerLevel < 2 ^ 8
  | .identifier name _ => identifierType_level h scopeId name
  | .functionCall name arguments _ => callType_level h scopeId name _
  | .binary kind left right _ => by
      rw [typeOf]
      exact binaryTypes_level (typeOf_level left) (typeOf_level right)
  | .refer left _ => setPointerLevel_lt _ _
  | .not left _ => typeOf_level left
  | .deref left _ => by
      rw [typeOf]
      split
      · decide
      · exact setPointerLevel_lt _ _
  | .index left right _ => by
      rw [typeOf]
      split
      · decide
      · split
        · decide
        · exact setPointerLevel_lt _ _
  | .member left name location => referenceType_level h scopeId (.member left name location)
  | .cast left name _ => by
      rw [typeOf]
      split
      · exact convertFullType_level scopeId name
      · decide
  | .assign left right _ => by
      rw [typeOf]
      split
      · exact referenceType_level h scopeId left
      · decide
  | .step _ left _ => by
      rw [typeOf]
      split <;> decide
  | .sizeof .. | .literalInt .. | .literalFloat .. | .literalStr .. | .literalChar ..
  | .literalNull .. | .literalTrue .. | .literalFalse .. => constType_level _

end Levels

/-! ## Where levels are computed -/

/-- A node that computes a pointer level, with the types of its operand and its result. -/
inductive LevelStep where
  /-- `REFER` -/
  | raise (operand result : TypeId)
  /-- `DEREF` and `INDEX`; `checked` if the level of the operand is looked at -/
  | lower (checked : Bool) (operand result : TypeId)
  /-- a type string with this number of asterisks -/
  | written (stars : ℕ) (result : TypeId)

namespace LevelStep

/-- Only pointers are dereferenced, and the level changes by exactly one. -/
def Sound : LevelStep → Prop
  | raise operand result => result.pointerLevel = operand.pointerLevel + 1
  | lower _ operand result =>
      1 ≤ operand.pointerLevel ∧ result.pointerLevel + 1 = operand.pointerLevel
  | written stars result => result.pointerLevel = stars

/-- What the generator does not check. -/
def InRange : LevelStep → Prop
  | raise operand _ => operand.pointerLevel ≠ 255
  | lower checked operand _ => checked = false → operand.pointerLevel ≠ 0
  | written stars _ => stars < 2 ^ 8

/-- How the level is computed, in a node that is accepted. -/
def Computed : LevelStep → Prop
  | raise operand result => operand.pointerLevel < 2 ^ 8 ∧ result = operand.refer
  | lower checked operand result => operand.pointerLevel < 2 ^ 8 ∧ result = operand.deref ∧
      (checked = true → operand.pointerLevel ≠ 0)
  | written stars result => result.pointerLevel = stars % 2 ^ 8

theorem sound_iff {step : LevelStep} (h : step.Computed) : step.Sound ↔ step.InRange := by
  cases step with
  | raise operand result =>
      obtain ⟨hlt, rfl⟩ := h
      simp only [Sound, InRange, TypeId.refer, TypeId.setPointerLevel]
      omega
  | lower checked operand result =>
      obtain ⟨hlt, rfl, hchecked⟩ := h
      simp only [Sound, InRange, TypeId.deref, TypeId.setPointerLevel]
      cases checked with
      | true =>
          have hlevel := hchecked rfl
          simp only [reduceCtorEq, false_implies, iff_true]
          omega
      | false =>
          simp only [true_implies]
          omega
  | written stars result =>
      have hlevel : result.pointerLevel = stars % 2 ^ 8 := h
      simp only [Sound, InRange]
      omega

end LevelStep

/-- A type string in an expression; it may name no type. -/
def writtenSteps (ast : AST) (scopeId : ScopeId) (name : String) : List LevelStep :=
  match ast.findType (AST.splitPointers name).1 scopeId with
  | none => []
  | some _ => [.written (AST.splitPointers name).2 (ast.convertFullType name scopeId)]

mutual

/-- The nodes of an expression that compute a level, when its value is generated. -/
def levelSteps (ast : AST) (scopeId : ScopeId) : ASTExpression → List LevelStep
  | .functionCall _ arguments _ => argumentSteps ast scopeId arguments
  | .binary _ left right _ => levelSteps ast scopeId left ++ levelSteps ast scopeId right
  | .not left _ => levelSteps ast scopeId left
  | .refer left location => referenceSteps ast scopeId left ++
      [.raise (referenceType ast scopeId left) (typeOf ast scopeId (.refer left location))]
  | .deref left location => levelSteps ast scopeId left ++
      [.lower true (typeOf ast scopeId left) (typeOf ast scopeId (.deref left location))]
  | .index left right location => levelSteps ast scopeId right ++ levelSteps ast scopeId left ++
      [.lower true (typeOf ast scopeId left) (typeOf ast scopeId (.index left right location))]
  | .member left _ _ => placeSteps ast scopeId left
  | .cast left name _ => levelSteps ast scopeId left ++ writtenSteps ast scopeId name
  | .assign left right _ => levelSteps ast scopeId right ++ referenceSteps ast scopeId left
  | .step _ left _ => referenceSteps ast scopeId left
  | .sizeof name _ => writtenSteps ast scopeId name
  | _ => []

def argumentSteps (ast : AST) (scopeId : ScopeId) : List ASTExpression → List LevelStep
  | [] => []
  | arg :: arguments => levelSteps ast scopeId arg ++ argumentSteps ast scopeId arguments

/-- The same when its address is generated. -/
def referenceSteps (ast : AST) (scopeId : ScopeId) : ASTExpression → List LevelStep
  | .deref left location => levelSteps ast scopeId left ++
      [.lower false (typeOf ast scopeId left) (referenceType ast scopeId (.deref left location))]
  | .member left _ _ => placeSteps ast scopeId left
  | .index left right location => placeSteps ast scopeId left ++ levelSteps ast scopeId right ++
      [.lower true ((placeType ast scopeId left).getD .void)
        ((placeType ast scopeId (.index left right location)).getD .void)]
  | _ => []

/-- The same for a node on the way to the identifier of a reference. -/
def placeSteps (ast : AST) (scopeId : ScopeId) : ASTExpression → List LevelStep
  | .member left _ _ => placeSteps ast scopeId left
  | .index left right location => placeSteps ast scopeId left ++ levelSteps ast scopeId right ++
      [.lower true ((placeType ast scopeId left).getD .void)
        ((placeType ast scopeId (.index left right location)).getD .void)]
  | _ => []

end

section Equations

variable (ast : AST) (scopeId : ScopeId) (left right : ASTExpression) (name : String)
  (location : SourceLocation)

theorem levelSteps_functionCall (arguments : List ASTExpression) :
    levelSteps ast scopeId (.functionCall name arguments location) =
      argumentSteps ast scopeId arguments := rfl

theorem levelSteps_binary (kind : BinaryKind) :
    levelSteps ast scopeId (.binary kind left right location) =
      levelSteps ast scopeId left ++ levelSteps ast scopeId right := rfl

theorem levelSteps_not : levelSteps ast scopeId (.not left location) =
    levelSteps ast scopeId left := rfl

theorem levelSteps_refer : levelSteps ast scopeId (.refer left location) =
    referenceSteps ast scopeId left ++
      [.raise (referenceType ast scopeId left) (typeOf ast scopeId (.refer left location))] := rfl

theorem levelSteps_deref : levelSteps ast scopeId (.deref left location) =
    levelSteps ast scopeId left ++
      [.lower true (typeOf ast scopeId left) (typeOf ast scopeId (.deref left location))] := rfl

theorem levelSteps_index : levelSteps ast scopeId (.index left right location) =
    levelSteps ast scopeId right ++ levelSteps ast scopeId left ++
      [.lower true (typeOf ast scopeId left) (typeOf ast scopeId (.index left right location))] := rfl

theorem levelSteps_member : levelSteps ast scopeId (.member left name location) =
    placeSteps ast scopeId left := rfl

theorem levelSteps_cast : levelSteps ast scopeId (.cast left name location) =
    levelSteps ast scopeId left ++ writtenSteps ast scopeId name := rfl

theorem levelSteps_sizeof : levelSteps ast scopeId (.sizeof name location) =
    writtenSteps ast scopeId name := rfl

theorem levelSteps_assign : levelSteps ast scopeId (.assign left right location) =
    levelSteps ast scopeId right ++ referenceSteps ast scopeId left := rfl

theorem levelSteps_step (kind : StepKind) : levelSteps ast scopeId (.step kind left location) =
    referenceSteps ast scopeId left := rfl

theorem referenceSteps_deref : referenceSteps ast scopeId (.deref left location) =
    levelSteps ast scopeId left ++ [.lower false (typeOf ast scopeId left)
      (referenceType ast scopeId (.deref left location))] := rfl

theorem referenceSteps_member : referenceSteps ast scopeId (.member left name location) =
    placeSteps ast scopeId left := rfl

theorem referenceSteps_index : referenceSteps ast scopeId (.index left right location) =
    placeSteps ast scopeId left ++ levelSteps ast scopeId right ++
      [.lower true ((placeType ast scopeId left).getD .void)
        ((placeType ast scopeId (.index left right location)).getD .void)] := rfl

theorem placeSteps_member : placeSteps ast scopeId (.member left name location) =
    placeSteps ast scopeId left := rfl

theorem placeSteps_index : placeSteps ast scopeId (.index left right location) =
    placeSteps ast scopeId left ++ levelSteps ast scopeId right ++
      [.lower true ((placeType ast scopeId left).getD .void)
        ((placeType ast scopeId (.index left right location)).getD .void)] := rfl

end Equations

/-! ## What an accepted node has checked -/

section Quiet

variable {c : GeneratorContext}

theorem quiet_bindPlace {place : GeneratorM (Option Place)}
    {next : Place → GeneratorM (Option Place)} (hframed : place.Framed)
    (hnextFramed : ∀ place', (next place').Framed) (hquiet : (bindPlace place next).Quiet c) :
    place.Quiet c ∧ ∀ place', (place c).1 = some place' → (next place').Quiet (place c).2 := by
  unfold bindPlace at hquiet
  obtain ⟨hquiet₁, hquiet₂⟩ := hquiet.of_bind hframed fun place' => by
    cases place' with
    | none => exact .pure none
    | some place' => exact hnextFramed place'
  refine ⟨hquiet₁, fun place' heq => ?_⟩
  rw [heq] at hquiet₂
  exact hquiet₂

theorem quiet_referenceTo {location : SourceLocation} {invalid : Option SourceLocation}
    {place : GeneratorM (Option Place)} (hframed : place.Framed)
    (hquiet : (referenceTo location invalid place).Quiet c) :
    invalid = none ∧ place.Quiet c := by
  cases invalid with
  | some location => exact (not_quiet_failWith _ _ c hquiet).elim
  | none =>
      unfold referenceTo at hquiet
      exact ⟨rfl, (hquiet.of_bind hframed fun place' => by
        cases place' with
        | none => exact .giveUp location
        | some place' => exact (GeneratorM.Framed.emit _).bind fun _ => .pure _).1⟩

theorem quiet_placeIndex {location : SourceLocation} {right : GeneratorM TypeId} {place : Place}
    (hframed : right.Framed) (hquiet : (placeIndex location right place).Quiet c) :
    place.type.pointerLevel ≠ 0 ∧
      ∃ piece, right.Quiet (c.withPiece piece) ∧ (right (c.withPiece piece)).1 = .int := by
  unfold placeIndex at hquiet
  unfold GeneratorM.Quiet at hquiet
  rw [GeneratorM.ite_apply] at hquiet
  by_cases hlevel : place.type.pointerLevel > 0
  · rw [if_pos hlevel] at hquiet
    let c₁ := c.withPiece ((emitLoadPointer place c.piece).emitPush .b)
    have hboth : (right >>= finishElement location place).Quiet c₁ := hquiet
    obtain ⟨hquiet₁, hquiet₂⟩ := hboth.of_bind hframed fun rtype =>
      GeneratorM.Framed.finishElement location place rtype
    exact ⟨Nat.ne_of_gt hlevel, _, hquiet₁, (finishElement_moves location place hquiet₂).1⟩
  · rw [if_neg hlevel, getContext_bind_apply] at hquiet
    exact (not_quiet_report _ _ (.pure _) c hquiet).elim

theorem quiet_call {name : String} {location : SourceLocation}
    {arguments : GeneratorM (List TypeId)} (hframed : arguments.Framed)
    (hquiet : (generateCall name location arguments).Quiet c) :
    ∃ piece, arguments.Quiet (c.withPiece piece) := by
  unfold generateCall GeneratorM.Quiet at hquiet
  rw [getContext_bind_apply] at hquiet
  cases hfind : c.ast.findFunction name c.currentScopeId with
  | none => rw [hfind] at hquiet; exact (not_quiet_failWith _ _ c hquiet).elim
  | some f =>
      rw [hfind] at hquiet
      let c₁ := c.withPiece (c.piece.emitIncr .sp (-(c.ast.functions f).parametersSize))
      have hboth : (arguments >>= fun types =>
          finishCall name location f (c.ast.functions f) c₁.piece.virtualSp types).Quiet c₁ := hquiet
      exact ⟨_, (hboth.of_bind hframed fun types =>
        GeneratorM.Framed.finishCall name location f _ c₁.piece.virtualSp types).1⟩

end Quiet

/-! ## The recursion -/

/-- Wherever `x` is accepted in the scope, the steps compute their levels. -/
def GeneratorM.Computes {α : Type} (x : GeneratorM α) (ast : AST) (scopeId : ScopeId)
    (steps : List LevelStep) : Prop :=
  ∀ c : GeneratorContext, c.ast = ast → c.currentScopeId = scopeId → x.Quiet c →
    ∀ step ∈ steps, step.Computed

section Recursion

variable {ast : AST} {scopeId : ScopeId} {left right : ASTExpression} {steps steps' : List LevelStep}

theorem writtenSteps_computed (name : String) :
    ∀ step ∈ writtenSteps ast scopeId name, step.Computed := by
  intro step hstep
  unfold writtenSteps at hstep
  split at hstep
  · cases hstep
  · next info hfind =>
      obtain rfl := List.mem_singleton.mp hstep
      simp [LevelStep.Computed, AST.convertFullType, hfind, TypeId.setPointerLevel]

/-- Two operands, one behind the other. -/
theorem GeneratorM.Computes.pair {α β γ : Type} {x : GeneratorM α} {y : GeneratorM β}
    {f : α → β → GeneratorM γ} (hx : x.Framed) (hy : y.Framed) (hf : ∀ a b, (f a b).Framed)
    (hxs : x.Computes ast scopeId steps) (hys : y.Computes ast scopeId steps') :
    (x >>= fun a => y >>= fun b => f a b).Computes ast scopeId (steps ++ steps') := by
  intro c hast hscope hquiet step hstep
  obtain ⟨hquiet₁, hquiet₂⟩ := hquiet.of_bind hx fun a => hy.bind fun b => hf a b
  obtain ⟨hquiet₂, -⟩ := hquiet₂.of_bind hy fun b => hf _ b
  rcases List.mem_append.mp hstep with hstep | hstep
  · exact hxs c hast hscope hquiet₁ step hstep
  · exact hys _ ((hx c).ast.trans hast) ((hx c).currentScopeId.trans hscope) hquiet₂ step hstep

theorem GeneratorM.Computes.bind {α β : Type} {x : GeneratorM α} {f : α → GeneratorM β}
    (hx : x.Framed) (hf : ∀ a, (f a).Framed) (hxs : x.Computes ast scopeId steps) :
    (x >>= f).Computes ast scopeId steps :=
  fun c hast hscope hquiet => hxs c hast hscope (hquiet.of_bind hx hf).1

/-- A node behind its operands. -/
theorem GeneratorM.Computes.concat {α : Type} {x : GeneratorM α} {last : LevelStep}
    (hxs : x.Computes ast scopeId steps)
    (hlast : ∀ c : GeneratorContext, c.ast = ast → c.currentScopeId = scopeId → x.Quiet c →
      last.Computed) : x.Computes ast scopeId (steps ++ [last]) := by
  intro c hast hscope hquiet step hstep
  rcases List.mem_append.mp hstep with hstep | hstep
  · exact hxs c hast hscope hquiet step hstep
  · exact List.mem_singleton.mp hstep ▸ hlast c hast hscope hquiet

/-- A place that is found has its type. -/
theorem placeType_of_quiet {e : ASTExpression} {c : GeneratorContext} (hprim : c.ast.HasPrimitives)
    (hvalid : invalidInReference e = none) (hquiet : (generatePlace e).Quiet c) :
    ∃ place, (generatePlace e c).1 = some place ∧
      placeType c.ast c.currentScopeId e = some place.type := by
  obtain ⟨place, hplace⟩ := Option.isSome_iff_exists.mp (generatePlace_moves e c hprim hvalid hquiet).1
  refine ⟨place, hplace, ?_⟩
  rw [← generatePlace_fst, hplace]
  rfl

/-- The steps of a place with an index behind it. -/
theorem computes_element (h : ast.LevelsFit) (hprim : ast.HasPrimitives) (location : SourceLocation)
    (hvalid : invalidInReference left = none)
    (hleft : (generatePlace left).Computes ast scopeId steps)
    (hright : (generateExpression right).Computes ast scopeId steps') :
    (bindPlace (generatePlace left) (placeIndex location (generateExpression right))).Computes ast
      scopeId (steps ++ steps' ++ [.lower true ((placeType ast scopeId left).getD .void)
        ((placeType ast scopeId (.index left right location)).getD .void)]) := by
  intro c hast hscope hquiet
  have hframed := GeneratorM.Framed.generatePlace left
  obtain ⟨hquiet₁, hquiet₂⟩ := quiet_bindPlace hframed
    (.placeIndex location (GeneratorM.Framed.generateExpression right)) hquiet
  obtain ⟨place, hplace, htype⟩ := placeType_of_quiet (hast ▸ hprim) hvalid hquiet₁
  obtain ⟨hlevel, piece, hquiet₃, hint⟩ := quiet_placeIndex
    (GeneratorM.Framed.generateExpression right) (hquiet₂ place hplace)
  have hast' : ((generatePlace left c).2.withPiece piece).ast = ast := (hframed c).ast.trans hast
  have hscope' : ((generatePlace left c).2.withPiece piece).currentScopeId = scopeId :=
    (hframed c).currentScopeId.trans hscope
  rw [generateExpression_fst, hast', hscope'] at hint
  rw [hast, hscope] at htype
  intro step hstep
  simp only [List.mem_append, List.mem_singleton, or_assoc] at hstep
  rcases hstep with hstep | hstep | rfl
  · exact hleft c hast hscope hquiet₁ step hstep
  · exact hright _ hast' hscope' hquiet₃ step hstep
  · have helement : placeType ast scopeId (.index left right location) = some place.type.deref := by
      rw [placeType, htype, Option.bind_some, elementType,
        if_pos ⟨Nat.pos_of_ne_zero hlevel, hint⟩]
    rw [htype, helement]
    exact ⟨placeType_level h scopeId htype, rfl, fun _ => hlevel⟩

/-- The nodes of its value compute their levels. -/
def ValueComputes (ast : AST) (scopeId : ScopeId) (e : ASTExpression) : Prop :=
  (generateExpression e).Computes ast scopeId (levelSteps ast scopeId e)

def ReferenceComputes (ast : AST) (scopeId : ScopeId) (e : ASTExpression) : Prop :=
  (generateReference e).Computes ast scopeId (referenceSteps ast scopeId e)

def PlaceComputes (ast : AST) (scopeId : ScopeId) (e : ASTExpression) : Prop :=
  invalidInReference e = none → (generatePlace e).Computes ast scopeId (placeSteps ast scopeId e)

theorem GeneratorM.Computes.nil {α : Type} (x : GeneratorM α) : x.Computes ast scopeId [] :=
  fun _ _ _ _ _ hstep => absurd hstep List.not_mem_nil

theorem ValueComputes.functionCall (name : String) {arguments : List ASTExpression}
    (location : SourceLocation) (harguments : (generateArguments arguments).Computes ast scopeId
      (argumentSteps ast scopeId arguments)) :
    ValueComputes ast scopeId (.functionCall name arguments location) := by
  unfold ValueComputes
  rw [generateExpression, levelSteps_functionCall]
  intro c hast hscope hquiet
  obtain ⟨piece, hquiet'⟩ := quiet_call (GeneratorM.Framed.generateArguments arguments) hquiet
  exact harguments (c.withPiece piece) hast hscope hquiet'

theorem ValueComputes.binary (kind : BinaryKind) (location : SourceLocation)
    (hleft : ValueComputes ast scopeId left) (hright : ValueComputes ast scopeId right) :
    ValueComputes ast scopeId (.binary kind left right location) := by
  unfold ValueComputes
  rw [generateExpression, levelSteps_binary]
  exact .pair (.generateExpression left) (.generateExpression right)
    (fun _ _ => .generateBinary _ _ _ _) hleft hright

theorem ValueComputes.not (location : SourceLocation) (hleft : ValueComputes ast scopeId left) :
    ValueComputes ast scopeId (.not left location) := by
  unfold ValueComputes
  rw [generateExpression, levelSteps_not]
  exact .bind (.generateExpression left) (fun _ => .generateNot _) hleft

theorem ValueComputes.refer (h : ast.LevelsFit) (location : SourceLocation)
    (hleft : ReferenceComputes ast scopeId left) :
    ValueComputes ast scopeId (.refer left location) := by
  unfold ValueComputes
  rw [generateExpression, levelSteps_refer]
  have hreference : (do return (← generateReference left).refer : GeneratorM TypeId).Computes ast
      scopeId (referenceSteps ast scopeId left) := hleft
  exact hreference.concat fun _ _ _ _ => ⟨referenceType_level h scopeId left, rfl⟩

theorem ValueComputes.deref (h : ast.LevelsFit) (location : SourceLocation)
    (hleft : ValueComputes ast scopeId left) :
    ValueComputes ast scopeId (.deref left location) := by
  unfold ValueComputes
  rw [generateExpression, levelSteps_deref]
  have hvalue : (generateExpression left >>= generateDeref left.location).Computes ast scopeId
      (levelSteps ast scopeId left) :=
    .bind (.generateExpression left) (fun _ => .generateDeref _ _) hleft
  refine hvalue.concat fun c hast hscope hquiet => ?_
  obtain ⟨-, hquiet₂⟩ := hquiet.of_bind (.generateExpression left) fun _ => .generateDeref _ _
  rw [generateExpression_fst left c, hast, hscope] at hquiet₂
  obtain ⟨hlevel, -⟩ := generateDeref_moves left.location hquiet₂
  refine ⟨typeOf_level h scopeId left, ?_, fun _ => hlevel⟩
  rw [typeOf, if_neg hlevel]

theorem ValueComputes.index (h : ast.LevelsFit) (location : SourceLocation)
    (hleft : ValueComputes ast scopeId left) (hright : ValueComputes ast scopeId right) :
    ValueComputes ast scopeId (.index left right location) := by
  unfold ValueComputes
  rw [generateExpression, levelSteps_index]
  have hboth : (generateExpression right >>= fun rtype => generateExpression left >>= fun ltype =>
      generateIndex left.location rtype ltype).Computes ast scopeId
        (levelSteps ast scopeId right ++ levelSteps ast scopeId left) :=
    .pair (.generateExpression right) (.generateExpression left) (fun _ _ => .generateIndex _ _ _)
      hright hleft
  refine hboth.concat fun c hast hscope hquiet => ?_
  obtain ⟨-, hquiet₂⟩ := hquiet.of_bind (.generateExpression right)
    fun _ => (GeneratorM.Framed.generateExpression left).bind fun _ => .generateIndex _ _ _
  obtain ⟨-, hquiet₃⟩ := hquiet₂.of_bind (.generateExpression left)
    fun _ => .generateIndex _ _ _
  have hframe := GeneratorM.Framed.generateExpression right c
  rw [generateExpression_fst left, generateExpression_fst right c, hframe.ast,
    hframe.currentScopeId, hast, hscope] at hquiet₃
  obtain ⟨hlevel, hint, -⟩ := generateIndex_moves left.location hquiet₃
  refine ⟨typeOf_level h scopeId left, ?_, fun _ => hlevel⟩
  rw [typeOf, if_neg hlevel, if_neg (not_not.mpr hint)]

theorem ValueComputes.cast (name : String) (location : SourceLocation)
    (hleft : ValueComputes ast scopeId left) :
    ValueComputes ast scopeId (.cast left name location) := by
  unfold ValueComputes
  rw [generateExpression, levelSteps_cast]
  intro c hast hscope hquiet step hstep
  rcases List.mem_append.mp hstep with hstep | hstep
  · exact hleft c hast hscope (hquiet.of_bind (.generateExpression left)
      fun _ => .generateCast _ _ _).1 step hstep
  · exact writtenSteps_computed name step hstep

theorem ValueComputes.sizeof (name : String) (location : SourceLocation) :
    ValueComputes ast scopeId (.sizeof name location) := by
  unfold ValueComputes
  rw [levelSteps_sizeof]
  exact fun _ _ _ _ => writtenSteps_computed name

theorem ValueComputes.assign (location : SourceLocation)
    (hleft : ReferenceComputes ast scopeId left) (hright : ValueComputes ast scopeId right) :
    ValueComputes ast scopeId (.assign left right location) := by
  unfold ValueComputes
  rw [generateExpression, levelSteps_assign]
  exact .pair (.generateExpression right) (.generateReference left)
    (fun _ _ => .generateAssign _ _ _) hright hleft

theorem ValueComputes.step (kind : StepKind) (location : SourceLocation)
    (hleft : ReferenceComputes ast scopeId left) :
    ValueComputes ast scopeId (.step kind left location) := by
  unfold ValueComputes
  rw [generateExpression, levelSteps_step]
  exact .bind (.generateReference left) (fun _ => .generateStep _ _ _) hleft

theorem ReferenceComputes.deref (h : ast.LevelsFit) (location : SourceLocation)
    (hleft : ValueComputes ast scopeId left) :
    ReferenceComputes ast scopeId (.deref left location) := by
  unfold ReferenceComputes
  rw [generateReference_deref, referenceSteps_deref]
  refine GeneratorM.Computes.concat
    (.bind (.generateExpression left) (fun ltype => .pure ltype.deref) hleft) fun c _ _ _ => ?_
  exact ⟨typeOf_level h scopeId left, by rw [referenceType], fun hchecked => nomatch hchecked⟩

theorem ReferenceComputes.member (name : String) (location : SourceLocation)
    (hleft : PlaceComputes ast scopeId left) :
    ReferenceComputes ast scopeId (.member left name location) := by
  unfold ReferenceComputes
  rw [generateReference_member, referenceSteps_member]
  intro c hast hscope hquiet
  have hmember := GeneratorM.Framed.placeMember left.name name location
  obtain ⟨hvalid, hquiet₁⟩ :=
    quiet_referenceTo ((GeneratorM.Framed.generatePlace left).bindPlace hmember) hquiet
  obtain ⟨hquiet₂, -⟩ := quiet_bindPlace (.generatePlace left) hmember hquiet₁
  exact hleft hvalid c hast hscope hquiet₂

theorem ReferenceComputes.index (h : ast.LevelsFit) (hprim : ast.HasPrimitives)
    (location : SourceLocation) (hleft : PlaceComputes ast scopeId left)
    (hright : ValueComputes ast scopeId right) :
    ReferenceComputes ast scopeId (.index left right location) := by
  unfold ReferenceComputes
  rw [generateReference_index, referenceSteps_index]
  intro c hast hscope hquiet
  have hframed := (GeneratorM.Framed.generatePlace left).bindPlace
    (.placeIndex location (GeneratorM.Framed.generateExpression right))
  obtain ⟨hvalid, hquiet₁⟩ := quiet_referenceTo hframed hquiet
  exact computes_element h hprim location hvalid (hleft hvalid) hright c hast hscope hquiet₁

theorem ValueComputes.member (name : String) (location : SourceLocation)
    (hleft : PlaceComputes ast scopeId left) :
    ValueComputes ast scopeId (.member left name location) := by
  unfold ValueComputes
  rw [generateExpression_member, levelSteps_member]
  exact .bind (.generateReference _) (fun _ => .generateMemberValue _ _)
    (ReferenceComputes.member name location hleft)

theorem PlaceComputes.member (name : String) (location : SourceLocation)
    (hleft : PlaceComputes ast scopeId left) :
    PlaceComputes ast scopeId (.member left name location) := by
  intro hvalid
  rw [generatePlace_member, placeSteps_member]
  intro c hast hscope hquiet
  obtain ⟨hquiet₁, -⟩ := quiet_bindPlace (.generatePlace left)
    (GeneratorM.Framed.placeMember left.name name location) hquiet
  exact hleft hvalid c hast hscope hquiet₁

theorem PlaceComputes.index (h : ast.LevelsFit) (hprim : ast.HasPrimitives)
    (location : SourceLocation) (hleft : PlaceComputes ast scopeId left)
    (hright : ValueComputes ast scopeId right) :
    PlaceComputes ast scopeId (.index left right location) := by
  intro hvalid
  rw [generatePlace_index, placeSteps_index]
  exact computes_element h hprim location hvalid (hleft hvalid) hright

end Recursion

section Trees

variable {ast : AST} (h : ast.LevelsFit) (hprim : ast.HasPrimitives) (scopeId : ScopeId)

include h hprim

mutual

theorem levelSteps_computed : ∀ e : ASTExpression, ValueComputes ast scopeId e
  | .functionCall name arguments location =>
      .functionCall name location (argumentSteps_computed arguments)
  | .binary kind left right location =>
      .binary kind location (levelSteps_computed left) (levelSteps_computed right)
  | .not left location => .not location (levelSteps_computed left)
  | .refer left location => .refer h location (referenceSteps_computed left)
  | .deref left location => .deref h location (levelSteps_computed left)
  | .index left right location =>
      .index h location (levelSteps_computed left) (levelSteps_computed right)
  | .member left name location => .member name location (placeSteps_computed left)
  | .cast left name location => .cast name location (levelSteps_computed left)
  | .assign left right location =>
      .assign location (referenceSteps_computed left) (levelSteps_computed right)
  | .step kind left location => .step kind location (referenceSteps_computed left)
  | .sizeof name location => .sizeof name location
  | .identifier .. | .literalInt .. | .literalFloat .. | .literalStr .. | .literalChar ..
  | .literalNull .. | .literalTrue .. | .literalFalse .. => .nil _

theorem argumentSteps_computed : ∀ arguments : List ASTExpression,
    (generateArguments arguments).Computes ast scopeId (argumentSteps ast scopeId arguments)
  | [] => .nil _
  | arg :: arguments =>
      .pair (.generateExpression arg) (.generateArguments arguments) (fun _ _ => .pure _)
        (levelSteps_computed arg) (argumentSteps_computed arguments)

theorem referenceSteps_computed : ∀ e : ASTExpression, ReferenceComputes ast scopeId e
  | .deref left location => .deref h location (levelSteps_computed left)
  | .member left name location => .member name location (placeSteps_computed left)
  | .index left right location =>
      .index h hprim location (placeSteps_computed left) (levelSteps_computed right)
  | .identifier .. | .functionCall .. | .binary .. | .not .. | .refer .. | .cast ..
  | .assign .. | .step .. | .sizeof .. | .literalInt .. | .literalFloat .. | .literalStr ..
  | .literalChar .. | .literalNull .. | .literalTrue .. | .literalFalse .. => .nil _

theorem placeSteps_computed : ∀ e : ASTExpression, PlaceComputes ast scopeId e
  | .member left name location => .member name location (placeSteps_computed left)
  | .index left right location =>
      .index h hprim location (placeSteps_computed left) (levelSteps_computed right)
  | .identifier .. | .functionCall .. | .binary .. | .not .. | .refer .. | .deref .. | .cast ..
  | .assign .. | .step .. | .sizeof .. | .literalInt .. | .literalFloat .. | .literalStr ..
  | .literalChar .. | .literalNull .. | .literalTrue .. | .literalFalse .. => fun _ => .nil _

end

end Trees

/-! ## The levels of what is accepted -/

/-- In a tree that is accepted, as a value or as a reference, the levels are as they should be
exactly if no reference is raised from level 255, nothing but a pointer is dereferenced below a
reference, and no type string has more than 255 asterisks. -/
theorem levelSteps_sound_iff (c : GeneratorContext) (hprim : c.ast.HasPrimitives)
    (h : c.ast.LevelsFit) (e : ASTExpression) :
    ((generateExpression e).Quiet c →
      ((∀ step ∈ levelSteps c.ast c.currentScopeId e, step.Sound) ↔
        ∀ step ∈ levelSteps c.ast c.currentScopeId e, step.InRange)) ∧
    ((generateReference e).Quiet c →
      ((∀ step ∈ referenceSteps c.ast c.currentScopeId e, step.Sound) ↔
        ∀ step ∈ referenceSteps c.ast c.currentScopeId e, step.InRange)) := by
  constructor
  · intro hquiet
    have hcomputed := levelSteps_computed h hprim c.currentScopeId e c rfl rfl hquiet
    exact forall₂_congr fun step hstep => LevelStep.sound_iff (hcomputed step hstep)
  · intro hquiet
    have hcomputed := referenceSteps_computed h hprim c.currentScopeId e c rfl rfl hquiet
    exact forall₂_congr fun step hstep => LevelStep.sound_iff (hcomputed step hstep)

theorem contextOfX_levelsFit : IntExpr.contextOfX.ast.LevelsFit := by
  refine ⟨fun s name identifier hidentifier => ?_, fun f => ?_, fun s mem hmem => ?_⟩
  · by_cases hx : s = globalScope ∧ name = "x"
    · obtain ⟨rfl, rfl⟩ := hx
      obtain rfl := Option.some.inj hidentifier
      decide
    · have hnone : (IntExpr.contextOfX.ast.scopes s).identifiers name = none := by
        by_cases hs : s = globalScope
        · subst hs
          exact Function.update_of_ne (fun hname => hx ⟨rfl, hname⟩) _ _
        · have hscope : IntExpr.contextOfX.ast.scopes s = AST.initial.scopes s :=
            Function.update_of_ne hs _ _
          rw [hscope, AST.initial_scopes hs]
      rw [hnone] at hidentifier
      cases hidentifier
  · have hreturn : ∀ f : ASTFunction, f ∈ AST.nativeFunctions → f.returnType = .void := by decide
    change (AST.nativeFunctions.getD f {}).returnType.pointerLevel < 2 ^ 8
    rw [List.getD_eq_getElem?_getD]
    cases hf : AST.nativeFunctions[f]? with
    | none => decide
    | some function =>
        rw [Option.getD_some, hreturn function (List.mem_of_getElem? hf)]
        decide
  · exact absurd hmem List.not_mem_nil

theorem levelSteps_sound_value : (levelSteps IntExpr.contextOfX.ast globalScope
    (.deref (.refer (.identifier "x" 0) 0) 0)).Forall LevelStep.Sound := by
  refine List.forall_iff_forall_mem.mpr (((levelSteps_sound_iff IntExpr.contextOfX
    IntExpr.contextOfX_hasPrimitives contextOfX_levelsFit
    (.deref (.refer (.identifier "x" 0) 0) 0)).1 rfl).mpr fun step hstep => ?_)
  rcases List.mem_pair.mp hstep with rfl | rfl
  · exact (by decide : TypeId.int.pointerLevel ≠ 255)
  · exact fun hchecked => nomatch hchecked

/-- `&*x` with `x` an `int`: level 0 is lowered to 255 and raised to 0 again. -/
theorem not_levelSteps_sound :
    ¬ ∀ (c : GeneratorContext) (e : ASTExpression), c.ast.HasPrimitives → c.ast.LevelsFit →
      (generateExpression e).Quiet c →
      ∀ step ∈ levelSteps c.ast c.currentScopeId e, step.Sound := by
  intro h
  have hsteps := h IntExpr.contextOfX (.refer (.deref (.identifier "x" 0) 0) 0)
    IntExpr.contextOfX_hasPrimitives contextOfX_levelsFit rfl
  have hunsound : ¬ (LevelStep.lower false .int (TypeId.int.deref)).Sound :=
    fun hsound => absurd hsound.1 (by decide)
  exact hunsound (hsteps _ (.head _))

end TinCompiler
